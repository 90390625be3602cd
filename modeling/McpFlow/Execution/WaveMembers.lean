import McpFlow.Execution.Moves
import McpFlow.Execution.Unread

/-!
# The members of a wave

The runs of the TOOL Steps of a parallel wave return in any order. Each returns by one transaction:
the call is finalized, it asked for input, or the final gate met a cancellation. What that
transaction writes over the rows of its member depends on the member alone, so it is a `Closing`
that is the same whatever the other members have done; only the reconcile of a requested
cancellation looks at the calls of the others.
-/

namespace McpFlow

/-- How the run of a member returns. -/
inductive MemberEnd where
  /-- `_finalize_locked`. -/
  | finalized (pinned : Except AppError PinnedToolPolicy) (callEnd : CallEnd)
  /-- `_finalize_input_required`. -/
  | inputRequired (mrtr : InputRequired) (requestId : UUID)
  /-- `_final_pre_send_gate`. -/
  | gate (verdict : Option String)

/-- The last transaction of `run_claimed_tool_step` for one member. -/
structure Completion where
  call : PreparedCall
  memberEnd : MemberEnd
  now : Time

/-- The transaction. A gate that lets the call go on is no end of a run. -/
def Completion.run (c : Completion) (db : Db) : Tx ToolRunOutcome :=
  match c.memberEnd with
  | .finalized pinned callEnd => finalizeLocked pinned c.call callEnd c.now db
  | .inputRequired mrtr requestId => finalizeInputRequired c.call mrtr requestId c.now db
  | .gate verdict => match finalPreSendGate verdict c.call c.now db with
    | .error e => .error e
    | .ok (.outcome outcome, db) => .ok (outcome, db)
    | .ok _ => .error .assertionError

/-- The members return one after another. -/
def runCompletions : List Completion → Db → Tx (List (UUID × ToolRunOutcome))
  | [], db => .ok ([], db)
  | c :: cs, db => match c.run db with
    | .error e => .error e
    | .ok (outcome, db) => match runCompletions cs db with
      | .error e => .error e
      | .ok (outcomes, db) => .ok ((c.call.stepId, outcome) :: outcomes, db)

/-- A requested cancellation closes the member without a result of its call. -/
def Completion.closedByCancellation (c : Completion) : Bool :=
  match c.memberEnd with
  | .finalized _ _ => false
  | .inputRequired mrtr _ => !mrtr.echoesSecret
  | .gate _ => true

/-- The row that a member without time left inserts. -/
def Completion.requestId? (c : Completion) : Option UUID :=
  match c.memberEnd with
  | .inputRequired _ requestId => some requestId
  | _ => none

/-- A member of a parallel wave whose call is in flight, and that returns without a retry. -/
structure Completion.InFlight (c : Completion) (db : Db) (step : ExecutionStep)
    (attempt : StepAttempt) (toolCall : ToolCall) : Prop where
  fence : finalizeFence c.call c.now db = some (step, attempt, toolCall)
  lineage : preparedInvocationLineageMatches step attempt toolCall c.call = true
  defers : c.call.deferExecutionTerminalization = true
  forbids : c.call.forbidExecutionWait = true
  returns : ∃ outcome db', c.run db = .ok (outcome, db') ∧ outcome.disposition ≠ .retry

/-! ### States that a member does not tell apart -/

/-- The rows that the end of a member reads are the same. -/
structure SameMember (c : Completion) (db db₂ : Db) : Prop where
  execution : ∃ heartbeatAt, db₂.execution = { db.execution with heartbeatAt := heartbeatAt }
  step : db₂.steps.find? c.call.stepId = db.steps.find? c.call.stepId
  attempt : db₂.attempts.find? c.call.attemptId = db.attempts.find? c.call.attemptId
  toolCall : db₂.toolCalls.find? c.call.toolCallId = db.toolCalls.find? c.call.toolCallId
  calls : db₂.listToolCalls c.call.attemptId = db.listToolCalls c.call.attemptId
  fresh : ∀ requestId, c.requestId? = some requestId → ∀ r ∈ db₂.inputRequests, r.id ≠ requestId

section SameMember

variable {c : Completion} {db db₂ : Db}

theorem SameMember.fence_eq (h : SameMember c db db₂) :
    finalizeFence c.call c.now db₂ = finalizeFence c.call c.now db := by
  obtain ⟨heartbeatAt, hexecution⟩ := h.execution
  unfold finalizeFence
  rw [h.step, h.attempt, h.toolCall, hexecution]
  rfl

theorem SameMember.cancellationIsRequested (h : SameMember c db db₂) :
    db₂.execution.cancellationIsRequested = db.execution.cancellationIsRequested := by
  obtain ⟨heartbeatAt, hexecution⟩ := h.execution
  rw [hexecution]
  rfl

theorem SameMember.status (h : SameMember c db db₂) :
    db₂.execution.status = db.execution.status := by
  obtain ⟨heartbeatAt, hexecution⟩ := h.execution
  rw [hexecution]

theorem SameMember.roundNo (h : SameMember c db db₂) {attempt : StepAttempt} (toolCall : ToolCall)
    (hid : attempt.id = c.call.attemptId) :
    mrtrRoundNo db₂ attempt toolCall = mrtrRoundNo db attempt toolCall := by
  unfold mrtrRoundNo
  rw [hid, h.calls]

end SameMember

/-! ### Closings -/

/-- The rows of a member after its end. -/
structure Closing where
  step : ExecutionStep
  attempt : StepAttempt
  toolCall : ToolCall

/-- Write them. -/
def Closing.apply (k : Closing) (db : Db) : Db :=
  ((db.putToolCall k.toolCall).putAttempt k.attempt).putStep k.step

/-- The rows are those of the member, and its call is no longer in flight. -/
structure Closing.Of (k : Closing) (step : ExecutionStep) (attempt : StepAttempt)
    (toolCall : ToolCall) : Prop where
  sameStep : SameStep step k.step
  terminal : k.step.status.isTerminal = true
  attemptId : k.attempt.id = attempt.id
  toolCallId : k.toolCall.id = toolCall.id
  owner : k.toolCall.stepAttemptId = toolCall.stepAttemptId
  closed : k.toolCall.normalizedStatus ≠ .started

theorem Closing.readable_apply (k : Closing) (db : Db) :
    (k.apply db).readable = k.apply db.readable := rfl

/-- The rows of `settleCallRows`. -/
def settleClosing (step : ExecutionStep) (attempt : StepAttempt) (toolCall : ToolCall)
    (callStatus status : StepAttemptStatus) (errorCode : String) (now : Time) : Closing where
  step := { step with
    status := status.toStep, errorCode := some errorCode, finishedAt := some now }
  attempt :=
    { attempt with
      status := status
      errorCode := some errorCode
      isRetryable := some false
      finishedAt := some now
      workerId := none
      leaseExpiresAt := none }
  toolCall := { toolCall with normalizedStatus := callStatus, finishedAt := some now }

theorem settleClosing_of {step s : ExecutionStep} {attempt a : StepAttempt} {toolCall : ToolCall}
    {callStatus status : StepAttemptStatus} {errorCode : String} {now : Time}
    (hs : SameStep step s) (ha : a.id = attempt.id) (hstatus : status ≠ .started)
    (hcall : callStatus ≠ .started) :
    (settleClosing s a toolCall callStatus status errorCode now).Of step attempt toolCall where
  sameStep := hs
  terminal := Db.Moves.isTerminal_toStep hstatus
  attemptId := ha
  toolCallId := rfl
  owner := rfl
  closed := hcall

/-- The rows of a member that a cancellation closes. -/
def cancelClosing (step : ExecutionStep) (attempt : StepAttempt) (toolCall : ToolCall)
    (callStatus : StepAttemptStatus) (now : Time) : Closing where
  step := step.cancel now
  attempt := attempt.cancel now
  toolCall := { toolCall with normalizedStatus := callStatus, finishedAt := some now }

theorem cancelClosing_of {step : ExecutionStep} {attempt : StepAttempt} {toolCall : ToolCall}
    {callStatus : StepAttemptStatus} {now : Time} (hcall : callStatus ≠ .started) :
    (cancelClosing step attempt toolCall callStatus now).Of step attempt toolCall where
  sameStep := by
    unfold SameStep cancelClosing ExecutionStep.cancel
    dsimp only
    split <;> rfl
  terminal := step.isTerminal_cancel now
  attemptId := attempt.id_cancel now
  toolCallId := rfl
  owner := rfl
  closed := hcall

/-- The rows of a finalized call. -/
def callClosing (step : ExecutionStep) (attempt : StepAttempt) (toolCall : ToolCall)
    (callEnd : CallEnd) (risk : RiskClass) (now : Time) : Closing where
  step := { step with
    status := (callEnd.terminal risk).toStep
    errorCode := callEnd.errorCode
    resultInline := callEnd.resultInline
    finishedAt := some now }
  attempt := { attempt with
    status := callEnd.terminal risk
    errorCode := callEnd.errorCode
    isRetryable := some (callEnd.callError.any (·.retryable))
    resultInline := callEnd.resultInline
    finishedAt := some now }
  toolCall := { toolCall with normalizedStatus := callEnd.terminal risk, finishedAt := some now }

theorem callClosing_of {step : ExecutionStep} {attempt : StepAttempt} {toolCall : ToolCall}
    {callEnd : CallEnd} {risk : RiskClass} {now : Time} :
    (callClosing step attempt toolCall callEnd risk now).Of step attempt toolCall where
  sameStep := rfl
  terminal := Db.Moves.isTerminal_toStep (callEnd.terminal_ne_started risk)
  attemptId := rfl
  toolCallId := rfl
  owner := rfl
  closed := callEnd.terminal_ne_started risk

/-- A deferred terminal transition writes the rows of its call and a heartbeat. -/
theorem applyTerminalTransition_defer (step : ExecutionStep) (attempt : StepAttempt)
    (toolCall : ToolCall) (callEnd : CallEnd) (risk : RiskClass) (now : Time) (db : Db) :
    applyTerminalTransition step attempt toolCall callEnd risk now true db =
      ((callClosing step attempt toolCall callEnd risk now).apply db).beat now := by
  unfold applyTerminalTransition applyOrDeferExecutionFatal
  dsimp only
  split <;> rfl

/-! ### The end of a member -/

/-- The end of a member writes `k`. With `waits` it then reconciles the requested cancellation, and
its outcome depends on the status that the reconcile leaves. -/
structure Completion.Ends (c : Completion) (db : Db) (k : Closing) (waits : Bool)
    (outcome : ExecutionStatus → ToolRunOutcome) : Prop where
  run : ∀ db₂, SameMember c db db₂ → ∃ db₃, db₃.readable = (k.apply db₂).readable ∧
    (∀ r ∈ db₃.inputRequests, r ∈ db₂.inputRequests ∨ c.requestId? = some r.id) ∧
    c.run db₂ = if waits then
        (reconcileCancelRequested c.now db₃).map fun result => (outcome result.1.status, result.2)
      else .ok (outcome .cancelRequested, db₃)
  cancels : waits = true → db.execution.cancellationIsRequested = true
  fatal : db.execution.cancellationIsRequested = true → waits = false → ∀ status,
    (outcome status).disposition = .fatalExecutionFailure
  unknown : k.step.status = .unknownOutcome → ∀ status,
    (outcome status).disposition = .fatalExecutionFailure
  settles : ∀ status, (outcome status).disposition ≠ .noop
  steady : db.execution.cancellationIsRequested = false ∨ c.closedByCancellation = false → ∀ status,
    (outcome status).disposition = (outcome .cancelRequested).disposition ∧
      (outcome status).terminalStatus = (outcome .cancelRequested).terminalStatus
  closed : db.execution.cancellationIsRequested = true → c.closedByCancellation = true →
    waits = true ∧ k.step.status = .cancelled ∧ k.step.errorCode = none ∧
      (outcome .cancelRequested).disposition = .knownStepFailure ∧
      (outcome .cancelled).disposition = .success ∧
      ∀ status, (outcome status).terminalStatus = some StepStatus.cancelled.value ∧
        (outcome status).disposition ≠ .fatalExecutionFailure

section Ends

variable {c : Completion} {db : Db} {step : ExecutionStep} {attempt : StepAttempt}
  {toolCall : ToolCall}

theorem CallEnd.disposition_ne (callEnd : CallEnd) (risk : RiskClass) :
    callEnd.disposition risk ≠ .noop ∧ ((callEnd.terminal risk).toStep = .unknownOutcome →
      callEnd.disposition risk = .fatalExecutionFailure) := by
  unfold disposition
  constructor
  · split
    · simp
    · split <;> simp
  · intro h
    have hterminal : callEnd.terminal risk = .unknownOutcome := by
      cases hstatus : callEnd.terminal risk <;> rw [hstatus] at h <;> first | rfl | cases h
    rw [if_neg (by rw [hterminal]; simp), if_pos]
    unfold isFatal
    rw [hterminal]
    rfl

/-- A finalized call. -/
theorem Completion.ends_finalized {pinned : Except AppError PinnedToolPolicy} {callEnd : CallEnd}
    (hend : c.memberEnd = .finalized pinned callEnd) (h : c.InFlight db step attempt toolCall)
    (hcancel : db.execution.cancellationIsRequested = true →
      db.execution.status = .cancelRequested) :
    ∃ k waits outcome, k.Of step attempt toolCall ∧ c.Ends db k waits outcome := by
  obtain ⟨result, db', hrun, hretry⟩ := h.returns
  have hrun₂ (db₂ : Db) : c.run db₂ = finalizeLocked pinned c.call callEnd c.now db₂ := by
    unfold Completion.run
    rw [hend]
  rw [hrun₂] at hrun
  unfold finalizeLocked at hrun
  rw [h.fence] at hrun
  cases hpinned : pinned with
  | error e =>
    rw [hpinned] at hrun
    cases hrun
  | ok policy =>
  rw [hpinned] at hrun
  dsimp only at hrun
  let risk := policy.riskClass.getD c.call.riskClass
  have hterminal (db₂ : Db) (hsame : SameMember c db db₂) :
      finalizeLocked (.ok policy) c.call callEnd c.now db₂ =
        finalizeTerminal c.call callEnd step attempt toolCall risk c.now db₂ := by
    unfold finalizeLocked
    rw [hsame.fence_eq, h.fence]
    dsimp only
    rw [hsame.cancellationIsRequested]
    cases herror : retryError callEnd db.execution.cancellationIsRequested with
    | none => rfl
    | some e =>
      rw [herror] at hrun
      dsimp only at hrun ⊢
      split at hrun
      · cases hrun
        exact absurd rfl hretry
      · next hdecide => rw [if_neg hdecide]
  have hunknown := (callEnd.disposition_ne risk).2
  by_cases hwaits : db.execution.cancellationIsRequested = true ∧
      callEnd.disposition risk ≠ .fatalExecutionFailure
  · refine ⟨callClosing step attempt toolCall callEnd risk c.now, true, fun status =>
      { terminalStatus := some (callEnd.terminal risk).toStep.value
        reason := if status = .cancelled then "CANCEL_REQUESTED"
          else (callEnd.terminal risk).toStep.value
        disposition := callEnd.disposition risk }, callClosing_of, ?_⟩
    exact {
      run := fun db₂ hsame => by
        refine ⟨((callClosing step attempt toolCall callEnd risk c.now).apply db₂).beat c.now, rfl,
          fun r hr => .inl hr, ?_⟩
        rw [hrun₂, hpinned, hterminal db₂ hsame]
        unfold finalizeTerminal
        rw [h.defers, applyTerminalTransition_defer, hsame.cancellationIsRequested]
        dsimp only
        have hstatus : (((callClosing step attempt toolCall callEnd risk c.now).apply db₂).beat
            c.now).execution.status = .cancelRequested :=
          hsame.status.trans (hcancel hwaits.1)
        rw [if_pos ⟨hwaits.1, hstatus, hwaits.2, fun hu => hwaits.2 (hunknown hu)⟩, if_pos rfl]
        cases reconcileCancelRequested c.now (((callClosing step attempt toolCall callEnd risk
          c.now).apply db₂).beat c.now) <;> rfl
      cancels := fun _ => hwaits.1
      fatal := fun _ hfalse => nomatch hfalse
      unknown := fun hu _ => hunknown hu
      settles := fun _ => (callEnd.disposition_ne risk).1
      steady := fun _ _ => ⟨rfl, rfl⟩
      closed := fun _ hclosed => by
        unfold Completion.closedByCancellation at hclosed
        rw [hend] at hclosed
        cases hclosed }
  · refine ⟨callClosing step attempt toolCall callEnd risk c.now, false, fun _ =>
      { terminalStatus := some (callEnd.terminal risk).toStep.value
        reason := if (callEnd.terminal risk).toStep = .succeeded then "STEP_SUCCEEDED"
          else (callEnd.terminal risk).toStep.value
        disposition := callEnd.disposition risk }, callClosing_of, ?_⟩
    exact {
      run := fun db₂ hsame => by
        refine ⟨((callClosing step attempt toolCall callEnd risk c.now).apply db₂).beat c.now, rfl,
          fun r hr => .inl hr, ?_⟩
        rw [hrun₂, hpinned, hterminal db₂ hsame]
        unfold finalizeTerminal
        rw [h.defers, applyTerminalTransition_defer, hsame.cancellationIsRequested]
        dsimp only
        rw [if_neg fun hw => hwaits ⟨hw.1, hw.2.2.1⟩, if_neg Bool.false_ne_true]
      cancels := fun hfalse => nomatch hfalse
      fatal := fun hactive _ _ => not_not.mp fun hne => hwaits ⟨hactive, hne⟩
      unknown := fun hu _ => hunknown hu
      settles := fun _ => (callEnd.disposition_ne risk).1
      steady := fun _ _ => ⟨rfl, rfl⟩
      closed := fun _ hclosed => by
        unfold Completion.closedByCancellation at hclosed
        rw [hend] at hclosed
        cases hclosed }

/-- The rows that a lineage fixes are in flight. -/
theorem preparedInvocationLineageMatches_started {p : PreparedCall}
    (h : preparedInvocationLineageMatches step attempt toolCall p = true) :
    step.status = .running ∧ attempt.status = .started ∧ toolCall.normalizedStatus = .started := by
  simp only [preparedInvocationLineageMatches, Bool.and_eq_true, beq_iff_eq] at h
  exact ⟨h.1.2, h.2, h.1.1.2⟩

theorem ExecutionStep.cancel_running {s : ExecutionStep} (h : s.status = .running) (now : Time) :
    (s.cancel now).status = .cancelled ∧ (s.cancel now).errorCode = none := by
  unfold cancel
  rw [if_neg (by rw [h]; simp [StepStatus.isTerminal])]
  exact ⟨rfl, rfl⟩

omit step attempt toolCall in
/-- The gate on a call that its owner still has in flight. -/
theorem finalPreSendGate_inFlight {p : PreparedCall} {now : Time} {step : ExecutionStep}
    {attempt : StepAttempt} {toolCall : ToolCall} (verdict : Option String)
    (hfence : finalizeFence p now db = some (step, attempt, toolCall))
    (hlineage : preparedInvocationLineageMatches step attempt toolCall p = true) :
    finalPreSendGate verdict p now db =
      if db.execution.cancellationIsRequested then
        (cancelPreparedInvocationBeforeSend step attempt toolCall now db).map fun result =>
          (.outcome
            { terminalStatus := some StepStatus.cancelled.value
              reason := "CANCEL_REQUESTED"
              disposition := if result.1.status = .cancelRequested then .knownStepFailure
                else .success }, result.2)
      else .ok (verdict.elim .pass .failClosed, db) := by
  obtain ⟨howned, hstep, hattempt, hcall, -, -⟩ := finalizeFence_some hfence
  unfold finalPreSendGate
  rw [howned, hstep, hattempt, hcall]
  dsimp only
  rw [hlineage]
  refine (if_neg (by simp)).trans ((if_neg (by simp)).trans ?_)
  refine if_congr Iff.rfl ?_ ?_
  · cases cancelPreparedInvocationBeforeSend step attempt toolCall now db <;> rfl
  · cases verdict <;> rfl

/-- What a cancellation writes over a member before its reconcile. -/
theorem cancelPreparedInvocationBeforeSend_inFlight {now : Time}
    (hcall : toolCall.normalizedStatus = .started) (hstatus : db.execution.status = .cancelRequested) :
    cancelPreparedInvocationBeforeSend step attempt toolCall now db =
      reconcileCancelRequested now
        ((cancelClosing step attempt toolCall .cancelled now).apply db) := by
  unfold cancelPreparedInvocationBeforeSend
  dsimp only
  rw [if_pos hcall]
  exact congrArg (reconcileCancelRequested now) (if_pos hstatus)

theorem settleInputRequiredAfterCancel_inFlight {now : Time}
    (hstatus : db.execution.status = .cancelRequested) :
    settleInputRequiredAfterCancel step attempt toolCall now db =
      reconcileCancelRequested now
        ((cancelClosing step attempt toolCall .succeeded now).apply db) := by
  unfold settleInputRequiredAfterCancel
  exact congrArg (reconcileCancelRequested now) (if_pos hstatus)

/-- A member that meets the cancellation at the final gate. -/
theorem Completion.ends_gate {verdict : Option String} (hend : c.memberEnd = .gate verdict)
    (h : c.InFlight db step attempt toolCall)
    (hcancel : db.execution.cancellationIsRequested = true →
      db.execution.status = .cancelRequested) :
    ∃ k waits outcome, k.Of step attempt toolCall ∧ c.Ends db k waits outcome := by
  obtain ⟨result, db', hrun, -⟩ := h.returns
  obtain ⟨hrunning, -, hflight⟩ := preparedInvocationLineageMatches_started h.lineage
  have hrun₂ (db₂ : Db) : c.run db₂ = match finalPreSendGate verdict c.call c.now db₂ with
      | .error e => .error e
      | .ok (.outcome outcome, db) => .ok (outcome, db)
      | .ok _ => .error .assertionError := by
    unfold Completion.run
    rw [hend]
  have hactive : db.execution.cancellationIsRequested = true := by
    by_contra hactive
    rw [hrun₂, finalPreSendGate_inFlight verdict h.fence h.lineage, if_neg hactive] at hrun
    cases verdict <;> cases hrun
  obtain ⟨hcancelled, hcode⟩ := ExecutionStep.cancel_running hrunning c.now
  refine ⟨cancelClosing step attempt toolCall .cancelled c.now, true, fun status =>
    { terminalStatus := some StepStatus.cancelled.value
      reason := "CANCEL_REQUESTED"
      disposition := if status = .cancelRequested then .knownStepFailure else .success },
    cancelClosing_of (by simp), ?_⟩
  exact {
    run := fun db₂ hsame => by
      refine ⟨(cancelClosing step attempt toolCall .cancelled c.now).apply db₂, rfl,
        fun r hr => .inl hr, ?_⟩
      rw [hrun₂, finalPreSendGate_inFlight verdict (hsame.fence_eq.trans h.fence) h.lineage,
        hsame.cancellationIsRequested, if_pos hactive,
        cancelPreparedInvocationBeforeSend_inFlight hflight (hsame.status.trans (hcancel hactive)),
        if_pos rfl]
      cases reconcileCancelRequested c.now
        ((cancelClosing step attempt toolCall .cancelled c.now).apply db₂) <;> rfl
    cancels := fun _ => hactive
    fatal := fun _ hfalse => nomatch hfalse
    unknown := fun hu => absurd (hcancelled.symm.trans hu) (by simp)
    settles := fun status => by
      dsimp only
      split <;> simp
    steady := fun hsteady => by
      rcases hsteady with hfalse | hclosed
      · rw [hactive] at hfalse
        cases hfalse
      · unfold Completion.closedByCancellation at hclosed
        rw [hend] at hclosed
        cases hclosed
    closed := fun _ _ => ⟨rfl, hcancelled, hcode, rfl, rfl, fun status => ⟨rfl, by
        dsimp only
        split <;> simp⟩⟩ }

/-- A fatal end; the orchestrator stops the Execution when it settles the wave. -/
theorem Completion.ends_fatal {k : Closing} {outcome : ToolRunOutcome}
    (hfatal : outcome.disposition = .fatalExecutionFailure)
    (hrun : ∀ db₂, SameMember c db db₂ → c.run db₂ = .ok (outcome, (k.apply db₂).beat c.now))
    (hclosed : db.execution.cancellationIsRequested = true → c.closedByCancellation = false) :
    c.Ends db k false fun _ => outcome where
  run := fun db₂ hsame => ⟨(k.apply db₂).beat c.now, rfl, fun r hr => .inl hr, hrun db₂ hsame⟩
  cancels := fun hfalse => nomatch hfalse
  fatal := fun _ _ _ => hfatal
  unknown := fun _ _ => hfatal
  settles := fun _ => by rw [hfatal]; simp
  steady := fun _ _ => ⟨rfl, rfl⟩
  closed := fun hactive htrue => by
    rw [hclosed hactive] at htrue
    cases htrue

/-- A member whose call asked for input. -/
theorem Completion.ends_inputRequired {mrtr : InputRequired} {requestId : UUID}
    (hend : c.memberEnd = .inputRequired mrtr requestId) (h : c.InFlight db step attempt toolCall)
    (hcancel : db.execution.cancellationIsRequested = true →
      db.execution.status = .cancelRequested) :
    ∃ k waits outcome, k.Of step attempt toolCall ∧ c.Ends db k waits outcome := by
  obtain ⟨result, db', hrun, -⟩ := h.returns
  obtain ⟨hrunning, -, hflight⟩ := preparedInvocationLineageMatches_started h.lineage
  obtain ⟨-, -, hattempt, -, -, -⟩ := finalizeFence_some h.fence
  have hid : attempt.id = c.call.attemptId := Table.key_of_find? hattempt
  obtain ⟨hcancelled, hcode⟩ := ExecutionStep.cancel_running hrunning c.now
  have hrun₂ (db₂ : Db) : c.run db₂ = finalizeInputRequired c.call mrtr requestId c.now db₂ := by
    unfold Completion.run
    rw [hend]
  have hclosed : c.closedByCancellation = !mrtr.echoesSecret := by
    unfold Completion.closedByCancellation
    rw [hend]
  rw [hrun₂] at hrun
  unfold finalizeInputRequired at hrun
  rw [h.fence] at hrun
  dsimp only at hrun
  by_cases hecho : mrtr.echoesSecret = true
  · refine ⟨settleClosing { step with resultInline := none } { attempt with resultInline := none }
      toolCall .failed .failed "MCP_MRTR_SECRET_ECHO" c.now, false,
      fun _ => (mrtrFatal step attempt toolCall .failed "MCP_MRTR_SECRET_ECHO" c.now true db).1,
      settleClosing_of rfl rfl (by simp) (by simp), ends_fatal rfl (fun db₂ hsame => ?_) ?_⟩
    · rw [hrun₂]
      unfold finalizeInputRequired
      rw [hsame.fence_eq, h.fence, h.defers]
      exact if_pos hecho
    · rw [hclosed, hecho]
      exact fun _ => rfl
  rw [if_neg hecho] at hrun
  by_cases hactive : db.execution.cancellationIsRequested = true
  · refine ⟨cancelClosing step attempt toolCall .succeeded c.now, true, fun status =>
      { terminalStatus := some StepStatus.cancelled.value
        reason := "CANCEL_REQUESTED"
        disposition := if status = .cancelled then .success else .knownStepFailure },
      cancelClosing_of (by simp), ?_⟩
    exact {
      run := fun db₂ hsame => by
        refine ⟨(cancelClosing step attempt toolCall .succeeded c.now).apply db₂, rfl,
          fun r hr => .inl hr, ?_⟩
        rw [hrun₂]
        unfold finalizeInputRequired
        rw [hsame.fence_eq, h.fence]
        dsimp only
        rw [if_neg hecho, hsame.cancellationIsRequested, if_pos hactive,
          settleInputRequiredAfterCancel_inFlight (hsame.status.trans (hcancel hactive)),
          if_pos rfl]
        cases reconcileCancelRequested c.now
          ((cancelClosing step attempt toolCall .succeeded c.now).apply db₂) <;> rfl
      cancels := fun _ => hactive
      fatal := fun _ hfalse => nomatch hfalse
      unknown := fun hu => absurd (hcancelled.symm.trans hu) (by simp)
      settles := fun status => by
        dsimp only
        split <;> simp
      steady := fun hsteady => by
        rcases hsteady with hfalse | hsteady
        · rw [hactive] at hfalse
          cases hfalse
        · rw [hclosed] at hsteady
          exact absurd (by simpa using hsteady) hecho
      closed := fun _ _ => ⟨rfl, hcancelled, hcode, rfl, rfl, fun status => ⟨rfl, by
        dsimp only
        split <;> simp⟩⟩ }
  rw [if_neg hactive] at hrun
  by_cases htimeout :
      stepTimeoutBudgetExhausted step.startedAt step.stepSnapshot.timeoutSeconds c.now = true
  · refine ⟨settleClosing step attempt toolCall .succeeded .timedOut "STEP_TIMEOUT" c.now, false,
      fun _ =>
        { terminalStatus := some StepStatus.timedOut.value
          reason := "STEP_TIMEOUT"
          disposition := .knownStepFailure },
      settleClosing_of rfl rfl (by simp) (by simp), ?_⟩
    exact {
      run := fun db₂ hsame => by
        let request := newInputRequest db₂ step attempt toolCall mrtr requestId .expired c.now
        obtain ⟨inputRequests, hinsert⟩ := Table.exists_insert? (t := db₂.inputRequests)
          (r := request) (hsame.fresh requestId (by unfold requestId?; rw [hend]))
        have hinserted : db₂.insertInputRequest request =
            .ok { db₂ with inputRequests := inputRequests } := by
          unfold Db.insertInputRequest
          rw [if_neg (by simp [request, newInputRequest]), hinsert]
        refine ⟨((settleClosing step attempt toolCall .succeeded .timedOut "STEP_TIMEOUT"
          c.now).apply { db₂ with inputRequests := inputRequests }).beat c.now, rfl,
          fun r hr => ?_, ?_⟩
        · rcases (Table.mem_of_insert? hinsert).mp hr with hold | rfl
          · exact .inl hold
          · exact .inr (by unfold requestId?; rw [hend]; rfl)
        · rw [hrun₂]
          unfold finalizeInputRequired
          rw [hsame.fence_eq, h.fence]
          dsimp only
          rw [if_neg hecho, hsame.cancellationIsRequested, if_neg hactive, if_pos htimeout,
            if_neg Bool.false_ne_true, hinserted]
          rfl
      cancels := fun hfalse => nomatch hfalse
      fatal := fun htrue => absurd htrue hactive
      unknown := fun hu => nomatch hu
      settles := fun _ => by simp
      steady := fun _ _ => ⟨rfl, rfl⟩
      closed := fun htrue => absurd htrue hactive }
  rw [if_neg htimeout] at hrun
  by_cases hnever : step.startedAt = none
  · rw [if_pos hnever] at hrun
    cases hrun
  have hunfold (db₂ : Db) (hsame : SameMember c db db₂) : c.run db₂ =
      if maxMrtrRounds < mrtrRoundNo db attempt toolCall then
        .ok (mrtrFatal step attempt toolCall .failed "MAX_MRTR_ROUNDS_EXCEEDED" c.now true db₂)
      else .ok (mrtrFatal step attempt toolCall .unknownOutcome "DAG_WAIT_UNSUPPORTED" c.now true
        db₂) := by
    rw [hrun₂]
    unfold finalizeInputRequired
    rw [hsame.fence_eq, h.fence, h.defers, h.forbids]
    dsimp only
    rw [if_neg hecho, hsame.cancellationIsRequested, if_neg hactive, if_neg htimeout,
      if_neg hnever, hsame.roundNo toolCall hid]
    rfl
  by_cases hround : maxMrtrRounds < mrtrRoundNo db attempt toolCall
  · exact ⟨settleClosing step attempt toolCall .failed .failed "MAX_MRTR_ROUNDS_EXCEEDED" c.now,
      false, fun _ => (mrtrFatal step attempt toolCall .failed "MAX_MRTR_ROUNDS_EXCEEDED" c.now true
        db).1, settleClosing_of rfl rfl (by simp) (by simp),
      ends_fatal rfl (fun db₂ hsame => (hunfold db₂ hsame).trans (if_pos hround))
        fun htrue => absurd htrue hactive⟩
  · exact ⟨settleClosing step attempt toolCall .unknownOutcome .unknownOutcome
      "DAG_WAIT_UNSUPPORTED" c.now, false, fun _ => (mrtrFatal step attempt toolCall .unknownOutcome
        "DAG_WAIT_UNSUPPORTED" c.now true db).1, settleClosing_of rfl rfl (by simp) (by simp),
      ends_fatal rfl (fun db₂ hsame => (hunfold db₂ hsame).trans (if_neg hround))
        fun htrue => absurd htrue hactive⟩

/-- Whatever the other members have done, a member in flight closes in one way. -/
theorem Completion.InFlight.ends (h : c.InFlight db step attempt toolCall)
    (hcancel : db.execution.cancellationIsRequested = true →
      db.execution.status = .cancelRequested) :
    ∃ k waits outcome, k.Of step attempt toolCall ∧ c.Ends db k waits outcome := by
  cases hend : c.memberEnd with
  | finalized pinned callEnd => exact ends_finalized hend h hcancel
  | inputRequired mrtr requestId => exact ends_inputRequired hend h hcancel
  | gate verdict => exact ends_gate hend h hcancel

end Ends

end McpFlow
