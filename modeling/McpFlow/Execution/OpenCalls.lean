import McpFlow.Execution.Transactions
import McpFlow.Mrtr.Resume
import McpFlow.Mrtr.Response

/-!
# The rows of an open call

A prepared call is open while its Step is a RUNNING TOOL and its Attempt and its ToolCall are STARTED.
`KeepsCall` is the frame of every transaction: whoever does not act on the call either leaves its
three rows alone or takes the Execution away from its worker.
-/

namespace McpFlow

/-- The Execution runs under the token. -/
def Db.OwnedBy (db : Db) (token : UUID) : Prop :=
  (db.execution.status = .running ∨ db.execution.status = .cancelRequested) ∧
    db.execution.leaseToken = some token

/-- The rows of a prepared call are open. -/
structure Db.CallOpen (db : Db) (p : PreparedCall) : Prop where
  step : ∃ s ∈ db.steps, s.id = p.stepId ∧ s.stepType = .tool ∧ s.status = .running
  attempt : ∃ a ∈ db.attempts, a.id = p.attemptId ∧ a.stepExecutionId = p.stepId ∧
    a.status = .started
  toolCall : ∃ c ∈ db.toolCalls, c.id = p.toolCallId ∧ c.stepAttemptId = p.attemptId ∧
    c.normalizedStatus = .started

/-- The rows of a call, as the transactions of its Tool Runner find them. -/
structure Db.CallRows (db : Db) (p : PreparedCall) (s : ExecutionStep) (a : StepAttempt)
    (c : ToolCall) : Prop where
  step : s ∈ db.steps
  stepId : s.id = p.stepId
  stepType : s.stepType = .tool
  running : s.status = .running
  attempt : a ∈ db.attempts
  attemptId : a.id = p.attemptId
  attemptStep : a.stepExecutionId = p.stepId
  attemptStarted : a.status = .started
  toolCall : c ∈ db.toolCalls
  callId : c.id = p.toolCallId
  callAttempt : c.stepAttemptId = a.id
  callStarted : c.normalizedStatus = .started

namespace Db.CallOpen

variable {db : Db} {p : PreparedCall}

theorem exists_rows (h : db.CallOpen p) : ∃ s a c, db.CallRows p s a c := by
  obtain ⟨s, hs, hsid, htype, hrunning⟩ := h.step
  obtain ⟨a, ha, haid, hastep, hastarted⟩ := h.attempt
  obtain ⟨c, hc, hcid, hcattempt, hcstarted⟩ := h.toolCall
  exact ⟨s, a, c, hs, hsid, htype, hrunning, ha, haid, hastep, hastarted, hc, hcid,
    hcattempt.trans haid.symm, hcstarted⟩

/-- The rows that a transaction finds under the ids of an open call. -/
theorem rows_of_find? (h : db.CallOpen p) {s : ExecutionStep} {a : StepAttempt} {c : ToolCall}
    (hs : db.steps.find? p.stepId = some s) (ha : db.attempts.find? p.attemptId = some a)
    (hc : db.toolCalls.find? p.toolCallId = some c) : db.CallRows p s a c := by
  obtain ⟨s', a', c', hrows⟩ := h.exists_rows
  rw [Table.find?_eq_some_iff.mpr ⟨hrows.step, hrows.stepId⟩] at hs
  rw [Table.find?_eq_some_iff.mpr ⟨hrows.attempt, hrows.attemptId⟩] at ha
  rw [Table.find?_eq_some_iff.mpr ⟨hrows.toolCall, hrows.callId⟩] at hc
  cases hs
  cases ha
  cases hc
  exact hrows

/-- The final gate fails an open call row by row. -/
theorem gateFailClosed (h : db.CallOpen p) (now : Time) : ∃ s a c, db.CallRows p s a c ∧
    (finalGateFailClosedLineageCorruption (db.steps.find? p.stepId) (db.attempts.find? p.attemptId)
      (db.toolCalls.find? p.toolCallId) p now db).2 =
      applyOrDeferExecutionFatal (some "RESOURCE_CONFLICT") now p.deferExecutionTerminalization
        (((db.putToolCall { c with normalizedStatus := .failed, finishedAt := some now }).putAttempt
          { a with
            status := .failed
            errorCode := some "RESOURCE_CONFLICT"
            isRetryable := some false
            finishedAt := some now }).putStep
          { s with
            status := .failed, errorCode := some "RESOURCE_CONFLICT", finishedAt := some now }) := by
  obtain ⟨s, a, c, hrows⟩ := h.exists_rows
  refine ⟨s, a, c, hrows, ?_⟩
  rw [Table.find?_eq_some_iff.mpr ⟨hrows.step, hrows.stepId⟩,
    Table.find?_eq_some_iff.mpr ⟨hrows.attempt, hrows.attemptId⟩,
    Table.find?_eq_some_iff.mpr ⟨hrows.toolCall, hrows.callId⟩]
  simp only [finalGateFailClosedLineageCorruption, Option.elim_some, failNonterminalStep,
    hrows.running, StepStatus.isTerminal, failStartedAttempt, hrows.attemptStarted,
    failStartedToolCall, hrows.callStarted, Bool.false_eq_true, if_true, if_false]
  rfl

end Db.CallOpen

/-- The call of a worker is open after a transaction, if the worker still owns the Execution. -/
structure Db.KeepsCall (db db' : Db) (p : PreparedCall) : Prop where
  owned : db'.OwnedBy p.leaseToken → db.OwnedBy p.leaseToken
  opened : db'.OwnedBy p.leaseToken → db.CallOpen p → db'.CallOpen p

namespace Db.KeepsCall

variable {db db' db'' : Db} {p : PreparedCall}

theorem refl (db : Db) (p : PreparedCall) : db.KeepsCall db p := ⟨id, fun _ => id⟩

theorem trans (h : db.KeepsCall db' p) (h' : db'.KeepsCall db'' p) : db.KeepsCall db'' p where
  owned howned := h.owned (h'.owned howned)
  opened howned hopen := h'.opened howned (h.opened (h'.owned howned) hopen)

/-- Nothing is claimed once the worker has lost the Execution. -/
theorem of_not_owned (h : ¬db'.OwnedBy p.leaseToken) : db.KeepsCall db' p :=
  ⟨fun howned => absurd howned h, fun howned => absurd howned h⟩

theorem of_status (hrunning : db'.execution.status ≠ .running)
    (hcancel : db'.execution.status ≠ .cancelRequested) : db.KeepsCall db' p :=
  of_not_owned fun h => h.1.elim hrunning hcancel

theorem of_token {token : UUID} (h : db'.execution.leaseToken = some token)
    (hne : p.leaseToken ≠ token) : db.KeepsCall db' p :=
  of_not_owned fun howned => hne (Option.some.inj (howned.2.symm.trans h))

/-- A change of the Execution row. -/
theorem putExecution {e : Execution}
    (h : (db.putExecution e).OwnedBy p.leaseToken → db.OwnedBy p.leaseToken) :
    db.KeepsCall (db.putExecution e) p :=
  ⟨h, fun _ hopen => ⟨hopen.step, hopen.attempt, hopen.toolCall⟩⟩

/-- The RUNNING TOOLs stay as they are. -/
theorem of_steps {steps : Table ExecutionStep.id}
    (h : ∀ s ∈ db.steps, s.stepType = .tool → s.status = .running → s.id = p.stepId → s ∈ steps) :
    db.KeepsCall { db with steps := steps } p where
  owned := id
  opened _ hopen := by
    obtain ⟨s, hs, hid, htype, hrunning⟩ := hopen.step
    exact ⟨⟨s, h s hs htype hrunning hid, hid, htype, hrunning⟩, hopen.attempt, hopen.toolCall⟩

/-- Another Step is written. -/
theorem putStep {s : ExecutionStep} (h : s.id ≠ p.stepId) : db.KeepsCall (db.putStep s) p :=
  of_steps fun _ ht _ _ hid => Table.mem_put_of_ne ht fun hk => h (hk.symm.trans hid)

/-- A Step that is no RUNNING TOOL is written. -/
theorem putStep_of_not_running {s s' : ExecutionStep} (hs : s ∈ db.steps) (hid : s'.id = s.id)
    (h : s.stepType ≠ .tool ∨ s.status ≠ .running) : db.KeepsCall (db.putStep s') p :=
  of_steps fun t ht htype hrunning _ => Table.mem_put_of_ne ht fun hk => by
    rw [Table.eq_of_key_eq ht hs (hk.trans hid)] at htype hrunning
    exact h.elim (· htype) (· hrunning)

/-- The Attempt of another Step is written. -/
theorem putAttempt {a b : StepAttempt} (ha : a ∈ db.attempts) (hid : b.id = a.id)
    (h : a.stepExecutionId ≠ p.stepId) : db.KeepsCall (db.putAttempt b) p where
  owned := id
  opened _ hopen := by
    obtain ⟨c, hc, hcid, hstep, hstarted⟩ := hopen.attempt
    refine ⟨hopen.step, ⟨c, Table.mem_put_of_ne hc fun hk => h ?_, hcid, hstep, hstarted⟩,
      hopen.toolCall⟩
    rw [← Table.eq_of_key_eq hc ha (hk.trans hid)]
    exact hstep

/-- A call of the Attempt of another Step is written. -/
theorem putToolCall {a : StepAttempt} {c d : ToolCall} (ha : a ∈ db.attempts)
    (h : a.stepExecutionId ≠ p.stepId) (hc : c ∈ db.toolCalls) (hattempt : c.stepAttemptId = a.id)
    (hid : d.id = c.id) : db.KeepsCall (db.putToolCall d) p where
  owned := id
  opened _ hopen := by
    obtain ⟨b, hb, hbid, hstep, -⟩ := hopen.attempt
    obtain ⟨t, ht, htid, htattempt, hstarted⟩ := hopen.toolCall
    refine ⟨hopen.step, hopen.attempt,
      ⟨t, Table.mem_put_of_ne ht fun hk => h ?_, htid, htattempt, hstarted⟩⟩
    have htc : t = c := Table.eq_of_key_eq ht hc (hk.trans hid)
    have hab : b = a := Table.eq_of_key_eq hb ha (by rw [hbid, ← htattempt, htc, hattempt])
    rw [← hab]
    exact hstep

/-- The rows of a call of another Step are written. -/
theorem putCallRows {a a' : StepAttempt} {c c' : ToolCall} {s' : ExecutionStep}
    (ha : a ∈ db.attempts) (h : a.stepExecutionId ≠ p.stepId) (hc : c ∈ db.toolCalls)
    (hattempt : c.stepAttemptId = a.id) (hcid : c'.id = c.id) (haid : a'.id = a.id)
    (hs : s'.id ≠ p.stepId) :
    db.KeepsCall (((db.putToolCall c').putAttempt a').putStep s') p := by
  have hput : (db.putToolCall c').KeepsCall ((db.putToolCall c').putAttempt a') p :=
    putAttempt ha haid h
  exact ((putToolCall ha h hc hattempt hcid).trans hput).trans (putStep hs)

/-- New Attempts and ToolCalls. -/
theorem of_insert {attempts : Table StepAttempt.id} {toolCalls : Table ToolCall.id}
    (ha : ∀ a ∈ db.attempts, a ∈ attempts) (hc : ∀ c ∈ db.toolCalls, c ∈ toolCalls) :
    db.KeepsCall { db with attempts := attempts, toolCalls := toolCalls } p where
  owned := id
  opened _ hopen := by
    obtain ⟨a, hmem, hrest⟩ := hopen.attempt
    obtain ⟨c, hcmem, hcrest⟩ := hopen.toolCall
    exact ⟨hopen.step, ⟨a, ha a hmem, hrest⟩, ⟨c, hc c hcmem, hcrest⟩⟩

/-- The approvals and the input requests belong to no call. -/
theorem of_requests (db : Db) (p : PreparedCall) (approvals : Table ApprovalRequest.id)
    (inputRequests : Table McpInputRequest.id) :
    db.KeepsCall { db with approvals := approvals, inputRequests := inputRequests } p :=
  ⟨id, fun _ hopen => ⟨hopen.step, hopen.attempt, hopen.toolCall⟩⟩

/-! ### The Execution row -/

theorem beat (db : Db) (p : PreparedCall) (now : Time) : db.KeepsCall (db.beat now) p :=
  putExecution id

theorem terminateExecution {status : ExecutionStatus} (hrunning : status ≠ .running)
    (hcancel : status ≠ .cancelRequested) (errorCode : Option String) (now : Time) :
    db.KeepsCall (db'.terminateExecution status errorCode now) p :=
  of_status hrunning hcancel

theorem failClosedLineage (errorCode : String) (now : Time) :
    db.KeepsCall (McpFlow.failClosedLineage errorCode now db').2 p :=
  terminateExecution (by simp) (by simp) _ now

/-! ### The local reconcile -/

theorem localStep {env : RuntimeEnv} (h : LocalStep env db db') : db.KeepsCall db' p := by
  cases h with
  | close hs h =>
    refine putStep_of_not_running hs h.same.id ?_
    rcases h.opened with hpending | ⟨htype, -⟩ | hready | ⟨htype, -⟩
    · exact .inr (by simp [hpending])
    · exact .inl (by simp [htype])
    · simp only [ExecutionStep.isUnusedReadyTool, Bool.and_eq_true, beq_iff_eq] at hready
      exact .inr (by simp [hready.1.1.2])
    · exact .inl (by simp [htype])
  | gate hs hpending htype => exact putStep_of_not_running hs rfl (.inr (by simp [hpending]))
  | startForEach hs hpending _ h => exact putStep_of_not_running hs h.same.id (.inr (by simp [hpending]))
  | startWhile hs hpending _ h => exact putStep_of_not_running hs h.same.id (.inr (by simp [hpending]))
  | whileGate hs _ _ h => exact putStep_of_not_running hs h.same.id (.inl (by simp [h.stepType]))
  | materialize _ _ _ _ _ _ _ _ _ _ h =>
    obtain ⟨rows, steps, rfl, hrows, -⟩ := foldlM_materializeBody_ok h
    refine of_steps fun s hs _ _ _ => ?_
    rw [Table.mem_def, hrows]
    exact List.mem_append_left rows hs
  | advanceWhile hs _ _ h _ _ _ _ _ _ _ _ _ _ _ hbody =>
    obtain ⟨rows, steps, rfl, hrows, -⟩ := foldlM_materializeBody_ok hbody
    refine (putStep_of_not_running hs h.same.id (.inl (by simp [h.stepType]))).trans
      (of_steps fun s hs _ _ _ => ?_)
    rw [Table.mem_def, hrows]
    exact List.mem_append_left rows hs

theorem localSteps {env : RuntimeEnv} (h : LocalSteps env db db') : db.KeepsCall db' p := by
  induction h with
  | refl => exact refl db p
  | tail _ hstep ih => exact ih.trans (localStep hstep)

theorem localStop {env : RuntimeEnv} {now : Time} (h : LocalStop env now db db') :
    db.KeepsCall db' p := by
  cases h with
  | stop status errorCode hstatus =>
    rcases hstatus with rfl | rfl <;> exact terminateExecution (by simp) (by simp) _ now
  | enterApproval hs hpending htype hnone h =>
    obtain ⟨-, -, snapshot, db₁, -, -, rfl⟩ := Approval.enterForApprovalStep_ok (by simp [hpending]) h
    exact of_status (by simp [Approval.applyWaitingState]) (by simp [Approval.applyWaitingState])

/-! ### Cancellation -/

/-- The clean-up of a cancellation skips every Step with a call in flight, and its Attempts. -/
theorem cancelOpenWork (db : Db) (p : PreparedCall) (now : Time) (answeredBy : Option UUID)
    (preserve : List UUID) : db.KeepsCall (db.cancelOpenWork now answeredBy preserve) p where
  owned := id
  opened _ hopen := by
    obtain ⟨s, hs, hsid, htype, hrunning⟩ := hopen.step
    obtain ⟨a, ha, haid, hastep, hstarted⟩ := hopen.attempt
    obtain ⟨c, hc, hcid, hcattempt, hcstarted⟩ := hopen.toolCall
    have hflight : db.stepHasStartedToolCall s.id = true := by
      refine List.any_eq_true.mpr ⟨a, List.mem_filter.mpr ⟨ha, by simp [hastep, hsid]⟩, ?_⟩
      exact List.any_eq_true.mpr ⟨c, hc, by simp [hcattempt, haid, hcstarted]⟩
    have hskips : db.cleanupSkips preserve s = true := by simp [cleanupSkips, hrunning, hflight]
    have hattempt : db.cleanupCancelsAttempt preserve a = false := by
      rw [cleanupCancelsAttempt, List.any_eq_false]
      intro t ht
      by_cases hid : t.id = a.stepExecutionId
      · have hts : t = s := Table.eq_of_key_eq ht hs (hid.trans (hastep.trans hsid.symm))
        simp [hts, hskips]
      · simp [hid]
    refine ⟨⟨s, ?_, hsid, htype, hrunning⟩, ⟨a, ?_, haid, hastep, hstarted⟩,
      ⟨c, hc, hcid, hcattempt, hcstarted⟩⟩
    · rw [steps_cancelOpenWork]
      exact Table.mem_mapRows.mpr ⟨s, hs, if_pos hskips⟩
    · rw [attempts_cancelOpenWork]
      exact Table.mem_mapRows.mpr ⟨a, ha, if_neg (by simp [hattempt])⟩

theorem reconcileCancelRequested {now : Time} {outcome : CancellationOutcome}
    (h : McpFlow.reconcileCancelRequested now db = .ok (outcome, db')) : db.KeepsCall db' p := by
  rcases (reconcileCancelRequested_ok h).2 with ⟨rfl, -⟩ | ⟨-, -, e, rfl, hstatus, -⟩
  · exact refl db' p
  · refine of_status ?_ ?_ <;> rcases hstatus with hs | hs <;> simp [hs]

theorem applyCancellation {now : Time} {requestedBy : Option UUID} {outcome : CancellationOutcome}
    (h : McpFlow.applyCancellation now requestedBy db = .ok (outcome, db')) : db.KeepsCall db' p := by
  rcases applyCancellation_ok h with ⟨rfl, -⟩ | ⟨-, -, ⟨-, rfl⟩ | ⟨hrunning, -, rfl⟩⟩
  · exact refl db' p
  · exact of_status (by simp [cancelledNow, finalizeCancelled])
      (by simp [cancelledNow, finalizeCancelled])
  · have htoken : (db.execution.setCancelMetadataOnce now requestedBy).leaseToken =
        db.execution.leaseToken := by
      unfold Execution.setCancelMetadataOnce
      split <;> rfl
    have hmarked : db.KeepsCall
        (db.putExecution (db.execution.setCancelMetadataOnce now requestedBy)) p :=
      putExecution fun howned => ⟨.inl hrunning, htoken.symm.trans howned.2⟩
    have hstatus : (db.execution.setCancelMetadataOnce now requestedBy).status = .running := by
      unfold Execution.setCancelMetadataOnce
      split <;> exact hrunning
    exact (hmarked.trans (cancelOpenWork _ p now requestedBy _)).trans
      (putExecution fun howned => ⟨.inl hstatus, howned.2⟩)

/-- A recovery of a requested cancellation settles every call, so the reconcile ends it. -/
theorem recoverExpiredCancelRequested {now : Time} {outcome : CancellationOutcome}
    (hstatus : db.execution.status = .cancelRequested)
    (h : McpFlow.recoverExpiredCancelRequested now db = .ok (outcome, db')) :
    db.KeepsCall db' p := by
  unfold McpFlow.recoverExpiredCancelRequested at h
  rw [if_neg (by simp [hstatus]), if_neg (by simp [hstatus])] at h
  have hcalls : ((db.settleStartedCallsUnknown now).promoteUnknownEvidence now).listStartedToolCalls =
      [] := by
    refine List.filter_eq_nil_iff.mpr fun c hc => ?_
    obtain ⟨d, -, rfl⟩ := List.mem_map.mp hc
    by_cases hd : d.normalizedStatus = .started <;> simp [hd]
  rcases (reconcileCancelRequested_ok h).2 with ⟨rfl, hsame⟩ | ⟨-, -, e, rfl, hend, -⟩
  · have hrequested : ((db.settleStartedCallsUnknown now).promoteUnknownEvidence now).execution.status =
        .cancelRequested := hstatus
    rw [hrequested] at hsame
    rcases hsame with hs | hs | ⟨-, hs⟩
    · cases hs
    · cases hs
    · exact absurd hcalls hs
  · refine of_status ?_ ?_ <;> rcases hend with hs | hs <;> simp [hs]

/-! ### Tool Runners -/

variable {stepId : UUID} {step : ExecutionStep} {attempt : StepAttempt} {now : Time}

theorem applyOrDeferExecutionFatal (errorCode : Option String) (now : Time) (defer : Bool) :
    db.KeepsCall (McpFlow.applyOrDeferExecutionFatal errorCode now defer db) p := by
  unfold McpFlow.applyOrDeferExecutionFatal
  split
  · exact putExecution id
  · exact of_status (by simp) (by simp)

theorem failNonterminalStep (hs : step.id ≠ p.stepId) (errorCode : String) (now : Time) :
    db.KeepsCall (McpFlow.failNonterminalStep step errorCode now db) p := by
  unfold McpFlow.failNonterminalStep
  split
  · exact refl db p
  · exact putStep hs

theorem prepareFatal (hs : step.id ≠ p.stepId) (errorCode : String) (defer : Bool) :
    db.KeepsCall (McpFlow.prepareFatal step errorCode now defer db).2 p := by
  refine (failNonterminalStep hs errorCode now).trans ?_
  change (McpFlow.failNonterminalStep step errorCode now db).KeepsCall
    (failRunningExecution errorCode now defer _) p
  unfold failRunningExecution
  split
  · exact applyOrDeferExecutionFatal _ now defer
  · exact refl _ p

theorem prepareStartFailed (hs : step.id ≠ p.stepId) (e : AppError) (defer : Bool) :
    db.KeepsCall (McpFlow.prepareStartFailed step e now defer db).2 p := by
  unfold McpFlow.prepareStartFailed
  split
  · exact refl db p
  split
  · exact refl db p
  split
  · exact refl db p
  · exact prepareFatal hs e.code defer

theorem applyTerminalTransition {c : ToolCall} (ha : attempt ∈ db.attempts)
    (hastep : attempt.stepExecutionId ≠ p.stepId) (hs : step.id ≠ p.stepId)
    (hc : c ∈ db.toolCalls) (hattempt : c.stepAttemptId = attempt.id) (callEnd : CallEnd)
    (risk : RiskClass) (defer : Bool) :
    db.KeepsCall (McpFlow.applyTerminalTransition step attempt c callEnd risk now defer db) p := by
  unfold McpFlow.applyTerminalTransition
  dsimp only
  split
  · exact (putCallRows ha hastep hc hattempt (by rfl) (by rfl) (by exact hs)).trans
      (applyOrDeferExecutionFatal _ now defer)
  · exact (putCallRows ha hastep hc hattempt (by rfl) (by rfl) (by exact hs)).trans
      (putExecution id)

/-- The call of a Step is made on its own rows. -/
theorem prepareStarted {env : PrepareEnv} {replayed defer forbidWait : Bool} {worker : String}
    {token : UUID} {result : PrepareResult} (ha : attempt ∈ db.attempts)
    (hastep : attempt.stepExecutionId ≠ p.stepId) (hs : step.id ≠ p.stepId)
    (h : McpFlow.prepareStarted env step attempt replayed worker token now defer forbidWait db =
      .ok (result, db')) : db.KeepsCall db' p := by
  rcases prepareStarted_ok h with ⟨-, -, rfl⟩ | ⟨-, ⟨errorCode, hfatal⟩ | ⟨catalog, resume, -, hcall⟩⟩
  · exact refl db' p
  · rw [show db' = (McpFlow.prepareFatal step errorCode now defer db).2 from congrArg Prod.snd hfatal]
    exact prepareFatal hs errorCode defer
  · obtain ⟨c, toolCalls, hinsert, hattempt, -, -, hend⟩ := prepareCall_ok hcall
    have hinserted : db.KeepsCall { db with toolCalls := toolCalls } p :=
      of_insert (fun _ h => h) fun _ hd => (Table.mem_of_insert? hinsert).mpr (.inl hd)
    rcases hend with ⟨q, -, rfl, -⟩ | ⟨errorCode, -, rfl⟩
    · exact hinserted
    · have hmem : attempt ∈ ({ db with toolCalls := toolCalls } : Db).attempts := ha
      exact hinserted.trans (applyTerminalTransition hmem hastep hs
        ((Table.mem_of_insert? hinsert).mpr (.inr rfl)) hattempt _ _ _)

/-- Phase A from `start` on. -/
theorem prepareAttempt {env : PrepareEnv} {worker : String} {token : UUID}
    {defer forbidWait forbidNewApprovalWait : Bool} {result : PrepareResult}
    (hs : step.id ≠ p.stepId) (hmem : step ∈ db.steps)
    (h : McpFlow.prepareAttempt env step worker token now defer forbidWait forbidNewApprovalWait db =
      .ok (result, db')) : db.KeepsCall db' p := by
  obtain ⟨started, db₁, hstarted, hrest⟩ := prepareAttempt_ok h
  have hs₁ : ((db₁.steps.find? step.id).getD step).id ≠ p.stepId := by
    cases hfind : db₁.steps.find? step.id with
    | none => exact hs
    | some s => exact fun hid => hs ((Table.key_of_find? hfind).symm.trans hid)
  cases hstarted with
  | refused e =>
    rw [show db' = _ from congrArg Prod.snd hrest]
    exact prepareStartFailed hs₁ e defer
  | reused outcome hwait =>
    rcases hrest with ⟨-, hfatal⟩ | ⟨-, rfl, -⟩
    · rw [show db' = _ from congrArg Prod.snd hfatal]
      exact prepareFatal hs₁ _ defer
    · exact refl db' p
  | replayed attempt hrunning hattempt =>
    obtain ⟨ha, hastep, -⟩ := getStartedAttempt_some hattempt
    exact prepareStarted ha (by rw [hastep]; exact hs) hs₁ hrest
  | refusedPinned e input =>
    rw [show db' = _ from congrArg Prod.snd hrest]
    exact (putStep (s := step.pinInput input) hs).trans (prepareStartFailed hs₁ e defer)
  | waits outcome input request approvals =>
    have hwaits : db.KeepsCall (Approval.applyWaitingState
        { db.putStep (step.pinInput input) with approvals := approvals } (step.pinInput input)) p :=
      of_status (by simp [Approval.applyWaitingState]) (by simp [Approval.applyWaitingState])
    rcases hrest with ⟨-, hfatal⟩ | ⟨-, rfl, -⟩
    · rw [show db' = _ from congrArg Prod.snd hfatal]
      exact hwaits.trans (prepareFatal hs₁ _ defer)
    · exact hwaits
  | created attempt input attempts _ _ _ hastep _ hinsert =>
    have hstart : db.KeepsCall { (db.putStep (step.pinInput input)).putStep
        ((step.pinInput input).startRunning now) with attempts := attempts } p :=
      ((putStep (s := step.pinInput input) hs).trans
        (putStep (s := (step.pinInput input).startRunning now) hs)).trans
        (of_insert (fun _ ha => (Table.mem_of_insert? hinsert).mpr (.inl ha)) fun _ hc => hc)
    exact hstart.trans (prepareStarted ((Table.mem_of_insert? hinsert).mpr (.inr rfl))
      (by rw [hastep]; exact hs) hs₁ hrest)

/-- Phase A of another Step. -/
theorem prepare {env : PrepareEnv} {worker : String} {token : UUID}
    {defer forbidWait forbidNewApprovalWait : Bool} {result : PrepareResult}
    (hne : stepId ≠ p.stepId)
    (h : McpFlow.prepare env stepId worker token now defer forbidWait forbidNewApprovalWait db =
      .ok (result, db')) : db.KeepsCall db' p := by
  rcases prepare_ok h with ⟨rfl, -⟩ | ⟨-, -, -, outcome, hreconcile, -⟩ | ⟨step, hfind, -, -, -, hown⟩
  · exact refl db' p
  · have henter : db.KeepsCall db.enterCancelRequested p := by
      unfold Db.enterCancelRequested
      split
      · next hrunning => exact putExecution fun howned => ⟨.inl hrunning, howned.2⟩
      · exact refl db p
    exact henter.trans (reconcileCancelRequested hreconcile)
  · have hs : step.id ≠ p.stepId := fun hid => hne ((Table.key_of_find? hfind).symm.trans hid)
    rcases prepareOwned_ok hown with ⟨rfl, -⟩ | ⟨-, -, ⟨-, rfl, -⟩ | hattempt⟩
    · exact refl db' p
    · exact (putStep (by exact hs)).trans (putExecution id)
    · exact prepareAttempt hs (Table.mem_of_find? hfind) hattempt

variable {q : PreparedCall} {toolCall : ToolCall}

/-- The failure of a call whose rows do not fit together any more. -/
theorem gateFailClosed (hopen : db.CallOpen q) (hne : q.stepId ≠ p.stepId) :
    db.KeepsCall (finalGateFailClosedLineageCorruption (db.steps.find? q.stepId)
      (db.attempts.find? q.attemptId) (db.toolCalls.find? q.toolCallId) q now db).2 p := by
  obtain ⟨s, a, c, hrows, hend⟩ := hopen.gateFailClosed now
  rw [hend]
  exact (putCallRows hrows.attempt (by rw [hrows.attemptStep]; exact hne) hrows.toolCall
    hrows.callAttempt (by rfl) (by rfl) (by rw [hrows.stepId]; exact hne)).trans
      (applyOrDeferExecutionFatal _ now _)

/-- The move of a RUNNING Execution to CANCEL_REQUESTED. -/
theorem ensureCancelRequested
    (howned : db.execution.status = .running ∨ db.execution.status = .cancelRequested) :
    db.KeepsCall (db.ensureCancelRequested now) p := by
  unfold Db.ensureCancelRequested
  split
  · exact refl db p
  · exact putExecution fun h => ⟨howned, h.2⟩

/-- A call that meets a cancellation is closed, and the Execution reconciled. -/
theorem cancelCall {s : ExecutionStep} {c : ToolCall} {outcome : CancellationOutcome}
    (hrows : db.CallRows q s attempt toolCall) (hne : q.stepId ≠ p.stepId)
    (howned : db.execution.status = .running ∨ db.execution.status = .cancelRequested)
    (hid : c.id = toolCall.id)
    (h : McpFlow.reconcileCancelRequested now
      ((((db.putToolCall c).putAttempt (attempt.cancel now)).putStep
        (s.cancel now)).ensureCancelRequested now) = .ok (outcome, db')) : db.KeepsCall db' p := by
  have hs : (s.cancel now).id ≠ p.stepId := by
    rw [s.id_cancel, hrows.stepId]
    exact hne
  exact (putCallRows hrows.attempt (by rw [hrows.attemptStep]; exact hne) hrows.toolCall
    hrows.callAttempt hid (attempt.id_cancel now) hs).trans
      ((ensureCancelRequested (by exact howned)).trans (reconcileCancelRequested (by exact h)))

theorem cancelPreparedInvocationBeforeSend {s : ExecutionStep} {outcome : CancellationOutcome}
    (hrows : db.CallRows q s attempt toolCall) (hne : q.stepId ≠ p.stepId)
    (howned : db.execution.status = .running ∨ db.execution.status = .cancelRequested)
    (h : McpFlow.cancelPreparedInvocationBeforeSend s attempt toolCall now db = .ok (outcome, db')) :
    db.KeepsCall db' p := by
  unfold McpFlow.cancelPreparedInvocationBeforeSend at h
  rw [if_pos hrows.callStarted] at h
  exact cancelCall hrows hne howned (by rfl) h

theorem settleInputRequiredAfterCancel {s : ExecutionStep} {outcome : CancellationOutcome}
    (hrows : db.CallRows q s attempt toolCall) (hne : q.stepId ≠ p.stepId)
    (howned : db.execution.status = .running ∨ db.execution.status = .cancelRequested)
    (h : McpFlow.settleInputRequiredAfterCancel s attempt toolCall now db = .ok (outcome, db')) :
    db.KeepsCall db' p :=
  cancelCall hrows hne howned (by rfl) h

/-- The final gate of another Step. -/
theorem finalPreSendGate {verdict : Option String} {result : GateResult}
    (hopen : db.OwnedBy q.leaseToken → db.CallOpen q) (hne : q.stepId ≠ p.stepId)
    (h : McpFlow.finalPreSendGate verdict q now db = .ok (result, db')) : db.KeepsCall db' p := by
  rcases finalPreSendGate_ok h with ⟨-, rfl, -⟩ | ⟨hown, hrest⟩
  · exact refl db' p
  have hstatus := (Execution.ownedInFlight_iff.mp hown).1
  have hq := hopen ⟨hstatus, Execution.leaseToken_of_ownedInFlight hown⟩
  rcases hrest with hfail | ⟨s, a, c, hs, ha, hc, -, ⟨-, outcome, hcancel, -⟩ | ⟨-, rfl, -⟩⟩
  · rw [show db' = _ from congrArg Prod.snd hfail]
    exact gateFailClosed hq hne
  · exact cancelPreparedInvocationBeforeSend (hq.rows_of_find? hs ha hc) hne hstatus hcancel
  · exact refl db' p

theorem finalizeTerminal {s : ExecutionStep} {callEnd : CallEnd} {risk : RiskClass}
    {outcome : ToolRunOutcome} (hrows : db.CallRows q s attempt toolCall) (hne : q.stepId ≠ p.stepId)
    (h : McpFlow.finalizeTerminal q callEnd s attempt toolCall risk now db = .ok (outcome, db')) :
    db.KeepsCall db' p := by
  have hterminal : db.KeepsCall (McpFlow.applyTerminalTransition s attempt toolCall callEnd risk now
      q.deferExecutionTerminalization db) p :=
    applyTerminalTransition hrows.attempt (by rw [hrows.attemptStep]; exact hne)
      (by rw [hrows.stepId]; exact hne) hrows.toolCall hrows.callAttempt callEnd risk
      q.deferExecutionTerminalization
  rcases (finalizeTerminal_ok h).2.2.2 with rfl | ⟨-, o, hreconcile⟩
  · exact hterminal
  · exact hterminal.trans (reconcileCancelRequested hreconcile)

/-- Phase C of another Step. -/
theorem finalizeLocked {pinned : Except AppError PinnedToolPolicy} {callEnd : CallEnd}
    {outcome : ToolRunOutcome} (hopen : db.OwnedBy q.leaseToken → db.CallOpen q)
    (hne : q.stepId ≠ p.stepId)
    (h : McpFlow.finalizeLocked pinned q callEnd now db = .ok (outcome, db')) :
    db.KeepsCall db' p := by
  obtain ⟨s, a, c, risk, hfence, hend⟩ := finalizeLocked_ok h
  obtain ⟨hown, hs, ha, hc, -, -⟩ := finalizeFence_some hfence
  have hrows := (hopen ⟨(Execution.ownedInFlight_iff.mp hown).1,
    Execution.leaseToken_of_ownedInFlight hown⟩).rows_of_find? hs ha hc
  rcases hend with ⟨e, -, -, -, rfl⟩ | hterminal
  · exact putCallRows hrows.attempt (by rw [hrows.attemptStep]; exact hne) hrows.toolCall
      hrows.callAttempt (by rfl) (by rfl) (by rw [hrows.stepId]; exact hne)
  · exact finalizeTerminal hrows hne hterminal

theorem settleCallRows {s t : ExecutionStep} {b : StepAttempt}
    (hrows : db.CallRows q s attempt toolCall) (hne : q.stepId ≠ p.stepId) (ht : t.id = s.id)
    (hb : b.id = attempt.id) (callStatus status : StepAttemptStatus) (errorCode : String) :
    db.KeepsCall (McpFlow.settleCallRows t b toolCall callStatus status errorCode now db) p :=
  putCallRows hrows.attempt (by rw [hrows.attemptStep]; exact hne) hrows.toolCall
    hrows.callAttempt (by rfl) (by exact hb) (by change t.id ≠ _; rw [ht, hrows.stepId]; exact hne)

/-- An `input_required` answer of another Step. -/
theorem finalizeInputRequired {mrtr : InputRequired} {requestId : UUID} {outcome : ToolRunOutcome}
    (hopen : db.OwnedBy q.leaseToken → db.CallOpen q) (hne : q.stepId ≠ p.stepId)
    (h : McpFlow.finalizeInputRequired q mrtr requestId now db = .ok (outcome, db')) :
    db.KeepsCall db' p := by
  obtain ⟨s, a, c, hfence, hend⟩ := finalizeInputRequired_ok h
  obtain ⟨hown, hs, ha, hc, -, -⟩ := finalizeFence_some hfence
  have hstatus := (Execution.ownedInFlight_iff.mp hown).1
  have hrows := (hopen ⟨hstatus, Execution.leaseToken_of_ownedInFlight hown⟩).rows_of_find? hs ha hc
  rcases hend with ⟨t, b, status, errorCode, ht, hb, -, -, -, hfatal⟩ | ⟨-, o, hcancel⟩ |
    ⟨db₁, hinsert, rfl⟩ | ⟨-, -, hwait⟩
  · rw [show db' = _ from congrArg Prod.snd hfatal]
    exact (settleCallRows hrows hne ht.id hb status status errorCode).trans
      (applyOrDeferExecutionFatal _ now _)
  · exact settleInputRequiredAfterCancel hrows hne hstatus hcancel
  · obtain ⟨inputRequests, -, rfl⟩ := Db.insertInputRequest_ok hinsert
    have hrows' : Db.CallRows { db with inputRequests := inputRequests } q s a c :=
      { hrows with }
    exact (of_requests db p db.approvals inputRequests).trans
      ((settleCallRows hrows' hne rfl rfl .succeeded .timedOut "STEP_TIMEOUT").trans
        (putExecution id))
  · obtain ⟨inputRequests, -, rfl⟩ := openInputWait_ok hwait
    exact of_status (by simp) (by simp)

/-! ### Users, resumes and recovery -/

theorem failWaitingStep (authorable : Bool) (errorCode : String) :
    db.KeepsCall (Approval.failWaitingStep authorable step errorCode now db') p :=
  terminateExecution (by simp) (by simp) _ now

theorem decided {requestId : UUID} (h : Approval.Decided requestId now db db') :
    db.KeepsCall db' p := by
  cases h with
  | same => exact refl db p
  | approved => exact of_requests db p _ db.inputRequests
  | rejected => exact failWaitingStep _ _
  | expired => exact failWaitingStep _ _

theorem expireRequest (requestId : UUID) :
    db.KeepsCall (Approval.expireRequest requestId now db) p := by
  rcases Approval.expireRequest_cases requestId now db with h | ⟨_, _, -, -, -, -, -, h⟩
  · rw [h]
    exact refl db p
  · rw [h]
    exact failWaitingStep _ _

theorem resumedApproval {renv : Approval.ApprovalResumeEnv} {requestId : UUID}
    {outcome : Approval.ApprovalResumeClaimOutcome}
    (h : Approval.ResumedApproval renv requestId now db outcome db')
    (hne : p.leaseToken ≠ renv.leaseToken) : db.KeepsCall db' p := by
  cases h with
  | stale => exact refl db p
  | failed => exact failWaitingStep _ _
  | claimed => exact of_token rfl hne

theorem claimInput {env : Mrtr.ResumeEnv} {requestId : UUID} {outcome : Mrtr.ResumeClaimOutcome}
    (h : Mrtr.claim env requestId now db = .ok (outcome, db')) (hne : p.leaseToken ≠ env.leaseToken) :
    db.KeepsCall db' p := by
  rcases Mrtr.claim_ok h with ⟨-, rfl, -⟩ | ⟨hwait, s, -, -, ⟨-, rfl⟩ | ⟨-, _, _, -, -, -, -, -, rfl⟩⟩
  · exact refl db' p
  · have hfailed : (Mrtr.terminalizePreconditionFailed s now db).execution.status = .failed := by
      unfold Mrtr.terminalizePreconditionFailed
      split <;> simp [hwait]
    exact of_status (by simp [hfailed]) (by simp [hfailed])
  · exact of_token rfl hne

theorem rejectInput {resumeLineage : Except AppError Unit} {requestId : UUID} {actor : Mrtr.Actor}
    (h : Mrtr.reject resumeLineage requestId actor now db = .ok ((), db')) : db.KeepsCall db' p := by
  rcases Mrtr.reject_ok h with rfl | ⟨-, _, _, _, -, -, -, -, rfl⟩
  · exact refl db' p
  · exact of_status (by simp [Mrtr.applyReject]) (by simp [Mrtr.applyReject])

theorem submitResponse {resumeLineage : Except AppError Unit} {requestId : UUID}
    {actor : Mrtr.Actor} {responses : List (String × Json.Value)} {outcome : Mrtr.MrtrResponseOutcome}
    (h : Mrtr.submitResponse resumeLineage requestId actor responses now db = .ok (outcome, db')) :
    db.KeepsCall db' p := by
  rcases (Mrtr.submitResponse_ok h).2 with ⟨-, rfl⟩ | ⟨-, -, _, _, -, -, -, rfl⟩
  · exact refl db' p
  · exact of_requests db p db.approvals _

theorem renewLease {leaseSeconds : ℕ} {worker : String} {token : UUID}
    (h : McpFlow.renewLease leaseSeconds worker token now db = .ok ((), db')) :
    db.KeepsCall db' p := by
  obtain ⟨-, e, rfl, -, hstatus, htoken⟩ := renewLease_ok h
  exact putExecution fun howned => ⟨hstatus ▸ howned.1, htoken ▸ howned.2⟩

theorem claimExecution {env : RuntimeEnv} {claim : ClaimEnv} {outcome : ExecutionClaimOutcome}
    (h : McpFlow.claimExecution env claim now db = .ok (outcome, db'))
    (hne : p.leaseToken ≠ claim.leaseToken) : db.KeepsCall db' p := by
  rcases claimExecution_ok h with ⟨-, rfl⟩ | ⟨-, -, dag, -, rfl⟩
  · exact refl db' p
  · refine of_token ?_ hne
    rw [applyClaim, Db.foldl_putStep]
    rfl

theorem recovered {env : RecoveryEnv} {outcome : RecoveryOutcome}
    (h : Recovered env now db outcome db') (hne : p.leaseToken ≠ env.leaseToken) :
    db.KeepsCall db' p := by
  cases h with
  | same => exact refl db p
  | cancelled hstatus h => exact recoverExpiredCancelRequested hstatus h
  | @foundation step decision hstatus hstep hdecision =>
    cases decision with
    | takeoverReady => exact of_token rfl hne
    | resumeAttempt attempt => exact of_token rfl hne
    | safeRetry attempt toolCall => exact of_token rfl hne
    | failExhausted attempt toolCall => exact terminateExecution (by simp) (by simp) _ now
    | unknownOutcome attempt toolCall => exact terminateExecution (by simp) (by simp) _ now
  | foundationInconsistent => exact terminateExecution (by simp) (by simp) _ now
  | @dag steps hstatus hsteps =>
    unfold recoverClassified
    split
    · exact terminateExecution (by simp) (by simp) _ now
    split
    · exact terminateExecution (by simp) (by simp) _ now
    · refine of_token ?_ hne
      have htransfer (db : Db) (x : ExecutionStep × ToolStepClassification) (t : Option Time) :
          (transferAttempt env t db x).execution = db.execution := by
        unfold transferAttempt
        split <;> rfl
      simp only [takeOver]
      rw [List.apply_foldl_eq fun db x => htransfer db x _]
      rfl
  | dagInconsistent => exact terminateExecution (by simp) (by simp) _ now

/-! ### The orchestrator -/

/-- A reservation promotes PENDING TOOLs. -/
theorem reserveToolWave (dag : ToolJoinDag) (singleTool : Bool) :
    db.KeepsCall (McpFlow.reserveToolWave dag singleTool now db).2 p := by
  have hbeat := beat ((promotable dag db).foldl (fun db s => db.putStep (s.promote now)) db) p now
  refine .trans ?_ hbeat
  rw [Db.foldl_putStep, Table.foldl_put (f := (·.promote now)) (fun _ => rfl) _
    fun s hs => (mem_promotable hs).1]
  refine of_steps fun s hs _ hrunning _ => Table.mem_mapRows.mpr ⟨s, hs, if_neg fun hmem => ?_⟩
  have hpending := (mem_promotable hmem).2.2
  rw [hrunning] at hpending
  cases hpending

theorem preparedWave {env : RuntimeEnv} {worker : String} {token : UUID}
    (h : PreparedWave env worker token now db db') : db.KeepsCall db' p := by
  cases h with
  | same => exact refl db p
  | reconciled hstatus h => exact reconcileCancelRequested h
  | running => exact beat db p now
  | corrupt => exact failClosedLineage _ now
  | stopped _ hlocal hstop => exact (localSteps hlocal).trans (localStop hstop)
  | corruptAfter => exact failClosedLineage _ now
  | reserved singleTool _ _ _ hlocal =>
    exact (localSteps hlocal).trans (reserveToolWave _ singleTool)

theorem failClosedPreWavePolicy {worker : String} {token : UUID} {errorCode : String}
    {outcome : ProgressOutcome}
    (h : McpFlow.failClosedPreWavePolicy worker token errorCode now db = .ok (outcome, db')) :
    db.KeepsCall db' p := by
  rcases failClosedPreWavePolicy_ok h with rfl | ⟨-, rfl⟩
  · exact refl db' p
  · exact failClosedLineage _ now

/-- The natural end is no running status. -/
theorem naturalEnd {result : ProgressOutcome × Db}
    (h : McpFlow.naturalEnd now db = .ok (some result)) : db.KeepsCall result.2 p := by
  obtain ⟨-, decision, hdecision, hresult⟩ := naturalEnd_ok h
  rw [hresult]
  rcases aggregateAllRequired_ok hdecision with hs | hs | hs <;>
  · rw [hs]
    exact terminateExecution (by simp) (by simp) _ now

theorem settledWave {env : RuntimeEnv} {worker : String} {token : UUID}
    {outcomes : List (UUID × ToolRunOutcome)} {planOrder : List String}
    (h : SettledWave env worker token outcomes planOrder now db db') : db.KeepsCall db' p := by
  cases h with
  | same => exact refl db p
  | corrupt => exact failClosedLineage _ now
  | @stopCause stop =>
    refine terminateExecution ?_ ?_ _ now
    · unfold StopCause.executionStatus
      split <;> simp
    · unfold StopCause.executionStatus
      split <;> simp
  | reconciled _ _ _ h => exact reconcileCancelRequested h
  | stopped _ hlocal hstop => exact (localSteps hlocal).trans (localStop hstop)
  | ended _ hlocal h => exact (localSteps hlocal).trans (naturalEnd h)
  | settled _ hlocal => exact (localSteps hlocal).trans (beat _ p now)

theorem finished {env : RuntimeEnv} {worker : String} {token : UUID}
    (h : Finished env worker token now db db') : db.KeepsCall db' p := by
  cases h with
  | same => exact refl db p
  | corrupt => exact failClosedLineage _ now
  | stopped _ hlocal hstop => exact (localSteps hlocal).trans (localStop hstop)
  | ended _ hlocal h => exact (localSteps hlocal).trans (naturalEnd h)
  | unfinished _ hlocal => exact localSteps hlocal

end Db.KeepsCall

end McpFlow
