import McpFlow.Execution.Live
import McpFlow.Execution.RecoveryUnknown

/-!
# How the Steps of an Execution move

Outside the claim, the reservation and the local reconcile no Step row is inserted, and a row only
ends, moves between the statuses of a started TOOL, or is an APPROVAL. `Db.Moves` says so of every
transaction; what an Execution is created with never changes.
-/

namespace McpFlow

/-- What the creation of an Execution fixes. -/
structure ExecutionOrigin where
  id : UUID
  sourceType : ExecutionSourceType
  agentVersionId : Option UUID
  workflowVersionId : Option UUID
  scheduleOccurrenceId : Option UUID
  planSnapshot : ExecutionPlanV1

/-- The fixed part of the Execution row. -/
def Execution.origin (e : Execution) : ExecutionOrigin :=
  ⟨e.id, e.sourceType, e.agentVersionId, e.workflowVersionId, e.scheduleOccurrenceId, e.planSnapshot⟩

/-- A TOOL that runs, or that will run again. -/
def ExecutionStep.Engaged (s : ExecutionStep) : Prop :=
  s.stepType = .tool ∧ (s.status = .ready ∨ s.status = .running ∨ s.status = .waitingApproval ∨
    s.status = .waitingInput)

/-- What a transaction does to a Step row. -/
inductive StepMoves (s s' : ExecutionStep) : Prop
  | same (h : s' = s)
  | ended (hsame : SameStep s s') (hterminal : s'.status.isTerminal = true)
  | approval (hsame : SameStep s s') (htype : s.stepType = .approval)
      (hstatus : s'.status = .waitingApproval ∨ s'.status = .ready)
  | engaged (hsame : SameStep s s') (h : s.Engaged) (h' : s'.Engaged)

namespace StepMoves

variable {s t u : ExecutionStep}

theorem refl (s : ExecutionStep) : StepMoves s s := .same rfl

theorem sameStep (h : StepMoves s t) : SameStep s t := by
  cases h with
  | same h => exact h ▸ .refl s
  | ended h => exact h
  | approval h => exact h
  | engaged h => exact h

/-- An engaged TOOL has not ended. -/
theorem not_terminal_of_engaged (h : s.Engaged) : s.status.isTerminal = false := by
  rcases h.2 with h | h | h | h <;> rw [h] <;> rfl

/-- Only an engaged TOOL becomes one. -/
theorem engaged_of (h : StepMoves s t) (ht : t.Engaged) : s.Engaged := by
  cases h with
  | same h => exact h ▸ ht
  | ended _ hterminal =>
    rw [not_terminal_of_engaged ht] at hterminal
    cases hterminal
  | approval hsame htype =>
    have htool := ht.1
    rw [hsame.stepType, htype] at htool
    cases htool
  | engaged _ h _ => exact h

theorem trans (h : StepMoves s t) (h' : StepMoves t u) : StepMoves s u := by
  have hsame := h.sameStep.trans h'.sameStep
  cases h' with
  | same h' => exact h' ▸ h
  | ended _ hterminal => exact .ended hsame hterminal
  | approval _ htype hstatus => exact .approval hsame (h.sameStep.stepType ▸ htype) hstatus
  | engaged _ ht hu => exact .engaged hsame (h.engaged_of ht) hu

/-- A Step that waits for input waits already, or is a TOOL. -/
theorem of_waitingInput (h : StepMoves s t) (ht : t.status = .waitingInput) :
    t = s ∨ t.stepType = .tool := by
  cases h with
  | same h => exact .inl h
  | ended _ hterminal =>
    rw [ht] at hterminal
    cases hterminal
  | approval _ _ hstatus =>
    rw [ht] at hstatus
    rcases hstatus with h | h <;> cases h
  | engaged _ _ h' => exact .inr h'.1

/-- A LOOP stays as it is, or ends. -/
theorem of_loop (h : StepMoves s t) (htype : s.stepType = .loop) :
    t = s ∨ t.status.isTerminal = true := by
  cases h with
  | same h => exact .inl h
  | ended _ hterminal => exact .inr hterminal
  | approval _ happroval =>
    rw [htype] at happroval
    cases happroval
  | engaged _ h _ =>
    rw [h.1] at htype
    cases htype

end StepMoves

/-- What a transaction does to the Steps, and to the fixed part of the Execution. -/
structure Db.Moves (db db' : Db) : Prop where
  origin : db'.execution.origin = db.execution.origin
  steps : Table.Rewrites StepMoves db.steps db'.steps

namespace Db.Moves

variable {db db' db'' : Db} {now : Time}

theorem refl (db : Db) : db.Moves db := ⟨rfl, .refl StepMoves.refl _⟩

theorem trans (h : db.Moves db') (h' : db'.Moves db'') : db.Moves db'' :=
  ⟨h'.origin.trans h.origin, .trans StepMoves.trans h.steps h'.steps⟩

/-- Only the other rows change. -/
theorem of_steps_eq (horigin : db'.execution.origin = db.execution.origin)
    (hsteps : db'.steps = db.steps) : db.Moves db' :=
  ⟨horigin, hsteps ▸ .refl StepMoves.refl _⟩

theorem putStep {s s' : ExecutionStep} (hs : s ∈ db.steps) (h : StepMoves s s') :
    db.Moves (db.putStep s') :=
  ⟨rfl, .of_put StepMoves.refl hs h.sameStep.id h⟩

/-- One Step row is written, with rows of other tables. -/
theorem of_put {s s' : ExecutionStep} (hs : s ∈ db.steps)
    (horigin : db'.execution.origin = db.execution.origin) (hsteps : db'.steps = db.steps.put s')
    (h : StepMoves s s') : db.Moves db' :=
  ⟨horigin, hsteps ▸ .of_put StepMoves.refl hs h.sameStep.id h⟩

/-- A Step ends. -/
theorem endStep {s s' : ExecutionStep} (hs : s ∈ db.steps) (hsame : SameStep s s')
    (hterminal : s'.status.isTerminal = true) : db.Moves (db.putStep s') :=
  putStep hs (.ended hsame hterminal)

theorem mapSteps {f : ExecutionStep → ExecutionStep}
    (horigin : db'.execution.origin = db.execution.origin)
    (hsteps : db'.steps.rows = db.steps.rows.map f) (h : ∀ s ∈ db.steps, StepMoves s (f s)) :
    db.Moves db' :=
  ⟨horigin, f, hsteps, h⟩

/-! ### Stopping and cancelling -/

theorem terminateExecution (db : Db) (status : ExecutionStatus) (errorCode : Option String)
    (now : Time) : db.Moves (db.terminateExecution status errorCode now) :=
  of_steps_eq rfl rfl

theorem stopUnstartedSteps (db : Db) (now : Time) : db.Moves (db.stopUnstartedSteps now) := by
  have hskip : db.Moves (db.skipAllPending now) := by
    refine mapSteps rfl rfl fun s _ => ?_
    unfold ExecutionStep.skipIfPending
    split
    · exact .ended rfl rfl
    · exact .refl s
  refine hskip.trans (mapSteps rfl rfl fun s _ => ?_)
  unfold ExecutionStep.cancelIfUnusedReady
  split
  · exact .ended rfl rfl
  · exact .refl s

theorem failClosedLineage (errorCode : String) (now : Time) (db : Db) :
    db.Moves (McpFlow.failClosedLineage errorCode now db).2 :=
  (stopUnstartedSteps db now).trans (terminateExecution _ _ _ now)

theorem stepMoves_cancel (s : ExecutionStep) (now : Time) : StepMoves s (s.cancel now) := by
  refine .ended ?_ (s.isTerminal_cancel now)
  unfold ExecutionStep.cancel
  split <;> rfl

theorem cancelOpenWork (db : Db) (now : Time) (answeredBy : Option UUID) (preserve : List UUID) :
    db.Moves (db.cancelOpenWork now answeredBy preserve) := by
  refine mapSteps rfl rfl fun s _ => ?_
  split
  · exact .refl s
  · exact stepMoves_cancel s now

theorem reconcileCancelRequested {outcome : CancellationOutcome}
    (h : McpFlow.reconcileCancelRequested now db = .ok (outcome, db')) : db.Moves db' := by
  unfold McpFlow.reconcileCancelRequested at h
  split at h
  · cases h
    exact refl db
  split at h
  · cases h
  split at h
  · cases h
    exact refl db
  dsimp only at h
  split at h <;>
  · cases h
    exact (cancelOpenWork db now _ []).trans (of_steps_eq rfl rfl)

theorem origin_setCancelMetadataOnce (e : Execution) (now : Time) (requestedBy : Option UUID) :
    (e.setCancelMetadataOnce now requestedBy).origin = e.origin := by
  unfold Execution.setCancelMetadataOnce
  split <;> rfl

theorem applyCancellation {requestedBy : Option UUID} {outcome : CancellationOutcome}
    (h : McpFlow.applyCancellation now requestedBy db = .ok (outcome, db')) : db.Moves db' := by
  have hmarked : db.Moves (db.putExecution (db.execution.setCancelMetadataOnce now requestedBy)) :=
    of_steps_eq (origin_setCancelMetadataOnce ..) rfl
  rcases applyCancellation_ok h with ⟨rfl, -⟩ | ⟨-, -, ⟨-, rfl⟩ | ⟨-, -, rfl⟩⟩
  · exact refl db'
  · exact (hmarked.trans (cancelOpenWork _ now _ _)).trans (of_steps_eq rfl rfl)
  · exact (hmarked.trans (cancelOpenWork _ now _ _)).trans (of_steps_eq rfl rfl)

theorem recoverExpiredCancelRequested {outcome : CancellationOutcome}
    (h : McpFlow.recoverExpiredCancelRequested now db = .ok (outcome, db')) : db.Moves db' := by
  unfold McpFlow.recoverExpiredCancelRequested at h
  split at h
  · cases h
    exact refl db
  split at h
  · cases h
  have hsettled : db.Moves (db.settleStartedCallsUnknown now) := by
    refine mapSteps rfl rfl fun s _ => ?_
    split
    · exact .ended rfl rfl
    · exact .refl s
  have hpromoted : (db.settleStartedCallsUnknown now).Moves
      ((db.settleStartedCallsUnknown now).promoteUnknownEvidence now) := by
    refine mapSteps rfl rfl fun s _ => ?_
    split
    · exact .ended rfl rfl
    · exact .refl s
  exact (hsettled.trans hpromoted).trans (reconcileCancelRequested h)

/-! ### Tool Runners -/

variable {step : ExecutionStep} {attempt : StepAttempt} {toolCall : ToolCall} {q : PreparedCall}

theorem applyOrDeferExecutionFatal (errorCode : Option String) (now : Time) (defer : Bool) (db : Db) :
    db.Moves (McpFlow.applyOrDeferExecutionFatal errorCode now defer db) := by
  unfold McpFlow.applyOrDeferExecutionFatal
  split <;> exact of_steps_eq rfl rfl

theorem failNonterminalStep (hs : step ∈ db.steps) (errorCode : String) (now : Time) :
    db.Moves (McpFlow.failNonterminalStep step errorCode now db) := by
  unfold McpFlow.failNonterminalStep
  split
  · exact refl db
  · exact endStep hs rfl rfl

theorem prepareFatal (hs : step ∈ db.steps) (errorCode : String) (defer : Bool) :
    db.Moves (McpFlow.prepareFatal step errorCode now defer db).2 := by
  refine (failNonterminalStep hs errorCode now).trans ?_
  change (McpFlow.failNonterminalStep step errorCode now db).Moves
    (failRunningExecution errorCode now defer _)
  unfold failRunningExecution
  split
  · exact applyOrDeferExecutionFatal _ now defer _
  · exact refl _

theorem prepareStartFailed (hs : step ∈ db.steps) (e : AppError) (defer : Bool) :
    db.Moves (McpFlow.prepareStartFailed step e now defer db).2 := by
  unfold McpFlow.prepareStartFailed
  split
  · exact refl db
  split
  · exact refl db
  split
  · exact refl db
  · exact prepareFatal hs e.code defer

theorem isTerminal_toStep {status : StepAttemptStatus} (h : status ≠ .started) :
    status.toStep.isTerminal = true := by
  cases status <;> first | rfl | exact absurd rfl h

theorem applyTerminalTransition (hs : step ∈ db.steps) (callEnd : CallEnd) (risk : RiskClass)
    (defer : Bool) :
    db.Moves (McpFlow.applyTerminalTransition step attempt toolCall callEnd risk now defer db) := by
  refine .of_put hs ?_ (steps_applyTerminalTransition ..)
    (.ended rfl (isTerminal_toStep (callEnd.terminal_ne_started risk)))
  unfold McpFlow.applyTerminalTransition McpFlow.applyOrDeferExecutionFatal
  dsimp only
  split
  · split <;> rfl
  · rfl

theorem prepareStarted {env : PrepareEnv} {replayed defer forbidWait : Bool} {worker : String}
    {token : UUID} {result : PrepareResult} (hs : step ∈ db.steps)
    (h : McpFlow.prepareStarted env step attempt replayed worker token now defer forbidWait db =
      .ok (result, db')) : db.Moves db' := by
  rcases prepareStarted_ok h with ⟨-, -, rfl⟩ | ⟨-, ⟨errorCode, hfatal⟩ | ⟨catalog, resume, -, hcall⟩⟩
  · exact refl db'
  · rw [show db' = _ from congrArg Prod.snd hfatal]
    exact prepareFatal hs errorCode defer
  · obtain ⟨c, toolCalls, -, -, -, -, ⟨p, -, rfl, -⟩ | ⟨errorCode, -, rfl⟩⟩ := prepareCall_ok hcall
    · exact of_steps_eq rfl rfl
    · have hinserted : db.Moves { db with toolCalls := toolCalls } := of_steps_eq rfl rfl
      have hmem : step ∈ ({ db with toolCalls := toolCalls } : Db).steps := hs
      exact hinserted.trans (applyTerminalTransition hmem _ _ _)

/-- Phase A from `start` on: a READY TOOL runs, waits for its approval, or ends. -/
theorem prepareAttempt {env : PrepareEnv} {worker : String} {token : UUID}
    {defer forbidWait forbidNewApprovalWait : Bool} {result : PrepareResult} (hs : step ∈ db.steps)
    (htype : step.stepType = .tool)
    (h : McpFlow.prepareAttempt env step worker token now defer forbidWait forbidNewApprovalWait db =
      .ok (result, db')) : db.Moves db' := by
  obtain ⟨started, db₁, hstarted, hrest⟩ := prepareAttempt_ok h
  have hpinned {input : List (String × Json.Value)} (hready : step.status = .ready) :
      db.Moves (db.putStep (step.pinInput input)) :=
    putStep hs (.engaged rfl ⟨htype, .inl hready⟩ ⟨htype, .inl hready⟩)
  have hmem (input : List (String × Json.Value)) :
      step.pinInput input ∈ (db.putStep (step.pinInput input)).steps := Table.mem_put_self hs rfl
  cases hstarted with
  | refused e =>
    rw [Table.find?_key_of_mem hs, Option.getD_some] at hrest
    rw [show db' = _ from congrArg Prod.snd hrest]
    exact prepareStartFailed hs e defer
  | reused outcome hwait =>
    rw [Table.find?_key_of_mem hs, Option.getD_some] at hrest
    rcases hrest with ⟨-, hfatal⟩ | ⟨-, rfl, -⟩
    · rw [show db' = _ from congrArg Prod.snd hfatal]
      exact prepareFatal hs _ defer
    · exact refl db'
  | replayed attempt hrunning hattempt =>
    rw [Table.find?_key_of_mem hs] at hrest
    exact prepareStarted hs hrest
  | refusedPinned e input hready =>
    have hfind : ((db.putStep (step.pinInput input)).steps.find? step.id).getD step =
        step.pinInput input :=
      congrArg (Option.getD · step) (Table.find?_key_of_mem (hmem input))
    dsimp only at hrest
    rw [hfind] at hrest
    rw [show db' = _ from congrArg Prod.snd hrest]
    exact (hpinned hready).trans (prepareStartFailed (hmem input) e defer)
  | waits outcome input request approvals hready =>
    have hmove : StepMoves (step.pinInput input)
        { step.pinInput input with status := .waitingApproval } :=
      .engaged rfl ⟨htype, .inl hready⟩ ⟨htype, .inr (.inr (.inl rfl))⟩
    have hwaits : db.Moves (Approval.applyWaitingState
        { db.putStep (step.pinInput input) with approvals := approvals } (step.pinInput input)) :=
      (hpinned hready).trans (of_put (hmem input) rfl rfl hmove)
    have hwaiting := Table.mem_put_self (r := { step.pinInput input with status := .waitingApproval })
      (hmem input) (by rfl)
    have hfind : ((Approval.applyWaitingState
        { db.putStep (step.pinInput input) with approvals := approvals }
        (step.pinInput input)).steps.find? step.id).getD step =
          { step.pinInput input with status := .waitingApproval } :=
      congrArg (Option.getD · step) (Table.find?_key_of_mem hwaiting)
    dsimp only at hrest
    rw [hfind] at hrest
    rcases hrest with ⟨-, hfatal⟩ | ⟨-, rfl, -⟩
    · rw [show db' = _ from congrArg Prod.snd hfatal]
      exact hwaits.trans (prepareFatal hwaiting _ defer)
    · exact hwaits
  | created attempt input attempts hready _ _ _ _ hinsert =>
    have hmove : StepMoves (step.pinInput input) ((step.pinInput input).startRunning now) :=
      .engaged rfl ⟨htype, .inl hready⟩ ⟨htype, .inr (.inl rfl)⟩
    have hstarts : db.Moves { (db.putStep (step.pinInput input)).putStep
        ((step.pinInput input).startRunning now) with attempts := attempts } :=
      (hpinned hready).trans (of_put (hmem input) rfl rfl hmove)
    have hrunning := Table.mem_put_self (r := (step.pinInput input).startRunning now)
      (hmem input) (by rfl)
    have hfind : ((db.steps.put (step.pinInput input)).put
        ((step.pinInput input).startRunning now)).find? step.id =
          some ((step.pinInput input).startRunning now) := Table.find?_key_of_mem hrunning
    simp only [Db.steps_putStep, hfind, Option.getD_some] at hrest
    exact hstarts.trans (prepareStarted hrunning hrest)

/-- Phase A. -/
theorem prepare {env : PrepareEnv} {stepId : UUID} {worker : String} {token : UUID}
    {defer forbidWait forbidNewApprovalWait : Bool} {result : PrepareResult}
    (h : McpFlow.prepare env stepId worker token now defer forbidWait forbidNewApprovalWait db =
      .ok (result, db')) : db.Moves db' := by
  rcases prepare_ok h with ⟨rfl, -⟩ | ⟨-, -, -, outcome, hreconcile, -⟩ |
    ⟨step, hfind, htype, -, -, hown⟩
  · exact refl db'
  · have henter : db.Moves db.enterCancelRequested := by
      unfold Db.enterCancelRequested
      split
      · exact of_steps_eq rfl rfl
      · exact refl db
    exact henter.trans (reconcileCancelRequested hreconcile)
  · have hs := Table.mem_of_find? hfind
    rcases prepareOwned_ok hown with ⟨rfl, -⟩ | ⟨-, -, ⟨-, rfl, -⟩ | hattempt⟩
    · exact refl db'
    · exact (endStep hs (by rfl) (by rfl)).trans (of_steps_eq rfl rfl)
    · exact prepareAttempt hs htype hattempt

theorem ensureCancelRequested (db : Db) (now : Time) :
    db.Moves (db.ensureCancelRequested now) := by
  unfold Db.ensureCancelRequested
  split
  · exact refl db
  · exact of_steps_eq rfl rfl

/-- A call that meets a cancellation is closed, and the Execution reconciled. -/
theorem cancelCall {c : ToolCall} {a : StepAttempt} {outcome : CancellationOutcome}
    (hs : step ∈ db.steps)
    (h : McpFlow.reconcileCancelRequested now
      ((((db.putToolCall c).putAttempt a).putStep (step.cancel now)).ensureCancelRequested now) =
        .ok (outcome, db')) : db.Moves db' :=
  (of_put hs (by rfl) (by rfl) (stepMoves_cancel step now)).trans
    ((ensureCancelRequested _ now).trans (reconcileCancelRequested h))

theorem cancelPreparedInvocationBeforeSend {outcome : CancellationOutcome} (hs : step ∈ db.steps)
    (hstarted : toolCall.normalizedStatus = .started)
    (h : McpFlow.cancelPreparedInvocationBeforeSend step attempt toolCall now db =
      .ok (outcome, db')) : db.Moves db' := by
  unfold McpFlow.cancelPreparedInvocationBeforeSend at h
  rw [if_pos hstarted] at h
  exact cancelCall hs h

/-- The final gate. -/
theorem finalPreSendGate {verdict : Option String} {result : GateResult}
    (hopen : db.OwnedBy q.leaseToken → db.CallOpen q)
    (h : McpFlow.finalPreSendGate verdict q now db = .ok (result, db')) : db.Moves db' := by
  rcases finalPreSendGate_ok h with ⟨-, rfl, -⟩ | ⟨hown, hrest⟩
  · exact refl db'
  have hq := hopen ⟨(Execution.ownedInFlight_iff.mp hown).1,
    Execution.leaseToken_of_ownedInFlight hown⟩
  rcases hrest with hfail | ⟨s, a, c, hs, ha, hc, -, ⟨-, outcome, hcancel, -⟩ | ⟨-, rfl, -⟩⟩
  · obtain ⟨s, a, c, hrows, hend⟩ := hq.gateFailClosed now
    rw [show db' = _ from congrArg Prod.snd hfail, hend]
    have hended : StepMoves s { s with
        status := .failed, errorCode := some "RESOURCE_CONFLICT", finishedAt := some now } :=
      .ended rfl rfl
    exact (of_put hrows.step (by rfl) (by rfl) hended).trans
      (applyOrDeferExecutionFatal _ now _ _)
  · have hrows := hq.rows_of_find? hs ha hc
    exact cancelPreparedInvocationBeforeSend hrows.step hrows.callStarted hcancel
  · exact refl db'

/-- The Step of a call goes back to READY for its next Attempt. -/
theorem applyRetryCheckpoint {e : McpClientError} {risk : RiskClass}
    (hrows : db.CallRows q step attempt toolCall) :
    db.Moves (McpFlow.applyRetryCheckpoint step attempt toolCall e risk now db) := by
  have hmove : StepMoves step { step with
      status := .ready, errorCode := none, resultInline := none, finishedAt := none } :=
    .engaged rfl ⟨hrows.stepType, .inr (.inl hrows.running)⟩ ⟨hrows.stepType, .inl rfl⟩
  exact of_put hrows.step rfl rfl hmove

/-- Phase C. -/
theorem finalizeLocked {pinned : Except AppError PinnedToolPolicy} {callEnd : CallEnd}
    {outcome : ToolRunOutcome} (hopen : db.OwnedBy q.leaseToken → db.CallOpen q)
    (h : McpFlow.finalizeLocked pinned q callEnd now db = .ok (outcome, db')) : db.Moves db' := by
  obtain ⟨s, a, c, risk, hfence, hend⟩ := finalizeLocked_ok h
  obtain ⟨hown, hs, ha, hc, -, -⟩ := finalizeFence_some hfence
  have hrows := (hopen ⟨(Execution.ownedInFlight_iff.mp hown).1,
    Execution.leaseToken_of_ownedInFlight hown⟩).rows_of_find? hs ha hc
  rcases hend with ⟨e, -, -, -, rfl⟩ | hterminal
  · exact applyRetryCheckpoint hrows
  · have hended : db.Moves (McpFlow.applyTerminalTransition s a c callEnd risk now
        q.deferExecutionTerminalization db) :=
      applyTerminalTransition hrows.step callEnd risk q.deferExecutionTerminalization
    rcases (finalizeTerminal_ok hterminal).2.2.2 with rfl | ⟨-, o, hreconcile⟩
    · exact hended
    · exact hended.trans (reconcileCancelRequested hreconcile)

/-- The rows of an `input_required` call that ends its Step. -/
theorem settleCallRows {s : ExecutionStep} {callStatus status : StepAttemptStatus}
    (hs : s ∈ db.steps) (hsame : SameStep s step) (hstatus : status ≠ .started)
    (errorCode : String) :
    db.Moves (McpFlow.settleCallRows step attempt toolCall callStatus status errorCode now db) := by
  have hmove : StepMoves s { step with
      status := status.toStep
      errorCode := some errorCode
      finishedAt := some now } := .ended hsame (isTerminal_toStep hstatus)
  exact of_put hs rfl rfl hmove

/-- An `input_required` answer. -/
theorem finalizeInputRequired {mrtr : InputRequired} {requestId : UUID} {outcome : ToolRunOutcome}
    (hopen : db.OwnedBy q.leaseToken → db.CallOpen q)
    (h : McpFlow.finalizeInputRequired q mrtr requestId now db = .ok (outcome, db')) :
    db.Moves db' := by
  obtain ⟨s, a, c, hfence, hend⟩ := finalizeInputRequired_ok h
  obtain ⟨hown, hs, ha, hc, -, -⟩ := finalizeFence_some hfence
  have hrows := (hopen ⟨(Execution.ownedInFlight_iff.mp hown).1,
    Execution.leaseToken_of_ownedInFlight hown⟩).rows_of_find? hs ha hc
  rcases hend with ⟨t, b, status, errorCode, ht, -, -, hstatus, -, hfatal⟩ | ⟨-, o, hcancel⟩ |
    ⟨db₁, hinsert, rfl⟩ | ⟨-, -, hwait⟩
  · rw [show db' = _ from congrArg Prod.snd hfatal]
    exact (settleCallRows hrows.step ht hstatus errorCode).trans
      (applyOrDeferExecutionFatal _ now _ _)
  · exact cancelCall hrows.step hcancel
  · obtain ⟨inputRequests, -, rfl⟩ := Db.insertInputRequest_ok hinsert
    have hinserted : db.Moves { db with inputRequests := inputRequests } := of_steps_eq rfl rfl
    have hmem : s ∈ ({ db with inputRequests := inputRequests } : Db).steps := hrows.step
    have hsettled : Db.Moves { db with inputRequests := inputRequests }
        (McpFlow.settleCallRows s a c .succeeded .timedOut "STEP_TIMEOUT" now
          { db with inputRequests := inputRequests }) :=
      settleCallRows hmem (.refl s) (by simp) "STEP_TIMEOUT"
    exact (hinserted.trans hsettled).trans (of_steps_eq rfl rfl)
  · obtain ⟨inputRequests, -, rfl⟩ := openInputWait_ok hwait
    have hmove : StepMoves s { s with
        status := .waitingInput, finishedAt := none, errorCode := none } :=
      .engaged rfl ⟨hrows.stepType, .inr (.inl hrows.running)⟩
        ⟨hrows.stepType, .inr (.inr (.inr rfl))⟩
    exact of_put hrows.step rfl rfl hmove

/-! ### Users, resumes and recovery -/

/-- The Step of a refused approval ends, and its Execution. -/
theorem failWaitingStep (hs : step ∈ db.steps) (authorable : Bool) (errorCode : String) :
    db.Moves (Approval.failWaitingStep authorable step errorCode now db) := by
  have hended : StepMoves step { step with
      status := .failed, errorCode := some errorCode, finishedAt := some now } := .ended rfl rfl
  have hput := putStep hs hended
  unfold Approval.failWaitingStep
  dsimp only
  split
  · exact (hput.trans (stopUnstartedSteps _ now)).trans (terminateExecution _ _ _ now)
  · exact hput.trans (terminateExecution _ _ _ now)

/-- The request of a refused approval is resolved first. -/
theorem resolveAndFail {request : ApprovalRequest} (hs : step ∈ db.steps) (authorable : Bool)
    (errorCode : String) :
    db.Moves (Approval.failWaitingStep authorable step errorCode now (db.putApproval request)) := by
  have hresolved : db.Moves (db.putApproval request) := of_steps_eq rfl rfl
  have hmem : step ∈ (db.putApproval request).steps := hs
  exact hresolved.trans (failWaitingStep hmem authorable errorCode)

theorem decided {requestId : UUID} (h : Approval.Decided requestId now db db') : db.Moves db' := by
  cases h with
  | same => exact refl db
  | approved => exact of_steps_eq rfl rfl
  | rejected _ _ hstep _ => exact resolveAndFail (Table.mem_of_find? hstep) _ _
  | expired _ _ hstep _ => exact resolveAndFail (Table.mem_of_find? hstep) _ _

theorem expireRequest (requestId : UUID) (now : Time) (db : Db) :
    db.Moves (Approval.expireRequest requestId now db) := by
  rcases Approval.expireRequest_cases requestId now db with h | ⟨request, step, -, -, -, hstep, -, h⟩
  · rw [h]
    exact refl db
  · rw [h]
    exact resolveAndFail (Table.mem_of_find? hstep) _ _

/-- A resumed Step is READY: it is a TOOL or an APPROVAL. -/
theorem resumedApproval {renv : Approval.ApprovalResumeEnv} {requestId : UUID}
    {outcome : Approval.ApprovalResumeClaimOutcome}
    (h : Approval.ResumedApproval renv requestId now db outcome db') : db.Moves db' := by
  cases h with
  | stale => exact refl db
  | failed _ _ _ hstep => exact failWaitingStep (Table.mem_of_find? hstep) _ _
  | @claimed request step _ _ hstep htype hresumable _ _ =>
    have hwaiting := (Approval.assertResumable_ok hresumable).2.2.2
    have hready : StepMoves step
        { step with status := .ready, readyAt := step.readyAt.or (some now) } := by
      rcases htype with h | h
      · exact .approval rfl h (.inr rfl)
      · exact .engaged rfl ⟨h, .inr (.inr (.inl hwaiting))⟩ ⟨h, .inl rfl⟩
    exact of_put (Table.mem_of_find? hstep) (by rfl) (by rfl) hready

theorem terminalizePreconditionFailed (hs : step ∈ db.steps) (now : Time) :
    db.Moves (Mrtr.terminalizePreconditionFailed step now db) := by
  have hended : StepMoves step { step with
      status := .failed, errorCode := some Mrtr.resumePreconditionFailed, finishedAt := some now } :=
    .ended rfl rfl
  have hexecution (db : Db) : db.Moves (if db.execution.status = .waitingInput then
      db.putExecution
        { db.execution.clearLease with
          status := .failed
          errorCode := some Mrtr.resumePreconditionFailed
          finishedAt := some now }
      else db) := by
    split
    · exact of_steps_eq rfl rfl
    · exact refl db
  unfold Mrtr.terminalizePreconditionFailed
  by_cases hkeeps : Mrtr.keepsStatus step.status
  · rw [if_pos hkeeps]
    exact hexecution db
  · rw [if_neg hkeeps]
    exact (putStep hs hended).trans (hexecution _)

theorem claimInput {env : Mrtr.ResumeEnv} {requestId : UUID} {outcome : Mrtr.ResumeClaimOutcome}
    (hwaits : ∀ s ∈ db.steps, s.status = .waitingInput → s.stepType = .tool)
    (h : Mrtr.claim env requestId now db = .ok (outcome, db')) : db.Moves db' := by
  rcases Mrtr.claim_ok h with ⟨-, rfl, -⟩ | ⟨-, s, hwaiting, -, hend⟩
  · exact refl db'
  have hmem : s ∈ db.steps.rows.filter (·.status = .waitingInput) :=
    hwaiting ▸ List.mem_singleton_self s
  obtain ⟨hs, hstatus⟩ := List.mem_filter.mp hmem
  have hstatus : s.status = .waitingInput := of_decide_eq_true hstatus
  rcases hend with ⟨-, rfl⟩ | ⟨-, _, _, -, -, -, -, -, rfl⟩
  · exact terminalizePreconditionFailed hs now
  · have hmove : StepMoves s { s with status := .running, errorCode := none } :=
      .engaged rfl ⟨hwaits s hs hstatus, .inr (.inr (.inr hstatus))⟩
        ⟨hwaits s hs hstatus, .inr (.inl rfl)⟩
    exact of_put hs rfl rfl hmove

theorem rejectInput {resumeLineage : Except AppError Unit} {requestId : UUID} {actor : Mrtr.Actor}
    (h : Mrtr.reject resumeLineage requestId actor now db = .ok ((), db')) : db.Moves db' := by
  rcases Mrtr.reject_ok h with rfl | ⟨-, _, _, s, -, -, -, hrows, rfl⟩
  · exact refl db'
  · have hs : s ∈ db.steps := by
      rw [Table.mem_def, hrows]
      exact List.mem_singleton_self s
    have hended : StepMoves s { s with
        status := .failed, errorCode := some Mrtr.mrtrRejected, finishedAt := some now } :=
      .ended rfl rfl
    exact of_put hs rfl rfl hended

theorem submitResponse {resumeLineage : Except AppError Unit} {requestId : UUID}
    {actor : Mrtr.Actor} {responses : List (String × Json.Value)} {outcome : Mrtr.MrtrResponseOutcome}
    (h : Mrtr.submitResponse resumeLineage requestId actor responses now db = .ok (outcome, db')) :
    db.Moves db' := by
  rcases (Mrtr.submitResponse_ok h).2 with ⟨-, rfl⟩ | ⟨-, -, _, _, -, -, -, rfl⟩
  · exact refl db'
  · exact of_steps_eq rfl rfl

theorem renewLease {leaseSeconds : ℕ} {worker : String} {token : UUID}
    (h : McpFlow.renewLease leaseSeconds worker token now db = .ok ((), db')) : db.Moves db' := by
  unfold McpFlow.renewLease at h
  split at h
  · cases h
    exact of_steps_eq rfl rfl
  · cases h

/-- The rows move further from the same start. -/
theorem overwrite {base : Db} {s s' : ExecutionStep} (h : base.Moves db) (hs : s ∈ base.steps)
    (hmove : StepMoves s s') : base.Moves (db.putStep s') := by
  obtain ⟨horigin, f, hf, hrel⟩ := h
  refine ⟨horigin, fun t => if t.id = s'.id then s' else f t, ?_, fun t ht => ?_⟩
  · rw [Db.steps_putStep, Table.rows_put, hf, List.map_map]
    refine List.map_congr_left fun t ht => ?_
    rw [Function.comp_apply, (hrel t ht).sameStep.id]
  · dsimp only
    split
    · next hid =>
      rw [Table.eq_of_key_eq ht hs (hid.trans hmove.sameStep.id)]
      exact hmove
    · exact hrel t ht

/-! #### Recovery -/

theorem takenOver (db : Db) (env : RecoveryEnv) (now : Time) : db.Moves (db.takenOver env now) :=
  of_steps_eq rfl rfl

theorem failInconsistent (db : Db) (now : Time) : db.Moves (db.failInconsistent now) := by
  refine mapSteps rfl rfl fun s _ => ?_
  split
  · exact .refl s
  · refine .ended rfl ?_
    dsimp only
    split <;> rfl

theorem failClosed (db : Db) (preferred : List UUID) (errorCode : String) (now : Time) :
    db.Moves (db.failClosed preferred errorCode now) := by
  unfold Db.failClosed
  refine .trans ?_ (terminateExecution _ _ _ now)
  refine .trans ?_ (stopUnstartedSteps _ now)
  refine mapSteps rfl rfl fun s _ => ?_
  unfold ExecutionStep.failClosed
  split
  · split
    · exact .ended rfl rfl
    · exact .refl s
  · refine .ended rfl ?_
    dsimp only
    split <;> rfl

/-- The Step of a retry is a TOOL. -/
theorem stepMoves_safeRetry {s : ExecutionStep} (htype : s.stepType = .tool)
    (hrunning : s.status = .running) :
    StepMoves s { s with status := .ready, errorCode := none, finishedAt := none } :=
  .engaged rfl ⟨htype, .inr (.inl hrunning)⟩ ⟨htype, .inl rfl⟩

theorem applyFoundation {env : RecoveryEnv} {s : ExecutionStep} {decision : FoundationDecision}
    (hs : s ∈ db.steps) (htype : s.stepType = .tool) (hstatus : s.status = .ready ∨ s.status = .running) :
    db.Moves (McpFlow.applyFoundation env s now db decision).2 := by
  have hended {status : StepStatus} (h : status.isTerminal = true) : StepMoves s { s with
      status := status, errorCode := some workerLeaseExpired, finishedAt := some now } :=
    .ended rfl h
  cases decision with
  | takeoverReady => exact refl db
  | resumeAttempt attempt => exact of_steps_eq rfl rfl
  | safeRetry attempt toolCall =>
    have hmove : StepMoves s { s with status := .ready, errorCode := none, finishedAt := none } :=
      .engaged rfl ⟨htype, hstatus.imp_right .inl⟩ ⟨htype, .inl rfl⟩
    exact of_put hs rfl rfl hmove
  | failExhausted attempt toolCall => exact of_put hs rfl rfl (hended rfl)
  | unknownOutcome attempt toolCall => exact of_put hs rfl rfl (hended rfl)

theorem applyClassification {base : Db} {env : RecoveryEnv} {retry : Bool}
    {x : ExecutionStep × ToolStepClassification} (h : base.Moves db) (hs : x.1 ∈ base.steps)
    (hc : Classified env base x.1 x.2) (htype : ∀ a c, x.2 = .safeRetry a c → x.1.stepType = .tool) :
    base.Moves (McpFlow.applyClassification retry now db x) := by
  obtain ⟨step, cl⟩ := x
  cases cl with
  | ready | resume | fatalUnknown | terminalOk | «local» => exact h
  | safeRetry a c =>
    have hcall := hc.startedCall (.inl rfl)
    unfold McpFlow.applyClassification
    dsimp only
    split
    · have horphan : base.Moves (terminalizeOrphan a c .failed true now db) :=
        h.trans (of_steps_eq rfl rfl)
      exact horphan.overwrite hs (stepMoves_safeRetry (htype a c rfl) hcall.step)
    · exact h
  | failExhausted onError a c =>
    have hended : StepMoves step { step with
        status := .failed, errorCode := some workerLeaseExpired, finishedAt := some now } :=
      .ended rfl rfl
    exact overwrite (h.trans (of_steps_eq rfl rfl)) hs hended

/-- A class with a safe retry belongs to a TOOL. -/
theorem tool_of_safeRetry {env : RecoveryEnv} {s : ExecutionStep} {cl : ToolStepClassification}
    (h : Classified env db s cl) {a : StepAttempt} {c : ToolCall} (hcl : cl = .safeRetry a c) :
    s.stepType = .tool := by
  cases h with
  | unknown | unknownChild | terminal | pending | ready | readyUnknown | runningUnknown | resume =>
    cases hcl
  | control =>
    split at hcl <;> cases hcl
  | call htype => exact htype

theorem foldl_applyClassification {base : Db} {env : RecoveryEnv} {retry : Bool}
    {steps : List (ExecutionStep × ToolStepClassification)} (h : base.Moves db)
    (hsteps : ∀ x ∈ steps, x.1 ∈ base.steps ∧ Classified env base x.1 x.2) :
    base.Moves (steps.foldl (McpFlow.applyClassification retry now) db) := by
  induction steps generalizing db with
  | nil => exact h
  | cons x steps ih =>
    rw [List.forall_mem_cons] at hsteps
    exact ih (applyClassification h hsteps.1.1 hsteps.1.2 fun _ _ => tool_of_safeRetry hsteps.1.2)
      hsteps.2

/-- Resumed Attempts change their worker; the Steps stay. -/
theorem foldl_transferAttempt (env : RecoveryEnv) (leaseExpiresAt : Option Time)
    (steps : List (ExecutionStep × ToolStepClassification)) (db : Db) :
    db.Moves (steps.foldl (transferAttempt env leaseExpiresAt) db) := by
  induction steps generalizing db with
  | nil => exact refl db
  | cons x steps ih =>
    refine .trans ?_ (ih _)
    unfold transferAttempt
    split <;> exact of_steps_eq rfl rfl

theorem recoverClassified {env : RecoveryEnv}
    {steps : List (ExecutionStep × ToolStepClassification)}
    (hsteps : ∀ x ∈ steps, x.1 ∈ db.steps ∧ Classified env db x.1 x.2) :
    db.Moves (McpFlow.recoverClassified env steps now db).2 := by
  unfold McpFlow.recoverClassified
  split
  · exact failClosed db _ _ now
  split
  · have hended : db.Moves (steps.foldl (McpFlow.applyClassification false now) db) :=
      foldl_applyClassification (refl db) hsteps
    exact (hended.trans (stopUnstartedSteps _ now)).trans (terminateExecution _ _ _ now)
  · have hretried : db.Moves (steps.foldl (McpFlow.applyClassification true now) db) :=
      foldl_applyClassification (refl db) hsteps
    refine .trans ?_ (foldl_transferAttempt env _ steps _)
    exact hretried.trans (of_steps_eq rfl rfl)

/-- The single TOOL of a foundation. -/
theorem foundationStep_tool (h : foundationStep db = .ok step) :
    step ∈ db.steps ∧ step.stepType = .tool := by
  unfold foundationStep at h
  split at h
  · next s hrows =>
    simp only [Except.bind_eq_ok_iff, assertThat_eq_ok_iff, exists_const, Bool.and_eq_true,
      beq_iff_eq] at h
    obtain ⟨-, ⟨⟨⟨-, htype⟩, -⟩, -⟩, hs⟩ := h
    cases hs
    exact ⟨by rw [Table.mem_def, hrows]; exact List.mem_singleton_self step, htype⟩
  · cases h

/-- A foundation is decided for a READY or RUNNING TOOL. -/
theorem status_of_decideFoundation {env : RecoveryEnv} {decision : FoundationDecision}
    (h : decideFoundation env db step = .ok decision) :
    step.status = .ready ∨ step.status = .running := by
  unfold decideFoundation at h
  split at h
  · next hready => exact .inl hready
  split at h
  · cases h
  · next hrunning => exact .inr (not_not.mp hrunning)

theorem recovered {env : RecoveryEnv} {outcome : RecoveryOutcome}
    (h : Recovered env now db outcome db') : db.Moves db' := by
  cases h with
  | same => exact refl db
  | cancelled _ h => exact recoverExpiredCancelRequested h
  | foundation _ hstep hdecision =>
    obtain ⟨hs, htype⟩ := foundationStep_tool hstep
    exact (takenOver db env now).trans
      (applyFoundation hs htype (status_of_decideFoundation hdecision))
  | foundationInconsistent => exact (takenOver db env now).trans (failInconsistent _ now)
  | dag _ hsteps =>
    exact recoverClassified (classifiedSteps_of_forall₂ (classifySteps_eq_ok_iff.mp hsteps).2).of_mem
  | dagInconsistent => exact failClosed db _ _ now

/-! #### The orchestrator -/

theorem failClosedPreWavePolicy {worker : String} {token : UUID} {errorCode : String}
    {outcome : ProgressOutcome}
    (h : McpFlow.failClosedPreWavePolicy worker token errorCode now db = .ok (outcome, db')) :
    db.Moves db' := by
  rcases failClosedPreWavePolicy_ok h with rfl | ⟨-, rfl⟩
  · exact refl db'
  · exact failClosedLineage _ now db

theorem naturalEnd {result : ProgressOutcome × Db}
    (h : McpFlow.naturalEnd now db = .ok (some result)) : db.Moves result.2 := by
  obtain ⟨-, decision, -, hresult⟩ := naturalEnd_ok h
  rw [hresult]
  exact terminateExecution db _ _ now

/-- The Step of an approval wait is an APPROVAL. -/
theorem localStop {env : RuntimeEnv} (h : LocalStop env now db db') : db.Moves db' := by
  cases h with
  | stop status errorCode => exact (stopUnstartedSteps db now).trans (terminateExecution _ _ _ now)
  | @enterApproval step _ _ _ hs hpending htype hnone h =>
    obtain ⟨-, -, snapshot, db₁, -, hinsert, rfl⟩ :=
      Approval.enterForApprovalStep_ok (by simp [hpending]) h
    obtain ⟨approvals, -, rfl⟩ := Db.insertApproval_ok hinsert
    have hwaits : StepMoves step
        { step with readyAt := step.readyAt.or (some now), status := .waitingApproval } :=
      .approval rfl htype (.inl rfl)
    exact of_put hs rfl rfl hwaits

theorem of_beat (db : Db) (now : Time) : db.Moves (db.beat now) := of_steps_eq rfl rfl

theorem stopCause (stop : StopCause) (now : Time) (db : Db) :
    db.Moves (applyStopCause stop now db).2 :=
  (stopUnstartedSteps db now).trans (terminateExecution _ _ _ now)

end Db.Moves

/-! ### What a step of the world does to the Steps -/

/-- The settings under which an action runs the local reconcile. -/
def Action.runtimeEnv? : Action → Option RuntimeEnv
  | .worker _ (.prepareWave env _) => some env
  | .worker _ (.settle env _) => some env
  | .worker _ (.finish env _) => some env
  | _ => none

/-- How the rows after a step of the world come from those before it. -/
inductive StepsBy (digest : TemplateDigest) (db : Db) (a : Action) : Db → Prop
  | moves {db' : Db} (h : db.Moves db') : StepsBy digest db a db'
  | claimed {env : RuntimeEnv} {claim : ClaimEnv} {dag : ToolJoinDag} {now : Time}
      (hstatus : db.execution.status = .queued)
      (hdag : claimDag { env with digest := digest } claim db = .ok dag) :
      StepsBy digest db a (applyClaim claim dag now db)
  /-- The local reconcile, and what follows from it. -/
  | reconciled {env : RuntimeEnv} {db₁ db' : Db} (henv : a.runtimeEnv? = some env)
      (hlocal : LocalSteps { env with digest := digest } db db₁) (h : db₁.Moves db') :
      StepsBy digest db a db'
  | reserved {env : RuntimeEnv} {db₁ : Db} {dag : ToolJoinDag} {now : Time} (singleTool : Bool)
      (henv : a.runtimeEnv? = some env) (hwait : waitTarget db = none)
      (hrunning : runningTools db = [])
      (hlocal : LocalSteps { env with digest := digest } db db₁)
      (hdag : validateToolJoinDag digest db₁.execution.planSnapshot db₁.steps.rows = .ok dag) :
      StepsBy digest db a (reserveToolWave dag singleTool now db₁).2

namespace World

variable {digest : TemplateDigest} {w w' : World}

/-- Every step of the world is one of `StepsBy`. -/
theorem stepsBy_of_step (hlive : w.Live)
    (hwaits : ∀ s ∈ w.db.steps, s.status = .waitingInput → s.stepType = .tool) {a : Action}
    (h : w.step digest a = some w') : StepsBy digest w.db a w'.db := by
  have hdb := dbStep_of_step h
  generalize w'.db = db' at hdb
  cases hdb with
  | same => exact .moves (.refl w.db)
  | claim h =>
    rcases claimExecution_ok h with ⟨-, rfl⟩ | ⟨-, hstatus, dag, hdag, rfl⟩
    · exact .moves (.refl w.db)
    · exact .claimed hstatus hdag
  | prepareWave _ _ h =>
    cases preparedWave_of_prepareWave h with
    | same => exact .moves (.refl w.db)
    | reconciled _ h => exact .moves (.reconcileCancelRequested h)
    | running => exact .moves (.of_beat w.db _)
    | corrupt errorCode => exact .moves (.failClosedLineage errorCode _ w.db)
    | stopped _ hlocal hstop => exact .reconciled rfl hlocal (.localStop hstop)
    | corruptAfter errorCode _ hlocal =>
      exact .reconciled rfl hlocal (.failClosedLineage errorCode _ _)
    | reserved singleTool _ hwait hrunning hlocal hdag =>
      exact .reserved singleTool rfl hwait hrunning hlocal hdag
  | failPolicy _ _ h => exact .moves (.failClosedPreWavePolicy h)
  | prepare _ _ _ h => exact .moves (.prepare h)
  | gate hr hstage hmember h =>
    exact .moves (.finalPreSendGate (hlive.callOpen hr hstage hmember rfl) h)
  | finalizeRefused hr hstage hmember h =>
    exact .moves (.finalizeLocked (hlive.callOpen hr hstage hmember rfl) h)
  | finalize hr hstage hmember h =>
    exact .moves (.finalizeLocked (hlive.callOpen hr hstage hmember rfl) h)
  | inputRequired hr hstage hmember h =>
    exact .moves (.finalizeInputRequired (hlive.callOpen hr hstage hmember rfl) h)
  | settle _ _ h =>
    cases settledWave_of_settleWave h with
    | same => exact .moves (.refl w.db)
    | @corrupt e => exact .moves (.failClosedLineage e.code _ w.db)
    | @stopCause stop => exact .moves (.stopCause stop _ w.db)
    | reconciled _ _ _ h => exact .moves (.reconcileCancelRequested h)
    | stopped _ hlocal hstop => exact .reconciled rfl hlocal (.localStop hstop)
    | ended _ hlocal hend => exact .reconciled rfl hlocal (.naturalEnd hend)
    | settled _ hlocal => exact .reconciled rfl hlocal (.of_beat _ _)
  | finish _ _ h =>
    cases finished_of_finalizeNaturalEnd h with
    | same => exact .moves (.refl w.db)
    | corrupt errorCode => exact .moves (.failClosedLineage errorCode _ w.db)
    | stopped _ hlocal hstop => exact .reconciled rfl hlocal (.localStop hstop)
    | ended _ hlocal hend => exact .reconciled rfl hlocal (.naturalEnd hend)
    | unfinished _ hlocal => exact .reconciled rfl hlocal (.refl _)
  | renew _ h => exact .moves (.renewLease h)
  | cancel h => exact .moves (.applyCancellation h)
  | decide h => exact .moves (.decided (Approval.decided_of_decideApproval h))
  | expire requestId now => exact .moves (.expireRequest requestId now w.db)
  | resumeApproval _ h => exact .moves (.resumedApproval (Approval.resumedApproval_of_resumeClaim h))
  | submit h => exact .moves (.submitResponse h)
  | reject h => exact .moves (.rejectInput h)
  | resumeInput _ h => exact .moves (.claimInput hwaits h)
  | recover h => exact .moves (.recovered (recovered_of_recoverExecution h))

end World

/-! ### The rows after a reservation, a claim and a local write -/

section Rows

variable {env : RuntimeEnv} {db db' : Db} {now : Time}

/-- A claim marks its roots READY, and touches no other Step. -/
theorem steps_applyClaim (claim : ClaimEnv) (dag : ToolJoinDag) (now : Time) (db : Db) :
    (applyClaim claim dag now db).steps.rows =
      db.steps.rows.map fun s => if s ∈ claimedRoots dag db then s.markReady now else s := by
  have hroots : ∀ s ∈ claimedRoots dag db, s ∈ db.steps := by
    intro s hs
    obtain ⟨key, -, hkey⟩ := List.mem_filterMap.mp (List.mem_of_mem_take hs)
    exact mem_of_rowByKey hkey
  rw [applyClaim, Db.foldl_putStep]
  exact congrArg Table.rows (Table.foldl_put (f := (·.markReady now)) (fun _ => rfl) db.steps hroots)

/-- A reservation marks its TOOLs READY, and touches no other Step. -/
theorem steps_reserveToolWave (dag : ToolJoinDag) (singleTool : Bool) (now : Time) (db : Db) :
    (reserveToolWave dag singleTool now db).2.steps.rows =
      db.steps.rows.map fun s => if s ∈ promotable dag db then s.promote now else s := by
  change ((promotable dag db).foldl (fun db s => db.putStep (s.promote now)) db).steps.rows = _
  rw [Db.foldl_putStep]
  exact congrArg Table.rows (Table.foldl_put (f := (·.promote now)) (fun _ => rfl) db.steps
    fun s hs => (mem_promotable hs).1)

theorem origin_applyClaim (claim : ClaimEnv) (dag : ToolJoinDag) (now : Time) (db : Db) :
    (applyClaim claim dag now db).execution.origin = db.execution.origin := by
  rw [applyClaim, Db.foldl_putStep]
  rfl

theorem origin_reserveToolWave (dag : ToolJoinDag) (singleTool : Bool) (now : Time) (db : Db) :
    (reserveToolWave dag singleTool now db).2.execution.origin = db.execution.origin := by
  change ((promotable dag db).foldl (fun db s => db.putStep (s.promote now)) db).execution.origin = _
  rw [Db.foldl_putStep]

/-- A row after a local write is old, or PENDING, a RUNNING LOOP, or ended. -/
theorem LocalStep.row (h : LocalStep env db db') {t : ExecutionStep} (ht : t ∈ db'.steps) :
    t ∈ db.steps ∨ t.status = .pending ∨ (t.stepType = .loop ∧ t.status = .running) ∨
      t.status.isTerminal = true := by
  have hput (s' : ExecutionStep) (hs' : s'.status = .pending ∨
        (s'.stepType = .loop ∧ s'.status = .running) ∨ s'.status.isTerminal = true)
      (ht : t ∈ (db.putStep s').steps) : t ∈ db.steps ∨ t.status = .pending ∨
        (t.stepType = .loop ∧ t.status = .running) ∨ t.status.isTerminal = true := by
    rcases Table.mem_put ht with rfl | ⟨ht, -⟩
    · exact .inr hs'
    · exact .inl ht
  have hruns {s s' : ExecutionStep} (h : RunsLoop s s') :
      s'.stepType = .loop ∧ s'.status = .running := ⟨h.same.stepType.trans h.stepType, h.status⟩
  cases h with
  | close _ h => exact hput _ (.inr (.inr h.terminal)) ht
  | @gate s _ hpending =>
    exact hput { s with conditionResult := some true } (.inl hpending) ht
  | startForEach _ _ _ h => exact hput _ (.inr (.inl (hruns h))) ht
  | startWhile _ _ _ h => exact hput _ (.inr (.inl (hruns h))) ht
  | whileGate _ _ _ h => exact hput _ (.inr (.inl (hruns h))) ht
  | materialize _ _ _ _ _ _ _ _ _ _ h =>
    obtain ⟨rows, steps, rfl, hrows, -, hall⟩ := foldlM_materializeBody_ok h
    rw [Table.mem_def, hrows] at ht
    rcases List.mem_append.mp ht with ht | ht
    · exact .inl ht
    · exact .inr (.inl (hall t ht).status)
  | advanceWhile _ _ _ h _ _ _ _ _ _ _ _ _ _ _ hbody =>
    obtain ⟨rows, steps, rfl, hrows, -, hall⟩ := foldlM_materializeBody_ok hbody
    rw [Table.mem_def, hrows] at ht
    rcases List.mem_append.mp ht with ht | ht
    · exact hput _ (.inr (.inl (hruns h))) ht
    · exact .inr (.inl (hall t ht).status)

theorem LocalSteps.row (h : LocalSteps env db db') {t : ExecutionStep} (ht : t ∈ db'.steps) :
    t ∈ db.steps ∨ t.status = .pending ∨ (t.stepType = .loop ∧ t.status = .running) ∨
      t.status.isTerminal = true := by
  induction h with
  | refl => exact .inl ht
  | tail _ hstep ih =>
    rcases hstep.row ht with ht | ht
    · exact ih ht
    · exact .inr ht

end Rows

/-! ### Runs -/

/-- What every run keeps: the calls in flight are those of the lease owner, and only a TOOL waits
for input. -/
structure World.Sound (w : World) : Prop where
  live : w.Live
  inputWaits : ∀ s ∈ w.db.steps, s.status = .waitingInput → s.stepType = .tool

namespace World.Sound

variable {digest : TemplateDigest} {w w' : World}

theorem of_initial (h : w.Initial) : w.Sound where
  live := .of_initial h
  inputWaits s hs hstatus := by
    have hpending := (h.steps s hs).1
    simp only [ExecutionStep.isInitial, hstatus, Bool.and_eq_true] at hpending
    exact absurd hpending.1.1.1.1.1.1 (by decide)

theorem stepsBy {a : Action} (h : w.Sound) (hstep : w.step digest a = some w') :
    StepsBy digest w.db a w'.db :=
  stepsBy_of_step h.live h.inputWaits hstep

/-- Rows that move keep the waits of TOOLs. -/
private theorem inputWaits_of_moves {db db' : Db} (h : db.Moves db')
    (hwaits : ∀ s ∈ db.steps, s.status = .waitingInput → s.stepType = .tool) :
    ∀ s ∈ db'.steps, s.status = .waitingInput → s.stepType = .tool := by
  intro t ht hstatus
  obtain ⟨s, hs, hmoves⟩ := h.steps.exists_of_mem ht
  rcases hmoves.of_waitingInput hstatus with rfl | htool
  · exact hwaits t hs hstatus
  · exact htool

private theorem inputWaits_of_local {env : RuntimeEnv} {db db' : Db} (h : LocalSteps env db db')
    (hwaits : ∀ s ∈ db.steps, s.status = .waitingInput → s.stepType = .tool) :
    ∀ s ∈ db'.steps, s.status = .waitingInput → s.stepType = .tool := by
  intro t ht hstatus
  rcases h.row ht with hold | hpending | ⟨-, hrunning⟩ | hterminal
  · exact hwaits t hold hstatus
  · rw [hstatus] at hpending
    cases hpending
  · rw [hstatus] at hrunning
    cases hrunning
  · rw [hstatus] at hterminal
    cases hterminal

private theorem inputWaits_of_map {db db' : Db} {l : List ExecutionStep}
    {f : ExecutionStep → ExecutionStep} (hf : ∀ s, (f s).status = .ready)
    (hrows : db'.steps.rows = db.steps.rows.map fun s => if s ∈ l then f s else s)
    (hwaits : ∀ s ∈ db.steps, s.status = .waitingInput → s.stepType = .tool) :
    ∀ s ∈ db'.steps, s.status = .waitingInput → s.stepType = .tool := by
  intro t ht hstatus
  rw [Table.mem_def, hrows] at ht
  obtain ⟨s, hs, rfl⟩ := List.mem_map.mp ht
  split at hstatus
  · rw [hf s] at hstatus
    cases hstatus
  · next hmem =>
    rw [if_neg hmem]
    exact hwaits s hs hstatus

theorem step {a : Action} (h : w.Sound) (hstep : w.step digest a = some w') : w'.Sound := by
  refine ⟨h.live.step hstep, ?_⟩
  have hby := h.stepsBy hstep
  generalize w'.db = db' at hby
  cases hby with
  | moves hmoves => exact inputWaits_of_moves hmoves h.inputWaits
  | claimed _ _ =>
    exact inputWaits_of_map (fun _ => rfl) (steps_applyClaim ..) h.inputWaits
  | reconciled _ hlocal hmoves =>
    exact inputWaits_of_moves hmoves (inputWaits_of_local hlocal h.inputWaits)
  | reserved singleTool _ _ _ hlocal _ =>
    exact inputWaits_of_map (fun _ => rfl) (steps_reserveToolWave ..)
      (inputWaits_of_local hlocal h.inputWaits)

theorem run {as : List Action} (h : w.Sound)
    (hrun : Runs.run (World.step digest) w as = some w') : w'.Sound :=
  Runs.run_invariant (fun _ _ _ hsound hstep => hsound.step hstep) h hrun

end World.Sound

end McpFlow
