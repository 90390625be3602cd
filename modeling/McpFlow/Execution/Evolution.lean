import McpFlow.Execution.ToolRunner
import McpFlow.Library.Lists

/-!
# How rows change in place

Most transactions insert no row. `Db.Evolves` says what they may do to the rows there are: keys,
owners and round numbers stay, a SUCCEEDED call and an ANSWERED request stay as they are, nothing
becomes STARTED again, and no request becomes OPEN. It is reflexive and transitive, and each
primitive write has it.
-/

namespace McpFlow

/-- An Attempt keeps its key and owner and does not start again. -/
structure AttemptEvolves (a a' : StepAttempt) : Prop where
  id : a'.id = a.id
  stepExecutionId : a'.stepExecutionId = a.stepExecutionId
  started : a'.status = .started → a.status = .started

/-- A ToolCall keeps its key, owner and MRTR request, and does not leave SUCCEEDED. -/
structure ToolCallEvolves (c c' : ToolCall) : Prop where
  id : c'.id = c.id
  stepAttemptId : c'.stepAttemptId = c.stepAttemptId
  mrtrInputRequestId : c'.mrtrInputRequestId = c.mrtrInputRequestId
  succeeded : c.normalizedStatus = .succeeded → c'.normalizedStatus = .succeeded
  started : c'.normalizedStatus = .started → c.normalizedStatus = .started

/-- A request keeps its key, owners, round and state. An answer needs an OPEN request, carries a
payload and is final. -/
structure InputRequestEvolves (r r' : McpInputRequest) : Prop where
  id : r'.id = r.id
  executionId : r'.executionId = r.executionId
  stepExecutionId : r'.stepExecutionId = r.stepExecutionId
  stepAttemptId : r'.stepAttemptId = r.stepAttemptId
  requestState : r'.requestState = r.requestState
  roundNo : r'.roundNo = r.roundNo
  answered : r.status = .answered → r' = r
  answer : r'.status = .answered →
    r.status = .answered ∨ (r.status = .open ∧ r'.responsePayload.getD [] ≠ [])
  isOpen : r'.status = .open → r.status = .open

theorem AttemptEvolves.refl (a : StepAttempt) : AttemptEvolves a a := ⟨rfl, rfl, fun h => h⟩

theorem AttemptEvolves.trans {a b c : StepAttempt} (hab : AttemptEvolves a b)
    (hbc : AttemptEvolves b c) : AttemptEvolves a c :=
  ⟨hbc.id.trans hab.id, hbc.stepExecutionId.trans hab.stepExecutionId, hab.started ∘ hbc.started⟩

theorem ToolCallEvolves.refl (c : ToolCall) : ToolCallEvolves c c :=
  ⟨rfl, rfl, rfl, fun h => h, fun h => h⟩

theorem ToolCallEvolves.trans {a b c : ToolCall} (hab : ToolCallEvolves a b)
    (hbc : ToolCallEvolves b c) : ToolCallEvolves a c :=
  ⟨hbc.id.trans hab.id, hbc.stepAttemptId.trans hab.stepAttemptId,
    hbc.mrtrInputRequestId.trans hab.mrtrInputRequestId, hbc.succeeded ∘ hab.succeeded,
    hab.started ∘ hbc.started⟩

theorem InputRequestEvolves.refl (r : McpInputRequest) : InputRequestEvolves r r :=
  ⟨rfl, rfl, rfl, rfl, rfl, rfl, fun _ => rfl, .inl, fun h => h⟩

theorem InputRequestEvolves.trans {a b c : McpInputRequest} (hab : InputRequestEvolves a b)
    (hbc : InputRequestEvolves b c) : InputRequestEvolves a c where
  id := hbc.id.trans hab.id
  executionId := hbc.executionId.trans hab.executionId
  stepExecutionId := hbc.stepExecutionId.trans hab.stepExecutionId
  stepAttemptId := hbc.stepAttemptId.trans hab.stepAttemptId
  requestState := hbc.requestState.trans hab.requestState
  roundNo := hbc.roundNo.trans hab.roundNo
  answered h := by
    have hb : b = a := hab.answered h
    subst hb
    exact hbc.answered h
  answer h := by
    rcases hbc.answer h with hb | ⟨hb, hpayload⟩
    · rcases hab.answer hb with ha | ⟨ha, hpayload⟩
      · exact .inl ha
      · rw [hbc.answered hb]
        exact .inr ⟨ha, hpayload⟩
    · exact .inr ⟨hab.isOpen hb, hpayload⟩
  isOpen := hab.isOpen ∘ hbc.isOpen

/-- A table whose rows are rewritten one by one. -/
def Table.Rewrites {ρ κ : Type} {key : ρ → κ} (rel : ρ → ρ → Prop) (t t' : Table key) : Prop :=
  ∃ f : ρ → ρ, t'.rows = t.rows.map f ∧ ∀ r ∈ t, rel r (f r)

namespace Table.Rewrites

variable {ρ κ : Type} {key : ρ → κ} {rel : ρ → ρ → Prop} {t t' t'' : Table key}

theorem refl (hrefl : ∀ r, rel r r) (t : Table key) : Table.Rewrites rel t t :=
  ⟨id, (List.map_id _).symm, fun r _ => hrefl r⟩

theorem trans (htrans : ∀ {a b c}, rel a b → rel b c → rel a c) (h : Table.Rewrites rel t t')
    (h' : Table.Rewrites rel t' t'') : Table.Rewrites rel t t'' := by
  obtain ⟨f, hf, hrel⟩ := h
  obtain ⟨g, hg, hrel'⟩ := h'
  refine ⟨g ∘ f, by rw [hg, hf, List.map_map], fun r hr => htrans (hrel r hr) (hrel' (f r) ?_)⟩
  rw [Table.mem_def, hf]
  exact List.mem_map_of_mem hr

/-- Each row comes from one that it is related to. -/
theorem exists_of_mem (h : Table.Rewrites rel t t') {r' : ρ} (hr' : r' ∈ t') :
    ∃ r ∈ t, rel r r' := by
  obtain ⟨f, hf, hrel⟩ := h
  rw [Table.mem_def, hf] at hr'
  obtain ⟨r, hr, rfl⟩ := List.mem_map.mp hr'
  exact ⟨r, hr, hrel r hr⟩

/-- Each row becomes one that it is related to. -/
theorem exists_mem (h : Table.Rewrites rel t t') {r : ρ} (hr : r ∈ t) : ∃ r' ∈ t', rel r r' := by
  obtain ⟨f, hf, hrel⟩ := h
  refine ⟨f r, ?_, hrel r hr⟩
  rw [Table.mem_def, hf]
  exact List.mem_map_of_mem hr

theorem of_mapRows {f : ρ → ρ} {hf : ∀ r, key (f r) = key r} (h : ∀ r ∈ t, rel r (f r)) :
    Table.Rewrites rel t (t.mapRows f hf) :=
  ⟨f, rfl, h⟩

theorem of_put [DecidableEq κ] (hrefl : ∀ r, rel r r) {r r' : ρ} (hr : r ∈ t)
    (hkey : key r' = key r) (h : rel r r') : Table.Rewrites rel t (t.put r') := by
  refine ⟨_, Table.rows_put t r', fun s hs => ?_⟩
  by_cases hk : key s = key r'
  · rw [if_pos hk, Table.eq_of_key_eq hs hr (hk.trans hkey)]
    exact h
  · rw [if_neg hk]
    exact hrefl s

end Table.Rewrites

/-- A Step keeps its key. -/
def StepEvolves (s s' : ExecutionStep) : Prop := s'.id = s.id

theorem StepEvolves.refl (s : ExecutionStep) : StepEvolves s s := rfl

theorem StepEvolves.trans {a b c : ExecutionStep} (hab : StepEvolves a b) (hbc : StepEvolves b c) :
    StepEvolves a c :=
  Eq.trans hbc hab

/-- The rows change in place. -/
structure Db.Evolves (db db' : Db) : Prop where
  executionId : db'.execution.id = db.execution.id
  steps : Table.Rewrites StepEvolves db.steps db'.steps
  attempts : Table.Rewrites AttemptEvolves db.attempts db'.attempts
  toolCalls : Table.Rewrites ToolCallEvolves db.toolCalls db'.toolCalls
  inputRequests : Table.Rewrites InputRequestEvolves db.inputRequests db'.inputRequests

namespace Db.Evolves

variable {db db' db'' : Db}

theorem refl (db : Db) : db.Evolves db :=
  ⟨rfl, .refl StepEvolves.refl _, .refl AttemptEvolves.refl _, .refl ToolCallEvolves.refl _,
    .refl InputRequestEvolves.refl _⟩

theorem trans (h : db.Evolves db') (h' : db'.Evolves db'') : db.Evolves db'' :=
  ⟨h'.executionId.trans h.executionId, .trans StepEvolves.trans h.steps h'.steps,
    .trans AttemptEvolves.trans h.attempts h'.attempts,
    .trans ToolCallEvolves.trans h.toolCalls h'.toolCalls,
    .trans InputRequestEvolves.trans h.inputRequests h'.inputRequests⟩

theorem putExecution (db : Db) {e : Execution} (h : e.id = db.execution.id) :
    db.Evolves (db.putExecution e) :=
  { refl db with executionId := h }

theorem putStep {s s' : ExecutionStep} (hs : s ∈ db.steps) (hid : s'.id = s.id) :
    db.Evolves (db.putStep s') :=
  { refl db with steps := .of_put StepEvolves.refl hs hid hid }

theorem putAttempt {a a' : StepAttempt} (ha : a ∈ db.attempts) (h : AttemptEvolves a a') :
    db.Evolves (db.putAttempt a') :=
  { refl db with attempts := .of_put AttemptEvolves.refl ha h.id h }

theorem putToolCall {c c' : ToolCall} (hc : c ∈ db.toolCalls) (h : ToolCallEvolves c c') :
    db.Evolves (db.putToolCall c') :=
  { refl db with toolCalls := .of_put ToolCallEvolves.refl hc h.id h }

theorem putInputRequest {r r' : McpInputRequest} (hr : r ∈ db.inputRequests)
    (h : InputRequestEvolves r r') : db.Evolves (db.putInputRequest r') :=
  { refl db with inputRequests := .of_put InputRequestEvolves.refl hr h.id h }

end Db.Evolves

/-! ### The primitive changes of the engine -/

theorem AttemptEvolves.cancel (a : StepAttempt) (now : Time) : AttemptEvolves a (a.cancel now) :=
  ⟨a.id_cancel now, a.stepExecutionId_cancel now, fun h => absurd h (a.status_cancel_ne now)⟩

theorem InputRequestEvolves.rejectOpen (r : McpInputRequest) (now : Time)
    (answeredBy : Option UUID) : InputRequestEvolves r (r.rejectOpen now answeredBy) := by
  by_cases hr : r.status = .open
  · unfold McpInputRequest.rejectOpen
    rw [if_pos hr]
    exact ⟨rfl, rfl, rfl, rfl, rfl, rfl, fun h => by simp [hr] at h, fun h => by simp at h,
      fun h => by simp at h⟩
  · rw [McpInputRequest.rejectOpen_of_ne hr]
    exact .refl r

namespace Db.Evolves

theorem cancelOpenWork (db : Db) (now : Time) (answeredBy : Option UUID) (preserve : List UUID) :
    db.Evolves (db.cancelOpenWork now answeredBy preserve) := by
  refine ⟨rfl, ?_, ?_, .refl ToolCallEvolves.refl _, ?_⟩
  · rw [steps_cancelOpenWork]
    refine .of_mapRows fun s _ => ?_
    split
    · exact .refl s
    · exact s.id_cancel now
  · rw [attempts_cancelOpenWork]
    refine .of_mapRows fun a _ => ?_
    split
    · exact .cancel a now
    · exact .refl a
  · rw [inputRequests_cancelOpenWork]
    exact .of_mapRows fun r _ => .rejectOpen r now answeredBy

theorem ensureCancelRequested (db : Db) (now : Time) : db.Evolves (db.ensureCancelRequested now) := by
  unfold Db.ensureCancelRequested
  split
  · exact .refl db
  · exact .putExecution db rfl

theorem applyOrDeferExecutionFatal (errorCode : Option String) (now : Time) (defer : Bool)
    (db : Db) : db.Evolves (McpFlow.applyOrDeferExecutionFatal errorCode now defer db) := by
  unfold McpFlow.applyOrDeferExecutionFatal
  split <;> exact .putExecution db rfl

theorem failRunningExecution (errorCode : String) (now : Time) (defer : Bool) (db : Db) :
    db.Evolves (McpFlow.failRunningExecution errorCode now defer db) := by
  unfold McpFlow.failRunningExecution
  split
  · exact applyOrDeferExecutionFatal _ now defer db
  · exact .refl db

theorem failNonterminalStep {db : Db} {step : ExecutionStep} (hs : step ∈ db.steps)
    (errorCode : String) (now : Time) :
    db.Evolves (McpFlow.failNonterminalStep step errorCode now db) := by
  unfold McpFlow.failNonterminalStep
  split
  · exact .refl db
  · exact .putStep hs rfl

theorem reconcileCancelRequested {db db' : Db} {now : Time} {outcome : CancellationOutcome}
    (h : McpFlow.reconcileCancelRequested now db = .ok (outcome, db')) : db.Evolves db' := by
  unfold McpFlow.reconcileCancelRequested at h
  split at h
  · cases h
    exact .refl db
  split at h
  · cases h
  split at h
  · cases h
    exact .refl db
  dsimp only at h
  split at h <;>
  · cases h
    exact (cancelOpenWork db now _ []).trans (.putExecution _ rfl)

theorem applyCancellation {db db' : Db} {now : Time} {requestedBy : Option UUID}
    {outcome : CancellationOutcome}
    (h : McpFlow.applyCancellation now requestedBy db = .ok (outcome, db')) : db.Evolves db' := by
  have hmarked : db.Evolves (db.putExecution
      (db.execution.setCancelMetadataOnce now requestedBy)) := by
    refine .putExecution db ?_
    unfold Execution.setCancelMetadataOnce
    split <;> rfl
  unfold McpFlow.applyCancellation at h
  split at h
  · cases h
    exact .refl db
  split at h
  · cases h
  dsimp only at h
  split at h
  · cases h
    exact hmarked.trans ((cancelOpenWork _ now requestedBy []).trans (.putExecution _ rfl))
  · cases h
    exact hmarked.trans ((cancelOpenWork _ now requestedBy _).trans (.putExecution _ rfl))

/-- Rows of one call, rewritten together. -/
theorem putCallRows {db : Db} {step step' : ExecutionStep} {attempt attempt' : StepAttempt}
    {toolCall toolCall' : ToolCall} (hs : step ∈ db.steps) (ha : attempt ∈ db.attempts)
    (hc : toolCall ∈ db.toolCalls) (hstep : step'.id = step.id)
    (hattempt : AttemptEvolves attempt attempt') (hcall : ToolCallEvolves toolCall toolCall') :
    db.Evolves (((db.putToolCall toolCall').putAttempt attempt').putStep step') := by
  have ha' : attempt ∈ (db.putToolCall toolCall').attempts := ha
  have hs' : step ∈ ((db.putToolCall toolCall').putAttempt attempt').steps := hs
  exact ((Evolves.putToolCall hc hcall).trans (putAttempt ha' hattempt)).trans (putStep hs' hstep)

theorem applyTerminalTransition {db : Db} {step : ExecutionStep} {attempt : StepAttempt}
    {toolCall : ToolCall} (hs : step ∈ db.steps) (ha : attempt ∈ db.attempts)
    (hc : toolCall ∈ db.toolCalls) (hstarted : toolCall.normalizedStatus = .started)
    (callEnd : CallEnd) (risk : RiskClass) (now : Time) (defer : Bool)
    (hterminal : callEnd.terminal risk ≠ .started) :
    db.Evolves (McpFlow.applyTerminalTransition step attempt toolCall callEnd risk now defer db) := by
  have hcall : ToolCallEvolves toolCall
      { toolCall with normalizedStatus := callEnd.terminal risk, finishedAt := some now } :=
    ⟨rfl, rfl, rfl, fun h => by simp [hstarted] at h, fun h => absurd h hterminal⟩
  have hattempt (code : Option String) (retryable : Option Bool) (result : Option Json.Value) :
      AttemptEvolves attempt
        { attempt with
          status := callEnd.terminal risk
          errorCode := code
          isRetryable := retryable
          resultInline := result
          finishedAt := some now } :=
    ⟨rfl, rfl, fun h => absurd h hterminal⟩
  unfold McpFlow.applyTerminalTransition
  dsimp only
  split
  · exact (putCallRows hs ha hc (by rfl) (hattempt _ _ _) hcall).trans
      (applyOrDeferExecutionFatal _ now defer _)
  · exact (putCallRows hs ha hc (by rfl) (hattempt _ _ _) hcall).trans (.putExecution _ rfl)

end Db.Evolves

/-- No end of a call leaves its rows STARTED. -/
theorem CallEnd.terminal_ne_started (callEnd : CallEnd) (risk : RiskClass) :
    callEnd.terminal risk ≠ .started := by
  cases callEnd with
  | error e =>
    rw [terminal]
    split
    · simp
    · exact classifyMcpFailure_ne_started e risk
  | result r => cases r <;> simp [terminal]

end McpFlow
