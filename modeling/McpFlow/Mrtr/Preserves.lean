import McpFlow.Mrtr.Phase

/-!
# What every transaction keeps

`Preserves` collects what a transaction of the runner, of a user or of the cancellation keeps:
`Static`, `Phase`, the answered requests, the identity of every ToolCall, and the lease token
unless it is cleared; `Keeps` leaves the token out, since a resume gives a new one. `ids` are the calls that were sent; only one of them becomes SUCCEEDED.
-/

namespace McpFlow.Mrtr

/-- While the Execution waits, the Attempt of the request is past its round. -/
def Spent (db : Db) (r : McpInputRequest) : Prop :=
  db.execution.status = .waitingInput → ∀ a ∈ db.attempts, a.id = r.stepAttemptId →
    a.status = .started → r.roundNo < (db.listToolCalls a.id).length

/-- The rows after a transaction, whoever owns the lease then. -/
structure Keeps (stepId : UUID) (ids : List UUID) (db db' : Db) : Prop where
  static : Static stepId db'
  phase : Phase db'
  answered : ∀ r ∈ db.inputRequests, r.status = .answered → r ∈ db'.inputRequests
  calls : ∀ c ∈ db.toolCalls, ∃ c' ∈ db'.toolCalls, c'.id = c.id ∧
    c'.stepAttemptId = c.stepAttemptId ∧ c'.mrtrInputRequestId = c.mrtrInputRequestId
  succeeded : ∀ c' ∈ db'.toolCalls, c'.normalizedStatus = .succeeded →
    c'.id ∈ ids ∨ ∃ c ∈ db.toolCalls, c.id = c'.id ∧ c.normalizedStatus = .succeeded
  spent : ∀ r ∈ db.inputRequests, r.status = .answered → Spent db r → Spent db' r

/-- The facts about two states of the rows that the session's invariant needs. -/
structure Preserves (stepId : UUID) (ids : List UUID) (db db' : Db) : Prop
    extends Keeps stepId ids db db' where
  token : db'.execution.leaseToken = db.execution.leaseToken ∨
    db'.execution.leaseToken = none

namespace Preserves

variable {stepId : UUID} {ids : List UUID} {db db' db'' : Db}

theorem refl (hs : Static stepId db) (hp : Phase db) : Preserves stepId ids db db where
  static := hs
  phase := hp
  answered _ hr _ := hr
  calls c hc := ⟨c, hc, rfl, rfl, rfl⟩
  succeeded c hc hsucc := .inr ⟨c, hc, rfl, hsucc⟩
  token := .inl rfl
  spent _ _ _ h := h

theorem trans (h : Preserves stepId ids db db') (h' : Preserves stepId ids db' db'') :
    Preserves stepId ids db db'' where
  static := h'.static
  phase := h'.phase
  answered r hr hans := h'.answered r (h.answered r hr hans) hans
  calls c hc := by
    obtain ⟨d, hd, hid, hattempt, hrequest⟩ := h.calls c hc
    obtain ⟨e, he, hid', hattempt', hrequest'⟩ := h'.calls d hd
    exact ⟨e, he, hid'.trans hid, hattempt'.trans hattempt, hrequest'.trans hrequest⟩
  succeeded e he hsucc := by
    rcases h'.succeeded e he hsucc with hmem | ⟨d, hd, hid, hdsucc⟩
    · exact .inl hmem
    rcases h.succeeded d hd hdsucc with hmem | ⟨c, hc, hid', hcsucc⟩
    · exact .inl (hid ▸ hmem)
    · exact .inr ⟨c, hc, hid'.trans hid, hcsucc⟩
  token := by
    rcases h'.token with ht' | ht'
    · rw [ht']
      exact h.token
    · exact .inr ht'
  spent r hr hans hspent :=
    h'.spent r (h.answered r hr hans) hans (h.spent r hr hans hspent)

/-- An in-place change keeps the answered requests. -/
theorem answered_of_evolves (hev : db.Evolves db') :
    ∀ r ∈ db.inputRequests, r.status = .answered → r ∈ db'.inputRequests := by
  intro r hr hans
  obtain ⟨r', hr', hrel⟩ := hev.inputRequests.exists_mem hr
  rwa [hrel.answered hans] at hr'

/-- An in-place change that opens no wait. -/
theorem of_evolves (hs : Static stepId db) (hev : db.Evolves db') (hphase : Phase db')
    (hsucceeded : ∀ c' ∈ db'.toolCalls, c'.normalizedStatus = .succeeded →
      c'.id ∈ ids ∨ ∃ c ∈ db.toolCalls, c.id = c'.id ∧ c.normalizedStatus = .succeeded)
    (htoken : db'.execution.leaseToken = db.execution.leaseToken ∨
      db'.execution.leaseToken = none)
    (hwait : db'.execution.status = .waitingInput → db.execution.status = .waitingInput) :
    Preserves stepId ids db db' where
  static := hs.evolves hev
  phase := hphase
  answered := answered_of_evolves hev
  calls c hc := by
    obtain ⟨c', hc', hrel⟩ := hev.toolCalls.exists_mem hc
    exact ⟨c', hc', hrel.id, hrel.stepAttemptId, hrel.mrtrInputRequestId⟩
  succeeded := hsucceeded
  token := htoken
  spent r hr hans hspent hw' a' ha' hid hstarted := by
    obtain ⟨a, ha, hrel⟩ := hev.attempts.exists_of_mem ha'
    rw [hrel.id, length_listToolCalls_of_evolves hev]
    exact hspent (hwait hw') a ha (hrel.id.symm.trans hid) (hrel.started hstarted)

/-- Without a write to a ToolCall none becomes SUCCEEDED. -/
theorem succeeded_of_eq (h : db'.toolCalls = db.toolCalls) :
    ∀ c' ∈ db'.toolCalls, c'.normalizedStatus = .succeeded →
      c'.id ∈ ids ∨ ∃ c ∈ db.toolCalls, c.id = c'.id ∧ c.normalizedStatus = .succeeded := by
  intro c hc hsucc
  rw [h] at hc
  exact .inr ⟨c, hc, rfl, hsucc⟩

/-- A write to one ToolCall makes at most that one SUCCEEDED. -/
theorem succeeded_of_put {c : ToolCall} (h : db'.toolCalls = db.toolCalls.put c)
    (hc : c.normalizedStatus = .succeeded → c.id ∈ ids) :
    ∀ c' ∈ db'.toolCalls, c'.normalizedStatus = .succeeded →
      c'.id ∈ ids ∨ ∃ d ∈ db.toolCalls, d.id = c'.id ∧ d.normalizedStatus = .succeeded := by
  rw [h]
  refine Table.forall_mem_put (fun hsucc => .inl (hc hsucc)) fun d hd _ hsucc => ?_
  exact .inr ⟨d, hd, rfl, hsucc⟩

/-- The rows of the call in flight are settled, and no wait is opened. -/
theorem settle (hs : Static stepId db) (hr : Running db) {a : StepAttempt} {c : ToolCall}
    (ha : a ∈ db.attempts) (hc : c ∈ db.toolCalls) (hac : c.stepAttemptId = a.id)
    (hstarted : c.normalizedStatus = .started) (hev : db.Evolves db')
    (hattempt : ∀ a' ∈ db'.attempts, a'.id = a.id → a'.status ≠ .started)
    (hcall : ∀ c' ∈ db'.toolCalls, c'.id = c.id → c'.normalizedStatus ≠ .started)
    (hsucceeded : ∀ c' ∈ db'.toolCalls, c'.normalizedStatus = .succeeded →
      c'.id ∈ ids ∨ ∃ d ∈ db.toolCalls, d.id = c'.id ∧ d.normalizedStatus = .succeeded)
    (htoken : db'.execution.leaseToken = db.execution.leaseToken ∨
      db'.execution.leaseToken = none)
    (hwait : db'.execution.status ≠ .waitingInput) : Preserves stepId ids db db' := by
  obtain ⟨hcalls, hattempts⟩ := hr.settled hs ha hc hac hstarted hev hattempt hcall
  exact .of_evolves hs hev (.of_idle hwait (hr.noOpen.evolves hev) hcalls hattempts) hsucceeded
    htoken fun hw => absurd hw hwait

/-- A terminal transition settles the call; outside a parallel wave a fatal one fails the
Execution. -/
theorem applyTerminalTransition (hs : Static stepId db) (hr : Running db) (hflight : InFlight db)
    {step : ExecutionStep} {a : StepAttempt} {c : ToolCall} (hstep : step ∈ db.steps)
    (ha : a ∈ db.attempts) (hc : c ∈ db.toolCalls) (hac : c.stepAttemptId = a.id)
    (hstarted : c.normalizedStatus = .started) (callEnd : CallEnd) (risk : RiskClass) (now : Time)
    (hids : callEnd.terminal risk = .succeeded → c.id ∈ ids) :
    Preserves stepId ids db
      (McpFlow.applyTerminalTransition step a c callEnd risk now false db) := by
  have hne := callEnd.terminal_ne_started risk
  have hev := Db.Evolves.applyTerminalTransition hstep ha hc hstarted callEnd risk now false hne
  have hwait : db.execution.status ≠ .waitingInput := by
    rcases hflight with h | h <;> simp [h]
  refine .settle hs hr ha hc hac hstarted hev ?_ ?_ ?_ ?_ ?_
  · rw [attempts_applyTerminalTransition]
    exact Table.forall_mem_put (fun _ => hne) fun b _ hb hid => absurd hid hb
  · rw [toolCalls_applyTerminalTransition]
    exact Table.forall_mem_put (fun _ => hne) fun d _ hd hid => absurd hid hd
  · exact succeeded_of_put (toolCalls_applyTerminalTransition ..) hids
  · unfold McpFlow.applyTerminalTransition
    dsimp only
    split
    · exact .inr rfl
    · exact .inl rfl
  · unfold McpFlow.applyTerminalTransition
    dsimp only
    split
    · simp [applyOrDeferExecutionFatal]
    · exact hwait

/-- A write to the Execution row that keeps status and token. -/
theorem putExecution (hs : Static stepId db) (hp : Phase db) {e : Execution}
    (hid : e.id = db.execution.id) (hstatus : e.status = db.execution.status)
    (htoken : e.leaseToken = db.execution.leaseToken)
    (hwait : db.execution.status ≠ .waitingInput) :
    Preserves stepId ids db (db.putExecution e) :=
  .of_evolves hs (.putExecution db hid)
    (hp.putExecution hstatus fun hw => absurd (hstatus.symm.trans hw) hwait)
    (succeeded_of_eq rfl) (.inl htoken) fun hw => hstatus.symm.trans hw

/-- A reconcile keeps its rows, or ends a CANCEL_REQUESTED Execution. -/
theorem reconcileCancelRequested (hs : Static stepId db) (hp : Phase db) {now : Time}
    {outcome : CancellationOutcome}
    (h : McpFlow.reconcileCancelRequested now db = .ok (outcome, db')) :
    Preserves stepId ids db db' := by
  have hphase := hp.reconcileCancelRequested h
  have hev := Db.Evolves.reconcileCancelRequested h
  obtain ⟨-, ⟨rfl, -⟩ | ⟨-, -, e, rfl, hstatus, hlease⟩⟩ := reconcileCancelRequested_ok h
  · exact .refl hs hp
  · refine .of_evolves hs hev hphase (succeeded_of_eq rfl) (.inr ?_) fun hw => ?_
    · exact Execution.leaseToken_of_leaseCleared hlease
    · rcases hstatus with he | he <;> simp [he] at hw

end Preserves

end McpFlow.Mrtr
