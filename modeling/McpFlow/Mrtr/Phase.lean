import McpFlow.Mrtr.Resume
import McpFlow.Mrtr.Response
import McpFlow.Mrtr.Rounds

/-!
# The phases of an Execution that waits for input

What holds of the rows while the Execution is in flight and while it waits, beyond `Static`. The
transactions of the runner, of users and of the resume claim keep both. Once the Execution has
ended, no request is OPEN and nothing else is needed.
-/

namespace McpFlow.Mrtr

/-- No request is OPEN. -/
def NoOpen (db : Db) : Prop := ∀ r ∈ db.inputRequests, r.status ≠ .open

/-- The rows while the Execution is RUNNING or CANCEL_REQUESTED. -/
structure Running (db : Db) : Prop where
  noOpen : NoOpen db
  call : ∀ c ∈ db.toolCalls, c.normalizedStatus = .started →
    ∃ a ∈ db.attempts, a.id = c.stepAttemptId ∧ a.status = .started
  /-- The STARTED Attempt has only answered requests, and without a call in flight no more calls
  than requests. -/
  attempt : ∀ a ∈ db.attempts, a.status = .started →
    (∀ r ∈ requestsOf db a.id, r.status = .answered) ∧
      ((∀ c ∈ db.listToolCalls a.id, c.normalizedStatus ≠ .started) →
        (db.listToolCalls a.id).length = (requestsOf db a.id).length)
  ready : ∀ s ∈ db.steps, s.status = .ready → ∀ a ∈ db.attempts, a.status ≠ .started

/-- The rows while the Execution is WAITING_INPUT. -/
structure Waiting (db : Db) : Prop where
  lease : db.execution.leaseCleared = true
  step : ∀ s ∈ db.steps, s.status = .waitingInput
  call : ∀ c ∈ db.toolCalls, c.normalizedStatus ≠ .started
  /-- The STARTED Attempt is in the round of its last request, OPEN or ANSWERED. -/
  attempt : ∃ a ∈ db.attempts, a.status = .started ∧
    (db.listToolCalls a.id).length = (requestsOf db a.id).length ∧
    ∃ rs r, requestsOf db a.id = rs ++ [r] ∧ (∀ q ∈ rs, q.status = .answered) ∧
      (r.status = .open ∨ r.status = .answered) ∧
      ∀ q ∈ db.inputRequests, q.status = .open → q = r

/-- The Execution is in flight. -/
def InFlight (db : Db) : Prop :=
  db.execution.status = .running ∨ db.execution.status = .cancelRequested

/-- What holds in each phase. -/
structure Phase (db : Db) : Prop where
  inFlight : InFlight db → Running db
  waiting : db.execution.status = .waitingInput → Waiting db
  noOpen : db.execution.status ≠ .waitingInput → NoOpen db

theorem NoOpen.evolves {db db' : Db} (h : NoOpen db) (hev : db.Evolves db') : NoOpen db' := by
  intro r' hr' hopen
  obtain ⟨r, hr, hrel⟩ := hev.inputRequests.exists_of_mem hr'
  exact h r hr (hrel.isOpen hopen)

theorem Phase.of_running {db : Db} (hflight : InFlight db) (h : Running db) : Phase db where
  inFlight _ := h
  waiting hw := by rcases hflight with hs | hs <;> simp [hs] at hw
  noOpen _ := h.noOpen

theorem Phase.of_ended {db : Db} (hflight : ¬ InFlight db)
    (hwait : db.execution.status ≠ .waitingInput) (h : NoOpen db) : Phase db :=
  ⟨fun hf => absurd hf hflight, fun hw => absurd hw hwait, fun _ => h⟩

/-- A failed or cancelled Execution has ended. -/
theorem Phase.of_failed {db : Db}
    (hstatus : db.execution.status = .failed ∨ db.execution.status = .cancelled) (h : NoOpen db) :
    Phase db := by
  refine .of_ended ?_ ?_ h
  · rintro (hs | hs) <;> rcases hstatus with ht | ht <;> simp [ht] at hs
  · rcases hstatus with ht | ht <;> simp [ht]

theorem Phase.running_of_owned {db : Db} (h : Phase db) {worker : String} {token : UUID}
    {now : Time} (howned : db.execution.ownedInFlight worker token now = true) : Running db :=
  h.inFlight (Execution.ownedInFlight_iff.mp howned).1

/-- The phase of an Execution row whose status is kept; a wait keeps its cleared lease. -/
theorem Phase.putExecution {db : Db} (h : Phase db) {e : Execution}
    (hstatus : e.status = db.execution.status)
    (hlease : e.status = .waitingInput → e.leaseCleared = true) : Phase (db.putExecution e) where
  inFlight hf := by
    have hr : Running db := h.inFlight (by rwa [InFlight, ← hstatus])
    exact ⟨hr.noOpen, hr.call, hr.attempt, hr.ready⟩
  waiting hw := by
    have hwait : Waiting db := h.waiting (hstatus ▸ hw)
    exact ⟨hlease hw, hwait.step, hwait.call, hwait.attempt⟩
  noOpen hne := h.noOpen (hstatus ▸ hne)

/-- The rows do not depend on the Execution row. -/
theorem Running.putExecution {db : Db} (h : Running db) (e : Execution) :
    Running (db.putExecution e) :=
  ⟨h.noOpen, h.call, h.attempt, h.ready⟩

/-- A Step row that is not READY changes nothing. -/
theorem Running.putStep {db : Db} (h : Running db) {s : ExecutionStep}
    (hs : s.status = .ready → ∀ a ∈ db.attempts, a.status ≠ .started) :
    Running (db.putStep s) :=
  ⟨h.noOpen, h.call, h.attempt, Table.forall_mem_put hs fun s' hs' _ => h.ready s' hs'⟩

/-- Without a STARTED Attempt or call the rows are those of a running Execution. -/
theorem Running.of_idle {db : Db} (hopen : NoOpen db)
    (hcalls : ∀ c ∈ db.toolCalls, c.normalizedStatus ≠ .started)
    (hattempts : ∀ a ∈ db.attempts, a.status ≠ .started) : Running db where
  noOpen := hopen
  call c hc hs := absurd hs (hcalls c hc)
  attempt a ha hs := absurd hs (hattempts a ha)
  ready _ _ _ := hattempts

/-- The phase of such rows outside a wait. -/
theorem Phase.of_idle {db : Db} (hwait : db.execution.status ≠ .waitingInput) (hopen : NoOpen db)
    (hcalls : ∀ c ∈ db.toolCalls, c.normalizedStatus ≠ .started)
    (hattempts : ∀ a ∈ db.attempts, a.status ≠ .started) : Phase db :=
  ⟨fun _ => .of_idle hopen hcalls hattempts, fun hw => absurd hw hwait, fun _ => hopen⟩

section Settle

variable {stepId : UUID} {db db' : Db} {a : StepAttempt} {c : ToolCall}

/-- The Attempt of a STARTED call is STARTED. -/
theorem Running.started_of_call (h : Running db) (ha : a ∈ db.attempts) (hc : c ∈ db.toolCalls)
    (hac : c.stepAttemptId = a.id) (hstarted : c.normalizedStatus = .started) :
    a.status = .started := by
  obtain ⟨b, hb, hid, hbs⟩ := h.call c hc hstarted
  rwa [Table.eq_of_key_eq ha hb (hac.symm.trans hid.symm)]

/-- At most one call is STARTED. -/
theorem Running.call_unique (hs : Static stepId db) (h : Running db) (hc : c ∈ db.toolCalls)
    (hstarted : c.normalizedStatus = .started) {d : ToolCall} (hd : d ∈ db.toolCalls)
    (hdstarted : d.normalizedStatus = .started) : d = c := by
  obtain ⟨a, ha, haid, has⟩ := h.call c hc hstarted
  obtain ⟨b, hb, hbid, hbs⟩ := h.call d hd hdstarted
  obtain rfl := hs.oneStarted a ha b hb has hbs
  have hrounds := hs.rounds a ha
  obtain ⟨-, hcs⟩ := hrounds.eq_append_of_not_succeeded
    (mem_listToolCalls.mpr ⟨hc, haid.symm⟩) (by simp [hstarted])
  obtain ⟨-, hds⟩ := hrounds.eq_append_of_not_succeeded
    (mem_listToolCalls.mpr ⟨hd, hbid.symm⟩) (by simp [hdstarted])
  have hlast := hds.symm.trans hcs
  simpa using hlast

/-- When the call in flight and its Attempt are settled, nothing is STARTED. -/
theorem Running.settled (hs : Static stepId db) (h : Running db) (ha : a ∈ db.attempts)
    (hc : c ∈ db.toolCalls) (hac : c.stepAttemptId = a.id) (hstarted : c.normalizedStatus = .started)
    (hev : db.Evolves db')
    (hattempt : ∀ a' ∈ db'.attempts, a'.id = a.id → a'.status ≠ .started)
    (hcall : ∀ c' ∈ db'.toolCalls, c'.id = c.id → c'.normalizedStatus ≠ .started) :
    (∀ c' ∈ db'.toolCalls, c'.normalizedStatus ≠ .started) ∧
      ∀ a' ∈ db'.attempts, a'.status ≠ .started := by
  have has := h.started_of_call ha hc hac hstarted
  constructor
  · intro c' hc' hcs'
    obtain ⟨d, hd, hrel⟩ := hev.toolCalls.exists_of_mem hc'
    have hdc := h.call_unique hs hc hstarted hd (hrel.started hcs')
    exact hcall c' hc' (hrel.id.trans (by rw [hdc])) hcs'
  · intro a' ha' has'
    obtain ⟨b, hb, hrel⟩ := hev.attempts.exists_of_mem ha'
    have hba := hs.oneStarted b hb a ha (hrel.started has') has
    exact hattempt a' ha' (hrel.id.trans (by rw [hba])) has'

end Settle

/-! ### Cancellation -/

variable {stepId : UUID} {db db' : Db} {now : Time}

/-- No request is OPEN after the clean-up of a cancellation. -/
theorem noOpen_cancelOpenWork (db : Db) (now : Time) (answeredBy : Option UUID)
    (preserve : List UUID) : NoOpen (db.cancelOpenWork now answeredBy preserve) :=
  fun _ hr => db.cancelOpenWork_inputRequests now answeredBy preserve hr

theorem Phase.reconcileCancelRequested (hp : Phase db) {outcome : CancellationOutcome}
    (h : McpFlow.reconcileCancelRequested now db = .ok (outcome, db')) : Phase db' := by
  obtain ⟨-, ⟨rfl, -⟩ | ⟨-, -, e, rfl, hstatus, -⟩⟩ := reconcileCancelRequested_ok h
  · exact hp
  · exact .of_failed hstatus.symm (noOpen_cancelOpenWork db now _ [])

/-- The clean-up keeps the Attempt of a call in flight. -/
theorem Running.cancelOpenWork (hs : Static stepId db) (h : Running db) (answeredBy : Option UUID)
    (preserve : List UUID) (hcall : db.listStartedToolCalls ≠ []) :
    Running (db.cancelOpenWork now answeredBy preserve) := by
  have hev := Db.Evolves.cancelOpenWork db now answeredBy preserve
  obtain ⟨c, hc⟩ := List.exists_mem_of_ne_nil _ hcall
  simp only [Db.listStartedToolCalls, List.mem_filter, decide_eq_true_eq] at hc
  obtain ⟨hc, hstarted⟩ := hc
  obtain ⟨a, ha, haid, has⟩ := h.call c hc hstarted
  have hinflight : db.attemptHasStartedToolCall a.id = true := by
    simp only [Db.attemptHasStartedToolCall, List.any_eq_true, decide_eq_true_eq]
    exact ⟨c, hc, haid.symm, hstarted⟩
  have hkept : a ∈ (db.cancelOpenWork now answeredBy preserve).attempts := by
    rw [Db.attempts_cancelOpenWork]
    refine Table.mem_mapRows.mpr ⟨a, ha, if_neg ?_⟩
    simp [Db.cleanupCancelsAttempt, hinflight]
  refine ⟨noOpen_cancelOpenWork db now answeredBy preserve, ?_, ?_, ?_⟩
  · intro d hd hds
    exact ⟨a, hkept, by rw [haid, h.call_unique hs hc hstarted hd hds], has⟩
  · intro b' hb' hbs
    obtain ⟨b, hb, hrel⟩ := hev.attempts.exists_of_mem hb'
    obtain ⟨hans, hlen⟩ := h.attempt b hb (hrel.started hbs)
    obtain ⟨g, hg, hreqs⟩ := requestsOf_of_evolves hev
    rw [hrel.id, length_requestsOf_of_evolves hev]
    refine ⟨?_, hlen⟩
    intro r' hr'
    rw [hreqs] at hr'
    obtain ⟨r, hr, rfl⟩ := List.mem_map.mp hr'
    rw [(hg r (mem_requestsOf.mp hr).1).answered (hans r hr)]
    exact hans r hr
  · intro s' hs' hready
    rw [Db.steps_cancelOpenWork] at hs'
    obtain ⟨s, hs0, rfl⟩ := Table.mem_mapRows.mp hs'
    exfalso
    split at hready
    · exact h.ready s hs0 hready a ha has
    · have := s.isTerminal_cancel now
      rw [hready] at this
      cases this

theorem Phase.applyCancellation (hs : Static stepId db) (hp : Phase db)
    {requestedBy : Option UUID} {outcome : CancellationOutcome}
    (h : McpFlow.applyCancellation now requestedBy db = .ok (outcome, db')) : Phase db' := by
  unfold McpFlow.applyCancellation at h
  split at h
  · cases h
    exact hp
  split at h
  · cases h
  next hnonterminal =>
  dsimp only at h
  split at h
  · cases h
    exact .of_failed (.inr rfl) (noOpen_cancelOpenWork _ now requestedBy [])
  · next hcalls =>
    cases h
    simp only [not_or] at hcalls
    have hrunning : InFlight db := by
      cases hstatus : db.execution.status <;> simp [hstatus, ExecutionStatus.cancelsImmediately,
        ExecutionStatus.isTerminal, InFlight] at hcalls hnonterminal ⊢
    have hmarked : Static stepId
        (db.putExecution (db.execution.setCancelMetadataOnce now requestedBy)) := by
      refine hs.evolves (.putExecution db ?_)
      unfold Execution.setCancelMetadataOnce
      split <;> rfl
    exact .of_running (.inr rfl)
      ((((hp.inFlight hrunning).putExecution _).cancelOpenWork hmarked requestedBy _ hcalls.2).putExecution
        _)

/-! ### Failing the Execution -/

/-- A fatal error outside a parallel wave fails the Execution. -/
theorem status_applyOrDeferExecutionFatal (errorCode : Option String) (db : Db) :
    (applyOrDeferExecutionFatal errorCode now false db).execution.status = .failed := rfl

/-- A caught error of Phase A fails the Step and a RUNNING Execution. -/
theorem Phase.prepareFatal (h : Running db) (hflight : InFlight db) {step : ExecutionStep}
    (hstep : step ∈ db.steps) (errorCode : String) {result : PrepareResult}
    (hfatal : (result, db') = McpFlow.prepareFatal step errorCode now false db) :
    Phase db' ∧ db.Evolves db' := by
  obtain ⟨-, rfl⟩ := Prod.mk.inj hfatal
  have hev := Db.Evolves.failNonterminalStep hstep errorCode now
  have hrunning : Running (failNonterminalStep step errorCode now db) := by
    unfold failNonterminalStep
    split
    · exact h
    · exact h.putStep fun hready => by simp at hready
  have hexec : (failNonterminalStep step errorCode now db).execution = db.execution := by
    unfold failNonterminalStep
    split <;> rfl
  refine ⟨?_, hev.trans (.failRunningExecution errorCode now false _)⟩
  unfold failRunningExecution
  split
  · exact .of_failed (.inl rfl) hrunning.noOpen
  · exact .of_running (by rwa [InFlight, hexec]) hrunning

end McpFlow.Mrtr
