import McpFlow.Execution.RecoveryEvidence

/-!
# Recovery and UNKNOWN_OUTCOME evidence

A recovery respects UNKNOWN_OUTCOME evidence exactly when it does not take over an Execution whose
only such rows are ones it does not look at, and closes no Attempt that was UNKNOWN_OUTCOME before.
-/

namespace McpFlow

/-- The Execution is recovered as a single TOOL. -/
def RecoveryEnv.RecoversFoundation (env : RecoveryEnv) (db : Db) : Prop :=
  db.execution.sourceType = .agentRequest ∨
    db.execution.isAgentScheduleOccurrence env.agentRequestPinned = true

/-- The decision invokes the runner. -/
def FoundationDecision.resumes : FoundationDecision → Bool
  | .takeoverReady | .resumeAttempt _ | .safeRetry _ _ => true
  | .failExhausted _ _ | .unknownOutcome _ _ => false

section Condition

variable (env : RecoveryEnv) (db : Db)

/-- The rows of an Execution that a recovery takes over. -/
inductive TakesOver : Prop where
  | foundation {s : ExecutionStep} {d : FoundationDecision} (hf : env.RecoversFoundation db)
      (hs : foundationStep db = .ok s) (hd : FoundationDecided env db s d)
      (hr : d.resumes = true) : TakesOver
  | dag (hf : ¬env.RecoversFoundation db) (hchecked : DagChecked env db)
      (hsteps : ∀ s ∈ db.steps, ∃ c, Classified env db s c ∧ c ≠ .fatalUnknown ∧
        c.stopsExecution = false) : TakesOver

/-- The rows of an Execution that a recovery fails closed, by the error code it writes. -/
inductive ClosesWith : String → Prop where
  | foundation (hf : env.RecoversFoundation db)
      (hn : ∀ s d, foundationStep db = .ok s → ¬FoundationDecided env db s d) :
      ClosesWith recoveryInconsistentEvidence
  | inconsistent (hf : ¬env.RecoversFoundation db)
      (hn : DagChecked env db → ∃ s ∈ db.steps, ∀ c, ¬Classified env db s c) :
      ClosesWith recoveryInconsistentEvidence
  | unknown (hf : ¬env.RecoversFoundation db) (hchecked : DagChecked env db)
      (hall : ∀ s ∈ db.steps, ∃ c, Classified env db s c)
      (hu : ∃ s ∈ db.steps, Classified env db s .fatalUnknown) : ClosesWith workerLeaseExpired

/-- The UNKNOWN_OUTCOME rows that no recovery looks at: under a Step that is no TOOL, an Attempt of a
READY or RUNNING TOOL, and a call of an Attempt that is not the STARTED one of a RUNNING TOOL or of
the READY single TOOL. -/
inductive HiddenUnknown : Prop where
  | control {s : ExecutionStep} {a : StepAttempt} (hs : s ∈ db.steps)
      (ha : a ∈ db.listAttempts s.id) (htype : s.stepType ≠ .tool)
      (hu : a.status = .unknownOutcome ∨ db.attemptHasUnknownToolCall a.id = true) : HiddenUnknown
  | ready {s : ExecutionStep} {a : StepAttempt} (hs : s ∈ db.steps)
      (ha : a ∈ db.listAttempts s.id) (hstatus : s.status = .ready)
      (hu : a.status = .unknownOutcome ∨
        env.RecoversFoundation db ∧ db.attemptHasUnknownToolCall a.id = true) : HiddenUnknown
  | running {s : ExecutionStep} {a : StepAttempt} (hs : s ∈ db.steps)
      (ha : a ∈ db.listAttempts s.id) (hstatus : s.status = .running)
      (hu : a.status = .unknownOutcome ∨
        a.status ≠ .started ∧ db.attemptHasUnknownToolCall a.id = true) : HiddenUnknown

/-- The Attempt already stands as the recovery closes it. -/
structure ClosedAs (code : String) (a : StepAttempt) : Prop where
  errorCode : a.errorCode = some code
  isRetryable : a.isRetryable = some false
  finishedAt : a.finishedAt.isSome = true
  lease : ¬env.RecoversFoundation db → a.workerId = none ∧ a.leaseExpiresAt = none

/-- A recovery of these rows misses no UNKNOWN_OUTCOME evidence and rewrites none. -/
structure SeesUnknown : Prop where
  takeover : TakesOver env db → ¬HiddenUnknown env db
  closing : ∀ code, ClosesWith env db code → ∀ a ∈ db.attempts, a.status = .unknownOutcome →
    db.attemptHasStartedToolCall a.id = true → ClosedAs env db code a

end Condition

/-! ### What a recovery keeps -/

section Keeps

variable {base db : Db}

theorem Db.KeepsUnknown.refl (db : Db) : db.KeepsUnknown db :=
  ⟨fun _ h _ => h, fun _ h _ => h, fun _ h _ => h⟩

theorem Db.KeepsUnknown.putExecution (h : base.KeepsUnknown db) (e : Execution) :
    base.KeepsUnknown (db.putExecution e) :=
  ⟨h.steps, h.attempts, h.toolCalls⟩

/-- A row written over one that was not UNKNOWN_OUTCOME replaces no UNKNOWN_OUTCOME row. -/
theorem Db.KeepsUnknown.putStep (h : base.KeepsUnknown db) {s t : ExecutionStep} (ht : t ∈ base.steps)
    (hstatus : t.status ≠ .unknownOutcome) (hid : s.id = t.id) : base.KeepsUnknown (db.putStep s) where
  steps r hr hu := Table.mem_put_of_ne (h.steps r hr hu) fun hk =>
    hstatus (Table.eq_of_key_eq hr ht (hk.trans hid) ▸ hu)
  attempts := h.attempts
  toolCalls := h.toolCalls

theorem Db.KeepsUnknown.putAttempt (h : base.KeepsUnknown db) {a b : StepAttempt}
    (hb : b ∈ base.attempts) (hstatus : b.status ≠ .unknownOutcome) (hid : a.id = b.id) :
    base.KeepsUnknown (db.putAttempt a) where
  steps := h.steps
  attempts r hr hu := Table.mem_put_of_ne (h.attempts r hr hu) fun hk =>
    hstatus (Table.eq_of_key_eq hr hb (hk.trans hid) ▸ hu)
  toolCalls := h.toolCalls

theorem Db.KeepsUnknown.putToolCall (h : base.KeepsUnknown db) {c d : ToolCall}
    (hd : d ∈ base.toolCalls) (hstatus : d.normalizedStatus ≠ .unknownOutcome) (hid : c.id = d.id) :
    base.KeepsUnknown (db.putToolCall c) where
  steps := h.steps
  attempts := h.attempts
  toolCalls r hr hu := Table.mem_put_of_ne (h.toolCalls r hr hu) fun hk =>
    hstatus (Table.eq_of_key_eq hr hd (hk.trans hid) ▸ hu)

theorem Db.KeepsUnknown.stopUnstartedSteps (h : base.KeepsUnknown db) (now : Time) :
    base.KeepsUnknown (db.stopUnstartedSteps now) where
  steps s hs hu := by
    have hskip : s.skipIfPending now = s := by
      rw [ExecutionStep.skipIfPending, hu, if_neg nofun]
    have hcancel : s.cancelIfUnusedReady now = s := by
      rw [ExecutionStep.cancelIfUnusedReady, ExecutionStep.isUnusedReadyTool, hu]
      simp
    exact List.mem_map.mpr ⟨s, List.mem_map.mpr ⟨s, h.steps s hs hu, hskip⟩, hcancel⟩
  attempts := h.attempts
  toolCalls := h.toolCalls

theorem ToolCall.markUnknown_of_unknown {c : ToolCall} (h : c.normalizedStatus = .unknownOutcome)
    (now : Time) : c.markUnknown now = c := by
  rw [markUnknown, h, if_neg nofun]

theorem ExecutionStep.failClosed_of_unknown {s : ExecutionStep} (h : s.status = .unknownOutcome)
    (unknown : Bool) (code : String) (now : Time) : s.failClosed unknown code now = s := by
  have hterminal : s.status.isTerminal = true := by
    rw [h]
    rfl
  rw [failClosed, if_pos hterminal, if_neg fun hne => hne.1 h]

/-- `_fail_closed` keeps the UNKNOWN_OUTCOME rows when it rewrites no UNKNOWN_OUTCOME Attempt. -/
theorem keepsUnknown_failClosed_iff {preferred : List UUID} {code : String} {now : Time} :
    db.KeepsUnknown (db.failClosed preferred code now) ↔
      ∀ a ∈ db.attempts, a.status = .unknownOutcome → db.attemptHasStartedToolCall a.id = true →
        a.failClosedUnknown code now = a := by
  have hattempts : ∀ a ∈ db.attempts, (a ∈ (db.failClosed preferred code now).attempts ↔
      (if db.attemptHasStartedToolCall a.id then a.failClosedUnknown code now else a) = a) :=
    fun a ha => Table.mem_mapRows_self_iff (fun a => by split <;> rfl) ha
  constructor
  · intro h a ha hu hstarted
    have hkept := (hattempts a ha).mp (h.attempts a ha hu)
    rwa [if_pos hstarted] at hkept
  · intro h
    have hended : db.KeepsUnknown { db.upgradeStartedToolCalls code now with
        steps := (db.upgradeStartedToolCalls code now).steps.mapRows
          (fun s => s.failClosed (preferred.contains s.id ||
            (db.upgradeStartedToolCalls code now).stepHasUnknownChild s.id) code now)
          fun s => by simp } := by
      refine ⟨fun s hs hu => ?_, fun a ha hu => ?_, fun c hc hu => ?_⟩
      · exact List.mem_map.mpr ⟨s, hs, ExecutionStep.failClosed_of_unknown hu _ _ _⟩
      · refine List.mem_map.mpr ⟨a, ha, ?_⟩
        split
        next hstarted => exact h a ha hu hstarted
        next => rfl
      · exact List.mem_map.mpr ⟨c, hc, ToolCall.markUnknown_of_unknown hu now⟩
    exact (hended.stopUnstartedSteps now).putExecution _

theorem Db.failStartedOf_of_unknown {a : StepAttempt} (h : a.status = .unknownOutcome) (now : Time) :
    db.failStartedOf now a = a := by
  rw [Db.failStartedOf, if_neg]
  intro hany
  obtain ⟨s, -, hs⟩ := List.any_eq_true.mp hany
  have hlast := beq_iff_eq.mp (Bool.and_eq_true_iff.mp hs).2
  have hstarted := (List.mem_filter.mp (List.mem_of_getLast? hlast)).2
  rw [h] at hstarted
  cases hstarted

/-- The row of an Attempt with a call in flight that `_fail_inconsistent` closes. -/
def StepAttempt.failInconsistent (a : StepAttempt) (now : Time) : StepAttempt :=
  { a with
    status := .unknownOutcome
    errorCode := some recoveryInconsistentEvidence
    isRetryable := some false
    finishedAt := a.finishedAt.or (some now) }

/-- `_fail_inconsistent` keeps the UNKNOWN_OUTCOME rows when it rewrites no UNKNOWN_OUTCOME Attempt. -/
theorem keepsUnknown_failInconsistent_iff {e : Execution} {now : Time} :
    db.KeepsUnknown ((db.putExecution e).failInconsistent now) ↔
      ∀ a ∈ db.attempts, a.status = .unknownOutcome → db.attemptHasStartedToolCall a.id = true →
        a.failInconsistent now = a := by
  have hattempts : ∀ a ∈ db.attempts, a.status = .unknownOutcome →
      (a ∈ ((db.putExecution e).failInconsistent now).attempts ↔
        (db.attemptHasStartedToolCall a.id = true → a.failInconsistent now = a)) := by
    intro a ha hu
    refine (Table.mem_mapRows_self_iff (fun a => ?_) ha).trans ?_
    · split
      · rfl
      · split <;> simp
    · change (if db.attemptHasStartedToolCall a.id = true then a.failInconsistent now else
        if _ then a else (db.putExecution e).failStartedOf now a) = a ↔ _
      rw [Db.failStartedOf_of_unknown hu, ite_self]
      split
      next hstarted => exact ⟨fun h _ => h, fun h => h hstarted⟩
      next hstarted => exact iff_of_true rfl fun h => absurd h hstarted
  constructor
  · exact fun h a ha hu => (hattempts a ha hu).mp (h.attempts a ha hu)
  · refine fun h => ⟨fun s hs hu => ?_, fun a ha hu => (hattempts a ha hu).mpr (h a ha hu),
      fun c hc hu => ?_⟩
    · refine List.mem_map.mpr ⟨s, hs, if_pos ?_⟩
      rw [hu]
      rfl
    · exact List.mem_map.mpr ⟨c, hc, ToolCall.markUnknown_of_unknown hu now⟩

variable {env : RecoveryEnv} {a : StepAttempt}

theorem failClosedUnknown_eq_iff (hf : ¬env.RecoversFoundation db) (hu : a.status = .unknownOutcome)
    (code : String) (now : Time) : a.failClosedUnknown code now = a ↔ ClosedAs env db code a := by
  constructor
  · intro h
    rw [StepAttempt.failClosedUnknown] at h
    refine ⟨?_, ?_, ?_, fun _ => ⟨?_, ?_⟩⟩
    · rw [← h]
    · rw [← h]
    · rw [← h]
      cases a.finishedAt <;> rfl
    · rw [← h]
    · rw [← h]
  · rintro ⟨hcode, hretry, hfinished, hlease⟩
    obtain ⟨hworker, hexpires⟩ := hlease hf
    obtain ⟨t, ht⟩ := Option.isSome_iff_exists.mp hfinished
    obtain ⟨⟩ := a
    simp_all [StepAttempt.failClosedUnknown]

theorem failInconsistent_eq_iff (hf : env.RecoversFoundation db) (hu : a.status = .unknownOutcome)
    (now : Time) :
    a.failInconsistent now = a ↔ ClosedAs env db recoveryInconsistentEvidence a := by
  constructor
  · intro h
    rw [StepAttempt.failInconsistent] at h
    refine ⟨?_, ?_, ?_, fun hn => absurd hf hn⟩
    · rw [← h]
    · rw [← h]
    · rw [← h]
      cases a.finishedAt <;> rfl
  · rintro ⟨hcode, hretry, hfinished, -⟩
    obtain ⟨t, ht⟩ := Option.isSome_iff_exists.mp hfinished
    obtain ⟨⟩ := a
    simp_all [StepAttempt.failInconsistent]

end Keeps

/-! ### Evidence that is looked at -/

section Visible

variable {env : RecoveryEnv} {db : Db} {s : ExecutionStep} {a : StepAttempt}

theorem Classified.unique {c d : ToolStepClassification} (hc : Classified env db s c)
    (hd : Classified env db s d) : c = d :=
  Except.ok.inj ((classifyStep_eq_ok_iff.mpr hc).symm.trans (classifyStep_eq_ok_iff.mpr hd))

theorem FoundationDecided.unique {c d : FoundationDecision} (hc : FoundationDecided env db s c)
    (hd : FoundationDecided env db s d) : c = d :=
  Except.ok.inj ((decideFoundation_eq_ok_iff.mpr hc).symm.trans (decideFoundation_eq_ok_iff.mpr hd))

theorem Db.OnlyStarted.eq {b : StepAttempt} (h : db.OnlyStarted s b) (ha : a ∈ db.listAttempts s.id)
    (hstarted : a.status = .started) : a = b := by
  have hmem : a ∈ (db.listAttempts s.id).filter (·.status = .started) :=
    List.mem_filter.mpr ⟨ha, decide_eq_true hstarted⟩
  rw [h] at hmem
  exact List.mem_singleton.mp hmem

theorem attemptHasUnknownToolCall_of_nil (h : db.listToolCalls a.id = []) :
    db.attemptHasUnknownToolCall a.id = false := by
  rw [← db.any_listToolCalls_unknown, h]
  rfl

theorem stepHasUnknownChild_of_attempt (ha : a ∈ db.listAttempts s.id)
    (hu : a.status = .unknownOutcome ∨ db.attemptHasUnknownToolCall a.id = true) :
    db.stepHasUnknownChild s.id = true := by
  refine List.any_eq_true.mpr ⟨a, ha, ?_⟩
  rw [db.any_listToolCalls_unknown, Bool.or_eq_true, beq_iff_eq]
  exact hu

/-- The evidence under a Step that is not fatal is hidden. -/
theorem hidden_of_classified {c : ToolStepClassification} (hs : s ∈ db.steps)
    (hc : Classified env db s c) (hne : c ≠ .fatalUnknown) (ha : a ∈ db.listAttempts s.id)
    (hu : a.status = .unknownOutcome ∨ db.attemptHasUnknownToolCall a.id = true) :
    HiddenUnknown env db := by
  have hchild := stepHasUnknownChild_of_attempt ha hu
  cases hc with
  | unknown | unknownChild | readyUnknown | runningUnknown => exact absurd rfl hne
  | control htype => exact .control hs ha htype hu
  | terminal _ _ _ h =>
    rw [hchild] at h
    cases h
  | pending _ _ h =>
    rw [hchild] at h
    cases h
  | ready _ hstatus _ _ hcalls =>
    refine .ready hs ha hstatus (.inl (hu.resolve_right ?_))
    rw [(hcalls a ha).2]
    exact Bool.false_ne_true
  | resume _ hstatus _ hb hcalls =>
    refine .running hs ha hstatus (hu.imp_right fun hcall => ⟨fun hstarted => ?_, hcall⟩)
    rw [hb.eq ha hstarted, attemptHasUnknownToolCall_of_nil hcalls] at hcall
    cases hcall
  | call _ hstatus _ hb hnone =>
    refine .running hs ha hstatus (hu.imp_right fun hcall => ⟨fun hstarted => ?_, hcall⟩)
    rw [hb.eq ha hstarted, hnone] at hcall
    cases hcall

theorem Db.ForeignKeys.step_of_attempt (hkeys : db.ForeignKeys) (ha : a ∈ db.attempts) :
    ∃ s ∈ db.steps, a ∈ db.listAttempts s.id := by
  obtain ⟨s, hs, hid⟩ := hkeys.attempts a ha
  exact ⟨s, hs, List.mem_filter.mpr ⟨ha, decide_eq_true hid.symm⟩⟩

/-- UNKNOWN_OUTCOME evidence is a Step, or an Attempt with its calls. -/
theorem Db.ForeignKeys.hasUnknown (hkeys : db.ForeignKeys) (h : db.HasUnknown) :
    (∃ s ∈ db.steps, s.status = .unknownOutcome) ∨ ∃ s ∈ db.steps, ∃ a ∈ db.listAttempts s.id,
      a.status = .unknownOutcome ∨ db.attemptHasUnknownToolCall a.id = true := by
  rcases h with hstep | ⟨a, ha, hu⟩ | ⟨c, hc, hu⟩
  · exact .inl hstep
  · obtain ⟨s, hs, hmem⟩ := hkeys.step_of_attempt ha
    exact .inr ⟨s, hs, a, hmem, .inl hu⟩
  · obtain ⟨a, ha, hid⟩ := hkeys.toolCalls c hc
    obtain ⟨s, hs, hmem⟩ := hkeys.step_of_attempt ha
    exact .inr ⟨s, hs, a, hmem, .inr (List.any_eq_true.mpr ⟨c, hc, decide_eq_true ⟨hid.symm, hu⟩⟩)⟩

theorem HiddenUnknown.hasUnknown (h : HiddenUnknown env db) : db.HasUnknown := by
  have hattempt : ∀ {s : ExecutionStep} {a : StepAttempt}, a ∈ db.listAttempts s.id →
      a.status = .unknownOutcome ∨ db.attemptHasUnknownToolCall a.id = true → db.HasUnknown := by
    rintro s a ha (hu | hu)
    · exact .inr (.inl ⟨a, (List.mem_filter.mp ha).1, hu⟩)
    · obtain ⟨c, hc, hcall⟩ := List.any_eq_true.mp hu
      exact .inr (.inr ⟨c, hc, (of_decide_eq_true hcall).2⟩)
  cases h with
  | control _ ha _ hu => exact hattempt ha hu
  | ready _ ha _ hu => exact hattempt ha (hu.imp_right And.right)
  | running _ ha _ hu => exact hattempt ha (hu.imp_right And.right)

end Visible

/-! ### The recovery of a DAG -/

section Dag

variable {env : RecoveryEnv} {db : Db} {steps : List (ExecutionStep × ToolStepClassification)}

/-- The Steps with their classes. -/
structure ClassifiedSteps (env : RecoveryEnv) (db : Db)
    (steps : List (ExecutionStep × ToolStepClassification)) : Prop where
  of_mem : ∀ p ∈ steps, p.1 ∈ db.steps ∧ Classified env db p.1 p.2
  exists_mem : ∀ s ∈ db.steps, ∃ p ∈ steps, p.1 = s ∧ Classified env db s p.2

theorem classifiedSteps_of_forall₂
    (h : List.Forall₂ (fun s p => p.1 = s ∧ Classified env db s p.2) (stepsByKey db) steps) :
    ClassifiedSteps env db steps where
  of_mem p hp := by
    obtain ⟨s, hs, rfl, hc⟩ := List.exists_left_of_forall₂ h hp
    exact ⟨mem_stepsByKey.mp hs, hc⟩
  exists_mem s hs := List.exists_right_of_forall₂ h (mem_stepsByKey.mpr hs)

theorem exists_classifySteps (hchecked : DagChecked env db)
    (hall : ∀ s ∈ db.steps, ∃ c, Classified env db s c) : ∃ steps, classifySteps env db = .ok steps := by
  have hpairs : ∀ s ∈ stepsByKey db, ∃ p, (do
      let classification ← classifyStep env db s
      return (s, classification)) = Except.ok (ε := AppError) p := by
    intro s hs
    obtain ⟨c, hc⟩ := hall s (mem_stepsByKey.mp hs)
    exact ⟨(s, c), classifyStep_pair_eq_ok_iff.mpr ⟨rfl, hc⟩⟩
  obtain ⟨steps, hsteps⟩ := List.exists_mapM_eq_ok_iff.mpr hpairs
  exact ⟨steps, classifySteps_eq_ok_iff.mpr ⟨hchecked, (List.forall₂_of_mapM_eq_ok hsteps).imp
    fun _ _ => classifyStep_pair_eq_ok_iff.mp⟩⟩

theorem fatalSteps_ne_nil_iff (h : ClassifiedSteps env db steps) :
    fatalSteps steps ≠ [] ↔ ∃ s ∈ db.steps, Classified env db s .fatalUnknown := by
  rw [fatalSteps, ne_eq, List.map_eq_nil_iff, List.filter_eq_nil_iff]
  simp only [not_forall, not_not, decide_eq_true_eq, exists_prop]
  constructor
  · rintro ⟨p, hp, hfatal⟩
    obtain ⟨hs, hc⟩ := h.of_mem p hp
    exact ⟨p.1, hs, hfatal ▸ hc⟩
  · rintro ⟨s, hs, hfatal⟩
    obtain ⟨p, hp, -, hc⟩ := h.exists_mem s hs
    exact ⟨p, hp, hc.unique hfatal⟩

/-- A RUNNING Step with its call in flight. -/
structure StartedCall (db : Db) (s : ExecutionStep) (a : StepAttempt) (c : ToolCall) : Prop where
  step : s.status = .running
  attempt : a ∈ db.attempts ∧ a.status = .started
  toolCall : c ∈ db.toolCalls ∧ c.normalizedStatus = .started

theorem Db.OnlyStarted.mem {s : ExecutionStep} {a : StepAttempt} (h : db.OnlyStarted s a) :
    a ∈ db.attempts ∧ a.status = .started := by
  have hmem : a ∈ (db.listAttempts s.id).filter (·.status = .started) := h ▸ List.mem_singleton_self a
  obtain ⟨ha, hstarted⟩ := List.mem_filter.mp hmem
  exact ⟨(List.mem_filter.mp ha).1, of_decide_eq_true hstarted⟩

/-- A class with a call comes from the call in flight of a RUNNING Step. -/
theorem Classified.startedCall {s : ExecutionStep} {cl : ToolStepClassification}
    (h : Classified env db s cl) {a : StepAttempt} {c : ToolCall}
    (hcl : cl = .safeRetry a c ∨ ∃ onError, cl = .failExhausted onError a c) :
    StartedCall db s a c := by
  cases h with
  | unknown | unknownChild | terminal | pending | ready | readyUnknown | runningUnknown | resume =>
    simp at hcl
  | control =>
    split at hcl <;> simp at hcl
  | @call _ _ _ b d _ hs _ hb _ hd _ =>
    have hmem : d ∈ (db.listToolCalls b.id).filter (·.normalizedStatus = .started) :=
      hd ▸ List.mem_singleton_self d
    obtain ⟨hcall, hstarted⟩ := List.mem_filter.mp hmem
    have heq : b = a ∧ d = c := by
      unfold startedCallClass at hcl
      split at hcl
      · simp at hcl
      · split at hcl
        · simpa using hcl
        · simpa using hcl
    obtain ⟨rfl, rfl⟩ := heq
    exact ⟨hs, hb.mem, (List.mem_filter.mp hcall).1, of_decide_eq_true hstarted⟩

/-- Ending an orphaned call replaces no UNKNOWN_OUTCOME row. -/
theorem Db.KeepsUnknown.terminalizeOrphan {cur : Db} (hkeep : db.KeepsUnknown cur) {a : StepAttempt}
    {c : ToolCall} (ha : a ∈ db.attempts ∧ a.status = .started)
    (hc : c ∈ db.toolCalls ∧ c.normalizedStatus = .started) (terminal : StepAttemptStatus)
    (isRetryable : Bool) (now : Time) :
    db.KeepsUnknown (McpFlow.terminalizeOrphan a c terminal isRetryable now cur) := by
  have hattempt : a.status ≠ .unknownOutcome := by
    rw [ha.2]
    exact nofun
  have hcall : c.normalizedStatus ≠ .unknownOutcome := by
    rw [hc.2]
    exact nofun
  unfold McpFlow.terminalizeOrphan
  refine Db.KeepsUnknown.putAttempt ?_ ha.1 hattempt rfl
  exact hkeep.putToolCall hc.1 hcall rfl

/-- The rows that an exhausted or retried Step writes replace no UNKNOWN_OUTCOME row. -/
theorem Db.KeepsUnknown.applyClassification {cur : Db} (hkeep : db.KeepsUnknown cur) {retry : Bool}
    {now : Time} {p : ExecutionStep × ToolStepClassification} (hs : p.1 ∈ db.steps)
    (hc : Classified env db p.1 p.2) : db.KeepsUnknown (McpFlow.applyClassification retry now cur p) := by
  obtain ⟨step, cl⟩ := p
  cases cl with
  | ready | resume | fatalUnknown | terminalOk | «local» => exact hkeep
  | safeRetry a c =>
    obtain ⟨hstep, ha, hcall⟩ := hc.startedCall (.inl rfl)
    have hstatus : step.status ≠ .unknownOutcome := by
      rw [hstep]
      exact nofun
    unfold McpFlow.applyClassification
    dsimp only
    split
    · exact (hkeep.terminalizeOrphan ha hcall _ _ _).putStep hs hstatus rfl
    · exact hkeep
  | failExhausted onError a c =>
    obtain ⟨hstep, ha, hcall⟩ := hc.startedCall (.inr ⟨_, rfl⟩)
    have hstatus : step.status ≠ .unknownOutcome := by
      rw [hstep]
      exact nofun
    exact (hkeep.terminalizeOrphan ha hcall _ _ _).putStep hs hstatus rfl

theorem Db.KeepsUnknown.foldl_applyClassification {cur : Db} (hkeep : db.KeepsUnknown cur)
    {retry : Bool} {now : Time}
    (h : ∀ p ∈ steps, p.1 ∈ db.steps ∧ Classified env db p.1 p.2) :
    db.KeepsUnknown (steps.foldl (McpFlow.applyClassification retry now) cur) := by
  induction steps generalizing cur with
  | nil => exact hkeep
  | cons p steps ih =>
    rw [List.forall_mem_cons] at h
    exact ih (hkeep.applyClassification h.1.1 h.1.2) h.2

/-- Under Steps that are not fatal every UNKNOWN_OUTCOME row is hidden. -/
theorem hasUnknown_iff_hidden (hkeys : db.ForeignKeys)
    (hsteps : ∀ s ∈ db.steps, ∃ c, Classified env db s c ∧ c ≠ .fatalUnknown) :
    db.HasUnknown ↔ HiddenUnknown env db := by
  refine ⟨fun h => ?_, HiddenUnknown.hasUnknown⟩
  rcases hkeys.hasUnknown h with ⟨s, hs, hu⟩ | ⟨s, hs, a, ha, hu⟩
  · obtain ⟨c, hc, hne⟩ := hsteps s hs
    exact absurd (hc.unique (.unknown hu)) hne
  · obtain ⟨c, hc, hne⟩ := hsteps s hs
    exact hidden_of_classified hs hc hne ha hu

/-- A DAG whose Steps are classified is recovered with respect for UNKNOWN_OUTCOME evidence exactly
when its rows are seen. -/
theorem respectsUnknown_recoverClassified_iff (hkeys : db.ForeignKeys)
    (hf : ¬env.RecoversFoundation db) (hchecked : DagChecked env db)
    (h : ClassifiedSteps env db steps) {now : Time} :
    db.RespectsUnknown (recoverClassified env steps now db).1 (recoverClassified env steps now db).2 ↔
      SeesUnknown env db := by
  have hall : ∀ s ∈ db.steps, ∃ c, Classified env db s c := fun s hs => by
    obtain ⟨p, -, -, hc⟩ := h.exists_mem s hs
    exact ⟨p.2, hc⟩
  unfold recoverClassified
  split
  next hfatal =>
    -- a fatal Step: the whole Execution is failed closed
    obtain ⟨s, hs, hu⟩ := (fatalSteps_ne_nil_iff h).mp hfatal
    constructor
    · rintro ⟨-, hends⟩
      refine ⟨fun htakes => ?_, fun code hcode a ha hunknown hstarted => ?_⟩
      · cases htakes with
        | foundation hf' => exact absurd hf' hf
        | dag _ _ hsteps =>
          obtain ⟨c, hc, hne, -⟩ := hsteps s hs
          exact absurd (hc.unique hu) hne
      · have hkeeps := (hends (.inr (.inl ⟨a, ha, hunknown⟩))).2
        have heq := keepsUnknown_failClosed_iff.mp hkeeps a ha hunknown hstarted
        cases hcode with
        | foundation hf' => exact absurd hf' hf
        | inconsistent _ hn =>
          obtain ⟨t, ht, hnone⟩ := hn hchecked
          obtain ⟨c, hc⟩ := hall t ht
          exact absurd hc (hnone c)
        | unknown => exact (failClosedUnknown_eq_iff hf hunknown _ now).mp heq
    · rintro ⟨-, hclosing⟩
      refine ⟨fun hrunner => absurd hrunner Bool.false_ne_true, fun _ => ⟨rfl, ?_⟩⟩
      refine keepsUnknown_failClosed_iff.mpr fun a ha hunknown hstarted => ?_
      exact (failClosedUnknown_eq_iff hf hunknown _ now).mpr
        (hclosing _ (.unknown hf hchecked hall ⟨s, hs, hu⟩) a ha hunknown hstarted)
  next hfatal =>
    have hsafe : ∀ s ∈ db.steps, ∃ c, Classified env db s c ∧ c ≠ .fatalUnknown := fun s hs => by
      obtain ⟨c, hc⟩ := hall s hs
      exact ⟨c, hc, fun hne => hfatal ((fatalSteps_ne_nil_iff h).mpr ⟨s, hs, hne ▸ hc⟩)⟩
    have hclosing : ∀ code, ¬ClosesWith env db code := by
      intro code hcode
      cases hcode with
      | foundation hf' => exact hf hf'
      | inconsistent _ hn =>
        obtain ⟨t, ht, hnone⟩ := hn hchecked
        obtain ⟨c, hc⟩ := hall t ht
        exact hnone c hc
      | unknown _ _ _ hu => exact hfatal ((fatalSteps_ne_nil_iff h).mpr hu)
    split
    next hstops =>
      -- an exhausted Step ends the Execution, and touches no UNKNOWN_OUTCOME row
      refine iff_of_true ⟨fun hrunner => absurd hrunner Bool.false_ne_true, fun _ => ⟨rfl, ?_⟩⟩ ⟨fun htakes => ?_,
        fun code hcode => absurd hcode (hclosing code)⟩
      · exact (((Db.KeepsUnknown.refl db).foldl_applyClassification h.of_mem).stopUnstartedSteps
          now).putExecution _
      · obtain ⟨p, hp, hstop⟩ := List.any_eq_true.mp hstops
        obtain ⟨hs, hc⟩ := h.of_mem p hp
        cases htakes with
        | foundation hf' => exact absurd hf' hf
        | dag _ _ hsteps =>
          obtain ⟨c, hc', -, hno⟩ := hsteps p.1 hs
          rw [hc'.unique hc, hstop] at hno
          cases hno
    next hstops =>
      have htakes : TakesOver env db := by
        refine .dag hf hchecked fun s hs => ?_
        obtain ⟨p, hp, -, hc⟩ := h.exists_mem s hs
        obtain ⟨c, hc', hne⟩ := hsafe s hs
        refine ⟨p.2, hc, hc'.unique hc ▸ hne, ?_⟩
        cases hstop : p.2.stopsExecution with
        | false => rfl
        | true => exact absurd (List.any_eq_true.mpr ⟨p, hp, hstop⟩) hstops
      have hhidden := hasUnknown_iff_hidden hkeys hsafe
      constructor
      · rintro ⟨hrunner, -⟩
        exact ⟨fun _ hh => hrunner rfl (hhidden.mpr hh), fun code hcode => absurd hcode (hclosing code)⟩
      · rintro ⟨htake, -⟩
        have hnone : ¬db.HasUnknown := fun hu => htake htakes (hhidden.mp hu)
        exact ⟨fun _ => hnone, fun hu => absurd hu hnone⟩

theorem respectsUnknown_recoverWorkflowDag_iff (hkeys : db.ForeignKeys)
    (hf : ¬env.RecoversFoundation db) {now : Time} {o : RecoveryOutcome} {db' : Db}
    (h : recoverWorkflowDag env now db = .ok (o, db')) :
    db.RespectsUnknown o db' ↔ SeesUnknown env db := by
  unfold recoverWorkflowDag at h
  split at h
  next steps hsteps =>
    obtain ⟨hchecked, hpairs⟩ := classifySteps_eq_ok_iff.mp hsteps
    have hresult := Except.ok.inj h
    obtain rfl : _ = o := congrArg Prod.fst hresult
    obtain rfl : _ = db' := congrArg Prod.snd hresult
    exact respectsUnknown_recoverClassified_iff hkeys hf hchecked (classifiedSteps_of_forall₂ hpairs)
  next e he =>
    have hnot : DagChecked env db → ∃ s ∈ db.steps, ∀ c, ¬Classified env db s c := by
      intro hchecked
      by_contra hnone
      simp only [not_exists, not_and, not_forall, not_not] at hnone
      obtain ⟨steps, hok⟩ := exists_classifySteps hchecked hnone
      rw [he] at hok
      cases hok
    split at h
    · cases h
      constructor
      · rintro ⟨-, hends⟩
        refine ⟨fun htakes => ?_, fun code hcode a ha hunknown hstarted => ?_⟩
        · cases htakes with
          | foundation hf' => exact absurd hf' hf
          | dag _ hchecked hall =>
            obtain ⟨s, hs, hnone⟩ := hnot hchecked
            obtain ⟨c, hc, -⟩ := hall s hs
            exact absurd hc (hnone c)
        · have hkeeps := (hends (.inr (.inl ⟨a, ha, hunknown⟩))).2
          have heq := keepsUnknown_failClosed_iff.mp hkeeps a ha hunknown hstarted
          cases hcode with
          | foundation hf' => exact absurd hf' hf
          | inconsistent => exact (failClosedUnknown_eq_iff hf hunknown _ now).mp heq
          | unknown _ hchecked hall =>
            obtain ⟨s, hs, hnone⟩ := hnot hchecked
            obtain ⟨c, hc⟩ := hall s hs
            exact absurd hc (hnone c)
      · rintro ⟨-, hclosing⟩
        refine ⟨fun hrunner => absurd hrunner Bool.false_ne_true, fun _ => ⟨rfl, ?_⟩⟩
        refine keepsUnknown_failClosed_iff.mpr fun a ha hunknown hstarted => ?_
        exact (failClosedUnknown_eq_iff hf hunknown _ now).mpr
          (hclosing _ (.inconsistent hf hnot) a ha hunknown hstarted)
    · cases h

end Dag

/-! ### The recovery of a single TOOL -/

section Foundation

variable {env : RecoveryEnv} {db : Db} {s : ExecutionStep} {d : FoundationDecision}

theorem rows_of_foundationStep (h : foundationStep db = .ok s) : db.steps.rows = [s] := by
  unfold foundationStep at h
  split at h
  next step hrows =>
    simp only [Except.bind_eq_ok_iff, assertThat_eq_ok_iff, exists_const] at h
    obtain ⟨-, -, h⟩ := h
    cases h
    exact hrows
  next => cases h

theorem FoundationDecided.status (h : FoundationDecided env db s d) :
    s.status = .ready ∨ s.status = .running := by
  cases h with
  | fresh hs | again hs => exact .inl hs
  | resume hs | call hs => exact .inr hs

/-- The evidence under a decided TOOL is hidden. -/
theorem hidden_of_decided (hf : env.RecoversFoundation db) (hs : s ∈ db.steps)
    (hd : FoundationDecided env db s d) {a : StepAttempt} (ha : a ∈ db.listAttempts s.id)
    (hu : a.status = .unknownOutcome ∨ db.attemptHasUnknownToolCall a.id = true) :
    HiddenUnknown env db := by
  cases hd with
  | fresh _ hnil =>
    rw [hnil] at ha
    cases ha
  | again hstatus => exact .ready hs ha hstatus (hu.imp_right fun hcall => ⟨hf, hcall⟩)
  | resume hstatus hb hcalls =>
    refine .running hs ha hstatus (hu.imp_right fun hcall => ⟨fun hstarted => ?_, hcall⟩)
    rw [hb.eq ha hstarted, attemptHasUnknownToolCall_of_nil hcalls] at hcall
    cases hcall
  | call hstatus hb hcalls hc =>
    refine .running hs ha hstatus (hu.imp_right fun hcall => ⟨fun hstarted => ?_, hcall⟩)
    rw [hb.eq ha hstarted, ← db.any_listToolCalls_unknown, hcalls, List.any_cons, hc] at hcall
    cases hcall

/-- A decision to fail comes from the call in flight. -/
theorem FoundationDecided.startedCall (h : FoundationDecided env db s d) {a : StepAttempt}
    {c : ToolCall} (hd : d = .failExhausted a c ∨ d = .unknownOutcome a c) :
    StartedCall db s a c := by
  cases h with
  | fresh | again | resume => simp at hd
  | @call _ _ b e hs hb hcalls hstarted _ _ =>
    have hmem : e ∈ db.listToolCalls b.id := hcalls ▸ List.mem_singleton_self e
    have heq : b = a ∧ e = c := by
      unfold startedCallDecision at hd
      split at hd
      · simpa using hd
      · split at hd
        · simp at hd
        · simpa using hd
    obtain ⟨rfl, rfl⟩ := heq
    exact ⟨hs, hb.mem, (List.mem_filter.mp hmem).1, hstarted⟩

/-- The end of the single TOOL with its call replaces no UNKNOWN_OUTCOME row. -/
theorem StartedCall.keepsUnknown {a : StepAttempt} {c : ToolCall} (h : StartedCall db s a c)
    (hs : s ∈ db.steps) (status : StepStatus) (terminal : StepAttemptStatus) (e : Execution)
    (now : Time) : db.KeepsUnknown (failExecutionStep s status now
      (terminalizeOrphan a c terminal false now (db.putExecution e))) := by
  have hstatus : s.status ≠ .unknownOutcome := by
    rw [h.step]
    exact nofun
  have horphan := ((Db.KeepsUnknown.refl db).putExecution e).terminalizeOrphan h.attempt h.toolCall
    terminal false now
  unfold failExecutionStep
  refine Db.KeepsUnknown.putExecution ?_ _
  exact horphan.putStep hs hstatus rfl

theorem respectsUnknown_applyFoundation_iff (hkeys : db.ForeignKeys)
    (hf : env.RecoversFoundation db) (hs : foundationStep db = .ok s)
    (hd : FoundationDecided env db s d) {now : Time} {e : Execution} :
    db.RespectsUnknown (applyFoundation env s now (db.putExecution e) d).1
        (applyFoundation env s now (db.putExecution e) d).2 ↔ SeesUnknown env db := by
  have hmem : s ∈ db.steps := by
    rw [Table.mem_def, rows_of_foundationStep hs]
    exact List.mem_singleton_self s
  have hclosing : ∀ code, ¬ClosesWith env db code := by
    intro code hcode
    cases hcode with
    | foundation _ hn => exact hn s d hs hd
    | inconsistent hn | unknown hn => exact hn hf
  have hresumes : TakesOver env db ↔ d.resumes = true := by
    constructor
    · intro htakes
      cases htakes with
      | foundation _ hs' hd' hr =>
        cases Except.ok.inj (hs'.symm.trans hs)
        rwa [hd.unique hd']
      | dag hn => exact absurd hf hn
    · exact fun hr => .foundation hf hs hd hr
  have hhidden : db.HasUnknown ↔ HiddenUnknown env db := by
    refine ⟨fun h => ?_, HiddenUnknown.hasUnknown⟩
    have hsingle : ∀ t ∈ db.steps, t = s := fun t ht => by
      rw [Table.mem_def, rows_of_foundationStep hs] at ht
      exact List.mem_singleton.mp ht
    rcases hkeys.hasUnknown h with ⟨t, ht, hu⟩ | ⟨t, ht, a, ha, hu⟩
    · rw [hsingle t ht] at hu
      rcases hd.status with hstatus | hstatus <;> simp [hstatus] at hu
    · rw [hsingle t ht] at ha
      exact hidden_of_decided hf hmem hd ha hu
  have hseen : SeesUnknown env db ↔ (d.resumes = true → ¬HiddenUnknown env db) :=
    ⟨fun h hr => h.takeover (hresumes.mpr hr),
      fun h => ⟨fun htakes => h (hresumes.mp htakes), fun code hcode => absurd hcode (hclosing code)⟩⟩
  have htakeover : ∀ (o : RecoveryOutcome) (db' : Db), o.invokeRunner = true → d.resumes = true →
      (db.RespectsUnknown o db' ↔ SeesUnknown env db) := by
    intro o db' ho hr
    rw [hseen]
    constructor
    · exact fun h _ hh => h.runner ho (hhidden.mpr hh)
    · intro h
      have hnone : ¬db.HasUnknown := fun hu => h hr (hhidden.mp hu)
      exact ⟨fun _ => hnone, fun hu => absurd hu hnone⟩
  have hfailed : ∀ (o : RecoveryOutcome) (db' : Db), o.invokeRunner = false → d.resumes = false →
      db'.execution.status = .failed → db.KeepsUnknown db' →
      (db.RespectsUnknown o db' ↔ SeesUnknown env db) := by
    intro o db' ho hr hstatus hkeeps
    rw [hseen, hr]
    exact iff_of_true ⟨fun hrunner => absurd (ho.symm.trans hrunner) Bool.false_ne_true,
      fun _ => ⟨hstatus, hkeeps⟩⟩ fun h => absurd h Bool.false_ne_true
  cases d with
  | takeoverReady | resumeAttempt | safeRetry => exact htakeover _ _ rfl rfl
  | failExhausted a c =>
    exact hfailed _ _ rfl rfl rfl ((hd.startedCall (.inl rfl)).keepsUnknown hmem _ _ _ now)
  | unknownOutcome a c =>
    exact hfailed _ _ rfl rfl rfl ((hd.startedCall (.inr rfl)).keepsUnknown hmem _ _ _ now)

theorem respectsUnknown_recoverFoundation_iff (hkeys : db.ForeignKeys)
    (hf : env.RecoversFoundation db) {now : Time} {o : RecoveryOutcome} {db' : Db}
    (h : recoverFoundation env now db = .ok (o, db')) :
    db.RespectsUnknown o db' ↔ SeesUnknown env db := by
  unfold recoverFoundation at h
  dsimp only at h
  split at h
  next step decision hdecided =>
    simp only [Except.bind_eq_ok_iff] at hdecided
    obtain ⟨t, ht, e, he, hpair⟩ := hdecided
    cases hpair
    have hresult := Except.ok.inj h
    obtain rfl : _ = o := congrArg Prod.fst hresult
    obtain rfl : _ = db' := congrArg Prod.snd hresult
    exact respectsUnknown_applyFoundation_iff hkeys hf ht (decideFoundation_eq_ok_iff.mp he)
  next e he =>
    have hnot : ∀ s d, foundationStep db = .ok s → ¬FoundationDecided env db s d := by
      intro s d hs hd
      rw [hs] at he
      change (decideFoundation env db s >>= _) = _ at he
      rw [decideFoundation_eq_ok_iff.mpr hd] at he
      cases he
    split at h
    · cases h
      constructor
      · rintro ⟨-, hends⟩
        refine ⟨fun htakes => ?_, fun code hcode a ha hunknown hstarted => ?_⟩
        · cases htakes with
          | foundation _ hs hd => exact absurd hd (hnot _ _ hs)
          | dag hn => exact absurd hf hn
        · have hkeeps := (hends (.inr (.inl ⟨a, ha, hunknown⟩))).2
          have heq := keepsUnknown_failInconsistent_iff.mp hkeeps a ha hunknown hstarted
          cases hcode with
          | foundation => exact (failInconsistent_eq_iff hf hunknown now).mp heq
          | inconsistent hn | unknown hn => exact absurd hf hn
      · rintro ⟨-, hclosing⟩
        refine ⟨fun hrunner => absurd hrunner Bool.false_ne_true, fun _ => ⟨rfl, ?_⟩⟩
        refine keepsUnknown_failInconsistent_iff.mpr fun a ha hunknown hstarted => ?_
        exact (failInconsistent_eq_iff hf hunknown now).mpr
          (hclosing _ (.foundation hf hnot) a ha hunknown hstarted)
    · cases h

end Foundation

/-- A TOOL of a plan. -/
def lookupPlanStep : ExecutionPlanStep where
  id := "lookup"
  type := .tool
  required := true
  dependsOn := []
  when := none
  timeoutSeconds := 30
  onError := .failExecution
  config := .tool (.ofNat 7) []
  id_nonBlank := by decide
  timeoutSeconds_pos := one_le_thirty

/-- Its READY row after one Attempt. -/
def lookupStep : ExecutionStep where
  id := .ofNat 2
  stepKey := "lookup"
  stepType := .tool
  mcpToolVersionId := some (.ofNat 7)
  parentStepId := none
  status := .ready
  stepSnapshot := lookupPlanStep
  resolvedInput := none
  resultInline := none
  conditionResult := none
  iterationNo := none
  attemptCount := 1
  readyAt := some 0
  startedAt := some 0
  finishedAt := none
  errorCode := none
  toolVersion_isSome := by decide

/-- The Attempt before it. -/
def lookupAttempt (status : StepAttemptStatus) : StepAttempt where
  id := .ofNat 3
  stepExecutionId := .ofNat 2
  attemptNo := 1
  status
  workerId := none
  leaseExpiresAt := none
  errorCode := some workerLeaseExpired
  isRetryable := some false
  resultInline := none
  startedAt := 0
  finishedAt := some 0

/-- A RUNNING Execution of a workflow whose lease ended at 5. -/
def lookupDb (status : StepAttemptStatus) : Db where
  execution := {
    id := .ofNat 1
    sourceType := .workflowVersion
    triggerType := .user
    requesterId := .ofNat 4
    agentVersionId := none
    workflowVersionId := some (.ofNat 5)
    scheduleOccurrenceId := none
    status := .running
    planSnapshot := ⟨.ofNat 20 4 50, [lookupPlanStep]⟩
    planHash := .replicate 'a' Text.isLowerHex_a
    errorCode := none
    queuedAt := some 0
    startedAt := some 0
    finishedAt := none
    cancelRequestedAt := none
    cancelRequestedBy := none
    workerId := some "w"
    leaseToken := some (.ofNat 6)
    leaseExpiresAt := some 5
    heartbeatAt := some 0 }
  steps := ⟨[lookupStep], List.nodup_singleton _⟩
  attempts := ⟨[lookupAttempt status], List.nodup_singleton _⟩
  toolCalls := .empty
  approvals := .empty
  inputRequests := .empty

/-- A recovery whose lineage checks pass, of a TOOL that may be called again. -/
def lookupEnv : RecoveryEnv where
  runtime := {
    digest := fun _ => .replicate 'a' Text.isLowerHex_a
    computeCanonicalJsonHash := fun _ => .replicate 'a' Text.isLowerHex_a
    planLineage := .ok ()
    evaluate := fun _ _ _ => .ok true
    resolveForeachCollection := fun _ _ => .error (conflict "")
    whileEvidenceHash := fun _ _ _ => .error (conflict "")
    stepId := fun id _ _ => id
    approvalContext := fun _ => .ok ()
    approvalPolicy := fun _ => none
    approvalRequestId := .ofNat 8 }
  sourceLineage := .ok ()
  toolPolicy := fun _ => .ok (.readOnly, 3)
  resumeLineage := fun _ _ => .ok ()
  agentRequestPinned := false
  worker := "v"
  leaseToken := .ofNat 9
  leaseSeconds := 60

theorem foreignKeys_lookupDb (status : StepAttemptStatus) : (lookupDb status).ForeignKeys where
  attempts a ha := ⟨lookupStep, List.mem_singleton_self _, by rw [List.mem_singleton.mp ha]; rfl⟩
  toolCalls c hc := by cases hc

/-- The recovery of `lookupDb` takes the Execution over. -/
theorem exists_recover_lookupDb (status : StepAttemptStatus) (h : status ≠ .started) :
    ∃ o db', recoverExecution lookupEnv 10 (lookupDb status) = .ok (o, db') ∧
      o.decision = .takeoverReady ∧ o.invokeRunner = true := by
  cases status with
  | started => exact absurd rfl h
  | succeeded | failed | timedOut | cancelled | unknownOutcome => exact ⟨_, _, rfl, rfl, rfl⟩

end McpFlow
