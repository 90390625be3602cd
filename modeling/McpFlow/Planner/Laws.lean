import McpFlow.Library.Runs
import McpFlow.Planner.ClaimLoop

/-!
# The laws of the planners

A run of planners is lawful as long as no claim query is starved by the leased rows in front of it,
and no worker closes its event after the pipeline refused it and the claim has gone to another.
-/

namespace McpFlow.Planner

/-- The worker of an action. -/
def Action.claimToken? : Action → Option UUID
  | .prepare t _ _ | .conclude t _ _ | .recordFailure t | .crash t => some t
  | .enqueue _ _ | .tick _ | .moveOccurrence _ _ | .claimNext _ _ _ => none

/-- The action is one of the planners. -/
def Action.isPlanner : Action → Bool
  | .claimNext _ _ _ | .prepare _ _ _ | .conclude _ _ _ | .recordFailure _ | .crash _ => true
  | .enqueue _ _ | .tick _ | .moveOccurrence _ _ => false

namespace World

variable {s : Settings} {w w' : World} {a : Action} {r : Worker} {e : PlanEvent}

/-- The event of the worker was claimed by another. -/
def Superseded (w : World) (r : Worker) : Prop :=
  ∃ e ∈ w.events, e.id = r.eventId ∧ e.lastToken ≠ some r.claimToken

/-- An event waits for a claim: it is unpublished, not locked, without a lease and has attempts
left. -/
def Waits (s : Settings) (w : World) (locked : List UUID) (e : PlanEvent) : Prop :=
  e.publishedAt = none ∧ e.id ∉ locked ∧ w.claimable s e = true

/-- The laws of one step. -/
structure StepLaws (s : Settings) (w : World) (a : Action) (w' : World) : Prop where
  /-- A superseded worker changes neither events nor occurrences, and creates no Execution. -/
  fenced : ∀ t r, a.claimToken? = some t → w.workers.find? t = some r → w.Superseded r →
    w'.events = w.events ∧ w'.occurrences = w.occurrences ∧ w'.executions = w.executions
  /-- A planner fails no occurrence that has an Execution. -/
  failed : a.isPlanner = true → FailsWithout w w'
  /-- A published event is never written again. -/
  published : PublishedStay w w'
  /-- Every claim is counted. -/
  counted : ∀ f ∈ w.events, ∃ f' ∈ w'.events, f'.id = f.id ∧
    ((f'.publishAttemptCount = f.publishAttemptCount ∧ f'.lastToken = f.lastToken) ∨
      (f'.publishAttemptCount = f.publishAttemptCount + 1 ∧
        ∃ workerId t locked, a = .claimNext workerId t locked ∧ f'.lastToken = some t))
  /-- A claim query returns a claim when an event waits for one. -/
  claims : ∀ workerId t locked, a = .claimNext workerId t locked →
    (∃ e ∈ w.events, w.Waits s locked e) → ∃ r ∈ w'.workers, r.claimToken = t
  /-- One that returns none has published every exhausted row it met. -/
  drained : ∀ workerId t locked, a = .claimNext workerId t locked →
    (∀ r ∈ w'.workers, r.claimToken ≠ t) → ∀ e ∈ w.candidates locked,
      e.hasActiveLease w.clock = false → ∃ e' ∈ w'.events, e'.id = e.id ∧ e'.publishedAt ≠ none

/-- The laws of a state: one Execution per occurrence, and no more claims than attempts. -/
structure StateLaws (s : Settings) (w : World) : Prop where
  executions : w.executions.Nodup
  attempts : ∀ e ∈ w.events, e.publishAttemptCount ≤ s.maxAttempts

/-- The condition on a step. A claim query meets a claimable row among those it locks, when an event
waits; a worker that the pipeline refused still has the stored claim. -/
def KeepsClaims (s : Settings) (w : World) : Action → Prop
  | .claimNext _ _ locked =>
    (∃ e ∈ w.candidates locked, w.claimable s e = true) ∨ ∀ e ∈ w.events, ¬w.Waits s locked e
  | .conclude t (.refused _) _ => ∀ r, w.workers.find? t = some r →
    ∀ e ∈ w.events, e.id = r.eventId → e.claim.any (·.claimToken = t) = true
  | _ => True

/-! ### The step of a worker -/

theorem owns_of_requireOwned {now : Time}
    (h : e.requireOwned r.workerId r.claimToken now = true) : Owns r e := by
  simp only [PlanEvent.requireOwned, PlanEvent.ownsClaim, Bool.and_eq_true,
    Option.isNone_iff_eq_none, Option.any_eq_true, decide_eq_true_eq] at h
  obtain ⟨hpublished, c, hc, -, htoken, -⟩ := h
  exact ⟨hpublished, c, hc, htoken⟩

/-- A session that still finds its lease valid has the stored claim. -/
theorem Inv.owns_of_session {row : PlanEvent} {c : Claim} (hinv : EventInv s w e)
    (hrow : SessionRow r e row c) (hcase : e.claim = some c ∨ c.leaseExpiresAt ≤ w.clock)
    (h : row.requireOwned r.workerId r.claimToken w.clock = true) : Owns r e := by
  simp only [PlanEvent.requireOwned, PlanEvent.ownsClaim, Bool.and_eq_true,
    Option.any_eq_true, decide_eq_true_eq] at h
  obtain ⟨-, c', hc', -, -, hvalid⟩ := h
  rw [hrow.claim] at hc'
  cases hc'
  rcases hcase with hc | hexpired
  · exact ⟨(hinv.claim c hc).1, c, hc, hrow.claimToken⟩
  · exact absurd hvalid (not_lt.mpr hexpired)

/-- The step of a worker has the effect of an owner, or none. -/
theorem Inv.effect_of_step {t : UUID} (h : Inv s w) (hok : w.KeepsClaims s a)
    (ha : a.claimToken? = some t) (hstep : w.step s a = some w') :
    ∃ r e, w.workers.find? t = some r ∧ r ∈ w.workers ∧ e ∈ w.events ∧ e.id = r.eventId ∧
      Effect w r e w' := by
  have hworker : ∃ r, w.workers.find? t = some r := by
    cases a <;> cases ha
    all_goals
      simp only [step] at hstep
      cases hr : w.workers.find? t with
      | none => simp [hr] at hstep
      | some r => exact ⟨r, rfl⟩
  obtain ⟨r, hr⟩ := hworker
  have hmem := Table.mem_of_find? hr
  obtain ⟨e, he, heid⟩ := h.worked r hmem
  have hfind : w.events.find? r.eventId = some e := heid ▸ Table.find?_key_of_mem he
  refine ⟨r, e, hr, hmem, he, heid, ?_⟩
  cases a with
  | enqueue | tick | moveOccurrence | claimNext => cases ha
  | prepare t' env plans =>
    cases ha
    simp only [step, hr, hfind] at hstep
    split at hstep
    · split at hstep
      · next howned =>
        cases hstep
        exact .orFailed fun _ htx => .prepareTx (owns_of_requireOwned howned) htx
      · cases hstep
        exact .dropWorker
    · cases hstep
  | conclude t' result env =>
    cases ha
    simp only [step, hr, hfind] at hstep
    split at hstep
    · next row e' hstage hfind' =>
      cases hfind'
      cases hstep
      obtain ⟨c, hrow, hcase⟩ := h.session r hmem row hstage e he heid
      refine .orFailed fun _ htx => .concludeTx hrow.occurrenceId hrow.publishedAt .dropWorker
        (fun code hcode => ?_) (fun howned => ?_) htx
      · subst hcode
        have hclaim := hok r hr e he heid
        simp only [Option.any_eq_true, decide_eq_true_eq] at hclaim
        obtain ⟨c', hc', htoken⟩ := hclaim
        exact ⟨((h.event e he).claim c' hc').1, c', hc',
          htoken.trans (Table.key_of_find? hr).symm⟩
      · exact owns_of_session (h.event e he) hrow hcase howned
    · next hnone => cases hnone
    · cases hstep
    · cases hstep
  | recordFailure t' =>
    cases ha
    simp only [step, hr, hfind] at hstep
    split at hstep
    · split at hstep
      · next howned =>
        cases hstep
        have hown := owns_of_requireOwned howned
        exact .renewed hown ⟨rfl, rfl, rfl, rfl, hown.1, hown.2⟩ (workersAfter_erase w r _)
      · cases hstep
        exact .dropWorker
    · cases hstep
  | crash t' =>
    cases ha
    simp only [step, hr, Option.map_some] at hstep
    cases hstep
    exact .dropWorker

/-! ### Keeping the invariant -/

theorem mem_candidates {locked : List UUID} (h : e ∈ w.candidates locked) :
    e ∈ w.events ∧ e.publishedAt = none ∧ e.id ∉ locked := by
  have hmem := (List.mem_insertionSort _).mp (List.mem_of_mem_take h)
  obtain ⟨hrows, hopen⟩ := List.mem_filter.mp hmem
  exact ⟨hrows, by simpa using hopen⟩

theorem nodup_candidates (w : World) (locked : List UUID) :
    ((w.candidates locked).map (·.id)).Nodup := by
  have hperm := (List.perm_insertionSort (fun e f => e.before f)
    (w.events.rows.filter fun e => e.publishedAt = none ∧ e.id ∉ locked)).map (·.id)
  have hnodup := hperm.nodup_iff.mpr (w.events.nodup_keys.sublist (List.filter_sublist.map _))
  exact hnodup.sublist ((List.take_sublist 3 _).map _)

/-- Drawing a token keeps the invariant. -/
theorem Inv.draw (h : Inv s w) (t : UUID) : Inv s { w with tokens := t :: w.tokens } :=
  ⟨h.occurrence, h.nodup, h.origin, fun e he => ⟨(h.event e he).executed, (h.event e he).attempts,
    (h.event e he).claim, fun u hu => List.mem_cons_of_mem t ((h.event e he).lastToken u hu)⟩,
    fun r hr => List.mem_cons_of_mem t (h.token r hr), h.worked, h.session⟩

/-- The claim query and its loop. -/
theorem Inv.claimNext (h : Inv s w) {workerId t : UUID} {locked : List UUID}
    (hstep : w.step s (.claimNext workerId t locked) = some w') :
    LoopSpec s t (w.candidates locked) { w with tokens := t :: w.tokens } w' := by
  simp only [step] at hstep
  split at hstep
  · cases hstep
  next hfresh =>
  cases hstep
  refine claimLoop_spec (h.draw t) List.mem_cons_self (fun r hr hrt => ?_) (fun e he => ?_)
    (nodup_candidates w locked)
  · exact hfresh (hrt ▸ h.token r hr)
  · obtain ⟨hmem, hpublished, -⟩ := mem_candidates he
    exact ⟨hmem, hpublished⟩

/-- A new event has an occurrence of its own. -/
theorem Inv.enqueue (h : Inv s w) {id occurrenceId : UUID}
    (hnew : ∀ e ∈ w.events, e.occurrenceId ≠ occurrenceId) {events : Table PlanEvent.id}
    (hevents : w.events.insert?
      ⟨id, occurrenceId, w.clock, none, none, none, 0, none, none, none⟩ = some events)
    (occurrences : Table Occurrence.id) :
    Inv s { w with events := events, occurrences := occurrences } := by
  have hmem {f : PlanEvent} := Table.mem_of_insert? (s := f) hevents
  refine ⟨fun f hf g hg hfg => ?_, h.nodup, fun o ho => ?_, fun f hf => ?_, h.token,
    fun r hr => ?_, fun r hr row hrow f hf hfid => ?_⟩
  · rcases hmem.mp hf with hf | rfl <;> rcases hmem.mp hg with hg | rfl
    · exact h.occurrence f hf g hg hfg
    · exact absurd hfg (hnew f hf)
    · exact absurd hfg.symm (hnew g hg)
    · rfl
  · obtain ⟨f, hf, hfo⟩ := h.origin o ho
    exact ⟨f, hmem.mpr (.inl hf), hfo⟩
  · rcases hmem.mp hf with hf | rfl
    · exact (h.event f hf).of_eq rfl rfl
    · refine ⟨fun ho => ?_, Nat.zero_le _, fun c hc => (by cases hc), fun t ht => (by cases ht)⟩
      obtain ⟨g, hg, hgo⟩ := h.origin _ ho
      exact absurd hgo (hnew g hg)
  · obtain ⟨f, hf, hfid⟩ := h.worked r hr
    exact ⟨f, hmem.mpr (.inl hf), hfid⟩
  · rcases hmem.mp hf with hf | rfl
    · exact h.session r hr row hrow f hf hfid
    · obtain ⟨g, hg, hgid⟩ := h.worked r hr
      exact absurd (hgid.trans hfid.symm) (Table.key_ne_of_insert? hevents g hg)

/-- Every step that meets the condition keeps the invariant. -/
theorem Inv.step (h : Inv s w) (hok : w.KeepsClaims s a) (hstep : w.step s a = some w') :
    Inv s w' := by
  by_cases ha : ∃ t, a.claimToken? = some t
  · obtain ⟨t, ha⟩ := ha
    obtain ⟨r, e, -, hr, he, heid, heffect⟩ := h.effect_of_step hok ha hstep
    exact h.effect hr he heid heffect
  cases a with
  | prepare | conclude | recordFailure | crash => exact absurd ⟨_, rfl⟩ ha
  | claimNext workerId t locked => exact (h.claimNext hstep).inv
  | enqueue id occurrenceId =>
    simp only [World.step] at hstep
    split at hstep
    · cases hstep
      exact h
    next hnew =>
    obtain ⟨events, hevents, rfl⟩ := Option.map_eq_some_iff.mp hstep
    refine h.enqueue (fun e he heq => hnew ?_) hevents _
    exact List.any_eq_true.mpr ⟨e, he, by simpa using heq⟩
  | tick now =>
    simp only [World.step] at hstep
    split at hstep
    · next hle =>
      cases hstep
      refine ⟨h.occurrence, h.nodup, h.origin, fun e he => (h.event e he).of_eq rfl rfl, h.token,
        h.worked, fun r hr row hrow e he heid => ?_⟩
      obtain ⟨c, hsession, hcase⟩ := h.session r hr row hrow e he heid
      exact ⟨c, hsession, hcase.imp_right fun hexpired => hexpired.trans hle⟩
    · cases hstep
  | moveOccurrence id status =>
    obtain ⟨o, -, rfl⟩ := Option.map_eq_some_iff.mp hstep
    exact ⟨h.occurrence, h.nodup, h.origin, fun e he => (h.event e he).of_eq rfl rfl, h.token,
      h.worked, h.session⟩

/-! ### The laws -/

/-- An owner is not superseded. -/
theorem Inv.not_superseded (h : Inv s w) (he : e ∈ w.events) (heid : e.id = r.eventId)
    (hown : Owns r e) : ¬w.Superseded r := by
  rintro ⟨f, hf, hfid, htoken⟩
  have hfe : f = e := Table.eq_of_key_eq hf he (hfid.trans heid.symm)
  subst hfe
  obtain ⟨-, c, hc, hct⟩ := hown
  exact htoken (((h.event f hf).claim c hc).2.trans (congrArg some hct))

/-- The laws of an effect. -/
theorem Inv.effect_laws (h : Inv s w) (he : e ∈ w.events) (heid : e.id = r.eventId)
    (heffect : Effect w r e w') :
    (w.Superseded r →
      w'.events = w.events ∧ w'.occurrences = w.occurrences ∧ w'.executions = w.executions) ∧
    FailsWithout w w' ∧ PublishedStay w w' ∧
    ∀ f ∈ w.events, ∃ f' ∈ w'.events, f'.id = f.id ∧
      f'.publishAttemptCount = f.publishAttemptCount ∧ f'.lastToken = f.lastToken := by
  have hkept (e' : PlanEvent) (hid : e'.id = e.id)
      (hattempts : e'.publishAttemptCount = e.publishAttemptCount)
      (htoken : e'.lastToken = e.lastToken) : ∀ f ∈ w.events, ∃ f' ∈ w.events.put e',
        f'.id = f.id ∧ f'.publishAttemptCount = f.publishAttemptCount ∧
          f'.lastToken = f.lastToken := by
    intro f hf
    by_cases hfe : f.id = e'.id
    · have hfe : f = e := Table.eq_of_key_eq hf he (hfe.trans hid)
      subst hfe
      exact ⟨e', Table.mem_put_self hf hid.symm, hid, hattempts, htoken⟩
    · exact ⟨f, Table.mem_put_of_ne hf hfe, rfl, rfl, rfl⟩
  cases heffect with
  | idle =>
    exact ⟨fun _ => ⟨rfl, rfl, rfl⟩, failsWithout_refl w, fun f hf _ => hf,
      fun f hf => ⟨f, hf, rfl, rfl, rfl⟩⟩
  | @renewed e' workers hown he' hworkers =>
    exact ⟨fun hsup => absurd hsup (h.not_superseded he heid hown), failsWithout_refl w,
      publishedStay_put rfl he hown.1 he'.id, hkept e' he'.id he'.attempts he'.lastToken⟩
  | @closed e' occurrences workers hown he' hoccurrences hworkers =>
    exact ⟨fun hsup => absurd hsup (h.not_superseded he heid hown),
      h.failsWithout he hown.1 hoccurrences rfl, publishedStay_put rfl he hown.1 he'.id,
      hkept e' he'.id he'.attempts he'.lastToken⟩
  | @executed e' workers hown he' hnew hworkers =>
    exact ⟨fun hsup => absurd hsup (h.not_superseded he heid hown),
      fun o ho hfailed => .inl ⟨o, ho, rfl, hfailed⟩, publishedStay_put rfl he hown.1 he'.id,
      hkept e' he'.id he'.attempts he'.lastToken⟩

/-- A step that no planner does leaves the events it finds. -/
theorem events_of_not_planner (ha : a.isPlanner = false) (hstep : w.step s a = some w') :
    ∀ e ∈ w.events, e ∈ w'.events := by
  intro e he
  cases a with
  | claimNext | prepare | conclude | recordFailure | crash => cases ha
  | enqueue id occurrenceId =>
    simp only [step] at hstep
    split at hstep
    · cases hstep
      exact he
    · obtain ⟨events, hevents, rfl⟩ := Option.map_eq_some_iff.mp hstep
      exact (Table.mem_of_insert? hevents).mpr (.inl he)
  | tick now =>
    simp only [step] at hstep
    split at hstep
    · cases hstep
      exact he
    · cases hstep
  | moveOccurrence id status =>
    obtain ⟨o, -, rfl⟩ := Option.map_eq_some_iff.mp hstep
    exact he

/-- A step that meets the condition obeys the laws. -/
theorem Inv.stepLaws (h : Inv s w) (hok : w.KeepsClaims s a) (hstep : w.step s a = some w') :
    StepLaws s w a w' := by
  by_cases ha : ∃ t, a.claimToken? = some t
  · -- A worker.
    obtain ⟨t, ha⟩ := ha
    obtain ⟨r, e, hfind, -, he, heid, heffect⟩ := h.effect_of_step hok ha hstep
    obtain ⟨hfenced, hfailed, hpublished, hcounted⟩ := h.effect_laws he heid heffect
    refine ⟨fun t' r' ht' hr' => ?_, fun _ => hfailed, hpublished, fun f hf => ?_,
      fun workerId t' locked heq => ?_, fun workerId t' locked heq => ?_⟩
    · rw [ha] at ht'
      cases ht'
      rw [hfind] at hr'
      cases hr'
      exact hfenced
    · obtain ⟨f', hf', hid, hattempts, htoken⟩ := hcounted f hf
      exact ⟨f', hf', hid, .inl ⟨hattempts, htoken⟩⟩
    · rw [heq] at ha
      cases ha
    · rw [heq] at ha
      cases ha
  by_cases hplanner : a.isPlanner = true
  · -- A claim query.
    cases a with
    | enqueue | tick | moveOccurrence => cases hplanner
    | prepare | conclude | recordFailure | crash => exact absurd ⟨_, rfl⟩ ha
    | claimNext workerId t locked =>
    have hspec := h.claimNext hstep
    refine ⟨fun t' r ht' => (by cases ht'), fun _ => hspec.failed, hspec.published,
      fun f hf => ?_, fun workerId' t' locked' heq hwaits => ?_,
      fun workerId' t' locked' heq => ?_⟩
    · obtain ⟨f', hf', hid, hsame | ⟨hattempts, htoken⟩⟩ := hspec.counted f hf
      · exact ⟨f', hf', hid, .inl hsame⟩
      · exact ⟨f', hf', hid, .inr ⟨hattempts, workerId, t, locked, rfl, htoken⟩⟩
    · cases heq
      rcases hok with hclaimable | hnone
      · exact hspec.claims hclaimable
      · obtain ⟨e, he, hwait⟩ := hwaits
        exact absurd hwait (hnone e he)
    · cases heq
      exact hspec.drained
  · -- Another service.
    rw [Bool.not_eq_true] at hplanner
    have hevents := events_of_not_planner hplanner hstep
    refine ⟨fun t r ht => absurd ⟨t, ht⟩ ha, fun hp => ?_, fun f hf _ => hevents f hf,
      fun f hf => ⟨f, hevents f hf, rfl, .inl ⟨rfl, rfl⟩⟩, fun workerId t locked heq => ?_,
      fun workerId t locked heq => ?_⟩
    · rw [hplanner] at hp
      cases hp
    · rw [heq] at hplanner
      cases hplanner
    · rw [heq] at hplanner
      cases hplanner

/-- **The planners.** In every run whose steps meet the condition, every state obeys the laws of a
state, and every next step that meets the condition those of a step. -/
theorem planner_laws {s : Settings} {w₀ w w' : World} (hinit : w₀.Initial) {as : List Action}
    {a : Action} (hmeet : Runs.StepsMeet (World.step s) (KeepsClaims s) w₀ (as ++ [a]))
    (hrun : Runs.run (World.step s) w₀ as = some w) (hstep : w.step s a = some w') :
    StateLaws s w ∧ StepLaws s w a w' ∧ StateLaws s w' := by
  obtain ⟨hmeet, hlast⟩ := Runs.stepsMeet_append hmeet hrun
  have hinv : Inv s w :=
    Runs.run_preserves (fun _ _ _ hs hok hstep => hs.step hok hstep) hinit.inv hmeet hrun
  have hinv' := hinv.step hlast.1 hstep
  exact ⟨⟨hinv.nodup, fun e he => (hinv.event e he).attempts⟩, hinv.stepLaws hlast.1 hstep,
    hinv'.nodup, fun e he => (hinv'.event e he).attempts⟩

/-! ### Two runs -/

/-- The settings of the runs. -/
def defaultSettings : Settings := ⟨300, 5⟩

/-- Before the first event. -/
def idle : World := ⟨0, .empty, .empty, [], .empty, []⟩

/-- An owner materializes its event, another claims the next one. -/
def lawfulRun : List Action :=
  [.enqueue (.ofNat 1) (.ofNat 11), .enqueue (.ofNat 2) (.ofNat 12),
    .claimNext (.ofNat 21) (.ofNat 31) [],
    .prepare (.ofNat 31) ⟨false, true, none, .ofNat 41⟩ none,
    .conclude (.ofNat 31) .finished ⟨false, none, false⟩]

/-- The claim of the other event. -/
def nextClaim : Action := .claimNext ⟨22, by decide⟩ ⟨32, by decide⟩ []

instance {s : Settings} {w : World} {locked : List UUID} {e : PlanEvent} :
    Decidable (w.Waits s locked e) := inferInstanceAs (Decidable (_ ∧ _ ∧ _))

instance {s : Settings} (w : World) (a : Action) : Decidable (KeepsClaims s w a) :=
  match a with
  | .claimNext _ _ locked =>
    decidable_of_iff ((∃ e ∈ w.candidates locked, w.claimable s e = true) ∨
      ∀ e ∈ w.events.rows, ¬w.Waits s locked e) Iff.rfl
  | .conclude t (.refused _) _ =>
    decidable_of_iff (∀ r ∈ (w.workers.find? t).toList, ∀ e ∈ w.events.rows, e.id = r.eventId →
      e.claim.any (·.claimToken = t) = true) (by simp [KeepsClaims, Table.mem_def])
  | .conclude _ .raises _ | .conclude _ .finished _ | .enqueue _ _ | .tick _ | .moveOccurrence _ _
  | .prepare _ _ _ | .recordFailure _ | .crash _ => isTrue trivial

theorem lawfulRun_laws : ∃ w w', Runs.run (World.step defaultSettings) idle lawfulRun = some w ∧
    w.step defaultSettings nextClaim = some w' ∧ w.executions = [⟨11, by decide⟩] ∧
    w'.workers.rows.map (·.eventId) = [⟨2, by decide⟩] ∧
    StateLaws defaultSettings w ∧ StepLaws defaultSettings w nextClaim w' ∧
    StateLaws defaultSettings w' := by
  have hrun : (Runs.run (World.step defaultSettings) idle lawfulRun).any (fun w =>
      w.executions = [⟨11, by decide⟩] ∧ (w.step defaultSettings nextClaim).any fun w' =>
        w'.workers.rows.map (·.eventId) = [⟨2, by decide⟩]) = true := by decide
  obtain ⟨w, hw, hnext⟩ := (Option.any_eq_true _ _).mp hrun
  obtain ⟨hexecutions, hnext⟩ := of_decide_eq_true hnext
  obtain ⟨w', hw', hclaimed⟩ := (Option.any_eq_true _ _).mp hnext
  exact ⟨w, w', hw, hw', hexecutions, of_decide_eq_true hclaimed,
    planner_laws ⟨rfl, rfl, rfl⟩ (by decide) hw hw'⟩

/-- Three events are leased, and a fourth waits behind them. -/
def starvedRun : List Action :=
  [.enqueue (.ofNat 1) (.ofNat 11), .enqueue (.ofNat 2) (.ofNat 12),
    .enqueue (.ofNat 3) (.ofNat 13), .enqueue (.ofNat 4) (.ofNat 14),
    .claimNext (.ofNat 21) (.ofNat 31) [], .claimNext (.ofNat 22) (.ofNat 32) [],
    .claimNext (.ofNat 23) (.ofNat 33) []]

/-- The lease of a planner ends in the pipeline, and another planner creates the Execution. -/
def supersededRun : List Action :=
  [.enqueue (.ofNat 1) (.ofNat 11), .claimNext (.ofNat 21) (.ofNat 31) [],
    .prepare (.ofNat 31) ⟨false, true, none, .ofNat 41⟩ none, .tick 300000000,
    .claimNext (.ofNat 22) (.ofNat 32) [],
    .prepare (.ofNat 32) ⟨false, true, none, .ofNat 41⟩ none,
    .conclude (.ofNat 32) .finished ⟨false, none, false⟩]

/-- The claim query of a fourth planner returns nothing although the fourth event waits, and the
pipeline's refusal lets a superseded planner fail the occurrence of an Execution. -/
theorem starved_and_superseded :
    (∃ w w', Runs.run (World.step defaultSettings) idle starvedRun = some w ∧
      w.step defaultSettings (.claimNext ⟨24, by decide⟩ ⟨34, by decide⟩ []) = some w' ∧
      (∃ e ∈ w.events, w.Waits defaultSettings [] e) ∧
      ∀ r ∈ w'.workers, r.claimToken ≠ ⟨34, by decide⟩) ∧
    ∃ w w' r, Runs.run (World.step defaultSettings) idle supersededRun = some w ∧
      w.step defaultSettings (.conclude ⟨31, by decide⟩ (.refused "CONFLICT")
        ⟨false, none, false⟩) = some w' ∧
      w.workers.find? ⟨31, by decide⟩ = some r ∧ w.Superseded r ∧ w.executions ≠ [] ∧
      w.occurrences.rows.map (·.status) = [.planned] ∧
      w'.occurrences.rows.map (·.status) = [.failed] := by
  constructor
  · have hrun : (Runs.run (World.step defaultSettings) idle starvedRun).any (fun w =>
        (∃ e ∈ w.events.rows, w.Waits defaultSettings [] e) ∧
        (w.step defaultSettings (.claimNext ⟨24, by decide⟩ ⟨34, by decide⟩ [])).any fun w' =>
          ∀ r ∈ w'.workers.rows, r.claimToken ≠ ⟨34, by decide⟩) = true := by decide
    obtain ⟨w, hw, hnext⟩ := (Option.any_eq_true _ _).mp hrun
    obtain ⟨hwaits, hnext⟩ := of_decide_eq_true hnext
    obtain ⟨w', hw', hnone⟩ := (Option.any_eq_true _ _).mp hnext
    exact ⟨w, w', hw, hw', hwaits, of_decide_eq_true hnone⟩
  · have hrun : (Runs.run (World.step defaultSettings) idle supersededRun).any (fun w =>
        (w.executions ≠ [] ∧ w.occurrences.rows.map (·.status) = [.planned]) ∧
        ((w.workers.find? ⟨31, by decide⟩).any fun r => ∃ e ∈ w.events.rows,
          e.id = r.eventId ∧ e.lastToken ≠ some r.claimToken) ∧
        (w.step defaultSettings (.conclude ⟨31, by decide⟩ (.refused "CONFLICT")
          ⟨false, none, false⟩)).any fun w' =>
            w'.occurrences.rows.map (·.status) = [.failed]) = true := by decide
    obtain ⟨w, hw, hnext⟩ := (Option.any_eq_true _ _).mp hrun
    obtain ⟨⟨hexecuted, hplanned⟩, hworker, hnext⟩ := of_decide_eq_true hnext
    obtain ⟨r, hr, hsuperseded⟩ := (Option.any_eq_true _ _).mp hworker
    obtain ⟨w', hw', hfailed⟩ := (Option.any_eq_true _ _).mp hnext
    have hsup : w.Superseded r := of_decide_eq_true
      (p := ∃ e ∈ w.events.rows, e.id = r.eventId ∧ e.lastToken ≠ some r.claimToken) hsuperseded
    exact ⟨w, w', r, hw, hw', hr, hsup, hexecuted, hplanned, of_decide_eq_true hfailed⟩

end World

end McpFlow.Planner
