import McpFlow.Planner.Invariant

/-!
# The claim transaction

`claim_next` locks a few rows and goes through them: a leased row is skipped, an exhausted one is
published, and the first other one is claimed. `LoopSpec` is what the whole loop guarantees.
-/

namespace McpFlow.Planner

namespace World

variable {s : Settings} {w w' : World} {e : PlanEvent} {workerId claimToken : UUID}

/-! ### One row -/

theorem lease_over (h : e.hasActiveLease w.clock = false) (c : Claim) (hc : e.claim = some c) :
    c.leaseExpiresAt ≤ w.clock := by
  simpa [PlanEvent.hasActiveLease, hc] using h

theorem closed_markPublished (e : PlanEvent) (now : Time) (code : Option String) :
    Closed e (e.markPublished now code) :=
  ⟨rfl, rfl, rfl, rfl, by simp [PlanEvent.markPublished], rfl⟩

/-- An exhausted event is published, and only its occurrence changes. -/
theorem exhaustAttempts_eq (w : World) (e : PlanEvent) :
    ∃ e' occurrences, Closed e e' ∧ OccurrencesAfter w e occurrences ∧
      w.exhaustAttempts e = { w with
        events := w.events.put e', occurrences := occurrences } := by
  obtain ⟨occurrences, heq, hoccurrences⟩ := failOccurrence_eq w e.occurrenceId none
    "TARGET_PRECONDITION_FAILED" w.clock
  refine ⟨_, occurrences, closed_markPublished e w.clock (some "PLAN_ATTEMPTS_EXHAUSTED"),
    hoccurrences, ?_⟩
  rw [exhaustAttempts, heq]
  rfl

/-- Publishing an event without a lease keeps the invariant. -/
theorem Inv.close (h : Inv s w) {e' : PlanEvent} (he : e ∈ w.events)
    (hlease : e.hasActiveLease w.clock = false) (he' : Closed e e')
    (occurrences : Table Occurrence.id) :
    Inv s { w with events := w.events.put e', occurrences := occurrences } := by
  refine ⟨h.occurrence_put he he'.id he'.occurrenceId, h.nodup,
    h.origin_put he he'.id he'.occurrenceId, ?_, h.token,
    fun r hr => exists_mem_put he he'.id (h.worked r hr), fun r hr => ?_⟩
  · exact Table.forall_mem_put ((h.event e he).of_closed he' rfl)
      fun f hf _ => (h.event f hf).of_eq rfl rfl
  · exact (h.session r hr).of_other rfl he he'.id he'.occurrenceId
      fun c hc _ => lease_over hlease c hc

/-- A claim keeps the invariant. -/
theorem Inv.claim (h : Inv s w) (he : e ∈ w.events) (hpublished : e.publishedAt = none)
    (hlease : e.hasActiveLease w.clock = false) (hattempts : e.publishAttemptCount < s.maxAttempts)
    (htoken : claimToken ∈ w.tokens) (r : Worker) (hr : r.claimToken = claimToken)
    (hid : r.eventId = e.id) (hstage : r.stage = .claimed) : Inv s { w.putEvent (claimedRow s w e workerId claimToken) with
      workers := (w.workers.insert? r).getD w.workers } := by
  have hworkers : ∀ r' ∈ (w.workers.insert? r).getD w.workers, r' ∈ w.workers ∨ r' = r := by
    intro r' hr'
    cases hi : w.workers.insert? r with
    | none =>
      rw [hi] at hr'
      exact .inl hr'
    | some workers =>
      rw [hi] at hr'
      exact (Table.mem_of_insert? hi).mp hr'
  refine ⟨h.occurrence_put he rfl rfl, h.nodup, h.origin_put he rfl rfl, ?_, fun r' hr' => ?_,
    fun r' hr' => exists_mem_put he rfl ?_, fun r' hr' => ?_⟩
  · refine Table.forall_mem_put ⟨fun hmem => ?_, hattempts, fun c hc => ?_, fun t ht => ?_⟩
      fun f hf _ => (h.event f hf).of_eq rfl rfl
    · exact absurd hpublished ((h.event e he).executed hmem)
    · cases hc
      exact ⟨hpublished, rfl⟩
    · cases ht
      exact htoken
  · rcases hworkers r' hr' with hmem | rfl
    · exact h.token r' hmem
    · exact hr ▸ htoken
  · rcases hworkers r' hr' with hmem | rfl
    · exact h.worked r' hmem
    · exact ⟨e, he, hid.symm⟩
  · rcases hworkers r' hr' with hmem | rfl
    · exact (h.session r' hmem).of_other rfl he rfl rfl fun c hc _ => lease_over hlease c hc
    · intro row hrow
      rw [hstage] at hrow
      cases hrow

/-! ### The loop -/

/-- Every event is still there with the claims it had, or with one more. -/
def Counted (claimToken : UUID) (w w' : World) : Prop :=
  ∀ f ∈ w.events, ∃ f' ∈ w'.events, f'.id = f.id ∧
    ((f'.publishAttemptCount = f.publishAttemptCount ∧ f'.lastToken = f.lastToken) ∨
      (f'.publishAttemptCount = f.publishAttemptCount + 1 ∧ f'.lastToken = some claimToken))

/-- A published event stays as it is. -/
def PublishedStay (w w' : World) : Prop :=
  ∀ f ∈ w.events, f.publishedAt ≠ none → f ∈ w'.events

/-- An occurrence that fails has no Execution. -/
def FailsWithout (w w' : World) : Prop :=
  ∀ o ∈ w'.occurrences, o.status = .failed →
    (∃ o₀ ∈ w.occurrences, o₀.id = o.id ∧ o₀.status = .failed) ∨ o.id ∉ w'.executions

/-- What the loop over the locked rows `es` guarantees. -/
structure LoopSpec (s : Settings) (claimToken : UUID) (es : List PlanEvent) (w w' : World) :
    Prop where
  inv : Inv s w'
  executions : w'.executions = w.executions
  published : PublishedStay w w'
  failed : FailsWithout w w'
  counted : Counted claimToken w w'
  claims : (∃ e ∈ es, w.claimable s e = true) → ∃ r ∈ w'.workers, r.claimToken = claimToken
  drained : (∀ r ∈ w'.workers, r.claimToken ≠ claimToken) → ∀ e ∈ es,
    e.hasActiveLease w.clock = false → ∃ e' ∈ w'.events, e'.id = e.id ∧ e'.publishedAt ≠ none

theorem failsWithout_refl (w : World) : FailsWithout w w := fun o ho hfailed => .inl ⟨o, ho, rfl, hfailed⟩

theorem counted_refl (claimToken : UUID) (w : World) : Counted claimToken w w :=
  fun f hf => ⟨f, hf, rfl, .inl ⟨rfl, rfl⟩⟩

/-- The rewritten event keeps its count, and the others are left alone. -/
theorem counted_put {e' : PlanEvent} (hw' : w'.events = w.events.put e') (he : e ∈ w.events)
    (hid : e'.id = e.id)
    (hcount : (e'.publishAttemptCount = e.publishAttemptCount ∧ e'.lastToken = e.lastToken) ∨
      (e'.publishAttemptCount = e.publishAttemptCount + 1 ∧ e'.lastToken = some claimToken)) :
    Counted claimToken w w' := by
  intro f hf
  rw [hw']
  by_cases hfe : f.id = e.id
  · have hfe : f = e := Table.eq_of_key_eq hf he hfe
    subst hfe
    exact ⟨e', Table.mem_put_self hf hid.symm, hid, hcount⟩
  · exact ⟨f, Table.mem_put_of_ne hf fun h => hfe (h.trans hid), rfl, .inl ⟨rfl, rfl⟩⟩

/-- A published event is not the rewritten one. -/
theorem publishedStay_put {e' : PlanEvent} (hw' : w'.events = w.events.put e') (he : e ∈ w.events)
    (hpublished : e.publishedAt = none) (hid : e'.id = e.id) : PublishedStay w w' := by
  intro f hf hfpublished
  rw [hw']
  refine Table.mem_put_of_ne hf fun h => hfpublished ?_
  rw [Table.eq_of_key_eq hf he (h.trans hid)]
  exact hpublished

/-- Only the occurrence of an unpublished event changes, and it has no Execution. -/
theorem Inv.failsWithout (h : Inv s w) (he : e ∈ w.events) (hpublished : e.publishedAt = none)
    (hoccurrences : OccurrencesAfter w e w'.occurrences)
    (hexecutions : w'.executions = w.executions) : FailsWithout w w' := by
  intro o ho hfailed
  rcases hoccurrences o ho with hmem | hid
  · exact .inl ⟨o, hmem, rfl, hfailed⟩
  · right
    rw [hid, hexecutions]
    exact fun hmem => (h.event e he).executed hmem hpublished

/-- The first row that is neither leased nor exhausted ends the loop. -/
theorem LoopSpec.claim {es : List PlanEvent} (h : Inv s w) (he : e ∈ w.events)
    (hpublished : e.publishedAt = none) (hlease : e.hasActiveLease w.clock = false)
    (hattempts : e.publishAttemptCount < s.maxAttempts) (htoken : claimToken ∈ w.tokens)
    (hfresh : ∀ r ∈ w.workers, r.claimToken ≠ claimToken) :
    LoopSpec s claimToken es w { w.putEvent (claimedRow s w e workerId claimToken) with
      workers := (w.workers.insert? ⟨claimToken, workerId, e.id, w.clock, .claimed⟩).getD
        w.workers } := by
  have hworker : ∃ r ∈ (w.workers.insert? ⟨claimToken, workerId, e.id, w.clock, .claimed⟩).getD
      w.workers, r.claimToken = claimToken := by
    obtain ⟨workers, hi⟩ := Table.exists_insert? (t := w.workers)
      (r := ⟨claimToken, workerId, e.id, w.clock, .claimed⟩) hfresh
    rw [hi]
    exact ⟨_, (Table.mem_of_insert? hi).mpr (.inr rfl), rfl⟩
  refine ⟨h.claim he hpublished hlease hattempts htoken _ rfl rfl rfl, rfl,
    publishedStay_put rfl he hpublished rfl, failsWithout_refl w, ?_, fun _ => hworker, ?_⟩
  · exact counted_put rfl he rfl (.inr ⟨rfl, rfl⟩)
  · intro hnone
    obtain ⟨r, hr, hrt⟩ := hworker
    exact absurd hrt (hnone r hr)

/-- An exhausted row is published before the rest of the loop. -/
theorem LoopSpec.exhaust {es : List PlanEvent} {w₁ : World} {e' : PlanEvent}
    (hspec : LoopSpec s claimToken es w₁ w') (h : Inv s w) (he : e ∈ w.events) (hpublished : e.publishedAt = none)
    (hattempts : s.maxAttempts ≤ e.publishAttemptCount) (he' : Closed e e')
    (hoccurrences : OccurrencesAfter w e w₁.occurrences) (hevents : w₁.events = w.events.put e')
    (hexecutions : w₁.executions = w.executions) (hclock : w₁.clock = w.clock) :
    LoopSpec s claimToken (e :: es) w w' := by
  have hstay : PublishedStay w w₁ := publishedStay_put hevents he hpublished he'.id
  have hself : e' ∈ w'.events :=
    hspec.published e' (hevents ▸ Table.mem_put_self he he'.id.symm) he'.publishedAt
  refine ⟨hspec.inv, hspec.executions.trans hexecutions,
    fun f hf hfp => hspec.published f (hstay f hf hfp) hfp, fun o ho hfailed => ?_, fun f hf => ?_,
    fun ⟨f, hf, hclaimable⟩ => ?_, fun hnone f hf hlease => ?_⟩
  · rcases hspec.failed o ho hfailed with ⟨o₁, ho₁, hid, hfailed₁⟩ | hnone
    · rcases h.failsWithout he hpublished hoccurrences hexecutions o₁ ho₁ hfailed₁ with
        ⟨o₀, ho₀, hid₀, hfailed₀⟩ | hnone
      · exact .inl ⟨o₀, ho₀, hid₀.trans hid, hfailed₀⟩
      · exact .inr (by rwa [hspec.executions, ← hid])
    · exact .inr hnone
  · -- The published row is never counted again.
    by_cases hfe : f.id = e.id
    · have hfe : f = e := Table.eq_of_key_eq hf he hfe
      subst hfe
      exact ⟨e', hself, he'.id, .inl ⟨he'.attempts, he'.lastToken⟩⟩
    · exact hspec.counted f
        (hevents ▸ Table.mem_put_of_ne hf fun hid => hfe (hid.trans he'.id))
  · rcases List.mem_cons.mp hf with rfl | hf
    · have hnot : ¬f.publishAttemptCount < s.maxAttempts := not_lt.mpr hattempts
      simp [claimable, hnot] at hclaimable
    · refine hspec.claims ⟨f, hf, ?_⟩
      rwa [claimable, hclock]
  · rcases List.mem_cons.mp hf with rfl | hf
    · exact ⟨e', hself, he'.id, he'.publishedAt⟩
    · exact hspec.drained hnone f hf (hclock ▸ hlease)

/-- A leased row is skipped. -/
theorem LoopSpec.skip {es : List PlanEvent} (hlease : e.hasActiveLease w.clock = true)
    (hspec : LoopSpec s claimToken es w w') : LoopSpec s claimToken (e :: es) w w' := by
  refine ⟨hspec.inv, hspec.executions, hspec.published, hspec.failed, hspec.counted,
    fun ⟨f, hf, hclaimable⟩ => ?_, fun hnone f hf hfree => ?_⟩
  · rcases List.mem_cons.mp hf with rfl | hf
    · simp [claimable, hlease] at hclaimable
    · exact hspec.claims ⟨f, hf, hclaimable⟩
  · rcases List.mem_cons.mp hf with rfl | hf
    · rw [hlease] at hfree
      cases hfree
    · exact hspec.drained hnone f hf hfree

/-- The loop keeps its promises row by row. -/
theorem claimLoop_spec {es : List PlanEvent} (h : Inv s w) (htoken : claimToken ∈ w.tokens)
    (hfresh : ∀ r ∈ w.workers, r.claimToken ≠ claimToken)
    (hes : ∀ e ∈ es, e ∈ w.events ∧ e.publishedAt = none) (hnodup : (es.map (·.id)).Nodup) :
    LoopSpec s claimToken es w (claimLoop s workerId claimToken es w) := by
  induction es generalizing w with
  | nil =>
    exact ⟨h, rfl, fun f hf _ => hf, failsWithout_refl w, counted_refl claimToken w,
      fun ⟨e, he, _⟩ => (by cases he), fun _ e he => (by cases he)⟩
  | cons e es ih =>
    obtain ⟨he, hpublished⟩ := hes e List.mem_cons_self
    have hrest : ∀ f ∈ es, f ∈ w.events ∧ f.publishedAt = none := fun f hf =>
      hes f (List.mem_cons_of_mem e hf)
    rw [List.map_cons, List.nodup_cons] at hnodup
    rw [claimLoop]
    by_cases hlease : e.hasActiveLease w.clock = true
    · rw [if_pos hlease]
      exact (ih h htoken hfresh hrest hnodup.2).skip hlease
    rw [if_neg hlease]
    rw [Bool.not_eq_true] at hlease
    by_cases hattempts : s.maxAttempts ≤ e.publishAttemptCount
    · rw [if_pos hattempts]
      obtain ⟨e', occurrences, he', hoccurrences, heq⟩ := exhaustAttempts_eq w e
      rw [heq]
      refine (ih (h.close he hlease he' occurrences) htoken hfresh (fun f hf => ?_)
        hnodup.2).exhaust h he hpublished hattempts he' hoccurrences rfl rfl rfl
      refine ⟨Table.mem_put_of_ne (hrest f hf).1 fun hid => hnodup.1 ?_, (hrest f hf).2⟩
      exact List.mem_map.mpr ⟨f, hf, hid.trans he'.id⟩
    · rw [if_neg hattempts]
      exact .claim h he hpublished hlease (by omega) htoken hfresh

end World

end McpFlow.Planner
