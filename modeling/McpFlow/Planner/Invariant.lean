import McpFlow.Planner.Effects

/-!
# The invariant of the planners

At most one event per occurrence; an Execution only for a published event; a claim only on an
unpublished one, under the token of the last claim. A session whose row is out of date has a lease
that is over: no look at the clock finds it valid again.
-/

namespace McpFlow.Planner

namespace World

variable {s : Settings} {w w' : World} {r : Worker} {e : PlanEvent}

/-- The facts about one event. -/
structure EventInv (s : Settings) (w : World) (e : PlanEvent) : Prop where
  executed : e.occurrenceId ∈ w.executions → e.publishedAt ≠ none
  attempts : e.publishAttemptCount ≤ s.maxAttempts
  claim : ∀ c, e.claim = some c → e.publishedAt = none ∧ e.lastToken = some c.claimToken
  lastToken : ∀ t, e.lastToken = some t → t ∈ w.tokens

/-- What a planning session knows of the event: the stored claim, or an expired one. -/
def SessionInv (w : World) (r : Worker) : Prop :=
  ∀ row, r.stage = .planning row → ∀ e ∈ w.events, e.id = r.eventId →
    ∃ c, SessionRow r e row c ∧ (e.claim = some c ∨ c.leaseExpiresAt ≤ w.clock)

/-- The invariant. -/
structure Inv (s : Settings) (w : World) : Prop where
  occurrence : ∀ e ∈ w.events, ∀ f ∈ w.events, e.occurrenceId = f.occurrenceId → e = f
  nodup : w.executions.Nodup
  origin : ∀ o ∈ w.executions, ∃ e ∈ w.events, e.occurrenceId = o
  event : ∀ e ∈ w.events, EventInv s w e
  token : ∀ r ∈ w.workers, r.claimToken ∈ w.tokens
  worked : ∀ r ∈ w.workers, ∃ e ∈ w.events, e.id = r.eventId
  session : ∀ r ∈ w.workers, SessionInv w r

theorem Initial.inv (h : w.Initial) : Inv s w where
  occurrence e he := by simp [Table.mem_def, h.events] at he
  nodup := by simp [h.executions]
  origin o ho := by simp [h.executions] at ho
  event e he := by simp [Table.mem_def, h.events] at he
  token r hr := by simp [Table.mem_def, h.workers] at hr
  worked r hr := by simp [Table.mem_def, h.workers] at hr
  session r hr := by simp [Table.mem_def, h.workers] at hr

/-! ### Rewriting one event -/

theorem EventInv.of_eq (h : EventInv s w e) (hexecutions : w'.executions = w.executions)
    (htokens : w'.tokens = w.tokens) : EventInv s w' e :=
  ⟨fun hmem => h.executed (hexecutions ▸ hmem), h.attempts, h.claim,
    fun t ht => htokens ▸ h.lastToken t ht⟩

theorem EventInv.of_closed {e' : PlanEvent} (h : EventInv s w e) (he' : Closed e e')
    (htokens : w'.tokens = w.tokens) : EventInv s w' e' := by
  refine ⟨fun _ => he'.publishedAt, he'.attempts ▸ h.attempts, fun c hc => ?_, fun t ht => ?_⟩
  · rw [he'.claim] at hc
    cases hc
  · exact htokens ▸ h.lastToken t (he'.lastToken ▸ ht)

theorem EventInv.of_renewed {e' : PlanEvent} (h : EventInv s w e) (hown : Owns r e)
    (he' : Renewed r e e') (hexecutions : w'.executions = w.executions)
    (htokens : w'.tokens = w.tokens) : EventInv s w' e' := by
  refine ⟨fun hmem => ?_, he'.attempts ▸ h.attempts, fun c hc => ?_, fun t ht => ?_⟩
  · exact absurd hown.1 (h.executed (he'.occurrenceId ▸ hexecutions ▸ hmem))
  · obtain ⟨c', hc', hct'⟩ := he'.claim
    obtain ⟨-, c₀, hc₀, hct₀⟩ := hown
    rw [hc'] at hc
    cases hc
    exact ⟨he'.publishedAt, by rw [he'.lastToken, (h.claim c₀ hc₀).2, hct', hct₀]⟩
  · exact htokens ▸ h.lastToken t (he'.lastToken ▸ ht)

/-- Replacing an event by one of the same occurrence keeps occurrences unique. -/
theorem Inv.occurrence_put (h : Inv s w) {e' : PlanEvent} (he : e ∈ w.events)
    (hid : e'.id = e.id) (hoccurrence : e'.occurrenceId = e.occurrenceId) :
    ∀ f ∈ w.events.put e', ∀ g ∈ w.events.put e', f.occurrenceId = g.occurrenceId → f = g := by
  intro f hf g hg hfg
  rcases Table.mem_put hf with rfl | ⟨hf', hfid⟩ <;>
    rcases Table.mem_put hg with rfl | ⟨hg', hgid⟩
  · rfl
  · exact absurd ((h.occurrence e he g hg' (hoccurrence ▸ hfg)).symm ▸ hid.symm) hgid
  · exact absurd ((h.occurrence e he f hf' (hoccurrence ▸ hfg.symm)).symm ▸ hid.symm) hfid
  · exact h.occurrence f hf' g hg' hfg

/-- An Execution keeps the event it comes from. -/
theorem Inv.origin_put (h : Inv s w) {e' : PlanEvent} (he : e ∈ w.events) (hid : e'.id = e.id)
    (hoccurrence : e'.occurrenceId = e.occurrenceId) :
    ∀ o ∈ w.executions, ∃ f ∈ w.events.put e', f.occurrenceId = o := by
  intro o ho
  obtain ⟨f, hf, rfl⟩ := h.origin o ho
  by_cases hfe : f = e
  · subst hfe
    exact ⟨e', Table.mem_put_self he hid.symm, hoccurrence⟩
  · refine ⟨f, Table.mem_put_of_ne hf fun hk => hfe (Table.eq_of_key_eq hf he ?_), rfl⟩
    exact hk.trans hid

/-- A session row does not look at the stage. -/
theorem SessionRow.of_stage {row : PlanEvent} {c : Claim} {stage : Stage}
    (h : SessionRow r e row c) : SessionRow { r with stage := stage } e row c :=
  ⟨h.occurrenceId, h.publishedAt, h.claim, h.workerId, h.claimToken⟩

/-- The session of another worker, over an event whose claim goes to, or stays with, `r`. -/
theorem SessionInv.of_other {events : Table PlanEvent.id} {r' : Worker} {e' : PlanEvent}
    (h : SessionInv w r') (hevents : events = w.events.put e') (he : e ∈ w.events)
    (hid : e'.id = e.id) (hoccurrence : e'.occurrenceId = e.occurrenceId)
    (hclaim : ∀ c, e.claim = some c → c.claimToken = r'.claimToken → c.leaseExpiresAt ≤ w.clock) :
    ∀ row, r'.stage = .planning row → ∀ f ∈ events, f.id = r'.eventId →
      ∃ c, SessionRow r' f row c ∧ (f.claim = some c ∨ c.leaseExpiresAt ≤ w.clock) := by
  intro row hstage f hf hfid
  subst hevents
  rcases Table.mem_put hf with rfl | ⟨hf, -⟩
  · obtain ⟨c, hrow, hcase⟩ := h row hstage e he (hid.symm.trans hfid)
    refine ⟨c, ⟨hrow.occurrenceId.trans hoccurrence.symm, hrow.publishedAt, hrow.claim,
      hrow.workerId, hrow.claimToken⟩, .inr ?_⟩
    rcases hcase with hc | hexpired
    · exact hclaim c hc hrow.claimToken
    · exact hexpired
  · exact h row hstage f hf hfid

/-- The workers after a step on `e` that leaves `e'`, where `r` owned `e`. -/
theorem Inv.session_after (h : Inv s w) {e' : PlanEvent} {workers : Table Worker.claimToken}
    (he : e ∈ w.events) (hid : e'.id = e.id) (hoccurrence : e'.occurrenceId = e.occurrenceId)
    (hown : Owns r e) (heid : e.id = r.eventId)
    (hworkers : WorkersAfter w r e' workers) (hw' : w'.events = w.events.put e')
    (hclock : w'.clock = w.clock) : ∀ r' ∈ workers, SessionInv w' r' := by
  intro r' hr'
  rcases hworkers r' hr' with ⟨hmem, hne⟩ | ⟨stage, rfl, hstage⟩
  · unfold SessionInv
    rw [hclock]
    refine (h.session r' hmem).of_other hw' he hid hoccurrence fun c hc hct => ?_
    obtain ⟨-, c', hc', hct'⟩ := hown
    rw [hc] at hc'
    cases hc'
    exact absurd (hct.symm.trans hct') hne
  · intro row hrow f hf hfid
    rw [hw'] at hf
    have hfe : f = e' := by
      rcases Table.mem_put hf with rfl | ⟨hf, hfk⟩
      · rfl
      · exact absurd (hfid.trans (heid.symm.trans hid.symm)) hfk
    subst hfe
    obtain ⟨c, hsession, hclaim⟩ := hstage row hrow
    exact ⟨c, hsession.of_stage, .inl hclaim⟩

theorem Inv.token_after (h : Inv s w) {e' : PlanEvent} {workers : Table Worker.claimToken}
    (hr : r ∈ w.workers) (hworkers : WorkersAfter w r e' workers) :
    ∀ r' ∈ workers, r'.claimToken ∈ w.tokens := by
  intro r' hr'
  rcases hworkers r' hr' with ⟨hmem, -⟩ | ⟨stage, rfl, -⟩
  · exact h.token r' hmem
  · exact h.token r hr

/-- No event is lost. -/
theorem exists_mem_put {e' : PlanEvent} {id : UUID} (he : e ∈ w.events) (hid : e'.id = e.id)
    (h : ∃ f ∈ w.events, f.id = id) : ∃ f ∈ w.events.put e', f.id = id := by
  obtain ⟨f, hf, rfl⟩ := h
  by_cases hfe : f.id = e'.id
  · exact ⟨e', Table.mem_put_self he hid.symm, hfe.symm⟩
  · exact ⟨f, Table.mem_put_of_ne hf hfe, rfl⟩

theorem Inv.worked_after (h : Inv s w) {e' : PlanEvent} {workers : Table Worker.claimToken}
    (hr : r ∈ w.workers) (hworkers : WorkersAfter w r e' workers) :
    ∀ r' ∈ workers, ∃ f ∈ w.events, f.id = r'.eventId := by
  intro r' hr'
  rcases hworkers r' hr' with ⟨hmem, -⟩ | ⟨stage, rfl, -⟩
  · exact h.worked r' hmem
  · exact h.worked r hr

/-- A step of a worker keeps the invariant. -/
theorem Inv.effect (h : Inv s w) (hr : r ∈ w.workers) (he : e ∈ w.events) (heid : e.id = r.eventId)
    (heffect : Effect w r e w') : Inv s w' := by
  cases heffect with
  | idle hworkers =>
    refine ⟨h.occurrence, h.nodup, h.origin, fun f hf => (h.event f hf).of_eq rfl rfl,
      h.token_after hr hworkers, h.worked_after hr hworkers, fun r' hr' => ?_⟩
    rcases hworkers r' hr' with ⟨hmem, -⟩ | ⟨stage, rfl, hstage⟩
    · exact h.session r' hmem
    · intro row hrow f hf hfid
      have hfe : f = e := Table.eq_of_key_eq hf he (hfid.trans heid.symm)
      subst hfe
      obtain ⟨c, hsession, hclaim⟩ := hstage row hrow
      exact ⟨c, hsession.of_stage, .inl hclaim⟩
  | @renewed e' workers hown he' hworkers =>
    refine ⟨h.occurrence_put he he'.id he'.occurrenceId, h.nodup,
      h.origin_put he he'.id he'.occurrenceId, ?_, h.token_after hr hworkers,
      fun r' hr' => exists_mem_put he he'.id (h.worked_after hr hworkers r' hr'),
      h.session_after he he'.id he'.occurrenceId hown heid hworkers rfl rfl⟩
    exact Table.forall_mem_put ((h.event e he).of_renewed hown he' rfl rfl)
      fun f hf _ => (h.event f hf).of_eq rfl rfl
  | @closed e' occurrences workers hown he' hoccurrences hworkers =>
    refine ⟨h.occurrence_put he he'.id he'.occurrenceId, h.nodup,
      h.origin_put he he'.id he'.occurrenceId, ?_, h.token_after hr hworkers,
      fun r' hr' => exists_mem_put he he'.id (h.worked_after hr hworkers r' hr'),
      h.session_after he he'.id he'.occurrenceId hown heid hworkers rfl rfl⟩
    exact Table.forall_mem_put ((h.event e he).of_closed he' rfl)
      fun f hf _ => (h.event f hf).of_eq rfl rfl
  | @executed e' workers hown he' hnew hworkers =>
    refine ⟨h.occurrence_put he he'.id he'.occurrenceId, ?_, ?_, ?_, h.token_after hr hworkers,
      fun r' hr' => exists_mem_put he he'.id (h.worked_after hr hworkers r' hr'),
      h.session_after he he'.id he'.occurrenceId hown heid hworkers rfl rfl⟩
    · exact List.nodup_append.mpr ⟨h.nodup, List.nodup_singleton _, fun a ha b hb => by
        rw [List.mem_singleton.mp hb]
        exact fun hab => hnew (hab ▸ ha)⟩
    · intro o ho
      rcases List.mem_append.mp ho with ho | ho
      · exact h.origin_put he he'.id he'.occurrenceId o ho
      · rw [List.mem_singleton.mp ho]
        exact ⟨e', Table.mem_put_self he he'.id.symm, he'.occurrenceId⟩
    · refine Table.forall_mem_put ((h.event e he).of_closed he' rfl) fun f hf hfk => ?_
      refine ⟨fun hmem => ?_, (h.event f hf).attempts, (h.event f hf).claim,
        (h.event f hf).lastToken⟩
      rcases List.mem_append.mp hmem with hmem | hmem
      · exact (h.event f hf).executed hmem
      · -- The occurrence of the Execution has only this event.
        have hfe := h.occurrence f hf e he (List.mem_singleton.mp hmem)
        exact absurd (hfe ▸ he'.id.symm) hfk

end World

end McpFlow.Planner
