import McpFlow.Planner.Model

/-!
# What a planner step can do

A worker that no longer owns its event does nothing to the rows; an owner renews its claim, closes
the event, or closes it with an Execution. `effect_of_prepare` and `effect_of_conclude` reduce the
transactions of a worker to these four, and `claimLoop_induction` the claim transaction to its
single rows.
-/

namespace McpFlow.Planner

namespace World

variable {s : Settings} {w w' : World} {r : Worker} {e row : PlanEvent}

/-! ### Ownership -/

/-- The stored claim of the event is the worker's. -/
def Owns (r : Worker) (e : PlanEvent) : Prop :=
  e.publishedAt = none ∧ ∃ c, e.claim = some c ∧ c.claimToken = r.claimToken

/-- The session's row is unpublished and carries a claim of the worker, until `c` expires. -/
structure SessionRow (r : Worker) (e row : PlanEvent) (c : Claim) : Prop where
  occurrenceId : row.occurrenceId = e.occurrenceId
  publishedAt : row.publishedAt = none
  claim : row.claim = some c
  workerId : c.workerId = r.workerId
  claimToken : c.claimToken = r.claimToken

/-- The event is renewed: it keeps its identity, its attempts and an own claim. -/
structure Renewed (r : Worker) (e e' : PlanEvent) : Prop where
  id : e'.id = e.id
  occurrenceId : e'.occurrenceId = e.occurrenceId
  attempts : e'.publishAttemptCount = e.publishAttemptCount
  lastToken : e'.lastToken = e.lastToken
  publishedAt : e'.publishedAt = none
  claim : ∃ c, e'.claim = some c ∧ c.claimToken = r.claimToken

/-- The event is closed: it is published and has no claim. -/
structure Closed (e e' : PlanEvent) : Prop where
  id : e'.id = e.id
  occurrenceId : e'.occurrenceId = e.occurrenceId
  attempts : e'.publishAttemptCount = e.publishAttemptCount
  lastToken : e'.lastToken = e.lastToken
  publishedAt : e'.publishedAt ≠ none
  claim : e'.claim = none

/-- The other workers stay, and `r` is gone or carries on; with a row, it is the stored one. -/
def WorkersAfter (w : World) (r : Worker) (e : PlanEvent) (workers : Table Worker.claimToken) :
    Prop :=
  ∀ r' ∈ workers, (r' ∈ w.workers ∧ r'.claimToken ≠ r.claimToken) ∨
    ∃ stage, r' = { r with stage := stage } ∧
      ∀ row, stage = .planning row → ∃ c, SessionRow r e row c ∧ e.claim = some c

/-- Occurrences but that of `e` are as they were. -/
def OccurrencesAfter (w : World) (e : PlanEvent) (occurrences : Table Occurrence.id) : Prop :=
  ∀ o ∈ occurrences, o ∈ w.occurrences ∨ o.id = e.occurrenceId

/-- What a step of worker `r` on its event `e` can do. -/
inductive Effect (w : World) (r : Worker) (e : PlanEvent) : World → Prop where
  | idle {workers : Table Worker.claimToken} (hworkers : WorkersAfter w r e workers) :
    Effect w r e { w with workers := workers }
  | renewed {e' : PlanEvent} {workers : Table Worker.claimToken} (hown : Owns r e)
    (he' : Renewed r e e') (hworkers : WorkersAfter w r e' workers) :
    Effect w r e { w with events := w.events.put e', workers := workers }
  | closed {e' : PlanEvent} {occurrences : Table Occurrence.id}
    {workers : Table Worker.claimToken} (hown : Owns r e) (he' : Closed e e')
    (hoccurrences : OccurrencesAfter w e occurrences) (hworkers : WorkersAfter w r e' workers) :
    Effect w r e { w with
      events := w.events.put e', occurrences := occurrences, workers := workers }
  | executed {e' : PlanEvent} {workers : Table Worker.claimToken} (hown : Owns r e)
    (he' : Closed e e') (hnew : e.occurrenceId ∉ w.executions)
    (hworkers : WorkersAfter w r e' workers) :
    Effect w r e { w with
      events := w.events.put e'
      executions := w.executions ++ [e.occurrenceId]
      workers := workers }

theorem workersAfter_erase (w : World) (r : Worker) (e : PlanEvent) :
    WorkersAfter w r e (w.workers.erase r.claimToken) :=
  fun _ hr' => .inl (Table.mem_erase.mp hr')

theorem workersAfter_put {stage : Stage}
    (hstage : ∀ row, stage = .planning row → ∃ c, SessionRow r e row c ∧ e.claim = some c) :
    WorkersAfter w r e (w.workers.put { r with stage := stage }) := by
  intro r' hr'
  rcases Table.mem_put hr' with rfl | hother
  · exact .inr ⟨stage, rfl, hstage⟩
  · exact .inl hother

/-- A worker that only leaves or fails. -/
theorem Effect.dropWorker : Effect w r e (w.dropWorker r) := .idle (workersAfter_erase w r e)

theorem Effect.setStage_failed : Effect w r e (w.setStage r .failed) :=
  .idle (workersAfter_put fun _ h => by cases h)

/-! ### The transactions of an owner -/

theorem renewed_commitRow {c : Claim} (hown : Owns r e) (hrow : SessionRow r e row c) :
    Renewed r e { e with
      agentRequestId := row.agentRequestId
      claim := row.claim
      lastAttemptAt := row.lastAttemptAt } :=
  ⟨rfl, rfl, rfl, rfl, hown.1, c, hrow.claim, hrow.claimToken⟩

theorem Effect.commitRow {c : Claim} (hown : Owns r e) (hrow : SessionRow r e row c) :
    Effect w r e ((w.commitRow e row).dropWorker r) :=
  .renewed hown (renewed_commitRow hown hrow) (workersAfter_erase w r _)

theorem closed_publish (e row : PlanEvent) (now : Time) (code : Option String) :
    Closed e { e.markPublished now code with agentRequestId := row.agentRequestId } :=
  ⟨rfl, rfl, rfl, rfl, by simp [PlanEvent.markPublished], rfl⟩

theorem Effect.publish (hown : Owns r e) (now : Time) :
    Effect w r e ((w.publish e row now).dropWorker r) :=
  .closed hown (closed_publish e row now none) (fun _ ho => .inl ho) (workersAfter_erase w r _)

/-- A failed occurrence is the only one that changes. -/
theorem failOccurrence_eq (w : World) (id : UUID) (seen : Option OccurrenceStatus)
    (reason : String) (now : Time) :
    ∃ occurrences, w.failOccurrence id seen reason now = { w with occurrences := occurrences } ∧
      ∀ o ∈ occurrences, o ∈ w.occurrences ∨ o.id = id := by
  unfold failOccurrence
  split
  · exact ⟨w.occurrences, rfl, fun _ ho => .inl ho⟩
  · next o ho =>
    refine ⟨_, rfl, fun o' ho' => ?_⟩
    rcases Table.mem_put ho' with rfl | ⟨hmem, -⟩
    · refine .inr ?_
      have hid := Table.key_of_find? ho
      unfold Occurrence.fail
      split <;> exact hid
    · exact .inl hmem

theorem Effect.ownedFailAndPublish {reason : String} {lost : World}
    (hoccurrence : row.occurrenceId = e.occurrenceId) (hown : Owns r e) (hlost : Effect w r e lost) :
    Effect w r e (w.ownedFailAndPublish r e row reason lost) := by
  unfold World.ownedFailAndPublish
  split
  · obtain ⟨occurrences, heq, hoccurrences⟩ := failOccurrence_eq w row.occurrenceId
      (some .planned) reason r.startedAt
    rw [heq]
    refine .closed hown (closed_publish e row r.startedAt none) (fun o ho => ?_)
      (workersAfter_erase w r _)
    rw [← hoccurrence]
    exact hoccurrences o ho
  · exact hlost

theorem sessionRow_renew {now : Time} {leaseSeconds : ℕ}
    (hoccurrence : row.occurrenceId = e.occurrenceId) (hpublished : row.publishedAt = none) :
    SessionRow r e (row.renew r.workerId r.claimToken now leaseSeconds)
      ⟨r.workerId, r.claimToken, now + max 1 leaseSeconds * 1000000⟩ :=
  ⟨hoccurrence, hpublished, rfl, rfl, rfl⟩

theorem Effect.materialize {env : ConcludeEnv} {c : Claim} (hown : Owns r e)
    (hrow : SessionRow r e row c) (h : w.materialize r e row env = some w') : Effect w r e w' := by
  have hlost : Effect w r e ((w.commitRow e row).dropWorker r) := .commitRow hown hrow
  unfold World.materialize at h
  dsimp only at h
  split at h
  · cases h
  split at h
  · cases h
    exact .ownedFailAndPublish hrow.occurrenceId hown hlost
  split at h
  · cases h
    exact .publish hown r.startedAt
  next hnew =>
  split at h
  · cases h
    exact hlost
  · cases h
    rw [hrow.occurrenceId] at hnew ⊢
    exact .executed hown (closed_publish e row r.startedAt none) hnew (workersAfter_erase w r _)

/-- The end of the processing: an owner has the effect of an owner, whatever its session shows. -/
theorem Effect.concludeTx {result : PipelineResult} {env : ConcludeEnv} {lost : World}
    (hoccurrence : row.occurrenceId = e.occurrenceId) (hpublished : row.publishedAt = none)
    (hlost : Effect w r e lost)
    (hrefused : ∀ code, result = .refused code → Owns r e)
    (hfinished : row.requireOwned r.workerId r.claimToken w.clock = true → Owns r e)
    (h : w.concludeTx s r e row result env lost = some w') : Effect w r e w' := by
  unfold World.concludeTx at h
  split at h
  · next code =>
    cases h
    exact .ownedFailAndPublish hoccurrence (hrefused code rfl) hlost
  · cases h
  · split at h
    · next howned =>
      exact .materialize (hfinished howned) (sessionRow_renew hoccurrence hpublished) h
    · cases h
      exact hlost

theorem sessionRow_requestRow (s : Settings) (w : World) {c : Claim} (newRequestId : UUID)
    (hrow : SessionRow r e row c) :
    ∃ c', SessionRow r e (w.requestRow s r row newRequestId) c' := by
  unfold World.requestRow
  split
  · exact ⟨_, hrow.occurrenceId, hrow.publishedAt, rfl, rfl, rfl⟩
  · exact ⟨c, hrow⟩

/-- The first transaction of an owner. -/
theorem Effect.prepareTx {env : PrepareEnv} {plans : Option (PipelineResult × ConcludeEnv)}
    (hown : Owns r e) (h : w.prepareTx s r e env plans = some w') : Effect w r e w' := by
  have hrow : SessionRow r e (e.renew r.workerId r.claimToken r.startedAt s.leaseSeconds) _ :=
    sessionRow_renew rfl hown.1
  have hlost := Effect.commitRow (w := w) hown hrow
  unfold World.prepareTx at h
  dsimp only at h
  split at h
  · cases h
  split at h
  · cases h
    exact .publish hown r.startedAt
  split at h
  · cases h
    exact .publish hown r.startedAt
  split at h
  · cases h
    exact .publish hown r.startedAt
  split at h
  · cases h
    exact .ownedFailAndPublish rfl hown hlost
  split at h
  · cases h
    exact .ownedFailAndPublish rfl hown hlost
  split at h
  · cases h
    exact hlost
  obtain ⟨c, hrequest⟩ := sessionRow_requestRow s w env.newRequestId hrow
  split at h
  · cases h
    refine .renewed hown (renewed_commitRow hown hrequest) (workersAfter_put fun row' hrow' => ?_)
    cases hrow'
    exact ⟨c, ⟨hrequest.occurrenceId, hrequest.publishedAt, hrequest.claim, hrequest.workerId,
      hrequest.claimToken⟩, hrequest.claim⟩
  · exact .concludeTx hrequest.occurrenceId hrequest.publishedAt (.commitRow hown hrequest)
      (fun _ _ => hown) (fun _ => hown) h

/-- A rollback is no effect. -/
theorem Effect.orFailed {tx : Option World} (h : ∀ w', tx = some w' → Effect w r e w') :
    Effect w r e (w.orFailed r tx) := by
  cases tx with
  | none => exact .setStage_failed
  | some w' => exact h w' rfl

end World

end McpFlow.Planner
