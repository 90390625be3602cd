import McpFlow.Scheduler.Exclusion

/-!
# What an occurrence says about its Execution

The status of an occurrence follows the status of its Execution at a distance: it never runs ahead
of the projection, and once it has ended it is the projection. Staging and claim move both at once,
a terminal Execution stays terminal, and so each move of the occurrence is a move forward.
-/

namespace McpFlow.Scheduler

open Occurrences
open Planner (OccurrenceStatus)

variable {s : Schedule} {occs occs₁ occs₂ occs₃ : Occurrences} {now before t : Instant}
  {env : FireEnv} {trigger : TriggerType} {r r' x : ScheduleOccurrence} {p : Spec}
  {c : Calendar} {cfg : RuntimeConfig} {w w' w'' : World}

/-! ### The lifecycle -/

/-- The place of a status in the lifecycle; the three ends share the last one. -/
def lifecycle : OccurrenceStatus → ℕ
  | .planned => 0
  | .enqueued => 1
  | .running => 2
  | .completed | .failed | .skipped => 3

/-- The row stays in its place of the lifecycle or moves forward. -/
def ScheduleOccurrence.Forward (r r' : ScheduleOccurrence) : Prop :=
  r'.scheduledFor = r.scheduledFor ∧
    (r'.status = r.status ∨ lifecycle r.status < lifecycle r'.status)

theorem lifecycle_eq_zero {status : OccurrenceStatus} :
    lifecycle status = 0 ↔ status = .planned := by
  cases status <;> simp [lifecycle]

/-- Before the ends a place has one status. -/
theorem eq_of_lifecycle_eq {a b : OccurrenceStatus} (h : lifecycle a = lifecycle b)
    (hlt : lifecycle a < 3) : a = b := by
  revert h hlt
  cases a <;> cases b <;> decide

/-- An open row is not at the end of the lifecycle. -/
theorem lifecycle_lt_of_isOpen (h : r.isOpen = true) : lifecycle r.status < 3 := by
  simp only [ScheduleOccurrence.isOpen, decide_eq_true_eq] at h
  rcases h with h | h | h <;> rw [h] <;> decide

theorem isOpen_eq_false_iff : r.isOpen = false ↔
    r.status = .completed ∨ r.status = .failed ∨ r.status = .skipped := by
  rw [ScheduleOccurrence.isOpen]
  cases r.status <;> decide

theorem ScheduleOccurrence.Forward.refl (r : ScheduleOccurrence) : r.Forward r := ⟨rfl, .inl rfl⟩

theorem ScheduleOccurrence.Forward.trans (h : r.Forward r') (h' : r'.Forward x) : r.Forward x := by
  refine ⟨h'.1.trans h.1, ?_⟩
  rcases h.2 with heq | hlt
  · rw [← heq]
    exact h'.2
  · rcases h'.2 with heq' | hlt'
    · rw [heq']
      exact .inr hlt
    · exact .inr (hlt.trans hlt')

/-- Every status is forward of PLANNED. -/
theorem ScheduleOccurrence.forward_of_planned (hkey : r'.scheduledFor = r.scheduledFor)
    (h : r.status = .planned) : r.Forward r' := by
  refine ⟨hkey, ?_⟩
  rw [h]
  by_cases hstatus : r'.status = .planned
  · exact .inl hstatus
  · exact .inr (Nat.pos_of_ne_zero fun h0 => hstatus (lifecycle_eq_zero.mp h0))

theorem lifecycle_le_of_forward (h : r.Forward r') : lifecycle r.status ≤ lifecycle r'.status := by
  rcases h.2 with heq | hlt
  · rw [heq]
  · exact hlt.le

/-! ### Behind the Execution -/

/-- A row that has left PLANNED other than to an early end has an Execution, whose projection it
does not overtake; a row that has ended with it is its projection. -/
structure ScheduleOccurrence.Tracks (r : ScheduleOccurrence) : Prop where
  started : r.status = .enqueued ∨ r.status = .running ∨ r.status = .completed →
    r.execution.isSome = true
  behind : ∀ st, r.execution = some st → r.status ≠ .skipped →
    lifecycle r.status ≤ lifecycle (projectOccurrenceStatus st)
  ended : ∀ st, r.execution = some st → r.status = .completed ∨ r.status = .failed →
    r.status = projectOccurrenceStatus st

theorem isTerminal_of_projection {st : ExecutionStatus}
    (h : projectOccurrenceStatus st = .completed ∨ projectOccurrenceStatus st = .failed) :
    st.isTerminal = true := by
  cases st <;> simp [projectOccurrenceStatus, ExecutionStatus.isTerminal] at h ⊢

/-- An Execution takes its projection forward. -/
theorem lifecycle_of_advances {st st' : ExecutionStatus} (h : advances st st' = true) :
    lifecycle (projectOccurrenceStatus st) ≤ lifecycle (projectOccurrenceStatus st') := by
  revert h
  cases st <;> cases st' <;> decide

namespace ScheduleOccurrence

theorem tracks_of_planned (h : r.status = .planned) : r.Tracks where
  started := by simp [h]
  behind := by simp [h, lifecycle]
  ended := by simp [h]

theorem tracks_of_skipped (h : r.status = .skipped) : r.Tracks where
  started := by simp [h]
  behind := by simp [h]
  ended := by simp [h]

/-- A fire that is refused ends its occurrence before there is an Execution. -/
theorem tracks_of_failed (h : r.status = .failed) (hexec : r.execution = none) : r.Tracks where
  started := by simp [h]
  behind := by simp [hexec]
  ended := by simp [hexec]

/-- The row is its projection. -/
theorem tracks_of_projection {st : ExecutionStatus} (hexec : r.execution = some st)
    (h : r.status = projectOccurrenceStatus st) : r.Tracks where
  started := fun _ => by rw [hexec]; rfl
  behind := by
    intro st' hst' _
    obtain rfl := Option.some.inj (hexec.symm.trans hst')
    exact h ▸ le_rfl
  ended := by
    intro st' hst' _
    obtain rfl := Option.some.inj (hexec.symm.trans hst')
    exact h

theorem Tracks.congr (h : r.Tracks) (hstatus : r'.status = r.status)
    (hexec : r'.execution = r.execution) : r'.Tracks where
  started := by
    rw [hstatus, hexec]
    exact h.started
  behind := by
    rw [hstatus, hexec]
    exact h.behind
  ended := by
    rw [hstatus, hexec]
    exact h.ended

/-- An Execution that still moves has not let its row end with it. -/
theorem Tracks.advance {st st' : ExecutionStatus} (h : r.Tracks) (hexec : r.execution = some st)
    (hadv : advances st st' = true) : Tracks { r with execution := some st' } where
  started := fun _ => rfl
  behind := by
    intro st₂ hst₂ hskipped
    obtain rfl := Option.some.inj hst₂
    exact (h.behind st hexec hskipped).trans (lifecycle_of_advances hadv)
  ended := by
    intro st₂ _ hended
    have hterminal := isTerminal_of_projection (h.ended st hexec hended ▸ hended)
    simp [advances, hterminal] at hadv

theorem Tracks.cancel {b : Bool} (h : r.Tracks) :
    (r.cancel now b).Tracks ∧ r.Forward (r.cancel now b) := by
  rw [ScheduleOccurrence.cancel]
  split
  · exact ⟨h, .refl r⟩
  · case h_2 st hst =>
    dsimp only
    split
    · case isTrue hdone =>
      obtain ⟨hterminal, hopen⟩ := hdone
      refine ⟨tracks_of_projection rfl rfl, rfl, .inr ?_⟩
      have hend : lifecycle (projectOccurrenceStatus (cancelledStatus b st)) = 3 := by
        rcases projectOccurrenceStatus_of_isTerminal hterminal with heq | heq <;> rw [heq] <;> rfl
      exact hend ▸ lifecycle_lt_of_isOpen hopen
    · case isFalse hlive =>
      refine ⟨?_, rfl, .inl rfl⟩
      by_cases hsame : cancelledStatus b st = st
      · exact h.congr rfl (by rw [hsame, hst])
      · -- an Execution that the cancellation has moved was not terminal
        by_cases hadv : advances st (cancelledStatus b st) = true
        · exact h.advance hst hadv
        · exfalso
          revert hsame hadv
          cases b <;> cases st <;> decide

end ScheduleOccurrence

/-! ### The moves of one row -/

theorem Overtaken.tracks {startedCalls : Instant → Bool}
    (h : Overtaken before now startedCalls r x) (hr : r.Tracks) : x.Tracks ∧ r.Forward x := by
  cases h with
  | kept => exact ⟨hr, .refl r⟩
  | superseded _ hplanned =>
    exact ⟨ScheduleOccurrence.tracks_of_skipped rfl,
      ScheduleOccurrence.forward_of_planned rfl hplanned⟩
  | cancelled => exact hr.cancel

/-- A refused creation has found no Execution. -/
theorem execution_of_refused {target : ScheduleTargetType} {e : Refusal}
    (h : createExecution target r env trigger = .error e) : r.execution = none := by
  rw [createExecution.eq_def] at h
  split at h
  · cases h
  · case isFalse hexec => simpa using hexec

theorem Fired.tracks {base : Occurrences} {fire : Fire}
    (h : Fired s occs r now env trigger base r' fire) (hplanned : r.status = .planned)
    (honce : s.targetType = .agentVersion → s.definition.expression.isOnce = true) :
    r'.Tracks ∧ r.Forward r' := by
  refine ⟨?_, ScheduleOccurrence.forward_of_planned h.scheduledFor_eq hplanned⟩
  cases h with
  | unsupported hagent hnot =>
    rw [honce hagent] at hnot
    cases hnot
  | overlapSkip => exact ScheduleOccurrence.tracks_of_skipped rfl
  | queued => exact ScheduleOccurrence.tracks_of_planned hplanned
  | replaceWait => exact ScheduleOccurrence.tracks_of_planned hplanned
  | refused hallow e hcreate =>
    have hnone := execution_of_refused hcreate
    exact ScheduleOccurrence.tracks_of_failed rfl hnone
  | @executed _ r₁ _ hallow hcreate =>
    have hr₁ : r₁.status = .planned := by
      rcases hallow.base_cases with ⟨-, rfl⟩ | ⟨-, -, rfl⟩ <;> exact hplanned
    refine ScheduleOccurrence.tracks_of_planned ?_
    cases hcreate <;> exact hr₁

theorem tracks_stage (h : r.stage = some r') : r'.Tracks ∧ r.Forward r' := by
  rw [ScheduleOccurrence.stage] at h
  split at h
  · case isTrue hplanned =>
    cases h
    exact ⟨ScheduleOccurrence.tracks_of_projection rfl rfl,
      ScheduleOccurrence.forward_of_planned rfl hplanned.1⟩
  · cases h

theorem tracks_claim (h : r.claim = some r') : r'.Tracks ∧ r.Forward r' := by
  rw [ScheduleOccurrence.claim] at h
  split at h
  · case isTrue hqueued =>
    cases h
    have hlt : lifecycle .enqueued < lifecycle .running := by decide
    exact ⟨ScheduleOccurrence.tracks_of_projection rfl rfl, rfl, .inr (hqueued.1 ▸ hlt)⟩
  · cases h

theorem tracks_advance {status : ExecutionStatus} (hr : r.Tracks)
    (h : r.advance status = some r') : r'.Tracks ∧ r.Forward r' := by
  rw [ScheduleOccurrence.advance] at h
  split at h
  · case isTrue hadvances =>
    cases h
    obtain ⟨st, hst, hadv⟩ := (Option.any_eq_true _ _).mp hadvances
    exact ⟨hr.advance hst hadv, rfl, .inl rfl⟩
  · cases h

theorem tracks_planMaterialized (hplanned : r.status = .planned)
    (h : r.planMaterialized = some r') : r'.Tracks ∧ r.Forward r' := by
  rw [ScheduleOccurrence.planMaterialized] at h
  split at h
  · cases h
    exact ⟨ScheduleOccurrence.tracks_of_planned hplanned, rfl, .inl rfl⟩
  · cases h

theorem tracks_planFailed {refusal : Refusal} (hr : r.Tracks) (hexec : r.execution = none)
    (h : r.planFailed refusal now = some r') : r'.Tracks ∧ r.Forward r' := by
  rw [ScheduleOccurrence.planFailed] at h
  split at h
  · split at h
    · case isTrue hopen =>
      cases h
      exact ⟨ScheduleOccurrence.tracks_of_failed rfl hexec, rfl,
        .inr (lifecycle_lt_of_isOpen hopen)⟩
    · cases h
      exact ⟨hr, .refl r⟩
  · cases h

/-- A reconciled row with an Execution is skipped or the projection of the Execution. -/
theorem status_reconcile (finishedAt : Option Instant) (now : Instant) (hr : r.Tracks)
    {st : ExecutionStatus} (hexec : r.execution = some st) (hskipped : r.status ≠ .skipped) :
    (r.reconcile finishedAt now).status = projectOccurrenceStatus st ∧
      (r.reconcile finishedAt now).execution = some st := by
  simp only [ScheduleOccurrence.reconcile, hexec]
  split
  · case isTrue hkeep =>
    refine ⟨?_, hexec⟩
    rcases hkeep with hclosed | hsame | ⟨rfl, hplanned⟩
    · rcases isOpen_eq_false_iff.mp (by simpa using hclosed) with h | h | h
      · exact hr.ended st hexec (.inl h)
      · exact hr.ended st hexec (.inr h)
      · exact absurd h hskipped
    · exact hsame
    · exact hplanned
  · split
    · exact ⟨rfl, rfl⟩
    · exact ⟨rfl, rfl⟩

theorem reconcile_of_skipped {finishedAt : Option Instant} (h : r.status = .skipped) :
    r.reconcile finishedAt now = r := by
  rw [ScheduleOccurrence.reconcile]
  split
  · rfl
  · exact if_pos (.inl (by simp [ScheduleOccurrence.isOpen, h]))

theorem reconcile_of_projection {finishedAt : Option Instant} {st : ExecutionStatus}
    (hexec : r.execution = some st) (h : r.status = projectOccurrenceStatus st) :
    r.reconcile finishedAt now = r := by
  simp only [ScheduleOccurrence.reconcile, hexec]
  exact if_pos (.inr (.inl h))

theorem reconcile_of_none {finishedAt : Option Instant} (hexec : r.execution = none) :
    r.reconcile finishedAt now = r := by
  simp only [ScheduleOccurrence.reconcile, hexec]

theorem tracks_reconcile (hr : r.Tracks) {finishedAt : Option Instant} :
    (r.reconcile finishedAt now).Tracks ∧ r.Forward (r.reconcile finishedAt now) := by
  cases hexec : r.execution with
  | none =>
    rw [reconcile_of_none hexec]
    exact ⟨hr, .refl r⟩
  | some st =>
    by_cases hskipped : r.status = .skipped
    · rw [reconcile_of_skipped hskipped]
      exact ⟨hr, .refl r⟩
    · obtain ⟨hstatus, hexec'⟩ := status_reconcile finishedAt now hr hexec hskipped
      refine ⟨ScheduleOccurrence.tracks_of_projection hexec' hstatus, recorded_reconcile.1, ?_⟩
      rw [hstatus]
      rcases (hr.behind st hexec hskipped).eq_or_lt with heq | hlt
      · refine .inl ?_
        by_cases hopen : r.isOpen = true
        · exact (eq_of_lifecycle_eq heq (lifecycle_lt_of_isOpen hopen)).symm
        · rcases isOpen_eq_false_iff.mp (by simpa using hopen) with h | h | h
          · exact (hr.ended st hexec (.inl h)).symm
          · exact (hr.ended st hexec (.inr h)).symm
          · exact absurd h hskipped
      · exact .inr hlt

/-! ### The passes -/

/-- Every row has its successor, and every row that there is now tracks its Execution. -/
structure Progress (occs occs' : Occurrences) : Prop where
  tracks : ∀ x ∈ occs', x.Tracks
  forward : ∀ y ∈ occs, ∃ x ∈ occs', y.Forward x

theorem Progress.refl (h : ∀ x ∈ occs, x.Tracks) : Progress occs occs :=
  ⟨h, fun y hy => ⟨y, hy, .refl y⟩⟩

theorem Progress.trans (h : Progress occs₁ occs₂) (h' : Progress occs₂ occs₃) :
    Progress occs₁ occs₃ := by
  refine ⟨h'.tracks, fun y hy => ?_⟩
  obtain ⟨x, hx, hyx⟩ := h.forward y hy
  obtain ⟨z, hz, hxz⟩ := h'.forward x hx
  exact ⟨z, hz, hyx.trans hxz⟩

/-- A row moves by itself. -/
theorem Progress.put (h : ∀ x ∈ occs, x.Tracks) (hr : r ∈ occs)
    (hmove : r'.Tracks ∧ r.Forward r') : Progress occs (occs.put r') := by
  obtain ⟨htracks, hforward⟩ := hmove
  constructor
  · intro x hx
    rcases Table.mem_put hx with rfl | ⟨hx, -⟩
    · exact htracks
    · exact h x hx
  · intro y hy
    by_cases hkey : y.scheduledFor = r.scheduledFor
    · obtain rfl := Table.eq_of_key_eq hy hr hkey
      exact ⟨r', Table.mem_put_self hy hforward.1.symm, hforward⟩
    · exact ⟨y, Table.mem_put_of_ne hy (hforward.1 ▸ hkey), .refl y⟩

/-- REPLACE moves the earlier rows. -/
theorem progress_overtake (before now : Instant) (startedCalls : Instant → Bool)
    (h : ∀ x ∈ occs, x.Tracks) :
    Progress occs (occs.overtake before now startedCalls) := by
  constructor
  · intro x hx
    obtain ⟨y, hy, rfl⟩ := Table.mem_mapRows.mp hx
    exact ((overtaken_overtake before now startedCalls y).tracks (h y hy)).1
  · intro y hy
    exact ⟨_, Table.mem_mapRows.mpr ⟨y, hy, rfl⟩,
      ((overtaken_overtake before now startedCalls y).tracks (h y hy)).2⟩

/-- The schedule fires agents once. -/
def Schedule.AgentOnce (s : Schedule) : Prop :=
  s.targetType = .agentVersion → s.definition.expression.isOnce = true

theorem Fired.progress {base : Occurrences} {fire : Fire}
    (h : Fired s occs r now env trigger base r' fire) (hplanned : r.status = .planned)
    (honce : s.AgentOnce) (htracks : ∀ x ∈ occs, x.Tracks) (hr : r ∈ occs) :
    Progress occs (base.put r') := by
  have hmove := h.tracks hplanned honce
  rcases h.base_cases with rfl | ⟨-, rfl⟩
  · exact .put htracks hr hmove
  · have hbase := progress_overtake r.scheduledFor now env.startedCalls htracks
    have hr' : r ∈ occs.overtake r.scheduledFor now env.startedCalls :=
      Table.mem_mapRows.mpr ⟨r, hr, ScheduleOccurrence.overtake_of_le le_rfl⟩
    exact hbase.trans (.put hbase.tracks hr' hmove)

variable (now env trigger) in
theorem progress_tryFire (honce : s.AgentOnce) (htracks : ∀ x ∈ occs, x.Tracks) (hr : r ∈ occs) :
    Progress occs (tryFireOccurrence s occs r now env trigger).1 := by
  obtain ⟨-, hnoop⟩ | ⟨base, r', fire, hplanned, hfired, hput⟩ :=
    tryFire_cases s occs r now env trigger
  · rw [hnoop]
    exact .refl htracks
  · rw [hput]
    exact hfired.progress hplanned honce htracks hr

/-- A point brings in its row and moves no other one. -/
theorem progress_entered {reason : DecisionReason} (h : Entered occs t reason r)
    (htracks : ∀ x ∈ occs, x.Tracks) : Progress occs (occs.entered r) := by
  have hrow : r.Tracks ∧ ∀ y ∈ occs, y.scheduledFor = r.scheduledFor → y.Forward r := by
    cases h with
    | @old r₀ hmem hkey =>
      refine ⟨(htracks r₀ hmem).congr rfl rfl, fun y hy hkey' => ?_⟩
      obtain rfl := Table.eq_of_key_eq hy hmem hkey'
      exact ⟨rfl, .inl rfl⟩
    | new hnone =>
      exact ⟨ScheduleOccurrence.tracks_of_planned rfl, fun y hy hkey => absurd hkey (hnone y hy)⟩
  constructor
  · intro x hx
    rcases mem_entered_iff.mp hx with rfl | ⟨hx, -⟩
    · exact hrow.1
    · exact htracks x hx
  · intro y hy
    by_cases hkey : y.scheduledFor = r.scheduledFor
    · exact ⟨r, mem_entered_self r occs, hrow.2 y hy hkey⟩
    · exact ⟨y, mem_entered_iff.mpr (.inr ⟨hy, hkey⟩), .refl y⟩

variable (now env p) in
theorem progress_firePoint (honce : s.AgentOnce) (htracks : ∀ x ∈ occs, x.Tracks) :
    Progress occs (firePoint s now env occs p) := by
  obtain ⟨r, hr, heq⟩ := firePoint_eq s now env occs p
  have hentered := progress_entered hr htracks
  rw [heq]
  exact hentered.trans
    (progress_tryFire now env .schedule honce hentered.tracks (mem_entered_self r occs))

variable (t) in
theorem progress_createPlanned (htracks : ∀ x ∈ occs, x.Tracks) :
    Progress occs (occs.createPlanned t).1 := by
  constructor
  · intro x hx
    rcases mem_createPlanned_iff.mp hx with hx | rfl
    · exact htracks x hx
    · rcases createPlanned_cases occs t with hold | ⟨hnew, -⟩
      · exact htracks _ hold
      · rw [hnew]
        exact ScheduleOccurrence.tracks_of_planned rfl
  · intro y hy
    exact ⟨y, mem_createPlanned_iff.mpr (.inl hy), .refl y⟩

variable (now p) in
theorem progress_skipPoint (htracks : ∀ x ∈ occs, x.Tracks) :
    Progress occs (skipPoint now occs p) := by
  have hcreated := progress_createPlanned p.1 htracks
  rw [skipPoint_eq]
  split
  · case isTrue hplanned =>
    exact hcreated.trans (.put hcreated.tracks (mem_createPlanned occs p.1).1
      ⟨ScheduleOccurrence.tracks_of_skipped rfl,
        ScheduleOccurrence.forward_of_planned rfl hplanned⟩)
  · exact hcreated

theorem progress_foldl {f : Occurrences → Spec → Occurrences}
    (hf : ∀ occs p, (∀ x ∈ occs, x.Tracks) → Progress occs (f occs p)) (specs : List Spec)
    (htracks : ∀ x ∈ occs, x.Tracks) : Progress occs (specs.foldl f occs) := by
  induction specs generalizing occs with
  | nil => exact .refl htracks
  | cons p specs ih => exact (hf occs p htracks).trans (ih (hf occs p htracks).tracks)

variable (now env) in
theorem progress_firePoints (honce : s.AgentOnce) (htracks : ∀ x ∈ occs, x.Tracks)
    (specs : List Spec × List Spec) : Progress occs (firePoints s now env occs specs) := by
  have hskips := progress_foldl (fun _ p h => progress_skipPoint now p h) specs.2 htracks
  exact hskips.trans
    (progress_foldl (fun _ p h => progress_firePoint now env p honce h) specs.1 hskips.tracks)

variable (now env) in
theorem progress_releaseWaiting (honce : s.AgentOnce) (ts : List Instant)
    (htracks : ∀ x ∈ occs, x.Tracks) : Progress occs (releaseWaiting s now env ts occs) := by
  induction ts generalizing occs with
  | nil => exact .refl htracks
  | cons t ts ih =>
    rw [releaseWaiting]
    split
    · exact ih htracks
    · case h_2 r hr =>
      have hfire := progress_tryFire now env .schedule honce htracks
        (Table.mem_of_find? hr)
      split
      · case h_1 occs' heq =>
        rw [heq] at hfire
        exact hfire
      · case h_2 occs' fire _ heq =>
        rw [heq] at hfire
        exact hfire.trans (ih hfire.tracks)

theorem progress_updateRow {f : ScheduleOccurrence → Option ScheduleOccurrence}
    (htracks : ∀ x ∈ occs, x.Tracks)
    (hf : ∀ r ∈ occs, r.scheduledFor = t → ∀ r', f r = some r' → r'.Tracks ∧ r.Forward r')
    (h : occs.updateRow t f = some occs₁) : Progress occs occs₁ := by
  obtain ⟨r, r', hr, hkey, hfr, rfl⟩ := updateRow_cases h
  exact .put htracks hr (hf r hr hkey r' hfr)

/-! ### The invariant -/

/-- What every run keeps. -/
structure World.Tracked (w : World) : Prop where
  agentOnce : w.schedule.AgentOnce
  tracks : ∀ r ∈ w.occurrences, r.Tracks

/-- A planner that gives its occurrence an Execution, or refuses it one, finds the occurrence as its
session has read it: PLANNED, and without an Execution. -/
def TrackingOk (w : World) : Action → Prop
  | .planMaterialized t => ∀ r ∈ w.occurrences, r.scheduledFor = t → r.status = .planned
  | .planFailed t _ => ∀ r ∈ w.occurrences, r.scheduledFor = t → r.execution = none
  | _ => True

instance (w : World) : (a : Action) → Decidable (TrackingOk w a)
  | .planMaterialized t => inferInstanceAs (Decidable (∀ r ∈ w.occurrences.rows,
      r.scheduledFor = t → r.status = .planned))
  | .planFailed t _ => inferInstanceAs (Decidable (∀ r ∈ w.occurrences.rows,
      r.scheduledFor = t → r.execution = none))
  | .tick _ | .due _ _ | .waiting _ _ | .trigger _ | .activate | .pause | .resume | .update _
  | .stage _ | .claim _ | .advance _ _ | .reconcile _ _ _ => isTrue trivial

theorem tracked_of_initial (h : w.Initial) : w.Tracked := by
  refine ⟨h.agentOnce, fun r hr => ?_⟩
  rw [Table.mem_def, h.noOccurrences] at hr
  cases hr

/-- One row moves. -/
theorem tracked_row (h : w.Tracked) {f : ScheduleOccurrence → Option ScheduleOccurrence}
    (hf : ∀ r ∈ w.occurrences, r.scheduledFor = t → ∀ r', f r = some r' →
      r'.Tracks ∧ r.Forward r')
    (hstep : (w.occurrences.updateRow t f).map ({ w with occurrences := · }) = some w') :
    w'.Tracked ∧ Progress w.occurrences w'.occurrences := by
  obtain ⟨occs, hupdate, rfl⟩ := Option.map_eq_some_iff.mp hstep
  have hrows := progress_updateRow h.tracks hf hupdate
  exact ⟨⟨h.agentOnce, hrows.tracks⟩, hrows⟩

/-- What one step keeps: each row tracks its Execution and moves forward. -/
theorem tracked_step (h : w.Tracked) {a : Action} (hok : TrackingOk w a)
    (hstep : w.step c cfg a = some w') : w'.Tracked ∧ Progress w.occurrences w'.occurrences := by
  have hschedule : ∀ {s' : Schedule}, s'.overlapPolicy = w.schedule.overlapPolicy ∧
      s'.targetType = w.schedule.targetType ∧
      s'.definition.expression = w.schedule.definition.expression →
      World.Tracked { w with schedule := s' } ∧ Progress w.occurrences w.occurrences := by
    rintro s' ⟨-, htarget, hexpr⟩
    refine ⟨⟨fun hagent => ?_, h.tracks⟩, .refl h.tracks⟩
    rw [hexpr]
    exact h.agentOnce (htarget.symm.trans hagent)
  cases a with
  | tick now =>
    simp only [World.step] at hstep
    split at hstep
    · cases hstep
      exact ⟨⟨h.agentOnce, h.tracks⟩, .refl h.tracks⟩
    · cases hstep
  | due now env =>
    simp only [World.step] at hstep
    split at hstep
    · cases hstep
    · split at hstep
      · cases hstep
      · case h_2 s' occs' hdue =>
        cases hstep
        rcases processDueSchedule_cases hdue with ⟨hsame, -⟩ |
          ⟨next, part, -, -, -, -, ⟨-, hsame⟩ | ⟨-, rfl, rfl⟩⟩
        · cases hsame
          exact ⟨h, .refl h.tracks⟩
        · cases hsame
          exact ⟨⟨h.agentOnce, h.tracks⟩, .refl h.tracks⟩
        · have hfires := progress_firePoints now env h.agentOnce h.tracks
            (w.schedule.specs part)
          obtain ⟨-, htarget, hdef⟩ := fields_complete
            { w.schedule with nextRunAt := part.nextAfter }
            (firePoints w.schedule now env w.occurrences (w.schedule.specs part))
          refine ⟨⟨?_, hfires.tracks⟩, hfires⟩
          rw [Schedule.AgentOnce, htarget, hdef]
          exact h.agentOnce
  | waiting now env =>
    simp only [World.step] at hstep
    split at hstep
    · cases hstep
    · cases hstep
      rw [processWaitingSchedule]
      split
      · exact ⟨h, .refl h.tracks⟩
      · have hrelease := progress_releaseWaiting now env h.agentOnce
          w.occurrences.listWaiting h.tracks
        obtain ⟨-, htarget, hdef⟩ := fields_complete w.schedule
          (releaseWaiting w.schedule now env w.occurrences.listWaiting w.occurrences)
        refine ⟨⟨?_, hrelease.tracks⟩, hrelease⟩
        rw [Schedule.AgentOnce, htarget, hdef]
        exact h.agentOnce
  | trigger env =>
    simp only [World.step, Option.map_eq_some_iff] at hstep
    obtain ⟨occs, htrigger, rfl⟩ := hstep
    obtain ⟨r, hr, hplanned, -, base, r', fire, hfired, rfl⟩ := triggerSchedule_cases htrigger
    have hentered := progress_entered hr h.tracks
    have hfire := hentered.trans
      (hfired.progress hplanned h.agentOnce hentered.tracks (mem_entered_self r _))
    exact ⟨⟨h.agentOnce, hfire.tracks⟩, hfire⟩
  | activate =>
    simp only [World.step, Option.map_eq_some_iff] at hstep
    obtain ⟨s', hactivate, rfl⟩ := hstep
    exact hschedule (fields_activate hactivate)
  | pause =>
    simp only [World.step, Option.map_eq_some_iff] at hstep
    obtain ⟨s', hpause, rfl⟩ := hstep
    exact hschedule (fields_pause hpause)
  | resume =>
    simp only [World.step, Option.map_eq_some_iff] at hstep
    obtain ⟨s', hresume, rfl⟩ := hstep
    exact hschedule (fields_resume hresume)
  | update config =>
    simp only [World.step, Option.map_eq_some_iff] at hstep
    obtain ⟨s', hupdate, rfl⟩ := hstep
    rw [updateSchedule] at hupdate
    split at hupdate
    · cases hupdate
    · split at hupdate
      · cases hupdate
      · split at hupdate
        · cases hupdate
        · case isFalse hagent =>
          cases hupdate
          refine ⟨⟨fun htarget => ?_, h.tracks⟩, .refl h.tracks⟩
          by_contra hnot
          exact hagent ⟨htarget, hnot⟩
  | stage t => exact tracked_row h (fun _ _ _ _ => tracks_stage) hstep
  | claim t => exact tracked_row h (fun _ _ _ _ => tracks_claim) hstep
  | advance t status => exact tracked_row h (fun r hr _ _ => tracks_advance (h.tracks r hr)) hstep
  | planMaterialized t =>
    exact tracked_row h (fun r hr hkey _ => tracks_planMaterialized (hok r hr hkey)) hstep
  | planFailed t refusal =>
    exact tracked_row h (fun r hr hkey _ => tracks_planFailed (h.tracks r hr) (hok r hr hkey)) hstep
  | reconcile t finishedAt now =>
    refine tracked_row h (fun r hr _ r' hr' => ?_) hstep
    cases hr'
    exact tracks_reconcile (h.tracks r hr)

/-! ### Whole runs -/

/-- Every occurrence has moved forward or stays. -/
def World.Follows (w w' : World) : Prop := ∀ r ∈ w.occurrences, ∃ r' ∈ w'.occurrences, r.Forward r'

/-- What holds of the occurrences in a state and on every way on from it. -/
structure TrackingLaw (c : Calendar) (cfg : RuntimeConfig) (w : World) : Prop where
  /-- An occurrence that has ended was skipped, was refused before it had an Execution, or is the
  projection of a terminal one. -/
  ended : ∀ r ∈ w.occurrences, r.isOpen = false →
    r.status = .skipped ∨ (r.status = .failed ∧ r.execution = none) ∨
      ∃ st, r.execution = some st ∧ st.isTerminal = true ∧ r.status = projectOccurrenceStatus st
  /-- Every occurrence only moves forward. -/
  forward : ∀ as w', Runs.StepsMeet (World.step c cfg) TrackingOk w as →
    Runs.run (World.step c cfg) w as = some w' → w.Follows w'
  /-- After its reconcile an occurrence that was not skipped is the projection of its Execution, and
  another reconcile changes nothing. -/
  reconciled : ∀ t finishedAt now w', w.step c cfg (.reconcile t finishedAt now) = some w' →
    (∀ r ∈ w'.occurrences, r.scheduledFor = t → r.status ≠ .skipped →
      ∀ st, r.execution = some st → r.status = projectOccurrenceStatus st) ∧
    ∀ finishedAt' now', w'.step c cfg (.reconcile t finishedAt' now') = some w'
  /-- What is staged is never staged again. -/
  stagedOnce : ∀ t w₁, w.step c cfg (.stage t) = some w₁ → ∀ as w₂,
    Runs.StepsMeet (World.step c cfg) TrackingOk w₁ as →
    Runs.run (World.step c cfg) w₁ as = some w₂ → w₂.step c cfg (.stage t) = none
  /-- What is claimed is never claimed again. -/
  claimedOnce : ∀ t w₁, w.step c cfg (.claim t) = some w₁ → ∀ as w₂,
    Runs.StepsMeet (World.step c cfg) TrackingOk w₁ as →
    Runs.run (World.step c cfg) w₁ as = some w₂ → w₂.step c cfg (.claim t) = none

theorem World.Tracked.run (h : w.Tracked) {as : List Action}
    (hmeet : Runs.StepsMeet (World.step c cfg) TrackingOk w as)
    (hrun : Runs.run (World.step c cfg) w as = some w') : w'.Tracked :=
  Runs.run_preserves (fun _ _ _ h hok hstep => (tracked_step h hok hstep).1) h hmeet hrun

theorem World.Follows.trans (h : w.Follows w') (h' : w'.Follows w'') : w.Follows w'' := by
  intro r hr
  obtain ⟨r', hr', hforward⟩ := h r hr
  obtain ⟨r'', hr'', hforward'⟩ := h' r' hr'
  exact ⟨r'', hr'', hforward.trans hforward'⟩

theorem World.Tracked.forward (h : w.Tracked) {as : List Action}
    (hmeet : Runs.StepsMeet (World.step c cfg) TrackingOk w as)
    (hrun : Runs.run (World.step c cfg) w as = some w') : w.Follows w' :=
  @Runs.run_relates _ _ _ World.Tracked _ World.Follows (fun _ r hr => ⟨r, hr, .refl r⟩)
    (fun _ _ _ h h' => h.trans h') (fun _ _ _ h hok hstep => (tracked_step h hok hstep).1)
    (fun _ _ _ h hok hstep => (tracked_step h hok hstep).2.forward) _ _ _ h hmeet hrun

/-- A move that needs one status and leaves a later one happens once. -/
theorem updateRow_once {f : ScheduleOccurrence → Option ScheduleOccurrence}
    {a b : OccurrenceStatus} (hlt : lifecycle a < lifecycle b)
    (hfrom : ∀ r r', f r = some r' → r.status = a)
    (hto : ∀ r r', f r = some r' → r'.scheduledFor = r.scheduledFor ∧ r'.status = b)
    {w₁ w₂ : World} (hw₁ : w₁.Tracked)
    (hstep : (w.occurrences.updateRow t f).map ({ w with occurrences := · }) = some w₁)
    {as : List Action} (hmeet : Runs.StepsMeet (World.step c cfg) TrackingOk w₁ as)
    (hrun : Runs.run (World.step c cfg) w₁ as = some w₂) :
    (w₂.occurrences.updateRow t f).map ({ w₂ with occurrences := · }) = none := by
  obtain ⟨occs, hupdate, rfl⟩ := Option.map_eq_some_iff.mp hstep
  obtain ⟨r, r', hr, hkey, hf, rfl⟩ := updateRow_cases hupdate
  obtain ⟨hkey', hb⟩ := hto r r' hf
  obtain ⟨x, hx, hforward⟩ := hw₁.forward hmeet hrun r' (Table.mem_put_self hr hkey'.symm)
  rw [Option.map_eq_none_iff, Option.eq_none_iff_forall_ne_some]
  intro occs₂ hagain
  obtain ⟨y, y', hy, hykey, hfy, rfl⟩ := updateRow_cases hagain
  obtain rfl := Table.eq_of_key_eq hy hx
    (hykey.trans (hkey.symm.trans (hkey'.symm.trans hforward.1.symm)))
  have hle := lifecycle_le_of_forward hforward
  rw [hb, hfrom y y' hfy] at hle
  exact absurd hlt (not_lt.mpr hle)

theorem from_stage (h : r.stage = some r') :
    r.status = .planned ∧ r'.scheduledFor = r.scheduledFor ∧ r'.status = .enqueued := by
  rw [ScheduleOccurrence.stage] at h
  split at h
  · case isTrue hplanned =>
    cases h
    exact ⟨hplanned.1, rfl, rfl⟩
  · cases h

theorem from_claim (h : r.claim = some r') :
    r.status = .enqueued ∧ r'.scheduledFor = r.scheduledFor ∧ r'.status = .running := by
  rw [ScheduleOccurrence.claim] at h
  split at h
  · case isTrue hqueued =>
    cases h
    exact ⟨hqueued.1, rfl, rfl⟩
  · cases h

/-- A reconcile settles its row. -/
theorem reconcile_reconcile (hr : r.Tracks) (finishedAt finishedAt' : Option Instant)
    (now now' : Instant) :
    (r.reconcile finishedAt now).reconcile finishedAt' now' = r.reconcile finishedAt now := by
  cases hexec : r.execution with
  | none => rw [reconcile_of_none hexec, reconcile_of_none hexec]
  | some st =>
    by_cases hskipped : r.status = .skipped
    · rw [reconcile_of_skipped hskipped, reconcile_of_skipped hskipped]
    · obtain ⟨hstatus, hexec'⟩ := status_reconcile finishedAt now hr hexec hskipped
      exact reconcile_of_projection hexec' hstatus

theorem World.Tracked.law (h : w.Tracked) : TrackingLaw c cfg w where
  ended := by
    intro r hr hclosed
    have htracks := h.tracks r hr
    cases hexec : r.execution with
    | none =>
      rcases isOpen_eq_false_iff.mp hclosed with hstatus | hstatus | hstatus
      · have hstarted := htracks.started (.inr (.inr hstatus))
        rw [hexec] at hstarted
        cases hstarted
      · exact .inr (.inl ⟨hstatus, rfl⟩)
      · exact .inl hstatus
    | some st =>
      have hprojects : r.status = .completed ∨ r.status = .failed → ∃ st', some st = some st' ∧
          st'.isTerminal = true ∧ r.status = projectOccurrenceStatus st' := fun hstatus =>
        ⟨st, rfl, isTerminal_of_projection (htracks.ended st hexec hstatus ▸ hstatus),
          htracks.ended st hexec hstatus⟩
      rcases isOpen_eq_false_iff.mp hclosed with hstatus | hstatus | hstatus
      · exact .inr (.inr (hprojects (.inl hstatus)))
      · exact .inr (.inr (hprojects (.inr hstatus)))
      · exact .inl hstatus
  forward := fun _ _ hmeet hrun => h.forward hmeet hrun
  reconciled := by
    intro t finishedAt now w' hstep
    obtain ⟨occs, hupdate, rfl⟩ := Option.map_eq_some_iff.mp hstep
    obtain ⟨r, r', hr, hkey, hf, rfl⟩ := updateRow_cases hupdate
    obtain rfl := Option.some.inj hf
    have hkey' : (r.reconcile finishedAt now).scheduledFor = t := recorded_reconcile.1.trans hkey
    have hmem := Table.mem_put_self hr (hkey.trans hkey'.symm)
    constructor
    · intro x hx hxkey hskipped st hexec
      obtain rfl := Table.eq_of_key_eq hx hmem (hxkey.trans hkey'.symm)
      cases hold : r.execution with
      | none =>
        rw [reconcile_of_none hold, hold] at hexec
        cases hexec
      | some st' =>
        by_cases hwas : r.status = .skipped
        · rw [reconcile_of_skipped hwas] at hskipped
          exact absurd hwas hskipped
        · obtain ⟨hstatus, hexec'⟩ := status_reconcile finishedAt now (h.tracks r hr) hold hwas
          obtain rfl := Option.some.inj (hexec'.symm.trans hexec)
          exact hstatus
    · intro finishedAt' now'
      have hfind := Table.find?_key_of_mem hmem
      rw [hkey'] at hfind
      simp only [World.step, Occurrences.updateRow, hfind, Option.bind_some, Option.map_some,
        reconcile_reconcile (h.tracks r hr), Table.put_of_mem hmem]
  stagedOnce := fun t w₁ hstep as w₂ hmeet hrun =>
    updateRow_once (a := .planned) (b := .enqueued) (by decide) (fun _ _ hf => (from_stage hf).1)
      (fun _ _ hf => (from_stage hf).2) (tracked_step h (a := .stage t) trivial hstep).1 hstep
      hmeet hrun
  claimedOnce := fun t w₁ hstep as w₂ hmeet hrun =>
    updateRow_once (a := .enqueued) (b := .running) (by decide) (fun _ _ hf => (from_claim hf).1)
      (fun _ _ hf => (from_claim hf).2) (tracked_step h (a := .claim t) trivial hstep).1 hstep
      hmeet hrun

/-- The first point is staged, claimed and cancelled by hand, and its occurrence is reconciled. -/
def cancelledFirst : List Action :=
  [.activate, .tick 0, .due 0 calmEnv, .stage 0, .claim 0, .advance 0 .cancelRequested,
    .advance 0 .cancelled, .reconcile 0 none 0]

/-- The creation of every Execution is refused. -/
def refusingEnv : FireEnv := ⟨fun _ => some .precondition, fun _ => false⟩

end McpFlow.Scheduler
