import McpFlow.Scheduler.Completed

/-!
# Every recurrence point is decided once

While a Schedule stays ACTIVE with its definition, the due passes walk its recurrence: every point up
to the latest pass has one occurrence with one record, no later point has an occurrence yet, and the
next run is the next point. A pass skips all but the newest missed points within the misfire limit.
-/

namespace McpFlow.Scheduler

open Recurrence Occurrences
open Planner (OccurrenceStatus)

/-! ### Records -/

/-- The reasons of a policy to skip a point. -/
def DecisionReason.isSkip : DecisionReason → Bool
  | .misfireSkip => true
  | .misfireCoalesced => true
  | .misfireCatchUpLimit => true
  | .overlapSkip => true
  | .replaceSuperseded => true
  | _ => false

/-- The reasons of a fire that was refused. -/
def DecisionReason.isRefusal : DecisionReason → Bool
  | .targetPreconditionFailed => true
  | .authorizationRevoked => true
  | .agentScheduleExecutionUnsupported => true
  | _ => false

/-- The reasons of the misfire policies to skip a point. -/
def DecisionReason.isMisfireSkip : DecisionReason → Bool
  | .misfireSkip => true
  | .misfireCoalesced => true
  | .misfireCatchUpLimit => true
  | _ => false

/-- How an occurrence is decided: fired (an Execution, or a plan handed over to the agent planner),
fired and refused at once, held, or skipped. -/
inductive Record where
  | fired
  | refused (reason : DecisionReason)
  | held
  | skipped (reason : DecisionReason)
deriving DecidableEq, Repr

/-- The record that the columns of an occurrence show, if they show one. -/
def ScheduleOccurrence.record (r : ScheduleOccurrence) : Option Record :=
  if r.execution.isSome || r.planOutbox then some .fired
  else
    match r.status, r.decisionReason with
    | .planned, some reason => if reason.isWait then some .held else none
    | .skipped, some reason => if reason.isSkip then some (.skipped reason) else none
    | .failed, some reason => if reason.isRefusal then some (.refused reason) else none
    | _, _ => none

/-- The occurrence is decided. -/
def ScheduleOccurrence.Recorded (r : ScheduleOccurrence) : Prop := r.record.isSome = true

variable {r r' x : ScheduleOccurrence} {occs occs' : Occurrences} {now before : Instant}
  {startedCalls : Instant → Bool} {s : Schedule} {env : FireEnv} {trigger : TriggerType}
  {base : Occurrences} {fire : Fire}

theorem ScheduleOccurrence.recorded_of_execution (h : r.execution.isSome = true) : r.Recorded := by
  rw [Recorded, record, h]
  rfl

theorem ScheduleOccurrence.recorded_of_planOutbox (h : r.planOutbox = true) : r.Recorded := by
  rw [Recorded, record, h, Bool.or_true]
  rfl

/-- A row with a decided status is recorded whatever else it has. -/
theorem ScheduleOccurrence.recorded_of_reason {reason : DecisionReason}
    (hreason : r.decisionReason = some reason)
    (h : (r.status = .planned ∧ reason.isWait = true) ∨
      (r.status = .skipped ∧ reason.isSkip = true) ∨
      (r.status = .failed ∧ reason.isRefusal = true)) : r.Recorded := by
  rw [Recorded, record, hreason]
  split
  · rfl
  · rcases h with ⟨hstatus, h⟩ | ⟨hstatus, h⟩ | ⟨hstatus, h⟩ <;> rw [hstatus] <;> simp [h]

/-- The reason of a skipped record is the reason of the row. -/
theorem ScheduleOccurrence.decisionReason_of_record {reason : DecisionReason}
    (h : r.record = some (.skipped reason)) : r.decisionReason = some reason := by
  rw [record] at h
  split at h
  · cases h
  · split at h
    · split at h <;> cases h
    · case h_2 hreason =>
      split at h
      · cases h
        exact hreason
      · cases h
    · split at h <;> cases h
    · cases h

theorem isRefusal_reason (e : Refusal) : e.reason.isRefusal = true := by
  cases e <;> rfl

variable (r now) in
theorem ScheduleOccurrence.execution_cancel_isSome {b : Bool} :
    (r.cancel now b).execution.isSome = r.execution.isSome := by
  rw [cancel]
  split
  · rfl
  · case h_2 st hst =>
    dsimp only
    split <;> rw [hst] <;> rfl

/-- An overtaken row stays decided. -/
theorem Overtaken.recorded (h : Overtaken before now startedCalls r x) (hr : r.Recorded) :
    x.Recorded := by
  cases h with
  | kept => exact hr
  | superseded => exact ScheduleOccurrence.recorded_of_reason rfl (.inr (.inl ⟨rfl, rfl⟩))
  | cancelled =>
    cases hexec : r.execution with
    | none => rwa [ScheduleOccurrence.cancel_of_none hexec]
    | some st =>
      refine ScheduleOccurrence.recorded_of_execution ?_
      rw [ScheduleOccurrence.execution_cancel_isSome _ _, hexec]
      rfl

/-- A fire decides its occurrence. -/
theorem Fired.recorded (h : Fired s occs r now env trigger base r' fire)
    (hplanned : r.status = .planned) : r'.Recorded := by
  cases h with
  | unsupported => exact ScheduleOccurrence.recorded_of_reason rfl (.inr (.inr ⟨rfl, rfl⟩))
  | overlapSkip => exact ScheduleOccurrence.recorded_of_reason rfl (.inr (.inl ⟨rfl, rfl⟩))
  | queued => exact ScheduleOccurrence.recorded_of_reason rfl (.inl ⟨hplanned, rfl⟩)
  | replaceWait => exact ScheduleOccurrence.recorded_of_reason rfl (.inl ⟨hplanned, rfl⟩)
  | refused _ e =>
    exact ScheduleOccurrence.recorded_of_reason rfl (.inr (.inr ⟨rfl, isRefusal_reason e⟩))
  | executed _ hcreate =>
    cases hcreate with
    | existing hexec => exact ScheduleOccurrence.recorded_of_execution hexec
    | workflow => exact ScheduleOccurrence.recorded_of_execution rfl
    | handedOver _ _ _ hplan => exact ScheduleOccurrence.recorded_of_planOutbox hplan
    | handover => exact ScheduleOccurrence.recorded_of_planOutbox rfl

/-- The reason of an occurrence is not one of the misfire policies to skip it. -/
def ScheduleOccurrence.NotMisfired (r : ScheduleOccurrence) : Prop :=
  ∀ reason, r.decisionReason = some reason → reason.isMisfireSkip = false

theorem Overtaken.notMisfired (h : Overtaken before now startedCalls r x) (hr : r.NotMisfired) :
    x.NotMisfired := by
  cases h with
  | kept => exact hr
  | superseded =>
    rintro reason ⟨⟩
    rfl
  | cancelled =>
    intro reason hreason
    rw [ScheduleOccurrence.decisionReason_cancel] at hreason
    exact hr reason hreason

theorem Fired.notMisfired (h : Fired s occs r now env trigger base r' fire)
    (hr : r.NotMisfired) : r'.NotMisfired := by
  have hallowed : ∀ {base r₁}, Allowed s.overlapPolicy occs r now env base r₁ → r₁.NotMisfired := by
    intro base r₁ hallow
    rcases hallow.base_cases with ⟨-, rfl⟩ | ⟨-, -, rfl⟩
    · exact hr
    · rintro reason ⟨⟩
      rfl
  cases h with
  | unsupported =>
    rintro reason ⟨⟩
    rfl
  | overlapSkip =>
    rintro reason ⟨⟩
    rfl
  | queued =>
    rintro reason ⟨⟩
    rfl
  | replaceWait =>
    rintro reason ⟨⟩
    rfl
  | refused _ e =>
    rintro reason ⟨⟩
    cases e <;> rfl
  | executed hallow hcreate =>
    cases hcreate with
    | existing => exact hallowed hallow
    | workflow _ _ _ reason' hreason' =>
      intro reason (hr' : reason' = some reason)
      subst hreason'
      split at hr'
      · cases hr'
        rfl
      · exact hallowed hallow reason hr'
    | handedOver => exact hallowed hallow
    | handover =>
      rintro reason ⟨⟩
      rfl

/-! ### The rows of a due pass -/

variable {specs : List Spec} {p : Spec} {t : Instant}

variable (s now env trigger) in
/-- A fired point has a row afterwards, and no row is lost. -/
theorem exists_mem_tryFire (hr : r ∈ occs) (hx : x ∈ occs) :
    ∃ y ∈ (tryFireOccurrence s occs r now env trigger).1, y.scheduledFor = x.scheduledFor := by
  obtain ⟨-, hnoop⟩ | ⟨base, r', fire, -, hfired, hput⟩ := tryFire_cases s occs r now env trigger
  · rw [hnoop]
    exact ⟨x, hx, rfl⟩
  · rw [hput]
    by_cases hkey : x.scheduledFor = r.scheduledFor
    · exact ⟨r', hfired.mem_put_self hr, hfired.scheduledFor_eq.trans hkey.symm⟩
    · have hbase : ∃ y ∈ base, y.scheduledFor = x.scheduledFor := by
        rcases hfired.base_cases with rfl | ⟨-, rfl⟩
        · exact ⟨x, hx, rfl⟩
        · exact ⟨_, Table.mem_mapRows.mpr ⟨x, hx, rfl⟩, ScheduleOccurrence.scheduledFor_overtake⟩
      obtain ⟨y, hy, hyx⟩ := hbase
      exact ⟨y, Table.mem_put_of_ne hy (by rwa [hyx, hfired.scheduledFor_eq]), hyx⟩

theorem exists_mem_firePoint (ht : t = p.1 ∨ ∃ x ∈ occs, x.scheduledFor = t) :
    ∃ y ∈ firePoint s now env occs p, y.scheduledFor = t := by
  obtain ⟨r, hr, heq⟩ := firePoint_eq s now env occs p
  rw [heq]
  by_cases hrt : r.scheduledFor = t
  · obtain ⟨y, hy, hkey⟩ := exists_mem_tryFire now s env .schedule (mem_entered_self r occs) (mem_entered_self _ _)
    exact ⟨y, hy, hkey.trans hrt⟩
  · obtain ⟨x, hx, rfl⟩ := ht.resolve_left fun h => hrt (hr.scheduledFor_eq.trans h.symm)
    exact exists_mem_tryFire _ _ _ _ (mem_entered_self _ _) (mem_entered_iff.mpr (.inr ⟨hx, Ne.symm hrt⟩))

theorem exists_mem_foldl_firePoint
    (ht : t ∈ specs.map Prod.fst ∨ ∃ x ∈ occs, x.scheduledFor = t) :
    ∃ y ∈ specs.foldl (firePoint s now env) occs, y.scheduledFor = t := by
  induction specs generalizing occs with
  | nil => exact ht.resolve_left List.not_mem_nil
  | cons p specs ih =>
    refine ih ?_
    rw [List.map_cons, List.mem_cons, or_assoc] at ht
    rcases ht with ht | ht | ht
    · exact .inr (exists_mem_firePoint (.inl ht))
    · exact .inl ht
    · exact .inr (exists_mem_firePoint (.inr ht))

/-- A row after a fire comes from the row of its instant: its own, or one that was overtaken. -/
theorem mem_tryFire (hr : r ∈ occs)
    (hx : x ∈ (tryFireOccurrence s occs r now env trigger).1) :
    (x.scheduledFor = r.scheduledFor ∧ ((r.status ≠ .planned ∧ x = r) ∨
      ∃ base fire, r.status = .planned ∧ Fired s occs r now env trigger base x fire)) ∨
    (x.scheduledFor ≠ r.scheduledFor ∧
      ∃ y ∈ occs, Overtaken r.scheduledFor now env.startedCalls y x) := by
  obtain ⟨hstatus, hnoop⟩ | ⟨base, r', fire, hplanned, hfired, hput⟩ :=
    tryFire_cases s occs r now env trigger
  · rw [hnoop] at hx
    by_cases hkey : x.scheduledFor = r.scheduledFor
    · exact .inl ⟨hkey, .inl ⟨hstatus, Table.eq_of_key_eq hx hr hkey⟩⟩
    · exact .inr ⟨hkey, x, hx, .kept⟩
  · rw [hput] at hx
    rcases hfired.mem_put hx with rfl | h
    · exact .inl ⟨hfired.scheduledFor_eq, .inr ⟨base, fire, hplanned, hfired⟩⟩
    · exact .inr h

theorem Overtaken.scheduledFor_eq (h : Overtaken before now startedCalls r x) :
    x.scheduledFor = r.scheduledFor := by
  cases h with
  | kept => rfl
  | superseded => rfl
  | cancelled => rw [ScheduleOccurrence.scheduledFor_cancel]

/-- A predicate of rows that overtaking keeps. -/
def Stable (q : ScheduleOccurrence → Prop) : Prop :=
  ∀ before now startedCalls r x, Overtaken before now startedCalls r x → q r → q x

/-- A fresh point is decided by its fire, and no longer holds a misfire reason to be skipped. -/
theorem mem_firePoint (hreason : p.2.isMisfireSkip = false)
    (hfresh : ∀ y ∈ occs, y.scheduledFor ≠ p.1) (hx : x ∈ firePoint s now env occs p) :
    (x.scheduledFor = p.1 ∧ x.Recorded ∧ x.NotMisfired) ∨
      (x.scheduledFor ≠ p.1 ∧ ∃ y ∈ occs, y.scheduledFor = x.scheduledFor ∧
        ∀ q, Stable q → q y → q x) := by
  obtain ⟨r, hr, heq⟩ := firePoint_eq s now env occs p
  rw [heq] at hx
  have hkey := hr.scheduledFor_eq
  have hplanned : r.status = .planned := by
    cases hr with
    | old hmem hk => exact absurd hk (hfresh _ hmem)
    | new => rfl
  rcases mem_tryFire (mem_entered_self _ _) hx with ⟨hxr, hown⟩ | ⟨hne, y, hy, hover⟩
  · refine .inl ⟨hxr.trans hkey, ?_⟩
    rcases hown with ⟨hstatus, -⟩ | ⟨base, fire, -, hfired⟩
    · exact absurd hplanned hstatus
    · refine ⟨hfired.recorded hplanned, hfired.notMisfired fun reason h => ?_⟩
      rw [hr.decisionReason_eq] at h
      exact Option.some.inj h ▸ hreason
  · refine .inr ⟨hkey ▸ hne, ?_⟩
    rcases mem_entered_iff.mp hy with rfl | ⟨hy, -⟩
    · exact absurd hover.scheduledFor_eq hne
    · exact ⟨y, hy, hover.scheduledFor_eq.symm, fun q hq => hq _ _ _ y x hover⟩

theorem mem_foldl_firePoint (hsorted : specs.Pairwise fun p q => p.1 < q.1)
    (hreason : ∀ p ∈ specs, p.2.isMisfireSkip = false)
    (hfresh : ∀ p ∈ specs, ∀ y ∈ occs, y.scheduledFor ≠ p.1)
    (hx : x ∈ specs.foldl (firePoint s now env) occs) :
    (x.scheduledFor ∈ specs.map Prod.fst ∧ x.Recorded ∧ x.NotMisfired) ∨
      (x.scheduledFor ∉ specs.map Prod.fst ∧ ∃ y ∈ occs, y.scheduledFor = x.scheduledFor ∧
        ∀ q, Stable q → q y → q x) := by
  induction specs generalizing occs with
  | nil => exact .inr ⟨List.not_mem_nil, x, hx, rfl, fun q _ h => h⟩
  | cons p specs ih =>
    obtain ⟨hlater, hsorted⟩ := List.pairwise_cons.mp hsorted
    have hp := hreason p List.mem_cons_self
    have hpfresh := hfresh p List.mem_cons_self
    have hfresh' : ∀ q ∈ specs, ∀ y ∈ firePoint s now env occs p, y.scheduledFor ≠ q.1 := by
      intro q hq y hy hkey
      rcases mem_firePoint hp hpfresh hy with ⟨hyp, -⟩ | ⟨-, z, hz, hzy, -⟩
      · exact (hlater q hq).ne (hyp.symm.trans hkey)
      · exact hfresh q (List.mem_cons_of_mem p hq) z hz (hzy.trans hkey)
    rw [List.map_cons, List.mem_cons]
    rcases ih hsorted (fun q hq => hreason q (List.mem_cons_of_mem p hq)) hfresh' hx with
      ⟨hmem, hrow⟩ | ⟨hne, y, hy, hyx, hkeeps⟩
    · exact .inl ⟨.inr hmem, hrow⟩
    · have hrecorded : Stable ScheduleOccurrence.Recorded := fun _ _ _ _ _ h => h.recorded
      have hnot : Stable ScheduleOccurrence.NotMisfired := fun _ _ _ _ _ h => h.notMisfired
      rcases mem_firePoint hp hpfresh hy with ⟨hyp, hrow⟩ | ⟨hyp, z, hz, hzy, hkeeps'⟩
      · exact .inl ⟨.inl (hyx.symm.trans hyp), hkeeps _ hrecorded hrow.1, hkeeps _ hnot hrow.2⟩
      · refine .inr ⟨not_or.mpr ⟨fun h => hyp (hyx.trans h), hne⟩, z, hz, hzy.trans hyx, ?_⟩
        exact fun q hq h => hkeeps q hq (hkeeps' q hq h)

/-- A row that a misfire policy has skipped. -/
def ScheduleOccurrence.Misfired (reason : DecisionReason) (r : ScheduleOccurrence) : Prop :=
  r.status = .skipped ∧ r.record = some (.skipped reason)

theorem stable_misfired (reason : DecisionReason) :
    Stable (ScheduleOccurrence.Misfired reason) := by
  intro before now startedCalls r x hover hr
  cases hover with
  | kept => exact hr
  | superseded _ hplanned =>
    rw [hr.1] at hplanned
    cases hplanned
  | cancelled _ hprior =>
    simp [ScheduleOccurrence.isActivePrior, ScheduleOccurrence.isOpen, hr.1] at hprior

theorem isSkip_misfireReason (policy : ScheduleMisfirePolicy) :
    (misfireReason policy).isSkip = true ∧ (misfireReason policy).isMisfireSkip = true := by
  cases policy <;> exact ⟨rfl, rfl⟩

theorem misfired_planned {reason : DecisionReason} (h : reason.isSkip = true) :
    ((planned t).failOrSkip .skipped reason now).Misfired reason := by
  refine ⟨rfl, ?_⟩
  rw [ScheduleOccurrence.record]
  simp [planned, ScheduleOccurrence.failOrSkip, h]

/-- The skipped points of a pass over fresh instants. -/
theorem misfired_of_mem_foldl_skipPoint (hfresh : ∀ p ∈ specs, ∀ y ∈ occs, y.scheduledFor ≠ p.1)
    {reason : DecisionReason} (hreason : ∀ p ∈ specs, p.2 = reason) (hskip : reason.isSkip = true)
    (hx : x ∈ specs.foldl (skipPoint now) occs) (hmem : x.scheduledFor ∈ specs.map Prod.fst) :
    x.Misfired reason := by
  induction specs using List.reverseRecOn generalizing x with
  | nil => cases hmem
  | append_singleton specs p ih =>
    rw [List.foldl_append, List.foldl_cons, List.foldl_nil] at hx
    have hspecs : ∀ q ∈ specs, q ∈ specs ++ [p] := fun q hq => List.mem_append_left _ hq
    have hold : ∀ y ∈ specs.foldl (skipPoint now) occs,
        y.scheduledFor ∈ specs.map Prod.fst ∨ y.scheduledFor = p.1 → y.Misfired reason := by
      intro y hy hkey
      by_cases hin : y.scheduledFor ∈ specs.map Prod.fst
      · exact ih (fun q hq => hfresh q (hspecs q hq)) (fun q hq => hreason q (hspecs q hq)) hy hin
      · exact absurd (hkey.resolve_left hin)
          (hfresh p List.mem_concat_self y (mem_of_mem_foldl_skipPoint hy hin))
    rcases mem_skipPoint hx with ⟨hx', -⟩ | ⟨r, hr, hplanned, rfl⟩
    · rw [List.map_append, List.mem_append, List.map_cons, List.map_nil, List.mem_singleton] at hmem
      exact hold x hx' hmem
    · rw [hreason p List.mem_concat_self]
      cases hr with
      | old hr₀ hkey =>
        -- a PLANNED row of that instant would be an old one
        have hstatus := (hold _ hr₀ (.inr hkey)).1
        dsimp only at hplanned
        rw [hstatus] at hplanned
        cases hplanned
      | new => exact misfired_planned hskip

theorem exists_mem_skipPoint (ht : t = p.1 ∨ ∃ x ∈ occs, x.scheduledFor = t) :
    ∃ y ∈ skipPoint now occs p, y.scheduledFor = t := by
  obtain ⟨hmem, hkey⟩ := mem_createPlanned occs p.1
  rw [skipPoint_eq]
  by_cases htp : t = p.1
  · subst htp
    split
    · exact ⟨_, Table.mem_put_self hmem rfl, hkey⟩
    · exact ⟨_, hmem, hkey⟩
  · obtain ⟨x, hx, rfl⟩ := ht.resolve_left htp
    have hx' := mem_skipPoint_of_ne now hx htp
    rw [skipPoint_eq] at hx'
    exact ⟨x, hx', rfl⟩

theorem exists_mem_foldl_skipPoint (ht : t ∈ specs.map Prod.fst ∨ ∃ x ∈ occs, x.scheduledFor = t) :
    ∃ y ∈ specs.foldl (skipPoint now) occs, y.scheduledFor = t := by
  induction specs generalizing occs with
  | nil => exact ht.resolve_left List.not_mem_nil
  | cons p specs ih =>
    refine ih ?_
    rw [List.map_cons, List.mem_cons, or_assoc] at ht
    rcases ht with ht | ht | ht
    · exact .inr (exists_mem_skipPoint (.inl ht))
    · exact .inl ht
    · exact .inr (exists_mem_skipPoint (.inr ht))

/-- A pass over fresh points decides each of them once: it skips those that the misfire policy
gives up and fires the others. The other rows are at most overtaken. -/
theorem firePoints_spec {part : MisfirePartition} (hsorted : part.points.Pairwise (· < ·))
    (hfresh : ∀ t ∈ part.points, ∀ y ∈ occs, y.scheduledFor ≠ t)
    (hx : x ∈ firePoints s now env occs (s.specs part)) :
    (x.scheduledFor ∈ (s.specs part).2.map Prod.fst ∧ x.Misfired (misfireReason s.misfirePolicy)) ∨
      (x.scheduledFor ∈ (s.specs part).1.map Prod.fst ∧ x.Recorded ∧ x.NotMisfired) ∨
      (x.scheduledFor ∉ part.points ∧ ∃ y ∈ occs, y.scheduledFor = x.scheduledFor ∧
        ∀ q, Stable q → q y → q x) := by
  have hskipped : ∀ p ∈ (s.specs part).2, ∀ y ∈ occs, y.scheduledFor ≠ p.1 := fun p hp =>
    hfresh p.1 (mem_points_iff_specs.mpr (.inl (List.mem_map_of_mem hp)))
  have hfired : ∀ p ∈ (s.specs part).1,
      ∀ y ∈ (s.specs part).2.foldl (skipPoint now) occs, y.scheduledFor ≠ p.1 := by
    intro p hp y hy hkey
    have hpf := List.mem_map_of_mem (f := Prod.fst) hp
    have hnot : y.scheduledFor ∉ (s.specs part).2.map Prod.fst := fun hin =>
      specs_disjoint hsorted (hkey ▸ hin) hpf
    exact hfresh p.1 (mem_points_iff_specs.mpr (.inr hpf)) y (mem_of_mem_foldl_skipPoint hy hnot) hkey
  have hreason : ∀ p ∈ (s.specs part).1, p.2.isMisfireSkip = false := by
    intro p hp
    rcases snd_of_mem_applyMisfire_fst hp with h | h | h <;> rw [h] <;> rfl
  rcases mem_foldl_firePoint (pairwise_specs_fst hsorted) hreason hfired hx with
    hrow | ⟨hnot, y, hy, hyx, hkeeps⟩
  · exact .inr (.inl hrow)
  · by_cases hin : x.scheduledFor ∈ (s.specs part).2.map Prod.fst
    · refine .inl ⟨hin, hkeeps _ (stable_misfired _) ?_⟩
      exact misfired_of_mem_foldl_skipPoint hskipped (fun p => snd_of_mem_applyMisfire_snd)
        (isSkip_misfireReason _).1 hy (hyx ▸ hin)
    · refine .inr (.inr ⟨fun hpt => ?_, y, mem_of_mem_foldl_skipPoint hy (hyx ▸ hin), hyx, hkeeps⟩)
      exact (mem_points_iff_specs.mp hpt).elim hin hnot

theorem exists_mem_firePoints {part : MisfirePartition}
    (ht : t ∈ part.points ∨ ∃ x ∈ occs, x.scheduledFor = t) :
    ∃ y ∈ firePoints s now env occs (s.specs part), y.scheduledFor = t := by
  rw [mem_points_iff_specs (s := s), or_comm (a := t ∈ (s.specs part).2.map Prod.fst), or_assoc] at ht
  exact exists_mem_foldl_firePoint (ht.imp id fun h => exists_mem_foldl_skipPoint h)

/-! ### The rows of the other transitions -/

/-- At the instants of `ts` no row comes or goes, and a decided row stays decided. -/
def EvolvesAt (ts : Set Instant) (occs occs' : Occurrences) : Prop :=
  (∀ x ∈ occs', x.scheduledFor ∈ ts → ∃ y ∈ occs, y.scheduledFor = x.scheduledFor ∧
      (y.Recorded → x.Recorded)) ∧
    ∀ y ∈ occs, y.scheduledFor ∈ ts → ∃ x ∈ occs', x.scheduledFor = y.scheduledFor

variable {ts : Set Instant}

theorem EvolvesAt.refl (ts : Set Instant) (occs : Occurrences) : EvolvesAt ts occs occs :=
  ⟨fun x hx _ => ⟨x, hx, rfl, id⟩, fun y hy _ => ⟨y, hy, rfl⟩⟩

theorem EvolvesAt.trans {occs₁ occs₂ occs₃ : Occurrences} (h₁ : EvolvesAt ts occs₁ occs₂)
    (h₂ : EvolvesAt ts occs₂ occs₃) : EvolvesAt ts occs₁ occs₃ := by
  constructor
  · intro x hx hts
    obtain ⟨y, hy, hyx, hrec⟩ := h₂.1 x hx hts
    obtain ⟨z, hz, hzy, hrec'⟩ := h₁.1 y hy (hyx ▸ hts)
    exact ⟨z, hz, hzy.trans hyx, fun h => hrec (hrec' h)⟩
  · intro z hz hts
    obtain ⟨y, hy, hyz⟩ := h₁.2 z hz hts
    obtain ⟨x, hx, hxy⟩ := h₂.2 y hy (hyz ▸ hts)
    exact ⟨x, hx, hxy.trans hyz⟩

variable (ts s now env trigger) in
theorem evolvesAt_tryFire (hr : r ∈ occs) :
    EvolvesAt ts occs (tryFireOccurrence s occs r now env trigger).1 := by
  refine ⟨fun x hx _ => ?_, fun y hy _ => exists_mem_tryFire _ _ _ _ hr hy⟩
  rcases mem_tryFire hr hx with ⟨hkey, ⟨-, rfl⟩ | ⟨base, fire, hplanned, hfired⟩⟩ | ⟨-, y, hy, hover⟩
  · exact ⟨x, hr, rfl, id⟩
  · exact ⟨r, hr, hkey.symm, fun _ => hfired.recorded hplanned⟩
  · exact ⟨y, hy, hover.scheduledFor_eq.symm, fun h => hover.recorded h⟩

theorem evolvesAt_releaseWaiting (ws : List Instant) :
    EvolvesAt ts occs (releaseWaiting s now env ws occs) := by
  induction ws generalizing occs with
  | nil => exact .refl ts occs
  | cons w ws ih =>
    rw [releaseWaiting]
    split
    · exact ih
    · case h_2 r hr =>
      have hfire := evolvesAt_tryFire now s env .schedule ts (Table.mem_of_find? hr)
      split
      · case h_1 occs' heq =>
        rw [heq] at hfire
        exact hfire
      · case h_2 occs' fire _ heq =>
        rw [heq] at hfire
        exact hfire.trans ih

theorem evolvesAt_trigger (hts : now ∉ ts)
    (h : triggerSchedule s occs now env = some occs') : EvolvesAt ts occs occs' := by
  obtain ⟨r, hr, hplanned, -, base, r', fire, hfired, rfl⟩ := triggerSchedule_cases h
  have hkey := hr.scheduledFor_eq
  constructor
  · intro x hx hxts
    have hne : x.scheduledFor ≠ now := fun h => hts (h ▸ hxts)
    rcases hfired.mem_put hx with rfl | ⟨-, y, hy, hover⟩
    · exact absurd (hfired.scheduledFor_eq.trans hkey) hne
    · rcases mem_entered_iff.mp hy with rfl | ⟨hy, -⟩
      · exact absurd (hover.scheduledFor_eq.trans hkey) hne
      · exact ⟨y, hy, hover.scheduledFor_eq.symm, fun h => hover.recorded h⟩
  · intro y hy hyts
    have hne : y.scheduledFor ≠ now := fun h => hts (h ▸ hyts)
    have hy' : y ∈ occs.entered r := mem_entered_iff.mpr (.inr ⟨hy, by rwa [hkey]⟩)
    have hbase : ∃ z ∈ base, z.scheduledFor = y.scheduledFor := by
      rcases hfired.base_cases with rfl | ⟨-, rfl⟩
      · exact ⟨y, hy', rfl⟩
      · exact ⟨_, Table.mem_mapRows.mpr ⟨y, hy', rfl⟩, ScheduleOccurrence.scheduledFor_overtake⟩
    obtain ⟨z, hz, hzy⟩ := hbase
    exact ⟨z, Table.mem_put_of_ne hz (by rwa [hzy, hfired.scheduledFor_eq, hkey]), hzy⟩

theorem evolvesAt_updateRow {f : ScheduleOccurrence → Option ScheduleOccurrence}
    (hf : ∀ r r', f r = some r' → r'.scheduledFor = r.scheduledFor ∧ (r.Recorded → r'.Recorded))
    (h : occs.updateRow t f = some occs') : EvolvesAt ts occs occs' := by
  obtain ⟨r, r', hr, -, hfr, rfl⟩ := updateRow_cases h
  obtain ⟨hkey, hrec⟩ := hf r r' hfr
  constructor
  · intro x hx _
    rcases Table.mem_put hx with rfl | ⟨hx, -⟩
    · exact ⟨r, hr, hkey.symm, hrec⟩
    · exact ⟨x, hx, rfl, id⟩
  · intro y hy _
    by_cases hyr : y.scheduledFor = r'.scheduledFor
    · exact ⟨r', Table.mem_put_self hy hyr, hyr.symm⟩
    · exact ⟨y, Table.mem_put_of_ne hy hyr, rfl⟩

/-- A move of an Execution decides its occurrence, or leaves it decided. -/
theorem recorded_stage (h : r.stage = some r') :
    r'.scheduledFor = r.scheduledFor ∧ (r.Recorded → r'.Recorded) := by
  rw [ScheduleOccurrence.stage] at h
  split at h <;> cases h
  exact ⟨rfl, fun _ => ScheduleOccurrence.recorded_of_execution rfl⟩

theorem recorded_claim (h : r.claim = some r') :
    r'.scheduledFor = r.scheduledFor ∧ (r.Recorded → r'.Recorded) := by
  rw [ScheduleOccurrence.claim] at h
  split at h <;> cases h
  exact ⟨rfl, fun _ => ScheduleOccurrence.recorded_of_execution rfl⟩

theorem recorded_advance {status : ExecutionStatus} (h : r.advance status = some r') :
    r'.scheduledFor = r.scheduledFor ∧ (r.Recorded → r'.Recorded) := by
  rw [ScheduleOccurrence.advance] at h
  split at h <;> cases h
  exact ⟨rfl, fun _ => ScheduleOccurrence.recorded_of_execution rfl⟩

theorem recorded_planMaterialized (h : r.planMaterialized = some r') :
    r'.scheduledFor = r.scheduledFor ∧ (r.Recorded → r'.Recorded) := by
  rw [ScheduleOccurrence.planMaterialized] at h
  split at h <;> cases h
  exact ⟨rfl, fun _ => ScheduleOccurrence.recorded_of_execution rfl⟩

theorem recorded_planFailed {refusal : Refusal} (h : r.planFailed refusal now = some r') :
    r'.scheduledFor = r.scheduledFor ∧ (r.Recorded → r'.Recorded) := by
  rw [ScheduleOccurrence.planFailed] at h
  split at h
  · case isTrue hplan =>
    split at h <;> cases h
    · exact ⟨rfl, fun _ => ScheduleOccurrence.recorded_of_planOutbox hplan⟩
    · exact ⟨rfl, id⟩
  · cases h

theorem recorded_reconcile {finishedAt : Option Instant} :
    (r.reconcile finishedAt now).scheduledFor = r.scheduledFor ∧
      (r.Recorded → (r.reconcile finishedAt now).Recorded) := by
  rw [ScheduleOccurrence.reconcile]
  split
  · exact ⟨rfl, id⟩
  · case h_2 st hst =>
    have hexec : r.execution.isSome = true := by
      rw [hst]
      rfl
    dsimp only
    split
    · exact ⟨rfl, id⟩
    · split <;> exact ⟨rfl, fun _ => ScheduleOccurrence.recorded_of_execution hexec⟩

/-! ### The invariant -/

variable {c : Calendar} {cfg : RuntimeConfig} {d : Definition} {w w' : World}
  {start latest : Instant}

/-- Every point after `start` and up to `latest` is decided, no later one has an occurrence, and the
next run is the next point. -/
structure Covered (c : Calendar) (d : Definition) (start : Instant) (w : World) (latest : Instant) :
    Prop where
  definition : w.schedule.definition = d
  status : w.schedule.status = .active ∨
    (w.schedule.status = .completed ∧ w.schedule.nextRunAt = none)
  next : IsNext (d.points c) latest w.schedule.nextRunAt
  recorded : ∀ t ∈ d.points c, start < t → t ≤ latest →
    ∃ r ∈ w.occurrences, r.scheduledFor = t ∧ r.Recorded
  fresh : ∀ t ∈ d.points c, latest < t → ∀ r ∈ w.occurrences, r.scheduledFor ≠ t

/-- The latest time of a due pass. -/
def latestAfter (latest : Instant) : Action → Instant
  | .due now _ => max latest now
  | _ => latest

/-- A run of one Schedule with the latest time of its due passes. -/
def trackStep (c : Calendar) (cfg : RuntimeConfig) (p : World × Instant) (a : Action) :
    Option (World × Instant) :=
  (p.1.step c cfg a).map (·, latestAfter p.2 a)

/-- The Schedule stays as it is and its due scan is not given up; a manual trigger does not fall on a
recurrence point. -/
def CoverageOk (c : Calendar) (cfg : RuntimeConfig) (w : World) : Action → Prop
  | .due now _ => ∀ next part, w.schedule.nextRunAt = some next →
      collectDuePoints c cfg w.schedule.definition next now = .ok part →
      part.scanExhausted = false
  | .trigger _ => w.clock ∉ w.schedule.definition.points c
  | .pause => False
  | _ => True

/-- The due pass of the condition reads one partition. -/
theorem coverageOk_due_iff {next : Instant} {part : MisfirePartition}
    (hnext : w.schedule.nextRunAt = some next)
    (hpart : collectDuePoints c cfg w.schedule.definition next now = .ok part) :
    CoverageOk c cfg w (.due now env) ↔ part.scanExhausted = false := by
  refine ⟨fun h => h next part hnext hpart, fun h next' part' hnext' hpart' => ?_⟩
  obtain rfl := Option.some.inj (hnext.symm.trans hnext')
  obtain rfl := Except.ok.inj (hpart.symm.trans hpart')
  exact h

/-- The recurrence points of a trigger are no computation; everything else of the condition is. -/
noncomputable instance (c : Calendar) (cfg : RuntimeConfig) (w : World) :
    (a : Action) → Decidable (CoverageOk c cfg w a)
  | .due now _ =>
    match hnext : w.schedule.nextRunAt with
    | none => isTrue fun _ _ h => absurd (h.symm.trans hnext) (Option.some_ne_none _)
    | some next =>
      match hpart : collectDuePoints c cfg w.schedule.definition next now with
      | .error _ => isTrue fun next' part h hp => by
          obtain rfl := Option.some.inj (hnext.symm.trans h)
          cases hpart.symm.trans hp
      | .ok _ => decidable_of_iff _ (coverageOk_due_iff hnext hpart).symm
  | .trigger _ => Classical.propDecidable _
  | .pause => isFalse id
  | .tick _ | .waiting _ _ | .activate | .resume | .update _ | .stage _ | .claim _ | .advance _ _
  | .planMaterialized _ | .planFailed _ _ | .reconcile _ _ _ => isTrue trivial

/-- What a due pass at `now` has decided: every point after `latest`, and exactly the missed ones
that are not among the newest within the limit are skipped by the misfire policy. -/
def DecidesUpTo (c : Calendar) (cfg : RuntimeConfig) (s : Schedule) (latest now : Instant)
    (occs : Occurrences) : Prop :=
  ∃ missed : List Instant, missed.Pairwise (· < ·) ∧
    (∀ t, t ∈ missed ↔ t ∈ s.definition.points c ∧ latest < t ∧ t ≤ now ∧
      t < now - cfg.misfireGraceSeconds * 1000000) ∧
    ∀ t ∈ s.definition.points c, latest < t → t ≤ now →
      ∃ r ∈ occs, r.scheduledFor = t ∧ r.Recorded ∧
        (r.record = some (.skipped (misfireReason s.misfirePolicy)) ↔
          t ∈ missed.take (missed.length - misfireLimit s.misfirePolicy s.maxCatchUp))

theorem Covered.of_evolves (h : Covered c d start w latest)
    (hdef : w'.schedule.definition = d)
    (hstatus : w'.schedule.status = .active ∨
      (w'.schedule.status = .completed ∧ w'.schedule.nextRunAt = none))
    (hnext : w'.schedule.nextRunAt = w.schedule.nextRunAt)
    (hrows : EvolvesAt (d.points c) w.occurrences w'.occurrences) :
    Covered c d start w' latest where
  definition := hdef
  status := hstatus
  next := hnext ▸ h.next
  recorded := by
    intro t ht hstart hlatest
    obtain ⟨y, hy, rfl, hrec⟩ := h.recorded t ht hstart hlatest
    obtain ⟨x, hx, hxy⟩ := hrows.2 y hy ht
    obtain ⟨z, hz, hzx, hkeeps⟩ := hrows.1 x hx (hxy ▸ ht)
    obtain rfl := Table.eq_of_key_eq hz hy (hzx.trans hxy)
    exact ⟨x, hx, hxy, hkeeps hrec⟩
  fresh := by
    rintro t ht hlatest x hx rfl
    obtain ⟨y, hy, hyx, -⟩ := hrows.1 x hx ht
    exact h.fresh _ ht hlatest y hy hyx

/-- Nothing is due when the next run is still to come. -/
theorem Covered.wait (h : Covered c d start w latest)
    (hwait : w.schedule.status = .active → ∀ next, w.schedule.nextRunAt = some next → now < next) :
    Covered c d start w (max latest now) ∧
      DecidesUpTo c cfg w.schedule latest now w.occurrences := by
  have hnone : ∀ t ∈ d.points c, t ≤ max latest now → t ≤ latest := by
    intro t ht hle
    cases hnext : w.schedule.nextRunAt with
    | none =>
      have hn := h.next
      rw [hnext] at hn
      exact hn t ht
    | some next =>
      have hn := h.next
      rw [hnext] at hn
      rcases h.status with hactive | ⟨-, hdone⟩
      · refine hn.le_of_lt ht rfl (hle.trans_lt (max_lt hn.lt (hwait hactive next hnext)))
      · rw [hnext] at hdone
        cases hdone
  refine ⟨⟨h.definition, h.status, ?_, fun t ht hstart hle => ?_, fun t ht hlt => ?_⟩,
    [], .nil, fun t => ⟨fun ht => absurd ht List.not_mem_nil, fun ht => ?_⟩, fun t ht hlt hle => ?_⟩
  · have hn := h.next
    cases hnext : w.schedule.nextRunAt with
    | none =>
      rw [hnext] at hn
      exact hn.mono_none (le_max_left _ _)
    | some next =>
      rw [hnext] at hn
      rcases h.status with hactive | ⟨-, hdone⟩
      · exact hn.mono (le_max_left _ _) (max_lt hn.lt (hwait hactive next hnext))
      · rw [hnext] at hdone
        cases hdone
  · exact h.recorded t ht hstart (hnone t ht hle)
  · exact h.fresh t ht ((le_max_left _ _).trans_lt hlt)
  · rw [h.definition] at ht
    exact absurd (hnone t ht.1 (ht.2.2.1.trans (le_max_right _ _))) (not_le.mpr ht.2.1)
  · rw [h.definition] at ht
    exact absurd (hnone t ht (hle.trans (le_max_right _ _))) (not_le.mpr hlt)

theorem fields_maybeComplete (s : Schedule) (occs : Occurrences) :
    (maybeCompleteSchedule s occs).definition = s.definition ∧
      (maybeCompleteSchedule s occs).nextRunAt = s.nextRunAt ∧
      (s.status = .active → (maybeCompleteSchedule s occs).status = .active ∨
        ((maybeCompleteSchedule s occs).status = .completed ∧ s.nextRunAt = none)) := by
  rcases maybeCompleteSchedule_cases s occs with ⟨heq, -⟩ | ⟨-, hnone, -, heq⟩
  · rw [heq]
    exact ⟨rfl, rfl, .inl⟩
  · rw [heq]
    exact ⟨rfl, rfl, fun _ => .inr ⟨rfl, hnone⟩⟩

/-- The points of a partition are those of the recurrence between the next run and now. -/
theorem mem_points_iff_of_collect {next : Instant} {part : MisfirePartition}
    (hcal : ∀ after, scanExhausted c d after = false) (hmem : next ∈ d.points c)
    (hpart : collectDuePoints c cfg d next now = .ok part) (hscan : part.scanExhausted = false) :
    t ∈ part.points ↔ t ∈ d.points c ∧ next ≤ t ∧ t ≤ now := by
  obtain ⟨points, hcollect, -, hmissed, htimely⟩ := collectDuePoints_eq_ok hpart
  rw [hscan] at hcollect
  rw [mem_points_iff hmissed htimely]
  exact mem_collect_iff (fun after _ h => isNext_nextScheduledAt h (hcal after)) hmem hcollect t

/-- A pass that decides its points. -/
theorem Covered.decide {next : Instant} {part : MisfirePartition}
    (hcal : ∀ after, scanExhausted c d after = false) (h : Covered c d start w latest)
    (hactive : w.schedule.status = .active) (hnext : w.schedule.nextRunAt = some next)
    (hle : next ≤ now) (hpart : collectDuePoints c cfg d next now = .ok part)
    (hscan : part.scanExhausted = false)
    (hs' : s = maybeCompleteSchedule { w.schedule with nextRunAt := part.nextAfter } occs')
    (hocc : occs' = firePoints w.schedule now env w.occurrences (w.schedule.specs part)) :
    Covered c d start { w with schedule := s, occurrences := occs' } (max latest now) ∧
      DecidesUpTo c cfg w.schedule latest now occs' := by
  have hn : IsNext (d.points c) latest (some next) := hnext ▸ h.next
  have hmax : max latest now = now := max_eq_right (hn.lt.le.trans hle)
  have hsorted := (sorted_points hpart hscan).2
  have hpoint : ∀ {t}, t ∈ part.points ↔ t ∈ d.points c ∧ latest < t ∧ t ≤ now := by
    intro t
    rw [mem_points_iff_of_collect hcal hn.mem hpart hscan]
    refine and_congr_right fun ht => and_congr_left fun _ => ⟨hn.lt.trans_le, fun hlt => ?_⟩
    exact hn.2 ⟨ht, hlt⟩
  have hfresh : ∀ t ∈ part.points, ∀ y ∈ w.occurrences, y.scheduledFor ≠ t := by
    intro t ht
    obtain ⟨ht, hlt, -⟩ := hpoint.mp ht
    exact h.fresh t ht hlt
  have hrow : ∀ t, (t ∈ part.points ∨ ∃ x ∈ w.occurrences, x.scheduledFor = t) →
      ∃ x ∈ occs', x.scheduledFor = t := by
    intro t ht
    rw [hocc]
    exact exists_mem_firePoints ht
  have hspec : ∀ x ∈ occs', _ := fun x hx => firePoints_spec hsorted hfresh (hocc ▸ hx)
  have hrecorded : Stable ScheduleOccurrence.Recorded := fun _ _ _ _ _ h => h.recorded
  have hmisfired : ∀ {x reason}, ScheduleOccurrence.Misfired reason x → x.Recorded := by
    rintro x reason ⟨-, hrecord⟩
    rw [ScheduleOccurrence.Recorded, hrecord]
    rfl
  obtain ⟨points, hcollect, hfuture, hmissed, htimely⟩ := collectDuePoints_eq_ok hpart
  obtain ⟨hdef, hnext', hstatus⟩ :=
    fields_maybeComplete { w.schedule with nextRunAt := part.nextAfter } occs'
  have hnow : IsNext (d.points c) now part.nextAfter := isNext_nextScheduledAt hfuture (hcal now)
  refine ⟨⟨?_, ?_, ?_, fun t ht hstart hlt => ?_, fun t ht hlt x hx hkey => ?_⟩, part.missed,
    ?_, fun t => ?_, fun t ht hlt hlen => ?_⟩
  · rw [hs', hdef]
    exact h.definition
  · rw [hs', hnext']
    exact hstatus hactive
  · rw [hs', hnext', hmax]
    exact hnow
  · rw [hmax] at hlt
    by_cases hpt : t ∈ part.points
    · obtain ⟨x, hx, rfl⟩ := hrow t (.inl hpt)
      refine ⟨x, hx, rfl, ?_⟩
      rcases hspec x hx with ⟨-, hrow⟩ | ⟨-, hrow, -⟩ | ⟨hne, -⟩
      · exact hmisfired hrow
      · exact hrow
      · exact absurd hpt hne
    · have hold : t ≤ latest := by
        by_contra hlater
        exact hpt (hpoint.mpr ⟨ht, not_le.mp hlater, hlt⟩)
      obtain ⟨y, hy, hyt, hrec⟩ := h.recorded t ht hstart hold
      obtain ⟨x, hx, rfl⟩ := hrow t (.inr ⟨y, hy, hyt⟩)
      refine ⟨x, hx, rfl, ?_⟩
      rcases hspec x hx with ⟨-, hrow⟩ | ⟨-, hrow, -⟩ | ⟨-, z, hz, hzx, hkeeps⟩
      · exact hmisfired hrow
      · exact hrow
      · obtain rfl := Table.eq_of_key_eq hz hy (hzx.trans hyt.symm)
        exact hkeeps _ hrecorded hrec
  · rw [hmax] at hlt
    have hpt : x.scheduledFor ∉ part.points := by
      rw [hkey, hpoint]
      exact fun hp => absurd hlt (not_lt.mpr hp.2.2)
    rcases hspec x hx with ⟨hin, -⟩ | ⟨hin, -⟩ | ⟨-, z, hz, hzx, -⟩
    · exact hpt (mem_points_iff_specs.mpr (.inl hin))
    · exact hpt (mem_points_iff_specs.mpr (.inr hin))
    · exact h.fresh t ht ((hn.lt.trans_le hle).trans hlt) z hz (hzx.trans hkey)
  · exact (List.pairwise_append.mp hsorted).1
  · rw [h.definition, hmissed, List.mem_filter, ← mem_points_iff hmissed htimely, hpoint,
      decide_eq_true_eq, and_assoc, and_assoc]
  · rw [h.definition] at ht
    have hpt : t ∈ part.points := hpoint.mpr ⟨ht, hlt, hlen⟩
    obtain ⟨x, hx, rfl⟩ := hrow t (.inl hpt)
    refine ⟨x, hx, rfl, ?_⟩
    rw [← map_fst_applyMisfire_snd part.timely]
    rcases hspec x hx with ⟨hin, hrow⟩ | ⟨hin, hrow, hnot⟩ | ⟨hne, -⟩
    · exact ⟨hmisfired hrow, iff_of_true hrow.2 hin⟩
    · refine ⟨hrow, iff_of_false (fun hrecord => ?_) fun hskip => specs_disjoint hsorted hskip hin⟩
      have hfalse := hnot _ (ScheduleOccurrence.decisionReason_of_record hrecord)
      rw [(isSkip_misfireReason _).2] at hfalse
      cases hfalse
    · exact absurd hpt hne

/-- A due pass covers the points up to its time. -/
theorem covered_due (hcal : ∀ after, scanExhausted c d after = false)
    (h : Covered c d start w latest) (hok : CoverageOk c cfg w (.due now env))
    (hstep : w.step c cfg (.due now env) = some w') :
    Covered c d start w' (max latest now) ∧
      DecidesUpTo c cfg w.schedule latest now w'.occurrences := by
  simp only [World.step] at hstep
  split at hstep
  · cases hstep
  · split at hstep
    · cases hstep
    · case h_2 s' occs' hdue =>
      cases hstep
      rcases processDueSchedule_cases hdue with ⟨hsame, hwait⟩ |
        ⟨next, part, hactive, hnext, hle, hpart, ⟨hgave, -⟩ | ⟨hscan, hocc, hs'⟩⟩
      · cases hsame
        exact h.wait hwait
      · rw [hok next part hnext hpart] at hgave
        cases hgave
      · rw [h.definition] at hpart
        exact h.decide hcal hactive hnext hle hpart hscan hs' hocc

/-- The other transitions neither add nor lose a point. -/
theorem covered_step (hcal : ∀ after, scanExhausted c d after = false)
    (h : Covered c d start w latest) {a : Action} (hok : CoverageOk c cfg w a)
    (hstep : w.step c cfg a = some w') : Covered c d start w' (latestAfter latest a) := by
  have hrow : ∀ {t : Instant} {f : ScheduleOccurrence → Option ScheduleOccurrence},
      (∀ r r', f r = some r' → r'.scheduledFor = r.scheduledFor ∧ (r.Recorded → r'.Recorded)) →
      (w.occurrences.updateRow t f).map ({ w with occurrences := · }) = some w' →
      Covered c d start w' latest := by
    intro t f hf hupdate
    obtain ⟨occs, hoccs, rfl⟩ := Option.map_eq_some_iff.mp hupdate
    exact h.of_evolves h.definition h.status rfl (evolvesAt_updateRow hf hoccs)
  have hnotPaused : w.schedule.status ≠ .paused := by
    rcases h.status with hs | ⟨hs, -⟩ <;> rw [hs] <;> decide
  cases a with
  | tick now =>
    simp only [World.step] at hstep
    split at hstep
    · cases hstep
      exact h.of_evolves h.definition h.status rfl (.refl _ _)
    · cases hstep
  | due now env => exact (covered_due hcal h hok hstep).1
  | waiting now env =>
    simp only [World.step] at hstep
    split at hstep
    · cases hstep
    · cases hstep
      rw [processWaitingSchedule]
      split
      · exact h.of_evolves h.definition h.status rfl (.refl _ _)
      · case isFalse hactive =>
        obtain ⟨hdef, hnext, hstatus⟩ := fields_maybeComplete w.schedule
          (releaseWaiting w.schedule now env w.occurrences.listWaiting w.occurrences)
        refine h.of_evolves (hdef.trans h.definition) ?_ hnext (evolvesAt_releaseWaiting _)
        dsimp only
        rw [hnext]
        exact hstatus (not_not.mp hactive)
  | trigger env =>
    simp only [World.step, Option.map_eq_some_iff] at hstep
    obtain ⟨occs, htrigger, rfl⟩ := hstep
    have hpoint : w.clock ∉ d.points c := h.definition ▸ hok
    exact h.of_evolves h.definition h.status rfl (evolvesAt_trigger hpoint htrigger)
  | activate =>
    simp only [World.step, Option.map_eq_some_iff] at hstep
    obtain ⟨s', hactivate, rfl⟩ := hstep
    rw [activateSchedule] at hactivate
    split at hactivate
    · cases hactivate
      exact h
    · cases hactivate
  | pause => exact hok.elim
  | resume =>
    simp only [World.step, Option.map_eq_some_iff] at hstep
    obtain ⟨s', hresume, rfl⟩ := hstep
    rw [resumeSchedule] at hresume
    split at hresume
    · cases hresume
      exact h
    · cases hresume
  | update config =>
    simp only [World.step, Option.map_eq_some_iff] at hstep
    obtain ⟨s', hupdate, rfl⟩ := hstep
    rw [updateSchedule, if_pos hnotPaused] at hupdate
    cases hupdate
  | stage t => exact hrow (fun _ _ => recorded_stage) hstep
  | claim t => exact hrow (fun _ _ => recorded_claim) hstep
  | advance t status => exact hrow (fun _ _ => recorded_advance) hstep
  | planMaterialized t => exact hrow (fun _ _ => recorded_planMaterialized) hstep
  | planFailed t refusal => exact hrow (fun _ _ => recorded_planFailed) hstep
  | reconcile t finishedAt now =>
    refine hrow (fun r r' hr' => ?_) hstep
    cases hr'
    exact recorded_reconcile

/-- In every run of an ACTIVE Schedule with due passes at any times, every recurrence point from the
first next run up to the latest pass has exactly one occurrence, which is decided; the next run is
the least point after the latest pass; and the next pass skips, by its misfire policy, all missed
points but the newest within the limit. -/
theorem coverage_run (c : Calendar) (cfg : RuntimeConfig) {w w' : World} {start first : Instant}
    {latest : Instant} {as : List Action}
    (hcal : ∀ after, scanExhausted c w.schedule.definition after = false)
    (hactive : w.schedule.status = .active) (hfirst : w.schedule.nextRunAt = some first)
    (hcomputed : IsNext (w.schedule.definition.points c) start (some first))
    (hfresh : ∀ r ∈ w.occurrences, start < r.scheduledFor →
      r.scheduledFor ∉ w.schedule.definition.points c)
    (hmeet : Runs.StepsMeet (trackStep c cfg) (fun p => CoverageOk c cfg p.1) (w, start) as)
    (hrun : Runs.run (trackStep c cfg) (w, start) as = some (w', latest)) :
    (∀ t ∈ w.schedule.definition.points c, first ≤ t → t ≤ latest →
        ∃! r, r ∈ w'.occurrences ∧ r.scheduledFor = t ∧ ∃ record, r.record = some record) ∧
      IsNext (w.schedule.definition.points c) latest w'.schedule.nextRunAt ∧
      ∀ now env w'', CoverageOk c cfg w' (.due now env) →
        w'.step c cfg (.due now env) = some w'' →
        DecidesUpTo c cfg w'.schedule latest now w''.occurrences ∧
          IsNext (w.schedule.definition.points c) (max latest now) w''.schedule.nextRunAt := by
  have hinit : Covered c w.schedule.definition start w start := {
    definition := rfl
    status := .inl hactive
    next := hfirst ▸ hcomputed
    recorded := fun t _ hlt hle => absurd hlt (not_lt.mpr hle)
    fresh := fun t ht hlt r hr hkey => hfresh r hr (hkey ▸ hlt) (hkey ▸ ht) }
  have hcov : Covered c w.schedule.definition start w' latest :=
    @Runs.run_preserves _ _ _
      (fun p : World × Instant => Covered c w.schedule.definition start p.1 p.2) _
      (fun p a p' hinv hok hstep => by
        obtain ⟨v, hv, rfl⟩ := Option.map_eq_some_iff.mp hstep
        exact covered_step hcal hinv hok hv)
      _ _ _ hinit hmeet hrun
  refine ⟨fun t ht hge hle => ?_, hcov.next, fun now env w'' hok hstep => ?_⟩
  · obtain ⟨r, hr, rfl, hrec⟩ := hcov.recorded t ht (hcomputed.lt.trans_le hge) hle
    refine ⟨r, ⟨hr, rfl, Option.isSome_iff_exists.mp hrec⟩, fun x hx => ?_⟩
    exact Table.eq_of_key_eq hx.1 hr hx.2.1
  · obtain ⟨hcov', hdecides⟩ := covered_due hcal hcov hok hstep
    exact ⟨hdecides, hcov'.next⟩

/-- Every minute by CRON; of the missed points the newest one runs. -/
def cronSchedule : World where
  schedule := {
    status := .active
    targetType := .workflowVersion
    definition := ⟨.cron "* * * * *", "UTC", none, none⟩
    misfirePolicy := .runOnce
    overlapPolicy := .skip
    maxCatchUp := 1
    nextRunAt := some 60000000 }
  occurrences := Table.empty
  clock := 60000000

/-- The first candidate after any bound is a point. -/
theorem scanExhausted_cronSchedule (after : Instant) :
    scanExhausted utcCalendar cronSchedule.schedule.definition after = false := by
  have hscan : cronScanFrom utcZone (utcCalendar.getNext "* * * * *") after none none =
      .ok (.found ((after / 60000000 + 1) * 60000000)) :=
    cronScan_eq_found rfl (by simp [Zone.localWallExists, utcZone])
      (utcCalendar.getNext_isLeast "* * * * *" after _ rfl).1.2
  simp only [scanExhausted, cronSchedule, utcCalendar] at hscan ⊢
  rw [hscan]
  rfl

/-- Two passes, the second of which has missed four points and finds one in time. -/
def twoPasses : List Action :=
  [.due 60000000 calmEnv, .tick 370000000, .due 370000000 calmEnv]

theorem coverage_twoPasses : ∃ w',
    Runs.run (trackStep utcCalendar sampleRuntime) (cronSchedule, 0) twoPasses =
        some (w', 370000000) ∧
      ∀ t ∈ cronSchedule.schedule.definition.points utcCalendar, 60000000 ≤ t → t ≤ 370000000 →
        ∃! r, r ∈ w'.occurrences ∧ r.scheduledFor = t ∧ ∃ record, r.record = some record := by
  have hrun : (Runs.run (trackStep utcCalendar sampleRuntime) (cronSchedule, 0) twoPasses).any
      (fun p => decide (p.2 = 370000000)) = true := by
    decide +kernel
  obtain ⟨⟨w', latest⟩, hw', hlatest⟩ := (Option.any_eq_true _ _).mp hrun
  obtain rfl : latest = 370000000 := of_decide_eq_true hlatest
  have hmeet : Runs.StepsMeet (trackStep utcCalendar sampleRuntime)
      (fun p => CoverageOk utcCalendar sampleRuntime p.1) (cronSchedule, 0) twoPasses := by
    decide +kernel
  have hcomputed : IsNext (cronSchedule.schedule.definition.points utcCalendar) 0
      (some 60000000) :=
    isNext_nextScheduledAt (c := utcCalendar) (by decide +kernel) (scanExhausted_cronSchedule 0)
  exact ⟨w', hw', (coverage_run utcCalendar sampleRuntime scanExhausted_cronSchedule rfl rfl
    hcomputed (fun r hr => absurd hr List.not_mem_nil) hmeet hw').1⟩

end McpFlow.Scheduler
