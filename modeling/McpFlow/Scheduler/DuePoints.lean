import McpFlow.Scheduler.Fire

/-!
# The due points of a pass

The points of a due pass are listed in order, the missed ones first. Misfire policy fires the newest
missed points up to its limit and every timely one, and skips the others with one reason.
-/

namespace McpFlow.Scheduler

open Recurrence Occurrences
open Planner (OccurrenceStatus)

/-! ### The misfire policy -/

/-- How many missed points a misfire policy fires. -/
def misfireLimit (policy : ScheduleMisfirePolicy) (maxCatchUp : ℤ) : ℕ :=
  match policy with
  | .skip => 0
  | .runOnce => 1
  | .catchUpLimited => (max 1 maxCatchUp).toNat

/-- The reason with which a misfire policy skips. -/
def misfireReason : ScheduleMisfirePolicy → DecisionReason
  | .skip => .misfireSkip
  | .runOnce => .misfireCoalesced
  | .catchUpLimited => .misfireCatchUpLimit

variable {policy : ScheduleMisfirePolicy} {maxCatchUp : ℤ} {missed timely : List Instant}

private theorem map_fst_tag (l : List Instant) (reason : DecisionReason) :
    (l.map (·, reason)).map Prod.fst = l := by
  rw [List.map_map]
  exact List.map_id l

/-- The fired points are the newest missed ones up to the limit, then the timely ones. -/
theorem map_fst_applyMisfire_fst : (applyMisfire policy maxCatchUp missed timely).1.map Prod.fst =
    missed.drop (missed.length - misfireLimit policy maxCatchUp) ++ timely := by
  cases policy with
  | skip =>
    rw [applyMisfire, misfireLimit, Nat.sub_zero, List.drop_length, List.nil_append]
    exact map_fst_tag timely _
  | runOnce =>
    rw [applyMisfire, misfireLimit, List.map_append, map_fst_tag, map_fst_tag]
    congr 1
    induction missed using List.reverseRecOn with
    | nil => rfl
    | append_singleton l t =>
      rw [List.getLast?_append_of_ne_nil _ (List.cons_ne_nil t []), List.length_append,
        List.length_singleton, Nat.add_sub_cancel, List.drop_left]
      rfl
  | catchUpLimited =>
    rw [applyMisfire, misfireLimit]
    split
    · case isTrue hle =>
      rw [Nat.sub_eq_zero_of_le hle, List.drop_zero, List.map_append, map_fst_tag, map_fst_tag]
    · rw [List.map_append, map_fst_tag, map_fst_tag]

variable (timely) in
/-- The skipped points are the older missed ones. -/
theorem map_fst_applyMisfire_snd : (applyMisfire policy maxCatchUp missed timely).2.map Prod.fst =
    missed.take (missed.length - misfireLimit policy maxCatchUp) := by
  cases policy with
  | skip =>
    rw [applyMisfire, misfireLimit, Nat.sub_zero, List.take_length]
    exact map_fst_tag missed _
  | runOnce =>
    rw [applyMisfire, misfireLimit, List.dropLast_eq_take]
    exact map_fst_tag _ _
  | catchUpLimited =>
    rw [applyMisfire, misfireLimit]
    split
    · case isTrue hle => rw [Nat.sub_eq_zero_of_le hle, List.take_zero, List.map_nil]
    · exact map_fst_tag _ _

/-- The skipped points have the reason of the policy. -/
theorem snd_of_mem_applyMisfire_snd {p : Spec}
    (hp : p ∈ (applyMisfire policy maxCatchUp missed timely).2) : p.2 = misfireReason policy := by
  cases policy with
  | skip =>
    obtain ⟨t, -, rfl⟩ := List.mem_map.mp hp
    rfl
  | runOnce =>
    obtain ⟨t, -, rfl⟩ := List.mem_map.mp hp
    rfl
  | catchUpLimited =>
    rw [applyMisfire] at hp
    split at hp
    · cases hp
    · obtain ⟨t, -, rfl⟩ := List.mem_map.mp hp
      rfl

/-- The fired points enter the fire as due, or as missed ones that run. -/
theorem snd_of_mem_applyMisfire_fst {p : Spec}
    (hp : p ∈ (applyMisfire policy maxCatchUp missed timely).1) :
    p.2 = .due ∨ p.2 = .misfireRunOnce ∨ p.2 = .misfireCatchUp := by
  have htag : ∀ (l : List Instant) reason, p ∈ l.map (·, reason) → p.2 = reason := by
    intro l reason h
    obtain ⟨t, -, rfl⟩ := List.mem_map.mp h
    rfl
  cases policy with
  | skip => exact .inl (htag _ _ hp)
  | runOnce =>
    rcases List.mem_append.mp hp with hp | hp
    · exact .inr (.inl (htag _ _ hp))
    · exact .inl (htag _ _ hp)
  | catchUpLimited =>
    rw [applyMisfire] at hp
    split at hp
    · rcases List.mem_append.mp hp with hp | hp
      · exact .inr (.inr (htag _ _ hp))
      · exact .inl (htag _ _ hp)
    · rcases List.mem_append.mp hp with hp | hp
      · exact .inr (.inr (htag _ _ hp))
      · exact .inl (htag _ _ hp)

/-! ### The partition -/

/-- The points of a pass, before and from the grace boundary. -/
def MisfirePartition.points (p : MisfirePartition) : List Instant := p.missed ++ p.timely

variable {c : Calendar} {cfg : RuntimeConfig} {d : Definition} {nextRunAt now : Instant}
  {part : MisfirePartition}

/-- What `_collect_due_points` reads. -/
theorem collectDuePoints_eq_ok (h : collectDuePoints c cfg d nextRunAt now = .ok part) :
    ∃ points, collect (nextScheduledAt c d) now cfg.dueScanLimit nextRunAt =
        .ok (points, part.scanExhausted) ∧
      nextScheduledAt c d now = .ok part.nextAfter ∧
      part.missed = points.filter (fun t => t < now - cfg.misfireGraceSeconds * 1000000) ∧
      part.timely = points.filter (fun t => now - cfg.misfireGraceSeconds * 1000000 ≤ t) := by
  obtain ⟨⟨points, gave⟩, hcollect, h⟩ := Except.bind_eq_ok_iff.mp h
  obtain ⟨future, hfuture, h⟩ := Except.bind_eq_ok_iff.mp h
  cases h
  exact ⟨points, hcollect, hfuture, rfl, rfl⟩

theorem mem_points_iff {points : List Instant} {boundary t : Instant}
    (hmissed : part.missed = points.filter fun t => t < boundary)
    (htimely : part.timely = points.filter fun t => boundary ≤ t) :
    t ∈ part.points ↔ t ∈ points := by
  simp only [MisfirePartition.points, hmissed, htimely, List.mem_append, List.mem_filter,
    decide_eq_true_eq]
  rcases lt_or_ge t boundary with hlt | hle
  · simp only [hlt, and_true, not_le.mpr hlt, and_false, or_false]
  · simp only [hle, and_true, not_lt.mpr hle, and_false, false_or]

/-- The points of a pass lie between the two ends, in ascending order. -/
theorem sorted_points (h : collectDuePoints c cfg d nextRunAt now = .ok part)
    (hscan : part.scanExhausted = false) :
    (∀ t ∈ part.points, nextRunAt ≤ t ∧ t ≤ now) ∧ part.points.Pairwise (· < ·) := by
  obtain ⟨points, hcollect, -, hmissed, htimely⟩ := collectDuePoints_eq_ok h
  rw [hscan] at hcollect
  obtain ⟨hbetween, hsorted⟩ := collect_sorted hcollect
  refine ⟨fun t ht => hbetween t ((mem_points_iff hmissed htimely).mp ht), ?_⟩
  rw [MisfirePartition.points, hmissed, htimely]
  refine List.pairwise_append.mpr ⟨hsorted.filter _, hsorted.filter _, fun a ha b hb => ?_⟩
  have ha := of_decide_eq_true (List.mem_filter.mp ha).2
  have hb := of_decide_eq_true (List.mem_filter.mp hb).2
  exact lt_of_lt_of_le ha hb

/-- The points that a partition fires and skips under the policy of a Schedule. -/
def Schedule.specs (s : Schedule) (part : MisfirePartition) : List Spec × List Spec :=
  applyMisfire s.misfirePolicy s.maxCatchUp part.missed part.timely

variable {s : Schedule}

/-- The fired points are ascending. -/
theorem pairwise_specs_fst (h : part.points.Pairwise (· < ·)) :
    (s.specs part).1.Pairwise fun p q => p.1 < q.1 := by
  rw [← List.pairwise_map (f := Prod.fst) (R := (· < ·)), Schedule.specs,
    map_fst_applyMisfire_fst]
  exact h.sublist ((List.drop_sublist _ _).append_right _)

/-- Every point of the partition is fired or skipped. -/
theorem mem_points_iff_specs {t : Instant} :
    t ∈ part.points ↔ t ∈ (s.specs part).2.map Prod.fst ∨ t ∈ (s.specs part).1.map Prod.fst := by
  rw [Schedule.specs, map_fst_applyMisfire_fst, map_fst_applyMisfire_snd _, MisfirePartition.points,
    List.mem_append, List.mem_append, ← or_assoc, ← List.mem_append (s := List.take _ _),
    List.take_append_drop]

/-- No point is both. -/
theorem specs_disjoint (h : part.points.Pairwise (· < ·)) {t : Instant}
    (hskip : t ∈ (s.specs part).2.map Prod.fst) : t ∉ (s.specs part).1.map Prod.fst := by
  intro hfire
  rw [Schedule.specs, map_fst_applyMisfire_snd _] at hskip
  rw [Schedule.specs, map_fst_applyMisfire_fst] at hfire
  rw [MisfirePartition.points, ← List.take_append_drop
    (part.missed.length - misfireLimit s.misfirePolicy s.maxCatchUp) part.missed,
    List.append_assoc] at h
  exact lt_irrefl t ((List.pairwise_append.mp h).2.2 t hskip t hfire)

/-! ### The passes -/

variable {occs occs' : Occurrences} {env : FireEnv} {s' : Schedule}

theorem maybeCompleteSchedule_cases (s : Schedule) (occs : Occurrences) :
    maybeCompleteSchedule s occs = s ∧
        (s.status = .active → s.nextRunAt = none → ∃ r ∈ occs, r.isWaiting = true) ∨
      s.status = .active ∧ s.nextRunAt = none ∧ (∀ r ∈ occs, r.isWaiting = false) ∧
        maybeCompleteSchedule s occs = { s with status := .completed } := by
  rw [maybeCompleteSchedule]
  split
  · case isTrue hstatus => exact .inl ⟨rfl, fun h => absurd h hstatus⟩
  · case isFalse hstatus =>
    split
    · case isTrue hnext =>
      refine .inl ⟨rfl, fun _ hnone => ?_⟩
      rw [hnone] at hnext
      cases hnext
    · case isFalse hnext =>
      split
      · case isTrue hheld => exact .inl ⟨rfl, fun _ _ => hasUnmaterializedHeld_iff.mp hheld⟩
      · case isFalse hheld =>
        refine .inr ⟨not_not.mp hstatus, by simpa using hnext, fun r hr => ?_, rfl⟩
        by_contra hwait
        exact hheld (hasUnmaterializedHeld_iff.mpr ⟨r, hr, by simpa using hwait⟩)

/-- A due pass does nothing, gives up its scan, or decides the points of its partition. -/
theorem processDueSchedule_cases
    (h : processDueSchedule c cfg s occs now env = .ok (s', occs')) :
    ((s', occs') = (s, occs) ∧ (s.status = .active → ∀ next, s.nextRunAt = some next → now < next)) ∨
      ∃ next part, s.status = .active ∧ s.nextRunAt = some next ∧ next ≤ now ∧
        collectDuePoints c cfg s.definition next now = .ok part ∧
        ((part.scanExhausted = true ∧ (s', occs') = ({ s with status := .error }, occs)) ∨
          (part.scanExhausted = false ∧ occs' = firePoints s now env occs (s.specs part) ∧
            s' = maybeCompleteSchedule { s with nextRunAt := part.nextAfter } occs')) := by
  rw [processDueSchedule.eq_def] at h
  split at h
  · case isTrue hstatus =>
    cases h
    exact .inl ⟨rfl, fun h => absurd h hstatus⟩
  · case isFalse hstatus =>
    split at h
    · case h_1 hnone =>
      cases h
      exact .inl ⟨rfl, fun _ next hnext => by rw [hnone] at hnext; cases hnext⟩
    · case h_2 next hnext =>
      split at h
      · case isTrue hlt =>
        cases h
        refine .inl ⟨rfl, fun _ next' hnext' => ?_⟩
        rw [hnext] at hnext'
        cases hnext'
        exact hlt
      · case isFalse hle =>
        obtain ⟨part, hpart, h⟩ := Except.bind_eq_ok_iff.mp h
        refine .inr ⟨next, part, not_not.mp hstatus, hnext, not_lt.mp hle, hpart, ?_⟩
        split at h
        · case isTrue hscan =>
          cases h
          exact .inl ⟨hscan, rfl⟩
        · case isFalse hscan =>
          cases h
          exact .inr ⟨by simpa using hscan, rfl, rfl⟩

end McpFlow.Scheduler
