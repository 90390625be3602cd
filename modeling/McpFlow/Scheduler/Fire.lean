import McpFlow.Scheduler.Runtime

/-!
# What a fire does

The overlap decision leaves the table alone, except under REPLACE, where every earlier occurrence is
kept, superseded or cancelled. `tryFire_cases` says once what the fire of an occurrence can do; the
passes fold it over their instants, and what every fire keeps, they keep.
-/

namespace McpFlow.Scheduler

open Occurrences
open Planner (OccurrenceStatus)

/-! ### Overtaken rows -/

/-- What REPLACE does to a row when the occurrence of `before` is tried: a superseded row is no
prior, so at most one of the two rewritings applies. -/
def ScheduleOccurrence.overtake (before now : Instant) (startedCalls : Instant → Bool)
    (r : ScheduleOccurrence) : ScheduleOccurrence :=
  if (r.supersede before now).scheduledFor < before ∧ (r.supersede before now).isActivePrior then
    (r.supersede before now).cancel now (startedCalls r.scheduledFor)
  else r.supersede before now

/-- A row is kept, superseded or cancelled. -/
inductive Overtaken (before now : Instant) (startedCalls : Instant → Bool)
    (r : ScheduleOccurrence) : ScheduleOccurrence → Prop
  | kept : Overtaken before now startedCalls r r
  | superseded (hlt : r.scheduledFor < before) (hplanned : r.status = .planned)
      (hreason : r.decisionReason = some .overlapReplaceWait) (hexec : r.execution = none) :
      Overtaken before now startedCalls r (r.failOrSkip .skipped .replaceSuperseded now)
  | cancelled (hlt : r.scheduledFor < before) (hprior : r.isActivePrior = true) :
      Overtaken before now startedCalls r (r.cancel now (startedCalls r.scheduledFor))

variable {before now : Instant} {startedCalls : Instant → Bool} {r : ScheduleOccurrence}
  {occs : Occurrences}

@[simp] theorem ScheduleOccurrence.scheduledFor_overtake :
    (r.overtake before now startedCalls).scheduledFor = r.scheduledFor := by
  rw [overtake]
  split <;> simp

variable (r before now startedCalls) in
theorem overtaken_overtake : Overtaken before now startedCalls r
    (r.overtake before now startedCalls) := by
  rw [ScheduleOccurrence.overtake]
  by_cases hsup : r.scheduledFor < before ∧ r.status = .planned ∧
      r.decisionReason = some .overlapReplaceWait ∧ r.execution = none
  · have heq : r.supersede before now = r.failOrSkip .skipped .replaceSuperseded now := if_pos hsup
    rw [heq, if_neg]
    · exact .superseded hsup.1 hsup.2.1 hsup.2.2.1 hsup.2.2.2
    · rintro ⟨-, hprior⟩
      simp [ScheduleOccurrence.isActivePrior, ScheduleOccurrence.isOpen,
        ScheduleOccurrence.failOrSkip] at hprior
  · have heq : r.supersede before now = r := if_neg hsup
    rw [heq]
    split
    · case isTrue h => exact .cancelled h.1 h.2
    · exact .kept

/-- A row that is not earlier is kept. -/
theorem ScheduleOccurrence.overtake_of_le (h : before ≤ r.scheduledFor) :
    r.overtake before now startedCalls = r := by
  have hsup : r.supersede before now = r := if_neg fun hs => absurd hs.1 (not_lt.mpr h)
  rw [overtake, hsup]
  exact if_neg fun hs => absurd hs.1 (not_lt.mpr h)

/-- The table after REPLACE. -/
def Occurrences.overtake (occs : Occurrences) (before now : Instant)
    (startedCalls : Instant → Bool) : Occurrences :=
  occs.mapRows (·.overtake before now startedCalls) fun _ => ScheduleOccurrence.scheduledFor_overtake

theorem cancelPriors_supersedeOlderReplaceWaits :
    (occs.supersedeOlderReplaceWaits before now).cancelPriors before now startedCalls =
      occs.overtake before now startedCalls := by
  refine Table.ext ?_
  simp only [cancelPriors, supersedeOlderReplaceWaits, Table.rows_mapRows, Occurrences.overtake,
    List.map_map]
  refine List.map_congr_left fun r _ => ?_
  simp only [Function.comp_apply, ScheduleOccurrence.overtake,
    ScheduleOccurrence.scheduledFor_supersede]

variable (startedCalls) in
/-- Without a prior left after the supersession, nothing is cancelled. -/
theorem supersede_eq_overtake
    (h : (occs.supersedeOlderReplaceWaits before now).activePriors before = []) :
    occs.supersedeOlderReplaceWaits before now = occs.overtake before now startedCalls := by
  rw [← cancelPriors_supersedeOlderReplaceWaits]
  refine (Table.mapRows_eq_self fun r hr => if_neg ?_).symm
  rintro ⟨hlt, hprior⟩
  rw [activePriors_eq_nil_iff.mp h r hr hlt] at hprior
  cases hprior

theorem stillInflight_of_activePriors_eq_nil (h : occs.activePriors before = []) :
    occs.stillInflight before startedCalls = false := by
  simp only [stillInflight, h, List.any_nil]

/-! ### The decision and the creation -/

/-- The occurrence may be created: nothing earlier is active, or overlap is allowed, or REPLACE has
ended everything earlier. -/
inductive Allowed (policy : ScheduleOverlapPolicy) (occs : Occurrences) (r : ScheduleOccurrence)
    (now : Instant) (env : FireEnv) : Occurrences → ScheduleOccurrence → Prop
  | clear (h : occs.activePriors r.scheduledFor = [] ∨ policy = .allow) :
      Allowed policy occs r now env occs r
  | replaced (hpolicy : policy = .replace) (hpriors : occs.activePriors r.scheduledFor ≠ [])
      (hover : (occs.supersedeOlderReplaceWaits r.scheduledFor now).stillInflight r.scheduledFor
        env.startedCalls = false) :
      Allowed policy occs r now env (occs.overtake r.scheduledFor now env.startedCalls)
        { r with decisionReason := some .overlapReplace }

/-- The row that `_create_execution_for_occurrence` leaves when it does not raise. -/
inductive Created (target : ScheduleTargetType) (r : ScheduleOccurrence) (env : FireEnv) :
    ScheduleOccurrence → Prop
  | existing (h : r.execution.isSome = true) : Created target r env r
  | workflow (htarget : target = .workflowVersion) (hexec : r.execution = none)
      (hpass : env.refusal r.scheduledFor = none) (reason : Option DecisionReason)
      (hreason : reason = if r.decisionReason = some .overlapReplaceWait then some .overlapReplace
        else r.decisionReason) :
      Created target r env { r with execution := some .created, decisionReason := reason }
  | handedOver (htarget : target = .agentVersion) (hexec : r.execution = none)
      (hpass : env.refusal r.scheduledFor = none) (hplan : r.planOutbox = true) :
      Created target r env r
  | handover (htarget : target = .agentVersion) (hexec : r.execution = none)
      (hpass : env.refusal r.scheduledFor = none) (hplan : r.planOutbox = false) :
      Created target r env
        { r with planOutbox := true, decisionReason := some .agentPlanQueued }

variable {s : Schedule} {env : FireEnv} {trigger : TriggerType} {r' : ScheduleOccurrence}
  {occs' : Occurrences}

theorem created_of_ok {target : ScheduleTargetType}
    (h : createExecution target r env trigger = .ok r') : Created target r env r' := by
  rw [createExecution.eq_def] at h
  split at h
  · case isTrue hexec =>
    cases h
    exact .existing hexec
  · case isFalse hexec =>
    have hexec : r.execution = none := by simpa using hexec
    split at h
    · split at h
      · cases h
      · split at h
        · cases h
        · case h_2 hpass =>
          split at h
          · case isTrue hplan =>
            cases h
            exact .handedOver rfl hexec hpass hplan
          · case isFalse hplan =>
            cases h
            exact .handover rfl hexec hpass (by simpa using hplan)
    · cases h
    · case h_3 hpass =>
      split at h
      · case isTrue hwait =>
        cases h
        exact .workflow rfl hexec hpass _ (if_pos hwait).symm
      · case isFalse hwait =>
        cases h
        exact .workflow rfl hexec hpass _ (if_neg hwait).symm

/-- What a fire of a PLANNED occurrence leaves: the table of the other rows, its row, its answer. -/
inductive Fired (s : Schedule) (occs : Occurrences) (r : ScheduleOccurrence) (now : Instant)
    (env : FireEnv) (trigger : TriggerType) : Occurrences → ScheduleOccurrence → Fire → Prop
  | unsupported (hagent : s.targetType = .agentVersion)
      (honce : s.definition.expression.isOnce = false) :
      Fired s occs r now env trigger occs
        (r.failOrSkip .failed .agentScheduleExecutionUnsupported now) .skipped
  | overlapSkip (hpolicy : s.overlapPolicy = .skip)
      (hpriors : occs.activePriors r.scheduledFor ≠ []) :
      Fired s occs r now env trigger occs (r.failOrSkip .skipped .overlapSkip now) .skipped
  | queued (hpolicy : s.overlapPolicy = .queue)
      (hpriors : occs.activePriors r.scheduledFor ≠ []) :
      Fired s occs r now env trigger occs { r with decisionReason := some .overlapQueue } .wait
  | replaceWait (hpolicy : s.overlapPolicy = .replace)
      (hpriors : occs.activePriors r.scheduledFor ≠ [])
      (hflight : (occs.supersedeOlderReplaceWaits r.scheduledFor now).stillInflight r.scheduledFor
        env.startedCalls = true) :
      Fired s occs r now env trigger (occs.overtake r.scheduledFor now env.startedCalls)
        { r with decisionReason := some .overlapReplaceWait } .replaceWait
  | refused {base : Occurrences} {r₁ : ScheduleOccurrence}
      (hallow : Allowed s.overlapPolicy occs r now env base r₁) (e : Refusal)
      (hcreate : createExecution s.targetType r₁ env trigger = .error e) :
      Fired s occs r now env trigger base (r₁.failOrSkip .failed e.reason now) .skipped
  | executed {base : Occurrences} {r₁ r₂ : ScheduleOccurrence}
      (hallow : Allowed s.overlapPolicy occs r now env base r₁)
      (hcreate : Created s.targetType r₁ env r₂) :
      Fired s occs r now env trigger base r₂ .executed

/-- A fire does nothing to an occurrence that is not PLANNED; otherwise it stores a row. -/
theorem tryFire_cases (s : Schedule) (occs : Occurrences) (r : ScheduleOccurrence) (now : Instant)
    (env : FireEnv) (trigger : TriggerType) :
    (r.status ≠ .planned ∧ tryFireOccurrence s occs r now env trigger = (occs, .noop)) ∨
      ∃ base r' fire, r.status = .planned ∧ Fired s occs r now env trigger base r' fire ∧
        tryFireOccurrence s occs r now env trigger = (base.put r', fire) := by
  by_cases hplanned : r.status = .planned
  swap
  · exact .inl ⟨hplanned, if_pos hplanned⟩
  right
  rw [tryFireOccurrence, if_neg (not_not.mpr hplanned)]
  by_cases hagent : s.targetType = .agentVersion ∧ ¬ s.definition.expression.isOnce
  · rw [if_pos hagent]
    exact ⟨_, _, _, hplanned, .unsupported hagent.1 (by simpa using hagent.2), rfl⟩
  rw [if_neg hagent]
  have hcreate : ∀ base r₁ stored, Allowed s.overlapPolicy occs r now env base r₁ →
      (∀ e, createExecution s.targetType r₁ env trigger = .error e →
        stored = (base.put (r₁.failOrSkip .failed e.reason now), Fire.skipped)) →
      (∀ r₂, createExecution s.targetType r₁ env trigger = .ok r₂ →
        stored = (base.put r₂, .executed)) →
      ∃ base' r' fire, r.status = .planned ∧ Fired s occs r now env trigger base' r' fire ∧
        stored = (base'.put r', fire) := by
    intro base r₁ stored hallow herror hok
    cases hcreate : createExecution s.targetType r₁ env trigger with
    | error e => exact ⟨_, _, _, hplanned, .refused hallow e hcreate, herror e hcreate⟩
    | ok r₂ => exact ⟨_, _, _, hplanned, .executed hallow (created_of_ok hcreate), hok r₂ hcreate⟩
  rw [evaluateOverlap.eq_def]
  by_cases hpriors : occs.activePriors r.scheduledFor = []
  · rw [if_pos hpriors]
    refine hcreate _ _ _ (.clear (.inl hpriors)) ?_ ?_ <;> (intro x hx; dsimp only; rw [hx])
  rw [if_neg hpriors]
  generalize hpolicy : s.overlapPolicy = policy at hcreate
  cases policy with
  | allow => refine hcreate _ _ _ (.clear (.inr rfl)) ?_ ?_ <;> (intro x hx; dsimp only; rw [hx])
  | skip => exact ⟨_, _, _, hplanned, .overlapSkip hpolicy hpriors, rfl⟩
  | queue => exact ⟨_, _, _, hplanned, .queued hpolicy hpriors, rfl⟩
  | replace =>
    dsimp only
    by_cases hnone : (occs.supersedeOlderReplaceWaits r.scheduledFor now).activePriors
        r.scheduledFor = []
    · rw [if_pos hnone, supersede_eq_overtake env.startedCalls hnone]
      refine hcreate _ _ _ (.replaced rfl hpriors (stillInflight_of_activePriors_eq_nil hnone))
        ?_ ?_ <;> (intro x hx; dsimp only; rw [hx])
    · rw [if_neg hnone, replaceCancelPriors, cancelPriors_supersedeOlderReplaceWaits]
      by_cases hflight : (occs.supersedeOlderReplaceWaits r.scheduledFor now).stillInflight
          r.scheduledFor env.startedCalls = true
      · rw [if_pos hflight]
        exact ⟨_, _, _, hplanned, .replaceWait hpolicy hpriors hflight, rfl⟩
      · rw [if_neg hflight]
        refine hcreate _ _ _ (.replaced rfl hpriors (by simpa using hflight)) ?_ ?_ <;>
          (intro x hx; dsimp only; rw [hx])

/-! ### The rows of a fire -/

theorem Allowed.base_cases {policy : ScheduleOverlapPolicy} {base : Occurrences}
    {r₁ : ScheduleOccurrence} (h : Allowed policy occs r now env base r₁) :
    (base = occs ∧ r₁ = r) ∨
      (policy = .replace ∧ base = occs.overtake r.scheduledFor now env.startedCalls ∧
        r₁ = { r with decisionReason := some .overlapReplace }) := by
  cases h with
  | clear => exact .inl ⟨rfl, rfl⟩
  | replaced hpolicy => exact .inr ⟨hpolicy, rfl, rfl⟩

theorem Fired.base_cases {base : Occurrences} {fire : Fire}
    (h : Fired s occs r now env trigger base r' fire) :
    base = occs ∨
      (s.overlapPolicy = .replace ∧
        base = occs.overtake r.scheduledFor now env.startedCalls) := by
  cases h with
  | unsupported => exact .inl rfl
  | overlapSkip => exact .inl rfl
  | queued => exact .inl rfl
  | replaceWait hpolicy => exact .inr ⟨hpolicy, rfl⟩
  | refused hallow => exact hallow.base_cases.imp (·.1) fun h => ⟨h.1, h.2.1⟩
  | executed hallow => exact hallow.base_cases.imp (·.1) fun h => ⟨h.1, h.2.1⟩

theorem Created.scheduledFor_eq {target : ScheduleTargetType} (h : Created target r env r') :
    r'.scheduledFor = r.scheduledFor := by
  cases h <;> rfl

theorem Fired.scheduledFor_eq {base : Occurrences} {fire : Fire}
    (h : Fired s occs r now env trigger base r' fire) : r'.scheduledFor = r.scheduledFor := by
  cases h with
  | unsupported => rfl
  | overlapSkip => rfl
  | queued => rfl
  | replaceWait => rfl
  | refused hallow => rcases hallow.base_cases with ⟨-, rfl⟩ | ⟨-, -, rfl⟩ <;> rfl
  | executed hallow hcreate =>
    rw [hcreate.scheduledFor_eq]
    rcases hallow.base_cases with ⟨-, rfl⟩ | ⟨-, -, rfl⟩ <;> rfl

/-- The other rows after a fire: each comes from an old row that was overtaken. -/
theorem Fired.mem_put {base : Occurrences} {fire : Fire} {x : ScheduleOccurrence}
    (h : Fired s occs r now env trigger base r' fire) (hx : x ∈ base.put r') :
    x = r' ∨ (x.scheduledFor ≠ r.scheduledFor ∧
      ∃ y ∈ occs, Overtaken r.scheduledFor now env.startedCalls y x) := by
  rcases Table.mem_put hx with rfl | ⟨hx, hne⟩
  · exact .inl rfl
  · right
    rw [h.scheduledFor_eq] at hne
    refine ⟨hne, ?_⟩
    rcases h.base_cases with rfl | ⟨-, rfl⟩
    · exact ⟨x, hx, .kept⟩
    · obtain ⟨y, hy, rfl⟩ := Table.mem_mapRows.mp hx
      exact ⟨y, hy, (overtaken_overtake _ _ _ _)⟩

/-- An old row after a fire: kept unless it is earlier. -/
theorem Fired.mem_put_of_le {base : Occurrences} {fire : Fire} {x : ScheduleOccurrence}
    (h : Fired s occs r now env trigger base r' fire) (hx : x ∈ occs)
    (hle : r.scheduledFor ≤ x.scheduledFor) (hne : x.scheduledFor ≠ r.scheduledFor) :
    x ∈ base.put r' := by
  refine Table.mem_put_of_ne ?_ (by rw [h.scheduledFor_eq]; exact hne)
  rcases h.base_cases with rfl | ⟨-, rfl⟩
  · exact hx
  · exact Table.mem_mapRows.mpr ⟨x, hx, ScheduleOccurrence.overtake_of_le hle⟩

/-- A later row after a fire is an old row. -/
theorem Fired.mem_of_lt {base : Occurrences} {fire : Fire} {x : ScheduleOccurrence}
    (h : Fired s occs r now env trigger base r' fire) (hx : x ∈ base.put r')
    (hlt : r.scheduledFor < x.scheduledFor) : x ∈ occs := by
  rcases h.mem_put hx with rfl | ⟨-, y, hy, hover⟩
  · rw [h.scheduledFor_eq] at hlt
    exact absurd hlt (lt_irrefl _)
  · cases hover with
    | kept => exact hy
    | superseded hearlier => exact absurd hlt (not_lt.mpr hearlier.le)
    | cancelled hearlier =>
      rw [ScheduleOccurrence.scheduledFor_cancel] at hlt
      exact absurd hlt (not_lt.mpr hearlier.le)

/-- Without REPLACE the other rows stay. -/
theorem Fired.base_eq {base : Occurrences} {fire : Fire}
    (h : Fired s occs r now env trigger base r' fire) (hpolicy : s.overlapPolicy ≠ .replace) :
    base = occs := by
  rcases h.base_cases with rfl | ⟨hreplace, -⟩
  · rfl
  · exact absurd hreplace hpolicy

/-- The fired row is stored. -/
theorem Fired.mem_put_self {base : Occurrences} {fire : Fire}
    (h : Fired s occs r now env trigger base r' fire) (hr : r ∈ occs) : r' ∈ base.put r' := by
  have hbase : ∃ y ∈ base, y.scheduledFor = r.scheduledFor := by
    rcases h.base_cases with rfl | ⟨-, rfl⟩
    · exact ⟨r, hr, rfl⟩
    · exact ⟨_, Table.mem_mapRows.mpr ⟨r, hr, rfl⟩, by simp⟩
  obtain ⟨y, hy, hkey⟩ := hbase
  exact Table.mem_put_self hy (by rw [hkey, h.scheduledFor_eq])

/-! ### Entering an occurrence -/

/-- The row that a due point or a manual trigger brings in: the row of its instant, or a new one,
with the reason of the decision. -/
inductive Entered (occs : Occurrences) (t : Instant) (reason : DecisionReason) :
    ScheduleOccurrence → Prop
  | old {r₀ : ScheduleOccurrence} (hmem : r₀ ∈ occs) (hkey : r₀.scheduledFor = t) :
      Entered occs t reason { r₀ with decisionReason := some reason }
  | new (hnone : ∀ x ∈ occs, x.scheduledFor ≠ t) :
      Entered occs t reason { planned t with decisionReason := some reason }

/-- The table with the entered row. -/
def Occurrences.entered (occs : Occurrences) (r : ScheduleOccurrence) : Occurrences :=
  (occs.createPlanned r.scheduledFor).1.put r

variable {t : Instant} {reason : DecisionReason} {x : ScheduleOccurrence}

theorem Entered.scheduledFor_eq (h : Entered occs t reason r) : r.scheduledFor = t := by
  cases h with
  | old _ hkey => exact hkey
  | new => rfl

theorem Entered.decisionReason_eq (h : Entered occs t reason r) :
    r.decisionReason = some reason := by
  cases h <;> rfl

theorem entered_createPlanned (occs : Occurrences) (t : Instant) (reason : DecisionReason) :
    Entered occs t reason { (occs.createPlanned t).2 with decisionReason := some reason } := by
  rcases createPlanned_cases occs t with hold | ⟨hnew, hnone⟩
  · exact .old hold (mem_createPlanned occs t).2
  · rw [hnew]
    exact .new hnone

theorem mem_entered_iff : x ∈ occs.entered r ↔
    x = r ∨ (x ∈ occs ∧ x.scheduledFor ≠ r.scheduledFor) := by
  obtain ⟨hmem, hkey⟩ := mem_createPlanned occs r.scheduledFor
  rw [Occurrences.entered, Table.mem_put_iff hmem hkey]
  refine or_congr_right ⟨fun ⟨hx, hne⟩ => ?_, fun ⟨hx, hne⟩ => ⟨mem_createPlanned_iff.mpr (.inl hx), hne⟩⟩
  rcases mem_createPlanned_iff.mp hx with hx | rfl
  · exact ⟨hx, hne⟩
  · exact absurd hkey hne

variable (occs r) in
theorem mem_entered_self : r ∈ occs.entered r := mem_entered_iff.mpr (.inl rfl)

/-- A due point enters its row and tries it. -/
theorem firePoint_eq (s : Schedule) (now : Instant) (env : FireEnv) (occs : Occurrences) (p : Spec) :
    ∃ r, Entered occs p.1 p.2 r ∧
      firePoint s now env occs p = (tryFireOccurrence s (occs.entered r) r now env .schedule).1 := by
  refine ⟨_, entered_createPlanned occs p.1 p.2, ?_⟩
  rw [Occurrences.entered, (entered_createPlanned occs p.1 p.2).scheduledFor_eq]
  rfl

theorem skipPoint_eq (now : Instant) (occs : Occurrences) (p : Spec) :
    skipPoint now occs p =
      if (occs.createPlanned p.1).2.status = .planned then
        (occs.createPlanned p.1).1.put ((occs.createPlanned p.1).2.failOrSkip .skipped p.2 now)
      else (occs.createPlanned p.1).1 := rfl

/-- A skipped point stores a skipped row over a PLANNED one. -/
theorem mem_skipPoint {p : Spec} (hx : x ∈ skipPoint now occs p) :
    (x ∈ occs ∧ (x.scheduledFor = p.1 → x.status ≠ .planned)) ∨
      ∃ r, Entered occs p.1 p.2 r ∧ r.status = .planned ∧
        x = r.failOrSkip .skipped p.2 now := by
  obtain ⟨hmem, hkey⟩ := mem_createPlanned occs p.1
  rw [skipPoint_eq] at hx
  split at hx
  · case isTrue hplanned =>
    rcases Table.mem_put hx with rfl | ⟨hx, hne⟩
    · exact .inr ⟨_, entered_createPlanned occs p.1 p.2, hplanned, rfl⟩
    · rw [ScheduleOccurrence.scheduledFor_failOrSkip, hkey] at hne
      rcases mem_createPlanned_iff.mp hx with hx | rfl
      · exact .inl ⟨hx, fun h => absurd h hne⟩
      · exact absurd hkey hne
  · case isFalse hplanned =>
    rcases createPlanned_cases occs p.1 with hold | ⟨hnew, -⟩
    · rcases mem_createPlanned_iff.mp hx with hx | rfl
      · refine .inl ⟨hx, fun h => ?_⟩
        rwa [Table.eq_of_key_eq hx hold (h.trans hkey.symm)]
      · exact .inl ⟨hold, fun _ => hplanned⟩
    · rw [hnew] at hplanned
      exact absurd rfl hplanned

variable (now) in
/-- A skipped point leaves the other rows. -/
theorem mem_skipPoint_of_ne {p : Spec} (hx : x ∈ occs) (hne : x.scheduledFor ≠ p.1) :
    x ∈ skipPoint now occs p := by
  have hx' : x ∈ (occs.createPlanned p.1).1 := mem_createPlanned_iff.mpr (.inl hx)
  rw [skipPoint_eq]
  split
  · refine Table.mem_put_of_ne hx' ?_
    rwa [ScheduleOccurrence.scheduledFor_failOrSkip, (mem_createPlanned occs p.1).2]
  · exact hx'

/-- Without REPLACE, a fired point leaves the other rows. -/
theorem mem_firePoint_of_ne {p : Spec} (hpolicy : s.overlapPolicy ≠ .replace) (hx : x ∈ occs)
    (hne : x.scheduledFor ≠ p.1) : x ∈ firePoint s now env occs p := by
  obtain ⟨r, hr, heq⟩ := firePoint_eq s now env occs p
  have hne' : x.scheduledFor ≠ r.scheduledFor := by rwa [hr.scheduledFor_eq]
  have hx' : x ∈ occs.entered r := mem_entered_iff.mpr (.inr ⟨hx, hne'⟩)
  rw [heq]
  obtain ⟨-, hnoop⟩ | ⟨base, r', fire, -, hfired, hput⟩ :=
    tryFire_cases s (occs.entered r) r now env .schedule
  · rwa [hnoop]
  · rw [hput, hfired.base_eq hpolicy]
    exact Table.mem_put_of_ne hx' (by rwa [hfired.scheduledFor_eq])

end McpFlow.Scheduler
