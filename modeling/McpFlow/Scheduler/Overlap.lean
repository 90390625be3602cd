import McpFlow.Scheduler.Coverage

/-!
# Overlap exclusion

Under SKIP, QUEUE and REPLACE an occurrence gets its Execution only when no earlier occurrence is
active. `_active_priors` looks at earlier instants alone, so a due pass that catches up on points
older than a manual trigger fires beside it; and a plan handed over to the agent planner is no prior
until its Execution exists. Apart from these two, at most one Execution of a Schedule is open, held
occurrences stand behind it, QUEUE releases them in order, and REPLACE lets the newest win.
-/

namespace McpFlow.Scheduler

open Recurrence Occurrences
open Planner (OccurrenceStatus)

/-! ### Occupants -/

/-- The Execution counts against the overlap policy: it is not terminal, and for REPLACE it is not
asked to cancel either. -/
def ScheduleOccurrence.occupies (policy : ScheduleOverlapPolicy) (r : ScheduleOccurrence) : Bool :=
  match policy with
  | .allow => false
  | .replace => r.execution.any fun st => !st.isTerminal && st ≠ .cancelRequested
  | .skip => r.isRunning
  | .queue => r.isRunning

/-- At most one Execution counts. -/
def Occurrences.Exclusive (policy : ScheduleOverlapPolicy) (occs : Occurrences) : Prop :=
  ∀ r ∈ occs, ∀ r' ∈ occs, r.occupies policy = true → r'.occupies policy = true → r = r'

/-- No later occurrence has an Execution that counts. -/
def Occurrences.NoneLater (policy : ScheduleOverlapPolicy) (occs : Occurrences) (t : Instant) :
    Prop :=
  ∀ r ∈ occs, t < r.scheduledFor → r.occupies policy = false

variable {policy : ScheduleOverlapPolicy} {r r' x y : ScheduleOccurrence}
  {occs occs' base : Occurrences} {now before t : Instant} {startedCalls : Instant → Bool}
  {s : Schedule} {env : FireEnv} {trigger : TriggerType} {fire : Fire}

theorem ScheduleOccurrence.isRunning_of_occupies (h : r.occupies policy = true) :
    r.isRunning = true := by
  cases policy with
  | allow => cases h
  | skip => exact h
  | queue => exact h
  | replace =>
    obtain ⟨st, hst, hlive⟩ := (Option.any_eq_true _ _).mp h
    exact (Option.any_eq_true _ _).mpr ⟨st, hst, (Bool.and_eq_true_iff.mp hlive).1⟩

theorem ScheduleOccurrence.execution_ne_none (h : r.isRunning = true) : r.execution ≠ none := by
  intro hnone
  rw [isRunning, hnone] at h
  cases h

theorem ScheduleOccurrence.isRunning_of_execution_eq_none (h : r.execution = none) :
    r.isRunning = false := by
  rw [isRunning, h]
  rfl

theorem ScheduleOccurrence.isRunning_congr (h : r'.execution = r.execution) :
    r'.isRunning = r.isRunning := by
  rw [isRunning, isRunning, h]

theorem ScheduleOccurrence.occupies_congr (h : r'.execution = r.execution) :
    r'.occupies policy = r.occupies policy := by
  cases policy <;> simp only [occupies, isRunning, h]

/-- A cancelled Execution is terminal or asked to cancel. -/
theorem ScheduleOccurrence.occupies_replace_cancel {b : Bool} :
    (r.cancel now b).occupies .replace = false := by
  have hstatus : ∀ st : ExecutionStatus, (!(cancelledStatus b st).isTerminal &&
      decide (cancelledStatus b st ≠ .cancelRequested)) = false := by
    intro st
    cases st <;> cases b <;> rfl
  rw [cancel]
  split
  · case h_1 hnone =>
    rw [occupies, hnone]
    rfl
  · case h_2 st hst =>
    dsimp only
    split
    · exact hstatus st
    · exact hstatus st

theorem ScheduleOccurrence.isRunning_of_cancel {b : Bool}
    (h : (r.cancel now b).isRunning = true) : r.isRunning = true := by
  have hstatus : ∀ st : ExecutionStatus, (cancelledStatus b st).isTerminal = false →
      st.isTerminal = false := by
    intro st hlive
    cases st <;> first | rfl | cases hlive
  rw [cancel] at h
  split at h
  · exact h
  · case h_2 st hst =>
    rw [isRunning, hst]
    dsimp only at h
    split at h
    · simpa [isRunning] using hstatus st (by simpa [isRunning] using h)
    · simpa [isRunning] using hstatus st (by simpa [isRunning] using h)

/-! ### Overtaken rows -/

/-- An overtaken row that runs has run before, and is still open when it was. -/
theorem Overtaken.isRunning (h : Overtaken before now startedCalls r x)
    (hx : x.isRunning = true) : r.isRunning = true := by
  cases h with
  | kept => exact hx
  | superseded _ _ _ hexec => exact absurd hexec (ScheduleOccurrence.execution_ne_none hx)
  | cancelled => exact ScheduleOccurrence.isRunning_of_cancel hx

theorem Overtaken.occupies (h : Overtaken before now startedCalls r x)
    (hx : x.occupies policy = true) : r.occupies policy = true := by
  cases policy with
  | allow => cases hx
  | skip => exact h.isRunning hx
  | queue => exact h.isRunning hx
  | replace =>
    cases h with
    | kept => exact hx
    | superseded => exact hx
    | cancelled =>
      rw [ScheduleOccurrence.occupies_replace_cancel] at hx
      cases hx

theorem ScheduleOccurrence.status_cancel_of_isRunning {b : Bool}
    (h : (r.cancel now b).isRunning = true) : (r.cancel now b).status = r.status := by
  rw [cancel] at h ⊢
  split at h
  · rfl
  · dsimp only at h ⊢
    split at h
    · case isTrue hterminal =>
      simp only [isRunning, Option.any_some, hterminal.1] at h
      cases h
    · case isFalse hlive => rw [if_neg hlive]

theorem Overtaken.isOpen (h : Overtaken before now startedCalls r x)
    (hr : r.isRunning = true → r.isOpen = true) (hx : x.isRunning = true) : x.isOpen = true := by
  cases h with
  | kept => exact hr hx
  | superseded _ _ _ hexec => exact absurd hexec (ScheduleOccurrence.execution_ne_none hx)
  | cancelled =>
    have hopen := hr (ScheduleOccurrence.isRunning_of_cancel hx)
    rwa [ScheduleOccurrence.isOpen, ScheduleOccurrence.status_cancel_of_isRunning hx]

/-- A held row that REPLACE leaves held is untouched. -/
theorem Overtaken.eq_of_isHeld (h : Overtaken before now startedCalls r x)
    (hx : x.isHeld = true) : x = r := by
  obtain ⟨hwait, hexec⟩ := ScheduleOccurrence.isHeld_iff.mp hx
  cases h with
  | kept => rfl
  | superseded =>
    rw [ScheduleOccurrence.isWaiting_failOrSkip (by decide)] at hwait
    cases hwait
  | cancelled =>
    refine ScheduleOccurrence.cancel_of_none ?_
    have hsome := ScheduleOccurrence.execution_cancel_isSome r now (b := startedCalls r.scheduledFor)
    rw [hexec] at hsome
    simpa using hsome.symm

/-- A row with an Execution is not superseded. -/
theorem ScheduleOccurrence.supersede_of_execution (h : r.execution ≠ none) :
    r.supersede before now = r :=
  if_neg fun hsup => h hsup.2.2.2

theorem ScheduleOccurrence.execution_supersede :
    (r.supersede before now).execution = r.execution := by
  rw [supersede]
  split <;> rfl

/-- Nothing earlier runs when REPLACE has overtaken it and no cancellation is left in flight. -/
theorem ScheduleOccurrence.isRunning_overtake (hr : r ∈ occs) (hlt : r.scheduledFor < before)
    (hopen : r.isRunning = true → r.isOpen = true)
    (hover : (occs.supersedeOlderReplaceWaits before now).stillInflight before startedCalls =
      false) : (r.overtake before now startedCalls).isRunning = false := by
  by_contra hnot
  have hrun' : (r.overtake before now startedCalls).isRunning = true := by simpa using hnot
  have hrun : r.isRunning = true := (overtaken_overtake _ _ _ _).isRunning hrun'
  have hprior : r.isActivePrior = true := isActivePrior_of_isRunning (hopen hrun) hrun
  have hsup : r.supersede before now = r := supersede_of_execution (execution_ne_none hrun)
  have hkept : r ∈ occs.supersedeOlderReplaceWaits before now :=
    Table.mem_mapRows.mpr ⟨r, hr, hsup⟩
  have hdone := List.any_eq_false.mp hover r (mem_activePriors.mpr ⟨hkept, hlt, hprior⟩)
  rw [overtake, hsup, if_pos ⟨hlt, hprior⟩, cancel] at hrun'
  split at hrun'
  · case h_1 hnone => exact execution_ne_none hrun hnone
  · case h_2 st hst =>
    rw [hst] at hdone
    have hterminal : (cancelledStatus (startedCalls r.scheduledFor) st).isTerminal = true := by
      simpa using hdone
    dsimp only at hrun'
    split at hrun' <;> simp [isRunning, hterminal] at hrun'

/-- Whatever is earlier does not count any more when REPLACE has overtaken it. -/
theorem ScheduleOccurrence.occupies_overtake (hopen : r.isRunning = true → r.isOpen = true)
    (hlt : r.scheduledFor < before) :
    (r.overtake before now startedCalls).occupies .replace = false := by
  rw [overtake]
  split
  · exact occupies_replace_cancel
  · case isFalse hnot =>
    by_contra hocc
    have hrun : r.isRunning = true := by
      have hrun := isRunning_of_occupies (by simpa using hocc)
      rwa [isRunning, execution_supersede] at hrun
    rw [supersede_of_execution (execution_ne_none hrun)] at hnot
    exact hnot ⟨hlt, isActivePrior_of_isRunning (hopen hrun) hrun⟩

/-- An earlier REPLACE_WAIT row is not held any more when it has been overtaken. -/
theorem ScheduleOccurrence.isHeld_overtake (hlt : r.scheduledFor < before)
    (hreason : r.isHeld = true → r.decisionReason = some .overlapReplaceWait) :
    (r.overtake before now startedCalls).isHeld = false := by
  by_contra hnot
  have hheld : (r.overtake before now startedCalls).isHeld = true := by simpa using hnot
  have hr : r.isHeld = true := by
    rwa [(overtaken_overtake _ _ _ _).eq_of_isHeld hheld] at hheld
  obtain ⟨hwait, hexec⟩ := isHeld_iff.mp hr
  have hsup : r.supersede before now = r.failOrSkip .skipped .replaceSuperseded now :=
    if_pos ⟨hlt, (isWaiting_iff.mp hwait).1, hreason hr, hexec⟩
  have hskipped : (r.overtake before now startedCalls).status = .skipped := by
    rw [overtake, hsup, if_neg]
    · rfl
    · rintro ⟨-, hprior⟩
      simp [isActivePrior, isOpen, failOrSkip] at hprior
  have hplanned := (isWaiting_iff.mp (isHeld_iff.mp hheld).1).1
  rw [hskipped] at hplanned
  cases hplanned

/-! ### Regular rows -/

/-- A wait reason is the one of the policy. -/
def ScheduleOccurrence.WaitsFor (policy : ScheduleOverlapPolicy) (r : ScheduleOccurrence) : Prop :=
  ∀ reason, r.decisionReason = some reason → reason.isWait = true →
    (policy = .queue ∧ reason = .overlapQueue) ∨
      (policy = .replace ∧ reason = .overlapReplaceWait)

/-- An open Execution has an open occurrence, a staged occurrence has an Execution, and a wait
reason is the one of the policy. -/
structure ScheduleOccurrence.Regular (policy : ScheduleOverlapPolicy) (r : ScheduleOccurrence) :
    Prop where
  isOpen : r.isRunning = true → r.isOpen = true
  staged : r.status = .enqueued ∨ r.status = .running → r.execution.isSome = true
  waits : r.WaitsFor policy

theorem ScheduleOccurrence.waitsFor_of_not_isWait {reason : DecisionReason}
    (hreason : r.decisionReason = some reason) (hwait : reason.isWait = false) :
    r.WaitsFor policy := by
  intro reason' hreason' hwait'
  rw [hreason] at hreason'
  cases hreason'
  rw [hwait] at hwait'
  cases hwait'

/-- A row that ends without an open Execution is regular. -/
theorem ScheduleOccurrence.regular_failOrSkip {status : OccurrenceStatus} {reason : DecisionReason}
    (hstatus : status = .failed ∨ status = .skipped) (hwait : reason.isWait = false)
    (hrun : r.isRunning = false) : (r.failOrSkip status reason now).Regular policy := by
  refine ⟨fun h => ?_, fun h => ?_, waitsFor_of_not_isWait rfl hwait⟩
  · change r.isRunning = true at h
    rw [hrun] at h
    cases h
  · rcases hstatus with rfl | rfl <;> rcases h with h | h <;> cases h

theorem Overtaken.regular (h : Overtaken before now startedCalls r x) (hr : r.Regular policy) :
    x.Regular policy := by
  refine ⟨h.isOpen hr.isOpen, fun hstaged => ?_, fun reason hreason => ?_⟩
  · cases h with
    | kept => exact hr.staged hstaged
    | superseded => rcases hstaged with hs | hs <;> cases hs
    | cancelled =>
      rw [ScheduleOccurrence.execution_cancel_isSome _ _]
      by_contra hnot
      have hnone : r.execution = none := by simpa using hnot
      rw [ScheduleOccurrence.cancel_of_none hnone] at hstaged
      have hsome := hr.staged hstaged
      rw [hnone] at hsome
      cases hsome
  · cases h with
    | kept => exact hr.waits reason hreason
    | superseded =>
      cases hreason
      exact fun hwait => nomatch hwait
    | cancelled =>
      rw [ScheduleOccurrence.decisionReason_cancel] at hreason
      exact hr.waits reason hreason

/-! ### The invariant -/

/-- What the fires of a policy keep: one Execution counts, nothing that runs is older, and the held
occurrences stand behind it. -/
structure Orderly (policy : ScheduleOverlapPolicy) (occs : Occurrences) : Prop where
  regular : ∀ r ∈ occs, r.Regular policy
  exclusive : occs.Exclusive policy
  newest : ∀ r ∈ occs, r.occupies policy = true → ∀ x ∈ occs, x.isRunning = true →
    r.scheduledFor ≤ x.scheduledFor
  heldLater : ∀ h ∈ occs, h.isHeld = true → ∀ r ∈ occs, r.occupies policy = true →
    r.scheduledFor < h.scheduledFor

theorem ScheduleOccurrence.not_isHeld_of_execution (h : r.execution ≠ none) : r.isHeld = false := by
  by_contra hheld
  exact h (isHeld_iff.mp (by simpa using hheld)).2

/-- A row after a step that takes nothing in: it counts, runs or is held only if it did before. -/
structure Fades (policy : ScheduleOverlapPolicy) (y x : ScheduleOccurrence) : Prop where
  key : y.scheduledFor = x.scheduledFor
  occupies : x.occupies policy = true → y.occupies policy = true
  isRunning : x.isRunning = true → y.isRunning = true
  isHeld : x.isHeld = true → y.isHeld = true

theorem Fades.refl (policy : ScheduleOverlapPolicy) (r : ScheduleOccurrence) : Fades policy r r :=
  ⟨rfl, id, id, id⟩

theorem Overtaken.fades (h : Overtaken before now startedCalls r x) : Fades policy r x :=
  ⟨h.scheduledFor_eq.symm, h.occupies, h.isRunning, fun hheld => h.eq_of_isHeld hheld ▸ hheld⟩

/-- An unchanged Execution counts as before. -/
theorem Fades.of_execution (hkey : r'.scheduledFor = r.scheduledFor)
    (hexec : r'.execution = r.execution) (hheld : r'.isHeld = true → r.isHeld = true) :
    Fades policy r r' :=
  ⟨hkey.symm, fun h => ScheduleOccurrence.occupies_congr hexec ▸ h,
    fun h => ScheduleOccurrence.isRunning_congr hexec ▸ h, hheld⟩

/-- Rows that only fade keep the invariant. -/
theorem Orderly.of_fades (h : Orderly policy occs) (hrows : ∀ x ∈ occs', x.Regular policy ∧
    ((x.isRunning = false ∧ x.isHeld = false) ∨ ∃ y ∈ occs, Fades policy y x)) :
    Orderly policy occs' := by
  have hrun : ∀ x ∈ occs', x.isRunning = true → ∃ y ∈ occs, Fades policy y x := by
    intro x hx hrun
    refine (hrows x hx).2.resolve_left fun hnot => ?_
    rw [hnot.1] at hrun
    cases hrun
  have hheld : ∀ x ∈ occs', x.isHeld = true → ∃ y ∈ occs, Fades policy y x := by
    intro x hx hheld
    refine (hrows x hx).2.resolve_left fun hnot => ?_
    rw [hnot.2] at hheld
    cases hheld
  have hocc : ∀ x ∈ occs', x.occupies policy = true → ∃ y ∈ occs, Fades policy y x :=
    fun x hx h => hrun x hx (ScheduleOccurrence.isRunning_of_occupies h)
  refine ⟨fun x hx => (hrows x hx).1, fun x hx x' hx' hxocc hxocc' => ?_,
    fun x hx hxocc x' hx' hxrun => ?_, fun x hx hxheld x' hx' hxocc => ?_⟩
  · obtain ⟨y, hy, hyx⟩ := hocc x hx hxocc
    obtain ⟨y', hy', hyx'⟩ := hocc x' hx' hxocc'
    have heq := h.exclusive y hy y' hy' (hyx.occupies hxocc) (hyx'.occupies hxocc')
    exact Table.eq_of_key_eq hx hx' (hyx.key.symm.trans ((congrArg _ heq).trans hyx'.key))
  · obtain ⟨y, hy, hyx⟩ := hocc x hx hxocc
    obtain ⟨y', hy', hyx'⟩ := hrun x' hx' hxrun
    rw [← hyx.key, ← hyx'.key]
    exact h.newest y hy (hyx.occupies hxocc) y' hy' (hyx'.isRunning hxrun)
  · obtain ⟨y, hy, hyx⟩ := hheld x hx hxheld
    obtain ⟨y', hy', hyx'⟩ := hocc x' hx' hxocc
    rw [← hyx.key, ← hyx'.key]
    exact h.heldLater y hy (hyx.isHeld hxheld) y' hy' (hyx'.occupies hxocc)

/-- Storing a row keeps the invariant when it stands in nobody's way. -/
theorem Orderly.put (h : Orderly policy occs) (hregular : r.Regular policy)
    (hcounts : r.occupies policy = true → ∀ x ∈ occs, x.scheduledFor ≠ r.scheduledFor →
      x.occupies policy = false ∧ (x.isRunning = true → r.scheduledFor < x.scheduledFor) ∧
        (x.isHeld = true → r.scheduledFor < x.scheduledFor))
    (hruns : r.isRunning = true → ∀ x ∈ occs, x.scheduledFor ≠ r.scheduledFor →
      x.occupies policy = true → x.scheduledFor < r.scheduledFor)
    (hheld : r.isHeld = true → ∀ x ∈ occs, x.scheduledFor ≠ r.scheduledFor →
      x.occupies policy = true → x.scheduledFor < r.scheduledFor) :
    Orderly policy (occs.put r) := by
  refine ⟨fun x hx => ?_, fun x hx y hy hxocc hyocc => ?_, fun x hx hxocc y hy hyrun => ?_,
    fun y hy hyheld x hx hxocc => ?_⟩
  · rcases Table.mem_put hx with rfl | ⟨hx, -⟩
    · exact hregular
    · exact h.regular x hx
  · rcases Table.mem_put hx with rfl | ⟨hx₀, hxne⟩ <;>
      rcases Table.mem_put hy with rfl | ⟨hy₀, hyne⟩
    · rfl
    · rw [(hcounts hxocc y hy₀ hyne).1] at hyocc
      cases hyocc
    · rw [(hcounts hyocc x hx₀ hxne).1] at hxocc
      cases hxocc
    · exact h.exclusive x hx₀ y hy₀ hxocc hyocc
  · rcases Table.mem_put hx with rfl | ⟨hx₀, hxne⟩ <;>
      rcases Table.mem_put hy with rfl | ⟨hy₀, hyne⟩
    · exact le_rfl
    · exact ((hcounts hxocc y hy₀ hyne).2.1 hyrun).le
    · exact (hruns hyrun x hx₀ hxne hxocc).le
    · exact h.newest x hx₀ hxocc y hy₀ hyrun
  · rcases Table.mem_put hx with rfl | ⟨hx₀, hxne⟩ <;>
      rcases Table.mem_put hy with rfl | ⟨hy₀, hyne⟩
    · have hexec := ScheduleOccurrence.execution_ne_none
        (ScheduleOccurrence.isRunning_of_occupies hxocc)
      rw [ScheduleOccurrence.not_isHeld_of_execution hexec] at hyheld
      cases hyheld
    · exact (hcounts hxocc y hy₀ hyne).2.2 hyheld
    · exact hheld hyheld x hx₀ hxne hxocc
    · exact h.heldLater y hy₀ hyheld x hx₀ hxocc

/-- Whatever counts is no later than an active prior. -/
theorem Orderly.le_of_isActivePrior (h : Orderly policy occs) (hr : r ∈ occs)
    (hocc : r.occupies policy = true) (hx : x ∈ occs) (hprior : x.isActivePrior = true) :
    r.scheduledFor ≤ x.scheduledFor := by
  rw [ScheduleOccurrence.isActivePrior, Bool.and_eq_true] at hprior
  obtain ⟨-, hprior⟩ := hprior
  cases hexec : x.execution with
  | some st =>
    rw [hexec] at hprior
    refine h.newest r hr hocc x hx ?_
    rw [ScheduleOccurrence.isRunning, hexec]
    exact hprior
  | none =>
    rw [hexec] at hprior
    simp only [Bool.or_eq_true, decide_eq_true_eq, or_assoc] at hprior
    rcases hprior with hwait | hstaged
    · exact (h.heldLater x hx (ScheduleOccurrence.isHeld_iff.mpr ⟨hwait, hexec⟩) r hr hocc).le
    · have hsome := (h.regular x hx).staged hstaged
      rw [hexec] at hsome
      cases hsome

/-! ### Fires -/

/-- Nothing earlier runs or is held when an occurrence may be created. -/
theorem Allowed.earlier {r₁ : ScheduleOccurrence} (hallow : Allowed policy occs r now env base r₁)
    (hpolicy : policy ≠ .allow) (h : ∀ y ∈ occs, y.Regular policy) (hx : x ∈ base)
    (hlt : x.scheduledFor < r.scheduledFor) : x.isRunning = false ∧ x.isHeld = false := by
  cases hallow with
  | clear hclear =>
    have hnone := activePriors_eq_nil_iff.mp (hclear.resolve_right hpolicy) x hx hlt
    constructor
    · by_contra hnot
      have hrun : x.isRunning = true := by simpa using hnot
      rw [ScheduleOccurrence.isActivePrior_of_isRunning ((h x hx).isOpen hrun) hrun] at hnone
      cases hnone
    · by_contra hnot
      obtain ⟨hwait, hexec⟩ := ScheduleOccurrence.isHeld_iff.mp (by simpa using hnot)
      rw [ScheduleOccurrence.isActivePrior_of_isWaiting hwait hexec] at hnone
      cases hnone
  | replaced hreplace _ hover =>
    subst hreplace
    obtain ⟨z, hz, rfl⟩ := Table.mem_mapRows.mp hx
    rw [ScheduleOccurrence.scheduledFor_overtake] at hlt
    refine ⟨ScheduleOccurrence.isRunning_overtake hz hlt (h z hz).isOpen hover,
      ScheduleOccurrence.isHeld_overtake hlt fun hheld => ?_⟩
    obtain ⟨-, reason, hreason, hiswait⟩ :=
      ScheduleOccurrence.isWaiting_iff.mp (ScheduleOccurrence.isHeld_iff.mp hheld).1
    rcases (h z hz).waits reason hreason hiswait with ⟨hqueue, -⟩ | ⟨-, rfl⟩
    · cases hqueue
    · exact hreason

theorem Allowed.waitsFor {r₁ : ScheduleOccurrence} (hallow : Allowed policy occs r now env base r₁)
    (hr : r.WaitsFor policy) : r₁.WaitsFor policy := by
  rcases hallow.base_cases with ⟨-, rfl⟩ | ⟨-, -, rfl⟩
  · exact hr
  · exact ScheduleOccurrence.waitsFor_of_not_isWait rfl rfl

/-- The reason of a fire belongs to the policy. -/
theorem Fired.waitsFor (hfired : Fired s occs r now env trigger base r' fire)
    (hr : r.WaitsFor s.overlapPolicy) : r'.WaitsFor s.overlapPolicy := by
  cases hfired with
  | unsupported => exact ScheduleOccurrence.waitsFor_of_not_isWait rfl rfl
  | overlapSkip => exact ScheduleOccurrence.waitsFor_of_not_isWait rfl rfl
  | queued hqueue =>
    rintro reason ⟨⟩ -
    exact .inl ⟨hqueue, rfl⟩
  | replaceWait hreplace =>
    rintro reason ⟨⟩ -
    exact .inr ⟨hreplace, rfl⟩
  | refused _ e => cases e <;> exact ScheduleOccurrence.waitsFor_of_not_isWait rfl rfl
  | executed hallow hcreate =>
    have hwaits := hallow.waitsFor hr
    cases hcreate with
    | existing => exact hwaits
    | workflow _ _ _ reason hreason =>
      intro reason' (hreason' : reason = some reason') hwait
      subst hreason
      split at hreason'
      · cases hreason'
        cases hwait
      · exact hwaits reason' hreason' hwait
    | handedOver => exact hwaits
    | handover => exact ScheduleOccurrence.waitsFor_of_not_isWait rfl rfl

/-- The fired row: it ends without an open Execution, keeps its Execution, or gets a new one. -/
theorem Fired.own_cases (hfired : Fired s occs r now env trigger base r' fire)
    (honce : s.targetType = .agentVersion → s.definition.expression.isOnce = true)
    (h : Orderly s.overlapPolicy occs) (hr : r ∈ occs) (hplanned : r.status = .planned) :
    ((r'.status = .failed ∨ r'.status = .skipped) ∧ r.isRunning = false ∧
        r'.execution = r.execution) ∨
      (r'.status = .planned ∧ r'.execution = r.execution) ∨
        (r'.status = .planned ∧ r.execution = none ∧ r'.execution = some .created ∧
          s.targetType = .workflowVersion ∧ env.refusal r.scheduledFor = none ∧
          ∃ r₁, Allowed s.overlapPolicy occs r now env base r₁) := by
  have hstatus : ∀ {base r₁}, Allowed s.overlapPolicy occs r now env base r₁ →
      r₁.status = .planned ∧ r₁.execution = r.execution ∧ r₁.scheduledFor = r.scheduledFor := by
    intro base r₁ hallow
    rcases hallow.base_cases with ⟨-, rfl⟩ | ⟨-, -, rfl⟩ <;> exact ⟨hplanned, rfl, rfl⟩
  cases hfired with
  | unsupported hagent hnot =>
    rw [honce hagent] at hnot
    cases hnot
  | overlapSkip hskip hpriors =>
    refine .inl ⟨.inr rfl, ?_, rfl⟩
    -- an occurrence that runs counts under SKIP, and is not later than its prior
    by_contra hnot
    have hrun : r.isRunning = true := by simpa using hnot
    have hocc : r.occupies s.overlapPolicy = true := by rwa [hskip]
    obtain ⟨b, hb⟩ := List.exists_mem_of_ne_nil _ hpriors
    obtain ⟨hb, hlt, hprior⟩ := mem_activePriors.mp hb
    exact absurd hlt (not_lt.mpr (h.le_of_isActivePrior hr hocc hb hprior))
  | queued => exact .inr (.inl ⟨hplanned, rfl⟩)
  | replaceWait => exact .inr (.inl ⟨hplanned, rfl⟩)
  | refused hallow e hcreate =>
    obtain ⟨-, hexec, -⟩ := hstatus hallow
    refine .inl ⟨.inl rfl, ?_, hexec⟩
    refine ScheduleOccurrence.isRunning_of_execution_eq_none (hexec ▸ ?_)
    by_contra hsome
    rw [createExecution_of_isSome (Option.isSome_iff_ne_none.mpr hsome)] at hcreate
    cases hcreate
  | executed hallow hcreate =>
    obtain ⟨hst, hexec, hkey⟩ := hstatus hallow
    cases hcreate with
    | existing => exact .inr (.inl ⟨hst, hexec⟩)
    | workflow htarget hnone hpass =>
      exact .inr (.inr ⟨hst, hexec ▸ hnone, rfl, htarget, hkey ▸ hpass, _, hallow⟩)
    | handedOver => exact .inr (.inl ⟨hst, hexec⟩)
    | handover => exact .inr (.inl ⟨hst, hexec⟩)

/-- A fired row that is held was held, or stands behind an active prior. -/
theorem Fired.isHeld_cases (hfired : Fired s occs r now env trigger base r' fire)
    (hheld : r'.isHeld = true) :
    r.isHeld = true ∨ occs.activePriors r.scheduledFor ≠ [] := by
  obtain ⟨hwait, hexec⟩ := ScheduleOccurrence.isHeld_iff.mp hheld
  have hsame : ∀ {base r₁}, Allowed s.overlapPolicy occs r now env base r₁ → r₁.isHeld = true →
      r.isHeld = true := by
    intro base r₁ hallow hheld
    rcases hallow.base_cases with ⟨-, rfl⟩ | ⟨-, -, rfl⟩
    · exact hheld
    · obtain ⟨-, reason, hreason, hiswait⟩ :=
        ScheduleOccurrence.isWaiting_iff.mp (ScheduleOccurrence.isHeld_iff.mp hheld).1
      cases hreason
      cases hiswait
  cases hfired with
  | unsupported =>
    rw [ScheduleOccurrence.isWaiting_failOrSkip (by decide)] at hwait
    cases hwait
  | overlapSkip =>
    rw [ScheduleOccurrence.isWaiting_failOrSkip (by decide)] at hwait
    cases hwait
  | queued _ hpriors => exact .inr hpriors
  | replaceWait _ hpriors => exact .inr hpriors
  | refused =>
    rw [ScheduleOccurrence.isWaiting_failOrSkip (by decide)] at hwait
    cases hwait
  | executed hallow hcreate =>
    cases hcreate with
    | existing => exact .inl (hsame hallow hheld)
    | workflow => cases hexec
    | handedOver => exact .inl (hsame hallow hheld)
    | handover =>
      obtain ⟨-, reason, hreason, hiswait⟩ := ScheduleOccurrence.isWaiting_iff.mp hwait
      cases hreason
      cases hiswait

theorem Fired.mem_base_self (hfired : Fired s occs r now env trigger base r' fire)
    (hr : r ∈ occs) : r ∈ base := by
  rcases hfired.base_cases with rfl | ⟨-, rfl⟩
  · exact hr
  · exact Table.mem_mapRows.mpr ⟨r, hr, ScheduleOccurrence.overtake_of_le le_rfl⟩

/-- The rows around the fired one are overtaken. -/
theorem Fired.overtaken_base (hfired : Fired s occs r now env trigger base r' fire)
    (hx : x ∈ base) : ∃ y ∈ occs, Overtaken r.scheduledFor now env.startedCalls y x := by
  rcases hfired.base_cases with rfl | ⟨-, rfl⟩
  · exact ⟨x, hx, .kept⟩
  · obtain ⟨y, hy, rfl⟩ := Table.mem_mapRows.mp hx
    exact ⟨y, hy, (overtaken_overtake _ _ _ _)⟩

/-- A fire keeps the invariant when no later Execution counts against the one that it creates. -/
theorem Fired.orderly (hfired : Fired s occs r now env trigger base r' fire)
    (hpolicy : s.overlapPolicy ≠ .allow)
    (honce : s.targetType = .agentVersion → s.definition.expression.isOnce = true)
    (h : Orderly s.overlapPolicy occs) (hr : r ∈ occs) (hplanned : r.status = .planned)
    (hlater : s.targetType = .workflowVersion → env.refusal r.scheduledFor = none →
      r.execution = none → occs.NoneLater s.overlapPolicy r.scheduledFor) :
    Orderly s.overlapPolicy (base.put r') := by
  have hbase : Orderly s.overlapPolicy base := by
    refine h.of_fades fun x hx => ?_
    obtain ⟨y, hy, hover⟩ := hfired.overtaken_base hx
    exact ⟨hover.regular (h.regular y hy), .inr ⟨y, hy, hover.fades⟩⟩
  have hrbase := hfired.mem_base_self hr
  have hown := hfired.own_cases honce h hr hplanned
  have hrow := h.regular r hr
  have hregular : r'.Regular s.overlapPolicy := by
    refine ⟨fun hrun => ?_, fun hstaged => ?_, hfired.waitsFor hrow.waits⟩
    · rcases hown with ⟨-, hnot, hexec⟩ | ⟨hst, -⟩ | ⟨hst, -⟩
      · rw [ScheduleOccurrence.isRunning_congr hexec, hnot] at hrun
        cases hrun
      · rw [ScheduleOccurrence.isOpen, hst]
        rfl
      · rw [ScheduleOccurrence.isOpen, hst]
        rfl
    · rcases hown with ⟨hst | hst, -⟩ | ⟨hst, -⟩ | ⟨hst, -⟩ <;> rw [hst] at hstaged <;>
        rcases hstaged with hs | hs <;> cases hs
  -- the fired row has its old Execution, or a new one that nothing stands against
  have hexec : r'.execution = r.execution ∨ (base.NoneLater s.overlapPolicy r.scheduledFor ∧
      ∃ r₁, Allowed s.overlapPolicy occs r now env base r₁) := by
    rcases hown with ⟨-, -, hexec⟩ | ⟨-, hexec⟩ | ⟨-, hnone, -, htarget, hpass, hallow⟩
    · exact .inl hexec
    · exact .inl hexec
    · refine .inr ⟨fun x hx hlt => ?_, hallow⟩
      by_contra hnot
      obtain ⟨y, hy, hover⟩ := hfired.overtaken_base hx
      have hocc : y.occupies s.overlapPolicy = true := hover.occupies (by simpa using hnot)
      rw [hlater htarget hpass hnone y hy (hover.scheduledFor_eq ▸ hlt)] at hocc
      cases hocc
  have hkey := hfired.scheduledFor_eq
  refine hbase.put hregular ?_ ?_ ?_ <;> rw [hkey]
  · intro hocc x hx hne
    rcases hexec with hexec | ⟨hnone, r₁, hallow⟩
    · rw [ScheduleOccurrence.occupies_congr hexec] at hocc
      refine ⟨?_, fun hrun => ?_, fun hheld => hbase.heldLater x hx hheld r hrbase hocc⟩
      · by_contra hnot
        have heq := hbase.exclusive x hx r hrbase (by simpa using hnot) hocc
        exact hne (congrArg _ heq)
      · exact lt_of_le_of_ne (hbase.newest r hrbase hocc x hx hrun) hne.symm
    · rcases lt_or_gt_of_ne hne with hlt | hlt
      · obtain ⟨hrun, hheld⟩ := hallow.earlier hpolicy h.regular hx hlt
        refine ⟨?_, fun h => ?_, fun h => ?_⟩
        · by_contra hnot
          rw [ScheduleOccurrence.isRunning_of_occupies (by simpa using hnot)] at hrun
          cases hrun
        · rw [hrun] at h
          cases h
        · rw [hheld] at h
          cases h
      · exact ⟨hnone x hx hlt, fun _ => hlt, fun _ => hlt⟩
  · intro hrun x hx hne hocc
    rcases hexec with hexec | ⟨hnone, -⟩
    · rw [ScheduleOccurrence.isRunning_congr hexec] at hrun
      exact lt_of_le_of_ne (hbase.newest x hx hocc r hrbase hrun) hne
    · refine lt_of_le_of_ne (not_lt.mp fun hlt => ?_) hne
      rw [hnone x hx hlt] at hocc
      cases hocc
  · intro hheld x hx hne hocc
    obtain ⟨y, hy, hover⟩ := hfired.overtaken_base hx
    have hyocc := hover.occupies hocc
    rw [hover.scheduledFor_eq]
    rcases hfired.isHeld_cases hheld with hrheld | hpriors
    · exact h.heldLater r hr hrheld y hy hyocc
    · obtain ⟨b, hb⟩ := List.exists_mem_of_ne_nil _ hpriors
      obtain ⟨hb, hlt, hprior⟩ := mem_activePriors.mp hb
      exact lt_of_le_of_lt (h.le_of_isActivePrior hy hyocc hb hprior) hlt

end McpFlow.Scheduler
