import McpFlow.Scheduler.DuePoints
import McpFlow.Scheduler.World

/-!
# Completion of a Schedule

An ACTIVE Schedule without a next run lives for its held occurrences. `_has_unmaterialized_held`
looks at status and reason only, and a released QUEUE occurrence keeps both, so the last release does
not complete the Schedule, and no later pass looks at it. A resume that finds no next run and a
manual trigger that supersedes the last held occurrence leave the same state.
-/

namespace McpFlow.Scheduler

open Occurrences
open Planner (OccurrenceStatus)

/-! ### Held occurrences -/

/-- The occurrence waits and has no Execution yet. -/
def ScheduleOccurrence.isHeld (r : ScheduleOccurrence) : Bool := r.isWaiting && r.execution.isNone

/-- Every occurrence that `_has_unmaterialized_held` counts is held. -/
def Occurrences.NoneMaterialized (occs : Occurrences) : Prop :=
  ∀ r ∈ occs, r.isWaiting = true → r.execution = none

/-- Some occurrence is held. -/
def Occurrences.HasHeld (occs : Occurrences) : Prop := ∃ r ∈ occs, r.isHeld = true

/-- An ACTIVE Schedule with nothing left to come has a held occurrence. -/
def World.HoldsOrCompletes (w : World) : Prop :=
  w.schedule.status = .active → w.schedule.nextRunAt = none → w.occurrences.HasHeld

variable {r r' x : ScheduleOccurrence} {occs occs' : Occurrences} {now : Instant}

theorem ScheduleOccurrence.isWaiting_iff : r.isWaiting = true ↔
    r.status = .planned ∧ ∃ reason, r.decisionReason = some reason ∧ reason.isWait = true := by
  simp only [isWaiting, decide_eq_true_eq, Option.any_eq_true]

theorem ScheduleOccurrence.isHeld_iff :
    r.isHeld = true ↔ r.isWaiting = true ∧ r.execution = none := by
  simp only [isHeld, Bool.and_eq_true, Option.isNone_iff_eq_none]

theorem ScheduleOccurrence.isWaiting_failOrSkip {status : OccurrenceStatus}
    {reason : DecisionReason} (h : status ≠ .planned) :
    (r.failOrSkip status reason now).isWaiting = false := by
  simp [isWaiting, failOrSkip, h]

@[simp] theorem ScheduleOccurrence.decisionReason_cancel {startedCalls : Bool} :
    (r.cancel now startedCalls).decisionReason = r.decisionReason := by
  rw [cancel]
  split
  · rfl
  · dsimp only
    split <;> rfl

/-- A cancelled prior that is still PLANNED was PLANNED before. -/
theorem ScheduleOccurrence.status_of_cancel {startedCalls : Bool}
    (h : (r.cancel now startedCalls).status = .planned) : r.status = .planned := by
  rw [cancel] at h
  split at h
  · exact h
  · case h_2 s hs =>
    dsimp only at h
    split at h
    · case isTrue hterminal =>
      rcases projectOccurrenceStatus_of_isTerminal hterminal.1 with hdone | hdone <;>
        · rw [hdone] at h
          cases h
    · exact h

theorem ScheduleOccurrence.isWaiting_of_cancel {startedCalls : Bool}
    (h : (r.cancel now startedCalls).isWaiting = true) : r.isWaiting = true := by
  obtain ⟨hstatus, hreason⟩ := isWaiting_iff.mp h
  rw [decisionReason_cancel] at hreason
  exact isWaiting_iff.mpr ⟨status_of_cancel hstatus, hreason⟩

theorem ScheduleOccurrence.cancel_of_none {startedCalls : Bool} (h : r.execution = none) :
    r.cancel now startedCalls = r := by
  rw [cancel]
  split
  · rfl
  · case h_2 s hs =>
    rw [h] at hs
    cases hs

/-- An overtaken row that waits and has an Execution was such a row before. -/
theorem Overtaken.execution_eq_none {before : Instant} {startedCalls : Instant → Bool}
    (h : Overtaken before now startedCalls r x)
    (hnone : r.isWaiting = true → r.execution = none) (hx : x.isWaiting = true) :
    x.execution = none := by
  cases h with
  | kept => exact hnone hx
  | superseded =>
    rw [ScheduleOccurrence.isWaiting_failOrSkip (by decide)] at hx
    cases hx
  | cancelled =>
    have hexec := hnone (ScheduleOccurrence.isWaiting_of_cancel hx)
    rw [ScheduleOccurrence.cancel_of_none hexec]
    exact hexec

variable {s : Schedule} {env : FireEnv} {trigger : TriggerType} {base : Occurrences} {fire : Fire}

/-- The fired occurrence does not wait with an Execution, unless it is a QUEUE occurrence that the
creation of its Execution leaves as it is. -/
theorem Fired.execution_eq_none (h : Fired s occs r now env trigger base r' fire)
    (hexec : r.execution = none)
    (hreason : s.targetType = .agentVersion ∨ r.decisionReason ≠ some .overlapQueue ∨
      env.refusal r.scheduledFor ≠ none) (hwait : r'.isWaiting = true) : r'.execution = none := by
  cases h with
  | unsupported =>
    rw [ScheduleOccurrence.isWaiting_failOrSkip (by decide)] at hwait
    cases hwait
  | overlapSkip =>
    rw [ScheduleOccurrence.isWaiting_failOrSkip (by decide)] at hwait
    cases hwait
  | queued => exact hexec
  | replaceWait => exact hexec
  | refused =>
    rw [ScheduleOccurrence.isWaiting_failOrSkip (by decide)] at hwait
    cases hwait
  | executed hallow hcreate =>
    have hexec₁ := hallow.base_cases
    cases hcreate with
    | existing hsome =>
      rcases hallow.base_cases with ⟨-, rfl⟩ | ⟨-, -, rfl⟩ <;> simp [hexec] at hsome
    | workflow htarget _ hpass reason hr =>
      -- the reason that the creation leaves waits only when it was OVERLAP_QUEUE
      obtain ⟨-, reason', hreason', hiswait⟩ := ScheduleOccurrence.isWaiting_iff.mp hwait
      dsimp only at hreason'
      subst hr
      rcases hallow.base_cases with ⟨-, rfl⟩ | ⟨-, -, rfl⟩
      · rcases hreason with hagent | hne | hrefused
        · rw [htarget] at hagent
          cases hagent
        · split at hreason'
          · cases hreason'
            cases hiswait
          · case isFalse hnot =>
            rw [hreason'] at hne hnot
            simp only [DecisionReason.isWait, decide_eq_true_eq] at hiswait
            rcases hiswait with rfl | rfl
            · exact absurd rfl hne
            · exact absurd rfl hnot
        · exact absurd hpass hrefused
      · dsimp only at hreason'
        rw [if_neg (by decide)] at hreason'
        cases hreason'
        cases hiswait
    | handedOver => rcases hallow.base_cases with ⟨-, rfl⟩ | ⟨-, -, rfl⟩ <;> exact hexec
    | handover => rcases hallow.base_cases with ⟨-, rfl⟩ | ⟨-, -, rfl⟩ <;> exact hexec

/-- A fire keeps the table free of waiting occurrences with an Execution when its own is none. -/
theorem noneMaterialized_put (hocc : occs.NoneMaterialized)
    (h : Fired s occs r now env trigger base r' fire)
    (hown : r'.isWaiting = true → r'.execution = none) :
    NoneMaterialized (base.put r') := by
  intro x hx hwait
  rcases h.mem_put hx with rfl | ⟨-, y, hy, hover⟩
  · exact hown hwait
  · exact hover.execution_eq_none (hocc y hy) hwait

/-! ### The release of held occurrences -/

/-- An older occurrence stops the release of `r` under QUEUE: its Execution is not terminal, or it is
held, passes its preflight and is tried first. -/
def Blocks (env : FireEnv) (ts : List Instant) (occs : Occurrences) (r b : ScheduleOccurrence) :
    Prop :=
  b ∈ occs ∧ b.scheduledFor < r.scheduledFor ∧
    ((b.isOpen = true ∧ b.isRunning = true) ∨
      (b.isHeld = true ∧ env.refusal b.scheduledFor = none ∧ b.scheduledFor ∈ ts))

theorem ScheduleOccurrence.isHeld_queued (h : r.isHeld = true) :
    ScheduleOccurrence.isHeld { r with decisionReason := some .overlapQueue } = true := by
  obtain ⟨hwait, hexec⟩ := isHeld_iff.mp h
  exact isHeld_iff.mpr ⟨isWaiting_iff.mpr ⟨(isWaiting_iff.mp hwait).1, _, rfl, rfl⟩, hexec⟩

theorem ScheduleOccurrence.isRunning_of_created (h : r.execution = some .created) :
    r.isRunning = true := by
  rw [isRunning, h]
  rfl

theorem createExecution_of_isSome {target : ScheduleTargetType} (h : r.execution.isSome = true) :
    createExecution target r env trigger = .ok r := by
  rw [createExecution.eq_def, if_pos h]

theorem createExecution_ne_error (hexec : r.execution = none)
    (hpass : env.refusal r.scheduledFor = none) (e : Refusal) :
    createExecution .workflowVersion r env trigger ≠ .error e := by
  rw [createExecution.eq_def, if_neg (by rw [hexec]; decide), hpass]
  dsimp only
  split <;> simp

/-- A blocked occurrence is queued when it is tried. -/
theorem Fired.wait_of_blocked (h : Fired s occs r now env trigger base r' fire)
    (hpolicy : s.overlapPolicy = .queue) (htarget : s.targetType = .workflowVersion)
    (hpriors : occs.activePriors r.scheduledFor ≠ []) :
    fire = .wait ∧ r' = { r with decisionReason := some .overlapQueue } := by
  have hallow : ∀ {base r₁}, ¬ Allowed s.overlapPolicy occs r now env base r₁ := by
    rintro base r₁ (h | h)
    · rcases h with h | h
      · exact hpriors h
      · rw [hpolicy] at h
        cases h
    · rw [hpolicy] at h
      cases h
  cases h with
  | unsupported hagent =>
    rw [htarget] at hagent
    cases hagent
  | overlapSkip hskip =>
    rw [hpolicy] at hskip
    cases hskip
  | queued => exact ⟨rfl, rfl⟩
  | replaceWait hreplace =>
    rw [hpolicy] at hreplace
    cases hreplace
  | refused h => exact absurd h hallow
  | executed h => exact absurd h hallow

theorem Fired.eq_of_wait (h : Fired s occs r now env trigger base r' fire) (hfire : fire = .wait) :
    r' = { r with decisionReason := some .overlapQueue } := by
  cases h with
  | queued => rfl
  | _ => cases hfire

/-- A blocker that is tried and does not wait is in the way of the later ones afterwards. -/
theorem Fired.isRunning_of_blocker (h : Fired s occs r now env trigger base r' fire)
    (hpolicy : s.overlapPolicy = .queue) (htarget : s.targetType = .workflowVersion)
    (hfire : fire ≠ .wait) (hplanned : r.status = .planned)
    (hr : r.isRunning = true ∨ (r.isHeld = true ∧ env.refusal r.scheduledFor = none)) :
    r'.isOpen = true ∧ r'.isRunning = true := by
  have hopen : ∀ {x : ScheduleOccurrence}, x.status = .planned → x.isOpen = true := by
    intro x hx
    simp only [ScheduleOccurrence.isOpen, hx, true_or, decide_true]
  have hsome : r.isRunning = true → r.execution.isSome = true := by
    intro hrun
    obtain ⟨s, hs, -⟩ := (Option.any_eq_true _ _).mp hrun
    rw [hs]
    rfl
  have hsame : ∀ {base r₁}, Allowed s.overlapPolicy occs r now env base r₁ → r₁ = r := by
    intro base r₁ hallow
    rcases hallow.base_cases with ⟨-, rfl⟩ | ⟨hreplace, -⟩
    · rfl
    · rw [hpolicy] at hreplace
      cases hreplace
  cases h with
  | unsupported hagent =>
    rw [htarget] at hagent
    cases hagent
  | overlapSkip hskip =>
    rw [hpolicy] at hskip
    cases hskip
  | queued => exact absurd rfl hfire
  | replaceWait hreplace =>
    rw [hpolicy] at hreplace
    cases hreplace
  | refused hallow e hcreate =>
    rw [hsame hallow] at hcreate
    rcases hr with hrun | ⟨hheld, hpass⟩
    · rw [createExecution_of_isSome (hsome hrun)] at hcreate
      cases hcreate
    · rw [htarget] at hcreate
      exact absurd hcreate
        (createExecution_ne_error (ScheduleOccurrence.isHeld_iff.mp hheld).2 hpass e)
  | executed hallow hcreate =>
    rw [hsame hallow] at hcreate
    cases hcreate with
    | existing hexec =>
      rcases hr with hrun | ⟨hheld, -⟩
      · exact ⟨hopen hplanned, hrun⟩
      · rw [(ScheduleOccurrence.isHeld_iff.mp hheld).2] at hexec
        cases hexec
    | workflow => exact ⟨hopen hplanned, ScheduleOccurrence.isRunning_of_created rfl⟩
    | handedOver hagent =>
      rw [htarget] at hagent
      cases hagent
    | handover hagent =>
      rw [htarget] at hagent
      cases hagent

/-- A blocked held occurrence is still held after the release. -/
theorem hasHeld_releaseWaiting (hpolicy : s.overlapPolicy = .queue)
    (htarget : s.targetType = .workflowVersion) {ts : List Instant}
    (hsorted : ts.Pairwise (· < ·)) {h b : ScheduleOccurrence} (hmem : h ∈ occs)
    (hheld : h.isHeld = true) (hblock : Blocks env ts occs h b) :
    (releaseWaiting s now env ts occs).HasHeld := by
  induction ts generalizing occs b with
  | nil => exact ⟨h, hmem, hheld⟩
  | cons t ts ih =>
    obtain ⟨hlater, hsorted⟩ := List.pairwise_cons.mp hsorted
    obtain ⟨hb, hlt, hkind⟩ := hblock
    rw [releaseWaiting]
    split
    · case h_1 hnone =>
      -- the blocker is in the table, so it is not the one that is missing
      refine ih hsorted hmem ⟨hb, hlt, hkind.imp id fun ⟨hbheld, hpass, hbts⟩ =>
        ⟨hbheld, hpass, (List.mem_cons.mp hbts).resolve_left ?_⟩⟩
      exact Table.find?_eq_none_iff.mp hnone b hb
    · case h_2 x hx =>
      obtain ⟨hxmem, hxkey⟩ := Table.find?_eq_some_iff.mp hx
      obtain ⟨hstatus, hnoop⟩ | ⟨base, x', fire, hplanned, hfired, hput⟩ :=
        tryFire_cases s occs x now env .schedule
      · rw [hnoop]
        refine ih hsorted hmem ⟨hb, hlt, hkind.imp id fun ⟨hbheld, hpass, hbts⟩ =>
          ⟨hbheld, hpass, (List.mem_cons.mp hbts).resolve_left fun hbt => ?_⟩⟩
        have hbx : b = x := Table.eq_of_key_eq hb hxmem (hbt.trans hxkey.symm)
        subst hbx
        exact hstatus (ScheduleOccurrence.isWaiting_iff.mp
          (ScheduleOccurrence.isHeld_iff.mp hbheld).1).1
      · obtain rfl := (hfired.base_eq (by rw [hpolicy]; decide)).symm
        have hkey' : x'.scheduledFor = t := hfired.scheduledFor_eq.trans hxkey
        by_cases hwait : fire = .wait
        · rw [hput, hwait]
          by_cases hht : h.scheduledFor = t
          · -- the held occurrence itself waits
            have hhx : h = x := Table.eq_of_key_eq hmem hxmem (hht.trans hxkey.symm)
            subst hhx
            rw [hfired.eq_of_wait hwait]
            exact ⟨_, Table.mem_put_self hmem rfl, ScheduleOccurrence.isHeld_queued hheld⟩
          · exact ⟨h, Table.mem_put_of_ne hmem (by rwa [hkey']), hheld⟩
        · rw [hput]
          have hht : h.scheduledFor ≠ t := by
            intro hht
            have hhx : h = x := Table.eq_of_key_eq hmem hxmem (hht.trans hxkey.symm)
            subst hhx
            -- the blocker of the tried occurrence was tried before, so its Execution is there
            have hprior : b.isActivePrior = true := by
              rcases hkind with ⟨hopen, hrun⟩ | ⟨-, -, hbts⟩
              · exact ScheduleOccurrence.isActivePrior_of_isRunning hopen hrun
              · rcases List.mem_cons.mp hbts with hbt | hbts
                · exact absurd (hbt.trans hht.symm) hlt.ne
                · exact absurd (hlater _ hbts) (not_lt.mpr (hht ▸ hlt.le))
            have hpriors : occs.activePriors h.scheduledFor ≠ [] :=
              List.ne_nil_of_mem (mem_activePriors.mpr ⟨hb, hlt, hprior⟩)
            exact hwait (hfired.wait_of_blocked hpolicy htarget hpriors).1
          have hmem' : h ∈ occs.put x' := Table.mem_put_of_ne hmem (by rwa [hkey'])
          have hgoal : ∀ {b'}, Blocks env ts (occs.put x') h b' →
              (releaseWaiting s now env ts (occs.put x')).HasHeld := fun hb' =>
            ih hsorted hmem' hb'
          split
          · case h_1 heq =>
            cases heq
            exact absurd rfl hwait
          · case h_2 heq =>
            cases heq
            by_cases hbt : b.scheduledFor = t
            · have hbx : b = x := Table.eq_of_key_eq hb hxmem (hbt.trans hxkey.symm)
              subst hbx
              have hrun := hfired.isRunning_of_blocker hpolicy htarget hwait hplanned
                (hkind.imp (·.2) fun hk => ⟨hk.1, hk.2.1⟩)
              exact hgoal ⟨Table.mem_put_self hb hfired.scheduledFor_eq.symm,
                by rwa [hfired.scheduledFor_eq], .inl hrun⟩
            · refine hgoal ⟨Table.mem_put_of_ne hb (by rwa [hkey']), hlt,
                hkind.imp id fun hk => ⟨hk.1, hk.2.1, (List.mem_cons.mp hk.2.2).resolve_left hbt⟩⟩

/-- The release leaves no waiting occurrence with an Execution, when none of the tried ones is a
QUEUE occurrence that a workflow target would turn into one. -/
theorem noneMaterialized_releaseWaiting {ts : List Instant} (hsorted : ts.Pairwise (· < ·))
    (hocc : occs.NoneMaterialized)
    (hts : ∀ t ∈ ts, ∀ r ∈ occs, r.scheduledFor = t → r.isWaiting = true ∧
      (s.targetType = .agentVersion ∨ r.decisionReason ≠ some .overlapQueue ∨
        env.refusal r.scheduledFor ≠ none)) :
    (releaseWaiting s now env ts occs).NoneMaterialized := by
  induction ts generalizing occs with
  | nil => exact hocc
  | cons t ts ih =>
    obtain ⟨hlater, hsorted⟩ := List.pairwise_cons.mp hsorted
    rw [releaseWaiting]
    split
    · exact ih hsorted hocc fun u hu => hts u (List.mem_cons_of_mem t hu)
    · case h_2 r hr =>
      obtain ⟨hmem, hkey⟩ := Table.find?_eq_some_iff.mp hr
      obtain ⟨-, hnoop⟩ | ⟨base, r', fire, -, hfired, hput⟩ :=
        tryFire_cases s occs r now env .schedule
      · rw [hnoop]
        exact ih hsorted hocc fun u hu => hts u (List.mem_cons_of_mem t hu)
      · obtain ⟨hwait, hreason⟩ := hts t List.mem_cons_self r hmem hkey
        have hocc' : NoneMaterialized (base.put r') :=
          noneMaterialized_put hocc hfired
            (hfired.execution_eq_none (hocc r hmem hwait) hreason)
        have hrest : (releaseWaiting s now env ts (base.put r')).NoneMaterialized := by
          refine ih hsorted hocc' fun u hu x hx hxu => ?_
          have hlt : r.scheduledFor < x.scheduledFor := by
            rw [hkey, hxu]
            exact hlater u hu
          exact hts u (List.mem_cons_of_mem t hu) x (hfired.mem_of_lt hx hlt) hxu
        rw [hput]
        split
        · case h_1 occs' heq =>
          cases heq
          exact hocc'
        · case h_2 occs' fire' _ heq =>
          cases heq
          exact hrest

/-! ### The due points -/

variable {specs : List Spec}

/-- An occurrence that no due point touches stays, without REPLACE. -/
theorem mem_foldl_firePoint_of_ne (hpolicy : s.overlapPolicy ≠ .replace) (hx : x ∈ occs)
    (hne : x.scheduledFor ∉ specs.map Prod.fst) :
    x ∈ specs.foldl (firePoint s now env) occs := by
  induction specs generalizing occs with
  | nil => exact hx
  | cons p specs ih =>
    rw [List.map_cons, List.mem_cons, not_or] at hne
    exact ih (mem_firePoint_of_ne hpolicy hx hne.1) hne.2

theorem mem_foldl_skipPoint_of_ne (hx : x ∈ occs) (hne : x.scheduledFor ∉ specs.map Prod.fst) :
    x ∈ specs.foldl (skipPoint now) occs := by
  induction specs generalizing occs with
  | nil => exact hx
  | cons p specs ih =>
    rw [List.map_cons, List.mem_cons, not_or] at hne
    exact ih (mem_skipPoint_of_ne _ hx hne.1) hne.2

/-- A row at an instant that the skipped points leave alone is an old row. -/
theorem mem_of_mem_foldl_skipPoint (hx : x ∈ specs.foldl (skipPoint now) occs)
    (hne : x.scheduledFor ∉ specs.map Prod.fst) : x ∈ occs := by
  induction specs generalizing occs with
  | nil => exact hx
  | cons p specs ih =>
    rw [List.map_cons, List.mem_cons, not_or] at hne
    rcases mem_skipPoint (ih hx hne.2) with ⟨hx, -⟩ | ⟨r, hr, -, rfl⟩
    · exact hx
    · exact absurd hr.scheduledFor_eq hne.1

/-- The skipped points bring no waiting occurrence with an Execution. -/
theorem noneMaterialized_foldl_skipPoint (hocc : occs.NoneMaterialized) :
    NoneMaterialized (specs.foldl (skipPoint now) occs) := by
  induction specs generalizing occs with
  | nil => exact hocc
  | cons p specs ih =>
    refine ih fun x hx hwait => ?_
    rcases mem_skipPoint hx with ⟨hx, -⟩ | ⟨r, -, -, rfl⟩
    · exact hocc x hx hwait
    · rw [ScheduleOccurrence.isWaiting_failOrSkip (by decide)] at hwait
      cases hwait

/-- No PLANNED row of the instant has an Execution. -/
def Occurrences.FreeAt (occs : Occurrences) (t : Instant) : Prop :=
  ∀ r ∈ occs, r.scheduledFor = t → r.status = .planned → r.execution = none

theorem Entered.execution_eq_none {t : Instant} {reason : DecisionReason}
    (h : Entered occs t reason r) (hfree : occs.FreeAt t) (hplanned : r.status = .planned) :
    r.execution = none := by
  cases h with
  | old hmem hkey =>
    have hexec := hfree _ hmem hkey hplanned
    exact hexec
  | new => rfl

/-- A fired point keeps the table free of waiting occurrences with an Execution. -/
theorem noneMaterialized_firePoint {p : Spec} (hocc : occs.NoneMaterialized)
    (hfree : occs.FreeAt p.1) (hreason : p.2 ≠ .overlapQueue) :
    NoneMaterialized (firePoint s now env occs p) := by
  obtain ⟨r, hr, heq⟩ := firePoint_eq s now env occs p
  rw [heq]
  have hbefore : NoneMaterialized (occs.entered r) ∨ r.status = .planned := by
    by_cases hplanned : r.status = .planned
    · exact .inr hplanned
    · refine .inl fun x hx hwait => ?_
      rcases mem_entered_iff.mp hx with rfl | ⟨hx, -⟩
      · exact absurd (ScheduleOccurrence.isWaiting_iff.mp hwait).1 hplanned
      · exact hocc x hx hwait
  obtain ⟨hstatus, hnoop⟩ | ⟨base, r', fire, hplanned, hfired, hput⟩ :=
    tryFire_cases s (occs.entered r) r now env .schedule
  · rw [hnoop]
    exact hbefore.resolve_right hstatus
  · rw [hput]
    have hexec := hr.execution_eq_none hfree hplanned
    refine noneMaterialized_put (fun x hx hwait => ?_) hfired
      (hfired.execution_eq_none hexec (.inr (.inl ?_)))
    · rcases mem_entered_iff.mp hx with rfl | ⟨hx, -⟩
      · exact hexec
      · exact hocc x hx hwait
    · rw [hr.decisionReason_eq]
      exact fun h => hreason (Option.some.inj h)

/-- A fired point leaves the rows of other instants free. -/
theorem freeAt_firePoint {p : Spec} {t : Instant} (hne : t ≠ p.1) (hfree : occs.FreeAt t) :
    FreeAt (firePoint s now env occs p) t := by
  obtain ⟨r, hr, heq⟩ := firePoint_eq s now env occs p
  rw [heq]
  have hentered : FreeAt (occs.entered r) t := by
    intro x hx hkey
    rcases mem_entered_iff.mp hx with rfl | ⟨hx, -⟩
    · exact absurd (hkey.symm.trans hr.scheduledFor_eq) hne
    · exact hfree x hx hkey
  obtain ⟨-, hnoop⟩ | ⟨base, r', fire, -, hfired, hput⟩ :=
    tryFire_cases s (occs.entered r) r now env .schedule
  · rw [hnoop]
    exact hentered
  · rw [hput]
    intro x hx hkey hstatus
    rcases hfired.mem_put hx with rfl | ⟨-, y, hy, hover⟩
    · exact absurd (hkey.symm.trans (hfired.scheduledFor_eq.trans hr.scheduledFor_eq)) hne
    · cases hover with
      | kept => exact hentered x hy hkey hstatus
      | superseded => cases hstatus
      | cancelled _ hprior =>
        rw [ScheduleOccurrence.scheduledFor_cancel] at hkey
        have hexec := hentered y hy hkey (ScheduleOccurrence.status_of_cancel hstatus)
        rwa [ScheduleOccurrence.cancel_of_none hexec]

/-- The fired points keep the table free of waiting occurrences with an Execution. -/
theorem noneMaterialized_foldl_firePoint (hsorted : specs.Pairwise fun p q => p.1 < q.1)
    (hocc : occs.NoneMaterialized) (hfree : ∀ p ∈ specs, occs.FreeAt p.1)
    (hreason : ∀ p ∈ specs, p.2 ≠ .overlapQueue) :
    NoneMaterialized (specs.foldl (firePoint s now env) occs) := by
  induction specs generalizing occs with
  | nil => exact hocc
  | cons p specs ih =>
    obtain ⟨hlater, hsorted⟩ := List.pairwise_cons.mp hsorted
    refine ih hsorted ?_ (fun q hq => ?_) fun q hq => hreason q (List.mem_cons_of_mem p hq)
    · exact noneMaterialized_firePoint hocc (hfree p List.mem_cons_self)
        (hreason p List.mem_cons_self)
    · exact freeAt_firePoint (hlater q hq).ne' (hfree q (List.mem_cons_of_mem p hq))

/-- A fresh point behind an Execution that runs is held when it is fired under QUEUE. -/
theorem hasHeld_foldl_firePoint (hpolicy : s.overlapPolicy = .queue)
    (htarget : s.targetType = .workflowVersion) (hsorted : specs.Pairwise fun p q => p.1 < q.1)
    {p : Spec} (hp : p ∈ specs) {b : ScheduleOccurrence} (hb : b ∈ occs)
    (hlt : b.scheduledFor < p.1) (hprior : b.isActivePrior = true)
    (hbne : b.scheduledFor ∉ specs.map Prod.fst)
    (hfresh : ∀ r ∈ occs, r.scheduledFor = p.1 → r.status = .planned ∧ r.execution = none) :
    HasHeld (specs.foldl (firePoint s now env) occs) := by
  have hreplace : s.overlapPolicy ≠ .replace := by
    rw [hpolicy]
    decide
  induction specs generalizing occs with
  | nil => cases hp
  | cons q specs ih =>
    obtain ⟨hlater, hsorted⟩ := List.pairwise_cons.mp hsorted
    rw [List.map_cons, List.mem_cons, not_or] at hbne
    rcases List.mem_cons.mp hp with rfl | hp
    · obtain ⟨r, hr, heq⟩ := firePoint_eq s now env occs p
      have hown : r.status = .planned ∧ r.execution = none := by
        cases hr with
        | old hmem hkey =>
          have hrow := hfresh _ hmem hkey
          exact hrow
        | new => exact ⟨rfl, rfl⟩
      have hb' : b ∈ (occs.entered r).activePriors r.scheduledFor := by
        rw [mem_activePriors, hr.scheduledFor_eq, mem_entered_iff, hr.scheduledFor_eq]
        exact ⟨.inr ⟨hb, hlt.ne⟩, hlt, hprior⟩
      obtain ⟨hstatus, -⟩ | ⟨base, r', fire, -, hfired, hput⟩ :=
        tryFire_cases s (occs.entered r) r now env .schedule
      · exact absurd hown.1 hstatus
      · obtain ⟨-, rfl⟩ := hfired.wait_of_blocked hpolicy htarget (List.ne_nil_of_mem hb')
        have hmem := hfired.mem_put_self (mem_entered_self _ _)
        rw [List.foldl_cons, heq, hput]
        refine ⟨_, mem_foldl_firePoint_of_ne hreplace hmem ?_, ?_⟩
        · rw [hfired.scheduledFor_eq, hr.scheduledFor_eq]
          rintro hin
          obtain ⟨q, hq, hkey⟩ := List.mem_map.mp hin
          exact absurd hkey (hlater q hq).ne'
        · exact ScheduleOccurrence.isHeld_iff.mpr
            ⟨ScheduleOccurrence.isWaiting_iff.mpr ⟨hown.1, _, rfl, rfl⟩, hown.2⟩
    · refine ih hsorted hp (mem_firePoint_of_ne hreplace hb hbne.1) hbne.2 fun r hr hkey => ?_
      -- the row of the later point has not been touched
      have hne : q.1 ≠ p.1 := (hlater p hp).ne
      obtain ⟨r₀, hr₀, heq⟩ := firePoint_eq s now env occs q
      rw [heq] at hr
      have hold : r ∈ occs.entered r₀ := by
        obtain ⟨-, hnoop⟩ | ⟨base, r', fire, -, hfired, hput⟩ :=
          tryFire_cases s (occs.entered r₀) r₀ now env .schedule
        · rwa [hnoop] at hr
        · rw [hput] at hr
          refine hfired.mem_of_lt hr ?_
          rw [hkey, hr₀.scheduledFor_eq]
          exact hlater p hp
      rcases mem_entered_iff.mp hold with rfl | ⟨hr, -⟩
      · exact absurd (hr₀.scheduledFor_eq.symm.trans hkey) hne
      · exact hfresh r hr hkey

/-! ### The steps that keep the promise -/

/-- A due pass that finds no next run: a held occurrence is out of its reach, a fresh point is behind
an Execution that runs, or no waiting occurrence and no fired point has an Execution. -/
def DueKeepsHeld (s : Schedule) (occs : Occurrences) (part : MisfirePartition) : Prop :=
  (s.overlapPolicy ≠ .replace ∧ ∃ h ∈ occs, h.isHeld = true ∧ h.scheduledFor ∉ part.points) ∨
    (s.overlapPolicy = .queue ∧ s.targetType = .workflowVersion ∧ ∃ p ∈ (s.specs part).1,
      (∃ b ∈ occs, b.scheduledFor < p.1 ∧ b.isActivePrior = true ∧ b.scheduledFor ∉ part.points) ∧
        ∀ r ∈ occs, r.scheduledFor = p.1 → r.status = .planned ∧ r.execution = none) ∨
    (occs.NoneMaterialized ∧ ∀ p ∈ (s.specs part).1, occs.FreeAt p.1)

/-- A release without a next run: a held occurrence stays blocked, or none of the waiting ones is a
QUEUE occurrence that would get an Execution. -/
def WaitingKeepsHeld (s : Schedule) (occs : Occurrences) (env : FireEnv) : Prop :=
  (s.overlapPolicy = .queue ∧ s.targetType = .workflowVersion ∧ ∃ h ∈ occs, h.isHeld = true ∧
      ∃ b ∈ occs, b.scheduledFor < h.scheduledFor ∧ ((b.isOpen = true ∧ b.isRunning = true) ∨
        (b.isHeld = true ∧ env.refusal b.scheduledFor = none))) ∨
    ∀ r ∈ occs, r.isWaiting = true → r.execution = none ∧
      (s.targetType = .agentVersion ∨ r.decisionReason ≠ some .overlapQueue ∨
        env.refusal r.scheduledFor ≠ none)

/-- A manual trigger without a next run: a held occurrence of another instant is not superseded, or
the trigger has to wait for a cancellation. -/
def TriggerKeepsHeld (s : Schedule) (occs : Occurrences) (now : Instant) (env : FireEnv) : Prop :=
  (∃ h ∈ occs, h.isHeld = true ∧ h.scheduledFor ≠ now ∧
      (s.overlapPolicy ≠ .replace ∨ h.decisionReason ≠ some .overlapReplaceWait ∨
        now < h.scheduledFor)) ∨
    (s.overlapPolicy = .replace ∧ (∀ r ∈ occs, r.scheduledFor = now → r.execution = none) ∧
      ∃ b ∈ occs, b.scheduledFor < now ∧ b.isOpen = true ∧
        b.execution.any (fun st => !st.isTerminal &&
          !(cancelledStatus (env.startedCalls b.scheduledFor) st).isTerminal) = true)

/-- The step does not leave an ACTIVE Schedule without a next run and without a held occurrence. -/
def CompletionOk (c : Calendar) (cfg : RuntimeConfig) (w : World) : Action → Prop
  | .due now _ => ∀ next part, w.schedule.status = .active → w.schedule.nextRunAt = some next →
      next ≤ now → collectDuePoints c cfg w.schedule.definition next now = .ok part →
      part.nextAfter = none → DueKeepsHeld w.schedule w.occurrences part
  | .waiting _ env => w.schedule.status = .active → w.schedule.nextRunAt = none →
      WaitingKeepsHeld w.schedule w.occurrences env
  | .trigger env => w.schedule.status = .active → w.schedule.nextRunAt = none →
      TriggerKeepsHeld w.schedule w.occurrences w.clock env
  | .resume => w.schedule.status = .paused → w.schedule.nextRunAt = none →
      w.schedule.definition.expression.isOnce = true ∨
        nextScheduledAt c (w.schedule.definition.anchored w.clock) w.clock ≠ .ok none ∨
        w.occurrences.HasHeld
  | .planMaterialized t => w.schedule.status = .active → w.schedule.nextRunAt = none →
      ∃ h ∈ w.occurrences, h.isHeld = true ∧ h.scheduledFor ≠ t
  | .planFailed t _ => w.schedule.status = .active → w.schedule.nextRunAt = none →
      ∃ h ∈ w.occurrences, h.isHeld = true ∧ h.scheduledFor ≠ t
  | _ => True

instance (occs : Occurrences) : Decidable occs.HasHeld :=
  inferInstanceAs (Decidable (∃ r ∈ occs.rows, r.isHeld = true))

instance (occs : Occurrences) : Decidable occs.NoneMaterialized :=
  inferInstanceAs (Decidable (∀ r ∈ occs.rows, r.isWaiting = true → r.execution = none))

instance (occs : Occurrences) (t : Instant) : Decidable (occs.FreeAt t) :=
  inferInstanceAs (Decidable
    (∀ r ∈ occs.rows, r.scheduledFor = t → r.status = .planned → r.execution = none))

instance (s : Schedule) (occs : Occurrences) (part : MisfirePartition) :
    Decidable (DueKeepsHeld s occs part) :=
  inferInstanceAs (Decidable
    ((s.overlapPolicy ≠ .replace ∧ ∃ h ∈ occs.rows, h.isHeld = true ∧
        h.scheduledFor ∉ part.points) ∨
      (s.overlapPolicy = .queue ∧ s.targetType = .workflowVersion ∧ ∃ p ∈ (s.specs part).1,
        (∃ b ∈ occs.rows, b.scheduledFor < p.1 ∧ b.isActivePrior = true ∧
            b.scheduledFor ∉ part.points) ∧
          ∀ r ∈ occs.rows, r.scheduledFor = p.1 → r.status = .planned ∧ r.execution = none) ∨
      (occs.NoneMaterialized ∧ ∀ p ∈ (s.specs part).1, occs.FreeAt p.1)))

instance (s : Schedule) (occs : Occurrences) (env : FireEnv) :
    Decidable (WaitingKeepsHeld s occs env) :=
  inferInstanceAs (Decidable
    ((s.overlapPolicy = .queue ∧ s.targetType = .workflowVersion ∧
        ∃ h ∈ occs.rows, h.isHeld = true ∧ ∃ b ∈ occs.rows, b.scheduledFor < h.scheduledFor ∧
          ((b.isOpen = true ∧ b.isRunning = true) ∨
            (b.isHeld = true ∧ env.refusal b.scheduledFor = none))) ∨
      ∀ r ∈ occs.rows, r.isWaiting = true → r.execution = none ∧
        (s.targetType = .agentVersion ∨ r.decisionReason ≠ some .overlapQueue ∨
          env.refusal r.scheduledFor ≠ none)))

variable {c : Calendar} {cfg : RuntimeConfig} {w w' : World}

/-- The due pass of the condition reads one partition. -/
theorem completionOk_due_iff {next : Instant} {part : MisfirePartition} {env : FireEnv}
    (hnext : w.schedule.nextRunAt = some next)
    (hpart : collectDuePoints c cfg w.schedule.definition next now = .ok part) :
    CompletionOk c cfg w (.due now env) ↔ (w.schedule.status = .active → next ≤ now →
      part.nextAfter = none → DueKeepsHeld w.schedule w.occurrences part) := by
  constructor
  · exact fun h hactive hle => h next part hactive hnext hle hpart
  · intro h next' part' hactive hnext' hle hpart'
    obtain rfl := Option.some.inj (hnext.symm.trans hnext')
    obtain rfl := Except.ok.inj (hpart.symm.trans hpart')
    exact h hactive hle

instance (s : Schedule) (occs : Occurrences) (now : Instant) (env : FireEnv) :
    Decidable (TriggerKeepsHeld s occs now env) :=
  inferInstanceAs (Decidable
    ((∃ h ∈ occs.rows, h.isHeld = true ∧ h.scheduledFor ≠ now ∧
        (s.overlapPolicy ≠ .replace ∨ h.decisionReason ≠ some .overlapReplaceWait ∨
          now < h.scheduledFor)) ∨
      (s.overlapPolicy = .replace ∧
        (∀ r ∈ occs.rows, r.scheduledFor = now → r.execution = none) ∧
        ∃ b ∈ occs.rows, b.scheduledFor < now ∧ b.isOpen = true ∧
          b.execution.any (fun st => !st.isTerminal &&
            !(cancelledStatus (env.startedCalls b.scheduledFor) st).isTerminal) = true)))

instance (c : Calendar) (cfg : RuntimeConfig) (w : World) :
    (a : Action) → Decidable (CompletionOk c cfg w a)
  | .due now env =>
    match hnext : w.schedule.nextRunAt with
    | none => isTrue fun _ _ _ h => absurd (h.symm.trans hnext) (Option.some_ne_none _)
    | some next =>
      match hpart : collectDuePoints c cfg w.schedule.definition next now with
      | .error _ => isTrue fun next' part _ h _ hp => by
          obtain rfl := Option.some.inj (hnext.symm.trans h)
          cases hpart.symm.trans hp
      | .ok _ => decidable_of_iff _ (completionOk_due_iff hnext hpart).symm
  | .waiting _ env => inferInstanceAs (Decidable (_ → _ → WaitingKeepsHeld _ _ env))
  | .trigger env => inferInstanceAs (Decidable (_ → _ → TriggerKeepsHeld _ _ _ env))
  | .resume => inferInstanceAs (Decidable (_ → _ → _ ∨ _ ∨ w.occurrences.HasHeld))
  | .planMaterialized t => inferInstanceAs (Decidable (_ → _ →
      ∃ h ∈ w.occurrences.rows, h.isHeld = true ∧ h.scheduledFor ≠ t))
  | .planFailed t _ => inferInstanceAs (Decidable (_ → _ →
      ∃ h ∈ w.occurrences.rows, h.isHeld = true ∧ h.scheduledFor ≠ t))
  | .tick _ | .activate | .pause | .update _ | .stage _ | .claim _ | .advance _ _
  | .reconcile _ _ _ => isTrue trivial

/-- `_maybe_complete_schedule` keeps the promise when the waiting occurrences have no Execution. -/
theorem holdsOrCompletes_maybeComplete (clock : Instant)
    (h : s.status = .active → s.nextRunAt = none → occs.HasHeld ∨ occs.NoneMaterialized) :
    World.HoldsOrCompletes ⟨maybeCompleteSchedule s occs, occs, clock⟩ := by
  intro hactive hnone
  rcases maybeCompleteSchedule_cases s occs with ⟨heq, hwaiting⟩ | ⟨-, -, -, heq⟩
  · rw [heq] at hactive hnone
    rcases h hactive hnone with hheld | hnomat
    · exact hheld
    · obtain ⟨r, hr, hwait⟩ := hwaiting hactive hnone
      exact ⟨r, hr, ScheduleOccurrence.isHeld_iff.mpr ⟨hwait, hnomat r hr hwait⟩⟩
  · rw [heq] at hactive
    cases hactive

theorem hasHeld_or_noneMaterialized_firePoints {part : MisfirePartition}
    (hsorted : part.points.Pairwise (· < ·)) (h : DueKeepsHeld s occs part) :
    HasHeld (firePoints s now env occs (s.specs part)) ∨
      NoneMaterialized (firePoints s now env occs (s.specs part)) := by
  have hskip : ∀ {t}, t ∉ part.points → t ∉ (s.specs part).2.map Prod.fst := fun hne hin =>
    hne (mem_points_iff_specs.mpr (.inl hin))
  have hfire : ∀ {t}, t ∉ part.points → t ∉ (s.specs part).1.map Prod.fst := fun hne hin =>
    hne (mem_points_iff_specs.mpr (.inr hin))
  have hfired : ∀ {p : Spec}, p ∈ (s.specs part).1 → p.1 ∉ (s.specs part).2.map Prod.fst :=
    fun hp hin => specs_disjoint hsorted hin (List.mem_map_of_mem hp)
  rcases h with ⟨hpolicy, h, hmem, hheld, hne⟩ |
    ⟨hpolicy, htarget, p, hp, ⟨b, hb, hlt, hprior, hne⟩, hfresh⟩ | ⟨hocc, hfree⟩
  · exact .inl ⟨h, mem_foldl_firePoint_of_ne hpolicy
      (mem_foldl_skipPoint_of_ne hmem (hskip hne)) (hfire hne), hheld⟩
  · refine .inl (hasHeld_foldl_firePoint hpolicy htarget (pairwise_specs_fst hsorted) hp
      (mem_foldl_skipPoint_of_ne hb (hskip hne)) hlt hprior (hfire hne) fun r hr hkey => ?_)
    exact hfresh r (mem_of_mem_foldl_skipPoint hr (hkey ▸ hfired hp)) hkey
  · refine .inr (noneMaterialized_foldl_firePoint (pairwise_specs_fst hsorted)
      (noneMaterialized_foldl_skipPoint hocc) (fun p hp r hr hkey => ?_) fun p hp => ?_)
    · exact hfree p hp r (mem_of_mem_foldl_skipPoint hr (hkey ▸ hfired hp)) hkey
    · rcases snd_of_mem_applyMisfire_fst hp with h | h | h <;> simp [h]

theorem hasHeld_or_noneMaterialized_release (h : WaitingKeepsHeld s occs env) :
    HasHeld (releaseWaiting s now env occs.listWaiting occs) ∨
      NoneMaterialized (releaseWaiting s now env occs.listWaiting occs) := by
  rcases h with ⟨hpolicy, htarget, h, hmem, hheld, b, hb, hlt, hkind⟩ | hall
  · refine .inl (hasHeld_releaseWaiting hpolicy htarget (sorted_listWaiting occs) hmem hheld
      ⟨hb, hlt, hkind.imp id fun hk => ⟨hk.1, hk.2, ?_⟩⟩)
    exact mem_listWaiting.mpr ⟨b, hb, (ScheduleOccurrence.isHeld_iff.mp hk.1).1, rfl⟩
  · refine .inr (noneMaterialized_releaseWaiting (sorted_listWaiting occs)
      (fun r hr hwait => (hall r hr hwait).1) fun t ht r hr hkey => ?_)
    obtain ⟨r', hr', hwait, hkey'⟩ := mem_listWaiting.mp ht
    obtain rfl := Table.eq_of_key_eq hr hr' (hkey.trans hkey'.symm)
    exact ⟨hwait, (hall r hr hwait).2⟩

/-- A trigger enters its row and tries it. -/
theorem triggerSchedule_eq (h : triggerSchedule s occs now env = some occs') :
    ∃ r, Entered occs now .manualTrigger r ∧
      occs' = (tryFireOccurrence s (occs.entered r) r now env .user).1 := by
  rw [triggerSchedule.eq_def] at h
  split at h
  · cases h
  · split at h
    · cases h
    · dsimp only at h
      split at h
      · cases h
      · have hentered := entered_createPlanned occs now .manualTrigger
        refine ⟨_, hentered, ?_⟩
        rw [Occurrences.entered, hentered.scheduledFor_eq]
        split at h
        · case h_1 occs₁ heq =>
          rw [heq]
          split at h
          · cases h
          · exact (Option.some.inj h).symm
        · case h_2 occs₁ fire _ heq =>
          rw [heq]
          exact (Option.some.inj h).symm

theorem triggerSchedule_cases (h : triggerSchedule s occs now env = some occs') :
    ∃ r, Entered occs now .manualTrigger r ∧ r.status = .planned ∧
      s.targetType = .workflowVersion ∧
      ∃ base r' fire, Fired s (occs.entered r) r now env .user base r' fire ∧
        occs' = base.put r' := by
  rw [triggerSchedule.eq_def] at h
  split at h
  · cases h
  · split at h
    · cases h
    · case isFalse hagent =>
      dsimp only at h
      split at h
      · cases h
      · case isFalse hplanned =>
        have hentered := entered_createPlanned occs now .manualTrigger
        have htarget : s.targetType = .workflowVersion := by
          cases htype : s.targetType with
          | agentVersion => exact absurd htype hagent
          | workflowVersion => rfl
        refine ⟨_, hentered, not_not.mp hplanned, htarget, ?_⟩
        rw [Occurrences.entered, hentered.scheduledFor_eq]
        obtain ⟨hstatus, -⟩ | ⟨base, r', fire, -, hfired, hput⟩ := tryFire_cases s
          ((occs.createPlanned now).1.put
            { (occs.createPlanned now).2 with decisionReason := some .manualTrigger })
          { (occs.createPlanned now).2 with decisionReason := some .manualTrigger } now env .user
        · exact absurd (not_not.mp hplanned) hstatus
        · rw [hput] at h
          refine ⟨base, r', fire, hfired, ?_⟩
          cases fire with
          | skipped =>
            dsimp only at h
            split at h
            · cases h
            · exact (Option.some.inj h).symm
          | _ => exact (Option.some.inj h).symm

/-- A held row that is no REPLACE_WAIT row, or not an earlier one, is kept. -/
theorem Fired.mem_put_of_held {h : ScheduleOccurrence}
    (hfired : Fired s occs r now env trigger base r' fire) (hmem : h ∈ occs)
    (hheld : h.isHeld = true) (hne : h.scheduledFor ≠ r.scheduledFor)
    (hkeep : s.overlapPolicy ≠ .replace ∨ h.decisionReason ≠ some .overlapReplaceWait ∨
      r.scheduledFor < h.scheduledFor) : h ∈ base.put r' := by
  rcases hkeep with hpolicy | hreason | hlt
  · rw [hfired.base_eq hpolicy]
    exact Table.mem_put_of_ne hmem (by rwa [hfired.scheduledFor_eq])
  · refine Table.mem_put_of_ne ?_ (by rwa [hfired.scheduledFor_eq])
    rcases hfired.base_cases with rfl | ⟨-, rfl⟩
    · exact hmem
    · have hover : h.overtake r.scheduledFor now env.startedCalls = h := by
        have hover := overtaken_overtake r.scheduledFor now env.startedCalls h
        generalize h.overtake r.scheduledFor now env.startedCalls = h' at hover
        cases hover with
        | kept => rfl
        | superseded _ _ hwait => exact absurd hwait hreason
        | cancelled =>
          exact ScheduleOccurrence.cancel_of_none (ScheduleOccurrence.isHeld_iff.mp hheld).2
      exact Table.mem_mapRows.mpr ⟨h, hmem, hover⟩
  · exact hfired.mem_put_of_le hmem hlt.le hne

/-- A prior whose cancellation is not over makes the tried occurrence wait. -/
theorem Fired.replaceWait_of_inflight (hfired : Fired s occs r now env trigger base r' fire)
    (hpolicy : s.overlapPolicy = .replace) (htarget : s.targetType = .workflowVersion)
    {b : ScheduleOccurrence} {st : ExecutionStatus} (hb : b ∈ occs)
    (hlt : b.scheduledFor < r.scheduledFor) (hopen : b.isOpen = true)
    (hexec : b.execution = some st) (hlive : st.isTerminal = false)
    (hflight : (cancelledStatus (env.startedCalls b.scheduledFor) st).isTerminal = false) :
    r' = { r with decisionReason := some .overlapReplaceWait } := by
  have hprior : b.isActivePrior = true := by
    simp only [ScheduleOccurrence.isActivePrior, hopen, hexec, hlive, Bool.not_false, Bool.and_self]
  have hpriors : occs.activePriors r.scheduledFor ≠ [] :=
    List.ne_nil_of_mem (mem_activePriors.mpr ⟨hb, hlt, hprior⟩)
  have hkept : b ∈ occs.supersedeOlderReplaceWaits r.scheduledFor now := by
    refine Table.mem_mapRows.mpr ⟨b, hb, if_neg fun hs => ?_⟩
    rw [hs.2.2.2] at hexec
    cases hexec
  have hstill : (occs.supersedeOlderReplaceWaits r.scheduledFor now).stillInflight r.scheduledFor
      env.startedCalls = true := by
    refine List.any_eq_true.mpr ⟨b, mem_activePriors.mpr ⟨hkept, hlt, hprior⟩, ?_⟩
    rw [hexec]
    simp only [hflight, Bool.not_false]
  have hallow : ∀ {base r₁}, ¬ Allowed s.overlapPolicy occs r now env base r₁ := by
    rintro base r₁ (h | ⟨-, -, hover⟩)
    · rcases h with h | h
      · exact hpriors h
      · rw [hpolicy] at h
        cases h
    · rw [hstill] at hover
      cases hover
  cases hfired with
  | unsupported hagent =>
    rw [htarget] at hagent
    cases hagent
  | overlapSkip hskip =>
    rw [hpolicy] at hskip
    cases hskip
  | queued hqueue =>
    rw [hpolicy] at hqueue
    cases hqueue
  | replaceWait => rfl
  | refused h => exact absurd h hallow
  | executed h => exact absurd h hallow

theorem hasHeld_triggerSchedule (hok : TriggerKeepsHeld s occs now env)
    (h : triggerSchedule s occs now env = some occs') : occs'.HasHeld := by
  obtain ⟨r, hr, hplanned, htarget, base, r', fire, hfired, rfl⟩ := triggerSchedule_cases h
  have hkey := hr.scheduledFor_eq
  rcases hok with ⟨h, hmem, hheld, hne, hkeep⟩ | ⟨hpolicy, hfree, b, hb, hlt, hopen, hinflight⟩
  · have hmem' : h ∈ occs.entered r := mem_entered_iff.mpr (.inr ⟨hmem, by rwa [hkey]⟩)
    exact ⟨h, hfired.mem_put_of_held hmem' hheld (by rwa [hkey]) (by rwa [hkey]), hheld⟩
  · have hb' : b ∈ occs.entered r := mem_entered_iff.mpr (.inr ⟨hb, by rw [hkey]; exact hlt.ne⟩)
    have hexec : r.execution = none :=
      hr.execution_eq_none (fun x hx hxkey _ => hfree x hx hxkey) hplanned
    have hmem := hfired.mem_put_self (mem_entered_self _ _)
    obtain ⟨st, hst, hinflight⟩ := (Option.any_eq_true _ _).mp hinflight
    simp only [Bool.and_eq_true, Bool.not_eq_true'] at hinflight
    obtain rfl := hfired.replaceWait_of_inflight hpolicy htarget hb' (by rwa [hkey]) hopen hst
      hinflight.1 hinflight.2
    exact ⟨_, hmem, ScheduleOccurrence.isHeld_iff.mpr
      ⟨ScheduleOccurrence.isWaiting_iff.mpr ⟨hplanned, _, rfl, rfl⟩, hexec⟩⟩

/-! ### Runs -/

theorem updateRow_cases {t : Instant} {f : ScheduleOccurrence → Option ScheduleOccurrence}
    (h : occs.updateRow t f = some occs') :
    ∃ r r', r ∈ occs ∧ r.scheduledFor = t ∧ f r = some r' ∧ occs' = occs.put r' := by
  obtain ⟨r', hr', rfl⟩ := Option.map_eq_some_iff.mp h
  obtain ⟨r, hr, hf⟩ := Option.bind_eq_some_iff.mp hr'
  obtain ⟨hmem, hkey⟩ := Table.find?_eq_some_iff.mp hr
  exact ⟨r, r', hmem, hkey, hf, rfl⟩

/-- A change of one row keeps a held occurrence, unless it is that row and it is no longer held. -/
theorem hasHeld_updateRow {t : Instant} {f : ScheduleOccurrence → Option ScheduleOccurrence}
    (h : occs.updateRow t f = some occs') (hkey : ∀ r r', f r = some r' →
      r'.scheduledFor = r.scheduledFor)
    (hheld : ∃ x ∈ occs, x.isHeld = true ∧
      (x.scheduledFor ≠ t ∨ ∀ x', f x = some x' → x'.isHeld = true)) : occs'.HasHeld := by
  obtain ⟨r, r', hr, hrt, hf, rfl⟩ := updateRow_cases h
  obtain ⟨x, hx, hxheld, hkeep⟩ := hheld
  have hkey' : r'.scheduledFor = t := (hkey r r' hf).trans hrt
  by_cases hxt : x.scheduledFor = t
  · obtain rfl := Table.eq_of_key_eq hx hr (hxt.trans hrt.symm)
    exact ⟨r', Table.mem_put_self hx (hxt.trans hkey'.symm),
      (hkeep.resolve_left (not_not.mpr hxt)) r' hf⟩
  · exact ⟨x, Table.mem_put_of_ne hx (by rwa [hkey']), hxheld⟩

/-- The scheduler passes keep the promise. -/
theorem holdsOrCompletes_due {env : FireEnv} (hinv : w.HoldsOrCompletes)
    (hok : CompletionOk c cfg w (.due now env)) (hstep : w.step c cfg (.due now env) = some w') :
    w'.HoldsOrCompletes := by
  simp only [World.step] at hstep
  split at hstep
  · cases hstep
  · split at hstep
    · cases hstep
    · case h_2 s' occs' hdue =>
      cases hstep
      rcases processDueSchedule_cases hdue with ⟨hsame, -⟩ |
        ⟨next, part, hactive, hnext, hle, hpart, ⟨-, hsame⟩ | ⟨hscan, rfl, rfl⟩⟩
      · cases hsame
        exact hinv
      · cases hsame
        intro h
        cases h
      · refine holdsOrCompletes_maybeComplete _ fun _ hnone => ?_
        exact hasHeld_or_noneMaterialized_firePoints (sorted_points hpart hscan).2
          (hok next part hactive hnext hle hpart hnone)

theorem holdsOrCompletes_waiting {env : FireEnv} (hinv : w.HoldsOrCompletes)
    (hok : CompletionOk c cfg w (.waiting now env))
    (hstep : w.step c cfg (.waiting now env) = some w') : w'.HoldsOrCompletes := by
  simp only [World.step] at hstep
  split at hstep
  · cases hstep
  · cases hstep
    rw [processWaitingSchedule]
    split
    · exact hinv
    · exact holdsOrCompletes_maybeComplete _ fun hactive hnone =>
        hasHeld_or_noneMaterialized_release (hok hactive hnone)

/-- A resume that finds no next run needs a held occurrence. -/
theorem holdsOrCompletes_resume (hinv : w.HoldsOrCompletes)
    (hok : CompletionOk c cfg w .resume) (hstep : w.step c cfg .resume = some w') :
    w'.HoldsOrCompletes := by
  simp only [World.step, Option.map_eq_some_iff] at hstep
  obtain ⟨s', hresume, rfl⟩ := hstep
  rw [resumeSchedule] at hresume
  split at hresume
  · cases hresume
    exact hinv
  · split at hresume
    · cases hresume
    · case isFalse hpaused =>
      split at hresume
      · cases hresume
      · split at hresume
        · cases hresume
          intro _ h
          cases h
        · case h_2 hnext =>
          split at hresume
          · cases hresume
          · case h_2 next hcomputed =>
            split at hresume
            · cases hresume
            · case isFalse honce =>
              cases hresume
              rintro - (hnone : next = none)
              rcases hok (not_not.mp hpaused) hnext with hisonce | hne | hheld
              · exact absurd ⟨hisonce, hnone⟩ honce
              · exact absurd (hnone ▸ hcomputed) hne
              · exact hheld

theorem holdsOrCompletes_step (hinv : w.HoldsOrCompletes) {a : Action}
    (hok : CompletionOk c cfg w a) (hstep : w.step c cfg a = some w') : w'.HoldsOrCompletes := by
  -- an Execution that is already there belongs to no held occurrence
  have hrow : ∀ {t : Instant} {f : ScheduleOccurrence → Option ScheduleOccurrence},
      (∀ r r', f r = some r' → r'.scheduledFor = r.scheduledFor) →
      (∀ x x', x.execution = none → f x = some x' → x' = x) →
      (w.occurrences.updateRow t f).map ({ w with occurrences := · }) = some w' →
      w'.HoldsOrCompletes := by
    intro t f hkey hf h
    obtain ⟨occs, hupdate, rfl⟩ := Option.map_eq_some_iff.mp h
    intro hactive hnone
    obtain ⟨x, hx, hheld⟩ := hinv hactive hnone
    refine hasHeld_updateRow hupdate hkey ⟨x, hx, hheld, .inr fun x' hx' => ?_⟩
    rwa [hf x x' (ScheduleOccurrence.isHeld_iff.mp hheld).2 hx']
  cases a with
  | tick now =>
    simp only [World.step] at hstep
    split at hstep
    · cases hstep
      exact hinv
    · cases hstep
  | due now env => exact holdsOrCompletes_due hinv hok hstep
  | waiting now env => exact holdsOrCompletes_waiting hinv hok hstep
  | trigger env =>
    simp only [World.step, Option.map_eq_some_iff] at hstep
    obtain ⟨occs, htrigger, rfl⟩ := hstep
    exact fun hactive hnone => hasHeld_triggerSchedule (hok hactive hnone) htrigger
  | activate =>
    simp only [World.step, Option.map_eq_some_iff] at hstep
    obtain ⟨s', hactivate, rfl⟩ := hstep
    rw [activateSchedule] at hactivate
    split at hactivate
    · cases hactivate
      exact hinv
    · split at hactivate
      · cases hactivate
      · split at hactivate
        · cases hactivate
        · split at hactivate
          · cases hactivate
          · cases hactivate
          · cases hactivate
            intro _ h
            cases h
  | pause =>
    simp only [World.step, Option.map_eq_some_iff] at hstep
    obtain ⟨s', hpause, rfl⟩ := hstep
    rw [pauseSchedule] at hpause
    split at hpause
    · cases hpause
      exact hinv
    · cases hpause
      intro h
      cases h
    · cases hpause
  | resume => exact holdsOrCompletes_resume hinv hok hstep
  | update config =>
    simp only [World.step, Option.map_eq_some_iff] at hstep
    obtain ⟨s', hupdate, rfl⟩ := hstep
    rw [updateSchedule] at hupdate
    split at hupdate
    · cases hupdate
    · case isFalse hpaused =>
      split at hupdate
      · cases hupdate
      · split at hupdate
        · cases hupdate
        · cases hupdate
          intro (hactive : w.schedule.status = .active)
          rw [not_not.mp hpaused] at hactive
          cases hactive
  | stage t =>
    refine hrow (fun r r' h => ?_) (fun x x' hexec h => ?_) hstep <;>
      rw [ScheduleOccurrence.stage] at h <;> split at h
    · cases h
      rfl
    · cases h
    · case isTrue hcreated =>
      rw [hexec] at hcreated
      cases hcreated.2
    · cases h
  | claim t =>
    refine hrow (fun r r' h => ?_) (fun x x' hexec h => ?_) hstep <;>
      rw [ScheduleOccurrence.claim] at h <;> split at h
    · cases h
      rfl
    · cases h
    · case isTrue hqueued =>
      rw [hexec] at hqueued
      cases hqueued.2
    · cases h
  | advance t status =>
    refine hrow (fun r r' h => ?_) (fun x x' hexec h => ?_) hstep <;>
      rw [ScheduleOccurrence.advance] at h <;> split at h
    · cases h
      rfl
    · cases h
    · case isTrue hsome =>
      rw [hexec] at hsome
      cases hsome
    · cases h
  | planMaterialized t =>
    simp only [World.step, Option.map_eq_some_iff] at hstep
    obtain ⟨occs, hupdate, rfl⟩ := hstep
    intro hactive hnone
    obtain ⟨x, hx, hheld, hne⟩ := hok hactive hnone
    refine hasHeld_updateRow hupdate (fun r r' h => ?_) ⟨x, hx, hheld, .inl hne⟩
    rw [ScheduleOccurrence.planMaterialized] at h
    split at h <;> cases h
    rfl
  | planFailed t refusal =>
    simp only [World.step, Option.map_eq_some_iff] at hstep
    obtain ⟨occs, hupdate, rfl⟩ := hstep
    intro hactive hnone
    obtain ⟨x, hx, hheld, hne⟩ := hok hactive hnone
    refine hasHeld_updateRow hupdate (fun r r' h => ?_) ⟨x, hx, hheld, .inl hne⟩
    rw [ScheduleOccurrence.planFailed] at h
    split at h
    · split at h <;> cases h <;> rfl
    · cases h
  | reconcile t finishedAt now =>
    refine hrow (fun r r' h => ?_) (fun x x' hexec h => ?_) hstep
    · cases h
      rw [ScheduleOccurrence.reconcile]
      split
      · rfl
      · dsimp only
        split
        · rfl
        · split <;> rfl
    · cases h
      rw [ScheduleOccurrence.reconcile]
      split
      · rfl
      · case h_2 s hs =>
        rw [hexec] at hs
        cases hs

theorem holdsOrCompletes_of_initial (h : w.Initial) : w.HoldsOrCompletes := by
  intro hactive
  rw [h.paused] at hactive
  cases hactive

/-- A scheduler pass over an ACTIVE Schedule that leaves no next run and no held occurrence has
completed it. -/
theorem completed_of_step {env : FireEnv} {a : Action}
    (ha : a = .due now env ∨ a = .waiting now env) (hstep : w.step c cfg a = some w')
    (hinv : w'.HoldsOrCompletes) (hactive : w.schedule.status = .active)
    (hnone : w'.schedule.nextRunAt = none) (hheld : ¬ w'.occurrences.HasHeld) :
    w'.schedule.status = .completed := by
  have hlive : w'.schedule.status ≠ .active := fun h => hheld (hinv h hnone)
  have hmaybe : ∀ (s : Schedule) occs, s.status = .active → w'.schedule = maybeCompleteSchedule s occs →
      w'.schedule.status = .completed := by
    intro s occs hs heq
    rcases maybeCompleteSchedule_cases s occs with ⟨hsame, -⟩ | ⟨-, -, -, hdone⟩
    · rw [heq, hsame] at hlive
      exact absurd hs hlive
    · rw [heq, hdone]
  rcases ha with rfl | rfl
  · simp only [World.step] at hstep
    split at hstep
    · cases hstep
    · split at hstep
      · cases hstep
      · case h_2 s' occs' hdue =>
        cases hstep
        rcases processDueSchedule_cases hdue with ⟨hsame, -⟩ |
          ⟨next, part, -, hnext, -, -, ⟨-, hsame⟩ | ⟨-, -, heq⟩⟩
        · cases hsame
          exact absurd hactive hlive
        · cases hsame
          rw [hnext] at hnone
          cases hnone
        · exact hmaybe { w.schedule with nextRunAt := part.nextAfter } occs' hactive heq
  · simp only [World.step] at hstep
    split at hstep
    · cases hstep
    · cases hstep
      rw [processWaitingSchedule, if_neg (not_not.mpr hactive)] at hmaybe ⊢
      exact hmaybe _ _ hactive rfl

/-! ### Whole runs -/

/-- A Schedule that was just created: every minute from 0, twice, one occurrence at a time. -/
def queuedSchedule : World where
  schedule := {
    status := .paused
    targetType := .workflowVersion
    definition := ⟨.interval 60000000 (by decide), "UTC", some 0, some 120000000⟩
    misfirePolicy := .skip
    overlapPolicy := .queue
    maxCatchUp := 1
    nextRunAt := none }
  occurrences := Table.empty
  clock := -1

theorem queuedSchedule_initial : queuedSchedule.Initial := ⟨rfl, fun h => absurd h (by decide), rfl, rfl⟩

def sampleRuntime : RuntimeConfig := ⟨60, 100⟩

/-- No creation is refused and no call is in flight. -/
def calmEnv : FireEnv := ⟨fun _ => none, fun _ => false⟩

/-- The second point waits for the first Execution. -/
def heldSecond : List Action :=
  [.activate, .tick 0, .due 0 calmEnv, .stage 0, .claim 0, .tick 60000000, .due 60000000 calmEnv]

/-- The second point waits for the first Execution, and is released when that has ended. -/
def lastRelease : List Action :=
  [.activate, .tick 0, .due 0 calmEnv, .stage 0, .claim 0, .tick 60000000, .due 60000000 calmEnv,
    .advance 0 .succeeded, .waiting 60000000 calmEnv]

end McpFlow.Scheduler
