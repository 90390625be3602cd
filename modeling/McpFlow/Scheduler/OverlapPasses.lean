import McpFlow.Scheduler.Overlap

/-!
# The passes under an overlap policy

The two passes of an iteration try their instants in order, and a fire leaves the later rows alone,
so what a pass needs of its points is read off the table before it. Held QUEUE occurrences leave the
queue from its front; under REPLACE whatever comes to stand has nothing standing before it.
-/

namespace McpFlow.Scheduler

open Recurrence Occurrences
open Planner (OccurrenceStatus)

variable {policy : ScheduleOverlapPolicy} {r r' x y : ScheduleOccurrence}
  {occs occs₁ occs₂ base : Occurrences} {now t : Instant} {s : Schedule} {env : FireEnv}
  {trigger : TriggerType} {fire : Fire} {p : Spec} {specs : List Spec} {reason : DecisionReason}

/-! ### Entered and skipped rows -/

theorem Entered.not_isHeld (hr : Entered occs t reason r) (hwait : reason.isWait = false) :
    r.isHeld = false := by
  by_contra hnot
  have hheld : r.isHeld = true := by simpa using hnot
  obtain ⟨-, reason', hreason', hwait'⟩ :=
    ScheduleOccurrence.isWaiting_iff.mp (ScheduleOccurrence.isHeld_iff.mp hheld).1
  rw [hr.decisionReason_eq] at hreason'
  cases hreason'
  rw [hwait] at hwait'
  cases hwait'

theorem Entered.regular (hr : Entered occs t reason r) (hwait : reason.isWait = false)
    (h : ∀ y ∈ occs, y.Regular policy) : r.Regular policy := by
  have hwaits : r.WaitsFor policy :=
    ScheduleOccurrence.waitsFor_of_not_isWait hr.decisionReason_eq hwait
  cases hr with
  | old hmem => exact ⟨(h _ hmem).isOpen, (h _ hmem).staged, hwaits⟩
  | new => exact ⟨nofun, fun h => (h.elim nofun nofun), hwaits⟩

variable (policy) in
/-- An entered row counts and runs as the row of its instant. -/
theorem Entered.fades (hr : Entered occs t reason r) (hwait : reason.isWait = false) :
    (r.isRunning = false ∧ r.isHeld = false) ∨ ∃ y ∈ occs, Fades policy y r := by
  have hheld := hr.not_isHeld hwait
  cases hr with
  | old hmem =>
    refine .inr ⟨_, hmem, Fades.of_execution rfl rfl fun h => ?_⟩
    rw [hheld] at h
    cases h
  | new => exact .inl ⟨rfl, hheld⟩

theorem Orderly.entered (h : Orderly policy occs) (hr : Entered occs t reason r)
    (hwait : reason.isWait = false) : Orderly policy (occs.entered r) := by
  refine h.of_fades fun x hx => ?_
  rcases mem_entered_iff.mp hx with rfl | ⟨hx, -⟩
  · exact ⟨hr.regular hwait h.regular, hr.fades _ hwait⟩
  · exact ⟨h.regular x hx, .inr ⟨x, hx, .refl policy x⟩⟩

/-- Nobody runs or is held at an instant. -/
def Occurrences.IdleAt (occs : Occurrences) (t : Instant) : Prop :=
  ∀ r ∈ occs, r.scheduledFor = t → r.isRunning = false ∧ r.isHeld = false

/-- A row after a skipped point is an old row, or it neither runs nor is held. -/
theorem mem_skipPoint_cases (hidle : occs.IdleAt p.1) (hx : x ∈ skipPoint now occs p) :
    x ∈ occs ∨ (x.scheduledFor = p.1 ∧ x.isRunning = false ∧
      ∃ r : ScheduleOccurrence, r.isRunning = false ∧ x = r.failOrSkip .skipped p.2 now) := by
  rcases mem_skipPoint hx with ⟨hx, -⟩ | ⟨r, hr, -, rfl⟩
  · exact .inl hx
  · have hrun : r.isRunning = false := by
      cases hr with
      | old hmem hkey => exact (hidle _ hmem hkey).1
      | new => rfl
    exact .inr ⟨hr.scheduledFor_eq, hrun, r, hrun, rfl⟩

theorem idleAt_skipPoint (hp : occs.IdleAt p.1) (ht : occs.IdleAt t) :
    IdleAt (skipPoint now occs p) t := by
  intro x hx hkey
  rcases mem_skipPoint_cases hp hx with hx | ⟨-, hrun, r, -, rfl⟩
  · exact ht x hx hkey
  · exact ⟨hrun, Bool.and_eq_false_iff.mpr
      (.inl (ScheduleOccurrence.isWaiting_failOrSkip (by decide)))⟩

theorem Orderly.skipPoint (h : Orderly policy occs) (hidle : occs.IdleAt p.1)
    (hwait : p.2.isWait = false) : Orderly policy (skipPoint now occs p) := by
  refine h.of_fades fun x hx => ?_
  rcases mem_skipPoint_cases hidle hx with hx | ⟨-, hrun, r, hrrun, rfl⟩
  · exact ⟨h.regular x hx, .inr ⟨x, hx, .refl policy x⟩⟩
  · refine ⟨ScheduleOccurrence.regular_failOrSkip (.inr rfl) hwait hrrun, .inl ⟨hrun, ?_⟩⟩
    exact Bool.and_eq_false_iff.mpr (.inl (ScheduleOccurrence.isWaiting_failOrSkip (by decide)))

variable (now) in
theorem Orderly.foldl_skipPoint (h : Orderly policy occs) (hidle : ∀ p ∈ specs, occs.IdleAt p.1)
    (hwait : ∀ p ∈ specs, p.2.isWait = false) :
    Orderly policy (specs.foldl (McpFlow.Scheduler.skipPoint now) occs) := by
  induction specs generalizing occs with
  | nil => exact h
  | cons p specs ih =>
    have hp := hidle p List.mem_cons_self
    refine ih (h.skipPoint hp (hwait p List.mem_cons_self)) (fun q hq => ?_) fun q hq =>
      hwait q (List.mem_cons_of_mem p hq)
    exact idleAt_skipPoint hp (hidle q (List.mem_cons_of_mem p hq))

/-! ### The rows around a fire -/

/-- A later row is not touched. -/
theorem mem_tryFire_iff_of_lt (hlt : r.scheduledFor < x.scheduledFor) :
    x ∈ (tryFireOccurrence s occs r now env trigger).1 ↔ x ∈ occs := by
  obtain ⟨-, hnoop⟩ | ⟨base, r', fire, -, hfired, hput⟩ := tryFire_cases s occs r now env trigger
  · rw [hnoop]
  · rw [hput]
    exact ⟨fun hx => hfired.mem_of_lt hx hlt, fun hx => hfired.mem_put_of_le hx hlt.le hlt.ne'⟩

/-- Without REPLACE no other row is touched. -/
theorem mem_tryFire_iff_of_ne (hpolicy : s.overlapPolicy ≠ .replace)
    (hne : x.scheduledFor ≠ r.scheduledFor) :
    x ∈ (tryFireOccurrence s occs r now env trigger).1 ↔ x ∈ occs := by
  obtain ⟨-, hnoop⟩ | ⟨base, r', fire, -, hfired, hput⟩ := tryFire_cases s occs r now env trigger
  · rw [hnoop]
  · rw [hput, hfired.base_eq hpolicy]
    refine ⟨fun hx => ?_, fun hx => Table.mem_put_of_ne hx (by rwa [hfired.scheduledFor_eq])⟩
    rcases Table.mem_put hx with rfl | ⟨hx, -⟩
    · exact absurd hfired.scheduledFor_eq hne
    · exact hx

theorem mem_firePoint_iff_of_lt (hlt : p.1 < x.scheduledFor) :
    x ∈ firePoint s now env occs p ↔ x ∈ occs := by
  obtain ⟨r, hr, heq⟩ := firePoint_eq s now env occs p
  have hlt' : r.scheduledFor < x.scheduledFor := by rwa [hr.scheduledFor_eq]
  rw [heq, mem_tryFire_iff_of_lt hlt', mem_entered_iff]
  exact ⟨fun h => h.elim (fun heq => absurd hlt' (heq ▸ lt_irrefl _)) (·.1),
    fun h => .inr ⟨h, hlt'.ne'⟩⟩

theorem mem_firePoint_iff_of_ne (hpolicy : s.overlapPolicy ≠ .replace)
    (hne : x.scheduledFor ≠ p.1) : x ∈ firePoint s now env occs p ↔ x ∈ occs := by
  obtain ⟨r, hr, heq⟩ := firePoint_eq s now env occs p
  have hne' : x.scheduledFor ≠ r.scheduledFor := by rwa [hr.scheduledFor_eq]
  rw [heq, mem_tryFire_iff_of_ne hpolicy hne', mem_entered_iff]
  exact ⟨fun h => h.elim (fun heq => absurd (congrArg _ heq) hne') (·.1), fun h => .inr ⟨h, hne'⟩⟩

theorem mem_foldl_firePoint_iff_of_ne (hpolicy : s.overlapPolicy ≠ .replace)
    (hne : x.scheduledFor ∉ specs.map Prod.fst) :
    x ∈ specs.foldl (firePoint s now env) occs ↔ x ∈ occs := by
  induction specs generalizing occs with
  | nil => exact Iff.rfl
  | cons p specs ih =>
    rw [List.map_cons, List.mem_cons, not_or] at hne
    exact (ih hne.2).trans (mem_firePoint_iff_of_ne hpolicy hne.1)

variable (s now env occs t) in
/-- One turn of the release. -/
theorem releaseWaiting_cons (ts : List Instant) :
    (∀ y ∈ occs, y.scheduledFor ≠ t) ∧
        releaseWaiting s now env (t :: ts) occs = releaseWaiting s now env ts occs ∨
      ∃ r ∈ occs, r.scheduledFor = t ∧
        ((tryFireOccurrence s occs r now env .schedule).2 = .wait ∧
            releaseWaiting s now env (t :: ts) occs =
              (tryFireOccurrence s occs r now env .schedule).1 ∨
          (tryFireOccurrence s occs r now env .schedule).2 ≠ .wait ∧
            releaseWaiting s now env (t :: ts) occs =
              releaseWaiting s now env ts (tryFireOccurrence s occs r now env .schedule).1) := by
  rw [releaseWaiting]
  split
  · case h_1 hnone => exact .inl ⟨Table.find?_eq_none_iff.mp hnone, rfl⟩
  · case h_2 r hr =>
    obtain ⟨hmem, hkey⟩ := Table.find?_eq_some_iff.mp hr
    refine .inr ⟨r, hmem, hkey, ?_⟩
    split
    · case h_1 occs' heq => exact .inl ⟨congrArg Prod.snd heq, (congrArg Prod.fst heq).symm⟩
    · case h_2 occs' fire hne heq =>
      refine .inr ⟨fun hwait => hne ?_, ?_⟩
      · rw [heq] at hwait
        exact hwait
      · rw [heq]

theorem mem_releaseWaiting_iff_of_ne (hpolicy : s.overlapPolicy ≠ .replace) {ts : List Instant}
    (hne : x.scheduledFor ∉ ts) : x ∈ releaseWaiting s now env ts occs ↔ x ∈ occs := by
  induction ts generalizing occs with
  | nil => exact Iff.rfl
  | cons t ts ih =>
    rw [List.mem_cons, not_or] at hne
    rcases releaseWaiting_cons occs now t s env ts with
      ⟨-, heq⟩ | ⟨r, hr, rfl, ⟨-, heq⟩ | ⟨-, heq⟩⟩
    · rw [heq, ih hne.2]
    · rw [heq, mem_tryFire_iff_of_ne hpolicy hne.1]
    · rw [heq, ih hne.2, mem_tryFire_iff_of_ne hpolicy hne.1]

/-! ### The invariant through the passes -/

/-- The Schedule of the results below: overlap is not allowed, and an agent runs once. -/
structure Schedule.Excludes (s : Schedule) : Prop where
  policy : s.overlapPolicy ≠ .allow
  agentOnce : s.targetType = .agentVersion → s.definition.expression.isOnce = true

/-- No later Execution counts against the one that a due point would create. -/
def Schedule.ClearAfter (s : Schedule) (occs : Occurrences) (env : FireEnv) (t : Instant) : Prop :=
  s.targetType = .workflowVersion → env.refusal t = none →
    (∀ r ∈ occs, r.scheduledFor = t → r.status = .planned ∧ r.execution = none) →
    occs.NoneLater s.overlapPolicy t

/-- The condition reads the row of the instant and the later ones. -/
theorem Schedule.ClearAfter.congr (h : s.ClearAfter occs env t)
    (hrows : ∀ x : ScheduleOccurrence, t ≤ x.scheduledFor → (x ∈ occs₁ ↔ x ∈ occs)) :
    s.ClearAfter occs₁ env t := by
  intro htarget hpass hfree x hx hlt
  refine h htarget hpass (fun y hy hkey => ?_) x ((hrows x hlt.le).mp hx) hlt
  exact hfree y ((hrows y hkey.ge).mpr hy) hkey

theorem Orderly.tryFire (h : Orderly s.overlapPolicy occs) (hs : s.Excludes) (hr : r ∈ occs)
    (hlater : s.targetType = .workflowVersion → env.refusal r.scheduledFor = none →
      r.status = .planned → r.execution = none → occs.NoneLater s.overlapPolicy r.scheduledFor) :
    Orderly s.overlapPolicy (tryFireOccurrence s occs r now env trigger).1 := by
  obtain ⟨-, hnoop⟩ | ⟨base, r', fire, hplanned, hfired, hput⟩ :=
    tryFire_cases s occs r now env trigger
  · rwa [hnoop]
  · rw [hput]
    exact hfired.orderly hs.policy hs.agentOnce h hr hplanned fun htarget hpass =>
      hlater htarget hpass hplanned

/-- Entering a row changes nothing after it. -/
theorem noneLater_entered (h : occs.NoneLater policy r.scheduledFor) :
    (occs.entered r).NoneLater policy r.scheduledFor := by
  intro x hx hlt
  rcases mem_entered_iff.mp hx with rfl | ⟨hx, -⟩
  · exact absurd hlt (lt_irrefl _)
  · exact h x hx hlt

variable (now) in
theorem Orderly.firePoint (h : Orderly s.overlapPolicy occs) (hs : s.Excludes)
    (hwait : p.2.isWait = false) (hclear : s.ClearAfter occs env p.1) :
    Orderly s.overlapPolicy (firePoint s now env occs p) := by
  obtain ⟨r, hr, heq⟩ := firePoint_eq s now env occs p
  rw [heq]
  refine (h.entered hr hwait).tryFire hs (mem_entered_self _ _) fun htarget hpass hplanned hexec => ?_
  have hkey := hr.scheduledFor_eq
  refine noneLater_entered (hkey ▸ hclear htarget (hkey ▸ hpass) fun y hy hyp => ?_)
  cases hr with
  | old hmem hk =>
    obtain rfl := Table.eq_of_key_eq hy hmem (hyp.trans hk.symm)
    exact ⟨hplanned, hexec⟩
  | new hnone => exact absurd hyp (hnone y hy)

theorem Orderly.foldl_firePoint (h : Orderly s.overlapPolicy occs) (hs : s.Excludes)
    (hsorted : specs.Pairwise fun p q => p.1 < q.1) (hwait : ∀ p ∈ specs, p.2.isWait = false)
    (hclear : ∀ p ∈ specs, s.ClearAfter occs env p.1) :
    Orderly s.overlapPolicy (specs.foldl (McpFlow.Scheduler.firePoint s now env) occs) := by
  induction specs generalizing occs with
  | nil => exact h
  | cons p specs ih =>
    obtain ⟨hlater, hsorted⟩ := List.pairwise_cons.mp hsorted
    refine ih (h.firePoint _ hs (hwait p List.mem_cons_self) (hclear p List.mem_cons_self)) hsorted
      (fun q hq => hwait q (List.mem_cons_of_mem p hq)) fun q hq => ?_
    -- the rows from the later points on are those of the old table
    refine (hclear q (List.mem_cons_of_mem p hq)).congr fun x hle => ?_
    exact mem_firePoint_iff_of_lt (lt_of_lt_of_le (hlater q hq) hle)

/-- The points of a due pass: nobody is lost at a skipped one, and what is fired is clear. -/
structure DueKeepsExclusion (s : Schedule) (occs : Occurrences) (env : FireEnv)
    (part : MisfirePartition) : Prop where
  idle : ∀ p ∈ (s.specs part).2, occs.IdleAt p.1
  clear : ∀ p ∈ (s.specs part).1, s.ClearAfter occs env p.1

theorem not_isWait_of_mem_specs_fst {part : MisfirePartition} (hp : p ∈ (s.specs part).1) :
    p.2.isWait = false := by
  rcases snd_of_mem_applyMisfire_fst hp with h | h | h <;> rw [h] <;> rfl

theorem not_isWait_of_mem_specs_snd {part : MisfirePartition} (hp : p ∈ (s.specs part).2) :
    p.2.isWait = false := by
  rw [snd_of_mem_applyMisfire_snd hp]
  cases s.misfirePolicy <;> rfl

/-- The skipped points are not among the fired ones, so those find the old rows. -/
theorem mem_foldl_skipPoint_iff {part : MisfirePartition} (hsorted : part.points.Pairwise (· < ·))
    (hx : x.scheduledFor ∈ (s.specs part).1.map Prod.fst) :
    x ∈ (s.specs part).2.foldl (skipPoint now) occs ↔ x ∈ occs := by
  have hnot : x.scheduledFor ∉ (s.specs part).2.map Prod.fst := fun hin =>
    specs_disjoint hsorted hin hx
  exact ⟨fun h => mem_of_mem_foldl_skipPoint h hnot, fun h => mem_foldl_skipPoint_of_ne h hnot⟩

/-- A row after the skipped points is an old row, or it neither runs nor is held. -/
theorem mem_foldl_skipPoint_cases (hidle : ∀ p ∈ specs, occs.IdleAt p.1)
    (hx : x ∈ specs.foldl (skipPoint now) occs) :
    x ∈ occs ∨ (x.isRunning = false ∧ x.isHeld = false) := by
  induction specs generalizing occs with
  | nil => exact .inl hx
  | cons p specs ih =>
    have hp := hidle p List.mem_cons_self
    rcases ih (fun q hq => idleAt_skipPoint hp (hidle q (List.mem_cons_of_mem p hq))) hx with
      hx | hx
    · rcases mem_skipPoint_cases hp hx with hx | ⟨-, hrun, r, -, rfl⟩
      · exact .inl hx
      · exact .inr ⟨hrun, Bool.and_eq_false_iff.mpr
          (.inl (ScheduleOccurrence.isWaiting_failOrSkip (by decide)))⟩
    · exact .inr hx

theorem DueKeepsExclusion.clearAfter_foldl_skipPoint {part : MisfirePartition}
    (hok : DueKeepsExclusion s occs env part) (hsorted : part.points.Pairwise (· < ·))
    (hp : p ∈ (s.specs part).1) :
    s.ClearAfter ((s.specs part).2.foldl (skipPoint now) occs) env p.1 := by
  intro htarget hpass hfree x hx hlt
  rcases mem_foldl_skipPoint_cases hok.idle hx with hx | ⟨hrun, -⟩
  · refine hok.clear p hp htarget hpass (fun y hy hkey => ?_) x hx hlt
    exact hfree y ((mem_foldl_skipPoint_iff hsorted (hkey ▸ List.mem_map_of_mem hp)).mpr hy) hkey
  · by_contra hnot
    rw [ScheduleOccurrence.isRunning_of_occupies (by simpa using hnot)] at hrun
    cases hrun

theorem Orderly.firePoints {part : MisfirePartition} (h : Orderly s.overlapPolicy occs)
    (hs : s.Excludes) (hsorted : part.points.Pairwise (· < ·))
    (hok : DueKeepsExclusion s occs env part) :
    Orderly s.overlapPolicy (firePoints s now env occs (s.specs part)) :=
  (h.foldl_skipPoint _ hok.idle fun _ hp => not_isWait_of_mem_specs_snd hp).foldl_firePoint hs
    (pairwise_specs_fst hsorted) (fun _ hp => not_isWait_of_mem_specs_fst hp) fun _ hp =>
      hok.clearAfter_foldl_skipPoint hsorted hp

/-- The rows that a release is about to try wait. -/
def Occurrences.WaitingAt (occs : Occurrences) (ts : List Instant) : Prop :=
  ∀ t ∈ ts, ∀ r ∈ occs, r.scheduledFor = t → r.isWaiting = true

theorem waitingAt_listWaiting (occs : Occurrences) : occs.WaitingAt occs.listWaiting := by
  intro t ht r hr hkey
  obtain ⟨r', hr', hwait, hkey'⟩ := mem_listWaiting.mp ht
  rwa [Table.eq_of_key_eq hr hr' (hkey.trans hkey'.symm)]

/-- The later rows wait for their turn. -/
theorem waitingAt_tryFire {ts : List Instant} (h : occs.WaitingAt ts)
    (hlater : ∀ u ∈ ts, r.scheduledFor < u) :
    WaitingAt (tryFireOccurrence s occs r now env trigger).1 ts := fun u hu y hy hkey =>
  h u hu y ((mem_tryFire_iff_of_lt (hkey ▸ hlater u hu)).mp hy) hkey

/-- The fire of a held occurrence finds nothing later that counts. -/
theorem Orderly.tryFire_of_isWaiting (h : Orderly s.overlapPolicy occs) (hs : s.Excludes)
    (hr : r ∈ occs) (hwait : r.isWaiting = true) :
    Orderly s.overlapPolicy (tryFireOccurrence s occs r now env trigger).1 := by
  refine h.tryFire hs hr fun _ _ _ hexec x hx hlt => ?_
  by_contra hocc
  exact absurd hlt (h.heldLater r hr (ScheduleOccurrence.isHeld_iff.mpr ⟨hwait, hexec⟩) x hx
    (by simpa using hocc)).not_gt

theorem Orderly.releaseWaiting {ts : List Instant} (h : Orderly s.overlapPolicy occs)
    (hs : s.Excludes) (hsorted : ts.Pairwise (· < ·)) (hwaiting : occs.WaitingAt ts) :
    Orderly s.overlapPolicy (releaseWaiting s now env ts occs) := by
  induction ts generalizing occs with
  | nil => exact h
  | cons t ts ih =>
    obtain ⟨hlater, hsorted⟩ := List.pairwise_cons.mp hsorted
    have htail : occs.WaitingAt ts := fun u hu => hwaiting u (List.mem_cons_of_mem t hu)
    have hfire : ∀ r ∈ occs, r.scheduledFor = t →
        Orderly s.overlapPolicy (tryFireOccurrence s occs r now env .schedule).1 :=
      fun r hr hkey => h.tryFire_of_isWaiting hs hr (hwaiting t List.mem_cons_self r hr hkey)
    rcases releaseWaiting_cons occs now t s env ts with
      ⟨-, heq⟩ | ⟨r, hr, hkey, ⟨-, heq⟩ | ⟨-, heq⟩⟩
    · rw [heq]
      exact ih h hsorted htail
    · rw [heq]
      exact hfire r hr hkey
    · rw [heq]
      exact ih (hfire r hr hkey) hsorted (waitingAt_tryFire htail (hkey ▸ hlater))

/-! ### The queue -/

/-- A held occurrence has left the queue: it has its Execution, it is handed to the planner, or its
preflight refused it. -/
def ScheduleOccurrence.Released (r : ScheduleOccurrence) : Prop :=
  r.execution.isSome = true ∨ r.planOutbox = true ∨
    (r.status = .failed ∧ r.decisionReason.any (·.isRefusal) = true)

/-- Nothing older is held. -/
def Occurrences.NoneHeldBefore (occs : Occurrences) (t : Instant) : Prop :=
  ∀ g ∈ occs, g.scheduledFor < t → g.isHeld = false

/-- A held occurrence stays held, or is released when nothing older is held. -/
def QueueOrdered (occs occs' : Occurrences) : Prop :=
  ∀ h ∈ occs, h.isHeld = true → ∃ h' ∈ occs', h'.scheduledFor = h.scheduledFor ∧
    (h'.isHeld = true ∨ (h'.Released ∧ occs'.NoneHeldBefore h.scheduledFor))

theorem QueueOrdered.refl (occs : Occurrences) : QueueOrdered occs occs :=
  fun h hh hheld => ⟨h, hh, rfl, .inl hheld⟩

/-- One instant is decided, in the order of the queue. -/
structure QueueTurn (t : Instant) (occs occs' : Occurrences) : Prop where
  others : ∀ x : ScheduleOccurrence, x.scheduledFor ≠ t → (x ∈ occs' ↔ x ∈ occs)
  own : ∀ h ∈ occs, h.scheduledFor = t → h.isHeld = true → ∃ h' ∈ occs', h'.scheduledFor = t ∧
    (h'.isHeld = true ∨ (h'.Released ∧ occs.NoneHeldBefore t))

/-- A turn, and then the turns of later instants. -/
theorem QueueTurn.cons (h₁ : QueueTurn t occs occs₁) (h₂ : QueueOrdered occs₁ occs₂)
    (hrest : ∀ x : ScheduleOccurrence, x.scheduledFor ≤ t → (x ∈ occs₂ ↔ x ∈ occs₁)) :
    QueueOrdered occs occs₂ := by
  intro h hh hheld
  by_cases hkey : h.scheduledFor = t
  · obtain ⟨h', hh', hkey', hcase⟩ := h₁.own h hh hkey hheld
    refine ⟨h', (hrest h' hkey'.le).mpr hh', hkey'.trans hkey.symm, hcase.imp_right ?_⟩
    rintro ⟨hreleased, hnone⟩
    refine ⟨hreleased, fun g hg hlt => ?_⟩
    rw [hkey] at hlt
    exact hnone g ((h₁.others g hlt.ne).mp ((hrest g hlt.le).mp hg)) hlt
  · exact h₂ h ((h₁.others h hkey).mpr hh) hheld

theorem QueueTurn.queueOrdered (h : QueueTurn t occs occs₁) : QueueOrdered occs occs₁ :=
  h.cons (.refl occs₁) fun _ _ => Iff.rfl

theorem isRefusal_of_refusal (e : Refusal) :
    (r.failOrSkip .failed e.reason now).Released :=
  .inr (.inr ⟨rfl, isRefusal_reason e⟩)

/-- Under QUEUE an occurrence without an Execution is held or released by its fire, and released only
from the front. -/
theorem Fired.queue_cases (hfired : Fired s occs r now env trigger base r' fire)
    (hpolicy : s.overlapPolicy = .queue) (hs : s.Excludes) (hplanned : r.status = .planned)
    (hexec : r.execution = none) :
    r'.isHeld = true ∨ (r'.Released ∧ occs.NoneHeldBefore r.scheduledFor) := by
  have hfront : ∀ {base r₁}, Allowed s.overlapPolicy occs r now env base r₁ →
      r₁ = r ∧ occs.NoneHeldBefore r.scheduledFor := by
    intro base r₁ hallow
    cases hallow with
    | clear hclear =>
      refine ⟨rfl, fun g hg hlt => ?_⟩
      have hnone := activePriors_eq_nil_iff.mp (hclear.resolve_right hs.policy) g hg hlt
      by_contra hnot
      obtain ⟨hwait, hgexec⟩ := ScheduleOccurrence.isHeld_iff.mp (by simpa using hnot)
      rw [ScheduleOccurrence.isActivePrior_of_isWaiting hwait hgexec] at hnone
      cases hnone
    | replaced hreplace =>
      rw [hpolicy] at hreplace
      cases hreplace
  cases hfired with
  | unsupported hagent hnot =>
    rw [hs.agentOnce hagent] at hnot
    cases hnot
  | overlapSkip hskip =>
    rw [hpolicy] at hskip
    cases hskip
  | queued =>
    exact .inl (ScheduleOccurrence.isHeld_iff.mpr
      ⟨ScheduleOccurrence.isWaiting_iff.mpr ⟨hplanned, _, rfl, rfl⟩, hexec⟩)
  | replaceWait hreplace =>
    rw [hpolicy] at hreplace
    cases hreplace
  | refused hallow e => exact .inr ⟨isRefusal_of_refusal e, (hfront hallow).2⟩
  | executed hallow hcreate =>
    obtain ⟨rfl, hnone⟩ := hfront hallow
    refine .inr ⟨?_, hnone⟩
    cases hcreate with
    | existing hsome =>
      rw [hexec] at hsome
      cases hsome
    | workflow => exact .inl rfl
    | handedOver _ _ _ hplan => exact .inr (.inl hplan)
    | handover => exact .inr (.inl rfl)

theorem queueTurn_tryFire (hpolicy : s.overlapPolicy = .queue) (hs : s.Excludes) (hr : r ∈ occs) :
    QueueTurn r.scheduledFor occs (tryFireOccurrence s occs r now env trigger).1 := by
  have hnot : s.overlapPolicy ≠ .replace := by
    rw [hpolicy]
    decide
  refine ⟨fun x hne => mem_tryFire_iff_of_ne hnot hne, fun h hh hkey hheld => ?_⟩
  obtain rfl := Table.eq_of_key_eq hr hh hkey.symm
  obtain ⟨hwait, hexec⟩ := ScheduleOccurrence.isHeld_iff.mp hheld
  obtain ⟨hstatus, -⟩ | ⟨base, r', fire, hplanned, hfired, hput⟩ :=
    tryFire_cases s occs r now env trigger
  · exact absurd (ScheduleOccurrence.isWaiting_iff.mp hwait).1 hstatus
  · rw [hput]
    exact ⟨r', hfired.mem_put_self hr, hfired.scheduledFor_eq,
      hfired.queue_cases hpolicy hs hplanned hexec⟩

/-- A fire after the entry of its row, which is no longer held then. -/
theorem queueTurn_entered (hpolicy : s.overlapPolicy = .queue) (hs : s.Excludes)
    (hr : Entered occs t reason r) :
    QueueTurn t occs (tryFireOccurrence s (occs.entered r) r now env trigger).1 := by
  have hnot : s.overlapPolicy ≠ .replace := by
    rw [hpolicy]
    decide
  have hkey := hr.scheduledFor_eq
  constructor
  · intro x hne
    have hne' : x.scheduledFor ≠ r.scheduledFor := by rwa [hkey]
    rw [mem_tryFire_iff_of_ne hnot hne', mem_entered_iff]
    exact ⟨fun h => h.elim (fun heq => absurd (congrArg _ heq) hne') (·.1), fun h => .inr ⟨h, hne'⟩⟩
  · intro h hh hht hheld
    obtain ⟨hwait, hexec⟩ := ScheduleOccurrence.isHeld_iff.mp hheld
    have hrow : r.status = .planned ∧ r.execution = none := by
      cases hr with
      | old hmem hk =>
        obtain rfl := Table.eq_of_key_eq hmem hh (hk.trans hht.symm)
        exact ⟨(ScheduleOccurrence.isWaiting_iff.mp hwait).1, hexec⟩
      | new hnone => exact absurd hht (hnone h hh)
    obtain ⟨hstatus, -⟩ | ⟨base, r', fire, hplanned, hfired, hput⟩ :=
      tryFire_cases s (occs.entered r) r now env trigger
    · exact absurd hrow.1 hstatus
    · rw [hput]
      refine ⟨r', hfired.mem_put_self (mem_entered_self _ _), hfired.scheduledFor_eq.trans hkey,
        (hfired.queue_cases hpolicy hs hplanned hrow.2).imp_right ?_⟩
      rintro ⟨hreleased, hnone⟩
      refine ⟨hreleased, fun g hg hlt => ?_⟩
      rw [← hkey] at hlt
      exact hnone g (mem_entered_iff.mpr (.inr ⟨hg, hlt.ne⟩)) hlt

theorem queueTurn_firePoint (hpolicy : s.overlapPolicy = .queue) (hs : s.Excludes) :
    QueueTurn p.1 occs (firePoint s now env occs p) := by
  obtain ⟨r, hr, heq⟩ := firePoint_eq s now env occs p
  rw [heq]
  exact queueTurn_entered hpolicy hs hr

theorem queueOrdered_foldl_firePoint (hpolicy : s.overlapPolicy = .queue) (hs : s.Excludes)
    (hsorted : specs.Pairwise fun p q => p.1 < q.1) :
    QueueOrdered occs (specs.foldl (firePoint s now env) occs) := by
  induction specs generalizing occs with
  | nil => exact .refl occs
  | cons p specs ih =>
    obtain ⟨hlater, hsorted⟩ := List.pairwise_cons.mp hsorted
    refine (queueTurn_firePoint hpolicy hs).cons (ih hsorted) fun x hle => ?_
    rw [List.foldl_cons]
    refine mem_foldl_firePoint_iff_of_ne (by rw [hpolicy]; decide) fun hin => ?_
    obtain ⟨q, hq, hkey⟩ := List.mem_map.mp hin
    exact absurd (hlater q hq) (not_lt.mpr (hkey ▸ hle))

theorem queueOrdered_firePoints {part : MisfirePartition} (hpolicy : s.overlapPolicy = .queue)
    (hs : s.Excludes) (hsorted : part.points.Pairwise (· < ·))
    (hidle : ∀ p ∈ (s.specs part).2, occs.IdleAt p.1) :
    QueueOrdered occs (firePoints s now env occs (s.specs part)) := by
  intro h hh hheld
  have hnot : h.scheduledFor ∉ (s.specs part).2.map Prod.fst := by
    intro hin
    obtain ⟨p, hp, hkey⟩ := List.mem_map.mp hin
    rw [(hidle p hp h hh hkey.symm).2] at hheld
    cases hheld
  exact queueOrdered_foldl_firePoint hpolicy hs (pairwise_specs_fst hsorted) h
    (mem_foldl_skipPoint_of_ne hh hnot) hheld

theorem queueOrdered_releaseWaiting {ts : List Instant} (hpolicy : s.overlapPolicy = .queue)
    (hs : s.Excludes) (hsorted : ts.Pairwise (· < ·)) :
    QueueOrdered occs (releaseWaiting s now env ts occs) := by
  induction ts generalizing occs with
  | nil => exact .refl occs
  | cons t ts ih =>
    obtain ⟨hlater, htail⟩ := List.pairwise_cons.mp hsorted
    rcases releaseWaiting_cons occs now t s env ts with
      ⟨-, heq⟩ | ⟨r, hr, rfl, ⟨-, heq⟩ | ⟨-, heq⟩⟩
    · rw [heq]
      exact ih htail
    · rw [heq]
      exact (queueTurn_tryFire hpolicy hs hr).queueOrdered
    · rw [heq]
      refine (queueTurn_tryFire hpolicy hs hr).cons (ih htail) fun x hle => ?_
      refine mem_releaseWaiting_iff_of_ne (by rw [hpolicy]; decide) fun hin => ?_
      exact absurd (hlater _ hin) (not_lt.mpr hle)

/-! ### The newest under REPLACE -/

/-- The occurrence has an Execution that counts, or is held for one. -/
def ScheduleOccurrence.stands (policy : ScheduleOverlapPolicy) (r : ScheduleOccurrence) : Bool :=
  r.occupies policy || r.isHeld

/-- Nothing older stands. -/
def Occurrences.NoneBefore (policy : ScheduleOverlapPolicy) (occs : Occurrences) (t : Instant) :
    Prop :=
  ∀ x ∈ occs, x.scheduledFor < t → x.stands policy = false

/-- When an occurrence comes to stand, nothing older stands. -/
def NewestWins (policy : ScheduleOverlapPolicy) (occs occs' : Occurrences) : Prop :=
  ∀ r ∈ occs', r.stands policy = true →
    (∀ y ∈ occs, y.scheduledFor = r.scheduledFor → y.stands policy = false) →
    occs'.NoneBefore policy r.scheduledFor

theorem Fades.stands (h : Fades policy y x) (hx : x.stands policy = true) :
    y.stands policy = true := by
  rw [ScheduleOccurrence.stands, Bool.or_eq_true] at hx ⊢
  exact hx.imp h.occupies h.isHeld

/-- Whatever stands has stood before. -/
theorem NewestWins.of_stood
    (h : ∀ x ∈ occs₁, x.stands policy = true → ∃ y ∈ occs, y.scheduledFor = x.scheduledFor ∧
      y.stands policy = true) : NewestWins policy occs occs₁ := by
  intro r hr hstands hnot
  obtain ⟨y, hy, hkey, hystands⟩ := h r hr hstands
  rw [hnot y hy hkey] at hystands
  cases hystands

theorem NewestWins.refl (policy : ScheduleOverlapPolicy) (occs : Occurrences) :
    NewestWins policy occs occs :=
  .of_stood fun x hx hstands => ⟨x, hx, rfl, hstands⟩

/-- The rows before an instant only fade. -/
def FadesBefore (policy : ScheduleOverlapPolicy) (t : Instant) (occs occs' : Occurrences) : Prop :=
  ∀ x ∈ occs', x.scheduledFor < t → ∃ y ∈ occs, Fades policy y x

theorem FadesBefore.refl (policy : ScheduleOverlapPolicy) (t : Instant) (occs : Occurrences) :
    FadesBefore policy t occs occs :=
  fun x hx _ => ⟨x, hx, .refl policy x⟩

theorem FadesBefore.trans (h₁ : FadesBefore policy t occs occs₁)
    (h₂ : FadesBefore policy t occs₁ occs₂) : FadesBefore policy t occs occs₂ := by
  intro x hx hlt
  obtain ⟨y, hy, hyx⟩ := h₂ x hx hlt
  obtain ⟨z, hz, hzy⟩ := h₁ y hy (hyx.key ▸ hlt)
  exact ⟨z, hz, hzy.key.trans hyx.key, fun h => hzy.occupies (hyx.occupies h),
    fun h => hzy.isRunning (hyx.isRunning h), fun h => hzy.isHeld (hyx.isHeld h)⟩

theorem FadesBefore.noneBefore (h : FadesBefore policy t occs occs₁)
    (hnone : occs.NoneBefore policy t) : occs₁.NoneBefore policy t := by
  intro x hx hlt
  obtain ⟨y, hy, hyx⟩ := h x hx hlt
  by_contra hstands
  have hy' := hyx.stands (by simpa using hstands)
  rw [hnone y hy (hyx.key ▸ hlt)] at hy'
  cases hy'

variable (policy) in
/-- The other rows fade when an occurrence is tried. -/
theorem fades_tryFire (hx : x ∈ (tryFireOccurrence s occs r now env trigger).1)
    (hne : x.scheduledFor ≠ r.scheduledFor) : ∃ y ∈ occs, Fades policy y x := by
  obtain ⟨-, hnoop⟩ | ⟨base, r', fire, -, hfired, hput⟩ := tryFire_cases s occs r now env trigger
  · rw [hnoop] at hx
    exact ⟨x, hx, .refl policy x⟩
  · rw [hput] at hx
    rcases hfired.mem_put hx with rfl | ⟨-, y, hy, hover⟩
    · exact absurd hfired.scheduledFor_eq hne
    · exact ⟨y, hy, hover.fades⟩

variable (policy) in
theorem fades_firePoint (hx : x ∈ firePoint s now env occs p) (hne : x.scheduledFor ≠ p.1) :
    ∃ y ∈ occs, Fades policy y x := by
  obtain ⟨r, hr, heq⟩ := firePoint_eq s now env occs p
  rw [heq] at hx
  obtain ⟨y, hy, hyx⟩ := fades_tryFire policy hx (by rwa [hr.scheduledFor_eq])
  rcases mem_entered_iff.mp hy with rfl | ⟨hy, -⟩
  · exact absurd (hyx.key.symm.trans hr.scheduledFor_eq) hne
  · exact ⟨y, hy, hyx⟩

theorem fadesBefore_foldl_firePoint (hle : ∀ p ∈ specs, t ≤ p.1) :
    FadesBefore policy t occs (specs.foldl (firePoint s now env) occs) := by
  induction specs generalizing occs with
  | nil => exact .refl policy t occs
  | cons p specs ih =>
    refine FadesBefore.trans (fun x hx hlt => ?_) (ih fun q hq => hle q (List.mem_cons_of_mem p hq))
    exact fades_firePoint _ hx (lt_of_lt_of_le hlt (hle p List.mem_cons_self)).ne

theorem fadesBefore_releaseWaiting {ts : List Instant} (hle : ∀ u ∈ ts, t ≤ u) :
    FadesBefore policy t occs (releaseWaiting s now env ts occs) := by
  induction ts generalizing occs with
  | nil => exact .refl policy t occs
  | cons u us ih =>
    have htail : ∀ v ∈ us, t ≤ v := fun v hv => hle v (List.mem_cons_of_mem u hv)
    rcases releaseWaiting_cons occs now u s env us with
      ⟨-, heq⟩ | ⟨r, hr, rfl, ⟨-, heq⟩ | ⟨-, heq⟩⟩
    · rw [heq]
      exact ih htail
    · rw [heq]
      exact fun x hx hlt => fades_tryFire _ hx (lt_of_lt_of_le hlt (hle _ List.mem_cons_self)).ne
    · rw [heq]
      refine FadesBefore.trans (fun x hx hlt => ?_) (ih htail)
      exact fades_tryFire _ hx (lt_of_lt_of_le hlt (hle _ List.mem_cons_self)).ne

/-- Under REPLACE nothing older stands when an occurrence has been tried. -/
theorem Fired.noneBefore (hfired : Fired s occs r now env trigger base r' fire)
    (hpolicy : s.overlapPolicy = .replace) (hs : s.Excludes)
    (hregular : ∀ y ∈ occs, y.Regular s.overlapPolicy) :
    NoneBefore s.overlapPolicy (base.put r') r.scheduledFor := by
  have hnone : ∀ {base r₁}, Allowed s.overlapPolicy occs r now env base r₁ →
      base.NoneBefore s.overlapPolicy r.scheduledFor := by
    intro base r₁ hallow x hx hlt
    obtain ⟨hrun, hheld⟩ := hallow.earlier hs.policy hregular hx hlt
    refine Bool.or_eq_false_iff.mpr ⟨?_, hheld⟩
    by_contra hocc
    rw [ScheduleOccurrence.isRunning_of_occupies (by simpa using hocc)] at hrun
    cases hrun
  have hbase : base.NoneBefore s.overlapPolicy r.scheduledFor := by
    cases hfired with
    | unsupported hagent hnot =>
      rw [hs.agentOnce hagent] at hnot
      cases hnot
    | overlapSkip hskip =>
      rw [hpolicy] at hskip
      cases hskip
    | queued hqueue =>
      rw [hpolicy] at hqueue
      cases hqueue
    | replaceWait =>
      intro x hx hlt
      obtain ⟨z, hz, rfl⟩ := Table.mem_mapRows.mp hx
      rw [ScheduleOccurrence.scheduledFor_overtake] at hlt
      refine Bool.or_eq_false_iff.mpr ⟨?_, ScheduleOccurrence.isHeld_overtake hlt fun hheld => ?_⟩
      · rw [hpolicy]
        exact ScheduleOccurrence.occupies_overtake (hregular z hz).isOpen hlt
      · obtain ⟨-, reason, hreason, hiswait⟩ :=
          ScheduleOccurrence.isWaiting_iff.mp (ScheduleOccurrence.isHeld_iff.mp hheld).1
        rcases (hregular z hz).waits reason hreason hiswait with ⟨hqueue, -⟩ | ⟨-, rfl⟩
        · rw [hpolicy] at hqueue
          cases hqueue
        · exact hreason
    | refused hallow => exact hnone hallow
    | executed hallow => exact hnone hallow
  intro x hx hlt
  rcases Table.mem_put hx with rfl | ⟨hx, -⟩
  · rw [hfired.scheduledFor_eq] at hlt
    exact absurd hlt (lt_irrefl _)
  · exact hbase x hx hlt

/-- An occurrence that stands after its entry and fire stood before, or nothing older stands. -/
theorem stands_tryFire_entered (hpolicy : s.overlapPolicy = .replace) (hs : s.Excludes)
    (hregular : ∀ y ∈ occs, y.Regular s.overlapPolicy) (hr : Entered occs t reason r)
    (hwait : reason.isWait = false)
    (hx : x ∈ (tryFireOccurrence s (occs.entered r) r now env trigger).1)
    (hstands : x.stands s.overlapPolicy = true) :
    (∃ y ∈ occs, y.scheduledFor = x.scheduledFor ∧ y.stands s.overlapPolicy = true) ∨
      (x.scheduledFor = t ∧ NoneBefore s.overlapPolicy
        (tryFireOccurrence s (occs.entered r) r now env trigger).1 t) := by
  have hkey := hr.scheduledFor_eq
  have hentered : ∀ y ∈ occs.entered r, y.Regular s.overlapPolicy := by
    intro y hy
    rcases mem_entered_iff.mp hy with rfl | ⟨hy, -⟩
    · exact hr.regular hwait hregular
    · exact hregular y hy
  -- a row of the entered table stands as a row of the old one
  have hold : ∀ y ∈ occs.entered r, y.stands s.overlapPolicy = true →
      ∃ z ∈ occs, z.scheduledFor = y.scheduledFor ∧ z.stands s.overlapPolicy = true := by
    intro y hy hystands
    rcases mem_entered_iff.mp hy with rfl | ⟨hy, -⟩
    · rcases hr.fades s.overlapPolicy hwait with ⟨hrun, hheld⟩ | ⟨z, hz, hfade⟩
      · rw [ScheduleOccurrence.stands, hheld, Bool.or_false] at hystands
        rw [ScheduleOccurrence.isRunning_of_occupies hystands] at hrun
        cases hrun
      · exact ⟨z, hz, hfade.key, hfade.stands hystands⟩
    · exact ⟨y, hy, rfl, hystands⟩
  by_cases hxr : x.scheduledFor = r.scheduledFor
  · obtain ⟨-, hnoop⟩ | ⟨base, r', fire, -, hfired, hput⟩ :=
      tryFire_cases s (occs.entered r) r now env trigger
    · rw [hnoop] at hx
      exact .inl (hold x hx hstands)
    · rw [hput]
      exact .inr ⟨hxr.trans hkey, hkey ▸ hfired.noneBefore hpolicy hs hentered⟩
  · obtain ⟨y, hy, hyx⟩ := fades_tryFire s.overlapPolicy hx hxr
    obtain ⟨z, hz, hzy, hzstands⟩ := hold y hy (hyx.stands hstands)
    exact .inl ⟨z, hz, hzy.trans hyx.key, hzstands⟩

theorem stands_firePoint (hpolicy : s.overlapPolicy = .replace) (hs : s.Excludes)
    (hregular : ∀ y ∈ occs, y.Regular s.overlapPolicy) (hwait : p.2.isWait = false)
    (hx : x ∈ firePoint s now env occs p) (hstands : x.stands s.overlapPolicy = true) :
    (∃ y ∈ occs, y.scheduledFor = x.scheduledFor ∧ y.stands s.overlapPolicy = true) ∨
      (x.scheduledFor = p.1 ∧ NoneBefore s.overlapPolicy (firePoint s now env occs p) p.1) := by
  obtain ⟨r, hr, heq⟩ := firePoint_eq s now env occs p
  rw [heq] at hx ⊢
  exact stands_tryFire_entered hpolicy hs hregular hr hwait hx hstands

variable (now) in
theorem newestWins_foldl_firePoint (hpolicy : s.overlapPolicy = .replace) (hs : s.Excludes)
    (h : Orderly s.overlapPolicy occs) (hsorted : specs.Pairwise fun p q => p.1 < q.1)
    (hwait : ∀ p ∈ specs, p.2.isWait = false)
    (hclear : ∀ p ∈ specs, s.ClearAfter occs env p.1) :
    NewestWins s.overlapPolicy occs (specs.foldl (firePoint s now env) occs) := by
  induction specs generalizing occs with
  | nil => exact .refl s.overlapPolicy occs
  | cons p specs ih =>
    obtain ⟨hlater, hsorted⟩ := List.pairwise_cons.mp hsorted
    have hp := hwait p List.mem_cons_self
    have hnext := h.firePoint now hs hp (hclear p List.mem_cons_self)
    have hwins := ih hnext hsorted (fun q hq => hwait q (List.mem_cons_of_mem p hq)) fun q hq =>
      (hclear q (List.mem_cons_of_mem p hq)).congr fun x hle =>
        mem_firePoint_iff_of_lt (lt_of_lt_of_le (hlater q hq) hle)
    intro r hr hstands hnot
    by_cases hstood : ∃ y ∈ firePoint s now env occs p, y.scheduledFor = r.scheduledFor ∧
        y.stands s.overlapPolicy = true
    · obtain ⟨y, hy, hyr, hystands⟩ := hstood
      rcases stands_firePoint hpolicy hs h.regular hp hy hystands with
        ⟨z, hz, hzy, hzstands⟩ | ⟨hyp, hnone⟩
      · rw [hnot z hz (hzy.trans hyr)] at hzstands
        cases hzstands
      · rw [← hyr, hyp]
        rw [List.foldl_cons]
        exact FadesBefore.noneBefore
          (fadesBefore_foldl_firePoint fun q hq => (hlater q hq).le) hnone
    · refine hwins r hr hstands fun y hy hkey => ?_
      by_contra hystands
      exact hstood ⟨y, hy, hkey, by simpa using hystands⟩

theorem newestWins_firePoints {part : MisfirePartition} (hpolicy : s.overlapPolicy = .replace)
    (hs : s.Excludes) (h : Orderly s.overlapPolicy occs) (hsorted : part.points.Pairwise (· < ·))
    (hok : DueKeepsExclusion s occs env part) :
    NewestWins s.overlapPolicy occs (firePoints s now env occs (s.specs part)) := by
  have hskipped := h.foldl_skipPoint now hok.idle fun p hp =>
    not_isWait_of_mem_specs_snd hp
  have hwins := newestWins_foldl_firePoint now hpolicy hs hskipped
    (pairwise_specs_fst hsorted) (fun p hp => not_isWait_of_mem_specs_fst hp) fun p hp =>
      hok.clearAfter_foldl_skipPoint hsorted hp
  intro r hr hstands hnot
  refine hwins r hr hstands fun y hy hkey => ?_
  rcases mem_foldl_skipPoint_cases hok.idle hy with hy | ⟨hrun, hheld⟩
  · exact hnot y hy hkey
  · refine Bool.or_eq_false_iff.mpr ⟨?_, hheld⟩
    by_contra hocc
    rw [ScheduleOccurrence.isRunning_of_occupies (by simpa using hocc)] at hrun
    cases hrun

/-- A waiting occurrence that stands after its fire stood before. -/
theorem stands_tryFire (hs : s.Excludes) (h : Orderly s.overlapPolicy occs) (hr : r ∈ occs)
    (hwait : r.isWaiting = true) (hx : x ∈ (tryFireOccurrence s occs r now env trigger).1)
    (hstands : x.stands s.overlapPolicy = true) :
    ∃ y ∈ occs, y.scheduledFor = x.scheduledFor ∧ y.stands s.overlapPolicy = true := by
  by_cases hxr : x.scheduledFor = r.scheduledFor
  · refine ⟨r, hr, hxr.symm, ?_⟩
    by_cases hexec : r.execution = none
    · rw [ScheduleOccurrence.stands, ScheduleOccurrence.isHeld_iff.mpr ⟨hwait, hexec⟩, Bool.or_true]
    · -- with an Execution it is not held, and keeps the Execution
      obtain ⟨hstatus, -⟩ | ⟨base, r', fire, hplanned, hfired, hput⟩ :=
        tryFire_cases s occs r now env trigger
      · exact absurd (ScheduleOccurrence.isWaiting_iff.mp hwait).1 hstatus
      · rw [hput] at hx
        have hxr' : x = r' := Table.eq_of_key_eq hx (hfired.mem_put_self hr)
          (hxr.trans hfired.scheduledFor_eq.symm)
        subst hxr'
        have hsame : x.execution = r.execution := by
          rcases hfired.own_cases hs.agentOnce h hr hplanned with
            ⟨-, -, heq⟩ | ⟨-, heq⟩ | ⟨-, hnone, -⟩
          · exact heq
          · exact heq
          · exact absurd hnone hexec
        have hxheld : x.isHeld = false :=
          ScheduleOccurrence.not_isHeld_of_execution (by rwa [hsame])
        rw [ScheduleOccurrence.stands, hxheld, Bool.or_false,
          ScheduleOccurrence.occupies_congr hsame] at hstands
        rw [ScheduleOccurrence.stands, hstands, Bool.true_or]
  · obtain ⟨y, hy, hyx⟩ := fades_tryFire s.overlapPolicy hx hxr
    exact ⟨y, hy, hyx.key, hyx.stands hstands⟩

/-- A release lets nobody stand who did not, and leaves nothing standing before any held one. -/
theorem newestWins_releaseWaiting {ts : List Instant} (hpolicy : s.overlapPolicy = .replace)
    (hs : s.Excludes) (h : Orderly s.overlapPolicy occs) (hsorted : ts.Pairwise (· < ·))
    (hwaiting : occs.WaitingAt ts) :
    (∀ x ∈ releaseWaiting s now env ts occs, x.stands s.overlapPolicy = true →
      ∃ y ∈ occs, y.scheduledFor = x.scheduledFor ∧ y.stands s.overlapPolicy = true) ∧
    ∀ r ∈ occs, r.scheduledFor ∈ ts →
      NoneBefore s.overlapPolicy (releaseWaiting s now env ts occs) r.scheduledFor := by
  induction ts generalizing occs with
  | nil => exact ⟨fun x hx hstands => ⟨x, hx, rfl, hstands⟩, fun _ _ hin => nomatch hin⟩
  | cons t ts ih =>
    obtain ⟨hlater, hrest⟩ := List.pairwise_cons.mp hsorted
    have htail : occs.WaitingAt ts := fun u hu => hwaiting u (List.mem_cons_of_mem t hu)
    obtain ⟨hmissing, heq⟩ | ⟨r, hr, rfl, hturn⟩ :=
      releaseWaiting_cons occs now t s env ts
    · rw [heq]
      obtain ⟨hstood, hnone⟩ := ih h hrest htail
      exact ⟨hstood, fun x hx hin =>
        hnone x hx ((List.mem_cons.mp hin).resolve_left (hmissing x hx))⟩
    · have hwait := hwaiting _ List.mem_cons_self r hr rfl
      obtain ⟨hstatus, -⟩ | ⟨base, r', fire, hplanned, hfired, hput⟩ :=
        tryFire_cases s occs r now env .schedule
      · exact absurd (ScheduleOccurrence.isWaiting_iff.mp hwait).1 hstatus
      have hnotwait : (tryFireOccurrence s occs r now env .schedule).2 ≠ .wait := by
        rw [hput]
        intro hfire
        cases hfired with
        | queued hqueue =>
          rw [hpolicy] at hqueue
          cases hqueue
        | _ => cases hfire
      have heq := (hturn.resolve_left fun hw => hnotwait hw.1).2
      obtain ⟨hstood, hnone⟩ := ih (h.tryFire_of_isWaiting hs hr hwait) hrest
        (waitingAt_tryFire htail hlater)
      rw [heq]
      refine ⟨fun x hx hstands => ?_, fun x hx hin => ?_⟩
      · obtain ⟨y, hy, hyx, hystands⟩ := hstood x hx hstands
        obtain ⟨z, hz, hzy, hzstands⟩ := stands_tryFire hs h hr hwait hy hystands
        exact ⟨z, hz, hzy.trans hyx, hzstands⟩
      · rcases List.mem_cons.mp hin with hxr | hin
        · rw [hxr]
          refine (fadesBefore_releaseWaiting fun u hu => (hlater u hu).le).noneBefore ?_
          rw [hput]
          exact hfired.noneBefore hpolicy hs h.regular
        · exact hnone x ((mem_tryFire_iff_of_lt (hlater _ hin)).mpr hx) hin

end McpFlow.Scheduler
