import McpFlow.Library.LocalClock
import McpFlow.Scheduler.Recurrence

/-!
# The next run is the least point of the clock

`zoneinfo` reads a zone as a clock whose offset changes at transitions, all by whole seconds. The
points of a definition are stated on that clock, without the code's own localizing: the first
instant that shows a reading, and the steps of an interval from its anchor. `next_scheduled_at`
answers the least of them after its bound, up to two guards: an interval step past the last
`datetime`, and a CRON scan that meets `_MAX_SCAN` candidates and no point.
-/

namespace McpFlow.Scheduler

open Recurrence

/-! ### Zones as clocks -/

/-- The clock of a zone. -/
structure ZoneInfo extends LocalClock.Clock where
  whole : 1000000 ∣ offset ∧ ∀ tr ∈ transitions, (1000000 : ℤ) ∣ tr.offset

/-- The conversions of the zone. -/
def ZoneInfo.zone (i : ZoneInfo) : Zone where
  toUtc n := i.localize n
  toLocal t := i.read t
  toUtc_mod n := by
    obtain ⟨k, hk⟩ := LocalClock.dvd_offsetOf (n := n) i.whole.1 i.whole.2
    rw [LocalClock.Clock.localize, hk, Int.sub_mul_emod_self_left]
  toLocal_mod _ := LocalClock.read_emod i.whole.1 i.whole.2
  toUtc_le _ _ _ hshown ht := LocalClock.Clock.localize_le hshown ht

/-- The instant at which the clock first shows a reading. -/
def ZoneInfo.FirstShows (i : ZoneInfo) (n : Wall) (t : Instant) : Prop :=
  IsLeast {u | (i.read u).1 = n} t

variable {i : ZoneInfo} {n : Wall} {t : Instant}

/-- `_local_wall_exists` tells whether the clock ever shows the reading. -/
theorem ZoneInfo.localWallExists_iff : i.zone.localWallExists n = true ↔ ∃ t, (i.read t).1 = n := by
  constructor
  · intro h
    exact ⟨i.zone.toUtc n, congrArg Prod.fst (Zone.toLocal_toUtc h)⟩
  · intro h
    have hback : i.zone.toLocal (i.zone.toUtc n) = (n, false) := LocalClock.Clock.read_localize h
    simp only [Zone.localWallExists, hback, Bool.not_false, beq_self_eq_true, Bool.and_self]

/-- A reading that exists is localized to the instant that shows it first, once. -/
theorem ZoneInfo.firstShows_iff :
    i.FirstShows n t ↔ i.zone.localWallExists n = true ∧ t = i.zone.toUtc n := by
  rw [localWallExists_iff]
  constructor
  · intro h
    exact ⟨⟨t, h.1⟩, h.unique (LocalClock.Clock.isLeast_localize ⟨t, h.1⟩)⟩
  · rintro ⟨hshown, rfl⟩
    exact LocalClock.Clock.isLeast_localize hshown

/-! ### The points on the clock -/

/-- The instants that a definition names, on the clock of its zone: the first instant that shows
the reading of ONCE or a match of CRON, and the steps of INTERVAL from its anchor, each in the
window. -/
def Definition.instants (c : Calendar) (i : ZoneInfo) (d : Definition) : Set Instant :=
  {t | (∀ s ∈ d.startAt, s ≤ t) ∧ (∀ e ∈ d.endAt, t < e) ∧
    match d.expression with
    | .once wall => i.FirstShows wall t
    | .interval delta _ => ∃ anchor ∈ d.startAt, ∃ k : ℕ, t = anchor + k * delta
    | .cron e => ∃ n ∈ c.ticks e, i.FirstShows n t}

variable {c : Calendar} {d : Definition} {after : Instant}

theorem Definition.points_eq_instants (hz : c.zone d.timezone = some i.zone) :
    d.points c = d.instants c i := by
  funext t
  refine propext ?_
  change t ∈ d.points c ↔ t ∈ d.instants c i
  simp only [points, instants, Set.mem_ofPred_eq, ZoneInfo.firstShows_iff]
  cases d.expression with
  | once wall =>
    simp only [Set.mem_ofPred_eq, hz, Option.some.injEq, exists_eq_left', inWindow_iff]
    tauto
  | interval delta _ =>
    simp only [Set.mem_ofPred_eq, inWindow_iff, Option.mem_def]
    constructor
    · rintro ⟨anchor, hstart, hk, hs, he⟩
      exact ⟨hs, he, anchor, hstart, hk⟩
    · rintro ⟨hs, he, anchor, hstart, hk⟩
      exact ⟨anchor, hstart, hk, hs, he⟩
  | cron e =>
    simp only [Set.mem_ofPred_eq, hz, Option.some.injEq, exists_eq_left', inWindow_iff]
    constructor
    · rintro ⟨n, hn, hexists, ht, hs, he⟩
      exact ⟨hs, he, n, hn, hexists, ht⟩
    · rintro ⟨hs, he, n, hn, hexists, ht⟩
      exact ⟨n, hn, hexists, ht, hs, he⟩

/-! ### The matches that the scan meets -/

/-- The `k`-th match that croniter enumerates beyond a cursor. -/
def nthMatch (getNext : Wall → Option Wall) (cursor : Wall) : ℕ → Option Wall
  | 0 => getNext cursor
  | k + 1 => (nthMatch getNext cursor k).bind getNext

/-- The first instant that shows the match lies after the bound and not before the start. -/
def ZoneInfo.Live (i : ZoneInfo) (after : Instant) (startAt : Option Instant) (n : Wall) : Prop :=
  ∃ t, i.FirstShows n t ∧ after < t ∧ ∀ s ∈ startAt, s ≤ t

theorem nthMatch_succ {getNext : Wall → Option Wall} {cursor m : Wall}
    (h : getNext cursor = some m) (k : ℕ) :
    nthMatch getNext cursor (k + 1) = nthMatch getNext m k := by
  induction k with
  | zero =>
    change (getNext cursor).bind getNext = getNext m
    rw [h, Option.bind_some]
  | succ k ih =>
    rw [nthMatch, ih, nthMatch]

section Scan

variable {getNext : Wall → Option Wall} {startAt endAt : Option Instant} {fuel : ℕ}
  {cursor m : Wall}

/-- A match that is not live is passed over. -/
private theorem cronScan_succ_of_not_live (hnext : getNext cursor = some m)
    (hlive : ¬ i.Live after startAt m) :
    cronScan i.zone getNext after startAt endAt (fuel + 1) cursor =
      cronScan i.zone getNext after startAt endAt fuel m := by
  rw [cronScan, hnext]
  dsimp only
  split
  · rfl
  · case isFalse hexists =>
    split
    · rfl
    · case isFalse hafter =>
      split
      · rfl
      · case isFalse hstart =>
        refine absurd ⟨_, ZoneInfo.firstShows_iff.mpr ⟨by simpa using hexists, rfl⟩,
          not_le.mp hafter, fun s hs => ?_⟩ hlive
        by_contra hlt
        exact hstart ((Option.any_eq_true _ _).mpr ⟨s, hs, decide_eq_true (not_le.mp hlt)⟩)

/-- A live match ends the scan. -/
private theorem cronScan_succ_of_live (hnext : getNext cursor = some m)
    (hlive : i.Live after startAt m) :
    ∃ scan, cronScan i.zone getNext after startAt endAt (fuel + 1) cursor = .ok scan ∧
      scan ≠ .exhausted := by
  obtain ⟨t, hfirst, hafter, hstart⟩ := hlive
  obtain ⟨hexists, rfl⟩ := ZoneInfo.firstShows_iff.mp hfirst
  have hstart' : startAt.any (i.zone.toUtc m < ·) = false := by
    cases startAt with
    | none => rfl
    | some s => exact decide_eq_false (not_lt.mpr (hstart s rfl))
  rw [cronScan, hnext]
  simp only [hexists, Bool.not_true, Bool.false_eq_true, if_false, not_le.mpr hafter, hstart']
  split
  · exact ⟨_, rfl, by simp⟩
  · exact ⟨_, rfl, by simp⟩

variable (endAt) in
/-- A scan with a live match among those it may meet does not run out. -/
theorem cronScan_of_live {k : ℕ} (hk : k < fuel) (hm : nthMatch getNext cursor k = some m)
    (hlive : i.Live after startAt m) :
    ∃ scan, cronScan i.zone getNext after startAt endAt fuel cursor = .ok scan ∧
      scan ≠ .exhausted := by
  induction fuel generalizing cursor k with
  | zero => exact absurd hk k.not_lt_zero
  | succ fuel ih =>
    cases hnext : getNext cursor with
    | none =>
      have hnone : ∀ k, nthMatch getNext cursor k = none := by
        intro k
        induction k with
        | zero => exact hnext
        | succ k ih => rw [nthMatch, ih, Option.bind_none]
      rw [hnone k] at hm
      cases hm
    | some first =>
      by_cases hfirst : i.Live after startAt first
      · exact cronScan_succ_of_live hnext hfirst
      · rw [cronScan_succ_of_not_live hnext hfirst]
        cases k with
        | zero =>
          obtain rfl : first = m := Option.some.inj (hnext.symm.trans hm)
          exact absurd hlive hfirst
        | succ k => exact ih (Nat.lt_of_succ_lt_succ hk) ((nthMatch_succ hnext k).symm.trans hm)

/-- A scan that meets no live match runs out. -/
theorem cronScan_of_not_live
    (h : ∀ k < fuel, ∃ m, nthMatch getNext cursor k = some m ∧ ¬ i.Live after startAt m) :
    cronScan i.zone getNext after startAt endAt fuel cursor = .ok .exhausted := by
  induction fuel generalizing cursor with
  | zero => rfl
  | succ fuel ih =>
    obtain ⟨first, hnext, hfirst⟩ := h 0 fuel.succ_pos
    have hnext : getNext cursor = some first := hnext
    rw [cronScan_succ_of_not_live hnext hfirst]
    refine ih fun k hk => ?_
    rw [← nthMatch_succ hnext k]
    exact h (k + 1) (Nat.succ_lt_succ hk)

end Scan

/-! ### The law of the next run -/

/-- A definition that validation lets through: its zone is known, a reading of ONCE exists, an
INTERVAL has its anchor, and the start is a `datetime`. -/
def Definition.Accepted (c : Calendar) (i : ZoneInfo) (d : Definition) : Prop :=
  c.zone d.timezone = some i.zone ∧ (∀ s ∈ d.startAt, s ≤ datetimeMax) ∧
    match d.expression with
    | .once wall => ∃ t, (i.read t).1 = wall
    | .interval _ _ => d.startAt.isSome
    | .cron _ => True

/-- Some step of the interval after the bound is a `datetime`; one of the first `_MAX_SCAN` matches
of the CRON expression is live. -/
def Definition.InReach (c : Calendar) (i : ZoneInfo) (d : Definition) (after : Instant) : Prop :=
  match d.expression with
  | .once _ => True
  | .interval delta _ => ∃ anchor ∈ d.startAt, ∃ k : ℕ,
      after < anchor + k * delta ∧ anchor + k * delta ≤ datetimeMax
  | .cron e => ∃ k < maxScan, ∃ n,
      nthMatch (c.getNext e) (cronCursor i.zone after d.startAt) k = some n ∧
        i.Live after d.startAt n

/-- The first `_MAX_SCAN` matches of the CRON expression are there, and none is live. -/
def Definition.ScanRunsOut (c : Calendar) (i : ZoneInfo) (d : Definition) (after : Instant) : Prop :=
  ∃ e, d.expression = .cron e ∧ ∀ k < maxScan, ∃ n,
    nthMatch (c.getNext e) (cronCursor i.zone after d.startAt) k = some n ∧
      ¬ i.Live after d.startAt n

/-- `_MAX_PREVIEW`. -/
def maxPreview : ℤ := 50

/-- `preview_scheduled_times`. -/
def previewScheduledTimes (c : Calendar) (d : Definition) (after : Instant) (limit : ℤ) :
    Except RecurrenceError (List Instant) :=
  if limit < 1 ∨ maxPreview < limit then .error .previewLimit
  else preview (nextScheduledAt c d) limit.toNat after []

/-- What `next_scheduled_at` and its preview answer after a bound. -/
structure NextLaw (c : Calendar) (i : ZoneInfo) (d : Definition) (after : Instant) : Prop where
  least : d.InReach c i after →
    ∃ next, nextScheduledAt c d after = .ok next ∧ IsNext (d.instants c i) after next
  overflow : (∃ delta pos, d.expression = .interval delta pos) → ¬ d.InReach c i after →
    nextScheduledAt c d after = .error .intervalOverflow
  runsOut : d.ScanRunsOut c i after → nextScheduledAt c d after = .ok none
  preview : ∀ limit, 1 ≤ limit → limit ≤ maxPreview →
    Iterates (nextScheduledAt c d) after limit.toNat (previewScheduledTimes c d after limit)

/-- The step of the interval that the code computes is the first after the bound, so it is a
`datetime` when any later step is. -/
private theorem nextIntervalUtc_eq {delta anchor : ℤ} {endAt : Option Instant} (hpos : 0 < delta)
    (hmax : anchor ≤ datetimeMax) :
    ((∃ k : ℕ, after < anchor + k * delta ∧ anchor + k * delta ≤ datetimeMax) →
      ∃ next, nextIntervalUtc delta after (some anchor) endAt = .ok next) ∧
    ((¬ ∃ k : ℕ, after < anchor + k * delta ∧ anchor + k * delta ≤ datetimeMax) →
      nextIntervalUtc delta after (some anchor) endAt = .error .intervalOverflow) := by
  have hleast := isLeast_interval anchor after hpos
  rw [nextIntervalUtc.eq_def]
  dsimp only at hleast ⊢
  by_cases hlt : after < anchor
  · rw [if_pos hlt] at hleast ⊢
    rw [if_neg (fun h => absurd hlt (not_lt.mpr h.1))]
    constructor
    · intro _
      split
      · exact ⟨_, rfl⟩
      · exact ⟨_, if_neg (lt_irrefl anchor)⟩
    · intro hnone
      exact absurd ⟨0, by simpa using hlt, by simpa using hmax⟩ hnone
  · rw [if_neg hlt] at hleast ⊢
    generalize anchor + ((after - anchor) / delta + 1) * delta = candidate at hleast ⊢
    obtain ⟨⟨⟨k, hk⟩, hafter⟩, hle⟩ := hleast
    constructor
    · rintro ⟨k', hafter', hmax'⟩
      have hcandidate : candidate ≤ datetimeMax := (hle ⟨⟨k', rfl⟩, hafter'⟩).trans hmax'
      rw [if_neg (fun h => absurd hcandidate (not_le.mpr h.2))]
      rw [if_neg (not_lt.mpr ((not_lt.mp hlt).trans hafter.le))]
      split
      · exact ⟨_, rfl⟩
      · exact ⟨_, rfl⟩
    · intro hnone
      have hover : datetimeMax < candidate := by
        by_contra hin
        exact hnone ⟨k, hk ▸ hafter, hk ▸ not_lt.mp hin⟩
      rw [if_pos ⟨not_lt.mp hlt, hover⟩]

private theorem scanExhausted_of_found {e : String} (hz : c.zone d.timezone = some i.zone)
    (hd : d.expression = .cron e) {scan : CronScan}
    (hscan : cronScanFrom i.zone (c.getNext e) after d.startAt d.endAt = .ok scan)
    (hne : scan ≠ .exhausted) : scanExhausted c d after = false := by
  simp only [scanExhausted, hz, hd, hscan, Except.toOption, beq_eq_false_iff_ne, ne_eq,
    Option.some.injEq]
  exact hne

/-- Every accepted definition within reach is answered. -/
private theorem nextScheduledAt_inReach (h : d.Accepted c i) (hreach : d.InReach c i after) :
    (∃ next, nextScheduledAt c d after = .ok next) ∧ scanExhausted c d after = false := by
  obtain ⟨hz, hmax, hexpr⟩ := h
  cases hd : d.expression with
  | once wall =>
    simp only [hd] at hexpr
    constructor
    · rw [nextScheduledAt, hz]
      simp only [hd, ZoneInfo.localWallExists_iff.mpr hexpr, Bool.not_true, Bool.false_eq_true,
        if_false]
      split
      · exact ⟨_, rfl⟩
      · split
        · exact ⟨_, rfl⟩
        · exact ⟨_, rfl⟩
    · simp only [scanExhausted, hz, hd]
  | interval delta hpos =>
    simp only [Definition.InReach, hd] at hreach
    obtain ⟨anchor, hstart, hstep⟩ := hreach
    constructor
    · rw [nextScheduledAt, hz]
      simp only [hd, show d.startAt = some anchor from hstart]
      exact (nextIntervalUtc_eq hpos (hmax anchor hstart)).1 hstep
    · simp only [scanExhausted, hz, hd]
  | cron e =>
    simp only [Definition.InReach, hd] at hreach
    obtain ⟨k, hk, n, hn, hlive⟩ := hreach
    obtain ⟨scan, hscan, hne⟩ := cronScan_of_live d.endAt hk hn hlive
    constructor
    · rw [nextScheduledAt, hz]
      simp only [hd, nextCronUtc, cronScanFrom, hscan]
      cases scan with
      | found utc => exact ⟨_, rfl⟩
      | pastEnd => exact ⟨_, rfl⟩
      | exhausted => exact absurd rfl hne
    · exact scanExhausted_of_found hz hd hscan hne

/-- A scan that meets no live match finds nothing. -/
private theorem nextScheduledAt_runsOut (hz : c.zone d.timezone = some i.zone)
    (h : d.ScanRunsOut c i after) : nextScheduledAt c d after = .ok none := by
  obtain ⟨e, hd, hnone⟩ := h
  rw [nextScheduledAt, hz]
  simp only [hd, nextCronUtc, cronScanFrom, cronScan_of_not_live hnone]
  rfl

/-- `next_scheduled_at` answers the least point of the clock after its bound within reach, and its
guards otherwise; a preview is its iteration. -/
theorem nextScheduledAt_law (h : d.Accepted c i) (after : Instant) : NextLaw c i d after where
  least hreach := by
    obtain ⟨⟨next, hnext⟩, hscan⟩ := nextScheduledAt_inReach h hreach
    refine ⟨next, hnext, ?_⟩
    rw [← Definition.points_eq_instants h.1]
    exact isNext_nextScheduledAt hnext hscan
  overflow := by
    rintro ⟨delta, hpos, hd⟩ hreach
    obtain ⟨hz, hmax, hexpr⟩ := h
    simp only [hd] at hexpr
    obtain ⟨anchor, hstart⟩ := Option.isSome_iff_exists.mp hexpr
    simp only [Definition.InReach, hd, hstart, Option.mem_def, Option.some.injEq,
      exists_eq_left'] at hreach
    rw [nextScheduledAt, hz]
    simp only [hd, hstart]
    exact (nextIntervalUtc_eq hpos (hmax anchor hstart)).2 hreach
  runsOut := nextScheduledAt_runsOut h.1
  preview limit hpos hle := by
    rw [previewScheduledTimes, if_neg (fun hbad => hbad.elim (not_lt.mpr hpos) (not_lt.mpr hle))]
    exact iterates_preview limit.toNat after

/-! ### A clock that jumps over a week -/

/-- UTC until the epoch, then eight days ahead. -/
def jumpZone : ZoneInfo where
  offset := 0
  transitions := [⟨1, 691200000000⟩]
  spaced := by decide
  whole := by decide

/-- Every zone is the clock and every CRON expression ticks each minute. -/
def clockCalendar (i : ZoneInfo) : Calendar := { utcCalendar with zone := fun _ => some i.zone }

/-- Each minute, from the epoch on. -/
def minutely : Definition where
  expression := .cron "* * * * *"
  timezone := "UTC"
  startAt := none
  endAt := none

/-- Every 3000000 days from the epoch, some 8213 years. -/
def millennial : Definition where
  expression := .interval 259200000000000000 (by decide)
  timezone := "UTC"
  startAt := some 0
  endAt := none

/-- The `k`-th match of the minutely calendar. -/
private theorem nthMatch_minutely (e : String) (k : ℕ) :
    nthMatch ((clockCalendar i).getNext e) 0 k = some (((k : ℤ) + 1) * 60000000 : ℤ) := by
  induction k with
  | zero => rfl
  | succ k ih =>
    rw [nthMatch, ih, Option.bind_some]
    change some ((((k : ℤ) + 1) * 60000000 / 60000000 + 1) * 60000000) = _
    rw [Int.mul_ediv_cancel _ (by decide)]
    norm_cast

private theorem read_jumpZone (t : ℤ) :
    (jumpZone.read t).1 = if t < 1 then t else t + 691200000000 := by
  simp only [jumpZone, LocalClock.Clock.read, LocalClock.read]
  split
  · exact add_zero t
  · rfl

/-- The clock never shows a reading of the week that it jumps over. -/
private theorem not_live_jumpZone {n : ℤ} (hpos : 1 ≤ n) (hlt : n < 691200000001) :
    ¬ jumpZone.Live 0 none n := by
  have hnever : ∀ t : ℤ, (jumpZone.read t).1 ≠ n := by
    intro t
    rw [read_jumpZone]
    split
    · omega
    · omega
  rintro ⟨t, ⟨hshown, -⟩, -, -⟩
  exact hnever t hshown

private theorem scanRunsOut_jumpZone :
    minutely.ScanRunsOut (clockCalendar jumpZone) jumpZone 0 := by
  refine ⟨_, rfl, fun k hk => ⟨_, nthMatch_minutely _ k, ?_⟩⟩
  have hk : k < 10000 := hk
  exact not_live_jumpZone (by omega) (by omega)

/-- A minute after the epoch the clock shows the match of the ninth day. -/
private theorem mem_instants_minutely :
    (60000000 : ℤ) ∈ minutely.instants (clockCalendar jumpZone) jumpZone := by
  refine ⟨fun _ hs => absurd hs (Option.not_mem_none _),
    fun _ he => absurd he (Option.not_mem_none _), (691260000000 : ℤ), ?_, rfl, ?_⟩
  · change (691260000000 : ℤ) % 60000000 = 0
    decide
  intro t ht
  have hle : ∀ t : ℤ, (jumpZone.read t).1 = 691260000000 → 60000000 ≤ t := by
    intro t
    rw [read_jumpZone]
    split
    · omega
    · omega
  exact hle t ht

private theorem accepted_minutely : minutely.Accepted (clockCalendar i) i :=
  ⟨rfl, fun _ hs => absurd hs (Option.not_mem_none _), trivial⟩

private theorem accepted_millennial : millennial.Accepted (clockCalendar i) i := by
  refine ⟨rfl, ?_, rfl⟩
  rintro s ⟨⟩
  decide

/-- The law at a scan that runs out. -/
theorem nextScheduledAt_law_minutely :
    minutely.Accepted (clockCalendar jumpZone) jumpZone ∧
      NextLaw (clockCalendar jumpZone) jumpZone minutely 0 :=
  ⟨accepted_minutely, nextScheduledAt_law accepted_minutely 0⟩

/-- The guards keep points back: an interval whose next step leaves the years of a `datetime` is an
error, and of a CRON whose matches the clock jumps over for a week nothing is found, though the
clock shows the match of the ninth day. -/
theorem not_least_millennial_minutely :
    (millennial.Accepted (clockCalendar jumpZone) jumpZone ∧
      ¬ ∃ next, nextScheduledAt (clockCalendar jumpZone) millennial 0 = .ok next ∧
        IsNext (millennial.instants (clockCalendar jumpZone) jumpZone) 0 next) ∧
    minutely.Accepted (clockCalendar jumpZone) jumpZone ∧
      ¬ ∃ next, nextScheduledAt (clockCalendar jumpZone) minutely 0 = .ok next ∧
        IsNext (minutely.instants (clockCalendar jumpZone) jumpZone) 0 next := by
  refine ⟨⟨accepted_millennial, ?_⟩, accepted_minutely, ?_⟩
  · rintro ⟨next, h, -⟩
    have herror : nextScheduledAt (clockCalendar jumpZone) millennial 0 =
        .error .intervalOverflow := by decide +kernel
    rw [herror] at h
    cases h
  · rintro ⟨next, h, hnext⟩
    rw [nextScheduledAt_runsOut rfl scanRunsOut_jumpZone] at h
    obtain rfl : none = next := Except.ok.inj h
    exact absurd (hnext _ mem_instants_minutely) (by decide)

end McpFlow.Scheduler
