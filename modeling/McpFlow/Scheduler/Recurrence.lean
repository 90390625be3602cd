import McpFlow.Library.Recurrence
import Mathlib.Tactic.Linarith

/-!
# Schedule recurrence

`next_scheduled_at` for ONCE, INTERVAL and CRON. Instants are microseconds of UTC, wall clock
readings are microseconds of the naive local calendar. The time zone database and croniter are not
part of the repository: a `Zone` converts between the two and promises what `zoneinfo` documents, a
`Calendar` names the zones and the ticks of a CRON expression. An expression stands as its parse.
-/

namespace McpFlow.Scheduler

open Recurrence

abbrev Instant := ℤ

abbrev Wall := ℤ

/-! ### Zones and calendars -/

/-- A time zone: `toUtc` localizes a reading with `fold=0`, `toLocal` gives the reading of an
instant and its fold. Offsets are whole seconds, and `fold=0` names the first instant at which the
clock has come to a reading that exists. -/
structure Zone where
  toUtc : Wall → Instant
  toLocal : Instant → Wall × Bool
  toUtc_mod : ∀ n, toUtc n % 1000000 = n % 1000000
  toLocal_mod : ∀ t, (toLocal t).1 % 1000000 = t % 1000000
  toUtc_le : ∀ n t, (toLocal (toUtc n)).2 = false → (toLocal (toUtc n)).1 = n →
    n ≤ (toLocal t).1 → toUtc n ≤ t

/-- `_local_wall_exists`: the round trip of the reading has fold 0 and the same components down to
the second. -/
def Zone.localWallExists (z : Zone) (n : Wall) : Bool :=
  let back := z.toLocal (z.toUtc n)
  !back.2 && back.1 / 1000000 == n / 1000000

/-- The zones by name, and croniter on a CRON expression: `ticks` are the readings that match it,
`getNext` is the next of them, or nothing where croniter gives up and raises. -/
structure Calendar where
  zone : String → Option Zone
  ticks : String → Set Wall
  getNext : String → Wall → Option Wall
  getNext_isLeast : ∀ e w n, getNext e w = some n → IsLeast {u | u ∈ ticks e ∧ w < u} n

/-- A validated `schedule_expression`. -/
inductive Expression where
  | once (wall : Wall)
  | interval (delta : ℤ) (pos : 0 < delta)
  | cron (expression : String)
deriving DecidableEq

/-- What the recurrence of a Schedule is computed from. -/
structure Definition where
  expression : Expression
  timezone : String
  startAt : Option Instant
  endAt : Option Instant
deriving DecidableEq

/-- What `next_scheduled_at` raises. -/
inductive RecurrenceError where
  | unknownTimezone
  | onceDoesNotExist
  | intervalWithoutStart
  | intervalOverflow
  | cronBadDate
  | previewLimit
deriving DecidableEq, Repr

/-- `_in_window`. -/
def inWindow (startAt endAt : Option Instant) (candidate : Instant) : Bool :=
  startAt.all (· ≤ candidate) && endAt.all (candidate < ·)

/-! ### The next run -/

/-- How the scan of `_next_cron_utc` ends. -/
inductive CronScan where
  | found (utc : Instant)
  | pastEnd
  | exhausted
deriving DecidableEq, Repr

/-- The loop of `_next_cron_utc`. -/
def cronScan (z : Zone) (getNext : Wall → Option Wall) (after : Instant)
    (startAt endAt : Option Instant) : ℕ → Wall → Except RecurrenceError CronScan
  | 0, _ => .ok .exhausted
  | fuel + 1, cursor =>
    match getNext cursor with
    | none => .error .cronBadDate
    | some n =>
      if !z.localWallExists n then cronScan z getNext after startAt endAt fuel n
      else
        let utc := z.toUtc n
        if utc ≤ after then cronScan z getNext after startAt endAt fuel n
        else if startAt.any (utc < ·) then cronScan z getNext after startAt endAt fuel n
        else if endAt.any (· ≤ utc) then .ok .pastEnd
        else .ok (.found utc)

/-- `_MAX_SCAN`. -/
def maxScan : ℕ := 10000

/-- The exclusive naive cursor of `_next_cron_utc`. -/
def cronCursor (z : Zone) (after : Instant) : Option Instant → Wall
  | some start => if after < start then (z.toLocal start).1 - 1 else (z.toLocal after).1
  | none => (z.toLocal after).1

/-- The scan of `_next_cron_utc` from its cursor. -/
def cronScanFrom (z : Zone) (getNext : Wall → Option Wall) (after : Instant)
    (startAt endAt : Option Instant) : Except RecurrenceError CronScan :=
  cronScan z getNext after startAt endAt maxScan (cronCursor z after startAt)

/-- `_next_cron_utc`. -/
def nextCronUtc (z : Zone) (getNext : Wall → Option Wall) (after : Instant)
    (startAt endAt : Option Instant) : Except RecurrenceError (Option Instant) := do
  match ← cronScanFrom z getNext after startAt endAt with
  | .found utc => return some utc
  | .pastEnd => return none
  | .exhausted => return none

/-- The last instant of a `datetime`, the end of the year 9999. -/
def datetimeMax : Instant := 253402300799999999

/-- `_next_interval_utc`. -/
def nextIntervalUtc (delta : ℤ) (after : Instant) (startAt endAt : Option Instant) :
    Except RecurrenceError (Option Instant) :=
  match startAt with
  | none => .error .intervalWithoutStart
  | some anchor =>
    let candidate :=
      if after < anchor then anchor else anchor + ((after - anchor) / delta + 1) * delta
    -- only the addition can overflow
    if anchor ≤ after ∧ datetimeMax < candidate then .error .intervalOverflow
    else if endAt.any (· ≤ candidate) then .ok none
    else if candidate < anchor then .ok none
    else .ok (some candidate)

/-- `next_scheduled_at`. -/
def nextScheduledAt (c : Calendar) (d : Definition) (after : Instant) :
    Except RecurrenceError (Option Instant) :=
  match c.zone d.timezone with
  | none => .error .unknownTimezone
  | some z =>
    match d.expression with
    | .once wall =>
      if !z.localWallExists wall then .error .onceDoesNotExist
      else if z.toUtc wall ≤ after then .ok none
      else if !inWindow d.startAt d.endAt (z.toUtc wall) then .ok none
      else .ok (some (z.toUtc wall))
    | .cron e => nextCronUtc z (c.getNext e) after d.startAt d.endAt
    | .interval delta _ => nextIntervalUtc delta after d.startAt d.endAt

/-- The CRON scan after the bound runs out of candidates before it meets a point or the end. -/
def scanExhausted (c : Calendar) (d : Definition) (after : Instant) : Bool :=
  match c.zone d.timezone, d.expression with
  | some z, .cron e =>
    (cronScanFrom z (c.getNext e) after d.startAt d.endAt).toOption == some .exhausted
  | _, _ => false

/-! ### The recurrence points -/

/-- The instants that a definition names: the one reading of ONCE, the steps of INTERVAL from its
anchor, the readings of CRON that exist, each within the window. -/
def Definition.points (c : Calendar) (d : Definition) : Set Instant :=
  match d.expression with
  | .once wall => {t | ∃ z, c.zone d.timezone = some z ∧ z.localWallExists wall = true ∧
      t = z.toUtc wall ∧ inWindow d.startAt d.endAt t = true}
  | .interval delta _ => {t | ∃ anchor, d.startAt = some anchor ∧
      (∃ k : ℕ, t = anchor + k * delta) ∧ inWindow d.startAt d.endAt t = true}
  | .cron e => {t | ∃ z, c.zone d.timezone = some z ∧ ∃ n ∈ c.ticks e,
      z.localWallExists n = true ∧ t = z.toUtc n ∧ inWindow d.startAt d.endAt t = true}

/-! ### Localizing -/

/-- A reading that exists is what the clock shows at its instant. -/
theorem Zone.toLocal_toUtc {z : Zone} {n : Wall} (h : z.localWallExists n = true) :
    z.toLocal (z.toUtc n) = (n, false) := by
  simp only [localWallExists, Bool.and_eq_true, Bool.not_eq_true', beq_iff_eq] at h
  obtain ⟨hfold, hsecond⟩ := h
  have hmicro : (z.toLocal (z.toUtc n)).1 % 1000000 = n % 1000000 := by
    rw [z.toLocal_mod, z.toUtc_mod]
  have hwall : (z.toLocal (z.toUtc n)).1 = n := by
    rw [← Int.mul_ediv_add_emod (z.toLocal (z.toUtc n)).1 1000000, hsecond, hmicro,
      Int.mul_ediv_add_emod]
  exact Prod.ext hwall hfold

/-- A reading that exists comes no later than any instant whose reading has reached it. -/
theorem Zone.toUtc_le_of_le {z : Zone} {n : Wall} {t : Instant} (h : z.localWallExists n = true)
    (hle : n ≤ (z.toLocal t).1) : z.toUtc n ≤ t := by
  have hback := toLocal_toUtc h
  exact z.toUtc_le n t (by rw [hback]) (by rw [hback]) hle

theorem Zone.toUtc_mono {z : Zone} {n m : Wall} (hn : z.localWallExists n = true)
    (hm : z.localWallExists m = true) (hle : n ≤ m) : z.toUtc n ≤ z.toUtc m := by
  refine toUtc_le_of_le hn ?_
  rw [toLocal_toUtc hm]
  exact hle

theorem inWindow_iff {startAt endAt : Option Instant} {t : Instant} :
    inWindow startAt endAt t = true ↔ (∀ s ∈ startAt, s ≤ t) ∧ ∀ e ∈ endAt, t < e := by
  simp only [inWindow, Bool.and_eq_true, Option.all_eq_true, decide_eq_true_eq, Option.mem_def]

/-! ### The next run is the next point -/

section Cron

variable {z : Zone} {getNext : Wall → Option Wall} {ticks : Set Wall} {after : Instant}
  {startAt endAt : Option Instant} {fuel : ℕ} {cursor : Wall}

/-- The instants of the ticks that exist, within the window. -/
private def cronPoints (z : Zone) (ticks : Set Wall) (startAt endAt : Option Instant) :
    Set Instant :=
  {t | ∃ n ∈ ticks, z.localWallExists n = true ∧ t = z.toUtc n ∧ inWindow startAt endAt t = true}

/-- Every tick that may still give a point after the bound lies beyond the cursor. -/
private def CursorBefore (z : Zone) (ticks : Set Wall) (after : Instant)
    (startAt : Option Instant) (cursor : Wall) : Prop :=
  ∀ n ∈ ticks, z.localWallExists n = true → after < z.toUtc n → (∀ s ∈ startAt, s ≤ z.toUtc n) →
    cursor < n

private theorem cursorBefore_cronCursor : CursorBefore z ticks after startAt
    (cronCursor z after startAt) := by
  intro n _ hexists hafter hstart
  have hreached : (z.toLocal after).1 < n := by
    by_contra hle
    exact absurd (Zone.toUtc_le_of_le hexists (not_lt.mp hle)) (not_le.mpr hafter)
  rw [cronCursor.eq_def]
  split
  · case h_1 start =>
    split
    · -- a reading before that of the start is over at the start, so it is not after it
      have hs : start ≤ z.toUtc n := hstart start rfl
      by_contra hle
      have hlt : n < (z.toLocal start).1 := by linarith [Int.le_sub_one_iff.mp (not_lt.mp hle)]
      have heq : z.toUtc n = start := le_antisymm (Zone.toUtc_le_of_le hexists hlt.le) hs
      have hback := Zone.toLocal_toUtc hexists
      rw [heq] at hback
      rw [hback] at hlt
      exact absurd hlt (lt_irrefl n)
    · exact hreached
  · exact hreached

/-- A candidate that gives no point moves the cursor. -/
private theorem CursorBefore.step {n : Wall} (h : CursorBefore z ticks after startAt cursor)
    (hn : IsLeast {u | u ∈ ticks ∧ cursor < u} n)
    (hskip : z.localWallExists n = true → after < z.toUtc n →
      ¬ ∀ s ∈ startAt, s ≤ z.toUtc n) : CursorBefore z ticks after startAt n := by
  intro m hm hexists hafter hstart
  have hle : n ≤ m := hn.2 ⟨hm, h m hm hexists hafter hstart⟩
  refine lt_of_le_of_ne hle ?_
  rintro rfl
  exact hskip hexists hafter hstart

/-- What the end of a scan says about the points. -/
private def CronScan.Answers (points : Set Instant) (after : Instant) : CronScan → Prop
  | .found utc => IsNext points after (some utc)
  | .pastEnd => IsNext points after none
  | .exhausted => True

private theorem answers_cronScan
    (hleast : ∀ w n, getNext w = some n → IsLeast {u | u ∈ ticks ∧ w < u} n)
    (h : CursorBefore z ticks after startAt cursor) {scan : CronScan}
    (hscan : cronScan z getNext after startAt endAt fuel cursor = .ok scan) :
    scan.Answers (cronPoints z ticks startAt endAt) after := by
  induction fuel generalizing cursor with
  | zero =>
    cases hscan
    trivial
  | succ fuel ih =>
    rw [cronScan] at hscan
    split at hscan
    · cases hscan
    · case h_2 n hnext =>
      have hn := hleast _ _ hnext
      split at hscan
      · case isTrue hmissing =>
        refine ih (h.step hn fun hexists => ?_) hscan
        rw [hexists] at hmissing
        cases hmissing
      · case isFalse hexists =>
        have hexists : z.localWallExists n = true := by simpa using hexists
        -- a later tick that exists comes at a later instant
        have hfirst : ∀ m ∈ ticks, z.localWallExists m = true → after < z.toUtc m →
            (∀ s ∈ startAt, s ≤ z.toUtc m) → z.toUtc n ≤ z.toUtc m := fun m hm hm' hafter hstart =>
          Zone.toUtc_mono hexists hm' (hn.2 ⟨hm, h m hm hm' hafter hstart⟩)
        dsimp only at hscan
        split at hscan
        · case isTrue hle => exact ih (h.step hn fun _ hafter => absurd hle (not_le.mpr hafter)) hscan
        · case isFalse hafter =>
          split at hscan
          · case isTrue hstart =>
            refine ih (h.step hn fun _ _ hall => ?_) hscan
            obtain ⟨s, hs, hlt⟩ := (Option.any_eq_true _ _).mp hstart
            exact absurd (hall s hs) (not_le.mpr (of_decide_eq_true hlt))
          · case isFalse hstart =>
            have hstart : ∀ s ∈ startAt, s ≤ z.toUtc n := by
              intro s hs
              by_contra hlt
              exact hstart ((Option.any_eq_true _ _).mpr ⟨s, hs, decide_eq_true (not_le.mp hlt)⟩)
            split at hscan
            · case isTrue hend =>
              cases hscan
              obtain ⟨e, he, hle⟩ := (Option.any_eq_true _ _).mp hend
              rintro t ⟨m, hm, hm', rfl, hwindow⟩
              rw [inWindow_iff] at hwindow
              by_contra hlt
              have hpast : e ≤ z.toUtc m :=
                (of_decide_eq_true hle).trans (hfirst m hm hm' (not_le.mp hlt) hwindow.1)
              exact absurd (hwindow.2 e he) (not_lt.mpr hpast)
            · case isFalse hend =>
              cases hscan
              refine ⟨⟨⟨n, hn.1.1, hexists, rfl, inWindow_iff.mpr ⟨hstart, fun e he => ?_⟩⟩,
                not_le.mp hafter⟩, ?_⟩
              · by_contra hle
                exact hend ((Option.any_eq_true _ _).mpr ⟨e, he, decide_eq_true (not_lt.mp hle)⟩)
              · rintro t ⟨⟨m, hm, hm', rfl, hwindow⟩, hlt⟩
                exact hfirst m hm hm' hlt (inWindow_iff.mp hwindow).1

end Cron

/-- A scan without a window ends at the first candidate that exists after the bound. -/
theorem cronScan_eq_found {z : Zone} {getNext : Wall → Option Wall} {after : Instant} {fuel : ℕ}
    {cursor n : Wall} (hnext : getNext cursor = some n) (hexists : z.localWallExists n = true)
    (hlt : after < z.toUtc n) :
    cronScan z getNext after none none (fuel + 1) cursor = .ok (.found (z.toUtc n)) := by
  rw [cronScan, hnext]
  simp only [hexists, Bool.not_true, Bool.false_eq_true, if_false, not_le.mpr hlt, Option.any_none]

/-- The steps of an interval: the candidate is the first after the bound. -/
theorem isLeast_interval {delta : ℤ} (anchor after : ℤ) (hpos : 0 < delta) :
    let candidate :=
      if after < anchor then anchor else anchor + ((after - anchor) / delta + 1) * delta
    IsLeast {t | (∃ k : ℕ, t = anchor + k * delta) ∧ after < t} candidate := by
  intro candidate
  by_cases hlt : after < anchor
  · have hcand : candidate = anchor := if_pos hlt
    rw [hcand]
    refine ⟨⟨⟨0, by simp⟩, hlt⟩, ?_⟩
    rintro t ⟨⟨k, rfl⟩, -⟩
    have : (0 : ℤ) ≤ k * delta := by positivity
    omega
  · have hcand : candidate = anchor + ((after - anchor) / delta + 1) * delta := if_neg hlt
    have hfloor := Int.mul_ediv_add_emod (after - anchor) delta
    have hmod_nonneg := Int.emod_nonneg (after - anchor) hpos.ne'
    have hmod_lt := Int.emod_lt_of_pos (after - anchor) hpos
    have hsteps : 0 ≤ (after - anchor) / delta := Int.ediv_nonneg (by omega) hpos.le
    rw [hcand]
    refine ⟨⟨⟨((after - anchor) / delta + 1).toNat, ?_⟩, ?_⟩, ?_⟩
    · rw [Int.toNat_of_nonneg (by omega)]
    · linarith [add_mul ((after - anchor) / delta) 1 delta,
        mul_comm delta ((after - anchor) / delta)]
    · rintro t ⟨⟨k, rfl⟩, hk⟩
      -- `k` steps pass the bound, so there are more than the whole steps up to it
      have hmore : (after - anchor) / delta + 1 ≤ k := by
        by_contra hle
        have hle' : (k : ℤ) ≤ (after - anchor) / delta := by omega
        have := mul_le_mul_of_nonneg_right hle' hpos.le
        linarith [mul_comm delta ((after - anchor) / delta)]
      have := mul_le_mul_of_nonneg_right hmore hpos.le
      omega

variable {c : Calendar} {d : Definition} {after : Instant} {next : Option Instant}

/-- `next_scheduled_at` answers the least recurrence point after its bound, or that none remains. -/
theorem isNext_nextScheduledAt (h : nextScheduledAt c d after = .ok next)
    (hscan : scanExhausted c d after = false) : IsNext (d.points c) after next := by
  rw [nextScheduledAt] at h
  split at h
  · cases h
  · case h_2 z hz =>
    split at h
    · case h_1 wall hd =>
      have hpoints : d.points c = {t | z.localWallExists wall = true ∧ t = z.toUtc wall ∧
          inWindow d.startAt d.endAt t = true} := by
        simp only [Definition.points, hd, hz, Option.some.injEq, exists_eq_left']
      rw [hpoints]
      split at h
      · cases h
      · case isFalse hexists =>
        split at h
        · case isTrue hle =>
          cases h
          rintro t ⟨-, rfl, -⟩
          exact hle
        · case isFalse hle =>
          split at h
          · case isTrue hwindow =>
            cases h
            rintro t ⟨-, rfl, hin⟩
            rw [hin] at hwindow
            cases hwindow
          · case isFalse hwindow =>
            cases h
            refine ⟨⟨⟨by simpa using hexists, rfl, by simpa using hwindow⟩, not_le.mp hle⟩, ?_⟩
            rintro t ⟨⟨-, rfl, -⟩, -⟩
            exact le_rfl
    · case h_2 e hd =>
      have hpoints : d.points c = cronPoints z (c.ticks e) d.startAt d.endAt := by
        simp only [Definition.points, hd, hz, Option.some.injEq, exists_eq_left', cronPoints]
      rw [hpoints]
      obtain ⟨scan, hscan', h⟩ := Except.bind_eq_ok_iff.mp h
      have hnext := answers_cronScan (c.getNext_isLeast e) cursorBefore_cronCursor hscan'
      cases scan with
      | found utc =>
        cases h
        exact hnext
      | pastEnd =>
        cases h
        exact hnext
      | exhausted =>
        simp [scanExhausted, hz, hd, hscan', Except.toOption] at hscan
    · case h_3 delta hpos hd =>
      rw [nextIntervalUtc.eq_def] at h
      split at h
      · cases h
      · case h_2 anchor hstart =>
        have hpoints : d.points c = {t | (∃ k : ℕ, t = anchor + k * delta) ∧
            inWindow (some anchor) d.endAt t = true} := by
          simp only [Definition.points, hd, hstart, Option.some.injEq, exists_eq_left']
        have hleast := isLeast_interval anchor after hpos
        dsimp only at h hleast
        generalize (if after < anchor then anchor
          else anchor + ((after - anchor) / delta + 1) * delta) = candidate at h hleast
        rw [hpoints]
        split at h
        · cases h
        split at h
        · case isTrue hend =>
          cases h
          obtain ⟨e, he, hle⟩ := (Option.any_eq_true _ _).mp hend
          rintro t ⟨hk, hwindow⟩
          by_contra hlt
          have hpast : e ≤ t := (of_decide_eq_true hle).trans (hleast.2 ⟨hk, not_le.mp hlt⟩)
          exact absurd ((inWindow_iff.mp hwindow).2 e he) (not_lt.mpr hpast)
        · case isFalse hend =>
          have hstart' : anchor ≤ candidate := by
            obtain ⟨⟨k, rfl⟩, -⟩ := hleast.1
            exact le_add_of_nonneg_right (by positivity)
          rw [if_neg (not_lt.mpr hstart')] at h
          cases h
          refine ⟨⟨⟨hleast.1.1, inWindow_iff.mpr ⟨?_, fun e he => ?_⟩⟩, hleast.1.2⟩, ?_⟩
          · rintro s ⟨⟩
            exact hstart'
          · by_contra hle
            exact hend ((Option.any_eq_true _ _).mpr ⟨e, he, decide_eq_true (not_lt.mp hle)⟩)
          · exact fun t ht => hleast.2 ⟨ht.1.1, ht.2⟩

/-! ### A calendar in UTC -/

/-- UTC: readings are instants, and each comes once. -/
def utcZone : Zone where
  toUtc n := n
  toLocal t := (t, false)
  toUtc_mod _ := rfl
  toLocal_mod _ := rfl
  toUtc_le _ _ _ _ h := h

/-- Every zone is UTC and every CRON expression ticks each minute. -/
def utcCalendar : Calendar where
  zone _ := some utcZone
  ticks _ := {n | n % 60000000 = 0}
  getNext _ w := some ((w / 60000000 + 1) * 60000000)
  getNext_isLeast e w n h := by
    obtain rfl := (Option.some.inj h).symm
    constructor
    · constructor
      · exact Int.mul_emod_left _ _
      · linarith [Int.mul_ediv_add_emod w 60000000, Int.emod_lt_of_pos w (b := 60000000) (by decide)]
    · rintro m ⟨hm, hlt⟩
      have hm : m % 60000000 = 0 := hm
      have hdiv := Int.mul_ediv_add_emod m 60000000
      have hle : w / 60000000 < m / 60000000 := by
        by_contra hle
        have := Int.mul_ediv_add_emod w 60000000
        have := Int.emod_nonneg w (b := 60000000) (by decide)
        linarith
      linarith [Int.add_one_le_iff.mpr hle]

end McpFlow.Scheduler
