import Mathlib.Algebra.Group.Nat.Defs
import Mathlib.Data.Int.Notation
import Mathlib.Data.Nat.Notation
import Mathlib.Order.Basic

/-!
# ISO 8601 texts

`datetime.isoformat` writes every field of a wall clock in its own number of digits, the microseconds
only where there are any. The text determines the clock.
-/

/-- The fields of a wall clock. -/
@[ext]
structure WallClock where
  year : ℕ
  month : ℕ
  day : ℕ
  hour : ℕ
  minute : ℕ
  second : ℕ
  microsecond : ℕ
  year_lt : year < 10000
  month_lt : month < 13
  day_lt : day < 32
  hour_lt : hour < 24
  minute_lt : minute < 60
  second_lt : second < 60
  microsecond_lt : microsecond < 1000000
deriving DecidableEq

namespace WallClock

/-- The `width` lowest decimal digits of a number. -/
def padded : ℕ → ℕ → List Char
  | 0, _ => []
  | width + 1, n => padded width (n / 10) ++ [Nat.digitChar (n % 10)]

@[simp] theorem length_padded (width n : ℕ) : (padded width n).length = width := by
  induction width generalizing n with
  | zero => rfl
  | succ width ih => rw [padded, List.length_append, ih, List.length_singleton]

theorem digitChar_inj {m n : ℕ} (hm : m < 10) (hn : n < 10)
    (h : Nat.digitChar m = Nat.digitChar n) : m = n := by
  have hall : ∀ a < 10, ∀ b < 10, Nat.digitChar a = Nat.digitChar b → a = b := by decide
  exact hall m hm n hn h

/-- Numbers that fit are determined by their digits. -/
theorem padded_inj {width m n : ℕ} (hm : m < 10 ^ width) (hn : n < 10 ^ width)
    (h : padded width m = padded width n) : m = n := by
  induction width generalizing m n with
  | zero => omega
  | succ width ih =>
    rw [Nat.pow_succ] at hm hn
    rw [padded, padded] at h
    obtain ⟨hhigh, hlow⟩ := List.append_inj' h rfl
    have hdiv : m / 10 = n / 10 := ih (by omega) (by omega) hhigh
    have hmod : m % 10 = n % 10 :=
      digitChar_inj (Nat.mod_lt m (by decide)) (Nat.mod_lt n (by decide)) (List.cons.inj hlow).1
    omega

/-- The microseconds of the text. -/
def fraction (n : ℕ) : List Char := if n = 0 then [] else '.' :: padded 6 n

/-- `value.isoformat()` without the offset. -/
def isoformat (t : WallClock) : List Char :=
  padded 4 t.year ++ ('-' :: padded 2 t.month) ++ ('-' :: padded 2 t.day) ++
    ('T' :: padded 2 t.hour) ++ (':' :: padded 2 t.minute) ++ (':' :: padded 2 t.second) ++
    fraction t.microsecond

theorem fraction_inj {m n : ℕ} (hm : m < 1000000) (hn : n < 1000000)
    (h : fraction m = fraction n) : m = n := by
  rw [fraction, fraction] at h
  split at h <;> split at h
  · next hm0 hn0 => rw [hm0, hn0]
  · cases h
  · cases h
  · exact padded_inj hm hn (List.cons.inj h).2

/-- Two fields of one width are determined by their texts. -/
private theorem field_inj {width : ℕ} {sep : Char} {m n : ℕ} (hm : m < 10 ^ width)
    (hn : n < 10 ^ width) (h : sep :: padded width m = sep :: padded width n) : m = n :=
  padded_inj hm hn (List.cons.inj h).2

theorem isoformat_injective : Function.Injective isoformat := by
  intro t u h
  have hlen (c : Char) (width m n : ℕ) :
      (c :: padded width m).length = (c :: padded width n).length := by
    rw [List.length_cons, List.length_cons, length_padded, length_padded]
  simp only [isoformat, List.append_assoc] at h
  obtain ⟨hyear, h⟩ := List.append_inj h (by rw [length_padded, length_padded])
  obtain ⟨hmonth, h⟩ := List.append_inj h (hlen _ _ _ _)
  obtain ⟨hday, h⟩ := List.append_inj h (hlen _ _ _ _)
  obtain ⟨hhour, h⟩ := List.append_inj h (hlen _ _ _ _)
  obtain ⟨hminute, h⟩ := List.append_inj h (hlen _ _ _ _)
  obtain ⟨hsecond, hfraction⟩ := List.append_inj h (hlen _ _ _ _)
  have hwidth {n b : ℕ} (hn : n < b) (hb : b ≤ 100) : n < 10 ^ 2 := Nat.lt_of_lt_of_le hn hb
  refine WallClock.ext (padded_inj t.year_lt u.year_lt hyear) ?_ ?_ ?_ ?_ ?_ ?_
  · exact field_inj (hwidth t.month_lt (by decide)) (hwidth u.month_lt (by decide)) hmonth
  · exact field_inj (hwidth t.day_lt (by decide)) (hwidth u.day_lt (by decide)) hday
  · exact field_inj (hwidth t.hour_lt (by decide)) (hwidth u.hour_lt (by decide)) hhour
  · exact field_inj (hwidth t.minute_lt (by decide)) (hwidth u.minute_lt (by decide)) hminute
  · exact field_inj (hwidth t.second_lt (by decide)) (hwidth u.second_lt (by decide)) hsecond
  · exact fraction_inj t.microsecond_lt u.microsecond_lt hfraction

end WallClock

/-- A `datetime`: a wall clock without a zone, or a moment that is shown at an offset (in minutes) and
kept here by its wall clock in UTC. -/
inductive DateTime where
  | naive (clock : WallClock)
  | aware (utc : WallClock) (offset : ℤ)
deriving DecidableEq

namespace DateTime

/-- `replace(tzinfo=UTC)` for a naive value, `astimezone(UTC)` for an aware one. -/
def toUtc : DateTime → DateTime
  | naive clock => aware clock 0
  | aware utc _ => aware utc 0

/-- The wall clock in UTC. -/
def utcClock : DateTime → WallClock
  | naive clock => clock
  | aware utc _ => utc

@[simp] theorem utcClock_toUtc (t : DateTime) : t.toUtc.utcClock = t.utcClock := by
  cases t <;> rfl

end DateTime
