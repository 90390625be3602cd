import Mathlib.Order.Bounds.Basic
import Mathlib.Algebra.Order.Group.Int
import Mathlib.Algebra.Order.Group.MinMax
import Mathlib.Algebra.Ring.Int.Defs

/-!
# Clocks with a piecewise-constant offset

A clock runs ahead of universal time by an offset that changes at finitely many transitions. Where
the offset grows, the clock jumps over readings; where it shrinks, it shows readings twice. `read`
gives the reading of an instant and whether the clock shows it for the second time, `localize` gives
the instant of a reading, the first one where there are two. When no two transitions are so close
that their jumps overlap on the clock, `localize` answers the least instant of every reading shown.
-/

namespace LocalClock

/-- From `instant` on, the clock runs `offset` ahead. -/
structure Transition where
  instant : ℤ
  offset : ℤ
deriving DecidableEq, Repr

/-- The reading of an instant, and whether it comes before the end of the readings that the last
transition repeats. -/
def read (offset : ℤ) (repeatedUntil : Option ℤ) : List Transition → ℤ → ℤ × Bool
  | [], t => (t + offset, repeatedUntil.any (t < ·))
  | tr :: rest, t =>
    if t < tr.instant then (t + offset, repeatedUntil.any (t < ·))
    else read tr.offset (some (tr.instant + (offset - tr.offset))) rest t

/-- The offset at which a reading is resolved: a transition takes effect once its jump is over on
the clock. -/
def offsetOf (offset : ℤ) : List Transition → ℤ → ℤ
  | [], _ => offset
  | tr :: rest, n =>
    if n < tr.instant + max offset tr.offset then offset else offsetOf tr.offset rest n

/-- The jump of each transition is over on the clock before that of the next begins. -/
def Spaced : ℤ → List Transition → Prop
  | _, [] => True
  | offset, tr :: rest =>
    (∀ next ∈ rest.head?,
      tr.instant + max offset tr.offset ≤ next.instant + min tr.offset next.offset) ∧
      Spaced tr.offset rest

instance decidableSpaced : ∀ offset transitions, Decidable (Spaced offset transitions)
  | _, [] => inferInstanceAs (Decidable True)
  | _, tr :: rest =>
    have : Decidable (Spaced tr.offset rest) := decidableSpaced tr.offset rest
    inferInstanceAs (Decidable (_ ∧ _))

variable {offset b n t q : ℤ} {repeatedUntil : Option ℤ} {tr : Transition} {rest l : List Transition}

theorem read_of_lt (h : t < tr.instant) :
    read offset repeatedUntil (tr :: rest) t = (t + offset, repeatedUntil.any (t < ·)) := by
  rw [read, if_pos h]

theorem read_of_le (h : tr.instant ≤ t) :
    read offset repeatedUntil (tr :: rest) t =
      read tr.offset (some (tr.instant + (offset - tr.offset))) rest t := by
  rw [read, if_neg (not_lt.mpr h)]

/-- Past a bound that every jump stays above, the clock stays above it. -/
theorem le_read (h : Spaced offset l) (hb : ∀ tr ∈ l.head?, b ≤ tr.instant + min offset tr.offset)
    (ht : b ≤ t + offset) : b ≤ (read offset repeatedUntil l t).1 := by
  induction l generalizing offset repeatedUntil with
  | nil => exact ht
  | cons tr rest ih =>
    have hjump : b ≤ tr.instant + min offset tr.offset := hb tr rfl
    by_cases hlt : t < tr.instant
    · rw [read_of_lt hlt]
      exact ht
    · rw [read_of_le (not_lt.mp hlt)]
      refine ih h.2 (fun next hnext => ?_) ?_
      · have := h.1 next hnext
        omega
      · omega

variable (repeatedUntil) in
/-- From a transition on, the clock is at or past the reading to which it jumps. -/
theorem le_read_cons (h : Spaced offset (tr :: rest)) (ht : tr.instant ≤ t) :
    tr.instant + tr.offset ≤ (read offset repeatedUntil (tr :: rest) t).1 := by
  rw [read_of_le ht]
  refine le_read h.2 (fun next hnext => ?_) (by omega)
  have := h.1 next hnext
  omega

/-- A reading past a transition is resolved to an instant past it. -/
theorem le_sub_offsetOf (h : Spaced offset (tr :: rest))
    (hn : tr.instant + max offset tr.offset ≤ n) : tr.instant ≤ n - offsetOf tr.offset rest n := by
  induction rest generalizing offset tr with
  | nil =>
    rw [offsetOf]
    omega
  | cons next rest ih =>
    have hspace := h.1 next rfl
    rw [offsetOf]
    split
    · omega
    · have := ih h.2 (by omega)
      omega

private theorem any_lt_eq_false (hn : ∀ r ∈ repeatedUntil, r + offset ≤ n) :
    repeatedUntil.any (n - offset < ·) = false := by
  cases repeatedUntil with
  | none => rfl
  | some r =>
    have := hn r rfl
    exact decide_eq_false (by omega)

/-- The instant of a reading, resolved at the first of two. -/
theorem read_sub_offsetOf (h : Spaced offset l) (hn : ∀ r ∈ repeatedUntil, r + offset ≤ n)
    (hshown : ∃ t, (read offset repeatedUntil l t).1 = n) :
    read offset repeatedUntil l (n - offsetOf offset l n) = (n, false) := by
  obtain ⟨t, ht⟩ := hshown
  induction l generalizing offset repeatedUntil with
  | nil =>
    rw [offsetOf, read, any_lt_eq_false hn]
    simp
  | cons tr rest ih =>
    rw [offsetOf]
    split
    · case isTrue hbefore =>
      -- a reading in the gap of the transition is never shown
      have hlt : n < tr.instant + offset := by
        by_contra hgap
        by_cases hlt : t < tr.instant
        · rw [read_of_lt hlt] at ht
          omega
        · have := le_read_cons repeatedUntil h (not_lt.mp hlt)
          omega
      rw [read_of_lt (by omega), any_lt_eq_false hn]
      simp
    · case isFalse hafter =>
      have hle : tr.instant ≤ t := by
        by_contra hlt
        rw [read_of_lt (not_le.mp hlt)] at ht
        omega
      rw [read_of_le hle] at ht
      rw [read_of_le (le_sub_offsetOf h (not_lt.mp hafter))]
      have hover : ∀ r ∈ some (tr.instant + (offset - tr.offset)), r + tr.offset ≤ n := by
        rintro r ⟨⟩
        omega
      exact ih h.2 hover ht

/-- Where the resolved instant shows the reading, no instant before it has reached the reading. -/
theorem sub_offsetOf_le (h : Spaced offset l)
    (hshown : (read offset repeatedUntil l (n - offsetOf offset l n)).1 = n)
    (ht : n ≤ (read offset repeatedUntil l t).1) : n - offsetOf offset l n ≤ t := by
  induction l generalizing offset repeatedUntil with
  | nil =>
    rw [offsetOf]
    rw [read] at ht
    omega
  | cons tr rest ih =>
    rw [offsetOf] at hshown ⊢
    split
    · case isTrue hbefore =>
      rw [if_pos hbefore] at hshown
      by_cases hlt : t < tr.instant
      · rw [read_of_lt hlt] at ht
        omega
      · by_contra hgap
        have := le_read_cons repeatedUntil (t := n - offset) h (by omega)
        omega
    · case isFalse hafter =>
      have hpast := le_sub_offsetOf h (not_lt.mp hafter)
      rw [if_neg hafter, read_of_le hpast] at hshown
      by_cases hlt : t < tr.instant
      · rw [read_of_lt hlt] at ht
        omega
      · rw [read_of_le (not_lt.mp hlt)] at ht
        exact ih h.2 hshown ht

/-- A unit of which every offset is a whole multiple does not move. -/
theorem read_emod (hoffset : q ∣ offset) (hl : ∀ tr ∈ l, q ∣ tr.offset) :
    (read offset repeatedUntil l t).1 % q = t % q := by
  have hadd : ∀ o, q ∣ o → (t + o) % q = t % q := fun o ho => by
    rw [Int.add_emod, Int.emod_eq_zero_of_dvd ho, add_zero, Int.emod_emod]
  induction l generalizing offset repeatedUntil with
  | nil => exact hadd offset hoffset
  | cons tr rest ih =>
    rw [read]
    split
    · exact hadd offset hoffset
    · exact ih (hl tr List.mem_cons_self) fun tr' htr' => hl tr' (List.mem_cons_of_mem _ htr')

theorem dvd_offsetOf (hoffset : q ∣ offset) (hl : ∀ tr ∈ l, q ∣ tr.offset) :
    q ∣ offsetOf offset l n := by
  induction l generalizing offset with
  | nil => exact hoffset
  | cons tr rest ih =>
    rw [offsetOf]
    split
    · exact hoffset
    · exact ih (hl tr List.mem_cons_self) fun tr' htr' => hl tr' (List.mem_cons_of_mem _ htr')

/-! ### Clocks -/

/-- A clock that runs at `offset` up to its first transition. -/
structure Clock where
  offset : ℤ
  transitions : List Transition
  spaced : Spaced offset transitions

/-- What the clock shows, and whether for the second time. -/
def Clock.read (c : Clock) (t : ℤ) : ℤ × Bool := LocalClock.read c.offset none c.transitions t

/-- The instant of a reading. -/
def Clock.localize (c : Clock) (n : ℤ) : ℤ := n - offsetOf c.offset c.transitions n

variable {c : Clock}

theorem Clock.read_localize (h : ∃ t, (c.read t).1 = n) : c.read (c.localize n) = (n, false) :=
  read_sub_offsetOf c.spaced (fun _ hr => absurd hr (Option.not_mem_none _)) h

theorem Clock.localize_le (hshown : (c.read (c.localize n)).1 = n) (ht : n ≤ (c.read t).1) :
    c.localize n ≤ t :=
  sub_offsetOf_le c.spaced hshown ht

/-- A reading that the clock shows is resolved to the first instant at which it shows it. -/
theorem Clock.isLeast_localize (h : ∃ t, (c.read t).1 = n) :
    IsLeast {t | (c.read t).1 = n} (c.localize n) := by
  have hshown : (c.read (c.localize n)).1 = n := by rw [read_localize h]
  exact ⟨hshown, fun t ht => localize_le hshown (le_of_eq (Eq.symm ht))⟩

end LocalClock
