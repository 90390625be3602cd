import McpFlow.Library.Except
import Mathlib.Order.Bounds.Basic

/-!
# Recurrence points in a linear order

A recurrence is a set of points. `IsNext` says that an answer is the least point after a bound, or
that no point is left after it. `collect` walks the points with a function that answers the next
one, from a cursor up to a bound; when every answer is right, it lists exactly the points between
the two, in ascending order.
-/

universe u

namespace Recurrence

variable {α : Type u} [LinearOrder α]

/-- The answer is the least point after `after`; without an answer, no point is after it. -/
def IsNext (points : Set α) (after : α) : Option α → Prop
  | none => ∀ t ∈ points, t ≤ after
  | some t => IsLeast {u | u ∈ points ∧ after < u} t

variable {points : Set α} {after now cursor t : α} {next : Option α}

theorem IsNext.mem (h : IsNext points after (some t)) : t ∈ points := h.1.1

theorem IsNext.lt (h : IsNext points after (some t)) : after < t := h.1.2

/-- No point lies between the bound and the answer. -/
theorem IsNext.le_of_lt (h : IsNext points after next) (ht : t ∈ points) {u : α}
    (hu : next = some u) (hlt : t < u) : t ≤ after := by
  subst hu
  by_contra hafter
  exact absurd (h.2 ⟨ht, not_le.mp hafter⟩) (not_le.mpr hlt)

/-- The bound may move forward as long as it stays before the answer. -/
theorem IsNext.mono (h : IsNext points after (some t)) (hle : after ≤ now) (hlt : now < t) :
    IsNext points now (some t) :=
  ⟨⟨h.mem, hlt⟩, fun _ hu => h.2 ⟨hu.1, hle.trans_lt hu.2⟩⟩

theorem IsNext.mono_none (h : IsNext points after none) (hle : after ≤ now) :
    IsNext points now none :=
  fun u hu => (h u hu).trans hle

theorem IsNext.unique {n m : Option α} (hn : IsNext points after n) (hm : IsNext points after m) :
    n = m := by
  cases n with
  | none =>
    cases m with
    | none => rfl
    | some t => exact absurd hm.lt (not_lt.mpr (hn t hm.mem))
  | some t =>
    cases m with
    | none => exact absurd hn.lt (not_lt.mpr (hm t hn.mem))
    | some u => rw [IsLeast.unique hn hm]

/-! ### The walk -/

variable {ε : Type} {step : α → Except ε (Option α)}

/-- The points from the cursor up to `now`, and whether the walk was given up: the fuel ran out
before `now`, or an answer did not lie after its cursor. -/
def collect {α : Type} [LinearOrder α] {ε : Type} (step : α → Except ε (Option α)) (now : α) :
    ℕ → α → Except ε (List α × Bool)
  | 0, cursor => .ok ([], decide (cursor ≤ now))
  | fuel + 1, cursor =>
    if now < cursor then .ok ([], false)
    else do
      match ← step cursor with
      | none => return ([cursor], false)
      | some t =>
        if t ≤ cursor then return ([cursor], true)
        else
          let rest ← collect step now fuel t
          return (cursor :: rest.1, rest.2)

section Collect

variable {α : Type} [LinearOrder α] {ε : Type} {step : α → Except ε (Option α)} {points : Set α}
  {now cursor : α} {fuel : ℕ} {found : List α}

/-- One turn of a walk that was not given up. -/
theorem collect_succ_eq_ok (h : collect step now (fuel + 1) cursor = .ok (found, false)) :
    (now < cursor ∧ found = []) ∨ (cursor ≤ now ∧ step cursor = .ok none ∧ found = [cursor]) ∨
      ∃ t rest, cursor ≤ now ∧ step cursor = .ok (some t) ∧ cursor < t ∧
        collect step now fuel t = .ok (rest, false) ∧ found = cursor :: rest := by
  rw [collect] at h
  split at h
  · case isTrue hlt =>
    cases h
    exact .inl ⟨hlt, rfl⟩
  · case isFalse hle =>
    obtain ⟨answer, hstep, h⟩ := Except.bind_eq_ok_iff.mp h
    right
    cases answer with
    | none =>
      cases h
      exact .inl ⟨not_lt.mp hle, hstep, rfl⟩
    | some t =>
      dsimp only at h
      split at h
      · cases h
      · case isFalse ht =>
        obtain ⟨rest, hrest, h⟩ := Except.bind_eq_ok_iff.mp h
        obtain ⟨rest, gave⟩ := rest
        cases h
        exact .inr ⟨t, rest, not_lt.mp hle, hstep, not_le.mp ht, hrest, rfl⟩

/-- A walk that is not given up lists instants between its cursor and `now`, in ascending order. -/
theorem collect_sorted (h : collect step now fuel cursor = .ok (found, false)) :
    (∀ t ∈ found, cursor ≤ t ∧ t ≤ now) ∧ found.Pairwise (· < ·) := by
  induction fuel generalizing cursor found with
  | zero =>
    have h' : (([] : List α), decide (cursor ≤ now)) = (found, false) := Except.ok.inj h
    obtain ⟨rfl, -⟩ := Prod.mk.inj h'
    exact ⟨fun t ht => absurd ht List.not_mem_nil, .nil⟩
  | succ fuel ih =>
    obtain ⟨-, rfl⟩ | ⟨hle, -, rfl⟩ | ⟨t, rest, hle, -, hlt, hrest, rfl⟩ := collect_succ_eq_ok h
    · exact ⟨fun t ht => absurd ht List.not_mem_nil, .nil⟩
    · refine ⟨fun t ht => ?_, List.pairwise_singleton _ _⟩
      rw [List.mem_singleton.mp ht]
      exact ⟨le_rfl, hle⟩
    · obtain ⟨hbetween, hsorted⟩ := ih hrest
      refine ⟨fun u hu => ?_, List.pairwise_cons.mpr ⟨fun u hu => ?_, hsorted⟩⟩
      · rcases List.mem_cons.mp hu with rfl | hu
        · exact ⟨le_rfl, hle⟩
        · exact ⟨hlt.le.trans (hbetween u hu).1, (hbetween u hu).2⟩
      · exact hlt.trans_le (hbetween u hu).1

/-- A walk that starts at a point, gets right answers and is not given up lists exactly the points
from there up to `now`. -/
theorem mem_collect_iff (hstep : ∀ a next, step a = .ok next → IsNext points a next)
    (hcursor : cursor ∈ points) (h : collect step now fuel cursor = .ok (found, false)) (t : α) :
    t ∈ found ↔ t ∈ points ∧ cursor ≤ t ∧ t ≤ now := by
  induction fuel generalizing cursor found with
  | zero =>
    have h' : (([] : List α), decide (cursor ≤ now)) = (found, false) := Except.ok.inj h
    obtain ⟨rfl, hlt⟩ := Prod.mk.inj h'
    refine ⟨fun ht => absurd ht List.not_mem_nil, fun ⟨_, hle, hnow⟩ => ?_⟩
    exact absurd (hle.trans hnow) (of_decide_eq_false hlt)
  | succ fuel ih =>
    obtain ⟨hlt, rfl⟩ | ⟨hle, hnone, rfl⟩ | ⟨u, rest, hle, hsome, hlt, hrest, rfl⟩ :=
      collect_succ_eq_ok h
    · refine ⟨fun ht => absurd ht List.not_mem_nil, fun ⟨_, hc, hnow⟩ => ?_⟩
      exact absurd hlt (not_lt.mpr (hc.trans hnow))
    · rw [List.mem_singleton]
      constructor
      · rintro rfl
        exact ⟨hcursor, le_rfl, hle⟩
      · rintro ⟨ht, hc, -⟩
        exact le_antisymm (hstep _ _ hnone t ht) hc
    · have hnext := hstep _ _ hsome
      rw [List.mem_cons, ih hnext.mem hrest]
      constructor
      · rintro (rfl | ⟨ht, hut, hnow⟩)
        · exact ⟨hcursor, le_rfl, hle⟩
        · exact ⟨ht, hlt.le.trans hut, hnow⟩
      · rintro ⟨ht, hc, hnow⟩
        -- a point after the cursor is not before the next one
        rcases hc.eq_or_lt with rfl | hc
        · exact .inl rfl
        · exact .inr ⟨ht, hnext.2 ⟨ht, hc⟩, hnow⟩

end Collect

/-! ### The preview -/

section Preview

variable {α ε : Type} {step : α → Except ε (Option α)} {start next : α} {n : ℕ} {found out : List α}

/-- The `k`-th answer after a start: each is asked for from the one before, and nothing comes after
the last. -/
def iterate (step : α → Except ε (Option α)) (start : α) : ℕ → Except ε (Option α)
  | 0 => .ok (some start)
  | k + 1 => do
    match ← iterate step start k with
    | none => return none
    | some t => step t

/-- Ask `n` times, each time from the last answer, until nothing comes. -/
def preview (step : α → Except ε (Option α)) : ℕ → α → List α → Except ε (List α)
  | 0, _, found => .ok found
  | n + 1, cursor, found => do
    match ← step cursor with
    | none => return found
    | some t => preview step n t (found ++ [t])

/-- A result that is made of the first `n` answers, or is the error of one of them. -/
def Iterates (step : α → Except ε (Option α)) (start : α) (n : ℕ) : Except ε (List α) → Prop
  | .ok out => out.length ≤ n ∧ ∀ k < n, iterate step start (k + 1) = .ok out[k]?
  | .error e => ∃ k < n, iterate step start (k + 1) = .error e

private theorem iterate_succ_of_error {e : ε} (h : step start = .error e) (k : ℕ) :
    iterate step start (k + 1) = .error e := by
  induction k with
  | zero => exact h
  | succ k ih => rw [iterate, ih]; rfl

private theorem iterate_succ_of_none (h : step start = .ok none) (k : ℕ) :
    iterate step start (k + 1) = .ok none := by
  induction k with
  | zero => exact h
  | succ k ih => rw [iterate, ih]; rfl

/-- After the first answer, the iteration is that from the first answer. -/
private theorem iterate_succ_of_some (h : step start = .ok (some next)) (k : ℕ) :
    iterate step start (k + 1) = iterate step next k := by
  induction k with
  | zero => exact h
  | succ k ih => rw [iterate, ih]; rfl

variable (step) in
/-- The preview puts the answers behind what it has found. -/
private theorem iterates_preview_append (n : ℕ) (start : α) (found : List α) :
    ∃ result, preview step n start found = (result.map (found ++ ·)) ∧
      Iterates step start n result := by
  induction n generalizing start found with
  | zero => exact ⟨.ok [], by simp [preview, Except.map], le_rfl, fun k hk => absurd hk k.not_lt_zero⟩
  | succ n ih =>
    rw [preview]
    cases hstep : step start with
    | error e => exact ⟨.error e, rfl, 0, n.succ_pos, iterate_succ_of_error hstep 0⟩
    | ok answer =>
      cases answer with
      | none =>
        refine ⟨.ok [], by simp [Except.map, bind, Except.bind, pure, Except.pure], Nat.zero_le _,
          fun k _ => ?_⟩
        rw [iterate_succ_of_none hstep, List.getElem?_nil]
      | some t =>
        obtain ⟨result, hresult, hiterates⟩ := ih t (found ++ [t])
        cases result with
        | error e =>
          obtain ⟨k, hk, he⟩ := hiterates
          refine ⟨.error e, hresult, k + 1, Nat.succ_lt_succ hk, ?_⟩
          rw [iterate_succ_of_some hstep, he]
        | ok out =>
          refine ⟨.ok (t :: out), ?_, Nat.succ_le_succ hiterates.1, fun k hk => ?_⟩
          · rw [show (Except.ok (some t) >>= _ : Except ε (List α)) = _ from hresult]
            simp [Except.map]
          · rw [iterate_succ_of_some hstep]
            cases k with
            | zero => rfl
            | succ k => exact hiterates.2 k (Nat.lt_of_succ_lt_succ hk)

/-- Previewing `n` points is iterating `n` times. -/
theorem iterates_preview (n : ℕ) (start : α) :
    Iterates step start n (preview step n start []) := by
  obtain ⟨result, hresult, hiterates⟩ := iterates_preview_append step n start []
  rw [hresult]
  cases result with
  | error e => exact hiterates
  | ok out => exact hiterates

end Preview

end Recurrence
