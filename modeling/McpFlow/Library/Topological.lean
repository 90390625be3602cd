import Mathlib.Data.List.Basic
import Mathlib.Data.Finite.Defs
import Mathlib.Data.Fintype.Card
import Mathlib.Data.Set.Finite.Basic
import Mathlib.Logic.Relation
import Mathlib.Order.WellFounded

/-!
# Topological orders

Lists in which every element comes after what it depends on. Such a list rules out cycles, and
without cycles a finite closed set that is not exhausted has an element whose dependencies are.
-/

universe u

/-- Every element comes after its dependencies. -/
def Topological {α : Type u} (deps : α → List α) (l : List α) : Prop :=
  ∀ before a after, l = before ++ a :: after → ∀ b ∈ deps a, b ∈ before

/-- No element depends on itself, at any distance. -/
def Acyclic {α : Type u} (deps : α → List α) : Prop :=
  ∀ a, ¬Relation.TransGen (fun b a => b ∈ deps a) a a

variable {α : Type u} {deps : α → List α} {l : List α}

namespace Topological

theorem nil : Topological deps [] := fun _ _ _ h =>
  absurd h.symm (List.append_ne_nil_of_right_ne_nil _ (List.cons_ne_nil _ _))

/-- An element follows whose dependencies are all there. -/
theorem concat (h : Topological deps l) {a : α} (ha : ∀ b ∈ deps a, b ∈ l) :
    Topological deps (l ++ [a]) := by
  intro before c after heq b hb
  rcases List.eq_nil_or_concat after with rfl | ⟨after, z, rfl⟩
  · obtain ⟨rfl, hac⟩ := List.append_inj' heq rfl
    cases hac
    exact ha b hb
  · have heq : l ++ [a] = (before ++ c :: after) ++ [z] := by
      rw [heq, List.concat_eq_append, List.append_assoc, List.cons_append]
    obtain ⟨rfl, -⟩ := List.append_inj' heq rfl
    exact h before c after rfl b hb

/-- What an element depends on has a smaller index. -/
theorem idxOf_lt [DecidableEq α] (h : Topological deps l) {a b : α} (ha : a ∈ l)
    (hb : b ∈ deps a) : l.idxOf b < l.idxOf a := by
  obtain ⟨before, after, rfl, hnew⟩ := List.eq_append_cons_of_mem ha
  have hbefore : b ∈ before := h before a after rfl b hb
  rw [List.idxOf_append_of_mem hbefore, List.idxOf_append_of_notMem hnew, List.idxOf_cons_self]
  have := List.idxOf_lt_length_of_mem hbefore
  omega

/-- A topological order of everything that has dependencies rules out cycles. -/
theorem acyclic [DecidableEq α] (h : Topological deps l) (hl : ∀ a, a ∉ l → deps a = []) :
    Acyclic deps := by
  have hlt : ∀ {b a}, Relation.TransGen (fun b a => b ∈ deps a) b a → l.idxOf b < l.idxOf a := by
    intro b a hba
    have hmem : ∀ {b a}, b ∈ deps a → a ∈ l := fun {b a} hb => by
      by_contra ha
      rw [hl a ha] at hb
      exact List.not_mem_nil hb
    induction hba with
    | single hb => exact h.idxOf_lt (hmem hb) hb
    | tail _ hb ih => exact ih.trans (h.idxOf_lt (hmem hb) hb)
  exact fun a ha => absurd (hlt ha) (lt_irrefl _)

end Topological

/-- Without cycles, a closed list with an element outside `seen` has one outside `seen` whose
dependencies are inside. -/
theorem Acyclic.exists_ready (h : Acyclic deps) {keys : List α}
    (hclosed : ∀ a ∈ keys, ∀ b ∈ deps a, b ∈ keys) {seen : List α}
    (hleft : ∃ a ∈ keys, a ∉ seen) : ∃ a ∈ keys, a ∉ seen ∧ ∀ b ∈ deps a, b ∈ seen := by
  let r : {a // a ∈ keys} → {a // a ∈ keys} → Prop := fun x y =>
    Relation.TransGen (fun b a => b ∈ deps a) x.1 y.1
  have hfin : Finite {a // a ∈ keys} := keys.finite_toSet.to_subtype
  have htrans : IsTrans _ r := ⟨fun x y z hxy hyz => hxy.trans hyz⟩
  have hirrefl : Std.Irrefl r := ⟨fun x hx => h x.1 hx⟩
  obtain ⟨a, ha, hleft⟩ := hleft
  obtain ⟨x, hx, hmin⟩ := (Finite.wellFounded_of_trans_of_irrefl r).has_min
    {x | x.1 ∉ seen} ⟨⟨a, ha⟩, hleft⟩
  refine ⟨x.1, x.2, hx, fun b hb => ?_⟩
  by_contra hnew
  exact hmin ⟨b, hclosed x.1 x.2 b hb⟩ hnew (.single hb)
