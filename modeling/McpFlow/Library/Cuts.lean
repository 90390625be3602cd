import McpFlow.Library.Pieces
import Mathlib.Data.List.Nodup
import Mathlib.Data.List.Perm.Subperm

/-!
# Cutting text at several separators

Text is cut at one separator after the other, each cut made in the runs that the cuts before have
left. No run holds a separator, a run that holds none stays whole, and text that is put together
from such runs with a marker between them holds a separator only where the separator reaches into a
marker.
-/

namespace List

variable {α : Type} {m s x : List α} {ps : List (List α)}

/-- Two texts can share a part of a text: one lies in the other, or one ends as the other begins. -/
def Overlaps (s m : List α) : Prop :=
  s <:+: m ∨ m <:+: s ∨ ∃ b, b ≠ [] ∧ ((b <:+ m ∧ b <+: s) ∨ (b <+: m ∧ b <:+ s))

/-- An occurrence in text with markers lies in a run or overlaps a marker. -/
theorem overlaps_of_infix_intercalate (hs : s ≠ []) (h : s <:+: m.intercalate ps) :
    (∃ p ∈ ps, s <:+: p) ∨ Overlaps s m := by
  induction ps with
  | nil =>
    rw [intercalate_nil, infix_nil] at h
    exact absurd h hs
  | cons p ps ih =>
    cases ps with
    | nil =>
      rw [intercalate_singleton] at h
      exact .inl ⟨p, mem_cons_self, h⟩
    | cons q ps =>
      have hrest : s <:+: m.intercalate (q :: ps) →
          (∃ p' ∈ p :: q :: ps, s <:+: p') ∨ Overlaps s m := fun h =>
        (ih h).imp (fun ⟨p', hp', hin⟩ => ⟨p', mem_cons_of_mem p hp', hin⟩) id
      rw [intercalate_cons_cons, append_assoc, infix_append_iff_ne_nil] at h
      obtain hp | htail | ⟨b, c, hb, hc, rfl, hsuffix, hprefix⟩ := h
      · exact .inl ⟨p, mem_cons_self, hp⟩
      · rw [infix_append_iff_ne_nil] at htail
        obtain hm | hrest' | ⟨b, c, hb, -, rfl, hsuffix, -⟩ := htail
        · exact .inr (.inl hm)
        · exact hrest hrest'
        · exact .inr (.inr (.inr ⟨b, hb, .inl ⟨hsuffix, prefix_append b c⟩⟩))
      · -- the occurrence begins in the run and reaches into the marker
        refine .inr (.inr ?_)
        rcases prefix_or_prefix_of_prefix hprefix (prefix_append m _) with h | h
        · exact .inr ⟨c, hc, .inr ⟨h, suffix_append b c⟩⟩
        · exact .inl (h.isInfix.trans (suffix_append b c).isInfix)

/-- Text behind the last run that the marker does not reach into. -/
theorem intercalate_append_last (m : List α) (ps : List (List α)) (p x : List α) :
    m.intercalate (ps ++ [p]) ++ x = m.intercalate (ps ++ [p ++ x]) := by
  induction ps with
  | nil => rw [nil_append, nil_append, intercalate_singleton, intercalate_singleton]
  | cons q ps ih =>
    have hne : ∀ y, ps ++ [y] ≠ [] := fun y => append_ne_nil_of_right_ne_nil ps (cons_ne_nil y [])
    rw [cons_append, cons_append, intercalate_cons_of_ne_nil (hne p),
      intercalate_cons_of_ne_nil (hne (p ++ x)), append_assoc, ih]

variable [DecidableEq α] {seps : List (List α)} {sep p : List α}

/-- Cut every run at each separator that is not empty, one after the other. -/
def cutAll (seps ps : List (List α)) : List (List α) :=
  seps.foldl (fun ps sep => if sep = [] then ps else ps.flatMap (pieces sep)) ps

@[simp] theorem cutAll_nil (ps : List (List α)) : cutAll [] ps = ps := rfl

theorem cutAll_cons (sep : List α) (seps ps : List (List α)) :
    cutAll (sep :: seps) ps =
      cutAll seps (if sep = [] then ps else ps.flatMap (pieces sep)) := rfl

theorem flatMap_pieces_ne_nil (hsep : sep ≠ []) (h : ps ≠ []) : ps.flatMap (pieces sep) ≠ [] := by
  obtain ⟨p, ps, rfl⟩ := exists_cons_of_ne_nil h
  rw [flatMap_cons]
  exact append_ne_nil_of_left_ne_nil (pieces_ne_nil hsep p) _

theorem cutAll_ne_nil (h : ps ≠ []) : cutAll seps ps ≠ [] := by
  induction seps generalizing ps with
  | nil => exact h
  | cons sep seps ih =>
    rw [cutAll_cons]
    split
    · exact ih h
    · case isFalse hsep => exact ih (flatMap_pieces_ne_nil hsep h)

/-- Every run of the cuts is part of a run. -/
theorem infix_of_mem_cutAll (h : p ∈ cutAll seps ps) : ∃ q ∈ ps, p <:+: q := by
  induction seps generalizing ps with
  | nil => exact ⟨p, h, infix_rfl⟩
  | cons sep seps ih =>
    rw [cutAll_cons] at h
    obtain ⟨q, hq, hpq⟩ := ih h
    split at hq
    · exact ⟨q, hq, hpq⟩
    · case isFalse hsep =>
      obtain ⟨r, hr, hqr⟩ := mem_flatMap.mp hq
      exact ⟨r, hr, hpq.trans (infix_of_mem_pieces hsep hqr)⟩

/-- No run of the cuts holds a separator. -/
theorem not_infix_of_mem_cutAll (h : p ∈ cutAll seps ps) (hsep : sep ∈ seps) (hne : sep ≠ []) :
    ¬ sep <:+: p := by
  induction seps generalizing ps with
  | nil => exact absurd hsep not_mem_nil
  | cons first seps ih =>
    rw [cutAll_cons] at h
    rcases mem_cons.mp hsep with rfl | hsep
    · obtain ⟨q, hq, hpq⟩ := infix_of_mem_cutAll h
      rw [if_neg hne] at hq
      obtain ⟨r, -, hqr⟩ := mem_flatMap.mp hq
      exact fun hin => not_infix_of_mem_pieces hne hqr (hin.trans hpq)
    · exact ih h hsep

/-- Runs without a separator stay whole. -/
theorem cutAll_eq_self (h : ∀ p ∈ ps, ∀ sep ∈ seps, sep ≠ [] → ¬ sep <:+: p) :
    cutAll seps ps = ps := by
  induction seps with
  | nil => rfl
  | cons sep seps ih =>
    rw [cutAll_cons]
    have hrest := ih fun p hp sep' hsep' => h p hp sep' (mem_cons_of_mem sep hsep')
    split
    · exact hrest
    · case isFalse hne =>
      have hself : ps.flatMap (pieces sep) = ps := by
        rw [flatMap_congr fun p hp => pieces_eq_singleton hne (h p hp sep mem_cons_self hne)]
        exact flatMap_singleton' ps
      rw [hself, hrest]

/-- Text behind a list that shares nothing with the separator lengthens the last piece. -/
theorem pieces_append_right (hsep : sep ≠ []) (hborder : Borderless sep)
    (hx : ∀ a ∈ x, a ∉ sep) (l : List α) :
    ∃ ps p, pieces sep l = ps ++ [p] ∧ pieces sep (l ++ x) = ps ++ [p ++ x] := by
  obtain ⟨ps, p, hps⟩ : ∃ ps p, pieces sep l = ps ++ [p] :=
    ⟨_, _, (dropLast_append_getLast (pieces_ne_nil hsep l)).symm⟩
  have hclean : ∀ q ∈ ps ++ [p], ¬ sep <:+: q := fun q hq => not_infix_of_mem_pieces hsep (hps ▸ hq)
  have hlast : ¬ sep <:+: p ++ x := by
    rw [infix_append_iff_ne_nil]
    rintro (hp | hin | ⟨b, c, -, hc, hbc, -, hfront⟩)
    · exact hclean p (mem_append_right ps (mem_singleton_self p)) hp
    · obtain ⟨a, rest, rfl⟩ := exists_cons_of_ne_nil hsep
      exact hx a (hin.subset mem_cons_self) mem_cons_self
    · obtain ⟨a, rest, rfl⟩ := exists_cons_of_ne_nil hc
      exact hx a (hfront.subset mem_cons_self) (hbc ▸ mem_append_right b mem_cons_self)
  refine ⟨ps, p, hps, ?_⟩
  have hl : l ++ x = sep.intercalate (ps ++ [p ++ x]) := by
    rw [← intercalate_append_last, ← hps, intercalate_pieces hsep]
  rw [hl]
  refine pieces_intercalate hsep hborder (append_ne_nil_of_right_ne_nil ps (cons_ne_nil _ _))
    fun q hq => ?_
  rcases mem_append.mp hq with hq | hq
  · exact hclean q (mem_append_left _ hq)
  · rw [mem_singleton.mp hq]
    exact hlast

/-! ### The first free candidate -/

variable {β : Type} [DecidableEq β] {candidate : ℕ → β} {used : List β} {fuel n : ℕ}

/-- The first of the candidates from `n` on that is not used. -/
def firstFree (candidate : ℕ → β) (used : List β) : ℕ → ℕ → β
  | 0, n => candidate n
  | fuel + 1, n => if candidate n ∈ used then firstFree candidate used fuel (n + 1) else candidate n

theorem exists_firstFree_eq (candidate : ℕ → β) (used : List β) (fuel n : ℕ) :
    ∃ k, firstFree candidate used fuel n = candidate k := by
  induction fuel generalizing n with
  | zero => exact ⟨n, rfl⟩
  | succ fuel ih =>
    rw [firstFree]
    split
    · exact ih (n + 1)
    · exact ⟨n, rfl⟩

/-- A search that ends on a used candidate has met only used ones. -/
private theorem mem_of_firstFree_mem (h : firstFree candidate used fuel n ∈ used) :
    ∀ k ≤ fuel, candidate (n + k) ∈ used := by
  induction fuel generalizing n with
  | zero =>
    intro k hk
    rw [Nat.le_zero.mp hk]
    exact h
  | succ fuel ih =>
    rw [firstFree] at h
    split at h
    · case isTrue hn =>
      intro k hk
      cases k with
      | zero => exact hn
      | succ k =>
        have hk := ih h k (Nat.le_of_succ_le_succ hk)
        rwa [Nat.add_right_comm, Nat.add_assoc] at hk
    · case isFalse hn => exact absurd h hn

/-- Different candidates are not all used, so the search finds a free one. -/
theorem firstFree_not_mem (hinj : Function.Injective candidate) (used : List β) (n : ℕ) :
    firstFree candidate used used.length n ∉ used := by
  intro h
  have hall := mem_of_firstFree_mem h
  have hnodup : ((range (used.length + 1)).map fun k => candidate (n + k)).Nodup :=
    Nodup.map (fun a b hab => Nat.add_left_cancel (hinj hab)) nodup_range
  have hsub : ((range (used.length + 1)).map fun k => candidate (n + k)) ⊆ used := by
    intro y hy
    obtain ⟨k, hk, rfl⟩ := mem_map.mp hy
    exact hall k (Nat.le_of_lt_succ (mem_range.mp hk))
  have hlength := (subperm_of_subset hnodup hsub).length_le
  rw [length_map, length_range] at hlength
  omega

end List
