import Mathlib.Data.List.Infix
import Mathlib.Data.String.Defs

/-!
# Splitting text at a separator

The occurrences of a separator are found from the left and do not overlap, as in `str.split` and
`str.replace`. Every list is its pieces with the separator between them, no piece holds the
separator, and for a separator without a border these two facts determine the pieces.
-/

namespace List

variable {α : Type}

theorem intercalate_nil_cons {ps : List (List α)} (sep : List α) (h : ps ≠ []) :
    sep.intercalate ([] :: ps) = sep ++ sep.intercalate ps := by
  rw [intercalate_cons_of_ne_nil h, nil_append]

theorem intercalate_modifyHead {ps : List (List α)} (sep : List α) (a : α) (h : ps ≠ []) :
    sep.intercalate (ps.modifyHead (a :: ·)) = a :: sep.intercalate ps := by
  obtain ⟨p, ps, rfl⟩ := exists_cons_of_ne_nil h
  rw [modifyHead_cons]
  cases ps with
  | nil => rw [intercalate_singleton, intercalate_singleton]
  | cons q ps => rw [intercalate_cons_cons, intercalate_cons_cons, cons_append, cons_append]

/-- The first piece begins the list. -/
theorem head_prefix_intercalate {p : List α} {ps : List (List α)} (sep : List α) :
    p <+: sep.intercalate (p :: ps) := by
  cases ps with
  | nil => rw [intercalate_singleton]
  | cons q ps =>
    rw [intercalate_cons_cons, append_assoc]
    exact prefix_append p _

/-- No end of the separator is a beginning of it. -/
def Borderless (sep : List α) : Prop := ∀ b, b ≠ [] → b <:+ sep → b <+: sep → b = sep

/-- One element has no border. -/
theorem borderless_singleton (a : α) : Borderless [a] := by
  intro b hne hsuffix _
  obtain ⟨c, b, rfl⟩ := exists_cons_of_ne_nil hne
  have hlength := hsuffix.length_le
  rw [length_cons, length_singleton] at hlength
  have hnil : b = [] := length_eq_zero_iff.mp (by omega)
  subst hnil
  exact hsuffix.eq_of_length rfl

variable [DecidableEq α]

/-- The pieces behind the next `skip` elements. -/
def piecesAux (sep : List α) : ℕ → List α → List (List α)
  | _, [] => [[]]
  | skip + 1, _ :: l => piecesAux sep skip l
  | 0, a :: l =>
    if sep.isPrefixOf (a :: l) then [] :: piecesAux sep (sep.length - 1) l
    else (piecesAux sep 0 l).modifyHead (a :: ·)

/-- The pieces of a list between the occurrences of a separator that is not empty. -/
def pieces (sep l : List α) : List (List α) := piecesAux sep 0 l

/-- Every occurrence is replaced. -/
def replaceAll (old new l : List α) : List α := new.intercalate (pieces old l)

@[simp] theorem pieces_nil (sep : List α) : pieces sep [] = [[]] := rfl

theorem piecesAux_eq_drop (sep : List α) (skip : ℕ) (l : List α) :
    piecesAux sep skip l = pieces sep (l.drop skip) := by
  induction l generalizing skip with
  | nil =>
    rw [drop_nil]
    cases skip <;> rfl
  | cons a l ih =>
    cases skip with
    | zero => rfl
    | succ skip => exact ih skip

variable {sep l : List α}

theorem pieces_cons_of_not_front {a : α} (h : ¬ sep <+: a :: l) :
    pieces sep (a :: l) = (pieces sep l).modifyHead (a :: ·) := by
  have hsep : sep.isPrefixOf (a :: l) = false := by
    rw [← Bool.not_eq_true, isPrefixOf_iff_prefix]
    exact h
  rw [pieces, piecesAux, hsep, if_neg Bool.false_ne_true]
  rfl

theorem pieces_append (hsep : sep ≠ []) (l : List α) : pieces sep (sep ++ l) = [] :: pieces sep l := by
  obtain ⟨a, rest, rfl⟩ := exists_cons_of_ne_nil hsep
  have hprefix : (a :: rest).isPrefixOf (a :: (rest ++ l)) = true :=
    isPrefixOf_iff_prefix.mpr (prefix_append (a :: rest) l)
  rw [cons_append, pieces, piecesAux, if_pos hprefix, piecesAux_eq_drop, length_cons,
    Nat.add_sub_cancel, drop_left]

/-- A list is empty, starts with the separator, or starts with another element. -/
theorem pieces_induction (hsep : sep ≠ []) {motive : List α → Prop} (nil : motive [])
    (append : ∀ l, motive l → motive (sep ++ l))
    (cons : ∀ a l, ¬ sep <+: a :: l → motive l → motive (a :: l)) (l : List α) : motive l := by
  induction hn : l.length using Nat.strong_induction_on generalizing l with
  | _ n ih =>
    subst hn
    cases l with
    | nil => exact nil
    | cons a l =>
      by_cases hprefix : sep <+: a :: l
      · obtain ⟨rest, hrest⟩ := hprefix
        have hlt : rest.length < (a :: l).length := by
          have hpos := length_pos_iff.mpr hsep
          rw [← hrest, length_append]
          omega
        exact hrest ▸ append rest (ih _ hlt rest rfl)
      · exact cons a l hprefix (ih l.length (Nat.lt_succ_self _) l rfl)

theorem pieces_ne_nil (hsep : sep ≠ []) (l : List α) : pieces sep l ≠ [] := by
  induction l using pieces_induction hsep with
  | nil => exact cons_ne_nil _ _
  | append l _ =>
    rw [pieces_append hsep]
    exact cons_ne_nil _ _
  | cons a l hprefix ih =>
    rw [pieces_cons_of_not_front hprefix]
    obtain ⟨p, ps, hps⟩ := exists_cons_of_ne_nil ih
    rw [hps, modifyHead_cons]
    exact cons_ne_nil _ _

/-- A list is its pieces with the separator between them. -/
theorem intercalate_pieces (hsep : sep ≠ []) (l : List α) : sep.intercalate (pieces sep l) = l := by
  induction l using pieces_induction hsep with
  | nil => rfl
  | append l ih => rw [pieces_append hsep, intercalate_nil_cons sep (pieces_ne_nil hsep l), ih]
  | cons a l hprefix ih =>
    rw [pieces_cons_of_not_front hprefix, intercalate_modifyHead sep a (pieces_ne_nil hsep l), ih]

theorem replaceAll_nil (old new : List α) : replaceAll old new [] = [] := rfl

theorem replaceAll_append {old : List α} (hold : old ≠ []) (new l : List α) :
    replaceAll old new (old ++ l) = new ++ replaceAll old new l := by
  rw [replaceAll, pieces_append hold, intercalate_nil_cons new (pieces_ne_nil hold l), replaceAll]

theorem replaceAll_cons_of_not_front {old : List α} (hold : old ≠ []) (new : List α) {a : α}
    (h : ¬ old <+: a :: l) : replaceAll old new (a :: l) = a :: replaceAll old new l := by
  rw [replaceAll, pieces_cons_of_not_front h, intercalate_modifyHead new a (pieces_ne_nil hold l),
    replaceAll]

/-- No piece holds the separator. -/
theorem not_infix_of_mem_pieces (hsep : sep ≠ []) {p : List α} (hp : p ∈ pieces sep l) :
    ¬ sep <:+: p := by
  induction l using pieces_induction hsep generalizing p with
  | nil =>
    rw [pieces_nil, mem_singleton] at hp
    subst hp
    rw [infix_nil]
    exact hsep
  | append l ih =>
    rw [pieces_append hsep, mem_cons] at hp
    rcases hp with rfl | hp
    · rw [infix_nil]
      exact hsep
    · exact ih hp
  | cons a l hprefix ih =>
    obtain ⟨q, qs, hqs⟩ := exists_cons_of_ne_nil (pieces_ne_nil hsep l)
    rw [pieces_cons_of_not_front hprefix, hqs, modifyHead_cons, mem_cons] at hp
    rcases hp with rfl | hp
    · -- an occurrence at the front would begin the list
      rw [infix_cons_iff]
      rintro (hfront | hrest)
      · have hq : q <+: l := by
          have hall := intercalate_pieces hsep l
          rw [hqs] at hall
          exact hall ▸ head_prefix_intercalate sep
        exact hprefix (hfront.trans ((prefix_cons_inj a).mpr hq))
      · exact ih (hqs ▸ mem_cons_self) hrest
    · exact ih (hqs ▸ mem_cons_of_mem q hp)

/-- Every piece is part of the list. -/
theorem infix_of_mem_pieces (hsep : sep ≠ []) {p : List α} (hp : p ∈ pieces sep l) : p <:+: l := by
  induction l using pieces_induction hsep generalizing p with
  | nil =>
    rw [pieces_nil, mem_singleton] at hp
    exact hp ▸ infix_rfl
  | append l ih =>
    rw [pieces_append hsep, mem_cons] at hp
    rcases hp with rfl | hp
    · exact nil_infix
    · exact (ih hp).trans (suffix_append sep l).isInfix
  | cons a l hprefix ih =>
    obtain ⟨q, qs, hqs⟩ := exists_cons_of_ne_nil (pieces_ne_nil hsep l)
    have hall := intercalate_pieces hsep l
    rw [hqs] at hall
    rw [pieces_cons_of_not_front hprefix, hqs, modifyHead_cons, mem_cons] at hp
    rcases hp with rfl | hp
    · exact ((prefix_cons_inj a).mpr (hall ▸ head_prefix_intercalate sep)).isInfix
    · exact (ih (hqs ▸ mem_cons_of_mem q hp)).trans (suffix_cons a l).isInfix

theorem pieces_eq_singleton (hsep : sep ≠ []) (h : ¬ sep <:+: l) : pieces sep l = [l] := by
  induction l using pieces_induction hsep with
  | nil => rfl
  | append l _ => exact absurd (prefix_append sep l).isInfix h
  | cons a l hprefix ih =>
    rw [pieces_cons_of_not_front hprefix, ih fun hl => h (hl.trans (suffix_cons a l).isInfix),
      modifyHead_cons]

/-- Text without the separator is the first piece of what follows it up to the next separator. -/
theorem pieces_append_sep (hsep : sep ≠ []) (hborder : Borderless sep) {p : List α}
    (hp : ¬ sep <:+: p) (l : List α) : pieces sep (p ++ (sep ++ l)) = p :: pieces sep l := by
  induction p with
  | nil => exact pieces_append hsep l
  | cons a p ih =>
    have hrest := ih fun h => hp (h.trans (suffix_cons a p).isInfix)
    rw [cons_append, pieces_cons_of_not_front, hrest, modifyHead_cons]
    -- the front reaches into the next separator, so its rest is a border of it
    intro hprefix
    rw [← cons_append] at hprefix
    rcases prefix_or_prefix_of_prefix hprefix (prefix_append (a :: p) (sep ++ l)) with h | h
    · exact hp h.isInfix
    obtain ⟨rest, hrest⟩ := h
    have hne : rest ≠ [] := by
      rintro rfl
      rw [append_nil] at hrest
      exact hp (hrest ▸ infix_rfl)
    have hlength : rest.length < sep.length := by
      rw [← hrest, length_append, length_cons]
      omega
    have hfront : rest <+: sep ++ l := by
      rw [← prefix_append_right_inj (a :: p), hrest]
      exact hprefix
    have hborders : rest <+: sep :=
      prefix_of_prefix_length_le hfront (prefix_append sep l) hlength.le
    have heq := hborder rest hne (hrest ▸ suffix_append (a :: p) rest) hborders
    exact absurd (congrArg length heq) hlength.ne

/-- Pieces without the separator are found again. -/
theorem pieces_intercalate (hsep : sep ≠ []) (hborder : Borderless sep) {ps : List (List α)}
    (hne : ps ≠ []) (h : ∀ p ∈ ps, ¬ sep <:+: p) : pieces sep (sep.intercalate ps) = ps := by
  induction ps with
  | nil => exact absurd rfl hne
  | cons p ps ih =>
    rw [forall_mem_cons] at h
    cases ps with
    | nil => rw [intercalate_singleton, pieces_eq_singleton hsep h.1]
    | cons q ps =>
      rw [intercalate_cons_cons, append_assoc, pieces_append_sep hsep hborder h.1,
        ih (cons_ne_nil q ps) h.2]

end List
