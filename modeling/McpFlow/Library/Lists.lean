import Mathlib.Algebra.GroupWithZero.Nat
import Mathlib.Data.List.Basic
import Mathlib.Data.List.Forall2
import Mathlib.Algebra.Order.BigOperators.Group.List
import Mathlib.Algebra.Order.Group.Nat

/-!
# List lemmas

Facts about lists of rows: results of a partial map, checks that run over a list.
-/

namespace List

variable {α β ε : Type}

/-- Every result of a partial map comes from an element. -/
theorem mem_of_mapM_eq_some {f : α → Option β} {l : List α} {ys : List β} {y : β}
    (h : l.mapM f = some ys) (hy : y ∈ ys) : ∃ x ∈ l, f x = some y := by
  induction l generalizing ys with
  | nil =>
    simp only [mapM_nil, pure, Option.some.injEq] at h
    subst h
    cases hy
  | cons x l ih =>
    simp only [mapM_cons, bind, Option.bind_eq_some_iff, pure, Option.some.injEq] at h
    obtain ⟨z, hz, zs, hzs, rfl⟩ := h
    rcases mem_cons.mp hy with rfl | hy
    · exact ⟨x, mem_cons_self, hz⟩
    · obtain ⟨x', hx', hfx'⟩ := ih hzs hy
      exact ⟨x', mem_cons_of_mem x hx', hfx'⟩

/-- Every element has its result. -/
theorem exists_mem_of_mapM_eq_some {f : α → Option β} {l : List α} {ys : List β} {x : α}
    (h : l.mapM f = some ys) (hx : x ∈ l) : ∃ y ∈ ys, f x = some y := by
  induction l generalizing ys with
  | nil => cases hx
  | cons z l ih =>
    simp only [mapM_cons, bind, Option.bind_eq_some_iff, pure, Option.some.injEq] at h
    obtain ⟨y, hy, zs, hzs, rfl⟩ := h
    rcases mem_cons.mp hx with rfl | htail
    · exact ⟨y, mem_cons_self, hy⟩
    · obtain ⟨y', hy', hfy'⟩ := ih hzs htail
      exact ⟨y', mem_cons_of_mem y hy', hfy'⟩

/-- A partial map gives the results element by element. -/
theorem forall₂_of_mapM_eq_some {f : α → Option β} {l : List α} {ys : List β}
    (h : l.mapM f = some ys) : Forall₂ (fun x y => f x = some y) l ys := by
  induction l generalizing ys with
  | nil =>
    simp only [mapM_nil, pure, Option.some.injEq] at h
    subst h
    exact .nil
  | cons x l ih =>
    simp only [mapM_cons, bind, Option.bind_eq_some_iff, pure, Option.some.injEq] at h
    obtain ⟨z, hz, zs, hzs, rfl⟩ := h
    exact .cons hz (ih hzs)

/-- A partial map that reads back what was written. -/
theorem mapM_map_eq_some {f : α → Option β} {g : β → α} {l : List β}
    (h : ∀ y ∈ l, f (g y) = some y) : (l.map g).mapM f = some l := by
  induction l with
  | nil => rfl
  | cons y l ih =>
    rw [map_cons, mapM_cons, h y mem_cons_self, ih fun z hz => h z (mem_cons_of_mem y hz)]
    rfl

/-- A check that every element passes runs through the list. -/
theorem forM_eq_ok {check : α → Except ε Unit} {l : List α} (h : ∀ x ∈ l, check x = .ok ()) :
    l.forM check = .ok () := by
  induction l with
  | nil => rfl
  | cons x l ih =>
    have htail := ih fun y hy => h y (mem_cons_of_mem x hy)
    rw [forM_eq_forM] at htail ⊢
    rw [forM_cons, h x mem_cons_self]
    exact htail

/-- A check runs through the list when every element passes it. -/
theorem forM_eq_ok_iff {check : α → Except ε Unit} {l : List α} :
    l.forM check = .ok () ↔ ∀ x ∈ l, check x = .ok () := by
  refine ⟨fun h => ?_, forM_eq_ok⟩
  induction l with
  | nil => exact forall_mem_nil _
  | cons x l ih =>
    rw [forM_eq_forM, forM_cons] at h
    cases hx : check x with
    | error e =>
      rw [hx] at h
      cases h
    | ok u =>
      rw [hx] at h
      exact forall_mem_cons.mpr ⟨hx, ih h⟩

/-- A fallible map gives the results element by element. -/
theorem forall₂_of_mapM_eq_ok {f : α → Except ε β} {l : List α} {ys : List β}
    (h : l.mapM f = .ok ys) : Forall₂ (fun x y => f x = .ok y) l ys := by
  induction l generalizing ys with
  | nil =>
    cases h
    exact .nil
  | cons x l ih =>
    rw [mapM_cons] at h
    cases hx : f x with
    | error e =>
      rw [hx] at h
      cases h
    | ok y =>
      cases hl : l.mapM f with
      | error e =>
        rw [hx, hl] at h
        cases h
      | ok zs =>
        rw [hx, hl] at h
        cases h
        exact .cons hx (ih hl)

/-- A fallible map whose results are a function of the elements. -/
theorem mapM_eq_ok_iff {f : α → Except ε β} {g : α → β} {l : List α}
    (h : ∀ x ∈ l, ∀ y, f x = .ok y → y = g x) {ys : List β} :
    l.mapM f = .ok ys ↔ (∀ x ∈ l, f x = .ok (g x)) ∧ ys = l.map g := by
  constructor
  · intro hmap
    have hpairs := forall₂_of_mapM_eq_ok hmap
    clear hmap
    induction hpairs with
    | nil => exact ⟨forall_mem_nil _, rfl⟩
    | @cons x y l ys hxy _ ih =>
      rw [forall_mem_cons] at h
      obtain ⟨hall, rfl⟩ := ih h.2
      obtain rfl := h.1 y hxy
      exact ⟨forall_mem_cons.mpr ⟨hxy, hall⟩, rfl⟩
  · rintro ⟨hall, rfl⟩
    clear h
    induction l with
    | nil => rfl
    | cons x l ih =>
      rw [forall_mem_cons] at hall
      rw [mapM_cons, hall.1, ih hall.2]
      rfl

/-- A fallible map with a result for every element. -/
theorem mapM_eq_ok_of_forall₂ {f : α → Except ε β} {l : List α} {ys : List β}
    (h : Forall₂ (fun x y => f x = .ok y) l ys) : l.mapM f = .ok ys := by
  induction h with
  | nil => rfl
  | cons hx _ ih =>
    rw [mapM_cons, hx, ih]
    rfl

/-- A fallible map succeeds when every element has a result. -/
theorem exists_mapM_eq_ok_iff {f : α → Except ε β} {l : List α} :
    (∃ ys, l.mapM f = .ok ys) ↔ ∀ x ∈ l, ∃ y, f x = .ok y := by
  constructor
  · rintro ⟨ys, h⟩ x hx
    have hpairs := forall₂_of_mapM_eq_ok h
    clear h
    induction hpairs with
    | nil => cases hx
    | cons hy _ ih =>
      rcases mem_cons.mp hx with rfl | htail
      · exact ⟨_, hy⟩
      · exact ih htail
  · intro h
    induction l with
    | nil => exact ⟨[], rfl⟩
    | cons x l ih =>
      obtain ⟨y, hy⟩ := h x mem_cons_self
      obtain ⟨ys, hys⟩ := ih fun z hz => h z (mem_cons_of_mem x hz)
      exact ⟨y :: ys, mapM_eq_ok_of_forall₂ (.cons hy (forall₂_of_mapM_eq_ok hys))⟩

/-- A filter commutes with a map that does not change what it looks at. -/
theorem filter_map_of_forall {f : α → α} {p : α → Bool} {l : List α}
    (h : ∀ x ∈ l, p (f x) = p x) : (l.map f).filter p = (l.filter p).map f := by
  rw [filter_map]
  exact congrArg (map f) (filter_congr h)

/-- A partial map whose results lead back to their elements. -/
theorem map_filterMap_of_forall {f : α → Option β} {g : β → α} {l : List α}
    (h : ∀ x ∈ l, ∃ y, f x = some y ∧ g y = x) : (l.filterMap f).map g = l := by
  induction l with
  | nil => rfl
  | cons x l ih =>
    rw [forall_mem_cons] at h
    obtain ⟨⟨y, hy, hx⟩, hrest⟩ := h
    rw [filterMap_cons_some hy, map_cons, hx, ih hrest]

/-- A search that at most one element can end. -/
theorem find?_eq_some_iff_of_unique {p : α → Bool} {l : List α} {a : α}
    (h : ∀ x ∈ l, ∀ y ∈ l, p x = true → p y = true → x = y) :
    l.find? p = some a ↔ a ∈ l ∧ p a = true := by
  constructor
  · intro hfind
    exact ⟨mem_of_find?_eq_some hfind, find?_some hfind⟩
  · rintro ⟨ha, hpa⟩
    cases hfind : l.find? p with
    | none => exact absurd hpa (find?_eq_none.mp hfind a ha)
    | some b => rw [h b (mem_of_find?_eq_some hfind) a ha (find?_some hfind) hpa]

/-- Every element on the right has a partner. -/
theorem exists_left_of_forall₂ {r : α → β → Prop} {l : List α} {m : List β} (h : Forall₂ r l m)
    {b : β} (hb : b ∈ m) : ∃ a ∈ l, r a b := by
  induction h with
  | nil => cases hb
  | cons hab _ ih =>
    rcases mem_cons.mp hb with rfl | hb
    · exact ⟨_, mem_cons_self, hab⟩
    · obtain ⟨a, ha, hr⟩ := ih hb
      exact ⟨a, mem_cons_of_mem _ ha, hr⟩

/-- Every element on the left has a partner. -/
theorem exists_right_of_forall₂ {r : α → β → Prop} {l : List α} {m : List β} (h : Forall₂ r l m)
    {a : α} (ha : a ∈ l) : ∃ b ∈ m, r a b :=
  exists_left_of_forall₂ h.flip ha

/-- A map of a list into itself that makes no element larger and takes no value twice keeps the
sizes: its values are the list in another order. -/
theorem size_eq_of_map_nodup {f : α → α} (size : α → ℕ) {l : List α}
    (hle : ∀ a ∈ l, size (f a) ≤ size a) (hnodup : (l.map f).Nodup) (hsub : ∀ a ∈ l, f a ∈ l) :
    ∀ a ∈ l, size (f a) = size a := by
  have hsubset : l.map f ⊆ l := fun b hb => by
    obtain ⟨a, ha, rfl⟩ := mem_map.mp hb
    exact hsub a ha
  have hperm : l.map f ~ l :=
    (subperm_of_subset hnodup hsubset).perm_of_length_le (length_map f).ge
  have hsum : (l.map fun a => size (f a)).sum = (l.map size).sum := by
    rw [← (hperm.map size).sum_eq, map_map]
    rfl
  intro a ha
  by_contra hne
  exact hsum.not_lt (sum_lt_sum _ _ hle ⟨a, ha, lt_of_le_of_ne (hle a ha) hne⟩)

/-! ### The maximum of a list -/

/-- The running maximum is at least its start and every element. -/
theorem le_foldl_max {l : List ℕ} {a n : ℕ} (h : n ≤ a ∨ n ∈ l) : n ≤ l.foldl max a := by
  induction l generalizing a with
  | nil => exact h.resolve_right not_mem_nil
  | cons b l ih =>
    rcases h with h | h
    · exact ih (.inl (h.trans (Nat.le_max_left a b)))
    rcases mem_cons.mp h with rfl | h
    · exact ih (.inl (Nat.le_max_right a n))
    · exact ih (.inr h)

/-- The running maximum is at most every bound of its start and elements. -/
theorem foldl_max_le {l : List ℕ} {a b : ℕ} (ha : a ≤ b) (hl : ∀ n ∈ l, n ≤ b) :
    l.foldl max a ≤ b := by
  induction l generalizing a with
  | nil => exact ha
  | cons n l ih =>
    exact ih (Nat.max_le.mpr ⟨ha, hl n mem_cons_self⟩) fun m hm => hl m (mem_cons_of_mem n hm)

/-- A reading of the state that no step of a fold changes. -/
theorem apply_foldl_eq {γ : Type} {f : β → α → β} {g : β → γ} (h : ∀ b a, g (f b a) = g b)
    (l : List α) (b : β) : g (l.foldl f b) = g b := by
  induction l generalizing b with
  | nil => rfl
  | cons a l ih => rw [foldl_cons, ih, h]

/-! ### Sums -/

/-- A sum whose terms do not grow, and one of them falls by `b`, falls by `b`. -/
theorem sum_map_add_le {l : List α} {f g : α → ℕ} {a : α} {b : ℕ} (ha : a ∈ l)
    (hle : ∀ x ∈ l, f x ≤ g x) (hfall : f a + b ≤ g a) : (l.map f).sum + b ≤ (l.map g).sum := by
  induction l with
  | nil => exact absurd ha not_mem_nil
  | cons x l ih =>
    rw [map_cons, map_cons, sum_cons, sum_cons]
    have htail : ∀ y ∈ l, f y ≤ g y := fun y hy => hle y (mem_cons_of_mem x hy)
    rcases mem_cons.mp ha with rfl | ha
    · have hsum := sum_le_sum htail
      omega
    · have hhead := hle x mem_cons_self
      have hsum := ih ha htail
      omega

/-- Terms that vanish outside a filter add up to at most the filtered sum. -/
theorem sum_map_le_filter {l : List α} {f : α → ℕ} {p : α → Bool}
    (h : ∀ x ∈ l, p x = false → f x = 0) : (l.map f).sum ≤ ((l.filter p).map f).sum := by
  induction l with
  | nil => exact le_rfl
  | cons x l ih =>
    have hrest := ih fun y hy => h y (mem_cons_of_mem x hy)
    rw [map_cons, sum_cons]
    cases hp : p x with
    | true =>
      rw [filter_cons_of_pos hp, map_cons, sum_cons]
      omega
    | false =>
      rw [filter_cons_of_neg (by simp [hp]), h x mem_cons_self hp]
      omega

/-- Related lists have sums in the same order. -/
theorem sum_map_le_of_forall₂ {l : List α} {m : List ℕ} {f : α → ℕ}
    (h : Forall₂ (fun x n => f x ≤ n) l m) : (l.map f).sum ≤ m.sum := by
  induction h with
  | nil => exact le_rfl
  | cons hle _ ih =>
    rw [map_cons, sum_cons, sum_cons]
    omega

/-! ### Counts -/

/-- Rewriting the elements of `m` adds at most one passing element for each of them. -/
theorem countP_map_ite_le [DecidableEq α] {l m : List α} {f : α → α} {p : α → Bool}
    (hl : l.Nodup) :
    (l.map fun x => if x ∈ m then f x else x).countP p ≤ l.countP p + m.length := by
  have hmarked : l.countP (· ∈ m) ≤ m.length := by
    rw [countP_eq_length_filter]
    exact Nodup.length_le_of_subset (hl.filter _) fun x hx => of_decide_eq_true (mem_filter.mp hx).2
  have hsplit : ∀ l' : List α, (l'.map fun x => if x ∈ m then f x else x).countP p ≤
      l'.countP p + l'.countP (· ∈ m) := by
    intro l'
    induction l' with
    | nil => exact le_rfl
    | cons x l' ih =>
      rw [map_cons, countP_cons, countP_cons, countP_cons]
      by_cases hx : x ∈ m
      · rw [if_pos hx, if_pos (decide_eq_true hx)]
        have hone : (if p (f x) = true then 1 else 0) ≤ 1 := by split <;> omega
        omega
      · have hout : ¬decide (x ∈ m) = true := by simpa using hx
        rw [if_neg hx, if_neg hout]
        omega
  exact (hsplit l).trans (Nat.add_le_add_left hmarked _)

end List
