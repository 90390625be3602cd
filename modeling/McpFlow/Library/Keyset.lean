import Mathlib.Data.List.Sort

/-!
# Keyset pagination

A scan reads the rows of a table in key order, page by page: each page begins behind the key of the
last row of the one before, and the rows that pass a filter are collected until there are enough.
Whatever the page size, this finds the first rows that pass, and it ends after at most as many pages
as there are rows.
-/

namespace Keyset

variable {α κ : Type} [LinearOrder κ] (key : α → κ)

/-- `ORDER BY key`. -/
def ordered (rows : List α) : List α := rows.insertionSort fun a b => key a ≤ key b

/-- The rows behind the cursor. -/
def after (cursor : Option κ) (rows : List α) : List α :=
  rows.filter fun a => cursor.all fun k => decide (k < key a)

/-- A page: the first `size` rows behind the cursor. -/
def page (size : ℕ) (cursor : Option κ) (rows : List α) : List α :=
  (ordered key (after key cursor rows)).take size

/-- The rows of a page that pass are added until there are `limit`. -/
def collect {α : Type} (p : α → Bool) (limit : ℕ) : List α → List α → List α
  | [], found => found
  | a :: rows, found =>
    if p a then
      if limit ≤ (found ++ [a]).length then found ++ [a] else collect p limit rows (found ++ [a])
    else collect p limit rows found

/-- The scan; `none` when the fuel is used up. -/
def scan (p : α → Bool) (limit size : ℕ) (rows : List α) :
    ℕ → Option κ → List α → Option (List α)
  | 0, _, _ => none
  | fuel + 1, cursor, found =>
    if limit ≤ found.length then some found
    else match (page key size cursor rows).getLast? with
      | none => some found
      | some last =>
        scan p limit size rows fuel (some (key last))
          (collect p limit (page key size cursor rows) found)

variable {key} {p : α → Bool} {rows : List α}

/-! ### Ordered rows -/

theorem perm_ordered (key : α → κ) (rows : List α) : (ordered key rows).Perm rows :=
  List.perm_insertionSort _ rows

@[simp] theorem mem_ordered {a : α} : a ∈ ordered key rows ↔ a ∈ rows :=
  (perm_ordered key rows).mem_iff

@[simp] theorem length_ordered : (ordered key rows).length = rows.length :=
  (perm_ordered key rows).length_eq

/-- Rows in the order of distinct keys. -/
def Increasing (key : α → κ) (rows : List α) : Prop := rows.Pairwise fun a b => key a < key b

theorem increasing_ordered (h : (rows.map key).Nodup) : Increasing key (ordered key rows) := by
  have htotal : Std.Total fun a b : α => key a ≤ key b := ⟨fun a b => le_total (key a) (key b)⟩
  have htrans : IsTrans α fun a b : α => key a ≤ key b := ⟨fun _ _ _ => le_trans⟩
  have hsorted := List.pairwise_insertionSort (fun a b : α => key a ≤ key b) rows
  have hnodup : (ordered key rows).Pairwise fun a b => key a ≠ key b :=
    List.pairwise_map.mp (((perm_ordered key rows).map key).nodup_iff.mpr h)
  exact (hsorted.and hnodup).imp fun h => lt_of_le_of_ne h.1 h.2

theorem Increasing.filter (h : Increasing key rows) (p : α → Bool) :
    Increasing key (rows.filter p) := List.Pairwise.filter p h

/-- The order of the rows is determined by their set. -/
theorem Increasing.eq_of_mem_iff {rows' : List α} (h : Increasing key rows)
    (h' : Increasing key rows') (hmem : ∀ a, a ∈ rows ↔ a ∈ rows') : rows = rows' := by
  have hnodup {l : List α} (hl : Increasing key l) : l.Nodup :=
    hl.imp fun hlt heq => absurd (congrArg key heq) hlt.ne
  have hpairwise : rows.Pairwise fun a b => key a < key b := h
  refine List.Perm.eq_of_pairwise ?_ hpairwise h'
    ((List.perm_ext_iff_of_nodup (hnodup h) (hnodup h')).mpr hmem)
  exact fun a b _ _ hab hba => absurd hba hab.not_gt

/-- A filter and the order commute. -/
theorem filter_ordered (h : (rows.map key).Nodup) (p : α → Bool) :
    (ordered key rows).filter p = ordered key (rows.filter p) := by
  have hsub : ((rows.filter p).map key).Nodup := h.sublist (List.filter_sublist.map key)
  refine ((increasing_ordered h).filter p).eq_of_mem_iff (increasing_ordered hsub) fun a => ?_
  simp only [List.mem_filter, mem_ordered]

/-- The rows behind the last key of a prefix are the rest. -/
theorem Increasing.after_eq {before rest : List α} {a : α}
    (h : Increasing key (before ++ a :: rest)) :
    (before ++ a :: rest).filter (fun b => decide (key a < key b)) = rest := by
  obtain ⟨-, hrest, hcross⟩ := List.pairwise_append.mp h
  have hbefore : before.filter (fun b => decide (key a < key b)) = [] :=
    List.filter_eq_nil_iff.mpr fun b hb => by
      have hlt := hcross b hb a List.mem_cons_self
      simpa using hlt.le
  have hafter : rest.filter (fun b => decide (key a < key b)) = rest :=
    List.filter_eq_self.mpr fun b hb => decide_eq_true ((List.pairwise_cons.mp hrest).1 b hb)
  rw [List.filter_append, hbefore, List.nil_append, List.filter_cons_of_neg (by simp), hafter]

/-! ### The scan -/

/-- What a page adds. -/
theorem collect_eq {limit : ℕ} (rows : List α) {found : List α} (h : found.length < limit) :
    collect p limit rows found = (found ++ rows.filter p).take limit := by
  induction rows generalizing found with
  | nil => rw [collect, List.filter_nil, List.append_nil, List.take_of_length_le h.le]
  | cons a rows ih =>
    rw [collect]
    by_cases hp : p a = true
    · have hstep : found ++ a :: rows.filter p = (found ++ [a]) ++ rows.filter p := by
        rw [List.append_assoc, List.singleton_append]
      rw [if_pos hp, List.filter_cons_of_pos hp, hstep]
      split
      · next hfull =>
        have hlength : (found ++ [a]).length = limit := by
          rw [List.length_append, List.length_singleton] at hfull ⊢
          omega
        rw [← hlength, List.take_left]
      · next hmore => exact ih (Nat.lt_of_not_le hmore)
    · rw [if_neg hp, List.filter_cons_of_neg hp]
      exact ih h

/-- The scan from a cursor: `before` are the rows already read, `rest` the others. -/
theorem scan_eq {limit size : ℕ} (hsize : 0 < size) (hkeys : (rows.map key).Nodup) (fuel : ℕ)
    {before rest found : List α} {cursor : Option κ} (hrows : ordered key rows = before ++ rest)
    (hcursor : cursor = before.getLast?.map key) (hfuel : rest.length < fuel)
    (hfound : found = (before.filter p).take limit) :
    scan key p limit size rows fuel cursor found =
      some (((ordered key rows).filter p).take limit) := by
  induction fuel generalizing before rest found cursor with
  | zero => exact absurd hfuel (Nat.not_lt_zero _)
  | succ fuel ih =>
    have hincreasing := increasing_ordered hkeys
    rw [scan]
    split
    · next hfull =>
      -- there are enough rows in what was read
      have hlength : limit ≤ (before.filter p).length := by
        rw [hfound, List.length_take] at hfull
        omega
      rw [hfound, hrows, List.filter_append, List.take_append_of_le_length hlength]
    next hmore =>
    have hmore : (before.filter p).length < limit := by
      rw [hfound, List.length_take] at hmore
      omega
    have hbefore : found = before.filter p := by rw [hfound, List.take_of_length_le hmore.le]
    have hpage : page key size cursor rows = rest.take size := by
      have hafter : ordered key (after key cursor rows) = rest := by
        rw [after, ← filter_ordered hkeys, hrows, hcursor]
        cases hlast : before.getLast? with
        | none =>
          rw [List.getLast?_eq_none_iff.mp hlast]
          exact List.filter_eq_self.mpr fun _ _ => rfl
        | some a =>
          obtain ⟨front, rfl⟩ := List.getLast?_eq_some_iff.mp hlast
          rw [hrows, List.append_assoc, List.singleton_append] at hincreasing
          rw [List.append_assoc, List.singleton_append]
          exact hincreasing.after_eq
      rw [page, hafter]
    rw [hpage]
    cases hrest : rest with
    | nil =>
      rw [List.take_nil]
      dsimp only [List.getLast?_nil]
      rw [hrows, hrest, List.append_nil, hfound]
    | cons a rest' =>
      have hne : (a :: rest').take size ≠ [] := by
        obtain ⟨n, rfl⟩ := Nat.exists_eq_add_one_of_ne_zero hsize.ne'
        rw [List.take_succ_cons]
        exact List.cons_ne_nil _ _
      obtain ⟨last, hlast⟩ := Option.isSome_iff_exists.mp (List.getLast?_isSome.mpr hne)
      rw [hlast]
      dsimp only
      have hsplit : ordered key rows =
          (before ++ (a :: rest').take size) ++ (a :: rest').drop size := by
        rw [hrows, hrest, List.append_assoc, List.take_append_drop]
      refine ih hsplit ?_ ?_ ?_
      · rw [List.getLast?_append, hlast]
        rfl
      · rw [hrest] at hfuel
        rw [List.length_drop]
        rw [List.length_cons] at hfuel ⊢
        omega
      · rw [collect_eq _ (hbefore ▸ hmore), hbefore, List.filter_append]

/-- The scan finds the first rows that pass, whatever the page size. -/
theorem scan_start {limit size fuel : ℕ} (hsize : 0 < size) (hkeys : (rows.map key).Nodup)
    (hfuel : rows.length < fuel) :
    scan key p limit size rows fuel none [] =
      some (((ordered key rows).filter p).take limit) :=
  scan_eq hsize hkeys fuel (List.nil_append _).symm rfl (length_ordered.trans_lt hfuel)
    List.take_nil.symm

/-! ### Two sources -/

/-- The first rows of a filter are among the first rows. -/
theorem filter_take_front (l : List α) (n : ℕ) :
    (l.take n).filter p <+: (l.filter p).take n := by
  have hsplit : l.filter p = (l.take n).filter p ++ (l.drop n).filter p := by
    rw [← List.filter_append, List.take_append_drop]
  rw [hsplit, List.take_append]
  have hlength : ((l.take n).filter p).length ≤ n :=
    (List.length_filter_le ..).trans (List.length_take_le ..)
  rw [List.take_of_length_le hlength]
  exact List.prefix_append _ _

/-- Rows in order that hold the first `n` of a list have them in front. -/
theorem Increasing.take_eq {found all : List α} {n : ℕ} (hfound : Increasing key found)
    (hall : Increasing key all) (hsub : ∀ a ∈ found, a ∈ all) (hfirst : ∀ a ∈ all.take n, a ∈ found)
    [DecidableEq α] : found.take n = all.take n := by
  have heq : found = all.filter (· ∈ found) :=
    hfound.eq_of_mem_iff (hall.filter _) fun a => by
      rw [List.mem_filter, decide_eq_true_eq]
      exact ⟨fun ha => ⟨hsub a ha, ha⟩, And.right⟩
  have hkeep : (all.take n).filter (· ∈ found) = all.take n :=
    List.filter_eq_self.mpr fun a ha => decide_eq_true (hfirst a ha)
  have hsplit : all.filter (· ∈ found) = all.take n ++ (all.drop n).filter (· ∈ found) := by
    rw [← hkeep, ← List.filter_append, List.take_append_drop]
  rw [heq, hsplit, List.take_append]
  by_cases hn : n ≤ all.length
  · rw [List.length_take, Nat.min_eq_left hn, Nat.sub_self, List.take_zero, List.append_nil,
      List.take_take, Nat.min_self]
  · rw [List.drop_eq_nil_of_le (Nat.le_of_not_le hn), List.filter_nil, List.take_nil,
      List.append_nil, List.take_take, Nat.min_self]

/-- The first occurrence of each row, behind the rows already found. -/
def distinct [DecidableEq α] : List α → List α → List α
  | [], found => found
  | a :: rows, found =>
    if a ∈ found then distinct rows found else distinct rows (found ++ [a])

section Distinct

variable [DecidableEq α] {found : List α} {a : α}

theorem mem_distinct : a ∈ distinct rows found ↔ a ∈ found ∨ a ∈ rows := by
  induction rows generalizing found with
  | nil => simp [distinct]
  | cons b rows ih =>
    rw [distinct]
    split
    · next hb =>
      rw [ih, List.mem_cons]
      refine ⟨fun h => h.imp_right .inr, fun h => ?_⟩
      rcases h with h | rfl | h
      · exact .inl h
      · exact .inl hb
      · exact .inr h
    · rw [ih, List.mem_append, List.mem_singleton, List.mem_cons, or_assoc]

variable (rows found) in
/-- The rows already found stay in front. -/
theorem prefix_distinct : found <+: distinct rows found := by
  induction rows generalizing found with
  | nil => exact List.prefix_rfl
  | cons b rows ih =>
    rw [distinct]
    split
    · exact ih _
    · exact (List.prefix_append found [b]).trans (ih _)

/-- Rows in order keep it when repeated rows are left out. -/
theorem increasing_distinct (hinj : Set.InjOn key {a | a ∈ found ++ rows})
    (hfound : Increasing key found) (hrows : (found ++ rows).Pairwise fun a b => key a ≤ key b) :
    Increasing key (distinct rows found) := by
  induction rows generalizing found with
  | nil => exact hfound
  | cons b rows ih =>
    rw [distinct]
    split
    · have hsub : (found ++ rows).Sublist (found ++ b :: rows) :=
        (List.sublist_cons_self b rows).append_left found
      exact ih (hinj.mono fun a ha => hsub.subset ha) hfound (hrows.sublist hsub)
    · next hb =>
      have hsplit : found ++ b :: rows = (found ++ [b]) ++ rows := by
        rw [List.append_assoc, List.singleton_append]
      refine ih (hsplit ▸ hinj) ?_ (hsplit ▸ hrows)
      refine List.pairwise_append.mpr ⟨hfound, List.pairwise_singleton _ _, fun a ha c hc => ?_⟩
      rw [List.mem_singleton] at hc
      subst hc
      have hle := (List.pairwise_append.mp hrows).2.2 a ha c List.mem_cons_self
      refine lt_of_le_of_ne hle fun heq => hb ?_
      have hac := hinj (List.mem_append_left _ ha)
        (List.mem_append_right found List.mem_cons_self) heq
      exact hac ▸ ha

end Distinct

end Keyset
