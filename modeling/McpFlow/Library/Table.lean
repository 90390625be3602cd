import Mathlib.Algebra.GroupWithZero.Nat
import Mathlib.Algebra.BigOperators.Group.List.Basic
import Mathlib.Data.List.Basic
import Mathlib.Data.List.Induction
import Mathlib.Data.List.Nodup

/-!
# Tables of rows with distinct keys

A table keeps its rows in insertion order and the proof that no two of them share a key. A row is
replaced by `put`, every row is rewritten by `mapRows`, a new row enters through `insert?`. The
lemmas give membership, lookup and filters after each of the three.
-/

universe u v

/-- Rows with distinct keys, in insertion order. -/
structure Table {ρ : Type u} {κ : Type v} (key : ρ → κ) where
  rows : List ρ
  nodup_keys : (rows.map key).Nodup

namespace Table

variable {ρ : Type u} {κ : Type v} {key : ρ → κ}

@[ext] theorem ext {t t' : Table key} (h : t.rows = t'.rows) : t = t' := by
  cases t
  cases t'
  cases h
  rfl

instance : Membership ρ (Table key) := ⟨fun t r => r ∈ t.rows⟩

theorem mem_def {t : Table key} {r : ρ} : r ∈ t ↔ r ∈ t.rows := Iff.rfl

/-- The table without rows. -/
def empty : Table key := ⟨[], List.nodup_nil⟩

@[simp] theorem rows_empty : (empty : Table key).rows = [] := rfl

theorem eq_of_key_eq {t : Table key} {r s : ρ} (hr : r ∈ t) (hs : s ∈ t) (h : key r = key s) :
    r = s :=
  List.inj_on_of_nodup_map t.nodup_keys hr hs h

theorem nodup_rows (t : Table key) : t.rows.Nodup := .of_map key t.nodup_keys

/-- A table whose passing rows are old has no more of them. -/
theorem countP_le_of_forall {t t' : Table key} {p : ρ → Bool} (h : ∀ r ∈ t', p r = true → r ∈ t) :
    t'.rows.countP p ≤ t.rows.countP p := by
  rw [List.countP_eq_length_filter, List.countP_eq_length_filter]
  refine List.Nodup.length_le_of_subset (t'.nodup_rows.filter p) fun r hr => ?_
  obtain ⟨hmem, hp⟩ := List.mem_filter.mp hr
  exact List.mem_filter.mpr ⟨h r hmem hp, hp⟩

variable [DecidableEq κ]

/-! ### Lookup -/

/-- The row with key `k`. -/
def find? (t : Table key) (k : κ) : Option ρ := t.rows.find? fun r => key r = k

theorem find?_eq_some_iff {t : Table key} {k : κ} {r : ρ} :
    t.find? k = some r ↔ r ∈ t ∧ key r = k := by
  constructor
  · intro h
    exact ⟨List.mem_of_find?_eq_some h, by simpa using List.find?_some h⟩
  · rintro ⟨hr, rfl⟩
    cases hf : t.find? (key r) with
    | none =>
      have := List.find?_eq_none.mp hf r hr
      simp at this
    | some s =>
      have hs : s ∈ t := List.mem_of_find?_eq_some hf
      have hk : key s = key r := by simpa using List.find?_some hf
      rw [eq_of_key_eq hs hr hk]

theorem mem_of_find? {t : Table key} {k : κ} {r : ρ} (h : t.find? k = some r) : r ∈ t :=
  (find?_eq_some_iff.mp h).1

theorem key_of_find? {t : Table key} {k : κ} {r : ρ} (h : t.find? k = some r) : key r = k :=
  (find?_eq_some_iff.mp h).2

theorem find?_key_of_mem {t : Table key} {r : ρ} (h : r ∈ t) : t.find? (key r) = some r :=
  find?_eq_some_iff.mpr ⟨h, rfl⟩

theorem getD_find?_mem {t : Table key} {r : ρ} {k : κ} (h : r ∈ t) (hk : key r = k) (d : ρ) :
    (t.find? k).getD d ∈ t := by
  rw [find?_eq_some_iff.mpr ⟨h, hk⟩]
  exact h

theorem find?_eq_none_iff {t : Table key} {k : κ} : t.find? k = none ↔ ∀ r ∈ t, key r ≠ k := by
  simp only [find?, List.find?_eq_none, decide_eq_true_eq, mem_def, ne_eq]

/-! ### Rewriting every row -/

omit [DecidableEq κ] in
private theorem map_key_map {f : ρ → ρ} (hf : ∀ r, key (f r) = key r) (l : List ρ) :
    (l.map f).map key = l.map key := by
  rw [List.map_map]
  exact List.map_congr_left fun r _ => hf r

omit [DecidableEq κ] in
/-- Rewrite every row, keeping its key. -/
def mapRows (t : Table key) (f : ρ → ρ) (hf : ∀ r, key (f r) = key r) : Table key where
  rows := t.rows.map f
  nodup_keys := by
    rw [map_key_map hf]
    exact t.nodup_keys

section MapRows

omit [DecidableEq κ]

variable {t : Table key} {f : ρ → ρ} {hf : ∀ r, key (f r) = key r}

@[simp] theorem rows_mapRows : (t.mapRows f hf).rows = t.rows.map f := rfl

@[simp] theorem mem_mapRows {r : ρ} : r ∈ t.mapRows f hf ↔ ∃ s ∈ t, f s = r := List.mem_map

theorem forall_mem_mapRows {p : ρ → Prop} :
    (∀ r ∈ t.mapRows f hf, p r) ↔ ∀ r ∈ t, p (f r) := by
  simp only [mem_mapRows, forall_exists_index, and_imp, forall_apply_eq_imp_iff₂]

theorem mapRows_eq_self (h : ∀ r ∈ t, f r = r) : t.mapRows f hf = t :=
  ext ((List.map_congr_left h).trans (List.map_id _))

end MapRows

omit [DecidableEq κ] in
/-- A row stays in the table exactly when it is not rewritten. -/
theorem mem_mapRows_self_iff {t : Table key} {f : ρ → ρ} (hf : ∀ r, key (f r) = key r) {r : ρ}
    (hr : r ∈ t) : r ∈ t.mapRows f hf ↔ f r = r := by
  rw [mem_mapRows]
  constructor
  · rintro ⟨s, hs, hsr⟩
    have hkey : key s = key r := by rw [← hf s, hsr]
    rwa [eq_of_key_eq hs hr hkey] at hsr
  · exact fun h => ⟨r, hr, h⟩

@[simp] theorem find?_mapRows {t : Table key} {f : ρ → ρ} {hf : ∀ r, key (f r) = key r} (k : κ) :
    (t.mapRows f hf).find? k = (t.find? k).map f := by
  simp only [find?, rows_mapRows, List.find?_map, Function.comp_def, hf]

/-! ### Replacing a row -/

/-- Store `r` over the row with its key, if there is one. -/
def put (t : Table key) (r : ρ) : Table key :=
  t.mapRows (fun s => if key s = key r then r else s) fun s => by
    by_cases h : key s = key r
    · rw [if_pos h, h]
    · rw [if_neg h]

theorem rows_put (t : Table key) (r : ρ) :
    (t.put r).rows = t.rows.map fun s => if key s = key r then r else s := rfl

theorem mem_put {t : Table key} {r s : ρ} (h : s ∈ t.put r) : s = r ∨ (s ∈ t ∧ key s ≠ key r) := by
  obtain ⟨s', hs', rfl⟩ := mem_mapRows.mp h
  by_cases hk : key s' = key r
  · exact .inl (if_pos hk)
  · rw [if_neg hk]
    exact .inr ⟨hs', hk⟩

theorem mem_put_self {t : Table key} {r s : ρ} (hs : s ∈ t) (h : key s = key r) : r ∈ t.put r :=
  mem_mapRows.mpr ⟨s, hs, if_pos h⟩

theorem mem_put_of_ne {t : Table key} {r s : ρ} (hs : s ∈ t) (h : key s ≠ key r) : s ∈ t.put r :=
  mem_mapRows.mpr ⟨s, hs, if_neg h⟩

theorem mem_put_iff {t : Table key} {r s x : ρ} (hx : x ∈ t) (h : key x = key r) :
    s ∈ t.put r ↔ s = r ∨ (s ∈ t ∧ key s ≠ key r) := by
  constructor
  · exact mem_put
  · rintro (rfl | ⟨hs, hne⟩)
    · exact mem_put_self hx h
    · exact mem_put_of_ne hs hne

theorem forall_mem_put {t : Table key} {r : ρ} {p : ρ → Prop} (hr : p r)
    (h : ∀ s ∈ t, key s ≠ key r → p s) : ∀ s ∈ t.put r, p s := by
  intro s hs
  rcases mem_put hs with rfl | ⟨hs, hne⟩
  · exact hr
  · exact h s hs hne

theorem find?_put_self {t : Table key} {r s : ρ} (h : t.find? (key r) = some s) :
    (t.put r).find? (key r) = some r := by
  rw [put, find?_mapRows, h, Option.map_some, if_pos (key_of_find? h)]

/-- A row that replaces the one of its key is found there. -/
theorem find?_put_of_find? {t : Table key} {k : κ} {r s : ρ} (h : t.find? k = some s)
    (hkey : key r = key s) : (t.put r).find? k = some r := by
  have hk : key r = k := hkey.trans (key_of_find? h)
  subst hk
  exact find?_put_self h

theorem find?_put_of_ne {t : Table key} {r : ρ} {k : κ} (h : k ≠ key r) :
    (t.put r).find? k = t.find? k := by
  rw [put, find?_mapRows]
  cases hf : t.find? k with
  | none => rfl
  | some s => rw [Option.map_some, if_neg (by rw [key_of_find? hf]; exact h)]

theorem put_of_mem {t : Table key} {r : ρ} (h : r ∈ t) : t.put r = t :=
  mapRows_eq_self fun s hs => by
    by_cases hk : key s = key r
    · rw [if_pos hk, eq_of_key_eq hs h hk]
    · rw [if_neg hk]

/-- The later of two rows with one key is stored. -/
theorem put_put {t : Table key} {r s : ρ} (h : key r = key s) : (t.put r).put s = t.put s := by
  refine ext ?_
  rw [rows_put, rows_put, rows_put, List.map_map]
  refine List.map_congr_left fun x _ => ?_
  simp only [Function.comp_apply]
  by_cases hx : key x = key r
  · rw [if_pos hx, if_pos h, if_pos (hx.trans h)]
  · rw [if_neg hx]

/-- Rows with different keys are stored in either order. -/
theorem put_comm {t : Table key} {r s : ρ} (h : key r ≠ key s) :
    (t.put r).put s = (t.put s).put r := by
  refine ext ?_
  simp only [rows_put, List.map_map]
  refine List.map_congr_left fun x _ => ?_
  simp only [Function.comp_apply]
  by_cases hr : key x = key r
  · have hs : key x ≠ key s := hr ▸ h
    rw [if_pos hr, if_neg h, if_neg hs, if_pos hr]
  · rw [if_neg hr]
    by_cases hs : key x = key s
    · rw [if_pos hs, if_neg h.symm]
    · rw [if_neg hs, if_neg hr]

/-- The sum of a weight over the rows when one of them is replaced. -/
theorem sum_map_put {t : Table key} {r s : ρ} (w : ρ → ℕ) (hs : s ∈ t) (h : key r = key s) :
    ((t.put r).rows.map w).sum + w s = (t.rows.map w).sum + w r := by
  obtain ⟨l₁, l₂, hrows⟩ := List.append_of_mem hs
  have hnodup := t.nodup_keys
  rw [hrows, List.map_append, List.map_cons, List.nodup_append] at hnodup
  obtain ⟨-, hright, hdisjoint⟩ := hnodup
  have hleft : ∀ x ∈ l₁, key x ≠ key r := fun x hx hkey =>
    hdisjoint _ (List.mem_map_of_mem hx) _ List.mem_cons_self (hkey.trans h)
  have hright : ∀ x ∈ l₂, key x ≠ key r := fun x hx hkey =>
    (List.nodup_cons.mp hright).1 (List.mem_map.mpr ⟨x, hx, hkey.trans h⟩)
  have hl₁ : (l₁.map fun s => if key s = key r then r else s) = l₁ := by
    refine (List.map_congr_left fun x hx => if_neg (hleft x hx)).trans (List.map_id' l₁)
  have hl₂ : (l₂.map fun s => if key s = key r then r else s) = l₂ := by
    refine (List.map_congr_left fun x hx => if_neg (hright x hx)).trans (List.map_id' l₂)
  rw [rows_put, hrows, List.map_append, List.map_cons, hl₁, hl₂, if_pos h.symm]
  simp only [List.map_append, List.map_cons, List.sum_append, List.sum_cons]
  omega
/-- Rows of the table that are stored one after another, each rewritten. -/
theorem foldl_put [DecidableEq ρ] {f : ρ → ρ} (hf : ∀ r, key (f r) = key r) (t : Table key)
    {l : List ρ} (h : ∀ r ∈ l, r ∈ t) :
    l.foldl (fun t r => t.put (f r)) t =
      t.mapRows (fun r => if r ∈ l then f r else r) fun r => by split <;> simp [hf] := by
  induction l using List.reverseRecOn with
  | nil => exact (mapRows_eq_self fun r _ => if_neg List.not_mem_nil).symm
  | append_singleton l s ih =>
    rw [List.foldl_append, List.foldl_cons, List.foldl_nil,
      ih fun r hr => h r (List.mem_append_left [s] hr)]
    have hs : s ∈ t := h s (List.mem_append_right l List.mem_cons_self)
    refine ext ?_
    rw [rows_put, rows_mapRows, rows_mapRows, List.map_map]
    refine List.map_congr_left fun r hr => ?_
    have hkey : key (if r ∈ l then f r else r) = key r := by split <;> simp [hf]
    simp only [Function.comp_apply, hkey, hf, List.mem_append, List.mem_singleton]
    by_cases hrs : key r = key s
    · have hrs : r = s := eq_of_key_eq hr hs hrs
      simp [hrs]
    · have hne : r ≠ s := fun h => hrs (h ▸ rfl)
      simp [hrs, hne]

/-! ### Removing a row -/

/-- The rows without the one of a key. -/
def erase (t : Table key) (k : κ) : Table key where
  rows := t.rows.filter fun r => key r ≠ k
  nodup_keys := t.nodup_keys.sublist (List.filter_sublist.map key)

@[simp] theorem mem_erase {t : Table key} {k : κ} {r : ρ} : r ∈ t.erase k ↔ r ∈ t ∧ key r ≠ k := by
  simp [mem_def, erase]

/-- The rows that pass a test. -/
def filter (t : Table key) (p : ρ → Bool) : Table key where
  rows := t.rows.filter p
  nodup_keys := t.nodup_keys.sublist (List.filter_sublist.map key)

omit [DecidableEq κ] in
@[simp] theorem mem_filter {t : Table key} {p : ρ → Bool} {r : ρ} :
    r ∈ t.filter p ↔ r ∈ t ∧ p r = true := List.mem_filter

/-! ### Inserting a row -/

/-- Append `r` when its key is new. -/
def insert? (t : Table key) (r : ρ) : Option (Table key) :=
  if h : key r ∈ t.rows.map key then none
  else some
    { rows := t.rows ++ [r]
      nodup_keys := by
        rw [List.map_append, List.map_singleton]
        exact List.nodup_append.mpr ⟨t.nodup_keys, List.nodup_singleton _, fun a ha b hb => by
          rw [List.mem_singleton.mp hb]
          exact fun hab => h (hab ▸ ha)⟩ }

theorem insert?_eq_some_iff {t t' : Table key} {r : ρ} :
    t.insert? r = some t' ↔ (∀ s ∈ t, key s ≠ key r) ∧ t'.rows = t.rows ++ [r] := by
  unfold insert?
  split
  · next h =>
    obtain ⟨s, hs, hk⟩ := List.mem_map.mp h
    simp only [reduceCtorEq, false_iff, not_and]
    exact fun hne => absurd hk (hne s hs)
  · next h =>
    simp only [Option.some.injEq]
    constructor
    · rintro rfl
      exact ⟨fun s hs hk => h (List.mem_map.mpr ⟨s, hs, hk⟩), rfl⟩
    · rintro ⟨-, hrows⟩
      exact ext hrows.symm

/-- A row with a new key can be inserted. -/
theorem exists_insert? {t : Table key} {r : ρ} (h : ∀ s ∈ t, key s ≠ key r) :
    ∃ t', t.insert? r = some t' := by
  unfold insert?
  split
  · next hmem =>
    obtain ⟨s, hs, hk⟩ := List.mem_map.mp hmem
    exact absurd hk (h s hs)
  · exact ⟨_, rfl⟩

theorem mem_of_insert? {t t' : Table key} {r s : ρ} (h : t.insert? r = some t') :
    s ∈ t' ↔ s ∈ t ∨ s = r := by
  rw [mem_def, (insert?_eq_some_iff.mp h).2, List.mem_append, List.mem_singleton, mem_def]

theorem forall_mem_insert? {t t' : Table key} {r : ρ} {p : ρ → Prop} (h : t.insert? r = some t') :
    (∀ s ∈ t', p s) ↔ (∀ s ∈ t, p s) ∧ p r := by
  simp only [mem_of_insert? h, or_imp, forall_and, forall_eq]

theorem key_ne_of_insert? {t t' : Table key} {r : ρ} (h : t.insert? r = some t') :
    ∀ s ∈ t, key s ≠ key r :=
  (insert?_eq_some_iff.mp h).1

theorem find?_insert?_self {t t' : Table key} {r : ρ} (h : t.insert? r = some t') :
    t'.find? (key r) = some r :=
  find?_key_of_mem ((mem_of_insert? h).mpr (.inr rfl))

theorem find?_insert?_of_ne {t t' : Table key} {r : ρ} {k : κ} (h : t.insert? r = some t')
    (hk : k ≠ key r) : t'.find? k = t.find? k := by
  rw [find?, (insert?_eq_some_iff.mp h).2, List.find?_append, find?]
  cases hf : t.rows.find? fun s => decide (key s = k) with
  | some s => rfl
  | none => simp [Ne.symm hk]

/-! ### Filters and counts -/

/-- A row leaves a filter unchanged when neither it nor the row it replaces passes. -/
theorem filter_put_of_not {t : Table key} {r : ρ} {p : ρ → Bool} (hr : p r = false)
    (h : ∀ s ∈ t, key s = key r → p s = false) :
    (t.put r).rows.filter p = t.rows.filter p := by
  rw [rows_put, List.filter_map]
  have hp : ∀ s ∈ t.rows, (p ∘ fun s => if key s = key r then r else s) s = p s := by
    intro s hs
    by_cases hk : key s = key r
    · simp only [Function.comp_apply, if_pos hk, hr, h s hs hk]
    · simp only [Function.comp_apply, if_neg hk]
  rw [List.filter_congr hp]
  refine (List.map_congr_left ?_).trans (List.map_id _)
  intro s hs
  have hmem := List.mem_filter.mp hs
  by_cases hk : key s = key r
  · rw [h s hmem.1 hk] at hmem
    exact absurd hmem.2 Bool.false_ne_true
  · exact if_neg hk

end Table
