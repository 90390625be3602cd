import Mathlib.Data.List.Nodup

/-!
# Insertion-ordered dictionaries

A dictionary with string keys is its list of pairs. Setting a key that is present replaces its value
in place, as the dictionaries of the modelled program do.
-/

universe u

/-- A dictionary with string keys. -/
abbrev Dict (α : Type u) := List (String × α)

namespace Dict

variable {α : Type u}

/-- The value of a key. -/
def get? (d : Dict α) (k : String) : Option α := d.lookup k

/-- `d[k] = v`. -/
def set (d : Dict α) (k : String) (v : α) : Dict α :=
  if d.any (·.1 == k) then d.map fun p => if p.1 == k then (k, v) else p else d ++ [(k, v)]

/-- `d.setdefault(k, v)`, for the dictionary alone. -/
def setDefault (d : Dict α) (k : String) (v : α) : Dict α :=
  if (d.get? k).isSome then d else d.set k v

/-- `dict(pairs)`. -/
def ofPairs (pairs : List (String × α)) : Dict α := pairs.foldl (fun d p => d.set p.1 p.2) []

/-- The keys. -/
def keys (d : Dict α) : List String := d.map (·.1)

/-- The keys are the names that have a value. -/
theorem mem_keys_iff {d : Dict α} {k : String} : k ∈ d.keys ↔ ∃ a, d.get? k = some a := by
  rw [← Option.isSome_iff_exists, get?, List.lookup_isSome_iff, keys, List.mem_map]
  exact exists_congr fun p => and_congr_right fun _ => by rw [beq_iff_eq, eq_comm]

theorem get?_cons (p : String × α) (d : Dict α) (k : String) :
    get? (p :: d) k = if p.1 = k then some p.2 else get? d k := by
  obtain ⟨k', v⟩ := p
  by_cases h : k' = k
  · simp [get?, h]
  · have hne : (k == k') = false := beq_eq_false_iff_ne.mpr fun h' => h h'.symm
    simp [get?, List.lookup_cons, h, hne]

/-- A key that is set is new or keeps its place. -/
theorem keys_set (d : Dict α) (k : String) (v : α) :
    (d.set k v).keys = if k ∈ d.keys then d.keys else d.keys ++ [k] := by
  have hany : d.any (·.1 == k) = true ↔ k ∈ d.keys := by
    rw [List.any_eq_true, keys, List.mem_map]
    exact exists_congr fun p => and_congr_right fun _ => beq_iff_eq
  unfold set
  by_cases h : k ∈ d.keys
  · rw [if_pos h, if_pos (hany.mpr h), keys, List.map_map, keys]
    refine List.map_congr_left fun p _ => ?_
    dsimp only [Function.comp_apply]
    split
    · next hp => exact (beq_iff_eq.mp hp).symm
    · rfl
  · rw [if_neg h, if_neg fun hd => h (hany.mp hd), keys, List.map_append]
    rfl

/-- The keys after the pairs of a list were set: they stay distinct, and none is lost. -/
theorem keys_foldl_set (pairs : List (String × α)) {d : Dict α} (h : d.keys.Nodup) :
    (pairs.foldl (fun d p => d.set p.1 p.2) d).keys.Nodup ∧
      ∀ k, k ∈ (pairs.foldl (fun d p => d.set p.1 p.2) d).keys ↔
        k ∈ d.keys ∨ k ∈ pairs.map Prod.fst := by
  induction pairs generalizing d with
  | nil => exact ⟨h, fun k => by simp⟩
  | cons p pairs ih =>
    have hset : (d.set p.1 p.2).keys.Nodup := by
      rw [keys_set]
      split
      · exact h
      · next hnew =>
        exact List.nodup_append.mpr ⟨h, List.nodup_singleton _, fun a ha b hb hab =>
          hnew (List.mem_singleton.mp hb ▸ hab ▸ ha)⟩
    have hmem (k : String) : k ∈ (d.set p.1 p.2).keys ↔ k ∈ d.keys ∨ k = p.1 := by
      rw [keys_set]
      split
      · next hold => exact ⟨.inl, fun hk => hk.elim id fun hk => hk ▸ hold⟩
      · rw [List.mem_append, List.mem_singleton]
    obtain ⟨hnodup, hkeys⟩ := ih hset
    refine ⟨hnodup, fun k => (hkeys k).trans ?_⟩
    rw [hmem, List.map_cons, List.mem_cons, or_assoc]

theorem nodup_keys_ofPairs (pairs : List (String × α)) : (ofPairs pairs).keys.Nodup :=
  (keys_foldl_set pairs (d := []) List.nodup_nil).1

theorem mem_keys_ofPairs {pairs : List (String × α)} {k : String} :
    k ∈ (ofPairs pairs).keys ↔ k ∈ pairs.map Prod.fst := by
  rw [ofPairs, (keys_foldl_set pairs (d := []) List.nodup_nil).2 k]
  exact or_iff_right List.not_mem_nil

/-- The values of a dictionary after every pair with a key got the value `v`. -/
theorem get?_replace (d : Dict α) (k k' : String) (v : α) :
    get? (d.map fun p => if p.1 == k then (k, v) else p) k' =
      if k = k' ∧ d.any (·.1 == k) then some v else d.get? k' := by
  induction d with
  | nil => simp [get?]
  | cons p d ih =>
    rw [List.map_cons, get?_cons, get?_cons, ih]
    by_cases hp : p.1 = k <;> by_cases hk : k = k' <;> simp [hp, hk]
    all_goals grind

/-- The value of a key after `d[k] = v`. -/
theorem get?_set (d : Dict α) (k k' : String) (v : α) :
    (d.set k v).get? k' = if k = k' then some v else d.get? k' := by
  unfold set
  split
  next hany =>
    rw [get?_replace]
    simp only [hany, and_true]
  next hnone =>
    induction d with
    | nil => rw [List.nil_append, get?_cons]
    | cons p d ih =>
      rw [List.any_cons, Bool.or_eq_true, not_or, beq_iff_eq] at hnone
      rw [List.cons_append, get?_cons, get?_cons, ih hnone.2]
      by_cases hk : k = k'
      · have hp : ¬ p.1 = k' := hk ▸ hnone.1
        simp only [hk, hp, if_true, if_false]
      · simp only [hk, if_false]

/-- The value of a key after `d.setdefault(k, v)`. -/
theorem get?_setDefault (d : Dict α) (k k' : String) (v : α) :
    (d.setDefault k v).get? k' = if k = k' then some ((d.get? k).getD v) else d.get? k' := by
  unfold setDefault
  cases hk : d.get? k with
  | none => simp only [Option.isSome_none, Bool.false_eq_true, if_false, get?_set, Option.getD_none]
  | some w =>
    simp only [Option.isSome_some, if_true, Option.getD_some]
    split
    · next hkk => rw [← hkk, hk]
    · rfl

/-- The value of a key after the pairs of `d'` were set in `d`. -/
theorem get?_foldl_set {d' : Dict α} (h : d'.keys.Nodup) (d : Dict α) (k : String) :
    (d'.foldl (fun d p => d.set p.1 p.2) d).get? k = (d'.get? k).or (d.get? k) := by
  induction d' generalizing d with
  | nil => rfl
  | cons p d' ih =>
    rw [keys, List.map_cons, List.nodup_cons] at h
    rw [List.foldl_cons, ih h.2, get?_set, get?_cons]
    by_cases hp : p.1 = k
    · have hnone : get? d' k = none := by
        refine Option.eq_none_iff_forall_ne_some.mpr fun a ha => h.1 ?_
        exact hp ▸ mem_keys_iff.mpr ⟨a, ha⟩
      rw [if_pos hp, if_pos hp, hnone]
      rfl
    · rw [if_neg hp, if_neg hp]

/-- The value of a key that one pair has. -/
theorem get?_of_mem {d : Dict α} (h : d.keys.Nodup) {k : String} {v : α} (hmem : (k, v) ∈ d) :
    d.get? k = some v := by
  induction d with
  | nil => cases hmem
  | cons p d ih =>
    rw [keys, List.map_cons, List.nodup_cons] at h
    rw [get?_cons]
    rcases List.mem_cons.mp hmem with rfl | hmem
    · exact if_pos rfl
    · have hne : p.1 ≠ k := fun heq => h.1 (heq ▸ List.mem_map_of_mem (f := Prod.fst) hmem)
      rw [if_neg hne, ih h.2 hmem]

theorem mem_of_get? {d : Dict α} {k : String} {v : α} (h : d.get? k = some v) : (k, v) ∈ d := by
  induction d with
  | nil => cases h
  | cons p d ih =>
    rw [get?_cons] at h
    split at h
    · next hp =>
      cases h
      cases hp
      exact List.mem_cons_self
    · exact List.mem_cons_of_mem p (ih h)

theorem mem_of_mem_set {d : Dict α} {k : String} {v : α} {p : String × α} (h : p ∈ d.set k v) :
    p ∈ d ∨ p = (k, v) := by
  rw [set] at h
  split at h
  · obtain ⟨q, hq, rfl⟩ := List.mem_map.mp h
    split
    · exact .inr rfl
    · exact .inl hq
  · rcases List.mem_append.mp h with h | h
    · exact .inl h
    · exact .inr (List.mem_singleton.mp h)

theorem length_set_le (d : Dict α) (k : String) (v : α) : (d.set k v).length ≤ d.length + 1 := by
  rw [set]
  split
  · rw [List.length_map]
    exact Nat.le_succ _
  · exact Nat.le_of_eq (by rw [List.length_append, List.length_singleton])

/-- `dict(pairs)` has no other pairs. -/
theorem mem_of_mem_ofPairs {pairs : List (String × α)} {p : String × α} (h : p ∈ ofPairs pairs) :
    p ∈ pairs := by
  have hfold : ∀ (l : List (String × α)) (d : Dict α),
      p ∈ l.foldl (fun d p => d.set p.1 p.2) d → p ∈ d ∨ p ∈ l := by
    intro l
    induction l with
    | nil => exact fun d hp => .inl hp
    | cons q l ih =>
      intro d hp
      rcases ih _ hp with hp | hp
      · rcases mem_of_mem_set hp with hp | rfl
        · exact .inl hp
        · exact .inr List.mem_cons_self
      · exact .inr (List.mem_cons_of_mem q hp)
  exact (hfold pairs [] h).resolve_left List.not_mem_nil

/-- Pairs with distinct keys are a dictionary. -/
theorem ofPairs_eq {pairs : List (String × α)} (h : (pairs.map Prod.fst).Nodup) :
    ofPairs pairs = pairs := by
  have hfold : ∀ (l : List (String × α)) (d : Dict α), ((d ++ l).map Prod.fst).Nodup →
      l.foldl (fun d p => d.set p.1 p.2) d = d ++ l := by
    intro l
    induction l with
    | nil =>
      intro d _
      rw [List.foldl_nil, List.append_nil]
    | cons p l ih =>
      intro d hd
      have hfresh : d.any (·.1 == p.1) = false := by
        rw [List.map_append, List.map_cons, List.nodup_append] at hd
        rw [List.any_eq_false]
        exact fun q hq heq => hd.2.2 _ (List.mem_map_of_mem hq) _ List.mem_cons_self
          (beq_iff_eq.mp heq)
      rw [List.foldl_cons, set, hfresh, if_neg Bool.false_ne_true, ih, List.append_assoc]
      · rfl
      · rwa [List.append_assoc]
  exact hfold pairs [] h

end Dict

namespace List

variable {α : Type u} [DecidableEq α]

/-- The two lists have the same elements. -/
def sameSet (a b : List α) : Bool := a.all (b.contains ·) && b.all (a.contains ·)

theorem sameSet_iff {a b : List α} : a.sameSet b = true ↔ ∀ x, x ∈ a ↔ x ∈ b := by
  simp only [sameSet, Bool.and_eq_true, all_eq_true, contains_iff_mem]
  exact ⟨fun h x => ⟨h.1 x, h.2 x⟩, fun h => ⟨fun x => (h x).1, fun x => (h x).2⟩⟩

end List
