import McpFlow.Library.Json
import McpFlow.Library.Uuid

/-!
# Reading typed values from JSON

A schema reads the members of an object one by one and may forbid others. Scalars are read by a
`Coercion`, since a validation library accepts more than one spelling of a number, a truth value or
a UUID; a lawful one reads the canonical spelling as what it says.

`Value.pyEq` is the equality of the decoded values: objects are equal as dictionaries, and numbers
and truth values by their amount.
-/

namespace Json

/-- How a validation library reads scalars. -/
structure Coercion where
  int : Value → Option ℤ
  bool : Value → Option Bool
  uuid : Value → Option UUID

/-- Canonical spellings read as what they say. -/
structure Coercion.Lawful (c : Coercion) : Prop where
  int_int : ∀ i, c.int (.int i) = some i
  bool_bool : ∀ b, c.bool (.bool b) = some b
  uuid_toString : ∀ u : UUID, c.uuid (.str u.toString) = some u

namespace Value

/-! ### Members -/

/-- An object without members beyond `fields`. -/
def forbidsExtra (fields : List String) : Value → Bool
  | obj ms => ms.all fun m => fields.contains m.1
  | _ => false

/-- Read a required member. -/
def field {α : Type} (j : Value) (name : String) (read : Value → Option α) : Option α :=
  (j.get? name).bind read

/-- Read a member that has a default. -/
def fieldD {α : Type} (j : Value) (name : String) (read : Value → Option α) (default : α) :
    Option α :=
  match j.get? name with
  | none => some default
  | some v => read v

/-- Read an array. -/
def list {α : Type} (read : Value → Option α) : Value → Option (List α)
  | arr items => items.mapM read
  | _ => none

/-- Read an object as a dictionary. -/
def dict {α : Type} (read : Value → Option α) : Value → Option (List (String × α))
  | obj ms => ms.mapM fun m => (read m.2).map (Prod.mk m.1)
  | _ => none

/-- Read `null` or a value. -/
def nullable {α : Type} (read : Value → Option α) : Value → Option (Option α)
  | null => some none
  | v => (read v).map some

/-- An object as it is. -/
def object : Value → Option { v : Value // v.isObj = true }
  | obj ms => some ⟨obj ms, rfl⟩
  | _ => none

/-! ### Python equality -/

/-- The amount of a number or a truth value. -/
def num? : Value → Option ℚ
  | bool b => some (if b then 1 else 0)
  | int i => some i
  | float q => some q
  | _ => none

mutual
/-- `a == b` of the decoded values. -/
def pyEq : Value → Value → Bool
  | null, null => true
  | str a, str b => a == b
  | arr as, arr bs => pyEqItems as bs
  | obj as, obj bs => pyEqMembers as bs && bs.all fun m => (as.lookup m.1).isSome
  | bool a, b => b.num? == some (if a then 1 else 0)
  | int a, b => b.num? == some (a : ℚ)
  | float a, b => b.num? == some a
  | _, _ => false

/-- Equality item by item. -/
def pyEqItems : List Value → List Value → Bool
  | [], [] => true
  | a :: as, b :: bs => pyEq a b && pyEqItems as bs
  | _, _ => false

/-- Every member has an equal one under its key. -/
def pyEqMembers : List (String × Value) → List (String × Value) → Bool
  | [], _ => true
  | (k, a) :: as, bs => (match bs.lookup k with
      | some b => pyEq a b
      | none => false) && pyEqMembers as bs
end

mutual
/-- No object has two members of one key. -/
def distinctKeys : Value → Bool
  | arr items => distinctKeysItems items
  | obj ms => decide (ms.map Prod.fst).Nodup && distinctKeysMembers ms
  | _ => true

/-- Every item has distinct keys. -/
def distinctKeysItems : List Value → Bool
  | [] => true
  | v :: vs => distinctKeys v && distinctKeysItems vs

/-- Every member has distinct keys. -/
def distinctKeysMembers : List (String × Value) → Bool
  | [] => true
  | (_, v) :: ms => distinctKeys v && distinctKeysMembers ms
end

theorem lookup_eq_some_of_mem {ms : List (String × Value)} (h : (ms.map Prod.fst).Nodup)
    {k : String} {v : Value} (hmem : (k, v) ∈ ms) : ms.lookup k = some v := by
  induction ms with
  | nil => cases hmem
  | cons m ms ih =>
    obtain ⟨l, w⟩ := m
    rw [List.map_cons, List.nodup_cons] at h
    rcases List.mem_cons.mp hmem with heq | htail
    · cases heq
      simp
    · have hkl : (k == l) = false := by
        rw [beq_eq_false_iff_ne]
        rintro rfl
        exact h.1 (List.mem_map.mpr ⟨(k, v), htail, rfl⟩)
      rw [List.lookup_cons, hkl]
      exact ih h.2 htail

mutual
/-- A value with distinct keys equals itself. -/
theorem pyEq_self : ∀ v : Value, v.distinctKeys = true → pyEq v v = true
  | null, _ => rfl
  | bool _, _ => by simp [pyEq, num?]
  | int _, _ => by simp [pyEq, num?]
  | float _, _ => by simp [pyEq, num?]
  | str _, _ => by simp [pyEq]
  | arr items, h => by
    rw [pyEq]
    exact pyEqItems_self items (by simpa [distinctKeys] using h)
  | obj ms, h => by
    rw [distinctKeys, Bool.and_eq_true, decide_eq_true_eq] at h
    rw [pyEq, Bool.and_eq_true, List.all_eq_true]
    refine ⟨pyEqMembers_self ms h.2 ms (fun k v hmem => lookup_eq_some_of_mem h.1 hmem),
      fun m hmem => ?_⟩
    rw [lookup_eq_some_of_mem h.1 hmem]
    rfl

theorem pyEqItems_self : ∀ vs : List Value, distinctKeysItems vs = true → pyEqItems vs vs = true
  | [], _ => rfl
  | v :: vs, h => by
    rw [distinctKeysItems, Bool.and_eq_true] at h
    rw [pyEqItems, Bool.and_eq_true]
    exact ⟨pyEq_self v h.1, pyEqItems_self vs h.2⟩

theorem pyEqMembers_self : ∀ ms : List (String × Value), distinctKeysMembers ms = true →
    ∀ bs, (∀ k v, (k, v) ∈ ms → bs.lookup k = some v) → pyEqMembers ms bs = true
  | [], _, _, _ => rfl
  | (k, v) :: ms, h, bs, hbs => by
    rw [distinctKeysMembers, Bool.and_eq_true] at h
    rw [pyEqMembers, hbs k v List.mem_cons_self, Bool.and_eq_true]
    exact ⟨pyEq_self v h.1, pyEqMembers_self ms h.2 bs fun k' v' hmem =>
      hbs k' v' (List.mem_cons_of_mem _ hmem)⟩
end

end Value

end Json
