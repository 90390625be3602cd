import McpFlow.Execution.State
import McpFlow.Library.Dict
import McpFlow.Library.Except

/-!
# Values at run time

What a binding resolves to: JSON as the interpreter holds it, where a float may also be NaN or an
infinity. `json_strict_equal` compares two such values and refuses the non-finite numbers it meets.
On finite values it decides whether both mean the same: a number means its exact rational value, an
array the list of its items and an object the map of its members.
-/

namespace McpFlow

/-- A float; the finite ones are kept as the rational they denote. -/
inductive PyFloat where
  | finite (q : ℚ)
  | nan
  | infinity (negative : Bool)
deriving DecidableEq

/-- A JSON value at run time. -/
inductive RuntimeValue where
  | null
  | bool (b : Bool)
  | int (i : ℤ)
  | float (x : PyFloat)
  | str (s : String)
  | arr (items : List RuntimeValue)
  | obj (members : List (String × RuntimeValue))

namespace RuntimeValue

instance : Inhabited RuntimeValue := ⟨null⟩

mutual
/-- A stored JSON value. -/
def ofJson : Json.Value → RuntimeValue
  | .null => null
  | .bool b => bool b
  | .int i => int i
  | .float q => float (.finite q)
  | .str s => str s
  | .arr items => arr (ofJsonItems items)
  | .obj members => obj (ofJsonMembers members)

/-- Stored items. -/
def ofJsonItems : List Json.Value → List RuntimeValue
  | [] => []
  | v :: vs => ofJson v :: ofJsonItems vs

/-- Stored members. -/
def ofJsonMembers : List (String × Json.Value) → List (String × RuntimeValue)
  | [] => []
  | (k, v) :: ms => (k, ofJson v) :: ofJsonMembers ms
end

/-- `_is_number`. -/
def isNumber : RuntimeValue → Bool
  | int _ => true
  | float _ => true
  | _ => false

/-- The exact value of a finite number. -/
def number? : RuntimeValue → Option ℚ
  | int i => some i
  | float (.finite q) => some q
  | _ => none

/-- Neither NaN nor an infinity. -/
def isFinite : RuntimeValue → Bool
  | float (.finite _) => true
  | float _ => false
  | _ => true

mutual
/-- All numbers are finite, and the keys of each object are distinct as those of a dictionary. -/
def regular : RuntimeValue → Bool
  | arr items => regularItems items
  | obj members => decide (members.map Prod.fst).Nodup && regularMembers members
  | v => v.isFinite

/-- The items are regular. -/
def regularItems : List RuntimeValue → Bool
  | [] => true
  | v :: vs => v.regular && regularItems vs

/-- The members are regular. -/
def regularMembers : List (String × RuntimeValue) → Bool
  | [] => true
  | (_, v) :: ms => v.regular && regularMembers ms
end

end RuntimeValue

/-! ### Strict equality -/

/-- `PREDICATE_TYPE_MISMATCH`. -/
def typeMismatch (message : String) : AppError := ⟨"PREDICATE_TYPE_MISMATCH", message⟩

/-- `_reject_non_finite_number`; values that are no numbers pass. -/
def rejectNonFiniteNumber (v : RuntimeValue) : Except AppError Unit :=
  if v.isFinite then .ok ()
  else .error (typeMismatch "Non-finite float (NaN / ±Infinity) is not a comparable JSON number.")

/-- The numeric case of `json_strict_equal`. -/
def numericEqual (left right : RuntimeValue) : Except AppError Bool := do
  rejectNonFiniteNumber left
  rejectNonFiniteNumber right
  return left.isNumber && right.isNumber && left.number? == right.number?

mutual
/-- `json_strict_equal`. -/
def jsonStrictEqual : RuntimeValue → RuntimeValue → Except AppError Bool
  | .null, .null => .ok true
  | .bool a, .bool b => .ok (a == b)
  | .bool _, _ => .ok false
  | _, .bool _ => .ok false
  | .str a, .str b => .ok (a == b)
  | .arr as, .arr bs => if as.length ≠ bs.length then .ok false else strictEqualItems as bs
  | .obj as, .obj bs =>
    if !(as.map Prod.fst).sameSet (bs.map Prod.fst) then .ok false else strictEqualMembers as bs
  | left, right =>
    if left.isNumber || right.isNumber then numericEqual left right else .ok false

/-- `all(...)` over the items; the lists are equally long. -/
def strictEqualItems : List RuntimeValue → List RuntimeValue → Except AppError Bool
  | a :: as, b :: bs => do if ← jsonStrictEqual a b then strictEqualItems as bs else return false
  | _, _ => .ok true

/-- `all(...)` over the keys of the left object; the right one has the same. -/
def strictEqualMembers : List (String × RuntimeValue) → List (String × RuntimeValue) →
    Except AppError Bool
  | [], _ => .ok true
  | (k, a) :: as, right => match right.lookup k with
    | none => .ok false
    | some b => do if ← jsonStrictEqual a b then strictEqualMembers as right else return false
end

/-! ### Meanings -/

/-- What a finite JSON value means. -/
inductive Meaning where
  | null
  | bool (b : Bool)
  | number (q : ℚ)
  | str (s : String)
  | arr (items : List Meaning)
  | obj (members : String → Option Meaning)

namespace RuntimeValue

mutual
/-- The meaning of a value. -/
def meaning : RuntimeValue → Meaning
  | null => .null
  | bool b => .bool b
  | int i => .number i
  | float (.finite q) => .number q
  | float _ => .null
  | str s => .str s
  | arr items => .arr (meaningItems items)
  | obj members => .obj (meaningMembers members)

/-- The meanings of the items. -/
def meaningItems : List RuntimeValue → List Meaning
  | [] => []
  | v :: vs => v.meaning :: meaningItems vs

/-- The meanings of the members. -/
def meaningMembers : List (String × RuntimeValue) → String → Option Meaning
  | [], _ => none
  | (k, v) :: ms, key => if key = k then some v.meaning else meaningMembers ms key
end

theorem length_meaningItems (items : List RuntimeValue) :
    (meaningItems items).length = items.length := by
  induction items with
  | nil => rfl
  | cons v vs ih => rw [meaningItems, List.length_cons, ih, List.length_cons]

theorem meaningMembers_eq (members : List (String × RuntimeValue)) (key : String) :
    meaningMembers members key = (members.lookup key).map meaning := by
  induction members with
  | nil => rfl
  | cons p ms ih =>
    obtain ⟨k, v⟩ := p
    rw [meaningMembers, List.lookup_cons]
    by_cases hkey : key = k
    · rw [if_pos hkey, beq_iff_eq.mpr hkey]
      rfl
    · rw [if_neg hkey, beq_eq_false_iff_ne.mpr hkey, ih]

end RuntimeValue

/-! ### Equality is sameness of meaning -/

namespace RuntimeValue

theorem regular_of_lookup {members : List (String × RuntimeValue)} {key : String} {v : RuntimeValue}
    (h : regularMembers members = true) (hv : members.lookup key = some v) : v.regular = true := by
  induction members with
  | nil => cases hv
  | cons p ms ih =>
    obtain ⟨k, w⟩ := p
    rw [regularMembers, Bool.and_eq_true] at h
    rw [List.lookup_cons] at hv
    split at hv
    · cases hv
      exact h.1
    · exact ih h.2 hv

/-- The meaning of an object, key by key. -/
theorem meaningMembers_eq_iff {as : List (String × RuntimeValue)} (bs : List (String × RuntimeValue))
    (hnodup : (as.map Prod.fst).Nodup) :
    meaningMembers as = meaningMembers bs ↔
      (as.map Prod.fst).sameSet (bs.map Prod.fst) = true ∧
        ∀ p ∈ as, ∃ w, bs.lookup p.1 = some w ∧ p.2.meaning = w.meaning := by
  have hkeys (ms : List (String × RuntimeValue)) (k : String) :
      k ∈ ms.map Prod.fst ↔ (meaningMembers ms k).isSome = true := by
    rw [meaningMembers_eq, Option.isSome_map]
    exact Dict.mem_keys_iff.trans Option.isSome_iff_exists.symm
  have hmember {p : String × RuntimeValue} (hp : p ∈ as) :
      meaningMembers as p.1 = some p.2.meaning := by
    have hget : as.lookup p.1 = some p.2 := Dict.get?_of_mem hnodup hp
    rw [meaningMembers_eq, hget, Option.map_some]
  constructor
  · intro h
    refine ⟨List.sameSet_iff.mpr fun k => ?_, fun p hp => ?_⟩
    · rw [hkeys, hkeys, h]
    · have hright := hmember hp
      rw [h, meaningMembers_eq, Option.map_eq_some_iff] at hright
      obtain ⟨w, hw, hmeaning⟩ := hright
      exact ⟨w, hw, hmeaning.symm⟩
  · rintro ⟨hsame, hvalues⟩
    funext k
    by_cases hk : k ∈ as.map Prod.fst
    · obtain ⟨p, hp, rfl⟩ := List.mem_map.mp hk
      obtain ⟨w, hw, hmeaning⟩ := hvalues p hp
      rw [hmember hp, meaningMembers_eq, hw, Option.map_some, hmeaning]
    · have hk' : k ∉ bs.map Prod.fst := fun h => hk ((List.sameSet_iff.mp hsame k).mpr h)
      rw [hkeys, Bool.not_eq_true, Option.isSome_eq_false_iff, Option.isNone_iff_eq_none] at hk hk'
      rw [hk, hk']

/-- A number means its value. -/
theorem meaning_of_number? {v : RuntimeValue} {q : ℚ} (h : v.number? = some q) :
    v.meaning = .number q := by
  cases v with
  | int i =>
    cases h
    rfl
  | float x =>
    cases x with
    | finite r =>
      cases h
      rfl
    | _ => cases h
  | _ => cases h

theorem isFinite_of_regular {v : RuntimeValue} (h : v.regular = true) : v.isFinite = true := by
  cases v with
  | float x =>
    cases x with
    | finite q => rfl
    | _ => exact h
  | _ => rfl

theorem exists_finite_of_regular {x : PyFloat} (h : (float x).regular = true) :
    ∃ q, x = .finite q := by
  cases x with
  | finite q => exact ⟨q, rfl⟩
  | _ => cases h

theorem exists_number?_of_isNumber {v : RuntimeValue} (h : v.isNumber = true)
    (hfinite : v.isFinite = true) : ∃ q, v.number? = some q := by
  cases v with
  | int i => exact ⟨i, rfl⟩
  | float x =>
    cases x with
    | finite q => exact ⟨q, rfl⟩
    | _ => cases hfinite
  | _ => cases h

/-- Only numbers mean numbers. -/
theorem meaning_ne_number {v : RuntimeValue} (h : v.isNumber = false) (q : ℚ) :
    v.meaning ≠ .number q := by
  cases v <;> simp_all [meaning, isNumber]

end RuntimeValue

open RuntimeValue

theorem rejectNonFiniteNumber_ok {v : RuntimeValue} (h : v.isFinite = true) :
    rejectNonFiniteNumber v = .ok () := if_pos h

open Classical in
/-- Two values of which one is a number. -/
theorem numericEqual_eq {a b : RuntimeValue} (ha : a.regular = true) (hb : b.regular = true)
    (h : (a.isNumber || b.isNumber) = true) :
    numericEqual a b = .ok (decide (a.meaning = b.meaning)) := by
  have hfa := isFinite_of_regular ha
  have hfb := isFinite_of_regular hb
  have hnumeric : numericEqual a b =
      .ok (a.isNumber && b.isNumber && a.number? == b.number?) := by
    rw [numericEqual, rejectNonFiniteNumber_ok hfa, rejectNonFiniteNumber_ok hfb]
    rfl
  rw [hnumeric]
  refine congrArg Except.ok ?_
  rw [Bool.eq_iff_iff, decide_eq_true_iff, Bool.and_eq_true, Bool.and_eq_true, beq_iff_eq]
  constructor
  · rintro ⟨⟨hna, -⟩, heq⟩
    obtain ⟨q, hq⟩ := exists_number?_of_isNumber hna hfa
    rw [meaning_of_number? hq, meaning_of_number? (heq ▸ hq)]
  · intro hmeaning
    have hboth : a.isNumber = true ∧ b.isNumber = true := by
      rcases Bool.or_eq_true_iff.mp h with hn | hn
      · obtain ⟨q, hq⟩ := exists_number?_of_isNumber hn hfa
        refine ⟨hn, Bool.not_eq_false _ ▸ fun hb => ?_⟩
        exact meaning_ne_number hb q (hmeaning ▸ meaning_of_number? hq)
      · obtain ⟨q, hq⟩ := exists_number?_of_isNumber hn hfb
        refine ⟨Bool.not_eq_false _ ▸ fun ha => ?_, hn⟩
        exact meaning_ne_number ha q (hmeaning.trans (meaning_of_number? hq))
    obtain ⟨q, hq⟩ := exists_number?_of_isNumber hboth.1 hfa
    obtain ⟨r, hr⟩ := exists_number?_of_isNumber hboth.2 hfb
    rw [meaning_of_number? hq, meaning_of_number? hr, Meaning.number.injEq] at hmeaning
    exact ⟨hboth, by rw [hq, hr, hmeaning]⟩

open Classical in
mutual
/-- `json_strict_equal` decides sameness of meaning. -/
theorem jsonStrictEqual_eq : ∀ a b : RuntimeValue, a.regular = true → b.regular = true →
    jsonStrictEqual a b = .ok (decide (a.meaning = b.meaning))
  | .null, b, ha, hb => by
    cases b with
    | int i => exact numericEqual_eq ha hb rfl
    | float x => exact numericEqual_eq ha hb rfl
    | _ => simp [jsonStrictEqual, meaning, isNumber]
  | .bool x, b, _, hb => by
    cases b with
    | float y =>
      obtain ⟨q, rfl⟩ := exists_finite_of_regular hb
      simp [jsonStrictEqual, meaning]
    | _ => simp [jsonStrictEqual, meaning, Bool.beq_eq_decide_eq]
  | .int i, b, ha, hb => by
    cases b with
    | bool x => simp [jsonStrictEqual, meaning]
    | _ => exact numericEqual_eq ha hb rfl
  | .float x, b, ha, hb => by
    cases b with
    | bool y =>
      obtain ⟨q, rfl⟩ := exists_finite_of_regular ha
      simp [jsonStrictEqual, meaning]
    | _ => exact numericEqual_eq ha hb rfl
  | .str x, b, ha, hb => by
    cases b with
    | int i => exact numericEqual_eq ha hb rfl
    | float x => exact numericEqual_eq ha hb rfl
    | str y => simp [jsonStrictEqual, meaning, beq_eq_decide]
    | _ => simp [jsonStrictEqual, meaning, isNumber]
  | .arr as, b, ha, hb => by
    cases b with
    | int i => exact numericEqual_eq ha hb rfl
    | float x => exact numericEqual_eq ha hb rfl
    | arr bs =>
      rw [jsonStrictEqual]
      split
      · next hlength =>
        rw [← length_meaningItems as, ← length_meaningItems bs] at hlength
        simp only [meaning, Meaning.arr.injEq]
        rw [decide_eq_false fun h => hlength (congrArg List.length h)]
      · next hlength =>
        rw [strictEqualItems_eq as bs (not_not.mp hlength) ha hb]
        simp only [meaning, Meaning.arr.injEq]
    | _ => simp [jsonStrictEqual, meaning, isNumber]
  | .obj as, b, ha, hb => by
    cases b with
    | int i => exact numericEqual_eq ha hb rfl
    | float x => exact numericEqual_eq ha hb rfl
    | obj bs =>
      rw [regular, Bool.and_eq_true, decide_eq_true_iff] at ha hb
      have hmeaning := meaningMembers_eq_iff bs ha.1
      rw [jsonStrictEqual]
      simp only [meaning, Meaning.obj.injEq, hmeaning]
      split
      · next hkeys =>
        rw [Bool.not_eq_true'] at hkeys
        rw [decide_eq_false fun h => by rw [h.1] at hkeys; cases hkeys]
      · next hkeys =>
        have hkeys : (as.map Prod.fst).sameSet (bs.map Prod.fst) = true := by simpa using hkeys
        rw [strictEqualMembers_eq as bs ha.2 hb.2]
        simp only [hkeys, true_and]
    | _ => simp [jsonStrictEqual, meaning, isNumber]

theorem strictEqualItems_eq : ∀ as bs : List RuntimeValue, as.length = bs.length →
    regularItems as = true → regularItems bs = true →
    strictEqualItems as bs = .ok (decide (meaningItems as = meaningItems bs))
  | [], [], _, _, _ => by simp [strictEqualItems, meaningItems]
  | [], _ :: _, hlength, _, _ => by cases hlength
  | _ :: _, [], hlength, _, _ => by cases hlength
  | a :: as, b :: bs, hlength, ha, hb => by
    rw [regularItems, Bool.and_eq_true] at ha hb
    rw [strictEqualItems, jsonStrictEqual_eq a b ha.1 hb.1]
    have hrest := strictEqualItems_eq as bs (Nat.succ_injective hlength) ha.2 hb.2
    by_cases hhead : a.meaning = b.meaning
    · simp [hhead, hrest, meaningItems, bind, Except.bind]
    · simp [hhead, meaningItems, bind, Except.bind, pure, Except.pure]

theorem strictEqualMembers_eq : ∀ as bs : List (String × RuntimeValue),
    regularMembers as = true → regularMembers bs = true →
    strictEqualMembers as bs = .ok (decide (∀ p ∈ as, ∃ w, bs.lookup p.1 = some w ∧
      p.2.meaning = w.meaning))
  | [], bs, _, _ => by simp [strictEqualMembers]
  | (k, a) :: as, bs, ha, hb => by
    rw [regularMembers, Bool.and_eq_true] at ha
    have hrest := strictEqualMembers_eq as bs ha.2 hb
    rw [strictEqualMembers]
    cases hlookup : bs.lookup k with
    | none => simp [hlookup]
    | some w =>
      dsimp only
      rw [jsonStrictEqual_eq a w ha.1 (regular_of_lookup hb hlookup)]
      by_cases hhead : a.meaning = w.meaning
      · simp [hlookup, hhead, hrest, bind, Except.bind]
      · simp [hlookup, hhead, bind, Except.bind, pure, Except.pure]
end

end McpFlow
