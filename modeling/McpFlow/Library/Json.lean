import Mathlib.Data.Rat.Defs

/-!
# JSON values

The JSON documents a program keeps in its database columns: `null`, booleans, integers,
finite floats (kept as the rational they denote), strings, arrays and objects. An object is
an association list. A document that went through a JSON column is equal to the one that was
written, so values are compared with `=` throughout.

Member access follows a dictionary: `Json.get?` is `none` both for a missing key and for a
value that is not an object, and `Json.getD` is the `dict.get` that answers `null` instead.
-/

namespace Json

/-- A JSON value. Floats are finite, hence rationals. -/
inductive Value where
  | null
  | bool (b : Bool)
  | int (i : ℤ)
  | float (q : ℚ)
  | str (s : String)
  | arr (items : List Value)
  | obj (members : List (String × Value))

namespace Value

instance : Inhabited Value := ⟨null⟩

/-! ### Decidable equality -/

mutual
/-- Structural equality test. -/
def beq : Value → Value → Bool
  | null, null => true
  | bool a, bool b => a == b
  | int a, int b => a == b
  | float a, float b => a == b
  | str a, str b => a == b
  | arr as, arr bs => beqItems as bs
  | obj as, obj bs => beqMembers as bs
  | _, _ => false

/-- Structural equality test of items. -/
def beqItems : List Value → List Value → Bool
  | [], [] => true
  | a :: as, b :: bs => beq a b && beqItems as bs
  | _, _ => false

/-- Structural equality test of members. -/
def beqMembers : List (String × Value) → List (String × Value) → Bool
  | [], [] => true
  | (k, a) :: as, (l, b) :: bs => k == l && (beq a b && beqMembers as bs)
  | _, _ => false
end

mutual
theorem beq_iff : ∀ a b : Value, beq a b = true ↔ a = b
  | null, b => by cases b <;> simp [beq]
  | bool _, b => by cases b <;> simp [beq]
  | int _, b => by cases b <;> simp [beq]
  | float _, b => by cases b <;> simp [beq]
  | str _, b => by cases b <;> simp [beq]
  | arr as, b => by cases b <;> simp [beq, beqItems_iff as]
  | obj as, b => by cases b <;> simp [beq, beqMembers_iff as]

theorem beqItems_iff : ∀ as bs : List Value, beqItems as bs = true ↔ as = bs
  | [], bs => by cases bs <;> simp [beqItems]
  | a :: as, bs => by cases bs <;> simp [beqItems, beq_iff a, beqItems_iff as]

theorem beqMembers_iff : ∀ as bs : List (String × Value), beqMembers as bs = true ↔ as = bs
  | [], bs => by cases bs <;> simp [beqMembers]
  | (k, a) :: as, bs => by
    cases bs <;> simp [beqMembers, beq_iff a, beqMembers_iff as, Prod.ext_iff, and_assoc]
end

instance : DecidableEq Value := fun a b => decidable_of_iff _ (beq_iff a b)

/-! ### Members -/

/-- The members of an object, in the order they were written. -/
def members? : Value → Option (List (String × Value))
  | obj ms => some ms
  | _ => none

/-- The value of a member, when there is one. -/
def get? (j : Value) (key : String) : Option Value :=
  j.members?.bind fun ms => ms.lookup key

/-- `dict.get`: the value of a member, `null` for a missing one. -/
def getD (j : Value) (key : String) : Value := (j.get? key).getD null

/-- The keys of an object; none for any other value. -/
def keys (j : Value) : List String := (j.members?.getD []).map Prod.fst

/-- `key in j`. -/
def hasKey (j : Value) (key : String) : Bool := (j.get? key).isSome

/-- The text of a string value. -/
def str? : Value → Option String
  | str s => some s
  | _ => none

/-- The value of an integer; a boolean is not an integer here. -/
def int? : Value → Option ℤ
  | int i => some i
  | _ => none

/-- The value of a boolean. -/
def bool? : Value → Option Bool
  | bool b => some b
  | _ => none

/-- The items of an array. -/
def arr? : Value → Option (List Value)
  | arr items => some items
  | _ => none

/-- Whether the value is an object. -/
def isObj (j : Value) : Bool := j.members?.isSome

/-- Whether the value is `null`. -/
def isNull : Value → Bool
  | null => true
  | _ => false

/-- `bool(j)`. -/
def truthy : Value → Bool
  | null => false
  | bool b => b
  | int i => i != 0
  | float q => q != 0
  | str s => s != ""
  | arr items => !items.isEmpty
  | obj ms => !ms.isEmpty

/-- A nullable string column as a JSON value. -/
def ofOptionStr : Option String → Value
  | some s => str s
  | none => null

/-- A nullable boolean column as a JSON value. -/
def ofOptionBool : Option Bool → Value
  | some b => bool b
  | none => null

@[simp] theorem get?_obj (ms : List (String × Value)) (key : String) :
    (obj ms).get? key = ms.lookup key := rfl

@[simp] theorem keys_obj (ms : List (String × Value)) : (obj ms).keys = ms.map Prod.fst := rfl

@[simp] theorem isObj_obj (ms : List (String × Value)) : (obj ms).isObj = true := rfl

@[simp] theorem str?_str (s : String) : (str s).str? = some s := rfl

@[simp] theorem int?_int (i : ℤ) : (int i).int? = some i := rfl

@[simp] theorem bool?_bool (b : Bool) : (bool b).bool? = some b := rfl

@[simp] theorem arr?_arr (items : List Value) : (arr items).arr? = some items := rfl

@[simp] theorem str?_eq_some_iff {j : Value} {s : String} : j.str? = some s ↔ j = str s := by
  cases j <;> simp [str?]

@[simp] theorem ofOptionStr_eq_null_iff {o : Option String} : ofOptionStr o = null ↔ o = none := by
  cases o <;> simp [ofOptionStr]

@[simp] theorem isNull_ofOptionStr (o : Option String) : (ofOptionStr o).isNull = o.isNone := by
  cases o <;> rfl

@[simp] theorem isNull_str (s : String) : (str s).isNull = false := rfl

@[simp] theorem isNull_null : (null : Value).isNull = true := rfl

/-- A present member is what `getD` reads. -/
theorem getD_eq_of_get? {j v : Value} {key : String} (h : j.get? key = some v) :
    j.getD key = v := by
  rw [getD, h, Option.getD_some]

/-- A missing member reads as `null`. -/
theorem getD_eq_null_of_get? {j : Value} {key : String} (h : j.get? key = none) :
    j.getD key = null := by
  rw [getD, h, Option.getD_none]

end Value

end Json
