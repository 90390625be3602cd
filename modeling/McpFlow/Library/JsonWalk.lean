import McpFlow.Library.Json

/-!
# Properties of every string and of every object of a JSON value

`Everywhere` asks something of the keys of every object and of every string at any depth. `SameShape`
relates two values that differ in strings and keys only: arrays have the same length, objects the
same number of members, in the same order. `AgreeBut` relates two values that differ only below the
keys of a set. `FloatsIn` asks something of every float.
-/

namespace Json.Value

mutual
/-- The keys of every object and every string of the value have a property. -/
def Everywhere (onKeys : List String → Prop) (onString : String → Prop) : Value → Prop
  | null => True
  | bool _ => True
  | int _ => True
  | float _ => True
  | str s => onString s
  | arr items => EverywhereItems onKeys onString items
  | obj members => onKeys (members.map Prod.fst) ∧ EverywhereMembers onKeys onString members

/-- The same of the items of an array. -/
def EverywhereItems (onKeys : List String → Prop) (onString : String → Prop) : List Value → Prop
  | [] => True
  | item :: items => Everywhere onKeys onString item ∧ EverywhereItems onKeys onString items

/-- The same of the member values of an object. -/
def EverywhereMembers (onKeys : List String → Prop) (onString : String → Prop) :
    List (String × Value) → Prop
  | [] => True
  | (_, item) :: members =>
    Everywhere onKeys onString item ∧ EverywhereMembers onKeys onString members
end

/-- A dictionary holds every key once. -/
def DistinctKeys : Value → Prop := Everywhere List.Nodup fun _ => True

section Everywhere

variable {onKeys onKeys' : List String → Prop} {onString onString' : String → Prop}

mutual
/-- What follows from a property holds everywhere the property does. -/
theorem Everywhere.imp (hkeys : ∀ ks, onKeys ks → onKeys' ks) (hstring : ∀ s, onString s → onString' s) :
    ∀ v, Everywhere onKeys onString v → Everywhere onKeys' onString' v
  | null, _ => trivial
  | bool _, _ => trivial
  | int _, _ => trivial
  | float _, _ => trivial
  | str s, h => hstring s h
  | arr items, h => EverywhereItems.imp hkeys hstring items h
  | obj members, h => ⟨hkeys _ h.1, EverywhereMembers.imp hkeys hstring members h.2⟩

theorem EverywhereItems.imp (hkeys : ∀ ks, onKeys ks → onKeys' ks)
    (hstring : ∀ s, onString s → onString' s) :
    ∀ items, EverywhereItems onKeys onString items → EverywhereItems onKeys' onString' items
  | [], _ => trivial
  | item :: items, h =>
    ⟨Everywhere.imp hkeys hstring item h.1, EverywhereItems.imp hkeys hstring items h.2⟩

theorem EverywhereMembers.imp (hkeys : ∀ ks, onKeys ks → onKeys' ks)
    (hstring : ∀ s, onString s → onString' s) :
    ∀ members, EverywhereMembers onKeys onString members →
      EverywhereMembers onKeys' onString' members
  | [], _ => trivial
  | (_, item) :: members, h =>
    ⟨Everywhere.imp hkeys hstring item h.1, EverywhereMembers.imp hkeys hstring members h.2⟩
end

end Everywhere

mutual
/-- The values differ in strings and keys only. -/
def SameShape : Value → Value → Prop
  | null, null => True
  | bool a, bool b => a = b
  | int a, int b => a = b
  | float a, float b => a = b
  | str _, str _ => True
  | arr as, arr bs => SameShapeItems as bs
  | obj as, obj bs => SameShapeMembers as bs
  | _, _ => False

/-- As many items, each of the same shape. -/
def SameShapeItems : List Value → List Value → Prop
  | [], [] => True
  | a :: as, b :: bs => SameShape a b ∧ SameShapeItems as bs
  | _, _ => False

/-- As many members, each value of the same shape. -/
def SameShapeMembers : List (String × Value) → List (String × Value) → Prop
  | [], [] => True
  | (_, a) :: as, (_, b) :: bs => SameShape a b ∧ SameShapeMembers as bs
  | _, _ => False
end

mutual
theorem SameShape.refl : ∀ v, SameShape v v
  | null => trivial
  | bool _ => rfl
  | int _ => rfl
  | float _ => rfl
  | str _ => trivial
  | arr items => SameShapeItems.refl items
  | obj members => SameShapeMembers.refl members

theorem SameShapeItems.refl : ∀ items, SameShapeItems items items
  | [] => trivial
  | item :: items => ⟨SameShape.refl item, SameShapeItems.refl items⟩

theorem SameShapeMembers.refl : ∀ members, SameShapeMembers members members
  | [] => trivial
  | (_, item) :: members => ⟨SameShape.refl item, SameShapeMembers.refl members⟩
end

section AgreeBut

variable (hidden : String → Prop)

mutual
/-- The values agree but for what stands under the hidden keys. -/
def AgreeBut : Value → Value → Prop
  | null, null => True
  | bool a, bool b => a = b
  | int a, int b => a = b
  | float a, float b => a = b
  | str a, str b => a = b
  | arr as, arr bs => AgreeButItems as bs
  | obj as, obj bs => AgreeButMembers as bs
  | _, _ => False

/-- As many items, which agree but for what is hidden. -/
def AgreeButItems : List Value → List Value → Prop
  | [], [] => True
  | a :: as, b :: bs => AgreeBut a b ∧ AgreeButItems as bs
  | _, _ => False

/-- The same keys, and values that agree but for what is hidden. -/
def AgreeButMembers : List (String × Value) → List (String × Value) → Prop
  | [], [] => True
  | (k, a) :: as, (l, b) :: bs => k = l ∧ (hidden k ∨ AgreeBut a b) ∧ AgreeButMembers as bs
  | _, _ => False
end

end AgreeBut

section FloatsIn

variable (p : ℚ → Prop)

mutual
/-- Every float of the value has a property. -/
def FloatsIn : Value → Prop
  | float q => p q
  | arr items => FloatsInItems items
  | obj members => FloatsInMembers members
  | _ => True

/-- The same of the items of an array. -/
def FloatsInItems : List Value → Prop
  | [] => True
  | item :: items => FloatsIn item ∧ FloatsInItems items

/-- The same of the member values of an object. -/
def FloatsInMembers : List (String × Value) → Prop
  | [] => True
  | (_, item) :: members => FloatsIn item ∧ FloatsInMembers members
end

end FloatsIn

end Json.Value
