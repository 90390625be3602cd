import McpFlow.Library.Dict
import McpFlow.Library.JsonText
import Mathlib.Data.List.Sort
import Mathlib.Data.String.Basic

/-!
# JSON values up to the order of members

A dictionary has no order of its own: two values are the same when one becomes the other by permuting
the members of its objects, at any depth. `sortKeys` orders the members of every object by their keys
and so keeps the value; values with equal sorted forms are the same.
-/

namespace Json.Value

/-- The values differ in the order of members only. -/
inductive SameValue : Value → Value → Prop
  | refl (v : Value) : SameValue v v
  | symm {v w : Value} : SameValue v w → SameValue w v
  | trans {u v w : Value} : SameValue u v → SameValue v w → SameValue u w
  | perm {members members' : List (String × Value)} :
    members.Perm members' → SameValue (obj members) (obj members')
  | item {before after : List Value} {v w : Value} :
    SameValue v w → SameValue (arr (before ++ v :: after)) (arr (before ++ w :: after))
  | member {before after : List (String × Value)} {key : String} {v w : Value} :
    SameValue v w →
      SameValue (obj (before ++ (key, v) :: after)) (obj (before ++ (key, w) :: after))

mutual
/-- The members of every object, sorted by key. -/
def sortKeys : Value → Value
  | arr items => arr (sortKeysItems items)
  | obj members =>
    obj ((sortKeysMembers members).mergeSort fun p q => decide (p.1 ≤ q.1))
  | v => v

/-- The same of the items of an array. -/
def sortKeysItems : List Value → List Value
  | [] => []
  | item :: items => sortKeys item :: sortKeysItems items

/-- The same of the member values of an object, which stay where they are. -/
def sortKeysMembers : List (String × Value) → List (String × Value)
  | [] => []
  | (key, item) :: members => (key, sortKeys item) :: sortKeysMembers members
end

mutual
/-- Sorting keeps the value. -/
theorem sameValue_sortKeys : ∀ v : Value, SameValue v v.sortKeys
  | null => .refl _
  | bool _ => .refl _
  | int _ => .refl _
  | float _ => .refl _
  | str _ => .refl _
  | arr items => by
    rw [sortKeys]
    exact sameValue_sortKeysItems [] items
  | obj members => by
    rw [sortKeys]
    exact (sameValue_sortKeysMembers [] members).trans (.perm (List.mergeSort_perm _ _).symm)

theorem sameValue_sortKeysItems : ∀ before items : List Value,
    SameValue (arr (before ++ items)) (arr (before ++ sortKeysItems items))
  | _, [] => .refl _
  | before, item :: items => by
    have hhead : SameValue (arr (before ++ item :: items)) (arr (before ++ item.sortKeys :: items)) :=
      .item (sameValue_sortKeys item)
    have htail := sameValue_sortKeysItems (before ++ [item.sortKeys]) items
    rw [List.append_assoc, List.append_assoc] at htail
    exact hhead.trans htail

theorem sameValue_sortKeysMembers : ∀ before members : List (String × Value),
    SameValue (obj (before ++ members)) (obj (before ++ sortKeysMembers members))
  | _, [] => .refl _
  | before, (key, item) :: members => by
    have hhead : SameValue (obj (before ++ (key, item) :: members))
        (obj (before ++ (key, item.sortKeys) :: members)) :=
      .member (sameValue_sortKeys item)
    have htail := sameValue_sortKeysMembers (before ++ [(key, item.sortKeys)]) members
    rw [List.append_assoc, List.append_assoc] at htail
    exact hhead.trans htail
end

/-- Values with one sorted form are the same. -/
theorem sameValue_of_sortKeys_eq {v w : Value} (h : v.sortKeys = w.sortKeys) : SameValue v w :=
  (sameValue_sortKeys v).trans (h ▸ (sameValue_sortKeys w).symm)

theorem sortKeysMembers_eq_map (members : List (String × Value)) :
    sortKeysMembers members = members.map fun p => (p.1, p.2.sortKeys) := by
  induction members with
  | nil => rfl
  | cons p members ih => rw [sortKeysMembers, ih, List.map_cons]

/-- Two objects of the same distinct keys with one sorted form have values with one sorted form. -/
theorem map_sortKeys_eq {members members' : List (String × Value)}
    (hkeys : members.map Prod.fst = members'.map Prod.fst) (hnodup : (members'.map Prod.fst).Nodup)
    (h : (obj members).sortKeys = (obj members').sortKeys) :
    members.map (·.2.sortKeys) = members'.map (·.2.sortKeys) := by
  rw [sortKeys, sortKeys, sortKeysMembers_eq_map, sortKeysMembers_eq_map] at h
  have hperm : (members.map fun p => (p.1, p.2.sortKeys)).Perm
      (members'.map fun p => (p.1, p.2.sortKeys)) := by
    refine (List.mergeSort_perm _ fun p q => decide (p.1 ≤ q.1)).symm.trans ?_
    rw [obj.inj h]
    exact List.mergeSort_perm _ _
  have hdict : Dict.keys (members'.map fun p : String × Value => (p.1, p.2.sortKeys)) =
      members'.map Prod.fst := by
    rw [Dict.keys, List.map_map]
    rfl
  have hlen : members.length = members'.length := by
    simpa using congrArg List.length hkeys
  refine List.ext_getElem (by simp [hlen]) fun i hi hi' => ?_
  rw [List.length_map] at hi hi'
  have hkey : members[i].1 = members'[i].1 := by
    have hget := List.getElem_of_eq hkeys (by simpa using hi)
    simpa using hget
  -- both values are the one that the second object has under the key
  have hleft : (members'[i].1, members[i].2.sortKeys) ∈
      members'.map fun p => (p.1, p.2.sortKeys) :=
    hperm.subset (hkey ▸ List.mem_map_of_mem (List.getElem_mem hi))
  have hright : (members'[i].1, members'[i].2.sortKeys) ∈
      members'.map fun p => (p.1, p.2.sortKeys) :=
    List.mem_map_of_mem (List.getElem_mem hi')
  have hget := Dict.get?_of_mem (hdict.symm ▸ hnodup) hleft
  rw [Dict.get?_of_mem (hdict.symm ▸ hnodup) hright] at hget
  rw [List.getElem_map, List.getElem_map]
  exact (Option.some.inj hget).symm

/-! ### Texts of sorted values -/

mutual
/-- A value has a text when its sorted form has one. -/
theorem printable_sortKeys : ∀ v : Value, v.sortKeys.printable = v.printable
  | null => rfl
  | bool _ => rfl
  | int _ => rfl
  | float _ => rfl
  | str _ => rfl
  | arr items => by
    rw [sortKeys, printable, printable, printableItems_sortKeys items]
  | obj members => by
    rw [sortKeys, printable, printable, ← printableMembers_sortKeys members, Bool.eq_iff_iff,
      printableMembers_iff, printableMembers_iff]
    exact forall_congr' fun p => by rw [List.mem_mergeSort]

theorem printableItems_sortKeys : ∀ items : List Value,
    printableItems (sortKeysItems items) = printableItems items
  | [] => rfl
  | item :: items => by
    rw [sortKeysItems, printableItems, printableItems, printable_sortKeys item,
      printableItems_sortKeys items]

theorem printableMembers_sortKeys : ∀ members : List (String × Value),
    printableMembers (sortKeysMembers members) = printableMembers members
  | [] => rfl
  | (_, item) :: members => by
    rw [sortKeysMembers, printableMembers, printableMembers, printable_sortKeys item,
      printableMembers_sortKeys members]
end

end Json.Value
