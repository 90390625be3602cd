import McpFlow.Factory.RefResolver

/-!
# The contract of a schema

What a normalized schema should be: the schema with every reference replaced by its target and the
annotations dropped where a keyword stands. A key is a keyword in a schema, and the name of a property
or a definition in the maps of such names; what enumerations, constants and the other keywords hold is
data. `normalize_schema` walks all of it in one way, so it keeps the contract exactly when no name and
no data looks like something that it drops, replaces or cuts.
-/

namespace McpFlow.Factory

open Json (Value)

/-- What a value is to the schema it stands in. -/
inductive SchemaPosition where
  /-- A schema, or a list of schemas. -/
  | schema
  /-- A map from names to schemas. -/
  | names
  /-- Anything else. -/
  | data
deriving DecidableEq, Repr

/-- The keywords that hold a map from names to schemas. -/
def nameMapKeywords : List String :=
  ["properties", "patternProperties", "$defs", "definitions", "dependentSchemas"]

/-- The keywords that hold a schema or a list of schemas. -/
def subschemaKeywords : List String :=
  ["items", "prefixItems", "additionalItems", "additionalProperties", "unevaluatedItems",
    "unevaluatedProperties", "contains", "propertyNames", "not", "if", "then", "else", "allOf",
    "anyOf", "oneOf", "contentSchema"]

/-- The position of the value under a key. -/
def SchemaPosition.member (pos : SchemaPosition) (key : String) : SchemaPosition :=
  match pos with
  | schema =>
    if nameMapKeywords.contains key then names
    else if subschemaKeywords.contains key then schema
    else data
  | names => schema
  | data => data

/-- The annotations: `example`, `examples`, `default`, `xml`, `externalDocs` and the extensions. -/
def isAnnotation (key : String) : Bool :=
  ['x', '-'].isPrefixOf key.toList || stripSchemaKeys.contains key

/-- The contract has no member for the key. -/
def SchemaPosition.drops (pos : SchemaPosition) (key : String) : Bool :=
  pos = .schema && isAnnotation key

/-- The value that a reference object names. What stands beside the reference is ignored, as OpenAPI
says of reference objects. -/
def target? (document node : Value) : Option Value :=
  (node.get? "$ref").bind fun raw => ((refText raw).bind (lookupRef document)).toOption

/-- The contracts of the members of an object. -/
def contractEntries (child : SchemaPosition → Value → Option Value) (pos : SchemaPosition) :
    List (String × Value) → Option (List (String × Value))
  | [] => some []
  | (key, value) :: members =>
    if pos.drops key then contractEntries child pos members
    else (child (pos.member key) value).bind fun value =>
      (contractEntries child pos members).map ((key, value) :: ·)

/-- The contract of a value at a position, followed for a number of steps; `none` where the references
do not end within them or name nothing. -/
def contract (document : Value) : ℕ → SchemaPosition → Value → Option Value
  | 0, _, _ => none
  | n + 1, pos, v =>
    match v, pos with
    | .arr items, .schema => (items.mapM (contract document n .schema)).map .arr
    | .obj members, .schema =>
      if (Value.obj members).hasKey "$ref" then
        (target? document (.obj members)).bind (contract document n .schema)
      else (contractEntries (contract document n) .schema members).map .obj
    | .obj members, .names => (contractEntries (contract document n) .names members).map .obj
    | v, _ => some v

/-! ### What the walk leaves alone -/

mutual
/-- Nothing in the data is dropped, replaced or cut. -/
def Verbatim : Value → Prop
  | .str s => s.toList.length ≤ maxStringLen
  | .arr items => VerbatimItems items
  | .obj members => (Value.obj members).hasKey "$ref" = false ∧ VerbatimMembers members
  | _ => True

/-- The same of the items of an array. -/
def VerbatimItems : List Value → Prop
  | [] => True
  | item :: items => Verbatim item ∧ VerbatimItems items

/-- The same of the members of an object. -/
def VerbatimMembers : List (String × Value) → Prop
  | [] => True
  | (key, item) :: members => (isStripped key = false ∧ Verbatim item) ∧ VerbatimMembers members
end

theorem verbatimItems_iff {items : List Value} :
    VerbatimItems items ↔ ∀ item ∈ items, Verbatim item := by
  induction items with
  | nil => simp [VerbatimItems]
  | cons item items ih => rw [VerbatimItems, ih, List.forall_mem_cons]

theorem verbatimMembers_iff {members : List (String × Value)} :
    VerbatimMembers members ↔ ∀ p ∈ members, isStripped p.1 = false ∧ Verbatim p.2 := by
  induction members with
  | nil => simp [VerbatimMembers]
  | cons p members ih => rw [VerbatimMembers, ih, List.forall_mem_cons]

/-- At every position that the references lead to, only annotations are dropped, only references of
schemas are replaced and nothing is cut. -/
def Kept (document : Value) : ℕ → SchemaPosition → Value → Prop
  | 0, _, _ => False
  | n + 1, pos, v =>
    match v, pos with
    | .arr items, .schema => ∀ item ∈ items, Kept document n .schema item
    | .obj members, .schema =>
      if (Value.obj members).hasKey "$ref" then
        ∃ target, target? document (.obj members) = some target ∧ Kept document n .schema target
      else
        ∀ p ∈ members, SchemaPosition.schema.drops p.1 = false →
          isStripped p.1 = false ∧ Kept document n (SchemaPosition.schema.member p.1) p.2
    | .obj members, .names =>
      (Value.obj members).hasKey "$ref" = false ∧
        ∀ p ∈ members, SchemaPosition.names.drops p.1 = false →
          isStripped p.1 = false ∧ Kept document n (SchemaPosition.names.member p.1) p.2
    | v, _ => Verbatim v

/-- The analysis stops at its limits. -/
def IsLimit (e : AppError) : Prop := e.code = "FACTORY_ANALYSIS_LIMIT_EXCEEDED"

/-- A walk within the limits returns `c` if and only if a condition holds. -/
def Returns {α : Type} (x : Except AppError (α × ℕ)) (c : α) (condition : Prop) : Prop :=
  match x with
  | .ok (r, _) => r = c ↔ condition
  | .error e => IsLimit e ∨ ¬ condition

end McpFlow.Factory
