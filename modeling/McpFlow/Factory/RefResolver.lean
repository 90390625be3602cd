import McpFlow.Bindings.Pointer
import McpFlow.Factory.Candidate

/-!
# The reference resolver of the analyzer

`_RefResolver` looks internal references up in the document, follows chains of references, and
normalizes a schema: one walk replaces the references below it, drops the keys it strips and cuts long
strings. A counter of the visited nodes runs through all calls.
-/

namespace McpFlow.Factory

open Json (Value)

/-- `MAX_STRING_LEN`. -/
def maxStringLen : ℕ := 2000

/-- `MAX_REF_DEPTH`. -/
def maxRefDepth : ℕ := 32

/-- `MAX_SCHEMA_NODES`. -/
def maxSchemaNodes : ℕ := 5000

/-- `_STRIP_SCHEMA_KEYS`. -/
def stripSchemaKeys : List String := ["example", "examples", "default", "xml", "externalDocs"]

/-- An analysis beyond the limits. -/
def limitExceeded (message : String) : AppError := ⟨"FACTORY_ANALYSIS_LIMIT_EXCEEDED", message⟩

/-- A reference that leaves the document. -/
def externalRef : AppError :=
  ⟨"FACTORY_EXTERNAL_REF_REJECTED", "External or non-document OpenAPI $ref values are rejected."⟩

/-- A pointer that leads nowhere. -/
def unresolved : AppError := structureInvalid "OpenAPI internal $ref could not be resolved."

/-! ### Pointers -/

/-- `int(text)`; `none` is a `ValueError`. Blanks around the number and single underscores between the
digits are allowed. -/
def intOf? (text : String) : Option ℤ :=
  let read (digits : List Char) : Option ℕ :=
    let groups := List.pieces ['_'] digits
    if groups.any List.isEmpty then none
    else if Digits.maxStrDigits < groups.flatten.length then none
    else (groups.flatten.mapM Digits.decimal?).map Digits.value
  match (Text.strip text).toList with
  | '-' :: digits => (read digits).map fun n => -(n : ℤ)
  | '+' :: digits => (read digits).map fun n => (n : ℤ)
  | digits => (read digits).map fun n => (n : ℤ)

/-- One step of `_lookup`. -/
def lookupPart (current : Value) (part : String) : Except AppError Value :=
  match current with
  | .obj members => match members.lookup part with
    | some next => .ok next
    | none => .error unresolved
  | .arr items => match intOf? part with
    | none => .error unresolved
    | some index =>
      if index < 0 then .error unresolved
      else match items[index.toNat]? with
        | some next => .ok next
        | none => .error unresolved
  | _ => .error unresolved

/-- The parts of a pointer: the slashes in front are dropped. -/
def pointerParts (pointer : List Char) : List String :=
  (List.pieces ['/'] (pointer.dropWhile (· == '/'))).map fun rawPart =>
    String.ofList (Pointer.decodePointerToken rawPart)

/-- `_lookup`. -/
def lookupRef (document : Value) (ref : String) : Except AppError Value :=
  let pointer := ref.toList.drop 1
  if pointer.head? ≠ some '/' then
    .error (structureInvalid "OpenAPI internal $ref pointer is invalid.")
  else (pointerParts pointer).foldlM lookupPart document

/-- The text of a reference that stays in the document. -/
def refText (ref : Value) : Except AppError String :=
  match ref with
  | .str raw =>
    let ref := Text.strip raw
    if ref = "" then .error (structureInvalid "OpenAPI $ref must be a non-empty string.")
    else if ['#', '/'].isPrefixOf ref.toList then .ok ref
    else .error externalRef
  | _ => .error (structureInvalid "OpenAPI $ref must be a non-empty string.")

/-! ### Resolution -/

/-- One more node was visited. -/
def countNode (seen : ℕ) : Except AppError ℕ :=
  if maxSchemaNodes < seen + 1 then
    .error (limitExceeded "OpenAPI schema traversal exceeds maximum of 5000 nodes.")
  else .ok (seen + 1)

/-- `_resolve`; the references in the stack and `left` make `MAX_REF_DEPTH`. -/
def resolveNode (document : Value) : ℕ → List String → ℕ → Value → Except AppError (Value × ℕ)
  | left, stack, seen, node => do
    let seen ← countNode seen
    match node.get? "$ref" with
    | none => return (node, seen)
    | some raw => do
      let ref ← refText raw
      match left with
      | 0 => .error (limitExceeded "OpenAPI $ref depth exceeds maximum of 32.")
      | left + 1 =>
        if ref ∈ stack then .error (structureInvalid "OpenAPI $ref cycle detected.")
        else do
          let target ← lookupRef document ref
          resolveNode document left (stack ++ [ref]) seen target

/-! ### Normalization -/

/-- The keys that are not copied. -/
def isStripped (key : String) : Bool :=
  ['x', '-'].isPrefixOf key.toList || stripSchemaKeys.contains key ||
    ["authorizationCode", "clientSecret", "password"].contains key

/-- The loop over the members of an object; `sanitize` is the recursive call. -/
def sanitizeEntries (sanitize : ℕ → Value → Except AppError (Value × ℕ)) :
    ℕ → List (String × Value) → Except AppError (List (String × Value) × ℕ)
  | seen, [] => .ok ([], seen)
  | seen, (key, value) :: members =>
    if isStripped key then sanitizeEntries sanitize seen members
    else do
      let (value, seen) ← sanitize seen value
      let (members, seen) ← sanitizeEntries sanitize seen members
      return ((key, value) :: members, seen)

/-- The loop over the items of a list. -/
def sanitizeList (sanitize : ℕ → Value → Except AppError (Value × ℕ)) :
    ℕ → List Value → Except AppError (List Value × ℕ)
  | seen, [] => .ok ([], seen)
  | seen, item :: items => do
    let (item, seen) ← sanitize seen item
    let (items, seen) ← sanitizeList sanitize seen items
    return (item :: items, seen)

/-- `_sanitize`; the depth and the first argument make `MAX_REF_DEPTH + 1`. -/
def sanitizeNode (document : Value) : ℕ → ℕ → Value → Except AppError (Value × ℕ)
  | 0, _, _ => .error (limitExceeded "OpenAPI schema depth exceeds maximum of 32.")
  | left + 1, seen, node => do
    let seen ← countNode seen
    match node with
    | .obj members =>
      if (Value.obj members).hasKey "$ref" then do
        let (resolved, seen) ← resolveNode document maxRefDepth [] seen (.obj members)
        sanitizeNode document left seen resolved
      else do
        let (members, seen) ← sanitizeEntries (sanitizeNode document left) seen members
        return (.obj members, seen)
    | .arr items =>
      if maxSchemaNodes < items.length then
        .error (limitExceeded "OpenAPI schema list exceeds analyzer limits.")
      else do
        let (items, seen) ← sanitizeList (sanitizeNode document left) seen items
        return (.arr items, seen)
    | .str s => return (.str (String.ofList (s.toList.take maxStringLen)), seen)
    | node => return (node, seen)

/-- `normalize_schema`. -/
def normalizeSchema (document : Value) (seen : ℕ) (schema : Value) :
    Except AppError (Value × ℕ) := do
  let (resolved, seen) ← resolveNode document maxRefDepth [] seen schema
  let (normalized, seen) ← sanitizeNode document (maxRefDepth + 1) seen resolved
  if normalized.isObj then return (normalized, seen)
  else .error (structureInvalid "OpenAPI schema must resolve to an object.")

end McpFlow.Factory
