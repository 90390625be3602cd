import McpFlow.Library.Dict
import McpFlow.Library.JsonText
import McpFlow.Library.Text

/-!
# Sanitized audit payloads

`sanitize_audit_value` walks a payload before it is written to the audit ledger: the value under a
sensitive key is replaced by a marker, strings, objects, lists and the nesting are cut, and every
object or list whose text is too long becomes a summary.
-/

namespace McpFlow.Audit

open Json (Value FloatText utf8Length)

/-- `REDACTION_MARKER`. -/
def redactionMarker : String := "[REDACTED]"

/-- `TRUNCATION_MARKER`. -/
def truncationMarker : String := "[TRUNCATED]"

/-- `INVALID_REASON_MARKER`. -/
def invalidReasonMarker : String := "INVALID_REASON_REDACTED"

/-- `MAX_NESTING_DEPTH`. -/
def maxNestingDepth : ℕ := 8

/-- `MAX_OBJECT_KEYS`. -/
def maxObjectKeys : ℕ := 64

/-- `MAX_LIST_ITEMS`. -/
def maxListItems : ℕ := 64

/-- `MAX_STRING_LENGTH`. -/
def maxStringLength : ℕ := 1000

/-- `MAX_SERIALIZED_BYTES`. -/
def maxSerializedBytes : ℕ := 8192

/-- `_SENSITIVE_KEYS`. -/
def sensitiveKeys : List String :=
  ["password", "passwordhash", "secret", "secretvalue", "secretkey", "apikey", "accesstoken",
    "refreshtoken", "authorization", "cookie", "setcookie", "sessiontoken", "csrftoken",
    "encryptionkey", "rawsessiontoken", "requeststate", "clientsecret", "tokenhash", "csrftokenhash",
    "token", "credential", "credentials", "authtoken", "bearertoken", "privatekey"]

/-- `_truncate_string`. -/
def truncateString (value : String) : String :=
  if value.toList.length ≤ maxStringLength then value
  else
    String.ofList (value.toList.take (maxStringLength - truncationMarker.toList.length)) ++
      truncationMarker

/-- The characters of `_REASON_CODE` behind the first one. -/
def isReasonChar (c : Char) : Bool :=
  c.isUpper || c.isDigit || c == '_' || c == '.' || c == ':' || c == '-'

/-- `_REASON_CODE.fullmatch`. -/
def isReasonCode (s : String) : Bool :=
  match s.toList with
  | [] => false
  | c :: cs => (c.isUpper || c.isDigit) && cs.length ≤ 127 && cs.all isReasonChar

/-- `sanitize_reason`. -/
def sanitizeReason : Option String → Option String
  | none => none
  | some reason =>
    let cleaned := Text.strip reason
    if cleaned = "" then none
    else if isReasonCode cleaned then some cleaned
    else some invalidReasonMarker

section Sanitize

variable (lower : String → String) (floats : FloatText)

/-- `_normalize_key`. -/
def normalizeKey (key : String) : String :=
  String.ofList ((lower key).toList.filter fun c => !(c == '_' || c == '-' || c == ' '))

/-- `_is_sensitive_key`. -/
def isSensitiveKey (key : String) : Bool := sensitiveKeys.contains (normalizeKey lower key)

/-- `_bound_serialized`. -/
def boundSerialized (value : Value) : Value :=
  match value.dumps floats with
  | none => .obj [("_error", .str truncationMarker)]
  | some raw =>
    if utf8Length raw ≤ maxSerializedBytes then value
    else .obj [("_truncated", .str truncationMarker), ("_original_bytes", .int (utf8Length raw))]

mutual
/-- `sanitize_audit_value`. -/
def sanitizeAuditValue (depth : ℕ) : Value → Value
  | .null => if maxNestingDepth < depth then .str truncationMarker else .null
  | .bool b => if maxNestingDepth < depth then .str truncationMarker else .bool b
  | .int i => if maxNestingDepth < depth then .str truncationMarker else .int i
  | .float q => if maxNestingDepth < depth then .str truncationMarker else .float q
  | .str s => if maxNestingDepth < depth then .str truncationMarker else .str (truncateString s)
  | .obj members =>
    if maxNestingDepth < depth then .str truncationMarker
    else boundSerialized floats (.obj (sanitizeMembers depth 0 [] members))
  | .arr items =>
    if maxNestingDepth < depth then .str truncationMarker
    else boundSerialized floats (.arr (sanitizeItems depth maxListItems items))

/-- The items of a list while `left` more are kept, and the marker where there are more. -/
def sanitizeItems (depth : ℕ) : ℕ → List Value → List Value
  | _, [] => []
  | 0, _ :: _ => [.str truncationMarker]
  | left + 1, item :: items => sanitizeAuditValue (depth + 1) item :: sanitizeItems depth left items

/-- The loop over the members of an object, from `index` on. -/
def sanitizeMembers (depth : ℕ) : ℕ → Dict Value → List (String × Value) → Dict Value
  | _, out, [] => out
  | index, out, (rawKey, rawVal) :: members =>
    if maxObjectKeys ≤ index then out.set truncationMarker (.str truncationMarker)
    else
      let key := truncateString rawKey
      if isSensitiveKey lower key then
        sanitizeMembers depth (index + 1) (out.set key (.str redactionMarker)) members
      else
        sanitizeMembers depth (index + 1) (out.set key (sanitizeAuditValue (depth + 1) rawVal)) members
end

/-- `ensure_json_object`; an absent payload is `null`. -/
def ensureJsonObject (value : Value) : Value :=
  if value.isNull then .null
  else
    let sanitized := sanitizeAuditValue lower floats 0 value
    if sanitized.isObj then sanitized else .obj [("_value", sanitized)]

end Sanitize

/-! ### Keys -/

theorem length_truncationMarker : truncationMarker.toList.length = 11 := by decide

theorem truncateString_of_le {s : String} (h : s.toList.length ≤ 1000) : truncateString s = s := by
  rw [truncateString, maxStringLength, if_pos h]

theorem length_truncateString_le (s : String) : (truncateString s).toList.length ≤ 1000 := by
  rw [truncateString, maxStringLength]
  split
  · assumption
  · rw [String.toList_append, String.toList_ofList, List.length_append, length_truncationMarker,
      List.length_take]
    omega

/-- The marker of a cut key is seen. -/
theorem mem_truncateString {s : String} (h : 1000 < s.toList.length) :
    '[' ∈ (truncateString s).toList := by
  rw [truncateString, maxStringLength, if_neg (Nat.not_le.mpr h), String.toList_append]
  exact List.mem_append_right _ (by decide)

section Keys

variable {lower : String → String}

/-- No sensitive name has a bracket, and neither folding nor the removal of separators takes one
away. -/
theorem isSensitiveKey_of_bracket (hlower : ∀ s : String, '[' ∈ s.toList → '[' ∈ (lower s).toList)
    {key : String} (h : '[' ∈ key.toList) : isSensitiveKey lower key = false := by
  have hnames : ∀ name ∈ sensitiveKeys, '[' ∉ name.toList := by decide
  have hmem : '[' ∈ (normalizeKey lower key).toList := by
    rw [normalizeKey, String.toList_ofList]
    exact List.mem_filter.mpr ⟨hlower key h, by decide⟩
  rw [isSensitiveKey, ← Bool.not_eq_true, List.contains_iff_mem]
  exact fun hin => hnames _ hin hmem

end Keys

end McpFlow.Audit
