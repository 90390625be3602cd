import McpFlow.Audit.Sanitize
import McpFlow.Library.Except
import McpFlow.Library.IsoTime
import McpFlow.Library.JsonOrder
import McpFlow.Library.Uuid

/-!
# The integrity hash of an audit event

`compute_integrity_hash` digests the compact text of the logical fields of an event, the members of
every object sorted by key. The writer sanitizes the payloads, computes the hash and appends the
event; `verify_audit_event_integrity` computes the hash of a stored event again.
-/

namespace McpFlow.Audit

open Json (Value FloatText)

/-- The logical fields of an event. An absent payload is `null`. -/
structure EventFields where
  eventId : UUID
  occurredAt : DateTime
  actorType : String
  actorId : Option String
  action : String
  resourceType : Option String
  resourceId : Option String
  executionId : Option UUID
  result : String
  requestId : Option String
  traceId : Option String
  sourceIpHash : Option String
  beforeData : Value
  afterData : Value
  changeSet : Value
  reason : Option String

/-- A row of `audit_events`. -/
structure AuditEvent extends EventFields where
  id : ℕ
  integrityHash : String

/-- The text of the `ValueError` for an integer that is too long. -/
def digitLimit : String := "Exceeds the limit (4300 digits) for integer string conversion"

/-- `_as_utc_iso`: the offset `+00:00` of a moment in UTC is written `Z`. -/
def asUtcIso (value : DateTime) : String :=
  String.ofList (value.toUtc.utcClock.isoformat ++ ['Z'])

/-- `_canonical_uuid`: the text of a UUID is read back as that UUID and in lower case already. -/
def canonicalUuid : Option UUID → Value
  | none => .null
  | some u => .str u.toString

/-- The members of the dictionary that is hashed. -/
def EventFields.members (e : EventFields) : List (String × Value) :=
  [ ("event_id", canonicalUuid (some e.eventId)),
    ("occurred_at", .str (asUtcIso e.occurredAt)),
    ("actor_type", .str e.actorType),
    ("actor_id", .ofOptionStr e.actorId),
    ("action", .str e.action),
    ("resource_type", .ofOptionStr e.resourceType),
    ("resource_id", .ofOptionStr e.resourceId),
    ("execution_id", canonicalUuid e.executionId),
    ("result", .str e.result),
    ("request_id", .ofOptionStr e.requestId),
    ("trace_id", .ofOptionStr e.traceId),
    ("source_ip_hash", .ofOptionStr e.sourceIpHash),
    ("before_data", e.beforeData),
    ("after_data", e.afterData),
    ("change_set", e.changeSet),
    ("reason", .ofOptionStr e.reason)]

/-- The dictionary that is hashed. -/
def EventFields.payload (e : EventFields) : Value := .obj e.members

section Hash

variable (floats : FloatText) (sha256 : String → String)

/-- `canonicalize_audit_payload`. -/
def canonicalizeAuditPayload (fields : Value) : Except String String :=
  match fields.sortKeys.dumps floats with
  | some text => .ok (String.ofList text)
  | none => .error digitLimit

/-- `compute_integrity_hash`. -/
def computeIntegrityHash (e : EventFields) : Except String String := do
  let canonical ← canonicalizeAuditPayload floats e.payload
  return sha256 canonical

/-- `verify_audit_event_integrity`. -/
def verifyAuditEventIntegrity (event : AuditEvent) : Except String Bool := do
  let expected ← computeIntegrityHash floats sha256 event.toEventFields
  return expected == event.integrityHash

end Hash

/-! ### The writer -/

/-- `AuditActorType`. -/
inductive AuditActorType where
  | user | service | system
deriving DecidableEq, Repr

/-- The value of an actor type. -/
def AuditActorType.value : AuditActorType → String
  | user => "USER"
  | service => "SERVICE"
  | system => "SYSTEM"

/-- `AuditResult`. -/
inductive AuditResult where
  | success | denied | failure
deriving DecidableEq, Repr

/-- The value of a result. -/
def AuditResult.value : AuditResult → String
  | success => "SUCCESS"
  | denied => "DENIED"
  | failure => "FAILURE"

/-- The arguments of `_append_impl`. -/
structure AppendRequest where
  actorType : AuditActorType ⊕ String
  actorId : Option String
  action : String
  result : AuditResult ⊕ String
  resourceType : Option String
  resourceId : Option String
  executionId : Option UUID
  requestId : Option String
  traceId : Option String
  beforeData : Value
  afterData : Value
  changeSet : Value
  reason : Option String
  occurredAt : Option DateTime
  eventId : Option UUID
  bindRequestId : Bool

/-- What a call of the writer finds around it: the id of the current request, the clock, the id that
`uuid4` draws and the key that the database gives the row. -/
structure Surroundings where
  currentRequestId : Option String
  now : DateTime
  uuid4 : UUID
  nextId : ℕ

/-- The error of an action that is blank or too long. -/
def actionLength : String := "Audit action must be 1..128 characters."

section Append

variable (lower : String → String) (floats : FloatText) (sha256 : String → String)

/-- The fields of the event that `_append_impl` writes. -/
def sanitizedFields (around : Surroundings) (request : AppendRequest) : EventFields where
  eventId := request.eventId.getD around.uuid4
  occurredAt := (request.occurredAt.getD around.now).toUtc
  actorType := request.actorType.elim AuditActorType.value id
  actorId := request.actorId
  action := Text.strip request.action
  resourceType := request.resourceType
  resourceId := request.resourceId
  executionId := request.executionId
  result := request.result.elim AuditResult.value id
  requestId := if request.bindRequestId && request.requestId.isNone then around.currentRequestId
    else request.requestId
  traceId := request.traceId
  sourceIpHash := none
  beforeData := ensureJsonObject lower floats request.beforeData
  afterData := ensureJsonObject lower floats request.afterData
  changeSet := ensureJsonObject lower floats request.changeSet
  reason := sanitizeReason request.reason

/-- `_append_impl`. -/
def appendImpl (around : Surroundings) (request : AppendRequest) : Except String AuditEvent := do
  let fields := sanitizedFields lower floats around request
  if fields.action = "" ∨ 128 < fields.action.toList.length then
    .error actionLength
  else
    let integrity ← computeIntegrityHash floats sha256 fields
    return { fields with id := around.nextId, integrityHash := integrity }

end Append

/-! ### The hash determines the fields -/

/-- The columns hold the same data: a moment may be shown at another offset, and the members of a
payload may come in another order. -/
structure EventFields.Same (e f : EventFields) : Prop where
  eventId : e.eventId = f.eventId
  occurredAt : e.occurredAt.utcClock = f.occurredAt.utcClock
  actorType : e.actorType = f.actorType
  actorId : e.actorId = f.actorId
  action : e.action = f.action
  resourceType : e.resourceType = f.resourceType
  resourceId : e.resourceId = f.resourceId
  executionId : e.executionId = f.executionId
  result : e.result = f.result
  requestId : e.requestId = f.requestId
  traceId : e.traceId = f.traceId
  sourceIpHash : e.sourceIpHash = f.sourceIpHash
  beforeData : e.beforeData.SameValue f.beforeData
  afterData : e.afterData.SameValue f.afterData
  changeSet : e.changeSet.SameValue f.changeSet
  reason : e.reason = f.reason

theorem asUtcIso_inj {t u : DateTime} (h : asUtcIso t = asUtcIso u) : t.utcClock = u.utcClock := by
  have htext := List.append_cancel_right (String.ofList_injective h)
  rw [DateTime.utcClock_toUtc, DateTime.utcClock_toUtc] at htext
  exact WallClock.isoformat_injective htext

theorem canonicalUuid_injective : Function.Injective canonicalUuid := by
  intro u v h
  match u, v with
  | none, none => rfl
  | some u, some v => exact congrArg some (UUID.toString_injective (Value.str.inj h))

theorem ofOptionStr_injective : Function.Injective Value.ofOptionStr := by
  intro s t h
  match s, t with
  | none, none => rfl
  | some s, some t => exact congrArg some (Value.str.inj h)

end McpFlow.Audit
