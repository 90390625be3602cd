import McpFlow.Audit.Integrity
import McpFlow.Audit.Snapshot

/-!
# The audit ledger

What the ledger promises of a payload and of a stored event. A payload does not show what stands
under a sensitive key, unless the key is so long that it is cut; it is bounded in any case. A stored
event verifies; with one of its logical fields replaced, or its hash, it does not.
-/

namespace McpFlow.Audit

open Json (Value FloatText FloatRange)

variable {lower : String → String} {floats : FloatText} {sha256 : String → String}

/-! ### Payloads -/

theorem isObj_boundSerialized (members : List (String × Value)) :
    (boundSerialized floats (.obj members)).isObj = true := by
  rw [boundSerialized]
  split
  · rfl
  · split <;> rfl

/-- An object is sanitized to an object. -/
theorem isObj_sanitizeAuditValue (lower : String → String) (members : List (String × Value)) :
    (sanitizeAuditValue lower floats 0 (.obj members)).isObj = true := by
  rw [sanitizeAuditValue, if_neg (by decide)]
  exact isObj_boundSerialized _

theorem ensureJsonObject_obj (lower : String → String) (members : List (String × Value)) :
    ensureJsonObject lower floats (.obj members) =
      sanitizeAuditValue lower floats 0 (.obj members) := by
  rw [ensureJsonObject]
  exact if_pos (isObj_sanitizeAuditValue lower members)

/-- A short string below a short key is kept. -/
theorem boundSerialized_single {key s : String} (hkey : key.toList.length ≤ 1000)
    (hs : s.toList.length ≤ 1) :
    boundSerialized floats (.obj [(key, .str s)]) = .obj [(key, .str s)] := by
  have hprintable : (Value.obj [(key, .str s)]).printable = true := rfl
  have hmembers := @Value.utf8Length_textMembers_le floats 6002 8 [(key, .str s)] (by
      intro p hp
      rw [List.mem_singleton.mp hp]
      have hquote := Json.utf8Length_quote_le key
      have hvalue := Json.utf8Length_quote_le s
      rw [Value.text]
      exact ⟨by dsimp only; omega, by omega⟩) true
  have hopen : ('\x7b').utf8Size = 1 := by decide
  rw [boundSerialized, Value.dumps, if_pos hprintable]
  refine if_pos ?_
  rw [Value.text, Json.utf8Length_cons, hopen, maxSerializedBytes]
  rw [List.length_singleton] at hmembers
  omega

/-- What stands under a key that is cut is kept. -/
theorem ensureJsonObject_cutKey (hlower : ∀ s : String, '[' ∈ s.toList → '[' ∈ (lower s).toList)
    {key s : String} (hkey : 1000 < key.toList.length) (hs : s.toList.length ≤ 1) :
    ensureJsonObject lower floats (.obj [(key, .str s)]) =
      .obj [(truncateString key, .str s)] := by
  rw [ensureJsonObject_obj, sanitizeAuditValue_cutKey hlower hkey (hs.trans (by decide)),
    boundSerialized_single (length_truncateString_le key) hs]

/-! ### Events -/

/-- The keys that are hashed. -/
def hashedKeys : List String :=
  ["event_id", "occurred_at", "actor_type", "actor_id", "action", "resource_type", "resource_id",
    "execution_id", "result", "request_id", "trace_id", "source_ip_hash", "before_data",
    "after_data", "change_set", "reason"]

theorem map_fst_members (e : EventFields) : e.members.map Prod.fst = hashedKeys := rfl

theorem nodup_hashedKeys : hashedKeys.Nodup := by decide

theorem sortKeys_ofOptionStr (s : Option String) :
    (Value.ofOptionStr s).sortKeys = Value.ofOptionStr s := by
  cases s <;> rfl

theorem sortKeys_canonicalUuid (u : Option UUID) : (canonicalUuid u).sortKeys = canonicalUuid u := by
  cases u <;> rfl

/-- Events with one sorted dictionary are the same. -/
theorem EventFields.same_of_sortKeys_eq {e f : EventFields}
    (h : e.payload.sortKeys = f.payload.sortKeys) : e.Same f := by
  have hvalues := Value.map_sortKeys_eq ((map_fst_members e).trans (map_fst_members f).symm)
    (map_fst_members f ▸ nodup_hashedKeys) h
  simp only [EventFields.members, List.map_cons, List.map_nil, sortKeys_ofOptionStr, sortKeys_canonicalUuid,
    Value.sortKeys, List.cons.injEq, Value.str.injEq, and_true] at hvalues
  obtain ⟨hid, htime, hactor, hactorId, haction, htype, hresource, hexecution, hresult, hrequest,
    htrace, hip, hbefore, hafter, hchange, hreason⟩ := hvalues
  exact {
    eventId := Option.some.inj (canonicalUuid_injective hid)
    occurredAt := asUtcIso_inj htime
    actorType := hactor
    actorId := ofOptionStr_injective hactorId
    action := haction
    resourceType := ofOptionStr_injective htype
    resourceId := ofOptionStr_injective hresource
    executionId := canonicalUuid_injective hexecution
    result := hresult
    requestId := ofOptionStr_injective hrequest
    traceId := ofOptionStr_injective htrace
    sourceIpHash := ofOptionStr_injective hip
    beforeData := Value.sameValue_of_sortKeys_eq hbefore
    afterData := Value.sameValue_of_sortKeys_eq hafter
    changeSet := Value.sameValue_of_sortKeys_eq hchange
    reason := ofOptionStr_injective hreason }

theorem printable_ofOptionStr (s : Option String) : (Value.ofOptionStr s).printable = true := by
  cases s <;> rfl

theorem printable_canonicalUuid (u : Option UUID) : (canonicalUuid u).printable = true := by
  cases u <;> rfl

/-- The payload columns have texts. -/
def EventFields.Printable (e : EventFields) : Prop :=
  e.beforeData.printable = true ∧ e.afterData.printable = true ∧ e.changeSet.printable = true

theorem printable_payload_iff (e : EventFields) : e.payload.printable = true ↔ e.Printable := by
  simp only [EventFields.payload, EventFields.members, EventFields.Printable, Value.printable, Value.printableMembers,
    printable_ofOptionStr, printable_canonicalUuid, Bool.true_and, Bool.and_true, Bool.and_eq_true]

/-- The hash is computed when the payloads have texts. -/
theorem computeIntegrityHash_eq (e : EventFields) :
    computeIntegrityHash floats sha256 e =
      if e.payload.printable then
        .ok (sha256 (String.ofList (e.payload.sortKeys.text floats)))
      else .error digitLimit := by
  rw [computeIntegrityHash, canonicalizeAuditPayload, Value.dumps, Value.printable_sortKeys]
  by_cases h : e.payload.printable = true
  · rw [if_pos h, if_pos h]
    rfl
  · rw [if_neg h, if_neg h]
    rfl

/-- A hash that is not a collision determines the fields. -/
theorem same_of_computeIntegrityHash (hsha : Function.Injective sha256) {e f : EventFields}
    {hash : String} (he : computeIntegrityHash floats sha256 e = .ok hash)
    (hf : computeIntegrityHash floats sha256 f = .ok hash) : e.Same f := by
  rw [computeIntegrityHash_eq] at he hf
  split at he
  · split at hf
    · have htext := hsha ((Except.ok.inj he).trans (Except.ok.inj hf).symm)
      exact EventFields.same_of_sortKeys_eq (Value.text_injective (String.ofList_injective htext))
    · cases hf
  · cases he

/-- What the writer returns. -/
theorem appendImpl_eq_ok {around : Surroundings} {request : AppendRequest} {event : AuditEvent}
    (h : appendImpl lower floats sha256 around request = .ok event) :
    event.toEventFields = sanitizedFields lower floats around request ∧
      computeIntegrityHash floats sha256 event.toEventFields = .ok event.integrityHash := by
  rw [appendImpl] at h
  split at h
  · cases h
  · obtain ⟨hash, hhash, hevent⟩ := Except.bind_eq_ok_iff.mp h
    cases hevent
    exact ⟨rfl, hhash⟩

/-- An event whose action has between 1 and 128 characters is written. -/
theorem isOk_appendImpl {around : Surroundings} {request : AppendRequest}
    (haction : Text.strip request.action ≠ "") (hlen : (Text.strip request.action).toList.length ≤ 128)
    (hprintable : (sanitizedFields lower floats around request).Printable) :
    ∃ event, appendImpl lower floats sha256 around request = .ok event := by
  have hguard : ¬ ((sanitizedFields lower floats around request).action = "" ∨
      128 < (sanitizedFields lower floats around request).action.toList.length) :=
    not_or.mpr ⟨haction, Nat.not_lt.mpr hlen⟩
  rw [appendImpl]
  simp only [if_neg hguard]
  rw [computeIntegrityHash_eq, if_pos ((printable_payload_iff _).mpr hprintable)]
  exact ⟨_, rfl⟩

/-- Verification compares the stored hash with the one of the stored fields. -/
theorem verifyAuditEventIntegrity_eq {event : AuditEvent} {hash : String}
    (h : computeIntegrityHash floats sha256 event.toEventFields = .ok hash) :
    verifyAuditEventIntegrity floats sha256 event = .ok (hash == event.integrityHash) := by
  rw [verifyAuditEventIntegrity, h]
  rfl

/-- An event with other fields behind the same hash does not verify; it is refused where its payloads
have texts, and else the hash cannot be computed. -/
theorem verify_changed (hsha : Function.Injective sha256) {event changed : AuditEvent}
    (hevent : computeIntegrityHash floats sha256 event.toEventFields = .ok event.integrityHash)
    (hhash : changed.integrityHash = event.integrityHash)
    (hfields : ¬ changed.toEventFields.Same event.toEventFields) :
    verifyAuditEventIntegrity floats sha256 changed =
      if changed.payload.printable then .ok false else .error digitLimit := by
  by_cases h : changed.payload.printable = true
  · have hcompute := @computeIntegrityHash_eq floats sha256 changed.toEventFields
    rw [if_pos h] at hcompute
    rw [if_pos h, verifyAuditEventIntegrity_eq hcompute, Except.ok.injEq, beq_eq_false_iff_ne]
    intro heq
    rw [heq, hhash] at hcompute
    exact hfields (same_of_computeIntegrityHash hsha hcompute hevent)
  · rw [if_neg h, verifyAuditEventIntegrity, computeIntegrityHash_eq, if_neg h]
    rfl

/-! ### The promise -/

/-- For every set of sensitive keys, what stands below them does not show exactly when none of them
has more than 1000 characters: a longer key is cut before it is compared with the sensitive names.
Every object is sanitized within the bounds. A written event verifies, also under another row id, and
with another hash it does not; with other fields behind its hash it never verifies, and is refused
exactly where the integers of its payloads have at most 4300 digits. -/
theorem ledger_evident (hlower : ∀ s : String, '[' ∈ s.toList → '[' ∈ (lower s).toList)
    (hsha : Function.Injective sha256) :
    (∀ hidden : String → Prop, (∀ k, hidden k → isSensitiveKey lower k = true) →
      ((∀ members members', (Value.obj members).AgreeBut hidden (.obj members') →
        ensureJsonObject lower floats (.obj members) =
          ensureJsonObject lower floats (.obj members')) ↔
        ∀ k, hidden k → k.toList.length ≤ 1000)) ∧
      (∀ members, (Value.obj members).FloatsIn FloatRange →
        (ensureJsonObject lower floats (.obj members)).isObj = true ∧
          Snapshot floats (ensureJsonObject lower floats (.obj members))) ∧
      ∀ around request event, appendImpl lower floats sha256 around request = .ok event →
        (∀ stored : AuditEvent, stored.toEventFields = event.toEventFields →
          verifyAuditEventIntegrity floats sha256 stored =
            .ok (decide (stored.integrityHash = event.integrityHash))) ∧
        ∀ changed : AuditEvent, changed.integrityHash = event.integrityHash →
          ¬ changed.toEventFields.Same event.toEventFields →
          verifyAuditEventIntegrity floats sha256 changed ≠ .ok true ∧
            (verifyAuditEventIntegrity floats sha256 changed = .ok false ↔
              changed.toEventFields.Printable) := by
  refine ⟨fun hidden hsensitive => ⟨fun hblind k hk => ?_, fun hlen members members' hagree => ?_⟩,
    fun members hfloats => ?_, fun around request event hevent => ⟨fun stored hstored => ?_,
    fun changed hhash hfields => ?_⟩⟩
  · -- two strings below a key that is cut
    refine Nat.le_of_not_lt fun hlong => ?_
    have hagree : (Value.obj [(k, .str "a")]).AgreeBut hidden (.obj [(k, .str "b")]) :=
      ⟨rfl, .inl hk, trivial⟩
    have heq := hblind _ _ hagree
    rw [ensureJsonObject_cutKey hlower hlong (by decide),
      ensureJsonObject_cutKey hlower hlong (by decide)] at heq
    simp at heq
  · rw [ensureJsonObject_obj, ensureJsonObject_obj]
    exact sanitizeAuditValue_congr (fun k hk => ⟨hsensitive k hk, hlen k hk⟩) _ _ 0 hagree
  · rw [ensureJsonObject_obj]
    exact ⟨isObj_sanitizeAuditValue lower members, snapshot_sanitizeAuditValue lower hfloats⟩
  · have hcompute := (appendImpl_eq_ok hevent).2
    rw [← hstored] at hcompute
    rw [verifyAuditEventIntegrity_eq hcompute, Except.ok.injEq, Bool.eq_iff_iff, beq_iff_eq,
      decide_eq_true_eq, eq_comm]
  · rw [verify_changed hsha (appendImpl_eq_ok hevent).2 hhash hfields]
    have hiff := printable_payload_iff changed.toEventFields
    by_cases h : changed.payload.printable = true
    · rw [if_pos h]
      exact ⟨by simp, fun _ => hiff.mp h, fun _ => rfl⟩
    · rw [if_neg h]
      exact ⟨by simp, fun herror => by simp at herror, fun hprintable => absurd (hiff.mpr hprintable) h⟩

/-- `str.lower` on ASCII text. -/
def asciiLower (s : String) : String := String.ofList (s.toList.map Char.toLower)

theorem bracket_mem_asciiLower (s : String) (h : '[' ∈ s.toList) : '[' ∈ (asciiLower s).toList := by
  rw [asciiLower, String.toList_ofList]
  exact List.mem_map.mpr ⟨'[', h, by decide⟩

/-- A login that names its password. -/
def loginRequest : AppendRequest where
  actorType := .inl .user
  actorId := some "u-1"
  action := "auth.login"
  result := .inl .success
  resourceType := none
  resourceId := none
  executionId := none
  requestId := none
  traceId := none
  beforeData := .null
  afterData := .obj [("password", .str "a")]
  changeSet := .null
  reason := none
  occurredAt := none
  eventId := none
  bindRequestId := true

/-- The surroundings of the login. -/
def loginSurroundings : Surroundings where
  currentRequestId := some "r-1"
  now := .naive ⟨2026, 10, 6, 12, 30, 0, 0, by decide, by decide, by decide, by decide, by decide,
    by decide, by decide⟩
  uuid4 := .ofNat 1
  nextId := 1

theorem ledger_evident_login :
    ensureJsonObject asciiLower Json.fractionText (.obj [("password", .str "a")]) =
        ensureJsonObject asciiLower Json.fractionText (.obj [("password", .str "b")]) ∧
      ∃ event, appendImpl asciiLower Json.fractionText id loginSurroundings loginRequest =
          .ok event ∧
        verifyAuditEventIntegrity Json.fractionText id event = .ok true ∧
        verifyAuditEventIntegrity Json.fractionText id { event with actorId := some "u-2" } =
          .ok false := by
  obtain ⟨hblind, hbounds, hevents⟩ :=
    @ledger_evident asciiLower Json.fractionText id bracket_mem_asciiLower Function.injective_id
  have hlogin := hbounds [("password", .str "a")] ⟨trivial, trivial⟩
  have hprintable :
      (sanitizedFields asciiLower Json.fractionText loginSurroundings loginRequest).Printable :=
    ⟨rfl, hlogin.2.printable, rfl⟩
  obtain ⟨event, hevent⟩ := @isOk_appendImpl _ _ id _ _ (by decide) (by decide) hprintable
  have hfields := (appendImpl_eq_ok hevent).1
  obtain ⟨hsame, hchanged⟩ := hevents _ _ event hevent
  refine ⟨?_, event, hevent, by simpa using hsame event rfl, ?_⟩
  · refine (hblind (· = "password") ?_).mpr ?_ _ _ ⟨rfl, .inl rfl, trivial⟩
    · rintro _ rfl
      decide
    · rintro _ rfl
      decide
  · refine (hchanged { event with actorId := some "u-2" } rfl fun hsame => ?_).2.mpr ?_
    · have hactor : some "u-2" = event.actorId := hsame.actorId
      rw [hfields] at hactor
      exact absurd hactor (by decide)
    · have hevent_printable : event.toEventFields.Printable := hfields ▸ hprintable
      exact hevent_printable

/-- The key `password` with a thousand underscores. -/
def longKey : String := "p" ++ String.ofList (List.replicate 1000 '_') ++ "assword"

theorem not_blind_longKey :
    isSensitiveKey asciiLower longKey = true ∧
      (Value.obj [(longKey, .str "a")]).AgreeBut (isSensitiveKey asciiLower · = true)
        (.obj [(longKey, .str "b")]) ∧
      ensureJsonObject asciiLower Json.fractionText (.obj [(longKey, .str "a")]) ≠
        ensureJsonObject asciiLower Json.fractionText (.obj [(longKey, .str "b")]) := by
  have hchars : longKey.toList = 'p' :: (List.replicate 1000 '_' ++ "assword".toList) := by
    rw [longKey, String.toList_append, String.toList_append, String.toList_ofList,
      String.toList_ofList, List.append_assoc, List.singleton_append]
  have hsensitive : isSensitiveKey asciiLower longKey = true := by
    have hnormal : normalizeKey asciiLower longKey = "password" := by
      rw [normalizeKey, asciiLower, String.toList_ofList, hchars, List.map_cons, List.map_append,
        List.map_replicate, List.filter_cons_of_pos (by decide), List.filter_append,
        List.filter_replicate_of_neg (by decide)]
      decide
    rw [isSensitiveKey, hnormal]
    decide
  have hlong : 1000 < longKey.toList.length := by
    rw [hchars, List.length_cons, List.length_append, List.length_replicate]
    omega
  refine ⟨hsensitive, ⟨rfl, .inl hsensitive, trivial⟩, ?_⟩
  rw [ensureJsonObject_cutKey bracket_mem_asciiLower hlong (by decide),
    ensureJsonObject_cutKey bracket_mem_asciiLower hlong (by decide)]
  simp

end McpFlow.Audit
