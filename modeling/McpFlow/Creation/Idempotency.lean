import McpFlow.Creation.Requests

/-!
# Creations are idempotent

The invariant of the interleaved creations ties the records to the calls: every record was written by
the one call that created its Execution, every successful call has the record of its key with its own
response and the hash of its own request, and an insert that is not committed is the only one of its
key, whose record does not exist yet. A commit is the only step that changes the tables.
-/

namespace McpFlow.Creation

open Json (FloatText Value)
open Workflow (Failure Platform)

variable {env : Platform} {floats : FloatText} {sha256 : String → String}

/-! ### What one service does -/

/-- A replay returns the stored response of the same request. -/
theorem replayOrConflict_eq_ok {c : Call} {hash : String} {record : IdempotencyRecord}
    {execution : UUID → Option ExecutionRow} {result : CreateResult}
    (h : c.replayOrConflict hash record execution = .ok result) :
    record.requestHash = hash ∧ record.responseBody = some result ∧
      record.resourceId = some result.id := by
  simp only [Call.replayOrConflict, conflict, Except.bind_eq_ok_iff, Workflow.require_eq_ok_iff,
    Workflow.found_eq_ok_iff, decide_eq_true_eq, exists_const] at h
  obtain ⟨hhash, -, -, resourceId, hresource, e, -, -, -, body, hbody, -, howns, hresult⟩ := h
  cases hresult
  have hid : result.id = resourceId := by
    rw [Call.ownsResult] at howns
    split at howns <;> simp_all
  exact ⟨hhash, hbody, by rw [hresource, hid]⟩

/-- The rows belong to the result of the call. -/
structure Made (c : Call) (hash : String) (rows : Pending) : Prop where
  key : rows.record.key = c.recordKey
  requestHash : rows.record.requestHash = hash
  responseBody : rows.record.responseBody = some rows.result
  resourceId : rows.record.resourceId = some rows.result.id
  execution : rows.execution.id = rows.result.id
  steps : ∀ s ∈ rows.steps, s.executionId = rows.result.id
  event : rows.event.executionId = rows.result.id

theorem insertCreated_eq_ok {c : Call} {resolved : Resolved} {hash : String} {ctx : Context}
    {id : UUID} {now : Time} {rows : Pending}
    (h : c.insertCreated env resolved hash ctx id now = .ok rows) :
    Made c hash rows ∧ rows.result.id = id := by
  rw [Call.insertCreated] at h
  obtain ⟨projections, -, h⟩ := Except.bind_eq_ok_iff.mp h
  obtain ⟨lineage, -, h⟩ := Except.bind_eq_ok_iff.mp h
  dsimp only at h
  split at h
  · cases h
  · cases h
    exact ⟨⟨rfl, rfl, rfl, rfl, rfl, by simp [Call.executionRow], rfl⟩, rfl⟩

/-! ### The invariant -/

/-- The call created the Execution of the result. -/
def CallState.Created (s : CallState) (payload : Value) (result : CreateResult) : Prop :=
  s.phase = .succeeded payload ⟨result, false⟩

/-- The record holds the response to a request. -/
def IdempotencyRecord.Holds (r : IdempotencyRecord) (hash : String) (result : CreateResult) : Prop :=
  r.requestHash = hash ∧ r.responseBody = some result ∧ r.resourceId = some result.id

variable (floats sha256) in
/-- What the phase of a call says of the tables. -/
def CallState.Good (w : World) (s : CallState) : Prop :=
  match s.phase with
  | .hit _ record => record ∈ w.records ∧ record.key = s.call.recordKey
  | .inserted resolved rows =>
    Made s.call (s.call.body.requestHash floats sha256 resolved.payload) rows ∧ (∀ r ∈ w.records, r.key ≠ s.call.recordKey) ∧
      ∀ e ∈ w.executions, e.id ≠ rows.execution.id
  | .succeeded payload outcome =>
    ∃ r ∈ w.records, r.key = s.call.recordKey ∧ 
      r.Holds (s.call.body.requestHash floats sha256 payload) outcome.result
  | _ => True

variable (floats sha256) in
/-- The invariant of all runs. -/
structure Inv (w : World) : Prop where
  good : ∀ s ∈ w.calls, s.Good floats sha256 w
  pending_unique : ∀ (i j : ℕ) (s t : CallState) (rows rows' : Pending), w.calls[i]? = some s →
    w.calls[j]? = some t → s.pending? = some rows → t.pending? = some rows' →
    rows.record.key = rows'.record.key ∨ rows.execution.id = rows'.execution.id → i = j
  created_unique : ∀ (i j : ℕ) (s t : CallState) (p q : Value) (a b : CreateResult),
    w.calls[i]? = some s → w.calls[j]? = some t → s.Created p a → t.Created q b → s.call.recordKey = t.call.recordKey ∨ a.id = b.id → i = j
  recorded : ∀ r ∈ w.records, ∃ s ∈ w.calls, ∃ payload result, s.Created payload result ∧
    s.call.recordKey = r.key ∧ 
      r.Holds (s.call.body.requestHash floats sha256 payload) result
  executions : ∀ e ∈ w.executions, ∃ r ∈ w.records, r.resourceId = some e.id
  existing : ∀ r ∈ w.records, ∃ e ∈ w.executions, r.resourceId = some e.id
  steps : ∀ s ∈ w.steps, ∃ e ∈ w.executions, e.id = s.executionId
  events : ∀ v ∈ w.events, ∃ e ∈ w.executions, e.id = v.executionId

theorem inv_initial : Inv floats sha256 World.initial := by
  constructor <;> simp [World.initial, Table.mem_def]

theorem pending?_eq_some {s : CallState} {rows : Pending} (h : s.pending? = some rows) :
    ∃ resolved, s.phase = .inserted resolved rows := by
  rw [CallState.pending?] at h
  split at h
  · next hphase =>
    cases h
    exact ⟨_, hphase⟩
  · cases h

/-- A call that has rows in an open transaction has no answer. -/
theorem pending?_of_created {s : CallState} {p : Value} {a : CreateResult} (h : s.Created p a) :
    s.pending? = none := by
  rw [CallState.Created] at h
  rw [CallState.pending?, h]

/-! ### Steps that leave the tables -/

/-- A step of one call that leaves the tables: the call has no answer before it, and did not create
anything; what it holds uncommitted after it, it holds alone. -/
theorem Inv.setPhase {w : World} (h : Inv floats sha256 w) {i : ℕ} {s : CallState} {phase : Phase}
    (hs : w.calls[i]? = some s) (hopen : ∀ p o, s.phase ≠ .succeeded p o)
    (hgood : CallState.Good floats sha256 w { s with phase := phase })
    (hnew : ∀ p a, phase ≠ .succeeded p ⟨a, false⟩)
    (halone : ∀ resolved rows, phase = .inserted resolved rows →
      ∀ (j : ℕ) (t : CallState) (rows' : Pending), w.calls[j]? = some t → t.pending? = some rows' →
      rows.record.key ≠ rows'.record.key ∧ rows.execution.id ≠ rows'.execution.id) :
    Inv floats sha256 (w.setPhase i s phase) := by
  refine {
    good := fun t ht => ?_
    pending_unique := fun j k t u rows rows' ht hu hrows hrows' hsame => ?_
    created_unique := fun j k t u p q a b ht hu hp hq hsame => ?_
    recorded := fun r hr => ?_
    executions := h.executions
    existing := h.existing
    steps := h.steps
    events := h.events }
  · rcases mem_setPhase ht with ht | rfl
    · exact h.good t ht
    · exact hgood
  · rcases getElem?_setPhase ht with ⟨rfl, rfl⟩ | ⟨hj, ht⟩ <;>
      rcases getElem?_setPhase hu with ⟨hk, rfl⟩ | ⟨hk, hu⟩
    · exact hk.symm
    · obtain ⟨resolved, hphase⟩ := pending?_eq_some hrows
      have hne := halone resolved rows hphase k u rows' hu hrows'
      exact absurd hsame (not_or.mpr hne)
    · obtain ⟨resolved, hphase⟩ := pending?_eq_some hrows'
      have hne := halone resolved rows' hphase j t rows ht hrows
      exact absurd hsame (not_or.mpr ⟨hne.1.symm, hne.2.symm⟩)
    · exact h.pending_unique j k t u rows rows' ht hu hrows hrows' hsame
  · rcases getElem?_setPhase ht with ⟨rfl, rfl⟩ | ⟨hj, ht⟩
    · exact absurd hp (hnew p a)
    · rcases getElem?_setPhase hu with ⟨rfl, rfl⟩ | ⟨hk, hu⟩
      · exact absurd hq (hnew q b)
      · exact h.created_unique j k t u p q a b ht hu hp hq hsame
  · obtain ⟨t, ht, payload, result, hcreated, hkey, hholds⟩ := h.recorded r hr
    refine ⟨t, mem_setPhase_of_ne hs ht ?_, payload, result, hcreated, hkey, hholds⟩
    rintro rfl
    exact hopen _ _ hcreated

/-- A new call has done nothing. -/
theorem Inv.call {w : World} (h : Inv floats sha256 w) {c : Call} {phase : Phase}
    (hphase : phase = .started ∨ ∃ failure, phase = .failed failure) :
    Inv floats sha256 { w with calls := w.calls ++ [⟨c, phase⟩] } := by
  have hidle : CallState.pending? ⟨c, phase⟩ = none := by
    rcases hphase with rfl | ⟨failure, rfl⟩ <;> rfl
  have hopen (p : Value) (a : CreateResult) : ¬ CallState.Created ⟨c, phase⟩ p a := by
    rcases hphase with rfl | ⟨failure, rfl⟩ <;> exact fun hcreated => by cases hcreated
  have hold {j : ℕ} {t : CallState} (ht : (w.calls ++ [⟨c, phase⟩])[j]? = some t) :
      w.calls[j]? = some t ∨ t = ⟨c, phase⟩ := by
    rw [List.getElem?_append] at ht
    split at ht
    · exact .inl ht
    · exact .inr (List.mem_singleton.mp (List.mem_of_getElem? ht))
  refine {
    good := fun t ht => ?_
    pending_unique := fun j k t u rows rows' ht hu hrows hrows' hsame => ?_
    created_unique := fun j k t u p q a b ht hu hp hq hsame => ?_
    recorded := fun r hr => ?_
    executions := h.executions
    existing := h.existing
    steps := h.steps
    events := h.events }
  · rcases List.mem_append.mp ht with ht | ht
    · exact h.good t ht
    · rw [List.mem_singleton.mp ht]
      rcases hphase with rfl | ⟨failure, rfl⟩ <;> trivial
  · rcases hold ht with ht | rfl
    · rcases hold hu with hu | rfl
      · exact h.pending_unique j k t u rows rows' ht hu hrows hrows' hsame
      · rw [hidle] at hrows'
        cases hrows'
    · rw [hidle] at hrows
      cases hrows
  · rcases hold ht with ht | rfl
    · rcases hold hu with hu | rfl
      · exact h.created_unique j k t u p q a b ht hu hp hq hsame
      · exact absurd hq (hopen q b)
    · exact absurd hp (hopen p a)
  · obtain ⟨t, ht, hrest⟩ := h.recorded r hr
    exact ⟨t, List.mem_append_left _ ht, hrest⟩

/-- The Executions go on. -/
theorem Inv.progress {w : World} (h : Inv floats sha256 w) {f : ExecutionRow → ExecutionRow}
    (hf : ∀ e, (f e).id = e.id) : Inv floats sha256 { w with executions := w.executions.mapRows f hf } := by
  have hids (p : UUID → Prop) :
      (∃ e ∈ w.executions.mapRows f hf, p e.id) ↔ ∃ e ∈ w.executions, p e.id := by
    constructor
    · rintro ⟨e, he, hp⟩
      obtain ⟨e', he', rfl⟩ := Table.mem_mapRows.mp he
      exact ⟨e', he', hf e' ▸ hp⟩
    · rintro ⟨e, he, hp⟩
      exact ⟨f e, Table.mem_mapRows.mpr ⟨e, he, rfl⟩, (hf e).symm ▸ hp⟩
  have hold {e : ExecutionRow} (he : e ∈ w.executions.mapRows f hf) :
      ∃ e' ∈ w.executions, f e' = e := Table.mem_mapRows.mp he
  refine {
    good := fun s hs => ?_
    pending_unique := h.pending_unique
    created_unique := h.created_unique
    recorded := h.recorded
    executions := fun e he => ?_
    existing := fun r hr => ?_
    steps := fun s hs => ?_
    events := fun v hv => ?_ }
  · have hgood := h.good s hs
    rw [CallState.Good.eq_def] at hgood ⊢
    split
    · next hphase =>
      rw [hphase] at hgood
      exact hgood
    · next hphase =>
      rw [hphase] at hgood
      refine ⟨hgood.1, hgood.2.1, fun e he => ?_⟩
      obtain ⟨e', he', rfl⟩ := hold he
      rw [hf]
      exact hgood.2.2 e' he'
    · next hphase =>
      rw [hphase] at hgood
      exact hgood
    · trivial
  · obtain ⟨e', he', rfl⟩ := hold he
    rw [hf]
    exact h.executions e' he'
  · exact (hids fun id => r.resourceId = some id).mpr (h.existing r hr)
  · exact (hids fun id => id = s.executionId).mpr (h.steps s hs)
  · exact (hids fun id => id = v.executionId).mpr (h.events v hv)

/-! ### The commit -/

/-- A successful call has the record of its key. -/
theorem Inv.answered {w : World} (h : Inv floats sha256 w) {s : CallState} (hs : s ∈ w.calls)
    {payload : Value} {outcome : Outcome} (hphase : s.phase = .succeeded payload outcome) :
    ∃ r ∈ w.records, r.key = s.call.recordKey ∧
      r.Holds (s.call.body.requestHash floats sha256 payload) outcome.result := by
  have hgood := h.good s hs
  rw [CallState.Good, hphase] at hgood
  exact hgood

/-- What a call has inserted and not committed is its own and new. -/
theorem Inv.open {w : World} (h : Inv floats sha256 w) {s : CallState} (hs : s ∈ w.calls)
    {resolved : Resolved} {rows : Pending} (hphase : s.phase = .inserted resolved rows) :
    Made s.call (s.call.body.requestHash floats sha256 resolved.payload) rows ∧
      (∀ r ∈ w.records, r.key ≠ s.call.recordKey) ∧
      ∀ e ∈ w.executions, e.id ≠ rows.execution.id := by
  have hgood := h.good s hs
  rw [CallState.Good, hphase] at hgood
  exact hgood

/-- The transaction of a call goes through: its rows enter the tables, and it has its answer. No other
open insert is one of its key or its Execution, so the others stay what they are. -/
theorem Inv.commit {w : World} (h : Inv floats sha256 w) {i : ℕ} {s : CallState}
    {resolved : Resolved} {rows : Pending} {executions : Table ExecutionRow.id}
    {records : Table IdempotencyRecord.key} (hs : w.calls[i]? = some s)
    (hphase : s.phase = .inserted resolved rows)
    (hexecutions : w.executions.insert? rows.execution = some executions)
    (hrecords : w.records.insert? rows.record = some records) :
    Inv floats sha256 {
      executions := executions
      steps := w.steps ++ rows.steps
      events := w.events ++ [rows.event]
      records := records
      calls := (w.setPhase i s (.succeeded resolved.payload ⟨rows.result, false⟩)).calls } := by
  obtain ⟨hmade, hnewKey, hnewId⟩ := h.open (List.mem_of_getElem? hs) hphase
  have hpending : s.pending? = some rows := by rw [CallState.pending?, hphase]
  have hrecord : rows.record ∈ records := (Table.mem_of_insert? hrecords).mpr (.inr rfl)
  have hexecution : rows.execution ∈ executions := (Table.mem_of_insert? hexecutions).mpr (.inr rfl)
  have hkeepRecord {r : IdempotencyRecord} (hr : r ∈ w.records) : r ∈ records :=
    (Table.mem_of_insert? hrecords).mpr (.inl hr)
  have hkeepExecution {e : ExecutionRow} (he : e ∈ w.executions) : e ∈ executions :=
    (Table.mem_of_insert? hexecutions).mpr (.inl he)
  -- a call that created something before has another key and another Execution
  have hother {t : CallState} {q : Value} {b : CreateResult} (ht : t ∈ w.calls)
      (hq : t.Created q b) : s.call.recordKey ≠ t.call.recordKey ∧ rows.result.id ≠ b.id := by
    obtain ⟨r, hr, hkey, -, -, hresource⟩ := h.answered ht hq
    obtain ⟨e, he, hid⟩ := h.existing r hr
    refine ⟨fun heq => hnewKey r hr (hkey.trans heq.symm), fun heq => hnewId e he ?_⟩
    rw [hmade.execution, heq]
    exact Option.some.inj (hid.symm.trans hresource)
  refine {
    good := fun t ht => ?_
    pending_unique := fun j k t u rows' rows'' ht hu hrows hrows' hsame => ?_
    created_unique := fun j k t u p q a b ht hu hp hq hsame => ?_
    recorded := fun r hr => ?_
    executions := fun e he => ?_
    existing := fun r hr => ?_
    steps := fun t ht => ?_
    events := fun v hv => ?_ }
  · obtain ⟨j, hj⟩ := List.mem_iff_getElem?.mp ht
    rcases getElem?_setPhase hj with ⟨-, rfl⟩ | ⟨hne, hj⟩
    · exact ⟨rows.record, hrecord, hmade.key, hmade.requestHash, hmade.responseBody,
        hmade.resourceId⟩
    · have hmem := List.mem_of_getElem? hj
      have hgood := h.good t hmem
      rw [CallState.Good.eq_def] at hgood ⊢
      split
      · next heq =>
        rw [heq] at hgood
        exact ⟨hkeepRecord hgood.1, hgood.2⟩
      · next resolved' rows' heq =>
        rw [heq] at hgood
        obtain ⟨hmade', hnewKey', hnewId'⟩ := hgood
        have hpending' : t.pending? = some rows' := by rw [CallState.pending?, heq]
        have halone (hsame : rows'.record.key = rows.record.key ∨
            rows'.execution.id = rows.execution.id) : False :=
          hne (h.pending_unique j i t s rows' rows hj hs hpending' hpending hsame)
        refine ⟨hmade', fun r hr => ?_, fun e he => ?_⟩
        · rcases (Table.mem_of_insert? hrecords).mp hr with hr | rfl
          · exact hnewKey' r hr
          · exact fun hkey => halone (.inl (hmade'.key.trans hkey.symm))
        · rcases (Table.mem_of_insert? hexecutions).mp he with he | rfl
          · exact hnewId' e he
          · exact fun hid => halone (.inr hid.symm)
      · next heq =>
        rw [heq] at hgood
        obtain ⟨r, hr, hrest⟩ := hgood
        exact ⟨r, hkeepRecord hr, hrest⟩
      · trivial
  · rcases getElem?_setPhase ht with ⟨-, rfl⟩ | ⟨-, ht⟩
    · cases hrows
    rcases getElem?_setPhase hu with ⟨-, rfl⟩ | ⟨-, hu⟩
    · cases hrows'
    · exact h.pending_unique j k t u rows' rows'' ht hu hrows hrows' hsame
  · rcases getElem?_setPhase ht with ⟨hj, rfl⟩ | ⟨-, ht⟩ <;>
      rcases getElem?_setPhase hu with ⟨hk, rfl⟩ | ⟨-, hu⟩
    · rw [hj, hk]
    · cases hp
      exact absurd hsame (not_or.mpr (hother (List.mem_of_getElem? hu) hq))
    · cases hq
      have hne := hother (List.mem_of_getElem? ht) hp
      exact absurd hsame (not_or.mpr ⟨hne.1.symm, hne.2.symm⟩)
    · exact h.created_unique j k t u p q a b ht hu hp hq hsame
  · rcases (Table.mem_of_insert? hrecords).mp hr with hr | rfl
    · obtain ⟨t, ht, payload, result, hcreated, hrest⟩ := h.recorded r hr
      refine ⟨t, mem_setPhase_of_ne hs ht ?_, payload, result, hcreated, hrest⟩
      rintro rfl
      rw [CallState.Created, hphase] at hcreated
      cases hcreated
    · exact ⟨_, mem_setPhase_self hs, _, _, rfl, hmade.key.symm, hmade.requestHash,
        hmade.responseBody, hmade.resourceId⟩
  · rcases (Table.mem_of_insert? hexecutions).mp he with he | rfl
    · obtain ⟨r, hr, hid⟩ := h.executions e he
      exact ⟨r, hkeepRecord hr, hid⟩
    · exact ⟨rows.record, hrecord, hmade.resourceId.trans (congrArg some hmade.execution.symm)⟩
  · rcases (Table.mem_of_insert? hrecords).mp hr with hr | rfl
    · obtain ⟨e, he, hid⟩ := h.existing r hr
      exact ⟨e, hkeepExecution he, hid⟩
    · exact ⟨rows.execution, hexecution,
        hmade.resourceId.trans (congrArg some hmade.execution.symm)⟩
  · rcases List.mem_append.mp ht with ht | ht
    · obtain ⟨e, he, hid⟩ := h.steps t ht
      exact ⟨e, hkeepExecution he, hid⟩
    · exact ⟨rows.execution, hexecution, hmade.execution.trans (hmade.steps t ht).symm⟩
  · rcases List.mem_append.mp hv with hv | hv
    · obtain ⟨e, he, hid⟩ := h.events v hv
      exact ⟨e, hkeepExecution he, hid⟩
    · rw [List.mem_singleton.mp hv]
      exact ⟨rows.execution, hexecution, hmade.execution.trans hmade.event.symm⟩

/-! ### Every step -/

/-- What the phase of a call says does not depend on the tables, and it has no rows. -/
def Phase.Idle : Phase → Prop
  | hit _ _ => False
  | inserted _ _ => False
  | succeeded _ _ => False
  | _ => True

theorem Inv.idle {w : World} (h : Inv floats sha256 w) {i : ℕ} {s : CallState} {phase : Phase}
    (hs : w.calls[i]? = some s) (hopen : ∀ p o, s.phase ≠ .succeeded p o) (hidle : phase.Idle) :
    Inv floats sha256 (w.setPhase i s phase) := by
  refine h.setPhase hs hopen ?_ ?_ ?_
  · rw [CallState.Good.eq_def]
    split
    · next heq =>
      subst heq
      exact hidle.elim
    · next heq =>
      subst heq
      exact hidle.elim
    · next heq =>
      subst heq
      exact hidle.elim
    · trivial
  · rintro p a rfl
    exact hidle
  · rintro resolved rows rfl
    exact hidle.elim

/-- An insert takes a key and an id that no open insert has. -/
theorem Inv.insert {w : World} (h : Inv floats sha256 w) {i : ℕ} {s : CallState}
    {resolved : Resolved} {ctx : Context} {rows : Pending} {id : UUID} {now : Time}
    (hs : w.calls[i]? = some s) (hopen : ∀ p o, s.phase ≠ .succeeded p o)
    (hrows : s.call.insertCreated env resolved
      (s.call.body.requestHash floats sha256 resolved.payload) ctx id now = .ok rows)
    (hid : w.usesId id = false) (hkey : w.holdsKey s.call.recordKey = false)
    (hnone : w.records.find? s.call.recordKey = none) :
    Inv floats sha256 (w.setPhase i s (.inserted resolved rows)) := by
  obtain ⟨hmade, hresult⟩ := insertCreated_eq_ok hrows
  have hexecution : rows.execution.id = id := hmade.execution.trans hresult
  rw [World.usesId, Bool.or_eq_false_iff, Option.isSome_eq_false_iff, Option.isNone_iff_eq_none] at hid
  refine h.setPhase hs hopen ⟨hmade, Table.find?_eq_none_iff.mp hnone, ?_⟩ (by simp) ?_
  · rw [hexecution]
    exact Table.find?_eq_none_iff.mp hid.1
  · intro resolved' rows' heq j t rows'' ht hpending
    cases heq
    have hmem := List.mem_of_getElem? ht
    constructor
    · intro hsame
      have hheld := List.any_eq_false.mp hkey t hmem
      rw [hpending, Option.any_some, decide_eq_true_eq] at hheld
      exact hheld (hsame.symm.trans hmade.key)
    · intro hsame
      have hused := List.any_eq_false.mp hid.2 t hmem
      rw [hpending, Option.any_some, decide_eq_true_eq] at hused
      exact hused (hsame.symm.trans hexecution)

/-- A move of a call. -/
theorem Inv.move {w : World} (h : Inv floats sha256 w) {i : ℕ} {s : CallState} {phase : Phase}
    (hs : w.calls[i]? = some s) (hmove : Moves env floats sha256 w s phase) :
    Inv floats sha256 (w.setPhase i s phase) := by
  have hopen := hmove.open.1
  cases hmove with
  | resolved => exact h.idle hs hopen trivial
  | hit _ hrecord =>
    exact h.setPhase hs hopen ⟨Table.mem_of_find? hrecord, Table.key_of_find? hrecord⟩ (by simp)
      (by simp)
  | missed => exact h.idle hs hopen trivial
  | replayed hphase hresult =>
    have hgood := h.good s (List.mem_of_getElem? hs)
    rw [CallState.Good, hphase] at hgood
    exact h.setPhase hs hopen ⟨_, hgood.1, hgood.2, replayOrConflict_eq_ok hresult⟩ (by simp)
      (by simp)
  | prepared => exact h.idle hs hopen trivial
  | inserted _ hrows hid hkey hrecord => exact h.insert hs hopen hrows hid hkey hrecord
  | raced => exact h.idle hs hopen trivial
  | failed => exact h.idle hs hopen trivial

theorem inv_step {w w' : World} (h : Inv floats sha256 w) (hstep : Steps env floats sha256 w w') :
    Inv floats sha256 w' := by
  cases hstep with
  | call hphase => exact h.call hphase
  | move hs hmove => exact h.move hs hmove
  | commit hs hphase hexecutions hrecords => exact h.commit hs hphase hexecutions hrecords
  | progress hf => exact h.progress hf

theorem inv_run {w : World} {as : List Action}
    (hrun : Runs.run (World.step env floats sha256) World.initial as = some w) :
    Inv floats sha256 w :=
  Runs.run_invariant (fun _ _ _ h hstep => inv_step h (steps_of_step hstep)) inv_initial hrun

/-! ### Answers -/

/-- The calls are of one requester, scope and key. -/
def Call.SameKey (c d : Call) : Prop :=
  c.requesterId = d.requesterId ∧ c.body.operationScope = d.body.operationScope ∧
    Text.strip c.idempotencyKey = Text.strip d.idempotencyKey

instance (c d : Call) : Decidable (c.SameKey d) := inferInstanceAs (Decidable (_ ∧ _ ∧ _))

theorem recordKey_eq_iff {c d : Call} : c.recordKey = d.recordKey ↔ c.SameKey d := by
  constructor
  · intro h
    obtain ⟨hprincipal, hscope, hkey⟩ := RecordKey.mk.inj h
    exact ⟨UUID.toString_injective hprincipal, hscope, hkey⟩
  · rintro ⟨hrequester, hscope, hkey⟩
    rw [Call.recordKey, Call.recordKey, hrequester, hscope, hkey]

/-- Two answers under one key come from one record. -/
theorem Inv.eq_of_sameKey {w : World} (h : Inv floats sha256 w) {s t : CallState}
    (hs : s ∈ w.calls) (ht : t ∈ w.calls) {p q : Value} {o o' : Outcome}
    (hp : s.phase = .succeeded p o) (hq : t.phase = .succeeded q o')
    (hkey : s.call.SameKey t.call) :
    o.result = o'.result ∧
      s.call.body.requestHash floats sha256 p = t.call.body.requestHash floats sha256 q := by
  obtain ⟨r, hr, hrkey, hrhash, hrbody, -⟩ := h.answered hs hp
  obtain ⟨r', hr', hrkey', hrhash', hrbody', -⟩ := h.answered ht hq
  have hsame : r = r' :=
    Table.eq_of_key_eq hr hr' (hrkey.trans ((recordKey_eq_iff.mpr hkey).trans hrkey'.symm))
  subst hsame
  exact ⟨Option.some.inj (hrbody.symm.trans hrbody'), hrhash.symm.trans hrhash'⟩

/-- The answer to a different request under a used key. -/
def keyReused : Failure :=
  .app ⟨"IDEMPOTENCY_KEY_REUSED", "Idempotency-Key가 다른 요청에 재사용되었습니다."⟩

theorem replayOrConflict_of_ne {c : Call} {hash : String} {record : IdempotencyRecord}
    {execution : UUID → Option ExecutionRow} (h : record.requestHash ≠ hash) :
    c.replayOrConflict hash record execution = .error keyReused := by
  rw [Call.replayOrConflict, decide_eq_false h]
  rfl

/-- The Execution was created by a call that answered with it. -/
def World.CreatedBy (w : World) (executionId : UUID) : Prop :=
  ∃ s ∈ w.calls, ∃ payload result, s.Created payload result ∧ result.id = executionId

theorem Inv.createdBy {w : World} (h : Inv floats sha256 w) {e : ExecutionRow}
    (he : e ∈ w.executions) : w.CreatedBy e.id := by
  obtain ⟨r, hr, hid⟩ := h.executions e he
  obtain ⟨s, hs, payload, result, hcreated, -, -, -, hresource⟩ := h.recorded r hr
  exact ⟨s, hs, payload, result, hcreated, Option.some.inj (hresource.symm.trans hid)⟩

/-- The tables have the same rows, up to the progress of the Executions. -/
def World.SameTables (w w' : World) : Prop :=
  w'.executions.rows.map ExecutionRow.id = w.executions.rows.map ExecutionRow.id ∧
    w'.steps = w.steps ∧ w'.events = w.events ∧ w'.records = w.records

/-- The rows of one Execution are new. -/
def World.Adds (w w' : World) (executionId : UUID) : Prop :=
  w'.executions.rows.map ExecutionRow.id =
      w.executions.rows.map ExecutionRow.id ++ [executionId] ∧
    (∃ rows, w'.steps = w.steps ++ rows ∧ ∀ r ∈ rows, r.executionId = executionId) ∧
    (∃ row, w'.events = w.events ++ [row] ∧ row.executionId = executionId) ∧
    ∃ row, w'.records.rows = w.records.rows ++ [row] ∧ row.resourceId = some executionId

/-- Only the commit of a call that then has its answer changes the tables. -/
theorem Inv.tables {w w' : World} (h : Inv floats sha256 w) (hstep : Steps env floats sha256 w w') :
    w.SameTables w' ∨ ∃ (i : ℕ) (s : CallState) (payload : Value) (result : CreateResult),
      w'.calls[i]? = some s ∧ s.Created payload result ∧ w.Adds w' result.id := by
  cases hstep with
  | call => exact .inl ⟨rfl, rfl, rfl, rfl⟩
  | move => exact .inl ⟨rfl, rfl, rfl, rfl⟩
  | @commit i s resolved rows executions records hs hphase hexecutions hrecords =>
    obtain ⟨hmade, -, -⟩ := h.open (List.mem_of_getElem? hs) hphase
    refine .inr ⟨i, { s with phase := .succeeded resolved.payload ⟨rows.result, false⟩ },
      resolved.payload, rows.result, ?_, rfl, ?_, ⟨rows.steps, rfl, hmade.steps⟩,
      ⟨rows.event, rfl, hmade.event⟩,
      ⟨rows.record, (Table.insert?_eq_some_iff.mp hrecords).2, hmade.resourceId⟩⟩
    · exact List.getElem?_set_self (List.getElem?_eq_some_iff.mp hs).1
    · show executions.rows.map _ = _
      rw [(Table.insert?_eq_some_iff.mp hexecutions).2, List.map_append, List.map_singleton,
        hmade.execution]
  | progress hf =>
    refine .inl ⟨?_, rfl, rfl, rfl⟩
    rw [Table.rows_mapRows, List.map_map]
    exact List.map_congr_left fun e _ => hf e

/-- A call that failed stays as it is. -/
theorem Steps.failed {w w' : World} (h : Steps env floats sha256 w w') {i : ℕ} {s : CallState}
    {failure : Failure} (hs : w.calls[i]? = some s) (hphase : s.phase = .failed failure) :
    w'.calls[i]? = some s := by
  have hstay {j : ℕ} {t : CallState} {phase : Phase} (ht : w.calls[j]? = some t) (hne : s ≠ t) :
      (w.setPhase j t phase).calls[i]? = some s := by
    rw [World.setPhase, List.getElem?_set_ne, hs]
    rintro rfl
    exact hne (Option.some.inj (hs.symm.trans ht))
  cases h with
  | call => exact (List.getElem?_append_left (List.getElem?_eq_some_iff.mp hs).1).trans hs
  | move ht hmove =>
    refine hstay ht ?_
    rintro rfl
    exact hmove.open.2 failure hphase
  | commit ht hopen =>
    refine hstay ht ?_
    rintro rfl
    rw [hopen] at hphase
    cases hphase
  | progress => exact hs

/-! ### The protocol -/

/-- However the calls interleave: at most one of the calls of one requester, scope and key creates an
Execution; their answers have one result, that of the call that created, and are answers to the same
request; a call that finds the record of another request is refused; every row belongs to the
Execution of a call that answered with it, the tables change only when such a call commits, and a call
that failed does nothing more. -/
theorem creation_idempotent (hsha : Function.Injective sha256) {actions : List Action} {w : World}
    (hrun : Runs.run (World.step env floats sha256) World.initial actions = some w) :
    (∀ (i j : ℕ) (s t : CallState) (p q : Value) (a b : CreateResult), w.calls[i]? = some s →
      w.calls[j]? = some t → s.Created p a → t.Created q b → s.call.SameKey t.call → i = j) ∧
    (∀ s ∈ w.calls, ∀ p o, s.phase = .succeeded p o →
      (∃ e ∈ w.executions, e.id = o.result.id) ∧
      (∃ t ∈ w.calls, ∃ q, t.Created q o.result ∧ s.call.SameKey t.call) ∧
      ∀ t ∈ w.calls, ∀ q o', t.phase = .succeeded q o' → s.call.SameKey t.call →
        o.result = o'.result ∧ s.call.body.Same t.call.body) ∧
    (∀ (i : ℕ) (s : CallState) (resolved : Resolved) (record : IdempotencyRecord),
      w.calls[i]? = some s → s.phase = .hit resolved record → ∀ t ∈ w.calls, ∀ p o,
      t.phase = .succeeded p o → s.call.SameKey t.call → ¬ s.call.body.Same t.call.body →
      w.step env floats sha256 (.replay i) = some (w.setPhase i s (.failed keyReused))) ∧
    ((∀ e ∈ w.executions, w.CreatedBy e.id) ∧ (∀ r ∈ w.steps, w.CreatedBy r.executionId) ∧
      (∀ r ∈ w.events, w.CreatedBy r.executionId) ∧
      ∀ r ∈ w.records, ∃ id, r.resourceId = some id ∧ w.CreatedBy id) ∧
    ∀ action w', w.step env floats sha256 action = some w' →
      (w.SameTables w' ∨ ∃ (i : ℕ) (s : CallState) (payload : Value) (result : CreateResult),
        w'.calls[i]? = some s ∧ s.Created payload result ∧ w.Adds w' result.id) ∧
      ∀ (i : ℕ) (s : CallState) (failure : Failure), w.calls[i]? = some s →
        s.phase = .failed failure → w'.calls[i]? = some s := by
  have h := inv_run hrun
  have hrequested := requested_run hrun
  have hsame {s t : CallState} {p q : Value} (hs : s ∈ w.calls) (ht : t ∈ w.calls)
      (hp : s.phase.payload? = some p) (hq : t.phase.payload? = some q)
      (hkey : s.call.SameKey t.call) (hhash : s.call.body.requestHash floats sha256 p =
        t.call.body.requestHash floats sha256 q) : s.call.body.Same t.call.body :=
    same_of_sortKeys_eq hkey.2.1 (hrequested s hs p hp) (hrequested t ht q hq)
      (sortKeys_eq_of_requestHash_eq hsha hkey.2.1 hhash)
  refine ⟨fun i j s t p q a b hs ht hp hq hkey => ?_, fun s hs p o hp => ⟨?_, ?_, ?_⟩,
    fun i s resolved record hs hphase t ht p o hp hkey hdifferent => ?_, ⟨?_, ?_, ?_, ?_⟩,
    fun action w' hstep => ⟨h.tables (steps_of_step hstep), fun i s failure hs hphase =>
      (steps_of_step hstep).failed hs hphase⟩⟩
  · exact h.created_unique i j s t p q a b hs ht hp hq (.inl (recordKey_eq_iff.mpr hkey))
  · obtain ⟨r, hr, -, -, -, hresource⟩ := h.answered hs hp
    obtain ⟨e, he, hid⟩ := h.existing r hr
    exact ⟨e, he, Option.some.inj (hid.symm.trans hresource)⟩
  · obtain ⟨r, hr, hkey, -, hbody, -⟩ := h.answered hs hp
    obtain ⟨t, ht, q, result, hcreated, hkey', -, hbody', -⟩ := h.recorded r hr
    obtain rfl : result = o.result := Option.some.inj (hbody'.symm.trans hbody)
    exact ⟨t, ht, q, hcreated, recordKey_eq_iff.mp (hkey.symm.trans hkey'.symm)⟩
  · intro t ht q o' hq hkey
    obtain ⟨hresult, hhash⟩ := h.eq_of_sameKey hs ht hp hq hkey
    refine ⟨hresult, hsame hs ht ?_ ?_ hkey hhash⟩
    · rw [hp, Phase.payload?]
    · rw [hq, Phase.payload?]
  · have hmem := List.mem_of_getElem? hs
    have hgood := h.good s hmem
    rw [CallState.Good, hphase] at hgood
    obtain ⟨r, hr, hrkey, hrhash, -⟩ := h.answered ht hp
    obtain rfl : record = r := Table.eq_of_key_eq hgood.1 hr
      (hgood.2.trans ((recordKey_eq_iff.mpr hkey).trans hrkey.symm))
    have hne : record.requestHash ≠ s.call.body.requestHash floats sha256 resolved.payload := by
      intro heq
      refine hdifferent (hsame hmem ht ?_ ?_ hkey (heq.symm.trans hrhash))
      · rw [hphase, Phase.payload?]
      · rw [hp, Phase.payload?]
    rw [World.step, hs, Option.bind_eq_bind, Option.bind_some, hphase]
    dsimp only
    rw [replayOrConflict_of_ne hne]
  · exact fun e he => h.createdBy he
  · intro r hr
    obtain ⟨e, he, hid⟩ := h.steps r hr
    exact hid ▸ h.createdBy he
  · intro r hr
    obtain ⟨e, he, hid⟩ := h.events r hr
    exact hid ▸ h.createdBy he
  · intro r hr
    obtain ⟨e, he, hid⟩ := h.existing r hr
    exact ⟨e.id, hid, h.createdBy he⟩

/-! ### Two calls at once -/

/-- A test of a tool. -/
def toolTest (toolId : UUID) (key : String) : Call where
  requesterId := .ofNat 5
  idempotencyKey := key
  body := .manualToolTest toolId (.ofNat 8) [("city", .str "Séoul")]

/-- Two calls with one key miss the record; the second one, for another tool, meets it at its
insert. -/
def racingRun : List Action :=
  let reads : Reads := ⟨.empty, .error .unhandled⟩
  let ctx : Context := ⟨Workflow.World.oneToolDocument "string" [],
    "9f86d081884c7d659a2feaa0c55ad015a3bf4f1b2b0b822cd15d6c15b0f00a08", .obj []⟩
  [.call (toolTest (.ofNat 7) "k-1"), .call (toolTest (.ofNat 9) " k-1"),
    .resolve 0 reads, .resolve 1 reads, .lookup 0, .lookup 1, .preflight 0 (.ok ctx),
    .preflight 1 (.ok ctx), .insert 0 (.ofNat 1) 0, .commit 0, .insert 1 (.ofNat 2) 1,
    .lookup 1]

/-- The second of two calls with one key, for two tools, has met the record of the first one. -/
def World.isRaced (w : World) : Bool :=
  match w.calls with
  | [⟨⟨u, k, .manualToolTest a _ _⟩, .succeeded _ _⟩,
      ⟨⟨u', k', .manualToolTest b _ _⟩, .hit _ _⟩] =>
    decide (u = u' ∧ Text.strip k = Text.strip k' ∧ b ≠ a)
  | _ => false

theorem creation_idempotent_racing :
    ∃ w t, Runs.run (World.step Workflow.World.examplePlatform Json.fractionText id)
        World.initial racingRun = some w ∧ w.calls[1]? = some t ∧
      w.step Workflow.World.examplePlatform Json.fractionText id (.replay 1) =
        some (w.setPhase 1 t (.failed keyReused)) := by
  have hrun : (Runs.run (World.step Workflow.World.examplePlatform Json.fractionText id)
      World.initial racingRun).any World.isRaced = true := by
    decide +kernel
  obtain ⟨w, hw, hcalls⟩ := (Option.any_eq_true _ _).mp hrun
  rw [World.isRaced] at hcalls
  split at hcalls
  · next heq =>
    obtain ⟨hu, hk, hne⟩ := of_decide_eq_true hcalls
    have hfirst := List.mem_of_getElem? (congrArg (·[0]?) heq)
    have hsecond := congrArg (·[1]?) heq
    have hrefused := (creation_idempotent Function.injective_id hw).2.2.1 1 _ _ _ hsecond rfl _
      hfirst _ _ rfl ⟨hu.symm, rfl, hk.symm⟩ fun hsame => hne hsame.1
    exact ⟨w, _, hw, hsecond, hrefused⟩
  · cases hcalls

end McpFlow.Creation
