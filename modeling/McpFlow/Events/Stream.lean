import McpFlow.Library.CursorLog
import McpFlow.Library.Json
import McpFlow.Library.Text

/-!
# The event stream of an Execution

Writers append lifecycle events of one Execution in transactions that hold its row lock; an SSE
stream polls the committed ones behind its cursor and sends them; a client that lost its connection
comes back with the last id it received. `World.step` interleaves them. Each read keeps the scope of
the poll that fetched it, which the wire does not carry.
-/

namespace McpFlow.Events

open CursorLog (Read)

/-! ### Events -/

/-- `execution_events.visibility`. -/
inductive ExecutionEventVisibility where
  | user
  | operator
  | internal
deriving DecidableEq, Repr

/-- A row of `execution_events`. -/
structure ExecutionEvent where
  id : ℕ
  eventType : String
  visibility : ExecutionEventVisibility
  payload : Json.Value
  payloadVersion : ℤ
deriving DecidableEq

/-- The visibility of a stored text. -/
def ExecutionEventVisibility.ofValue? : String → Option ExecutionEventVisibility
  | "USER" => some .user
  | "OPERATOR" => some .operator
  | "INTERNAL" => some .internal
  | _ => none

/-- The arguments of `ExecutionEventWriter.append`. -/
structure EventDraft where
  eventType : String
  visibility : String
  payload : Json.Value
  payloadVersion : ℤ
deriving DecidableEq

/-- `str.strip()`. -/
def strip (s : List Char) : List Char :=
  ((s.dropWhile Text.isSpace).reverse.dropWhile Text.isSpace).reverse

/-- `ExecutionEventWriter.append`: the row that is inserted under the key `id`; `none` is a
`ValueError`. -/
def appendEvent (id : ℕ) (d : EventDraft) : Option ExecutionEvent :=
  let eventType := strip d.eventType.toList
  if eventType.isEmpty || 128 < eventType.length then none
  else if !d.payload.isObj then none
  else match ExecutionEventVisibility.ofValue? d.visibility with
    | none => none
    | some visibility =>
      if d.payloadVersion < 1 then none
      else some
        { id := id
          eventType := String.ofList eventType
          visibility := visibility
          payload := d.payload
          payloadVersion := d.payloadVersion }

theorem id_of_appendEvent {id : ℕ} {d : EventDraft} {e : ExecutionEvent}
    (h : appendEvent id d = some e) : e.id = id := by
  simp only [appendEvent] at h
  split at h
  · cases h
  split at h
  · cases h
  split at h
  · cases h
  split at h
  · cases h
  · cases h
    rfl

/-! ### The cursor of a request -/

/-- What `parse_last_event_id` raises: a 422, or the `ValueError` of `int` on a superscript. -/
inductive CursorError where
  | validationError
  | valueError
deriving DecidableEq, Repr

/-- `str.isdigit()` of a Latin-1 character, as header values are. -/
def isDigit (c : Char) : Bool := c.isDigit || c == '²' || c == '³' || c == '¹'

/-- `parse_last_event_id`. -/
def parseLastEventId (raw : Option String) : Except CursorError ℕ :=
  match raw with
  | none => .ok 0
  | some raw =>
    if raw = "" then .ok 0
    else
      let value := strip raw.toList
      if value.isEmpty || !value.all isDigit then .error .validationError
      else if value.all Char.isDigit then .ok (Nat.ofDigitChars 10 value 0)
      else .error .valueError

/-- The `id:` line of `format_sse_event`. -/
def formatId (id : ℕ) : String := toString id

/-- A decimal digit is no white space. -/
theorem isSpace_of_isDigit {c : Char} (h : c.isDigit = true) : Text.isSpace c = false := by
  have hrange : 48 ≤ c.toNat ∧ c.toNat ≤ 57 := by
    simp only [Char.isDigit, Bool.and_eq_true, decide_eq_true_eq] at h
    exact h
  simp only [Text.isSpace, Bool.or_eq_false_iff, Bool.and_eq_false_iff, decide_eq_false_iff_not,
    beq_eq_false_iff_ne]
  omega

/-- Digits have no white space around them. -/
theorem strip_of_isDigit {l : List Char} (h : ∀ c ∈ l, c.isDigit = true) : strip l = l := by
  have hdrop (m : List Char) (hm : ∀ c ∈ m, c.isDigit = true) : m.dropWhile Text.isSpace = m := by
    cases m with
    | nil => rfl
    | cons c m => simp [isSpace_of_isDigit (hm c List.mem_cons_self)]
  rw [strip, hdrop l h, hdrop l.reverse fun c hc => h c (List.mem_reverse.mp hc),
    List.reverse_reverse]

/-- A client that sends back the id of a frame resumes right behind it. -/
theorem parseLastEventId_formatId (id : ℕ) : parseLastEventId (some (formatId id)) = .ok id := by
  have hlist : (formatId id).toList = Nat.toDigits 10 id := Nat.toList_repr
  have hdigits : ∀ c ∈ Nat.toDigits 10 id, c.isDigit = true := fun c hc =>
    Nat.isDigit_of_mem_toDigits (by decide) (by decide) hc
  have hne : Nat.toDigits 10 id ≠ [] := Nat.toDigits_ne_nil
  have hempty : formatId id ≠ "" := fun h => hne (by rw [← hlist, h]; rfl)
  have hall : (Nat.toDigits 10 id).all isDigit = true :=
    List.all_eq_true.mpr fun c hc => by simp [isDigit, hdigits c hc]
  simp only [parseLastEventId, if_neg hempty, hlist, strip_of_isDigit hdigits]
  rw [if_neg (by simp [hall, hne]), if_pos (List.all_eq_true.mpr hdigits),
    Nat.ofDigitChars_ten_toDigits]

/-! ### Authorization -/

/-- What the database says about the reader: an ACTIVE user, an Execution that exists, the
permission `execution.read`, and whether the reader is the requester. -/
structure Access where
  userActive : Bool
  executionExists : Bool
  canReadAll : Bool
  isRequester : Bool
deriving DecidableEq, Repr

/-- `recheck_access`, and `authorize`: `can_read_all` for a reader that may read the Execution. -/
def Access.recheck (a : Access) : Option Bool :=
  if !a.userActive then none
  else if !a.executionExists then none
  else if !a.canReadAll && !a.isRequester then none
  else some a.canReadAll

/-- `visibilities_for_scope`. -/
def visibilitiesForScope (canReadAll : Bool) : List ExecutionEventVisibility :=
  if canReadAll then [.user, .operator] else [.user]

/-- A reader of this scope sees the event. -/
def sees (canReadAll : Bool) (e : ExecutionEvent) : Bool :=
  (visibilitiesForScope canReadAll).contains e.visibility

/-- The events behind a cursor that a scope shows: `list_after`. -/
abbrev listAfter (canReadAll : Bool) (afterId limit : ℕ) (log : List ExecutionEvent) :
    List ExecutionEvent :=
  CursorLog.listAfter ExecutionEvent.id sees canReadAll afterId limit log

/-! ### Writers, streams and clients -/

/-- A read of an event. -/
abbrev Frame := Read ExecutionEvent Bool

/-- A connection: the state of `_iterate` between two of its effects, and the frames on the wire.
`rows` is what is left of the batch of the current cycle, `canReadAll` the scope of its poll. -/
structure Conn where
  cursor : ℕ
  canReadAll : Bool
  rows : List ExecutionEvent
  wire : List Frame
  ended : Bool
deriving DecidableEq

/-- The committed events of one Execution, the transaction that holds its row lock with the events
it inserted, the last id that the sequence gave out, and one client. -/
structure World where
  committed : List ExecutionEvent
  writer : Option (List ExecutionEvent)
  lastId : ℕ
  access : Access
  header : Option String
  conn : Option Conn
  received : List Frame
deriving DecidableEq

/-- One thing that happens. -/
inductive Action where
  /-- A transaction locks the Execution row. -/
  | lock
  /-- It inserts an event; other Executions may have taken ids before. -/
  | append (id : ℕ) (d : EventDraft)
  | commit
  | rollback
  | setAccess (access : Access)
  /-- The client connects, with the id of the last frame it received. -/
  | connect
  /-- The stream begins a cycle. -/
  | poll
  /-- The stream yields the next row of its batch. -/
  | yieldRow
  /-- A frame reaches the client. -/
  | deliver
  /-- The connection breaks; what is on the wire is lost. -/
  | disconnect
deriving DecidableEq

namespace World

/-- `Last-Event-ID`. -/
def lastEventId (w : World) : Option String :=
  match w.received.getLast? with
  | none => w.header
  | some f => some (formatId f.entry.id)

/-- A request for the stream; one that is refused leaves no connection. -/
def connect (w : World) : World :=
  match parseLastEventId w.lastEventId, w.access.recheck with
  | .ok cursor, some canReadAll =>
    { w with conn := some ⟨cursor, canReadAll, [], [], false⟩ }
  | _, _ => w

/-- One cycle of `_iterate` up to its first yield. -/
def poll (batchSize : ℕ) (w : World) (c : Conn) : World :=
  match w.access.recheck with
  | none => { w with conn := some { c with ended := true } }
  | some canReadAll =>
    { w with conn := some { c with
        canReadAll := canReadAll
        rows := listAfter canReadAll c.cursor batchSize w.committed } }

/-- One step, or `none` when it is not possible. -/
def step (batchSize : ℕ) (w : World) : Action → Option World
  | .lock => if w.writer = none then some { w with writer := some [] } else none
  | .append id d =>
    match w.writer with
    | none => none
    | some events =>
      if w.lastId < id then
        match appendEvent id d with
        | none => some { w with writer := none, lastId := id }
        | some e => some { w with writer := some (events ++ [e]), lastId := id }
      else none
  | .commit => w.writer.map fun events =>
      { w with committed := w.committed ++ events, writer := none }
  | .rollback => w.writer.map fun _ => { w with writer := none }
  | .setAccess access => some { w with access := access }
  | .connect => if w.conn = none then some w.connect else none
  | .poll =>
    match w.conn with
    | none => none
    | some c => if c.ended ∨ c.rows ≠ [] then none else some (w.poll batchSize c)
  | .yieldRow =>
    match w.conn with
    | none => none
    | some c =>
      match c.rows with
      | [] => none
      | e :: rows => some { w with conn := some { c with
          cursor := e.id, rows := rows, wire := c.wire ++ [⟨e, c.canReadAll⟩] } }
  | .deliver =>
    match w.conn with
    | none => none
    | some c =>
      match c.wire with
      | [] => none
      | f :: wire => some { w with
          conn := some { c with wire := wire }, received := w.received ++ [f] }
  | .disconnect => some { w with conn := none }

/-- Before the first event and the first request. -/
structure Initial (w : World) : Prop where
  committed : w.committed = []
  writer : w.writer = none
  conn : w.conn = none
  received : w.received = []

end World

end McpFlow.Events
