import McpFlow.Events.Stream
import McpFlow.Library.Runs

/-!
# Completeness of the event stream

`World.Sound` is the invariant of writers, stream and client: what the client received, what is on
the wire and what is left of the batch form one gapless reading of the committed events. From it
follow the laws of the received events, and that a reader who stays authorized and connected gets
every event.
-/

namespace McpFlow.Events

open CursorLog (Read Increasing Follows position)
open Runs (run run_cons_eq_some StepsMeet)

/-! ### The invariant -/

/-- The rest of the batch, as it will be read. -/
def Conn.batch (c : Conn) : List Frame := c.rows.map (⟨·, c.canReadAll⟩)

namespace World

/-- The events of the log and of the transaction that holds the lock. -/
def log (w : World) : List ExecutionEvent := w.committed ++ w.writer.getD []

/-- Ids grow with every insertion, and what the client received, what is on the wire and what is
left of the batch are one reading of the committed events from `start` on. -/
structure Sound (start : ℕ) (w : World) : Prop where
  header : parseLastEventId w.header = .ok start
  increasing : Increasing ExecutionEvent.id w.log
  lastId : ∀ e ∈ w.log, e.id ≤ w.lastId
  received : Follows ExecutionEvent.id sees w.committed start w.received
  conn : ∀ c, w.conn = some c →
    Follows ExecutionEvent.id sees w.committed start (w.received ++ c.wire ++ c.batch) ∧
      c.cursor = position ExecutionEvent.id start (w.received ++ c.wire)

variable {batchSize start : ℕ} {w w' : World}

theorem Initial.sound (h : w.Initial) (hstart : parseLastEventId w.header = .ok start) :
    w.Sound start where
  header := hstart
  increasing := by simp [log, h.committed, h.writer, Increasing]
  lastId := by simp [log, h.committed, h.writer]
  received := by simp [h.received, Follows]
  conn c hc := by
    rw [h.conn] at hc
    cases hc

theorem Sound.increasing_committed (h : w.Sound start) :
    Increasing ExecutionEvent.id w.committed :=
  h.increasing.sublist (List.sublist_append_left _ _)

/-- A client that comes back resumes where it stands. -/
theorem Sound.parse_lastEventId (h : w.Sound start) : parseLastEventId w.lastEventId =
    .ok (position ExecutionEvent.id start w.received) := by
  unfold lastEventId position
  cases w.received.getLast? with
  | none => exact h.header
  | some f => exact parseLastEventId_formatId f.entry.id

/-- A step that leaves the events alone keeps the invariant when it keeps the reading. -/
theorem Sound.of_reading (h : w.Sound start) (hheader : w'.header = w.header)
    (hcommitted : w'.committed = w.committed) (hwriter : w'.writer = w.writer)
    (hlastId : w'.lastId = w.lastId)
    (hreceived : Follows ExecutionEvent.id sees w.committed start w'.received)
    (hconn : ∀ c, w'.conn = some c →
      Follows ExecutionEvent.id sees w.committed start (w'.received ++ c.wire ++ c.batch) ∧
        c.cursor = position ExecutionEvent.id start (w'.received ++ c.wire)) : w'.Sound start where
  header := hheader ▸ h.header
  increasing := by simpa [log, hcommitted, hwriter] using h.increasing
  lastId := by simpa [log, hcommitted, hwriter, hlastId] using h.lastId
  received := hcommitted ▸ hreceived
  conn := by
    rw [hcommitted]
    exact hconn

/-- A poll reads on from the cursor. -/
theorem Sound.poll {c : Conn} (h : w.Sound start) (hc : w.conn = some c) (hrows : c.rows = []) :
    (w.poll batchSize c).Sound start := by
  obtain ⟨hfollows, hcursor⟩ := h.conn c hc
  have hread : Follows ExecutionEvent.id sees w.committed start (w.received ++ c.wire) := by
    simpa [Conn.batch, hrows] using hfollows
  unfold World.poll
  split
  · exact h.of_reading rfl rfl rfl rfl h.received fun _ hc' => by
      cases hc'
      exact ⟨hfollows, hcursor⟩
  · refine h.of_reading rfl rfl rfl rfl h.received fun _ hc' => ?_
    cases hc'
    refine ⟨CursorLog.follows_append.mpr ⟨hread, ?_⟩, hcursor⟩
    rw [← hcursor]
    exact CursorLog.follows_listAfter h.increasing_committed

/-- The stream hands a row over to the wire. -/
theorem Sound.yieldRow {c : Conn} {e : ExecutionEvent} {rows : List ExecutionEvent}
    (h : w.Sound start) (hc : w.conn = some c) (hrows : c.rows = e :: rows) :
    World.Sound start { w with conn := some { c with
      cursor := e.id, rows := rows, wire := c.wire ++ [⟨e, c.canReadAll⟩] } } := by
  obtain ⟨hfollows, -⟩ := h.conn c hc
  refine h.of_reading rfl rfl rfl rfl h.received fun _ hc' => ?_
  cases hc'
  refine ⟨?_, ?_⟩
  · simpa [Conn.batch, hrows] using hfollows
  · rw [← List.append_assoc, CursorLog.position_concat]

/-- A frame reaches the client. -/
theorem Sound.deliver {c : Conn} {f : Frame} {wire : List Frame} (h : w.Sound start)
    (hc : w.conn = some c) (hwire : c.wire = f :: wire) :
    World.Sound start { w with
      conn := some { c with wire := wire }, received := w.received ++ [f] } := by
  obtain ⟨hfollows, hcursor⟩ := h.conn c hc
  have hmove : w.received ++ [f] ++ wire = w.received ++ c.wire := by simp [hwire]
  refine h.of_reading rfl rfl rfl rfl ?_ fun _ hc' => ?_
  · rw [hwire] at hfollows
    have hsplit : w.received ++ f :: wire ++ c.batch = w.received ++ [f] ++ (wire ++ c.batch) := by
      simp
    rw [hsplit] at hfollows
    exact (CursorLog.follows_append.mp hfollows).1
  · cases hc'
    refine ⟨?_, ?_⟩
    · simpa [hmove, Conn.batch] using hfollows
    · simpa [hmove] using hcursor

/-- A commit adds events behind all there are. -/
theorem Sound.commit {events : List ExecutionEvent} (h : w.Sound start)
    (hwriter : w.writer = some events) :
    World.Sound start { w with committed := w.committed ++ events, writer := none } := by
  have hlog : w.log = w.committed ++ events := by rw [log, hwriter, Option.getD_some]
  have hnew : ∀ a ∈ w.committed, ∀ b ∈ events, a.id < b.id := by
    have hpairs := h.increasing
    rw [hlog, Increasing, List.pairwise_append] at hpairs
    exact hpairs.2.2
  have hlog' : World.log { w with committed := w.committed ++ events, writer := none } = w.log := by
    rw [hlog, log, Option.getD_none, List.append_nil]
  refine ⟨h.header, ?_, ?_, h.received.append_log hnew, fun c hc => ?_⟩
  · rw [hlog']
    exact h.increasing
  · rw [hlog']
    exact h.lastId
  · obtain ⟨hfollows, hcursor⟩ := h.conn c hc
    exact ⟨hfollows.append_log hnew, hcursor⟩

/-- An insertion takes an id behind all there are. -/
theorem Sound.append {events : List ExecutionEvent} {id : ℕ} {d : EventDraft} {e : ExecutionEvent}
    (h : w.Sound start) (hwriter : w.writer = some events) (hid : w.lastId < id)
    (he : appendEvent id d = some e) :
    World.Sound start { w with writer := some (events ++ [e]), lastId := id } := by
  have hlog : w.log = w.committed ++ events := by rw [log, hwriter, Option.getD_some]
  have hlog' : World.log { w with writer := some (events ++ [e]), lastId := id } =
      w.log ++ [e] := by
    rw [hlog, log, Option.getD_some, List.append_assoc]
  have hlast : ∀ a ∈ w.log, a.id < e.id := fun a ha => by
    rw [id_of_appendEvent he]
    exact (h.lastId a ha).trans_lt hid
  refine ⟨h.header, ?_, fun a ha => ?_, h.received, h.conn⟩
  · rw [hlog', Increasing, List.pairwise_append]
    refine ⟨h.increasing, List.pairwise_singleton _ _, fun a ha b hb => ?_⟩
    rw [List.mem_singleton.mp hb]
    exact hlast a ha
  · rw [hlog'] at ha
    rcases List.mem_append.mp ha with ha | ha
    · exact (h.lastId a ha).trans hid.le
    · rw [List.mem_singleton.mp ha, id_of_appendEvent he]

/-- A transaction begins without an event of its own, or ends without a commit. -/
theorem Sound.dropWriter (h : w.Sound start) {writer : Option (List ExecutionEvent)}
    (hwriter : writer.getD [] = []) {lastId : ℕ} (hlastId : w.lastId ≤ lastId) :
    World.Sound start { w with writer := writer, lastId := lastId } := by
  have hlog : World.log { w with writer := writer, lastId := lastId } = w.committed := by
    rw [log, hwriter, List.append_nil]
  refine ⟨h.header, ?_, fun a ha => ?_, h.received, h.conn⟩
  · rw [hlog]
    exact h.increasing_committed
  · rw [hlog] at ha
    exact (h.lastId a (List.mem_append_left _ ha)).trans hlastId

/-- A request starts where the client stands. -/
theorem Sound.connect (h : w.Sound start) : w.connect.Sound start := by
  unfold World.connect
  rw [h.parse_lastEventId]
  cases w.access.recheck with
  | none => exact h
  | some canReadAll =>
    refine h.of_reading rfl rfl rfl rfl h.received fun c hc => ?_
    cases hc
    simpa [Conn.batch] using h.received

/-- Every step keeps the invariant. -/
theorem Sound.step {a : Action} (h : w.Sound start) (hstep : w.step batchSize a = some w') :
    w'.Sound start := by
  cases a with
  | lock =>
    simp only [World.step] at hstep
    split at hstep
    · cases hstep
      exact h.dropWriter rfl le_rfl
    · cases hstep
  | append id d =>
    simp only [World.step] at hstep
    split at hstep
    · cases hstep
    next events hwriter =>
    split at hstep
    · next hid =>
      split at hstep
      · cases hstep
        exact h.dropWriter rfl hid.le
      · next e he =>
        cases hstep
        exact h.append hwriter hid he
    · cases hstep
  | commit =>
    obtain ⟨events, hwriter, rfl⟩ := Option.map_eq_some_iff.mp hstep
    exact h.commit hwriter
  | rollback =>
    obtain ⟨events, hwriter, rfl⟩ := Option.map_eq_some_iff.mp hstep
    exact h.dropWriter rfl le_rfl
  | setAccess access =>
    cases hstep
    exact ⟨h.header, h.increasing, h.lastId, h.received, h.conn⟩
  | connect =>
    simp only [World.step] at hstep
    split at hstep
    · cases hstep
      exact h.connect
    · cases hstep
  | poll =>
    simp only [World.step] at hstep
    split at hstep
    · cases hstep
    next c hc =>
    split at hstep
    · cases hstep
    next hready =>
    cases hstep
    exact h.poll hc (by simpa using (not_or.mp hready).2)
  | yieldRow =>
    simp only [World.step] at hstep
    split at hstep
    · cases hstep
    next c hc =>
    split at hstep
    · cases hstep
    next e rows hrows =>
    cases hstep
    exact h.yieldRow hc hrows
  | deliver =>
    simp only [World.step] at hstep
    split at hstep
    · cases hstep
    next c hc =>
    split at hstep
    · cases hstep
    next f wire hwire =>
    cases hstep
    exact h.deliver hc hwire
  | disconnect =>
    cases hstep
    refine h.of_reading rfl rfl rfl rfl h.received fun c hc => ?_
    cases hc

/-! ### Progress -/

/-- What was yielded to the client: the frames it received and the ones on the wire. -/
def yielded (w : World) : List Frame := w.received ++ (w.conn.map Conn.wire).getD []

/-- The stream is kept up for `e`: the connection stays, and every poll may show `e`. -/
def Attends (e : ExecutionEvent) (w : World) (a : Action) : Prop :=
  a ≠ .disconnect ∧
    (a = .poll → ∃ canReadAll, w.access.recheck = some canReadAll ∧ sees canReadAll e = true)

/-- `e` is yielded within `n` polls: it was yielded, or it is in the batch, or the connection stands
before it and every poll brings it nearer. -/
def Within (n : ℕ) (e : ExecutionEvent) (w : World) : Prop :=
  ∃ c, w.conn = some c ∧ (e ∈ (w.received ++ c.wire).map (·.entry) ∨ (1 ≤ n ∧ e ∈ c.rows) ∨
    (e ∈ w.committed ∧ position ExecutionEvent.id c.cursor c.batch < e.id ∧
      e.id + 1 ≤ n + position ExecutionEvent.id c.cursor c.batch))

variable {n : ℕ} {e : ExecutionEvent}

/-- A step that keeps the connection and the committed events keeps the distance. -/
theorem Within.of_conn (h : w.Within n e) (hconn : w'.conn = w.conn)
    (hreceived : w'.received = w.received) (hcommitted : ∀ x ∈ w.committed, x ∈ w'.committed) :
    w'.Within n e := by
  obtain ⟨c, hc, hcases⟩ := h
  refine ⟨c, hconn.trans hc, ?_⟩
  rw [hreceived]
  rcases hcases with h | h | ⟨h, hrest⟩
  · exact .inl h
  · exact .inr (.inl h)
  · exact .inr (.inr ⟨hcommitted e h, hrest⟩)

/-- A poll that may show `e` brings it nearer. -/
theorem Within.poll {c : Conn} (hs : w.Sound start) (hbatch : 0 < batchSize)
    (h : w.Within (n + 1) e) (hc : w.conn = some c) (hrows : c.rows = []) {canReadAll : Bool}
    (haccess : w.access.recheck = some canReadAll) (hsees : sees canReadAll e = true) :
    (w.poll batchSize c).Within n e := by
  obtain ⟨c', hc', hcases⟩ := h
  rw [hc] at hc'
  cases hc'
  have hpoll : w.poll batchSize c = { w with conn := some { c with
      canReadAll := canReadAll
      rows := listAfter canReadAll c.cursor batchSize w.committed } } := by
    rw [World.poll, haccess]
  rw [hpoll]
  refine ⟨_, rfl, ?_⟩
  rcases hcases with hsent | ⟨-, hmem⟩ | ⟨hmem, hbefore, hdistance⟩
  · exact .inl hsent
  · rw [hrows] at hmem
    cases hmem
  -- The batch is not empty; it holds `e`, or it ends before `e`.
  have hhorizon : position ExecutionEvent.id c.cursor c.batch = c.cursor := by
    rw [Conn.batch, hrows]
    rfl
  rw [hhorizon] at hbefore hdistance
  right
  by_cases hin : e ∈ listAfter canReadAll c.cursor batchSize w.committed
  · exact .inl ⟨by omega, hin⟩
  right
  refine ⟨hmem, ?_⟩
  rcases @CursorLog.position_eq_or _ _ ExecutionEvent.id c.cursor
      ((listAfter canReadAll c.cursor batchSize w.committed).map (⟨·, canReadAll⟩)) with
    ⟨hnil, -⟩ | ⟨r, hr, hposition⟩
  · exact absurd (List.map_eq_nil_iff.mp hnil)
      (CursorLog.listAfter_ne_nil hbatch hmem hbefore hsees)
  · obtain ⟨x, hx, rfl⟩ := List.mem_map.mp hr
    have hcursor : c.cursor < x.id := (CursorLog.mem_listAfter hx).2.1
    have hlast : x.id < e.id := by
      by_contra hle
      exact hin (CursorLog.mem_listAfter_of_le hs.increasing_committed hmem hbefore hsees hx
        (not_lt.mp hle))
    have hposition' : position ExecutionEvent.id c.cursor (Conn.batch { c with
        canReadAll := canReadAll
        rows := listAfter canReadAll c.cursor batchSize w.committed }) = x.id := hposition
    simp only [hposition']
    omega

/-- A step that is no poll keeps the distance. -/
theorem Within.step {a : Action} (h : w.Within n e) (ha : a ≠ .disconnect) (hpoll : a ≠ .poll)
    (hstep : w.step batchSize a = some w') : w'.Within n e := by
  cases a with
  | disconnect => exact absurd rfl ha
  | poll => exact absurd rfl hpoll
  | lock =>
    simp only [World.step] at hstep
    split at hstep
    · cases hstep
      exact h.of_conn rfl rfl fun _ hx => hx
    · cases hstep
  | append id d =>
    simp only [World.step] at hstep
    split at hstep
    · cases hstep
    split at hstep
    · split at hstep
      · cases hstep
        exact h.of_conn rfl rfl fun _ hx => hx
      · cases hstep
        exact h.of_conn rfl rfl fun _ hx => hx
    · cases hstep
  | commit =>
    obtain ⟨events, -, rfl⟩ := Option.map_eq_some_iff.mp hstep
    exact h.of_conn rfl rfl fun _ hx => List.mem_append_left _ hx
  | rollback =>
    obtain ⟨events, -, rfl⟩ := Option.map_eq_some_iff.mp hstep
    exact h.of_conn rfl rfl fun _ hx => hx
  | setAccess access =>
    cases hstep
    exact h.of_conn rfl rfl fun _ hx => hx
  | connect =>
    obtain ⟨c, hc, -⟩ := h
    simp [World.step, hc] at hstep
  | yieldRow =>
    obtain ⟨c, hc, hcases⟩ := h
    simp only [World.step, hc] at hstep
    split at hstep
    · cases hstep
    next x rows hrows =>
    cases hstep
    refine ⟨_, rfl, ?_⟩
    rcases hcases with hsent | ⟨hn, hmem⟩ | ⟨hmem, hposition⟩
    · rw [← List.append_assoc, List.map_append]
      exact .inl (List.mem_append_left _ hsent)
    · rw [hrows] at hmem
      rcases List.mem_cons.mp hmem with rfl | hmem
      · exact .inl (by simp)
      · exact .inr (.inl ⟨hn, hmem⟩)
    · refine .inr (.inr ⟨hmem, ?_⟩)
      have hsame : position ExecutionEvent.id c.cursor c.batch =
          position ExecutionEvent.id x.id (rows.map (⟨·, c.canReadAll⟩)) := by
        rw [Conn.batch, hrows, List.map_cons, CursorLog.position_cons]
      rwa [hsame] at hposition
  | deliver =>
    obtain ⟨c, hc, hcases⟩ := h
    simp only [World.step, hc] at hstep
    split at hstep
    · cases hstep
    next f wire hwire =>
    cases hstep
    refine ⟨_, rfl, ?_⟩
    have hmove : w.received ++ [f] ++ wire = w.received ++ c.wire := by simp [hwire]
    rw [hmove]
    exact hcases

/-- A poll of a stream that is kept up for `e`. -/
theorem Within.step_poll (hs : w.Sound start) (hbatch : 0 < batchSize) (h : w.Within (n + 1) e)
    (hattends : Attends e w .poll) (hstep : w.step batchSize .poll = some w') : w'.Within n e := by
  obtain ⟨c, hc, -⟩ := id h
  obtain ⟨canReadAll, haccess, hsees⟩ := hattends.2 rfl
  simp only [World.step, hc] at hstep
  split at hstep
  · cases hstep
  next hready =>
  cases hstep
  exact h.poll hs hbatch hc (by simpa using (not_or.mp hready).2) haccess hsees

/-- A run that keeps the stream up polls `e` nearer. -/
theorem Within.run {as : List Action} (hs : w.Sound start) (hbatch : 0 < batchSize)
    (h : w.Within (n + as.count .poll) e) (hattends : StepsMeet (World.step batchSize) (Attends e) w as)
    (hrun : Runs.run (World.step batchSize) w as = some w') : w'.Within n e := by
  induction as generalizing w with
  | nil =>
    cases hrun
    exact h
  | cons a as ih =>
    obtain ⟨w₁, hstep, hrun'⟩ := run_cons_eq_some.mp hrun
    have hnext : w₁.Within (n + as.count .poll) e := by
      by_cases ha : a = .poll
      · subst ha
        rw [List.count_cons_self, ← Nat.add_assoc] at h
        exact h.step_poll hs hbatch hattends.1 hstep
      · rw [List.count_cons_of_ne ha] at h
        exact h.step hattends.1.1 ha hstep
    exact ih (hs.step hstep) hnext (hattends.2 w₁ hstep) hrun'

/-- Nothing is left to wait for. -/
theorem Within.yielded (h : w.Within 0 e) : e ∈ w.yielded.map (·.entry) := by
  obtain ⟨c, hc, hsent | ⟨hn, -⟩ | ⟨-, hbefore, hdistance⟩⟩ := h
  · simpa [World.yielded, hc] using hsent
  · omega
  · omega

/-! ### The laws of the stream -/

/-- What the stream owes a client that started behind `start`: the events come in increasing order,
each is a committed event that its poll showed, none that its poll showed is passed over, and an
event behind the cursor is yielded once the stream was kept up for it long enough. -/
structure Complete (batchSize start : ℕ) (w : World) : Prop where
  increasing : w.yielded.Pairwise fun f g => f.entry.id < g.entry.id
  genuine : ∀ f ∈ w.yielded,
    start < f.entry.id ∧ f.entry ∈ w.committed ∧ sees f.scope f.entry = true
  noSkip : ∀ e ∈ w.committed, start < e.id → ∀ f ∈ w.yielded, e.id ≤ f.entry.id →
    (∀ g ∈ w.yielded, e.id ≤ g.entry.id → f.entry.id ≤ g.entry.id) → sees f.scope e = true →
      f.entry = e
  progress : ∀ e ∈ w.committed, ∀ c, w.conn = some c → c.rows = [] → c.cursor < e.id →
    ∀ bs w', StepsMeet (World.step batchSize) (Attends e) w bs →
      run (World.step batchSize) w bs = some w' → e.id - c.cursor < bs.count .poll →
        e ∈ w'.yielded.map (·.entry)

theorem Sound.follows_yielded (h : w.Sound start) :
    Follows ExecutionEvent.id sees w.committed start w.yielded := by
  unfold World.yielded
  cases hc : w.conn with
  | none => simpa using h.received
  | some c => exact (CursorLog.follows_append.mp (h.conn c hc).1).1

/-- The invariant gives the laws. -/
theorem Sound.complete (h : w.Sound start) (hbatch : 0 < batchSize) : Complete batchSize start w where
  increasing := h.follows_yielded.pairwise
  genuine _ hf := h.follows_yielded.of_mem hf
  noSkip e he hstart f hf hle hfirst hsees := by
    have hid := h.follows_yielded.sees_passing he hstart hf hle hfirst hsees
    exact CursorLog.eq_of_key_eq h.increasing_committed (h.follows_yielded.of_mem hf).2.1 he hid
  progress e he c hc hrows hcursor bs w' hattends hrun hpolls := by
    have hhorizon : position ExecutionEvent.id c.cursor c.batch = c.cursor := by
      rw [Conn.batch, hrows]
      rfl
    have hwithin : w.Within (0 + bs.count .poll) e := by
      refine ⟨c, hc, .inr (.inr ⟨he, ?_⟩)⟩
      rw [hhorizon]
      omega
    exact (Within.run h hbatch hwithin hattends hrun).yielded

/-- **Completeness of the event stream.** Whatever is committed, polled, sent, lost and asked for
again, and however the reader's access changes, the stream owes the client nothing. -/
theorem stream_complete {batchSize start : ℕ} (hbatch : 0 < batchSize) {w₀ w : World}
    (hinit : w₀.Initial) (hstart : parseLastEventId w₀.header = .ok start) {as : List Action}
    (hrun : run (World.step batchSize) w₀ as = some w) : Complete batchSize start w :=
  (Runs.run_invariant (fun _ _ _ hs hstep => hs.step hstep) (hinit.sound hstart) hrun).complete
    hbatch

/-- A requester without `execution.read`, before its first request. -/
def requesterWorld : World where
  committed := []
  writer := none
  lastId := 3
  access := ⟨true, true, false, true⟩
  header := none
  conn := none
  received := []

/-- Two events are committed, and the connection breaks after the first of them. -/
def brokenRun : List Action :=
  [.lock, .append 5 ⟨"execution.started", "USER", .obj [], 1⟩,
    .append 9 ⟨"execution.succeeded", "USER", .obj [], 1⟩, .commit, .connect, .poll, .yieldRow,
    .deliver, .disconnect, .connect, .poll, .yieldRow]

theorem brokenRun_complete : ∃ w, run (World.step 1) requesterWorld brokenRun = some w ∧
    w.yielded.map (·.entry.id) = [5, 9] ∧ Complete 1 0 w := by
  have hrun : (run (World.step 1) requesterWorld brokenRun).isSome = true := by decide
  obtain ⟨w, hw⟩ := Option.isSome_iff_exists.mp hrun
  have hids : (run (World.step 1) requesterWorld brokenRun).map
      (fun w => w.yielded.map (·.entry.id)) = some [5, 9] := by decide
  rw [hw] at hids
  exact ⟨w, hw, Option.some.inj hids,
    stream_complete (by decide) ⟨rfl, rfl, rfl, rfl⟩ (by decide) hw⟩

end World

end McpFlow.Events
