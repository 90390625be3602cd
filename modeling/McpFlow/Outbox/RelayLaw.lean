import McpFlow.Library.Runs
import McpFlow.Outbox.Relay

/-!
# What a relay leaves behind

A batch in which no attempt raises settles every row by its own attempt, whatever happens to the
others. The first attempt that raises ends the batch: what the broker has taken before stays with
it, and the rollback leaves every row as it was.
-/

namespace McpFlow.Outbox

variable {publisher : Publisher} {now : Time} {rows before after : List OutboxEvent}
  {row : OutboxEvent} {s s' : Relay} {n : ℕ} {e : AppError}

/-! ### One batch -/

/-- The row after its attempt. -/
def settle (publisher : Publisher) (now : Time) (n : ℕ) (row : OutboxEvent) : OutboxEvent :=
  match attempt publisher n row with
  | .handed _ => row.markPublished now
  | .failed => row.recordPublishFailure now
  | .raised _ => row

/-- The messages that the broker takes from attempts on these rows, one after the other. -/
def handedMessages (publisher : Publisher) : ℕ → List OutboxEvent → List QueueMessage
  | _, [] => []
  | n, row :: rows =>
    match attempt publisher n row with
    | .handed message => message :: handedMessages publisher (n + 1) rows
    | _ => handedMessages publisher (n + 1) rows

/-- No attempt on these rows raises. -/
def NoneRaises (publisher : Publisher) (n : ℕ) (rows : List OutboxEvent) : Prop :=
  ∀ i row, rows[i]? = some row → ∀ e, attempt publisher (n + i) row ≠ .raised e

theorem settle_id (publisher : Publisher) (now : Time) (n : ℕ) (row : OutboxEvent) :
    (settle publisher now n row).id = row.id := by
  rw [settle]
  split
  · rfl
  · rfl
  · rfl

theorem NoneRaises.tail (h : NoneRaises publisher n (row :: rows)) :
    NoneRaises publisher (n + 1) rows := by
  intro i row' hrow' e
  have := h (i + 1) row' hrow' e
  rwa [← Nat.add_assoc, Nat.add_right_comm] at this

/-- The transaction behind one attempt that does not raise. -/
private def Relay.advance (publisher : Publisher) (now : Time) (row : OutboxEvent) (s : Relay) :
    Relay where
  rows := s.rows.put (settle publisher now s.attempts row)
  delivered := s.delivered ++ handedMessages publisher s.attempts [row]
  attempts := s.attempts + 1

private theorem publishRows_cons (now : Time) (rows : List OutboxEvent)
    (result : PublishBatchResult) (h : ∀ e, attempt publisher s.attempts row ≠ .raised e) :
    ∃ result', publishRows publisher now (row :: rows) s result =
      publishRows publisher now rows (s.advance publisher now row) result' := by
  rw [publishRows, Relay.advance, settle, handedMessages]
  cases hattempt : attempt publisher s.attempts row with
  | handed message => exact ⟨_, rfl⟩
  | failed =>
    refine ⟨{ result with failed := result.failed + 1 }, ?_⟩
    simp only [handedMessages, List.append_nil]
  | raised e => exact absurd hattempt (h e)

private theorem delivered_advance :
    (s.advance publisher now row).delivered ++ handedMessages publisher (s.attempts + 1) rows =
      s.delivered ++ handedMessages publisher s.attempts (row :: rows) := by
  rw [Relay.advance, List.append_assoc]
  congr 1
  simp only [handedMessages]
  split
  · rfl
  · rfl

/-- A batch in which nothing raises settles each of its rows by its own attempt, and no other. -/
theorem publishRows_of_noneRaises (result : PublishBatchResult)
    (hraise : NoneRaises publisher s.attempts rows)
    (hmem : ∀ row ∈ rows, row ∈ s.rows) (hnodup : (rows.map (·.id)).Nodup) :
    ∃ s' result', publishRows publisher now rows s result = (s', .ok result') ∧
      s'.delivered = s.delivered ++ handedMessages publisher s.attempts rows ∧
      (∀ i row, rows[i]? = some row →
        s'.rows.find? row.id = some (settle publisher now (s.attempts + i) row)) ∧
      ∀ id, (∀ row ∈ rows, row.id ≠ id) → s'.rows.find? id = s.rows.find? id := by
  induction rows generalizing s result with
  | nil =>
    refine ⟨s, result, rfl, ?_, fun i row h => ?_, fun _ _ => rfl⟩
    · rw [handedMessages, List.append_nil]
    · rw [List.getElem?_nil] at h
      cases h
  | cons row rows ih =>
    obtain ⟨result', hstep⟩ := publishRows_cons now rows result fun e => hraise 0 row rfl e
    rw [List.map_cons, List.nodup_cons] at hnodup
    have hne : ∀ row' ∈ rows, row'.id ≠ row.id := fun row' hrow' heq =>
      hnodup.1 (heq ▸ List.mem_map_of_mem hrow')
    have hkey := settle_id publisher now s.attempts row
    have hrest : ∀ row' ∈ rows, row' ∈ (s.advance publisher now row).rows := fun row' hrow' =>
      Table.mem_put_of_ne (hmem row' (List.mem_cons_of_mem row hrow')) (hkey ▸ hne row' hrow')
    obtain ⟨s', result'', hrun, hdelivered, hrows, hothers⟩ :=
      ih (s := s.advance publisher now row) result' hraise.tail hrest hnodup.2
    refine ⟨s', result'', hstep.trans hrun, hdelivered.trans delivered_advance, ?_, ?_⟩
    · intro i row' hrow'
      cases i with
      | zero =>
        obtain rfl : row = row' := Option.some.inj hrow'
        rw [hothers row.id hne]
        exact Table.find?_put_of_find? (Table.find?_key_of_mem (hmem row List.mem_cons_self)) hkey
      | succ i =>
        have := hrows i row' hrow'
        rwa [show (s.advance publisher now row).attempts + i = s.attempts + (i + 1) by
          rw [Relay.advance, Nat.add_right_comm, Nat.add_assoc]] at this
    · intro id hid
      rw [hothers id fun row' hrow' => hid row' (List.mem_cons_of_mem row hrow')]
      exact Table.find?_put_of_ne fun h => hid row List.mem_cons_self (hkey ▸ h.symm)

/-- The first attempt that raises ends the batch behind what the broker has taken. -/
theorem publishRows_of_raised (result : PublishBatchResult)
    (hraise : NoneRaises publisher s.attempts before)
    (h : attempt publisher (s.attempts + before.length) row = .raised e) :
    ∃ s', publishRows publisher now (before ++ row :: after) s result = (s', .error e) ∧
      s'.delivered = s.delivered ++ handedMessages publisher s.attempts before := by
  induction before generalizing s result with
  | nil =>
    rw [List.nil_append, publishRows]
    rw [List.length_nil, Nat.add_zero] at h
    rw [h]
    exact ⟨_, rfl, (List.append_nil _).symm⟩
  | cons first before ih =>
    obtain ⟨result', hstep⟩ := publishRows_cons now (before ++ row :: after) result
      fun e => hraise 0 first rfl e
    obtain ⟨s', hrun, hdelivered⟩ := ih (s := s.advance publisher now first) result' hraise.tail
      (by rwa [List.length_cons, ← Nat.add_assoc, Nat.add_right_comm] at h)
    exact ⟨s', hstep.trans hrun, hdelivered.trans delivered_advance⟩

/-- Either nothing raises, or there is a first attempt that does. -/
theorem noneRaises_or_exists (publisher : Publisher) (n : ℕ) (rows : List OutboxEvent) :
    NoneRaises publisher n rows ∨ ∃ before row after e, rows = before ++ row :: after ∧
      NoneRaises publisher n before ∧ attempt publisher (n + before.length) row = .raised e := by
  induction rows generalizing n with
  | nil => exact .inl fun i row h => by simp at h
  | cons first rows ih =>
    by_cases hfirst : ∃ e, attempt publisher n first = .raised e
    · obtain ⟨e, he⟩ := hfirst
      exact .inr ⟨[], first, rows, e, rfl, fun i row h => by simp at h, he⟩
    · have hcons : ∀ {l}, NoneRaises publisher (n + 1) l → NoneRaises publisher n (first :: l) := by
        intro l hl i row hrow e he
        cases i with
        | zero =>
          obtain rfl : first = row := Option.some.inj hrow
          exact hfirst ⟨e, he⟩
        | succ i => exact hl i row hrow e (by rwa [Nat.add_right_comm, Nat.add_assoc])
      obtain hrest | ⟨before, row, after, e, rfl, hbefore, he⟩ := ih (n + 1)
      · exact .inl (hcons hrest)
      · refine .inr ⟨first :: before, row, after, e, rfl, hcons hbefore, ?_⟩
        rwa [List.length_cons, ← Nat.add_assoc, Nat.add_right_comm]

theorem mem_handedMessages {i : ℕ} {message : QueueMessage} (hrow : rows[i]? = some row)
    (h : attempt publisher (n + i) row = .handed message) :
    message ∈ handedMessages publisher n rows := by
  induction rows generalizing n i with
  | nil =>
    rw [List.getElem?_nil] at hrow
    cases hrow
  | cons first rows ih =>
    cases i with
    | zero =>
      obtain rfl : first = row := Option.some.inj hrow
      rw [Nat.add_zero] at h
      rw [handedMessages, h]
      exact List.mem_cons_self
    | succ i =>
      have hin := ih (n := n + 1) hrow (by rwa [Nat.add_right_comm, Nat.add_assoc])
      rw [handedMessages]
      split
      · exact List.mem_cons_of_mem _ hin
      · exact hin

/-! ### One relay -/

variable {limit : ℤ} {locked : UUID → Bool}

/-- The rows that a relay works on. -/
def Relay.batch (s : Relay) (limit : ℤ) (locked : UUID → Bool) : List OutboxEvent :=
  claimUnpublishedBatch limit.toNat locked s.rows.rows

theorem Relay.mem_batch (h : row ∈ s.batch limit locked) :
    row ∈ s.rows ∧ row.unpublished = true := by
  have hfiltered : row ∈ s.rows.rows.filter fun row => row.unpublished && !locked row.id :=
    Keyset.mem_ordered.mp (List.mem_of_mem_take h)
  obtain ⟨hrow, hpass⟩ := List.mem_filter.mp hfiltered
  rw [Bool.and_eq_true] at hpass
  exact ⟨hrow, hpass.1⟩

theorem Relay.nodup_batch (s : Relay) (limit : ℤ) (locked : UUID → Bool) :
    ((s.batch limit locked).map (·.id)).Nodup := by
  have hfiltered : ((s.rows.rows.filter fun row => row.unpublished && !locked row.id).map
      (·.id)).Nodup := s.rows.nodup_keys.sublist (List.filter_sublist.map _)
  have hordered := ((Keyset.perm_ordered creationOrder _).map (·.id)).nodup_iff.mpr hfiltered
  exact hordered.sublist ((List.take_sublist _ _).map _)

theorem publishBatch_eq (hlimit : 1 ≤ limit ∧ limit ≤ maxBatchSize) :
    publishBatch publisher limit locked now s = publishRows publisher now (s.batch limit locked) s
      ⟨(s.batch limit locked).length, 0, 0⟩ :=
  if_neg fun h => h.elim (not_lt.mpr hlimit.1) (not_lt.mpr hlimit.2)

/-- What a relay makes of its batch. -/
structure RelayLaw (publisher : Publisher) (limit : ℤ) (locked : UUID → Bool) (now : Time)
    (s : Relay) : Prop where
  /-- Without an attempt that raises, every row of the batch is settled by its own attempt. -/
  settled : NoneRaises publisher s.attempts (s.batch limit locked) →
    (∀ i row, (s.batch limit locked)[i]? = some row →
      (relay publisher limit locked now s).rows.find? row.id =
        some (settle publisher now (s.attempts + i) row)) ∧
    (∀ id, (∀ row ∈ s.batch limit locked, row.id ≠ id) →
      (relay publisher limit locked now s).rows.find? id = s.rows.find? id) ∧
    (relay publisher limit locked now s).delivered =
      s.delivered ++ handedMessages publisher s.attempts (s.batch limit locked)
  /-- The first attempt that raises rolls every row back; what was handed over stays. -/
  stopped : ∀ before row after e, s.batch limit locked = before ++ row :: after →
    NoneRaises publisher s.attempts before →
    attempt publisher (s.attempts + before.length) row = .raised e →
    (relay publisher limit locked now s).rows = s.rows ∧
      (relay publisher limit locked now s).delivered =
        s.delivered ++ handedMessages publisher s.attempts before
  /-- A row that is not handed over can be claimed again. -/
  retryable : ∀ i row, (s.batch limit locked)[i]? = some row →
    (∀ message, attempt publisher (s.attempts + i) row ≠ .handed message) →
    ∃ row', (relay publisher limit locked now s).rows.find? row.id = some row' ∧
      row'.unpublished = true

theorem relayLaw (publisher : Publisher) (locked : UUID → Bool) (now : Time) (s : Relay)
    (hlimit : 1 ≤ limit ∧ limit ≤ maxBatchSize) : RelayLaw publisher limit locked now s := by
  have hsettled : NoneRaises publisher s.attempts (s.batch limit locked) →
      (∀ i row, (s.batch limit locked)[i]? = some row →
        (relay publisher limit locked now s).rows.find? row.id =
          some (settle publisher now (s.attempts + i) row)) ∧
      (∀ id, (∀ row ∈ s.batch limit locked, row.id ≠ id) →
        (relay publisher limit locked now s).rows.find? id = s.rows.find? id) ∧
      (relay publisher limit locked now s).delivered =
        s.delivered ++ handedMessages publisher s.attempts (s.batch limit locked) := by
    intro hnone
    obtain ⟨s', result', hrun, hdelivered, hrows, hothers⟩ := publishRows_of_noneRaises
      ⟨(s.batch limit locked).length, 0, 0⟩ hnone (fun row h => (Relay.mem_batch h).1)
      (s.nodup_batch limit locked)
    rw [relay, publishBatch_eq hlimit, hrun]
    exact ⟨hrows, hothers, hdelivered⟩
  have hstopped : ∀ before row after e, s.batch limit locked = before ++ row :: after →
      NoneRaises publisher s.attempts before →
      attempt publisher (s.attempts + before.length) row = .raised e →
      (relay publisher limit locked now s).rows = s.rows ∧
        (relay publisher limit locked now s).delivered =
          s.delivered ++ handedMessages publisher s.attempts before := by
    intro before row after e hbatch hnone hraised
    obtain ⟨s', hrun, hdelivered⟩ := publishRows_of_raised
      ⟨(s.batch limit locked).length, 0, 0⟩ hnone hraised
    rw [relay, publishBatch_eq hlimit, hbatch] at *
    rw [hrun]
    exact ⟨rfl, hdelivered⟩
  refine ⟨hsettled, hstopped, fun i row hrow hhanded => ?_⟩
  obtain ⟨hmem, hunpublished⟩ := Relay.mem_batch (List.mem_of_getElem? hrow)
  obtain hnone | ⟨before, bad, after, e, hbatch, hnone, hraised⟩ :=
    noneRaises_or_exists publisher s.attempts (s.batch limit locked)
  · refine ⟨_, (hsettled hnone).1 i row hrow, ?_⟩
    rw [settle]
    cases hattempt : attempt publisher (s.attempts + i) row with
    | handed message => exact absurd hattempt (hhanded message)
    | failed => exact OutboxEvent.unpublished_recordPublishFailure hunpublished now
    | raised e => exact hunpublished
  · refine ⟨row, ?_, hunpublished⟩
    rw [(hstopped before bad after e hbatch hnone hraised).1]
    exact Table.find?_key_of_mem hmem

/-! ### Runs -/

/-- Rows enter with the transaction of their business state; relays run one after the other on the
rows that no other one has locked. -/
inductive Action where
  | create (row : OutboxEvent)
  | relay (publisher : Publisher) (limit : ℤ) (locked : UUID → Bool) (now : Time)

/-- `create_*` adds an unpublished row under a new id; a relay is one transaction. -/
def Relay.step (s : Relay) : Action → Option Relay
  | .create row =>
    if row.publishedAt.isNone then
      (s.rows.insert? row).map fun rows => { s with rows := rows }
    else none
  | .relay publisher limit locked now => some (relay publisher limit locked now s)

/-- No rows, and nothing handed to the broker. -/
def Relay.Initial (s : Relay) : Prop := s.rows.rows = [] ∧ s.delivered = []

/-- A published row has its message with the broker. -/
def Relay.PublishedHanded (s : Relay) : Prop :=
  ∀ row ∈ s.rows, row.publishedAt.isSome = true →
    ∃ message, messageOf row = .ok message ∧ message ∈ s.delivered

/-- A row that an attempt marks is valid, and the broker has taken its message. -/
theorem messageOf_of_handed {message : QueueMessage}
    (h : attempt publisher n row = .handed message) :
    messageOf row = .ok message := by
  rw [attempt] at h
  split at h
  · cases h
  · case h_2 m hm =>
    split at h
    · obtain rfl : m = message := Attempt.handed.inj h
      exact hm
    · cases h
    · cases h

theorem publishedHanded_relay (hlimit : 1 ≤ limit ∧ limit ≤ maxBatchSize)
    (h : s.PublishedHanded) : (relay publisher limit locked now s).PublishedHanded := by
  have hlaw := relayLaw publisher locked now s hlimit
  obtain hnone | ⟨before, bad, after, e, hbatch, hnone, hraised⟩ :=
    noneRaises_or_exists publisher s.attempts (s.batch limit locked)
  · obtain ⟨hrows, hothers, hdelivered⟩ := hlaw.settled hnone
    intro row hrow hpublished
    have hfind := Table.find?_key_of_mem hrow
    rw [hdelivered]
    by_cases hin : ∃ old ∈ s.batch limit locked, old.id = row.id
    · obtain ⟨old, hold, hid⟩ := hin
      obtain ⟨i, hi⟩ := List.getElem?_of_mem hold
      -- only an attempt that hands its message over marks the row
      rw [← hid, hrows i old hi, Option.some.injEq] at hfind
      subst hfind
      rw [settle] at hpublished ⊢
      cases hattempt : attempt publisher (s.attempts + i) old with
      | handed message =>
        exact ⟨message, messageOf_of_handed hattempt,
          List.mem_append_right _ (mem_handedMessages hi hattempt)⟩
      | failed =>
        rw [hattempt] at hpublished
        cases hpublished
      | raised e => exact absurd hattempt (hnone i old hi e)
    · have hnot : ∀ old ∈ s.batch limit locked, old.id ≠ row.id := fun old hold hid =>
        hin ⟨old, hold, hid⟩
      rw [hothers row.id hnot] at hfind
      obtain ⟨message, hmessage, hmem⟩ := h row (Table.mem_of_find? hfind) hpublished
      exact ⟨message, hmessage, List.mem_append_left _ hmem⟩
  · obtain ⟨hrows, hdelivered⟩ := hlaw.stopped before bad after e hbatch hnone hraised
    intro row hrow hpublished
    rw [hrows] at hrow
    obtain ⟨message, hmessage, hmem⟩ := h row hrow hpublished
    exact ⟨message, hmessage, hdelivered ▸ List.mem_append_left _ hmem⟩

/-- Outside the bounds of a batch nothing happens. -/
theorem relay_of_limit (hlimit : ¬ (1 ≤ limit ∧ limit ≤ maxBatchSize)) :
    relay publisher limit locked now s = s := by
  have hbad : limit < 1 ∨ maxBatchSize < limit := by
    rw [not_and_or, not_le, not_le] at hlimit
    exact hlimit
  rw [relay, publishBatch, if_pos hbad]

theorem publishedHanded_step {a : Action} (h : s.PublishedHanded) (hstep : s.step a = some s') :
    s'.PublishedHanded := by
  cases a with
  | create row =>
    rw [Relay.step] at hstep
    split at hstep
    · case isTrue hnew =>
      obtain ⟨rows, hrows, rfl⟩ := Option.map_eq_some_iff.mp hstep
      intro r hr hpublished
      rcases (Table.mem_of_insert? hrows).mp hr with hr | rfl
      · exact h r hr hpublished
      · rw [Option.isNone_iff_eq_none.mp hnew] at hpublished
        cases hpublished
    · cases hstep
  | relay publisher limit locked now =>
    obtain rfl : relay publisher limit locked now s = s' := Option.some.inj hstep
    by_cases hlimit : 1 ≤ limit ∧ limit ≤ maxBatchSize
    · exact publishedHanded_relay hlimit h
    · rw [relay_of_limit hlimit]
      exact h

/-- In every run a published row was handed over, and every relay keeps its failures to the rows
that fail, up to the first attempt that raises. -/
theorem relay_run {as : List Action} (hinit : s.Initial)
    (hrun : Runs.run Relay.step s as = some s') :
    s'.PublishedHanded ∧ ∀ publisher limit locked now, 1 ≤ limit ∧ limit ≤ maxBatchSize →
      RelayLaw publisher limit locked now s' := by
  have hstart : s.PublishedHanded := by
    intro row hrow
    rw [Table.mem_def, hinit.1] at hrow
    exact absurd hrow List.not_mem_nil
  refine ⟨Runs.run_invariant (fun _ _ _ h hstep => publishedHanded_step h hstep) hstart hrun, ?_⟩
  exact fun publisher limit locked now hlimit => relayLaw publisher locked now s' hlimit

/-- The row of a dispatch, as `create_execution_dispatch` writes it. -/
def dispatchRow (id : UUID) (createdAt : Time) : OutboxEvent where
  id := id
  eventType := "EXECUTION_DISPATCH"
  aggregateType := "EXECUTION"
  aggregateId := id
  dedupeKey := "execution:" ++ id.toString ++ ":initial"
  payload := .obj [("execution_id", .str id.toString)]
  createdAt := createdAt
  lastAttemptAt := none
  publishedAt := none
  publishAttemptCount := 0
  lastErrorCode := none
  lockVersion := 1

/-- A broker that takes everything. -/
def takesAll : Publisher := fun _ _ => .handed

/-- A relay without rows. -/
def noRows : Relay where
  rows := ⟨[], List.nodup_nil⟩
  delivered := []
  attempts := 0

/-- One row is written, and one batch is relayed. -/
def writtenAndRelayed : List Action :=
  [.create (dispatchRow (.ofNat 1) 1), .relay takesAll 10 (fun _ => false) 5]

/-- The row is marked, with its message at the broker. -/
theorem relay_run_takesAll : ∃ s', Runs.run Relay.step noRows writtenAndRelayed = some s' ∧
    s'.delivered = [.execution ⟨1, by decide⟩ ⟨1, by decide⟩] ∧ s'.PublishedHanded := by
  obtain ⟨s', hrun⟩ : ∃ s', Runs.run Relay.step noRows writtenAndRelayed = some s' := ⟨_, rfl⟩
  refine ⟨s', hrun, ?_, (relay_run ⟨rfl, rfl⟩ hrun).1⟩
  obtain rfl := Option.some.inj hrun
  rfl

/-! ### A corrupt row -/

/-- A dispatch whose payload got a second member. -/
def corruptRow (id : UUID) (createdAt : Time) : OutboxEvent :=
  { dispatchRow id createdAt with
    payload := .obj [("execution_id", .str id.toString), ("plan", .str "forbidden")] }

/-- Three rows to relay: a valid one, a corrupt one and a valid one. -/
def corruptMiddle : Relay where
  rows := ⟨[dispatchRow (.ofNat 1) 1, corruptRow (.ofNat 2) 2,
    dispatchRow (.ofNat 3) 3], by decide⟩
  delivered := []
  attempts := 0

/-- The corrupt row undoes the mark of the row before it, whose message the broker has, and keeps
the row behind it from being published. -/
theorem relay_corruptMiddle :
    (relay takesAll 10 (fun _ => false) 5 corruptMiddle).rows = corruptMiddle.rows ∧
      (relay takesAll 10 (fun _ => false) 5 corruptMiddle).delivered =
        [.execution ⟨1, by decide⟩ ⟨1, by decide⟩] := by
  constructor
  · rfl
  · rfl

end McpFlow.Outbox
