import McpFlow.Execution.LoopRuntime
import McpFlow.Library.Except

/-!
# The stored history of a WHILE LOOP

The gates of a WHILE LOOP are kept as JSON in `resolved_input`. Each gate that is recorded reads the
stored document, appends an entry or replays one that is there, and writes the document back. An
entry that is written stays; a gate that was accepted once is accepted again without a change.
-/

namespace McpFlow.WhileControl

open Json

/-! ### Reading and writing -/

/-- `_assert_sha256_hex`. -/
def assertSha256Hex : Option Value → Except AppError Sha256Hex
  | some (.str s) =>
    if h : Text.isSha256Hex s = true then .ok ⟨s, h⟩
    else .error (conflict "evidence_hash must be a 64-char lowercase sha256 hex.")
  | _ => .error (conflict "evidence_hash must be a 64-char lowercase sha256 hex.")

/-- The checks of one entry. -/
def parseEntry (idx : ℕ) : Value → Except AppError GateEntry
  | .obj members =>
    if !(members.map Prod.fst).sameSet ["next_iteration_no", "evidence_hash", "result"] then
      .error (conflict "WHILE predicate_history entry has unexpected fields.")
    else match members.lookup "next_iteration_no" with
      | some (.int n) =>
        if n < 1 then .error (conflict "WHILE next_iteration_no must be an int >= 1.")
        else if n ≠ idx + 1 then .error (conflict
          "WHILE predicate_history next_iteration_no values must be contiguous starting at 1.")
        else do
          let digest ← assertSha256Hex (members.lookup "evidence_hash")
          match members.lookup "result" with
          | some (.bool result) => return ⟨n.toNat, digest, result⟩
          | _ => .error (conflict "WHILE predicate_history result must be a bool.")
      | _ => .error (conflict "WHILE next_iteration_no must be an int >= 1.")
  | _ => .error (conflict "WHILE predicate_history entry must be an object.")

/-- The entries from an index on. -/
def parseEntries : ℕ → List Value → Except AppError (List GateEntry)
  | _, [] => .ok []
  | idx, entry :: entries => do
    let parsed ← parseEntry idx entry
    let rest ← parseEntries (idx + 1) entries
    return parsed :: rest

/-- The history of a control document. -/
def parseHistory : Value → Except AppError (List GateEntry)
  | .obj members =>
    if !(members.map Prod.fst).sameSet ["mode", "predicate_history"] then
      .error (conflict "LOOP resolved_input has unexpected WHILE control fields.")
    else if members.lookup "mode" ≠ some (.str "WHILE") then
      .error (conflict "LOOP resolved_input mode must be WHILE.")
    else match members.lookup "predicate_history" with
      | some (.arr entries) => parseEntries 0 entries
      | _ => .error (conflict "WHILE predicate_history must be a list.")
  | _ => .error (conflict "LOOP resolved_input must be a WHILE control object.")

/-- An entry as it is written. -/
def serializeEntry (entry : GateEntry) : Value :=
  .obj [("next_iteration_no", .int entry.nextIterationNo),
    ("evidence_hash", .str entry.evidenceHash.val), ("result", .bool entry.result)]

/-- A control document. -/
def serialize (history : List GateEntry) : Value :=
  .obj [("mode", .str "WHILE"), ("predicate_history", .arr (history.map serializeEntry))]

/-- `parse_while_predicate_history`. -/
def parseWhilePredicateHistory (resolvedInput : Value) : Except AppError Value :=
  (parseHistory resolvedInput).map serialize

/-- `history_entry_for`. -/
def historyEntryFor (history : List GateEntry) (nextIterationNo : ℤ) : Option GateEntry :=
  history.find? fun entry => entry.nextIterationNo = nextIterationNo

/-- The history with a gate appended, or as it is when the gate is replayed. -/
def updateHistory (history : List GateEntry) (nextIterationNo : ℤ) (digest : Sha256Hex)
    (result : Bool) : Except AppError (List GateEntry) :=
  match historyEntryFor history nextIterationNo with
  | none =>
    if nextIterationNo ≠ history.length + 1 then
      .error (conflict "WHILE history append does not follow the history.")
    else .ok (history ++ [⟨nextIterationNo.toNat, digest, result⟩])
  | some existing =>
    if existing.evidenceHash ≠ digest ∨ existing.result ≠ result then
      .error (conflict "WHILE predicate_history replay mismatch.")
    else .ok history

/-- `append_or_replay_while_history`. -/
def appendOrReplayWhileHistory (resolvedInput : Value) (nextIterationNo : ℤ)
    (evidenceHash : String) (result : Bool) : Except AppError Value := do
  let history ← parseHistory resolvedInput
  let digest ← assertSha256Hex (some (.str evidenceHash))
  let updated ← updateHistory history nextIterationNo digest result
  parseWhilePredicateHistory (serialize updated)

/-! ### Round trip -/

/-- The entries are numbered from 1. -/
def Contiguous (history : List GateEntry) : Prop :=
  history.map (·.nextIterationNo) = List.range' 1 history.length

variable {history : List GateEntry} {v : Value} {digest : Sha256Hex} {result : Bool}

@[simp] theorem assertSha256Hex_val (digest : Sha256Hex) :
    assertSha256Hex (some (.str digest.val)) = .ok digest := by
  rw [assertSha256Hex, dif_pos digest.isHex]

theorem parseEntry_serializeEntry {idx : ℕ} {entry : GateEntry}
    (h : entry.nextIterationNo = idx + 1) : parseEntry idx (serializeEntry entry) = .ok entry := by
  obtain ⟨n, digest, result⟩ := entry
  subst h
  have hkeys : ["next_iteration_no", "evidence_hash", "result"].sameSet
      ["next_iteration_no", "evidence_hash", "result"] = true := List.sameSet_iff.mpr fun _ => .rfl
  simp [serializeEntry, parseEntry, List.lookup_cons, hkeys, bind, Except.bind, pure, Except.pure]

theorem parseEntries_serialize (idx : ℕ) {history : List GateEntry}
    (h : history.map (·.nextIterationNo) = List.range' (idx + 1) history.length) :
    parseEntries idx (history.map serializeEntry) = .ok history := by
  induction history generalizing idx with
  | nil => rfl
  | cons entry history ih =>
    rw [List.map_cons, List.length_cons, List.range'_succ, List.cons.injEq] at h
    rw [List.map_cons, parseEntries, parseEntry_serializeEntry h.1, ih (idx + 1) h.2]
    rfl

/-- What is written is read back. -/
theorem parseHistory_serialize (h : Contiguous history) :
    parseHistory (serialize history) = .ok history := by
  have hkeys : ["mode", "predicate_history"].sameSet ["mode", "predicate_history"] = true :=
    List.sameSet_iff.mpr fun _ => .rfl
  simp [serialize, parseHistory, List.lookup_cons, hkeys, parseEntries_serialize 0 h]

theorem nextIterationNo_of_parseEntry {idx : ℕ} {entry : GateEntry}
    (h : parseEntry idx v = .ok entry) : entry.nextIterationNo = idx + 1 := by
  unfold parseEntry at h
  split at h
  · split at h
    · cases h
    split at h
    · next n _ =>
      split at h
      · cases h
      split at h
      · cases h
      next hnumber =>
      obtain ⟨digest, -, h⟩ := Except.bind_eq_ok_iff.mp h
      split at h
      · cases h
        dsimp only
        omega
      · cases h
    · cases h
  · cases h

theorem numbers_of_parseEntries {idx : ℕ} {entries : List Value} {history : List GateEntry}
    (h : parseEntries idx entries = .ok history) :
    history.map (·.nextIterationNo) = List.range' (idx + 1) history.length := by
  induction entries generalizing idx history with
  | nil =>
    cases h
    rfl
  | cons entry entries ih =>
    rw [parseEntries] at h
    obtain ⟨parsed, hparsed, h⟩ := Except.bind_eq_ok_iff.mp h
    obtain ⟨rest, hrest, h⟩ := Except.bind_eq_ok_iff.mp h
    cases h
    rw [List.map_cons, nextIterationNo_of_parseEntry hparsed, ih hrest, List.length_cons,
      List.range'_succ]

/-- A history that is read is numbered from 1. -/
theorem contiguous_of_parseHistory (h : parseHistory v = .ok history) : Contiguous history := by
  unfold parseHistory at h
  split at h
  · split at h
    · cases h
    split at h
    · cases h
    split at h
    · exact numbers_of_parseEntries h
    · cases h
  · cases h

/-! ### Entries of a history -/

theorem Contiguous.le_length (h : Contiguous history) {entry : GateEntry} (he : entry ∈ history) :
    1 ≤ entry.nextIterationNo ∧ entry.nextIterationNo ≤ history.length := by
  have hmem : entry.nextIterationNo ∈ List.range' 1 history.length :=
    h ▸ List.mem_map_of_mem (f := GateEntry.nextIterationNo) he
  rw [List.mem_range'_1] at hmem
  omega

theorem Contiguous.append (h : Contiguous history) (digest : Sha256Hex) (result : Bool) :
    Contiguous (history ++ [⟨history.length + 1, digest, result⟩]) := by
  rw [Contiguous, List.map_append, h, List.length_append, List.length_singleton,
    List.range'_concat, Nat.one_mul, Nat.add_comm 1]
  rfl

/-- The entry of a number is found. -/
theorem Contiguous.historyEntryFor_eq (h : Contiguous history) {entry : GateEntry}
    (he : entry ∈ history) : historyEntryFor history entry.nextIterationNo = some entry := by
  cases hfind : historyEntryFor history entry.nextIterationNo with
  | none =>
    have hno := List.find?_eq_none.mp hfind entry he
    simp at hno
  | some found =>
    have hnumber := List.find?_some hfind
    have hnodup : (history.map (·.nextIterationNo)).Nodup := h ▸ List.nodup_range'
    rw [List.inj_on_of_nodup_map hnodup (List.mem_of_find?_eq_some hfind) he
      (by simpa using hnumber)]

/-- No entry has the next number. -/
theorem Contiguous.historyEntryFor_next (h : Contiguous history) :
    historyEntryFor history (history.length + 1) = none := by
  refine List.find?_eq_none.mpr fun entry he => ?_
  have := h.le_length he
  rw [decide_eq_true_eq]
  omega

/-! ### Recording a gate -/

theorem parseWhilePredicateHistory_serialize (h : Contiguous history) :
    parseWhilePredicateHistory (serialize history) = .ok (serialize history) := by
  rw [parseWhilePredicateHistory, parseHistory_serialize h]
  rfl

/-- A new gate is one more entry. -/
theorem append_new (h : parseHistory v = .ok history) (digest : Sha256Hex) (result : Bool) :
    appendOrReplayWhileHistory v (history.length + 1) digest.val result =
      .ok (serialize (history ++ [⟨history.length + 1, digest, result⟩])) := by
  have hcontiguous := contiguous_of_parseHistory h
  have hnumber : ((history.length : ℤ) + 1).toNat = history.length + 1 := by omega
  rw [appendOrReplayWhileHistory, h]
  simp only [bind, Except.bind, assertSha256Hex_val, updateHistory,
    hcontiguous.historyEntryFor_next, ne_eq, not_true_eq_false, if_false, hnumber]
  exact parseWhilePredicateHistory_serialize (hcontiguous.append digest result)

/-- A gate that is in the history is replayed. -/
theorem append_replay (h : parseHistory v = .ok history) {entry : GateEntry}
    (he : entry ∈ history) :
    appendOrReplayWhileHistory v entry.nextIterationNo entry.evidenceHash.val entry.result =
      .ok (serialize history) := by
  have hcontiguous := contiguous_of_parseHistory h
  rw [appendOrReplayWhileHistory, h]
  simp only [bind, Except.bind, assertSha256Hex_val, updateHistory,
    hcontiguous.historyEntryFor_eq he, ne_eq, not_true_eq_false, or_self, if_false]
  exact parseWhilePredicateHistory_serialize hcontiguous

/-- An accepted gate is the next one or one of the history. -/
theorem append_ok {k : ℤ} {evidenceHash : String} {v' : Value}
    (h : appendOrReplayWhileHistory v k evidenceHash result = .ok v') :
    ∃ history digest, parseHistory v = .ok history ∧ digest.val = evidenceHash ∧
      ((k = history.length + 1 ∧
          v' = serialize (history ++ [⟨history.length + 1, digest, result⟩])) ∨
        (∃ entry ∈ history, entry.nextIterationNo = k ∧ entry.evidenceHash = digest ∧
          entry.result = result) ∧ v' = serialize history) := by
  unfold appendOrReplayWhileHistory at h
  obtain ⟨history, hhistory, h⟩ := Except.bind_eq_ok_iff.mp h
  obtain ⟨digest, hdigest, h⟩ := Except.bind_eq_ok_iff.mp h
  obtain ⟨updated, hupdated, h⟩ := Except.bind_eq_ok_iff.mp h
  have hval : digest.val = evidenceHash := by
    rw [assertSha256Hex] at hdigest
    split at hdigest
    · cases hdigest
      rfl
    · cases hdigest
  have hcontiguous := contiguous_of_parseHistory hhistory
  refine ⟨history, digest, hhistory, hval, ?_⟩
  unfold updateHistory at hupdated
  split at hupdated
  · split at hupdated
    · cases hupdated
    next hnext =>
    have hk : k = history.length + 1 := not_not.mp hnext
    cases hupdated
    have hnumber : k.toNat = history.length + 1 := by omega
    rw [hnumber, parseWhilePredicateHistory_serialize (hcontiguous.append digest result)] at h
    exact .inl ⟨hk, (Except.ok.inj h).symm⟩
  · next existing hfind =>
    split at hupdated
    · cases hupdated
    next hsame =>
    rw [not_or, not_not, not_not] at hsame
    cases hupdated
    rw [parseWhilePredicateHistory_serialize hcontiguous] at h
    have hnumber := List.find?_some hfind
    exact .inr ⟨⟨existing, List.mem_of_find?_eq_some hfind, by simpa using hnumber, hsame⟩,
      (Except.ok.inj h).symm⟩

/-! ### Runs of gates -/

/-- A gate to be recorded. -/
structure GateCall where
  nextIterationNo : ℤ
  evidenceHash : String
  result : Bool

/-- Record a gate in the stored document. -/
def record (v : Value) (call : GateCall) : Except AppError Value :=
  appendOrReplayWhileHistory v call.nextIterationNo call.evidenceHash call.result

/-- The stored document after a call; a rejected one leaves it. -/
def attempt (v : Value) (call : GateCall) : Value :=
  match record v call with
  | .ok v' => v'
  | .error _ => v

/-- The history holds the gate of the call. -/
def Holds (history : List GateEntry) (call : GateCall) : Prop :=
  ∃ entry ∈ history, entry.nextIterationNo = call.nextIterationNo ∧
    entry.evidenceHash.val = call.evidenceHash ∧ entry.result = call.result

/-- A call that is accepted keeps the history in front and holds afterwards. -/
theorem record_ok {v v' : Value} {call : GateCall} (h : record v call = .ok v') :
    ∃ history history', parseHistory v = .ok history ∧ Contiguous history' ∧
      v' = serialize history' ∧ history <+: history' ∧ Holds history' call := by
  obtain ⟨history, digest, hhistory, hdigest, ⟨hk, rfl⟩ | ⟨⟨entry, he, hk, hsame⟩, rfl⟩⟩ :=
    append_ok h
  · refine ⟨history, _, hhistory, (contiguous_of_parseHistory hhistory).append digest call.result,
      rfl, List.prefix_append _ _, ⟨history.length + 1, digest, call.result⟩, by simp, ?_, hdigest,
      rfl⟩
    rw [hk]
    rfl
  · exact ⟨history, history, hhistory, contiguous_of_parseHistory hhistory, rfl, List.prefix_rfl,
      entry, he, hk, hsame.1 ▸ hdigest, hsame.2⟩

/-- A gate that holds is accepted without a change. -/
theorem record_of_holds {call : GateCall} (h : parseHistory v = .ok history)
    (hcall : Holds history call) : record v call = .ok (serialize history) := by
  obtain ⟨entry, he, hk, hdigest, hresult⟩ := hcall
  rw [record, ← hk, ← hdigest, ← hresult]
  exact append_replay h he

/-- No sequence of calls removes or rewrites an entry. -/
theorem foldl_attempt (h : parseHistory v = .ok history) (calls : List GateCall) :
    ∃ history', parseHistory (calls.foldl attempt v) = .ok history' ∧ history <+: history' := by
  induction calls generalizing v history with
  | nil => exact ⟨history, h, List.prefix_rfl⟩
  | cons call calls ih =>
    rw [List.foldl_cons, attempt]
    split
    · next v' hrecord =>
      obtain ⟨before, after, hbefore, hcontiguous, rfl, hprefix, -⟩ := record_ok hrecord
      rw [h] at hbefore
      cases hbefore
      obtain ⟨history', hrest, hlater⟩ := ih (parseHistory_serialize hcontiguous)
      exact ⟨history', hrest, hprefix.trans hlater⟩
    · exact ih h

/-- The calls of an accepted sequence all hold at its end. -/
theorem foldlM_record {v' : Value} {calls : List GateCall} (h : parseHistory v = .ok history)
    (hcalls : calls.foldlM record v = .ok v') :
    ∃ history', parseHistory v' = .ok history' ∧ history <+: history' ∧
      (calls ≠ [] → v' = serialize history') ∧ ∀ call ∈ calls, Holds history' call := by
  induction calls generalizing v history with
  | nil =>
    cases hcalls
    exact ⟨history, h, List.prefix_rfl, fun hne => absurd rfl hne, fun call hc => nomatch hc⟩
  | cons call calls ih =>
    rw [List.foldlM_cons] at hcalls
    obtain ⟨v₁, hrecord, hrest⟩ := Except.bind_eq_ok_iff.mp hcalls
    obtain ⟨before, after, hbefore, hcontiguous, rfl, hprefix, hholds⟩ := record_ok hrecord
    rw [h] at hbefore
    cases hbefore
    obtain ⟨history', hparse, hlater, hdocument, hall⟩ := ih (parseHistory_serialize hcontiguous) hrest
    refine ⟨history', hparse, hprefix.trans hlater, fun _ => ?_, ?_⟩
    · cases calls with
      | nil =>
        cases hrest
        rw [parseHistory_serialize hcontiguous] at hparse
        cases hparse
        rfl
      | cons c cs => exact hdocument (List.cons_ne_nil _ _)
    · rw [List.forall_mem_cons]
      obtain ⟨entry, he, hsame⟩ := hholds
      exact ⟨⟨entry, hlater.subset he, hsame⟩, hall⟩

/-- Gates that hold are replayed one after another. -/
theorem foldlM_replay (h : Contiguous history) {calls : List GateCall}
    (hcalls : ∀ call ∈ calls, Holds history call) :
    calls.foldlM record (serialize history) = .ok (serialize history) := by
  induction calls with
  | nil => rfl
  | cons call calls ih =>
    rw [List.forall_mem_cons] at hcalls
    rw [List.foldlM_cons, record_of_holds (parseHistory_serialize h) hcalls.1]
    exact ih hcalls.2

/-- The replay of any suffix of an accepted sequence changes nothing. -/
theorem foldlM_suffix {v' : Value} {calls suffix : List GateCall} (h : parseHistory v = .ok history)
    (hcalls : calls.foldlM record v = .ok v') (hsuffix : suffix <:+ calls) :
    suffix.foldlM record v' = .ok v' := by
  obtain ⟨history', hparse, -, hdocument, hall⟩ := foldlM_record h hcalls
  cases suffix with
  | nil => rfl
  | cons call suffix =>
    have hne : calls ≠ [] := by
      rintro rfl
      exact absurd (List.suffix_nil.mp hsuffix) (List.cons_ne_nil _ _)
    rw [hdocument hne]
    exact foldlM_replay (contiguous_of_parseHistory hparse) fun c hc => hall c (hsuffix.subset hc)

/-! ### The history of the engine -/

/-- The engine's history is the stored one. -/
theorem append_serialize (h : Contiguous history) (k : ℕ) (digest : Sha256Hex) (result : Bool) :
    appendOrReplayWhileHistory (serialize history) k digest.val result =
      (McpFlow.appendOrReplayWhileHistory (some (.while history)) k digest result).map fun
        | .while updated => serialize updated
        | _ => .null := by
  have hfind : historyEntryFor history k = McpFlow.historyEntryFor history k :=
    congrArg (List.find? · history) (funext fun entry => by simp)
  have hparse {updated : List GateEntry} (hupdated : Contiguous updated) :
      McpFlow.parseWhilePredicateHistory (some (.while updated)) = .ok updated := if_pos hupdated
  rw [appendOrReplayWhileHistory, McpFlow.appendOrReplayWhileHistory, parseHistory_serialize h,
    hparse h]
  simp only [bind, Except.bind, assertSha256Hex_val, updateHistory, hfind]
  cases hentry : McpFlow.historyEntryFor history k with
  | none =>
    by_cases hnext : k = history.length + 1
    · subst hnext
      simp only [Nat.cast_add, Nat.cast_one, ne_eq, not_true_eq_false, if_false, beq_self_eq_true,
        assertThat, if_true, pure, Except.pure]
      have htoNat : ((history.length : ℤ) + 1).toNat = history.length + 1 := by omega
      rw [htoNat, parseWhilePredicateHistory_serialize (h.append digest result),
        hparse (h.append digest result)]
      rfl
    · have hcast : (k : ℤ) ≠ history.length + 1 := by omega
      simp [hcast, hnext, assertThat, Except.map]
  | some existing =>
    by_cases hsame : existing.evidenceHash = digest ∧ existing.result = result
    · obtain ⟨rfl, rfl⟩ := hsame
      simp only [ne_eq, not_true_eq_false, or_self, if_false, beq_self_eq_true, Bool.and_self,
        assertThat, if_true, pure, Except.pure]
      rw [parseWhilePredicateHistory_serialize h, hparse h]
      rfl
    · have hdiff : existing.evidenceHash ≠ digest ∨ existing.result ≠ result :=
        not_and_or.mp hsame
      have htest : (existing.evidenceHash == digest && existing.result == result) = false := by
        rw [Bool.and_eq_false_iff, beq_eq_false_iff_ne, beq_eq_false_iff_ne]
        exact hdiff
      simp [hdiff, htest, assertThat, Except.map]

/-! ### The laws -/

/-- Recording a gate: a history is read back as it was written; a gate with the next number is one
more entry, a gate that is there is replayed, and any other call is rejected; no sequence of calls
removes or rewrites an entry, and the replay of a suffix of an accepted sequence changes nothing. -/
theorem whileHistory_laws :
    (∀ history, Contiguous history → parseHistory (serialize history) = .ok history) ∧
    ∀ v history, parseHistory v = .ok history →
      Contiguous history ∧
      (∀ (digest : Sha256Hex) result, record v ⟨history.length + 1, digest.val, result⟩ =
        .ok (serialize (history ++ [⟨history.length + 1, digest, result⟩]))) ∧
      (∀ call, Holds history call → record v call = .ok (serialize history)) ∧
      (∀ call : GateCall, (call.nextIterationNo ≠ history.length + 1 ∨
          Text.isSha256Hex call.evidenceHash = false) → ¬Holds history call →
        (∃ e, record v call = .error e) ∧ attempt v call = v) ∧
      (∀ calls : List GateCall, ∃ history',
        parseHistory (calls.foldl attempt v) = .ok history' ∧ history <+: history') ∧
      ∀ (calls suffix : List GateCall) v', calls.foldlM record v = .ok v' → suffix <:+ calls →
        suffix.foldlM record v' = .ok v' := by
  refine ⟨fun history h => parseHistory_serialize h, fun v history h => ?_⟩
  refine ⟨contiguous_of_parseHistory h, append_new h, fun call => record_of_holds h,
    fun call hnew hnot => ?_, foldl_attempt h, fun calls suffix v' => foldlM_suffix h⟩
  have herror : ∃ e, record v call = .error e := by
    cases hrecord : record v call with
    | error e => exact ⟨e, rfl⟩
    | ok v' =>
      obtain ⟨before, digest, hbefore, hdigest, ⟨hk, -⟩ | ⟨⟨entry, he, hk, hsame⟩, -⟩⟩ :=
        append_ok hrecord
      · rw [h] at hbefore
        cases hbefore
        rcases hnew with hnew | hnew
        · exact absurd hk hnew
        · rw [← hdigest, digest.isHex] at hnew
          cases hnew
      · rw [h] at hbefore
        cases hbefore
        exact absurd ⟨entry, he, hk, hsame.1 ▸ hdigest, hsame.2⟩ hnot
  obtain ⟨e, he⟩ := herror
  refine ⟨⟨e, he⟩, ?_⟩
  rw [attempt, he]

/-- The first gate of an empty history. -/
theorem record_first :
    record (serialize []) ⟨1, (Sha256Hex.replicate 'a' (by decide)).val, true⟩ =
      .ok (serialize [⟨1, .replicate 'a' (by decide), true⟩]) :=
  (whileHistory_laws.2 (serialize []) [] (whileHistory_laws.1 [] rfl)).2.1 _ true

end McpFlow.WhileControl
