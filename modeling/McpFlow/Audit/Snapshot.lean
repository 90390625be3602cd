import McpFlow.Audit.Sanitize
import McpFlow.Library.JsonWalk

/-!
# What a sanitized payload keeps

Two payloads that differ only below sensitive keys are sanitized alike as long as none of these keys
is cut: the walk compares the cut key with the sensitive names. Whatever the payload, the result
respects every bound, because an entry that is kept has a short text and a container whose text is
not short is replaced by a summary.
-/

namespace McpFlow.Audit

open Json (Value FloatText utf8Length FloatRange)

variable {lower : String → String} {floats : FloatText}

/-! ### Blindness -/

section Blindness

variable {hidden : String → Prop}

mutual
/-- What stands under a sensitive key that is not cut does not show. -/
theorem sanitizeAuditValue_congr
    (hhidden : ∀ k, hidden k → isSensitiveKey lower k = true ∧ k.toList.length ≤ 1000) :
    ∀ (v w : Value) (depth : ℕ), v.AgreeBut hidden w →
      sanitizeAuditValue lower floats depth v = sanitizeAuditValue lower floats depth w
  | .null, w, depth, h => by match w with | .null => rfl
  | .bool a, w, depth, h => by match w with | .bool b => cases h; rfl
  | .int a, w, depth, h => by match w with | .int b => cases h; rfl
  | .float a, w, depth, h => by match w with | .float b => cases h; rfl
  | .str a, w, depth, h => by match w with | .str b => cases h; rfl
  | .arr items, w, depth, h => by
    match w with
    | .arr items' =>
      rw [sanitizeAuditValue, sanitizeAuditValue,
        sanitizeItems_congr hhidden items items' depth maxListItems h]
  | .obj members, w, depth, h => by
    match w with
    | .obj members' =>
      rw [sanitizeAuditValue, sanitizeAuditValue,
        sanitizeMembers_congr hhidden members members' depth 0 [] h]

theorem sanitizeItems_congr
    (hhidden : ∀ k, hidden k → isSensitiveKey lower k = true ∧ k.toList.length ≤ 1000) :
    ∀ (items items' : List Value) (depth left : ℕ), Value.AgreeButItems hidden items items' →
      sanitizeItems lower floats depth left items = sanitizeItems lower floats depth left items'
  | [], [], _, _, _ => rfl
  | _ :: _, _ :: _, _, 0, _ => by rw [sanitizeItems, sanitizeItems]
  | item :: items, item' :: items', depth, left + 1, h => by
    rw [sanitizeItems, sanitizeItems, sanitizeAuditValue_congr hhidden item item' (depth + 1) h.1,
      sanitizeItems_congr hhidden items items' depth left h.2]

theorem sanitizeMembers_congr
    (hhidden : ∀ k, hidden k → isSensitiveKey lower k = true ∧ k.toList.length ≤ 1000) :
    ∀ (members members' : List (String × Value)) (depth index : ℕ) (out : Dict Value),
      Value.AgreeButMembers hidden members members' →
      sanitizeMembers lower floats depth index out members =
        sanitizeMembers lower floats depth index out members'
  | [], [], _, _, _, _ => rfl
  | (key, v) :: members, (key', w) :: members', depth, index, out, h => by
    obtain ⟨rfl, hvalue, htail⟩ := h
    have hrest (out : Dict Value) :=
      sanitizeMembers_congr hhidden members members' depth (index + 1) out htail
    rw [sanitizeMembers, sanitizeMembers]
    split
    · rfl
    · rcases hvalue with hkey | hvalue
      · -- the key is compared as it is, and neither value is read
        obtain ⟨hsensitive, hlen⟩ := hhidden key hkey
        simp only [truncateString_of_le hlen, hsensitive, if_true, hrest]
      · simp only [sanitizeAuditValue_congr hhidden v w (depth + 1) hvalue, hrest]
end

/-- A key that is cut is not recognized, so the string below it stays. -/
theorem sanitizeAuditValue_cutKey
    (hlower : ∀ s : String, '[' ∈ s.toList → '[' ∈ (lower s).toList) {key : String}
    (hkey : 1000 < key.toList.length) {s : String} (hs : s.toList.length ≤ 1000) :
    sanitizeAuditValue lower floats 0 (.obj [(key, .str s)]) =
      boundSerialized floats (.obj [(truncateString key, .str s)]) := by
  have hplain := isSensitiveKey_of_bracket hlower (mem_truncateString hkey)
  simp [sanitizeAuditValue, sanitizeMembers, maxNestingDepth, maxObjectKeys, hplain, Dict.set,
    truncateString_of_le hs]

end Blindness

/-! ### Bounds -/

mutual
/-- Objects and lists have at most 65 entries, strings and keys at most 1000 characters. -/
def Bounded : Value → Prop
  | .str s => s.toList.length ≤ 1000
  | .arr items => items.length ≤ 65 ∧ BoundedItems items
  | .obj members => members.length ≤ 65 ∧ BoundedMembers members
  | _ => True

/-- The same of the items of a list. -/
def BoundedItems : List Value → Prop
  | [] => True
  | item :: items => Bounded item ∧ BoundedItems items

/-- The same of the members of an object. -/
def BoundedMembers : List (String × Value) → Prop
  | [] => True
  | (key, item) :: members => key.toList.length ≤ 1000 ∧ Bounded item ∧ BoundedMembers members
end

theorem boundedItems_iff {items : List Value} :
    BoundedItems items ↔ ∀ item ∈ items, Bounded item := by
  induction items with
  | nil => simp [BoundedItems]
  | cons item items ih => rw [BoundedItems, ih, List.forall_mem_cons]

theorem boundedMembers_iff {members : List (String × Value)} :
    BoundedMembers members ↔ ∀ p ∈ members, p.1.toList.length ≤ 1000 ∧ Bounded p.2 := by
  induction members with
  | nil => simp [BoundedMembers]
  | cons p members ih => rw [BoundedMembers, ih, List.forall_mem_cons, and_assoc]

variable (floats) in
/-- A value that may stand in a sanitized container. -/
def Entry (v : Value) : Prop :=
  Bounded v ∧ (v.printable = true → utf8Length (v.text floats) ≤ maxSerializedBytes)

variable (floats) in
/-- A sanitized container. -/
structure Snapshot (v : Value) : Prop where
  bounded : Bounded v
  printable : v.printable = true
  size_le : utf8Length (v.text floats) ≤ maxSerializedBytes

theorem Snapshot.entry {v : Value} (h : Snapshot floats v) : Entry floats v :=
  ⟨h.bounded, fun _ => h.size_le⟩

theorem entry_str {s : String} (h : s.toList.length ≤ 1000) : Entry floats (.str s) := by
  refine ⟨h, fun _ => ?_⟩
  have hquote := Json.utf8Length_quote_le s
  rw [Value.text, maxSerializedBytes]
  omega

theorem entry_truncationMarker : Entry floats (.str truncationMarker) :=
  entry_str (by rw [length_truncationMarker]; decide)

theorem entry_redactionMarker : Entry floats (.str redactionMarker) :=
  entry_str (by decide)

theorem entry_int (i : ℤ) : Entry floats (.int i) := by
  refine ⟨trivial, fun hprintable => ?_⟩
  rw [Value.printable, decide_eq_true_eq] at hprintable
  exact (Value.utf8Length_int_le hprintable).trans (by decide)

theorem entry_float {q : ℚ} (h : FloatRange q) : Entry floats (.float q) :=
  ⟨trivial, fun _ => (Value.utf8Length_float_le h).trans (by decide)⟩

/-- The summary that stands for a long container. -/
theorem snapshot_summary {n : ℕ} (h : n < 10 ^ 7) :
    Snapshot floats
      (.obj [("_truncated", .str truncationMarker), ("_original_bytes", .int n)]) := by
  have hcount : Json.digitCount n ≤ 7 := by
    rw [Json.digitCount, Int.natAbs_natCast]
    exact (Nat.length_toDigits_le_iff (by decide) (by decide)).mpr h
  refine ⟨?_, ?_, ?_⟩
  · refine ⟨show 2 ≤ 65 by decide, show "_truncated".toList.length ≤ 1000 by decide, ?_,
      show "_original_bytes".toList.length ≤ 1000 by decide, trivial, trivial⟩
    rw [Bounded, length_truncationMarker]
    decide
  · have hdigits : Json.digitCount n ≤ Digits.maxStrDigits := hcount.trans (by decide)
    simp only [Value.printable, Value.printableMembers, Bool.and_true, Bool.true_and,
      decide_eq_true_eq]
    exact hdigits
  · have hmembers := @Value.utf8Length_textMembers_le floats 92 68
      [("_truncated", .str truncationMarker), ("_original_bytes", .int n)] (by
        intro p hp
        rcases List.mem_pair.mp hp with rfl | rfl
        · refine ⟨(Json.utf8Length_quote_le _).trans (by decide), ?_⟩
          rw [Value.text]
          exact (Json.utf8Length_quote_le _).trans (by decide)
        · exact ⟨(Json.utf8Length_quote_le "_original_bytes").trans (by decide),
            (Value.utf8Length_int_le hcount).trans (by decide)⟩) true
    rw [Value.text, Json.utf8Length_cons]
    exact (Nat.add_le_add_left hmembers _).trans (show 1 + (2 * 162 + 1) ≤ 8192 by decide)

theorem snapshot_error : Snapshot floats (.obj [("_error", .str truncationMarker)]) := by
  refine ⟨⟨by decide, by decide, by rw [Bounded, length_truncationMarker]; decide, trivial⟩,
    rfl, ?_⟩
  have hmembers := @Value.utf8Length_textMembers_le floats 92 68
    [("_error", .str truncationMarker)] (by
      intro p hp
      rw [List.mem_singleton.mp hp]
      refine ⟨(Json.utf8Length_quote_le _).trans (by decide), ?_⟩
      rw [Value.text]
      exact (Json.utf8Length_quote_le _).trans (by decide)) true
  rw [Value.text, Json.utf8Length_cons]
  exact (Nat.add_le_add_left hmembers _).trans (by decide)

/-- A container whose text is not huge becomes a snapshot. -/
theorem snapshot_boundSerialized {v : Value} (hv : Bounded v)
    (hsize : v.printable = true → utf8Length (v.text floats) < 10 ^ 7) :
    Snapshot floats (boundSerialized floats v) := by
  rw [boundSerialized, Value.dumps]
  by_cases hprintable : v.printable = true
  · rw [if_pos hprintable]
    dsimp only
    split
    · next hle => exact ⟨hv, hprintable, hle⟩
    · exact snapshot_summary (hsize hprintable)
  · rw [if_neg hprintable]
    exact snapshot_error

theorem snapshot_arr {items : List Value} (hlen : items.length ≤ 65)
    (h : ∀ item ∈ items, Entry floats item) :
    Snapshot floats (boundSerialized floats (.arr items)) := by
  refine snapshot_boundSerialized ⟨hlen, boundedItems_iff.mpr fun item hi => (h item hi).1⟩
    fun hprintable => ?_
  have hall : ∀ item ∈ items, utf8Length (item.text floats) ≤ 8192 := fun item hi =>
    (h item hi).2 (Value.printableItems_iff.mp hprintable item hi)
  have hitems := Value.utf8Length_textItems_le hall true
  have hopen : ('[').utf8Size = 1 := by decide
  rw [Value.text, Json.utf8Length_cons, hopen]
  omega

theorem snapshot_obj {members : List (String × Value)} (hlen : members.length ≤ 65)
    (h : ∀ p ∈ members, p.1.toList.length ≤ 1000 ∧ Entry floats p.2) :
    Snapshot floats (boundSerialized floats (.obj members)) := by
  refine snapshot_boundSerialized
    ⟨hlen, boundedMembers_iff.mpr fun p hp => ⟨(h p hp).1, (h p hp).2.1⟩⟩ fun hprintable => ?_
  have hall : ∀ p ∈ members,
      utf8Length (Json.quote p.1) ≤ 6002 ∧ utf8Length (p.2.text floats) ≤ 8192 := by
    intro p hp
    have hkey := Json.utf8Length_quote_le p.1
    have hlen := (h p hp).1
    exact ⟨by omega, (h p hp).2.2 (Value.printableMembers_iff.mp hprintable p hp)⟩
  have hmembers := Value.utf8Length_textMembers_le hall true
  have hopen : ('\x7b').utf8Size = 1 := by decide
  rw [Value.text, Json.utf8Length_cons, hopen]
  omega

variable (lower) in
mutual
/-- Every value that the walk returns is an entry. -/
theorem entry_sanitizeAuditValue : ∀ (v : Value) (depth : ℕ), v.FloatsIn FloatRange →
    Entry floats (sanitizeAuditValue lower floats depth v)
  | .null, depth, _ => by
    rw [sanitizeAuditValue]
    split
    · exact entry_truncationMarker
    · exact ⟨trivial, fun _ => by rw [Value.text]; decide⟩
  | .bool b, depth, _ => by
    rw [sanitizeAuditValue]
    split
    · exact entry_truncationMarker
    · refine ⟨trivial, fun _ => ?_⟩
      match b with
      | true => rw [Value.text]; decide
      | false => rw [Value.text]; decide
  | .int i, depth, _ => by
    rw [sanitizeAuditValue]
    split
    · exact entry_truncationMarker
    · exact entry_int i
  | .float q, depth, h => by
    rw [sanitizeAuditValue]
    split
    · exact entry_truncationMarker
    · exact entry_float h
  | .str s, depth, _ => by
    rw [sanitizeAuditValue]
    split
    · exact entry_truncationMarker
    · exact entry_str (length_truncateString_le s)
  | .arr items, depth, h => by
    rw [sanitizeAuditValue]
    split
    · exact entry_truncationMarker
    · obtain ⟨hlen, hitems⟩ := entry_sanitizeItems items depth maxListItems h
      exact (snapshot_arr hlen hitems).entry
  | .obj members, depth, h => by
    rw [sanitizeAuditValue]
    split
    · exact entry_truncationMarker
    · obtain ⟨hlen, hmembers⟩ := entry_sanitizeMembers members depth 0 [] h (Nat.zero_le _)
        (Nat.zero_le _) fun p hp => nomatch hp
      exact (snapshot_obj hlen hmembers).entry

theorem entry_sanitizeItems : ∀ (items : List Value) (depth left : ℕ),
    Value.FloatsInItems FloatRange items →
    (sanitizeItems lower floats depth left items).length ≤ left + 1 ∧
      ∀ item ∈ sanitizeItems lower floats depth left items, Entry floats item
  | [], depth, left, _ => by
    rw [sanitizeItems]
    exact ⟨Nat.zero_le _, fun item hi => nomatch hi⟩
  | _ :: _, depth, 0, _ => by
    rw [sanitizeItems]
    refine ⟨Nat.le_refl _, fun item hi => ?_⟩
    rw [List.mem_singleton.mp hi]
    exact entry_truncationMarker
  | item :: items, depth, left + 1, h => by
    obtain ⟨hlen, hitems⟩ := entry_sanitizeItems items depth left h.2
    rw [sanitizeItems]
    refine ⟨Nat.succ_le_succ hlen, ?_⟩
    rw [List.forall_mem_cons]
    exact ⟨entry_sanitizeAuditValue item (depth + 1) h.1, hitems⟩

theorem entry_sanitizeMembers : ∀ (members : List (String × Value)) (depth index : ℕ)
    (out : Dict Value), Value.FloatsInMembers FloatRange members → out.length ≤ index →
    index ≤ maxObjectKeys → (∀ p ∈ out, p.1.toList.length ≤ 1000 ∧ Entry floats p.2) →
    (sanitizeMembers lower floats depth index out members).length ≤ 65 ∧
      ∀ p ∈ sanitizeMembers lower floats depth index out members,
        p.1.toList.length ≤ 1000 ∧ Entry floats p.2
  | [], depth, index, out, _, hlen, hindex, hout => by
    rw [sanitizeMembers]
    exact ⟨(hlen.trans hindex).trans (by decide), hout⟩
  | (key, v) :: members, depth, index, out, h, hlen, hindex, hout => by
    have hset {k : String} {w : Value} (hk : k.toList.length ≤ 1000) (hw : Entry floats w) :
        ∀ p ∈ out.set k w, p.1.toList.length ≤ 1000 ∧ Entry floats p.2 := by
      intro p hp
      rcases Dict.mem_of_mem_set hp with hp | rfl
      · exact hout p hp
      · exact ⟨hk, hw⟩
    have hgrow (k : String) (w : Value) : (out.set k w).length ≤ index + 1 :=
      (Dict.length_set_le out k w).trans (Nat.succ_le_succ hlen)
    rw [sanitizeMembers]
    split
    · refine ⟨(hgrow _ _).trans (Nat.succ_le_succ hindex), hset ?_ entry_truncationMarker⟩
      rw [length_truncationMarker]
      decide
    · next hmore =>
      have hnext : index + 1 ≤ maxObjectKeys := Nat.lt_of_not_le hmore
      dsimp only
      split
      · exact entry_sanitizeMembers members depth (index + 1) _ h.2 (hgrow _ _) hnext
          (hset (length_truncateString_le key) entry_redactionMarker)
      · exact entry_sanitizeMembers members depth (index + 1) _ h.2 (hgrow _ _) hnext
          (hset (length_truncateString_le key) (entry_sanitizeAuditValue v (depth + 1) h.1))
end

/-- Every JSON object becomes a snapshot. -/
theorem snapshot_sanitizeAuditValue (lower : String → String) {members : List (String × Value)}
    (h : (Value.obj members).FloatsIn FloatRange) :
    Snapshot floats (sanitizeAuditValue lower floats 0 (.obj members)) := by
  obtain ⟨hlen, hmembers⟩ := entry_sanitizeMembers lower members 0 0 [] h (Nat.zero_le _)
    (Nat.zero_le _) fun p hp => nomatch hp
  exact snapshot_obj hlen hmembers

end McpFlow.Audit
