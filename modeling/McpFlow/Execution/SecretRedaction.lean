import McpFlow.Library.Cuts
import McpFlow.Library.JsonWalk

/-!
# Secret redaction

The plaintexts that one `tools/call` resolves are replaced by a marker in everything that is kept
of its answer, in the strings and in the keys of every object. Markers, those of the answer and
those that a longer secret has left, are locked: no secret is looked for in them. Keys that become
equal are told apart by a number.
-/

namespace McpFlow.SecretRedaction

open Json List

/-- `REDACTION_MARKER`. -/
def redactionMarker : List Char := "[REDACTED]".toList

/-- A stretch of text; a locked one is never searched. -/
structure Segment where
  locked : Bool
  content : List Char
deriving DecidableEq

/-! ### The text of a string -/

/-- The segments of the parts of a split: each part that is not empty, and a locked marker between
two parts. -/
def interleaveMarkers : List (List Char) → List Segment
  | [] => []
  | [part] => if part = [] then [] else [⟨false, part⟩]
  | part :: next :: parts =>
    (if part = [] then [] else [⟨false, part⟩]) ++
      ⟨true, redactionMarker⟩ :: interleaveMarkers (next :: parts)

/-- `_split_locked_markers`. -/
def splitLockedMarkers (text : List Char) : List Segment :=
  if ¬ redactionMarker <:+: text then [⟨false, text⟩]
  else interleaveMarkers (pieces redactionMarker text)

/-- What the search for one secret makes of a segment. -/
def redactSegment (secret : List Char) (segment : Segment) : List Segment :=
  if segment.locked ∨ segment.content = [] then [segment]
  else if ¬ secret <:+: segment.content then [⟨false, segment.content⟩]
  else interleaveMarkers (pieces secret segment.content)

/-- `redact_text`. -/
def redactText (text : String) (plaintexts : List String) : String :=
  if text = "" ∨ plaintexts = [] then text
  else
    let segments := plaintexts.foldl
      (fun segments secret =>
        if secret = "" then segments else segments.flatMap (redactSegment secret.toList))
      (splitLockedMarkers text.toList)
    String.ofList (segments.flatMap Segment.content)

/-! ### Detection -/

/-- A plaintext that is not empty occurs in the text. -/
def holdsPlaintext (plaintexts : List String) (text : String) : Bool :=
  plaintexts.any fun secret => secret != "" && decide (secret.toList <:+: text.toList)

mutual
/-- `_contains_protected`. -/
def containsProtected (plaintexts : List String) : Value → Bool
  | .str s => holdsPlaintext plaintexts s
  | .arr items => containsProtectedItems plaintexts items
  | .obj members => containsProtectedMembers plaintexts members
  | _ => false

/-- `_contains_protected` of the items of an array. -/
def containsProtectedItems (plaintexts : List String) : List Value → Bool
  | [] => false
  | item :: items =>
    containsProtected plaintexts item || containsProtectedItems plaintexts items

/-- `_contains_protected` of the members of an object, each key before its value. -/
def containsProtectedMembers (plaintexts : List String) : List (String × Value) → Bool
  | [] => false
  | (key, item) :: members =>
    holdsPlaintext plaintexts key || containsProtected plaintexts item ||
      containsProtectedMembers plaintexts members
end

/-- `contains_protected_plaintext`. -/
def containsProtectedPlaintext (value : Value) (plaintexts : List String) : Bool :=
  if plaintexts = [] then false else containsProtected plaintexts value

/-! ### Sanitizing -/

/-- A key with its collision number. -/
def numberedKey (desired : String) (n : ℕ) : String := desired ++ "#" ++ toString n

/-- `_allocate_dict_key`: the key, or the key with the least number from 2 on that is not used. -/
def allocateDictKey (desired : String) (used : List String) : String :=
  if desired ∉ used then desired else firstFree (numberedKey desired) used used.length 2

mutual
/-- `_sanitize`. -/
def sanitize (plaintexts : List String) : Value → Value
  | .str s => .str (redactText s plaintexts)
  | .arr items => .arr (sanitizeItems plaintexts items)
  | .obj members => .obj (sanitizeMembers plaintexts [] members)
  | value => value

/-- `_sanitize` of the items of an array. -/
def sanitizeItems (plaintexts : List String) : List Value → List Value
  | [] => []
  | item :: items => sanitize plaintexts item :: sanitizeItems plaintexts items

/-- `_sanitize` of the members of an object behind the keys used so far. -/
def sanitizeMembers (plaintexts used : List String) :
    List (String × Value) → List (String × Value)
  | [] => []
  | (key, item) :: members =>
    let allocated := allocateDictKey (redactText key plaintexts) used
    (allocated, sanitize plaintexts item) ::
      sanitizeMembers plaintexts (allocated :: used) members
end

/-- `sanitize_for_persistence`. -/
def sanitizeForPersistence (value : Value) (plaintexts : List String) : Value :=
  if plaintexts = [] then value else sanitize plaintexts value

/-! ### What the segments stand for -/

variable {plaintexts : List String} {text : String}

/-- The runs of a text between its markers after every search. -/
def redactedRuns (plaintexts : List String) (text : List Char) : List (List Char) :=
  cutAll (plaintexts.map String.toList) (pieces redactionMarker text)

theorem redactionMarker_ne_nil : redactionMarker ≠ [] := by decide

/-- The marker ends with a bracket that it begins without. -/
theorem borderless_redactionMarker : Borderless redactionMarker := by
  intro b hne hsuffix hprefix
  have hlength := hprefix.length_le
  have htake : b = redactionMarker.take b.length := prefix_iff_eq_take.mp hprefix
  have hdrop : b = redactionMarker.drop (redactionMarker.length - b.length) :=
    suffix_iff_eq_drop.mp hsuffix
  have hborder : ∀ n ≤ 10, redactionMarker.take n = redactionMarker.drop (10 - n) →
      n = 0 ∨ n = 10 := by decide
  rcases hborder b.length hlength (htake.symm.trans hdrop) with h | h
  · exact absurd (length_eq_zero_iff.mp h) hne
  · exact hprefix.eq_of_length h

private theorem interleaveMarkers_append {as bs : List (List Char)} (ha : as ≠ []) (hb : bs ≠ []) :
    interleaveMarkers (as ++ bs) =
      interleaveMarkers as ++ ⟨true, redactionMarker⟩ :: interleaveMarkers bs := by
  induction as with
  | nil => exact absurd rfl ha
  | cons a as ih =>
    cases as with
    | nil =>
      obtain ⟨b, bs, rfl⟩ := exists_cons_of_ne_nil hb
      rfl
    | cons a' as =>
      have hrest := ih (cons_ne_nil a' as)
      simp only [cons_append] at hrest ⊢
      simp only [interleaveMarkers, hrest, append_assoc, cons_append]

/-- The segments spell the runs with a marker between them. -/
private theorem content_interleaveMarkers (ps : List (List Char)) :
    (interleaveMarkers ps).flatMap Segment.content = redactionMarker.intercalate ps := by
  induction ps with
  | nil => rfl
  | cons p ps ih =>
    have hfirst : (if p = [] then [] else [Segment.mk false p]).flatMap Segment.content = p := by
      split
      · case isTrue h => exact h.symm
      · exact flatMap_singleton _ _
    cases ps with
    | nil =>
      rw [interleaveMarkers, hfirst, intercalate_singleton]
    | cons q ps =>
      rw [interleaveMarkers, flatMap_append, hfirst, flatMap_cons, ih, intercalate_cons_cons,
        append_assoc]

/-- A search cuts every run. -/
private theorem flatMap_redactSegment {secret : List Char} (hsecret : secret ≠ [])
    (ps : List (List Char)) :
    (interleaveMarkers ps).flatMap (redactSegment secret) =
      interleaveMarkers (ps.flatMap (pieces secret)) := by
  have hrun : ∀ p : List Char,
      (if p = [] then [] else [Segment.mk false p]).flatMap (redactSegment secret) =
        interleaveMarkers (pieces secret p) := by
    intro p
    split
    · case isTrue h =>
      rw [h]
      rfl
    · case isFalse h =>
      rw [flatMap_singleton, redactSegment, if_neg (by simpa using h)]
      split
      · case isTrue hout => rw [pieces_eq_singleton hsecret hout, interleaveMarkers, if_neg h]
      · rfl
  have hmarker : redactSegment secret ⟨true, redactionMarker⟩ = [⟨true, redactionMarker⟩] := rfl
  induction ps with
  | nil => rfl
  | cons p ps ih =>
    cases ps with
    | nil => rw [interleaveMarkers, hrun, flatMap_singleton]
    | cons q ps =>
      have hne : (q :: ps).flatMap (pieces secret) ≠ [] :=
        flatMap_pieces_ne_nil hsecret (cons_ne_nil q ps)
      have hcut : (p :: q :: ps).flatMap (pieces secret) =
          pieces secret p ++ (q :: ps).flatMap (pieces secret) := flatMap_cons
      rw [hcut, interleaveMarkers_append (pieces_ne_nil hsecret p) hne, interleaveMarkers,
        flatMap_append, hrun, flatMap_cons, hmarker, ih, singleton_append]

private theorem splitLockedMarkers_eq {l : List Char} (h : l ≠ []) :
    splitLockedMarkers l = interleaveMarkers (pieces redactionMarker l) := by
  rw [splitLockedMarkers]
  split
  · case isTrue hout =>
    rw [pieces_eq_singleton redactionMarker_ne_nil hout, interleaveMarkers, if_neg h]
  · rfl

private theorem foldl_redactSegment (plaintexts : List String) (ps : List (List Char)) :
    plaintexts.foldl
      (fun segments secret =>
        if secret = "" then segments else segments.flatMap (redactSegment secret.toList))
      (interleaveMarkers ps) =
    interleaveMarkers (cutAll (plaintexts.map String.toList) ps) := by
  induction plaintexts generalizing ps with
  | nil => rfl
  | cons secret plaintexts ih =>
    rw [foldl_cons, map_cons, cutAll_cons]
    by_cases hempty : secret = ""
    · rw [if_pos hempty, if_pos (by rw [hempty]; rfl), ih]
    · have hne : secret.toList ≠ [] := fun h => hempty (String.toList_eq_nil_iff.mp h)
      rw [if_neg hempty, if_neg hne, flatMap_redactSegment hne, ih]

/-- The redacted text is the runs that no plaintext is left in, with markers between them. -/
theorem toList_redactText (plaintexts : List String) (text : String) :
    (redactText text plaintexts).toList =
      redactionMarker.intercalate (redactedRuns plaintexts text.toList) := by
  rw [redactText]
  split
  · case isTrue h =>
    rcases h with rfl | rfl
    · have hnil : cutAll (plaintexts.map String.toList) [[]] = [[]] := by
        refine cutAll_eq_self fun p hp sep _ hne hin => hne ?_
        rw [mem_singleton.mp hp, infix_nil] at hin
        exact hin
      rw [redactedRuns, String.toList_empty, pieces_nil, hnil]
      rfl
    · rw [redactedRuns, map_nil, cutAll_nil, intercalate_pieces redactionMarker_ne_nil]
  · case isFalse h =>
    have htext : text.toList ≠ [] := fun h' => h (.inl (String.toList_eq_nil_iff.mp h'))
    rw [String.toList_ofList, splitLockedMarkers_eq htext, foldl_redactSegment,
      content_interleaveMarkers, redactedRuns]

/-! ### Clean text -/

/-- No plaintext occurs between the markers of the text. -/
def Clean (plaintexts : List String) (text : String) : Prop :=
  ∀ p ∈ pieces redactionMarker text.toList, ∀ secret ∈ plaintexts, secret ≠ "" →
    ¬ secret.toList <:+: p

private theorem pieces_redactText (plaintexts : List String) (text : String) :
    pieces redactionMarker (redactText text plaintexts).toList =
      redactedRuns plaintexts text.toList := by
  rw [toList_redactText]
  refine pieces_intercalate redactionMarker_ne_nil borderless_redactionMarker
    (cutAll_ne_nil (pieces_ne_nil redactionMarker_ne_nil _)) fun p hp hin => ?_
  obtain ⟨q, hq, hpq⟩ := infix_of_mem_cutAll hp
  exact not_infix_of_mem_pieces redactionMarker_ne_nil hq (hin.trans hpq)

/-- No plaintext is left between the markers. -/
theorem clean_redactText (plaintexts : List String) (text : String) :
    Clean plaintexts (redactText text plaintexts) := by
  intro p hp secret hsecret hne
  rw [pieces_redactText] at hp
  exact not_infix_of_mem_cutAll hp (mem_map_of_mem hsecret)
    fun h => hne (String.toList_eq_nil_iff.mp h)

/-- Clean text is left alone. -/
theorem redactText_of_clean (h : Clean plaintexts text) : redactText text plaintexts = text := by
  refine String.toList_inj.mp ?_
  have hruns : redactedRuns plaintexts text.toList = pieces redactionMarker text.toList := by
    refine cutAll_eq_self fun p hp sep hsep hne => ?_
    obtain ⟨secret, hsecret, rfl⟩ := mem_map.mp hsep
    exact h p hp secret hsecret fun hempty => hne (by rw [hempty]; rfl)
  rw [toList_redactText, hruns, intercalate_pieces redactionMarker_ne_nil]

/-- A plaintext that occurs in clean text overlaps a marker. -/
theorem holdsPlaintext_of_clean
    (hapart : ∀ secret ∈ plaintexts, secret ≠ "" → ¬ Overlaps secret.toList redactionMarker)
    (h : Clean plaintexts text) : holdsPlaintext plaintexts text = false := by
  refine any_eq_false.mpr fun secret hsecret hfound => ?_
  rw [Bool.and_eq_true, bne_iff_ne, decide_eq_true_eq] at hfound
  obtain ⟨hne, hin⟩ := hfound
  rw [← intercalate_pieces redactionMarker_ne_nil text.toList] at hin
  rcases overlaps_of_infix_intercalate (fun h => hne (String.toList_eq_nil_iff.mp h)) hin with h' | h'
  · obtain ⟨p, hp, hin⟩ := h'
    exact h p hp secret hsecret hne hin
  · exact hapart secret hsecret hne h'

/-! ### Keys -/

variable {key desired : String} {used : List String} {members : List (String × Value)}

private theorem toList_numberedKey (desired : String) (n : ℕ) :
    (numberedKey desired n).toList = desired.toList ++ '#' :: Nat.toDigits 10 n := by
  rw [numberedKey, String.toList_append, String.toList_append, append_assoc,
    show (toString n).toList = Nat.toDigits 10 n from Nat.toList_repr]
  rfl

theorem numberedKey_injective (desired : String) : Function.Injective (numberedKey desired) := by
  intro m n h
  have htext := congrArg String.toList h
  rw [toList_numberedKey, toList_numberedKey, append_cancel_left_eq, cons.injEq] at htext
  have hvalue := congrArg (fun digits => Nat.ofDigitChars 10 digits 0) htext.2
  simpa only [Nat.ofDigitChars_ten_toDigits] using hvalue

/-- The allocated key is not used. -/
theorem allocateDictKey_not_mem (desired : String) (used : List String) :
    allocateDictKey desired used ∉ used := by
  rw [allocateDictKey]
  split
  · case isTrue h => exact h
  · exact firstFree_not_mem (numberedKey_injective desired) used 2

theorem allocateDictKey_of_not_mem (h : desired ∉ used) : allocateDictKey desired used = desired :=
  if_pos h

theorem allocateDictKey_eq_or (desired : String) (used : List String) :
    allocateDictKey desired used = desired ∨
      ∃ n, allocateDictKey desired used = numberedKey desired n := by
  rw [allocateDictKey]
  split
  · exact .inl rfl
  · exact .inr (exists_firstFree_eq (numberedKey desired) used used.length 2)

/-- No plaintext can lie in a collision number or reach into one: each holds a character that is no
digit, and none holds the number sign. -/
def NumberSafe (plaintexts : List String) : Prop :=
  ∀ secret ∈ plaintexts, secret ≠ "" →
    '#' ∉ secret.toList ∧ ∃ c ∈ secret.toList, c.isDigit = false

/-- A number does not make a plaintext out of a clean key. -/
theorem clean_numberedKey (hsafe : NumberSafe plaintexts) (h : Clean plaintexts key) (n : ℕ) :
    Clean plaintexts (numberedKey key n) := by
  have hdigits : ∀ c ∈ Nat.toDigits 10 n, c.isDigit = true := fun c hc =>
    Nat.isDigit_of_mem_toDigits (by decide) (by decide) hc
  have hplain : redactionMarker.all (fun c => !c.isDigit && c != '#') = true := by decide
  have hmarker : ∀ c ∈ redactionMarker, c.isDigit = false ∧ c ≠ '#' := by
    intro c hc
    simpa using all_eq_true.mp hplain c hc
  have hapart : ∀ c ∈ '#' :: Nat.toDigits 10 n, c ∉ redactionMarker := by
    intro c hc hin
    rcases mem_cons.mp hc with rfl | hc
    · exact (hmarker _ hin).2 rfl
    · exact absurd (hdigits c hc) (by simp [(hmarker c hin).1])
  obtain ⟨ps, p, hps, hnumbered⟩ :=
    pieces_append_right redactionMarker_ne_nil borderless_redactionMarker hapart key.toList
  intro q hq secret hsecret hne
  rw [toList_numberedKey, hnumbered] at hq
  rcases mem_append.mp hq with hq | hq
  · exact h q (hps ▸ mem_append_left _ hq) secret hsecret hne
  · rw [mem_singleton.mp hq, infix_append_iff_ne_nil]
    obtain ⟨hsign, c, hc, hdigit⟩ := hsafe secret hsecret hne
    rintro (hp | hin | ⟨a, b, -, hb, hab, -, hprefix⟩)
    · exact h p (hps ▸ mem_append_right ps (mem_singleton_self p)) secret hsecret hne hp
    · rcases mem_cons.mp (hin.subset hc) with rfl | hc'
      · exact hsign hc
      · exact absurd (hdigits c hc') (by simp [hdigit])
    · -- what reaches into the number begins with its sign
      obtain ⟨first, rest, rfl⟩ := exists_cons_of_ne_nil hb
      rw [cons_prefix_cons] at hprefix
      obtain ⟨rfl, -⟩ := hprefix
      exact hsign (hab ▸ mem_append_right a mem_cons_self)

/-- The keys of a sanitized object are new and differ from one another. -/
theorem keys_sanitizeMembers (members : List (String × Value)) (used : List String) :
    ((sanitizeMembers plaintexts used members).map Prod.fst).Nodup ∧
      ∀ key ∈ (sanitizeMembers plaintexts used members).map Prod.fst, key ∉ used := by
  induction members generalizing used with
  | nil => exact ⟨nodup_nil, fun key h => absurd h not_mem_nil⟩
  | cons member members ih =>
    obtain ⟨key, item⟩ := member
    have hfresh := allocateDictKey_not_mem (redactText key plaintexts) used
    obtain ⟨hnodup, hnew⟩ := ih (allocateDictKey (redactText key plaintexts) used :: used)
    rw [sanitizeMembers, map_cons]
    refine ⟨nodup_cons.mpr ⟨fun h => hnew _ h mem_cons_self, hnodup⟩, fun key' h => ?_⟩
    rcases mem_cons.mp h with rfl | h
    · exact hfresh
    · exact fun hused => hnew key' h (mem_cons_of_mem _ hused)

/-- Every key is clean when numbers are safe or no two keys become equal. -/
theorem clean_keys_sanitizeMembers
    (h : NumberSafe plaintexts ∨ (members.map fun m => redactText m.1 plaintexts).Nodup ∧
      ∀ m ∈ members, redactText m.1 plaintexts ∉ used) :
    ∀ key ∈ (sanitizeMembers plaintexts used members).map Prod.fst, Clean plaintexts key := by
  induction members generalizing used with
  | nil => exact fun key h => absurd h not_mem_nil
  | cons member members ih =>
    obtain ⟨key, item⟩ := member
    have hclean := clean_redactText plaintexts key
    intro key' hkey'
    rw [sanitizeMembers, map_cons] at hkey'
    rcases h with hsafe | ⟨hnodup, hnew⟩
    · rcases mem_cons.mp hkey' with rfl | hkey'
      · change Clean plaintexts (allocateDictKey (redactText key plaintexts) used)
        rcases allocateDictKey_eq_or (redactText key plaintexts) used with heq | ⟨n, heq⟩
        · rw [heq]
          exact hclean
        · rw [heq]
          exact clean_numberedKey hsafe hclean n
      · exact ih (.inl hsafe) key' hkey'
    · rw [map_cons, nodup_cons] at hnodup
      have hown : allocateDictKey (redactText key plaintexts) used = redactText key plaintexts :=
        allocateDictKey_of_not_mem (hnew (key, item) mem_cons_self)
      simp only [hown] at hkey'
      rcases mem_cons.mp hkey' with heq | hkey'
      · exact heq ▸ hclean
      · refine ih (.inr ⟨hnodup.2, fun m hm hin => ?_⟩) key' hkey'
        rcases mem_cons.mp hin with heq | hin
        · exact hnodup.1 (heq ▸ mem_map_of_mem hm)
        · exact hnew m (mem_cons_of_mem _ hm) hin

/-! ### The sanitized value -/

mutual
/-- Arrays keep their length and objects their number of members. -/
theorem sameShape_sanitize (plaintexts : List String) :
    ∀ v, Value.SameShape v (sanitize plaintexts v)
  | .null => trivial
  | .bool _ => rfl
  | .int _ => rfl
  | .float _ => rfl
  | .str _ => trivial
  | .arr items => sameShape_sanitizeItems plaintexts items
  | .obj members => sameShape_sanitizeMembers plaintexts members []

theorem sameShape_sanitizeItems (plaintexts : List String) :
    ∀ items, Value.SameShapeItems items (sanitizeItems plaintexts items)
  | [] => trivial
  | item :: items => ⟨sameShape_sanitize plaintexts item, sameShape_sanitizeItems plaintexts items⟩

theorem sameShape_sanitizeMembers (plaintexts : List String) :
    ∀ members used, Value.SameShapeMembers members (sanitizeMembers plaintexts used members)
  | [], _ => trivial
  | (_, item) :: members, _ =>
    ⟨sameShape_sanitize plaintexts item, sameShape_sanitizeMembers plaintexts members _⟩
end

mutual
/-- No two members of a sanitized object share a key, so none replaces another. -/
theorem distinctKeys_sanitize (plaintexts : List String) :
    ∀ v, (sanitize plaintexts v).DistinctKeys
  | .null => trivial
  | .bool _ => trivial
  | .int _ => trivial
  | .float _ => trivial
  | .str _ => trivial
  | .arr items => distinctKeys_sanitizeItems plaintexts items
  | .obj members =>
    ⟨(keys_sanitizeMembers members []).1, distinctKeys_sanitizeMembers plaintexts members []⟩

theorem distinctKeys_sanitizeItems (plaintexts : List String) :
    ∀ items, Value.EverywhereItems Nodup (fun _ => True) (sanitizeItems plaintexts items)
  | [] => trivial
  | item :: items =>
    ⟨distinctKeys_sanitize plaintexts item, distinctKeys_sanitizeItems plaintexts items⟩

theorem distinctKeys_sanitizeMembers (plaintexts : List String) :
    ∀ members used,
      Value.EverywhereMembers Nodup (fun _ => True) (sanitizeMembers plaintexts used members)
  | [], _ => trivial
  | (_, item) :: members, _ =>
    ⟨distinctKeys_sanitize plaintexts item, distinctKeys_sanitizeMembers plaintexts members _⟩
end

/-- In no object do two keys become equal by redaction. -/
def NoCollision (plaintexts : List String) : Value → Prop :=
  Value.Everywhere (fun keys => (keys.map fun key => redactText key plaintexts).Nodup) fun _ => True

/-- The keys of a value that redaction leaves clean. -/
def KeysSafe (plaintexts : List String) (v : Value) : Prop :=
  NumberSafe plaintexts ∨ NoCollision plaintexts v

mutual
/-- Every string of a sanitized value is clean. -/
theorem clean_sanitize (plaintexts : List String) :
    ∀ v, (sanitize plaintexts v).Everywhere (fun _ => True) (Clean plaintexts)
  | .null => trivial
  | .bool _ => trivial
  | .int _ => trivial
  | .float _ => trivial
  | .str s => clean_redactText plaintexts s
  | .arr items => clean_sanitizeItems plaintexts items
  | .obj members => ⟨trivial, clean_sanitizeMembers plaintexts members []⟩

theorem clean_sanitizeItems (plaintexts : List String) :
    ∀ items, Value.EverywhereItems (fun _ => True) (Clean plaintexts) (sanitizeItems plaintexts items)
  | [] => trivial
  | item :: items => ⟨clean_sanitize plaintexts item, clean_sanitizeItems plaintexts items⟩

theorem clean_sanitizeMembers (plaintexts : List String) :
    ∀ members used, Value.EverywhereMembers (fun _ => True) (Clean plaintexts)
      (sanitizeMembers plaintexts used members)
  | [], _ => trivial
  | (_, item) :: members, _ =>
    ⟨clean_sanitize plaintexts item, clean_sanitizeMembers plaintexts members _⟩
end

/-- The keys and strings of a value are clean, and no object has a key twice. -/
def CleanValue (plaintexts : List String) : Value → Prop :=
  Value.Everywhere (fun keys => keys.Nodup ∧ ∀ key ∈ keys, Clean plaintexts key)
    (Clean plaintexts)

mutual
/-- With safe keys, every key of a sanitized value is clean too. -/
theorem cleanValue_sanitize :
    ∀ v, KeysSafe plaintexts v → CleanValue plaintexts (sanitize plaintexts v)
  | .null, _ => trivial
  | .bool _, _ => trivial
  | .int _, _ => trivial
  | .float _, _ => trivial
  | .str s, _ => clean_redactText plaintexts s
  | .arr items, h => cleanValue_sanitizeItems items h
  | .obj members, h => by
    refine ⟨⟨(keys_sanitizeMembers members []).1, clean_keys_sanitizeMembers (h.imp id fun h => ?_)⟩,
      cleanValue_sanitizeMembers members [] (h.imp id And.right)⟩
    have hkeys : ((members.map Prod.fst).map fun key => redactText key plaintexts).Nodup := h.1
    rw [map_map] at hkeys
    exact ⟨hkeys, fun m _ => not_mem_nil⟩

theorem cleanValue_sanitizeItems :
    ∀ items, (NumberSafe plaintexts ∨ Value.EverywhereItems
        (fun keys => (keys.map fun key => redactText key plaintexts).Nodup) (fun _ => True) items) →
      Value.EverywhereItems (fun keys => keys.Nodup ∧ ∀ key ∈ keys, Clean plaintexts key)
        (Clean plaintexts) (sanitizeItems plaintexts items)
  | [], _ => trivial
  | item :: items, h =>
    ⟨cleanValue_sanitize item (h.imp id And.left), cleanValue_sanitizeItems items (h.imp id And.right)⟩

theorem cleanValue_sanitizeMembers :
    ∀ members used, (NumberSafe plaintexts ∨ Value.EverywhereMembers
        (fun keys => (keys.map fun key => redactText key plaintexts).Nodup) (fun _ => True) members) →
      Value.EverywhereMembers (fun keys => keys.Nodup ∧ ∀ key ∈ keys, Clean plaintexts key)
        (Clean plaintexts) (sanitizeMembers plaintexts used members)
  | [], _, _ => trivial
  | (_, item) :: members, _, h =>
    ⟨cleanValue_sanitize item (h.imp id And.left),
      cleanValue_sanitizeMembers members _ (h.imp id And.right)⟩
end

mutual
/-- A clean value is left alone. -/
theorem sanitize_of_cleanValue : ∀ v, CleanValue plaintexts v → sanitize plaintexts v = v
  | .null, _ => rfl
  | .bool _, _ => rfl
  | .int _, _ => rfl
  | .float _, _ => rfl
  | .str _, h => congrArg Value.str (redactText_of_clean h)
  | .arr items, h => congrArg Value.arr (sanitizeItems_of_cleanValue items h)
  | .obj members, h =>
    congrArg Value.obj (sanitizeMembers_of_cleanValue members [] h.1.1 h.1.2
      (fun _ _ => not_mem_nil) h.2)

theorem sanitizeItems_of_cleanValue :
    ∀ items, Value.EverywhereItems (fun keys => keys.Nodup ∧ ∀ key ∈ keys, Clean plaintexts key)
        (Clean plaintexts) items → sanitizeItems plaintexts items = items
  | [], _ => rfl
  | item :: items, h => by
    rw [sanitizeItems, sanitize_of_cleanValue item h.1, sanitizeItems_of_cleanValue items h.2]

theorem sanitizeMembers_of_cleanValue :
    ∀ (members : List (String × Value)) (used : List String), (members.map Prod.fst).Nodup →
      (∀ key ∈ members.map Prod.fst, Clean plaintexts key) →
      (∀ key ∈ members.map Prod.fst, key ∉ used) →
      Value.EverywhereMembers (fun keys => keys.Nodup ∧ ∀ key ∈ keys, Clean plaintexts key)
        (Clean plaintexts) members → sanitizeMembers plaintexts used members = members
  | [], _, _, _, _, _ => rfl
  | (key, item) :: members, used, hnodup, hclean, hnew, h => by
    rw [map_cons, nodup_cons] at hnodup
    rw [map_cons, forall_mem_cons] at hclean hnew
    have hrest : ∀ key' ∈ members.map Prod.fst, key' ∉ key :: used := by
      intro key' hkey' hin
      rcases mem_cons.mp hin with rfl | hin
      · exact hnodup.1 hkey'
      · exact hnew.2 key' hkey' hin
    rw [sanitizeMembers, redactText_of_clean hclean.1, allocateDictKey_of_not_mem hnew.1,
      sanitize_of_cleanValue item h.1,
      sanitizeMembers_of_cleanValue members (key :: used) hnodup.2 hclean.2 hrest h.2]
end

mutual
/-- A clean value is found to hold a plaintext only where one overlaps a marker. -/
theorem containsProtected_of_cleanValue
    (hapart : ∀ secret ∈ plaintexts, secret ≠ "" → ¬ Overlaps secret.toList redactionMarker) :
    ∀ v, CleanValue plaintexts v → containsProtected plaintexts v = false
  | .null, _ => rfl
  | .bool _, _ => rfl
  | .int _, _ => rfl
  | .float _, _ => rfl
  | .str _, h => holdsPlaintext_of_clean hapart h
  | .arr items, h => containsProtectedItems_of_cleanValue hapart items h
  | .obj members, h => containsProtectedMembers_of_cleanValue hapart members h.1.2 h.2

theorem containsProtectedItems_of_cleanValue
    (hapart : ∀ secret ∈ plaintexts, secret ≠ "" → ¬ Overlaps secret.toList redactionMarker) :
    ∀ items, Value.EverywhereItems (fun keys => keys.Nodup ∧ ∀ key ∈ keys, Clean plaintexts key)
      (Clean plaintexts) items → containsProtectedItems plaintexts items = false
  | [], _ => rfl
  | item :: items, h => by
    rw [containsProtectedItems, containsProtected_of_cleanValue hapart item h.1,
      containsProtectedItems_of_cleanValue hapart items h.2, Bool.or_false]

theorem containsProtectedMembers_of_cleanValue
    (hapart : ∀ secret ∈ plaintexts, secret ≠ "" → ¬ Overlaps secret.toList redactionMarker) :
    ∀ members : List (String × Value), (∀ key ∈ members.map Prod.fst, Clean plaintexts key) →
      Value.EverywhereMembers (fun keys => keys.Nodup ∧ ∀ key ∈ keys, Clean plaintexts key)
        (Clean plaintexts) members → containsProtectedMembers plaintexts members = false
  | [], _, _ => rfl
  | (key, item) :: members, hclean, h => by
    rw [map_cons, forall_mem_cons] at hclean
    rw [containsProtectedMembers, holdsPlaintext_of_clean hapart hclean.1,
      containsProtected_of_cleanValue hapart item h.1,
      containsProtectedMembers_of_cleanValue hapart members hclean.2 h.2, Bool.or_false,
      Bool.or_false]
end

/-- What `sanitize_for_persistence` promises of a value and its protected plaintexts. -/
structure RedactionLaw (plaintexts : List String) (v : Value) : Prop where
  shape : v.SameShape (sanitizeForPersistence v plaintexts)
  entries : (sanitizeForPersistence v plaintexts).DistinctKeys
  strings : (sanitizeForPersistence v plaintexts).Everywhere (fun _ => True) (Clean plaintexts)
  keys : KeysSafe plaintexts v → (sanitizeForPersistence v plaintexts).Everywhere
    (fun keys => ∀ key ∈ keys, Clean plaintexts key) (fun _ => True)
  undetected : KeysSafe plaintexts v →
    (∀ secret ∈ plaintexts, secret ≠ "" → ¬ Overlaps secret.toList redactionMarker) →
    containsProtectedPlaintext (sanitizeForPersistence v plaintexts) plaintexts = false
  idempotent : KeysSafe plaintexts v →
    sanitizeForPersistence (sanitizeForPersistence v plaintexts) plaintexts =
      sanitizeForPersistence v plaintexts

/-- The fast path without plaintexts is the sanitizing that finds nothing. -/
theorem sanitizeForPersistence_eq (plaintexts : List String) {v : Value} (hv : v.DistinctKeys) :
    sanitizeForPersistence v plaintexts = sanitize plaintexts v := by
  rw [sanitizeForPersistence]
  split
  · case isTrue hempty =>
    subst hempty
    have hclean : ∀ text, Clean [] text := fun _ _ _ _ hsecret => absurd hsecret not_mem_nil
    exact (sanitize_of_cleanValue v (Value.Everywhere.imp
      (fun _ hkeys => ⟨hkeys, fun key _ => hclean key⟩) (fun s _ => hclean s) v hv)).symm
  · rfl

/-- Redaction is complete between the markers and keeps the structure of every value. -/
theorem sanitizeForPersistence_law (plaintexts : List String) (v : Value) (hv : v.DistinctKeys) :
    RedactionLaw plaintexts v := by
  have hdistinct := distinctKeys_sanitize plaintexts v
  rw [← sanitizeForPersistence_eq plaintexts hv] at hdistinct
  have hsafe : KeysSafe plaintexts v → CleanValue plaintexts (sanitizeForPersistence v plaintexts) :=
    fun h => sanitizeForPersistence_eq plaintexts hv ▸ cleanValue_sanitize v h
  constructor
  · exact sanitizeForPersistence_eq plaintexts hv ▸ sameShape_sanitize plaintexts v
  · exact hdistinct
  · exact sanitizeForPersistence_eq plaintexts hv ▸ clean_sanitize plaintexts v
  · exact fun h => Value.Everywhere.imp (fun _ hkeys => hkeys.2) (fun _ _ => trivial) _ (hsafe h)
  · intro h hapart
    rw [containsProtectedPlaintext]
    split
    · rfl
    · exact containsProtected_of_cleanValue hapart _ (hsafe h)
  · intro h
    rw [sanitizeForPersistence_eq plaintexts hdistinct]
    exact sanitize_of_cleanValue _ (hsafe h)

/-! ### A secret that is a digit -/

/-- Two keys that become equal when `2` is protected. -/
def collidingKeys : Value := .obj [("2", .null), ("[REDACTED]", .null)]

/-- Redaction of nested strings and keys with a longer secret around a shorter one. -/
def nestedSecrets : Value :=
  .obj [("TOKENACT", .arr [.str "pre:TOKENACT:mid:ACT:post", .int 7]), ("[REDACTED]", .str "ACT")]

example : sanitizeForPersistence nestedSecrets ["TOKENACT", "ACT"] =
    .obj [("[REDACTED]", .arr [.str "pre:[REDACTED]:mid:[REDACTED]:post", .int 7]),
      ("[REDACTED]#2", .str "[REDACTED]")] := by decide +kernel

/-- The law of nested secrets. -/
theorem sanitizeForPersistence_law_nestedSecrets : nestedSecrets.DistinctKeys ∧
    RedactionLaw ["TOKENACT", "ACT"] nestedSecrets := by
  have h : nestedSecrets.DistinctKeys :=
    ⟨by decide, ⟨trivial, trivial, trivial⟩, trivial, trivial⟩
  exact ⟨h, sanitizeForPersistence_law _ _ h⟩

/-- A plaintext that is part of the marker is found in every marker, and a number can be a plaintext
that the next redaction finds. -/
theorem detected_and_not_idempotent :
    containsProtectedPlaintext (sanitizeForPersistence (.str "RED") ["RED"]) ["RED"] = true ∧
      sanitizeForPersistence (sanitizeForPersistence collidingKeys ["2"]) ["2"] ≠
        sanitizeForPersistence collidingKeys ["2"] := by
  decide +kernel

end McpFlow.SecretRedaction
