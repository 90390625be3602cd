import McpFlow.Library.Digits
import McpFlow.Library.Pieces
import McpFlow.Workflow.StepConfig

/-!
# JSON pointers

The paths of bindings: the schema accepts a subset of RFC 6901, `resolve_json_pointer` follows it.
On object members and on ASCII indices the two agree. The digit test of an index accepts every digit
character of Unicode, and `int` reads the decimals of every script and refuses the others, so a
token of such digits can raise or name an item that RFC 6901 does not know.
-/

namespace McpFlow.Pointer

open Json
open Workflow (isValidJsonPointerSubset)

/-! ### The resolver -/

/-- The `ValueError`s that the resolver can raise. -/
inductive ValueError where
  | invalidPointer
  | invalidInt
deriving DecidableEq, Repr

/-- `decode_pointer_token`. -/
def decodePointerToken (token : List Char) : List Char :=
  List.replaceAll ['~', '0'] ['~'] (List.replaceAll ['~', '1'] ['/'] token)

/-- `pointer_tokens`. -/
def pointerTokens (path : String) : Except ValueError (List String) :=
  if !isValidJsonPointerSubset path then .error .invalidPointer
  else if path = "/" then .ok []
  else .ok ((List.pieces ['/'] path.toList).tail.map fun t => String.ofList (decodePointerToken t))

/-- The token is tried as an index: it is all digits, and no zero leads. -/
def isIndexToken (token : String) : Bool :=
  Digits.strIsDigit token && (token == "0" || token.toList.head? != some '0')

/-- The loop of `resolve_json_pointer`; `none` is `MISSING`. -/
def resolveTokens : List String → Value → Except ValueError (Option Value)
  | [], current => .ok (some current)
  | token :: tokens, .obj members => match members.lookup token with
    | none => .ok none
    | some current => resolveTokens tokens current
  | token :: tokens, .arr items =>
    if !isIndexToken token then .ok none
    else match Digits.int? token with
      | none => .error .invalidInt
      | some index => match items[index]? with
        | none => .ok none
        | some current => resolveTokens tokens current
  | _ :: _, _ => .ok none

/-- `resolve_json_pointer`. -/
def resolveJsonPointer (root : Value) (path : String) : Except ValueError (Option Value) :=
  (pointerTokens path).bind fun tokens => resolveTokens tokens root

/-! ### RFC 6901 -/

namespace Rfc6901

/-- The escapes of a token are undone, once. -/
def unescape : List Char → List Char
  | '~' :: '1' :: rest => '/' :: unescape rest
  | '~' :: '0' :: rest => '~' :: unescape rest
  | c :: rest => c :: unescape rest
  | [] => []

/-- `0`, or ASCII digits without a leading zero. -/
def index? (token : String) : Option ℕ :=
  if token.toList ≠ [] ∧ token.toList.all Digits.isAsciiDigit ∧
      (token = "0" ∨ token.toList.head? ≠ some '0') then
    some (Digits.value (token.toList.map (·.toNat - 0x30)))
  else none

/-- What a token names in a value. -/
def member? (token : String) : Value → Option Value
  | .obj members => members.lookup token
  | .arr items => (index? token).bind fun index => items[index]?
  | _ => none

/-- The reference tokens; `/` stands for the whole document. -/
def tokens (path : String) : List String :=
  if path = "/" then []
  else (List.pieces ['/'] path.toList).tail.map fun t => String.ofList (unescape t)

/-- The value that a path names. -/
def eval (root : Value) (path : String) : Option Value :=
  (tokens path).foldlM (fun current token => member? token current) root

end Rfc6901

/-! ### Tokens -/

variable {t u : List Char} {path path' : String}

/-- Token text, from its front. -/
inductive TokenText : List Char → Prop
  | nil : TokenText []
  | tilde {l : List Char} (h : TokenText l) : TokenText ('~' :: '0' :: l)
  | slash {l : List Char} (h : TokenText l) : TokenText ('~' :: '1' :: l)
  | plain {c : Char} {l : List Char} (htilde : c ≠ '~') (hslash : c ≠ '/') (h : TokenText l) :
    TokenText (c :: l)

/-- The two replacements undo each escape once. -/
theorem decodePointerToken_eq (h : TokenText t) : decodePointerToken t = Rfc6901.unescape t := by
  have hone : (['~', '1'] : List Char) ≠ [] := List.cons_ne_nil _ _
  have hzero : (['~', '0'] : List Char) ≠ [] := List.cons_ne_nil _ _
  induction h with
  | nil => rfl
  | tilde _ ih =>
    rw [decodePointerToken, List.replaceAll_cons_of_not_front hone _ (by simp),
      List.replaceAll_cons_of_not_front hone _ (by simp)]
    exact (List.replaceAll_append hzero ['~'] _).trans (congrArg ('~' :: ·) ih)
  | @slash l _ ih =>
    have hfirst : List.replaceAll ['~', '1'] ['/'] ('~' :: '1' :: l) =
        '/' :: List.replaceAll ['~', '1'] ['/'] l := List.replaceAll_append hone ['/'] l
    rw [decodePointerToken, hfirst, List.replaceAll_cons_of_not_front hzero _ (by simp)]
    exact congrArg ('/' :: ·) ih
  | @plain c l htilde _ _ ih =>
    have hfront {d : Char} {m : List Char} : ¬ ['~', d] <+: c :: m := by
      rw [List.cons_prefix_cons]
      exact fun h => htilde h.1.symm
    rw [decodePointerToken, List.replaceAll_cons_of_not_front hone _ hfront,
      List.replaceAll_cons_of_not_front hzero _ hfront, Rfc6901.unescape]
    · exact congrArg (c :: ·) ih
    all_goals exact fun rest hc _ => htilde hc

/-- The escapes of a token. -/
def escape (l : List Char) : List Char :=
  l.flatMap fun c => if c = '~' then ['~', '0'] else if c = '/' then ['~', '1'] else [c]

/-- A token has one text. -/
theorem escape_unescape (h : TokenText t) : escape (Rfc6901.unescape t) = t := by
  induction h with
  | nil => rfl
  | tilde _ ih => exact congrArg (['~', '0'] ++ ·) ih
  | slash _ ih => exact congrArg (['~', '1'] ++ ·) ih
  | @plain c l htilde hslash _ ih =>
    rw [Rfc6901.unescape, escape, List.flatMap_cons, if_neg htilde, if_neg hslash]
    · exact congrArg (c :: ·) ih
    all_goals exact fun rest hc _ => htilde hc

/-! ### Paths -/

theorem pieces_slash (rest : List Char) :
    List.pieces ['/'] ('/' :: rest) = [] :: List.pieces ['/'] rest :=
  List.pieces_append (List.cons_ne_nil _ _) rest

theorem pieces_cons {c : Char} (hslash : c ≠ '/') (l : List Char) :
    List.pieces ['/'] (c :: l) = (List.pieces ['/'] l).modifyHead (c :: ·) :=
  List.pieces_cons_of_not_front fun h => hslash (List.cons_prefix_cons.mp h).1.symm

/-- The pieces of accepted text are token text, and only the first of them may be empty. -/
theorem pieces_of_accepted {nonempty : Bool} (h : Workflow.pointerTokens nonempty t = true) :
    ∃ p ps, List.pieces ['/'] t = p :: ps ∧ TokenText p ∧ (nonempty = false → p ≠ []) ∧
      ∀ q ∈ ps, q ≠ [] ∧ TokenText q := by
  induction nonempty, t using Workflow.pointerTokens.induct with
  | case1 nonempty =>
    refine ⟨[], [], rfl, .nil, fun hfalse => ?_, fun q hq => by cases hq⟩
    rw [Workflow.pointerTokens, hfalse] at h
    cases h
  | case2 nonempty rest ih =>
    rw [Workflow.pointerTokens, Bool.and_eq_true] at h
    obtain ⟨p, ps, hpieces, hp, hne, hps⟩ := ih h.2
    refine ⟨[], p :: ps, by rw [pieces_slash, hpieces], .nil, fun hfalse => ?_, fun q hq => ?_⟩
    · rw [hfalse] at h
      cases h.1
    · rcases List.mem_cons.mp hq with rfl | hq
      · exact ⟨hne rfl, hp⟩
      · exact hps q hq
  | case3 nonempty rest ih =>
    rw [Workflow.pointerTokens] at h
    obtain ⟨p, ps, hpieces, hp, -, hps⟩ := ih h
    refine ⟨'~' :: '0' :: p, ps, ?_, .tilde hp, fun _ => List.cons_ne_nil _ _, hps⟩
    rw [pieces_cons (by decide), pieces_cons (by decide), hpieces]
    rfl
  | case4 nonempty rest ih =>
    rw [Workflow.pointerTokens] at h
    obtain ⟨p, ps, hpieces, hp, -, hps⟩ := ih h
    refine ⟨'~' :: '1' :: p, ps, ?_, .slash hp, fun _ => List.cons_ne_nil _ _, hps⟩
    rw [pieces_cons (by decide), pieces_cons (by decide), hpieces]
    rfl
  | case5 nonempty rest hzero hone =>
    rw [Workflow.pointerTokens] at h
    · cases h
    · exact hzero
    · exact hone
  | case6 =>
    rw [Workflow.pointerTokens] at h
    cases h
  | case7 nonempty c rest hslash hzero hone htilde hhash ih =>
    rw [Workflow.pointerTokens] at h
    · obtain ⟨p, ps, hpieces, hp, -, hps⟩ := ih h
      refine ⟨c :: p, ps, ?_, .plain htilde hslash hp, fun _ => List.cons_ne_nil _ _, hps⟩
      rw [pieces_cons hslash, hpieces]
      rfl
    all_goals assumption

/-- An accepted path other than the root: its pieces are token text. -/
theorem accepted_cases (h : isValidJsonPointerSubset path = true) (hroot : path ≠ "/") :
    ∃ rest, path.toList = '/' :: rest ∧ ∀ t ∈ List.pieces ['/'] rest, t ≠ [] ∧ TokenText t := by
  unfold isValidJsonPointerSubset at h
  split at h
  · next hpath =>
    refine absurd ?_ hroot
    rw [← String.ofList_toList (s := path), hpath]
  · next rest _ hrest =>
    obtain ⟨p, ps, hpieces, hp, hne, hps⟩ := pieces_of_accepted h
    refine ⟨rest, hrest, fun t ht => ?_⟩
    rw [hpieces] at ht
    rcases List.mem_cons.mp ht with rfl | ht
    · exact ⟨hne rfl, hp⟩
    · exact hps t ht
  · cases h

/-- The tokens of an accepted path are those of RFC 6901. -/
theorem pointerTokens_eq (h : isValidJsonPointerSubset path = true) :
    pointerTokens path = .ok (Rfc6901.tokens path) := by
  rw [pointerTokens, h, if_neg (by decide), Rfc6901.tokens]
  split
  · rfl
  · next hroot =>
    obtain ⟨rest, hrest, htokens⟩ := accepted_cases h hroot
    rw [hrest, pieces_slash, List.tail_cons]
    refine congrArg Except.ok (List.map_congr_left fun t ht => ?_)
    rw [decodePointerToken_eq (htokens t ht).2]

/-- Different accepted paths have different tokens. -/
theorem tokens_injective (h : isValidJsonPointerSubset path = true)
    (h' : isValidJsonPointerSubset path' = true)
    (htokens : Rfc6901.tokens path = Rfc6901.tokens path') : path = path' := by
  -- the text of a path is its escaped tokens
  have htext : ∀ {p : String}, isValidJsonPointerSubset p = true → p ≠ "/" →
      Rfc6901.tokens p ≠ [] ∧ p.toList = '/' ::
        ['/'].intercalate ((Rfc6901.tokens p).map fun t => escape t.toList) := by
    intro p hp hroot
    obtain ⟨rest, hrest, hpieces⟩ := accepted_cases hp hroot
    have hmap : Rfc6901.tokens p =
        (List.pieces ['/'] rest).map fun t => String.ofList (Rfc6901.unescape t) := by
      rw [Rfc6901.tokens, if_neg hroot, hrest, pieces_slash, List.tail_cons]
    have hback : ((Rfc6901.tokens p).map fun t => escape t.toList) = List.pieces ['/'] rest := by
      rw [hmap, List.map_map]
      refine (List.map_congr_left fun t ht => ?_).trans (List.map_id _)
      rw [Function.comp_apply, String.toList_ofList]
      exact escape_unescape (hpieces t ht).2
    refine ⟨?_, by rw [hback, hrest, List.intercalate_pieces (List.cons_ne_nil _ _)]⟩
    rw [hmap, ne_eq, List.map_eq_nil_iff]
    exact List.pieces_ne_nil (List.cons_ne_nil _ _) rest
  have hrootTokens : Rfc6901.tokens "/" = [] := rfl
  by_cases hroot : path = "/" <;> by_cases hroot' : path' = "/"
  · rw [hroot, hroot']
  · rw [hroot, hrootTokens] at htokens
    exact absurd htokens.symm (htext h' hroot').1
  · rw [hroot', hrootTokens] at htokens
    exact absurd htokens (htext h hroot).1
  · rw [← String.toList_inj, (htext h hroot).2, (htext h' hroot').2, htokens]

/-! ### Indices -/

/-- All characters are ASCII digits. -/
def isAsciiToken (token : String) : Bool := token.toList.all Digits.isAsciiDigit

variable {token : String} {tokens : List String} {items : List Value}

/-- RFC 6901 reads the ASCII tokens among those the resolver tries. -/
theorem index?_eq (token : String) :
    Rfc6901.index? token = if isIndexToken token && isAsciiToken token then
      some (Digits.value (token.toList.map (·.toNat - 0x30))) else none := by
  have hdigits : isAsciiToken token = true → token.toList.all Digits.isDigit = true := fun h =>
    List.all_eq_true.mpr fun c hc => Digits.isDigit_of_isAsciiDigit (List.all_eq_true.mp h c hc)
  rw [Rfc6901.index?]
  refine if_congr ?_ rfl rfl
  simp only [isIndexToken, Digits.strIsDigit, Bool.and_eq_true, Bool.or_eq_true, Bool.not_eq_true',
    List.isEmpty_eq_false_iff, beq_iff_eq, bne_iff_ne, ne_eq]
  constructor
  · rintro ⟨hne, hascii, hzero⟩
    exact ⟨⟨⟨hne, hdigits hascii⟩, hzero⟩, hascii⟩
  · rintro ⟨⟨⟨hne, -⟩, hzero⟩, hascii⟩
    exact ⟨hne, hascii, hzero⟩

/-- `int` reads an ASCII token as RFC 6901 does, when it is not too long. -/
theorem int?_of_isAsciiToken {index : ℕ} (h : isAsciiToken token = true)
    (hint : Digits.int? token = some index) :
    Digits.value (token.toList.map (·.toNat - 0x30)) = index := by
  unfold Digits.int? at hint
  split at hint
  · cases hint
  · rw [Digits.mapM_decimal?_of_ascii (List.all_eq_true.mp h)] at hint
    exact Option.some_inj.mp hint

/-- The tokens lead to nothing, and `int` accepts each of them that it is asked to read. -/
def leadsNowhere : List String → Value → Bool
  | [], _ => false
  | token :: tokens, .obj members => (members.lookup token).all (leadsNowhere tokens)
  | token :: tokens, .arr items =>
    !isIndexToken token ||
      (Digits.int? token).any fun index => items[index]?.all (leadsNowhere tokens)
  | _ :: _, _ => true

/-- `int` accepts each token that it is asked to read on the way, and where a token that is not
ASCII names an item of an array, the rest of the tokens leads to nothing. -/
def plainIndices : List String → Value → Bool
  | [], _ => true
  | token :: tokens, .obj members => (members.lookup token).all (plainIndices tokens)
  | token :: tokens, .arr items =>
    !isIndexToken token ||
      (Digits.int? token).any fun index => items[index]?.all fun item =>
        if isAsciiToken token then plainIndices tokens item else leadsNowhere tokens item
  | _ :: _, _ => true

theorem resolveTokens_eq_none_iff (tokens : List String) (v : Value) :
    resolveTokens tokens v = .ok none ↔ leadsNowhere tokens v = true := by
  induction tokens generalizing v with
  | nil => simp [resolveTokens, leadsNowhere]
  | cons token tokens ih =>
    cases v with
    | obj members =>
      rw [resolveTokens, leadsNowhere]
      cases members.lookup token with
      | none => exact iff_of_true rfl rfl
      | some current => exact ih current
    | arr items =>
      rw [resolveTokens, leadsNowhere]
      by_cases hindex : isIndexToken token = true
      · rw [hindex]
        cases Digits.int? token with
        | none => exact iff_of_false nofun Bool.false_ne_true
        | some index =>
          cases hitem : items[index]? with
          | none => simp [hitem]
          | some current => simpa [hitem] using ih current
      · simp [hindex]
    | _ => exact iff_of_true rfl rfl

/-- The resolver agrees with RFC 6901 exactly on plain indices. -/
theorem resolveTokens_eq_iff (tokens : List String) (v : Value) :
    resolveTokens tokens v =
        .ok (tokens.foldlM (fun current token => Rfc6901.member? token current) v) ↔
      plainIndices tokens v = true := by
  induction tokens generalizing v with
  | nil => exact iff_of_true rfl rfl
  | cons token tokens ih =>
    rw [List.foldlM_cons]
    cases v with
    | obj members =>
      rw [resolveTokens, plainIndices, Rfc6901.member?]
      cases members.lookup token with
      | none => exact iff_of_true rfl rfl
      | some current => exact ih current
    | arr items =>
      rw [resolveTokens, plainIndices, Rfc6901.member?, index?_eq]
      by_cases hindex : isIndexToken token = true
      · rw [hindex]
        cases hint : Digits.int? token with
        | none => exact iff_of_false nofun Bool.false_ne_true
        | some index =>
          cases hitem : items[index]? with
          | none =>
            by_cases hascii : isAsciiToken token = true
            · simp [hascii, int?_of_isAsciiToken hascii hint, hitem]
            · simp [hascii, hitem]
          | some current =>
            by_cases hascii : isAsciiToken token = true
            · simpa [hascii, int?_of_isAsciiToken hascii hint, hitem] using ih current
            · simpa [hascii, hitem] using resolveTokens_eq_none_iff tokens current
      · simp [hindex]
    | _ => exact iff_of_true rfl rfl

/-! ### The resolver and RFC 6901 -/

/-- On accepted paths: `/` is the whole document, the tokens determine the path, and the resolver
gives the value of RFC 6901, `MISSING` where there is none, exactly on plain indices. -/
theorem resolveJsonPointer_eq_iff (path : String) (root : Json.Value)
    (h : isValidJsonPointerSubset path = true) :
    resolveJsonPointer root "/" = .ok (some root) ∧
    (∀ path', isValidJsonPointerSubset path' = true →
      pointerTokens path = pointerTokens path' → path = path') ∧
    (resolveJsonPointer root path = .ok (Rfc6901.eval root path) ↔
      plainIndices (Rfc6901.tokens path) root = true) := by
  refine ⟨?_, fun path' h' htokens => ?_, ?_⟩
  · rw [resolveJsonPointer, pointerTokens_eq (by decide +kernel)]
    rfl
  · rw [pointerTokens_eq h, pointerTokens_eq h', Except.ok.injEq] at htokens
    exact tokens_injective h h' htokens
  · rw [resolveJsonPointer, pointerTokens_eq h]
    exact resolveTokens_eq_iff _ root

/-- The second item of an array by an ASCII index. -/
theorem resolveJsonPointer_item :
    resolveJsonPointer (.arr [.null, .int 7]) "/1" = .ok (some (.int 7)) :=
  ((resolveJsonPointer_eq_iff "/1" (.arr [.null, .int 7]) (by decide +kernel)).2.2.mpr
    (by decide +kernel)).trans (by decide +kernel)

/-- A superscript raises, and a full-width digit names an item. -/
theorem resolveJsonPointer_digits :
    isValidJsonPointerSubset "/²" = true ∧
      resolveJsonPointer (.arr [.null, .int 7]) "/²" = .error .invalidInt ∧
      isValidJsonPointerSubset "/１" = true ∧
      resolveJsonPointer (.arr [.null, .int 7]) "/１" = .ok (some (.int 7)) ∧
      Rfc6901.eval (.arr [.null, .int 7]) "/１" = none := by
  decide +kernel

end McpFlow.Pointer
