import McpFlow.Library.JsonText

/-!
# The ASCII text of a JSON value

With `ensure_ascii` a character outside the printable ASCII range is written as the escape of its
code, and a code of more than sixteen bits as two escapes. The compact text is a sequence of tokens, a
character or an escape each; the ASCII text has one code for each token, which is read back from its
front. So the ASCII text determines the compact text, and with it the value.
-/

namespace Json

/-- The escape of a code of sixteen bits. -/
def escapeCode (n : ℕ) : List Char := '\\' :: 'u' :: UUID.hexDigits 4 n

/-- The character is kept. -/
def IsPrintable (c : Char) : Prop := 0x20 ≤ c.toNat ∧ c.toNat < 0x7f

instance : DecidablePred IsPrintable := fun _ => inferInstanceAs (Decidable (_ ∧ _))

/-- What is written for a character of the compact text. -/
def asciiChar (c : Char) : List Char :=
  if IsPrintable c then [c]
  else if c.toNat < 0x10000 then escapeCode c.toNat
  else escapeCode (0xd800 + (c.toNat - 0x10000) / 0x400) ++
    escapeCode (0xdc00 + (c.toNat - 0x10000) % 0x400)

/-! ### Tokens -/

/-- A character or an escape of the compact text. -/
inductive Token : List Char → Prop
  | plain {c : Char} (hslash : c ≠ '\\') (hlow : 0x20 ≤ c.toNat) : Token [c]
  | short {c : Char} (hu : c ≠ 'u') (hprint : IsPrintable c) : Token ['\\', c]
  | code {n : ℕ} (hlow : n < 0x20) : Token (escapeCode n)

/-- Texts that are sequences of tokens. -/
inductive Tokens : List Char → Prop
  | nil : Tokens []
  | cons {t l : List Char} (ht : Token t) (hl : Tokens l) : Tokens (t ++ l)

theorem Token.tokens {t : List Char} (h : Token t) : Tokens t := by
  have hcons := Tokens.cons h .nil
  rwa [List.append_nil] at hcons

theorem Tokens.append {l m : List Char} (hl : Tokens l) (hm : Tokens m) : Tokens (l ++ m) := by
  induction hl with
  | nil => exact hm
  | cons ht _ ih =>
    rw [List.append_assoc]
    exact .cons ht ih

theorem Tokens.cons_plain {c : Char} {l : List Char} (hl : Tokens l)
    (hc : c ≠ '\\' ∧ 0x20 ≤ c.toNat) : Tokens (c :: l) :=
  .cons (.plain hc.1 hc.2) hl

theorem tokens_of_forall {l : List Char} (h : ∀ c ∈ l, c ≠ '\\' ∧ 0x20 ≤ c.toNat) : Tokens l := by
  induction l with
  | nil => exact .nil
  | cons c l ih =>
    rw [List.forall_mem_cons] at h
    exact (ih h.2).cons_plain h.1

theorem tokens_of_all {l : List Char}
    (h : (l.all fun c => decide (c ≠ '\\' ∧ 0x20 ≤ c.toNat)) = true) : Tokens l :=
  tokens_of_forall fun c hc => of_decide_eq_true (List.all_eq_true.mp h c hc)

/-! ### The text is a sequence of tokens -/

theorem token_escapeChar (c : Char) : Token (escapeChar c) := by
  unfold escapeChar
  split
  · exact .short (by decide) (by decide)
  split
  · exact .short (by decide) (by decide)
  split
  · exact .short (by decide) (by decide)
  split
  · exact .short (by decide) (by decide)
  split
  · exact .short (by decide) (by decide)
  split
  · exact .short (by decide) (by decide)
  split
  · exact .short (by decide) (by decide)
  split
  · next h => exact .code h
  · next hslash _ _ _ _ _ hlow => exact .plain hslash (Nat.le_of_not_lt hlow)

theorem tokens_quote (s : String) : Tokens (quote s) := by
  have hchars (cs : List Char) : Tokens (cs.flatMap escapeChar) := by
    induction cs with
    | nil => exact .nil
    | cons c cs ih => exact .cons (token_escapeChar c) ih
  exact ((hchars s.toList).append (@tokens_of_all ['"'] (by decide))).cons_plain (by decide)

theorem plain_of_isNumeral {c : Char} (h : isNumeral c = true) : c ≠ '\\' ∧ 0x20 ≤ c.toNat := by
  simp only [isNumeral, Bool.or_eq_true, beq_iff_eq] at h
  rcases h with (((h | rfl) | rfl) | rfl) | rfl
  · have hle : 48 ≤ c.val := by
      rw [Char.isDigit, Bool.and_eq_true, decide_eq_true_eq, decide_eq_true_eq] at h
      exact h.1
    refine ⟨?_, Nat.le_trans (by decide) (UInt32.le_iff_toNat_le.mp hle)⟩
    rintro rfl
    exact absurd h (by decide)
  all_goals decide

namespace Value

variable (floats : FloatText)

mutual
theorem tokens_text : ∀ v : Value, Tokens (v.text floats)
  | null => @tokens_of_all ['n', 'u', 'l', 'l'] (by decide)
  | bool true => @tokens_of_all ['t', 'r', 'u', 'e'] (by decide)
  | bool false => @tokens_of_all ['f', 'a', 'l', 's', 'e'] (by decide)
  | int _ => tokens_of_forall fun _ hc => plain_of_isNumeral (isNumeral_of_mem_intText hc)
  | float q => tokens_of_forall fun c hc => plain_of_isNumeral (floats.numeral q c hc)
  | str s => tokens_quote s
  | arr items => (tokens_textItems true items).cons_plain (by decide)
  | obj members => (tokens_textMembers true members).cons_plain (by decide)

theorem tokens_textItems : ∀ (first : Bool) (items : List Value),
    Tokens (textItems floats first items)
  | _, [] => @tokens_of_all [']'] (by decide)
  | true, item :: items => (tokens_text item).append (tokens_textItems false items)
  | false, item :: items =>
    ((tokens_text item).append (tokens_textItems false items)).cons_plain (by decide)

theorem tokens_textMembers : ∀ (first : Bool) (members : List (String × Value)),
    Tokens (textMembers floats first members)
  | _, [] => @tokens_of_all ['\x7d'] (by decide)
  | true, (key, item) :: members => (tokens_quote key).append
    (((tokens_text item).append (tokens_textMembers false members)).cons_plain (by decide))
  | false, (key, item) :: members => ((tokens_quote key).append
    (((tokens_text item).append (tokens_textMembers false members)).cons_plain
      (by decide))).cons_plain (by decide)
end

end Value

/-! ### Reading the ASCII text -/

/-- The code of the escape at the front. -/
def readCode : List Char → Option (ℕ × List Char)
  | '\\' :: 'u' :: a :: b :: c :: d :: rest =>
    (UUID.ofHexDigits? [a, b, c, d]).map fun n => (n, rest)
  | _ => none

/-- The token at the front that is no escaped code. -/
def readPlain : List Char → Option (List Char × List Char)
  | '\\' :: c :: rest => some (['\\', c], rest)
  | c :: rest => some ([c], rest)
  | [] => none

/-- The token whose code is at the front. -/
def readToken (l : List Char) : Option (List Char × List Char) :=
  match readCode l with
  | some (n, rest) =>
    if n < 0x20 then some (escapeCode n, rest)
    else if n < 0xd800 ∨ 0xe000 ≤ n then some ([Char.ofNat n], rest)
    else (readCode rest).map fun (m, rest) =>
      ([Char.ofNat (0x10000 + (n - 0xd800) * 0x400 + (m - 0xdc00))], rest)
  | none => readPlain l

theorem readToken_of_some {l rest : List Char} {n : ℕ} (h : readCode l = some (n, rest)) :
    readToken l = if n < 0x20 then some (escapeCode n, rest)
      else if n < 0xd800 ∨ 0xe000 ≤ n then some ([Char.ofNat n], rest)
      else (readCode rest).map fun (m, rest) =>
        ([Char.ofNat (0x10000 + (n - 0xd800) * 0x400 + (m - 0xdc00))], rest) := by
  rw [readToken, h]

theorem readToken_of_none {l : List Char} (h : readCode l = none) : readToken l = readPlain l := by
  rw [readToken, h]

theorem readCode_escapeCode {n : ℕ} (h : n < 0x10000) (rest : List Char) :
    readCode (escapeCode n ++ rest) = some (n, rest) := by
  have hread := UUID.ofHexDigits?_hexDigits 4 n
  rw [Nat.mod_eq_of_lt (by omega)] at hread
  simp only [escapeCode, UUID.hexDigits, List.nil_append, List.cons_append] at hread ⊢
  rw [readCode, hread, Option.map_some]

theorem readCode_of_ne {c : Char} {l : List Char} (h : c ≠ '\\') : readCode (c :: l) = none := by
  rw [readCode]
  rintro _ _ _ _ _ heq
  exact absurd (List.cons.inj heq).1 h

/-- The escape of a control character is ASCII. -/
theorem flatMap_escapeCode (n : ℕ) : (escapeCode n).flatMap asciiChar = escapeCode n := by
  have hprint : ∀ c ∈ escapeCode n, IsPrintable c := by
    intro c hc
    rcases List.mem_cons.mp hc with rfl | hc
    · decide
    rcases List.mem_cons.mp hc with rfl | hc
    · decide
    have hall : (UUID.hexAlphabet.all fun d => decide (IsPrintable d)) = true := by decide
    exact of_decide_eq_true
      (List.all_eq_true.mp hall c (UUID.mem_hexAlphabet_of_mem_hexDigits hc))
  have hkeep (l : List Char) (hl : ∀ c ∈ l, IsPrintable c) : l.flatMap asciiChar = l := by
    induction l with
    | nil => rfl
    | cons c l ih =>
      rw [List.forall_mem_cons] at hl
      rw [List.flatMap_cons, asciiChar, if_pos hl.1, ih hl.2, List.singleton_append]
  exact hkeep _ hprint

/-- The token is read back from its code, whatever follows it. -/
theorem readToken_flatMap {t : List Char} (ht : Token t) (rest : List Char) :
    readToken (t.flatMap asciiChar ++ rest) = some (t, rest) := by
  cases ht with
  | @plain c hslash hlow =>
    rw [List.flatMap_singleton, asciiChar]
    have hvalid : c.toNat < 0xd800 ∨ 0xdfff < c.toNat ∧ c.toNat < 0x110000 := c.valid
    split
    · rw [List.singleton_append, readToken_of_none (readCode_of_ne hslash), readPlain]
      exact fun _ _ heq => absurd heq hslash
    split
    · next hshort =>
      rw [readToken_of_some (readCode_escapeCode hshort rest), if_neg (by omega), if_pos (by omega),
        Char.ofNat_toNat]
    · -- the two halves of the code make it whole again
      rw [List.append_assoc, readToken_of_some (readCode_escapeCode (by omega) _),
        if_neg (by omega), if_neg (by omega), readCode_escapeCode (by omega), Option.map_some]
      dsimp only
      have hcode : 0x10000 + (0xd800 + (c.toNat - 0x10000) / 0x400 - 0xd800) * 0x400 +
          (0xdc00 + (c.toNat - 0x10000) % 0x400 - 0xdc00) = c.toNat := by
        omega
      rw [hcode, Char.ofNat_toNat]
  | @short c hu hprint =>
    have hslash : asciiChar '\\' = ['\\'] := by decide
    rw [List.flatMap_cons, List.flatMap_singleton, hslash, asciiChar, if_pos hprint]
    have hnone : readCode ('\\' :: c :: rest) = none := by
      rw [readCode]
      rintro _ _ _ _ _ heq
      exact absurd (List.cons.inj (List.cons.inj heq).2).1 hu
    exact readToken_of_none hnone
  | @code n hlow =>
    rw [flatMap_escapeCode, readToken_of_some (readCode_escapeCode (by omega) rest), if_pos hlow]

/-- A text is determined by its ASCII form. -/
theorem flatMap_asciiChar_inj {l m : List Char} (hl : Tokens l) (hm : Tokens m)
    (h : l.flatMap asciiChar = m.flatMap asciiChar) : l = m := by
  have hnil (t k : List Char) (ht : Token t)
      (hk : ([] : List Char) = (t ++ k).flatMap asciiChar) : False := by
    have hread := readToken_flatMap ht (k.flatMap asciiChar)
    rw [← List.flatMap_append, ← hk] at hread
    cases hread
  induction hl generalizing m with
  | nil =>
    cases hm with
    | nil => rfl
    | @cons t k ht _ => exact (hnil t k ht h).elim
  | @cons t l ht _ ih =>
    cases hm with
    | nil => exact (hnil t l ht h.symm).elim
    | @cons t' k ht' hk =>
      rw [List.flatMap_append, List.flatMap_append] at h
      have hread := congrArg readToken h
      rw [readToken_flatMap ht, readToken_flatMap ht'] at hread
      obtain ⟨rfl, hrest⟩ := Prod.mk.inj (Option.some.inj hread)
      rw [ih hk hrest]

namespace Value

variable (floats : FloatText)

/-- The compact text with everything but ASCII escaped. -/
def asciiText (v : Value) : List Char := (v.text floats).flatMap asciiChar

/-- The ASCII text of a value determines the value. -/
theorem asciiText_injective : Function.Injective (asciiText floats) := fun v w h =>
  text_injective (flatMap_asciiChar_inj (tokens_text floats v) (tokens_text floats w) h)

end Value

end Json
