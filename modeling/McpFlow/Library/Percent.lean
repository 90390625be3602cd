import Mathlib.Data.List.Basic

/-!
# Percent encoding

A text is encoded byte by byte of its UTF-8 form: unreserved characters stand for themselves, every
other byte is a percent sign and two hexadecimal digits. Decoding reads the bytes back.
-/

namespace Percent

/-- The digit of a value below 16. -/
def hexDigit (n : ℕ) : Char := "0123456789ABCDEF".toList.getD n '0'

/-- The value of a hexadecimal digit. -/
def hexValue? (c : Char) : Option ℕ :=
  if '0' ≤ c ∧ c ≤ '9' then some (c.toNat - 48)
  else if 'A' ≤ c ∧ c ≤ 'F' then some (c.toNat - 55)
  else if 'a' ≤ c ∧ c ≤ 'f' then some (c.toNat - 87)
  else none

/-- Letters, digits, `_`, `.`, `-` and `~` are never encoded. -/
def isUnreserved (c : Char) : Bool :=
  c.isAlphanum || c == '_' || c == '.' || c == '-' || c == '~'

/-- The encoding of one byte. -/
def quoteByte (b : UInt8) : List Char :=
  if isUnreserved (Char.ofNat b.toNat) then [Char.ofNat b.toNat]
  else ['%', hexDigit (b.toNat / 16), hexDigit (b.toNat % 16)]

/-- The encoding of a text in which no other character is safe. -/
def quote (s : String) : List Char :=
  (s.toList.flatMap String.utf8EncodeChar).flatMap quoteByte

/-- The bytes that an encoded text stands for; a percent sign without two digits is itself. -/
def unquoteBytes : List Char → List UInt8
  | [] => []
  | [c] => String.utf8EncodeChar c
  | [c, d] => String.utf8EncodeChar c ++ String.utf8EncodeChar d
  | c :: a :: b :: cs =>
    match hexValue? a, hexValue? b with
    | some m, some n =>
      if c = '%' then UInt8.ofNat (16 * m + n) :: unquoteBytes cs
      else String.utf8EncodeChar c ++ unquoteBytes (a :: b :: cs)
    | _, _ => String.utf8EncodeChar c ++ unquoteBytes (a :: b :: cs)

/-- The text that an encoded text stands for. -/
def unquote (cs : List Char) : Option String := String.fromUTF8? (unquoteBytes cs).toByteArray

/-! ### Round trip -/

theorem unquoteBytes_cons {c : Char} (h : c ≠ '%') (cs : List Char) :
    unquoteBytes (c :: cs) = String.utf8EncodeChar c ++ unquoteBytes cs := by
  match cs with
  | [] => rw [unquoteBytes, unquoteBytes, List.append_nil]
  | [d] => rw [unquoteBytes, unquoteBytes]
  | a :: b :: cs =>
    rw [unquoteBytes]
    split
    · rw [if_neg h]
    · rfl

/-- The encoding of one byte is that byte's character, or the two digits of its value. -/
theorem quoteByte_cases (b : UInt8) :
    (∃ c, quoteByte b = [c] ∧ isUnreserved c = true ∧ String.utf8EncodeChar c = [b]) ∨
      ∃ x y m n, quoteByte b = ['%', x, y] ∧ hexValue? x = some m ∧ hexValue? y = some n ∧
        UInt8.ofNat (16 * m + n) = b ∧ x.isAlphanum = true ∧ y.isAlphanum = true := by
  have hdigit : ∀ n < 16, hexValue? (hexDigit n) = some n ∧ (hexDigit n).isAlphanum = true := by
    decide
  rw [quoteByte]
  split
  · case isTrue hsafe =>
    refine .inl ⟨_, rfl, hsafe, ?_⟩
    have hbyte : ∀ n < 256, isUnreserved (Char.ofNat n) = true →
        String.utf8EncodeChar (Char.ofNat n) = [UInt8.ofNat n] := by
      decide +kernel
    rw [hbyte b.toNat b.toNat_lt hsafe, UInt8.ofNat_toNat]
  · refine .inr ⟨_, _, b.toNat / 16, b.toNat % 16, rfl, ?_⟩
    have hlt := b.toNat_lt
    obtain ⟨hhigh, hhigh'⟩ := hdigit (b.toNat / 16) (by omega)
    obtain ⟨hlow, hlow'⟩ := hdigit (b.toNat % 16) (by omega)
    refine ⟨hhigh, hlow, ?_, hhigh', hlow'⟩
    rw [Nat.div_add_mod, UInt8.ofNat_toNat]

theorem isUnreserved_ne_percent {c : Char} (h : isUnreserved c = true) : c ≠ '%' := by
  rintro rfl
  exact absurd h (by decide)

theorem unquoteBytes_quoteByte (b : UInt8) (cs : List Char) :
    unquoteBytes (quoteByte b ++ cs) = b :: unquoteBytes cs := by
  obtain ⟨c, hquote, hsafe, hbyte⟩ | ⟨x, y, m, n, hquote, hx, hy, hbyte, -⟩ := quoteByte_cases b
  · rw [hquote, List.singleton_append, unquoteBytes_cons (isUnreserved_ne_percent hsafe), hbyte,
      List.singleton_append]
  · rw [hquote]
    change unquoteBytes ('%' :: x :: y :: cs) = _
    rw [unquoteBytes, hx, hy]
    dsimp only
    rw [if_pos rfl, hbyte]

theorem unquoteBytes_flatMap (bytes : List UInt8) :
    unquoteBytes (bytes.flatMap quoteByte) = bytes := by
  induction bytes with
  | nil => rfl
  | cons b bytes ih => rw [List.flatMap_cons, unquoteBytes_quoteByte, ih]

/-- Decoding an encoded text gives the text back. -/
theorem unquote_quote (s : String) : unquote (quote s) = some s := by
  rw [unquote, quote, unquoteBytes_flatMap]
  have hbytes : (s.toList.flatMap String.utf8EncodeChar).toByteArray = s.toByteArray :=
    String.utf8Encode_toList
  rw [hbytes, String.fromUTF8?, dif_pos s.isValidUTF8]
  rfl

/-- The characters of an encoded text. -/
theorem mem_quote {s : String} {c : Char} (h : c ∈ quote s) : isUnreserved c = true ∨ c = '%' := by
  obtain ⟨b, -, hc⟩ := List.mem_flatMap.mp h
  obtain ⟨d, hquote, hsafe, -⟩ | ⟨x, y, -, -, hquote, -, -, -, hx, hy⟩ := quoteByte_cases b
  · rw [hquote, List.mem_singleton] at hc
    exact .inl (hc ▸ hsafe)
  · rw [hquote] at hc
    simp only [List.mem_cons, List.not_mem_nil, or_false] at hc
    rcases hc with rfl | rfl | rfl
    · exact .inr rfl
    · exact .inl (by rw [isUnreserved, hx]; rfl)
    · exact .inl (by rw [isUnreserved, hy]; rfl)

end Percent
