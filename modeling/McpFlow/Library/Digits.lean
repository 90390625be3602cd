import Mathlib.Data.List.Basic
import Mathlib.Data.String.Defs

/-!
# Digit characters

`str.isdigit` accepts the characters with the Unicode property `Numeric_Type` `Decimal` or `Digit`;
`int` reads the decimal ones of every script and refuses the others, and it refuses more than 4300
digits. The tables are those of Unicode 15.0.
-/

namespace Digits

/-- The zeros of the scripts; the nine code points behind each of them are the other digits. -/
def zeros : List ℕ :=
  [0x30, 0x660, 0x6f0, 0x7c0, 0x966, 0x9e6, 0xa66, 0xae6, 0xb66, 0xbe6, 0xc66, 0xce6, 0xd66, 0xde6,
    0xe50, 0xed0, 0xf20, 0x1040, 0x1090, 0x17e0, 0x1810, 0x1946, 0x19d0, 0x1a80, 0x1a90, 0x1b50,
    0x1bb0, 0x1c40, 0x1c50, 0xa620, 0xa8d0, 0xa900, 0xa9d0, 0xa9f0, 0xaa50, 0xabf0, 0xff10, 0x104a0,
    0x10d30, 0x11066, 0x110f0, 0x11136, 0x111d0, 0x112f0, 0x11450, 0x114d0, 0x11650, 0x116c0, 0x11730,
    0x118e0, 0x11950, 0x11c50, 0x11d50, 0x11da0, 0x11f50, 0x16a60, 0x16ac0, 0x16b50, 0x1d7ce, 0x1d7d8,
    0x1d7e2, 0x1d7ec, 0x1d7f6, 0x1e140, 0x1e2f0, 0x1e4f0, 0x1e950, 0x1fbf0]

/-- The ranges of the digits that are no decimals: superscripts, circled digits and the like. -/
def otherDigits : List (ℕ × ℕ) :=
  [(0xb2, 0xb3), (0xb9, 0xb9), (0x1369, 0x1371), (0x19da, 0x19da), (0x2070, 0x2070), (0x2074, 0x2079),
    (0x2080, 0x2089), (0x2460, 0x2468), (0x2474, 0x247c), (0x2488, 0x2490), (0x24ea, 0x24ea),
    (0x24f5, 0x24fd), (0x24ff, 0x24ff), (0x2776, 0x277e), (0x2780, 0x2788), (0x278a, 0x2792),
    (0x10a40, 0x10a43), (0x10e60, 0x10e68), (0x11052, 0x1105a), (0x1f100, 0x1f10a)]

/-- `unicodedata.decimal`. -/
def decimal? (c : Char) : Option ℕ :=
  zeros.findSome? fun first =>
    if first ≤ c.toNat ∧ c.toNat < first + 10 then some (c.toNat - first) else none

/-- The character counts as a digit. -/
def isDigit (c : Char) : Bool :=
  (decimal? c).isSome || otherDigits.any fun range => range.1 ≤ c.toNat && c.toNat ≤ range.2

/-- `str.isdigit`. -/
def strIsDigit (s : String) : Bool := !s.toList.isEmpty && s.toList.all isDigit

/-- `sys.get_int_max_str_digits()`. -/
def maxStrDigits : ℕ := 4300

/-- The number of a list of decimals. -/
def value (digits : List ℕ) : ℕ := digits.foldl (fun n d => 10 * n + d) 0

/-- `int(s)` for text that `str.isdigit` accepts; `none` is a `ValueError`. -/
def int? (s : String) : Option ℕ :=
  if maxStrDigits < s.toList.length then none else (s.toList.mapM decimal?).map value

/-- An ASCII digit. -/
def isAsciiDigit (c : Char) : Bool := 0x30 ≤ c.toNat && c.toNat < 0x3a

theorem decimal?_of_isAsciiDigit {c : Char} (h : isAsciiDigit c = true) :
    decimal? c = some (c.toNat - 0x30) := by
  simp only [isAsciiDigit, Bool.and_eq_true, decide_eq_true_eq] at h
  rw [decimal?, zeros, List.findSome?_cons, if_pos h]

theorem isDigit_of_isAsciiDigit {c : Char} (h : isAsciiDigit c = true) : isDigit c = true := by
  rw [isDigit, decimal?_of_isAsciiDigit h]
  rfl

/-- ASCII text is read by its code points. -/
theorem mapM_decimal?_of_ascii {l : List Char} (h : ∀ c ∈ l, isAsciiDigit c = true) :
    l.mapM decimal? = some (l.map (·.toNat - 0x30)) := by
  induction l with
  | nil => rfl
  | cons c l ih =>
    rw [List.forall_mem_cons] at h
    rw [List.mapM_cons, decimal?_of_isAsciiDigit h.1, ih h.2]
    rfl

end Digits
