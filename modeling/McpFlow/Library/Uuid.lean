import Mathlib.Data.Nat.Digits.Defs
import Mathlib.Tactic.Ring

/-!
# UUIDs and their text form

A UUID is a 128-bit number. `UUID.toString` writes it in the canonical form, lowercase
hexadecimal in groups of 8, 4, 4, 4 and 12 digits joined by hyphens; `UUID.parse?` reads the
documented forms back (a `urn:` and `uuid:` prefix, curly braces and hyphens are optional, 32
hexadecimal digits must remain). The two are inverse: `UUID.parse?_toString`.
-/

/-- A 128-bit universally unique identifier. -/
structure UUID where
  int : ℕ
  isLt : int < 2 ^ 128
deriving DecidableEq

namespace UUID

/-- `UUID(int=n)`, for a number below `2 ^ 128`. -/
protected def ofNat (n : ℕ) : UUID := ⟨n % 2 ^ 128, Nat.mod_lt n (Nat.two_pow_pos 128)⟩

/-! ### Hexadecimal digits -/

/-- The lowercase hexadecimal digits. -/
def hexAlphabet : List Char :=
  ['0', '1', '2', '3', '4', '5', '6', '7', '8', '9', 'a', 'b', 'c', 'd', 'e', 'f']

/-- The digit of a number below sixteen. -/
def hexDigit (d : ℕ) : Char := hexAlphabet.getD (d % 16) '0'

/-- The value of a hexadecimal digit in either letter case. -/
def hexValue? (c : Char) : Option ℕ := hexAlphabet.findIdx? (· == c.toLower)

/-- The `len` lowest hexadecimal digits of `n`, the most significant first. -/
def hexDigits : ℕ → ℕ → List Char
  | 0, _ => []
  | len + 1, n => hexDigits len (n / 16) ++ [hexDigit n]

/-- The number a list of digits denotes, when all of them are hexadecimal. -/
def ofHexDigits? (cs : List Char) : Option ℕ :=
  cs.foldl (fun acc c => acc.bind fun n => (hexValue? c).map fun d => 16 * n + d) (some 0)

@[simp] theorem length_hexDigits (len n : ℕ) : (hexDigits len n).length = len := by
  induction len generalizing n with
  | zero => rfl
  | succ len ih => simp [hexDigits, ih]

private theorem hexDigit_facts : ∀ d ∈ List.range 16,
    hexValue? (hexDigit d) = some d ∧ hexDigit d ∈ hexAlphabet := by
  decide

theorem hexValue?_hexDigit (n : ℕ) : hexValue? (hexDigit n) = some (n % 16) := by
  have h := (hexDigit_facts (n % 16) (List.mem_range.mpr (Nat.mod_lt n (by decide)))).1
  simpa [hexDigit] using h

theorem hexDigit_mem (n : ℕ) : hexDigit n ∈ hexAlphabet := by
  have h := (hexDigit_facts (n % 16) (List.mem_range.mpr (Nat.mod_lt n (by decide)))).2
  simpa [hexDigit] using h

/-- Every written digit is a lowercase hexadecimal one. -/
theorem mem_hexAlphabet_of_mem_hexDigits {len n : ℕ} {c : Char} (h : c ∈ hexDigits len n) :
    c ∈ hexAlphabet := by
  induction len generalizing n with
  | zero => simp [hexDigits] at h
  | succ len ih =>
    rcases List.mem_append.mp h with h | h
    · exact ih h
    · rw [List.mem_singleton.mp h]
      exact hexDigit_mem n

/-- Reading the written digits gives the number back, up to the digits written. -/
theorem ofHexDigits?_hexDigits (len n : ℕ) :
    ofHexDigits? (hexDigits len n) = some (n % 16 ^ len) := by
  induction len generalizing n with
  | zero => simp [hexDigits, ofHexDigits?, Nat.mod_one]
  | succ len ih =>
    have hstep : 16 * (n / 16 % 16 ^ len) + n % 16 = n % 16 ^ (len + 1) := by
      rw [Nat.pow_succ', Nat.mod_mul]
      ring
    simp only [ofHexDigits?] at ih
    simp only [hexDigits, ofHexDigits?, List.foldl_append, List.foldl_cons, List.foldl_nil, ih,
      Option.bind_some, hexValue?_hexDigit, Option.map_some, hstep]

/-! ### The text form -/

/-- Join the 32 digits of a UUID in groups of 8, 4, 4, 4 and 12. -/
def hyphenate (cs : List Char) : List Char :=
  cs.take 8 ++ '-' :: (cs.drop 8).take 4 ++ '-' :: (cs.drop 12).take 4 ++
    '-' :: (cs.drop 16).take 4 ++ '-' :: cs.drop 20

/-- The canonical text of a UUID. -/
protected def toString (u : UUID) : String := String.ofList (hyphenate (hexDigits 32 u.int))

/-- `str.replace(pat, "")` for a nonempty `pat`; the counter is the number of characters of a
removed occurrence still to be skipped. -/
def removeAll (pat : List Char) : ℕ → List Char → List Char
  | _, [] => []
  | skip + 1, _ :: cs => removeAll pat skip cs
  | 0, c :: cs =>
    if pat.isPrefixOf (c :: cs) then removeAll pat (pat.length - 1) cs
    else c :: removeAll pat 0 cs

/-- `str.strip("{}")`. -/
def stripBraces (cs : List Char) : List Char :=
  let isBrace : Char → Bool := fun c => c == '{' || c == '}'
  ((cs.dropWhile isBrace).reverse.dropWhile isBrace).reverse

/-- The digits `UUID(hex)` keeps of a text: `urn:`, `uuid:`, outer braces and hyphens go. -/
def significant (text : String) : List Char :=
  (stripBraces (removeAll ['u', 'u', 'i', 'd', ':'] 0
    (removeAll ['u', 'r', 'n', ':'] 0 text.toList))).filter (· != '-')

/-- `UUID(text)`: exactly 32 hexadecimal digits must remain. -/
def parse? (text : String) : Option UUID :=
  if (significant text).length = 32 then
    (ofHexDigits? (significant text)).bind fun n => if h : n < 2 ^ 128 then some ⟨n, h⟩ else none
  else none

/-! ### The round trip -/

/-- Nothing is removed from a text that has no first character of the pattern. -/
theorem removeAll_of_notMem {p : Char} {pat cs : List Char} (h : p ∉ cs) :
    removeAll (p :: pat) 0 cs = cs := by
  induction cs with
  | nil => rfl
  | cons c cs ih =>
    have hne : ¬ p = c := fun hpc => h (hpc ▸ List.mem_cons_self)
    have hcs : p ∉ cs := fun hmem => h (List.mem_cons_of_mem c hmem)
    simp [removeAll, hne, ih hcs]

private theorem dropWhile_eq_self {p : Char → Bool} {cs : List Char} (h : ∀ c ∈ cs, p c = false) :
    cs.dropWhile p = cs := by
  cases cs with
  | nil => rfl
  | cons c cs => simp [List.dropWhile, h c List.mem_cons_self]

/-- Nothing is stripped from a text without braces. -/
theorem stripBraces_of_notMem {cs : List Char} (h : ∀ c ∈ cs, c ≠ '{' ∧ c ≠ '}') :
    stripBraces cs = cs := by
  have hp : ∀ c ∈ cs, (c == '{' || c == '}') = false := fun c hc => by
    simp [(h c hc).1, (h c hc).2]
  have hq : ∀ c ∈ cs.reverse, (c == '{' || c == '}') = false := fun c hc =>
    hp c (List.mem_reverse.mp hc)
  simp only [stripBraces]
  rw [dropWhile_eq_self hp, dropWhile_eq_self hq, List.reverse_reverse]

/-- The characters of the text are digits and hyphens. -/
theorem mem_hyphenate {cs : List Char} {c : Char} (h : c ∈ hyphenate cs) : c ∈ cs ∨ c = '-' := by
  simp only [hyphenate, List.mem_append, List.mem_cons] at h
  rcases h with (((h | h | h) | h | h) | h | h) | h | h
  · exact .inl (List.mem_of_mem_take h)
  · exact .inr h
  · exact .inl (List.mem_of_mem_drop (List.mem_of_mem_take h))
  · exact .inr h
  · exact .inl (List.mem_of_mem_drop (List.mem_of_mem_take h))
  · exact .inr h
  · exact .inl (List.mem_of_mem_drop (List.mem_of_mem_take h))
  · exact .inr h
  · exact .inl (List.mem_of_mem_drop h)

/-- Dropping the hyphens undoes the grouping. -/
theorem filter_hyphenate {cs : List Char} (h : ∀ c ∈ cs, c ≠ '-') :
    (hyphenate cs).filter (· != '-') = cs := by
  have hkeep : ∀ {l : List Char}, (∀ c ∈ l, c ∈ cs) → l.filter (· != '-') = l := fun hl => by
    rw [List.filter_eq_self]
    intro c hc
    simpa using h c (hl c hc)
  have htake : ∀ (n : ℕ) (l : List Char), (∀ c ∈ l, c ∈ cs) → ∀ c ∈ l.take n, c ∈ cs :=
    fun _ _ hl c hc => hl c (List.mem_of_mem_take hc)
  have hdrop : ∀ n, ∀ c ∈ cs.drop n, c ∈ cs := fun _ _ hc => List.mem_of_mem_drop hc
  have hsplit : cs = cs.take 8 ++ ((cs.drop 8).take 4 ++ ((cs.drop 12).take 4 ++
      ((cs.drop 16).take 4 ++ cs.drop 20))) := by
    have h16 : (cs.drop 16).take 4 ++ cs.drop 20 = cs.drop 16 := by
      simpa using List.take_append_drop 4 (cs.drop 16)
    have h12 : (cs.drop 12).take 4 ++ cs.drop 16 = cs.drop 12 := by
      simpa using List.take_append_drop 4 (cs.drop 12)
    have h8 : (cs.drop 8).take 4 ++ cs.drop 12 = cs.drop 8 := by
      simpa using List.take_append_drop 4 (cs.drop 8)
    rw [h16, h12, h8, List.take_append_drop]
  simp only [hyphenate, List.filter_append, List.filter_cons, bne_self_eq_false,
    Bool.false_eq_true, if_false, List.append_assoc]
  rw [hkeep (htake 8 cs fun _ hc => hc), hkeep (htake 4 _ (hdrop 8)),
    hkeep (htake 4 _ (hdrop 12)), hkeep (htake 4 _ (hdrop 16)), hkeep (hdrop 20)]
  exact hsplit.symm

private theorem hexAlphabet_plain {c : Char} (h : c ∈ hexAlphabet) :
    c ≠ 'u' ∧ c ≠ '{' ∧ c ≠ '}' ∧ c ≠ '-' := by
  have hall : hexAlphabet.all (fun c => c != 'u' && c != '{' && c != '}' && c != '-') = true := rfl
  simpa [and_assoc] using List.all_eq_true.mp hall c h

/-- The significant digits of a canonical text are its 32 hexadecimal digits. -/
theorem significant_toString (u : UUID) : significant u.toString = hexDigits 32 u.int := by
  have hdig : ∀ c ∈ hexDigits 32 u.int, c ≠ 'u' ∧ c ≠ '{' ∧ c ≠ '}' ∧ c ≠ '-' := fun c hc =>
    hexAlphabet_plain (mem_hexAlphabet_of_mem_hexDigits hc)
  have htext : ∀ c ∈ hyphenate (hexDigits 32 u.int), c ≠ 'u' ∧ c ≠ '{' ∧ c ≠ '}' := by
    intro c hc
    rcases mem_hyphenate hc with hc | rfl
    · exact ⟨(hdig c hc).1, (hdig c hc).2.1, (hdig c hc).2.2.1⟩
    · decide
  have hu : 'u' ∉ hyphenate (hexDigits 32 u.int) := fun hmem => (htext 'u' hmem).1 rfl
  simp only [significant, UUID.toString, String.toList_ofList]
  rw [removeAll_of_notMem hu, removeAll_of_notMem hu, stripBraces_of_notMem fun c hc =>
    (htext c hc).2, filter_hyphenate fun c hc => (hdig c hc).2.2.2]

/-- A UUID reads back from the text it was written as. -/
@[simp] theorem parse?_toString (u : UUID) : parse? u.toString = some u := by
  have hmod : u.int % 16 ^ 32 = u.int := Nat.mod_eq_of_lt (by simpa using u.isLt)
  simp only [parse?, significant_toString, length_hexDigits, if_true, ofHexDigits?_hexDigits,
    hmod, Option.bind_some, dif_pos u.isLt]

theorem toString_ne_empty (u : UUID) : u.toString ≠ "" := fun h => by
  have hlen := congrArg List.length (significant_toString u)
  rw [h, length_hexDigits] at hlen
  exact absurd hlen (by decide)

/-- Two UUIDs of one text are equal. -/
theorem toString_injective : Function.Injective UUID.toString := fun u v h => by
  have hu := parse?_toString u
  rw [h, parse?_toString] at hu
  exact (Option.some.inj hu).symm

end UUID
