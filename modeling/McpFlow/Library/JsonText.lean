import McpFlow.Library.Digits
import McpFlow.Library.Json
import McpFlow.Library.Uuid

/-!
# The compact text of a JSON value

`json.dumps` with the separators `,` and `:` and without ASCII escapes. The text of a value
determines the value: an escaped character can be read back from the front of a text, a string ends
at its first bare quote, a number at the first character that no number has, and the other values
are told apart by their first character.

How a float is written is a parameter. An integer of more than 4300 digits has no text.
-/

namespace Json

/-! ### Numbers -/

/-- A character of the text of a number. -/
def isNumeral (c : Char) : Bool := c.isDigit || c == '-' || c == '+' || c == '.' || c == 'e'

/-- `int.__repr__`. -/
def intText : ℤ → List Char
  | .ofNat n => Nat.toDigits 10 n
  | .negSucc n => '-' :: Nat.toDigits 10 (n + 1)

theorem toDigits_injective : Function.Injective (Nat.toDigits 10) := fun m n h => by
  have hm := Nat.ofDigitChars_ten_toDigits (n := m)
  rwa [h, Nat.ofDigitChars_ten_toDigits, eq_comm] at hm

theorem isDigit_of_mem_toDigits {n : ℕ} {c : Char} (h : c ∈ Nat.toDigits 10 n) :
    c.isDigit = true :=
  Nat.isDigit_of_mem_toDigits (by decide) (by decide) h

/-- Different integers have different texts. -/
theorem intText_injective : Function.Injective intText := by
  have hsign (m n : ℕ) (h : Nat.toDigits 10 m = '-' :: Nat.toDigits 10 n) : False := by
    have hdigit : ('-').isDigit = true := isDigit_of_mem_toDigits (n := m) (h ▸ List.mem_cons_self)
    exact absurd hdigit (by decide)
  intro i j h
  match i, j with
  | .ofNat m, .ofNat n => exact congrArg Int.ofNat (toDigits_injective h)
  | .ofNat m, .negSucc n => exact (hsign m (n + 1) h).elim
  | .negSucc m, .ofNat n => exact (hsign n (m + 1) h.symm).elim
  | .negSucc m, .negSucc n =>
    have hsucc := toDigits_injective (List.cons.inj h).2
    exact congrArg Int.negSucc (Nat.succ.inj hsucc)

theorem mem_intText {i : ℤ} {c : Char} (h : c ∈ intText i) : c.isDigit = true ∨ c = '-' := by
  match i with
  | .ofNat n => exact .inl (isDigit_of_mem_toDigits h)
  | .negSucc n =>
    rcases List.mem_cons.mp h with rfl | h
    · exact .inr rfl
    · exact .inl (isDigit_of_mem_toDigits h)

theorem intText_ne_nil (i : ℤ) : intText i ≠ [] := by
  match i with
  | .ofNat n => exact Nat.toDigits_ne_nil
  | .negSucc n => exact List.cons_ne_nil _ _

/-- The number of digits of an integer. -/
def digitCount (i : ℤ) : ℕ := (Nat.toDigits 10 i.natAbs).length

theorem length_intText_le (i : ℤ) : (intText i).length ≤ digitCount i + 1 := by
  match i with
  | .ofNat n => exact Nat.le_succ _
  | .negSucc n => exact le_refl _

/-- The numerator and the denominator have at most 400 digits. Those of a finite double stay below
`2 ^ 1024` and `2 ^ 1075`. -/
def FloatRange (q : ℚ) : Prop := digitCount q.num ≤ 400 ∧ digitCount q.den ≤ 400

/-- How `float.__repr__` writes the finite floats: in digits, signs, `.` and `e`, at least one of the
last two in every text, different texts for different floats, and none of them long. -/
structure FloatText where
  text : ℚ → List Char
  injective : Function.Injective text
  numeral : ∀ q, ∀ c ∈ text q, isNumeral c = true
  marked : ∀ q, '.' ∈ text q ∨ 'e' ∈ text q
  length_le : ∀ q, FloatRange q → (text q).length ≤ 1000

/-- A float whose text is that of an integer does not exist. -/
theorem FloatText.text_ne_intText (floats : FloatText) (q : ℚ) (i : ℤ) :
    floats.text q ≠ intText i := by
  intro h
  rcases floats.marked q with hmem | hmem <;> rw [h] at hmem <;>
    rcases mem_intText hmem with hc | hc <;> exact absurd hc (by decide)

/-- Floats written as fractions, with a point between numerator and denominator. -/
def fractionText : FloatText where
  text q := intText q.num ++ '.' :: Nat.toDigits 10 q.den
  injective := by
    have hplain (q : ℚ) : ∀ c ∈ intText q.num, (c != '.') = true := by
      intro c hc
      rcases mem_intText hc with h | rfl
      · rw [bne_iff_ne]
        rintro rfl
        exact absurd h (by decide)
      · decide
    have hspan (q : ℚ) (l : List Char) :
        (intText q.num ++ '.' :: l).takeWhile (· != '.') = intText q.num := by
      rw [List.takeWhile_append_of_pos (hplain q), List.takeWhile_cons_of_neg (by decide),
        List.append_nil]
    intro p q h
    have hnum := congrArg (List.takeWhile (· != '.')) h
    rw [hspan, hspan] at hnum
    dsimp only at h
    rw [hnum] at h
    exact Rat.ext (intText_injective hnum)
      (toDigits_injective (List.cons.inj (List.append_cancel_left h)).2)
  numeral q c hc := by
    rcases List.mem_append.mp hc with hc | hc
    · rcases mem_intText hc with h | rfl
      · rw [isNumeral, h]
        rfl
      · decide
    · rcases List.mem_cons.mp hc with rfl | hc
      · decide
      · rw [isNumeral, isDigit_of_mem_toDigits hc]
        rfl
  marked q := .inl (List.mem_append_right _ List.mem_cons_self)
  length_le q h := by
    have hsign := length_intText_le q.num
    have hnum : digitCount q.num ≤ 400 := h.1
    have hden : (Nat.toDigits 10 q.den).length ≤ 400 := h.2
    rw [List.length_append, List.length_cons]
    omega

/-! ### Strings -/

/-- The code of a character inside a string. -/
def escapeChar (c : Char) : List Char :=
  if c = '"' then ['\\', '"']
  else if c = '\\' then ['\\', '\\']
  else if c = '\n' then ['\\', 'n']
  else if c = '\r' then ['\\', 'r']
  else if c = '\t' then ['\\', 't']
  else if c.toNat = 0x08 then ['\\', 'b']
  else if c.toNat = 0x0c then ['\\', 'f']
  else if c.toNat < 0x20 then '\\' :: 'u' :: UUID.hexDigits 4 c.toNat
  else [c]

/-- The text of a string. -/
def quote (s : String) : List Char := '"' :: (s.toList.flatMap escapeChar ++ ['"'])

/-- The character that a short escape stands for. -/
def shortEscape (c : Char) : Char :=
  if c = 'n' then '\n'
  else if c = 'r' then '\r'
  else if c = 't' then '\t'
  else if c = 'b' then Char.ofNat 0x08
  else if c = 'f' then Char.ofNat 0x0c
  else c

/-- The character at the front of a text, and what follows it. -/
def readChar : List Char → Option (Char × List Char)
  | '\\' :: 'u' :: a :: b :: c :: d :: rest =>
    (UUID.ofHexDigits? [a, b, c, d]).map fun n => (Char.ofNat n, rest)
  | '\\' :: c :: rest => some (shortEscape c, rest)
  | c :: rest => some (c, rest)
  | [] => none

theorem ofNat_toNat_of_eq {c : Char} {n : ℕ} (h : c.toNat = n) : c = Char.ofNat n := by
  rw [← h, Char.ofNat_toNat]

/-- An escaped character is read back, whatever follows it. -/
theorem readChar_escapeChar (c : Char) (rest : List Char) :
    readChar (escapeChar c ++ rest) = some (c, rest) := by
  unfold escapeChar
  split
  · next h => subst h; rfl
  split
  · next h => subst h; rfl
  split
  · next h => subst h; rfl
  split
  · next h => subst h; rfl
  split
  · next h => subst h; rfl
  split
  · next h => rw [ofNat_toNat_of_eq h]; rfl
  split
  · next h => rw [ofNat_toNat_of_eq h]; rfl
  split
  · next h =>
    have hread := UUID.ofHexDigits?_hexDigits 4 c.toNat
    rw [Nat.mod_eq_of_lt (by omega)] at hread
    simp only [UUID.hexDigits, List.nil_append, List.cons_append] at hread ⊢
    rw [readChar, hread, Option.map_some, Char.ofNat_toNat]
  · next hbackslash _ _ _ _ _ _ =>
    rw [List.singleton_append, readChar.eq_3]
    · intro _ _ _ _ _ heq
      exact absurd heq hbackslash
    · intro _ _ heq
      exact absurd heq hbackslash

/-- No escaped character starts with a quote. -/
theorem head_escapeChar (c : Char) : ∃ d rest, escapeChar c = d :: rest ∧ d ≠ '"' := by
  unfold escapeChar
  repeat' split
  all_goals first
    | exact ⟨_, _, rfl, by decide⟩
    | exact ⟨_, _, rfl, by assumption⟩

theorem flatMap_escapeChar_inj {cs ds rest rest' : List Char}
    (h : cs.flatMap escapeChar ++ '"' :: rest = ds.flatMap escapeChar ++ '"' :: rest') :
    cs = ds ∧ rest = rest' := by
  have hquote (d : Char) (l m : List Char) (hd : '"' :: l = escapeChar d ++ m) : False := by
    obtain ⟨e, tail, he, hne⟩ := head_escapeChar d
    rw [he, List.cons_append] at hd
    exact hne (List.cons.inj hd).1.symm
  induction cs generalizing ds with
  | nil =>
    match ds with
    | [] => exact ⟨rfl, (List.cons.inj h).2⟩
    | d :: ds =>
      rw [List.flatMap_cons, List.append_assoc] at h
      exact (hquote d _ _ h).elim
  | cons c cs ih =>
    match ds with
    | [] =>
      rw [List.flatMap_cons, List.append_assoc] at h
      exact (hquote c _ _ h.symm).elim
    | d :: ds =>
      rw [List.flatMap_cons, List.append_assoc, List.flatMap_cons, List.append_assoc] at h
      have hread := congrArg readChar h
      rw [readChar_escapeChar, readChar_escapeChar] at hread
      obtain ⟨rfl, htail⟩ := Prod.mk.inj (Option.some.inj hread)
      obtain ⟨rfl, hrest⟩ := ih htail
      exact ⟨rfl, hrest⟩

/-- The string at the front of a text is determined by the text. -/
theorem quote_inj {s t : String} {rest rest' : List Char}
    (h : quote s ++ rest = quote t ++ rest') : s = t ∧ rest = rest' := by
  simp only [quote, List.cons_append, List.append_assoc, List.nil_append, List.cons.injEq,
    true_and] at h
  obtain ⟨hchars, hrest⟩ := flatMap_escapeChar_inj h
  exact ⟨String.toList_inj.mp hchars, hrest⟩

/-! ### Values -/

namespace Value

variable (floats : FloatText)

mutual
/-- The compact text of a value. -/
def text : Value → List Char
  | null => ['n', 'u', 'l', 'l']
  | bool true => ['t', 'r', 'u', 'e']
  | bool false => ['f', 'a', 'l', 's', 'e']
  | int i => intText i
  | float q => floats.text q
  | str s => quote s
  | arr items => '[' :: textItems true items
  | obj members => '\x7b' :: textMembers true members

/-- The items up to the closing bracket; a comma comes before each but the first. -/
def textItems : Bool → List Value → List Char
  | _, [] => [']']
  | first, item :: items => (if first then [] else [',']) ++ (text item ++ textItems false items)

/-- The members up to the closing brace. -/
def textMembers : Bool → List (String × Value) → List Char
  | _, [] => ['\x7d']
  | first, (key, item) :: members =>
    (if first then [] else [',']) ++ (quote key ++ ':' :: (text item ++ textMembers false members))
end

mutual
/-- Every integer of the value has a text. -/
def printable : Value → Bool
  | int i => digitCount i ≤ Digits.maxStrDigits
  | arr items => printableItems items
  | obj members => printableMembers members
  | _ => true

/-- The same of the items of an array. -/
def printableItems : List Value → Bool
  | [] => true
  | item :: items => printable item && printableItems items

/-- The same of the member values of an object. -/
def printableMembers : List (String × Value) → Bool
  | [] => true
  | (_, item) :: members => printable item && printableMembers members
end

theorem printableItems_iff {items : List Value} :
    printableItems items = true ↔ ∀ item ∈ items, item.printable = true := by
  induction items with
  | nil => simp [printableItems]
  | cons item items ih => rw [printableItems, Bool.and_eq_true, ih, List.forall_mem_cons]

theorem printableMembers_iff {members : List (String × Value)} :
    printableMembers members = true ↔ ∀ p ∈ members, p.2.printable = true := by
  induction members with
  | nil => simp [printableMembers]
  | cons p members ih => rw [printableMembers, Bool.and_eq_true, ih, List.forall_mem_cons]

/-- `json.dumps(value, ensure_ascii=False, separators=(",", ":"))`; `none` is a `ValueError`. -/
def dumps (v : Value) : Option (List Char) := if v.printable then some (v.text floats) else none

/-- What the first character of a text says about the value. -/
def leadKind (c : Char) : ℕ :=
  if c = 'n' then 0
  else if c = 't' then 1
  else if c = 'f' then 2
  else if c = '"' then 4
  else if c = '[' then 5
  else if c = '\x7b' then 6
  else 3

/-- The kinds of values that the first character of their texts tells apart. -/
def kind : Value → ℕ
  | null => 0
  | bool true => 1
  | bool false => 2
  | int _ => 3
  | float _ => 3
  | str _ => 4
  | arr _ => 5
  | obj _ => 6

theorem leadKind_of_isNumeral {c : Char} (h : isNumeral c = true) : leadKind c = 3 := by
  have hne (d : Char) (hd : isNumeral d = false) : c ≠ d := by
    rintro rfl
    exact absurd (h.symm.trans hd) (by decide)
  rw [leadKind, if_neg (hne _ (by decide)), if_neg (hne _ (by decide)), if_neg (hne _ (by decide)),
    if_neg (hne _ (by decide)), if_neg (hne _ (by decide)), if_neg (hne _ (by decide))]

theorem isNumeral_of_mem_intText {i : ℤ} {c : Char} (h : c ∈ intText i) : isNumeral c = true := by
  rcases mem_intText h with hc | rfl
  · rw [isNumeral, hc]
    rfl
  · rfl

/-- A nonempty text of numerals starts with one. -/
private theorem lead_numerals {l : List Char} (hne : l ≠ []) (h : ∀ c ∈ l, isNumeral c = true) :
    ∃ c rest, l = c :: rest ∧ leadKind c = 3 := by
  match l with
  | [] => exact absurd rfl hne
  | c :: rest => exact ⟨c, rest, rfl, leadKind_of_isNumeral (h c List.mem_cons_self)⟩

theorem text_lead (v : Value) : ∃ c rest, v.text floats = c :: rest ∧ leadKind c = v.kind := by
  match v with
  | null => exact ⟨_, _, by rw [text], rfl⟩
  | bool true => exact ⟨_, _, by rw [text], rfl⟩
  | bool false => exact ⟨_, _, by rw [text], rfl⟩
  | int i =>
    rw [text]
    exact lead_numerals (intText_ne_nil i) fun _ hc => isNumeral_of_mem_intText hc
  | float q =>
    rw [text]
    refine lead_numerals (fun hnil => ?_) (floats.numeral q)
    rcases floats.marked q with h | h <;> rw [hnil] at h <;> exact List.not_mem_nil h
  | str s => exact ⟨_, _, by rw [text, quote], rfl⟩
  | arr items => exact ⟨_, _, by rw [text], rfl⟩
  | obj members => exact ⟨_, _, by rw [text], rfl⟩

/-- What follows a value does not go on as a number. -/
def Stops (rest : List Char) : Prop := ∀ c ∈ rest.head?, isNumeral c = false

/-- The numerals at the front of a text are determined by the text. -/
theorem numerals_inj {l m rest rest' : List Char} (hl : ∀ c ∈ l, isNumeral c = true)
    (hm : ∀ c ∈ m, isNumeral c = true) (hrest : Stops rest) (hrest' : Stops rest')
    (h : l ++ rest = m ++ rest') : l = m ∧ rest = rest' := by
  have hspan (l rest : List Char) (hl : ∀ c ∈ l, isNumeral c = true) (hrest : Stops rest) :
      (l ++ rest).takeWhile isNumeral = l := by
    rw [List.takeWhile_append_of_pos hl]
    match rest with
    | [] => rw [List.takeWhile_nil, List.append_nil]
    | c :: rest =>
      rw [List.takeWhile_cons_of_neg, List.append_nil]
      exact Bool.not_eq_true _ ▸ hrest c rfl
  have hlm : l = m := by rw [← hspan l rest hl hrest, h, hspan m rest' hm hrest']
  subst hlm
  exact ⟨rfl, List.append_cancel_left h⟩

variable {floats} {rest rest' : List Char}

theorem stops_textItems (items : List Value) (rest : List Char) :
    Stops (textItems floats false items ++ rest) := by
  cases items with
  | nil => rintro _ ⟨⟩; rfl
  | cons item items => rintro _ ⟨⟩; rfl

theorem stops_textMembers (members : List (String × Value)) (rest : List Char) :
    Stops (textMembers floats false members ++ rest) := by
  cases members with
  | nil => rintro _ ⟨⟩; rfl
  | cons member members => rintro _ ⟨⟩; rfl

/-- Two texts that go on alike start with values of one kind. -/
theorem kind_eq_of_text {v w : Value} (h : v.text floats ++ rest = w.text floats ++ rest') :
    v.kind = w.kind := by
  obtain ⟨c, cs, hv, hc⟩ := text_lead floats v
  obtain ⟨d, ds, hw, hd⟩ := text_lead floats w
  rw [hv, hw] at h
  rw [← hc, ← hd, (List.cons.inj h).1]

/-- The first item after the opening bracket is no closing bracket. -/
theorem textItems_cons_ne {first : Bool} {item : Value} {items : List Value} :
    textItems floats first (item :: items) ++ rest ≠ ']' :: rest' := by
  obtain ⟨c, cs, hv, hc⟩ := text_lead floats item
  intro h
  rw [textItems, hv] at h
  match first with
  | false => exact absurd (List.cons.inj h).1 (by decide)
  | true =>
    have hclose : c = ']' := (List.cons.inj h).1
    subst hclose
    have hkind : item.kind = 3 := hc.symm
    have hnumeral : isNumeral ']' = true := by
      match item with
      | int i =>
        rw [text] at hv
        exact isNumeral_of_mem_intText (hv ▸ List.mem_cons_self)
      | float q =>
        rw [text] at hv
        exact floats.numeral q _ (hv ▸ List.mem_cons_self)
    exact absurd hnumeral (by decide)

theorem textMembers_cons_ne {first : Bool} {member : String × Value}
    {members : List (String × Value)} :
    textMembers floats first (member :: members) ++ rest ≠ '\x7d' :: rest' := by
  intro h
  match first with
  | false => exact absurd (List.cons.inj h).1 (by decide)
  | true => exact absurd (List.cons.inj h).1 (by decide)

mutual
/-- The value at the front of a text is determined by the text. -/
theorem text_inj : ∀ (v w : Value) {rest rest' : List Char}, Stops rest → Stops rest' →
    v.text floats ++ rest = w.text floats ++ rest' → v = w ∧ rest = rest'
  | null, w, rest, rest', _, _, h => by
    have hkind := kind_eq_of_text h
    match w with
    | null => exact ⟨rfl, List.append_cancel_left h⟩
  | bool a, w, rest, rest', _, _, h => by
    have hkind := kind_eq_of_text h
    match a, w with
    | true, bool true => exact ⟨rfl, List.append_cancel_left h⟩
    | false, bool false => exact ⟨rfl, List.append_cancel_left h⟩
  | int i, w, rest, rest', hrest, hrest', h => by
    have hkind := kind_eq_of_text h
    match w with
    | int j =>
      rw [text, text] at h
      obtain ⟨htext, heq⟩ := numerals_inj (fun _ hc => isNumeral_of_mem_intText hc)
        (fun _ hc => isNumeral_of_mem_intText hc) hrest hrest' h
      exact ⟨congrArg int (intText_injective htext), heq⟩
    | float q =>
      rw [text, text] at h
      have htext := (numerals_inj (fun _ hc => isNumeral_of_mem_intText hc) (floats.numeral q)
        hrest hrest' h).1
      exact absurd htext.symm (floats.text_ne_intText q i)
  | float p, w, rest, rest', hrest, hrest', h => by
    have hkind := kind_eq_of_text h
    match w with
    | int j =>
      rw [text, text] at h
      have htext := (numerals_inj (floats.numeral p) (fun _ hc => isNumeral_of_mem_intText hc)
        hrest hrest' h).1
      exact absurd htext (floats.text_ne_intText p j)
    | float q =>
      rw [text, text] at h
      obtain ⟨htext, heq⟩ := numerals_inj (floats.numeral p) (floats.numeral q) hrest hrest' h
      exact ⟨congrArg float (floats.injective htext), heq⟩
  | str s, w, rest, rest', _, _, h => by
    have hkind := kind_eq_of_text h
    match w with
    | str t =>
      rw [text, text] at h
      obtain ⟨rfl, heq⟩ := quote_inj h
      exact ⟨rfl, heq⟩
  | arr items, w, rest, rest', _, _, h => by
    have hkind := kind_eq_of_text h
    match w with
    | arr items' =>
      rw [text, text] at h
      obtain ⟨rfl, heq⟩ := textItems_inj true items items' (List.cons.inj h).2
      exact ⟨rfl, heq⟩
  | obj members, w, rest, rest', _, _, h => by
    have hkind := kind_eq_of_text h
    match w with
    | obj members' =>
      rw [text, text] at h
      obtain ⟨rfl, heq⟩ := textMembers_inj true members members' (List.cons.inj h).2
      exact ⟨rfl, heq⟩

theorem textItems_inj : ∀ (first : Bool) (items items' : List Value) {rest rest' : List Char},
    textItems floats first items ++ rest = textItems floats first items' ++ rest' →
      items = items' ∧ rest = rest'
  | _, [], [], _, _, h => ⟨rfl, List.append_cancel_left h⟩
  | _, [], _ :: _, _, _, h => absurd h.symm textItems_cons_ne
  | _, _ :: _, [], _, _, h => absurd h textItems_cons_ne
  | first, item :: items, item' :: items', rest, rest', h => by
    simp only [textItems, List.append_assoc] at h
    have hbody := List.append_cancel_left h
    obtain ⟨rfl, htail⟩ := text_inj item item' (stops_textItems items rest)
      (stops_textItems items' rest') hbody
    obtain ⟨rfl, heq⟩ := textItems_inj false items items' htail
    exact ⟨rfl, heq⟩

theorem textMembers_inj : ∀ (first : Bool) (members members' : List (String × Value))
    {rest rest' : List Char},
    textMembers floats first members ++ rest = textMembers floats first members' ++ rest' →
      members = members' ∧ rest = rest'
  | _, [], [], _, _, h => ⟨rfl, List.append_cancel_left h⟩
  | _, [], _ :: _, _, _, h => absurd h.symm textMembers_cons_ne
  | _, _ :: _, [], _, _, h => absurd h textMembers_cons_ne
  | first, (key, item) :: members, (key', item') :: members', rest, rest', h => by
    simp only [textMembers, List.append_assoc, List.cons_append] at h
    have hbody := List.append_cancel_left h
    obtain ⟨rfl, hvalue⟩ := quote_inj hbody
    obtain ⟨rfl, htail⟩ := text_inj item item' (stops_textMembers members rest)
      (stops_textMembers members' rest') (List.cons.inj hvalue).2
    obtain ⟨rfl, heq⟩ := textMembers_inj false members members' htail
    exact ⟨rfl, heq⟩
end

/-- The text of a value determines the value. -/
theorem text_injective : Function.Injective (text floats) := fun v w h => by
  have hstops : Stops [] := fun _ hc => nomatch hc
  exact (text_inj v w hstops hstops (by rw [h])).1

end Value

/-! ### Sizes -/

/-- The number of bytes of a text in UTF-8. -/
def utf8Length (cs : List Char) : ℕ := (cs.map Char.utf8Size).sum

@[simp] theorem utf8Length_nil : utf8Length [] = 0 := rfl

@[simp] theorem utf8Length_cons (c : Char) (cs : List Char) :
    utf8Length (c :: cs) = c.utf8Size + utf8Length cs := by
  rw [utf8Length, List.map_cons, List.sum_cons, utf8Length]

@[simp] theorem utf8Length_append (cs ds : List Char) :
    utf8Length (cs ++ ds) = utf8Length cs + utf8Length ds := by
  rw [utf8Length, List.map_append, List.sum_append, utf8Length, utf8Length]

/-- Characters of one byte each. -/
theorem utf8Length_eq_length {cs : List Char} (h : ∀ c ∈ cs, c.utf8Size = 1) :
    utf8Length cs = cs.length := by
  induction cs with
  | nil => rfl
  | cons c cs ih =>
    rw [List.forall_mem_cons] at h
    rw [utf8Length_cons, h.1, ih h.2, List.length_cons, Nat.add_comm]

theorem utf8Size_of_isNumeral {c : Char} (h : isNumeral c = true) : c.utf8Size = 1 := by
  rw [Char.utf8Size_eq_one_iff]
  simp only [isNumeral, Bool.or_eq_true, beq_iff_eq] at h
  rcases h with (((h | rfl) | rfl) | rfl) | rfl
  · have hle : c.val ≤ 57 := by
      rw [Char.isDigit, Bool.and_eq_true, decide_eq_true_eq, decide_eq_true_eq] at h
      exact h.2
    exact UInt32.le_trans hle (by decide)
  all_goals decide

/-- No escaped character is longer than `\u` and four digits. -/
theorem utf8Length_escapeChar_le (c : Char) : utf8Length (escapeChar c) ≤ 6 := by
  have hall : (UUID.hexAlphabet.all fun d => d.utf8Size == 1) = true := by decide
  have hhex (d : Char) (hd : d ∈ UUID.hexAlphabet) : d.utf8Size = 1 :=
    beq_iff_eq.mp (List.all_eq_true.mp hall d hd)
  unfold escapeChar
  split
  · decide
  split
  · decide
  split
  · decide
  split
  · decide
  split
  · decide
  split
  · decide
  split
  · decide
  split
  · have hdigits := @utf8Length_eq_length (UUID.hexDigits 4 c.toNat) fun d hd =>
      hhex d (UUID.mem_hexAlphabet_of_mem_hexDigits hd)
    rw [UUID.length_hexDigits] at hdigits
    rw [utf8Length_cons, utf8Length_cons, hdigits]
    decide
  · rw [utf8Length_cons, utf8Length_nil]
    exact (Char.utf8Size_le_four c).trans (by decide)

theorem utf8Length_quote_le (s : String) : utf8Length (quote s) ≤ 6 * s.toList.length + 2 := by
  have hbody (cs : List Char) : utf8Length (cs.flatMap escapeChar) ≤ 6 * cs.length := by
    induction cs with
    | nil => exact Nat.zero_le _
    | cons c cs ih =>
      have hc := utf8Length_escapeChar_le c
      rw [List.flatMap_cons, utf8Length_append, List.length_cons]
      omega
  have hquote : ('"').utf8Size = 1 := by decide
  have hle := hbody s.toList
  rw [quote, utf8Length_cons, utf8Length_append, utf8Length_cons, utf8Length_nil, hquote]
  omega

namespace Value

variable {floats : FloatText}

theorem utf8Length_int_le {i : ℤ} {n : ℕ} (h : digitCount i ≤ n) :
    utf8Length ((int i).text floats) ≤ n + 1 := by
  have hlen := length_intText_le i
  rw [text, utf8Length_eq_length fun _ hc => utf8Size_of_isNumeral (isNumeral_of_mem_intText hc)]
  omega

theorem utf8Length_float_le {q : ℚ} (h : FloatRange q) :
    utf8Length ((float q).text floats) ≤ 1000 := by
  rw [text, utf8Length_eq_length fun c hc => utf8Size_of_isNumeral (floats.numeral q c hc)]
  exact floats.length_le q h

/-- An array of short items is short. -/
theorem utf8Length_textItems_le {b : ℕ} {items : List Value}
    (h : ∀ item ∈ items, utf8Length (item.text floats) ≤ b) (first : Bool) :
    utf8Length (textItems floats first items) ≤ items.length * (b + 1) + 1 := by
  have hclose : (']').utf8Size = 1 := by decide
  have hcomma : (',').utf8Size = 1 := by decide
  induction items generalizing first with
  | nil => simp [textItems, hclose]
  | cons item items ih =>
    rw [List.forall_mem_cons] at h
    have htail := ih h.2 false
    have hsep : utf8Length (if first then [] else [',']) ≤ 1 := by split <;> simp [hcomma]
    rw [textItems, utf8Length_append, utf8Length_append, List.length_cons, Nat.succ_mul]
    omega

/-- An object of short keys and values is short. -/
theorem utf8Length_textMembers_le {a b : ℕ} {members : List (String × Value)}
    (h : ∀ p ∈ members, utf8Length (quote p.1) ≤ a ∧ utf8Length (p.2.text floats) ≤ b)
    (first : Bool) :
    utf8Length (textMembers floats first members) ≤ members.length * (a + b + 2) + 1 := by
  have hclose : ('\x7d').utf8Size = 1 := by decide
  have hcomma : (',').utf8Size = 1 := by decide
  have hcolon : (':').utf8Size = 1 := by decide
  induction members generalizing first with
  | nil => simp [textMembers, hclose]
  | cons p members ih =>
    obtain ⟨key, item⟩ := p
    rw [List.forall_mem_cons] at h
    obtain ⟨hkey, hitem⟩ : utf8Length (quote key) ≤ a ∧ utf8Length (item.text floats) ≤ b := h.1
    have htail := ih h.2 false
    have hsep : utf8Length (if first then [] else [',']) ≤ 1 := by split <;> simp [hcomma]
    rw [textMembers, utf8Length_append, utf8Length_append, utf8Length_cons, utf8Length_append,
      List.length_cons, Nat.succ_mul, hcolon]
    omega

end Value

end Json
