import Mathlib.Data.List.DropRight
import Mathlib.Data.List.TakeWhile
import Mathlib.Data.String.Defs

/-!
# Text predicates

The two shapes of text columns: non-blank text (something is left after `str.strip()`) and
SHA-256 digests in lowercase hexadecimal.
-/

namespace Text

/-- The characters `str.strip()` removes. -/
def isSpace (c : Char) : Bool :=
  let n := c.toNat
  (9 ≤ n && n ≤ 13) || (28 ≤ n && n ≤ 32) || n == 0x85 || n == 0xa0 || n == 0x1680 ||
    (0x2000 ≤ n && n ≤ 0x200a) || n == 0x2028 || n == 0x2029 || n == 0x202f || n == 0x205f ||
    n == 0x3000

/-- `bool(s.strip())`: some character is not white space. -/
def nonBlank (s : String) : Bool := s.toList.any fun c => !isSpace c

/-- `str.strip()`. -/
def strip (s : String) : String :=
  String.ofList ((s.toList.dropWhile isSpace).reverse.dropWhile isSpace).reverse

theorem length_strip_le (s : String) : (strip s).toList.length ≤ s.toList.length := by
  rw [strip, String.toList_ofList, List.length_reverse]
  have houter := (List.dropWhile_suffix isSpace (l := (s.toList.dropWhile isSpace).reverse)).length_le
  rw [List.length_reverse] at houter
  exact Nat.le_trans houter (List.dropWhile_suffix isSpace).length_le

/-- Text that `str.strip()` does not shorten is not changed. -/
theorem strip_eq_of_length {s : String} (h : (strip s).toList.length = s.toList.length) :
    strip s = s := by
  rw [strip, String.toList_ofList, List.length_reverse] at h
  have houter := List.dropWhile_suffix isSpace (l := (s.toList.dropWhile isSpace).reverse)
  have hinner := List.dropWhile_suffix (l := s.toList) isSpace
  have hlen := houter.length_le
  rw [List.length_reverse] at hlen
  have hdrop := hinner.eq_of_length (Nat.le_antisymm hinner.length_le (h ▸ hlen))
  rw [strip, houter.eq_of_length (by rw [h, List.length_reverse, hdrop]), List.reverse_reverse,
    hdrop, String.ofList_toList]

theorem nonBlank_of_strip_ne_empty {s : String} (h : strip s ≠ "") : nonBlank s = true := by
  cases hblank : nonBlank s with
  | true => rfl
  | false =>
    have hall : ∀ c ∈ s.toList, isSpace c = true := fun c hc => by
      have hspace := List.any_eq_false.mp hblank c hc
      rwa [Bool.not_eq_true, Bool.not_eq_false'] at hspace
    refine absurd ?_ h
    rw [strip, List.dropWhile_eq_nil_iff.mpr hall]
    rfl

/-- Stripped text starts with a character that is not white space. -/
theorem head_strip {s : String} {c : Char} {cs : List Char} (h : (strip s).toList = c :: cs) :
    isSpace c = false := by
  rw [strip, String.toList_ofList] at h
  -- the second pass only removes a suffix of what the first one left
  have hprefix : (c :: cs) <+: s.toList.dropWhile isSpace := by
    rw [← h, ← List.reverse_suffix, List.reverse_reverse]
    exact List.dropWhile_suffix isSpace
  obtain ⟨rest, hrest⟩ := hprefix
  have hhead := List.head?_dropWhile_not isSpace s.toList
  rw [← hrest, List.cons_append, List.head?_cons] at hhead
  simpa using hhead

theorem nonBlank_take_strip {s : String} {n : ℕ} (hn : 0 < n) (h : strip s ≠ "") :
    nonBlank (String.ofList ((strip s).toList.take n)) = true := by
  obtain ⟨c, cs, hcs⟩ : ∃ c cs, (strip s).toList = c :: cs := by
    rw [← List.ne_nil_iff_exists_cons, ne_eq, String.toList_eq_nil_iff]
    exact h
  obtain ⟨m, rfl⟩ := Nat.exists_eq_add_one_of_ne_zero hn.ne'
  rw [nonBlank, String.toList_ofList, hcs, List.take_succ_cons, List.any_cons, head_strip hcs]
  rfl

theorem nonBlank_strip {s : String} (h : strip s ≠ "") : nonBlank (strip s) = true := by
  obtain ⟨c, cs, hcs⟩ : ∃ c cs, (strip s).toList = c :: cs := by
    rw [← List.ne_nil_iff_exists_cons, ne_eq, String.toList_eq_nil_iff]
    exact h
  rw [nonBlank, hcs, List.any_cons, head_strip hcs]
  rfl

/-- Non-blank text does not strip to nothing. -/
theorem strip_ne_empty_of_nonBlank {s : String} (h : nonBlank s = true) : strip s ≠ "" := by
  intro hstrip
  rw [strip, ← String.toList_eq_nil_iff, String.toList_ofList, List.reverse_eq_nil_iff,
    List.dropWhile_eq_nil_iff] at hstrip
  obtain ⟨c, hc, hspace⟩ := List.any_eq_true.mp h
  rcases hdrop : s.toList.dropWhile isSpace with _ | ⟨d, ds⟩
  · rw [List.dropWhile_eq_nil_iff.mp hdrop c hc] at hspace
    cases hspace
  · have hhead := List.head?_dropWhile_not isSpace s.toList
    rw [hdrop, List.head?_cons] at hhead
    have hd := hstrip d (List.mem_reverse.mpr (hdrop ▸ List.mem_cons_self))
    simp [hd] at hhead

/-- Stripping twice changes nothing more. -/
theorem strip_strip (s : String) : strip (strip s) = strip s := by
  have hhead : (strip s).toList.dropWhile isSpace = (strip s).toList := by
    cases hs : (strip s).toList with
    | nil => rfl
    | cons c cs => exact List.dropWhile_cons_of_neg (by rw [head_strip hs]; exact nofun)
  have hlast : (strip s).toList.reverse.dropWhile isSpace = (strip s).toList.reverse := by
    rw [strip, String.toList_ofList, List.reverse_reverse]
    exact List.dropWhile_idempotent isSpace _
  have htwice : strip (strip s) = String.ofList
      (((strip s).toList.dropWhile isSpace).reverse.dropWhile isSpace).reverse := rfl
  rw [htwice, hhead, hlast, List.reverse_reverse, String.ofList_toList]

theorem dropWhile_isSpace_flatMap {f : Char → List Char}
    (hspace : ∀ c, isSpace c = true → f c = [c])
    (hother : ∀ c, isSpace c = false → f c ≠ [] ∧ ∀ d ∈ f c, isSpace d = false)
    (l : List Char) : (l.flatMap f).dropWhile isSpace = (l.dropWhile isSpace).flatMap f := by
  induction l with
  | nil => rfl
  | cons c l ih =>
    rw [List.flatMap_cons]
    cases hc : isSpace c with
    | true =>
      rw [hspace c hc, List.singleton_append, List.dropWhile_cons_of_pos hc,
        List.dropWhile_cons_of_pos hc, ih]
    | false =>
      obtain ⟨hne, hfold⟩ := hother c hc
      obtain ⟨d, ds, hd⟩ := List.exists_cons_of_ne_nil hne
      have hdSpace : ¬isSpace d = true := by
        rw [hfold d (hd ▸ List.mem_cons_self)]
        exact nofun
      rw [List.dropWhile_cons_of_neg (by rw [hc]; exact nofun), List.flatMap_cons, hd,
        List.cons_append, List.dropWhile_cons_of_neg hdSpace]

/-- A change of single characters that neither removes nor makes white space commutes with
stripping. -/
theorem strip_flatMap {f : Char → List Char} (hspace : ∀ c, isSpace c = true → f c = [c])
    (hother : ∀ c, isSpace c = false → f c ≠ [] ∧ ∀ d ∈ f c, isSpace d = false) (s : String) :
    strip (String.ofList (s.toList.flatMap f)) =
      String.ofList ((strip s).toList.flatMap f) := by
  have hspace' : ∀ c, isSpace c = true → (f c).reverse = [c] := fun c hc => by
    rw [hspace c hc]
    rfl
  have hother' : ∀ c, isSpace c = false →
      (f c).reverse ≠ [] ∧ ∀ d ∈ (f c).reverse, isSpace d = false := fun c hc =>
    ⟨fun h => (hother c hc).1 (List.reverse_eq_nil_iff.mp h),
      fun d hd => (hother c hc).2 d (List.mem_reverse.mp hd)⟩
  rw [strip, String.toList_ofList, dropWhile_isSpace_flatMap hspace hother, List.reverse_flatMap,
    Function.comp_def, dropWhile_isSpace_flatMap hspace' hother', strip, String.toList_ofList,
    List.reverse_flatMap, Function.comp_def]
  simp only [List.reverse_reverse]

/-- Non-blank text is not empty. -/
theorem ne_empty_of_nonBlank {s : String} (h : nonBlank s = true) : s ≠ "" := by
  rintro rfl
  exact absurd h (by decide)

/-- A digit of a lowercase hexadecimal digest. -/
def isLowerHex (c : Char) : Bool := "0123456789abcdef".toList.contains c

theorem isLowerHex_a : isLowerHex 'a' = true := by decide

/-- `^[0-9a-f]{64}$`. -/
def isSha256Hex (s : String) : Bool := s.toList.length == 64 && s.toList.all isLowerHex

/-- A digest is not empty. -/
theorem ne_empty_of_isSha256Hex {s : String} (h : isSha256Hex s = true) : s ≠ "" := by
  rintro rfl
  exact absurd h (by decide)

end Text

/-- A SHA-256 digest in lowercase hexadecimal. -/
structure Sha256Hex where
  val : String
  isHex : Text.isSha256Hex val = true
deriving DecidableEq

namespace Sha256Hex

@[ext]
protected theorem ext {a b : Sha256Hex} (h : a.val = b.val) : a = b := by
  cases a
  cases b
  simpa using h

/-- The digest that repeats one hexadecimal digit. -/
def replicate (c : Char) (h : Text.isLowerHex c = true) : Sha256Hex where
  val := String.ofList (List.replicate 64 c)
  isHex := by simp [Text.isSha256Hex, h]

end Sha256Hex
