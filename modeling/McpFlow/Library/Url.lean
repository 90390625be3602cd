import Mathlib.Algebra.GroupWithZero.Nat
import Mathlib.Algebra.Order.Group.Nat
import Mathlib.Data.List.Basic
import Mathlib.Data.List.TakeWhile

/-!
# URLs and relative references

`urlparse` and `urljoin` on character lists, and the removal of dot segments. A joined URL is kept in
its components. The path of a joined URL is never longer than the two paths it comes from, and as long
only when nothing was dropped on the way; so a join that drops nothing is a concatenation, and every
other one is seen by its length.
-/

namespace Url

/-- The components of a reference. -/
structure Parts where
  scheme : List Char
  netloc : List Char
  path : List Char
  params : List Char
  query : List Char
  fragment : List Char

/-! ### Parsing -/

/-- The characters that are removed in front of a URL. -/
def isControlOrSpace (c : Char) : Bool := c.toNat ≤ 32

/-- The characters that are removed everywhere. -/
def isUnsafe (c : Char) : Bool := c == '\t' || c == '\r' || c == '\n'

/-- A URL without the characters that are removed. -/
def clean (url : List Char) : List Char :=
  (url.dropWhile isControlOrSpace).filter fun c => !isUnsafe c

/-- The characters of a scheme. -/
def isSchemeChar (c : Char) : Bool := c.isAlphanum || c == '+' || c == '-' || c == '.'

/-- The part before the first separator, and the part behind it. -/
def cutAt (sep : Char) (url : List Char) : List Char × List Char :=
  (url.takeWhile (· != sep), (url.dropWhile (· != sep)).drop 1)

/-- The scheme of a URL that has one, and what follows it. -/
def splitScheme (url : List Char) : Option (List Char × List Char) :=
  match url.takeWhile (· != ':'), url.dropWhile (· != ':') with
  | c :: cs, _ :: rest =>
    if c.isAlpha && (c :: cs).all isSchemeChar then some ((c :: cs).map Char.toLower, rest) else none
  | _, _ => none

/-- The characters that end a network location. -/
def endsNetloc (c : Char) : Bool := c == '/' || c == '?' || c == '#'

/-- The network location of a URL that has one, and what follows it. -/
def splitNetloc : List Char → List Char × List Char
  | '/' :: '/' :: rest =>
    (rest.takeWhile fun c => !endsNetloc c, rest.dropWhile fun c => !endsNetloc c)
  | url => ([], url)

/-- The last segment of a path. -/
def lastSegment (path : List Char) : List Char := (path.reverse.takeWhile (· != '/')).reverse

/-- The path without the parameters of its last segment, and the parameters. -/
def splitParams (path : List Char) : List Char × List Char :=
  let last := lastSegment path
  (path.take (path.length - last.length) ++ (cutAt ';' last).1, (cutAt ';' last).2)

/-- The path with its parameters. -/
def joinParams (path params : List Char) : List Char :=
  if params = [] then path else path ++ ';' :: params

/-- `urlparse`, for a scheme that has parameters. -/
def urlparse (scheme url : List Char) : Parts :=
  let url := clean url
  let (scheme, url) := (splitScheme url).getD (scheme, url)
  let (netloc, url) := splitNetloc url
  let (url, fragment) := cutAt '#' url
  let (url, query) := cutAt '?' url
  let (path, params) := splitParams url
  { scheme := scheme
    netloc := netloc
    path := path
    params := params
    query := query
    fragment := fragment }

/-! ### Dot segments -/

/-- One segment of a path is resolved. -/
def resolveSegment (acc : List (List Char)) (segment : List Char) : List (List Char) :=
  if segment = ['.', '.'] then acc.dropLast
  else if segment = ['.'] then acc
  else acc ++ [segment]

/-- A segment that names a directory. -/
def isDot (segment : List Char) : Bool := segment == ['.'] || segment == ['.', '.']

/-- The segments without the dot segments; a path that ends in one ends in a slash. -/
def dropDots (segments : List (List Char)) : List (List Char) :=
  segments.foldl resolveSegment [] ++ if segments.getLast?.any isDot then [[]] else []

/-- The segments of a path. -/
def segments (path : List Char) : List (List Char) := path.splitOn '/'

/-- The path of some segments. -/
def ofSegments (segs : List (List Char)) : List Char := ['/'].intercalate segs

/-- The removal of dot segments from an absolute path, whose root stays. -/
def removeDotSegments (path : List Char) : List Char :=
  match path with
  | '/' :: rest => '/' :: ofSegments (dropDots (segments rest))
  | path => path

/-! ### Joining -/

/-- The empty segments inside a path are dropped. -/
def filterMiddle (segs : List (List Char)) : List (List Char) :=
  match segs with
  | [] => []
  | first :: rest =>
    first :: (rest.dropLast.filter (· ≠ []) ++ rest.getLast?.toList)

/-- The segments of the directory of a path. -/
def directory (path : List Char) : List (List Char) :=
  let segs := segments path
  if segs.getLast? = some [] then segs else segs.dropLast

/-- A path behind a network location starts with a slash. -/
def rooted (path : List Char) : List Char :=
  match path with
  | [] => ['/']
  | '/' :: rest => '/' :: rest
  | path => '/' :: path

/-- The path of a relative reference with a path. -/
def joinPath (base path : List Char) : List Char :=
  let segs :=
    if path.head? = some '/' then segments path else filterMiddle (directory base ++ segments path)
  rooted (ofSegments (dropDots segs))

/-- `urljoin` with a base of scheme http or https. -/
def urljoin (base : Parts) (url : List Char) : Parts :=
  if url = [] then base
  else
    let parts := urlparse base.scheme url
    if parts.scheme ≠ base.scheme then parts
    else if parts.netloc ≠ [] then parts
    else if parts.path = [] ∧ parts.params = [] then
      { base with
        query := if parts.query = [] then base.query else parts.query
        fragment := parts.fragment }
    else { parts with netloc := base.netloc, path := joinPath base.path parts.path }

/-- The path of a URL, with its parameters. -/
def Parts.fullPath (parts : Parts) : List Char := joinParams parts.path parts.params

/-! ### Sizes

The size of a list of segments counts each with the slash before it. -/

variable {segs : List (List Char)} {path url a b : List Char}

/-- The characters of the segments, each with a slash. -/
def size (segs : List (List Char)) : ℕ := (segs.map fun s => s.length + 1).sum

@[simp] theorem size_nil : size [] = 0 := rfl

@[simp] theorem size_cons (s : List Char) (segs : List (List Char)) :
    size (s :: segs) = s.length + 1 + size segs := by
  rw [size, List.map_cons, List.sum_cons]
  rfl

@[simp] theorem size_append (as bs : List (List Char)) : size (as ++ bs) = size as + size bs := by
  rw [size, List.map_append, List.sum_append]
  rfl

theorem length_ofSegments (h : segs ≠ []) : (ofSegments segs).length + 1 = size segs := by
  induction segs with
  | nil => exact absurd rfl h
  | cons s segs ih =>
    cases segs with
    | nil => simp [ofSegments]
    | cons t segs =>
      have := ih (List.cons_ne_nil t segs)
      rw [ofSegments, List.intercalate_cons_cons, size_cons]
      rw [ofSegments] at this
      simp only [List.length_append, List.length_cons, List.length_nil]
      omega

theorem segments_ne_nil (path : List Char) : segments path ≠ [] := List.splitOn_ne_nil _ _

theorem ofSegments_segments (path : List Char) : ofSegments (segments path) = path :=
  List.intercalate_splitOn _

theorem size_segments (path : List Char) : size (segments path) = path.length + 1 := by
  rw [← length_ofSegments (segments_ne_nil path), ofSegments_segments]

theorem segments_append_slash (a b : List Char) :
    segments (a ++ '/' :: b) = segments a ++ segments b :=
  List.splitOn_append_cons_self _ _

theorem size_dropLast_le (segs : List (List Char)) : size segs.dropLast ≤ size segs := by
  induction segs with
  | nil => exact Nat.le_refl _
  | cons s segs ih =>
    cases segs with
    | nil => simp
    | cons t segs =>
      rw [List.dropLast_cons_cons, size_cons, size_cons s]
      omega

/-- What the dot segments of a list cost at least. -/
def dotSize (segs : List (List Char)) : ℕ :=
  (segs.map fun s => if s = ['.', '.'] then 3 else if s = ['.'] then 2 else 0).sum

theorem size_foldl_resolveSegment (acc segs : List (List Char)) :
    size (segs.foldl resolveSegment acc) + dotSize segs ≤ size acc + size segs := by
  induction segs generalizing acc with
  | nil => simp [dotSize]
  | cons s segs ih =>
    have hstep := ih (resolveSegment acc s)
    have hdot : dotSize (s :: segs) =
        (if s = ['.', '.'] then 3 else if s = ['.'] then 2 else 0) + dotSize segs := by
      rw [dotSize, List.map_cons, List.sum_cons]
      rfl
    rw [List.foldl_cons, hdot, size_cons]
    have hsize : size (resolveSegment acc s) +
        (if s = ['.', '.'] then 3 else if s = ['.'] then 2 else 0) ≤ size acc + (s.length + 1) := by
      rw [resolveSegment]
      split
      · case isTrue h =>
        have := size_dropLast_le acc
        rw [h, List.length_cons, List.length_cons, List.length_nil]
        omega
      · split
        · case isTrue h =>
          rw [h, List.length_cons, List.length_nil]
        · rw [size_append, size_cons, size_nil]
          omega
    omega

/-- Without dot segments nothing is resolved. -/
theorem foldl_resolveSegment_eq (acc : List (List Char)) (h : ∀ s ∈ segs, isDot s = false) :
    segs.foldl resolveSegment acc = acc ++ segs := by
  induction segs generalizing acc with
  | nil => rw [List.foldl_nil, List.append_nil]
  | cons s segs ih =>
    have hs := h s List.mem_cons_self
    simp only [isDot, Bool.or_eq_false_iff, beq_eq_false_iff_ne] at hs
    rw [List.foldl_cons, ih _ fun t ht => h t (List.mem_cons_of_mem s ht), resolveSegment,
      if_neg hs.2, if_neg hs.1, List.append_assoc, List.singleton_append]

theorem dropDots_eq_self (h : ∀ s ∈ segs, isDot s = false) : dropDots segs = segs := by
  have hlast : segs.getLast?.any isDot = false := by
    rw [Option.any_eq_false]
    exact fun s hs => Bool.not_eq_true _ ▸ h s (List.mem_of_getLast? hs)
  rw [dropDots, foldl_resolveSegment_eq [] h, hlast, List.nil_append, if_neg Bool.false_ne_true,
    List.append_nil]

theorem two_le_dotSize {s : List Char} (hs : s ∈ segs) (hdot : isDot s = true) :
    2 ≤ dotSize segs := by
  induction segs with
  | nil => cases hs
  | cons t segs ih =>
    rw [dotSize, List.map_cons, List.sum_cons]
    rcases List.mem_cons.mp hs with rfl | hs
    · simp only [isDot, Bool.or_eq_true, beq_iff_eq] at hdot
      rcases hdot with rfl | rfl
      · exact Nat.le_add_right 2 _
      · exact Nat.le_add_right_of_le (by decide)
    · exact (ih hs).trans (Nat.le_add_left _ _)

theorem size_dropDots_le (segs : List (List Char)) : size (dropDots segs) ≤ size segs := by
  have hfold := size_foldl_resolveSegment [] segs
  rw [size_nil, Nat.zero_add] at hfold
  rw [dropDots, size_append]
  split
  · case isTrue h =>
    obtain ⟨s, hs, hdot⟩ := (Option.any_eq_true _ _).mp h
    have := two_le_dotSize (List.mem_of_getLast? hs) hdot
    rw [size_cons, size_nil, List.length_nil]
    omega
  · rw [size_nil]
    omega

/-- A dot segment makes the path shorter. -/
theorem size_dropDots_lt {s : List Char} (hs : s ∈ segs) (hdot : isDot s = true) :
    size (dropDots segs) < size segs := by
  have hfold := size_foldl_resolveSegment [] segs
  have htwo := two_le_dotSize hs hdot
  rw [size_nil, Nat.zero_add] at hfold
  rw [dropDots, size_append]
  split
  · rw [size_cons, size_nil, List.length_nil]
    omega
  · rw [size_nil]
    omega

/-! ### Rooted paths -/

theorem length_lt_size {s : List Char} (hs : s ∈ segs) : s.length < size segs := by
  induction segs with
  | nil => cases hs
  | cons t segs ih =>
    rw [size_cons]
    rcases List.mem_cons.mp hs with rfl | hs
    · omega
    · have := ih hs
      omega

theorem three_le_dotSize (hs : ['.', '.'] ∈ segs) : 3 ≤ dotSize segs := by
  induction segs with
  | nil => cases hs
  | cons t segs ih =>
    rw [dotSize, List.map_cons, List.sum_cons]
    rcases List.mem_cons.mp hs with rfl | hs
    · exact Nat.le_add_right 3 _
    · exact (ih hs).trans (Nat.le_add_left _ _)

/-- Only a segment of two dots removes the root. -/
theorem head?_foldl_resolveSegment {acc : List (List Char)} (hacc : acc.head? = some [])
    (h : ['.', '.'] ∉ segs) : (segs.foldl resolveSegment acc).head? = some [] := by
  induction segs generalizing acc with
  | nil => exact hacc
  | cons s segs ih =>
    rw [List.mem_cons, not_or] at h
    refine ih ?_ h.2
    rw [resolveSegment, if_neg (Ne.symm h.1)]
    split
    · exact hacc
    · rw [List.head?_append, hacc]
      rfl

theorem rooted_ofSegments_cons {rest : List (List Char)} (h : rest ≠ []) :
    rooted (ofSegments ([] :: rest)) = ofSegments ([] :: rest) := by
  obtain ⟨s, rest, rfl⟩ := List.exists_cons_of_ne_nil h
  rw [ofSegments, List.intercalate_cons_cons, List.nil_append, List.singleton_append, rooted]

theorem length_rooted_le (path : List Char) : (rooted path).length ≤ path.length + 1 := by
  rw [rooted.eq_def]
  split <;> simp

/-- Dot segments make a rooted path shorter, with the slash that may have to be put back. -/
theorem length_rooted_lt {rest : List (List Char)} {s : List Char} (hs : s ∈ [] :: rest)
    (hdot : isDot s = true) :
    (rooted (ofSegments (dropDots ([] :: rest)))).length + 1 < size ([] :: rest) := by
  have htwo := two_le_dotSize hs hdot
  have hfold := size_foldl_resolveSegment [] ([] :: rest)
  have hlt := size_dropDots_lt hs hdot
  have hrooted := length_rooted_le (ofSegments (dropDots ([] :: rest)))
  have hthree : 2 < size ([] :: rest) := by
    have hmem : s ∈ rest := (List.mem_cons.mp hs).resolve_left fun h => by
      rw [h] at hdot
      cases hdot
    have hlt := length_lt_size hmem
    have hpos : 0 < s.length := List.length_pos_of_ne_nil fun h => by
      rw [h] at hdot
      cases hdot
    rw [size_cons, List.length_nil]
    omega
  rw [size_nil, Nat.zero_add] at hfold
  cases hsegs : dropDots ([] :: rest) with
  | nil =>
    exact hthree
  | cons first tail =>
    rw [hsegs] at hrooted hlt
    have hlength := length_ofSegments (List.cons_ne_nil first tail)
    by_cases hroot : first = []
    · subst hroot
      cases tail with
      | nil =>
        exact hthree
      | cons t tail =>
        rw [rooted_ofSegments_cons (List.cons_ne_nil t tail)]
        omega
    · -- the root is gone, so there were two dots somewhere
      have hup : ['.', '.'] ∈ [] :: rest := by
        by_contra hnone
        have hhead := @head?_foldl_resolveSegment rest [[]] rfl
          (fun hin => hnone (List.mem_cons_of_mem [] hin))
        have hfirst : (dropDots ([] :: rest)).head? = some [] := by
          rw [dropDots, List.foldl_cons, List.head?_append]
          change ((rest.foldl resolveSegment [[]]).head?.or _) = _
          rw [hhead]
          rfl
        rw [hsegs] at hfirst
        exact hroot (Option.some.inj hfirst)
      have hdots := three_le_dotSize hup
      have hsize : size (dropDots ([] :: rest)) + 2 ≤ size ([] :: rest) := by
        rw [dropDots, size_append]
        split
        · rw [size_cons, size_nil, List.length_nil]
          omega
        · rw [size_nil]
          omega
      rw [hsegs] at hsize
      omega

theorem length_rooted_add_one_le {rest : List (List Char)} (h : rest ≠ []) :
    (rooted (ofSegments (dropDots ([] :: rest)))).length + 1 ≤ size ([] :: rest) := by
  by_cases hdot : ∃ s ∈ [] :: rest, isDot s = true
  · obtain ⟨s, hs, hdot⟩ := hdot
    exact Nat.le_of_lt (length_rooted_lt hs hdot)
  · have hnone : ∀ s ∈ [] :: rest, isDot s = false := fun s hs =>
      Bool.eq_false_iff.mpr fun hd => hdot ⟨s, hs, hd⟩
    rw [dropDots_eq_self hnone, rooted_ofSegments_cons h]
    exact Nat.le_of_eq (length_ofSegments (List.cons_ne_nil _ _))

/-- Dot segments are all that is removed. -/
theorem removeDotSegments_of_noDots {rest : List Char}
    (h : ∀ s ∈ segments rest, isDot s = false) :
    removeDotSegments ('/' :: rest) = '/' :: rest := by
  rw [removeDotSegments, dropDots_eq_self h, ofSegments_segments]

theorem dropDots_ne_nil_or (segs : List (List Char)) :
    (ofSegments (dropDots segs)).length ≤ size (dropDots segs) := by
  cases hsegs : dropDots segs with
  | nil => exact Nat.zero_le _
  | cons first tail =>
    have := length_ofSegments (List.cons_ne_nil first tail)
    omega

theorem length_removeDotSegments_le (path : List Char) :
    (removeDotSegments path).length ≤ path.length := by
  rw [removeDotSegments.eq_def]
  split
  · case h_1 rest =>
    have hsize := size_dropDots_le (segments rest)
    rw [size_segments] at hsize
    rw [List.length_cons, List.length_cons]
    cases hsegs : dropDots (segments rest) with
    | nil => exact Nat.succ_le_succ (Nat.zero_le _)
    | cons first tail =>
      have := length_ofSegments (List.cons_ne_nil first tail)
      rw [hsegs] at hsize
      omega
  · exact Nat.le_refl _

/-- A path that keeps its length has no dot segments. -/
theorem noDots_of_length_removeDotSegments {rest : List Char}
    (h : rest.length + 1 ≤ (removeDotSegments ('/' :: rest)).length) :
    ∀ s ∈ segments rest, isDot s = false := by
  intro s hs
  rw [Bool.eq_false_iff]
  intro hdot
  have hsize := size_dropDots_lt hs hdot
  rw [size_segments] at hsize
  rw [removeDotSegments, List.length_cons] at h
  cases hsegs : dropDots (segments rest) with
  | nil =>
    rw [hsegs] at h hsize
    have hlen := Nat.le_of_succ_le_succ h
    have hrest : rest = [] := List.eq_nil_of_length_eq_zero (Nat.le_zero.mp hlen)
    subst hrest
    simp only [segments, List.splitOn_nil, List.mem_singleton] at hs
    subst hs
    cases hdot
  | cons first tail =>
    have := length_ofSegments (List.cons_ne_nil first tail)
    rw [hsegs] at h hsize
    omega

/-! ### Joined paths -/

theorem size_filter_le (segs : List (List Char)) : size (segs.filter (· ≠ [])) ≤ size segs := by
  induction segs with
  | nil => exact Nat.le_refl _
  | cons s segs ih =>
    rw [List.filter_cons]
    split
    · rw [size_cons, size_cons]
      omega
    · rw [size_cons]
      omega

theorem size_filter_lt (h : [] ∈ segs) : size (segs.filter (· ≠ [])) < size segs := by
  induction segs with
  | nil => cases h
  | cons s segs ih =>
    rw [List.filter_cons, size_cons]
    rcases List.mem_cons.mp h with rfl | h
    · have := size_filter_le segs
      rw [if_neg (by simp)]
      omega
    · have := ih h
      split
      · rw [size_cons]
        omega
      · omega

theorem directory_slash (a : List Char) : directory (a ++ ['/']) = segments a ++ [[]] := by
  have hsegs : segments (a ++ ['/']) = segments a ++ [[]] := segments_append_slash a []
  rw [directory, hsegs, if_pos List.getLast?_concat]

/-- The segments of a join: the root, then what is not empty of the two paths, then the last one. -/
theorem filterMiddle_eq {bs ps : List (List Char)} {last : List Char} :
    filterMiddle ([] :: bs ++ [[]] ++ (ps ++ [last])) =
      [] :: (bs.filter (· ≠ []) ++ ps.filter (· ≠ []) ++ [last]) := by
  have hrest : bs ++ [[]] ++ (ps ++ [last]) = (bs ++ [[]] ++ ps) ++ [last] := by
    rw [List.append_assoc (bs ++ [[]])]
  rw [List.cons_append, List.cons_append, filterMiddle, hrest, List.dropLast_concat,
    List.getLast?_concat, List.filter_append, List.filter_append]
  simp

/-- A path whose segments are all kept. -/
def Kept (base path : List Char) : Prop :=
  (∀ s ∈ (segments base).tail, s ≠ [] ∧ isDot s = false) ∧
    (∀ s ∈ (segments path).dropLast, s ≠ []) ∧ ∀ s ∈ segments path, isDot s = false

theorem segments_cases (path : List Char) : ∃ ps last, segments path = ps ++ [last] :=
  ⟨_, _, (List.dropLast_append_getLast (segments_ne_nil path)).symm⟩

/-- The root of an absolute path, or of an empty one, is an empty segment. -/
theorem segments_root (h : a = [] ∨ a.head? = some '/') : ∃ bs, segments a = [] :: bs := by
  rcases h with rfl | h
  · exact ⟨[], rfl⟩
  · cases a with
    | nil => cases h
    | cons c cs =>
      obtain rfl := Option.some.inj h
      exact ⟨segments cs, segments_append_slash [] cs⟩

/-- A join is no longer than the concatenation, and as long only when it is the concatenation of
paths whose segments are all kept. -/
theorem joinPath_spec (hbase : a = [] ∨ a.head? = some '/') (hpath : path.head? ≠ some '/') :
    (joinPath (a ++ ['/']) path).length ≤ a.length + 1 + path.length ∧
      (a.length + 1 + path.length ≤ (joinPath (a ++ ['/']) path).length → Kept a path) ∧
      (Kept a path → joinPath (a ++ ['/']) path = a ++ '/' :: path) := by
  obtain ⟨bs, hbs⟩ := segments_root hbase
  obtain ⟨ps, last, hps⟩ := segments_cases path
  have hjoin : joinPath (a ++ ['/']) path = rooted (ofSegments (dropDots
      ([] :: (bs.filter (· ≠ []) ++ ps.filter (· ≠ []) ++ [last])))) := by
    rw [joinPath, if_neg hpath, directory_slash, hbs, hps, filterMiddle_eq]
  have hsizes : size (segments a) = a.length + 1 ∧ size (segments path) = path.length + 1 :=
    ⟨size_segments a, size_segments path⟩
  rw [hbs, hps, size_cons, size_append, size_cons, size_nil, List.length_nil] at hsizes
  have hfilterBase := size_filter_le bs
  have hfilterPath := size_filter_le ps
  have hle := @length_rooted_add_one_le
    (bs.filter (· ≠ []) ++ ps.filter (· ≠ []) ++ [last]) (by simp)
  have hsize : size ([] :: (bs.filter (· ≠ []) ++ ps.filter (· ≠ []) ++ [last])) =
      1 + (size (bs.filter (· ≠ [])) + size (ps.filter (· ≠ [])) + (last.length + 1)) := by
    rw [size_cons, size_append, size_append, size_cons, size_nil, List.length_nil]
  rw [hjoin]
  refine ⟨by omega, fun hlong => ?_, fun hkept => ?_⟩
  · -- nothing was dropped, since everything that is dropped has a size
    have hnoEmptyBase : [] ∉ bs := fun hin => by
      have := size_filter_lt hin
      omega
    have hnoEmptyPath : [] ∉ ps := fun hin => by
      have := size_filter_lt hin
      omega
    have hnoDot : ∀ s ∈ [] :: (bs.filter (· ≠ []) ++ ps.filter (· ≠ []) ++ [last]),
        isDot s = false := by
      intro s hs
      rw [Bool.eq_false_iff]
      intro hdot
      have := length_rooted_lt hs hdot
      omega
    refine ⟨fun s hs => ?_, fun s hs => ?_, fun s hs => ?_⟩
    · rw [hbs] at hs
      have hne : s ≠ [] := fun h => hnoEmptyBase (h ▸ hs)
      refine ⟨hne, hnoDot s (List.mem_cons_of_mem _ (List.mem_append_left _
        (List.mem_append_left _ (List.mem_filter.mpr ⟨hs, decide_eq_true hne⟩))))⟩
    · rw [hps, List.dropLast_concat] at hs
      exact fun h => hnoEmptyPath (h ▸ hs)
    · rw [hps] at hs
      rcases List.mem_append.mp hs with hs | hs
      · have hne : s ≠ [] := fun h => hnoEmptyPath (h ▸ hs)
        exact hnoDot s (List.mem_cons_of_mem _ (List.mem_append_left _
          (List.mem_append_right _ (List.mem_filter.mpr ⟨hs, decide_eq_true hne⟩))))
      · exact hnoDot s (List.mem_cons_of_mem _ (List.mem_append_right _ hs))
  · obtain ⟨hbase', hpath', hdots⟩ := hkept
    rw [hbs] at hbase'
    rw [hps, List.dropLast_concat] at hpath'
    rw [hps] at hdots
    have hkeepBase : bs.filter (· ≠ []) = bs :=
      List.filter_eq_self.mpr fun s hs => decide_eq_true (hbase' s hs).1
    have hkeepPath : ps.filter (· ≠ []) = ps :=
      List.filter_eq_self.mpr fun s hs => decide_eq_true (hpath' s hs)
    have hall : [] :: (bs ++ ps ++ [last]) = segments (a ++ '/' :: path) := by
      rw [segments_append_slash, hbs, hps, List.cons_append, List.append_assoc]
    have hnoDot : ∀ s ∈ [] :: (bs ++ ps ++ [last]), isDot s = false := by
      intro s hs
      rw [List.append_assoc, List.mem_cons, List.mem_append] at hs
      rcases hs with rfl | hs | hs
      · rfl
      · exact (hbase' s hs).2
      · exact hdots s hs
    rw [hkeepBase, hkeepPath, dropDots_eq_self hnoDot, rooted_ofSegments_cons (by simp), hall,
      ofSegments_segments]

/-- A join with an absolute path is no longer than that path. -/
theorem length_joinPath_absolute (hpath : path.head? = some '/') :
    (joinPath a path).length ≤ path.length := by
  cases path with
  | nil => cases hpath
  | cons c cs =>
    obtain rfl := Option.some.inj hpath
    have hsegs : segments ('/' :: cs) = [] :: segments cs := segments_append_slash [] cs
    have hle := length_rooted_add_one_le (segments_ne_nil cs)
    rw [joinPath, if_pos hpath, hsegs]
    rw [size_cons, size_segments] at hle
    rw [List.length_cons]
    simp only [List.length_nil] at hle
    omega

/-! ### What parsing keeps -/

/-- A relative reference that is nothing but a path. -/
structure OnlyPath (url : List Char) : Prop where
  clean : clean url = url
  noScheme : splitScheme url = none
  noQuery : '?' ∉ url
  noFragment : '#' ∉ url
  params : joinParams (splitParams url).1 (splitParams url).2 = url

theorem length_clean_le (url : List Char) : (clean url).length ≤ url.length :=
  (List.length_filter_le _ _).trans (List.dropWhile_sublist _).length_le

theorem clean_eq_of_length (h : url.length ≤ (clean url).length) : clean url = url :=
  ((List.filter_sublist).trans (List.dropWhile_sublist _)).eq_of_length_le h

theorem length_splitScheme_lt {scheme rest : List Char} (h : splitScheme url = some (scheme, rest)) :
    rest.length < url.length := by
  rw [splitScheme] at h
  split at h
  · case h_1 c cs sep rest' hscheme hrest =>
    split at h
    · have hlength := congrArg List.length
        (List.takeWhile_append_dropWhile (p := (· != ':')) (l := url))
      rw [hscheme, hrest, List.length_append, List.length_cons, List.length_cons] at hlength
      obtain rfl : rest' = rest := (Prod.ext_iff.mp (Option.some.inj h)).2
      omega
    · cases h
  · cases h

theorem length_splitNetloc_le (url : List Char) : (splitNetloc url).2.length ≤ url.length := by
  rw [splitNetloc.eq_def]
  split
  · case h_1 rest =>
    have := (List.dropWhile_sublist (fun c => !endsNetloc c) (l := rest)).length_le
    exact this.trans (Nat.le_add_right _ 2)
  · exact Nat.le_refl _

theorem splitNetloc_eq (h : url.head? ≠ some '/') : splitNetloc url = ([], url) := by
  rw [splitNetloc.eq_def]
  split
  · exact absurd rfl h
  · rfl

theorem length_cutAt_le (sep : Char) (url : List Char) : (cutAt sep url).1.length ≤ url.length :=
  (List.takeWhile_sublist _).length_le

theorem cutAt_eq {sep : Char} (h : sep ∉ url) : cutAt sep url = (url, []) := by
  have hall : ∀ c ∈ url, (c != sep) = true := fun c hc => bne_iff_ne.mpr fun heq => h (heq ▸ hc)
  rw [cutAt, List.takeWhile_eq_self_iff.mpr hall, List.dropWhile_eq_nil_iff.mpr hall, List.drop_nil]

theorem notMem_of_length_cutAt {sep : Char} (h : url.length ≤ (cutAt sep url).1.length) :
    sep ∉ url := by
  have heq : url.takeWhile (· != sep) = url := (List.takeWhile_sublist _).eq_of_length_le h
  intro hin
  have := List.takeWhile_eq_self_iff.mp heq sep hin
  exact (bne_iff_ne.mp this) rfl

/-- A path is what stands before its last segment, and that segment. -/
theorem take_append_lastSegment (path : List Char) :
    path.take (path.length - (lastSegment path).length) ++ lastSegment path = path := by
  have hrev : lastSegment path <:+ path := by
    rw [lastSegment, ← List.reverse_prefix, List.reverse_reverse]
    exact List.takeWhile_prefix _
  exact (List.suffix_iff_eq_append.mp hrev)

theorem cutAt_append (sep : Char) (url : List Char) :
    (sep ∉ url ∧ cutAt sep url = (url, [])) ∨
      (cutAt sep url).1 ++ sep :: (cutAt sep url).2 = url := by
  by_cases h : sep ∈ url
  · refine Or.inr ?_
    have hsplit := List.takeWhile_append_dropWhile (p := (· != sep)) (l := url)
    cases hdrop : url.dropWhile (· != sep) with
    | nil =>
      have hall := List.dropWhile_eq_nil_iff.mp hdrop sep h
      exact absurd rfl (bne_iff_ne.mp hall)
    | cons c cs =>
      have hc : (c != sep) = false := by
        have := List.head?_dropWhile_not (· != sep) url
        rw [hdrop] at this
        simpa using this
      obtain rfl : c = sep := by simpa using hc
      rw [hdrop] at hsplit
      rw [cutAt, hdrop, List.drop_one, List.tail_cons]
      exact hsplit
  · exact Or.inl ⟨h, cutAt_eq h⟩

/-- Only an empty parameter list is lost. -/
theorem joinParams_splitParams (path : List Char) :
    joinParams (splitParams path).1 (splitParams path).2 = path ∨
      joinParams (splitParams path).1 (splitParams path).2 ++ [';'] = path := by
  have hpath := take_append_lastSegment path
  rcases cutAt_append ';' (lastSegment path) with ⟨-, hcut⟩ | hcut
  · left
    rw [splitParams, hcut, joinParams, if_pos rfl]
    exact hpath
  · rw [splitParams, joinParams]
    split
    · case isTrue hnil =>
      right
      have hnil' : (cutAt ';' (lastSegment path)).2 = [] := hnil
      rw [hnil'] at hcut
      rw [List.append_assoc, hcut]
      exact hpath
    · left
      rw [List.append_assoc, hcut]
      exact hpath

theorem length_joinParams (path params : List Char) :
    (joinParams path params).length =
      path.length + if params = [] then 0 else params.length + 1 := by
  rw [joinParams]
  split
  · rfl
  · rw [List.length_append, List.length_cons]

theorem length_fullPath_splitParams_le (path : List Char) :
    (joinParams (splitParams path).1 (splitParams path).2).length ≤ path.length := by
  rcases joinParams_splitParams path with h | h
  · rw [h]
  · have := congrArg List.length h
    rw [List.length_append] at this
    omega

/-- What is parsed as the path of a URL is no longer than the URL. -/
theorem length_fullPath_urlparse_le (scheme url : List Char) :
    (urlparse scheme url).fullPath.length ≤ url.length ∧
      (url.length ≤ (urlparse scheme url).fullPath.length → url.head? ≠ some '/' →
        OnlyPath url) := by
  have hclean := length_clean_le url
  -- each step of the parser takes a part of what is left
  obtain ⟨rest, hrest⟩ : ∃ rest, rest = ((splitScheme (clean url)).getD (scheme, clean url)).2 :=
    ⟨_, rfl⟩
  have hscheme : rest.length ≤ (clean url).length ∧
      ((clean url).length ≤ rest.length → splitScheme (clean url) = none ∧ rest = clean url) := by
    cases hsplit : splitScheme (clean url) with
    | none =>
      rw [hsplit] at hrest
      exact ⟨hrest ▸ Nat.le_refl _, fun _ => ⟨rfl, hrest⟩⟩
    | some p =>
      have hlt := length_splitScheme_lt hsplit
      rw [hsplit] at hrest
      have hrest' : rest = p.2 := hrest
      rw [hrest']
      exact ⟨Nat.le_of_lt hlt, fun h => absurd (Nat.lt_of_lt_of_le hlt h) (Nat.lt_irrefl _)⟩
  obtain ⟨local', hlocal⟩ : ∃ rest', rest' = (splitNetloc rest).2 := ⟨_, rfl⟩
  have hnetloc := length_splitNetloc_le rest
  have hfragment := length_cutAt_le '#' local'
  have hquery := length_cutAt_le '?' (cutAt '#' local').1
  have hparams := length_fullPath_splitParams_le (cutAt '?' (cutAt '#' local').1).1
  have hfull : (urlparse scheme url).fullPath =
      joinParams (splitParams (cutAt '?' (cutAt '#' local').1).1).1
        (splitParams (cutAt '?' (cutAt '#' local').1).1).2 := by
    rw [hlocal, hrest]
    rfl
  rw [← hlocal] at hnetloc
  rw [hfull]
  refine ⟨by omega, fun hlong hhead => ?_⟩
  have hcleanEq := @clean_eq_of_length url (by omega)
  obtain ⟨hnone, hrestEq⟩ := hscheme.2 (by omega)
  rw [hcleanEq] at hnone hrestEq
  rw [hrestEq, splitNetloc_eq hhead] at hlocal
  have hlocalEq : local' = url := hlocal
  rw [hlocalEq] at hfragment hquery hparams hlong
  have hnoFragment := @notMem_of_length_cutAt url '#' (by omega)
  simp only [cutAt_eq hnoFragment] at hquery hparams hlong
  have hnoQuery := @notMem_of_length_cutAt url '?' (by omega)
  simp only [cutAt_eq hnoQuery] at hparams hlong
  refine ⟨hcleanEq, hnone, hnoQuery, hnoFragment, ?_⟩
  rcases joinParams_splitParams url with h | h
  · exact h
  · have := congrArg List.length h
    rw [List.length_append, List.length_singleton] at this
    exact absurd hlong (by omega)

/-- A reference that is nothing but a path is parsed as one. -/
theorem OnlyPath.urlparse_eq (h : OnlyPath url) (hhead : url.head? ≠ some '/')
    (scheme : List Char) :
    urlparse scheme url =
      { scheme := scheme
        netloc := []
        path := (splitParams url).1
        params := (splitParams url).2
        query := []
        fragment := [] } := by
  simp only [urlparse, h.clean, h.noScheme, Option.getD_none, splitNetloc_eq hhead,
    cutAt_eq h.noFragment, cutAt_eq h.noQuery]

/-! ### References that are appended -/

/-- A reference that the join appends to the directory `a`, unchanged. -/
def Appended (a url : List Char) : Prop :=
  (url = [] ∧ ∀ s ∈ segments a, isDot s = false) ∨
    (url ≠ [] ∧ OnlyPath url ∧ Kept a (splitParams url).1)

theorem splitParams_fst_isPrefix (path : List Char) : (splitParams path).1 <+: path := by
  have hpath := take_append_lastSegment path
  rcases cutAt_append ';' (lastSegment path) with ⟨-, hcut⟩ | hcut
  · rw [splitParams, hcut]
    exact ⟨[], by rw [List.append_nil]; exact hpath⟩
  · refine ⟨';' :: (cutAt ';' (lastSegment path)).2, ?_⟩
    rw [splitParams, List.append_assoc, hcut]
    exact hpath

theorem head?_splitParams (h : path.head? ≠ some '/') : (splitParams path).1.head? ≠ some '/' := by
  obtain ⟨t, ht⟩ := splitParams_fst_isPrefix path
  intro hhead
  rw [← ht, List.head?_append, hhead] at h
  exact h rfl

/-- Characters behind a path stand in its last segment. -/
theorem segments_append_of_notMem {q : List Char} (hq : '/' ∉ q) (path : List Char) :
    ∃ ps last, segments path = ps ++ [last] ∧ segments (path ++ q) = ps ++ [last ++ q] := by
  induction path with
  | nil => exact ⟨[], [], rfl, List.splitOn_eq_singleton hq⟩
  | cons c path ih =>
    obtain ⟨ps, last, hps, happend⟩ := ih
    rw [segments] at hps happend
    rw [segments, segments, List.cons_append, List.splitOn_cons_eq_if_modifyHead,
      List.splitOn_cons_eq_if_modifyHead, hps, happend]
    split
    · exact ⟨[] :: ps, last, rfl, rfl⟩
    · cases ps with
      | nil => exact ⟨[], c :: last, rfl, rfl⟩
      | cons p ps => exact ⟨(c :: p) :: ps, last, rfl, rfl⟩

theorem slash_notMem_lastSegment (path : List Char) : '/' ∉ lastSegment path := by
  intro h
  rw [lastSegment, List.mem_reverse] at h
  exact (bne_iff_ne.mp (List.mem_takeWhile_imp (p := (· != '/')) h)) rfl

/-- A path is the path without its parameters, and what belongs to its last segment. -/
theorem splitParams_cases (path : List Char) :
    (splitParams path).1 = path ∨
      ∃ q, '/' ∉ q ∧ path = (splitParams path).1 ++ ';' :: q := by
  have hpath := take_append_lastSegment path
  rcases cutAt_append ';' (lastSegment path) with ⟨-, hcut⟩ | hcut
  · left
    rw [splitParams, hcut]
    exact hpath
  · right
    refine ⟨(cutAt ';' (lastSegment path)).2, fun h => slash_notMem_lastSegment path ?_, ?_⟩
    · rw [← hcut]
      exact List.mem_append_right _ (List.mem_cons_of_mem _ h)
    · rw [splitParams, List.append_assoc, hcut]
      exact hpath.symm

/-- Parameters make no dot segment. -/
theorem noDots_of_splitParams (h : ∀ s ∈ segments (splitParams path).1, isDot s = false) :
    ∀ s ∈ segments path, isDot s = false := by
  rcases splitParams_cases path with heq | ⟨q, hq, heq⟩
  · rwa [heq] at h
  · have hq' : '/' ∉ ';' :: q := fun hin =>
      (List.mem_cons.mp hin).elim (fun hc => absurd hc (by decide)) hq
    obtain ⟨ps, last, hps, happend⟩ := segments_append_of_notMem hq' (splitParams path).1
    rw [← heq] at happend
    rw [hps] at h
    intro s hs
    rw [happend, List.mem_append, List.mem_singleton] at hs
    rcases hs with hs | rfl
    · exact h s (List.mem_append_left _ hs)
    · -- a semicolon is no dot
      rw [isDot, Bool.or_eq_false_iff, beq_eq_false_iff_ne, beq_eq_false_iff_ne]
      have hin : ';' ∈ last ++ ';' :: q := List.mem_append_right _ List.mem_cons_self
      constructor
      · intro hdot
        rw [hdot] at hin
        exact absurd hin (by decide)
      · intro hdot
        rw [hdot] at hin
        exact absurd hin (by decide)

/-- No segment of an appended reference is a dot segment. -/
theorem Appended.noDots (hroot : a = [] ∨ a.head? = some '/') (h : Appended a url) :
    ∀ s ∈ segments (a ++ '/' :: url), isDot s = false := by
  intro s hs
  rw [segments_append_slash, List.mem_append] at hs
  rcases h with ⟨rfl, ha⟩ | ⟨-, -, hbase, -, hdots⟩
  · rcases hs with hs | hs
    · exact ha s hs
    · rw [segments, List.splitOn_nil, List.mem_singleton] at hs
      rw [hs]
      rfl
  · rcases hs with hs | hs
    · obtain ⟨bs, hbs⟩ := segments_root hroot
      rw [hbs] at hs hbase
      rcases List.mem_cons.mp hs with rfl | hs
      · rfl
      · exact (hbase s hs).2
    · exact noDots_of_splitParams hdots s hs

/-- A path that is rooted keeps its dots away from the removal when it has none. -/
theorem removeDotSegments_eq_self (hroot : path.head? = some '/')
    (h : ∀ s ∈ segments path, isDot s = false) : removeDotSegments path = path := by
  cases path with
  | nil => cases hroot
  | cons c rest =>
    obtain rfl := Option.some.inj hroot
    refine removeDotSegments_of_noDots fun s hs => h s ?_
    rw [show '/' :: rest = [] ++ '/' :: rest from rfl, segments_append_slash]
    exact List.mem_append_right _ hs

theorem head?_append_slash (hroot : a = [] ∨ a.head? = some '/') :
    (a ++ '/' :: url).head? = some '/' := by
  rcases hroot with rfl | hroot
  · rfl
  · rw [List.head?_append, hroot]
    rfl

variable {base : Parts}

/-- The empty reference is the base. -/
theorem fullPath_urljoin_nil (hpath : base.path = a ++ ['/']) (hparams : base.params = []) :
    (urljoin base []).fullPath = a ++ ['/'] := by
  rw [urljoin, if_pos rfl, Parts.fullPath, hparams, joinParams, if_pos rfl, hpath]

/-- A joined path is no longer than both together, and as long only when the reference is appended. -/
theorem length_urljoin (hroot : a = [] ∨ a.head? = some '/') (hpath : base.path = a ++ ['/'])
    (hparams : base.params = []) (hurl : url.head? ≠ some '/') (hne : url ≠ []) :
    (urljoin base url).fullPath.length ≤ a.length + 1 + url.length ∧
      ((urljoin base url).scheme = base.scheme →
        a.length + 1 + url.length ≤ (urljoin base url).fullPath.length →
        OnlyPath url ∧ Kept a (splitParams url).1) := by
  obtain ⟨hparse, honly⟩ := length_fullPath_urlparse_le base.scheme url
  have hpos : 0 < url.length := List.length_pos_of_ne_nil hne
  have hparsed : (urlparse base.scheme url).fullPath.length =
      (urlparse base.scheme url).path.length +
        if (urlparse base.scheme url).params = [] then 0
        else (urlparse base.scheme url).params.length + 1 := length_joinParams _ _
  rw [urljoin, if_neg hne]
  dsimp only
  split
  · case isTrue hforeign => exact ⟨by omega, fun hscheme _ => absurd hscheme hforeign⟩
  · split
    · exact ⟨by omega, fun _ hlong => absurd hlong (by omega)⟩
    · split
      · -- the path is the path of the base
        rw [Parts.fullPath]
        dsimp only
        rw [hparams, joinParams, if_pos rfl, hpath, List.length_append, List.length_singleton]
        exact ⟨by omega, fun _ hlong => absurd hlong (by omega)⟩
      · rw [Parts.fullPath, length_joinParams, hpath]
        dsimp only
        by_cases habsolute : (urlparse base.scheme url).path.head? = some '/'
        · have hjoin := length_joinPath_absolute (a := a ++ ['/']) habsolute
          exact ⟨by omega, fun _ hlong => absurd hlong (by omega)⟩
        · obtain ⟨hle, hkept, -⟩ := joinPath_spec hroot habsolute
          refine ⟨by omega, fun _ hlong => ?_⟩
          have hurlPath := honly (by omega) hurl
          have heq := hurlPath.urlparse_eq hurl base.scheme
          rw [heq] at hkept hlong hparsed hparse
          refine ⟨hurlPath, hkept ?_⟩
          simp only at hlong hparsed hparse ⊢
          omega

theorem length_urljoin_le (hroot : a = [] ∨ a.head? = some '/') (hpath : base.path = a ++ ['/'])
    (hparams : base.params = []) (hurl : url.head? ≠ some '/') :
    (urljoin base url).fullPath.length ≤ a.length + 1 + url.length := by
  by_cases hne : url = []
  · subst hne
    rw [fullPath_urljoin_nil hpath hparams, List.length_append, List.length_singleton]
    exact Nat.le_add_right _ _
  · exact (length_urljoin hroot hpath hparams hurl hne).1

/-- An appended reference is joined as it stands. -/
theorem Appended.urljoin_eq (h : Appended a url) (hroot : a = [] ∨ a.head? = some '/')
    (hpath : base.path = a ++ ['/']) (hparams : base.params = []) (hurl : url.head? ≠ some '/') :
    (urljoin base url).scheme = base.scheme ∧ (urljoin base url).netloc = base.netloc ∧
      (urljoin base url).fullPath = a ++ '/' :: url := by
  rcases h with ⟨rfl, -⟩ | ⟨hne, honly, hkept⟩
  · exact ⟨by rw [urljoin, if_pos rfl], by rw [urljoin, if_pos rfl],
      fullPath_urljoin_nil hpath hparams⟩
  · have hpart : ¬((splitParams url).1 = [] ∧ (splitParams url).2 = []) := fun hnil => by
      have := honly.params
      rw [hnil.1, hnil.2, joinParams, if_pos rfl] at this
      exact hne this.symm
    have hjoin := (joinPath_spec hroot (head?_splitParams hurl)).2.2 hkept
    rw [urljoin, if_neg hne, honly.urlparse_eq hurl]
    dsimp only
    rw [if_neg (not_not_intro rfl), if_neg (not_not_intro rfl), if_neg hpart]
    refine ⟨rfl, rfl, ?_⟩
    rw [Parts.fullPath]
    dsimp only
    rw [hpath, hjoin]
    have hjoined := honly.params
    rw [joinParams] at hjoined ⊢
    split at hjoined
    · case isTrue hnil => rw [if_pos hnil, hjoined]
    · case isFalse hnil =>
      rw [if_neg hnil, List.append_assoc, List.cons_append, hjoined]

/-- The joined URL is the concatenation exactly when the reference is appended. -/
theorem urljoin_iff (hroot : a = [] ∨ a.head? = some '/') (hpath : base.path = a ++ ['/'])
    (hparams : base.params = []) (hurl : url.head? ≠ some '/') :
    ((urljoin base url).scheme = base.scheme ∧ (urljoin base url).netloc = base.netloc ∧
        removeDotSegments (urljoin base url).fullPath = a ++ '/' :: url) ↔ Appended a url := by
  constructor
  · rintro ⟨hscheme, -, hfull⟩
    by_cases hne : url = []
    · subst hne
      rw [fullPath_urljoin_nil hpath hparams] at hfull
      refine Or.inl ⟨rfl, fun s hs => ?_⟩
      have hhead := @head?_append_slash [] _ hroot
      cases hrest : a ++ ['/'] with
      | nil => simp at hrest
      | cons c rest =>
        rw [hrest] at hfull hhead
        obtain rfl := Option.some.inj hhead
        have hdots := @noDots_of_length_removeDotSegments rest (by
          rw [hfull, List.length_cons])
        have hsegs : segments ('/' :: rest) = [] :: segments rest := segments_append_slash [] rest
        rw [← hrest, segments_append_slash] at hsegs
        have hin : s ∈ [] :: segments rest := hsegs ▸ List.mem_append_left _ hs
        rcases List.mem_cons.mp hin with rfl | hin
        · rfl
        · exact hdots s hin
    · have hlength := congrArg List.length hfull
      rw [List.length_append, List.length_cons] at hlength
      have hle := length_removeDotSegments_le (urljoin base url).fullPath
      exact Or.inr ⟨hne, (length_urljoin hroot hpath hparams hurl hne).2 hscheme (by omega)⟩
  · intro h
    obtain ⟨hscheme, hnetloc, hfull⟩ := h.urljoin_eq hroot hpath hparams hurl
    refine ⟨hscheme, hnetloc, ?_⟩
    rw [hfull]
    exact removeDotSegments_eq_self (head?_append_slash hroot) (h.noDots hroot)

/-! ### Segments that are filled -/

/-- Characters in front of a path stand in its first segment. -/
theorem segments_notMem_append {q : List Char} (hq : '/' ∉ q) (path : List Char) :
    segments (q ++ path) = (segments path).modifyHead (q ++ ·) := by
  induction q with
  | nil =>
    obtain ⟨s, rest, hsegs⟩ := List.exists_cons_of_ne_nil (segments_ne_nil path)
    rw [List.nil_append, hsegs]
    rfl
  | cons c q ih =>
    have hc : ¬(c == '/') = true := fun h => hq (by
      rw [eq_of_beq h]
      exact List.mem_cons_self)
    obtain ⟨s, rest, hsegs⟩ := List.exists_cons_of_ne_nil (segments_ne_nil path)
    have ih := ih fun hin => hq (List.mem_cons_of_mem c hin)
    rw [hsegs, segments] at ih
    rw [hsegs, segments, List.cons_append, List.splitOn_cons_eq_if_modifyHead, if_neg hc, ih]
    rfl

theorem segments_inj {path' : List Char} (h : segments path = segments path') : path = path' := by
  rw [← ofSegments_segments path, h, ofSegments_segments]

end Url
