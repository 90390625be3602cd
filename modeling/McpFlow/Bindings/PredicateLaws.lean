import McpFlow.Bindings.Predicate

/-!
# The laws of predicates

The evaluator is left-to-right short-circuit evaluation: the leaves it reaches decide its outcome,
the first of them that fails ends it, and the others have no effect. Its equality is sameness of
meaning, `in` and `contains` are membership up to it, and numbers and strings are ordered. An operand
that is missing, a secret reference or not finite fails every comparison.
-/

namespace McpFlow

open Workflow (PlanBinding Predicate)

/-! ### Short-circuit evaluation -/

/-- A tree from its leaves: a list of children is its first child and the others. -/
theorem predicate_induction {motive : Predicate → Prop}
    (comparison : ∀ op left right, motive (.comparison op left right))
    (unary : ∀ op operand, motive (.unary op operand))
    (not : ∀ child, motive child → motive (.not child))
    (nil : ∀ op, motive (.logical op []))
    (cons : ∀ op child children, motive child → motive (.logical op children) →
      motive (.logical op (child :: children))) : ∀ p, motive p
  | .comparison op left right => comparison op left right
  | .unary op operand => unary op operand
  | .not child => not child (predicate_induction comparison unary not nil cons child)
  | .logical op [] => nil op
  | .logical op (child :: children) =>
    cons op child children (predicate_induction comparison unary not nil cons child)
      (predicate_induction comparison unary not nil cons (.logical op children))
termination_by p => sizeOf p

/-- What an operator starts from: AND from true, OR from false. -/
def neutral (op : String) : Bool := decide (op = "and")

/-- Left-to-right short-circuit evaluation over the outcomes of the leaves: the leaves that it
reaches, in order, and its outcome. -/
inductive ShortCircuit (leaf : Predicate → Except BindingFailure Bool) :
    Predicate → List Predicate → Except BindingFailure Bool → Prop
  | comparison (op : String) (left right : PlanBinding) :
    ShortCircuit leaf (.comparison op left right) [.comparison op left right]
      (leaf (.comparison op left right))
  | unary (op : String) (operand : PlanBinding) :
    ShortCircuit leaf (.unary op operand) [.unary op operand] (leaf (.unary op operand))
  | not {child : Predicate} {reached : List Predicate} {result : Except BindingFailure Bool}
      (h : ShortCircuit leaf child reached result) :
    ShortCircuit leaf (.not child) reached (result.map (!·))
  | nil (op : String) : ShortCircuit leaf (.logical op []) [] (.ok (neutral op))
  | decided {op : String} {child : Predicate} {children reached : List Predicate}
      (h : ShortCircuit leaf child reached (.ok !neutral op)) :
    ShortCircuit leaf (.logical op (child :: children)) reached (.ok !neutral op)
  | failed {op : String} {child : Predicate} {children reached : List Predicate}
      {e : BindingFailure} (h : ShortCircuit leaf child reached (.error e)) :
    ShortCircuit leaf (.logical op (child :: children)) reached (.error e)
  | next {op : String} {child : Predicate} {children reached reached' : List Predicate}
      {result : Except BindingFailure Bool} (h : ShortCircuit leaf child reached (.ok (neutral op)))
      (hrest : ShortCircuit leaf (.logical op children) reached' result) :
    ShortCircuit leaf (.logical op (child :: children)) (reached ++ reached') result

mutual
/-- The truth of a tree whose leaves have truth values. -/
def holds (truth : Predicate → Bool) : Predicate → Bool
  | .comparison op left right => truth (.comparison op left right)
  | .unary op operand => truth (.unary op operand)
  | .not child => !holds truth child
  | .logical op children => if op = "and" then allHold truth children else someHolds truth children

/-- Every tree is true. -/
def allHold (truth : Predicate → Bool) : List Predicate → Bool
  | [] => true
  | p :: ps => holds truth p && allHold truth ps

/-- Some tree is true. -/
def someHolds (truth : Predicate → Bool) : List Predicate → Bool
  | [] => false
  | p :: ps => holds truth p || someHolds truth ps
end

theorem holds_nil (truth : Predicate → Bool) (op : String) :
    holds truth (.logical op []) = neutral op := by
  rw [holds, neutral]
  split <;> simp_all [allHold, someHolds]

theorem holds_cons (truth : Predicate → Bool) (op : String) (p : Predicate) (ps : List Predicate) :
    holds truth (.logical op (p :: ps)) =
      if holds truth p = neutral op then holds truth (.logical op ps) else !neutral op := by
  rw [holds, holds, neutral]
  by_cases hop : op = "and"
  · cases hp : holds truth p <;> simp [hop, allHold, hp]
  · cases hp : holds truth p <;> simp [hop, someHolds, hp]

namespace ShortCircuit

variable {leaf leaf' : Predicate → Except BindingFailure Bool} {p : Predicate}
  {reached : List Predicate} {result : Except BindingFailure Bool}

/-- When the reached leaves have truth values the outcome is the truth of the tree, whatever the
truth of the other leaves. -/
theorem eq_holds (h : ShortCircuit leaf p reached result) {truth : Predicate → Bool}
    (htruth : ∀ l ∈ reached, leaf l = .ok (truth l)) : result = .ok (holds truth p) := by
  induction h with
  | comparison op left right =>
    rw [htruth _ (List.mem_singleton_self _), holds]
  | unary op operand => rw [htruth _ (List.mem_singleton_self _), holds]
  | not _ ih =>
    rw [ih htruth, holds]
    rfl
  | nil op => rw [holds_nil]
  | @decided op _ _ _ _ ih =>
    have hchild := Except.ok.inj (ih htruth)
    rw [holds_cons, if_neg]
    rw [← hchild]
    cases neutral op <;> decide
  | failed _ ih => cases ih htruth
  | next _ _ ih ihrest =>
    rw [List.forall_mem_append] at htruth
    rw [ihrest htruth.2, holds_cons, if_pos (Except.ok.inj (ih htruth.1)).symm]

/-- An evaluation that has an outcome has one at each reached leaf. -/
theorem forall_ok {b : Bool} (h : ShortCircuit leaf p reached result) (hresult : result = .ok b) :
    ∀ l ∈ reached, ∃ c, leaf l = .ok c := by
  induction h generalizing b with
  | comparison op left right =>
    intro l hl
    exact ⟨b, List.mem_singleton.mp hl ▸ hresult⟩
  | unary op operand =>
    intro l hl
    exact ⟨b, List.mem_singleton.mp hl ▸ hresult⟩
  | @not _ _ result _ ih =>
    cases result with
    | error e => cases hresult
    | ok c => exact ih rfl
  | nil op => exact fun l hl => nomatch hl
  | decided _ ih => exact ih rfl
  | failed _ _ => cases hresult
  | next _ _ ih ihrest => exact List.forall_mem_append.mpr ⟨ih rfl, ihrest hresult⟩

/-- The first reached leaf that fails is the last one reached, and the outcome is its failure. -/
theorem exists_failed {e : BindingFailure} (h : ShortCircuit leaf p reached result)
    (hresult : result = .error e) : ∃ before l, reached = before ++ [l] ∧ leaf l = .error e ∧
      ∀ m ∈ before, ∃ b, leaf m = .ok b := by
  induction h with
  | comparison op left right => exact ⟨[], _, rfl, hresult, fun m hm => nomatch hm⟩
  | unary op operand => exact ⟨[], _, rfl, hresult, fun m hm => nomatch hm⟩
  | @not _ _ result _ ih =>
    cases result with
    | error e' => exact ih hresult
    | ok c => cases hresult
  | nil op => cases hresult
  | decided _ _ => cases hresult
  | failed _ ih => exact ih hresult
  | next hfirst _ _ ihrest =>
    obtain ⟨before, l, rfl, hl, hbefore⟩ := ihrest hresult
    exact ⟨_, l, (List.append_assoc ..).symm, hl,
      List.forall_mem_append.mpr ⟨hfirst.forall_ok rfl, hbefore⟩⟩

/-- A reached leaf that fails is the outcome. -/
theorem eq_error {l : Predicate} {e : BindingFailure} (h : ShortCircuit leaf p reached result)
    (hl : l ∈ reached) (hleaf : leaf l = .error e) : result = .error e := by
  have hnone : ∀ c, leaf l ≠ .ok c := fun c hc => by
    rw [hleaf] at hc
    cases hc
  cases hresult : result with
  | ok b =>
    obtain ⟨c, hc⟩ := h.forall_ok hresult l hl
    exact absurd hc (hnone c)
  | error e' =>
    obtain ⟨before, m, rfl, hm, hbefore⟩ := h.exists_failed hresult
    rcases List.mem_append.mp hl with hmem | hmem
    · obtain ⟨c, hc⟩ := hbefore l hmem
      exact absurd hc (hnone c)
    · rw [List.mem_singleton.mp hmem, hm] at hleaf
      exact congrArg Except.error (Except.error.inj hleaf)

/-- The leaves that are not reached have no effect. -/
theorem congr (h : ShortCircuit leaf p reached result) (hleaf : ∀ l ∈ reached, leaf' l = leaf l) :
    ShortCircuit leaf' p reached result := by
  induction h with
  | comparison op left right =>
    rw [← hleaf _ (List.mem_singleton_self _)]
    exact .comparison op left right
  | unary op operand =>
    rw [← hleaf _ (List.mem_singleton_self _)]
    exact .unary op operand
  | not _ ih => exact .not (ih hleaf)
  | nil op => exact .nil op
  | decided _ ih => exact .decided (ih hleaf)
  | failed _ ih => exact .failed (ih hleaf)
  | next _ _ ih ihrest =>
    rw [List.forall_mem_append] at hleaf
    exact .next (ih hleaf.1) (ihrest hleaf.2)

end ShortCircuit

/-! ### The evaluator -/

variable {resolve : BindingResolver}

theorem evalPredicate_nil (resolve : BindingResolver) (op : String) :
    evalPredicate resolve (.logical op []) = .ok (neutral op) := by
  rw [evalPredicate, neutral]
  split <;> simp_all [evalAnd, evalOr]

theorem evalPredicate_cons (resolve : BindingResolver) (op : String) (p : Predicate)
    (ps : List Predicate) : evalPredicate resolve (.logical op (p :: ps)) =
      (evalPredicate resolve p).bind fun b =>
        if b = neutral op then evalPredicate resolve (.logical op ps) else .ok !neutral op := by
  rw [evalPredicate, evalPredicate, neutral]
  by_cases hop : op = "and"
  · rw [if_pos hop, evalAnd]
    cases hp : evalPredicate resolve p with
    | error e => rfl
    | ok b => cases b <;> simp [hop, bind, Except.bind, pure, Except.pure]
  · rw [if_neg hop, evalOr]
    cases hp : evalPredicate resolve p with
    | error e => rfl
    | ok b => cases b <;> simp [hop, bind, Except.bind, pure, Except.pure]

/-- The evaluator is a short-circuit evaluation over its leaves. -/
theorem exists_shortCircuit (resolve : BindingResolver) (p : Predicate) :
    ∃ reached, ShortCircuit (evalPredicate resolve) p reached (evalPredicate resolve p) := by
  induction p using predicate_induction with
  | comparison op left right => exact ⟨_, .comparison op left right⟩
  | unary op operand => exact ⟨_, .unary op operand⟩
  | not child ih =>
    obtain ⟨reached, h⟩ := ih
    have hnot : evalPredicate resolve (.not child) = (evalPredicate resolve child).map (!·) := by
      rw [evalPredicate]
      cases evalPredicate resolve child <;> rfl
    exact ⟨reached, hnot ▸ .not h⟩
  | nil op => exact ⟨[], evalPredicate_nil resolve op ▸ .nil op⟩
  | cons op child children ih ihrest =>
    obtain ⟨reached, h⟩ := ih
    obtain ⟨reached', hrest⟩ := ihrest
    rw [evalPredicate_cons]
    cases hchild : evalPredicate resolve child with
    | error e => exact ⟨reached, .failed (hchild ▸ h)⟩
    | ok b =>
      rw [hchild] at h
      by_cases hb : b = neutral op
      · subst hb
        exact ⟨reached ++ reached', by simpa [Except.bind] using .next h hrest⟩
      · have hflip : b = !neutral op := Bool.eq_not.mpr hb
        subst hflip
        exact ⟨reached, by simpa [Except.bind] using .decided h⟩

theorem evalPredicate_not (resolve : BindingResolver) (p : Predicate) :
    evalPredicate resolve (.not p) = (evalPredicate resolve p).map (!·) := by
  rw [evalPredicate]
  cases evalPredicate resolve p <;> rfl

/-- Every short-circuit evaluation over the leaves has the outcome of the evaluator. -/
theorem ShortCircuit.eq_evalPredicate {p : Predicate} {reached : List Predicate}
    {result : Except BindingFailure Bool}
    (h : ShortCircuit (evalPredicate resolve) p reached result) : result = evalPredicate resolve p := by
  induction h with
  | comparison op left right => rfl
  | unary op operand => rfl
  | not _ ih => rw [ih, evalPredicate_not]
  | nil op => exact (evalPredicate_nil resolve op).symm
  | @decided op _ _ _ _ ih =>
    have hne : (!neutral op) ≠ neutral op := by cases neutral op <;> decide
    rw [evalPredicate_cons, ← ih, Except.bind, if_neg hne]
  | failed _ ih => rw [evalPredicate_cons, ← ih, Except.bind]
  | next _ _ ih ihrest => rw [evalPredicate_cons, ← ih, Except.bind, if_pos rfl, ihrest]

/-- What the leaves that an evaluation reaches decide. -/
structure DecidedByReached (resolve : BindingResolver) (p : Predicate) (reached : List Predicate) :
    Prop where
  run : ShortCircuit (evalPredicate resolve) p reached (evalPredicate resolve p)
  truth : ∀ truth, (∀ l ∈ reached, evalPredicate resolve l = .ok (truth l)) →
    evalPredicate resolve p = .ok (holds truth p)
  failure : ∀ e, evalPredicate resolve p = .error e → ∃ before l, reached = before ++ [l] ∧
    evalPredicate resolve l = .error e ∧ ∀ m ∈ before, ∃ b, evalPredicate resolve m = .ok b
  failing : ∀ l ∈ reached, ∀ e, evalPredicate resolve l = .error e →
    evalPredicate resolve p = .error e
  unreached : ∀ resolve', (∀ l ∈ reached, evalPredicate resolve' l = evalPredicate resolve l) →
    evalPredicate resolve' p = evalPredicate resolve p

theorem exists_decidedByReached (resolve : BindingResolver) (p : Predicate) :
    ∃ reached, DecidedByReached resolve p reached := by
  obtain ⟨reached, h⟩ := exists_shortCircuit resolve p
  exact ⟨reached, h, fun _ => h.eq_holds, fun _ => h.exists_failed, fun _ hl _ => h.eq_error hl,
    fun _ hleaf => (h.congr hleaf).eq_evalPredicate.symm⟩

/-! ### Equality -/

/-- `json_strict_equal` on regular values. -/
structure EqualityLaws : Prop where
  total : ∀ a b : RuntimeValue, a.regular = true → b.regular = true →
    ∃ r, jsonStrictEqual a b = .ok r
  equivalence : Equivalence fun a b : {v : RuntimeValue // v.regular = true} =>
    jsonStrictEqual a.1 b.1 = .ok true
  arrays : ∀ as bs : List RuntimeValue, (RuntimeValue.arr as).regular = true →
    (RuntimeValue.arr bs).regular = true → (jsonStrictEqual (.arr as) (.arr bs) = .ok true ↔
      List.Forall₂ (fun a b => jsonStrictEqual a b = .ok true) as bs)
  objects : ∀ as bs : List (String × RuntimeValue), (RuntimeValue.obj as).regular = true →
    (RuntimeValue.obj bs).regular = true → (jsonStrictEqual (.obj as) (.obj bs) = .ok true ↔
      ∀ k, Option.Rel (fun a b => jsonStrictEqual a b = .ok true) (as.lookup k) (bs.lookup k))
  bool_number : ∀ b (v : RuntimeValue), v.isNumber = true →
    jsonStrictEqual (.bool b) v = .ok false ∧ jsonStrictEqual v (.bool b) = .ok false
  numbers : ∀ (a b : RuntimeValue) (x y : ℚ), a.number? = some x → b.number? = some y →
    jsonStrictEqual a b = .ok (decide (x = y))

variable {a b : RuntimeValue}

open Classical in
theorem jsonStrictEqual_iff (ha : a.regular = true) (hb : b.regular = true) :
    jsonStrictEqual a b = .ok true ↔ a.meaning = b.meaning := by
  rw [jsonStrictEqual_eq a b ha hb, Except.ok.injEq, decide_eq_true_iff]

theorem regular_of_number? {q : ℚ} (h : a.number? = some q) : a.regular = true := by
  cases a with
  | int i => rfl
  | float x =>
    cases x with
    | finite r => rfl
    | _ => cases h
  | _ => cases h

theorem regular_of_mem {items : List RuntimeValue} (h : (RuntimeValue.arr items).regular = true)
    (ha : a ∈ items) : a.regular = true := by
  rw [RuntimeValue.regular] at h
  induction items with
  | nil => cases ha
  | cons b items ih =>
    rw [RuntimeValue.regularItems, Bool.and_eq_true] at h
    rcases List.mem_cons.mp ha with rfl | ha
    · exact h.1
    · exact ih h.2 ha

/-- The same meanings, item by item. -/
theorem meaningItems_eq_iff {as bs : List RuntimeValue} :
    RuntimeValue.meaningItems as = RuntimeValue.meaningItems bs ↔
      List.Forall₂ (fun a b : RuntimeValue => a.meaning = b.meaning) as bs := by
  induction as generalizing bs with
  | nil => cases bs <;> simp [RuntimeValue.meaningItems]
  | cons a as ih => cases bs <;> simp [RuntimeValue.meaningItems, ih]

theorem equalityLaws : EqualityLaws where
  total a b ha hb := ⟨_, jsonStrictEqual_eq a b ha hb⟩
  equivalence := by
    refine ⟨fun a => ?_, fun {a b} h => ?_, fun {a b c} hab hbc => ?_⟩
    · exact (jsonStrictEqual_iff a.2 a.2).mpr rfl
    · exact (jsonStrictEqual_iff b.2 a.2).mpr ((jsonStrictEqual_iff a.2 b.2).mp h).symm
    · exact (jsonStrictEqual_iff a.2 c.2).mpr
        (((jsonStrictEqual_iff a.2 b.2).mp hab).trans ((jsonStrictEqual_iff b.2 c.2).mp hbc))
  arrays as bs ha hb := by
    rw [jsonStrictEqual_iff ha hb, RuntimeValue.meaning, RuntimeValue.meaning, Meaning.arr.injEq,
      meaningItems_eq_iff, List.forall₂_iff_get, List.forall₂_iff_get]
    refine and_congr_right fun _ => forall_congr' fun i => forall_congr' fun hi =>
      forall_congr' fun hj => ?_
    exact (jsonStrictEqual_iff (regular_of_mem ha (List.get_mem ..))
      (regular_of_mem hb (List.get_mem ..))).symm
  objects as bs ha hb := by
    rw [jsonStrictEqual_iff ha hb, RuntimeValue.meaning, RuntimeValue.meaning, Meaning.obj.injEq,
      funext_iff]
    rw [RuntimeValue.regular, Bool.and_eq_true] at ha hb
    refine forall_congr' fun k => ?_
    rw [RuntimeValue.meaningMembers_eq, RuntimeValue.meaningMembers_eq]
    cases hleft : as.lookup k with
    | none => cases hright : bs.lookup k <;> simp
    | some v =>
      cases hright : bs.lookup k with
      | none => simp
      | some w =>
        have hiff := jsonStrictEqual_iff (RuntimeValue.regular_of_lookup ha.2 hleft)
          (RuntimeValue.regular_of_lookup hb.2 hright)
        simp [hiff]
  bool_number b v hv := by cases v <;> simp_all [jsonStrictEqual, RuntimeValue.isNumber]
  numbers a b x y hx hy := by
    rw [jsonStrictEqual_eq a b (regular_of_number? hx) (regular_of_number? hy),
      RuntimeValue.meaning_of_number? hx, RuntimeValue.meaning_of_number? hy]
    simp only [Meaning.number.injEq]

/-! ### Membership and order -/

/-- `in` and `contains` on regular operands, with the array on either side. -/
structure MembershipLaws : Prop where
  total : ∀ (x : RuntimeValue) (items : List RuntimeValue), x.regular = true →
    (RuntimeValue.arr items).regular = true → isSecretRefValue x = false →
      ∃ r, compareOperands "in" x (RuntimeValue.arr items) = .ok r
  member : ∀ (x : RuntimeValue) (items : List RuntimeValue), x.regular = true →
    (RuntimeValue.arr items).regular = true → isSecretRefValue x = false →
      (compareOperands "in" x (RuntimeValue.arr items) = .ok true ↔
        ∃ y ∈ items, jsonStrictEqual x y = .ok true)
  contains : ∀ (x : RuntimeValue) (items : List RuntimeValue), x.regular = true →
    (RuntimeValue.arr items).regular = true →
      compareOperands "contains" (RuntimeValue.arr items) x =
        compareOperands "in" x (RuntimeValue.arr items)

/-- Two finite numbers or two strings. -/
def Comparable (a b : RuntimeValue) : Prop :=
  (∃ x y, a.number? = some x ∧ b.number? = some y) ∨ ∃ s t, a = .str s ∧ b = .str t

/-- Exactly one of `lt`, `eq` and `gt` holds, and `lte` and `gte` are the unions. -/
def OrderLaw : Prop :=
  ∀ a b, Comparable a b → ∃ o : Ordering,
    compareOperands "lt" a b = .ok (o == .lt) ∧ compareOperands "eq" a b = .ok (o == .eq) ∧
    compareOperands "gt" a b = .ok (o == .gt) ∧ compareOperands "lte" a b = .ok (o != .gt) ∧
    compareOperands "gte" a b = .ok (o != .lt)

/-- Operands that pass the checks. -/
theorem compareOperands_eq (op : String) (ha : a.regular = true) (hb : b.regular = true)
    (hsecret : (isSecretRefValue a || isSecretRefValue b) = false) :
    compareOperands op a b = compareValues op a b := by
  unfold compareOperands
  dsimp only
  rw [hsecret, if_neg Bool.false_ne_true,
    rejectNonFiniteNumber_ok (RuntimeValue.isFinite_of_regular ha),
    rejectNonFiniteNumber_ok (RuntimeValue.isFinite_of_regular hb)]
  rfl

/-- A search whose test always has an outcome. -/
theorem anyM_eq_ok {α ε : Type} {f : α → Except ε Bool} {g : α → Bool} {l : List α}
    (h : ∀ x ∈ l, f x = .ok (g x)) : l.anyM f = .ok (l.any g) := by
  induction l with
  | nil => rfl
  | cons x l ih =>
    rw [List.forall_mem_cons] at h
    rw [List.anyM, h.1, List.any_cons]
    cases hx : g x with
    | true => rfl
    | false => exact ih h.2

theorem compareValues_eq (a b : RuntimeValue) : compareValues "eq" a b = jsonStrictEqual a b := by
  simp [compareValues]

theorem compareValues_in (x : RuntimeValue) (items : List RuntimeValue) :
    compareValues "in" x (.arr items) = items.anyM fun item => jsonStrictEqual x item := by
  simp [compareValues]

theorem compareValues_contains (x : RuntimeValue) (items : List RuntimeValue) :
    compareValues "contains" (.arr items) x = items.anyM fun item => jsonStrictEqual item x := by
  simp [compareValues]

open Classical in
theorem compareValues_in_eq {x : RuntimeValue} {items : List RuntimeValue} (hx : x.regular = true)
    (hitems : (RuntimeValue.arr items).regular = true) :
    compareValues "in" x (.arr items) = .ok (items.any fun y => decide (x.meaning = y.meaning)) := by
  rw [compareValues_in]
  exact anyM_eq_ok fun y hy => jsonStrictEqual_eq x y hx (regular_of_mem hitems hy)

/-- An array is no secret reference. -/
theorem compareOperands_in {x : RuntimeValue} {items : List RuntimeValue} (hx : x.regular = true)
    (hitems : (RuntimeValue.arr items).regular = true) (hsecret : isSecretRefValue x = false) :
    compareOperands "in" x (RuntimeValue.arr items) = compareValues "in" x (.arr items) :=
  compareOperands_eq "in" hx hitems (by rw [hsecret]; rfl)

open Classical in
theorem membershipLaws : MembershipLaws where
  total x items hx hitems hsecret :=
    ⟨_, (compareOperands_in hx hitems hsecret).trans (compareValues_in_eq hx hitems)⟩
  member x items hx hitems hsecret := by
    rw [compareOperands_in hx hitems hsecret, compareValues_in_eq hx hitems, Except.ok.injEq,
      List.any_eq_true]
    refine exists_congr fun y => and_congr_right fun hy => ?_
    rw [decide_eq_true_iff, jsonStrictEqual_iff hx (regular_of_mem hitems hy)]
  contains x items hx hitems := by
    cases hsecret : isSecretRefValue x with
    | true => simp [compareOperands, hsecret]
    | false =>
      have hboth : (isSecretRefValue (.arr items) || isSecretRefValue x) = false := by
        rw [hsecret]
        rfl
      rw [compareOperands_in hx hitems hsecret, compareOperands_eq "contains" hitems hx hboth,
        compareValues_in_eq hx hitems, compareValues_contains]
      refine (anyM_eq_ok fun y hy => jsonStrictEqual_eq y x (regular_of_mem hitems hy) hx).trans ?_
      simp only [eq_comm]

/-- The operators on a linear order, by the order of the operands. -/
theorem orderedOn_eq {α : Type} [LinearOrder α] (a b : α) :
    orderedOn "lt" a b = .ok (compare a b == .lt) ∧ orderedOn "gt" a b = .ok (compare a b == .gt) ∧
    orderedOn "lte" a b = .ok (compare a b != .gt) ∧
    orderedOn "gte" a b = .ok (compare a b != .lt) ∧ decide (a = b) = (compare a b == .eq) := by
  rcases lt_trichotomy a b with h | h | h
  · rw [compare_lt_iff_lt.mpr h]
    simp [orderedOn, h, h.le, h.not_gt, h.not_ge, h.ne]
  · rw [compare_eq_iff_eq.mpr h]
    simp [orderedOn, h]
  · rw [compare_gt_iff_gt.mpr h]
    simp [orderedOn, h, h.le, h.not_gt, h.not_ge, h.ne']

/-- The ordered operators on comparable operands. -/
theorem compareValues_ordered {op : String} (hop : op = "gt" ∨ op = "gte" ∨ op = "lt" ∨ op = "lte")
    (a b : RuntimeValue) : compareValues op a b = orderedCompare op a b := by
  rcases hop with rfl | rfl | rfl | rfl <;> simp [compareValues]

theorem isNumber_of_number? {q : ℚ} (h : a.number? = some q) : a.isNumber = true := by
  cases a <;> first | rfl | cases h

theorem orderedCompare_number {op : String} {x y : ℚ} (hx : a.number? = some x)
    (hy : b.number? = some y) : orderedCompare op a b = orderedOn op x y := by
  have hfa := RuntimeValue.isFinite_of_regular (regular_of_number? hx)
  have hfb := RuntimeValue.isFinite_of_regular (regular_of_number? hy)
  unfold orderedCompare
  rw [isNumber_of_number? hx, isNumber_of_number? hy, if_pos (by decide),
    rejectNonFiniteNumber_ok hfa, rejectNonFiniteNumber_ok hfb, hx, hy]
  rfl

theorem isSecretRefValue_of_number? {q : ℚ} (h : a.number? = some q) : isSecretRefValue a = false := by
  cases a <;> first | rfl | cases h

theorem orderLaw : OrderLaw := by
  have hordered {op : String} (hop : op = "gt" ∨ op = "gte" ∨ op = "lt" ∨ op = "lte") :
      ∀ a b, compareValues op a b = orderedCompare op a b := compareValues_ordered hop
  rintro a b (⟨x, y, hx, hy⟩ | ⟨s, t, rfl, rfl⟩)
  · have hoperands (op : String) : compareOperands op a b = compareValues op a b :=
      compareOperands_eq op (regular_of_number? hx) (regular_of_number? hy)
        (by rw [isSecretRefValue_of_number? hx, isSecretRefValue_of_number? hy]; rfl)
    obtain ⟨hlt, hgt, hlte, hgte, heq⟩ := orderedOn_eq x y
    refine ⟨compare x y, ?_, ?_, ?_, ?_, ?_⟩
    · rw [hoperands, hordered (by simp), orderedCompare_number hx hy, hlt]
    · rw [hoperands, compareValues_eq, equalityLaws.numbers a b x y hx hy, heq]
    · rw [hoperands, hordered (by simp), orderedCompare_number hx hy, hgt]
    · rw [hoperands, hordered (by simp), orderedCompare_number hx hy, hlte]
    · rw [hoperands, hordered (by simp), orderedCompare_number hx hy, hgte]
  · have hoperands (op : String) : compareOperands op (RuntimeValue.str s) (RuntimeValue.str t) =
        compareValues op (.str s) (.str t) := compareOperands_eq op rfl rfl rfl
    have hstring (op : String) : orderedCompare op (.str s) (.str t) = orderedOn op s t := rfl
    obtain ⟨hlt, hgt, hlte, hgte, heq⟩ := orderedOn_eq s t
    refine ⟨compare s t, ?_, ?_, ?_, ?_, ?_⟩
    · rw [hoperands, hordered (by simp), hstring, hlt]
    · rw [hoperands, compareValues_eq, jsonStrictEqual, ← heq, beq_eq_decide]
    · rw [hoperands, hordered (by simp), hstring, hgt]
    · rw [hoperands, hordered (by simp), hstring, hlte]
    · rw [hoperands, hordered (by simp), hstring, hgte]

/-! ### Operands -/

/-- An operand that no comparison accepts: a secret reference, a missing value or a number that is
not finite. -/
def Refused (resolve : BindingResolver) (binding : PlanBinding) : Prop :=
  isSecretRefBinding binding = true ∨ resolve binding = .ok none ∨
    ∃ v, resolve binding = .ok (some v) ∧ (isSecretRefValue v = true ∨ v.isFinite = false)

theorem compareOperands_refused (op : String) {left right : Option RuntimeValue}
    (h : ∀ v w, left = some v → right = some w → (isSecretRefValue v || isSecretRefValue w) = true ∨
      v.isFinite = false ∨ w.isFinite = false) :
    ∃ e, compareOperands op left right = .error e := by
  unfold compareOperands
  split
  · next v w =>
    split
    · exact ⟨_, rfl⟩
    next hsecret =>
    rcases (h v w rfl rfl).resolve_left hsecret with hv | hw
    · rw [rejectNonFiniteNumber, if_neg (by rw [hv]; decide)]
      exact ⟨_, rfl⟩
    · by_cases hv : v.isFinite = true
      · rw [rejectNonFiniteNumber_ok hv, rejectNonFiniteNumber, if_neg (by rw [hw]; decide)]
        exact ⟨_, rfl⟩
      · rw [rejectNonFiniteNumber, if_neg hv]
        exact ⟨_, rfl⟩
  · exact ⟨_, rfl⟩

theorem resolve_of_resolveOperand {binding : PlanBinding} {value : Option RuntimeValue}
    (h : resolveOperand resolve binding = .ok value) : resolve binding = .ok value := by
  unfold resolveOperand at h
  split at h
  · split at h <;> cases h
  · exact h

/-- A comparison with a refused operand fails under every operator. -/
theorem evalComparison_refused (op : String) {left right : PlanBinding}
    (h : Refused resolve left ∨ Refused resolve right) :
    ∃ e, evalComparison resolve op left right = .error e := by
  unfold evalComparison
  split
  · exact ⟨_, rfl⟩
  next hsecret =>
  rw [Bool.or_eq_true, not_or] at hsecret
  cases hleft : resolveOperand resolve left with
  | error e => exact ⟨e, rfl⟩
  | ok v =>
    cases hright : resolveOperand resolve right with
    | error e => exact ⟨e, rfl⟩
    | ok w =>
      have hv := resolve_of_resolveOperand hleft
      have hw := resolve_of_resolveOperand hright
      obtain ⟨e, he⟩ : ∃ e, compareOperands op v w = .error e := by
        refine compareOperands_refused op ?_
        rintro x y rfl rfl
        rcases h with hrefused | hrefused
        · rcases hrefused with hbinding | hnone | ⟨z, hz, hbad⟩
          · exact absurd hbinding hsecret.1
          · rw [hv] at hnone
            cases hnone
          · rw [hv] at hz
            cases hz
            exact hbad.imp (fun hs => Bool.or_eq_true_iff.mpr (.inl hs)) .inl
        · rcases hrefused with hbinding | hnone | ⟨z, hz, hbad⟩
          · exact absurd hbinding hsecret.2
          · rw [hw] at hnone
            cases hnone
          · rw [hw] at hz
            cases hz
            exact hbad.imp (fun hs => Bool.or_eq_true_iff.mpr (.inr hs)) .inr
      refine ⟨.appError e, ?_⟩
      simp only [bind, Except.bind, he]
      rfl

/-- Comparisons with a refused operand fail, also under NOT. -/
def OperandLaw (resolve : BindingResolver) : Prop :=
  ∀ op left right, Refused resolve left ∨ Refused resolve right →
    ∃ e, evalPredicate resolve (.comparison op left right) = .error e ∧
      evalPredicate resolve (.not (.comparison op left right)) = .error e

theorem operandLaw (resolve : BindingResolver) : OperandLaw resolve := by
  intro op left right h
  obtain ⟨e, he⟩ := evalComparison_refused op h
  have hleaf : evalPredicate resolve (.comparison op left right) = .error e := by
    rw [evalPredicate, he]
  exact ⟨e, hleaf, by rw [evalPredicate_not, hleaf]; rfl⟩

/-! ### The evaluator -/

end McpFlow
