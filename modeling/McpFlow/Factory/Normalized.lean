import McpFlow.Factory.SchemaContract

/-!
# Normalized schemas

`normalize_schema` against the contract of the schema. The walk over the members of an object keeps the
contract when it drops no member that the contract has and keeps the value of every other one; the
walk below a reference is the walk below its target, because a chain of references that ends passes
no reference twice.
-/

namespace McpFlow.Factory

open Json (Value)

variable {document : Value}

/-! ### The loops -/

section Loops

variable {sanitize : ℕ → Value → Except AppError (Value × ℕ)}

theorem isStripped_of_drops {pos : SchemaPosition} {key : String} (h : pos.drops key = true) :
    isStripped key = true := by
  rw [SchemaPosition.drops, Bool.and_eq_true, isAnnotation] at h
  rw [isStripped, h.2]
  rfl

/-- What is read of a step that returns. -/
theorem returns_ok {α : Type} {x : Except AppError (α × ℕ)} {c r : α} {condition : Prop} {seen : ℕ}
    (h : Returns x c condition) (hx : x = .ok (r, seen)) : r = c ↔ condition := by
  rw [hx] at h
  exact h

theorem returns_error {α : Type} {x : Except AppError (α × ℕ)} {c : α} {condition : Prop}
    {e : AppError} (h : Returns x c condition) (hx : x = .error e) : IsLimit e ∨ ¬ condition := by
  rw [hx] at h
  exact h

/-- The keys that are left are keys of the object. -/
theorem mem_of_sanitizeEntries {members out : List (String × Value)} {seen seen' : ℕ}
    (h : sanitizeEntries sanitize seen members = .ok (out, seen')) {key : String}
    (hkey : key ∈ out.map Prod.fst) : key ∈ members.map Prod.fst := by
  induction members generalizing seen out with
  | nil =>
    cases h
    exact hkey
  | cons p members ih =>
    obtain ⟨k, v⟩ := p
    rw [sanitizeEntries] at h
    split at h
    · exact List.mem_cons_of_mem _ (ih h hkey)
    · obtain ⟨⟨r, seen₁⟩, hr, h⟩ := Except.bind_eq_ok_iff.mp h
      obtain ⟨⟨rest, seen₂⟩, hrest, h⟩ := Except.bind_eq_ok_iff.mp h
      cases h
      rcases List.mem_cons.mp hkey with rfl | hkey
      · exact List.mem_cons_self
      · exact List.mem_cons_of_mem _ (ih hrest hkey)

/-- The contract has a member for each one that is left. -/
theorem length_sanitizeEntries_le {child : SchemaPosition → Value → Option Value}
    {pos : SchemaPosition} {members out cs : List (String × Value)} {seen seen' : ℕ}
    (hcs : contractEntries child pos members = some cs)
    (h : sanitizeEntries sanitize seen members = .ok (out, seen')) : out.length ≤ cs.length := by
  induction members generalizing seen out cs with
  | nil =>
    cases h
    exact Nat.zero_le _
  | cons p members ih =>
    obtain ⟨k, v⟩ := p
    rw [contractEntries] at hcs
    rw [sanitizeEntries] at h
    split at hcs
    · next hdrops =>
      rw [if_pos (isStripped_of_drops hdrops)] at h
      exact ih hcs h
    · obtain ⟨c, -, hcs⟩ := Option.bind_eq_some_iff.mp hcs
      obtain ⟨rest, hrest, rfl⟩ := Option.map_eq_some_iff.mp hcs
      split at h
      · exact (ih hrest h).trans (Nat.le_succ _)
      · obtain ⟨⟨r, seen₁⟩, hr, h⟩ := Except.bind_eq_ok_iff.mp h
        obtain ⟨⟨tail, seen₂⟩, htail, h⟩ := Except.bind_eq_ok_iff.mp h
        cases h
        exact Nat.succ_le_succ (ih hrest htail)

/-- The loop over the members keeps the contract when it drops no more than the contract and keeps
the contract of every value. -/
theorem returns_sanitizeEntries {child : SchemaPosition → Value → Option Value}
    {good : String × Value → Prop} {pos : SchemaPosition} {members : List (String × Value)}
    (h : ∀ p ∈ members, pos.drops p.1 = false → ∀ seen c, child (pos.member p.1) p.2 = some c →
      Returns (sanitize seen p.2) c (good p)) (seen : ℕ) {cs : List (String × Value)}
    (hcs : contractEntries child pos members = some cs) :
    Returns (sanitizeEntries sanitize seen members) cs
      (∀ p ∈ members, pos.drops p.1 = false → isStripped p.1 = false ∧ good p) := by
  induction members generalizing seen cs with
  | nil =>
    cases hcs
    exact ⟨fun _ _ hp => absurd hp List.not_mem_nil, fun _ => rfl⟩
  | cons p members ih =>
    rw [List.forall_mem_cons] at h
    obtain ⟨key, v⟩ := p
    rw [contractEntries] at hcs
    rw [List.forall_mem_cons, sanitizeEntries]
    split at hcs
    · next hdrops =>
      have htail := ih h.2 seen hcs
      have hvacuous : (SchemaPosition.drops pos key = false →
          isStripped key = false ∧ good (key, v)) := fun hfalse => by
        rw [hdrops] at hfalse
        cases hfalse
      rw [if_pos (isStripped_of_drops hdrops), and_iff_right hvacuous]
      exact htail
    · next hkept =>
      have hfalse : pos.drops key = false := Bool.not_eq_true _ ▸ hkept
      obtain ⟨c, hc, hcs⟩ := Option.bind_eq_some_iff.mp hcs
      obtain ⟨rest, hrest, rfl⟩ := Option.map_eq_some_iff.mp hcs
      by_cases hstripped : isStripped key = true
      · -- the contract has one member more than the walk leaves
        rw [if_pos hstripped]
        have hbad : ¬ ((pos.drops key = false → isStripped key = false ∧ good (key, v)) ∧
            ∀ p ∈ members, pos.drops p.1 = false → isStripped p.1 = false ∧ good p) := fun hall =>
          absurd hstripped (by rw [(hall.1 hfalse).1]; decide)
        rw [Returns.eq_def]
        split
        · next out seen' hout =>
          have hlen := length_sanitizeEntries_le hrest hout
          refine ⟨fun heq => ?_, fun hall => absurd hall hbad⟩
          rw [heq, List.length_cons] at hlen
          omega
        · exact .inr hbad
      · have hplain : isStripped key = false := Bool.not_eq_true _ ▸ hstripped
        have hhead := h.1 hfalse seen c hc
        rw [if_neg hstripped]
        match hx : sanitize seen v with
        | .error e =>
          rcases returns_error hhead hx with hlimit | hgood
          · exact .inl hlimit
          · exact .inr fun hall => hgood (hall.1 hfalse).2
        | .ok (r, seen₁) =>
          have hvalue := returns_ok hhead hx
          have htail := ih h.2 seen₁ hrest
          match hy : sanitizeEntries sanitize seen₁ members with
          | .error e =>
            have herror : IsLimit e ∨ _ := returns_error htail hy
            simp only [bind, Except.bind, hy]
            rcases herror with hlimit | hgood
            · exact .inl hlimit
            · exact .inr fun hall => hgood hall.2
          | .ok (out, seen₂) =>
            have hrestIff := returns_ok htail hy
            simp only [bind, Except.bind, hy, pure, Except.pure, Returns, List.cons.injEq,
              Prod.mk.injEq, true_and, hvalue, hrestIff]
            exact and_congr_left fun _ => ⟨fun hgood _ => ⟨hplain, hgood⟩, fun hall =>
              (hall hfalse).2⟩

/-- The loop over the items keeps the contracts when it keeps each of them. -/
theorem returns_sanitizeList {child : Value → Option Value} {good : Value → Prop}
    {items : List Value} (h : ∀ item ∈ items, ∀ seen c, child item = some c →
      Returns (sanitize seen item) c (good item)) (seen : ℕ) {cs : List Value}
    (hcs : items.mapM child = some cs) :
    Returns (sanitizeList sanitize seen items) cs (∀ item ∈ items, good item) := by
  induction items generalizing seen cs with
  | nil =>
    cases hcs
    exact ⟨fun _ _ hp => absurd hp List.not_mem_nil, fun _ => rfl⟩
  | cons item items ih =>
    rw [List.forall_mem_cons] at h
    rw [List.mapM_cons] at hcs
    obtain ⟨c, hc, hcs⟩ := Option.bind_eq_some_iff.mp hcs
    obtain ⟨rest, hrest, hcs⟩ := Option.bind_eq_some_iff.mp hcs
    cases hcs
    rw [List.forall_mem_cons, sanitizeList]
    have hhead := h.1 seen c hc
    match hx : sanitize seen item with
    | .error e =>
      rcases returns_error hhead hx with hlimit | hgood
      · exact .inl hlimit
      · exact .inr fun hall => hgood hall.1
    | .ok (r, seen₁) =>
      have hvalue := returns_ok hhead hx
      have htail := ih h.2 seen₁ hrest
      match hy : sanitizeList sanitize seen₁ items with
      | .error e =>
        simp only [bind, Except.bind, hy]
        rcases returns_error htail hy with hlimit | hgood
        · exact .inl hlimit
        · exact .inr fun hall => hgood hall.2
      | .ok (out, seen₂) =>
        have hrestIff := returns_ok htail hy
        simp only [bind, Except.bind, hy, pure, Except.pure, Returns, List.cons.injEq, hvalue,
          hrestIff]

end Loops

/-! ### Data -/

theorem hasKey_obj_iff {members : List (String × Value)} {key : String} :
    (Value.obj members).hasKey key = true ↔ key ∈ members.map Prod.fst := by
  rw [Value.hasKey, Value.get?_obj, List.lookup_isSome_iff, List.mem_map]
  exact exists_congr fun p => and_congr_right fun _ => by rw [beq_iff_eq, eq_comm]

theorem countNode_error {seen : ℕ} {e : AppError} (h : countNode seen = .error e) : IsLimit e := by
  rw [countNode] at h
  split at h
  · cases h
    rfl
  · cases h

/-- No reference is left. -/
theorem hasKey_ref_of_sanitizeNode {left seen seen' : ℕ} {v r : Value}
    (h : sanitizeNode document left seen v = .ok (r, seen')) : r.hasKey "$ref" = false := by
  induction left generalizing seen v with
  | zero => cases h
  | succ left ih =>
    rw [sanitizeNode] at h
    obtain ⟨seen₁, -, h⟩ := Except.bind_eq_ok_iff.mp h
    match v with
    | .obj members =>
      dsimp only at h
      split at h
      · obtain ⟨⟨resolved, seen₂⟩, -, h⟩ := Except.bind_eq_ok_iff.mp h
        exact ih h
      · next hplain =>
        obtain ⟨⟨out, seen₂⟩, hout, h⟩ := Except.bind_eq_ok_iff.mp h
        cases h
        rw [← Bool.not_eq_true, hasKey_obj_iff]
        exact fun hmem => hplain (hasKey_obj_iff.mpr (mem_of_sanitizeEntries hout hmem))
    | .arr items =>
      dsimp only at h
      split at h
      · cases h
      · obtain ⟨⟨out, seen₂⟩, -, h⟩ := Except.bind_eq_ok_iff.mp h
        cases h
        rfl
    | .null => cases h; rfl
    | .bool _ => cases h; rfl
    | .int _ => cases h; rfl
    | .float _ => cases h; rfl
    | .str _ => cases h; rfl

/-- A value with a reference key is never what the walk returns. -/
theorem returns_of_hasKey {left seen : ℕ} {v c : Value} (hc : c.hasKey "$ref" = true)
    {condition : Prop} (hcondition : ¬ condition) :
    Returns (sanitizeNode document left seen v) c condition := by
  match h : sanitizeNode document left seen v with
  | .ok (r, seen') =>
    refine ⟨fun heq => ?_, fun hcond => absurd hcond hcondition⟩
    rw [← heq, hasKey_ref_of_sanitizeNode h] at hc
    cases hc
  | .error e => exact .inr hcondition

theorem contractEntries_some (members : List (String × Value)) :
    contractEntries (fun _ v => some v) .data members = some members := by
  induction members with
  | nil => rfl
  | cons p members ih =>
    have hdrops : SchemaPosition.data.drops p.1 = false := rfl
    rw [contractEntries, hdrops, if_neg Bool.false_ne_true, ih]
    rfl

theorem mapM_some (items : List Value) : items.mapM some = some items := by
  induction items with
  | nil => rfl
  | cons item items ih => rw [List.mapM_cons, ih]; rfl

/-- A string is cut when it is long. -/
theorem take_eq_iff {s : String} {n : ℕ} :
    Value.str (String.ofList (s.toList.take n)) = .str s ↔ s.toList.length ≤ n := by
  rw [Value.str.injEq, ← String.toList_inj, String.toList_ofList, List.take_eq_self_iff]

/-- An object without a reference is walked member by member. -/
theorem returns_obj {left : ℕ} {child : SchemaPosition → Value → Option Value}
    {good : String × Value → Prop} {pos : SchemaPosition} {members cs : List (String × Value)}
    (hplain : (Value.obj members).hasKey "$ref" = false)
    (h : ∀ p ∈ members, pos.drops p.1 = false → ∀ seen c, child (pos.member p.1) p.2 = some c →
      Returns (sanitizeNode document left seen p.2) c (good p)) (seen : ℕ)
    (hcs : contractEntries child pos members = some cs) :
    Returns (sanitizeNode document (left + 1) seen (.obj members)) (.obj cs)
      (∀ p ∈ members, pos.drops p.1 = false → isStripped p.1 = false ∧ good p) := by
  rw [sanitizeNode]
  match hcount : countNode seen with
  | .error e => exact .inl (countNode_error hcount)
  | .ok seen₁ =>
    have hloop := returns_sanitizeEntries h seen₁ hcs
    simp only [bind, Except.bind, hplain, Bool.false_eq_true, if_false]
    match hout : sanitizeEntries (sanitizeNode document left) seen₁ members with
    | .error e => exact returns_error hloop hout
    | .ok (out, seen₂) =>
      have hiff := returns_ok hloop hout
      rw [← hiff]
      exact ⟨Value.obj.inj, fun heq => congrArg Value.obj heq⟩

/-- An array is walked item by item. -/
theorem returns_arr {left : ℕ} {child : Value → Option Value} {good : Value → Prop}
    {items cs : List Value} (h : ∀ item ∈ items, ∀ seen c, child item = some c →
      Returns (sanitizeNode document left seen item) c (good item)) (seen : ℕ)
    (hcs : items.mapM child = some cs) :
    Returns (sanitizeNode document (left + 1) seen (.arr items)) (.arr cs)
      (∀ item ∈ items, good item) := by
  rw [sanitizeNode]
  match hcount : countNode seen with
  | .error e => exact .inl (countNode_error hcount)
  | .ok seen₁ =>
    have hloop := returns_sanitizeList h seen₁ hcs
    simp only [bind, Except.bind]
    split
    · exact .inl rfl
    · match hout : sanitizeList (sanitizeNode document left) seen₁ items with
      | .error e => exact returns_error hloop hout
      | .ok (out, seen₂) =>
        have hiff := returns_ok hloop hout
        rw [← hiff]
        exact ⟨Value.arr.inj, fun heq => congrArg Value.arr heq⟩

/-- A scalar is kept, but for a string that is cut. -/
theorem returns_scalar {left : ℕ} {v : Value} (hobj : ∀ members, v ≠ .obj members)
    (harr : ∀ items, v ≠ .arr items) (seen : ℕ) :
    Returns (sanitizeNode document (left + 1) seen v) v (Verbatim v) := by
  rw [sanitizeNode]
  match hcount : countNode seen with
  | .error e => exact .inl (countNode_error hcount)
  | .ok seen₁ =>
    match v with
    | .null => exact ⟨fun _ => trivial, fun _ => rfl⟩
    | .bool _ => exact ⟨fun _ => trivial, fun _ => rfl⟩
    | .int _ => exact ⟨fun _ => trivial, fun _ => rfl⟩
    | .float _ => exact ⟨fun _ => trivial, fun _ => rfl⟩
    | .str s => exact take_eq_iff
    | .arr items => exact absurd rfl (harr items)
    | .obj members => exact absurd rfl (hobj members)

/-- Data is kept when nothing in it looks like a keyword or a reference. -/
theorem returns_verbatim (document : Value) (left : ℕ) (v : Value) (seen : ℕ) :
    Returns (sanitizeNode document left seen v) v (Verbatim v) := by
  induction left generalizing v seen with
  | zero => exact .inl rfl
  | succ left ih =>
    match v with
    | .obj members =>
      by_cases href : (Value.obj members).hasKey "$ref" = true
      · refine returns_of_hasKey href fun hverbatim => ?_
        rw [Verbatim, href] at hverbatim
        cases hverbatim.1
      · have hplain : (Value.obj members).hasKey "$ref" = false := Bool.not_eq_true _ ▸ href
        have hobj := @returns_obj document left (fun _ v => some v) (fun p => Verbatim p.2) .data _ _ hplain
          (fun p _ _ seen c hc => Option.some.inj hc ▸ ih p.2 seen) seen
          (contractEntries_some members)
        have hiff : (∀ p ∈ members, SchemaPosition.data.drops p.1 = false →
            isStripped p.1 = false ∧ Verbatim p.2) ↔ Verbatim (.obj members) := by
          rw [Verbatim, verbatimMembers_iff, and_iff_right hplain]
          exact forall_congr' fun p => forall_congr' fun _ => ⟨fun hp => hp rfl, fun hp _ => hp⟩
        rwa [hiff] at hobj
    | .arr items =>
      have harr := @returns_arr document left some Verbatim _ _
        (fun item _ seen c hc => Option.some.inj hc ▸ ih item seen) seen
        (mapM_some items)
      rwa [← verbatimItems_iff, ← Verbatim] at harr
    | .null => exact returns_scalar (by simp) (by simp) seen
    | .bool _ => exact returns_scalar (by simp) (by simp) seen
    | .int _ => exact returns_scalar (by simp) (by simp) seen
    | .float _ => exact returns_scalar (by simp) (by simp) seen
    | .str _ => exact returns_scalar (by simp) (by simp) seen

/-! ### References -/

/-- What a reference in a schema means. -/
theorem contract_ref {n : ℕ} {node c : Value} (href : node.hasKey "$ref" = true)
    (h : contract document n .schema node = some c) :
    ∃ m target, n = m + 1 ∧ target? document node = some target ∧
      contract document m .schema target = some c ∧
      (Kept document n .schema node ↔ Kept document m .schema target) := by
  match n, node with
  | m + 1, .obj members =>
    rw [contract, if_pos href] at h
    obtain ⟨target, htarget, hc⟩ := Option.bind_eq_some_iff.mp h
    refine ⟨m, target, rfl, htarget, hc, ?_⟩
    rw [Kept, if_pos href]
    refine ⟨?_, fun hkept => ⟨target, htarget, hkept⟩⟩
    rintro ⟨other, hother, hkept⟩
    rw [htarget] at hother
    exact Option.some.inj hother ▸ hkept

theorem target?_eq_some {node target : Value} (h : target? document node = some target) :
    ∃ raw ref, node.get? "$ref" = some raw ∧ refText raw = .ok ref ∧
      lookupRef document ref = .ok target := by
  obtain ⟨raw, hraw, htarget⟩ := Option.bind_eq_some_iff.mp h
  obtain ⟨ref, href, hlookup⟩ := Except.bind_eq_ok_iff.mp (Except.toOption_eq_some_iff.mp htarget)
  exact ⟨raw, ref, hraw, href, hlookup⟩

/-- The contract of `node` is on the way to that of `target`. -/
def LeadsTo (document target node : Value) : Prop :=
  ∀ m c, contract document m .schema target = some c →
    ∃ m' ≤ m, (contract document m' .schema node).isSome = true

/-- A reference that leads back to itself has no contract. -/
theorem contract_eq_none_of_cycle {node target : Value} (href : node.hasKey "$ref" = true)
    (htarget : target? document node = some target) (hback : LeadsTo document target node) (n : ℕ) :
    contract document n .schema node = none := by
  induction n using Nat.strong_induction_on with
  | _ n ih =>
    refine Option.eq_none_iff_forall_ne_some.mpr fun c hc => ?_
    obtain ⟨m, target', rfl, htarget', hm, -⟩ := contract_ref href hc
    rw [htarget] at htarget'
    obtain ⟨m', hle, hsome⟩ := hback m c (Option.some.inj htarget' ▸ hm)
    rw [ih m' (by omega)] at hsome
    cases hsome

/-- Following a chain of references leads to the contract of its end, or beyond the limits. -/
theorem resolveNode_spec {left : ℕ} {stack : List String} {seen n : ℕ} {node c : Value}
    (h : contract document n .schema node = some c)
    (hstack : ∀ ref ∈ stack, ∀ target, lookupRef document ref = .ok target →
      LeadsTo document target node) :
    match resolveNode document left stack seen node with
    | .ok (resolved, _) => resolved.hasKey "$ref" = false ∧ ∃ m,
        contract document m .schema resolved = some c ∧
          (Kept document n .schema node ↔ Kept document m .schema resolved)
    | .error e => IsLimit e := by
  induction left generalizing stack seen n node with
  | zero =>
    rw [resolveNode]
    match hcount : countNode seen with
    | .error e => exact countNode_error hcount
    | .ok seen₁ =>
      simp only [bind, Except.bind]
      match hget : node.get? "$ref" with
      | none => exact ⟨by rw [Value.hasKey, hget]; rfl, n, h, Iff.rfl⟩
      | some raw =>
        have href : node.hasKey "$ref" = true := by rw [Value.hasKey, hget]; rfl
        obtain ⟨m, target, rfl, htarget, -, -⟩ := contract_ref href h
        obtain ⟨raw', ref, hraw, htext, -⟩ := target?_eq_some htarget
        rw [hget] at hraw
        cases hraw
        simp only [htext]
        rfl
  | succ left ih =>
    rw [resolveNode]
    match hcount : countNode seen with
    | .error e => exact countNode_error hcount
    | .ok seen₁ =>
      simp only [bind, Except.bind]
      match hget : node.get? "$ref" with
      | none => exact ⟨by rw [Value.hasKey, hget]; rfl, n, h, Iff.rfl⟩
      | some raw =>
        have href : node.hasKey "$ref" = true := by rw [Value.hasKey, hget]; rfl
        obtain ⟨m, target, rfl, htarget, hm, hkept⟩ := contract_ref href h
        obtain ⟨raw', ref, hraw, htext, hlookup⟩ := target?_eq_some htarget
        rw [hget] at hraw
        cases hraw
        have hfresh : ref ∉ stack := fun hmem => by
          rw [contract_eq_none_of_cycle href htarget (hstack ref hmem target hlookup)] at h
          cases h
        simp only [htext, if_neg hfresh, hlookup]
        have hnext := @ih (stack ++ [ref]) seen₁ _ _ hm (by
          intro ref' hmem target' htarget'
          rcases List.mem_append.mp hmem with hmem | hmem
          · intro k c' hc'
            obtain ⟨k', hle, hsome⟩ := hstack ref' hmem target' htarget' k c' hc'
            obtain ⟨d, hd⟩ := Option.isSome_iff_exists.mp hsome
            obtain ⟨k'', t, hk, ht, hkd, -⟩ := contract_ref href hd
            rw [htarget] at ht
            exact ⟨k'', by omega, by rw [Option.some.inj ht, hkd]; rfl⟩
          · rw [List.mem_singleton.mp hmem, hlookup] at htarget'
            intro k c' hc'
            exact ⟨k, Nat.le_refl k, by rw [Except.ok.inj htarget', hc']; rfl⟩)
        rw [hkept]
        exact hnext

/-! ### Schemas -/

/-- A map of names loses no name. -/
theorem map_fst_contractEntries {child : SchemaPosition → Value → Option Value}
    {members cs : List (String × Value)} (h : contractEntries child .names members = some cs) :
    cs.map Prod.fst = members.map Prod.fst := by
  induction members generalizing cs with
  | nil =>
    cases h
    rfl
  | cons p members ih =>
    have hdrops : SchemaPosition.names.drops p.1 = false := rfl
    rw [contractEntries, hdrops, if_neg Bool.false_ne_true] at h
    obtain ⟨c, -, h⟩ := Option.bind_eq_some_iff.mp h
    obtain ⟨rest, hrest, rfl⟩ := Option.map_eq_some_iff.mp h
    rw [List.map_cons, List.map_cons, ih hrest]

/-- The walk returns the contract exactly where nothing but annotations is dropped. -/
theorem returns_contract (document : Value) (left n : ℕ) (pos : SchemaPosition) (v : Value)
    (seen : ℕ) {c : Value} (h : contract document n pos v = some c) :
    Returns (sanitizeNode document left seen v) c (Kept document n pos v) := by
  induction left generalizing n pos v seen c with
  | zero => exact .inl rfl
  | succ left ih =>
    match n with
    | 0 => cases h
    | n + 1 =>
      have hdata {c : Value} (hc : some v = some c) :
          Returns (sanitizeNode document (left + 1) seen v) c (Verbatim v) :=
        Option.some.inj hc ▸ returns_verbatim document (left + 1) v seen
      match v, pos with
      | .arr items, .schema =>
        obtain ⟨cs, hcs, rfl⟩ := Option.map_eq_some_iff.mp h
        exact returns_arr (fun item _ seen c hc => ih n .schema item seen hc) seen hcs
      | .obj members, .schema =>
        by_cases href : (Value.obj members).hasKey "$ref" = true
        · -- the walk goes on at the end of the chain
          rw [sanitizeNode]
          match hcount : countNode seen with
          | .error e => exact .inl (countNode_error hcount)
          | .ok seen₁ =>
            have hspec := @resolveNode_spec _ maxRefDepth [] seen₁ _ _ _ h
              fun _ hmem => absurd hmem List.not_mem_nil
            simp only [bind, Except.bind, href, if_true]
            match hresolve : resolveNode document maxRefDepth [] seen₁ (.obj members) with
            | .error e =>
              rw [hresolve] at hspec
              exact .inl hspec
            | .ok (resolved, seen₂) =>
              rw [hresolve] at hspec
              obtain ⟨-, m, hm, hkept⟩ := hspec
              rw [hkept]
              exact ih m .schema resolved seen₂ hm
        · have hplain : (Value.obj members).hasKey "$ref" = false := Bool.not_eq_true _ ▸ href
          rw [contract, if_neg href] at h
          obtain ⟨cs, hcs, rfl⟩ := Option.map_eq_some_iff.mp h
          rw [Kept, if_neg href]
          exact returns_obj hplain (fun p _ _ seen c hc => ih n _ p.2 seen hc) seen hcs
      | .obj members, .names =>
        obtain ⟨cs, hcs, rfl⟩ := Option.map_eq_some_iff.mp h
        by_cases href : (Value.obj members).hasKey "$ref" = true
        · refine returns_of_hasKey ?_ fun hkept => ?_
          · rw [hasKey_obj_iff, map_fst_contractEntries hcs]
            exact hasKey_obj_iff.mp href
          · rw [Kept, href] at hkept
            cases hkept.1
        · have hplain : (Value.obj members).hasKey "$ref" = false := Bool.not_eq_true _ ▸ href
          rw [Kept, and_iff_right hplain]
          exact returns_obj hplain (fun p _ _ seen c hc => ih n _ p.2 seen hc) seen hcs
      | .obj members, .data => exact hdata h
      | .arr items, .names => exact hdata h
      | .arr items, .data => exact hdata h
      | .null, _ => exact hdata h
      | .bool _, _ => exact hdata h
      | .int _, _ => exact hdata h
      | .float _, _ => exact hdata h
      | .str _, _ => exact hdata h

/-- Let the references of a schema end, so that it has a contract `c`, and let the analysis stay within
its limits. The normalized schema is the contract if and only if at every position that the references
lead to no name and no data is dropped, replaced or cut, and the schema is an object. -/
theorem normalizeSchema_eq_contract_iff {document schema c : Value} {n seen : ℕ}
    (hc : contract document n .schema schema = some c)
    (hlimit : ∀ e, normalizeSchema document seen schema = .error e → ¬ IsLimit e) :
    (∃ seen', normalizeSchema document seen schema = .ok (c, seen')) ↔
      Kept document n .schema schema ∧ c.isObj = true := by
  have hspec := @resolveNode_spec _ maxRefDepth [] seen _ _ _ hc
    fun _ hmem => absurd hmem List.not_mem_nil
  rw [normalizeSchema] at hlimit ⊢
  simp only [bind, Except.bind] at hlimit ⊢
  match hresolve : resolveNode document maxRefDepth [] seen schema with
  | .error e =>
    rw [hresolve] at hspec hlimit
    exact absurd hspec (hlimit e rfl)
  | .ok (resolved, seen₁) =>
    rw [hresolve] at hspec hlimit
    obtain ⟨-, m, hm, hkept⟩ := hspec
    have hwalk := returns_contract document (maxRefDepth + 1) m .schema resolved seen₁ hm
    dsimp only at hlimit ⊢
    rw [hkept]
    match hsanitize : sanitizeNode document (maxRefDepth + 1) seen₁ resolved with
    | .error e =>
      rw [hsanitize] at hlimit
      have hbad := (returns_error hwalk hsanitize).resolve_left (hlimit e rfl)
      exact ⟨fun ⟨_, herror⟩ => by simp at herror, fun hall => absurd hall.1 hbad⟩
    | .ok (r, seen₂) =>
      have hiff := returns_ok hwalk hsanitize
      dsimp only
      rw [← hiff]
      split
      · next hobj =>
        refine ⟨?_, fun hall => ⟨seen₂, by rw [hall.1]; rfl⟩⟩
        rintro ⟨seen', heq⟩
        obtain ⟨rfl, -⟩ := Prod.mk.inj (Except.ok.inj heq)
        exact ⟨rfl, hobj⟩
      · next hobj =>
        refine ⟨fun ⟨_, herror⟩ => by simp at herror, fun hall => absurd ?_ hobj⟩
        rw [hall.1]
        exact hall.2

/-- A document with one shared schema, of a kind of identifier. -/
def idDocument : Value :=
  .obj [("components", .obj [("schemas", .obj [("Id", .obj [("type", .str "string"),
    ("example", .str "a1")])])])]

/-- A schema with a property of that kind. -/
def idSchema : Value :=
  .obj [("type", .str "object"), ("properties", .obj [("id", .obj [("$ref",
    .str "#/components/schemas/Id")])]), ("required", .arr [.str "id"])]

/-- The schema with its reference replaced and the example dropped. -/
def idContract : Value :=
  .obj [("type", .str "object"), ("properties", .obj [("id", .obj [("type", .str "string")])]),
    ("required", .arr [.str "id"])]

theorem normalizeSchema_idSchema :
    (∃ seen', normalizeSchema idDocument 0 idSchema = .ok (idContract, seen')) ↔
      Kept idDocument 5 .schema idSchema ∧ idContract.isObj = true :=
  normalizeSchema_eq_contract_iff (by decide) fun e he => by
    have hok : (normalizeSchema idDocument 0 idSchema).isOk = true := by decide
    rw [he] at hok
    cases hok

/-- A schema whose one property has the name of an annotation. -/
def defaultSchema : Value :=
  .obj [("type", .str "object"), ("properties", .obj [("default", .obj [("type", .str "string")])]),
    ("required", .arr [.str "default"])]

theorem normalizeSchema_defaultSchema :
    contract (.obj []) 5 .schema defaultSchema = some defaultSchema ∧
      normalizeSchema (.obj []) 0 defaultSchema =
        .ok (.obj [("type", .str "object"), ("properties", .obj []),
          ("required", .arr [.str "default"])], 6) ∧
      ¬ ∃ seen', normalizeSchema (.obj []) 0 defaultSchema = .ok (defaultSchema, seen') := by
  have hlost : normalizeSchema (.obj []) 0 defaultSchema =
      .ok (.obj [("type", .str "object"), ("properties", .obj []),
        ("required", .arr [.str "default"])], 6) := by decide
  refine ⟨by decide, hlost, ?_⟩
  rintro ⟨seen', heq⟩
  rw [hlost] at heq
  exact absurd (Prod.mk.inj (Except.ok.inj heq)).1 (by decide)

end McpFlow.Factory
