import McpFlow.Library.Lists
import McpFlow.Workflow.Plan

/-!
# How a plan document is written

A plan read from a document dumps to a document equal to it exactly when the author wrote every
member with a default, the id of the workflow in its canonical text, and every number and truth
value as one. A dumped plan reads back as the plan.
-/

namespace McpFlow.Workflow

open Json
open Json.Value (str? object nullable dict)

variable {c : Coercion} {j : Value}

/-! ### Written members -/

/-- The truth value of the member is equal to what is read from it. -/
def boolKept (c : Coercion) (j : Value) (name : String) : Bool :=
  (j.get? name).any fun v => (c.bool v).any fun b => (Value.bool b).pyEq v

/-- The number of the member is equal to what is read from it. -/
def intKept (c : Coercion) (j : Value) (name : String) : Bool :=
  (j.get? name).any fun v => (c.int v).any fun i => (Value.int i).pyEq v

/-- The member is the canonical text of its UUID. -/
def uuidKept (c : Coercion) (j : Value) (name : String) : Bool :=
  (j.get? name).any fun v => (c.uuid v).any fun u => v = .str u.toString

/-- An input definition written in full. -/
def inputWritten (c : Coercion) (j : Value) : Bool :=
  boolKept c j "required" && boolKept c j "secret"

/-- Limits written in full. -/
def limitsWritten (c : Coercion) (j : Value) : Bool := PlanLimits.fields.all (intKept c j)

/-- A step written in full. -/
def stepWritten (c : Coercion) (j : Value) : Bool :=
  j.hasKey "when" && boolKept c j "required" && intKept c j "timeout_seconds"

/-- The document of a workflow plan is written in full. -/
def writtenInFull (c : Coercion) (j : Value) : Bool :=
  uuidKept c (j.getD "source") "workflow_id" && limitsWritten c (j.getD "limits") &&
    ((j.getD "inputs").members?.getD []).all (fun m => inputWritten c m.2) &&
    ((j.getD "steps").arr?.getD []).all (stepWritten c)

/-! ### Equality with an object -/

theorem pyEqMembers_iff {as bs : List (String × Value)} :
    Value.pyEqMembers as bs = true ↔ ∀ m ∈ as, ∃ v, bs.lookup m.1 = some v ∧ m.2.pyEq v = true := by
  induction as with
  | nil => simp [Value.pyEqMembers]
  | cons m as ih =>
    obtain ⟨k, a⟩ := m
    rw [Value.pyEqMembers, Bool.and_eq_true, ih, List.forall_mem_cons]
    refine and_congr_left' ?_
    cases bs.lookup k <;> simp

/-- Equality with a written object: its members are equal, and there are no others. -/
theorem pyEq_obj_iff {as : List (String × Value)} :
    (Value.obj as).pyEq j = true ↔
      (∀ m ∈ as, ∃ v, j.get? m.1 = some v ∧ m.2.pyEq v = true) ∧
        j.forbidsExtra (as.map Prod.fst) = true := by
  cases j with
  | obj bs =>
    rw [Value.pyEq, Bool.and_eq_true, pyEqMembers_iff, Value.forbidsExtra]
    simp [List.mem_map]
  | null | bool | int | float | str | arr => simp [Value.pyEq, Value.forbidsExtra]

@[simp] theorem pyEq_str_iff {s : String} : (Value.str s).pyEq j = true ↔ j = .str s := by
  cases j with
  | str t =>
    rw [Value.pyEq, beq_iff_eq, Value.str.injEq]
    exact eq_comm
  | null | bool | int | float | arr | obj => simp [Value.pyEq]

theorem pyEqItems_iff {α : Type} {dump : α → Value} {p : Value → Bool} {items : List Value}
    {ys : List α} (h : List.Forall₂ (fun v y => (dump y).pyEq v = true ↔ p v = true) items ys) :
    Value.pyEqItems (ys.map dump) items = true ↔ items.all p = true := by
  induction h with
  | nil => simp [Value.pyEqItems]
  | cons hv _ ih => rw [List.map_cons, Value.pyEqItems, List.all_cons, Bool.and_eq_true,
      Bool.and_eq_true, hv, ih]

/-! ### Members of a read object -/

theorem forall_of_get? {name : String} {v : Value} {P : Value → Prop} (h : j.get? name = some v)
    (hv : P v) : ∀ v', j.get? name = some v' → P v' := by
  intro v' hv'
  rw [h] at hv'
  cases hv'
  exact hv

theorem exists_get?_str_iff {name s : String} (h : j.get? name = some (.str s)) :
    (∃ v, j.get? name = some v ∧ (Value.str s).pyEq v = true) ↔ True := by
  simp [h]

theorem exists_get?_bool_iff {name : String} {b : Bool}
    (h : ∀ v, j.get? name = some v → c.bool v = some b) :
    (∃ v, j.get? name = some v ∧ (Value.bool b).pyEq v = true) ↔ boolKept c j name = true := by
  unfold boolKept
  cases hv : j.get? name with
  | none => simp
  | some v => simp [h v hv]

theorem exists_get?_int_iff {name : String} {n : ℕ} (hn : 1 ≤ n)
    (h : ∀ v, j.get? name = some v → (c.int v).map Int.toNat = some n) :
    (∃ v, j.get? name = some v ∧ (Value.int n).pyEq v = true) ↔ intKept c j name = true := by
  unfold intKept
  cases hv : j.get? name with
  | none => simp
  | some v =>
    obtain ⟨i, hi, hin⟩ := Option.map_eq_some_iff.mp (h v hv)
    have hin : (n : ℤ) = i := by omega
    simp [hi, hin]

theorem exists_get?_uuid_iff {name : String} {u : UUID}
    (h : ∀ v, j.get? name = some v → c.uuid v = some u) :
    (∃ v, j.get? name = some v ∧ (Value.str u.toString).pyEq v = true) ↔
      uuidKept c j name = true := by
  unfold uuidKept
  cases hv : j.get? name with
  | none => simp
  | some v => simp [h v hv]

theorem field_eq_some_iff {α : Type} {name : String} {read : Value → Option α} {a : α} :
    j.field name read = some a ↔ ∃ v, j.get? name = some v ∧ read v = some a :=
  Option.bind_eq_some_iff

theorem readPos_eq_some {v : Value} {n : { n : ℕ // 1 ≤ n }} (h : readPos c v = some n) :
    (c.int v).map Int.toNat = some n.1 := by
  obtain ⟨i, hi, hn⟩ := Option.bind_eq_some_iff.mp h
  split at hn
  · cases hn
    rw [hi, Option.map_some]
  · cases hn

theorem readNonBlank_eq_some {v : Value} {s : { s : String // Text.nonBlank s = true }}
    (h : readNonBlank v = some s) : v = .str s.1 := by
  obtain ⟨t, ht, hs⟩ := Option.bind_eq_some_iff.mp h
  split at hs
  · cases hs
    exact Value.str?_eq_some_iff.mp ht
  · cases hs

/-! ### The parts of a plan -/

theorem inputWritten_iff {d : PlanInputDefinition} (h : PlanInputDefinition.read c j = some d) :
    d.dump.pyEq j = true ↔ inputWritten c j = true := by
  unfold PlanInputDefinition.read at h
  split at h
  · next hextra =>
    simp only [bind, Option.bind_eq_some_iff, field_eq_some_iff, pure, Option.some.injEq] at h
    obtain ⟨type, ⟨v, hv, htype⟩, required, ⟨v', hv', hrequired⟩, secret, hsecret, rfl⟩ := h
    obtain rfl := Value.str?_eq_some_iff.mp htype
    have hsecret' : ∀ u, j.get? "secret" = some u → c.bool u = some secret := by
      intro u hu
      simpa [Value.fieldD, hu] using hsecret
    rw [PlanInputDefinition.dump, pyEq_obj_iff]
    refine (and_iff_left hextra).trans ?_
    simp only [List.forall_mem_cons, List.not_mem_nil, false_implies, implies_true, and_true]
    rw [exists_get?_str_iff hv, exists_get?_bool_iff (forall_of_get? hv' hrequired),
      exists_get?_bool_iff hsecret', true_and, inputWritten, Bool.and_eq_true]
  · cases h

theorem limitsWritten_iff {l : PlanLimits} (h : PlanLimits.read c j = some l) :
    l.dump.pyEq j = true ↔ limitsWritten c j = true := by
  unfold PlanLimits.read at h
  split at h
  · next hextra =>
    simp only [bind, Option.bind_eq_some_iff, field_eq_some_iff, pure, Option.some.injEq] at h
    obtain ⟨a, ⟨va, hva, ha⟩, b, ⟨vb, hvb, hb⟩, d, ⟨vd, hvd, hd⟩, e, ⟨ve, hve, he⟩, rfl⟩ := h
    rw [PlanLimits.dump, pyEq_obj_iff]
    refine (and_iff_left hextra).trans ?_
    simp only [List.forall_mem_cons, List.not_mem_nil, false_implies, implies_true, and_true]
    rw [exists_get?_int_iff a.2 (forall_of_get? hva (readPos_eq_some ha)),
      exists_get?_int_iff b.2 (forall_of_get? hvb (readPos_eq_some hb)),
      exists_get?_int_iff d.2 (forall_of_get? hvd (readPos_eq_some hd)),
      exists_get?_int_iff e.2 (forall_of_get? hve (readPos_eq_some he))]
    simp [limitsWritten, PlanLimits.fields]
  · cases h

theorem sourceWritten_iff {w : UUID} (h : PlanSource.read c j = some (.workflow w)) :
    (PlanSource.workflow w).dump.pyEq j = true ↔ uuidKept c j "workflow_id" = true := by
  unfold PlanSource.read at h
  split at h
  · split at h
    · obtain ⟨_, _, ⟨⟩⟩ := Option.map_eq_some_iff.mp h
    · cases h
  · next htype =>
    split at h
    · next hextra =>
      obtain ⟨u, hu, hw⟩ := Option.map_eq_some_iff.mp h
      cases hw
      obtain ⟨v, hv, hread⟩ := field_eq_some_iff.mp hu
      obtain ⟨v', hv', htype⟩ := Option.bind_eq_some_iff.mp htype
      obtain rfl := Value.str?_eq_some_iff.mp htype
      rw [PlanSource.dump, pyEq_obj_iff]
      refine (and_iff_left hextra).trans ?_
      simp only [List.forall_mem_cons, List.not_mem_nil, false_implies, implies_true, and_true]
      rw [exists_get?_str_iff hv', exists_get?_uuid_iff (forall_of_get? hv hread), true_and]
    · cases h
  · split at h
    · simp only [bind, Option.bind_eq_some_iff, pure, Option.some.injEq] at h
      obtain ⟨_, _, _, _, ⟨⟩⟩ := h
    · cases h
  · cases h

theorem list_str_eq_some {v : Value} {l : List String} (h : Value.list str? v = some l) :
    v = .arr (l.map .str) := by
  cases v with
  | arr items =>
    have hpairs : List.Forall₂ (fun v s => str? v = some s) items l :=
      List.forall₂_of_mapM_eq_some h
    have hitems : items = l.map .str := by
      clear h
      induction hpairs with
      | nil => rfl
      | cons hx _ ih => rw [List.map_cons, Value.str?_eq_some_iff.mp hx, ih]
    rw [hitems]
  | null | bool | int | float | str | obj => cases h

theorem pyEq_arr_str (l : List String) : (Value.arr (l.map .str)).pyEq (.arr (l.map .str)) = true := by
  rw [Value.pyEq]
  induction l with
  | nil => rfl
  | cons s l ih => simp [Value.pyEqItems, ih]

theorem readEnum_eq_some {α : Type} {values : List (String × α)} (text : α → String) {v : Value}
    {a : α} (htext : ∀ m ∈ values, text m.2 = m.1) (h : readEnum values v = some a) :
    v = .str (text a) := by
  obtain ⟨s, hs, ha⟩ := Option.bind_eq_some_iff.mp h
  have hmem : (s, a) ∈ values := by
    clear htext h
    induction values with
    | nil => cases ha
    | cons m values ih =>
      rw [List.lookup_cons] at ha
      split at ha
      · next heq =>
        cases ha
        rw [beq_iff_eq] at heq
        exact List.mem_cons.mpr (.inl (Prod.ext heq rfl))
      · exact List.mem_cons_of_mem m (ih ha)
  rw [htext _ hmem]
  exact Value.str?_eq_some_iff.mp hs

theorem readLiteral_eq_some {text : String} {v : Value} {u : Unit} (h : readLiteral text v = some u) :
    v = .str text := by
  unfold readLiteral at h
  split at h
  · next heq => exact Value.str?_eq_some_iff.mp heq
  · cases h

theorem object_eq_some {v : Value} {o : JsonObject} (h : object v = some o) : v = o.1 := by
  cases v with
  | obj ms =>
    cases h
    rfl
  | null | bool | int | float | str | arr => cases h

theorem distinctKeys_of_get? {v : Value} {name : String} (h : j.distinctKeys = true)
    (hv : j.get? name = some v) : v.distinctKeys = true := by
  cases j with
  | obj ms =>
    rw [Value.distinctKeys, Bool.and_eq_true] at h
    have hmembers := h.2
    clear h
    induction ms with
    | nil => cases hv
    | cons m ms ih =>
      rw [Value.distinctKeysMembers, Bool.and_eq_true] at hmembers
      rw [Value.get?_obj, List.lookup_cons] at hv
      split at hv
      · cases hv
        exact hmembers.1
      · exact ih hv hmembers.2
  | null | bool | int | float | str | arr => cases hv

theorem exists_get?_when_iff {when : Option JsonObject} (hkeys : j.distinctKeys = true)
    (h : j.fieldD "when" (nullable object) none = some when) :
    (∃ v, j.get? "when" = some v ∧ ((when.map Subtype.val).getD Value.null).pyEq v = true) ↔
      j.hasKey "when" = true := by
  unfold Value.hasKey
  cases hv : j.get? "when" with
  | none => simp
  | some v =>
    have hread : nullable object v = some when := by simpa [Value.fieldD, hv] using h
    have heq : (when.map Subtype.val).getD Value.null = v := by
      cases v with
      | null =>
        cases hread
        rfl
      | obj ms =>
        cases hread
        rfl
      | bool | int | float | str | arr => cases hread
    rw [heq]
    simp [Value.pyEq_self v (distinctKeys_of_get? hkeys hv)]

theorem stepWritten_iff {s : PlanStep} (hkeys : j.distinctKeys = true)
    (h : PlanStep.read c j = some s) : s.dump.pyEq j = true ↔ stepWritten c j = true := by
  unfold PlanStep.read at h
  split at h
  · next hextra =>
    simp only [bind, Option.bind_eq_some_iff, field_eq_some_iff, pure, Option.some.injEq] at h
    obtain ⟨id, ⟨vid, hvid, hid⟩, name, ⟨vname, hvname, hname⟩, type, ⟨vtype, hvtype, htype⟩,
      required, ⟨vreq, hvreq, hreq⟩, dependsOn, ⟨vdep, hvdep, hdep⟩, when, hwhen, timeout,
      ⟨vtime, hvtime, htime⟩, onError, ⟨verr, hverr, herr⟩, config, ⟨vcfg, hvcfg, hcfg⟩, rfl⟩ := h
    obtain rfl := readNonBlank_eq_some hid
    obtain rfl := readNonBlank_eq_some hname
    obtain rfl := readEnum_eq_some AuthorableStepType.value (by decide) htype
    obtain rfl := list_str_eq_some hdep
    obtain rfl := readEnum_eq_some onErrorValue (by decide) herr
    obtain rfl := object_eq_some hcfg
    have hself : config.1.pyEq config.1 = true :=
      Value.pyEq_self _ (distinctKeys_of_get? hkeys hvcfg)
    rw [PlanStep.dump, pyEq_obj_iff]
    refine (and_iff_left hextra).trans ?_
    simp only [List.forall_mem_cons, List.not_mem_nil, false_implies, implies_true, and_true]
    rw [exists_get?_str_iff hvid, exists_get?_str_iff hvname, exists_get?_str_iff hvtype,
      exists_get?_bool_iff (forall_of_get? hvreq hreq), exists_get?_when_iff hkeys hwhen,
      exists_get?_int_iff timeout.2 (forall_of_get? hvtime (readPos_eq_some htime)),
      exists_get?_str_iff hverr]
    simp [stepWritten, hvdep, hvcfg, hself, pyEq_arr_str, and_assoc, and_left_comm]
  · cases h

theorem distinctKeys_of_mem_items {items : List Value} (h : Value.distinctKeysItems items = true) :
    ∀ v ∈ items, v.distinctKeys = true := by
  induction items with
  | nil => exact fun v hv => (by cases hv)
  | cons x items ih =>
    rw [Value.distinctKeysItems, Bool.and_eq_true] at h
    exact List.forall_mem_cons.mpr ⟨h.1, ih h.2⟩

/-- The members of a read dictionary. -/
theorem dictWritten_iff {α : Type} {read : Value → Option α} {dump : α → Value} {p : Value → Bool}
    {ms : List (String × Value)} {ys : List (String × α)} (hnodup : (ms.map Prod.fst).Nodup)
    (hp : ∀ v a, read v = some a → ((dump a).pyEq v = true ↔ p v = true))
    (h : ms.mapM (fun m => (read m.2).map (Prod.mk m.1)) = some ys) :
    (Value.obj (ys.map fun y => (y.1, dump y.2))).pyEq (.obj ms) = true ↔
      ms.all (fun m => p m.2) = true := by
  have hpairs := List.forall₂_of_mapM_eq_some h
  have hkeys : (ys.map fun y => (y.1, dump y.2)).map Prod.fst = ms.map Prod.fst := by
    clear h hnodup
    induction hpairs with
    | nil => rfl
    | cons hx _ ih =>
      obtain ⟨a, -, rfl⟩ := Option.map_eq_some_iff.mp hx
      simpa using ih
  have hextra : (Value.obj ms).forbidsExtra (ms.map Prod.fst) = true := by
    rw [Value.forbidsExtra, List.all_eq_true]
    intro m hm
    rw [List.contains_iff_mem]
    exact List.mem_map_of_mem hm
  rw [pyEq_obj_iff, hkeys, and_iff_left hextra, List.all_eq_true]
  constructor
  · intro hdumped m hm
    obtain ⟨y, hy, hread⟩ := List.exists_mem_of_mapM_eq_some h hm
    obtain ⟨a, ha, rfl⟩ := Option.map_eq_some_iff.mp hread
    obtain ⟨v, hv, hpy⟩ := hdumped _ (List.mem_map_of_mem hy)
    rw [Value.get?_obj, Value.lookup_eq_some_of_mem hnodup (v := m.2) hm] at hv
    cases hv
    exact (hp m.2 a ha).mp hpy
  · intro hwritten d hd
    obtain ⟨y, hy, rfl⟩ := List.mem_map.mp hd
    obtain ⟨m, hm, hread⟩ := List.mem_of_mapM_eq_some h hy
    obtain ⟨a, ha, rfl⟩ := Option.map_eq_some_iff.mp hread
    exact ⟨m.2, Value.lookup_eq_some_of_mem hnodup hm, (hp m.2 a ha).mpr (hwritten m hm)⟩

theorem completionWritten {l : List String} (h : readCompletion j = some l) :
    (Value.obj [("success_policy", .str "ALL_REQUIRED"),
      ("response_step_ids", .arr (l.map .str))]).pyEq j = true := by
  unfold readCompletion at h
  split at h
  · next hextra =>
    simp only [bind, Option.bind_eq_some_iff, field_eq_some_iff] at h
    obtain ⟨_, ⟨v, hv, hpolicy⟩, v', hv', hids⟩ := h
    obtain rfl := list_str_eq_some hids
    obtain rfl := readLiteral_eq_some hpolicy
    rw [pyEq_obj_iff]
    refine ⟨?_, hextra⟩
    simp [hv, hv', pyEq_arr_str]
  · cases h

/-- **Written in full.** The dump of a read workflow plan is equal to its document exactly when the
document is written in full. -/
theorem modelDump_pyEq_iff {p : Plan} {w : UUID} (hkeys : j.distinctKeys = true)
    (h : Plan.modelValidate c j = some p) (hsource : p.source = .workflow w) :
    p.modelDump.pyEq j = true ↔ writtenInFull c j = true := by
  unfold Plan.modelValidate at h
  split at h
  · next hextra =>
    simp only [bind, Option.bind_eq_some_iff, field_eq_some_iff, pure, Option.some.injEq] at h
    obtain ⟨_, ⟨vver, hvver, hver⟩, goal, ⟨vgoal, hvgoal, hgoal⟩, source, ⟨vsrc, hvsrc, hsrc⟩, inputs,
      ⟨vin, hvin, hin⟩, limits, ⟨vlim, hvlim, hlim⟩, steps, ⟨vsteps, hvsteps, hsteps⟩, responses,
      ⟨vcomp, hvcomp, hcomp⟩, rfl⟩ := h
    obtain rfl := readLiteral_eq_some hver
    obtain rfl := readNonBlank_eq_some hgoal
    obtain rfl : source = .workflow w := hsource
    have hinputs : (Value.obj (inputs.map fun i => (i.1, i.2.dump))).pyEq vin = true ↔
        ((j.getD "inputs").members?.getD []).all (fun m => inputWritten c m.2) = true := by
      rw [Value.getD_eq_of_get? hvin]
      cases vin with
      | obj ms =>
        have hnodup := distinctKeys_of_get? hkeys hvin
        rw [Value.distinctKeys, Bool.and_eq_true, decide_eq_true_eq] at hnodup
        exact dictWritten_iff hnodup.1 (fun v a => inputWritten_iff) hin
      | null | bool | int | float | str | arr => cases hin
    have hstepsWritten : (Value.arr (steps.map PlanStep.dump)).pyEq vsteps = true ↔
        ((j.getD "steps").arr?.getD []).all (stepWritten c) = true := by
      rw [Value.getD_eq_of_get? hvsteps]
      cases vsteps with
      | arr items =>
        have hdistinct := distinctKeys_of_mem_items (by
          simpa [Value.distinctKeys] using distinctKeys_of_get? hkeys hvsteps)
        rw [Value.pyEq]
        refine pyEqItems_iff ?_
        have hpairs : List.Forall₂ (fun v s => PlanStep.read c v = some s) items steps :=
          List.forall₂_of_mapM_eq_some hsteps
        clear hsteps hvsteps
        induction hpairs with
        | nil => exact .nil
        | cons hx _ ih =>
          rw [List.forall_mem_cons] at hdistinct
          exact .cons (stepWritten_iff hdistinct.1 hx) (ih hdistinct.2)
      | null | bool | int | float | str | obj => cases hsteps
    rw [Plan.modelDump, pyEq_obj_iff]
    refine (and_iff_left hextra).trans ?_
    simp only [List.forall_mem_cons, List.not_mem_nil, false_implies, implies_true, and_true]
    rw [exists_get?_str_iff hvver, exists_get?_str_iff hvgoal, writtenInFull, Bool.and_eq_true,
      Bool.and_eq_true, Bool.and_eq_true, ← hinputs, ← hstepsWritten,
      Value.getD_eq_of_get? hvsrc, Value.getD_eq_of_get? hvlim, ← sourceWritten_iff hsrc,
      ← limitsWritten_iff hlim]
    simp [hvsrc, hvin, hvlim, hvsteps, hvcomp, completionWritten hcomp, and_assoc, and_left_comm,
      and_comm]
  · cases h

/-! ### Round trip -/

theorem readPos_int (hc : c.Lawful) {n : ℕ} (hn : 1 ≤ n) : readPos c (.int n) = some ⟨n, hn⟩ := by
  simp [readPos, hc.int_int, hn]

theorem readNonBlank_str {s : String} (hs : Text.nonBlank s = true) :
    readNonBlank (.str s) = some ⟨s, hs⟩ := by
  simp [readNonBlank, hs]

theorem list_str_arr (l : List String) : Value.list str? (.arr (l.map .str)) = some l :=
  List.mapM_map_eq_some fun _ _ => rfl

theorem object_val (o : JsonObject) : object o.1 = some o := by
  obtain ⟨v, hv⟩ := o
  cases v with
  | obj ms => rfl
  | null | bool | int | float | str | arr => cases hv

theorem nullable_object (o : Option JsonObject) :
    nullable object ((o.map Subtype.val).getD .null) = some o := by
  cases o with
  | none => rfl
  | some o =>
    obtain ⟨v, hv⟩ := o
    cases v with
    | obj ms => rfl
    | null | bool | int | float | str | arr => cases hv

theorem field_of_get? {α : Type} {name : String} {read : Value → Option α} {v : Value} {a : α}
    (h : j.get? name = some v) (hv : read v = some a) : j.field name read = some a := by
  rw [Value.field, h, Option.bind_some, hv]

theorem PlanSource.read_dump (hc : c.Lawful) (s : PlanSource) : read c s.dump = some s := by
  cases s with
  | agent v =>
    have hv : (agent v).dump.field "agent_version_id" c.uuid = some v :=
      field_of_get? rfl (hc.uuid_toString v)
    exact congrArg (Option.map agent) hv
  | workflow w =>
    have hw : (workflow w).dump.field "workflow_id" c.uuid = some w :=
      field_of_get? rfl (hc.uuid_toString w)
    exact congrArg (Option.map workflow) hw
  | manualToolTest t v =>
    have ht : (manualToolTest t v).dump.field "mcp_tool_id" c.uuid = some t :=
      field_of_get? rfl (hc.uuid_toString t)
    have hv : (manualToolTest t v).dump.field "mcp_tool_version_id" c.uuid = some v :=
      field_of_get? rfl (hc.uuid_toString v)
    have hread : read c (manualToolTest t v).dump =
        ((manualToolTest t v).dump.field "mcp_tool_id" c.uuid).bind fun toolId =>
          ((manualToolTest t v).dump.field "mcp_tool_version_id" c.uuid).bind fun versionId =>
            some (manualToolTest toolId versionId) := rfl
    rw [hread, ht, Option.bind_some, hv, Option.bind_some]

theorem PlanInputDefinition.read_dump (hc : c.Lawful) (d : PlanInputDefinition) :
    read c d.dump = some d := by
  have htype : d.dump.field "type" str? = some d.type := rfl
  have hrequired : d.dump.field "required" c.bool = some d.required :=
    field_of_get? rfl (hc.bool_bool d.required)
  have hsecret : d.dump.fieldD "secret" c.bool false = some d.secret := hc.bool_bool d.secret
  have hextra : d.dump.forbidsExtra fields = true := rfl
  rw [read, if_pos hextra, htype, hrequired, hsecret]
  rfl

theorem PlanLimits.read_dump (hc : c.Lawful) (l : PlanLimits) : read c l.dump = some l := by
  have hsteps : l.dump.field "max_steps" (readPos c) = some ⟨l.maxSteps, l.maxSteps_pos⟩ :=
    field_of_get? rfl (readPos_int hc l.maxSteps_pos)
  have hduration : l.dump.field "max_duration_seconds" (readPos c) =
      some ⟨l.maxDurationSeconds, l.maxDurationSeconds_pos⟩ :=
    field_of_get? rfl (readPos_int hc l.maxDurationSeconds_pos)
  have hparallelism : l.dump.field "max_parallelism" (readPos c) =
      some ⟨l.maxParallelism, l.maxParallelism_pos⟩ :=
    field_of_get? rfl (readPos_int hc l.maxParallelism_pos)
  have hloops : l.dump.field "max_loop_iterations" (readPos c) =
      some ⟨l.maxLoopIterations, l.maxLoopIterations_pos⟩ :=
    field_of_get? rfl (readPos_int hc l.maxLoopIterations_pos)
  have hextra : l.dump.forbidsExtra fields = true := rfl
  rw [read, if_pos hextra, hsteps, hduration, hparallelism, hloops]
  rfl

theorem PlanStep.read_dump (hc : c.Lawful) (s : PlanStep) : read c s.dump = some s := by
  have hid : s.dump.field "id" readNonBlank = some ⟨s.id, s.id_nonBlank⟩ :=
    field_of_get? rfl (readNonBlank_str s.id_nonBlank)
  have hname : s.dump.field "name" readNonBlank = some ⟨s.name, s.name_nonBlank⟩ :=
    field_of_get? rfl (readNonBlank_str s.name_nonBlank)
  have htype : s.dump.field "type" (readEnum stepTypes) = some s.type := by
    refine field_of_get? rfl ?_
    cases s.type <;> rfl
  have hrequired : s.dump.field "required" c.bool = some s.required :=
    field_of_get? rfl (hc.bool_bool s.required)
  have hdependsOn : s.dump.field "depends_on" (Value.list str?) = some s.dependsOn :=
    field_of_get? rfl (list_str_arr s.dependsOn)
  have hwhen : s.dump.fieldD "when" (nullable object) none = some s.when := nullable_object s.when
  have htimeout : s.dump.field "timeout_seconds" (readPos c) =
      some ⟨s.timeoutSeconds, s.timeoutSeconds_pos⟩ :=
    field_of_get? rfl (readPos_int hc s.timeoutSeconds_pos)
  have honError : s.dump.field "on_error" (readEnum onErrors) = some s.onError := by
    refine field_of_get? rfl ?_
    cases s.onError <;> rfl
  have hconfig : s.dump.field "config" object = some s.config :=
    field_of_get? rfl (object_val s.config)
  have hextra : s.dump.forbidsExtra fields = true := rfl
  rw [read, if_pos hextra, hid, hname, htype, hrequired, hdependsOn, hwhen, htimeout, honError,
    hconfig]
  rfl

/-- **Round trip.** A dumped plan reads back. -/
theorem Plan.modelValidate_modelDump (hc : c.Lawful) (p : Plan) :
    modelValidate c p.modelDump = some p := by
  have hversion : p.modelDump.field "schema_version" (readLiteral "1.0") = some () := rfl
  have hgoal : p.modelDump.field "goal" readNonBlank = some ⟨p.goal, p.goal_nonBlank⟩ :=
    field_of_get? rfl (readNonBlank_str p.goal_nonBlank)
  have hsource : p.modelDump.field "source" (PlanSource.read c) = some p.source :=
    field_of_get? rfl (PlanSource.read_dump hc p.source)
  have hinputs : p.modelDump.field "inputs" (dict (PlanInputDefinition.read c)) = some p.inputs :=
    field_of_get? rfl (List.mapM_map_eq_some fun i _ => by
      rw [PlanInputDefinition.read_dump hc, Option.map_some])
  have hlimits : p.modelDump.field "limits" (PlanLimits.read c) = some p.limits :=
    field_of_get? rfl (PlanLimits.read_dump hc p.limits)
  have hsteps : p.modelDump.field "steps" (Value.list (PlanStep.read c)) = some p.steps :=
    field_of_get? rfl (List.mapM_map_eq_some fun s _ => PlanStep.read_dump hc s)
  have hids : Value.field (.obj [("success_policy", .str "ALL_REQUIRED"),
      ("response_step_ids", .arr (p.responseStepIds.map .str))]) "response_step_ids"
        (Value.list str?) = some p.responseStepIds :=
    field_of_get? rfl (list_str_arr p.responseStepIds)
  have hcompletion : p.modelDump.field "completion" readCompletion = some p.responseStepIds :=
    field_of_get? rfl hids
  have hextra : p.modelDump.forbidsExtra fields = true := rfl
  rw [modelValidate, if_pos hextra, hversion, hgoal, hsource, hinputs, hlimits, hsteps, hcompletion]
  rfl

end McpFlow.Workflow
