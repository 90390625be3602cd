import McpFlow.Agent.EntityAlignment

/-!
# An alignment is a renaming

The names of the mappings go through several sets of folded names before an entity is renamed. What
the loops collect is a partial function from old folded names to missing required inputs; the result
of an alignment is the request with this function applied to the names of its entities, and the loop
that builds it checks that the function is injective on them.
-/

namespace McpFlow.Agent

open Json (Value)

variable {u : CharFolding} {structured r : StructuredRequestV1}
  {mappings done : List EntityAlignmentMapping} {requiredInputs optionalInputs : List String}
  {e e' : StructuredRequestEntity} {cf name target : String} {duplicateSources : List String}
  {entities : List StructuredRequestEntity} {unusedByCf : Dict StructuredRequestEntity}
  {missingCf rename : Dict String} {acc : Renames}

/-! ### The law -/

/-- An entity after an alignment: its value and its source stay, and it has the name of the required
input that it is mapped to, or its own name. -/
structure AlignedEntity (u : CharFolding) (mappings : List EntityAlignmentMapping)
    (e e' : StructuredRequestEntity) : Prop where
  value : e'.value = e.value
  source : e'.source = e.source
  renamed : ∀ m ∈ mappings, e.nameCf u = u.casefold m.fromEntityName →
    e.source = .userExplicit ∧ u.casefold e'.name = u.casefold m.toRequiredInput ∧
      e'.name ≠ e.name
  kept : (∀ m ∈ mappings, e.nameCf u ≠ u.casefold m.fromEntityName) → e'.name = e.name

/-- A request after an alignment. -/
structure Aligned (u : CharFolding) (structured : StructuredRequestV1)
    (mappings : List EntityAlignmentMapping) (requiredInputs : List String)
    (r : StructuredRequestV1) : Prop where
  entities : List.Forall₂ (AlignedEntity u mappings) structured.entities r.entities
  /-- Every mapping renames one entity, to a missing required input. -/
  mapped : (structured.entities.map (StructuredRequestEntity.nameCf u)).Nodup ∧
    ∀ m ∈ mappings,
      (∃ e ∈ structured.entities, e.nameCf u = u.casefold m.fromEntityName) ∧
      ∃ name ∈ missingRequiredInputs u requiredInputs structured,
        u.casefold name = u.casefold m.toRequiredInput
  distinct : (r.entities.map fun e => u.casefold e.name).Nodup ∧
    (r.entities.map (StructuredRequestEntity.nameCf u)).Nodup
  unchanged : r.toRequestData = { structured.toRequestData with entities := r.entities }
  /-- The missing inputs are those that no mapping has as its target. -/
  missing : missingRequiredInputs u requiredInputs r =
    (missingRequiredInputs u requiredInputs structured).filter fun name =>
      ∀ m ∈ mappings, u.casefold m.toRequiredInput ≠ u.casefold name

/-! ### Folded names -/

theorem CharFolding.casefold_strip (u : CharFolding) (s : String) :
    u.casefold (Text.strip s) = Text.strip (u.casefold s) :=
  (Text.strip_flatMap u.space u.nonSpace s).symm

theorem CharFolding.casefold_ne_empty (u : CharFolding) {s : String} (h : s ≠ "") :
    u.casefold s ≠ "" := by
  have hfold : ∀ c, u.fold c ≠ [] := by
    intro c
    cases hc : Text.isSpace c with
    | true =>
      rw [u.space c hc]
      exact List.cons_ne_nil c []
    | false => exact (u.nonSpace c hc).1
  obtain ⟨c, cs, hcs⟩ : ∃ c cs, s.toList = c :: cs := by
    rw [← List.ne_nil_iff_exists_cons, ne_eq, String.toList_eq_nil_iff]
    exact h
  rw [casefold, ne_eq, ← String.toList_eq_nil_iff, String.toList_ofList, hcs, List.flatMap_cons,
    List.append_eq_nil_iff]
  exact fun hnil => hfold c hnil.1

/-- The entities of a request have names. -/
theorem StructuredRequestV1.strip_name_ne (h : e ∈ structured.entities) :
    Text.strip e.name ≠ "" := by
  have hvalid := structured.valid
  rw [RequestData.isValid] at hvalid
  simp only [Bool.and_eq_true, List.all_eq_true] at hvalid
  exact Text.strip_ne_empty_of_nonBlank (hvalid.1.1.2 e h)

theorem mem_casefoldSet {names : List String} :
    cf ∈ casefoldSet u names ↔
      ∃ name ∈ names, Text.strip name ≠ "" ∧ u.casefold (Text.strip name) = cf := by
  rw [casefoldSet, List.mem_map]
  simp only [List.mem_filter, decide_eq_true_eq, and_assoc]

theorem mem_present :
    cf ∈ casefoldSet u (structured.entities.map (·.name)) ↔
      ∃ e ∈ structured.entities, e.nameCf u = cf := by
  rw [mem_casefoldSet]
  constructor
  · rintro ⟨name, hname, -, rfl⟩
    obtain ⟨e, he, rfl⟩ := List.mem_map.mp hname
    exact ⟨e, he, rfl⟩
  · rintro ⟨e, he, rfl⟩
    exact ⟨e.name, List.mem_map_of_mem he, StructuredRequestV1.strip_name_ne he, rfl⟩

/-- A missing input is a stripped required input. -/
theorem of_mem_missing (h : name ∈ missingRequiredInputs u requiredInputs structured) :
    Text.strip name = name ∧ name ≠ "" ∧ u.casefold name ∈ casefoldSet u requiredInputs := by
  obtain ⟨required, hrequired, hname⟩ := List.mem_filterMap.mp h
  dsimp only at hname
  split at hname
  · case isTrue hcond =>
    obtain rfl := Option.some.inj hname
    exact ⟨Text.strip_strip required, hcond.1, mem_casefoldSet.mpr ⟨required, hrequired, hcond.1, rfl⟩⟩
  · cases hname

/-! ### The loops -/

/-- The unused names that can be mapped. -/
theorem collectUnused_invariant {unused : List StructuredRequestEntity}
    (h : unused.foldlM (collectUnused u duplicateSources) [] = some unusedByCf) :
    ∀ cf e, unusedByCf.get? cf = some e → e ∈ unused ∧ e.nameCf u = cf := by
  have hfold : ∀ (rest : List StructuredRequestEntity) (d d' : Dict StructuredRequestEntity),
      (∀ cf e, d.get? cf = some e → e ∈ unused ∧ e.nameCf u = cf) → (∀ e ∈ rest, e ∈ unused) →
      rest.foldlM (collectUnused u duplicateSources) d = some d' →
      ∀ cf e, d'.get? cf = some e → e ∈ unused ∧ e.nameCf u = cf := by
    intro rest
    induction rest with
    | nil =>
      intro d d' hd hrest h
      cases h
      exact hd
    | cons entity rest ih =>
      intro d d' hd hrest h
      obtain ⟨d₁, hd₁, h⟩ := Option.bind_eq_some_iff.mp h
      refine ih d₁ d' ?_ (fun e he => hrest e (List.mem_cons_of_mem entity he)) h
      rw [collectUnused] at hd₁
      split at hd₁
      · cases hd₁
        exact hd
      · split at hd₁
        · cases hd₁
        · cases hd₁
          intro cf e hget
          rw [Dict.get?_set] at hget
          split at hget
          · case isTrue hcf =>
            obtain rfl := Option.some.inj hget
            exact ⟨hrest _ List.mem_cons_self, hcf⟩
          · exact hd cf e hget
  exact hfold unused [] unusedByCf (fun _ _ h => nomatch h) (fun _ he => he) h

/-- What the loop over the mappings has collected: the mappings are a function on their sources. -/
structure Collected (u : CharFolding) (unusedByCf : Dict StructuredRequestEntity)
    (missingCf : Dict String) (done : List EntityAlignmentMapping) (acc : Renames) : Prop where
  usedFrom : acc.usedFrom = done.map fun m => u.casefold m.fromEntityName
  usedTo : acc.usedTo = done.map fun m => u.casefold m.toRequiredInput
  unused : ∀ m ∈ done, (unusedByCf.get? (u.casefold m.fromEntityName)).isSome = true
  rename : ∀ cf name, acc.rename.get? cf = some name ↔
    ∃ m ∈ done, u.casefold m.fromEntityName = cf ∧
      missingCf.get? (u.casefold m.toRequiredInput) = some name
  target : ∀ m ∈ done, (missingCf.get? (u.casefold m.toRequiredInput)).isSome = true

theorem Collected.collectRename {acc' : Renames} {m : EntityAlignmentMapping}
    (h : Collected u unusedByCf missingCf done acc)
    (hstep : collectRename u duplicateSources unusedByCf missingCf acc m = some acc') :
    Collected u unusedByCf missingCf (done ++ [m]) acc' := by
  rw [Agent.collectRename] at hstep
  split at hstep
  · cases hstep
  · case isFalse hused =>
    rw [not_or] at hused
    split at hstep
    · cases hstep
    · split at hstep
      · cases hstep
      · case isFalse hunused =>
        obtain ⟨target, htarget, rfl⟩ := Option.map_eq_some_iff.mp hstep
        have hin : ∀ m', m' ∈ done ++ [m] ↔ m' ∈ done ∨ m' = m := by
          intro m'
          rw [List.mem_append, List.mem_singleton]
        refine ⟨?_, ?_, fun m' hm' => ?_, fun cf name => ?_, fun m' hm' => ?_⟩
        · rw [h.usedFrom, List.map_append, List.map_singleton]
        · rw [h.usedTo, List.map_append, List.map_singleton]
        · rcases (hin m').mp hm' with hm' | rfl
          · exact h.unused m' hm'
          · exact Option.isSome_iff_ne_none.mpr fun hnone => hunused (by rw [hnone]; rfl)
        · dsimp only
          rw [Dict.get?_set]
          split
          · case isTrue hcf =>
            -- the source is new, so no earlier mapping has it
            constructor
            · intro hname
              obtain rfl := Option.some.inj hname
              exact ⟨m, (hin m).mpr (.inr rfl), hcf, htarget⟩
            · rintro ⟨m', hm', hfrom, hname⟩
              rcases (hin m').mp hm' with hm' | rfl
              · refine absurd ?_ hused.1
                rw [h.usedFrom, hcf, ← hfrom]
                exact List.mem_map.mpr ⟨m', hm', rfl⟩
              · exact htarget.symm.trans hname
          · case isFalse hcf =>
            rw [h.rename]
            refine exists_congr fun m' => ?_
            rw [hin]
            constructor
            · rintro ⟨hm', hrest⟩
              exact ⟨.inl hm', hrest⟩
            · rintro ⟨hm' | rfl, hfrom, hname⟩
              · exact ⟨hm', hfrom, hname⟩
              · exact absurd hfrom hcf
        · rcases (hin m').mp hm' with hm' | rfl
          · exact h.target m' hm'
          · rw [htarget]
            rfl

theorem collected_empty : Collected u unusedByCf missingCf [] ⟨[], [], []⟩ where
  usedFrom := rfl
  usedTo := rfl
  unused := fun _ hm => absurd hm List.not_mem_nil
  rename := fun _ _ => ⟨fun h => (nomatch h), fun ⟨_, hm, _⟩ => absurd hm List.not_mem_nil⟩
  target := fun _ hm => absurd hm List.not_mem_nil

theorem Collected.foldlM {acc' : Renames} {rest : List EntityAlignmentMapping}
    (h : Collected u unusedByCf missingCf done acc)
    (hfold : rest.foldlM (Agent.collectRename u duplicateSources unusedByCf missingCf) acc =
      some acc') :
    Collected u unusedByCf missingCf (done ++ rest) acc' := by
  induction rest generalizing done acc with
  | nil =>
    cases hfold
    rwa [List.append_nil]
  | cons m rest ih =>
    obtain ⟨acc₁, hacc₁, hfold⟩ := Option.bind_eq_some_iff.mp hfold
    have := ih (h.collectRename hacc₁) hfold
    rwa [List.append_assoc, List.singleton_append] at this

/-! ### The new entities -/

/-- An entity under its new name. -/
def renamed (u : CharFolding) (rename : Dict String) (e : StructuredRequestEntity) :
    StructuredRequestEntity :=
  match rename.get? (e.nameCf u) with
  | some newName => { name := newName, value := e.value, source := .userExplicit }
  | none => e

/-- The folded name of an entity after the renaming. -/
def renamedCf (u : CharFolding) (rename : Dict String) (cf : String) : String :=
  match rename.get? cf with
  | some newName => u.casefold newName
  | none => cf

theorem renamed_some (h : rename.get? (e.nameCf u) = some name) :
    renamed u rename e = { name := name, value := e.value, source := .userExplicit } := by
  rw [renamed, h]

theorem renamed_none (h : rename.get? (e.nameCf u) = none) : renamed u rename e = e := by
  rw [renamed, h]

theorem renamedCf_some (h : rename.get? cf = some name) :
    renamedCf u rename cf = u.casefold name := by
  rw [renamedCf, h]

theorem renamedCf_none (h : rename.get? cf = none) : renamedCf u rename cf = cf := by
  rw [renamedCf, h]

/-- The loop over the entities renames each of them, and the folded names of the result are
distinct. -/
theorem renameEntity_foldlM {acc acc' : List StructuredRequestEntity × List String}
    {rest : List StructuredRequestEntity} (hnames : ∀ e ∈ rest, e.nameCf u ≠ "")
    (hnodup : acc.2.Nodup)
    (h : rest.foldlM (renameEntity u rename) acc = some acc') :
    acc'.1 = acc.1 ++ rest.map (renamed u rename) ∧
      acc'.2 = acc.2 ++ rest.map (fun e => renamedCf u rename (e.nameCf u)) ∧ acc'.2.Nodup ∧
      ∀ e ∈ rest, (rename.get? (e.nameCf u)).isSome = true → e.source = .userExplicit := by
  induction rest generalizing acc with
  | nil =>
    cases h
    exact ⟨(List.append_nil _).symm, (List.append_nil _).symm, hnodup,
      fun _ he => absurd he List.not_mem_nil⟩
  | cons e rest ih =>
    obtain ⟨acc₁, hacc₁, h⟩ := Option.bind_eq_some_iff.mp h
    have hstep : acc₁.1 = acc.1 ++ [renamed u rename e] ∧
        acc₁.2 = acc.2 ++ [renamedCf u rename (e.nameCf u)] ∧
        renamedCf u rename (e.nameCf u) ∉ acc.2 ∧
        ((rename.get? (e.nameCf u)).isSome = true → e.source = .userExplicit) := by
      rw [renameEntity] at hacc₁
      split at hacc₁
      · case h_1 newName hget =>
        split at hacc₁
        · cases hacc₁
        · case isFalse hsource =>
          split at hacc₁
          · cases hacc₁
          · case isFalse hseen =>
            cases hacc₁
            rw [renamed_some hget, renamedCf_some hget]
            exact ⟨rfl, rfl, hseen, fun _ => not_not.mp hsource⟩
      · case h_2 hget =>
        have hne := hnames e List.mem_cons_self
        split at hacc₁
        · cases hacc₁
        · case isFalse hseen =>
          cases hacc₁
          rw [renamed_none hget, renamedCf_none hget, hget]
          exact ⟨rfl, rfl, fun hin => hseen ⟨hne, hin⟩, fun h => nomatch h⟩
    obtain ⟨hfirst, hsecond, hnew, hsource⟩ := hstep
    have hnodup₁ : acc₁.2.Nodup := by
      rw [hsecond]
      exact List.nodup_append.mpr ⟨hnodup, List.nodup_singleton _, fun x hx y hy => by
        rw [List.mem_singleton.mp hy]
        exact fun heq => hnew (heq ▸ hx)⟩
    obtain ⟨hlist, hseen, hresult, hsources⟩ :=
      ih (fun e' he' => hnames e' (List.mem_cons_of_mem e he')) hnodup₁ h
    refine ⟨?_, ?_, hresult, fun e' he' => ?_⟩
    · rw [hlist, hfirst, List.append_assoc, List.singleton_append, List.map_cons]
    · rw [hseen, hsecond, List.append_assoc, List.singleton_append, List.map_cons]
    · rcases List.mem_cons.mp he' with rfl | he'
      · exact hsource
      · exact hsources e' he'

/-! ### Applied alignments -/

/-- What the checks of an applied alignment have established: a partial function from folded names of
unclaimed explicit entities to missing required inputs, and the request under it. -/
structure Applied (u : CharFolding) (structured : StructuredRequestV1)
    (mappings : List EntityAlignmentMapping) (requiredInputs : List String)
    (rename : Dict String) (r : StructuredRequestV1) : Prop where
  defined : ∀ m ∈ mappings, ∃ name, rename.get? (u.casefold m.fromEntityName) = some name ∧
    name ∈ missingRequiredInputs u requiredInputs structured ∧
      u.casefold name = u.casefold m.toRequiredInput
  only : ∀ cf name, rename.get? cf = some name →
    ∃ m ∈ mappings, u.casefold m.fromEntityName = cf
  unclaimed : ∀ cf name, rename.get? cf = some name →
    cf ∉ casefoldSet u requiredInputs ∧ ∃ e ∈ structured.entities, e.nameCf u = cf
  explicit : ∀ e ∈ structured.entities, (rename.get? (e.nameCf u)).isSome = true →
    e.source = .userExplicit
  nodup : (structured.entities.map fun e => renamedCf u rename (e.nameCf u)).Nodup
  result : r.toRequestData =
    { structured.toRequestData with entities := structured.entities.map (renamed u rename) }

theorem applied_of_applyEntityAlignments
    (h : applyEntityAlignments u structured mappings requiredInputs optionalInputs = some r) :
    ∃ rename, Applied u structured mappings requiredInputs rename r := by
  rw [applyEntityAlignments] at h
  split at h
  · cases h
  obtain ⟨unusedByCf, hunused, h⟩ := Option.bind_eq_some_iff.mp h
  obtain ⟨renames, hrenames, h⟩ := Option.bind_eq_some_iff.mp h
  split at h
  · cases h
  obtain ⟨⟨newEntities, seen⟩, hentities, h⟩ := Option.bind_eq_some_iff.mp h
  have hcollected : Collected u unusedByCf _ ([] ++ mappings) renames :=
    collected_empty.foldlM hrenames
  rw [List.nil_append] at hcollected
  have hsources := collectUnused_invariant hunused
  obtain ⟨hlist, hseen, hnodup, hexplicit⟩ := renameEntity_foldlM
    (fun e he => u.casefold_ne_empty (StructuredRequestV1.strip_name_ne he)) List.nodup_nil
    hentities
  have hmissing : ∀ cf name, (Dict.ofPairs ((missingRequiredInputs u requiredInputs
      structured).map fun name => (u.casefold name, name))).get? cf = some name →
      name ∈ missingRequiredInputs u requiredInputs structured ∧ u.casefold name = cf := by
    intro cf name hget
    obtain ⟨name', hname', heq⟩ :=
      List.mem_map.mp (Dict.mem_of_mem_ofPairs (Dict.mem_of_get? hget))
    cases heq
    exact ⟨hname', rfl⟩
  have hunclaimed : ∀ cf name, renames.rename.get? cf = some name →
      ∃ m ∈ mappings, u.casefold m.fromEntityName = cf ∧
        cf ∉ casefoldSet u requiredInputs ∧ ∃ e ∈ structured.entities, e.nameCf u = cf := by
    intro cf name hget
    obtain ⟨m, hm, rfl, -⟩ := (hcollected.rename cf name).mp hget
    obtain ⟨e, he⟩ := Option.isSome_iff_exists.mp (hcollected.unused m hm)
    obtain ⟨hin, hname⟩ := hsources _ e he
    obtain ⟨hentity, hcond⟩ := List.mem_filter.mp hin
    rw [decide_eq_true_eq, List.mem_append, not_or] at hcond
    exact ⟨m, hm, rfl, hname ▸ hcond.2.2.1, e, hentity, hname⟩
  refine ⟨renames.rename, fun m hm => ?_, fun cf name hget => ?_, fun cf name hget => ?_,
    hexplicit, ?_, ?_⟩
  · obtain ⟨name, hname⟩ := Option.isSome_iff_exists.mp (hcollected.target m hm)
    exact ⟨name, (hcollected.rename _ name).mpr ⟨m, hm, rfl, hname⟩, hmissing _ name hname⟩
  · obtain ⟨m, hm, hfrom, -⟩ := hunclaimed cf name hget
    exact ⟨m, hm, hfrom⟩
  · obtain ⟨-, -, -, hrest⟩ := hunclaimed cf name hget
    exact hrest
  · rw [List.nil_append] at hseen
    exact hseen ▸ hnodup
  · obtain ⟨hvalid, hr⟩ := Option.dite_none_right_eq_some.mp h
    obtain rfl := Option.some.inj hr
    dsimp only at hlist ⊢
    rw [hlist, List.nil_append]

section Applied

variable (h : Applied u structured mappings requiredInputs rename r)

include h

/-- The folded name of a renamed entity. -/
theorem Applied.nameCf_renamed (e : StructuredRequestEntity) :
    (renamed u rename e).nameCf u = renamedCf u rename (e.nameCf u) := by
  cases hget : rename.get? (e.nameCf u) with
  | some newName =>
    obtain ⟨m, hm, hfrom⟩ := h.only _ _ hget
    obtain ⟨name, hname, hmissing, -⟩ := h.defined m hm
    rw [hfrom, hget] at hname
    obtain rfl := Option.some.inj hname
    rw [renamed_some hget, renamedCf_some hget, StructuredRequestEntity.nameCf,
      (of_mem_missing hmissing).1]
  | none => rw [renamed_none hget, renamedCf_none hget]

theorem Applied.entities_eq : r.entities = structured.entities.map (renamed u rename) :=
  congrArg RequestData.entities h.result

/-- Each entity keeps its value and its source, and is renamed when it is mapped. -/
theorem Applied.alignedEntity (he : e ∈ structured.entities) :
    AlignedEntity u mappings e (renamed u rename e) := by
  cases hget : rename.get? (e.nameCf u) with
  | none =>
    rw [renamed_none hget]
    refine ⟨rfl, rfl, fun m hm hfrom => ?_, fun _ => rfl⟩
    obtain ⟨name, hname, -⟩ := h.defined m hm
    rw [← hfrom, hget] at hname
    cases hname
  | some newName =>
    have hsource := h.explicit e he (by rw [hget]; rfl)
    rw [renamed_some hget]
    refine ⟨rfl, hsource.symm, fun m hm hfrom => ⟨hsource, ?_⟩, fun hnone => ?_⟩
    · obtain ⟨name, hname, hmissing, hto⟩ := h.defined m hm
      rw [← hfrom, hget] at hname
      obtain rfl := Option.some.inj hname
      refine ⟨hto, fun heq => ?_⟩
      -- the new name is a required input, the old one is claimed by none
      have hold : newName = e.name := heq
      obtain ⟨hstrip, -, hrequired⟩ := of_mem_missing hmissing
      refine (h.unclaimed _ _ hget).1 ?_
      rw [StructuredRequestEntity.nameCf, ← hold, hstrip]
      exact hrequired
    · obtain ⟨m, hm, hfrom⟩ := h.only _ _ hget
      exact absurd hfrom.symm (hnone m hm)

/-- A required input is present after the alignment when it was before, or is a target. -/
theorem Applied.present_iff (hrequired : cf ∈ casefoldSet u requiredInputs) :
    cf ∈ casefoldSet u (r.entities.map (·.name)) ↔
      cf ∈ casefoldSet u (structured.entities.map (·.name)) ∨
        ∃ m ∈ mappings, u.casefold m.toRequiredInput = cf := by
  rw [mem_present, mem_present, h.entities_eq]
  constructor
  · rintro ⟨e', he', rfl⟩
    obtain ⟨e, he, rfl⟩ := List.mem_map.mp he'
    rw [h.nameCf_renamed]
    cases hget : rename.get? (e.nameCf u) with
    | none =>
      exact .inl ⟨e, he, (renamedCf_none hget).symm⟩
    | some newName =>
      obtain ⟨m, hm, hfrom⟩ := h.only _ _ hget
      obtain ⟨name, hname, -, hto⟩ := h.defined m hm
      rw [hfrom, hget] at hname
      obtain rfl := Option.some.inj hname
      exact .inr ⟨m, hm, by rw [renamedCf_some hget, hto]⟩
  · rintro (⟨e, he, rfl⟩ | ⟨m, hm, rfl⟩)
    · refine ⟨_, List.mem_map_of_mem he, ?_⟩
      have hnone : rename.get? (e.nameCf u) = none :=
        Option.eq_none_iff_forall_ne_some.mpr fun name hget =>
          (h.unclaimed _ name hget).1 hrequired
      rw [h.nameCf_renamed, renamedCf_none hnone]
    · obtain ⟨name, hname, -, hto⟩ := h.defined m hm
      obtain ⟨-, e, he, hfrom⟩ := h.unclaimed _ name hname
      refine ⟨_, List.mem_map_of_mem he, ?_⟩
      rw [h.nameCf_renamed, hfrom, renamedCf_some hname, hto]

end Applied

/-- An alignment that is applied renames the mapped entities, injectively, and changes nothing
else. -/
theorem aligned_of_applyEntityAlignments
    (h : applyEntityAlignments u structured mappings requiredInputs optionalInputs = some r) :
    Aligned u structured mappings requiredInputs r := by
  obtain ⟨rename, happlied⟩ := applied_of_applyEntityAlignments h
  have hnames : r.entities.map (StructuredRequestEntity.nameCf u) =
      structured.entities.map fun e => renamedCf u rename (e.nameCf u) := by
    rw [happlied.entities_eq, List.map_map]
    exact List.map_congr_left fun e _ => happlied.nameCf_renamed e
  have hdistinct : (r.entities.map (StructuredRequestEntity.nameCf u)).Nodup := by
    rw [hnames]
    exact happlied.nodup
  refine ⟨?_, ⟨?_, fun m hm => ?_⟩, ⟨?_, hdistinct⟩, ?_, ?_⟩
  · rw [happlied.entities_eq, List.forall₂_map_right_iff, List.forall₂_same]
    exact fun e he => happlied.alignedEntity he
  · have hmap : ((structured.entities.map (StructuredRequestEntity.nameCf u)).map
        (renamedCf u rename)).Nodup := by
      rw [List.map_map]
      exact happlied.nodup
    exact .of_map _ hmap
  · obtain ⟨name, hname, hmissing, hto⟩ := happlied.defined m hm
    exact ⟨(happlied.unclaimed _ name hname).2, name, hmissing, hto⟩
  · -- names that fold alike fold alike when they are stripped
    have hstrip : r.entities.map (StructuredRequestEntity.nameCf u) =
        (r.entities.map fun e => u.casefold e.name).map Text.strip := by
      rw [List.map_map]
      exact List.map_congr_left fun e _ => u.casefold_strip e.name
    rw [hstrip] at hdistinct
    exact .of_map _ hdistinct
  · rw [happlied.entities_eq]
    exact happlied.result
  · rw [missingRequiredInputs, missingRequiredInputs, List.filter_filterMap]
    refine List.filterMap_congr fun name hname => ?_
    dsimp only
    by_cases hblank : Text.strip name = ""
    · rw [if_neg fun hcond => hcond.1 hblank, if_neg fun hcond => hcond.1 hblank]
      rfl
    · have hrequired : u.casefold (Text.strip name) ∈ casefoldSet u requiredInputs :=
        mem_casefoldSet.mpr ⟨name, hname, hblank, rfl⟩
      have hiff := happlied.present_iff hrequired
      by_cases hpresent : u.casefold (Text.strip name) ∈
          casefoldSet u (structured.entities.map (·.name))
      · rw [if_neg fun hcond => hcond.2 (hiff.mpr (.inl hpresent)),
          if_neg fun hcond => hcond.2 hpresent]
        rfl
      · rw [if_pos (show _ ∧ _ from ⟨hblank, hpresent⟩), Option.filter_some]
        by_cases htarget : ∃ m ∈ mappings,
            u.casefold m.toRequiredInput = u.casefold (Text.strip name)
        · rw [if_neg fun hcond => hcond.2 (hiff.mpr (.inr htarget)), if_neg]
          rw [decide_eq_true_eq]
          intro hnone
          obtain ⟨m, hm, heq⟩ := htarget
          exact hnone m hm heq
        · have habsent := fun hin => (hiff.mp hin).elim hpresent htarget
          rw [if_pos (show _ ∧ _ from ⟨hblank, habsent⟩), if_pos]
          rw [decide_eq_true_eq]
          exact fun m hm heq => htarget ⟨m, hm, heq⟩

/-! ### One alignment -/

/-- The folding of the ASCII letters. -/
def asciiFolding : CharFolding where
  fold c := if 65 ≤ c.toNat ∧ c.toNat ≤ 90 then [Char.ofNat (c.toNat + 32)] else [c]
  space c hc := by
    rw [if_neg]
    rintro ⟨hlow, hhigh⟩
    simp only [Text.isSpace, Bool.or_eq_true, Bool.and_eq_true, decide_eq_true_eq,
      beq_iff_eq] at hc
    omega
  nonSpace c hc := by
    split
    · case isTrue hupper =>
      have hletters : ∀ n < 26, Text.isSpace (Char.ofNat (n + 97)) = false := by decide
      refine ⟨List.cons_ne_nil _ _, fun d hd => ?_⟩
      have hn : c.toNat + 32 = (c.toNat - 65) + 97 := by omega
      rw [List.mem_singleton.mp hd, hn]
      exact hletters _ (by omega)
    · refine ⟨List.cons_ne_nil _ _, fun d hd => ?_⟩
      rw [List.mem_singleton.mp hd]
      exact hc

/-- A request with one explicit entity and one derived one. -/
def weatherRequest : StructuredRequestV1 where
  requestText := "Weather in Seoul"
  intent := "weather"
  entities := [⟨"Place", .str "Seoul", .userExplicit⟩, ⟨"unit", .str "C", .modelDerived⟩]
  constraints := []
  expectedOutputs := []
  requiredCapabilities := ["weather"]
  riskHints := []
  missingInputs := []
  ambiguities := []
  needsClarification := false
  valid := by decide

/-- The place is the city. -/
def placeIsCity : EntityAlignmentMapping where
  fromEntityName := "place"
  toRequiredInput := "city"
  rationale := "a place name"
  nonBlank := by decide
  stripped := by decide

/-- The place gets the spelling of the required input. -/
theorem aligned_weatherRequest : ∃ r,
    applyEntityAlignments asciiFolding weatherRequest [placeIsCity] ["City", "unit"] [] = some r ∧
      r.entities.map (·.name) = ["City", "unit"] ∧
      Aligned asciiFolding weatherRequest [placeIsCity] ["City", "unit"] r := by
  have happly : (applyEntityAlignments asciiFolding weatherRequest [placeIsCity] ["City", "unit"]
      []).map (fun r => r.entities.map (·.name)) = some ["City", "unit"] := by
    decide +kernel
  obtain ⟨r, hr, hnames⟩ := Option.map_eq_some_iff.mp happly
  exact ⟨r, hr, hnames, aligned_of_applyEntityAlignments hr⟩

end McpFlow.Agent
