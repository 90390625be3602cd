import McpFlow.Factory.PlanLaws

/-!
# Reviewed tools

After an import every ToolVersion of a tool has the reviewed schemas of its package tool and the
Factory lineage. A discovery keeps this, whatever the remote answers, and an apply of a CLEAN plan is
idempotent.
-/

namespace McpFlow.Factory

open Json (Value)

variable {δ : Type} {hash : Value → δ} {u : CaseFolding}

/-- The digest of canonical JSON has no collisions: the digest of an object determines its keys, and
two objects with the same keys have one digest when their members have. -/
structure CollisionFree (hash : Value → δ) : Prop where
  keys : ∀ v ms, hash v = hash (.obj ms) →
    ∃ ms', v = .obj ms' ∧ ∀ k, k ∈ ms'.map Prod.fst ↔ k ∈ ms.map Prod.fst
  members : ∀ ms ms' : List (String × Value), (ms.map Prod.fst).Nodup →
    ms.map Prod.fst = ms'.map Prod.fst →
      (hash (.obj ms) = hash (.obj ms') ↔ List.Forall₂ (fun a b => hash a.2 = hash b.2) ms ms')

/-- Two contracts have one fingerprint when their parts have one digest. -/
theorem factoryContractFingerprint_eq_iff (hcoll : CollisionFree hash) {name : String}
    {input input' output output' : Value} :
    factoryContractFingerprint hash name input output =
        factoryContractFingerprint hash name input' output' ↔
      hash input = hash input' ∧ hash output = hash output' := by
  unfold factoryContractFingerprint contractPayload
  rw [hcoll.members _ _ (by simp) (by simp)]
  simp

/-! ### The invariant -/

/-- A version with the reviewed schemas and the lineage of its package tool. -/
structure ReviewedVersion (hash : Value → δ) (u : CaseFolding) (tool : PackageTool)
    (v : MCPToolVersion δ) : Prop where
  output : v.outputSchema = tool.responseSchema
  input : ∃ schema, tool.inputSchema u = .ok schema ∧ hash v.inputSchema = hash schema
  lineage : ∃ ms, v.annotations = some ms ∧
    ∀ k ∈ factoryAnnotationKeys, Dict.get? ms k = Dict.get? tool.lineage k

/-- A tool whose versions are reviewed ones. -/
structure ReviewedTool (hash : Value → δ) (u : CaseFolding) (tool : PackageTool) (t : MCPTool δ) :
    Prop where
  complete : tool.complete = true
  name : declarativeToolRemoteName tool = .ok t.remoteName
  numbers : (t.versions.map (·.versionNo)).Nodup
  versions : ∀ v ∈ t.versions, ReviewedVersion hash u tool v
  current : ∃ v ∈ t.versions, t.currentVersionNo = some v.versionNo

/-- The assets of a package. -/
structure FactoryAssets.Inv (hash : Value → δ) (u : CaseFolding) (a : FactoryAssets δ) : Prop where
  nonempty : a.package ≠ []
  ids : a.tools.rows.map MCPTool.id = a.mcpToolIds
  names : (a.tools.rows.map MCPTool.remoteName).Nodup
  tools : List.Forall₂ (ReviewedTool hash u) a.package a.tools.rows

theorem find?_versionNo {vs : List (MCPToolVersion δ)} (h : (vs.map (·.versionNo)).Nodup)
    {v : MCPToolVersion δ} (hv : v ∈ vs) : vs.find? (·.versionNo = v.versionNo) = some v := by
  induction vs with
  | nil => cases hv
  | cons w vs ih =>
    rw [List.map_cons, List.nodup_cons] at h
    rcases List.mem_cons.mp hv with rfl | hv
    · exact List.find?_cons_of_pos (by simp)
    · have hne : w.versionNo ≠ v.versionNo := fun heq =>
        h.1 (heq ▸ List.mem_map_of_mem hv)
      rw [List.find?_cons_of_neg (by simpa using hne)]
      exact ih h.2 hv

/-- The current version of a reviewed tool. -/
theorem ReviewedTool.currentVersion {tool : PackageTool} {t : MCPTool δ}
    (h : ReviewedTool hash u tool t) :
    ∃ v ∈ t.versions, t.currentVersion = some v := by
  obtain ⟨v, hv, hcurrent⟩ := h.current
  refine ⟨v, hv, ?_⟩
  rw [MCPTool.currentVersion, hcurrent]
  exact find?_versionNo h.numbers hv

/-! ### The import -/

theorem reviewedTool_importTool {id : UUID} {tool : PackageTool} {t : MCPTool δ}
    (hcomplete : tool.complete = true) (h : importTool hash u id tool = .ok t) :
    t.id = id ∧ ReviewedTool hash u tool t := by
  simp only [importTool, Except.bind_eq_ok_iff] at h
  obtain ⟨name, hname, schema, hschema, h⟩ := h
  cases h
  refine ⟨rfl, hcomplete, hname, by simp, fun v hv => ?_, _, List.mem_cons_self, rfl⟩
  obtain rfl := List.mem_singleton.mp hv
  exact ⟨rfl, ⟨schema, hschema, rfl⟩, tool.lineage, rfl, fun _ _ => rfl⟩

/-- The imported tools of a package, in its order. -/
theorem forall₂_importTool {ids : List UUID} {package : List PackageTool} {tools : List (MCPTool δ)}
    (hlen : ids.length = package.length) (hfull : ∀ t ∈ package, t.complete = true)
    (h : (ids.zip package).mapM (fun p => importTool hash u p.1 p.2) = .ok tools) :
    tools.map MCPTool.id = ids ∧ List.Forall₂ (ReviewedTool hash u) package tools := by
  have hall := List.forall₂_of_mapM_eq_ok h
  clear h
  induction ids generalizing package tools with
  | nil =>
    obtain _ | ⟨p, package⟩ := package
    · cases hall
      exact ⟨rfl, .nil⟩
    · cases hlen
  | cons id ids ih =>
    obtain _ | ⟨p, package⟩ := package
    · cases hlen
    · rw [List.zip_cons_cons] at hall
      rw [List.forall_mem_cons] at hfull
      cases hall with
      | cons ht hall =>
        obtain ⟨rfl, hreviewed⟩ := reviewedTool_importTool hfull.1 ht
        obtain ⟨hmap, hrest⟩ := ih (Nat.succ.inj hlen) hfull.2 hall
        exact ⟨by rw [List.map_cons, hmap], .cons hreviewed hrest⟩

theorem FactoryAssets.inv_importAssets {ids : List UUID} {package : List PackageTool}
    {a : FactoryAssets δ} (h : importAssets hash u ids package = .ok a) : a.Inv hash u := by
  unfold importAssets at h
  split at h
  · cases h
  next hpackage =>
  split at h
  · cases h
  next hlength =>
  rw [not_or, Bool.not_eq_true, Bool.not_eq_false', List.all_eq_true] at hpackage
  rw [ne_eq, not_not] at hlength
  rw [Except.bind_eq_ok_iff] at h
  obtain ⟨tools, htools, h⟩ := h
  split at h
  case isFalse => cases h
  split at h
  case isFalse => cases h
  next hnames =>
  cases h
  obtain ⟨hmap, hreviewed⟩ := forall₂_importTool hlength hpackage.2 htools
  exact ⟨hpackage.1, hmap, hnames, hreviewed⟩

theorem FactoryAssets.package_importAssets {ids : List UUID} {package : List PackageTool}
    {a : FactoryAssets δ} (h : importAssets hash u ids package = .ok a) : a.package = package := by
  unfold importAssets at h
  split at h
  · cases h
  split at h
  · cases h
  rw [Except.bind_eq_ok_iff] at h
  obtain ⟨tools, -, h⟩ := h
  split at h
  case isFalse => cases h
  split at h
  case isFalse => cases h
  cases h
  rfl

/-! ### Lineage -/

/-- The extracted lineage of annotations that have the lineage of a package tool. -/
theorem extractFactoryLineageAnnotations_eq {tool : PackageTool} {ms : Dict Value}
    (h : ∀ k ∈ factoryAnnotationKeys, Dict.get? ms k = Dict.get? tool.lineage k) :
    extractFactoryLineageAnnotations (some ms) = tool.lineage := by
  have hout : factoryAnnotationKeys.filterMap (fun k => (Dict.get? ms k).map fun v => (k, v)) =
      tool.lineage := by
    rw [List.filterMap_congr fun k hk => by rw [h k hk]]
    rfl
  simp only [extractFactoryLineageAnnotations, hout]
  exact if_pos rfl

/-- Merged annotations have the lineage that is merged in last. -/
theorem get?_mergeAnnotations_lineage (tool : PackageTool) (ms : Dict Value) {k : String}
    (hk : k ∈ factoryAnnotationKeys) :
    Dict.get? (mergeAnnotations ms tool.lineage) k = Dict.get? tool.lineage k := by
  have hnodup : Dict.keys tool.lineage = factoryAnnotationKeys := rfl
  have hsome : k ∈ Dict.keys tool.lineage := hk
  obtain ⟨v, hv⟩ := Dict.mem_keys_iff.mp hsome
  rw [mergeAnnotations, Dict.get?_foldl_set (by rw [hnodup]; decide), hv]
  rfl

/-! ### An apply -/

theorem MCPTool.lt_nextVersionNo {t : MCPTool δ} {v : MCPToolVersion δ} (hv : v ∈ t.versions) :
    v.versionNo < t.nextVersionNo := by
  have hmax : ∀ (l : List ℕ) (n₀ n : ℕ), n = n₀ ∨ n ∈ l → n ≤ l.foldl max n₀ := by
    intro l
    induction l with
    | nil =>
      rintro n₀ n (rfl | hn)
      · exact le_rfl
      · cases hn
    | cons m l ih =>
      rintro n₀ n (rfl | hn)
      · exact (le_max_left n m).trans (ih _ _ (.inl rfl))
      · rcases List.mem_cons.mp hn with rfl | hn
        · exact (le_max_right n₀ n).trans (ih _ _ (.inl rfl))
        · exact ih _ _ (.inr hn)
  exact Nat.lt_succ_of_le (hmax _ _ _ (.inr (List.mem_map_of_mem hv)))

section Apply

variable {tool : PackageTool} {t : MCPTool δ} {desc : RemoteToolDescriptor}

/-- The version that an apply stores: the wire input schema, the reviewed output schema and the
Factory lineage. -/
theorem ReviewedTool.reviewedVersion_stored (h : ReviewedTool hash u tool t)
    (hinput : hash desc.inputSchema = hash t.expected.inputSchema) {n : ℕ} :
    ReviewedVersion hash u tool {
      versionNo := n
      contentHash := contentHash hash desc
      inputSchema := desc.inputSchema
      outputSchema := (t.currentVersion.map (·.outputSchema)).getD .null
      annotations := some (mergeAnnotations (desc.annotations.getD [])
        (extractFactoryLineageAnnotations (t.currentVersion.bind (·.annotations))))
      rawDescriptor := desc.raw
      schemaDialect := none } := by
  obtain ⟨v, hv, hcurrent⟩ := h.currentVersion
  obtain ⟨houtput, ⟨schema, hschema, hhash⟩, ms, hms, hlineage⟩ := h.versions v hv
  simp only [MCPTool.expected, hcurrent, Option.map_some, Option.getD_some] at hinput
  refine ⟨?_, ⟨schema, hschema, hinput.trans hhash⟩, _, rfl, fun k hk => ?_⟩
  · simp only [hcurrent, Option.map_some, Option.getD_some, houtput]
  · rw [hcurrent, Option.bind_some, hms, extractFactoryLineageAnnotations_eq hlineage]
    exact get?_mergeAnnotations_lineage tool _ hk

variable [DecidableEq δ]

/-- An apply keeps a tool reviewed. -/
theorem ReviewedTool.applyMatched (h : ReviewedTool hash u tool t)
    (hinput : hash desc.inputSchema = hash t.expected.inputSchema) :
    ReviewedTool hash u tool (t.applyMatched hash desc) := by
  simp only [MCPTool.applyMatched, MCPTool.ensureVersion]
  split
  next existing hfind =>
    exact ⟨h.complete, h.name, h.numbers, h.versions, existing,
      List.mem_of_find?_eq_some hfind, rfl⟩
  next =>
    refine ⟨h.complete, h.name, ?_, ?_, _, List.mem_append_right _ List.mem_cons_self, rfl⟩
    · simp only [List.map_append, List.map_cons, List.map_nil]
      rw [List.nodup_append]
      refine ⟨h.numbers, List.nodup_singleton _, fun n hn m hm => ?_⟩
      obtain ⟨v, hv, rfl⟩ := List.mem_map.mp hn
      rw [List.mem_singleton.mp hm]
      exact (MCPTool.lt_nextVersionNo hv).ne
    · intro v hv
      rcases List.mem_append.mp hv with hv | hv
      · exact h.versions v hv
      · rw [List.mem_singleton.mp hv]
        exact h.reviewedVersion_stored hinput

@[simp] theorem MCPTool.status_applyMatched : (t.applyMatched hash desc).status = .inactive := rfl

@[simp] theorem MCPTool.remoteName_applyMatched :
    (t.applyMatched hash desc).remoteName = t.remoteName := by
  simp only [applyMatched, ensureVersion]
  split
  · rfl
  · rfl

/-- A digest that a tool has a version for makes no further one. -/
theorem MCPTool.ensureVersion_ensureVersion (digest : δ) (stored stored' : RemoteToolDescriptor) :
    (t.ensureVersion digest stored).ensureVersion digest stored' = t.ensureVersion digest stored := by
  cases hfind : t.versions.find? (·.contentHash = digest) with
  | some existing => simp only [ensureVersion, hfind]
  | none =>
    have hnew : ∀ v : MCPToolVersion δ, v.contentHash = digest →
        [v].find? (·.contentHash = digest) = some v :=
      fun v hv => List.find?_cons_of_pos (decide_eq_true hv)
    simp only [ensureVersion, hfind, List.find?_append, Option.none_or]
    rw [hnew _ rfl]

/-- A second apply of the same descriptor changes nothing. -/
theorem MCPTool.applyMatched_applyMatched :
    (t.applyMatched hash desc).applyMatched hash desc = t.applyMatched hash desc := by
  have hstatus : ∀ (digest : δ) (stored : RemoteToolDescriptor) (s : MCPTool δ),
      { s with status := .inactive }.ensureVersion digest stored =
        { s.ensureVersion digest stored with status := MCPToolStatus.inactive } := by
    intro digest stored s
    simp only [ensureVersion]
    split
    · rfl
    · rfl
  simp only [applyMatched]
  rw [hstatus, ensureVersion_ensureVersion]

end Apply

/-! ### The expected contracts -/

section Discovery

variable {a : FactoryAssets δ}

/-- The contract that is expected of a reviewed tool. -/
theorem ReviewedTool.expected {tool : PackageTool} {t : MCPTool δ}
    (h : ReviewedTool hash u tool t) :
    t.expected.outputSchema = tool.responseSchema ∧
      ∃ schema, tool.inputSchema u = .ok schema ∧ hash t.expected.inputSchema = hash schema := by
  obtain ⟨v, hv, hcurrent⟩ := h.currentVersion
  have hreviewed := h.versions v hv
  simp only [MCPTool.expected, hcurrent, Option.map_some, Option.getD_some]
  exact ⟨hreviewed.output, hreviewed.input⟩

/-- A reviewed tool has Factory provenance. -/
theorem ReviewedTool.hasProvenance {tool : PackageTool} {t : MCPTool δ}
    (h : ReviewedTool hash u tool t) : t.hasProvenance = true := by
  obtain ⟨v, hv, hcurrent⟩ := h.currentVersion
  obtain ⟨-, -, ms, hms, hlineage⟩ := h.versions v hv
  have himport : (Value.obj ms).getD "factory_import" = .bool true :=
    Json.Value.getD_eq_of_get? (hlineage _ (by decide))
  have hkey : (Value.obj ms).getD "operation_key" = .str tool.operationKey :=
    Json.Value.getD_eq_of_get? (hlineage _ (by decide))
  have hne : tool.operationKey ≠ "" := by
    have hcomplete := h.complete
    simp only [PackageTool.complete, Bool.and_eq_true, decide_eq_true_eq] at hcomplete
    exact hcomplete.1.1.2
  have hpresent : present ((Value.obj ms).getD "operation_key") = true := by
    rw [hkey]
    simp [present, hne]
  have hidentifies : identifies (.obj ms) = true := by
    refine Bool.or_eq_true_iff.mpr (.inl (List.any_eq_true.mpr ⟨"operation_key", by decide, ?_⟩))
    exact hpresent
  simp [MCPTool.hasProvenance, hcurrent, hasImmutableFactoryLineage, hms, himport, hidentifies]

theorem FactoryAssets.Inv.exists_tool (h : a.Inv hash u) {t : MCPTool δ} (ht : t ∈ a.tools.rows) :
    ∃ tool ∈ a.package, ReviewedTool hash u tool t :=
  List.exists_left_of_forall₂ h.tools ht

/-- The contracts of the tools under their remote names. -/
def FactoryAssets.expectedContracts (a : FactoryAssets δ) : Dict ExpectedContract :=
  a.tools.rows.map fun t => (t.remoteName, t.expected)

theorem FactoryAssets.keys_expectedContracts :
    a.expectedContracts.keys = a.tools.rows.map MCPTool.remoteName := by
  rw [Dict.keys, expectedContracts, List.map_map]
  rfl

/-- The expected contracts are those of the tools. -/
theorem FactoryAssets.Inv.loadExpected (h : a.Inv hash u) :
    a.loadExpected = .ok a.expectedContracts := by
  have hids : a.mcpToolIds ≠ [] := by
    intro hnil
    have hrows : a.tools.rows = [] := List.map_eq_nil_iff.mp (h.ids.trans hnil)
    have hlen := h.tools.length_eq
    rw [hrows, List.length_nil, List.length_eq_zero_iff] at hlen
    exact h.nonempty hlen
  have hmember : ¬(a.tools.rows.any fun t => t.id ∉ a.mcpToolIds) = true := by
    rw [List.any_eq_true]
    rintro ⟨t, ht, hnot⟩
    rw [← h.ids] at hnot
    exact of_decide_eq_true hnot (List.mem_map_of_mem ht)
  have hfound : ¬(a.mcpToolIds.any fun id => (a.tools.find? id).isNone) = true := by
    rw [List.any_eq_true]
    rintro ⟨id, hid, hnone⟩
    rw [← h.ids] at hid
    obtain ⟨t, ht, rfl⟩ := List.mem_map.mp hid
    rw [Table.find?_key_of_mem ht] at hnone
    cases hnone
  have hprovenance : ¬(a.tools.rows.any fun t => !t.hasProvenance) = true := by
    rw [List.any_eq_true]
    rintro ⟨t, ht, hnot⟩
    obtain ⟨tool, -, hreviewed⟩ := h.exists_tool ht
    rw [hreviewed.hasProvenance] at hnot
    cases hnot
  rw [FactoryAssets.loadExpected, if_neg hids, if_neg (not_not.mpr h.names), if_neg hmember, if_neg hfound,
    if_neg hprovenance]
  rfl

/-- The expected contract of a name is that of its tool. -/
theorem FactoryAssets.Inv.get?_expectedContracts (h : a.Inv hash u) {t : MCPTool δ}
    (ht : t ∈ a.tools.rows) : a.expectedContracts.get? t.remoteName = some t.expected := by
  refine Dict.get?_of_mem ?_ (List.mem_map_of_mem (f := fun t => (t.remoteName, t.expected)) ht)
  exact FactoryAssets.keys_expectedContracts ▸ h.names

/-- A tool of every expected contract. -/
theorem FactoryAssets.exists_of_get?_expectedContracts {n : String} {e : ExpectedContract}
    (h : a.expectedContracts.get? n = some e) :
    ∃ t ∈ a.tools.rows, t.remoteName = n ∧ t.expected = e := by
  obtain ⟨t, ht, heq⟩ := List.mem_map.mp (Dict.mem_of_get? h)
  exact ⟨t, ht, congrArg Prod.fst heq, congrArg Prod.snd heq⟩

/-- The assets keep the invariant when every tool keeps its id and name and stays reviewed. -/
theorem FactoryAssets.Inv.mapRows (h : a.Inv hash u) {f : MCPTool δ → MCPTool δ}
    (hid : ∀ t, (f t).id = t.id) (hname : ∀ t ∈ a.tools.rows, (f t).remoteName = t.remoteName)
    (hf : ∀ t ∈ a.tools.rows, ∀ tool, ReviewedTool hash u tool t →
      ReviewedTool hash u tool (f t)) :
    { a with tools := a.tools.mapRows f hid }.Inv hash u where
  nonempty := h.nonempty
  ids := by
    rw [Table.rows_mapRows, List.map_map, ← h.ids]
    exact List.map_congr_left fun t _ => hid t
  names := by
    rw [Table.rows_mapRows, List.map_map]
    exact (List.map_congr_left hname).symm ▸ h.names
  tools := by
    rw [Table.rows_mapRows, List.forall₂_map_right_iff]
    have hall : List.Forall₂ (fun t tool => t ∈ a.tools.rows ∧ ReviewedTool hash u tool t)
        a.tools.rows a.package :=
      (List.forall₂_and_left _ _).mpr ⟨fun _ ht => ht, h.tools.flip⟩
    exact (hall.imp fun t tool ht => hf t ht.1 tool ht.2).flip

/-- A change of a tool status keeps the invariant. -/
theorem FactoryAssets.Inv.setStatus (h : a.Inv hash u) {t : MCPTool δ} (ht : t ∈ a.tools)
    (status : MCPToolStatus) :
    { a with tools := a.tools.put { t with status } }.Inv hash u := by
  refine h.mapRows _ (fun s hs => ?_) (fun s hs tool hreviewed => ?_)
  · split
    next hid => rw [Table.eq_of_key_eq hs ht hid]
    next => rfl
  · split
    next hid =>
      obtain rfl := Table.eq_of_key_eq hs ht hid
      exact ⟨hreviewed.complete, hreviewed.name, hreviewed.numbers, hreviewed.versions,
        hreviewed.current⟩
    next => exact hreviewed

variable [DecidableEq δ] {remote : Dict RemoteToolDescriptor}

/-- When the plan for the tools is CLEAN. -/
theorem FactoryAssets.Inv.isClean_iff (h : a.Inv hash u) (hcoll : CollisionFree hash)
    (hremote : ∀ m ∈ remote, m.2.name = m.1) :
    (buildFactoryReconcilePlan hash a.expectedContracts remote).isClean = true ↔
      (∀ n, n ∈ a.tools.rows.map MCPTool.remoteName ↔ n ∈ remote.keys) ∧
      ∀ t ∈ a.tools.rows, ∀ r, remote.get? t.remoteName = some r →
        hash t.expected.inputSchema = hash r.inputSchema ∧
          hash (factoryMcpOutputSchema t.expected.outputSchema) = hash r.outputSchema := by
  rw [Factory.isClean_iff, FactoryAssets.keys_expectedContracts]
  refine and_congr_right fun _ => ⟨fun hfps t ht r hr => ?_, fun hfps n e r he hr => ?_⟩
  · have hfp := hfps _ _ r (h.get?_expectedContracts ht) hr
    rw [expectedFingerprint, remoteFingerprint, hremote _ (Dict.mem_of_get? hr)] at hfp
    exact (factoryContractFingerprint_eq_iff hcoll).mp hfp
  · obtain ⟨t, ht, rfl, rfl⟩ := FactoryAssets.exists_of_get?_expectedContracts he
    rw [expectedFingerprint, remoteFingerprint, hremote _ (Dict.mem_of_get? hr)]
    exact (factoryContractFingerprint_eq_iff hcoll).mpr (hfps t ht r hr)

/-- A CLEAN plan is applied to every tool. -/
theorem FactoryAssets.Inv.reconcile_eq (h : a.Inv hash u) (hcoll : CollisionFree hash)
    (hremote : ∀ m ∈ remote, m.2.name = m.1)
    (hclean : (buildFactoryReconcilePlan hash a.expectedContracts remote).isClean = true)
    {t : MCPTool δ} (ht : t ∈ a.tools.rows) :
    ∃ desc, remote.get? t.remoteName = some desc ∧
      hash desc.inputSchema = hash t.expected.inputSchema ∧
      t.reconcile hash remote
        (buildFactoryReconcilePlan hash a.expectedContracts remote).matchedNames =
          t.applyMatched hash desc := by
  obtain ⟨hnames, hhashes⟩ := (h.isClean_iff hcoll hremote).mp hclean
  have hname := List.mem_map_of_mem (f := MCPTool.remoteName) ht
  obtain ⟨desc, hdesc⟩ := Dict.mem_keys_iff.mp ((hnames _).mp hname)
  refine ⟨desc, hdesc, (hhashes t ht desc hdesc).1.symm, ?_⟩
  have hmatched := (mem_matchedNames hclean).mpr (FactoryAssets.keys_expectedContracts ▸ hname)
  simp only [MCPTool.reconcile, hdesc]
  exact if_pos hmatched

/-- The assets after an apply of the plan for them. -/
def FactoryAssets.applied (hash : Value → δ) (a : FactoryAssets δ)
    (remote : Dict RemoteToolDescriptor) : FactoryAssets δ :=
  a.applyFactoryMatched hash remote
    (buildFactoryReconcilePlan hash a.expectedContracts remote).matchedNames

/-- A tool after an apply of a CLEAN plan. -/
theorem FactoryAssets.Inv.exists_of_mem_applied (h : a.Inv hash u) (hcoll : CollisionFree hash)
    (hremote : ∀ m ∈ remote, m.2.name = m.1)
    (hclean : (buildFactoryReconcilePlan hash a.expectedContracts remote).isClean = true)
    {t' : MCPTool δ} (ht' : t' ∈ (a.applied hash remote).tools.rows) :
    ∃ t ∈ a.tools.rows, ∃ desc, remote.get? t.remoteName = some desc ∧
      hash desc.inputSchema = hash t.expected.inputSchema ∧ t' = t.applyMatched hash desc := by
  obtain ⟨t, ht, rfl⟩ := List.mem_map.mp ht'
  obtain ⟨desc, hdesc, hinput, heq⟩ := h.reconcile_eq hcoll hremote hclean ht
  exact ⟨t, ht, desc, hdesc, hinput, heq⟩

/-- An apply of a CLEAN plan keeps the invariant. -/
theorem FactoryAssets.Inv.applied (h : a.Inv hash u) (hcoll : CollisionFree hash)
    (hremote : ∀ m ∈ remote, m.2.name = m.1)
    (hclean : (buildFactoryReconcilePlan hash a.expectedContracts remote).isClean = true) :
    (a.applied hash remote).Inv hash u := by
  refine h.mapRows _ (fun t ht => ?_) (fun t ht tool hreviewed => ?_)
  · obtain ⟨desc, -, -, heq⟩ := h.reconcile_eq hcoll hremote hclean ht
    rw [heq, MCPTool.remoteName_applyMatched]
  · obtain ⟨desc, -, hinput, heq⟩ := h.reconcile_eq hcoll hremote hclean ht
    rw [heq]
    exact hreviewed.applyMatched hinput

theorem FactoryAssets.Inv.names_applied (h : a.Inv hash u) (hcoll : CollisionFree hash)
    (hremote : ∀ m ∈ remote, m.2.name = m.1)
    (hclean : (buildFactoryReconcilePlan hash a.expectedContracts remote).isClean = true) :
    (a.applied hash remote).tools.rows.map MCPTool.remoteName =
      a.tools.rows.map MCPTool.remoteName := by
  change (a.tools.rows.map _).map _ = _
  rw [List.map_map]
  refine List.map_congr_left fun t ht => ?_
  obtain ⟨desc, -, -, heq⟩ := h.reconcile_eq hcoll hremote hclean ht
  exact (congrArg MCPTool.remoteName heq).trans MCPTool.remoteName_applyMatched

/-- The plan after an apply of a CLEAN plan is CLEAN. -/
theorem FactoryAssets.Inv.isClean_applied (h : a.Inv hash u) (hcoll : CollisionFree hash)
    (hremote : ∀ m ∈ remote, m.2.name = m.1)
    (hclean : (buildFactoryReconcilePlan hash a.expectedContracts remote).isClean = true) :
    (buildFactoryReconcilePlan hash (a.applied hash remote).expectedContracts remote).isClean =
      true := by
  obtain ⟨hnames, hhashes⟩ := (h.isClean_iff hcoll hremote).mp hclean
  refine ((h.applied hcoll hremote hclean).isClean_iff hcoll hremote).mpr ⟨?_, fun t' ht' r hr => ?_⟩
  · rwa [h.names_applied hcoll hremote hclean]
  · obtain ⟨t, ht, desc, hdesc, hinput, rfl⟩ := h.exists_of_mem_applied hcoll hremote hclean ht'
    rw [MCPTool.remoteName_applyMatched] at hr
    obtain ⟨tool, -, hreviewed⟩ := h.exists_tool ht
    obtain ⟨houtput, schema, hschema, hhash⟩ := hreviewed.expected
    obtain ⟨houtput', schema', hschema', hhash'⟩ := (hreviewed.applyMatched hinput).expected
    rw [hschema] at hschema'
    cases hschema'
    rw [houtput', hhash', ← houtput, ← hhash]
    exact hhashes t ht r hr

/-- A second apply changes nothing. -/
theorem FactoryAssets.Inv.applied_applied (h : a.Inv hash u) (hcoll : CollisionFree hash)
    (hremote : ∀ m ∈ remote, m.2.name = m.1)
    (hclean : (buildFactoryReconcilePlan hash a.expectedContracts remote).isClean = true) :
    (a.applied hash remote).applied hash remote = a.applied hash remote := by
  have h' := h.applied hcoll hremote hclean
  have hclean' := h.isClean_applied hcoll hremote hclean
  have htools : ((a.applied hash remote).applied hash remote).tools =
      (a.applied hash remote).tools := by
    refine Table.ext ((List.map_congr_left fun t' ht' => ?_).trans (List.map_id _))
    obtain ⟨desc', hdesc', -, heq⟩ := h'.reconcile_eq hcoll hremote hclean' ht'
    obtain ⟨t, ht, desc, hdesc, hinput, rfl⟩ := h.exists_of_mem_applied hcoll hremote hclean ht'
    rw [MCPTool.remoteName_applyMatched, hdesc] at hdesc'
    cases hdesc'
    exact heq.trans MCPTool.applyMatched_applyMatched
  exact congrArg (fun tools => { a with tools }) htools

/-! ### Steps -/

variable {remoteTools : List RemoteToolDescriptor} {applyChanges : Bool}

/-- A discovery of remote tools that have an index. -/
theorem FactoryAssets.Inv.discover_eq (h : a.Inv hash u)
    (hindex : indexRemoteToolsStrict remoteTools = .ok remote) :
    a.discover hash applyChanges remoteTools =
      let plan := buildFactoryReconcilePlan hash a.expectedContracts remote
      if applyChanges && plan.isClean then (a.applied hash remote, plan) else (a, plan) := by
  simp only [discover, hindex, h.loadExpected]
  rfl

theorem FactoryAssets.Inv.snd_discover (h : a.Inv hash u)
    (hindex : indexRemoteToolsStrict remoteTools = .ok remote) :
    (a.discover hash applyChanges remoteTools).2 =
      buildFactoryReconcilePlan hash a.expectedContracts remote := by
  rw [h.discover_eq hindex]
  dsimp only
  split
  · rfl
  · rfl

/-- A discovery whose plan is CLEAN applies it. -/
theorem FactoryAssets.Inv.fst_discover (h : a.Inv hash u)
    (hindex : indexRemoteToolsStrict remoteTools = .ok remote)
    (hclean : (buildFactoryReconcilePlan hash a.expectedContracts remote).isClean = true) :
    (a.discover hash applyChanges remoteTools).1 =
      if applyChanges then a.applied hash remote else a := by
  rw [h.discover_eq hindex]
  simp only [hclean, Bool.and_true]
  split
  · rfl
  · rfl

/-- A discovery whose plan is CLEAN has an index. -/
theorem FactoryAssets.index_of_isClean
    (h : (a.discover hash applyChanges remoteTools).2.isClean = true) :
    ∃ remote, indexRemoteToolsStrict remoteTools = .ok remote := by
  unfold discover at h
  split at h
  · cases h
  next remote hindex => exact ⟨remote, hindex⟩

theorem FactoryAssets.Inv.discover (h : a.Inv hash u) (hcoll : CollisionFree hash) :
    (a.discover hash applyChanges remoteTools).1.Inv hash u := by
  cases hindex : indexRemoteToolsStrict remoteTools with
  | error message =>
    unfold FactoryAssets.discover
    rw [hindex]
    exact h
  | ok remote =>
    rw [h.discover_eq hindex]
    dsimp only
    split
    next happly =>
      exact h.applied hcoll (index_eq_ok hindex).2 (Bool.and_eq_true_iff.mp happly).2
    next => exact h

theorem FactoryAssets.inv_step (hcoll : CollisionFree hash) {action : AssetAction}
    {a' : FactoryAssets δ} (h : a.Inv hash u) (hstep : a.step hash action = some a') :
    a'.Inv hash u := by
  cases action with
  | discover applyChanges remoteTools =>
    cases hstep
    exact h.discover hcoll
  | setStatus id status =>
    obtain ⟨t, ht, rfl⟩ := Option.map_eq_some_iff.mp hstep
    exact h.setStatus (Table.mem_of_find? ht) status

/-- Whatever is discovered, the tools stay reviewed. -/
theorem FactoryAssets.inv_run (hcoll : CollisionFree hash) {as : List AssetAction}
    {a' : FactoryAssets δ} (h : a.Inv hash u)
    (hrun : Runs.run (FactoryAssets.step hash) a as = some a') : a'.Inv hash u :=
  Runs.run_invariant (fun _ _ _ hinv hstep => FactoryAssets.inv_step hcoll hinv hstep) h hrun

end Discovery

end McpFlow.Factory
