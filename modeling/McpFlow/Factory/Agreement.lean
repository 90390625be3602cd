import McpFlow.Factory.Reviewed

/-!
# Runtime and discovery agree

When the runtime loads the contracts of an imported package, every remote name is the operation key
of its package tool. The `tools/list` of the runtime therefore has the contracts that a discovery
expects.
-/

namespace McpFlow.Factory

open Json (Value)

variable {δ : Type} {hash : Value → δ} {u : CaseFolding}

/-! ### Names -/

/-- The remote name of an operation key. -/
def remoteNameOf (operationKey : String) : String := truncateName (Text.strip operationKey)

theorem length_remoteNameOf_le (key : String) :
    (remoteNameOf key).toList.length ≤ key.toList.length := by
  rw [remoteNameOf, truncateName, String.toList_ofList]
  exact (List.length_take_le' 255 _).trans (Text.length_strip_le key)

/-- A key that keeps its length is its own remote name. -/
theorem remoteNameOf_eq_of_length {key : String}
    (h : (remoteNameOf key).toList.length = key.toList.length) : remoteNameOf key = key := by
  have hstrip := Text.length_strip_le key
  rw [remoteNameOf, truncateName, String.toList_ofList, List.length_take] at h
  have hkey : Text.strip key = key := Text.strip_eq_of_length (by omega)
  rw [hkey] at h
  rw [remoteNameOf, truncateName, hkey, List.take_of_length_le (by omega), String.ofList_toList]

/-- The remote name of a reviewed tool. -/
theorem ReviewedTool.remoteName_eq {tool : PackageTool} {t : MCPTool δ}
    (h : ReviewedTool hash u tool t) :
    Text.strip tool.operationKey ≠ "" ∧ t.remoteName = remoteNameOf tool.operationKey := by
  have hname := h.name
  simp only [declarativeToolRemoteName] at hname
  split at hname
  · cases hname
  next hne =>
    injection hname with hname
    exact ⟨hne, hname.symm⟩

theorem map_remoteName {package : List PackageTool} {tools : List (MCPTool δ)}
    (h : List.Forall₂ (ReviewedTool hash u) package tools) :
    (package.map (·.operationKey)).map remoteNameOf = tools.map MCPTool.remoteName := by
  induction h with
  | nil => rfl
  | cons ht _ ih => rw [List.map_cons, List.map_cons, List.map_cons, ih, ht.remoteName_eq.2]

variable {a : FactoryAssets δ}

theorem FactoryAssets.Inv.map_remoteNameOf (h : a.Inv hash u) :
    (a.package.map (·.operationKey)).map remoteNameOf = a.tools.rows.map MCPTool.remoteName :=
  map_remoteName h.tools

/-- A package tool found under a remote name. -/
theorem FactoryAssets.mem_of_packageByKey {key : String} {tool : PackageTool}
    (h : a.packageByKey key = some tool) : tool ∈ a.package ∧ tool.operationKey = key :=
  ⟨List.mem_reverse.mp (List.mem_of_find?_eq_some h), by simpa using List.find?_some h⟩

/-- When every remote name is the key of some package tool, every operation key is its own remote
name: stripping and truncating permutes the keys, and does not make one longer. -/
theorem FactoryAssets.Inv.remoteNameOf_operationKey (h : a.Inv hash u)
    (hfound : ∀ t ∈ a.tools.rows, ∃ tool, a.packageByKey t.remoteName = some tool) :
    ∀ tool ∈ a.package, remoteNameOf tool.operationKey = tool.operationKey := by
  have hnames := h.map_remoteNameOf
  have hsub : ∀ key ∈ a.package.map (·.operationKey),
      remoteNameOf key ∈ a.package.map (·.operationKey) := by
    intro key hkey
    have hmem := List.mem_map_of_mem (f := remoteNameOf) hkey
    rw [hnames] at hmem
    obtain ⟨t, ht, hname⟩ := List.mem_map.mp hmem
    obtain ⟨tool, htool⟩ := hfound t ht
    obtain ⟨hpackage, hkey⟩ := FactoryAssets.mem_of_packageByKey htool
    exact hname ▸ hkey ▸ List.mem_map_of_mem hpackage
  have hsize := List.size_eq_of_map_nodup (fun key : String => key.toList.length)
    (fun key _ => length_remoteNameOf_le key) (hnames ▸ h.names) hsub
  exact fun tool htool => remoteNameOf_eq_of_length (hsize _ (List.mem_map_of_mem htool))

/-- The package tool of a reviewed tool is found under the remote name. -/
theorem FactoryAssets.Inv.packageByKey_remoteName (h : a.Inv hash u)
    (hfound : ∀ t ∈ a.tools.rows, ∃ tool, a.packageByKey t.remoteName = some tool)
    {tool : PackageTool} {t : MCPTool δ} (htool : tool ∈ a.package) (ht : t ∈ a.tools.rows)
    (hreviewed : ReviewedTool hash u tool t) :
    t.remoteName = tool.operationKey ∧ a.packageByKey t.remoteName = some tool := by
  have hself := h.remoteNameOf_operationKey hfound
  have hname := hreviewed.remoteName_eq.2.trans (hself tool htool)
  have hkeys : (a.package.map (·.operationKey)).Nodup := by
    have hmap : (a.package.map (·.operationKey)).map remoteNameOf =
        a.package.map (·.operationKey) := by
      rw [List.map_map]
      exact List.map_congr_left hself
    rw [← hmap, h.map_remoteNameOf]
    exact h.names
  obtain ⟨found, hfind⟩ := hfound t ht
  obtain ⟨hmem, hkey⟩ := FactoryAssets.mem_of_packageByKey hfind
  have heq := List.inj_on_of_nodup_map hkeys hmem htool (hkey.trans hname)
  exact ⟨hname, heq ▸ hfind⟩

/-! ### Contracts -/

/-- What a contract takes from its version and its package tool. -/
theorem packageToolToContract_eq_ok {tool : PackageTool} {inputSchema outputSchema : Value}
    {name : String} {c : DeclarativeToolContract} (hname : name ≠ "")
    (htype : inputSchema.hasKey "type" = true)
    (h : packageToolToContract u tool inputSchema outputSchema name = .ok c) :
    c.remoteName = remoteNameOf name ∧ c.inputSchema = inputSchema ∧
      c.outputSchema = if outputSchema.isNull then tool.responseSchema else outputSchema := by
  simp only [packageToolToContract, hname, if_false, htype, if_true] at h
  split at h
  · cases h
  split at h
  · cases h
  split at h
  · cases h
  simp only [Except.bind_eq_ok_iff] at h
  obtain ⟨schema, hschema, _, -, h⟩ := h
  obtain rfl := Except.ok.inj hschema
  obtain rfl := Except.ok.inj h
  exact ⟨rfl, rfl, rfl⟩

/-- The reviewed input schema is an object with a type. -/
theorem ReviewedVersion.inputSchema_obj (hcoll : CollisionFree hash) {tool : PackageTool}
    {v : MCPToolVersion δ} (h : ReviewedVersion hash u tool v) :
    v.inputSchema.isObj = true ∧ v.inputSchema.hasKey "type" = true := by
  obtain ⟨schema, hschema, hhash⟩ := h.input
  obtain ⟨ms, rfl, htype, -⟩ := hasKey_type_of_inputSchema hschema
  obtain ⟨ms', hobj, hkeys⟩ := hcoll.keys _ _ hhash
  have hmem : "type" ∈ Dict.keys ms' := (hkeys "type").mpr htype
  obtain ⟨value, hvalue⟩ := Dict.mem_keys_iff.mp hmem
  have hlookup : ms'.lookup "type" = some value := hvalue
  rw [hobj]
  exact ⟨rfl, by rw [Value.hasKey, Value.get?_obj, hlookup]; rfl⟩

/-- A contract that agrees with its tool. -/
structure Agrees (t : MCPTool δ) (c : DeclarativeToolContract) : Prop where
  name : c.remoteName = t.remoteName
  notBlank : Text.nonBlank c.remoteName = true
  input : c.inputSchema = t.expected.inputSchema
  output : c.outputSchema = t.expected.outputSchema

theorem keys_of_agrees {rows : List (MCPTool δ)} {contracts : Dict DeclarativeToolContract}
    (h : List.Forall₂ (fun t p => p.1 = t.remoteName ∧ Agrees t p.2) rows contracts) :
    contracts.keys = rows.map MCPTool.remoteName := by
  induction h with
  | nil => rfl
  | cons hp _ ih =>
    rw [List.map_cons, ← ih, ← hp.1]
    rfl

/-- A contract of the runtime was made for the package tool of its name. -/
theorem FactoryAssets.exists_packageByKey {t : MCPTool δ} (ht : t ∈ a.tools)
    {pair : String × DeclarativeToolContract} (h : a.reviewedContract u t.id = .ok pair) :
    ∃ tool, a.packageByKey t.remoteName = some tool := by
  unfold reviewedContract at h
  rw [Table.find?_key_of_mem ht] at h
  dsimp only at h
  split at h
  · cases h
  split at h
  · cases h
  next tool htool => exact ⟨tool, htool⟩

/-- The contract of a reviewed tool. -/
theorem FactoryAssets.Inv.agrees (h : a.Inv hash u) (hcoll : CollisionFree hash)
    (hfound : ∀ t ∈ a.tools.rows, ∃ tool, a.packageByKey t.remoteName = some tool)
    {t : MCPTool δ} (ht : t ∈ a.tools.rows) {pair : String × DeclarativeToolContract}
    (hpair : a.reviewedContract u t.id = .ok pair) : pair.1 = t.remoteName ∧ Agrees t pair.2 := by
  obtain ⟨tool, htool, hreviewed⟩ := h.exists_tool ht
  obtain ⟨hname, hpackage⟩ := h.packageByKey_remoteName hfound htool ht hreviewed
  obtain ⟨v, hv, hcurrent⟩ := hreviewed.currentVersion
  have hversion := hreviewed.versions v hv
  obtain ⟨hobj, htype⟩ := hversion.inputSchema_obj hcoll
  have hstrip := hreviewed.remoteName_eq.1
  have hne : t.remoteName ≠ "" := by
    rintro hempty
    rw [← hname, hempty] at hstrip
    exact hstrip rfl
  have hself : remoteNameOf t.remoteName = t.remoteName := by
    rw [hname]
    exact h.remoteNameOf_operationKey hfound tool htool
  rw [reviewedContract, Table.find?_key_of_mem ht] at hpair
  simp only [hcurrent, hpackage, hobj, if_true] at hpair
  simp only [Except.bind_eq_ok_iff] at hpair
  obtain ⟨_, heq, c, hc, hpair⟩ := hpair
  cases heq
  cases hpair
  obtain ⟨hcname, hcinput, hcoutput⟩ := packageToolToContract_eq_ok hne htype hc
  refine ⟨rfl, hcname.trans hself, ?_, ?_, ?_⟩
  · rw [hcname, hself, hname]
    exact Text.nonBlank_of_strip_ne_empty hstrip
  · rw [hcinput, MCPTool.expected, hcurrent]
    rfl
  · rw [hcoutput, MCPTool.expected, hcurrent, hversion.output]
    simp only [Option.map_some, Option.getD_some, hversion.output, ite_self]

/-- The contracts that the runtime loads are those of the tools. -/
theorem FactoryAssets.Inv.loadReviewedContracts (h : a.Inv hash u) (hcoll : CollisionFree hash)
    {contracts : Dict DeclarativeToolContract}
    (hload : a.loadReviewedContracts u = .ok contracts) :
    List.Forall₂ (fun t p => p.1 = t.remoteName ∧ Agrees t p.2) a.tools.rows contracts := by
  simp only [FactoryAssets.loadReviewedContracts, Except.bind_eq_ok_iff] at hload
  obtain ⟨pairs, hpairs, hload⟩ := hload
  split at hload
  · cases hload
  cases hload
  have hall := List.forall₂_of_mapM_eq_ok hpairs
  rw [← h.ids, List.forall₂_map_left_iff] at hall
  have hfound : ∀ t ∈ a.tools.rows, ∃ tool, a.packageByKey t.remoteName = some tool := by
    intro t ht
    obtain ⟨pair, -, hpair⟩ := List.exists_right_of_forall₂ hall ht
    exact FactoryAssets.exists_packageByKey ht hpair
  have hagree : List.Forall₂ (fun t p => p.1 = t.remoteName ∧ Agrees t p.2) a.tools.rows pairs := by
    have hmem := (List.forall₂_and_left _ _).mpr ⟨fun t (ht : t ∈ a.tools.rows) => ht, hall⟩
    exact hmem.imp fun t p hp => h.agrees hcoll hfound hp.1 hp.2
  have hkeys : pairs.map Prod.fst = _ := keys_of_agrees hagree
  rw [Dict.ofPairs_eq (hkeys ▸ h.names)]
  exact hagree

/-! ### `tools/list` -/

theorem get?_outputSchema_toolItem (c : DeclarativeToolContract) :
    (toolItem c).get? "outputSchema" =
      if c.outputSchema.isNull then none else some (factoryMcpOutputSchema c.outputSchema) := by
  unfold toolItem
  cases c.description with
  | none =>
    split
    · rfl
    · rfl
  | some d =>
    split
    · rfl
    · rfl

theorem get?_output_schema_toolItem (c : DeclarativeToolContract) :
    (toolItem c).get? "output_schema" = none := by
  unfold toolItem
  cases c.description with
  | none =>
    split
    · rfl
    · rfl
  | some d =>
    split
    · rfl
    · rfl

/-- What the client reads from the item of a contract. -/
theorem parseTool_toolItem {c : DeclarativeToolContract} (h : Text.nonBlank c.remoteName = true) :
    ∃ d, parseTool (toolItem c) = some d ∧ d.name = c.remoteName ∧
      d.inputSchema = c.inputSchema ∧ d.outputSchema = factoryMcpOutputSchema c.outputSchema := by
  have hname : ((toolItem c).getD "name").str? = some c.remoteName := rfl
  have hinput : firstOf (toolItem c) ["inputSchema", "input_schema"] = c.inputSchema := rfl
  have houtput : firstOf (toolItem c) ["outputSchema", "output_schema"] =
      factoryMcpOutputSchema c.outputSchema := by
    simp only [firstOf, List.findSome?_cons, get?_outputSchema_toolItem,
      get?_output_schema_toolItem, List.findSome?_nil]
    cases hnull : c.outputSchema.isNull with
    | true => simp only [factoryMcpOutputSchema, hnull, if_true, Option.getD_none]
    | false => simp only [Bool.false_eq_true, if_false, Option.getD_some]
  simp only [parseTool, hname, if_neg (Text.ne_empty_of_nonBlank h)]
  exact ⟨_, rfl, rfl, hinput, houtput⟩

section Listed

variable {contracts : Dict DeclarativeToolContract}

theorem mem_listTools {d : RemoteToolDescriptor} (h : d ∈ listTools (toolsList contracts)) :
    ∃ n c, contracts.get? n = some c ∧ parseTool (toolItem c) = some d := by
  obtain ⟨item, hitem, hparse⟩ := List.mem_filterMap.mp h
  obtain ⟨n, -, hn⟩ := List.mem_filterMap.mp hitem
  obtain ⟨c, hc, rfl⟩ := Option.map_eq_some_iff.mp hn
  exact ⟨n, c, hc, hparse⟩

variable (hagree : List.Forall₂ (fun t p => p.1 = t.remoteName ∧ Agrees t p.2) a.tools.rows contracts)
include hagree

/-- A loaded contract agrees with a tool. -/
theorem exists_tool_of_get? {n : String} {c : DeclarativeToolContract}
    (h : contracts.get? n = some c) : ∃ t ∈ a.tools.rows, n = t.remoteName ∧ Agrees t c :=
  List.exists_left_of_forall₂ hagree (Dict.mem_of_get? h)

/-- The listed tools are the sorted names. -/
theorem names_listTools : (listTools (toolsList contracts)).map (·.name) = sorted contracts.keys := by
  rw [listTools, toolsList, List.filterMap_filterMap]
  refine List.map_filterMap_of_forall fun n hn => ?_
  obtain ⟨c, hc⟩ := Dict.mem_keys_iff.mp (mem_sorted.mp hn)
  obtain ⟨t, -, rfl, ht⟩ := exists_tool_of_get? hagree hc
  obtain ⟨d, hd, hname, -⟩ := parseTool_toolItem ht.notBlank
  refine ⟨d, ?_, hname.trans ht.name⟩
  rw [hc]
  exact hd

/-- A listed tool has the schemas of its tool, the output schema in the envelope. -/
theorem exists_tool_of_mem_listTools {d : RemoteToolDescriptor}
    (h : d ∈ listTools (toolsList contracts)) :
    ∃ t ∈ a.tools.rows, d.name = t.remoteName ∧ Text.nonBlank d.name = true ∧
      d.inputSchema = t.expected.inputSchema ∧
      d.outputSchema = factoryMcpOutputSchema t.expected.outputSchema := by
  obtain ⟨n, c, hc, hparse⟩ := mem_listTools h
  obtain ⟨t, ht, -, hagrees⟩ := exists_tool_of_get? hagree hc
  obtain ⟨d', hd', hname, hinput, houtput⟩ := parseTool_toolItem hagrees.notBlank
  rw [hparse] at hd'
  cases hd'
  refine ⟨t, ht, hname.trans hagrees.name, hname ▸ hagrees.notBlank, hinput.trans hagrees.input, ?_⟩
  rw [houtput, hagrees.output]

end Listed

variable [DecidableEq δ]

/-- The `tools/list` of loaded contracts reconciles CLEAN. -/
theorem FactoryAssets.Inv.isClean_listTools (h : a.Inv hash u) (hcoll : CollisionFree hash)
    {contracts : Dict DeclarativeToolContract}
    (hload : a.loadReviewedContracts u = .ok contracts) :
    ∃ remote, indexRemoteToolsStrict (listTools (toolsList contracts)) = .ok remote ∧
      (buildFactoryReconcilePlan hash a.expectedContracts remote).isClean = true := by
  have hagree := h.loadReviewedContracts hcoll hload
  have hkeys := keys_of_agrees hagree
  have hnames := names_listTools hagree
  have hnodup : ((listTools (toolsList contracts)).map (·.name)).Nodup :=
    hnames ▸ nodup_sorted (hkeys ▸ h.names)
  have hindex := index_of_nodup hnodup fun d hd => by
    obtain ⟨t, -, -, hblank, -⟩ := exists_tool_of_mem_listTools hagree hd
    exact hblank
  refine ⟨_, hindex, (h.isClean_iff hcoll (index_eq_ok hindex).2).mpr ⟨fun n => ?_, ?_⟩⟩
  · rw [Dict.keys, List.map_map, ← hkeys, ← mem_sorted, ← hnames]
    rfl
  · intro t ht r hr
    obtain ⟨d, hd, heq⟩ := List.mem_map.mp (Dict.mem_of_get? hr)
    obtain ⟨hn, rfl⟩ := Prod.mk.inj heq
    obtain ⟨t', ht', hname, -, hinput, houtput⟩ := exists_tool_of_mem_listTools hagree hd
    obtain rfl := List.inj_on_of_nodup_map h.names ht' ht (hname.symm.trans hn)
    exact ⟨congrArg hash hinput.symm, congrArg hash houtput.symm⟩

/-! ### Agreement -/

theorem FactoryAssets.package_step {action : AssetAction} {a' : FactoryAssets δ}
    (h : a.step hash action = some a') : a'.package = a.package := by
  cases action with
  | discover applyChanges remoteTools =>
    cases h
    unfold FactoryAssets.discover
    split
    · rfl
    split
    · rfl
    dsimp only
    split
    · rfl
    · rfl
  | setStatus id status =>
    obtain ⟨t, -, rfl⟩ := Option.map_eq_some_iff.mp h
    rfl

/-- A tool after an apply: its reviewed output schema, its lineage, and the status INACTIVE. -/
structure Applied (tool : PackageTool) (t : MCPTool δ) : Prop where
  status : t.status = .inactive
  current : ∃ v, t.currentVersion = some v ∧ v.outputSchema = tool.responseSchema ∧
    extractFactoryLineageAnnotations v.annotations = tool.lineage

/-- Every tool of an apply of a CLEAN plan. -/
theorem FactoryAssets.Inv.forall₂_applied (h : a.Inv hash u) (hcoll : CollisionFree hash)
    {remote : Dict RemoteToolDescriptor} (hremote : ∀ m ∈ remote, m.2.name = m.1)
    (hclean : (buildFactoryReconcilePlan hash a.expectedContracts remote).isClean = true) :
    List.Forall₂ Applied a.package (a.applied hash remote).tools.rows := by
  have hreviewed := (h.applied hcoll hremote hclean).tools
  have hall := (List.forall₂_and_left _ _).mpr
    ⟨fun t (ht : t ∈ (a.applied hash remote).tools.rows) => ht, hreviewed.flip⟩
  refine (hall.imp fun t' tool ht => ?_).flip
  obtain ⟨ht', hreviewed⟩ := ht
  obtain ⟨t, ht, desc, -, -, rfl⟩ := h.exists_of_mem_applied hcoll hremote hclean ht'
  obtain ⟨v, hv, hcurrent⟩ := hreviewed.currentVersion
  obtain ⟨houtput, -, ms, hms, hlineage⟩ := hreviewed.versions v hv
  refine ⟨rfl, v, hcurrent, houtput, ?_⟩
  rw [hms, extractFactoryLineageAnnotations_eq hlineage]

/-- Runtime and discovery agree about the imported tools of a package, whatever was discovered and
whichever statuses were set since the import. -/
theorem runtime_discovery_agreement (hcoll : CollisionFree hash) {ids : List UUID}
    {package : List PackageTool} {a₀ a : FactoryAssets δ} {as : List AssetAction}
    (himport : importAssets hash u ids package = .ok a₀)
    (hrun : Runs.run (FactoryAssets.step hash) a₀ as = some a) :
    -- What a READY runtime lists is what the imported versions expect.
    (∀ contracts, a.loadReviewedContracts u = .ok contracts →
      ∃ expected remote, a.loadExpected = .ok expected ∧
        indexRemoteToolsStrict (listTools (toolsList contracts)) = .ok remote ∧
        let plan := buildFactoryReconcilePlan hash expected remote
        plan.isClean = true ∧ (∀ e ∈ plan.entries, e.classification = .matched) ∧
          ∀ n, n ∈ plan.entries.map (·.remoteName) ↔ n ∈ expected.keys) ∧
    -- A plan classifies every expected and every remote name exactly once.
    (∀ (expected : Dict ExpectedContract) (remote : Dict RemoteToolDescriptor),
      expected.keys.Nodup → remote.keys.Nodup →
        let names := (buildFactoryReconcilePlan hash expected remote).entries.map (·.remoteName)
        names.Nodup ∧ ∀ n, n ∈ names ↔ n ∈ expected.keys ∨ n ∈ remote.keys) ∧
    -- An apply of a CLEAN plan keeps what was reviewed, and a second discovery changes nothing.
    ∀ remoteTools, (a.discover hash true remoteTools).2.isClean = true →
      let a' := (a.discover hash true remoteTools).1
      List.Forall₂ Applied package a'.tools.rows ∧
        ∀ applyChanges, (a'.discover hash applyChanges remoteTools).2.isClean = true ∧
          (a'.discover hash applyChanges remoteTools).1 = a' := by
  have h := FactoryAssets.inv_run hcoll (FactoryAssets.inv_importAssets himport) hrun
  have hpackage : a.package = package :=
    Runs.run_invariant
      (fun s action s' (hs : s.package = package) hstep =>
        (FactoryAssets.package_step hstep).trans hs)
      (FactoryAssets.package_importAssets himport) hrun
  refine ⟨fun contracts hload => ?_, fun expected remote hexpected hremote => ?_,
    fun remoteTools hclean => ?_⟩
  · obtain ⟨remote, hindex, hclean⟩ := h.isClean_listTools hcoll hload
    refine ⟨_, remote, h.loadExpected, hindex, hclean, isClean_iff_entries.mp hclean, fun n => ?_⟩
    have hnames := (isClean_iff.mp hclean).1 n
    exact mem_names_reconcileEntries.trans (by rw [← hnames, or_self])
  · exact ⟨nodup_names_reconcileEntries hexpected hremote, fun n => mem_names_reconcileEntries⟩
  · obtain ⟨remote, hindex⟩ := FactoryAssets.index_of_isClean hclean
    have hremote := (index_eq_ok hindex).2
    rw [h.snd_discover hindex] at hclean
    have hstored : (a.discover hash true remoteTools).1 = a.applied hash remote :=
      h.fst_discover hindex hclean
    rw [hstored]
    have h' := h.applied hcoll hremote hclean
    have hclean' := h.isClean_applied hcoll hremote hclean
    refine ⟨hpackage ▸ h.forall₂_applied hcoll hremote hclean, fun applyChanges => ⟨?_, ?_⟩⟩
    · rw [h'.snd_discover hindex]
      exact hclean'
    · rw [h'.fst_discover hindex hclean', h.applied_applied hcoll hremote hclean, ite_self]

/-- Values are digests of themselves. -/
theorem collisionFree_id : CollisionFree fun v : Value => v where
  keys v ms h := ⟨ms, h, fun _ => Iff.rfl⟩
  members ms ms' hnodup hkeys := by
    clear hnodup
    rw [Value.obj.injEq]
    induction ms generalizing ms' with
    | nil =>
      rw [List.map_nil, eq_comm, List.map_eq_nil_iff] at hkeys
      subst hkeys
      exact iff_of_true rfl .nil
    | cons m ms ih =>
      obtain _ | ⟨m', ms'⟩ := ms'
      · cases hkeys
      · rw [List.map_cons, List.map_cons, List.cons.injEq] at hkeys
        rw [List.cons.injEq, List.forall₂_cons, ih ms' hkeys.2, Prod.ext_iff]
        exact and_congr_left fun _ => and_iff_right hkeys.1

/-- Two tools: one with a parameter and a response schema, one with a request body and neither. -/
def orderPackage : List PackageTool :=
  [{ candidateId := "c1", operationKey := "getOrder", method := "get", path := "/order"
     operationId := .null, summary := .null, description := .str "Read an order", tags := []
     deprecated := false
     parameters := [.obj [("name", .str "id"), ("location", .str "query"), ("required", .bool true)]]
     requestSchema := .null, requestBodyRequired := false
     responseSchema := .obj [("type", .str "object")] },
   { candidateId := "c2", operationKey := "addOrder", method := "post", path := "/order"
     operationId := .null, summary := .null, description := .null, tags := [], deprecated := false
     parameters := [], requestSchema := .obj [("type", .str "object")], requestBodyRequired := true
     responseSchema := .null }]

/-- Case functions of texts without letters that fold, but for the methods. -/
def orderFolding : CaseFolding where
  casefold s := s
  lower s := s
  upper s := if s = "get" then "GET" else if s = "post" then "POST" else s

/-- The imported tools of `orderPackage` after one of them was activated, and what the runtime loads
from them. -/
def orderRun : Option (FactoryAssets Value × FactoryAssets Value × Dict DeclarativeToolContract) :=
  match importAssets (fun v => v) orderFolding [.ofNat 1, .ofNat 2] orderPackage with
  | .error _ => none
  | .ok a₀ =>
    match Runs.run (FactoryAssets.step fun v => v) a₀ [.setStatus (.ofNat 1) .active] with
    | none => none
    | some a =>
      match a.loadReviewedContracts orderFolding with
      | .error _ => none
      | .ok contracts => some (a₀, a, contracts)

/-- The runtime that serves `orderPackage` agrees with the discovery of its tools. -/
theorem orderRun_agreement :
    ∃ (a : FactoryAssets Value) (contracts : Dict DeclarativeToolContract),
      a.loadReviewedContracts orderFolding = .ok contracts ∧
      (∃ expected remote, a.loadExpected = .ok expected ∧
        indexRemoteToolsStrict (listTools (toolsList contracts)) = .ok remote ∧
        (buildFactoryReconcilePlan (fun v => v) expected remote).isClean = true) ∧
      List.Forall₂ Applied orderPackage
        (a.discover (fun v => v) true (listTools (toolsList contracts))).1.tools.rows := by
  have hrun : orderRun.any (fun r =>
      (r.2.1.discover (fun v => v) true (listTools (toolsList r.2.2))).2.isClean) = true := by
    decide +kernel
  obtain ⟨⟨a₀, a, contracts⟩, hr, hclean⟩ := (Option.any_eq_true _ _).mp hrun
  unfold orderRun at hr
  split at hr
  · cases hr
  next himport =>
  split at hr
  · cases hr
  next hstep =>
  split at hr
  · cases hr
  next hload =>
  cases hr
  obtain ⟨hread, -, happly⟩ := runtime_discovery_agreement collisionFree_id himport hstep
  obtain ⟨expected, remote, hexpected, hremote, hplan, -⟩ := hread contracts hload
  exact ⟨a, contracts, hload, ⟨expected, remote, hexpected, hremote, hplan⟩,
    (happly _ hclean).1⟩

end McpFlow.Factory
