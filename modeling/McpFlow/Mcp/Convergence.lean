import McpFlow.Factory.Agreement
import McpFlow.Mcp.Discovery

/-!
# Discovery converges

An apply settles every tool of the server on its own: a listed tool gets the version of the remote
digest and is revived, an absent one is missing; the other remote tools are created. What is settled
stays as it is under a second discovery of the same remote. All of this is about the tools on the
page that discovery reads, so the tools of the server have to fit on it.
-/

namespace McpFlow.Discovery

open Json (Value)
open Factory (MCPTool MCPToolVersion MCPToolStatus RemoteToolDescriptor contentHash CollisionFree)

variable {δ : Type} [DecidableEq δ] {hash : Value → δ} {w w' w₀ : ServerTools δ}
  {remote : RemoteMeta δ} {existing : Dict (MCPTool δ)} {existingTools : List (MCPTool δ)}
  {t t' : MCPTool δ} {desc desc' : RemoteToolDescriptor} {digest : δ} {name : String}
  {remoteTools : List RemoteToolDescriptor} {order ids : List UUID} {diff : Diff}
  {tools tools' : Table (MCPTool.id (δ := δ))}

/-! ### The law -/

/-- The names of the tools. -/
def ServerTools.remoteNames (w : ServerTools δ) : List String := w.tools.rows.map MCPTool.remoteName

/-- A tool has the version of a descriptor: its digest, and its schemas. -/
def AtVersion (hash : Value → δ) (tool : MCPTool δ) (desc : RemoteToolDescriptor) : Prop :=
  ∃ v, tool.currentVersion = some v ∧ v.contentHash = contentHash hash desc ∧
    hash v.inputSchema = hash desc.inputSchema ∧ hash v.outputSchema = hash desc.outputSchema

/-- What a discovery that is applied does to the tools of a server. -/
structure Converges (hash : Value → δ) (remoteTools : List RemoteToolDescriptor)
    (w : ServerTools δ) (diff : Diff) (w' : ServerTools δ) : Prop where
  /-- Every remote or local name stands once in one of the four lists. -/
  once : (diff.added ++ diff.changed ++ diff.unchanged ++ diff.missing).Nodup
  everyName : ∀ name, name ∈ diff.added ++ diff.changed ++ diff.unchanged ++ diff.missing ↔
    name ∈ remoteTools.map (·.name) ∨ name ∈ w.remoteNames
  /-- Every remote tool has a tool at its version. -/
  current : ∀ desc ∈ remoteTools, ∃ t ∈ w'.tools, t.remoteName = desc.name ∧ AtVersion hash t desc
  /-- The absent tools are missing, and no other ones. -/
  missing : ∀ t ∈ w'.tools, t.status = .missing ↔ t.remoteName ∉ remoteTools.map (·.name)
  /-- An active tool stays active, unless it is absent. -/
  active : ∀ t ∈ w.tools, t.status = .active → ∃ t' ∈ w'.tools, t'.id = t.id ∧
    (t'.status = .active ∨ t.remoteName ∉ remoteTools.map (·.name))
  /-- A second discovery finds nothing to add or to change, and makes no version. -/
  again : ∀ applyChanges order ids w'' diff',
    w'.discover hash applyChanges remoteTools order ids = some (w'', diff') →
    diff'.added = [] ∧ diff'.changed = [] ∧
      w''.tools.rows.map (fun t => (t.id, t.versions)) =
        w'.tools.rows.map fun t => (t.id, t.versions)

/-- The tools of the server and the new ones of the remote fit on one page. -/
def Fits (w : ServerTools δ) (remoteTools : List RemoteToolDescriptor) : Prop :=
  w.tools.rows.length +
    ((remoteTools.map (·.name)).filter fun name => name ∉ w.remoteNames).length ≤ pageSize

/-! ### Versions -/

/-- Every version is made of a descriptor of the tool's name, and has its digest. -/
structure FaithfulTool (hash : Value → δ) (t : MCPTool δ) : Prop where
  numbers : (t.versions.map (·.versionNo)).Nodup
  versions : ∀ v ∈ t.versions, ∃ desc : RemoteToolDescriptor, desc.name = t.remoteName ∧
    v.contentHash = contentHash hash desc ∧ v.inputSchema = desc.inputSchema ∧
      v.outputSchema = desc.outputSchema

omit [DecidableEq δ] in
theorem contentHash_eq (hcoll : CollisionFree hash)
    (h : contentHash hash desc = contentHash hash desc') :
    hash desc.inputSchema = hash desc'.inputSchema ∧
      hash desc.outputSchema = hash desc'.outputSchema := by
  unfold contentHash at h
  rw [hcoll.members _ _ (by simp) (by simp)] at h
  simp only [List.forall₂_cons, List.Forall₂.nil, and_true] at h
  exact ⟨h.2.2.1, h.2.2.2.1⟩

@[simp] theorem id_ensureVersion : (t.ensureVersion digest desc).id = t.id := by
  rw [MCPTool.ensureVersion]
  split <;> rfl

@[simp] theorem remoteName_ensureVersion :
    (t.ensureVersion digest desc).remoteName = t.remoteName := by
  rw [MCPTool.ensureVersion]
  split <;> rfl

@[simp] theorem status_ensureVersion : (t.ensureVersion digest desc).status = t.status := by
  rw [MCPTool.ensureVersion]
  split <;> rfl

omit [DecidableEq δ] in
theorem find?_versionNo {vs : List (MCPToolVersion δ)} {v : MCPToolVersion δ}
    (hnodup : (vs.map (·.versionNo)).Nodup) (hv : v ∈ vs) :
    vs.find? (·.versionNo = v.versionNo) = some v := by
  cases hfind : vs.find? (·.versionNo = v.versionNo) with
  | none => exact absurd (List.find?_eq_none.mp hfind v hv) (by simp)
  | some v' =>
    have hno : v'.versionNo = v.versionNo := by simpa using List.find?_some hfind
    exact congrArg some (List.inj_on_of_nodup_map hnodup (List.mem_of_find?_eq_some hfind) hv hno)

/-- The current version has the digest that was asked for. -/
theorem currentVersion_ensureVersion (h : (t.versions.map (·.versionNo)).Nodup) :
    ∃ v ∈ (t.ensureVersion digest desc).versions,
      (t.ensureVersion digest desc).currentVersion = some v ∧ v.contentHash = digest := by
  rw [MCPTool.ensureVersion]
  split
  · case h_1 v hfind =>
    have hv := List.mem_of_find?_eq_some hfind
    have hdigest : v.contentHash = digest := by simpa using List.find?_some hfind
    refine ⟨v, hv, ?_, hdigest⟩
    rw [MCPTool.currentVersion, Option.bind_some, find?_versionNo h hv]
  · refine ⟨_, List.mem_append_right _ List.mem_cons_self, ?_, rfl⟩
    rw [MCPTool.currentVersion, Option.bind_some, List.find?_append]
    have hnone : t.versions.find? (·.versionNo = t.nextVersionNo) = none := by
      refine List.find?_eq_none.mpr fun v hv => ?_
      have := Factory.MCPTool.lt_nextVersionNo hv
      simp only [decide_eq_true_eq]
      omega
    rw [hnone, Option.none_or, List.find?_cons_of_pos (by simp)]

theorem FaithfulTool.ensureVersion (h : FaithfulTool hash t) (hname : desc.name = t.remoteName) :
    FaithfulTool hash (t.ensureVersion (contentHash hash desc) desc) := by
  rw [MCPTool.ensureVersion]
  split
  · exact ⟨h.numbers, h.versions⟩
  · refine ⟨?_, fun v hv => ?_⟩
    · rw [List.map_append, List.map_cons, List.map_nil]
      refine List.nodup_append.mpr ⟨h.numbers, List.nodup_singleton _, fun n hn m hm => ?_⟩
      obtain ⟨v, hv, rfl⟩ := List.mem_map.mp hn
      rw [List.mem_singleton.mp hm]
      exact (Factory.MCPTool.lt_nextVersionNo hv).ne
    · rcases List.mem_append.mp hv with hv | hv
      · exact h.versions v hv
      · rw [List.mem_singleton.mp hv]
        exact ⟨desc, hname, rfl, rfl, rfl⟩

omit [DecidableEq δ] in
theorem FaithfulTool.withStatus (h : FaithfulTool hash t) (status : MCPToolStatus) :
    FaithfulTool hash { t with status } :=
  ⟨h.numbers, h.versions⟩

omit [DecidableEq δ] in
theorem faithfulTool_createdTool (id : UUID) (name : String) :
    FaithfulTool hash (createdTool id name) :=
  ⟨List.nodup_nil, fun _ hv => absurd hv List.not_mem_nil⟩

omit [DecidableEq δ] in
/-- A faithful tool with the digest of a descriptor is at its version. -/
theorem FaithfulTool.atVersion (h : FaithfulTool hash t) (hcoll : CollisionFree hash)
    (hcurrent : currentHash t = some (contentHash hash desc)) : AtVersion hash t desc := by
  obtain ⟨v, hv, hdigest⟩ := Option.map_eq_some_iff.mp hcurrent
  refine ⟨v, hv, hdigest, ?_⟩
  obtain ⟨n, -, hfind⟩ := Option.bind_eq_some_iff.mp hv
  obtain ⟨desc', -, hhash, hinput, houtput⟩ :=
    h.versions v (List.mem_of_find?_eq_some hfind)
  rw [hinput, houtput]
  exact contentHash_eq hcoll (hhash.symm.trans hdigest)

/-! ### What discovery reads -/

omit [DecidableEq δ] in
theorem of_get?_buildRemoteMeta
    (h : (buildRemoteMeta hash remoteTools).get? name = some (desc, digest)) :
    desc ∈ remoteTools ∧ desc.name = name ∧ digest = contentHash hash desc := by
  have hmem := Dict.mem_of_mem_ofPairs (Dict.mem_of_get? h)
  obtain ⟨desc', hdesc', heq⟩ := List.mem_map.mp hmem
  cases heq
  exact ⟨hdesc', rfl, rfl⟩

omit [DecidableEq δ] in
theorem keys_buildRemoteMeta :
    (buildRemoteMeta hash remoteTools).keys.Nodup ∧
      ∀ name, name ∈ (buildRemoteMeta hash remoteTools).keys ↔
        name ∈ remoteTools.map (·.name) := by
  refine ⟨Dict.nodup_keys_ofPairs _, fun name => ?_⟩
  rw [buildRemoteMeta, Dict.mem_keys_ofPairs, List.map_map]
  rfl

omit [DecidableEq δ] in
theorem get?_buildRemoteMeta (hnodup : (remoteTools.map (·.name)).Nodup) (hdesc : desc ∈ remoteTools) :
    (buildRemoteMeta hash remoteTools).get? desc.name = some (desc, contentHash hash desc) := by
  have hkeys : ((remoteTools.map fun desc => (desc.name, desc, contentHash hash desc)).map
      Prod.fst).Nodup := by
    rw [List.map_map]
    exact hnodup
  rw [buildRemoteMeta, Dict.ofPairs_eq hkeys]
  refine Dict.get?_of_mem ?_ (List.mem_map_of_mem hdesc)
  exact hkeys

omit [DecidableEq δ] in
theorem mem_of_mem_listTools (h : w.listTools order = some existingTools) (ht : t ∈ existingTools) :
    t ∈ w.tools := by
  rw [ServerTools.listTools] at h
  split at h
  · cases h
    obtain ⟨id, -, hid⟩ := List.mem_filterMap.mp (List.mem_of_mem_take ht)
    exact Table.mem_of_find? hid
  · cases h

omit [DecidableEq δ] in
theorem eq_of_remoteName_eq (ht : t ∈ w.tools) (ht' : t' ∈ w.tools)
    (h : t.remoteName = t'.remoteName) : t = t' :=
  List.inj_on_of_nodup_map w.names ht ht' h

omit [DecidableEq δ] in
theorem nodup_listTools (h : w.listTools order = some existingTools) :
    (existingTools.map MCPTool.remoteName).Nodup := by
  have hmem := fun t => mem_of_mem_listTools (t := t) h
  rw [ServerTools.listTools] at h
  split at h
  · case isTrue hperm =>
    cases h
    refine List.Nodup.map_on (fun t ht t' ht' hname => ?_) ?_
    · exact eq_of_remoteName_eq (hmem t ht) (hmem t' ht') hname
    · refine ((hperm.nodup_iff.mpr w.tools.nodup_keys).filterMap ?_).sublist (List.take_sublist _ _)
      intro id id' t ht ht'
      exact (Table.key_of_find? ht).symm.trans (Table.key_of_find? ht')
  · cases h

omit [DecidableEq δ] in
/-- A server whose tools fit on the page is listed whole. -/
theorem mem_listTools (hpage : w.tools.rows.length ≤ pageSize)
    (h : w.listTools order = some existingTools) (ht : t ∈ w.tools) : t ∈ existingTools := by
  rw [ServerTools.listTools] at h
  split at h
  · case isTrue hperm =>
    cases h
    have hlength : (order.filterMap w.tools.find?).length ≤ pageSize := by
      refine (List.length_filterMap_le _ _).trans ?_
      rw [hperm.length_eq, List.length_map]
      exact hpage
    rw [List.take_of_length_le hlength]
    exact List.mem_filterMap.mpr ⟨t.id, hperm.mem_iff.mpr (List.mem_map_of_mem ht),
      Table.find?_key_of_mem ht⟩
  · cases h

omit [DecidableEq δ] in
theorem get?_existingByName (h : w.listTools order = some existingTools) :
    (existingByName existingTools).get? name = some t ↔ t ∈ existingTools ∧ t.remoteName = name := by
  have hkeys : ((existingTools.map fun t => (t.remoteName, t)).map Prod.fst).Nodup := by
    rw [List.map_map]
    exact nodup_listTools h
  rw [existingByName, Dict.ofPairs_eq hkeys]
  constructor
  · intro hget
    obtain ⟨t', ht', heq⟩ := List.mem_map.mp (Dict.mem_of_get? hget)
    cases heq
    exact ⟨ht', rfl⟩
  · rintro ⟨ht, rfl⟩
    exact Dict.get?_of_mem hkeys (List.mem_map_of_mem (f := fun t => (t.remoteName, t)) ht)

/-! ### The diff -/

omit [DecidableEq δ] in
/-- The digests that the diff compares. -/
theorem join_get?_currentHashes (existing : Dict (MCPTool δ)) (name : String) :
    (Dict.get? (existing.map fun p => (p.1, currentHash p.2)) name).join =
      (existing.get? name).bind currentHash := by
  induction existing with
  | nil => rfl
  | cons p existing ih =>
    rw [List.map_cons, Dict.get?_cons, Dict.get?_cons]
    split
    · rfl
    · exact ih

/-- The remote names of one kind, in the order of the remote. -/
theorem foldl_addRemote (currentHashes : Dict (Option δ)) (remote : RemoteMeta δ) (diff : Diff) :
    remote.foldl (Diff.addRemote existing currentHashes) diff =
      { added := diff.added ++
          (remote.filter fun p => (existing.get? p.1).isNone).map Prod.fst
        changed := diff.changed ++ ((remote.filter fun p => !(existing.get? p.1).isNone).filter
          fun p => !decide ((currentHashes.get? p.1).join = some p.2.2)).map Prod.fst
        unchanged := diff.unchanged ++ ((remote.filter fun p => !(existing.get? p.1).isNone).filter
          fun p => decide ((currentHashes.get? p.1).join = some p.2.2)).map Prod.fst
        missing := diff.missing } := by
  induction remote generalizing diff with
  | nil => simp
  | cons p remote ih =>
    rw [List.foldl_cons, ih, Diff.addRemote]
    cases hget : existing.get? p.1 with
    | none => simp [hget]
    | some t =>
      dsimp only
      by_cases hhash : (currentHashes.get? p.1).join = some p.2.2
      · simp [hget, hhash]
      · simp [hget, hhash]

/-- The diff of a remote and the tools that are listed. -/
def diffOf (remote : RemoteMeta δ) (existing : Dict (MCPTool δ)) : Diff :=
  computeDiff remote existing (existing.map fun p => (p.1, currentHash p.2))

theorem mem_added :
    name ∈ (diffOf remote existing).added ↔ name ∈ remote.keys ∧ existing.get? name = none := by
  rw [diffOf, computeDiff, foldl_addRemote, List.nil_append, List.mem_map]
  simp only [List.mem_filter, Option.isNone_iff_eq_none]
  constructor
  · rintro ⟨p, ⟨hp, hnone⟩, rfl⟩
    exact ⟨List.mem_map_of_mem hp, hnone⟩
  · rintro ⟨hname, hnone⟩
    obtain ⟨p, hp, rfl⟩ := List.mem_map.mp hname
    exact ⟨p, ⟨hp, hnone⟩, rfl⟩

theorem of_mem_changed (hremote : remote.keys.Nodup)
    (h : name ∈ (diffOf remote existing).changed) :
    ∃ t desc digest, existing.get? name = some t ∧ remote.get? name = some (desc, digest) ∧
      currentHash t ≠ some digest := by
  rw [diffOf, computeDiff, foldl_addRemote] at h
  obtain ⟨p, hp, rfl⟩ := List.mem_map.mp h
  simp only [List.mem_filter, join_get?_currentHashes, Bool.not_eq_true', decide_eq_false_iff_not,
    Option.isNone_eq_false_iff] at hp
  obtain ⟨⟨hp, hsome⟩, hne⟩ := hp
  obtain ⟨t, ht⟩ := Option.isSome_iff_exists.mp hsome
  rw [ht] at hne
  exact ⟨t, p.2.1, p.2.2, ht, Dict.get?_of_mem hremote hp, hne⟩

theorem of_mem_unchanged (hremote : remote.keys.Nodup)
    (h : name ∈ (diffOf remote existing).unchanged) :
    ∃ t desc digest, existing.get? name = some t ∧ remote.get? name = some (desc, digest) ∧
      currentHash t = some digest := by
  rw [diffOf, computeDiff, foldl_addRemote] at h
  obtain ⟨p, hp, rfl⟩ := List.mem_map.mp h
  simp only [List.mem_filter, join_get?_currentHashes, Bool.not_eq_true', decide_eq_true_eq,
    Option.isNone_eq_false_iff] at hp
  obtain ⟨⟨hp, hsome⟩, heq⟩ := hp
  obtain ⟨t, ht⟩ := Option.isSome_iff_exists.mp hsome
  rw [ht] at heq
  exact ⟨t, p.2.1, p.2.2, ht, Dict.get?_of_mem hremote hp, heq⟩

theorem mem_missing :
    name ∈ (diffOf remote existing).missing ↔ name ∈ existing.keys ∧ name ∉ remote.keys := by
  rw [diffOf, computeDiff]
  simp only [List.mem_filter, decide_eq_true_eq]

/-- The remote names are added, changed or unchanged. -/
theorem perm_keys (remote : RemoteMeta δ) (existing : Dict (MCPTool δ)) :
    ((diffOf remote existing).added ++ (diffOf remote existing).changed ++
      (diffOf remote existing).unchanged).Perm remote.keys := by
  rw [diffOf, computeDiff, foldl_addRemote]
  dsimp only
  rw [List.nil_append, List.nil_append, List.nil_append, List.append_assoc, ← List.map_append,
    ← List.map_append]
  refine List.Perm.map Prod.fst ?_
  refine (List.Perm.append_left _ ?_).trans
    (List.filter_append_perm (fun p => (existing.get? p.1).isNone) remote)
  refine List.perm_append_comm.trans ?_
  exact List.filter_append_perm _ _

theorem nodup_names (hremote : remote.keys.Nodup) (hexisting : existing.keys.Nodup) :
    ((diffOf remote existing).added ++ (diffOf remote existing).changed ++
      (diffOf remote existing).unchanged ++ (diffOf remote existing).missing).Nodup := by
  have hperm := perm_keys remote existing
  have hmissing : (diffOf remote existing).missing.Nodup := hexisting.filter _
  refine List.nodup_append.mpr ⟨hperm.nodup_iff.mpr hremote, hmissing, ?_⟩
  rintro name hname name' hname' rfl
  exact (mem_missing.mp hname').2 (hperm.mem_iff.mp hname)

theorem mem_names :
    name ∈ (diffOf remote existing).added ++ (diffOf remote existing).changed ++
        (diffOf remote existing).unchanged ++ (diffOf remote existing).missing ↔
      name ∈ remote.keys ∨ name ∈ existing.keys := by
  rw [List.mem_append, (perm_keys remote existing).mem_iff, mem_missing]
  tauto

/-! ### The apply -/

/-- What an apply makes of a tool that it has read. -/
def settle (remote : RemoteMeta δ) (t : MCPTool δ) : MCPTool δ :=
  match remote.get? t.remoteName with
  | none => { t with status := .missing }
  | some (desc, digest) =>
    if currentHash t = some digest then { t with status := revived t.status }
    else { t.ensureVersion digest desc with status := revived t.status }

@[simp] theorem id_settle : (settle remote t).id = t.id := by
  rw [settle]
  split
  · rfl
  · split
    · rfl
    · exact id_ensureVersion

@[simp] theorem remoteName_settle : (settle remote t).remoteName = t.remoteName := by
  rw [settle]
  split
  · rfl
  · split
    · rfl
    · exact remoteName_ensureVersion

/-- The tools that are created: their names, and their first version. -/
def IsCreated (remote : RemoteMeta δ) (t : MCPTool δ) : Prop :=
  ∃ id name desc digest, remote.get? name = some (desc, digest) ∧
    t = (createdTool id name).ensureVersion digest desc

omit [DecidableEq δ] in
theorem find?_eq_none_of_notMem (h : name ∉ tools.rows.map MCPTool.remoteName) :
    tools.rows.find? (·.remoteName = name) = none := by
  refine List.find?_eq_none.mpr fun t ht heq => h ?_
  exact List.mem_map.mpr ⟨t, ht, by simpa using heq⟩

/-- The loop over the added names, which no tool has, appends their tools. -/
theorem foldlM_addTool {pairs : List (String × UUID)}
    (hnew : ∀ p ∈ pairs, p.1 ∉ tools.rows.map MCPTool.remoteName)
    (hnodup : (pairs.map Prod.fst).Nodup)
    (h : pairs.foldlM (fun tools p => addTool remote tools p.1 p.2) tools = some tools') :
    ∃ created, tools'.rows = tools.rows ++ created ∧
      created.map MCPTool.remoteName = pairs.map Prod.fst ∧ ∀ t ∈ created, IsCreated remote t := by
  induction pairs generalizing tools with
  | nil =>
    cases h
    exact ⟨[], (List.append_nil _).symm, rfl, fun _ ht => absurd ht List.not_mem_nil⟩
  | cons p pairs ih =>
    obtain ⟨tools₁, htools₁, h⟩ := Option.bind_eq_some_iff.mp h
    obtain ⟨⟨desc, digest⟩, hget, hadd⟩ := Option.bind_eq_some_iff.mp htools₁
    dsimp only at hadd
    rw [find?_eq_none_of_notMem (hnew p List.mem_cons_self)] at hadd
    dsimp only at hadd
    split at hadd
    · have hrows := (Table.insert?_eq_some_iff.mp hadd).2
      rw [List.map_cons, List.nodup_cons] at hnodup
      have hname : ((createdTool (δ := δ) p.2 p.1).ensureVersion digest desc).remoteName = p.1 :=
        remoteName_ensureVersion
      have hnew' : ∀ q ∈ pairs, q.1 ∉ tools₁.rows.map MCPTool.remoteName := by
        intro q hq hin
        rw [hrows, List.map_append, List.mem_append, List.map_singleton, List.mem_singleton,
          hname] at hin
        rcases hin with hin | hin
        · exact hnew q (List.mem_cons_of_mem p hq) hin
        · exact hnodup.1 (hin ▸ List.mem_map_of_mem hq)
      obtain ⟨created, hrows', hnames, hcreated⟩ := ih hnew' hnodup.2 h
      refine ⟨(createdTool p.2 p.1).ensureVersion digest desc :: created, ?_, ?_, ?_⟩
      · rw [hrows', hrows, List.append_assoc, List.singleton_append]
      · rw [List.map_cons, List.map_cons, hnames, hname]
      · intro t ht
        rcases List.mem_cons.mp ht with rfl | ht
        · exact ⟨p.2, p.1, desc, digest, hget, rfl⟩
        · exact hcreated t ht
    · cases hadd

/-- A loop that settles the tool of each name. -/
theorem foldl_settle {f : Table (MCPTool.id (δ := δ)) → String → Table (MCPTool.id (δ := δ))}
    {names : List String}
    (h : ∀ name ∈ names, ∃ t, existing.get? name = some t ∧
      ∀ tools, f tools name = tools.put (settle remote t)) :
    names.foldl f tools =
      (names.filterMap existing.get?).foldl (fun tools t => tools.put (settle remote t)) tools := by
  induction names generalizing tools with
  | nil => rfl
  | cons name names ih =>
    obtain ⟨t, ht, hf⟩ := h name List.mem_cons_self
    rw [List.foldl_cons, List.filterMap_cons_some ht, List.foldl_cons, hf,
      ih fun name' hname' => h name' (List.mem_cons_of_mem name hname')]

/-- What the loops over the changed, the unchanged and the missing names do. -/
theorem foldl_loops (hremote : remote.keys.Nodup)
    (hexisting : ∀ name t, existing.get? name = some t → t ∈ tools ∧ t.remoteName = name) :
    (diffOf remote existing).missing.foldl (missTool existing)
        ((diffOf remote existing).unchanged.foldl (keepTool existing)
          ((diffOf remote existing).changed.foldl (changeTool remote existing) tools)) =
      ((((diffOf remote existing).changed ++ (diffOf remote existing).unchanged) ++
        (diffOf remote existing).missing).filterMap existing.get?).foldl
          (fun tools t => tools.put (settle remote t)) tools := by
  rw [List.filterMap_append, List.filterMap_append, List.foldl_append, List.foldl_append]
  rw [@foldl_settle δ _ remote existing tools (changeTool remote existing),
    @foldl_settle δ _ remote existing _ (keepTool existing),
    @foldl_settle δ _ remote existing _ (missTool existing)]
  · intro name hname
    obtain ⟨hkey, habsent⟩ := mem_missing.mp hname
    obtain ⟨t, ht⟩ := Dict.mem_keys_iff.mp hkey
    obtain ⟨-, rfl⟩ := hexisting name t ht
    refine ⟨t, ht, fun tools => ?_⟩
    have hnone : remote.get? t.remoteName = none :=
      Option.eq_none_iff_forall_ne_some.mpr fun e he => habsent (Dict.mem_keys_iff.mpr ⟨e, he⟩)
    rw [missTool, ht, settle, hnone]
  · intro name hname
    obtain ⟨t, desc, digest, ht, hget, hsame⟩ := of_mem_unchanged hremote hname
    obtain ⟨-, rfl⟩ := hexisting name t ht
    refine ⟨t, ht, fun tools => ?_⟩
    rw [keepTool, ht, settle, hget]
    dsimp only
    rw [if_pos hsame]
  · intro name hname
    obtain ⟨t, desc, digest, ht, hget, hdiffers⟩ := of_mem_changed hremote hname
    obtain ⟨-, rfl⟩ := hexisting name t ht
    refine ⟨t, ht, fun tools => ?_⟩
    rw [changeTool, ht, hget, settle, hget]
    dsimp only
    rw [if_neg hdiffers]

/-- The tools that discovery has read, by name. -/
def ReadWhole (w : ServerTools δ) (existing : Dict (MCPTool δ)) : Prop :=
  existing.keys.Nodup ∧
    ∀ name t, existing.get? name = some t ↔ t ∈ w.tools ∧ t.remoteName = name

/-- An apply that has read all tools settles each of them, and creates the added ones. -/
theorem rows_applyToolDiff (hremote : remote.keys.Nodup) (hread : ReadWhole w existing)
    (h : applyToolDiff remote existing (diffOf remote existing) ids w.tools = some tools) :
    ∃ created, tools.rows = w.tools.rows.map (settle remote) ++ created ∧
      created.map MCPTool.remoteName = (diffOf remote existing).added ∧
      ∀ t ∈ created, IsCreated remote t := by
  classical
  obtain ⟨hkeys, hexisting⟩ := hread
  rw [applyToolDiff] at h
  split at h
  · case isTrue hids =>
    obtain ⟨tools₁, hadd, h⟩ := Option.bind_eq_some_iff.mp h
    obtain rfl := Option.some.inj h
    have hzip : ((diffOf remote existing).added.zip ids).map Prod.fst =
        (diffOf remote existing).added := List.map_fst_zip hids.ge
    have hadded : (diffOf remote existing).added.Nodup := by
      have hnames := nodup_names hremote hkeys
      exact (List.nodup_append.mp (List.nodup_append.mp (List.nodup_append.mp hnames).1).1).1
    have hnew : ∀ name ∈ (diffOf remote existing).added,
        name ∉ w.tools.rows.map MCPTool.remoteName := by
      intro name hname hin
      obtain ⟨t, ht, rfl⟩ := List.mem_map.mp hin
      have hnone := (mem_added.mp hname).2
      rw [(hexisting _ t).mpr ⟨ht, rfl⟩] at hnone
      cases hnone
    obtain ⟨created, hrows, hnames, hcreated⟩ := foldlM_addTool
      (fun p hp => hnew p.1 (hzip ▸ List.mem_map_of_mem hp)) (hzip.symm ▸ hadded) hadd
    rw [hzip] at hnames
    refine ⟨created, ?_, hnames, hcreated⟩
    have hmem : ∀ name t, existing.get? name = some t → t ∈ tools₁ := fun name t hget =>
      Table.mem_def.mpr (hrows ▸ List.mem_append_left _ ((hexisting name t).mp hget).1)
    rw [foldl_loops hremote fun name t hget => ⟨hmem name t hget, ((hexisting name t).mp hget).2⟩,
      Table.foldl_put fun r => id_settle]
    · rw [Table.rows_mapRows, hrows, List.map_append]
      refine congrArg₂ _ (List.map_congr_left fun t ht => if_pos ?_)
        ((List.map_congr_left fun t ht => if_neg ?_).trans (List.map_id _))
      · -- a tool of the server has its name in one of the lists
        have hget := (hexisting _ t).mpr ⟨ht, rfl⟩
        refine List.mem_filterMap.mpr ⟨t.remoteName, ?_, hget⟩
        have hin := (@mem_names δ _ remote _ _).mpr (.inr (Dict.mem_keys_iff.mpr ⟨t, hget⟩))
        rw [List.append_assoc, List.append_assoc, List.mem_append] at hin
        rw [List.append_assoc]
        refine hin.resolve_left fun hin => ?_
        rw [(mem_added.mp hin).2] at hget
        cases hget
      · -- a created one has a new name
        intro hin
        obtain ⟨name, -, hget⟩ := List.mem_filterMap.mp hin
        obtain ⟨hold, rfl⟩ := (hexisting name t).mp hget
        refine hnew t.remoteName ?_ (List.mem_map_of_mem hold)
        rw [← hnames]
        exact List.mem_map_of_mem ht
    · intro t ht
      obtain ⟨name, -, hget⟩ := List.mem_filterMap.mp ht
      exact hmem name t hget
  · cases h

omit [DecidableEq δ] in
theorem readWhole_existingByName (hpage : w.tools.rows.length ≤ pageSize)
    (h : w.listTools order = some existingTools) :
    ReadWhole w (existingByName existingTools) := by
  refine ⟨Dict.nodup_keys_ofPairs _, fun name t => ?_⟩
  rw [get?_existingByName h]
  exact and_congr_left fun _ => ⟨mem_of_mem_listTools h, mem_listTools hpage h⟩

/-- A discovery that has read all tools. -/
theorem discover_cases {applyChanges : Bool} (hpage : w.tools.rows.length ≤ pageSize)
    (h : w.discover hash applyChanges remoteTools order ids = some (w', diff)) :
    ∃ existing, ReadWhole w existing ∧ diff = diffOf (buildRemoteMeta hash remoteTools) existing ∧
      (applyChanges = false ∧ w' = w ∨ applyChanges = true ∧
        ∃ created, w'.tools.rows =
            w.tools.rows.map (settle (buildRemoteMeta hash remoteTools)) ++ created ∧
          created.map MCPTool.remoteName = diff.added ∧
          ∀ t ∈ created, IsCreated (buildRemoteMeta hash remoteTools) t) := by
  obtain ⟨existingTools, hlist, h⟩ := Option.bind_eq_some_iff.mp h
  have hread := readWhole_existingByName hpage hlist
  have hremote := (@keys_buildRemoteMeta δ hash remoteTools).1
  dsimp only at h
  split at h
  · case isTrue happlies =>
    obtain ⟨tools, happly, h⟩ := Option.bind_eq_some_iff.mp h
    split at h
    · cases h
      exact ⟨_, hread, rfl, .inr ⟨happlies, rows_applyToolDiff hremote hread happly⟩⟩
    · cases h
  · case isFalse hpreview =>
    cases h
    exact ⟨_, hread, rfl, .inl ⟨Bool.eq_false_iff.mpr hpreview, rfl⟩⟩

/-! ### Settled tools -/

theorem currentHash_ensureVersion (h : (t.versions.map (·.versionNo)).Nodup) :
    currentHash (t.ensureVersion digest desc) = some digest := by
  obtain ⟨v, -, hv, hdigest⟩ := @currentVersion_ensureVersion δ _ t desc digest h
  rw [currentHash, hv, Option.map_some, hdigest]

theorem currentHash_settle (h : FaithfulTool hash t)
    (hget : remote.get? t.remoteName = some (desc, digest)) :
    currentHash (settle remote t) = some digest := by
  rw [settle, hget]
  dsimp only
  split
  · case isTrue hsame => exact hsame
  · exact currentHash_ensureVersion h.numbers

theorem FaithfulTool.settle (h : FaithfulTool hash t) :
    FaithfulTool hash (settle (buildRemoteMeta hash remoteTools) t) := by
  rw [Discovery.settle]
  split
  · exact h.withStatus _
  · case h_2 desc digest hget =>
    obtain ⟨-, hname, rfl⟩ := of_get?_buildRemoteMeta hget
    split
    · exact h.withStatus _
    · exact (h.ensureVersion hname).withStatus _

theorem status_settle : (settle remote t).status = .missing ↔ t.remoteName ∉ remote.keys := by
  have hrevived : ∀ status, revived status ≠ .missing := by
    intro status
    rw [revived]
    split
    · exact nofun
    · case isFalse h => exact h
  rw [settle]
  split
  · case h_1 hnone =>
    refine iff_of_true rfl fun hin => ?_
    obtain ⟨e, he⟩ := Dict.mem_keys_iff.mp hin
    rw [hnone] at he
    cases he
  · case h_2 hget =>
    have hin := Dict.mem_keys_iff.mpr ⟨_, hget⟩
    split
    · exact iff_of_false (hrevived _) (not_not_intro hin)
    · exact iff_of_false (hrevived _) (not_not_intro hin)

theorem active_settle (h : t.status = .active) (hin : t.remoteName ∈ remote.keys) :
    (settle remote t).status = .active := by
  obtain ⟨⟨desc, digest⟩, hget⟩ := Dict.mem_keys_iff.mp hin
  rw [settle, hget]
  dsimp only
  split
  · rw [h]
    rfl
  · rw [h]
    rfl

theorem versions_settle
    (h : ∀ desc digest, remote.get? t.remoteName = some (desc, digest) →
      currentHash t = some digest) :
    (settle remote t).versions = t.versions := by
  rw [settle]
  split
  · rfl
  · case h_2 desc digest hget => rw [if_pos (h desc digest hget)]

theorem IsCreated.faithful (h : IsCreated (buildRemoteMeta hash remoteTools) t) :
    FaithfulTool hash t := by
  obtain ⟨id, name, desc, digest, hget, rfl⟩ := h
  obtain ⟨-, rfl, rfl⟩ := of_get?_buildRemoteMeta hget
  exact (faithfulTool_createdTool id desc.name).ensureVersion rfl

theorem IsCreated.currentHash (h : IsCreated remote t)
    (hget : remote.get? t.remoteName = some (desc, digest)) :
    currentHash t = some digest := by
  obtain ⟨id, name, desc', digest', hget', rfl⟩ := h
  rw [remoteName_ensureVersion] at hget
  have heq := hget'.symm.trans hget
  obtain rfl : digest' = digest := congrArg Prod.snd (Option.some.inj heq)
  exact currentHash_ensureVersion List.nodup_nil

theorem IsCreated.status (h : IsCreated remote t) : t.status = .discovered := by
  obtain ⟨id, name, desc, digest, -, rfl⟩ := h
  exact status_ensureVersion

theorem IsCreated.mem_keys (h : IsCreated remote t) : t.remoteName ∈ remote.keys := by
  obtain ⟨id, name, desc, digest, hget, rfl⟩ := h
  rw [remoteName_ensureVersion]
  exact Dict.mem_keys_iff.mpr ⟨_, hget⟩

/-- Every remote tool has a tool, whose current version has its digest. -/
structure Settled (remote : RemoteMeta δ) (w : ServerTools δ) : Prop where
  hasTool : ∀ name ∈ remote.keys, ∃ t ∈ w.tools, t.remoteName = name
  digest : ∀ t ∈ w.tools, ∀ desc digest, remote.get? t.remoteName = some (desc, digest) →
    currentHash t = some digest

/-- A discovery of settled tools finds nothing to do. -/
theorem Settled.again {applyChanges : Bool}
    (h : Settled (buildRemoteMeta hash remoteTools) w) (hpage : w.tools.rows.length ≤ pageSize)
    (hdiscover : w.discover hash applyChanges remoteTools order ids = some (w', diff)) :
    diff.added = [] ∧ diff.changed = [] ∧
      w'.tools.rows.map (fun t => (t.id, t.versions)) =
        w.tools.rows.map fun t => (t.id, t.versions) := by
  obtain ⟨existing, ⟨hkeys, hread⟩, rfl, hresult⟩ := discover_cases hpage hdiscover
  have hremote := (@keys_buildRemoteMeta δ hash remoteTools).1
  have hadded : (diffOf (buildRemoteMeta hash remoteTools) existing).added = [] := by
    refine List.eq_nil_iff_forall_not_mem.mpr fun name hname => ?_
    obtain ⟨hin, hnone⟩ := mem_added.mp hname
    obtain ⟨t, ht, rfl⟩ := h.hasTool name hin
    rw [(hread _ t).mpr ⟨ht, rfl⟩] at hnone
    cases hnone
  refine ⟨hadded, List.eq_nil_iff_forall_not_mem.mpr fun name hname => ?_, ?_⟩
  · obtain ⟨t, desc, digest, ht, hget, hdiffers⟩ := of_mem_changed hremote hname
    obtain ⟨hmem, rfl⟩ := (hread name t).mp ht
    exact hdiffers (h.digest t hmem desc digest hget)
  · obtain ⟨-, rfl⟩ | ⟨-, created, hrows, hnames, -⟩ := hresult
    · rfl
    · rw [hadded] at hnames
      rw [hrows, List.map_eq_nil_iff.mp hnames, List.append_nil, List.map_map]
      refine List.map_congr_left fun t ht => ?_
      rw [Function.comp_apply, id_settle, versions_settle (h.digest t ht)]

/-! ### Runs -/

/-- The condition on a step: the tools fit on the page that discovery reads. -/
def StepFits (w : ServerTools δ) : Action → Prop
  | .discover _ remoteTools _ _ => Fits w remoteTools
  | .setStatus _ _ => True

omit [DecidableEq δ] in
theorem Fits.page (h : Fits w remoteTools) : w.tools.rows.length ≤ pageSize :=
  (Nat.le_add_right _ _).trans h

/-- The tools of a server stay faithful. -/
theorem faithful_step {action : Action} (hfaithful : ∀ t ∈ w.tools, FaithfulTool hash t)
    (hfits : StepFits w action) (h : w.step hash action = some w') :
    ∀ t ∈ w'.tools, FaithfulTool hash t := by
  cases action with
  | discover applyChanges remoteTools order ids =>
    obtain ⟨⟨w₁, diff⟩, hdiscover, rfl⟩ := Option.map_eq_some_iff.mp h
    obtain ⟨existing, -, -, ⟨-, rfl⟩ | ⟨-, created, hrows, -, hcreated⟩⟩ :=
      discover_cases (Fits.page hfits) hdiscover
    · exact hfaithful
    · intro t ht
      rw [Table.mem_def, hrows, List.mem_append, List.mem_map] at ht
      rcases ht with ⟨t, ht, rfl⟩ | ht
      · exact (hfaithful t ht).settle
      · exact (hcreated t ht).faithful
  | setStatus id status =>
    obtain rfl := Option.some.inj h
    intro t' ht'
    obtain ⟨t, ht, rfl⟩ := List.mem_map.mp
      (show t' ∈ w.tools.rows.map (withStatus id status) from ht')
    rw [withStatus]
    split
    · exact (hfaithful t ht).withStatus _
    · exact hfaithful t ht

/-- The added names are the remote names that no tool has. -/
theorem length_added (hread : ReadWhole w existing) (hnodup : (remoteTools.map (·.name)).Nodup) :
    (diffOf (buildRemoteMeta hash remoteTools) existing).added.length =
      ((remoteTools.map (·.name)).filter fun name => name ∉ w.remoteNames).length := by
  obtain ⟨hremote, hkeys⟩ := @keys_buildRemoteMeta δ hash remoteTools
  have hadded : (diffOf (buildRemoteMeta hash remoteTools) existing).added.Nodup := by
    have hnames := nodup_names hremote hread.1
    exact (List.nodup_append.mp (List.nodup_append.mp (List.nodup_append.mp hnames).1).1).1
  refine ((List.perm_ext_iff_of_nodup hadded (hnodup.filter _)).mpr fun name => ?_).length_eq
  rw [mem_added, hkeys, List.mem_filter, decide_eq_true_eq]
  refine and_congr_right fun _ => ⟨fun hnone hin => ?_, fun hnotin => ?_⟩
  · obtain ⟨t, ht, rfl⟩ := List.mem_map.mp hin
    rw [(hread.2 _ t).mpr ⟨ht, rfl⟩] at hnone
    cases hnone
  · refine Option.eq_none_iff_forall_ne_some.mpr fun t hget => hnotin ?_
    obtain ⟨ht, rfl⟩ := (hread.2 name t).mp hget
    exact List.mem_map_of_mem ht

/-- After an apply the tools are settled. -/
theorem settled_discover (hfaithful : ∀ t ∈ w.tools, FaithfulTool hash t)
    (hpage : w.tools.rows.length ≤ pageSize)
    (h : w.discover hash true remoteTools order ids = some (w', diff)) :
    Settled (buildRemoteMeta hash remoteTools) w' := by
  obtain ⟨existing, hread, rfl, ⟨hpreview, -⟩ | ⟨-, created, hrows, hnames, hcreated⟩⟩ :=
    discover_cases hpage h
  · cases hpreview
  · constructor
    · intro name hname
      cases hget : existing.get? name with
      | some t =>
        obtain ⟨ht, rfl⟩ := (hread.2 name t).mp hget
        exact ⟨_, Table.mem_def.mpr (hrows ▸ List.mem_append_left _ (List.mem_map_of_mem ht)),
          remoteName_settle⟩
      | none =>
        have hin : name ∈ created.map MCPTool.remoteName := hnames ▸ mem_added.mpr ⟨hname, hget⟩
        obtain ⟨t, ht, rfl⟩ := List.mem_map.mp hin
        exact ⟨t, Table.mem_def.mpr (hrows ▸ List.mem_append_right _ ht), rfl⟩
    · intro t ht desc digest hget
      rw [Table.mem_def, hrows, List.mem_append, List.mem_map] at ht
      rcases ht with ⟨t, ht, rfl⟩ | ht
      · rw [remoteName_settle] at hget
        exact currentHash_settle (hfaithful t ht) hget
      · exact (hcreated t ht).currentHash hget

/-- A discovery that is applied converges in every run in which the tools fit on the page. -/
theorem discovery_converges {actions : List Action} (hcoll : CollisionFree hash)
    (h₀ : ∀ t ∈ w₀.tools, FaithfulTool hash t)
    (hrun : Runs.run (ServerTools.step hash) w₀ actions = some w)
    (hmeet : Runs.StepsMeet (ServerTools.step hash) StepFits w₀
      (actions ++ [.discover true remoteTools order ids]))
    (hnodup : (remoteTools.map (·.name)).Nodup)
    (h : w.discover hash true remoteTools order ids = some (w', diff)) :
    Converges hash remoteTools w diff w' := by
  obtain ⟨hmeet, hlast⟩ := Runs.stepsMeet_append hmeet hrun
  have hfits : Fits w remoteTools := hlast.1
  have hfaithful := @Runs.run_preserves _ _ _ (fun w => ∀ t ∈ w.tools, FaithfulTool hash t) _
    (fun w action w' hw hok hstep => faithful_step hw hok hstep) _ _ _ h₀ hmeet hrun
  have hsettled := settled_discover hfaithful hfits.page h
  have hfaithful' := @faithful_step δ _ hash w _ (.discover true remoteTools order ids) hfaithful hfits
    (by rw [ServerTools.step, h]; rfl)
  obtain ⟨hremote, hkeys⟩ := @keys_buildRemoteMeta δ hash remoteTools
  obtain ⟨existing, hread, rfl, ⟨hpreview, -⟩ | ⟨-, created, hrows, hnames, hcreated⟩⟩ :=
    discover_cases hfits.page h
  · cases hpreview
  have hpage' : w'.tools.rows.length ≤ pageSize := by
    have hcount : created.length =
        (diffOf (buildRemoteMeta hash remoteTools) existing).added.length := by
      rw [← hnames, List.length_map]
    rw [hrows, List.length_append, List.length_map, hcount, length_added hread hnodup]
    exact hfits
  constructor
  case once => exact nodup_names hremote hread.1
  case everyName =>
    intro name
    rw [mem_names, hkeys, Dict.mem_keys_iff]
    refine or_congr_right ⟨fun ⟨t, hget⟩ => ?_, fun hin => ?_⟩
    · obtain ⟨ht, rfl⟩ := (hread.2 name t).mp hget
      exact List.mem_map_of_mem ht
    · obtain ⟨t, ht, rfl⟩ := List.mem_map.mp hin
      exact ⟨t, (hread.2 _ t).mpr ⟨ht, rfl⟩⟩
  case current =>
    intro desc hdesc
    have hget := @get?_buildRemoteMeta δ hash _ _ hnodup hdesc
    obtain ⟨t, ht, hname⟩ := hsettled.hasTool desc.name (Dict.mem_keys_iff.mpr ⟨_, hget⟩)
    rw [← hname] at hget
    exact ⟨t, ht, hname, (hfaithful' t ht).atVersion hcoll (hsettled.digest t ht _ _ hget)⟩
  case missing =>
    intro t ht
    rw [← hkeys]
    rw [Table.mem_def, hrows, List.mem_append, List.mem_map] at ht
    rcases ht with ⟨t, -, rfl⟩ | ht
    · rw [status_settle, remoteName_settle]
    · refine iff_of_false ?_ (not_not_intro (hcreated t ht).mem_keys)
      rw [(hcreated t ht).status]
      exact nofun
  case active =>
    intro t ht hactive
    refine ⟨_, Table.mem_def.mpr (hrows ▸ List.mem_append_left _ (List.mem_map_of_mem ht)),
      id_settle, ?_⟩
    rw [← hkeys]
    exact (em (t.remoteName ∈ _)).imp (active_settle hactive) id
  case again =>
    intro applyChanges order' ids' w'' diff' hdiscover
    exact hsettled.again hpage' hdiscover

/-! ### A remote that returns to an earlier descriptor -/

instance decidableFits (w : ServerTools δ) (remoteTools : List RemoteToolDescriptor) :
    Decidable (Fits w remoteTools) :=
  inferInstanceAs (Decidable (_ ≤ _))

instance decidableStepFits (w : ServerTools δ) : (action : Action) → Decidable (StepFits w action)
  | .discover _ remoteTools _ _ => decidableFits w remoteTools
  | .setStatus _ _ => isTrue trivial

/-- The id of a number. -/
def sampleId (n : ℕ) : UUID := .ofNat n

/-- A remote tool that is named after its id. -/
def sampleRemote (n : ℕ) (description : Option String) : RemoteToolDescriptor where
  name := (sampleId n).toString
  description := description
  inputSchema := .obj [("type", .str "object")]
  outputSchema := .null
  annotations := none
  raw := .obj [("name", .str (sampleId n).toString)]

/-- A server without tools. -/
def noTools : ServerTools Value where
  tools := Table.empty
  names := List.nodup_nil

/-- A tool that is added, changed and changed back, while the digest of a value is the value. -/
theorem converges_changedBack : ∃ w w' diff,
    Runs.run (ServerTools.step fun v : Value => v) noTools
        [.discover true [sampleRemote 0 none] [] [sampleId 1],
          .discover true [sampleRemote 0 (some "new")] [sampleId 1] []] = some w ∧
      w.discover (fun v => v) true [sampleRemote 0 none] [sampleId 1] [] = some (w', diff) ∧
      Converges (fun v => v) [sampleRemote 0 none] w diff w' := by
  have hrun : ((Runs.run (ServerTools.step fun v : Value => v) noTools
      [.discover true [sampleRemote 0 none] [] [sampleId 1],
        .discover true [sampleRemote 0 (some "new")] [sampleId 1] []]).bind fun w =>
      w.discover (fun v => v) true [sampleRemote 0 none] [sampleId 1] []).isSome = true := by
    decide +kernel
  obtain ⟨⟨w', diff⟩, hbind⟩ := Option.isSome_iff_exists.mp hrun
  obtain ⟨w, hw, hdiscover⟩ := Option.bind_eq_some_iff.mp hbind
  refine ⟨w, w', diff, hw, hdiscover, ?_⟩
  exact discovery_converges Factory.collisionFree_id (fun t ht => absurd ht List.not_mem_nil) hw
    (by decide +kernel) (by decide) hdiscover

/-! ### A server whose tools do not fit -/

/-- A discovery that finds no remote tool leaves the tools that it has not read. -/
theorem discover_nothing (hash : Value → δ) (hlist : w.listTools order = some existingTools) :
    ∃ w' diff, w.discover hash true [] order [] = some (w', diff) ∧
      ∀ t ∈ w.tools, t ∉ existingTools → t ∈ w'.tools := by
  classical
  obtain ⟨existing, hexisting⟩ : ∃ existing, existing = existingByName existingTools := ⟨_, rfl⟩
  have hget : ∀ name t, existing.get? name = some t → t ∈ existingTools ∧ t.remoteName = name := by
    intro name t h
    rw [hexisting] at h
    exact (get?_existingByName hlist).mp h
  have hloops := @foldl_loops δ _ ([] : RemoteMeta δ) _ w.tools List.nodup_nil
    fun name t h => ⟨mem_of_mem_listTools hlist (hget name t h).1, (hget name t h).2⟩
  rw [Table.foldl_put (fun r => id_settle)] at hloops
  · obtain ⟨settled, hsettled⟩ : ∃ settled, settled =
      (((diffOf ([] : RemoteMeta δ) existing).changed ++ (diffOf [] existing).unchanged) ++
        (diffOf [] existing).missing).filterMap existing.get? := ⟨_, rfl⟩
    rw [← hsettled] at hloops
    have hnames : ((w.tools.mapRows (fun r => if r ∈ settled then settle [] r else r)
        fun r => by split <;> simp).rows.map MCPTool.remoteName).Nodup := by
      rw [Table.rows_mapRows, List.map_map]
      have hname : MCPTool.remoteName ∘ (fun r : MCPTool δ =>
          if r ∈ settled then settle [] r else r) = MCPTool.remoteName := by
        funext r
        rw [Function.comp_apply]
        split
        · exact remoteName_settle
        · rfl
      rw [hname]
      exact w.names
    refine ⟨⟨_, hnames⟩, diffOf [] existing, ?_, fun t ht hnotin => ?_⟩
    · have happly : applyToolDiff [] existing (diffOf [] existing) [] w.tools =
          some (w.tools.mapRows (fun r => if r ∈ settled then settle [] r else r)
            fun r => by split <;> simp) := congrArg some hloops
      rw [hexisting] at happly ⊢
      rw [ServerTools.discover]
      refine Option.bind_eq_some_iff.mpr ⟨existingTools, hlist, ?_⟩
      dsimp only
      rw [if_pos rfl]
      exact Option.bind_eq_some_iff.mpr ⟨_, happly, dif_pos hnames⟩
    · refine List.mem_map.mpr ⟨t, ht, if_neg fun hin => hnotin ?_⟩
      rw [hsettled] at hin
      obtain ⟨name, -, hname⟩ := List.mem_filterMap.mp hin
      exact (hget name t hname).1
  · intro t ht
    obtain ⟨name, -, hname⟩ := List.mem_filterMap.mp ht
    exact mem_of_mem_listTools hlist (hget name t hname).1

/-- A discovered tool with its version. -/
def sampleTool (n : ℕ) : MCPTool Value :=
  (createdTool (sampleId n) (sampleId n).toString).ensureVersion
    (contentHash (fun v => v) (sampleRemote n none)) (sampleRemote n none)

theorem id_sampleTool (n : ℕ) : (sampleTool n).id = sampleId n := id_ensureVersion

theorem sampleId_inj {m n : ℕ} (hm : m < 2 ^ 128) (hn : n < 2 ^ 128)
    (h : sampleId m = sampleId n) : m = n := by
  have hmod : m % 2 ^ 128 = n % 2 ^ 128 := congrArg UUID.int h
  rwa [Nat.mod_eq_of_lt hm, Nat.mod_eq_of_lt hn] at hmod

/-- A server with some number of tools. -/
def manyTools (k : ℕ) (hk : k < 2 ^ 128) : ServerTools Value where
  tools :=
    { rows := (List.range k).map sampleTool
      nodup_keys := by
        rw [List.map_map]
        refine List.nodup_range.map_on fun m hm n hn h => ?_
        rw [Function.comp_apply, Function.comp_apply, id_sampleTool, id_sampleTool] at h
        exact sampleId_inj ((List.mem_range.mp hm).trans hk) ((List.mem_range.mp hn).trans hk) h }
  names := by
    rw [List.map_map]
    refine List.nodup_range.map_on fun m hm n hn h => ?_
    have hname : ∀ n, (sampleTool n).remoteName = (sampleId n).toString := fun n =>
      remoteName_ensureVersion
    rw [Function.comp_apply, Function.comp_apply, hname, hname] at h
    exact sampleId_inj ((List.mem_range.mp hm).trans hk) ((List.mem_range.mp hn).trans hk)
      (UUID.toString_injective h)

/-- When every remote tool is gone from a server with one tool too many, that tool stays
DISCOVERED. -/
theorem not_converges_beyondPage : ∃ (w : ServerTools Value) (order : List UUID) (w' : _) (diff : _),
    (∀ t ∈ w.tools, FaithfulTool (fun v => v) t) ∧
      w.discover (fun v => v) true [] order [] = some (w', diff) ∧
      ¬ Converges (fun v => v) [] w diff w' := by
  obtain ⟨k, hk⟩ : ∃ k, k = pageSize := ⟨_, rfl⟩
  have hlt : k + 1 < 2 ^ 128 := by
    rw [hk]
    decide
  obtain ⟨w, hw⟩ : ∃ w, w = manyTools (k + 1) hlt := ⟨_, rfl⟩
  have hrows : w.tools.rows = (List.range (k + 1)).map sampleTool := by
    rw [hw]
    rfl
  have hread : (w.tools.rows.map MCPTool.id).filterMap w.tools.find? = w.tools.rows := by
    rw [List.filterMap_map]
    refine (List.filterMap_congr fun t ht => ?_).trans List.filterMap_some
    exact Table.find?_key_of_mem ht
  have hlist : w.listTools (w.tools.rows.map MCPTool.id) = some (w.tools.rows.take k) := by
    rw [ServerTools.listTools, if_pos (List.Perm.refl _), hread, hk]
  obtain ⟨w', diff, hdiscover, hkept⟩ := discover_nothing (fun v => v) hlist
  refine ⟨w, _, w', diff, fun t ht => ?_, hdiscover, fun hconverges => ?_⟩
  · rw [Table.mem_def, hrows] at ht
    obtain ⟨n, -, rfl⟩ := List.mem_map.mp ht
    exact (faithfulTool_createdTool _ _).ensureVersion rfl
  · have hlast : sampleTool k ∈ w.tools := by
      rw [Table.mem_def, hrows]
      exact List.mem_map_of_mem (List.mem_range.mpr (Nat.lt_succ_self _))
    have hunread : sampleTool k ∉ w.tools.rows.take k := by
      rw [hrows, ← List.map_take, List.take_range, Nat.min_eq_left (Nat.le_succ _)]
      intro hin
      obtain ⟨n, hn, heq⟩ := List.mem_map.mp hin
      have hid := congrArg MCPTool.id heq
      rw [id_sampleTool, id_sampleTool] at hid
      have hn := List.mem_range.mp hn
      exact absurd (sampleId_inj (by omega) (by omega) hid) hn.ne
    have hstatus := (hconverges.missing _ (hkept _ hlast hunread)).mpr List.not_mem_nil
    have hdiscovered : (sampleTool k).status = .discovered := status_ensureVersion
    rw [hdiscovered] at hstatus
    cases hstatus

end McpFlow.Discovery
