import McpFlow.Factory.Reviewed
import McpFlow.Library.Runs

/-!
# Generic discovery

Discovery of a server that no Factory Publish made: the tools that the remote lists are compared by
name and by the digest of their current version with the tools of the server, and an apply adds the
new ones, moves the changed ones to the version of the remote digest, revives the missing ones and
marks the absent ones. The tools of the server are read as one page.
-/

namespace McpFlow.Discovery

open Json (Value)
open Factory (MCPTool MCPToolVersion MCPToolStatus RemoteToolDescriptor contentHash CollisionFree)

variable {δ : Type} [DecidableEq δ] (hash : Value → δ)

/-! ### The tools of a server -/

/-- The live tools of a server. -/
structure ServerTools (δ : Type) where
  tools : Table (MCPTool.id (δ := δ))
  /-- `uq_mcp_tools_server_remote_live`. -/
  names : (tools.rows.map MCPTool.remoteName).Nodup

/-- The remote tools by name, with their digests. -/
abbrev RemoteMeta (δ : Type) := Dict (RemoteToolDescriptor × δ)

/-- `_build_remote_meta`. -/
def buildRemoteMeta (remoteTools : List RemoteToolDescriptor) : RemoteMeta δ :=
  Dict.ofPairs (remoteTools.map fun desc => (desc.name, desc, contentHash hash desc))

/-- The page size of the listing. -/
def pageSize : ℕ := 10000

/-- `list_tools`: the first page, in the order of the query. -/
def ServerTools.listTools (w : ServerTools δ) (order : List UUID) : Option (List (MCPTool δ)) :=
  if order.Perm (w.tools.rows.map MCPTool.id) then
    some ((order.filterMap w.tools.find?).take pageSize)
  else none

/-- `existing_by_name`. -/
def existingByName (existingTools : List (MCPTool δ)) : Dict (MCPTool δ) :=
  Dict.ofPairs (existingTools.map fun tool => (tool.remoteName, tool))

/-- The digest of the current version of a tool. -/
def currentHash (tool : MCPTool δ) : Option δ := tool.currentVersion.map (·.contentHash)

/-! ### The diff -/

/-- The four lists of names. -/
structure Diff where
  added : List String
  changed : List String
  unchanged : List String
  missing : List String

/-- The turn of `_compute_diff` for a remote tool. -/
def Diff.addRemote (existing : Dict (MCPTool δ)) (currentHashes : Dict (Option δ)) (diff : Diff)
    (remote : String × RemoteToolDescriptor × δ) : Diff :=
  match existing.get? remote.1 with
  | none => { diff with added := diff.added ++ [remote.1] }
  | some _ =>
    if (currentHashes.get? remote.1).join = some remote.2.2 then
      { diff with unchanged := diff.unchanged ++ [remote.1] }
    else { diff with changed := diff.changed ++ [remote.1] }

/-- `_compute_diff`. -/
def computeDiff (remote : RemoteMeta δ) (existing : Dict (MCPTool δ))
    (currentHashes : Dict (Option δ)) : Diff :=
  { remote.foldl (Diff.addRemote existing currentHashes) ⟨[], [], [], []⟩ with
    missing := existing.keys.filter fun name => name ∉ remote.keys }

/-! ### The apply -/

/-- A MISSING tool that is seen again is DISCOVERED. -/
def revived (status : MCPToolStatus) : MCPToolStatus :=
  if status = .missing then .discovered else status

/-- A tool that `create_tool` makes, before it has a version. -/
def createdTool (id : UUID) (remoteName : String) : MCPTool δ where
  id := id
  remoteName := remoteName
  status := .discovered
  versions := []
  currentVersionNo := none

/-- The turn of `_apply_tool_diff` for an added name: `get_or_create_tool` and its version. A remote
name has at most 255 characters. -/
def addTool (remote : RemoteMeta δ) (tools : Table (MCPTool.id (δ := δ))) (name : String)
    (id : UUID) : Option (Table (MCPTool.id (δ := δ))) :=
  (remote.get? name).bind fun (desc, digest) =>
    match tools.rows.find? (·.remoteName = name) with
    | some tool =>
      some (tools.put ({ tool with status := revived tool.status }.ensureVersion digest desc))
    | none =>
      if name.length ≤ 255 then tools.insert? ((createdTool id name).ensureVersion digest desc)
      else none

/-- The turn for a changed name. -/
def changeTool (remote : RemoteMeta δ) (existing : Dict (MCPTool δ))
    (tools : Table (MCPTool.id (δ := δ))) (name : String) : Table (MCPTool.id (δ := δ)) :=
  match existing.get? name, remote.get? name with
  | some tool, some (desc, digest) =>
    tools.put { tool.ensureVersion digest desc with status := revived tool.status }
  | _, _ => tools

/-- The turn for an unchanged name. -/
def keepTool (existing : Dict (MCPTool δ)) (tools : Table (MCPTool.id (δ := δ)))
    (name : String) : Table (MCPTool.id (δ := δ)) :=
  match existing.get? name with
  | some tool => tools.put { tool with status := revived tool.status }
  | none => tools

/-- The turn for a missing name. -/
def missTool (existing : Dict (MCPTool δ)) (tools : Table (MCPTool.id (δ := δ)))
    (name : String) : Table (MCPTool.id (δ := δ)) :=
  match existing.get? name with
  | some tool => tools.put { tool with status := .missing }
  | none => tools

/-- `_apply_tool_diff`; an id is at hand for every added name. -/
def applyToolDiff (remote : RemoteMeta δ) (existing : Dict (MCPTool δ)) (diff : Diff)
    (ids : List UUID) (tools : Table (MCPTool.id (δ := δ))) :
    Option (Table (MCPTool.id (δ := δ))) :=
  if ids.length = diff.added.length then do
    let tools ← (diff.added.zip ids).foldlM (fun tools p => addTool remote tools p.1 p.2) tools
    let tools := diff.changed.foldl (changeTool remote existing) tools
    let tools := diff.unchanged.foldl (keepTool existing) tools
    return diff.missing.foldl (missTool existing) tools
  else none

/-- `discover` of a server that is no Factory server, after the remote has answered. -/
def ServerTools.discover (w : ServerTools δ) (applyChanges : Bool)
    (remoteTools : List RemoteToolDescriptor) (order ids : List UUID) :
    Option (ServerTools δ × Diff) := do
  let remote := buildRemoteMeta hash remoteTools
  let existingTools ← w.listTools order
  let existing := existingByName existingTools
  let currentHashes := existing.map fun p => (p.1, currentHash p.2)
  let diff := computeDiff remote existing currentHashes
  if applyChanges then
    let tools ← applyToolDiff remote existing diff ids w.tools
    if h : (tools.rows.map MCPTool.remoteName).Nodup then return (⟨tools, h⟩, diff) else none
  else return (w, diff)

/-! ### Runs -/

/-- What happens to the tools of a server: discoveries, and changes of a tool's status. -/
inductive Action where
  | discover (applyChanges : Bool) (remoteTools : List RemoteToolDescriptor) (order ids : List UUID)
  | setStatus (id : UUID) (status : MCPToolStatus)

/-- A tool with another status. -/
def withStatus (id : UUID) (status : MCPToolStatus) (tool : MCPTool δ) : MCPTool δ :=
  if tool.id = id then { tool with status } else tool

/-- A tool of the server gets another status. -/
def ServerTools.setStatus (w : ServerTools δ) (id : UUID) (status : MCPToolStatus) :
    ServerTools δ where
  tools := w.tools.mapRows (withStatus id status) fun tool => by
    rw [withStatus]
    split <;> rfl
  names := by
    rw [Table.rows_mapRows, List.map_map]
    have hname : MCPTool.remoteName ∘ withStatus id status = MCPTool.remoteName (δ := δ) := by
      funext tool
      rw [Function.comp_apply, withStatus]
      split <;> rfl
    rw [hname]
    exact w.names

/-- One step. -/
def ServerTools.step (w : ServerTools δ) : Action → Option (ServerTools δ)
  | .discover applyChanges remoteTools order ids =>
    (w.discover hash applyChanges remoteTools order ids).map Prod.fst
  | .setStatus id status => some (w.setStatus id status)

end McpFlow.Discovery
