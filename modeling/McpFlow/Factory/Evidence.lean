import McpFlow.Factory.Server
import McpFlow.Library.Runs
import McpFlow.Library.Table

/-!
# Activation evidence of Factory servers

Requests work on one Factory-imported server and its RuntimeBinding. A request reads the row of the
server, may take its time (a check talks to the remote server outside every transaction), and
commits once. What it commits is computed from the attributes it has read: a session keeps the
objects it has loaded, and a flush writes the attributes whose value differs from the loaded one.
-/

namespace McpFlow.Factory

/-- What a flush leaves in a column, given the value loaded and the value assigned. -/
def flushColumn {α : Type} [DecidableEq α] (loaded assigned current : α) : α :=
  if assigned = loaded then current else assigned

/-- What a flush leaves in `transport_config`. -/
def flushConfig (loaded assigned current : TransportConfig) : TransportConfig :=
  if assigned.sameValue loaded then current else assigned

/-- The row after the flush of a session that loaded `loaded` and assigned `assigned`. -/
def MCPServer.flush (loaded assigned row : MCPServer) : MCPServer :=
  { row with
    transportConfig := flushConfig loaded.transportConfig assigned.transportConfig row.transportConfig
    status := flushColumn loaded.status assigned.status row.status
    lockVersion := flushColumn loaded.lockVersion assigned.lockVersion row.lockVersion }

/-- `invalidate_factory_runtime_evidence` on the attributes loaded. -/
def MCPServer.invalidated (server : MCPServer) : MCPServer :=
  if server.isFactoryImported then
    { server with
      transportConfig := server.transportConfig.clearVerifiedFingerprints
      status := if server.status = .active then .inactive else server.status
      lockVersion := server.lockVersion + 1 }
  else server

/-! ### The system -/

/-- The requests. -/
inductive Op where
  | update (data : MCPServerUpdate) (expectedLockVersion : ℕ)
  | connectionTest
  | discover (applyChanges : Bool)
  | activate
  | deactivate
  | createBinding
  | updateBinding (data : FactoryRuntimeBindingUpdate)
  | markReady (lockVersion : ℕ)
  | disableBinding (lockVersion : ℕ)

/-- A request that holds the row lock of the RuntimeBinding until it commits. -/
def Op.locksBinding : Op → Bool
  | .updateBinding _ | .markReady _ | .disableBinding _ => true
  | .update _ _ | .connectionTest | .discover _ | .activate | .deactivate | .createBinding => false

/-- A request in flight, with the attributes that its session has loaded. `changes` is the number
of execution-relevant changes of the RuntimeBinding when it read the server. -/
structure Tx where
  id : ℕ
  op : Op
  server : MCPServer
  latest : Option MCPServerCheck
  changes : ℕ

/-- A Factory-imported server, its binding and its checks, and the requests in flight. `changes`
counts the execution-relevant changes of the binding. -/
structure World where
  server : MCPServer
  binding : Option RuntimeBinding
  checks : Table MCPServerCheck.id
  txs : Table Tx.id
  changes : ℕ

/-- What a request finds outside the database. -/
inductive Input where
  | nothing
  | probe (probe : Probe) (checkId : UUID) (checkedAt : Time)
  | remote (remote : Remote)
  /-- Permission and lineage, and the answer of `validate_outbound_base_url`. -/
  | binding (allowed : Bool) (validatedUrl : Option String)

inductive Action where
  | begin (t : ℕ) (op : Op)
  | readLatestCheck (t : ℕ)
  | finish (t : ℕ) (input : Input)

/-- `create_runtime_binding`. -/
def newBinding : RuntimeBinding := ⟨.draft, none, .none, none, 5000, 30000, 262144, 1⟩

namespace World

variable {env : Platform} {w w' w₀ : World}

/-- The database after an import. -/
structure Initial (w : World) : Prop where
  imported : w.server.transportConfig = ⟨true, some "TOOL_FACTORY_PUBLISH", true, none, none⟩
  status : w.server.status = .draft
  binding : w.binding = none
  checks : w.checks = .empty
  txs : w.txs = .empty
  changes : w.changes = 0

/-- The commit of a change of the binding that invalidates the evidence. -/
def changeBinding (w : World) (tx : Tx) (row : RuntimeBinding) : World :=
  { w with
    binding := some row
    changes := w.changes + 1
    server := tx.server.flush tx.server.invalidated w.server }

/-- `connection_test` after the remote calls. -/
def landConnectionTest (env : Platform) (w : World) (tx : Tx) (probe : Probe) (checkId : UUID)
    (checkedAt : Time) : Option World :=
  if (connectionTestError tx.server).isSome then some w
  else match probeStatus tx.server probe with
    | none => some w
    | some status => (w.checks.insert? ⟨checkId, status, checkedAt⟩).map fun checks =>
      if status = .succeeded ∧ tx.server.isFactoryImported then
        { w with
          checks
          server := tx.server.flush { tx.server with
            transportConfig := tx.server.transportConfig.withVerifiedFingerprint
              ⟨tx.server.fingerprint env, tx.changes⟩ } w.server }
      else { w with checks }

/-- The row of the server that `discover` assigns. -/
def discovered (env : Platform) (tx : Tx) (applyChanges : Bool) (remote : Remote) : MCPServer :=
  match discoveryWrite env tx.server applyChanges remote with
  | .keep => tx.server
  | .clear => { tx.server with
      transportConfig := tx.server.transportConfig.clearDiscoveryFingerprint }
  | .store => { tx.server with
      transportConfig := tx.server.transportConfig.withDiscoveryFingerprint
        ⟨tx.server.fingerprint env, tx.changes⟩ }

/-- `discover` after the remote calls. A server that the Factory did not import keeps its
`transport_config`. -/
def landDiscovery (env : Platform) (w : World) (tx : Tx) (applyChanges : Bool) (remote : Remote) :
    World :=
  if (discoverError env tx.server).isSome || !tx.server.isFactoryImported then w
  else { w with server := tx.server.flush (discovered env tx applyChanges remote) w.server }

/-- The commit of a request. -/
def land (env : Platform) (w : World) (tx : Tx) : Input → Option World
  | .nothing => match tx.op with
    | .update data expectedLockVersion =>
      match updateFields env tx.server data with
      | .error _ => some w
      | .ok fields =>
        some { w with server := (updateAtomic w.server expectedLockVersion fields).getD w.server }
    | .activate =>
      if (activateError env tx.server tx.latest).isSome then some w
      else some { w with
        server := tx.server.flush { tx.server with
          status := .active
          lockVersion := tx.server.lockVersion + 1 } w.server }
    | .deactivate =>
      if tx.server.status ≠ .active then some w
      else some { w with
        server := tx.server.flush { tx.server with
          status := .inactive
          lockVersion := tx.server.lockVersion + 1 } w.server }
    | .connectionTest | .discover _ | .createBinding | .updateBinding _ | .markReady _
    | .disableBinding _ => none
  | .probe probe checkId checkedAt => match tx.op with
    | .connectionTest => w.landConnectionTest env tx probe checkId checkedAt
    | _ => none
  | .remote remote => match tx.op with
    | .discover applyChanges => some (w.landDiscovery env tx applyChanges remote)
    | _ => none
  | .binding allowed validatedUrl => match tx.op with
    | .createBinding =>
      some (if allowed ∧ w.binding = none then { w with binding := some newBinding } else w)
    | .updateBinding data => some <|
      match w.binding.bind fun row => if allowed then
          (row.update data validatedUrl).map fun row' => (row, row') else none with
      | none => w
      | some (row, row') =>
        if row'.executionRelevant = row.executionRelevant then { w with binding := some row' }
        else w.changeBinding tx row'
    | .markReady lockVersion => some <|
      match w.binding.bind fun row => if allowed then
          (row.markReady lockVersion validatedUrl).map fun row' => (row, row') else none with
      | none => w
      | some (row, row') =>
        { w with
          binding := some row'
          changes := if row'.executionRelevant = row.executionRelevant then w.changes
            else w.changes + 1 }
    | .disableBinding lockVersion => some <|
      match w.binding.bind fun row => if allowed then row.disable lockVersion else none with
      | none => w
      | some row' => w.changeBinding tx row'
    | _ => none

/-- One step. A request that needs the row lock of the binding waits until it is free. -/
def step (env : Platform) (w : World) : Action → Option World
  | .begin t op =>
    if op.locksBinding && w.txs.rows.any (·.op.locksBinding) then none
    else (w.txs.insert? ⟨t, op, w.server, none, w.changes⟩).map fun txs => { w with txs }
  | .readLatestCheck t => (w.txs.find? t).map fun tx =>
      { w with txs := w.txs.put { tx with latest := latestCheck w.checks.rows } }
  | .finish t input => (w.txs.find? t).bind fun tx =>
      land env { w with txs := w.txs.erase t } tx input

/-- **The law.** An ACTIVE Factory-imported server has verified fingerprints of its current
configuration, obtained by checks that started after the last execution-relevant change of its
binding. -/
def ActiveEvidence (env : Platform) (w : World) : Prop :=
  w.server.status = .active → w.server.isFactoryImported = true →
    ∃ test discovery, w.server.transportConfig.connectionTest = some test ∧
      w.server.transportConfig.discovery = some discovery ∧
      w.server.verifiedConnectionFingerprint = some (w.server.fingerprint env) ∧
      w.server.verifiedDiscoveryFingerprint = some (w.server.fingerprint env) ∧
      test.changes = w.changes ∧ discovery.changes = w.changes

end World

end McpFlow.Factory
