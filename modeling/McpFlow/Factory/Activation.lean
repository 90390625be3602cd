import McpFlow.Factory.Evidence

/-!
# When activation evidence is kept

The law of `ActiveEvidence` holds as long as no commit overwrites what it has not read. The
condition on a commit compares the attributes that the request has loaded with the row it finds.
-/

namespace McpFlow.Factory

open World

variable {env : Platform} {w w' w₀ : World} {tx : Tx}

/-! ### The condition -/

/-- The condition on the commit of an update: an ACTIVE server keeps the fingerprint of its
connection, and a `transport_config` written back has not missed anything. -/
structure UpdatesWell (env : Platform) (row : MCPServer) (changes : ℕ) (tx : Tx)
    (fields : UpdateFields) : Prop where
  connection : row.status = .active →
    connectionConfigFingerprint env (fields.connection row.connection) = row.fingerprint env
  binding : fields.transportConfig.isSome = true →
    tx.server.transportConfig.hasEvidence = true → tx.changes = changes
  evidence : fields.transportConfig.isSome = true → row.status = .active →
    tx.server.verifiedConnectionFingerprint = row.verifiedConnectionFingerprint ∧
      tx.server.verifiedDiscoveryFingerprint = row.verifiedDiscoveryFingerprint

/-- The condition on a commit that changes the binding: it has seen the evidence and the activation
that it takes away. -/
structure ChangesWell (row : MCPServer) (tx : Tx) : Prop where
  status : row.status = .active → tx.server.status = .active
  evidence : row.transportConfig.hasEvidence = true → tx.server.transportConfig.hasEvidence = true

/-- The condition on the commit of a request. -/
def LandsWell (env : Platform) (w : World) (tx : Tx) (input : Input) : Prop :=
  match tx.op, input with
  | .update data expectedLockVersion, .nothing => w.server.lockVersion = expectedLockVersion →
    match updateFields env tx.server data with
    | .ok fields => UpdatesWell env w.server w.changes tx fields
    | .error _ => True
  | .connectionTest, .probe probe _ _ =>
    connectionTestError tx.server = none → probeStatus tx.server probe = some .succeeded →
      -- The flush writes a fingerprint that differs from the one loaded.
      tx.server.transportConfig.connectionTest.map Verified.fingerprint ≠
          some (tx.server.fingerprint env) →
        tx.changes = w.changes ∧ (w.server.status = .active →
          tx.server.fingerprint env = w.server.fingerprint env ∧
            tx.server.verifiedDiscoveryFingerprint = w.server.verifiedDiscoveryFingerprint)
  | .discover applyChanges, .remote remote => discoverError env tx.server = none →
    match discoveryWrite env tx.server applyChanges remote with
    | .keep => True
    | .clear => tx.server.transportConfig.discovery.isSome = true →
      tx.changes = w.changes ∧ w.server.status ≠ .active
    | .store => tx.server.transportConfig.discovery.map Verified.fingerprint ≠
        some (tx.server.fingerprint env) →
      tx.changes = w.changes ∧
        (w.server.status = .active → tx.server.fingerprint env = w.server.fingerprint env)
  | .activate, .nothing => activateError env tx.server tx.latest = none →
    w.server.connectionVerified env = true ∧ w.server.discoveryVerified env = true
  | .updateBinding data, .binding true validatedUrl =>
    ∀ row ∈ w.binding, ∀ row' ∈ row.update data validatedUrl,
      row'.executionRelevant ≠ row.executionRelevant → ChangesWell w.server tx
  | .disableBinding lockVersion, .binding true _ =>
    ∀ row ∈ w.binding, row.lockVersion = lockVersion → ChangesWell w.server tx
  | .markReady lockVersion, .binding true validatedUrl =>
    -- The second validation of the stored text answers with another text.
    ∀ row ∈ w.binding, ∀ row' ∈ row.markReady lockVersion validatedUrl,
      row'.executionRelevant ≠ row.executionRelevant →
        w.server.transportConfig.hasEvidence = false
  | _, _ => True

/-- The condition on a step. -/
def KeepsEvidence (env : Platform) (w : World) : Action → Prop
  | .begin _ _ | .readLatestCheck _ => True
  | .finish t input => ∀ tx, w.txs.find? t = some tx → LandsWell env w tx input

/-! ### The invariant -/

/-- Every stored fingerprint was obtained by a check that started after `changes` changes. -/
structure TransportConfig.Fresh (cfg : TransportConfig) (changes : ℕ) : Prop where
  imported : cfg.factoryPublish = true
  connectionTest : ∀ v, cfg.connectionTest = some v → v.changes = changes
  discovery : ∀ v, cfg.discovery = some v → v.changes = changes

/-- Both stored fingerprints are the text `fingerprint`. -/
structure TransportConfig.Verifies (cfg : TransportConfig) (fingerprint : String) : Prop where
  connectionTest : Verified.text? cfg.connectionTest = some fingerprint
  discovery : Verified.text? cfg.discovery = some fingerprint

theorem verifies_iff {s : MCPServer} : s.transportConfig.Verifies (s.fingerprint env) ↔
    s.connectionVerified env = true ∧ s.discoveryVerified env = true := by
  simp only [MCPServer.connectionVerified, MCPServer.discoveryVerified, decide_eq_true_eq]
  exact ⟨fun h => ⟨h.connectionTest, h.discovery⟩, fun h => ⟨h.1, h.2⟩⟩

/-- The stored evidence of the server is fresh, and an ACTIVE server is verified. -/
structure Holds (env : Platform) (server : MCPServer) (changes : ℕ) : Prop where
  fresh : server.transportConfig.Fresh changes
  active : server.status = .active → server.transportConfig.Verifies (server.fingerprint env)

/-- What a request has loaded was fresh when it was loaded. -/
structure World.Inv (env : Platform) (w : World) : Prop where
  server : Holds env w.server w.changes
  loaded : ∀ tx ∈ w.txs, tx.server.transportConfig.Fresh tx.changes

theorem TransportConfig.Fresh.of_not_hasEvidence {cfg : TransportConfig} {n m : ℕ}
    (h : cfg.Fresh n) (hnone : cfg.hasEvidence = false) : cfg.Fresh m := by
  simp only [hasEvidence, Bool.or_eq_false_iff, Option.isSome_eq_false_iff,
    Option.isNone_iff_eq_none] at hnone
  refine ⟨h.imported, fun v hv => ?_, fun v hv => ?_⟩
  · rw [hnone.1] at hv
    cases hv
  · rw [hnone.2] at hv
    cases hv

theorem TransportConfig.Fresh.isFactoryImported {s : MCPServer} {n : ℕ}
    (h : s.transportConfig.Fresh n) : s.isFactoryImported = true := by
  rw [MCPServer.isFactoryImported, h.imported, Bool.true_or]

/-- A verified fingerprint has 64 characters. -/
theorem length_of_text? {v : Option Verified} {fingerprint : String}
    (h : Verified.text? v = some fingerprint) : fingerprint.length = 64 := by
  rw [Verified.text?, Option.filter_eq_some_iff] at h
  simpa using h.2

/-- What a text of 64 characters verifies. -/
theorem text?_some {v : Verified} (h : v.fingerprint.length = 64) :
    Verified.text? (some v) = some v.fingerprint := by
  simp [Verified.text?, Option.filter, h]

/-! ### Flushes -/

theorem flushColumn_of_ne {α : Type} [DecidableEq α] {loaded assigned current : α}
    (h : assigned ≠ loaded) : flushColumn loaded assigned current = assigned := if_neg h

@[simp] theorem flushColumn_self {α : Type} [DecidableEq α] (loaded current : α) :
    flushColumn loaded loaded current = current := if_pos rfl

@[simp] theorem sameValue_self (cfg : TransportConfig) : cfg.sameValue cfg = true := by
  simp [TransportConfig.sameValue]

@[simp] theorem flushConfig_self (loaded current : TransportConfig) :
    flushConfig loaded loaded current = current := if_pos (sameValue_self loaded)

/-- The fingerprint depends on the connection alone. -/
theorem fingerprint_flush (loaded assigned row : MCPServer) :
    (loaded.flush assigned row).fingerprint env = row.fingerprint env := rfl

/-- A session that assigns the status keeps the evidence of the row. -/
theorem holds_flush_status {loaded row : MCPServer} {n : ℕ} {status : MCPServerStatus}
    {lockVersion : ℕ} (h : Holds env row n) (hne : status ≠ loaded.status)
    (hactive : status = .active → row.transportConfig.Verifies (row.fingerprint env)) :
    Holds env (loaded.flush { loaded with status, lockVersion } row) n := by
  have hcfg : (loaded.flush { loaded with status, lockVersion } row).transportConfig =
      row.transportConfig := flushConfig_self _ _
  refine ⟨?_, fun hstatus => ?_⟩
  · rw [hcfg]
    exact h.fresh
  · have hnew : flushColumn loaded.status status row.status = .active := hstatus
    rw [flushColumn_of_ne hne] at hnew
    rw [hcfg]
    exact hactive hnew

/-- A session that assigns a `transport_config` writes it, unless it has the value loaded. -/
theorem holds_flush_config {loaded row : MCPServer} {n : ℕ} {cfg : TransportConfig}
    (h : Holds env row n)
    (hnew : cfg.sameValue loaded.transportConfig = false →
      cfg.Fresh n ∧ (row.status = .active → cfg.Verifies (row.fingerprint env))) :
    Holds env (loaded.flush { loaded with transportConfig := cfg } row) n := by
  have hstatus : (loaded.flush { loaded with transportConfig := cfg } row).status = row.status :=
    flushColumn_self _ _
  cases hsame : cfg.sameValue loaded.transportConfig with
  | true =>
    have hcfg : (loaded.flush { loaded with transportConfig := cfg } row).transportConfig =
        row.transportConfig := if_pos hsame
    refine ⟨by rw [hcfg]; exact h.fresh, fun hactive => ?_⟩
    rw [hstatus] at hactive
    rw [hcfg]
    exact h.active hactive
  | false =>
    have hcfg : (loaded.flush { loaded with transportConfig := cfg } row).transportConfig = cfg :=
      if_neg (by rw [hsame]; exact Bool.false_ne_true)
    obtain ⟨hfresh, hverifies⟩ := hnew hsame
    refine ⟨by rw [hcfg]; exact hfresh, fun hactive => ?_⟩
    rw [hstatus] at hactive
    rw [hcfg]
    exact hverifies hactive

/-! ### One commit -/

/-- `update` writes back the `transport_config` that it has read, without the deferral. -/
theorem transportConfig_of_updateFields {server : MCPServer} {data : MCPServerUpdate}
    {fields : UpdateFields} (h : updateFields env server data = .ok fields) {cfg : TransportConfig}
    (hcfg : fields.transportConfig = some cfg) :
    cfg = server.transportConfig.withDeferredCleared := by
  simp only [updateFields, Except.bind_eq_ok_iff] at h
  obtain ⟨_, -, _, -, _, -, _, -, _, -, h⟩ := h
  cases h
  rw [MCPServer.deferredCleared, Option.ite_none_right_eq_some] at hcfg
  exact (Option.some.inj hcfg.2).symm

theorem holds_update {data : MCPServerUpdate} {fields : UpdateFields} {row : MCPServer}
    {expectedLockVersion : ℕ} (h : Holds env w.server w.changes)
    (htx : tx.server.transportConfig.Fresh tx.changes)
    (hfields : updateFields env tx.server data = .ok fields) (hwell : UpdatesWell env w.server w.changes tx fields)
    (hrow : updateAtomic w.server expectedLockVersion fields = some row) :
    Holds env row w.changes := by
  rw [updateAtomic, Option.ite_none_right_eq_some] at hrow
  obtain ⟨-, hrow⟩ := hrow
  cases hrow
  refine ⟨?_, fun hactive => ?_⟩
  · cases hcfg : fields.transportConfig with
    | none => exact h.fresh
    | some cfg =>
      obtain rfl := transportConfig_of_updateFields hfields hcfg
      have hsome : fields.transportConfig.isSome = true := by rw [hcfg, Option.isSome_some]
      have hfresh : tx.server.transportConfig.Fresh w.changes := by
        cases hevidence : tx.server.transportConfig.hasEvidence with
        | true =>
          rw [← hwell.binding hsome hevidence]
          exact htx
        | false => exact htx.of_not_hasEvidence hevidence
      exact ⟨hfresh.imported, hfresh.connectionTest, hfresh.discovery⟩
  · -- The evidence of the row is for the fingerprint that the update keeps.
    have hfp := hwell.connection hactive
    have hverifies := h.active hactive
    change (fields.transportConfig.getD w.server.transportConfig).Verifies
      (connectionConfigFingerprint env (fields.connection w.server.connection))
    rw [hfp]
    cases hcfg : fields.transportConfig with
    | none => exact hverifies
    | some cfg =>
      obtain rfl := transportConfig_of_updateFields hfields hcfg
      have hsome : fields.transportConfig.isSome = true := by rw [hcfg, Option.isSome_some]
      obtain ⟨htest, hdiscovery⟩ := hwell.evidence hsome hactive
      exact ⟨htest.trans hverifies.connectionTest, hdiscovery.trans hverifies.discovery⟩

theorem holds_changeBinding {row : RuntimeBinding} (h : Holds env w.server w.changes)
    (htx : tx.server.transportConfig.Fresh tx.changes) (hwell : ChangesWell w.server tx) :
    Holds env (w.changeBinding tx row).server (w.changeBinding tx row).changes := by
  have hinvalidated : tx.server.invalidated = { tx.server with
      transportConfig := tx.server.transportConfig.clearVerifiedFingerprints
      status := if tx.server.status = .active then .inactive else tx.server.status
      lockVersion := tx.server.lockVersion + 1 } := if_pos htx.isFactoryImported
  change Holds env (tx.server.flush tx.server.invalidated w.server) (w.changes + 1)
  rw [hinvalidated]
  -- The row has no evidence after the flush, and is not ACTIVE.
  refine ⟨?_, fun hactive => absurd hactive ?_⟩
  · change (flushConfig tx.server.transportConfig
      tx.server.transportConfig.clearVerifiedFingerprints w.server.transportConfig).Fresh _
    cases hevidence : tx.server.transportConfig.hasEvidence with
    | true =>
      rw [flushConfig, if_neg]
      · refine ⟨htx.imported, fun v hv => ?_, fun v hv => ?_⟩
        · cases hv
        · cases hv
      · simp only [TransportConfig.hasEvidence, Bool.or_eq_true, Option.isSome_iff_exists]
          at hevidence
        rcases hevidence with ⟨v, hv⟩ | ⟨v, hv⟩ <;>
          simp [TransportConfig.sameValue, TransportConfig.clearVerifiedFingerprints, hv]
    | false =>
      have hnone : w.server.transportConfig.hasEvidence = false := by
        by_contra hsome
        rw [hwell.evidence (by simpa using hsome)] at hevidence
        cases hevidence
      simp only [TransportConfig.hasEvidence, Bool.or_eq_false_iff, Option.isSome_eq_false_iff,
        Option.isNone_iff_eq_none] at hevidence
      rw [flushConfig, if_pos]
      · exact h.fresh.of_not_hasEvidence hnone
      · simp [TransportConfig.sameValue, TransportConfig.clearVerifiedFingerprints, hevidence]
  · change flushColumn tx.server.status _ w.server.status ≠ .active
    by_cases hloaded : tx.server.status = .active
    · rw [if_pos hloaded, flushColumn_of_ne (by rw [hloaded]; exact nofun)]
      exact nofun
    · rw [if_neg hloaded, flushColumn_self]
      exact fun hstatus => hloaded (hwell.status hstatus)

theorem holds_landConnectionTest {probe : Probe} {checkId : UUID} {checkedAt : Time}
    (h : Holds env w.server w.changes) (htx : tx.server.transportConfig.Fresh tx.changes)
    (hop : tx.op = .connectionTest)
    (hwell : LandsWell env w tx (.probe probe checkId checkedAt))
    (hw' : w.landConnectionTest env tx probe checkId checkedAt = some w') :
    Holds env w'.server w'.changes := by
  simp only [LandsWell, hop] at hwell
  unfold landConnectionTest at hw'
  split at hw'
  · cases hw'
    exact h
  next herror =>
  split at hw'
  · cases hw'
    exact h
  next status hstatus =>
  obtain ⟨checks, -, rfl⟩ := Option.map_eq_some_iff.mp hw'
  split
  · next hsucceeded =>
    obtain ⟨rfl, -⟩ := hsucceeded
    refine holds_flush_config h fun hsame => ?_
    have hne : tx.server.transportConfig.connectionTest.map Verified.fingerprint ≠
        some (tx.server.fingerprint env) := by
      intro heq
      simp [TransportConfig.sameValue, TransportConfig.withVerifiedFingerprint, heq] at hsame
    obtain ⟨hchanges, hactive⟩ :=
      hwell (by simpa using herror) hstatus hne
    rw [hchanges] at htx ⊢
    refine ⟨⟨htx.imported, fun v hv => ?_, htx.discovery⟩, fun hrow => ?_⟩
    · cases hv
      rfl
    · -- The test is for the fingerprint of the row, and the row has its discovery.
      obtain ⟨hfp, hdiscovery⟩ := hactive hrow
      have hverifies := h.active hrow
      refine ⟨?_, hdiscovery.trans hverifies.discovery⟩
      rw [← hfp]
      refine text?_some ?_
      change (tx.server.fingerprint env).length = 64
      rw [hfp]
      exact length_of_text? hverifies.connectionTest
  · exact h

/-- A Factory discovery starts from a verified connection test. -/
theorem connectionVerified_of_discoverError {s : MCPServer} (himported : s.isFactoryImported = true)
    (h : discoverError env s = none) :
    Verified.text? s.transportConfig.connectionTest = some (s.fingerprint env) := by
  rw [discoverError, Option.or_eq_none_iff, himported] at h
  obtain ⟨-, h⟩ := h
  split at h
  · cases h
  split at h
  · cases h
  next hverified =>
  have hsame : s.verifiedConnectionFingerprint = some (s.fingerprint env) := by
    simpa [MCPServer.connectionVerified] using hverified
  exact hsame

theorem holds_landDiscovery {applyChanges : Bool} {remote : Remote}
    (h : Holds env w.server w.changes) (htx : tx.server.transportConfig.Fresh tx.changes)
    (hop : tx.op = .discover applyChanges) (hwell : LandsWell env w tx (.remote remote)) :
    Holds env (w.landDiscovery env tx applyChanges remote).server
      (w.landDiscovery env tx applyChanges remote).changes := by
  simp only [LandsWell, hop] at hwell
  unfold landDiscovery
  split
  · exact h
  next hstarted =>
  simp only [Bool.or_eq_true, not_or, Option.not_isSome_iff_eq_none] at hstarted
  have hwell := hwell hstarted.1
  have htest := connectionVerified_of_discoverError htx.isFactoryImported hstarted.1
  unfold discovered
  cases hwrite : discoveryWrite env tx.server applyChanges remote with
  | keep =>
    refine holds_flush_config h fun hsame => ?_
    rw [sameValue_self] at hsame
    cases hsame
  | clear =>
    rw [hwrite] at hwell
    refine holds_flush_config h fun hsame => ?_
    have hsome : tx.server.transportConfig.discovery.isSome = true := by
      cases hdiscovery : tx.server.transportConfig.discovery with
      | some v => rfl
      | none =>
        simp [TransportConfig.sameValue, TransportConfig.clearDiscoveryFingerprint, hdiscovery]
          at hsame
    obtain ⟨hchanges, hrow⟩ := hwell hsome
    rw [hchanges] at htx
    refine ⟨⟨htx.imported, htx.connectionTest, fun v hv => ?_⟩, fun hactive => absurd hactive hrow⟩
    cases hv
  | store =>
    rw [hwrite] at hwell
    refine holds_flush_config h fun hsame => ?_
    have hne : tx.server.transportConfig.discovery.map Verified.fingerprint ≠
        some (tx.server.fingerprint env) := by
      intro heq
      simp [TransportConfig.sameValue, TransportConfig.withDiscoveryFingerprint, heq] at hsame
    obtain ⟨hchanges, hactive⟩ := hwell hne
    rw [hchanges] at htx ⊢
    refine ⟨⟨htx.imported, htx.connectionTest, fun v hv => ?_⟩, fun hrow => ?_⟩
    · cases hv
      rfl
    · rw [← hactive hrow]
      exact ⟨htest, text?_some (length_of_text? htest)⟩

theorem ne_active_of_activateError {s : MCPServer} {latest : Option MCPServerCheck}
    (h : activateError env s latest = none) : MCPServerStatus.active ≠ s.status := by
  intro hactive
  rw [activateError, if_pos] at h
  · cases h
  · rw [← hactive]
    decide

/-- A commit that meets the condition keeps the invariant of the server. -/
theorem holds_land {input : Input} (h : Holds env w.server w.changes)
    (htx : tx.server.transportConfig.Fresh tx.changes) (hwell : LandsWell env w tx input)
    (hw' : w.land env tx input = some w') : Holds env w'.server w'.changes := by
  cases hop : tx.op with
  | update data expectedLockVersion =>
    cases input <;> simp only [land, hop] at hw' <;> try cases hw'
    split at hw'
    · cases hw'
      exact h
    next fields hfields =>
    cases hw'
    simp only [LandsWell, hop] at hwell
    cases hrow : updateAtomic w.server expectedLockVersion fields with
    | none => exact h
    | some row =>
      change Holds env row w.changes
      have hversion : w.server.lockVersion = expectedLockVersion := by
        rw [updateAtomic, Option.ite_none_right_eq_some] at hrow
        exact hrow.1
      have hupdates := hwell hversion
      rw [hfields] at hupdates
      exact holds_update h htx hfields hupdates hrow
  | connectionTest =>
    cases input <;> simp only [land, hop] at hw' <;> try cases hw'
    exact holds_landConnectionTest h htx hop hwell hw'
  | discover applyChanges =>
    cases input <;> simp only [land, hop] at hw' <;> try cases hw'
    exact holds_landDiscovery h htx hop hwell
  | activate =>
    cases input <;> simp only [land, hop] at hw' <;> try cases hw'
    split at hw'
    · cases hw'
      exact h
    next herror =>
    cases hw'
    simp only [LandsWell, hop] at hwell
    rw [Option.not_isSome_iff_eq_none] at herror
    exact holds_flush_status h (ne_active_of_activateError herror)
      fun _ => verifies_iff.mpr (hwell herror)
  | deactivate =>
    cases input <;> simp only [land, hop] at hw' <;> try cases hw'
    split at hw'
    · cases hw'
      exact h
    next hstatus =>
    cases hw'
    rw [ne_eq, not_not] at hstatus
    exact holds_flush_status h (by rw [hstatus]; exact nofun) nofun
  | createBinding =>
    cases input <;> simp only [land, hop] at hw' <;> try cases hw'
    split
    · exact h
    · exact h
  | updateBinding data =>
    cases input <;> simp only [land, hop] at hw' <;> try cases hw'
    next allowed validatedUrl =>
    simp only [LandsWell, hop] at hwell
    split
    · exact h
    next row row' hbind =>
    obtain ⟨row₀, hrow₀, hguard⟩ := Option.bind_eq_some_iff.mp hbind
    obtain ⟨hallowed, hmap⟩ := Option.ite_none_right_eq_some.mp hguard
    obtain ⟨row₁, hrow₁, hpair⟩ := Option.map_eq_some_iff.mp hmap
    cases hpair
    cases hallowed
    split
    · exact h
    · next hchanged =>
      exact holds_changeBinding h htx (hwell _ hrow₀ _ hrow₁ hchanged)
  | markReady lockVersion =>
    cases input <;> simp only [land, hop] at hw' <;> try cases hw'
    next allowed validatedUrl =>
    simp only [LandsWell, hop] at hwell
    split
    · exact h
    next row row' hbind =>
    obtain ⟨row₀, hrow₀, hguard⟩ := Option.bind_eq_some_iff.mp hbind
    obtain ⟨hallowed, hmap⟩ := Option.ite_none_right_eq_some.mp hguard
    obtain ⟨row₁, hrow₁, hpair⟩ := Option.map_eq_some_iff.mp hmap
    cases hpair
    cases hallowed
    split
    · exact h
    · next hchanged =>
      have hnone := hwell _ hrow₀ _ hrow₁ hchanged
      refine ⟨h.fresh.of_not_hasEvidence hnone, h.active⟩
  | disableBinding lockVersion =>
    cases input <;> simp only [land, hop] at hw' <;> try cases hw'
    next allowed validatedUrl =>
    simp only [LandsWell, hop] at hwell
    split
    · exact h
    next row' hbind =>
    obtain ⟨row₀, hrow₀, hguard⟩ := Option.bind_eq_some_iff.mp hbind
    obtain ⟨hallowed, hdisable⟩ := Option.ite_none_right_eq_some.mp hguard
    cases hallowed
    have hversion : row₀.lockVersion = lockVersion := by
      by_contra hne
      rw [RuntimeBinding.disable, if_pos hne] at hdisable
      cases hdisable
    exact holds_changeBinding h htx (hwell row₀ hrow₀ hversion)

theorem txs_landConnectionTest {probe : Probe} {checkId : UUID} {checkedAt : Time}
    (h : w.landConnectionTest env tx probe checkId checkedAt = some w') : w'.txs = w.txs := by
  unfold landConnectionTest at h
  split at h
  · cases h
    rfl
  split at h
  · cases h
    rfl
  · obtain ⟨checks, -, rfl⟩ := Option.map_eq_some_iff.mp h
    split
    · rfl
    · rfl

theorem txs_landDiscovery {applyChanges : Bool} {remote : Remote} :
    (w.landDiscovery env tx applyChanges remote).txs = w.txs := by
  unfold landDiscovery
  split
  · rfl
  · rfl

/-- A commit touches no other request. -/
theorem txs_land {input : Input} (h : w.land env tx input = some w') : w'.txs = w.txs := by
  cases input with
  | nothing =>
    simp only [land] at h
    repeat' split at h
    all_goals first
      | (cases h; done)
      | (cases h; rfl)
  | probe probe checkId checkedAt =>
    simp only [land] at h
    split at h
    · exact txs_landConnectionTest h
    · cases h
  | remote remote =>
    simp only [land] at h
    split at h
    · cases h
      exact txs_landDiscovery
    · cases h
  | binding allowed validatedUrl =>
    simp only [land] at h
    split at h
    all_goals cases h
    all_goals
      repeat' split
      all_goals rfl

/-! ### The run -/

theorem World.Inv.step {a : Action} (h : w.Inv env) (hkeeps : KeepsEvidence env w a)
    (hw' : w.step env a = some w') : w'.Inv env := by
  cases a with
  | begin t op =>
    rw [World.step] at hw'
    split at hw'
    · cases hw'
    obtain ⟨txs, htxs, rfl⟩ := Option.map_eq_some_iff.mp hw'
    exact ⟨h.server, (Table.forall_mem_insert? htxs).mpr ⟨h.loaded, h.server.fresh⟩⟩
  | readLatestCheck t =>
    obtain ⟨tx, htx, rfl⟩ := Option.map_eq_some_iff.mp hw'
    refine ⟨h.server, Table.forall_mem_put ?_ fun tx' htx' _ => h.loaded tx' htx'⟩
    exact h.loaded tx (Table.mem_of_find? htx)
  | finish t input =>
    obtain ⟨tx, htx, hland⟩ := Option.bind_eq_some_iff.mp hw'
    have hloaded := h.loaded tx (Table.mem_of_find? htx)
    refine ⟨holds_land (w := { w with txs := w.txs.erase t }) h.server hloaded ?_ hland, ?_⟩
    · exact hkeeps tx htx
    · rw [txs_land hland]
      exact fun tx' htx' => h.loaded tx' (Table.mem_erase.mp htx').1

theorem World.Initial.inv (h : w.Initial) : w.Inv env := by
  refine ⟨⟨⟨?_, ?_, ?_⟩, ?_⟩, ?_⟩
  · rw [h.imported]
  · intro v hv
    rw [h.imported] at hv
    cases hv
  · intro v hv
    rw [h.imported] at hv
    cases hv
  · intro hactive
    rw [h.status] at hactive
    cases hactive
  · intro tx htx
    rw [h.txs, Table.mem_def, Table.rows_empty] at htx
    cases htx

theorem World.Inv.activeEvidence (h : w.Inv env) : w.ActiveEvidence env := by
  intro hactive _
  have hverifies := h.server.active hactive
  have hstored {v : Option Verified} {text : String} (htext : Verified.text? v = some text) :
      ∃ verified, v = some verified := by
    cases v with
    | none => cases htext
    | some verified => exact ⟨verified, rfl⟩
  obtain ⟨test, htest⟩ := hstored hverifies.connectionTest
  obtain ⟨discovery, hdiscovery⟩ := hstored hverifies.discovery
  exact ⟨test, discovery, htest, hdiscovery, hverifies.connectionTest, hverifies.discovery,
    h.server.fresh.connectionTest test htest, h.server.fresh.discovery discovery hdiscovery⟩

/-- **Activation evidence.** In every run whose steps meet the condition, an ACTIVE Factory server
is verified for its current configuration by checks that started after the last change of its
binding. -/
theorem World.active_evidence (hinit : w₀.Initial) {as : List Action}
    (hmeet : Runs.StepsMeet (World.step env) (KeepsEvidence env) w₀ as)
    (hrun : Runs.run (World.step env) w₀ as = some w) : w.ActiveEvidence env :=
  (Runs.run_preserves (fun _ _ _ hs hok hstep => hs.step hok hstep) hinit.inv hmeet
    hrun).activeEvidence

/-! ### Runs -/

/-- A platform that takes every endpoint, with digests that tell two endpoints apart. -/
def examplePlatform : Platform where
  hash v := String.ofList
    (List.replicate 64 (if v.getD "endpoint_url" = .str "https://a.test/mcp" then 'a' else 'b'))
  validateEndpoint := .ok

/-- An imported server without an endpoint. -/
def imported : World where
  server := ⟨⟨.streamableHttp, none, .none, none, 10000, 60000⟩, none,
    ⟨true, some "TOOL_FACTORY_PUBLISH", true, none, none⟩, .draft, 1⟩
  binding := none
  checks := .empty
  txs := .empty
  changes := 0

/-- An update of the endpoint alone. -/
def endpointUpdate (url : String) : MCPServerUpdate :=
  ⟨none, some (some url), none, none, none, none, none⟩

/-- A request that no other interrupts. -/
def alone (t : ℕ) (op : Op) (input : Input) : List Action := [.begin t op, .finish t input]

/-- An endpoint is set and tested, its tools are discovered, and the server is activated. -/
def activationRun : List Action :=
  alone 0 (.update (endpointUpdate "https://a.test/mcp") 1) .nothing ++
    alone 1 .connectionTest (.probe .succeeded (.ofNat 1) 10) ++
    alone 2 (.discover true) (.remote (.listed .clean)) ++
    [.begin 3 .activate, .readLatestCheck 3, .finish 3 .nothing]

instance {env : Platform} {row : MCPServer} {n : ℕ} {tx : Tx} {fields : UpdateFields} :
    Decidable (UpdatesWell env row n tx fields) :=
  decidable_of_iff
    ((row.status = .active →
        connectionConfigFingerprint env (fields.connection row.connection) = row.fingerprint env) ∧
      (fields.transportConfig.isSome = true →
        tx.server.transportConfig.hasEvidence = true → tx.changes = n) ∧
      (fields.transportConfig.isSome = true → row.status = .active →
        tx.server.verifiedConnectionFingerprint = row.verifiedConnectionFingerprint ∧
          tx.server.verifiedDiscoveryFingerprint = row.verifiedDiscoveryFingerprint))
    ⟨fun h => ⟨h.1, h.2.1, h.2.2⟩, fun h => ⟨h.connection, h.binding, h.evidence⟩⟩

instance {row : MCPServer} {tx : Tx} : Decidable (ChangesWell row tx) :=
  decidable_of_iff ((row.status = .active → tx.server.status = .active) ∧
      (row.transportConfig.hasEvidence = true → tx.server.transportConfig.hasEvidence = true))
    ⟨fun h => ⟨h.1, h.2⟩, fun h => ⟨h.status, h.evidence⟩⟩

instance {env : Platform} {w : World} {tx : Tx} {input : Input} :
    Decidable (LandsWell env w tx input) := by
  unfold LandsWell
  repeat' split
  all_goals infer_instance

instance {env : Platform} (w : World) (a : Action) : Decidable (KeepsEvidence env w a) :=
  match a with
  | .begin _ _ | .readLatestCheck _ => isTrue trivial
  | .finish t input =>
    inferInstanceAs (Decidable (∀ tx ∈ w.txs.find? t, LandsWell env w tx input))

theorem activationRun_evidence : ∃ w,
    Runs.run (World.step examplePlatform) imported activationRun = some w ∧
      w.server.status = .active ∧ w.ActiveEvidence examplePlatform := by
  have hrun : (Runs.run (World.step examplePlatform) imported activationRun).any
      (fun w => w.server.status = .active) = true := by decide +kernel
  obtain ⟨w, hw, hactive⟩ := (Option.any_eq_true _ _).mp hrun
  exact ⟨w, hw, of_decide_eq_true hactive,
    World.active_evidence ⟨rfl, rfl, rfl, rfl, rfl, rfl⟩ (by decide +kernel) hw⟩

/-- The endpoint of the ACTIVE server is changed. -/
def endpointChangedRun : List Action :=
  activationRun ++ alone 4 (.update (endpointUpdate "https://b.test/mcp") 3) .nothing

/-- An update of the upstream of a binding. -/
def upstreamUpdate (lockVersion : ℕ) (url : String) : Op :=
  .updateBinding ⟨some (some url), none, none, none, none, none, lockVersion⟩

/-- A connection test runs while the upstream of the binding is changed. -/
def staleTestRun : List Action :=
  alone 0 (.update (endpointUpdate "https://a.test/mcp") 1) .nothing ++
    alone 1 .createBinding (.binding true none) ++
    alone 2 (upstreamUpdate 1 "https://up-1.test") (.binding true (some "https://up-1.test")) ++
    alone 3 (.markReady 2) (.binding true (some "https://up-1.test")) ++
    [.begin 4 .connectionTest] ++
    alone 5 (upstreamUpdate 3 "https://up-2.test") (.binding true (some "https://up-2.test")) ++
    alone 6 (.markReady 4) (.binding true (some "https://up-2.test")) ++
    [.finish 4 (.probe .succeeded (.ofNat 1) 10)] ++
    alone 7 (.discover true) (.remote (.listed .clean)) ++
    [.begin 8 .activate, .readLatestCheck 8, .finish 8 .nothing]

/-- A violation of the law is found by evaluation. -/
theorem exists_violation {run : List Action}
    (h : (Runs.run (World.step env) imported run).any (fun w => decide (w.server.status = .active ∧
      w.server.isFactoryImported = true ∧ (w.server.connectionVerified env = false ∨
        w.server.transportConfig.connectionTest.any (·.changes ≠ w.changes) = true))) = true) :
    ∃ w, Runs.run (World.step env) imported run = some w ∧ ¬w.ActiveEvidence env := by
  obtain ⟨w, hw, hlast⟩ := (Option.any_eq_true _ _).mp h
  obtain ⟨hactive, himported, hfails⟩ := of_decide_eq_true hlast
  refine ⟨w, hw, fun hlaw => ?_⟩
  obtain ⟨test, -, htest, -, hverified, -, hchanges, -⟩ := hlaw hactive himported
  rcases hfails with hfails | hfails
  · rw [MCPServer.connectionVerified, hverified] at hfails
    simp at hfails
  · rw [htest] at hfails
    simp [hchanges] at hfails

/-- After the first run the evidence is for another configuration; after the second one the
connection test started before the last change of the binding. -/
theorem endpoint_changed_and_stale_test :
    (∃ w, Runs.run (World.step examplePlatform) imported endpointChangedRun = some w ∧
      ¬w.ActiveEvidence examplePlatform) ∧
    ∃ w, Runs.run (World.step examplePlatform) imported staleTestRun = some w ∧
      ¬w.ActiveEvidence examplePlatform :=
  ⟨exists_violation (by decide +kernel), exists_violation (by decide +kernel)⟩

end McpFlow.Factory
