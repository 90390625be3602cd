import McpFlow.Library.Runs
import McpFlow.Workflow.Validated

/-!
# The lifecycle of workflow versions

What a transaction has locked is what is stored, and no two transactions have locked the same row.
With that, an operation changes only drafts, a publication changes only its draft and the current
version, and a version that is no draft stays what was validated.
-/

namespace McpFlow.Workflow

/-- The transaction has locked the version. -/
def Tx.Holds (tx : Tx) (id : UUID) : Prop :=
  (∃ r, tx.version = some r ∧ r.id = id) ∨ ∃ r, tx.previous = some r ∧ r.id = id

/-- The transaction of an action. -/
def Action.tx? : Action → Option ℕ
  | .begin tx _ | .lockWorkflow tx | .lockVersion tx | .assertPublishReady tx _
  | .lockPrevious tx | .finish tx _ | .rollback tx => some tx
  | .updateWorkflow => none

namespace World

variable {env : Platform} {workflowId : UUID} {w w' : World} {tx : Tx} {r : WorkflowVersion}

/-! ### The invariant -/

/-- The version, with these tool references, is what its last validation saw. -/
structure Sound (env : Platform) (workflowId : UUID) (refs : List (String × UUID))
    (r : WorkflowVersion) : Prop where
  hash : r.content.hash env = some r.contentHash
  status : r.validationStatus = .valid
  report : ∃ rep, r.validationReport = some rep ∧ rep.valid = true ∧
    rep.contentHash = r.contentHash
  plan : ∃ p deps, Validated env workflowId deps r.content p ∧
    ∀ x, x ∈ refs ↔ x ∈ p.toolProjection env.pydantic.toCoercion

/-- The facts about an open transaction. -/
structure TxInv (env : Platform) (workflowId : UUID) (w : World) (tx : Tx) : Prop where
  workflow : ∀ seen, tx.workflow = some seen → seen = w.workflow
  version : ∀ r, tx.version = some r → r ∈ w.versions ∧ tx.op.target = some r.id
  previous : ∀ p, tx.previous = some p →
    p ∈ w.versions ∧ w.workflow.currentVersionId = some p.id ∧ tx.workflow.isSome
  ready : tx.ready = true → ∃ r, tx.version = some r ∧ r.status = .draft ∧
    Sound env workflowId (w.refsOf r.id) r

/-- The invariant. -/
structure Inv (env : Platform) (workflowId : UUID) (w : World) : Prop where
  tx : ∀ tx ∈ w.txs, TxInv env workflowId w tx
  workflowLock : ∀ tx ∈ w.txs, ∀ tx' ∈ w.txs, tx.workflow.isSome → tx'.workflow.isSome → tx = tx'
  versionLock : ∀ tx ∈ w.txs, ∀ tx' ∈ w.txs, ∀ id, tx.Holds id → tx'.Holds id → tx = tx'
  sound : ∀ r ∈ w.versions, r.status ≠ .draft → Sound env workflowId (w.refsOf r.id) r
  current : ∀ r ∈ w.versions, r.status = .published ↔ w.workflow.currentVersionId = some r.id
  pointer : ∀ id, w.workflow.currentVersionId = some id → ∃ r ∈ w.versions, r.id = id

theorem Initial.inv (h : w.Initial) : Inv env workflowId w where
  tx tx htx := by simp [Table.mem_def, h.txs] at htx
  workflowLock tx htx := by simp [Table.mem_def, h.txs] at htx
  versionLock tx htx := by simp [Table.mem_def, h.txs] at htx
  sound r hr := by simp [Table.mem_def, h.versions] at hr
  current r hr := by simp [Table.mem_def, h.versions] at hr
  pointer id hid := by simp [h.current] at hid

theorem Sound.of_refs {refs refs' : List (String × UUID)} {r' : WorkflowVersion}
    (h : Sound env workflowId refs r) (hcontent : r'.content = r.content) (hhash : r'.contentHash = r.contentHash)
    (hstatus : r'.validationStatus = r.validationStatus)
    (hreport : r'.validationReport = r.validationReport)
    (hrefs : ∀ x, x ∈ refs' ↔ x ∈ refs) : Sound env workflowId refs' r' := by
  obtain ⟨rep, hrep, hvalid, hrephash⟩ := h.report
  obtain ⟨p, deps, hp, hp_refs⟩ := h.plan
  refine ⟨?_, hstatus.trans h.status, ⟨rep, hreport.trans hrep, hvalid, ?_⟩, p, deps, ?_,
    fun x => (hrefs x).trans (hp_refs x)⟩
  · rw [hcontent, hhash]
    exact h.hash
  · rw [hhash]
    exact hrephash
  · rw [hcontent]
    exact hp

/-! ### The effect of a transaction -/

/-- What a transaction does to the rows when it ends. -/
inductive Effect (w : World) (tx : Tx) : World → Prop
  | same : Effect w tx w
  | created {r : WorkflowVersion} {versions : Table WorkflowVersion.id} (hdraft : r.status = .draft)
      (h : w.versions.insert? r = some versions) : Effect w tx { w with versions := versions }
  | rewritten {r r' : WorkflowVersion} {refs : Table ToolRef.key} (hr : tx.version = some r)
      (hdraft : r.status = .draft) (hid : r'.id = r.id) (hdraft' : r'.status = .draft)
      (hrefs : ∀ x : ToolRef, x.versionId ≠ r.id → (x ∈ refs ↔ x ∈ w.toolRefs)) :
      Effect w tx { w with versions := w.versions.put r', toolRefs := refs }
  | published {r : WorkflowVersion} {versions : Table WorkflowVersion.id} {n : ℕ}
      (hworkflow : tx.workflow.isSome) (hr : tx.version = some r) (hready : tx.ready = true)
      (hprevious : (w.workflow.currentVersionId = none ∧ versions = w.versions) ∨
        ∃ p, tx.previous = some p ∧ versions = w.versions.put { p with status := .deprecated }) :
      Effect w tx { w with
        versions := versions.put { r with status := .published }
        workflow := ⟨some r.id, n⟩ }

theorem updateVersion_of_mem {f : WorkflowVersion → WorkflowVersion} (h : r ∈ w.versions) :
    w.updateVersion r.id f = { w with versions := w.versions.put (f r) } := by
  unfold updateVersion
  rw [Table.find?_key_of_mem h]

theorem mem_clearRefs_of_ne {id : UUID} {x : ToolRef} (hx : x.versionId ≠ id) :
    x ∈ (w.clearRefs id).toolRefs ↔ x ∈ w.toolRefs := by
  simp [clearRefs, hx]

theorem mem_insertRefs_of_ne {id : UUID} {items : List (String × UUID)}
    {refs refs' : Table ToolRef.key} (h : insertRefs id items refs = some refs') {x : ToolRef}
    (hx : x.versionId ≠ id) : x ∈ refs' ↔ x ∈ refs := by
  induction items generalizing refs with
  | nil =>
    cases h
    rfl
  | cons item items ih =>
    rw [insertRefs] at h
    split at h
    · cases h
    obtain ⟨refs₁, hinsert, hrest⟩ := Option.bind_eq_some_iff.mp h
    rw [ih hrest, Table.mem_of_insert? hinsert]
    refine or_iff_left ?_
    rintro rfl
    exact hx rfl

theorem effect_invalidate (hr : r ∈ w.versions) (htx : tx.version = some r)
    (hdraft : r.status = .draft) {hash : String} {report : Option ValidationReport} :
    Effect w tx (w.invalidate r.id hash report) := by
  unfold invalidate
  rw [updateVersion_of_mem hr]
  exact .rewritten htx hdraft rfl hdraft fun x hx => mem_clearRefs_of_ne hx

theorem effect_create {newId : UUID} {data : WorkflowVersionCreate}
    {source : Option WorkflowVersion} : Effect w tx (w.create env newId data source) := by
  unfold create
  cases h : (newContent data source).bind fun c => (c.hash env).bind fun hash =>
      (w.versions.insert? ⟨newId, w.nextVersionNo, .draft, c.stored env, .invalid, none, hash⟩).map
        fun versions => { w with versions := versions } with
  | none => exact .same
  | some w₁ =>
    obtain ⟨c, -, h⟩ := Option.bind_eq_some_iff.mp h
    obtain ⟨hash, -, h⟩ := Option.bind_eq_some_iff.mp h
    obtain ⟨versions, hinsert, rfl⟩ := Option.map_eq_some_iff.mp h
    exact .created rfl hinsert

theorem effect_putPlan {plan : Json.Value} (hr : r ∈ w.versions) (htx : tx.version = some r) :
    Effect w tx (w.putPlan env r plan) := by
  unfold putPlan
  split
  · exact .same
  next hdraft =>
  split
  · exact .same
  · rw [updateVersion_of_mem hr]
    rw [ne_eq, not_not] at hdraft
    exact .rewritten htx hdraft rfl hdraft fun x hx => mem_clearRefs_of_ne hx

theorem effect_validate {deps : Dependencies} (hr : r ∈ w.versions) (htx : tx.version = some r) :
    Effect w tx (w.validate env workflowId r deps) := by
  unfold validate
  split
  · exact .same
  next hdraft =>
  rw [ne_eq, not_not] at hdraft
  split
  · exact effect_invalidate hr htx hdraft
  split
  · exact effect_invalidate hr htx hdraft
  split
  · exact .same
  next refs hinsert =>
  rw [updateVersion_of_mem hr]
  refine .rewritten htx hdraft rfl hdraft fun x hx => ?_
  rw [mem_insertRefs_of_ne hinsert hx, mem_clearRefs_of_ne hx]

theorem effect_publishRefusal {deps : Dependencies} (hr : r ∈ w.versions)
    (htx : tx.version = some r) (hdraft : r.status = .draft)
    (h : w.publishRefusal env workflowId r deps = some w') : Effect w tx w' := by
  unfold publishRefusal at h
  split at h
  · cases h
    exact effect_invalidate hr htx hdraft
  · simp only at h
    split at h
    · cases h
      exact effect_invalidate hr htx hdraft
    split at h
    · cases h
      exact effect_invalidate hr htx hdraft
    split at h
    · cases h
      exact effect_invalidate hr htx hdraft
    split at h
    · cases h
      exact effect_invalidate hr htx hdraft
    · cases h

/-- A version that passes `_assert_publish_ready` is what its last validation saw. -/
theorem sound_of_publishRefusal {deps : Dependencies}
    (h : w.publishRefusal env workflowId r deps = none) : Sound env workflowId (w.refsOf r.id) r := by
  unfold publishRefusal at h
  split at h
  · cases h
  next hash hhash =>
  rcases hbuild : buildValidation env workflowId deps r.content hash with ⟨valid, report, items⟩
  simp only [hbuild] at h
  split at h
  · cases h
  next heq =>
  rw [ne_eq, not_not] at heq
  subst heq
  split at h
  · cases h
  next hreport =>
  split at h
  · cases h
  next hvalid =>
  split at h
  · cases h
  next hrefs =>
  rw [Bool.not_eq_false] at hvalid
  subst hvalid
  simp only [ne_eq, not_or, not_not, Option.any_eq_true, decide_eq_true_eq] at hreport
  obtain ⟨hstatus, rep, hrep, hrepvalid, hrephash⟩ := hreport
  obtain ⟨p, hp, rfl, -, -⟩ := validated_of_buildValidation hbuild
  have hnodup := (Plan.accepted_of_validate hp.static).nodup
  refine ⟨hhash, hstatus, ⟨rep, hrep, hrepvalid, hrephash⟩, p, deps, hp, fun x => ?_⟩
  exact mem_iff_of_sameMap (nodup_refsOf w r.id) (nodup_toolProjection hnodup) (by simpa using hrefs)

/-- The end of a publication. -/
theorem Inv.effect_publish (h : Inv env workflowId w) (htx : tx ∈ w.txs)
    (hworkflow : tx.workflow = some w.workflow) (hr : tx.version = some r)
    (hready : tx.ready = true)
    (hcurrent : w.workflow.currentVersionId = none ∨ w.workflow.currentVersionId = some r.id ∨
      tx.previous.isSome = true) : Effect w tx (w.publish w.workflow r tx.previous) := by
  have hinv := h.tx tx htx
  have hmem := (hinv.version r hr).1
  obtain ⟨r', hr', hdraft, -⟩ := hinv.ready hready
  rw [hr] at hr'
  cases hr'
  unfold publish
  rw [if_pos rfl]
  cases hprevious : tx.previous with
  | none =>
    rw [updateVersion_of_mem hmem]
    refine .published (by simp [hworkflow]) hr hready (.inl ⟨?_, rfl⟩)
    rcases hcurrent with hnone | hself | hsome
    · exact hnone
    · rw [(h.current r hmem).mpr hself] at hdraft
      cases hdraft
    · simp [hprevious] at hsome
  | some p =>
    obtain ⟨hp, hpcurrent, -⟩ := hinv.previous p hprevious
    have hpublished := (h.current p hp).mpr hpcurrent
    have hne : r.id ≠ p.id := by
      intro hid
      rw [Table.eq_of_key_eq hmem hp hid, hpublished] at hdraft
      cases hdraft
    simp only [hpublished, if_true]
    have hput : r ∈ w.versions.put { p with status := .deprecated } :=
      Table.mem_put_of_ne hmem hne
    rw [updateVersion_of_mem hp,
      updateVersion_of_mem (w := { w with versions := w.versions.put _ }) hput]
    exact .published (by simp [hworkflow]) hr hready (.inr ⟨p, hprevious, rfl⟩)

/-- The rest of an operation has an effect on its own rows only. -/
theorem Inv.effect_commit (h : Inv env workflowId w) (htx : tx ∈ w.txs) {deps : Dependencies}
    (hcommit : w.commit env workflowId tx deps = some w') : Effect w tx w' := by
  have hinv := h.tx tx htx
  unfold commit at hcommit
  split at hcommit
  · split at hcommit
    · cases hcommit
    · cases hcommit
      exact effect_create
  · next hr =>
    cases hcommit
    exact effect_putPlan (hinv.version _ hr).1 hr
  · next hr =>
    cases hcommit
    exact effect_validate (hinv.version _ hr).1 hr
  · next seen r hop hworkflow hr =>
    split at hcommit
    · next hready =>
      cases hcommit
      obtain ⟨hready, hcurrent⟩ := hready
      have hseen := hinv.workflow seen hworkflow
      subst hseen
      exact h.effect_publish htx hworkflow hr hready hcurrent
    · cases hcommit
  · next seen r hop hworkflow hr =>
    cases hcommit
    unfold deprecateVersion
    split
    · next hpublished =>
      have hcurrent := (h.current r (hinv.version r hr).1).mp hpublished.1
      have hseen := hinv.workflow seen hworkflow
      subst hseen
      exact absurd hcurrent hpublished.2
    · exact .same
  · cases hcommit

/-! ### Keeping the invariant -/

theorem Effect.txs (h : Effect w tx w') : w'.txs = w.txs := by
  cases h <;> rfl

/-- The rows that a transaction has not locked are not touched. -/
theorem Effect.frame (he : Effect w tx w') (hr : r ∈ w.versions) (hfree : ¬tx.Holds r.id) :
    r ∈ w'.versions ∧ ∀ x, x ∈ w'.refsOf r.id ↔ x ∈ w.refsOf r.id := by
  cases he with
  | same => exact ⟨hr, fun x => Iff.rfl⟩
  | created hdraft hinsert =>
    exact ⟨(Table.mem_of_insert? hinsert).mpr (.inl hr), fun x => Iff.rfl⟩
  | @rewritten r₀ r' refs hr₀ hdraft hid hdraft' hrefs =>
    have hne : r.id ≠ r₀.id := fun hid' => hfree (.inl ⟨r₀, hr₀, hid'.symm⟩)
    refine ⟨Table.mem_put_of_ne hr (hid.symm ▸ hne), fun x => ?_⟩
    simp only [refsOf, List.mem_map, List.mem_filter, decide_eq_true_eq]
    refine exists_congr fun y => and_congr_left' (and_congr_left fun hy => ?_)
    exact hrefs y (hy.symm ▸ hne)
  | @published r₀ versions n hworkflow hr₀ hready hprevious =>
    have hne : r.id ≠ r₀.id := fun hid' => hfree (.inl ⟨r₀, hr₀, hid'.symm⟩)
    refine ⟨Table.mem_put_of_ne ?_ hne, fun x => Iff.rfl⟩
    rcases hprevious with ⟨-, rfl⟩ | ⟨p, hp, rfl⟩
    · exact hr
    · exact Table.mem_put_of_ne hr fun hid' => hfree (.inr ⟨p, hp, hid'.symm⟩)

/-- The other transactions keep what they have locked. -/
theorem Inv.txInv_effect (h : Inv env workflowId w) (htx : tx ∈ w.txs) (he : Effect w tx w')
    {tx' : Tx} (htx' : tx' ∈ w.txs) (hne : tx' ≠ tx) : TxInv env workflowId (w'.endTx tx) tx' := by
  have hinv := h.tx tx' htx'
  have hfree {id : UUID} (hholds : tx'.Holds id) : ¬tx.Holds id := fun hholds' =>
    hne (h.versionLock tx' htx' tx htx id hholds hholds')
  have hworkflow : tx'.workflow.isSome → (w'.endTx tx).workflow = w.workflow := by
    intro hsome
    cases he with
    | same | created | rewritten => rfl
    | published hsome' => exact absurd (h.workflowLock tx' htx' tx htx hsome hsome') hne
  refine ⟨fun seen hseen => ?_, fun r hr => ?_, fun p hp => ?_, fun hready => ?_⟩
  · rw [hworkflow (by simp [hseen])]
    exact hinv.workflow seen hseen
  · obtain ⟨hmem, htarget⟩ := hinv.version r hr
    exact ⟨(he.frame hmem (hfree (.inl ⟨r, hr, rfl⟩))).1, htarget⟩
  · obtain ⟨hmem, hcurrent, hsome⟩ := hinv.previous p hp
    refine ⟨(he.frame hmem (hfree (.inr ⟨p, hp, rfl⟩))).1, ?_, hsome⟩
    rw [hworkflow hsome]
    exact hcurrent
  · obtain ⟨r, hr, hdraft, hsound⟩ := hinv.ready hready
    have hrefs := (he.frame (hinv.version r hr).1 (hfree (.inl ⟨r, hr, rfl⟩))).2
    exact ⟨r, hr, hdraft, hsound.of_refs rfl rfl rfl rfl hrefs⟩

/-- What an effect makes of the versions: every one of them was there with the same content, or is a
draft; a version that is no draft stays so. -/
theorem Inv.version_effect (h : Inv env workflowId w) (htx : tx ∈ w.txs) (he : Effect w tx w') :
    ∀ r' ∈ w'.versions, r'.status = .draft ∨ ∃ r ∈ w.versions, r'.id = r.id ∧
      r'.content = r.content ∧ r'.contentHash = r.contentHash ∧
      r'.validationStatus = r.validationStatus ∧ r'.validationReport = r.validationReport ∧
      Sound env workflowId (w.refsOf r.id) r ∧ ∀ x, x ∈ w'.refsOf r.id ↔ x ∈ w.refsOf r.id := by
  intro r' hr'
  by_cases hdraft' : r'.status = .draft
  · exact .inl hdraft'
  refine .inr ?_
  cases he with
  | same => exact ⟨r', hr', rfl, rfl, rfl, rfl, rfl, h.sound r' hr' hdraft', fun x => Iff.rfl⟩
  | @created r₀ versions hdraft hinsert =>
    rcases (Table.mem_of_insert? hinsert).mp hr' with hr' | rfl
    · exact ⟨r', hr', rfl, rfl, rfl, rfl, rfl, h.sound r' hr' hdraft', fun x => Iff.rfl⟩
    · exact absurd hdraft hdraft'
  | @rewritten r₀ r₁ refs hr₀ hdraft hid hdraft₁ hrefs =>
    rcases Table.mem_put hr' with rfl | ⟨hr', hne⟩
    · exact absurd hdraft₁ hdraft'
    · refine ⟨r', hr', rfl, rfl, rfl, rfl, rfl, h.sound r' hr' hdraft', fun x => ?_⟩
      simp only [refsOf, List.mem_map, List.mem_filter, decide_eq_true_eq]
      refine exists_congr fun y => and_congr_left' (and_congr_left fun hy => ?_)
      exact hrefs y (hy.symm ▸ hid ▸ hne)
  | @published r₀ versions n hworkflow hr₀ hready hprevious =>
    have hinv := h.tx tx htx
    rcases Table.mem_put hr' with rfl | ⟨hr', hne⟩
    · obtain ⟨r₁, hr₁, hdraft, hsound⟩ := hinv.ready hready
      rw [hr₀] at hr₁
      cases hr₁
      exact ⟨r₀, (hinv.version r₀ hr₀).1, rfl, rfl, rfl, rfl, rfl, hsound, fun x => Iff.rfl⟩
    · rcases hprevious with ⟨-, rfl⟩ | ⟨p, hp, rfl⟩
      · exact ⟨r', hr', rfl, rfl, rfl, rfl, rfl, h.sound r' hr' hdraft', fun x => Iff.rfl⟩
      · obtain ⟨hpmem, hpcurrent, -⟩ := hinv.previous p hp
        rcases Table.mem_put hr' with rfl | ⟨hr', -⟩
        · have hsound := h.sound p hpmem (by
            rw [(h.current p hpmem).mpr hpcurrent]
            exact WorkflowVersionStatus.noConfusion)
          exact ⟨p, hpmem, rfl, rfl, rfl, rfl, rfl, hsound, fun x => Iff.rfl⟩
        · exact ⟨r', hr', rfl, rfl, rfl, rfl, rfl, h.sound r' hr' hdraft', fun x => Iff.rfl⟩

/-- The current version after an effect. -/
theorem Inv.current_effect (h : Inv env workflowId w) (htx : tx ∈ w.txs) (he : Effect w tx w') :
    (∀ r ∈ w'.versions, r.status = .published ↔ w'.workflow.currentVersionId = some r.id) ∧
      ∀ id, w'.workflow.currentVersionId = some id → ∃ r ∈ w'.versions, r.id = id := by
  cases he with
  | same => exact ⟨h.current, h.pointer⟩
  | @created r₀ versions hdraft hinsert =>
    refine ⟨fun r hr => ?_, fun id hid => ?_⟩
    · rcases (Table.mem_of_insert? hinsert).mp hr with hr | rfl
      · exact h.current r hr
      · refine iff_of_false (by simp [hdraft]) fun hcurrent => ?_
        obtain ⟨s, hs, hsid⟩ := h.pointer _ hcurrent
        exact Table.key_ne_of_insert? hinsert s hs hsid
    · obtain ⟨r, hr, hrid⟩ := h.pointer id hid
      exact ⟨r, (Table.mem_of_insert? hinsert).mpr (.inl hr), hrid⟩
  | @rewritten r₀ r₁ refs hr₀ hdraft hid hdraft₁ hrefs =>
    have hmem := ((h.tx tx htx).version r₀ hr₀).1
    refine ⟨fun r hr => ?_, fun id hcurrent => ?_⟩
    · rcases Table.mem_put hr with rfl | ⟨hr, -⟩
      · rw [hid, ← h.current r₀ hmem, hdraft, hdraft₁]
      · exact h.current r hr
    · obtain ⟨r, hr, hrid⟩ := h.pointer id hcurrent
      by_cases hk : r.id = r₁.id
      · exact ⟨r₁, Table.mem_put_self hr hk, hk.symm.trans hrid⟩
      · exact ⟨r, Table.mem_put_of_ne hr hk, hrid⟩
  | @published r₀ versions n hworkflow hr₀ hready hprevious =>
    have hinv := h.tx tx htx
    have hmem := (hinv.version r₀ hr₀).1
    obtain ⟨r₁, hr₁, hdraft, -⟩ := hinv.ready hready
    rw [hr₀] at hr₁
    cases hr₁
    -- No other version is PUBLISHED, and the draft is among the rows.
    have hversions : r₀ ∈ versions ∧ ∀ r ∈ versions, r.status ≠ .published := by
      rcases hprevious with ⟨hnone, rfl⟩ | ⟨p, hp, rfl⟩
      · refine ⟨hmem, fun r hr hpublished => ?_⟩
        rw [h.current r hr, hnone] at hpublished
        cases hpublished
      · obtain ⟨hpmem, hpcurrent, -⟩ := hinv.previous p hp
        have hne : r₀.id ≠ p.id := by
          intro hid
          have hpublished := (h.current r₀ hmem).mpr (hid ▸ hpcurrent)
          rw [hdraft] at hpublished
          cases hpublished
        refine ⟨Table.mem_put_of_ne hmem hne, fun r hr hpublished => ?_⟩
        rcases Table.mem_put hr with rfl | ⟨hr, hk⟩
        · cases hpublished
        · rw [h.current r hr, hpcurrent] at hpublished
          exact hk (Option.some.inj hpublished).symm
    obtain ⟨hdraftmem, hothers⟩ := hversions
    refine ⟨fun r hr => ?_, fun id hcurrent => ?_⟩
    · rcases Table.mem_put hr with rfl | ⟨hr, hk⟩
      · exact iff_of_true rfl rfl
      · exact iff_of_false (hothers r hr) fun hcurrent => hk (Option.some.inj hcurrent).symm
    · exact ⟨_, Table.mem_put_self hdraftmem rfl, Option.some.inj hcurrent⟩

/-- The end of a transaction keeps the invariant. -/
theorem Inv.effect (h : Inv env workflowId w) (htx : tx ∈ w.txs) (he : Effect w tx w') :
    Inv env workflowId (w'.endTx tx) := by
  have hmem {tx' : Tx} (htx' : tx' ∈ (w'.endTx tx).txs) : tx' ∈ w.txs ∧ tx' ≠ tx := by
    simp only [endTx, he.txs, Table.mem_erase] at htx'
    exact ⟨htx'.1, fun heq => htx'.2 (congrArg Tx.id heq)⟩
  obtain ⟨hcurrent, hpointer⟩ := h.current_effect htx he
  refine ⟨fun tx' htx' => ?_, fun t ht t' ht' => ?_, fun t ht t' ht' => ?_, fun r' hr' hne => ?_,
    hcurrent, hpointer⟩
  · exact h.txInv_effect htx he (hmem htx').1 (hmem htx').2
  · exact h.workflowLock t (hmem ht).1 t' (hmem ht').1
  · exact h.versionLock t (hmem ht).1 t' (hmem ht').1
  · rcases h.version_effect htx he r' hr' with hdraft | ⟨r, -, hid, hc, hh, hs, hrep, hsound, hrefs⟩
    · exact absurd hdraft hne
    · refine hsound.of_refs hc hh hs hrep fun x => ?_
      rw [hid]
      exact hrefs x

/-- A transaction that goes on keeps the invariant, when what it has locked is free. -/
theorem Inv.putTx (h : Inv env workflowId w) (tx : Tx) {tx' : Tx} (hid : tx'.id = tx.id)
    (hinv : TxInv env workflowId w tx')
    (hworkflow : tx'.workflow.isSome → ∀ t ∈ w.txs, t.workflow.isSome → t = tx)
    (hversion : ∀ id, tx'.Holds id → ∀ t ∈ w.txs, t.Holds id → t = tx) :
    Inv env workflowId (w.putTx tx') := by
  have hmem {t : Tx} (ht : t ∈ (w.putTx tx').txs) : t = tx' ∨ (t ∈ w.txs ∧ t ≠ tx) := by
    rcases Table.mem_put ht with rfl | ⟨ht, hne⟩
    · exact .inl rfl
    · exact .inr ⟨ht, fun heq => hne ((congrArg Tx.id heq).trans hid.symm)⟩
  refine ⟨fun t ht => ?_, fun t ht t' ht' hsome hsome' => ?_, fun t ht t' ht' id hh hh' => ?_,
    h.sound, h.current, h.pointer⟩
  · rcases hmem ht with rfl | ⟨ht, -⟩
    · exact ⟨hinv.workflow, hinv.version, hinv.previous, hinv.ready⟩
    · exact ⟨(h.tx t ht).workflow, (h.tx t ht).version, (h.tx t ht).previous, (h.tx t ht).ready⟩
  · rcases hmem ht with rfl | ⟨hold, hne⟩ <;> rcases hmem ht' with rfl | ⟨hold', hne'⟩
    · rfl
    · exact absurd (hworkflow hsome t' hold' hsome') hne'
    · exact absurd (hworkflow hsome' t hold hsome) hne
    · exact h.workflowLock t hold t' hold' hsome hsome'
  · rcases hmem ht with rfl | ⟨hold, hne⟩ <;> rcases hmem ht' with rfl | ⟨hold', hne'⟩
    · rfl
    · exact absurd (hversion id hh t' hold' hh') hne'
    · exact absurd (hversion id hh' t hold hh) hne
    · exact h.versionLock t hold t' hold' id hh hh'

theorem not_holds_of_versionLocked {id : UUID} (h : w.versionLocked id = false) :
    ∀ t ∈ w.txs, ¬t.Holds id := by
  intro t ht hholds
  have hfree := List.any_eq_false.mp h t ht
  rw [Bool.or_eq_true, not_or] at hfree
  rcases hholds with ⟨r, hr, hid⟩ | ⟨r, hr, hid⟩
  · exact hfree.1 (by simp [hr, hid])
  · exact hfree.2 (by simp [hr, hid])

theorem workflow_of_workflowLocked (h : w.workflowLocked = false) :
    ∀ t ∈ w.txs, ¬t.workflow.isSome := fun t ht => List.any_eq_false.mp h t ht

/-- A new transaction has locked nothing. -/
theorem Inv.begin (h : Inv env workflowId w) {id : ℕ} {op : Op} {txs : Table Tx.id}
    (hinsert : w.txs.insert? ⟨id, op, none, none, false, none⟩ = some txs) :
    Inv env workflowId { w with txs := txs } := by
  have hmem {t : Tx} := Table.mem_of_insert? (s := t) hinsert
  have hfree {t : Tx} (ht : t ∈ txs) (hheld : t.workflow.isSome ∨ ∃ id, t.Holds id) : t ∈ w.txs := by
    rcases hmem.mp ht with hold | rfl
    · exact hold
    · rcases hheld with hsome | ⟨id, ⟨r, hr, -⟩ | ⟨r, hr, -⟩⟩
      · cases hsome
      · cases hr
      · cases hr
  refine ⟨fun t ht => ?_, fun t ht t' ht' hsome hsome' => ?_, fun t ht t' ht' id hh hh' => ?_,
    h.sound, h.current, h.pointer⟩
  · rcases hmem.mp ht with hold | rfl
    · exact ⟨(h.tx t hold).workflow, (h.tx t hold).version, (h.tx t hold).previous,
        (h.tx t hold).ready⟩
    · exact ⟨fun seen hseen => (by cases hseen), fun r hr => (by cases hr),
        fun p hp => (by cases hp), fun hready => (by cases hready)⟩
  · exact h.workflowLock t (hfree ht (.inl hsome)) t' (hfree ht' (.inl hsome')) hsome hsome'
  · exact h.versionLock t (hfree ht (.inr ⟨id, hh⟩)) t' (hfree ht' (.inr ⟨id, hh'⟩)) id hh hh'

theorem Inv.lockVersion (h : Inv env workflowId w) (htx : tx ∈ w.txs) (hnone : tx.version = none)
    (htarget : tx.op.target = some r.id) (hr : r ∈ w.versions)
    (hfree : w.versionLocked r.id = false) :
    Inv env workflowId (w.putTx { tx with version := some r }) := by
  have hinv := h.tx tx htx
  refine h.putTx tx rfl ⟨hinv.workflow, fun r' hr' => ?_, hinv.previous, fun hready => ?_⟩ ?_ ?_
  · obtain rfl := Option.some.inj hr'
    exact ⟨hr, htarget⟩
  · obtain ⟨r', hr', -⟩ := hinv.ready hready
    rw [hnone] at hr'
    cases hr'
  · exact fun hsome t ht hsome' => h.workflowLock t ht tx htx hsome' hsome
  · rintro id (⟨r', hr', hid⟩ | hprevious) t ht hholds
    · obtain rfl := Option.some.inj hr'
      exact absurd (hid ▸ hholds) (not_holds_of_versionLocked hfree t ht)
    · exact h.versionLock t ht tx htx id hholds (.inr hprevious)

theorem Inv.lockPrevious (h : Inv env workflowId w) (htx : tx ∈ w.txs)
    (hworkflow : tx.workflow = some w.workflow) (hr : r ∈ w.versions)
    (hcurrent : w.workflow.currentVersionId = some r.id) (hfree : w.versionLocked r.id = false) :
    Inv env workflowId (w.putTx { tx with previous := some r }) := by
  have hinv := h.tx tx htx
  refine h.putTx tx rfl ⟨hinv.workflow, hinv.version, fun p hp => ?_, hinv.ready⟩ ?_ ?_
  · obtain rfl := Option.some.inj hp
    exact ⟨hr, hcurrent, by simp [hworkflow]⟩
  · exact fun hsome t ht hsome' => h.workflowLock t ht tx htx hsome' hsome
  · rintro id (hversion | ⟨r', hr', hid⟩) t ht hholds
    · exact h.versionLock t ht tx htx id hholds (.inl hversion)
    · obtain rfl := Option.some.inj hr'
      exact absurd (hid ▸ hholds) (not_holds_of_versionLocked hfree t ht)

/-- What a step does to the rows: nothing, the effect of a transaction that ends, or a new lock
version. -/
inductive RowStep (w : World) (a : Action) : World → Prop
  | same {w' : World} (hworkflow : w'.workflow = w.workflow) (hversions : w'.versions = w.versions)
      (htoolRefs : w'.toolRefs = w.toolRefs) : RowStep w a w'
  | ended {tx : Tx} {w₁ : World} (htx : tx ∈ w.txs) (ha : a.tx? = some tx.id)
      (he : Effect w tx w₁) : RowStep w a (w₁.endTx tx)
  | touched {n : ℕ} (ha : a.tx? = none) :
      RowStep w a { w with workflow := { w.workflow with lockVersion := n } }

/-- A step keeps the invariant, and what it does to the rows. -/
theorem Inv.step (h : Inv env workflowId w) {a : Action}
    (hstep : w.step env workflowId a = some w') : Inv env workflowId w' ∧ RowStep w a w' := by
  have hended {tx : Tx} {w₁ : World} (htx : tx ∈ w.txs) (ha : a.tx? = some tx.id)
      (he : Effect w tx w₁) : Inv env workflowId (w₁.endTx tx) ∧ RowStep w a (w₁.endTx tx) :=
    ⟨h.effect htx he, .ended htx ha he⟩
  cases a with
  | begin id op =>
    obtain ⟨txs, hinsert, rfl⟩ := Option.map_eq_some_iff.mp hstep
    exact ⟨h.begin hinsert, .same rfl rfl rfl⟩
  | lockWorkflow id =>
    obtain ⟨tx, hfind, hstep⟩ := Option.bind_eq_some_iff.mp hstep
    have htx := Table.mem_of_find? hfind
    split at hstep
    · next hfree =>
      cases hstep
      obtain ⟨-, hnone, hfree⟩ := hfree
      have hinv := h.tx tx htx
      refine ⟨h.putTx tx rfl ⟨?_, hinv.version, ?_, hinv.ready⟩ ?_ ?_, .same rfl rfl rfl⟩
      · intro seen hseen
        exact (Option.some.inj hseen).symm
      · intro p hp
        obtain ⟨hmem, hcurrent, -⟩ := hinv.previous p hp
        exact ⟨hmem, hcurrent, rfl⟩
      · intro _ t ht hsome
        exact absurd hsome (workflow_of_workflowLocked hfree t ht)
      · intro version hholds t ht hholds'
        exact h.versionLock t ht tx htx version hholds' hholds
    · cases hstep
  | lockVersion id =>
    obtain ⟨tx, hfind, hstep⟩ := Option.bind_eq_some_iff.mp hstep
    have htx := Table.mem_of_find? hfind
    have ha : some id = some tx.id := congrArg some (Table.key_of_find? hfind).symm
    split at hstep
    · cases hstep
    next target htarget =>
    split at hstep
    · next hfree =>
      obtain ⟨-, hnone, hfree⟩ := hfree
      split at hstep
      · cases hstep
        exact hended htx ha .same
      · next r hr =>
        cases hstep
        refine ⟨?_, .same rfl rfl rfl⟩
        obtain rfl := Table.key_of_find? hr
        exact h.lockVersion htx hnone htarget (Table.mem_of_find? hr) hfree
    · cases hstep
  | assertPublishReady id deps =>
    obtain ⟨tx, hfind, hstep⟩ := Option.bind_eq_some_iff.mp hstep
    have htx := Table.mem_of_find? hfind
    have ha : some id = some tx.id := congrArg some (Table.key_of_find? hfind).symm
    split at hstep
    · next seen r hop hworkflow hr =>
      split at hstep
      · cases hstep
      split at hstep
      · cases hstep
        exact hended htx ha .same
      next hdraft =>
      rw [ne_eq, not_not] at hdraft
      have hinv := h.tx tx htx
      have hmem := (hinv.version r hr).1
      split at hstep
      · next refused hrefused =>
        cases hstep
        exact hended htx ha (effect_publishRefusal hmem hr hdraft hrefused)
      · next hready =>
        cases hstep
        refine ⟨h.putTx tx rfl ⟨hinv.workflow, hinv.version, hinv.previous, fun _ => ?_⟩ ?_ ?_,
          .same rfl rfl rfl⟩
        · exact ⟨r, hr, hdraft, sound_of_publishRefusal hready⟩
        · exact fun hsome t ht hsome' => h.workflowLock t ht tx htx hsome' hsome
        · exact fun id hholds t ht hholds' => h.versionLock t ht tx htx id hholds' hholds
    · cases hstep
  | lockPrevious id =>
    obtain ⟨tx, hfind, hstep⟩ := Option.bind_eq_some_iff.mp hstep
    have htx := Table.mem_of_find? hfind
    split at hstep
    · next seen r hworkflow hr =>
      split at hstep
      · obtain ⟨previousId, hprevious, hstep⟩ := Option.bind_eq_some_iff.mp hstep
        split at hstep
        · cases hstep
        next hfree =>
        obtain ⟨p, hp, rfl⟩ := Option.map_eq_some_iff.mp hstep
        refine ⟨?_, .same rfl rfl rfl⟩
        obtain rfl := Table.key_of_find? hp
        have hseen := (h.tx tx htx).workflow seen hworkflow
        subst hseen
        exact h.lockPrevious htx hworkflow (Table.mem_of_find? hp) hprevious
          (by simpa using hfree)
      · cases hstep
    · cases hstep
  | finish id deps =>
    obtain ⟨tx, hfind, hstep⟩ := Option.bind_eq_some_iff.mp hstep
    obtain ⟨w₁, hcommit, rfl⟩ := Option.map_eq_some_iff.mp hstep
    have htx := Table.mem_of_find? hfind
    exact hended htx (congrArg some (Table.key_of_find? hfind).symm) (h.effect_commit htx hcommit)
  | rollback id =>
    obtain ⟨tx, hfind, rfl⟩ := Option.map_eq_some_iff.mp hstep
    exact hended (Table.mem_of_find? hfind) (congrArg some (Table.key_of_find? hfind).symm) .same
  | updateWorkflow =>
    simp only [World.step] at hstep
    split at hstep
    · cases hstep
    next hfree =>
    cases hstep
    rw [Bool.not_eq_true] at hfree
    refine ⟨⟨fun tx htx => ?_, h.workflowLock, h.versionLock, fun r hr hne => ?_, h.current,
      h.pointer⟩, .touched rfl⟩
    · have hinv := h.tx tx htx
      exact ⟨fun seen hseen => absurd (by simp [hseen]) (workflow_of_workflowLocked hfree tx htx),
        hinv.version, hinv.previous, hinv.ready⟩
    · exact h.sound r hr hne

/-! ### The laws -/

/-- The laws of a state. -/
structure StateLaws (env : Platform) (workflowId : UUID) (w : World) : Prop where
  /-- A PUBLISHED version is the current one, so there is at most one. -/
  published : ∀ r ∈ w.versions, r.status = .published → w.workflow.currentVersionId = some r.id
  unique : ∀ r ∈ w.versions, ∀ s ∈ w.versions, r.status = .published → s.status = .published → r = s
  /-- The current version is PUBLISHED. -/
  current : ∀ id, w.workflow.currentVersionId = some id →
    ∃ r ∈ w.versions, r.id = id ∧ r.status = .published
  /-- A PUBLISHED version has a valid report for its content and the tool references of its plan. -/
  sound : ∀ r ∈ w.versions, r.status = .published → Sound env workflowId (w.refsOf r.id) r

/-- Every version that is no draft stays as it is, but for its status. -/
def KeepsContent (w w' : World) : Prop :=
  ∀ r ∈ w.versions, r.status ≠ .draft → ∃ r' ∈ w'.versions, r'.id = r.id ∧ r'.status ≠ .draft ∧
    r'.content = r.content ∧ r'.contentHash = r.contentHash ∧
    ∀ x, x ∈ w'.refsOf r.id ↔ x ∈ w.refsOf r.id

/-- A step of a publication publishes its draft, or leaves the workflow and every status. -/
def RefusesCleanly (w : World) (a : Action) (w' : World) : Prop :=
  ∀ tx ∈ w.txs, ∀ id, tx.op = .publish id → a.tx? = some tx.id →
    ((∃ r ∈ w.versions, r.id = id ∧ r.status = .draft) ∧
      (∃ r ∈ w'.versions, r.id = id ∧ r.status = .published) ∧
      w'.workflow.currentVersionId = some id) ∨
    (w'.workflow = w.workflow ∧
      ∀ r ∈ w.versions, ∃ r' ∈ w'.versions, r'.id = r.id ∧ r'.status = r.status)

theorem Inv.stateLaws (h : Inv env workflowId w) : StateLaws env workflowId w where
  published r hr hpublished := (h.current r hr).mp hpublished
  unique r hr s hs hr' hs' := by
    have hid : some r.id = some s.id := ((h.current r hr).mp hr').symm.trans ((h.current s hs).mp hs')
    exact Table.eq_of_key_eq hr hs (Option.some.inj hid)
  current id hid := by
    obtain ⟨r, hr, hrid⟩ := h.pointer id hid
    exact ⟨r, hr, hrid, (h.current r hr).mpr (hrid ▸ hid)⟩
  sound r hr hpublished := h.sound r hr (by rw [hpublished]; exact WorkflowVersionStatus.noConfusion)

theorem keepsContent_refl (w : World) : KeepsContent w w :=
  fun r hr hne => ⟨r, hr, rfl, hne, rfl, rfl, fun _ => Iff.rfl⟩

theorem KeepsContent.trans {w₁ w₂ w₃ : World} (h : KeepsContent w₁ w₂) (h' : KeepsContent w₂ w₃) :
    KeepsContent w₁ w₃ := by
  intro r hr hne
  obtain ⟨r₂, hr₂, hid₂, hne₂, hcontent₂, hhash₂, hrefs₂⟩ := h r hr hne
  obtain ⟨r₃, hr₃, hid₃, hne₃, hcontent₃, hhash₃, hrefs₃⟩ := h' r₂ hr₂ hne₂
  refine ⟨r₃, hr₃, hid₃.trans hid₂, hne₃, hcontent₃.trans hcontent₂, hhash₃.trans hhash₂,
    fun x => ?_⟩
  rw [← hid₂, hrefs₃ x, hid₂, hrefs₂ x]

/-- The effect of a transaction on the versions that are no drafts. -/
theorem Inv.keepsContent_effect (h : Inv env workflowId w) (htx : tx ∈ w.txs)
    (he : Effect w tx w') : KeepsContent w w' := by
  intro r hr hne
  cases he with
  | same => exact keepsContent_refl w r hr hne
  | created hdraft hinsert =>
    exact ⟨r, (Table.mem_of_insert? hinsert).mpr (.inl hr), rfl, hne, rfl, rfl, fun x => Iff.rfl⟩
  | @rewritten r₀ r₁ refs hr₀ hdraft hid hdraft₁ hrefs =>
    have hmem := ((h.tx tx htx).version r₀ hr₀).1
    have hk : r.id ≠ r₀.id := fun hid' => hne (Table.eq_of_key_eq hr hmem hid' ▸ hdraft)
    refine ⟨r, Table.mem_put_of_ne hr (hid.symm ▸ hk), rfl, hne, rfl, rfl, fun x => ?_⟩
    simp only [refsOf, List.mem_map, List.mem_filter, decide_eq_true_eq]
    refine exists_congr fun y => and_congr_left' (and_congr_left fun hy => ?_)
    exact hrefs y (hy.symm ▸ hk)
  | @published r₀ versions n hworkflow hr₀ hready hprevious =>
    have hinv := h.tx tx htx
    have hmem := (hinv.version r₀ hr₀).1
    obtain ⟨r₁, hr₁, hdraft, -⟩ := hinv.ready hready
    rw [hr₀] at hr₁
    cases hr₁
    have hk : r.id ≠ r₀.id := fun hid' => hne (Table.eq_of_key_eq hr hmem hid' ▸ hdraft)
    rcases hprevious with ⟨-, rfl⟩ | ⟨p, hp, rfl⟩
    · exact ⟨r, Table.mem_put_of_ne hr hk, rfl, hne, rfl, rfl, fun x => Iff.rfl⟩
    · by_cases hrp : r.id = p.id
      · obtain rfl := Table.eq_of_key_eq hr (hinv.previous p hp).1 hrp
        exact ⟨_, Table.mem_put_of_ne (Table.mem_put_self hr rfl) hk, rfl,
          WorkflowVersionStatus.noConfusion, rfl, rfl, fun x => Iff.rfl⟩
      · exact ⟨r, Table.mem_put_of_ne (Table.mem_put_of_ne hr hrp) hk, rfl, hne, rfl, rfl,
          fun x => Iff.rfl⟩

theorem RowStep.keepsContent {a : Action} (h : Inv env workflowId w) (hrows : RowStep w a w') :
    KeepsContent w w' := by
  cases hrows with
  | same hworkflow hversions htoolRefs =>
    intro r hr hne
    refine ⟨r, hversions ▸ hr, rfl, hne, rfl, rfl, fun x => ?_⟩
    rw [refsOf, htoolRefs, refsOf]
  | ended htx ha he =>
    have hkept := h.keepsContent_effect htx he
    exact hkept
  | touched ha => exact keepsContent_refl w

theorem RowStep.refusesCleanly {a : Action} (h : Inv env workflowId w) (hrows : RowStep w a w') :
    RefusesCleanly w a w' := by
  intro tx htx id hop ha
  cases hrows with
  | same hworkflow hversions htoolRefs =>
    exact .inr ⟨hworkflow, fun r hr => ⟨r, hversions ▸ hr, rfl, rfl⟩⟩
  | touched hnone =>
    rw [hnone] at ha
    cases ha
  | @ended tx' w₁ htx' ha' he =>
    rw [ha, Option.some.injEq] at ha'
    obtain rfl := Table.eq_of_key_eq htx htx' ha'
    have hinv := h.tx tx htx
    cases he with
    | same => exact .inr ⟨rfl, fun r hr => ⟨r, hr, rfl, rfl⟩⟩
    | created hdraft hinsert =>
      exact .inr ⟨rfl, fun r hr => ⟨r, (Table.mem_of_insert? hinsert).mpr (.inl hr), rfl, rfl⟩⟩
    | @rewritten r₀ r₁ refs hr₀ hdraft hid hdraft₁ hrefs =>
      have hmem := (hinv.version r₀ hr₀).1
      refine .inr ⟨rfl, fun r hr => ?_⟩
      by_cases hk : r.id = r₁.id
      · obtain rfl := Table.eq_of_key_eq hr hmem (hk.trans hid)
        exact ⟨r₁, Table.mem_put_self hr hk, hid, hdraft₁.trans hdraft.symm⟩
      · exact ⟨r, Table.mem_put_of_ne hr hk, rfl, rfl⟩
    | @published r₀ versions n hworkflow hr₀ hready hprevious =>
      obtain ⟨hmem, htarget⟩ := hinv.version r₀ hr₀
      rw [hop] at htarget
      obtain rfl := Option.some.inj htarget
      obtain ⟨r₁, hr₁, hdraft, -⟩ := hinv.ready hready
      rw [hr₀] at hr₁
      cases hr₁
      obtain ⟨hcurrent, hpointer⟩ :=
        h.current_effect htx (.published (n := n) hworkflow hr₀ hready hprevious)
      obtain ⟨r, hr, hrid⟩ := hpointer r₀.id rfl
      refine .inl ⟨⟨r₀, hmem, rfl, hdraft⟩, ⟨r, hr, hrid, ?_⟩, rfl⟩
      exact (hcurrent r hr).mpr (congrArg some hrid.symm)

/-- A run keeps the invariant and the content of every version that is no draft. -/
theorem Inv.run (h : Inv env workflowId w) {as : List Action}
    (has : Runs.run (World.step env workflowId) w as = some w') :
    Inv env workflowId w' ∧ KeepsContent w w' := by
  induction as generalizing w with
  | nil =>
    cases has
    exact ⟨h, keepsContent_refl _⟩
  | cons a as ih =>
    obtain ⟨w₁, hstep, hrest⟩ := Runs.run_cons_eq_some.mp has
    obtain ⟨hw₁, hrows⟩ := h.step hstep
    obtain ⟨hw', hkept⟩ := ih hw₁ hrest
    exact ⟨hw', (hrows.keepsContent h).trans hkept⟩

/-- **The lifecycle.** After every run the laws of a state hold, a continued run keeps the content,
the content hash and the tool references of every version that is no draft, and a step of a
publication that does not publish changes neither the current version nor a status. -/
theorem lifecycle {env : Platform} {workflowId : UUID} {w₀ w w' : World} (hinit : w₀.Initial)
    {as bs : List Action} (has : Runs.run (World.step env workflowId) w₀ as = some w)
    (hbs : Runs.run (World.step env workflowId) w bs = some w') :
    StateLaws env workflowId w ∧ KeepsContent w w' ∧
      ∀ a w₁, w.step env workflowId a = some w₁ → RefusesCleanly w a w₁ := by
  have hinv := (hinit.inv.run has).1
  exact ⟨hinv.stateLaws, (hinv.run hbs).2,
    fun a w₁ hstep => (hinv.step hstep).2.refusesCleanly hinv⟩

/-! ### A published version -/

/-- A validation library that reads the canonical spellings. -/
def canonicalPydantic : Pydantic where
  int
    | .int i => some i
    | .bool b => some (if b then 1 else 0)
    | _ => none
  bool
    | .bool b => some b
    | _ => none
  uuid j := j.str?.bind UUID.parse?
  namesPredicate _ := false

/-- A platform whose columns keep a value and whose hash is one digest. -/
def examplePlatform : Platform where
  pydantic := canonicalPydantic
  hash _ := some "9f86d081884c7d659a2feaa0c55ad015a3bf4f1b2b0b822cd15d6c15b0f00a08"
  column := id

/-- A plan document with one TOOL step; `extra` are further members of the step. -/
def oneToolDocument (inputType : String) (extra : List (String × Json.Value)) : Json.Value :=
  .obj [("schema_version", .str "1.0"), ("goal", .str "report"),
    ("source", .obj [("type", .str "WORKFLOW"),
      ("workflow_id", .str (UUID.toString (.ofNat 7)))]),
    ("inputs", .obj [("city", .obj [("type", .str inputType), ("required", .bool true),
      ("secret", .bool false)])]),
    ("limits", .obj [("max_steps", .int 20), ("max_duration_seconds", .int 300),
      ("max_parallelism", .int 4), ("max_loop_iterations", .int 50)]),
    ("steps", .arr [.obj ([("id", .str "fetch"), ("name", .str "Fetch"), ("type", .str "TOOL"),
      ("required", .bool true), ("depends_on", .arr []), ("timeout_seconds", .int 30),
      ("on_error", .str "FAIL_EXECUTION"),
      ("config", .obj [("tool_version_id", .str (UUID.toString (.ofNat 8))), ("bindings",
        .obj [("city", .obj [("kind", .str "PLAN_INPUT"), ("path", .str "/city")])])])] ++
      extra)]),
    ("completion", .obj [("success_policy", .str "ALL_REQUIRED"),
      ("response_step_ids", .arr [.str "fetch"])])]

/-- Every tool version is VALID and every approval policy ACTIVE. -/
def goodDependencies : Dependencies := ⟨fun _ => some true, fun _ => some true⟩

/-- A workflow without versions. -/
def newWorkflow : World := ⟨⟨none, 1⟩, .empty, .empty, .empty⟩

/-- A version is created, and validated while its publication waits for the lock. -/
def publishedRun (plan : Json.Value) : List Action :=
  [.begin 0 (.create (.ofNat 1) ⟨some plan, none, none, none, none, none⟩),
    .lockWorkflow 0, .finish 0 goodDependencies,
    .begin 1 (.validate (.ofNat 1)), .begin 2 (.publish (.ofNat 1)), .lockVersion 1,
    .lockWorkflow 2, .finish 1 goodDependencies, .lockVersion 2,
    .assertPublishReady 2 goodDependencies, .finish 2 goodDependencies]

theorem publishedRun_lifecycle : ∃ w w',
    Runs.run (World.step examplePlatform ⟨7, by decide⟩) newWorkflow
      (publishedRun (oneToolDocument "string" [("when", .null)])) = some w ∧
    Runs.run (World.step examplePlatform ⟨7, by decide⟩) w [.updateWorkflow] = some w' ∧
    w.versions.rows.map (·.status) = [.published] ∧
    StateLaws examplePlatform ⟨7, by decide⟩ w ∧ KeepsContent w w' ∧
    ∀ a w₁, w.step examplePlatform ⟨7, by decide⟩ a = some w₁ → RefusesCleanly w a w₁ := by
  have hrun : (Runs.run (World.step examplePlatform ⟨7, by decide⟩) newWorkflow
      (publishedRun (oneToolDocument "string" [("when", .null)]))).any (fun w =>
        w.versions.rows.map (·.status) = [.published] ∧
          (Runs.run (World.step examplePlatform ⟨7, by decide⟩) w [.updateWorkflow]).isSome) =
        true := by
    decide +kernel
  obtain ⟨w, hw, hrest⟩ := (Option.any_eq_true _ _).mp hrun
  obtain ⟨hstatus, hnext⟩ := of_decide_eq_true hrest
  obtain ⟨w', hw'⟩ := Option.isSome_iff_exists.mp hnext
  exact ⟨w, w', hw, hw', hstatus, lifecycle ⟨rfl, rfl, rfl, rfl⟩ hw hw'⟩

end World

end McpFlow.Workflow
