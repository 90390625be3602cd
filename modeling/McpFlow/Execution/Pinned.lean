import McpFlow.Execution.Budget

/-!
# What a run leaves as it was created

An Execution keeps what its creation fixed, and so does every Step row: its key, its type, its tool
version, its parent, its iteration and the snapshot of its plan step. No row is taken away, and the
only rows that are added are the iterations of a LOOP of the plan.
-/

namespace McpFlow

/-- The row of an iteration of a top-level LOOP. -/
def Db.IterationRow (db : Db) (t : ExecutionStep) : Prop :=
  ∃ loop ∈ db.steps, loop.stepType = .loop ∧ loop.parentStepId = none ∧
    t.parentStepId = some loop.id ∧
      ∃ iterationNo, t.iterationNo = some iterationNo ∧ 0 < iterationNo

/-- The Execution and its Step rows are those of before, with more iterations. -/
structure Db.Extends (db db' : Db) : Prop where
  origin : db'.execution.origin = db.execution.origin
  kept : ∀ s ∈ db.steps, ∃ t ∈ db'.steps, SameStep s t
  added : ∀ t ∈ db'.steps, (∃ s ∈ db.steps, SameStep s t) ∨ db'.IterationRow t

namespace Db.Extends

variable {db db' db'' : Db} {env : RuntimeEnv}

theorem refl (db : Db) : db.Extends db where
  origin := rfl
  kept s hs := ⟨s, hs, .refl s⟩
  added t ht := .inl ⟨t, ht, .refl t⟩

/-- An iteration stays one when its LOOP and its row are written. -/
private theorem iterationRow (h : db.Extends db') {s t : ExecutionStep} (hsame : SameStep s t)
    (hrow : db.IterationRow s) : db'.IterationRow t := by
  obtain ⟨loop, hloop, htype, hparent, hchild, iterationNo, hno, hpos⟩ := hrow
  obtain ⟨loop', hloop', hsame'⟩ := h.kept loop hloop
  refine ⟨loop', hloop', hsame'.stepType.trans htype,
    (congrArg StepOrigin.parentStepId hsame').trans hparent, ?_, iterationNo,
    (congrArg StepOrigin.iterationNo hsame).trans hno, hpos⟩
  rw [hsame'.id]
  exact (congrArg StepOrigin.parentStepId hsame).trans hchild

theorem trans (h : db.Extends db') (h' : db'.Extends db'') : db.Extends db'' where
  origin := h'.origin.trans h.origin
  kept s hs := by
    obtain ⟨t, ht, hsame⟩ := h.kept s hs
    obtain ⟨u, hu, hsame'⟩ := h'.kept t ht
    exact ⟨u, hu, hsame.trans hsame'⟩
  added u hu := by
    rcases h'.added u hu with ⟨t, ht, hsame'⟩ | hrow
    · rcases h.added t ht with ⟨s, hs, hsame⟩ | hrow
      · exact .inl ⟨s, hs, hsame.trans hsame'⟩
      · exact .inr (h'.iterationRow hsame' hrow)
    · exact .inr hrow

/-- Rows that are rewritten one by one, with the same fixed part. -/
private theorem of_map {f : ExecutionStep → ExecutionStep} (hf : ∀ s, SameStep s (f s))
    (horigin : db'.execution.origin = db.execution.origin)
    (hrows : db'.steps.rows = db.steps.rows.map f) : db.Extends db' where
  origin := horigin
  kept s hs := by
    refine ⟨f s, ?_, hf s⟩
    rw [Table.mem_def, hrows]
    exact List.mem_map_of_mem hs
  added t ht := by
    rw [Table.mem_def, hrows] at ht
    obtain ⟨s, hs, rfl⟩ := List.mem_map.mp ht
    exact .inl ⟨s, hs, hf s⟩

theorem putStep {s s' : ExecutionStep} (hs : s ∈ db.steps) (hsame : SameStep s s') :
    db.Extends (db.putStep s') where
  origin := rfl
  kept t ht := by
    by_cases hid : t.id = s'.id
    · obtain rfl := Table.eq_of_key_eq ht hs (hid.trans hsame.id)
      exact ⟨s', Table.mem_put_self hs hid, hsame⟩
    · exact ⟨t, Table.mem_put_of_ne ht hid, .refl t⟩
  added t ht := by
    rcases Table.mem_put ht with rfl | ⟨ht, -⟩
    · exact .inl ⟨s, hs, hsame⟩
    · exact .inl ⟨t, ht, .refl t⟩

/-- The rows of an iteration are added below their LOOP. -/
private theorem materialized {loop : ExecutionStep} {bodyIds : List String} {iterationNo : ℕ}
    (hloop : loop ∈ db.steps) (htype : loop.stepType = .loop) (hparent : loop.parentStepId = none)
    (hpos : 0 < iterationNo)
    (h : bodyIds.foldlM (materializeBody env loop iterationNo) db = .ok db') : db.Extends db' := by
  obtain ⟨rows, steps, rfl, hrows, -, hall⟩ := foldlM_materializeBody_ok h
  have hold {s : ExecutionStep} (hs : s ∈ db.steps) : s ∈ steps := by
    rw [Table.mem_def, hrows]
    exact List.mem_append_left _ hs
  refine ⟨rfl, fun s hs => ⟨s, hold hs, .refl s⟩, fun t ht => ?_⟩
  rw [Table.mem_def, hrows] at ht
  rcases List.mem_append.mp ht with ht | ht
  · exact .inl ⟨t, ht, .refl t⟩
  · have hbody := hall t ht
    exact .inr ⟨loop, hold hloop, htype, hparent, hbody.parentStepId, iterationNo,
      hbody.iterationNo, hpos⟩

/-- A write of the local reconcile. -/
theorem localStep (h : LocalStep env db db') : db.Extends db' := by
  have hpositive {iterationNo m : ℕ} (hnext : iterationNo = 1 ∨ iterationNo = m + 1) :
      0 < iterationNo := by omega
  cases h with
  | close hs h => exact putStep hs h.same
  | gate hs => exact putStep hs rfl
  | startForEach hs _ _ h => exact putStep hs h.same
  | startWhile hs _ _ h => exact putStep hs h.same
  | whileGate hs _ _ h => exact putStep hs h.same
  | materialize hloop htype _ hparent _ _ hnext _ _ _ h =>
    exact materialized hloop htype hparent (hpositive hnext) h
  | @advanceWhile s loop _ _ _ _ _ _ hs _ hparent h _ _ _ _ _ _ hnext _ _ _ _ hbody =>
    have hput : db.Extends (db.putStep loop) := putStep hs h.same
    refine hput.trans (materialized ?_ ?_ ?_ (hpositive hnext) hbody)
    · exact Table.mem_put_self hs h.same.id.symm
    · exact h.same.stepType.trans h.stepType
    · exact (congrArg StepOrigin.parentStepId h.same).trans hparent

theorem localSteps (h : LocalSteps env db db') : db.Extends db' := by
  induction h with
  | refl => exact .refl db
  | tail _ hstep ih => exact ih.trans (.localStep hstep)

theorem moves (h : db.Moves db') : db.Extends db' where
  origin := h.origin
  kept s hs := by
    obtain ⟨t, ht, hmoves⟩ := h.steps.exists_mem hs
    exact ⟨t, ht, hmoves.sameStep⟩
  added t ht := by
    obtain ⟨s, hs, hmoves⟩ := h.steps.exists_of_mem ht
    exact .inl ⟨s, hs, hmoves.sameStep⟩

theorem applyClaim (claim : ClaimEnv) (dag : ToolJoinDag) (now : Time) (db : Db) :
    db.Extends (McpFlow.applyClaim claim dag now db) := by
  refine of_map (fun s => ?_) (origin_applyClaim claim dag now db)
    (steps_applyClaim claim dag now db)
  split <;> rfl

theorem reserveToolWave (dag : ToolJoinDag) (singleTool : Bool) (now : Time) (db : Db) :
    db.Extends (McpFlow.reserveToolWave dag singleTool now db).2 := by
  refine of_map (fun s => ?_) (origin_reserveToolWave dag singleTool now db)
    (steps_reserveToolWave dag singleTool now db)
  split <;> rfl

end Db.Extends

namespace World

variable {digest : TemplateDigest} {w v v' : World}

/-- Every step of a sound world extends its rows. -/
theorem extends_of_step {a : Action} (h : v.Sound) (hstep : v.step digest a = some v') :
    v.db.Extends v'.db := by
  have hby := h.stepsBy hstep
  generalize v'.db = db' at hby
  cases hby with
  | moves hmoves => exact .moves hmoves
  | claimed => exact .applyClaim _ _ _ _
  | reconciled _ hlocal hmoves => exact (Db.Extends.localSteps hlocal).trans (.moves hmoves)
  | reserved singleTool _ _ _ hlocal =>
    exact (Db.Extends.localSteps hlocal).trans (.reserveToolWave _ _ _ _)

/-- From any reachable state on, the Execution and its Step rows keep what their creation fixed, no
row is taken away, and only iterations of a top-level LOOP are added. -/
theorem extends_run {pre as : List Action} (hinit : w.Initial)
    (hpre : Runs.run (World.step digest) w pre = some v)
    (hrun : Runs.run (World.step digest) v as = some v') : v.db.Extends v'.db := by
  have hsound : v.Sound := (World.Sound.of_initial hinit).run hpre
  have hstep (u : World) (a : Action) (u' : World) (hu : u.Sound ∧ v.db.Extends u.db)
      (hu' : u.step digest a = some u') : u'.Sound ∧ v.db.Extends u'.db :=
    ⟨hu.1.step hu', hu.2.trans (extends_of_step hu.1 hu')⟩
  exact (Runs.run_invariant hstep ⟨hsound, .refl _⟩ hrun).2

/-- Both LOOPs of the sample plan start, and their first iterations are added. -/
theorem extends_twoLoopWorld : ∃ v v',
    Runs.run (World.step sampleDigest) twoLoopWorld ((twoLoopActions true).take 1) = some v ∧
      Runs.run (World.step sampleDigest) v ((twoLoopActions true).drop 1) = some v' ∧
      v'.db.steps.rows.length = v.db.steps.rows.length + 2 ∧ v.db.Extends v'.db := by
  have hbefore :
      (Runs.run (World.step sampleDigest) twoLoopWorld ((twoLoopActions true).take 1)).map
        (·.db.steps.rows.length) = some 2 := by
    decide +kernel
  have hafter : (Runs.run (World.step sampleDigest) twoLoopWorld (twoLoopActions true)).map
      (·.db.steps.rows.length) = some 4 := by
    decide +kernel
  obtain ⟨v, hv, hlength⟩ := Option.map_eq_some_iff.mp hbefore
  obtain ⟨v', hv', hlength'⟩ := Option.map_eq_some_iff.mp hafter
  rw [← List.take_append_drop 1 (twoLoopActions true), Runs.run_append, hv, Option.bind_some] at hv'
  exact ⟨v, v', hv, hv', by rw [hlength', hlength],
    extends_run (queuedWorld_initial (by decide)) hv hv'⟩

end World

end McpFlow
