import Mathlib.Algebra.Group.Action.Defs
import McpFlow.Execution.Budget
import McpFlow.Execution.LocalStep

/-!
# The passes of the local reconcile

A pass that changes something uses up work: a Step ends, a LOOP starts, or an iteration takes rows
from the budget of the plan. A pass that changes nothing has found every local transition disabled,
except the promotion of TOOLs, which belongs to the reservation of a wave. The bound of the passes
counts the rows at entry, so it is enough when the plan cannot grow far beyond them.
-/

namespace McpFlow

/-! ### Work -/

/-- A top-level LOOP that has not ended. -/
def ExecutionStep.isOpenLoop (s : ExecutionStep) : Bool :=
  s.stepType == .loop && s.parentStepId.isNone && (s.status == .pending || s.status == .running)

/-- The local transitions that a row can still take: a LOOP starts before it ends. -/
def ExecutionStep.weight (s : ExecutionStep) : ℕ :=
  if s.status.isTerminal then 0
  else if s.status = .pending ∧ s.stepType = .loop ∧ s.parentStepId = none then 2
  else 1

/-- Some LOOP has not ended. -/
def Db.hasOpenLoop (db : Db) : Bool := db.steps.rows.any (·.isOpenLoop)

/-- The work that is left: the rows, and twice the rows that an open LOOP may still bring. -/
def Db.work (db : Db) : ℕ :=
  (db.steps.rows.map ExecutionStep.weight).sum +
    if db.hasOpenLoop then
      2 * (db.execution.planSnapshot.limits.maxSteps - db.steps.rows.length)
    else 0

variable {env : RuntimeEnv} {now : Time} {db db' db₁ : Db} {s s' : ExecutionStep}

theorem ExecutionStep.weight_of_isTerminal (h : s.status.isTerminal = true) : s.weight = 0 :=
  if_pos h

theorem ExecutionStep.weight_pos (h : s.status.isTerminal = false) : 0 < s.weight := by
  rw [weight, if_neg (by rw [h]; decide)]
  split <;> omega

theorem ExecutionStep.weight_le_two (s : ExecutionStep) : s.weight ≤ 2 := by
  rw [weight]
  split
  · omega
  · split <;> omega

theorem ExecutionStep.weight_of_running (h : s.status = .running) : s.weight = 1 := by
  rw [weight, h, if_neg (by decide), if_neg]
  rintro ⟨hpending, -⟩
  cases hpending

/-- A row that a LOOP materializes is one transition. -/
theorem BodyRow.weight_eq {loop : ExecutionStep} {n : ℕ} (h : BodyRow loop n s) : s.weight = 1 := by
  rw [ExecutionStep.weight, h.status, if_neg (by decide), if_neg]
  rintro ⟨-, -, hparent⟩
  rw [h.parentStepId] at hparent
  cases hparent

theorem BodyRow.isOpenLoop_eq {loop : ExecutionStep} {n : ℕ} (h : BodyRow loop n s) :
    s.isOpenLoop = false := by
  rw [ExecutionStep.isOpenLoop, h.parentStepId]
  simp

theorem ExecutionStep.LocallyOpen.not_isTerminal (h : s.LocallyOpen) :
    s.status.isTerminal = false := by
  rcases h with h | ⟨-, h⟩ | h | ⟨-, h⟩
  · rw [h]
    rfl
  · rw [h]
    rfl
  · simp only [isUnusedReadyTool, Bool.and_eq_true, beq_iff_eq] at h
    rw [h.1.1.2]
    rfl
  · rw [h]
    rfl

theorem ExecutionStep.isOpenLoop_of_isTerminal (h : s.status.isTerminal = true) :
    s.isOpenLoop = false := by
  rw [isOpenLoop]
  cases hs : s.status <;> rw [hs] at h <;> simp_all [StepStatus.isTerminal]

/-- One row is written over: the work changes by its weight at most. -/
theorem work_putStep_le (hs : s ∈ db.steps) (hid : s'.id = s.id)
    (hopen : s'.isOpenLoop = true → s.isOpenLoop = true) :
    (db.putStep s').work + s.weight ≤ db.work + s'.weight := by
  have hsum := Table.sum_map_put ExecutionStep.weight hs hid
  have hlength : (db.putStep s').steps.rows.length = db.steps.rows.length := List.length_map _
  have hany : (db.putStep s').hasOpenLoop = true → db.hasOpenLoop = true := by
    intro h
    obtain ⟨r, hr, hrow⟩ := List.any_eq_true.mp h
    rcases Table.mem_put hr with rfl | ⟨hr, -⟩
    · exact List.any_eq_true.mpr ⟨s, hs, hopen hrow⟩
    · exact List.any_eq_true.mpr ⟨r, hr, hrow⟩
  simp only [Db.work, hlength]
  have hsum' : ((db.putStep s').steps.rows.map ExecutionStep.weight).sum + s.weight =
      (db.steps.rows.map ExecutionStep.weight).sum + s'.weight := hsum
  have hexec : (db.putStep s').execution = db.execution := rfl
  rw [hexec]
  by_cases hafter : (db.putStep s').hasOpenLoop = true
  · rw [if_pos hafter, if_pos (hany hafter)]
    omega
  · rw [if_neg hafter]
    omega

/-- The end of a row is work done. -/
theorem work_close (hs : s ∈ db.steps) (h : LocalClose s s') : (db.putStep s').work < db.work := by
  have hle := work_putStep_le hs h.same.id fun hopen => by
    rw [ExecutionStep.isOpenLoop_of_isTerminal h.terminal] at hopen
    cases hopen
  have hpos := ExecutionStep.weight_pos h.opened.not_isTerminal
  have hzero := ExecutionStep.weight_of_isTerminal h.terminal
  omega

theorem RunsLoop.isOpenLoop_iff (h : RunsLoop s s') (hparent : s.parentStepId = none) :
    s'.isOpenLoop = true := by
  rw [ExecutionStep.isOpenLoop, h.same.stepType, h.stepType, h.same.parentStepId, hparent, h.status]
  rfl

/-- The start of a LOOP is work done. -/
theorem work_start (hs : s ∈ db.steps) (h : RunsLoop s s') (hparent : s.parentStepId = none)
    (hpending : s.status = .pending) : (db.putStep s').work < db.work := by
  have hle := work_putStep_le hs h.same.id fun _ => by
    rw [ExecutionStep.isOpenLoop, h.stepType, hparent, hpending]
    rfl
  have hbefore : s.weight = 2 := by
    rw [ExecutionStep.weight, hpending, if_neg (by decide), if_pos ⟨rfl, h.stepType, hparent⟩]
  have hafter := ExecutionStep.weight_of_running h.status
  omega

/-- Evidence of a RUNNING LOOP is no work. -/
theorem work_renew (hs : s ∈ db.steps) (h : RunsLoop s s') (hparent : s.parentStepId = none)
    (hrunning : s.status = .running) : (db.putStep s').work ≤ db.work := by
  have hle := work_putStep_le hs h.same.id fun _ => by
    rw [ExecutionStep.isOpenLoop, h.stepType, hparent, hrunning]
    rfl
  have hbefore := ExecutionStep.weight_of_running hrunning
  have hafter := ExecutionStep.weight_of_running h.status
  omega

/-- An iteration takes twice its rows from the budget and gives its rows as work. -/
theorem work_materialize {loop : ExecutionStep} {cfg : LoopStepConfigV1} {n : ℕ}
    (hopen : db.hasOpenLoop = true)
    (hlimit : db.steps.rows.length + cfg.bodyStepIds.length ≤
      db.execution.planSnapshot.limits.maxSteps)
    (h : cfg.bodyStepIds.foldlM (materializeBody env loop n) db = .ok db') :
    db'.work < db.work := by
  obtain ⟨rows, steps, rfl, hrows, hlength, hbody⟩ := foldlM_materializeBody_ok h
  have hpos : 0 < rows.length := hlength ▸ List.length_pos_iff.mpr cfg.bodyStepIds_ne_nil
  have hsum : (rows.map ExecutionStep.weight).sum = rows.length := by
    rw [List.map_congr_left fun s hs => (hbody s hs).weight_eq, List.map_const', List.sum_replicate]
    simp
  simp only [Db.work]
  rw [if_pos hopen]
  have hafter : (if Db.hasOpenLoop { db with steps := steps } = true then
      2 * (db.execution.planSnapshot.limits.maxSteps - steps.rows.length) else 0) ≤
      2 * (db.execution.planSnapshot.limits.maxSteps - steps.rows.length) := by
    split <;> omega
  rw [hrows, List.length_append] at hafter
  simp only [hrows, List.map_append, List.sum_append, List.length_append, hsum]
  omega

/-- A local write never makes work. -/
theorem LocalStep.work_le (h : LocalStep env db db') : db'.work ≤ db.work := by
  have hopen : ∀ {r : ExecutionStep} {d : Db}, r ∈ d.steps → r.stepType = .loop →
      r.parentStepId = none → r.status = .running → d.hasOpenLoop = true := by
    intro r d hr htype hparent hrunning
    refine List.any_eq_true.mpr ⟨r, hr, ?_⟩
    rw [ExecutionStep.isOpenLoop, htype, hparent, hrunning]
    rfl
  cases h with
  | close hs h => exact (work_close hs h).le
  | @gate s hs hpending htype =>
    have hle : (db.putStep { s with conditionResult := some true }).work + s.weight ≤
        db.work + s.weight := work_putStep_le hs rfl id
    exact Nat.le_of_add_le_add_right hle
  | startForEach hs hpending hparent h => exact (work_start hs h hparent hpending).le
  | startWhile hs hpending hparent h => exact (work_start hs h hparent hpending).le
  | whileGate hs hrunning hparent h => exact work_renew hs h hparent hrunning
  | materialize hloop htype hrunning hparent _ _ _ _ _ hlimit h =>
    exact (work_materialize (hopen hloop htype hparent hrunning) hlimit h).le
  | @advanceWhile s loop _ _ _ _ _ _ hs hrunning hparent h _ _ _ _ _ _ _ _ _ _ hlimit hrows =>
    have hmem : loop ∈ (db.putStep loop).steps := Table.mem_put_self hs h.same.id.symm
    have hloop := hopen hmem (h.same.stepType.trans h.stepType) (h.same.parentStepId.trans hparent)
      h.status
    exact (work_materialize hloop hlimit hrows).le.trans (work_renew hs h hparent hrunning)

theorem LocalSteps.work_le (h : LocalSteps env db db') : db'.work ≤ db.work := by
  induction h with
  | refl => exact le_rfl
  | tail _ hstep ih => exact hstep.work_le.trans ih

/-! ### Changes -/

/-- A transition that reports a change has done work. -/
def Local.Spends (db : Db) (r : Local) : Prop :=
  ∀ db', r = .ok (.go true db') → db'.work < db.work

namespace Local.Spends

theorem error (e : Raised) : Spends db (.error e) := by
  intro _ h
  cases h

theorem halt (result : ProgressOutcome × Db) : Spends db (.halt result) := by
  intro _ h
  cases h

theorem unchanged : Spends db (.ok (.go false db')) := by
  intro _ h
  cases h

theorem go (changed : Bool) (h : db'.work < db.work) : Spends db (.ok (.go changed db')) := by
  rintro db'' ⟨⟩
  exact h

/-- Work before a transition that spends. -/
theorem after {r : Local} (h : db₁.work ≤ db.work) (hr : Spends db₁ r) : Spends db r :=
  fun db' hdb' => (hr db' hdb').trans_le h

/-- Work done before the transition. -/
theorem of_lt {r : Local} (h : db₁.work < db.work) (hr : Does env now db₁ r) : Spends db r := by
  rintro db' rfl
  cases hr with
  | go hgo => exact hgo.work_le.trans_lt h

end Local.Spends

/-- A part of a pass that goes on: it makes no work, and a change is work done. -/
def Worked (db db' : Db) (changed changed' : Bool) : Prop :=
  db'.work ≤ db.work ∧ (changed' = true → changed = true ∨ db'.work < db.work)

theorem Worked.trans {c₀ c₁ c₂ : Bool} (h : Worked db db₁ c₀ c₁) (h' : Worked db₁ db' c₁ c₂) :
    Worked db db' c₀ c₂ := by
  refine ⟨h'.1.trans h.1, fun htrue => ?_⟩
  rcases h'.2 htrue with hold | hlt
  · exact (h.2 hold).imp_right fun hlt => h'.1.trans_lt hlt
  · exact .inr (hlt.trans_le h.1)

/-- Keys visited in order while `P` holds: the change of one of them is work done. -/
theorem visitKeys_worked {visit : String → Db → Local} {P : Db → Prop}
    (hP : ∀ {db db'}, LocalSteps env db db' → P db → P db')
    (hdoes : ∀ key db, P db → Local.Does env now db (visit key db))
    (hspends : ∀ key db, Local.Spends db (visit key db)) {keys : List String}
    {changed changed' : Bool} (hdb : P db)
    (h : visitKeys visit keys changed db = .ok (.go changed' db')) :
    Worked db db' changed changed' := by
  induction keys generalizing changed db with
  | nil =>
    cases h
    exact ⟨le_rfl, .inl⟩
  | cons key keys ih =>
    rw [visitKeys] at h
    split at h
    · cases h
    · cases h
    · next changed₁ db₁ hvisit =>
      have hkey := hdoes key db hdb
      rw [hvisit] at hkey
      cases hkey with
      | go hgo =>
        refine .trans ⟨hgo.work_le, fun htrue => ?_⟩ (ih (hP hgo hdb) h)
        rcases Bool.or_eq_true_iff.mp htrue with hold | hnew
        · exact .inl hold
        · subst hnew
          exact .inr (hspends key db db₁ hvisit)

/-- Keys visited in order, without a condition on the rows. -/
theorem visitKeys_worked' {visit : String → Db → Local}
    (hdoes : ∀ key db, Local.Does env now db (visit key db))
    (hspends : ∀ key db, Local.Spends db (visit key db)) {keys : List String}
    {changed changed' : Bool} (h : visitKeys visit keys changed db = .ok (.go changed' db')) :
    Worked db db' changed changed' :=
  visitKeys_worked (P := fun _ => True) (fun _ _ => trivial) (fun key db _ => hdoes key db) hspends
    trivial h

theorem pruneStep_spends (dag : ToolJoinDag) (key : String) (db : Db) :
    Local.Spends db (pruneStep dag now key db) := by
  unfold pruneStep
  split
  · exact .unchanged
  next step hrow =>
  split
  · next hprune =>
    refine .go true (work_close (mem_of_rowByKey hrow) (.of_pending hprune.1 rfl rfl rfl ?_))
    simp [ExecutionStep.pruneConditionally]
  · exact .unchanged

/-- A LOOP that ends by a known failure is work done. -/
theorem endLoopKnown_spends (env : RuntimeEnv) {planStep : ExecutionPlanStep}
    {loop : ExecutionStep} {status : StepStatus} {errorCode : String} (hs : s ∈ db.steps)
    (h : RunsLoop s loop)
    (hopen : s.status = .pending ∨ s.status = .running)
    (hstatus : status = .failed ∨ status = .timedOut) (hdb : Overwrites db db' s.id) :
    Local.Spends db (endLoopKnown planStep loop status errorCode now db') := by
  unfold endLoopKnown
  dsimp only
  rw [hdb (loop.failLoop status errorCode now) h.same.id]
  have hdoes : Local.Does env now (db.putStep (loop.failLoop status errorCode now))
      (applyLoopErrorPolicy planStep (loop.failLoop status errorCode now) now
        (db.putStep (loop.failLoop status errorCode now))) := applyLoopErrorPolicy_does ..
  exact .of_lt (work_close hs (.failLoop h hopen hstatus ..)) hdoes

/-- No row is left of an iteration after the highest one. -/
theorem childInstances_eq_nil {steps : List ExecutionStep} {parentStepId : UUID} {n : ℕ}
    (h : maxMaterializedIteration steps parentStepId < n) :
    childInstancesForIteration steps parentStepId n = [] := by
  refine List.eq_nil_iff_forall_not_mem.mpr fun s hs => ?_
  obtain ⟨hs, hrow⟩ := List.mem_filter.mp hs
  obtain ⟨hparent, hn⟩ := of_decide_eq_true hrow
  exact absurd (le_maxMaterializedIteration hs hparent hn) (by omega)

/-- The candidate of a RUNNING WHILE LOOP is a new iteration. -/
theorem advanceWhile_spends {planStep : ExecutionPlanStep} {cfg : LoopStepConfigV1} {candidate : ℕ}
    {loop : ExecutionStep} (hs : s ∈ db.steps) (hrunning : s.status = .running)
    (hparent : s.parentStepId = none) (h : RunsLoop s loop)
    (hnext : maxMaterializedIteration db.steps.rows s.id < candidate) :
    Local.Spends db (advanceWhile env planStep cfg candidate loop now db) := by
  unfold advanceWhile
  split
  · exact .halt _
  · exact .error _
  next gate gated hgate =>
  obtain ⟨predicate, history, -, -, rfl⟩ := evaluateWhileGate_ok hgate
  have hgated : RunsLoop s { loop with resolvedInput := some (.while history) } :=
    ⟨h.same, h.attemptCount, h.stepType, h.status⟩
  have hrenew := work_renew hs hgated hparent hrunning
  have hself : RunsLoop { loop with resolvedInput := some (.while history) }
      { loop with resolvedInput := some (.while history) } :=
    ⟨.refl _, rfl, h.same.stepType.trans h.stepType, h.status⟩
  have hmem : { loop with resolvedInput := some (.while history) } ∈
      (db.putStep { loop with resolvedInput := some (.while history) }).steps :=
    Table.mem_put_self hs h.same.id.symm
  dsimp only
  split
  · have hclose : LocalClose { loop with resolvedInput := some (.while history) }
        (ExecutionStep.succeedWhileLoop { loop with resolvedInput := some (.while history) }
          (candidate - 1) now) :=
      .of_runsLoop hself (.inr h.status) rfl rfl rfl (by simp [ExecutionStep.succeedWhileLoop])
    exact .go true ((work_close hmem hclose).trans_le hrenew)
  split
  · exact (endLoopKnown_spends env hmem hself (.inr h.status) (.inl rfl) (.refl _ _)).after hrenew
  split
  · exact .halt _
  split
  · exact .halt _
  · exact .error _
  next db' hmaterialize =>
  have hopen :
      (db.putStep { loop with resolvedInput := some (.while history) }).hasOpenLoop = true :=
    List.any_eq_true.mpr ⟨_, hmem, hself.isOpenLoop_iff (h.same.parentStepId.trans hparent)⟩
  rcases materializeIteration_ok hmaterialize with heq | ⟨-, hlimit, hrows⟩
  · -- the iteration is new, so it has been materialized
    have hmax := maxMaterializedIteration_rewrites (rewrites_putStep hs hgated.same) s.id
    have hfresh := childInstances_eq_nil (hmax.trans_lt hnext)
    rw [← h.same.id] at hfresh
    unfold materializeIteration at hmaterialize
    rw [if_neg (by omega), if_neg (not_not.mpr hfresh)] at hmaterialize
    split at hmaterialize
    · cases hmaterialize
    · next hlimit =>
      exact .go true
        ((work_materialize hopen (Nat.le_of_not_lt hlimit) hmaterialize).trans_le hrenew)
  · exact .go true ((work_materialize hopen hlimit hrows).trans_le hrenew)

/-! ### The visits -/

theorem forEachStartFailed_spends (env : RuntimeEnv) {planStep : ExecutionPlanStep}
    {loop : ExecutionStep} (hs : s ∈ db.steps) (h : RunsLoop s loop)
    (hpending : s.status = .pending)
    (e : AppError) (hdb : Overwrites db db' s.id) :
    Local.Spends db (forEachStartFailed planStep loop e now db') := by
  unfold forEachStartFailed
  split
  · exact endLoopKnown_spends env hs h (.inl hpending) (.inl rfl) hdb
  · exact .halt _

theorem startForEach_spends {planStep : ExecutionPlanStep} {cfg : LoopStepConfigV1}
    {loop : ExecutionStep} (hs : s ∈ db.steps) (h : RunsLoop s loop)
    (hpending : s.status = .pending) (hparent : s.parentStepId = none) :
    Local.Spends db (startForEach env planStep cfg loop now (db.putStep loop)) := by
  have hrun : Overwrites db (db.putStep loop) s.id := (Overwrites.refl db s.id).putStep h.same.id
  unfold startForEach
  split
  · exact forEachStartFailed_spends env hs h hpending _ hrun
  next collection _ =>
  dsimp only
  have hpinned : RunsLoop s (loop.pinCollection collection) :=
    ⟨h.same, h.attemptCount, h.stepType, h.status⟩
  have hpin : Overwrites db ((db.putStep loop).putStep (loop.pinCollection collection)) s.id :=
    hrun.putStep hpinned.same.id
  split
  · exact endLoopKnown_spends env hs hpinned (.inl hpending) (.inl rfl) hpin
  split
  · exact forEachStartFailed_spends env hs hpinned hpending _ hpin
  split
  · rw [hpin ((loop.pinCollection collection).succeedLoop 0 0 now) hpinned.same.id]
    refine .go true (work_close hs (.of_runsLoop hpinned (.inl hpending) rfl rfl rfl ?_))
    simp [ExecutionStep.succeedLoop]
  rw [hrun (loop.pinCollection collection) hpinned.same.id]
  have hstart := work_start hs hpinned hparent hpending
  split
  · exact .error _
  next db' hmaterialize =>
  rcases materializeIteration_ok hmaterialize with rfl | ⟨-, hlimit, hrows⟩
  · exact .go true hstart
  · have hmem :
        loop.pinCollection collection ∈ (db.putStep (loop.pinCollection collection)).steps :=
      Table.mem_put_self hs hpinned.same.id.symm
    have hopen : (db.putStep (loop.pinCollection collection)).hasOpenLoop = true :=
      List.any_eq_true.mpr ⟨_, hmem, hpinned.isOpenLoop_iff hparent⟩
    exact .go true ((work_materialize hopen hlimit hrows).trans hstart)

theorem startLoop_spends {planStep : ExecutionPlanStep} {cfg : LoopStepConfigV1}
    (hs : s ∈ db.steps) (htype : s.stepType = .loop) (hpending : s.status = .pending)
    (hparent : s.parentStepId = none) (hconfig : s.stepSnapshot.config = .loop cfg) :
    Local.Spends db (startLoop env planStep cfg s now db) := by
  unfold startLoop
  dsimp only
  split
  · exact startForEach_spends hs ⟨rfl, rfl, htype, rfl⟩ hpending hparent
  next hmode =>
  have hpinned : RunsLoop s (ExecutionStep.pinWhileControl
      { s with
        status := .running
        readyAt := some now
        startedAt := s.startedAt.or (some now) }) := ⟨rfl, rfl, htype, rfl⟩
  have hstart := work_start hs hpinned hparent hpending
  have hself : RunsLoop _ _ := ⟨.refl _, rfl, hpinned.same.stepType.trans htype, hpinned.status⟩
  have hmem := Table.mem_put_self hs hpinned.same.id.symm
  split
  · exact .of_lt hstart (endLoopKnown_does env hmem hself (.inr hpinned.status) (.inr rfl)
      (.refl _ _))
  · exact .of_lt hstart
      (advanceWhile_does hmem hpinned.status hparent hself hconfig hmode (.inl rfl))

theorem advanceForEach_spends {cfg : LoopStepConfigV1} (hs : s ∈ db.steps)
    (htype : s.stepType = .loop) (hrunning : s.status = .running)
    (hparent : s.parentStepId = none) :
    Local.Spends db (advanceForEach env cfg s now db) := by
  have hself : RunsLoop s s := ⟨.refl s, rfl, htype, hrunning⟩
  have hopen : db.hasOpenLoop = true :=
    List.any_eq_true.mpr ⟨s, hs, hself.isOpenLoop_iff hparent⟩
  unfold advanceForEach
  dsimp only
  split
  · exact .halt _
  next collectionSize hstable =>
  have hmaterialize {n : ℕ} {result : Local}
      (herror : ∀ e, materializeIteration env cfg n s db = .error e → result = .error e)
      (hok : ∀ db', materializeIteration env cfg n s db = .ok db' → result = .ok (.go true db'))
      (hnext : maxMaterializedIteration db.steps.rows s.id < n) : Local.Spends db result := by
    cases hrows : materializeIteration env cfg n s db with
    | error e => exact herror e hrows ▸ .error _
    | ok db' =>
    rw [hok db' hrows]
    have hfresh := childInstances_eq_nil hnext
    unfold materializeIteration at hrows
    rw [if_neg (by omega), if_neg (not_not.mpr hfresh)] at hrows
    split at hrows
    · cases hrows
    · next hlimit => exact .go true (work_materialize hopen (Nat.le_of_not_lt hlimit) hrows)
  split
  · next hfirst => refine hmaterialize ?_ ?_ hfirst <;> (intro x hx; rw [hx])
  split
  · exact .unchanged
  split
  · refine hmaterialize ?_ ?_ (Nat.lt_succ_self _) <;> (intro x hx; rw [hx])
  · refine .go true (work_close hs (.of_runsLoop hself (.inr hrunning) rfl rfl rfl ?_))
    simp [ExecutionStep.succeedLoop]

theorem advanceLoop_spends {planStep : ExecutionPlanStep} {cfg : LoopStepConfigV1}
    (hs : s ∈ db.steps) (htype : s.stepType = .loop) (hrunning : s.status = .running)
    (hparent : s.parentStepId = none) :
    Local.Spends db (advanceLoop env planStep cfg s now db) := by
  have hself : RunsLoop s s := ⟨.refl s, rfl, htype, hrunning⟩
  unfold advanceLoop
  split
  · exact endLoopKnown_spends env hs hself (.inr hrunning) (.inr rfl) (.refl _ _)
  split
  · exact advanceForEach_spends hs htype hrunning hparent
  dsimp only
  split
  · next hfirst =>
    refine advanceWhile_spends hs hrunning hparent ?_ hfirst
    split
    · exact ⟨rfl, rfl, htype, hrunning⟩
    · exact hself
  split
  · exact .unchanged
  · exact advanceWhile_spends hs hrunning hparent hself (Nat.lt_succ_self _)

theorem visitLoop_spends (dag : ToolJoinDag) (key : String) (db : Db) :
    Local.Spends db (visitLoop env dag now key db) := by
  unfold visitLoop
  split
  · exact .unchanged
  next s hrow =>
  have hs : s ∈ db.steps := mem_of_rowByKey hrow
  split
  · exact .unchanged
  next htype =>
  have htype : s.stepType = .loop := not_not.mp htype
  split
  · exact .halt _
  next hparent =>
  have hparent : s.parentStepId = none := not_not.mp hparent
  split
  · next hpending =>
    split
    · exact .unchanged
    split
    · exact .halt _
    next planStep cfg hcfg =>
    split
    · exact .halt _
    · exact .error _
    · exact .go true (work_close hs (.whenFalse hpending now))
    · exact startLoop_spends hs htype hpending hparent (loopConfig_ok hcfg)
  split
  · next hrunning =>
    split
    · exact .halt _
    · exact advanceLoop_spends hs htype hrunning hparent
  · exact .unchanged

theorem visitCondition_spends (dag : ToolJoinDag) (key : String) (db : Db) :
    Local.Spends db (visitCondition env dag now key db) := by
  unfold visitCondition
  split
  · exact .unchanged
  next s hrow =>
  have hs : s ∈ db.steps := mem_of_rowByKey hrow
  split
  · exact .unchanged
  next heligible =>
  have hpending := pending_of_conditionEligible (by simpa using heligible)
  split
  · exact .halt _
  split
  · exact .halt _
  · exact .error _
  · exact .go true (work_close hs (.whenFalse hpending now))
  dsimp only
  split
  · exact .halt _
  · refine .go true (work_close hs (.of_pending hpending rfl rfl rfl ?_))
    simp [ExecutionStep.succeedCondition]

theorem completeApproval_spends (key : String) (db : Db) :
    Local.Spends db (completeApproval env now key db) := by
  unfold completeApproval
  split
  · exact .unchanged
  next s hrow =>
  have hs : s ∈ db.steps := mem_of_rowByKey hrow
  split
  · exact .unchanged
  next hready =>
  simp only [not_or, ne_eq, not_not] at hready
  split
  · exact .halt _
  split
  · exact .halt _
  split
  · exact .halt _
  · refine .go true (work_close hs ⟨rfl, rfl, rfl, ?_, .inr (.inr (.inr hready))⟩)
    simp [ExecutionStep.succeedApproval]

theorem enterApproval_spends (dag : ToolJoinDag) (key : String) (db : Db) :
    Local.Spends db (enterApproval env dag now key db) := by
  unfold enterApproval
  split
  · exact .unchanged
  next s hrow =>
  have hs : s ∈ db.steps := mem_of_rowByKey hrow
  split
  · exact .unchanged
  next heligible =>
  have heligible : approvalStructurallyEligible dag db.steps.rows s = true := by
    simpa using heligible
  simp only [approvalStructurallyEligible, Bool.and_eq_true, beq_iff_eq] at heligible
  split
  · exact .error _
  split
  · exact .halt _
  split
  · exact .halt _
  · exact .error _
  · exact .go true (work_close hs (.whenFalse heligible.1.1 now))
  dsimp only
  split
  · split
    · exact .halt _
    split
    · exact .error _
    · exact .halt _
  · exact .halt _

theorem visitToolGate_spends (dag : ToolJoinDag) (key : String) (db : Db) :
    Local.Spends db (visitToolGate env dag now key db) := by
  unfold visitToolGate
  split
  · exact .unchanged
  next s hrow =>
  have hs : s ∈ db.steps := mem_of_rowByKey hrow
  split
  · exact .unchanged
  next heligible =>
  have heligible : toolStructurallyEligible dag db.steps.rows s = true := by
    simpa using heligible
  simp only [toolStructurallyEligible, Bool.and_eq_true, beq_iff_eq] at heligible
  split
  · exact .halt _
  split
  · exact .unchanged
  split
  · exact .halt _
  · exact .error _
  · exact .go true (work_close hs (.whenFalse heligible.1.1.1 now))
  · exact .unchanged

theorem visitJoin_spends (dag : ToolJoinDag) (key : String) (db : Db) :
    Local.Spends db (visitJoin env dag now key db) := by
  unfold visitJoin
  split
  · exact .unchanged
  next s hrow =>
  have hs : s ∈ db.steps := mem_of_rowByKey hrow
  split
  · exact .unchanged
  next heligible =>
  have heligible : joinBarrierReady dag db.steps.rows s = true := by simpa using heligible
  simp only [joinBarrierReady, Bool.and_eq_true, beq_iff_eq] at heligible
  have hpending : s.status = .pending := heligible.1.1.1.1
  split
  · exact .halt _
  next planStep _ =>
  split
  · exact .halt _
  · exact .error _
  · exact .go true (work_close hs (.whenFalse hpending now))
  split
  · dsimp only
    generalize hgated : (if planStep.when = none then s
      else ({ s with conditionResult := some true } : ExecutionStep)) = gated
    have hsame : SameStep s gated ∧ gated.attemptCount = s.attemptCount := by
      rw [← hgated]
      split <;> exact ⟨rfl, rfl⟩
    split
    · refine .go true (work_close hs (.of_pending hpending hsame.1 hsame.2 ?_ ?_))
      · unfold ExecutionStep.closeJoin
        dsimp only
        split <;> rfl
      · unfold ExecutionStep.closeJoin
        dsimp only
        split <;> decide
    · exact .halt _
  · exact .error _

/-! ### Passes -/

/-- The transition did not stop the Execution. -/
def Flow.goesOn : Flow → Bool
  | .go _ _ => true
  | .stop _ _ => false

theorem Local.exists_go_iff {result : Local} :
    result.toOption.any (·.goesOn) = true ↔ ∃ changed db, result = .ok (.go changed db) := by
  constructor
  · intro h
    cases result with
    | error e => cases h
    | ok flow =>
      cases flow with
      | go changed db => exact ⟨changed, db, rfl⟩
      | stop outcome db => cases h
  · rintro ⟨changed, db, rfl⟩
    rfl

theorem Local.andThen_eq_go {first : Local} {next : Bool → Db → Local} {changed : Bool}
    (h : first.andThen next = .ok (.go changed db')) :
    ∃ changed₁ db₁, first = .ok (.go changed₁ db₁) ∧ next changed₁ db₁ = .ok (.go changed db') := by
  unfold Local.andThen at h
  split at h
  · exact ⟨_, _, rfl, h⟩
  · next hnot => exact absurd h (hnot changed db')

theorem reconcileApprovals_worked {dag : ToolJoinDag} {changed : Bool}
    (h : reconcileApprovals env dag now db = .ok (.go changed db')) :
    Worked db db' false changed := by
  unfold reconcileApprovals at h
  split at h
  · next changed₁ db₁ hcomplete =>
    have hfirst : Worked db db₁ false changed₁ :=
      visitKeys_worked' completeApproval_does completeApproval_spends hcomplete
    split at h
    · cases h
      exact hfirst
    · next hnone =>
      refine hfirst.trans (visitKeys_worked
        (P := fun db => Approval.findPendingForExecution db = none) ?_ (enterApproval_does dag)
        (enterApproval_spends dag) (by simpa using hnone) h)
      intro db db' hsteps hnone
      obtain ⟨steps, rfl⟩ := hsteps.frame
      exact hnone
  · next hnot => exact absurd h (hnot changed db')

theorem passAfterLoops_worked {dag : ToolJoinDag} {changed changed' : Bool}
    (h : passAfterLoops env dag now changed db = .ok (.go changed' db')) :
    Worked db db' changed changed' := by
  obtain ⟨c₁, db₁, hconditions, h⟩ := Local.andThen_eq_go h
  obtain ⟨c₂, db₂, happrovals, h⟩ := Local.andThen_eq_go h
  obtain ⟨c₃, db₃, hgates, hjoins⟩ := Local.andThen_eq_go h
  have h₁ : Worked db db₁ changed c₁ :=
    visitKeys_worked' (visitCondition_does dag) (visitCondition_spends dag) hconditions
  have h₂ := reconcileApprovals_worked happrovals
  have h₃ : Worked db₂ db₃ (c₁ || c₂) c₃ :=
    visitKeys_worked' (visitToolGate_does dag) (visitToolGate_spends dag) hgates
  have h₄ : Worked db₃ db' c₃ changed' :=
    visitKeys_worked' (visitJoin_does dag) (visitJoin_spends dag) hjoins
  have h₁₂ : Worked db db₂ changed (c₁ || c₂) := by
    refine ⟨h₂.1.trans h₁.1, fun htrue => ?_⟩
    rcases Bool.or_eq_true_iff.mp htrue with hold | hnew
    · exact (h₁.2 hold).imp_right fun hlt => h₂.1.trans_lt hlt
    · have hlt := (h₂.2 hnew).resolve_left Bool.false_ne_true
      exact .inr (hlt.trans_le h₁.1)
  exact (h₁₂.trans h₃).trans h₄

/-- One pass that goes on, with the DAG that its later phases read. -/
inductive Pass (env : RuntimeEnv) (now : Time) (dag : ToolJoinDag) (db : Db) :
    ToolJoinDag → Bool → Db → Prop
  | mk {pruned loopsChanged changed : Bool} {db₁ db₂ db' : Db} {dag' : ToolJoinDag}
      (hprune : visitKeys (pruneStep dag now) dag.orderedStepKeys false db = .ok (.go pruned db₁))
      (hloops : visitKeys (visitLoop env dag now) dag.orderedStepKeys false db₁ =
        .ok (.go loopsChanged db₂))
      (hdag : refreshDag env dag loopsChanged now db₂ = .ok dag')
      (hrest : passAfterLoops env dag' now (pruned || loopsChanged) db₂ = .ok (.go changed db')) :
    Pass env now dag db dag' changed db'

/-- The passes that go on: a changed pass is followed by the others, an unchanged one ends them. -/
theorem localPasses_succ_go {passes : ℕ} {dag : ToolJoinDag} {changed : Bool}
    (h : localPasses env now (passes + 1) dag db = .ok (.go changed db')) :
    (∃ dag' db₁, Pass env now dag db dag' true db₁ ∧
      localPasses env now passes dag' db₁ = .ok (.go changed db')) ∨
    (changed = false ∧ ∃ dag', Pass env now dag db dag' false db') := by
  rw [localPasses] at h
  obtain ⟨pruned, db₁, hprune, h⟩ := Local.andThen_eq_go h
  obtain ⟨loopsChanged, db₂, hloops, h⟩ := Local.andThen_eq_go h
  split at h
  · cases h
  next dag' hdag =>
  obtain ⟨changed₁, db₃, hrest, h⟩ := Local.andThen_eq_go h
  split at h
  · next hchanged =>
    subst hchanged
    exact .inl ⟨dag', db₃, .mk hprune hloops hdag hrest, h⟩
  · next hchanged =>
    rw [Bool.not_eq_true] at hchanged
    subst hchanged
    cases h
    exact .inr ⟨rfl, dag', .mk hprune hloops hdag hrest⟩

theorem Pass.worked {dag dag' : ToolJoinDag} {changed : Bool}
    (h : Pass env now dag db dag' changed db') : Worked db db' false changed := by
  obtain ⟨hprune, hloops, -, hrest⟩ := h
  have h₁ := visitKeys_worked' (pruneStep_does env dag) (pruneStep_spends dag) hprune
  have h₂ := visitKeys_worked' (visitLoop_does dag) (visitLoop_spends dag) hloops
  have h₃ := passAfterLoops_worked hrest
  refine ⟨h₃.1.trans (h₂.1.trans h₁.1), fun htrue => .inr ?_⟩
  rcases h₃.2 htrue with hold | hlt
  · refine h₃.1.trans_lt ?_
    rcases Bool.or_eq_true_iff.mp hold with hpruned | hchanged
    · exact h₂.1.trans_lt ((h₁.2 hpruned).resolve_left Bool.false_ne_true)
    · exact ((h₂.2 hchanged).resolve_left Bool.false_ne_true).trans_le h₁.1
  · exact hlt.trans_le (h₂.1.trans h₁.1)

/-- When there are more passes than work, the last of them changes nothing. -/
theorem localPasses_settled {passes : ℕ} {dag : ToolJoinDag} {changed : Bool}
    (hwork : db.work < passes) (h : localPasses env now passes dag db = .ok (.go changed db')) :
    changed = false ∧ ∃ dag₁ dag₂ db₁, Pass env now dag₁ db₁ dag₂ false db' := by
  induction passes generalizing dag db with
  | zero => exact absurd hwork (Nat.not_lt_zero _)
  | succ passes ih =>
    rcases localPasses_succ_go h with ⟨dag', db₁, hpass, hrest⟩ | ⟨hchanged, dag', hpass⟩
    · have hlt := (hpass.worked.2 rfl).resolve_left Bool.false_ne_true
      exact ih (by omega) hrest
    · exact ⟨hchanged, dag, dag', db, hpass⟩

/-! ### The bound -/

/-- Without an open LOOP every row is one transition at most. -/
theorem work_le_of_not_hasOpenLoop (h : db.hasOpenLoop = false) :
    db.work ≤ db.steps.rows.length := by
  rw [Db.work, h, if_neg Bool.false_ne_true, Nat.add_zero]
  have hone : ∀ n ∈ db.steps.rows.map ExecutionStep.weight, n ≤ 1 := by
    intro n hn
    obtain ⟨s, hs, rfl⟩ := List.mem_map.mp hn
    have hclosed := List.any_eq_false.mp h s hs
    rw [ExecutionStep.weight]
    split
    · exact Nat.zero_le 1
    · rw [if_neg]
      rintro ⟨hpending, htype, hparent⟩
      exact hclosed (by rw [ExecutionStep.isOpenLoop, hpending, htype, hparent]; rfl)
  have hsum := List.sum_le_card_nsmul _ 1 hone
  rwa [List.length_map, smul_eq_mul, mul_one] at hsum

/-- Each row, and each row that an open LOOP may bring, is two transitions at most. -/
theorem work_le (db : Db) :
    db.work ≤ 2 * max db.steps.rows.length db.execution.planSnapshot.limits.maxSteps := by
  have htwo : ∀ n ∈ db.steps.rows.map ExecutionStep.weight, n ≤ 2 := by
    intro n hn
    obtain ⟨s, -, rfl⟩ := List.mem_map.mp hn
    exact s.weight_le_two
  have hsum := List.sum_le_card_nsmul _ 2 htwo
  rw [List.length_map, smul_eq_mul] at hsum
  rw [Db.work]
  split <;> omega

/-- The bound is enough when the plan cannot grow far beyond the rows at entry. -/
theorem work_lt_passBound (dag : ToolJoinDag)
    (h : db.hasOpenLoop = false ∨ db.execution.planSnapshot.limits.maxSteps ≤
      4 * max dag.orderedStepKeys.length db.steps.rows.length + 3) :
    db.work < passBound dag db.steps.rows := by
  unfold passBound
  rcases h with hclosed | hlimit
  · have := work_le_of_not_hasOpenLoop hclosed
    omega
  · have := work_le db
    omega

/-- The local reconcile that goes on ends with a pass that found nothing to do, unless an open LOOP
may grow far beyond the rows at entry. -/
theorem localReconcile_settled {dag : ToolJoinDag} {changed : Bool}
    (hbound : db.hasOpenLoop = false ∨ db.execution.planSnapshot.limits.maxSteps ≤
      4 * max dag.orderedStepKeys.length db.steps.rows.length + 3)
    (h : localReconcile env dag now db = .ok (.go changed db')) :
    changed = false ∧ ∃ dag₁ dag₂ db₁, Pass env now dag₁ db₁ dag₂ false db' :=
  localPasses_settled (work_lt_passBound dag hbound) h

/-- The two LOOPs of `twoLoopPlan` start, and a false gate ends the WHILE LOOP. -/
theorem localReconcile_settled_twoLoop : ∃ dag changed db',
    validateToolJoinDag sampleDigest twoLoopPlan twoLoopWorld.db.steps.rows = .ok dag ∧
      localReconcile (loopEnv false) dag 2 twoLoopWorld.db = .ok (.go changed db') ∧
      changed = false ∧ ∃ dag₁ dag₂ db₁, Pass (loopEnv false) 2 dag₁ db₁ dag₂ false db' := by
  obtain ⟨dag, hdag⟩ : ∃ dag,
      validateToolJoinDag sampleDigest twoLoopPlan twoLoopWorld.db.steps.rows = .ok dag :=
    Except.isOk_iff.mp (by decide +kernel)
  have hrun : (validateToolJoinDag sampleDigest twoLoopPlan
      twoLoopWorld.db.steps.rows).toOption.any (fun dag =>
        (localReconcile (loopEnv false) dag 2 twoLoopWorld.db).toOption.any (·.goesOn)) = true := by
    decide +kernel
  rw [hdag] at hrun
  obtain ⟨changed, db', hgo⟩ := Local.exists_go_iff.mp hrun
  have htwo : 2 ≤ max dag.orderedStepKeys.length 2 := le_max_right _ _
  have hbound : 5 ≤ 4 * max dag.orderedStepKeys.length 2 + 3 := by omega
  exact ⟨dag, changed, db', hdag, hgo, localReconcile_settled (.inr hbound) hgo⟩

end McpFlow
