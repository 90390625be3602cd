import McpFlow.Execution.Budget
import McpFlow.Execution.DagOrder

/-!
# The parallelism bound

TOOLs leave PENDING by the claim and by a reservation only, and no Step comes back to PENDING. The
claim starts from no engaged TOOL and promotes at most `max_parallelism`; a reservation happens while
nothing waits, so that the slots it counts are all the engaged TOOLs. Every other step of a run only
moves engaged TOOLs or ends them. A wave acts under the lease of its worker, and one worker has it.
-/

namespace McpFlow

instance : DecidablePred ExecutionStep.Engaged := fun _ => inferInstanceAs (Decidable (_ ∧ _))

/-- How many TOOLs run or will run again. -/
def Db.engagedTools (db : Db) : ℕ := db.steps.rows.countP fun s => decide s.Engaged

variable {env : RuntimeEnv} {db db' : Db} {digest : TemplateDigest} {plan : ExecutionPlanV1}
  {steps : List ExecutionStep} {dag : ToolJoinDag} {now : Time}

/-- The DAG has the bound of its plan. -/
theorem maxParallelism_of_validateToolJoinDag (h : validateToolJoinDag digest plan steps = .ok dag) :
    dag.maxParallelism = plan.limits.maxParallelism := by
  obtain ⟨ownership, topDeps, childDeps, hvalid⟩ := validateToolJoinDag_ok h
  exact hvalid.maxParallelism

/-- The slots are engaged TOOLs. -/
theorem countToolSlots_le (db : Db) : countToolSlots db.steps.rows ≤ db.engagedTools := by
  rw [countToolSlots, ← List.countP_eq_length_filter, Db.engagedTools]
  refine List.countP_mono_left fun s _ hs => ?_
  obtain ⟨htool, hready | hrunning⟩ := of_decide_eq_true hs
  · exact decide_eq_true ⟨htool, .inl hready⟩
  · exact decide_eq_true ⟨htool, .inr (.inl hrunning)⟩

/-! ### What a step does to the engaged TOOLs -/

/-- Rows that move engage no further TOOL. -/
theorem Db.Moves.engagedTools_le (h : db.Moves db') : db'.engagedTools ≤ db.engagedTools := by
  obtain ⟨f, hf, hmoves⟩ := h.steps
  rw [Db.engagedTools, hf, List.countP_map]
  exact List.countP_mono_left fun s hs ht =>
    decide_eq_true ((hmoves s hs).engaged_of (of_decide_eq_true ht))

/-- The local writes engage no TOOL. -/
theorem LocalSteps.engagedTools_le (h : LocalSteps env db db') :
    db'.engagedTools ≤ db.engagedTools := by
  refine Table.countP_le_of_forall fun t ht hengaged => ?_
  obtain ⟨htool, hstatus⟩ := of_decide_eq_true hengaged
  rcases h.row ht with hold | hpending | ⟨hloop, -⟩ | hterminal
  · exact hold
  · rw [hpending] at hstatus
    exact absurd hstatus (by decide)
  · rw [hloop] at htool
    cases htool
  · rw [StepMoves.not_terminal_of_engaged ⟨htool, hstatus⟩] at hterminal
    cases hterminal

/-- No TOOL is engaged before the claim. -/
theorem engagedTools_of_initial (h : ∀ s ∈ db.steps, s.isInitial = true) : db.engagedTools = 0 := by
  refine List.countP_eq_zero.mpr fun s hs hengaged => ?_
  obtain ⟨-, hstatus⟩ := of_decide_eq_true hengaged
  have hpending := h s hs
  simp only [ExecutionStep.isInitial, Bool.and_eq_true, beq_iff_eq] at hpending
  rw [hpending.1.1.1.1.1.1] at hstatus
  exact absurd hstatus (by decide)

/-- Marking rows READY engages at most the marked ones. -/
theorem engagedTools_map_le {marked : List ExecutionStep} {f : ExecutionStep → ExecutionStep}
    (hrows : db'.steps.rows = db.steps.rows.map fun s => if s ∈ marked then f s else s) :
    db'.engagedTools ≤ db.engagedTools + marked.length := by
  rw [Db.engagedTools, hrows]
  exact List.countP_map_ite_le db.steps.nodup_rows

/-- A claim promotes as many roots as the plan runs in parallel. -/
theorem engagedTools_applyClaim {claim : ClaimEnv} (hdag : claimDag env claim db = .ok dag) :
    (applyClaim claim dag now db).engagedTools ≤
      db.execution.planSnapshot.limits.maxParallelism := by
  obtain ⟨_, hclaimable, hrest⟩ := Except.bind_eq_ok_iff.mp hdag
  obtain ⟨-, -, hrest⟩ := Except.bind_eq_ok_iff.mp hrest
  obtain ⟨dag', hvalid, hrest⟩ := Except.bind_eq_ok_iff.mp hrest
  have heq : dag' = dag := by
    dsimp only at hrest
    split at hrest
    · obtain ⟨-, -, hrest⟩ := Except.bind_eq_ok_iff.mp hrest
      exact Except.ok.inj hrest
    · exact Except.ok.inj hrest
  subst heq
  have hinitial : ∀ s ∈ db.steps, s.isInitial = true := by
    simp only [assertClaimable, Except.bind_eq_ok_iff, assertThat_eq_ok_iff] at hclaimable
    obtain ⟨_, _, _, _, _, _, _, _, _, _, hall⟩ := hclaimable
    exact List.all_eq_true.mp hall
  calc (applyClaim claim dag' now db).engagedTools
      ≤ db.engagedTools + (claimedRoots dag' db).length :=
        engagedTools_map_le (steps_applyClaim claim dag' now db)
    _ ≤ dag'.maxParallelism := by
        rw [engagedTools_of_initial hinitial, Nat.zero_add]
        exact List.length_take_le _ _
    _ = db.execution.planSnapshot.limits.maxParallelism :=
        maxParallelism_of_validateToolJoinDag hvalid

/-- While nothing waits, every engaged TOOL has a slot. -/
theorem engagedTools_eq_slots (hwait : waitTarget db = none) (hlocal : LocalSteps env db db') :
    db'.engagedTools = countToolSlots db'.steps.rows := by
  have hnone : ∀ s ∈ db.steps, ¬(s.status = .waitingApproval ∨ s.status = .waitingInput) := by
    intro s hs hstatus
    unfold waitTarget at hwait
    have hne : (db.steps.rows.filter fun s =>
        decide (s.status = .waitingApproval ∨ s.status = .waitingInput)) ≠ [] :=
      List.ne_nil_of_mem (List.mem_filter.mpr ⟨hs, decide_eq_true hstatus⟩)
    rw [if_pos hne, List.head?_eq_none_iff] at hwait
    exact hne hwait
  rw [countToolSlots, ← List.countP_eq_length_filter, Db.engagedTools]
  refine List.countP_congr fun t ht => ?_
  simp only [decide_eq_true_eq]
  constructor
  · rintro ⟨htool, hstatus⟩
    refine ⟨htool, ?_⟩
    rcases hlocal.row ht with hold | hpending | ⟨hloop, -⟩ | hterminal
    · rcases hstatus with h | h | h | h
      · exact .inl h
      · exact .inr h
      · exact absurd (.inl h) (hnone t hold)
      · exact absurd (.inr h) (hnone t hold)
    · rw [hpending] at hstatus
      exact absurd hstatus (by decide)
    · rw [hloop] at htool
      cases htool
    · rw [StepMoves.not_terminal_of_engaged ⟨htool, hstatus⟩] at hterminal
      cases hterminal
  · rintro ⟨htool, hready | hrunning⟩
    · exact ⟨htool, .inl hready⟩
    · exact ⟨htool, .inr (.inl hrunning)⟩

/-- A reservation fills the slots that are left. -/
theorem engagedTools_reserveToolWave (singleTool : Bool)
    (hwithin : db.engagedTools ≤ dag.maxParallelism)
    (hslots : db.engagedTools = countToolSlots db.steps.rows) :
    (reserveToolWave dag singleTool now db).2.engagedTools ≤ dag.maxParallelism := by
  have hmap := engagedTools_map_le (steps_reserveToolWave dag singleTool now db)
  have htake : (promotable dag db).length ≤ dag.maxParallelism - countToolSlots db.steps.rows :=
    List.length_take_le _ _
  omega

/-! ### A Step leaves PENDING once -/

/-- The Step has left PENDING. -/
def Db.Left (db : Db) (stepId : UUID) : Prop :=
  ∃ s ∈ db.steps, s.id = stepId ∧ s.status ≠ .pending

variable {stepId : UUID}

theorem Db.Left.putStep {s s' : ExecutionStep} (h : db.Left stepId) (hs : s ∈ db.steps)
    (hid : s'.id = s.id) (hkept : s.status ≠ .pending → s'.status ≠ .pending) :
    (db.putStep s').Left stepId := by
  obtain ⟨t, ht, rfl, hstatus⟩ := h
  by_cases hkey : t.id = s'.id
  · have heq : t = s := Table.eq_of_key_eq ht hs (hkey.trans hid)
    exact ⟨s', Table.mem_put_self ht hkey, hkey.symm, hkept (heq ▸ hstatus)⟩
  · exact ⟨t, Table.mem_put_of_ne ht hkey, rfl, hstatus⟩

theorem Db.Left.moves (h : db.Left stepId) (hmoves : db.Moves db') : db'.Left stepId := by
  obtain ⟨s, hs, rfl, hstatus⟩ := h
  obtain ⟨t, ht, hst⟩ := hmoves.steps.exists_mem hs
  refine ⟨t, ht, hst.sameStep.id, ?_⟩
  cases hst with
  | same heq => exact heq ▸ hstatus
  | ended _ hterminal =>
    intro hpending
    rw [hpending] at hterminal
    cases hterminal
  | approval _ _ hwaits =>
    rcases hwaits with h | h <;> rw [h] <;> decide
  | engaged _ _ hengaged =>
    rcases hengaged.2 with h | h | h | h <;> rw [h] <;> decide

theorem Db.Left.rows_append {rows : List ExecutionStep} (h : db.Left stepId)
    (hrows : db'.steps.rows = db.steps.rows ++ rows) : db'.Left stepId := by
  obtain ⟨s, hs, hid, hstatus⟩ := h
  refine ⟨s, ?_, hid, hstatus⟩
  rw [Table.mem_def, hrows]
  exact List.mem_append_left _ hs

theorem Db.Left.localStep (h : db.Left stepId) (hlocal : LocalStep env db db') :
    db'.Left stepId := by
  have hruns {s s' : ExecutionStep} (hs : s ∈ db.steps) (hrun : RunsLoop s s') :
      (db.putStep s').Left stepId := by
    refine h.putStep hs hrun.same.id fun _ => ?_
    rw [hrun.status]
    decide
  cases hlocal with
  | close hs hclose =>
    refine h.putStep hs hclose.same.id fun _ hpending => ?_
    have hterminal := hclose.terminal
    rw [hpending] at hterminal
    cases hterminal
  | @gate s hs hpending =>
    refine h.putStep hs ?_ fun hne => absurd hpending hne
    rfl
  | startForEach hs _ _ hrun => exact hruns hs hrun
  | startWhile hs _ _ hrun => exact hruns hs hrun
  | whileGate hs _ _ hrun => exact hruns hs hrun
  | materialize _ _ _ _ _ _ _ _ _ _ hbody =>
    obtain ⟨rows, steps, rfl, hrows, -⟩ := foldlM_materializeBody_ok hbody
    exact h.rows_append hrows
  | advanceWhile hs _ _ hrun _ _ _ _ _ _ _ _ _ _ _ hbody =>
    obtain ⟨rows, steps, rfl, hrows, -⟩ := foldlM_materializeBody_ok hbody
    exact (hruns hs hrun).rows_append hrows

theorem Db.Left.localSteps (h : db.Left stepId) (hlocal : LocalSteps env db db') :
    db'.Left stepId := by
  induction hlocal with
  | refl => exact h
  | tail _ hstep ih => exact ih.localStep hstep

theorem Db.Left.map_ready {marked : List ExecutionStep} {f : ExecutionStep → ExecutionStep}
    (h : db.Left stepId) (hid : ∀ s, (f s).id = s.id) (hready : ∀ s, (f s).status = .ready)
    (hrows : db'.steps.rows = db.steps.rows.map fun s => if s ∈ marked then f s else s) :
    db'.Left stepId := by
  obtain ⟨s, hs, rfl, hstatus⟩ := h
  refine ⟨if s ∈ marked then f s else s, ?_, ?_, ?_⟩
  · rw [Table.mem_def, hrows]
    exact List.mem_map_of_mem hs
  · split
    · exact hid s
    · rfl
  · split
    · rw [hready s]
      decide
    · exact hstatus

/-! ### Runs -/

namespace World

variable {w w' : World}

/-- The plan of an Execution never changes. -/
theorem planSnapshot_of_step {a : Action} (hsound : w.Sound) (hstep : w.step digest a = some w') :
    w'.db.execution.planSnapshot = w.db.execution.planSnapshot := by
  have hby := hsound.stepsBy hstep
  generalize w'.db = db' at hby
  refine congrArg ExecutionOrigin.planSnapshot (?_ : db'.execution.origin = w.db.execution.origin)
  cases hby with
  | moves hmoves => exact hmoves.origin
  | claimed => exact origin_applyClaim ..
  | reconciled _ hlocal hmoves => exact hmoves.origin.trans (congrArg _ hlocal.execution)
  | reserved singleTool _ _ _ hlocal _ =>
    exact (origin_reserveToolWave _ singleTool _ _).trans (congrArg _ hlocal.execution)

/-- The engaged TOOLs fit `max_parallelism`. -/
def WithinParallelism (w : World) : Prop :=
  w.db.engagedTools ≤ w.db.execution.planSnapshot.limits.maxParallelism

theorem WithinParallelism.step {a : Action} (hsound : w.Sound) (h : w.WithinParallelism)
    (hstep : w.step digest a = some w') : w'.WithinParallelism := by
  rw [WithinParallelism, planSnapshot_of_step hsound hstep]
  have hby := hsound.stepsBy hstep
  generalize w'.db = db' at hby
  cases hby with
  | moves hmoves => exact hmoves.engagedTools_le.trans h
  | claimed _ hdag => exact engagedTools_applyClaim hdag
  | reconciled _ hlocal hmoves =>
    exact hmoves.engagedTools_le.trans (hlocal.engagedTools_le.trans h)
  | reserved singleTool _ hwait _ hlocal hdag =>
    have hbound := maxParallelism_of_validateToolJoinDag hdag
    rw [hlocal.execution] at hbound
    rw [← hbound]
    refine engagedTools_reserveToolWave singleTool ?_ (engagedTools_eq_slots hwait hlocal)
    rw [hbound]
    exact hlocal.engagedTools_le.trans h

theorem left_of_step {a : Action} (hsound : w.Sound) (h : w.db.Left stepId)
    (hstep : w.step digest a = some w') : w'.db.Left stepId := by
  have hby := hsound.stepsBy hstep
  generalize w'.db = db' at hby
  cases hby with
  | moves hmoves => exact h.moves hmoves
  | claimed =>
    exact h.map_ready (f := (·.markReady _)) (fun _ => rfl) (fun _ => rfl) (steps_applyClaim ..)
  | reconciled _ hlocal hmoves => exact (h.localSteps hlocal).moves hmoves
  | reserved singleTool _ _ _ hlocal _ =>
    exact (h.localSteps hlocal).map_ready (f := (·.promote _)) (fun _ => rfl) (fun _ => rfl)
      (steps_reserveToolWave _ singleTool _ _)

/-- The Step is in the wave of the worker that has the lease. -/
def HasInWave (w : World) (r : Worker) (stepId : UUID) (m : Member) : Prop :=
  r ∈ w.workers ∧ w.db.execution.leaseToken = some r.token ∧
    ∃ v, r.stage = .running v ∧ (stepId, m) ∈ v.members

/-- A claim or a reservation takes the TOOL. -/
def Reserves (w w' : World) (stepId : UUID) : Prop :=
  ¬w.db.Left stepId ∧
    ∃ s ∈ w'.db.steps, s.id = stepId ∧ s.stepType = .tool ∧ s.status = .ready

/-- One wave has the Step. -/
theorem HasInWave.unique {r q : Worker} {m m' : Member} (hlive : w.Live)
    (h : w.HasInWave r stepId m) (h' : w.HasInWave q stepId m') : r = q ∧ m = m' := by
  obtain ⟨hr, hlease, v, hstage, hmember⟩ := h
  obtain ⟨hq, hlease', v', hstage', hmember'⟩ := h'
  have htoken : r.token = q.token := Option.some.inj (hlease.symm.trans hlease')
  have heq : r = q := hlive.distinct r hr q hq htoken
  subst heq
  rw [hstage] at hstage'
  cases hstage'
  exact ⟨rfl, hlive.members r hr v hstage stepId m m' hmember hmember'⟩

/-- In every reachable state at most `max_parallelism` TOOLs are READY or RUNNING, a Step is in one
wave of the lease owner, and no Step is reserved a second time. -/
theorem parallelism_run {as : List Action} (hinitial : w.Initial)
    (hrun : Runs.run (World.step digest) w as = some w') :
    countToolSlots w'.db.steps.rows ≤ w.db.execution.planSnapshot.limits.maxParallelism ∧
    (∀ stepId r q m m', w'.HasInWave r stepId m → w'.HasInWave q stepId m' → r = q ∧ m = m') ∧
    ∀ a w₁ bs w₂ b w₃ stepId, w'.step digest a = some w₁ → w'.Reserves w₁ stepId →
      Runs.run (World.step digest) w₁ bs = some w₂ → w₂.step digest b = some w₃ →
      ¬w₂.Reserves w₃ stepId := by
  have hkept : w'.Sound ∧ w'.WithinParallelism ∧
      w'.db.execution.planSnapshot = w.db.execution.planSnapshot := by
    refine Runs.run_invariant (fun (v : World) _ _ (hinv : v.Sound ∧ v.WithinParallelism ∧
        v.db.execution.planSnapshot = w.db.execution.planSnapshot) hstep => ?_)
      ⟨.of_initial hinitial, ?_, rfl⟩ hrun
    · obtain ⟨hsound, hwithin, hplan⟩ := hinv
      exact ⟨hsound.step hstep, hwithin.step hsound hstep,
        (planSnapshot_of_step hsound hstep).trans hplan⟩
    · have hzero := engagedTools_of_initial fun s hs => (hinitial.steps s hs).1
      rw [WithinParallelism, hzero]
      exact Nat.zero_le _
  obtain ⟨hsound, hwithin, hplan⟩ := hkept
  refine ⟨?_, fun _ _ _ _ _ h h' => h.unique hsound.live h', ?_⟩
  · rw [← hplan]
    exact (countToolSlots_le w'.db).trans hwithin
  · rintro a w₁ bs w₂ b w₃ stepId hstep ⟨-, s, hs, hid, -, hready⟩ hrun₁ - ⟨hnot, -⟩
    have hleft : w₁.db.Left stepId := ⟨s, hs, hid, by rw [hready]; decide⟩
    have hkept : w₂.Sound ∧ w₂.db.Left stepId := by
      refine Runs.run_invariant (fun (v : World) _ _ (hinv : v.Sound ∧ v.db.Left stepId) hstep => ?_)
        ⟨hsound.step hstep, hleft⟩ hrun₁
      exact ⟨hinv.1.step hstep, left_of_step hinv.1 hinv.2 hstep⟩
    exact hnot hkept.2

end World

/-- Two TOOLs, one at a time. -/
def oneSlotPlan : ExecutionPlanV1 where
  limits := .ofNat 5 1 50
  steps :=
    [rootPlanStep "load" .tool (.tool (.ofNat 4) []) nonBlank_load,
      rootPlanStep "poll" .tool (.tool (.ofNat 4) []) nonBlank_poll]

/-- The world of `oneSlotPlan` before its first claim. -/
def oneSlotWorld : World :=
  queuedWorld oneSlotPlan
    ⟨[plannedStep (.ofNat 10) (rootPlanStep "load" .tool (.tool (.ofNat 4) []) nonBlank_load)
        (by decide),
      plannedStep (.ofNat 11) (rootPlanStep "poll" .tool (.tool (.ofNat 4) []) nonBlank_poll)
        (by decide)], by decide⟩

/-- The claim takes one TOOL; the first wave finds no slot for the other. -/
theorem parallelism_oneSlotWorld :
    ∃ w', Runs.run (World.step sampleDigest) oneSlotWorld (twoLoopActions true) = some w' ∧
      countToolSlots w'.db.steps.rows = 1 := by
  have hrun : (Runs.run (World.step sampleDigest) oneSlotWorld (twoLoopActions true)).any
      (fun w => decide (1 ≤ countToolSlots w.db.steps.rows)) = true := by
    decide +kernel
  obtain ⟨w', hw', hslots⟩ := (Option.any_eq_true _ _).mp hrun
  have hbound : countToolSlots w'.db.steps.rows ≤ 1 :=
    (World.parallelism_run (queuedWorld_initial (by decide)) hw').1
  exact ⟨w', hw', Nat.le_antisymm hbound (of_decide_eq_true hslots)⟩

end McpFlow
