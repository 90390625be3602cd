import McpFlow.Execution.Moves

/-!
# The row budget of an Execution

A RUNNING FOR_EACH LOOP has pinned the size of its collection, and its missing iterations are rows
that the Execution will still insert. `Db.WithinMaxSteps` counts them with the rows: a FOR_EACH start
is admitted for the whole collection. The advance of a WHILE LOOP checks its own rows and the
reservations apart, so that both pass although their sum does not; `RoomForWhile` rules this out, and
is what a run needs to stay within the limit.
-/

namespace McpFlow

/-- The rows that a RUNNING FOR_EACH LOOP has not inserted yet. -/
def forEachReservation (steps : List ExecutionStep) (s : ExecutionStep) : ℕ :=
  match s.stepSnapshot.config, s.resolvedInput with
  | .loop cfg, some (.forEach _ collectionSize) =>
    if s.stepType = .loop ∧ s.status = .running ∧ cfg.mode = .forEach then
      cfg.bodyStepIds.length * (collectionSize - maxMaterializedIteration steps s.id)
    else 0
  | _, _ => 0

/-- The rows that all RUNNING FOR_EACH LOOPs have not inserted yet. -/
def Db.reservedSteps (db : Db) : ℕ :=
  (db.steps.rows.map (forEachReservation db.steps.rows)).sum

/-- The rows and the reserved rows fit the limit of the plan. -/
def Db.WithinMaxSteps (db : Db) : Prop :=
  db.steps.rows.length + db.reservedSteps ≤ db.execution.planSnapshot.limits.maxSteps

instance (db : Db) : Decidable db.WithinMaxSteps := inferInstanceAs (Decidable (_ ≤ _))

/-- Whenever the predicate of a RUNNING WHILE LOOP holds while the local reconcile runs, and one more
iteration fits beside the rows, it fits beside the reservations too. -/
def RoomForWhile (env : RuntimeEnv) (db : Db) : Prop :=
  ∀ db₁, LocalSteps env db db₁ → ∀ s ∈ db₁.steps, ∀ row cfg predicate,
    s.stepType = .loop → s.status = .running → s.stepSnapshot.config = .loop cfg →
    cfg.mode = .while → cfg.predicate = some predicate → SameStep s row →
    env.evaluate predicate row db₁ = .ok true →
    db₁.steps.rows.length + cfg.bodyStepIds.length ≤ db₁.execution.planSnapshot.limits.maxSteps →
    db₁.steps.rows.length + cfg.bodyStepIds.length + db₁.reservedSteps ≤
      db₁.execution.planSnapshot.limits.maxSteps

variable {env : RuntimeEnv} {db db' : Db} {steps new : List ExecutionStep} {s loop : ExecutionStep}
  {cfg : LoopStepConfigV1} {parentStepId : UUID} {n : ℕ}

/-! ### Children -/

theorem childrenOf_append_self (hnew : ∀ t ∈ new, t.parentStepId = some parentStepId) :
    childrenOf (steps ++ new) parentStepId = childrenOf steps parentStepId ++ new := by
  unfold childrenOf
  rw [List.filter_append, List.filter_eq_self.mpr fun t ht => decide_eq_true (hnew t ht)]

theorem childrenOf_append_of_ne {otherId : UUID}
    (hnew : ∀ t ∈ new, t.parentStepId = some parentStepId) (hne : otherId ≠ parentStepId) :
    childrenOf (steps ++ new) otherId = childrenOf steps otherId := by
  have hnil : childrenOf new otherId = [] := List.filter_eq_nil_iff.mpr fun t ht => by
    rw [hnew t ht]
    simpa using hne.symm
  unfold childrenOf at hnil ⊢
  rw [List.filter_append, hnil, List.append_nil]

/-- A new iteration is the highest one. -/
theorem maxMaterializedIteration_append (steps : List ExecutionStep)
    (hnew : ∀ t ∈ new, t.parentStepId = some parentStepId ∧ t.iterationNo = some n)
    (hne : new ≠ []) (hn : maxMaterializedIteration steps parentStepId ≤ n) :
    maxMaterializedIteration (steps ++ new) parentStepId = n := by
  unfold maxMaterializedIteration at hn ⊢
  rw [childrenOf_append_self fun t ht => (hnew t ht).1, List.filterMap_append, List.foldl_append]
  refine Nat.le_antisymm (List.foldl_max_le hn fun m hm => ?_) (List.le_foldl_max (.inr ?_))
  · obtain ⟨t, ht, hm⟩ := List.mem_filterMap.mp hm
    rw [(hnew t ht).2] at hm
    exact (Option.some.inj hm).ge
  · obtain ⟨t, ht⟩ := List.exists_mem_of_ne_nil new hne
    exact List.mem_filterMap.mpr ⟨t, ht, (hnew t ht).2⟩

theorem maxMaterializedIteration_append_of_ne (steps : List ExecutionStep) {otherId : UUID}
    (hnew : ∀ t ∈ new, t.parentStepId = some parentStepId) (hne : otherId ≠ parentStepId) :
    maxMaterializedIteration (steps ++ new) otherId = maxMaterializedIteration steps otherId := by
  unfold maxMaterializedIteration
  rw [childrenOf_append_of_ne hnew hne]

theorem maxMaterializedIteration_le_append (steps new : List ExecutionStep) (parentStepId : UUID) :
    maxMaterializedIteration steps parentStepId ≤
      maxMaterializedIteration (steps ++ new) parentStepId := by
  unfold maxMaterializedIteration childrenOf
  rw [List.filter_append, List.filterMap_append, List.foldl_append]
  exact List.le_foldl_max (.inl le_rfl)

theorem maxMaterializedIteration_of_nil (h : childrenOf steps parentStepId = []) :
    maxMaterializedIteration steps parentStepId = 0 := by
  rw [maxMaterializedIteration, h]
  rfl

/-! ### The rows of the LOOPs -/

/-- What a RUNNING FOR_EACH LOOP has inserted: whole iterations, the first before the others. -/
structure ForEachRows (steps : List ExecutionStep) (s : ExecutionStep) (cfg : LoopStepConfigV1) :
    Prop where
  pinned : ∃ collectionHash collectionSize,
    s.resolvedInput = some (.forEach collectionHash collectionSize) ∧ collectionSize ≠ 0
  count : (childrenOf steps s.id).length =
    cfg.bodyStepIds.length * maxMaterializedIteration steps s.id
  first : maxMaterializedIteration steps s.id ≠ 0 → childInstancesForIteration steps s.id 1 ≠ []

/-- LOOPs start without children, run at the top level, and a FOR_EACH is in order. -/
structure Db.LoopRows (db : Db) : Prop where
  fresh : ∀ s ∈ db.steps, s.stepType = .loop → s.status = .pending → s.parentStepId = none →
    childrenOf db.steps.rows s.id = []
  top : ∀ s ∈ db.steps, s.stepType = .loop → s.status = .running → s.parentStepId = none
  forEach : ∀ s ∈ db.steps, s.stepType = .loop → s.status = .running → ∀ cfg,
    s.stepSnapshot.config = .loop cfg → cfg.mode = .forEach → ForEachRows db.steps.rows s cfg

/-- What a write in place does to a row, as the LOOPs see it. -/
inductive LoopMoves (s s' : ExecutionStep) : Prop
  | same (h : s' = s)
  | other (hsame : SameStep s s') (htype : s.stepType ≠ .loop)
  | stopped (hsame : SameStep s s') (hpending : s'.status ≠ .pending)
      (hrunning : s'.status ≠ .running)
  | started (hsame : SameStep s s') (hpending : s.status = .pending) (hparent : s.parentStepId = none)
      (hpin : ∀ cfg, s.stepSnapshot.config = .loop cfg → cfg.mode = .forEach →
        ∃ collectionHash collectionSize,
          s'.resolvedInput = some (.forEach collectionHash collectionSize) ∧ collectionSize ≠ 0)
      (hrunning : s'.status = .running)
  | gated (hsame : SameStep s s') (hrunning : s.status = .running) (hrunning' : s'.status = .running)
      (hmode : ∀ cfg, s.stepSnapshot.config = .loop cfg → cfg.mode = .while)

theorem LoopMoves.sameStep {s s' : ExecutionStep} (h : LoopMoves s s') : SameStep s s' := by
  cases h with
  | same h => exact h ▸ .refl s
  | other h => exact h
  | stopped h => exact h
  | started h => exact h
  | gated h => exact h

/-- A transaction outside the local reconcile only ends LOOPs. -/
theorem StepMoves.loopMoves {s s' : ExecutionStep} (h : StepMoves s s') : LoopMoves s s' := by
  by_cases htype : s.stepType = .loop
  · rcases h.of_loop htype with heq | hterminal
    · exact .same heq
    · refine .stopped h.sameStep (fun hstatus => ?_) fun hstatus => ?_ <;>
      · rw [hstatus] at hterminal
        cases hterminal
  · exact .other h.sameStep htype

/-- Rows of one origin have the same iterations. -/
theorem ForEachRows.rewrites {steps steps' : Table ExecutionStep.id} {s s' : ExecutionStep}
    (hrw : Table.Rewrites SameStep steps steps') (hsame : SameStep s s')
    (hpin : ∃ collectionHash collectionSize,
      s'.resolvedInput = some (.forEach collectionHash collectionSize) ∧ collectionSize ≠ 0)
    (hcount : (childrenOf steps.rows s.id).length =
      cfg.bodyStepIds.length * maxMaterializedIteration steps.rows s.id)
    (hfirst : maxMaterializedIteration steps.rows s.id ≠ 0 →
      childInstancesForIteration steps.rows s.id 1 ≠ []) : ForEachRows steps'.rows s' cfg := by
  have hmax := maxMaterializedIteration_rewrites hrw s.id
  refine ⟨hpin, ?_, ?_⟩
  · have hlength := congrArg List.length (childrenOf_rewrites hrw s.id (·.id) SameStep.id)
    rw [List.length_map, List.length_map] at hlength
    rw [hsame.id, hmax, hlength, hcount]
  · intro hne
    rw [hsame.id, hmax] at hne
    obtain ⟨t, ht⟩ := List.exists_mem_of_ne_nil _ (hfirst hne)
    obtain ⟨ht, hchild⟩ := List.mem_filter.mp ht
    obtain ⟨t', ht', hsame'⟩ := hrw.exists_mem (Table.mem_def.mpr ht)
    refine List.ne_nil_of_mem (List.mem_filter.mpr ⟨ht', ?_⟩)
    rw [hsame'.parentStepId, hsame'.iterationNo, hsame.id]
    exact hchild

namespace Db.LoopRows

/-- Writes in place keep the LOOPs in order. -/
theorem rewrites (h : db.LoopRows) (hrw : Table.Rewrites LoopMoves db.steps db'.steps) :
    db'.LoopRows := by
  have hsteps : Table.Rewrites SameStep db.steps db'.steps := by
    obtain ⟨f, hrows, hf⟩ := hrw
    exact ⟨f, hrows, fun s hs => (hf s hs).sameStep⟩
  constructor
  · intro t ht htype hpending hparent
    obtain ⟨s, hs, hmoves⟩ := hrw.exists_of_mem ht
    have hnil : childrenOf db.steps.rows s.id = [] := by
      cases hmoves with
      | same heq => exact heq ▸ h.fresh t (heq ▸ hs) htype hpending hparent
      | other hsame hother => exact absurd (hsame.stepType ▸ htype) hother
      | stopped _ hne => exact absurd hpending hne
      | started _ _ _ _ hrunning => rw [hrunning] at hpending; cases hpending
      | gated _ _ hrunning => rw [hrunning] at hpending; cases hpending
    have hmap := childrenOf_rewrites hsteps s.id (·.id) SameStep.id
    rw [hnil, List.map_nil, List.map_eq_nil_iff] at hmap
    rwa [hmoves.sameStep.id]
  · intro t ht htype hrunning
    obtain ⟨s, hs, hmoves⟩ := hrw.exists_of_mem ht
    rw [hmoves.sameStep.parentStepId]
    cases hmoves with
    | same heq => exact heq ▸ h.top t (heq ▸ hs) htype hrunning
    | other hsame hother => exact absurd (hsame.stepType ▸ htype) hother
    | stopped _ _ hne => exact absurd hrunning hne
    | started _ _ hparent => exact hparent
    | gated hsame hs' => exact h.top s hs (hsame.stepType ▸ htype) hs'
  · intro t ht htype hrunning cfg hconfig hmode
    obtain ⟨s, hs, hmoves⟩ := hrw.exists_of_mem ht
    have hconfig : s.stepSnapshot.config = .loop cfg := hmoves.sameStep.stepSnapshot ▸ hconfig
    have htype : s.stepType = .loop := hmoves.sameStep.stepType ▸ htype
    cases hmoves with
    | same heq =>
      have hrows := h.forEach s hs htype (heq ▸ hrunning) cfg hconfig hmode
      exact .rewrites hsteps (heq ▸ .refl s) (heq ▸ hrows.pinned) hrows.count hrows.first
    | other _ hother => exact absurd htype hother
    | stopped _ _ hne => exact absurd hrunning hne
    | started hsame hpending hparent hpin =>
      have hnil := h.fresh s hs htype hpending hparent
      have hmax := maxMaterializedIteration_of_nil hnil
      refine .rewrites hsteps hsame (hpin cfg hconfig hmode) ?_ fun hne => absurd hmax hne
      rw [hnil, hmax]
      rfl
    | gated _ _ _ hwhile =>
      rw [hwhile cfg hconfig] at hmode
      cases hmode

/-- A new iteration keeps them in order when its own LOOP is. -/
theorem append (h : db.LoopRows) (hloop : loop ∈ db.steps) (hrunning : loop.status = .running)
    (hnew : ∀ t ∈ new, BodyRow loop n t) (hrows : db'.steps.rows = db.steps.rows ++ new)
    (hforEach : ∀ cfg, loop.stepSnapshot.config = .loop cfg → cfg.mode = .forEach →
      ForEachRows db'.steps.rows loop cfg) : db'.LoopRows := by
  have hparent : ∀ t ∈ new, t.parentStepId = some loop.id := fun t ht => (hnew t ht).parentStepId
  have hid {s : ExecutionStep} (hs : s ∈ db.steps) (hne : s ≠ loop) : s.id ≠ loop.id :=
    fun hid => hne (Table.eq_of_key_eq hs hloop hid)
  have hmem {t : ExecutionStep} (ht : t ∈ db'.steps) : t ∈ db.steps ∨ t ∈ new := by
    rw [Table.mem_def, hrows] at ht
    exact List.mem_append.mp ht
  constructor
  · intro t ht htype hpending htop
    rcases hmem ht with ht | ht
    · have hne : t ≠ loop := by
        rintro rfl
        rw [hrunning] at hpending
        cases hpending
      rw [hrows, childrenOf_append_of_ne hparent (hid ht hne)]
      exact h.fresh t ht htype hpending htop
    · rw [hparent t ht] at htop
      cases htop
  · intro t ht htype ht'
    rcases hmem ht with ht | ht
    · exact h.top t ht htype ht'
    · rw [(hnew t ht).status] at ht'
      cases ht'
  · intro t ht htype ht' cfg hconfig hmode
    rcases hmem ht with ht | ht
    · by_cases hloop : t = loop
      · exact hloop ▸ hforEach cfg (hloop ▸ hconfig) hmode
      · have hrest := h.forEach t ht htype ht' cfg hconfig hmode
        have hmax := maxMaterializedIteration_append_of_ne db.steps.rows hparent
          (hid ht hloop)
        refine ⟨hrest.pinned, ?_, fun hne => ?_⟩
        · rw [hrows, childrenOf_append_of_ne hparent (hid ht hloop), hmax, hrest.count]
        · rw [hrows, hmax] at hne
          rw [hrows, childInstancesForIteration, List.filter_append]
          exact List.append_ne_nil_of_left_ne_nil (hrest.first hne) _
    · rw [(hnew t ht).status] at ht'
      cases ht'

end Db.LoopRows

/-! ### Reservations -/

theorem forEachReservation_eq {collectionHash : Sha256Hex} {collectionSize : ℕ}
    (htype : s.stepType = .loop) (hrunning : s.status = .running)
    (hconfig : s.stepSnapshot.config = .loop cfg) (hmode : cfg.mode = .forEach)
    (hpin : s.resolvedInput = some (.forEach collectionHash collectionSize)) :
    forEachReservation steps s =
      cfg.bodyStepIds.length * (collectionSize - maxMaterializedIteration steps s.id) := by
  unfold forEachReservation
  rw [hconfig, hpin]
  exact if_pos ⟨htype, hrunning, hmode⟩

/-- Only a RUNNING FOR_EACH LOOP reserves rows. -/
theorem forEachReservation_eq_zero (h : ∀ cfg, s.stepType = .loop → s.status = .running →
    s.stepSnapshot.config = .loop cfg → cfg.mode ≠ .forEach) : forEachReservation steps s = 0 := by
  unfold forEachReservation
  split
  · next cfg _ _ hconfig _ => exact if_neg fun hforEach => h cfg hforEach.1 hforEach.2.1 hconfig hforEach.2.2
  · rfl

/-- More iterations reserve less. -/
theorem forEachReservation_mono {steps' : List ExecutionStep}
    (h : maxMaterializedIteration steps s.id ≤ maxMaterializedIteration steps' s.id) :
    forEachReservation steps' s ≤ forEachReservation steps s := by
  unfold forEachReservation
  split
  · split
    · exact Nat.mul_le_mul_left _ (Nat.sub_le_sub_left h _)
    · exact le_rfl
  · exact le_rfl

/-- The reservation that the admission reads off a RUNNING LOOP. -/
theorem forEachReservation_le_remaining {plan : ExecutionPlanV1} (h : db.LoopRows)
    (hs : s ∈ db.steps) (htype : s.stepType = .loop) (hrunning : s.status = .running)
    (hremaining : remainingReservation plan db.steps.rows s = .ok n) :
    forEachReservation db.steps.rows s ≤ n := by
  unfold remainingReservation at hremaining
  split at hremaining
  · next cfg hconfig =>
    obtain ⟨-, -, hremaining⟩ := Except.bind_eq_ok_iff.mp hremaining
    split at hremaining
    · next hmode =>
      obtain ⟨pin, hpin, hremaining⟩ := Except.bind_eq_ok_iff.mp hremaining
      obtain ⟨-, -, hremaining⟩ := Except.bind_eq_ok_iff.mp hremaining
      have hrows := h.forEach s hs htype hrunning cfg hconfig hmode
      obtain ⟨collectionHash, collectionSize, hresolved, -⟩ := hrows.pinned
      rw [hresolved] at hpin
      cases hpin
      cases hremaining
      rw [forEachReservation_eq htype hrunning hconfig hmode hresolved, hrows.count, Nat.mul_sub,
        Nat.mul_comm collectionSize]
    · next hmode =>
      rw [forEachReservation_eq_zero fun cfg' _ _ hconfig' => ?_]
      · exact Nat.zero_le n
      · rw [hconfig] at hconfig'
        cases hconfig'
        rw [hmode]
        exact nofun
  · cases hremaining

/-- The admission counts every reservation. -/
theorem within_of_admitted (h : db.LoopRows) {plan : ExecutionPlanV1}
    (hadmitted : assertGlobalExpandedMaxSteps plan db.steps.rows = .ok ()) :
    db.steps.rows.length + db.reservedSteps ≤ plan.limits.maxSteps := by
  unfold assertGlobalExpandedMaxSteps at hadmitted
  obtain ⟨remaining, hremaining, hfits⟩ := Except.bind_eq_ok_iff.mp hadmitted
  split at hfits
  · cases hfits
  next hfits =>
  have hrunning : ∀ s ∈ db.steps.rows.filter (fun s =>
      s.parentStepId = none ∧ s.stepType = .loop ∧ s.status = .running),
      s ∈ db.steps ∧ s.stepType = .loop ∧ s.status = .running := by
    intro s hs
    obtain ⟨hs, hloop⟩ := List.mem_filter.mp hs
    exact ⟨hs, (of_decide_eq_true hloop).2⟩
  have hpairs := (List.forall₂_and_left _ _).mpr ⟨hrunning, List.forall₂_of_mapM_eq_ok hremaining⟩
  have hsum : db.reservedSteps ≤ remaining.sum := by
    refine (List.sum_map_le_filter (p := fun s =>
      s.parentStepId = none ∧ s.stepType = .loop ∧ s.status = .running) fun s hs hnot => ?_).trans
      (List.sum_map_le_of_forall₂ (hpairs.imp fun s n hs => ?_))
    · refine forEachReservation_eq_zero fun cfg htype hrunning _ _ => ?_
      exact of_decide_eq_false hnot ⟨h.top s hs htype hrunning, htype, hrunning⟩
    · exact forEachReservation_le_remaining h hs.1.1 hs.1.2.1 hs.1.2.2 hs.2
  omega

/-! ### Steps -/

/-- A write in place that starts no FOR_EACH LOOP. -/
def LoopKept (s s' : ExecutionStep) : Prop :=
  LoopMoves s s' ∧ (s.status = .pending → s'.status = .running → ∀ cfg,
    s.stepSnapshot.config = .loop cfg → cfg.mode = .while)

theorem LoopKept.refl (s : ExecutionStep) : LoopKept s s := by
  refine ⟨.same rfl, fun hpending hrunning => ?_⟩
  rw [hpending] at hrunning
  cases hrunning

/-- The row stays, or it reserves nothing. -/
theorem LoopKept.reservation {s s' : ExecutionStep} (h : LoopKept s s')
    (steps : List ExecutionStep) :
    s' = s ∨ forEachReservation steps s' = 0 := by
  obtain ⟨hmoves, hstart⟩ := h
  have hsame := hmoves.sameStep
  have hwhile (hmode : ∀ cfg, s.stepSnapshot.config = .loop cfg → cfg.mode = .while) :
      forEachReservation steps s' = 0 := by
    refine forEachReservation_eq_zero fun cfg _ _ hconfig => ?_
    rw [hmode cfg (hsame.stepSnapshot ▸ hconfig)]
    exact nofun
  cases hmoves with
  | same heq => exact .inl heq
  | other _ hother =>
    exact .inr (forEachReservation_eq_zero fun _ htype => absurd (hsame.stepType ▸ htype) hother)
  | stopped _ _ hne => exact .inr (forEachReservation_eq_zero fun _ _ hrunning => absurd hrunning hne)
  | started _ hpending _ _ hrunning => exact .inr (hwhile (hstart hpending hrunning))
  | gated _ _ _ hmode => exact .inr (hwhile hmode)

/-- A transaction outside the local reconcile starts no LOOP. -/
theorem StepMoves.loopKept {s s' : ExecutionStep} (h : StepMoves s s') : LoopKept s s' := by
  refine ⟨h.loopMoves, fun hpending hrunning => ?_⟩
  cases h with
  | same heq =>
    rw [heq, hpending] at hrunning
    cases hrunning
  | ended _ hterminal =>
    rw [hrunning] at hterminal
    cases hterminal
  | approval _ _ hstatus =>
    rw [hrunning] at hstatus
    rcases hstatus with h | h <;> cases h
  | engaged _ hengaged _ =>
    have hnot := hengaged.2
    rw [hpending] at hnot
    rcases hnot with h | h | h | h <;> cases h

/-- The LOOPs are in order and the rows fit. -/
structure Db.Budgeted (db : Db) : Prop where
  loops : db.LoopRows
  within : db.WithinMaxSteps

/-- Writes in place that start no FOR_EACH LOOP reserve nothing. -/
theorem reservedSteps_rewrites (hrw : Table.Rewrites LoopKept db.steps db'.steps) :
    db'.reservedSteps ≤ db.reservedSteps := by
  obtain ⟨f, hrows, hf⟩ := hrw
  have hsteps : Table.Rewrites SameStep db.steps db'.steps :=
    ⟨f, hrows, fun s hs => (hf s hs).1.sameStep⟩
  unfold Db.reservedSteps
  rw [hrows, List.map_map, ← hrows]
  refine List.sum_le_sum fun s hs => ?_
  rcases (hf s hs).reservation db'.steps.rows with heq | hzero
  · rw [Function.comp_apply, heq]
    exact forEachReservation_mono (maxMaterializedIteration_rewrites hsteps s.id).ge
  · rw [Function.comp_apply, hzero]
    exact Nat.zero_le _

/-- New rows reserve nothing themselves. -/
theorem reservedSteps_append (db db' : Db) (hnew : ∀ t ∈ new, BodyRow loop n t)
    (hrows : db'.steps.rows = db.steps.rows ++ new) :
    db'.reservedSteps = (db.steps.rows.map (forEachReservation db'.steps.rows)).sum := by
  have hzero : (new.map (forEachReservation db'.steps.rows)).sum = 0 := by
    refine List.sum_eq_zero fun x hx => ?_
    obtain ⟨t, ht, rfl⟩ := List.mem_map.mp hx
    refine forEachReservation_eq_zero fun cfg _ hrunning => ?_
    rw [(hnew t ht).status] at hrunning
    cases hrunning
  unfold Db.reservedSteps
  conv_lhs => rw [hrows, List.map_append, List.sum_append, ← hrows]
  omega

/-- The next iteration of a FOR_EACH LOOP, within its collection. -/
theorem ForEachRows.next (h : ForEachRows steps loop cfg)
    (hfresh : childInstancesForIteration steps loop.id n = [])
    (hnext : n = 1 ∨ n = maxMaterializedIteration steps loop.id + 1) :
    n = maxMaterializedIteration steps loop.id + 1 := by
  rcases hnext with rfl | rfl
  · by_cases hmax : maxMaterializedIteration steps loop.id = 0
    · rw [hmax]
    · exact absurd hfresh (h.first hmax)
  · rfl

/-- A LOOP has a body. -/
theorem ne_nil_of_length (hlength : new.length = cfg.bodyStepIds.length) : new ≠ [] := by
  rintro rfl
  exact cfg.bodyStepIds_ne_nil (List.length_eq_zero_iff.mp hlength.symm)

/-- It keeps the rows of the LOOP in order. -/
theorem ForEachRows.append (h : ForEachRows steps loop cfg) (hnew : ∀ t ∈ new, BodyRow loop n t)
    (hn : n = maxMaterializedIteration steps loop.id + 1)
    (hlength : new.length = cfg.bodyStepIds.length) : ForEachRows (steps ++ new) loop cfg := by
  have hparent : ∀ t ∈ new, t.parentStepId = some loop.id := fun t ht => (hnew t ht).parentStepId
  have hnil := ne_nil_of_length hlength
  have hmax : maxMaterializedIteration (steps ++ new) loop.id = n :=
    maxMaterializedIteration_append steps
      (fun t ht => ⟨(hnew t ht).parentStepId, (hnew t ht).iterationNo⟩) hnil (by omega)
  refine ⟨h.pinned, ?_, fun _ => ?_⟩
  · rw [hmax, hn, childrenOf_append_self hparent, List.length_append, h.count, hlength, Nat.mul_succ]
  · rw [childInstancesForIteration, List.filter_append]
    by_cases hfirst : maxMaterializedIteration steps loop.id = 0
    · obtain ⟨t, ht⟩ := List.exists_mem_of_ne_nil new hnil
      refine List.append_ne_nil_of_right_ne_nil _ (List.ne_nil_of_mem (a := t) ?_)
      obtain rfl : n = 1 := by omega
      exact List.mem_filter.mpr
        ⟨ht, decide_eq_true ⟨(hnew t ht).parentStepId, (hnew t ht).iterationNo⟩⟩
    · exact List.append_ne_nil_of_left_ne_nil (h.first hfirst) _

namespace Db.Budgeted

theorem rewrites (h : db.Budgeted) (hrw : Table.Rewrites LoopKept db.steps db'.steps)
    (hplan : db'.execution.planSnapshot = db.execution.planSnapshot) : db'.Budgeted := by
  have hreserved := reservedSteps_rewrites hrw
  obtain ⟨f, hrows, hf⟩ := hrw
  refine ⟨h.loops.rewrites ⟨f, hrows, fun s hs => (hf s hs).1⟩, ?_⟩
  have hwithin := h.within
  unfold WithinMaxSteps at hwithin ⊢
  rw [hplan, hrows, List.length_map]
  omega

theorem moves (h : db.Budgeted) (hmoves : db.Moves db') : db'.Budgeted := by
  obtain ⟨f, hrows, hf⟩ := hmoves.steps
  exact h.rewrites ⟨f, hrows, fun s hs => (hf s hs).loopKept⟩
    (congrArg ExecutionOrigin.planSnapshot hmoves.origin)

/-- One row is written in place. -/
theorem put {s s' : ExecutionStep} (h : db.Budgeted) (hs : s ∈ db.steps) (hkept : LoopKept s s') :
    (db.putStep s').Budgeted :=
  h.rewrites (.of_put LoopKept.refl hs hkept.1.sameStep.id hkept) rfl

/-- A new iteration of a FOR_EACH LOOP was reserved. -/
theorem materialize (h : db.Budgeted) (hloop : loop ∈ db.steps) (htype : loop.stepType = .loop)
    (hrunning : loop.status = .running) (hconfig : loop.stepSnapshot.config = .loop cfg)
    (hmode : cfg.mode = .forEach)
    (hnext : n = 1 ∨ n = maxMaterializedIteration db.steps.rows loop.id + 1)
    (hbound : n = 1 ∨ ∃ pin, parseForeachCollectionPin loop.resolvedInput = .ok pin ∧ n ≤ pin.2)
    (hfresh : childInstancesForIteration db.steps.rows loop.id n = [])
    (hrows : cfg.bodyStepIds.foldlM (materializeBody env loop n) db = .ok db') : db'.Budgeted := by
  obtain ⟨new, table, rfl, htable, hlength, hnew⟩ := foldlM_materializeBody_ok hrows
  have hforEach := h.loops.forEach loop hloop htype hrunning cfg hconfig hmode
  have hn := hforEach.next hfresh hnext
  have hafter := hforEach.append hnew hn hlength
  rw [← htable] at hafter
  refine ⟨h.loops.append hloop hrunning hnew htable fun cfg' hconfig' _ => ?_, ?_⟩
  · rw [hconfig] at hconfig'
    cases hconfig'
    exact hafter
  obtain ⟨collectionHash, collectionSize, hpin, hsize⟩ := hforEach.pinned
  have hwithinCollection : n ≤ collectionSize := by
    rcases hbound with rfl | ⟨pin, hparse, hle⟩
    · omega
    · rw [hpin] at hparse
      cases hparse
      exact hle
  have hfall : forEachReservation table.rows loop + cfg.bodyStepIds.length ≤
      forEachReservation db.steps.rows loop := by
    rw [forEachReservation_eq htype hrunning hconfig hmode hpin,
      forEachReservation_eq htype hrunning hconfig hmode hpin, ← Nat.mul_succ]
    have hmax := maxMaterializedIteration_append db.steps.rows
      (fun t ht => ⟨(hnew t ht).parentStepId, (hnew t ht).iterationNo⟩) (ne_nil_of_length hlength)
      (by omega)
    rw [htable, hmax]
    exact Nat.mul_le_mul_left _ (by omega)
  have hreserved : ({ db with steps := table } : Db).reservedSteps + cfg.bodyStepIds.length ≤
      db.reservedSteps := by
    rw [reservedSteps_append db { db with steps := table } hnew htable]
    refine List.sum_map_add_le (Table.mem_def.mp hloop) (fun s _ => ?_) hfall
    exact forEachReservation_mono (htable ▸ maxMaterializedIteration_le_append db.steps.rows new s.id)
  have hcount : table.rows.length = db.steps.rows.length + cfg.bodyStepIds.length := by
    rw [htable, List.length_append, hlength]
  have hwithin := h.within
  unfold WithinMaxSteps at hwithin ⊢
  dsimp only at hwithin ⊢
  omega

/-- A new iteration of a WHILE LOOP that had room. -/
theorem advanceWhile {s : ExecutionStep} (h : db.Budgeted) (hs : s ∈ db.steps)
    (hrunning : s.status = .running) (hloop : RunsLoop s loop)
    (hconfig : s.stepSnapshot.config = .loop cfg) (hmode : cfg.mode = .while)
    (hroom : db.steps.rows.length + cfg.bodyStepIds.length + db.reservedSteps ≤
      db.execution.planSnapshot.limits.maxSteps)
    (hrows : cfg.bodyStepIds.foldlM (materializeBody env loop n) (db.putStep loop) = .ok db') :
    db'.Budgeted := by
  obtain ⟨new, table, rfl, htable, hlength, hnew⟩ := foldlM_materializeBody_ok hrows
  have hkept : LoopKept s loop := by
    refine ⟨.gated hloop.same hrunning hloop.status fun cfg' hconfig' => ?_, fun hpending _ => ?_⟩
    · rw [hconfig] at hconfig'
      cases hconfig'
      exact hmode
    · rw [hrunning] at hpending
      cases hpending
  have hput := h.put hs hkept
  have hfewer : (db.putStep loop).reservedSteps ≤ db.reservedSteps := reservedSteps_rewrites
    (.of_put LoopKept.refl hs hkept.1.sameStep.id hkept)
  refine ⟨hput.loops.append (Table.mem_put_self hs hloop.same.id.symm) hloop.status hnew htable
    fun cfg' hconfig' hforEach => ?_, ?_⟩
  · rw [hloop.same.stepSnapshot, hconfig] at hconfig'
    cases hconfig'
    rw [hmode] at hforEach
    cases hforEach
  have hreserved : ({ db.putStep loop with steps := table } : Db).reservedSteps ≤
      (db.putStep loop).reservedSteps := by
    rw [reservedSteps_append (db.putStep loop) { db.putStep loop with steps := table } hnew htable]
    refine List.sum_le_sum fun s _ => ?_
    exact forEachReservation_mono
      (htable ▸ maxMaterializedIteration_le_append (db.putStep loop).steps.rows new s.id)
  have hcount : table.rows.length = db.steps.rows.length + cfg.bodyStepIds.length := by
    rw [htable, List.length_append, hlength, Db.steps_putStep, Table.rows_put, List.length_map]
  unfold WithinMaxSteps
  dsimp only [Db.putStep] at hreserved hfewer ⊢
  omega

/-- The start of a FOR_EACH LOOP reserves its whole collection. -/
theorem startForEach {s s' : ExecutionStep} {collectionHash : Sha256Hex} {collectionSize : ℕ}
    (h : db.Budgeted) (hs : s ∈ db.steps) (hpending : s.status = .pending)
    (hparent : s.parentStepId = none) (hloop : RunsLoop s s')
    (hpin : s'.resolvedInput = some (.forEach collectionHash collectionSize))
    (hsize : collectionSize ≠ 0)
    (hadmitted : assertGlobalExpandedMaxSteps db.execution.planSnapshot (db.putStep s').steps.rows =
      .ok ()) : (db.putStep s').Budgeted := by
  have hmoves : LoopMoves s s' := .started hloop.same hpending hparent
    (fun _ _ _ => ⟨collectionHash, collectionSize, hpin, hsize⟩) hloop.status
  have hloops : (db.putStep s').LoopRows :=
    h.loops.rewrites (.of_put (fun _ => .same rfl) hs hloop.same.id hmoves)
  exact ⟨hloops, within_of_admitted hloops hadmitted⟩

/-- A local write keeps the budget, when a WHILE LOOP that advances has room. -/
theorem localStep (h : db.Budgeted) (hroom : RoomForWhile env db) (hstep : LocalStep env db db') :
    db'.Budgeted := by
  cases hstep with
  | @close s s' hs hclose =>
    refine h.put hs ⟨.stopped hclose.same ?_ ?_, fun _ hrunning => ?_⟩
    · exact fun hpending => absurd (hpending ▸ hclose.terminal) (by decide)
    · exact fun hrunning => absurd (hrunning ▸ hclose.terminal) (by decide)
    · exact absurd (hrunning ▸ hclose.terminal) (by decide)
  | @gate s hs hpending htype =>
    have hkept : LoopKept s { s with conditionResult := some true } := by
      refine ⟨.other rfl fun hloop => ?_, fun _ hrunning => ?_⟩
      · rw [hloop] at htype
        rcases htype with htype | htype <;> cases htype
      · exact absurd (hpending.symm.trans hrunning) (by decide)
    exact h.put hs hkept
  | startForEach hs hpending hparent hloop _ _ hpin hsize hadmitted =>
    exact h.startForEach hs hpending hparent hloop hpin hsize hadmitted
  | @startWhile s s' cfg hs hpending hparent hloop hconfig hmode =>
    have hwhile : ∀ cfg', s.stepSnapshot.config = .loop cfg' → cfg'.mode = .while := by
      intro cfg' hconfig'
      rw [hconfig] at hconfig'
      cases hconfig'
      exact hmode
    refine h.put hs ⟨.started hloop.same hpending hparent (fun cfg' hconfig' hforEach => ?_)
      hloop.status, fun _ _ => hwhile⟩
    rw [hwhile cfg' hconfig'] at hforEach
    cases hforEach
  | @whileGate s s' cfg _ hs hrunning _ hloop hconfig hmode =>
    refine h.put hs ⟨.gated hloop.same hrunning hloop.status fun cfg' hconfig' => ?_,
      fun hpending _ => absurd (hpending.symm.trans hrunning) (by decide)⟩
    rw [hconfig] at hconfig'
    cases hconfig'
    exact hmode
  | materialize hloop htype hrunning _ hconfig hmode hnext hbound hfresh _ hrows =>
    exact h.materialize hloop htype hrunning hconfig hmode hnext hbound hfresh hrows
  | @advanceWhile s loop row cfg predicate _ _ _ hs hrunning _ hloop hconfig hmode _ hpredicate hrow hgate _ _ _ _
      hlimit hrows =>
    rw [Db.steps_putStep, Table.rows_put, List.length_map] at hlimit
    exact h.advanceWhile hs hrunning hloop hconfig hmode (hroom db .refl s hs row cfg predicate
      hloop.stepType hrunning hconfig hmode hpredicate hrow hgate hlimit) hrows

/-- Every state that the local reconcile passes keeps the budget. -/
theorem localSteps (h : db.Budgeted) (hroom : RoomForWhile env db) (hlocal : LocalSteps env db db') :
    db'.Budgeted := by
  induction hlocal with
  | refl => exact h
  | tail hbefore hstep ih =>
    exact ih.localStep (fun db₁ hlocal => hroom db₁ (hbefore.trans hlocal)) hstep

/-- READY rows reserve nothing. -/
theorem map_ready {l : List ExecutionStep} {f : ExecutionStep → ExecutionStep} (h : db.Budgeted)
    (hsame : ∀ s, SameStep s (f s)) (hready : ∀ s, (f s).status = .ready)
    (hrows : db'.steps.rows = db.steps.rows.map fun s => if s ∈ l then f s else s)
    (hplan : db'.execution.planSnapshot = db.execution.planSnapshot) : db'.Budgeted := by
  refine h.rewrites ⟨_, hrows, fun s _ => ?_⟩ hplan
  split
  · refine ⟨.stopped (hsame s) ?_ ?_, fun _ hrunning => ?_⟩
    · rw [hready s]
      exact nofun
    · rw [hready s]
      exact nofun
    · rw [hready s] at hrunning
      cases hrunning
  · exact .refl s

end Db.Budgeted

/-! ### Runs -/

/-- A run starts with the rows of its plan, which fit its limit. -/
theorem World.Initial.budgeted {w : World} (h : w.Initial)
    (hfits : w.db.steps.rows.length ≤ w.db.execution.planSnapshot.limits.maxSteps) :
    w.db.Budgeted := by
  have hpending : ∀ s ∈ w.db.steps, s.status = .pending ∧ s.parentStepId = none := by
    intro s hs
    have hinitial := (h.steps s hs).1
    simp only [ExecutionStep.isInitial, Bool.and_eq_true, beq_iff_eq, Option.isNone_iff_eq_none]
      at hinitial
    exact ⟨hinitial.1.1.1.1.1.1, hinitial.1.1.1.1.1.2⟩
  have hnot {s : ExecutionStep} (hs : s ∈ w.db.steps) (hrunning : s.status = .running) : False := by
    rw [(hpending s hs).1] at hrunning
    cases hrunning
  refine ⟨⟨fun s hs _ _ _ => ?_, fun s hs _ hrunning => (hnot hs hrunning).elim,
    fun s hs _ hrunning => (hnot hs hrunning).elim⟩, ?_⟩
  · refine List.filter_eq_nil_iff.mpr fun t ht => ?_
    rw [(hpending t ht).2]
    simp
  · have hzero : w.db.reservedSteps = 0 := by
      refine List.sum_eq_zero fun x hx => ?_
      obtain ⟨s, hs, rfl⟩ := List.mem_map.mp hx
      exact forEachReservation_eq_zero fun _ _ hrunning => (hnot hs hrunning).elim
    rw [Db.WithinMaxSteps, hzero]
    exact hfits

/-- The local reconcile of the step, if it has one, leaves room for every WHILE LOOP. -/
def World.RoomForWhile (digest : TemplateDigest) (w : World) (a : Action) : Prop :=
  ∀ env, a.runtimeEnv? = some env → McpFlow.RoomForWhile { env with digest := digest } w.db

/-- A step with room keeps the budget. -/
theorem World.budgeted_step {digest : TemplateDigest} {w w' : World} {a : Action} (hsound : w.Sound)
    (h : w.db.Budgeted) (hroom : w.RoomForWhile digest a) (hstep : w.step digest a = some w') :
    w'.db.Budgeted := by
  have hby := hsound.stepsBy hstep
  generalize w'.db = db' at hby
  cases hby with
  | moves hmoves => exact h.moves hmoves
  | claimed _ _ =>
    exact h.map_ready (f := (·.markReady _)) (fun _ => rfl) (fun _ => rfl) (steps_applyClaim ..)
      (congrArg ExecutionOrigin.planSnapshot (origin_applyClaim ..))
  | reconciled henv hlocal hmoves => exact (h.localSteps (hroom _ henv) hlocal).moves hmoves
  | reserved singleTool henv _ _ hlocal _ =>
    exact (h.localSteps (hroom _ henv) hlocal).map_ready (f := (·.promote _)) (fun _ => rfl)
      (fun _ => rfl) (steps_reserveToolWave ..)
      (congrArg ExecutionOrigin.planSnapshot (origin_reserveToolWave _ singleTool _ _))

/-- No row of an iteration raises an `AppError`. -/
theorem foldlM_materializeBody_ne_appError {bodyIds : List String} (e : AppError) :
    bodyIds.foldlM (materializeBody env loop n) db ≠ .error (.appError e) := by
  induction bodyIds generalizing db with
  | nil => exact nofun
  | cons bodyId bodyIds ih =>
    rw [List.foldlM_cons]
    cases hbody : materializeBody env loop n db bodyId with
    | ok db₁ => exact ih
    | error raised =>
      intro h
      cases h
      unfold materializeBody at hbody
      split at hbody
      · cases hbody
      unfold Db.insertStep at hbody
      split at hbody
      · cases hbody
      split at hbody <;> cases hbody

/-- An iteration of an accepted FOR_EACH LOOP never exceeds the limit. -/
theorem Db.Budgeted.materializeIteration_ne (h : db.Budgeted) (hs : s ∈ db.steps)
    (htype : s.stepType = .loop) (hrunning : s.status = .running)
    (hconfig : s.stepSnapshot.config = .loop cfg) (hmode : cfg.mode = .forEach)
    {pin : Sha256Hex × ℕ} (hpin : parseForeachCollectionPin s.resolvedInput = .ok pin)
    (hn : n ≤ pin.2) (hnext : n = 1 ∨ n = maxMaterializedIteration db.steps.rows s.id + 1) :
    materializeIteration env cfg n s db ≠ .error (.appError planLimitExceeded) := by
  unfold materializeIteration
  dsimp only
  split
  · simp [conflict, planLimitExceeded]
  split
  · split
    · simp [conflict, planLimitExceeded]
    · exact nofun
  next hfresh =>
  split
  · next hexceeds =>
    exfalso
    have hforEach := h.loops.forEach s hs htype hrunning cfg hconfig hmode
    have hnth := hforEach.next (not_not.mp hfresh) hnext
    obtain ⟨collectionHash, collectionSize, hresolved, -⟩ := hforEach.pinned
    rw [hresolved] at hpin
    cases hpin
    dsimp only at hn
    -- The LOOP itself reserves at least one iteration.
    have hreserves : cfg.bodyStepIds.length ≤ db.reservedSteps := by
      calc cfg.bodyStepIds.length
          ≤ forEachReservation db.steps.rows s := by
            rw [forEachReservation_eq htype hrunning hconfig hmode hresolved]
            exact Nat.le_mul_of_pos_right _ (by omega)
        _ ≤ db.reservedSteps := List.single_le_sum (by simp) _ (List.mem_map_of_mem hs)
    have hwithin := h.within
    unfold WithinMaxSteps at hwithin
    omega
  · exact foldlM_materializeBody_ne_appError _

/-- The row that the creation of an Execution projects from a plan step. -/
def plannedStep (id : UUID) (ps : ExecutionPlanStep)
    (h : (toolVersionForTemplate ps).isSome = true ↔ ps.type = .tool) : ExecutionStep where
  id := id
  stepKey := ps.id
  stepType := ps.type
  mcpToolVersionId := toolVersionForTemplate ps
  parentStepId := none
  status := .pending
  stepSnapshot := ps
  resolvedInput := none
  resultInline := none
  conditionResult := none
  iterationNo := none
  attemptCount := 0
  readyAt := none
  startedAt := none
  finishedAt := none
  errorCode := none
  toolVersion_isSome := h

/-- A created and queued Execution of a workflow. -/
def queuedExecution (plan : ExecutionPlanV1) : Execution where
  id := .ofNat 1
  sourceType := .workflowVersion
  triggerType := .user
  requesterId := .ofNat 2
  agentVersionId := none
  workflowVersionId := some (.ofNat 3)
  scheduleOccurrenceId := none
  status := .queued
  planSnapshot := plan
  planHash := .replicate 'a' Text.isLowerHex_a
  errorCode := none
  queuedAt := some 0
  startedAt := none
  finishedAt := none
  cancelRequestedAt := none
  cancelRequestedBy := none
  workerId := none
  leaseToken := none
  leaseExpiresAt := none
  heartbeatAt := none

/-- The world before its first claim. -/
def queuedWorld (plan : ExecutionPlanV1) (steps : Table ExecutionStep.id) : World where
  db :=
    { execution := queuedExecution plan
      steps
      attempts := .empty
      toolCalls := .empty
      approvals := .empty
      inputRequests := .empty }
  workers := []
  approvalOutbox := []
  inputOutbox := []
  tokens := []

theorem queuedWorld_initial {plan : ExecutionPlanV1} {steps : Table ExecutionStep.id}
    (h : ∀ s ∈ steps, s.isInitial = true ∧ s.conditionResult = none) :
    (queuedWorld plan steps).Initial :=
  ⟨rfl, rfl, rfl, h, rfl, rfl, rfl, rfl, rfl, rfl, rfl⟩

theorem nonBlank_load : Text.nonBlank "load" = true := by decide

theorem nonBlank_poll : Text.nonBlank "poll" = true := by decide

/-- A plan step without dependencies. -/
def rootPlanStep (id : String) (type : AuthorableStepType) (config : StepConfig)
    (h : Text.nonBlank id = true) : ExecutionPlanStep where
  id
  type
  required := true
  dependsOn := []
  when := none
  timeoutSeconds := 30
  onError := .failExecution
  config
  id_nonBlank := h
  timeoutSeconds_pos := one_le_thirty

/-- A FOR_EACH LOOP over one TOOL. -/
def eachStep : ExecutionPlanStep :=
  rootPlanStep "each" .loop
    (.loop ⟨.forEach, 3, ["load"], some .null, none, by decide, by decide, by decide, by decide⟩)
    (by decide)

/-- A WHILE LOOP over one TOOL. -/
def againStep : ExecutionPlanStep :=
  rootPlanStep "again" .loop
    (.loop ⟨.while, 3, ["poll"], none, some .null, by decide, by decide, by decide, by decide⟩)
    (by decide)

/-- Both LOOPs, side by side, with at most five rows. -/
def twoLoopPlan : ExecutionPlanV1 where
  limits := .ofNat 5 4 50
  steps :=
    [eachStep, rootPlanStep "load" .tool (.tool (.ofNat 4) []) nonBlank_load,
      againStep, rootPlanStep "poll" .tool (.tool (.ofNat 4) []) nonBlank_poll]

/-- The world of `twoLoopPlan` before its first claim. -/
def twoLoopWorld : World :=
  queuedWorld twoLoopPlan
    ⟨[plannedStep ⟨10, by decide⟩ eachStep (by decide),
      plannedStep ⟨11, by decide⟩ againStep (by decide)], by decide⟩

/-- A hash for every template. -/
def sampleDigest : TemplateDigest := fun _ => .replicate 'a' Text.isLowerHex_a

/-- A collection of three items, and a predicate that is always `gate`. -/
def loopEnv (gate : Bool) : RuntimeEnv where
  digest := sampleDigest
  computeCanonicalJsonHash := fun _ => .replicate 'a' Text.isLowerHex_a
  planLineage := .ok ()
  evaluate := fun _ _ _ => .ok gate
  resolveForeachCollection := fun _ _ => .ok (.replicate 'a' Text.isLowerHex_a, 3)
  whileEvidenceHash := fun _ _ _ => .ok (.replicate 'a' Text.isLowerHex_a)
  stepId := fun parentStepId iterationNo _ =>
    ⟨(100 * parentStepId.int + iterationNo) % 2 ^ 128, Nat.mod_lt _ (by decide)⟩
  approvalContext := fun _ => .ok ()
  approvalPolicy := fun _ => none
  approvalRequestId := .ofNat 5

/-- The claim of a worker under the lease token 6. -/
def sampleClaim : ClaimEnv := ⟨.ok (), .ok (), "worker", .ofNat 6, 60⟩

/-- The claim and the first wave. -/
def twoLoopActions (gate : Bool) : List Action :=
  [.claim (loopEnv gate) sampleClaim 1, .worker (.ofNat 6) (.prepareWave (loopEnv gate) 2)]

end McpFlow
