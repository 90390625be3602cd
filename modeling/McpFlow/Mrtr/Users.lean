import McpFlow.Mrtr.PhaseC

/-!
# Users and resume messages keep the rounds

An answer or a rejection acts on the OPEN request of a waiting Execution. A resume claim takes a
wait whose request is ANSWERED back to RUNNING, or ends it. A cancellation keeps the rows of the
call in flight.
-/

namespace McpFlow.Mrtr

variable {stepId : UUID} {ids : List UUID} {db db' : Db} {now : Time}

/-! ### Answers and rejections -/

/-- An answer that is accepted is not empty. -/
theorem validateMrtrResponses_ne_nil {inputRequests responses accepted : List (String × Json.Value)}
    (h : validateMrtrResponses inputRequests responses = .ok accepted) : accepted ≠ [] := by
  unfold validateMrtrResponses at h
  split at h
  · cases h
  split at h
  · cases h
  next hne =>
  split at h
  · cases h
  split at h
  · cases h
  rintro rfl
  cases responses with
  | nil => exact hne rfl
  | cons m ms =>
    rw [List.mapM_cons] at h
    simp only [bind, Except.bind, pure, Except.pure] at h
    repeat' split at h
    all_goals cases h

/-- The OPEN request of a waiting Execution is the last one of its STARTED Attempt. -/
private theorem Waiting.open_unique (h : Waiting db) {q : McpInputRequest}
    (hq : q ∈ db.inputRequests) (hopen : q.status = .open) {r : McpInputRequest}
    (hr : r ∈ db.inputRequests) (hropen : r.status = .open) : r = q := by
  obtain ⟨a, -, -, -, rs, last, -, -, -, huniq⟩ := h.attempt
  exact (huniq r hr hropen).trans (huniq q hq hopen).symm

variable (ids) in
theorem submitResponse_preserves {resumeLineage : Except AppError Unit} {requestId : UUID}
    {actor : Actor} {responses : List (String × Json.Value)} {outcome : MrtrResponseOutcome}
    (hs : Static stepId db) (hp : Phase db)
    (h : submitResponse resumeLineage requestId actor responses now db = .ok (outcome, db')) :
    Preserves stepId ids db db' := by
  obtain ⟨-, ⟨-, rfl⟩ | ⟨-, hwait, request, accepted, hfind, hopen, haccepted, rfl⟩⟩ :=
    submitResponse_ok h
  · exact .refl hs hp
  have hmem := Table.mem_of_find? hfind
  have hw := hp.waiting hwait
  have hrel : InputRequestEvolves request (acceptedAnswer request accepted actor.id now) :=
    ⟨rfl, rfl, rfl, rfl, rfl, rfl, fun h => by simp [hopen] at h,
      fun _ => .inr ⟨hopen, validateMrtrResponses_ne_nil haccepted⟩,
      fun h => by simp [acceptedAnswer] at h⟩
  have hev : db.Evolves (db.putInputRequest (acceptedAnswer request accepted actor.id now)) :=
    .putInputRequest hmem hrel
  have hwaiting : Waiting (db.putInputRequest (acceptedAnswer request accepted actor.id now)) := by
    obtain ⟨a, ha, has, hlen, rs, r, hreqs, hans, -, huniq⟩ := hw.attempt
    obtain rfl := huniq request hmem hopen
    have hrows : requestsOf (db.putInputRequest (acceptedAnswer request accepted actor.id now))
        a.id = (requestsOf db a.id).map fun q =>
          if q.id = request.id then acceptedAnswer request accepted actor.id now else q := by
      unfold requestsOf
      refine List.filter_map_of_forall fun q hq => ?_
      split
      · next hid =>
        rw [Table.eq_of_key_eq hq hmem hid]
        rfl
      · rfl
    rw [hreqs, List.map_append, List.map_singleton, if_pos rfl] at hrows
    refine ⟨hw.lease, hw.step, hw.call, a, ha, has, ?_, _, _, hrows, ?_, .inr rfl, ?_⟩
    · rw [length_listToolCalls_of_evolves hev, length_requestsOf_of_evolves hev]
      exact hlen
    · intro q hq
      obtain ⟨q', hq', rfl⟩ := List.mem_map.mp hq
      split
      · rfl
      · exact hans q' hq'
    · refine Table.forall_mem_put (fun _ => rfl) fun q hq hne hqopen => ?_
      exact absurd (congrArg McpInputRequest.id (huniq q hq hqopen)) hne
  refine .of_evolves hs hev ⟨?_, fun _ => hwaiting, fun hne => absurd hwait hne⟩
    (Preserves.succeeded_of_eq rfl) (.inl rfl) fun hw => hw
  rintro (hf | hf) <;> simp [hwait] at hf

variable (ids) in
theorem reject_preserves {resumeLineage : Except AppError Unit} {requestId : UUID} {actor : Actor}
    (hs : Static stepId db) (hp : Phase db)
    (h : reject resumeLineage requestId actor now db = .ok ((), db')) :
    Preserves stepId ids db db' := by
  rcases reject_ok h with rfl | ⟨hwait, request, attempt, step, hfind, hopen, hattempt, hstep, rfl⟩
  · exact .refl hs hp
  have hmem := Table.mem_of_find? hfind
  have hw := hp.waiting hwait
  have hstepMem : step ∈ db.steps := by
    rw [Table.mem_def, hstep]
    exact List.mem_singleton_self step
  have hev : db.Evolves (applyReject request attempt step actor.id now db) := by
    unfold applyReject
    refine (((Db.Evolves.putInputRequest hmem ?_).trans (.putAttempt (Table.mem_of_find? hattempt)
      ?_)).trans (.putStep hstepMem (by rfl))).trans (.putExecution _ (by rfl))
    · exact ⟨rfl, rfl, rfl, rfl, rfl, rfl, fun h => by simp [hopen] at h, fun h => by simp at h,
        fun h => by simp at h⟩
    · exact ⟨rfl, rfl, fun h => by simp at h⟩
  refine .of_evolves hs hev (.of_failed (.inl rfl) ?_) (Preserves.succeeded_of_eq rfl) (.inr rfl)
    fun hw => by simp [applyReject] at hw
  refine Table.forall_mem_put (by simp) fun q hq hne hqopen => ?_
  have hid : q.id = request.id := congrArg McpInputRequest.id (hw.open_unique hmem hopen hq hqopen)
  exact hne hid

/-! ### Cancellation -/

variable (ids) in
/-- A cancellation keeps the rows of the calls, and keeps the lease only in flight. -/
theorem applyCancellation_preserves {requestedBy : Option UUID} {outcome : CancellationOutcome}
    (hs : Static stepId db) (hp : Phase db)
    (h : applyCancellation now requestedBy db = .ok (outcome, db')) :
    Preserves stepId ids db db' ∧ db'.toolCalls = db.toolCalls ∧ (InFlight db' → InFlight db) := by
  have hphase := hp.applyCancellation hs h
  have hev := Db.Evolves.applyCancellation h
  have hmarked (e : Execution) : (e.setCancelMetadataOnce now requestedBy).leaseToken =
      e.leaseToken := by
    unfold Execution.setCancelMetadataOnce
    split <;> rfl
  obtain ⟨hcalls, htoken, hwait, hflight⟩ : db'.toolCalls = db.toolCalls ∧
      (db'.execution.leaseToken = db.execution.leaseToken ∨ db'.execution.leaseToken = none) ∧
      (db'.execution.status = .waitingInput → db.execution.status = .waitingInput) ∧
      (InFlight db' → InFlight db) := by
    unfold applyCancellation at h
    split at h
    · cases h
      exact ⟨rfl, .inl rfl, fun h => h, fun h => h⟩
    split at h
    · cases h
    next hnonterminal =>
    dsimp only at h
    split at h
    · cases h
      refine ⟨rfl, .inr rfl, fun h => by simp [Db.finalizeCancelled] at h, ?_⟩
      rintro (h | h) <;> simp [Db.finalizeCancelled] at h
    · next hcalls =>
      cases h
      refine ⟨rfl, .inl (hmarked _), fun h => by simp at h, fun _ => ?_⟩
      simp only [not_or] at hcalls
      cases hstatus : db.execution.status <;> simp [hstatus, ExecutionStatus.cancelsImmediately,
        ExecutionStatus.isTerminal, InFlight] at hcalls hnonterminal ⊢
  exact ⟨.of_evolves hs hev hphase (Preserves.succeeded_of_eq hcalls) htoken hwait, hcalls, hflight⟩

/-! ### The resume claim -/

/-- Without an OPEN request of the Step none is OPEN. -/
private theorem noOpen_of_listOpenForStep (hs : Static stepId db) {step : ExecutionStep}
    (hstep : step ∈ db.steps) (h : db.listOpenForStep step.id = []) : NoOpen db := by
  intro r hr hopen
  obtain ⟨hexec, hstepId, -⟩ := hs.request r hr
  refine List.filter_eq_nil_iff.mp h r hr ?_
  simp [hexec, hstepId, (hs.find?_step hstep).2, hopen]

variable (ids) in
/-- A claim keeps the rounds; a successful one leaves a RUNNING Execution under the new lease. -/
theorem claim_keeps {env : ResumeEnv} {requestId : UUID} {outcome : ResumeClaimOutcome}
    (hs : Static stepId db) (hp : Phase db)
    (h : claim env requestId now db = .ok (outcome, db')) :
    Keeps stepId ids db db' ∧
      (outcome.claimed = false → db' = db ∨
        (db.execution.status = .waitingInput ∧ db'.execution.status = .failed ∧
          db'.execution.leaseToken = none)) ∧
      (outcome.claimed = true → db'.execution.status = .running ∧
        db'.execution.leaseToken = some env.leaseToken ∧
        ∃ r ∈ db.inputRequests, r.id = requestId ∧ r.status = .answered) := by
  rcases claim_ok h with ⟨hclaimed, rfl, -⟩ | ⟨hwait, step, hsteps, hopen, hend⟩
  · have hkeep : Preserves stepId ids db' db' := .refl hs hp
    exact ⟨hkeep.toKeeps, fun _ => .inl rfl, fun hc => by simp [hclaimed] at hc⟩
  have hstep : step ∈ db.steps := by
    have hmem : step ∈ db.steps.rows.filter (·.status = .waitingInput) := by
      rw [hsteps]
      exact List.mem_singleton_self step
    exact (List.mem_filter.mp hmem).1
  have hw := hp.waiting hwait
  have hnoOpen := noOpen_of_listOpenForStep hs hstep hopen
  rcases hend with ⟨hclaimed, rfl⟩ | ⟨hclaimed, request, attempt, hfind, hrequest, hattempt,
    hresumable, -, rfl⟩
  · have hrows : terminalizePreconditionFailed step now db = ((db.putStep { step with
        status := .failed, errorCode := some resumePreconditionFailed,
        finishedAt := some now }).putExecution
        { db.execution.clearLease with
          status := .failed
          errorCode := some resumePreconditionFailed
          finishedAt := some now }) := by
      unfold terminalizePreconditionFailed
      rw [hw.step step hstep]
      exact if_pos hwait
    rw [hrows]
    have hkeep : Preserves stepId ids db ((db.putStep { step with
        status := .failed, errorCode := some resumePreconditionFailed,
        finishedAt := some now }).putExecution
        { db.execution.clearLease with
          status := .failed
          errorCode := some resumePreconditionFailed
          finishedAt := some now }) :=
      .of_evolves hs ((Db.Evolves.putStep hstep (by rfl)).trans (.putExecution _ (by rfl)))
        (.of_failed (.inl rfl) hnoOpen) (Preserves.succeeded_of_eq rfl) (.inr rfl)
        fun hw => by simp at hw
    exact ⟨hkeep.toKeeps, fun _ => .inr ⟨hwait, rfl, rfl⟩,
      fun hc => by simp [hclaimed] at hc⟩
  · simp only [resumableRequest, Bool.and_eq_true, beq_iff_eq] at hrequest
    have ha : attempt ∈ db.attempts := Table.mem_of_find? hattempt
    have hev : db.Evolves (applyResume env step attempt now db) :=
      { executionId := rfl
        steps := .of_put StepEvolves.refl hstep rfl rfl
        attempts := .of_put AttemptEvolves.refl ha rfl ⟨rfl, rfl, fun h => h⟩
        toolCalls := .refl ToolCallEvolves.refl _
        inputRequests := .refl InputRequestEvolves.refl _ }
    have hrunning : Running (applyResume env step attempt now db) := by
      refine ⟨hnoOpen, fun c hc hcs => absurd hcs (hw.call c hc), fun b' hb' hbs => ?_, ?_⟩
      · -- The STARTED Attempt is the waiting one; its last request is no longer OPEN.
        obtain ⟨b, hb, hrel⟩ := hev.attempts.exists_of_mem hb'
        obtain ⟨a, ha, has, hlen, rs, r, hreqs, hans, hlast, -⟩ := hw.attempt
        obtain rfl := hs.oneStarted b hb a ha (hrel.started hbs) has
        have hr : r ∈ requestsOf db b.id := by
          rw [hreqs]
          exact List.mem_append_right _ (List.mem_singleton_self r)
        have hranswered : r.status = .answered :=
          hlast.resolve_left (hnoOpen r (mem_requestsOf.mp hr).1)
        rw [hrel.id]
        refine ⟨fun q hq => ?_, fun _ => hlen⟩
        have hq' : q ∈ rs ++ [r] := hreqs ▸ hq
        rcases List.mem_append.mp hq' with hq' | hq'
        · exact hans q hq'
        · rw [List.mem_singleton.mp hq']
          exact hranswered
      · refine Table.forall_mem_put (fun h => by simp at h) fun s hs' hne => ?_
        exact absurd ((hs.find?_step hs').2.trans (hs.find?_step hstep).2.symm) hne
    have hkeeps : Keeps stepId ids db (applyResume env step attempt now db) := by
      refine ⟨hs.evolves hev, .of_running (.inl rfl) hrunning, Preserves.answered_of_evolves hev, ?_,
        Preserves.succeeded_of_eq rfl, fun _ _ _ _ hw' => by cases hw'⟩
      exact fun c hc => ⟨c, hc, rfl, rfl, rfl⟩
    refine ⟨hkeeps, fun hc => by simp [hclaimed] at hc, fun _ => ⟨rfl, rfl, request, ?_, ?_, ?_⟩⟩
    · exact Table.mem_of_find? hfind
    · exact Table.key_of_find? hfind
    · exact hrequest.1.2

/-- The resume of a round that is behind ends a wait whose request is ANSWERED. -/
theorem claim_spent (env : ResumeEnv) (now : Time) (hs : Static stepId db) (hp : Phase db)
    (hwait : db.execution.status = .waitingInput) (hnoOpen : NoOpen db) {r : McpInputRequest}
    (hr : r ∈ db.inputRequests) (hspent : Spent db r) :
    ∃ db', claim env r.id now db = .ok (⟨false, some resumePreconditionFailed⟩, db') ∧
      db'.execution.status = .failed := by
  obtain ⟨step, hrows, -⟩ := hs.step
  have hw := hp.waiting hwait
  have hstep : step ∈ db.steps := by
    rw [Table.mem_def, hrows]
    exact List.mem_singleton_self step
  have hopen : db.listOpenForStep step.id = [] := by
    refine List.filter_eq_nil_iff.mpr fun q hq => ?_
    simp [hnoOpen q hq]
  refine ⟨terminalizePreconditionFailed step now db, ?_, ?_⟩
  · unfold claim
    rw [if_neg (not_not.mpr hwait), hrows, List.filter_cons_of_pos (by simp [hw.step step hstep]),
      List.filter_nil]
    dsimp only
    unfold claimWaiting
    rw [if_neg (by simp [hw.lease]), if_neg (not_not.mpr hopen), Table.find?_key_of_mem hr]
    dsimp only
    split
    · rfl
    split
    · rfl
    next attempt hattempt =>
    split
    · rfl
    next hresumable =>
    split
    · rfl
    rw [if_pos]
    · rfl
    -- The Attempt already has more calls than the round of the request.
    simp only [resumableAttempt, Bool.not_eq_true', Bool.not_eq_false, Bool.and_eq_true,
      beq_iff_eq] at hresumable
    have hlt := hspent hwait attempt (Table.mem_of_find? hattempt) (Table.key_of_find? hattempt)
      hresumable.1.1.1.1
    simp only [roundEvidence, Bool.not_eq_true', Bool.and_eq_false_iff, beq_eq_false_iff_ne]
    exact .inr (by omega)
  · unfold terminalizePreconditionFailed
    dsimp only
    rw [if_pos]
    · rfl
    · split
      · exact hwait
      · exact hwait

end McpFlow.Mrtr
