import McpFlow.Mrtr.PhaseA

/-!
# The gate and Phase C keep the rounds

Both write only for the owner of the lease, whose call is the one in flight. Ending that call
settles its Attempt; a completed `input_required` call instead closes the round with its request
and opens the wait.
-/

namespace McpFlow.Mrtr

variable {stepId : UUID} {ids : List UUID} {db db' : Db} {now : Time} {step : ExecutionStep}
  {attempt : StepAttempt} {toolCall : ToolCall} {p : PreparedCall}

/-! ### A call under cancellation -/

/-- The rows of a call that ends with its Attempt and Step CANCELLED, before the reconcile. -/
private def cancelledCall (step : ExecutionStep) (attempt : StepAttempt) (toolCall : ToolCall)
    (status : StepAttemptStatus) (now : Time) (db : Db) : Db :=
  (((db.putToolCall { toolCall with normalizedStatus := status, finishedAt := some now }).putAttempt
    (attempt.cancel now)).putStep (step.cancel now)).ensureCancelRequested now

private theorem execution_ensureCancelRequested (db : Db) (now : Time) :
    (db.ensureCancelRequested now).execution.status = .cancelRequested ∧
      (db.ensureCancelRequested now).execution.leaseToken = db.execution.leaseToken := by
  unfold Db.ensureCancelRequested
  split
  · next h => exact ⟨h, rfl⟩
  · exact ⟨rfl, rfl⟩

private theorem tables_ensureCancelRequested (db : Db) (now : Time) :
    (db.ensureCancelRequested now).attempts = db.attempts ∧
      (db.ensureCancelRequested now).toolCalls = db.toolCalls := by
  unfold Db.ensureCancelRequested
  split <;> exact ⟨rfl, rfl⟩

/-- The owner of a call ends it under a requested cancellation. -/
private theorem preserves_cancelledCall (hs : Static stepId db) (hr : Running db)
    (hstep : step ∈ db.steps) (ha : attempt ∈ db.attempts) (hc : toolCall ∈ db.toolCalls)
    (hac : toolCall.stepAttemptId = attempt.id) (hstarted : toolCall.normalizedStatus = .started)
    {status : StepAttemptStatus} (hstatus : status ≠ .started)
    (hids : status = .succeeded → toolCall.id ∈ ids) {outcome : CancellationOutcome}
    (h : reconcileCancelRequested now (cancelledCall step attempt toolCall status now db) =
      .ok (outcome, db')) : Preserves stepId ids db db' := by
  have hcall : ToolCallEvolves toolCall
      { toolCall with normalizedStatus := status, finishedAt := some now } :=
    ⟨rfl, rfl, rfl, fun h => by simp [hstarted] at h, fun h => absurd h hstatus⟩
  have hev : db.Evolves (cancelledCall step attempt toolCall status now db) :=
    (Db.Evolves.putCallRows hstep ha hc (step.id_cancel now) (.cancel attempt now) hcall).trans
      (.ensureCancelRequested _ now)
  have hexec := execution_ensureCancelRequested (((db.putToolCall
    { toolCall with normalizedStatus := status, finishedAt := some now }).putAttempt
      (attempt.cancel now)).putStep (step.cancel now)) now
  have htables := tables_ensureCancelRequested (((db.putToolCall
    { toolCall with normalizedStatus := status, finishedAt := some now }).putAttempt
      (attempt.cancel now)).putStep (step.cancel now)) now
  have hsettled : Preserves stepId ids db (cancelledCall step attempt toolCall status now db) := by
    refine .settle hs hr ha hc hac hstarted hev ?_ ?_ ?_ (.inl hexec.2) ?_
    · rw [cancelledCall, htables.1]
      exact Table.forall_mem_put (fun _ => attempt.status_cancel_ne now)
        fun b _ hb hid => absurd (hid.trans (attempt.id_cancel now).symm) hb
    · rw [cancelledCall, htables.2]
      exact Table.forall_mem_put (fun _ => hstatus) fun d _ hd hid => absurd hid hd
    · exact Preserves.succeeded_of_put htables.2 hids
    · rw [cancelledCall, hexec.1]
      simp
  exact hsettled.trans (.reconcileCancelRequested hsettled.static hsettled.phase h)

/-! ### The final gate -/

private theorem evolves_failStep {step : Option ExecutionStep}
    (hstep : ∀ s, step = some s → s ∈ db.steps) (errorCode : String) :
    ∃ db₁, step.elim db (fun s => failNonterminalStep s errorCode now db) = db₁ ∧
      db.Evolves db₁ ∧ db₁.attempts = db.attempts ∧ db₁.toolCalls = db.toolCalls := by
  cases step with
  | none => exact ⟨db, rfl, .refl db, rfl, rfl⟩
  | some s =>
    refine ⟨_, rfl, .failNonterminalStep (hstep s rfl) errorCode now, ?_⟩
    simp only [Option.elim_some, failNonterminalStep]
    split <;> exact ⟨rfl, rfl⟩

private theorem evolves_failAttempt {attempt : Option StepAttempt}
    (ha : ∀ a, attempt = some a → a ∈ db.attempts) (errorCode : String) :
    ∃ db₁, attempt.elim db (fun a => failStartedAttempt a errorCode now db) = db₁ ∧
      db.Evolves db₁ ∧ db₁.toolCalls = db.toolCalls := by
  cases attempt with
  | none => exact ⟨db, rfl, .refl db, rfl⟩
  | some a =>
    refine ⟨_, rfl, ?_⟩
    simp only [Option.elim_some, failStartedAttempt]
    split
    · exact ⟨.putAttempt (ha a rfl) ⟨rfl, rfl, fun h => by simp at h⟩, rfl⟩
    · exact ⟨.refl db, rfl⟩

private theorem evolves_failToolCall {toolCall : Option ToolCall}
    (hc : ∀ c, toolCall = some c → c ∈ db.toolCalls) :
    ∃ db₁, toolCall.elim db (fun c => failStartedToolCall c now db) = db₁ ∧ db.Evolves db₁ ∧
      ∀ c' ∈ db₁.toolCalls, c'.normalizedStatus = .succeeded →
        ∃ c ∈ db.toolCalls, c.id = c'.id ∧ c.normalizedStatus = .succeeded := by
  have hsame : ∀ c' ∈ db.toolCalls, c'.normalizedStatus = .succeeded →
      ∃ c ∈ db.toolCalls, c.id = c'.id ∧ c.normalizedStatus = .succeeded :=
    fun c hc h => ⟨c, hc, rfl, h⟩
  cases toolCall with
  | none => exact ⟨db, rfl, .refl db, hsame⟩
  | some c =>
    refine ⟨_, rfl, ?_⟩
    simp only [Option.elim_some, failStartedToolCall]
    split
    · next hstarted =>
      refine ⟨.putToolCall (hc c rfl) ⟨rfl, rfl, rfl, fun h => by simp [hstarted] at h,
        fun h => by simp at h⟩, ?_⟩
      exact Table.forall_mem_put (fun h => by simp at h) fun d hd _ => hsame d hd
    · exact ⟨.refl db, hsame⟩

private theorem evolves_corruption {step : Option ExecutionStep} {attempt : Option StepAttempt}
    {toolCall : Option ToolCall} {result : GateResult} (hstep : ∀ s, step = some s → s ∈ db.steps)
    (ha : ∀ a, attempt = some a → a ∈ db.attempts)
    (hc : ∀ c, toolCall = some c → c ∈ db.toolCalls) (hdefer : p.deferExecutionTerminalization = false)
    (h : (result, db') = finalGateFailClosedLineageCorruption step attempt toolCall p now db) :
    db.Evolves db' ∧ db'.execution.status = .failed ∧ db'.execution.leaseToken = none ∧
      (∀ c' ∈ db'.toolCalls, c'.normalizedStatus = .succeeded →
        ∃ c ∈ db.toolCalls, c.id = c'.id ∧ c.normalizedStatus = .succeeded) ∧
      ∃ o, result = .outcome o := by
  unfold finalGateFailClosedLineageCorruption at h
  -- The three guarded writes, one after another.
  obtain ⟨db₁, h₁, hev₁, hattempts₁, hcalls₁⟩ := evolves_failStep hstep
    "RESOURCE_CONFLICT"
  rw [← hattempts₁] at ha
  obtain ⟨db₂, h₂, hev₂, hcalls₂⟩ := evolves_failAttempt ha "RESOURCE_CONFLICT"
  rw [← hcalls₁, ← hcalls₂] at hc
  obtain ⟨db₃, h₃, hev₃, hsucc₃⟩ := evolves_failToolCall hc
  dsimp only at h
  rw [h₁, h₂, h₃, hdefer] at h
  obtain ⟨rfl, rfl⟩ := Prod.mk.inj h
  rw [hcalls₂, hcalls₁] at hsucc₃
  exact ⟨((hev₁.trans hev₂).trans hev₃).trans (.applyOrDeferExecutionFatal _ now false _), rfl, rfl,
    hsucc₃, _, rfl⟩

variable (ids) in
/-- The gate writes only for the owner; a call that passes or is refused leaves the rows. -/
theorem finalPreSendGate_preserves {verdict : Option String} {result : GateResult}
    (hs : Static stepId db) (hp : Phase db) (hdefer : p.deferExecutionTerminalization = false)
    (h : finalPreSendGate verdict p now db = .ok (result, db')) :
    Preserves stepId ids db db' ∧ (db' = db ∨ db.execution.leaseToken = some p.leaseToken) ∧
      ((∃ o, result = .outcome o) ∨
        (db' = db ∧ db.execution.leaseToken = some p.leaseToken)) := by
  rcases finalPreSendGate_ok h with ⟨-, rfl, rfl⟩ | ⟨howned, hcorrupt |
    ⟨step, attempt, toolCall, hstep, hattempt, hcall, hmatch, hend⟩⟩
  · exact ⟨.refl hs hp, .inl rfl, .inl ⟨_, rfl⟩⟩
  · have htoken := Execution.leaseToken_of_ownedInFlight howned
    have hr := hp.running_of_owned howned
    obtain ⟨hev, hfailed, hcleared, hsucc, hresult⟩ := evolves_corruption
      (fun _ => Table.mem_of_find?) (fun _ => Table.mem_of_find?) (fun _ => Table.mem_of_find?)
      hdefer hcorrupt
    refine ⟨.of_evolves hs hev (.of_failed (.inl hfailed) (hr.noOpen.evolves hev))
      (fun c hc hc' => .inr (hsucc c hc hc')) (.inr hcleared) fun hw => ?_, .inr htoken,
      .inl hresult⟩
    rw [hfailed] at hw
    cases hw
  · have htoken := Execution.leaseToken_of_ownedInFlight howned
    rcases hend with ⟨-, outcome, hcancel, rfl⟩ | ⟨-, rfl, -⟩
    · refine ⟨?_, .inr htoken, .inl ⟨_, rfl⟩⟩
      simp only [preparedInvocationLineageMatches, Bool.and_eq_true, beq_iff_eq] at hmatch
      obtain ⟨⟨⟨⟨⟨⟨⟨-, hac⟩, -⟩, -⟩, -⟩, hstarted⟩, -⟩, -⟩ := hmatch
      unfold cancelPreparedInvocationBeforeSend at hcancel
      rw [if_pos hstarted] at hcancel
      exact preserves_cancelledCall hs (hp.running_of_owned howned) (Table.mem_of_find? hstep)
        (Table.mem_of_find? hattempt) (Table.mem_of_find? hcall) hac hstarted (by simp) (by simp)
        hcancel
    · exact ⟨.refl hs hp, .inl rfl, .inr ⟨rfl, htoken⟩⟩

/-! ### Phase C -/

/-- The owner's fence finds the rows of the call in flight. -/
private theorem fence_rows (hp : Phase db)
    (hholds : db.execution.leaseToken = some p.leaseToken → InFlight db → Holds db p)
    (h : finalizeFence p now db = some (step, attempt, toolCall)) :
    Running db ∧ InFlight db ∧ db.execution.leaseToken = some p.leaseToken ∧ step ∈ db.steps ∧
      attempt ∈ db.attempts ∧ toolCall ∈ db.toolCalls ∧ toolCall.stepAttemptId = attempt.id ∧
      toolCall.normalizedStatus = .started ∧ toolCall.id = p.toolCallId ∧
      attempt.stepExecutionId = step.id := by
  obtain ⟨howned, hstep, hattempt, hcall, hstepId, hac⟩ := finalizeFence_some h
  have hflight : InFlight db := (Execution.ownedInFlight_iff.mp howned).1
  have htoken := Execution.leaseToken_of_ownedInFlight howned
  obtain ⟨-, -, -, c, hc, hid, -, hstarted⟩ := hholds htoken hflight
  have hmem := Table.mem_of_find? hcall
  have hkey := Table.key_of_find? hcall
  rw [Table.eq_of_key_eq hc hmem (hid.trans hkey.symm)] at hstarted
  exact ⟨hp.inFlight hflight, hflight, htoken, Table.mem_of_find? hstep,
    Table.mem_of_find? hattempt, hmem, hac, hstarted, hkey, hstepId⟩

variable (ids) in
/-- Phase C writes only for the owner, and settles its call or hands it to a retry. -/
theorem finalizeLocked_preserves {pinned : Except AppError PinnedToolPolicy} {callEnd : CallEnd}
    {outcome : ToolRunOutcome} (hs : Static stepId db) (hp : Phase db)
    (hdefer : p.deferExecutionTerminalization = false)
    (hholds : db.execution.leaseToken = some p.leaseToken → InFlight db → Holds db p)
    (hids : callEnd.callError = none → p.toolCallId ∈ ids)
    (h : finalizeLocked pinned p callEnd now db = .ok (outcome, db')) :
    Preserves stepId ids db db' ∧ db.execution.leaseToken = some p.leaseToken := by
  obtain ⟨step, attempt, toolCall, risk, hfence, hend⟩ := finalizeLocked_ok h
  obtain ⟨hr, hflight, htoken, hstep, ha, hc, hac, hstarted, hid, -⟩ := fence_rows hp hholds hfence
  refine ⟨?_, htoken⟩
  have hids' (hsucc : callEnd.terminal risk = .succeeded) : toolCall.id ∈ ids := by
    rw [hid]
    refine hids ?_
    cases callEnd with
    | result r => rfl
    | error e =>
      rw [CallEnd.terminal] at hsucc
      split at hsucc
      · cases hsucc
      · exact absurd hsucc (classifyMcpFailure_ne_succeeded e risk)
  rcases hend with ⟨e, rfl, -, -, rfl⟩ | hterminal
  · have hne := classifyMcpFailure_ne_started e risk
    have hcall : ToolCallEvolves toolCall
        { toolCall with normalizedStatus := classifyMcpFailure e risk, finishedAt := some now } :=
      ⟨rfl, rfl, rfl, fun h => by simp [hstarted] at h, fun h => absurd h hne⟩
    have hattempt : AttemptEvolves attempt
        { attempt with
          status := classifyMcpFailure e risk
          errorCode := some e.errorCode
          isRetryable := some true
          resultInline := none
          finishedAt := some now } := ⟨rfl, rfl, fun h => absurd h hne⟩
    have hev : db.Evolves (applyRetryCheckpoint step attempt toolCall e risk now db) :=
      .putCallRows hstep ha hc (by rfl) hattempt hcall
    refine .settle hs hr ha hc hac hstarted hev ?_ ?_ (Preserves.succeeded_of_put rfl ?_) (.inl rfl)
      hflight.ne_waitingInput
    · exact Table.forall_mem_put (fun _ => hne) fun b _ hb hid => absurd hid hb
    · exact Table.forall_mem_put (fun _ => hne) fun d _ hd hid => absurd hid hd
    · exact fun hsucc => absurd hsucc (classifyMcpFailure_ne_succeeded e risk)
  · obtain ⟨-, -, -, hrows⟩ := finalizeTerminal_ok hterminal
    rw [hdefer] at hrows
    have hkeep : Preserves stepId ids db
        (applyTerminalTransition step attempt toolCall callEnd risk now false db) :=
      .applyTerminalTransition hs hr hflight hstep ha hc hac hstarted callEnd risk now hids'
    rcases hrows with rfl | ⟨-, o, hrec⟩
    · exact hkeep
    · exact hkeep.trans (.reconcileCancelRequested hkeep.static hkeep.phase hrec)

/-! ### A completed `input_required` call -/

/-- Requests of an Attempt after an insertion. -/
private theorem requestsOf_insert {r : McpInputRequest} {inputRequests : Table McpInputRequest.id}
    (hinsert : db.inputRequests.insert? r = some inputRequests) (attemptId : UUID) :
    requestsOf { db with inputRequests := inputRequests } attemptId =
      requestsOf db attemptId ++ if r.stepAttemptId = attemptId then [r] else [] := by
  unfold requestsOf
  rw [(Table.insert?_eq_some_iff.mp hinsert).2, List.filter_append]
  split <;> simp_all

/-- The request of a completed round. -/
private theorem static_insertInputRequest (hs : Static stepId db) (ha : attempt ∈ db.attempts)
    {r : McpInputRequest} {inputRequests : Table McpInputRequest.id}
    (hinsert : db.inputRequests.insert? r = some inputRequests)
    (hexec : r.executionId = db.execution.id) (hstep : r.stepExecutionId = stepId)
    (hattempt : r.stepAttemptId = attempt.id) (hstatus : r.status ≠ .answered)
    (hlen : (db.listToolCalls attempt.id).length = (requestsOf db attempt.id).length + 1)
    (hcalls : ∀ c ∈ db.listToolCalls attempt.id, c.normalizedStatus = .succeeded)
    (hround : r.roundNo = (requestsOf db attempt.id).length + 1) :
    Static stepId { db with inputRequests := inputRequests } where
  step := hs.step
  attemptStep := hs.attemptStep
  callAttempt := hs.callAttempt
  request := (Table.forall_mem_insert? hinsert).mpr
    ⟨hs.request, hexec, hstep, attempt, ha, hattempt.symm⟩
  rounds b hb := by
    rw [requestsOf_insert hinsert]
    by_cases hba : b.id = attempt.id
    · rw [if_pos (hattempt.trans hba.symm)]
      rw [← hba] at hlen hcalls hround
      exact (hs.rounds b hb).request hlen hcalls hround
    · rw [if_neg fun h => hba (h.symm.trans hattempt), List.append_nil]
      exact hs.rounds b hb
  oneStarted := hs.oneStarted
  payload := (Table.forall_mem_insert? hinsert).mpr
    ⟨hs.payload, fun h => absurd h hstatus⟩

/-- The round of the call in flight is the next one. -/
private theorem mrtrRoundNo_eq (hs : Static stepId db) (ha : attempt ∈ db.attempts)
    (hc : toolCall ∈ db.toolCalls) (hac : toolCall.stepAttemptId = attempt.id)
    (hstarted : toolCall.normalizedStatus = .started) :
    (db.listToolCalls attempt.id).length = (requestsOf db attempt.id).length + 1 ∧
      mrtrRoundNo db attempt toolCall = (requestsOf db attempt.id).length + 1 ∧
      ∀ c ∈ db.listToolCalls attempt.id, c.id ≠ toolCall.id → c.normalizedStatus = .succeeded := by
  have hrounds := hs.rounds attempt ha
  obtain ⟨hlen, hsplit⟩ := hrounds.eq_append_of_not_succeeded
    (mem_listToolCalls.mpr ⟨hc, hac⟩) (by simp [hstarted])
  have hkeys : ((db.listToolCalls attempt.id).map (·.id)).Nodup :=
    db.toolCalls.nodup_keys.sublist (List.filter_sublist.map _)
  have hne : ∀ c ∈ (db.listToolCalls attempt.id).take (requestsOf db attempt.id).length,
      c.id ≠ toolCall.id := by
    intro c hcmem heq
    rw [hsplit, List.map_append, List.nodup_append] at hkeys
    exact hkeys.2.2 c.id (List.mem_map_of_mem hcmem) toolCall.id (by simp) heq
  refine ⟨hlen, ?_, fun c hcmem hcne => ?_⟩
  · unfold mrtrRoundNo
    rw [hsplit, List.filter_append, List.filter_eq_self.mpr, List.filter_eq_nil_iff.mpr,
      List.append_nil, List.length_take, hlen]
    · omega
    · simp
    · intro c hcmem
      simp [hne c hcmem, hrounds.succeeded c hcmem]
  · rw [hsplit] at hcmem
    rcases List.mem_append.mp hcmem with hcmem | hcmem
    · exact hrounds.succeeded c hcmem
    · exact absurd (congrArg ToolCall.id (List.mem_singleton.mp hcmem)) hcne

/-- All calls of the Attempt are complete once the call in flight is. -/
private theorem succeeded_of_settled
    (hcalls : ∀ c ∈ db.listToolCalls attempt.id, c.id ≠ toolCall.id →
      c.normalizedStatus = .succeeded)
    (h : db'.toolCalls = db.toolCalls.put
      { toolCall with normalizedStatus := .succeeded, finishedAt := some now }) :
    ∀ c ∈ db'.listToolCalls attempt.id, c.normalizedStatus = .succeeded := by
  intro c hc
  obtain ⟨hc, hid⟩ := mem_listToolCalls.mp hc
  rw [h] at hc
  rcases Table.mem_put hc with rfl | ⟨hc, hne⟩
  · rfl
  · exact hcalls c (mem_listToolCalls.mpr ⟨hc, hid⟩) hne

/-- The Step timeout ends a completed round: its request is kept as EXPIRED. -/
private theorem preserves_timedOut (hs : Static stepId db) (hr : Running db)
    (hflight : InFlight db) (hstep : step ∈ db.steps) (ha : attempt ∈ db.attempts)
    (hc : toolCall ∈ db.toolCalls) (hac : toolCall.stepAttemptId = attempt.id)
    (hstarted : toolCall.normalizedStatus = .started) (hid : toolCall.id ∈ ids)
    {mrtr : InputRequired} {requestId : UUID} {inputRequests : Table McpInputRequest.id}
    (hinsert : db.inputRequests.insert? (newInputRequest db step attempt toolCall mrtr requestId
      .expired now) = some inputRequests) :
    Preserves stepId ids db
      ({ settleCallRows step attempt toolCall .succeeded .timedOut "STEP_TIMEOUT" now db with
        inputRequests := inputRequests }.putExecution
          { db.execution with heartbeatAt := some now }) := by
  have hcall : ToolCallEvolves toolCall
      { toolCall with normalizedStatus := .succeeded, finishedAt := some now } :=
    ⟨rfl, rfl, rfl, fun _ => rfl, fun h => by simp at h⟩
  have hattempt : AttemptEvolves attempt
      { attempt with
        status := .timedOut
        errorCode := some "STEP_TIMEOUT"
        isRetryable := some false
        finishedAt := some now
        workerId := none
        leaseExpiresAt := none } := ⟨rfl, rfl, fun h => by simp at h⟩
  have hev : db.Evolves
      (settleCallRows step attempt toolCall .succeeded .timedOut "STEP_TIMEOUT" now db) :=
    .putCallRows hstep ha hc (by rfl) hattempt hcall
  have hattempts : ∀ a' ∈ (settleCallRows step attempt toolCall .succeeded .timedOut "STEP_TIMEOUT"
      now db).attempts, a'.id = attempt.id → a'.status ≠ .started :=
    Table.forall_mem_put (fun _ => by simp) fun b _ hb hbid => absurd hbid hb
  have hcalls : ∀ c' ∈ (settleCallRows step attempt toolCall .succeeded .timedOut "STEP_TIMEOUT"
      now db).toolCalls, c'.id = toolCall.id → c'.normalizedStatus ≠ .started :=
    Table.forall_mem_put (fun _ => by simp) fun d _ hd hdid => absurd hdid hd
  have hkeep : Preserves stepId ids db
      (settleCallRows step attempt toolCall .succeeded .timedOut "STEP_TIMEOUT" now db) :=
    .settle hs hr ha hc hac hstarted hev hattempts hcalls
      (Preserves.succeeded_of_put rfl fun _ => hid) (.inl rfl) hflight.ne_waitingInput
  obtain ⟨hnoCall, hnoAttempt⟩ := hr.settled hs ha hc hac hstarted hev hattempts hcalls
  obtain ⟨hlen, hround, hothers⟩ := mrtrRoundNo_eq hs ha hc hac hstarted
  have hstatic : Static stepId
      { settleCallRows step attempt toolCall .succeeded .timedOut "STEP_TIMEOUT" now db with
        inputRequests := inputRequests } := by
    refine static_insertInputRequest hkeep.static (Table.mem_put_self ha (by rfl)) hinsert rfl
      (hs.find?_step hstep).2 rfl (by simp [newInputRequest]) ?_ ?_ hround
    · rw [length_listToolCalls_of_evolves hev]
      exact hlen
    · exact succeeded_of_settled hothers rfl
  have hopen : ∀ r ∈ inputRequests, r.status ≠ .open :=
    (Table.forall_mem_insert? hinsert).mpr ⟨hr.noOpen, by simp [newInputRequest]⟩
  have hphase : Phase
      { settleCallRows step attempt toolCall .succeeded .timedOut "STEP_TIMEOUT" now db with
        inputRequests := inputRequests } :=
    .of_idle hflight.ne_waitingInput hopen hnoCall hnoAttempt
  have hinserted : Preserves stepId ids
      (settleCallRows step attempt toolCall .succeeded .timedOut "STEP_TIMEOUT" now db)
      { settleCallRows step attempt toolCall .succeeded .timedOut "STEP_TIMEOUT" now db with
        inputRequests := inputRequests } :=
    ⟨⟨hstatic, hphase, fun r hr _ => (Table.mem_of_insert? hinsert).mpr (.inl hr),
      fun c hc => ⟨c, hc, rfl, rfl, rfl⟩, Preserves.succeeded_of_eq rfl,
      fun _ _ _ _ hw => absurd hw hflight.ne_waitingInput⟩, .inl rfl⟩
  exact (hkeep.trans hinserted).trans
    (.putExecution hstatic hphase (by rfl) rfl rfl hflight.ne_waitingInput)

/-- The completed round opens the wait: the Attempt stays STARTED, with one request more. -/
private theorem preserves_openInputWait (hs : Static stepId db) (hr : Running db)
    (hstep : step ∈ db.steps) (ha : attempt ∈ db.attempts) (hc : toolCall ∈ db.toolCalls)
    (hac : toolCall.stepAttemptId = attempt.id) (hstarted : toolCall.normalizedStatus = .started)
    (hid : toolCall.id ∈ ids) {mrtr : InputRequired} {requestId : UUID} {outcome : ToolRunOutcome}
    (h : openInputWait step attempt toolCall mrtr requestId now db = .ok (outcome, db')) :
    Preserves stepId ids db db' := by
  obtain ⟨inputRequests, hinsert, rfl⟩ := openInputWait_ok h
  have has := hr.started_of_call ha hc hac hstarted
  obtain ⟨hlen, hround, hothers⟩ := mrtrRoundNo_eq hs ha hc hac hstarted
  have hcall : ToolCallEvolves toolCall
      { toolCall with normalizedStatus := .succeeded, finishedAt := some now } :=
    ⟨rfl, rfl, rfl, fun _ => rfl, fun h => by simp at h⟩
  have hattempt : AttemptEvolves attempt { attempt with workerId := none, leaseExpiresAt := none } :=
    ⟨rfl, rfl, fun h => h⟩
  have hev : db.Evolves ((((db.putToolCall
      { toolCall with normalizedStatus := .succeeded, finishedAt := some now }).putAttempt
      { attempt with workerId := none, leaseExpiresAt := none }).putStep
      { step with status := .waitingInput, finishedAt := none, errorCode := none }).putExecution
      { db.execution.clearLease with
        status := .waitingInput, finishedAt := none, errorCode := none }) :=
    (Db.Evolves.putCallRows hstep ha hc (by rfl) hattempt hcall).trans (.putExecution _ (by rfl))
  have hlen' := (length_listToolCalls_of_evolves hev attempt.id).trans hlen
  have hmem : { attempt with workerId := none, leaseExpiresAt := none } ∈
      db.attempts.put { attempt with workerId := none, leaseExpiresAt := none } :=
    Table.mem_put_self ha rfl
  have hstatic := static_insertInputRequest (hs.evolves hev) hmem hinsert rfl
    (hs.find?_step hstep).2 rfl (by simp [newInputRequest]) hlen'
    (succeeded_of_settled hothers rfl) hround
  have hrequests := requestsOf_insert hinsert attempt.id
  rw [if_pos (by rfl)] at hrequests
  have hwaiting : Waiting { (((db.putToolCall
      { toolCall with normalizedStatus := .succeeded, finishedAt := some now }).putAttempt
      { attempt with workerId := none, leaseExpiresAt := none }).putStep
      { step with status := .waitingInput, finishedAt := none, errorCode := none }).putExecution
      { db.execution.clearLease with
        status := .waitingInput, finishedAt := none, errorCode := none } with
      inputRequests := inputRequests } := by
    refine ⟨rfl, ?_, ?_, _, hmem, has, ?_, _, _, hrequests, (hr.attempt attempt ha has).1, .inl rfl,
      ?_⟩
    · refine Table.forall_mem_put rfl fun s hs' hne => ?_
      exact absurd ((hs.find?_step hs').2.trans (hs.find?_step hstep).2.symm) hne
    · refine Table.forall_mem_put (by simp) fun d hd hne hds => ?_
      have hid : d.id = toolCall.id := congrArg ToolCall.id (hr.call_unique hs hc hstarted hd hds)
      exact hne hid
    · refine hlen'.trans ?_
      exact (congrArg List.length hrequests).trans (by simp) |>.symm
    · exact (Table.forall_mem_insert? hinsert).mpr
        ⟨fun q hq hopen => absurd hopen (hr.noOpen q hq), fun _ => rfl⟩
  refine ⟨⟨hstatic, ⟨?_, fun _ => hwaiting, fun hne => absurd rfl hne⟩,
    fun r hr _ => (Table.mem_of_insert? hinsert).mpr (.inl hr), ?_,
    Preserves.succeeded_of_put rfl fun _ => hid, ?_⟩, .inr rfl⟩
  · rintro (hf | hf) <;> cases hf
  · intro c hc
    obtain ⟨c', hc', hrel⟩ := hev.toolCalls.exists_mem hc
    exact ⟨c', hc', hrel.id, hrel.stepAttemptId, hrel.mrtrInputRequestId⟩
  · -- An old request of the waiting Attempt belongs to an earlier round.
    intro r hrmem _ _ _ a' ha' hra hstarted'
    obtain ⟨b, hb, hrel⟩ := hev.attempts.exists_of_mem ha'
    obtain rfl := hs.oneStarted b hb attempt ha (hrel.started hstarted') has
    have hle := ((hs.rounds b hb).roundNo_mem
      (mem_requestsOf.mpr ⟨hrmem, hra.symm.trans hrel.id⟩)).2
    have hlen'' : (({ (((db.putToolCall
      { toolCall with normalizedStatus := .succeeded, finishedAt := some now }).putAttempt
      { b with workerId := none, leaseExpiresAt := none }).putStep
      { step with status := .waitingInput, finishedAt := none, errorCode := none }).putExecution
      { db.execution.clearLease with
        status := .waitingInput, finishedAt := none, errorCode := none } with
      inputRequests := inputRequests } : Db).listToolCalls a'.id).length =
        (requestsOf db b.id).length + 1 := by
      rw [hrel.id]
      exact hlen'
    omega

variable (ids) in
/-- A completed `input_required` call writes only for the owner, and keeps the rounds. -/
theorem finalizeInputRequired_preserves {mrtr : InputRequired} {requestId : UUID}
    {outcome : ToolRunOutcome} (hs : Static stepId db) (hp : Phase db)
    (hdefer : p.deferExecutionTerminalization = false)
    (hholds : db.execution.leaseToken = some p.leaseToken → InFlight db → Holds db p)
    (hids : p.toolCallId ∈ ids)
    (h : finalizeInputRequired p mrtr requestId now db = .ok (outcome, db')) :
    Preserves stepId ids db db' ∧ db.execution.leaseToken = some p.leaseToken := by
  obtain ⟨step, attempt, toolCall, hfence, hend⟩ := finalizeInputRequired_ok h
  obtain ⟨hr, hflight, htoken, hstep, ha, hc, hac, hstarted, hid, -⟩ := fence_rows hp hholds hfence
  rw [← hid] at hids
  refine ⟨?_, htoken⟩
  rcases hend with ⟨s, a, status, errorCode, hsid, haid, hastep, hne, hnsucc, hfatal⟩ |
    ⟨-, o, hsettle⟩ | ⟨db₁, hinsert, rfl⟩ | ⟨-, -, hopen⟩
  · rw [hdefer] at hfatal
    obtain ⟨-, rfl⟩ := Prod.mk.inj hfatal
    have hcall : ToolCallEvolves toolCall
        { toolCall with normalizedStatus := status, finishedAt := some now } :=
      ⟨rfl, rfl, rfl, fun h => by simp [hstarted] at h, fun h => absurd h hne⟩
    have hattempt : AttemptEvolves attempt
        { a with
          status := status
          errorCode := some errorCode
          isRetryable := some false
          finishedAt := some now
          workerId := none
          leaseExpiresAt := none } := ⟨haid, hastep, fun h => absurd h hne⟩
    have hrows : db.Evolves (settleCallRows s a toolCall status status errorCode now db) :=
      .putCallRows hstep ha hc (by exact hsid.id) hattempt hcall
    have hev : db.Evolves (applyOrDeferExecutionFatal (some errorCode) now false
        (settleCallRows s a toolCall status status errorCode now db)) :=
      hrows.trans (.applyOrDeferExecutionFatal _ now false _)
    refine .settle hs hr ha hc hac hstarted hev ?_ ?_
      (Preserves.succeeded_of_put rfl fun h => absurd h hnsucc) (.inr rfl)
      (by simp [applyOrDeferExecutionFatal])
    · exact Table.forall_mem_put (fun _ => hne) fun b _ hb hbid => absurd (hbid.trans haid.symm) hb
    · exact Table.forall_mem_put (fun _ => hne) fun d _ hd hdid => absurd hdid hd
  · exact preserves_cancelledCall hs hr hstep ha hc hac hstarted (by simp) (fun _ => hids) hsettle
  · obtain ⟨inputRequests, hrows, rfl⟩ := Db.insertInputRequest_ok hinsert
    exact preserves_timedOut hs hr hflight hstep ha hc hac hstarted hids hrows
  · exact preserves_openInputWait hs hr hstep ha hc hac hstarted hids hopen

end McpFlow.Mrtr
