import McpFlow.Mrtr.Preserves

/-!
# Phase A keeps the rounds

A fresh Attempt has no round; a replayed one is between two rounds, and its next ToolCall carries
the answer of its last request. With these two facts `_prepare` keeps `Static` and `Phase`, and the
call that it prepares is the only one in flight.
-/

namespace McpFlow.Mrtr

/-- The request whose answer a call carries, with the payload and the state that it sends. -/
def Material (db : Db) (p : PreparedCall) : Prop :=
  ∀ rid, p.mrtrInputRequestId = some rid → ∃ r ∈ db.inputRequests, r.id = rid ∧
    r.status = .answered ∧ r.stepAttemptId = p.attemptId ∧
    p.mrtrInputResponses = r.responsePayload ∧ p.mrtrRequestState = some r.requestState

/-- The ToolCall row of a prepared call. -/
def HasRow (db : Db) (p : PreparedCall) : Prop :=
  ∃ c ∈ db.toolCalls, c.id = p.toolCallId ∧ c.stepAttemptId = p.attemptId ∧
    c.mrtrInputRequestId = p.mrtrInputRequestId

/-- The call is STARTED, so it is the one in flight. -/
def Holds (db : Db) (p : PreparedCall) : Prop :=
  ∃ a ∈ db.attempts, a.id = p.attemptId ∧ ∃ c ∈ db.toolCalls, c.id = p.toolCallId ∧
    c.stepAttemptId = a.id ∧ c.normalizedStatus = .started

variable {stepId : UUID} {db db' : Db} {now : Time}

theorem Material.mono {ids : List UUID} {p : PreparedCall} (h : Material db p)
    (hkeep : Keeps stepId ids db db') : Material db' p := by
  intro rid hrid
  obtain ⟨r, hr, hid, hans, hfacts⟩ := h rid hrid
  exact ⟨r, hkeep.answered r hr hans, hid, hans, hfacts⟩

theorem HasRow.mono {ids : List UUID} {p : PreparedCall} (h : HasRow db p)
    (hkeep : Keeps stepId ids db db') : HasRow db' p := by
  obtain ⟨c, hc, hid, hattempt, hmrtr⟩ := h
  obtain ⟨c', hc', hid', hattempt', hmrtr'⟩ := hkeep.calls c hc
  exact ⟨c', hc', hid'.trans hid, hattempt'.trans hattempt, hmrtr'.trans hmrtr⟩

/-! ### The answer that a resumed call carries -/

private theorem highestAnswered_append {rs : List McpInputRequest} {r : McpInputRequest}
    (h : ∀ q ∈ rs, q.roundNo < r.roundNo) : highestAnswered (rs ++ [r]) = some r := by
  induction rs with
  | nil => rfl
  | cons q rs ih =>
    have htail := ih fun s hs => h s (List.mem_cons_of_mem q hs)
    have hq := h q List.mem_cons_self
    simp [highestAnswered, htail, McpInputRequest.answeredBefore, hq]

/-- The highest round is the last request. -/
theorem highestAnswered_eq_getLast? {rs : List McpInputRequest}
    (h : rs.map (·.roundNo) = List.range' 1 rs.length) : highestAnswered rs = rs.getLast? := by
  rcases rs.eq_nil_or_concat with rfl | ⟨qs, r, rfl⟩
  · rfl
  rw [List.concat_eq_append] at h ⊢
  rw [List.getLast?_concat]
  refine highestAnswered_append fun q hq => ?_
  have hlen : qs.length + 1 = (qs ++ [r]).length := by simp
  rw [List.map_append, List.map_singleton, ← hlen, List.range'_concat] at h
  obtain ⟨hqs, hr⟩ := List.append_inj' h rfl
  have hmem : q.roundNo ∈ List.range' 1 qs.length := by
    rw [← hqs]
    exact List.mem_map_of_mem hq
  rw [List.mem_range'_1] at hmem
  simp only [List.cons.injEq, and_true] at hr
  omega

/-- All requests of an Attempt between two rounds can be resumed. -/
theorem answeredRequests_eq (hs : Static stepId db) {step : ExecutionStep} (hid : step.id = stepId)
    {a : StepAttempt} (hans : ∀ r ∈ requestsOf db a.id, r.status = .answered) :
    answeredRequests db step a = requestsOf db a.id := by
  unfold answeredRequests requestsOf
  refine List.filter_congr fun r hr => ?_
  obtain ⟨hexec, hstep, -⟩ := hs.request r hr
  by_cases hattempt : r.stepAttemptId = a.id
  · have hr' : r.status = .answered := hans r (mem_requestsOf.mpr ⟨hr, hattempt⟩)
    simp [hexec, hstep, hid, hattempt, hr', hs.payload r hr hr']
  · simp [hattempt]

/-- The resume of an Attempt between two rounds is its last request. -/
theorem resumeOfAttempt_eq (hs : Static stepId db) {step : ExecutionStep} (hid : step.id = stepId)
    {a : StepAttempt} (ha : a ∈ db.attempts)
    (hlen : (db.listToolCalls a.id).length = (requestsOf db a.id).length)
    (hans : ∀ r ∈ requestsOf db a.id, r.status = .answered) {resume : Option MrtrResume}
    (h : resumeOfAttempt db step a = .ok (.ok resume)) :
    resume = (requestsOf db a.id).getLast?.map fun r =>
      ⟨r.id, r.responsePayload.getD [], r.requestState⟩ := by
  unfold resumeOfAttempt at h
  split at h
  · next hnil =>
    cases h
    rw [hnil, List.length_nil] at hlen
    rw [List.eq_nil_of_length_eq_zero hlen.symm]
    rfl
  split at h
  · cases h
  · next loaded hload =>
    cases h
    unfold loadAnsweredMrtrResume at hload
    rw [answeredRequests_eq hs hid hans, highestAnswered_eq_getLast? (hs.rounds a ha).roundNo]
      at hload
    split at hload
    · cases hload
    split at hload
    · cases hload
    next request hlast =>
    dsimp only at hload
    split at hload
    · cases hload
    split at hload
    · cases hload
    cases hload
    rw [hlast]
    rfl
  · cases h

/-! ### Insertions -/

/-- A new Attempt has no call and no request yet. -/
theorem Static.fresh_attempt (hs : Static stepId db) {a : StepAttempt}
    (hfresh : ∀ b ∈ db.attempts, b.id ≠ a.id) :
    db.listToolCalls a.id = [] ∧ requestsOf db a.id = [] := by
  constructor
  · refine List.filter_eq_nil_iff.mpr fun c hc => ?_
    obtain ⟨b, hb, hid⟩ := hs.callAttempt c hc
    simpa [← hid] using hfresh b hb
  · refine List.filter_eq_nil_iff.mpr fun r hr => ?_
    obtain ⟨-, -, b, hb, hid⟩ := hs.request r hr
    simpa [← hid] using hfresh b hb

theorem Static.insertAttempt (hs : Static stepId db) {a : StepAttempt}
    {attempts : Table StepAttempt.id} (hinsert : db.attempts.insert? a = some attempts)
    (hstep : a.stepExecutionId = stepId) (hidle : ∀ b ∈ db.attempts, b.status ≠ .started) :
    Static stepId { db with attempts := attempts } where
  step := hs.step
  attemptStep := (Table.forall_mem_insert? hinsert).mpr ⟨hs.attemptStep, hstep⟩
  callAttempt c hc := by
    obtain ⟨b, hb, hid⟩ := hs.callAttempt c hc
    exact ⟨b, (Table.mem_of_insert? hinsert).mpr (.inl hb), hid⟩
  request r hr := by
    obtain ⟨hexec, hstep, b, hb, hid⟩ := hs.request r hr
    exact ⟨hexec, hstep, b, (Table.mem_of_insert? hinsert).mpr (.inl hb), hid⟩
  rounds := by
    refine (Table.forall_mem_insert? hinsert).mpr ⟨hs.rounds, ?_⟩
    obtain ⟨hcalls, hreqs⟩ := hs.fresh_attempt (Table.key_ne_of_insert? hinsert)
    have hrounds : Rounds (db.listToolCalls a.id) (requestsOf db a.id) := by
      rw [hcalls, hreqs]
      exact .nil
    exact hrounds
  oneStarted := by
    intro b hb b' hb' hbs hbs'
    rcases (Table.mem_of_insert? hinsert).mp hb with hb | rfl
    · exact absurd hbs (hidle b hb)
    rcases (Table.mem_of_insert? hinsert).mp hb' with hb' | rfl
    · exact absurd hbs' (hidle b' hb')
    · rfl
  payload := hs.payload

/-- The rows of a new Attempt of a Step that is no longer READY. -/
theorem Running.insertAttempt (hs : Static stepId db) (h : Running db) {a : StepAttempt}
    {attempts : Table StepAttempt.id} (hinsert : db.attempts.insert? a = some attempts)
    (hready : ∀ s ∈ db.steps, s.status ≠ .ready) : Running { db with attempts := attempts } where
  noOpen := h.noOpen
  call c hc hstarted := by
    obtain ⟨b, hb, hid, hbs⟩ := h.call c hc hstarted
    exact ⟨b, (Table.mem_of_insert? hinsert).mpr (.inl hb), hid, hbs⟩
  attempt := by
    refine (Table.forall_mem_insert? hinsert).mpr ⟨h.attempt, fun _ => ?_⟩
    obtain ⟨hcalls, hreqs⟩ := hs.fresh_attempt (Table.key_ne_of_insert? hinsert)
    have hfacts : (∀ r ∈ requestsOf db a.id, r.status = .answered) ∧
        ((∀ c ∈ db.listToolCalls a.id, c.normalizedStatus ≠ .started) →
          (db.listToolCalls a.id).length = (requestsOf db a.id).length) := by
      rw [hcalls, hreqs]
      simp
    exact hfacts
  ready s hs hr := absurd hr (hready s hs)

/-- Calls of an Attempt after an insertion. -/
theorem listToolCalls_insert {c : ToolCall} {toolCalls : Table ToolCall.id}
    (hinsert : db.toolCalls.insert? c = some toolCalls) (attemptId : UUID) :
    ({ db with toolCalls := toolCalls } : Db).listToolCalls attemptId =
      db.listToolCalls attemptId ++ if c.stepAttemptId = attemptId then [c] else [] := by
  unfold Db.listToolCalls
  rw [(Table.insert?_eq_some_iff.mp hinsert).2, List.filter_append]
  split <;> simp_all

section Call

variable {a : StepAttempt} {c : ToolCall} {toolCalls : Table ToolCall.id}

theorem Static.insertToolCall (hs : Static stepId db) (ha : a ∈ db.attempts)
    (hinsert : db.toolCalls.insert? c = some toolCalls) (hac : c.stepAttemptId = a.id)
    (hlen : (db.listToolCalls a.id).length = (requestsOf db a.id).length)
    (hans : ∀ r ∈ requestsOf db a.id, r.status = .answered)
    (hcarries : c.mrtrInputRequestId = (requestsOf db a.id).getLast?.map (·.id)) :
    Static stepId { db with toolCalls := toolCalls } where
  step := hs.step
  attemptStep := hs.attemptStep
  callAttempt := (Table.forall_mem_insert? hinsert).mpr ⟨hs.callAttempt, a, ha, hac.symm⟩
  request := hs.request
  rounds b hb := by
    rw [listToolCalls_insert hinsert]
    by_cases hba : b.id = a.id
    · rw [if_pos (hac.trans hba.symm)]
      rw [← hba] at hlen hans hcarries
      exact (hs.rounds b hb).call hlen hans hcarries
    · rw [if_neg fun h => hba (h.symm.trans hac), List.append_nil]
      exact hs.rounds b hb
  oneStarted := hs.oneStarted
  payload := hs.payload

theorem Running.insertToolCall (hs : Static stepId db) (h : Running db) (ha : a ∈ db.attempts)
    (has : a.status = .started) (hinsert : db.toolCalls.insert? c = some toolCalls)
    (hac : c.stepAttemptId = a.id) (hstarted : c.normalizedStatus = .started) :
    Running { db with toolCalls := toolCalls } where
  noOpen := h.noOpen
  call := (Table.forall_mem_insert? hinsert).mpr ⟨h.call, fun _ => ⟨a, ha, hac.symm, has⟩⟩
  attempt b hb hbs := by
    refine ⟨(h.attempt b hb hbs).1, fun hno => ?_⟩
    -- Only the Attempt of the new call is STARTED, and that call is in flight.
    obtain rfl := hs.oneStarted b hb a ha hbs has
    refine absurd hstarted (hno c ?_)
    rw [listToolCalls_insert hinsert, if_pos hac]
    exact List.mem_append_right _ (List.mem_singleton_self c)
  ready := h.ready

end Call

/-! ### The transaction -/

/-- What Phase A says about the call that it prepares. -/
structure PreparedFacts (token : UUID) (db db' : Db) (p : PreparedCall) : Prop where
  token : p.leaseToken = token
  defer : p.deferExecutionTerminalization = false
  wait : p.forbidExecutionWait = false
  material : Material db' p
  row : HasRow db' p
  holds : Holds db' p
  fresh : ∀ c ∈ db.toolCalls, c.id ≠ p.toolCallId

section Transaction

variable {ids : List UUID} {worker : String} {token : UUID} {step : ExecutionStep}
  {attempt : StepAttempt} {result : PrepareResult}

theorem InFlight.ne_waitingInput (h : InFlight db) : db.execution.status ≠ .waitingInput := by
  rcases h with h | h <;> simp [h]

/-- An in-place change of Phase A that leaves the calls alone. -/
private theorem preserves_of_step (hs : Static stepId db) (hev : db.Evolves db') (hphase : Phase db')
    (hcalls : db'.toolCalls = db.toolCalls)
    (htoken : db'.execution.leaseToken = db.execution.leaseToken ∨
      db'.execution.leaseToken = none)
    (hwait : db'.execution.status ≠ .waitingInput) : Preserves stepId ids db db' :=
  .of_evolves hs hev hphase (Preserves.succeeded_of_eq hcalls) htoken fun hw => absurd hw hwait

variable (ids) in
theorem Preserves.prepareFatal (hs : Static stepId db) (hr : Running db) (hflight : InFlight db)
    (hstep : step ∈ db.steps) (errorCode : String)
    (hfatal : (result, db') = McpFlow.prepareFatal step errorCode now false db) :
    Preserves stepId ids db db' ∧ ∀ p, result ≠ .prepared p := by
  obtain ⟨hphase, hev⟩ := Phase.prepareFatal hr hflight hstep errorCode hfatal
  obtain ⟨rfl, rfl⟩ := Prod.mk.inj hfatal
  have hstepRows : (failNonterminalStep step errorCode now db).toolCalls = db.toolCalls ∧
      (failNonterminalStep step errorCode now db).execution = db.execution := by
    unfold failNonterminalStep
    split <;> exact ⟨rfl, rfl⟩
  refine ⟨preserves_of_step hs hev hphase ?_ ?_ ?_, fun p hp => by cases hp⟩
  · unfold failRunningExecution
    split
    · exact (toolCalls_applyOrDeferExecutionFatal ..).trans hstepRows.1
    · exact hstepRows.1
  · unfold failRunningExecution
    split
    · exact .inr rfl
    · exact .inl (by rw [hstepRows.2])
  · unfold failRunningExecution
    split
    · simp [applyOrDeferExecutionFatal]
    · rw [hstepRows.2]
      exact hflight.ne_waitingInput

variable (ids) in
/-- The insertion of the next ToolCall of a STARTED Attempt. -/
private theorem preserves_insertToolCall (hs : Static stepId db) (hr : Running db)
    (hflight : InFlight db) (ha : attempt ∈ db.attempts) (has : attempt.status = .started)
    {c : ToolCall} {toolCalls : Table ToolCall.id}
    (hinsert : db.toolCalls.insert? c = some toolCalls) (hac : c.stepAttemptId = attempt.id)
    (hstarted : c.normalizedStatus = .started)
    (hlen : (db.listToolCalls attempt.id).length = (requestsOf db attempt.id).length)
    (hans : ∀ r ∈ requestsOf db attempt.id, r.status = .answered)
    (hcarries : c.mrtrInputRequestId = (requestsOf db attempt.id).getLast?.map (·.id)) :
    Running { db with toolCalls := toolCalls } ∧
      Preserves stepId ids db { db with toolCalls := toolCalls } := by
  have hr' := hr.insertToolCall hs ha has hinsert hac hstarted
  refine ⟨hr', ⟨hs.insertToolCall ha hinsert hac hlen hans hcarries, .of_running hflight hr',
    fun _ h _ => h, ?_, ?_, ?_⟩, .inl rfl⟩
  · exact fun d hd => ⟨d, (Table.mem_of_insert? hinsert).mpr (.inl hd), rfl, rfl, rfl⟩
  · refine (Table.forall_mem_insert? hinsert).mpr ⟨fun d hd hd' => .inr ⟨d, hd, rfl, hd'⟩, ?_⟩
    intro hsucc
    rw [hstarted] at hsucc
    cases hsucc
  · exact fun r _ _ _ hw => absurd hw hflight.ne_waitingInput

variable (ids) in
/-- Phase A with an Attempt at hand. -/
private theorem prepareStarted_preserves {env : PrepareEnv} {replayed : Bool}
    (hs : Static stepId db) (hr : Running db) (hflight : InFlight db) (hstep : step ∈ db.steps)
    (ha : attempt ∈ db.attempts) (has : attempt.status = .started)
    (h : prepareStarted env step attempt replayed worker token now false false db =
      .ok (result, db')) :
    Preserves stepId ids db db' ∧ ∀ p, result = .prepared p → PreparedFacts token db db' p := by
  rcases prepareStarted_ok h with ⟨-, rfl, rfl⟩ | ⟨hidle, ⟨errorCode, hfatal⟩ |
    ⟨catalog, resume, hresume, hcall⟩⟩
  · exact ⟨.refl hs (.of_running hflight hr), fun p hp => by cases hp⟩
  · obtain ⟨hkeep, hne⟩ := Preserves.prepareFatal ids hs hr hflight hstep errorCode hfatal
    exact ⟨hkeep, fun p hp => absurd hp (hne p)⟩
  -- Between two rounds every request is answered and has its call.
  obtain ⟨hans, hclosed⟩ := hr.attempt attempt ha has
  have hnone : ∀ c ∈ db.listToolCalls attempt.id, c.normalizedStatus ≠ .started := by
    intro c hc hcs
    obtain ⟨hc, hid⟩ := mem_listToolCalls.mp hc
    simp only [Db.attemptHasStartedToolCall, List.any_eq_false, decide_eq_true_eq] at hidle
    exact hidle c hc ⟨hid, hcs⟩
  have hlen := hclosed hnone
  have hstepId := (hs.find?_step hstep).2
  have hlast := resumeOfAttempt_eq hs hstepId ha hlen hans hresume
  obtain ⟨c, toolCalls, hinsert, hac, hstarted, hrequest, hend⟩ := prepareCall_ok hcall
  have hcarries : c.mrtrInputRequestId = (requestsOf db attempt.id).getLast?.map (·.id) := by
    rw [hrequest, hlast, Option.map_map]
    rfl
  obtain ⟨hr₁, hkeep⟩ := preserves_insertToolCall ids hs hr hflight ha has hinsert hac
    hstarted hlen hans hcarries
  have hmem : c ∈ toolCalls := (Table.mem_of_insert? hinsert).mpr (.inr rfl)
  rcases hend with ⟨p, rfl, rfl, -, hpa, hpc, -, -, -, -, hpt, hpd, hpw, hpr, hpp, hps⟩ |
    ⟨errorCode, rfl, rfl⟩
  · refine ⟨hkeep, fun q hq => ?_⟩
    cases hq
    refine ⟨hpt, hpd, hpw, ?_, ⟨c, hmem, hpc.symm, hac.trans hpa.symm, hrequest.trans hpr.symm⟩,
      ⟨attempt, ha, hpa.symm, c, hmem, hpc.symm, hac, hstarted⟩, fun d hd => ?_⟩
    · intro rid hrid
      rw [hlast] at hpr hpp hps
      cases hreq : (requestsOf db attempt.id).getLast? with
      | none =>
        rw [hpr, hreq] at hrid
        cases hrid
      | some r =>
        rw [hreq] at hpr hpp hps
        have hr' := List.mem_of_getLast? hreq
        obtain ⟨hrmem, hrattempt⟩ := mem_requestsOf.mp hr'
        rw [hpr] at hrid
        cases hrid
        refine ⟨r, hrmem, rfl, hans r hr', hrattempt.trans hpa.symm, ?_, hps⟩
        have hpayload := hs.payload r hrmem (hans r hr')
        rw [hpp]
        cases hp : r.responsePayload with
        | none => simp [hp] at hpayload
        | some payload => simp [hp]
    · rw [hpc]
      exact Table.key_ne_of_insert? hinsert d hd
  · refine ⟨hkeep.trans ?_, fun p hp => by cases hp⟩
    refine .applyTerminalTransition hkeep.static hr₁ hflight hstep ha hmem hac hstarted _ _ now ?_
    intro hsucc
    simp only [CallEnd.terminal] at hsucc
    split at hsucc
    · cases hsucc
    · exact absurd hsucc (classifyMcpFailure_ne_succeeded _ _)

/-- What is left of the Execution after `start`: it is in flight, unless an approval is awaited. -/
private structure AfterStart (stepId : UUID) (ids : List UUID) (step : ExecutionStep) (db db' : Db)
    (started : Except AppError StartOutcome) : Prop where
  preserves : Preserves stepId ids db db'
  toolCalls : db'.toolCalls = db.toolCalls
  step : (db'.steps.find? step.id).getD step ∈ db'.steps
  running : (∀ outcome, started ≠ .ok (.approvalWait outcome)) → Running db' ∧ InFlight db'
  attempt : ∀ a replayed, started = .ok (.attempt a replayed) →
    a ∈ db'.attempts ∧ a.status = .started

variable (ids) in
private theorem afterStart_pinInput (hs : Static stepId db) (hr : Running db)
    (hflight : InFlight db) (hstep : step ∈ db.steps) (input : List (String × Json.Value)) :
    Running (db.putStep (step.pinInput input)) ∧
      Preserves stepId ids db (db.putStep (step.pinInput input)) := by
  have hready (h : (step.pinInput input).status = .ready) := hr.ready step hstep h
  have hr' : Running (db.putStep (step.pinInput input)) := hr.putStep hready
  exact ⟨hr', preserves_of_step hs (.putStep hstep rfl) (.of_running hflight hr') rfl (.inl rfl)
    hflight.ne_waitingInput⟩

variable (ids) in
private theorem afterStart_of_started {now : Time} {started : Except AppError StartOutcome}
    (hs : Static stepId db) (hr : Running db) (hflight : InFlight db) (hstep : step ∈ db.steps)
    (h : Started step worker token now db started db') :
    AfterStart stepId ids step db db' started := by
  have hphase : Phase db := .of_running hflight hr
  have hkept : (db.steps.find? step.id).getD step ∈ db.steps := Table.getD_find?_mem hstep rfl step
  cases h with
  | refused e =>
    exact ⟨.refl hs hphase, rfl, hkept, fun _ => ⟨hr, hflight⟩, fun _ _ h => by cases h⟩
  | reused outcome hwait =>
    exact ⟨.refl hs hphase, rfl, hkept, fun h => absurd rfl (h outcome), fun _ _ h => by cases h⟩
  | replayed attempt hrunning hattempt =>
    obtain ⟨ha, -, has⟩ := getStartedAttempt_some hattempt
    refine ⟨.refl hs hphase, rfl, hkept, fun _ => ⟨hr, hflight⟩, fun a replayed heq => ?_⟩
    cases heq
    exact ⟨ha, has⟩
  | refusedPinned e input hready hrunning hlease =>
    obtain ⟨hr', hkeep⟩ := afterStart_pinInput ids hs hr hflight hstep input
    exact ⟨hkeep, rfl, Table.getD_find?_mem (Table.mem_put_self hstep (by rfl)) (by rfl) step,
      fun _ => ⟨hr', hflight⟩, fun _ _ h => by cases h⟩
  | waits outcome input request approvals hready hrunning hlease hinsert =>
    have hpin := Table.mem_put_self (r := step.pinInput input) hstep rfl
    have hev : db.Evolves (Approval.applyWaitingState
        { db.putStep (step.pinInput input) with approvals := approvals } (step.pinInput input)) := by
      have h₁ : db.Evolves { db.putStep (step.pinInput input) with approvals := approvals } :=
        { Db.Evolves.putStep hstep (show (step.pinInput input).id = step.id from rfl) with }
      exact (h₁.trans (.putStep hpin (by rfl))).trans (.putExecution _ (by rfl))
    refine ⟨preserves_of_step hs hev ?_ rfl (.inr rfl) (by simp [Approval.applyWaitingState]), rfl,
      Table.getD_find?_mem (Table.mem_put_self hpin (by rfl)) (by rfl) step, fun h => absurd rfl (h outcome),
      fun _ _ h => by cases h⟩
    exact .of_ended (by simp [InFlight, Approval.applyWaitingState])
      (by simp [Approval.applyWaitingState]) hr.noOpen
  | created attempt input attempts hready hrunning hlease hattemptStep hstatus hinsert =>
    obtain ⟨hr₁, hkeep₁⟩ := afterStart_pinInput ids hs hr hflight hstep input
    have hpin : step.pinInput input ∈ (db.putStep (step.pinInput input)).steps :=
      Table.mem_put_self hstep rfl
    have hidle := hr.ready step hstep hready
    have hr₂ : Running ((db.putStep (step.pinInput input)).putStep
        ((step.pinInput input).startRunning now)) :=
      hr₁.putStep fun h => by simp [ExecutionStep.startRunning] at h
    have hkeep₂ : Preserves stepId ids db ((db.putStep (step.pinInput input)).putStep
        ((step.pinInput input).startRunning now)) :=
      hkeep₁.trans (preserves_of_step hkeep₁.static (.putStep hpin rfl)
        (.of_running hflight hr₂) rfl (.inl rfl) hflight.ne_waitingInput)
    have hready₂ : ∀ s ∈ ((db.putStep (step.pinInput input)).putStep
        ((step.pinInput input).startRunning now)).steps, s.status ≠ .ready := by
      refine Table.forall_mem_put (by simp [ExecutionStep.startRunning]) fun s hs' hne => ?_
      have hid := (hkeep₁.static.find?_step hs').2.trans (hkeep₁.static.find?_step hpin).2.symm
      exact absurd hid hne
    have hr₃ := hr₂.insertAttempt hkeep₂.static hinsert hready₂
    have hstepId : attempt.stepExecutionId = stepId :=
      hattemptStep.trans (hs.find?_step hstep).2
    have hkeep₃ : Preserves stepId ids ((db.putStep (step.pinInput input)).putStep
        ((step.pinInput input).startRunning now)) { (db.putStep (step.pinInput input)).putStep
        ((step.pinInput input).startRunning now) with attempts := attempts } :=
      ⟨⟨hkeep₂.static.insertAttempt hinsert hstepId hidle, .of_running hflight hr₃,
        fun _ h _ => h, fun c hc => ⟨c, hc, rfl, rfl, rfl⟩, Preserves.succeeded_of_eq rfl,
        fun _ _ _ _ hw => absurd hw hflight.ne_waitingInput⟩, .inl rfl⟩
    refine ⟨hkeep₂.trans hkeep₃, rfl, Table.getD_find?_mem (Table.mem_put_self hpin (by rfl)) (by rfl) step,
      fun _ => ⟨hr₃, hflight⟩, fun a replayed heq => ?_⟩
    cases heq
    exact ⟨(Table.mem_of_insert? hinsert).mpr (.inr rfl), hstatus⟩

variable (ids) in
/-- Phase A that owns the Execution. -/
private theorem prepareAttempt_preserves {env : PrepareEnv} {now : Time} (hs : Static stepId db)
    (hr : Running db) (hflight : InFlight db) (hstep : step ∈ db.steps)
    (h : prepareAttempt env step worker token now false false false db = .ok (result, db')) :
    Preserves stepId ids db db' ∧ ∀ p, result = .prepared p → PreparedFacts token db db' p := by
  obtain ⟨started, db₁, hstarted, hend⟩ := prepareAttempt_ok h
  have hafter := afterStart_of_started ids hs hr hflight hstep hstarted
  cases started with
  | error e =>
    obtain ⟨hr₁, hflight₁⟩ := hafter.running fun _ => by simp
    dsimp only at hend
    unfold prepareStartFailed at hend
    split at hend
    · cases hend
      exact ⟨hafter.preserves, fun p hp => by cases hp⟩
    split at hend
    · cases hend
      exact ⟨hafter.preserves, fun p hp => by cases hp⟩
    split at hend
    · cases hend
      exact ⟨hafter.preserves, fun p hp => by cases hp⟩
    obtain ⟨hkeep, hne⟩ := Preserves.prepareFatal ids hafter.preserves.static hr₁
      hflight₁ hafter.step e.code hend
    exact ⟨hafter.preserves.trans hkeep, fun p hp => absurd hp (hne p)⟩
  | ok outcome =>
    cases outcome with
    | approvalWait outcome =>
      rcases hend with ⟨hforbid, -⟩ | ⟨-, rfl, rfl⟩
      · cases hforbid
      · exact ⟨hafter.preserves, fun p hp => by cases hp⟩
    | attempt a replayed =>
      obtain ⟨hr₁, hflight₁⟩ := hafter.running fun _ => by simp
      obtain ⟨ha, has⟩ := hafter.attempt a replayed rfl
      obtain ⟨hkeep, hfacts⟩ := prepareStarted_preserves ids hafter.preserves.static hr₁
        hflight₁ hafter.step ha has hend
      refine ⟨hafter.preserves.trans hkeep, fun p hp => ?_⟩
      obtain hp := hfacts p hp
      exact { hp with fresh := by rw [← hafter.toolCalls]; exact hp.fresh }

variable (ids) in
/-- Phase A keeps the rounds, and writes only for the owner of the lease. -/
theorem prepare_preserves {env : PrepareEnv} {now : Time} (hs : Static stepId db) (hp : Phase db)
    (h : McpFlow.prepare env stepId worker token now false false false db = .ok (result, db')) :
    Preserves stepId ids db db' ∧ (db' = db ∨ db.execution.leaseToken = some token) ∧
      ∀ p, result = .prepared p → PreparedFacts token db db' p := by
  rcases prepare_ok h with ⟨rfl, reason, status, rfl⟩ |
    ⟨-, hlease, hreq, outcome, hrec, rfl⟩ | ⟨step, hfind, -, -, -, howned⟩
  · exact ⟨.refl hs hp, .inl rfl, fun p hp => by cases hp⟩
  · have htoken := (Execution.holdsLease_iff.mp hlease).2.1
    refine ⟨?_, .inr htoken, fun p hp => by cases hp⟩
    have hflight : InFlight db := by
      unfold Db.enterCancelRequested at hreq
      split at hreq
      · next hrunning => exact .inl hrunning
      · exact .inr hreq
    have hev₁ : db.Evolves db.enterCancelRequested := by
      unfold Db.enterCancelRequested
      split
      · exact .putExecution db rfl
      · exact .refl db
    have hr₁ : Running db.enterCancelRequested := by
      unfold Db.enterCancelRequested
      split
      · exact (hp.inFlight hflight).putExecution _
      · exact hp.inFlight hflight
    have hkeep₁ : Preserves stepId ids db db.enterCancelRequested := by
      refine preserves_of_step hs hev₁ (.of_running (.inr hreq) hr₁) ?_ ?_ (by simp [hreq])
      · unfold Db.enterCancelRequested
        split <;> rfl
      · unfold Db.enterCancelRequested
        split <;> exact .inl rfl
    exact hkeep₁.trans (.reconcileCancelRequested hkeep₁.static hkeep₁.phase hrec)
  · have hmem := Table.mem_of_find? hfind
    rcases prepareOwned_ok howned with ⟨rfl, reason, status, rfl⟩ | ⟨hown, -, hend⟩
    · exact ⟨.refl hs hp, .inl rfl, fun p hp => by cases hp⟩
    have htoken := Execution.leaseToken_of_ownedInFlight hown
    have hflight : InFlight db := (Execution.ownedInFlight_iff.mp hown).1
    have hr := hp.inFlight hflight
    rcases hend with ⟨hready, rfl, rfl⟩ | hattempt
    · refine ⟨?_, .inr htoken, fun p hp => by cases hp⟩
      refine preserves_of_step hs ((Db.Evolves.putStep hmem (by rfl)).trans (.putExecution _ (by rfl))) ?_ rfl
        (.inl rfl) hflight.ne_waitingInput
      exact .of_running hflight ((hr.putStep (by simp)).putExecution _)
    · obtain ⟨hkeep, hfacts⟩ := prepareAttempt_preserves ids hs hr hflight hmem hattempt
      exact ⟨hkeep, .inr htoken, hfacts⟩

end Transaction

end McpFlow.Mrtr
