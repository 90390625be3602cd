import McpFlow.Execution.Budget
import McpFlow.Execution.WaveOrder

/-!
# What a wave settles to

The status and the error code of the Execution and the statuses of its Steps after a wave has been
settled, over every order in which its members return. They are the same in every order, unless a
requested cancellation closes a member whose own stop cause would decide.
-/

namespace McpFlow

/-- What a settled Execution shows. -/
structure Settlement where
  status : ExecutionStatus
  errorCode : Option String
  steps : List (UUID × StepStatus)
deriving DecidableEq

/-- The settlement that the rows show. -/
def Db.settlement (db : Db) : Settlement :=
  ⟨db.execution.status, db.execution.errorCode, db.steps.rows.map fun s => (s.id, s.status)⟩

/-- The settlement after `_settle_wave`. -/
def settledAs (env : RuntimeEnv) (worker : String) (token : UUID) (planOrder : List String)
    (now : Time) (results : List (UUID × ToolRunOutcome)) (db : Db) : Except Raised Settlement :=
  (settleWave env worker token results planOrder now db).map (·.2.settlement)

section Settled

variable (env : RuntimeEnv) (worker : String) (token : UUID) (planOrder : List String) (now : Time)

/-- What a settlement does not read changes nothing of it. -/
theorem settledAs_setUnread (hblind : env.Blind) {db : Db} (unread : Unread)
    (results : List (UUID × ToolRunOutcome))
    (hcancel : db.execution.cancellationIsRequested = false) :
    settledAs env worker token planOrder now results (db.setUnread unread) =
      settledAs env worker token planOrder now results db := by
  have hlineage : validateLineage env (db.setUnread unread) = validateLineage env db := rfl
  have hcauses (stepId : UUID) (outcome : ToolRunOutcome) :
      stopCauseOf planOrder (db.setUnread unread) stepId outcome =
        stopCauseOf planOrder db stepId outcome := rfl
  unfold settledAs settleWave
  rw [hlineage]
  cases validateLineage env db with
  | error e => rfl
  | ok dag =>
    simp only [hcauses]
    cases pickStopCause (results.filterMap fun result =>
        stopCauseOf planOrder db result.1 result.2) with
    | some stop => rfl
    | none =>
      have hactive : (db.setUnread unread).execution.cancellationIsRequested = false := hcancel
      have hlease : (db.setUnread unread).execution.hasRunningLease worker token now =
          db.execution.hasRunningLease worker token now := rfl
      dsimp only
      unfold settleContinuable
      rw [hcancel, hactive, hlease, if_neg Bool.false_ne_true, if_neg Bool.false_ne_true]
      cases db.execution.hasRunningLease worker token now with
      | false => rfl
      | true =>
        rcases Local.forget_eq_cases (localReconcile_blind hblind dag now db unread) with
          ⟨e, hx, hy⟩ | ⟨changed, a, b, hx, hy, hab⟩ | ⟨outcome, a, b, hx, hy, hab⟩
        · rw [hx, hy]
          rfl
        · rw [hx, hy, Db.eq_setUnread_of_readable_eq hab]
          have hended : dagNaturallyEnded (b.setUnread ⟨a.execution.heartbeatAt, a.inputRequests⟩) =
              dagNaturallyEnded b := rfl
          have hheld : ¬(!true) = true := by decide
          rw [if_neg hheld, if_neg hheld]
          unfold naturalEnd
          dsimp only
          rw [hended, Db.planSnapshot_setUnread, Db.steps_setUnread]
          cases dagNaturallyEnded b with
          | false => rfl
          | true => cases aggregateAllRequired b.execution.planSnapshot b.steps.rows <;> rfl
        · rw [hx, hy, Db.eq_setUnread_of_readable_eq hab]
          rfl

end Settled

/-! ### The wave -/

/-- The stop cause that a member leaves when it is the first to return. -/
def Completion.cause (planOrder : List String) (db : Db) (c : Completion) : Option StopCause :=
  match c.run db with
  | .error _ => none
  | .ok (outcome, db') => stopCauseOf planOrder db' c.call.stepId outcome

/-- The stop causes of the wave without the one of `c`. -/
def otherCauses (planOrder : List String) (db : Db) (cs : List Completion)
    (rest : List (UUID × ToolRunOutcome)) (c : Completion) : List StopCause :=
  (cs.filter fun d => d.call.stepId ≠ c.call.stepId).filterMap (·.cause planOrder db) ++
    stopCauses planOrder db rest

/-- The calls of `cs` are in flight, the other members of the wave have returned `rest`. A
cancellation that was requested has left no other Step open. -/
structure WaveInFlight (db : Db) (cs : List Completion) (rest : List (UUID × ToolRunOutcome)) :
    Prop where
  members : ∀ c ∈ cs, ∃ step attempt toolCall, c.InFlight db step attempt toolCall
  stepIds : (cs.map (·.call.stepId) ++ rest.map Prod.fst).Nodup
  requestIds : (cs.filterMap Completion.requestId?).Nodup
  fresh : ∀ c ∈ cs, ∀ requestId, c.requestId? = some requestId →
    ∀ r ∈ db.inputRequests, r.id ≠ requestId
  calls : ∀ t ∈ db.toolCalls, t.normalizedStatus = .started → ∃ c ∈ cs, c.call.toolCallId = t.id
  cancelRequested : db.execution.cancellationIsRequested = true →
    db.execution.status = .cancelRequested
  cleaned : db.execution.cancellationIsRequested = true → ∀ s ∈ db.steps,
    s.status.isTerminal = true ∨ ∃ c ∈ cs, c.call.stepId = s.id
  unknown : ∀ s ∈ db.steps, s.status = .unknownOutcome →
    ∃ outcome, (s.id, outcome) ∈ rest ∧
      outcome.terminalStatus = some StepStatus.unknownOutcome.value

/-- The wave settles to one settlement, in whatever order its members return and their results are
listed. -/
def SettlesAlike (env : RuntimeEnv) (worker : String) (token : UUID) (planOrder : List String)
    (now : Time) (db : Db) (cs : List Completion) (rest : List (UUID × ToolRunOutcome)) : Prop :=
  ∃ settled, ∀ cs' : List Completion, cs'.Perm cs → ∃ outcomes db', runCompletions cs' db = .ok (outcomes, db') ∧
    ∀ results, results.Perm (outcomes ++ rest) →
      settledAs env worker token planOrder now results db' = settled

/-- The rows that the wave leaves have no valid lineage. -/
def LineageRefused (env : RuntimeEnv) (db : Db) (cs : List Completion) : Prop :=
  ∃ outcomes db' e, runCompletions cs db = .ok (outcomes, db') ∧ validateLineage env db' = .error e

/-- The stop cause of `c` does not decide how the wave ends: another one precedes it, or the next
one ends the Execution as `c` does. -/
def Outranked (planOrder : List String) (db : Db) (cs : List Completion)
    (rest : List (UUID × ToolRunOutcome)) (c : Completion) : Prop :=
  ∃ next, pickStopCause (otherCauses planOrder db cs rest c) = some next ∧
    ((∃ own, c.cause planOrder db = some own ∧ next.rank < own.rank) ∨
      (next.executionStatus = .failed ∧ next.errorCode = none))

namespace WaveInFlight

variable {db : Db} {cs cs' : List Completion} {rest : List (UUID × ToolRunOutcome)}

theorem perm (h : WaveInFlight db cs rest) (hp : cs'.Perm cs) : WaveInFlight db cs' rest where
  members := fun c hc => h.members c (hp.mem_iff.mp hc)
  stepIds := (((hp.map _).append_right _).nodup_iff).mpr h.stepIds
  requestIds := (hp.filterMap _).nodup_iff.mpr h.requestIds
  fresh := fun c hc => h.fresh c (hp.mem_iff.mp hc)
  calls := fun t ht hstarted => by
    obtain ⟨c, hc, hid⟩ := h.calls t ht hstarted
    exact ⟨c, hp.mem_iff.mpr hc, hid⟩
  cancelRequested := h.cancelRequested
  cleaned := fun hactive s hs => (h.cleaned hactive s hs).imp_right fun ⟨c, hc, hid⟩ =>
    ⟨c, hp.mem_iff.mpr hc, hid⟩
  unknown := h.unknown

theorem exists_member (h : WaveInFlight db cs rest) (c : Completion) (hc : c ∈ cs) :
    ∃ m : WaveMember db, m.completion = c := by
  obtain ⟨step, attempt, toolCall, hfly⟩ := h.members c hc
  obtain ⟨k, waits, outcome, hof, hends⟩ := hfly.ends h.cancelRequested
  exact ⟨⟨c, step, attempt, toolCall, k, waits, outcome, hfly, hof, hends⟩, rfl⟩

/-- The members of a wave in flight, one for each completion. -/
theorem exists_members (h : WaveInFlight db cs rest) : ∃ ms : List (WaveMember db),
    ms.map (·.completion) = cs ∧ ∀ cs' : List Completion, cs'.Perm cs →
      ∃ ms' : List (WaveMember db), ms'.Perm ms ∧ ms'.map (·.completion) = cs' := by
  let member (c : Completion) (hc : c ∈ cs) : WaveMember db := (h.exists_member c hc).choose
  have hmember (c : Completion) (hc : c ∈ cs) : (member c hc).completion = c :=
    (h.exists_member c hc).choose_spec
  have hmap (l : List Completion) (hl : ∀ c ∈ l, c ∈ cs) :
      (l.pmap member hl).map (·.completion) = l := by
    rw [List.map_pmap]
    exact (List.pmap_congr_left l fun c _ hc _ => hmember c hc).trans
      ((List.pmap_eq_map hl).trans (List.map_id' l))
  exact ⟨cs.pmap member fun c hc => hc, hmap cs _, fun cs' hp =>
    ⟨cs'.pmap member fun c hc => hp.mem_iff.mp hc, hp.pmap member, hmap cs' _⟩⟩

end WaveInFlight

/-! ### Under a requested cancellation -/

/-- The members of a wave whose Execution is to be cancelled. -/
structure CancelledWave {db : Db} (ms : List (WaveMember db))
    (rest : List (UUID × ToolRunOutcome)) : Prop where
  active : db.execution.cancellationIsRequested = true
  status : db.execution.status = .cancelRequested
  distinct : Distinct ms
  stepIds : (ms.map (·.stepId) ++ rest.map Prod.fst).Nodup
  same : ∀ m ∈ ms, SameMember m.completion db db
  calls : ∀ t ∈ db.toolCalls, t.normalizedStatus = .started →
    ∃ m ∈ ms, m.completion.call.toolCallId = t.id
  cleaned : ∀ s ∈ db.steps, s.status.isTerminal = true ∨ ∃ m ∈ ms, m.stepId = s.id
  unknown : ∀ s ∈ db.steps, s.status = .unknownOutcome →
    ∃ outcome, (s.id, outcome) ∈ rest ∧
      outcome.terminalStatus = some StepStatus.unknownOutcome.value

namespace CancelledWave

variable {db db₃ : Db} {ms ms' : List (WaveMember db)} {m : WaveMember db}
  {rest : List (UUID × ToolRunOutcome)} {planOrder : List String}

theorem perm (h : CancelledWave ms rest) (hp : ms'.Perm ms) : CancelledWave ms' rest where
  active := h.active
  status := h.status
  distinct := h.distinct.perm hp
  stepIds := (((hp.map _).append_right _).nodup_iff).mpr h.stepIds
  same := fun m hm => h.same m (hp.mem_iff.mp hm)
  calls := fun t ht hstarted => by
    obtain ⟨m, hm, hid⟩ := h.calls t ht hstarted
    exact ⟨m, hp.mem_iff.mpr hm, hid⟩
  cleaned := fun s hs => (h.cleaned s hs).imp_right fun ⟨m, hm, hid⟩ =>
    ⟨m, hp.mem_iff.mpr hm, hid⟩
  unknown := h.unknown

/-- Every Step has ended once all members have returned. -/
theorem isTerminal_closeAll (h : CancelledWave ms rest) {s : ExecutionStep}
    (hs : s ∈ (closeAll ms db).steps) : s.status.isTerminal = true := by
  rcases mem_steps_closeAll hs with ⟨m, -, rfl⟩ | ⟨hs, hne⟩
  · exact m.closes.terminal
  · rcases h.cleaned s hs with hterminal | ⟨m, hm, hid⟩
    · exact hterminal
    · exact absurd hid (hne m hm)

/-- No call is in flight once all members have returned. -/
theorem listStartedToolCalls_closeAll (h : CancelledWave ms rest) :
    (closeAll ms db).listStartedToolCalls = [] := by
  refine List.filter_eq_nil_iff.mpr fun t ht => ?_
  rw [decide_eq_true_iff]
  intro hstarted
  rcases mem_toolCalls_closeAll ht with ⟨m, -, rfl⟩ | ⟨ht, hne⟩
  · exact m.closes.closed hstarted
  · obtain ⟨m, hm, hid⟩ := h.calls t ht hstarted
    exact hne m hm hid

/-- The clean-up of a reconcile leaves the Steps as they are. -/
theorem steps_cancelOpenWork_closeAll (h : CancelledWave ms rest) (now : Time)
    (answeredBy : Option UUID) (hread : db₃.readable = (closeAll ms db).readable) :
    (db₃.cancelOpenWork now answeredBy []).steps = (closeAll ms db).steps := by
  have hsteps : db₃.steps = (closeAll ms db).steps := Db.steps_of_readable_eq hread
  rw [Db.steps_cancelOpenWork, ← hsteps]
  refine Table.mapRows_eq_self fun s hs => ?_
  rw [hsteps] at hs
  have hskip : db₃.cleanupSkips [] s = true := by
    unfold Db.cleanupSkips
    rw [h.isTerminal_closeAll hs]
    simp
  rw [if_pos hskip]

/-- What the last member's reconcile leaves. -/
theorem reconcile_closeAll (h : CancelledWave ms rest) (now : Time)
    (hread : db₃.readable = (closeAll ms db).readable) :
    ∃ o db', reconcileCancelRequested now db₃ = .ok (o, db') ∧ o.status = db'.execution.status ∧
      db'.steps = (closeAll ms db).steps ∧
      db'.execution.planSnapshot = db.execution.planSnapshot ∧
      (db'.execution.status = .cancelled ∨ db'.execution.status = .failed) ∧
      ((∀ s ∈ (closeAll ms db).steps, s.status ≠ .unknownOutcome) →
        db'.execution.status = .cancelled ∧ db'.execution.errorCode = none) := by
  have hdb := Db.eq_setUnread_of_readable_eq hread
  have hexecution : db₃.execution.status = .cancelRequested :=
    (congrArg (fun db => db.execution.status) hdb).trans
      ((congrArg Execution.status execution_closeAll).trans h.status)
  have hplan : db₃.execution.planSnapshot = db.execution.planSnapshot :=
    (congrArg (fun db => db.execution.planSnapshot) hdb).trans
      (congrArg Execution.planSnapshot execution_closeAll)
  have hsteps : db₃.steps = (closeAll ms db).steps := Db.steps_of_readable_eq hread
  have hcalls : db₃.listStartedToolCalls = [] :=
    (congrArg Db.listStartedToolCalls hdb).trans h.listStartedToolCalls_closeAll
  have hclean := h.steps_cancelOpenWork_closeAll now db₃.execution.cancelRequestedBy hread
  unfold reconcileCancelRequested
  rw [if_neg (by rw [hexecution]; simp), if_neg (by rw [hexecution]; simp),
    if_neg (by rw [hcalls]; simp)]
  dsimp only
  cases hfind : db₃.steps.rows.find? fun s => s.status = .unknownOutcome with
  | some cause =>
    refine ⟨_, _, rfl, rfl, hclean, hplan, .inr rfl, fun hnone => ?_⟩
    have hmem : cause ∈ (closeAll ms db).steps := hsteps ▸ List.mem_of_find?_eq_some hfind
    exact absurd (by simpa using List.find?_some hfind) (hnone cause hmem)
  | none => exact ⟨_, _, rfl, rfl, hclean, hplan, .inl rfl, fun _ => ⟨rfl, rfl⟩⟩

/-! #### The causes of the members -/

/-- The rows of a settled wave hold the closed Step of a member. -/
theorem find?_member (h : CancelledWave ms rest) (hm : m ∈ ms) :
    (closeAll ms db).steps.find? m.stepId = some m.closing.step :=
  find?_closeAll h.distinct.stepIds hm m.find?_step

end CancelledWave

/-- A result that is no NOOP counts as it says. -/
theorem effectiveDisposition_of_ne {outcome : ToolRunOutcome} (h : outcome.disposition ≠ .noop) :
    effectiveDisposition outcome = outcome.disposition := if_pos h

/-- The stop cause reads the status and the disposition of a result. -/
theorem stopCauseOf_congr {planOrder : List String} {db db' : Db} {stepId : UUID}
    {outcome outcome' : ToolRunOutcome} (hstep : db'.steps.find? stepId = db.steps.find? stepId)
    (hplan : db'.execution.planSnapshot = db.execution.planSnapshot)
    (hdisposition : effectiveDisposition outcome' = effectiveDisposition outcome)
    (hterminal : outcome'.terminalStatus = outcome.terminalStatus) :
    stopCauseOf planOrder db' stepId outcome' = stopCauseOf planOrder db stepId outcome := by
  unfold stopCauseOf
  rw [hstep, hplan, hdisposition, hterminal]

/-- A fatal result stops the Execution before every failure. -/
theorem stopCauseOf_fatal (planOrder : List String) {db : Db} {stepId : UUID}
    {outcome : ToolRunOutcome} {s : ExecutionStep} (hstep : db.steps.find? stepId = some s)
    (h : effectiveDisposition outcome = .fatalExecutionFailure ∨
      outcome.terminalStatus = some StepStatus.unknownOutcome.value) :
    ∃ c, stopCauseOf planOrder db stepId outcome = some c ∧ c.kind = .fatal := by
  unfold stopCauseOf
  rw [hstep, Option.bind_some]
  dsimp only
  rw [if_pos h]
  exact ⟨_, rfl, rfl⟩

/-- A success stops nothing. -/
theorem stopCauseOf_success {planOrder : List String} {db : Db} {stepId : UUID}
    {outcome : ToolRunOutcome} (hdisposition : effectiveDisposition outcome = .success)
    (hterminal : outcome.terminalStatus ≠ some StepStatus.unknownOutcome.value) :
    stopCauseOf planOrder db stepId outcome = none := by
  unfold stopCauseOf
  cases db.steps.find? stepId with
  | none => rfl
  | some s =>
    rw [Option.bind_some]
    dsimp only
    rw [hdisposition, if_neg (by simp [hterminal]), if_pos (by simp)]

/-- A Step that a cancellation closed stops the Execution as a failure without a code. -/
theorem stopCauseOf_cancelled {planOrder : List String} {db : Db} {stepId : UUID}
    {outcome : ToolRunOutcome} {s : ExecutionStep} (hstep : db.steps.find? stepId = some s)
    (hcode : s.errorCode = none) (hdisposition : effectiveDisposition outcome = .knownStepFailure)
    (hterminal : outcome.terminalStatus = some StepStatus.cancelled.value) :
    ∃ c, stopCauseOf planOrder db stepId outcome = some c ∧ c.kind = .failExecutionFailed ∧
      c.executionStatus = .failed ∧ c.errorCode = none := by
  unfold stopCauseOf
  rw [hstep, Option.bind_some]
  dsimp only
  rw [hdisposition, hterminal, if_neg (by decide), if_neg (by simp), hcode]
  -- CANCELLED is no failure that a plan goes on after.
  have hnever : (!(StepStatus.ofValue? ((some StepStatus.cancelled.value).getD s.status.value)).any
      (isContinuableKnownFailure (settledOnError db.execution.planSnapshot s))) = true := by
    cases settledOnError db.execution.planSnapshot s <;> rfl
  rw [if_pos (.inr hnever)]
  exact ⟨_, rfl, rfl, rfl, rfl⟩

namespace CancelledWave

variable {db db₃ db' : Db} {ms ms' init : List (WaveMember db)} {m last : WaveMember db}
  {rest : List (UUID × ToolRunOutcome)} {planOrder : List String}

/-- The cause of a member that the cancellation does not close is the same whenever it returns. -/
theorem cause_steady (hm : m.completion.closedByCancellation = false) (status : ExecutionStatus) :
    stopCauseOf planOrder (closeAll ms db) m.stepId (m.outcome status) =
      stopCauseOf planOrder (closeAll ms db) m.stepId (m.outcome .cancelRequested) := by
  obtain ⟨hdisposition, hterminal⟩ := m.ends.steady (.inr hm) status
  refine stopCauseOf_congr rfl rfl ?_ hterminal
  rw [effectiveDisposition_of_ne (m.ends.settles status),
    effectiveDisposition_of_ne (m.ends.settles _), hdisposition]

variable (planOrder) in
/-- A member that the cancellation closes is a failure while others are in flight. -/
theorem cause_closed (h : CancelledWave ms rest) (hm : m ∈ ms)
    (hclosed : m.completion.closedByCancellation = true) :
    ∃ c, stopCauseOf planOrder (closeAll ms db) m.stepId (m.outcome .cancelRequested) = some c ∧
      c.kind = .failExecutionFailed ∧ c.executionStatus = .failed ∧ c.errorCode = none := by
  obtain ⟨-, -, hcode, hdisposition, -, hterminal⟩ := m.ends.closed h.active hclosed
  refine stopCauseOf_cancelled (h.find?_member hm) hcode ?_ (hterminal _).1
  rw [effectiveDisposition_of_ne (m.ends.settles _), hdisposition]

/-- It is a success when it finishes the cancellation. -/
theorem cause_finished (h : CancelledWave ms rest)
    (hclosed : m.completion.closedByCancellation = true) :
    stopCauseOf planOrder (closeAll ms db) m.stepId (m.outcome .cancelled) = none := by
  obtain ⟨-, -, -, -, hdisposition, hterminal⟩ := m.ends.closed h.active hclosed
  refine stopCauseOf_success ?_ ?_
  · rw [effectiveDisposition_of_ne (m.ends.settles _), hdisposition]
  · rw [(hterminal _).1]
    decide

/-- It is never fatal. -/
theorem cause_closed_later (h : CancelledWave ms rest)
    (hclosed : m.completion.closedByCancellation = true) {status : ExecutionStatus} {c : StopCause}
    (hc : stopCauseOf planOrder (closeAll ms db) m.stepId (m.outcome status) = some c) :
    c.kind ≠ .fatal := by
  obtain ⟨-, -, -, -, -, hterminal⟩ := m.ends.closed h.active hclosed
  obtain ⟨s, -, hc⟩ := Option.bind_eq_some_iff.mp hc
  dsimp only at hc
  rw [effectiveDisposition_of_ne (m.ends.settles status), (hterminal status).1,
    if_neg (by simp [(hterminal status).2, StepStatus.value])] at hc
  split at hc
  · cases hc
  split at hc
  · cases hc
    dsimp only
    split <;> simp
  · cases hc

variable (planOrder) in
theorem cause_fatal (h : CancelledWave ms rest) (hm : m ∈ ms) {status : ExecutionStatus}
    (hfatal : (m.outcome status).disposition = .fatalExecutionFailure) :
    ∃ c, stopCauseOf planOrder (closeAll ms db) m.stepId (m.outcome status) = some c ∧
      c.kind = .fatal :=
  stopCauseOf_fatal _ (h.find?_member hm)
    (.inl ((effectiveDisposition_of_ne (m.ends.settles status)).trans hfatal))

variable (planOrder) in
/-- An UNKNOWN_OUTCOME Step stops the wave by a cause of its own. -/
theorem cause_unknown (h : CancelledWave ms rest) {s : ExecutionStep}
    (hs : s ∈ (closeAll ms db).steps) (hunknown : s.status = .unknownOutcome) :
    (∃ m ∈ ms, m.completion.closedByCancellation = false ∧
      ∃ c, stopCauseOf planOrder (closeAll ms db) m.stepId (m.outcome .cancelRequested) = some c ∧
        c.kind = .fatal) ∨
      ∃ c ∈ stopCauses planOrder (closeAll ms db) rest, c.kind = .fatal := by
  have hrow := hs
  rcases mem_steps_closeAll hs with ⟨m, hm, rfl⟩ | ⟨hs, hne⟩
  · refine .inl ⟨m, hm, ?_, h.cause_fatal _ hm (m.ends.unknown hunknown _)⟩
    by_contra hclosed
    have hcancelled := (m.ends.closed h.active (by simpa using hclosed)).2.1
    rw [hunknown] at hcancelled
    cases hcancelled
  · obtain ⟨outcome, hmem, hterminal⟩ := h.unknown s hs hunknown
    obtain ⟨c, hc, hkind⟩ := stopCauseOf_fatal planOrder
      (Table.find?_key_of_mem hrow) (.inr hterminal)
    exact .inr ⟨c, List.mem_filterMap.mpr ⟨(s.id, outcome), hmem, hc⟩, hkind⟩

end CancelledWave

/-! #### The settlement of a cancelled wave -/

/-- How the causes of a wave under cancellation settle it. -/
def waveVerdict (now : Time) (closed : Db) (causes : List StopCause) : Settlement :=
  match pickStopCause causes with
  | some stop => ⟨stop.executionStatus, stop.errorCode,
      (closed.stopUnstartedSteps now).settlement.steps⟩
  | none => ⟨.cancelled, none, closed.settlement.steps⟩

section Verdict

variable {env : RuntimeEnv} {worker : String} {token : UUID} {planOrder : List String} {now : Time}
  {db' closed : Db} {results : List (UUID × ToolRunOutcome)} {dag : ToolJoinDag}

variable (planOrder results) in
theorem stopCauses_congr (hsteps : db'.steps = closed.steps)
    (hplan : db'.execution.planSnapshot = closed.execution.planSnapshot) :
    stopCauses planOrder db' results = stopCauses planOrder closed results :=
  List.filterMap_congr fun result _ => stopCauseOf_congr (by rw [hsteps]) hplan rfl rfl

/-- The causes of the wave decide, and an Execution without one is cancelled. -/
theorem settledAs_verdict (hlineage : validateLineage env closed = .ok dag)
    (hsteps : db'.steps = closed.steps)
    (hplan : db'.execution.planSnapshot = closed.execution.planSnapshot)
    (hnone : pickStopCause (stopCauses planOrder closed results) = none →
      db'.execution.status = .cancelled ∧ db'.execution.errorCode = none) :
    settledAs env worker token planOrder now results db' =
      .ok (waveVerdict now closed (stopCauses planOrder closed results)) := by
  have hlineage' : validateLineage env db' = .ok dag := by
    rw [← hlineage]
    unfold validateLineage
    rw [hsteps, hplan]
  have hcauses := stopCauses_congr planOrder results hsteps hplan
  unfold settledAs settleWave waveVerdict
  rw [hlineage', ← hcauses]
  rw [← hcauses] at hnone
  unfold stopCauses at hnone ⊢
  dsimp only
  cases hpick : pickStopCause (results.filterMap fun result =>
      stopCauseOf planOrder db' result.1 result.2) with
  | some stop =>
    have hstopped : (db'.stopUnstartedSteps now).steps = (closed.stopUnstartedSteps now).steps := by
      unfold Db.stopUnstartedSteps Db.skipAllPending Db.cancelUnusedReadyTools
      rw [hsteps]
    simp only [Except.map, applyStopCause, Db.settlement, Db.terminateExecution,
      Db.execution_putExecution, Db.steps_putExecution, hstopped]
  | none =>
    obtain ⟨hstatus, hcode⟩ := hnone hpick
    have hidle : (settleContinuable env dag worker token now db').map (·.2) = .ok db' := by
      unfold settleContinuable settleCancellation Execution.hasRunningLease
      rw [hstatus]
      split <;> rfl
    have hsettled : (settleContinuable env dag worker token now db').map (·.2.settlement) =
        .ok db'.settlement := by
      cases hresult : settleContinuable env dag worker token now db' with
      | error e =>
        rw [hresult] at hidle
        cases hidle
      | ok result =>
        rw [hresult] at hidle
        exact congrArg (fun db => Except.ok (Db.settlement db)) (Except.ok.inj hidle)
    dsimp only
    rw [hsettled]
    unfold Db.settlement
    rw [hstatus, hcode, hsteps]

end Verdict

namespace CancelledWave

variable {db db₃ : Db} {ms ms' init : List (WaveMember db)} {m last : WaveMember db}
  {rest : List (UUID × ToolRunOutcome)} {planOrder : List String}
  {env : RuntimeEnv} {worker : String} {token : UUID} {now : Time} {dag : ToolJoinDag}

/-- The results that count: a member that the cancellation closes is no failure when it is the
last. -/
def counted (init : List (WaveMember db)) (last : WaveMember db) :
    List (UUID × ToolRunOutcome) :=
  if last.completion.closedByCancellation then init.map (·.early) else (init ++ [last]).map (·.early)

/-- The rows of a wave in one of its orders, with the status of which the last result speaks. -/
theorem runCompletions_closeAll (h : CancelledWave (init ++ [last]) rest) :
    ∃ status db', runCompletions ((init ++ [last]).map (·.completion)) db =
        .ok (init.map (·.early) ++ [(last.stepId, last.outcome status)], db') ∧
      db'.steps = (closeAll (init ++ [last]) db).steps ∧
      db'.execution.planSnapshot = db.execution.planSnapshot ∧
      (last.waits = true → (status = .cancelled ∨ status = .failed) ∧
        ((∀ s ∈ (closeAll (init ++ [last]) db).steps, s.status ≠ .unknownOutcome) →
          status = .cancelled ∧ db'.execution.status = .cancelled ∧
            db'.execution.errorCode = none)) := by
  obtain ⟨db₃, hread, hrun⟩ := runCompletions_members (fun _ => h.status) h.distinct h.same
  unfold WaveMember.finish at hrun
  by_cases hwaits : last.waits = true
  · obtain ⟨o, db', hreconcile, hstatus, hsteps, hplan, hends, hclean⟩ :=
      h.reconcile_closeAll last.completion.now hread
    rw [if_pos hwaits, hreconcile] at hrun
    exact ⟨o.status, db', hrun, hsteps, hplan, fun _ => ⟨hstatus ▸ hends, fun hnone =>
      ⟨hstatus.trans (hclean hnone).1, hclean hnone⟩⟩⟩
  · rw [if_neg hwaits] at hrun
    have hdb := Db.eq_setUnread_of_readable_eq hread
    have hplan : db₃.execution.planSnapshot = db.execution.planSnapshot :=
      (congrArg (fun db => db.execution.planSnapshot) hdb).trans
        (congrArg Execution.planSnapshot execution_closeAll)
    exact ⟨.cancelRequested, db₃, hrun, Db.steps_of_readable_eq hread, hplan,
      fun htrue => absurd htrue hwaits⟩

variable (planOrder) in
/-- A wave of which an UNKNOWN_OUTCOME Step is left has a fatal cause that counts. -/
theorem exists_fatal_counted (h : CancelledWave (init ++ [last]) rest) {s : ExecutionStep}
    (hs : s ∈ (closeAll (init ++ [last]) db).steps) (hunknown : s.status = .unknownOutcome) :
    ∃ c ∈ stopCauses planOrder (closeAll (init ++ [last]) db) (counted init last ++ rest),
      c.kind = .fatal := by
  rcases h.cause_unknown planOrder hs hunknown with
    ⟨m, hm, hclosed, c, hc, hkind⟩ | ⟨c, hc, hkind⟩
  · refine ⟨c, List.mem_filterMap.mpr ⟨m.early, List.mem_append_left rest ?_, hc⟩, hkind⟩
    unfold counted
    by_cases hlast : last.completion.closedByCancellation = true
    · rw [if_pos hlast]
      rcases List.mem_append.mp hm with hm | hm
      · exact List.mem_map_of_mem hm
      · rw [List.mem_singleton.mp hm, hlast] at hclosed
        cases hclosed
    · rw [if_neg hlast]
      exact List.mem_map_of_mem hm
  · unfold stopCauses at hc ⊢
    exact ⟨c, List.filterMap_append ▸ List.mem_append_right _ hc, hkind⟩

theorem counted_stepIds (h : CancelledWave (init ++ [last]) rest) :
    ((counted init last ++ rest).map Prod.fst).Nodup := by
  have hids := h.stepIds
  have hearly (ms : List (WaveMember db)) :
      (ms.map (·.early)).map Prod.fst = ms.map (·.stepId) := List.map_map
  unfold counted
  rw [List.map_append]
  split
  · rw [hearly]
    rw [List.map_append] at hids
    exact hids.sublist (((List.sublist_append_left _ _).append_right _))
  · rw [hearly]
    exact hids

variable (planOrder) in
/-- What the last member to return has left counts as little as it may. -/
theorem pickStopCause_counted (h : CancelledWave (init ++ [last]) rest)
    (hkeys : ((closeAll (init ++ [last]) db).steps.rows.map (·.stepKey)).Nodup)
    {status : ExecutionStatus}
    (hends : last.waits = true → (status = .cancelled ∨ status = .failed) ∧
      ((∀ s ∈ (closeAll (init ++ [last]) db).steps, s.status ≠ .unknownOutcome) →
        status = .cancelled)) :
    pickStopCause (stopCauses planOrder (closeAll (init ++ [last]) db)
        (init.map (·.early) ++ [(last.stepId, last.outcome status)] ++ rest)) =
      pickStopCause (stopCauses planOrder (closeAll (init ++ [last]) db)
        (counted init last ++ rest)) := by
  have hlast : last ∈ init ++ [last] := List.mem_append_right init List.mem_cons_self
  have hsplit (status : ExecutionStatus) : stopCauses planOrder (closeAll (init ++ [last]) db)
        (init.map (·.early) ++ [(last.stepId, last.outcome status)] ++ rest) =
      stopCauses planOrder (closeAll (init ++ [last]) db) (init.map (·.early)) ++
        (stopCauseOf planOrder (closeAll (init ++ [last]) db) last.stepId
          (last.outcome status)).toList ++
        stopCauses planOrder (closeAll (init ++ [last]) db) rest := by
    unfold stopCauses
    rw [List.filterMap_append, List.filterMap_append]
    congr 2
  by_cases hclosed : last.completion.closedByCancellation = true
  · have hcounted : stopCauses planOrder (closeAll (init ++ [last]) db) (counted init last ++ rest) =
        stopCauses planOrder (closeAll (init ++ [last]) db) (init.map (·.early)) ++
          stopCauses planOrder (closeAll (init ++ [last]) db) rest := by
      unfold counted
      rw [if_pos hclosed]
      exact List.filterMap_append
    obtain ⟨hstatus, hclean⟩ := hends (last.ends.closed h.active hclosed).1
    rcases hstatus with rfl | rfl
    · rw [hsplit, h.cause_finished hclosed, hcounted]
      simp
    · -- The cancellation failed on an UNKNOWN_OUTCOME Step, whose cause precedes the last one.
      obtain ⟨s, hs, hunknown⟩ : ∃ s ∈ (closeAll (init ++ [last]) db).steps,
          s.status = .unknownOutcome := by
        by_contra hnone
        exact absurd (hclean fun s hs hu => hnone ⟨s, hs, hu⟩) (by simp)
      obtain ⟨c, hc, hkind⟩ := h.exists_fatal_counted planOrder hs hunknown
      have huniq {a b : StopCause}
          (ha : a ∈ stopCauses planOrder (closeAll (init ++ [last]) db) (counted init last ++ rest))
          (hb : b ∈ stopCauses planOrder (closeAll (init ++ [last]) db) (counted init last ++ rest))
          (hrank : a.rank = b.rank) : a = b :=
        stopCauses_eq_of_rank hkeys h.counted_stepIds ha hb hrank
      rw [hsplit]
      cases hpick : pickStopCause (stopCauses planOrder (closeAll (init ++ [last]) db)
          (counted init last ++ rest)) with
      | none =>
        rw [pickStopCause_eq_none.mp hpick] at hc
        cases hc
      | some x =>
        obtain ⟨hx, hmin⟩ := pickStopCause_some hpick
        rw [hcounted] at hpick huniq hx
        refine pickStopCause_append_later hpick (fun d hd hrank => huniq hd hx hrank) fun d hd => ?_
        have hlater := h.cause_closed_later hclosed (Option.mem_def.mp hd)
        refine lt_of_le_of_lt (hmin c hc) (Prod.Lex.toLex_lt_toLex.mpr (.inl ?_))
        show c.kind.precedence < d.kind.precedence
        rw [hkind]
        cases hd : d.kind with
        | fatal => exact absurd hd hlater
        | failExecutionTimedOut => decide
        | failExecutionFailed => decide
  · have hcounted : counted init last ++ rest =
        init.map (·.early) ++ [(last.stepId, last.outcome .cancelRequested)] ++ rest := by
      unfold counted
      rw [if_neg hclosed, List.map_append]
      rfl
    rw [hcounted, hsplit, hsplit, cause_steady (by simpa using hclosed) status]

variable (worker token planOrder now) in
/-- One order of the members: the causes that count settle the wave. -/
theorem settles_last (h : CancelledWave (init ++ [last]) rest)
    (hlineage : validateLineage env (closeAll (init ++ [last]) db) = .ok dag) :
    ∃ outcomes db', runCompletions ((init ++ [last]).map (·.completion)) db =
        .ok (outcomes, db') ∧
      ∀ results, results.Perm (outcomes ++ rest) →
        settledAs env worker token planOrder now results db' =
          .ok (waveVerdict now (closeAll (init ++ [last]) db)
            (stopCauses planOrder (closeAll (init ++ [last]) db) (counted init last ++ rest))) := by
  obtain ⟨status, db', hrun, hsteps, hplan, hends⟩ := h.runCompletions_closeAll
  refine ⟨_, db', hrun, fun results hp => ?_⟩
  have hkeys := validateLineage_nodup hlineage
  have hids : ((init.map (·.early) ++ [(last.stepId, last.outcome status)] ++ rest).map
      Prod.fst).Nodup := by
    have hstepIds := h.stepIds
    simp only [List.map_append, List.map_map, List.map_singleton] at hstepIds ⊢
    exact hstepIds
  have hpick := (pickStopCause_stopCauses_perm planOrder hkeys hids hp).trans
    (h.pickStopCause_counted planOrder hkeys fun hw =>
      ⟨(hends hw).1, fun hnone => ((hends hw).2 hnone).1⟩)
  have hclosedPlan : db'.execution.planSnapshot =
      (closeAll (init ++ [last]) db).execution.planSnapshot :=
    hplan.trans (congrArg Execution.planSnapshot execution_closeAll).symm
  rw [settledAs_verdict hlineage hsteps hclosedPlan]
  · unfold waveVerdict
    rw [hpick]
  · rw [hpick]
    intro hnone
    have hempty := pickStopCause_eq_none.mp hnone
    have hwaits : last.waits = true := by
      by_contra hwaits
      have hsteady : last.completion.closedByCancellation ≠ true := fun hclosed =>
        hwaits (last.ends.closed h.active hclosed).1
      have hmem : last.early ∈ counted init last ++ rest := by
        unfold counted
        rw [if_neg hsteady, List.map_append]
        simp
      obtain ⟨c, hc, -⟩ := h.cause_fatal planOrder
        (List.mem_append_right init List.mem_cons_self)
        (last.ends.fatal h.active (by simpa using hwaits) .cancelRequested)
      have hcause : c ∈ stopCauses planOrder (closeAll (init ++ [last]) db)
          (counted init last ++ rest) := List.mem_filterMap.mpr ⟨last.early, hmem, hc⟩
      rw [hempty] at hcause
      cases hcause
    refine ((hends hwaits).2 fun s hs hunknown => ?_).2
    obtain ⟨c, hc, -⟩ := h.exists_fatal_counted planOrder hs hunknown
    rw [hempty] at hc
    cases hc

/-- The other members. -/
def others (ms : List (WaveMember db)) (m : WaveMember db) : List (WaveMember db) :=
  ms.filter fun m' => m'.stepId ≠ m.stepId

theorem others_append (h : CancelledWave (init ++ [last]) rest) :
    others (init ++ [last]) last = init := by
  unfold others
  rw [List.filter_append, List.filter_singleton]
  simp only [ne_eq, not_true_eq_false, decide_false, cond_false, List.append_nil]
  refine List.filter_eq_self.mpr fun m hm => decide_eq_true fun heq => ?_
  have hids := h.distinct.stepIds
  rw [List.map_append, List.nodup_append] at hids
  exact hids.2.2 _ (List.mem_map_of_mem hm) _ (List.mem_map_of_mem List.mem_cons_self) heq

/-- Every member may be the last. -/
theorem perm_others (h : CancelledWave ms rest) (hm : m ∈ ms) : (others ms m ++ [m]).Perm ms := by
  obtain ⟨l₁, l₂, rfl⟩ := List.append_of_mem hm
  have hp : (l₁ ++ l₂ ++ [m]).Perm (l₁ ++ m :: l₂) := by
    rw [List.append_assoc]
    exact (List.perm_append_singleton m l₂).append_left l₁
  have hothers : (others (l₁ ++ m :: l₂) m).Perm (others (l₁ ++ l₂ ++ [m]) m) := hp.symm.filter _
  rw [(h.perm hp).others_append] at hothers
  exact (hothers.append_right [m]).trans hp

theorem exists_other (h : CancelledWave ms rest) (hlength : 2 ≤ ms.length) (hm : m ∈ ms) :
    ∃ m' ∈ ms, m.stepId ≠ m'.stepId := by
  by_contra hnone
  have hothers : others ms m = [] := List.filter_eq_nil_iff.mpr fun m' hm' hne =>
    hnone ⟨m', hm', fun heq => of_decide_eq_true hne heq.symm⟩
  have hperm := (h.perm_others hm).length_eq
  rw [hothers, List.nil_append, List.length_singleton] at hperm
  omega

/-- How the wave settles when `m` is the last to return. -/
def lastVerdict (ms : List (WaveMember db)) (rest : List (UUID × ToolRunOutcome))
    (planOrder : List String) (now : Time) (m : WaveMember db) : Settlement :=
  waveVerdict now (closeAll ms db) (stopCauses planOrder (closeAll ms db)
    ((if m.completion.closedByCancellation then others ms m else ms).map (·.early) ++ rest))

theorem waveVerdict_congr {closed : Db} {causes causes' : List StopCause}
    (h : pickStopCause causes = pickStopCause causes') :
    waveVerdict now closed causes = waveVerdict now closed causes' := by
  unfold waveVerdict
  rw [h]

theorem early_stepIds (h : CancelledWave ms rest) :
    ((ms.map (·.early) ++ rest).map Prod.fst).Nodup := by
  have hids := h.stepIds
  simp only [List.map_append, List.map_map] at hids ⊢
  exact hids

variable (worker token planOrder now) in
/-- In every order the wave settles as its last member says. -/
theorem settles_perm (h : CancelledWave ms rest)
    (hlineage : validateLineage env (closeAll ms db) = .ok dag) (hp : (init ++ [last]).Perm ms) :
    ∃ outcomes db', runCompletions ((init ++ [last]).map (·.completion)) db =
        .ok (outcomes, db') ∧
      ∀ results, results.Perm (outcomes ++ rest) →
        settledAs env worker token planOrder now results db' =
          .ok (lastVerdict ms rest planOrder now last) := by
  have horder := h.perm hp
  have hclosed : closeAll (init ++ [last]) db = closeAll ms db :=
    closeAll_perm hp h.distinct.stepIds
  have hlineage' := hlineage
  rw [← hclosed] at hlineage'
  obtain ⟨outcomes, db', hrun, hsettled⟩ := horder.settles_last planOrder worker token now hlineage'
  refine ⟨outcomes, db', hrun, fun results hresults => (hsettled results hresults).trans ?_⟩
  rw [hclosed]
  unfold lastVerdict counted
  refine congrArg Except.ok (waveVerdict_congr ?_)
  by_cases hlast : last.completion.closedByCancellation = true
  · rw [if_pos hlast, if_pos hlast]
    have hothers : init.Perm (others ms last) := by
      have hfilter : (others (init ++ [last]) last).Perm (others ms last) := hp.filter _
      rwa [horder.others_append] at hfilter
    refine pickStopCause_stopCauses_perm _ (validateLineage_nodup hlineage) ?_
      ((hothers.map _).append_right rest)
    refine h.early_stepIds.sublist (List.Sublist.map _ (List.Sublist.append_right ?_ rest))
    exact List.Sublist.map _ List.filter_sublist
  · rw [if_neg hlast, if_neg hlast]
    exact pickStopCause_stopCauses_perm _ (validateLineage_nodup hlineage) h.early_stepIds
      ((hp.map _).append_right rest)

/-- The cause of a member, and those of the others. -/
theorem pickStopCause_split (h : CancelledWave ms rest)
    (hlineage : validateLineage env (closeAll ms db) = .ok dag) (hm : m ∈ ms) {own : StopCause}
    (hown : stopCauseOf planOrder (closeAll ms db) m.stepId (m.outcome .cancelRequested) =
      some own) :
    pickStopCause (stopCauses planOrder (closeAll ms db) (ms.map (·.early) ++ rest)) =
      pickStopCause (own ::
        stopCauses planOrder (closeAll ms db) ((others ms m).map (·.early) ++ rest)) := by
  have hp : (m.early :: ((others ms m).map (·.early) ++ rest)).Perm (ms.map (·.early) ++ rest) := by
    rw [← List.cons_append]
    refine List.Perm.append_right rest ?_
    have hperm := (h.perm_others hm).map (·.early)
    rw [List.map_append] at hperm
    exact (List.perm_append_singleton m.early _).symm.trans hperm
  rw [← pickStopCause_stopCauses_perm _ (validateLineage_nodup hlineage) h.early_stepIds hp]
  exact congrArg pickStopCause (List.filterMap_cons_some hown)

/-- The stop cause of `m` does not decide the wave. -/
def OutrankedIn (ms : List (WaveMember db)) (rest : List (UUID × ToolRunOutcome))
    (planOrder : List String) (m : WaveMember db) : Prop :=
  ∃ next, pickStopCause (stopCauses planOrder (closeAll ms db)
      ((others ms m).map (·.early) ++ rest)) = some next ∧
    ((∃ own, stopCauseOf planOrder (closeAll ms db) m.stepId (m.outcome .cancelRequested) =
        some own ∧ next.rank < own.rank) ∨
      (next.executionStatus = .failed ∧ next.errorCode = none))

/-- The settlement of all causes together. -/
def fullVerdict (ms : List (WaveMember db)) (rest : List (UUID × ToolRunOutcome))
    (planOrder : List String) (now : Time) : Settlement :=
  waveVerdict now (closeAll ms db)
    (stopCauses planOrder (closeAll ms db) (ms.map (·.early) ++ rest))

/-- A member whose cause does not decide may be the last. -/
theorem lastVerdict_of_outranked (h : CancelledWave ms rest)
    (hlineage : validateLineage env (closeAll ms db) = .ok dag) (hm : m ∈ ms)
    (hout : m.completion.closedByCancellation = true → OutrankedIn ms rest planOrder m) :
    lastVerdict ms rest planOrder now m = fullVerdict ms rest planOrder now := by
  unfold lastVerdict fullVerdict
  by_cases hclosed : m.completion.closedByCancellation = true
  · rw [if_pos hclosed]
    obtain ⟨own, hown, -, hstatus, hcode⟩ := h.cause_closed planOrder hm hclosed
    obtain ⟨next, hnext, hcase⟩ := hout hclosed
    unfold waveVerdict
    rw [h.pickStopCause_split hlineage hm hown, pickStopCause, hnext]
    dsimp only
    by_cases hbefore : own.before next = true
    · rw [if_pos hbefore]
      dsimp only
      rcases hcase with ⟨own', hown', hlt⟩ | ⟨hfailed, hnone⟩
      · obtain rfl := Option.some.inj (hown.symm.trans hown')
        exact absurd (StopCause.before_iff.mp hbefore) (not_le.mpr hlt)
      · rw [hfailed, hnone, hstatus, hcode]
    · rw [if_neg hbefore]
  · rw [if_neg hclosed]

/-- Two orders that settle alike, one with `m` as its last member, do not hear the cause of `m`. -/
theorem outranked_of_lastVerdict (h : CancelledWave ms rest)
    (hlineage : validateLineage env (closeAll ms db) = .ok dag) (hm : m ∈ ms)
    (hclosed : m.completion.closedByCancellation = true) {last : WaveMember db}
    (hne : m.stepId ≠ last.stepId)
    (heq : lastVerdict ms rest planOrder now m = lastVerdict ms rest planOrder now last) :
    OutrankedIn ms rest planOrder m := by
  obtain ⟨own, hown, -, hstatus, hcode⟩ := h.cause_closed planOrder hm hclosed
  -- The members whose results count when `last` returns last; `m` is one of them.
  obtain ⟨counting, hcounting⟩ : ∃ counting : List (WaveMember db),
      counting = if last.completion.closedByCancellation then others ms last else ms := ⟨_, rfl⟩
  have hsub : List.Sublist counting ms := by
    rw [hcounting]
    split
    · exact List.filter_sublist
    · exact List.Sublist.refl ms
  have hmem : m ∈ counting := by
    rw [hcounting]
    split
    · exact List.mem_filter.mpr ⟨hm, decide_eq_true hne⟩
    · exact hm
  have hother : own ∈ stopCauses planOrder (closeAll ms db) (counting.map (·.early) ++ rest) :=
    List.mem_filterMap.mpr ⟨m.early, List.mem_append_left rest (List.mem_map_of_mem hmem), hown⟩
  unfold lastVerdict at heq
  rw [if_pos hclosed, ← hcounting] at heq
  unfold waveVerdict at heq
  cases hnext : pickStopCause (stopCauses planOrder (closeAll ms db)
      ((others ms m).map (·.early) ++ rest)) with
  | none =>
    rw [hnext] at heq
    cases hpick : pickStopCause (stopCauses planOrder (closeAll ms db)
        (counting.map (·.early) ++ rest)) with
    | none =>
      rw [pickStopCause_eq_none.mp hpick] at hother
      cases hother
    | some c =>
      rw [hpick] at heq
      have hcancelled : ExecutionStatus.cancelled = c.executionStatus :=
        congrArg Settlement.status heq
      unfold StopCause.executionStatus at hcancelled
      split at hcancelled <;> cases hcancelled
  | some next =>
    refine ⟨next, hnext, ?_⟩
    by_cases hlt : next.rank < own.rank
    · exact .inl ⟨own, hown, hlt⟩
    · have hmin := (pickStopCause_some hnext).2
      have hpick : pickStopCause (stopCauses planOrder (closeAll ms db)
          (counting.map (·.early) ++ rest)) = some own := by
        refine pickStopCause_eq_some hother (fun d hd => ?_) fun d hd hrank => ?_
        · obtain ⟨⟨id, outcome⟩, hresult, hd⟩ := List.mem_filterMap.mp hd
          by_cases hid : id = m.stepId
          · have hentry := List.inj_on_of_nodup_map h.early_stepIds
              (List.mem_append.mpr ((List.mem_append.mp hresult).imp_left fun hr =>
                (hsub.map _).subset hr))
              (List.mem_append_left rest (List.mem_map_of_mem hm)) hid
            rw [hentry] at hd
            rw [Option.some.inj (hown.symm.trans hd)]
          · refine (not_lt.mp hlt).trans (hmin d (List.mem_filterMap.mpr
              ⟨(id, outcome), ?_, hd⟩))
            refine List.mem_append.mpr ((List.mem_append.mp hresult).imp_left fun hr => ?_)
            obtain ⟨m', hm', heq'⟩ := List.mem_map.mp hr
            refine List.mem_map.mpr ⟨m', List.mem_filter.mpr ⟨hsub.subset hm', ?_⟩, heq'⟩
            exact decide_eq_true fun hsame => hid ((congrArg Prod.fst heq').symm.trans hsame)
        · refine stopCauses_eq_of_rank (validateLineage_nodup hlineage) ?_ hd hother hrank
          exact h.early_stepIds.sublist (((hsub.map _).append_right rest).map _)
      rw [hnext, hpick] at heq
      have hfailed : next.executionStatus = own.executionStatus := congrArg Settlement.status heq
      have hnone : next.errorCode = own.errorCode := congrArg Settlement.errorCode heq
      exact .inr ⟨hfailed.trans hstatus, hnone.trans hcode⟩

variable (worker token planOrder now) in
/-- In which orders a wave under cancellation settles to one settlement. -/
theorem settles_iff (h : CancelledWave ms rest)
    (hlineage : validateLineage env (closeAll ms db) = .ok dag) (hlength : 2 ≤ ms.length) :
    (∃ settled, ∀ ms' : List (WaveMember db), ms'.Perm ms → ∃ outcomes db',
        runCompletions (ms'.map (·.completion)) db = .ok (outcomes, db') ∧
        ∀ results, results.Perm (outcomes ++ rest) →
          settledAs env worker token planOrder now results db' = settled) ↔
      ∀ m ∈ ms, m.completion.closedByCancellation = true → OutrankedIn ms rest planOrder m := by
  constructor
  · rintro ⟨settled, halike⟩ m hm hclosed
    have hsettled {m : WaveMember db} (hm : m ∈ ms) :
        settled = .ok (lastVerdict ms rest planOrder now m) := by
      obtain ⟨outcomes, db', hrun, hresults⟩ := halike _ (h.perm_others hm)
      obtain ⟨outcomes', db'', hrun', hresults'⟩ := h.settles_perm planOrder worker token now hlineage (h.perm_others hm)
      obtain ⟨rfl, rfl⟩ := Prod.mk.inj (Except.ok.inj (hrun.symm.trans hrun'))
      exact (hresults _ (.refl _)).symm.trans (hresults' _ (.refl _))
    obtain ⟨last, hlast, hne⟩ := h.exists_other hlength hm
    exact h.outranked_of_lastVerdict hlineage hm hclosed hne
      (Except.ok.inj ((hsettled hm).symm.trans (hsettled hlast)))
  · intro hout
    refine ⟨.ok (fullVerdict ms rest planOrder now), fun ms' hp => ?_⟩
    rcases List.eq_nil_or_concat ms' with rfl | ⟨init, last, rfl⟩
    · have hempty := hp.length_eq
      rw [List.length_nil] at hempty
      omega
    · rw [List.concat_eq_append] at hp ⊢
      obtain ⟨outcomes, db', hrun, hresults⟩ := h.settles_perm planOrder worker token now hlineage hp
      have hlast : last ∈ ms := hp.mem_iff.mp (List.mem_append_right init List.mem_cons_self)
      refine ⟨outcomes, db', hrun, fun results hresult => (hresults results hresult).trans ?_⟩
      rw [h.lastVerdict_of_outranked hlineage hlast (hout last hlast)]

/-- The cause that a member leaves when it is the first to return. -/
theorem cause_eq (h : CancelledWave ms rest) (hm : m ∈ ms) {m' : WaveMember db} (hm' : m' ∈ ms)
    (hne : m.stepId ≠ m'.stepId) :
    m.completion.cause planOrder db =
      stopCauseOf planOrder (closeAll ms db) m.stepId (m.outcome .cancelRequested) := by
  obtain ⟨db₃, hrun, hread, -⟩ := WaveMember.run_early (fun _ => h.status) hne (h.same m hm)
    (h.same m' hm')
  unfold Completion.cause
  rw [hrun]
  have hsteps : db₃.steps = db.steps.put m.closing.step := Db.steps_of_readable_eq hread
  have hdb := Db.eq_setUnread_of_readable_eq hread
  refine stopCauseOf_congr ?_ ?_ rfl rfl
  · refine (hsteps ▸ ?_ : db₃.steps.find? m.stepId = some m.closing.step).trans
      (h.find?_member hm).symm
    exact Table.find?_put_of_find? m.find?_step
      (m.closing_stepId.trans (Table.key_of_find? m.find?_step).symm)
  · rw [execution_closeAll]
    exact congrArg (fun db => db.execution.planSnapshot) hdb

theorem stopCauses_rest (h : CancelledWave ms rest) :
    stopCauses planOrder db rest = stopCauses planOrder (closeAll ms db) rest := by
  refine List.filterMap_congr fun result hresult => stopCauseOf_congr ?_ ?_ rfl rfl
  · refine (find?_closeAll_of_ne fun m hm heq => ?_).symm
    exact (List.nodup_append.mp h.stepIds).2.2 _ (List.mem_map_of_mem hm) _
      (List.mem_map_of_mem hresult) heq
  · rw [execution_closeAll]

theorem outranked_iff (h : CancelledWave ms rest) (hlength : 2 ≤ ms.length) (hm : m ∈ ms) :
    Outranked planOrder db (ms.map (·.completion)) rest m.completion ↔
      OutrankedIn ms rest planOrder m := by
  have hcause {m : WaveMember db} (hm : m ∈ ms) : m.completion.cause planOrder db =
      stopCauseOf planOrder (closeAll ms db) m.stepId (m.outcome .cancelRequested) := by
    obtain ⟨m', hm', hne⟩ := h.exists_other hlength hm
    exact h.cause_eq hm hm' hne
  have hothers : otherCauses planOrder db (ms.map (·.completion)) rest m.completion =
      stopCauses planOrder (closeAll ms db) ((others ms m).map (·.early) ++ rest) := by
    unfold otherCauses
    rw [h.stopCauses_rest, List.filter_map, List.filterMap_map]
    unfold stopCauses
    rw [List.filterMap_append, List.filterMap_map]
    congr 1
    exact List.filterMap_congr fun m' hm' => hcause (List.mem_filter.mp hm').1
  unfold Outranked OutrankedIn
  rw [hothers, hcause hm]

end CancelledWave

/-! ### The order of a wave -/

section Order

variable {env : RuntimeEnv} {worker : String} {token : UUID} {planOrder : List String} {now : Time}
  {db : Db} {cs : List Completion} {rest : List (UUID × ToolRunOutcome)}

theorem WaveInFlight.sameMember (h : WaveInFlight db cs rest) {ms : List (WaveMember db)}
    (hms : ms.map (·.completion) = cs) : ∀ m ∈ ms, SameMember m.completion db db := fun m hm => {
  execution := ⟨db.execution.heartbeatAt, rfl⟩
  step := rfl
  attempt := rfl
  toolCall := rfl
  calls := rfl
  fresh := h.fresh m.completion (hms ▸ List.mem_map_of_mem hm) }

theorem WaveInFlight.distinct (h : WaveInFlight db cs rest) {ms : List (WaveMember db)}
    (hms : ms.map (·.completion) = cs) : Distinct ms where
  stepIds := by
    have hids := (List.nodup_append.mp h.stepIds).1
    rw [← hms, List.map_map] at hids
    exact hids
  requestIds := by
    have hids := h.requestIds
    rw [← hms, List.filterMap_map] at hids
    exact hids

theorem WaveInFlight.cancelledWave (h : WaveInFlight db cs rest)
    (hactive : db.execution.cancellationIsRequested = true) {ms : List (WaveMember db)}
    (hms : ms.map (·.completion) = cs) : CancelledWave ms rest where
  active := hactive
  status := h.cancelRequested hactive
  distinct := h.distinct hms
  stepIds := by
    have hids := h.stepIds
    rw [← hms, List.map_map] at hids
    exact hids
  same := h.sameMember hms
  calls := fun t ht hstarted => by
    obtain ⟨c, hc, hid⟩ := h.calls t ht hstarted
    obtain ⟨m, hm, rfl⟩ := List.mem_map.mp (hms ▸ hc)
    exact ⟨m, hm, hid⟩
  cleaned := fun s hs => (h.cleaned hactive s hs).imp_right fun ⟨c, hc, hid⟩ => by
    obtain ⟨m, hm, rfl⟩ := List.mem_map.mp (hms ▸ hc)
    exact ⟨m, hm, hid⟩
  unknown := h.unknown

/-- Without a requested cancellation the wave settles to one settlement. -/
theorem settlesAlike_running (hblind : env.Blind) (h : WaveInFlight db cs rest)
    (hcancel : db.execution.cancellationIsRequested = false) :
    SettlesAlike env worker token planOrder now db cs rest := by
  obtain ⟨ms, hms, hperm⟩ := h.exists_members
  refine ⟨settledAs env worker token planOrder now (ms.map (·.early) ++ rest) (closeAll ms db),
    fun cs' hp => ?_⟩
  obtain ⟨ms', hp', rfl⟩ := hperm cs' hp
  have hdistinct := h.distinct hms
  obtain ⟨db', hread, hrun⟩ := runCompletions_running hcancel (hdistinct.perm hp')
    fun m hm => h.sameMember hms m (hp'.mem_iff.mp hm)
  rw [closeAll_perm hp' hdistinct.stepIds] at hread
  refine ⟨ms'.map (·.early), db', hrun, fun results hresults => ?_⟩
  have hclosed : (closeAll ms db).execution.cancellationIsRequested = false := by
    rw [execution_closeAll, hcancel]
  have hids : ((ms.map (·.early) ++ rest).map Prod.fst).Nodup := by
    have hstepIds := h.stepIds
    rw [← hms] at hstepIds
    simp only [List.map_append, List.map_map] at hstepIds ⊢
    exact hstepIds
  rw [Db.eq_setUnread_of_readable_eq hread, settledAs_setUnread env worker token planOrder now hblind
    _ _ hclosed]
  unfold settledAs
  rw [settleWave_perm env worker token now hids
    (hresults.trans ((hp'.map _).append_right rest))]

/-- One completion, or none, has one order. -/
theorem settlesAlike_short (h : WaveInFlight db cs rest) (hlength : cs.length ≤ 1)
    (hrun : ∃ outcomes db', runCompletions cs db = .ok (outcomes, db') ∧
      outcomes.map Prod.fst = cs.map (·.call.stepId)) :
    SettlesAlike env worker token planOrder now db cs rest := by
  obtain ⟨outcomes, db', hrun, hids⟩ := hrun
  refine ⟨settledAs env worker token planOrder now (outcomes ++ rest) db', fun cs' hp => ?_⟩
  have hsame : cs' = cs := by
    rcases cs with _ | ⟨c, _ | ⟨d, cs⟩⟩
    · exact List.perm_nil.mp hp
    · exact List.perm_singleton.mp hp
    · simp only [List.length_cons] at hlength
      omega
  subst hsame
  refine ⟨outcomes, db', hrun, fun results hresults => ?_⟩
  unfold settledAs
  rw [settleWave_perm env worker token now ?_ hresults]
  rw [List.map_append, hids]
  exact h.stepIds

/-- A settlement that finds no lineage. -/
theorem settledAs_refused {db' closed : Db} {e : AppError}
    {results : List (UUID × ToolRunOutcome)} (hlineage : validateLineage env closed = .error e)
    (hsteps : db'.steps = closed.steps)
    (hplan : db'.execution.planSnapshot = closed.execution.planSnapshot) :
    settledAs env worker token planOrder now results db' =
      .ok ⟨.failed, some (if e.code = "" then "RESOURCE_CONFLICT" else e.code),
        (closed.stopUnstartedSteps now).settlement.steps⟩ := by
  have hlineage' : validateLineage env db' = .error e := by
    rw [← hlineage]
    unfold validateLineage
    rw [hsteps, hplan]
  have hstopped : (db'.stopUnstartedSteps now).steps = (closed.stopUnstartedSteps now).steps := by
    unfold Db.stopUnstartedSteps Db.skipAllPending Db.cancelUnusedReadyTools
    rw [hsteps]
  unfold settledAs settleWave
  rw [hlineage']
  simp only [Except.map, failClosedLineage, Db.settlement, Db.terminateExecution,
    Db.execution_putExecution, Db.steps_putExecution, hstopped]

variable (worker token planOrder now) in
/-- The order in which a wave returns plays no part in what it settles to, exactly when no requested
cancellation closes a member whose own stop cause would decide. -/
theorem settlesAlike_iff (hblind : env.Blind) (h : WaveInFlight db cs rest) :
    SettlesAlike env worker token planOrder now db cs rest ↔
      db.execution.cancellationIsRequested = false ∨ cs.length ≤ 1 ∨ LineageRefused env db cs ∨
        ∀ c ∈ cs, c.closedByCancellation = true → Outranked planOrder db cs rest c := by
  by_cases hcancel : db.execution.cancellationIsRequested = false
  · exact iff_of_true (settlesAlike_running hblind h hcancel) (.inl hcancel)
  have hactive : db.execution.cancellationIsRequested = true := by simpa using hcancel
  obtain ⟨ms, hms, hperm⟩ := h.exists_members
  have hwave := h.cancelledWave hactive hms
  -- Every order of at least one member ends with the rows of `closeAll`.
  have horder (ms' : List (WaveMember db)) (hp : ms'.Perm ms) : ∃ outcomes db',
      runCompletions (ms'.map (·.completion)) db = .ok (outcomes, db') ∧
        outcomes.map Prod.fst = ms'.map (·.stepId) ∧ db'.steps = (closeAll ms db).steps ∧
        db'.execution.planSnapshot = (closeAll ms db).execution.planSnapshot := by
    rcases List.eq_nil_or_concat ms' with rfl | ⟨init, last, rfl⟩
    · rw [List.nil_perm.mp hp]
      exact ⟨[], db, rfl, rfl, rfl, rfl⟩
    · rw [List.concat_eq_append] at hp ⊢
      obtain ⟨status, db', hrun, hsteps, hplan, -⟩ := (hwave.perm hp).runCompletions_closeAll
      refine ⟨_, db', hrun, ?_, ?_, ?_⟩
      · simp only [List.map_append, List.map_map, List.map_singleton]
        rfl
      · rw [hsteps, closeAll_perm hp hwave.distinct.stepIds]
      · rw [hplan, execution_closeAll]
  obtain ⟨outcomes, db', hrun, hids, hsteps, hplan⟩ := horder ms (.refl ms)
  rw [hms] at hrun
  by_cases hlength : cs.length ≤ 1
  · refine iff_of_true (settlesAlike_short h hlength ⟨outcomes, db', hrun, ?_⟩) (.inr (.inl hlength))
    rw [hids, ← hms, List.map_map]
    rfl
  have hsame : validateLineage env db' = validateLineage env (closeAll ms db) := by
    unfold validateLineage
    rw [hsteps, hplan]
  cases hlineage : validateLineage env (closeAll ms db) with
  | error e =>
    refine iff_of_true ⟨.ok ⟨.failed, some (if e.code = "" then "RESOURCE_CONFLICT" else e.code),
      ((closeAll ms db).stopUnstartedSteps now).settlement.steps⟩, fun cs' hp => ?_⟩
      (.inr (.inr (.inl ⟨outcomes, db', e, hrun, hsame.trans hlineage⟩)))
    obtain ⟨ms', hp', rfl⟩ := hperm cs' hp
    obtain ⟨outcomes', db'', hrun', -, hsteps', hplan'⟩ := horder ms' hp'
    exact ⟨outcomes', db'', hrun', fun results _ => settledAs_refused hlineage hsteps' hplan'⟩
  | ok dag =>
    have hvalid : ¬LineageRefused env db cs := by
      rintro ⟨outcomes', db'', e, hrun', hrefused⟩
      obtain ⟨rfl, rfl⟩ := Prod.mk.inj (Except.ok.inj (hrun.symm.trans hrun'))
      rw [hsame, hlineage] at hrefused
      cases hrefused
    have htwo : 2 ≤ ms.length := by
      rw [← hms, List.length_map] at hlength
      omega
    have hdecides : (∀ c ∈ cs, c.closedByCancellation = true → Outranked planOrder db cs rest c) ↔
        ∀ m ∈ ms, m.completion.closedByCancellation = true →
          CancelledWave.OutrankedIn ms rest planOrder m := by
      rw [← hms]
      constructor
      · exact fun hout m hm hclosed => (hwave.outranked_iff htwo hm).mp
          (hout m.completion (List.mem_map_of_mem hm) hclosed)
      · intro hout c hc hclosed
        obtain ⟨m, hm, rfl⟩ := List.mem_map.mp hc
        exact (hwave.outranked_iff htwo hm).mpr (hout m hm hclosed)
    rw [hdecides, ← hwave.settles_iff _ worker token now hlineage htwo]
    simp only [hactive, Bool.true_eq_false, hlength, hvalid, false_or]
    constructor
    · rintro ⟨settled, halike⟩
      exact ⟨settled, fun ms' hp => halike _ (hms ▸ hp.map _)⟩
    · rintro ⟨settled, halike⟩
      refine ⟨settled, fun cs' hp => ?_⟩
      obtain ⟨ms', hp', rfl⟩ := hperm cs' hp
      exact halike ms' hp'

end Order

/-- A wave settles to one settlement, and the cause that it stops by comes first in one order of all
causes. -/
structure OrderFree (env : RuntimeEnv) (worker : String) (token : UUID) (planOrder : List String)
    (now : Time) (db : Db) (cs : List Completion) (rest : List (UUID × ToolRunOutcome)) : Prop where
  settles : SettlesAlike env worker token planOrder now db cs rest
  picks : ∀ causes stop, pickStopCause causes = some stop →
    stop ∈ causes ∧ ∀ cause ∈ causes, stop.rank ≤ cause.rank

/-- The Step of a TOOL whose call is in flight. -/
def callStep (id : UUID) (ps : ExecutionPlanStep)
    (h : (toolVersionForTemplate ps).isSome = true ↔ ps.type = .tool) : ExecutionStep :=
  { plannedStep id ps h with status := .running, attemptCount := 1, startedAt := some 5 }

/-- Its Attempt. -/
def callAttempt (id stepId : UUID) : StepAttempt where
  id := id
  stepExecutionId := stepId
  attemptNo := 1
  status := .started
  workerId := some "worker"
  leaseExpiresAt := some 100
  errorCode := none
  isRetryable := none
  resultInline := none
  startedAt := 5
  finishedAt := none

/-- Its STARTED ToolCall. -/
def startedCall (id attemptId : UUID) : ToolCall where
  id := id
  stepAttemptId := attemptId
  mcpServerId := .ofNat 7
  mcpToolVersionId := .ofNat 4
  remoteRequestId := "call"
  mrtrInputRequestId := none
  normalizedStatus := .started
  startedAt := 5
  finishedAt := none

/-- The prepared call behind it, of a parallel wave. -/
def preparedCall (stepId attemptId toolCallId : UUID) : PreparedCall where
  stepId := stepId
  attemptId := attemptId
  toolCallId := toolCallId
  remoteRequestId := "call"
  mcpServerId := .ofNat 7
  mcpToolVersionId := .ofNat 4
  riskClass := .readOnly
  workerId := "worker"
  leaseToken := .ofNat 6
  deferExecutionTerminalization := true
  forbidExecutionWait := true
  mrtrInputRequestId := none
  mrtrInputResponses := none
  mrtrRequestState := none

/-- A plan of two TOOLs that run side by side. -/
def twoCallPlan : ExecutionPlanV1 where
  limits := .ofNat 5 2 50
  steps :=
    [rootPlanStep "load" .tool (.tool (.ofNat 4) []) nonBlank_load,
      rootPlanStep "poll" .tool (.tool (.ofNat 4) []) nonBlank_poll]

theorem pinned_load :
    (toolVersionForTemplate
      (rootPlanStep "load" .tool (.tool (.ofNat 4) []) nonBlank_load)).isSome = true ↔
      (rootPlanStep "load" .tool (.tool (.ofNat 4) []) nonBlank_load).type = .tool := by
  decide

theorem pinned_poll :
    (toolVersionForTemplate
      (rootPlanStep "poll" .tool (.tool (.ofNat 4) []) nonBlank_poll)).isSome = true ↔
      (rootPlanStep "poll" .tool (.tool (.ofNat 4) []) nonBlank_poll).type = .tool := by
  decide

/-- Both calls are in flight, with a cancellation requested or not. -/
def twoCallDb (cancelled : Bool) : Db where
  execution :=
    { queuedExecution twoCallPlan with
      status := if cancelled then .cancelRequested else .running
      cancelRequestedAt := if cancelled then some 8 else none
      workerId := some "worker"
      leaseToken := some (.ofNat 6)
      leaseExpiresAt := some 100 }
  steps := ⟨[callStep (.ofNat 10)
      (rootPlanStep "load" .tool (.tool (.ofNat 4) []) nonBlank_load) pinned_load,
    callStep (.ofNat 11)
      (rootPlanStep "poll" .tool (.tool (.ofNat 4) []) nonBlank_poll) pinned_poll], by decide⟩
  attempts := ⟨[callAttempt (.ofNat 20) (.ofNat 10),
    callAttempt (.ofNat 21) (.ofNat 11)], by decide⟩
  toolCalls := ⟨[startedCall (.ofNat 30) (.ofNat 20),
    startedCall (.ofNat 31) (.ofNat 21)], by decide⟩
  approvals := .empty
  inputRequests := .empty

/-- `load` asked for input. -/
def loadAsks : Completion where
  call := preparedCall (.ofNat 10) (.ofNat 20) (.ofNat 30)
  memberEnd := .inputRequired ⟨[("city", .str "which")], .str "s", false⟩ (.ofNat 40)
  now := 10

/-- `poll` returned its result. -/
def pollSucceeds : Completion where
  call := preparedCall (.ofNat 11) (.ofNat 21) (.ofNat 31)
  memberEnd := .finalized (.ok ⟨none, none, false, none⟩) (.result (.ok .null))
  now := 11

theorem loadAsks_inFlight (cancelled : Bool) : ∃ step attempt toolCall,
    loadAsks.InFlight (twoCallDb cancelled) step attempt toolCall := by
  cases cancelled <;>
    exact ⟨_, _, _, rfl, by decide, rfl, rfl, _, _, rfl, by decide⟩

theorem pollSucceeds_inFlight (cancelled : Bool) : ∃ step attempt toolCall,
    pollSucceeds.InFlight (twoCallDb cancelled) step attempt toolCall := by
  cases cancelled <;>
    exact ⟨_, _, _, rfl, by decide, rfl, rfl, _, _, rfl, by decide⟩

/-- The two calls are a wave in flight. -/
theorem waveInFlight_twoCall (cancelled : Bool) :
    WaveInFlight (twoCallDb cancelled) [loadAsks, pollSucceeds] [] where
  members := by
    simp only [List.forall_mem_cons, List.not_mem_nil, false_implies, implies_true, and_true]
    exact ⟨loadAsks_inFlight cancelled, pollSucceeds_inFlight cancelled⟩
  stepIds := by decide
  requestIds := by decide
  fresh := fun _ _ _ _ _ hr => absurd hr List.not_mem_nil
  calls := fun t ht _ => by
    rcases List.mem_cons.mp ht with rfl | ht
    · exact ⟨loadAsks, List.mem_cons_self, rfl⟩
    · rw [List.mem_singleton.mp ht]
      exact ⟨pollSucceeds, List.mem_cons_of_mem _ List.mem_cons_self, rfl⟩
  cancelRequested := by cases cancelled <;> decide
  cleaned := fun _ s hs => by
    refine .inr ?_
    rcases List.mem_cons.mp hs with rfl | hs
    · exact ⟨loadAsks, List.mem_cons_self, rfl⟩
    · rw [List.mem_singleton.mp hs]
      exact ⟨pollSucceeds, List.mem_cons_of_mem _ List.mem_cons_self, rfl⟩
  unknown := fun s hs hunknown => by
    rcases List.mem_cons.mp hs with rfl | hs
    · cases hunknown
    · rw [List.mem_singleton.mp hs] at hunknown
      cases hunknown

theorem loopEnv_blind (gate : Bool) : (loopEnv gate).Blind where
  evaluate := fun _ _ _ _ => rfl
  resolveForeachCollection := fun _ _ _ => rfl
  whileEvidenceHash := fun _ _ _ _ => rfl

end McpFlow
