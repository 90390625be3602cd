import McpFlow.Execution.StopOrder
import McpFlow.Execution.WaveMembers

/-!
# The order in which a wave returns

The members of a wave close rows of their own, so the rows that all of them leave are the same in
every order of their ends. Without a requested cancellation their outcomes are the same too, and the
wave settles alike. Under a cancellation the last member reconciles it, and a member that the
cancellation closes reports a failure when others are still in flight, and a success when it is the
last: its stop cause depends on the order.
-/

namespace McpFlow

/-! ### The members as a family -/

/-- A member of a wave with all that its end does to `db`. -/
structure WaveMember (db : Db) where
  completion : Completion
  step : ExecutionStep
  attempt : StepAttempt
  toolCall : ToolCall
  closing : Closing
  waits : Bool
  outcome : ExecutionStatus → ToolRunOutcome
  inFlight : completion.InFlight db step attempt toolCall
  closes : closing.Of step attempt toolCall
  ends : completion.Ends db closing waits outcome

namespace WaveMember

variable {db : Db}

/-- Its Step. -/
def stepId (m : WaveMember db) : UUID := m.completion.call.stepId

/-- The MCPInputRequest that it may insert. -/
def requestId? (m : WaveMember db) : Option UUID := m.completion.requestId?

/-- Its result while another member is in flight. -/
def early (m : WaveMember db) : UUID × ToolRunOutcome := (m.stepId, m.outcome .cancelRequested)

/-- The end of a member over the rows that it has written. -/
def finish (m : WaveMember db) (db₃ : Db) : Tx ToolRunOutcome :=
  if m.waits then
    (reconcileCancelRequested m.completion.now db₃).map fun result =>
      (m.outcome result.1.status, result.2)
  else .ok (m.outcome .cancelRequested, db₃)

variable (m : WaveMember db)

theorem find?_step : db.steps.find? m.stepId = some m.step :=
  (finalizeFence_some m.inFlight.fence).2.1

theorem find?_attempt : db.attempts.find? m.completion.call.attemptId = some m.attempt :=
  (finalizeFence_some m.inFlight.fence).2.2.1

theorem find?_toolCall : db.toolCalls.find? m.completion.call.toolCallId = some m.toolCall :=
  (finalizeFence_some m.inFlight.fence).2.2.2.1

theorem attempt_stepExecutionId : m.attempt.stepExecutionId = m.stepId :=
  (finalizeFence_some m.inFlight.fence).2.2.2.2.1.trans (Table.key_of_find? m.find?_step)

theorem toolCall_stepAttemptId : m.toolCall.stepAttemptId = m.completion.call.attemptId :=
  (finalizeFence_some m.inFlight.fence).2.2.2.2.2.trans (Table.key_of_find? m.find?_attempt)

theorem closing_stepId : m.closing.step.id = m.stepId :=
  m.closes.sameStep.id.trans (Table.key_of_find? m.find?_step)

theorem closing_attemptId : m.closing.attempt.id = m.completion.call.attemptId :=
  m.closes.attemptId.trans (Table.key_of_find? m.find?_attempt)

theorem closing_toolCallId : m.closing.toolCall.id = m.completion.call.toolCallId :=
  m.closes.toolCallId.trans (Table.key_of_find? m.find?_toolCall)

theorem closing_stepAttemptId : m.closing.toolCall.stepAttemptId = m.completion.call.attemptId :=
  m.closes.owner.trans m.toolCall_stepAttemptId

variable {m} {m' : WaveMember db}

/-- Members of two Steps have two Attempts and two calls. -/
theorem attemptId_ne (h : m.stepId ≠ m'.stepId) :
    m.completion.call.attemptId ≠ m'.completion.call.attemptId := by
  intro heq
  have hattempt := m.find?_attempt
  rw [heq, m'.find?_attempt] at hattempt
  refine h ?_
  rw [← m.attempt_stepExecutionId, ← m'.attempt_stepExecutionId, Option.some.inj hattempt]

theorem toolCallId_ne (h : m.stepId ≠ m'.stepId) :
    m.completion.call.toolCallId ≠ m'.completion.call.toolCallId := by
  intro heq
  have hcall := m.find?_toolCall
  rw [heq, m'.find?_toolCall] at hcall
  refine attemptId_ne h ?_
  rw [← m.toolCall_stepAttemptId, ← m'.toolCall_stepAttemptId, Option.some.inj hcall]

end WaveMember

/-- The rows after all of them have returned. -/
def closeAll {db : Db} (ms : List (WaveMember db)) (db₂ : Db) : Db :=
  ms.foldl (fun db₂ m => m.closing.apply db₂) db₂

section CloseAll

variable {db db₂ db₃ : Db} {m m' : WaveMember db} {ms ms' : List (WaveMember db)}

theorem closeAll_cons : closeAll (m :: ms) db₂ = closeAll ms (m.closing.apply db₂) := rfl

theorem readable_closeAll : (closeAll ms db₂).readable = closeAll ms db₂.readable := by
  induction ms generalizing db₂ with
  | nil => rfl
  | cons m ms ih => exact ih

theorem execution_closeAll : (closeAll ms db₂).execution = db₂.execution := by
  induction ms generalizing db₂ with
  | nil => rfl
  | cons m ms ih => exact ih

/-- Two members close their rows in either order. -/
theorem Closing.apply_comm (h : m.stepId ≠ m'.stepId) :
    m'.closing.apply (m.closing.apply db₂) = m.closing.apply (m'.closing.apply db₂) := by
  have hstep : m.closing.step.id ≠ m'.closing.step.id := by
    rwa [m.closing_stepId, m'.closing_stepId]
  have hattempt : m.closing.attempt.id ≠ m'.closing.attempt.id := by
    rw [m.closing_attemptId, m'.closing_attemptId]
    exact WaveMember.attemptId_ne h
  have hcall : m.closing.toolCall.id ≠ m'.closing.toolCall.id := by
    rw [m.closing_toolCallId, m'.closing_toolCallId]
    exact WaveMember.toolCallId_ne h
  unfold Closing.apply Db.putStep Db.putAttempt Db.putToolCall
  dsimp only
  rw [Table.put_comm hstep, Table.put_comm hattempt, Table.put_comm hcall]

/-- The order of the members plays no part in the rows that they leave. -/
theorem closeAll_perm (hp : ms'.Perm ms) (hids : (ms.map (·.stepId)).Nodup) :
    closeAll ms' db₂ = closeAll ms db₂ := by
  refine hp.foldl_eq' ?_ db₂
  intro m hm m' hm' db₃
  by_cases h : m.stepId = m'.stepId
  · rw [List.inj_on_of_nodup_map hids (hp.mem_iff.mp hm) (hp.mem_iff.mp hm') h]
  · exact Closing.apply_comm h

/-- A member does not see what another one has closed. -/
theorem SameMember.apply (h : m.stepId ≠ m'.stepId) (hm : SameMember m.completion db db₂)
    (hm' : SameMember m'.completion db db₂) (hread : db₃.readable = (m.closing.apply db₂).readable)
    (hrequests : ∀ r ∈ db₃.inputRequests,
      r ∈ db₂.inputRequests ∨ m.completion.requestId? = some r.id)
    (hfresh : ∀ requestId, m'.completion.requestId? = some requestId →
      m.completion.requestId? ≠ some requestId) :
    SameMember m'.completion db db₃ := by
  have hdb := Db.eq_setUnread_of_readable_eq hread
  have hsteps : db₃.steps = db₂.steps.put m.closing.step := congrArg Db.steps hdb
  have hattempts : db₃.attempts = db₂.attempts.put m.closing.attempt := congrArg Db.attempts hdb
  have hcalls : db₃.toolCalls = db₂.toolCalls.put m.closing.toolCall := congrArg Db.toolCalls hdb
  exact {
    execution := by
      obtain ⟨heartbeatAt, hexecution⟩ := hm.execution
      refine ⟨db₃.execution.heartbeatAt, (congrArg Db.execution hdb).trans ?_⟩
      change { db₂.execution with heartbeatAt := db₃.execution.heartbeatAt } = _
      rw [hexecution]
    step := by
      rw [hsteps, Table.find?_put_of_ne, hm'.step]
      rw [m.closing_stepId]
      exact h.symm
    attempt := by
      rw [hattempts, Table.find?_put_of_ne, hm'.attempt]
      rw [m.closing_attemptId]
      exact (WaveMember.attemptId_ne h).symm
    toolCall := by
      rw [hcalls, Table.find?_put_of_ne, hm'.toolCall]
      rw [m.closing_toolCallId]
      exact (WaveMember.toolCallId_ne h).symm
    calls := by
      rw [← hm'.calls]
      unfold Db.listToolCalls
      rw [hcalls]
      refine Table.filter_put_of_not ?_ fun t ht hkey => ?_
      · rw [m.closing_stepAttemptId]
        exact decide_eq_false (WaveMember.attemptId_ne h)
      · have hfound := Table.find?_key_of_mem ht
        rw [hkey, m.closing_toolCallId, hm.toolCall, m.find?_toolCall] at hfound
        rw [← Option.some.inj hfound, m.toolCall_stepAttemptId]
        exact decide_eq_false (WaveMember.attemptId_ne h)
    fresh := fun requestId hid r hr heq => by
      rcases hrequests r hr with hold | hnew
      · exact hm'.fresh requestId hid r hold heq
      · exact hfresh requestId hid (heq ▸ hnew) }

theorem find?_closeAll_of_ne {stepId : UUID} (h : ∀ m ∈ ms, m.stepId ≠ stepId) :
    (closeAll ms db₂).steps.find? stepId = db₂.steps.find? stepId := by
  induction ms generalizing db₂ with
  | nil => rfl
  | cons m ms ih =>
    rw [closeAll_cons, ih fun m' hm' => h m' (List.mem_cons_of_mem m hm')]
    refine Table.find?_put_of_ne ?_
    rw [m.closing_stepId]
    exact (h m List.mem_cons_self).symm

/-- The Step of a member after all of them have returned. -/
theorem find?_closeAll (hids : (ms.map (·.stepId)).Nodup) (hm : m ∈ ms) {s : ExecutionStep}
    (hs : db₂.steps.find? m.stepId = some s) :
    (closeAll ms db₂).steps.find? m.stepId = some m.closing.step := by
  induction ms generalizing db₂ s with
  | nil => cases hm
  | cons m₁ ms ih =>
    obtain ⟨hhead, htail⟩ := List.nodup_cons.mp hids
    rw [closeAll_cons]
    rcases List.mem_cons.mp hm with rfl | hm
    · rw [find?_closeAll_of_ne fun m' hm' heq => hhead (List.mem_map.mpr ⟨m', hm', heq⟩)]
      refine Table.find?_put_of_find? hs ?_
      rw [m.closing_stepId, Table.key_of_find? hs]
    · refine ih htail hm (Table.find?_put_of_ne ?_ |>.trans hs)
      rw [m₁.closing_stepId]
      exact fun heq => hhead (List.mem_map.mpr ⟨m, hm, heq⟩)

/-- A Step of a settled wave is one of a member, or has not changed. -/
theorem mem_steps_closeAll {s : ExecutionStep} (hs : s ∈ (closeAll ms db₂).steps) :
    (∃ m ∈ ms, s = m.closing.step) ∨ (s ∈ db₂.steps ∧ ∀ m ∈ ms, m.stepId ≠ s.id) := by
  induction ms generalizing db₂ with
  | nil => exact .inr ⟨hs, fun m hm => nomatch hm⟩
  | cons m ms ih =>
    rcases ih hs with ⟨m', hm', rfl⟩ | ⟨hs, hne⟩
    · exact .inl ⟨m', List.mem_cons_of_mem m hm', rfl⟩
    · rcases Table.mem_put hs with rfl | ⟨hs, hid⟩
      · exact .inl ⟨m, List.mem_cons_self, rfl⟩
      · refine .inr ⟨hs, fun m' hm' => ?_⟩
        rcases List.mem_cons.mp hm' with rfl | hm'
        · rw [← m'.closing_stepId]
          exact Ne.symm hid
        · exact hne m' hm'

theorem mem_toolCalls_closeAll {t : ToolCall} (ht : t ∈ (closeAll ms db₂).toolCalls) :
    (∃ m ∈ ms, t = m.closing.toolCall) ∨
      (t ∈ db₂.toolCalls ∧ ∀ m ∈ ms, m.completion.call.toolCallId ≠ t.id) := by
  induction ms generalizing db₂ with
  | nil => exact .inr ⟨ht, fun m hm => nomatch hm⟩
  | cons m ms ih =>
    rcases ih ht with ⟨m', hm', rfl⟩ | ⟨ht, hne⟩
    · exact .inl ⟨m', List.mem_cons_of_mem m hm', rfl⟩
    · rcases Table.mem_put ht with rfl | ⟨ht, hid⟩
      · exact .inl ⟨m, List.mem_cons_self, rfl⟩
      · refine .inr ⟨ht, fun m' hm' => ?_⟩
        rcases List.mem_cons.mp hm' with rfl | hm'
        · rw [← m'.closing_toolCallId]
          exact Ne.symm hid
        · exact hne m' hm'

end CloseAll

/-! ### Runs of the members -/

section Runs

variable {db db₂ : Db}

/-- Members of one wave: their Steps and the ids of their MCPInputRequests differ. -/
structure Distinct (ms : List (WaveMember db)) : Prop where
  stepIds : (ms.map (·.stepId)).Nodup
  requestIds : (ms.filterMap WaveMember.requestId?).Nodup

theorem Distinct.tail {m : WaveMember db} {ms : List (WaveMember db)} (h : Distinct (m :: ms)) :
    Distinct ms where
  stepIds := (List.nodup_cons.mp h.stepIds).2
  requestIds := by
    have hids := h.requestIds
    rw [List.filterMap_cons] at hids
    split at hids
    · exact hids
    · exact (List.nodup_cons.mp hids).2

theorem Distinct.perm {ms ms' : List (WaveMember db)} (h : Distinct ms) (hp : ms'.Perm ms) :
    Distinct ms' where
  stepIds := (hp.map _).nodup_iff.mpr h.stepIds
  requestIds := (hp.filterMap _).nodup_iff.mpr h.requestIds

theorem Distinct.head_stepId {m m' : WaveMember db} {ms : List (WaveMember db)}
    (h : Distinct (m :: ms)) (hm' : m' ∈ ms) : m.stepId ≠ m'.stepId := fun heq =>
  (List.nodup_cons.mp h.stepIds).1 (List.mem_map.mpr ⟨m', hm', heq.symm⟩)

theorem Distinct.head_requestId {m m' : WaveMember db} {ms : List (WaveMember db)}
    (h : Distinct (m :: ms)) (hm' : m' ∈ ms) {requestId : UUID}
    (hid : m'.requestId? = some requestId) : m.requestId? ≠ some requestId := by
  intro heq
  have hids := h.requestIds
  rw [List.filterMap_cons_some heq] at hids
  exact (List.nodup_cons.mp hids).1 (List.mem_filterMap.mpr ⟨m', hm', hid⟩)

/-- While a call is in flight the reconcile of a requested cancellation changes nothing. -/
theorem reconcileCancelRequested_inFlight {now : Time} {t : ToolCall}
    (hstatus : db.execution.status = .cancelRequested) (ht : t ∈ db.toolCalls)
    (hstarted : t.normalizedStatus = .started) :
    reconcileCancelRequested now db = .ok (cancellationOutcome db.execution .requested, db) := by
  have hcalls : db.listStartedToolCalls ≠ [] :=
    List.ne_nil_of_mem (List.mem_filter.mpr ⟨ht, decide_eq_true hstarted⟩)
  unfold reconcileCancelRequested
  rw [if_neg (by rw [hstatus]; simp), if_neg (by rw [hstatus]; simp), if_pos hcalls]

/-- One member returns while another one is in flight. -/
theorem WaveMember.run_early {m m' : WaveMember db}
    (hcancel : db.execution.cancellationIsRequested = true →
      db.execution.status = .cancelRequested)
    (h : m.stepId ≠ m'.stepId) (hm : SameMember m.completion db db₂)
    (hm' : SameMember m'.completion db db₂) :
    ∃ db₃, m.completion.run db₂ = .ok (m.outcome .cancelRequested, db₃) ∧
      db₃.readable = (m.closing.apply db₂).readable ∧
      ∀ r ∈ db₃.inputRequests, r ∈ db₂.inputRequests ∨ m.completion.requestId? = some r.id := by
  obtain ⟨db₃, hread, hrequests, hrun⟩ := m.ends.run db₂ hm
  refine ⟨db₃, ?_, hread, hrequests⟩
  rw [hrun]
  by_cases hwaits : m.waits = true
  · have hdb := Db.eq_setUnread_of_readable_eq hread
    have hstatus : db₃.execution.status = .cancelRequested :=
      (congrArg (fun db => db.execution.status) hdb).trans
        (hm.status.trans (hcancel (m.ends.cancels hwaits)))
    have hcall : m'.toolCall ∈ db₃.toolCalls := by
      have hcalls : db₃.toolCalls = db₂.toolCalls.put m.closing.toolCall :=
        congrArg Db.toolCalls hdb
      rw [hcalls]
      refine Table.mem_of_find? (k := m'.completion.call.toolCallId) ?_
      rw [Table.find?_put_of_ne, hm'.toolCall, m'.find?_toolCall]
      rw [m.closing_toolCallId]
      exact (toolCallId_ne h).symm
    rw [if_pos hwaits, reconcileCancelRequested_inFlight hstatus hcall
      (preparedInvocationLineageMatches_started m'.inFlight.lineage).2.2]
    simp only [Except.map, cancellationOutcome, hstatus]
  · rw [if_neg hwaits]

/-- The members return one after another; the last one alone may finish a cancellation. -/
theorem runCompletions_members (hcancel : db.execution.cancellationIsRequested = true →
      db.execution.status = .cancelRequested) {last : WaveMember db}
    {init : List (WaveMember db)} (hdistinct : Distinct (init ++ [last]))
    (hsame : ∀ m ∈ init ++ [last], SameMember m.completion db db₂) :
    ∃ db₃, db₃.readable = (closeAll (init ++ [last]) db₂).readable ∧
      runCompletions ((init ++ [last]).map (·.completion)) db₂ =
        (last.finish db₃).map fun result =>
          (init.map (·.early) ++ [(last.stepId, result.1)], result.2) := by
  induction init generalizing db₂ with
  | nil =>
    obtain ⟨db₃, hread, -, hrun⟩ := last.ends.run db₂ (hsame last List.mem_cons_self)
    refine ⟨db₃, hread, ?_⟩
    have hfinish : last.completion.run db₂ = last.finish db₃ := hrun
    rw [List.nil_append, List.map_singleton, runCompletions, hfinish]
    rcases last.finish db₃ with e | ⟨outcome, db'⟩ <;> rfl
  | cons m init ih =>
    have hlast : last ∈ init ++ [last] := List.mem_append_right init List.mem_cons_self
    have hm := hsame m List.mem_cons_self
    obtain ⟨db₃, hrun, hread, hrequests⟩ := WaveMember.run_early hcancel
      (hdistinct.head_stepId hlast) hm (hsame last (List.mem_cons_of_mem m hlast))
    obtain ⟨db₄, hread₄, hrun₄⟩ := ih hdistinct.tail fun m' hm' =>
      SameMember.apply (hdistinct.head_stepId hm') hm (hsame m' (List.mem_cons_of_mem m hm')) hread
        hrequests fun _ hid => hdistinct.head_requestId hm' hid
    refine ⟨db₄, ?_, ?_⟩
    · rw [hread₄, readable_closeAll, hread, ← readable_closeAll]
      rfl
    · rw [List.cons_append, List.map_cons, runCompletions, hrun]
      dsimp only
      rw [hrun₄]
      rcases last.finish db₄ with e | ⟨outcome, db'⟩ <;> rfl

/-- Without a requested cancellation every member ends for itself. -/
theorem runCompletions_running (hcancel : db.execution.cancellationIsRequested = false)
    {ms : List (WaveMember db)} (hdistinct : Distinct ms)
    (hsame : ∀ m ∈ ms, SameMember m.completion db db₂) :
    ∃ db', db'.readable = (closeAll ms db₂).readable ∧
      runCompletions (ms.map (·.completion)) db₂ = .ok (ms.map (·.early), db') := by
  have hnone : db.execution.cancellationIsRequested = true →
      db.execution.status = .cancelRequested := by
    rw [hcancel]
    exact fun h => nomatch h
  rcases List.eq_nil_or_concat ms with rfl | ⟨init, last, rfl⟩
  · exact ⟨db₂, rfl, rfl⟩
  · rw [List.concat_eq_append] at hdistinct hsame ⊢
    obtain ⟨db₃, hread, hrun⟩ := runCompletions_members hnone hdistinct hsame
    have hwaits : last.waits ≠ true := fun hw => by
      have hactive := last.ends.cancels hw
      rw [hcancel] at hactive
      cases hactive
    refine ⟨db₃, hread, ?_⟩
    rw [hrun, WaveMember.finish, if_neg hwaits]
    simp only [Except.map, List.map_append, List.map_singleton]
    rfl

end Runs

end McpFlow
