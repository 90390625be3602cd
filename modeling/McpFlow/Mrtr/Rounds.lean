import Mathlib.Data.List.Range
import McpFlow.Execution.Evolution

/-!
# The rounds of an Attempt

The ToolCalls and MCPInputRequests of one Attempt alternate: a call that asks for input is followed
by its request, an answered request by the call that carries the answer. `Rounds` states this for
the two lists in insertion order. It survives in-place changes, the next call, and the request of a
completed call. `Static` states it for every Attempt of a single-Step Execution.
-/

namespace McpFlow.Mrtr

/-- The requests of an Attempt. -/
def requestsOf (db : Db) (attemptId : UUID) : List McpInputRequest :=
  db.inputRequests.rows.filter (·.stepAttemptId = attemptId)

theorem mem_requestsOf {db : Db} {attemptId : UUID} {r : McpInputRequest} :
    r ∈ requestsOf db attemptId ↔ r ∈ db.inputRequests ∧ r.stepAttemptId = attemptId := by
  simp [requestsOf, Table.mem_def]

theorem mem_listToolCalls {db : Db} {attemptId : UUID} {c : ToolCall} :
    c ∈ db.listToolCalls attemptId ↔ c ∈ db.toolCalls ∧ c.stepAttemptId = attemptId := by
  simp [Db.listToolCalls, Table.mem_def]

/-- Calls and requests of one Attempt, in order. -/
structure Rounds (calls : List ToolCall) (reqs : List McpInputRequest) : Prop where
  /-- The first call carries no answer, each later one that of the request before it. -/
  carries : calls.map (·.mrtrInputRequestId) =
    (none :: reqs.map fun r => some r.id).take calls.length
  roundNo : reqs.map (·.roundNo) = List.range' 1 reqs.length
  le : reqs.length ≤ calls.length
  le_succ : calls.length ≤ reqs.length + 1
  /-- A call with a request is complete. -/
  succeeded : ∀ c ∈ calls.take reqs.length, c.normalizedStatus = .succeeded
  /-- A request with a next call is answered. -/
  answered : ∀ r ∈ reqs.take (calls.length - 1), r.status = .answered

namespace Rounds

variable {calls : List ToolCall} {reqs : List McpInputRequest}

theorem nil : Rounds [] [] :=
  ⟨rfl, rfl, le_rfl, by simp, by simp, by simp⟩

theorem map (h : Rounds calls reqs) {f : ToolCall → ToolCall}
    {g : McpInputRequest → McpInputRequest} (hf : ∀ c ∈ calls, ToolCallEvolves c (f c))
    (hg : ∀ r ∈ reqs, InputRequestEvolves r (g r)) : Rounds (calls.map f) (reqs.map g) where
  carries := by
    have hcalls : (calls.map f).map (·.mrtrInputRequestId) = calls.map (·.mrtrInputRequestId) := by
      rw [List.map_map]
      exact List.map_congr_left fun c hc => (hf c hc).mrtrInputRequestId
    have hreqs : (reqs.map g).map (fun r => some r.id) = reqs.map fun r => some r.id := by
      rw [List.map_map]
      exact List.map_congr_left fun r hr => congrArg some (hg r hr).id
    rw [hcalls, hreqs, List.length_map]
    exact h.carries
  roundNo := by
    rw [List.map_map, List.length_map, ← h.roundNo]
    exact List.map_congr_left fun r hr => (hg r hr).roundNo
  le := by simpa using h.le
  le_succ := by simpa using h.le_succ
  succeeded := by
    intro c hc
    rw [List.length_map, ← List.map_take] at hc
    obtain ⟨c', hc', rfl⟩ := List.mem_map.mp hc
    exact (hf c' (List.mem_of_mem_take hc')).succeeded (h.succeeded c' hc')
  answered := by
    intro r hr
    rw [List.length_map, ← List.map_take] at hr
    obtain ⟨r', hr', rfl⟩ := List.mem_map.mp hr
    rw [(hg r' (List.mem_of_mem_take hr')).answered (h.answered r' hr')]
    exact h.answered r' hr'

/-- The next call follows when every request is answered; it carries the last answer. -/
theorem call (h : Rounds calls reqs) (hlen : calls.length = reqs.length)
    (hans : ∀ r ∈ reqs, r.status = .answered) {c : ToolCall}
    (hc : c.mrtrInputRequestId = reqs.getLast?.map (·.id)) : Rounds (calls ++ [c]) reqs where
  carries := by
    rw [List.map_append, h.carries, List.length_append, List.map_singleton, List.length_singleton,
      hlen, hc]
    rcases reqs.eq_nil_or_concat with rfl | ⟨rs, r, rfl⟩
    · rfl
    · simp [List.take_of_length_le]
  roundNo := h.roundNo
  le := by
    rw [List.length_append]
    exact Nat.le_add_right_of_le h.le
  le_succ := by rw [List.length_append, List.length_singleton, hlen]
  succeeded := by
    rw [List.take_append_of_le_length hlen.ge]
    exact h.succeeded
  answered r hr := hans r (List.mem_of_mem_take hr)

/-- The next request follows a completed call. -/
theorem request (h : Rounds calls reqs) (hlen : calls.length = reqs.length + 1)
    (hcalls : ∀ c ∈ calls, c.normalizedStatus = .succeeded) {r : McpInputRequest}
    (hr : r.roundNo = reqs.length + 1) : Rounds calls (reqs ++ [r]) where
  carries := by
    rw [h.carries, hlen, List.map_append, ← List.cons_append, List.take_append_of_le_length]
    simp
  roundNo := by
    rw [List.map_append, h.roundNo, List.length_append, List.length_singleton, List.map_singleton,
      hr, List.range'_concat, Nat.one_mul, Nat.add_comm 1]
  le := by rw [List.length_append, List.length_singleton, hlen]
  le_succ := by
    rw [List.length_append, hlen]
    exact Nat.le_succ _
  succeeded c hc := hcalls c (List.mem_of_mem_take hc)
  answered := by
    rw [hlen, Nat.add_sub_cancel, List.take_append_of_le_length le_rfl]
    intro q hq
    refine h.answered q ?_
    rwa [hlen, Nat.add_sub_cancel]

/-- All calls of a closed round are complete. -/
theorem all_succeeded (h : Rounds calls reqs) (hlen : calls.length = reqs.length) :
    ∀ c ∈ calls, c.normalizedStatus = .succeeded := by
  intro c hc
  refine h.succeeded c ?_
  rwa [List.take_of_length_le hlen.le]

/-- A call that is not complete is the last, and has no request. -/
theorem eq_append_of_not_succeeded (h : Rounds calls reqs) {c : ToolCall} (hc : c ∈ calls)
    (hne : c.normalizedStatus ≠ .succeeded) :
    calls.length = reqs.length + 1 ∧ calls = calls.take reqs.length ++ [c] := by
  have hlen : calls.length = reqs.length + 1 := by
    refine le_antisymm h.le_succ (Nat.succ_le_of_lt (lt_of_le_of_ne h.le fun heq => ?_))
    exact hne (h.all_succeeded heq.symm c hc)
  refine ⟨hlen, ?_⟩
  obtain ⟨last, hlast⟩ := List.length_eq_one_iff.mp
    (show (calls.drop reqs.length).length = 1 by rw [List.length_drop, hlen]; omega)
  have hsplit : calls = calls.take reqs.length ++ [last] := by
    rw [← hlast, List.take_append_drop]
  rw [hsplit] at hc
  rcases List.mem_append.mp hc with hc | hc
  · exact absurd (h.succeeded c hc) hne
  · rwa [List.mem_singleton.mp hc]

/-- A request of a round below the number of calls has a next call. -/
theorem roundNo_mem (h : Rounds calls reqs) {r : McpInputRequest} (hr : r ∈ reqs) :
    1 ≤ r.roundNo ∧ r.roundNo ≤ reqs.length := by
  have hmem : r.roundNo ∈ reqs.map (·.roundNo) := List.mem_map_of_mem hr
  rw [h.roundNo, List.mem_range'_1] at hmem
  omega

/-- The request of round `k` is followed by a call as soon as there are more than `k` calls. -/
theorem exists_call (h : Rounds calls reqs) {r : McpInputRequest} (hr : r ∈ reqs)
    (hlt : r.roundNo < calls.length) :
    ∃ i, ∃ hi : i < calls.length, i = r.roundNo ∧ calls[i].mrtrInputRequestId = some r.id := by
  obtain ⟨k, hk, rfl⟩ := List.getElem_of_mem hr
  have hround : reqs[k].roundNo = k + 1 := by
    have hget : (reqs.map (·.roundNo))[k]? = some reqs[k].roundNo := by simp [hk]
    rw [h.roundNo, List.getElem?_range' hk] at hget
    injection hget with hget
    omega
  rw [hround] at hlt
  refine ⟨k + 1, hlt, hround.symm, ?_⟩
  have hget : (calls.map (·.mrtrInputRequestId))[k + 1]? =
      some calls[k + 1].mrtrInputRequestId := by simp [hlt]
  rw [h.carries, List.getElem?_take_of_lt hlt, List.getElem?_cons_succ] at hget
  simpa [hk] using hget.symm

end Rounds

/-! ### Rounds of a single-Step Execution -/

/-- The facts about the rows of a single-Step Execution that no in-place change breaks. -/
structure Static (stepId : UUID) (db : Db) : Prop where
  step : ∃ step, db.steps.rows = [step] ∧ step.id = stepId
  attemptStep : ∀ a ∈ db.attempts, a.stepExecutionId = stepId
  callAttempt : ∀ c ∈ db.toolCalls, ∃ a ∈ db.attempts, a.id = c.stepAttemptId
  request : ∀ r ∈ db.inputRequests, r.executionId = db.execution.id ∧
    r.stepExecutionId = stepId ∧ ∃ a ∈ db.attempts, a.id = r.stepAttemptId
  rounds : ∀ a ∈ db.attempts, Rounds (db.listToolCalls a.id) (requestsOf db a.id)
  oneStarted : ∀ a ∈ db.attempts, ∀ b ∈ db.attempts,
    a.status = .started → b.status = .started → a = b
  payload : ∀ r ∈ db.inputRequests, r.status = .answered → r.responsePayload.getD [] ≠ []

/-- Calls of an Attempt after an in-place change. -/
theorem listToolCalls_of_evolves {db db' : Db} (h : db.Evolves db') :
    ∃ f, (∀ c ∈ db.toolCalls, ToolCallEvolves c (f c)) ∧
      ∀ attemptId, db'.listToolCalls attemptId = (db.listToolCalls attemptId).map f := by
  obtain ⟨f, hf, hrel⟩ := h.toolCalls
  refine ⟨f, hrel, fun attemptId => ?_⟩
  rw [Db.listToolCalls, hf]
  exact List.filter_map_of_forall fun c hc => by rw [(hrel c hc).stepAttemptId]

/-- Requests of an Attempt after an in-place change. -/
theorem requestsOf_of_evolves {db db' : Db} (h : db.Evolves db') :
    ∃ g, (∀ r ∈ db.inputRequests, InputRequestEvolves r (g r)) ∧
      ∀ attemptId, requestsOf db' attemptId = (requestsOf db attemptId).map g := by
  obtain ⟨g, hg, hrel⟩ := h.inputRequests
  refine ⟨g, hrel, fun attemptId => ?_⟩
  rw [requestsOf, hg]
  exact List.filter_map_of_forall fun r hr => by rw [(hrel r hr).stepAttemptId]

theorem length_listToolCalls_of_evolves {db db' : Db} (h : db.Evolves db') (attemptId : UUID) :
    (db'.listToolCalls attemptId).length = (db.listToolCalls attemptId).length := by
  obtain ⟨f, -, hf⟩ := listToolCalls_of_evolves h
  rw [hf, List.length_map]

theorem length_requestsOf_of_evolves {db db' : Db} (h : db.Evolves db') (attemptId : UUID) :
    (requestsOf db' attemptId).length = (requestsOf db attemptId).length := by
  obtain ⟨g, -, hg⟩ := requestsOf_of_evolves h
  rw [hg, List.length_map]

namespace Static

variable {stepId : UUID} {db db' : Db}

theorem evolves (h : Static stepId db) (hev : db.Evolves db') : Static stepId db' where
  step := by
    obtain ⟨step, hstep, hid⟩ := h.step
    obtain ⟨f, hf, hrel⟩ := hev.steps
    have hmem : step ∈ db.steps := by
      rw [Table.mem_def, hstep]
      exact List.mem_singleton_self _
    refine ⟨f step, ?_, Eq.trans (hrel step hmem) hid⟩
    rw [hf, hstep, List.map_singleton]
  attemptStep a' ha' := by
    obtain ⟨a, ha, hrel⟩ := hev.attempts.exists_of_mem ha'
    exact hrel.stepExecutionId.trans (h.attemptStep a ha)
  callAttempt c' hc' := by
    obtain ⟨c, hc, hrel⟩ := hev.toolCalls.exists_of_mem hc'
    obtain ⟨a, ha, hid⟩ := h.callAttempt c hc
    obtain ⟨a', ha', harel⟩ := hev.attempts.exists_mem ha
    exact ⟨a', ha', by rw [harel.id, hid, hrel.stepAttemptId]⟩
  request r' hr' := by
    obtain ⟨r, hr, hrel⟩ := hev.inputRequests.exists_of_mem hr'
    obtain ⟨hexec, hstep, a, ha, hid⟩ := h.request r hr
    obtain ⟨a', ha', harel⟩ := hev.attempts.exists_mem ha
    refine ⟨?_, hrel.stepExecutionId.trans hstep, a', ha', ?_⟩
    · rw [hrel.executionId, hexec, hev.executionId]
    · rw [harel.id, hid, hrel.stepAttemptId]
  rounds a' ha' := by
    obtain ⟨a, ha, hrel⟩ := hev.attempts.exists_of_mem ha'
    obtain ⟨f, hf, hcalls⟩ := listToolCalls_of_evolves hev
    obtain ⟨g, hg, hreqs⟩ := requestsOf_of_evolves hev
    rw [hrel.id, hcalls, hreqs]
    exact (h.rounds a ha).map (fun c hc => hf c (mem_listToolCalls.mp hc).1)
      fun r hr => hg r (mem_requestsOf.mp hr).1
  oneStarted a' ha' b' hb' has hbs := by
    obtain ⟨a, ha, harel⟩ := hev.attempts.exists_of_mem ha'
    obtain ⟨b, hb, hbrel⟩ := hev.attempts.exists_of_mem hb'
    have hab := h.oneStarted a ha b hb (harel.started has) (hbrel.started hbs)
    exact Table.eq_of_key_eq ha' hb' (by rw [harel.id, hbrel.id, hab])
  payload r' hr' hans := by
    obtain ⟨r, hr, hrel⟩ := hev.inputRequests.exists_of_mem hr'
    rcases hrel.answer hans with hr0 | ⟨-, hpayload⟩
    · rw [hrel.answered hr0]
      exact h.payload r hr hr0
    · exact hpayload

/-- The one Step row. -/
theorem find?_step (h : Static stepId db) {s : ExecutionStep} (hs : s ∈ db.steps) :
    db.steps.rows = [s] ∧ s.id = stepId := by
  obtain ⟨step, hstep, hid⟩ := h.step
  rw [Table.mem_def, hstep] at hs
  rw [List.mem_singleton.mp hs]
  exact ⟨hstep, hid⟩

/-- Requests of an Attempt have distinct keys, so an answer is carried by one call. -/
theorem carries_injective (h : Static stepId db) {c d : ToolCall} (hc : c ∈ db.toolCalls)
    (hd : d ∈ db.toolCalls) (hid : c.stepAttemptId = d.stepAttemptId) {rid : UUID}
    (hcr : c.mrtrInputRequestId = some rid) (hdr : d.mrtrInputRequestId = some rid) : c = d := by
  obtain ⟨a, ha, haid⟩ := h.callAttempt c hc
  have hr := h.rounds a ha
  have hnodup : (none :: (requestsOf db a.id).map fun r => some r.id).Nodup := by
    refine List.nodup_cons.mpr ⟨by simp, ?_⟩
    have hids : ((requestsOf db a.id).map (·.id)).Nodup :=
      db.inputRequests.nodup_keys.sublist (List.filter_sublist.map _)
    have := hids.map (Option.some_injective UUID)
    rwa [List.map_map] at this
  have hcalls : ((db.listToolCalls a.id).map (·.mrtrInputRequestId)).Nodup := by
    rw [hr.carries]
    exact hnodup.sublist (List.take_sublist _ _)
  exact List.inj_on_of_nodup_map hcalls (mem_listToolCalls.mpr ⟨hc, haid.symm⟩)
    (mem_listToolCalls.mpr ⟨hd, hid.symm.trans haid.symm⟩) (hcr.trans hdr.symm)

end Static

end McpFlow.Mrtr
