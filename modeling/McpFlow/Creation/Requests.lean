import McpFlow.Creation.Steps
import McpFlow.Library.Except

/-!
# The requests behind the hashes

The payload of a call is the one that its body stands for, and the hash of a payload identifies the
payload up to the order of members. So calls of one service with one hash are the same request, however
their bodies were spelled.
-/

namespace McpFlow.Creation

open Json (FloatText Value)
open Workflow (Failure Platform Plan)

variable {env : Platform} {floats : FloatText} {sha256 : String → String} {w w' : World}

/-! ### Payloads -/

/-- The payload that a call has hashed. -/
def Phase.payload? : Phase → Option Value
  | started => none
  | resolved r => some r.payload
  | hit r _ => some r.payload
  | missed r => some r.payload
  | prepared r _ => some r.payload
  | inserted r _ => some r.payload
  | raced r => some r.payload
  | succeeded payload _ => some payload
  | failed _ => none

/-- The payloads that a body stands for: the inputs of a workflow are completed by some plan. -/
def CreateBody.Requests : CreateBody → Value → Prop
  | agentRequest agentRequestId, payload => payload = agentPayload agentRequestId
  | workflowVersion workflowId versionId inputs, payload => ∃ plan snapshot,
    Workflow.normalizePlanInputs plan inputs = .ok snapshot ∧
      payload = workflowPayload workflowId versionId snapshot
  | manualToolTest toolId versionId arguments, payload =>
    payload = manualPayload toolId versionId arguments

theorem requests_of_resolve {c : Call} {reads : Reads} {resolved : Resolved}
    (h : c.resolve reads = .ok resolved) : c.body.Requests resolved.payload := by
  rw [Call.resolve] at h
  split at h
  · next agentRequestId hbody =>
    obtain ⟨row, hrow, h⟩ := Except.bind_eq_ok_iff.mp h
    obtain ⟨-, -, h⟩ := Except.bind_eq_ok_iff.mp h
    cases h
    rw [hbody]
    exact congrArg agentPayload (Table.key_of_find? (Workflow.found_eq_ok_iff.mp hrow))
  · next workflowId versionId inputs hbody =>
    obtain ⟨plan, -, h⟩ := Except.bind_eq_ok_iff.mp h
    obtain ⟨snapshot, hsnapshot, h⟩ := Except.bind_eq_ok_iff.mp h
    obtain ⟨-, -, h⟩ := Except.bind_eq_ok_iff.mp h
    cases h
    rw [hbody]
    exact ⟨plan, snapshot, hsnapshot, rfl⟩
  · next toolId versionId arguments hbody =>
    obtain ⟨normalized, hnormalized, h⟩ := Except.bind_eq_ok_iff.mp h
    obtain ⟨-, -, h⟩ := Except.bind_eq_ok_iff.mp h
    cases h
    rw [hbody]
    obtain ⟨-, -, hraw⟩ := Except.bind_eq_ok_iff.mp hnormalized
    obtain ⟨-, -, hraw⟩ := Except.bind_eq_ok_iff.mp hraw
    cases hraw
    rfl

/-- Every hashed payload is one that the body of its call stands for. -/
def World.Requested (w : World) : Prop :=
  ∀ s ∈ w.calls, ∀ payload, s.phase.payload? = some payload → s.call.body.Requests payload

theorem requested_initial : World.initial.Requested := fun _ hs => nomatch hs

/-- A move keeps the payload of the call or resolves it. -/
theorem Moves.payload {s : CallState} {phase : Phase} (h : Moves env floats sha256 w s phase)
    {payload : Value} (hpayload : phase.payload? = some payload) :
    s.phase.payload? = some payload ∨ s.call.body.Requests payload := by
  cases h with
  | resolved _ hresolve =>
    cases hpayload
    exact .inr (requests_of_resolve hresolve)
  | hit hphase =>
    rcases hphase with hphase | hphase <;> exact .inl (hphase ▸ hpayload)
  | missed hphase => exact .inl (hphase ▸ hpayload)
  | replayed hphase => exact .inl (hphase ▸ hpayload)
  | prepared hphase => exact .inl (hphase ▸ hpayload)
  | inserted hphase => exact .inl (hphase ▸ hpayload)
  | raced hphase => exact .inl (hphase ▸ hpayload)
  | failed => cases hpayload

theorem requested_step (h : w.Requested) (hstep : Steps env floats sha256 w w') : w'.Requested := by
  intro t ht payload hpayload
  cases hstep with
  | call hphase =>
    rcases List.mem_append.mp ht with ht | ht
    · exact h t ht payload hpayload
    · rw [List.mem_singleton.mp ht] at hpayload
      rcases hphase with rfl | ⟨failure, rfl⟩ <;> cases hpayload
  | @move i s phase hs hmove =>
    rcases mem_setPhase ht with ht | rfl
    · exact h t ht payload hpayload
    · rcases hmove.payload hpayload with hold | hrequests
      · exact h s (List.mem_of_getElem? hs) payload hold
      · exact hrequests
  | @commit i s resolved rows _ _ hs hphase =>
    rcases mem_setPhase ht with ht | rfl
    · exact h t ht payload hpayload
    · refine h s (List.mem_of_getElem? hs) payload ?_
      rw [hphase]
      exact hpayload
  | progress => exact h t ht payload hpayload

theorem requested_run {as : List Action}
    (hrun : Runs.run (World.step env floats sha256) World.initial as = some w) : w.Requested :=
  Runs.run_invariant (fun _ _ _ h hstep => requested_step h (steps_of_step hstep))
    requested_initial hrun

/-! ### Hashes -/

/-- The two bodies ask for the same. The inputs of a workflow are compared as its plans complete
them. -/
def CreateBody.Same : CreateBody → CreateBody → Prop
  | agentRequest agentRequestId, agentRequest agentRequestId' => agentRequestId = agentRequestId'
  | workflowVersion workflowId versionId inputs, workflowVersion workflowId' versionId' inputs' =>
    workflowId = workflowId' ∧ versionId = versionId' ∧ ∃ plan plan' snapshot snapshot',
      Workflow.normalizePlanInputs plan inputs = .ok snapshot ∧
        Workflow.normalizePlanInputs plan' inputs' = .ok snapshot' ∧
        (Value.obj snapshot).SameValue (.obj snapshot')
  | manualToolTest toolId versionId arguments, manualToolTest toolId' versionId' arguments' =>
    toolId = toolId' ∧ versionId = versionId' ∧ (Value.obj arguments).SameValue (.obj arguments')
  | _, _ => False

/-- The hash of one service determines the sorted payload. -/
theorem sortKeys_eq_of_requestHash_eq (hsha : Function.Injective sha256) {b b' : CreateBody}
    {p q : Value} (hscope : b.operationScope = b'.operationScope)
    (h : b.requestHash floats sha256 p = b'.requestHash floats sha256 q) :
    p.sortKeys = q.sortKeys := by
  have htext : b.requestText floats p = b'.requestText floats q :=
    String.ofList_injective (hsha h)
  match b, b' with
  | .agentRequest _, .agentRequest _ => exact Value.text_injective htext
  | .workflowVersion _ _ _, .workflowVersion _ _ _ => exact Value.text_injective htext
  | .manualToolTest _ _ _, .manualToolTest _ _ _ => exact Value.asciiText_injective floats htext
  | .agentRequest _, .workflowVersion _ _ _ => simp [CreateBody.operationScope] at hscope
  | .agentRequest _, .manualToolTest _ _ _ => simp [CreateBody.operationScope] at hscope
  | .workflowVersion _ _ _, .agentRequest _ => simp [CreateBody.operationScope] at hscope
  | .workflowVersion _ _ _, .manualToolTest _ _ _ => simp [CreateBody.operationScope] at hscope
  | .manualToolTest _ _ _, .agentRequest _ => simp [CreateBody.operationScope] at hscope
  | .manualToolTest _ _ _, .workflowVersion _ _ _ => simp [CreateBody.operationScope] at hscope

/-- Payloads of one service that agree when they are sorted stand for the same request. -/
theorem same_of_sortKeys_eq {b b' : CreateBody} {p q : Value}
    (hscope : b.operationScope = b'.operationScope) (hp : b.Requests p) (hq : b'.Requests q)
    (h : p.sortKeys = q.sortKeys) : b.Same b' := by
  match b, b' with
  | .agentRequest _, .agentRequest _ =>
    rw [hp, hq, agentPayload, agentPayload] at h
    have hmap hkeys hnodup := Value.map_sortKeys_eq hkeys hnodup h
    have hvalues := hmap (by simp) (by simp)
    simp only [List.map_cons, List.map_nil, Value.sortKeys, List.cons.injEq, Value.str.injEq,
      and_true] at hvalues
    exact UUID.toString_injective hvalues
  | .workflowVersion _ _ _, .workflowVersion _ _ _ =>
    obtain ⟨plan, snapshot, hsnapshot, rfl⟩ := hp
    obtain ⟨plan', snapshot', hsnapshot', rfl⟩ := hq
    rw [workflowPayload, workflowPayload] at h
    have hmap hkeys hnodup := Value.map_sortKeys_eq hkeys hnodup h
    have hvalues := hmap (by simp) (by simp)
    simp only [List.map_cons, List.map_nil, List.cons.injEq, and_true, true_and] at hvalues
    obtain ⟨hworkflow, hversion, hinputs⟩ := hvalues
    exact ⟨UUID.toString_injective (Value.str.inj hworkflow),
      UUID.toString_injective (Value.str.inj hversion), plan, plan', snapshot, snapshot', hsnapshot,
      hsnapshot', Value.sameValue_of_sortKeys_eq hinputs⟩
  | .manualToolTest _ _ _, .manualToolTest _ _ _ =>
    rw [hp, hq, manualPayload, manualPayload] at h
    have hmap hkeys hnodup := Value.map_sortKeys_eq hkeys hnodup h
    have hvalues := hmap (by simp) (by simp)
    simp only [List.map_cons, List.map_nil, List.cons.injEq, and_true] at hvalues
    obtain ⟨htool, hversion, harguments⟩ := hvalues
    exact ⟨UUID.toString_injective (Value.str.inj htool),
      UUID.toString_injective (Value.str.inj hversion),
      Value.sameValue_of_sortKeys_eq harguments⟩
  | .agentRequest _, .workflowVersion _ _ _ => simp [CreateBody.operationScope] at hscope
  | .agentRequest _, .manualToolTest _ _ _ => simp [CreateBody.operationScope] at hscope
  | .workflowVersion _ _ _, .agentRequest _ => simp [CreateBody.operationScope] at hscope
  | .workflowVersion _ _ _, .manualToolTest _ _ _ => simp [CreateBody.operationScope] at hscope
  | .manualToolTest _ _ _, .agentRequest _ => simp [CreateBody.operationScope] at hscope
  | .manualToolTest _ _ _, .workflowVersion _ _ _ => simp [CreateBody.operationScope] at hscope

end McpFlow.Creation
