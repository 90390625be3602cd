import McpFlow.Approval.Requests

/-!
# The resume outbox of approvals

An approval and its resume message are one transaction. So the outbox has the id of a request
exactly when that request is APPROVED, and has it once, whatever else happens to the Execution.
-/

namespace McpFlow

open Approval
open Mrtr (RunnerStage)

namespace World

variable {digest : TemplateDigest} {w w' : World}

/-! ### Who writes the outbox -/

private theorem approvalOutbox_progress {α : Type} (r : Worker) (next : α → WorkerStage)
    (tx : Tx α) :
    (w.progress r next tx).approvalOutbox = w.approvalOutbox := by
  cases tx with
  | ok result => rfl
  | error e => rfl

private theorem approvalOutbox_runnerTx {α : Type} (r : Worker) (v : Wave) (stepId : UUID)
    (next : α → Member) (tx : Tx α) :
    (w.runnerTx r v stepId next tx).approvalOutbox = w.approvalOutbox := by
  cases tx with
  | ok result => rfl
  | error e => rfl

private theorem approvalOutbox_runnerStep {r : Worker} {v : Wave} {stepId : UUID}
    {stage : RunnerStage} {action : RunnerAction}
    (hstep : w.runnerStep r v stepId stage action = some w') :
    w'.approvalOutbox = w.approvalOutbox := by
  unfold runnerStep at hstep
  split at hstep
  · cases hstep
    exact approvalOutbox_runnerTx r v stepId _ _
  · cases hstep
    rfl
  · cases hstep
    exact approvalOutbox_runnerTx r v stepId _ _
  · cases hstep
    exact approvalOutbox_runnerTx r v stepId _ _
  · split at hstep
    · cases hstep
      exact approvalOutbox_runnerTx r v stepId _ _
    · cases hstep
  · cases hstep
    exact approvalOutbox_runnerTx r v stepId _ _
  · cases hstep

private theorem approvalOutbox_workerStep {r : Worker} {action : WorkerAction}
    (hstep : w.workerStep digest r r.stage action = some w') :
    w'.approvalOutbox = w.approvalOutbox := by
  unfold workerStep at hstep
  split at hstep
  · cases hstep
    rfl
  · cases hstep
    exact approvalOutbox_progress r _ _
  · cases hstep
    rfl
  · cases hstep
    exact approvalOutbox_progress r _ _
  · split at hstep
    · exact approvalOutbox_runnerStep hstep
    · cases hstep
  · obtain ⟨outcomes, -, rfl⟩ := Option.map_eq_some_iff.mp hstep
    rfl
  · cases hstep
    exact approvalOutbox_progress r _ _
  · cases hstep
    exact approvalOutbox_progress r _ _
  · cases hstep

/-- Only a decision writes the outbox. -/
theorem approvalOutbox_of_step {a : Action} (hstep : w.step digest a = some w')
    (hdecide : ∀ requestId env now, a ≠ .decide requestId env now) :
    w'.approvalOutbox = w.approvalOutbox := by
  cases a with
  | claim env c now =>
    simp only [step, Option.ite_none_left_eq_some, Option.some.injEq] at hstep
    obtain ⟨-, rfl⟩ := hstep
    unfold World.claim
    split
    · split <;> rfl
    · rfl
  | worker token action =>
    obtain ⟨r, -, hworker⟩ := Option.bind_eq_some_iff.mp hstep
    exact approvalOutbox_workerStep hworker
  | cancel =>
    cases hstep
    rfl
  | decide requestId env now => exact absurd rfl (hdecide requestId env now)
  | expire =>
    cases hstep
    rfl
  | resumeApproval requestId env now =>
    simp only [step, Option.ite_none_right_eq_some, Option.some.injEq] at hstep
    obtain ⟨-, rfl⟩ := hstep
    unfold World.resumeApproval
    split
    · split <;> rfl
    · rfl
  | submit requestId actor responses resumeLineage now =>
    cases hstep
    unfold World.submit
    split
    · split <;> rfl
    · rfl
  | reject =>
    cases hstep
    rfl
  | resumeInput requestId env now =>
    simp only [step, Option.ite_none_right_eq_some, Option.some.injEq] at hstep
    obtain ⟨-, rfl⟩ := hstep
    unfold World.resumeInput
    split
    · split <;> rfl
    · rfl
  | recover env now =>
    simp only [step, Option.ite_none_left_eq_some, Option.some.injEq] at hstep
    obtain ⟨-, rfl⟩ := hstep
    unfold World.recover
    split
    · split <;> rfl
    · rfl

/-! ### The outbox and the requests -/

/-- The request of this id is APPROVED. -/
def Approved (w : World) (requestId : UUID) : Prop :=
  ∃ r ∈ w.db.approvals, r.id = requestId ∧ r.status = .approved

/-- The outbox has every APPROVED request once, and no other. -/
structure Enqueued (w : World) : Prop where
  once : w.approvalOutbox.Nodup
  mem_iff : ∀ requestId, requestId ∈ w.approvalOutbox ↔ w.Approved requestId

theorem Initial.enqueued (h : w.Initial) : w.Enqueued := by
  refine ⟨h.approvalOutbox ▸ List.nodup_nil, fun requestId => iff_of_false ?_ ?_⟩
  · rw [h.approvalOutbox]
    exact List.not_mem_nil
  · rintro ⟨r, hr, -⟩
    rw [Table.mem_def, h.approvals] at hr
    exact List.not_mem_nil hr

/-- Without a decision the same requests are APPROVED. -/
private theorem approved_iff_of_answers (h : w.db.AnswersRequests w'.db) (requestId : UUID) :
    w'.Approved requestId ↔ w.Approved requestId := by
  have hmove {r r' : ApprovalRequest} (hmoves : ApprovalMoves r r') :
      r'.id = r.id ∧ (r'.status = .approved ↔ r.status = .approved) := by
    cases hmoves with
    | same hsame => exact ⟨hsame ▸ rfl, by rw [hsame]⟩
    | lapsed hpending hsame hlapsed =>
      refine ⟨congrArg Prod.fst hsame, iff_of_false (fun happroved => ?_) (fun happroved => ?_)⟩
      · rw [happroved] at hlapsed
        cases hlapsed
      · rw [hpending] at happroved
        cases happroved
  constructor
  · rintro ⟨r', hr', hid, happroved⟩
    cases h with
    | rewrites hrewrites =>
      obtain ⟨r, hr, hmoves⟩ := hrewrites.exists_of_mem hr'
      exact ⟨r, hr, (hmove hmoves).1.symm.trans hid, (hmove hmoves).2.mp happroved⟩
    | asks hpending hinsert =>
      rcases (Table.mem_of_insert? hinsert).mp hr' with hr | rfl
      · exact ⟨r', hr, hid, happroved⟩
      · rw [hpending] at happroved
        cases happroved
  · rintro ⟨r, hr, hid, happroved⟩
    cases h with
    | rewrites hrewrites =>
      obtain ⟨r', hr', hmoves⟩ := hrewrites.exists_mem hr
      exact ⟨r', hr', (hmove hmoves).1.trans hid, (hmove hmoves).2.mpr happroved⟩
    | asks _ hinsert =>
      exact ⟨r, (Table.mem_of_insert? hinsert).mpr (.inl hr), hid, happroved⟩

/-- A decision approves its request, or nothing. -/
private theorem approved_iff_of_resolves {request : ApprovalRequest} {now : Time}
    {resolution : Option Resolution} (hawaits : w.db.AwaitsDecision request now)
    (hresolves : w.db.Resolves request now resolution w'.db) (requestId : UUID) :
    w'.Approved requestId ↔
      w.Approved requestId ∨ resolution = some .approved ∧ requestId = request.id := by
  have hrequest := Table.mem_of_find? hawaits.mem
  unfold Approved
  rw [hresolves.approvals]
  cases resolution with
  | none => simp
  | some resolution =>
    constructor
    · rintro ⟨r, hr, hid, happroved⟩
      rcases Table.mem_put hr with rfl | ⟨hr, -⟩
      · cases resolution with
        | approved => exact .inr ⟨rfl, hid.symm⟩
        | rejected => cases happroved
      · exact .inl ⟨r, hr, hid, happroved⟩
    · rintro (⟨r, hr, hid, happroved⟩ | ⟨hresolution, rfl⟩)
      · refine ⟨r, Table.mem_put_of_ne hr fun hsame => ?_, hid, happroved⟩
        -- a request of the same id is the PENDING one that is decided
        rw [Table.eq_of_key_eq hr hrequest hsame, hawaits.pending] at happroved
        cases happroved
      · cases hresolution
        exact ⟨_, Table.mem_put_self hrequest rfl, rfl, rfl⟩

private theorem Enqueued.decide {requestId : UUID} {env : DecisionEnv} {now : Time}
    (h : w.Enqueued) : (w.decide requestId env now).Enqueued := by
  unfold World.decide
  split
  · next outcome db hdecide =>
    obtain ⟨request, resolution, rfl, hawaits, -, hresolves, henqueued⟩ :=
      decides_of_decideApproval hdecide
    have happroved (requestId : UUID) : (w.withDb db).Approved requestId ↔
        w.Approved requestId ∨ resolution = some .approved ∧ requestId = request.id :=
      approved_iff_of_resolves hawaits hresolves requestId
    split
    · next hresume =>
      have hnew : request.id ∉ w.approvalOutbox := by
        intro hmem
        obtain ⟨r, hr, hid, hstatus⟩ := (h.mem_iff _).mp hmem
        rw [Table.eq_of_key_eq hr (Table.mem_of_find? hawaits.mem) hid, hawaits.pending] at hstatus
        cases hstatus
      refine ⟨List.nodup_append.mpr ⟨h.once, List.nodup_singleton _, ?_⟩, fun requestId => ?_⟩
      · intro a ha b hb hsame
        obtain rfl := List.mem_singleton.mp hb
        exact hnew (hsame ▸ ha)
      · refine Iff.trans ?_ (happroved requestId).symm
        rw [List.mem_append, List.mem_singleton, h.mem_iff]
        simp [henqueued.mp hresume]
    · next hresume =>
      refine ⟨h.once, fun requestId => ((h.mem_iff requestId).trans ?_).trans
        (happroved requestId).symm⟩
      have hnot : resolution ≠ some .approved := fun hsame => hresume (henqueued.mpr hsame)
      simp [hnot]
  · next e db hlate =>
    have happroved (requestId : UUID) : (w.withDb db).Approved requestId ↔ w.Approved requestId :=
      approved_iff_of_answers (.tooLate hlate) requestId
    exact ⟨h.once, fun requestId => (h.mem_iff requestId).trans (happroved requestId).symm⟩
  · exact h

/-- Every step keeps the outbox and the requests together. -/
theorem Enqueued.step {a : Action} (h : w.Enqueued) (hstep : w.step digest a = some w') :
    w'.Enqueued := by
  by_cases hdecide : ∃ requestId env now, a = .decide requestId env now
  · obtain ⟨requestId, env, now, rfl⟩ := hdecide
    obtain rfl : w.decide requestId env now = w' := Option.some.inj hstep
    exact h.decide
  · have hother : ∀ requestId env now, a ≠ .decide requestId env now :=
      fun requestId env now hsame => hdecide ⟨requestId, env, now, hsame⟩
    have hsame := approvalOutbox_of_step hstep hother
    refine ⟨hsame ▸ h.once, fun requestId => ?_⟩
    rw [hsame, h.mem_iff,
      approved_iff_of_answers (answersRequests_of_step hstep hother) requestId]

end World

end McpFlow
