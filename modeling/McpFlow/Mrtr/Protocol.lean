import McpFlow.Approval.StoredEvidence
import McpFlow.Mrtr.Invariant

/-!
# The MRTR protocol

What a user of the protocol sees, in every state of every run: the shape of a wait, the rounds of an
Attempt, one answer for each request and one call for each answer. A second submission of an answer
never changes anything. The resume message of a resumed round changes nothing unless it arrives
while the answer of a later round waits for its own resume: the claim then ends the Execution.
-/

namespace McpFlow.Mrtr

open Runs (run StepsMeet)

/-- The protocol in one state. -/
structure Protocol (s : Session) : Prop where
  /-- A wait has no lease and at most one OPEN request; one Attempt is STARTED, no ToolCall is, and
  the Attempt has as many requests as SUCCEEDED ToolCalls. -/
  wait : s.db.execution.status = .waitingInput → s.db.execution.leaseCleared = true ∧
    (∀ q ∈ s.db.inputRequests, ∀ r ∈ s.db.inputRequests, q.status = .open → r.status = .open →
      q = r) ∧
    (∀ c ∈ s.db.toolCalls, c.normalizedStatus ≠ .started) ∧
    ∃ a ∈ s.db.attempts, a.status = .started ∧ (∀ b ∈ s.db.attempts, b.status = .started → b = a) ∧
      requestsOf s.db a.id ≠ [] ∧ (requestsOf s.db a.id).length =
        ((s.db.listToolCalls a.id).filter (·.normalizedStatus = .succeeded)).length
  /-- The requests of an Attempt are its rounds 1, 2, ... in order. -/
  rounds : ∀ a ∈ s.db.attempts, (requestsOf s.db a.id).map (·.roundNo) =
    List.range' 1 (requestsOf s.db a.id).length
  /-- An accepted answer enqueues the message of its request. -/
  answeredOnce : s.outbox.Nodup
  /-- No answer is sent twice. -/
  sentOnce : (s.sent.filterMap (·.inputRequestId)).Nodup
  /-- A call sends an answer with the state of its own round. -/
  sentAnswer : ∀ c ∈ s.sent, ∀ rid, c.inputRequestId = some rid → ∃ r ∈ s.db.inputRequests,
    r.id = rid ∧ r.status = .answered ∧ r.stepAttemptId = c.attemptId ∧
      c.inputResponses = r.responsePayload ∧ c.requestState = some r.requestState
  /-- The answer of a round was sent once the next call is complete. -/
  answerSent : ∀ a ∈ s.db.attempts, ∀ r ∈ requestsOf s.db a.id, r.roundNo <
      ((s.db.listToolCalls a.id).filter (·.normalizedStatus = .succeeded)).length →
    ∃ c ∈ s.sent, c.attemptId = a.id ∧ c.inputRequestId = some r.id

/-- A resume message of a resumed round, or a second submission for an ANSWERED request. -/
def Repeats (s : Session) : Action → Prop
  | .deliver requestId _ _ => requestId ∈ s.resumed
  | .submit requestId _ _ _ _ => ∃ r ∈ s.db.inputRequests, r.id = requestId ∧ r.status = .answered
  | _ => False

/-- The Execution, its Step, Attempts and ToolCalls are the same. -/
def Unchanged (db db' : Db) : Prop :=
  db'.execution = db.execution ∧ db'.steps = db.steps ∧ db'.attempts = db.attempts ∧
    db'.toolCalls = db.toolCalls

/-- A repeated message changes nothing. -/
def RepeatIsNoop (stepId : UUID) (s : Session) (action : Action) : Prop :=
  Repeats s action → ∀ s', s.step stepId action = some s' → Unchanged s.db s'.db

/-- The message of a resumed round does not arrive in a wait whose request is answered already. -/
def Fits (s : Session) : Action → Prop
  | .deliver requestId _ _ => requestId ∈ s.resumed → s.db.execution.status = .waitingInput →
    ∃ r ∈ s.db.inputRequests, r.status = .open
  | _ => True

instance (s : Session) : (action : Action) → Decidable (Fits s action)
  | .deliver requestId _ _ => inferInstanceAs (Decidable (requestId ∈ s.resumed →
      s.db.execution.status = .waitingInput →
        ∃ r ∈ s.db.inputRequests.rows, r.status = .open))
  | .prepare .. | .secretsUnavailable .. | .gate .. | .finalizeRefused .. | .finalize ..
  | .inputRequired .. | .renew .. | .submit .. | .reject .. | .cancel .. =>
    inferInstanceAs (Decidable True)

theorem Unchanged.refl (db : Db) : Unchanged db db := ⟨rfl, rfl, rfl, rfl⟩

variable {stepId : UUID} {s s' : Session}

namespace Invariant

/-- A SUCCEEDED ToolCall was sent with the answer of its row. -/
private theorem sent_of_succeeded (h : Invariant stepId s) {c : ToolCall} (hc : c ∈ s.db.toolCalls)
    (hsucc : c.normalizedStatus = .succeeded) : ∃ sc ∈ s.sent, sc.attemptId = c.stepAttemptId ∧
      sc.inputRequestId = c.mrtrInputRequestId := by
  obtain ⟨sc, hsc, hid⟩ := List.mem_map.mp (h.history.succeeded c hc hsucc)
  obtain ⟨p, rfl, -, d, hd, hdid, hattempt, hrequest⟩ := h.history.sentCall sc hsc
  obtain rfl := Table.eq_of_key_eq hd hc (hdid.trans hid)
  exact ⟨_, hsc, hattempt.symm, hrequest.symm⟩

/-- Two sent calls with one answer are the same call. -/
private theorem sent_injective (h : Invariant stepId s) {c d : SentCall} (hc : c ∈ s.sent)
    (hd : d ∈ s.sent) {rid : UUID} (hcr : c.inputRequestId = some rid)
    (hdr : d.inputRequestId = some rid) : c.toolCallId = d.toolCallId := by
  obtain ⟨p, rfl, hpm, x, hx, hxid, hxa, hxr⟩ := h.history.sentCall c hc
  obtain ⟨q, rfl, hqm, y, hy, hyid, hya, hyr⟩ := h.history.sentCall d hd
  obtain ⟨r, hr, hrid, -, hra, -⟩ := hpm rid hcr
  obtain ⟨r', hr', hrid', -, hra', -⟩ := hqm rid hdr
  obtain rfl := Table.eq_of_key_eq hr hr' (hrid.trans hrid'.symm)
  have hattempt : x.stepAttemptId = y.stepAttemptId := by rw [hxa, hya, ← hra, ← hra']
  obtain rfl := h.history.static.carries_injective hx hy hattempt (hxr.trans hcr) (hyr.trans hdr)
  exact hxid.symm.trans hyid

/-- The invariant implies the protocol. -/
theorem protocol (h : Invariant stepId s) : Protocol s where
  wait hwait := by
    have hs := h.history.static
    have hw := h.history.phase.waiting hwait
    obtain ⟨a, ha, has, hlen, rs, r, hreqs, -, -, huniq⟩ := hw.attempt
    refine ⟨hw.lease, fun q hq r' hr' hqo hro => (huniq q hq hqo).trans (huniq r' hr' hro).symm,
      hw.call, a, ha, has, fun b hb hbs => hs.oneStarted b hb a ha hbs has, ?_, ?_⟩
    · simp [hreqs]
    · rw [List.filter_eq_self.mpr]
      · exact hlen.symm
      · intro c hc
        simpa using (hs.rounds a ha).all_succeeded hlen c hc
  rounds a ha := (h.history.static.rounds a ha).roundNo
  answeredOnce := h.history.outboxNodup
  sentOnce := by
    have hpairs := List.pairwise_map.mp h.history.sentNodup
    refine List.pairwise_filterMap.mpr (hpairs.imp_of_mem fun hc hd hne rid hcr rid' hdr heq => ?_)
    exact hne (h.sent_injective hc hd hcr (heq ▸ hdr))
  sentAnswer c hc rid hrid := by
    obtain ⟨p, rfl, hmaterial, -⟩ := h.history.sentCall c hc
    exact hmaterial rid hrid
  answerSent a ha r hr hlt := by
    have hrounds := h.history.static.rounds a ha
    have hle := List.length_filter_le (fun c : ToolCall => c.normalizedStatus = .succeeded)
      (s.db.listToolCalls a.id)
    obtain ⟨i, hi, rfl, hrequest⟩ := hrounds.exists_call hr (by omega)
    have hmem := List.getElem_mem hi
    have hsucc : ((s.db.listToolCalls a.id)[r.roundNo]).normalizedStatus = .succeeded := by
      rcases Nat.lt_or_ge r.roundNo (requestsOf s.db a.id).length with hlast | hlast
      · exact hrounds.succeeded _ (List.mem_take_iff_getElem.mpr ⟨r.roundNo, by omega, rfl⟩)
      · -- The call after the last request is the last one, and all are complete.
        have hall : ((s.db.listToolCalls a.id).filter (·.normalizedStatus = .succeeded)).length =
            (s.db.listToolCalls a.id).length := by
          have := hrounds.le_succ
          omega
        simpa using List.length_filter_eq_length_iff.mp hall _ hmem
    obtain ⟨hcall, hattempt⟩ := mem_listToolCalls.mp hmem
    obtain ⟨sc, hsc, hsa, hsr⟩ := h.sent_of_succeeded hcall hsucc
    exact ⟨sc, hsc, hsa.trans hattempt, hsr.trans hrequest⟩

/-- A second submission changes nothing. -/
private theorem submit_noop {requestId : UUID} {actor : Actor}
    {responses : List (String × Json.Value)} {resumeLineage : Except AppError Unit} {now : Time}
    {r : McpInputRequest} (hr : r ∈ s.db.inputRequests) (hid : r.id = requestId)
    (hans : r.status = .answered) :
    (s.submit requestId actor responses resumeLineage now).db = s.db := by
  unfold Session.submit
  split
  · next outcome db hsubmit =>
    obtain ⟨-, ⟨henqueued, rfl⟩ | ⟨-, -, request, accepted, hfind, hopen, -⟩⟩ :=
      submitResponse_ok hsubmit
    · rw [if_neg (by simp [henqueued])]
      rfl
    · rw [Table.eq_of_key_eq (Table.mem_of_find? hfind) hr
        ((Table.key_of_find? hfind).trans hid.symm), hans] at hopen
      cases hopen
  · rfl

/-- The message of a resumed round changes nothing exactly when it fits. -/
private theorem deliver_noop_iff (h : Invariant stepId s) {requestId : UUID} {env : ResumeEnv}
    {now : Time} (hresumed : requestId ∈ s.resumed) :
    Unchanged s.db (s.deliver requestId env now).db ↔ (s.db.execution.status = .waitingInput →
      ∃ r ∈ s.db.inputRequests, r.status = .open) := by
  obtain ⟨r, hr, rfl, hans, hspent⟩ := h.history.resumed requestId hresumed
  constructor
  · intro hsame hwait
    by_contra hnone
    have hnoOpen : NoOpen s.db := fun q hq hopen => hnone ⟨q, hq, hopen⟩
    obtain ⟨db, hclaim, hfailed⟩ := claim_spent env now h.history.static
      h.history.phase hwait hnoOpen hr hspent
    have hdb : (s.deliver r.id env now).db = db := by
      unfold Session.deliver
      rw [hclaim]
      rfl
    rw [hdb] at hsame
    rw [hsame.1, hwait] at hfailed
    cases hfailed
  · intro hfits
    have hsame : (s.deliver r.id env now).db = s.db := by
      unfold Session.deliver
      split
      · next outcome db hclaim =>
        rcases claim_ok hclaim with ⟨hclaimed, rfl, -⟩ | ⟨hwait, step, hsteps, hopen, -⟩
        · rw [if_neg (by simp [hclaimed])]
          rfl
        · -- An OPEN request of the one Step stops the claim.
          exfalso
          obtain ⟨q, hq, hqopen⟩ := hfits hwait
          obtain ⟨hexec, hstepId, -⟩ := h.history.static.request q hq
          have hmem : step ∈ s.db.steps.rows.filter (·.status = .waitingInput) := by
            rw [hsteps]
            exact List.mem_singleton_self step
          have hid := (h.history.static.find?_step (List.mem_filter.mp hmem).1).2
          exact List.filter_eq_nil_iff.mp hopen q hq (by simp [hexec, hstepId, hid, hqopen])
      · rfl
    rw [hsame]
    exact .refl s.db

/-- A possible action is a noop when repeated exactly when it fits. -/
theorem repeatIsNoop_iff (h : Invariant stepId s) {action : Action}
    (hstep : s.step stepId action = some s') : RepeatIsNoop stepId s action ↔ Fits s action := by
  cases action with
  | deliver requestId env now =>
    have hs' : s' = s.deliver requestId env now := by
      rw [Session.step] at hstep
      split at hstep
      · exact (Option.some.inj hstep).symm
      · cases hstep
    constructor
    · intro hnoop hresumed
      have hsame := hnoop hresumed s' hstep
      rw [hs'] at hsame
      exact (h.deliver_noop_iff hresumed).mp hsame
    · intro hfits hresumed t ht
      rw [Option.some.inj (ht.symm.trans hstep), hs']
      exact (h.deliver_noop_iff hresumed).mpr (hfits hresumed)
  | submit requestId actor responses resumeLineage now =>
    refine ⟨fun _ => trivial, fun _ => ?_⟩
    rintro ⟨r, hr, hid, hans⟩ t ht
    cases ht
    rw [submit_noop hr hid hans]
    exact .refl s.db
  | _ => exact ⟨fun _ => trivial, fun _ hrepeats => hrepeats.elim⟩

end Invariant

/-- Every state of a run of one MCP-waiting Execution keeps the protocol, and its repeated messages
change nothing exactly when each resume message fits. -/
theorem protocol_run_iff {as : List Action} {t : Session} (hinit : Session.Initial stepId s)
    (hrun : run (Session.step stepId) s as = some t) :
    (StepsMeet (Session.step stepId) (fun u action => Protocol u ∧ RepeatIsNoop stepId u action) s
      as ∧ Protocol t) ↔ StepsMeet (Session.step stepId) Fits s as := by
  have hinv := Invariant.of_initial hinit
  have hend : Protocol t := (Runs.run_invariant (fun _ _ _ h hs => h.step hs) hinv hrun).protocol
  rw [and_iff_left hend]
  refine Runs.stepsMeet_congr (fun _ _ _ h hs => h.step hs) (fun u action u' hu hs => ?_) hinv hrun
  rw [hu.repeatIsNoop_iff hs, and_iff_right hu.protocol]

/-! ### A stale resume message -/

section StaleResume

open Approval (singleToolExecution testToolStep)

/-- A claimed Execution of one TOOL Step, before its first `tools/call`. -/
def claimedSession : Session where
  db :=
    { execution :=
        { singleToolExecution .agentRequest (some (.ofNat 9)) with leaseExpiresAt := some 100 }
      steps := ⟨[testToolStep], by decide⟩
      attempts := .empty
      toolCalls := .empty
      approvals := .empty
      inputRequests := .empty }
  runners := [⟨"worker", .ofNat 4, .preparing⟩]
  outbox := []
  tokens := [.ofNat 4]
  resumed := []
  sent := []

private theorem claimedSession_initial : Session.Initial testToolStep.id claimedSession where
  status := rfl
  step := ⟨testToolStep, rfl, rfl, rfl⟩
  attempts := rfl
  toolCalls := rfl
  inputRequests := rfl
  runner := ⟨_, rfl, rfl, rfl, rfl⟩
  outbox := rfl
  resumed := rfl
  sent := rfl

/-- Every check passes, and the call needs no approval. -/
private def readOnlyCall (attemptId toolCallId : UUID) (remoteRequestId : String) : PrepareEnv where
  start :=
    { authorization := .ok ⟨⟨.ofNat 5, false, false, none, .readOnly⟩, none⟩
      resolvedInput := .ok []
      argumentsValid := .ok ()
      approvedEvidence := .ok false
      computeCanonicalJsonHash := fun _ => .replicate 'b' (by decide)
      attemptId := attemptId
      approvalRequestId := .ofNat 50 }
  resumeLineage := .ok ()
  catalog := .ok ⟨.ofNat 30, .ofNat 7, .readOnly, 1000⟩
  preSendFailure := none
  toolCallId := toolCallId
  remoteRequestId := remoteRequestId

/-- Two rounds: the first one answered and resumed, the second one answered. -/
def twoRounds : List Action :=
  [.prepare (.ofNat 4) (readOnlyCall (.ofNat 200) (.ofNat 300) "r1") 1,
    .gate (.ofNat 4) none 2,
    .inputRequired (.ofNat 4) ⟨[("name", .obj [])], .str "s1", false⟩ (.ofNat 400) 3,
    .submit (.ofNat 400) ⟨.ofNat 3, true⟩ [("name", .str "a")] (.ok ()) 4,
    .deliver (.ofNat 400) ⟨.ok (), .ok (), "worker", .ofNat 101, 60⟩ 5,
    .prepare (.ofNat 101) (readOnlyCall (.ofNat 201) (.ofNat 301) "r2") 6,
    .gate (.ofNat 101) none 7,
    .inputRequired (.ofNat 101) ⟨[("name", .obj [])], .str "s2", false⟩ (.ofNat 401) 8,
    .submit (.ofNat 401) ⟨.ofNat 3, true⟩ [("name", .str "b")] (.ok ()) 9]

/-- The message of the first round once more. -/
def firstRoundAgain : Action :=
  .deliver ⟨400, by decide⟩ ⟨.ok (), .ok (), "worker", ⟨102, by decide⟩, 60⟩ 10

/-- The protocol along the two rounds. -/
theorem twoRounds_keep_protocol : ∃ t, run (Session.step testToolStep.id) claimedSession twoRounds =
    some t ∧ (StepsMeet (Session.step testToolStep.id)
      (fun u action => Protocol u ∧ RepeatIsNoop testToolStep.id u action) claimedSession
      twoRounds ∧ Protocol t) := by
  obtain ⟨t, ht⟩ := Option.isSome_iff_exists.mp
    (show (run (Session.step testToolStep.id) claimedSession twoRounds).isSome from by decide)
  exact ⟨t, ht, (protocol_run_iff claimedSession_initial ht).mpr (by decide)⟩

/-- Redelivered while the second answer waits for its resume, the first message fails the Execution
and its Step, and leaves the Attempt STARTED. -/
theorem firstRoundAgain_ends_execution : ∃ t t',
    Session.Initial testToolStep.id claimedSession ∧
    run (Session.step testToolStep.id) claimedSession twoRounds = some t ∧
    t.db.execution.status = .waitingInput ∧ Repeats t firstRoundAgain ∧
    t.step testToolStep.id firstRoundAgain = some t' ∧ t'.db.execution.status = .failed ∧
    t'.db.attempts.rows.map (·.status) = [.started] ∧
    ¬ StepsMeet (Session.step testToolStep.id) (RepeatIsNoop testToolStep.id) claimedSession
      (twoRounds ++ [firstRoundAgain]) := by
  have hbefore : (run (Session.step testToolStep.id) claimedSession twoRounds).map
      (fun t => (t.db.execution.status, t.resumed)) = some (.waitingInput, [⟨400, by decide⟩]) := by
    decide
  have hafter : (run (Session.step testToolStep.id) claimedSession
      (twoRounds ++ [firstRoundAgain])).map
      (fun t => (t.db.execution.status, t.db.attempts.rows.map (·.status))) =
        some (.failed, [.started]) := by
    decide
  obtain ⟨t, ht, hstatus⟩ := Option.map_eq_some_iff.mp hbefore
  obtain ⟨t', ht', hstatus'⟩ := Option.map_eq_some_iff.mp hafter
  obtain ⟨hwait, hresumed⟩ := Prod.mk.inj hstatus
  obtain ⟨hfailed, hattempts⟩ := Prod.mk.inj hstatus'
  rw [Runs.run_append, ht, Option.bind_some] at ht'
  obtain ⟨u, hstep, hu⟩ := Runs.run_cons_eq_some.mp ht'
  cases hu
  have hrepeats : Repeats t firstRoundAgain := by
    rw [firstRoundAgain, Repeats, hresumed]
    exact List.mem_singleton_self _
  refine ⟨t, t', claimedSession_initial, ht, hwait, hrepeats, hstep, hfailed, hattempts,
    fun hmeet => ?_⟩
  have hsame := (Runs.stepsMeet_append hmeet ht).2.1 hrepeats t' hstep
  rw [hsame.1, hwait] at hfailed
  cases hfailed

end StaleResume

end McpFlow.Mrtr
