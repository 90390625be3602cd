import McpFlow.Mrtr.Session
import McpFlow.Mrtr.Users

/-!
# The invariant of a session

`History` ties the rows to what left the database: a sent call has a row and carries its answered
request, a SUCCEEDED call was sent, a resume message belongs to an answered request. `Invariant` adds the
runners: only the owner of the lease can change rows, and its call is the one in flight.
-/

namespace McpFlow.Mrtr

/-- The rows against the calls that were sent and the messages that were enqueued. -/
structure History (stepId : UUID) (db : Db) (sent : List SentCall) (outbox resumed : List UUID) :
    Prop where
  static : Static stepId db
  phase : Phase db
  sentNodup : (sent.map (·.toolCallId)).Nodup
  sentCall : ∀ c ∈ sent, ∃ p, c = sentCall p ∧ Material db p ∧ HasRow db p
  succeeded : ∀ c ∈ db.toolCalls, c.normalizedStatus = .succeeded → c.id ∈ sent.map (·.toolCallId)
  outboxNodup : outbox.Nodup
  outbox : ∀ rid ∈ outbox, ∃ r ∈ db.inputRequests, r.id = rid ∧ r.status = .answered
  resumed : ∀ rid ∈ resumed, ∃ r ∈ db.inputRequests, r.id = rid ∧ r.status = .answered ∧
    Spent db r

/-- A runner whose call may still end. -/
structure CallOk (db : Db) (token : UUID) (p : PreparedCall) : Prop where
  leaseToken : p.leaseToken = token
  defer : p.deferExecutionTerminalization = false
  material : Material db p
  row : HasRow db p
  /-- The owner of an Execution in flight holds the STARTED call. -/
  holds : db.execution.leaseToken = some token → InFlight db → Holds db p

/-- A runner at its stage. -/
structure RunnerOk (db : Db) (ids : List UUID) (r : Runner) : Prop where
  call : ∀ p, r.stage.call? = some p → CallOk db r.token p
  unsent : ∀ p, r.stage = .prepared p → db.execution.leaseToken = some r.token →
    p.toolCallId ∉ ids
  sent : ∀ p, r.stage = .inFlight p → p.toolCallId ∈ ids

/-- The invariant of a session. -/
structure Invariant (stepId : UUID) (s : Session) : Prop where
  history : History stepId s.db s.sent s.outbox s.resumed
  tokensNodup : (s.runners.map (·.token)).Nodup
  tokens : ∀ r ∈ s.runners, r.token ∈ s.tokens
  lease : ∀ t, s.db.execution.leaseToken = some t → t ∈ s.tokens
  runner : ∀ r ∈ s.runners, RunnerOk s.db s.sentIds r

variable {stepId : UUID} {s s' : Session} {r q : Runner} {db' : Db}

namespace History

variable {db : Db} {sent : List SentCall} {outbox resumed : List UUID}

theorem keeps (h : History stepId db sent outbox resumed)
    (hkeep : Keeps stepId (sent.map (·.toolCallId)) db db') :
    History stepId db' sent outbox resumed where
  static := hkeep.static
  phase := hkeep.phase
  sentNodup := h.sentNodup
  sentCall c hc := by
    obtain ⟨p, rfl, hmaterial, hrow⟩ := h.sentCall c hc
    exact ⟨p, rfl, hmaterial.mono hkeep, hrow.mono hkeep⟩
  succeeded c hc hsucc := by
    rcases hkeep.succeeded c hc hsucc with hmem | ⟨d, hd, hid, hdsucc⟩
    · exact hmem
    · exact hid ▸ h.succeeded d hd hdsucc
  outboxNodup := h.outboxNodup
  outbox rid hrid := by
    obtain ⟨r, hr, hid, hans⟩ := h.outbox rid hrid
    exact ⟨r, hkeep.answered r hr hans, hid, hans⟩
  resumed rid hrid := by
    obtain ⟨r, hr, hid, hans, hspent⟩ := h.resumed rid hrid
    exact ⟨r, hkeep.answered r hr hans, hid, hans, hkeep.spent r hr hans hspent⟩

/-- A fresh call is sent. -/
theorem send (h : History stepId db sent outbox resumed) {p : PreparedCall}
    (hmaterial : Material db p) (hrow : HasRow db p)
    (hfresh : p.toolCallId ∉ sent.map (·.toolCallId)) :
    History stepId db (sent ++ [Mrtr.sentCall p]) outbox resumed where
  static := h.static
  phase := h.phase
  sentNodup := by
    rw [List.map_append, List.map_singleton]
    refine List.nodup_append.mpr ⟨h.sentNodup, List.nodup_singleton _, fun a ha b hb hab => ?_⟩
    rw [hab, List.mem_singleton.mp hb] at ha
    exact hfresh ha
  sentCall c hc := by
    rcases List.mem_append.mp hc with hc | hc
    · exact h.sentCall c hc
    · exact ⟨p, List.mem_singleton.mp hc, hmaterial, hrow⟩
  succeeded c hc hsucc := by
    rw [List.map_append]
    exact List.mem_append_left _ (h.succeeded c hc hsucc)
  outboxNodup := h.outboxNodup
  outbox := h.outbox
  resumed := h.resumed

end History

/-! ### The runners -/

/-- The call of a runner that is not the owner of the lease, or did not change the rows. -/
theorem CallOk.mono {db : Db} {token : UUID} {p : PreparedCall} {ids : List UUID}
    (h : CallOk db token p) (hkeep : Keeps stepId ids db db')
    (howner : db'.execution.leaseToken = some token → db' = db) : CallOk db' token p where
  leaseToken := h.leaseToken
  defer := h.defer
  material := h.material.mono hkeep
  row := h.row.mono hkeep
  holds htoken hflight := by
    obtain rfl := howner htoken
    exact h.holds htoken hflight

theorem RunnerOk.mono {db : Db} {ids : List UUID} (h : RunnerOk db ids r)
    (hkeep : Keeps stepId ids db db')
    (howner : db'.execution.leaseToken = some r.token → db' = db) : RunnerOk db' ids r where
  call p hp := (h.call p hp).mono hkeep howner
  unsent p hp htoken := by
    obtain rfl := howner htoken
    exact h.unsent p hp htoken
  sent := h.sent

/-- A runner before Phase A holds no call. -/
theorem RunnerOk.preparing {db : Db} {ids : List UUID} (worker : String) (token : UUID) :
    RunnerOk db ids ⟨worker, token, .preparing⟩ :=
  ⟨fun p hp => (by cases hp), fun p hp => (by cases hp), fun p hp => (by cases hp)⟩

/-- Sending a call concerns only the owner of the lease. -/
theorem RunnerOk.send {db : Db} {ids : List UUID} {id : UUID} (h : RunnerOk db ids r)
    (hother : db.execution.leaseToken ≠ some r.token) : RunnerOk db (ids ++ [id]) r where
  call := h.call
  unsent _ _ htoken := absurd htoken hother
  sent p hp := List.mem_append_left _ (h.sent p hp)

namespace Invariant

/-- The rows of the other runners when one of them acts. -/
private theorem others (h : Invariant stepId s)
    (hkeep : Preserves stepId s.sentIds s.db db')
    (howner : db' = s.db ∨ s.db.execution.leaseToken = some r.token) (hq : q ∈ s.runners)
    (hne : q.token ≠ r.token) : RunnerOk db' s.sentIds q := by
  refine (h.runner q hq).mono hkeep.toKeeps fun htoken => howner.resolve_right fun hown => hne ?_
  rcases hkeep.token with ht | ht <;> rw [htoken] at ht
  · rw [hown] at ht
    exact Option.some.inj ht
  · cases ht

private theorem lease_of_token (h : Invariant stepId s) (hkeep : Preserves stepId s.sentIds s.db db') :
    ∀ t, db'.execution.leaseToken = some t → t ∈ s.tokens := by
  intro t ht
  rcases hkeep.token with ht' | ht' <;> rw [ht'] at ht
  · exact h.lease t ht
  · cases ht

/-- A runner ends after its transaction. -/
theorem endRunner (h : Invariant stepId s)
    (hkeep : Preserves stepId s.sentIds s.db db')
    (howner : db' = s.db ∨ s.db.execution.leaseToken = some r.token) :
    Invariant stepId ((s.withDb db').endRunner r) where
  history := h.history.keeps hkeep.toKeeps
  tokensNodup := h.tokensNodup.sublist (List.filter_sublist.map _)
  tokens q hq := h.tokens q (List.mem_filter.mp hq).1
  lease := h.lease_of_token hkeep
  runner q hq := by
    obtain ⟨hq, hne⟩ := List.mem_filter.mp hq
    exact h.others hkeep howner hq (by simpa using hne)

/-- A runner moves to its next stage after its transaction. -/
theorem setStage (h : Invariant stepId s)
    (hkeep : Preserves stepId s.sentIds s.db db')
    (howner : db' = s.db ∨ s.db.execution.leaseToken = some r.token) {stage : RunnerStage}
    (hstage : ∀ worker, RunnerOk db' s.sentIds ⟨worker, r.token, stage⟩) :
    Invariant stepId ((s.withDb db').setStage r stage) where
  history := h.history.keeps hkeep.toKeeps
  tokensNodup := by
    have htokens : (s.runners.map fun q => if q.token = r.token then { q with stage } else q).map
        (·.token) = s.runners.map (·.token) := by
      rw [List.map_map]
      refine List.map_congr_left fun q _ => ?_
      simp only [Function.comp_apply]
      split <;> rfl
    exact htokens ▸ h.tokensNodup
  tokens q hq := by
    obtain ⟨q', hq', rfl⟩ := List.mem_map.mp hq
    split <;> exact h.tokens q' hq'
  lease := h.lease_of_token hkeep
  runner q hq := by
    obtain ⟨q', hq', rfl⟩ := List.mem_map.mp hq
    split
    · next htoken =>
      have hok := hstage q'.worker
      rw [← htoken] at hok
      exact hok
    · next hne => exact h.others hkeep howner hq' hne

/-- Rows that change under no runner's lease, or with every call still held. -/
theorem withDb (h : Invariant stepId s) (hkeep : Preserves stepId s.sentIds s.db db')
    (hrunner : ∀ q ∈ s.runners, RunnerOk db' s.sentIds q) : Invariant stepId (s.withDb db') where
  history := h.history.keeps hkeep.toKeeps
  tokensNodup := h.tokensNodup
  tokens := h.tokens
  lease := h.lease_of_token hkeep
  runner := hrunner

/-! ### The actions -/

private theorem mem_of_runner? {token : UUID} (h : s.runner? token = some r) :
    r ∈ s.runners ∧ r.token = token := by
  refine ⟨List.mem_of_find?_eq_some h, ?_⟩
  simpa using List.find?_some h

private theorem endRunner_self (h : Invariant stepId s) : Invariant stepId (s.endRunner r) :=
  h.endRunner (.refl h.history.static h.history.phase) (.inl rfl)

theorem prepare (h : Invariant stepId s) (env : PrepareEnv) (now : Time) :
    Invariant stepId (s.prepare r stepId env now) := by
  unfold Session.prepare
  split
  · next p db hprepare =>
    obtain ⟨hkeep, howner, hfacts⟩ := prepare_preserves s.sentIds h.history.static
      h.history.phase hprepare
    obtain hp := hfacts p rfl
    refine h.setStage hkeep howner fun worker => ⟨?_, ?_, fun q hq => by cases hq⟩
    · rintro q ⟨⟩
      exact ⟨hp.token, hp.defer, hp.material, hp.row, fun _ _ => hp.holds⟩
    · -- The ToolCall is new, and every sent call has a row already.
      rintro q ⟨⟩ - hsent
      obtain ⟨c, hc, hid⟩ := List.mem_map.mp hsent
      obtain ⟨p', rfl, -, d, hd, hdid, -⟩ := h.history.sentCall c hc
      exact hp.fresh d hd (hdid.trans hid)
  · next o db hprepare =>
    obtain ⟨hkeep, howner, -⟩ := prepare_preserves s.sentIds h.history.static
      h.history.phase hprepare
    exact h.endRunner hkeep howner
  · exact h.endRunner_self

/-- A refusal before the gate. -/
theorem refuse (h : Invariant stepId s) (hr : r ∈ s.runners) {p : PreparedCall}
    (hstage : r.stage = .prepared p) (errorCode : String) :
    Invariant stepId (s.setStage r (.refusing p errorCode)) := by
  have hok := (h.runner r hr).call p (by rw [hstage]; rfl)
  refine h.setStage (.refl h.history.static h.history.phase) (.inl rfl) fun worker => ⟨?_, ?_, ?_⟩
  · rintro q ⟨⟩
    exact hok
  · rintro q ⟨⟩
  · rintro q ⟨⟩

theorem gate (h : Invariant stepId s) (hr : r ∈ s.runners) {p : PreparedCall}
    (hstage : r.stage = .prepared p) (verdict : Option String) (now : Time) :
    Invariant stepId (s.gate r p verdict now) := by
  have hok := (h.runner r hr).call p (by rw [hstage]; rfl)
  unfold Session.gate
  split
  · next db hgate =>
    obtain ⟨-, -, ⟨o, ho⟩ | ⟨rfl, htoken⟩⟩ := finalPreSendGate_preserves s.sentIds
      h.history.static h.history.phase hok.defer hgate
    · cases ho
    rw [hok.leaseToken] at htoken
    have hfresh := (h.runner r hr).unsent p hstage htoken
    have hids : (s.sent ++ [sentCall p]).map (·.toolCallId) = s.sentIds ++ [p.toolCallId] := by
      rw [List.map_append]
      rfl
    have hmoved : Invariant stepId ((s.withDb s.db).setStage r (.refusing p "")) :=
      h.refuse hr hstage ""
    refine ⟨h.history.send hok.material hok.row hfresh, ?_, ?_, h.lease, ?_⟩
    · have htokens := hmoved.tokensNodup
      simp only [Session.setStage, Session.withDb, List.map_map] at htokens ⊢
      refine (List.map_congr_left fun q _ => ?_) ▸ htokens
      simp only [Function.comp_apply]
      split <;> rfl
    · intro q hq
      obtain ⟨q', hq', rfl⟩ := List.mem_map.mp hq
      split <;> exact h.tokens q' hq'
    · intro q hq
      obtain ⟨q', hq', rfl⟩ := List.mem_map.mp hq
      have hgoal : ∀ x, RunnerOk s.db (s.sentIds ++ [p.toolCallId]) x →
          RunnerOk s.db ((s.sent ++ [sentCall p]).map (·.toolCallId)) x := by
        intro x hx
        rwa [hids]
      refine hgoal _ ?_
      split
      · next hq't =>
        refine ⟨?_, ?_, ?_⟩
        · rintro x ⟨⟩
          exact hq't.symm ▸ hok
        · rintro x ⟨⟩
        · rintro x ⟨⟩
          exact List.mem_append_right _ (List.mem_singleton_self _)
      · next hne =>
        refine (h.runner q' hq').send fun hq't => hne ?_
        exact Option.some.inj (hq't.symm.trans htoken)
  · next errorCode db hgate =>
    obtain ⟨-, -, ⟨o, ho⟩ | ⟨rfl, -⟩⟩ := finalPreSendGate_preserves s.sentIds
      h.history.static h.history.phase hok.defer hgate
    · cases ho
    · exact h.refuse hr hstage errorCode
  · next o db hgate =>
    obtain ⟨hkeep, howner, -⟩ := finalPreSendGate_preserves s.sentIds h.history.static
      h.history.phase hok.defer hgate
    rw [hok.leaseToken] at howner
    exact h.endRunner hkeep howner
  · exact h.endRunner_self

theorem finalize (h : Invariant stepId s) (hr : r ∈ s.runners) {p : PreparedCall}
    (hstage : r.stage.call? = some p) {callEnd : CallEnd}
    (hids : callEnd.callError = none → p.toolCallId ∈ s.sentIds)
    (pinned : Except AppError PinnedToolPolicy) (now : Time) :
    Invariant stepId (s.finalize r p callEnd pinned now) := by
  have hok := (h.runner r hr).call p hstage
  have hholds : s.db.execution.leaseToken = some p.leaseToken → InFlight s.db → Holds s.db p := by
    rw [hok.leaseToken]
    exact hok.holds
  unfold Session.finalize
  split
  · next o db hfinalize =>
    obtain ⟨hkeep, htoken⟩ := finalizeLocked_preserves s.sentIds h.history.static
      h.history.phase hok.defer hholds hids hfinalize
    rw [hok.leaseToken] at htoken
    split
    · exact h.setStage hkeep (.inr htoken) fun worker => .preparing worker r.token
    · exact h.endRunner hkeep (.inr htoken)
  · exact h.endRunner_self

theorem inputRequired (h : Invariant stepId s) (hr : r ∈ s.runners) {p : PreparedCall}
    (hstage : r.stage = .inFlight p) (mrtr : InputRequired) (requestId : UUID) (now : Time) :
    Invariant stepId (s.inputRequired r p mrtr requestId now) := by
  have hok := (h.runner r hr).call p (by rw [hstage]; rfl)
  have hholds : s.db.execution.leaseToken = some p.leaseToken → InFlight s.db → Holds s.db p := by
    rw [hok.leaseToken]
    exact hok.holds
  unfold Session.inputRequired
  split
  · next o db hfinalize =>
    obtain ⟨hkeep, htoken⟩ := finalizeInputRequired_preserves s.sentIds h.history.static
      h.history.phase hok.defer hholds ((h.runner r hr).sent p hstage) hfinalize
    rw [hok.leaseToken] at htoken
    exact h.endRunner hkeep (.inr htoken)
  · exact h.endRunner_self

/-- The calls in flight keep their rows when the rows of calls and Attempts do not change. -/
private theorem runners_of_holds (h : Invariant stepId s)
    (hkeep : Preserves stepId s.sentIds s.db db')
    (hholds : ∀ p, InFlight db' → InFlight s.db ∧ (Holds s.db p → Holds db' p)) :
    ∀ q ∈ s.runners, RunnerOk db' s.sentIds q := by
  intro q hq
  have hok := h.runner q hq
  have htoken (ht : db'.execution.leaseToken = some q.token) :
      s.db.execution.leaseToken = some q.token := by
    rcases hkeep.token with h | h <;> rw [h] at ht
    · exact ht
    · cases ht
  refine ⟨fun p hp => ?_, fun p hp ht => hok.unsent p hp (htoken ht), hok.sent⟩
  have hcall := hok.call p hp
  refine ⟨hcall.leaseToken, hcall.defer, hcall.material.mono hkeep.toKeeps,
    hcall.row.mono hkeep.toKeeps, fun ht hflight => ?_⟩
  obtain ⟨hflight', hheld⟩ := hholds p hflight
  exact hheld (hcall.holds (htoken ht) hflight')

theorem renew (h : Invariant stepId s) (leaseSeconds : ℕ) (worker : String) (token : UUID)
    (now : Time) :
    Invariant stepId (s.withDb (s.db.commit (renewLease leaseSeconds worker token now s.db))) := by
  cases hrenew : renewLease leaseSeconds worker token now s.db with
  | error e => exact h
  | ok result =>
    obtain ⟨⟨⟩, db⟩ := result
    obtain ⟨hrunning, e, rfl, hid, hstatus, htoken⟩ := renewLease_ok hrenew
    have hkeep : Preserves stepId s.sentIds s.db (s.db.putExecution e) :=
      .putExecution h.history.static h.history.phase hid hstatus htoken (by simp [hrunning])
    exact h.withDb hkeep (h.runners_of_holds hkeep fun p _ => ⟨.inl hrunning, fun hp => hp⟩)

/-- Without an Execution in flight no runner holds a call. -/
private theorem runners_of_ended (h : Invariant stepId s)
    (hkeep : Preserves stepId s.sentIds s.db db') (hended : ¬ InFlight db') :
    ∀ q ∈ s.runners, RunnerOk db' s.sentIds q :=
  h.runners_of_holds hkeep fun _ hflight => absurd hflight hended

theorem submit (h : Invariant stepId s) (requestId : UUID) (actor : Actor)
    (responses : List (String × Json.Value)) (resumeLineage : Except AppError Unit) (now : Time) :
    Invariant stepId (s.submit requestId actor responses resumeLineage now) := by
  unfold Session.submit
  split
  · next outcome db hsubmit =>
    have hkeep := submitResponse_preserves s.sentIds h.history.static h.history.phase
      hsubmit
    obtain ⟨-, ⟨henqueued, rfl⟩ |
      ⟨henqueued, hwait, request, accepted, hfind, hopen, -, rfl⟩⟩ := submitResponse_ok hsubmit
    · rw [if_neg (by simp [henqueued])]
      exact h
    rw [if_pos henqueued]
    have hended : ¬ InFlight (s.db.putInputRequest
        (acceptedAnswer request accepted actor.id now)) := by
      rintro (hf | hf) <;> simp [hwait] at hf
    have hrows := h.withDb hkeep (h.runners_of_ended hkeep hended)
    have hmem := Table.mem_of_find? hfind
    have hid := Table.key_of_find? hfind
    refine { hrows with history := { hrows.history with outboxNodup := ?_, outbox := ?_ } }
    · -- An enqueued request is ANSWERED; this one was OPEN.
      refine List.nodup_append.mpr ⟨h.history.outboxNodup, List.nodup_singleton _, ?_⟩
      intro a ha b hb hab
      rw [hab, List.mem_singleton.mp hb] at ha
      obtain ⟨q, hq, hqid, hans⟩ := h.history.outbox requestId ha
      rw [Table.eq_of_key_eq hq hmem (hqid.trans hid.symm), hopen] at hans
      cases hans
    · intro rid hrid
      rcases List.mem_append.mp hrid with hrid | hrid
      · exact hrows.history.outbox rid hrid
      · rw [List.mem_singleton.mp hrid]
        exact ⟨_, Table.mem_put_self hmem rfl, hid, rfl⟩
  · exact h

theorem reject (h : Invariant stepId s) (requestId : UUID) (actor : Actor)
    (resumeLineage : Except AppError Unit) (now : Time) : Invariant stepId
      (s.withDb (s.db.commit (Mrtr.reject resumeLineage requestId actor now s.db))) := by
  cases hreject : Mrtr.reject resumeLineage requestId actor now s.db with
  | error e => exact h
  | ok result =>
    obtain ⟨⟨⟩, db⟩ := result
    have hkeep := reject_preserves s.sentIds h.history.static h.history.phase hreject
    rcases reject_ok hreject with rfl | ⟨-, request, attempt, step, -, -, -, -, rfl⟩
    · exact h
    · refine h.withDb hkeep (h.runners_of_ended hkeep ?_)
      rintro (hf | hf) <;> simp [applyReject] at hf

theorem cancel (h : Invariant stepId s) (requestedBy : Option UUID) (now : Time) :
    Invariant stepId (s.withDb (s.db.commit (applyCancellation now requestedBy s.db))) := by
  cases hcancel : applyCancellation now requestedBy s.db with
  | error e => exact h
  | ok result =>
    obtain ⟨outcome, db⟩ := result
    obtain ⟨hkeep, hcalls, hflight⟩ := applyCancellation_preserves s.sentIds
      h.history.static h.history.phase hcancel
    have hev := Db.Evolves.applyCancellation hcancel
    refine h.withDb hkeep (h.runners_of_holds hkeep fun p hf => ⟨hflight hf, ?_⟩)
    rintro ⟨a, ha, hid, c, hc, hcid, hac, hstarted⟩
    obtain ⟨a', ha', hrel⟩ := hev.attempts.exists_mem ha
    exact ⟨a', ha', hrel.id.trans hid, c, hcalls ▸ hc, hcid, hac.trans hrel.id.symm, hstarted⟩

theorem deliver (h : Invariant stepId s) (requestId : UUID) (env : ResumeEnv) (now : Time)
    (hfresh : env.leaseToken ∉ s.tokens) : Invariant stepId (s.deliver requestId env now) := by
  unfold Session.deliver
  split
  · next outcome db hclaim =>
    obtain ⟨hkeep, hrefused, hresumed⟩ := claim_keeps s.sentIds h.history.static
      h.history.phase hclaim
    split
    · next hclaimed =>
      obtain ⟨hrunning, htoken, q, hq, hqid, hans⟩ := hresumed hclaimed
      have hhistory := h.history.keeps hkeep
      refine ⟨{ hhistory with resumed := ?_ }, ?_, ?_, ?_, ?_⟩
      · intro rid hrid
        rcases List.mem_append.mp hrid with hrid | hrid
        · exact hhistory.resumed rid hrid
        · rw [List.mem_singleton.mp hrid]
          refine ⟨q, hkeep.answered q hq hans, hqid, hans, fun hw => ?_⟩
          cases hrunning.symm.trans hw
      · rw [List.map_append]
        refine List.nodup_append.mpr ⟨h.tokensNodup, List.nodup_singleton _, ?_⟩
        intro a ha b hb hab
        rw [hab, List.mem_singleton.mp hb] at ha
        obtain ⟨r, hr, hrt⟩ := List.mem_map.mp ha
        have hmem := h.tokens r hr
        rw [hrt] at hmem
        exact hfresh hmem
      · intro r hr
        rcases List.mem_append.mp hr with hr | hr
        · exact List.mem_append_left _ (h.tokens r hr)
        · rw [List.mem_singleton.mp hr]
          exact List.mem_append_right _ (List.mem_singleton_self _)
      · intro t ht
        have heq : some env.leaseToken = some t := htoken.symm.trans ht
        exact List.mem_append_right _ (List.mem_singleton.mpr (Option.some.inj heq).symm)
      · intro r hr
        rcases List.mem_append.mp hr with hr | hr
        · -- The lease of the resumed Execution belongs to no earlier runner.
          refine (h.runner r hr).mono hkeep fun ht => absurd (h.tokens r hr) ?_
          rwa [← Option.some.inj (htoken.symm.trans ht)]
        · rw [List.mem_singleton.mp hr]
          exact .preparing _ _
    · next hclaimed =>
      rcases hrefused (by simpa using hclaimed) with rfl | ⟨-, hfailed, hcleared⟩
      · exact h
      · have hkeep' : Preserves stepId s.sentIds s.db db := ⟨hkeep, .inr hcleared⟩
        refine h.withDb hkeep' (h.runners_of_ended hkeep' ?_)
        rintro (hf | hf) <;> simp [hfailed] at hf
  · exact h

/-- Every action keeps the invariant. -/
theorem step (h : Invariant stepId s) {action : Action} (hstep : s.step stepId action = some s') :
    Invariant stepId s' := by
  cases action with
  | prepare token env now =>
    rw [Session.step] at hstep
    split at hstep
    swap
    · cases hstep
    next r hfound =>
    have hr := (mem_of_runner? hfound).1
    split at hstep
    · cases hstep
      exact h.prepare env now
    · cases hstep
  | secretsUnavailable token errorCode =>
    rw [Session.step] at hstep
    split at hstep
    swap
    · cases hstep
    next r hfound =>
    have hr := (mem_of_runner? hfound).1
    split at hstep
    · next p hstage =>
      cases hstep
      exact h.refuse hr hstage errorCode
    · cases hstep
  | gate token verdict now =>
    rw [Session.step] at hstep
    split at hstep
    swap
    · cases hstep
    next r hfound =>
    have hr := (mem_of_runner? hfound).1
    split at hstep
    · next p hstage =>
      cases hstep
      exact h.gate hr hstage verdict now
    · cases hstep
  | finalizeRefused token pinned now =>
    rw [Session.step] at hstep
    split at hstep
    swap
    · cases hstep
    next r hfound =>
    have hr := (mem_of_runner? hfound).1
    split at hstep
    · next p errorCode hstage =>
      cases hstep
      exact h.finalize hr (by rw [hstage]; rfl) (fun hnone => by cases hnone) pinned now
    · cases hstep
  | finalize token callEnd pinned now =>
    rw [Session.step] at hstep
    split at hstep
    swap
    · cases hstep
    next r hfound =>
    have hr := (mem_of_runner? hfound).1
    split at hstep
    · next p hstage =>
      split at hstep
      · cases hstep
        exact h.finalize hr (by rw [hstage]; rfl) (fun _ => (h.runner r hr).sent p hstage) pinned
          now
      · cases hstep
    · cases hstep
  | inputRequired token mrtr requestId now =>
    rw [Session.step] at hstep
    split at hstep
    swap
    · cases hstep
    next r hfound =>
    have hr := (mem_of_runner? hfound).1
    split at hstep
    · next p hstage =>
      cases hstep
      exact h.inputRequired hr hstage mrtr requestId now
    · cases hstep
  | renew token leaseSeconds now =>
    rw [Session.step] at hstep
    split at hstep
    swap
    · cases hstep
    next r hfound =>
    have hr := (mem_of_runner? hfound).1
    cases hstep
    exact h.renew leaseSeconds r.worker token now
  | submit requestId actor responses resumeLineage now =>
    cases hstep
    exact h.submit requestId actor responses resumeLineage now
  | reject requestId actor resumeLineage now =>
    cases hstep
    exact h.reject requestId actor resumeLineage now
  | cancel requestedBy now =>
    cases hstep
    exact h.cancel requestedBy now
  | deliver requestId env now =>
    rw [Session.step] at hstep
    split at hstep
    · next hpossible =>
      cases hstep
      exact h.deliver requestId env now hpossible.2
    · cases hstep

/-- A session starts with the invariant. -/
theorem of_initial (h : Session.Initial stepId s) : Invariant stepId s := by
  obtain ⟨step, hrows, hid, hready⟩ := h.step
  obtain ⟨r, hrunners, hstage, hlease, htokens⟩ := h.runner
  have hnoAttempt (a : StepAttempt) : a ∉ s.db.attempts := by
    rw [Table.mem_def, h.attempts]
    exact List.not_mem_nil
  have hnoCall (c : ToolCall) : c ∉ s.db.toolCalls := by
    rw [Table.mem_def, h.toolCalls]
    exact List.not_mem_nil
  have hnoRequest (q : McpInputRequest) : q ∉ s.db.inputRequests := by
    rw [Table.mem_def, h.inputRequests]
    exact List.not_mem_nil
  have hrunning : Running s.db :=
    .of_idle (fun q hq => absurd hq (hnoRequest q)) (fun c hc => absurd hc (hnoCall c))
      fun a ha => absurd ha (hnoAttempt a)
  refine ⟨⟨⟨⟨step, hrows, hid⟩, ?_, ?_, ?_, ?_, ?_, ?_⟩, .of_running (.inl h.status) hrunning, ?_,
    ?_, ?_, ?_, ?_, ?_⟩, ?_, ?_, ?_, ?_⟩
  · exact fun a ha => absurd ha (hnoAttempt a)
  · exact fun c hc => absurd hc (hnoCall c)
  · exact fun q hq => absurd hq (hnoRequest q)
  · exact fun a ha => absurd ha (hnoAttempt a)
  · exact fun a ha => absurd ha (hnoAttempt a)
  · exact fun q hq => absurd hq (hnoRequest q)
  · simp [h.sent]
  · simp [h.sent]
  · exact fun c hc => absurd hc (hnoCall c)
  · simp [h.outbox]
  · simp [h.outbox]
  · simp [h.resumed]
  · simp [hrunners]
  · simp [hrunners, htokens]
  · intro t ht
    rw [hlease] at ht
    simp [htokens, Option.some.inj ht]
  · intro q hq
    rw [hrunners] at hq
    rw [List.mem_singleton.mp hq]
    refine ⟨fun p hp => ?_, fun p hp => ?_, fun p hp => ?_⟩
    · simp [hstage, RunnerStage.call?] at hp
    · simp [hstage] at hp
    · simp [hstage] at hp

end Invariant

end McpFlow.Mrtr
