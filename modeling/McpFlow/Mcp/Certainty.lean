import McpFlow.Execution.ToolRunner
import McpFlow.Mcp.Client

/-!
# The certainty of an outcome

A failed `tools/call` may say that its outcome is known only when the client knows that the tool
was not called. `OutcomeCertain` states this for one call, down to the rows that the runner commits
for it; `outcomeCertain_iff` says on which exchanges the client keeps it.
-/

namespace McpFlow

/-! ### What the runner commits -/

/-- An unknown outcome of an unsafe tool is classified as one. -/
theorem classifyMcpFailure_unknown {e : McpClientError} {risk : RiskClass}
    (he : e.outcomeUnknown = true) (hrisk : risk.isSafe = false) :
    classifyMcpFailure e risk = .unknownOutcome := by
  simp [classifyMcpFailure, he, hrisk]

theorem decideSafeTransientRetry_unknown (callError : Option McpClientError) (risk : RiskClass)
    (step : ExecutionStep) (maxAttempts : ℕ) (hasBackoffPolicy : Bool) (now : Time) :
    decideSafeTransientRetry callError .unknownOutcome risk step maxAttempts hasBackoffPolicy now =
      false := by
  cases callError <;> rfl

/-- The rows of the call are UNKNOWN_OUTCOME, and the Execution is to fail. -/
structure CommittedUnknown (p : PreparedCall) (outcome : ToolRunOutcome) (db : Db) : Prop where
  step : ∃ s, db.steps.find? p.stepId = some s ∧ s.status = .unknownOutcome
  attempt : ∃ a, db.attempts.find? p.attemptId = some a ∧ a.status = .unknownOutcome
  toolCall : ∃ c, db.toolCalls.find? p.toolCallId = some c ∧ c.normalizedStatus = .unknownOutcome
  disposition : outcome.disposition = .fatalExecutionFailure

/-- A call whose outcome is unknown is committed as such when its tool is unsafe: whatever the
pinned retry budget is, it is not retried. -/
theorem finalizeLocked_unknown {policy : PinnedToolPolicy} {p : PreparedCall} {e : McpClientError}
    {now : Time} {db db' : Db} {outcome : ToolRunOutcome} (hsent : e.preSend = false)
    (he : e.outcomeUnknown = true) (hrisk : (policy.riskClass.getD p.riskClass).isSafe = false)
    (h : finalizeLocked (.ok policy) p (.error e) now db = .ok (outcome, db')) :
    CommittedUnknown p outcome db' := by
  have hclass := classifyMcpFailure_unknown he hrisk
  have hterminal : CallEnd.terminal (policy.riskClass.getD p.riskClass) (.error e) =
      .unknownOutcome := by
    simp [CallEnd.terminal, hsent, hclass]
  have hfatal : CallEnd.disposition (policy.riskClass.getD p.riskClass) (.error e) =
      .fatalExecutionFailure := by
    simp [CallEnd.disposition, CallEnd.isFatal, hterminal]
  unfold finalizeLocked at h
  split at h
  · cases h
  next step attempt toolCall hfence =>
  obtain ⟨-, hstep, hattempt, hcall, -, -⟩ := finalizeFence_some hfence
  -- Neither branch of the retry decision leads to a retry, so the terminal transition is left.
  have h : finalizeTerminal p (.error e) step attempt toolCall
      (policy.riskClass.getD p.riskClass) now db = .ok (outcome, db') := by
    dsimp only at h
    split at h
    · exact h
    next e' he' =>
    have hsame : e' = e := by
      have hcall : (CallEnd.error e).callError = some e' := (Option.filter_eq_some_iff.mp he').1
      exact (Option.some.inj hcall).symm
    subst hsame
    rw [hclass, decideSafeTransientRetry_unknown] at h
    exact h
  unfold finalizeTerminal at h
  simp only [hfatal, ne_eq, not_true_eq_false, false_and, and_false, if_false] at h
  cases h
  refine ⟨?_, ?_, ?_, rfl⟩
  · rw [steps_applyTerminalTransition, Table.find?_put_of_find? hstep]
    · exact ⟨_, rfl, congrArg StepAttemptStatus.toStep hterminal⟩
    · rfl
  · rw [attempts_applyTerminalTransition, Table.find?_put_of_find? hattempt]
    · exact ⟨_, rfl, hterminal⟩
    · rfl
  · rw [toolCalls_applyTerminalTransition, Table.find?_put_of_find? hcall]
    · exact ⟨_, rfl, hterminal⟩
    · rfl

namespace Mcp

open Json (Value)

section Client

variable (wellFormed : Value → Bool) (http : HttpRequest → Exchange) (loads : List UInt8 → Decoded)
  (args : CallArgs)

/-! ### What the client knows -/

/-- The payload is a JSON-RPC error that answers the request, with a well-formed error object. -/
def isJsonrpcError (requestId : String) (payload : Value) : Bool :=
  payload.isObj && payload.getD "jsonrpc" == .str "2.0" && payload.getD "id" == .str requestId &&
    !payload.hasKey "result" && (payload.get? "error").any fun error =>
      error.isObj && wellFormed error

/-- The client knows that the tool was not called: the call was refused, the request never left, or
the server answered with a 4xx or with a JSON-RPC error. -/
def provesNotCalled : Bool :=
  args.refused || match http args.request with
    | .unsent _ => true
    | .unanswered _ => false
    | .answered statusCode chunks broken =>
      (400 ≤ statusCode && statusCode < 500) || (statusCode < 400 && broken.isNone &&
        match loads chunks.flatten with
        | .value payload => isJsonrpcError wellFormed args.remoteRequestId payload
        | .valueError | .recursionError => false)

/-- Every failure that leaves it open whether the tool was called is reported with an unknown
outcome, and committed as one when the tool is unsafe. -/
def OutcomeCertain : Prop :=
  ∀ f, callTool http loads args = .error f → provesNotCalled wellFormed http loads args = false →
    ∃ e, f = .mcp e ∧ e.outcomeUnknown = true ∧
      ∀ (policy : PinnedToolPolicy) (p : PreparedCall) (now : Time) (db db' : Db)
        (outcome : ToolRunOutcome), (policy.riskClass.getD p.riskClass).isSafe = false →
        finalizeLocked (.ok policy) p (.error e) now db = .ok (outcome, db') →
          CommittedUnknown p outcome db'

/-! ### Where the client keeps it -/

/-- An exception that `_map_transport_error` takes for one of sending or of reading. -/
def HttpException.inTransit (e : HttpException) : Bool :=
  e.isInstance .readTimeout || e.isInstance .writeTimeout || e.isInstance .readError ||
    e.isInstance .writeError

/-- A timeout or a failure of the network. -/
def HttpException.ofNetwork (e : HttpException) : Bool :=
  e.isInstance .timeoutException || e.isInstance .networkError

/-- The body is longer than the limit. -/
def CallArgs.oversize (chunks : List (List UInt8)) : Bool :=
  args.maxResultBytes.any (· < chunks.flatten.length)

/-- The exchanges whose failure the client reports with the right certainty. An exception outside
the mapped families, a document nested too deeply and an ill-formed error object are left out. -/
def ExchangeFits : Exchange → Bool
  | .unsent _ => true
  | .unanswered e => e.1.inTransit
  | .answered statusCode chunks broken =>
    (400 ≤ statusCode && statusCode < 500) || args.oversize chunks || match broken with
      | some e => e.1.ofNetwork
      | none => 500 ≤ statusCode || match loads chunks.flatten with
        | .valueError => true
        | .recursionError => false
        | .value payload => !isJsonrpcError (fun _ => true) args.remoteRequestId payload ||
            isJsonrpcError wellFormed args.remoteRequestId payload

variable {wellFormed http loads args}

/-- The certainty of a transport failure after the request may have left. -/
theorem mapTransportError_outcomeUnknown (e : LateException) (requestSent : Bool) :
    (mapTransportError e.1 requestSent).outcomeUnknown =
      (e.1.inTransit || (requestSent && e.1.ofNetwork)) := by
  obtain ⟨e, he⟩ := e
  cases e <;> cases requestSent <;> first | rfl | exact absurd he (by decide)

/-- The loop returns the bytes of all chunks, unless they are too many. -/
theorem readBody_eq (limit : Option ℕ) (chunks : List (List UInt8)) (raw : List UInt8)
    (hraw : limit.any (· < raw.length) = false) :
    readBody limit raw chunks =
      if limit.any (· < (raw ++ chunks.flatten).length) then .error resultTooLarge
      else .ok (raw ++ chunks.flatten) := by
  induction chunks generalizing raw with
  | nil => simp [readBody, hraw]
  | cons chunk chunks ih =>
    by_cases hempty : chunk.isEmpty = true
    · have hnil : chunk = [] := List.isEmpty_iff.mp hempty
      subst hnil
      simpa [readBody] using ih raw hraw
    have hcons : readBody limit raw (chunk :: chunks) =
        if limit.any (· < (raw ++ chunk).length) then .error resultTooLarge
        else readBody limit (raw ++ chunk) chunks := by
      rw [readBody, if_neg hempty]
    by_cases hlimit : limit.any (· < (raw ++ chunk).length) = true
    · -- The loop stops here, and the rest of the body only makes it longer.
      have hlonger : limit.any (· < (raw ++ (chunk :: chunks).flatten).length) = true := by
        cases limit with
        | none => simp at hlimit
        | some n =>
          simp only [Option.any_some, List.length_append, decide_eq_true_eq, List.flatten_cons]
            at hlimit ⊢
          omega
      rw [hcons, if_pos hlimit, if_pos hlonger]
    · rw [hcons, if_neg hlimit, ih (raw ++ chunk) (by simpa using hlimit), List.flatten_cons, List.append_assoc]

/-- The envelope check refuses a payload with an unknown outcome, or passes it on as it is. -/
theorem validateJsonrpcEnvelope_cases (payload : Value) (requestId : String) :
    (∃ errorCode, validateJsonrpcEnvelope payload requestId = .error (malformed errorCode) ∧
      isJsonrpcError (fun _ => true) requestId payload = false) ∨
    (validateJsonrpcEnvelope payload requestId = .ok payload ∧
      isJsonrpcError (fun _ => true) requestId payload = !(payload.getD "error").isNull) := by
  unfold validateJsonrpcEnvelope isJsonrpcError
  by_cases hobj : payload.isObj = true
  swap
  · exact .inl ⟨"MCP_INVALID_JSONRPC", by simp [hobj], by simp [hobj]⟩
  by_cases hversion : payload.getD "jsonrpc" = .str "2.0"
  swap
  · exact .inl ⟨"MCP_INVALID_JSONRPC", by simp [hobj, hversion], by simp [hversion]⟩
  by_cases hid : payload.getD "id" = .str requestId
  swap
  · exact .inl ⟨"MCP_INVALID_JSONRPC", by simp [hobj, hversion, hid], by simp [hid]⟩
  simp only [hobj, hversion, hid]
  cases herror : payload.get? "error" with
  | none =>
    cases hresult : payload.get? "result" <;> simp [Value.hasKey, Value.getD, herror, hresult]
  | some error =>
    cases hresult : payload.get? "result" <;> cases error <;>
      simp [Value.hasKey, Value.getD, herror, hresult, Value.isObj, Value.members?, Value.isNull]

/-- No result of a `tools/call` is an error of the server. -/
theorem normalizeResult_error {result : Value} {n : ℕ} {e : McpClientError}
    (h : normalizeResult result n = .error e) : ∃ errorCode, e = malformed errorCode := by
  unfold normalizeResult at h
  split at h
  · exact ⟨_, (Except.error.inj h).symm⟩
  split at h
  · unfold normalizeInputRequired at h
    split at h
    · exact ⟨_, (Except.error.inj h).symm⟩
    split at h
    · exact ⟨_, (Except.error.inj h).symm⟩
    split at h
    · exact ⟨_, (Except.error.inj h).symm⟩
    · exact ⟨_, (Except.error.inj h).symm⟩
    · cases h
  dsimp only at h
  split at h
  · exact ⟨_, (Except.error.inj h).symm⟩
  split at h
  · exact ⟨_, (Except.error.inj h).symm⟩
  · cases h

/-- A body without an error status fails in two ways: as the JSON-RPC error it is, or as one that
says nothing of the tool. -/
theorem readPayload_error {requestId : String} {n : ℕ} {payload : Value} {e : McpClientError}
    (h : readPayload requestId n payload = .error e) :
    (isJsonrpcError (fun _ => true) requestId payload = true ∧
      e = clientError "PROTOCOL" "MCP_JSONRPC_ERROR" false false) ∨
    (isJsonrpcError (fun _ => true) requestId payload = false ∧
      ∃ errorCode, e = malformed errorCode) := by
  unfold readPayload at h
  rcases validateJsonrpcEnvelope_cases payload requestId with ⟨code, hcheck, herror⟩ |
    ⟨hcheck, herror⟩
  · rw [hcheck] at h
    exact .inr ⟨herror, code, (Except.error.inj h).symm⟩
  · rw [hcheck] at h
    rw [herror]
    dsimp only at h
    split at h
    · next hnull => exact .inl ⟨hnull, (Except.error.inj h).symm⟩
    · next hnull => exact .inr ⟨by simpa using hnull, normalizeResult_error h⟩

/-- A JSON-RPC error fails the call with a known outcome. -/
theorem readPayload_of_isJsonrpcError {requestId : String} {payload : Value} (n : ℕ)
    (h : isJsonrpcError (fun _ => true) requestId payload = true) :
    readPayload requestId n payload =
      .error (clientError "PROTOCOL" "MCP_JSONRPC_ERROR" false false) := by
  unfold readPayload
  rcases validateJsonrpcEnvelope_cases payload requestId with ⟨code, hcheck, herror⟩ |
    ⟨hcheck, herror⟩
  · rw [h] at herror
    cases herror
  · rw [hcheck]
    exact if_pos (herror.symm.trans h)

theorem mapTransportError_preSend (e : HttpException) (requestSent : Bool) :
    (mapTransportError e requestSent).preSend = false := by
  unfold mapTransportError
  split_ifs <;> rfl

/-- A failure of sending or of reading is a timeout or a failure of the network. -/
theorem HttpException.ofNetwork_of_inTransit {e : HttpException} (h : e.inTransit = true) :
    e.ofNetwork = true := by
  revert h
  cases e <;> decide

/-- A server error is reported with an unknown outcome. -/
theorem mapHttpError_server {statusCode : ℕ} (h : 500 ≤ statusCode) :
    mapHttpError statusCode true = clientError "NETWORK" "MCP_HTTP_SERVER_ERROR" true true := by
  rw [mapHttpError, if_neg (by omega), if_neg (by omega)]

/-! ### The case analysis -/

/-- The failure `f` is reported with an unknown outcome, after the call was sent. -/
def ReportsUnknown (f : CallFailure) : Prop :=
  ∃ e, f = .mcp e ∧ e.outcomeUnknown = true ∧ e.preSend = false

/-- The call keeps the certainty of its outcome and `fits`, or neither. -/
def Dichotomy (wellFormed : Value → Bool) (http : HttpRequest → Exchange)
    (loads : List UInt8 → Decoded) (args : CallArgs) (fits : Bool) : Prop :=
  (fits = true ∧ ∀ f, callTool http loads args = .error f →
      provesNotCalled wellFormed http loads args = false → ReportsUnknown f) ∨
    (fits = false ∧ ∃ f, callTool http loads args = .error f ∧
      provesNotCalled wellFormed http loads args = false ∧
      ∀ e, f = .mcp e → e.outcomeUnknown = false)

theorem Dichotomy.of_notCalled {fits : Bool} (hfits : fits = true)
    (h : provesNotCalled wellFormed http loads args = true) :
    Dichotomy wellFormed http loads args fits :=
  .inl ⟨hfits, fun _ _ hopen => absurd (h.symm.trans hopen) (by decide)⟩

/-- One failure decides the call. -/
theorem Dichotomy.of_failure {fits : Bool} {f : CallFailure}
    (hf : callTool http loads args = .error f)
    (hopen : provesNotCalled wellFormed http loads args = false)
    (hsent : ∀ e, f = .mcp e → e.preSend = false)
    (hfits : fits = true ↔ ReportsUnknown f) : Dichotomy wellFormed http loads args fits := by
  cases hb : fits with
  | true =>
    refine .inl ⟨rfl, fun g hg _ => ?_⟩
    rw [hf] at hg
    cases hg
    exact hfits.mp hb
  | false =>
    refine .inr ⟨rfl, f, hf, hopen, fun e he => ?_⟩
    by_contra hunknown
    have hreports : ReportsUnknown f := ⟨e, he, by simpa using hunknown, hsent e he⟩
    exact absurd (hb.symm.trans (hfits.mpr hreports)) (by decide)

theorem reportsUnknown_mcp {e : McpClientError} (hsent : e.preSend = false) :
    ReportsUnknown (.mcp e) ↔ e.outcomeUnknown = true :=
  ⟨fun ⟨_, he, hunknown, _⟩ => CallFailure.mcp.inj he ▸ hunknown, fun h => ⟨e, rfl, h, hsent⟩⟩

/-- A response whose body was read to its end, without a 4xx status. -/
theorem dichotomy_of_body {statusCode : ℕ} {chunks : List (List UInt8)}
    (hrefused : args.refused = false)
    (hx : http args.request = .answered statusCode chunks none)
    (hclient : (decide (400 ≤ statusCode) && decide (statusCode < 500)) = false)
    (hsize : args.oversize chunks = false) :
    Dichotomy wellFormed http loads args
      (ExchangeFits wellFormed loads args (.answered statusCode chunks none)) := by
  have hread : readBody args.maxResultBytes [] chunks = .ok chunks.flatten := by
    rw [readBody_eq _ _ _ (by cases args.maxResultBytes <;> simp), List.nil_append]
    exact if_neg (by simpa [CallArgs.oversize] using hsize)
  by_cases hserver : 500 ≤ statusCode
  · have h400 : 400 ≤ statusCode := by omega
    refine .of_failure (f := .mcp (mapHttpError statusCode true)) ?_ ?_ ?_ ?_
    · simp [callTool, hrefused, hx, hread, h400, hserver]
    · simp [provesNotCalled, hrefused, hx, hserver, h400]
    · rintro _ ⟨⟩
      rw [mapHttpError_server hserver]
      rfl
    · rw [mapHttpError_server hserver, reportsUnknown_mcp rfl]
      simp [ExchangeFits, hserver, clientError]
  have h400 : ¬400 ≤ statusCode := by
    simp only [Bool.and_eq_false_iff, decide_eq_false_iff_not] at hclient
    omega
  cases hloads : loads chunks.flatten with
  | valueError =>
    refine .of_failure (f := .mcp (malformed "MCP_INVALID_JSON")) ?_ ?_ ?_ ?_
    · simp [callTool, hrefused, hx, hread, h400, hloads]
    · simp [provesNotCalled, hrefused, hx, hclient, hloads]
    · rintro _ ⟨⟩
      rfl
    · rw [reportsUnknown_mcp rfl]
      simp [ExchangeFits, hloads, malformed, clientError]
  | recursionError =>
    refine .of_failure (f := .recursionError) ?_ ?_ ?_ ?_
    · simp [callTool, hrefused, hx, hread, h400, hloads]
    · simp [provesNotCalled, hrefused, hx, hclient, hloads]
    · rintro _ ⟨⟩
    · simp [ExchangeFits, hclient, hsize, hserver, hloads, ReportsUnknown]
  | value payload =>
    have hcall : callTool http loads args =
        (readPayload args.remoteRequestId chunks.flatten.length payload).mapError .mcp := by
      simp [callTool, hrefused, hx, hread, h400, hloads]
    have hopen : provesNotCalled wellFormed http loads args =
        isJsonrpcError wellFormed args.remoteRequestId payload := by
      have hlt : statusCode < 400 := by omega
      simp [provesNotCalled, hrefused, hx, hloads, h400, hlt]
    have hfits : ExchangeFits wellFormed loads args (.answered statusCode chunks none) =
        (!isJsonrpcError (fun _ => true) args.remoteRequestId payload ||
          isJsonrpcError wellFormed args.remoteRequestId payload) := by
      simp [ExchangeFits, hclient, hsize, hserver, hloads]
    rw [hfits]
    cases hany : isJsonrpcError (fun _ => true) args.remoteRequestId payload with
    | true =>
      cases hwell : isJsonrpcError wellFormed args.remoteRequestId payload with
      | true => exact .of_notCalled rfl (hopen.trans hwell)
      | false =>
        rw [readPayload_of_isJsonrpcError _ hany] at hcall
        refine .of_failure hcall (hopen.trans hwell) ?_ ?_
        · rintro _ ⟨⟩
          rfl
        · rw [reportsUnknown_mcp rfl]
          simp [clientError]
    | false =>
      -- Not an error object: a result, or a body that says nothing of the tool.
      refine .inl ⟨rfl, fun f hf _ => ?_⟩
      rw [hcall] at hf
      cases hpayload : readPayload args.remoteRequestId chunks.flatten.length payload with
      | ok result =>
        rw [hpayload] at hf
        cases hf
      | error e =>
        rw [hpayload] at hf
        cases hf
        rcases readPayload_error hpayload with ⟨h, -⟩ | ⟨-, errorCode, rfl⟩
        · rw [hany] at h
          cases h
        · exact (reportsUnknown_mcp rfl).mpr rfl

/-- Every exchange is decided. -/
theorem dichotomy (wellFormed : Value → Bool) (http : HttpRequest → Exchange)
    (loads : List UInt8 → Decoded) (args : CallArgs) :
    Dichotomy wellFormed http loads args
      (args.refused || ExchangeFits wellFormed loads args (http args.request)) := by
  cases hrefused : args.refused with
  | true => exact .of_notCalled rfl (by simp [provesNotCalled, hrefused])
  | false =>
  rw [Bool.false_or]
  cases hx : http args.request with
  | unsent e => exact .of_notCalled rfl (by simp [provesNotCalled, hx])
  | unanswered e =>
    refine .of_failure (f := .mcp (mapTransportError e.1 false)) ?_ ?_ ?_ ?_
    · simp [callTool, hrefused, hx]
    · simp [provesNotCalled, hrefused, hx]
    · rintro _ ⟨⟩
      exact mapTransportError_preSend _ _
    · rw [reportsUnknown_mcp (mapTransportError_preSend _ _), mapTransportError_outcomeUnknown]
      simp [ExchangeFits]
  | answered statusCode chunks broken =>
  cases hclient : decide (400 ≤ statusCode) && decide (statusCode < 500) with
  | true =>
    exact .of_notCalled (by simp [ExchangeFits, hclient]) (by simp [provesNotCalled, hx, hclient])
  | false =>
  cases hsize : args.oversize chunks with
  | true =>
    have hread : readBody args.maxResultBytes [] chunks = .error resultTooLarge := by
      rw [readBody_eq _ _ _ (by cases args.maxResultBytes <;> simp), List.nil_append]
      exact if_pos hsize
    refine .inl ⟨by simp [ExchangeFits, hsize], fun f hf _ => ?_⟩
    simp only [callTool, hrefused, hx, hread, Bool.false_eq_true, if_false] at hf
    cases hf
    exact (reportsUnknown_mcp rfl).mpr rfl
  | false =>
  cases broken with
  | none => exact dichotomy_of_body hrefused hx hclient hsize
  | some e =>
    have hread : readBody args.maxResultBytes [] chunks = .ok chunks.flatten := by
      rw [readBody_eq _ _ _ (by cases args.maxResultBytes <;> simp), List.nil_append]
      exact if_neg (by simpa [CallArgs.oversize] using hsize)
    refine .of_failure (f := .mcp (mapTransportError e.1 true)) ?_ ?_ ?_ ?_
    · simp [callTool, hrefused, hx, hread]
    · simp [provesNotCalled, hrefused, hx, hclient]
    · rintro _ ⟨⟩
      exact mapTransportError_preSend _ _
    · rw [reportsUnknown_mcp (mapTransportError_preSend _ _), mapTransportError_outcomeUnknown]
      cases htransit : e.1.inTransit with
      | true => simp [ExchangeFits, HttpException.ofNetwork_of_inTransit htransit]
      | false => simp [ExchangeFits, hclient, hsize]

/-- **The certainty of an outcome.** A call keeps it on the exchanges that fit, and on no other. -/
theorem outcomeCertain_iff (wellFormed : Value → Bool) (http : HttpRequest → Exchange)
    (loads : List UInt8 → Decoded) (args : CallArgs) :
    OutcomeCertain wellFormed http loads args ↔
      args.refused = true ∨ ExchangeFits wellFormed loads args (http args.request) = true := by
  rw [← Bool.or_eq_true]
  rcases dichotomy wellFormed http loads args with
    ⟨hfits, hreports⟩ | ⟨hfits, f, hf, hopen, hreports⟩
  · refine ⟨fun _ => hfits, fun _ f hf hopen => ?_⟩
    obtain ⟨e, rfl, hunknown, hsent⟩ := hreports f hf hopen
    exact ⟨e, rfl, hunknown, fun _ _ _ _ _ _ => finalizeLocked_unknown hsent hunknown⟩
  · refine ⟨fun h => ?_, fun h => absurd (hfits.symm.trans h) (by decide)⟩
    obtain ⟨e, rfl, hunknown, -⟩ := h f hf hopen
    exact absurd ((hreports e rfl).symm.trans hunknown) (by decide)

end Client

/-- A call that charges a card. -/
def chargeCard : CallArgs where
  endpoint := "https://payments.example/mcp"
  toolName := "charge_card"
  arguments := [("amount", .int 100)]
  timeoutMs := 30000
  remoteRequestId := "5f0c"
  authHeaders := []
  maxResultBytes := some 65536
  inputResponses := none
  requestState := .null
  includeMrtrResume := false

/-- The server reads the request and closes the connection without an answer. -/
theorem disconnect_reported_as_known :
    ¬OutcomeCertain (fun _ => true) (fun _ => .unanswered ⟨.remoteProtocolError, rfl⟩)
      (fun _ => .valueError) chargeCard := by
  intro h
  have hfailure : callTool (fun _ => .unanswered ⟨.remoteProtocolError, rfl⟩)
      (fun _ => .valueError) chargeCard =
        .error (.mcp (clientError "PROTOCOL" "MCP_PROTOCOL_ERROR" false false)) := by decide
  obtain ⟨e, he, hunknown, -⟩ := h _ hfailure (by decide)
  cases he
  cases hunknown

end Mcp

end McpFlow
