import McpFlow.Approval.Requests
import McpFlow.Library.Ballot
import McpFlow.Library.Text

/-!
# Votes on an approval request

`ApprovalDecisionService.decide` with its decision rows. What `Decision` takes as a verdict from
outside is computed here: the actor's permission and role scope, the stored context, self approval,
the reject comment, the one vote of an actor, and `aggregate_decision` over all of them. ANY, ALL
and QUORUM differ in two numbers and in the order of their comparisons; on an open ballot the order
does not matter, so all three are a `BallotRule`.
-/

namespace McpFlow.Approval

open Json (Value)

/-- `approval_decisions.decision`. -/
inductive ApprovalDecisionValue where
  | approve
  | reject
deriving DecidableEq, Repr

/-- `approval_decisions`. -/
structure ApprovalDecision where
  approvalRequestId : UUID
  decidedBy : UUID
  decision : ApprovalDecisionValue
  comment : Option String
  contextHash : Sha256Hex
  decidedAt : Time
deriving DecidableEq

/-- The columns of `approval_requests` that only a vote reads. They are written with the row and
never again. -/
structure ApprovalTerms where
  decisionMode : ApprovalDecisionMode
  requiredApprovals : ℕ
  approvalScope : Value
  requestedBy : UUID
  requiredApprovals_pos : 1 ≤ requiredApprovals

/-- What the user tables say of an actor. -/
structure VotingActor where
  id : UUID
  /-- The user exists and is ACTIVE. -/
  active : Bool
  /-- One of the roles grants `approval.decide`. -/
  permitted : Bool
  roleCodes : List String

/-- One call of `decide`. -/
structure Vote where
  actor : VotingActor
  decision : ApprovalDecisionValue
  comment : Option String
  /-- The hash of the context rebuilt from the current rows. -/
  currentHash : Except AppError Sha256Hex

/-! ### The aggregate -/

/-- A vote for the request. -/
def ApprovalDecision.approves (d : ApprovalDecision) : Bool := d.decision == .approve

/-- A vote against it. -/
def ApprovalDecision.rejects (d : ApprovalDecision) : Bool := d.decision == .reject

/-- `aggregate_decision`. -/
def aggregateDecision (mode : ApprovalDecisionMode) (requiredApprovals : ℕ)
    (decisions : List ApprovalDecision) : Except AppError (Option Resolution) :=
  if requiredApprovals < 1 then
    .error (conflict "ApprovalRequest.required_approvals must be >= 1.")
  else
    let approveCount := decisions.countP (·.approves)
    let rejectCount := decisions.countP (·.rejects)
    match mode with
    | .any =>
      if 1 ≤ approveCount then .ok (some .approved)
      else if 1 ≤ rejectCount then .ok (some .rejected)
      else .ok none
    | .all =>
      if 1 ≤ rejectCount then .ok (some .rejected)
      else if requiredApprovals ≤ approveCount then .ok (some .approved)
      else .ok none
    | .quorum =>
      if requiredApprovals ≤ approveCount then .ok (some .approved)
      else if requiredApprovals ≤ rejectCount then .ok (some .rejected)
      else .ok none

/-- The thresholds of the three modes. -/
def ApprovalTerms.rule (terms : ApprovalTerms) : BallotRule :=
  match terms.decisionMode with
  | .any => ⟨1, 1, Nat.one_pos, Nat.one_pos⟩
  | .all => ⟨terms.requiredApprovals, 1, terms.requiredApprovals_pos, Nat.one_pos⟩
  | .quorum => ⟨terms.requiredApprovals, terms.requiredApprovals, terms.requiredApprovals_pos,
      terms.requiredApprovals_pos⟩

theorem ApprovalDecision.not_approves (d : ApprovalDecision) : (!d.approves) = d.rejects := by
  unfold approves rejects
  cases d.decision <;> rfl

/-- The resolution of a ballot that carried, or was defeated. -/
def Resolution.ofCarried : Bool → Resolution
  | true => .approved
  | false => .rejected

/-- A resolution says what the votes are. -/
def ApprovalTerms.Counts (terms : ApprovalTerms) (decisions : List ApprovalDecision) :
    Option Resolution → Prop
  | none => terms.rule.Open (·.approves) decisions
  | some .approved => terms.rule.Carried (·.approves) decisions
  | some .rejected => terms.rule.Defeated (·.approves) decisions

/-- The aggregate compares the two counts with the thresholds of its mode; only ALL looks at the
rejections first. -/
theorem ApprovalTerms.aggregateDecision_eq (terms : ApprovalTerms)
    (decisions : List ApprovalDecision) :
    aggregateDecision terms.decisionMode terms.requiredApprovals decisions =
      .ok (((if terms.decisionMode = .all then terms.rule.vetoFirst else terms.rule.quorumFirst)
        (decisions.countP (·.approves)) (decisions.countP (!·.approves))).map .ofCarried) := by
  have hrejects : decisions.countP (!·.approves) = decisions.countP (·.rejects) :=
    congrArg (List.countP · decisions) (funext fun d => d.not_approves)
  have hpos : ¬terms.requiredApprovals < 1 := Nat.not_lt.mpr terms.requiredApprovals_pos
  rw [hrejects]
  unfold aggregateDecision BallotRule.quorumFirst BallotRule.vetoFirst rule
  rw [if_neg hpos]
  cases terms.decisionMode with
  | any =>
    simp only [reduceCtorEq, if_false]
    split_ifs <;> rfl
  | all =>
    simp only [if_true]
    split_ifs <;> rfl
  | quorum =>
    simp only [reduceCtorEq, if_false]
    split_ifs <;> rfl

/-- One vote on an open ballot is aggregated to what the ballot then is, in every mode. -/
theorem ApprovalTerms.counts_of_aggregateDecision (terms : ApprovalTerms)
    {decisions : List ApprovalDecision} {d : ApprovalDecision} {resolution : Option Resolution}
    (hopen : terms.rule.Open (·.approves) decisions)
    (h : aggregateDecision terms.decisionMode terms.requiredApprovals (decisions ++ [d]) =
      .ok resolution) : terms.Counts (decisions ++ [d]) resolution := by
  have hsays := hopen.says_quorumFirst d
  have hfirst : (if terms.decisionMode = .all then terms.rule.vetoFirst else terms.rule.quorumFirst)
      ((decisions ++ [d]).countP (·.approves)) ((decisions ++ [d]).countP (!·.approves)) =
        terms.rule.quorumFirst ((decisions ++ [d]).countP (·.approves))
          ((decisions ++ [d]).countP (!·.approves)) := by
    split
    · exact hopen.vetoFirst_eq d
    · rfl
  rw [terms.aggregateDecision_eq, hfirst] at h
  obtain rfl := Except.ok.inj h
  generalize terms.rule.quorumFirst _ _ = verdict at hsays
  rcases verdict with _ | _ | _ <;> exact hsays

/-! ### The checks -/

/-- One of the `role_codes`. -/
def normalizeRoleCode : Value → Except AppError String
  | .str code =>
    if Text.nonBlank code then .ok (Text.strip code)
    else .error (conflict
      "ApprovalRequest approval_scope.role_codes contains a blank or non-string code.")
  | _ => .error (conflict
      "ApprovalRequest approval_scope.role_codes contains a blank or non-string code.")

/-- `validate_approver_scope`, with the role codes that it returns. -/
def approverRoleCodes (scope : Value) : Except AppError (Option (List String)) :=
  match scope with
  | .null | .obj [] => .ok none
  | .obj members =>
    if !keysAre (.obj members) ["role_codes"] then
      .error (conflict "ApprovalRequest approval_scope has unsupported keys.")
    else match (Value.obj members).getD "role_codes" with
      | .arr codes =>
        if codes.isEmpty then
          .error (conflict "ApprovalRequest approval_scope.role_codes must be a non-empty list.")
        else (codes.mapM normalizeRoleCode).map some
      | _ =>
        .error (conflict "ApprovalRequest approval_scope.role_codes must be a non-empty list.")
  | _ => .error (conflict "ApprovalRequest approval_scope is malformed.")

/-- `_assert_actor_authorized`. -/
def assertActorAuthorized (actor : VotingActor) : Except AppError Unit :=
  if !actor.active then .error ⟨"AUTH_FORBIDDEN", "Actor is not an ACTIVE user."⟩
  else if !actor.permitted then .error ⟨"AUTH_FORBIDDEN", "Missing approval.decide permission."⟩
  else .ok ()

/-- The scope of the request, and `_assert_role_scope`. -/
def assertRoleScope (actor : VotingActor) (scope : Value) : Except AppError Unit :=
  match approverRoleCodes scope with
  | .error e => .error e
  | .ok none => .ok ()
  | .ok (some roleCodes) =>
    if actor.roleCodes.any roleCodes.contains then .ok ()
    else .error ⟨"AUTH_FORBIDDEN",
      "Actor does not match ApprovalRequest approver_scope.role_codes."⟩

/-- A check of a stored context that failed. Only a builder can raise something else than an
`AppError`. -/
def ErrorCode.toAppError : ErrorCode → AppError
  | .executionPreconditionFailed =>
    ⟨"EXECUTION_PRECONDITION_FAILED", "Approval context requirements are not met."⟩
  | .resourceConflict => conflict "ApprovalRequest context_snapshot is corrupted."
  | .uncaught => ⟨"INTERNAL_ERROR", "Approval context could not be read."⟩

/-- `assert_current_context_matches_request`. -/
def assertCurrentContextMatchesRequest (computeCanonicalJsonHash : CanonicalHash)
    (currentHash : Except AppError Sha256Hex) (request : ApprovalRequest) (execution : Execution)
    (step : ExecutionStep) : Except AppError Unit := do
  (assertRequestContextHashIntact computeCanonicalJsonHash request).mapError ErrorCode.toAppError
  (assertLineageMatchesSnapshot execution step request.contextSnapshot).mapError
    ErrorCode.toAppError
  assertThat (request.executionId == execution.id && request.stepExecutionId == step.id)
    "ApprovalRequest does not belong to Execution/Step."
  let currentHash ← currentHash
  assertThat (currentHash == request.contextHash)
    "Current approval context hash drifted from ApprovalRequest."

/-- A flag of the snapshotted ApprovalPolicy. -/
def snapshottedFlag (key message : String) (snapshot : Value) : Except AppError Bool :=
  match ((snapshot.getD "approval_policy").getD key).bool? with
  | some flag => .ok flag
  | none => .error (conflict message)

/-- `snapshotted_allow_self_approval`. -/
def snapshottedAllowSelfApproval : Value → Except AppError Bool :=
  snapshottedFlag "allow_self_approval" "ApprovalRequest allow_self_approval snapshot is corrupted."

/-- `snapshotted_reject_comment_required`. -/
def snapshottedRejectCommentRequired : Value → Except AppError Bool :=
  snapshottedFlag "reject_comment_required"
    "ApprovalRequest reject_comment_required snapshot is corrupted."

/-- The comment without the space around it; a blank one is none. -/
def Vote.trimmedComment (vote : Vote) : Option String :=
  (vote.comment.map Text.strip).filter (· ≠ "")

/-- The requester votes only where the snapshot allows it. -/
def assertNoSelfApproval (terms : ApprovalTerms) (allowSelf : Bool) (vote : Vote) :
    Except AppError Unit :=
  if !allowSelf && vote.actor.id == terms.requestedBy then
    .error ⟨"AUTH_FORBIDDEN", "Self-approval is not allowed for this ApprovalRequest."⟩
  else .ok ()

/-- A rejection has a comment where the snapshot requires one. -/
def assertRejectComment (commentRequired : Bool) (vote : Vote) : Except AppError Unit :=
  if vote.decision == .reject && commentRequired && vote.trimmedComment.isNone then
    .error ⟨"VALIDATION_ERROR", "Reject comment is required."⟩
  else .ok ()

/-- The checks of `decide` after the request was found PENDING, in time and waited for. -/
def assertVoteAllowed (computeCanonicalJsonHash : CanonicalHash) (terms : ApprovalTerms)
    (request : ApprovalRequest) (execution : Execution) (step : ExecutionStep)
    (existing : List ApprovalDecision) (vote : Vote) : Except AppError Unit := do
  assertRoleScope vote.actor terms.approvalScope
  assertCurrentContextMatchesRequest computeCanonicalJsonHash vote.currentHash request execution
    step
  let allowSelf ← snapshottedAllowSelfApproval request.contextSnapshot
  assertNoSelfApproval terms allowSelf vote
  let commentRequired ← snapshottedRejectCommentRequired request.contextSnapshot
  assertRejectComment commentRequired vote
  assertThat (existing.all fun d => d.decidedBy != vote.actor.id)
    "Actor has already decided on this ApprovalRequest."

/-- Who may cast a vote, and how. -/
structure Vote.Entitled (vote : Vote) (computeCanonicalJsonHash : CanonicalHash)
    (terms : ApprovalTerms) (request : ApprovalRequest) (execution : Execution)
    (step : ExecutionStep) : Prop where
  active : vote.actor.active = true
  permitted : vote.actor.permitted = true
  inScope : approverRoleCodes terms.approvalScope = .ok none ∨ ∃ roleCodes,
    approverRoleCodes terms.approvalScope = .ok (some roleCodes) ∧
      ∃ code ∈ vote.actor.roleCodes, code ∈ roleCodes
  /-- The stored context is intact, it is that of the Execution and the Step, and it is current. -/
  intact : assertRequestContextHashIntact computeCanonicalJsonHash request = .ok ()
  lineage : assertLineageMatchesSnapshot execution step request.contextSnapshot = .ok ()
  executionId : request.executionId = execution.id
  stepId : request.stepExecutionId = step.id
  current : vote.currentHash = .ok request.contextHash
  notSelf : ∃ allowSelf, snapshottedAllowSelfApproval request.contextSnapshot = .ok allowSelf ∧
    (vote.actor.id = terms.requestedBy → allowSelf = true)
  comment : ∃ commentRequired,
    snapshottedRejectCommentRequired request.contextSnapshot = .ok commentRequired ∧
      (vote.decision = .reject → commentRequired = true → vote.trimmedComment ≠ none)

theorem assertActorAuthorized_eq_ok_iff {actor : VotingActor} :
    assertActorAuthorized actor = .ok () ↔ actor.active = true ∧ actor.permitted = true := by
  unfold assertActorAuthorized
  cases actor.active <;> cases actor.permitted <;> simp

theorem assertRoleScope_eq_ok_iff {actor : VotingActor} {scope : Value} :
    assertRoleScope actor scope = .ok () ↔ approverRoleCodes scope = .ok none ∨ ∃ roleCodes,
      approverRoleCodes scope = .ok (some roleCodes) ∧
        ∃ code ∈ actor.roleCodes, code ∈ roleCodes := by
  unfold assertRoleScope
  rcases approverRoleCodes scope with e | _ | roleCodes <;> simp

private theorem exists_ok_unit {ε : Type} {x : Except ε Unit} {p : Prop} :
    (∃ u, x = .ok u ∧ p) ↔ x = .ok () ∧ p := by
  constructor
  · rintro ⟨u, h⟩
    exact h
  · intro h
    exact ⟨(), h⟩

private theorem mapError_eq_ok_iff {ε ε' α : Type} {f : ε → ε'} {x : Except ε α} {a : α} :
    x.mapError f = .ok a ↔ x = .ok a := by
  cases x <;> simp [Except.mapError]

theorem assertCurrentContextMatchesRequest_eq_ok_iff {hash : CanonicalHash}
    {currentHash : Except AppError Sha256Hex} {request : ApprovalRequest} {execution : Execution}
    {step : ExecutionStep} :
    assertCurrentContextMatchesRequest hash currentHash request execution step = .ok () ↔
      assertRequestContextHashIntact hash request = .ok () ∧
        assertLineageMatchesSnapshot execution step request.contextSnapshot = .ok () ∧
        request.executionId = execution.id ∧ request.stepExecutionId = step.id ∧
        currentHash = .ok request.contextHash := by
  simp only [assertCurrentContextMatchesRequest, Except.bind_eq_ok_iff, exists_ok_unit,
    mapError_eq_ok_iff, assertThat_eq_ok_iff, exists_const, Bool.and_eq_true, beq_iff_eq,
    exists_eq_right, and_assoc]

theorem assertNoSelfApproval_eq_ok_iff {terms : ApprovalTerms} {allowSelf : Bool} {vote : Vote} :
    assertNoSelfApproval terms allowSelf vote = .ok () ↔
      (vote.actor.id = terms.requestedBy → allowSelf = true) := by
  unfold assertNoSelfApproval
  cases allowSelf <;> simp

theorem assertRejectComment_eq_ok_iff {commentRequired : Bool} {vote : Vote} :
    assertRejectComment commentRequired vote = .ok () ↔
      (vote.decision = .reject → commentRequired = true → vote.trimmedComment ≠ none) := by
  unfold assertRejectComment
  cases commentRequired <;> cases vote.decision <;> simp [Option.isNone_iff_eq_none]

/-- The checks of the actor and of the decision pass exactly for an entitled actor that has not
voted yet. -/
theorem Vote.entitled_iff {vote : Vote} {hash : CanonicalHash} {terms : ApprovalTerms}
    {request : ApprovalRequest} {execution : Execution} {step : ExecutionStep}
    {existing : List ApprovalDecision} :
    assertActorAuthorized vote.actor = .ok () ∧
        assertVoteAllowed hash terms request execution step existing vote = .ok () ↔
      vote.Entitled hash terms request execution step ∧
        ∀ d ∈ existing, d.decidedBy ≠ vote.actor.id := by
  have hallowed : assertVoteAllowed hash terms request execution step existing vote = .ok () ↔
      assertRoleScope vote.actor terms.approvalScope = .ok () ∧
        assertCurrentContextMatchesRequest hash vote.currentHash request execution step = .ok () ∧
        (∃ allowSelf, snapshottedAllowSelfApproval request.contextSnapshot = .ok allowSelf ∧
          assertNoSelfApproval terms allowSelf vote = .ok () ∧
          ∃ commentRequired,
            snapshottedRejectCommentRequired request.contextSnapshot = .ok commentRequired ∧
            assertRejectComment commentRequired vote = .ok () ∧
            ∀ d ∈ existing, d.decidedBy ≠ vote.actor.id) := by
    simp only [assertVoteAllowed, Except.bind_eq_ok_iff, exists_ok_unit, assertThat_eq_ok_iff,
      List.all_eq_true, bne_iff_ne]
  rw [assertActorAuthorized_eq_ok_iff, hallowed, assertRoleScope_eq_ok_iff,
    assertCurrentContextMatchesRequest_eq_ok_iff]
  simp only [assertNoSelfApproval_eq_ok_iff, assertRejectComment_eq_ok_iff]
  constructor
  · rintro ⟨⟨hactive, hpermitted⟩, hscope, ⟨hintact, hlineage, hexecution, hstep, hcurrent⟩,
      allowSelf, hself, hnotSelf, commentRequired, hrequired, hcomment, hfirst⟩
    exact ⟨⟨hactive, hpermitted, hscope, hintact, hlineage, hexecution, hstep, hcurrent,
      ⟨allowSelf, hself, hnotSelf⟩, ⟨commentRequired, hrequired, hcomment⟩⟩, hfirst⟩
  · rintro ⟨h, hfirst⟩
    obtain ⟨allowSelf, hself, hnotSelf⟩ := h.notSelf
    obtain ⟨commentRequired, hrequired, hcomment⟩ := h.comment
    exact ⟨⟨h.active, h.permitted⟩, h.inScope, ⟨h.intact, h.lineage, h.executionId, h.stepId,
      h.current⟩, allowSelf, hself, hnotSelf, commentRequired, hrequired, hcomment, hfirst⟩

/-- The row of a vote. -/
def Vote.row (vote : Vote) (request : ApprovalRequest) (now : Time) : ApprovalDecision where
  approvalRequestId := request.id
  decidedBy := vote.actor.id
  decision := vote.decision
  comment := vote.trimmedComment
  contextHash := request.contextHash
  decidedAt := now

/-- The verdict of the votes with the new one, and of the checks before it. -/
def Vote.env (vote : Vote) (computeCanonicalJsonHash : CanonicalHash) (terms : ApprovalTerms)
    (request : ApprovalRequest) (execution : Execution) (step : ExecutionStep)
    (existing : List ApprovalDecision) (now : Time) : DecisionEnv where
  actorAuthorized := assertActorAuthorized vote.actor
  decisionAllowed :=
    assertVoteAllowed computeCanonicalJsonHash terms request execution step existing vote
  aggregateDecision := aggregateDecision terms.decisionMode terms.requiredApprovals
    (existing ++ [vote.row request now])

end McpFlow.Approval
