import McpFlow.Approval.Voting

/-!
# The quorum of an approval, over whole runs

The Execution with the decision rows of its approval requests. A decision of `World` is a verdict
from outside; here it is the aggregate of the rows, and every step is still a step of `World`.
Nobody votes twice, the status of a request says what its votes are, and a waiting Execution runs
again only after a quorum of distinct users approved who were all entitled when they voted.
-/

namespace McpFlow

open Approval

/-- The Execution, the terms of its approval requests and the rows of `approval_decisions`. -/
structure VotingWorld where
  world : World
  terms : UUID → ApprovalTerms
  decisions : List ApprovalDecision

/-- A vote, or another step of the world. -/
inductive VotingAction where
  | vote (requestId : UUID) (vote : Vote) (now : Time)
  | act (action : Action)

/-- What the status of a request says of its votes; without a decision there is none. -/
def ApprovalStatus.resolution? : ApprovalStatus → Option Resolution
  | approved => some .approved
  | rejected => some .rejected
  | pending | expired | cancelled => none

theorem ApprovalMoves.id {r r' : ApprovalRequest} (h : ApprovalMoves r r') : r'.id = r.id := by
  cases h with
  | same hsame => rw [hsame]
  | lapsed _ hsame => exact congrArg Prod.fst hsame

/-- A request that lapses has no resolution, before and after. -/
theorem ApprovalMoves.resolution? {r r' : ApprovalRequest} (h : ApprovalMoves r r') :
    r'.status.resolution? = r.status.resolution? := by
  cases h with
  | same hsame => rw [hsame]
  | lapsed hpending _ hlapsed =>
    rw [hpending]
    cases hstatus : r'.status with
    | approved => rw [hstatus] at hlapsed; cases hlapsed
    | rejected => rw [hstatus] at hlapsed; cases hlapsed
    | _ => rfl

namespace VotingWorld

/-- `list_for_request`. The aggregate only counts, so the order is no matter. -/
def decisionsFor (b : VotingWorld) (requestId : UUID) : List ApprovalDecision :=
  b.decisions.filter fun d => d.approvalRequestId == requestId

/-- What a vote on the request says of it. -/
def env (b : VotingWorld) (hash : CanonicalHash) (request : ApprovalRequest) (step : ExecutionStep)
    (vote : Vote) (now : Time) : DecisionEnv :=
  vote.env hash (b.terms request.id) request b.world.db.execution step
    (b.decisionsFor request.id) now

/-- `decide`: the decision row and what follows from it are one transaction. -/
def vote (hash : CanonicalHash) (b : VotingWorld) (requestId : UUID) (vote : Vote) (now : Time) :
    VotingWorld :=
  match b.world.db.approvals.find? requestId with
  | none => b
  | some request => match b.world.db.steps.find? request.stepExecutionId with
    | none => b
    | some step =>
      { b with
        world := b.world.decide requestId (b.env hash request step vote now) now
        decisions :=
          match decideApproval (b.env hash request step vote now) requestId now b.world.db with
          | .ok (.ok _, _) => b.decisions ++ [vote.row request now]
          | _ => b.decisions }

/-- A step of the world with its votes. -/
def step (hash : CanonicalHash) (digest : TemplateDigest) (b : VotingWorld) :
    VotingAction → Option VotingWorld
  | .vote requestId vote now => some (b.vote hash requestId vote now)
  | .act (.decide _ _ _) => none
  | .act action => (b.world.step digest action).map fun w => { b with world := w }

/-- Before the first claim there is no vote. -/
structure Initial (b : VotingWorld) : Prop where
  world : b.world.Initial
  decisions : b.decisions = []

variable {hash : CanonicalHash} {digest : TemplateDigest} {b b' : VotingWorld}

/-! ### The steps -/

/-- A vote of an entitled actor that has not voted yet, on a request that awaits it. -/
structure Casts (hash : CanonicalHash) (b : VotingWorld) (vote : Vote) (now : Time)
    (request : ApprovalRequest) : Prop where
  awaits : b.world.db.AwaitsDecision request now
  entitled : ∃ step, b.world.db.steps.find? request.stepExecutionId = some step ∧
    vote.Entitled hash (b.terms request.id) request b.world.db.execution step
  first : ∀ d ∈ b.decisionsFor request.id, d.decidedBy ≠ vote.actor.id

/-- What a step does to the requests and their votes. -/
inductive Moves (hash : CanonicalHash) (b b' : VotingWorld) : VotingAction → Prop
  | rows {a : VotingAction} (hdecisions : b'.decisions = b.decisions)
      (hanswers : b.world.db.AnswersRequests b'.world.db) : b.Moves hash b' a
  | cast {request : ApprovalRequest} {vote : Vote} {now : Time} {resolution : Option Resolution}
      (hcasts : b.Casts hash vote now request)
      (hdecisions : b'.decisions = b.decisions ++ [vote.row request now])
      (haggregate : aggregateDecision (b.terms request.id).decisionMode
        (b.terms request.id).requiredApprovals
          (b.decisionsFor request.id ++ [vote.row request now]) = .ok resolution)
      (hresolves : b.world.db.Resolves request now resolution b'.world.db) :
    b.Moves hash b' (.vote request.id vote now)

theorem vote_moves (requestId : UUID) (v : Vote) (now : Time) :
    b.Moves hash (b.vote hash requestId v now) (.vote requestId v now) := by
  unfold vote
  split
  · exact .rows rfl (.refl _)
  next request hrequest =>
  split
  · exact .rows rfl (.refl _)
  next step hstep =>
  obtain rfl := Table.key_of_find? hrequest
  rcases hdecide : decideApproval (b.env hash request step v now) request.id now b.world.db with
    e | ⟨e | outcome, db⟩
  · refine .rows rfl ?_
    dsimp only
    rw [World.decide, hdecide]
    exact .refl _
  · refine .rows rfl ?_
    dsimp only
    rw [World.decide, hdecide]
    exact .tooLate hdecide
  · obtain ⟨request', resolution, hid, hawaits, ⟨hactor, hallowed, haggregate⟩, hresolves, -⟩ :=
      decides_of_decideApproval hdecide
    obtain rfl : request = request' :=
      Option.some.inj (hrequest.symm.trans (hid ▸ hawaits.mem))
    obtain ⟨hentitled, hfirst⟩ := Vote.entitled_iff.mp ⟨hactor, hallowed⟩
    refine .cast ⟨hawaits, ⟨step, hstep, hentitled⟩, hfirst⟩ rfl haggregate ?_
    dsimp only
    rw [World.decide, hdecide]
    dsimp only
    split <;> exact hresolves

/-- Every step leaves the terms alone and is one of `Moves`. -/
theorem moves_of_step {a : VotingAction} (hstep : b.step hash digest a = some b') :
    b'.terms = b.terms ∧ b.Moves hash b' a := by
  cases a with
  | vote requestId v now =>
    obtain rfl : b.vote hash requestId v now = b' := Option.some.inj hstep
    refine ⟨?_, vote_moves requestId v now⟩
    unfold vote
    split
    · rfl
    split <;> rfl
  | act action =>
    have hact : (∀ requestId env now, action ≠ .decide requestId env now) ∧
        (b.world.step digest action).map (fun w => { b with world := w }) = some b' := by
      cases action with
      | decide requestId env now => cases hstep
      | _ => exact ⟨fun _ _ _ => Action.noConfusion, hstep⟩
    obtain ⟨w, hw, rfl⟩ := Option.map_eq_some_iff.mp hact.2
    exact ⟨rfl, .rows rfl (World.answersRequests_of_step hw hact.1)⟩

/-- Every step is a step of the world; a vote is a decision there. -/
theorem exists_worldStep {a : VotingAction} (hstep : b.step hash digest a = some b') :
    ∃ action, b.world.step digest action = some b'.world ∧
      (a = .act action ∨ ∃ requestId env now, action = .decide requestId env now) := by
  cases a with
  | vote requestId v now =>
    obtain rfl : b.vote hash requestId v now = b' := Option.some.inj hstep
    unfold vote
    split
    · next hnone =>
      refine ⟨.decide requestId ⟨.ok (), .ok (), .ok none⟩ now, congrArg some ?_,
        .inr ⟨_, _, _, rfl⟩⟩
      rw [World.decide, decideApproval, hnone]
    next request hrequest =>
    split
    · next hnone =>
      refine ⟨.decide requestId ⟨.ok (), .ok (), .ok none⟩ now, congrArg some ?_,
        .inr ⟨_, _, _, rfl⟩⟩
      rw [World.decide, decideApproval, hrequest]
      dsimp only
      rw [hnone]
    next step hstep =>
    exact ⟨.decide requestId (b.env hash request step v now) now, rfl, .inr ⟨_, _, _, rfl⟩⟩
  | act action =>
    have hact : (b.world.step digest action).map (fun w => { b with world := w }) = some b' := by
      cases action with
      | decide requestId env now => cases hstep
      | _ => exact hstep
    obtain ⟨w, hw, rfl⟩ := Option.map_eq_some_iff.mp hact
    exact ⟨action, hw, .inl rfl⟩

/-- Every run is a run of the world, so what holds of those holds of the runs with votes. -/
theorem exists_worldRun {as : List VotingAction}
    (hrun : Runs.run (VotingWorld.step hash digest) b as = some b') :
    ∃ actions, Runs.run (World.step digest) b.world actions = some b'.world := by
  have hstep (u : VotingWorld) (a : VotingAction) (u' : VotingWorld)
      (h : u.step hash digest a = some u') : ∃ action, u.world.step digest action = some u'.world :=
    (exists_worldStep h).imp fun _ haction => haction.1
  exact Runs.exists_run_of_step hstep hrun

/-! ### The votes of a request -/

/-- What holds of the votes after every step. -/
structure Sound (b : VotingWorld) : Prop where
  asked : ∀ d ∈ b.decisions, ∃ r ∈ b.world.db.approvals, r.id = d.approvalRequestId
  oneVote : ∀ requestId, ((b.decisionsFor requestId).map (·.decidedBy)).Nodup
  tallied : ∀ r ∈ b.world.db.approvals,
    (b.terms r.id).Counts (b.decisionsFor r.id) r.status.resolution?

theorem Initial.sound (h : b.Initial) : b.Sound := by
  have hnone (requestId : UUID) : b.decisionsFor requestId = [] := by
    rw [decisionsFor, h.decisions, List.filter_nil]
  refine ⟨fun d hd => ?_, fun requestId => ?_, fun r hr => ?_⟩
  · rw [h.decisions] at hd
    exact absurd hd List.not_mem_nil
  · rw [hnone]
    exact List.nodup_nil
  · rw [Table.mem_def, h.world.approvals] at hr
    exact absurd hr List.not_mem_nil

theorem decisionsFor_congr (h : b'.decisions = b.decisions) (requestId : UUID) :
    b'.decisionsFor requestId = b.decisionsFor requestId := by
  rw [decisionsFor, h, decisionsFor]

/-- A vote is one of the votes of its request. -/
theorem decisionsFor_cast {request : ApprovalRequest} {vote : Vote} {now : Time}
    (h : b'.decisions = b.decisions ++ [vote.row request now]) (requestId : UUID) :
    b'.decisionsFor requestId = if request.id = requestId then
      b.decisionsFor requestId ++ [vote.row request now] else b.decisionsFor requestId := by
  have hrow : (vote.row request now).approvalRequestId = request.id := rfl
  unfold decisionsFor
  rw [h, List.filter_append]
  split
  · next hid => rw [List.filter_cons_of_pos (by rw [hrow, hid]; exact beq_self_eq_true _),
      List.filter_nil]
  · next hid =>
    rw [List.filter_cons_of_neg (by rw [hrow]; exact fun h => hid (beq_iff_eq.mp h)),
      List.filter_nil, List.append_nil]

/-- A request that is new has no votes. -/
private theorem Sound.decisionsFor_fresh (h : b.Sound) {requestId : UUID}
    (hfresh : ∀ r ∈ b.world.db.approvals, r.id ≠ requestId) : b.decisionsFor requestId = [] := by
  refine List.filter_eq_nil_iff.mpr fun d hd hid => ?_
  obtain ⟨r, hr, hasked⟩ := h.asked d hd
  exact hfresh r hr (hasked.trans (beq_iff_eq.mp hid))

private theorem Sound.rows (h : b.Sound) (hterms : b'.terms = b.terms)
    (hdecisions : b'.decisions = b.decisions)
    (hanswers : b.world.db.AnswersRequests b'.world.db) : b'.Sound := by
  have hsame := decisionsFor_congr hdecisions
  refine ⟨fun d hd => ?_, fun requestId => hsame requestId ▸ h.oneVote requestId, fun r' hr' => ?_⟩
  · rw [hdecisions] at hd
    obtain ⟨r, hr, hid⟩ := h.asked d hd
    cases hanswers with
    | rewrites hrewrites =>
      obtain ⟨r', hr', hmoves⟩ := hrewrites.exists_mem hr
      exact ⟨r', hr', hmoves.id.trans hid⟩
    | asks _ hinsert => exact ⟨r, (Table.mem_of_insert? hinsert).mpr (.inl hr), hid⟩
  · rw [hterms, hsame]
    cases hanswers with
    | rewrites hrewrites =>
      obtain ⟨r, hr, hmoves⟩ := hrewrites.exists_of_mem hr'
      rw [hmoves.id, hmoves.resolution?]
      exact h.tallied r hr
    | asks hpending hinsert =>
      rcases (Table.mem_of_insert? hinsert).mp hr' with hr | rfl
      · exact h.tallied r' hr
      · rw [h.decisionsFor_fresh fun r hr => Table.key_ne_of_insert? hinsert r hr, hpending]
        exact BallotRule.open_nil _ _

private theorem Sound.cast (h : b.Sound) (hterms : b'.terms = b.terms) {request : ApprovalRequest}
    {vote : Vote} {now : Time} {resolution : Option Resolution}
    (hcasts : b.Casts hash vote now request)
    (hdecisions : b'.decisions = b.decisions ++ [vote.row request now])
    (haggregate : aggregateDecision (b.terms request.id).decisionMode
      (b.terms request.id).requiredApprovals
        (b.decisionsFor request.id ++ [vote.row request now]) = .ok resolution)
    (hresolves : b.world.db.Resolves request now resolution b'.world.db) : b'.Sound := by
  have hrequest := Table.mem_of_find? hcasts.awaits.mem
  have hopen := h.tallied request hrequest
  rw [hcasts.awaits.pending] at hopen
  have hcounts := (b.terms request.id).counts_of_aggregateDecision hopen haggregate
  -- the requests after the vote: the decided one with its resolution, the others as they were
  have hrows (r' : ApprovalRequest) (hr' : r' ∈ b'.world.db.approvals) :
      r'.id = request.id ∧ r'.status.resolution? = resolution ∨
        r' ∈ b.world.db.approvals ∧ r'.id ≠ request.id := by
    rw [hresolves.approvals] at hr'
    cases resolution with
    | none =>
      by_cases hid : r'.id = request.id
      · rw [Table.eq_of_key_eq hr' hrequest hid, hcasts.awaits.pending]
        exact .inl ⟨rfl, rfl⟩
      · exact .inr ⟨hr', hid⟩
    | some resolution =>
      rcases Table.mem_put hr' with rfl | hold
      · refine .inl ⟨rfl, ?_⟩
        cases resolution <;> rfl
      · exact .inr hold
  refine ⟨fun d hd => ?_, fun requestId => ?_, fun r' hr' => ?_⟩
  · have hkept (r : ApprovalRequest) (hr : r ∈ b.world.db.approvals) :
        ∃ r' ∈ b'.world.db.approvals, r'.id = r.id := by
      rw [hresolves.approvals]
      cases resolution with
      | none => exact ⟨r, hr, rfl⟩
      | some resolution =>
        by_cases hid : r.id = request.id
        · exact ⟨_, Table.mem_put_self hr hid, hid.symm⟩
        · exact ⟨r, Table.mem_put_of_ne hr hid, rfl⟩
    rw [hdecisions] at hd
    rcases List.mem_append.mp hd with hd | hd
    · obtain ⟨r, hr, hid⟩ := h.asked d hd
      obtain ⟨r', hr', hid'⟩ := hkept r hr
      exact ⟨r', hr', hid'.trans hid⟩
    · obtain rfl := List.mem_singleton.mp hd
      exact hkept request hrequest
  · rw [decisionsFor_cast hdecisions]
    split
    · next hid =>
      subst hid
      rw [List.map_append]
      refine List.nodup_append.mpr ⟨h.oneVote _, List.nodup_singleton _, fun u hu v hv => ?_⟩
      obtain ⟨d, hd, rfl⟩ := List.mem_map.mp hu
      obtain rfl := List.mem_singleton.mp hv
      exact hcasts.first d hd
    · exact h.oneVote requestId
  · rw [hterms, decisionsFor_cast hdecisions]
    rcases hrows r' hr' with ⟨hid, hstatus⟩ | ⟨hr, hid⟩
    · rw [if_pos hid.symm, hid, hstatus]
      exact hcounts
    · rw [if_neg (Ne.symm hid)]
      exact h.tallied r' hr

/-- Every step keeps the votes sound. -/
theorem Sound.step {a : VotingAction} (h : b.Sound) (hstep : b.step hash digest a = some b') :
    b'.Sound := by
  obtain ⟨hterms, hmoves⟩ := moves_of_step hstep
  cases hmoves with
  | rows hdecisions hanswers => exact h.rows hterms hdecisions hanswers
  | cast hcasts hdecisions haggregate hresolves =>
    exact h.cast hterms hcasts hdecisions haggregate hresolves

theorem Sound.run {as : List VotingAction} (h : b.Sound)
    (hrun : Runs.run (VotingWorld.step hash digest) b as = some b') : b'.Sound := by
  have hstep (u : VotingWorld) (a : VotingAction) (u' : VotingWorld) (hu : u.Sound)
      (hu' : u.step hash digest a = some u') : u'.Sound := hu.step hu'
  exact Runs.run_invariant hstep h hrun

/-! ### The laws -/

theorem terms_of_run {as : List VotingAction}
    (hrun : Runs.run (VotingWorld.step hash digest) b as = some b') : b'.terms = b.terms := by
  have hstep (u : VotingWorld) (a : VotingAction) (u' : VotingWorld) (hu : u.terms = b.terms)
      (hu' : u.step hash digest a = some u') : u'.terms = b.terms :=
    (moves_of_step hu').1.trans hu
  exact Runs.run_invariant hstep rfl hrun

/-- A request is APPROVED exactly when its approvals have reached the quorum of its mode, and
REJECTED exactly when its rejections have reached the veto; no count goes beyond, and nobody votes
twice. -/
theorem tallied_run {as : List VotingAction} {request : ApprovalRequest} (hinit : b.Initial)
    (hrun : Runs.run (VotingWorld.step hash digest) b as = some b')
    (hmem : request ∈ b'.world.db.approvals) :
    ((b'.decisionsFor request.id).map (·.decidedBy)).Nodup ∧
      (b'.decisionsFor request.id).countP (·.approves) ≤ (b.terms request.id).rule.quorum ∧
      (b'.decisionsFor request.id).countP (·.rejects) ≤ (b.terms request.id).rule.veto ∧
      (request.status = .approved ↔
        (b'.decisionsFor request.id).countP (·.approves) = (b.terms request.id).rule.quorum) ∧
      (request.status = .rejected ↔
        (b'.decisionsFor request.id).countP (·.rejects) = (b.terms request.id).rule.veto) := by
  have hsound := hinit.sound.run hrun
  have htallied := hsound.tallied request hmem
  rw [terms_of_run hrun] at htallied
  refine ⟨hsound.oneVote request.id, ?_⟩
  have hrejects : (b'.decisionsFor request.id).countP (!·.approves) =
      (b'.decisionsFor request.id).countP (·.rejects) :=
    congrArg (List.countP · _) (funext fun d => d.not_approves)
  rw [← hrejects]
  have hopen (h : (b.terms request.id).rule.Open (·.approves) (b'.decisionsFor request.id))
      (happroved : request.status ≠ .approved) (hrejected : request.status ≠ .rejected) :=
    And.intro h.ayes_lt.le (And.intro h.nays_lt.le (And.intro
      (iff_of_false happroved h.ayes_lt.ne) (iff_of_false hrejected h.nays_lt.ne)))
  cases hstatus : request.status with
  | approved =>
    rw [hstatus] at htallied
    exact ⟨htallied.ayes_eq.le, htallied.nays_lt.le, iff_of_true rfl htallied.ayes_eq,
      iff_of_false ApprovalStatus.noConfusion htallied.nays_lt.ne⟩
  | rejected =>
    rw [hstatus] at htallied
    exact ⟨htallied.ayes_lt.le, htallied.nays_eq.le,
      iff_of_false ApprovalStatus.noConfusion htallied.ayes_lt.ne, iff_of_true rfl htallied.nays_eq⟩
  | _ =>
    rw [hstatus] at htallied hopen
    exact hopen htallied ApprovalStatus.noConfusion ApprovalStatus.noConfusion

/-- Every vote in the database was cast in the run, by an actor entitled to it, on its request while
that was PENDING and in time and its Execution and Step were waiting. -/
theorem cast_of_run {as : List VotingAction} {d : ApprovalDecision} (hinit : b.Initial)
    (hrun : Runs.run (VotingWorld.step hash digest) b as = some b') (hmem : d ∈ b'.decisions) :
    ∃ pre vote now post u request, as = pre ++ .vote request.id vote now :: post ∧
      Runs.run (VotingWorld.step hash digest) b pre = some u ∧ u.Casts hash vote now request ∧
      d = vote.row request now := by
  have hnone : d ∉ b.decisions := by
    rw [hinit.decisions]
    exact List.not_mem_nil
  have hturn (p : VotingWorld → Prop) (hb : ¬p b) (hb' : p b') := Runs.exists_turn hb hb' hrun
  obtain ⟨pre, a, post, u, v, rfl, hpre, hstep, hbefore, hafter⟩ :=
    hturn (fun u => d ∈ u.decisions) hnone hmem
  obtain ⟨-, hmoves⟩ := moves_of_step hstep
  cases hmoves with
  | rows hdecisions =>
    rw [hdecisions] at hafter
    exact absurd hafter hbefore
  | cast hcasts hdecisions =>
    rw [hdecisions] at hafter
    have hrow := List.mem_singleton.mp ((List.mem_append.mp hafter).resolve_left hbefore)
    exact ⟨pre, _, _, post, u, _, rfl, hpre, hcasts, hrow⟩

/-- A request that was asked stays, with the same question. -/
theorem exists_question_of_run {as : List VotingAction} {request : ApprovalRequest}
    (hmem : request ∈ b.world.db.approvals)
    (hrun : Runs.run (VotingWorld.step hash digest) b as = some b') :
    ∃ r ∈ b'.world.db.approvals, r.question = request.question := by
  have hstep (u : VotingWorld) (a : VotingAction) (u' : VotingWorld)
      (hu : ∃ r ∈ u.world.db.approvals, r.question = request.question)
      (hu' : u.step hash digest a = some u') :
      ∃ r ∈ u'.world.db.approvals, r.question = request.question := by
    obtain ⟨r, hr, hquestion⟩ := hu
    obtain ⟨action, haction, -⟩ := exists_worldStep hu'
    obtain ⟨r', hr', hsame⟩ := World.exists_question_of_step hr haction
    exact ⟨r', hr', hsame.trans hquestion⟩
  exact Runs.run_invariant hstep ⟨request, hmem, rfl⟩ hrun

/-- A waiting Execution runs again only when a request is resumed that as many distinct users
approved as its quorum says, each of them entitled to it at the time, and each of them asked the
same question: for the same Execution, Step and context. -/
theorem quorum_before_resumed_run {as : List VotingAction} {a : VotingAction} {v v' : VotingWorld}
    (hinit : b.Initial) (hrun : Runs.run (VotingWorld.step hash digest) b as = some v)
    (hwaits : v.world.db.execution.status = .waitingApproval)
    (hstep : v.step hash digest a = some v') (hrunning : v'.world.db.execution.status = .running) :
    ∃ request ∈ v.world.db.approvals, (∃ env now, a = .act (.resumeApproval request.id env now)) ∧
      ∃ approvers : List UUID, approvers.Nodup ∧
        approvers.length = (b.terms request.id).rule.quorum ∧
        ∀ user ∈ approvers, ∃ pre vote now post u asked,
          as = pre ++ .vote request.id vote now :: post ∧
          Runs.run (VotingWorld.step hash digest) b pre = some u ∧
          u.Casts hash vote now asked ∧ asked.question = request.question ∧
          vote.actor.id = user ∧ vote.decision = .approve := by
  obtain ⟨action, haction, hsame⟩ := exists_worldStep hstep
  obtain ⟨request, step, env, now, rfl, hmem, happroved, -⟩ :=
    World.resumes_of_step hwaits hrunning haction
  have hact : a = .act (.resumeApproval request.id env now) := by
    rcases hsame with hact | ⟨_, _, _, hdecide⟩
    · exact hact
    · cases hdecide
  obtain ⟨hnodup, -, -, hiff, -⟩ := tallied_run hinit hrun hmem
  refine ⟨request, hmem, ⟨env, now, hact⟩,
    ((v.decisionsFor request.id).filter (·.approves)).map (·.decidedBy),
    hnodup.sublist (List.filter_sublist.map _), ?_, fun user huser => ?_⟩
  · rw [List.length_map, ← List.countP_eq_length_filter]
    exact hiff.mp happroved
  · obtain ⟨d, hd, rfl⟩ := List.mem_map.mp huser
    obtain ⟨hd, happroves⟩ := List.mem_filter.mp hd
    obtain ⟨hd, hid⟩ := List.mem_filter.mp hd
    obtain ⟨pre, vote, votedAt, post, u, asked, rfl, hpre, hcasts, rfl⟩ := cast_of_run hinit hrun hd
    have hid : asked.id = request.id := beq_iff_eq.mp hid
    refine ⟨pre, vote, votedAt, post, u, asked, by rw [hid], hpre, hcasts, ?_, rfl,
      beq_iff_eq.mp happroves⟩
    rw [Runs.run_append, hpre, Option.bind_some] at hrun
    obtain ⟨r, hr, hquestion⟩ :=
      exists_question_of_run (Table.mem_of_find? hcasts.awaits.mem) hrun
    have hkey : r.id = request.id := (congrArg Prod.fst hquestion).trans hid
    rw [← hquestion, Table.eq_of_key_eq hr hmem hkey]

/-! ### Enough approvals -/

/-- A request that awaits its decision, and what a vote of an entitled user does to it. -/
private theorem vote_of_entitled {request : ApprovalRequest} {v : Vote} {now : Time}
    (hcasts : b.Casts hash v now request) (happrove : v.decision = .approve)
    (hopen : (b.terms request.id).rule.Open (·.approves) (b.decisionsFor request.id)) :
    (b.terms request.id).rule.Open (·.approves)
          (b.decisionsFor request.id ++ [v.row request now]) ∧
        b.vote hash request.id v now = { b with decisions := b.decisions ++ [v.row request now] } ∨
      (b.terms request.id).rule.Carried (·.approves)
          (b.decisionsFor request.id ++ [v.row request now]) ∧
        b.vote hash request.id v now = { b with
          world := { b.world.withDb (b.world.db.putApproval (request.resolve .approved now)) with
            approvalOutbox := b.world.approvalOutbox ++ [request.id] }
          decisions := b.decisions ++ [v.row request now] } := by
  obtain ⟨hawaits, ⟨step, hfind, hentitled⟩, hfirst⟩ := hcasts
  obtain ⟨hmem, hpending, hinTime, hexecution, step', hfind', hstatus⟩ := hawaits
  obtain rfl : step = step' := Option.some.inj (hfind.symm.trans hfind')
  obtain ⟨hactor, hallowed⟩ := Vote.entitled_iff.mpr ⟨hentitled, hfirst⟩
  have hwaits : waitsForApproval b.world.db step = true := by
    simp [waitsForApproval, hexecution, hstatus]
  have happroves : (v.row request now).approves = true := by
    change (v.decision == .approve) = true
    rw [happrove]
    rfl
  -- the decision of the world, with the verdict of the votes
  have hdecide (result : ApprovalDecisionOutcome × Db)
      (hpendingVote : decidePending (b.env hash request step v now) request step now b.world.db =
        .ok result) :
      decideApproval (b.env hash request step v now) request.id now b.world.db =
        .ok (.ok result.1, result.2) := by
    have hauthorized : (b.env hash request step v now).actorAuthorized = .ok () := hactor
    unfold decideApproval
    simp only [hmem, hfind, hauthorized, hpending, hpendingVote, ne_eq, not_true_eq_false, if_false,
      if_neg (Nat.not_le.mpr hinTime)]
  have hverdict := (b.terms request.id).aggregateDecision_eq
    (b.decisionsFor request.id ++ [v.row request now])
  rcases haggregate : aggregateDecision (b.terms request.id).decisionMode
      (b.terms request.id).requiredApprovals (b.decisionsFor request.id ++ [v.row request now]) with
    e | resolution
  · rw [haggregate] at hverdict
    cases hverdict
  have hcounts := (b.terms request.id).counts_of_aggregateDecision hopen haggregate
  have hallowed' : (b.env hash request step v now).decisionAllowed = .ok () := hallowed
  have haggregate' : (b.env hash request step v now).aggregateDecision = .ok resolution :=
    haggregate
  rcases hopen.concat_aye happroves with hstill | hcarried
  · refine .inl ⟨hstill, ?_⟩
    obtain rfl : resolution = none := by
      rcases resolution with _ | _ | _
      · rfl
      · exact absurd hcounts hstill.not_carried
      · exact absurd hcounts hstill.not_defeated
    have hresult := hdecide (⟨.pending, false⟩, b.world.db) (by
      simp [decidePending, hwaits, hallowed', haggregate'])
    unfold vote
    simp only [hmem, hfind, World.decide, hresult]
    rfl
  · refine .inr ⟨hcarried, ?_⟩
    obtain rfl : resolution = some .approved := by
      rcases resolution with _ | _ | _
      · exact absurd hcarried (BallotRule.Open.not_carried hcounts)
      · rfl
      · exact absurd hcounts hcarried.not_defeated
    have hresult := hdecide (⟨.approved, true⟩,
        b.world.db.putApproval (request.resolve .approved now)) (by
      simp only [decidePending, hwaits, hallowed', haggregate', Bool.not_true, Bool.false_eq_true,
        if_false]
      rfl)
    unfold vote
    simp only [hmem, hfind, World.decide, hresult, if_true]

private theorem run_votes_approved {request : ApprovalRequest} (votes : List (Vote × Time))
    (hcasts : ∀ p ∈ votes, b.Casts hash p.1 p.2 request)
    (happrove : ∀ p ∈ votes, p.1.decision = .approve)
    (hdistinct : (votes.map (·.1.actor.id)).Nodup)
    (hopen : (b.terms request.id).rule.Open (·.approves) (b.decisionsFor request.id))
    (hcount : (b.decisionsFor request.id).countP (·.approves) + votes.length =
      (b.terms request.id).rule.quorum) :
    ∃ b' now, Runs.run (VotingWorld.step hash digest) b
        (votes.map fun p => .vote request.id p.1 p.2) = some b' ∧
      request.resolve .approved now ∈ b'.world.db.approvals ∧
      request.id ∈ b'.world.approvalOutbox := by
  induction votes generalizing b with
  | nil => exact absurd hcount hopen.ayes_lt.ne
  | cons p votes ih =>
    obtain ⟨v, now⟩ := p
    have hfirst := hcasts (v, now) List.mem_cons_self
    have hv := happrove (v, now) List.mem_cons_self
    have happroves : (v.row request now).approves = true := by
      change (v.decision == .approve) = true
      rw [hv]
      rfl
    have hcount' : (b.decisionsFor request.id ++ [v.row request now]).countP (·.approves) =
        (b.decisionsFor request.id).countP (·.approves) + 1 := by
      rw [List.countP_append, List.countP_singleton, if_pos happroves]
    rcases vote_of_entitled hfirst hv hopen with ⟨hstill, hvote⟩ | ⟨hcarried, hvote⟩
    · -- the ballot is still open: the others vote in the same rows
      have hsame : (b.vote hash request.id v now).world = b.world := by rw [hvote]
      have hterms : (b.vote hash request.id v now).terms = b.terms := by rw [hvote]
      have hdecisions : (b.vote hash request.id v now).decisionsFor request.id =
          b.decisionsFor request.id ++ [v.row request now] := by
        rw [decisionsFor_cast (by rw [hvote]), if_pos rfl]
      have hothers : ∀ p ∈ votes, (b.vote hash request.id v now).Casts hash p.1 p.2 request := by
        intro p hp
        have hp' := hcasts p (List.mem_cons_of_mem _ hp)
        refine ⟨hsame ▸ hp'.awaits, ?_, fun d hd => ?_⟩
        · rw [hterms, hsame]
          exact hp'.entitled
        · rw [hdecisions] at hd
          rcases List.mem_append.mp hd with hd | hd
          · exact hp'.first d hd
          · obtain rfl := List.mem_singleton.mp hd
            intro hid
            exact (List.nodup_cons.mp hdistinct).1 (List.mem_map.mpr ⟨p, hp, hid.symm⟩)
      have hmissing : ((b.vote hash request.id v now).decisionsFor request.id).countP (·.approves) +
          votes.length = ((b.vote hash request.id v now).terms request.id).rule.quorum := by
        rw [hterms, hdecisions, hcount', ← hcount, List.length_cons]
        omega
      rw [← hdecisions, ← hterms] at hstill
      obtain ⟨b', votedAt, hrun, happroved, houtbox⟩ := ih hothers
        (fun p hp => happrove p (List.mem_cons_of_mem _ hp)) (List.nodup_cons.mp hdistinct).2 hstill
        hmissing
      exact ⟨b', votedAt, Runs.run_cons_eq_some.mpr ⟨_, rfl, hrun⟩, happroved, houtbox⟩
    · -- the quorum is reached: nobody is left
      have hlast : votes = [] := by
        have hquorum := hcarried.ayes_eq
        rw [hcount', ← hcount, List.length_cons] at hquorum
        exact List.eq_nil_of_length_eq_zero (by omega)
      subst hlast
      refine ⟨_, now, Runs.run_cons_eq_some.mpr ⟨_, rfl, rfl⟩, ?_, ?_⟩
      · rw [hvote]
        exact Table.mem_put_self (Table.mem_of_find? hfirst.awaits.mem) rfl
      · rw [hvote]
        exact List.mem_append_right _ (List.mem_singleton_self _)

/-- Whatever votes a request has got in a run, as many further approvals as its quorum lacks approve
it and enqueue its resume message, in whatever order the entitled users cast them. -/
theorem approved_of_votes_run {as : List VotingAction} {request : ApprovalRequest}
    (votes : List (Vote × Time)) (hinit : b.Initial)
    (hrun : Runs.run (VotingWorld.step hash digest) b as = some b')
    (hmem : request ∈ b'.world.db.approvals) (hpending : request.status = .pending)
    (hcasts : ∀ p ∈ votes, b'.Casts hash p.1 p.2 request)
    (happrove : ∀ p ∈ votes, p.1.decision = .approve)
    (hdistinct : (votes.map (·.1.actor.id)).Nodup)
    (hcount : (b'.decisionsFor request.id).countP (·.approves) + votes.length =
      (b.terms request.id).rule.quorum) :
    ∃ b'' now, Runs.run (VotingWorld.step hash digest) b'
        (votes.map fun p => .vote request.id p.1 p.2) = some b'' ∧
      request.resolve .approved now ∈ b''.world.db.approvals ∧
      request.id ∈ b''.world.approvalOutbox := by
  have hopen := (hinit.sound.run hrun).tallied request hmem
  rw [hpending] at hopen
  rw [← terms_of_run hrun] at hcount
  exact run_votes_approved votes hcasts happrove hdistinct hopen hcount

/-! ### A call that two users approve -/

/-- A hash for every context. -/
def sampleHash : Sha256Hex := .replicate 'a' Text.isLowerHex_a

/-- The world of two calls, where an approval takes a quorum of two. -/
def quorumWorld : VotingWorld where
  world := twoCallWorld
  terms := fun _ => ⟨.quorum, 2, .null, .ofNat 9, Nat.le_add_left 1 1⟩
  decisions := []

theorem quorumWorld_initial : quorumWorld.Initial := ⟨queuedWorld_initial (by decide), rfl⟩

/-- An ACTIVE user who may decide approves. -/
def approval (user : ℕ) : Vote where
  actor := ⟨.ofNat user, true, true, []⟩
  decision := .approve
  comment := none
  currentHash := .ok sampleHash

/-- The call asks for its approval, and two users approve. -/
def approvedByTwo : List VotingAction :=
  (World.approvedCall.take 4).map .act ++
    [.vote (.ofNat 50) (approval 60) 4, .vote (.ofNat 50) (approval 61) 5]

private theorem run_approvedByTwo :
    ((Runs.run (VotingWorld.step (fun _ => sampleHash) sampleDigest) quorumWorld approvedByTwo).bind
      fun v => v.world.db.approvals.find? (.ofNat 50)).map (·.status) = some .approved := by
  decide +kernel

/-- The quorum of two is reached, and no more. -/
theorem tallied_approvedByTwo : ∃ v request,
    Runs.run (VotingWorld.step (fun _ => sampleHash) sampleDigest) quorumWorld approvedByTwo =
      some v ∧
      request ∈ v.world.db.approvals ∧ request.status = .approved ∧
      ((v.decisionsFor request.id).map (·.decidedBy)).Nodup ∧
      (v.decisionsFor request.id).countP (·.approves) = 2 := by
  obtain ⟨request, hrequest, happroved⟩ := Option.map_eq_some_iff.mp run_approvedByTwo
  obtain ⟨v, hv, hfind⟩ := Option.bind_eq_some_iff.mp hrequest
  have hmem := Table.mem_of_find? hfind
  obtain ⟨hnodup, -, -, hiff, -⟩ := tallied_run quorumWorld_initial hv hmem
  exact ⟨v, request, hv, hmem, happroved, hnodup, hiff.mp happroved⟩

/-- Both votes were cast by entitled users. -/
theorem cast_approvedByTwo : ∃ v d,
    Runs.run (VotingWorld.step (fun _ => sampleHash) sampleDigest) quorumWorld approvedByTwo =
      some v ∧
      d ∈ v.decisions ∧ ∃ pre vote now post u request,
        approvedByTwo = pre ++ .vote request.id vote now :: post ∧
        Runs.run (VotingWorld.step (fun _ => sampleHash) sampleDigest) quorumWorld pre = some u ∧
        u.Casts (fun _ => sampleHash) vote now request ∧ d = vote.row request now := by
  have hvotes : (Runs.run (VotingWorld.step (fun _ => sampleHash) sampleDigest) quorumWorld
      approvedByTwo).map (·.decisions.length) = some 2 := by
    decide +kernel
  obtain ⟨v, hv, hlength⟩ := Option.map_eq_some_iff.mp hvotes
  obtain ⟨d, hd⟩ := List.exists_mem_of_length_pos (by rw [hlength]; decide)
  exact ⟨v, d, hv, hd, cast_of_run quorumWorld_initial hv hd⟩

/-- The call runs again only then. -/
theorem quorum_before_resumed_approvedByTwo : ∃ v v',
    Runs.run (VotingWorld.step (fun _ => sampleHash) sampleDigest) quorumWorld approvedByTwo =
      some v ∧
      v.step (fun _ => sampleHash) sampleDigest (.act World.resumeCall) = some v' ∧
      v'.world.db.execution.status = .running ∧
      ∃ request ∈ v.world.db.approvals, (∃ env now,
          VotingAction.act World.resumeCall = .act (.resumeApproval request.id env now)) ∧
        ∃ approvers : List UUID, approvers.Nodup ∧
          approvers.length = (quorumWorld.terms request.id).rule.quorum ∧
          ∀ user ∈ approvers, ∃ pre vote now post u asked,
            approvedByTwo = pre ++ .vote request.id vote now :: post ∧
            Runs.run (VotingWorld.step (fun _ => sampleHash) sampleDigest) quorumWorld pre =
              some u ∧
            u.Casts (fun _ => sampleHash) vote now asked ∧ asked.question = request.question ∧
            vote.actor.id = user ∧ vote.decision = .approve := by
  have hbefore : (Runs.run (VotingWorld.step (fun _ => sampleHash) sampleDigest) quorumWorld
      approvedByTwo).map (·.world.db.execution.status) = some .waitingApproval := by
    decide +kernel
  have hafter : (Runs.run (VotingWorld.step (fun _ => sampleHash) sampleDigest) quorumWorld
      (approvedByTwo ++ [.act World.resumeCall])).map (·.world.db.execution.status) =
        some .running := by
    decide +kernel
  obtain ⟨v, hv, hwaits⟩ := Option.map_eq_some_iff.mp hbefore
  obtain ⟨v', hv', hrunning⟩ := Option.map_eq_some_iff.mp hafter
  rw [Runs.run_append, hv, Option.bind_some] at hv'
  obtain ⟨u, hstep, hu⟩ := Runs.run_cons_eq_some.mp hv'
  cases hu
  exact ⟨v, v', hv, hstep, hrunning,
    quorum_before_resumed_run quorumWorld_initial hv hwaits hstep hrunning⟩

/-- After the first of the two approvals, the second one is enough. -/
theorem approved_of_votes_approvedByTwo : ∃ v v' now request,
    Runs.run (VotingWorld.step (fun _ => sampleHash) sampleDigest) quorumWorld
        (approvedByTwo.take 5) = some v ∧
      request ∈ v.world.db.approvals ∧
      Runs.run (VotingWorld.step (fun _ => sampleHash) sampleDigest) v
        [.vote request.id (approval 61) 5] = some v' ∧
      request.resolve .approved now ∈ v'.world.db.approvals ∧
      request.id ∈ v'.world.approvalOutbox := by
  have hbefore : (Runs.run (VotingWorld.step (fun _ => sampleHash) sampleDigest) quorumWorld
      (approvedByTwo.take 5)).map (fun v => (v.decisions.length,
        (v.decisionsFor (.ofNat 50)).countP (·.approves))) = some (1, 1) := by
    decide +kernel
  have hafter : (Runs.run (VotingWorld.step (fun _ => sampleHash) sampleDigest) quorumWorld
      (approvedByTwo.take 5 ++ [.vote (.ofNat 50) (approval 61) 5])).map (·.decisions.length) =
        some 2 := by
    decide +kernel
  obtain ⟨v, hv, hcounts⟩ := Option.map_eq_some_iff.mp hbefore
  obtain ⟨hlength, happrovals⟩ := Prod.mk.inj hcounts
  obtain ⟨v', hv', hlength'⟩ := Option.map_eq_some_iff.mp hafter
  rw [Runs.run_append, hv, Option.bind_some] at hv'
  obtain ⟨u, hstep, hu⟩ := Runs.run_cons_eq_some.mp hv'
  cases hu
  obtain ⟨-, hmoves⟩ := moves_of_step hstep
  generalize haction : VotingAction.vote (.ofNat 50) (approval 61) 5 = a at hmoves
  cases hmoves with
  | rows hdecisions =>
    rw [hdecisions, hlength] at hlength'
    cases hlength'
  | @cast request vote now _ hcasts =>
    obtain ⟨hid, rfl, rfl⟩ := VotingAction.vote.inj haction
    have hmem := Table.mem_of_find? hcasts.awaits.mem
    obtain ⟨v'', votedAt, hrun, happroved, houtbox⟩ := approved_of_votes_run [(approval 61, 5)]
      quorumWorld_initial hv hmem hcasts.awaits.pending
      (fun p hp => by rw [List.mem_singleton.mp hp]; exact hcasts)
      (fun p hp => by rw [List.mem_singleton.mp hp]; rfl) (List.nodup_singleton _)
      (by rw [← hid, happrovals]; rfl)
    exact ⟨v, v'', votedAt, request, hv, hmem, hrun, happroved, houtbox⟩

end VotingWorld

end McpFlow
