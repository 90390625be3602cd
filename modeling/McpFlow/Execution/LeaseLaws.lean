import McpFlow.Execution.Fencing
import McpFlow.Execution.Lifecycle

/-!
# The lease over whole runs

An Execution in RUNNING or CANCEL_REQUESTED holds the lease of a worker that was started, and in every
other status it holds none. A worker that lost the lease never owns the Execution again. A cancellation
that was accepted keeps the Execution from success, and success is written on the evidence of the rows.
-/

namespace McpFlow

/-- The statuses in which a worker owns the Execution. -/
def ExecutionStatus.isLeased : ExecutionStatus → Bool
  | .running | .cancelRequested => true
  | _ => false

/-- The statuses of an Execution whose cancellation was accepted, or that failed. -/
def ExecutionStatus.isStopping : ExecutionStatus → Bool
  | .cancelRequested | .cancelled | .failed | .timedOut => true
  | _ => false

theorem ExecutionStatus.not_isLeased_of_releasesTo {s t : ExecutionStatus} (h : s.releasesTo t = true) :
    t.isLeased = false := by
  cases t <;> first | rfl | (cases s <;> cases h)

/-- A lease is released to a stop, or by a RUNNING Execution that waits. -/
theorem ExecutionStatus.isStopping_of_releasesTo {s t : ExecutionStatus} (h : s.releasesTo t = true)
    (hs : s ≠ .running) : t.isStopping = true := by
  cases t <;> first | rfl | (cases s <;> first | exact absurd rfl hs | cases h)

namespace World

variable {digest : TemplateDigest} {w w' : World}

/-! ### Who holds the lease -/

/-- The workers that were started stay, whatever they do. -/
theorem exists_worker_of_step {a : Action} (hstep : w.step digest a = some w') {token : UUID}
    (h : ∃ r ∈ w.workers, r.token = token) : ∃ r ∈ w'.workers, r.token = token := by
  obtain ⟨r, hr, rfl⟩ := h
  have hmoved {g : Worker → Worker} (hg : ∀ q, (g q).token = q.token)
      (hworkers : w'.workers = w.workers.map g) : ∃ q ∈ w'.workers, q.token = r.token := by
    rw [hworkers]
    exact ⟨g r, List.mem_map_of_mem hr, hg r⟩
  cases workersStep_of_step hstep with
  | same _ hworkers => exact ⟨r, hworkers ▸ hr, rfl⟩
  | started _ _ _ _ hworkers =>
    rw [hworkers]
    exact ⟨r, List.mem_append_left _ hr, rfl⟩
  | moved p g stage _ _ hg hworkers =>
    refine hmoved (fun q => ?_) hworkers
    split
    · exact (hg q).2.1
    · rfl
  | runner p v stepId m _ _ _ _ hworkers =>
    refine hmoved (fun q => ?_) hworkers
    split <;> rfl

/-- A fresh token that a step leaves in the Execution is the token of the worker that it starts. -/
theorem exists_worker_of_given {a : Action} {token : UUID} (hstep : w.step digest a = some w')
    (hnew : a.newToken? = some token) (hbefore : w.db.execution.leaseToken ≠ some token)
    (hafter : w'.db.execution.leaseToken = some token) : ∃ r ∈ w'.workers, r.token = token := by
  have hstarted (v : World) (worker : String) :
      ∃ r ∈ (v.startWorker worker token).workers, r.token = token :=
    ⟨_, List.mem_append_right _ (List.mem_singleton_self _), rfl⟩
  -- a transaction that does not claim leaves no token that was not there
  have hrefused {claimed : Bool} {t : UUID} {db : Db}
      (hmoves : w.db.execution.Moves (if claimed then some t else none) True db.execution)
      (hclaimed : claimed = false) (hdb : db.execution.leaseToken = some token) : False := by
    rw [if_neg (by simp [hclaimed])] at hmoves
    exact hbefore (hmoves.leaseToken_of_none hdb)
  cases a with
  | claim env claim now =>
    simp only [step, Option.ite_none_left_eq_some, Option.some.injEq] at hstep
    cases hnew
    obtain ⟨-, rfl⟩ := hstep
    unfold World.claim at hafter ⊢
    split at hafter
    · next outcome db h =>
      split at hafter
      · next hclaimed =>
        rw [if_pos hclaimed]
        exact hstarted _ _
      · next hnot =>
        exact (hrefused (.claimExecution h) (Bool.eq_false_iff.mpr hnot) hafter).elim
    · exact absurd hafter hbefore
  | resumeApproval requestId env now =>
    simp only [step, Option.ite_none_right_eq_some, Option.some.injEq] at hstep
    cases hnew
    obtain ⟨-, rfl⟩ := hstep
    unfold World.resumeApproval at hafter ⊢
    split at hafter
    · next outcome db h =>
      split at hafter
      · next hclaimed =>
        rw [if_pos hclaimed]
        exact hstarted _ _
      · next hnot =>
        exact (hrefused (.resumedApproval (Approval.resumedApproval_of_resumeClaim h))
          (Bool.eq_false_iff.mpr hnot) hafter).elim
    · exact absurd hafter hbefore
  | resumeInput requestId env now =>
    simp only [step, Option.ite_none_right_eq_some, Option.some.injEq] at hstep
    cases hnew
    obtain ⟨-, rfl⟩ := hstep
    unfold World.resumeInput at hafter ⊢
    split at hafter
    · next outcome db h =>
      split at hafter
      · next hclaimed =>
        rw [if_pos hclaimed]
        exact hstarted _ _
      · next hnot => exact (hrefused (.claimInput h) (Bool.eq_false_iff.mpr hnot) hafter).elim
    · exact absurd hafter hbefore
  | recover env now =>
    simp only [step, Option.ite_none_left_eq_some, Option.some.injEq] at hstep
    cases hnew
    obtain ⟨-, rfl⟩ := hstep
    unfold World.recover at hafter ⊢
    split at hafter
    · next outcome db h =>
      split at hafter
      · next hclaimed =>
        rw [if_pos hclaimed]
        exact hstarted _ _
      · next hnot =>
        exact (hrefused (.recovered True (recovered_of_recoverExecution h))
          (Bool.eq_false_iff.mpr hnot) hafter).elim
    · exact absurd hafter hbefore
  | _ => cases hnew

/-- A worker that was started owns the Execution exactly while its status needs one. -/
structure Leased (w : World) : Prop where
  held : w.db.execution.status.isLeased = true →
    ∃ r ∈ w.workers, w.db.execution.leaseToken = some r.token
  free : w.db.execution.status.isLeased = false → w.db.execution.leaseCleared = true

namespace Leased

theorem of_initial (h : w.Initial) : w.Leased where
  held hleased := by
    rw [h.status] at hleased
    cases hleased
  free _ := h.lease

/-- The token in the Execution is the token of a worker. -/
theorem exists_worker (h : w.Leased) {token : UUID} (htoken : w.db.execution.leaseToken = some token) :
    ∃ r ∈ w.workers, r.token = token := by
  cases hs : w.db.execution.status.isLeased with
  | true =>
    obtain ⟨r, hr, hrtoken⟩ := h.held hs
    exact ⟨r, hr, Option.some.inj (hrtoken.symm.trans htoken)⟩
  | false =>
    rw [Execution.leaseToken_of_leaseCleared (h.free hs)] at htoken
    cases htoken

/-- The status of a leased Execution comes with a token, and every token has its worker. -/
private theorem of_token (hfree : w.db.execution.status.isLeased = false →
      w.db.execution.leaseCleared = true)
    (htoken : w.db.execution.status.isLeased = true → ∃ t, w.db.execution.leaseToken = some t)
    (hworker : ∀ t, w.db.execution.leaseToken = some t → ∃ r ∈ w.workers, r.token = t) :
    w.Leased := by
  refine ⟨fun hleased => ?_, hfree⟩
  obtain ⟨t, ht⟩ := htoken hleased
  obtain ⟨r, hr, rfl⟩ := hworker t ht
  exact ⟨r, hr, ht⟩

theorem step {a : Action} (hlive : w.Live) (h : w.Leased) (hstep : w.step digest a = some w') :
    w'.Leased := by
  have hcleared (hc : w'.db.execution.leaseCleared = true)
      (hs : w'.db.execution.status.isLeased = false) : w'.Leased := by
    refine ⟨fun hleased => ?_, fun _ => hc⟩
    rw [hs] at hleased
    cases hleased
  -- a token that stays belongs to a worker that stays
  have hkept (htoken : w'.db.execution.leaseToken = w.db.execution.leaseToken) (t : UUID)
      (ht : w'.db.execution.leaseToken = some t) : ∃ r ∈ w'.workers, r.token = t :=
    exists_worker_of_step hstep (h.exists_worker (htoken.symm.trans ht))
  cases executionMoves_of_step hstep with
  | kept hstatus htoken hclearedKept =>
    refine of_token (fun hs => ?_) (fun hs => ?_) (hkept htoken)
    · rw [hstatus] at hs
      exact hclearedKept (h.free hs)
    · rw [hstatus] at hs
      obtain ⟨r, -, hr⟩ := h.held hs
      exact ⟨r.token, htoken.trans hr⟩
  | @acquired token hnew hfrom hstatus htoken =>
    refine of_token (fun hs => ?_) (fun _ => ⟨token, htoken⟩) fun t ht => ?_
    · rw [hstatus] at hs
      cases hs
    · obtain rfl : token = t := Option.some.inj (htoken.symm.trans ht)
      refine exists_worker_of_given hstep hnew (fun hbefore => ?_) htoken
      obtain ⟨r, hr, rfl⟩ := h.exists_worker hbefore
      exact Live.fresh_of_step hstep hnew (hlive.given r hr)
  | released hc h => exact hcleared hc (ExecutionStatus.not_isLeased_of_releasesTo h)
  | ended _ _ hc hstatus =>
    refine hcleared hc ?_
    rcases hstatus with hs | hs <;> rw [hs] <;> rfl
  | requested hfrom hstatus htoken =>
    refine of_token (fun hs => ?_) (fun _ => ?_) (hkept htoken)
    · rw [hstatus] at hs
      cases hs
    · obtain ⟨r, -, hr⟩ := h.held (by rw [hfrom]; rfl)
      exact ⟨r.token, htoken.trans hr⟩

end Leased

/-- A token that was given, and that the Execution does not hold. -/
def Spent (w : World) (token : UUID) : Prop :=
  token ∈ w.tokens ∧ w.db.execution.leaseToken ≠ some token

theorem tokens_subset_of_step {a : Action} (hstep : w.step digest a = some w') :
    w.tokens ⊆ w'.tokens := by
  cases workersStep_of_step hstep with
  | started _ _ _ _ _ htokens =>
    rw [htokens]
    exact List.subset_append_left _ _
  | same _ _ htokens => rw [htokens]; exact List.Subset.refl _
  | moved _ _ _ _ _ _ _ htokens => rw [htokens]; exact List.Subset.refl _
  | runner _ _ _ _ _ _ _ _ _ htokens => rw [htokens]; exact List.Subset.refl _

theorem Spent.step {token : UUID} {a : Action} (h : w.Spent token)
    (hstep : w.step digest a = some w') : w'.Spent token := by
  refine ⟨tokens_subset_of_step hstep h.1, fun htoken => ?_⟩
  have hgone {e : Execution} (hcleared : e.leaseCleared = true) (ht : e.leaseToken = some token) :
      False := by
    rw [Execution.leaseToken_of_leaseCleared hcleared] at ht
    cases ht
  cases executionMoves_of_step hstep with
  | kept _ hkept => exact h.2 (hkept.symm.trans htoken)
  | acquired hnew _ _ hacquired =>
    obtain rfl := Option.some.inj (hacquired.symm.trans htoken)
    exact Live.fresh_of_step hstep hnew h.1
  | released hcleared => exact hgone hcleared htoken
  | ended _ _ hcleared => exact hgone hcleared htoken
  | requested _ _ hkept => exact h.2 (hkept.symm.trans htoken)

/-- A worker that lost the Execution never owns it again, whatever happens and whenever it looks. -/
theorem lostLease_run {as bs : List Action} {v : World} {r : Worker} (hinit : w.Initial)
    (hrun : Runs.run (World.step digest) w as = some v) (hr : r ∈ v.workers)
    (hlost : v.db.execution.leaseToken ≠ some r.token)
    (hlater : Runs.run (World.step digest) v bs = some w') (now : Time) :
    w'.db.execution.holdsLease r.worker r.token now = false := by
  have hstep (u : World) (a : Action) (u' : World) (h : u.Spent r.token)
      (hu : u.step digest a = some u') : u'.Spent r.token :=
    h.step hu
  have hspent : v.Spent r.token := ⟨((Live.of_initial hinit).run hrun).given r hr, hlost⟩
  have hspent : w'.Spent r.token := Runs.run_invariant hstep hspent hlater
  rw [Bool.eq_false_iff]
  exact fun hholds => hspent.2 (Execution.holdsLease_iff.mp hholds).2.1

/-- The worker of the cancelled wave does not own the Execution after its settlement. -/
theorem lostLease_cancelledWave : ∃ v v' r, Runs.run (World.step sampleDigest) twoCallWorld
      cancelledWave = some v ∧ r ∈ v.workers ∧
    Runs.run (World.step sampleDigest) v [.worker (.ofNat 6) (.settle (loopEnv true) 10)] = some v' ∧
    ∀ now, v'.db.execution.holdsLease r.worker r.token now = false := by
  have hbefore : (Runs.run (World.step sampleDigest) twoCallWorld cancelledWave).map (fun v =>
      (v.db.execution.leaseToken, (v.worker? (.ofNat 6)).isSome)) = some (none, true) := by
    decide +kernel
  have hafter : (Runs.run (World.step sampleDigest) twoCallWorld
      (cancelledWave ++ [.worker (.ofNat 6) (.settle (loopEnv true) 10)])).isSome = true := by
    decide +kernel
  obtain ⟨v, hv, hlease⟩ := Option.map_eq_some_iff.mp hbefore
  simp only [Prod.mk.injEq, Option.isSome_iff_exists] at hlease
  obtain ⟨hnone, r, hr⟩ := hlease
  obtain ⟨v', hv'⟩ := Option.isSome_iff_exists.mp hafter
  rw [Runs.run_append, hv, Option.bind_some] at hv'
  have hlost : v.db.execution.leaseToken ≠ some r.token := by
    rw [hnone]
    exact fun h => by cases h
  exact ⟨v, v', r, hv, List.mem_of_find?_eq_some hr, hv',
    lostLease_run (queuedWorld_initial (by decide)) hv (List.mem_of_find?_eq_some hr) hlost hv'⟩

/-! ### How an Execution ends -/

theorem isStopping_of_step {a : Action} (h : w.db.execution.status.isStopping = true)
    (hstep : w.step digest a = some w') : w'.db.execution.status.isStopping = true := by
  have hnot {s : ExecutionStatus} (hs : w.db.execution.status = s) (hfalse : s.isStopping = false) :
      False := by
    rw [hs, hfalse] at h
    cases h
  cases executionMoves_of_step hstep with
  | kept hstatus => rwa [hstatus]
  | acquired _ hfrom =>
    cases hs : w.db.execution.status <;> rw [hs] at h hfrom <;> first | (cases hfrom; done) | cases h
  | released _ hreleases =>
    exact ExecutionStatus.isStopping_of_releasesTo hreleases fun hs => hnot hs rfl
  | ended _ hfrom => exact (hnot hfrom rfl).elim
  | requested hfrom => exact (hnot hfrom rfl).elim

/-- After a cancellation that was accepted the Execution never runs, waits or succeeds again. -/
theorem cancelled_run {as : List Action} {v : World} {requestedBy : Option UUID} {now : Time}
    {outcome : CancellationOutcome} {db : Db}
    (haccepted : applyCancellation now requestedBy w.db = .ok (outcome, db))
    (hcancel : w.step digest (.cancel requestedBy now) = some v)
    (hrun : Runs.run (World.step digest) v as = some w') :
    w'.db.execution.status.isStopping = true := by
  have hdb : v.db = db := by
    simp only [World.step, Option.some.injEq] at hcancel
    rw [← hcancel, haccepted]
    rfl
  have hstopping : v.db.execution.status.isStopping = true := by
    rw [hdb]
    rcases applyCancellation_ok haccepted with ⟨rfl, hs | hs⟩ | ⟨-, -, ⟨-, rfl⟩ | ⟨-, -, rfl⟩⟩
    · rw [hs]; rfl
    · rw [hs]; rfl
    · rfl
    · rfl
  have hstep (u : World) (a : Action) (u' : World) (h : u.db.execution.status.isStopping = true)
      (hu : u.step digest a = some u') : u'.db.execution.status.isStopping = true :=
    isStopping_of_step h hu
  exact Runs.run_invariant hstep hstopping hrun

/-- The cancellation of the two calls in flight is accepted, and the rest of the run stops. -/
theorem cancelled_twoCallWorld : ∃ v u v' db outcome,
    Runs.run (World.step sampleDigest) twoCallWorld (cancelledWave.take 7) = some v ∧
    applyCancellation 7 none v.db = .ok (outcome, db) ∧
    v.step sampleDigest (.cancel none 7) = some u ∧
    Runs.run (World.step sampleDigest) u (cancelledWave.drop 8) = some v' ∧
    v'.db.execution.status.isStopping = true := by
  have hbefore : (Runs.run (World.step sampleDigest) twoCallWorld (cancelledWave.take 7)).map
      (fun v => (applyCancellation 7 none v.db).isOk) = some true := by
    decide +kernel
  have hafter : (Runs.run (World.step sampleDigest) twoCallWorld
      (cancelledWave.take 7 ++ .cancel none 7 :: cancelledWave.drop 8)).isSome = true := by
    decide +kernel
  obtain ⟨v, hv, hok⟩ := Option.map_eq_some_iff.mp hbefore
  obtain ⟨v', hv'⟩ := Option.isSome_iff_exists.mp hafter
  rw [Runs.run_append, hv, Option.bind_some] at hv'
  obtain ⟨u, hu, hrest⟩ := Runs.run_cons_eq_some.mp hv'
  cases haccepted : applyCancellation 7 none v.db with
  | error e =>
    rw [haccepted] at hok
    cases hok
  | ok result =>
    obtain ⟨outcome, db⟩ := result
    exact ⟨v, u, v', db, outcome, hv, haccepted, hu, hrest, cancelled_run haccepted hu hrest⟩

/-- Every run to success has a step in which the owner of the lease found that all Steps had ended,
and wrote the status that their rows aggregate to. -/
theorem endsNaturally_run {as : List Action} (hinit : w.Initial)
    (hrun : Runs.run (World.step digest) w as = some w')
    (hsucceeded : w'.db.execution.status = .succeeded ∨ w'.db.execution.status = .partiallySucceeded) :
    ∃ pre a post v v', as = pre ++ a :: post ∧ Runs.run (World.step digest) w pre = some v ∧
      v.step digest a = some v' ∧ v.EndsNaturally a v' ∧
      v'.db.execution.status = w'.db.execution.status := by
  have hqueued : w.db.execution.status ≠ w'.db.execution.status := by
    rw [hinit.status]
    rcases hsucceeded with hs | hs <;> rw [hs] <;> decide
  have hturn (p : World → Prop) (hw : ¬p w) (hw' : p w') := Runs.exists_turn hw hw' hrun
  obtain ⟨pre, a, post, u, v, has, hpre, hstep, hbefore, hafter⟩ :=
    hturn (fun v => v.db.execution.status = w'.db.execution.status) hqueued rfl
  refine ⟨pre, a, post, u, v, has, hpre, hstep, ?_, hafter⟩
  rw [← hafter] at hsucceeded hbefore
  -- only the natural end leaves a success that was not there
  cases executionMoves_of_step hstep with
  | kept hstatus => exact absurd hstatus.symm hbefore
  | acquired _ _ hstatus =>
    rw [hstatus] at hsucceeded
    rcases hsucceeded with hs | hs <;> cases hs
  | released _ hreleases =>
    rcases hsucceeded with hs | hs <;> rw [hs] at hreleases <;>
      cases hw : u.db.execution.status <;> rw [hw] at hreleases <;> cases hreleases
  | ended hnatural => exact hnatural
  | requested _ hstatus =>
    rw [hstatus] at hsucceeded
    rcases hsucceeded with hs | hs <;> cases hs

/-- Two calls side by side that both succeed. -/
def succeededWave : List Action :=
  let done : WorkerAction → Action := fun action => .worker (.ofNat 6) action
  let finalize (stepId : ℕ) (now : Time) : Action :=
    done (.runner (.ofNat stepId)
      (.finalize (.result (.ok .null)) (.ok ⟨none, none, false, none⟩) now))
  cancelledWave.take 7 ++ [finalize 10 8, finalize 11 9, done .join, done (.settle (loopEnv true) 10)]

/-- The settlement of the two calls is that step. -/
theorem endsNaturally_succeededWave : ∃ v', Runs.run (World.step sampleDigest) twoCallWorld
      succeededWave = some v' ∧
    ∃ pre a post u u', succeededWave = pre ++ a :: post ∧
      Runs.run (World.step sampleDigest) twoCallWorld pre = some u ∧
      u.step sampleDigest a = some u' ∧ u.EndsNaturally a u' ∧
      u'.db.execution.status = v'.db.execution.status := by
  have hends : (Runs.run (World.step sampleDigest) twoCallWorld succeededWave).map
      (·.db.execution.status) = some .succeeded := by
    decide +kernel
  obtain ⟨v', hv', hsucceeded⟩ := Option.map_eq_some_iff.mp hends
  exact ⟨v', hv', endsNaturally_run (queuedWorld_initial (by decide)) hv' (.inl hsucceeded)⟩

end World

end McpFlow
