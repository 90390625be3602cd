import McpFlow.Execution.Cancellation
import McpFlow.Scheduler.Rows

/-!
# The schedule runtime

Misfire and overlap policy, the fire of one occurrence, and the two passes of an iteration over a
Schedule: the release of its waiting occurrences and its due points. Each pass holds the row lock of
the Schedule from its first read to its commit, so it is one function of the rows. What the creation
of an Execution answers and which Executions have a call in flight comes from outside, by instant.
-/

namespace McpFlow.Scheduler

open Recurrence Occurrences
open Planner (OccurrenceStatus)

/-! ### The fire of one occurrence -/

/-- The code of an `AppError` at creation: in `_AUTHZ_CODES`, or another. -/
inductive Refusal where
  | forbidden
  | precondition
deriving DecidableEq, Repr

/-- The decision reason of a fire that is refused. -/
def Refusal.reason : Refusal → DecisionReason
  | .forbidden => .authorizationRevoked
  | .precondition => .targetPreconditionFailed

/-- What a pass finds outside the rows of the Schedule. -/
structure FireEnv where
  refusal : Instant → Option Refusal
  startedCalls : Instant → Bool

/-- `trigger_type`. -/
inductive TriggerType where
  | schedule
  | user
deriving DecidableEq, Repr

/-- The answer of `_evaluate_overlap`. -/
inductive Overlap where
  | allow
  | skip
  | queueWait
  | replaceWait
deriving DecidableEq, Repr

/-- The answer of `_try_fire_occurrence`. -/
inductive Fire where
  | executed
  | skipped
  | wait
  | replaceWait
  | noop
deriving DecidableEq, Repr

/-- The status that `request_internal_cancel_locked` leaves. -/
def cancelledStatus (startedCalls : Bool) : ExecutionStatus → ExecutionStatus
  | .created => .cancelled
  | .queued => .cancelled
  | .waitingInput => .cancelled
  | .waitingApproval => .cancelled
  | .running => if startedCalls then .cancelRequested else .cancelled
  | s => s

/-- The answer of the cancellation is read off the status and the calls in flight. -/
theorem status_applyCancellation {db db' : Db} {now : Time} {requestedBy : Option UUID}
    {outcome : CancellationOutcome}
    (h : applyCancellation now requestedBy db = .ok (outcome, db')) :
    outcome.status = cancelledStatus (!db.listStartedToolCalls.isEmpty) db.execution.status := by
  rw [applyCancellation] at h
  split at h
  · case isTrue hdone =>
    cases h
    rcases hdone with hdone | hdone <;> simp [cancellationOutcome, hdone, cancelledStatus]
  · case isFalse hopen =>
    split at h
    · cases h
    · case isFalse hlive =>
      dsimp only at h
      split at h
      · case isTrue hnow =>
        cases h
        change ExecutionStatus.cancelled = _
        rw [← List.isEmpty_iff] at hnow
        generalize db.execution.status = status at hopen hlive hnow
        cases status <;>
          simp_all [ExecutionStatus.isTerminal, ExecutionStatus.cancelsImmediately, cancelledStatus]
      · case isFalse hlater =>
        cases h
        change ExecutionStatus.cancelRequested = _
        rw [← List.isEmpty_iff] at hlater
        generalize db.execution.status = status at hopen hlive hlater
        cases status <;>
          simp_all [ExecutionStatus.isTerminal, ExecutionStatus.cancelsImmediately, cancelledStatus]

/-- The cancellation of one prior, with the projection of its outcome. -/
def ScheduleOccurrence.cancel (r : ScheduleOccurrence) (now : Instant) (startedCalls : Bool) :
    ScheduleOccurrence :=
  match r.execution with
  | none => r
  | some s =>
    let outcome := cancelledStatus startedCalls s
    if outcome.isTerminal ∧ r.isOpen then
      { r with
        execution := some outcome
        status := projectOccurrenceStatus outcome
        finishedAt := some now }
    else { r with execution := some outcome }

@[simp] theorem ScheduleOccurrence.scheduledFor_cancel (r : ScheduleOccurrence) (now : Instant)
    (startedCalls : Bool) : (r.cancel now startedCalls).scheduledFor = r.scheduledFor := by
  rw [cancel]
  split
  · rfl
  · dsimp only
    split <;> rfl

/-- The row of `_supersede_older_replace_waits`. -/
def ScheduleOccurrence.supersede (r : ScheduleOccurrence) (before now : Instant) :
    ScheduleOccurrence :=
  if r.scheduledFor < before ∧ r.status = .planned ∧ r.decisionReason = some .overlapReplaceWait ∧
      r.execution = none then
    r.failOrSkip .skipped .replaceSuperseded now
  else r

@[simp] theorem ScheduleOccurrence.scheduledFor_supersede (r : ScheduleOccurrence)
    (before now : Instant) : (r.supersede before now).scheduledFor = r.scheduledFor := by
  rw [supersede]
  split <;> rfl

namespace Occurrences

/-- `_supersede_older_replace_waits`. -/
def supersedeOlderReplaceWaits (occs : Occurrences) (before now : Instant) : Occurrences :=
  occs.mapRows (·.supersede before now) fun r => r.scheduledFor_supersede before now

/-- The rows of `_replace_cancel_priors`: every earlier prior with an Execution is cancelled. -/
def cancelPriors (occs : Occurrences) (before now : Instant) (startedCalls : Instant → Bool) :
    Occurrences :=
  occs.mapRows
    (fun r =>
      if r.scheduledFor < before ∧ r.isActivePrior then r.cancel now (startedCalls r.scheduledFor)
      else r)
    fun r => by split <;> simp

/-- `still_inflight`: a prior waits without an Execution, or its cancellation is not over. -/
def stillInflight (occs : Occurrences) (before : Instant) (startedCalls : Instant → Bool) : Bool :=
  (occs.activePriors before).any fun r =>
    match r.execution with
    | none => r.decisionReason.any (·.isWait)
    | some s => !(cancelledStatus (startedCalls r.scheduledFor) s).isTerminal

end Occurrences

/-- `_replace_cancel_priors`. -/
def replaceCancelPriors (occs : Occurrences) (r : ScheduleOccurrence) (now : Instant)
    (env : FireEnv) : Occurrences × ScheduleOccurrence × Overlap :=
  if occs.stillInflight r.scheduledFor env.startedCalls then
    (occs.cancelPriors r.scheduledFor now env.startedCalls, r, .replaceWait)
  else
    (occs.cancelPriors r.scheduledFor now env.startedCalls,
      { r with decisionReason := some .overlapReplace }, .allow)

/-- `_evaluate_overlap`. -/
def evaluateOverlap (policy : ScheduleOverlapPolicy) (occs : Occurrences) (r : ScheduleOccurrence)
    (now : Instant) (env : FireEnv) : Occurrences × ScheduleOccurrence × Overlap :=
  if occs.activePriors r.scheduledFor = [] then (occs, r, .allow)
  else
    match policy with
    | .allow => (occs, r, .allow)
    | .skip => (occs, r, .skip)
    | .queue => (occs, r, .queueWait)
    | .replace =>
      let superseded := occs.supersedeOlderReplaceWaits r.scheduledFor now
      if superseded.activePriors r.scheduledFor = [] then
        (superseded, { r with decisionReason := some .overlapReplace }, .allow)
      else replaceCancelPriors superseded r now env

/-- `_create_execution_for_occurrence`; `enqueue_plan_outbox` for an agent. -/
def createExecution (target : ScheduleTargetType) (r : ScheduleOccurrence) (env : FireEnv)
    (trigger : TriggerType) : Except Refusal ScheduleOccurrence :=
  if r.execution.isSome then .ok r
  else
    match target, env.refusal r.scheduledFor with
    | .agentVersion, refusal =>
      if trigger ≠ .schedule then .error .precondition
      else
        match refusal with
        | some e => .error e
        | none =>
          if r.planOutbox then .ok r
          else .ok { r with planOutbox := true, decisionReason := some .agentPlanQueued }
    | .workflowVersion, some e => .error e
    | .workflowVersion, none =>
      if r.decisionReason = some .overlapReplaceWait then
        .ok { r with execution := some .created, decisionReason := some .overlapReplace }
      else .ok { r with execution := some .created }

/-- `_try_fire_occurrence` on a stored row. -/
def tryFireOccurrence (s : Schedule) (occs : Occurrences) (r : ScheduleOccurrence) (now : Instant)
    (env : FireEnv) (trigger : TriggerType) : Occurrences × Fire :=
  if r.status ≠ .planned then (occs, .noop)
  else if s.targetType = .agentVersion ∧ ¬ s.definition.expression.isOnce then
    (occs.put (r.failOrSkip .failed .agentScheduleExecutionUnsupported now), .skipped)
  else
    match evaluateOverlap s.overlapPolicy occs r now env with
    | (occs, r, .skip) => (occs.put (r.failOrSkip .skipped .overlapSkip now), .skipped)
    | (occs, r, .queueWait) => (occs.put { r with decisionReason := some .overlapQueue }, .wait)
    | (occs, r, .replaceWait) =>
      (occs.put { r with decisionReason := some .overlapReplaceWait }, .replaceWait)
    | (occs, r, .allow) =>
      match createExecution s.targetType r env trigger with
      | .error e => (occs.put (r.failOrSkip .failed e.reason now), .skipped)
      | .ok r => (occs.put r, .executed)

/-! ### Misfire -/

/-- The settings of the service. -/
structure RuntimeConfig where
  misfireGraceSeconds : ℕ
  dueScanLimit : ℕ

/-- `_MisfirePartition`. -/
structure MisfirePartition where
  missed : List Instant
  timely : List Instant
  nextAfter : Option Instant
  scanExhausted : Bool
deriving DecidableEq

/-- `_collect_due_points`. -/
def collectDuePoints (c : Calendar) (cfg : RuntimeConfig) (d : Definition)
    (nextRunAt now : Instant) : Except RecurrenceError MisfirePartition := do
  let graceBoundary := now - cfg.misfireGraceSeconds * 1000000
  let (points, scanExhausted) ← collect (nextScheduledAt c d) now cfg.dueScanLimit nextRunAt
  let future ← nextScheduledAt c d now
  return {
    missed := points.filter fun t => t < graceBoundary
    timely := points.filter fun t => graceBoundary ≤ t
    nextAfter := future
    scanExhausted := scanExhausted }

/-- A recurrence point with the reason of its decision. -/
abbrev Spec := Instant × DecisionReason

/-- `_apply_misfire`: the points to fire and the points to skip. -/
def applyMisfire (policy : ScheduleMisfirePolicy) (maxCatchUp : ℤ) (missed timely : List Instant) :
    List Spec × List Spec :=
  match policy with
  | .skip => (timely.map (·, .due), missed.map (·, .misfireSkip))
  | .runOnce =>
    (missed.getLast?.toList.map (·, .misfireRunOnce) ++ timely.map (·, .due),
      missed.dropLast.map (·, .misfireCoalesced))
  | .catchUpLimited =>
    let limit := (max 1 maxCatchUp).toNat
    if missed.length ≤ limit then
      (missed.map (·, .misfireCatchUp) ++ timely.map (·, .due), [])
    else
      ((missed.drop (missed.length - limit)).map (·, .misfireCatchUp) ++ timely.map (·, .due),
        (missed.take (missed.length - limit)).map (·, .misfireCatchUpLimit))

/-! ### The passes -/

/-- One turn over the skipped points. -/
def skipPoint (now : Instant) (occs : Occurrences) (p : Spec) : Occurrences :=
  let (occs, r) := occs.createPlanned p.1
  if r.status = .planned then occs.put (r.failOrSkip .skipped p.2 now) else occs

/-- One turn over the fired points. -/
def firePoint (s : Schedule) (now : Instant) (env : FireEnv) (occs : Occurrences) (p : Spec) :
    Occurrences :=
  let (occs, r) := occs.createPlanned p.1
  let r := { r with decisionReason := some p.2 }
  (tryFireOccurrence s (occs.put r) r now env .schedule).1

/-- `_maybe_complete_schedule`. -/
def maybeCompleteSchedule (s : Schedule) (occs : Occurrences) : Schedule :=
  if s.status ≠ .active then s
  else if s.nextRunAt.isSome then s
  else if occs.hasUnmaterializedHeld then s
  else { s with status := .completed }

/-- The points of a due pass, decided. -/
def firePoints (s : Schedule) (now : Instant) (env : FireEnv) (occs : Occurrences)
    (specs : List Spec × List Spec) : Occurrences :=
  specs.1.foldl (firePoint s now env) (specs.2.foldl (skipPoint now) occs)

/-- `process_due_schedule`. -/
def processDueSchedule (c : Calendar) (cfg : RuntimeConfig) (s : Schedule) (occs : Occurrences)
    (now : Instant) (env : FireEnv) : Except RecurrenceError (Schedule × Occurrences) :=
  if s.status ≠ .active then .ok (s, occs)
  else
    match s.nextRunAt with
    | none => .ok (s, occs)
    | some nextRunAt =>
      if now < nextRunAt then .ok (s, occs)
      else do
        let partition ← collectDuePoints c cfg s.definition nextRunAt now
        if partition.scanExhausted then return ({ s with status := .error }, occs)
        else
          let specs := applyMisfire s.misfirePolicy s.maxCatchUp partition.missed partition.timely
          let occs := firePoints s now env occs specs
          return (maybeCompleteSchedule { s with nextRunAt := partition.nextAfter } occs, occs)

/-- The loop of `process_waiting_schedule`: a WAIT ends it. -/
def releaseWaiting (s : Schedule) (now : Instant) (env : FireEnv) :
    List Instant → Occurrences → Occurrences
  | [], occs => occs
  | t :: ts, occs =>
    match occs.find? t with
    | none => releaseWaiting s now env ts occs
    | some r =>
      match tryFireOccurrence s occs r now env .schedule with
      | (occs, .wait) => occs
      | (occs, _) => releaseWaiting s now env ts occs

/-- `process_waiting_schedule`. -/
def processWaitingSchedule (s : Schedule) (occs : Occurrences) (now : Instant) (env : FireEnv) :
    Schedule × Occurrences :=
  if s.status ≠ .active then (s, occs)
  else
    let occs := releaseWaiting s now env occs.listWaiting occs
    (maybeCompleteSchedule s occs, occs)

/-- One row of `reconcile_occurrence_statuses`. -/
def ScheduleOccurrence.reconcile (r : ScheduleOccurrence) (finishedAt : Option Instant)
    (now : Instant) : ScheduleOccurrence :=
  match r.execution with
  | none => r
  | some s =>
    let projected := projectOccurrenceStatus s
    if ¬ r.isOpen ∨ r.status = projected ∨ (s = .created ∧ r.status = .planned) then r
    else if projected = .completed ∨ projected = .failed then
      { r with status := projected, finishedAt := some (finishedAt.getD now) }
    else { r with status := projected }

end McpFlow.Scheduler
