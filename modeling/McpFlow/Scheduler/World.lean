import McpFlow.Library.Runs
import McpFlow.Scheduler.Runtime

/-!
# A Schedule and everything that happens to it

The state is the row of one Schedule, its occurrences and the clock. A transition is one transaction
under the row lock of the Schedule, or a move of an Execution: queue staging, claim, the planner of
the agent schedules, the projection of its status, and everything else that an Execution does by
itself. A call that raises rolls back, so it is no transition.
-/

namespace McpFlow.Scheduler

open Planner (OccurrenceStatus)

/-- One Schedule with its occurrences, and `datetime.now(UTC)`. -/
structure World where
  schedule : Schedule
  occurrences : Occurrences
  clock : Instant

/-- The configuration fields of a `ScheduleUpdate`. -/
structure ScheduleConfig where
  targetType : ScheduleTargetType
  definition : Definition
  misfirePolicy : ScheduleMisfirePolicy
  overlapPolicy : ScheduleOverlapPolicy
  maxCatchUp : ℤ

/-- The transitions. Scheduler passes carry the `now` of their iteration, which the clock may have
passed; a manual trigger reads the clock. -/
inductive Action where
  | tick (now : Instant)
  | due (now : Instant) (env : FireEnv)
  | waiting (now : Instant) (env : FireEnv)
  | trigger (env : FireEnv)
  | activate
  | pause
  | resume
  | update (config : ScheduleConfig)
  | stage (t : Instant)
  | claim (t : Instant)
  | advance (t : Instant) (status : ExecutionStatus)
  | planMaterialized (t : Instant)
  | planFailed (t : Instant) (refusal : Refusal)
  | reconcile (t : Instant) (finishedAt : Option Instant) (now : Instant)

/-- The start of an INTERVAL that has none is the time of its activation. -/
def Definition.anchored (d : Definition) (now : Instant) : Definition :=
  match d.expression, d.startAt with
  | .interval _ _, none => { d with startAt := some now }
  | _, _ => d

/-- `_assert_window`. -/
def Definition.windowOk (d : Definition) : Bool :=
  d.startAt.all fun s => d.endAt.all fun e => decide (s < e)

/-- `activate`. -/
def activateSchedule (c : Calendar) (s : Schedule) (now : Instant) : Option Schedule :=
  if s.status = .active then some s
  else if s.status ≠ .paused then none
  else if !(s.definition.anchored now).windowOk then none
  else
    match nextScheduledAt c (s.definition.anchored now) now with
    | .error _ => none
    | .ok none => none
    | .ok (some next) =>
      some { s with
        status := .active
        definition := s.definition.anchored now
        nextRunAt := some next }

/-- `pause`. -/
def pauseSchedule (s : Schedule) : Option Schedule :=
  match s.status with
  | .paused => some s
  | .active => some { s with status := .paused }
  | _ => none

/-- `resume`: an overdue `next_run_at` is preserved, and computed when it is null. -/
def resumeSchedule (c : Calendar) (s : Schedule) (now : Instant) : Option Schedule :=
  if s.status = .active then some s
  else if s.status ≠ .paused then none
  else if !(s.definition.anchored now).windowOk then none
  else
    match s.nextRunAt with
    | some next =>
      some { s with
        status := .active
        definition := s.definition.anchored now
        nextRunAt := some next }
    | none =>
      match nextScheduledAt c (s.definition.anchored now) now with
      | .error _ => none
      | .ok next =>
        if s.definition.expression.isOnce ∧ next = none then none
        else
          some { s with
            status := .active
            definition := s.definition.anchored now
            nextRunAt := next }

/-- `update` of the configuration. -/
def updateSchedule (s : Schedule) (config : ScheduleConfig) : Option Schedule :=
  if s.status ≠ .paused then none
  else if !config.definition.windowOk then none
  else if config.targetType = .agentVersion ∧ ¬ config.definition.expression.isOnce then none
  else
    some { s with
      targetType := config.targetType
      definition := config.definition
      misfirePolicy := config.misfirePolicy
      overlapPolicy := config.overlapPolicy
      maxCatchUp := config.maxCatchUp
      nextRunAt := none }

/-- `trigger`: a fire that fails its preflight rolls the occurrence back. -/
def triggerSchedule (s : Schedule) (occs : Occurrences) (now : Instant) (env : FireEnv) :
    Option Occurrences :=
  if s.status ≠ .active ∧ s.status ≠ .paused then none
  else if s.targetType = .agentVersion then none
  else
    let (occs, r) := occs.createPlanned now
    if r.status ≠ .planned then none
    else
      let r := { r with decisionReason := some .manualTrigger }
      match tryFireOccurrence s (occs.put r) r now env .user with
      | (occs, .skipped) =>
        if (occs.find? now).any (·.status = .failed) then none else some occs
      | (occs, _) => some occs

/-- What an Execution may become by itself: a terminal status stays, a requested cancellation only
ends, and none comes back to CREATED or QUEUED, which are left to its creation and its staging. -/
def advances (s s' : ExecutionStatus) : Bool :=
  !s.isTerminal && (s ≠ .cancelRequested || s'.isTerminal) && (s' ≠ .created && s' ≠ .queued)

namespace ScheduleOccurrence

/-- `_assert_and_enqueue_occurrence`, with the staging of the Execution. -/
def stage (r : ScheduleOccurrence) : Option ScheduleOccurrence :=
  if r.status = .planned ∧ r.execution = some .created then
    some { r with status := .enqueued, execution := some .queued }
  else none

/-- `_mark_occurrence_running`, with the claim of the Execution. -/
def claim (r : ScheduleOccurrence) : Option ScheduleOccurrence :=
  if r.status = .enqueued ∧ r.execution = some .queued then
    some { r with status := .running, execution := some .running }
  else none

/-- Any other change of status of the Execution. -/
def advance (r : ScheduleOccurrence) (status : ExecutionStatus) : Option ScheduleOccurrence :=
  if r.execution.any (advances · status) then some { r with execution := some status } else none

/-- The planner creates the Execution of a handed over occurrence. -/
def planMaterialized (r : ScheduleOccurrence) : Option ScheduleOccurrence :=
  if r.planOutbox ∧ r.execution = none then some { r with execution := some .created } else none

/-- `_fail_occurrence` of the planner. -/
def planFailed (r : ScheduleOccurrence) (refusal : Refusal) (now : Instant) :
    Option ScheduleOccurrence :=
  if r.planOutbox then
    if r.isOpen then some (r.failOrSkip .failed refusal.reason now) else some r
  else none

end ScheduleOccurrence

/-- One row changes. -/
def Occurrences.updateRow (occs : Occurrences) (t : Instant)
    (f : ScheduleOccurrence → Option ScheduleOccurrence) : Option Occurrences :=
  ((occs.find? t).bind f).map occs.put

namespace World

/-- A Schedule that was just created. -/
structure Initial (w : World) : Prop where
  paused : w.schedule.status = .paused
  agentOnce : w.schedule.targetType = .agentVersion →
    w.schedule.definition.expression.isOnce = true
  noNextRun : w.schedule.nextRunAt = none
  noOccurrences : w.occurrences.rows = []

/-- The transition of an action. -/
def step (c : Calendar) (cfg : RuntimeConfig) (w : World) : Action → Option World
  | .tick now => if w.clock ≤ now then some { w with clock := now } else none
  | .due now env =>
    if w.clock < now then none
    else
      match processDueSchedule c cfg w.schedule w.occurrences now env with
      | .error _ => none
      | .ok (s, occs) => some { w with schedule := s, occurrences := occs }
  | .waiting now env =>
    if w.clock < now then none
    else
      let (s, occs) := processWaitingSchedule w.schedule w.occurrences now env
      some { w with schedule := s, occurrences := occs }
  | .trigger env =>
    (triggerSchedule w.schedule w.occurrences w.clock env).map ({ w with occurrences := · })
  | .activate => (activateSchedule c w.schedule w.clock).map ({ w with schedule := · })
  | .pause => (pauseSchedule w.schedule).map ({ w with schedule := · })
  | .resume => (resumeSchedule c w.schedule w.clock).map ({ w with schedule := · })
  | .update config => (updateSchedule w.schedule config).map ({ w with schedule := · })
  | .stage t => (w.occurrences.updateRow t (·.stage)).map ({ w with occurrences := · })
  | .claim t => (w.occurrences.updateRow t (·.claim)).map ({ w with occurrences := · })
  | .advance t status =>
    (w.occurrences.updateRow t (·.advance status)).map ({ w with occurrences := · })
  | .planMaterialized t =>
    (w.occurrences.updateRow t (·.planMaterialized)).map ({ w with occurrences := · })
  | .planFailed t refusal =>
    (w.occurrences.updateRow t (·.planFailed refusal w.clock)).map ({ w with occurrences := · })
  | .reconcile t finishedAt now =>
    (w.occurrences.updateRow t fun r => some (r.reconcile finishedAt now)).map
      ({ w with occurrences := · })

end World

end McpFlow.Scheduler
