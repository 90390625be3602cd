import McpFlow.Execution.State
import McpFlow.Planner.Model
import McpFlow.Scheduler.Recurrence

/-!
# The rows of a Schedule

A Schedule, its occurrences and the status of their Executions. Two occurrences of a Schedule never
share an instant and an occurrence has at most one Execution (both are unique constraints), so the
instant is the key of the table and the Execution stands in the row of its occurrence.
-/

namespace McpFlow.Scheduler

open Planner (OccurrenceStatus)

/-- `ScheduleStatus`. -/
inductive ScheduleStatus where
  | active
  | paused
  | completed
  | error
deriving DecidableEq, Repr

/-- `ScheduleTargetType`. -/
inductive ScheduleTargetType where
  | agentVersion
  | workflowVersion
deriving DecidableEq, Repr

/-- `ScheduleMisfirePolicy`. -/
inductive ScheduleMisfirePolicy where
  | skip
  | runOnce
  | catchUpLimited
deriving DecidableEq, Repr

/-- `ScheduleOverlapPolicy`. -/
inductive ScheduleOverlapPolicy where
  | allow
  | skip
  | queue
  | replace
deriving DecidableEq, Repr

/-- The canonical `decision_reason` values. -/
inductive DecisionReason where
  | due
  | manualTrigger
  | misfireSkip
  | misfireRunOnce
  | misfireCatchUp
  | misfireCoalesced
  | misfireCatchUpLimit
  | overlapSkip
  | overlapQueue
  | overlapReplace
  | overlapReplaceWait
  | replaceSuperseded
  | targetPreconditionFailed
  | authorizationRevoked
  | agentScheduleExecutionUnsupported
  | agentPlanQueued
deriving DecidableEq, Repr

/-- A row of `schedules`: the columns that the runtime reads. -/
structure Schedule where
  status : ScheduleStatus
  targetType : ScheduleTargetType
  definition : Definition
  misfirePolicy : ScheduleMisfirePolicy
  overlapPolicy : ScheduleOverlapPolicy
  maxCatchUp : ℤ
  nextRunAt : Option Instant
deriving DecidableEq

/-- A row of `schedule_occurrences` with the status of its Execution and whether the outbox has its
`AGENT_SCHEDULE_PLAN` row. -/
structure ScheduleOccurrence where
  scheduledFor : Instant
  status : OccurrenceStatus
  decisionReason : Option DecisionReason
  finishedAt : Option Instant
  execution : Option ExecutionStatus
  planOutbox : Bool
deriving DecidableEq

/-- The occurrences of one Schedule. -/
abbrev Occurrences := Table ScheduleOccurrence.scheduledFor

/-- `_WAIT_REASONS`. -/
def DecisionReason.isWait (r : DecisionReason) : Bool := r = .overlapQueue ∨ r = .overlapReplaceWait

/-- `ScheduleType.ONCE`. -/
def Expression.isOnce : Expression → Bool
  | .once _ => true
  | _ => false

namespace ScheduleOccurrence

/-- The occurrence is PLANNED with a wait reason: what `_list_waiting_occurrences` and
`_has_unmaterialized_held` select. -/
def isWaiting (r : ScheduleOccurrence) : Bool :=
  r.status = .planned ∧ r.decisionReason.any (·.isWait)

/-- The Execution of the occurrence is not terminal. -/
def isRunning (r : ScheduleOccurrence) : Bool := r.execution.any fun s => !s.isTerminal

/-- The rows that `_active_priors` selects by status. -/
def isOpen (r : ScheduleOccurrence) : Bool :=
  r.status = .planned ∨ r.status = .enqueued ∨ r.status = .running

/-- The choice of `_active_priors` among the earlier rows. -/
def isActivePrior (r : ScheduleOccurrence) : Bool :=
  r.isOpen &&
    match r.execution with
    | some s => !s.isTerminal
    | none => r.isWaiting || r.status = .enqueued || r.status = .running

/-- `_fail_or_skip_occurrence`. -/
def failOrSkip (r : ScheduleOccurrence) (status : OccurrenceStatus) (reason : DecisionReason)
    (now : Instant) : ScheduleOccurrence :=
  { r with
    status := status
    decisionReason := some reason
    finishedAt := some now }

@[simp] theorem scheduledFor_failOrSkip (r : ScheduleOccurrence) (status : OccurrenceStatus)
    (reason : DecisionReason) (now : Instant) :
    (r.failOrSkip status reason now).scheduledFor = r.scheduledFor := rfl

theorem isActivePrior_of_isRunning {r : ScheduleOccurrence} (hopen : r.isOpen = true)
    (hrun : r.isRunning = true) : r.isActivePrior = true := by
  obtain ⟨s, hs, hlive⟩ := (Option.any_eq_true _ _).mp hrun
  simp only [isActivePrior, hopen, hs, hlive, Bool.and_self]

theorem isOpen_of_isWaiting {r : ScheduleOccurrence} (h : r.isWaiting = true) : r.isOpen = true := by
  simp only [isWaiting, Bool.decide_and, Bool.and_eq_true, decide_eq_true_eq] at h
  simp only [isOpen, h.1, true_or, decide_true]

/-- A waiting occurrence without an Execution blocks the later ones. -/
theorem isActivePrior_of_isWaiting {r : ScheduleOccurrence} (h : r.isWaiting = true)
    (hexec : r.execution = none) : r.isActivePrior = true := by
  simp only [isActivePrior, isOpen_of_isWaiting h, hexec, h, Bool.true_or, Bool.and_self]

end ScheduleOccurrence

/-- `_project_occurrence_status`. -/
def projectOccurrenceStatus : ExecutionStatus → OccurrenceStatus
  | .created => .planned
  | .queued => .enqueued
  | .running => .running
  | .waitingInput => .running
  | .waitingApproval => .running
  | .cancelRequested => .running
  | .succeeded => .completed
  | .partiallySucceeded => .completed
  | .failed => .failed
  | .timedOut => .failed
  | .cancelled => .failed

theorem projectOccurrenceStatus_of_isTerminal {s : ExecutionStatus} (h : s.isTerminal = true) :
    projectOccurrenceStatus s = .completed ∨ projectOccurrenceStatus s = .failed := by
  cases s <;> simp [projectOccurrenceStatus, ExecutionStatus.isTerminal] at h ⊢

namespace Occurrences

/-- The row that `create_planned` inserts. -/
def planned (scheduledFor : Instant) : ScheduleOccurrence where
  scheduledFor := scheduledFor
  status := .planned
  decisionReason := none
  finishedAt := none
  execution := none
  planOutbox := false

/-- `create_planned`: the row of the instant, new when there was none. -/
def createPlanned (occs : Occurrences) (scheduledFor : Instant) :
    Occurrences × ScheduleOccurrence :=
  match occs.find? scheduledFor with
  | some r => (occs, r)
  | none => ((occs.insert? (planned scheduledFor)).getD occs, planned scheduledFor)

/-- `_active_priors`; the order of the answer is not read. -/
def activePriors (occs : Occurrences) (before : Instant) : List ScheduleOccurrence :=
  occs.rows.filter fun r => decide (r.scheduledFor < before) && r.isActivePrior

/-- `_list_waiting_occurrences`, by instant. -/
def listWaiting (occs : Occurrences) : List Instant :=
  ((occs.rows.filter (·.isWaiting)).map (·.scheduledFor)).insertionSort (· ≤ ·)

/-- `_has_unmaterialized_held`. -/
def hasUnmaterializedHeld (occs : Occurrences) : Bool := occs.rows.any (·.isWaiting)

theorem mem_activePriors {occs : Occurrences} {before : Instant} {r : ScheduleOccurrence} :
    r ∈ occs.activePriors before ↔ r ∈ occs ∧ r.scheduledFor < before ∧ r.isActivePrior = true := by
  simp only [activePriors, List.mem_filter, Bool.and_eq_true, decide_eq_true_eq, Table.mem_def]

theorem activePriors_eq_nil_iff {occs : Occurrences} {before : Instant} :
    occs.activePriors before = [] ↔
      ∀ r ∈ occs, r.scheduledFor < before → r.isActivePrior = false := by
  simp only [List.eq_nil_iff_forall_not_mem, mem_activePriors, not_and, Bool.not_eq_true]

theorem mem_listWaiting {occs : Occurrences} {t : Instant} :
    t ∈ occs.listWaiting ↔ ∃ r ∈ occs, r.isWaiting = true ∧ r.scheduledFor = t := by
  simp only [listWaiting, List.mem_insertionSort, List.mem_map, List.mem_filter, Table.mem_def, and_assoc]

theorem sorted_listWaiting (occs : Occurrences) : occs.listWaiting.Pairwise (· < ·) := by
  have hle : occs.listWaiting.Pairwise (· ≤ ·) := List.pairwise_insertionSort _ _
  have hnodup : occs.listWaiting.Nodup :=
    (List.perm_insertionSort _ _).nodup_iff.mpr
      (occs.nodup_keys.sublist (List.filter_sublist.map _))
  exact (hle.and hnodup).imp fun h => lt_of_le_of_ne h.1 h.2

theorem hasUnmaterializedHeld_iff {occs : Occurrences} :
    occs.hasUnmaterializedHeld = true ↔ ∃ r ∈ occs, r.isWaiting = true := List.any_eq_true

/-- The row of `create_planned` is in the table afterwards. -/
theorem mem_createPlanned (occs : Occurrences) (t : Instant) :
    (occs.createPlanned t).2 ∈ (occs.createPlanned t).1 ∧
      (occs.createPlanned t).2.scheduledFor = t := by
  rw [createPlanned]
  split
  · case h_1 r hr => exact Table.find?_eq_some_iff.mp hr
  · case h_2 hr =>
    obtain ⟨occs', hins⟩ := Table.exists_insert? (r := planned t) (Table.find?_eq_none_iff.mp hr)
    rw [hins]
    exact ⟨(Table.mem_of_insert? hins).mpr (.inr rfl), rfl⟩

/-- `create_planned` keeps the rows that there were. -/
theorem mem_createPlanned_iff {occs : Occurrences} {t : Instant} {r : ScheduleOccurrence} :
    r ∈ (occs.createPlanned t).1 ↔ r ∈ occs ∨ r = (occs.createPlanned t).2 := by
  rw [createPlanned]
  split
  · case h_1 s hs =>
    refine ⟨.inl, ?_⟩
    rintro (h | rfl)
    · exact h
    · exact Table.mem_of_find? hs
  · case h_2 hr =>
    obtain ⟨occs', hins⟩ := Table.exists_insert? (r := planned t) (Table.find?_eq_none_iff.mp hr)
    rw [hins]
    exact Table.mem_of_insert? hins

/-- The row of `create_planned` is the old one of its instant, or a new PLANNED one. -/
theorem createPlanned_cases (occs : Occurrences) (t : Instant) :
    (occs.createPlanned t).2 ∈ occs ∨
      ((occs.createPlanned t).2 = planned t ∧ ∀ r ∈ occs, r.scheduledFor ≠ t) := by
  rw [createPlanned]
  split
  · case h_1 r hr => exact .inl (Table.mem_of_find? hr)
  · case h_2 hr => exact .inr ⟨rfl, Table.find?_eq_none_iff.mp hr⟩

end Occurrences

end McpFlow.Scheduler
