import Mathlib.Data.Prod.Lex
import McpFlow.Execution.Recovery
import McpFlow.Library.Keyset

/-!
# Expired RUNNING Executions

`list_expired_running_ids`: the AgentRequest rows come from one query, the Workflow and Schedule rows
from a paginated scan that skips the plans recovery does not support, and the two are merged. The
scan goes on until enough rows pass, so the result is that of the naive specification.
-/

namespace McpFlow

/-- A row of `executions`, with what the list reads beyond the engine. -/
structure ListedExecution where
  execution : Execution
  /-- `agent_request_id` and `plan_validation_run_id` are set. -/
  agentRequestPinned : Bool
  /-- `ExecutionPlanV1.model_validate` accepts the stored snapshot. -/
  snapshotValid : Bool
deriving DecidableEq

namespace ListedExecution

/-- RUNNING with a lease that has expired. -/
def expired (ts : Time) (row : ListedExecution) : Bool :=
  row.execution.status == .running && row.execution.leaseExpired ts

/-- The `WHERE` of the AgentRequest rows. -/
def agentSelected (ts : Time) (row : ListedExecution) : Bool :=
  row.expired ts && (row.execution.sourceType == .agentRequest ||
    (row.execution.sourceType == .scheduleOccurrence && row.execution.agentVersionId.isSome &&
      row.execution.workflowVersionId.isNone))

/-- The `WHERE` of the Workflow and Schedule pages. -/
def workflowSelected (ts : Time) (row : ListedExecution) : Bool :=
  row.expired ts && (row.execution.sourceType == .workflowVersion ||
    row.execution.sourceType == .scheduleOccurrence)

/-- The filter of the rows of a page. -/
def workflowEligible (row : ListedExecution) : Bool :=
  row.execution.leaseExpiresAt.isSome &&
    !row.execution.isAgentScheduleOccurrence row.agentRequestPinned &&
    (row.snapshotValid && planSupportsWorkflowRunningRecovery row.execution.planSnapshot)

/-- `(lease_expires_at, id)` of a row whose lease is set. -/
def leaseAndId (row : ListedExecution) : Time × UUID :=
  (row.execution.leaseExpiresAt.getD 0, row.execution.id)

end ListedExecution

/-- `ORDER BY lease_expires_at, id`. -/
def leaseOrder (p : Time × UUID) : Time ×ₗ ℕ := toLex (p.1, p.2.int)

/-- The order of the rows. -/
def rowOrder (row : ListedExecution) : Time ×ₗ ℕ := leaseOrder row.leaseAndId

/-- `wf_eligible` after the loop, with pages of `pageSize` rows. -/
def expiredWorkflowRows (fuel pageSize limit : ℕ) (ts : Time) (rows : List ListedExecution) :
    Option (List ListedExecution) :=
  Keyset.scan rowOrder ListedExecution.workflowEligible limit pageSize
    (rows.filter (·.workflowSelected ts)) fuel none []

/-- The distinct ids of the merged rows, up to the limit. -/
def distinctIds (limit : ℕ) : List (Time × UUID) → List UUID → List UUID
  | [], ordered => ordered
  | (_, id) :: merged, ordered =>
    if id ∈ ordered then distinctIds limit merged ordered
    else if limit ≤ (ordered ++ [id]).length then ordered ++ [id]
    else distinctIds limit merged (ordered ++ [id])

/-- `list_expired_running_ids`; `none` when the fuel of the pages is used up. -/
def listExpiredRunningIds (fuel : ℕ) (limit : ℤ) (ts : Time) (rows : List ListedExecution) :
    Option (Except AppError (List UUID)) :=
  if limit < 1 then
    some (.error ⟨"VALIDATION_ERROR", "recovery batch limit must be a positive integer."⟩)
  else
    let batch := limit.toNat
    let agentRows :=
      (Keyset.ordered rowOrder (rows.filter (·.agentSelected ts))).take batch
    (expiredWorkflowRows fuel batch batch ts rows).map fun wfEligible =>
      let merged := agentRows.map (·.leaseAndId) ++ wfEligible.map (·.leaseAndId)
      .ok (distinctIds batch (Keyset.ordered leaseOrder merged) [])

/-! ### The naive specification -/

/-- `executions`, by id. -/
abbrev ExecutionTable := Table fun row : ListedExecution => row.execution.id

/-- The filter of the whole list. -/
def ListedExecution.listed (ts : Time) (row : ListedExecution) : Bool :=
  row.agentSelected ts || (row.workflowSelected ts && row.workflowEligible)

/-- All rows that pass, in order. -/
def expiredRows (ts : Time) (rows : List ListedExecution) : List ListedExecution :=
  Keyset.ordered rowOrder (rows.filter (·.listed ts))

variable {ts : Time} {rows : List ListedExecution}

theorem leaseOrder_injective : Function.Injective leaseOrder := by
  rintro ⟨t, ⟨m, hm⟩⟩ ⟨t', ⟨n, hn⟩⟩ h
  simp only [leaseOrder, toLex_inj, Prod.mk.injEq] at h
  obtain ⟨rfl, rfl⟩ := h
  rfl

/-- Distinct ids are distinct in the order. -/
theorem nodup_rowOrder (h : (rows.map (·.execution.id)).Nodup) : (rows.map rowOrder).Nodup := by
  rw [List.nodup_iff_pairwise_ne, List.pairwise_map] at h ⊢
  refine h.imp fun {a b} hne heq => hne ?_
  have hpair : a.leaseAndId = b.leaseAndId := leaseOrder_injective heq
  exact congrArg Prod.snd hpair

theorem nodup_rowOrder_filter (h : (rows.map (·.execution.id)).Nodup) (p : ListedExecution → Bool) :
    ((rows.filter p).map rowOrder).Nodup :=
  (nodup_rowOrder h).sublist (List.filter_sublist.map rowOrder)

/-- The loop over the merged rows takes the first distinct pairs; an id has one lease. -/
theorem distinctIds_eq {limit : ℕ} (merged : List (Time × UUID)) {found : List (Time × UUID)}
    (hinj : Set.InjOn Prod.snd {p | p ∈ found ++ merged}) (hfound : found.length < limit) :
    distinctIds limit merged (found.map Prod.snd) =
      ((Keyset.distinct merged found).take limit).map Prod.snd := by
  induction merged generalizing found with
  | nil => rw [distinctIds, Keyset.distinct, List.take_of_length_le hfound.le]
  | cons p merged ih =>
    have hmem : p.2 ∈ found.map Prod.snd ↔ p ∈ found := by
      refine ⟨fun h => ?_, List.mem_map_of_mem⟩
      obtain ⟨q, hq, heq⟩ := List.mem_map.mp h
      exact hinj (List.mem_append_left _ hq) (List.mem_append_right _ List.mem_cons_self) heq ▸ hq
    have hsplit : found ++ p :: merged = (found ++ [p]) ++ merged := by
      rw [List.append_assoc, List.singleton_append]
    have hnext : found.map Prod.snd ++ [p.2] = (found ++ [p]).map Prod.snd := by
      rw [List.map_append]
      rfl
    rw [distinctIds, Keyset.distinct]
    by_cases hp : p ∈ found
    · rw [if_pos (hmem.mpr hp), if_pos hp]
      refine ih (hinj.mono fun q hq => ?_) hfound
      exact ((List.sublist_cons_self p merged).append_left found).subset hq
    · rw [if_neg fun h => hp (hmem.mp h), if_neg hp, hnext, List.length_map]
      split
      · next hfull =>
        -- the prefix that has been found is all that is taken
        have hlength : (found ++ [p]).length = limit := by
          rw [List.length_append, List.length_singleton] at hfull ⊢
          omega
        obtain ⟨rest, hrest⟩ := Keyset.prefix_distinct merged (found ++ [p])
        rw [← hrest, ← hlength, List.take_left]
      · next hmore => exact ih (hsplit ▸ hinj) (Nat.lt_of_not_le hmore)

/-- The first rows of a query that keeps some of the listed rows. -/
theorem mem_take_ordered {p : ListedExecution → Bool} {row : ListedExecution} {n : ℕ}
    (hkeys : (rows.map (·.execution.id)).Nodup) (hp : ∀ r, p r = true → r.listed ts = true)
    (hrow : row ∈ (expiredRows ts rows).take n) (hpass : p row = true) :
    row ∈ (Keyset.ordered rowOrder (rows.filter p)).take n := by
  have hfilter : (expiredRows ts rows).filter p = Keyset.ordered rowOrder (rows.filter p) := by
    rw [expiredRows, Keyset.filter_ordered (nodup_rowOrder_filter hkeys _), List.filter_filter]
    refine congrArg _ (List.filter_congr fun r _ => ?_)
    cases hr : p r with
    | false => rfl
    | true => rw [hp r hr]; rfl
  rw [← hfilter]
  exact (Keyset.filter_take_front _ n).subset (List.mem_filter.mpr ⟨hrow, hpass⟩)

/-- The merge of the two queries is the naive specification. -/
theorem merged_eq {limit : ℕ} (hlimit : 0 < limit) (hkeys : (rows.map (·.execution.id)).Nodup) :
    distinctIds limit (Keyset.ordered leaseOrder
        (((Keyset.ordered rowOrder (rows.filter (·.agentSelected ts))).take limit).map
            (·.leaseAndId) ++
          ((Keyset.ordered rowOrder
            (rows.filter fun r => r.workflowSelected ts && r.workflowEligible)).take limit).map
              (·.leaseAndId))) [] =
      ((expiredRows ts rows).take limit).map (·.execution.id) := by
  set agent := (Keyset.ordered rowOrder (rows.filter (·.agentSelected ts))).take limit with hagent
  set workflow := (Keyset.ordered rowOrder
    (rows.filter fun r => r.workflowSelected ts && r.workflowEligible)).take limit with hworkflow
  set all := (expiredRows ts rows).map (·.leaseAndId) with hall
  set merged := Keyset.ordered leaseOrder (agent.map (·.leaseAndId) ++ workflow.map (·.leaseAndId))
    with hmerged
  have hmem (p : Time × UUID) : p ∈ merged ↔ ∃ r, (r ∈ agent ∨ r ∈ workflow) ∧ r.leaseAndId = p := by
    rw [hmerged, Keyset.mem_ordered, List.mem_append, List.mem_map, List.mem_map]
    constructor
    · rintro (⟨r, hr, rfl⟩ | ⟨r, hr, rfl⟩)
      · exact ⟨r, .inl hr, rfl⟩
      · exact ⟨r, .inr hr, rfl⟩
    · rintro ⟨r, hr | hr, rfl⟩
      · exact .inl ⟨r, hr, rfl⟩
      · exact .inr ⟨r, hr, rfl⟩
  have hlisted {r : ListedExecution} (hr : r ∈ agent ∨ r ∈ workflow) : r ∈ expiredRows ts rows := by
    rw [expiredRows, Keyset.mem_ordered, List.mem_filter]
    rcases hr with hr | hr
    · obtain ⟨hr, hpass⟩ := List.mem_filter.mp (Keyset.mem_ordered.mp (List.mem_of_mem_take hr))
      exact ⟨hr, by rw [ListedExecution.listed, hpass]; rfl⟩
    · obtain ⟨hr, hpass⟩ := List.mem_filter.mp (Keyset.mem_ordered.mp (List.mem_of_mem_take hr))
      exact ⟨hr, by rw [ListedExecution.listed, hpass, Bool.or_true]⟩
  have hinj : Set.InjOn Prod.snd {p | p ∈ [] ++ merged} := by
    rintro p hp q hq heq
    obtain ⟨r, hr, rfl⟩ := (hmem p).mp hp
    obtain ⟨r', hr', rfl⟩ := (hmem q).mp hq
    have hrow {r : ListedExecution} (h : r ∈ agent ∨ r ∈ workflow) : r ∈ rows :=
      (List.mem_filter.mp (Keyset.mem_ordered.mp (hlisted h))).1
    rw [List.inj_on_of_nodup_map hkeys (hrow hr) (hrow hr') heq]
  have hincreasing : Keyset.Increasing leaseOrder (Keyset.distinct merged []) := by
    refine Keyset.increasing_distinct leaseOrder_injective.injOn List.Pairwise.nil ?_
    have htotal : Std.Total fun a b : Time × UUID => leaseOrder a ≤ leaseOrder b :=
      ⟨fun a b => le_total (leaseOrder a) (leaseOrder b)⟩
    have htrans : IsTrans (Time × UUID) fun a b => leaseOrder a ≤ leaseOrder b :=
      ⟨fun _ _ _ => le_trans⟩
    exact List.pairwise_insertionSort _ _
  have hallIncreasing : Keyset.Increasing leaseOrder all :=
    List.pairwise_map.mpr (Keyset.increasing_ordered (nodup_rowOrder_filter hkeys _))
  rw [← List.map_nil (f := Prod.snd), distinctIds_eq merged hinj hlimit,
    hincreasing.take_eq hallIncreasing, hall, ← List.map_take, List.map_map]
  · rfl
  · intro p hp
    obtain ⟨r, hr, rfl⟩ := (hmem p).mp ((Keyset.mem_distinct.mp hp).resolve_left List.not_mem_nil)
    exact List.mem_map_of_mem (hlisted hr)
  · intro p hp
    rw [hall, ← List.map_take] at hp
    obtain ⟨r, hr, rfl⟩ := List.mem_map.mp hp
    have hpass := (List.mem_filter.mp (Keyset.mem_ordered.mp (List.mem_of_mem_take hr))).2
    refine Keyset.mem_distinct.mpr (.inr ((hmem _).mpr ⟨r, ?_, rfl⟩))
    rcases Bool.or_eq_true_iff.mp hpass with hpass | hpass
    · exact .inl (mem_take_ordered hkeys (fun r hr => by rw [ListedExecution.listed, hr]; rfl) hr
        hpass)
    · exact .inr (mem_take_ordered hkeys
        (fun r hr => by rw [ListedExecution.listed, hr, Bool.or_true]) hr hpass)

/-- The paginated scan ends and finds the first eligible rows, whatever the page size. -/
theorem expiredWorkflowRows_eq {fuel pageSize limit : ℕ} (hsize : 0 < pageSize)
    (hkeys : (rows.map (·.execution.id)).Nodup) (hfuel : rows.length < fuel) :
    expiredWorkflowRows fuel pageSize limit ts rows = some ((Keyset.ordered rowOrder
      (rows.filter fun r => r.workflowSelected ts && r.workflowEligible)).take limit) := by
  have hselected := nodup_rowOrder_filter hkeys (·.workflowSelected ts)
  rw [expiredWorkflowRows, Keyset.scan_start hsize hselected
    ((List.length_filter_le ..).trans_lt hfuel), Keyset.filter_ordered hselected,
    List.filter_filter]
  simp only [Bool.and_comm]

/-- The list is the naive specification: the first `limit` ids of all rows that pass. It ends for
every table, and the page size of the scan has no effect. -/
theorem listExpiredRunningIds_eq (executions : ExecutionTable) (ts : Time) (limit : ℤ) (fuel : ℕ)
    (hfuel : executions.rows.length < fuel) :
    listExpiredRunningIds fuel limit ts executions.rows = some (
        if limit < 1 then
          .error ⟨"VALIDATION_ERROR", "recovery batch limit must be a positive integer."⟩
        else .ok (((expiredRows ts executions.rows).take limit.toNat).map (·.execution.id))) ∧
      ∀ pageSize, 0 < pageSize →
        expiredWorkflowRows fuel pageSize limit.toNat ts executions.rows =
          some ((Keyset.ordered rowOrder (executions.rows.filter fun r =>
            r.workflowSelected ts && r.workflowEligible)).take limit.toNat) := by
  refine ⟨?_, fun pageSize hsize => expiredWorkflowRows_eq hsize executions.nodup_keys hfuel⟩
  unfold listExpiredRunningIds
  split
  · rfl
  · next hpositive =>
    have hlimit : 0 < limit.toNat := by omega
    dsimp only
    rw [expiredWorkflowRows_eq hlimit executions.nodup_keys hfuel, Option.map_some,
      merged_eq hlimit executions.nodup_keys]

/-- An expired row of a source; only the snapshots of the supported ones are valid. -/
def expiredRow (id : UUID) (sourceType : ExecutionSourceType) (lease : Time) (supported : Bool) :
    ListedExecution where
  execution :=
    { id := id
      sourceType := sourceType
      triggerType := .user
      requesterId := .ofNat 9
      agentVersionId := none
      workflowVersionId := none
      scheduleOccurrenceId := none
      status := .running
      planSnapshot := ⟨.ofNat 1 1 1, []⟩
      planHash := .replicate 'a' Text.isLowerHex_a
      errorCode := none
      queuedAt := some 0
      startedAt := some 0
      finishedAt := none
      cancelRequestedAt := none
      cancelRequestedBy := none
      workerId := some "worker"
      leaseToken := some (.ofNat 8)
      leaseExpiresAt := some lease
      heartbeatAt := some 0 }
  agentRequestPinned := false
  snapshotValid := supported

/-- Two rows with one lease behind an unsupported one. -/
def expiredTable : ExecutionTable where
  rows := [expiredRow (.ofNat 3) .agentRequest 5 true,
    expiredRow (.ofNat 1) .workflowVersion 2 false,
    expiredRow (.ofNat 2) .workflowVersion 5 true]
  nodup_keys := by decide

/-- The unsupported row fills the first page and starves neither of the others. -/
theorem listExpiredRunningIds_expiredTable :
    listExpiredRunningIds 4 1 7 expiredTable.rows = some (.ok [⟨2, by decide⟩]) ∧
      expiredWorkflowRows 4 2 1 7 expiredTable.rows =
        some [expiredRow ⟨2, by decide⟩ .workflowVersion 5 true] := by
  have h := listExpiredRunningIds_eq expiredTable 7 1 4 (by decide)
  exact ⟨h.1.trans (by decide +kernel), (h.2 2 (by decide)).trans (by decide +kernel)⟩

end McpFlow
