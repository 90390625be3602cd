import McpFlow.Execution.DagOrder
import McpFlow.Library.Topological

/-!
# The scheduling order is topological

Kahn's algorithm over the edges of a validated DAG: the count of a key is the number of its
dependencies that are not taken yet, the queue holds the keys whose count has come to zero, and so
a key is taken after its dependencies. Where the edges are closed and without a cycle, no key is
left.
-/

namespace McpFlow

variable {plan : ExecutionPlanV1} {steps : List ExecutionStep}
  {edges : List (String × List String)} {keys : List String}

/-! ### The edges -/

/-- The dependencies of a key, none where it has no edge. -/
def edgeDeps (edges : List (String × List String)) (stepKey : String) : List String :=
  (Dict.get? edges stepKey).getD []

theorem edgeDeps_of_mem (hkeys : (Dict.keys edges).Nodup) {p : String × List String}
    (hp : p ∈ edges) : edgeDeps edges p.1 = p.2 := by
  rw [edgeDeps, Dict.get?_of_mem hkeys hp, Option.getD_some]

theorem edgeDeps_of_not_mem {k : String} (hk : k ∉ Dict.keys edges) : edgeDeps edges k = [] := by
  rw [edgeDeps, Option.getD_eq_iff]
  refine .inr ⟨?_, rfl⟩
  exact Option.eq_none_iff_forall_ne_some.mpr fun v hv => hk (Dict.mem_keys_iff.mpr ⟨v, hv⟩)

theorem mem_edges_iff (hkeys : (Dict.keys edges).Nodup) {k : String} {ds : List String} :
    (k, ds) ∈ edges ↔ k ∈ Dict.keys edges ∧ edgeDeps edges k = ds := by
  constructor
  · intro h
    exact ⟨List.mem_map_of_mem h, edgeDeps_of_mem hkeys h⟩
  · rintro ⟨hk, rfl⟩
    obtain ⟨p, hp, rfl⟩ := List.mem_map.mp hk
    rw [edgeDeps_of_mem hkeys hp]
    exact hp

/-- An edge for each time a dependency is named. -/
theorem count_dependentsOf (hkeys : (Dict.keys edges).Nodup) (cur k : String) :
    (dependentsOf edges cur).count k = (edgeDeps edges k).count cur := by
  induction edges with
  | nil => rfl
  | cons p edges ih =>
    rw [Dict.keys, List.map_cons, List.nodup_cons] at hkeys
    have hcons : dependentsOf (p :: edges) cur =
        ((p.2.filter (· = cur)).map fun _ => p.1) ++ dependentsOf edges cur := rfl
    have hrow : ((p.2.filter (· = cur)).map fun _ => p.1).count k =
        if p.1 = k then p.2.count cur else 0 := by
      rw [List.map_const', List.count_replicate, List.count_eq_length_filter]
      simp only [beq_iff_eq]
      rfl
    rw [hcons, List.count_append, hrow, ih hkeys.2, edgeDeps, edgeDeps, Dict.get?_cons]
    split
    · next hpk =>
      have hnone : edgeDeps edges k = [] := edgeDeps_of_not_mem (hpk ▸ hkeys.1)
      rw [edgeDeps] at hnone
      rw [hnone, List.count_nil, Option.getD_some, Nat.add_zero]
    · rw [Nat.zero_add]

theorem mem_dependentsOf (hkeys : (Dict.keys edges).Nodup) {cur k : String} :
    k ∈ dependentsOf edges cur ↔ cur ∈ edgeDeps edges k := by
  rw [← List.count_pos_iff, count_dependentsOf hkeys, List.count_pos_iff]

/-! ### The dependents -/

/-- `ToolJoinDag.dependents[step_key]`. -/
def ToolJoinDag.dependentsOf (dag : ToolJoinDag) (stepKey : String) : List String :=
  (dag.dependents.get? stepKey).getD []

theorem get?_foldl_append (ds : List String) (d : Dict (List String)) (k j : String) :
    ((ds.foldl (fun d dep => d.set dep ((d.get? dep).getD [] ++ [k])) d).get? j).getD [] =
        (d.get? j).getD [] ++ List.replicate (ds.count j) k ∧
      (((ds.foldl (fun d dep => d.set dep ((d.get? dep).getD [] ++ [k])) d).get? j).isSome ↔
        (d.get? j).isSome ∨ j ∈ ds) := by
  induction ds generalizing d with
  | nil => simp
  | cons dep ds ih =>
    obtain ⟨hval, hsome⟩ := ih (d.set dep ((d.get? dep).getD [] ++ [k]))
    rw [List.foldl_cons, hval, hsome, Dict.get?_set, List.count_cons]
    by_cases hdep : dep = j
    · subst hdep
      simp [List.replicate_succ]
    · have hne : j ≠ dep := fun heq => hdep heq.symm
      simp [hdep, hne]

theorem get?_addDependents (d : Dict (List String)) (p : String × List String) (j : String) :
    ((addDependents d p).get? j).getD [] =
        (d.get? j).getD [] ++ List.replicate (p.2.count j) p.1 ∧
      (((addDependents d p).get? j).isSome ↔ (d.get? j).isSome ∨ j = p.1 ∨ j ∈ p.2) := by
  obtain ⟨hval, hsome⟩ := get?_foldl_append p.2 (d.setDefault p.1 []) p.1 j
  rw [addDependents, hval, hsome, Dict.get?_setDefault]
  by_cases hp : p.1 = j
  · subst hp
    simp
  · have hne : j ≠ p.1 := fun heq => hp heq.symm
    simp [hp, hne]

theorem get?_foldl_addDependents (edges : List (String × List String)) (d : Dict (List String))
    (j : String) :
    ((edges.foldl addDependents d).get? j).getD [] = (d.get? j).getD [] ++ dependentsOf edges j ∧
      (((edges.foldl addDependents d).get? j).isSome ↔
        (d.get? j).isSome ∨ ∃ p ∈ edges, j = p.1 ∨ j ∈ p.2) := by
  induction edges generalizing d with
  | nil => simp [dependentsOf]
  | cons p edges ih =>
    obtain ⟨hval, hsome⟩ := ih (addDependents d p)
    obtain ⟨hone, honeSome⟩ := get?_addDependents d p j
    have hcons : dependentsOf (p :: edges) j =
        List.replicate (p.2.count j) p.1 ++ dependentsOf edges j := by
      have hrow : ((p.2.filter (· = j)).map fun _ => p.1) = List.replicate (p.2.count j) p.1 := by
        rw [List.map_const', List.count_eq_length_filter]
        rfl
      rw [dependentsOf, List.flatMap_cons, hrow]
      rfl
    rw [List.foldl_cons, hval, hsome, hone, honeSome, hcons, List.append_assoc]
    simp only [List.exists_mem_cons_iff, or_assoc, true_and]

/-- The dependents that the validation collects. -/
theorem get?_dependentsMap (hclosed : ∀ p ∈ edges, ∀ d ∈ p.2, d ∈ Dict.keys edges) (j : String) :
    ((dependentsMap edges edges).get? j).getD [] = dependentsOf edges j ∧
      (((dependentsMap edges edges).get? j).isSome ↔ j ∈ Dict.keys edges) := by
  have hdefault : ∀ (ps : List (String × List String)) (d : Dict (List String)),
      ((ps.foldl (fun d p => d.setDefault p.1 []) d).get? j).getD [] = (d.get? j).getD [] ∧
        (((ps.foldl (fun d p => d.setDefault p.1 []) d).get? j).isSome ↔
          (d.get? j).isSome ∨ j ∈ Dict.keys ps) := by
    intro ps
    induction ps with
    | nil => simp [Dict.keys]
    | cons p ps ih =>
      intro d
      obtain ⟨hval, hsome⟩ := ih (d.setDefault p.1 [])
      rw [List.foldl_cons, hval, hsome, Dict.get?_setDefault, Dict.keys, Dict.keys, List.map_cons,
        List.mem_cons]
      by_cases hp : p.1 = j
      · subst hp
        simp
      · have hne : j ≠ p.1 := fun heq => hp heq.symm
        simp [hp, hne]
  obtain ⟨hval, hsome⟩ := hdefault edges (edges.foldl addDependents [])
  obtain ⟨hadd, haddSome⟩ := get?_foldl_addDependents edges [] j
  rw [dependentsMap, hval, hsome, hadd, haddSome]
  refine ⟨rfl, ?_⟩
  constructor
  · rintro ((hnone | ⟨p, hp, rfl | hd⟩) | hkey)
    · cases hnone
    · exact List.mem_map_of_mem hp
    · exact hclosed p hp j hd
    · exact hkey
  · exact .inr

/-! ### Dropping the edges behind a key -/

/-- The edges left before a key. -/
def edgesLeft (indeg : Dict ℤ) (k : String) : ℤ := (indeg.get? k).getD 0

theorem edgesLeft_set (indeg : Dict ℤ) (j k : String) (n : ℤ) :
    edgesLeft (indeg.set j n) k = if j = k then n else edgesLeft indeg k := by
  unfold edgesLeft
  rw [Dict.get?_set]
  split <;> rfl

theorem dropEdge_eq (indeg : Dict ℤ) (queue : List String) (j : String) :
    dropEdge (indeg, queue) j = (indeg.set j (edgesLeft indeg j - 1),
      if edgesLeft indeg j = 1 then queue ++ [j] else queue) := by
  unfold dropEdge edgesLeft
  simp only [sub_eq_zero]

/-- The counts go down by the edges that are dropped. -/
theorem edgesLeft_foldl (next : List String) (indeg : Dict ℤ) (queue : List String) (k : String) :
    edgesLeft (next.foldl dropEdge (indeg, queue)).1 k = edgesLeft indeg k - next.count k := by
  induction next generalizing indeg queue with
  | nil => simp
  | cons j next ih =>
    rw [List.foldl_cons, dropEdge_eq, ih, edgesLeft_set, List.count_cons]
    by_cases hjk : j = k
    · subst hjk
      simp only [if_true, beq_self_eq_true, Nat.cast_add, Nat.cast_one]
      omega
    · simp only [hjk, if_false, beq_iff_eq, Nat.add_zero]

/-- A key joins the queue when its last edge is dropped. -/
theorem mem_foldl_dropEdge (next : List String) (indeg : Dict ℤ) (queue : List String)
    (hbound : ∀ k ∈ next, (next.count k : ℤ) ≤ edgesLeft indeg k) (k : String) :
    k ∈ (next.foldl dropEdge (indeg, queue)).2 ↔
      k ∈ queue ∨ k ∈ next ∧ edgesLeft indeg k = next.count k := by
  induction next generalizing indeg queue with
  | nil => simp
  | cons j next ih =>
    have hleft := hbound j List.mem_cons_self
    rw [List.count_cons_self] at hleft
    have hrest : ∀ i ∈ next,
        (next.count i : ℤ) ≤ edgesLeft (indeg.set j (edgesLeft indeg j - 1)) i := by
      intro i hi
      rw [edgesLeft_set]
      split
      · next hji =>
        subst hji
        omega
      · next hji =>
        have := hbound i (List.mem_cons_of_mem _ hi)
        rwa [List.count_cons_of_ne hji] at this
    rw [List.foldl_cons, dropEdge_eq, ih _ _ hrest, edgesLeft_set]
    by_cases hjk : j = k
    · subst hjk
      rw [List.count_cons_self, if_pos rfl]
      by_cases hlast : edgesLeft indeg j = 1
      · have hnone : next.count j = 0 := by omega
        simp [hlast, hnone]
      · rw [if_neg hlast]
        refine or_congr_right ?_
        constructor
        · rintro ⟨-, heq⟩
          exact ⟨List.mem_cons_self, by omega⟩
        · rintro ⟨-, heq⟩
          have hpos : 0 < next.count j := by omega
          exact ⟨List.count_pos_iff.mp hpos, by omega⟩
    · rw [if_neg hjk, List.count_cons_of_ne hjk, List.mem_cons]
      have hqueue : k ∈ (if edgesLeft indeg j = 1 then queue ++ [j] else queue) ↔ k ∈ queue := by
        split
        · rw [List.mem_append, List.mem_singleton]
          exact or_iff_left fun hkj => hjk hkj.symm
        · rfl
      rw [hqueue]
      exact or_congr_right (and_congr_left fun _ => (or_iff_right fun hkj => hjk hkj.symm).symm)

/-! ### The algorithm -/

/-- Between two turns of the queue: what is taken is topological, a count is the number of the
dependencies not taken yet, and a key waits in the queue when all of them are. -/
structure ScheduleInv (edges : List (String × List String)) (indeg : Dict ℤ)
    (queue seen : List String) : Prop where
  queued : QueueInv (Dict.keys edges) indeg (seen ++ queue)
  topological : Topological (edgeDeps edges) seen
  count : ∀ k ∈ Dict.keys edges,
    edgesLeft indeg k = ((edgeDeps edges k).countP fun d => decide (d ∉ seen) : ℕ)
  waiting : ∀ k ∈ Dict.keys edges, k ∉ seen →
    (k ∈ queue ↔ ∀ d ∈ edgeDeps edges k, d ∈ seen)

theorem countP_not_mem_concat {seen : List String} {cur : String} (hcur : cur ∉ seen)
    (deps : List String) :
    (deps.countP fun d => decide (d ∉ seen ++ [cur])) + deps.count cur =
      deps.countP fun d => decide (d ∉ seen) := by
  induction deps with
  | nil => rfl
  | cons d deps ih =>
    rw [List.countP_cons, List.countP_cons, List.count_cons]
    by_cases hd : d = cur
    · subst hd
      simp [hcur] at ih ⊢
      omega
    · by_cases hseen : d ∈ seen <;> simp [hd, hseen] at ih ⊢ <;> omega

namespace ScheduleInv

variable {indeg : Dict ℤ} {queue seen : List String} {cur : String}

/-- One turn of the queue. -/
theorem step (hkeys : (Dict.keys edges).Nodup) (h : ScheduleInv edges indeg (cur :: queue) seen) :
    ScheduleInv edges
      ((sortKeys plan steps (dependentsOf edges cur)).foldl dropEdge (indeg, queue)).1
      (sortKeys plan steps
        ((sortKeys plan steps (dependentsOf edges cur)).foldl dropEdge (indeg, queue)).2)
      (seen ++ [cur]) := by
  have hperm : (sortKeys plan steps (dependentsOf edges cur)).Perm (dependentsOf edges cur) :=
    perm_sortKeys plan steps _
  have hcount (k : String) : (sortKeys plan steps (dependentsOf edges cur)).count k =
      (edgeDeps edges k).count cur := (hperm.count_eq k).trans (count_dependentsOf hkeys cur k)
  have hnext (k : String) (hk : k ∈ sortKeys plan steps (dependentsOf edges cur)) :
      k ∈ Dict.keys edges := by
    obtain ⟨p, hp, hk⟩ := List.mem_flatMap.mp (hperm.mem_iff.mp hk)
    obtain ⟨-, -, rfl⟩ := List.mem_map.mp hk
    exact List.mem_map_of_mem hp
  obtain ⟨hcurKey, hcurSeen, hcurQueue⟩ :
      cur ∈ Dict.keys edges ∧ cur ∉ seen ∧ cur ∉ queue := by
    have hnodup := List.nodup_append.mp h.queued.nodup
    refine ⟨h.queued.known cur (by simp), fun hmem => ?_, (List.nodup_cons.mp hnodup.2.1).1⟩
    exact hnodup.2.2 cur hmem cur List.mem_cons_self rfl
  have hcurDeps : ∀ d ∈ edgeDeps edges cur, d ∈ seen :=
    (h.waiting cur hcurKey hcurSeen).mp List.mem_cons_self
  have hleft (k : String) (hk : k ∈ Dict.keys edges) :
      edgesLeft indeg k = (((edgeDeps edges k).countP fun d => decide (d ∉ seen ++ [cur])) +
        (edgeDeps edges k).count cur : ℕ) := by
    rw [countP_not_mem_concat hcurSeen, h.count k hk]
  refine ⟨?_, h.topological.concat hcurDeps, fun k hk => ?_, fun k hk hknew => ?_⟩
  · have hqueue : QueueInv (Dict.keys edges) indeg ((seen ++ [cur]) ++ queue) := by
      rw [List.append_assoc]
      exact h.queued
    exact (hqueue.dropEdges _ hnext).perm ((perm_sortKeys plan steps _).append_left _)
  · rw [edgesLeft_foldl, hcount, hleft k hk]
    omega
  · rw [(perm_sortKeys plan steps _).mem_iff, mem_foldl_dropEdge]
    · rw [hcount, hperm.mem_iff, mem_dependentsOf hkeys, hleft k hk]
      rw [List.mem_append, List.mem_singleton, not_or] at hknew
      have hold := h.waiting k hk hknew.1
      rw [List.mem_cons, or_iff_right hknew.2] at hold
      have hzero : ((edgeDeps edges k).countP fun d => decide (d ∉ seen ++ [cur])) = 0 ↔
          ∀ d ∈ edgeDeps edges k, d ∈ seen ++ [cur] := by
        rw [List.countP_eq_zero]
        simp only [decide_eq_true_eq, not_not]
      rw [← hzero, hold]
      constructor
      · rintro (hall | ⟨-, heq⟩)
        · rw [hzero]
          exact fun d hd => List.mem_append_left _ (hall d hd)
        · omega
      · intro hdone
        by_cases hmem : cur ∈ edgeDeps edges k
        · exact .inr ⟨hmem, by rw [hdone, Nat.zero_add]⟩
        · refine .inl fun d hd => ?_
          rcases List.mem_append.mp (hzero.mp hdone d hd) with hd' | hd'
          · exact hd'
          · exact absurd (List.mem_singleton.mp hd' ▸ hd) hmem
    · intro k hk
      rw [hcount, hleft k (hnext k hk)]
      omega

/-- The queue before the first turn: the keys without dependencies. -/
theorem initial (hkeys : (Dict.keys edges).Nodup) :
    ScheduleInv edges (edges.map fun p => (p.1, (p.2.length : ℤ)))
      (sortKeys plan steps ((edges.filter (·.2.isEmpty)).map (·.1))) [] := by
  have hget (k : String) (hk : k ∈ Dict.keys edges) :
      edgesLeft (edges.map fun p => (p.1, (p.2.length : ℤ))) k = (edgeDeps edges k).length := by
    obtain ⟨p, hp, rfl⟩ := List.mem_map.mp hk
    have hkeys' : Dict.keys (edges.map fun p => (p.1, (p.2.length : ℤ))) = Dict.keys edges := by
      rw [Dict.keys, List.map_map]
      rfl
    have hmem : (p.1, (p.2.length : ℤ)) ∈ edges.map fun p => (p.1, (p.2.length : ℤ)) :=
      List.mem_map_of_mem hp
    rw [edgesLeft, Dict.get?_of_mem (hkeys' ▸ hkeys) hmem, edgeDeps_of_mem hkeys hp,
      Option.getD_some]
  have hroot (k : String) : k ∈ (edges.filter (·.2.isEmpty)).map (·.1) ↔
      k ∈ Dict.keys edges ∧ edgeDeps edges k = [] := by
    rw [← mem_edges_iff hkeys, List.mem_map]
    simp only [List.mem_filter, List.isEmpty_iff]
    constructor
    · rintro ⟨⟨_, _⟩, ⟨hp, rfl⟩, rfl⟩
      exact hp
    · exact fun hp => ⟨(k, []), ⟨hp, rfl⟩, rfl⟩
  have hsub : ((edges.filter (·.2.isEmpty)).map (·.1)).Sublist (Dict.keys edges) :=
    List.filter_sublist.map Prod.fst
  refine ⟨QueueInv.perm ?_ (perm_sortKeys plan steps _), .nil, fun k hk => ?_, fun k hk _ => ?_⟩
  · refine ⟨hkeys.sublist hsub, fun k hk => hsub.subset hk, fun k hk => ?_⟩
    have hk := (hroot k).mp hk
    have hzero := hget k hk.1
    rw [hk.2] at hzero
    exact hzero.le
  · rw [hget k hk]
    simp
  · rw [(perm_sortKeys plan steps _).mem_iff, hroot, and_iff_right hk]
    simp [List.eq_nil_iff_forall_not_mem]

/-- The keys taken come after their dependencies. -/
theorem kahn_topological (hkeys : (Dict.keys edges).Nodup) (fuel : ℕ)
    (h : ScheduleInv edges indeg queue seen) :
    Topological (edgeDeps edges) (kahn plan steps edges fuel indeg queue seen) := by
  induction fuel generalizing indeg queue seen with
  | zero => exact h.topological
  | succ fuel ih =>
    cases queue with
    | nil => exact h.topological
    | cons cur queue => exact ih (h.step hkeys)

/-- Without cycles, no key is left. -/
theorem kahn_complete (hkeys : (Dict.keys edges).Nodup)
    (hclosed : ∀ k ∈ Dict.keys edges, ∀ d ∈ edgeDeps edges k, d ∈ Dict.keys edges)
    (hacyclic : Acyclic (edgeDeps edges)) (fuel : ℕ) (h : ScheduleInv edges indeg queue seen)
    (hfuel : edges.length ≤ seen.length + fuel) :
    ∀ k ∈ Dict.keys edges, k ∈ kahn plan steps edges fuel indeg queue seen := by
  induction fuel generalizing indeg queue seen with
  | zero =>
    have hsub : seen.Subperm (Dict.keys edges) :=
      List.subperm_of_subset h.queued.nodup.of_append_left
        fun k hk => h.queued.known k (List.mem_append_left _ hk)
    have hperm := hsub.perm_of_length_le (by rwa [Dict.keys, List.length_map])
    exact fun k hk => hperm.mem_iff.mpr hk
  | succ fuel ih =>
    cases queue with
    | nil =>
      by_contra hleft
      rw [kahn] at hleft
      simp only [not_forall] at hleft
      obtain ⟨k, hk, hnew⟩ := hleft
      obtain ⟨k, hk, hnew, hready⟩ := hacyclic.exists_ready hclosed ⟨k, hk, hnew⟩
      exact List.not_mem_nil ((h.waiting k hk hnew).mpr hready)
    | cons cur queue =>
      refine ih (h.step hkeys) ?_
      rw [List.length_append, List.length_singleton]
      omega

end ScheduleInv

/-- The scheduling order of distinct keys is topological. -/
theorem scheduleOrder_topological (hkeys : (Dict.keys edges).Nodup) :
    Topological (edgeDeps edges) (scheduleOrder plan steps edges edges) :=
  (ScheduleInv.initial hkeys).kahn_topological hkeys _

variable (plan steps) in
/-- The scheduling order has every key when the edges are closed and without a cycle. -/
theorem scheduleOrder_complete (hkeys : (Dict.keys edges).Nodup)
    (hclosed : ∀ k ∈ Dict.keys edges, ∀ d ∈ edgeDeps edges k, d ∈ Dict.keys edges)
    (hacyclic : Acyclic (edgeDeps edges)) :
    (scheduleOrder plan steps edges edges).Perm (Dict.keys edges) := by
  obtain ⟨hnodup, hsub⟩ := scheduleOrder_nodup plan steps hkeys
    fun p (hp : p ∈ edges) => List.mem_map_of_mem hp
  refine (List.perm_ext_iff_of_nodup hnodup hkeys).mpr fun k => ⟨hsub k, fun hk => ?_⟩
  exact (ScheduleInv.initial hkeys).kahn_complete hkeys hclosed hacyclic _
    (by rw [List.length_nil, Nat.zero_add]) k hk

end McpFlow
