import McpFlow.Factory.Assets

/-!
# Laws of the reconciliation plan

A plan has one entry for every name that is expected or remote, and it is CLEAN when the two sides
have the same names and every name the same fingerprint on both.
-/

namespace McpFlow.Factory

open Json (Value)

/-! ### Names -/

@[simp] theorem mem_sorted {n : String} {names : List String} : n ∈ sorted names ↔ n ∈ names :=
  (List.perm_insertionSort _ names).mem_iff

theorem nodup_sorted {names : List String} (h : names.Nodup) : (sorted names).Nodup :=
  (List.perm_insertionSort _ names).nodup_iff.mpr h

variable {δ : Type} [DecidableEq δ] {hash : Value → δ} {expected : Dict ExpectedContract}
  {remote : Dict RemoteToolDescriptor}

/-- The names of the entries. -/
theorem names_reconcileEntries : (reconcileEntries hash expected remote).map (·.remoteName) =
    sorted (expected.keys.filter (remote.keys.contains ·)) ++
      sorted (expected.keys.filter (!remote.keys.contains ·)) ++
      sorted (remote.keys.filter (!expected.keys.contains ·)) := by
  rw [reconcileEntries, List.map_append, List.map_append]
  congr 1
  · congr 1
    · refine List.map_filterMap_of_forall fun n hn => ?_
      rw [mem_sorted, List.mem_filter, List.contains_iff_mem] at hn
      obtain ⟨e, he⟩ := Dict.mem_keys_iff.mp hn.1
      obtain ⟨r, hr⟩ := Dict.mem_keys_iff.mp hn.2
      exact ⟨compareContract hash n e r, by rw [he, hr]; rfl, rfl⟩
    · refine List.map_filterMap_of_forall fun n hn => ?_
      rw [mem_sorted, List.mem_filter] at hn
      obtain ⟨e, he⟩ := Dict.mem_keys_iff.mp hn.1
      exact ⟨_, by rw [he]; rfl, rfl⟩
  · refine List.map_filterMap_of_forall fun n hn => ?_
    rw [mem_sorted, List.mem_filter] at hn
    obtain ⟨r, hr⟩ := Dict.mem_keys_iff.mp hn.1
    exact ⟨_, by rw [hr]; rfl, rfl⟩

/-- Every name of either side is classified, and no other. -/
theorem mem_names_reconcileEntries {n : String} :
    n ∈ (reconcileEntries hash expected remote).map (·.remoteName) ↔
      n ∈ expected.keys ∨ n ∈ remote.keys := by
  rw [names_reconcileEntries]
  simp only [List.mem_append, mem_sorted, List.mem_filter, Bool.not_eq_true',
    List.contains_eq_mem, decide_eq_false_iff_not, decide_eq_true_eq]
  tauto

/-- No name is classified twice. -/
theorem nodup_names_reconcileEntries (hexpected : expected.keys.Nodup)
    (hremote : remote.keys.Nodup) :
    ((reconcileEntries hash expected remote).map (·.remoteName)).Nodup := by
  rw [names_reconcileEntries, List.nodup_append, List.nodup_append]
  refine ⟨⟨nodup_sorted (hexpected.filter _), nodup_sorted (hexpected.filter _), ?_⟩,
    nodup_sorted (hremote.filter _), ?_⟩
  · intro n hn m hm
    rw [mem_sorted, List.mem_filter] at hn hm
    rintro rfl
    rw [hn.2] at hm
    cases hm.2
  · intro n hn m hm
    rw [List.mem_append, mem_sorted, mem_sorted, List.mem_filter, List.mem_filter] at hn
    rw [mem_sorted, List.mem_filter, Bool.not_eq_true', List.contains_eq_mem,
      decide_eq_false_iff_not] at hm
    rintro rfl
    rcases hn with hn | hn
    · exact hm.2 hn.1
    · exact hm.2 hn.1

/-! ### Clean plans -/

theorem isClean_iff_entries : (buildFactoryReconcilePlan hash expected remote).isClean = true ↔
    ∀ e ∈ reconcileEntries hash expected remote, e.classification = .matched := by
  simp only [buildFactoryReconcilePlan, FactoryReconcilePlan.isClean]
  split
  · next hany =>
    simp only [List.any_eq_true, decide_eq_true_eq] at hany
    obtain ⟨e, he, hne⟩ := hany
    exact iff_of_false (by decide) fun hall => hne (hall e he)
  · next hnone =>
    simp only [List.any_eq_true, decide_eq_true_eq, not_exists, not_and, not_not] at hnone
    exact iff_of_true rfl hnone

/-- A plan is CLEAN when both sides have the same names, with the same fingerprints. -/
theorem isClean_iff : (buildFactoryReconcilePlan hash expected remote).isClean = true ↔
    (∀ n, n ∈ expected.keys ↔ n ∈ remote.keys) ∧
      ∀ n e r, expected.get? n = some e → remote.get? n = some r →
        expectedFingerprint hash n e = remoteFingerprint hash r := by
  rw [isClean_iff_entries]
  simp only [reconcileEntries, List.mem_append, List.mem_filterMap, mem_sorted, List.mem_filter,
    Bool.not_eq_true', List.contains_eq_mem, decide_eq_false_iff_not, decide_eq_true_eq]
  constructor
  · intro hall
    refine ⟨fun n => ⟨fun hn => ?_, fun hn => ?_⟩, fun n e r he hr => ?_⟩
    · by_contra hmissing
      obtain ⟨e, he⟩ := Dict.mem_keys_iff.mp hn
      have hentry := hall _ (.inl (.inr ⟨n, ⟨hn, hmissing⟩, by rw [he]; rfl⟩))
      cases hentry
    · by_contra hunexpected
      obtain ⟨r, hr⟩ := Dict.mem_keys_iff.mp hn
      have hentry := hall _ (.inr ⟨n, ⟨hn, hunexpected⟩, by rw [hr]; rfl⟩)
      cases hentry
    · have hentry := hall (compareContract hash n e r)
        (.inl (.inl ⟨n, ⟨Dict.mem_keys_iff.mpr ⟨e, he⟩, Dict.mem_keys_iff.mpr ⟨r, hr⟩⟩, by rw [he, hr]; rfl⟩))
      by_contra hne
      simp [compareContract, hne] at hentry
  · rintro ⟨hnames, hfps⟩ entry ((⟨n, -, hentry⟩ | ⟨n, hn, -⟩) | ⟨n, hn, -⟩)
    · obtain ⟨e, he, hmap⟩ := Option.bind_eq_some_iff.mp hentry
      obtain ⟨r, hr, rfl⟩ := Option.map_eq_some_iff.mp hmap
      exact if_pos (hfps n e r he hr)
    · exact absurd ((hnames n).mp hn.1) hn.2
    · exact absurd ((hnames n).mpr hn.1) hn.2

/-- A CLEAN plan matches every expected name. -/
theorem mem_matchedNames (h : (buildFactoryReconcilePlan hash expected remote).isClean = true)
    {n : String} : n ∈ (buildFactoryReconcilePlan hash expected remote).matchedNames ↔
      n ∈ expected.keys := by
  have hall := isClean_iff_entries.mp h
  have hnames := (isClean_iff.mp h).1
  have hfilter : (reconcileEntries hash expected remote).filter (·.classification = .matched) =
      reconcileEntries hash expected remote :=
    List.filter_eq_self.mpr fun e he => decide_eq_true (hall e he)
  change n ∈ sorted (((reconcileEntries hash expected remote).filter
    (·.classification = .matched)).map (·.remoteName)) ↔ _
  rw [mem_sorted, hfilter, mem_names_reconcileEntries, ← hnames, or_self]

/-! ### The index of remote tools -/

/-- The index has the remote tools under their names. -/
theorem index_eq_ok {remoteTools : List RemoteToolDescriptor}
    (h : indexRemoteToolsStrict remoteTools = .ok remote) :
    remote.keys.Nodup ∧ ∀ m ∈ remote, m.2.name = m.1 := by
  have hfold : ∀ (tools : List RemoteToolDescriptor) (d d' : Dict RemoteToolDescriptor),
      (d.keys.Nodup ∧ ∀ m ∈ d, m.2.name = m.1) →
      tools.foldlM (fun byName desc =>
        if !Text.nonBlank desc.name then .error "Remote tool name must be a non-empty string."
        else if (Dict.get? byName desc.name).isSome then .error "Duplicate remote tool identity."
        else .ok (byName ++ [(desc.name, desc)])) d = Except.ok d' →
      d'.keys.Nodup ∧ ∀ m ∈ d', m.2.name = m.1 := by
    intro tools
    induction tools with
    | nil =>
      rintro d d' hd heq
      cases heq
      exact hd
    | cons desc tools ih =>
      intro d d' hd heq
      rw [List.foldlM_cons, Except.bind_eq_ok_iff] at heq
      obtain ⟨d₁, hstep, hrest⟩ := heq
      split at hstep
      · cases hstep
      split at hstep
      · cases hstep
      next hfresh =>
      cases hstep
      refine ih _ d' ⟨?_, ?_⟩ hrest
      · have hnot : desc.name ∉ d.keys := fun hmem => hfresh (by
          obtain ⟨a, ha⟩ := Dict.mem_keys_iff.mp hmem
          rw [ha, Option.isSome_some])
        simp only [Dict.keys, List.map_append, List.map_cons, List.map_nil]
        rw [List.nodup_append]
        refine ⟨hd.1, List.nodup_singleton _, fun n hn m hm => ?_⟩
        rw [List.mem_singleton] at hm
        rintro rfl
        exact hnot (hm ▸ hn)
      · intro m hm
        rcases List.mem_append.mp hm with hm | hm
        · exact hd.2 m hm
        · rw [List.mem_singleton] at hm
          rw [hm]
  exact hfold remoteTools [] remote ⟨List.nodup_nil, fun _ hm => absurd hm List.not_mem_nil⟩ h

/-- Tools with distinct names that are not blank are indexed. -/
theorem index_of_nodup {remoteTools : List RemoteToolDescriptor}
    (hnodup : (remoteTools.map (·.name)).Nodup)
    (hblank : ∀ d ∈ remoteTools, Text.nonBlank d.name = true) :
    indexRemoteToolsStrict remoteTools = .ok (remoteTools.map fun d => (d.name, d)) := by
  have hfold : ∀ (tools : List RemoteToolDescriptor) (d : Dict RemoteToolDescriptor),
      (d.keys ++ tools.map (·.name)).Nodup → (∀ t ∈ tools, Text.nonBlank t.name = true) →
      tools.foldlM (fun byName desc =>
        if !Text.nonBlank desc.name then .error "Remote tool name must be a non-empty string."
        else if (Dict.get? byName desc.name).isSome then .error "Duplicate remote tool identity."
        else .ok (byName ++ [(desc.name, desc)])) d =
          Except.ok (d ++ tools.map fun t => (t.name, t)) := by
    intro tools
    induction tools with
    | nil =>
      intro d _ _
      rw [List.map_nil, List.append_nil]
      rfl
    | cons t tools ih =>
      intro d hnames hfull
      rw [List.forall_mem_cons] at hfull
      have hnot : t.name ∉ d.keys := by
        rw [List.map_cons, List.nodup_append] at hnames
        exact fun hmem => hnames.2.2 _ hmem _ List.mem_cons_self rfl
      have hfresh : ¬(Dict.get? d t.name).isSome = true := fun hsome => by
        obtain ⟨a, ha⟩ := Option.isSome_iff_exists.mp hsome
        exact hnot (Dict.mem_keys_iff.mpr ⟨a, ha⟩)
      rw [List.foldlM_cons, hfull.1, if_neg (by decide), if_neg hfresh]
      change tools.foldlM _ (d ++ [(t.name, t)]) = _
      rw [ih _ _ hfull.2, List.append_assoc]
      · rfl
      · simpa [Dict.keys] using hnames
  have hempty := hfold remoteTools [] (by simpa [Dict.keys] using hnodup) hblank
  rwa [List.nil_append] at hempty

end McpFlow.Factory
