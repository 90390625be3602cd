import McpFlow.Creation.World

/-!
# What a step of the creations does

Every step is a new call, a move of one call that leaves the tables, a commit, or the progress of an
Execution. `Moves` lists the moves with what they require; the requests that the calls have hashed are
a first invariant.
-/

namespace McpFlow.Creation

open Json (FloatText Value)
open Workflow (Failure Platform)

variable {env : Platform} {floats : FloatText} {sha256 : String → String} {w w' : World}
  {s : CallState} {i : ℕ} {phase : Phase}

/-- The call has no answer. -/
def CallState.Open (s : CallState) : Prop :=
  (∀ payload outcome, s.phase ≠ .succeeded payload outcome) ∧ ∀ failure, s.phase ≠ .failed failure

variable (env floats sha256) in
/-- The moves of a call that leave the tables. -/
inductive Moves (w : World) (s : CallState) : Phase → Prop
  | resolved {reads : Reads} {resolved : Resolved} (hphase : s.phase = .started)
    (hresolve : s.call.resolve reads = .ok resolved) : Moves w s (.resolved resolved)
  | hit {resolved : Resolved} {record : IdempotencyRecord}
    (hphase : s.phase = .resolved resolved ∨ s.phase = .raced resolved)
    (hrecord : w.records.find? s.call.recordKey = some record) : Moves w s (.hit resolved record)
  | missed {resolved : Resolved} (hphase : s.phase = .resolved resolved)
    (hrecord : w.records.find? s.call.recordKey = none) : Moves w s (.missed resolved)
  | replayed {resolved : Resolved} {record : IdempotencyRecord} {result : CreateResult}
    (hphase : s.phase = .hit resolved record)
    (hresult : s.call.replayOrConflict (s.call.body.requestHash floats sha256 resolved.payload)
      record w.executions.find? = .ok result) :
    Moves w s (.succeeded resolved.payload ⟨result, true⟩)
  | prepared {resolved : Resolved} {ctx : Context} (hphase : s.phase = .missed resolved) :
    Moves w s (.prepared resolved ctx)
  | inserted {resolved : Resolved} {ctx : Context} {id : UUID} {now : Time} {rows : Pending}
    (hphase : s.phase = .prepared resolved ctx)
    (hrows : s.call.insertCreated env resolved
      (s.call.body.requestHash floats sha256 resolved.payload) ctx id now = .ok rows)
    (hid : w.usesId id = false) (hkey : w.holdsKey s.call.recordKey = false)
    (hrecord : w.records.find? s.call.recordKey = none) : Moves w s (.inserted resolved rows)
  | raced {resolved : Resolved} {ctx : Context} (hphase : s.phase = .prepared resolved ctx) :
    Moves w s (.raced resolved)
  | failed {failure : Failure} (hopen : s.Open) : Moves w s (.failed failure)

variable (env floats sha256) in
/-- What a step can do. -/
inductive Steps (w : World) : World → Prop
  | call {c : Call} {phase : Phase} (hphase : phase = .started ∨ ∃ failure, phase = .failed failure) :
    Steps w { w with calls := w.calls ++ [⟨c, phase⟩] }
  | move {i : ℕ} {s : CallState} {phase : Phase} (hs : w.calls[i]? = some s)
    (hmove : Moves env floats sha256 w s phase) : Steps w (w.setPhase i s phase)
  | commit {i : ℕ} {s : CallState} {resolved : Resolved} {rows : Pending}
    {executions : Table ExecutionRow.id} {records : Table IdempotencyRecord.key}
    (hs : w.calls[i]? = some s) (hphase : s.phase = .inserted resolved rows)
    (hexecutions : w.executions.insert? rows.execution = some executions)
    (hrecords : w.records.insert? rows.record = some records) :
    Steps w {
      executions := executions
      steps := w.steps ++ rows.steps
      events := w.events ++ [rows.event]
      records := records
      calls := (w.setPhase i s (.succeeded resolved.payload ⟨rows.result, false⟩)).calls }
  | progress {f : ExecutionRow → ExecutionRow} (hf : ∀ e, (f e).id = e.id) :
    Steps w { w with executions := w.executions.mapRows f hf }

theorem steps_of_step {a : Action} (hstep : w.step env floats sha256 a = some w') :
    Steps env floats sha256 w w' := by
  have hopen {s : CallState} {phase : Phase} (hphase : s.phase = phase)
      (hsucceeded : ∀ p o, phase ≠ .succeeded p o) (hfailed : ∀ failure, phase ≠ .failed failure) :
      s.Open :=
    ⟨hphase ▸ hsucceeded, hphase ▸ hfailed⟩
  cases a with
  | call c =>
    cases hstep
    refine .call ?_
    split
    · exact .inl rfl
    · exact .inr ⟨_, rfl⟩
  | resolve i reads =>
    obtain ⟨s, hs, hstep⟩ := Option.bind_eq_some_iff.mp hstep
    split at hstep
    · next hphase =>
      cases hstep
      split
      · next hresolve => exact .move hs (.resolved hphase hresolve)
      · exact .move hs (.failed (hopen hphase (by simp) (by simp)))
    · cases hstep
  | lookup i =>
    obtain ⟨s, hs, hstep⟩ := Option.bind_eq_some_iff.mp hstep
    split at hstep
    · next hphase =>
      cases hstep
      split
      · next hrecord => exact .move hs (.hit (.inl hphase) hrecord)
      · next hrecord => exact .move hs (.missed hphase hrecord)
    · next hphase =>
      cases hstep
      split
      · next hrecord => exact .move hs (.hit (.inr hphase) hrecord)
      · exact .move hs (.failed (hopen hphase (by simp) (by simp)))
    · cases hstep
  | replay i =>
    obtain ⟨s, hs, hstep⟩ := Option.bind_eq_some_iff.mp hstep
    split at hstep
    · next hphase =>
      cases hstep
      split
      · next hresult => exact .move hs (.replayed hphase hresult)
      · exact .move hs (.failed (hopen hphase (by simp) (by simp)))
    · cases hstep
  | preflight i outcome =>
    obtain ⟨s, hs, hstep⟩ := Option.bind_eq_some_iff.mp hstep
    split at hstep
    · next hphase =>
      split at hstep
      · cases hstep
        exact .move hs (.failed (hopen hphase (by simp) (by simp)))
      · cases hstep
        split
        · exact .move hs (.prepared hphase)
        · exact .move hs (.failed (hopen hphase (by simp) (by simp)))
    · cases hstep
  | insert i id now =>
    obtain ⟨s, hs, hstep⟩ := Option.bind_eq_some_iff.mp hstep
    split at hstep
    · next hphase =>
      dsimp only at hstep
      split at hstep
      · cases hstep
        exact .move hs (.failed (hopen hphase (by simp) (by simp)))
      · next rows hrows =>
        split at hstep
        · cases hstep
          exact .move hs (.failed (hopen hphase (by simp) (by simp)))
        · next hid =>
          split at hstep
          · cases hstep
          · next hkey =>
            split at hstep
            · cases hstep
              exact .move hs (.raced hphase)
            · next hrecord =>
              cases hstep
              exact .move hs (.inserted hphase hrows (Bool.eq_false_of_not_eq_true hid)
                (Bool.eq_false_of_not_eq_true hkey) hrecord)
    · cases hstep
  | commit i =>
    obtain ⟨s, hs, hstep⟩ := Option.bind_eq_some_iff.mp hstep
    split at hstep
    · next hphase =>
      obtain ⟨executions, hexecutions, hstep⟩ := Option.bind_eq_some_iff.mp hstep
      obtain ⟨records, hrecords, hstep⟩ := Option.bind_eq_some_iff.mp hstep
      cases hstep
      exact .commit hs hphase hexecutions hrecords
    · cases hstep
  | abort i failure =>
    obtain ⟨s, hs, hstep⟩ := Option.bind_eq_some_iff.mp hstep
    split at hstep
    · cases hstep
    · cases hstep
    · next hsucceeded hfailed =>
      cases hstep
      exact .move hs (.failed ⟨hsucceeded, hfailed⟩)
  | progress executionId status =>
    cases hstep
    exact .progress _

/-- A call that moves has no answer before. -/
theorem Moves.open (h : Moves env floats sha256 w s phase) : s.Open := by
  have hopen {old : Phase} (hphase : s.phase = old) (hsucceeded : ∀ p o, old ≠ .succeeded p o)
      (hfailed : ∀ failure, old ≠ .failed failure) : s.Open :=
    ⟨hphase ▸ hsucceeded, hphase ▸ hfailed⟩
  cases h with
  | resolved hphase => exact hopen hphase (by simp) (by simp)
  | hit hphase =>
    rcases hphase with hphase | hphase <;> exact hopen hphase (by simp) (by simp)
  | missed hphase => exact hopen hphase (by simp) (by simp)
  | replayed hphase => exact hopen hphase (by simp) (by simp)
  | prepared hphase => exact hopen hphase (by simp) (by simp)
  | inserted hphase => exact hopen hphase (by simp) (by simp)
  | raced hphase => exact hopen hphase (by simp) (by simp)
  | failed hopen => exact hopen

/-! ### The calls after a move -/

/-- A call that is replaced in the list is the one at its place or another one. -/
theorem getElem?_setPhase {w : World} {i j : ℕ} {s t : CallState} {phase : Phase}
    (h : (w.setPhase i s phase).calls[j]? = some t) :
    (j = i ∧ t = { s with phase := phase }) ∨ (j ≠ i ∧ w.calls[j]? = some t) := by
  rw [World.setPhase, List.getElem?_set] at h
  split at h
  · next heq =>
    split at h
    · cases h
      exact .inl ⟨heq.symm, rfl⟩
    · cases h
  · next hne => exact .inr ⟨fun heq => hne heq.symm, h⟩

theorem mem_setPhase {w : World} {i : ℕ} {s t : CallState} {phase : Phase}
    (h : t ∈ (w.setPhase i s phase).calls) : t ∈ w.calls ∨ t = { s with phase := phase } :=
  List.mem_or_eq_of_mem_set h

/-- A call other than the one that moves stays in the list. -/
theorem mem_setPhase_of_ne {w : World} {i : ℕ} {s t : CallState} {phase : Phase}
    (hs : w.calls[i]? = some s) (ht : t ∈ w.calls) (hne : t ≠ s) :
    t ∈ (w.setPhase i s phase).calls := by
  obtain ⟨j, hj⟩ := List.mem_iff_getElem?.mp ht
  refine List.mem_iff_getElem?.mpr ⟨j, ?_⟩
  rw [World.setPhase, List.getElem?_set_ne, hj]
  rintro rfl
  rw [hs] at hj
  exact hne (Option.some.inj hj).symm

/-- The call that moves is in the list in its new phase. -/
theorem mem_setPhase_self {w : World} {i : ℕ} {s : CallState} {phase : Phase}
    (hs : w.calls[i]? = some s) : { s with phase := phase } ∈ (w.setPhase i s phase).calls := by
  refine List.mem_iff_getElem?.mpr ⟨i, ?_⟩
  rw [World.setPhase, List.getElem?_set_self (List.getElem?_eq_some_iff.mp hs).1]

end McpFlow.Creation
