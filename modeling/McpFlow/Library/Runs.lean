import Mathlib.Data.Option.Basic

/-!
# Runs of a partial step function

A transition system is a step function that may refuse an action. A run performs a list of actions
in order. `StepsMeet` says that every action of a run meets a condition in the state in which it
happens; an invariant that such steps keep holds after the run.
-/

universe u v

namespace Runs

variable {σ : Type u} {α : Type v} (step : σ → α → Option σ)

/-- The state after the actions. -/
def run (s : σ) : List α → Option σ
  | [] => some s
  | a :: as => (step s a).bind fun s' => run s' as

/-- Every action of the run meets `ok` in the state before it. -/
def StepsMeet (ok : σ → α → Prop) (s : σ) : List α → Prop
  | [] => True
  | a :: as => ok s a ∧ ∀ s', step s a = some s' → StepsMeet ok s' as

variable {step}

@[simp] theorem run_nil (s : σ) : run step s [] = some s := rfl

theorem run_cons (s : σ) (a : α) (as : List α) :
    run step s (a :: as) = (step s a).bind fun s' => run step s' as := rfl

theorem run_cons_eq_some {s t : σ} {a : α} {as : List α} :
    run step s (a :: as) = some t ↔ ∃ s', step s a = some s' ∧ run step s' as = some t :=
  Option.bind_eq_some_iff

theorem run_append (s : σ) (as bs : List α) :
    run step s (as ++ bs) = (run step s as).bind fun s' => run step s' bs := by
  induction as generalizing s with
  | nil => rfl
  | cons a as ih =>
    rw [List.cons_append, run_cons, run_cons, Option.bind_assoc]
    exact congrArg (step s a).bind (funext fun s' => ih s')

theorem stepsMeet_append {ok : σ → α → Prop} {s t : σ} {as bs : List α}
    (h : StepsMeet step ok s (as ++ bs)) (ht : run step s as = some t) :
    StepsMeet step ok s as ∧ StepsMeet step ok t bs := by
  induction as generalizing s with
  | nil =>
    cases ht
    exact ⟨trivial, h⟩
  | cons a as ih =>
    obtain ⟨s', hs', hrun⟩ := run_cons_eq_some.mp ht
    obtain ⟨hok, htail⟩ := h
    obtain ⟨h1, h2⟩ := ih (htail s' hs') hrun
    refine ⟨⟨hok, fun s'' hs'' => ?_⟩, h2⟩
    rw [hs'] at hs''
    cases hs''
    exact h1

instance decidableStepsMeet {ok : σ → α → Prop} [∀ s a, Decidable (ok s a)] :
    (s : σ) → (as : List α) → Decidable (StepsMeet step ok s as)
  | _, [] => isTrue trivial
  | s, a :: as =>
    match h : step s a with
    | none => decidable_of_iff (ok s a)
        ⟨fun hok => ⟨hok, fun s' hs' => by rw [h] at hs'; cases hs'⟩, fun hmeet => hmeet.1⟩
    | some s' =>
      have : Decidable (StepsMeet step ok s' as) := decidableStepsMeet s' as
      decidable_of_iff (ok s a ∧ StepsMeet step ok s' as)
        ⟨fun hmeet => ⟨hmeet.1, fun t ht => by rw [h] at ht; cases ht; exact hmeet.2⟩,
          fun hmeet => ⟨hmeet.1, hmeet.2 s' h⟩⟩

/-- An invariant kept by every step that meets the condition holds after a run of such steps. -/
theorem run_preserves {inv : σ → Prop} {ok : σ → α → Prop}
    (hstep : ∀ s a s', inv s → ok s a → step s a = some s' → inv s') {s t : σ} {as : List α}
    (hs : inv s) (hmeet : StepsMeet step ok s as) (hrun : run step s as = some t) : inv t := by
  induction as generalizing s with
  | nil =>
    cases hrun
    exact hs
  | cons a as ih =>
    obtain ⟨s', hs', hrun'⟩ := run_cons_eq_some.mp hrun
    exact ih (hstep s a s' hs hmeet.1 hs') (hmeet.2 s' hs') hrun'

/-- An invariant kept by every step holds after every run. -/
theorem run_invariant {inv : σ → Prop} (hstep : ∀ s a s', inv s → step s a = some s' → inv s')
    {s t : σ} {as : List α} (hs : inv s) (hrun : run step s as = some t) : inv t := by
  induction as generalizing s with
  | nil =>
    cases hrun
    exact hs
  | cons a as ih =>
    obtain ⟨s', hs', hrun'⟩ := run_cons_eq_some.mp hrun
    exact ih (hstep s a s' hs hs') hrun'

/-- Two conditions that agree on the steps of an invariant agree along a run. -/
theorem stepsMeet_congr {inv : σ → Prop} {ok ok' : σ → α → Prop}
    (hstep : ∀ s a s', inv s → step s a = some s' → inv s')
    (hok : ∀ s a s', inv s → step s a = some s' → (ok s a ↔ ok' s a)) {s t : σ} {as : List α}
    (hs : inv s) (hrun : run step s as = some t) :
    StepsMeet step ok s as ↔ StepsMeet step ok' s as := by
  induction as generalizing s with
  | nil => exact Iff.rfl
  | cons a as ih =>
    obtain ⟨s', hs', hrun'⟩ := run_cons_eq_some.mp hrun
    have htail : (∀ u, step s a = some u → StepsMeet step ok u as) ↔
        ∀ u, step s a = some u → StepsMeet step ok' u as := by
      simp only [hs', Option.some.injEq, forall_eq']
      exact ih (hstep s a s' hs hs') hrun'
    exact and_congr (hok s a s' hs hs') htail

/-- A relation between the two ends of a step, reflexive and transitive, holds between the two ends
of a run, when an invariant supports it. -/
theorem run_relates {inv : σ → Prop} {ok : σ → α → Prop} {rel : σ → σ → Prop}
    (hrefl : ∀ s, rel s s) (htrans : ∀ s t u, rel s t → rel t u → rel s u)
    (hinv : ∀ s a s', inv s → ok s a → step s a = some s' → inv s')
    (hrel : ∀ s a s', inv s → ok s a → step s a = some s' → rel s s') {s t : σ} {as : List α}
    (hs : inv s) (hmeet : StepsMeet step ok s as) (hrun : run step s as = some t) : rel s t := by
  induction as generalizing s with
  | nil =>
    cases hrun
    exact hrefl _
  | cons a as ih =>
    obtain ⟨s', hs', hrun'⟩ := run_cons_eq_some.mp hrun
    exact htrans s s' t (hrel s a s' hs hmeet.1 hs')
      (ih (hinv s a s' hs hmeet.1 hs') (hmeet.2 s' hs') hrun')

/-- What holds after a run, and did not before it, was brought about by one of its steps. -/
theorem exists_turn {p : σ → Prop} {s t : σ} {as : List α} (hs : ¬p s) (ht : p t)
    (hrun : run step s as = some t) : ∃ pre a post u v, as = pre ++ a :: post ∧
      run step s pre = some u ∧ step u a = some v ∧ ¬p u ∧ p v := by
  induction as generalizing s with
  | nil =>
    cases hrun
    exact absurd ht hs
  | cons a as ih =>
    obtain ⟨s', hs', hrun'⟩ := run_cons_eq_some.mp hrun
    by_cases hp : p s'
    · exact ⟨[], a, as, s, s', rfl, rfl, hs', hs, hp⟩
    · obtain ⟨pre, b, post, u, v, rfl, hpre, hstep, hu, hv⟩ := ih hp hrun'
      exact ⟨a :: pre, b, post, u, v, rfl, run_cons_eq_some.mpr ⟨s', hs', hpre⟩, hstep, hu, hv⟩

/-- A system whose steps are steps of another one has no other runs. -/
theorem exists_run_of_step {τ : Type u} {β : Type v} {step' : τ → β → Option τ} {f : σ → τ}
    (hstep : ∀ s a s', step s a = some s' → ∃ b, step' (f s) b = some (f s')) {s t : σ}
    {as : List α} (hrun : run step s as = some t) : ∃ bs, run step' (f s) bs = some (f t) := by
  induction as generalizing s with
  | nil =>
    cases hrun
    exact ⟨[], rfl⟩
  | cons a as ih =>
    obtain ⟨s', hs', hrun'⟩ := run_cons_eq_some.mp hrun
    obtain ⟨b, hb⟩ := hstep s a s' hs'
    obtain ⟨bs, hbs⟩ := ih hrun'
    exact ⟨b :: bs, run_cons_eq_some.mpr ⟨f s', hb, hbs⟩⟩

end Runs
