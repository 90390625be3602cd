import Mathlib.Data.List.Basic
import Mathlib.Data.Nat.Basic
import Mathlib.Order.Basic

/-!
# Reading a log behind a cursor

A log lists entries with strictly increasing keys. A reader asks for the entries behind its cursor
that its scope shows, in order and at most `limit` of them, and moves on to the last one it got.
`Follows` says that what a reader got leaves no gap, where the scope may differ from entry to entry.
-/

universe u v

namespace CursorLog

variable {α : Type u} {σ : Type v} (key : α → ℕ) (sees : σ → α → Bool)

/-- The keys of the log grow strictly. -/
def Increasing (log : List α) : Prop := log.Pairwise fun a b => key a < key b

/-- The entries behind `after` that the scope shows, in order and at most `limit` of them. -/
def listAfter (scope : σ) (after limit : ℕ) (log : List α) : List α :=
  (log.filter fun a => after < key a && sees scope a).take limit

/-- An entry and the scope under which it was read. -/
structure Read (α : Type u) (σ : Type v) where
  entry : α
  scope : σ
deriving DecidableEq

/-- A reader that stands at `pos` may be given these entries one after the other: each lies behind
the reader, its scope shows it, and shows nothing in between. -/
def Follows (log : List α) : ℕ → List (Read α σ) → Prop
  | _, [] => True
  | pos, r :: rs => pos < key r.entry ∧ r.entry ∈ log ∧ sees r.scope r.entry = true ∧
      (∀ b ∈ log, pos < key b → key b < key r.entry → sees r.scope b = false) ∧
        Follows log (key r.entry) rs

/-- Where a reader stands after it was given these entries. -/
def position (pos : ℕ) (rs : List (Read α σ)) : ℕ := (rs.getLast?.map (key ·.entry)).getD pos

variable {key sees} {log : List α} {scope : σ} {after limit pos : ℕ}

/-! ### What is read -/

theorem mem_listAfter {a : α} (h : a ∈ listAfter key sees scope after limit log) :
    a ∈ log ∧ after < key a ∧ sees scope a = true := by
  have hmem := List.mem_filter.mp (List.mem_of_mem_take h)
  simpa using hmem

/-- An entry that the scope shows behind the cursor gives the reader something to read. -/
theorem listAfter_ne_nil {a : α} (hlimit : 0 < limit) (ha : a ∈ log) (hafter : after < key a)
    (hsees : sees scope a = true) : listAfter key sees scope after limit log ≠ [] := by
  have hmem : a ∈ log.filter fun a => after < key a && sees scope a :=
    List.mem_filter.mpr ⟨ha, by simp [hafter, hsees]⟩
  intro hnil
  rcases List.take_eq_nil_iff.mp hnil with h | h
  · omega
  · rw [h] at hmem
    cases hmem

/-- The limit cuts off the end: a shown entry before one that is read is read as well. -/
theorem mem_listAfter_of_le (h : Increasing key log) {a b : α} (ha : a ∈ log)
    (hafter : after < key a) (hsees : sees scope a = true)
    (hb : b ∈ listAfter key sees scope after limit log) (hle : key a ≤ key b) :
    a ∈ listAfter key sees scope after limit log := by
  have hmem : a ∈ log.filter fun a => after < key a && sees scope a :=
    List.mem_filter.mpr ⟨ha, by simp [hafter, hsees]⟩
  have hsorted := h.sublist (List.filter_sublist (p := fun a => after < key a && sees scope a))
  rw [← List.take_append_drop limit (log.filter _), List.pairwise_append] at hsorted
  rw [← List.take_append_drop limit (log.filter _)] at hmem
  rcases List.mem_append.mp hmem with hmem | hmem
  · exact hmem
  · exact absurd (hsorted.2.2 b hb a hmem) (not_lt.mpr hle)

/-- Entries of one key are the same. -/
theorem eq_of_key_eq (h : Increasing key log) {a b : α} (ha : a ∈ log) (hb : b ∈ log)
    (hkey : key a = key b) : a = b := by
  induction log with
  | nil => cases ha
  | cons c cs ih =>
    obtain ⟨hc, hcs⟩ := List.pairwise_cons.mp h
    rcases List.mem_cons.mp ha with rfl | hacs <;> rcases List.mem_cons.mp hb with rfl | hbcs
    · rfl
    · exact absurd hkey (hc b hbcs).ne
    · exact absurd hkey (hc a hacs).ne'
    · exact ih hcs hacs hbcs

/-- The first entries of all those behind the reader leave no gap. -/
theorem follows_take {l : List α} (n : ℕ) (hl : Increasing key l)
    (hmem : ∀ a ∈ l, pos < key a ∧ a ∈ log ∧ sees scope a = true)
    (hall : ∀ b ∈ log, pos < key b → sees scope b = true → b ∈ l) :
    Follows key sees log pos ((l.take n).map (⟨·, scope⟩)) := by
  induction l generalizing pos n with
  | nil => simp [Follows]
  | cons a as ih =>
    cases n with
    | zero => trivial
    | succ n =>
      obtain ⟨ha, has⟩ := List.pairwise_cons.mp hl
      obtain ⟨hpos, hlog, hsees⟩ := hmem a List.mem_cons_self
      refine ⟨hpos, hlog, hsees, fun b hb hposb hba => ?_, ih n has (fun c hc => ?_) ?_⟩
      · by_contra hb'
        rcases List.mem_cons.mp (hall b hb hposb (by simpa using hb')) with rfl | hbas
        · exact lt_irrefl _ hba
        · exact lt_asymm hba (ha b hbas)
      · obtain ⟨-, hclog, hcsees⟩ := hmem c (List.mem_cons_of_mem a hc)
        exact ⟨ha c hc, hclog, hcsees⟩
      · intro b hb hab hb'
        rcases List.mem_cons.mp (hall b hb (hpos.trans hab) hb') with rfl | hbas
        · exact absurd hab (lt_irrefl _)
        · exact hbas

/-- What is read follows the cursor: the limit cuts the rest off and leaves no gap. -/
theorem follows_listAfter (h : Increasing key log) :
    Follows key sees log after ((listAfter key sees scope after limit log).map (⟨·, scope⟩)) := by
  refine follows_take limit (h.sublist List.filter_sublist) (fun a ha => ?_)
    fun b hb hafter hb' => ?_
  · simpa [and_assoc, and_left_comm] using List.mem_filter.mp ha
  · exact List.mem_filter.mpr ⟨hb, by simp [hafter, hb']⟩

/-! ### Reads in sequence -/

@[simp] theorem position_nil : position key pos ([] : List (Read α σ)) = pos := rfl

@[simp] theorem position_concat (rs : List (Read α σ)) (r : Read α σ) :
    position key pos (rs ++ [r]) = key r.entry := by
  simp [position]

theorem position_cons (r : Read α σ) (rs : List (Read α σ)) :
    position key pos (r :: rs) = position key (key r.entry) rs := by
  cases rs with
  | nil => rfl
  | cons s rs => simp [position, List.getLast?_cons]

/-- Reading on from where the first entries end. -/
theorem follows_append {rs ss : List (Read α σ)} :
    Follows key sees log pos (rs ++ ss) ↔
      Follows key sees log pos rs ∧ Follows key sees log (position key pos rs) ss := by
  induction rs generalizing pos with
  | nil => simp [Follows]
  | cons r rs ih => simp [Follows, ih, position_cons, and_assoc]

/-- A reader stands at the last of the reads, or at the start. -/
theorem position_eq_or (rs : List (Read α σ)) :
    (rs = [] ∧ position key pos rs = pos) ∨ ∃ r ∈ rs, position key pos rs = key r.entry := by
  rcases List.eq_nil_or_concat rs with rfl | ⟨ss, r, rfl⟩
  · exact .inl ⟨rfl, rfl⟩
  · exact .inr ⟨r, by simp, by simp [position]⟩

/-- Entries with greater keys may join the log. -/
theorem Follows.append_log {rs : List (Read α σ)} {new : List α}
    (hnew : ∀ a ∈ log, ∀ b ∈ new, key a < key b) (h : Follows key sees log pos rs) :
    Follows key sees (log ++ new) pos rs := by
  induction rs generalizing pos with
  | nil => trivial
  | cons r rs ih =>
    obtain ⟨hpos, hlog, hsees, hgap, hrest⟩ := h
    refine ⟨hpos, List.mem_append_left new hlog, hsees, fun b hb hposb hbr => ?_, ih hrest⟩
    rcases List.mem_append.mp hb with hb | hb
    · exact hgap b hb hposb hbr
    · exact absurd (hnew _ hlog b hb) (lt_asymm hbr)

/-- Every read lies behind the start, is an entry of the log and was shown. -/
theorem Follows.of_mem {rs : List (Read α σ)} (h : Follows key sees log pos rs) {r : Read α σ}
    (hr : r ∈ rs) : pos < key r.entry ∧ r.entry ∈ log ∧ sees r.scope r.entry = true := by
  induction rs generalizing pos with
  | nil => cases hr
  | cons s rs ih =>
    obtain ⟨hpos, hlog, hsees, -, hrest⟩ := h
    rcases List.mem_cons.mp hr with rfl | hr
    · exact ⟨hpos, hlog, hsees⟩
    · obtain ⟨hs, hr'⟩ := ih hrest hr
      exact ⟨hpos.trans hs, hr'⟩

/-- The keys of the reads grow: nothing is read twice. -/
theorem Follows.pairwise {rs : List (Read α σ)} (h : Follows key sees log pos rs) :
    rs.Pairwise fun r s => key r.entry < key s.entry := by
  induction rs generalizing pos with
  | nil => exact List.Pairwise.nil
  | cons r rs ih =>
    obtain ⟨-, -, -, -, hrest⟩ := h
    exact List.pairwise_cons.mpr ⟨fun s hs => (hrest.of_mem hs).1, ih hrest⟩

/-- An entry behind the start that the reader went past was hidden from the read that passed it. -/
theorem Follows.sees_passing {rs : List (Read α σ)} (h : Follows key sees log pos rs) {a : α}
    (ha : a ∈ log) (hpos : pos < key a) {r : Read α σ} (hr : r ∈ rs) (hle : key a ≤ key r.entry)
    (hfirst : ∀ s ∈ rs, key a ≤ key s.entry → key r.entry ≤ key s.entry)
    (hsees : sees r.scope a = true) : key r.entry = key a := by
  induction rs generalizing pos with
  | nil => cases hr
  | cons s rs ih =>
    obtain ⟨hs, -, -, hgap, hrest⟩ := h
    by_cases hsa : key a ≤ key s.entry
    · -- `s` is the first read at or past `a`, so it is `r`.
      have hrs : r = s := by
        rcases List.mem_cons.mp hr with rfl | hr
        · rfl
        · exact absurd (hfirst s List.mem_cons_self hsa) (not_le.mpr (hrest.of_mem hr).1)
      subst hrs
      rcases hle.lt_or_eq with hlt | heq
      · rw [hgap a ha hpos hlt] at hsees
        cases hsees
      · exact heq.symm
    · rcases List.mem_cons.mp hr with rfl | hr
      · exact absurd hle hsa
      · exact ih hrest (not_le.mp hsa) hr fun t ht => hfirst t (List.mem_cons_of_mem s ht)

end CursorLog
