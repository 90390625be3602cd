import Mathlib.Data.List.Basic

/-!
# Ballots with two thresholds

A ballot is a list of votes, each of them an aye or a nay. It carries at its `quorum`-th aye and is
defeated at its `veto`-th nay, whichever comes first, and takes no vote afterwards. So the two never
meet, the deciding vote reaches its threshold exactly, and an open ballot has fewer votes than both
thresholds together.
-/

universe u

/-- How many ayes carry a ballot, and how many nays defeat it. -/
structure BallotRule where
  quorum : ℕ
  veto : ℕ
  quorum_pos : 0 < quorum
  veto_pos : 0 < veto

namespace BallotRule

variable {α : Type u} {rule : BallotRule} {aye : α → Bool} {votes : List α} {vote : α}

/-- Neither threshold is reached. -/
structure Open (rule : BallotRule) (aye : α → Bool) (votes : List α) : Prop where
  ayes_lt : votes.countP aye < rule.quorum
  nays_lt : votes.countP (!aye ·) < rule.veto

/-- The quorum is reached, and no more. -/
structure Carried (rule : BallotRule) (aye : α → Bool) (votes : List α) : Prop where
  ayes_eq : votes.countP aye = rule.quorum
  nays_lt : votes.countP (!aye ·) < rule.veto

/-- The veto is reached, and no more. -/
structure Defeated (rule : BallotRule) (aye : α → Bool) (votes : List α) : Prop where
  nays_eq : votes.countP (!aye ·) = rule.veto
  ayes_lt : votes.countP aye < rule.quorum

theorem open_nil (rule : BallotRule) (aye : α → Bool) : rule.Open aye [] :=
  ⟨rule.quorum_pos, rule.veto_pos⟩

theorem Open.not_carried (h : rule.Open aye votes) : ¬rule.Carried aye votes := fun hcarried => by
  have hlt := h.ayes_lt
  rw [hcarried.ayes_eq] at hlt
  omega

theorem Open.not_defeated (h : rule.Open aye votes) : ¬rule.Defeated aye votes := by
  intro hdefeated
  have hlt := h.nays_lt
  rw [hdefeated.nays_eq] at hlt
  omega

theorem Carried.not_defeated (h : rule.Carried aye votes) : ¬rule.Defeated aye votes :=
  fun hdefeated => by
    have hlt := h.nays_lt
    rw [hdefeated.nays_eq] at hlt
    omega

private theorem countP_concat (p : α → Bool) (votes : List α) (vote : α) :
    (votes ++ [vote]).countP p = votes.countP p + if p vote then 1 else 0 := by
  rw [List.countP_append, List.countP_singleton]

/-- An aye on an open ballot leaves it open or carries it. -/
theorem Open.concat_aye (h : rule.Open aye votes) (hvote : aye vote = true) :
    rule.Open aye (votes ++ [vote]) ∨ rule.Carried aye (votes ++ [vote]) := by
  have hayes : (votes ++ [vote]).countP aye = votes.countP aye + 1 := by
    rw [countP_concat, if_pos hvote]
  have hnays : (votes ++ [vote]).countP (!aye ·) < rule.veto := by
    rw [countP_concat, if_neg (by simp [hvote])]
    exact h.nays_lt
  have hlt := h.ayes_lt
  rcases Nat.lt_or_ge (votes.countP aye + 1) rule.quorum with hopen | hreached
  · exact .inl ⟨hayes ▸ hopen, hnays⟩
  · exact .inr ⟨by omega, hnays⟩

/-- A nay on an open ballot leaves it open or defeats it. -/
theorem Open.concat_nay (h : rule.Open aye votes) (hvote : aye vote = false) :
    rule.Open aye (votes ++ [vote]) ∨ rule.Defeated aye (votes ++ [vote]) := by
  have hnays : (votes ++ [vote]).countP (!aye ·) = votes.countP (!aye ·) + 1 := by
    rw [countP_concat, if_pos (by simp [hvote])]
  have hayes : (votes ++ [vote]).countP aye < rule.quorum := by
    rw [countP_concat, if_neg (by simp [hvote])]
    exact h.ayes_lt
  have hlt := h.nays_lt
  rcases Nat.lt_or_ge (votes.countP (!aye ·) + 1) rule.veto with hopen | hreached
  · exact .inl ⟨hayes, hnays ▸ hopen⟩
  · exact .inr ⟨by omega, hayes⟩

/-- Every vote on an open ballot leaves it open, carries it or defeats it. -/
theorem Open.concat (h : rule.Open aye votes) (vote : α) :
    rule.Open aye (votes ++ [vote]) ∨ rule.Carried aye (votes ++ [vote]) ∨
      rule.Defeated aye (votes ++ [vote]) := by
  cases hvote : aye vote with
  | true => exact (h.concat_aye hvote).imp_right .inl
  | false => exact (h.concat_nay hvote).imp_right .inr

/-! ### Verdicts -/

/-- The verdict on the counts, with the quorum looked at first. -/
def quorumFirst (rule : BallotRule) (ayes nays : ℕ) : Option Bool :=
  if rule.quorum ≤ ayes then some true else if rule.veto ≤ nays then some false else none

/-- The verdict on the counts, with the veto looked at first. -/
def vetoFirst (rule : BallotRule) (ayes nays : ℕ) : Option Bool :=
  if rule.veto ≤ nays then some false else if rule.quorum ≤ ayes then some true else none

/-- What a verdict says of the votes. -/
def Says (rule : BallotRule) (aye : α → Bool) (votes : List α) : Option Bool → Prop
  | none => rule.Open aye votes
  | some true => rule.Carried aye votes
  | some false => rule.Defeated aye votes

/-- On an open ballot and one more vote, the verdict says what the ballot is. -/
theorem Open.says_quorumFirst (h : rule.Open aye votes) (vote : α) :
    rule.Says aye (votes ++ [vote]) (rule.quorumFirst ((votes ++ [vote]).countP aye)
      ((votes ++ [vote]).countP (!aye ·))) := by
  unfold quorumFirst
  rcases h.concat vote with hopen | hcarried | hdefeated
  · rw [if_neg (Nat.not_le.mpr hopen.ayes_lt), if_neg (Nat.not_le.mpr hopen.nays_lt)]
    exact hopen
  · rw [if_pos (Nat.le_of_eq hcarried.ayes_eq.symm)]
    exact hcarried
  · rw [if_neg (Nat.not_le.mpr hdefeated.ayes_lt), if_pos (Nat.le_of_eq hdefeated.nays_eq.symm)]
    exact hdefeated

/-- On such a ballot the order of the two comparisons does not matter. -/
theorem Open.vetoFirst_eq (h : rule.Open aye votes) (vote : α) :
    rule.vetoFirst ((votes ++ [vote]).countP aye) ((votes ++ [vote]).countP (!aye ·)) =
      rule.quorumFirst ((votes ++ [vote]).countP aye) ((votes ++ [vote]).countP (!aye ·)) := by
  unfold quorumFirst vetoFirst
  rcases h.concat vote with hopen | hcarried | hdefeated
  · simp only [if_neg (Nat.not_le.mpr hopen.ayes_lt), if_neg (Nat.not_le.mpr hopen.nays_lt)]
  · simp only [if_pos (Nat.le_of_eq hcarried.ayes_eq.symm),
      if_neg (Nat.not_le.mpr hcarried.nays_lt)]
  · simp only [if_neg (Nat.not_le.mpr hdefeated.ayes_lt),
      if_pos (Nat.le_of_eq hdefeated.nays_eq.symm)]

end BallotRule
