/-
# The emission curve

`block_subsidy` pays a fixed fraction of what is left below the cap, and never less than the tail
emission.  Above height zero that is one formula, `max tail ((cap - g) / 2 ^ s)` in the amount `g`
generated so far (`blockSubsidy_eq`), which falls as `g` grows.  Everything about the curve is an
induction over that recurrence: `g` only grows, so the subsidy only falls; a step above the tail
stays below the cap, and a step at the tail adds the tail.
-/
import Rubin.Consensus.Supply

namespace Rubin.Consensus

open Rubin.Lib

/-! ## 1. One block -/

variable {height generated n : Nat}

/-- The two early returns and the narrowing fold into one formula. -/
theorem blockSubsidy_eq (hpos : height ≠ 0) (generated : Nat) :
    blockSubsidy height generated =
      max tailEmissionPerBlock ((mineableCap - generated) / 2 ^ emissionSpeedFactor) := by
  have hcap : (mineableCap - generated) / 2 ^ emissionSpeedFactor ≤ mineableCap :=
    (Nat.div_le_self _ _).trans (Nat.sub_le _ _)
  have hwide : mineableCap < 2 ^ 64 := by decide
  rw [blockSubsidy, if_neg hpos]
  split
  · rename_i hge
    rw [Nat.sub_eq_zero_of_le hge, Nat.zero_div, Nat.max_zero]
  · simp only [Nat.shiftRight_eq_div_pow]
    split
    · rename_i hlt
      exact (max_eq_left hlt.le).symm
    · rename_i hge
      rw [clampBaseRewardToU64, if_pos (lt_of_le_of_lt hcap hwide), max_eq_right (not_lt.mp hge)]

theorem baseReward_narrow (generated : Nat) :
    (mineableCap - generated) >>> emissionSpeedFactor < 2 ^ 64 := by
  rw [Nat.shiftRight_eq_div_pow]
  have hcap := (Nat.div_le_self (mineableCap - generated) (2 ^ emissionSpeedFactor)).trans
    (Nat.sub_le mineableCap generated)
  exact lt_of_le_of_lt hcap (by decide)

theorem blockSubsidy_antitone {height' generated' : Nat} (hpos : height ≠ 0) (hpos' : height' ≠ 0)
    (hle : generated ≤ generated') :
    blockSubsidy height' generated' ≤ blockSubsidy height generated := by
  rw [blockSubsidy_eq hpos, blockSubsidy_eq hpos']
  exact max_le_max_left _ (Nat.div_le_div_right (Nat.sub_le_sub_left hle _))

theorem tail_le_blockSubsidy (hpos : height ≠ 0) (generated : Nat) :
    tailEmissionPerBlock ≤ blockSubsidy height generated := by
  rw [blockSubsidy_eq hpos]
  exact le_max_left _ _

theorem generated_lt_cap (hpos : height ≠ 0)
    (h : tailEmissionPerBlock < blockSubsidy height generated) :
    generated + blockSubsidy height generated < mineableCap := by
  rw [blockSubsidy_eq hpos] at h ⊢
  rcases lt_max_iff.mp h with h | h
  · exact absurd h (lt_irrefl _)
  · rw [max_eq_right h.le]
    have hdiv : (mineableCap - generated) / 2 ^ emissionSpeedFactor * 2 ^ emissionSpeedFactor ≤
        mineableCap - generated := Nat.div_mul_le_self _ _
    have hsplit : 2 ^ emissionSpeedFactor = 1048575 + 1 := by decide
    rw [hsplit] at h hdiv ⊢
    omega

theorem generated_step (hpos : height ≠ 0) :
    generated + blockSubsidy height generated ≤
      max mineableCap generated + tailEmissionPerBlock := by
  rcases (tail_le_blockSubsidy hpos generated).lt_or_eq with h | h
  · have hcap := generated_lt_cap hpos h
    have hmax := le_max_left mineableCap generated
    omega
  · rw [← h]
    exact Nat.add_le_add_right (le_max_right _ _) _

/-! ## 2. All blocks -/

/-- `already_generated` after the blocks at heights 1 to `n`, from nothing. -/
def generatedBy (n : Nat) : Nat := generatedAfter 1 0 n

/-- The subsidy due at a height. -/
def subsidyAt (height : Nat) : Nat := blockSubsidy height (generatedBy (height - 1))

theorem generatedAfter_succ : ∀ (n height generated : Nat),
    generatedAfter height generated (n + 1) = generatedAfter height generated n +
      blockSubsidy (height + n) (generatedAfter height generated n)
  | 0, _, _ => rfl
  | n + 1, height, generated => by
    have ih := generatedAfter_succ n (height + 1) (generated + blockSubsidy height generated)
    rw [generatedAfter, ih, Nat.add_assoc, Nat.add_comm 1 n]
    rfl

theorem generatedBy_succ (n : Nat) : generatedBy (n + 1) = generatedBy n + subsidyAt (n + 1) := by
  rw [generatedBy, generatedAfter_succ, Nat.add_comm 1 n]
  rfl

theorem generatedBy_mono {m : Nat} (hle : n ≤ m) : generatedBy n ≤ generatedBy m := by
  induction m, hle using Nat.le_induction with
  | base => exact le_refl _
  | succ m _ ih =>
    rw [generatedBy_succ]
    exact ih.trans (Nat.le_add_right _ _)

theorem subsidyAt_antitone {height' : Nat} (hpos : 1 ≤ height) (hle : height ≤ height') :
    subsidyAt height' ≤ subsidyAt height :=
  blockSubsidy_antitone (by omega) (by omega) (generatedBy_mono (by omega))

theorem generatedBy_le (n : Nat) :
    generatedBy n ≤ mineableCap + n * tailEmissionPerBlock := by
  induction n with
  | zero => exact Nat.zero_le _
  | succ n ih =>
    have hstep := @generated_step (n + 1) (generatedBy n) (Nat.succ_ne_zero n)
    have hmax : max mineableCap (generatedBy n) ≤ mineableCap + n * tailEmissionPerBlock :=
      max_le (Nat.le_add_right _ _) ih
    rw [generatedBy_succ, Nat.succ_mul]
    exact hstep.trans (by omega)

/-- `already_generated_after_block`, block after block from height 1 on. -/
def alreadyGeneratedAfterBlocks (n : Nat) : Except TxError Nat :=
  (List.range n).foldlM (fun generated i => alreadyGeneratedAfterBlock (i + 1) generated) 0

theorem alreadyGeneratedAfterBlock_fits (hn : n < 2 ^ 64) :
    alreadyGeneratedAfterBlock (n + 1) (generatedBy n) = .ok (generatedBy (n + 1)) := by
  have hbound := generatedBy_le (n + 1)
  have hmul : (n + 1) * tailEmissionPerBlock ≤ 2 ^ 64 * tailEmissionPerBlock :=
    Nat.mul_le_mul_right _ hn
  have hconst : mineableCap + 2 ^ 64 * tailEmissionPerBlock < 2 ^ 128 := by decide
  rw [generatedBy_succ] at hbound ⊢
  rw [alreadyGeneratedAfterBlock, if_pos (Nat.succ_ne_zero n)]
  simp only [bind_eq_ok, exists_unit, rejectIf_eq_ok, Except.ok.injEq]
  refine ⟨?_, rfl⟩
  change ¬ 2 ^ 128 ≤ generatedBy n + subsidyAt (n + 1)
  omega

theorem alreadyGeneratedAfterBlocks_eq (hn : n ≤ 2 ^ 64) :
    alreadyGeneratedAfterBlocks n = .ok (generatedBy n) := by
  induction n with
  | zero => rfl
  | succ n ih =>
    have hprev : (List.range n).foldlM
        (fun generated i => alreadyGeneratedAfterBlock (i + 1) generated) 0 =
          .ok (generatedBy n) := ih (by omega)
    rw [alreadyGeneratedAfterBlocks, List.range_succ, List.foldlM_append, hprev, ok_bind,
      List.foldlM_cons, alreadyGeneratedAfterBlock_fits (by omega)]
    rfl

/-- **The emission curve.**  From nothing generated and for blocks at heights 1, 2, ...: the
subsidy never rises and never falls below the tail emission, and once there it stays there; the
amount generated stays within the cap plus one tail emission a block, and below the cap while the
subsidy is above the tail; up to the last height of 64 bits the addition never overflows, and the
narrowing of the reward never falls back. -/
theorem emission_curve :
    (∀ height height', 1 ≤ height → height ≤ height' → subsidyAt height' ≤ subsidyAt height) ∧
      (∀ height, 1 ≤ height → tailEmissionPerBlock ≤ subsidyAt height) ∧
      (∀ height height', 1 ≤ height → height ≤ height' →
        subsidyAt height = tailEmissionPerBlock → subsidyAt height' = tailEmissionPerBlock) ∧
      (∀ n, generatedBy n ≤ mineableCap + n * tailEmissionPerBlock) ∧
      (∀ height, 1 ≤ height → tailEmissionPerBlock < subsidyAt height →
        generatedBy (height - 1) < mineableCap ∧ generatedBy height < mineableCap) ∧
      (∀ n, n < 2 ^ 64 → alreadyGeneratedAfterBlocks n = .ok (generatedBy n)) ∧
      (∀ n, (mineableCap - generatedBy n) >>> emissionSpeedFactor < 2 ^ 64) := by
  refine ⟨fun _ _ => subsidyAt_antitone, ?_, ?_, generatedBy_le, ?_, ?_,
    fun n => baseReward_narrow (generatedBy n)⟩
  · intro height hpos
    exact tail_le_blockSubsidy (by omega) _
  · intro height height' hpos hle heq
    have hfall := subsidyAt_antitone hpos hle
    have hfloor : tailEmissionPerBlock ≤ subsidyAt height' := tail_le_blockSubsidy (by omega) _
    omega
  · intro height hpos habove
    obtain ⟨n, rfl⟩ : ∃ n, height = n + 1 := ⟨height - 1, by omega⟩
    have hcap : generatedBy n + subsidyAt (n + 1) < mineableCap :=
      generated_lt_cap (Nat.succ_ne_zero n) habove
    rw [generatedBy_succ]
    refine ⟨?_, hcap⟩
    exact lt_of_le_of_lt (Nat.le_add_right _ _) hcap
  · intro n hn
    exact alreadyGeneratedAfterBlocks_eq hn.le

/-- The first two blocks are above the tail, and below the cap. -/
theorem emission_curve_first_blocks :
    subsidyAt 2 ≤ subsidyAt 1 ∧ subsidyAt 1 = 4673004150 ∧ generatedBy 2 < mineableCap :=
  ⟨emission_curve.1 1 2 (by decide) (by decide), by decide,
    (emission_curve.2.2.2.2.1 2 (by decide) (by decide)).2⟩

end Rubin.Consensus
