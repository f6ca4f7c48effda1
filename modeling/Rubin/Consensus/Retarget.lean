/-
# Retargeting

`retarget_v1_clamped` of `pow.rs`.  The timestamps of a window are folded through a clamp whose
bounds move with the previous clamped value; the span that comes out scales the old target, between
a quarter and four times of it and never above the proof-of-work limit.

`u64` values are natural numbers with the source's overflow checks, `BigUint`s are natural numbers.
-/
import Rubin.Consensus.Block

namespace Rubin.Consensus

open Rubin.Lib

/-! ## 1. The source -/

def retargetClampOverflow : TxError := .parse "retarget: timestamp clamp overflow"

/-- `raw.clamp(prev + 1, prev + MAX_TIMESTAMP_STEP_PER_BLOCK)`. -/
def clampNextRetargetTimestamp (prev : Nat) (raw : UInt64) : Except TxError Nat := do
  rejectIf (prev + 1 ≥ 2 ^ 64) retargetClampOverflow
  rejectIf (prev + maxTimestampStepPerBlock ≥ 2 ^ 64) retargetClampOverflow
  .ok (max (prev + 1) (min raw.toNat (prev + maxTimestampStepPerBlock)))

/-- The clamped last timestamp minus the first. -/
def clampedSpan : List UInt64 → Except TxError Nat
  | [] => .ok 0
  | first :: rest => do
    let last ← rest.foldlM clampNextRetargetTimestamp first.toNat
    .ok (last - first.toNat)

def validateRetargetOldTarget (tOld limit : Nat) : Except TxError Unit := do
  rejectIf (tOld = 0) (.parse "retarget: target_old is zero")
  rejectIf (tOld > limit) (.parse "retarget: target_old above pow_limit")

def retargetExpectedInterval : Except TxError Nat := do
  rejectIf (targetBlockInterval * windowSize ≥ 2 ^ 64) (.parse "retarget: t_expected overflow")
  rejectIf (targetBlockInterval * windowSize = 0) (.parse "retarget: t_expected is zero")
  .ok (targetBlockInterval * windowSize)

def retargetLowerBound (tOld : Nat) : Nat := max (tOld >>> 2) 1

def retargetUpperBound (tOld limit : Nat) : Nat := min (tOld <<< 2) limit

/-- First up to `lower`, then down to `upper`. -/
def boundTarget (lower upper tNew : Nat) : Nat :=
  let raised := if tNew < lower then lower else tNew
  if raised > upper then upper else raised

def biguintToBytes32 (x : Nat) : Except TxError Bytes32 := do
  rejectIf (x ≥ 2 ^ 256) (.parse "u256: overflow")
  .ok (BytesN.ofList 32 (natToLe 32 x).reverse)

def retargetV1WithActual (targetOld : Bytes32) (tActual : Nat) : Except TxError Bytes32 := do
  validateRetargetOldTarget (beToNat targetOld) (beToNat powLimit)
  let tExpected ← retargetExpectedInterval
  biguintToBytes32 (boundTarget (retargetLowerBound (beToNat targetOld))
    (retargetUpperBound (beToNat targetOld) (beToNat powLimit))
    (beToNat targetOld * tActual / tExpected))

def retargetV1Clamped (targetOld : Bytes32) (windowTimestamps : List UInt64) :
    Except TxError Bytes32 := do
  rejectIf (windowTimestamps.length ≠ windowSize)
    (.parse "retarget: invalid window timestamp count")
  let tActual ← clampedSpan windowTimestamps
  retargetV1WithActual targetOld (if tActual = 0 then 1 else tActual)

/-! ## 2. The clamp -/

/-- The clamp without its overflow checks. -/
def clampStep (prev raw : Nat) : Nat := max (prev + 1) (min raw (prev + maxTimestampStepPerBlock))

variable {prev i : Nat} {raw : UInt64} {window : List UInt64} {targetOld target : Bytes32}

theorem clampNextRetargetTimestamp_ok {next : Nat}
    (h : clampNextRetargetTimestamp prev raw = .ok next) : next = clampStep prev raw.toNat := by
  simp only [clampNextRetargetTimestamp, bind_eq_ok, exists_unit, Except.ok.injEq] at h
  exact h.2.2.symm

theorem clampFold_ok {raws : List UInt64} {last : Nat}
    (h : raws.foldlM clampNextRetargetTimestamp prev = .ok last) :
    last = (raws.map UInt64.toNat).foldl clampStep prev := by
  induction raws generalizing prev with
  | nil =>
    rw [List.foldlM_nil, pure_eq_ok_iff] at h
    exact h.symm
  | cons raw raws ih =>
    rw [List.foldlM_cons, bind_eq_ok] at h
    obtain ⟨next, hnext, hrest⟩ := h
    rw [ih hrest, clampNextRetargetTimestamp_ok hnext]
    rfl

theorem clampStep_bounds (prev raw : Nat) :
    prev + 1 ≤ clampStep prev raw ∧ clampStep prev raw ≤ prev + maxTimestampStepPerBlock := by
  have hstep : 1 ≤ maxTimestampStepPerBlock := by decide
  unfold clampStep
  omega

theorem clampFold_bounds (raws : List Nat) : ∀ prev : Nat,
    prev + raws.length ≤ raws.foldl clampStep prev ∧
      raws.foldl clampStep prev ≤ prev + raws.length * maxTimestampStepPerBlock := by
  induction raws with
  | nil => intro prev; simp
  | cons raw raws ih =>
    intro prev
    obtain ⟨hlo, hhi⟩ := clampStep_bounds prev raw
    obtain ⟨hlo', hhi'⟩ := ih (clampStep prev raw)
    rw [List.foldl_cons, List.length_cons, Nat.succ_mul]
    omega

theorem clampStep_mono {prev' raw raw' : Nat} (hprev : prev ≤ prev') (hraw : raw ≤ raw') :
    clampStep prev raw ≤ clampStep prev' raw' := by
  unfold clampStep
  omega

theorem clampFold_mono {raws raws' : List Nat} (h : List.Forall₂ (· ≤ ·) raws raws') :
    ∀ {prev prev' : Nat}, prev ≤ prev' →
      raws.foldl clampStep prev ≤ raws'.foldl clampStep prev' := by
  induction h with
  | nil => exact fun hprev => hprev
  | cons hraw _ ih => exact fun hprev => ih (clampStep_mono hprev hraw)

/-! ## 3. The span of a window -/

theorem clampedSpan_bounds {span : Nat} (hlen : window.length = windowSize)
    (h : clampedSpan window = .ok span) :
    windowSize - 1 ≤ span ∧ span ≤ (windowSize - 1) * maxTimestampStepPerBlock := by
  cases window with
  | nil => cases hlen
  | cons first rest =>
    simp only [clampedSpan, bind_eq_ok, Except.ok.injEq] at h
    obtain ⟨last, hlast, rfl⟩ := h
    obtain ⟨hlo, hhi⟩ := clampFold_bounds (rest.map UInt64.toNat) first.toNat
    rw [← clampFold_ok hlast, List.length_map] at hlo hhi
    rw [List.length_cons] at hlen
    have hrest : rest.length = windowSize - 1 := by omega
    rw [hrest] at hlo hhi
    omega

theorem forall₂_le_set {l : List Nat} {v : Nat} (h : ∀ x ∈ l[i]?, x ≤ v) :
    List.Forall₂ (· ≤ ·) l (l.set i v) := by
  induction l generalizing i with
  | nil => exact .nil
  | cons a l ih =>
    cases i with
    | zero => exact .cons (h a (by simp)) (List.forall₂_refl l)
    | succ i => exact .cons (Nat.le_refl a) (ih (by simpa using h))

theorem clampedSpan_set_mono {raised : UInt64} {span span' : Nat} (hraw : window[i + 1]? = some raw)
    (hle : raw ≤ raised) (h : clampedSpan window = .ok span)
    (h' : clampedSpan (window.set (i + 1) raised) = .ok span') : span ≤ span' := by
  cases window with
  | nil => cases hraw
  | cons first rest =>
    rw [List.getElem?_cons_succ] at hraw
    rw [List.set_cons_succ] at h'
    simp only [clampedSpan, bind_eq_ok, Except.ok.injEq] at h h'
    obtain ⟨last, hlast, rfl⟩ := h
    obtain ⟨last', hlast', rfl⟩ := h'
    rw [clampFold_ok hlast, clampFold_ok hlast', List.map_set]
    refine Nat.sub_le_sub_right (clampFold_mono (forall₂_le_set ?_) (Nat.le_refl _)) _
    intro x hx
    rw [List.getElem?_map, hraw, Option.map_some, Option.mem_some_iff] at hx
    exact hx ▸ UInt64.le_iff_toNat_le.mp hle

/-! ## 4. The new target -/

def powLimitNat : Nat := beToNat powLimit

def scaledTarget (tOld tActual : Nat) : Nat :=
  boundTarget (retargetLowerBound tOld) (retargetUpperBound tOld powLimitNat)
    (tOld * tActual / (targetBlockInterval * windowSize))

theorem powLimitNat_eq : powLimitNat = 2 ^ 256 - 1 := by decide

theorem beToNat_of_biguintToBytes32 {x : Nat} {b : Bytes32} (h : biguintToBytes32 x = .ok b) :
    beToNat b = x := by
  simp only [biguintToBytes32, bind_eq_ok, exists_unit, rejectIf_eq_ok, Except.ok.injEq] at h
  obtain ⟨hlt, rfl⟩ := h
  have hpow : (256 : Nat) ^ 32 = 2 ^ 256 := by norm_num
  rw [beToNat, BytesN.toList_ofList (by simp), List.reverse_reverse, leToNat_natToLe, hpow,
    Nat.mod_eq_of_lt (Nat.not_le.mp hlt)]

theorem boundTarget_bounds {lower upper : Nat} (h : lower ≤ upper) (tNew : Nat) :
    lower ≤ boundTarget lower upper tNew ∧ boundTarget lower upper tNew ≤ upper := by
  simp only [boundTarget]
  split_ifs <;> omega

theorem boundTarget_mono {lower upper t t' : Nat} (h : t ≤ t') :
    boundTarget lower upper t ≤ boundTarget lower upper t' := by
  simp only [boundTarget]
  split_ifs <;> omega

theorem scaledTarget_bounds {tOld : Nat} (hpos : 1 ≤ tOld) (hle : tOld ≤ powLimitNat)
    (tActual : Nat) : tOld / 4 ≤ scaledTarget tOld tActual ∧ scaledTarget tOld tActual ≤ 4 * tOld ∧
      1 ≤ scaledTarget tOld tActual ∧ scaledTarget tOld tActual ≤ powLimitNat := by
  have hshr : tOld >>> 2 = tOld / 4 := Nat.shiftRight_eq_div_pow tOld 2
  have hshl : tOld <<< 2 = tOld * 4 := Nat.shiftLeft_eq tOld 2
  have hbounds : retargetLowerBound tOld ≤ retargetUpperBound tOld powLimitNat := by
    rw [retargetLowerBound, retargetUpperBound, hshr, hshl]
    omega
  have hlo : retargetLowerBound tOld ≤ scaledTarget tOld tActual :=
    (boundTarget_bounds hbounds _).1
  have hhi : scaledTarget tOld tActual ≤ retargetUpperBound tOld powLimitNat :=
    (boundTarget_bounds hbounds _).2
  rw [retargetLowerBound, hshr] at hlo
  rw [retargetUpperBound, hshl] at hhi
  omega

theorem scaledTarget_mono (tOld : Nat) {tActual tActual' : Nat} (h : tActual ≤ tActual') :
    scaledTarget tOld tActual ≤ scaledTarget tOld tActual' :=
  boundTarget_mono (Nat.div_le_div_right (Nat.mul_le_mul_left tOld h))

theorem retargetV1WithActual_ok {tActual : Nat}
    (h : retargetV1WithActual targetOld tActual = .ok target) :
    beToNat target = scaledTarget (beToNat targetOld) tActual := by
  simp only [retargetV1WithActual, bind_eq_ok, exists_unit] at h
  obtain ⟨-, tExpected, hexp, htarget⟩ := h
  have hval : tExpected = targetBlockInterval * windowSize := by
    simp only [retargetExpectedInterval, bind_eq_ok, exists_unit, Except.ok.injEq] at hexp
    exact hexp.2.2.symm
  rw [beToNat_of_biguintToBytes32 htarget, hval]
  rfl

/-- **Inversion.**  A window is retargeted through its clamped span alone, which is never zero. -/
theorem retargetV1Clamped_ok (h : retargetV1Clamped targetOld window = .ok target) : ∃ span,
      clampedSpan window = .ok span ∧ windowSize - 1 ≤ span ∧
      span ≤ (windowSize - 1) * maxTimestampStepPerBlock ∧
      retargetV1WithActual targetOld span = .ok target := by
  simp only [retargetV1Clamped, bind_eq_ok, exists_unit, rejectIf_eq_ok, not_not] at h
  obtain ⟨hlen, span, hspan, htarget⟩ := h
  obtain ⟨hlo, hhi⟩ := clampedSpan_bounds hlen hspan
  have hpos : span ≠ 0 := by
    have : 1 ≤ windowSize - 1 := by decide
    omega
  rw [if_neg hpos] at htarget
  exact ⟨span, hspan, hlo, hhi, htarget⟩

theorem retargetV1Clamped_set_mono {target' : Bytes32} {raised : UInt64}
    (hraw : window[i + 1]? = some raw) (hle : raw ≤ raised)
    (h : retargetV1Clamped targetOld window = .ok target)
    (h' : retargetV1Clamped targetOld (window.set (i + 1) raised) = .ok target') :
    beToNat target ≤ beToNat target' := by
  obtain ⟨span, hspan, -, -, htarget⟩ := retargetV1Clamped_ok h
  obtain ⟨span', hspan', -, -, htarget'⟩ := retargetV1Clamped_ok h'
  rw [retargetV1WithActual_ok htarget, retargetV1WithActual_ok htarget']
  exact scaledTarget_mono _ (clampedSpan_set_mono hraw hle hspan hspan')

end Rubin.Consensus
