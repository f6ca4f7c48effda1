/-
# Feature-bit deployments

`featurebits.rs`: the state of a deployment at a height is found by replaying a transition function
over all window boundaries from zero, each transition reading the signal count of the window that
ends at the boundary.

The replay has a closed form.  A deployment waits until the first boundary that reaches its start
height, then until the first later boundary at which the preceding window reached the threshold or
the timeout height is reached, and what it does from there on depends only on which of the two it
was (`stateAtBoundary_of_exit`).
-/
import Mathlib.Order.Bounds.Basic
import Rubin.Consensus.Basic

namespace Rubin.Consensus

open Rubin.Lib

/-! ## 1. `featurebits.rs` -/

def signalWindow : Nat := 2016
def signalThreshold : Nat := 1815

inductive FeatureBitState where
  | defined
  | started
  | lockedIn
  | active
  | failed
deriving DecidableEq, Repr

structure FeatureBitDeployment where
  name : String
  bit : UInt8
  startHeight : Nat
  timeoutHeight : Nat

structure FeatureBitEval where
  state : FeatureBitState
  boundaryHeight : Nat
  prevWindowSignalCount : Nat
  signalWindow : Nat
  signalThreshold : Nat
deriving DecidableEq

def nextState (prev : FeatureBitState) (boundaryHeight prevWindowSignalCount : Nat)
    (d : FeatureBitDeployment) : FeatureBitState :=
  match prev with
  | .defined => if boundaryHeight ≥ d.startHeight then .started else .defined
  | .started =>
    if prevWindowSignalCount ≥ signalThreshold then .lockedIn
    else if boundaryHeight ≥ d.timeoutHeight then .failed
    else .started
  | .lockedIn => .active
  | .active => .active
  | .failed => .failed

/-- The count of the window that ends at a boundary; none ends at the first. -/
def prevCount (windowSignalCounts : List Nat) (boundaryIndex : Nat) : Nat :=
  if boundaryIndex * signalWindow < signalWindow then 0
  else windowSignalCounts.getD (boundaryIndex - 1) 0

/-- The loop of the evaluation, over the boundaries up to the given one. -/
def stateAtBoundary (d : FeatureBitDeployment) (windowSignalCounts : List Nat)
    (targetBoundaryIndex : Nat) : FeatureBitState :=
  (List.range (targetBoundaryIndex + 1)).foldl (fun state boundaryIndex =>
    nextState state (boundaryIndex * signalWindow) (prevCount windowSignalCounts boundaryIndex) d)
    .defined

/-- The three checks of a deployment, in their order. -/
def FeatureBitDeployment.check (d : FeatureBitDeployment) : Except String Unit := do
  rejectIf (d.name = "") "featurebits: name required"
  let bit := d.bit
  rejectIf (d.bit > 31) s!"featurebits: bit out of range: {bit}"
  rejectIf (d.timeoutHeight < d.startHeight) "featurebits: timeout_height < start_height"

def featurebitStateAtHeightFromWindowCounts (d : FeatureBitDeployment) (height : Nat)
    (windowSignalCounts : List Nat) : Except String FeatureBitEval := do
  d.check
  let boundaryHeight := height - height % signalWindow
  let targetBoundaryIndex := boundaryHeight / signalWindow
  let got := windowSignalCounts.length
  rejectIf (windowSignalCounts.length < targetBoundaryIndex)
    s!"featurebits: need {targetBoundaryIndex} window_signal_counts entries, got {got}"
  .ok { state := stateAtBoundary d windowSignalCounts targetBoundaryIndex
        boundaryHeight
        prevWindowSignalCount := prevCount windowSignalCounts targetBoundaryIndex
        signalWindow
        signalThreshold }

/-! ## 2. Reading the evaluation -/

/-- A deployment that passes its checks. -/
def FeatureBitDeployment.Valid (d : FeatureBitDeployment) : Prop :=
  d.name ≠ "" ∧ d.bit ≤ 31 ∧ d.startHeight ≤ d.timeoutHeight

instance (d : FeatureBitDeployment) : Decidable d.Valid :=
  inferInstanceAs (Decidable (_ ∧ _))

theorem FeatureBitDeployment.check_eq_ok {d : FeatureBitDeployment} :
    d.check = .ok () ↔ d.Valid := by
  simp only [check, Valid, bind_eq_ok, exists_unit, rejectIf_eq_ok, not_lt, gt_iff_lt, ne_eq,
    UInt8.not_lt]

theorem boundary_index (height : Nat) :
    (height - height % signalWindow) / signalWindow = height / signalWindow := by
  unfold signalWindow
  omega

theorem featurebitState_eq {d : FeatureBitDeployment} (hd : d.Valid) {height : Nat}
    {counts : List Nat} (hlen : height / signalWindow ≤ counts.length) :
    featurebitStateAtHeightFromWindowCounts d height counts =
      .ok { state := stateAtBoundary d counts (height / signalWindow)
            boundaryHeight := height / signalWindow * signalWindow
            prevWindowSignalCount := prevCount counts (height / signalWindow)
            signalWindow
            signalThreshold } := by
  have hheight : height - height % signalWindow = height / signalWindow * signalWindow := by
    unfold signalWindow
    omega
  rw [featurebitStateAtHeightFromWindowCounts, FeatureBitDeployment.check_eq_ok.mpr hd, ok_bind]
  simp only [boundary_index]
  rw [rejectIf_neg (not_lt.mpr hlen), ok_bind, hheight]

/-! ## 3. The replay, boundary by boundary -/

variable {d : FeatureBitDeployment} {counts : List Nat}

theorem stateAtBoundary_zero : stateAtBoundary d counts 0 =
    nextState .defined 0 (prevCount counts 0) d := by
  simp [stateAtBoundary]

theorem stateAtBoundary_succ (i : Nat) : stateAtBoundary d counts (i + 1) =
    nextState (stateAtBoundary d counts i) ((i + 1) * signalWindow) (prevCount counts (i + 1)) d := by
  rw [stateAtBoundary, List.range_succ, List.foldl_append]
  rfl

/-- A state that no boundary from `i` to `j` changes is still there at `j`. -/
theorem stateAtBoundary_stays {state : FeatureBitState} {i j : Nat} (hle : i ≤ j)
    (hi : stateAtBoundary d counts i = state)
    (hstep : ∀ k, i < k → k ≤ j →
      nextState state (k * signalWindow) (prevCount counts k) d = state) :
    stateAtBoundary d counts j = state := by
  induction j, hle using Nat.le_induction with
  | base => exact hi
  | succ j hij ih =>
    have hj := ih fun k hik hkj => hstep k hik (by omega)
    rw [stateAtBoundary_succ, hj]
    exact hstep (j + 1) (by omega) le_rfl

/-- What ends the signalling of a started deployment at boundary `i`. -/
def Exits (d : FeatureBitDeployment) (counts : List Nat) (i : Nat) : Prop :=
  signalThreshold ≤ counts.getD (i - 1) 0 ∨ d.timeoutHeight ≤ i * signalWindow

instance (i : Nat) : Decidable (Exits d counts i) :=
  inferInstanceAs (Decidable (_ ∨ _))

theorem prevCount_pos {i : Nat} (hpos : 0 < i) : prevCount counts i = counts.getD (i - 1) 0 := by
  have hlate : ¬ i * signalWindow < signalWindow := by
    unfold signalWindow
    omega
  rw [prevCount, if_neg hlate]

theorem stateAtBoundary_before {s i : Nat} (hs : IsLeast {i | d.startHeight ≤ i * signalWindow} s)
    (hi : i < s) : stateAtBoundary d counts i = .defined := by
  have hquiet : ∀ k, k < s → nextState .defined (k * signalWindow) (prevCount counts k) d =
      .defined := by
    intro k hk
    refine if_neg fun hreach => ?_
    exact absurd (hs.2 hreach) (not_le.mpr hk)
  refine stateAtBoundary_stays (Nat.zero_le i) ?_ fun k _ hk => hquiet k (by omega)
  rw [stateAtBoundary_zero]
  have h0 := hquiet 0 (by omega)
  rwa [Nat.zero_mul] at h0

theorem stateAtBoundary_start {s : Nat}
    (hs : IsLeast {i | d.startHeight ≤ i * signalWindow} s) :
    stateAtBoundary d counts s = .started := by
  have hreach : s * signalWindow ≥ d.startHeight := hs.1
  cases s with
  | zero =>
    rw [stateAtBoundary_zero]
    rw [Nat.zero_mul] at hreach
    exact if_pos hreach
  | succ s =>
    rw [stateAtBoundary_succ, stateAtBoundary_before hs (Nat.lt_succ_self s)]
    exact if_pos hreach

theorem stateAtBoundary_signalling {s i : Nat}
    (hs : IsLeast {i | d.startHeight ≤ i * signalWindow} s) (hi : s ≤ i)
    (hquiet : ∀ k, s < k → k ≤ i → ¬ Exits d counts k) :
    stateAtBoundary d counts i = .started := by
  refine stateAtBoundary_stays hi (stateAtBoundary_start hs) ?_
  intro k hsk hki
  have hk := hquiet k hsk hki
  rw [Exits, not_or] at hk
  rw [nextState, prevCount_pos (by omega), if_neg hk.1, if_neg hk.2]

theorem stateAtBoundary_of_exit {s l i : Nat}
    (hs : IsLeast {i | d.startHeight ≤ i * signalWindow} s)
    (hl : IsLeast {i | s < i ∧ Exits d counts i} l) (hi : l ≤ i) :
    stateAtBoundary d counts i =
      if signalThreshold ≤ counts.getD (l - 1) 0 then
        if i = l then .lockedIn else .active
      else .failed := by
  obtain ⟨⟨hsl, hexit⟩, hfirst⟩ := hl
  obtain ⟨l, rfl⟩ : ∃ m, l = m + 1 := ⟨l - 1, by omega⟩
  have hbefore : stateAtBoundary d counts l = .started := by
    refine stateAtBoundary_signalling hs (by omega) ?_
    intro k hsk hkl hk
    have := hfirst ⟨hsk, hk⟩
    omega
  have hat : stateAtBoundary d counts (l + 1) =
      if signalThreshold ≤ counts.getD l 0 then .lockedIn else .failed := by
    rw [stateAtBoundary_succ, hbefore, nextState, prevCount_pos (by omega : 0 < l + 1)]
    by_cases hcount : signalThreshold ≤ counts.getD l 0
    · rw [if_pos hcount]
      exact if_pos hcount
    · rw [if_neg hcount]
      have htimeout := hexit.resolve_left hcount
      rw [Nat.add_sub_cancel, if_neg hcount, if_pos htimeout]
  rw [Nat.add_sub_cancel]
  split
  · rename_i hcount
    rw [if_pos hcount] at hat
    split
    · rename_i heq
      rw [heq]
      exact hat
    · have hnext : stateAtBoundary d counts (l + 1 + 1) = .active := by
        rw [stateAtBoundary_succ, hat]
        rfl
      exact stateAtBoundary_stays (by omega) hnext fun _ _ _ => rfl
  · rename_i hcount
    rw [if_neg hcount] at hat
    exact stateAtBoundary_stays hi hat fun _ _ _ => rfl

/-- Only the counts of windows that have ended are read. -/
theorem stateAtBoundary_congr {counts' : List Nat} {i : Nat}
    (h : ∀ k, k < i → counts'.getD k 0 = counts.getD k 0) :
    stateAtBoundary d counts' i = stateAtBoundary d counts i := by
  induction i with
  | zero =>
    rw [stateAtBoundary_zero, stateAtBoundary_zero]
    rfl
  | succ i ih =>
    rw [stateAtBoundary_succ, stateAtBoundary_succ, ih fun k hk => h k (by omega),
      prevCount_pos (by omega : 0 < i + 1), prevCount_pos (by omega : 0 < i + 1), Nat.add_sub_cancel,
      h i (Nat.lt_succ_self i)]

/-! ## 4. The closed form -/

theorem exists_start (d : FeatureBitDeployment) :
    ∃ s, IsLeast {i | d.startHeight ≤ i * signalWindow} s := by
  refine ⟨(d.startHeight + 2015) / 2016, ?_, ?_⟩
  · change d.startHeight ≤ (d.startHeight + 2015) / 2016 * 2016
    omega
  · intro i hi
    have hi : d.startHeight ≤ i * 2016 := hi
    omega

/-- **The state in closed form.**  For a valid deployment and counts of all windows that have ended,
the evaluation succeeds.  With `s` the first boundary that reaches the start height and `l` the
first boundary after `s` at which the preceding window reached the threshold or the timeout height
is reached, the deployment is defined before `s`, started from `s` on and before `l`, and from `l`
on it is locked in at `l` and active afterwards if the window before `l` reached the threshold, and
failed otherwise.  So one window has one state, counts of windows that have not ended do not matter,
and nothing leaves the active or the failed state. -/
theorem featurebit_closed_form (hd : d.Valid) {height : Nat}
    (hlen : height / signalWindow ≤ counts.length) :
    ∃ eval, featurebitStateAtHeightFromWindowCounts d height counts = .ok eval ∧
      (∃ s, IsLeast {i | d.startHeight ≤ i * signalWindow} s ∧
        (height / signalWindow < s → eval.state = .defined) ∧
        (s ≤ height / signalWindow → (∀ i, s < i → i ≤ height / signalWindow → ¬ Exits d counts i) →
          eval.state = .started) ∧
        ∀ l, IsLeast {i | s < i ∧ Exits d counts i} l → l ≤ height / signalWindow →
          eval.state = if signalThreshold ≤ counts.getD (l - 1) 0 then
            if height / signalWindow = l then .lockedIn else .active
          else .failed) ∧
      (∀ height', height' / signalWindow = height / signalWindow →
        featurebitStateAtHeightFromWindowCounts d height' counts = .ok eval) ∧
      (∀ counts', counts'.take (height / signalWindow) = counts.take (height / signalWindow) →
        featurebitStateAtHeightFromWindowCounts d height counts' = .ok eval) ∧
      ∀ height', height ≤ height' → height' / signalWindow ≤ counts.length →
        eval.state = .active ∨ eval.state = .failed →
        ∃ eval', featurebitStateAtHeightFromWindowCounts d height' counts = .ok eval' ∧
          eval'.state = eval.state := by
  obtain ⟨s, hs⟩ := exists_start d
  refine ⟨_, featurebitState_eq hd hlen, ⟨s, hs, ?_, ?_, ?_⟩, ?_, ?_, ?_⟩
  · exact fun hbefore => stateAtBoundary_before hs hbefore
  · exact fun hstart hquiet => stateAtBoundary_signalling hs hstart hquiet
  · exact fun l hl hafter => stateAtBoundary_of_exit hs hl hafter
  · intro height' hsame
    rw [featurebitState_eq hd (hsame ▸ hlen), hsame]
  · intro counts' htake
    have hlen' : height / signalWindow ≤ counts'.length := by
      have h := congrArg List.length htake
      rw [List.length_take, List.length_take, min_eq_left hlen] at h
      exact min_eq_left_iff.mp h
    have hread : ∀ k, k < height / signalWindow → counts'.getD k 0 = counts.getD k 0 := by
      intro k hk
      have h := congrArg (fun l => l[k]?) htake
      simp only [List.getElem?_take, if_pos hk] at h
      rw [List.getD_eq_getElem?_getD, List.getD_eq_getElem?_getD, h]
    have hprev : prevCount counts' (height / signalWindow) =
        prevCount counts (height / signalWindow) := by
      rcases Nat.eq_zero_or_pos (height / signalWindow) with h0 | hpos
      · rw [h0]
        rfl
      · rw [prevCount_pos hpos, prevCount_pos hpos, hread _ (by omega)]
    rw [featurebitState_eq hd hlen', stateAtBoundary_congr hread, hprev]
  · intro height' hle hlen' hfinal
    refine ⟨_, featurebitState_eq hd hlen', ?_⟩
    refine stateAtBoundary_stays (Nat.div_le_div_right hle) rfl ?_
    intro k _ _
    rcases hfinal with h | h
    · rw [h]
      rfl
    · rw [h]
      rfl

/-- A deployment that starts at once, reaches the threshold in its second window, and is active two
boundaries later. -/
theorem featurebit_closed_form_sample :
    ∃ eval, featurebitStateAtHeightFromWindowCounts ⟨"fb", 1, 0, 20160⟩ 6100 [7, 1815, 0] =
      .ok eval ∧ eval.state = .active := by
  obtain ⟨eval, heval, ⟨s, hs, -, -, hexit⟩, -⟩ := @featurebit_closed_form ⟨"fb", 1, 0, 20160⟩
    [7, 1815, 0] (by decide) 6100 (by decide)
  have hs0 : s = 0 := Nat.le_zero.mp (hs.2 (Nat.zero_le _))
  subst hs0
  have hl : IsLeast {i | 0 < i ∧ Exits ⟨"fb", 1, 0, 20160⟩ [7, 1815, 0] i} 2 := by
    refine ⟨by decide, ?_⟩
    rintro i ⟨hpos, hi⟩
    by_contra hlt
    have h1 : i = 1 := by omega
    subst h1
    exact absurd hi (by decide)
  exact ⟨eval, heval, hexit 2 hl (by decide)⟩

end Rubin.Consensus
