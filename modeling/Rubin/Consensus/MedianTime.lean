/-
# The median time past along a chain

`median_time_past` and `validate_timestamp_rules` of `block_basic/header.rs` see one block and the
window their caller hands them.  Here they are followed along a chain of headers, each checked with
the timestamps of its own predecessors: the window then slides by one sample per height, and every
sample is above the median of the window before it.
-/
import Rubin.Lib.SlidingMedian
import Rubin.Consensus.BlockRules

namespace Rubin.Consensus

open Rubin.Lib

def mtpWindowSize : Nat := 11

/-- The timestamps below `height`, most recent first, at most eleven. -/
def predecessorWindow (timestamps : List UInt64) (height : Nat) : List UInt64 :=
  (timestamps.take height).reverse.take mtpWindowSize

/-- The median that a window stands for. -/
def windowMedian (window : List UInt64) : UInt64 := lowerMedian (· ≤ ·) window 0

/-- Every header passes the timestamp rules with the timestamps of its predecessors. -/
def TimestampsChecked (timestamps : List UInt64) : Prop :=
  ∀ height timestamp, timestamps[height]? = some timestamp →
    validateTimestampRules timestamp height (some (predecessorWindow timestamps height)) = .ok ()

/-! ## 1. The window -/

variable {timestamps : List UInt64} {height : Nat} {timestamp : UInt64}

theorem length_predecessorWindow (h : height ≤ timestamps.length) :
    (predecessorWindow timestamps height).length = min height mtpWindowSize := by
  rw [predecessorWindow, List.length_take, List.length_reverse, List.length_take,
    Nat.min_eq_left h, Nat.min_comm]

theorem predecessorWindow_ne_nil (hpos : 0 < height) (h : height ≤ timestamps.length) :
    predecessorWindow timestamps height ≠ [] := by
  intro hnil
  have hlen := length_predecessorWindow h
  rw [hnil, List.length_nil, mtpWindowSize] at hlen
  omega

theorem predecessorWindow_succ (h : timestamps[height]? = some timestamp) :
    predecessorWindow timestamps (height + 1) =
      (timestamp :: predecessorWindow timestamps height).take mtpWindowSize := by
  rw [predecessorWindow, predecessorWindow, List.take_add_one, h, Option.toList_some,
    List.reverse_append, List.reverse_singleton, List.singleton_append, mtpWindowSize,
    List.take_succ_cons, List.take_succ_cons, List.take_take]
  rfl

theorem predecessorWindow_append {below above : List UInt64} (h : height ≤ below.length) :
    predecessorWindow (below ++ above) height = predecessorWindow below height := by
  rw [predecessorWindow, predecessorWindow, List.take_append_of_le_length h]

theorem predecessorWindow_take {stop : Nat} (h : height ≤ stop) :
    predecessorWindow (timestamps.take stop) height = predecessorWindow timestamps height := by
  rw [predecessorWindow, predecessorWindow, List.take_take, Nat.min_eq_left h]

/-! ## 2. The median -/

theorem medianTimePast_of_window {window : List UInt64} (hpos : 0 < height)
    (hlen : window.length = min height mtpWindowSize) :
    medianTimePast height (some window) = .ok (some (windowMedian window)) := by
  have hne : ¬ (height = 0 ∨ window = []) := by
    rintro (h0 | h0)
    · omega
    · rw [h0, List.length_nil, mtpWindowSize] at hlen
      omega
  have hshort : ¬ window.length < min height 11 := by
    rw [hlen]
    exact Nat.lt_irrefl _
  have htake : window.take (min height 11) = window := List.take_of_length_le (Nat.le_of_eq hlen)
  simp only [medianTimePast, if_neg hne, rejectIf_neg hshort, ok_bind, htake,
    List.length_insertionSort]
  rfl

theorem medianTimePast_predecessorWindow (hpos : 0 < height) (h : height ≤ timestamps.length) :
    medianTimePast height (some (predecessorWindow timestamps height)) =
      .ok (some (windowMedian (predecessorWindow timestamps height))) :=
  medianTimePast_of_window hpos (length_predecessorWindow h)

theorem lt_of_validateTimestampRules {median : UInt64} {prev : Option (List UInt64)}
    (hmedian : medianTimePast height prev = .ok (some median))
    (h : validateTimestampRules timestamp height prev = .ok ()) : median < timestamp := by
  rw [validateTimestampRules, hmedian, ok_bind] at h
  simp only [check_bind_eq_ok, rejectIf_eq_ok] at h
  exact UInt64.not_le.mp h.1

/-! ## 3. Along a chain -/

theorem windowMedian_lt (h : TimestampsChecked timestamps) (hpos : 0 < height)
    (hts : timestamps[height]? = some timestamp) :
    windowMedian (predecessorWindow timestamps height) < timestamp := by
  have hlt := (List.getElem?_eq_some_iff.mp hts).1
  exact lt_of_validateTimestampRules (medianTimePast_predecessorWindow hpos hlt.le)
    (h height timestamp hts)

theorem windowMedian_le_succ (h : TimestampsChecked timestamps) (hpos : 0 < height)
    (hlt : height < timestamps.length) :
    windowMedian (predecessorWindow timestamps height) ≤
      windowMedian (predecessorWindow timestamps (height + 1)) := by
  have hts := List.getElem?_eq_getElem hlt
  have hbelow := windowMedian_lt h hpos hts
  rw [predecessorWindow_succ hts]
  refine lowerMedian_push (predecessorWindow_ne_nil hpos hlt.le) ?_ (UInt64.le_of_lt hbelow)
  rw [length_predecessorWindow hlt.le]
  exact Nat.min_le_right _ _

/-- **The median time past never goes back.** -/
theorem windowMedian_mono (h : TimestampsChecked timestamps) {i j : Nat} (hpos : 0 < i)
    (hij : i ≤ j) (hj : j ≤ timestamps.length) :
    windowMedian (predecessorWindow timestamps i) ≤
      windowMedian (predecessorWindow timestamps j) := by
  induction j, hij using Nat.le_induction with
  | base => exact UInt64.le_refl _
  | succ j hij ih =>
    exact UInt64.le_trans (ih (by omega)) (windowMedian_le_succ h (by omega) hj)

end Rubin.Consensus
