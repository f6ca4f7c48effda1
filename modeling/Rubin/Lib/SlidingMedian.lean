/-
# The lower median of a sliding window

A window keeps the last `size` samples of a stream, the most recent first.  Its lower median is the
entry at index `(length - 1) / 2` of the sorted window.  If every new sample is at least the median
of the window before it, the median never goes back (`lowerMedian_push`): while the window grows,
and when it is full and each push drops the oldest sample.

The argument counts.  An entry of a sorted list is at least `m` exactly if at most as many samples
are below `m` as the entry has predecessors, and a push of a sample that is not below `m` adds
nothing to that count.
-/
import Mathlib.Data.List.GetD
import Mathlib.Data.List.Sort

namespace Rubin.Lib

variable {α : Type} {r : α → α → Prop} [DecidableRel r]

/-! ## 1. Counting in a sorted list -/

/-- How many entries are below `m`. -/
def countBelow (r : α → α → Prop) [DecidableRel r] (m : α) (l : List α) : Nat :=
  l.countP fun a => !decide (r m a)

theorem countBelow_perm {m : α} {l l' : List α} (h : l.Perm l') :
    countBelow r m l = countBelow r m l' := h.countP_eq _

theorem countBelow_le_of_sublist {m : α} {l l' : List α} (h : l.Sublist l') :
    countBelow r m l ≤ countBelow r m l' := h.countP_le

theorem countBelow_cons_of_rel {m a : α} {l : List α} (h : r m a) :
    countBelow r m (a :: l) = countBelow r m l := by
  simp [countBelow, h]

theorem countBelow_getElem_le [Std.Refl r] {l : List α} (hl : l.Pairwise r) {i : Nat}
    (hi : i < l.length) : countBelow r l[i] l ≤ i := by
  have hsplit : countBelow r l[i] l =
      countBelow r l[i] (l.take i) + countBelow r l[i] (l.drop i) := by
    rw [countBelow, countBelow, countBelow, ← List.countP_append, List.take_append_drop]
  -- nothing from index `i` on is below the entry there
  have hdrop : countBelow r l[i] (l.drop i) = 0 := by
    rw [countBelow, List.countP_eq_zero]
    intro a ha
    rw [List.drop_eq_getElem_cons hi, List.mem_cons] at ha
    rcases ha with rfl | ha
    · simp [refl_of r]
    · have hpair := hl.sublist (List.drop_sublist i l)
      rw [List.drop_eq_getElem_cons hi, List.pairwise_cons] at hpair
      simp [hpair.1 a ha]
  have htake : countBelow r l[i] (l.take i) ≤ i := by
    refine Nat.le_trans List.countP_le_length ?_
    rw [List.length_take]
    exact Nat.min_le_left _ _
  omega

theorem rel_getElem_of_countBelow_le [IsTrans α r] {l : List α} (hl : l.Pairwise r) {m : α}
    {i : Nat} (hi : i < l.length) (hcount : countBelow r m l ≤ i) : r m l[i] := by
  by_contra hnot
  -- then the first `i + 1` entries are all below `m`
  have hall : ∀ a ∈ l.take (i + 1), ¬ r m a := by
    intro a ha hra
    rw [List.take_add_one, List.getElem?_eq_getElem hi, Option.toList_some, List.mem_append,
      List.mem_singleton] at ha
    rcases ha with ha | rfl
    · have hpair : (l.take i ++ l.drop i).Pairwise r := by rwa [List.take_append_drop]
      rw [List.pairwise_append] at hpair
      have hmem : l[i] ∈ l.drop i := by
        rw [List.drop_eq_getElem_cons hi]
        exact List.mem_cons_self
      exact hnot (trans_of r hra (hpair.2.2 a ha _ hmem))
    · exact hnot hra
  have hfull : countBelow r m (l.take (i + 1)) = i + 1 := by
    have hlen : (l.take (i + 1)).length = i + 1 := by
      rw [List.length_take]
      omega
    rw [countBelow, List.countP_eq_length.mpr, hlen]
    intro a ha
    simp [hall a ha]
  have hle := countBelow_le_of_sublist (r := r) (m := m) (List.take_sublist (i + 1) l)
  omega

/-! ## 2. The median -/

def lowerMedian (r : α → α → Prop) [DecidableRel r] (window : List α) (default : α) : α :=
  (window.insertionSort r).getD ((window.length - 1) / 2) default

variable {window : List α} {m d : α}

theorem lowerMedian_eq_getElem (h : window ≠ []) :
    ∃ hi : (window.length - 1) / 2 < (window.insertionSort r).length,
      lowerMedian r window d = (window.insertionSort r)[(window.length - 1) / 2] := by
  have hpos := List.length_pos_iff.mpr h
  have hi : (window.length - 1) / 2 < (window.insertionSort r).length := by
    rw [List.length_insertionSort]
    omega
  exact ⟨hi, List.getD_eq_getElem _ _ hi⟩

variable [Std.Total r] [IsTrans α r]

theorem countBelow_lowerMedian (h : window ≠ []) :
    countBelow r (lowerMedian r window d) window ≤ (window.length - 1) / 2 := by
  obtain ⟨hi, hmed⟩ := lowerMedian_eq_getElem (r := r) (d := d) h
  rw [hmed, ← countBelow_perm (List.perm_insertionSort r window)]
  exact countBelow_getElem_le (List.pairwise_insertionSort r window) hi

theorem rel_lowerMedian (h : window ≠ [])
    (hcount : countBelow r m window ≤ (window.length - 1) / 2) : r m (lowerMedian r window d) := by
  obtain ⟨hi, hmed⟩ := lowerMedian_eq_getElem (r := r) (d := d) h
  rw [hmed]
  rw [← countBelow_perm (List.perm_insertionSort r window)] at hcount
  exact rel_getElem_of_countBelow_le (List.pairwise_insertionSort r window) hi hcount

/-- **The median never goes back.**  A push of a sample that is at least the median, into a window
that holds at most `size` samples. -/
theorem lowerMedian_push {size : Nat} {a : α} (h : window ≠ []) (hsize : window.length ≤ size)
    (ha : r (lowerMedian r window d) a) :
    r (lowerMedian r window d) (lowerMedian r ((a :: window).take size) d) := by
  have hlen : window.length ≤ ((a :: window).take size).length := by
    rw [List.length_take, List.length_cons]
    omega
  have hpos := List.length_pos_iff.mpr h
  refine rel_lowerMedian (List.length_pos_iff.mp (by omega)) ?_
  calc countBelow r (lowerMedian r window d) ((a :: window).take size)
      ≤ countBelow r (lowerMedian r window d) (a :: window) :=
        countBelow_le_of_sublist (List.take_sublist size _)
    _ = countBelow r (lowerMedian r window d) window := countBelow_cons_of_rel ha
    _ ≤ (window.length - 1) / 2 := countBelow_lowerMedian h
    _ ≤ (((a :: window).take size).length - 1) / 2 := by omega

end Rubin.Lib
