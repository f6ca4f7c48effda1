/-
# Maps of maps

A finite map whose values are finite maps, read cell by cell.  Such a table is often kept beside
running sums over all its cells; the sums are functions of the cells alone, so a row that is empty
and a row that is not there weigh the same.
-/
import Rubin.Lib.Tally

namespace Rubin.Lib

variable {κ ι β : Type} [DecidableEq κ] [DecidableEq ι]

/-- What stands in row `k` at place `i`. -/
def cell (m : Finmap fun _ : κ => Finmap fun _ : ι => β) (k : κ) (i : ι) : Option β :=
  (m.lookup k).bind fun row => row.lookup i

/-- `map.entry(k).or_default().insert(i, v)`. -/
def setCell (m : Finmap fun _ : κ => Finmap fun _ : ι => β) (k : κ) (i : ι) (v : β) :
    Finmap fun _ : κ => Finmap fun _ : ι => β :=
  m.insert k (((m.lookup k).getD ∅).insert i v)

def gridTotal (w : β → Nat) (m : Finmap fun _ : κ => Finmap fun _ : ι => β) : Nat :=
  total (total w) m

variable {m m' : Finmap fun _ : κ => Finmap fun _ : ι => β}

theorem cell_eq_some {k : κ} {i : ι} {v : β} :
    cell m k i = some v ↔ ∃ row, m.lookup k = some row ∧ row.lookup i = some v :=
  Option.bind_eq_some_iff

theorem cell_of_lookup {k : κ} {row : Finmap fun _ : ι => β} (h : m.lookup k = some row) (i : ι) :
    cell m k i = row.lookup i := by
  rw [cell, h, Option.bind_some]

theorem cell_of_lookup_none {k : κ} (h : m.lookup k = none) (i : ι) : cell m k i = none := by
  rw [cell, h, Option.bind_none]

theorem lookup_getD_empty (k : κ) (i : ι) : ((m.lookup k).getD ∅).lookup i = cell m k i := by
  cases h : m.lookup k with
  | none => rw [cell_of_lookup_none h, Option.getD_none, Finmap.lookup_empty]
  | some row => rw [cell_of_lookup h, Option.getD_some]

theorem cell_erase (k k' : κ) (i : ι) :
    cell (m.erase k) k' i = if k' = k then none else cell m k' i := by
  rw [cell, lookup_erase_eq]
  split
  · rfl
  · rfl

theorem cell_setCell (k k' : κ) (i i' : ι) (v : β) :
    cell (setCell m k i v) k' i' = if k' = k ∧ i' = i then some v else cell m k' i' := by
  rw [cell, setCell, lookup_insert_eq]
  by_cases hk : k' = k
  · rw [if_pos hk, Option.bind_some, lookup_insert_eq, lookup_getD_empty, hk]
    by_cases hi : i' = i
    · rw [if_pos hi, if_pos ⟨rfl, hi⟩]
    · rw [if_neg hi, if_neg fun h => hi h.2]
  · rw [if_neg hk, if_neg fun h => hk h.1, cell]

theorem total_eq_zero_of_lookup {w : β → Nat} {row : Finmap fun _ : ι => β}
    (h : ∀ i, row.lookup i = none) : total w row = 0 := by
  rw [total_eq_zero_iff]
  intro i v hi
  rw [h i] at hi
  cases hi

/-- **A new cell** adds its weight. -/
theorem gridTotal_setCell (w : β → Nat) {k : κ} {i : ι} (hnew : cell m k i = none) (v : β) :
    gridTotal w (setCell m k i v) = gridTotal w m + w v := by
  have houter := total_insert (total w) m k (((m.lookup k).getD ∅).insert i v)
  have hinner := total_insert w ((m.lookup k).getD ∅) i v
  have hplace : weightAt w ((m.lookup k).getD ∅) i = 0 := by
    rw [weightAt, lookup_getD_empty, hnew]
  have hrow : weightAt (total w) m k = total w ((m.lookup k).getD ∅) := by
    cases h : m.lookup k with
    | none => rw [weightAt, h, Option.getD_none, total_empty]
    | some row => rw [weightAt_of_lookup h, Option.getD_some]
  rw [gridTotal, gridTotal, setCell]
  omega

theorem total_le_of_weightAt_le {γ δ : Type} {w : γ → Nat} {w' : δ → Nat}
    {m : Finmap fun _ : κ => γ} {m' : Finmap fun _ : κ => δ}
    (h : ∀ k v, m.lookup k = some v → w v ≤ weightAt w' m' k) : total w m ≤ total w' m' := by
  calc total w m ≤ ∑ k ∈ m.keys, weightAt w' m' k := by
        refine Finset.sum_le_sum fun k _ => ?_
        cases hk : m.lookup k with
        | none =>
          rw [weightAt, hk]
          exact Nat.zero_le _
        | some v =>
          rw [weightAt_of_lookup hk]
          exact h k v hk
    _ ≤ total w' m' := by
        refine Finset.sum_le_sum_of_ne_zero fun k _ hne => ?_
        by_contra hk
        rw [Finmap.mem_keys, ← Finmap.lookup_eq_none] at hk
        exact hne (by rw [weightAt, hk])

/-- **Fewer cells** weigh less. -/
theorem gridTotal_mono (w : β → Nat)
    (h : ∀ k i v, cell m' k i = some v → cell m k i = some v) : gridTotal w m' ≤ gridTotal w m := by
  refine total_le_of_weightAt_le fun k row' hrow' => ?_
  cases hrow : m.lookup k with
  | none =>
    have hempty : ∀ i, row'.lookup i = none := by
      intro i
      cases hi : row'.lookup i with
      | none => rfl
      | some v =>
        have hcell := h k i v (cell_eq_some.mpr ⟨row', hrow', hi⟩)
        rw [cell_of_lookup_none hrow] at hcell
        cases hcell
    rw [total_eq_zero_of_lookup hempty]
    exact Nat.zero_le _
  | some row =>
    rw [weightAt_of_lookup hrow]
    refine total_le_of_weightAt_le fun i v hi => ?_
    have hcell := h k i v (cell_eq_some.mpr ⟨row', hrow', hi⟩)
    rw [cell_of_lookup hrow] at hcell
    rw [weightAt_of_lookup hcell]

/-- The sweep over all cells, row by row. -/
def VisitOrder.cells (outer : VisitOrder κ) (inner : VisitOrder ι)
    (m : Finmap fun _ : κ => Finmap fun _ : ι => β) : List β :=
  (outer.entries m).flatMap fun p => (inner.entries p.2).map Prod.snd

theorem VisitOrder.sum_cells (outer : VisitOrder κ) (inner : VisitOrder ι) (w : β → Nat)
    (m : Finmap fun _ : κ => Finmap fun _ : ι => β) :
    ((outer.cells inner m).map w).sum = gridTotal w m := by
  rw [gridTotal, ← outer.sum_values (total w) m, cells]
  induction outer.entries m with
  | nil => rfl
  | cons p l ih =>
    rw [List.flatMap_cons, List.map_append, List.sum_append, ih, List.map_cons, List.sum_cons,
      ← inner.sum_values w p.2, List.map_map]
    rfl

end Rubin.Lib
