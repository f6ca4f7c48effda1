/-
# Longest paths in one pass

In a graph whose edges all go up a linear order, the longest path that ends in a node can be found
by one pass over the edges: raise the level of the target to one more than the level of the source.
The pass is right when the edges come sorted by their targets (`relaxAll_longestPaths`), because an
edge is then looked at after every edge into its source.  It is wrong in general: the level of a
source may still rise after it was used.
-/
import Mathlib.Order.Bounds.Basic
import Mathlib.Logic.Relation
import Mathlib.Order.Defs.LinearOrder
import Mathlib.Data.List.Induction

namespace Rubin.Lib

variable {ι : Type}

/-! ## 1. Paths and levels -/

/-- A path of that many edges ends in the node. -/
inductive PathTo (edge : ι → ι → Prop) : ι → Nat → Prop
  | start (j : ι) : PathTo edge j 0
  | step {i j : ι} {n : Nat} (path : PathTo edge i n) (last : edge i j) : PathTo edge j (n + 1)

/-- Every node is put at the length of the longest path that ends in it. -/
def LongestPaths (edge : ι → ι → Prop) (level : ι → Nat) : Prop :=
  ∀ j, IsGreatest {n | PathTo edge j n} (level j)

namespace LongestPaths

variable {edge : ι → ι → Prop} {level level' : ι → Nat}

theorem unique (h : LongestPaths edge level) (h' : LongestPaths edge level') : level = level' :=
  funext fun j => (h j).unique (h' j)

theorem edge_lt (h : LongestPaths edge level) {i j : ι} (he : edge i j) : level i < level j :=
  (h j).2 (PathTo.step (h i).1 he)

theorem transGen_lt (h : LongestPaths edge level) {i j : ι} (he : Relation.TransGen edge i j) :
    level i < level j := by
  induction he with
  | single he => exact h.edge_lt he
  | tail _ he ih => exact ih.trans (h.edge_lt he)

end LongestPaths

/-! ## 2. The pass -/

section pass

variable [LinearOrder ι]

def relax (level : ι → Nat) (e : ι × ι) : ι → Nat :=
  Function.update level e.2 (max (level e.2) (level e.1 + 1))

def relaxAll (edges : List (ι × ι)) : ι → Nat := edges.foldl relax fun _ => 0

theorem pathTo_concat {edges : List (ι × ι)} {e : ι × ι} (hup : ∀ d ∈ edges, d.1 < d.2)
    (hlast : ∀ d ∈ edges, d.2 ≤ e.2) (he : e.1 < e.2) {j : ι} {n : Nat} :
    PathTo (fun i j => (i, j) ∈ edges ++ [e]) j n ↔
      PathTo (fun i j => (i, j) ∈ edges) j n ∨
        j = e.2 ∧ ∃ m, n = m + 1 ∧ PathTo (fun i j => (i, j) ∈ edges) e.1 m := by
  constructor
  · intro path
    induction path with
    | start j => exact Or.inl (PathTo.start j)
    | step path last ih =>
      rename_i i j n
      rcases List.mem_append.mp last with hold | hnew
      · rcases ih with ih | ⟨rfl, -⟩
        · exact Or.inl (PathTo.step ih hold)
        · exact absurd (hup _ hold) (hlast _ hold).not_gt
      · have heq : e = (i, j) := (List.mem_singleton.mp hnew).symm
        subst heq
        rcases ih with ih | ⟨rfl, -⟩
        · exact Or.inr ⟨rfl, n, rfl, ih⟩
        · exact absurd he (lt_irrefl _)
  · have hmono : ∀ {j n}, PathTo (fun i j => (i, j) ∈ edges) j n →
        PathTo (fun i j => (i, j) ∈ edges ++ [e]) j n := by
      intro j n path
      induction path with
      | start j => exact PathTo.start j
      | step _ last ih => exact PathTo.step ih (List.mem_append_left _ last)
    rintro (path | ⟨rfl, m, rfl, path⟩)
    · exact hmono path
    · exact PathTo.step (hmono path) (List.mem_append_right _ (List.mem_singleton.mpr rfl))

/-- **One pass is enough** when the edges go up and come sorted by their targets. -/
theorem relaxAll_longestPaths {edges : List (ι × ι)} (hup : ∀ e ∈ edges, e.1 < e.2)
    (hsorted : edges.Pairwise fun d e => d.2 ≤ e.2) :
    LongestPaths (fun i j => (i, j) ∈ edges) (relaxAll edges) := by
  induction edges using List.reverseRecOn with
  | nil =>
    intro j
    refine ⟨PathTo.start j, ?_⟩
    rintro n path
    cases path with
    | start => exact le_rfl
    | step _ last => cases last
  | append_singleton edges e ih =>
    rw [List.forall_mem_append] at hup
    rw [List.pairwise_append] at hsorted
    have he := hup.2 e (List.mem_singleton.mpr rfl)
    have hlast : ∀ d ∈ edges, d.2 ≤ e.2 := fun d hd =>
      hsorted.2.2 d hd e (List.mem_singleton.mpr rfl)
    have ih := ih hup.1 hsorted.1
    have hstep : relaxAll (edges ++ [e]) = relax (relaxAll edges) e := by
      rw [relaxAll, List.foldl_append, List.foldl_cons, List.foldl_nil, relaxAll]
    intro j
    rw [hstep, relax]
    by_cases hj : j = e.2
    · subst hj
      rw [Function.update_self]
      constructor
      · rcases le_total (relaxAll edges e.2) (relaxAll edges e.1 + 1) with hle | hle
        · rw [max_eq_right hle]
          exact (pathTo_concat hup.1 hlast he).mpr (Or.inr ⟨rfl, _, rfl, (ih e.1).1⟩)
        · rw [max_eq_left hle]
          exact (pathTo_concat hup.1 hlast he).mpr (Or.inl (ih e.2).1)
      · intro n path
        rcases (pathTo_concat hup.1 hlast he).mp path with hpath | ⟨-, m, rfl, hpath⟩
        · exact ((ih e.2).2 hpath).trans (le_max_left _ _)
        · exact (Nat.succ_le_succ ((ih e.1).2 hpath)).trans (le_max_right _ _)
    · rw [Function.update_of_ne hj]
      refine ⟨(pathTo_concat hup.1 hlast he).mpr (Or.inl (ih j).1), ?_⟩
      intro n path
      rcases (pathTo_concat hup.1 hlast he).mp path with path | ⟨rfl, -⟩
      · exact (ih j).2 path
      · exact absurd rfl hj

end pass

/-! ## 3. The pass over a table -/

/-- `relax` where the levels are kept in a list. -/
def relaxTable (levels : List Nat) (e : Nat × Nat) : List Nat :=
  levels.set e.2 (max (levels.getD e.2 0) (levels.getD e.1 0 + 1))

theorem length_foldl_relaxTable (edges : List (Nat × Nat)) (levels : List Nat) :
    (edges.foldl relaxTable levels).length = levels.length := by
  induction edges generalizing levels with
  | nil => rfl
  | cons e edges ih => rw [List.foldl_cons, ih, relaxTable, List.length_set]

theorem getD_foldl_relaxTable {edges : List (Nat × Nat)} : ∀ {levels : List Nat},
    (∀ e ∈ edges, e.2 < levels.length) →
      (fun j => (edges.foldl relaxTable levels).getD j 0) =
        edges.foldl relax (fun j => levels.getD j 0) := by
  induction edges with
  | nil => exact fun _ => rfl
  | cons e edges ih =>
    intro levels h
    rw [List.forall_mem_cons] at h
    have hstep : (fun j => (relaxTable levels e).getD j 0) =
        relax (fun j => levels.getD j 0) e := by
      funext j
      rw [relax, Function.update_apply, relaxTable, List.getD_eq_getElem?_getD,
        List.getElem?_set]
      by_cases hj : j = e.2
      · rw [if_pos hj.symm, if_pos h.1, if_pos hj]
        rfl
      · rw [if_neg (Ne.symm hj), if_neg hj, List.getD_eq_getElem?_getD]
    rw [List.foldl_cons, List.foldl_cons, ih, hstep]
    rw [relaxTable, List.length_set]
    exact h.2

theorem foldl_relaxTable_longestPaths {edges : List (Nat × Nat)} {n : Nat}
    (hrange : ∀ e ∈ edges, e.1 < e.2 ∧ e.2 < n)
    (hsorted : edges.Pairwise fun d e => d.2 ≤ e.2) :
    LongestPaths (fun i j => (i, j) ∈ edges)
      fun j => (edges.foldl relaxTable (List.replicate n 0)).getD j 0 := by
  have hzero : (fun j => (List.replicate n 0).getD j 0) = fun _ => 0 := by
    funext j
    rw [List.getD_eq_getElem?_getD, List.getElem?_replicate]
    split <;> rfl
  rw [getD_foldl_relaxTable fun e he => by rw [List.length_replicate]; exact (hrange e he).2, hzero]
  exact relaxAll_longestPaths (fun e he => (hrange e he).1) hsorted

end Rubin.Lib
