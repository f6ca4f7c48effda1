/-
# Ranked lists

A relation that is a strict total order on a set of values, though perhaps not beyond it, ranks any
list of distinct such values in exactly one way.  Such relations come from comparing keys
(`RanksOn.of_key`), where the key need only describe the relation on the set.

Two scans of a ranked list are described here.  The first drops a shortest prefix until the rest
fits (`cutLength`); the second takes, from the front, whatever still fits a budget (`greedy`).
-/
import Mathlib.Algebra.Order.Ring.Nat
import Mathlib.Data.List.Perm.Basic
import Mathlib.Data.List.Sort
import Mathlib.Data.Prod.Lex
import Mathlib.Data.Set.Function
import Mathlib.Order.Bounds.Basic
import Mathlib.Order.Compare

namespace Rubin.Lib

variable {α β : Type} {r : α → α → Prop} {s : Set α}

/-! ## 1. Orders on a set -/

/-- `r` is a strict total order on `s`. -/
structure RanksOn (r : α → α → Prop) (s : Set α) : Prop where
  irrefl : ∀ a ∈ s, ¬ r a a
  trans : ∀ a ∈ s, ∀ b ∈ s, ∀ c ∈ s, r a b → r b c → r a c
  total : ∀ a ∈ s, ∀ b ∈ s, a ≠ b → r a b ∨ r b a

namespace RanksOn

theorem of_key [LinearOrder β] {key : α → β} (hkey : ∀ a ∈ s, ∀ b ∈ s, r a b ↔ key a < key b)
    (hinj : s.InjOn key) : RanksOn r s where
  irrefl := by
    intro a ha haa
    exact lt_irrefl _ ((hkey a ha a ha).mp haa)
  trans := by
    intro a ha b hb c hc hab hbc
    exact (hkey a ha c hc).mpr (((hkey a ha b hb).mp hab).trans ((hkey b hb c hc).mp hbc))
  total := by
    intro a ha b hb hne
    rcases lt_or_gt_of_ne fun heq => hne (hinj ha hb heq) with h | h
    · exact Or.inl ((hkey a ha b hb).mpr h)
    · exact Or.inr ((hkey b hb a ha).mpr h)

theorem asymm (h : RanksOn r s) {a b : α} (ha : a ∈ s) (hb : b ∈ s) (hab : r a b) : ¬ r b a :=
  fun hba => h.irrefl a ha (h.trans a ha b hb a ha hab hba)

end RanksOn

section keys

variable [LinearOrder α] [LinearOrder β]

theorem compare_toLex (a a' : α) (b b' : β) :
    compare (toLex (a, b)) (toLex (a', b')) = (compare a a').then (compare b b') := by
  rcases lt_trichotomy a a' with h | h | h
  · rw [compare_lt_iff_lt.mpr h, compare_lt_iff_lt.mpr (Prod.Lex.toLex_lt_toLex.mpr (Or.inl h))]
    rfl
  · subst h
    rw [compare_eq_iff_eq.mpr rfl, Ordering.eq_then]
    rcases lt_trichotomy b b' with h | h | h
    · rw [compare_lt_iff_lt.mpr h, compare_lt_iff_lt]
      exact Prod.Lex.toLex_lt_toLex.mpr (Or.inr ⟨rfl, h⟩)
    · rw [compare_eq_iff_eq.mpr h, compare_eq_iff_eq.mpr (by rw [h])]
    · rw [compare_gt_iff_gt.mpr h, compare_gt_iff_gt]
      exact Prod.Lex.toLex_lt_toLex.mpr (Or.inr ⟨rfl, h⟩)
  · rw [compare_gt_iff_gt.mpr h, compare_gt_iff_gt.mpr (Prod.Lex.toLex_lt_toLex.mpr (Or.inl h))]
    rfl

theorem compare_toDual (a b : α) :
    compare (OrderDual.toDual a) (OrderDual.toDual b) = compare b a := by
  rcases lt_trichotomy a b with h | h | h
  · rw [compare_gt_iff_gt.mpr h, compare_gt_iff_gt]
    exact OrderDual.toDual_lt_toDual.mpr h
  · rw [compare_eq_iff_eq.mpr h.symm, compare_eq_iff_eq, h]
  · rw [compare_lt_iff_lt.mpr h, compare_lt_iff_lt]
    exact OrderDual.toDual_lt_toDual.mpr h

end keys

/-! ## 2. The ranked list -/

/-- `ranked` holds the members of `l`, each before those it ranks before. -/
def Ranked (r : α → α → Prop) (l ranked : List α) : Prop :=
  ranked.Perm l ∧ ranked.Pairwise r

namespace RanksOn

theorem ranked_unique (h : RanksOn r s) {l a b : List α} (hl : ∀ x ∈ l, x ∈ s)
    (ha : Ranked r l a) (hb : Ranked r l b) : a = b := by
  refine (ha.1.trans hb.1.symm).eq_of_pairwise ?_ ha.2 hb.2
  intro x y hx hy hxy hyx
  exact absurd hyx (h.asymm (hl x (ha.1.mem_iff.mp hx)) (hl y (hb.1.mem_iff.mp hy)) hxy)

theorem pairwise_orderedInsert (h : RanksOn r s) {le : α → α → Prop} [DecidableRel le]
    (hle : ∀ a ∈ s, ∀ b ∈ s, a ≠ b → (le a b ↔ r a b)) {a : α} {l : List α} (ha : a ∈ s)
    (hl : ∀ x ∈ l, x ∈ s) (hnew : a ∉ l) (hsorted : l.Pairwise r) :
    (l.orderedInsert le a).Pairwise r := by
  induction l with
  | nil => exact List.pairwise_singleton r a
  | cons b l ih =>
    rw [List.forall_mem_cons] at hl
    rw [List.mem_cons, not_or] at hnew
    rw [List.pairwise_cons] at hsorted
    rw [List.orderedInsert_cons]
    split
    · rename_i hab
      have hrab := (hle a ha b hl.1 hnew.1).mp hab
      rw [List.pairwise_cons]
      refine ⟨?_, List.pairwise_cons.mpr hsorted⟩
      intro x hx
      rcases List.mem_cons.mp hx with rfl | hx
      · exact hrab
      · exact h.trans a ha b hl.1 x (hl.2 x hx) hrab (hsorted.1 x hx)
    · rename_i hab
      have hrba : r b a := by
        refine (h.total a ha b hl.1 hnew.1).resolve_left ?_
        exact fun hr => hab ((hle a ha b hl.1 hnew.1).mpr hr)
      rw [List.pairwise_cons]
      refine ⟨?_, ih hl.2 hnew.2 hsorted.2⟩
      intro x hx
      rcases List.mem_cons.mp ((List.perm_orderedInsert le a l).mem_iff.mp hx) with rfl | hx
      · exact hrba
      · exact hsorted.1 x hx

theorem ranked_insertionSort (h : RanksOn r s) {le : α → α → Prop} [DecidableRel le]
    (hle : ∀ a ∈ s, ∀ b ∈ s, a ≠ b → (le a b ↔ r a b)) {l : List α} (hl : ∀ x ∈ l, x ∈ s)
    (hnodup : l.Nodup) : Ranked r l (l.insertionSort le) := by
  refine ⟨List.perm_insertionSort le l, ?_⟩
  induction l with
  | nil => exact List.Pairwise.nil
  | cons a l ih =>
    rw [List.forall_mem_cons] at hl
    rw [List.nodup_cons] at hnodup
    rw [List.insertionSort_cons]
    refine h.pairwise_orderedInsert hle hl.1 ?_ ?_ (ih hl.2 hnodup.2)
    · intro x hx
      exact hl.2 x ((List.perm_insertionSort le l).mem_iff.mp hx)
    · exact fun hmem => hnodup.1 ((List.perm_insertionSort le l).mem_iff.mp hmem)

end RanksOn

theorem Ranked.head_of_least (h : RanksOn r s) {l ranked : List α} (hl : ∀ x ∈ l, x ∈ s)
    (hr : Ranked r l ranked) {i : Nat} {w : α} (hw : l[i]? = some w)
    (hleast : ∀ x ∈ l, x ≠ w → r w x) :
    ∃ rest, ranked = w :: rest ∧ Ranked r (l.eraseIdx i) rest := by
  have hmem : w ∈ l := List.mem_of_getElem? hw
  have hperm : l.Perm (w :: l.eraseIdx i) := by
    obtain ⟨hi, rfl⟩ := List.getElem?_eq_some_iff.mp hw
    exact (List.getElem_cons_eraseIdx_perm hi).symm
  cases hranked : ranked with
  | nil =>
    rw [hranked] at hr
    rw [hr.1.symm.eq_nil] at hmem
    cases hmem
  | cons x rest =>
    rw [hranked] at hr
    have hx : x ∈ l := hr.1.mem_iff.mp List.mem_cons_self
    have hxw : x = w := by
      by_contra hne
      have hmem' : w ∈ rest := by
        rcases List.mem_cons.mp (hr.1.mem_iff.mpr hmem) with heq | hin
        · exact absurd heq.symm hne
        · exact hin
      have hxw := (List.pairwise_cons.mp hr.2).1 w hmem'
      exact h.asymm (hl x hx) (hl w hmem) hxw (hleast x hx hne)
    subst hxw
    refine ⟨rest, rfl, ?_, (List.pairwise_cons.mp hr.2).2⟩
    exact List.Perm.cons_inv (hr.1.trans hperm)

/-! ## 3. The shortest prefix whose removal fits -/

/-- How many members have to go from the front until the rest fits. -/
def cutLength (fits : List α → Prop) [DecidablePred fits] : List α → Nat
  | [] => 0
  | a :: l => if fits (a :: l) then 0 else cutLength fits l + 1

theorem cutLength_isLeast {fits : List α → Prop} [DecidablePred fits] (hnil : fits []) :
    ∀ l : List α, IsLeast {k | fits (l.drop k)} (cutLength fits l)
  | [] => ⟨hnil, fun _ _ => Nat.zero_le _⟩
  | a :: l => by
    obtain ⟨hfits, hleast⟩ := cutLength_isLeast hnil l
    rw [cutLength]
    split
    · rename_i h
      exact ⟨h, fun _ _ => Nat.zero_le _⟩
    · rename_i h
      refine ⟨hfits, ?_⟩
      intro k hk
      cases k with
      | zero => exact absurd hk h
      | succ k => exact Nat.succ_le_succ (hleast hk)

/-! ## 4. Taking what fits -/

/-- From the front, whatever still fits the budget, up to a number of items. -/
def greedy (size : α → Nat) : (count budget : Nat) → List α → List α
  | _, _, [] => []
  | 0, _, _ :: _ => []
  | count + 1, budget, a :: l =>
    if size a ≤ budget then a :: greedy size count (budget - size a) l
    else greedy size (count + 1) budget l

theorem greedy_zero (size : α → Nat) (budget : Nat) (l : List α) : greedy size 0 budget l = [] := by
  cases l with
  | nil => rfl
  | cons a l => rfl

theorem greedy_of_large {size : α → Nat} {count budget : Nat} {l : List α}
    (h : ∀ a ∈ l, budget < size a) : greedy size count budget l = [] := by
  induction l with
  | nil => cases count <;> rfl
  | cons a l ih =>
    rw [List.forall_mem_cons] at h
    cases count with
    | zero => rfl
    | succ count =>
      rw [greedy, if_neg (not_le.mpr h.1)]
      exact ih h.2

theorem greedy_sublist (size : α → Nat) : ∀ (count budget : Nat) (l : List α),
    (greedy size count budget l).Sublist l := by
  intro count budget l
  induction l generalizing count budget with
  | nil => cases count <;> exact List.Sublist.refl _
  | cons a l ih =>
    cases count with
    | zero => exact List.nil_sublist _
    | succ count =>
      rw [greedy]
      split
      · exact (ih count (budget - size a)).cons_cons a
      · exact (ih (count + 1) budget).cons a

theorem length_greedy_le (size : α → Nat) : ∀ (count budget : Nat) (l : List α),
    (greedy size count budget l).length ≤ count := by
  intro count budget l
  induction l generalizing count budget with
  | nil => cases count <;> exact Nat.zero_le _
  | cons a l ih =>
    cases count with
    | zero => exact Nat.le_refl _
    | succ count =>
      rw [greedy]
      split
      · exact Nat.succ_le_succ (ih count (budget - size a))
      · exact ih (count + 1) budget

theorem sum_greedy_le (size : α → Nat) : ∀ (count budget : Nat) (l : List α),
    ((greedy size count budget l).map size).sum ≤ budget := by
  intro count budget l
  induction l generalizing count budget with
  | nil => cases count <;> exact Nat.zero_le _
  | cons a l ih =>
    cases count with
    | zero => exact Nat.zero_le _
    | succ count =>
      rw [greedy]
      split
      · rename_i hfits
        have hrest := ih count (budget - size a)
        rw [List.map_cons, List.sum_cons]
        omega
      · exact ih (count + 1) budget

/-- **Who is left out.**  A member that was not taken came when the number was used up, or did not
fit what the members before it had left of the budget. -/
theorem greedy_left_out (size : α → Nat) {a : α} {post : List α} :
    ∀ {before : List α} {count budget : Nat},
      a ∉ greedy size count budget (before ++ a :: post) →
        (greedy size count budget before).length = count ∨
          budget < ((greedy size count budget before).map size).sum + size a := by
  intro before
  induction before with
  | nil =>
    intro count budget hout
    cases count with
    | zero => exact Or.inl rfl
    | succ count =>
      rw [List.nil_append, greedy] at hout
      split at hout
      · exact absurd List.mem_cons_self hout
      · rename_i hlarge
        refine Or.inr ?_
        rw [greedy, List.map_nil, List.sum_nil]
        omega
  | cons b before ih =>
    intro count budget hout
    cases count with
    | zero => exact Or.inl rfl
    | succ count =>
      rw [List.cons_append, greedy] at hout
      rw [greedy]
      split
      · rename_i hfits
        rw [if_pos hfits] at hout
        rcases ih fun hmem => hout (List.mem_cons_of_mem _ hmem) with h | h
        · exact Or.inl (by rw [List.length_cons, h])
        · refine Or.inr ?_
          rw [List.map_cons, List.sum_cons]
          omega
      · rename_i hlarge
        rw [if_neg hlarge] at hout
        exact ih hout

end Rubin.Lib
