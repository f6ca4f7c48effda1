/-
# Searching a sorted list

A loop that looks for a target in a list that is sorted by a strict order: it halves the number of
candidates and keeps the last one that is not above the target (`narrow`).  On a sorted list it
finds exactly the members (`narrow_finds_iff`); what it finds is a member on any list.

The loop only sees a predicate on indices.  What makes it right is that the predicate is monotone
on the range it looks at, and that is all that is used of the list.
-/
import Mathlib.Order.Defs.Unbundled

namespace Rubin.Lib

/-! ## 1. The two loops -/

/-- `size` candidates are left from index `base` on; `above` says that a candidate is too big. -/
def narrow (above : Nat → Bool) : (fuel base size : Nat) → Nat
  | 0, base, _ => base
  | fuel + 1, base, size =>
    if size ≤ 1 then base
    else narrow above fuel (if above (base + size / 2) then base else base + size / 2)
      (size - size / 2)

/-- `f` does not become false again below `stop`. -/
def MonotoneBelow (f : Nat → Bool) (stop : Nat) : Prop :=
  ∀ i j, i ≤ j → j < stop → f i = true → f j = true

theorem narrow_spec {above : Nat → Bool} {stop : Nat} (hmono : MonotoneBelow above stop)
    {fuel : Nat} : ∀ {base size : Nat}, size ≤ fuel + 1 → 0 < size → base + size ≤ stop →
      base ≤ narrow above fuel base size ∧ narrow above fuel base size < base + size ∧
        (narrow above fuel base size = base ∨ above (narrow above fuel base size) = false) ∧
        ∀ i, narrow above fuel base size < i → i < base + size → above i = true := by
  induction fuel with
  | zero =>
    intro base size hfuel hpos _
    refine ⟨Nat.le_refl _, ?_, .inl rfl, ?_⟩
    · rw [narrow]
      omega
    · intro i hi hlt
      rw [narrow] at hi
      omega
  | succ fuel ih =>
    intro base size hfuel hpos hstop
    rw [narrow]
    by_cases hone : size ≤ 1
    · rw [if_pos hone]
      exact ⟨Nat.le_refl _, by omega, .inl rfl, fun i _ _ => by omega⟩
    · rw [if_neg hone]
      by_cases hmid : above (base + size / 2) = true
      · -- the upper half is too big as a whole
        rw [if_pos hmid]
        obtain ⟨h1, h2, h3, h4⟩ := @ih base (size - size / 2) (by omega) (by omega) (by omega)
        refine ⟨h1, by omega, h3, ?_⟩
        intro i hi hlt
        by_cases hlow : i < base + (size - size / 2)
        · exact h4 i hi hlow
        · exact hmono _ i (by omega) (by omega) hmid
      · rw [if_neg hmid]
        obtain ⟨h1, h2, h3, h4⟩ :=
          @ih (base + size / 2) (size - size / 2) (by omega) (by omega) (by omega)
        refine ⟨by omega, by omega, .inr ?_, fun i hi hlt => h4 i hi (by omega)⟩
        rcases h3 with h3 | h3
        · rw [h3]
          exact Bool.not_eq_true _ ▸ hmid
        · exact h3

/-! ## 2. Members of a sorted list -/

variable {α : Type} {lt : α → α → Prop} [IsStrictOrder α lt] {l : List α}

omit [IsStrictOrder α lt] in
theorem lt_of_sorted (hs : l.Pairwise lt) {i j : Nat} {a b : α} (hi : l[i]? = some a)
    (hj : l[j]? = some b) (hij : i < j) : lt a b := by
  obtain ⟨hi', rfl⟩ := List.getElem?_eq_some_iff.mp hi
  obtain ⟨hj', rfl⟩ := List.getElem?_eq_some_iff.mp hj
  exact List.pairwise_iff_getElem.mp hs i j hi' hj' hij

theorem narrow_finds_iff [DecidableEq α] (hs : l.Pairwise lt) {t : α} {above : Nat → Bool}
    (habove : ∀ i a, l[i]? = some a → (above i = true ↔ lt t a)) :
    (l[narrow above l.length 0 l.length]? == some t) = true ↔ t ∈ l := by
  rw [beq_iff_eq]
  refine ⟨List.mem_of_getElem?, fun hmem => ?_⟩
  obtain ⟨k, hk⟩ := List.mem_iff_getElem?.mp hmem
  have hlen : k < l.length := (List.getElem?_eq_some_iff.mp hk).1
  have hmono : MonotoneBelow above l.length := by
    intro i j hij hj hi
    have hjs : l[j]? = some (l[j]) := List.getElem?_eq_getElem hj
    have his : l[i]? = some (l[i]) := List.getElem?_eq_getElem (by omega)
    rcases Nat.lt_or_eq_of_le hij with hlt | rfl
    · exact (habove j _ hjs).mpr
        (IsTrans.trans _ _ _ ((habove i _ his).mp hi) (lt_of_sorted hs his hjs hlt))
    · exact hi
  obtain ⟨-, hr, hbase, hrest⟩ :=
    @narrow_spec above l.length hmono l.length 0 l.length (by omega) (by omega) (by omega)
  generalize narrow above l.length 0 l.length = r at *
  have hnot : above k = false := by
    cases ha : above k with
    | false => rfl
    | true => exact absurd ((habove k t hk).mp ha) (irrefl t)
  have hkr : k ≤ r := by
    refine Nat.not_lt.mp fun hlt => ?_
    rw [hrest k (by omega) (by omega)] at hnot
    cases hnot
  rcases Nat.lt_or_eq_of_le hkr with hlt | rfl
  · exfalso
    have hrs : l[r]? = some (l[r]) := List.getElem?_eq_getElem (by omega)
    have habv : above r = true := (habove r _ hrs).mpr (lt_of_sorted hs hk hrs hlt)
    rcases hbase with hbase | hbase
    · omega
    · rw [habv] at hbase
      cases hbase
  · exact hk

end Rubin.Lib
