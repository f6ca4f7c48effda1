/-
# Keeping the best

A bounded collection that is offered one thing after another and, once it is full, exchanges its
last member for a better one.  What it holds is then determined by what it has been offered: the
members with the smallest keys.  Neither the order of the offers nor their repetition matters.
-/
import Mathlib.Data.Finset.Card
import Mathlib.Order.Lattice

namespace Rubin.Lib

variable {α β : Type} [LinearOrder β] {key : α → β} {k : Nat} {offered kept kept' : Finset α}

/-- `kept` are the `k` members of `offered` with the smallest keys, or all of them. -/
structure Best (key : α → β) (k : Nat) (offered kept : Finset α) : Prop where
  subset : kept ⊆ offered
  card : kept.card = min k offered.card
  first : ∀ a ∈ kept, ∀ b ∈ offered, b ∉ kept → key a < key b

namespace Best

theorem unique (h : Best key k offered kept) (h' : Best key k offered kept') : kept = kept' := by
  have hcard : kept.card = kept'.card := h.card.trans h'.card.symm
  refine Finset.eq_of_subset_of_card_le (fun a ha => ?_) hcard.ge
  by_contra ha'
  obtain ⟨b, hb', hb⟩ : ∃ b ∈ kept', b ∉ kept := by
    by_contra hnone
    have hsub : kept' ⊆ kept := fun b hb => by_contra fun hnb => hnone ⟨b, hb, hnb⟩
    rw [Finset.eq_of_subset_of_card_le hsub hcard.le] at ha'
    exact ha' ha
  have h1 := h.first a ha b (h'.subset hb') hb
  have h2 := h'.first b hb' a (h.subset ha) ha'
  exact lt_asymm h1 h2

theorem empty (key : α → β) (k : Nat) : Best key k ∅ ∅ :=
  ⟨Finset.Subset.refl _, (Nat.min_zero k).symm, nofun⟩

variable [DecidableEq α] {a w : α}

theorem again (h : Best key k offered kept) (ha : a ∈ kept) : Best key k (insert a offered) kept := by
  rwa [Finset.insert_eq_of_mem (h.subset ha)]

theorem room (h : Best key k offered kept) (hlt : kept.card < k) :
    Best key k (insert a offered) (insert a kept) := by
  have hcard := h.card
  have hall : kept = offered := Finset.eq_of_subset_of_card_le h.subset (by omega)
  have hle := Finset.card_insert_le a offered
  subst hall
  exact ⟨Finset.Subset.refl _, by omega, fun _ _ b hb hnb => absurd hb hnb⟩

/-- `w` is the last of those that are kept. -/
def Last (key : α → β) (kept : Finset α) (w : α) : Prop :=
  w ∈ kept ∧ ∀ b ∈ kept, b ≠ w → key b < key w

omit [DecidableEq α] in
theorem Last.le (hw : Last key kept w) {b : α} (hb : b ∈ kept) : key b ≤ key w := by
  by_cases heq : b = w
  · rw [heq]
  · exact (hw.2 b hb heq).le

theorem replace (h : Best key k offered kept) (hfull : k ≤ kept.card) (hw : Last key kept w)
    (hnew : a ∉ kept) (hlt : key a < key w) :
    Best key k (insert a offered) (insert a (kept.erase w)) := by
  have hcard := h.card
  have hfresh : a ∉ offered := fun ha => lt_asymm hlt (h.first w hw.1 a ha hnew)
  have herase := Finset.card_erase_add_one hw.1
  refine ⟨?_, ?_, ?_⟩
  · exact Finset.insert_subset_insert a ((Finset.erase_subset _ _).trans h.subset)
  · rw [Finset.card_insert_of_notMem fun ha => hnew (Finset.mem_of_mem_erase ha),
      Finset.card_insert_of_notMem hfresh]
    omega
  · intro x hx b hb hnb
    rw [Finset.mem_insert, not_or, Finset.mem_erase, not_and] at hnb
    have hb := (Finset.mem_insert.mp hb).resolve_left hnb.1
    have hwb : b = w ∨ key w < key b := by
      by_cases heq : b = w
      · exact .inl heq
      · exact .inr (h.first w hw.1 b hb (hnb.2 heq))
    rcases Finset.mem_insert.mp hx with rfl | hx
    · rcases hwb with rfl | hwb
      · exact hlt
      · exact hlt.trans hwb
    · obtain ⟨hne, hkept⟩ := Finset.mem_erase.mp hx
      rcases hwb with rfl | hwb
      · exact hw.2 x hkept hne
      · exact (hw.2 x hkept hne).trans hwb

theorem refuse (h : Best key k offered kept) (hfull : k ≤ kept.card) (hw : Last key kept w)
    (hlt : key w < key a) : Best key k (insert a offered) kept := by
  have hcard := h.card
  have hle := Finset.card_le_card (Finset.subset_insert a offered)
  refine ⟨h.subset.trans (Finset.subset_insert _ _), by omega, ?_⟩
  intro x hx b hb hnb
  rcases Finset.mem_insert.mp hb with rfl | hb
  · exact (hw.le hx).trans_lt hlt
  · exact h.first x hx b hb hnb

end Best

end Rubin.Lib
