/-
# Exclusive claims with a reverse index

A party that wants resources takes out a claim on them; a claim is stored under its token, and a
second map, the index, answers for a resource which claim holds it.  `Indexed` says that the index
is the reverse of the claims.  An index is then a function of the claims (`Indexed.unique`), no
resource is held twice, and taking a claim out and dropping it again leaves nothing behind.
-/
import Rubin.Lib.FiniteMap

namespace Rubin.Lib

variable {τ γ ρ δ : Type} [DecidableEq τ] [DecidableEq ρ]

/-- The index holds a row for exactly the resources that some claim holds. -/
def Indexed (held : γ → List ρ) (row : τ → γ → δ) (claims : Finmap fun _ : τ => γ)
    (index : Finmap fun _ : ρ => δ) : Prop :=
  ∀ r d, index.lookup r = some d ↔ ∃ t c, claims.lookup t = some c ∧ r ∈ held c ∧ d = row t c

namespace Indexed

variable {held : γ → List ρ} {row : τ → γ → δ} {claims : Finmap fun _ : τ => γ}
  {index index' : Finmap fun _ : ρ => δ}

theorem empty : Indexed held row (∅ : Finmap fun _ : τ => γ) ∅ := by
  intro r d
  simp

theorem unique (h : Indexed held row claims index) (h' : Indexed held row claims index') :
    index = index' := by
  refine Finmap.ext_lookup fun r => ?_
  refine Option.ext fun d => ?_
  rw [h r d, h' r d]

variable {t : τ} {c : γ} {r : ρ}

theorem lookup (h : Indexed held row claims index) (hc : claims.lookup t = some c) (hr : r ∈ held c) :
    index.lookup r = some (row t c) :=
  (h r _).mpr ⟨t, c, hc, hr, rfl⟩

/-- **Exclusiveness.**  A row names its token, so two claims on one resource are one claim. -/
theorem exclusive (h : Indexed held row claims index)
    (hrow : ∀ {t t' c c'}, row t c = row t' c' → t = t') {t' : τ} {c' : γ}
    (hc : claims.lookup t = some c) (hr : r ∈ held c) (hc' : claims.lookup t' = some c')
    (hr' : r ∈ held c') : t = t' := by
  have h1 := h.lookup hc hr
  rw [h.lookup hc' hr'] at h1
  exact (hrow (Option.some.inj h1)).symm

theorem free (h : Indexed held row claims index) (hr : index.lookup r = none)
    (hc : claims.lookup t = some c) : r ∉ held c := by
  intro hmem
  rw [h.lookup hc hmem] at hr
  cases hr

theorem claim (h : Indexed held row claims index) (ht : claims.lookup t = none)
    (hfree : ∀ r ∈ held c, index.lookup r = none) :
    Indexed held row (claims.insert t c)
      (insertAll ((held c).map fun r => (r, row t c)) index) := by
  have hkeys : ((held c).map fun r => (r, row t c)).map Prod.fst = held c := by
    rw [List.map_map]
    exact List.map_id _
  intro r d
  constructor
  · intro hd
    by_cases hr : r ∈ held c
    · obtain ⟨d', hmem, hlook⟩ := lookup_insertAll_of_mem
        ((held c).map fun r => (r, row t c)) index (hkeys.symm ▸ hr)
      rw [hlook] at hd
      obtain ⟨r', -, heq⟩ := List.mem_map.mp hmem
      cases heq
      exact ⟨t, c, Finmap.lookup_insert _, hr, (Option.some.inj hd).symm⟩
    · rw [lookup_insertAll_of_notMem _ _ (hkeys.symm ▸ hr)] at hd
      obtain ⟨t', c', hc', hr', rfl⟩ := (h r d).mp hd
      have hne : t' ≠ t := by
        rintro rfl
        rw [ht] at hc'
        cases hc'
      exact ⟨t', c', by rw [lookup_insert_eq, if_neg hne, hc'], hr', rfl⟩
  · rintro ⟨t', c', hc', hr', rfl⟩
    rw [lookup_insert_eq] at hc'
    split at hc'
    · rename_i heq
      cases hc'
      obtain ⟨d', hmem, hlook⟩ := lookup_insertAll_of_mem
        ((held c).map fun r => (r, row t c)) index (hkeys.symm ▸ hr')
      obtain ⟨r', -, heq'⟩ := List.mem_map.mp hmem
      cases heq'
      rw [hlook, heq]
    · have hnot : r ∉ held c := fun hr => h.free (hfree r hr) hc' hr'
      rw [lookup_insertAll_of_notMem _ _ (hkeys.symm ▸ hnot)]
      exact h.lookup hc' hr'

theorem drop (h : Indexed held row claims index)
    (hrow : ∀ {t t' c c'}, row t c = row t' c' → t = t') (hc : claims.lookup t = some c) :
    Indexed held row (claims.erase t) (eraseAll (held c) index) := by
  intro r d
  rw [lookup_eraseAll]
  constructor
  · intro hd
    split at hd
    · cases hd
    · rename_i hr
      obtain ⟨t', c', hc', hr', rfl⟩ := (h r d).mp hd
      have hne : t' ≠ t := by
        rintro rfl
        rw [hc] at hc'
        exact hr (Option.some.inj hc' ▸ hr')
      exact ⟨t', c', by rw [lookup_erase_eq, if_neg hne, hc'], hr', rfl⟩
  · rintro ⟨t', c', hc', hr', rfl⟩
    rw [lookup_erase_eq] at hc'
    split at hc'
    · cases hc'
    · rename_i hne
      have hnot : r ∉ held c := fun hr => hne (h.exclusive hrow hc' hr' hc hr)
      rw [if_neg hnot]
      exact h.lookup hc' hr'

/-- A claim is rewritten in a way that shows neither in its resources nor in their rows. -/
theorem rewrite (h : Indexed held row claims index) {c' : γ} (hc : claims.lookup t = some c)
    (hheld : held c' = held c) (hrow : row t c' = row t c) :
    Indexed held row (claims.insert t c') index := by
  intro r d
  rw [h r d]
  constructor
  · rintro ⟨t₁, c₁, hc₁, hr, rfl⟩
    by_cases ht : t₁ = t
    · subst ht
      cases Option.some.inj (hc.symm.trans hc₁)
      exact ⟨t₁, c', Finmap.lookup_insert _, hheld ▸ hr, hrow.symm⟩
    · exact ⟨t₁, c₁, by rw [lookup_insert_eq, if_neg ht, hc₁], hr, rfl⟩
  · rintro ⟨t₁, c₁, hc₁, hr, rfl⟩
    rw [lookup_insert_eq] at hc₁
    split at hc₁
    · rename_i ht
      cases hc₁
      exact ⟨t, c, hc, hheld ▸ hr, by rw [ht, hrow]⟩
    · exact ⟨t₁, c₁, hc₁, hr, rfl⟩

end Indexed

end Rubin.Lib
