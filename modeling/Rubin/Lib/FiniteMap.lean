/-
# Bulk updates of a finite map

A transaction removes a list of keys from a map and puts a list of bindings in.  This file says
what such a bulk update looks like through `lookup`, and how it changes a weighted sum over the
map.  The sum never asks for a fresh key: a binding that overwrites another only loses its weight.
-/
import Mathlib.Algebra.Order.Ring.Nat
import Mathlib.Data.Finmap
import Mathlib.Algebra.BigOperators.Group.Finset.Basic

namespace Rubin.Lib

variable {κ β : Type} [DecidableEq κ]

/-! ## 1. Removing and inserting lists -/

def eraseAll (ks : List κ) (m : Finmap fun _ : κ => β) : Finmap fun _ : κ => β :=
  ks.foldl (fun m k => m.erase k) m

def insertAll (ps : List (κ × β)) (m : Finmap fun _ : κ => β) : Finmap fun _ : κ => β :=
  ps.foldl (fun m p => m.insert p.1 p.2) m

@[simp] theorem eraseAll_nil (m : Finmap fun _ : κ => β) : eraseAll [] m = m := rfl

@[simp] theorem eraseAll_cons (k : κ) (ks : List κ) (m : Finmap fun _ : κ => β) :
    eraseAll (k :: ks) m = eraseAll ks (m.erase k) := rfl

@[simp] theorem insertAll_nil (m : Finmap fun _ : κ => β) : insertAll [] m = m := rfl

@[simp] theorem insertAll_cons (p : κ × β) (ps : List (κ × β)) (m : Finmap fun _ : κ => β) :
    insertAll (p :: ps) m = insertAll ps (m.insert p.1 p.2) := rfl

theorem insertAll_append (ps qs : List (κ × β)) (m : Finmap fun _ : κ => β) :
    insertAll (ps ++ qs) m = insertAll qs (insertAll ps m) := List.foldl_append

theorem lookup_erase_eq (m : Finmap fun _ : κ => β) (k k' : κ) :
    (m.erase k).lookup k' = if k' = k then none else m.lookup k' := by
  split
  · rename_i h
    rw [h, Finmap.lookup_erase]
  · rename_i h
    exact Finmap.lookup_erase_ne h

theorem lookup_insert_eq (m : Finmap fun _ : κ => β) (k k' : κ) (v : β) :
    (m.insert k v).lookup k' = if k' = k then some v else m.lookup k' := by
  split
  · rename_i h
    rw [h, Finmap.lookup_insert]
  · rename_i h
    exact Finmap.lookup_insert_of_ne m h

/-- `m.entry(k).or_default().push(v)`, seen from any key. -/
theorem getD_lookup_push {γ : Type} (m : Finmap fun _ : κ => List γ) (k k' : κ) (v : γ) :
    ((m.insert k ((m.lookup k).getD [] ++ [v])).lookup k').getD [] =
      (m.lookup k').getD [] ++ if k = k' then [v] else [] := by
  rw [lookup_insert_eq]
  by_cases h : k' = k
  · rw [if_pos h, if_pos h.symm, h, Option.getD_some]
  · rw [if_neg h, if_neg (Ne.symm h), List.append_nil]

theorem lookup_eraseAll (ks : List κ) : ∀ (m : Finmap fun _ : κ => β) (k : κ),
    (eraseAll ks m).lookup k = if k ∈ ks then none else m.lookup k := by
  induction ks with
  | nil => simp
  | cons a ks ih =>
    intro m k
    rw [eraseAll_cons, ih, lookup_erase_eq]
    by_cases hk : k ∈ ks
    · simp [hk]
    · simp [hk]

theorem lookup_insertAll_of_notMem (ps : List (κ × β)) : ∀ (m : Finmap fun _ : κ => β) {k : κ},
    k ∉ ps.map Prod.fst → (insertAll ps m).lookup k = m.lookup k := by
  induction ps with
  | nil => intro m k _; rfl
  | cons p ps ih =>
    intro m k hk
    rw [List.map_cons, List.mem_cons, not_or] at hk
    rw [insertAll_cons, ih _ hk.2, lookup_insert_eq, if_neg hk.1]

theorem lookup_insertAll_of_mem (ps : List (κ × β)) : ∀ (m : Finmap fun _ : κ => β) {k : κ},
    k ∈ ps.map Prod.fst → ∃ v, (k, v) ∈ ps ∧ (insertAll ps m).lookup k = some v := by
  induction ps with
  | nil => intro m k hk; cases hk
  | cons p ps ih =>
    intro m k hk
    by_cases hps : k ∈ ps.map Prod.fst
    · obtain ⟨v, hv, hlook⟩ := ih (m.insert p.1 p.2) hps
      exact ⟨v, List.mem_cons_of_mem _ hv, hlook⟩
    · have hkp : k = p.1 := by
        rcases List.mem_cons.mp hk with h | h
        · exact h
        · exact absurd h hps
      refine ⟨p.2, ?_, ?_⟩
      · rw [hkp]
        exact List.mem_cons_self
      · rw [insertAll_cons, lookup_insertAll_of_notMem ps _ hps, lookup_insert_eq, if_pos hkp]

variable {m : Finmap fun _ : κ => β} {k : κ} {ps : List (κ × β)}

theorem lookup_erase_eq_some {k' : κ} {v : β} :
    (m.erase k).lookup k' = some v ↔ k' ≠ k ∧ m.lookup k' = some v := by
  rw [lookup_erase_eq]
  split <;> simp_all

theorem lookup_insert_eq_some {k' : κ} {v v' : β} : (m.insert k v).lookup k' = some v' ↔
    k' = k ∧ v = v' ∨ k' ≠ k ∧ m.lookup k' = some v' := by
  rw [lookup_insert_eq]
  split <;> simp_all

theorem lookup_eraseAll_none (h : m.lookup k = none) (ks : List κ) :
    (eraseAll ks m).lookup k = none := by
  rw [lookup_eraseAll]
  split
  · rfl
  · exact h

theorem erase_of_lookup_none (h : m.lookup k = none) : m.erase k = m := by
  refine Finmap.ext_lookup fun k' => ?_
  rw [lookup_erase_eq]
  split
  · rename_i heq
    rw [heq, h]
  · rfl

theorem eraseAll_snoc (ks : List κ) (k : κ) (m : Finmap fun _ : κ => β) :
    eraseAll (ks ++ [k]) m = (eraseAll ks m).erase k := by
  rw [eraseAll, List.foldl_append]
  rfl

theorem mem_keys_iff : k ∈ m.keys ↔ ∃ v, m.lookup k = some v := by
  rw [Finmap.mem_keys, Finmap.mem_iff]

theorem card_eraseAll (ks : List κ) (m : Finmap fun _ : κ => β) (hnodup : ks.Nodup)
    (hmem : ∀ k ∈ ks, ∃ v, m.lookup k = some v) :
    (eraseAll ks m).keys.card + ks.length = m.keys.card := by
  induction ks generalizing m with
  | nil => simp
  | cons k ks ih =>
    rw [List.nodup_cons] at hnodup
    have hk : k ∈ m.keys := mem_keys_iff.mpr (hmem k List.mem_cons_self)
    have hrest : ∀ k' ∈ ks, ∃ v, (m.erase k).lookup k' = some v := by
      intro k' hk'
      have hne : k' ≠ k := fun heq => hnodup.1 (heq ▸ hk')
      rw [lookup_erase_eq, if_neg hne]
      exact hmem k' (List.mem_cons_of_mem _ hk')
    have hcard := ih (m.erase k) hnodup.2 hrest
    have hpos := Finset.card_pos.mpr ⟨k, hk⟩
    rw [Finmap.keys_erase, Finset.card_erase_of_mem hk] at hcard
    rw [eraseAll_cons, List.length_cons]
    omega

theorem card_eraseAll_le (ks : List κ) :
    ∀ m : Finmap fun _ : κ => β, (eraseAll ks m).keys.card ≤ m.keys.card := by
  induction ks with
  | nil => exact fun _ => Nat.le_refl _
  | cons k ks ih =>
    intro m
    rw [eraseAll_cons]
    refine (ih (m.erase k)).trans ?_
    rw [Finmap.keys_erase]
    exact Finset.card_erase_le

theorem card_insert (hnew : m.lookup k = none) (v : β) :
    (m.insert k v).keys.card = m.keys.card + 1 := by
  have hkeys : (m.insert k v).keys = insert k m.keys := by
    ext k'
    rw [Finset.mem_insert, mem_keys_iff, mem_keys_iff, lookup_insert_eq]
    split
    · rename_i heq
      simp [heq]
    · rename_i hne
      simp [hne]
  rw [hkeys, Finset.card_insert_of_notMem]
  rw [Finmap.mem_keys, ← Finmap.lookup_eq_none]
  exact hnew

/-! ## 2. Weighted sums -/

/-- The weight bound at `k`, and nothing where `k` is not bound. -/
def weightAt (w : β → Nat) (m : Finmap fun _ : κ => β) (k : κ) : Nat :=
  match m.lookup k with
  | some v => w v
  | none => 0

def total (w : β → Nat) (m : Finmap fun _ : κ => β) : Nat := ∑ k ∈ m.keys, weightAt w m k

theorem weightAt_of_lookup {w : β → Nat} {v : β} (h : m.lookup k = some v) :
    weightAt w m k = w v := by
  simp [weightAt, h]

theorem total_empty (w : β → Nat) : total w (∅ : Finmap fun _ : κ => β) = 0 := by
  rw [total, Finmap.keys_empty, Finset.sum_empty]

theorem total_erase (w : β → Nat) (m : Finmap fun _ : κ => β) (k : κ) :
    total w (m.erase k) + weightAt w m k = total w m := by
  have hrest : ∑ k' ∈ m.keys.erase k, weightAt w (m.erase k) k' =
      ∑ k' ∈ m.keys.erase k, weightAt w m k' := by
    refine Finset.sum_congr rfl fun k' hk' => ?_
    rw [weightAt, weightAt, lookup_erase_eq, if_neg (Finset.ne_of_mem_erase hk')]
  rw [total, total, Finmap.keys_erase, hrest]
  by_cases hk : k ∈ m.keys
  · exact Finset.sum_erase_add _ _ hk
  · have hnone : m.lookup k = none := by
      rw [Finmap.lookup_eq_none, ← Finmap.mem_keys]
      exact hk
    rw [Finset.erase_eq_of_notMem hk, weightAt, hnone, Nat.add_zero]

theorem total_eraseAll_le (w : β → Nat) (ks : List κ) :
    ∀ m : Finmap fun _ : κ => β, total w (eraseAll ks m) ≤ total w m := by
  induction ks with
  | nil => exact fun _ => Nat.le_refl _
  | cons k ks ih =>
    intro m
    have hstep := total_erase w m k
    have hrest := ih (m.erase k)
    rw [eraseAll_cons]
    omega

theorem total_insert (w : β → Nat) (m : Finmap fun _ : κ => β) (k : κ) (v : β) :
    total w (m.insert k v) + weightAt w m k = total w m + w v := by
  have herase : (m.insert k v).erase k = m.erase k := by
    refine Finmap.ext_lookup fun k' => ?_
    rw [lookup_erase_eq, lookup_erase_eq, lookup_insert_eq]
    split <;> rfl
  have h1 := total_erase w (m.insert k v) k
  have h2 := total_erase w m k
  rw [herase, weightAt_of_lookup (Finmap.lookup_insert m)] at h1
  omega

theorem total_insertAll_le (w : β → Nat) (ps : List (κ × β)) : ∀ m : Finmap fun _ : κ => β,
    total w (insertAll ps m) ≤ total w m + (ps.map fun p => w p.2).sum := by
  induction ps with
  | nil => intro m; simp
  | cons p ps ih =>
    intro m
    have h1 := ih (m.insert p.1 p.2)
    have h2 := total_insert w m p.1 p.2
    rw [insertAll_cons, List.map_cons, List.sum_cons]
    omega

theorem total_eraseAll (w : β → Nat) (ks : List κ) : ∀ m : Finmap fun _ : κ => β, ks.Nodup →
    total w (eraseAll ks m) + (ks.map (weightAt w m)).sum = total w m := by
  induction ks with
  | nil => intro m _; simp
  | cons k ks ih =>
    intro m hnodup
    rw [List.nodup_cons] at hnodup
    have h1 := ih (m.erase k) hnodup.2
    have h2 := total_erase w m k
    have hsame : ks.map (weightAt w (m.erase k)) = ks.map (weightAt w m) := by
      refine List.map_congr_left fun k' hk' => ?_
      have hne : k' ≠ k := fun h => hnodup.1 (h ▸ hk')
      rw [weightAt, weightAt, lookup_erase_eq, if_neg hne]
    rw [hsame] at h1
    rw [eraseAll_cons, List.map_cons, List.sum_cons]
    omega

/-! ## 3. Loops over a map -/

/-- The order in which a loop visits the keys of a map; the map does not fix it. -/
structure VisitOrder (κ : Type) where
  order : Finset κ → List κ
  visits : ∀ keys k, k ∈ order keys ↔ k ∈ keys
  once : ∀ keys, (order keys).Nodup

theorem VisitOrder.length_order (ord : VisitOrder κ) (keys : Finset κ) :
    (ord.order keys).length = keys.card := by
  have h : (ord.order keys).toFinset = keys := by
    ext k
    rw [List.mem_toFinset, ord.visits]
  rw [← List.toFinset_card_of_nodup (ord.once keys), h]

theorem VisitOrder.sum_order (ord : VisitOrder κ) (w : β → Nat) (m : Finmap fun _ : κ => β) :
    ((ord.order m.keys).map (weightAt w m)).sum = total w m := by
  have h : (ord.order m.keys).toFinset = m.keys := by
    ext k
    rw [List.mem_toFinset, ord.visits]
  rw [total, ← h, List.sum_toFinset _ (ord.once m.keys), h]

/-- `map.iter().collect()`. -/
def VisitOrder.entries (ord : VisitOrder κ) (m : Finmap fun _ : κ => β) : List (κ × β) :=
  (ord.order m.keys).filterMap fun k => (m.lookup k).map (Prod.mk k)

theorem VisitOrder.mem_entries (ord : VisitOrder κ) {p : κ × β} :
    p ∈ ord.entries m ↔ m.lookup p.1 = some p.2 := by
  rw [VisitOrder.entries, List.mem_filterMap]
  constructor
  · rintro ⟨k, -, h⟩
    obtain ⟨v, hv, rfl⟩ := Option.map_eq_some_iff.mp h
    exact hv
  · intro h
    refine ⟨p.1, (ord.visits _ _).mpr (mem_keys_iff.mpr ⟨p.2, h⟩), ?_⟩
    rw [h, Option.map_some]

theorem VisitOrder.nodup_entries (ord : VisitOrder κ) (m : Finmap fun _ : κ => β) :
    (ord.entries m).Nodup := by
  refine List.Nodup.filterMap ?_ (ord.once m.keys)
  intro k k' p hk hk'
  obtain ⟨v, -, rfl⟩ := Option.map_eq_some_iff.mp hk
  obtain ⟨v', -, heq⟩ := Option.map_eq_some_iff.mp hk'
  exact (congrArg Prod.fst heq).symm

theorem VisitOrder.map_fst_entries (ord : VisitOrder κ) (m : Finmap fun _ : κ => β) :
    (ord.entries m).map Prod.fst = ord.order m.keys := by
  rw [VisitOrder.entries, List.map_filterMap]
  refine (List.filterMap_congr fun k hk => ?_).trans List.filterMap_some
  obtain ⟨v, hv⟩ := mem_keys_iff.mp ((ord.visits _ _).mp hk)
  rw [hv]
  rfl

end Rubin.Lib
