/-
# Maps collected from a stream of entries

A program reads a list of keyed entries and collects them into a map, noting which keys came
twice.  Which of two entries with one key it keeps differs from program to program; `Collects` is
what they all agree on, and where no key came twice it determines the map.
-/
import Mathlib.Data.List.Nodup
import Mathlib.Data.List.Sort
import Mathlib.Logic.Function.Basic
import Rubin.Lib.FiniteMap

namespace Rubin.Lib

variable {K V : Type}

/-! ## 1. Collected maps -/

/-- The map has the keys of the entries, and every value it holds is one of theirs. -/
structure Collects (table : K → Option V) (entries : List (K × V)) : Prop where
  keys : ∀ k, table k = none ↔ k ∉ entries.map Prod.fst
  values : ∀ k v, table k = some v → (k, v) ∈ entries

variable {k : K} {v : V} {entries : List (K × V)}

namespace Collects

variable {table : K → Option V} {entries : List (K × V)}

theorem nil : Collects (fun _ : K => (none : Option V)) [] :=
  ⟨fun _ => ⟨fun _ h => (nomatch h), fun _ => rfl⟩, fun _ _ h => nomatch h⟩

theorem exists_some (h : Collects table entries) (hk : k ∈ entries.map Prod.fst) :
    ∃ v, table k = some v := by
  cases hv : table k with
  | none => exact absurd hk ((h.keys k).mp hv)
  | some v => exact ⟨v, rfl⟩

theorem insert [DecidableEq K] (h : Collects table entries) (k : K) (v : V) :
    Collects (Function.update table k (some v)) (entries ++ [(k, v)]) where
  keys := by
    intro j
    rw [List.map_append, List.mem_append]
    by_cases hj : j = k
    · subst hj
      simp
    · rw [Function.update_of_ne hj, h.keys j]
      simp [hj]
  values := by
    intro j w hw
    rw [List.mem_append]
    by_cases hj : j = k
    · subst hj
      rw [Function.update_self] at hw
      cases hw
      exact Or.inr (List.mem_singleton.mpr rfl)
    · rw [Function.update_of_ne hj] at hw
      exact Or.inl (h.values j w hw)

theorem keep (h : Collects table entries) {w : V} (hk : table k = some w) (v : V) :
    Collects table (entries ++ [(k, v)]) where
  keys := by
    intro j
    rw [List.map_append, List.mem_append, h.keys j, not_or]
    refine ⟨fun hj => ⟨hj, ?_⟩, And.left⟩
    intro hmem
    have hjk : j = k := List.mem_singleton.mp hmem
    rw [← hjk, (h.keys j).mpr hj] at hk
    cases hk
  values := fun j w hw => List.mem_append.mpr (Or.inl (h.values j w hw))

theorem eq_some_iff (h : Collects table entries) (hn : (entries.map Prod.fst).Nodup) :
    table k = some v ↔ (k, v) ∈ entries := by
  refine ⟨h.values k v, fun hmem => ?_⟩
  obtain ⟨w, hw⟩ := h.exists_some (List.mem_map_of_mem hmem)
  have heq := List.inj_on_of_nodup_map hn (h.values k w hw) hmem rfl
  rw [hw, (Prod.mk.inj heq).2]

end Collects

theorem nodup_keys_concat :
    ((entries ++ [(k, v)]).map Prod.fst).Nodup ↔
      (entries.map Prod.fst).Nodup ∧ k ∉ entries.map Prod.fst := by
  rw [List.map_append, List.map_singleton, List.nodup_append]
  simp only [List.nodup_singleton, true_and, List.mem_singleton, forall_eq, ne_eq]
  exact and_congr_right fun _ => ⟨fun h hk => h k hk rfl, fun h j hj hjk => h (hjk ▸ hj)⟩

/-! ## 2. Association lists -/

section lists

variable [DecidableEq K]

variable {l l' : List (K × V)}

theorem lookup_eq_none_iff_keys : l.lookup k = none ↔ k ∉ l.map Prod.fst := by
  rw [List.lookup_eq_none_iff, List.mem_map]
  constructor
  · rintro h ⟨p, hp, rfl⟩
    simpa using h p hp
  · intro h p hp
    rw [bne_iff_ne]
    rintro rfl
    exact h ⟨p, hp, rfl⟩

theorem lookup_eq_some_iff_mem (hn : (l.map Prod.fst).Nodup) :
    l.lookup k = some v ↔ (k, v) ∈ l := by
  induction l with
  | nil => exact ⟨fun h => (nomatch h), fun h => (nomatch h)⟩
  | cons p l ih =>
    obtain ⟨j, w⟩ := p
    rw [List.map_cons, List.nodup_cons] at hn
    by_cases hj : k = j
    · subst hj
      rw [List.lookup_cons_self, List.mem_cons]
      constructor
      · intro h
        cases h
        exact Or.inl rfl
      · rintro (h | h)
        · rw [(Prod.mk.inj h).2]
        · exact absurd (List.mem_map_of_mem h) hn.1
    · rw [List.lookup_cons, beq_false_of_ne hj, ih hn.2, List.mem_cons]
      exact ⟨Or.inr, fun h => h.resolve_left fun h => hj (Prod.mk.inj h).1⟩

theorem lookup_perm (hn : (l.map Prod.fst).Nodup) (h : l.Perm l') (k : K) :
    l.lookup k = l'.lookup k := by
  have hn' : (l'.map Prod.fst).Nodup := (h.map Prod.fst).nodup_iff.mp hn
  ext v
  rw [lookup_eq_some_iff_mem hn, lookup_eq_some_iff_mem hn',
    h.mem_iff]

theorem lookup_cons_eq_update (k : K) (v : V) (l : List (K × V)) :
    (fun j => ((k, v) :: l).lookup j) = Function.update (fun j => l.lookup j) k (some v) := by
  funext j
  by_cases hj : j = k
  · subst hj
    rw [List.lookup_cons_self, Function.update_self]
  · rw [List.lookup_cons, beq_false_of_ne hj, Function.update_of_ne hj]

theorem lookup_filter_ne {j : K} (hj : j ≠ k) (l : List (K × V)) :
    (l.filter fun p => p.1 != k).lookup j = l.lookup j := by
  induction l with
  | nil => rfl
  | cons p l ih =>
    obtain ⟨i, w⟩ := p
    by_cases hi : i = k
    · subst hi
      rw [List.filter_cons_of_neg (by simp), List.lookup_cons, beq_false_of_ne hj, ih]
    · rw [List.filter_cons_of_pos (by simpa using hi), List.lookup_cons, List.lookup_cons, ih]

omit [DecidableEq K] in
theorem nodup_keys_filter (hn : (l.map Prod.fst).Nodup) (f : K × V → Bool) :
    ((l.filter f).map Prod.fst).Nodup :=
  hn.sublist ((List.filter_sublist).map Prod.fst)

theorem notMem_keys_filter_ne (k : K) (l : List (K × V)) :
    k ∉ (l.filter fun p => p.1 != k).map Prod.fst := by
  rw [List.mem_map]
  rintro ⟨p, hp, rfl⟩
  simpa using (List.mem_filter.mp hp).2

theorem nodup_keys_of_put (h : l'.Perm ((k, v) :: l.filter fun p => p.1 != k))
    (hn : (l.map Prod.fst).Nodup) : (l'.map Prod.fst).Nodup := by
  rw [(h.map Prod.fst).nodup_iff, List.map_cons, List.nodup_cons]
  exact ⟨notMem_keys_filter_ne k l, nodup_keys_filter hn _⟩

theorem lookup_of_put (h : l'.Perm ((k, v) :: l.filter fun p => p.1 != k))
    (hn : (l.map Prod.fst).Nodup) :
    (fun j => l'.lookup j) = Function.update (fun j => l.lookup j) k (some v) := by
  funext j
  rw [lookup_perm (nodup_keys_of_put h hn) h, List.lookup_cons]
  by_cases hj : j = k
  · rw [beq_iff_eq.mpr hj, hj, Function.update_self]
  · rw [beq_false_of_ne hj, Function.update_of_ne hj]
    exact lookup_filter_ne hj l

theorem Collects.perm (h : Collects (fun k => l.lookup k) entries) (hl : (l.map Prod.fst).Nodup)
    (hn : (entries.map Prod.fst).Nodup) : l.Perm entries := by
  refine (List.perm_ext_iff_of_nodup hl.of_map hn.of_map).mpr ?_
  rintro ⟨k, v⟩
  rw [← lookup_eq_some_iff_mem hl]
  exact h.eq_some_iff hn

/-! ## 3. Finite maps -/

theorem Collects.finmap_insert {m : Finmap fun _ : K => V}
    (h : Collects (fun k => m.lookup k) entries) (k : K) (v : V) :
    Collects (fun j => (m.insert k v).lookup j) (entries ++ [(k, v)]) := by
  have hput : (fun j => (m.insert k v).lookup j) =
      Function.update (fun j => m.lookup j) k (some v) := by
    funext j
    rw [lookup_insert_eq, Function.update_apply]
  rw [hput]
  exact h.insert k v

theorem Collects.card_keys {m : Finmap fun _ : K => V} (h : Collects (fun k => m.lookup k) entries)
    (hn : (entries.map Prod.fst).Nodup) : m.keys.card = entries.length := by
  have hkeys : m.keys = (entries.map Prod.fst).toFinset := by
    ext k
    rw [List.mem_toFinset, Finmap.mem_keys, ← not_iff_not, ← Finmap.lookup_eq_none]
    exact h.keys k
  rw [hkeys, List.toFinset_card_of_nodup hn, List.length_map]

end lists

end Rubin.Lib
