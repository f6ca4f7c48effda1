/-
# Tallies

A tally is a finite map from keys to counts in which an absent key counts as zero.  A program that
keeps tallies beside the things it counts charges them entry by entry (`charge`), and later writes
a projected count back, dropping the entry when the count is zero (`settle`).  Both are read here
through `count` alone, so a proof never asks which keys a loop visits in which order.
-/
import Mathlib.Algebra.BigOperators.Group.Finset.Piecewise
import Mathlib.Algebra.Order.BigOperators.Group.Finset
import Mathlib.Data.Finset.Sort
import Rubin.Lib.FiniteMap
import Rubin.Lib.Outcome

namespace Rubin.Lib

variable {κ β ι : Type} [DecidableEq κ]

/-! ## 1. Sweeps over a sorted map -/

/-- The keys in the order of their images. -/
def VisitOrder.ascendingBy {α : Type} [LinearOrder α] (f : κ → α) (hf : f.Injective) :
    VisitOrder κ :=
  let _ : LinearOrder κ := LinearOrder.lift' f hf
  ⟨fun keys => keys.sort (· ≤ ·), fun _ _ => Finset.mem_sort _, fun _ => Finset.sort_nodup _ _⟩

variable {α ε γ : Type} {m : Finmap fun _ : κ => Nat} {k : κ} {l : List α} {f : α → Except ε γ}

omit [DecidableEq κ] in
theorem VisitOrder.pairwise_ascendingBy [LinearOrder α] (f : κ → α) (hf : f.Injective)
    (keys : Finset κ) :
    ((VisitOrder.ascendingBy f hf).order keys).Pairwise fun a b => f a < f b := by
  let _ : LinearOrder κ := LinearOrder.lift' f hf
  exact (Finset.sortedLT_sort keys).pairwise

/-- `map.retain(|k, _| p(k))`. -/
def VisitOrder.retain (ord : VisitOrder κ) (p : κ → Bool) (m : Finmap fun _ : κ => β) :
    Finmap fun _ : κ => β :=
  eraseAll ((ord.order m.keys).filter fun k => !p k) m

/-- `for v in map.values_mut() { *v = f(v) }`. -/
def VisitOrder.updateAll (ord : VisitOrder κ) (f : β → β) (m : Finmap fun _ : κ => β) :
    Finmap fun _ : κ => β :=
  insertAll ((ord.entries m).map fun p => (p.1, f p.2)) m

namespace VisitOrder

variable (ord : VisitOrder κ)

theorem lookup_retain (p : κ → Bool) (m : Finmap fun _ : κ => β) (k : κ) :
    (ord.retain p m).lookup k = if p k then m.lookup k else none := by
  rw [retain, lookup_eraseAll]
  by_cases hp : p k
  · simp [hp]
  · rw [if_neg hp]
    split
    · rfl
    · rename_i hk
      simp only [List.mem_filter, ord.visits, hp, Bool.not_false, and_true] at hk
      rw [Finmap.lookup_eq_none, ← Finmap.mem_keys]
      exact hk

theorem lookup_updateAll (f : β → β) (m : Finmap fun _ : κ => β) (k : κ) :
    (ord.updateAll f m).lookup k = (m.lookup k).map f := by
  rw [updateAll]
  cases hk : m.lookup k with
  | none =>
    rw [lookup_insertAll_of_notMem, hk]
    · rfl
    · simp [ord.mem_entries, hk]
  | some v =>
    have hmem : k ∈ ((ord.entries m).map fun p => (p.1, f p.2)).map Prod.fst := by
      simp [ord.mem_entries, hk]
    obtain ⟨w, hw, hlook⟩ := lookup_insertAll_of_mem _ m hmem
    obtain ⟨p, hp, heq⟩ := List.mem_map.mp hw
    obtain ⟨rfl, rfl⟩ := Prod.mk.inj heq
    rw [ord.mem_entries, hk] at hp
    rw [hlook, ← Option.some.inj hp]
    rfl

theorem sum_entries (g : κ × β → Nat) (m : Finmap fun _ : κ => β) :
    ((ord.entries m).map g).sum =
      ∑ k ∈ m.keys, (m.lookup k).elim 0 fun v => g (k, v) := by
  have hkeys : (ord.order m.keys).toFinset = m.keys := by
    ext k
    rw [List.mem_toFinset, ord.visits]
  have hlist : ∀ ks : List κ,
      ((ks.filterMap fun k => (m.lookup k).map (Prod.mk k)).map g).sum =
        (ks.map fun k => (m.lookup k).elim 0 fun v => g (k, v)).sum := by
    intro ks
    induction ks with
    | nil => rfl
    | cons k ks ih =>
      cases hk : m.lookup k with
      | none => simpa [hk] using ih
      | some v => simpa [hk] using ih
  rw [entries, hlist, ← List.sum_toFinset _ (ord.once m.keys), hkeys]

theorem sum_values (w : β → Nat) (m : Finmap fun _ : κ => β) :
    ((ord.entries m).map fun p => w p.2).sum = total w m := by
  rw [sum_entries, total]
  refine Finset.sum_congr rfl fun k _ => ?_
  cases hk : m.lookup k with
  | none => simp [weightAt, hk]
  | some v => simp [weightAt, hk]

end VisitOrder

/-! ## 2. Sums that shrink -/

theorem elim_lookup (w : β → Nat) (m : Finmap fun _ : κ => β) (k : κ) :
    (m.lookup k).elim 0 w = weightAt w m k := by
  unfold weightAt
  cases m.lookup k <;> rfl

theorem weightAt_insert (w : β → Nat) (m : Finmap fun _ : κ => β) (k k' : κ) (v : β) :
    weightAt w (m.insert k v) k' = if k' = k then w v else weightAt w m k' := by
  unfold weightAt
  rw [lookup_insert_eq]
  by_cases h : k' = k
  · rw [if_pos h, if_pos h]
  · rw [if_neg h, if_neg h]

theorem weightAt_eraseAll (w : β → Nat) (m : Finmap fun _ : κ => β) (ks : List κ) (k : κ) :
    weightAt w (eraseAll ks m) k = if k ∈ ks then 0 else weightAt w m k := by
  unfold weightAt
  rw [lookup_eraseAll]
  by_cases h : k ∈ ks
  · rw [if_pos h, if_pos h]
  · rw [if_neg h, if_neg h]

theorem sum_weightAt_le_total (w : β → Nat) (m : Finmap fun _ : κ => β) {ks : List κ}
    (h : ks.Nodup) : (ks.map (weightAt w m)).sum ≤ total w m := by
  have := total_eraseAll w ks m h
  omega

theorem weightAt_le_total (w : β → Nat) (m : Finmap fun _ : κ => β) (k : κ) :
    weightAt w m k ≤ total w m := by
  have h := total_erase w m k
  omega

theorem total_mono {w w' : β → Nat} {m : Finmap fun _ : κ => β}
    (h : ∀ k v, m.lookup k = some v → w v ≤ w' v) : total w m ≤ total w' m := by
  refine Finset.sum_le_sum fun k _ => ?_
  unfold weightAt
  cases hk : m.lookup k with
  | none => exact Nat.le_refl _
  | some v => exact h k v hk

theorem total_eq_zero_iff {w : β → Nat} {m : Finmap fun _ : κ => β} :
    total w m = 0 ↔ ∀ k v, m.lookup k = some v → w v = 0 := by
  rw [total, Finset.sum_eq_zero_iff]
  constructor
  · intro h k v hk
    have := h k (mem_keys_iff.mpr ⟨v, hk⟩)
    rwa [weightAt_of_lookup hk] at this
  · intro h k _
    unfold weightAt
    cases hk : m.lookup k with
    | none => rfl
    | some v => exact h k v hk

/-! ## 3. Counts -/

/-- `map.get(&k).copied().unwrap_or(0)`. -/
def count (m : Finmap fun _ : κ => Nat) (k : κ) : Nat := (m.lookup k).getD 0

/-- No entry of the tally is zero. -/
def NoZero (m : Finmap fun _ : κ => Nat) : Prop := ∀ k, m.lookup k ≠ some 0

theorem count_of_lookup {n : Nat} (h : m.lookup k = some n) : count m k = n := by
  rw [count, h, Option.getD_some]

theorem count_of_lookup_none (h : m.lookup k = none) : count m k = 0 := by
  rw [count, h, Option.getD_none]

theorem count_empty (k : κ) : count (∅ : Finmap fun _ : κ => Nat) k = 0 :=
  count_of_lookup_none (Finmap.lookup_empty k)

theorem count_eq_weightAt (m : Finmap fun _ : κ => Nat) (k : κ) :
    count m k = weightAt (fun n => n) m k := by
  cases hk : m.lookup k with
  | none => simp [count, weightAt, hk]
  | some n => simp [count, weightAt, hk]

theorem count_le_total (m : Finmap fun _ : κ => Nat) (k : κ) :
    count m k ≤ total (fun n => n) m := by
  rw [count_eq_weightAt]
  exact weightAt_le_total _ m k

theorem noZero_empty : NoZero (∅ : Finmap fun _ : κ => Nat) := by
  intro k h
  rw [Finmap.lookup_empty] at h
  cases h

theorem NoZero.mem_keys_iff (h : NoZero m) : k ∈ m.keys ↔ 0 < count m k := by
  rw [Lib.mem_keys_iff]
  cases hk : m.lookup k with
  | none => simp [count_of_lookup_none hk]
  | some n =>
    rw [count_of_lookup hk]
    have hn : n ≠ 0 := by
      rintro rfl
      exact h k hk
    exact ⟨fun _ => Nat.pos_of_ne_zero hn, fun _ => ⟨n, rfl⟩⟩

theorem lookup_of_count_pos (h : 0 < count m k) : m.lookup k = some (count m k) := by
  cases hk : m.lookup k with
  | none =>
    rw [count_of_lookup_none hk] at h
    omega
  | some n => rw [count_of_lookup hk]

/-! ## 4. Charging -/

/-- `*map.entry(k).or_default() += n`. -/
def charge (m : Finmap fun _ : κ => Nat) (k : κ) (n : Nat) : Finmap fun _ : κ => Nat :=
  m.insert k (count m k + n)

theorem count_insert (m : Finmap fun _ : κ => Nat) (k k' : κ) (n : Nat) :
    count (m.insert k n) k' = if k' = k then n else count m k' := by
  rw [count, lookup_insert_eq]
  split <;> rfl

theorem count_charge (m : Finmap fun _ : κ => Nat) (k k' : κ) (n : Nat) :
    count (charge m k n) k' = count m k' + if k = k' then n else 0 := by
  rw [charge, count_insert]
  by_cases h : k' = k
  · simp [h]
  · simp [h, Ne.symm h]

theorem total_charge (m : Finmap fun _ : κ => Nat) (k : κ) (n : Nat) :
    total (fun n => n) (charge m k n) = total (fun n => n) m + n := by
  have h := total_insert (fun n => n) m k (count m k + n)
  rw [← count_eq_weightAt] at h
  rw [charge]
  omega

theorem noZero_charge {n : Nat} (h : NoZero m) (hn : 0 < n) : NoZero (charge m k n) := by
  intro k' hk'
  rw [charge, lookup_insert_eq] at hk'
  split at hk'
  · have := Option.some.inj hk'
    omega
  · exact h k' hk'

/-- A loop that charges every item of a list to the item's key. -/
def chargeAll (key : ι → κ) (amount : ι → Nat) (l : List ι) (m : Finmap fun _ : κ => Nat) :
    Finmap fun _ : κ => Nat :=
  l.foldl (fun m a => charge m (key a) (amount a)) m

section loop

variable (key : ι → κ) (amount : ι → Nat)

theorem chargeAll_cons (a : ι) (l : List ι) (m : Finmap fun _ : κ => Nat) :
    chargeAll key amount (a :: l) m =
      chargeAll key amount l (charge m (key a) (amount a)) := rfl

theorem count_chargeAll (l : List ι) : ∀ (m : Finmap fun _ : κ => Nat) (k : κ),
    count (chargeAll key amount l m) k =
      count m k + (l.map fun a => if key a = k then amount a else 0).sum := by
  induction l with
  | nil => exact fun _ _ => rfl
  | cons a l ih =>
    intro m k
    rw [chargeAll_cons, ih, count_charge, List.map_cons, List.sum_cons]
    omega

theorem total_chargeAll (l : List ι) : ∀ m : Finmap fun _ : κ => Nat,
    total (fun n => n) (chargeAll key amount l m) =
      total (fun n => n) m + (l.map amount).sum := by
  induction l with
  | nil => exact fun _ => rfl
  | cons a l ih =>
    intro m
    rw [chargeAll_cons, ih, total_charge, List.map_cons, List.sum_cons]
    omega

theorem noZero_chargeAll {l : List ι} (hpos : ∀ a ∈ l, 0 < amount a) :
    ∀ {m : Finmap fun _ : κ => Nat}, NoZero m → NoZero (chargeAll key amount l m) := by
  induction l with
  | nil => exact fun h => h
  | cons a l ih =>
    intro m h
    rw [List.forall_mem_cons] at hpos
    exact ih hpos.2 (noZero_charge h hpos.1)

end loop

theorem count_chargeAll_entries (ord : VisitOrder κ) (t m : Finmap fun _ : κ => Nat) (k : κ) :
    count (chargeAll Prod.fst Prod.snd (ord.entries t) m) k = count m k + count t k := by
  rw [count_chargeAll, ord.sum_entries]
  have hsum : (∑ k' ∈ t.keys, (t.lookup k').elim 0 fun n => if k' = k then n else 0) =
      ∑ k' ∈ t.keys, if k' = k then count t k else 0 := by
    refine Finset.sum_congr rfl fun k' _ => ?_
    by_cases hk : k' = k
    · rw [hk]
      cases ht : t.lookup k <;> simp [count, ht]
    · cases t.lookup k' <;> simp [hk]
  rw [hsum, Finset.sum_ite_eq']
  split
  · rfl
  · rename_i hk
    have hnone : t.lookup k = none := by
      rw [Finmap.lookup_eq_none, ← Finmap.mem_keys]
      exact hk
    rw [count_of_lookup_none hnone]

/-! ## 5. Writing projected counts back -/

/-- `if n == 0 { map.remove(&k) } else { map.insert(k, n) }`. -/
def settle (m : Finmap fun _ : κ => Nat) (p : κ × Nat) : Finmap fun _ : κ => Nat :=
  if p.2 = 0 then m.erase p.1 else m.insert p.1 p.2

def settleAll (ps : List (κ × Nat)) (m : Finmap fun _ : κ => Nat) : Finmap fun _ : κ => Nat :=
  ps.foldl settle m

theorem count_settle (m : Finmap fun _ : κ => Nat) (p : κ × Nat) (k : κ) :
    count (settle m p) k = if k = p.1 then p.2 else count m k := by
  unfold settle
  split
  · rename_i hp
    rw [count, lookup_erase_eq, hp]
    split <;> rfl
  · exact count_insert ..

theorem noZero_settle (h : NoZero m) (p : κ × Nat) : NoZero (settle m p) := by
  intro k hk
  unfold settle at hk
  split at hk
  · rw [lookup_erase_eq] at hk
    split at hk
    · cases hk
    · exact h k hk
  · rename_i hp
    rw [lookup_insert_eq] at hk
    split at hk
    · exact hp (Option.some.inj hk)
    · exact h k hk

theorem noZero_settleAll (ps : List (κ × Nat)) :
    ∀ {m : Finmap fun _ : κ => Nat}, NoZero m → NoZero (settleAll ps m) := by
  induction ps with
  | nil => exact fun h => h
  | cons p ps ih => exact fun h => ih (noZero_settle h p)

/-- **Settling.**  When the counts written are those of `f`, and `f` differs from the tally at the
listed keys only, the tally counts `f` afterwards. -/
theorem count_settleAll {f : κ → Nat} {ps : List (κ × Nat)} (hps : ∀ p ∈ ps, p.2 = f p.1) :
    ∀ {m : Finmap fun _ : κ => Nat}, (∀ k, k ∉ ps.map Prod.fst → count m k = f k) →
      ∀ k, count (settleAll ps m) k = f k := by
  induction ps with
  | nil => exact fun h k => h k (by simp)
  | cons p ps ih =>
    intro m h k
    rw [List.forall_mem_cons] at hps
    refine ih hps.2 ?_ k
    intro k' hk'
    rw [count_settle]
    split
    · rename_i heq
      rw [heq, hps.1]
    · rename_i hne
      refine h k' ?_
      rw [List.map_cons, List.mem_cons, not_or]
      exact ⟨hne, hk'⟩

/-! ## 6. Collecting loops -/

theorem mem_of_mapM {bs : List γ} (h : l.mapM f = .ok bs) :
    (∀ b ∈ bs, ∃ a ∈ l, f a = .ok b) ∧ ∀ a ∈ l, ∃ b ∈ bs, f a = .ok b := by
  induction l generalizing bs with
  | nil =>
    rw [List.mapM_nil, pure_eq_ok_iff] at h
    subst h
    exact ⟨nofun, nofun⟩
  | cons a l ih =>
    simp only [List.mapM_cons, bind_eq_ok, pure_eq_ok_iff] at h
    obtain ⟨b, hb, bs', hbs', rfl⟩ := h
    obtain ⟨h1, h2⟩ := ih hbs'
    simp only [List.mem_cons, forall_eq_or_imp, exists_eq_or_imp]
    refine ⟨⟨.inl hb, fun c hc => .inr (h1 c hc)⟩, .inl hb, fun c hc => .inr (h2 c hc)⟩

theorem exists_mapM_ok (h : ∀ a ∈ l, ∃ b, f a = .ok b) : ∃ bs, l.mapM f = .ok bs := by
  induction l with
  | nil => exact ⟨[], rfl⟩
  | cons a l ih =>
    rw [List.forall_mem_cons] at h
    obtain ⟨b, hb⟩ := h.1
    obtain ⟨bs, hbs⟩ := ih h.2
    exact ⟨b :: bs, by rw [List.mapM_cons, hb, ok_bind, hbs]; rfl⟩

theorem mapM_eq_error {e : ε} (h : l.mapM f = .error e) : ∃ a ∈ l, f a = .error e := by
  induction l with
  | nil => cases h
  | cons a l ih =>
    simp only [List.mapM_cons, bind_eq_error] at h
    rcases h with h | ⟨b, -, h | ⟨bs, -, h⟩⟩
    · exact ⟨a, List.mem_cons_self, h⟩
    · obtain ⟨a', ha', hfa'⟩ := ih h
      exact ⟨a', List.mem_cons_of_mem _ ha', hfa'⟩
    · cases h

theorem map_eq_of_mapM {β : Type} {f : α → Option β} {bs : List β} (h : l.mapM f = some bs) :
    l.map f = bs.map some := by
  induction l generalizing bs with
  | nil =>
    cases h
    rfl
  | cons a l ih =>
    rw [List.mapM_cons] at h
    simp only [Option.bind_eq_bind, Option.bind_eq_some_iff, Option.pure_def,
      Option.some.injEq] at h
    obtain ⟨b, hb, bs', hbs', rfl⟩ := h
    rw [List.map_cons, List.map_cons, hb, ih hbs']

theorem exists_mapM_some {β : Type} {f : α → Option β} (h : ∀ a ∈ l, ∃ b, f a = some b) :
    ∃ bs, l.mapM f = some bs := by
  induction l with
  | nil => exact ⟨[], rfl⟩
  | cons a l ih =>
    rw [List.forall_mem_cons] at h
    obtain ⟨b, hb⟩ := h.1
    obtain ⟨bs, hbs⟩ := ih h.2
    exact ⟨b :: bs, by simp [hb, hbs]⟩

end Rubin.Lib
