/-
# Undoing a batch of map updates

A batch is a list of changes, each of which takes keys out of a map and puts fresh bindings in.  A
later change may take out what an earlier one of the same batch has put in.  The undo log records
only what was taken out of the map the batch started from; rewinding walks the batch backwards,
removes what each change put in, and restores what its log entry holds.

The point is what the map looks like halfway (`Batch.lookup_rewind`): a key the batch itself owns
shows what the whole batch has left of it, every other key shows the past.
-/
import Rubin.Lib.FiniteMap

namespace Rubin.Lib

variable {κ β : Type} [DecidableEq κ]

/-! ## 1. Changes and batches -/

structure Change (κ β : Type) where
  spends : List κ
  creates : List (κ × β)

def Change.keys (c : Change κ β) : List κ := c.creates.map Prod.fst

def Change.apply (c : Change κ β) (m : Finmap fun _ : κ => β) : Finmap fun _ : κ => β :=
  insertAll c.creates (eraseAll c.spends m)

/-- `Batch own m cs m'`: the changes `cs` lead from `m` to `m'`; each takes out distinct keys that
are there, and puts in distinct keys that are neither there nor among the keys `own` that the batch
has put in before. -/
inductive Batch : (own : List κ) → (Finmap fun _ : κ => β) → List (Change κ β) →
    (Finmap fun _ : κ => β) → Prop
  | nil (own : List κ) (m : Finmap fun _ : κ => β) : Batch own m [] m
  | cons {own : List κ} {m m' : Finmap fun _ : κ => β} {c : Change κ β}
      {cs : List (Change κ β)} (present : ∀ k ∈ c.spends, k ∈ m) (nodup : c.spends.Nodup)
      (fresh : ∀ k ∈ c.keys, k ∉ m ∧ k ∉ own) (keys_nodup : c.keys.Nodup)
      (rest : Batch (own ++ c.keys) (c.apply m) cs m') : Batch own m (c :: cs) m'

variable {c : Change κ β} {m m' : Finmap fun _ : κ => β} {k : κ} {own : List κ}
  {cs : List (Change κ β)}

theorem Change.lookup_apply_of_notMem (hk : k ∉ c.keys) :
    (c.apply m).lookup k = if k ∈ c.spends then none else m.lookup k := by
  rw [Change.apply, lookup_insertAll_of_notMem _ _ hk, lookup_eraseAll]

theorem Change.mem_apply_of_mem_keys (hk : k ∈ c.keys) : k ∈ c.apply m := by
  obtain ⟨v, -, hv⟩ := lookup_insertAll_of_mem c.creates (eraseAll c.spends m) hk
  exact Finmap.mem_of_lookup_eq_some hv

theorem mem_iff_lookup : k ∈ m ↔ m.lookup k ≠ none := by
  rw [ne_eq, Finmap.lookup_eq_none, not_not]

theorem Change.mem_apply : k ∈ c.apply m ↔ k ∈ c.keys ∨ (k ∈ m ∧ k ∉ c.spends) := by
  by_cases hk : k ∈ c.keys
  · exact ⟨fun _ => .inl hk, fun _ => Change.mem_apply_of_mem_keys hk⟩
  · rw [mem_iff_lookup, Change.lookup_apply_of_notMem hk, mem_iff_lookup]
    by_cases hs : k ∈ c.spends <;> simp [hk, hs]

/-! ## 2. Keys taken out by the batch that put them in -/

/-- The keys that are taken out after the batch has put them in. -/
def sameBatchSpends : (own : List κ) → List (Change κ β) → List κ
  | _, [] => []
  | own, c :: cs => c.spends.filter (· ∈ own) ++ sameBatchSpends (own ++ c.keys) cs

theorem mem_sameBatchSpends : ∀ {cs : List (Change κ β)} {own : List κ}, k ∈ own →
    ∀ c ∈ cs, k ∈ c.spends → k ∈ sameBatchSpends own cs
  | [], own, hk, c, hc, _ => by cases hc
  | d :: cs, own, hk, c, hc, hs => by
    rw [sameBatchSpends, List.mem_append]
    rcases List.mem_cons.mp hc with rfl | hc
    · exact .inl (List.mem_filter.mpr ⟨hs, decide_eq_true hk⟩)
    · exact .inr (mem_sameBatchSpends (List.mem_append_left _ hk) c hc hs)

theorem Batch.mem_or_spent (h : Batch own m cs m') (hk : k ∈ m) :
    k ∈ m' ∨ ∃ c ∈ cs, k ∈ c.spends := by
  induction h with
  | nil own m => exact .inl hk
  | @cons own m m' c cs _ _ _ _ _ ih =>
    by_cases hs : k ∈ c.spends
    · exact .inr ⟨c, List.mem_cons_self, hs⟩
    · rcases ih (Change.mem_apply.mpr (.inr ⟨hk, hs⟩)) with h | ⟨d, hd, hs⟩
      · exact .inl h
      · exact .inr ⟨d, List.mem_cons_of_mem _ hd, hs⟩

/-! ## 3. The log and the way back -/

/-- What a change takes out of the map the batch started from. -/
def Change.logged (own : List κ) (m : Finmap fun _ : κ => β) (c : Change κ β) : List (κ × β) :=
  (c.spends.filter (· ∉ own)).filterMap fun k => (m.lookup k).map fun v => (k, v)

def undoLog : (own : List κ) → (Finmap fun _ : κ => β) → List (Change κ β) → List (List (κ × β))
  | _, _, [] => []
  | own, m, c :: cs => c.logged own m :: undoLog (own ++ c.keys) (c.apply m) cs

def stepBack (p : Change κ β × List (κ × β)) (m : Finmap fun _ : κ => β) :
    Finmap fun _ : κ => β := insertAll p.2 (eraseAll p.1.keys m)

/-- The whole way back, last change first. -/
def rewind (ps : List (Change κ β × List (κ × β))) (m : Finmap fun _ : κ => β) :
    Finmap fun _ : κ => β := ps.foldr stepBack m

@[simp] theorem length_undoLog : ∀ (cs : List (Change κ β)) (own : List κ)
    (m : Finmap fun _ : κ => β), (undoLog own m cs).length = cs.length
  | [], _, _ => rfl
  | c :: cs, own, m => by rw [undoLog, List.length_cons, List.length_cons, length_undoLog cs]

theorem Change.mem_logged {v : β} :
    (k, v) ∈ c.logged own m ↔ k ∈ c.spends ∧ k ∉ own ∧ m.lookup k = some v := by
  simp only [Change.logged, List.mem_filterMap, List.mem_filter, decide_eq_true_eq,
    Option.map_eq_some_iff, Prod.mk.injEq]
  constructor
  · rintro ⟨a, ⟨hs, ho⟩, b, hb, rfl, rfl⟩
    exact ⟨hs, ho, hb⟩
  · rintro ⟨hs, ho, hv⟩
    exact ⟨k, ⟨hs, ho⟩, v, hv, rfl, rfl⟩

/-- Where everything a change takes out is there, the log holds exactly the keys the batch does not
own, in the change's order. -/
theorem Change.logged_map_fst (h : ∀ k ∈ c.spends, k ∈ m) :
    (c.logged own m).map Prod.fst = c.spends.filter (· ∉ own) := by
  rw [Change.logged, List.map_filterMap]
  have hsome : ∀ k ∈ c.spends.filter (· ∉ own),
      ((m.lookup k).map fun v => (k, v)).map Prod.fst = some k := by
    intro k hk
    obtain ⟨v, hv⟩ := Finmap.mem_iff.mp (h k (List.mem_of_mem_filter hk))
    rw [hv]
    rfl
  rw [List.filterMap_congr hsome, List.filterMap_some]

theorem rewind_undoLog_cons (own : List κ) (m m' : Finmap fun _ : κ => β) (c : Change κ β)
    (cs : List (Change κ β)) :
    rewind ((c :: cs).zip (undoLog own m (c :: cs))) m' =
      insertAll (c.logged own m) (eraseAll c.keys
        (rewind (cs.zip (undoLog (own ++ c.keys) (c.apply m) cs)) m')) := rfl

/-- **Halfway back.**  A key the batch owns shows what the whole batch has left of it; every other
key shows the map from which the changes started. -/
theorem Batch.lookup_rewind (h : Batch own m cs m') :
    ∀ k, (rewind (cs.zip (undoLog own m cs)) m').lookup k =
      if k ∈ own then m'.lookup k else m.lookup k := by
  induction h with
  | nil own m => intro k; simp [rewind]
  | @cons own m m' c cs present _ fresh _ _ ih =>
    intro k
    rw [rewind_undoLog_cons]
    by_cases hlog : k ∈ (c.logged own m).map Prod.fst
    · obtain ⟨v, hv, hlook⟩ := lookup_insertAll_of_mem (c.logged own m)
        (eraseAll c.keys (rewind (cs.zip (undoLog (own ++ c.keys) (c.apply m) cs)) m')) hlog
      obtain ⟨-, hown, hm⟩ := Change.mem_logged.mp hv
      rw [hlook, if_neg hown, hm]
    · rw [lookup_insertAll_of_notMem _ _ hlog, lookup_eraseAll]
      rw [Change.logged_map_fst present, List.mem_filter, decide_eq_true_eq, not_and,
        not_not] at hlog
      by_cases hkeys : k ∈ c.keys
      · obtain ⟨hm, hown⟩ := fresh k hkeys
        rw [if_pos hkeys, if_neg hown, Finmap.lookup_eq_none.mpr hm]
      · rw [if_neg hkeys, ih k]
        by_cases hown : k ∈ own
        · rw [if_pos (List.mem_append_left _ hown), if_pos hown]
        · have hown' : k ∉ own ++ c.keys := by simp [hown, hkeys]
          rw [if_neg hown', if_neg hown, Change.lookup_apply_of_notMem hkeys,
            if_neg fun hs => hown (hlog hs)]

/-- **The way back is the inverse.** -/
theorem Batch.rewind_eq (h : Batch [] m cs m') : rewind (cs.zip (undoLog [] m cs)) m' = m :=
  Finmap.ext_lookup fun k => by rw [h.lookup_rewind k, if_neg List.not_mem_nil]

end Rubin.Lib
