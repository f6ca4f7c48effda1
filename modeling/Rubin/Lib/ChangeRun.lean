/-
# Runs of map changes

A run applies changes one after another; what else a step carries (a height, an author) is left
open.  Two things are asked of it.  Every step takes out distinct keys that are there at that
moment, which is a condition on each step (`EachStep`); and no key is put in twice or was there at
the start (`FreshRun`).  Then a key is taken out at most once over the whole run (`takenOut_nodup`)
and the map at the end is the map at the start without what was taken out and with what was put in
and left (`after_eq`).

Freshness against the start matters as much as freshness inside the run: a key that was there, is
taken out, put in again and taken out again violates neither condition on its steps.
-/
import Rubin.Lib.UndoLog
import Rubin.Lib.KeyedTable

namespace Rubin.Lib

variable {κ β σ : Type} (change : σ → Change κ β)

/-! ## 1. What a run takes out and puts in -/

def takenOut (steps : List σ) : List κ := steps.flatMap fun s => (change s).spends

def putIn (steps : List σ) : List (κ × β) := steps.flatMap fun s => (change s).creates

structure FreshRun (m : Finmap fun _ : κ => β) (steps : List σ) : Prop where
  nodup : ((putIn change steps).map Prod.fst).Nodup
  absent : ∀ k ∈ (putIn change steps).map Prod.fst, k ∉ m

variable {change} {m : Finmap fun _ : κ => β}

theorem takenOut_cons (s : σ) (steps : List σ) :
    takenOut change (s :: steps) = (change s).spends ++ takenOut change steps := rfl

theorem putIn_cons (s : σ) (steps : List σ) :
    putIn change (s :: steps) = (change s).creates ++ putIn change steps := rfl

theorem keys_putIn_cons (s : σ) (steps : List σ) :
    (putIn change (s :: steps)).map Prod.fst =
      (change s).keys ++ (putIn change steps).map Prod.fst := by
  rw [putIn_cons, List.map_append]
  rfl

variable {k : κ} {s : σ} {steps : List σ} {v : β}

namespace FreshRun

variable {s : σ} {steps : List σ}

theorem keys_nodup (h : FreshRun change m (s :: steps)) : (change s).keys.Nodup := by
  have hn := h.nodup
  rw [keys_putIn_cons, List.nodup_append] at hn
  exact hn.1

theorem keys_absent (h : FreshRun change m (s :: steps)) (hk : k ∈ (change s).keys) : k ∉ m := by
  refine h.absent k ?_
  rw [keys_putIn_cons]
  exact List.mem_append_left _ hk

theorem notMem_later (h : FreshRun change m (s :: steps)) (hk : k ∈ (change s).keys ∨ k ∈ m) :
    k ∉ (putIn change steps).map Prod.fst := by
  intro hlater
  have hn := h.nodup
  rw [keys_putIn_cons, List.nodup_append] at hn
  rcases hk with hk | hk
  · exact hn.2.2 k hk k hlater rfl
  · refine h.absent k ?_ hk
    rw [keys_putIn_cons]
    exact List.mem_append_right _ hlater

theorem take {more : List σ} (h : FreshRun change m (steps ++ more)) :
    FreshRun change m steps := by
  have hkeys : (putIn change (steps ++ more)).map Prod.fst =
      (putIn change steps).map Prod.fst ++ (putIn change more).map Prod.fst := by
    rw [putIn, List.flatMap_append, List.map_append]
    rfl
  refine ⟨?_, ?_⟩
  · have hn := h.nodup
    rw [hkeys, List.nodup_append] at hn
    exact hn.1
  · intro k hk
    refine h.absent k ?_
    rw [hkeys]
    exact List.mem_append_left _ hk

end FreshRun

/-! ## 2. Steps -/

variable [DecidableEq κ]

variable (change) in
def after (steps : List σ) (m : Finmap fun _ : κ => β) : Finmap fun _ : κ => β :=
  steps.foldl (fun m s => (change s).apply m) m

variable (change) in
/-- `ok` holds of every step, at the map it starts from. -/
def EachStep (ok : (Finmap fun _ : κ => β) → σ → Prop) (m : Finmap fun _ : κ => β)
    (steps : List σ) : Prop :=
  ∀ pre s post, steps = pre ++ s :: post → ok (after change pre m) s

variable {ok : (Finmap fun _ : κ => β) → σ → Prop}

theorem after_append (pre post : List σ) :
    after change (pre ++ post) m = after change post (after change pre m) := List.foldl_append

theorem EachStep.nil : EachStep change ok m [] := by
  intro pre s post h
  cases pre <;> cases h

theorem EachStep.cons (hs : ok m s) (hrest : EachStep change ok ((change s).apply m) steps) :
    EachStep change ok m (s :: steps) := by
  intro pre t post h
  cases pre with
  | nil =>
    rw [List.nil_append, List.cons.injEq] at h
    exact h.1 ▸ hs
  | cons u pre =>
    rw [List.cons_append, List.cons.injEq] at h
    rw [← h.1]
    exact hrest pre t post h.2

theorem EachStep.head (h : EachStep change ok m (s :: steps)) : ok m s :=
  h [] s steps rfl

theorem EachStep.tail (h : EachStep change ok m (s :: steps)) :
    EachStep change ok ((change s).apply m) steps := by
  intro pre t post ht
  exact h (s :: pre) t post (by rw [ht, List.cons_append])

theorem EachStep.append : ∀ {m : Finmap fun _ : κ => β} {more : List σ},
    EachStep change ok m steps → EachStep change ok (after change steps m) more →
      EachStep change ok m (steps ++ more) := by
  induction steps with
  | nil =>
    intro m more _ h
    exact h
  | cons s steps ih =>
    intro m more h1 h2
    exact .cons h1.head (ih h1.tail h2)

theorem EachStep.take {more : List σ} (h : EachStep change ok m (steps ++ more)) :
    EachStep change ok m steps := by
  intro pre s post hs
  exact h pre s (post ++ more) (by rw [hs, List.append_assoc, List.cons_append])

theorem EachStep.imp {ok' : (Finmap fun _ : κ => β) → σ → Prop} (h : EachStep change ok m steps)
    (himp : ∀ m s, ok m s → ok' m s) : EachStep change ok' m steps :=
  fun pre s post hs => himp _ _ (h pre s post hs)

/-- A step takes out distinct keys that are there. -/
def TakesPresent (change : σ → Change κ β) (m : Finmap fun _ : κ => β) (s : σ) : Prop :=
  (change s).spends.Nodup ∧ ∀ k ∈ (change s).spends, k ∈ m

theorem FreshRun.tail (h : FreshRun change m (s :: steps)) :
    FreshRun change ((change s).apply m) steps := by
  refine ⟨?_, ?_⟩
  · have hn := h.nodup
    rw [keys_putIn_cons, List.nodup_append] at hn
    exact hn.2.1
  · intro k hk hmem
    rcases Change.mem_apply.mp hmem with hkeys | ⟨hm, -⟩
    · exact h.notMem_later (.inl hkeys) hk
    · exact h.notMem_later (.inr hm) hk

/-! ## 3. Once -/

theorem notMem_takenOut : ∀ {m : Finmap fun _ : κ => β},
    EachStep change (TakesPresent change) m steps → k ∉ m →
      k ∉ (putIn change steps).map Prod.fst → k ∉ takenOut change steps := by
  induction steps with
  | nil =>
    intro m _ _ _ h
    cases h
  | cons s steps ih =>
    intro m h hm hput htaken
    rw [keys_putIn_cons, List.mem_append, not_or] at hput
    rw [takenOut_cons] at htaken
    rcases List.mem_append.mp htaken with hs | hrest
    · exact hm (h.head.2 k hs)
    · refine ih h.tail ?_ hput.2 hrest
      intro hmem
      rcases Change.mem_apply.mp hmem with hkeys | ⟨hk, -⟩
      · exact hput.1 hkeys
      · exact hm hk

theorem notMem_takenOut_of_spent (h : EachStep change (TakesPresent change) m (s :: steps))
    (hf : FreshRun change m (s :: steps)) (hk : k ∈ (change s).spends) :
    k ∉ takenOut change steps := by
  have hm := h.head.2 k hk
  refine notMem_takenOut h.tail ?_ (hf.notMem_later (.inr hm))
  intro hmem
  rcases Change.mem_apply.mp hmem with hkeys | ⟨-, hns⟩
  · exact hf.keys_absent hkeys hm
  · exact hns hk

/-- **Every key is taken out at most once.** -/
theorem takenOut_nodup : ∀ {m : Finmap fun _ : κ => β},
    EachStep change (TakesPresent change) m steps → FreshRun change m steps →
      (takenOut change steps).Nodup := by
  induction steps with
  | nil =>
    intro m _ _
    exact List.nodup_nil
  | cons s steps ih =>
    intro m h hf
    rw [takenOut_cons, List.nodup_append]
    refine ⟨h.head.1, ih h.tail hf.tail, ?_⟩
    intro k hk j hj hkj
    exact notMem_takenOut_of_spent h hf hk (hkj ▸ hj)

/-! ## 4. The map at the end -/

theorem Change.lookup_apply {c : Change κ β} (hn : c.keys.Nodup) (m : Finmap fun _ : κ => β)
    (k : κ) : (c.apply m).lookup k =
      (c.creates.lookup k).or (if k ∈ c.spends then none else m.lookup k) := by
  by_cases hk : k ∈ c.keys
  · obtain ⟨v, hmem, hv⟩ := lookup_insertAll_of_mem c.creates (eraseAll c.spends m) hk
    rw [(lookup_eq_some_iff_mem hn).mpr hmem]
    exact hv
  · rw [Change.lookup_apply_of_notMem hk, lookup_eq_none_iff_keys.mpr hk, Option.none_or]

theorem lookup_after (k : κ) : ∀ {m : Finmap fun _ : κ => β},
    EachStep change (TakesPresent change) m steps → FreshRun change m steps →
      (after change steps m).lookup k =
        if k ∈ takenOut change steps then none
        else ((putIn change steps).lookup k).or (m.lookup k) := by
  induction steps with
  | nil =>
    intro m _ _
    rfl
  | cons s steps ih =>
    intro m h hf
    have hstep : (after change (s :: steps) m).lookup k =
        (after change steps ((change s).apply m)).lookup k := rfl
    rw [hstep, ih h.tail hf.tail, Change.lookup_apply hf.keys_nodup, takenOut_cons,
      putIn_cons, List.lookup_append]
    by_cases hs : k ∈ (change s).spends
    · -- it was there, so neither this step nor a later one puts it in
      have hm := h.head.2 k hs
      have hc : k ∉ (change s).creates.map Prod.fst := fun hc => hf.keys_absent hc hm
      rw [if_neg (notMem_takenOut_of_spent h hf hs), if_pos hs,
        if_pos (List.mem_append_left _ hs),
        lookup_eq_none_iff_keys.mpr (hf.notMem_later (.inr hm)), lookup_eq_none_iff_keys.mpr hc]
      rfl
    · have hiff : k ∈ (change s).spends ++ takenOut change steps ↔ k ∈ takenOut change steps := by
        rw [List.mem_append]
        exact ⟨fun h => h.resolve_left hs, .inr⟩
      simp only [hiff, if_neg hs]
      by_cases hk : k ∈ (change s).keys
      · rw [lookup_eq_none_iff_keys.mpr (hf.notMem_later (.inl hk)), Option.none_or, Option.or_none]
      · rw [lookup_eq_none_iff_keys.mpr hk, Option.none_or, Option.none_or]

/-- **The map at the end of a run.** -/
theorem after_eq (h : EachStep change (TakesPresent change) m steps) (hf : FreshRun change m steps)
    :
    after change steps m =
      insertAll ((putIn change steps).filter fun p => p.1 ∉ takenOut change steps)
        (eraseAll (takenOut change steps) m) := by
  refine Finmap.ext_lookup fun k => ?_
  have hkeys : k ∈ ((putIn change steps).filter fun p => p.1 ∉ takenOut change steps).map Prod.fst ↔
      k ∈ (putIn change steps).map Prod.fst ∧ k ∉ takenOut change steps := by
    simp only [List.mem_map, List.mem_filter, decide_eq_true_eq]
    constructor
    · rintro ⟨p, ⟨hp, hnt⟩, rfl⟩
      exact ⟨⟨p, hp, rfl⟩, hnt⟩
    · rintro ⟨⟨p, hp, rfl⟩, hnt⟩
      exact ⟨p, ⟨hp, hnt⟩, rfl⟩
  rw [lookup_after k h hf]
  by_cases hk : k ∈ (putIn change steps).map Prod.fst ∧ k ∉ takenOut change steps
  · obtain ⟨v, hmem, hv⟩ := lookup_insertAll_of_mem _ (eraseAll (takenOut change steps) m)
      (hkeys.mpr hk)
    rw [hv, if_neg hk.2, (lookup_eq_some_iff_mem hf.nodup).mpr (List.mem_filter.mp hmem).1]
    rfl
  · rw [lookup_insertAll_of_notMem _ _ (hkeys.not.mpr hk), lookup_eraseAll]
    by_cases ht : k ∈ takenOut change steps
    · rw [if_pos ht, if_pos ht]
    · have hnone : (putIn change steps).lookup k = none :=
        lookup_eq_none_iff_keys.mpr fun hp => hk ⟨hp, ht⟩
      rw [if_neg ht, if_neg ht, hnone, Option.none_or]

theorem lookup_of_putIn {pre post : List σ} {w : β}
    (h : EachStep change (TakesPresent change) m (pre ++ post))
    (hf : FreshRun change m (pre ++ post)) (hput : (k, v) ∈ putIn change (pre ++ post))
    (hw : (after change pre m).lookup k = some w) : w = v := by
  rw [lookup_after k h.take hf.take] at hw
  have hm : m.lookup k = none :=
    Finmap.lookup_eq_none.mpr (hf.absent k (List.mem_map_of_mem hput))
  by_cases ht : k ∈ takenOut change pre
  · rw [if_pos ht] at hw
    cases hw
  · rw [if_neg ht, hm, Option.or_none, lookup_eq_some_iff_mem hf.take.nodup] at hw
    have hmem : (k, w) ∈ putIn change (pre ++ post) := by
      rw [putIn, List.flatMap_append]
      exact List.mem_append_left _ hw
    exact (Prod.mk.inj (List.inj_on_of_nodup_map hf.nodup hmem hput rfl)).2

theorem lookup_of_initial {pre post : List σ} {w : β}
    (h : EachStep change (TakesPresent change) m (pre ++ post))
    (hf : FreshRun change m (pre ++ post)) (hv : m.lookup k = some v)
    (hw : (after change pre m).lookup k = some w) : w = v := by
  rw [lookup_after k h.take hf.take] at hw
  have hnone : (putIn change pre).lookup k = none := by
    rw [lookup_eq_none_iff_keys]
    intro hkey
    exact hf.take.absent k hkey (Finmap.mem_of_lookup_eq_some hv)
  by_cases ht : k ∈ takenOut change pre
  · rw [if_pos ht] at hw
    cases hw
  · rw [if_neg ht, hnone, Option.none_or, hv] at hw
    exact (Option.some.inj hw).symm

/-! ## 5. What holds of every binding -/

theorem Change.lookup_apply_cases {c : Change κ β} {m : Finmap fun _ : κ => β}
    (h : (c.apply m).lookup k = some v) : (k, v) ∈ c.creates ∨ m.lookup k = some v := by
  by_cases hk : k ∈ c.keys
  · obtain ⟨w, hmem, hw⟩ := lookup_insertAll_of_mem c.creates (eraseAll c.spends m) hk
    have hvw : v = w := Option.some.inj (h.symm.trans hw)
    rw [hvw]
    exact .inl hmem
  · rw [Change.lookup_apply_of_notMem hk] at h
    split at h
    · cases h
    · exact .inr h

/-- What holds of every binding at the start, and of every binding a step creates while it holds of
those before it, holds of every binding at the end. -/
theorem forall_lookup_after {P : β → Prop} (hm : ∀ k v, m.lookup k = some v → P v)
    (hstep : ∀ pre s post, steps = pre ++ s :: post →
      (∀ k v, (after change pre m).lookup k = some v → P v) → ∀ p ∈ (change s).creates, P p.2) :
    ∀ k v, (after change steps m).lookup k = some v → P v := by
  induction steps using List.reverseRecOn with
  | nil => exact hm
  | append_singleton steps s ih =>
    have hbefore : ∀ k v, (after change steps m).lookup k = some v → P v := by
      refine ih fun pre t post hsplit => hstep pre t (post ++ [s]) ?_
      rw [hsplit, List.append_assoc, List.cons_append]
    intro k v hv
    rw [after_append] at hv
    rcases Change.lookup_apply_cases hv with hmem | hold
    · exact hstep steps s [] rfl hbefore _ hmem
    · exact hbefore k v hold

end Rubin.Lib
