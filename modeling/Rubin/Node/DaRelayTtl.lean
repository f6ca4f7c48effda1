/-
# Ageing in steps and at once

Blocks are connected one by one or in batches, so the relay is aged in steps of different sizes.
The counters after ageing come out of one projection over all records that expire together; this
file shows that the size of the steps does not matter.  The books carry the proof: two relays whose
books balance and that hold the same records are the same (`Inv.ext_sets`), so only the records are
compared.
-/
import Rubin.Node.DaRelayRuns

namespace Rubin.Node

open Rubin.Lib Rubin.Consensus

namespace DaRelayState

open DaRelaySetRecord

/-! ## 1. The records determine the relay -/

theorem tally_ext {κ : Type} [DecidableEq κ] {m m' : Finmap fun _ : κ => Nat} (h : NoZero m)
    (h' : NoZero m') (hcount : ∀ k, count m k = count m' k) : m = m' := by
  refine Finmap.ext_lookup fun k => ?_
  have hk := hcount k
  cases hm : m.lookup k with
  | none =>
    rw [count_of_lookup_none hm] at hk
    cases hm' : m'.lookup k with
    | none => rfl
    | some n =>
      rw [count_of_lookup hm'] at hk
      rw [← hk] at hm'
      exact absurd hm' (h' k)
  | some n =>
    rw [count_of_lookup hm] at hk
    have hpos : 0 < count m' k := by
      rw [← hk]
      refine Nat.pos_iff_ne_zero.mpr ?_
      rintro rfl
      exact h k hm
    rw [lookup_of_count_pos hpos, hk]

variable [Crypto] {V : Tx → Prop} {s s' : DaRelayState}

theorem Inv.ext_sets (hs : s.Inv V) (hs' : s'.Inv V) (hcaps : s.caps = s'.caps)
    (hclock : s.nextReceivedTime = s'.nextReceivedTime)
    (hsets : ∀ d, s.setsByDaId.lookup d = s'.setsByDaId.lookup d) : s = s' := by
  obtain ⟨caps, clock, orphan, peers, ids, overhead, pinned, sets⟩ := s
  obtain ⟨caps', clock', orphan', peers', ids', overhead', pinned', sets'⟩ := s'
  obtain ⟨b1, b2, b3, b4, b5, b6, b7⟩ := hs.balanced
  obtain ⟨b1', b2', b3', b4', b5', b6', b7'⟩ := hs'.balanced
  dsimp only at *
  have heq : sets = sets' := Finmap.ext_lookup hsets
  subst heq hcaps hclock
  rw [← b1'] at b1
  rw [← b4'] at b4
  rw [← b5'] at b5
  have hpeers : peers = peers' := tally_ext b6 b6' fun k => (b2 k).trans (b2' k).symm
  have hids : ids = ids' := tally_ext b7 b7' fun d => (b3 d).trans (b3' d).symm
  subst b1 b4 b5 hpeers hids
  rfl

/-! ## 2. Survivors of survivors -/

omit [Crypto] in
theorem survivor_bind (a b : Nat) (r : DaRelaySetRecord) :
    (survivor a r).bind (survivor b) = survivor (a + b) r := by
  unfold survivor
  by_cases hc : r.state = .completeSet
  · rw [if_pos hc, if_pos hc, Option.bind_some, if_pos hc]
  · rw [if_neg hc, if_neg hc]
    by_cases ha : a < r.ttlBlocksRemaining
    · rw [if_pos ha, Option.bind_some, aged, if_neg hc]
      by_cases hb : b < r.ttlBlocksRemaining - a
      · rw [if_pos hb, if_pos (by omega), aged, aged, Nat.sub_sub]
      · rw [if_neg hb, if_neg (by omega)]
    · rw [if_neg ha, if_neg (by omega)]
      rfl

omit [Crypto] in
theorem Advanced.expired_append {a b : Nat} {s₁ s₂ : DaRelayState} {ids₁ ids₂ ids : List Bytes32}
    (h₁ : Advanced a s ids₁ s₁) (h₂ : Advanced b s₁ ids₂ s₂) (h : Advanced (a + b) s ids s') :
    (ids₁ ++ ids₂).Perm ids := by
  -- a record expires in the second step when it has outlived the first
  have hsecond : ∀ d, d ∈ ids₂ ↔ ∃ r, s.setsByDaId.lookup d = some r ∧ r.state ≠ .completeSet ∧
      a < r.ttlBlocksRemaining ∧ r.ttlBlocksRemaining ≤ a + b := by
    intro d
    rw [h₂.expired, h₁.sets]
    constructor
    · rintro ⟨r₁, hr₁, hopen, httl⟩
      obtain ⟨r, hr, hsurv⟩ := Option.bind_eq_some_iff.mp hr₁
      unfold survivor at hsurv
      split at hsurv
      · cases hsurv
        rename_i hc
        exact absurd hc hopen
      · rename_i hc
        split at hsurv
        · rename_i ha
          cases hsurv
          refine ⟨r, hr, hc, ha, ?_⟩
          rw [aged] at httl
          dsimp only at httl
          omega
        · cases hsurv
    · rintro ⟨r, hr, hopen, ha, httl⟩
      refine ⟨aged a r, ?_, hopen, ?_⟩
      · rw [hr, Option.bind_some, survivor, if_neg hopen, if_pos ha]
      · rw [aged]
        dsimp only
        omega
  refine (List.perm_ext_iff_of_nodup ?_ h.once).mpr fun d => ?_
  · rw [List.nodup_append]
    refine ⟨h₁.once, h₂.once, fun d hd d' hd' heq => ?_⟩
    subst heq
    obtain ⟨r, hr, -, httl⟩ := (h₁.expired d).mp hd
    obtain ⟨r', hr', -, httl', -⟩ := (hsecond d).mp hd'
    rw [hr] at hr'
    cases hr'
    omega
  · rw [List.mem_append, h₁.expired, hsecond, h.expired]
    constructor
    · rintro (⟨r, hr, hopen, httl⟩ | ⟨r, hr, hopen, -, httl⟩)
      · exact ⟨r, hr, hopen, by omega⟩
      · exact ⟨r, hr, hopen, httl⟩
    · rintro ⟨r, hr, hopen, httl⟩
      rcases Nat.lt_or_ge a r.ttlBlocksRemaining with ha | ha
      · exact .inr ⟨r, hr, hopen, ha, httl⟩
      · exact .inl ⟨r, hr, hopen, ha⟩

theorem Inv.advance_add (hs : s.Inv V) (a b : Nat) :
    ∃ ids₁ s₁ ids₂ s₂ ids, DaRelayState.advanceOrphanTtlBy a s = .ok ids₁ s₁ ∧
      DaRelayState.advanceOrphanTtlBy b s₁ = .ok ids₂ s₂ ∧
      DaRelayState.advanceOrphanTtlBy (a + b) s = .ok ids s₂ ∧ (ids₁ ++ ids₂).Perm ids := by
  rcases Nat.eq_zero_or_pos a with rfl | ha
  · obtain ⟨ids, s', hrun, -⟩ := hs.advance_ok b
    refine ⟨[], s, ids, s', ids, advanceOrphanTtlBy_zero s, hrun, ?_, .refl _⟩
    rw [Nat.zero_add]
    exact hrun
  · obtain ⟨ids₁, s₁, hrun₁, hinv₁, hadv₁⟩ := hs.advanceOrphanTtlBy ha
    rcases Nat.eq_zero_or_pos b with rfl | hb
    · refine ⟨ids₁, s₁, [], s₁, ids₁, hrun₁, advanceOrphanTtlBy_zero s₁, hrun₁, ?_⟩
      rw [List.append_nil]
    · obtain ⟨ids₂, s₂, hrun₂, hinv₂, hadv₂⟩ := hinv₁.advanceOrphanTtlBy hb
      obtain ⟨ids, s', hrun, hinv, hadv⟩ := hs.advanceOrphanTtlBy (show 0 < a + b by omega)
      have hsame : s' = s₂ := by
        refine hinv.ext_sets hinv₂ ?_ ?_ fun d => ?_
        · rw [hadv.caps, hadv₂.caps, hadv₁.caps]
        · rw [hadv.clock, hadv₂.clock, hadv₁.clock]
        · rw [hadv.sets, hadv₂.sets, hadv₁.sets, Option.bind_assoc]
          refine congrArg _ (funext fun r => ?_)
          exact (survivor_bind a b r).symm
      subst hsame
      exact ⟨ids₁, s₁, ids₂, s', ids, hrun₁, hrun₂, hrun, hadv₁.expired_append hadv₂ hadv⟩

end DaRelayState

section ageing

variable [Crypto] [IpText]

end ageing

end Rubin.Node
