/-
# The DA relay's books

The relay keeps counters beside its records: one of all orphan bytes, one for each peer, one for
each `da_id`, one of the commits, and one of the payloads of the complete sets.  Every method
projects the counters it is about to change and writes them with the records.  This file proves
that the books always balance: the counters are the sums over the records and stay within the caps.
-/
import Rubin.Node.DaRelayRecord

namespace Rubin.Node

open Rubin.Lib Rubin.Consensus

/-! ## 1. One counter -/

variable {current remove add cap : Nat} {e : DaRelayError}

theorem projectCounter_eq_ok {n : Nat} :
    projectCounter current remove add cap = .ok n ↔ remove ≤ current ∧
      current - remove + add < 2 ^ 64 ∧ current - remove + add ≤ cap ∧
      n = current - remove + add := by
  simp only [projectCounter, bind_eq_ok, rejectIf_eq_ok, exists_unit, checkedAdd_eq_ok,
    Except.ok.injEq, Nat.not_lt, gt_iff_lt]
  constructor
  · rintro ⟨hle, _, ⟨hlt, rfl⟩, hcap, rfl⟩
    exact ⟨hle, hlt, hcap, rfl⟩
  · rintro ⟨hle, hlt, hcap, rfl⟩
    exact ⟨hle, _, ⟨hlt, rfl⟩, hcap, rfl⟩

/-- The two ways in which there is no room. -/
def DaRelayError.NoRoom (e : DaRelayError) : Prop :=
  e = .accountingOverflow ∨ e = .accountingCapExceeded

theorem projectCounter_error (hle : remove ≤ current)
    (h : projectCounter current remove add cap = .error e) : e.NoRoom := by
  simp only [projectCounter, bind_eq_error, rejectIf_eq_error, rejectIf_eq_ok, exists_unit,
    checkedAdd_eq_error, checkedAdd_eq_ok] at h
  rcases h with ⟨hlt, -⟩ | ⟨-, ⟨-, rfl⟩ | ⟨_, -, ⟨-, rfl⟩ | ⟨-, h⟩⟩⟩
  · omega
  · exact .inl rfl
  · exact .inr rfl
  · cases h

theorem projectCounter_of_le (hle : remove ≤ current) (hadd : add ≤ remove) (hcap : current ≤ cap)
    (hlt : current < 2 ^ 64) :
    projectCounter current remove add cap = .ok (current - remove + add) :=
  projectCounter_eq_ok.mpr ⟨hle, by omega, by omega, rfl⟩

/-! ## 2. The invariant -/

namespace DaRelayState

open DaRelaySetRecord

/-- Every counter is the sum over the stored records, and no tally keeps a zero. -/
structure Balanced (s : DaRelayState) : Prop where
  orphan : s.orphanBytes = total orphanCharge s.setsByDaId
  peer : ∀ k, count s.orphanBytesByPeerQuotaKey k = total (peerCharge k) s.setsByDaId
  daId : ∀ d, count s.orphanBytesByDaId d = weightAt orphanCharge s.setsByDaId d
  overhead : s.orphanCommitOverheadBytes = total commitOverhead s.setsByDaId
  pinned : s.pinnedPayloadBytes = total pinnedPayloadAccountingBytes s.setsByDaId
  peerNoZero : NoZero s.orphanBytesByPeerQuotaKey
  daIdNoZero : NoZero s.orphanBytesByDaId

/-- Every counter is at most its cap. -/
structure WithinCaps (s : DaRelayState) : Prop where
  orphan : s.orphanBytes ≤ s.caps.orphanPoolBytes
  peer : ∀ k, count s.orphanBytesByPeerQuotaKey k ≤ s.caps.orphanPoolPerPeerBytes
  daId : ∀ d, count s.orphanBytesByDaId d ≤ s.caps.orphanPoolPerDaIdBytes
  overhead : s.orphanCommitOverheadBytes ≤ s.caps.orphanCommitOverheadBytes
  pinned : s.pinnedPayloadBytes ≤ s.caps.pinnedPayloadBytes

/-- Records arrive one after another. -/
structure Timed (s : DaRelayState) : Prop where
  past : ∀ d r, s.setsByDaId.lookup d = some r →
    0 < r.receivedTime ∧ r.receivedTime ≤ s.nextReceivedTime
  distinct : ∀ d d' r r', s.setsByDaId.lookup d = some r → s.setsByDaId.lookup d' = some r' →
    r.receivedTime = r'.receivedTime → d = d'

variable [Crypto]

structure Inv (V : Tx → Prop) (s : DaRelayState) : Prop where
  balanced : s.Balanced
  withinCaps : s.WithinCaps
  fits : s.orphanBytes < 2 ^ 64 ∧ s.pinnedPayloadBytes < 2 ^ 64
  kept : ∀ d r, s.setsByDaId.lookup d = some r → r.Kept V d
  timed : s.Timed

variable {V : Tx → Prop} {s s' : DaRelayState} {r : DaRelaySetRecord} {d : Bytes32}

theorem Inv.new {caps : DaRelayCaps} (h : DaRelayState.new caps = .ok s) :
    s.Inv V ∧ s.caps = caps := by
  simp only [DaRelayState.new, bind_eq_ok, exists_unit, Except.ok.injEq] at h
  obtain ⟨-, rfl⟩ := h
  have hnone : ∀ (d : Bytes32) (r : DaRelaySetRecord) {P : Prop},
      (∅ : Finmap fun _ : Bytes32 => DaRelaySetRecord).lookup d = some r → P := by
    intro d r P hr
    rw [Finmap.lookup_empty] at hr
    cases hr
  refine ⟨⟨⟨?_, ?_, ?_, ?_, ?_, noZero_empty, noZero_empty⟩, ⟨Nat.zero_le _, ?_, ?_, Nat.zero_le _,
    Nat.zero_le _⟩, ⟨Nat.two_pow_pos 64, Nat.two_pow_pos 64⟩, fun d r hr => hnone d r hr,
    ⟨fun d r hr => hnone d r hr, fun d _ r _ hr _ _ => hnone d r hr⟩⟩, rfl⟩
  · exact (total_empty _).symm
  · intro k
    rw [count_empty, total_empty]
  · intro d
    rw [count_empty, weightAt, Finmap.lookup_empty]
  · exact (total_empty _).symm
  · exact (total_empty _).symm
  · intro k
    rw [count_empty]
    exact Nat.zero_le _
  · intro d
    rw [count_empty]
    exact Nat.zero_le _

theorem Inv.total_le (hs : s.Inv V) {w : DaRelaySetRecord → Nat} (hw : ∀ r, w r ≤ r.orphanCharge) :
    total w s.setsByDaId < 2 ^ 64 := by
  have h1 : total w s.setsByDaId ≤ total orphanCharge s.setsByDaId := total_mono fun _ r _ => hw r
  have h2 := hs.fits.1
  rw [hs.balanced.orphan] at h2
  omega

theorem Inv.peer_lt (hs : s.Inv V) (k : PeerQuotaKey) :
    count s.orphanBytesByPeerQuotaKey k < 2 ^ 64 := by
  rw [hs.balanced.peer]
  exact hs.total_le (peerCharge_le_orphanCharge k)

theorem Inv.daId_lt (hs : s.Inv V) (d : Bytes32) : count s.orphanBytesByDaId d < 2 ^ 64 := by
  have h1 := weightAt_le_total orphanCharge s.setsByDaId d
  have h2 := hs.total_le fun r => Nat.le_refl r.orphanCharge
  rw [hs.balanced.daId]
  omega

theorem Inv.overhead_lt (hs : s.Inv V) : s.orphanCommitOverheadBytes < 2 ^ 64 := by
  rw [hs.balanced.overhead]
  exact hs.total_le commitOverhead_le_orphanCharge

theorem Inv.charge_pos (hs : s.Inv V) (hr : s.setsByDaId.lookup d = some r)
    (hopen : r.state ≠ .completeSet) : 0 < count s.orphanBytesByDaId d := by
  obtain ⟨hdraft, hholds, -⟩ := (hs.kept d r hr).draft hopen
  rw [hs.balanced.daId, weightAt_of_lookup hr, orphanCharge, if_neg hopen]
  exact hholds.holds.heldBytes_pos hdraft.charged

theorem Inv.replace {r' : DaRelaySetRecord} (hs : s.Inv V) (hr : s.setsByDaId.lookup d = some r)
    (hkept : r'.Kept V d) (htime : r'.receivedTime = r.receivedTime)
    (horphan : r'.orphanCharge = r.orphanCharge) (hpeer : ∀ k, r'.peerCharge k = r.peerCharge k)
    (hcommit : r'.commitOverhead = r.commitOverhead)
    (hpinned : r'.pinnedPayloadAccountingBytes = r.pinnedPayloadAccountingBytes) :
    ({ s with setsByDaId := s.setsByDaId.insert d r' } : DaRelayState).Inv V := by
  have hsame : ∀ w : DaRelaySetRecord → Nat, w r' = w r →
      total w (s.setsByDaId.insert d r') = total w s.setsByDaId := by
    intro w hw
    have h := total_insert w s.setsByDaId d r'
    rw [weightAt_of_lookup hr, hw] at h
    omega
  have hold : ∀ d' r₁, (s.setsByDaId.insert d r').lookup d' = some r₁ →
      ∃ r₀, s.setsByDaId.lookup d' = some r₀ ∧ r₁.receivedTime = r₀.receivedTime ∧
        r₁.Kept V d' := by
    intro d' r₁ h
    rw [lookup_insert_eq] at h
    split at h
    · rename_i heq
      cases h
      rw [heq]
      exact ⟨r, hr, htime, hkept⟩
    · exact ⟨r₁, h, rfl, hs.kept d' r₁ h⟩
  obtain ⟨b1, b2, b3, b4, b5, b6, b7⟩ := hs.balanced
  obtain ⟨c1, c2, c3, c4, c5⟩ := hs.withinCaps
  refine ⟨⟨?_, ?_, ?_, ?_, ?_, b6, b7⟩, ⟨c1, c2, c3, c4, c5⟩, hs.fits, ?_, ⟨?_, ?_⟩⟩
  · exact b1.trans (hsame _ horphan).symm
  · exact fun k => (b2 k).trans (hsame _ (hpeer k)).symm
  · intro d'
    dsimp only
    rw [weightAt_insert, b3 d']
    split
    · rename_i heq
      rw [heq, weightAt_of_lookup hr, horphan]
    · rfl
  · exact b4.trans (hsame _ hcommit).symm
  · exact b5.trans (hsame _ hpinned).symm
  · intro d' r₁ h
    obtain ⟨-, -, -, hk⟩ := hold d' r₁ h
    exact hk
  · intro d' r₁ h
    obtain ⟨r₀, h₀, ht, -⟩ := hold d' r₁ h
    rw [ht]
    exact hs.timed.past d' r₀ h₀
  · intro d₁ d₂ r₁ r₂ h₁ h₂ heq
    obtain ⟨r₁', h₁', ht₁, -⟩ := hold d₁ r₁ h₁
    obtain ⟨r₂', h₂', ht₂, -⟩ := hold d₂ r₂ h₂
    exact hs.timed.distinct d₁ d₂ r₁' r₂' h₁' h₂' (by rw [← ht₁, ← ht₂, heq])

/-! ## 3. `apply_record` -/

omit [Crypto] in
theorem projectPeerCounter_eq_ok {k : PeerQuotaKey} {p : PeerQuotaKey × Nat} :
    s.projectPeerCounter k remove add = .ok p ↔
      remove ≤ count s.orphanBytesByPeerQuotaKey k ∧
      count s.orphanBytesByPeerQuotaKey k - remove + add < 2 ^ 64 ∧
      count s.orphanBytesByPeerQuotaKey k - remove + add ≤ s.caps.orphanPoolPerPeerBytes ∧
      p = (k, count s.orphanBytesByPeerQuotaKey k - remove + add) := by
  simp only [projectPeerCounter, bind_eq_ok, projectCounter_eq_ok, Except.ok.injEq]
  constructor
  · rintro ⟨_, ⟨h1, h2, h3, rfl⟩, rfl⟩
    exact ⟨h1, h2, h3, rfl⟩
  · rintro ⟨h1, h2, h3, rfl⟩
    exact ⟨_, ⟨h1, h2, h3, rfl⟩, rfl⟩

omit [Crypto] in
theorem projectPeerCounter_error {k : PeerQuotaKey}
    (hle : remove ≤ count s.orphanBytesByPeerQuotaKey k)
    (h : s.projectPeerCounter k remove add = .error e) : e.NoRoom := by
  simp only [projectPeerCounter, bind_eq_error] at h
  rcases h with h | ⟨_, -, h⟩
  · exact projectCounter_error hle h
  · cases h

section peers

variable {old : Option DaRelaySetRecord} {oldPeers newPeers : PeerBytes}

omit [Crypto] in
theorem projectPeerBytes_eq_ok {ps : List (PeerQuotaKey × Nat)}
    (holdPeers : (old.bind DaRelaySetRecord.orphanPeerBytes).getD ∅ = oldPeers)
    (hnewPeers : r.orphanPeerBytes.getD ∅ = newPeers) (h : s.projectPeerBytes old r = .ok ps) :
    (∀ p ∈ ps, p.2 = count s.orphanBytesByPeerQuotaKey p.1 - count oldPeers p.1 +
      count newPeers p.1 ∧ p.2 ≤ s.caps.orphanPoolPerPeerBytes) ∧
    ∀ k, k ∉ ps.map Prod.fst → count oldPeers k = 0 ∧ count newPeers k = 0 := by
  simp only [projectPeerBytes, holdPeers, hnewPeers, bind_eq_ok, Except.ok.injEq] at h
  obtain ⟨changed, hchanged, added, hadded, rfl⟩ := h
  obtain ⟨hc1, hc2⟩ := mem_of_mapM hchanged
  obtain ⟨ha1, ha2⟩ := mem_of_mapM hadded
  constructor
  · intro p hp
    rcases List.mem_append.mp hp with hp | hp
    · obtain ⟨q, hq, hpq⟩ := hc1 p hp
      obtain ⟨-, -, hcap, rfl⟩ := projectPeerCounter_eq_ok.mp hpq
      rw [count_of_lookup (peerOrder.mem_entries.mp hq)]
      exact ⟨rfl, hcap⟩
    · obtain ⟨q, hq, hpq⟩ := ha1 p hp
      obtain ⟨hq, hnone⟩ := List.mem_filter.mp hq
      obtain ⟨-, -, hcap, rfl⟩ := projectPeerCounter_eq_ok.mp hpq
      rw [count_of_lookup (peerOrder.mem_entries.mp hq),
        count_of_lookup_none (of_decide_eq_true hnone)]
      exact ⟨rfl, hcap⟩
  · intro k hk
    have hold : oldPeers.lookup k = none := by
      cases hlook : oldPeers.lookup k with
      | none => rfl
      | some n =>
        obtain ⟨p, hp, hpq⟩ := hc2 (k, n) (peerOrder.mem_entries.mpr hlook)
        obtain ⟨-, -, -, rfl⟩ := projectPeerCounter_eq_ok.mp hpq
        exact absurd (List.mem_map.mpr ⟨_, List.mem_append_left _ hp, rfl⟩) hk
    refine ⟨count_of_lookup_none hold, ?_⟩
    cases hlook : newPeers.lookup k with
    | none => exact count_of_lookup_none hlook
    | some n =>
      obtain ⟨p, hp, hpq⟩ := ha2 (k, n) (List.mem_filter.mpr
        ⟨peerOrder.mem_entries.mpr hlook, decide_eq_true hold⟩)
      obtain ⟨-, -, -, rfl⟩ := projectPeerCounter_eq_ok.mp hpq
      exact absurd (List.mem_map.mpr ⟨_, List.mem_append_right _ hp, rfl⟩) hk

omit [Crypto] in
theorem projectPeerBytes_error
    (holdPeers : (old.bind DaRelaySetRecord.orphanPeerBytes).getD ∅ = oldPeers)
    (hle : ∀ k, count oldPeers k ≤ count s.orphanBytesByPeerQuotaKey k)
    (h : s.projectPeerBytes old r = .error e) : e.NoRoom := by
  simp only [projectPeerBytes, holdPeers, bind_eq_error] at h
  rcases h with h | ⟨_, -, h | ⟨_, -, h⟩⟩
  · obtain ⟨p, hp, hep⟩ := mapM_eq_error h
    refine projectPeerCounter_error ?_ hep
    rw [← count_of_lookup (peerOrder.mem_entries.mp hp)]
    exact hle p.1
  · obtain ⟨p, -, hep⟩ := mapM_eq_error h
    exact projectPeerCounter_error (Nat.zero_le _) hep
  · cases h

omit [Crypto] in
theorem projectPeerBytes_of_room
    (holdPeers : (old.bind DaRelaySetRecord.orphanPeerBytes).getD ∅ = oldPeers)
    (hnewPeers : r.orphanPeerBytes.getD ∅ = newPeers)
    (hle : ∀ k, count oldPeers k ≤ count s.orphanBytesByPeerQuotaKey k)
    (hroom : ∀ k, count s.orphanBytesByPeerQuotaKey k - count oldPeers k + count newPeers k ≤
      s.caps.orphanPoolPerPeerBytes ∧
      count s.orphanBytesByPeerQuotaKey k - count oldPeers k + count newPeers k < 2 ^ 64) :
    ∃ ps, s.projectPeerBytes old r = .ok ps := by
  have hchanged : ∀ p ∈ peerOrder.entries oldPeers,
      ∃ q, s.projectPeerCounter p.1 p.2 (count newPeers p.1) = .ok q := by
    intro p hp
    have h1 := hle p.1
    obtain ⟨h2, h3⟩ := hroom p.1
    rw [count_of_lookup (peerOrder.mem_entries.mp hp)] at h1 h2 h3
    exact ⟨_, projectPeerCounter_eq_ok.mpr ⟨h1, h3, h2, rfl⟩⟩
  have hadded : ∀ p ∈ (peerOrder.entries newPeers).filter fun p => oldPeers.lookup p.1 = none,
      ∃ q, s.projectPeerCounter p.1 0 p.2 = .ok q := by
    intro p hp
    obtain ⟨hp, hnone⟩ := List.mem_filter.mp hp
    obtain ⟨h2, h3⟩ := hroom p.1
    rw [count_of_lookup (peerOrder.mem_entries.mp hp),
      count_of_lookup_none (of_decide_eq_true hnone)] at h2 h3
    exact ⟨_, projectPeerCounter_eq_ok.mpr ⟨Nat.zero_le _, h3, h2, rfl⟩⟩
  obtain ⟨changed, hch⟩ := exists_mapM_ok hchanged
  obtain ⟨added, had⟩ := exists_mapM_ok hadded
  simp only [projectPeerBytes, holdPeers, hnewPeers]
  rw [hch, ok_bind, had, ok_bind]
  exact ⟨_, rfl⟩

end peers

theorem Inv.old_peers (hs : s.Inv V) (k : PeerQuotaKey) :
    count (((s.setsByDaId.lookup d).bind DaRelaySetRecord.orphanPeerBytes).getD ∅) k =
      weightAt (peerCharge k) s.setsByDaId d := by
  cases hd : s.setsByDaId.lookup d with
  | none =>
    rw [weightAt, hd]
    exact count_empty k
  | some old =>
    rw [weightAt_of_lookup hd]
    exact count_orphanPeerBytes (hs.kept d old hd).cached k

theorem Inv.old_bytes (hs : s.Inv V) :
    (s.setsByDaId.lookup d).elim (.ok 0) DaRelaySetRecord.orphanWireBytes =
      .ok (weightAt orphanCharge s.setsByDaId d) := by
  cases hd : s.setsByDaId.lookup d with
  | none =>
    rw [weightAt, hd]
    rfl
  | some old =>
    have hlt := hs.daId_lt d
    rw [hs.balanced.daId, weightAt_of_lookup hd] at hlt
    rw [weightAt_of_lookup hd]
    exact orphanWireBytes_of_lt (hs.kept d old hd).cached hlt

theorem Inv.old_commit (hs : s.Inv V) :
    weightAt orphanCommitBytes s.setsByDaId d = weightAt commitOverhead s.setsByDaId d := by
  cases hd : s.setsByDaId.lookup d with
  | none => rw [weightAt, weightAt, hd]
  | some old =>
    rw [weightAt_of_lookup hd, weightAt_of_lookup hd]
    exact orphanCommitBytes_eq (hs.kept d old hd).charged

/-- The record is new and gets the next time, or keeps the time of the one it replaces. -/
def Stamped (s : DaRelayState) (r : DaRelaySetRecord) : Prop :=
  (s.setsByDaId.lookup r.daId = none ∧ r.receivedTime = s.nextReceivedTime + 1) ∨
    ∃ old, s.setsByDaId.lookup r.daId = some old ∧ r.receivedTime = old.receivedTime

omit [Crypto] in
theorem Timed.insert (h : s.Timed) (hr : s.Stamped r) (hnext : s'.nextReceivedTime =
      max s.nextReceivedTime r.receivedTime)
    (hsets : s'.setsByDaId = s.setsByDaId.insert r.daId r) : s'.Timed := by
  -- a record elsewhere has another time
  have hother : ∀ d r', d ≠ r.daId → s.setsByDaId.lookup d = some r' →
      r'.receivedTime ≠ r.receivedTime := by
    intro d r' hne hd heq
    rcases hr with ⟨-, ht⟩ | ⟨old, hold, ht⟩
    · have := (h.past d r' hd).2
      omega
    · exact hne (h.distinct d r.daId r' old hd hold (by rw [heq, ht]))
  have hpos : 0 < r.receivedTime := by
    rcases hr with ⟨-, ht⟩ | ⟨old, hold, ht⟩
    · omega
    · rw [ht]
      exact (h.past _ old hold).1
  constructor
  · intro d r' hd
    rw [hsets, lookup_insert_eq] at hd
    rw [hnext]
    split at hd
    · cases hd
      exact ⟨hpos, Nat.le_max_right ..⟩
    · obtain ⟨h1, h2⟩ := h.past d r' hd
      exact ⟨h1, h2.trans (Nat.le_max_left ..)⟩
  · intro d₁ d₂ r₁ r₂ h₁ h₂ heq
    rw [hsets, lookup_insert_eq] at h₁ h₂
    split at h₁
    · rename_i hd₁
      split at h₂
      · rename_i hd₂
        rw [hd₁, hd₂]
      · rename_i hd₂
        cases h₁
        exact absurd heq.symm (hother d₂ r₂ hd₂ h₂)
    · rename_i hd₁
      split at h₂
      · cases h₂
        exact absurd heq (hother d₁ r₁ hd₁ h₁)
      · exact h.distinct d₁ d₂ r₁ r₂ h₁ h₂ heq

omit [Crypto] in
theorem total_write (w : DaRelaySetRecord → Nat) (s : DaRelayState) (r : DaRelaySetRecord) :
    total w (s.setsByDaId.insert r.daId r) =
      total w s.setsByDaId - weightAt w s.setsByDaId r.daId + w r := by
  have h1 := total_insert w s.setsByDaId r.daId r
  have h2 := weightAt_le_total w s.setsByDaId r.daId
  omega

/-- **`apply_record` keeps the books.** -/
theorem applyRecord_eq_ok (hs : s.Inv V) (hr : r.Kept V r.daId) (ht : s.Stamped r) {u : Unit}
    (h : applyRecord r s = .ok u s') :
    s'.Inv V ∧ s'.setsByDaId = s.setsByDaId.insert r.daId r ∧ s'.caps = s.caps := by
  rw [applyRecord, writing_eq_ok] at h
  simp only [hs.old_bytes, elim_lookup, hs.old_commit, orphanCommitBytes_eq hr.charged, ok_bind,
    bind_eq_ok, projectCounter_eq_ok, Except.ok.injEq] at h
  obtain ⟨newBytes, hnew, ps, hps, _, ⟨o1, o2, o3, rfl⟩, _, ⟨d1, -, d3, rfl⟩, _, ⟨c1, c2, c3, rfl⟩,
    _, ⟨p1, p2, p3, rfl⟩, rfl⟩ := h
  obtain ⟨rfl, hnewlt⟩ := orphanWireBytes_eq_ok hr.cached hnew
  obtain ⟨hwritten, hrest⟩ := projectPeerBytes_eq_ok rfl rfl hps
  simp only [hs.old_peers, count_orphanPeerBytes hr.cached] at hwritten hrest
  have hpeer : ∀ k, count (settleAll ps s.orphanBytesByPeerQuotaKey) k =
      total (peerCharge k) (s.setsByDaId.insert r.daId r) := by
    intro k
    rw [total_write, ← hs.balanced.peer]
    refine count_settleAll (f := fun k => count s.orphanBytesByPeerQuotaKey k -
      weightAt (peerCharge k) s.setsByDaId r.daId + r.peerCharge k)
      (fun p hp => (hwritten p hp).1) (fun k hk => ?_) k
    obtain ⟨h1, h2⟩ := hrest k hk
    rw [h1, h2, Nat.sub_zero, Nat.add_zero]
  refine ⟨⟨⟨?_, hpeer, ?_, ?_, ?_, noZero_settleAll _ hs.balanced.peerNoZero,
    noZero_settle hs.balanced.daIdNoZero _⟩, ⟨o3, ?_, ?_, c3, p3⟩, ⟨o2, p2⟩, ?_,
    hs.timed.insert ht rfl rfl⟩, rfl, rfl⟩
  · rw [hs.balanced.orphan]
    exact (total_write _ s r).symm
  · intro d
    dsimp only
    rw [count_settle]
    split
    · rename_i hd
      rw [weightAt_insert, if_pos hd, hs.balanced.daId]
      omega
    · rename_i hd
      rw [weightAt_insert, if_neg hd, hs.balanced.daId]
  · rw [hs.balanced.overhead]
    exact (total_write _ s r).symm
  · rw [hs.balanced.pinned]
    exact (total_write _ s r).symm
  · intro k
    by_cases hk : k ∈ ps.map Prod.fst
    · obtain ⟨p, hp, rfl⟩ := List.mem_map.mp hk
      obtain ⟨hval, hcap⟩ := hwritten p hp
      rw [hpeer, total_write, ← hs.balanced.peer, ← hval]
      exact hcap
    · obtain ⟨h1, h2⟩ := hrest k hk
      rw [hpeer, total_write, ← hs.balanced.peer, h1, h2, Nat.sub_zero, Nat.add_zero]
      exact hs.withinCaps.peer k
  · intro d
    dsimp only
    rw [count_settle]
    split
    · exact d3
    · exact hs.withinCaps.daId d
  · intro d r' hd
    rw [lookup_insert_eq] at hd
    split at hd
    · rename_i heq
      cases hd
      rw [heq]
      exact hr
    · exact hs.kept d r' hd

/-- It fails only when there is no room, and then writes nothing. -/
theorem applyRecord_eq_error (hs : s.Inv V) (h : applyRecord r s = .error e s') :
    s' = s ∧ e.NoRoom := by
  rw [applyRecord, writing_eq_error] at h
  obtain ⟨h, rfl⟩ := h
  refine ⟨rfl, ?_⟩
  simp only [hs.old_bytes, elim_lookup, hs.old_commit, ok_bind, bind_eq_error] at h
  have hle : ∀ k, count (((s'.setsByDaId.lookup r.daId).bind
      DaRelaySetRecord.orphanPeerBytes).getD ∅) k ≤ count s'.orphanBytesByPeerQuotaKey k := by
    intro k
    rw [hs.old_peers, hs.balanced.peer]
    exact weightAt_le_total ..
  rcases h with h | ⟨_, -, h | ⟨_, -, h | ⟨_, -, h | ⟨_, -, h | ⟨_, -, h | ⟨_, -, h⟩⟩⟩⟩⟩⟩
  · exact .inl (orphanWireBytes_error h)
  · exact projectPeerBytes_error rfl hle h
  · exact projectCounter_error (by rw [hs.balanced.orphan]; exact weightAt_le_total ..) h
  · exact projectCounter_error (by rw [hs.balanced.daId]) h
  · exact projectCounter_error (by rw [hs.balanced.overhead]; exact weightAt_le_total ..) h
  · exact projectCounter_error (by rw [hs.balanced.pinned]; exact weightAt_le_total ..) h
  · cases h

/-- There is room for the record: the sums with it in its place are within the caps. -/
structure Room (s : DaRelayState) (r : DaRelaySetRecord) : Prop where
  orphan : total orphanCharge (s.setsByDaId.insert r.daId r) ≤ s.caps.orphanPoolBytes
  peer : ∀ k, total (peerCharge k) (s.setsByDaId.insert r.daId r) ≤ s.caps.orphanPoolPerPeerBytes
  daId : r.orphanCharge ≤ s.caps.orphanPoolPerDaIdBytes
  overhead : total commitOverhead (s.setsByDaId.insert r.daId r) ≤ s.caps.orphanCommitOverheadBytes
  pinned : total pinnedPayloadAccountingBytes (s.setsByDaId.insert r.daId r) ≤
    s.caps.pinnedPayloadBytes
  fits : total orphanCharge (s.setsByDaId.insert r.daId r) < 2 ^ 64 ∧
    total pinnedPayloadAccountingBytes (s.setsByDaId.insert r.daId r) < 2 ^ 64

theorem applyRecord_of_room (hs : s.Inv V) (hr : r.Kept V r.daId) (hroom : s.Room r) :
    ∃ s', applyRecord r s = .ok () s' := by
  obtain ⟨b1, b2, b3, b4, b5, -, -⟩ := hs.balanced
  have hbound : ∀ w : DaRelaySetRecord → Nat, (∀ r, w r ≤ r.orphanCharge) →
      total w (s.setsByDaId.insert r.daId r) < 2 ^ 64 := by
    intro w hw
    exact Nat.lt_of_le_of_lt (total_mono fun _ r _ => hw r) hroom.fits.1
  have hself : r.orphanCharge < 2 ^ 64 := by
    have h := weightAt_le_total orphanCharge (s.setsByDaId.insert r.daId r) r.daId
    rw [weightAt_of_lookup (Finmap.lookup_insert _)] at h
    exact Nat.lt_of_le_of_lt h hroom.fits.1
  have hpeers := hroom.peer
  have hpeersFit := fun k => hbound (peerCharge k) (peerCharge_le_orphanCharge k)
  obtain ⟨h1, -, h3, h4, h5, h6, h7⟩ := hroom
  have h8 := hbound commitOverhead commitOverhead_le_orphanCharge
  simp only [total_write] at h1 h4 h5 h6 h7 h8 hpeers hpeersFit
  obtain ⟨ps, hps⟩ := @projectPeerBytes_of_room s r (s.setsByDaId.lookup r.daId) _ _ rfl rfl
    (fun k => by rw [hs.old_peers, b2]; exact weightAt_le_total ..)
    (fun k => by
      rw [hs.old_peers, count_orphanPeerBytes hr.cached, b2]
      exact ⟨hpeers k, hpeersFit k⟩)
  have hwire := orphanWireBytes_of_lt hr.cached hself
  have hp1 := projectCounter_eq_ok.mpr ⟨by rw [b1]; exact weightAt_le_total .., b1 ▸ h6, b1 ▸ h1, rfl⟩
  have hp2 : projectCounter (count s.orphanBytesByDaId r.daId)
      (weightAt orphanCharge s.setsByDaId r.daId) r.orphanCharge s.caps.orphanPoolPerDaIdBytes =
        .ok r.orphanCharge := by
    rw [b3]
    exact projectCounter_eq_ok.mpr ⟨Nat.le_refl _, by omega, by omega, by omega⟩
  have hp3 := projectCounter_eq_ok.mpr ⟨by rw [b4]; exact weightAt_le_total .., b4 ▸ h8, b4 ▸ h4, rfl⟩
  have hp4 := projectCounter_eq_ok.mpr ⟨by rw [b5]; exact weightAt_le_total .., b5 ▸ h7, b5 ▸ h5, rfl⟩
  simp only [applyRecord, writing_eq_ok, hs.old_bytes, elim_lookup, hs.old_commit,
    orphanCommitBytes_eq hr.charged, ok_bind, hwire, hps, hp1, hp2, hp3, hp4]
  exact ⟨_, rfl⟩

theorem Inv.room_of_le (hs : s.Inv V)
    (horphan : r.orphanCharge ≤ weightAt orphanCharge s.setsByDaId r.daId)
    (hpeer : ∀ k, r.peerCharge k ≤ weightAt (peerCharge k) s.setsByDaId r.daId)
    (hcommit : r.commitOverhead ≤ weightAt commitOverhead s.setsByDaId r.daId)
    (hpinned : r.pinnedPayloadAccountingBytes ≤
      weightAt pinnedPayloadAccountingBytes s.setsByDaId r.daId) : s.Room r := by
  have hle : ∀ w : DaRelaySetRecord → Nat, w r ≤ weightAt w s.setsByDaId r.daId →
      total w (s.setsByDaId.insert r.daId r) ≤ total w s.setsByDaId := by
    intro w hw
    have h := weightAt_le_total w s.setsByDaId r.daId
    rw [total_write]
    omega
  obtain ⟨b1, b2, b3, b4, b5, -, -⟩ := hs.balanced
  obtain ⟨c1, c2, c3, c4, c5⟩ := hs.withinCaps
  obtain ⟨f1, f2⟩ := hs.fits
  refine ⟨?_, ?_, ?_, ?_, ?_, ?_, ?_⟩
  · exact (hle _ horphan).trans (b1 ▸ c1)
  · exact fun k => (hle _ (hpeer k)).trans (b2 k ▸ c2 k)
  · exact horphan.trans (b3 r.daId ▸ c3 r.daId)
  · exact (hle _ hcommit).trans (b4 ▸ c4)
  · exact (hle _ hpinned).trans (b5 ▸ c5)
  · exact Nat.lt_of_le_of_lt (hle _ horphan) (b1 ▸ f1)
  · exact Nat.lt_of_le_of_lt (hle _ hpinned) (b5 ▸ f2)

/-! ## 4. Dropping records -/

section drop

variable {records : List DaRelaySetRecord}

/-- The records are stored and open, each once. -/
structure Droppable (s : DaRelayState) (records : List DaRelaySetRecord) : Prop where
  stored : ∀ r ∈ records, s.setsByDaId.lookup r.daId = some r ∧ r.state ≠ .completeSet
  once : (records.map DaRelaySetRecord.daId).Nodup

omit [Crypto] in
theorem Droppable.sum_eq (h : s.Droppable records) (w : DaRelaySetRecord → Nat) :
    ((records.map DaRelaySetRecord.daId).map (weightAt w s.setsByDaId)).sum =
      (records.map w).sum := by
  rw [List.map_map]
  refine congrArg List.sum (List.map_congr_left fun r hr => ?_)
  exact weightAt_of_lookup (h.stored r hr).1

omit [Crypto] in
theorem Droppable.sublist (h : s.Droppable records) {part : List DaRelaySetRecord}
    (hpart : part.Sublist records) : s.Droppable part where
  stored := fun r hr => h.stored r (hpart.subset hr)
  once := h.once.sublist (hpart.map _)

omit [Crypto] in
theorem Droppable.sum_le (h : s.Droppable records) (w : DaRelaySetRecord → Nat) :
    (records.map w).sum ≤ total w s.setsByDaId := by
  rw [← h.sum_eq w]
  exact sum_weightAt_le_total w s.setsByDaId h.once

/-- What `project_ttl_expiry` has summed up after some records. -/
structure Summed (acc : TtlExpirySums) (done : List DaRelaySetRecord) : Prop where
  orphan : acc.removeOrphanBytes = (done.map orphanCharge).sum
  overhead : acc.removeCommitOverheadBytes = (done.map commitOverhead).sum
  peer : ∀ k, count acc.removePeerBytes k = (done.map (peerCharge k)).sum
  daIds : acc.daIdBytes = done.map fun r => (r.daId, 0)

/-- One turn: nothing overflows, because the sums are parts of the counters. -/
theorem Inv.projectTtlRecord (hs : s.Inv V) {acc : TtlExpirySums} {done : List DaRelaySetRecord}
    (hdrop : s.Droppable (done ++ [r])) (hacc : Summed acc done) :
    ∃ acc', s.projectTtlRecord acc r = .ok acc' ∧ Summed acc' (done ++ [r]) := by
  obtain ⟨hr, hopen⟩ := hdrop.stored r (by simp)
  have hkept := hs.kept _ r hr
  have hsum : ∀ w : DaRelaySetRecord → Nat,
      ((done ++ [r]).map w).sum = (done.map w).sum + w r := by
    intro w
    rw [List.map_append, List.sum_append]
    simp
  have hbound : ∀ w : DaRelaySetRecord → Nat, (∀ r, w r ≤ r.orphanCharge) →
      (done.map w).sum + w r < 2 ^ 64 := by
    intro w hw
    have h1 := hdrop.sum_le w
    have h2 := hs.total_le hw
    rw [hsum] at h1
    omega
  have hcharge : count s.orphanBytesByDaId r.daId = r.orphanCharge := by
    rw [hs.balanced.daId, weightAt_of_lookup hr]
  have hwire : r.orphanWireBytes = .ok r.orphanCharge :=
    orphanWireBytes_of_lt hkept.cached (by rw [← hcharge]; exact hs.daId_lt _)
  have h1 : checkedAdd acc.removeOrphanBytes r.orphanCharge =
      .ok (acc.removeOrphanBytes + r.orphanCharge) :=
    checkedAdd_eq_ok.mpr ⟨by rw [hacc.orphan]; exact hbound _ fun r => Nat.le_refl _, rfl⟩
  have h2 : checkedAdd acc.removeCommitOverheadBytes r.commitOverhead =
      .ok (acc.removeCommitOverheadBytes + r.commitOverhead) :=
    checkedAdd_eq_ok.mpr
      ⟨by rw [hacc.overhead]; exact hbound _ commitOverhead_le_orphanCharge, rfl⟩
  have h3 : projectCounter (count s.orphanBytesByDaId r.daId) r.orphanCharge 0
      s.caps.orphanPoolPerDaIdBytes = .ok 0 := by
    rw [projectCounter_of_le (Nat.le_of_eq hcharge.symm) (Nat.zero_le _)
      (hs.withinCaps.daId r.daId) (hs.daId_lt r.daId), hcharge, Nat.sub_self]
  have hpeers : ∀ k, count (chargeAll Prod.fst Prod.snd
      (peerOrder.entries (r.orphanPeerBytes.getD ∅)) acc.removePeerBytes) k =
        ((done ++ [r]).map (peerCharge k)).sum := by
    intro k
    rw [count_chargeAll_entries, count_orphanPeerBytes hkept.cached, hacc.peer, hsum]
  have h4 := @addPeerBytes_loop (peerOrder.entries (r.orphanPeerBytes.getD ∅)) acc.removePeerBytes
    fun k => by
      rw [hpeers, hsum]
      exact hbound _ (peerCharge_le_orphanCharge k)
  have hturn : s.projectTtlRecord acc r = .ok ⟨acc.removeOrphanBytes + r.orphanCharge,
      acc.removeCommitOverheadBytes + r.commitOverhead, chargeAll Prod.fst Prod.snd
        (peerOrder.entries (r.orphanPeerBytes.getD ∅)) acc.removePeerBytes,
      acc.daIdBytes ++ [(r.daId, 0)]⟩ := by
    rw [DaRelayState.projectTtlRecord, hwire, ok_bind, h1, ok_bind,
      orphanCommitBytes_eq hkept.charged, h2, ok_bind, h3, ok_bind, h4, ok_bind]
  refine ⟨_, hturn, ⟨?_, ?_, hpeers, ?_⟩⟩
  · rw [hsum, hacc.orphan]
  · rw [hsum, hacc.overhead]
  · dsimp only
    rw [hacc.daIds, List.map_append]
    rfl

/-- **Dropping records keeps the books**, and never fails. -/
theorem Inv.projectTtlExpiry (hs : s.Inv V) (hdrop : s.Droppable records) :
    ∃ projection, s.projectTtlExpiry records = .ok projection ∧
      (s.applyTtlExpiryProjection projection records).Inv V := by
  obtain ⟨sums, hloop, hsums⟩ := foldlM_progress (f := s.projectTtlRecord)
    (fun done acc => Summed acc done) (l := records) (s := ⟨0, 0, ∅, []⟩)
    ⟨rfl, rfl, fun k => count_empty k, rfl⟩ (by
      rintro done r rest acc rfl hacc
      exact hs.projectTtlRecord (hdrop.sublist (by simp)) hacc)
  obtain ⟨b1, b2, b3, b4, b5, b6, b7⟩ := hs.balanced
  obtain ⟨c1, c2, c3, c4, c5⟩ := hs.withinCaps
  have hle : ∀ k, count sums.removePeerBytes k ≤ count s.orphanBytesByPeerQuotaKey k := by
    intro k
    rw [hsums.peer, b2]
    exact hdrop.sum_le _
  have hpeers := mapM_eq_ok (f := fun p => s.projectPeerCounter p.1 p.2 0)
    (g := fun p => (p.1, count s.orphanBytesByPeerQuotaKey p.1 - count sums.removePeerBytes p.1))
    (l := peerOrder.entries sums.removePeerBytes) (by
      intro p hp
      have h1 := hle p.1
      have h2 := c2 p.1
      have h3 := hs.peer_lt p.1
      rw [count_of_lookup (peerOrder.mem_entries.mp hp)] at h1 ⊢
      exact projectPeerCounter_eq_ok.mpr ⟨h1, by omega, by omega, rfl⟩)
  have horphan := @projectCounter_of_le s.orphanBytes sums.removeOrphanBytes 0
    s.caps.orphanPoolBytes (by rw [hsums.orphan, b1]; exact hdrop.sum_le _) (Nat.zero_le _) c1
    hs.fits.1
  have hover := @projectCounter_of_le s.orphanCommitOverheadBytes sums.removeCommitOverheadBytes 0
    s.caps.orphanCommitOverheadBytes (by rw [hsums.overhead, b4]; exact hdrop.sum_le _)
    (Nat.zero_le _) c4 hs.overhead_lt
  refine ⟨_, by rw [DaRelayState.projectTtlExpiry, hloop, ok_bind, hpeers, ok_bind, horphan, ok_bind,
    hover, ok_bind], ?_⟩
  have htotal : ∀ w : DaRelaySetRecord → Nat,
      total w (eraseAll (records.map DaRelaySetRecord.daId) s.setsByDaId) =
        total w s.setsByDaId - (records.map w).sum := by
    intro w
    have := total_eraseAll w (records.map DaRelaySetRecord.daId) s.setsByDaId hdrop.once
    rw [hdrop.sum_eq] at this
    omega
  have hold : ∀ d r, (eraseAll (records.map DaRelaySetRecord.daId) s.setsByDaId).lookup d =
      some r → s.setsByDaId.lookup d = some r := by
    intro d r hr
    rw [lookup_eraseAll] at hr
    split at hr
    · cases hr
    · exact hr
  have hpeer : ∀ k, count (settleAll ((peerOrder.entries sums.removePeerBytes).map fun p =>
      (p.1, count s.orphanBytesByPeerQuotaKey p.1 - count sums.removePeerBytes p.1))
      s.orphanBytesByPeerQuotaKey) k =
        count s.orphanBytesByPeerQuotaKey k - count sums.removePeerBytes k := by
    refine count_settleAll (by simp +contextual) fun k hk => ?_
    have hnone : sums.removePeerBytes.lookup k = none := by
      cases hlook : sums.removePeerBytes.lookup k with
      | none => rfl
      | some n =>
        refine absurd ?_ hk
        rw [List.map_map]
        exact List.mem_map.mpr ⟨(k, n), peerOrder.mem_entries.mpr hlook, rfl⟩
    rw [count_of_lookup_none hnone, Nat.sub_zero]
  have hdaId : ∀ d, count (settleAll (records.map fun r => (r.daId, 0)) s.orphanBytesByDaId) d =
      if d ∈ records.map DaRelaySetRecord.daId then 0 else count s.orphanBytesByDaId d := by
    refine count_settleAll ?_ fun d hd => ?_
    · intro p hp
      obtain ⟨r, hr, rfl⟩ := List.mem_map.mp hp
      rw [if_pos (List.mem_map_of_mem hr)]
    · rw [List.map_map] at hd
      exact (if_neg hd).symm
  refine ⟨⟨?_, ?_, ?_, ?_, ?_, noZero_settleAll _ b6, noZero_settleAll _ b7⟩,
    ⟨?_, ?_, ?_, ?_, c5⟩, ⟨?_, hs.fits.2⟩, fun d r hr => hs.kept d r (hold d r hr),
    ⟨fun d r hr => hs.timed.past d r (hold d r hr), fun d d' r r' hr hr' =>
      hs.timed.distinct d d' r r' (hold d r hr) (hold d' r' hr')⟩⟩
  all_goals dsimp only [applyTtlExpiryProjection]
  · rw [htotal, ← b1, hsums.orphan, Nat.add_zero]
  · intro k
    rw [hpeer, htotal, ← b2, hsums.peer]
  · intro d
    rw [hsums.daIds, hdaId, weightAt_eraseAll, b3]
  · rw [htotal, ← b4, hsums.overhead, Nat.add_zero]
  · have hzero : (records.map pinnedPayloadAccountingBytes).sum = 0 := by
      rw [List.sum_eq_zero_iff]
      intro n hn
      obtain ⟨r, hr, rfl⟩ := List.mem_map.mp hn
      rw [pinnedPayloadAccountingBytes, if_pos (hdrop.stored r hr).2]
    rw [htotal, hzero, Nat.sub_zero, b5]
  · omega
  · intro k
    have := c2 k
    rw [hpeer]
    omega
  · intro d
    have := c3 d
    rw [hsums.daIds, hdaId]
    split
    · exact Nat.zero_le _
    · exact this
  · omega
  · have := hs.fits.1
    omega

end drop

end DaRelayState

end Rubin.Node
