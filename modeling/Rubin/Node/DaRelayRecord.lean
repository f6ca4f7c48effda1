/-
# What a DA relay record holds

A record of the relay caches two byte counts.  This file says what they count: every item a record
holds is charged to the peer that sent it, a commit for its bytes and a chunk for its bytes and the
payload kept beside them.
-/
import Rubin.Node.DaRelay

namespace Rubin.Node

open Rubin.Lib Rubin.Consensus

/-! ## 1. Checked arithmetic -/

variable {n : Nat} {e : DaRelayError} {l : List Nat} {c : DaRelayChunk} {i : UInt16}

theorem checkedAdd_eq_ok {a b : Nat} : checkedAdd a b = .ok n ↔ a + b < 2 ^ 64 ∧ n = a + b := by
  unfold checkedAdd
  split
  · rename_i h
    rw [Except.ok.injEq, and_iff_right h, eq_comm]
  · rename_i h
    exact ⟨nofun, fun hn => absurd hn.1 h⟩

theorem checkedAdd_eq_error {a b : Nat} :
    checkedAdd a b = .error e ↔ 2 ^ 64 ≤ a + b ∧ e = .accountingOverflow := by
  unfold checkedAdd
  split
  · rename_i h
    exact ⟨nofun, fun hn => absurd h (Nat.not_lt.mpr hn.1)⟩
  · rename_i h
    rw [Except.error.injEq, and_iff_right (Nat.not_lt.mp h), eq_comm]

theorem sum_checked : ∀ {a n : Nat}, l.foldlM checkedAdd a = .ok n →
    n = a + l.sum ∧ (a < 2 ^ 64 → n < 2 ^ 64) := by
  induction l with
  | nil =>
    intro a n h
    cases h
    exact ⟨rfl, id⟩
  | cons b l ih =>
    intro a n h
    simp only [List.foldlM_cons, bind_eq_ok, checkedAdd_eq_ok] at h
    obtain ⟨_, ⟨hlt, rfl⟩, hrest⟩ := h
    obtain ⟨rfl, hbound⟩ := ih hrest
    exact ⟨by rw [List.sum_cons, Nat.add_assoc], fun _ => hbound hlt⟩

theorem sum_checked_of_lt : ∀ {a : Nat}, a + l.sum < 2 ^ 64 →
    l.foldlM checkedAdd a = .ok (a + l.sum) := by
  induction l with
  | nil => exact fun _ => rfl
  | cons b l ih =>
    intro a h
    rw [List.sum_cons, ← Nat.add_assoc] at h ⊢
    rw [List.foldlM_cons, checkedAdd_eq_ok.mpr ⟨by omega, rfl⟩, ok_bind]
    exact ih h

theorem sum_checked_error : ∀ {a : Nat},
    l.foldlM checkedAdd a = .error e → e = .accountingOverflow := by
  induction l with
  | nil =>
    intro a h
    cases h
  | cons b l ih =>
    intro a h
    simp only [List.foldlM_cons, bind_eq_error, checkedAdd_eq_error] at h
    rcases h with ⟨-, rfl⟩ | ⟨_, -, h⟩
    · rfl
    · exact ih h

theorem addPeerBytes_eq_ok {m m' : PeerBytes} {k : PeerQuotaKey} :
    addPeerBytes m k n = .ok m' ↔ count m k + n < 2 ^ 64 ∧ m' = charge m k n := by
  simp only [addPeerBytes, bind_eq_ok, checkedAdd_eq_ok, Except.ok.injEq, charge]
  constructor
  · rintro ⟨_, ⟨hlt, rfl⟩, rfl⟩
    exact ⟨hlt, rfl⟩
  · rintro ⟨hlt, rfl⟩
    exact ⟨_, ⟨hlt, rfl⟩, rfl⟩

theorem addPeerBytes_error {m : PeerBytes} {k : PeerQuotaKey} (h : addPeerBytes m k n = .error e) :
    e = .accountingOverflow := by
  simp only [addPeerBytes, bind_eq_error, checkedAdd_eq_error] at h
  rcases h with ⟨-, rfl⟩ | ⟨_, -, h⟩
  · rfl
  · cases h

theorem addPeerBytes_loop {l : List (PeerQuotaKey × Nat)} : ∀ {m : PeerBytes},
    (∀ k, count (chargeAll Prod.fst Prod.snd l m) k < 2 ^ 64) →
      l.foldlM (fun m p => addPeerBytes m p.1 p.2) m = .ok (chargeAll Prod.fst Prod.snd l m) := by
  induction l with
  | nil => exact fun _ => rfl
  | cons p l ih =>
    intro m h
    rw [chargeAll_cons] at h ⊢
    have hp : count m p.1 + p.2 < 2 ^ 64 := by
      have hend := h p.1
      rw [count_chargeAll, count_charge, if_pos rfl] at hend
      omega
    rw [List.foldlM_cons, addPeerBytes_eq_ok.mpr ⟨hp, rfl⟩, ok_bind]
    exact ih h

/-! ## 2. What the cached counts count -/

/-- A commit is charged for its bytes. -/
def DaRelayCommit.charge (c : DaRelayCommit) : Nat := c.txBytes.length

/-- A chunk is charged for its bytes and for the payload kept beside them. -/
def DaRelayChunk.charge (c : DaRelayChunk) : Nat := c.txBytes.length + c.payload.length

namespace DaRelaySetRecord

/-- A weighted count of the items of a record. -/
def held (wc : DaRelayCommit → Nat) (wk : DaRelayChunk → Nat) (r : DaRelaySetRecord) : Nat :=
  r.commit.elim 0 wc + total wk r.chunks

def heldBytes (r : DaRelaySetRecord) : Nat := r.held DaRelayCommit.charge DaRelayChunk.charge

/-- The bytes of the items of one peer. -/
def heldBy (key : PeerQuotaKey) (r : DaRelaySetRecord) : Nat :=
  r.held (fun c => if c.peerQuotaKey = key then c.charge else 0)
    (fun c => if c.peerQuotaKey = key then c.charge else 0)

/-- Every item keeps its bytes. -/
structure Charged (r : DaRelaySetRecord) : Prop where
  commit : ∀ c, r.commit = some c → c.txBytes ≠ []
  chunk : ∀ i c, r.chunks.lookup i = some c → c.txBytes ≠ []

def Holds (r : DaRelaySetRecord) : Prop :=
  r.commit ≠ none ∨ ∃ i c, r.chunks.lookup i = some c

/-- The cached counts are those of the items. -/
structure Cached (r : DaRelaySetRecord) : Prop where
  peer : ∀ k, count r.peerBytes k = r.heldBy k
  whole : total (fun n => n) r.peerBytes = r.heldBytes
  noZero : NoZero r.peerBytes
  wire : 0 < r.wireBytes

theorem held_le_held {wc wc' : DaRelayCommit → Nat} {wk wk' : DaRelayChunk → Nat}
    (hc : ∀ c, wc c ≤ wc' c) (hk : ∀ c, wk c ≤ wk' c) (r : DaRelaySetRecord) :
    r.held wc wk ≤ r.held wc' wk' := by
  refine Nat.add_le_add ?_ (total_mono fun _ v _ => hk v)
  cases r.commit with
  | none => exact Nat.le_refl _
  | some c => exact hc c

theorem heldBy_le_heldBytes (k : PeerQuotaKey) (r : DaRelaySetRecord) : r.heldBy k ≤ r.heldBytes := by
  refine held_le_held (fun c => ?_) (fun c => ?_) r
  · split <;> omega
  · split <;> omega

variable {r : DaRelaySetRecord}

theorem held_le_of_drop {r' : DaRelaySetRecord} (wc : DaRelayCommit → Nat) (wk : DaRelayChunk → Nat)
    {indexes : List UInt16} (hcommit : r'.commit = r.commit ∨ r'.commit = none)
    (hchunks : r'.chunks = eraseAll indexes r.chunks) : r'.held wc wk ≤ r.held wc wk := by
  unfold held
  rw [hchunks]
  refine Nat.add_le_add ?_ (total_eraseAll_le wk indexes r.chunks)
  rcases hcommit with h | h
  · rw [h]
  · rw [h]
    exact Nat.zero_le _

theorem Holds.heldBytes_pos (h : r.Holds) (hr : r.Charged) : 0 < r.heldBytes := by
  rcases h with h | ⟨i, c, hc⟩
  · obtain ⟨c, hc⟩ := Option.ne_none_iff_exists'.mp h
    have hlen := List.length_pos_iff.mpr (hr.commit c hc)
    rw [heldBytes, held, hc, Option.elim_some, DaRelayCommit.charge]
    omega
  · have hlen := List.length_pos_iff.mpr (hr.chunk i c hc)
    have hle := weightAt_le_total DaRelayChunk.charge r.chunks i
    rw [weightAt_of_lookup hc, DaRelayChunk.charge] at hle
    rw [heldBytes, held]
    omega

theorem retained_eq_length {wireBytes : Nat} {txBytes : Bytes} (h : txBytes ≠ []) :
    retainedTxAccountingBytes wireBytes txBytes = txBytes.length := if_neg h

theorem orphanChunkAccountingBytes_eq_ok (hc : c.txBytes ≠ [])
    (h : orphanChunkAccountingBytes c = .ok n) : n = c.charge := by
  unfold orphanChunkAccountingBytes at h
  simp only [retained_eq_length hc] at h
  split at h
  · exact (checkedAdd_eq_ok.mp h).2
  · rename_i hp
    have hempty : c.payload = [] := by
      by_contra hne
      exact hp ⟨hc, hne⟩
    cases h
    rw [DaRelayChunk.charge, hempty]
    rfl

theorem orphanChunkAccountingBytes_of_lt (hc : c.txBytes ≠ []) (hlt : c.charge < 2 ^ 64) :
    orphanChunkAccountingBytes c = .ok c.charge := by
  unfold orphanChunkAccountingBytes
  simp only [retained_eq_length hc]
  split
  · exact checkedAdd_eq_ok.mpr ⟨hlt, rfl⟩
  · rename_i hp
    have hempty : c.payload = [] := by
      by_contra hne
      exact hp ⟨hc, hne⟩
    rw [DaRelayChunk.charge, hempty]
    rfl

theorem orphanChunkAccountingBytes_error (h : orphanChunkAccountingBytes c = .error e) :
    e = .accountingOverflow := by
  unfold orphanChunkAccountingBytes at h
  simp only at h
  split at h
  · exact (checkedAdd_eq_error.mp h).2
  · cases h

theorem recompute_loop {l : List DaRelayChunk} (hl : ∀ c ∈ l, c.txBytes ≠ []) :
    ∀ {acc acc' : Nat × PeerBytes}, l.foldlM recomputeChunk acc = .ok acc' →
      acc'.1 = acc.1 + (l.map fun c => c.txBytes.length).sum ∧
      acc'.2 = chargeAll DaRelayChunk.peerQuotaKey DaRelayChunk.charge l acc.2 := by
  induction l with
  | nil =>
    intro acc acc' h
    cases h
    exact ⟨rfl, rfl⟩
  | cons c l ih =>
    intro acc acc' h
    rw [List.forall_mem_cons] at hl
    simp only [List.foldlM_cons, recomputeChunk, bind_eq_ok, checkedAdd_eq_ok, addPeerBytes_eq_ok,
      Except.ok.injEq] at h
    obtain ⟨_, ⟨_, ⟨-, rfl⟩, n, hn, _, ⟨-, rfl⟩, rfl⟩, hrest⟩ := h
    obtain ⟨h1, h2⟩ := ih hl.2 hrest
    cases orphanChunkAccountingBytes_eq_ok hl.1 hn
    rw [retained_eq_length hl.1] at h1
    rw [chargeAll_cons, List.map_cons, List.sum_cons]
    exact ⟨by omega, h2⟩

theorem recompute_loop_of_lt {l : List DaRelayChunk} (hl : ∀ c ∈ l, c.txBytes ≠ []) :
    ∀ {acc : Nat × PeerBytes}, acc.1 ≤ total (fun n => n) acc.2 →
      total (fun n => n) acc.2 + (l.map DaRelayChunk.charge).sum < 2 ^ 64 →
      ∃ acc', l.foldlM recomputeChunk acc = .ok acc' := by
  induction l with
  | nil => exact fun _ _ => ⟨_, rfl⟩
  | cons c l ih =>
    intro acc hle hlt
    rw [List.forall_mem_cons] at hl
    rw [List.map_cons, List.sum_cons] at hlt
    have hc : c.txBytes.length ≤ c.charge := Nat.le_add_right _ _
    have hpeer := count_le_total acc.2 c.peerQuotaKey
    have h1 : checkedAdd acc.1 (retainedTxAccountingBytes c.wireBytes c.txBytes) =
        .ok (acc.1 + c.txBytes.length) := by
      rw [retained_eq_length hl.1]
      exact checkedAdd_eq_ok.mpr ⟨by omega, rfl⟩
    have h2 := orphanChunkAccountingBytes_of_lt hl.1 (by omega)
    have h3 : addPeerBytes acc.2 c.peerQuotaKey c.charge =
        .ok (Lib.charge acc.2 c.peerQuotaKey c.charge) :=
      addPeerBytes_eq_ok.mpr ⟨by omega, rfl⟩
    obtain ⟨acc', hacc'⟩ := @ih hl.2
      (acc.1 + c.txBytes.length, Lib.charge acc.2 c.peerQuotaKey c.charge)
      (by dsimp only; rw [total_charge]; omega) (by dsimp only; rw [total_charge]; omega)
    refine ⟨acc', ?_⟩
    rw [List.foldlM_cons, recomputeChunk, h1, ok_bind, h2, ok_bind, h3, ok_bind, ok_bind]
    exact hacc'

theorem recompute_loop_error {l : List DaRelayChunk} :
    ∀ {acc : Nat × PeerBytes}, l.foldlM recomputeChunk acc = .error e →
      e = .accountingOverflow := by
  induction l with
  | nil =>
    intro acc h
    cases h
  | cons c l ih =>
    intro acc h
    simp only [List.foldlM_cons, bind_eq_error, recomputeChunk, checkedAdd_eq_error] at h
    rcases h with (⟨-, rfl⟩ | ⟨_, -, h | ⟨_, -, h | ⟨_, -, h⟩⟩⟩) | ⟨_, -, h⟩
    · rfl
    · exact orphanChunkAccountingBytes_error h
    · exact addPeerBytes_error h
    · cases h
    · exact ih h

theorem mem_chunkValues :
    c ∈ (indexOrder.entries r.chunks).map Prod.snd ↔ ∃ i, r.chunks.lookup i = some c := by
  simp only [List.mem_map, indexOrder.mem_entries, Prod.exists, exists_eq_right]

theorem recomputeStart_spec (hr : r.Charged) :
    r.recomputeStart.1 = r.commit.elim 0 DaRelayCommit.charge ∧
    (∀ k, count r.recomputeStart.2 k =
      r.commit.elim 0 fun c => if c.peerQuotaKey = k then c.charge else 0) ∧
    total (fun n => n) r.recomputeStart.2 = r.commit.elim 0 DaRelayCommit.charge ∧
    NoZero r.recomputeStart.2 := by
  unfold recomputeStart
  cases hc : r.commit with
  | none => exact ⟨rfl, fun k => count_empty k, total_empty _, noZero_empty⟩
  | some c =>
    have hne := hr.commit c hc
    have hpeers : (∅ : PeerBytes).insert c.peerQuotaKey c.charge =
        Lib.charge ∅ c.peerQuotaKey c.charge := by
      rw [Lib.charge, count_empty, Nat.zero_add]
    simp only [retained_eq_length hne, Option.elim_some]
    change _ ∧ (∀ k, count ((∅ : PeerBytes).insert c.peerQuotaKey c.charge) k = _) ∧
      total _ ((∅ : PeerBytes).insert c.peerQuotaKey c.charge) = _ ∧
      NoZero ((∅ : PeerBytes).insert c.peerQuotaKey c.charge)
    rw [hpeers]
    refine ⟨rfl, fun k => ?_, ?_, noZero_charge noZero_empty (List.length_pos_iff.mpr hne)⟩
    · rw [count_charge, count_empty, Nat.zero_add]
    · rw [total_charge, total_empty, Nat.zero_add]

/-- **The cached counts.**  Recomputing a record changes its two cached counts only, and makes
them count its items. -/
theorem recomputeWireBytes_spec {r' : DaRelaySetRecord} (hr : r.Charged) (hholds : r.Holds)
    (h : r.recomputeWireBytes = .ok r') :
    (∃ w p, r' = { r with wireBytes := w, peerBytes := p }) ∧ r'.Cached := by
  simp only [recomputeWireBytes, bind_eq_ok, Except.ok.injEq] at h
  obtain ⟨acc, hloop, rfl⟩ := h
  have hl : ∀ c ∈ (indexOrder.entries r.chunks).map Prod.snd, c.txBytes ≠ [] := by
    intro c hc
    obtain ⟨i, hi⟩ := mem_chunkValues.mp hc
    exact hr.chunk i c hi
  obtain ⟨hwire, hpeers⟩ := recompute_loop hl hloop
  obtain ⟨hs1, hs2, hs3, hs4⟩ := recomputeStart_spec hr
  refine ⟨⟨_, _, rfl⟩, ⟨?_, ?_, ?_, ?_⟩⟩
  · intro k
    dsimp only
    rw [hpeers, count_chargeAll, hs2, List.map_map]
    exact congrArg _ (indexOrder.sum_values
      (fun c : DaRelayChunk => if c.peerQuotaKey = k then c.charge else 0) r.chunks)
  · dsimp only
    rw [hpeers, total_chargeAll, hs3, List.map_map]
    exact congrArg _ (indexOrder.sum_values DaRelayChunk.charge _)
  · dsimp only
    rw [hpeers]
    exact noZero_chargeAll _ _ (fun c hc => Nat.lt_of_lt_of_le
      (List.length_pos_iff.mpr (hl c hc)) (Nat.le_add_right _ _)) hs4
  · dsimp only
    rw [hwire, hs1, List.map_map]
    rcases hholds with hc | ⟨i, c, hc⟩
    · obtain ⟨c, hc⟩ := Option.ne_none_iff_exists'.mp hc
      have hlen := List.length_pos_iff.mpr (hr.commit c hc)
      rw [hc, Option.elim_some, DaRelayCommit.charge]
      omega
    · have hlen := List.length_pos_iff.mpr (hr.chunk i c hc)
      have hle := weightAt_le_total (fun c : DaRelayChunk => c.txBytes.length) r.chunks i
      rw [weightAt_of_lookup hc] at hle
      have hsum := indexOrder.sum_values (fun c : DaRelayChunk => c.txBytes.length) r.chunks
      change 0 < _ + ((indexOrder.entries r.chunks).map fun p => p.2.txBytes.length).sum
      omega

theorem recomputeWireBytes_of_lt (hr : r.Charged) (hlt : r.heldBytes < 2 ^ 64) :
    ∃ r', r.recomputeWireBytes = .ok r' := by
  have hl : ∀ c ∈ (indexOrder.entries r.chunks).map Prod.snd, c.txBytes ≠ [] := by
    intro c hc
    obtain ⟨i, hi⟩ := mem_chunkValues.mp hc
    exact hr.chunk i c hi
  obtain ⟨hs1, -, hs3, -⟩ := recomputeStart_spec hr
  have hsum : (((indexOrder.entries r.chunks).map Prod.snd).map DaRelayChunk.charge).sum =
      total DaRelayChunk.charge r.chunks := by
    rw [List.map_map]
    exact indexOrder.sum_values DaRelayChunk.charge _
  obtain ⟨acc, hacc⟩ := @recompute_loop_of_lt _ hl r.recomputeStart (by omega)
    (by rw [hs3, hsum]; exact hlt)
  exact ⟨_, by rw [recomputeWireBytes, hacc, ok_bind]⟩

theorem recomputeWireBytes_error (h : r.recomputeWireBytes = .error e) :
    e = .accountingOverflow := by
  simp only [recomputeWireBytes, bind_eq_error] at h
  rcases h with h | ⟨_, -, h⟩
  · exact recompute_loop_error h
  · cases h

/-! ### What a record is charged -/

/-- An open record is charged for its items, a complete set is not. -/
def orphanCharge (r : DaRelaySetRecord) : Nat := if r.state = .completeSet then 0 else r.heldBytes

def peerCharge (key : PeerQuotaKey) (r : DaRelaySetRecord) : Nat :=
  if r.state = .completeSet then 0 else r.heldBy key

def commitOverhead (r : DaRelaySetRecord) : Nat :=
  if r.state = .completeSet then 0 else r.commit.elim 0 DaRelayCommit.charge

theorem peerCharge_le_orphanCharge (key : PeerQuotaKey) (r : DaRelaySetRecord) :
    r.peerCharge key ≤ r.orphanCharge := by
  unfold peerCharge orphanCharge
  split
  · exact Nat.le_refl _
  · exact heldBy_le_heldBytes key r

theorem commitOverhead_le_orphanCharge (r : DaRelaySetRecord) :
    r.commitOverhead ≤ r.orphanCharge := by
  unfold commitOverhead orphanCharge
  split
  · exact Nat.le_refl _
  · exact Nat.le_add_right _ _

theorem sum_peerBytes (r : DaRelaySetRecord) :
    ((peerOrder.entries r.peerBytes).map Prod.snd).sum = total (fun n => n) r.peerBytes :=
  peerOrder.sum_values (fun n => n) r.peerBytes

theorem orphanWireBytes_eq_ok (hr : r.state ≠ .completeSet → r.Cached)
    (h : r.orphanWireBytes = .ok n) : n = r.orphanCharge ∧ n < 2 ^ 64 := by
  unfold orphanWireBytes at h
  unfold orphanCharge
  split at h
  · rename_i hs
    cases h
    exact ⟨by rw [if_pos hs], by decide⟩
  · rename_i hs
    obtain ⟨hn, hlt⟩ := sum_checked h
    rw [sum_peerBytes, (hr hs).whole, Nat.zero_add] at hn
    rw [if_neg hs]
    exact ⟨hn, hlt (by decide)⟩

theorem orphanWireBytes_of_lt (hr : r.state ≠ .completeSet → r.Cached)
    (hlt : r.orphanCharge < 2 ^ 64) : r.orphanWireBytes = .ok r.orphanCharge := by
  unfold orphanWireBytes
  unfold orphanCharge at hlt ⊢
  split
  · rfl
  · rename_i hs
    rw [if_neg hs] at hlt
    have hsum := sum_peerBytes r
    rw [(hr hs).whole] at hsum
    rw [sum_checked_of_lt (by rw [hsum]; omega), hsum, Nat.zero_add]

theorem orphanWireBytes_error (h : r.orphanWireBytes = .error e) : e = .accountingOverflow := by
  unfold orphanWireBytes at h
  split at h
  · cases h
  · exact sum_checked_error h

theorem orphanCommitBytes_eq (hr : r.Charged) : r.orphanCommitBytes = r.commitOverhead := by
  unfold orphanCommitBytes commitOverhead
  split
  · rfl
  · cases hc : r.commit with
    | none => rfl
    | some c => exact retained_eq_length (hr.commit c hc)

theorem count_orphanPeerBytes (hr : r.state ≠ .completeSet → r.Cached) (k : PeerQuotaKey) :
    count (r.orphanPeerBytes.getD ∅) k = r.peerCharge k := by
  unfold orphanPeerBytes peerCharge
  split
  · exact count_empty k
  · rename_i hs
    exact (hr hs).peer k

end DaRelaySetRecord

/-! ## 3. Stored items -/

theorem mem_chunkIndexes {n : UInt16} : i ∈ chunkIndexes n ↔ i < n := by
  rw [chunkIndexes, List.mem_map, UInt16.lt_iff_toNat_lt]
  constructor
  · rintro ⟨j, hj, rfl⟩
    have hlt := n.toNat_lt
    rw [List.mem_range] at hj
    rwa [UInt16.toNat_ofNat_of_lt' (Nat.lt_trans hj hlt)]
  · intro h
    exact ⟨i.toNat, List.mem_range.mpr h, UInt16.ofNat_toNat⟩

section stored

variable [Crypto]

/-- The bytes parse with nothing left over. -/
def ParsesTo (txBytes : Bytes) (tx : Tx) : Prop :=
  ∃ p, parseTx txBytes = .ok p ∧ p.consumed = txBytes.length ∧ p.tx = tx

/-- The payload in the bytes of a transaction. -/
def payloadIn (txBytes : Bytes) : Bytes :=
  match parseTx txBytes with
  | .ok p => p.tx.daPayload
  | .error _ => []

theorem ParsesTo.payloadIn_eq {txBytes : Bytes} {tx : Tx} (h : ParsesTo txBytes tx) :
    payloadIn txBytes = tx.daPayload := by
  obtain ⟨p, hp, -, rfl⟩ := h
  rw [payloadIn, hp]

/-- A stored commit is what its bytes say. -/
structure StoredCommit (daId : Bytes32) (c : DaRelayCommit) : Prop where
  bytes : c.wireBytes = c.txBytes.length ∧ c.txBytes ≠ []
  count : c.chunkCount ≠ 0 ∧ c.chunkCount.toNat ≤ maxDaChunkCount
  source : ∃ tx core, ParsesTo c.txBytes tx ∧ tx.txKind = 0x01 ∧ tx.daCommitCore = some core ∧
    core.daId = daId ∧ core.chunkCount = c.chunkCount ∧
    relayDaCommitPayloadCommitment tx = some c.payloadCommitment

/-- A stored chunk is what its bytes say; `V` is what staging has checked of the transaction. -/
structure StoredChunk (V : Tx → Prop) (daId : Bytes32) (index : UInt16) (c : DaRelayChunk) :
    Prop where
  bytes : c.wireBytes = c.txBytes.length ∧ c.txBytes ≠ []
  source : ∃ tx core, ParsesTo c.txBytes tx ∧ tx.txKind = 0x02 ∧ tx.daChunkCore = some core ∧
    core.daId = daId ∧ core.chunkIndex = index ∧ V tx

/-- The payload in the bytes of a stored chunk. -/
def DaRelayChunk.storedPayload (c : DaRelayChunk) : Bytes :=
  match parseTx c.txBytes with
  | .ok p => p.tx.daPayload
  | .error _ => []

theorem storedPayload_eq {tx : Tx} (h : ParsesTo c.txBytes tx) :
    c.storedPayload = tx.daPayload := by
  obtain ⟨p, hp, -, rfl⟩ := h
  rw [DaRelayChunk.storedPayload, hp]

namespace DaRelaySetRecord

/-- The payload in the bytes of the chunk at an index. -/
def payloadAt (r : DaRelaySetRecord) (index : UInt16) : Bytes :=
  (r.chunks.lookup index).elim [] DaRelayChunk.storedPayload

/-! ## 4. Open records -/

/-- An open record of `d`, its cached counts apart. -/
structure Draft (V : Tx → Prop) (d : Bytes32) (r : DaRelaySetRecord) : Prop where
  daId : r.daId = d
  isOpen : r.state ≠ .completeSet
  commit : ∀ c, r.commit = some c → StoredCommit d c
  chunk : ∀ i c, r.chunks.lookup i = some c → StoredChunk V d i c ∧ c.payload = c.storedPayload
  within : ∀ c, r.commit = some c → ∀ i k, r.chunks.lookup i = some k → i < c.chunkCount
  unmarked : r.replaceableChunks = ∅

/-- A closed record of `d`. -/
structure Complete (V : Tx → Prop) (d : Bytes32) (r : DaRelaySetRecord) : Prop where
  daId : r.daId = d
  isClosed : r.state = .completeSet
  unmarked : r.replaceableChunks = ∅
  chunk : ∀ i c, r.chunks.lookup i = some c → StoredChunk V d i c
  commit : ∃ c, r.commit = some c ∧ StoredCommit d c ∧
    (∀ i, (∃ k, r.chunks.lookup i = some k) ↔ i < c.chunkCount) ∧
    r.payloadBytes = ((chunkIndexes c.chunkCount).map fun i => (r.payloadAt i).length).sum ∧
    c.payloadCommitment = sha3_256 ((chunkIndexes c.chunkCount).flatMap r.payloadAt)

/-- An open record that is stored has an item, and a commit in it lacks a chunk. -/
structure Pending (r : DaRelaySetRecord) : Prop where
  holds : r.Holds
  gap : ∀ c, r.commit = some c → ∃ i, i < c.chunkCount ∧ r.chunks.lookup i = none

/-- What the relay keeps under `d`. -/
def Kept (V : Tx → Prop) (d : Bytes32) (r : DaRelaySetRecord) : Prop :=
  (r.Draft V d ∧ r.Pending ∧ r.Cached) ∨ r.Complete V d

variable {V : Tx → Prop} {d : Bytes32} {r r' : DaRelaySetRecord}

theorem Draft.charged (h : r.Draft V d) : r.Charged where
  commit := fun c hc => (h.commit c hc).bytes.2
  chunk := fun i c hc => (h.chunk i c hc).1.bytes.2

theorem Kept.charged (h : r.Kept V d) : r.Charged := by
  rcases h with ⟨h, -, -⟩ | h
  · exact h.charged
  · obtain ⟨c, hc, hstored, -⟩ := h.commit
    refine ⟨fun c' hc' => ?_, fun i k hk => (h.chunk i k hk).bytes.2⟩
    rw [hc] at hc'
    cases hc'
    exact hstored.bytes.2

theorem Kept.cached (h : r.Kept V d) : r.state ≠ .completeSet → r.Cached := by
  intro hs
  rcases h with ⟨-, -, h⟩ | h
  · exact h
  · exact absurd h.isClosed hs

theorem Kept.daId_eq (h : r.Kept V d) : r.daId = d := by
  rcases h with ⟨h, -, -⟩ | h
  · exact h.daId
  · exact h.daId

theorem Kept.draft (h : r.Kept V d) (hs : r.state ≠ .completeSet) :
    r.Draft V d ∧ r.Pending ∧ r.Cached := by
  rcases h with h | h
  · exact h
  · exact absurd h.isClosed hs

theorem Kept.complete (h : r.Kept V d) (hs : r.state = .completeSet) : r.Complete V d := by
  rcases h with ⟨h, -, -⟩ | h
  · exact absurd hs h.isOpen
  · exact h

theorem Draft.congr (h : r.Draft V d) (hid : r'.daId = r.daId) (hs : r'.state ≠ .completeSet)
    (hcommit : r'.commit = r.commit) (hchunks : r'.chunks = r.chunks)
    (hmarks : r'.replaceableChunks = r.replaceableChunks) : r'.Draft V d where
  daId := hid.trans h.daId
  isOpen := hs
  commit := by
    rw [hcommit]
    exact h.commit
  chunk := by
    rw [hchunks]
    exact h.chunk
  within := by
    rw [hcommit, hchunks]
    exact h.within
  unmarked := hmarks.trans h.unmarked

theorem Draft.drop (h : r.Draft V d) (hid : r'.daId = r.daId) (hs : r'.state ≠ .completeSet)
    (hcommit : r'.commit = r.commit ∨ r'.commit = none)
    (hchunks : ∀ i c, r'.chunks.lookup i = some c → r.chunks.lookup i = some c)
    (hmarks : r'.replaceableChunks ⊆ r.replaceableChunks) : r'.Draft V d := by
  have hold : ∀ c, r'.commit = some c → r.commit = some c := by
    intro c hc
    rcases hcommit with hsame | hnone
    · rw [← hsame, hc]
    · rw [hnone] at hc
      cases hc
  exact ⟨hid.trans h.daId, hs, fun c hc => h.commit c (hold c hc),
    fun i c hc => h.chunk i c (hchunks i c hc),
    fun c hc i k hk => h.within c (hold c hc) i k (hchunks i k hk),
    Finset.subset_empty.mp (h.unmarked ▸ hmarks)⟩

theorem draft_new (d : Bytes32) : (DaRelaySetRecord.new d).Draft V d where
  daId := rfl
  isOpen := nofun
  commit := nofun
  chunk := by
    intro i c hc
    rw [new, Finmap.lookup_empty] at hc
    cases hc
  within := nofun
  unmarked := rfl

omit [Crypto] in
theorem lookup_of_eraseAll {m : Finmap fun _ : UInt16 => DaRelayChunk} {indexes : List UInt16}
    (h : (eraseAll indexes m).lookup i = some c) : i ∉ indexes ∧ m.lookup i = some c := by
  rw [lookup_eraseAll] at h
  split at h
  · cases h
  · rename_i hi
    exact ⟨hi, h⟩

theorem Draft.recompute (h : r.Draft V d) (hholds : r.Holds)
    (hr : r.recomputeWireBytes = .ok r') :
    r'.Draft V d ∧ r'.Cached ∧ ∃ w p, r' = { r with wireBytes := w, peerBytes := p } := by
  obtain ⟨⟨w, p, rfl⟩, hcached⟩ := recomputeWireBytes_spec h.charged hholds hr
  exact ⟨h.congr rfl h.isOpen rfl rfl rfl, hcached, w, p, rfl⟩

theorem Draft.withCommit (h : r.Draft V d) (ttlBlocks : Nat) {c : DaRelayCommit}
    (hc : StoredCommit d c) :
    ({ r with commit := some c, state := .stagedCommit,
              ttlBlocksRemaining := ttlBlocks } : DaRelaySetRecord).pruneChunksOutsideCommit.Draft
      V d := by
  refine ⟨h.daId, nofun, ?_, ?_, ?_, ?_⟩
  · intro c' hc'
    cases hc'
    exact hc
  · intro i k hk
    simp only [pruneChunksOutsideCommit, indexOrder.lookup_retain] at hk
    split at hk
    · exact h.chunk i k hk
    · cases hk
  · intro c' hc' i k hk
    cases hc'
    simp only [pruneChunksOutsideCommit, indexOrder.lookup_retain] at hk
    split at hk
    · rename_i hlt
      exact of_decide_eq_true hlt
    · cases hk
  · dsimp only [pruneChunksOutsideCommit]
    rw [h.unmarked]
    rfl

theorem Draft.withChunk (h : r.Draft V d) (ttlBlocks : Nat) (hc : StoredChunk V d c.chunkIndex c)
    (hp : c.payload = c.storedPayload) (hinsert : r.validateChunkInsert c.chunkIndex = .ok ()) :
    (r.withChunk ttlBlocks c).Draft V d := by
  have hcommit : (r.withChunk ttlBlocks c).commit = r.commit := by
    unfold DaRelaySetRecord.withChunk
    dsimp only
    split <;> rfl
  have hchunks : (r.withChunk ttlBlocks c).chunks = r.chunks.insert c.chunkIndex c := by
    unfold DaRelaySetRecord.withChunk
    dsimp only
    split <;> rfl
  have hid : (r.withChunk ttlBlocks c).daId = r.daId := by
    unfold DaRelaySetRecord.withChunk
    dsimp only
    split <;> rfl
  refine ⟨hid.trans h.daId, ?_, ?_, ?_, ?_, ?_⟩
  · unfold DaRelaySetRecord.withChunk
    dsimp only
    split
    · exact nofun
    · exact h.isOpen
  · rw [hcommit]
    exact h.commit
  · intro i k hk
    rw [hchunks, lookup_insert_eq] at hk
    split at hk
    · rename_i heq
      cases hk
      exact ⟨heq ▸ hc, hp⟩
    · exact h.chunk i k hk
  · intro commit hsome i k hk
    rw [hcommit] at hsome
    rw [hchunks, lookup_insert_eq] at hk
    split at hk
    · rename_i heq
      rw [heq]
      unfold validateChunkInsert at hinsert
      split at hinsert
      · rename_i hisSome
        obtain ⟨old, hold⟩ := Option.isSome_iff_exists.mp hisSome
        exact h.within commit hsome _ old hold
      · rw [hsome] at hinsert
        simp only [rejectIf_eq_ok] at hinsert
        exact UInt16.not_le.mp hinsert
    · exact h.within commit hsome i k hk
  · unfold DaRelaySetRecord.withChunk
    dsimp only
    split
    · dsimp only
      rw [h.unmarked]
      rfl
    · rw [h.unmarked]
      rfl

omit [Crypto] in
theorem holds_withChunk (ttlBlocks : Nat) (c : DaRelayChunk) : (r.withChunk ttlBlocks c).Holds := by
  refine .inr ⟨c.chunkIndex, c, ?_⟩
  unfold DaRelaySetRecord.withChunk
  dsimp only
  split <;> exact Finmap.lookup_insert _

/-- A chunk is only put where there is none: no chunk is ever marked as replaceable. -/
theorem Draft.insert_new (h : r.Draft V d) (hinsert : r.validateChunkInsert i = .ok ()) :
    r.chunks.lookup i = none := by
  unfold validateChunkInsert at hinsert
  split at hinsert
  · rw [rejectIf_eq_ok, h.unmarked] at hinsert
    exact absurd (Finset.notMem_empty i) hinsert
  · rename_i hnone
    exact Option.not_isSome_iff_eq_none.mp hnone

/-! ## 5. Completion -/

omit [Crypto] in
theorem completionSnapshot_eq_some {snapshot : DaRelayCompletionSnapshot}
    (h : r.completionSnapshot = some snapshot) : ∃ c, r.commit = some c ∧
      c.payloadCommitment = snapshot.payloadCommitmentExpected ∧
      (chunkIndexes c.chunkCount).map r.completionChunk = snapshot.chunks.map some := by
  unfold completionSnapshot at h
  cases hc : r.commit with
  | none =>
    rw [hc] at h
    cases h
  | some c =>
    rw [hc] at h
    dsimp only at h
    split at h
    · cases h
    · obtain ⟨chunks, hchunks, rfl⟩ := Option.map_eq_some_iff.mp h
      exact ⟨c, rfl, rfl, map_eq_of_mapM hchunks⟩

omit [Crypto] in
theorem completionChunk_eq_some {k : DaRelayCompletionChunk} (h : r.completionChunk i = some k) :
    ∃ c, r.chunks.lookup i = some c ∧ k.payload = c.payload ∧ k.chunkIndex = i := by
  unfold completionChunk at h
  split at h
  · cases h
  · obtain ⟨c, hc, rfl⟩ := Option.map_eq_some_iff.mp h
    exact ⟨c, hc, rfl, rfl⟩

omit [Crypto] in
theorem exists_of_completionSnapshot {c : DaRelayCommit} {chunks : List DaRelayCompletionChunk}
    (h : (chunkIndexes c.chunkCount).map r.completionChunk = chunks.map some)
    (hi : i < c.chunkCount) : ∃ k, r.completionChunk i = some k ∧ k ∈ chunks := by
  have hmem : r.completionChunk i ∈ (chunkIndexes c.chunkCount).map r.completionChunk :=
    List.mem_map_of_mem (mem_chunkIndexes.mpr hi)
  rw [h] at hmem
  obtain ⟨k, hk, heq⟩ := List.mem_map.mp hmem
  exact ⟨k, heq.symm, hk⟩

theorem Draft.gap_of_none (h : r.Draft V d) (hnone : r.completionSnapshot = none) :
    ∀ c, r.commit = some c → ∃ i, i < c.chunkCount ∧ r.chunks.lookup i = none := by
  intro c hc
  by_contra hgap
  have hall : ∀ i ∈ chunkIndexes c.chunkCount, ∃ k, r.completionChunk i = some k := by
    intro i hi
    cases hk : r.chunks.lookup i with
    | none => exact absurd ⟨i, mem_chunkIndexes.mp hi, hk⟩ hgap
    | some k =>
      rw [completionChunk, h.unmarked, if_neg (Finset.notMem_empty i), hk]
      exact ⟨_, rfl⟩
  obtain ⟨chunks, hchunks⟩ := exists_mapM_some hall
  rw [completionSnapshot, hc] at hnone
  dsimp only at hnone
  rw [if_neg h.isOpen, hchunks] at hnone
  cases hnone

theorem Draft.snapshot_payloads (h : r.Draft V d) {c : DaRelayCommit}
    {chunks : List DaRelayCompletionChunk}
    (hchunks : (chunkIndexes c.chunkCount).map r.completionChunk = chunks.map some) :
    chunks.map DaRelayCompletionChunk.payload = (chunkIndexes c.chunkCount).map r.payloadAt := by
  have hsome : (chunkIndexes c.chunkCount).map (fun i => some (r.payloadAt i)) =
      (chunks.map DaRelayCompletionChunk.payload).map some := by
    have hmap := congrArg (List.map (Option.map DaRelayCompletionChunk.payload)) hchunks
    rw [List.map_map, List.map_map] at hmap
    rw [List.map_map]
    refine Eq.trans (List.map_congr_left fun i hi => ?_) hmap
    obtain ⟨k, hk, -⟩ := exists_of_completionSnapshot hchunks (mem_chunkIndexes.mp hi)
    obtain ⟨ch, hch, hpay, -⟩ := completionChunk_eq_some hk
    rw [Function.comp_apply, hk, Option.map_some, hpay, (h.chunk i ch hch).2, payloadAt, hch]
    rfl
  have hinj : Function.Injective (List.map (some : Bytes → Option Bytes)) :=
    List.map_injective_iff.mpr fun _ _ => Option.some.inj
  refine (hinj ?_).symm
  rw [List.map_map]
  exact hsome

/-- **Completion.**  A draft whose payloads hash to the commitment becomes a complete set. -/
theorem Draft.markComplete (h : r.Draft V d) {snapshot : DaRelayCompletionSnapshot}
    {payloadBytes : Nat} (hsnap : r.completionSnapshot = some snapshot)
    (hpay : snapshot.payloadCommitment =
      .ok (payloadBytes, snapshot.payloadCommitmentExpected)) :
    (r.markComplete payloadBytes).Complete V d := by
  obtain ⟨c, hc, hexp, hchunks⟩ := completionSnapshot_eq_some hsnap
  have hlookup : ∀ i, (r.markComplete payloadBytes).chunks.lookup i =
      (r.chunks.lookup i).map fun chunk => { chunk with payload := [] } :=
    fun i => indexOrder.lookup_updateAll _ _ i
  have hsame : (r.markComplete payloadBytes).payloadAt = r.payloadAt := by
    funext i
    rw [payloadAt, payloadAt, hlookup]
    cases r.chunks.lookup i <;> rfl
  have hpayloads := h.snapshot_payloads hchunks
  simp only [DaRelayCompletionSnapshot.payloadCommitment, bind_eq_ok, Except.ok.injEq,
    Prod.mk.injEq] at hpay
  obtain ⟨_, hsum, rfl, hhash⟩ := hpay
  refine ⟨h.daId, rfl, rfl, ?_, c, hc, h.commit c hc, ?_, ?_, ?_⟩
  · intro i k hk
    rw [hlookup] at hk
    obtain ⟨k', hk', rfl⟩ := Option.map_eq_some_iff.mp hk
    obtain ⟨hbytes, hsource⟩ := (h.chunk i k' hk').1
    exact ⟨hbytes, hsource⟩
  · intro i
    constructor
    · rintro ⟨k, hk⟩
      rw [hlookup] at hk
      obtain ⟨k', hk', -⟩ := Option.map_eq_some_iff.mp hk
      exact h.within c hc i k' hk'
    · intro hi
      obtain ⟨k, hk, -⟩ := exists_of_completionSnapshot hchunks hi
      obtain ⟨ch, hch, -⟩ := completionChunk_eq_some hk
      exact ⟨_, by rw [hlookup, hch]; rfl⟩
  · have hlen : snapshot.chunks.map (fun chunk => chunk.payload.length) =
        (chunkIndexes c.chunkCount).map fun i => (r.payloadAt i).length := by
      have := congrArg (List.map List.length) hpayloads
      rwa [List.map_map, List.map_map] at this
    rw [hsame, ← hlen]
    have := (sum_checked hsum).1
    rwa [Nat.zero_add] at this
  · rw [hsame, hexp, ← hhash, List.flatMap_def, List.flatMap_def, hpayloads]

theorem Complete.validateChunkInsert_ne_ok (h : r.Complete V d) (i : UInt16) :
    r.validateChunkInsert i = .error .duplicateChunk ∨
      r.validateChunkInsert i = .error .chunkIndexOutsideCommit := by
  obtain ⟨c, hc, -, hindexes, -⟩ := h.commit
  unfold validateChunkInsert
  split
  · exact .inl (rejectIf_pos (by rw [h.unmarked]; exact Finset.notMem_empty i))
  · rename_i hnone
    rw [hc]
    refine .inr (rejectIf_pos ?_)
    by_contra hlt
    obtain ⟨k, hk⟩ := (hindexes i).mpr (UInt16.not_le.mp hlt)
    rw [hk] at hnone
    exact hnone rfl

end DaRelaySetRecord

end stored

end Rubin.Node
