/-
# Runs of the DA relay

Four methods change the relay: staging a transaction, ageing the open records, releasing a peer and
consuming a complete set.  Each is shown here to keep the books of `DaRelayInv.lean`, so that they
balance after any run, and what each can fail with is read off on the way.
-/
import Rubin.Node.DaRelayInv

namespace Rubin.Node

open Rubin.Lib Rubin.Consensus

namespace DaRelayState

open DaRelaySetRecord

variable [Crypto] {V : Tx → Prop} {s s' : DaRelayState} {r : DaRelaySetRecord} {d : Bytes32}

/-! ## 1. Staging -/

/-- What is promised of a staging step from `s`.  A refused payload may cost the chunks that were
there; it costs nothing where `strict` holds. -/
structure Outcome (V : Tx → Prop) (strict : Prop) (s : DaRelayState)
    (res : EStateM.Result DaRelayError DaRelayState Unit) : Prop where
  inv : (endState res).Inv V
  caps : (endState res).caps = s.caps
  closed : ∀ d r, s.setsByDaId.lookup d = some r → r.state = .completeSet →
    (endState res).setsByDaId.lookup d = some r
  error : ∀ e s', res = .error e s' →
    e ≠ .accountingUnderflow ∧ (e ≠ .payloadCommitmentMismatch ∨ strict → s' = s)

variable {strict : Prop}

theorem Outcome.mono {strict' : Prop} {res : EStateM.Result DaRelayError DaRelayState Unit}
    (h : Outcome V strict s res) (himp : strict' → strict) : Outcome V strict' s res where
  inv := h.inv
  caps := h.caps
  closed := h.closed
  error := fun e s' he => ⟨(h.error e s' he).1, fun hor => (h.error e s' he).2 (hor.imp_right himp)⟩

variable {e : DaRelayError} {l : List DaRelayCompletionChunk} {snapshot : DaRelayCompletionSnapshot}
  {c : DaRelayChunk} {i : UInt16} {blocks : Nat} {key : PeerQuotaKey}

theorem Outcome.refused (hs : s.Inv V) (he : e ≠ .accountingUnderflow) :
    Outcome V strict s (.error e s) where
  inv := hs
  caps := rfl
  closed := fun _ _ hr _ => hr
  error := by
    intro e' s' h
    cases h
    exact ⟨he, fun _ => rfl⟩

theorem Outcome.nothing (hs : s.Inv V) : Outcome V strict s (.ok () s) where
  inv := hs
  caps := rfl
  closed := fun _ _ hr _ => hr
  error := nofun

theorem Outcome.lift_bind {α : Type} {x : Except DaRelayError α} {f : α → DaRelayM Unit}
    (hs : s.Inv V) (herr : ∀ e, x = .error e → e ≠ .accountingUnderflow)
    (hok : ∀ a, x = .ok a → Outcome V strict s (f a s)) :
    Outcome V strict s ((liftE x >>= f) s) := by
  cases hx : x with
  | error e => exact .refused hs (herr e hx)
  | ok a => exact hok a hx

theorem Outcome.reject_bind {bad : Prop} [Decidable bad] {f : Unit → DaRelayM Unit} (hs : s.Inv V)
    (he : e ≠ .accountingUnderflow) (hok : ¬ bad → Outcome V strict s (f () s)) :
    Outcome V strict s ((liftE (rejectIf bad e) >>= f) s) := by
  by_cases h : bad
  · rw [rejectIf_pos h]
    exact .refused hs he
  · rw [rejectIf_neg h]
    exact hok h

/-- What was done is kept when the payload is refused afterwards. -/
theorem Outcome.then_mismatch {m : DaRelayM Unit} (h : Outcome V strict s (m s))
    (hsame : strict → ∀ u s₁, m s = .ok u s₁ → s₁ = s) :
    Outcome V strict s ((m >>= fun _ => throw .payloadCommitmentMismatch) s) := by
  cases hm : m s with
  | ok u s₁ =>
    rw [hm] at h
    rw [estate_bind_eq_error.mpr (.inr ⟨u, s₁, hm, rfl⟩)]
    refine ⟨h.inv, h.caps, h.closed, ?_⟩
    intro e s' heq
    cases heq
    refine ⟨nofun, fun hor => ?_⟩
    rcases hor with hne | hstrict
    · exact absurd rfl hne
    · exact hsame hstrict u s₁ hm
  | error e s₁ =>
    rw [hm] at h
    rw [estate_bind_eq_error.mpr (.inl hm)]
    exact ⟨h.inv, h.caps, h.closed, h.error⟩

omit [Crypto] in
theorem noRoom_ne_underflow (h : e.NoRoom) : e ≠ .accountingUnderflow := by
  rintro rfl
  rcases h with h | h <;> cases h

/-- There is no complete set under `d`. -/
def OpenAt (s : DaRelayState) (d : Bytes32) : Prop :=
  ∀ old, s.setsByDaId.lookup d = some old → old.state ≠ .completeSet

theorem applyRecord_outcome (hs : s.Inv V) (hopen : s.OpenAt d) (hr : r.Kept V d)
    (ht : s.Stamped r) : Outcome V strict s (applyRecord r s) := by
  have hid := hr.daId_eq
  subst hid
  cases h : applyRecord r s with
  | ok u s₁ =>
    obtain ⟨hinv, hsets, hcaps⟩ := applyRecord_eq_ok hs hr ht h
    refine ⟨hinv, hcaps, ?_, nofun⟩
    intro d r' hd hclosed
    rw [endState_ok, hsets, lookup_insert_eq, if_neg]
    · exact hd
    · rintro rfl
      exact hopen r' hd hclosed
  | error e s₁ =>
    obtain ⟨rfl, hroom⟩ := applyRecord_eq_error hs h
    exact .refused hs (noRoom_ne_underflow hroom)

omit [Crypto] in
theorem Stamped.congr {r' : DaRelaySetRecord} (h : s.Stamped r) (hid : r'.daId = r.daId)
    (htime : r'.receivedTime = r.receivedTime) : s.Stamped r' := by
  unfold Stamped at *
  rwa [hid, htime]

omit [Crypto] in
theorem recompute_ne_underflow (h : r.recomputeWireBytes = .error e) :
    e ≠ .accountingUnderflow := by
  rw [recomputeWireBytes_error h]
  simp

omit [Crypto] in
theorem length_matchingFrom : ∀ {indexes : List UInt16},
    DaRelayCompletionSnapshot.matchingFrom r l = some indexes → indexes.length ≤ l.length := by
  induction l with
  | nil =>
    intro indexes h
    cases h
    exact Nat.le_refl _
  | cons k l ih =>
    intro indexes h
    unfold DaRelayCompletionSnapshot.matchingFrom at h
    split at h
    · exact (ih h).trans (Nat.le_succ _)
    · split at h
      · cases h
      · obtain ⟨rest, hrest, rfl⟩ := Option.map_eq_some_iff.mp h
        exact Nat.succ_le_succ (ih hrest)

omit [Crypto] in
/-- A record that lacks a chunk of the snapshot matches it in fewer places. -/
theorem matchingFrom_lt {k : DaRelayCompletionChunk} (hk : k ∈ l)
    (hnone : r.chunks.lookup k.chunkIndex = none) : ∀ {indexes : List UInt16},
    DaRelayCompletionSnapshot.matchingFrom r l = some indexes → indexes.length < l.length := by
  induction l with
  | nil => cases hk
  | cons k' l ih =>
    intro indexes h
    unfold DaRelayCompletionSnapshot.matchingFrom at h
    rcases List.mem_cons.mp hk with rfl | hk
    · rw [hnone] at h
      exact Nat.lt_succ_of_le (length_matchingFrom h)
    · split at h
      · exact (ih hk h).trans (Nat.lt_succ_self _)
      · split at h
        · cases h
        · obtain ⟨rest, hrest, rfl⟩ := Option.map_eq_some_iff.mp h
          exact Nat.succ_lt_succ (ih hk hrest)

/-- When a chunk is staged, the stored record lacks it. -/
def LacksStaged (s : DaRelayState) (r : DaRelaySetRecord) (action : CompletionMismatchAction) :
    Prop :=
  action = .markMatchingChunksReplaceable → ∃ i c, r.chunks.lookup i = some c ∧
    ∀ old, s.setsByDaId.lookup r.daId = some old → old.chunks.lookup i = none

omit [Crypto] in
/-- **No chunk is ever marked as replaceable.**  The stored record lacks the chunk that has just
been staged, so it never matches the whole snapshot. -/
theorem keepAfterMismatch_mark (hsnap : r.completionSnapshot = some snapshot)
    (hwithin : ∀ c, r.commit = some c → ∀ i k, r.chunks.lookup i = some k → i < c.chunkCount)
    (hlacks : s.LacksStaged r .markMatchingChunksReplaceable) :
    keepAfterMismatch snapshot r .markMatchingChunksReplaceable s = .ok () s := by
  obtain ⟨i, ch, hch, hold⟩ := hlacks rfl
  obtain ⟨c, hc, -, hchunks⟩ := completionSnapshot_eq_some hsnap
  obtain ⟨k, hk, hmem⟩ := exists_of_completionSnapshot hchunks (hwithin c hc i ch hch)
  obtain ⟨-, -, -, hindex⟩ := completionChunk_eq_some hk
  rw [keepAfterMismatch, estate_get_bind]
  cases hlook : s.setsByDaId.lookup r.daId with
  | none => rfl
  | some old =>
    dsimp only
    cases hmatch : snapshot.matchingChunkIndexes old with
    | none => rfl
    | some indexes =>
      have hlt := matchingFrom_lt hmem (by rw [hindex]; exact hold old hlook) hmatch
      dsimp only
      rw [if_neg (Nat.ne_of_lt hlt)]
      rfl

omit [Crypto] in
theorem matchingFrom_self (hl : ∀ k ∈ l, r.completionChunk k.chunkIndex = some k) :
    DaRelayCompletionSnapshot.matchingFrom r l =
      some (l.map DaRelayCompletionChunk.chunkIndex) := by
  induction l with
  | nil => rfl
  | cons k l ih =>
    rw [List.forall_mem_cons] at hl
    have hk := hl.1
    unfold completionChunk at hk
    split at hk
    · cases hk
    · obtain ⟨c, hc, heq⟩ := Option.map_eq_some_iff.mp hk
      have hsame : ¬ (c.chunkHash ≠ k.chunkHash ∨ c.payload.length ≠ k.payload.length) := by
        rw [← heq]
        simp
      rw [DaRelayCompletionSnapshot.matchingFrom, hc]
      dsimp only
      rw [if_neg hsame, ih hl.2]
      rfl

/-- When a commit comes last and its payload is refused, all its chunks go. -/
theorem gap_after_drop (hr : r.Draft V d) (hsnap : r.completionSnapshot = some snapshot)
    {c : DaRelayCommit} (hc : r.commit = some c) :
    ∃ i, i < c.chunkCount ∧
      (eraseAll ((snapshot.matchingChunkIndexes r).getD []) r.chunks).lookup i = none := by
  obtain ⟨c', hc', -, hchunks⟩ := completionSnapshot_eq_some hsnap
  rw [hc] at hc'
  cases hc'
  have hpos : (0 : UInt16) < c.chunkCount := UInt16.pos_iff_ne_zero.mpr (hr.commit c hc).count.1
  have hself : snapshot.matchingChunkIndexes r =
      some (snapshot.chunks.map DaRelayCompletionChunk.chunkIndex) := by
    refine matchingFrom_self fun k hk => ?_
    have hmem : some k ∈ (chunkIndexes c.chunkCount).map r.completionChunk := by
      rw [hchunks]
      exact List.mem_map_of_mem hk
    obtain ⟨i, -, hi⟩ := List.mem_map.mp hmem
    obtain ⟨-, -, -, hindex⟩ := completionChunk_eq_some hi
    rw [hindex]
    exact hi
  obtain ⟨k, hk, hmem⟩ := exists_of_completionSnapshot hchunks hpos
  obtain ⟨-, -, -, hindex⟩ := completionChunk_eq_some hk
  refine ⟨0, hpos, ?_⟩
  rw [hself, Option.getD_some, lookup_eraseAll, if_pos]
  exact List.mem_map.mpr ⟨k, hmem, hindex⟩

theorem keepAfterMismatch_outcome (hs : s.Inv V) (hopen : s.OpenAt d) (hr : r.Draft V d)
    (hsnap : r.completionSnapshot = some snapshot) (ht : s.Stamped r)
    (action : CompletionMismatchAction) (hlacks : s.LacksStaged r action) :
    Outcome V strict s (keepAfterMismatch snapshot r action s) := by
  cases action with
  | dropMatchingChunks =>
    have hcommit : r.commit ≠ none := by
      obtain ⟨c, hc, -⟩ := completionSnapshot_eq_some hsnap
      rw [hc]
      simp
    have hdraft : Draft V d { r.dropChunks ((snapshot.matchingChunkIndexes r).getD []) with
        payloadBytes := 0, state := .stagedCommit } :=
      hr.drop rfl nofun (.inl rfl) (fun i c hc => (lookup_of_eraseAll hc).2) Finset.sdiff_subset
    refine .lift_bind hs (fun e he => recompute_ne_underflow he) fun updated hup => ?_
    obtain ⟨hdraft', hcached, w, p, rfl⟩ := hdraft.recompute (.inl hcommit) hup
    exact applyRecord_outcome hs hopen (.inl ⟨hdraft', ⟨.inl hcommit,
      fun c hc => gap_after_drop hr hsnap hc⟩, hcached⟩) (ht.congr rfl rfl)
  | markMatchingChunksReplaceable =>
    rw [keepAfterMismatch_mark hsnap hr.within hlacks]
    exact .nothing hs

theorem settleCompletion_outcome (hs : s.Inv V) (hopen : s.OpenAt d) (hr : r.Draft V d)
    (ht : s.Stamped r) (hsnap : r.completionSnapshot = some snapshot)
    (action : CompletionMismatchAction) (hlacks : s.LacksStaged r action) :
    Outcome V (action = .markMatchingChunksReplaceable) s
      (settleCompletion snapshot r action s) := by
  refine .lift_bind hs ?_ fun payload hpay => ?_
  · intro e he
    simp only [DaRelayCompletionSnapshot.payloadCommitment, bind_eq_error] at he
    rcases he with he | ⟨_, -, he⟩
    · rw [sum_checked_error he]
      simp
    · cases he
  · split
    · rename_i hmatch
      refine applyRecord_outcome hs hopen (.inr (hr.markComplete hsnap ?_)) (ht.congr rfl rfl)
      rw [hpay, ← hmatch]
    · refine (keepAfterMismatch_outcome hs hopen hr hsnap ht action hlacks).then_mismatch ?_
      rintro rfl u s₁ hrun
      rw [keepAfterMismatch_mark hsnap hr.within hlacks] at hrun
      cases hrun
      rfl

/-- **Staging a record.** -/
theorem prepareAndApplyRecord_outcome (hs : s.Inv V) (hopen : s.OpenAt d) (hr : r.Draft V d)
    (hholds : r.Holds)
    (htime : (s.setsByDaId.lookup d = none ∧ r.receivedTime = 0) ∨
      ∃ old, s.setsByDaId.lookup d = some old ∧ r.receivedTime = old.receivedTime)
    (action : CompletionMismatchAction) (hlacks : s.LacksStaged r action) :
    Outcome V (action = .markMatchingChunksReplaceable) s (prepareAndApplyRecord r action s) := by
  refine .lift_bind hs (fun e he => recompute_ne_underflow he) fun recomputed hrec => ?_
  obtain ⟨hdraft, hcached, w, p, rfl⟩ := hr.recompute hholds hrec
  rw [estate_get_bind]
  refine .lift_bind hs ?_ fun stamped hstamp => ?_
  · intro e he
    unfold stampReceivedTime at he
    split at he
    · simp only [bind_eq_error, checkedAdd_eq_error] at he
      rcases he with ⟨-, rfl⟩ | ⟨_, -, he⟩
      · simp
      · cases he
    · cases he
  · have hst : (∃ t, stamped = { r with wireBytes := w, peerBytes := p, receivedTime := t }) ∧
        s.Stamped stamped := by
      unfold stampReceivedTime at hstamp
      split at hstamp
      · rename_i hzero
        simp only [bind_eq_ok, checkedAdd_eq_ok, Except.ok.injEq] at hstamp
        obtain ⟨_, ⟨-, rfl⟩, rfl⟩ := hstamp
        refine ⟨⟨_, rfl⟩, .inl ⟨?_, rfl⟩⟩
        rcases htime with ⟨hnone, -⟩ | ⟨old, hold, ht⟩
        · exact (congrArg (Finmap.lookup · s.setsByDaId) hr.daId).trans hnone
        · have hpos := (hs.timed.past d old hold).1
          rw [← ht] at hpos
          exact absurd hzero (Nat.pos_iff_ne_zero.mp hpos)
      · rename_i hne
        cases hstamp
        refine ⟨⟨_, rfl⟩, .inr ?_⟩
        rcases htime with ⟨-, hzero⟩ | ⟨old, hold, ht⟩
        · exact absurd hzero hne
        · exact ⟨old, (congrArg (Finmap.lookup · s.setsByDaId) hr.daId).trans hold, ht⟩
    obtain ⟨⟨t, rfl⟩, hst⟩ := hst
    have hdraft' : Draft V d { r with wireBytes := w, peerBytes := p, receivedTime := t } :=
      hdraft.congr rfl hdraft.isOpen rfl rfl rfl
    cases hsnap : completionSnapshot { r with wireBytes := w, peerBytes := p, receivedTime := t } with
    | some snapshot => exact settleCompletion_outcome hs hopen hdraft' hst hsnap action hlacks
    | none =>
      obtain ⟨h1, h2, h3, h4⟩ := hcached
      exact applyRecord_outcome hs hopen (.inl ⟨hdraft', ⟨hholds, hdraft'.gap_of_none hsnap⟩,
        ⟨h1, h2, h3, h4⟩⟩) hst

theorem Inv.base (hs : s.Inv V) (hopen : s.OpenAt d) :
    ((s.setsByDaId.lookup d).getD (.new d)).Draft V d ∧
    ((s.setsByDaId.lookup d = none ∧
        ((s.setsByDaId.lookup d).getD (.new d)).receivedTime = 0) ∨
      ∃ old, s.setsByDaId.lookup d = some old ∧
        ((s.setsByDaId.lookup d).getD (.new d)).receivedTime = old.receivedTime) := by
  cases hold : s.setsByDaId.lookup d with
  | none => exact ⟨draft_new d, .inl ⟨rfl, rfl⟩⟩
  | some old => exact ⟨((hs.kept d old hold).draft (hopen old hold)).1, .inr ⟨old, rfl, rfl⟩⟩

section peers

variable [IpText]

theorem stageCommit_outcome (hs : s.Inv V) {peerAddr : String} {txBytes : Bytes} {tx : Tx}
    {core : DaCommitCore} {payloadCommitment : Bytes32} (hparse : ParsesTo txBytes tx)
    (hkind : tx.txKind = 0x01) (hcore : tx.daCommitCore = some core)
    (hpay : relayDaCommitPayloadCommitment tx = some payloadCommitment) :
    Outcome V False s (stageIncompleteDaCommit peerAddr
      (relayCommitOf peerAddr txBytes core payloadCommitment) s) := by
  refine .reject_bind hs (by simp) fun hcount => ?_
  refine .reject_bind hs (by simp) fun hwire => ?_
  rw [estate_get_bind]
  refine .reject_bind hs (by simp) fun hdup => ?_
  rw [not_or] at hcount
  have hopen : s.OpenAt core.daId := by
    intro old hold hclosed
    obtain ⟨c, hc, -⟩ := ((hs.kept _ old hold).complete hclosed).commit
    refine hdup ?_
    have hsome : (s.setsByDaId.lookup core.daId).bind DaRelaySetRecord.commit = some c := by
      rw [hold]
      exact hc
    exact (congrArg Option.isSome hsome).trans rfl
  obtain ⟨hbase, htime⟩ := hs.base hopen
  have hstored : StoredCommit core.daId { relayCommitOf peerAddr txBytes core payloadCommitment with
      peerQuotaKey := .fromPeerAddr peerAddr } := by
    refine ⟨⟨rfl, fun hnil => hwire (congrArg List.length hnil)⟩, ⟨hcount.1, ?_⟩,
      tx, core, hparse, hkind, hcore, rfl, rfl, hpay⟩
    exact Nat.not_lt.mp hcount.2
  exact (prepareAndApplyRecord_outcome hs hopen (hbase.withCommit s.caps.orphanTtlBlocks hstored)
    (.inl nofun) htime .dropMatchingChunks nofun).mono nofun

omit [Crypto] [IpText] in
theorem validateDaChunk_ne_underflow (h : validateDaChunk c = .error e) :
    e ≠ .accountingUnderflow := by
  simp only [validateDaChunk, bind_eq_error, rejectIf_eq_error] at h
  rcases h with ⟨-, rfl⟩ | ⟨_, -, ⟨-, rfl⟩ | ⟨_, -, -, rfl⟩⟩
  · simp
  · simp
  · simp

omit [Crypto] [IpText] in
theorem validateChunkInsert_ne_underflow (h : r.validateChunkInsert i = .error e) :
    e ≠ .accountingUnderflow := by
  unfold validateChunkInsert at h
  split at h
  · obtain ⟨-, rfl⟩ := rejectIf_eq_error.mp h
    simp
  · split at h
    · obtain ⟨-, rfl⟩ := rejectIf_eq_error.mp h
      simp
    · cases h

omit [IpText] in
theorem Inv.base_of_insert (hs : s.Inv V)
    (h : (s.setsByDaId.lookup d).elim (.ok ()) (fun record => record.validateChunkInsert i) =
      .ok ()) :
    s.OpenAt d ∧ ((s.setsByDaId.lookup d).getD (.new d)).validateChunkInsert i = .ok () := by
  cases hold : s.setsByDaId.lookup d with
  | none =>
    refine ⟨fun old h' => ?_, ?_⟩
    · rw [hold] at h'
      cases h'
    · rw [Option.getD_none, validateChunkInsert, DaRelaySetRecord.new, Finmap.lookup_empty]
      rfl
  | some old =>
    rw [hold, Option.elim_some] at h
    refine ⟨fun old' h' hclosed => ?_, h⟩
    rw [hold] at h'
    cases h'
    rcases ((hs.kept _ old hold).complete hclosed).validateChunkInsert_ne_ok i with h' | h'
    · rw [h'] at h
      cases h
    · rw [h'] at h
      cases h

omit [Crypto] [IpText] in
theorem withChunk_lookup (n : Nat) (c : DaRelayChunk) :
    (r.withChunk n c).chunks.lookup c.chunkIndex = some c := by
  unfold DaRelaySetRecord.withChunk
  dsimp only
  split <;> exact Finmap.lookup_insert _

omit [Crypto] [IpText] in
theorem withChunk_receivedTime (n : Nat) (c : DaRelayChunk) :
    (r.withChunk n c).receivedTime = r.receivedTime := by
  unfold DaRelaySetRecord.withChunk
  dsimp only
  split <;> rfl

theorem stageChunk_outcome (hs : s.Inv V) {peerAddr : String} {tx : Tx} {core : DaChunkCore}
    {prevalidated : Bool} (hparse : ParsesTo c.txBytes tx) (hkind : tx.txKind = 0x02)
    (hcore : tx.daChunkCore = some core) (hid : core.daId = c.daId)
    (hindex : core.chunkIndex = c.chunkIndex) (hhash : core.chunkHash = c.chunkHash)
    (hwire : c.wireBytes = c.txBytes.length) (hpay : c.payload = tx.daPayload)
    (hV : prevalidated = true ∨ sha3_256 tx.daPayload = core.chunkHash → V tx) :
    Outcome V True s (stageIncompleteDaChunkInner peerAddr c prevalidated s) := by
  refine .lift_bind hs (fun e he => validateDaChunk_ne_underflow he) fun _ hvalid => ?_
  rw [estate_get_bind]
  refine .lift_bind hs (fun e he => ?_) fun _ hinsert => ?_
  · cases hold : s.setsByDaId.lookup c.daId with
    | none =>
      rw [hold] at he
      cases he
    | some old =>
      rw [hold] at he
      exact validateChunkInsert_ne_underflow he
  refine .reject_bind hs (by simp) fun hchecked => ?_
  rw [not_and_or] at hchecked
  have hnonempty : c.txBytes ≠ [] := by
    intro hnil
    rw [hnil] at hwire
    simp only [validateDaChunk, bind_eq_ok, exists_unit, rejectIf_eq_ok, not_or] at hvalid
    exact hvalid.2.2.1 hwire
  have hVtx : V tx := by
    refine hV ?_
    rcases hchecked with h | h
    · exact .inl (Bool.not_eq_false _ ▸ h)
    · rw [hpay] at h
      exact .inr ((not_not.mp h).trans hhash.symm)
  obtain ⟨hopen, hbaseInsert⟩ := hs.base_of_insert hinsert
  obtain ⟨hbase, htime⟩ := hs.base hopen
  have hstored : StoredChunk V c.daId c.chunkIndex
      { c with peerQuotaKey := .fromPeerAddr peerAddr } :=
    ⟨⟨hwire, hnonempty⟩, tx, core, hparse, hkind, hcore, hid, hindex, hVtx⟩
  have hpayload : c.payload = c.storedPayload := hpay.trans (storedPayload_eq hparse).symm
  have hdraft := hbase.withChunk (c := { c with peerQuotaKey := .fromPeerAddr peerAddr })
    s.caps.orphanTtlBlocks hstored hpayload hbaseInsert
  refine (prepareAndApplyRecord_outcome hs hopen hdraft (holds_withChunk _ _) ?_ _ ?_).mono
    fun _ => rfl
  · rw [withChunk_receivedTime]
    exact htime
  · intro _
    refine ⟨c.chunkIndex, _, withChunk_lookup _ _, fun old hold => ?_⟩
    rw [hdraft.daId] at hold
    have hnew := hbase.insert_new hbaseInsert
    rwa [hold] at hnew

/-- What staging may rely on for the transactions it stores. -/
def Vouched (V : Tx → Prop) (txBytes : Bytes) (prevalidated : Bool) : Prop :=
  ∀ tx core, ParsesTo txBytes tx → tx.txKind = 0x02 → tx.daChunkCore = some core →
    prevalidated = true ∨ sha3_256 tx.daPayload = core.chunkHash → V tx

omit [Crypto] [IpText] in
theorem reporting_eq {daId : Option Bytes32} {m : DaRelayM Unit} :
    (reporting daId m s).2 = endState (m s) ∧
      ∀ e, (reporting daId m s).1.2 = .error e → ∃ s', m s = .error e s' := by
  unfold reporting
  cases hm : m s with
  | ok u s₁ => exact ⟨rfl, nofun⟩
  | error e s₁ =>
    refine ⟨rfl, fun e' he => ?_⟩
    cases he
    exact ⟨s₁, rfl⟩

/-- **Staging a transaction.** -/
theorem stage_outcome (hs : s.Inv V) (peerAddr : String) {txBytes : Bytes} {prevalidated : Bool}
    (hV : Vouched V txBytes prevalidated) :
    ∃ res, Outcome V (∀ tx, ParsesTo txBytes tx → tx.txKind = 0x02) s res ∧
      (stageRelayDaTxBytesChecked peerAddr txBytes prevalidated s).2 = endState res ∧
      ∀ e, (stageRelayDaTxBytesChecked peerAddr txBytes prevalidated s).1.2 = .error e →
        ∃ s', res = .error e s' := by
  have hrefused : ∀ e : DaRelayError, e ≠ .accountingUnderflow →
      ∃ res, Outcome V (∀ tx, ParsesTo txBytes tx → tx.txKind = 0x02) s res ∧ s = endState res ∧ ∀ e', (Except.error e : Except DaRelayError Unit) = .error e' →
        ∃ s', res = .error e' s' := by
    intro e he
    refine ⟨_, .refused hs he, rfl, fun e' he' => ?_⟩
    cases he'
    exact ⟨s, rfl⟩
  have hskipped : ∃ res, Outcome V (∀ tx, ParsesTo txBytes tx → tx.txKind = 0x02) s res ∧
      s = endState res ∧
      ∀ e', (Except.ok () : Except DaRelayError Unit) = .error e' → ∃ s', res = .error e' s' :=
    ⟨_, .nothing hs, rfl, nofun⟩
  unfold stageRelayDaTxBytesChecked
  split
  · exact hrefused _ nofun
  · cases hparse : parseTx txBytes with
    | error e => exact hrefused _ nofun
    | ok p =>
      dsimp only
      split
      · exact hrefused _ nofun
      · rename_i hconsumed
        have hto : ParsesTo txBytes p.tx := ⟨p, hparse, not_not.mp hconsumed, rfl⟩
        unfold stageParsedDaTx
        split
        · rename_i hkind
          cases hcore : p.tx.daCommitCore with
          | none => exact hskipped
          | some core =>
            cases hpay : relayDaCommitPayloadCommitment p.tx with
            | none => exact hskipped
            | some commitment =>
              refine ⟨_, (stageCommit_outcome hs hto hkind hcore hpay).mono fun hall => ?_,
                reporting_eq⟩
              have hother := hall p.tx hto
              rw [hkind] at hother
              cases hother
        · split
          · rename_i hkind
            cases hcore : p.tx.daChunkCore with
            | none => exact hskipped
            | some core =>
              exact ⟨_, (stageChunk_outcome hs hto hkind hcore rfl rfl rfl rfl rfl
                (hV p.tx core hto hkind hcore)).mono fun _ => trivial, reporting_eq⟩
          · exact hskipped

end peers

/-! ## 2. Ageing and expiry -/

theorem Inv.mem_orphanRecords (hs : s.Inv V) :
    (d, r) ∈ s.orphanRecords ↔ s.setsByDaId.lookup d = some r ∧ r.state ≠ .completeSet := by
  rw [orphanRecords, List.mem_filterMap]
  constructor
  · rintro ⟨d', -, h⟩
    cases hr : s.setsByDaId.lookup d' with
    | none =>
      rw [hr] at h
      cases h
    | some r' =>
      rw [hr] at h
      dsimp only at h
      split at h
      · cases h
      · rename_i hopen
        cases h
        exact ⟨hr, hopen⟩
  · rintro ⟨hr, hopen⟩
    have hpos := hs.charge_pos hr hopen
    refine ⟨d, (daIdOrder.visits _ _).mpr (hs.balanced.daIdNoZero.mem_keys_iff.mpr hpos), ?_⟩
    rw [hr]
    exact if_neg hopen

omit [Crypto] in
theorem orphanRecords_nodup (s : DaRelayState) : (s.orphanRecords.map Prod.fst).Nodup := by
  have hsub : (s.orphanRecords.map Prod.fst).Sublist
      (daIdOrder.order s.orphanBytesByDaId.keys) := by
    unfold orphanRecords
    generalize daIdOrder.order s.orphanBytesByDaId.keys = l
    induction l with
    | nil => exact .slnil
    | cons d l ih =>
      rw [List.filterMap_cons]
      cases s.setsByDaId.lookup d with
      | none => exact ih.cons d
      | some r =>
        dsimp only
        by_cases hclosed : r.state = .completeSet
        · rw [if_pos hclosed]
          exact ih.cons d
        · rw [if_neg hclosed]
          exact ih.cons_cons d
  exact (daIdOrder.once _).sublist hsub

/-- A record that is `blocks` older. -/
def aged (blocks : Nat) (r : DaRelaySetRecord) : DaRelaySetRecord :=
  { r with ttlBlocksRemaining := r.ttlBlocksRemaining - blocks }

/-- What is left of a record after `blocks`. -/
def survivor (blocks : Nat) (r : DaRelaySetRecord) : Option DaRelaySetRecord :=
  if r.state = .completeSet then some r
  else if blocks < r.ttlBlocksRemaining then some (aged blocks r) else none

def ageingIds (s : DaRelayState) (blocks : Nat) : List Bytes32 :=
  (s.orphanRecords.filter fun p => blocks < p.2.ttlBlocksRemaining).map Prod.fst

def expiringRecords (s : DaRelayState) (blocks : Nat) : List DaRelaySetRecord :=
  (s.orphanRecords.filter fun p => ¬ blocks < p.2.ttlBlocksRemaining).map Prod.snd

theorem Inv.mem_orphans (hs : s.Inv V) (p : DaRelaySetRecord → Prop) [DecidablePred p] :
    d ∈ (s.orphanRecords.filter fun e => p e.2).map Prod.fst ↔
      ∃ r, s.setsByDaId.lookup d = some r ∧ r.state ≠ .completeSet ∧ p r := by
  rw [List.mem_map]
  constructor
  · rintro ⟨e, he, rfl⟩
    obtain ⟨he, hp⟩ := List.mem_filter.mp he
    obtain ⟨hr, hopen⟩ := hs.mem_orphanRecords.mp he
    exact ⟨e.2, hr, hopen, of_decide_eq_true hp⟩
  · rintro ⟨r, hr, hopen, hp⟩
    exact ⟨(d, r), List.mem_filter.mpr ⟨hs.mem_orphanRecords.mpr ⟨hr, hopen⟩,
      decide_eq_true hp⟩, rfl⟩

theorem Inv.mem_ageingIds (hs : s.Inv V) : d ∈ s.ageingIds blocks ↔
    ∃ r, s.setsByDaId.lookup d = some r ∧ r.state ≠ .completeSet ∧
      blocks < r.ttlBlocksRemaining :=
  hs.mem_orphans fun r => blocks < r.ttlBlocksRemaining

theorem Inv.expiring_daIds (hs : s.Inv V) (blocks : Nat) :
    (s.expiringRecords blocks).map DaRelaySetRecord.daId =
      (s.orphanRecords.filter fun p => ¬ blocks < p.2.ttlBlocksRemaining).map Prod.fst := by
  rw [expiringRecords, List.map_map]
  refine List.map_congr_left fun p hp => ?_
  have hlook := (hs.mem_orphanRecords.mp (List.mem_filter.mp hp).1).1
  exact (hs.kept p.1 p.2 hlook).daId_eq

theorem Inv.mem_expiring (hs : s.Inv V) :
    d ∈ (s.expiringRecords blocks).map DaRelaySetRecord.daId ↔
      ∃ r, s.setsByDaId.lookup d = some r ∧ r.state ≠ .completeSet ∧
        r.ttlBlocksRemaining ≤ blocks := by
  rw [hs.expiring_daIds, hs.mem_orphans fun r => ¬ blocks < r.ttlBlocksRemaining]
  simp only [Nat.not_lt]

theorem Inv.expiring_nodup (hs : s.Inv V) (blocks : Nat) :
    ((s.expiringRecords blocks).map DaRelaySetRecord.daId).Nodup := by
  rw [hs.expiring_daIds]
  exact (orphanRecords_nodup s).sublist (List.filter_sublist.map _)

theorem Inv.decrementTtl (hs : s.Inv V) (hr : s.setsByDaId.lookup d = some r)
    (hopen : r.state ≠ .completeSet) (httl : blocks < r.ttlBlocksRemaining) :
    decrementTtl blocks d s =
        .ok () { s with setsByDaId := s.setsByDaId.insert d (aged blocks r) } ∧
      ({ s with setsByDaId := s.setsByDaId.insert d (aged blocks r) } : DaRelayState).Inv V := by
  constructor
  · rw [DaRelayState.decrementTtl, estate_get_bind, okOr_eq_ok.mpr hr, liftE_ok_bind,
      rejectIf_neg (by omega), liftE_ok_bind]
    rfl
  · obtain ⟨hdraft, ⟨hholds, hgap⟩, h1, h2, h3, h4⟩ := (hs.kept d r hr).draft hopen
    exact hs.replace hr (.inl ⟨hdraft.congr rfl hopen rfl rfl rfl, ⟨hholds, hgap⟩,
      ⟨h1, h2, h3, h4⟩⟩) rfl rfl (fun _ => rfl) rfl rfl

theorem Inv.decrement_loop : ∀ {ids : List Bytes32} {s : DaRelayState}, s.Inv V →
    ids.Nodup → (∀ d ∈ ids, ∃ r, s.setsByDaId.lookup d = some r ∧ r.state ≠ .completeSet ∧
      blocks < r.ttlBlocksRemaining) →
    ∃ m, ids.forM (DaRelayState.decrementTtl blocks) s = .ok () { s with setsByDaId := m } ∧
      ({ s with setsByDaId := m } : DaRelayState).Inv V ∧
      ∀ d, m.lookup d =
        if d ∈ ids then (s.setsByDaId.lookup d).map (aged blocks) else s.setsByDaId.lookup d := by
  intro ids
  induction ids with
  | nil => exact fun {s} hs _ _ => ⟨s.setsByDaId, rfl, hs, fun _ => rfl⟩
  | cons d ids ih =>
    intro s hs hnodup hids
    rw [List.nodup_cons] at hnodup
    rw [List.forall_mem_cons] at hids
    obtain ⟨r, hr, hopen, httl⟩ := hids.1
    obtain ⟨hrun₁, hinv₁⟩ := hs.decrementTtl hr hopen httl
    have hother : ∀ d', d' ≠ d →
        (s.setsByDaId.insert d (aged blocks r)).lookup d' = s.setsByDaId.lookup d' := by
      intro d' hne
      rw [lookup_insert_eq, if_neg hne]
    obtain ⟨m, hrun₂, hinv₂, hlook⟩ := ih hinv₁ hnodup.2 (by
      intro d' hd'
      dsimp only
      rw [hother d' fun heq => hnodup.1 (heq ▸ hd')]
      exact hids.2 d' hd')
    refine ⟨m, estate_bind_eq_ok.mpr ⟨_, _, hrun₁, hrun₂⟩, hinv₂, fun d' => ?_⟩
    rw [hlook]
    dsimp only
    by_cases heq : d' = d
    · rw [heq, if_neg hnodup.1, if_pos List.mem_cons_self, Finmap.lookup_insert, hr]
      rfl
    · rw [hother d' heq]
      simp [heq]

/-- What ageing does to the records. -/
structure Advanced (blocks : Nat) (s : DaRelayState) (ids : List Bytes32) (s' : DaRelayState) :
    Prop where
  sets : ∀ d, s'.setsByDaId.lookup d = (s.setsByDaId.lookup d).bind (survivor blocks)
  expired : ∀ d, d ∈ ids ↔ ∃ r, s.setsByDaId.lookup d = some r ∧ r.state ≠ .completeSet ∧
    r.ttlBlocksRemaining ≤ blocks
  once : ids.Nodup
  clock : s'.nextReceivedTime = s.nextReceivedTime
  caps : s'.caps = s.caps

theorem Inv.survivor_eq (hs : s.Inv V) {m : Finmap fun _ : Bytes32 => DaRelaySetRecord}
    (hm : ∀ d, m.lookup d = if d ∈ s.ageingIds blocks then
      (s.setsByDaId.lookup d).map (aged blocks) else s.setsByDaId.lookup d) (d : Bytes32) :
    (eraseAll ((s.expiringRecords blocks).map DaRelaySetRecord.daId) m).lookup d =
      (s.setsByDaId.lookup d).bind (survivor blocks) := by
  rw [lookup_eraseAll, hm]
  by_cases hexp : d ∈ (s.expiringRecords blocks).map DaRelaySetRecord.daId
  · rw [if_pos hexp]
    obtain ⟨r, hr, hopen, httl⟩ := hs.mem_expiring.mp hexp
    rw [hr, Option.bind_some, survivor, if_neg hopen, if_neg (Nat.not_lt.mpr httl)]
  · rw [if_neg hexp]
    by_cases hage : d ∈ s.ageingIds blocks
    · obtain ⟨r, hr, hopen, httl⟩ := hs.mem_ageingIds.mp hage
      rw [if_pos hage, hr, Option.bind_some, survivor, if_neg hopen, if_pos httl]
      rfl
    · rw [if_neg hage]
      cases hr : s.setsByDaId.lookup d with
      | none => rfl
      | some r =>
        have hclosed : r.state = .completeSet := by
          by_contra hopen
          rcases Nat.lt_or_ge blocks r.ttlBlocksRemaining with httl | httl
          · exact hage (hs.mem_ageingIds.mpr ⟨r, hr, hopen, httl⟩)
          · exact hexp (hs.mem_expiring.mpr ⟨r, hr, hopen, httl⟩)
        rw [Option.bind_some, survivor, if_pos hclosed]

theorem Inv.droppable_expiring (hs : s.Inv V) {m : Finmap fun _ : Bytes32 => DaRelaySetRecord}
    (hm : ∀ d, m.lookup d = if d ∈ s.ageingIds blocks then
      (s.setsByDaId.lookup d).map (aged blocks) else s.setsByDaId.lookup d) :
    ({ s with setsByDaId := m } : DaRelayState).Droppable (s.expiringRecords blocks) := by
  refine ⟨fun r hr => ?_, hs.expiring_nodup blocks⟩
  obtain ⟨r', hr', hopen', httl'⟩ := hs.mem_expiring.mp (List.mem_map_of_mem hr)
  obtain ⟨p, hp, rfl⟩ := List.mem_map.mp hr
  obtain ⟨hlook, hopen⟩ := hs.mem_orphanRecords.mp (List.mem_filter.mp hp).1
  have hid := (hs.kept p.1 p.2 hlook).daId_eq
  refine ⟨?_, hopen⟩
  dsimp only
  rw [hm, if_neg, hid, hlook]
  intro hage
  obtain ⟨r'', hr'', -, httl''⟩ := hs.mem_ageingIds.mp hage
  rw [hr'] at hr''
  cases hr''
  omega

/-- **Ageing never fails**, and does what it says. -/
theorem Inv.advanceOrphanTtlBy (hs : s.Inv V) (hpos : 0 < blocks) :
    ∃ ids s', advanceOrphanTtlBy blocks s = .ok ids s' ∧ s'.Inv V ∧
      Advanced blocks s ids s' := by
  have hids : (s.ageingIds blocks).Nodup :=
    (orphanRecords_nodup s).sublist (List.filter_sublist.map _)
  obtain ⟨m, hloop, hinv, hm⟩ := hs.decrement_loop hids fun d hd => hs.mem_ageingIds.mp hd
  obtain ⟨projection, hproj, hexpired⟩ := hinv.projectTtlExpiry (hs.droppable_expiring hm)
  have hsets := hs.survivor_eq hm
  have hmem : ∀ d, d ∈ (s.expiringRecords blocks).map DaRelaySetRecord.daId ↔ _ :=
    fun d => hs.mem_expiring
  have honce := hs.expiring_nodup blocks
  have hstart : DaRelayState.advanceOrphanTtlBy blocks s =
      (liftE (s.projectExpiring (s.expiringRecords blocks)) >>= fun projection =>
        (s.ageingIds blocks).forM (DaRelayState.decrementTtl blocks) >>= fun _ =>
          expire (s.expiringRecords blocks) projection) s := by
    rw [DaRelayState.advanceOrphanTtlBy, if_neg (Nat.pos_iff_ne_zero.mp hpos)]
    rfl
  rw [hstart]
  by_cases hnil : s.expiringRecords blocks = []
  · rw [show s.projectExpiring (s.expiringRecords blocks) = .ok none from if_pos hnil,
      liftE_ok_bind]
    rw [hnil] at hsets hmem
    exact ⟨[], _, estate_bind_eq_ok.mpr ⟨_, _, hloop, rfl⟩, hinv,
      ⟨hsets, hmem, List.nodup_nil, rfl, rfl⟩⟩
  · have hrun : s.projectExpiring (s.expiringRecords blocks) = .ok (some projection) := by
      have hproj' : s.projectTtlExpiry (s.expiringRecords blocks) = .ok projection := hproj
      rw [projectExpiring, if_neg hnil, hproj', ok_bind]
    rw [hrun, liftE_ok_bind]
    exact ⟨_, _, estate_bind_eq_ok.mpr ⟨_, _, hloop, rfl⟩, hexpired,
      ⟨hsets, hmem, honce, rfl, rfl⟩⟩

omit [Crypto] in
theorem advanceOrphanTtlBy_zero (s : DaRelayState) :
    DaRelayState.advanceOrphanTtlBy 0 s = .ok [] s := rfl

omit [Crypto] in
theorem Advanced.closed {ids : List Bytes32} (h : Advanced blocks s ids s')
    (hr : s.setsByDaId.lookup d = some r) (hc : r.state = .completeSet) :
    s'.setsByDaId.lookup d = some r := by
  rw [h.sets, hr, Option.bind_some, survivor, if_pos hc]

theorem Inv.advance_ok (hs : s.Inv V) (blocks : Nat) :
    ∃ ids s', DaRelayState.advanceOrphanTtlBy blocks s = .ok ids s' ∧ s'.Inv V ∧ s'.caps = s.caps ∧
      ∀ d r, s.setsByDaId.lookup d = some r → r.state = .completeSet →
        s'.setsByDaId.lookup d = some r := by
  rcases Nat.eq_zero_or_pos blocks with rfl | hpos
  · exact ⟨[], s, advanceOrphanTtlBy_zero s, hs, rfl, fun _ _ hr _ => hr⟩
  · obtain ⟨ids, s', hrun, hinv, hadv⟩ := hs.advanceOrphanTtlBy hpos
    exact ⟨ids, s', hrun, hinv, hadv.caps, fun d r hr hc => hadv.closed hr hc⟩

/-! ## 3. Releasing a peer -/

/-- No item of the record is the peer's. -/
structure NoItemOf (key : PeerQuotaKey) (r : DaRelaySetRecord) : Prop where
  commit : ∀ c, r.commit = some c → c.peerQuotaKey ≠ key
  chunk : ∀ i c, r.chunks.lookup i = some c → c.peerQuotaKey ≠ key

/-- What releasing a peer does to the record of one `da_id`. -/
structure Released (key : PeerQuotaKey) (old new : Option DaRelaySetRecord) : Prop where
  gone : ∀ r, new = some r → r.state ≠ .completeSet → NoItemOf key r
  closed : ∀ r, r.state = .completeSet → (new = some r ↔ old = some r)
  commits : ∀ c : DaRelayCommit, c.peerQuotaKey ≠ key →
    (new.bind DaRelaySetRecord.commit = some c ↔ old.bind DaRelaySetRecord.commit = some c)
  chunks : ∀ i (c : DaRelayChunk), c.peerQuotaKey ≠ key →
    ((new.bind fun r => r.chunks.lookup i) = some c ↔ (old.bind fun r => r.chunks.lookup i) = some c)

omit [Crypto] in
theorem Released.same {o : Option DaRelaySetRecord}
    (h : ∀ r, o = some r → r.state ≠ .completeSet → NoItemOf key r) : Released key o o :=
  ⟨h, fun _ _ => Iff.rfl, fun _ _ => Iff.rfl, fun _ _ _ => Iff.rfl⟩

theorem mem_droppedIndexes (hr : r.Draft V d) :
    i ∈ r.droppedIndexes key ↔ ∃ c, r.chunks.lookup i = some c ∧ c.peerQuotaKey = key := by
  rw [droppedIndexes, List.mem_filterMap]
  constructor
  · rintro ⟨p, hp, h⟩
    split at h
    · rename_i hkey
      cases h
      exact ⟨p.2, indexOrder.mem_entries.mp hp, hkey.2⟩
    · cases h
  · rintro ⟨c, hc, hkey⟩
    have hbytes := (hr.chunk i c hc).1.bytes
    refine ⟨(i, c), indexOrder.mem_entries.mpr hc, if_pos ⟨?_, hkey⟩⟩
    rw [hbytes.1]
    exact Nat.pos_iff_ne_zero.mp (List.length_pos_iff.mpr hbytes.2)

theorem dropsCommit_iff (hr : r.Draft V d) :
    r.dropsCommit key = true ↔ ∃ c, r.commit = some c ∧ c.peerQuotaKey = key := by
  unfold dropsCommit
  cases hc : r.commit with
  | none => simp
  | some c =>
    have hbytes := (hr.commit c hc).bytes
    have hwire : c.wireBytes ≠ 0 := by
      rw [hbytes.1]
      exact Nat.pos_iff_ne_zero.mp (List.length_pos_iff.mpr hbytes.2)
    simp [hwire]

omit [Crypto] in
theorem withoutItemsOf_fields (r : DaRelaySetRecord) (key : PeerQuotaKey) :
    (r.withoutItemsOf key).daId = r.daId ∧
    (r.withoutItemsOf key).receivedTime = r.receivedTime ∧
    (r.withoutItemsOf key).commit = (if r.dropsCommit key then none else r.commit) ∧
    (r.withoutItemsOf key).chunks = eraseAll (r.droppedIndexes key) r.chunks ∧
    (r.withoutItemsOf key).replaceableChunks ⊆ r.replaceableChunks ∧
    (r.state ≠ .completeSet → (r.withoutItemsOf key).state ≠ .completeSet) := by
  unfold withoutItemsOf
  dsimp only [dropChunks]
  by_cases hdrop : r.dropsCommit key = true
  · simp [hdrop]
  · by_cases hcommit : r.commit = none
    · simp [hdrop, hcommit]
    · simp [hdrop, hcommit]

omit [Crypto] in
theorem withoutItemsOf_commit_cases (r : DaRelaySetRecord) (key : PeerQuotaKey) :
    (r.withoutItemsOf key).commit = r.commit ∨ (r.withoutItemsOf key).commit = none := by
  obtain ⟨-, -, hcommit, -⟩ := withoutItemsOf_fields r key
  rw [hcommit]
  split
  · exact .inr rfl
  · exact .inl rfl

omit [Crypto] in
theorem drop_eq_some_iff {α : Type} {o : Option α} {p : α → Prop} {dropped : Prop}
    [Decidable dropped] (h : dropped ↔ ∃ a, o = some a ∧ p a) {a : α} :
    (if dropped then none else o) = some a ↔ o = some a ∧ ¬ p a := by
  by_cases hd : dropped
  · obtain ⟨a', rfl, ha'⟩ := h.mp hd
    rw [if_pos hd]
    refine ⟨by simp, ?_⟩
    rintro ⟨ha, hp⟩
    cases ha
    exact absurd ha' hp
  · rw [if_neg hd]
    exact ⟨fun ha => ⟨ha, fun hp => hd (h.mpr ⟨a, ha, hp⟩)⟩, fun ha => ha.1⟩

theorem withoutItemsOf_commit (hr : r.Draft V d) {c : DaRelayCommit} :
    (r.withoutItemsOf key).commit = some c ↔ r.commit = some c ∧ c.peerQuotaKey ≠ key := by
  obtain ⟨-, -, hcommit, -⟩ := withoutItemsOf_fields r key
  rw [hcommit]
  exact drop_eq_some_iff (dropsCommit_iff hr)

theorem withoutItemsOf_chunk (hr : r.Draft V d) :
    (r.withoutItemsOf key).chunks.lookup i = some c ↔
      r.chunks.lookup i = some c ∧ c.peerQuotaKey ≠ key := by
  obtain ⟨-, -, -, hchunks, -⟩ := withoutItemsOf_fields r key
  rw [hchunks, lookup_eraseAll]
  exact drop_eq_some_iff (mem_droppedIndexes hr)

theorem withoutItemsOf_draft (hr : r.Draft V d) (key : PeerQuotaKey) :
    (r.withoutItemsOf key).Draft V d := by
  obtain ⟨hid, -, -, -, hmarks, hopen⟩ := withoutItemsOf_fields r key
  exact hr.drop hid (hopen hr.isOpen) (withoutItemsOf_commit_cases r key)
    (fun i c hc => ((withoutItemsOf_chunk hr).mp hc).1) hmarks

omit [Crypto] in
theorem emptyIncomplete_iff (hopen : r.state ≠ .completeSet) :
    r.emptyIncomplete = true ↔ ¬ r.Holds := by
  simp only [emptyIncomplete, hopen, ne_eq, not_false_eq_true, decide_true, Bool.true_and,
    Bool.and_eq_true, Option.isNone_iff_eq_none, decide_eq_true_eq, DaRelaySetRecord.Holds, not_or,
    not_not, not_exists]
  refine and_congr_right fun _ => ?_
  rw [Finset.eq_empty_iff_forall_notMem]
  refine forall_congr' fun i => ?_
  rw [mem_keys_iff, not_exists]

theorem withoutPeerQuotaKey_spec (hr : r.Draft V d) (hpending : r.Pending) (hcached : r.Cached)
    (hlt : r.heldBytes < 2 ^ 64) (key : PeerQuotaKey) :
    (r.withoutPeerQuotaKey key = .ok none ∧ NoItemOf key r) ∨
    ∃ updated, r.withoutPeerQuotaKey key = .ok (some updated) ∧
      (∃ w p, updated = { r.withoutItemsOf key with wireBytes := w, peerBytes := p }) ∧
      (updated.Holds → updated.Kept V d) := by
  have hdraft := withoutItemsOf_draft hr key
  unfold withoutPeerQuotaKey
  rw [if_neg (not_or.mpr ⟨hr.isOpen, Nat.pos_iff_ne_zero.mp hcached.wire⟩)]
  split
  · rename_i hnone
    refine .inl ⟨rfl, fun c hc hkey => ?_, fun i c hc hkey => ?_⟩
    · have := (dropsCommit_iff hr).mpr ⟨c, hc, hkey⟩
      rw [hnone.1] at this
      cases this
    · have := (mem_droppedIndexes hr).mpr ⟨c, hc, hkey⟩
      rw [hnone.2] at this
      cases this
  · right
    split
    · rename_i hempty
      refine ⟨_, rfl, ⟨0, ∅, rfl⟩, fun h => absurd h ?_⟩
      exact (emptyIncomplete_iff hdraft.isOpen).mp hempty
    · rename_i hempty
      obtain ⟨-, -, -, hchunks, -⟩ := withoutItemsOf_fields r key
      have hle : (r.withoutItemsOf key).heldBytes ≤ r.heldBytes :=
        held_le_of_drop _ _ (withoutItemsOf_commit_cases r key) hchunks
      have hholds' : (r.withoutItemsOf key).Holds := by
        by_contra h
        exact hempty ((emptyIncomplete_iff hdraft.isOpen).mpr h)
      obtain ⟨updated, hup⟩ := recomputeWireBytes_of_lt hdraft.charged (by omega)
      obtain ⟨hdraft', hcached', w, p, rfl⟩ := hdraft.recompute hholds' hup
      refine ⟨_, by rw [hup, ok_bind], ⟨w, p, rfl⟩, fun _ => .inl ⟨hdraft', ⟨hholds', ?_⟩, hcached'⟩⟩
      intro c hc
      obtain ⟨i, hi, hnone⟩ := hpending.gap c ((withoutItemsOf_commit hr).mp hc).1
      refine ⟨i, hi, ?_⟩
      dsimp only
      rw [hchunks, lookup_eraseAll, hnone, ite_self]

theorem Inv.droppable_one (hs : s.Inv V) (hr : s.setsByDaId.lookup d = some r)
    (hopen : r.state ≠ .completeSet) : s.Droppable [r] := by
  refine ⟨?_, by simp⟩
  intro r' hr'
  cases List.mem_singleton.mp hr'
  rw [(hs.kept d r hr).daId_eq]
  exact ⟨hr, hopen⟩

theorem Released.of_empty (hr : r.Draft V d) (hnothing : ¬ (r.withoutItemsOf key).Holds) :
    Released key (some r) none where
  gone := nofun
  closed := by
    refine fun r' hclosed => ⟨nofun, fun h => ?_⟩
    cases h
    exact absurd hclosed hr.isOpen
  commits := by
    refine fun c hne => ⟨nofun, fun h => absurd (.inl ?_) hnothing⟩
    rw [(withoutItemsOf_commit hr).mpr ⟨h, hne⟩]
    simp
  chunks := fun i c hne => ⟨nofun, fun h =>
    absurd (.inr ⟨i, c, (withoutItemsOf_chunk hr).mpr ⟨h, hne⟩⟩) hnothing⟩

theorem Released.of_updated (hr : r.Draft V d) (key : PeerQuotaKey) (w : Nat) (p : PeerBytes) :
    Released key (some r)
      (some { r.withoutItemsOf key with wireBytes := w, peerBytes := p }) where
  gone := by
    intro r' h _
    cases h
    exact ⟨fun c hc => ((withoutItemsOf_commit hr).mp hc).2,
      fun i c hc => ((withoutItemsOf_chunk hr).mp hc).2⟩
  closed := by
    refine fun r' hclosed => ⟨fun h => ?_, fun h => ?_⟩
    · cases h
      exact absurd hclosed (withoutItemsOf_draft hr key).isOpen
    · cases h
      exact absurd hclosed hr.isOpen
  commits := fun c hne => ⟨fun h => ((withoutItemsOf_commit hr).mp h).1,
    fun h => (withoutItemsOf_commit hr).mpr ⟨h, hne⟩⟩
  chunks := fun i c hne => ⟨fun h => ((withoutItemsOf_chunk hr).mp h).1,
    fun h => (withoutItemsOf_chunk hr).mpr ⟨h, hne⟩⟩

theorem Inv.applyRecord_of_fewer (hs : s.Inv V) (hr : s.setsByDaId.lookup d = some r)
    {updated : DaRelaySetRecord} (hkept : updated.Kept V d) (hopen : r.state ≠ .completeSet)
    (hopen' : updated.state ≠ .completeSet) (htime : updated.receivedTime = r.receivedTime)
    (hcommit : updated.commit = r.commit ∨ updated.commit = none) {indexes : List UInt16}
    (hchunks : updated.chunks = eraseAll indexes r.chunks) :
    ∃ s', applyRecord updated s = .ok () s' ∧ s'.Inv V ∧ s'.caps = s.caps ∧
      s'.setsByDaId = s.setsByDaId.insert d updated := by
  have hid := hkept.daId_eq
  subst hid
  have hle : ∀ wc wk, updated.held wc wk ≤ r.held wc wk :=
    fun wc wk => held_le_of_drop wc wk hcommit hchunks
  obtain ⟨s', hs'⟩ := applyRecord_of_room hs hkept <| hs.room_of_le
    (by
      rw [weightAt_of_lookup hr, orphanCharge, orphanCharge, if_neg hopen', if_neg hopen]
      exact hle _ _)
    (by
      intro k
      rw [weightAt_of_lookup hr, peerCharge, peerCharge, if_neg hopen', if_neg hopen]
      exact hle _ _)
    (by
      rw [weightAt_of_lookup hr, commitOverhead, commitOverhead, if_neg hopen', if_neg hopen]
      rcases hcommit with h | h
      · rw [h]
      · rw [h]
        exact Nat.zero_le _)
    (by
      rw [pinnedPayloadAccountingBytes, if_pos hopen']
      exact Nat.zero_le _)
  obtain ⟨hinv, hsets, hcaps⟩ := applyRecord_eq_ok hs hkept (.inr ⟨r, hr, htime⟩) hs'
  exact ⟨s', hs', hinv, hcaps, hsets⟩

theorem Inv.replaceReleased (hs : s.Inv V) (hr : s.setsByDaId.lookup d = some r)
    (hdraft : r.Draft V d) {w : Nat} {p : PeerBytes} (hkept : (r.withoutItemsOf key).Holds →
      Kept V d { r.withoutItemsOf key with wireBytes := w, peerBytes := p }) :
    ∃ s', replaceReleased d { r.withoutItemsOf key with wireBytes := w, peerBytes := p } s =
        .ok () s' ∧ s'.Inv V ∧ s'.caps = s.caps ∧
      (∀ d', d' ≠ d → s'.setsByDaId.lookup d' = s.setsByDaId.lookup d') ∧
      Released key (some r) (s'.setsByDaId.lookup d) := by
  have hdraft' := withoutItemsOf_draft hdraft key
  unfold DaRelayState.replaceReleased
  split
  · rename_i hempty
    obtain ⟨projection, hproj, hinv⟩ := hs.projectTtlExpiry (hs.droppable_one hr hdraft.isOpen)
    refine ⟨_, ?_, hinv, rfl, ?_, ?_⟩
    · rw [estate_get_bind, okOr_eq_ok.mpr hr, liftE_ok_bind, hproj, liftE_ok_bind]
      rfl
    · intro d' hne
      dsimp only [applyTtlExpiryProjection]
      rw [lookup_eraseAll, if_neg]
      simp [hdraft.daId, hne]
    · dsimp only [applyTtlExpiryProjection]
      rw [lookup_eraseAll, if_pos (by simp [hdraft.daId])]
      exact .of_empty hdraft ((emptyIncomplete_iff hdraft'.isOpen).mp hempty)
  · rename_i hempty
    have hholds : (r.withoutItemsOf key).Holds := by
      by_contra h
      exact hempty ((emptyIncomplete_iff hdraft'.isOpen).mpr h)
    obtain ⟨-, htime, -, hchunks, -⟩ := withoutItemsOf_fields r key
    obtain ⟨s', hrun, hinv, hcaps, hsets⟩ := hs.applyRecord_of_fewer hr (hkept hholds) hdraft.isOpen
      hdraft'.isOpen htime (withoutItemsOf_commit_cases r key) hchunks
    refine ⟨s', hrun, hinv, hcaps, ?_, ?_⟩
    · intro d' hne
      rw [hsets, lookup_insert_eq, if_neg hne]
    · rw [hsets, Finmap.lookup_insert]
      exact .of_updated hdraft key w p

/-- **Releasing a peer from one record.** -/
theorem Inv.releaseFrom (hs : s.Inv V) (key : PeerQuotaKey) (d : Bytes32) :
    ∃ s', releaseFrom key d s = .ok () s' ∧ s'.Inv V ∧ s'.caps = s.caps ∧
      (∀ d', d' ≠ d → s'.setsByDaId.lookup d' = s.setsByDaId.lookup d') ∧
      Released key (s.setsByDaId.lookup d) (s'.setsByDaId.lookup d) := by
  unfold DaRelayState.releaseFrom
  rw [estate_get_bind]
  cases hr : s.setsByDaId.lookup d with
  | none => exact ⟨s, rfl, hs, rfl, fun _ _ => rfl, by rw [hr]; exact .same nofun⟩
  | some r =>
    dsimp only
    split
    · rename_i hclosed
      refine ⟨s, rfl, hs, rfl, fun _ _ => rfl, ?_⟩
      rw [hr]
      refine .same fun r' h hopen => ?_
      cases h
      exact absurd hclosed hopen
    · rename_i hopen
      obtain ⟨hdraft, hpending, hcached⟩ := (hs.kept d r hr).draft hopen
      have hlt : r.heldBytes < 2 ^ 64 := by
        have h := hs.daId_lt d
        rwa [hs.balanced.daId, weightAt_of_lookup hr, orphanCharge, if_neg hopen] at h
      rcases withoutPeerQuotaKey_spec hdraft hpending hcached hlt key with
        ⟨hnone, hno⟩ | ⟨updated, hup, ⟨w, p, rfl⟩, hkept⟩
      · rw [hnone, liftE_ok_bind]
        refine ⟨s, rfl, hs, rfl, fun _ _ => rfl, ?_⟩
        rw [hr]
        refine .same fun r' h _ => ?_
        cases h
        exact hno
      · rw [hup, liftE_ok_bind]
        exact hs.replaceReleased hr hdraft hkept

theorem Inv.release_loop (key : PeerQuotaKey) : ∀ {ids : List Bytes32} {s : DaRelayState},
    s.Inv V → ids.Nodup → ∃ s', ids.forM (DaRelayState.releaseFrom key) s = .ok () s' ∧ s'.Inv V ∧
      s'.caps = s.caps ∧
      (∀ d, d ∉ ids → s'.setsByDaId.lookup d = s.setsByDaId.lookup d) ∧
      ∀ d ∈ ids, Released key (s.setsByDaId.lookup d) (s'.setsByDaId.lookup d) := by
  intro ids
  induction ids with
  | nil => exact fun {s} hs _ => ⟨s, rfl, hs, rfl, fun _ _ => rfl, nofun⟩
  | cons d ids ih =>
    intro s hs hnodup
    rw [List.nodup_cons] at hnodup
    obtain ⟨s₁, hrun₁, hinv₁, hcaps₁, hrest₁, hrel₁⟩ := hs.releaseFrom key d
    obtain ⟨s₂, hrun₂, hinv₂, hcaps₂, hrest₂, hrel₂⟩ := ih hinv₁ hnodup.2
    refine ⟨s₂, estate_bind_eq_ok.mpr ⟨_, _, hrun₁, hrun₂⟩, hinv₂, hcaps₂.trans hcaps₁, ?_, ?_⟩
    · intro d' hd'
      rw [List.mem_cons, not_or] at hd'
      rw [hrest₂ d' hd'.2, hrest₁ d' hd'.1]
    · rw [List.forall_mem_cons]
      refine ⟨by rw [hrest₂ d hnodup.1]; exact hrel₁, fun d' hd' => ?_⟩
      have hne : d' ≠ d := fun heq => hnodup.1 (heq ▸ hd')
      rw [← hrest₁ d' hne]
      exact hrel₂ d' hd'

/-- **Releasing a peer never fails**, takes its items from the open records, and nothing else. -/
theorem Inv.releasePeerQuotaKey (hs : s.Inv V) (key : PeerQuotaKey) :
    ∃ s', releasePeerQuotaKey key s = .ok () s' ∧ s'.Inv V ∧ s'.caps = s.caps ∧
      ∀ d, Released key (s.setsByDaId.lookup d) (s'.setsByDaId.lookup d) := by
  unfold DaRelayState.releasePeerQuotaKey
  rw [estate_get_bind]
  split
  · rename_i hzero
    refine ⟨s, rfl, hs, rfl, fun d => .same fun r hr hopen => ?_⟩
    -- a peer without a counter has no item: each item is charged something
    obtain ⟨hdraft, -, -⟩ := (hs.kept d r hr).draft hopen
    rw [hs.balanced.peer, total_eq_zero_iff] at hzero
    have hnone := hzero d r hr
    rw [peerCharge, if_neg hopen, heldBy, held] at hnone
    refine ⟨fun c hc hkey => ?_, fun i c hc hkey => ?_⟩
    · have hpos := List.length_pos_iff.mpr (hdraft.charged.commit c hc)
      rw [hc, Option.elim_some, if_pos hkey, DaRelayCommit.charge] at hnone
      omega
    · have hpos := List.length_pos_iff.mpr (hdraft.charged.chunk i c hc)
      have hle := weightAt_le_total (fun c : DaRelayChunk =>
        if c.peerQuotaKey = key then c.charge else 0) r.chunks i
      rw [weightAt_of_lookup hc, if_pos hkey, DaRelayChunk.charge] at hle
      omega
  · obtain ⟨s', hrun, hinv, hcaps, hrest, hrel⟩ := hs.release_loop key
      (daIdOrder.once s.orphanBytesByDaId.keys)
    refine ⟨s', hrun, hinv, hcaps, fun d => ?_⟩
    by_cases hd : d ∈ daIdOrder.order s.orphanBytesByDaId.keys
    · exact hrel d hd
    · rw [hrest d hd]
      refine .same fun r hr hopen => absurd ?_ hd
      exact (daIdOrder.visits _ _).mpr
        (hs.balanced.daIdNoZero.mem_keys_iff.mpr (hs.charge_pos hr hopen))

/-! ## 4. Consuming a complete set -/

/-- **Consuming never fails.** -/
theorem Inv.consumeCompleteSet (hs : s.Inv V) (d : Bytes32) :
    ∃ b s', consumeCompleteSet d s = .ok b s' ∧ s'.Inv V ∧ s'.caps = s.caps ∧
      ∀ d', d' ≠ d → s'.setsByDaId.lookup d' = s.setsByDaId.lookup d' := by
  unfold DaRelayState.consumeCompleteSet
  rw [estate_get_bind]
  cases hr : s.setsByDaId.lookup d with
  | none => exact ⟨false, s, rfl, hs, rfl, fun _ _ => rfl⟩
  | some r =>
    dsimp only
    split
    · exact ⟨false, s, rfl, hs, rfl, fun _ _ => rfl⟩
    · rename_i hstate
      have hclosed : r.state = .completeSet := not_not.mp hstate
      obtain ⟨b1, b2, b3, b4, b5, b6, b7⟩ := hs.balanced
      obtain ⟨c1, c2, c3, c4, c5⟩ := hs.withinCaps
      have hle := weightAt_le_total pinnedPayloadAccountingBytes s.setsByDaId d
      rw [weightAt_of_lookup hr] at hle
      have hproj := @projectCounter_of_le s.pinnedPayloadBytes r.pinnedPayloadAccountingBytes 0
        s.caps.pinnedPayloadBytes (by rw [b5]; exact hle) (Nat.zero_le _) c5 hs.fits.2
      rw [hproj, liftE_ok_bind]
      refine ⟨true, _, rfl, ?_, rfl, fun d' hne => by
        dsimp only
        rw [lookup_erase_eq, if_neg hne]⟩
      -- a complete set is charged in the payload counter only
      have hsame : ∀ w : DaRelaySetRecord → Nat, w r = 0 →
          total w (s.setsByDaId.erase d) = total w s.setsByDaId := by
        intro w hw
        have h := total_erase w s.setsByDaId d
        rw [weightAt_of_lookup hr] at h
        omega
      have hold : ∀ d' r', (s.setsByDaId.erase d).lookup d' = some r' →
          s.setsByDaId.lookup d' = some r' := by
        intro d' r' h
        rw [lookup_erase_eq] at h
        split at h
        · cases h
        · exact h
      refine ⟨⟨?_, ?_, ?_, ?_, ?_, b6, b7⟩, ⟨c1, c2, c3, c4, ?_⟩, ⟨hs.fits.1, ?_⟩,
        fun d' r' h => hs.kept d' r' (hold d' r' h),
        ⟨fun d' r' h => hs.timed.past d' r' (hold d' r' h), fun d₁ d₂ r₁ r₂ h₁ h₂ =>
          hs.timed.distinct d₁ d₂ r₁ r₂ (hold d₁ r₁ h₁) (hold d₂ r₂ h₂)⟩⟩
      · exact b1.trans (hsame _ (if_pos hclosed)).symm
      · exact fun k => (b2 k).trans (hsame _ (if_pos hclosed)).symm
      · intro d'
        rw [b3]
        unfold weightAt
        dsimp only
        rw [lookup_erase_eq]
        by_cases heq : d' = d
        · rw [if_pos heq, heq, hr]
          exact if_pos hclosed
        · rw [if_neg heq]
      · exact b4.trans (hsame _ (if_pos hclosed)).symm
      · have h := total_erase pinnedPayloadAccountingBytes s.setsByDaId d
        rw [weightAt_of_lookup hr] at h
        dsimp only
        omega
      · dsimp only
        omega
      · have := hs.fits.2
        dsimp only
        omega

end DaRelayState

/-! ## 5. Whole runs -/

/-- The calls that change the relay. -/
inductive DaRelayOp where
  | stage (peerAddr : String) (txBytes : Bytes) (chunkHashPrevalidated : Bool)
  | advanceTtl (blocks : Nat)
  | release (key : PeerQuotaKey)
  | consume (daId : Bytes32)

/-- The error of a call, if it failed, and the state it left. -/
def errorAndState {α : Type} (res : EStateM.Result DaRelayError DaRelayState α) :
    Option DaRelayError × DaRelayState :=
  match res with
  | .ok _ s => (none, s)
  | .error e s => (some e, s)

section runs

variable [Crypto] [IpText]

def DaRelayOp.perform (s : DaRelayState) : DaRelayOp → Option DaRelayError × DaRelayState
  | .stage peerAddr txBytes chunkHashPrevalidated =>
    let staged := DaRelayState.stageRelayDaTxBytesChecked peerAddr txBytes chunkHashPrevalidated s
    match staged.1.2 with
    | .ok _ => (none, staged.2)
    | .error e => (some e, staged.2)
  | .advanceTtl blocks => errorAndState (DaRelayState.advanceOrphanTtlBy blocks s)
  | .release key => errorAndState (DaRelayState.releasePeerQuotaKey key s)
  | .consume daId => errorAndState (DaRelayState.consumeCompleteSet daId s)

/-- The state after the calls, one after the other. -/
def relayRun (s : DaRelayState) (ops : List DaRelayOp) : DaRelayState :=
  ops.foldl (fun s op => (op.perform s).2) s

/-- What staging may rely on in this call. -/
def DaRelayOp.Vouched (V : Tx → Prop) : DaRelayOp → Prop
  | .stage _ txBytes chunkHashPrevalidated => DaRelayState.Vouched V txBytes chunkHashPrevalidated
  | _ => True

variable {V : Tx → Prop} {s : DaRelayState}

/-- What one call does to a state whose books balance. -/
structure DaRelayOp.Step (V : Tx → Prop) (s : DaRelayState) (op : DaRelayOp) : Prop where
  inv : (op.perform s).2.Inv V
  caps : (op.perform s).2.caps = s.caps
  closed : ∀ d r, s.setsByDaId.lookup d = some r → r.state = .completeSet → op ≠ .consume d →
    (op.perform s).2.setsByDaId.lookup d = some r
  underflow : (op.perform s).1 ≠ some .accountingUnderflow
  unchanged : ∀ e, (op.perform s).1 = some e → e ≠ .payloadCommitmentMismatch →
    (op.perform s).2 = s

theorem DaRelayOp.Step.of_ok {op : DaRelayOp} {s' : DaRelayState}
    (hrun : op.perform s = (none, s')) (hinv : s'.Inv V) (hcaps : s'.caps = s.caps)
    (hclosed : ∀ d r, s.setsByDaId.lookup d = some r → r.state = .completeSet → op ≠ .consume d →
      s'.setsByDaId.lookup d = some r) : op.Step V s := by
  constructor
  all_goals rw [hrun]
  · exact hinv
  · exact hcaps
  · exact hclosed
  · simp
  · simp

/-- **One call.** -/
theorem DaRelayOp.step (hs : s.Inv V) (op : DaRelayOp) (hV : op.Vouched V) : op.Step V s := by
  cases op with
  | stage peerAddr txBytes prevalidated =>
    obtain ⟨res, hout, hend, herr⟩ := DaRelayState.stage_outcome hs peerAddr hV
    have hstate : (DaRelayOp.perform s (.stage peerAddr txBytes prevalidated)).2 = endState res := by
      rw [← hend, DaRelayOp.perform]
      split <;> rfl
    have hres : ∀ e, (DaRelayOp.perform s (.stage peerAddr txBytes prevalidated)).1 = some e →
        ∃ s', res = .error e s' := by
      intro e he
      refine herr e ?_
      rw [DaRelayOp.perform] at he
      split at he
      · cases he
      · rename_i e' he'
        cases he
        exact he'
    refine ⟨hstate ▸ hout.inv, hstate ▸ hout.caps, fun d r hr hc _ => hstate ▸ hout.closed d r hr hc,
      fun he => ?_, fun e he hne => ?_⟩
    · obtain ⟨s', hs'⟩ := hres _ he
      exact (hout.error _ s' hs').1 rfl
    · obtain ⟨s', hs'⟩ := hres e he
      rw [hstate, hs']
      exact (hout.error e s' hs').2 (.inl hne)
  | advanceTtl blocks =>
    obtain ⟨ids, s', hrun, hinv, hcaps, hclosed⟩ := hs.advance_ok blocks
    exact .of_ok (congrArg errorAndState hrun) hinv hcaps fun d r hr hc _ => hclosed d r hr hc
  | release key =>
    obtain ⟨s', hrun, hinv, hcaps, hreleased⟩ := hs.releasePeerQuotaKey key
    exact .of_ok (congrArg errorAndState hrun) hinv hcaps
      fun d r hr hc _ => ((hreleased d).closed r hc).mpr hr
  | consume daId =>
    obtain ⟨b, s', hrun, hinv, hcaps, hother⟩ := hs.consumeCompleteSet daId
    refine .of_ok (congrArg errorAndState hrun) hinv hcaps fun d r hr _ hne => ?_
    rw [hother d fun heq => hne (by rw [heq])]
    exact hr

/-- **A run keeps the books.** -/
theorem relayRun_inv (hs : s.Inv V) (ops : List DaRelayOp) (hV : ∀ op ∈ ops, op.Vouched V) :
    (relayRun s ops).Inv V ∧ (relayRun s ops).caps = s.caps := by
  induction ops generalizing s with
  | nil => exact ⟨hs, rfl⟩
  | cons op ops ih =>
    rw [List.forall_mem_cons] at hV
    have hstep := op.step hs hV.1
    obtain ⟨h1, h2⟩ := ih hstep.inv hV.2
    exact ⟨h1, h2.trans hstep.caps⟩

omit [IpText] in
theorem DaRelayOp.vouched_true (op : DaRelayOp) : op.Vouched fun _ => True := by
  cases op with
  | stage peerAddr txBytes prevalidated => exact fun _ _ _ _ _ _ => trivial
  | advanceTtl blocks => exact trivial
  | release key => exact trivial
  | consume daId => exact trivial

theorem relayRun_closed (hs : s.Inv V) {d : Bytes32} {r : DaRelaySetRecord} {ops : List DaRelayOp}
    (hV : ∀ op ∈ ops, op.Vouched V) (hr : s.setsByDaId.lookup d = some r)
    (hc : r.state = .completeSet) (hops : DaRelayOp.consume d ∉ ops) :
    (relayRun s ops).setsByDaId.lookup d = some r := by
  induction ops generalizing s with
  | nil => exact hr
  | cons op ops ih =>
    rw [List.forall_mem_cons] at hV
    rw [List.mem_cons, not_or] at hops
    have hstep := op.step hs hV.1
    exact ih hstep.inv hV.2 (hstep.closed d r hr hc (Ne.symm hops.1)) hops.2

end runs

def wireOf (tx : Tx) : Bytes := tx.coreBytes ++ tx.tailBytes

/-- A relay that has seen nothing. -/
def emptyRelay : DaRelayState where
  caps := .default
  nextReceivedTime := 0
  orphanBytes := 0
  orphanBytesByPeerQuotaKey := ∅
  orphanBytesByDaId := ∅
  orphanCommitOverheadBytes := 0
  pinnedPayloadBytes := 0
  setsByDaId := ∅

/-- The hash is the real one. -/
@[reducible] def sampleCrypto : Crypto := Crypto.sha3With fun _ _ _ => .ok true

/-- No text is an address. -/
@[reducible] def noIpText : IpText := ⟨fun _ => none, fun _ => none⟩

end Rubin.Node
