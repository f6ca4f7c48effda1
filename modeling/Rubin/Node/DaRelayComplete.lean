/-
# Complete sets and the consensus rule

The relay decides on its own when a DA set is complete: it keeps what it parsed of each transaction,
compares payloads with the commitment once, drops them, and later hands out the stored bytes.
Consensus decides from the transactions of a block.  Here the two agree: what the relay offers to a
block template passes `validate_da_set_integrity`, and what that function accepts is what
`complete_da_set_ids_from_parsed_block` finds in a block.
-/
import Rubin.Consensus.DaSet
import Rubin.Node.DaRelayRuns

namespace Rubin.Node

open Rubin.Lib Rubin.Consensus

section whole

variable [Crypto]

/-! ## 1. Whole sets -/

/-- The transactions of one complete set. -/
structure WholeDaSet where
  daId : Bytes32
  commit : Tx
  core : DaCommitCore
  chunk : UInt16 → Tx
  isCommit : commit.txKind = 0x01 ∧ commit.daCommitCore = some core ∧ core.daId = daId
  count : core.chunkCount ≠ 0 ∧ core.chunkCount.toNat ≤ maxDaChunkCount
  isChunk : ∀ i, i < core.chunkCount → ∃ k, (chunk i).txKind = 0x02 ∧
    (chunk i).daChunkCore = some k ∧ k.daId = daId ∧ k.chunkIndex = i ∧
    sha3_256 (chunk i).daPayload = k.chunkHash
  committed : ∃ o, commit.outputs.filter isDaCommitOutput = [o] ∧ o.covenantData.length = 32 ∧
    o.covenantData = (sha3_256 ((chunkIndexes core.chunkCount).flatMap
      fun i => (chunk i).daPayload)).toList

namespace WholeDaSet

/-- The commit, then the chunks by index. -/
def txs (S : WholeDaSet) : List Tx := S.commit :: (chunkIndexes S.core.chunkCount).map S.chunk

/-- The commit as `da_set.rs` keeps it. -/
def entry (S : WholeDaSet) : Bytes32 × DaCommitSet := (S.daId, ⟨S.commit, S.core.chunkCount⟩)

theorem commitsOf_txs (S : WholeDaSet) : commitsOf S.txs = [S.entry] := by
  obtain ⟨hkind, hcore, hid⟩ := S.isCommit
  have hchunks : commitsOf ((chunkIndexes S.core.chunkCount).map S.chunk) = [] := by
    rw [commitsOf, List.filterMap_eq_nil_iff]
    intro tx htx
    obtain ⟨i, hi, rfl⟩ := List.mem_map.mp htx
    obtain ⟨k, hk, -⟩ := S.isChunk i (mem_chunkIndexes.mp hi)
    rw [hk]
    rfl
  have hcons := (entries_of_commit hkind hcore).1
  have happend : commitsOf S.txs =
      commitsOf [S.commit] ++ commitsOf ((chunkIndexes S.core.chunkCount).map S.chunk) :=
    List.filterMap_append (l := [S.commit])
  rw [happend, hchunks, hcons, hid]
  rfl

theorem chunksOf_txs (S : WholeDaSet) :
    chunksOf S.txs = (chunkIndexes S.core.chunkCount).map fun i => (S.daId, i, S.chunk i) := by
  obtain ⟨hkind, hcore, -⟩ := S.isCommit
  have hcons := (entries_of_commit hkind hcore).2
  have happend : chunksOf S.txs =
      chunksOf [S.commit] ++ chunksOf ((chunkIndexes S.core.chunkCount).map S.chunk) :=
    List.filterMap_append (l := [S.commit])
  rw [happend, hcons, List.nil_append, chunksOf, List.filterMap_map, ← List.filterMap_eq_map']
  refine List.filterMap_congr fun i hi => ?_
  obtain ⟨k, hk, hc, hid, hindex, -⟩ := S.isChunk i (mem_chunkIndexes.mp hi)
  simp [hk, hc, hid, hindex]

theorem commitsOf_all (sets : List WholeDaSet) :
    commitsOf (sets.flatMap txs) = sets.map entry := by
  rw [commitsOf, List.filterMap_flatMap, ← List.flatMap_pure_eq_map]
  exact List.flatMap_congr fun S _ => S.commitsOf_txs

theorem chunksOf_all (sets : List WholeDaSet) : chunksOf (sets.flatMap txs) =
    sets.flatMap fun S => (chunkIndexes S.core.chunkCount).map fun i => (S.daId, i, S.chunk i) := by
  rw [chunksOf, List.filterMap_flatMap]
  exact List.flatMap_congr fun S _ => S.chunksOf_txs

theorem chunksFor_all {sets : List WholeDaSet} (hnodup : (sets.map daId).Nodup) {S : WholeDaSet}
    (hS : S ∈ sets) : chunksFor S.daId (sets.flatMap txs) =
      (chunkIndexes S.core.chunkCount).map fun i => (i, S.chunk i) := by
  have hself : ∀ S' : WholeDaSet, ∀ d, ((chunkIndexes S'.core.chunkCount).map fun i =>
      (S'.daId, i, S'.chunk i)).filterMap (fun p => if p.1 = d then some p.2 else none) =
        if S'.daId = d then (chunkIndexes S'.core.chunkCount).map fun i => (i, S'.chunk i)
        else [] := by
    intro S' d
    rw [List.filterMap_map]
    split
    · rename_i heq
      rw [← List.filterMap_eq_map']
      exact List.filterMap_congr fun i _ => if_pos heq
    · rename_i hne
      rw [List.filterMap_eq_nil_iff]
      exact fun i _ => if_neg hne
  rw [chunksFor, chunksOf_all, List.filterMap_flatMap]
  simp only [hself]
  induction sets with
  | nil => cases hS
  | cons S' sets ih =>
    rw [List.map_cons, List.nodup_cons] at hnodup
    rw [List.flatMap_cons]
    rcases List.mem_cons.mp hS with rfl | hS
    · have hrest : (sets.flatMap fun S' => if S'.daId = S.daId then
          (chunkIndexes S'.core.chunkCount).map fun i => (i, S'.chunk i) else []) = [] := by
        rw [List.flatMap_eq_nil_iff]
        intro S' hS'
        refine if_neg fun heq => hnodup.1 ?_
        rw [← heq]
        exact List.mem_map_of_mem hS'
      rw [if_pos rfl, hrest, List.append_nil]
    · have hne : S'.daId ≠ S.daId := by
        intro heq
        rw [heq] at hnodup
        exact hnodup.1 (List.mem_map_of_mem hS)
      rw [if_neg hne, List.nil_append]
      exact ih hnodup.2 hS

theorem indexesComplete (S : WholeDaSet) : IndexesComplete
    ((chunkIndexes S.core.chunkCount).map fun i => (i, S.chunk i)) S.core.chunkCount := by
  rw [IndexesComplete, chunkIndexes, List.map_map, List.map_map]
  refine List.Perm.of_eq ((List.map_congr_left fun i hi => ?_).trans (List.map_id _))
  have hlt := S.core.chunkCount.toNat_lt
  rw [List.mem_range] at hi
  exact UInt16.toNat_ofNat_of_lt' (Nat.lt_trans hi hlt)

theorem payloadCommitted (S : WholeDaSet) : PayloadCommitted
    ((chunkIndexes S.core.chunkCount).map fun i => (i, S.chunk i)) S.entry.2 := by
  refine ⟨fun i => S.chunk (UInt16.ofNat i), fun i hi => ?_, ?_⟩
  · refine List.mem_map.mpr ⟨UInt16.ofNat i, ?_, rfl⟩
    exact List.mem_map.mpr ⟨i, List.mem_range.mpr hi, rfl⟩
  · obtain ⟨o, hone, hlen, hdata⟩ := S.committed
    refine ⟨o, hone, hlen, ?_⟩
    rw [hdata, chunkIndexes, List.flatMap_map]
    rfl

theorem mem_txs {S : WholeDaSet} {tx : Tx} (h : tx ∈ S.txs) :
    tx.HasDaCore ∧ ChunkHashed tx := by
  rcases List.mem_cons.mp h with rfl | h
  · obtain ⟨hkind, hcore, -⟩ := S.isCommit
    refine ⟨⟨fun _ => by rw [hcore]; rfl, fun hother => ?_⟩, fun k hother => ?_⟩
    · rw [hkind] at hother
      cases hother
    · rw [hkind] at hother
      cases hother
  · obtain ⟨i, hi, rfl⟩ := List.mem_map.mp h
    obtain ⟨k, hkind, hcore, -, -, hhash⟩ := S.isChunk i (mem_chunkIndexes.mp hi)
    refine ⟨⟨fun hother => ?_, fun _ => by rw [hcore]; rfl⟩, fun k' _ hk' => ?_⟩
    · rw [hkind] at hother
      cases hother
    · rw [hcore] at hk'
      cases hk'
      exact hhash

/-- **Several whole sets in one block.** -/
theorem daSetRule {sets : List WholeDaSet} (hnodup : (sets.map daId).Nodup)
    (hlen : sets.length ≤ maxDaBatchesPerBlock) : DaSetRule (sets.flatMap txs) := by
  have hcommits := commitsOf_all sets
  have hids : (commitsOf (sets.flatMap txs)).map Prod.fst = sets.map daId := by
    rw [hcommits, List.map_map]
    rfl
  have hentry : ∀ p ∈ commitsOf (sets.flatMap txs), ∃ S ∈ sets, p = S.entry := by
    intro p hp
    rw [hcommits] at hp
    obtain ⟨S, hS, rfl⟩ := List.mem_map.mp hp
    exact ⟨S, hS, rfl⟩
  refine ⟨?_, hids ▸ hnodup, ?_, ?_, ?_, ?_, ?_⟩
  · intro tx htx
    obtain ⟨S, -, hS⟩ := List.mem_flatMap.mp htx
    exact (mem_txs hS).2
  · intro p hp
    rw [chunksOf_all] at hp
    obtain ⟨S, hS, hp⟩ := List.mem_flatMap.mp hp
    obtain ⟨i, -, rfl⟩ := List.mem_map.mp hp
    rw [hids]
    exact List.mem_map_of_mem hS
  · intro p hp
    obtain ⟨S, -, rfl⟩ := hentry p hp
    exact ⟨toNat_pos_iff.mpr S.count.1, S.count.2⟩
  · intro p hp
    obtain ⟨S, hS, rfl⟩ := hentry p hp
    change IndexesComplete (chunksFor S.daId _) _
    rw [chunksFor_all hnodup hS]
    exact S.indexesComplete
  · rw [hcommits, List.length_map]
    exact hlen
  · intro p hp
    obtain ⟨S, hS, rfl⟩ := hentry p hp
    change PayloadCommitted (chunksFor S.daId _) _
    rw [chunksFor_all hnodup hS]
    exact S.payloadCommitted

theorem validateDaSetIntegrity_ok {sets : List WholeDaSet} (hnodup : (sets.map daId).Nodup)
    (hlen : sets.length ≤ maxDaBatchesPerBlock) :
    validateDaSetIntegrity (sets.flatMap txs) = .ok () := by
  have hcores : ∀ tx ∈ sets.flatMap txs, tx.HasDaCore := by
    intro tx htx
    obtain ⟨S, -, hS⟩ := List.mem_flatMap.mp htx
    exact (mem_txs hS).1
  have hrej := validateDaSetIntegrity_rejection hcores
  rw [firstFault_eq_none.mpr (daSetRule_iff_stages.mp (daSetRule hnodup hlen)),
    rejection_eq_none] at hrej
  exact hrej

end WholeDaSet

/-! ## 2. What a record offers -/

/-- The transactions of a candidate, as bytes. -/
def CompleteDaSetCandidate.wire (candidate : CompleteDaSetCandidate) : List Bytes :=
  candidate.commitTx :: candidate.chunks.map CompleteDaSetChunkCandidate.tx

/-- The payload lengths of the chunks of a candidate. -/
def CompleteDaSetCandidate.payloadLengths (candidate : CompleteDaSetCandidate) : List Nat :=
  candidate.chunks.map fun chunk => (payloadIn chunk.tx).length

theorem exists_of_forall₂ {bs : List Bytes} {txs : List Tx} (h : List.Forall₂ ParsesTo bs txs) :
    ∀ {b}, b ∈ bs → ∃ tx, ParsesTo b tx := by
  induction h with
  | nil => exact nofun
  | cons hhead _ ih =>
    intro b hb
    rcases List.mem_cons.mp hb with rfl | hb
    · exact ⟨_, hhead⟩
    · exact ih hb

/-- The candidate is the whole set `S`. -/
structure Offers (candidate : CompleteDaSetCandidate) (S : WholeDaSet) : Prop where
  daId : candidate.daId = S.daId
  wire : List.Forall₂ ParsesTo candidate.wire S.txs
  payloadBytes : candidate.payloadBytes = candidate.payloadLengths.sum

namespace DaRelaySetRecord

variable {d : Bytes32} {r : DaRelaySetRecord} {candidate : CompleteDaSetCandidate}

omit [Crypto] in
theorem completeDaSetCandidate_eq_some {c : DaRelayCommit} (hc : r.commit = some c)
    (h : r.completeDaSetCandidate = some candidate) :
    candidate.daId = r.daId ∧ candidate.payloadBytes = r.payloadBytes ∧
      candidate.commitTx = c.txBytes ∧
      candidate.chunks.map some = (chunkIndexes c.chunkCount).map r.completeDaSetChunk := by
  unfold completeDaSetCandidate at h
  split at h
  · cases h
  · rw [hc] at h
    dsimp only at h
    split at h
    · cases h
    · obtain ⟨chunks, hchunks, rfl⟩ := Option.map_eq_some_iff.mp h
      exact ⟨rfl, rfl, rfl, (map_eq_of_mapM hchunks).symm⟩

omit [Crypto] in
theorem completeDaSetChunk_eq {i : UInt16} {k : DaRelayChunk} (hk : r.chunks.lookup i = some k)
    (hbytes : k.txBytes ≠ []) : r.completeDaSetChunk i = some ⟨i, k.txBytes⟩ := by
  rw [completeDaSetChunk, hk]
  exact if_neg hbytes

omit [Crypto] in
theorem relayDaCommitPayloadCommitment_eq_some {tx : Tx} {commitment : Bytes32}
    (h : relayDaCommitPayloadCommitment tx = some commitment) :
    ∃ o, tx.outputs.filter isDaCommitOutput = [o] ∧ o.covenantData.length = 32 ∧
      o.covenantData = commitment.toList := by
  unfold relayDaCommitPayloadCommitment at h
  split at h
  · cases h
  · rename_i o others hfilter
    split at h
    · cases h
    · rename_i hor
      rw [not_or, not_not, not_not] at hor
      cases h
      rw [hor.2] at hfilter
      exact ⟨o, hfilter, hor.1, (BytesN.toList_ofList hor.1).symm⟩

/-- **A record that is offered is a whole set.** -/
theorem Complete.offers (h : r.Complete ChunkHashed d)
    (hcand : r.completeDaSetCandidate = some candidate) :
    ∃ S : WholeDaSet, Offers candidate S ∧ S.daId = d := by
  obtain ⟨c, hc, hstored, hindexes, hsum, hcommitment⟩ := h.commit
  obtain ⟨tx, core, hparse, hkind, hcore, hid, hcount, houtput⟩ := hstored.source
  obtain ⟨hdaId, hpayload, hcommitTx, hchunks⟩ := completeDaSetCandidate_eq_some hc hcand
  -- the transaction stored at an index
  have hstoredChunk : ∀ i, i < c.chunkCount → ∃ k tx core, r.chunks.lookup i = some k ∧
      k.txBytes ≠ [] ∧ ParsesTo k.txBytes tx ∧ tx.txKind = 0x02 ∧ tx.daChunkCore = some core ∧
      core.daId = d ∧ core.chunkIndex = i ∧ ChunkHashed tx := by
    intro i hi
    obtain ⟨k, hk⟩ := (hindexes i).mpr hi
    obtain ⟨⟨-, hne⟩, tx, core, hp, hkind, hcore, hid, hindex, hV⟩ := h.chunk i k hk
    exact ⟨k, tx, core, hk, hne, hp, hkind, hcore, hid, hindex, hV⟩
  have : Nonempty Tx := ⟨tx⟩
  have : Nonempty DaChunkCore := ⟨⟨d, 0, d⟩⟩
  have : Nonempty DaRelayChunk := ⟨⟨d, d, c.peerQuotaKey, 0, [], 0, []⟩⟩
  choose! k chunkTx chunkCore hk hne hp hkind' hcore' hid' hindex' hhashed using hstoredChunk
  have hlist : candidate.chunks = (chunkIndexes c.chunkCount).map fun i => ⟨i, (k i).txBytes⟩ := by
    have hinj : Function.Injective
        (List.map (some : CompleteDaSetChunkCandidate → Option CompleteDaSetChunkCandidate)) :=
      List.map_injective_iff.mpr fun _ _ => Option.some.inj
    refine hinj ?_
    rw [hchunks, List.map_map]
    refine List.map_congr_left fun i hi => ?_
    have hi := mem_chunkIndexes.mp hi
    exact completeDaSetChunk_eq (hk i hi) (hne i hi)
  have hpay : ∀ i ∈ chunkIndexes c.chunkCount, r.payloadAt i = (chunkTx i).daPayload := by
    intro i hi
    have hi := mem_chunkIndexes.mp hi
    rw [payloadAt, hk i hi]
    exact storedPayload_eq (hp i hi)
  have hflat : (chunkIndexes c.chunkCount).flatMap r.payloadAt =
      (chunkIndexes c.chunkCount).flatMap fun i => (chunkTx i).daPayload :=
    List.flatMap_congr hpay
  obtain ⟨o, hone, hlen, hdata⟩ := relayDaCommitPayloadCommitment_eq_some houtput
  let S : WholeDaSet :=
    { daId := d, commit := tx, core := core, chunk := chunkTx
      isCommit := ⟨hkind, hcore, hid⟩
      count := hcount ▸ hstored.count
      isChunk := by
        intro i hi
        rw [hcount] at hi
        exact ⟨chunkCore i, hkind' i hi, hcore' i hi, hid' i hi, hindex' i hi,
          hhashed i hi (chunkCore i) (hkind' i hi) (hcore' i hi)⟩
      committed := ⟨o, hone, hlen, by rw [hdata, hcommitment, hflat, hcount]⟩ }
  refine ⟨S, ⟨hdaId.trans h.daId, ?_, ?_⟩, rfl⟩
  · refine .cons (hcommitTx ▸ hparse) ?_
    change List.Forall₂ ParsesTo _ ((chunkIndexes core.chunkCount).map chunkTx)
    rw [hlist, hcount, List.map_map, List.forall₂_map_left_iff, List.forall₂_map_right_iff,
      List.forall₂_same]
    exact fun i hi => hp i (mem_chunkIndexes.mp hi)
  · rw [hpayload, hsum, CompleteDaSetCandidate.payloadLengths, hlist, List.map_map]
    refine congrArg _ (List.map_congr_left fun i hi => ?_)
    rw [hpay i hi, Function.comp_apply, (hp i (mem_chunkIndexes.mp hi)).payloadIn_eq]

end DaRelaySetRecord

/-! ## 3. The payload budget -/

namespace DaRelayState

/-- What has been offered of the records seen so far. -/
structure OfferedFrom (maxPayloadBytes : Nat) (seen : List DaRelaySetRecord)
    (acc : List CompleteDaSetCandidate × Nat) : Prop where
  ids : (acc.1.map CompleteDaSetCandidate.daId).Sublist (seen.map DaRelaySetRecord.daId)
  source : ∀ candidate ∈ acc.1, ∃ r ∈ seen, r.state = .completeSet ∧
    r.completeDaSetCandidate = some candidate
  sum : acc.2 = (acc.1.map CompleteDaSetCandidate.payloadBytes).sum
  within : acc.2 ≤ maxPayloadBytes

variable {maxPayloadBytes : Nat} {seen records : List DaRelaySetRecord}
  {acc : List CompleteDaSetCandidate × Nat} {r : DaRelaySetRecord}

omit [Crypto] in
theorem OfferedFrom.skip (h : OfferedFrom maxPayloadBytes seen acc) :
    OfferedFrom maxPayloadBytes (seen ++ [r]) acc where
  ids := by
    rw [List.map_append]
    exact h.ids.trans (List.sublist_append_left _ _)
  source := by
    intro candidate hc
    obtain ⟨r', hr', hrest⟩ := h.source candidate hc
    exact ⟨r', List.mem_append_left _ hr', hrest⟩
  sum := h.sum
  within := h.within

omit [Crypto] in
theorem candidate_fields {candidate : CompleteDaSetCandidate}
    (h : r.completeDaSetCandidate = some candidate) :
    candidate.daId = r.daId ∧ candidate.payloadBytes = r.payloadBytes := by
  cases hc : r.commit with
  | none =>
    unfold DaRelaySetRecord.completeDaSetCandidate at h
    rw [hc] at h
    split at h
    · cases h
    · cases h
  | some c =>
    obtain ⟨h1, h2, -⟩ := DaRelaySetRecord.completeDaSetCandidate_eq_some hc h
    exact ⟨h1, h2⟩

omit [Crypto] in
theorem OfferedFrom.step (h : OfferedFrom maxPayloadBytes seen acc) :
    OfferedFrom maxPayloadBytes (seen ++ [r]) (offerRecord maxPayloadBytes acc r) := by
  unfold offerRecord
  split
  · exact h.skip
  · rename_i hstate
    split
    · exact h.skip
    · split
      · exact h.skip
      · rename_i hle
        cases hcand : r.completeDaSetCandidate with
        | none => exact h.skip
        | some candidate =>
          obtain ⟨hid, hbytes⟩ := candidate_fields hcand
          refine ⟨?_, ?_, ?_, Nat.not_lt.mp hle⟩
          · rw [List.map_append, List.map_append]
            refine h.ids.append ?_
            rw [List.map_cons, List.map_cons, hid]
            exact List.Sublist.refl _
          · intro c hc
            rcases List.mem_append.mp hc with hc | hc
            · exact h.skip.source c hc
            · cases List.mem_singleton.mp hc
              exact ⟨r, by simp, not_not.mp hstate, hcand⟩
          · rw [List.map_append, List.sum_append, ← h.sum, List.map_cons, List.map_nil,
              List.sum_singleton, hbytes]

omit [Crypto] in
theorem OfferedFrom.loop (records : List DaRelaySetRecord) : ∀ {seen : List DaRelaySetRecord}
    {acc : List CompleteDaSetCandidate × Nat}, OfferedFrom maxPayloadBytes seen acc →
      OfferedFrom maxPayloadBytes (seen ++ records)
        (records.foldl (offerRecord maxPayloadBytes) acc) := by
  induction records with
  | nil =>
    intro seen acc h
    rw [List.append_nil]
    exact h
  | cons r records ih =>
    intro seen acc h
    rw [List.foldl_cons, ← List.singleton_append, ← List.append_assoc]
    exact ih h.step

omit [Crypto] in
/-- **What is offered** comes from complete records, each at most once, within the budget. -/
theorem completeDaSetCandidates_spec (s : DaRelayState) (maxPayloadBytes : Nat) :
    ∃ n, OfferedFrom maxPayloadBytes ((daIdOrder.entries s.setsByDaId).map Prod.snd)
      (s.completeDaSetCandidates maxPayloadBytes, n) := by
  unfold completeDaSetCandidates
  have hstart : OfferedFrom maxPayloadBytes [] ([], 0) :=
    ⟨.slnil, nofun, rfl, Nat.zero_le _⟩
  split
  · exact ⟨0, (List.nil_sublist _), nofun, rfl, Nat.zero_le _⟩
  · exact ⟨_, hstart.loop _⟩

variable {s : DaRelayState}

theorem Inv.candidates (hs : s.Inv ChunkHashed) (maxPayloadBytes : Nat) :
    (∀ candidate ∈ s.completeDaSetCandidates maxPayloadBytes, ∃ S, Offers candidate S) ∧
    ((s.completeDaSetCandidates maxPayloadBytes).map CompleteDaSetCandidate.daId).Nodup := by
  obtain ⟨n, h⟩ := s.completeDaSetCandidates_spec maxPayloadBytes
  have hkey : ∀ p ∈ daIdOrder.entries s.setsByDaId, p.2.Kept ChunkHashed p.1 :=
    fun p hp => hs.kept p.1 p.2 (daIdOrder.mem_entries.mp hp)
  constructor
  · intro candidate hc
    obtain ⟨r, hr, hstate, hcand⟩ := h.source candidate hc
    obtain ⟨p, hp, rfl⟩ := List.mem_map.mp hr
    obtain ⟨S, hS, -⟩ := ((hkey p hp).complete hstate).offers hcand
    exact ⟨S, hS⟩
  · refine List.Nodup.sublist h.ids ?_
    have hids : ((daIdOrder.entries s.setsByDaId).map Prod.snd).map DaRelaySetRecord.daId =
        daIdOrder.order s.setsByDaId.keys := by
      rw [← daIdOrder.map_fst_entries, List.map_map]
      exact List.map_congr_left fun p hp => (hkey p hp).daId_eq
    rw [hids]
    exact daIdOrder.once _

end DaRelayState

theorem candidates_pass {cs : List CompleteDaSetCandidate}
    (hoffers : ∀ candidate ∈ cs, ∃ S, Offers candidate S)
    (hnodup : (cs.map CompleteDaSetCandidate.daId).Nodup)
    (hlen : cs.length ≤ maxDaBatchesPerBlock) :
    ∃ txs, List.Forall₂ ParsesTo (cs.flatMap CompleteDaSetCandidate.wire) txs ∧
      validateDaSetIntegrity txs = .ok () := by
  have hsets : ∃ sets, List.Forall₂ Offers cs sets := by
    clear hnodup hlen
    induction cs with
    | nil => exact ⟨[], .nil⟩
    | cons c cs ih =>
      rw [List.forall_mem_cons] at hoffers
      obtain ⟨S, hS⟩ := hoffers.1
      obtain ⟨sets, hsets⟩ := ih hoffers.2
      exact ⟨S :: sets, .cons hS hsets⟩
  obtain ⟨sets, hsets⟩ := hsets
  have hids : sets.map WholeDaSet.daId = cs.map CompleteDaSetCandidate.daId := by
    clear hoffers hnodup hlen
    induction hsets with
    | nil => rfl
    | cons hS _ ih => rw [List.map_cons, List.map_cons, ih, hS.daId]
  refine ⟨sets.flatMap WholeDaSet.txs, List.rel_flatMap hsets fun _ _ hS => hS.wire, ?_⟩
  exact WholeDaSet.validateDaSetIntegrity_ok (hids ▸ hnodup) (hsets.length_eq ▸ hlen)

end whole

/-! ## 4. The sets of an accepted block -/

/-- What the loop over a block has recorded. -/
structure RecordedDaSets (txs : List Tx) (sets : AcceptedBlockDaSets) : Prop where
  commits : ∀ d, ((sets.lookup d).getD .empty).commitCount = ((commitsOf txs).map Prod.fst).count d
  chunks : ∀ d, ((sets.lookup d).getD .empty).chunks = ((chunksFor d txs).map Prod.fst).toFinset
  chunkCount : ((commitsOf txs).map Prod.fst).Nodup → ∀ p ∈ commitsOf txs,
    ((sets.lookup p.1).getD .empty).chunkCount = p.2.chunkCount

namespace RecordedDaSets

variable {txs : List Tx} {sets : AcceptedBlockDaSets} {tx : Tx}

theorem skip (h : RecordedDaSets txs sets) (hcommit : commitsOf [tx] = [])
    (hchunk : chunksOf [tx] = []) : RecordedDaSets (txs ++ [tx]) sets := by
  have hcommits : commitsOf (txs ++ [tx]) = commitsOf txs := by
    rw [commitsOf_concat, hcommit, List.append_nil]
  refine ⟨?_, fun d => ?_, ?_⟩
  · rw [hcommits]
    exact h.commits
  · rw [chunksFor_concat_skip hchunk]
    exact h.chunks d
  · rw [hcommits]
    exact h.chunkCount

theorem commit {core : DaCommitCore} (h : RecordedDaSets txs sets) (hk : tx.txKind = 0x01)
    (hc : tx.daCommitCore = some core) :
    RecordedDaSets (txs ++ [tx]) (recordAcceptedBlockDaTx sets tx) := by
  obtain ⟨hcommit, hchunk⟩ := entries_of_commit hk hc
  have hcommits : commitsOf (txs ++ [tx]) = commitsOf txs ++ [(core.daId, ⟨tx, core.chunkCount⟩)] := by
    rw [commitsOf_concat, hcommit]
  have hlook : ∀ d, (recordAcceptedBlockDaTx sets tx).lookup d = if d = core.daId then
      some { (sets.lookup core.daId).getD .empty with
        commitCount := ((sets.lookup core.daId).getD .empty).commitCount + 1
        chunkCount := core.chunkCount } else sets.lookup d := by
    intro d
    rw [recordAcceptedBlockDaTx, if_pos hk, hc]
    exact lookup_insert_eq ..
  refine ⟨fun d => ?_, fun d => ?_, ?_⟩
  · rw [hlook, hcommits, List.map_append, List.count_append, ← h.commits]
    by_cases heq : d = core.daId
    · rw [if_pos heq, heq]
      simp
    · rw [if_neg heq]
      simp [Ne.symm heq]
  · rw [hlook, chunksFor_concat_skip hchunk, ← h.chunks]
    by_cases heq : d = core.daId
    · rw [if_pos heq, heq]
      rfl
    · rw [if_neg heq]
  · rw [hcommits, nodup_keys_concat]
    rintro ⟨hnodup, hnew⟩ p hp
    rw [hlook]
    rcases List.mem_append.mp hp with hp | hp
    · have hne : p.1 ≠ core.daId := by
        intro heq
        rw [← heq] at hnew
        exact hnew (List.mem_map_of_mem hp)
      rw [if_neg hne]
      exact h.chunkCount hnodup p hp
    · cases List.mem_singleton.mp hp
      rw [if_pos rfl]
      rfl

theorem chunk {core : DaChunkCore} (h : RecordedDaSets txs sets) (hk : tx.txKind = 0x02)
    (hc : tx.daChunkCore = some core) :
    RecordedDaSets (txs ++ [tx]) (recordAcceptedBlockDaTx sets tx) := by
  obtain ⟨hcommit, hchunk⟩ := entries_of_chunk hk hc
  have hcommits : commitsOf (txs ++ [tx]) = commitsOf txs := by
    rw [commitsOf_concat, hcommit, List.append_nil]
  have hkind : ¬ tx.txKind = 0x01 := by
    rw [hk]
    decide
  have hlook : ∀ d, (recordAcceptedBlockDaTx sets tx).lookup d = if d = core.daId then
      some { (sets.lookup core.daId).getD .empty with
        chunks := insert core.chunkIndex ((sets.lookup core.daId).getD .empty).chunks }
      else sets.lookup d := by
    intro d
    rw [recordAcceptedBlockDaTx, if_neg hkind, if_pos hk, hc]
    exact lookup_insert_eq ..
  refine ⟨fun d => ?_, fun d => ?_, ?_⟩
  · rw [hlook, hcommits, ← h.commits]
    by_cases heq : d = core.daId
    · rw [if_pos heq, heq]
      rfl
    · rw [if_neg heq]
  · rw [hlook]
    by_cases heq : d = core.daId
    · rw [if_pos heq, heq, chunksFor_concat_self hchunk]
      change insert core.chunkIndex _ = _
      rw [h.chunks, List.map_append, List.toFinset_append]
      ext i
      simp
    · rw [if_neg heq, chunksFor_concat_other hchunk heq]
      exact h.chunks d
  · rw [hcommits]
    intro hnodup p hp
    rw [hlook]
    by_cases heq : p.1 = core.daId
    · rw [if_pos heq, ← heq]
      exact h.chunkCount hnodup p hp
    · rw [if_neg heq]
      exact h.chunkCount hnodup p hp

theorem step (h : RecordedDaSets txs sets) (htx : tx.HasDaCore) :
    RecordedDaSets (txs ++ [tx]) (recordAcceptedBlockDaTx sets tx) := by
  by_cases h1 : tx.txKind = 0x01
  · obtain ⟨core, hc⟩ := Option.isSome_iff_exists.mp (htx.1 h1)
    exact h.commit h1 hc
  · by_cases h2 : tx.txKind = 0x02
    · obtain ⟨core, hc⟩ := Option.isSome_iff_exists.mp (htx.2 h2)
      exact h.chunk h2 hc
    · obtain ⟨hcommit, hchunk⟩ := entries_of_other h1 h2
      rw [recordAcceptedBlockDaTx, if_neg h1, if_neg h2]
      exact h.skip hcommit hchunk

/-- **The whole block.** -/
theorem block (txs : List Tx) (h : ∀ tx ∈ txs, tx.HasDaCore) :
    RecordedDaSets txs (txs.foldl recordAcceptedBlockDaTx ∅) := by
  induction txs using List.reverseRecOn with
  | nil =>
    refine ⟨fun d => ?_, fun d => ?_, fun _ => nofun⟩
    · rw [List.foldl_nil, Finmap.lookup_empty]
      rfl
    · rw [List.foldl_nil, Finmap.lookup_empty]
      rfl
  | append_singleton txs tx ih =>
    rw [List.foldl_append]
    exact (ih fun tx htx => h tx (List.mem_append_left _ htx)).step (h tx (by simp))

variable [Crypto]

theorem complete_iff (h : RecordedDaSets txs sets) (hrule : DaSetRule txs) (d : Bytes32) :
    ((sets.lookup d).getD .empty).complete = true ↔ d ∈ (commitsOf txs).map Prod.fst := by
  constructor
  · intro hcomplete
    by_contra hnone
    have hzero := h.commits d
    rw [List.count_eq_zero.mpr hnone] at hzero
    rw [AcceptedBlockDaSet.complete, if_pos (.inl (by rw [hzero]; decide))] at hcomplete
    cases hcomplete
  · intro hd
    obtain ⟨p, hp, rfl⟩ := List.mem_map.mp hd
    have hone := h.commits p.1
    rw [List.count_eq_one_of_mem hrule.oneCommit hd] at hone
    have hcount := h.chunkCount hrule.oneCommit p hp
    obtain ⟨hpos, hmax⟩ := hrule.chunkCount p hp
    -- the recorded indexes are those below the count
    have hindexes := hrule.indexes p hp
    have hnodup : ((chunksFor p.1 txs).map Prod.fst).Nodup := by
      have hnat := hindexes.nodup_iff.mpr List.nodup_range
      have hcomp : (chunksFor p.1 txs).map (fun c => c.1.toNat) =
          ((chunksFor p.1 txs).map Prod.fst).map UInt16.toNat := by
        rw [List.map_map]
        rfl
      rw [hcomp] at hnat
      exact hnat.of_map _
    have hcard : ((sets.lookup p.1).getD .empty).chunks.card = p.2.chunkCount.toNat := by
      have hlen := hindexes.length_eq
      rw [List.length_map, List.length_range] at hlen
      rw [h.chunks, List.toFinset_card_of_nodup hnodup, List.length_map, hlen]
    have hmem : ∀ i, i < p.2.chunkCount → i ∈ ((sets.lookup p.1).getD .empty).chunks := by
      intro i hi
      have hrange : i.toNat ∈ List.range p.2.chunkCount.toNat :=
        List.mem_range.mpr (UInt16.lt_iff_toNat_lt.mp hi)
      obtain ⟨c, hc, heq⟩ := List.mem_map.mp (hindexes.mem_iff.mpr hrange)
      rw [h.chunks, List.mem_toFinset, ← UInt16.toNat_inj.mp heq]
      exact List.mem_map_of_mem hc
    have hgo : ¬ (((sets.lookup p.1).getD .empty).commitCount ≠ 1 ∨
        ((sets.lookup p.1).getD .empty).chunkCount = 0 ∨
        ((sets.lookup p.1).getD .empty).chunkCount.toNat > maxDaChunkCount) := by
      rw [hone, hcount]
      refine not_or.mpr ⟨not_not.mpr rfl, not_or.mpr ⟨toNat_pos_iff.mp hpos, ?_⟩⟩
      exact Nat.not_lt.mpr hmax
    rw [AcceptedBlockDaSet.complete, if_neg hgo, hcount, if_neg (not_not.mpr hcard), List.all_eq_true]
    exact fun i hi => decide_eq_true (hmem i (mem_chunkIndexes.mp hi))

end RecordedDaSets

theorem completeDaSetIds_of_rule [Crypto] {txs : List Tx} (h : ∀ tx ∈ txs, tx.HasDaCore)
    (hrule : DaSetRule txs) :
    ∃ ids, completeDaSetIdsFromParsedBlock txs = .ok ids ∧
      ids.Perm ((commitsOf txs).map Prod.fst) ∧ ids.Pairwise (· < ·) := by
  have hrec := RecordedDaSets.block txs h
  unfold completeDaSetIdsFromParsedBlock
  generalize txs.foldl recordAcceptedBlockDaTx ∅ = sets at hrec
  dsimp only
  have hsorted : (((daIdOrder.entries sets).filter fun p => p.2.complete).map Prod.fst).Pairwise
      (· < ·) := by
    have hall := VisitOrder.pairwise_ascendingBy (id : Bytes32 → Bytes32) Function.injective_id
      sets.keys
    have hsub : (((daIdOrder.entries sets).filter fun p => p.2.complete).map Prod.fst).Sublist
        (daIdOrder.order sets.keys) := by
      rw [← daIdOrder.map_fst_entries]
      exact List.filter_sublist.map _
    exact hall.sublist hsub
  have hperm : (((daIdOrder.entries sets).filter fun p => p.2.complete).map Prod.fst).Perm
      ((commitsOf txs).map Prod.fst) := by
    refine (List.perm_ext_iff_of_nodup (hsorted.imp fun hlt => hlt.ne) hrule.oneCommit).mpr
      fun d => ?_
    rw [← hrec.complete_iff hrule d, List.mem_map]
    constructor
    · rintro ⟨p, hp, rfl⟩
      obtain ⟨hp, hcomplete⟩ := List.mem_filter.mp hp
      rw [daIdOrder.mem_entries.mp hp]
      exact hcomplete
    · intro hcomplete
      cases hd : sets.lookup d with
      | none =>
        rw [hd] at hcomplete
        cases hcomplete
      | some set =>
        rw [hd] at hcomplete
        exact ⟨(d, set), List.mem_filter.mpr ⟨daIdOrder.mem_entries.mpr hd, hcomplete⟩, rfl⟩
  have hlen : ¬ (((daIdOrder.entries sets).filter fun p => p.2.complete).map Prod.fst).length >
      maxDaBatchesPerBlock := by
    have hle := hrule.batch
    rw [← List.length_map (f := Prod.fst), ← hperm.length_eq] at hle
    exact Nat.not_lt.mpr hle
  exact ⟨_, if_neg hlen, hperm, hsorted⟩

/-! ## 5. The relay and the rule -/

section runs

variable [Crypto] [IpText]

/-- A chunk is staged as prevalidated only if its payload hashes to its chunk hash. -/
def DaRelayOp.Prevalidated : DaRelayOp → Prop
  | .stage _ txBytes true => ∀ tx, ParsesTo txBytes tx → ChunkHashed tx
  | _ => True

omit [IpText] in
theorem DaRelayOp.Prevalidated.vouched {op : DaRelayOp} (h : op.Prevalidated) :
    op.Vouched ChunkHashed := by
  cases op with
  | stage peerAddr txBytes prevalidated =>
    intro tx core hparse _ hcore hor
    cases prevalidated with
    | true => exact h tx hparse
    | false =>
      have hhash := hor.resolve_left nofun
      intro core' _ hcore'
      rw [hcore] at hcore'
      cases hcore'
      exact hhash
  | advanceTtl blocks => exact trivial
  | release key => exact trivial
  | consume daId => exact trivial

/-- **Relay completeness is consensus validity.**  Whatever calls have been made, with chunks staged
as prevalidated only if their payload hashes to their chunk hash, and whatever the budget: each set
that is offered counts its payload right, all of them together stay within the budget, every stored
transaction parses with no bytes left over, and the transactions of any of them, up to the number of
sets a block may have, pass the validator.  And of a block whose transactions pass, the ids found are
those of its commits, in ascending order. -/
theorem relay_complete_iff_consensus :
    (∀ (caps : DaRelayCaps) (s₀ : DaRelayState), DaRelayState.new caps = .ok s₀ →
      ∀ ops : List DaRelayOp, (∀ op ∈ ops, op.Prevalidated) → ∀ maxPayloadBytes : Nat,
      let candidates := (relayRun s₀ ops).completeDaSetCandidates maxPayloadBytes
      (∀ candidate ∈ candidates, candidate.payloadBytes = candidate.payloadLengths.sum ∧
        ∀ b ∈ candidate.wire, ∃ tx, ParsesTo b tx) ∧
      (candidates.map CompleteDaSetCandidate.payloadBytes).sum ≤ maxPayloadBytes ∧
      ∀ cs : List CompleteDaSetCandidate, cs.Subperm candidates → cs.length ≤ maxDaBatchesPerBlock →
        ∃ txs, List.Forall₂ ParsesTo (cs.flatMap CompleteDaSetCandidate.wire) txs ∧
          validateDaSetIntegrity txs = .ok ()) ∧
    ∀ txs : List Tx, (∀ tx ∈ txs, tx.IsParsed) → validateDaSetIntegrity txs = .ok () →
      ∃ ids, completeDaSetIdsFromParsedBlock txs = .ok ids ∧
        ids.Perm ((commitsOf txs).map Prod.fst) ∧ ids.Pairwise (· < ·) := by
  constructor
  · intro caps s₀ hnew ops hops maxPayloadBytes candidates
    obtain ⟨hinv₀, -⟩ := DaRelayState.Inv.new (V := ChunkHashed) hnew
    obtain ⟨hs, -⟩ := relayRun_inv hinv₀ ops fun op hop => (hops op hop).vouched
    obtain ⟨hoffers, hnodup⟩ := hs.candidates maxPayloadBytes
    refine ⟨fun candidate hc => ?_, ?_, fun cs hcs hlen => ?_⟩
    · obtain ⟨S, hS⟩ := hoffers candidate hc
      refine ⟨hS.payloadBytes, fun b hb => ?_⟩
      exact exists_of_forall₂ hS.wire hb
    · obtain ⟨n, h⟩ := (relayRun s₀ ops).completeDaSetCandidates_spec maxPayloadBytes
      exact h.sum ▸ h.within
    · refine candidates_pass (fun c hc => hoffers c (hcs.subset hc)) ?_ hlen
      obtain ⟨l, hperm, hsub⟩ := hcs
      exact (hperm.map _).nodup_iff.mp (hnodup.sublist (hsub.map _))
  · intro txs hparsed hok
    have hcores : ∀ tx ∈ txs, tx.HasDaCore := fun tx htx => (hparsed tx htx).hasDaCore
    refine completeDaSetIds_of_rule hcores ?_
    rw [daSetRule_iff_stages, ← firstFault_eq_none, ← validateDaSetIntegrity_rejection hcores,
      rejection_eq_none]
    exact hok

end runs

section sample

attribute [local instance] sampleCrypto noIpText

def singleCommit : Tx := { sampleCommit [7] with
  daCommitCore := some ⟨zero32, 1, zero32, 0, zero32, zero32, zero32, 0, []⟩ }

/-- The commit is staged, then its chunk. -/
def singleRun : List DaRelayOp :=
  [.stage "" (wireOf singleCommit) false, .stage "" (wireOf (sampleChunk 0 [7])) false]

/-- A set of one chunk is offered and passes, and the sample block has one set. -/
theorem relay_complete_iff_consensus_samples :
    (∃ txs, List.Forall₂ ParsesTo [wireOf singleCommit, wireOf (sampleChunk 0 [7])] txs ∧
      validateDaSetIntegrity txs = .ok ()) ∧
    ∃ ids, completeDaSetIdsFromParsedBlock sampleDaSet = .ok ids ∧ ids.Perm [zero32] := by
  have hcandidates : (relayRun emptyRelay singleRun).completeDaSetCandidates 1 =
      [⟨zero32, 1, wireOf singleCommit, [⟨0, wireOf (sampleChunk 0 [7])⟩]⟩] := by
    decide +kernel
  have hblock : validateDaSetIntegrity sampleDaSet = .ok () :=
    exists_unit.mp (exists_ok_of_isOk (by decide +kernel))
  have h := relay_complete_iff_consensus
  constructor
  · obtain ⟨-, -, hpass⟩ := h.1 .default emptyRelay rfl singleRun
      (by simp [singleRun, DaRelayOp.Prevalidated]) 1
    have hall := hpass _ (List.Subperm.refl _) (by rw [hcandidates]; decide)
    rw [hcandidates] at hall
    exact hall
  · obtain ⟨ids, hids, hperm, -⟩ := h.2 sampleDaSet sampleDaSet_parsed hblock
    exact ⟨ids, hids, hperm⟩

end sample

end Rubin.Node
