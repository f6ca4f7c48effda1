/-
# The DA set rule

`da_set.rs` runs four passes over maps of maps and stops at the first fault.  `DaSetRule` says
what it demands of a list of transactions, without maps and without an order.

The proof goes through `daStages`: seven propositions, each with its error code, in the order the
source checks them.  `validateDaSetIntegrity_rejection` says that the validator refuses with the
code of the first one that fails.  The stages speak about the transactions only up to order, so
the outcome and the code do not depend on the order in which the block lists them.
-/
import Rubin.Consensus.BlockRules
import Rubin.Consensus.TxCodec
import Rubin.Lib.KeyedTable
import Rubin.Lib.Verdict

namespace Rubin.Consensus

open Rubin.Lib

/-! ## 1. The rule -/

/-- The commit transactions, under their `da_id`. -/
def commitsOf (txs : List Tx) : List (Bytes32 × DaCommitSet) :=
  txs.filterMap fun tx =>
    if tx.txKind = 0x01 then tx.daCommitCore.map fun core => (core.daId, ⟨tx, core.chunkCount⟩)
    else none

/-- The chunk transactions, under their `da_id` and index. -/
def chunksOf (txs : List Tx) : List (Bytes32 × UInt16 × Tx) :=
  txs.filterMap fun tx =>
    if tx.txKind = 0x02 then tx.daChunkCore.map fun core => (core.daId, core.chunkIndex, tx)
    else none

/-- The chunks of one `da_id`, under their index. -/
def chunksFor (daId : Bytes32) (txs : List Tx) : List (UInt16 × Tx) :=
  (chunksOf txs).filterMap fun p => if p.1 = daId then some p.2 else none

/-- A transaction of a DA kind carries the core fields of that kind. -/
def Tx.HasDaCore (tx : Tx) : Prop :=
  (tx.txKind = 0x01 → tx.daCommitCore.isSome) ∧ (tx.txKind = 0x02 → tx.daChunkCore.isSome)

/-- The parser returns this transaction for some bytes. -/
def Tx.IsParsed [Crypto] (tx : Tx) : Prop := ∃ b p, parseTx b = .ok p ∧ p.tx = tx

variable {tx : Tx} {n : UInt16} {txs : List Tx} {chunks : List (UInt16 × Tx)} {daId : Bytes32}

theorem isParsed_iff [Crypto] :
    tx.IsParsed ↔ CoresMatchKind tx.txKind tx.cores ∧ tx.WellFormed := by
  constructor
  · rintro ⟨b, p, hp, rfl⟩
    obtain ⟨hkind, hwf, -⟩ := parseTx_eq_ok.mp hp
    exact ⟨hkind, hwf⟩
  · rintro ⟨hkind, hwf⟩
    let p : ParsedTx := ⟨tx, sha3_256 tx.coreBytes, sha3_256 (tx.coreBytes ++ tx.tailBytes),
      (tx.coreBytes ++ tx.tailBytes).length⟩
    exact ⟨_, p, parseTx_eq_ok.mpr ⟨hkind, hwf, rfl, rfl, rfl, [], rfl⟩, rfl⟩

theorem Tx.IsParsed.hasDaCore [Crypto] (h : tx.IsParsed) : tx.HasDaCore := by
  obtain ⟨hkind, -⟩ := isParsed_iff.mp h
  exact ⟨hkind.1.mpr, hkind.2.mpr⟩

def isDaCommitOutput (o : TxOutput) : Bool := o.covenantType == covTypeDaCommit

section rule

variable [Crypto]

/-- The payload of a chunk transaction hashes to the hash it declares. -/
def ChunkHashed (tx : Tx) : Prop :=
  ∀ core, tx.txKind = 0x02 → tx.daChunkCore = some core → sha3_256 tx.daPayload = core.chunkHash

/-- Each index below `chunkCount` exactly once, and no other index. -/
def IndexesComplete (chunks : List (UInt16 × Tx)) (chunkCount : UInt16) : Prop :=
  (chunks.map fun c => c.1.toNat).Perm (List.range chunkCount.toNat)

/-- The commit has one DA commitment output, of 32 bytes, and it is the hash of the payloads in
index order; `chunk i` is the chunk of index `i`. -/
def PayloadCommitted (chunks : List (UInt16 × Tx)) (commit : DaCommitSet) : Prop :=
  ∃ chunk : Nat → Tx,
    (∀ i < commit.chunkCount.toNat, (UInt16.ofNat i, chunk i) ∈ chunks) ∧
    ∃ o, commit.tx.outputs.filter isDaCommitOutput = [o] ∧ o.covenantData.length = 32 ∧
      o.covenantData = (sha3_256 ((List.range commit.chunkCount.toNat).flatMap
        fun i => (chunk i).daPayload)).toList

/-- **The rule.** -/
structure DaSetRule (txs : List Tx) : Prop where
  chunksHashed : ∀ tx ∈ txs, ChunkHashed tx
  oneCommit : ((commitsOf txs).map Prod.fst).Nodup
  chunksCommitted : ∀ p ∈ chunksOf txs, p.1 ∈ (commitsOf txs).map Prod.fst
  chunkCount : ∀ p ∈ commitsOf txs, 1 ≤ p.2.chunkCount.toNat ∧ p.2.chunkCount.toNat ≤ maxDaChunkCount
  indexes : ∀ p ∈ commitsOf txs, IndexesComplete (chunksFor p.1 txs) p.2.chunkCount
  batch : (commitsOf txs).length ≤ maxDaBatchesPerBlock
  committed : ∀ p ∈ commitsOf txs, PayloadCommitted (chunksFor p.1 txs) p.2

/-- What is checked, in the order in which it is checked. -/
def daStages (txs : List Tx) : List (Prop × ErrorCode) :=
  [(∀ tx ∈ txs, ChunkHashed tx, .blockErrDaChunkHashInvalid),
    (∀ p ∈ chunksOf txs, p.1 ∈ (commitsOf txs).map Prod.fst, .blockErrDaSetInvalid),
    (((commitsOf txs).map Prod.fst).Nodup, .blockErrDaSetInvalid),
    (∀ p ∈ commitsOf txs, p.2.chunkCount ≠ 0 ∧
      IndexesComplete (chunksFor p.1 txs) p.2.chunkCount, .blockErrDaIncomplete),
    ((commitsOf txs).length ≤ maxDaBatchesPerBlock, .blockErrDaBatchExceeded),
    (∀ p ∈ commitsOf txs, p.2.chunkCount ≠ 0 ∧ p.2.chunkCount.toNat ≤ maxDaChunkCount,
      .txErrParse),
    (∀ p ∈ commitsOf txs, PayloadCommitted (chunksFor p.1 txs) p.2,
      .blockErrDaPayloadCommitInvalid)]

omit [Crypto] in
theorem toNat_pos_iff : 1 ≤ n.toNat ↔ n ≠ 0 := by
  rw [Nat.one_le_iff_ne_zero, ne_eq, ne_eq, not_iff_not, ← UInt16.toNat_inj]
  rfl

theorem daSetRule_iff_stages : DaSetRule txs ↔ ∀ s ∈ daStages txs, s.1 := by
  simp only [daStages, List.forall_mem_cons, List.not_mem_nil, false_implies, implies_true,
    and_true]
  constructor
  · rintro ⟨h1, h2, h3, h4, h5, h6, h7⟩
    have hcount : ∀ p ∈ commitsOf txs, p.2.chunkCount ≠ 0 := fun p hp =>
      toNat_pos_iff.mp (h4 p hp).1
    exact ⟨h1, h3, h2, fun p hp => ⟨hcount p hp, h5 p hp⟩, h6,
      fun p hp => ⟨hcount p hp, (h4 p hp).2⟩, h7⟩
  · rintro ⟨h1, h2, h3, h4, h5, h6, h7⟩
    exact ⟨h1, h3, h2, fun p hp => ⟨toNat_pos_iff.mpr (h6 p hp).1, (h6 p hp).2⟩,
      fun p hp => (h4 p hp).2, h5, h7⟩

/-! The stages do not see the order. -/

omit [Crypto] in
theorem IndexesComplete.of_perm {chunks' : List (UInt16 × Tx)} (h : chunks.Perm chunks') :
    IndexesComplete chunks n ↔ IndexesComplete chunks' n :=
  (h.map _).congr_left _

theorem PayloadCommitted.of_perm {chunks' : List (UInt16 × Tx)} {commit : DaCommitSet}
    (h : chunks.Perm chunks') :
    PayloadCommitted chunks commit ↔ PayloadCommitted chunks' commit := by
  simp only [PayloadCommitted, h.mem_iff]

theorem daStages_perm {txs' : List Tx} (h : txs.Perm txs') : daStages txs = daStages txs' := by
  have hcommits : (commitsOf txs).Perm (commitsOf txs') := h.filterMap _
  have hchunks : (chunksOf txs).Perm (chunksOf txs') := h.filterMap _
  have hfor : ∀ daId, (chunksFor daId txs).Perm (chunksFor daId txs') :=
    fun daId => hchunks.filterMap _
  unfold daStages
  simp only [h.mem_iff, hchunks.mem_iff, hcommits.mem_iff, (hcommits.map Prod.fst).mem_iff,
    (hcommits.map Prod.fst).nodup_iff, hcommits.length_eq, IndexesComplete.of_perm (hfor _),
    PayloadCommitted.of_perm (hfor _)]

end rule

/-! ## 2. What the collector gathers -/

/-- The chunk maps after `txs`: the set of each `da_id`, and the `da_id`s with a repeated index. -/
structure ChunksGathered (txs : List Tx) (chunks : List (Bytes32 × List (UInt16 × Tx)))
    (repeated : Bytes32 → Prop) : Prop where
  ids : (chunks.map Prod.fst).Nodup
  empty : ∀ daId, chunks.lookup daId = none ↔ chunksFor daId txs = []
  keys : ∀ daId, (((chunks.lookup daId).getD []).map Prod.fst).Nodup
  collected : ∀ daId, Collects (fun i => ((chunks.lookup daId).getD []).lookup i)
    (chunksFor daId txs)
  repeated_iff : ∀ daId, repeated daId ↔ ¬ ((chunksFor daId txs).map Prod.fst).Nodup

/-- The two maps of `DaSetStructure` after `txs`. -/
structure Gathered (txs : List Tx) (sets : DaSetStructure) : Prop where
  ids : (sets.commits.map Prod.fst).Nodup
  commits : Collects (fun daId => sets.commits.lookup daId) (commitsOf txs)
  duplicates : sets.duplicateCommitIds = [] ↔ ((commitsOf txs).map Prod.fst).Nodup
  chunks : ChunksGathered txs sets.chunks fun daId => ∃ q ∈ sets.duplicateChunkIndexes, q.1 = daId

theorem insertByKey_perm {α : Type} (p : Bytes32 × α) (l : List (Bytes32 × α)) :
    (insertByKey p l).Perm (p :: l) := List.perm_orderedInsert _ _ _

theorem insertChunk_perm (p : UInt16 × Tx) (l : List (UInt16 × Tx)) :
    (insertChunk p l).Perm (p :: l) := List.perm_orderedInsert _ _ _

theorem setChunks_perm (daId : Bytes32) (set : List (UInt16 × Tx))
    (chunks : List (Bytes32 × List (UInt16 × Tx))) :
    (setChunks daId set chunks).Perm ((daId, set) :: chunks.filter fun p => p.1 != daId) :=
  insertByKey_perm _ _

theorem setChunks_lookup {set : List (UInt16 × Tx)} {chunks : List (Bytes32 × List (UInt16 × Tx))}
    (h : (chunks.map Prod.fst).Nodup) (id : Bytes32) : (setChunks daId set chunks).lookup id =
      if id = daId then some set else chunks.lookup id := by
  have hput := congrFun (lookup_of_put (setChunks_perm daId set chunks) h) id
  rwa [Function.update_apply] at hput

theorem commitsOf_concat (txs : List Tx) (tx : Tx) :
    commitsOf (txs ++ [tx]) = commitsOf txs ++ commitsOf [tx] := List.filterMap_append ..

theorem chunksOf_concat (txs : List Tx) (tx : Tx) :
    chunksOf (txs ++ [tx]) = chunksOf txs ++ chunksOf [tx] := List.filterMap_append ..

theorem chunksFor_concat_skip (htx : chunksOf [tx] = []) (id : Bytes32) :
    chunksFor id (txs ++ [tx]) = chunksFor id txs := by
  rw [chunksFor, chunksOf_concat, htx, List.append_nil]
  rfl

theorem chunksFor_concat_self {i : UInt16} (htx : chunksOf [tx] = [(daId, i, tx)]) :
    chunksFor daId (txs ++ [tx]) = chunksFor daId txs ++ [(i, tx)] := by
  rw [chunksFor, chunksOf_concat, htx, List.filterMap_append, List.filterMap_cons, if_pos rfl]
  rfl

theorem chunksFor_concat_other {id : Bytes32} {i : UInt16} (htx : chunksOf [tx] = [(daId, i, tx)])
    (hid : id ≠ daId) : chunksFor id (txs ++ [tx]) = chunksFor id txs := by
  rw [chunksFor, chunksOf_concat, htx, List.filterMap_append, List.filterMap_cons,
    if_neg (Ne.symm hid), List.filterMap_nil, List.append_nil]
  rfl

namespace ChunksGathered

variable {txs : List Tx} {tx : Tx} {chunks : List (Bytes32 × List (UInt16 × Tx))}
  {repeated repeated' : Bytes32 → Prop} {daId : Bytes32} {i : UInt16} {set : List (UInt16 × Tx)}

theorem skip (h : ChunksGathered txs chunks repeated) (htx : chunksOf [tx] = []) :
    ChunksGathered (txs ++ [tx]) chunks repeated := by
  obtain ⟨h1, h2, h3, h4, h5⟩ := h
  have hsame : ∀ id, chunksFor id txs = chunksFor id (txs ++ [tx]) :=
    fun id => (chunksFor_concat_skip htx id).symm
  simp only [hsame] at h2 h4 h5
  exact ⟨h1, h2, h3, h4, h5⟩

theorem repeated_concat (h : ChunksGathered txs chunks repeated)
    (htx : chunksOf [tx] = [(daId, i, tx)])
    (hrep : ∀ id, repeated' id ↔
      repeated id ∨ (id = daId ∧ i ∈ (chunksFor daId txs).map Prod.fst)) (id : Bytes32) :
    repeated' id ↔ ¬ ((chunksFor id (txs ++ [tx])).map Prod.fst).Nodup := by
  rw [hrep, h.repeated_iff id]
  by_cases hid : id = daId
  · subst hid
    rw [chunksFor_concat_self htx, nodup_keys_concat, not_and_or, not_not]
    exact or_congr Iff.rfl (and_iff_right rfl)
  · rw [chunksFor_concat_other htx hid]
    simp [hid]

theorem put (h : ChunksGathered txs chunks repeated) (htx : chunksOf [tx] = [(daId, i, tx)])
    (hkeys : (set.map Prod.fst).Nodup)
    (hset : Collects (fun j => set.lookup j) (chunksFor daId txs ++ [(i, tx)]))
    (hrep : ∀ id, repeated' id ↔
      repeated id ∨ (id = daId ∧ i ∈ (chunksFor daId txs).map Prod.fst)) :
    ChunksGathered (txs ++ [tx]) (setChunks daId set chunks) repeated' where
  ids := nodup_keys_of_put (setChunks_perm daId set chunks) h.ids
  empty := by
    intro id
    rw [setChunks_lookup h.ids]
    by_cases hid : id = daId
    · subst hid
      rw [if_pos rfl, chunksFor_concat_self htx]
      simp
    · rw [if_neg hid, chunksFor_concat_other htx hid]
      exact h.empty id
  keys := by
    intro id
    rw [setChunks_lookup h.ids]
    by_cases hid : id = daId
    · rw [if_pos hid]
      exact hkeys
    · rw [if_neg hid]
      exact h.keys id
  collected := by
    intro id
    simp only [setChunks_lookup h.ids]
    by_cases hid : id = daId
    · subst hid
      rw [if_pos rfl, chunksFor_concat_self htx]
      exact hset
    · rw [if_neg hid, chunksFor_concat_other htx hid]
      exact h.collected id
  repeated_iff := h.repeated_concat htx hrep

theorem leave (h : ChunksGathered txs chunks repeated) (htx : chunksOf [tx] = [(daId, i, tx)])
    {w : Tx} (hw : ((chunks.lookup daId).getD []).lookup i = some w)
    (hrep : ∀ id, repeated' id ↔
      repeated id ∨ (id = daId ∧ i ∈ (chunksFor daId txs).map Prod.fst)) :
    ChunksGathered (txs ++ [tx]) chunks repeated' where
  ids := h.ids
  empty := by
    intro id
    by_cases hid : id = daId
    · subst hid
      have hmem := (h.collected id).values i w hw
      rw [chunksFor_concat_self htx]
      refine ⟨fun hnone => ?_, fun hnil => by simp at hnil⟩
      rw [(h.empty id).mp hnone] at hmem
      cases hmem
    · rw [chunksFor_concat_other htx hid]
      exact h.empty id
  keys := h.keys
  collected := by
    intro id
    by_cases hid : id = daId
    · subst hid
      rw [chunksFor_concat_self htx]
      exact (h.collected id).keep hw tx
    · rw [chunksFor_concat_other htx hid]
      exact h.collected id
  repeated_iff := h.repeated_concat htx hrep

end ChunksGathered

theorem entries_of_commit {core : DaCommitCore} (hk : tx.txKind = 0x01)
    (hc : tx.daCommitCore = some core) :
    commitsOf [tx] = [(core.daId, ⟨tx, core.chunkCount⟩)] ∧ chunksOf [tx] = [] := by
  simp [commitsOf, chunksOf, hk, hc]

theorem entries_of_chunk {core : DaChunkCore} (hk : tx.txKind = 0x02)
    (hc : tx.daChunkCore = some core) :
    commitsOf [tx] = [] ∧ chunksOf [tx] = [(core.daId, core.chunkIndex, tx)] := by
  simp [commitsOf, chunksOf, hk, hc]

theorem entries_of_other (h1 : tx.txKind ≠ 0x01) (h2 : tx.txKind ≠ 0x02) :
    commitsOf [tx] = [] ∧ chunksOf [tx] = [] := by
  simp [commitsOf, chunksOf, h1, h2]

namespace Gathered

variable {txs : List Tx} {tx : Tx} {sets : DaSetStructure}

theorem start : Gathered [] ⟨[], [], [], []⟩ where
  ids := List.nodup_nil
  commits := Collects.nil
  duplicates := ⟨fun _ => List.nodup_nil, fun _ => rfl⟩
  chunks := ⟨List.nodup_nil, fun _ => ⟨fun _ => rfl, fun _ => rfl⟩, fun _ => List.nodup_nil,
    fun _ => Collects.nil, fun _ => ⟨fun ⟨_, h, _⟩ => (nomatch h), fun h => absurd List.nodup_nil h⟩⟩

theorem addDaCommit {core : DaCommitCore} (h : Gathered txs sets) (hk : tx.txKind = 0x01)
    (hc : tx.daCommitCore = some core) :
    ∃ sets', addDaCommit sets tx = .ok sets' ∧ Gathered (txs ++ [tx]) sets' := by
  obtain ⟨hcommit, hchunk⟩ := entries_of_commit hk hc
  unfold Consensus.addDaCommit
  rw [hc, okOr, ok_bind]
  cases hl : sets.commits.lookup core.daId with
  | none =>
    have hnew : core.daId ∉ sets.commits.map Prod.fst := lookup_eq_none_iff_keys.mp hl
    have hperm := insertByKey_perm (core.daId, (⟨tx, core.chunkCount⟩ : DaCommitSet)) sets.commits
    have hids : ((insertByKey (core.daId, (⟨tx, core.chunkCount⟩ : DaCommitSet))
        sets.commits).map Prod.fst).Nodup := by
      rw [(hperm.map Prod.fst).nodup_iff]
      exact List.nodup_cons.mpr ⟨hnew, h.ids⟩
    refine ⟨_, rfl, hids, ?_, ?_, h.chunks.skip hchunk⟩
    · rw [commitsOf_concat, hcommit]
      have hcons := lookup_cons_eq_update core.daId (⟨tx, core.chunkCount⟩ : DaCommitSet) sets.commits
      simp only [lookup_perm hids hperm, hcons]
      exact h.commits.insert _ _
    · rw [commitsOf_concat, hcommit, nodup_keys_concat]
      exact h.duplicates.trans (and_iff_left ((h.commits.keys _).mp hl)).symm
  | some w =>
    refine ⟨_, rfl, h.ids, ?_, ?_, h.chunks.skip hchunk⟩
    · rw [commitsOf_concat, hcommit]
      exact h.commits.keep hl _
    · rw [commitsOf_concat, hcommit, nodup_keys_concat]
      refine ⟨by simp, fun hn => ?_⟩
      exact absurd (List.mem_map_of_mem (h.commits.values _ _ hl)) hn.2

theorem addDaChunk {core : DaChunkCore} (h : Gathered txs sets) (hk : tx.txKind = 0x02)
    (hc : tx.daChunkCore = some core) :
    ∃ sets', addDaChunk sets tx = .ok sets' ∧ Gathered (txs ++ [tx]) sets' := by
  obtain ⟨hcommit, hchunk⟩ := entries_of_chunk hk hc
  have hcommits : commitsOf (txs ++ [tx]) = commitsOf txs := by
    rw [commitsOf_concat, hcommit, List.append_nil]
  have hcol := h.chunks.collected core.daId
  unfold Consensus.addDaChunk
  rw [hc, okOr, ok_bind]
  dsimp only
  cases hl : ((sets.chunks.lookup core.daId).getD []).lookup core.chunkIndex with
  | none =>
    have hperm := insertChunk_perm (core.chunkIndex, tx) ((sets.chunks.lookup core.daId).getD [])
    have hkeys : ((insertChunk (core.chunkIndex, tx)
        ((sets.chunks.lookup core.daId).getD [])).map Prod.fst).Nodup := by
      rw [(hperm.map Prod.fst).nodup_iff]
      exact List.nodup_cons.mpr ⟨lookup_eq_none_iff_keys.mp hl, h.chunks.keys _⟩
    refine ⟨_, rfl, h.ids, hcommits ▸ h.commits, hcommits ▸ h.duplicates,
      h.chunks.put hchunk hkeys ?_ ?_⟩
    · have hcons := lookup_cons_eq_update core.chunkIndex tx
        ((sets.chunks.lookup core.daId).getD [])
      simp only [lookup_perm hkeys hperm, hcons]
      exact hcol.insert _ _
    · intro id
      have hnew := (hcol.keys core.chunkIndex).mp hl
      exact ⟨Or.inl, fun hor => hor.resolve_right fun hboth => hnew hboth.2⟩
  | some w =>
    refine ⟨_, rfl, h.ids, hcommits ▸ h.commits, hcommits ▸ h.duplicates,
      h.chunks.leave hchunk hl ?_⟩
    intro id
    have hmem := List.mem_map_of_mem (f := Prod.fst) (hcol.values _ _ hl)
    simp only [List.exists_mem_cons_iff]
    rw [or_comm, and_iff_left hmem]
    exact or_congr Iff.rfl eq_comm

theorem addDaTx (h : Gathered txs sets) (htx : tx.HasDaCore) :
    ∃ sets', addDaTx sets tx = .ok sets' ∧ Gathered (txs ++ [tx]) sets' := by
  unfold Consensus.addDaTx
  by_cases h1 : tx.txKind = 0x01
  · obtain ⟨core, hc⟩ := Option.isSome_iff_exists.mp (htx.1 h1)
    rw [if_pos h1]
    exact h.addDaCommit h1 hc
  · rw [if_neg h1]
    by_cases h2 : tx.txKind = 0x02
    · obtain ⟨core, hc⟩ := Option.isSome_iff_exists.mp (htx.2 h2)
      rw [if_pos h2]
      exact h.addDaChunk h2 hc
    · obtain ⟨hcommit, hchunk⟩ := entries_of_other h1 h2
      have hcommits : commitsOf (txs ++ [tx]) = commitsOf txs := by
        rw [commitsOf_concat, hcommit, List.append_nil]
      rw [if_neg h2]
      exact ⟨sets, rfl, h.ids, hcommits ▸ h.commits, hcommits ▸ h.duplicates,
        h.chunks.skip hchunk⟩

end Gathered

theorem collectDaCommitsAndChunks_gathered (h : ∀ tx ∈ txs, tx.HasDaCore) :
    ∃ sets, collectDaCommitsAndChunks txs = .ok sets ∧ Gathered txs sets := by
  refine foldlM_progress Gathered Gathered.start ?_
  rintro done tx rest sets rfl hg
  exact hg.addDaTx (h tx (by simp))

theorem chunksFor_eq_nil : chunksFor daId txs = [] ↔ daId ∉ (chunksOf txs).map Prod.fst := by
  rw [chunksFor, List.filterMap_eq_nil_iff, List.mem_map]
  constructor
  · rintro h ⟨p, hp, rfl⟩
    simpa using h p hp
  · intro h p hp
    rw [if_neg]
    rintro rfl
    exact h ⟨p, hp, rfl⟩

namespace ChunksGathered

variable {txs : List Tx} {chunks : List (Bytes32 × List (UInt16 × Tx))}
  {repeated : Bytes32 → Prop} {daId : Bytes32}

theorem mem_ids (h : ChunksGathered txs chunks repeated) :
    daId ∈ chunks.map Prod.fst ↔ daId ∈ (chunksOf txs).map Prod.fst := by
  rw [← not_iff_not, ← lookup_eq_none_iff_keys, h.empty, chunksFor_eq_nil]

theorem perm (h : ChunksGathered txs chunks repeated) (hr : ¬ repeated daId) :
    ((chunks.lookup daId).getD []).Perm (chunksFor daId txs) :=
  (h.collected daId).perm (h.keys daId) (not_not.mp ((h.repeated_iff daId).not.mp hr))

end ChunksGathered

/-! ## 3. The stages -/

section stages

variable {txs : List Tx} {sets : DaSetStructure}

theorem mem_keys_ofNat {i : Nat} (hi : i < 2 ^ 16) :
    UInt16.ofNat i ∈ chunks.map Prod.fst ↔ i ∈ chunks.map fun c => c.1.toNat := by
  simp only [List.mem_map]
  refine exists_congr fun c => and_congr_right fun _ => ?_
  rw [← UInt16.toNat_inj, UInt16.toNat_ofNat_of_lt' hi]

theorem IndexesComplete.nodup (h : IndexesComplete chunks n) : (chunks.map Prod.fst).Nodup := by
  have hn : (chunks.map fun c => c.1.toNat).Nodup := h.nodup_iff.mpr List.nodup_range
  refine List.Nodup.of_map UInt16.toNat ?_
  rwa [List.map_map]

theorem indexesComplete_iff :
    IndexesComplete chunks n ↔
      chunks.length = n.toNat ∧ ∀ i < n.toNat, UInt16.ofNat i ∈ chunks.map Prod.fst := by
  have hlt : n.toNat < 2 ^ 16 := n.toNat_lt
  constructor
  · intro h
    refine ⟨by simpa using h.length_eq, fun i hi => ?_⟩
    rw [mem_keys_ofNat (hi.trans hlt), h.mem_iff]
    exact List.mem_range.mpr hi
  · rintro ⟨hlen, hall⟩
    have hsub : List.range n.toNat ⊆ chunks.map fun c => c.1.toNat := by
      intro i hi
      have hi := List.mem_range.mp hi
      exact (mem_keys_ofNat (hi.trans hlt)).mp (hall i hi)
    refine ((List.nodup_range.subperm hsub).perm_of_length_le ?_).symm
    rw [List.length_map, List.length_range, hlen]

theorem IndexesComplete.exists_chunk (h : IndexesComplete chunks n) (hpos : n ≠ 0) :
    ∃ chunk : Nat → Tx, ∀ i < n.toNat, (UInt16.ofNat i, chunk i) ∈ chunks := by
  have hmem : ∀ i < n.toNat, ∃ tx, (UInt16.ofNat i, tx) ∈ chunks := by
    intro i hi
    obtain ⟨c, hc, hci⟩ := List.mem_map.mp ((indexesComplete_iff.mp h).2 i hi)
    exact ⟨c.2, hci ▸ hc⟩
  obtain ⟨first, -⟩ := hmem 0 (toNat_pos_iff.mpr hpos)
  have hex : ∀ i, ∃ tx, i < n.toNat → (UInt16.ofNat i, tx) ∈ chunks := by
    intro i
    by_cases hi : i < n.toNat
    · obtain ⟨tx, htx⟩ := hmem i hi
      exact ⟨tx, fun _ => htx⟩
    · exact ⟨first, fun hi' => absurd hi' hi⟩
  exact Classical.axiomOfChoice hex

variable {repeated : Bytes32 → Prop}

theorem ChunksGathered.committed_iff {α : Type} {chunks : List (Bytes32 × List (UInt16 × Tx))}
    (h : ChunksGathered txs chunks repeated) {commits : Bytes32 → Option α}
    (hkeys : ∀ daId, commits daId = none ↔ daId ∉ (commitsOf txs).map Prod.fst) :
    (¬ ∃ p ∈ chunks, commits p.1 = none) ↔
      ∀ p ∈ chunksOf txs, p.1 ∈ (commitsOf txs).map Prod.fst := by
  rw [not_exists]
  constructor
  · intro hall p hp
    obtain ⟨q, hq, hqp⟩ := List.mem_map.mp (h.mem_ids.mpr (List.mem_map_of_mem hp))
    have hsome := fun hnone => hall q ⟨hq, hnone⟩
    rw [hqp] at hsome
    exact not_not.mp ((hkeys p.1).not.mp hsome)
  · rintro hall p ⟨hp, hnone⟩
    obtain ⟨q, hq, hqp⟩ := List.mem_map.mp (h.mem_ids.mp (List.mem_map_of_mem hp))
    have hmem := hall q hq
    rw [hqp] at hmem
    exact (hkeys p.1).mp hnone hmem

/-- What the code checks of one `da_id`: no repeated index, the declared number of chunks, a set
that is there, and every index in it. -/
theorem ChunksGathered.complete_iff {chunks : List (Bytes32 × List (UInt16 × Tx))}
    (h : ChunksGathered txs chunks repeated) :
    (¬ repeated daId ∧ ((chunks.lookup daId).getD []).length = n.toNat ∧
      chunks.lookup daId ≠ none ∧
      ∀ i < n.toNat, UInt16.ofNat i ∈ ((chunks.lookup daId).getD []).map Prod.fst) ↔
    n ≠ 0 ∧ IndexesComplete (chunksFor daId txs) n := by
  constructor
  · rintro ⟨hrep, hlen, hsome, hall⟩
    have hperm := h.perm hrep
    refine ⟨?_, (IndexesComplete.of_perm hperm).mp (indexesComplete_iff.mpr ⟨hlen, hall⟩)⟩
    -- a set that is there is not empty
    rw [← toNat_pos_iff, ← hlen, hperm.length_eq, Nat.one_le_iff_ne_zero, ne_eq,
      List.length_eq_zero_iff, ← h.empty]
    exact hsome
  · rintro ⟨hpos, hix⟩
    have hrep : ¬ repeated daId := (h.repeated_iff daId).not.mpr (not_not.mpr hix.nodup)
    obtain ⟨hlen, hall⟩ := indexesComplete_iff.mp
      ((IndexesComplete.of_perm (h.perm hrep)).mpr hix)
    refine ⟨hrep, hlen, fun hnone => ?_, hall⟩
    rw [hnone] at hlen
    exact hpos (UInt16.toNat_inj.mp hlen.symm)

theorem ChunksGathered.exists_chunks {chunks : List (Bytes32 × List (UInt16 × Tx))}
    (h : ChunksGathered txs chunks repeated) (hpos : n ≠ 0)
    (hix : IndexesComplete (chunksFor daId txs) n) :
    ∃ (set : List (UInt16 × Tx)) (chunk : Nat → Tx), chunks.lookup daId = some set ∧
      ∀ i < n.toNat, set.lookup (UInt16.ofNat i) = some (chunk i) ∧
        (UInt16.ofNat i, chunk i) ∈ chunksFor daId txs := by
  obtain ⟨hrep, -, hsome, -⟩ := h.complete_iff.mpr ⟨hpos, hix⟩
  obtain ⟨set, hset⟩ := Option.ne_none_iff_exists'.mp hsome
  have hperm := h.perm hrep
  have hkeys := h.keys daId
  rw [hset, Option.getD_some] at hperm hkeys
  obtain ⟨chunk, hchunk⟩ := hix.exists_chunk hpos
  refine ⟨set, chunk, hset, fun i hi => ⟨?_, hchunk i hi⟩⟩
  rw [lookup_eq_some_iff_mem hkeys, hperm.mem_iff]
  exact hchunk i hi

theorem validateDaChunkOrphans_judges (h : Gathered txs sets) :
    Judges TxError.code (validateDaChunkOrphans sets)
      (∀ p ∈ chunksOf txs, p.1 ∈ (commitsOf txs).map Prod.fst) .blockErrDaSetInvalid :=
  (Judges.guard rfl).congr (h.chunks.committed_iff h.commits.keys)

theorem validateDaDuplicateCommits_judges (h : Gathered txs sets) :
    Judges TxError.code (validateDaDuplicateCommits sets)
      ((commitsOf txs).map Prod.fst).Nodup .blockErrDaSetInvalid :=
  (Judges.guard rfl).congr (not_not.trans h.duplicates)

theorem validateDaChunkIndexes_judges {set : List (UInt16 × Tx)} :
    Judges TxError.code (validateDaChunkIndexes set n)
      (∀ i ∈ List.range n.toNat, UInt16.ofNat i ∈ set.map Prod.fst) .blockErrDaIncomplete := by
  refine Judges.forEach fun i _ => ?_
  rw [daChunkTxForIndex]
  refine Judges.okOr rfl (fun hnone => lookup_eq_none_iff_keys.mp hnone) ?_
  intro tx hsome
  refine Judges.ok (not_not.mp fun hkey => ?_)
  rw [lookup_eq_none_iff_keys.mpr hkey] at hsome
  cases hsome

theorem validateDaCommitComplete_judges (h : Gathered txs sets) (p : Bytes32 × DaCommitSet) :
    Judges TxError.code (validateDaCommitComplete sets p)
      (p.2.chunkCount ≠ 0 ∧ IndexesComplete (chunksFor p.1 txs) p.2.chunkCount)
      .blockErrDaIncomplete := by
  have hindexes : Judges TxError.code
      (daChunkSetForId sets p.1 >>= fun set => validateDaChunkIndexes set p.2.chunkCount)
      (sets.chunks.lookup p.1 ≠ none ∧ ∀ i ∈ List.range p.2.chunkCount.toNat,
        UInt16.ofNat i ∈ ((sets.chunks.lookup p.1).getD []).map Prod.fst)
      .blockErrDaIncomplete := by
    refine Judges.okOr rfl (fun hnone hset => hset.1 hnone) fun set hset => ?_
    refine validateDaChunkIndexes_judges.congr ?_
    rw [hset]
    exact (and_iff_right (fun hnone => nomatch hnone)).symm
  simp only [List.mem_range] at hindexes
  have hall : Judges TxError.code (validateDaCommitComplete sets p) _ .blockErrDaIncomplete :=
    Judges.both (Judges.guard rfl) fun _ => Judges.both (Judges.guard rfl) fun _ => hindexes
  refine hall.congr ?_
  rw [← h.chunks.complete_iff, not_not]

theorem Gathered.perm (h : Gathered txs sets) (hn : ((commitsOf txs).map Prod.fst).Nodup) :
    sets.commits.Perm (commitsOf txs) := h.commits.perm h.ids hn

theorem forEach_commits_judges {f : Bytes32 × DaCommitSet → Except TxError Unit}
    {P : Bytes32 × DaCommitSet → Prop} {c : ErrorCode} (hperm : sets.commits.Perm (commitsOf txs))
    (hf : ∀ p ∈ commitsOf txs, Judges TxError.code (f p) (P p) c) :
    Judges TxError.code (forEach f sets.commits) (∀ p ∈ commitsOf txs, P p) c := by
  refine (Judges.forEach fun p hp => hf p (hperm.mem_iff.mp hp)).congr ?_
  simp only [hperm.mem_iff]

theorem validateDaBatchCount_judges (hperm : sets.commits.Perm (commitsOf txs)) :
    Judges TxError.code (validateDaBatchCount sets)
      ((commitsOf txs).length ≤ maxDaBatchesPerBlock) .blockErrDaBatchExceeded := by
  refine (Judges.guard rfl).congr ?_
  rw [gt_iff_lt, not_lt, hperm.length_eq]

theorem validateDaChunkCount_judges (n : UInt16) :
    Judges TxError.code (validateDaChunkCount n) (n ≠ 0 ∧ n.toNat ≤ maxDaChunkCount)
      .txErrParse := by
  refine (Judges.guard rfl).congr ?_
  rw [not_or, gt_iff_lt, not_lt]

section hashed

variable [Crypto]

theorem validateDaChunkHash_judges (h : tx.HasDaCore) :
    Judges TxError.code (validateDaChunkHash tx) (ChunkHashed tx) .blockErrDaChunkHashInvalid := by
  unfold validateDaChunkHash
  by_cases hk : tx.txKind = 0x02
  · obtain ⟨core, hc⟩ := Option.isSome_iff_exists.mp (h.2 hk)
    rw [if_neg (not_not.mpr hk), hc, okOr, ok_bind]
    refine (Judges.guard rfl).congr ?_
    rw [not_not]
    constructor
    · intro heq core' _ hc'
      rw [hc] at hc'
      cases hc'
      exact heq
    · intro hall
      exact hall core hk hc
  · rw [if_pos hk]
    exact Judges.ok fun core hk' _ => absurd hk' hk

omit [Crypto] in
theorem daCommitOutputCommitment_eq {o : TxOutput} (hone : tx.outputs.filter isDaCommitOutput = [o])
    (hlen : o.covenantData.length = 32) :
    daCommitOutputCommitment tx = .ok (BytesN.ofList 32 o.covenantData) := by
  have hone' : (tx.outputs.filter fun o => o.covenantType == covTypeDaCommit) = [o] := hone
  rw [daCommitOutputCommitment]
  simp only [hone', forEach_cons, forEach_nil, rejectIf_neg (not_not.mpr hlen), ok_bind]

omit [Crypto] in
theorem daCommitOutputCommitment_rejection
    (h : ¬ ∃ o, tx.outputs.filter isDaCommitOutput = [o] ∧ o.covenantData.length = 32) :
    rejection TxError.code (daCommitOutputCommitment tx) =
      some .blockErrDaPayloadCommitInvalid := by
  rw [daCommitOutputCommitment]
  -- some output has a wrong length, or there is not exactly one
  have hlen : Judges TxError.code
      (forEach (fun o : TxOutput => rejectIf (o.covenantData.length ≠ 32)
        ⟨.blockErrDaPayloadCommitInvalid, "DA commitment output has invalid length"⟩)
        (tx.outputs.filter isDaCommitOutput))
      (∀ o ∈ tx.outputs.filter isDaCommitOutput, ¬ o.covenantData.length ≠ 32)
      .blockErrDaPayloadCommitInvalid := Judges.forEach fun o _ => Judges.guard rfl
  by_cases hall : ∀ o ∈ tx.outputs.filter isDaCommitOutput, ¬ o.covenantData.length ≠ 32
  · have hgo := hlen.accepts hall
    unfold isDaCommitOutput at hgo h hall
    rw [hgo, ok_bind]
    split
    · rename_i o hone
      refine absurd ⟨o, hone, not_not.mp (hall o ?_)⟩ h
      rw [hone]
      exact List.mem_singleton.mpr rfl
    · rfl
  · exact rejection_bind_of_some (hlen.rejects hall)

theorem payloadCommitted_iff {commit : DaCommitSet} {chunk : Nat → Tx}
    (hn : (chunks.map Prod.fst).Nodup)
    (hchunk : ∀ i < commit.chunkCount.toNat, (UInt16.ofNat i, chunk i) ∈ chunks) :
    PayloadCommitted chunks commit ↔
      ∃ o, commit.tx.outputs.filter isDaCommitOutput = [o] ∧ o.covenantData.length = 32 ∧
        o.covenantData = (sha3_256 ((List.range commit.chunkCount.toNat).flatMap
          fun i => (chunk i).daPayload)).toList := by
  refine ⟨?_, fun h => ⟨chunk, hchunk, h⟩⟩
  rintro ⟨chunk', hchunk', o, hone, hlen, hdata⟩
  refine ⟨o, hone, hlen, ?_⟩
  -- an index determines its chunk
  have hsame : ∀ i ∈ List.range commit.chunkCount.toNat,
      (chunk' i).daPayload = (chunk i).daPayload := by
    intro i hi
    have hi := List.mem_range.mp hi
    have heq := List.inj_on_of_nodup_map hn (hchunk' i hi) (hchunk i hi) rfl
    rw [(Prod.mk.inj heq).2]
  rw [hdata, List.flatMap_congr hsame]

theorem validateDaPayloadCommitment_judges (h : Gathered txs sets) (p : Bytes32 × DaCommitSet)
    (hpos : p.2.chunkCount ≠ 0) (hix : IndexesComplete (chunksFor p.1 txs) p.2.chunkCount) :
    Judges TxError.code (validateDaPayloadCommitment sets p)
      (PayloadCommitted (chunksFor p.1 txs) p.2) .blockErrDaPayloadCommitInvalid := by
  obtain ⟨set, chunk, hset, hchunk⟩ := h.chunks.exists_chunks hpos hix
  refine Judges.congr ?_
    (payloadCommitted_iff hix.nodup fun i hi => (hchunk i hi).2).symm
  have hpay : daPayloadCommitment p.2 set = .ok (sha3_256
      ((List.range p.2.chunkCount.toNat).flatMap fun i => (chunk i).daPayload)) := by
    rw [daPayloadCommitment, mapM_eq_ok (g := chunk), ok_bind, List.flatMap_map]
    intro i hi
    rw [daChunkTxForIndex, okOr_eq_ok]
    exact (hchunk i (List.mem_range.mp hi)).1
  unfold validateDaPayloadCommitment
  rw [daChunkSetForId, hset, okOr, ok_bind, hpay, ok_bind]
  by_cases hout : ∃ o, p.2.tx.outputs.filter isDaCommitOutput = [o] ∧ o.covenantData.length = 32
  · obtain ⟨o, hone, hlen⟩ := hout
    rw [daCommitOutputCommitment_eq hone hlen, ok_bind]
    refine (Judges.guard rfl).congr ?_
    rw [not_not]
    constructor
    · intro heq
      exact ⟨o, hone, hlen, by rw [heq, BytesN.toList_ofList hlen]⟩
    · rintro ⟨o', hone', -, hdata⟩
      rw [hone] at hone'
      cases hone'
      rw [hdata, BytesN.ofList_toList]
  · constructor
    · rintro ⟨o, hone, hlen, -⟩
      exact absurd ⟨o, hone, hlen⟩ hout
    · intro _
      exact rejection_bind_of_some (daCommitOutputCommitment_rejection hout)

/-! ## 4. The validator -/

/-- **The validator refuses with the code of the first stage that fails.** -/
theorem validateDaSetIntegrity_rejection {txs : List Tx} (h : ∀ tx ∈ txs, tx.HasDaCore) :
    rejection TxError.code (validateDaSetIntegrity txs) = firstFault (daStages txs) := by
  obtain ⟨sets, hcollect, hg⟩ := collectDaCommitsAndChunks_gathered h
  refine (Judges.forEach fun tx htx => validateDaChunkHash_judges (h tx htx)).rejection_bind
    fun _ => ?_
  rw [hcollect, ok_bind, validateDaSetStructure]
  simp only [bind_assoc]
  refine (validateDaChunkOrphans_judges hg).rejection_bind fun _ => ?_
  refine (validateDaDuplicateCommits_judges hg).rejection_bind fun hone => ?_
  have hperm := hg.perm hone
  refine (forEach_commits_judges hperm fun p _ =>
    validateDaCommitComplete_judges hg p).rejection_bind fun hcomplete => ?_
  refine (validateDaBatchCount_judges hperm).rejection_bind fun _ => ?_
  refine (forEach_commits_judges hperm fun p _ =>
    validateDaChunkCount_judges p.2.chunkCount).rejection_bind fun _ => ?_
  exact (forEach_commits_judges hperm fun p hp => validateDaPayloadCommitment_judges hg p
    (hcomplete p hp).1 (hcomplete p hp).2).rejection_last

end hashed

end stages

/-- **The DA set rule, exactly, and whatever the order.**  The validator accepts the lists that
have the rule; a permutation of a list is accepted, or refused with the same code. -/
theorem da_set_rule_exact [Crypto] (txs : List Tx) (hcores : ∀ tx ∈ txs, tx.HasDaCore) :
    (validateDaSetIntegrity txs = .ok () ↔ DaSetRule txs) ∧
      ∀ txs', txs.Perm txs' → rejection TxError.code (validateDaSetIntegrity txs') =
        rejection TxError.code (validateDaSetIntegrity txs) := by
  have hrej := validateDaSetIntegrity_rejection hcores
  constructor
  · rw [daSetRule_iff_stages, ← firstFault_eq_none, ← hrej, rejection_eq_none]
  · intro txs' hperm
    have hcores' : ∀ tx ∈ txs', tx.HasDaCore := fun tx htx => hcores tx (hperm.mem_iff.mpr htx)
    rw [hrej, validateDaSetIntegrity_rejection hcores', daStages_perm hperm]

def sampleChunk (index : UInt16) (payload : Bytes) : Tx :=
  { version := txWireVersion, txKind := 0x02, txNonce := 1, inputs := [], outputs := [],
    locktime := 0, daCommitCore := none,
    daChunkCore := some ⟨zero32, index, Keccak.sha3_256 payload⟩, witness := [],
    daPayload := payload }

def sampleCommit (payload : Bytes) : Tx :=
  { version := txWireVersion, txKind := 0x01, txNonce := 1, inputs := [],
    outputs := [⟨0, covTypeDaCommit, (Keccak.sha3_256 payload).toList⟩], locktime := 0,
    daCommitCore := some ⟨zero32, 2, zero32, 0, zero32, zero32, zero32, 0, []⟩,
    daChunkCore := none, witness := [], daPayload := [] }

/-- The chunks come in the wrong order, and one before its commit. -/
def sampleDaSet : List Tx := [sampleChunk 1 [8, 9], sampleCommit [7, 8, 9], sampleChunk 0 [7]]

theorem sampleDaSet_hasDaCore : ∀ tx ∈ sampleDaSet, tx.HasDaCore := by
  simp [sampleDaSet, sampleChunk, sampleCommit, Tx.HasDaCore]

theorem sampleDaSet_parsed [Crypto] : ∀ tx ∈ sampleDaSet, tx.IsParsed := by
  simp only [sampleDaSet, List.forall_mem_cons, List.not_mem_nil, false_implies, implies_true,
    and_true, isParsed_iff]
  refine ⟨⟨?_, ?_⟩, ⟨?_, ?_⟩, ⟨?_, ?_⟩⟩
  · simp [CoresMatchKind, Tx.cores, sampleChunk]
  · constructor <;> simp [sampleChunk, CoresInRange, Tx.cores, WitnessesAccepted, PayloadInRange]
    all_goals decide
  · simp [CoresMatchKind, Tx.cores, sampleCommit]
  · constructor <;> simp [sampleCommit, CoresInRange, Tx.cores, WitnessesAccepted, PayloadInRange]
    all_goals decide
  · simp [CoresMatchKind, Tx.cores, sampleChunk]
  · constructor <;> simp [sampleChunk, CoresInRange, Tx.cores, WitnessesAccepted, PayloadInRange]
    all_goals decide

theorem da_set_rule_exact_sampleDaSet :
    letI := Crypto.sha3With fun _ _ _ => .ok true
    DaSetRule sampleDaSet ∧ validateDaSetIntegrity sampleDaSet.reverse = .ok () := by
  let _ := Crypto.sha3With fun _ _ _ => .ok true
  have hrun : validateDaSetIntegrity sampleDaSet = .ok () :=
    exists_unit.mp (exists_ok_of_isOk (by decide +kernel))
  have h := da_set_rule_exact sampleDaSet sampleDaSet_hasDaCore
  have hrev := h.2 _ (List.reverse_perm sampleDaSet).symm
  rw [hrun, rejection_ok, rejection_eq_none] at hrev
  exact ⟨h.1.mp hrun, hrev⟩

end Rubin.Consensus
