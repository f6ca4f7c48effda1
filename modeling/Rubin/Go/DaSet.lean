/-
# The DA set rule of the Go client

`validateDASetIntegrity` of `block_basic.go`, next to the Rust validator.

A Go map has no order of its own: a `range` loop visits the keys in an order the runtime picks
anew for every loop.  `MapOrder` is that choice, and every result holds for all of them.  Reading
a missing key gives the zero value, and a nil transaction in it is a panic.

The Go validator goes through the stages of `daStages` too, with one difference: a commit to no
chunks passes the completeness check and is refused by the range check.  The parser refuses such a
commit, and what it lets through is judged alike.
-/
import Rubin.Consensus.DaSet
import Rubin.Go.TxParse

namespace Rubin.Go

open Rubin.Lib Rubin.Consensus

/-! ## 1. Loops over a map -/

/-- The order in which the loops over a map visit its keys; `loop` tells the loops apart. -/
structure MapOrder where
  order : (loop : Nat) → Finset Bytes32 → List Bytes32
  visits : ∀ loop keys k, k ∈ order loop keys ↔ k ∈ keys
  once : ∀ loop keys, (order loop keys).Nodup

noncomputable def MapOrder.any : MapOrder :=
  ⟨fun _ keys => keys.toList, fun _ _ _ => Finset.mem_toList, fun _ keys => keys.nodup_toList⟩

/-- `sortedDAIDs`: the keys as the loop finds them, sorted. -/
def sortedDaIds {V : Type} (ord : MapOrder) (loop : Nat) (m : GoMap Bytes32 V) : List Bytes32 :=
  (ord.order loop m.keys).insertionSort fun a b => le32 a b = true

theorem mem_sortedDaIds {V : Type} {ord : MapOrder} {loop : Nat} {m : GoMap Bytes32 V}
    {k : Bytes32} : k ∈ sortedDaIds ord loop m ↔ m.lookup k ≠ none := by
  rw [sortedDaIds, List.mem_insertionSort, ord.visits, Finmap.mem_keys, Ne,
    Finmap.lookup_eq_none, not_not]

/-! ## 2. `block_basic.go` -/

structure DaSetStructure where
  commits : GoMap Bytes32 DaCommitSet
  chunks : GoMap Bytes32 (GoMap UInt16 Tx)
  duplicateCommitIds : Finset Bytes32
  duplicateChunkIndexes : GoMap Bytes32 (Finset UInt16)

def collectDaCommit (sets : DaSetStructure) (tx : Tx) : Except Fault DaSetStructure := do
  let core ← okOr tx.daCommitCore (txerr .txErrParse "missing da_commit_core for tx_kind=0x01")
  match sets.commits.lookup core.daId with
  | some _ => .ok { sets with duplicateCommitIds := insert core.daId sets.duplicateCommitIds }
  | none => .ok { sets with commits := sets.commits.insert core.daId ⟨tx, core.chunkCount⟩ }

def collectDaChunk (sets : DaSetStructure) (tx : Tx) : Except Fault DaSetStructure := do
  let core ← okOr tx.daChunkCore (txerr .txErrParse "missing da_chunk_core for tx_kind=0x02")
  let set := (sets.chunks.lookup core.daId).getD ∅
  match set.lookup core.chunkIndex with
  | some _ =>
    let duplicates := (sets.duplicateChunkIndexes.lookup core.daId).getD ∅
    .ok { sets with duplicateChunkIndexes :=
      sets.duplicateChunkIndexes.insert core.daId (insert core.chunkIndex duplicates) }
  | none => .ok { sets with
      chunks := sets.chunks.insert core.daId (set.insert core.chunkIndex tx) }

/-- A transaction of the list may be a nil pointer. -/
def collectDaTx (sets : DaSetStructure) (tx : Option Tx) : Except Fault DaSetStructure := do
  let tx ← okOr tx (txerr .txErrParse "nil transaction")
  if tx.txKind = 0x01 then collectDaCommit sets tx
  else if tx.txKind = 0x02 then collectDaChunk sets tx
  else .ok sets

def collectDaSetStructure (txs : List (Option Tx)) : Except Fault DaSetStructure :=
  txs.foldlM collectDaTx ⟨∅, ∅, ∅, ∅⟩

def validateDaCommitChunkOrphans (ord : MapOrder) (sets : DaSetStructure) : Except Fault Unit :=
  forEach (fun daId => rejectIf (sets.commits.lookup daId = none)
    (txerr .blockErrDaSetInvalid "DA chunks without DA commit")) (sortedDaIds ord 0 sets.chunks)

def validateDaDuplicateCommits (sets : DaSetStructure) : Except Fault Unit :=
  rejectIf (sets.duplicateCommitIds.card ≠ 0)
    (txerr .blockErrDaSetInvalid "duplicate DA commit for da_id")

def validateDaCommitChunkIndexes (set : GoMap UInt16 Tx) (chunkCount : UInt16) :
    Except Fault Unit :=
  forEach (fun i => rejectIf (set.lookup (UInt16.ofNat i) = none)
    (txerr .blockErrDaIncomplete "missing DA chunk index")) (List.range chunkCount.toNat)

/-- `commits[daID].chunkCount`. -/
def chunkCountOf (sets : DaSetStructure) (daId : Bytes32) : UInt16 :=
  ((sets.commits.lookup daId).map DaCommitSet.chunkCount).getD 0

def validateDaCommitChunkComplete (sets : DaSetStructure) (daId : Bytes32) :
    Except Fault Unit := do
  rejectIf (((sets.duplicateChunkIndexes.lookup daId).getD ∅).card ≠ 0)
    (txerr .blockErrDaIncomplete "duplicate DA chunk index")
  let set := (sets.chunks.lookup daId).getD ∅
  rejectIf (set.keys.card ≠ (chunkCountOf sets daId).toNat)
    (txerr .blockErrDaIncomplete "DA chunk count mismatch")
  validateDaCommitChunkIndexes set (chunkCountOf sets daId)

def validateDaSetStructure (ord : MapOrder) (sets : DaSetStructure) : Except Fault Unit := do
  validateDaCommitChunkOrphans ord sets
  validateDaDuplicateCommits sets
  forEach (validateDaCommitChunkComplete sets) (sortedDaIds ord 1 sets.commits)
  rejectIf (sets.commits.keys.card > maxDaBatchesPerBlock)
    (txerr .blockErrDaBatchExceeded "too many DA commits in block")
  forEach (fun daId => rejectIf (invalidDaCommitChunkCount (chunkCountOf sets daId) = true)
    (txerr .txErrParse "chunk_count out of range for tx_kind=0x01")) (sortedDaIds ord 2 sets.commits)

/-- The loop over the outputs: the one DA commitment. -/
def daCommitmentOf (tx : Tx) : Except Fault Bytes32 := do
  let outputs := tx.outputs.filter fun o => o.covenantType == covTypeDaCommit
  forEach (fun o => rejectIf (o.covenantData.length ≠ 32)
    (txerr .blockErrDaPayloadCommitInvalid "DA commitment output has invalid length")) outputs
  match outputs with
  | [o] => .ok (BytesN.ofList 32 o.covenantData)
  | _ => .error (txerr .blockErrDaPayloadCommitInvalid
      "DA commitment output missing or duplicated")

section rules

variable [Crypto]

def validateDaChunkHash (tx : Option Tx) : Except Fault Unit := do
  let tx ← okOr tx (txerr .txErrParse "nil transaction")
  if tx.txKind ≠ 0x02 then .ok ()
  else do
    let core ← okOr tx.daChunkCore (txerr .txErrParse "missing da_chunk_core for tx_kind=0x02")
    rejectIf (sha3_256 tx.daPayload ≠ core.chunkHash)
      (txerr .blockErrDaChunkHashInvalid "chunk_hash mismatch")

/-- `set[i].DaPayload` of a missing chunk, and `commit.tx` of a missing commit, are nil. -/
def validateDaPayloadCommitment (sets : DaSetStructure) (daId : Bytes32) :
    Except Fault Unit := do
  let commit ← okOr (sets.commits.lookup daId) .panic
  let set := (sets.chunks.lookup daId).getD ∅
  let txs ← (List.range commit.chunkCount.toNat).mapM fun i =>
    okOr (set.lookup (UInt16.ofNat i)) Fault.panic
  let gotCommitment ← daCommitmentOf commit.tx
  rejectIf (gotCommitment ≠ sha3_256 (txs.flatMap Tx.daPayload))
    (txerr .blockErrDaPayloadCommitInvalid "payload commitment mismatch")

def validateDaSetIntegrity (ord : MapOrder) (txs : List (Option Tx)) : Except Fault Unit := do
  forEach validateDaChunkHash txs
  let sets ← collectDaSetStructure txs
  validateDaSetStructure ord sets
  forEach (validateDaPayloadCommitment sets) (sortedDaIds ord 3 sets.commits)

end rules

/-! ## 3. What the collector gathers -/

structure Gathered (txs : List Tx) (sets : DaSetStructure) : Prop where
  commits : Collects (fun daId => sets.commits.lookup daId) (commitsOf txs)
  duplicates : sets.duplicateCommitIds = ∅ ↔ ((commitsOf txs).map Prod.fst).Nodup
  empty : ∀ daId, sets.chunks.lookup daId = none ↔ chunksFor daId txs = []
  chunks : ∀ daId, Collects (fun i => ((sets.chunks.lookup daId).getD ∅).lookup i)
    (chunksFor daId txs)
  repeated : ∀ daId, (sets.duplicateChunkIndexes.lookup daId).getD ∅ = ∅ ↔
    ((chunksFor daId txs).map Prod.fst).Nodup

namespace Gathered

variable {txs : List Tx} {tx : Tx} {sets : DaSetStructure}

theorem start : Gathered [] ⟨∅, ∅, ∅, ∅⟩ where
  commits := Collects.nil
  duplicates := ⟨fun _ => List.nodup_nil, fun _ => rfl⟩
  empty := fun _ => ⟨fun _ => rfl, fun _ => rfl⟩
  chunks := fun _ => Collects.nil
  repeated := fun _ => ⟨fun _ => List.nodup_nil, fun _ => rfl⟩

theorem of_commits {sets' : DaSetStructure} (h : Gathered txs sets) (htx : chunksOf [tx] = [])
    (hchunks : sets'.chunks = sets.chunks)
    (hrepeated : sets'.duplicateChunkIndexes = sets.duplicateChunkIndexes)
    (hcommits : Collects (fun daId => sets'.commits.lookup daId) (commitsOf (txs ++ [tx])))
    (hduplicates : sets'.duplicateCommitIds = ∅ ↔
      ((commitsOf (txs ++ [tx])).map Prod.fst).Nodup) :
    Gathered (txs ++ [tx]) sets' := by
  refine ⟨hcommits, hduplicates, ?_, ?_, ?_⟩
  · intro daId
    rw [hchunks, chunksFor_concat_skip htx]
    exact h.empty daId
  · intro daId
    rw [hchunks, chunksFor_concat_skip htx]
    exact h.chunks daId
  · intro daId
    rw [hrepeated, chunksFor_concat_skip htx]
    exact h.repeated daId

theorem collectDaCommit {core : DaCommitCore} (h : Gathered txs sets) (hk : tx.txKind = 0x01)
    (hc : tx.daCommitCore = some core) :
    ∃ sets', collectDaCommit sets tx = .ok sets' ∧ Gathered (txs ++ [tx]) sets' := by
  obtain ⟨hcommit, hchunk⟩ := entries_of_commit hk hc
  unfold Go.collectDaCommit
  rw [hc, okOr, ok_bind]
  cases hl : sets.commits.lookup core.daId with
  | none =>
    refine ⟨_, rfl, h.of_commits hchunk rfl rfl ?_ ?_⟩
    · rw [commitsOf_concat, hcommit]
      exact h.commits.finmap_insert _ _
    · rw [commitsOf_concat, hcommit, nodup_keys_concat]
      exact h.duplicates.trans (and_iff_left ((h.commits.keys _).mp hl)).symm
  | some w =>
    refine ⟨_, rfl, h.of_commits hchunk rfl rfl ?_ ?_⟩
    · rw [commitsOf_concat, hcommit]
      exact h.commits.keep hl _
    · rw [commitsOf_concat, hcommit, nodup_keys_concat]
      refine ⟨fun hnil => absurd hnil (Finset.insert_ne_empty _ _), fun hn => ?_⟩
      exact absurd (List.mem_map_of_mem (h.commits.values _ _ hl)) hn.2

theorem collectDaChunk {core : DaChunkCore} (h : Gathered txs sets) (hk : tx.txKind = 0x02)
    (hc : tx.daChunkCore = some core) :
    ∃ sets', collectDaChunk sets tx = .ok sets' ∧ Gathered (txs ++ [tx]) sets' := by
  obtain ⟨hcommit, hchunk⟩ := entries_of_chunk hk hc
  have hcommits : commitsOf (txs ++ [tx]) = commitsOf txs := by
    rw [commitsOf_concat, hcommit, List.append_nil]
  have hcol := h.chunks core.daId
  unfold Go.collectDaChunk
  rw [hc, okOr, ok_bind]
  dsimp only
  cases hl : ((sets.chunks.lookup core.daId).getD ∅).lookup core.chunkIndex with
  | none =>
    refine ⟨_, rfl, hcommits ▸ h.commits, hcommits ▸ h.duplicates, ?_, ?_, ?_⟩
    · intro id
      rw [lookup_insert_eq]
      by_cases hid : id = core.daId
      · rw [if_pos hid, hid, chunksFor_concat_self hchunk]
        simp
      · rw [if_neg hid, chunksFor_concat_other hchunk hid]
        exact h.empty id
    · intro id
      simp only [lookup_insert_eq sets.chunks]
      by_cases hid : id = core.daId
      · rw [if_pos hid, hid, chunksFor_concat_self hchunk]
        exact hcol.finmap_insert _ _
      · rw [if_neg hid, chunksFor_concat_other hchunk hid]
        exact h.chunks id
    · intro id
      by_cases hid : id = core.daId
      · rw [hid, chunksFor_concat_self hchunk, nodup_keys_concat]
        exact (h.repeated core.daId).trans (and_iff_left ((hcol.keys _).mp hl)).symm
      · rw [chunksFor_concat_other hchunk hid]
        exact h.repeated id
  | some w =>
    have hmem := hcol.values _ _ hl
    refine ⟨_, rfl, hcommits ▸ h.commits, hcommits ▸ h.duplicates, ?_, ?_, ?_⟩
    · intro id
      by_cases hid : id = core.daId
      · rw [hid, chunksFor_concat_self hchunk]
        refine ⟨fun hnone => ?_, fun hnil => by simp at hnil⟩
        rw [(h.empty core.daId).mp hnone] at hmem
        cases hmem
      · rw [chunksFor_concat_other hchunk hid]
        exact h.empty id
    · intro id
      by_cases hid : id = core.daId
      · rw [hid, chunksFor_concat_self hchunk]
        exact hcol.keep hl tx
      · rw [chunksFor_concat_other hchunk hid]
        exact h.chunks id
    · intro id
      rw [lookup_insert_eq]
      by_cases hid : id = core.daId
      · rw [if_pos hid, hid, chunksFor_concat_self hchunk, nodup_keys_concat]
        refine ⟨fun hnil => absurd hnil (Finset.insert_ne_empty _ _), fun hn => ?_⟩
        exact absurd (List.mem_map_of_mem hmem) hn.2
      · rw [if_neg hid, chunksFor_concat_other hchunk hid]
        exact h.repeated id

theorem collectDaTx (h : Gathered txs sets) (htx : tx.HasDaCore) :
    ∃ sets', collectDaTx sets (some tx) = .ok sets' ∧ Gathered (txs ++ [tx]) sets' := by
  unfold Go.collectDaTx
  rw [okOr, ok_bind]
  by_cases h1 : tx.txKind = 0x01
  · obtain ⟨core, hc⟩ := Option.isSome_iff_exists.mp (htx.1 h1)
    rw [if_pos h1]
    exact h.collectDaCommit h1 hc
  · rw [if_neg h1]
    by_cases h2 : tx.txKind = 0x02
    · obtain ⟨core, hc⟩ := Option.isSome_iff_exists.mp (htx.2 h2)
      rw [if_pos h2]
      exact h.collectDaChunk h2 hc
    · obtain ⟨hcommit, hchunk⟩ := entries_of_other h1 h2
      have hcommits : commitsOf (txs ++ [tx]) = commitsOf txs := by
        rw [commitsOf_concat, hcommit, List.append_nil]
      rw [if_neg h2]
      exact ⟨sets, rfl, h.of_commits hchunk rfl rfl (hcommits ▸ h.commits)
        (hcommits ▸ h.duplicates)⟩

end Gathered

theorem collectDaSetStructure_gathered {txs : List Tx} (h : ∀ tx ∈ txs, tx.HasDaCore) :
    ∃ sets, collectDaSetStructure (txs.map some) = .ok sets ∧ Gathered txs sets := by
  unfold collectDaSetStructure
  rw [List.foldlM_map]
  refine foldlM_progress Gathered Gathered.start ?_
  rintro done tx rest sets rfl hg
  exact hg.collectDaTx (h tx (by simp))

/-! ## 4. The stages -/

section stages

variable {txs : List Tx} {sets : DaSetStructure} {ord : MapOrder}

variable {p : Bytes32 × DaCommitSet}

theorem mem_commitsOf_iff (h : Gathered txs sets) (hone : ((commitsOf txs).map Prod.fst).Nodup) :
    p ∈ commitsOf txs ↔ sets.commits.lookup p.1 = some p.2 :=
  (h.commits.eq_some_iff hone).symm

theorem forEach_ids_judges (h : Gathered txs sets) (hone : ((commitsOf txs).map Prod.fst).Nodup)
    {loop : Nat} {f : Bytes32 → Except Fault Unit} {P : Bytes32 × DaCommitSet → Prop}
    {c : Option ErrorCode} (hf : ∀ p ∈ commitsOf txs, Judges Fault.code (f p.1) (P p) c) :
    Judges Fault.code (forEach f (sortedDaIds ord loop sets.commits))
      (∀ p ∈ commitsOf txs, P p) c := by
  have hids : ∀ daId ∈ sortedDaIds ord loop sets.commits, Judges Fault.code (f daId)
      (∀ commit, sets.commits.lookup daId = some commit → P (daId, commit)) c := by
    intro daId hmem
    obtain ⟨commit, hcommit⟩ := Option.ne_none_iff_exists'.mp (mem_sortedDaIds.mp hmem)
    have hp := (mem_commitsOf_iff (p := (daId, commit)) h hone).mpr hcommit
    refine (hf _ hp).congr ?_
    rw [hcommit]
    simp
  refine (Judges.forEach hids).congr ?_
  constructor
  · intro hall p hp
    have hlookup := (mem_commitsOf_iff h hone).mp hp
    exact hall p.1 (mem_sortedDaIds.mpr (by rw [hlookup]; simp)) p.2 hlookup
  · intro hall daId _ commit hlookup
    exact hall (daId, commit) ((mem_commitsOf_iff h hone).mpr hlookup)

theorem chunkCountOf_eq (h : Gathered txs sets) (hone : ((commitsOf txs).map Prod.fst).Nodup)
    (hp : p ∈ commitsOf txs) : chunkCountOf sets p.1 = p.2.chunkCount := by
  rw [chunkCountOf, (mem_commitsOf_iff h hone).mp hp]
  rfl

theorem validateDaCommitChunkOrphans_judges (h : Gathered txs sets) :
    Judges Fault.code (validateDaCommitChunkOrphans ord sets)
      (∀ p ∈ chunksOf txs, p.1 ∈ (commitsOf txs).map Prod.fst) (some .blockErrDaSetInvalid) := by
  refine Judges.congr (Judges.forEach fun daId _ => Judges.guard rfl) ?_
  have hids : ∀ daId, daId ∈ sortedDaIds ord 0 sets.chunks ↔
      daId ∈ (chunksOf txs).map Prod.fst := by
    intro daId
    rw [mem_sortedDaIds, ne_eq, h.empty, chunksFor_eq_nil, not_not]
  have hkeys : ∀ daId, ¬ sets.commits.lookup daId = none ↔
      daId ∈ (commitsOf txs).map Prod.fst := fun daId => (h.commits.keys daId).not.trans not_not
  simp only [hids, hkeys, List.forall_mem_map]

theorem validateDaDuplicateCommits_judges (h : Gathered txs sets) :
    Judges Fault.code (validateDaDuplicateCommits sets)
      ((commitsOf txs).map Prod.fst).Nodup (some .blockErrDaSetInvalid) := by
  refine (Judges.guard rfl).congr ?_
  rw [not_not, Finset.card_eq_zero]
  exact h.duplicates

theorem lookup_ne_none_iff {m : GoMap UInt16 Tx} {entries : List (UInt16 × Tx)}
    (h : Collects (fun i => m.lookup i) entries) (i : UInt16) :
    ¬ m.lookup i = none ↔ i ∈ entries.map Prod.fst := (h.keys i).not.trans not_not

theorem validateDaCommitChunkComplete_judges (h : Gathered txs sets)
    (hone : ((commitsOf txs).map Prod.fst).Nodup) (hp : p ∈ commitsOf txs) :
    Judges Fault.code (validateDaCommitChunkComplete sets p.1)
      (IndexesComplete (chunksFor p.1 txs) p.2.chunkCount) (some .blockErrDaIncomplete) := by
  unfold validateDaCommitChunkComplete validateDaCommitChunkIndexes
  rw [chunkCountOf_eq h hone hp]
  refine Judges.congr (Judges.both (Judges.guard rfl) fun _ => Judges.both (Judges.guard rfl)
    fun _ => Judges.forEach fun i _ => Judges.guard rfl) ?_
  have hcol := h.chunks p.1
  simp only [not_not, Finset.card_eq_zero, lookup_ne_none_iff hcol, List.mem_range, h.repeated]
  constructor
  · rintro ⟨hn, hlen, hall⟩
    rw [hcol.card_keys hn] at hlen
    exact indexesComplete_iff.mpr ⟨hlen, hall⟩
  · intro hix
    obtain ⟨hlen, hall⟩ := indexesComplete_iff.mp hix
    refine ⟨hix.nodup, ?_, hall⟩
    rw [hcol.card_keys hix.nodup]
    exact hlen

theorem invalidDaCommitChunkCount_iff {n : UInt16} :
    ¬ invalidDaCommitChunkCount n = true ↔ n ≠ 0 ∧ n.toNat ≤ maxDaChunkCount := by
  simp [invalidDaCommitChunkCount]

theorem daCommitmentOf_eq (tx : Tx) :
    daCommitmentOf tx = (daCommitOutputCommitment tx).mapError Fault.err := by
  have hloop := forEach_mapError (k := Fault.err)
    (f := fun o : TxOutput => rejectIf (o.covenantData.length ≠ 32)
      (⟨.blockErrDaPayloadCommitInvalid, "DA commitment output has invalid length"⟩ : TxError))
    (g := fun o : TxOutput => rejectIf (o.covenantData.length ≠ 32)
      (txerr .blockErrDaPayloadCommitInvalid "DA commitment output has invalid length"))
    (fun o => by unfold rejectIf; split <;> rfl)
    (tx.outputs.filter fun o => o.covenantType == covTypeDaCommit)
  unfold daCommitmentOf daCommitOutputCommitment
  dsimp only
  rw [hloop]
  cases forEach (fun o : TxOutput => rejectIf (o.covenantData.length ≠ 32)
      (⟨.blockErrDaPayloadCommitInvalid, "DA commitment output has invalid length"⟩ : TxError))
      (tx.outputs.filter fun o => o.covenantType == covTypeDaCommit) with
  | error e => rfl
  | ok u =>
    dsimp only [Except.mapError, ok_bind]
    generalize tx.outputs.filter _ = outputs
    rcases outputs with _ | ⟨o, _ | ⟨o', rest⟩⟩ <;> rfl

section hashed

variable [Crypto]

theorem validateDaChunkHash_judges {tx : Tx} (h : tx.HasDaCore) :
    Judges Fault.code (validateDaChunkHash (some tx)) (ChunkHashed tx)
      (some .blockErrDaChunkHashInvalid) := by
  unfold validateDaChunkHash
  rw [okOr, ok_bind]
  by_cases hk : tx.txKind = 0x02
  · obtain ⟨core, hc⟩ := Option.isSome_iff_exists.mp (h.2 hk)
    rw [if_neg (not_not.mpr hk), hc, okOr, ok_bind]
    refine (Judges.guard rfl).congr ?_
    rw [not_not]
    constructor
    · intro heq core' _ hc'
      rw [hc] at hc'
      cases hc'
      exact heq
    · intro hall
      exact hall core hk hc
  · rw [if_pos hk]
    exact Judges.ok fun core hk' _ => absurd hk' hk

theorem validateDaPayloadCommitment_judges (h : Gathered txs sets)
    (hone : ((commitsOf txs).map Prod.fst).Nodup) (hp : p ∈ commitsOf txs)
    (hpos : p.2.chunkCount ≠ 0) (hix : IndexesComplete (chunksFor p.1 txs) p.2.chunkCount) :
    Judges Fault.code (validateDaPayloadCommitment sets p.1)
      (PayloadCommitted (chunksFor p.1 txs) p.2) (some .blockErrDaPayloadCommitInvalid) := by
  obtain ⟨chunk, hchunk⟩ := hix.exists_chunk hpos
  refine Judges.congr ?_ (payloadCommitted_iff hix.nodup hchunk).symm
  have htxs : (List.range p.2.chunkCount.toNat).mapM (fun i =>
      okOr (((sets.chunks.lookup p.1).getD ∅).lookup (UInt16.ofNat i)) Fault.panic) =
      .ok ((List.range p.2.chunkCount.toNat).map chunk) := by
    refine mapM_eq_ok fun i hi => ?_
    rw [okOr_eq_ok]
    exact ((h.chunks p.1).eq_some_iff hix.nodup).mpr (hchunk i (List.mem_range.mp hi))
  unfold validateDaPayloadCommitment
  rw [(mem_commitsOf_iff h hone).mp hp, okOr, ok_bind]
  dsimp only
  rw [htxs, ok_bind, daCommitmentOf_eq, List.flatMap_map]
  by_cases hout : ∃ o, p.2.tx.outputs.filter isDaCommitOutput = [o] ∧ o.covenantData.length = 32
  · obtain ⟨o, hfilter, hlen⟩ := hout
    rw [daCommitOutputCommitment_eq hfilter hlen]
    refine Judges.congr (Judges.guard rfl) ?_
    rw [not_not]
    constructor
    · intro heq
      exact ⟨o, hfilter, hlen, by rw [← heq, BytesN.toList_ofList hlen]⟩
    · rintro ⟨o', hfilter', -, hdata⟩
      rw [hfilter] at hfilter'
      cases hfilter'
      rw [hdata, BytesN.ofList_toList]
  · have hrej := daCommitOutputCommitment_rejection hout
    cases hread : daCommitOutputCommitment p.2.tx with
    | ok got =>
      rw [hread] at hrej
      cases hrej
    | error e =>
      rw [hread] at hrej
      constructor
      · rintro ⟨o, hfilter, hlen, -⟩
        exact absurd ⟨o, hfilter, hlen⟩ hout
      · intro _
        exact congrArg some (congrArg some (Option.some.inj hrej))

/-! ## 5. Agreement -/

/-- **The Go validator refuses with the code of the first stage that fails**, where no commit is
to no chunks. -/
theorem validateDaSetIntegrity_rejection {txs : List Tx} (ord : MapOrder)
    (hcores : ∀ tx ∈ txs, tx.HasDaCore) (hcounts : ∀ p ∈ commitsOf txs, p.2.chunkCount ≠ 0) :
    rejection Fault.code (validateDaSetIntegrity ord (txs.map some)) =
      (firstFault (daStages txs)).map some := by
  obtain ⟨sets, hcollect, hg⟩ := collectDaSetStructure_gathered hcores
  rw [← firstFault_map, validateDaSetIntegrity, forEach_map]
  refine (Judges.forEach fun tx htx => validateDaChunkHash_judges (hcores tx htx)).rejection_bind
    fun _ => ?_
  rw [hcollect, ok_bind, validateDaSetStructure]
  simp only [bind_assoc]
  refine (validateDaCommitChunkOrphans_judges hg).rejection_bind fun _ => ?_
  refine (validateDaDuplicateCommits_judges hg).rejection_bind fun hone => ?_
  have hcomplete : Judges Fault.code
      (forEach (validateDaCommitChunkComplete sets) (sortedDaIds ord 1 sets.commits))
      (∀ p ∈ commitsOf txs, p.2.chunkCount ≠ 0 ∧
        IndexesComplete (chunksFor p.1 txs) p.2.chunkCount) (some .blockErrDaIncomplete) :=
    forEach_ids_judges hg hone fun p hp => (validateDaCommitChunkComplete_judges hg hone hp).congr
      (and_iff_right (hcounts p hp)).symm
  refine hcomplete.rejection_bind fun hall => ?_
  have hcard : ¬ sets.commits.keys.card > maxDaBatchesPerBlock ↔
      (commitsOf txs).length ≤ maxDaBatchesPerBlock := by
    rw [hg.commits.card_keys hone, gt_iff_lt, not_lt]
  refine Judges.rejection_bind ((Judges.guard rfl).congr hcard) fun _ => ?_
  refine (forEach_ids_judges hg hone fun p hp => ?_).rejection_bind fun _ => ?_
  · rw [chunkCountOf_eq hg hone hp]
    exact (Judges.guard rfl).congr invalidDaCommitChunkCount_iff
  exact (forEach_ids_judges hg hone fun p hp => validateDaPayloadCommitment_judges hg hone hp
    (hall p hp).1 (hall p hp).2).rejection_last

end hashed

end stages

theorem chunkCount_ne_zero_of_parsed [Crypto] {txs : List Tx} (h : ∀ tx ∈ txs, tx.IsParsed) :
    ∀ p ∈ commitsOf txs, p.2.chunkCount ≠ 0 := by
  intro p hp
  obtain ⟨tx, htx, hentry⟩ := List.mem_filterMap.mp hp
  obtain ⟨-, hwf⟩ := isParsed_iff.mp (h tx htx)
  split at hentry
  · obtain ⟨core, hc, rfl⟩ := Option.map_eq_some_iff.mp hentry
    intro hzero
    exact (hwf.cores.1 core hc).1 (Or.inl hzero)
  · cases hentry

/-- **The two clients judge DA sets alike.**  On transactions the parser can produce, both accept
or both refuse with the same code, in whatever order the runtime visits the maps; in particular
the Go validator does not panic. -/
theorem go_da_set_agrees [Crypto] (ord : MapOrder) (txs : List Tx)
    (hparsed : ∀ tx ∈ txs, tx.IsParsed) :
    rejection Fault.code (validateDaSetIntegrity ord (txs.map some)) =
      (rejection TxError.code (Consensus.validateDaSetIntegrity txs)).map some := by
  have hcores : ∀ tx ∈ txs, tx.HasDaCore := fun tx htx => (hparsed tx htx).hasDaCore
  rw [validateDaSetIntegrity_rejection ord hcores (chunkCount_ne_zero_of_parsed hparsed),
    Consensus.validateDaSetIntegrity_rejection hcores]

theorem go_da_set_agrees_sampleDaSet :
    letI := Crypto.sha3With fun _ _ _ => .ok true
    validateDaSetIntegrity MapOrder.any (sampleDaSet.map some) = .ok () := by
  let _ := Crypto.sha3With fun _ _ _ => .ok true
  have hrun : Consensus.validateDaSetIntegrity sampleDaSet = .ok () :=
    exists_unit.mp (exists_ok_of_isOk (by decide +kernel))
  have h := go_da_set_agrees MapOrder.any sampleDaSet sampleDaSet_parsed
  rwa [hrun, rejection_ok, Option.map_none, rejection_eq_none] at h

end Rubin.Go
