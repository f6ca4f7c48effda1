/-
# Block rules

`block_basic/`: transaction weight, the DA set rule, the coinbase rules, the header rules, and
`validate_connect_preflight`, which runs them on a block about to be connected.
-/
import Rubin.Consensus.Block
import Rubin.Consensus.Utxo

namespace Rubin.Consensus

open Rubin.Lib

/-! ## 1. `weight.rs`

The source adds `u64` sizes with `checked_add`; all these checks report one error.  Here a group
of additions is a natural-number sum with one check at its end: sums only grow, so the group
overflows exactly when its total does. -/

def weightOverflow : TxError := .parse "u64 overflow"

def compactSizeLen (n : Nat) : Nat :=
  if n ≤ 0xfc then 1 else if n ≤ 0xffff then 3 else if n ≤ 0xffffffff then 5 else 9

def inputSize (input : TxInput) : Nat :=
  32 + 4 + compactSizeLen input.scriptSig.length + input.scriptSig.length + 4

def outputSize (output : TxOutput) : Nat :=
  8 + 2 + compactSizeLen output.covenantData.length + output.covenantData.length

def anchorBytes (output : TxOutput) : Nat :=
  if isUnspendable output.covenantType then output.covenantData.length else 0

def txBaseSize (tx : Tx) : Except TxError (Nat × Nat) := do
  let baseSize := 4 + 1 + 8 + compactSizeLen tx.inputs.length + (tx.inputs.map inputSize).sum +
    compactSizeLen tx.outputs.length + (tx.outputs.map outputSize).sum + 4
  let anchorBytes := (tx.outputs.map anchorBytes).sum
  rejectIf (2 ^ 64 ≤ baseSize ∨ 2 ^ 64 ≤ anchorBytes) weightOverflow
  let daCore ← daCoreFieldsBytes tx
  rejectIf (2 ^ 64 ≤ baseSize + daCore.length) weightOverflow
  .ok (baseSize + daCore.length, anchorBytes)

def witnessItemSize (w : WitnessItem) : Nat :=
  1 + compactSizeLen w.pubkey.length + w.pubkey.length + compactSizeLen w.signature.length +
    w.signature.length

def hasExpectedMldsa87Shape (w : WitnessItem) : Bool :=
  w.pubkey.length == mlDsa87PubkeyBytes && w.signature.length == mlDsa87SigBytes + 1

def legacySigCost (w : WitnessItem) : Nat :=
  if w.suiteId = suiteIdSentinel then 0
  else if w.suiteId = suiteIdSimplicityEnvelope then simplicityBaseVerifyCost
  else if w.suiteId = suiteIdMlDsa87 then
    if hasExpectedMldsa87Shape w then verifyCostMlDsa87 else 0
  else verifyCostUnknownSuite

def txWitnessSizeAndSigCost (tx : Tx) : Except TxError (Nat × Nat) := do
  let witnessSize := compactSizeLen tx.witness.length + (tx.witness.map witnessItemSize).sum
  let sigCost := (tx.witness.map legacySigCost).sum
  rejectIf (2 ^ 64 ≤ witnessSize ∨ 2 ^ 64 ≤ sigCost) weightOverflow
  .ok (witnessSize, sigCost)

def txDaSizeAndBytes (tx : Tx) : Except TxError (Nat × Nat) := do
  let daLen := tx.daPayload.length
  rejectIf (2 ^ 64 ≤ compactSizeLen daLen + daLen) weightOverflow
  .ok (compactSizeLen daLen + daLen, if tx.txKind ≠ 0x00 then daLen else 0)

def txWeight (baseSize witnessSize daSize sigCost : Nat) : Except TxError Nat := do
  let weight := witnessDiscountDivisor * baseSize + witnessSize + daSize + sigCost
  rejectIf (2 ^ 64 ≤ weight) weightOverflow
  .ok weight

/-- Weight, DA bytes, anchor bytes. -/
def txWeightAndStats (tx : Tx) : Except TxError (Nat × Nat × Nat) := do
  let base ← txBaseSize tx
  let witness ← txWitnessSizeAndSigCost tx
  let da ← txDaSizeAndBytes tx
  let weight ← txWeight base.1 witness.1 da.1 witness.2
  .ok (weight, da.2, base.2)

/-! ## 2. `da_set.rs` -/

structure DaCommitSet where
  tx : Tx
  chunkCount : UInt16

/-- The `BTreeMap`s of the source are lists in key order. -/
structure DaSetStructure where
  commits : List (Bytes32 × DaCommitSet)
  chunks : List (Bytes32 × List (UInt16 × Tx))
  duplicateCommitIds : List Bytes32
  duplicateChunkIndexes : List (Bytes32 × UInt16)

def le32 (a b : Bytes32) : Bool := !lt32 b a

def insertByKey {α : Type} (p : Bytes32 × α) (l : List (Bytes32 × α)) : List (Bytes32 × α) :=
  l.orderedInsert (fun a b => le32 a.1 b.1 = true) p

def insertChunk (p : UInt16 × Tx) (l : List (UInt16 × Tx)) : List (UInt16 × Tx) :=
  l.orderedInsert (fun a b => a.1 ≤ b.1) p

/-- Replaces the chunk list of `daId`, or adds one. -/
def setChunks (daId : Bytes32) (set : List (UInt16 × Tx))
    (chunks : List (Bytes32 × List (UInt16 × Tx))) : List (Bytes32 × List (UInt16 × Tx)) :=
  insertByKey (daId, set) (chunks.filter fun p => p.1 != daId)

def addDaCommit (sets : DaSetStructure) (tx : Tx) : Except TxError DaSetStructure := do
  let core ← okOr tx.daCommitCore (.parse "missing da_commit_core for tx_kind=0x01")
  match sets.commits.lookup core.daId with
  | none => .ok { sets with
      commits := insertByKey (core.daId, ⟨tx, core.chunkCount⟩) sets.commits }
  | some _ => .ok { sets with duplicateCommitIds := core.daId :: sets.duplicateCommitIds }

def addDaChunk (sets : DaSetStructure) (tx : Tx) : Except TxError DaSetStructure := do
  let core ← okOr tx.daChunkCore (.parse "missing da_chunk_core for tx_kind=0x02")
  let set := (sets.chunks.lookup core.daId).getD []
  match set.lookup core.chunkIndex with
  | none => .ok { sets with
      chunks := setChunks core.daId (insertChunk (core.chunkIndex, tx) set) sets.chunks }
  | some _ => .ok { sets with
      duplicateChunkIndexes := (core.daId, core.chunkIndex) :: sets.duplicateChunkIndexes }

def addDaTx (sets : DaSetStructure) (tx : Tx) : Except TxError DaSetStructure :=
  if tx.txKind = 0x01 then addDaCommit sets tx
  else if tx.txKind = 0x02 then addDaChunk sets tx
  else .ok sets

def collectDaCommitsAndChunks (txs : List Tx) : Except TxError DaSetStructure :=
  txs.foldlM addDaTx ⟨[], [], [], []⟩

def daIncomplete (msg : String) : TxError := ⟨.blockErrDaIncomplete, msg⟩

def validateDaChunkOrphans (sets : DaSetStructure) : Except TxError Unit :=
  rejectIf (∃ p ∈ sets.chunks, sets.commits.lookup p.1 = none)
    ⟨.blockErrDaSetInvalid, "DA chunks without DA commit"⟩

def validateDaDuplicateCommits (sets : DaSetStructure) : Except TxError Unit :=
  rejectIf (sets.duplicateCommitIds ≠ [])
    ⟨.blockErrDaSetInvalid, "duplicate DA commit for da_id"⟩

def daChunkSetForId (sets : DaSetStructure) (daId : Bytes32) :
    Except TxError (List (UInt16 × Tx)) :=
  okOr (sets.chunks.lookup daId) (daIncomplete "DA commit without chunks")

def daChunkTxForIndex (set : List (UInt16 × Tx)) (index : Nat) : Except TxError Tx :=
  okOr (set.lookup (UInt16.ofNat index)) (daIncomplete "missing DA chunk index")

def validateDaChunkIndexes (set : List (UInt16 × Tx)) (chunkCount : UInt16) :
    Except TxError Unit :=
  forEach (fun i => daChunkTxForIndex set i >>= fun _ => .ok ()) (List.range chunkCount.toNat)

def validateDaCommitComplete (sets : DaSetStructure) (p : Bytes32 × DaCommitSet) :
    Except TxError Unit := do
  rejectIf (∃ q ∈ sets.duplicateChunkIndexes, q.1 = p.1) (daIncomplete "duplicate DA chunk index")
  rejectIf (((sets.chunks.lookup p.1).getD []).length ≠ p.2.chunkCount.toNat)
    (daIncomplete "DA chunk count mismatch")
  let set ← daChunkSetForId sets p.1
  validateDaChunkIndexes set p.2.chunkCount

def validateDaSetCompleteness (sets : DaSetStructure) : Except TxError Unit :=
  forEach (validateDaCommitComplete sets) sets.commits

def validateDaBatchCount (sets : DaSetStructure) : Except TxError Unit :=
  rejectIf (sets.commits.length > maxDaBatchesPerBlock)
    ⟨.blockErrDaBatchExceeded, "too many DA commits in block"⟩

def validateDaChunkCount (chunkCount : UInt16) : Except TxError Unit :=
  rejectIf (chunkCount = 0 ∨ chunkCount.toNat > maxDaChunkCount)
    (.parse "chunk_count out of range for tx_kind=0x01")

def validateDaSetStructure (sets : DaSetStructure) : Except TxError Unit := do
  validateDaChunkOrphans sets
  validateDaDuplicateCommits sets
  validateDaSetCompleteness sets
  validateDaBatchCount sets
  forEach (fun p => validateDaChunkCount p.2.chunkCount) sets.commits

/-- The one DA commitment among a commit transaction's outputs. -/
def daCommitOutputCommitment (tx : Tx) : Except TxError Bytes32 := do
  let outputs := tx.outputs.filter fun o => o.covenantType == covTypeDaCommit
  forEach (fun o => rejectIf (o.covenantData.length ≠ 32)
    ⟨.blockErrDaPayloadCommitInvalid, "DA commitment output has invalid length"⟩) outputs
  match outputs with
  | [o] => .ok (BytesN.ofList 32 o.covenantData)
  | _ => .error ⟨.blockErrDaPayloadCommitInvalid, "DA commitment output missing or duplicated"⟩

section rules

variable [Crypto]

def validateDaChunkHash (tx : Tx) : Except TxError Unit :=
  if tx.txKind ≠ 0x02 then .ok ()
  else do
    let core ← okOr tx.daChunkCore (.parse "missing da_chunk_core for tx_kind=0x02")
    rejectIf (sha3_256 tx.daPayload ≠ core.chunkHash)
      ⟨.blockErrDaChunkHashInvalid, "chunk_hash mismatch"⟩

def daPayloadCommitment (commit : DaCommitSet) (set : List (UInt16 × Tx)) :
    Except TxError Bytes32 := do
  let txs ← (List.range commit.chunkCount.toNat).mapM (daChunkTxForIndex set)
  .ok (sha3_256 (txs.flatMap Tx.daPayload))

def validateDaPayloadCommitment (sets : DaSetStructure) (p : Bytes32 × DaCommitSet) :
    Except TxError Unit := do
  let set ← daChunkSetForId sets p.1
  let payloadCommitment ← daPayloadCommitment p.2 set
  let gotCommitment ← daCommitOutputCommitment p.2.tx
  rejectIf (payloadCommitment ≠ gotCommitment)
    ⟨.blockErrDaPayloadCommitInvalid, "payload commitment mismatch"⟩

def validateDaSetIntegrity (txs : List Tx) : Except TxError Unit := do
  forEach validateDaChunkHash txs
  let sets ← collectDaCommitsAndChunks txs
  validateDaSetStructure sets
  forEach (validateDaPayloadCommitment sets) sets.commits

/-! ## 3. `coinbase.rs` -/

def isCoinbaseTx (tx : Tx) : Bool :=
  match tx.inputs with
  | [input] =>
    tx.txKind == 0x00 && tx.txNonce == 0 && tx.witness.isEmpty && tx.daPayload.isEmpty &&
      (input.prevTxid == zero32 && input.prevVout == 0xffffffff && input.scriptSig.isEmpty &&
        input.sequence == 0xffffffff)
  | _ => false

def validateCoinbaseStructure (pb : ParsedBlock) (blockHeight : Nat) : Except TxError Unit := do
  let coinbase ← okOr pb.txs.head? ⟨.blockErrCoinbaseInvalid, "missing coinbase"⟩
  rejectIf (isCoinbaseTx coinbase = false)
    ⟨.blockErrCoinbaseInvalid, "first tx is not canonical coinbase"⟩
  rejectIf (coinbase.outputs = [])
    ⟨.blockErrCoinbaseInvalid, "coinbase must have at least one output"⟩
  rejectIf (2 ^ 32 ≤ blockHeight) ⟨.blockErrCoinbaseInvalid, "height out of range"⟩
  rejectIf (coinbase.locktime ≠ UInt32.ofNat blockHeight)
    ⟨.blockErrCoinbaseInvalid, "coinbase locktime must equal block height"⟩

def sumCoinbaseOutputs (coinbase : Tx) : Except TxError Nat :=
  coinbase.outputs.foldlM (fun sum out => do
    rejectIf (2 ^ 128 ≤ sum + out.value.toNat) ⟨.blockErrParse, "u128 overflow"⟩
    .ok (sum + out.value.toNat)) 0

def coinbaseValueLimit (blockHeight alreadyGenerated sumFees : Nat) : Except TxError Nat := do
  let subsidy := blockSubsidy blockHeight alreadyGenerated
  rejectIf (2 ^ 128 ≤ subsidy + sumFees) ⟨.blockErrParse, "u128 overflow"⟩
  .ok (subsidy + sumFees)

def validateCoinbaseValueBound (pb : ParsedBlock) (blockHeight alreadyGenerated sumFees : Nat) :
    Except TxError Unit :=
  if blockHeight = 0 then .ok ()
  else do
    let coinbase ← okOr pb.txs.head? ⟨.blockErrCoinbaseInvalid, "missing coinbase"⟩
    let sumCoinbase ← sumCoinbaseOutputs coinbase
    let limit ← coinbaseValueLimit blockHeight alreadyGenerated sumFees
    rejectIf (sumCoinbase > limit)
      ⟨.blockErrSubsidyExceeded, "coinbase outputs exceed subsidy+fees bound"⟩

def isWitnessCommitmentMatch (expected : Bytes32) (out : TxOutput) : Bool :=
  out.covenantType == covTypeAnchor && out.covenantData == expected.toList

def validateCoinbaseWitnessCommitment (pb : ParsedBlock) : Except TxError Unit := do
  let coinbase ← okOr pb.txs.head? ⟨.blockErrCoinbaseInvalid, "missing coinbase"⟩
  rejectIf (pb.wtxids = []) ⟨.blockErrCoinbaseInvalid, "missing coinbase"⟩
  let wroot ← (witnessMerkleRootWtxids pb.wtxids).mapError
    fun _ => ⟨.blockErrWitnessCommitment, "failed to compute witness merkle root"⟩
  rejectIf (coinbase.outputs.countP (isWitnessCommitmentMatch (witnessCommitmentHash wroot)) ≠ 1)
    ⟨.blockErrWitnessCommitment, "coinbase witness commitment missing or duplicated"⟩

/-! ## 4. `header.rs` -/

def validateMerkleRoot (pb : ParsedBlock) (failMsg : String) : Except TxError Unit := do
  let root ← (merkleRootTxids pb.txids).mapError fun _ => ⟨.blockErrMerkleInvalid, failMsg⟩
  rejectIf (root ≠ pb.header.merkleRoot) ⟨.blockErrMerkleInvalid, "merkle_root mismatch"⟩

def validateHeaderCommitments (pb : ParsedBlock) (expectedPrevHash expectedTarget : Option Bytes32) :
    Except TxError Unit := do
  powCheck pb.headerBytes pb.header.target
  rejectIf (∃ target ∈ expectedTarget, pb.header.target ≠ target)
    ⟨.blockErrTargetInvalid, "target mismatch"⟩
  rejectIf (∃ prev ∈ expectedPrevHash, pb.header.prevBlockHash ≠ prev)
    ⟨.blockErrLinkageInvalid, "prev_block_hash mismatch"⟩
  validateMerkleRoot pb "failed to compute merkle"

/-- The median of the last `min(height, 11)` timestamps, where a caller gives any. -/
def medianTimePast (blockHeight : Nat) (prevTimestamps : Option (List UInt64)) :
    Except TxError (Option UInt64) :=
  match prevTimestamps with
  | none => .ok none
  | some prev =>
    if blockHeight = 0 ∨ prev = [] then .ok none
    else do
      let k := min blockHeight 11
      rejectIf (prev.length < k) ⟨.blockErrParse, "insufficient prev_timestamps context"⟩
      let window := (prev.take k).insertionSort (· ≤ ·)
      .ok (some (window.getD ((window.length - 1) / 2) 0))

def validateTimestampRules (headerTimestamp : UInt64) (blockHeight : Nat)
    (prevTimestamps : Option (List UInt64)) : Except TxError Unit := do
  match ← medianTimePast blockHeight prevTimestamps with
  | none => .ok ()
  | some median =>
    rejectIf (headerTimestamp ≤ median) ⟨.blockErrTimestampOld, "timestamp <= MTP median"⟩
    -- the bound saturates: no timestamp exceeds `2 ^ 64 - 1`
    rejectIf (headerTimestamp.toNat > median.toNat + maxFutureDrift)
      ⟨.blockErrTimestampFuture, "timestamp exceeds future drift"⟩

/-! ## 5. `txs.rs` -/

structure BlockTxStats where
  sumWeight : Nat
  sumDa : Nat
  sumAnchor : Nat

def addBlockResourceStat (current delta : Nat) (msg : String) : Except TxError Nat := do
  rejectIf (2 ^ 64 ≤ current + delta) (.parse msg)
  .ok (current + delta)

def addTxStats (stats : BlockTxStats) (tx : Tx) : Except TxError BlockTxStats := do
  let t ← txWeightAndStats tx
  let sumWeight ← addBlockResourceStat stats.sumWeight t.1 "sum_weight overflow"
  let sumDa ← addBlockResourceStat stats.sumDa t.2.1 "sum_da overflow"
  let sumAnchor ← addBlockResourceStat stats.sumAnchor t.2.2 "sum_anchor overflow"
  .ok { sumWeight, sumDa, sumAnchor }

def accumulateBlockResourceStats (pb : ParsedBlock) : Except TxError BlockTxStats :=
  pb.txs.foldlM addTxStats ⟨0, 0, 0⟩

def validateBlockResourceLimits (stats : BlockTxStats) : Except TxError Unit := do
  rejectIf (stats.sumWeight > maxBlockWeight) ⟨.blockErrWeightExceeded, "block weight exceeded"⟩
  rejectIf (stats.sumDa > maxDaBytesPerBlock) ⟨.blockErrWeightExceeded, "DA bytes exceeded"⟩
  rejectIf (stats.sumAnchor > maxAnchorBytesPerBlock)
    ⟨.blockErrAnchorBytesExceeded, "anchor bytes exceeded"⟩

def validateNonCoinbaseNonceAndInputCount (tx : Tx) : Except TxError Unit := do
  rejectIf (tx.txNonce = 0 ∧ tx.inputs = [])
    ⟨.txErrTxNonceInvalid, "tx_nonce must be >= 1 for non-coinbase"⟩
  rejectIf (tx.inputs = []) (.parse "non-coinbase must have at least one input")

/-- Returns the nonces seen so far, with this transaction's. -/
def validateNonCoinbaseBlockTx (seenNonces : List UInt64) (tx : Tx) :
    Except TxError (List UInt64) := do
  rejectIf (isCoinbaseTx tx) ⟨.blockErrCoinbaseInvalid, "coinbase-like tx found at index > 0"⟩
  validateNonCoinbaseNonceAndInputCount tx
  rejectIf (tx.txNonce ∈ seenNonces) ⟨.txErrNonceReplay, "duplicate tx_nonce in block"⟩
  .ok (tx.txNonce :: seenNonces)

/-! ## 6. `orchestration.rs` -/

def validateParsedBlockPreflight (pb : ParsedBlock) (expectedPrevHash expectedTarget : Option Bytes32)
    (blockHeight : Nat) (prevTimestamps : Option (List UInt64)) : Except TxError BlockTxStats := do
  validateHeaderCommitments pb expectedPrevHash expectedTarget
  validateCoinbaseWitnessCommitment pb
  validateTimestampRules pb.header.timestamp blockHeight prevTimestamps
  let stats ← accumulateBlockResourceStats pb
  validateBlockResourceLimits stats
  validateDaSetIntegrity pb.txs
  .ok stats

def validateConnectPreflight (pb : ParsedBlock) (expectedPrevHash expectedTarget : Option Bytes32)
    (blockHeight : Nat) (prevTimestamps : Option (List UInt64)) : Except TxError Unit := do
  let _ ← validateParsedBlockPreflight pb expectedPrevHash expectedTarget blockHeight
    prevTimestamps
  validateCoinbaseStructure pb blockHeight

/-- What a block read back from local storage is checked for. -/
def validateStoredBlockCommitments (pb : ParsedBlock) : Except TxError Unit := do
  let coinbase ← okOr pb.txs.head? ⟨.blockErrCoinbaseInvalid, "missing coinbase"⟩
  rejectIf (isCoinbaseTx coinbase = false)
    ⟨.blockErrCoinbaseInvalid, "first tx is not canonical coinbase"⟩
  validateMerkleRoot pb "failed to compute merkle root"
  validateCoinbaseWitnessCommitment pb

def coinbaseAndTxid (pb : ParsedBlock) : Except TxError (Tx × Bytes32) := do
  let coinbase ← okOr pb.txs.head? ⟨.blockErrCoinbaseInvalid, "missing coinbase"⟩
  let coinbaseTxid ← okOr pb.txids.head? ⟨.blockErrParse, "missing coinbase txid"⟩
  .ok (coinbase, coinbaseTxid)

/-- `validate_tx_output_covenant_genesis`: the whole-transaction validator on one output. -/
def validateTxOutputCovenantGenesis (txKind : UInt8) (out : TxOutput) (blockHeight : Nat)
    (rotation : RotationProvider) : Except TxError (Option Bytes32) := do
  validateTxCovenantsGenesis
    ⟨1, txKind, 0, [], [out], 0, none, none, [], []⟩ blockHeight (some rotation)
  if out.covenantType ≠ covTypeCoreSimplicity then .ok none
  else do
    rejectIf (out.covenantData.length < 32)
      ⟨.txErrCovenantTypeInvalid, "CORE_SIMPLICITY program_cmr parse failure"⟩
    .ok (some (slice32 out.covenantData 0))

def applyCoinbaseOutput (txKind : UInt8) (txid : Bytes32) (blockHeight : Nat)
    (rp : RotationProvider) (acc : UtxoSet × List Bytes32) (p : TxOutput × Nat) :
    Except TxError (UtxoSet × List Bytes32) := do
  rejectIf (p.1.covenantType = covTypeVault)
    ⟨.blockErrCoinbaseInvalid, "coinbase must not create CORE_VAULT outputs"⟩
  let cmr ← validateTxOutputCovenantGenesis txKind p.1 blockHeight rp
  let cmrs := acc.2 ++ cmr.toList
  if isUnspendable p.1.covenantType then .ok (acc.1, cmrs)
  else do
    rejectIf (2 ^ 32 ≤ p.2) ⟨.blockErrParse, "coinbase output index exceeds u32"⟩
    .ok (acc.1.insert ⟨txid, UInt32.ofNat p.2⟩ (p.1.toEntry blockHeight true), cmrs)

def applyCoinbaseOutputs (pb : ParsedBlock) (workUtxos : UtxoSet) (blockHeight : Nat)
    (rotation : Option RotationProvider) : Except TxError UtxoSet := do
  let coinbase ← coinbaseAndTxid pb
  let rp := rotation.getD DefaultRotationProvider
  let acc ← coinbase.1.outputs.zipIdx.foldlM
    (applyCoinbaseOutput coinbase.1.txKind coinbase.2 blockHeight rp) (workUtxos, [])
  validateSimplicityOutputGroupCap acc.2
  .ok acc.1

end rules

end Rubin.Consensus
