/-
# Connecting a block to an in-memory chain state

`connect_block_inmem.rs`: the sequential connection, the connection with deferred signature
checks, and what they share: the preparation before and the finalisation after the transactions.
-/
import Mathlib.Data.Finset.Sort
import Rubin.Consensus.BlockRules

namespace Rubin.Consensus

open Rubin.Lib

structure InMemoryChainState where
  utxos : UtxoSet
  alreadyGenerated : Nat

/-- `worker_panics` is always zero on success and is left out. -/
structure ConnectBlockBasicSummary where
  sumFees : Nat
  alreadyGenerated : Nat
  alreadyGeneratedN1 : Nat
  utxoCount : Nat
  postStateDigest : Bytes32
  sigTaskCount : Nat

structure ConnectBlockContext where
  expectedPrevHash : Option Bytes32
  expectedTarget : Option Bytes32
  blockHeight : Nat
  prevTimestamps : Option (List UInt64)
  chainId : Bytes32
  rotation : Option RotationProvider
  registry : Option SuiteRegistry

structure PreparedConnectBlock where
  pb : ParsedBlock
  blockHeight : Nat
  alreadyGenerated : Nat
  blockMtp : UInt64

/-! ## 1. The digest of the UTXO set -/

/-- `[u8; 36]`: the txid, then the index. -/
def Outpoint.key (op : Outpoint) : Bytes := op.txid.toList ++ u32LeBytes op.vout

def UtxoEntry.digestBytes (entry : UtxoEntry) : Bytes :=
  u64LeBytes entry.value ++ u16LeBytes entry.covenantType ++
    encodeCompactSize entry.covenantData.length ++ entry.covenantData ++
    natToLe 8 entry.creationHeight ++ [if entry.createdByCoinbase then 1 else 0]

/-- `b"RUBINv1-utxo-set-hash/"`. -/
def utxoSetHashDst : Bytes :=
  [0x52, 0x55, 0x42, 0x49, 0x4e, 0x76, 0x31, 0x2d, 0x75, 0x74, 0x78, 0x6f, 0x2d, 0x73, 0x65, 0x74,
   0x2d, 0x68, 0x61, 0x73, 0x68, 0x2f]

theorem Outpoint.key_injective : Function.Injective Outpoint.key := by
  rintro ⟨txid, vout⟩ ⟨txid', vout'⟩ h
  have hlen : txid.toList.length = txid'.toList.length :=
    txid.length_toList.trans txid'.length_toList.symm
  obtain ⟨h1, h2⟩ := List.append_inj h hlen
  have hvout : vout = vout' := UInt32.toNat_inj.mp (natToLe_inj vout.toNat_lt vout'.toNat_lt h2)
  have htxid : txid = txid' := BytesN.toList_inj.mp h1
  rw [htxid, hvout]

def Outpoint.KeyLe (a b : Outpoint) : Prop := a.key ≤ b.key

instance : DecidableRel Outpoint.KeyLe := fun a b => inferInstanceAs (Decidable (a.key ≤ b.key))
instance : IsTrans Outpoint Outpoint.KeyLe := ⟨fun _ _ _ => List.le_trans⟩
instance : Std.Antisymm Outpoint.KeyLe :=
  ⟨fun _ _ h h' => Outpoint.key_injective (List.le_antisymm h h')⟩
instance : Std.Total Outpoint.KeyLe := ⟨fun a b => List.le_total a.key b.key⟩

/-- One item of the digest.  The outpoints come from the set's own keys. -/
def digestItem (utxos : UtxoSet) (op : Outpoint) : Bytes :=
  match utxos.lookup op with
  | some entry => op.key ++ entry.digestBytes
  | none => []

def utxoSetHash [Crypto] (utxos : UtxoSet) : Bytes32 :=
  sha3_256 (utxoSetHashDst ++ natToLe 8 utxos.len ++
    (utxos.keys.sort Outpoint.KeyLe).flatMap (digestItem utxos))

/-! ## 2. Before and after the transactions -/

variable [Crypto]

def prepareConnectBlock (blockBytes : Bytes) (alreadyGenerated : Nat) (ctx : ConnectBlockContext) :
    Except TxError PreparedConnectBlock := do
  let pb ← parseBlockBytes blockBytes
  validateConnectPreflight pb ctx.expectedPrevHash ctx.expectedTarget ctx.blockHeight
    ctx.prevTimestamps
  rejectIf (pb.txs = [] ∨ pb.txids.length ≠ pb.txs.length) ⟨.blockErrParse, "invalid parsed block"⟩
  let mtp ← medianTimePast ctx.blockHeight ctx.prevTimestamps
  .ok { pb, blockHeight := ctx.blockHeight, alreadyGenerated,
        blockMtp := mtp.getD pb.header.timestamp }

def alreadyGeneratedAfterBlock (blockHeight alreadyGenerated : Nat) : Except TxError Nat :=
  if blockHeight ≠ 0 then do
    let subsidy := blockSubsidy blockHeight alreadyGenerated
    rejectIf (2 ^ 128 ≤ alreadyGenerated + subsidy) ⟨.blockErrParse, "already_generated overflow"⟩
    .ok (alreadyGenerated + subsidy)
  else .ok alreadyGenerated

def finalizeConnectedBlock (prepared : PreparedConnectBlock) (workUtxos : UtxoSet)
    (sumFees sigTaskCount : Nat) : EStateM TxError InMemoryChainState ConnectBlockBasicSummary := do
  liftE (validateCoinbaseValueBound prepared.pb prepared.blockHeight prepared.alreadyGenerated
    sumFees)
  let alreadyGeneratedN1 ← liftE
    (alreadyGeneratedAfterBlock prepared.blockHeight prepared.alreadyGenerated)
  modify fun state => { state with utxos := workUtxos }
  modify fun state => { state with
    alreadyGenerated :=
      if prepared.blockHeight ≠ 0 then alreadyGeneratedN1 else state.alreadyGenerated }
  let state ← get
  pure { sumFees, alreadyGenerated := prepared.alreadyGenerated, alreadyGeneratedN1,
         utxoCount := state.utxos.len, postStateDigest := utxoSetHash state.utxos, sigTaskCount }

/-! ## 3. The transactions, one after another -/

/-- What every transaction of a block is applied with. -/
structure BlockApplyContext where
  blockHeight : Nat
  blockMtp : UInt64
  chainId : Bytes32
  rotation : Option RotationProvider
  registry : Option SuiteRegistry

def BlockApplyContext.forTx (ctx : BlockApplyContext) (utxoSet : UtxoSet) (txid : Bytes32) :
    UtxoApplyContext :=
  { txid, utxoSet, height := ctx.blockHeight, blockMtp := ctx.blockMtp, chainId := ctx.chainId,
    rotation := ctx.rotation, registry := ctx.registry }

structure BlockAccum where
  utxos : UtxoSet
  sumFees : Nat
  seenNonces : List UInt64

/-- The non-coinbase transactions with their ids. -/
def ParsedBlock.nonCoinbase (pb : ParsedBlock) : List (Tx × Bytes32) := (pb.txs.zip pb.txids).tail

def addBlockFee (sumFees fee : Nat) : Except TxError Nat := do
  rejectIf (2 ^ 128 ≤ sumFees + fee) ⟨.blockErrParse, "sum_fees overflow"⟩
  .ok (sumFees + fee)

def applyBlockTx (ctx : BlockApplyContext) (acc : BlockAccum) (p : Tx × Bytes32) :
    Except TxError BlockAccum := do
  let seenNonces ← validateNonCoinbaseBlockTx acc.seenNonces p.1
  let r ← applyNonCoinbaseTx p.1 (ctx.forTx acc.utxos p.2)
  let sumFees ← addBlockFee acc.sumFees r.2.fee
  .ok { utxos := r.1, sumFees, seenNonces }

def applyNonCoinbaseTxsSequential (pb : ParsedBlock) (utxos : UtxoSet) (ctx : BlockApplyContext) :
    Except TxError BlockAccum :=
  pb.nonCoinbase.foldlM (applyBlockTx ctx) ⟨utxos, 0, []⟩

def applyCoinbaseThenNonCoinbaseTxsSequential (pb : ParsedBlock) (utxos : UtxoSet)
    (ctx : BlockApplyContext) : Except TxError BlockAccum := do
  let workUtxos ← applyCoinbaseOutputs pb utxos ctx.blockHeight ctx.rotation
  applyNonCoinbaseTxsSequential pb workUtxos ctx

def PreparedConnectBlock.applyContext (prepared : PreparedConnectBlock)
    (ctx : ConnectBlockContext) : BlockApplyContext :=
  { blockHeight := prepared.blockHeight, blockMtp := prepared.blockMtp, chainId := ctx.chainId,
    rotation := ctx.rotation, registry := ctx.registry }

/-- `connect_block_basic_in_memory_at_height_with_suite_context`. -/
def connectBlockBasicInMemory (blockBytes : Bytes) (ctx : ConnectBlockContext) :
    EStateM TxError InMemoryChainState ConnectBlockBasicSummary := do
  let state ← get
  let prepared ← liftE (prepareConnectBlock blockBytes state.alreadyGenerated ctx)
  let acc ← liftE (applyCoinbaseThenNonCoinbaseTxsSequential prepared.pb state.utxos
    (prepared.applyContext ctx))
  finalizeConnectedBlock prepared acc.utxos acc.sumFees 0

/-! ## 4. The transactions with deferred signature checks -/

def applyBlockTxQueued (ctx : BlockApplyContext) (acc : BlockAccum × SigCheckQueue)
    (p : Tx × Bytes32) : Except TxError (BlockAccum × SigCheckQueue) := do
  let seenNonces ← validateNonCoinbaseBlockTx acc.1.seenNonces p.1
  let r ← applyNonCoinbaseTxQueuedSigchecks p.1 (ctx.forTx acc.1.utxos p.2) acc.2
  let sumFees ← addBlockFee acc.1.sumFees r.1.2.fee
  .ok ({ utxos := r.1.1, sumFees, seenNonces }, r.2)

def collectQueuedNonCoinbaseTxs (pb : ParsedBlock) (utxos : UtxoSet) (ctx : BlockApplyContext)
    (queue : SigCheckQueue) : Except TxError (BlockAccum × SigCheckQueue) :=
  pb.nonCoinbase.foldlM (applyBlockTxQueued ctx) (⟨utxos, 0, []⟩, queue)

def blockSigQueue (threads : Threads) (registry : Option SuiteRegistry) (workers : Nat) :
    SigCheckQueue :=
  match registry with
  | some registry => (SigCheckQueue.new threads workers).withRegistry registry
  | none => SigCheckQueue.new threads workers

/-- The accumulated state and the number of deferred checks. -/
def applyNonCoinbaseTxsParallel (threads : Threads) (pb : ParsedBlock) (utxos : UtxoSet)
    (ctx : BlockApplyContext) (workers : Nat) : Except TxError (BlockAccum × Nat) := do
  let r ← collectQueuedNonCoinbaseTxs pb utxos ctx (blockSigQueue threads ctx.registry workers)
  let _ ← r.2.flush threads
  .ok (r.1, r.2.tasks.length)

/-- `connect_block_parallel_sig_verify_with_suite_context`. -/
def connectBlockParallelSigVerify (threads : Threads) (blockBytes : Bytes)
    (ctx : ConnectBlockContext) (workers : Nat) :
    EStateM TxError InMemoryChainState ConnectBlockBasicSummary := do
  let state ← get
  let prepared ← liftE (prepareConnectBlock blockBytes state.alreadyGenerated ctx)
  let workUtxos ← liftE
    (applyCoinbaseOutputs prepared.pb state.utxos prepared.blockHeight ctx.rotation)
  let r ← liftE (applyNonCoinbaseTxsParallel threads prepared.pb workUtxos
    (prepared.applyContext ctx) workers)
  finalizeConnectedBlock prepared r.1.utxos r.1.sumFees r.2

end Rubin.Consensus
