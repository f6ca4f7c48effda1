/-
# The precompute pass and the per-transaction worker

`precompute.rs` resolves the inputs of every transaction of a block against an overlay of the UTXO
set and writes one context for each; `tx_validate_worker.rs` validates a transaction from its
context alone.  Together they are a second validator beside the sequential application.

The source's overlay is a local variable of `precompute_tx_contexts`; the model returns it with the
contexts (`precomputeOverlay`), so that it can be compared.  The signature cache is absent.
-/
import Rubin.Consensus.Connect

namespace Rubin.Consensus

open Rubin.Lib

/-! ## 1. Inputs of one transaction -/

structure PrecomputedTxContext where
  txIndex : Nat
  txBlockIdx : Nat
  txid : Bytes32
  resolvedInputs : List UtxoEntry
  witnessStart : Nat
  witnessEnd : Nat
  inputOutpoints : List Outpoint
  fee : Nat

def addWitnessSlots (total slots : Nat) : Except TxError Nat := do
  rejectIf (2 ^ 64 ≤ total + slots) (.parse "witness slot count overflow")
  .ok (total + slots)

structure CollectedPrecomputeInputs where
  resolvedInputs : List UtxoEntry
  inputOutpoints : List Outpoint
  totalWitnessSlots : Nat
  sumIn : Nat
  stoppedAtCoreSimplicity : Bool

def validatePrecomputeEntry (entry : UtxoEntry) (blockHeight : Nat) : Except TxError Unit := do
  rejectIf (entry.covenantType = covTypeAnchor ∨ entry.covenantType = covTypeDaCommit)
    ⟨.txErrMissingUtxo, "attempt to spend non-spendable covenant"⟩
  rejectIf (entry.createdByCoinbase ∧
      (blockHeight < entry.creationHeight ∨
        blockHeight - entry.creationHeight < coinbaseMaturity))
    ⟨.txErrCoinbaseImmature, "coinbase immature"⟩

def resolvePrecomputeInput (input : TxInput) (seenInputs : List Outpoint) (overlay : UtxoSet)
    (blockHeight : Nat) : Except TxError (UtxoEntry × Outpoint) := do
  validateNonCoinbaseInputEncoding input
  let op := input.outpoint
  rejectIf (op ∈ seenInputs) (.parse "duplicate input outpoint")
  let entry ← okOr (overlay.lookup op) ⟨.txErrMissingUtxo, "utxo not found"⟩
  validatePrecomputeEntry entry blockHeight
  .ok (entry, op)

def precomputeWitnessSlots (entry : UtxoEntry) : Except TxError Nat := do
  let slots ← witnessSlots entry.covenantType entry.covenantData
  rejectIf (slots = 0) (.parse "invalid witness slots")
  .ok slots

/-- What the loop adds for an input it goes past. -/
def CollectedPrecomputeInputs.add (out : CollectedPrecomputeInputs) (entry : UtxoEntry)
    (op : Outpoint) : Except TxError CollectedPrecomputeInputs := do
  let slots ← precomputeWitnessSlots entry
  let totalWitnessSlots ← addWitnessSlots out.totalWitnessSlots slots
  rejectIf (2 ^ 128 ≤ out.sumIn + entry.value.toNat)
    ⟨.txErrValueConservation, "input sum overflow"⟩
  .ok { out with totalWitnessSlots, sumIn := out.sumIn + entry.value.toNat,
                 resolvedInputs := out.resolvedInputs ++ [entry],
                 inputOutpoints := out.inputOutpoints ++ [op] }

/-- The input loop.  It stops at a `CORE_SIMPLICITY` entry, whose refusal is left for later. -/
def collectFrom (overlay : UtxoSet) (blockHeight : Nat) : List TxInput →
    (seenInputs : List Outpoint) → CollectedPrecomputeInputs →
    Except TxError CollectedPrecomputeInputs
  | [], _, out => .ok out
  | input :: rest, seenInputs, out => do
    let r ← resolvePrecomputeInput input seenInputs overlay blockHeight
    if r.1.covenantType = covTypeCoreSimplicity then
      .ok { out with stoppedAtCoreSimplicity := true,
                     resolvedInputs := out.resolvedInputs ++ [r.1],
                     inputOutpoints := out.inputOutpoints ++ [r.2] }
    else do
      let out ← out.add r.1 r.2
      collectFrom overlay blockHeight rest (r.2 :: seenInputs) out

def collectPrecomputeInputs (tx : Tx) (overlay : UtxoSet) (blockHeight : Nat) :
    Except TxError CollectedPrecomputeInputs :=
  collectFrom overlay blockHeight tx.inputs [] ⟨[], [], 0, 0, false⟩

def precomputeWitnessBounds (tx : Tx) (totalWitnessSlots : Nat) (stoppedAtCoreSimplicity : Bool) :
    Except TxError (Nat × Nat) := do
  rejectIf (totalWitnessSlots > tx.witness.length) (.parse "witness underflow")
  rejectIf (stoppedAtCoreSimplicity = false ∧ totalWitnessSlots ≠ tx.witness.length)
    (.parse "witness_count mismatch")
  .ok (0, totalWitnessSlots)

def addPrecomputeOutput (sumOut : Nat) (output : TxOutput) : Except TxError Nat := do
  rejectIf (2 ^ 128 ≤ sumOut + output.value.toNat)
    ⟨.txErrValueConservation, "output sum overflow"⟩
  .ok (sumOut + output.value.toNat)

def computePrecomputeFee (sumIn : Nat) (outputs : List TxOutput) : Except TxError Nat := do
  let sumOut ← outputs.foldlM addPrecomputeOutput 0
  rejectIf (sumIn < sumOut) ⟨.txErrValueConservation, "outputs exceed inputs"⟩
  .ok (sumIn - sumOut)

/-! ## 2. The pass over a block -/

def precomputeTxContext (txIndex : Nat) (tx : Tx) (txid : Bytes32) (overlay : UtxoSet)
    (blockHeight : Nat) : Except TxError PrecomputedTxContext := do
  rejectIf (tx.txNonce = 0) ⟨.txErrTxNonceInvalid, "tx_nonce must be >= 1 for non-coinbase"⟩
  rejectIf (tx.inputs = []) (.parse "non-coinbase must have at least one input")
  validateTxCovenantsGenesis tx blockHeight none
  let inputs ← collectPrecomputeInputs tx overlay blockHeight
  let bounds ← precomputeWitnessBounds tx inputs.totalWitnessSlots inputs.stoppedAtCoreSimplicity
  rejectIf (inputs.stoppedAtCoreSimplicity = true) rejectCoreSimplicitySpend
  let fee ← computePrecomputeFee inputs.sumIn tx.outputs
  .ok { txIndex, txBlockIdx := txIndex, txid, resolvedInputs := inputs.resolvedInputs,
        witnessStart := bounds.1, witnessEnd := bounds.2, inputOutpoints := inputs.inputOutpoints,
        fee }

def addPrecomputeOverlay (txid : Bytes32) (blockHeight : Nat) (overlay : UtxoSet)
    (p : TxOutput × Nat) : Except TxError UtxoSet :=
  if p.1.covenantType = covTypeAnchor ∨ p.1.covenantType = covTypeDaCommit then .ok overlay
  else do
    rejectIf (2 ^ 32 ≤ p.2) (.parse "output index exceeds u32")
    .ok (overlay.insert ⟨txid, UInt32.ofNat p.2⟩ (p.1.toEntry blockHeight false))

def updatePrecomputeOverlay (overlay : UtxoSet) (tx : Tx) (txid : Bytes32)
    (inputOutpoints : List Outpoint) (blockHeight : Nat) : Except TxError UtxoSet :=
  tx.outputs.zipIdx.foldlM (addPrecomputeOverlay txid blockHeight)
    (inputOutpoints.foldl (fun overlay op => overlay.erase op) overlay)

structure PrecomputeAccum where
  overlay : UtxoSet
  seenNonces : List UInt64
  results : List PrecomputedTxContext

def precomputeNextTx (blockHeight : Nat) (acc : PrecomputeAccum) (p : (Tx × Bytes32) × Nat) :
    Except TxError PrecomputeAccum := do
  let seenNonces ← validateNonCoinbaseBlockTx acc.seenNonces p.1.1
  let context ← precomputeTxContext p.2 p.1.1 p.1.2 acc.overlay blockHeight
  let overlay ← updatePrecomputeOverlay acc.overlay p.1.1 p.1.2 context.inputOutpoints blockHeight
  .ok { overlay, seenNonces, results := acc.results ++ [context] }

def precomputeNonCoinbaseContexts (pb : ParsedBlock) (overlay : UtxoSet) (blockHeight : Nat) :
    Except TxError PrecomputeAccum :=
  (pb.nonCoinbase.zipIdx 1).foldlM (precomputeNextTx blockHeight) ⟨overlay, [], []⟩

/-- The contexts with the overlay they leave.  A block of the coinbase alone has no contexts. -/
def precomputeOverlay (pb : ParsedBlock) (utxoSnapshot : UtxoSet) (blockHeight : Nat) :
    Except TxError PrecomputeAccum := do
  rejectIf (pb.txs = []) ⟨.blockErrParse, "nil or empty parsed block"⟩
  rejectIf (pb.txids.length ≠ pb.txs.length) ⟨.blockErrParse, "txids/txs length mismatch"⟩
  let overlay ← applyCoinbaseOutputs pb utxoSnapshot blockHeight none
  if pb.txs.length = 1 then .ok ⟨overlay, [], []⟩
  else precomputeNonCoinbaseContexts pb overlay blockHeight

def precomputeTxContexts (pb : ParsedBlock) (utxoSnapshot : UtxoSet) (blockHeight : Nat) :
    Except TxError (List PrecomputedTxContext) := do
  let acc ← precomputeOverlay pb utxoSnapshot blockHeight
  .ok acc.results

/-! ## 3. The worker -/

structure TxValidationResult where
  txIndex : Nat
  valid : Bool
  err : Option TxError
  sigCount : Nat
  fee : Nat

structure TxLocalSpendContext where
  chainId : Bytes32
  blockHeight : Nat
  blockMtp : UInt64
  rotation : RotationProvider
  registry : SuiteRegistry

def pendingTxValidationResult (ptc : PrecomputedTxContext) : TxValidationResult :=
  { txIndex := ptc.txIndex, valid := false, err := none, sigCount := 0, fee := ptc.fee }

def txValidationErrorResult (ptc : PrecomputedTxContext) (e : TxError) : TxValidationResult :=
  { pendingTxValidationResult ptc with err := some e }

def assignedWorkerWitness (tx : Tx) (witnessCursor slots witnessEnd : Nat) :
    Except TxError (List WitnessItem) := do
  rejectIf (witnessCursor + slots > witnessEnd) (.parse "witness underflow in worker")
  .ok ((tx.witness.drop witnessCursor).take slots)

section worker

variable [Crypto] {tx : Tx}

/-- A covenant without a branch of its own has no spend-time check. -/
def validateInputSpend (entry : UtxoEntry) (assigned : List WitnessItem) (inputIndex : UInt32)
    (ctx : TxLocalSpendContext) : SpendM tx Unit :=
  if entry.covenantType = covTypeP2pk then
    match assigned with
    | [witness] => validateP2pkSpendQ entry witness inputIndex entry.value ctx.chainId
        ctx.blockHeight (some ctx.rotation) (some ctx.registry)
    | _ => StateT.lift (.error (.parse "CORE_P2PK witness_slots must be 1"))
  else if entry.covenantType = covTypeMultisig then do
    let m ← StateT.lift (parseMultisigCovenantData entry.covenantData)
    validateThresholdSigSpendQ m.keys m.threshold assigned inputIndex entry.value ctx.chainId
      ctx.blockHeight .coreMultisig (some ctx.rotation) (some ctx.registry)
  else if entry.covenantType = covTypeVault then do
    let v ← StateT.lift (parseVaultCovenantDataForSpend entry.covenantData)
    validateThresholdSigSpendQ v.keys v.threshold assigned inputIndex entry.value ctx.chainId
      ctx.blockHeight .coreVault (some ctx.rotation) (some ctx.registry)
  else if entry.covenantType = covTypeHtlc then
    match assigned with
    | [pathItem, sigItem] => validateHtlcSpendQ entry pathItem sigItem
        ⟨inputIndex, entry.value, ctx.chainId, ctx.blockHeight, ctx.blockMtp⟩ (some ctx.rotation)
        (some ctx.registry)
    | _ => StateT.lift (.error (.parse "CORE_HTLC witness_slots must be 2"))
  else if entry.covenantType = covTypeCoreStealth then
    match assigned with
    | [witness] => validateStealthSpendQ entry witness inputIndex entry.value ctx.chainId
        ctx.blockHeight (some ctx.rotation) (some ctx.registry)
    | _ => StateT.lift (.error (.parse "CORE_STEALTH witness_slots must be 1"))
  else pure ()

/-- The input loop; returns the witness cursor. -/
def validateWorkerInputs (ctx : TxLocalSpendContext) (witnessEnd : Nat) :
    (inputIndex witnessCursor : Nat) → List UtxoEntry → SpendM tx Nat
  | _, witnessCursor, [] => pure witnessCursor
  | inputIndex, witnessCursor, entry :: rest => do
    let slots ← StateT.lift (witnessSlots entry.covenantType entry.covenantData)
    let assigned ← StateT.lift (assignedWorkerWitness tx witnessCursor slots witnessEnd)
    validateInputSpend entry assigned (UInt32.ofNat inputIndex) ctx
    validateWorkerInputs ctx witnessEnd (inputIndex + 1) (witnessCursor + slots) rest

/-- The end of a validation: the cursor, then the queued signatures. -/
def finishTxLocal (threads : Threads) (ptc : PrecomputedTxContext) (witnessCursor : Nat)
    (sigQueue : SigCheckQueue) : TxValidationResult :=
  if witnessCursor ≠ ptc.witnessEnd then
    txValidationErrorResult ptc (.parse "witness_count mismatch")
  else
    let result := { pendingTxValidationResult ptc with sigCount := sigQueue.tasks.length }
    match sigQueue.flush threads with
    | .error e => { result with err := some e }
    | .ok _ => { result with valid := true }

def workerSigQueue (threads : Threads) : SigCheckQueue :=
  (SigCheckQueue.new threads 1).withRegistry SuiteRegistry.defaultRegistry

def validateTxLocalOn (threads : Threads) (ptc : PrecomputedTxContext) (tx : Tx)
    (ctx : TxLocalSpendContext) : TxValidationResult :=
  match rejectCoreSimplicitySpendIfPresent ptc.resolvedInputs with
  | .error e => txValidationErrorResult ptc e
  | .ok _ =>
    match validateWorkerInputs ctx ptc.witnessEnd 0 ptc.witnessStart ptc.resolvedInputs
        ⟨SighashV1PrehashCache.new tx, some (workerSigQueue threads)⟩ with
    | .error e => txValidationErrorResult ptc e
    | .ok r => finishTxLocal threads ptc r.1 (r.2.queue.getD (workerSigQueue threads))

/-- `None` stands for the index panic of `pb.txs[ptc.tx_block_idx]`. -/
def validateTxLocal (threads : Threads) (ptc : PrecomputedTxContext) (pb : ParsedBlock)
    (chainId : Bytes32) (blockHeight : Nat) (blockMtp : UInt64) : Option TxValidationResult :=
  (pb.txs[ptc.txBlockIdx]?).map fun tx => validateTxLocalOn threads ptc tx
    { chainId, blockHeight, blockMtp, rotation := DefaultRotationProvider,
      registry := SuiteRegistry.defaultRegistry }

end worker

end Rubin.Consensus
