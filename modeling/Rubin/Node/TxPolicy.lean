/-
# Admission policy: fee floor, fast precheck, relay

The functions of `txpool.rs` that look at a transaction and the chain state, but not at the pool:
the rolling fee floor, the fast precheck that rejects plain underpaying transactions before any
signature is verified, the policy that runs after consensus, and `relay_metadata`, which is all of
them in a row.
-/
import Rubin.Node.TimeWindow

namespace Rubin.Node

open Rubin.Lib Rubin.Consensus

/-! ## 1. Errors and configuration -/

inductive TxPoolAdmitErrorKind where
  | conflict
  | rejected
  | unavailable
deriving DecidableEq, Repr

structure TxPoolAdmitError where
  kind : TxPoolAdmitErrorKind
  message : String
deriving DecidableEq, Repr

def conflict (message : String) : TxPoolAdmitError := ⟨.conflict, message⟩
def rejected (message : String) : TxPoolAdmitError := ⟨.rejected, message⟩
def unavailable (message : String) : TxPoolAdmitError := ⟨.unavailable, message⟩

/-- `rejected(format!("transaction rejected: {err}"))`. -/
def transactionRejected (err : TxError) : TxPoolAdmitError :=
  rejected ("transaction rejected: " ++ err.toString)

structure SuiteContext where
  rotation : RotationProvider
  registry : SuiteRegistry

structure TxPoolConfig where
  policyDaSurchargePerByte : UInt64
  policyRejectNonCoinbaseAnchorOutputs : Bool
  policyRejectSimplicityPreActivation : Bool
  suiteContext : Option SuiteContext
  policyCurrentMempoolMinFeeRate : UInt64
  policyMinDaFeeRate : UInt64

def defaultMempoolMinFeeRate : Nat := 1

def TxPoolConfig.default : TxPoolConfig where
  policyDaSurchargePerByte := 0
  policyRejectNonCoinbaseAnchorOutputs := true
  policyRejectSimplicityPreActivation := true
  suiteContext := none
  policyCurrentMempoolMinFeeRate := 1
  policyMinDaFeeRate := 1

def TxPoolConfig.rotation (cfg : TxPoolConfig) : Option RotationProvider :=
  cfg.suiteContext.map SuiteContext.rotation

def TxPoolConfig.registry (cfg : TxPoolConfig) : Option SuiteRegistry :=
  cfg.suiteContext.map SuiteContext.registry

structure RelayTxMetadata where
  fee : Nat
  size : Nat
deriving DecidableEq, Repr

def TxPool.nextBlockHeight (chainState : ChainState) : Except TxPoolAdmitError Nat :=
  if !chainState.hasTip then .ok 0
  else do
    rejectIf (chainState.height = u64Max) (unavailable "height overflow")
    .ok (chainState.height + 1)

/-! ## 2. The fee floor and its fast precheck -/

def feeBelowRate (fee weight rate : Nat) : Bool := decide (fee < weight * rate)

def feeRateBelowFloor (fee weight : Nat) (floor : UInt64) : Bool :=
  if weight = 0 then true
  else feeBelowRate fee weight (max floor.toNat defaultMempoolMinFeeRate)

def validateFeeFloor (fee weight : Nat) (cfgFloor : UInt64) : Except TxPoolAdmitError Unit :=
  let surfacedFloor := max cfgFloor.toNat defaultMempoolMinFeeRate
  rejectIf (feeRateBelowFloor fee weight cfgFloor) (unavailable
    s!"mempool fee below rolling minimum: fee={fee} weight={weight} min_fee_rate={surfacedFloor}")

/-- The native spend suites, from the provider or from the cached default set. -/
def precheckSpendSuites (rotation : Option RotationProvider) (nextHeight : Nat) : NativeSuiteSet :=
  match rotation with
  | some rp => rp.nativeSpendSuites nextHeight
  | none => DefaultRotationProvider.nativeSpendSuites 0

def precheckCreateSuites (rotation : Option RotationProvider) (nextHeight : Nat) : NativeSuiteSet :=
  match rotation with
  | some rp => rp.nativeCreateSuites nextHeight
  | none => DefaultRotationProvider.nativeCreateSuites 0

/-- The only input and the only witness item. -/
def soleInputAndWitness (tx : Tx) : Option (TxInput × WitnessItem) :=
  match tx.inputs, tx.witness with
  | [input], [w] => some (input, w)
  | _, _ => none

section

variable [Crypto]

def feePrecheckP2pkInputValue (tx : Tx) (utxos : UtxoSet) (nextHeight : Nat)
    (rotation : Option RotationProvider) (registry : Option SuiteRegistry) : Option UInt64 := do
  let p ← soleInputAndWitness tx
  guard (¬ (p.1.prevTxid = zero32 ∧ p.1.prevVout = 0xffffffff))
  guard (p.1.scriptSig = [])
  guard (¬ p.1.sequence > 0x7fffffff)
  let entry ← utxos.lookup p.1.outpoint
  guard (entry.covenantType = covTypeP2pk)
  guard (¬ (entry.createdByCoinbase ∧ (nextHeight < entry.creationHeight ∨
    nextHeight - entry.creationHeight < coinbaseMaturity)))
  guard ((precheckSpendSuites rotation nextHeight).contains p.2.suiteId)
  let params ← (registry.getD SuiteRegistry.defaultRegistry).lookup p.2.suiteId
  guard (p.2.pubkey.length = params.pubkeyLen.toNat ∧
    p.2.signature.length = (params.sigLen + 1).toNat)
  guard (entry.covenantData.length = maxP2pkCovenantData)
  guard (entry.covenantData.getD 0 0 = p.2.suiteId)
  let trailer ← p.2.signature.getLast?
  guard (isValidSighashType trailer)
  guard (sha3_256 p.2.pubkey = slice32 entry.covenantData 1)
  some entry.value

end

/-- One turn of the output loop; the sum is a checked 64-bit sum. -/
def feePrecheckOutput (nativeSuites : NativeSuiteSet) (total : Nat) (output : TxOutput) :
    Option Nat := do
  guard (output.covenantType = covTypeP2pk)
  guard (output.value ≠ 0)
  guard (output.covenantData.length = maxP2pkCovenantData)
  guard (nativeSuites.contains (output.covenantData.getD 0 0))
  guard (total + output.value.toNat < 2 ^ 64)
  some (total + output.value.toNat)

def feePrecheckP2pkOutputValue (outputs : List TxOutput) (nextHeight : Nat)
    (rotation : Option RotationProvider) : Option Nat :=
  outputs.foldlM (feePrecheckOutput (precheckCreateSuites rotation nextHeight)) 0

/-- The input value and the output value, where the precheck recognises the shape. -/
def feePrecheckValues [Crypto] (tx : Tx) (utxos : UtxoSet) (nextHeight : Nat)
    (rotation : Option RotationProvider) (registry : Option SuiteRegistry) :
    Option (Nat × Nat) := do
  guard (¬ (tx.txKind ≠ 0x00 ∨ tx.daPayload ≠ [] ∨ tx.txNonce = 0))
  let inputValue ← feePrecheckP2pkInputValue tx utxos nextHeight rotation registry
  let outputValue ← feePrecheckP2pkOutputValue tx.outputs nextHeight rotation
  guard (outputValue ≤ inputValue.toNat)
  some (inputValue.toNat, outputValue)

/-- `cheap_fee_floor_precheck`.  Whatever it cannot classify passes. -/
def cheapFeeFloorPrecheck [Crypto] (tx : Tx) (utxos : UtxoSet) (weight : Nat)
    (currentMinFeeRate : UInt64) (nextHeight : Nat) (rotation : Option RotationProvider)
    (registry : Option SuiteRegistry) : Except TxPoolAdmitError Unit :=
  match feePrecheckValues tx utxos nextHeight rotation registry with
  | none => .ok ()
  | some values =>
    if weight = 0 then .ok ()
    else validateFeeFloor (values.1 - values.2) weight currentMinFeeRate

/-! ## 3. Policy -/

def covenantPolicyKind (tx : Tx) (utxos : UtxoSet) (covenantType : UInt16) : Option String :=
  if tx.outputs.any fun output => output.covenantType == covenantType then some "output"
  else if tx.inputs.any fun input =>
      (utxos.lookup input.outpoint).any fun entry => entry.covenantType == covenantType then
    some "spend"
  else none

def rejectMissingPolicyInputs (tx : Tx) (utxos : UtxoSet) : Except TxPoolAdmitError Unit :=
  forEach (fun input => rejectIf (utxos.lookup input.outpoint = none)
    (rejected (TxError.toString ⟨.txErrMissingUtxo, "utxo not found"⟩))) tx.inputs

/-- `ActiveSimplicityGenesisRotation`: the inner provider with the deployment forced active. -/
def activeSimplicityGenesisRotation (inner : Option RotationProvider) : RotationProvider :=
  { inner.getD DefaultRotationProvider with simplicityActiveAtHeight := fun _ => true }

def simplicityActive (rotation : Option RotationProvider) (height : Nat) : Bool :=
  match rotation with
  | some provider => provider.simplicityActiveAtHeight height
  | none => false

def rejectCoreSimplicityPreActivation (tx : Tx) (utxos : UtxoSet) (height : Nat)
    (rotation : Option RotationProvider) : Except String (Option String) :=
  match covenantPolicyKind tx utxos covTypeCoreSimplicity with
  | none => .ok none
  | some kind =>
    if simplicityActive rotation height then .ok none
    else do
      (validateTxCovenantsGenesis tx height
        (some (activeSimplicityGenesisRotation rotation))).mapError TxError.toString
      .ok (some s!"CORE_SIMPLICITY {kind} pre-ACTIVE")

/-- `if let Some(reason) = … { return Err(reason) }`. -/
def refuseReason (reason : Option String) : Except String Unit :=
  match reason with
  | some reason => .error reason
  | none => .ok ()

/-- The gate in front of consensus, the same on the admission and on the relay path. -/
def simplicityPolicyGate (cfg : TxPoolConfig) (tx : Tx) (utxos : UtxoSet) (nextHeight : Nat) :
    Except TxPoolAdmitError Unit :=
  if cfg.policyRejectSimplicityPreActivation ∧
      (covenantPolicyKind tx utxos covTypeCoreSimplicity).isSome then do
    rejectMissingPolicyInputs tx utxos
    let reason ← (rejectCoreSimplicityPreActivation tx utxos nextHeight cfg.rotation).mapError
      rejected
    (refuseReason reason).mapError rejected
  else .ok ()

def rejectNonCoinbaseAnchorOutputs (tx : Tx) : Except String Unit :=
  rejectIf (tx.outputs.any fun output => output.covenantType == covTypeAnchor)
    "non-coinbase CORE_ANCHOR is non-standard (policy)"

def sumInNoVerify (utxos : UtxoSet) (inputs : List TxInput) : Except String Nat :=
  inputs.foldlM (fun sumIn input => do
    let entry ← okOr (utxos.lookup input.outpoint) "missing utxo"
    rejectIf (2 ^ 128 ≤ sumIn + entry.value.toNat) "sum_in overflow"
    .ok (sumIn + entry.value.toNat)) 0

def sumOutNoVerify (outputs : List TxOutput) : Except String Nat :=
  outputs.foldlM (fun sumOut output => do
    rejectIf (2 ^ 128 ≤ sumOut + output.value.toNat) "sum_out overflow"
    .ok (sumOut + output.value.toNat)) 0

def computeFeeNoVerify (tx : Tx) (utxos : UtxoSet) : Except String Nat := do
  rejectIf (tx.inputs = []) "missing inputs"
  let sumIn ← sumInNoVerify utxos tx.inputs
  let sumOut ← sumOutNoVerify tx.outputs
  rejectIf (sumOut > sumIn) "overspend"
  .ok (sumIn - sumOut)

/-- The comparison at the end of `reject_da_anchor_tx_policy`. -/
def requireDaFee (tx : Tx) (utxos : UtxoSet) (required : Nat) (shortfall : Nat → String) :
    Except String Unit :=
  if required = 0 then .ok ()
  else do
    let fee ← (computeFeeNoVerify tx utxos).mapError fun err =>
      s!"cannot compute fee for DA tx (policy): {err}"
    rejectIf (fee < required) (shortfall fee)

def rejectDaAnchorTxPolicy (tx : Tx) (weight daBytes : Nat) (utxos : UtxoSet)
    (currentMempoolMinFeeRate minDaFeeRate daSurchargePerByte : UInt64) : Except String Unit :=
  if daBytes = 0 then .ok ()
  else do
    let relayFloor := weight * currentMempoolMinFeeRate.toNat
    let daFloor := daBytes * minDaFeeRate.toNat
    let daSurcharge := daBytes * daSurchargePerByte.toNat
    rejectIf (2 ^ 64 ≤ daFloor) ("DA fee floor overflow (da_payload_len=" ++
      s!"{daBytes} min_da_fee_rate={minDaFeeRate}): u64 overflow")
    rejectIf (2 ^ 64 ≤ daSurcharge) ("DA surcharge overflow (da_payload_len=" ++
      s!"{daBytes} surcharge_per_byte={daSurchargePerByte}): u64 overflow")
    rejectIf (2 ^ 64 ≤ daFloor + daSurcharge) ("DA required fee overflow (da_fee_floor=" ++
      s!"{daFloor} da_surcharge={daSurcharge}): u64 overflow")
    let required := max relayFloor (daFloor + daSurcharge)
    requireDaFee tx utxos required fun fee =>
      s!"DA fee below Stage C floor (fee={fee} required_fee={required} " ++
      s!"relay_fee_floor={relayFloor} da_fee_floor={daFloor} da_surcharge={daSurcharge} " ++
      s!"weight={weight} da_payload_len={daBytes})"

def anchorOutputPolicy (cfg : TxPoolConfig) (tx : Tx) : Except String Unit :=
  if cfg.policyRejectNonCoinbaseAnchorOutputs then rejectNonCoinbaseAnchorOutputs tx else .ok ()

def simplicityPolicy (cfg : TxPoolConfig) (tx : Tx) (utxos : UtxoSet) (nextHeight : Nat) :
    Except String Unit :=
  if cfg.policyRejectSimplicityPreActivation then do
    let reason ← rejectCoreSimplicityPreActivation tx utxos nextHeight cfg.rotation
    refuseReason reason
  else .ok ()

def applyPolicy (tx : Tx) (weight daBytes : Nat) (utxos : UtxoSet) (nextHeight : Nat)
    (cfg : TxPoolConfig) : Except String Unit := do
  anchorOutputPolicy cfg tx
  rejectDaAnchorTxPolicy tx weight daBytes utxos cfg.policyCurrentMempoolMinFeeRate
    cfg.policyMinDaFeeRate cfg.policyDaSurchargePerByte
  simplicityPolicy cfg tx utxos nextHeight

/-- The relay term of the policy is switched off here: `validateFeeFloor` does it. -/
def applyPostConsensusPolicyWithoutFloor (tx : Tx) (utxos : UtxoSet) (weight daBytes : Nat)
    (nextHeight : Nat) (cfg : TxPoolConfig) : Except TxPoolAdmitError Unit :=
  (applyPolicy tx weight daBytes utxos nextHeight
    { cfg with policyCurrentMempoolMinFeeRate := 0 }).mapError rejected

def applyPostConsensusPolicyWithFloor (tx : Tx) (utxos : UtxoSet) (fee weight daBytes : Nat)
    (nextHeight : Nat) (cfg : TxPoolConfig) : Except TxPoolAdmitError Unit := do
  applyPostConsensusPolicyWithoutFloor tx utxos weight daBytes nextHeight cfg
  validateFeeFloor fee weight cfg.policyCurrentMempoolMinFeeRate

/-! ## 4. `relay_metadata` -/

section

variable [Crypto]

/-- `parse_tx` and the check that no bytes are left over. -/
def parseCanonicalTx (txBytes : Bytes) : Except TxPoolAdmitError ParsedTx := do
  let parsed ← (parseTx txBytes).mapError transactionRejected
  rejectIf (parsed.consumed ≠ txBytes.length)
    (rejected "transaction rejected: non-canonical tx bytes")
  .ok parsed

/-- The consensus check of a transaction on the chain state, at the next height. -/
def applyAtNextBlock (parsed : ParsedTx) (chainState : ChainState) (nextHeight : Nat)
    (blockMtp : UInt64) (chainId : Bytes32) (cfg : TxPoolConfig) :
    Except TxPoolAdmitError UtxoApplySummary := do
  let applied ← (applyNonCoinbaseTx parsed.tx
    { txid := parsed.txid, utxoSet := chainState.utxos, height := nextHeight, blockMtp, chainId,
      rotation := cfg.rotation, registry := cfg.registry }).mapError transactionRejected
  .ok applied.2

def relayMetadata (txBytes : Bytes) (chainState : ChainState) (blockStore : Option BlockStore)
    (chainId : Bytes32) (cfg : TxPoolConfig) : Except TxPoolAdmitError RelayTxMetadata := do
  let parsed ← parseCanonicalTx txBytes
  let nextHeight ← TxPool.nextBlockHeight chainState
  let blockMtp ← (TxPool.nextBlockMtp blockStore nextHeight).mapError unavailable
  simplicityPolicyGate cfg parsed.tx chainState.utxos nextHeight
  let summary ← applyAtNextBlock parsed chainState nextHeight blockMtp chainId cfg
  let stats ← (txWeightAndStats parsed.tx).mapError transactionRejected
  applyPostConsensusPolicyWithFloor parsed.tx chainState.utxos summary.fee stats.1 stats.2.1
    nextHeight cfg
  .ok { fee := summary.fee, size := txBytes.length }

end

end Rubin.Node
