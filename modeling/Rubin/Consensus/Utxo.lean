/-
# Applying one transaction to the UTXO set

`utxo_basic.rs`: resolve the inputs and cut the witness list into their slots, validate each spend,
replace inputs by outputs, then the vault rules and value conservation, in the source's order.

The source's `UtxoApplyState` is one record that every stage updates; here each stage has the
fields it writes (`ResolveState`, `SpendAccum`, `OutputAccum`), so that a stage's type says what it
cannot touch.  The prehash cache and the queue are the state of `SpendM`.
-/
import Mathlib.Data.Finmap
import Rubin.Consensus.Spend

namespace Rubin.Consensus

open Rubin.Lib

/-- `HashMap<Outpoint, UtxoEntry>`. -/
abbrev UtxoSet := Finmap fun _ : Outpoint => UtxoEntry

def UtxoSet.len (utxos : UtxoSet) : Nat := utxos.keys.card

structure UtxoApplySummary where
  fee : Nat
  utxoCount : Nat
deriving DecidableEq, Repr

/-- `UtxoApplyImplContext` without the transaction.  The block timestamp is not read. -/
structure UtxoApplyContext where
  txid : Bytes32
  utxoSet : UtxoSet
  height : Nat
  blockMtp : UInt64
  chainId : Bytes32
  rotation : Option RotationProvider
  registry : Option SuiteRegistry

/-! ## 1. Inputs -/

def TxInput.outpoint (input : TxInput) : Outpoint := ⟨input.prevTxid, input.prevVout⟩

def validateNonCoinbaseInputEncoding (input : TxInput) : Except TxError Unit := do
  rejectIf (input.prevVout = 0xffffffff ∧ input.prevTxid = zero32)
    (.parse "coinbase prevout encoding forbidden in non-coinbase")
  rejectIf (input.scriptSig ≠ []) (.parse "script_sig must be empty under genesis covenant set")
  rejectIf (input.sequence > 0x7fffffff) ⟨.txErrSequenceInvalid, "sequence exceeds 0x7fffffff"⟩

def validateApplyInputs (tx : Tx) (ctx : UtxoApplyContext) : Except TxError Unit := do
  rejectIf (tx.txNonce = 0) ⟨.txErrTxNonceInvalid, "tx_nonce must be >= 1 for non-coinbase"⟩
  rejectIf (tx.inputs = []) (.parse "non-coinbase must have at least one input")
  validateTxCovenantsGenesis tx ctx.height ctx.rotation

def validateInputAvailability (entry : UtxoEntry) (height : Nat) : Except TxError Unit := do
  rejectIf (entry.covenantType = covTypeAnchor ∨ entry.covenantType = covTypeDaCommit)
    ⟨.txErrMissingUtxo, "attempt to spend non-spendable covenant"⟩
  rejectIf (entry.createdByCoinbase ∧
      (height < entry.creationHeight ∨ height - entry.creationHeight < coinbaseMaturity))
    ⟨.txErrCoinbaseImmature, "coinbase immature"⟩

def checkSpendCovenant (covenantType : UInt16) (covenantData : Bytes) : Except TxError Unit :=
  if covenantType = covTypeP2pk then .ok ()
  else if covenantType = covTypeCoreStealth then
    parseStealthCovenantData covenantData >>= fun _ => .ok ()
  else if covenantType = covTypeVault then
    parseVaultCovenantDataForSpend covenantData >>= fun _ => .ok ()
  else if covenantType = covTypeMultisig then
    parseMultisigCovenantData covenantData >>= fun _ => .ok ()
  else if covenantType = covTypeHtlc then
    parseHtlcCovenantData covenantData >>= fun _ => .ok ()
  else .error ⟨.txErrCovenantTypeInvalid, "unsupported covenant in basic apply"⟩

/-- One resolved input: its entry, the witness slots assigned to it, its outpoint. -/
structure ResolvedInput where
  entry : UtxoEntry
  witnessStart : Nat
  slotCount : Nat
  outpoint : Outpoint
deriving DecidableEq

structure ResolveState where
  vaultInputCount : Nat
  witnessCursor : Nat
  seenInputs : List Outpoint
  resolved : List ResolvedInput

/-- Counts a vault input, then refuses what cannot be spent; returns the count. -/
def validateInputCovenant (vaultInputCount : Nat) (entry : UtxoEntry) : Except TxError Nat := do
  let vaultInputCount :=
    if entry.covenantType = covTypeVault then vaultInputCount + 1 else vaultInputCount
  rejectIf (entry.covenantType = covTypeVault ∧ vaultInputCount > 1)
    ⟨.txErrVaultMultiInputForbidden, "multiple CORE_VAULT inputs forbidden"⟩
  rejectIf (entry.covenantType = covTypeCoreSimplicity) rejectCoreSimplicitySpend
  checkSpendCovenant entry.covenantType entry.covenantData
  .ok vaultInputCount

def recordResolvedInput (tx : Tx) (witnessCursor : Nat) (entry : UtxoEntry) (op : Outpoint) :
    Except TxError ResolvedInput := do
  let slots ← witnessSlots entry.covenantType entry.covenantData
  rejectIf (slots = 0) (.parse "invalid witness slots")
  rejectIf (witnessCursor + slots > tx.witness.length) (.parse "witness underflow")
  .ok ⟨entry, witnessCursor, slots, op⟩

def resolveInput (tx : Tx) (ctx : UtxoApplyContext) (st : ResolveState) (input : TxInput) :
    Except TxError ResolveState := do
  validateNonCoinbaseInputEncoding input
  let op := input.outpoint
  rejectIf (op ∈ st.seenInputs) (.parse "duplicate input outpoint")
  let entry ← okOr (ctx.utxoSet.lookup op) ⟨.txErrMissingUtxo, "utxo not found"⟩
  validateInputAvailability entry ctx.height
  let vaultInputCount ← validateInputCovenant st.vaultInputCount entry
  let r ← recordResolvedInput tx st.witnessCursor entry op
  .ok { vaultInputCount, witnessCursor := st.witnessCursor + r.slotCount,
        seenInputs := op :: st.seenInputs, resolved := st.resolved ++ [r] }

def resolveInputs (tx : Tx) (ctx : UtxoApplyContext) : Except TxError ResolveState := do
  let st ← tx.inputs.foldlM (resolveInput tx ctx) ⟨0, 0, [], []⟩
  rejectIf (st.witnessCursor ≠ tx.witness.length) (.parse "witness_count mismatch")
  .ok st

/-! ## 2. Spends -/

structure VaultSpendState where
  keys : List Bytes32
  threshold : UInt8
  witnessStart : Nat
  slotCount : Nat
  inputIndex : UInt32
  inputValue : UInt64
  ownerLockId : Bytes32
  whitelist : List Bytes32

def VaultSpendState.capture (r : ResolvedInput) (inputIndex : UInt32) :
    Except TxError VaultSpendState := do
  let v ← parseVaultCovenantDataForSpend r.entry.covenantData
  .ok { keys := v.keys, threshold := v.threshold, witnessStart := r.witnessStart,
        slotCount := r.slotCount, inputIndex, inputValue := r.entry.value,
        ownerLockId := v.ownerLockId, whitelist := v.whitelist }

/-- `tx.witness.get(range)`. -/
def witnessRange (tx : Tx) (start slots : Nat) : Except TxError (List WitnessItem) := do
  rejectIf (start + slots > tx.witness.length) (.parse "witness underflow")
  .ok ((tx.witness.drop start).take slots)

section spend

variable [Crypto] {tx : Tx}

def applyP2pkSpend (ctx : UtxoApplyContext) (entry : UtxoEntry) (assigned : List WitnessItem)
    (inputIndex : UInt32) : SpendM tx Unit :=
  match assigned with
  | [witness] => validateP2pkSpendQ entry witness inputIndex entry.value ctx.chainId ctx.height
      ctx.rotation ctx.registry
  | _ => StateT.lift (.error (.parse "CORE_P2PK witness_slots must be 1"))

def applyMultisigSpend (ctx : UtxoApplyContext) (entry : UtxoEntry) (assigned : List WitnessItem)
    (inputIndex : UInt32) : SpendM tx Unit := do
  let m ← StateT.lift (parseMultisigCovenantData entry.covenantData)
  validateThresholdSigSpendQ m.keys m.threshold assigned inputIndex entry.value ctx.chainId
    ctx.height .coreMultisig ctx.rotation ctx.registry

def applyHtlcSpend (ctx : UtxoApplyContext) (entry : UtxoEntry) (assigned : List WitnessItem)
    (inputIndex : UInt32) : SpendM tx Unit :=
  match assigned with
  | [selector, witness] => validateHtlcSpendQ entry selector witness
      ⟨inputIndex, entry.value, ctx.chainId, ctx.height, ctx.blockMtp⟩ ctx.rotation ctx.registry
  | _ => StateT.lift (.error (.parse "CORE_HTLC witness_slots must be 2"))

def applyStealthSpend (ctx : UtxoApplyContext) (entry : UtxoEntry) (assigned : List WitnessItem)
    (inputIndex : UInt32) : SpendM tx Unit :=
  match assigned with
  | [witness] => validateStealthSpendQ entry witness inputIndex entry.value ctx.chainId ctx.height
      ctx.rotation ctx.registry
  | _ => StateT.lift (.error (.parse "CORE_STEALTH witness_slots must be 1"))

/-- Returns the captured vault spend; only a vault input sets it. -/
def validateResolvedSpend (ctx : UtxoApplyContext) (r : ResolvedInput) (inputIndex : Nat)
    (vault : Option VaultSpendState) : SpendM tx (Option VaultSpendState) := do
  let assigned ← StateT.lift (witnessRange tx r.witnessStart r.slotCount)
  let inputIndex := UInt32.ofNat inputIndex
  if r.entry.covenantType = covTypeP2pk then do
    applyP2pkSpend ctx r.entry assigned inputIndex
    pure vault
  else if r.entry.covenantType = covTypeMultisig then do
    applyMultisigSpend ctx r.entry assigned inputIndex
    pure vault
  else if r.entry.covenantType = covTypeVault then do
    let captured ← StateT.lift (VaultSpendState.capture r inputIndex)
    pure (some captured)
  else if r.entry.covenantType = covTypeHtlc then do
    applyHtlcSpend ctx r.entry assigned inputIndex
    pure vault
  else if r.entry.covenantType = covTypeCoreStealth then do
    applyStealthSpend ctx r.entry assigned inputIndex
    pure vault
  else pure vault

structure SpendAccum where
  work : UtxoSet
  sumIn : Nat
  sumInVault : Nat
  inputLockIds : List Bytes32
  inputCovTypes : List UInt16
  vaultSpend : Option VaultSpendState

/-- `checked_add` on `u128`. -/
def checkedAdd128 (a b : Nat) : Except TxError Nat := do
  rejectIf (2 ^ 128 ≤ a + b) (.parse "u128 overflow")
  .ok (a + b)

def SpendAccum.addVaultValue (acc : SpendAccum) (entry : UtxoEntry) : Except TxError Nat :=
  if entry.covenantType = covTypeVault then checkedAdd128 acc.sumInVault entry.value.toNat
  else .ok acc.sumInVault

/-- What `validate_spends` does with a validated spend. -/
def SpendAccum.record (acc : SpendAccum) (r : ResolvedInput)
    (vaultSpend : Option VaultSpendState) : Except TxError SpendAccum := do
  let desc := outputDescriptorBytes r.entry.covenantType r.entry.covenantData
  let sumIn ← checkedAdd128 acc.sumIn r.entry.value.toNat
  let sumInVault ← acc.addVaultValue r.entry
  .ok { work := acc.work.erase r.outpoint, sumIn, sumInVault,
        inputLockIds := acc.inputLockIds ++ [sha3_256 desc],
        inputCovTypes := acc.inputCovTypes ++ [r.entry.covenantType], vaultSpend }

def validateSpends (ctx : UtxoApplyContext) : (inputIndex : Nat) → List ResolvedInput →
    SpendAccum → SpendM tx SpendAccum
  | _, [], acc => pure acc
  | inputIndex, r :: rest, acc => do
    let vaultSpend ← validateResolvedSpend ctx r inputIndex acc.vaultSpend
    let acc ← StateT.lift (acc.record r vaultSpend)
    validateSpends ctx (inputIndex + 1) rest acc

/-! ## 3. Outputs -/

def isUnspendable (covenantType : UInt16) : Bool :=
  covenantType == covTypeAnchor || covenantType == covTypeDaCommit

def TxOutput.toEntry (out : TxOutput) (height : Nat) (createdByCoinbase : Bool) : UtxoEntry :=
  { value := out.value, covenantType := out.covenantType, covenantData := out.covenantData,
    creationHeight := height, createdByCoinbase }

structure OutputAccum where
  work : UtxoSet
  sumOut : Nat
  createsVault : Bool

/-- One turn of `add_outputs`; the index keeps its low 32 bits. -/
def addOutput (ctx : UtxoApplyContext) (acc : OutputAccum) (p : TxOutput × Nat) :
    Except TxError OutputAccum := do
  let sumOut ← checkedAdd128 acc.sumOut p.1.value.toNat
  let createsVault := acc.createsVault || p.1.covenantType == covTypeVault
  let work :=
    if isUnspendable p.1.covenantType then acc.work
    else acc.work.insert ⟨ctx.txid, UInt32.ofNat p.2⟩ (p.1.toEntry ctx.height false)
  .ok { work, sumOut, createsVault }

def addOutputs (tx : Tx) (ctx : UtxoApplyContext) (work : UtxoSet) : Except TxError OutputAccum :=
  tx.outputs.zipIdx.foldlM (addOutput ctx) ⟨work, 0, false⟩

/-! ## 4. Vault rules -/

def hasOwnerAuthorizedInput (inputLockIds : List Bytes32) (inputCovTypes : List UInt16)
    (ownerLockId : Bytes32) : Bool :=
  (inputLockIds.zip inputCovTypes).any fun p =>
    p.1 == ownerLockId && (p.2 == covTypeP2pk || p.2 == covTypeMultisig)

def hasOwnerLockInput (inputLockIds : List Bytes32) (ownerLockId : Bytes32) : Bool :=
  inputLockIds.contains ownerLockId

def nonVaultInputsOwnedBy (inputLockIds : List Bytes32) (inputCovTypes : List UInt16)
    (ownerLockId : Bytes32) : Bool :=
  (inputLockIds.zip inputCovTypes).all fun p => p.2 == covTypeVault || p.1 == ownerLockId

def validateVaultCreationOutput (acc : SpendAccum) (out : TxOutput) : Except TxError Unit :=
  if out.covenantType ≠ covTypeVault then .ok ()
  else do
    let v ← parseVaultCovenantData out.covenantData
    rejectIf (hasOwnerAuthorizedInput acc.inputLockIds acc.inputCovTypes v.ownerLockId = false)
      ⟨.txErrVaultOwnerAuthRequired, "missing owner-authorized input for CORE_VAULT creation"⟩

def validateVaultCreation (tx : Tx) (acc : SpendAccum) (createsVault : Bool) :
    Except TxError Unit :=
  if createsVault then forEach (validateVaultCreationOutput acc) tx.outputs else .ok ()

namespace VaultSpendState

def validateOwnerAndSponsor (vault : VaultSpendState) (locks : List Bytes32)
    (types : List UInt16) : Except TxError Unit := do
  rejectIf (hasOwnerLockInput locks vault.ownerLockId = false)
    ⟨.txErrVaultOwnerAuthRequired, "missing owner-authorized input for CORE_VAULT spend"⟩
  rejectIf (nonVaultInputsOwnedBy locks types vault.ownerLockId = false)
    ⟨.txErrVaultFeeSponsorForbidden, "non-owner non-vault input forbidden in CORE_VAULT spend"⟩

def validateNoRecursion (tx : Tx) : Except TxError Unit :=
  rejectIf (∃ out ∈ tx.outputs, out.covenantType = covTypeVault)
    ⟨.txErrVaultOutputNotWhitelisted, "CORE_VAULT outputs forbidden in CORE_VAULT spend"⟩

def validateSignature (vault : VaultSpendState) (ctx : UtxoApplyContext) : SpendM tx Unit := do
  let witness ← StateT.lift (witnessRange tx vault.witnessStart vault.slotCount)
  validateThresholdSigSpendQ vault.keys vault.threshold witness vault.inputIndex vault.inputValue
    ctx.chainId ctx.height .coreVault ctx.rotation ctx.registry

def validateDestination (vault : VaultSpendState) (out : TxOutput) : Except TxError Unit := do
  rejectIf (out.covenantType ≠ covTypeP2pk ∧ out.covenantType ≠ covTypeMultisig ∧
      out.covenantType ≠ covTypeHtlc)
    ⟨.txErrVaultOutputNotWhitelisted,
      "disallowed destination covenant_type for CORE_VAULT spend"⟩
  let h := sha3_256 (outputDescriptorBytes out.covenantType out.covenantData)
  rejectIf (hashInSorted32 vault.whitelist h = false)
    ⟨.txErrVaultOutputNotWhitelisted, "output not whitelisted for CORE_VAULT"⟩

def validateDestinations (vault : VaultSpendState) (tx : Tx) : Except TxError Unit :=
  forEach vault.validateDestination tx.outputs

end VaultSpendState

def validateVaultSpend (ctx : UtxoApplyContext) (vaultInputCount : Nat) (acc : SpendAccum) :
    SpendM tx Unit :=
  if vaultInputCount = 1 then do
    let vault ← StateT.lift (okOr acc.vaultSpend (.parse "missing CORE_VAULT signature context"))
    StateT.lift (vault.validateOwnerAndSponsor acc.inputLockIds acc.inputCovTypes)
    StateT.lift (VaultSpendState.validateNoRecursion tx)
    vault.validateSignature ctx
    StateT.lift (vault.validateDestinations tx)
  else pure ()

/-! ## 5. The whole transaction -/

def finishApply (vaultInputCount : Nat) (acc : SpendAccum) (out : OutputAccum) :
    Except TxError (UtxoSet × UtxoApplySummary) := do
  rejectIf (out.sumOut > acc.sumIn) ⟨.txErrValueConservation, "sum_out exceeds sum_in"⟩
  rejectIf (vaultInputCount = 1 ∧ out.sumOut < acc.sumInVault)
    ⟨.txErrValueConservation, "CORE_VAULT value must not fund miner fee"⟩
  .ok (out.work, { fee := acc.sumIn - out.sumOut, utxoCount := out.work.len })

/-- `apply_non_coinbase_tx_basic_update_with_mtp_and_suite_context_impl`. -/
def applyNonCoinbaseTxImpl (tx : Tx) (ctx : UtxoApplyContext) :
    SpendM tx (UtxoSet × UtxoApplySummary) := do
  StateT.lift (validateApplyInputs tx ctx)
  let st ← StateT.lift (resolveInputs tx ctx)
  let acc ← validateSpends ctx 0 st.resolved ⟨ctx.utxoSet, 0, 0, [], [], none⟩
  let out ← StateT.lift (addOutputs tx ctx acc.work)
  StateT.lift (validateVaultCreation tx acc out.createsVault)
  validateVaultSpend ctx st.vaultInputCount acc
  StateT.lift (finishApply st.vaultInputCount acc out)

/-- `apply_non_coinbase_tx_basic_update_with_mtp_and_suite_context`: no queue. -/
def applyNonCoinbaseTx (tx : Tx) (ctx : UtxoApplyContext) :
    Except TxError (UtxoSet × UtxoApplySummary) := do
  let r ← applyNonCoinbaseTxImpl tx ctx ⟨SighashV1PrehashCache.new tx, none⟩
  .ok r.1

/-- The `_queued_sigchecks` variant.  It leaves the queue as it was on an error. -/
def applyNonCoinbaseTxQueuedSigchecks (tx : Tx) (ctx : UtxoApplyContext) (queue : SigCheckQueue) :
    Except TxError ((UtxoSet × UtxoApplySummary) × SigCheckQueue) := do
  let r ← applyNonCoinbaseTxImpl tx ctx ⟨SighashV1PrehashCache.new tx, some queue⟩
  .ok (r.1, r.2.queue.getD queue)

end spend

end Rubin.Consensus
