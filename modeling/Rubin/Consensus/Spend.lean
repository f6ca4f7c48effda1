/-
# Spend validators

`spend_verify.rs` and the spend halves of `htlc.rs` and `stealth.rs`.  Every validator takes the
queue and the prehash cache from `SpendM`; the last section shows that each of them is `Deferred`,
with at most one signature check for each witness item it is given.
-/
import Rubin.Consensus.SigQueue

namespace Rubin.Consensus

open Rubin.Lib

variable [Crypto] {tx : Tx}

/-! ## 1. One witness item -/

def extractCryptoSigAndSighash (w : WitnessItem) : Except TxError (Bytes × UInt8) := do
  let sighashType ← okOr w.signature.getLast? (.parse "missing sighash_type byte")
  rejectIf (isValidSighashType sighashType = false)
    ⟨.txErrSighashTypeInvalid, "invalid sighash_type"⟩
  .ok (w.signature.dropLast, sighashType)

def spendSuiteParams (w : WitnessItem) (nativeSpend : NativeSuiteSet) (registry : SuiteRegistry)
    (suiteNotNativeMessage suiteNotRegisteredMessage : String) : Except TxError SuiteParams := do
  rejectIf (nativeSpend.contains w.suiteId = false) ⟨.txErrSigAlgInvalid, suiteNotNativeMessage⟩
  okOr (registry.lookup w.suiteId) ⟨.txErrSigAlgInvalid, suiteNotRegisteredMessage⟩

/-- `sig_len + 1` is 64-bit arithmetic and wraps in a release build. -/
def validateWitnessItemLengths (w : WitnessItem) (params : SuiteParams) : Except TxError Unit :=
  rejectIf (¬ (w.pubkey.length = params.pubkeyLen.toNat ∧
      w.signature.length = (params.sigLen + 1).toNat))
    ⟨.txErrSigNoncanonical, "non-canonical witness item lengths"⟩

/-- The tail every validator ends in: the digest of the input, then the signature. -/
def checkSignature (w : WitnessItem) (inputIndex : UInt32) (inputValue : UInt64)
    (chainId : Bytes32) (registry : SuiteRegistry) (invalidSigError : TxError) :
    SpendM tx Unit := do
  let sig ← StateT.lift (extractCryptoSigAndSighash w)
  let digest ← withCache (sighashV1DigestWithCache tx inputIndex inputValue chainId sig.2)
  queueOrVerifySignature w.suiteId w.pubkey sig.1 digest registry invalidSigError

def verifyMldsaKeyAndSigQ (w : WitnessItem) (expectedKeyId : Bytes32) (inputIndex : UInt32)
    (inputValue : UInt64) (chainId : Bytes32) (registry : SuiteRegistry)
    (keyBindingError invalidSigError : TxError) : SpendM tx Unit := do
  StateT.lift (rejectIf (sha3_256 w.pubkey ≠ expectedKeyId) keyBindingError)
  checkSignature w inputIndex inputValue chainId registry invalidSigError

/-! ## 2. `CORE_P2PK` -/

def p2pkCovenantKeyId (entry : UtxoEntry) (suiteId : UInt8) : Except TxError Bytes32 := do
  rejectIf (entry.covenantData.length ≠ maxP2pkCovenantData ∨
      entry.covenantData.getD 0 0 ≠ suiteId)
    ⟨.txErrCovenantTypeInvalid, "CORE_P2PK covenant_data invalid"⟩
  .ok (slice32 entry.covenantData 1)

def validateP2pkSpendQ (entry : UtxoEntry) (w : WitnessItem) (inputIndex : UInt32)
    (inputValue : UInt64) (chainId : Bytes32) (blockHeight : Nat)
    (rotation : Option RotationProvider) (registry : Option SuiteRegistry) : SpendM tx Unit := do
  let rp := rotation.getD DefaultRotationProvider
  let reg := registry.getD SuiteRegistry.defaultRegistry
  let params ← StateT.lift (spendSuiteParams w (rp.nativeSpendSuites blockHeight) reg
    "CORE_P2PK suite not in native spend set" "CORE_P2PK suite not registered")
  StateT.lift (validateWitnessItemLengths w params)
  let keyId ← StateT.lift (p2pkCovenantKeyId entry w.suiteId)
  verifyMldsaKeyAndSigQ w keyId inputIndex inputValue chainId reg
    ⟨.txErrSigInvalid, "CORE_P2PK key binding mismatch"⟩
    ⟨.txErrSigInvalid, "CORE_P2PK signature invalid"⟩

/-! ## 3. Threshold signatures: `CORE_MULTISIG` and `CORE_VAULT` -/

/-- The two callers of the threshold validator. -/
inductive ThresholdContext where
  | coreMultisig
  | coreVault

inductive ThresholdSigErrorDetail where
  | suiteNotInNativeSpendSet
  | suiteNotRegistered
  | keyBindingMismatch
  | signatureInvalid
  | thresholdNotMet

def ThresholdContext.name : ThresholdContext → String
  | .coreMultisig => "CORE_MULTISIG"
  | .coreVault => "CORE_VAULT"

def ThresholdSigErrorDetail.text : ThresholdSigErrorDetail → String
  | .suiteNotInNativeSpendSet => "suite not in native spend set"
  | .suiteNotRegistered => "suite not registered"
  | .keyBindingMismatch => "key binding mismatch"
  | .signatureInvalid => "signature invalid"
  | .thresholdNotMet => "threshold not met"

def thresholdSigErrorMessage (context : ThresholdContext) (detail : ThresholdSigErrorDetail) :
    String :=
  context.name ++ " " ++ detail.text

/-- One turn of the slot loop for an item that is not a sentinel. -/
def validateThresholdSlot (key : Bytes32) (w : WitnessItem) (inputIndex : UInt32)
    (inputValue : UInt64) (chainId : Bytes32) (context : ThresholdContext)
    (nativeSpend : NativeSuiteSet) (reg : SuiteRegistry) : SpendM tx Unit := do
  let params ← StateT.lift (spendSuiteParams w nativeSpend reg
    (thresholdSigErrorMessage context .suiteNotInNativeSpendSet)
    (thresholdSigErrorMessage context .suiteNotRegistered))
  StateT.lift (validateWitnessItemLengths w params)
  verifyMldsaKeyAndSigQ w key inputIndex inputValue chainId reg
    ⟨.txErrSigInvalid, thresholdSigErrorMessage context .keyBindingMismatch⟩
    ⟨.txErrSigInvalid, thresholdSigErrorMessage context .signatureInvalid⟩

/-- The slot loop; returns how many slots carried a valid signature. -/
def validateThresholdSlots (inputIndex : UInt32) (inputValue : UInt64) (chainId : Bytes32)
    (context : ThresholdContext) (nativeSpend : NativeSuiteSet) (reg : SuiteRegistry) :
    List (Bytes32 × WitnessItem) → (valid : Nat) → SpendM tx Nat
  | [], valid => pure valid
  | (key, w) :: rest, valid =>
    if w.suiteId = suiteIdSentinel then do
      StateT.lift (rejectIf (w.pubkey ≠ [] ∨ w.signature ≠ [])
        (.parse "SENTINEL witness must be keyless"))
      validateThresholdSlots inputIndex inputValue chainId context nativeSpend reg rest valid
    else do
      validateThresholdSlot key w inputIndex inputValue chainId context nativeSpend reg
      validateThresholdSlots inputIndex inputValue chainId context nativeSpend reg rest
        (min (valid + 1) 255)

def validateThresholdSigSpendQ (keys : List Bytes32) (threshold : UInt8) (ws : List WitnessItem)
    (inputIndex : UInt32) (inputValue : UInt64) (chainId : Bytes32) (blockHeight : Nat)
    (context : ThresholdContext) (rotation : Option RotationProvider)
    (registry : Option SuiteRegistry) : SpendM tx Unit := do
  let rp := rotation.getD DefaultRotationProvider
  let reg := registry.getD SuiteRegistry.defaultRegistry
  StateT.lift (rejectIf (ws.length ≠ keys.length) (.parse "witness slot assignment mismatch"))
  let valid ← validateThresholdSlots inputIndex inputValue chainId context
    (rp.nativeSpendSuites blockHeight) reg (keys.zip ws) 0
  StateT.lift (rejectIf (valid < threshold.toNat)
    ⟨.txErrSigInvalid, thresholdSigErrorMessage context .thresholdNotMet⟩)

/-! ## 4. `CORE_HTLC` -/

structure HtlcSpendContext where
  inputIndex : UInt32
  inputValue : UInt64
  chainId : Bytes32
  blockHeight : Nat
  blockMtp : UInt64

structure HtlcSelector where
  keyId : Bytes32
  pathId : UInt8
  payload : Bytes

def parseHtlcSelector (pathItem : WitnessItem) : Except TxError HtlcSelector := do
  rejectIf (pathItem.suiteId ≠ suiteIdSentinel) (.parse "CORE_HTLC selector suite_id invalid")
  rejectIf (pathItem.pubkey.length ≠ 32) (.parse "CORE_HTLC selector key_id length invalid")
  rejectIf (pathItem.signature = []) (.parse "CORE_HTLC selector payload too short")
  .ok { keyId := BytesN.ofList 32 pathItem.pubkey, pathId := pathItem.signature.headD 0,
        payload := pathItem.signature }

def validateHtlcClaimPath (cov : HtlcCovenant) (pathSig : Bytes) (selectorKeyId : Bytes32) :
    Except TxError Bytes32 := do
  rejectIf (selectorKeyId ≠ cov.claimKeyId)
    ⟨.txErrSigInvalid, "CORE_HTLC claim key_id mismatch"⟩
  rejectIf (pathSig.length < 3) (.parse "CORE_HTLC claim payload too short")
  let preLen := leToNat ((pathSig.drop 1).take 2)
  rejectIf (preLen < minHtlcPreimageBytes) (.parse "CORE_HTLC preimage_len must be >= 16")
  rejectIf (preLen > maxHtlcPreimageBytes) (.parse "CORE_HTLC preimage length overflow")
  rejectIf (pathSig.length ≠ 3 + preLen) (.parse "CORE_HTLC claim payload length mismatch")
  rejectIf (sha3_256 (pathSig.drop 3) ≠ cov.hash)
    ⟨.txErrSigInvalid, "CORE_HTLC claim preimage hash mismatch"⟩
  .ok cov.claimKeyId

/-- A lock mode other than the height mode is the timestamp mode: the parser allows no third. -/
def validateHtlcRefundPath (cov : HtlcCovenant) (pathSig : Bytes) (selectorKeyId : Bytes32)
    (ctx : HtlcSpendContext) : Except TxError Bytes32 := do
  rejectIf (pathSig.length ≠ 1) (.parse "CORE_HTLC refund payload length mismatch")
  rejectIf (cov.lockMode = lockModeHeight ∧ ctx.blockHeight < cov.lockValue)
    ⟨.txErrTimelockNotMet, "CORE_HTLC height lock not met"⟩
  rejectIf (cov.lockMode ≠ lockModeHeight ∧ ctx.blockMtp.toNat < cov.lockValue)
    ⟨.txErrTimelockNotMet, "CORE_HTLC timestamp lock not met"⟩
  rejectIf (selectorKeyId ≠ cov.refundKeyId)
    ⟨.txErrSigInvalid, "CORE_HTLC refund key_id mismatch"⟩
  .ok cov.refundKeyId

def expectedHtlcSpendKeyId (cov : HtlcCovenant) (selector : HtlcSelector)
    (ctx : HtlcSpendContext) : Except TxError Bytes32 :=
  if selector.pathId = 0x00 then validateHtlcClaimPath cov selector.payload selector.keyId
  else if selector.pathId = 0x01 then
    validateHtlcRefundPath cov selector.payload selector.keyId ctx
  else .error (.parse "CORE_HTLC unknown spend path")

def validateHtlcSignaturePrecheck (sigItem : WitnessItem) (expectedKeyId : Bytes32)
    (blockHeight : Nat) (rotation : RotationProvider) (registry : SuiteRegistry) :
    Except TxError Unit := do
  let params ← spendSuiteParams sigItem (rotation.nativeSpendSuites blockHeight) registry
    "CORE_HTLC suite not in native spend set" "CORE_HTLC suite not registered"
  validateWitnessItemLengths sigItem params
  rejectIf (sha3_256 sigItem.pubkey ≠ expectedKeyId)
    ⟨.txErrSigInvalid, "CORE_HTLC signature key binding mismatch"⟩

def validateHtlcSpendQ (entry : UtxoEntry) (pathItem sigItem : WitnessItem)
    (ctx : HtlcSpendContext) (rotation : Option RotationProvider)
    (registry : Option SuiteRegistry) : SpendM tx Unit := do
  let cov ← StateT.lift (parseHtlcCovenantData entry.covenantData)
  let selector ← StateT.lift (parseHtlcSelector pathItem)
  let expectedKeyId ← StateT.lift (expectedHtlcSpendKeyId cov selector ctx)
  let rp := rotation.getD DefaultRotationProvider
  let reg := registry.getD SuiteRegistry.defaultRegistry
  StateT.lift (validateHtlcSignaturePrecheck sigItem expectedKeyId ctx.blockHeight rp reg)
  checkSignature sigItem ctx.inputIndex ctx.inputValue ctx.chainId reg
    ⟨.txErrSigInvalid, "CORE_HTLC signature invalid"⟩

/-! ## 5. `CORE_STEALTH` -/

def validateStealthKeyBinding (w : WitnessItem) (cov : StealthCovenant) : Except TxError Unit :=
  rejectIf (sha3_256 w.pubkey ≠ cov.oneTimeKeyId)
    ⟨.txErrSigInvalid, "CORE_STEALTH key binding mismatch"⟩

def validateStealthSpendQ (entry : UtxoEntry) (w : WitnessItem) (inputIndex : UInt32)
    (inputValue : UInt64) (chainId : Bytes32) (blockHeight : Nat)
    (rotation : Option RotationProvider) (registry : Option SuiteRegistry) : SpendM tx Unit := do
  let rp := rotation.getD DefaultRotationProvider
  let reg := registry.getD SuiteRegistry.defaultRegistry
  let cov ← StateT.lift (parseStealthCovenantData entry.covenantData)
  let params ← StateT.lift (spendSuiteParams w (rp.nativeSpendSuites blockHeight) reg
    "CORE_STEALTH suite not in native spend set" "CORE_STEALTH suite not registered")
  StateT.lift (validateWitnessItemLengths w params)
  StateT.lift (validateStealthKeyBinding w cov)
  checkSignature w inputIndex inputValue chainId reg
    ⟨.txErrSigInvalid, "CORE_STEALTH signature invalid"⟩

/-! ## 6. Every validator is deferred -/

omit [Crypto] in
theorem extractCryptoSigAndSighash_eq_ok {w : WitnessItem} {sig : Bytes × UInt8}
    (h : extractCryptoSigAndSighash w = .ok sig) :
    w.signature = sig.1 ++ [sig.2] ∧ isValidSighashType sig.2 = true := by
  simp only [extractCryptoSigAndSighash, bind_eq_ok, exists_unit, okOr_eq_ok,
    rejectIf_eq_ok] at h
  obtain ⟨ty, hlast, hty, hsig⟩ := h
  cases hsig
  refine ⟨?_, by simpa using hty⟩
  exact (List.dropLast_append_getLast? ty hlast).symm

theorem checkSignature_deferred (w : WitnessItem) (inputIndex : UInt32) (inputValue : UInt64)
    (chainId : Bytes32) (registry : SuiteRegistry) (e : TxError) :
    Deferred registry [w] (checkSignature w inputIndex inputValue chainId registry e :
      SpendM tx Unit) := by
  refine Deferred.liftBind fun sig hsig => ?_
  have hw := (extractCryptoSigAndSighash_eq_ok hsig).1
  exact Deferred.bind (Deferred.ofSteady (sighashV1DigestWithCache_steady tx _ _ _ _))
    fun _ _ => Deferred.signature hw

theorem verifyMldsaKeyAndSigQ_deferred (w : WitnessItem) (keyId : Bytes32) (inputIndex : UInt32)
    (inputValue : UInt64) (chainId : Bytes32) (registry : SuiteRegistry) (e e' : TxError) :
    Deferred registry [w] (verifyMldsaKeyAndSigQ w keyId inputIndex inputValue chainId registry
      e e' : SpendM tx Unit) :=
  Deferred.liftBind fun _ _ => checkSignature_deferred ..

theorem validateP2pkSpendQ_deferred (entry : UtxoEntry) (w : WitnessItem) (inputIndex : UInt32)
    (inputValue : UInt64) (chainId : Bytes32) (blockHeight : Nat)
    (rotation : Option RotationProvider) (registry : Option SuiteRegistry) :
    Deferred (registry.getD SuiteRegistry.defaultRegistry) [w]
      (validateP2pkSpendQ entry w inputIndex inputValue chainId blockHeight rotation registry :
        SpendM tx Unit) :=
  Deferred.liftBind fun _ _ => Deferred.liftBind fun _ _ => Deferred.liftBind fun _ _ =>
    verifyMldsaKeyAndSigQ_deferred ..

theorem validateThresholdSlot_deferred (key : Bytes32) (w : WitnessItem) (inputIndex : UInt32)
    (inputValue : UInt64) (chainId : Bytes32) (context : ThresholdContext)
    (nativeSpend : NativeSuiteSet) (reg : SuiteRegistry) :
    Deferred reg [w] (validateThresholdSlot key w inputIndex inputValue chainId context
      nativeSpend reg : SpendM tx Unit) :=
  Deferred.liftBind fun _ _ => Deferred.liftBind fun _ _ => verifyMldsaKeyAndSigQ_deferred ..

theorem validateThresholdSlots_deferred (inputIndex : UInt32) (inputValue : UInt64)
    (chainId : Bytes32) (context : ThresholdContext) (nativeSpend : NativeSuiteSet)
    (reg : SuiteRegistry) : ∀ (slots : List (Bytes32 × WitnessItem)) (valid : Nat),
    Deferred reg (slots.map Prod.snd) (validateThresholdSlots inputIndex inputValue chainId
      context nativeSpend reg slots valid : SpendM tx Nat)
  | [], valid => Deferred.pure valid
  | (key, w) :: rest, valid => by
    unfold validateThresholdSlots
    split
    · refine Deferred.liftBind fun _ _ => ?_
      exact (validateThresholdSlots_deferred _ _ _ _ _ _ rest valid).mono
        (List.sublist_cons_self w _).subperm
    · exact Deferred.bind (validateThresholdSlot_deferred ..) fun _ _ =>
        validateThresholdSlots_deferred _ _ _ _ _ _ rest _

theorem validateThresholdSigSpendQ_deferred (keys : List Bytes32) (threshold : UInt8)
    (ws : List WitnessItem) (inputIndex : UInt32) (inputValue : UInt64) (chainId : Bytes32)
    (blockHeight : Nat) (context : ThresholdContext) (rotation : Option RotationProvider)
    (registry : Option SuiteRegistry) :
    Deferred (registry.getD SuiteRegistry.defaultRegistry) ws
      (validateThresholdSigSpendQ keys threshold ws inputIndex inputValue chainId blockHeight
        context rotation registry : SpendM tx Unit) := by
  refine Deferred.liftBind fun _ hlen => ?_
  have hlen : ws.length = keys.length := by simpa using hlen
  have hws : (keys.zip ws).map Prod.snd = ws := List.map_snd_zip (le_of_eq hlen)
  have h := (@validateThresholdSlots_deferred _ tx inputIndex inputValue chainId context
    ((rotation.getD DefaultRotationProvider).nativeSpendSuites blockHeight)
    (registry.getD SuiteRegistry.defaultRegistry) (keys.zip ws) 0).bindLift
      fun valid => rejectIf (valid < threshold.toNat)
        ⟨.txErrSigInvalid, thresholdSigErrorMessage context .thresholdNotMet⟩
  rw [hws] at h
  exact h

theorem validateHtlcSpendQ_deferred (entry : UtxoEntry) (pathItem sigItem : WitnessItem)
    (ctx : HtlcSpendContext) (rotation : Option RotationProvider)
    (registry : Option SuiteRegistry) :
    Deferred (registry.getD SuiteRegistry.defaultRegistry) [pathItem, sigItem]
      (validateHtlcSpendQ entry pathItem sigItem ctx rotation registry : SpendM tx Unit) := by
  refine Deferred.liftBind fun _ _ => Deferred.liftBind fun _ _ => Deferred.liftBind fun _ _ =>
    Deferred.liftBind fun _ _ => ?_
  exact (checkSignature_deferred ..).mono (List.sublist_cons_self pathItem _).subperm

theorem validateStealthSpendQ_deferred (entry : UtxoEntry) (w : WitnessItem) (inputIndex : UInt32)
    (inputValue : UInt64) (chainId : Bytes32) (blockHeight : Nat)
    (rotation : Option RotationProvider) (registry : Option SuiteRegistry) :
    Deferred (registry.getD SuiteRegistry.defaultRegistry) [w]
      (validateStealthSpendQ entry w inputIndex inputValue chainId blockHeight rotation registry :
        SpendM tx Unit) :=
  Deferred.liftBind fun _ _ => Deferred.liftBind fun _ _ => Deferred.liftBind fun _ _ =>
    Deferred.liftBind fun _ _ => checkSignature_deferred ..

end Rubin.Consensus
