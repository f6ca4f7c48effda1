/-
# Covenant data

The covenant parsers of `htlc.rs`, `stealth.rs`, `vault.rs` and `simplicity_covenant.rs`, the
witness slots each covenant takes, and the creation-time validation of `covenant_genesis.rs`.

Field slices are taken with `slice32` and `getD` after the length check that makes them exact, as
in the source.
-/
import Rubin.Consensus.Suite

namespace Rubin.Consensus

open Rubin.Lib

/-! ## 1. Outputs in the UTXO set -/

structure Outpoint where
  txid : Bytes32
  vout : UInt32
deriving DecidableEq, Repr

/-- Heights are natural numbers: every height that is compared is below `2 ^ 64`. -/
structure UtxoEntry where
  value : UInt64
  covenantType : UInt16
  covenantData : Bytes
  creationHeight : Nat
  createdByCoinbase : Bool
deriving DecidableEq, Repr

/-! ## 2. Byte slices and sorted lists of hashes -/

/-- `data[off..off + 32]`. -/
def slice32 (data : Bytes) (off : Nat) : Bytes32 := BytesN.ofList 32 ((data.drop off).take 32)

/-- The order of `[u8; 32]` is lexicographic. -/
def lt32 (a b : Bytes32) : Bool := decide (a.toList < b.toList)

def strictlySortedUnique32 : List Bytes32 → Bool
  | a :: b :: rest => lt32 a b && strictlySortedUnique32 (b :: rest)
  | _ => true

/-- The loop of `slice::binary_search`: `size` candidates are left from index `base` on. -/
def binarySearchBase (list : List Bytes32) (target : Bytes32) : (fuel base size : Nat) → Nat
  | 0, base, _ => base
  | fuel + 1, base, size =>
    if size ≤ 1 then base
    else
      let half := size / 2
      let mid := base + half
      let base := if lt32 target (list.getD mid zero32) then base else mid
      binarySearchBase list target fuel base (size - half)

/-- On an unsorted list the answer is whatever the search meets. -/
def hashInSorted32 (list : List Bytes32) (target : Bytes32) : Bool :=
  list[binarySearchBase list target list.length 0 list.length]? == some target

/-! ## 3. `htlc.rs`, `stealth.rs` -/

structure HtlcCovenant where
  hash : Bytes32
  lockMode : UInt8
  lockValue : Nat
  claimKeyId : Bytes32
  refundKeyId : Bytes32
deriving DecidableEq, Repr

def parseHtlcCovenantData (covData : Bytes) : Except TxError HtlcCovenant := do
  rejectIf (covData.length ≠ maxHtlcCovenantData)
    ⟨.txErrCovenantTypeInvalid, "CORE_HTLC covenant_data length mismatch"⟩
  let cov : HtlcCovenant := {
    hash := slice32 covData 0
    lockMode := covData.getD 32 0
    lockValue := leToNat ((covData.drop 33).take 8)
    claimKeyId := slice32 covData 41
    refundKeyId := slice32 covData 73 }
  rejectIf (cov.lockMode ≠ lockModeHeight ∧ cov.lockMode ≠ lockModeTimestamp)
    ⟨.txErrCovenantTypeInvalid, "CORE_HTLC lock_mode invalid"⟩
  rejectIf (cov.lockValue = 0) ⟨.txErrCovenantTypeInvalid, "CORE_HTLC lock_value must be > 0"⟩
  rejectIf (cov.claimKeyId = cov.refundKeyId)
    (.parse "CORE_HTLC claim/refund key_id must differ")
  .ok cov

structure StealthCovenant where
  ciphertext : Bytes
  oneTimeKeyId : Bytes32
deriving DecidableEq, Repr

def parseStealthCovenantData (covData : Bytes) : Except TxError StealthCovenant := do
  rejectIf (covData.length ≠ maxStealthCovenantData)
    ⟨.txErrCovenantTypeInvalid, "CORE_STEALTH covenant_data length mismatch"⟩
  rejectIf (mlKem1024CtBytes + 32 ≠ maxStealthCovenantData)
    (.parse "CORE_STEALTH constants mismatch")
  .ok { ciphertext := covData.take mlKem1024CtBytes
        oneTimeKeyId := slice32 covData mlKem1024CtBytes }

/-! ## 4. `vault.rs` -/

structure VaultCovenant where
  ownerLockId : Bytes32
  threshold : UInt8
  keyCount : UInt8
  keys : List Bytes32
  whitelistCount : UInt16
  whitelist : List Bytes32
deriving DecidableEq, Repr

/-- `count` hashes from offset `off` on. -/
def slices32 (data : Bytes) (off count : Nat) : List Bytes32 :=
  (List.range count).map fun i => slice32 data (off + 32 * i)

def parseVaultCovenantDataInner (covenantData : Bytes) (enforceWhitelistCanonical : Bool) :
    Except TxError VaultCovenant := do
  rejectIf (covenantData.length < 34)
    ⟨.txErrVaultMalformed, "CORE_VAULT covenant_data too short"⟩
  let ownerLockId := slice32 covenantData 0
  let threshold := covenantData.getD 32 0
  let keyCount := covenantData.getD 33 0
  rejectIf (keyCount = 0 ∨ keyCount.toNat > maxVaultKeys)
    ⟨.txErrVaultParamsInvalid, "CORE_VAULT key_count out of range"⟩
  rejectIf (threshold = 0 ∨ threshold > keyCount)
    ⟨.txErrVaultParamsInvalid, "CORE_VAULT threshold out of range"⟩
  let offset := 34 + 32 * keyCount.toNat
  -- the key loop stops at the first key that does not fit
  rejectIf (offset > covenantData.length) ⟨.txErrVaultMalformed, "CORE_VAULT truncated keys"⟩
  let keys := slices32 covenantData 34 keyCount.toNat
  rejectIf (strictlySortedUnique32 keys = false)
    ⟨.txErrVaultKeysNotCanonical, "CORE_VAULT keys not strictly sorted"⟩
  rejectIf (offset + 2 > covenantData.length)
    ⟨.txErrVaultMalformed, "CORE_VAULT missing whitelist_count"⟩
  let whitelistCount := UInt16.ofNat (leToNat ((covenantData.drop offset).take 2))
  rejectIf (whitelistCount = 0 ∨ whitelistCount.toNat > maxVaultWhitelistEntries)
    ⟨.txErrVaultParamsInvalid, "CORE_VAULT whitelist_count out of range"⟩
  let expectedLen := 32 + 1 + 1 + keyCount.toNat * 32 + 2 + whitelistCount.toNat * 32
  rejectIf (covenantData.length ≠ expectedLen)
    ⟨.txErrVaultMalformed, "CORE_VAULT covenant_data length mismatch"⟩
  let whitelist := slices32 covenantData (offset + 2) whitelistCount.toNat
  rejectIf (enforceWhitelistCanonical ∧ strictlySortedUnique32 whitelist = false)
    ⟨.txErrVaultWhitelistNotCanonical, "CORE_VAULT whitelist not strictly sorted"⟩
  rejectIf (enforceWhitelistCanonical ∧ hashInSorted32 whitelist ownerLockId)
    ⟨.txErrVaultOwnerDestinationForbidden, "CORE_VAULT whitelist contains owner_lock_id"⟩
  .ok { ownerLockId, threshold, keyCount, keys, whitelistCount, whitelist }

def parseVaultCovenantData (covenantData : Bytes) : Except TxError VaultCovenant :=
  parseVaultCovenantDataInner covenantData true

def parseVaultCovenantDataForSpend (covenantData : Bytes) : Except TxError VaultCovenant :=
  parseVaultCovenantDataInner covenantData false

structure MultisigCovenant where
  threshold : UInt8
  keyCount : UInt8
  keys : List Bytes32
deriving DecidableEq, Repr

def validateMultisigCounts (threshold keyCount : UInt8) : Except TxError Unit := do
  rejectIf (keyCount = 0 ∨ keyCount.toNat > maxMultisigKeys)
    ⟨.txErrCovenantTypeInvalid, "CORE_MULTISIG key_count out of range"⟩
  rejectIf (threshold = 0 ∨ threshold > keyCount)
    ⟨.txErrCovenantTypeInvalid, "CORE_MULTISIG threshold out of range"⟩

def multisigExpectedLen (keyCount : UInt8) : Nat := 2 + keyCount.toNat * 32

def parseMultisigKeys (covenantData : Bytes) (keyCount : UInt8) : List Bytes32 :=
  slices32 covenantData 2 keyCount.toNat

def parseMultisigCovenantData (covenantData : Bytes) : Except TxError MultisigCovenant := do
  rejectIf (covenantData.length < 34)
    ⟨.txErrCovenantTypeInvalid, "CORE_MULTISIG covenant_data too short"⟩
  let threshold := covenantData.getD 0 0
  let keyCount := covenantData.getD 1 0
  validateMultisigCounts threshold keyCount
  rejectIf (covenantData.length ≠ multisigExpectedLen keyCount)
    ⟨.txErrCovenantTypeInvalid, "CORE_MULTISIG covenant_data length mismatch"⟩
  let keys := parseMultisigKeys covenantData keyCount
  rejectIf (strictlySortedUnique32 keys = false)
    ⟨.txErrCovenantTypeInvalid, "CORE_MULTISIG keys not strictly sorted"⟩
  .ok { threshold, keyCount, keys }

def outputDescriptorBytes (covenantType : UInt16) (covenantData : Bytes) : Bytes :=
  u16LeBytes covenantType ++ encodeCompactSize covenantData.length ++ covenantData

def witnessSlots (covenantType : UInt16) (covenantData : Bytes) : Except TxError Nat :=
  if covenantType = covTypeP2pk then .ok 1
  else if covenantType = covTypeCoreStealth then .ok coreStealthWitnessSlots
  else if covenantType = covTypeMultisig then .ok (covenantData.getD 1 1).toNat
  else if covenantType = covTypeVault then .ok (covenantData.getD 33 1).toNat
  else if covenantType = covTypeHtlc then .ok 2
  else if covenantType = covTypeCoreSimplicity then .ok simplicityWitnessSlots
  else .error ⟨.txErrCovenantTypeInvalid, "unsupported covenant in witness_slots"⟩

/-! ## 5. `simplicity_covenant.rs` -/

def validateCoreSimplicityDeploymentActive (height : Nat) (rotation : RotationProvider) :
    Except TxError Unit :=
  rejectIf (rotation.simplicityActiveAtHeight height = false)
    ⟨.txErrCovenantTypeInvalid, "CORE_SIMPLICITY deployment not active"⟩

def rejectCoreSimplicitySpend : TxError :=
  ⟨.txErrCovenantTypeInvalid, "CORE_SIMPLICITY spend evaluation not enabled"⟩

def rejectCoreSimplicitySpendIfPresent (inputs : List UtxoEntry) : Except TxError Unit :=
  rejectIf (∃ input ∈ inputs, input.covenantType = covTypeCoreSimplicity)
    rejectCoreSimplicitySpend

/-- `.map_err(|_| e)`. -/
def mapErr {α : Type} (p : Parser TxError α) (e : TxError) : Parser TxError α := fun r =>
  match p r with
  | .ok x => .ok x
  | .error _ => .error e

/-- The cursor walk of `parse_core_simplicity_covenant_data`. -/
def readCoreSimplicityCovenant (covenantLen : Nat) : Parser TxError (Bytes32 × Bytes) := do
  let cmrBytes ← mapErr (readBytes 32)
    ⟨.txErrCovenantTypeInvalid, "CORE_SIMPLICITY program_cmr parse failure"⟩
  let stateLen ← mapErr readCompactSize
    ⟨.txErrCovenantTypeInvalid, "CORE_SIMPLICITY state_len parse failure"⟩
  Parser.rejectIf (stateLen.1 > maxSimplicityStateBytes)
    ⟨.txErrCovenantTypeInvalid, "CORE_SIMPLICITY state_len too large"⟩
  let state ← mapErr (readBytes stateLen.1)
    ⟨.txErrCovenantTypeInvalid, "CORE_SIMPLICITY state parse failure"⟩
  Parser.rejectIf (covenantLen ≠ 32 + stateLen.2 + stateLen.1)
    ⟨.txErrCovenantTypeInvalid, "CORE_SIMPLICITY covenant_data length mismatch"⟩
  pure (BytesN.ofList 32 cmrBytes, state)

def parseCoreSimplicityCovenantData (value : UInt64) (covenantData : Bytes) :
    Except TxError (Bytes32 × Bytes) := do
  rejectIf (value = 0) ⟨.txErrCovenantTypeInvalid, "CORE_SIMPLICITY value must be > 0"⟩
  let r ← readCoreSimplicityCovenant covenantData.length (Reader.new covenantData)
  .ok r.1

def validateCoreSimplicityCovenantData (value : UInt64) (covenantData : Bytes) :
    Except TxError Unit := do
  let _ ← parseCoreSimplicityCovenantData value covenantData
  .ok ()

/-! ## 6. `covenant_genesis.rs` -/

def validateP2pkOutput (out : TxOutput) (blockHeight : Nat) (rp : RotationProvider) :
    Except TxError Unit := do
  rejectIf (out.value = 0) ⟨.txErrCovenantTypeInvalid, "CORE_P2PK value must be > 0"⟩
  rejectIf (out.covenantData.length ≠ maxP2pkCovenantData)
    ⟨.txErrCovenantTypeInvalid, "invalid CORE_P2PK covenant_data length"⟩
  rejectIf ((rp.nativeCreateSuites blockHeight).contains (out.covenantData.getD 0 0) = false)
    ⟨.txErrSigAlgInvalid, "CORE_P2PK suite not in native create set"⟩

def validateAnchorOutput (out : TxOutput) : Except TxError Unit := do
  rejectIf (out.value ≠ 0) ⟨.txErrCovenantTypeInvalid, "CORE_ANCHOR value must be 0"⟩
  rejectIf (out.covenantData.length = 0 ∨ out.covenantData.length > maxAnchorPayloadSize)
    ⟨.txErrCovenantTypeInvalid, "invalid CORE_ANCHOR covenant_data length"⟩

def validateVaultOutput (out : TxOutput) : Except TxError Unit := do
  rejectIf (out.value = 0) ⟨.txErrVaultParamsInvalid, "CORE_VAULT value must be > 0"⟩
  let _ ← parseVaultCovenantData out.covenantData
  .ok ()

def validateMultisigOutput (out : TxOutput) : Except TxError Unit := do
  rejectIf (out.value = 0) ⟨.txErrCovenantTypeInvalid, "CORE_MULTISIG value must be > 0"⟩
  let _ ← parseMultisigCovenantData out.covenantData
  .ok ()

/-- The HTLC branch parses before it looks at the value; the others look at the value first. -/
def validateHtlcOutput (out : TxOutput) : Except TxError Unit := do
  let _ ← parseHtlcCovenantData out.covenantData
  rejectIf (out.value = 0) ⟨.txErrCovenantTypeInvalid, "CORE_HTLC value must be > 0"⟩

def validateStealthOutput (out : TxOutput) : Except TxError Unit := do
  rejectIf (out.value = 0) ⟨.txErrCovenantTypeInvalid, "CORE_STEALTH value must be > 0"⟩
  rejectIf (out.covenantData.length > maxCovenantDataPerOutput)
    ⟨.txErrCovenantTypeInvalid,
      "CORE_STEALTH covenant_data length exceeds MAX_COVENANT_DATA_PER_OUTPUT"⟩
  let _ ← parseStealthCovenantData out.covenantData
  .ok ()

def validateDaCommitOutput (out : TxOutput) (txKind : UInt8) : Except TxError Unit := do
  rejectIf (txKind ≠ 0x01)
    ⟨.txErrCovenantTypeInvalid, "CORE_DA_COMMIT allowed only in tx_kind=0x01"⟩
  rejectIf (out.value ≠ 0) ⟨.txErrCovenantTypeInvalid, "CORE_DA_COMMIT value must be 0"⟩
  rejectIf (out.covenantData.length ≠ 32)
    ⟨.txErrCovenantTypeInvalid, "invalid CORE_DA_COMMIT covenant_data length"⟩

def validateCoreSimplicityGenesisOutput (out : TxOutput) (blockHeight : Nat)
    (rp : RotationProvider) : Except TxError Bytes32 := do
  validateCoreSimplicityDeploymentActive blockHeight rp
  validateCoreSimplicityCovenantData out.value out.covenantData
  rejectIf (out.covenantData.length < 32)
    ⟨.txErrCovenantTypeInvalid, "CORE_SIMPLICITY program_cmr parse failure"⟩
  .ok (slice32 out.covenantData 0)

/-- One turn of the output loop: the program root of a Simplicity output, nothing otherwise. -/
def validateGenesisOutput (out : TxOutput) (txKind : UInt8) (blockHeight : Nat)
    (rp : RotationProvider) : Except TxError (Option Bytes32) :=
  if out.covenantType = covTypeP2pk then
    validateP2pkOutput out blockHeight rp >>= fun _ => .ok none
  else if out.covenantType = covTypeAnchor then validateAnchorOutput out >>= fun _ => .ok none
  else if out.covenantType = covTypeVault then validateVaultOutput out >>= fun _ => .ok none
  else if out.covenantType = covTypeMultisig then
    validateMultisigOutput out >>= fun _ => .ok none
  else if out.covenantType = covTypeHtlc then validateHtlcOutput out >>= fun _ => .ok none
  else if out.covenantType = covTypeCoreStealth then
    validateStealthOutput out >>= fun _ => .ok none
  else if out.covenantType = covTypeDaCommit then
    validateDaCommitOutput out txKind >>= fun _ => .ok none
  else if out.covenantType = covTypeCoreSimplicity then
    validateCoreSimplicityGenesisOutput out blockHeight rp >>= fun cmr => .ok (some cmr)
  else if out.covenantType = covTypeReservedFuture then
    .error ⟨.txErrCovenantTypeInvalid, "reserved covenant_type"⟩
  else .error ⟨.txErrCovenantTypeInvalid, "unknown covenant_type"⟩

def validateSimplicityOutputGroupCap (cmrs : List Bytes32) : Except TxError Unit :=
  rejectIf (∃ cmr ∈ cmrs, cmrs.count cmr > simplicityMaxGroupOutputs)
    ⟨.txErrCovenantTypeInvalid, "CORE_SIMPLICITY same-cmr output group exceeds limit"⟩

/-- Every output is validated, in order, before the transaction-wide cap is looked at. -/
def validateTxCovenantsGenesis (tx : Tx) (blockHeight : Nat) (rotation : Option RotationProvider) :
    Except TxError Unit := do
  let rp := rotation.getD DefaultRotationProvider
  let cmrs ← tx.outputs.mapM fun out => validateGenesisOutput out tx.txKind blockHeight rp
  validateSimplicityOutputGroupCap (cmrs.filterMap id)

end Rubin.Consensus
