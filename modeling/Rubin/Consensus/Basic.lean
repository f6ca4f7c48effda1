/-
# Error codes and protocol constants

`error.rs` and `constants.rs` of the consensus crate, as far as the modelled functions read
them.  Counts, lengths, weights and bounds are natural numbers; ids, suites and covenant types
keep the source's fixed widths.
-/
import Rubin.Lib.Codec

namespace Rubin.Consensus

open Rubin.Lib

/-- `[u8; 32]`: hashes, ids, targets. -/
abbrev Bytes32 := BytesN 32

instance instLawfulBEqBytes32 : LawfulBEq Bytes32 := inferInstance

/-- `[0u8; 32]`. -/
def zero32 : Bytes32 := BytesN.replicate 32 0

/-! ## 1. `error.rs` -/

inductive ErrorCode where
  | txErrParse
  | txErrWitnessOverflow
  | txErrSigNoncanonical
  | txErrSigAlgInvalid
  | txErrSigInvalid
  | txErrSighashTypeInvalid
  | txErrTimelockNotMet
  | txErrValueConservation
  | txErrTxNonceInvalid
  | txErrSequenceInvalid
  | txErrNonceReplay
  | txErrCovenantTypeInvalid
  | txErrVaultMalformed
  | txErrVaultParamsInvalid
  | txErrVaultKeysNotCanonical
  | txErrVaultWhitelistNotCanonical
  | txErrVaultOwnerDestinationForbidden
  | txErrVaultOwnerAuthRequired
  | txErrVaultFeeSponsorForbidden
  | txErrVaultMultiInputForbidden
  | txErrVaultOutputNotWhitelisted
  | txErrMissingUtxo
  | txErrCoinbaseImmature
  | blockErrParse
  | blockErrWeightExceeded
  | blockErrAnchorBytesExceeded
  | blockErrPowInvalid
  | blockErrTargetInvalid
  | blockErrLinkageInvalid
  | blockErrMerkleInvalid
  | blockErrWitnessCommitment
  | blockErrCoinbaseInvalid
  | blockErrSubsidyExceeded
  | blockErrTimestampOld
  | blockErrTimestampFuture
  | blockErrDaIncomplete
  | blockErrDaChunkHashInvalid
  | blockErrDaSetInvalid
  | blockErrDaPayloadCommitInvalid
  | blockErrDaBatchExceeded
deriving DecidableEq, Repr

def ErrorCode.asStr : ErrorCode → String
  | .txErrParse => "TX_ERR_PARSE"
  | .txErrWitnessOverflow => "TX_ERR_WITNESS_OVERFLOW"
  | .txErrSigNoncanonical => "TX_ERR_SIG_NONCANONICAL"
  | .txErrSigAlgInvalid => "TX_ERR_SIG_ALG_INVALID"
  | .txErrSigInvalid => "TX_ERR_SIG_INVALID"
  | .txErrSighashTypeInvalid => "TX_ERR_SIGHASH_TYPE_INVALID"
  | .txErrTimelockNotMet => "TX_ERR_TIMELOCK_NOT_MET"
  | .txErrValueConservation => "TX_ERR_VALUE_CONSERVATION"
  | .txErrTxNonceInvalid => "TX_ERR_TX_NONCE_INVALID"
  | .txErrSequenceInvalid => "TX_ERR_SEQUENCE_INVALID"
  | .txErrNonceReplay => "TX_ERR_NONCE_REPLAY"
  | .txErrCovenantTypeInvalid => "TX_ERR_COVENANT_TYPE_INVALID"
  | .txErrVaultMalformed => "TX_ERR_VAULT_MALFORMED"
  | .txErrVaultParamsInvalid => "TX_ERR_VAULT_PARAMS_INVALID"
  | .txErrVaultKeysNotCanonical => "TX_ERR_VAULT_KEYS_NOT_CANONICAL"
  | .txErrVaultWhitelistNotCanonical => "TX_ERR_VAULT_WHITELIST_NOT_CANONICAL"
  | .txErrVaultOwnerDestinationForbidden => "TX_ERR_VAULT_OWNER_DESTINATION_FORBIDDEN"
  | .txErrVaultOwnerAuthRequired => "TX_ERR_VAULT_OWNER_AUTH_REQUIRED"
  | .txErrVaultFeeSponsorForbidden => "TX_ERR_VAULT_FEE_SPONSOR_FORBIDDEN"
  | .txErrVaultMultiInputForbidden => "TX_ERR_VAULT_MULTI_INPUT_FORBIDDEN"
  | .txErrVaultOutputNotWhitelisted => "TX_ERR_VAULT_OUTPUT_NOT_WHITELISTED"
  | .txErrMissingUtxo => "TX_ERR_MISSING_UTXO"
  | .txErrCoinbaseImmature => "TX_ERR_COINBASE_IMMATURE"
  | .blockErrParse => "BLOCK_ERR_PARSE"
  | .blockErrWeightExceeded => "BLOCK_ERR_WEIGHT_EXCEEDED"
  | .blockErrAnchorBytesExceeded => "BLOCK_ERR_ANCHOR_BYTES_EXCEEDED"
  | .blockErrPowInvalid => "BLOCK_ERR_POW_INVALID"
  | .blockErrTargetInvalid => "BLOCK_ERR_TARGET_INVALID"
  | .blockErrLinkageInvalid => "BLOCK_ERR_LINKAGE_INVALID"
  | .blockErrMerkleInvalid => "BLOCK_ERR_MERKLE_INVALID"
  | .blockErrWitnessCommitment => "BLOCK_ERR_WITNESS_COMMITMENT"
  | .blockErrCoinbaseInvalid => "BLOCK_ERR_COINBASE_INVALID"
  | .blockErrSubsidyExceeded => "BLOCK_ERR_SUBSIDY_EXCEEDED"
  | .blockErrTimestampOld => "BLOCK_ERR_TIMESTAMP_OLD"
  | .blockErrTimestampFuture => "BLOCK_ERR_TIMESTAMP_FUTURE"
  | .blockErrDaIncomplete => "BLOCK_ERR_DA_INCOMPLETE"
  | .blockErrDaChunkHashInvalid => "BLOCK_ERR_DA_CHUNK_HASH_INVALID"
  | .blockErrDaSetInvalid => "BLOCK_ERR_DA_SET_INVALID"
  | .blockErrDaPayloadCommitInvalid => "BLOCK_ERR_DA_PAYLOAD_COMMIT_INVALID"
  | .blockErrDaBatchExceeded => "BLOCK_ERR_DA_BATCH_EXCEEDED"

structure TxError where
  code : ErrorCode
  msg : String
deriving DecidableEq, Repr

/-- `Display`: the code, and the message where there is one. -/
def TxError.toString (e : TxError) : String :=
  if e.msg = "" then e.code.asStr else e.code.asStr ++ ": " ++ e.msg

/-- `TxErrParse` with a message: the parser's usual refusal. -/
abbrev TxError.parse (msg : String) : TxError := ⟨.txErrParse, msg⟩

/-! ## 2. `constants.rs` -/

def witnessDiscountDivisor : Nat := 4
def targetBlockInterval : Nat := 120
def windowSize : Nat := 10080
def coinbaseMaturity : Nat := 100
def maxFutureDrift : Nat := 7200
def maxTimestampStepPerBlock : Nat := 10 * targetBlockInterval

def mineableCap : Nat := 4900000000000000
def emissionSpeedFactor : Nat := 20
def tailEmissionPerBlock : Nat := 19025875

def maxBlockWeight : Nat := 68000000
def maxBlockBytes : Nat := 72000000
def maxDaBytesPerBlock : Nat := 32000000
def maxRelayMsgBytes : Nat := 96000000
def maxDaManifestBytesPerTx : Nat := 65536
def chunkBytes : Nat := 524288
def maxDaBatchesPerBlock : Nat := 128
def maxDaChunkCount : Nat := maxDaBytesPerBlock / chunkBytes
def maxAnchorPayloadSize : Nat := 65536
def maxCovenantDataPerOutput : Nat := maxAnchorPayloadSize
def maxAnchorBytesPerBlock : Nat := 131072
def maxP2pkCovenantData : Nat := 33
def maxHtlcCovenantData : Nat := 105
def minHtlcPreimageBytes : Nat := 16
def maxHtlcPreimageBytes : Nat := 256
def maxSimplicityStateBytes : Nat := 512
def simplicityMaxGroupInputs : Nat := 8
def simplicityMaxGroupOutputs : Nat := 8
def maxVaultKeys : Nat := 12
def maxVaultWhitelistEntries : Nat := 1024
def maxMultisigKeys : Nat := 12

def covTypeP2pk : UInt16 := 0x0000
def covTypeAnchor : UInt16 := 0x0002
def covTypeReservedFuture : UInt16 := 0x00FF
def covTypeHtlc : UInt16 := 0x0100
def covTypeVault : UInt16 := 0x0101
def covTypeCoreExt : UInt16 := 0x0102
def covTypeDaCommit : UInt16 := 0x0103
def covTypeMultisig : UInt16 := 0x0104
def covTypeCoreStealth : UInt16 := 0x0105
def covTypeCoreSimplicity : UInt16 := 0x0106

def coreStealthWitnessSlots : Nat := 1
def simplicityWitnessSlots : Nat := 1

def maxTxInputs : Nat := 1024
def maxTxOutputs : Nat := 1024
def maxWitnessItems : Nat := 1024
def maxWitnessBytesPerTx : Nat := 100000
def maxScriptSigBytes : Nat := 32
def txWireVersion : UInt32 := 1

def suiteIdSentinel : UInt8 := 0x00
def suiteIdMlDsa87 : UInt8 := 0x01
def suiteIdSimplicityEnvelope : UInt8 := 0xf0

def maxSimplicityProgramBytes : Nat := 16384
def maxSimplicityEnvelopeBytes : Nat := 32768

def lockModeHeight : UInt8 := 0x00
def lockModeTimestamp : UInt8 := 0x01

def mlDsa87PubkeyBytes : Nat := 2592
def mlDsa87SigBytes : Nat := 4627
def mlKem1024CtBytes : Nat := 1568
def maxStealthCovenantData : Nat := 1600

def sighashAll : UInt8 := 0x01
def sighashNone : UInt8 := 0x02
def sighashSingle : UInt8 := 0x03
def sighashAnyonecanpay : UInt8 := 0x80

def verifyCostMlDsa87 : Nat := 8
def verifyCostUnknownSuite : Nat := 64
def simplicityBaseVerifyCost : Nat := 64

/-- `POW_LIMIT`: `[0xff; 32]`. -/
def powLimit : Bytes32 := BytesN.replicate 32 0xff

end Rubin.Consensus
