/-
# Transactions: the wire parser and the serializer

`tx.rs` and `marshal_tx` of `tx_helpers.rs`, function by function.  The parser is one pass of a
cursor; the serializer appends the same fields in the same order, but is written separately.
`TxCodec.lean` proves that they agree.

The hash functions and the signature primitive come from third-party crates (`sha3`, OpenSSL)
and enter the model as the class `Crypto`.
-/
import Rubin.Consensus.Wire
import Rubin.Lib.Keccak

namespace Rubin.Consensus

open Rubin.Lib

/-- What the third-party crates compute: SHA3-256, the outcome of OpenSSL's one-time bootstrap,
and its one-shot ML-DSA-87 verification of a 32-byte digest, which answers or fails with an error
of its own. -/
class Crypto where
  sha3_256 : Bytes → Bytes32
  opensslConsensusInit : Except TxError Unit
  mlDsa87Verify : (pubkey signature : Bytes) → (digest32 : Bytes32) → Except TxError Bool

export Crypto (sha3_256)

/-- The real hash, with a signature primitive to be given: what concrete inputs are run on. -/
@[reducible] def Crypto.sha3With (verify : Bytes → Bytes → Bytes32 → Except TxError Bool) :
    Crypto := ⟨Keccak.sha3_256, .ok (), verify⟩

/-- One hash for everything and every signature good: for runs whose point is elsewhere. -/
@[reducible] def Crypto.trivial : Crypto := ⟨fun _ => zero32, .ok (), fun _ _ _ => .ok true⟩

/-! ## 1. The data -/

structure TxInput where
  prevTxid : Bytes32
  prevVout : UInt32
  scriptSig : Bytes
  sequence : UInt32
deriving DecidableEq, Repr

structure TxOutput where
  value : UInt64
  covenantType : UInt16
  covenantData : Bytes
deriving DecidableEq, Repr

structure WitnessItem where
  suiteId : UInt8
  pubkey : Bytes
  signature : Bytes
deriving DecidableEq, Repr

structure DaCommitCore where
  daId : Bytes32
  chunkCount : UInt16
  retlDomainId : Bytes32
  batchNumber : UInt64
  txDataRoot : Bytes32
  stateRoot : Bytes32
  withdrawalsRoot : Bytes32
  batchSigSuite : UInt8
  batchSig : Bytes
deriving DecidableEq, Repr

structure DaChunkCore where
  daId : Bytes32
  chunkIndex : UInt16
  chunkHash : Bytes32
deriving DecidableEq, Repr

structure Tx where
  version : UInt32
  txKind : UInt8
  txNonce : UInt64
  inputs : List TxInput
  outputs : List TxOutput
  locktime : UInt32
  daCommitCore : Option DaCommitCore
  daChunkCore : Option DaChunkCore
  witness : List WitnessItem
  daPayload : Bytes
deriving DecidableEq, Repr

/-! ## 2. Prefix, inputs, outputs -/

def parseTxPrefix : Parser TxError (UInt32 × UInt8 × UInt64) := do
  let version ← readU32Le
  Parser.rejectIf (version ≠ txWireVersion) (.parse "unsupported tx version")
  let txKind ← readU8
  Parser.rejectIf (txKind ≠ 0x00 ∧ txKind ≠ 0x01 ∧ txKind ≠ 0x02) (.parse "unsupported tx_kind")
  let txNonce ← readU64Le
  pure (version, txKind, txNonce)

def parseTxInput : Parser TxError TxInput := do
  let prevTxid ← read32
  let prevVout ← readU32Le
  let scriptSigLen ← readCompactSize
  Parser.rejectIf (scriptSigLen.1 > maxScriptSigBytes) (.parse "script_sig_len overflow")
  let scriptSig ← readBytes scriptSigLen.1
  let sequence ← readU32Le
  pure { prevTxid, prevVout, scriptSig, sequence }

def parseTxInputs : Parser TxError (List TxInput) := do
  let inCount ← readCompactSize
  Parser.rejectIf (inCount.1 > maxTxInputs) (.parse "input_count overflow")
  Parser.replicate parseTxInput inCount.1

/-- `usize::MAX as u64` on the 64-bit targets the node runs on. -/
def usizeMax : Nat := 2 ^ 64 - 1

def parseTxOutput : Parser TxError TxOutput := do
  let value ← readU64Le
  let covenantType ← readU16Le
  let covLen ← readCompactSize
  Parser.rejectIf (covLen.1 > usizeMax) (.parse "covenant_data_len overflows usize")
  Parser.rejectIf (covLen.1 > maxCovenantDataPerOutput)
    (.parse "covenant_data_len exceeds MAX_COVENANT_DATA_PER_OUTPUT")
  let covenantData ← readBytes covLen.1
  pure { value, covenantType, covenantData }

def parseTxOutputs : Parser TxError (List TxOutput) := do
  let outCount ← readCompactSize
  Parser.rejectIf (outCount.1 > maxTxOutputs) (.parse "output_count overflow")
  Parser.replicate parseTxOutput outCount.1

/-! ## 3. DA core fields -/

def readDaCommitChunkCount : Parser TxError UInt16 := do
  let chunkCount ← readU16Le
  Parser.rejectIf (chunkCount = 0 ∨ chunkCount.toNat > maxDaChunkCount)
    (.parse "chunk_count out of range for tx_kind=0x01")
  pure chunkCount

def readDaBatchSig : Parser TxError Bytes := do
  let batchSigLen ← readCompactSize
  Parser.rejectIf (batchSigLen.1 > maxDaManifestBytesPerTx ∨ batchSigLen.1 > usizeMax)
    (.parse "batch_sig_len overflow")
  readBytes batchSigLen.1

def parseDaCommitCore : Parser TxError DaCommitCore := do
  let daId ← read32
  let chunkCount ← readDaCommitChunkCount
  let retlDomainId ← read32
  let batchNumber ← readU64Le
  let txDataRoot ← read32
  let stateRoot ← read32
  let withdrawalsRoot ← read32
  let batchSigSuite ← readU8
  let batchSig ← readDaBatchSig
  pure { daId, chunkCount, retlDomainId, batchNumber, txDataRoot, stateRoot, withdrawalsRoot,
         batchSigSuite, batchSig }

def parseDaChunkCore : Parser TxError DaChunkCore := do
  let daId ← read32
  let chunkIndex ← readU16Le
  Parser.rejectIf (chunkIndex.toNat ≥ maxDaChunkCount)
    (.parse "chunk_index out of range for tx_kind=0x02")
  let chunkHash ← read32
  pure { daId, chunkIndex, chunkHash }

def parseDaCore (txKind : UInt8) : Parser TxError (Option DaCommitCore × Option DaChunkCore) :=
  if txKind = 0x01 then do
    let core ← parseDaCommitCore
    pure (some core, none)
  else if txKind = 0x02 then do
    let core ← parseDaChunkCore
    pure (none, some core)
  else pure (none, none)

/-! ## 4. Witness items -/

def isCanonicalHtlcClaimSignature (signature : Bytes) : Bool :=
  let preLen := leToNat ((signature.drop 1).take 2)
  signature.head? = some 0x00 && decide (3 ≤ signature.length) &&
    (decide (minHtlcPreimageBytes ≤ preLen) && decide (preLen ≤ maxHtlcPreimageBytes)) &&
    decide (signature.length = 3 + preLen)

def isCanonicalSentinelWitness (pubLen : Nat) (signature : Bytes) : Bool :=
  if pubLen = 0 ∧ signature.length = 0 then true
  else if pubLen = 32 ∧ signature.length = 1 then signature.head? = some 0x01
  else if pubLen = 32 ∧ 3 ≤ signature.length then isCanonicalHtlcClaimSignature signature
  else false

def validateSentinelWitness (pubLen : Nat) (signature : Bytes) : Except TxError Unit :=
  rejectIf (isCanonicalSentinelWitness pubLen signature = false)
    (.parse "non-canonical sentinel witness item")

/-- `isize::MAX as u64`. -/
def isizeMax : Nat := 2 ^ 63 - 1

/-- The cursor walk inside `validate_simplicity_envelope_signature`: version, program, witness,
and nothing left. -/
def parseSimplicityEnvelope (envelopeLen : Nat) : Parser TxError Unit := do
  let version ← readU8
  Parser.rejectIf (version ≠ 0x01) (.parse "non-canonical Simplicity envelope witness item")
  let programLen ← readCompactSize
  Parser.rejectIf (programLen.1 > maxSimplicityProgramBytes) (.parse "Simplicity program too large")
  let _ ← readBytes programLen.1
  let witnessLen ← readCompactSize
  Parser.rejectIf (witnessLen.1 > isizeMax) (.parse "Simplicity witness_len overflows int")
  let _ ← readBytes witnessLen.1
  let offset ← Reader.offset
  Parser.rejectIf (offset ≠ envelopeLen) (.parse "non-canonical Simplicity envelope witness item")

def validateSimplicityEnvelopeSignature (signature : Bytes) : Except TxError Unit := do
  rejectIf (signature.length < 2) (.parse "non-canonical Simplicity envelope witness item")
  let envelope := signature.dropLast
  rejectIf (envelope.length > maxSimplicityEnvelopeBytes) (.parse "Simplicity envelope too large")
  let _ ← parseSimplicityEnvelope envelope.length (Reader.new envelope)
  .ok ()

def validateWitnessItemShape (suiteId : UInt8) (pubLen sigLen : Nat) (signature : Bytes) :
    Except TxError Unit :=
  if suiteId = suiteIdSentinel then validateSentinelWitness pubLen signature
  else if suiteId = suiteIdMlDsa87 ∧
      ¬ (pubLen = mlDsa87PubkeyBytes ∧ sigLen = mlDsa87SigBytes + 1) then
    .error ⟨.txErrSigNoncanonical, "non-canonical ML-DSA witness item lengths"⟩
  else if suiteId = suiteIdSimplicityEnvelope ∧ pubLen ≠ 0 then
    .error (.parse "non-canonical Simplicity envelope witness item")
  else if suiteId = suiteIdSimplicityEnvelope then validateSimplicityEnvelopeSignature signature
  else .ok ()

def validateWitnessItemOrdered (suiteId : UInt8) (pubLen sigLen witnessBytes : Nat)
    (signature : Bytes) : Except TxError Unit := do
  rejectIf (suiteId ≠ suiteIdSentinel ∧ sigLen = 0) (.parse "missing sighash_type byte")
  rejectIf (witnessBytes > maxWitnessBytesPerTx) ⟨.txErrWitnessOverflow, "witness bytes overflow"⟩
  validateWitnessItemShape suiteId pubLen sigLen signature

/-- Reads one length-prefixed field; `witnessBytes` counts the section's bytes so far. -/
def readWitnessBytes (witnessBytes : Nat) (overflowMsg : String) :
    Parser TxError (Nat × Bytes × Nat) := do
  let len ← readCompactSize
  Parser.rejectIf (len.1 > usizeMax) (.parse overflowMsg)
  let bytes ← readBytes len.1
  pure (len.1, bytes, witnessBytes + len.2 + len.1)

def parseWitnessItem (witnessBytes : Nat) : Parser TxError (WitnessItem × Nat) := do
  let suiteId ← readU8
  let pub ← readWitnessBytes (witnessBytes + 1) "pubkey_length overflows usize"
  let sig ← readWitnessBytes pub.2.2 "sig_length overflows usize"
  StateT.lift (validateWitnessItemOrdered suiteId pub.1 sig.1 sig.2.2 sig.2.1)
  pure ({ suiteId, pubkey := pub.2.1, signature := sig.2.1 }, sig.2.2)

def parseWitnessItems : Nat → Nat → Parser TxError (List WitnessItem)
  | 0, _ => pure []
  | n + 1, witnessBytes => do
    let item ← parseWitnessItem witnessBytes
    let items ← parseWitnessItems n item.2
    pure (item.1 :: items)

def parseWitnesses : Parser TxError (List WitnessItem) := do
  let witnessCount ← readCompactSize
  Parser.rejectIf (witnessCount.1 > maxWitnessItems)
    ⟨.txErrWitnessOverflow, "witness_count overflow"⟩
  parseWitnessItems witnessCount.1 witnessCount.2

/-! ## 5. DA payload and the whole transaction -/

def parseStandardDaPayload (daLen : Nat) : Parser TxError Bytes := do
  Parser.rejectIf (daLen ≠ 0) (.parse "da_payload_len must be 0 for tx_kind=0x00")
  pure []

def parseDaCommitPayload (daLen : Nat) : Parser TxError Bytes := do
  Parser.rejectIf (daLen > maxDaManifestBytesPerTx ∨ daLen > usizeMax)
    (.parse "da_payload_len out of range for tx_kind=0x01")
  readBytes daLen

def parseDaChunkPayload (daLen : Nat) : Parser TxError Bytes := do
  Parser.rejectIf (daLen = 0 ∨ daLen > chunkBytes ∨ daLen > usizeMax)
    (.parse "da_payload_len out of range for tx_kind=0x02")
  readBytes daLen

def parseDaPayload (txKind : UInt8) : Parser TxError Bytes := do
  let daLen ← readCompactSize
  if txKind = 0x00 then parseStandardDaPayload daLen.1
  else if txKind = 0x01 then parseDaCommitPayload daLen.1
  else if txKind = 0x02 then parseDaChunkPayload daLen.1
  else StateT.lift (.error (.parse "unsupported tx_kind"))

/-- The transaction, where its hashed core ends and where it ends. -/
def parseTxCursor : Parser TxError (Tx × Nat × Nat) := do
  let pre ← parseTxPrefix
  let inputs ← parseTxInputs
  let outputs ← parseTxOutputs
  let locktime ← readU32Le
  let cores ← parseDaCore pre.2.1
  let coreEnd ← Reader.offset
  let witness ← parseWitnesses
  let daPayload ← parseDaPayload pre.2.1
  let totalEnd ← Reader.offset
  pure ({ version := pre.1, txKind := pre.2.1, txNonce := pre.2.2, inputs, outputs, locktime,
          daCommitCore := cores.1, daChunkCore := cores.2, witness, daPayload }, coreEnd, totalEnd)

def parseTxWithoutHashes (b : Bytes) : Except TxError (Tx × Nat × Nat) := do
  let parsed ← parseTxCursor (Reader.new b)
  .ok parsed.1

/-- What `parse_tx` returns: the transaction, its two ids, and the bytes it took. -/
structure ParsedTx where
  tx : Tx
  txid : Bytes32
  wtxid : Bytes32
  consumed : Nat
deriving DecidableEq, Repr

def parseTx [Crypto] (b : Bytes) : Except TxError ParsedTx := do
  let parsed ← parseTxWithoutHashes b
  .ok { tx := parsed.1, txid := sha3_256 (b.take parsed.2.1),
        wtxid := sha3_256 (b.take parsed.2.2), consumed := parsed.2.2 }

/-! ## 6. The serializer -/

def DaCommitCore.bytes (core : DaCommitCore) : Bytes :=
  core.daId.toList ++ u16LeBytes core.chunkCount ++ core.retlDomainId.toList ++
    u64LeBytes core.batchNumber ++ core.txDataRoot.toList ++ core.stateRoot.toList ++
    core.withdrawalsRoot.toList ++ [core.batchSigSuite] ++
    encodeCompactSize core.batchSig.length ++ core.batchSig

def DaChunkCore.bytes (core : DaChunkCore) : Bytes :=
  core.daId.toList ++ u16LeBytes core.chunkIndex ++ core.chunkHash.toList

def daCoreFieldsBytes (tx : Tx) : Except TxError Bytes :=
  if tx.txKind = 0x00 then .ok []
  else if tx.txKind = 0x01 then
    match tx.daCommitCore with
    | some core => .ok core.bytes
    | none => .error (.parse "missing da_commit_core for tx_kind=0x01")
  else if tx.txKind = 0x02 then
    match tx.daChunkCore with
    | some core => .ok core.bytes
    | none => .error (.parse "missing da_chunk_core for tx_kind=0x02")
  else .error (.parse "unsupported tx_kind")

def TxInput.bytes (input : TxInput) : Bytes :=
  input.prevTxid.toList ++ u32LeBytes input.prevVout ++
    encodeCompactSize input.scriptSig.length ++ input.scriptSig ++ u32LeBytes input.sequence

def TxOutput.bytes (output : TxOutput) : Bytes :=
  u64LeBytes output.value ++ u16LeBytes output.covenantType ++
    encodeCompactSize output.covenantData.length ++ output.covenantData

def WitnessItem.bytes (item : WitnessItem) : Bytes :=
  [item.suiteId] ++ encodeCompactSize item.pubkey.length ++ item.pubkey ++
    encodeCompactSize item.signature.length ++ item.signature

def marshalTx (tx : Tx) : Except TxError Bytes := do
  let daCore ← daCoreFieldsBytes tx
  .ok (u32LeBytes tx.version ++ [tx.txKind] ++ u64LeBytes tx.txNonce ++
    encodeCompactSize tx.inputs.length ++ tx.inputs.flatMap TxInput.bytes ++
    encodeCompactSize tx.outputs.length ++ tx.outputs.flatMap TxOutput.bytes ++
    u32LeBytes tx.locktime ++ daCore ++
    encodeCompactSize tx.witness.length ++ tx.witness.flatMap WitnessItem.bytes ++
    encodeCompactSize tx.daPayload.length ++ tx.daPayload)

end Rubin.Consensus
