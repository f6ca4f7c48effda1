/-
# The transaction parser of the Go client

`wire_read.go`, `compactsize.go` and `tx_parse.go`, function by function.  A Go reader takes the
slice and a pointer to an offset; here the slice is an argument and the offset is the state.  The
offset starts at zero and only moves forward by lengths that were checked, so it is a natural
number and the tests for negative values are left out.

The transaction is the record of the Rust client: the two structs have the same fields.  A nil
slice is an empty one, and a nil core is `none`.
-/
import Rubin.Consensus.Tx
import Rubin.Go.Language

namespace Rubin.Go

open Rubin.Lib Rubin.Consensus

/-- A reader: it moves the offset or fails. -/
abbrev Scan (α : Type) := StateT Nat (Except Fault) α

/-- `if bad { return txerr(…) }`. -/
def Scan.rejectIf (bad : Prop) [Decidable bad] (e : Fault) : Scan Unit :=
  StateT.lift (Lib.rejectIf bad e)

/-- A call of `n` readers one after another, the results appended. -/
def Scan.collect {α : Type} (p : Scan α) : Nat → List α → Scan (List α)
  | 0, xs => pure xs
  | n + 1, xs => do
    let x ← p
    Scan.collect p n (xs ++ [x])

/-! ## 1. `wire_read.go` -/

def readU8 (b : Bytes) : Scan UInt8 := do
  let off ← get
  Scan.rejectIf (off ≥ b.length) (txerr .txErrParse "unexpected EOF (u8)")
  set (off + 1)
  pure (b.getD off 0)

/-- `readU16le`, `readU32le` and `readU64le` up to the width of the word. -/
def readWord (b : Bytes) (width : Nat) (eof : String) : Scan Nat := do
  let off ← get
  Scan.rejectIf (off > b.length ∨ width > b.length - off) (txerr .txErrParse eof)
  set (off + width)
  pure (leToNat ((b.drop off).take width))

def readU16le (b : Bytes) : Scan UInt16 := do
  let v ← readWord b 2 "unexpected EOF (u16le)"
  pure (UInt16.ofNat v)

def readU32le (b : Bytes) : Scan UInt32 := do
  let v ← readWord b 4 "unexpected EOF (u32le)"
  pure (UInt32.ofNat v)

def readU64le (b : Bytes) : Scan UInt64 := do
  let v ← readWord b 8 "unexpected EOF (u64le)"
  pure (UInt64.ofNat v)

def readBytes (b : Bytes) (n : Nat) : Scan Bytes := do
  let off ← get
  Scan.rejectIf (off > b.length) (txerr .txErrParse "unexpected EOF (bytes)")
  Scan.rejectIf (n > b.length - off) (txerr .txErrParse "unexpected EOF (bytes)")
  set (off + n)
  pure ((b.drop off).take n)

def readHash32 (b : Bytes) : Scan Bytes32 := do
  let hashBytes ← readBytes b 32
  pure (BytesN.ofList 32 hashBytes)

/-! ## 2. `compactsize.go` -/

def readCompactSize16 (b : Bytes) : Scan Nat := do
  let v ← readU16le b
  Scan.rejectIf (v.toNat < 0xfd) (txerr .txErrParse "non-minimal CompactSize (0xfd)")
  pure v.toNat

def readCompactSize32 (b : Bytes) : Scan Nat := do
  let v ← readU32le b
  Scan.rejectIf (v.toNat ≤ 0xffff) (txerr .txErrParse "non-minimal CompactSize (0xfe)")
  pure v.toNat

def readCompactSize64 (b : Bytes) : Scan Nat := do
  let v ← readU64le b
  Scan.rejectIf (v.toNat ≤ 0xffffffff) (txerr .txErrParse "non-minimal CompactSize (0xff)")
  pure v.toNat

def readCompactSizeTagged (tag : UInt8) (b : Bytes) : Scan Nat :=
  if tag < 0xfd then pure tag.toNat
  else if tag = 0xfd then readCompactSize16 b
  else if tag = 0xfe then readCompactSize32 b
  else if tag = 0xff then readCompactSize64 b
  else StateT.lift (.error (txerr .txErrParse "invalid CompactSize tag"))

/-- The value and the bytes it took. -/
def readCompactSize (b : Bytes) : Scan (Nat × Nat) := do
  let start ← get
  let tag ← readU8 b
  let v ← readCompactSizeTagged tag b
  let off ← get
  pure (v, off - start)

/-! ## 3. Header, inputs, outputs -/

def parseTxHeader (b : Bytes) : Scan (UInt32 × UInt8 × UInt64) := do
  let version ← readU32le b
  Scan.rejectIf (version ≠ txWireVersion) (txerr .txErrParse "unsupported tx version")
  let txKind ← readU8 b
  Scan.rejectIf (¬ (txKind = 0x00 ∨ txKind = 0x01 ∨ txKind = 0x02))
    (txerr .txErrParse "unsupported tx_kind")
  let txNonce ← readU64le b
  pure (version, txKind, txNonce)

def parseTxInput (b : Bytes) : Scan TxInput := do
  let prevTxid ← readHash32 b
  let prevVout ← readU32le b
  let scriptSigLen ← readCompactSize b
  Scan.rejectIf (scriptSigLen.1 > maxScriptSigBytes) (txerr .txErrParse "script_sig_len overflow")
  let scriptSig ← readBytes b scriptSigLen.1
  let sequence ← readU32le b
  pure { prevTxid, prevVout, scriptSig, sequence }

def parseTxInputs (b : Bytes) : Scan (List TxInput) := do
  let inCount ← readCompactSize b
  Scan.rejectIf (inCount.1 > maxTxInputs) (txerr .txErrParse "input_count overflow")
  Scan.collect (parseTxInput b) inCount.1 []

def parseTxOutput (b : Bytes) : Scan TxOutput := do
  let value ← readU64le b
  let covenantType ← readU16le b
  let covLen ← readCompactSize b
  Scan.rejectIf (covLen.1 > maxInt) (txerr .txErrParse "covenant_data_len overflows int")
  Scan.rejectIf (covLen.1 > maxCovenantDataPerOutput)
    (txerr .txErrParse "covenant_data_len exceeds MAX_COVENANT_DATA_PER_OUTPUT")
  let covenantData ← readBytes b covLen.1
  pure { value, covenantType, covenantData }

def parseTxOutputs (b : Bytes) : Scan (List TxOutput) := do
  let outCount ← readCompactSize b
  Scan.rejectIf (outCount.1 > maxTxOutputs) (txerr .txErrParse "output_count overflow")
  Scan.collect (parseTxOutput b) outCount.1 []

/-! ## 4. DA core fields -/

def invalidDaCommitChunkCount (chunkCount : UInt16) : Bool :=
  chunkCount == 0 || decide (chunkCount.toNat > maxDaChunkCount)

def parseDaCommitTail (b : Bytes) : Scan (Bytes32 × Bytes32 × Bytes32 × UInt8 × Bytes) := do
  let txDataRoot ← readHash32 b
  let stateRoot ← readHash32 b
  let withdrawalsRoot ← readHash32 b
  let batchSigSuite ← readU8 b
  let batchSigLen ← readCompactSize b
  Scan.rejectIf (batchSigLen.1 > maxDaManifestBytesPerTx)
    (txerr .txErrParse "batch_sig_len overflow")
  let batchSig ← readBytes b batchSigLen.1
  pure (txDataRoot, stateRoot, withdrawalsRoot, batchSigSuite, batchSig)

def parseTxDaCommitCore (b : Bytes) : Scan DaCommitCore := do
  let daId ← readHash32 b
  let chunkCount ← readU16le b
  Scan.rejectIf (invalidDaCommitChunkCount chunkCount = true)
    (txerr .txErrParse "chunk_count out of range for tx_kind=0x01")
  let retlDomainId ← readHash32 b
  let batchNumber ← readU64le b
  let tail ← parseDaCommitTail b
  pure { daId, chunkCount, retlDomainId, batchNumber, txDataRoot := tail.1, stateRoot := tail.2.1,
         withdrawalsRoot := tail.2.2.1, batchSigSuite := tail.2.2.2.1, batchSig := tail.2.2.2.2 }

def parseTxDaChunkCore (b : Bytes) : Scan DaChunkCore := do
  let daId ← readHash32 b
  let chunkIndex ← readU16le b
  Scan.rejectIf (chunkIndex.toNat ≥ maxDaChunkCount)
    (txerr .txErrParse "chunk_index out of range for tx_kind=0x02")
  let chunkHash ← readHash32 b
  pure { daId, chunkIndex, chunkHash }

def parseTxDaCore (b : Bytes) (txKind : UInt8) :
    Scan (Option DaCommitCore × Option DaChunkCore) :=
  if txKind = 0x00 then pure (none, none)
  else if txKind = 0x01 then do
    let core ← parseTxDaCommitCore b
    pure (some core, none)
  else if txKind = 0x02 then do
    let core ← parseTxDaChunkCore b
    pure (none, some core)
  else StateT.lift (.error (txerr .txErrParse "unsupported tx_kind"))

/-! ## 5. Witness items -/

/-- The field, its length, and the bytes it took with its length. -/
def parseWitnessBytes (b : Bytes) (overflowMsg : String) : Scan (Bytes × Nat × Nat) := do
  let len ← readCompactSize b
  Scan.rejectIf (len.1 > maxInt) (txerr .txErrParse overflowMsg)
  let field ← readBytes b len.1
  pure (field, len.1, len.2 + len.1)

/-- The item, the lengths of its two fields, and the bytes it took. -/
def parseWitnessItemFields (b : Bytes) : Scan (WitnessItem × Nat × Nat × Nat) := do
  let suiteId ← readU8 b
  let pub ← parseWitnessBytes b "pubkey_length overflows int"
  let sig ← parseWitnessBytes b "sig_length overflows int"
  Scan.rejectIf (suiteId ≠ suiteIdSentinel ∧ sig.2.1 = 0)
    (txerr .txErrParse "missing sighash_type byte")
  pure ({ suiteId, pubkey := pub.1, signature := sig.1 }, pub.2.1, sig.2.1,
    1 + pub.2.2 + sig.2.2)

structure ParsedSimplicityEnvelope where
  program : Bytes
  witness : Bytes
deriving DecidableEq, Repr

/-- The walk over the envelope from behind its version byte. -/
def readSimplicityEnvelope (envelope : Bytes) : Scan ParsedSimplicityEnvelope := do
  let programLen ← readCompactSize envelope
  Scan.rejectIf (programLen.1 > maxInt) (txerr .txErrParse "Simplicity program_len overflows int")
  let program ← readBytes envelope programLen.1
  let witnessLen ← readCompactSize envelope
  Scan.rejectIf (witnessLen.1 > maxInt) (txerr .txErrParse "Simplicity witness_len overflows int")
  let witness ← readBytes envelope witnessLen.1
  let off ← get
  Scan.rejectIf (off ≠ envelope.length)
    (txerr .txErrParse "non-canonical Simplicity envelope witness item")
  pure { program, witness }

/-- The two `MAX_SIMPLICITY_…` bounds are not checked here. -/
def parseSimplicityEnvelopeSignature (sig : Bytes) : Except Fault ParsedSimplicityEnvelope := do
  rejectIf (sig.length < 2) (txerr .txErrParse "non-canonical Simplicity envelope witness item")
  let version ← okOr sig.dropLast.head? .panic
  rejectIf (version ≠ 0x01) (txerr .txErrParse "non-canonical Simplicity envelope witness item")
  let parsed ← readSimplicityEnvelope sig.dropLast 1
  .ok parsed.1

def validateSimplicityEnvelopeSignature (sig : Bytes) : Except Fault Unit := do
  let _ ← parseSimplicityEnvelopeSignature sig
  .ok ()

def isCanonicalSentinelWitnessItem (pubLen : Nat) (sig : Bytes) : Bool :=
  if pubLen = 0 then sig.length = 0
  else if pubLen ≠ 32 then false
  else if sig.length = 1 then sig.getD 0 0 = 0x01
  else if sig.length < 3 then false
  else if sig.getD 0 0 ≠ 0x00 then false
  else
    let preLen := leToNat ((sig.drop 1).take 2)
    if preLen < minHtlcPreimageBytes ∨ preLen > maxHtlcPreimageBytes then false
    else sig.length = 3 + preLen

def validateWitnessItemLengths (item : WitnessItem) (pubLen sigLen : Nat) : Except Fault Unit :=
  if item.suiteId = suiteIdSentinel then
    rejectIf (¬ isCanonicalSentinelWitnessItem pubLen item.signature = true)
      (txerr .txErrParse "non-canonical sentinel witness item")
  else if item.suiteId = suiteIdMlDsa87 then
    rejectIf (pubLen ≠ mlDsa87PubkeyBytes ∨ sigLen ≠ mlDsa87SigBytes + 1)
      (txerr .txErrSigNoncanonical "non-canonical ML-DSA witness item lengths")
  else if item.suiteId = suiteIdSimplicityEnvelope then do
    rejectIf (pubLen ≠ 0) (txerr .txErrParse "non-canonical Simplicity envelope witness item")
    validateSimplicityEnvelopeSignature item.signature
  else .ok ()

/-- The loop of `parseTxWitness`; `witnessBytes` counts the section's bytes so far. -/
def parseTxWitnessItems (b : Bytes) : Nat → Nat → List WitnessItem → Scan (List WitnessItem)
  | 0, _, witness => pure witness
  | n + 1, witnessBytes, witness => do
    let item ← parseWitnessItemFields b
    Scan.rejectIf (witnessBytes + item.2.2.2 > maxWitnessBytesPerTx)
      (txerr .txErrWitnessOverflow "witness bytes overflow")
    StateT.lift (validateWitnessItemLengths item.1 item.2.1 item.2.2.1)
    parseTxWitnessItems b n (witnessBytes + item.2.2.2) (witness ++ [item.1])

def parseTxWitness (b : Bytes) : Scan (List WitnessItem) := do
  let witnessCount ← readCompactSize b
  Scan.rejectIf (witnessCount.1 > maxWitnessItems)
    (txerr .txErrWitnessOverflow "witness_count overflow")
  parseTxWitnessItems b witnessCount.1 witnessCount.2 []

/-! ## 6. DA payload and the whole transaction -/

def readDaPayloadBytes (b : Bytes) (daLen maxLen : Nat) (allowEmpty : Bool)
    (overflowMsg : String) : Scan Bytes := do
  Scan.rejectIf (daLen > maxLen) (txerr .txErrParse overflowMsg)
  Scan.rejectIf (daLen = 0 ∧ allowEmpty = false) (txerr .txErrParse overflowMsg)
  if daLen = 0 then pure [] else readBytes b daLen

def readStandardDaPayload (daLen : Nat) : Scan Bytes := do
  Scan.rejectIf (daLen ≠ 0) (txerr .txErrParse "da_payload_len must be 0 for tx_kind=0x00")
  pure []

def parseTxDaPayload (b : Bytes) (txKind : UInt8) : Scan Bytes := do
  let daLen ← readCompactSize b
  if txKind = 0x00 then readStandardDaPayload daLen.1
  else if txKind = 0x01 then
    readDaPayloadBytes b daLen.1 maxDaManifestBytesPerTx true
      "da_payload_len out of range for tx_kind=0x01"
  else if txKind = 0x02 then
    readDaPayloadBytes b daLen.1 chunkBytes false "da_payload_len out of range for tx_kind=0x02"
  else StateT.lift (.error (txerr .txErrParse "unsupported tx_kind"))

/-- The transaction, where its hashed core ends and where it ends. -/
def scanTx (b : Bytes) : Scan (Tx × Nat × Nat) := do
  let header ← parseTxHeader b
  let inputs ← parseTxInputs b
  let outputs ← parseTxOutputs b
  let locktime ← readU32le b
  let cores ← parseTxDaCore b header.2.1
  let coreEnd ← get
  let witness ← parseTxWitness b
  let daPayload ← parseTxDaPayload b header.2.1
  let off ← get
  pure ({ version := header.1, txKind := header.2.1, txNonce := header.2.2, inputs, outputs,
          locktime, daCommitCore := cores.1, daChunkCore := cores.2, witness, daPayload },
    coreEnd, off)

def parseTx [Crypto] (b : Bytes) : Except Fault ParsedTx := do
  let scanned ← scanTx b 0
  .ok { tx := scanned.1.1, txid := sha3_256 (b.take scanned.1.2.1),
        wtxid := sha3_256 (b.take scanned.1.2.2), consumed := scanned.1.2.2 }

end Rubin.Go
