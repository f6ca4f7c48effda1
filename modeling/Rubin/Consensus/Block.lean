/-
# Blocks: header, commitments, parser

`block.rs`, `merkle.rs`, `subsidy.rs`, `pow_check` of `pow.rs` and the block parser of
`block_basic/parser.rs`.
-/
import Rubin.Consensus.Tx

namespace Rubin.Consensus

open Rubin.Lib

/-! ## 1. `block.rs` -/

structure BlockHeader where
  version : UInt32
  prevBlockHash : Bytes32
  merkleRoot : Bytes32
  timestamp : UInt64
  target : Bytes32
  nonce : UInt64
deriving DecidableEq, Repr

def blockHeaderBytes : Nat := 116

/-- `bytes[off..off + n]`. -/
def slice (bytes : Bytes) (off n : Nat) : Bytes := (bytes.drop off).take n

def parseBlockHeaderBytes (b : Bytes) : Except TxError BlockHeader := do
  rejectIf (b.length ≠ blockHeaderBytes) (.parse "block header length mismatch")
  .ok { version := UInt32.ofNat (leToNat (slice b 0 4))
        prevBlockHash := BytesN.ofList 32 (slice b 4 32)
        merkleRoot := BytesN.ofList 32 (slice b 36 32)
        timestamp := UInt64.ofNat (leToNat (slice b 68 8))
        target := BytesN.ofList 32 (slice b 76 32)
        nonce := UInt64.ofNat (leToNat (slice b 108 8)) }

section hashing

variable [Crypto]

def blockHash (headerBytes : Bytes) : Except TxError Bytes32 := do
  rejectIf (headerBytes.length ≠ blockHeaderBytes) (.parse "block hash: invalid header length")
  .ok (sha3_256 headerBytes)

/-! ## 2. `merkle.rs` -/

/-- One level up; an odd last node is carried over unchanged. -/
def merkleNextLevel (nodeTag : UInt8) : List Bytes32 → List Bytes32
  | a :: b :: rest =>
    sha3_256 (nodeTag :: (a.toList ++ b.toList)) :: merkleNextLevel nodeTag rest
  | level => level

/-- The level loop: a level of `fuel + 1` nodes or fewer is done after `fuel` rounds. -/
def merkleReduce (nodeTag : UInt8) : (fuel : Nat) → List Bytes32 → List Bytes32
  | 0, level => level
  | fuel + 1, level =>
    if level.length ≤ 1 then level else merkleReduce nodeTag fuel (merkleNextLevel nodeTag level)

def merkleRootTagged (ids : List Bytes32) (leafTag nodeTag : UInt8) : Except TxError Bytes32 := do
  rejectIf (ids = []) (.parse "merkle: empty id list")
  let leaves := ids.map fun id => sha3_256 (leafTag :: id.toList)
  .ok ((merkleReduce nodeTag leaves.length leaves).headD zero32)

def merkleRootTxids (txids : List Bytes32) : Except TxError Bytes32 :=
  merkleRootTagged txids 0x00 0x01

/-- Index 0 is the coinbase, whose witness commitment cannot commit to itself. -/
def witnessMerkleRootWtxids (wtxids : List Bytes32) : Except TxError Bytes32 := do
  rejectIf (wtxids = []) (.parse "merkle: empty wtxid list")
  merkleRootTagged (zero32 :: wtxids.tail) 0x02 0x03

/-- `b"RUBIN-WITNESS/"`. -/
def witnessDomain : Bytes :=
  [0x52, 0x55, 0x42, 0x49, 0x4e, 0x2d, 0x57, 0x49, 0x54, 0x4e, 0x45, 0x53, 0x53, 0x2f]

def witnessCommitmentHash (witnessRoot : Bytes32) : Bytes32 :=
  sha3_256 (witnessDomain ++ witnessRoot.toList)

/-! ## 3. `pow.rs`, `subsidy.rs` -/

/-- `BigUint::from_bytes_be`. -/
def beToNat (b : Bytes32) : Nat := leToNat b.toList.reverse

def powCheck (headerBytes : Bytes) (target : Bytes32) : Except TxError Unit := do
  rejectIf (headerBytes.length ≠ blockHeaderBytes) (.parse "pow: invalid header length")
  rejectIf (beToNat target = 0 ∨ beToNat target > beToNat powLimit)
    ⟨.blockErrTargetInvalid, "target out of range"⟩
  let h ← blockHash headerBytes
  rejectIf (¬ h.toList < target.toList) ⟨.blockErrPowInvalid, "pow invalid"⟩

end hashing

def clampBaseRewardToU64 (baseReward : Nat) : Nat :=
  if baseReward < 2 ^ 64 then baseReward else tailEmissionPerBlock

def blockSubsidy (height alreadyGenerated : Nat) : Nat :=
  if height = 0 then 0
  else if alreadyGenerated ≥ mineableCap then tailEmissionPerBlock
  else
    let remaining := mineableCap - alreadyGenerated
    let baseReward := remaining >>> emissionSpeedFactor
    if baseReward < tailEmissionPerBlock then tailEmissionPerBlock
    else clampBaseRewardToU64 baseReward

/-! ## 4. The parser -/

structure ParsedBlock where
  header : BlockHeader
  headerBytes : Bytes
  txCount : Nat
  txs : List Tx
  txids : List Bytes32
  wtxids : List Bytes32

variable [Crypto]

/-- Parses one transaction off what is left of the block. -/
def parseNextBlockTx (rem : Bytes) : Except TxError (ParsedTx × Bytes) := do
  rejectIf (rem = []) ⟨.blockErrParse, "unexpected EOF in tx list"⟩
  let p ← parseTx rem
  rejectIf (p.consumed = 0) ⟨.blockErrParse, "zero-length tx parse"⟩
  rejectIf (p.consumed > rem.length) ⟨.blockErrParse, "unexpected EOF in tx list"⟩
  .ok (p, rem.drop p.consumed)

def parseBlockTxs : (txCount : Nat) → (rem : Bytes) → Except TxError (List ParsedTx × Bytes)
  | 0, rem => .ok ([], rem)
  | txCount + 1, rem => do
    let p ← parseNextBlockTx rem
    let ps ← parseBlockTxs txCount p.2
    .ok (p.1 :: ps.1, ps.2)

/-- `read_compact_size` with the block parser's error. -/
def readTxCount (bytes : Bytes) : Except TxError (Nat × Bytes) := do
  let p ← (readCompactSize (Reader.new bytes)).mapError
    fun _ => ⟨.blockErrParse, "invalid tx_count"⟩
  .ok (p.1.1, p.2.rest)

def parseBlockBytes (blockBytes : Bytes) : Except TxError ParsedBlock := do
  rejectIf (blockBytes.length < blockHeaderBytes + 1) ⟨.blockErrParse, "block too short"⟩
  let headerBytes := blockBytes.take blockHeaderBytes
  let header ← (parseBlockHeaderBytes headerBytes).mapError
    fun _ => ⟨.blockErrParse, "invalid block header"⟩
  let count ← readTxCount (blockBytes.drop blockHeaderBytes)
  rejectIf (count.1 = 0) ⟨.blockErrCoinbaseInvalid, "empty block tx list"⟩
  let ps ← parseBlockTxs count.1 count.2
  rejectIf (ps.2 ≠ []) ⟨.blockErrParse, "trailing bytes after tx list"⟩
  .ok { header, headerBytes, txCount := count.1, txs := ps.1.map ParsedTx.tx,
        txids := ps.1.map ParsedTx.txid, wtxids := ps.1.map ParsedTx.wtxid }

end Rubin.Consensus
