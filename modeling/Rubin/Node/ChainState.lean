/-
# The node's chain state

`ChainState` of `chainstate.rs` with its connect entry points, and the genesis identity guard of
`genesis.rs`.  Heights and issued amounts are natural numbers with the source's checks; the copies
the source makes of the UTXO map before it connects a block are the value semantics of Lean.
-/
import Rubin.Consensus.ConnectSpec

namespace Rubin.Node

open Rubin.Lib Rubin.Consensus

/-- `u64::MAX`. -/
def u64Max : Nat := 2 ^ 64 - 1

def hexDigit (n : Nat) : Char := Char.ofNat (if n < 10 then 48 + n else 87 + n)

/-- `hex::encode`. -/
def hexEncode (bytes : Bytes) : String :=
  String.ofList (bytes.flatMap fun b => [hexDigit (b.toNat / 16), hexDigit (b.toNat % 16)])

/-! ## 1. `genesis.rs` -/

def genesisHeader : Bytes :=
  u32LeBytes 1 ++ zero32.toList ++
    [0x6f, 0x73, 0x2e, 0x61, 0x5e, 0x2f, 0x43, 0x33, 0x7a, 0x53, 0xe9, 0x88, 0x4a, 0xdb, 0xa7, 0xda,
     0x32, 0x25, 0x7d, 0x5b, 0xb5, 0x70, 0x1a, 0xdc, 0x7e, 0xd0, 0xbd, 0x40, 0x6f, 0x2d, 0xf9, 0x13] ++
    [0x40, 0xe4, 0x9e, 0x69, 0x00, 0x00, 0x00, 0x00] ++ powLimit.toList ++ u64LeBytes 0

/-- `GENESIS_TX_HEX`: one input, one P2PK output, the witness commitment. -/
def genesisTx : Bytes :=
  u32LeBytes 1 ++ [0x00] ++ u64LeBytes 0 ++
    [1] ++ zero32.toList ++ u32LeBytes 0xffffffff ++ [0] ++ u32LeBytes 0xffffffff ++
    [2] ++ u64LeBytes 100000000000000 ++ u16LeBytes covTypeP2pk ++ [33, 1] ++
    [0x84, 0x48, 0xb9, 0x1b, 0x88, 0xd1, 0xa6, 0xfb, 0xb6, 0x5e, 0x87, 0x2b, 0x72, 0xc3, 0x81, 0xb2,
     0xa9, 0xf3, 0xce, 0x28, 0x6a, 0x23, 0x2f, 0x56, 0x30, 0x96, 0x67, 0xf6, 0x39, 0xdd, 0x72, 0x79] ++
    u64LeBytes 0 ++ u16LeBytes covTypeAnchor ++ [32] ++
    [0xb7, 0x16, 0xa4, 0xb7, 0xf4, 0xc0, 0xfa, 0xb6, 0x65, 0x29, 0x8a, 0xb9, 0xb8, 0x19, 0x9b, 0x60,
     0x1a, 0xb9, 0xfa, 0x7e, 0x0a, 0x27, 0xf0, 0x71, 0x33, 0x83, 0xf3, 0x4c, 0xf3, 0x70, 0x71, 0xa8] ++
    u32LeBytes 0 ++ [0] ++ [0]

def devnetGenesisBlockBytes : Bytes := genesisHeader ++ encodeCompactSize 1 ++ genesisTx

def devnetGenesisChainId : Bytes32 := BytesN.ofList 32
  [0x88, 0xf8, 0xa9, 0xac, 0xde, 0xeb, 0x90, 0x2e, 0x27, 0xaa, 0x2f, 0xdc, 0xb8, 0xc4, 0x6e, 0xcf,
   0x81, 0x8b, 0xf6, 0x8d, 0xec, 0x52, 0x73, 0xec, 0x1b, 0xcc, 0x50, 0x84, 0xe2, 0x33, 0x31, 0x03]

/-- The hash of the published header; the genesis block's bytes begin with it. -/
def devnetGenesisHash [Crypto] : Bytes32 := sha3_256 genesisHeader

def validateIncomingChainId (blockHeight : Nat) (chainId : Bytes32) : Except String Unit :=
  rejectIf (blockHeight = 0 ∧ chainId ≠ zero32 ∧ chainId ≠ devnetGenesisChainId)
    "genesis chain_id mismatch"

/-- A block too short for a header passes: the parser is to report it. -/
def validateGenesisHash [Crypto] (blockBytes : Bytes) : Except String Unit :=
  match blockHash (blockBytes.take blockHeaderBytes) with
  | .error _ => .ok ()
  | .ok hash => rejectIf (hash ≠ devnetGenesisHash) "genesis_hash mismatch"

def validateGenesisIdentity [Crypto] (blockHeight : Nat) (chainId : Bytes32) (blockBytes : Bytes) :
    Except String Unit := do
  validateIncomingChainId blockHeight chainId
  if blockHeight ≠ 0 ∨ chainId ≠ devnetGenesisChainId then .ok ()
  else validateGenesisHash blockBytes

/-! ## 2. `chainstate.rs` -/

structure ChainState where
  hasTip : Bool
  height : Nat
  tipHash : Bytes32
  alreadyGenerated : Nat
  utxos : UtxoSet
deriving DecidableEq

def ChainState.new : ChainState :=
  { hasTip := false, height := 0, tipHash := zero32, alreadyGenerated := 0, utxos := ∅ }

structure CanonicalAppliedBlock where
  hash : Bytes32
  completeDaIds : List Bytes32
deriving DecidableEq, Repr

structure ChainStateConnectSummary where
  blockHeight : Nat
  blockHash : Bytes32
  sumFees : Nat
  alreadyGenerated : Nat
  alreadyGeneratedN1 : Nat
  utxoCount : Nat
  canonicalAppliedBlocks : List CanonicalAppliedBlock
deriving DecidableEq, Repr

/-- The height of the next block, and the hash it has to link to. -/
def ChainState.nextBlockContext (state : ChainState) : Except String (Nat × Option Bytes32) :=
  if !state.hasTip then .ok (0, none)
  else do
    rejectIf (state.height = u64Max) "height overflow"
    .ok (state.height + 1, some state.tipHash)

/-- What a block is connected with, besides the chain state. -/
structure ConnectParams where
  expectedTarget : Option Bytes32
  prevTimestamps : Option (List UInt64)
  chainId : Bytes32
  rotation : Option RotationProvider
  registry : Option SuiteRegistry

def ConnectParams.context (params : ConnectParams) (next : Nat × Option Bytes32) :
    ConnectBlockContext :=
  { expectedPrevHash := next.2, expectedTarget := params.expectedTarget, blockHeight := next.1,
    prevTimestamps := params.prevTimestamps, chainId := params.chainId,
    rotation := params.rotation, registry := params.registry }

def applyConnectedBlock (blockHeight : Nat) (tipHash : Bytes32)
    (connected : ConnectBlockBasicSummary × InMemoryChainState) :
    EStateM String ChainState ChainStateConnectSummary := do
  set { hasTip := true, height := blockHeight, tipHash,
        alreadyGenerated := connected.2.alreadyGenerated, utxos := connected.2.utxos : ChainState }
  pure { blockHeight, blockHash := tipHash, sumFees := connected.1.sumFees,
         alreadyGenerated := connected.1.alreadyGenerated,
         alreadyGeneratedN1 := connected.1.alreadyGeneratedN1,
         utxoCount := connected.1.utxoCount, canonicalAppliedBlocks := [] }

variable [Crypto]

/-- `parse_block_bytes` and `block_hash`, with errors as text. -/
def parseAndHash (blockBytes : Bytes) : Except String (ParsedBlock × Bytes32) := do
  let pb ← (parseBlockBytes blockBytes).mapError TxError.toString
  let hash ← (blockHash pb.headerBytes).mapError TxError.toString
  .ok (pb, hash)

def connectBlockWithSuiteContext (blockBytes : Bytes) (params : ConnectParams) :
    EStateM String ChainState ChainStateConnectSummary := do
  let state ← get
  let next ← liftE state.nextBlockContext
  liftE (validateGenesisIdentity next.1 params.chainId blockBytes)
  let connected ← liftE ((onCopy (connectBlockBasicInMemory blockBytes (params.context next))
    ⟨state.utxos, state.alreadyGenerated⟩).mapError TxError.toString)
  let parsed ← liftE (parseAndHash blockBytes)
  applyConnectedBlock next.1 parsed.2 connected

/-! ## 3. What a connected block leaves -/

omit [Crypto] in
theorem ChainState.nextBlockContext_ok {state : ChainState} {next : Nat × Option Bytes32}
    (h : state.nextBlockContext = .ok next) :
    (state.hasTip = false ∧ next = (0, none)) ∨
      (state.hasTip = true ∧ state.height ≠ u64Max ∧
        next = (state.height + 1, some state.tipHash)) := by
  unfold ChainState.nextBlockContext at h
  cases htip : state.hasTip with
  | false =>
    rw [htip] at h
    exact .inl ⟨rfl, (Except.ok.inj h).symm⟩
  | true =>
    simp only [htip, Bool.not_true, Bool.false_eq_true, if_false, bind_eq_ok, exists_unit,
      rejectIf_eq_ok, Except.ok.injEq] at h
    exact .inr ⟨rfl, h.1, h.2.symm⟩

theorem blockHash_ok {headerBytes : Bytes} {hash : Bytes32}
    (h : blockHash headerBytes = .ok hash) : hash = sha3_256 headerBytes := by
  simp only [blockHash, bind_eq_ok, exists_unit, Except.ok.injEq] at h
  exact h.2.symm

theorem parseAndHash_of_parsed {blockBytes : Bytes} {pb : ParsedBlock}
    (h : parseBlockBytes blockBytes = .ok pb) :
    blockHash pb.headerBytes = .ok (sha3_256 pb.headerBytes) ∧
      parseAndHash blockBytes = .ok (pb, sha3_256 pb.headerBytes) := by
  obtain ⟨-, hheader, -⟩ := parseBlockBytes_ok h
  have hlen : pb.headerBytes.length = blockHeaderBytes := by
    simp only [parseBlockHeaderBytes, bind_eq_ok, exists_unit, rejectIf_eq_ok, not_not] at hheader
    exact hheader.1
  have hhash : blockHash pb.headerBytes = .ok (sha3_256 pb.headerBytes) := by
    rw [blockHash, rejectIf_neg (not_not.mpr hlen), ok_bind]
  exact ⟨hhash, by simp [parseAndHash, h, hhash, Except.mapError]⟩

theorem parseAndHash_ok {blockBytes : Bytes} {p : ParsedBlock × Bytes32}
    (h : parseAndHash blockBytes = .ok p) :
    parseBlockBytes blockBytes = .ok p.1 ∧ p.2 = sha3_256 p.1.headerBytes := by
  simp only [parseAndHash, bind_eq_ok, mapError_eq_ok, Except.ok.injEq] at h
  obtain ⟨pb, hpb, hash, hhash, rfl⟩ := h
  exact ⟨hpb, blockHash_ok hhash⟩

/-- What an accepted block was connected from, and what it left. -/
structure Connected (blockBytes : Bytes) (params : ConnectParams) (state : ChainState)
    (pb : ParsedBlock) (next : Nat × Option Bytes32) (basic : ConnectBlockBasicSummary)
    (work : InMemoryChainState) : Prop where
  next_eq : state.nextBlockContext = .ok next
  genesis : validateGenesisIdentity next.1 params.chainId blockBytes = .ok ()
  parsed : parseBlockBytes blockBytes = .ok pb
  connected : connectBlockBasicInMemory blockBytes (params.context next)
    ⟨state.utxos, state.alreadyGenerated⟩ = .ok basic work

def connectedState (next : Nat × Option Bytes32) (pb : ParsedBlock) (work : InMemoryChainState) :
    ChainState :=
  { hasTip := true, height := next.1, tipHash := sha3_256 pb.headerBytes,
    alreadyGenerated := work.alreadyGenerated, utxos := work.utxos }

/-- **Inversion.**  A block is connected exactly when the guards pass and the in-memory connection
succeeds on a copy. -/
theorem connectBlockWithSuiteContext_eq_ok {blockBytes : Bytes} {params : ConnectParams}
    {state state' : ChainState} {summary : ChainStateConnectSummary} :
    connectBlockWithSuiteContext blockBytes params state = .ok summary state' ↔
      ∃ pb next basic work, Connected blockBytes params state pb next basic work ∧
        state' = connectedState next pb work ∧
        summary = { blockHeight := next.1, blockHash := sha3_256 pb.headerBytes,
                    sumFees := basic.sumFees, alreadyGenerated := basic.alreadyGenerated,
                    alreadyGeneratedN1 := basic.alreadyGeneratedN1, utxoCount := basic.utxoCount,
                    canonicalAppliedBlocks := [] } := by
  constructor
  · intro h
    simp only [connectBlockWithSuiteContext, estate_get_bind, estate_bind_eq_ok, liftE_eq_ok,
      mapError_eq_ok] at h
    obtain ⟨next, _, ⟨hnext, rfl⟩, ⟨⟩, _, ⟨hgen, rfl⟩, ⟨basic, work⟩, _, ⟨hconn, rfl⟩, p, _,
      ⟨hp, rfl⟩, h⟩ := h
    obtain ⟨hpb, hhash⟩ := parseAndHash_ok hp
    cases h
    refine ⟨p.1, next, basic, work, ⟨hnext, hgen, hpb, onCopy_eq_ok.mp hconn⟩, ?_, ?_⟩
    · rw [connectedState, ← hhash]
    · rw [← hhash]
  · rintro ⟨pb, next, basic, work, h, rfl, rfl⟩
    obtain ⟨-, hp⟩ := parseAndHash_of_parsed h.parsed
    have hcopy : onCopy (connectBlockBasicInMemory blockBytes (params.context next))
        ⟨state.utxos, state.alreadyGenerated⟩ = .ok (basic, work) :=
      onCopy_eq_ok.mpr h.connected
    rw [connectBlockWithSuiteContext, estate_get_bind, h.next_eq, liftE_ok_bind, h.genesis,
      liftE_ok_bind, hcopy, hp]
    rfl

end Rubin.Node
