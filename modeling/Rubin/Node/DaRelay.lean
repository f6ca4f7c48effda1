/-
# The DA relay state

`da_relay.rs`.  A node that relays data-availability transactions keeps, for every `da_id`, one
record of what it has seen: at most one commit, and chunks by index.  A record starts as loose
chunks or as a staged commit, is charged against four pools while it is incomplete, and once the
payloads of all its chunks hash to the commitment it becomes a complete set, which is charged for
its payload only.

Sorted maps are finite maps visited in key order.  Byte counts are `Nat`; every addition the source
checks is checked here against 64 bits.
-/
import Mathlib.Data.String.Basic
import Rubin.Lib.Rollback
import Rubin.Lib.Tally
import Rubin.Consensus.ByteOrder
import Rubin.Consensus.TxCodec

namespace Rubin.Node

open Rubin.Lib Rubin.Consensus

/-! ## 1. Caps, errors, quota keys -/

def daOrphanPoolBytes : Nat := 64 * 2 ^ 20
def daOrphanPoolPerPeerBytes : Nat := 4 * 2 ^ 20
def daOrphanPoolPerDaIdBytes : Nat := 8 * 2 ^ 20
def daOrphanCommitOverheadBytes : Nat := 8 * 2 ^ 20
def daOrphanTtlBlocks : Nat := 3
def daPinnedPayloadBytes : Nat := 96000000

structure DaRelayCaps where
  orphanPoolBytes : Nat
  orphanPoolPerPeerBytes : Nat
  orphanPoolPerDaIdBytes : Nat
  orphanCommitOverheadBytes : Nat
  orphanTtlBlocks : Nat
  pinnedPayloadBytes : Nat
deriving DecidableEq, Repr

def DaRelayCaps.default : DaRelayCaps where
  orphanPoolBytes := daOrphanPoolBytes
  orphanPoolPerPeerBytes := daOrphanPoolPerPeerBytes
  orphanPoolPerDaIdBytes := daOrphanPoolPerDaIdBytes
  orphanCommitOverheadBytes := daOrphanCommitOverheadBytes
  orphanTtlBlocks := daOrphanTtlBlocks
  pinnedPayloadBytes := daPinnedPayloadBytes

inductive DaRelayError where
  | invalidCaps
  | accountingUnderflow
  | accountingOverflow
  | accountingCapExceeded
  | duplicateCommit
  | duplicateChunk
  | invalidCommitChunkCount
  | invalidWireBytes
  | chunkIndexOutOfRange
  | chunkIndexOutsideCommit
  | chunkPayloadSizeInvalid
  | chunkHashMismatch
  | payloadCommitmentMismatch
deriving DecidableEq, Repr

def DaRelayCaps.validate (caps : DaRelayCaps) : Except DaRelayError Unit :=
  rejectIf (0 ∈ [caps.orphanPoolBytes, caps.orphanPoolPerPeerBytes, caps.orphanPoolPerDaIdBytes,
      caps.orphanCommitOverheadBytes, caps.orphanTtlBlocks, caps.pinnedPayloadBytes] ∨
    caps.orphanPoolPerPeerBytes > caps.orphanPoolBytes ∨
    caps.orphanPoolPerDaIdBytes > caps.orphanPoolBytes ∨
    caps.orphanCommitOverheadBytes > caps.orphanPoolBytes) .invalidCaps

/-- The addresses the standard library parses, each with the text it prints for it. -/
class IpText where
  ipAddr : String → Option String
  ipv6Addr : String → Option String

structure PeerQuotaKey where
  host : String
deriving DecidableEq, Repr

def splitOnceChars (sep : List Char) : List Char → Option (List Char × List Char)
  | [] => none
  | c :: rest =>
    if sep.isPrefixOf (c :: rest) then some ([], (c :: rest).drop sep.length)
    else (splitOnceChars sep rest).map fun p => (c :: p.1, p.2)

def rsplitOnceChars (sep s : List Char) : Option (List Char × List Char) :=
  (splitOnceChars sep.reverse s.reverse).map fun p => (p.2.reverse, p.1.reverse)

def hasBracket (s : List Char) : Bool := s.contains '[' || s.contains ']'

def splitPeerHost (addr : List Char) : List Char :=
  match addr with
  | '[' :: rest =>
    match rsplitOnceChars [']', ':'] rest with
    | some (host, port) =>
      if hasBracket host || port.contains ':' || hasBracket port then addr else host
    | none => addr
  | _ =>
    match rsplitOnceChars [':'] addr with
    | some (host, port) =>
      if host.contains ':' || hasBracket host || hasBracket port then addr else host
    | none => addr

section quota

variable [IpText]

def normalizePeerHost (host : List Char) : String :=
  match IpText.ipAddr (String.ofList host) with
  | some ip => ip
  | none =>
    match splitOnceChars ['%'] host with
    | some (withoutZone, zone) =>
      if zone = [] then String.ofList host
      else (IpText.ipv6Addr (String.ofList withoutZone)).getD (String.ofList host)
    | none => String.ofList host

def PeerQuotaKey.fromPeerAddr (addr : String) : PeerQuotaKey :=
  if addr.isEmpty then ⟨""⟩ else ⟨normalizePeerHost (splitPeerHost addr.toList)⟩

end quota

/-- Peers in the order of their keys. -/
def peerOrder : VisitOrder PeerQuotaKey :=
  .ascendingBy PeerQuotaKey.host fun _ _ h => congrArg PeerQuotaKey.mk h

/-- Chunk indexes in ascending order. -/
def indexOrder : VisitOrder UInt16 := .ascendingBy UInt16.toNat fun _ _ h => UInt16.toNat_inj.mp h

/-- `da_id`s in byte order. -/
def daIdOrder : VisitOrder Bytes32 := .ascendingBy id Function.injective_id

/-! ## 2. One record -/

inductive DaRelaySetState where
  | orphanChunks
  | stagedCommit
  | completeSet
deriving DecidableEq, Repr

structure DaRelayCommit where
  daId : Bytes32
  payloadCommitment : Bytes32
  peerQuotaKey : PeerQuotaKey
  chunkCount : UInt16
  wireBytes : Nat
  txBytes : Bytes
deriving DecidableEq, Repr

structure DaRelayChunk where
  daId : Bytes32
  chunkHash : Bytes32
  peerQuotaKey : PeerQuotaKey
  chunkIndex : UInt16
  payload : Bytes
  wireBytes : Nat
  txBytes : Bytes
deriving DecidableEq, Repr

abbrev PeerBytes : Type := Finmap fun _ : PeerQuotaKey => Nat

structure DaRelaySetRecord where
  daId : Bytes32
  state : DaRelaySetState
  receivedTime : Nat
  payloadBytes : Nat
  ttlBlocksRemaining : Nat
  wireBytes : Nat
  peerBytes : PeerBytes
  commit : Option DaRelayCommit
  chunks : Finmap fun _ : UInt16 => DaRelayChunk
  replaceableChunks : Finset UInt16

def checkedAdd (left right : Nat) : Except DaRelayError Nat :=
  if left + right < 2 ^ 64 then .ok (left + right) else .error .accountingOverflow

def retainedTxAccountingBytes (wireBytes : Nat) (txBytes : Bytes) : Nat :=
  if txBytes = [] then wireBytes else txBytes.length

def orphanChunkAccountingBytes (chunk : DaRelayChunk) : Except DaRelayError Nat :=
  let bytes := retainedTxAccountingBytes chunk.wireBytes chunk.txBytes
  if chunk.txBytes ≠ [] ∧ chunk.payload ≠ [] then checkedAdd bytes chunk.payload.length
  else .ok bytes

/-- `*map.entry(key).or_default()` raised by `bytes`, with the addition checked. -/
def addPeerBytes (peerBytes : PeerBytes) (key : PeerQuotaKey) (bytes : Nat) :
    Except DaRelayError PeerBytes := do
  let entry ← checkedAdd (count peerBytes key) bytes
  .ok (peerBytes.insert key entry)

/-- The indexes `0..chunk_count`. -/
def chunkIndexes (chunkCount : UInt16) : List UInt16 :=
  (List.range chunkCount.toNat).map UInt16.ofNat

structure DaRelayCompletionChunk where
  chunkIndex : UInt16
  chunkHash : Bytes32
  payload : Bytes
deriving DecidableEq, Repr

structure DaRelayCompletionSnapshot where
  payloadCommitmentExpected : Bytes32
  chunks : List DaRelayCompletionChunk
deriving DecidableEq, Repr

structure CompleteDaSetChunkCandidate where
  index : UInt16
  tx : Bytes
deriving DecidableEq, Repr

structure CompleteDaSetCandidate where
  daId : Bytes32
  payloadBytes : Nat
  commitTx : Bytes
  chunks : List CompleteDaSetChunkCandidate
deriving DecidableEq, Repr

namespace DaRelaySetRecord

def new (daId : Bytes32) : DaRelaySetRecord where
  daId := daId
  state := .orphanChunks
  receivedTime := 0
  payloadBytes := 0
  ttlBlocksRemaining := 0
  wireBytes := 0
  peerBytes := ∅
  commit := none
  chunks := ∅
  replaceableChunks := ∅

def validateChunkInsert (r : DaRelaySetRecord) (chunkIndex : UInt16) : Except DaRelayError Unit :=
  if (r.chunks.lookup chunkIndex).isSome then
    rejectIf (chunkIndex ∉ r.replaceableChunks) .duplicateChunk
  else
    match r.commit with
    | some commit => rejectIf (chunkIndex ≥ commit.chunkCount) .chunkIndexOutsideCommit
    | none => .ok ()

def pruneChunksOutsideCommit (r : DaRelaySetRecord) : DaRelaySetRecord :=
  match r.commit with
  | some commit => { r with
      chunks := indexOrder.retain (fun index => decide (index < commit.chunkCount)) r.chunks
      replaceableChunks := r.replaceableChunks.filter fun index => index < commit.chunkCount }
  | none => r

/-- One turn of the loop over the chunks in `recompute_wire_bytes`. -/
def recomputeChunk (acc : Nat × PeerBytes) (chunk : DaRelayChunk) :
    Except DaRelayError (Nat × PeerBytes) := do
  let total ← checkedAdd acc.1 (retainedTxAccountingBytes chunk.wireBytes chunk.txBytes)
  let chunkBytes ← orphanChunkAccountingBytes chunk
  let peerBytes ← addPeerBytes acc.2 chunk.peerQuotaKey chunkBytes
  .ok (total, peerBytes)

/-- The commit's share, before the loop. -/
def recomputeStart (r : DaRelaySetRecord) : Nat × PeerBytes :=
  match r.commit with
  | some commit =>
    let total := retainedTxAccountingBytes commit.wireBytes commit.txBytes
    (total, (∅ : PeerBytes).insert commit.peerQuotaKey total)
  | none => (0, ∅)

def recomputeWireBytes (r : DaRelaySetRecord) : Except DaRelayError DaRelaySetRecord := do
  let acc ← ((indexOrder.entries r.chunks).map Prod.snd).foldlM recomputeChunk r.recomputeStart
  .ok { r with wireBytes := acc.1, peerBytes := acc.2 }

def completionChunk (r : DaRelaySetRecord) (index : UInt16) : Option DaRelayCompletionChunk :=
  if index ∈ r.replaceableChunks then none
  else (r.chunks.lookup index).map fun chunk => ⟨index, chunk.chunkHash, chunk.payload⟩

def completionSnapshot (r : DaRelaySetRecord) : Option DaRelayCompletionSnapshot :=
  match r.commit with
  | none => none
  | some commit =>
    if r.state = .completeSet then none
    else ((chunkIndexes commit.chunkCount).mapM r.completionChunk).map fun chunks =>
      ⟨commit.payloadCommitment, chunks⟩

def markComplete (r : DaRelaySetRecord) (payloadBytes : Nat) : DaRelaySetRecord := { r with
  payloadBytes := payloadBytes
  state := .completeSet
  ttlBlocksRemaining := 0
  replaceableChunks := ∅
  chunks := indexOrder.updateAll (fun chunk => { chunk with payload := [] }) r.chunks }

def markChunksReplaceable (r : DaRelaySetRecord) (indexes : List UInt16) : DaRelaySetRecord :=
  { r with replaceableChunks := r.replaceableChunks ∪ indexes.toFinset }

/-- The chunks at `indexes` are dropped, and with them their marks. -/
def dropChunks (r : DaRelaySetRecord) (indexes : List UInt16) : DaRelaySetRecord := { r with
  chunks := eraseAll indexes r.chunks
  replaceableChunks := r.replaceableChunks \ indexes.toFinset }

def orphanWireBytes (r : DaRelaySetRecord) : Except DaRelayError Nat :=
  if r.state = .completeSet then .ok 0
  else ((peerOrder.entries r.peerBytes).map Prod.snd).foldlM checkedAdd 0

def orphanCommitBytes (r : DaRelaySetRecord) : Nat :=
  if r.state = .completeSet then 0
  else
    match r.commit with
    | some commit => retainedTxAccountingBytes commit.wireBytes commit.txBytes
    | none => 0

def orphanPeerBytes (r : DaRelaySetRecord) : Option PeerBytes :=
  if r.state = .completeSet then none else some r.peerBytes

def emptyIncomplete (r : DaRelaySetRecord) : Bool :=
  r.state ≠ .completeSet && r.commit.isNone && r.chunks.keys = ∅

/-- Whether the commit is dropped when the peer goes. -/
def dropsCommit (r : DaRelaySetRecord) (key : PeerQuotaKey) : Bool :=
  match r.commit with
  | some commit => commit.wireBytes ≠ 0 && commit.peerQuotaKey = key
  | none => false

/-- The indexes of the chunks that are dropped when the peer goes. -/
def droppedIndexes (r : DaRelaySetRecord) (key : PeerQuotaKey) : List UInt16 :=
  (indexOrder.entries r.chunks).filterMap fun p =>
    if p.2.wireBytes ≠ 0 ∧ p.2.peerQuotaKey = key then some p.1 else none

/-- The record without the peer's items, its byte counts not yet recomputed. -/
def withoutItemsOf (r : DaRelaySetRecord) (key : PeerQuotaKey) : DaRelaySetRecord :=
  let kept : DaRelaySetRecord :=
    if r.dropsCommit key then { r with commit := none, replaceableChunks := ∅ } else r
  let updated : DaRelaySetRecord := { kept.dropChunks (r.droppedIndexes key) with payloadBytes := 0 }
  if updated.commit = none then
    { updated with state := .orphanChunks, replaceableChunks := ∅ }
  else updated

def withoutPeerQuotaKey (r : DaRelaySetRecord) (key : PeerQuotaKey) :
    Except DaRelayError (Option DaRelaySetRecord) :=
  if r.state = .completeSet ∨ r.wireBytes = 0 then .ok none
  else if r.dropsCommit key = false ∧ r.droppedIndexes key = [] then .ok none
  else if (r.withoutItemsOf key).emptyIncomplete then
    .ok (some { r.withoutItemsOf key with wireBytes := 0, peerBytes := ∅ })
  else (r.withoutItemsOf key).recomputeWireBytes >>= fun updated => .ok (some updated)

def pinnedPayloadAccountingBytes (r : DaRelaySetRecord) : Nat :=
  if r.state ≠ .completeSet then 0 else r.payloadBytes

def completeDaSetChunk (r : DaRelaySetRecord) (index : UInt16) :
    Option CompleteDaSetChunkCandidate :=
  match r.chunks.lookup index with
  | none => none
  | some chunk => if chunk.txBytes = [] then none else some ⟨index, chunk.txBytes⟩

def completeDaSetCandidate (r : DaRelaySetRecord) : Option CompleteDaSetCandidate :=
  if r.state ≠ .completeSet then none
  else
    match r.commit with
    | none => none
    | some commit =>
      if commit.chunkCount = 0 ∨ commit.txBytes = [] then none
      else ((chunkIndexes commit.chunkCount).mapM r.completeDaSetChunk).map fun chunks =>
        ⟨r.daId, r.payloadBytes, commit.txBytes, chunks⟩

end DaRelaySetRecord

namespace DaRelayCompletionSnapshot

def payloadCommitment [Crypto] (snapshot : DaRelayCompletionSnapshot) :
    Except DaRelayError (Nat × Bytes32) := do
  let payloadBytes ← (snapshot.chunks.map fun chunk => chunk.payload.length).foldlM checkedAdd 0
  .ok (payloadBytes, sha3_256 (snapshot.chunks.flatMap DaRelayCompletionChunk.payload))

/-- The loop of `matching_chunk_indexes`: missing chunks are skipped, a different one ends it. -/
def matchingFrom (r : DaRelaySetRecord) : List DaRelayCompletionChunk → Option (List UInt16)
  | [] => some []
  | snapshotChunk :: rest =>
    match r.chunks.lookup snapshotChunk.chunkIndex with
    | none => matchingFrom r rest
    | some chunk =>
      if chunk.chunkHash ≠ snapshotChunk.chunkHash ∨
          chunk.payload.length ≠ snapshotChunk.payload.length then none
      else (matchingFrom r rest).map (snapshotChunk.chunkIndex :: ·)

def matchingChunkIndexes (snapshot : DaRelayCompletionSnapshot) (r : DaRelaySetRecord) :
    Option (List UInt16) := matchingFrom r snapshot.chunks

end DaRelayCompletionSnapshot

/-! ## 3. Projected counters -/

structure DaRelayState where
  caps : DaRelayCaps
  nextReceivedTime : Nat
  orphanBytes : Nat
  orphanBytesByPeerQuotaKey : PeerBytes
  orphanBytesByDaId : Finmap fun _ : Bytes32 => Nat
  orphanCommitOverheadBytes : Nat
  pinnedPayloadBytes : Nat
  setsByDaId : Finmap fun _ : Bytes32 => DaRelaySetRecord

abbrev DaRelayM : Type → Type := EStateM DaRelayError DaRelayState

structure DaRelayTtlExpiryProjection where
  orphanBytes : Nat
  orphanCommitOverheadBytes : Nat
  peerBytes : List (PeerQuotaKey × Nat)
  daIdBytes : List (Bytes32 × Nat)

/-- What the loop of `project_ttl_expiry` has summed up. -/
structure TtlExpirySums where
  removeOrphanBytes : Nat
  removeCommitOverheadBytes : Nat
  removePeerBytes : PeerBytes
  daIdBytes : List (Bytes32 × Nat)

def projectCounter (current remove add cap : Nat) : Except DaRelayError Nat := do
  rejectIf (current < remove) .accountingUnderflow
  let next ← checkedAdd (current - remove) add
  rejectIf (next > cap) .accountingCapExceeded
  .ok next

namespace DaRelayState

def new (caps : DaRelayCaps) : Except DaRelayError DaRelayState := do
  caps.validate
  .ok { caps := caps, nextReceivedTime := 0, orphanBytes := 0, orphanBytesByPeerQuotaKey := ∅,
        orphanBytesByDaId := ∅, orphanCommitOverheadBytes := 0, pinnedPayloadBytes := 0,
        setsByDaId := ∅ }

def projectPeerCounter (s : DaRelayState) (key : PeerQuotaKey) (remove add : Nat) :
    Except DaRelayError (PeerQuotaKey × Nat) := do
  let next ← projectCounter (count s.orphanBytesByPeerQuotaKey key) remove add
    s.caps.orphanPoolPerPeerBytes
  .ok (key, next)

def projectPeerBytes (s : DaRelayState) (old : Option DaRelaySetRecord) (new : DaRelaySetRecord) :
    Except DaRelayError (List (PeerQuotaKey × Nat)) := do
  let newPeerBytes := new.orphanPeerBytes.getD ∅
  let oldPeerBytes := (old.bind DaRelaySetRecord.orphanPeerBytes).getD ∅
  let changed ← (peerOrder.entries oldPeerBytes).mapM fun p =>
    s.projectPeerCounter p.1 p.2 (count newPeerBytes p.1)
  let added ← ((peerOrder.entries newPeerBytes).filter fun p =>
    oldPeerBytes.lookup p.1 = none).mapM fun p => s.projectPeerCounter p.1 0 p.2
  .ok (changed ++ added)

/-- Everything is projected before anything is written. -/
def applyRecord (record : DaRelaySetRecord) : DaRelayM Unit := writing fun s => do
  let old := s.setsByDaId.lookup record.daId
  let oldBytes ← old.elim (.ok 0) DaRelaySetRecord.orphanWireBytes
  let newBytes ← record.orphanWireBytes
  let peerBytes ← s.projectPeerBytes old record
  let orphanBytes ← projectCounter s.orphanBytes oldBytes newBytes s.caps.orphanPoolBytes
  let daIdBytes ← projectCounter (count s.orphanBytesByDaId record.daId) oldBytes newBytes
    s.caps.orphanPoolPerDaIdBytes
  let commitOverhead ← projectCounter s.orphanCommitOverheadBytes
    (old.elim 0 DaRelaySetRecord.orphanCommitBytes) record.orphanCommitBytes
    s.caps.orphanCommitOverheadBytes
  let pinnedPayloadBytes ← projectCounter s.pinnedPayloadBytes
    (old.elim 0 DaRelaySetRecord.pinnedPayloadAccountingBytes) record.pinnedPayloadAccountingBytes
    s.caps.pinnedPayloadBytes
  .ok { s with
    orphanBytes := orphanBytes
    orphanCommitOverheadBytes := commitOverhead
    pinnedPayloadBytes := pinnedPayloadBytes
    nextReceivedTime := max s.nextReceivedTime record.receivedTime
    orphanBytesByPeerQuotaKey := settleAll peerBytes s.orphanBytesByPeerQuotaKey
    orphanBytesByDaId := settle s.orphanBytesByDaId (record.daId, daIdBytes)
    setsByDaId := s.setsByDaId.insert record.daId record }

/-- One turn of the loop in `project_ttl_expiry`. -/
def projectTtlRecord (s : DaRelayState) (acc : TtlExpirySums) (record : DaRelaySetRecord) :
    Except DaRelayError TtlExpirySums := do
  let orphanWireBytes ← record.orphanWireBytes
  let removeOrphanBytes ← checkedAdd acc.removeOrphanBytes orphanWireBytes
  let removeCommitOverheadBytes ← checkedAdd acc.removeCommitOverheadBytes record.orphanCommitBytes
  let daIdBytes ← projectCounter (count s.orphanBytesByDaId record.daId) orphanWireBytes 0
    s.caps.orphanPoolPerDaIdBytes
  let removePeerBytes ← (peerOrder.entries (record.orphanPeerBytes.getD ∅)).foldlM
    (fun m p => addPeerBytes m p.1 p.2) acc.removePeerBytes
  .ok ⟨removeOrphanBytes, removeCommitOverheadBytes, removePeerBytes,
    acc.daIdBytes ++ [(record.daId, daIdBytes)]⟩

def projectTtlExpiry (s : DaRelayState) (records : List DaRelaySetRecord) :
    Except DaRelayError DaRelayTtlExpiryProjection := do
  let sums ← records.foldlM s.projectTtlRecord ⟨0, 0, ∅, []⟩
  let peerBytes ← (peerOrder.entries sums.removePeerBytes).mapM fun p =>
    s.projectPeerCounter p.1 p.2 0
  let orphanBytes ← projectCounter s.orphanBytes sums.removeOrphanBytes 0 s.caps.orphanPoolBytes
  let commitOverhead ← projectCounter s.orphanCommitOverheadBytes sums.removeCommitOverheadBytes 0
    s.caps.orphanCommitOverheadBytes
  .ok ⟨orphanBytes, commitOverhead, peerBytes, sums.daIdBytes⟩

def applyTtlExpiryProjection (s : DaRelayState) (projection : DaRelayTtlExpiryProjection)
    (records : List DaRelaySetRecord) : DaRelayState := { s with
  orphanBytes := projection.orphanBytes
  orphanCommitOverheadBytes := projection.orphanCommitOverheadBytes
  orphanBytesByPeerQuotaKey := settleAll projection.peerBytes s.orphanBytesByPeerQuotaKey
  orphanBytesByDaId := settleAll projection.daIdBytes s.orphanBytesByDaId
  setsByDaId := eraseAll (records.map DaRelaySetRecord.daId) s.setsByDaId }

/-! ## 4. Staging -/

inductive CompletionMismatchAction where
  | dropMatchingChunks
  | markMatchingChunksReplaceable
deriving DecidableEq, Repr

/-- A record that is new gets the next tick of the relay's clock. -/
def stampReceivedTime (s : DaRelayState) (record : DaRelaySetRecord) :
    Except DaRelayError DaRelaySetRecord :=
  if record.receivedTime = 0 then
    checkedAdd s.nextReceivedTime 1 >>= fun receivedTime =>
      .ok { record with receivedTime := receivedTime }
  else .ok record

/-- What is kept when the payloads do not hash to the commitment. -/
def keepAfterMismatch (snapshot : DaRelayCompletionSnapshot) (record : DaRelaySetRecord) :
    CompletionMismatchAction → DaRelayM Unit
  | .dropMatchingChunks => do
    let indexes := (snapshot.matchingChunkIndexes record).getD []
    let dropped : DaRelaySetRecord :=
      { record.dropChunks indexes with payloadBytes := 0, state := .stagedCommit }
    let updated ← liftE dropped.recomputeWireBytes
    applyRecord updated
  | .markMatchingChunksReplaceable => do
    let s ← get
    match s.setsByDaId.lookup record.daId with
    | none => pure ()
    | some old =>
      match snapshot.matchingChunkIndexes old with
      | none => pure ()
      | some indexes =>
        if indexes.length = snapshot.chunks.length then
          applyRecord (old.markChunksReplaceable indexes)
        else pure ()

section staging

variable [Crypto]

/-- The set has all its chunks: it is complete, or it is refused. -/
def settleCompletion (snapshot : DaRelayCompletionSnapshot) (record : DaRelaySetRecord)
    (mismatchAction : CompletionMismatchAction) : DaRelayM Unit := do
  let payload ← liftE snapshot.payloadCommitment
  if payload.2 = snapshot.payloadCommitmentExpected then applyRecord (record.markComplete payload.1)
  else do
    keepAfterMismatch snapshot record mismatchAction
    throw .payloadCommitmentMismatch

def prepareAndApplyRecord (record : DaRelaySetRecord)
    (mismatchAction : CompletionMismatchAction) : DaRelayM Unit := do
  let recomputed ← liftE record.recomputeWireBytes
  let s ← get
  let stamped ← liftE (s.stampReceivedTime recomputed)
  match stamped.completionSnapshot with
  | some snapshot => settleCompletion snapshot stamped mismatchAction
  | none => applyRecord stamped

variable [IpText]

def stageIncompleteDaCommit (peerAddr : String) (commit : DaRelayCommit) : DaRelayM Unit := do
  liftE (rejectIf (commit.chunkCount = 0 ∨ commit.chunkCount.toNat > maxDaChunkCount)
    .invalidCommitChunkCount)
  liftE (rejectIf (commit.wireBytes = 0) .invalidWireBytes)
  let s ← get
  let old := s.setsByDaId.lookup commit.daId
  liftE (rejectIf ((old.bind DaRelaySetRecord.commit).isSome) .duplicateCommit)
  let record : DaRelaySetRecord := { old.getD (.new commit.daId) with
    commit := some { commit with peerQuotaKey := .fromPeerAddr peerAddr }
    state := .stagedCommit
    ttlBlocksRemaining := s.caps.orphanTtlBlocks }
  prepareAndApplyRecord record.pruneChunksOutsideCommit .dropMatchingChunks

end staging

end DaRelayState

def validateDaChunk (chunk : DaRelayChunk) : Except DaRelayError Unit := do
  rejectIf (chunk.chunkIndex.toNat ≥ maxDaChunkCount) .chunkIndexOutOfRange
  rejectIf (chunk.payload.length = 0 ∨ chunk.payload.length > chunkBytes) .chunkPayloadSizeInvalid
  rejectIf (chunk.wireBytes = 0 ∨ chunk.wireBytes < chunk.payload.length) .invalidWireBytes

/-- The record a chunk is put into, with the chunk in it. -/
def DaRelaySetRecord.withChunk (r : DaRelaySetRecord) (ttlBlocks : Nat) (chunk : DaRelayChunk) :
    DaRelaySetRecord :=
  let record : DaRelaySetRecord :=
    if r.commit = none then { r with state := .orphanChunks, ttlBlocksRemaining := ttlBlocks }
    else r
  { record with
    chunks := record.chunks.insert chunk.chunkIndex chunk
    replaceableChunks := record.replaceableChunks.erase chunk.chunkIndex }

def relayDaCommitPayloadCommitment (tx : Tx) : Option Bytes32 :=
  match tx.outputs.filter fun output => output.covenantType == covTypeDaCommit with
  | [] => none
  | output :: others =>
    if output.covenantData.length ≠ 32 ∨ others ≠ [] then none
    else some (BytesN.ofList 32 output.covenantData)

namespace DaRelayState

section staging

variable [Crypto] [IpText]

def stageIncompleteDaChunkInner (peerAddr : String) (chunk : DaRelayChunk)
    (chunkHashPrevalidated : Bool) : DaRelayM Unit := do
  liftE (validateDaChunk chunk)
  let s ← get
  let current := s.setsByDaId.lookup chunk.daId
  liftE (current.elim (.ok ()) fun record => record.validateChunkInsert chunk.chunkIndex)
  liftE (rejectIf (chunkHashPrevalidated = false ∧ sha3_256 chunk.payload ≠ chunk.chunkHash)
    .chunkHashMismatch)
  let record := (current.getD (.new chunk.daId)).withChunk s.caps.orphanTtlBlocks
    { chunk with peerQuotaKey := .fromPeerAddr peerAddr }
  prepareAndApplyRecord record .markMatchingChunksReplaceable

/-- The relay's own copy of a commit. -/
def relayCommitOf (peerAddr : String) (txBytes : Bytes) (core : DaCommitCore)
    (payloadCommitment : Bytes32) : DaRelayCommit where
  daId := core.daId
  payloadCommitment := payloadCommitment
  peerQuotaKey := .fromPeerAddr peerAddr
  chunkCount := core.chunkCount
  wireBytes := txBytes.length
  txBytes := txBytes

/-- The relay's own copy of a chunk. -/
def relayChunkOf (peerAddr : String) (txBytes : Bytes) (core : DaChunkCore) (payload : Bytes) :
    DaRelayChunk where
  daId := core.daId
  chunkHash := core.chunkHash
  peerQuotaKey := .fromPeerAddr peerAddr
  chunkIndex := core.chunkIndex
  payload := payload
  wireBytes := txBytes.length
  txBytes := txBytes

/-- A call that reports its result beside the state it leaves. -/
def reporting (daId : Option Bytes32) (m : DaRelayM Unit) (s : DaRelayState) :
    (Option Bytes32 × Except DaRelayError Unit) × DaRelayState :=
  match m s with
  | .ok _ s' => ((daId, .ok ()), s')
  | .error e s' => ((daId, .error e), s')

def stageParsedDaTx (peerAddr : String) (txBytes : Bytes) (chunkHashPrevalidated : Bool) (tx : Tx)
    (s : DaRelayState) : (Option Bytes32 × Except DaRelayError Unit) × DaRelayState :=
  if tx.txKind = 0x01 then
    match tx.daCommitCore, relayDaCommitPayloadCommitment tx with
    | some core, some payloadCommitment => reporting (some core.daId)
        (stageIncompleteDaCommit peerAddr (relayCommitOf peerAddr txBytes core payloadCommitment)) s
    | _, _ => ((none, .ok ()), s)
  else if tx.txKind = 0x02 then
    match tx.daChunkCore with
    | some core => reporting (some core.daId) (stageIncompleteDaChunkInner peerAddr
        (relayChunkOf peerAddr txBytes core tx.daPayload) chunkHashPrevalidated) s
    | none => ((none, .ok ()), s)
  else ((none, .ok ()), s)

def stageRelayDaTxBytesChecked (peerAddr : String) (txBytes : Bytes) (chunkHashPrevalidated : Bool)
    (s : DaRelayState) : (Option Bytes32 × Except DaRelayError Unit) × DaRelayState :=
  if txBytes.length ≥ 2 ^ 64 then ((none, .error .accountingOverflow), s)
  else
    match parseTx txBytes with
    | .error _ => ((none, .error .invalidWireBytes), s)
    | .ok parsed =>
      if parsed.consumed ≠ txBytes.length then ((none, .error .invalidWireBytes), s)
      else stageParsedDaTx peerAddr txBytes chunkHashPrevalidated parsed.tx s

end staging

/-! ## 5. Expiry, release, consumption -/

/-- The incomplete records, each with its key. -/
def orphanRecords (s : DaRelayState) : List (Bytes32 × DaRelaySetRecord) :=
  (daIdOrder.order s.orphanBytesByDaId.keys).filterMap fun daId =>
    match s.setsByDaId.lookup daId with
    | some record => if record.state = .completeSet then none else some (daId, record)
    | none => none

def decrementTtl (blocks : Nat) (daId : Bytes32) : DaRelayM Unit := do
  let s ← get
  let record ← liftE (okOr (s.setsByDaId.lookup daId) .accountingUnderflow)
  liftE (rejectIf (record.ttlBlocksRemaining < blocks) .accountingUnderflow)
  let aged : DaRelaySetRecord :=
    { record with ttlBlocksRemaining := record.ttlBlocksRemaining - blocks }
  set { s with setsByDaId := s.setsByDaId.insert daId aged }

def projectExpiring (s : DaRelayState) (expiring : List DaRelaySetRecord) :
    Except DaRelayError (Option DaRelayTtlExpiryProjection) :=
  if expiring = [] then .ok none
  else s.projectTtlExpiry expiring >>= fun projection => .ok (some projection)

def expire (expiring : List DaRelaySetRecord) :
    Option DaRelayTtlExpiryProjection → DaRelayM (List Bytes32)
  | none => pure []
  | some projection => do
    modify fun s => s.applyTtlExpiryProjection projection expiring
    pure (expiring.map DaRelaySetRecord.daId)

def advanceOrphanTtlBy (blocks : Nat) : DaRelayM (List Bytes32) := do
  if blocks = 0 then pure []
  else do
    let s ← get
    let decrementing := s.orphanRecords.filter fun p => blocks < p.2.ttlBlocksRemaining
    let expiring := (s.orphanRecords.filter fun p => ¬ blocks < p.2.ttlBlocksRemaining).map Prod.snd
    let projection ← liftE (s.projectExpiring expiring)
    (decrementing.map Prod.fst).forM (decrementTtl blocks)
    expire expiring projection

/-- A record without the peer's items takes the place of the old one, or of nothing. -/
def replaceReleased (daId : Bytes32) (updated : DaRelaySetRecord) : DaRelayM Unit :=
  if updated.emptyIncomplete then do
    let s ← get
    let old ← liftE (okOr (s.setsByDaId.lookup daId) .accountingUnderflow)
    let projection ← liftE (s.projectTtlExpiry [old])
    modify fun s => s.applyTtlExpiryProjection projection [old]
  else applyRecord updated

def releaseFrom (key : PeerQuotaKey) (daId : Bytes32) : DaRelayM Unit := do
  let s ← get
  match s.setsByDaId.lookup daId with
  | none => pure ()
  | some record =>
    if record.state = .completeSet then pure ()
    else do
      let updated ← liftE (record.withoutPeerQuotaKey key)
      match updated with
      | none => pure ()
      | some updated => replaceReleased daId updated

def releasePeerQuotaKey (key : PeerQuotaKey) : DaRelayM Unit := do
  let s ← get
  if count s.orphanBytesByPeerQuotaKey key = 0 then pure ()
  else (daIdOrder.order s.orphanBytesByDaId.keys).forM (releaseFrom key)

def consumeCompleteSet (daId : Bytes32) : DaRelayM Bool := do
  let s ← get
  match s.setsByDaId.lookup daId with
  | none => pure false
  | some record =>
    if record.state ≠ .completeSet then pure false
    else do
      let pinnedPayloadBytes ← liftE (projectCounter s.pinnedPayloadBytes
        record.pinnedPayloadAccountingBytes 0 s.caps.pinnedPayloadBytes)
      set { s with pinnedPayloadBytes := pinnedPayloadBytes,
                   setsByDaId := s.setsByDaId.erase daId }
      pure true

/-! ## 6. Templates and accepted blocks -/

/-- One turn of the loop in `complete_da_set_candidates`. -/
def offerRecord (maxPayloadBytes : Nat) (acc : List CompleteDaSetCandidate × Nat)
    (record : DaRelaySetRecord) : List CompleteDaSetCandidate × Nat :=
  if record.state ≠ .completeSet then acc
  else if acc.2 + record.payloadBytes ≥ 2 ^ 64 then acc
  else if acc.2 + record.payloadBytes > maxPayloadBytes then acc
  else
    match record.completeDaSetCandidate with
    | none => acc
    | some candidate => (acc.1 ++ [candidate], acc.2 + record.payloadBytes)

def completeDaSetCandidates (s : DaRelayState) (maxPayloadBytes : Nat) :
    List CompleteDaSetCandidate :=
  if maxPayloadBytes = 0 then []
  else (((daIdOrder.entries s.setsByDaId).map Prod.snd).foldl (offerRecord maxPayloadBytes)
    ([], 0)).1

end DaRelayState

structure AcceptedBlockDaSet where
  commitCount : Nat
  chunkCount : UInt16
  chunks : Finset UInt16

namespace AcceptedBlockDaSet

def empty : AcceptedBlockDaSet := ⟨0, 0, ∅⟩

def complete (set : AcceptedBlockDaSet) : Bool :=
  if set.commitCount ≠ 1 ∨ set.chunkCount = 0 ∨ set.chunkCount.toNat > maxDaChunkCount then false
  else if set.chunks.card ≠ set.chunkCount.toNat then false
  else (chunkIndexes set.chunkCount).all fun index => index ∈ set.chunks

end AcceptedBlockDaSet

abbrev AcceptedBlockDaSets : Type := Finmap fun _ : Bytes32 => AcceptedBlockDaSet

def recordAcceptedBlockDaTx (sets : AcceptedBlockDaSets) (tx : Tx) : AcceptedBlockDaSets :=
  if tx.txKind = 0x01 then
    match tx.daCommitCore with
    | some commit =>
      let set := (sets.lookup commit.daId).getD .empty
      sets.insert commit.daId
        { set with commitCount := set.commitCount + 1, chunkCount := commit.chunkCount }
    | none => sets
  else if tx.txKind = 0x02 then
    match tx.daChunkCore with
    | some chunk =>
      let set := (sets.lookup chunk.daId).getD .empty
      sets.insert chunk.daId { set with chunks := insert chunk.chunkIndex set.chunks }
    | none => sets
  else sets

def completeDaSetIdsFromParsedBlock (txs : List Tx) : Except String (List Bytes32) :=
  let sets := txs.foldl recordAcceptedBlockDaTx ∅
  let ids := ((daIdOrder.entries sets).filter fun p => p.2.complete).map Prod.fst
  if ids.length > maxDaBatchesPerBlock then
    .error (s!"complete DA sets in block: {ids.length} exceeds " ++
      s!"MAX_DA_BATCHES_PER_BLOCK={maxDaBatchesPerBlock}")
  else .ok ids

end Rubin.Node
