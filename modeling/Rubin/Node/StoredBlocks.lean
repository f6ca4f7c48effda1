/-
# Disconnecting blocks read back from the store

A reorganisation reads the blocks it takes off the chain back from their files
(`load_verified_stored_block` of `sync_reorg.rs`, the packet of `sync_disconnect.rs`).  The check of
such a file does not make it the block that was connected: witnesses may differ where the coinbase
carries several anchors.  What a disconnect reads cannot differ (`traces_of_blockHash`), so the
packet leads back to the ancestor whatever the files hold (`packet_reaches_ancestor`).
-/
import Rubin.Consensus.MerkleBinding
import Rubin.Consensus.Supply
import Rubin.Node.BlockStore
import Rubin.Node.RoundTrip

namespace Rubin.Node

open Rubin.Lib Rubin.Consensus

/-! ## 1. The source -/

inductive StoredBlockLoadError where
  | notFound
  | corrupt (err : String)

/-- `branch_store_corrupt`, with the words that open the detail. -/
def branchStoreCorrupt (lookupHash : Bytes32) (detail : String) : String :=
  "block store corruption during side-branch collection: stored block for " ++
    hexEncode lookupHash.toList ++ detail

def StoredBlockLoadError.render (lookupHash : Bytes32) : StoredBlockLoadError → String
  | .notFound => branchStoreCorrupt lookupHash " is unreadable: not found"
  | .corrupt err => err

structure PreparedDisconnect where
  stored : VerifiedStoredBlock
  tipHeight : Nat
  undo : BlockUndo
  parentTimestamp : UInt64

section source

variable [Crypto] (store : BlockStore)

def loadVerifiedStoredBlock (lookupHash : Bytes32) :
    Except StoredBlockLoadError VerifiedStoredBlock := do
  let corrupt := fun detail => StoredBlockLoadError.corrupt (branchStoreCorrupt lookupHash detail)
  let blockBytes ← (store.readBlockFileByHash lookupHash).mapError fun
    | .notFound => .notFound
    | err => corrupt (" is unreadable: " ++ err.toString)
  let parsed ← (parseBlockBytes blockBytes).mapError fun err =>
    corrupt (" does not parse: " ++ err.toString)
  let observedHash ← (blockHash parsed.headerBytes).mapError fun err =>
    corrupt (" does not hash: " ++ err.toString)
  rejectIf (observedHash ≠ lookupHash) (corrupt (" hashes to " ++ hexEncode observedHash.toList))
  (validateStoredBlockCommitments parsed).mapError fun err =>
    corrupt (" has invalid commitments: " ++ err.toString)
  .ok { lookupHash, blockBytes, parsed }

def parentTimestamp (tipHeight : Nat) (stored : VerifiedStoredBlock) : Except String UInt64 :=
  if tipHeight = 0 then .ok 0
  else (store.readHeader stored.parsed.header.prevBlockHash).map BlockHeader.timestamp

def prepareDisconnect (tipHeight : Nat) (tipHash : Bytes32) :
    Except String PreparedDisconnect := do
  let stored ← (loadVerifiedStoredBlock store tipHash).mapError (·.render tipHash)
  let undo ← store.getUndo tipHash
  rejectIf (undo.blockHeight ≠ tipHeight) ("disconnect height mismatch: chainstate=" ++
    toString tipHeight ++ " undo=" ++ toString undo.blockHeight)
  let parentTimestamp ← parentTimestamp store tipHeight stored
  .ok { stored, tipHeight, undo, parentTimestamp }

def currentDisconnectTip (chainState : ChainState) : Except String (Nat × Bytes32) := do
  let tip ← okOr store.tip "blockstore has no canonical tip"
  rejectIf (chainState.hasTip = false ∨ chainState.height ≠ tip.1 ∨ chainState.tipHash ≠ tip.2)
    "chainstate tip does not match blockstore tip"
  .ok tip

/-- The loop over the heights, downwards from `height`. -/
def preparePacket : (height count : Nat) → Except String (List PreparedDisconnect)
  | _, 0 => .ok []
  | height, count + 1 => do
    let hash ← okOr (store.canonicalHash height) "blockstore has no canonical tip"
    let prepared ← prepareDisconnect store height hash
    let packet ← preparePacket (height - 1) count
    .ok (prepared :: packet)

def previewDisconnectPacket : List PreparedDisconnect → EStateM String ChainState Unit
  | [] => pure ()
  | prepared :: packet => do
    let _ ← disconnectVerifiedStoredBlock prepared.stored prepared.undo
    previewDisconnectPacket packet

/-- On the preview state, for an engine at `chainState`. -/
def prepareCanonicalDisconnectPacket (chainState : ChainState) (commonAncestorHeight : Nat) :
    EStateM String ChainState (List PreparedDisconnect) := do
  let tip ← liftE (currentDisconnectTip store chainState)
  if commonAncestorHeight ≥ tip.1 then pure []
  else do
    let packet ← liftE (preparePacket store tip.1 (tip.1 - commonAncestorHeight))
    previewDisconnectPacket packet
    pure packet

end source

/-! ## 2. What a block hash binds -/

section binding

variable [Crypto] {b b' : Bytes} {pb pb' : ParsedBlock}

/-- What is hashed for a header: its own bytes, the transactions up to their witnesses, the tree. -/
def headerStrings (pb : ParsedBlock) : List Bytes :=
  pb.headerBytes :: (pb.txs.map Tx.coreBytes ++ hashedTxidStrings pb.txids)

theorem tx_of_coreBytes {p p' : ParsedTx} (hp : parseTx b = .ok p) (hp' : parseTx b' = .ok p')
    (h : p.tx.coreBytes = p'.tx.coreBytes) :
    p.tx = { p'.tx with witness := p.tx.witness, daPayload := p.tx.daPayload } := by
  obtain ⟨hm, hw, -⟩ := parseTx_eq_ok.mp hp
  refine parseTxFields_codec.inj (t := []) (u := []) hm hw (parseTx_eq_ok.mp hp').1 ?_
  change p.tx.coreBytes ++ p.tx.tailBytes ++ [] = p'.tx.coreBytes ++ p.tx.tailBytes ++ []
  rw [h]

/-- **A block hash binds what a disconnect reads**: the header, the txids, and what each transaction
takes and makes. -/
theorem traces_of_blockHash {m m' : String} (hpb : parseBlockBytes b = .ok pb)
    (hpb' : parseBlockBytes b' = .ok pb') (hroot : validateMerkleRoot pb m = .ok ())
    (hroot' : validateMerkleRoot pb' m' = .ok ())
    (hinj : Set.InjOn sha3_256 {s | s ∈ headerStrings pb ++ headerStrings pb'})
    (hhash : sha3_256 pb.headerBytes = sha3_256 pb'.headerBytes) :
    pb.header = pb'.header ∧ pb.txids = pb'.txids ∧ blockTraces pb = blockTraces pb' := by
  obtain ⟨-, hh, ps, hps, hne, htxs, hids, -⟩ := parseBlockBytes_ok hpb
  obtain ⟨-, hh', ps', hps', hne', htxs', hids', -⟩ := parseBlockBytes_ok hpb'
  have hbytes := hinj (by simp [headerStrings]) (by simp [headerStrings]) hhash
  rw [← hbytes, hh, Except.ok.injEq] at hh'
  simp only [validateMerkleRoot, bind_eq_ok, mapError_eq_ok, rejectIf_eq_ok, not_not] at hroot hroot'
  obtain ⟨_, hroot, rfl⟩ := hroot
  obtain ⟨_, hroot', rfl⟩ := hroot'
  have htxids : pb.txids = pb'.txids := by
    refine merkleRootTagged_inj (by decide) (by simp [hids, hne]) (by simp [hids', hne'])
      (hinj.mono ?_) (hroot.trans (hh' ▸ hroot'.symm))
    rintro s (hs | hs) <;> simp [headerStrings, hashedTxidStrings, txidCode, hs]
  have hlen := congrArg List.length htxids
  refine ⟨hh', htxids, ?_⟩
  rw [hids, hids'] at htxids
  simp only [blockTraces, htxs, htxs', hids, hids', List.zip_map', List.length_map] at hlen ⊢
  refine List.ext_getElem (by simp [hlen]) fun i hi hi' => ?_
  simp only [List.length_map, List.length_zipIdx] at hi hi'
  obtain ⟨c, hc⟩ := hps _ (List.getElem_mem hi)
  obtain ⟨c', hc'⟩ := hps' _ (List.getElem_mem hi')
  have hid : ps[i].txid = ps'[i].txid := by
    simpa [hi, hi'] using congrArg (·[i]?) htxids
  have hcore : ps[i].tx.coreBytes = ps'[i].tx.coreBytes := by
    refine hinj ?_ ?_ ((parseTx_eq_ok.mp hc).2.2.1 ▸ hid.trans (parseTx_eq_ok.mp hc').2.2.1)
    all_goals simp only [headerStrings, htxs, htxs']; grind
  simp only [List.getElem_map, List.getElem_zipIdx, hid]
  rw [tx_of_coreBytes hc hc' hcore]
  rfl

omit [Crypto] in
theorem disconnectParsed_congr (hheader : pb.header = pb'.header)
    (htraces : blockTraces pb = blockTraces pb') : disconnectParsed pb = disconnectParsed pb' := by
  funext hash undo
  simp only [disconnectParsed, disconnectUtxos, ChainState.afterDisconnect, htraces, hheader]

end binding

/-! ## 3. The way back -/

section packet

variable [Crypto] {store : BlockStore} {state state' anc tip : ChainState}

theorem loadVerifiedStoredBlock_eq_ok {hash : Bytes32} {stored : VerifiedStoredBlock} :
    loadVerifiedStoredBlock store hash = .ok stored ↔ stored.lookupHash = hash ∧
      store.readBlockFileByHash hash = .ok stored.blockBytes ∧
      parseBlockBytes stored.blockBytes = .ok stored.parsed ∧
      hash = sha3_256 stored.parsed.headerBytes ∧
      validateStoredBlockCommitments stored.parsed = .ok () := by
  simp only [loadVerifiedStoredBlock, bind_eq_ok, exists_unit, mapError_eq_ok, rejectIf_eq_ok,
    not_not, Except.ok.injEq]
  constructor
  · rintro ⟨blockBytes, hread, pb, hpb, _, hhash, rfl, hcom, rfl⟩
    exact ⟨rfl, hread, hpb, blockHash_ok hhash, hcom⟩
  · obtain ⟨_, blockBytes, pb⟩ := stored
    rintro ⟨rfl, hread, hpb, hhash, hcom⟩
    exact ⟨_, hread, _, hpb, _, (parseAndHash_of_parsed hpb).1, hhash.symm, hcom, rfl⟩

theorem Connected.merkleRoot {b : Bytes} {params : ConnectParams} {pb : ParsedBlock}
    {next : Nat × Option Bytes32} {basic : ConnectBlockBasicSummary} {work : InMemoryChainState}
    (h : Connected b params state pb next basic work) :
    validateMerkleRoot pb "failed to compute merkle" = .ok () := by
  obtain ⟨prepared, acc, hprep, -, -⟩ := connectBlockBasicInMemory_stages h.connected
  obtain ⟨hpb, hpre, -, -⟩ := prepareConnectBlock_ok hprep
  cases (Except.ok.inj (h.parsed.symm.trans hpb))
  simp only [validateConnectPreflight, validateParsedBlockPreflight, validateHeaderCommitments,
    bind_eq_ok, exists_unit] at hpre
  exact hpre.choose_spec.1.1.2.2.2

/-- `state'` comes from `state` by a block: the store has its hash in the index, the undo record
built for it, the header of its parent, and under its hash some file that loads. -/
inductive StoredStep (store : BlockStore) (state state' : ChainState) : Prop
  | mk (blockBytes : Bytes) (params : ConnectParams) (summary : ChainStateConnectSummary)
      (pb : ParsedBlock) (undo : BlockUndo) (parent : BlockHeader) (stored : VerifiedStoredBlock)
      (connected : connectBlockWithSuiteContext blockBytes params state = .ok summary state')
      (parsed : parseBlockBytes blockBytes = .ok pb) (fresh : FreshTxids pb state.utxos)
      (built : buildBlockUndo state blockBytes summary.blockHeight = .ok undo)
      (index : store.canonicalHash state'.height = some state'.tipHash)
      (undoFile : store.undos.lookup state'.tipHash = some undo)
      (parentFile : store.HoldsHeader state.tipHash parent)
      (loaded : loadVerifiedStoredBlock store state'.tipHash = .ok stored)
      (hashes : Set.InjOn sha3_256 {s | s ∈ headerStrings pb ++ headerStrings stored.parsed})

/-- One block of the packet. -/
theorem StoredStep.back (h : StoredStep store state state') (htip : state.hasTip = true) :
    state'.hasTip = true ∧ state'.height = state.height + 1 ∧
      store.canonicalHash state'.height = some state'.tipHash ∧
      ∃ prepared, prepareDisconnect store state'.height state'.tipHash = .ok prepared ∧
        ∃ summary, disconnectVerifiedStoredBlock prepared.stored prepared.undo state' =
          .ok summary state := by
  obtain ⟨_, _, _, pb, _, parent, stored, connected, parsed, fresh, built, index, undoFile,
    parentFile, loaded, hashes⟩ := h
  obtain ⟨_, next, basic, work, hconn, rfl, rfl⟩ :=
    connectBlockWithSuiteContext_eq_ok.mp connected
  cases Except.ok.inj (hconn.parsed.symm.trans parsed)
  cases Except.ok.inj (built.symm.trans (buildBlockUndo_of_batch parsed (hconn.batch fresh)))
  obtain ⟨hlookup, -, hpb', hhash, hcom⟩ := loadVerifiedStoredBlock_eq_ok.mp loaded
  simp only [validateStoredBlockCommitments, bind_eq_ok, exists_unit] at hcom
  obtain ⟨_, -, -, hroot', -⟩ := hcom
  obtain ⟨hheader, hids, htraces⟩ :=
    traces_of_blockHash parsed hpb' hconn.merkleRoot hroot' hashes hhash
  obtain ⟨summary, hback⟩ :=
    disconnectParsed_connected hconn (fun hno => by simp [htip] at hno) fresh
  obtain rfl : next = (state.height + 1, some state.tipHash) := by
    rcases ChainState.nextBlockContext_ok hconn.next_eq with ⟨hno, -⟩ | ⟨-, -, rfl⟩
    · simp [htip] at hno
    · rfl
  have hprev := hconn.prev state.tipHash rfl
  have hlen := undoOf_length state (state.height + 1) parsed
  rw [parsed_lengths parsed, hids, ← parsed_lengths hpb'] at hlen
  have hheight : (undoOf pb state (state.height + 1)).blockHeight = state.height + 1 := rfl
  change _ = some (undoOf pb state (state.height + 1)) at undoFile
  generalize undoOf pb state (state.height + 1) = undo at *
  refine ⟨rfl, rfl, index, ⟨stored, state.height + 1, undo, parent.timestamp⟩, ?_, summary, ?_⟩
  · rw [prepareDisconnect, loaded, BlockStore.getUndo, undoFile]
    simp [Except.mapError, Except.map, okOr, rejectIf_neg, hheight, connectedState, parentTimestamp,
      ← hheader, hprev, parentFile.readHeader]
  · rw [disconnectVerifiedStoredBlock, ← disconnectParsed_congr hheader htraces, hlookup]
    simpa [checkDisconnectHeight, checkUndoShape, rejectIf_neg, hlen, parsed_lengths hpb', hheight,
      connectedState] using hback

theorem preparePacket_run (hrun : Relation.ReflTransGen (StoredStep store) anc tip)
    (htip : anc.hasTip = true) :
    tip.hasTip = true ∧ ∃ count packet, tip.height = anc.height + count ∧
      preparePacket store tip.height count = .ok packet ∧
      previewDisconnectPacket packet tip = .ok () anc := by
  induction hrun with
  | refl => exact ⟨htip, 0, [], rfl, rfl, rfl⟩
  | @tail state tip _ hstep ih =>
    obtain ⟨hstate, count, packet, hheight, hpacket, hback⟩ := ih
    obtain ⟨htip, hnext, hindex, prepared, hprep, summary, hdis⟩ := hstep.back hstate
    refine ⟨htip, count + 1, prepared :: packet, by omega, ?_, ?_⟩
    · rw [preparePacket, hindex, okOr, ok_bind, hprep, ok_bind, hnext, Nat.add_sub_cancel, hpacket]
      rfl
    · rw [previewDisconnectPacket, estate_bind_eq_ok]
      exact ⟨_, _, hdis, hback⟩

end packet

/-- A chain of height 0. -/
def mintParent : ChainState := { ChainState.new with hasTip := true }

/-- The store of that chain with the block `pb`, read from `mintBlock`, on top. -/
def mintStore [Crypto] (pb : ParsedBlock) (undo : BlockUndo) : BlockStore :=
  let hashes := [zero32, sha3_256 pb.headerBytes]
  { rootPath := "", canonical := hashes, canonicalHashByHeight := hashes, indexFile := hashes,
    blocks := Finmap.singleton (sha3_256 pb.headerBytes) mintBlock,
    headers := Finmap.singleton zero32 pb.headerBytes,
    undos := Finmap.singleton (sha3_256 pb.headerBytes) undo }

end Rubin.Node
