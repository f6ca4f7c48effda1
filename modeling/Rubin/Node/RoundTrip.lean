/-
# Connect, then disconnect

A connected block is a batch of changes of the UTXO set (`connected_batch`), provided its txids are
new.  The undo builder writes the log of that batch and the disconnect rewinds it, so a block that
was connected comes off again and leaves the state from before (`disconnectParsed_connected`).
-/
import Rubin.Node.Undo

namespace Rubin.Node

open Rubin.Lib Rubin.Consensus

/-! ## 1. A transaction as a change -/

theorem createdOutputs_keys (txid : Bytes32) (height : Nat) (cb : Bool) (outputs : List TxOutput) :
    (createdOutputs txid height cb outputs).map Prod.fst =
      (outputs.zipIdx.filter fun q => isSpendableOutput q.1.covenantType).map
        fun q => ⟨txid, UInt32.ofNat q.2⟩ := by
  have hspend : ∀ t : UInt16, (!isUnspendable t) = isSpendableOutput t := by
    intro t
    simp [isUnspendable, isSpendableOutput, bne]
  simp only [createdOutputs, createdFrom, hspend, List.map_map]
  rfl

variable {height : Nat}

theorem txid_of_created {txid : Bytes32} {cb : Bool} {outputs : List TxOutput} {op : Outpoint}
    (h : op ∈ (createdOutputs txid height cb outputs).map Prod.fst) : op.txid = txid := by
  rw [createdOutputs_keys, List.mem_map] at h
  obtain ⟨q, -, rfl⟩ := h
  rfl

theorem createdOutputs_keys_nodup (txid : Bytes32) (height : Nat) (cb : Bool)
    {outputs : List TxOutput} (h : outputs.length ≤ maxTxOutputs) :
    ((createdOutputs txid height cb outputs).map Prod.fst).Nodup := by
  rw [createdOutputs_keys]
  have hall : (outputs.zipIdx.map fun q => (⟨txid, UInt32.ofNat q.2⟩ : Outpoint)).Nodup := by
    have hidx : outputs.zipIdx.map (fun q => (⟨txid, UInt32.ofNat q.2⟩ : Outpoint)) =
        (List.range' 0 outputs.length).map fun i => ⟨txid, UInt32.ofNat i⟩ := by
      rw [← List.zipIdx_map_snd, List.map_map]
      rfl
    rw [hidx]
    refine List.Nodup.map_on ?_ List.nodup_range'
    intro i hi j hj hij
    have hmax : maxTxOutputs < UInt32.size := by decide
    simp only [List.mem_range'_1, Nat.zero_add, Nat.zero_le, true_and] at hi hj
    have hij' : UInt32.ofNat i = UInt32.ofNat j := (Outpoint.mk.injEq .. ▸ hij).2
    have hnat := congrArg UInt32.toNat hij'
    rwa [UInt32.toNat_ofNat_of_lt' (by omega), UInt32.toNat_ofNat_of_lt' (by omega)] at hnat
  exact hall.sublist (List.filter_sublist.map _)

def txChange (height : Nat) (p : (Tx × Bytes32) × Nat) : Change Outpoint UtxoEntry :=
  { spends := (TxTrace.of p).spends
    creates := createdOutputs p.1.2 height (decide (p.2 = 0)) p.1.1.outputs }

def blockChanges (pb : ParsedBlock) (height : Nat) : List (Change Outpoint UtxoEntry) :=
  (pb.txs.zip pb.txids).zipIdx.map (txChange height)

theorem blockChanges_traces (pb : ParsedBlock) (height : Nat) :
    (blockChanges pb height).map traceOf = blockTraces pb := by
  rw [blockChanges, blockTraces, List.map_map]
  refine List.map_congr_left fun p _ => ?_
  rw [Function.comp_apply, traceOf, Change.keys, txChange, createdOutputs_keys]
  rfl

/-! ## 2. A block as a batch -/

section batch

variable [Crypto]

theorem applyBlockTxs_batch {ctx : BlockApplyContext} : ∀ {l : List (Tx × Bytes32)} {k : Nat}
    {own : List Outpoint} {acc acc' : BlockAccum}, l.foldlM (applyBlockTx ctx) acc = .ok acc' →
    (l.map Prod.snd).Nodup → (∀ op, op ∈ acc.utxos → op.txid ∉ l.map Prod.snd) →
    (∀ op ∈ own, op.txid ∉ l.map Prod.snd) → (∀ p ∈ l, p.1.outputs.length ≤ maxTxOutputs) →
      Batch own acc.utxos ((l.zipIdx (k + 1)).map (txChange ctx.blockHeight)) acc'.utxos
  | [], k, own, acc, acc', h, _, _, _, _ => by
    cases h
    exact .nil own acc.utxos
  | p :: l, k, own, acc, acc', h, hnodup, hmap, hown, hout => by
    rw [List.foldlM_cons, bind_eq_ok] at h
    obtain ⟨acc₁, h1, h2⟩ := h
    obtain ⟨res, hres, hutxos, -⟩ := applyBlockTx_ok h1
    obtain ⟨s', hres⟩ := applyNonCoinbaseTx_ok hres
    obtain ⟨hinputs, hpresent, hset, -⟩ := applyNonCoinbaseTxImpl_ok hres
    rw [List.map_cons, List.nodup_cons] at hnodup
    rw [List.map_cons] at hmap hown
    rw [List.forall_mem_cons] at hout
    have happ : acc₁.utxos = (txChange ctx.blockHeight (p, k + 1)).apply acc.utxos := by
      rw [hutxos, hset]
      rfl
    have hkeys : ∀ op ∈ (txChange ctx.blockHeight (p, k + 1)).keys, op.txid = p.2 :=
      fun op hop => txid_of_created hop
    rw [List.zipIdx_cons, List.map_cons]
    refine .cons ?_ hinputs ?_ (createdOutputs_keys_nodup _ _ _ hout.1) ?_
    · intro op hop
      obtain ⟨input, hinput, rfl⟩ := List.mem_map.mp hop
      exact hpresent input hinput
    · intro op hop
      refine ⟨fun hm => hmap op hm ?_, fun ho => hown op ho ?_⟩
      all_goals rw [hkeys op hop]; exact List.mem_cons_self
    · rw [← happ]
      refine applyBlockTxs_batch h2 hnodup.2 ?_ ?_ hout.2
      · intro op hop
        rw [happ, Change.mem_apply] at hop
        rcases hop with hop | ⟨hop, -⟩
        · rw [hkeys op hop]
          exact hnodup.1
        · exact fun h => hmap op hop (List.mem_cons_of_mem _ h)
      · intro op hop
        rcases List.mem_append.mp hop with hop | hop
        · exact fun h => hown op hop (List.mem_cons_of_mem _ h)
        · rw [hkeys op hop]
          exact hnodup.1

/-- The txids of a block are new to a state. -/
structure FreshTxids (pb : ParsedBlock) (utxos : UtxoSet) : Prop where
  nodup : pb.txids.Nodup
  absent : ∀ op, op ∈ utxos → op.txid ∉ pb.txids

variable {blockBytes : Bytes} {pb : ParsedBlock} {state : ChainState} {params : ConnectParams}
  {next : Nat × Option Bytes32} {basic : ConnectBlockBasicSummary} {work : InMemoryChainState}

/-- **A connected block is a batch** of changes of the UTXO set. -/
theorem connected_batch {utxos : UtxoSet} {ctx : BlockApplyContext} {acc : BlockAccum}
    (hpb : parseBlockBytes blockBytes = .ok pb) (hfresh : FreshTxids pb utxos)
    (h : applyCoinbaseThenNonCoinbaseTxsSequential pb utxos ctx = .ok acc) :
    Batch [] utxos (blockChanges pb ctx.blockHeight) acc.utxos := by
  rw [applyCoinbaseThenNonCoinbaseTxsSequential, bind_eq_ok] at h
  obtain ⟨work, hwork, hrun⟩ := h
  obtain ⟨coinbase, txid, hcb, hid, rfl⟩ := applyCoinbaseOutputs_ok hwork
  have houts : ∀ tx ∈ pb.txs, tx.outputs.length ≤ maxTxOutputs :=
    fun tx htx => (parsed_wellFormed hpb tx htx).outputs
  have hnodup := hfresh.nodup
  have habsent := hfresh.absent
  have hlen := parsed_lengths hpb
  rw [applyNonCoinbaseTxsSequential, ParsedBlock.nonCoinbase] at hrun
  rw [blockChanges]
  generalize pb.txs = txs at *
  generalize pb.txids = txids at *
  obtain ⟨txs', rfl⟩ := List.head?_eq_some_iff.mp hcb
  obtain ⟨txids', rfl⟩ := List.head?_eq_some_iff.mp hid
  rw [List.zip_cons_cons, List.tail_cons] at hrun
  rw [List.zip_cons_cons, List.zipIdx_cons, List.map_cons]
  have hsnd : (txs'.zip txids').map Prod.snd = txids' :=
    List.map_snd_zip (Nat.le_of_succ_le_succ (le_of_eq hlen.symm))
  rw [List.nodup_cons] at hnodup
  rw [List.forall_mem_cons] at houts
  have hkeys : ∀ op ∈ (txChange ctx.blockHeight ((coinbase, txid), 0)).keys, op.txid = txid :=
    fun op hop => txid_of_created hop
  refine .cons (fun op hop => by cases hop) List.nodup_nil ?_
    (createdOutputs_keys_nodup _ _ _ houts.1) ?_
  · intro op hop
    refine ⟨fun hm => habsent op hm ?_, List.not_mem_nil⟩
    rw [hkeys op hop]
    exact List.mem_cons_self
  · refine applyBlockTxs_batch hrun ?_ ?_ ?_ fun p hp => houts.2 _ (List.of_mem_zip hp).1
    · rw [hsnd]
      exact hnodup.2
    · intro op hop
      rw [hsnd]
      rcases Change.mem_apply.mp (show op ∈ (txChange ctx.blockHeight ((coinbase, txid), 0)).apply
        utxos from hop) with hop | ⟨hop, -⟩
      · rw [hkeys op hop]
        exact hnodup.1
      · exact fun h => habsent op hop (List.mem_cons_of_mem _ h)
    · intro op hop
      rw [List.nil_append] at hop
      rw [hsnd, hkeys op hop]
      exact hnodup.1

/-! ## 3. The round trip -/

/-- The undo record of a block at `utxos`. -/
def undoOf (pb : ParsedBlock) (state : ChainState) (height : Nat) : BlockUndo :=
  { blockHeight := height, previousAlreadyGenerated := state.alreadyGenerated,
    txs := (undoLog [] state.utxos (blockChanges pb height)).map txUndoOf }

theorem buildBlockUndo_of_batch {after : UtxoSet} (hpb : parseBlockBytes blockBytes = .ok pb)
    (h : Batch [] state.utxos (blockChanges pb height) after) :
    buildBlockUndo state blockBytes height = .ok (undoOf pb state height) := by
  have htr : UndoSets.Tracks ⟨∅, ∅⟩ state.utxos [] state.utxos :=
    ⟨fun op => by simp, fun op _ => by simp⟩
  obtain ⟨sets', hrun⟩ := @undoTxs_ok _ _ _ _ _ h _ [] htr
  rw [blockChanges_traces] at hrun
  simp only [buildBlockUndo, hpb, Except.mapError, ok_bind,
    rejectIf_neg (not_not.mpr (parsed_lengths hpb)), hrun, undoOf, List.nil_append]

omit [Crypto] in
theorem disconnectUtxos_of_batch {after : UtxoSet}
    (h : Batch [] state.utxos (blockChanges pb height) after) :
    disconnectUtxos pb (undoOf pb state height) after = .ok state.utxos := by
  have hsame := (@subset_sameBlockSpent (blockChanges pb height) [] (∅, ∅) (by simp)).1
  obtain ⟨restored, hrun, -⟩ := disconnectTxs_ok h hsame
  rw [h.rewind_eq, blockChanges_traces] at hrun
  simp only [disconnectUtxos, undoOf, sameBlockSpentOutpoints, hrun, ok_bind]

theorem Connected.prev (h : Connected blockBytes params state pb next basic work) :
    ∀ prev ∈ next.2, pb.header.prevBlockHash = prev := by
  obtain ⟨prepared, acc, hprep, -, -⟩ := connectBlockBasicInMemory_stages h.connected
  obtain ⟨hpb, hpre, -, -⟩ := prepareConnectBlock_ok hprep
  cases (Except.ok.inj (h.parsed.symm.trans hpb))
  simp only [validateConnectPreflight, validateParsedBlockPreflight, validateHeaderCommitments,
    bind_eq_ok, exists_unit, rejectIf_eq_ok] at hpre
  obtain ⟨_, ⟨⟨-, -, hprev, -⟩, -⟩, -⟩ := hpre
  intro prev hmem
  by_contra hne
  exact hprev ⟨prev, hmem, hne⟩

theorem Connected.batch (h : Connected blockBytes params state pb next basic work)
    (hfresh : FreshTxids pb state.utxos) :
    Batch [] state.utxos (blockChanges pb next.1) work.utxos := by
  obtain ⟨prepared, acc, hprep, happ, hfin⟩ := connectBlockBasicInMemory_stages h.connected
  obtain ⟨hpb, -, hheight, -⟩ := prepareConnectBlock_ok hprep
  cases (Except.ok.inj (h.parsed.symm.trans hpb))
  obtain ⟨-, -, rfl⟩ := finalizeConnectedBlock_ok hfin
  have hb := connected_batch h.parsed hfresh happ
  rw [show (prepared.applyContext (params.context next)).blockHeight = next.1 from hheight] at hb
  exact hb

/-- Without a tip, height and tip hash are at their initial values. -/
def ChainState.Tidy (state : ChainState) : Prop :=
  state.hasTip = false → state.height = 0 ∧ state.tipHash = zero32

/-- **A connected block comes off again**, and leaves the state from before. -/
theorem disconnectParsed_connected (h : Connected blockBytes params state pb next basic work)
    (htidy : state.Tidy) (hfresh : FreshTxids pb state.utxos) :
    ∃ summary, disconnectParsed pb (sha3_256 pb.headerBytes) (undoOf pb state next.1)
      (connectedState next pb work) = .ok summary state := by
  have hwork := disconnectUtxos_of_batch (h.batch hfresh)
  have hback : (connectedState next pb work).afterDisconnect pb (undoOf pb state next.1)
      state.utxos = state := by
    rcases ChainState.nextBlockContext_ok h.next_eq with ⟨htip, rfl⟩ | ⟨htip, -, rfl⟩
    · obtain ⟨hheight, hhash⟩ := htidy htip
      simp only [ChainState.afterDisconnect, connectedState, undoOf, if_true, ← hheight, ← hhash,
        ← htip]
    · simp only [ChainState.afterDisconnect, connectedState, undoOf, Nat.add_sub_cancel,
        h.prev state.tipHash rfl, Nat.succ_ne_zero, if_false, ← htip]
  have htip : (connectedState next pb work).tipHash = sha3_256 pb.headerBytes := rfl
  obtain ⟨summary, hok⟩ := disconnectParsed_of_ok htip hwork
  rw [hback] at hok
  exact ⟨summary, hok⟩

theorem disconnectBlock_of_parsed {undo : BlockUndo} (hpb : parseBlockBytes blockBytes = .ok pb)
    (htip : state.hasTip = true) (hheight : state.height = undo.blockHeight)
    (hlen : undo.txs.length = pb.txs.length) :
    disconnectBlock blockBytes undo state =
      disconnectParsed pb (sha3_256 pb.headerBytes) undo state := by
  have hdown : checkDisconnectHeight state undo = .ok () := by
    rw [checkDisconnectHeight, rejectIf_neg (by simp [htip]), ok_bind,
      rejectIf_neg (not_not.mpr hheight)]
  have hshape : checkUndoShape pb undo = .ok () := by
    rw [checkUndoShape, rejectIf_neg (not_not.mpr (parsed_lengths hpb)), ok_bind,
      rejectIf_neg (not_not.mpr hlen)]
  rw [disconnectBlock, estate_get_bind, hdown, liftE_ok_bind, hpb]
  change (liftE (checkUndoShape pb undo) >>= _) state = _
  rw [hshape, liftE_ok_bind, (parseAndHash_of_parsed hpb).1]
  rfl

theorem undoOf_length (state : ChainState) (height : Nat)
    (hpb : parseBlockBytes blockBytes = .ok pb) :
    (undoOf pb state height).txs.length = pb.txs.length := by
  simp [undoOf, blockChanges, parsed_lengths hpb]

/-- **Connect then disconnect is the identity**, on every state without a tip at its initial
height and hash, for every accepted block whose txids are new; and a disconnect that fails changes
nothing, whatever the state, the block and the record. -/
theorem connect_disconnect_identity :
    (∀ (blockBytes : Bytes) (params : ConnectParams) (state state' : ChainState)
        (summary : ChainStateConnectSummary),
      connectBlockWithSuiteContext blockBytes params state = .ok summary state' →
      state.Tidy →
      (∀ pb, parseBlockBytes blockBytes = .ok pb → FreshTxids pb state.utxos) →
        ∃ undo, buildBlockUndo state blockBytes summary.blockHeight = .ok undo ∧
          ∃ disconnected, disconnectBlock blockBytes undo state' = .ok disconnected state) ∧
    ∀ (blockBytes : Bytes) (undo : BlockUndo) (state state' : ChainState) (e : String),
      disconnectBlock blockBytes undo state = .error e state' → state' = state := by
  refine ⟨?_, fun blockBytes undo state state' e => disconnectBlock_error⟩
  intro blockBytes params state state' summary h htidy hfresh
  obtain ⟨pb, next, basic, work, hconn, rfl, rfl⟩ := connectBlockWithSuiteContext_eq_ok.mp h
  have hpb := hconn.parsed
  obtain ⟨disconnected, hback⟩ := disconnectParsed_connected hconn htidy (hfresh pb hpb)
  refine ⟨undoOf pb state next.1, buildBlockUndo_of_batch hpb (hconn.batch (hfresh pb hpb)),
    disconnected, ?_⟩
  rw [disconnectBlock_of_parsed hpb rfl rfl (undoOf_length state next.1 hpb)]
  exact hback

end batch

/-! ## 4. The published genesis block -/

def devnetParams : ConnectParams :=
  { expectedTarget := none, prevTimestamps := none, chainId := devnetGenesisChainId,
    rotation := none, registry := none }

theorem devnetGenesis_fresh (state : ChainState) (hutxos : state.utxos = ∅) :
    letI : Crypto := Crypto.sha3With fun _ _ _ => .ok true
    ∀ pb, parseBlockBytes devnetGenesisBlockBytes = .ok pb → FreshTxids pb state.utxos := by
  let _ : Crypto := Crypto.sha3With fun _ _ _ => .ok true
  have hone : (parseBlockBytes devnetGenesisBlockBytes).toOption.map
      (fun pb => pb.txids.length) = some 1 := by decide +kernel
  intro pb hpb
  rw [hpb] at hone
  obtain ⟨id, hid⟩ := List.length_eq_one_iff.mp (Option.some.inj hone)
  refine ⟨by rw [hid]; exact List.nodup_singleton id, fun op hop => ?_⟩
  rw [hutxos] at hop
  exact absurd hop Finmap.notMem_empty

theorem connect_disconnect_identity_genesis :
    letI : Crypto := Crypto.sha3With fun _ _ _ => .ok true
    ∃ summary state', connectBlockWithSuiteContext devnetGenesisBlockBytes devnetParams
        ChainState.new = .ok summary state' ∧
      ∃ undo, buildBlockUndo ChainState.new devnetGenesisBlockBytes summary.blockHeight = .ok undo ∧
        ∃ disconnected, disconnectBlock devnetGenesisBlockBytes undo state' =
          .ok disconnected ChainState.new := by
  let _ : Crypto := Crypto.sha3With fun _ _ _ => .ok true
  have hok : accepted (connectBlockWithSuiteContext devnetGenesisBlockBytes devnetParams
      ChainState.new) = true := by decide +kernel
  obtain ⟨summary, state', h⟩ := exists_of_accepted hok
  exact ⟨summary, state', h, connect_disconnect_identity.1 _ _ _ _ _ h (fun _ => ⟨rfl, rfl⟩)
    (devnetGenesis_fresh ChainState.new rfl)⟩

/-- The state a block leaves that is connected, undone and disconnected. -/
def connectAndUndo [Crypto] (blockBytes : Bytes) (params : ConnectParams) (state : ChainState) :
    Except String ChainState := do
  let connected ← onCopy (connectBlockWithSuiteContext blockBytes params) state
  let undo ← buildBlockUndo state blockBytes connected.1.blockHeight
  let disconnected ← onCopy (disconnectBlock blockBytes undo) connected.2
  .ok disconnected.2

/-- No tip, but a height left over. -/
def staleState : ChainState := { ChainState.new with height := 7 }

/-- A disconnect of the genesis block leaves height zero, also where the height was not zero. -/
theorem stale_height_not_restored :
    letI : Crypto := Crypto.sha3With fun _ _ _ => .ok true
    (∀ pb, parseBlockBytes devnetGenesisBlockBytes = .ok pb → FreshTxids pb staleState.utxos) ∧
      ∃ summary state', connectBlockWithSuiteContext devnetGenesisBlockBytes devnetParams
          staleState = .ok summary state' ∧
        ¬ ∃ undo, buildBlockUndo staleState devnetGenesisBlockBytes summary.blockHeight =
            .ok undo ∧
          ∃ disconnected, disconnectBlock devnetGenesisBlockBytes undo state' =
            .ok disconnected staleState := by
  let _ : Crypto := Crypto.sha3With fun _ _ _ => .ok true
  have hok : accepted (connectBlockWithSuiteContext devnetGenesisBlockBytes devnetParams
      staleState) = true := by decide +kernel
  have hrun : (connectAndUndo devnetGenesisBlockBytes devnetParams staleState).toOption.map
      ChainState.height = some 0 := by decide +kernel
  obtain ⟨summary, state', h⟩ := exists_of_accepted hok
  refine ⟨devnetGenesis_fresh staleState rfl, summary, state', h, ?_⟩
  rintro ⟨undo, hundo, disconnected, hback⟩
  rw [connectAndUndo, onCopy_eq_ok.mpr h, ok_bind, hundo, ok_bind, onCopy_eq_ok.mpr hback,
    ok_bind] at hrun
  cases hrun

end Rubin.Node
