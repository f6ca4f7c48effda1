/-
# Undo records and disconnecting a block

`undo.rs`, and `disconnect_verified_stored_block` of `sync_disconnect.rs`, which repeats the
disconnect on a block that is already parsed.

Both the undo builder and the two disconnects walk a block through the same two lists per
transaction: the outpoints it takes and the outpoints it makes.  `TxTrace` is that pair, so that the
rule for outputs that never enter the set stands in one place of the model as it stands in
`is_spendable_output`.  `HashSet`s are finite sets.
-/
import Rubin.Lib.UndoLog
import Rubin.Node.ChainState

namespace Rubin.Node

open Rubin.Lib Rubin.Consensus

/-! ## 1. The data -/

structure SpentUndo where
  outpoint : Outpoint
  entry : UtxoEntry
deriving DecidableEq, Repr

structure TxUndo where
  spent : List SpentUndo
deriving DecidableEq, Repr

structure BlockUndo where
  blockHeight : Nat
  previousAlreadyGenerated : Nat
  txs : List TxUndo
deriving DecidableEq, Repr

structure ChainStateDisconnectSummary where
  disconnectedHeight : Nat
  blockHash : Bytes32
  newHeight : Nat
  newTipHash : Bytes32
  hasTip : Bool
  alreadyGenerated : Nat
  utxoCount : Nat
deriving DecidableEq, Repr

def isSpendableOutput (covenantType : UInt16) : Bool :=
  covenantType != covTypeAnchor && covenantType != covTypeDaCommit

/-- The outpoint as the error texts show it. -/
def outpointText (op : Outpoint) : String :=
  hexEncode op.txid.toList ++ ":" ++ toString op.vout.toNat

/-- The outpoints a transaction takes and makes. -/
structure TxTrace where
  spends : List Outpoint
  creates : List Outpoint

/-- The coinbase, at index 0, has no real inputs. -/
def TxTrace.of (p : (Tx × Bytes32) × Nat) : TxTrace :=
  { spends := if p.2 > 0 then p.1.1.inputs.map TxInput.outpoint else []
    creates := (p.1.1.outputs.zipIdx.filter fun q => isSpendableOutput q.1.covenantType).map
      fun q => ⟨p.1.2, UInt32.ofNat q.2⟩ }

def blockTraces (pb : ParsedBlock) : List TxTrace := (pb.txs.zip pb.txids).zipIdx.map TxTrace.of

/-! ## 2. Building the record -/

structure UndoSets where
  spentPrevOutpoints : Finset Outpoint
  blockOutputs : Finset Outpoint

def undoInput (prev : UtxoSet) (acc : UndoSets × List SpentUndo) (op : Outpoint) :
    Except String (UndoSets × List SpentUndo) :=
  if op ∈ acc.1.blockOutputs then
    .ok ({ acc.1 with blockOutputs := acc.1.blockOutputs.erase op }, acc.2)
  else do
    let entry ← okOr (prev.lookup op) ("undo missing utxo for " ++ outpointText op)
    rejectIf (op ∈ acc.1.spentPrevOutpoints)
      ("undo duplicate prev-state spend for " ++ outpointText op)
    .ok ({ acc.1 with spentPrevOutpoints := insert op acc.1.spentPrevOutpoints },
      acc.2 ++ [⟨op, entry⟩])

def undoTx (prev : UtxoSet) (acc : UndoSets × List TxUndo) (trace : TxTrace) :
    Except String (UndoSets × List TxUndo) := do
  let r ← trace.spends.foldlM (undoInput prev) (acc.1, [])
  .ok ({ r.1 with blockOutputs := r.1.blockOutputs ∪ trace.creates.toFinset }, acc.2 ++ [⟨r.2⟩])

def buildBlockUndo [Crypto] (prevState : ChainState) (blockBytes : Bytes) (blockHeight : Nat) :
    Except String BlockUndo := do
  let pb ← (parseBlockBytes blockBytes).mapError TxError.toString
  rejectIf (pb.txs.length ≠ pb.txids.length) "parsed block txid length mismatch"
  let r ← (blockTraces pb).foldlM (undoTx prevState.utxos) (⟨∅, ∅⟩, [])
  .ok { blockHeight, previousAlreadyGenerated := prevState.alreadyGenerated, txs := r.2 }

/-! ## 3. Disconnecting -/

/-- The first pass: outpoints created so far, and those among them that were spent. -/
def markSameBlockSpent (acc : Finset Outpoint × Finset Outpoint) (trace : TxTrace) :
    Finset Outpoint × Finset Outpoint :=
  (acc.1 ∪ trace.creates.toFinset, acc.2 ∪ (trace.spends.filter (· ∈ acc.1)).toFinset)

def sameBlockSpentOutpoints (traces : List TxTrace) : Finset Outpoint :=
  (traces.foldl markSameBlockSpent (∅, ∅)).2

def removeCreated (sameBlockSpent : Finset Outpoint) (work : UtxoSet) (op : Outpoint) :
    Except String UtxoSet := do
  rejectIf (op ∉ work ∧ op ∉ sameBlockSpent)
    ("disconnect missing created output for " ++ outpointText op)
  .ok (work.erase op)

def restoreSpent (acc : UtxoSet × Finset Outpoint) (spent : SpentUndo) :
    Except String (UtxoSet × Finset Outpoint) := do
  rejectIf (spent.outpoint ∈ acc.2)
    ("undo duplicate restore entry for " ++ outpointText spent.outpoint)
  rejectIf (spent.outpoint ∈ acc.1)
    ("undo restore target already present for " ++ outpointText spent.outpoint)
  .ok (acc.1.insert spent.outpoint spent.entry, insert spent.outpoint acc.2)

def disconnectTx (sameBlockSpent : Finset Outpoint) (acc : UtxoSet × Finset Outpoint)
    (p : TxTrace × TxUndo) : Except String (UtxoSet × Finset Outpoint) := do
  let work ← p.1.creates.foldlM (removeCreated sameBlockSpent) acc.1
  p.2.spent.foldlM restoreSpent (work, acc.2)

/-- The second pass, over the transactions in reverse order. -/
def disconnectUtxos (pb : ParsedBlock) (undo : BlockUndo) (utxos : UtxoSet) :
    Except String UtxoSet := do
  let traces := blockTraces pb
  let r ← (traces.zip undo.txs).reverse.foldlM (disconnectTx (sameBlockSpentOutpoints traces))
    (utxos, ∅)
  .ok r.1

def checkDisconnectHeight (state : ChainState) (undo : BlockUndo) : Except String Unit := do
  rejectIf (state.hasTip = false) "chainstate has no tip"
  rejectIf (state.height ≠ undo.blockHeight) ("disconnect height mismatch: chainstate=" ++
    toString state.height ++ " undo=" ++ toString undo.blockHeight)

def checkUndoShape (pb : ParsedBlock) (undo : BlockUndo) : Except String Unit := do
  rejectIf (pb.txs.length ≠ pb.txids.length) "parsed block txid length mismatch"
  rejectIf (undo.txs.length ≠ pb.txs.length) "undo tx count mismatch"

def ChainState.afterDisconnect (state : ChainState) (pb : ParsedBlock) (undo : BlockUndo)
    (work : UtxoSet) : ChainState :=
  if state.height = 0 then
    { hasTip := false, height := 0, tipHash := zero32,
      alreadyGenerated := undo.previousAlreadyGenerated, utxos := work }
  else
    { hasTip := state.hasTip, height := state.height - 1, tipHash := pb.header.prevBlockHash,
      alreadyGenerated := undo.previousAlreadyGenerated, utxos := work }

/-- The part the two disconnects share: the tip check, the two passes, the commit. -/
def disconnectParsed (pb : ParsedBlock) (hash : Bytes32) (undo : BlockUndo) :
    EStateM String ChainState ChainStateDisconnectSummary := do
  let state ← get
  liftE (rejectIf (state.tipHash ≠ hash) "disconnect block is not current tip")
  let work ← liftE (disconnectUtxos pb undo state.utxos)
  set (state.afterDisconnect pb undo work)
  let state ← get
  pure { disconnectedHeight := undo.blockHeight, blockHash := hash, newHeight := state.height,
         newTipHash := state.tipHash, hasTip := state.hasTip,
         alreadyGenerated := state.alreadyGenerated, utxoCount := state.utxos.len }

def disconnectBlock [Crypto] (blockBytes : Bytes) (undo : BlockUndo) :
    EStateM String ChainState ChainStateDisconnectSummary := do
  let state ← get
  liftE (checkDisconnectHeight state undo)
  let pb ← liftE ((parseBlockBytes blockBytes).mapError TxError.toString)
  liftE (checkUndoShape pb undo)
  let hash ← liftE ((blockHash pb.headerBytes).mapError TxError.toString)
  disconnectParsed pb hash undo

/-- One bounded stored-block read and the parse of those exact bytes. -/
structure VerifiedStoredBlock where
  lookupHash : Bytes32
  blockBytes : Bytes
  parsed : ParsedBlock

def disconnectVerifiedStoredBlock (stored : VerifiedStoredBlock) (undo : BlockUndo) :
    EStateM String ChainState ChainStateDisconnectSummary := do
  let state ← get
  liftE (checkDisconnectHeight state undo)
  liftE (checkUndoShape stored.parsed undo)
  disconnectParsed stored.parsed stored.lookupHash undo

/-! ## 4. Failure leaves the state alone -/

theorem disconnectParsed_of_ok {pb : ParsedBlock} {hash : Bytes32} {undo : BlockUndo}
    {state : ChainState} {work : UtxoSet} (htip : state.tipHash = hash)
    (hwork : disconnectUtxos pb undo state.utxos = .ok work) :
    ∃ summary, disconnectParsed pb hash undo state =
      .ok summary (state.afterDisconnect pb undo work) := by
  simp only [disconnectParsed, estate_get_bind, rejectIf_neg (not_not.mpr htip), liftE_ok_bind,
    hwork, estate_set_bind]
  exact ⟨_, rfl⟩

theorem disconnectParsed_error {pb : ParsedBlock} {hash : Bytes32} {undo : BlockUndo}
    {state state' : ChainState} {e : String}
    (h : disconnectParsed pb hash undo state = .error e state') : state' = state := by
  simp only [disconnectParsed, estate_get_bind, estate_set_bind, estate_bind_eq_error,
    liftE_eq_error, liftE_eq_ok] at h
  rcases h with ⟨-, rfl⟩ | ⟨_, _, ⟨-, rfl⟩, ⟨-, rfl⟩ | ⟨_, _, ⟨-, rfl⟩, h⟩⟩
  · rfl
  · rfl
  · cases h

theorem disconnectBlock_error [Crypto] {blockBytes : Bytes} {undo : BlockUndo}
    {state state' : ChainState} {e : String}
    (h : disconnectBlock blockBytes undo state = .error e state') : state' = state := by
  simp only [disconnectBlock, estate_get_bind, estate_bind_eq_error, liftE_eq_error,
    liftE_eq_ok] at h
  rcases h with ⟨-, rfl⟩ | ⟨_, _, ⟨-, rfl⟩, ⟨-, rfl⟩ | ⟨_, _, ⟨-, rfl⟩, ⟨-, rfl⟩ |
    ⟨_, _, ⟨-, rfl⟩, ⟨-, rfl⟩ | ⟨_, _, ⟨-, rfl⟩, h⟩⟩⟩⟩
  · rfl
  · rfl
  · rfl
  · rfl
  · exact disconnectParsed_error h

/-! ## 5. The two walks follow the undo log of a batch -/

def traceOf (c : Change Outpoint UtxoEntry) : TxTrace := ⟨c.spends, c.keys⟩

def spentOf (p : Outpoint × UtxoEntry) : SpentUndo := ⟨p.1, p.2⟩

/-- The record that belongs to one entry of the log. -/
def txUndoOf (log : List (Outpoint × UtxoEntry)) : TxUndo := ⟨log.map spentOf⟩

/-- The builder's sets, when the batch has reached `m` and owns `own`. -/
structure UndoSets.Tracks (sets : UndoSets) (prev : UtxoSet) (own : List Outpoint) (m : UtxoSet) :
    Prop where
  outputs : ∀ op, op ∈ sets.blockOutputs ↔ op ∈ own ∧ op ∈ m
  others : ∀ op, op ∉ own →
    m.lookup op = if op ∈ sets.spentPrevOutpoints then none else prev.lookup op

/-- The inner loop of the builder drops what the block owns and logs the rest. -/
theorem undoInputs_ok {prev : UtxoSet} {own : List Outpoint} : ∀ {ops : List Outpoint}
    {sets : UndoSets} {m : UtxoSet} {spent : List SpentUndo}, sets.Tracks prev own m →
    ops.Nodup → (∀ op ∈ ops, op ∈ m) →
      ∃ sets', ops.foldlM (undoInput prev) (sets, spent) =
          .ok (sets', spent ++ ((⟨ops, []⟩ : Change Outpoint UtxoEntry).logged own m).map spentOf) ∧
        sets'.Tracks prev own (eraseAll ops m)
  | [], sets, m, spent, htr, _, _ => ⟨sets, by simp [Change.logged, pure, Except.pure], htr⟩
  | op :: ops, sets, m, spent, htr, hnodup, hmem => by
    rw [List.nodup_cons] at hnodup
    rw [List.forall_mem_cons] at hmem
    -- the rest of the loop reads the map only at other outpoints
    have hrest : ∀ op' ∈ ops, op' ∈ m.erase op := by
      intro op' hop'
      rw [Finmap.mem_erase]
      exact ⟨fun he => hnodup.1 (he ▸ hop'), hmem.2 op' hop'⟩
    have hlog : (⟨ops, []⟩ : Change Outpoint UtxoEntry).logged own (m.erase op) =
        (⟨ops, []⟩ : Change Outpoint UtxoEntry).logged own m := by
      refine List.filterMap_congr fun op' hop' => ?_
      rw [lookup_erase_eq, if_neg fun he : op' = op => hnodup.1 (he ▸ List.mem_of_mem_filter hop')]
    by_cases hown : op ∈ own
    · have hin : op ∈ sets.blockOutputs := (htr.outputs op).mpr ⟨hown, hmem.1⟩
      have htr' : UndoSets.Tracks { sets with blockOutputs := sets.blockOutputs.erase op } prev own
          (m.erase op) := by
        refine ⟨fun op' => ?_, fun op' hop' => ?_⟩
        · rw [Finset.mem_erase, htr.outputs, Finmap.mem_erase]
          tauto
        · rw [lookup_erase_eq, if_neg fun he : op' = op => hop' (he ▸ hown)]
          exact htr.others op' hop'
      obtain ⟨sets', hrun, htr''⟩ := @undoInputs_ok prev own ops _ _ spent htr' hnodup.2 hrest
      refine ⟨sets', ?_, htr''⟩
      rw [List.foldlM_cons, undoInput, if_pos hin, ok_bind, hrun, hlog]
      simp [Change.logged, hown]
    · have hin : op ∉ sets.blockOutputs := fun h => hown ((htr.outputs op).mp h).1
      obtain ⟨entry, hentry⟩ := Finmap.mem_iff.mp hmem.1
      have hothers := htr.others op hown
      have hspent : op ∉ sets.spentPrevOutpoints := by
        intro h
        rw [if_pos h, hentry] at hothers
        cases hothers
      rw [if_neg hspent, hentry] at hothers
      have htr' : UndoSets.Tracks
          { sets with spentPrevOutpoints := insert op sets.spentPrevOutpoints } prev own
          (m.erase op) := by
        refine ⟨fun op' => ?_, fun op' hop' => ?_⟩
        · rw [Finmap.mem_erase]
          constructor
          · intro h
            exact ⟨((htr.outputs op').mp h).1, fun he => hin (he ▸ h), ((htr.outputs op').mp h).2⟩
          · rintro ⟨h1, -, h2⟩
            exact (htr.outputs op').mpr ⟨h1, h2⟩
        · rw [lookup_erase_eq, htr.others op' hop']
          by_cases he : op' = op <;> simp [he]
      obtain ⟨sets', hrun, htr''⟩ :=
        @undoInputs_ok prev own ops _ _ (spent ++ [⟨op, entry⟩]) htr' hnodup.2 hrest
      refine ⟨sets', ?_, htr''⟩
      rw [List.foldlM_cons, undoInput, if_neg hin, ← hothers, okOr, ok_bind,
        rejectIf_neg hspent, ok_bind, ok_bind, hrun, hlog]
      simp [Change.logged, hown, hentry, spentOf]

/-- **The builder writes the undo log of the batch.** -/
theorem undoTxs_ok {prev : UtxoSet} {own : List Outpoint} {m m' : UtxoSet}
    {cs : List (Change Outpoint UtxoEntry)} (h : Batch own m cs m') :
    ∀ {sets : UndoSets} {txs : List TxUndo}, sets.Tracks prev own m →
      ∃ sets', (cs.map traceOf).foldlM (undoTx prev) (sets, txs) =
        .ok (sets', txs ++ (undoLog own m cs).map txUndoOf) := by
  induction h with
  | nil own m => exact fun {sets txs} _ => ⟨sets, by simp [undoLog, pure, Except.pure]⟩
  | @cons own m m' c cs present nodup fresh _ _ ih =>
    intro sets txs htr
    obtain ⟨sets₁, hrun, htr₁⟩ := @undoInputs_ok prev own c.spends sets m [] htr nodup present
    have htr₂ : UndoSets.Tracks
        { sets₁ with blockOutputs := sets₁.blockOutputs ∪ c.keys.toFinset } prev (own ++ c.keys)
        (c.apply m) := by
      refine ⟨fun op => ?_, fun op hop => ?_⟩
      · rw [Finset.mem_union, htr₁.outputs, List.mem_toFinset, List.mem_append, Change.mem_apply,
          mem_iff_lookup, lookup_eraseAll, mem_iff_lookup]
        by_cases hkey : op ∈ c.keys
        · simp [hkey]
        · by_cases hs : op ∈ c.spends <;> simp [hkey, hs]
      · rw [List.mem_append, not_or] at hop
        rw [← htr₁.others op hop.1, Change.lookup_apply_of_notMem hop.2, lookup_eraseAll]
    obtain ⟨sets', hrest⟩ := @ih _ (txs ++ [txUndoOf (c.logged own m)]) htr₂
    refine ⟨sets', ?_⟩
    have hone : undoTx prev (sets, txs) (traceOf c) = .ok
        ({ sets₁ with blockOutputs := sets₁.blockOutputs ∪ c.keys.toFinset },
          txs ++ [txUndoOf (c.logged own m)]) := by
      rw [undoTx, traceOf, hrun, ok_bind, List.nil_append]
      rfl
    rw [List.map_cons, List.foldlM_cons, hone, ok_bind, hrest, undoLog, List.map_cons,
      List.append_assoc, List.singleton_append]

theorem subset_sameBlockSpent : ∀ {cs : List (Change Outpoint UtxoEntry)} {own : List Outpoint}
    {acc : Finset Outpoint × Finset Outpoint}, (∀ op, op ∈ acc.1 ↔ op ∈ own) →
    (∀ op ∈ sameBatchSpends own cs, op ∈ ((cs.map traceOf).foldl markSameBlockSpent acc).2) ∧
      acc.2 ⊆ ((cs.map traceOf).foldl markSameBlockSpent acc).2
  | [], own, acc, _ => ⟨fun op hop => absurd hop List.not_mem_nil, Finset.Subset.refl _⟩
  | c :: cs, own, acc, hacc => by
    have hstep : ∀ op, op ∈ (markSameBlockSpent acc (traceOf c)).1 ↔ op ∈ own ++ c.keys := by
      intro op
      simp [markSameBlockSpent, traceOf, hacc]
    obtain ⟨ih1, ih2⟩ := @subset_sameBlockSpent cs _ (markSameBlockSpent acc (traceOf c)) hstep
    rw [List.map_cons, List.foldl_cons]
    refine ⟨fun op hop => ?_, Finset.Subset.trans Finset.subset_union_left ih2⟩
    rw [sameBatchSpends, List.mem_append] at hop
    rcases hop with hop | hop
    · refine ih2 (Finset.mem_union_right _ ?_)
      rw [List.mem_filter, decide_eq_true_eq] at hop
      simp [traceOf, hop.1, (hacc op).mpr hop.2]
    · exact ih1 op hop

theorem removeCreated_ok {same : Finset Outpoint} : ∀ {ops : List Outpoint} {work : UtxoSet},
    ops.Nodup → (∀ op ∈ ops, op ∈ work ∨ op ∈ same) →
      ops.foldlM (removeCreated same) work = .ok (eraseAll ops work)
  | [], work, _, _ => rfl
  | op :: ops, work, hnodup, hmem => by
    rw [List.nodup_cons] at hnodup
    rw [List.forall_mem_cons] at hmem
    have hok : removeCreated same work op = .ok (work.erase op) := by
      rw [removeCreated, rejectIf_neg (by tauto), ok_bind]
    rw [List.foldlM_cons, hok, ok_bind, eraseAll_cons]
    refine removeCreated_ok hnodup.2 fun op' hop' => ?_
    rcases hmem.2 op' hop' with h | h
    · exact .inl (Finmap.mem_erase.mpr ⟨fun he => hnodup.1 (he ▸ hop'), h⟩)
    · exact .inr h

/-- Entries for absent outpoints are restored; what was restored before is in the map. -/
theorem restoreSpent_ok : ∀ {log : List (Outpoint × UtxoEntry)} {work : UtxoSet}
    {restored : Finset Outpoint}, (log.map Prod.fst).Nodup →
    (∀ op ∈ log.map Prod.fst, op ∉ work) → (∀ op ∈ restored, op ∈ work) →
      (log.map spentOf).foldlM restoreSpent (work, restored) =
        .ok (insertAll log work, restored ∪ (log.map Prod.fst).toFinset)
  | [], work, restored, _, _, _ => by simp [pure, Except.pure]
  | p :: log, work, restored, hnodup, habsent, hres => by
    rw [List.map_cons, List.nodup_cons] at hnodup
    rw [List.map_cons, List.forall_mem_cons] at habsent
    have hok : restoreSpent (work, restored) (spentOf p) =
        .ok (work.insert p.1 p.2, insert p.1 restored) := by
      have hdup : (spentOf p).outpoint ∉ restored := fun h => habsent.1 (hres _ h)
      have hpresent : (spentOf p).outpoint ∉ work := habsent.1
      rw [restoreSpent, rejectIf_neg hdup, ok_bind, rejectIf_neg hpresent, ok_bind]
      rfl
    rw [List.map_cons, List.foldlM_cons, hok, ok_bind, insertAll_cons, restoreSpent_ok hnodup.2]
    · simp [Finset.insert_union]
    · intro op hop h
      rcases Finmap.mem_insert.mp h with he | h
      · exact hnodup.1 (he ▸ hop)
      · exact habsent.2 op hop h
    · intro op hop
      rw [Finmap.mem_insert]
      rcases Finset.mem_insert.mp hop with rfl | hop
      · exact .inl rfl
      · exact .inr (hres op hop)

/-- **The second pass of the disconnect rewinds the batch.** -/
theorem disconnectTxs_ok {same : Finset Outpoint} {own : List Outpoint} {m m' : UtxoSet}
    {cs : List (Change Outpoint UtxoEntry)} (h : Batch own m cs m')
    (hsame : ∀ op ∈ sameBatchSpends own cs, op ∈ same) :
    ∃ restored, (((cs.map traceOf).zip ((undoLog own m cs).map txUndoOf)).reverse.foldlM
        (disconnectTx same) (m', ∅)) =
          .ok (rewind (cs.zip (undoLog own m cs)) m', restored) ∧
      ∀ op ∈ restored, op ∈ rewind (cs.zip (undoLog own m cs)) m' ∧ op ∉ own := by
  induction h with
  | nil own m => exact ⟨∅, rfl, fun op hop => by simp at hop⟩
  | @cons own m m' c cs present nodup fresh keys_nodup rest ih =>
    have hsame' : ∀ op ∈ sameBatchSpends (own ++ c.keys) cs, op ∈ same :=
      fun op hop => hsame op (List.mem_append_right _ hop)
    obtain ⟨restored, hrun, hres⟩ := ih hsame'
    have hback := rest.lookup_rewind
    rw [rewind_undoLog_cons]
    generalize rewind (cs.zip (undoLog (own ++ c.keys) (c.apply m) cs)) m' = back at hrun hres hback ⊢
    -- what this change put in is still there, or the batch has taken it back itself
    have hcreated : ∀ op ∈ c.keys, op ∈ back ∨ op ∈ same := by
      intro op hop
      have hown : op ∈ own ++ c.keys := List.mem_append_right _ hop
      rcases rest.mem_or_spent (Change.mem_apply_of_mem_keys hop) with h | ⟨d, hd, hs⟩
      · left
        rwa [mem_iff_lookup, hback, if_pos hown, ← mem_iff_lookup]
      · exact .inr (hsame' op (mem_sameBatchSpends hown d hd hs))
    have hlogKeys := @Change.logged_map_fst _ _ _ c m own present
    have hlogNodup : ((c.logged own m).map Prod.fst).Nodup := by
      rw [hlogKeys]
      exact nodup.filter _
    have hlogAbsent : ∀ op ∈ (c.logged own m).map Prod.fst, op ∉ eraseAll c.keys back := by
      intro op hop hmem
      rw [hlogKeys, List.mem_filter, decide_eq_true_eq] at hop
      have hkey : op ∉ c.keys := fun hk => (fresh op hk).1 (present op hop.1)
      have hown' : op ∉ own ++ c.keys := by simp [hop.2, hkey]
      rw [mem_iff_lookup, lookup_eraseAll, if_neg hkey, hback, if_neg hown',
        Change.lookup_apply_of_notMem hkey, if_pos hop.1] at hmem
      exact hmem rfl
    have hresWork : ∀ op ∈ restored, op ∈ eraseAll c.keys back := by
      intro op hop
      obtain ⟨h1, h2⟩ := hres op hop
      rw [List.mem_append, not_or] at h2
      rwa [mem_iff_lookup, lookup_eraseAll, if_neg h2.2, ← mem_iff_lookup]
    refine ⟨restored ∪ ((c.logged own m).map Prod.fst).toFinset, ?_, ?_⟩
    · rw [undoLog, List.map_cons, List.map_cons, List.zip_cons_cons, List.reverse_cons,
        List.foldlM_append, hrun, ok_bind, List.foldlM_cons, disconnectTx, traceOf,
        removeCreated_ok keys_nodup hcreated, ok_bind, txUndoOf,
        restoreSpent_ok hlogNodup hlogAbsent hresWork, ok_bind]
      rfl
    · intro op hop
      rw [Finset.mem_union, List.mem_toFinset] at hop
      by_cases hlog : op ∈ (c.logged own m).map Prod.fst
      · obtain ⟨v, hv, hlook⟩ := lookup_insertAll_of_mem _ (eraseAll c.keys back) hlog
        exact ⟨Finmap.mem_of_lookup_eq_some hlook, (Change.mem_logged.mp hv).2.1⟩
      · have hop := hop.resolve_right hlog
        refine ⟨?_, fun hown => (hres op hop).2 (List.mem_append_left _ hown)⟩
        rw [mem_iff_lookup, lookup_insertAll_of_notMem _ _ hlog, ← mem_iff_lookup]
        exact hresWork op hop

end Rubin.Node
