/-
# Every output is spent once

What the code checks at each step of a history (`TxStep.Valid`: distinct inputs, all there, coinbase
outputs mature) needs no assumption.  That an outpoint is taken once over the whole history, and
what the set is at the end, does: txids must not repeat, neither inside the history nor against the
set it starts from.

The second half of that is not idle.  `overlap_spends_twice` is a block that takes one outpoint
twice, because the set before it already holds an outpoint of a transaction that the block
contains.
-/
import Rubin.Consensus.Supply
import Rubin.Node.History

namespace Rubin.Node

open Rubin.Lib Rubin.Consensus

/-! ## 1. What the code checks at each step -/

/-- What the step's transaction takes is distinct, there, and mature. -/
def TxStep.Valid (utxos : UtxoSet) (step : TxStep) : Prop :=
  step.change.spends.Nodup ∧
    ∀ op ∈ step.change.spends, ∃ entry, utxos.lookup op = some entry ∧
      (entry.createdByCoinbase = true → entry.creationHeight + coinbaseMaturity ≤ step.height)

theorem TxStep.Valid.takesPresent {utxos : UtxoSet} {step : TxStep} (h : step.Valid utxos) :
    TakesPresent TxStep.change utxos step := by
  refine ⟨h.1, ?_⟩
  intro op hop
  obtain ⟨entry, hentry, -⟩ := h.2 op hop
  exact Finmap.mem_of_lookup_eq_some hentry

variable {height : Nat}

theorem validateInputAvailability_mature {entry : UtxoEntry}
    (h : validateInputAvailability entry height = .ok ()) (hcb : entry.createdByCoinbase = true) :
    entry.creationHeight + coinbaseMaturity ≤ height := by
  simp only [validateInputAvailability, bind_eq_ok, exists_unit, rejectIf_eq_ok] at h
  have hmature := h.2
  rw [not_and, not_or] at hmature
  obtain ⟨h1, h2⟩ := hmature hcb
  omega

section blocks

variable [Crypto]

theorem valid_stepRule : StepRule TxStep.Valid where
  coinbase := fun _ _ => ⟨List.nodup_nil, fun _ hop => nomatch hop⟩
  applied := by
    intro tx ctx s s' res k h
    obtain ⟨st, acc, out, s₁, s₂, -, hresolve, -⟩ := applyNonCoinbaseTxImpl_stages h
    obtain ⟨hres, -⟩ := resolveInputs_ok hresolve
    refine ⟨hres.nodup, ?_⟩
    intro op hop
    obtain ⟨input, hin, rfl⟩ := List.mem_map.mp hop
    obtain ⟨r, -, hr⟩ := exists_resolved hres.each hin
    exact ⟨r.entry, hr.lookup, validateInputAvailability_mature hr.available⟩

/-! ## 2. Fresh txids -/

/-- The outpoints that `steps` make are distinct and carry `txids`. -/
def KeysFrom (txids : List Bytes32) (steps : List TxStep) : Prop :=
  ((putIn TxStep.change steps).map Prod.fst).Nodup ∧
    ∀ op ∈ (putIn TxStep.change steps).map Prod.fst, op.txid ∈ txids

omit [Crypto] in
theorem KeysFrom.append {txids txids' : List Bytes32} {steps steps' : List TxStep}
    (h : KeysFrom txids steps) (h' : KeysFrom txids' steps') (hn : (txids ++ txids').Nodup) :
    KeysFrom (txids ++ txids') (steps ++ steps') := by
  rw [KeysFrom, putIn, List.flatMap_append, List.map_append]
  refine ⟨?_, ?_⟩
  · rw [List.nodup_append]
    refine ⟨h.1, h'.1, ?_⟩
    intro op hop op' hop' heq
    exact (List.nodup_append.mp hn).2.2 _ (h.2 op hop) _ (h'.2 op' hop') (by rw [heq])
  · intro op hop
    rcases List.mem_append.mp hop with hop | hop
    · exact List.mem_append_left _ (h.2 op hop)
    · exact List.mem_append_right _ (h'.2 op hop)

omit [Crypto] in
theorem keysFrom_txStep {p : (Tx × Bytes32) × Nat} (hout : p.1.1.outputs.length ≤ maxTxOutputs) :
    KeysFrom [p.1.2] [txStep height p] := by
  rw [KeysFrom, keys_putIn_cons]
  refine ⟨?_, ?_⟩
  · rw [putIn, List.flatMap_nil, List.map_nil, List.append_nil]
    exact createdOutputs_keys_nodup _ _ _ hout
  · intro op hop
    rw [putIn, List.flatMap_nil, List.map_nil, List.append_nil] at hop
    rw [List.mem_singleton]
    exact txid_of_created hop

omit [Crypto] in
theorem keysFrom_txSteps {l : List (Tx × Bytes32)} : ∀ {k : Nat},
    (l.map Prod.snd).Nodup → (∀ p ∈ l, p.1.outputs.length ≤ maxTxOutputs) →
      KeysFrom (l.map Prod.snd) ((l.zipIdx k).map (txStep height)) := by
  induction l with
  | nil => exact fun _ _ => ⟨List.nodup_nil, List.forall_mem_nil _⟩
  | cons p l ih =>
    intro k hn hout
    rw [List.forall_mem_cons] at hout
    rw [List.map_cons] at hn ⊢
    rw [List.zipIdx_cons, List.map_cons]
    exact (keysFrom_txStep hout.1).append (ih (List.nodup_cons.mp hn).2 hout.2) hn

theorem keysFrom_block {block : Bytes × ConnectBlockContext} (hn : (blockTxids block).Nodup) :
    KeysFrom (blockTxids block) (blockSteps block) := by
  rw [blockTxids] at hn ⊢
  rw [blockSteps]
  cases hpb : parseBlockBytes block.1 with
  | error e => exact ⟨List.nodup_nil, List.forall_mem_nil _⟩
  | ok pb =>
    rw [hpb] at hn
    have hsnd : (pb.txs.zip pb.txids).map Prod.snd = pb.txids :=
      List.map_snd_zip (le_of_eq (parsed_lengths hpb).symm)
    have hkeys := @keysFrom_txSteps block.2.blockHeight (pb.txs.zip pb.txids) 0
      (by rw [hsnd]; exact hn)
      fun p hp => (parsed_wellFormed hpb _ (List.of_mem_zip hp).1).outputs
    rwa [hsnd] at hkeys

variable {blocks : List (Bytes × ConnectBlockContext)}

theorem keysFrom_run (hn : (runTxids blocks).Nodup) :
    KeysFrom (runTxids blocks) (runSteps blocks) := by
  induction blocks with
  | nil => exact ⟨List.nodup_nil, List.forall_mem_nil _⟩
  | cons block blocks ih =>
    rw [runTxids, List.flatMap_cons] at hn ⊢
    rw [runSteps, List.flatMap_cons]
    have hparts := List.nodup_append.mp hn
    exact (keysFrom_block hparts.1).append (ih hparts.2.1) hn

/-! ## 3. The history as a whole -/

/-- What becomes of the outputs between `initial` and `final`. -/
structure SpentOnce (initial : UtxoSet) (steps : List TxStep) (final : UtxoSet) : Prop where
  /-- No outpoint is taken by two inputs. -/
  once : (takenOut TxStep.change steps).Nodup
  /-- What a transaction takes is in the set that its predecessors have left. -/
  present : ∀ before step later, steps = before ++ step :: later →
    ∀ op ∈ step.change.spends, op ∈ after TxStep.change before initial
  /-- What a coinbase has made is not taken before it is mature. -/
  mature : ∀ creator ∈ steps, creator.coinbase = true → ∀ op ∈ creator.change.keys,
    ∀ spender ∈ steps, op ∈ spender.change.spends →
      creator.height + coinbaseMaturity ≤ spender.height
  /-- Neither is what a coinbase has made before the history began. -/
  mature_initial : ∀ op entry, initial.lookup op = some entry → entry.createdByCoinbase = true →
    ∀ spender ∈ steps, op ∈ spender.change.spends →
      entry.creationHeight + coinbaseMaturity ≤ spender.height
  /-- Without what was taken, with what was made and left. -/
  final_eq : final =
    insertAll ((putIn TxStep.change steps).filter fun p => p.1 ∉ takenOut TxStep.change steps)
      (eraseAll (takenOut TxStep.change steps) initial)

/-- What a coinbase makes is marked as such. -/
theorem created_by_coinbase {creator : TxStep} (h : creator ∈ runSteps blocks)
    (hcb : creator.coinbase = true) {op : Outpoint} (hop : op ∈ creator.change.keys) :
    ∃ entry, (op, entry) ∈ creator.change.creates ∧ entry.createdByCoinbase = true ∧
      entry.creationHeight = creator.height := by
  obtain ⟨height, p, rfl⟩ := exists_txStep h
  obtain ⟨q, hq, rfl⟩ := List.mem_map.mp hop
  refine ⟨q.2, hq, ?_⟩
  obtain ⟨out, -, rfl⟩ := List.mem_map.mp hq
  exact ⟨hcb, rfl⟩

theorem spentOnce_of_fresh {state state' : InMemoryChainState} (h : Connects state blocks state')
    (hf : FreshRun TxStep.change state.utxos (runSteps blocks)) :
    SpentOnce state.utxos (runSteps blocks) state'.utxos := by
  obtain ⟨hvalid, hafter⟩ := connects_steps valid_stepRule h
  have htakes := hvalid.imp fun m s => TxStep.Valid.takesPresent
  refine ⟨takenOut_nodup htakes hf, ?_, ?_, ?_, hafter.trans (after_eq htakes hf)⟩
  · intro before step later hsplit op hop
    exact (htakes before step later hsplit).2 op hop
  · intro creator hcreator hcb op hop spender hspender hspend
    obtain ⟨made, hmade, hcoin, hheight⟩ := created_by_coinbase hcreator hcb hop
    obtain ⟨before, later, hsplit⟩ := List.mem_iff_append.mp hspender
    obtain ⟨entry, hentry, hmature⟩ := (hvalid before spender later hsplit).2 op hspend
    -- while it is there, the outpoint shows the entry of its only creator
    have hput : (op, made) ∈ putIn TxStep.change (before ++ spender :: later) := by
      rw [← hsplit]
      exact List.mem_flatMap.mpr ⟨creator, hcreator, hmade⟩
    have heq : entry = made := lookup_of_putIn (hsplit ▸ htakes) (hsplit ▸ hf) hput hentry
    rw [heq, hheight] at hmature
    exact hmature hcoin
  · intro op entry hlook hcoin spender hspender hspend
    obtain ⟨before, later, hsplit⟩ := List.mem_iff_append.mp hspender
    obtain ⟨seen, hseen, hmature⟩ := (hvalid before spender later hsplit).2 op hspend
    have heq : seen = entry := lookup_of_initial (hsplit ▸ htakes) (hsplit ▸ hf) hlook hseen
    rw [heq] at hmature
    exact hmature hcoin

end blocks

/-- A hash that keeps the first 32 bytes, so that the ids below can be read off the bytes; every
signature is good. -/
@[reducible] def firstBytesCrypto : Crypto :=
  ⟨fun b => ⟨(b ++ List.replicate 32 0).take 32, by simp⟩, .ok (), fun _ _ _ => .ok true⟩

def zeroKeyOutput (value : UInt64) : Bytes :=
  u64LeBytes value ++ u16LeBytes covTypeP2pk ++ [33, 1] ++ zero32.toList

/-- One P2PK input under the zero key, output 0 of `prev`. -/
def zeroKeyTx (nonce : UInt64) (prev : Bytes32) (count : UInt8) (outputs : Bytes) : Bytes :=
  u32LeBytes 1 ++ [0x00] ++ u64LeBytes nonce ++
    [1] ++ prev.toList ++ u32LeBytes 0 ++ [0] ++ u32LeBytes 0 ++
    [count] ++ outputs ++ u32LeBytes 0 ++
    [1, 1] ++ encodeCompactSize 2592 ++ List.replicate 2592 0 ++
      encodeCompactSize 4628 ++ List.replicate 4627 0 ++ [1] ++ [0]

/-- A block of height 1 with `count` transactions; the coinbase only commits to the witnesses. -/
def zeroKeyBlock (root commitment : Bytes) (count : UInt8) (txs : Bytes) : Bytes :=
  u32LeBytes 1 ++ zero32.toList ++ root ++ u64LeBytes 1 ++ powLimit.toList ++ u64LeBytes 0 ++ [count] ++
  (u32LeBytes 1 ++ [0x00] ++ u64LeBytes 0 ++
    [1] ++ zero32.toList ++ u32LeBytes 0xffffffff ++ [0] ++ u32LeBytes 0xffffffff ++
    [1] ++ u64LeBytes 0 ++ u16LeBytes covTypeAnchor ++ [32] ++ commitment ++
    u32LeBytes 1 ++ [0] ++ [0]) ++ txs

/-- The txid of a transaction with nonce 2 that spends output 0 of the zero txid. -/
def secondTxid : Bytes32 :=
  ⟨[1, 0, 0, 0, 0, 2, 0, 0, 0, 0, 0, 0, 0, 1, 0, 0,
    0, 0, 0, 0, 0, 0, 0, 0, 0, 0, 0, 0, 0, 0, 0, 0], by decide⟩

def zeroKeyEntry : UtxoEntry :=
  { value := 100, covenantType := covTypeP2pk, covenantData := 1 :: zero32.toList
    creationHeight := 0, createdByCoinbase := false }

/-- The first transaction spends an output of the second that was there before the block, the
third the one that the second makes. -/
def overlapBlock : Bytes :=
  zeroKeyBlock
    [1, 1, 0, 1, 0, 0, 0, 0, 0, 0, 0, 0, 0, 0, 0, 0,
     1, 0, 0, 0, 0, 0, 0, 0, 0, 0, 0, 0, 0, 0, 0, 0]
    [82, 85, 66, 73, 78, 45, 87, 73, 84, 78, 69, 83, 83, 47, 3, 3,
     2, 0, 0, 0, 0, 0, 0, 0, 0, 0, 0, 0, 0, 0, 0, 0]
    4 (zeroKeyTx 1 secondTxid 1 (zeroKeyOutput 90) ++ zeroKeyTx 2 zero32 1 (zeroKeyOutput 90) ++
      zeroKeyTx 3 secondTxid 1 (zeroKeyOutput 80))

def overlapState : InMemoryChainState :=
  { utxos := (Finmap.singleton ⟨zero32, 0⟩ zeroKeyEntry).insert ⟨secondTxid, 0⟩ zeroKeyEntry
    alreadyGenerated := 0 }

theorem runSteps_of_parsed [Crypto] {blockBytes : Bytes} {ctx : ConnectBlockContext}
    {spends : List Outpoint}
    (h : ((parseBlockBytes blockBytes).toOption.map fun pb =>
        (decide pb.txids.Nodup, ((pb.txs.zip pb.txids).zipIdx.flatMap fun p =>
          (TxTrace.of p).spends))) = some (true, spends)) :
    (runTxids [(blockBytes, ctx)]).Nodup ∧
      takenOut TxStep.change (runSteps [(blockBytes, ctx)]) = spends := by
  simp only [runTxids, runSteps, List.flatMap_singleton, blockTxids, blockSteps]
  cases hpb : parseBlockBytes blockBytes with
  | error e =>
    rw [hpb] at h
    cases h
  | ok pb =>
    rw [hpb] at h
    obtain ⟨hnodup, hspends⟩ := Prod.mk.inj (Option.some.inj h)
    refine ⟨of_decide_eq_true hnodup, ?_⟩
    rw [takenOut, List.flatMap_map]
    exact hspends

section overlap

attribute [local instance] firstBytesCrypto

theorem overlapBlock_accepted :
    accepted (connectBlockBasicInMemory overlapBlock mintContext overlapState) = true := by
  decide +kernel

theorem overlapBlock_parsed :
    ((parseBlockBytes overlapBlock).toOption.map fun pb =>
        (decide pb.txids.Nodup, ((pb.txs.zip pb.txids).zipIdx.flatMap fun p =>
          (TxTrace.of p).spends))) =
      some (true, [⟨secondTxid, 0⟩, ⟨zero32, 0⟩, ⟨secondTxid, 0⟩]) := by
  decide +kernel

end overlap

end Rubin.Node
