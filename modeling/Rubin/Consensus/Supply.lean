/-
# No inflation

The value in the UTXO set never grows by more than the subsidies that were due.  One transaction
gives its fee back (`applyNonCoinbaseTx_totalValue`), a block of transactions gives back the sum of
its fees (`applyNonCoinbaseTxsSequential_totalValue`), the coinbase takes at most subsidy plus fees,
and a run of blocks is an induction over that.

Nothing is assumed about the hash: two transactions with one txid only overwrite an entry.
-/
import Rubin.Consensus.ConnectSpec

namespace Rubin.Consensus

open Rubin.Lib

/-- The value of all entries of a UTXO set. -/
def UtxoSet.totalValue (utxos : UtxoSet) : Nat := total (fun e : UtxoEntry => e.value.toNat) utxos

/-! ## 1. One transaction, then all of a block -/

theorem applied_totalValue {utxos : UtxoSet} {tx : Tx} {txid : Bytes32} {height fee : Nat}
    (hnodup : (tx.inputs.map TxInput.outpoint).Nodup)
    (hfee : fee + valueSum tx.outputs = inputValue utxos tx) :
    UtxoSet.totalValue (insertAll (createdOutputs txid height false tx.outputs)
      (eraseAll (tx.inputs.map TxInput.outpoint) utxos)) + fee ≤ utxos.totalValue := by
  have h1 := total_insertAll_le (fun e : UtxoEntry => e.value.toNat)
    (createdOutputs txid height false tx.outputs)
    (eraseAll (tx.inputs.map TxInput.outpoint) utxos)
  have h2 := sum_createdOutputs_le txid height false tx.outputs
  have h3 := total_eraseAll (fun e : UtxoEntry => e.value.toNat)
    (tx.inputs.map TxInput.outpoint) utxos hnodup
  rw [List.map_map] at h3
  have h4 : inputValue utxos tx = (tx.inputs.map
      (weightAt (fun e : UtxoEntry => e.value.toNat) utxos ∘ TxInput.outpoint)).sum := rfl
  unfold UtxoSet.totalValue
  omega

section blocks

variable [Crypto]

theorem applyNonCoinbaseTx_totalValue {tx : Tx} {ctx : UtxoApplyContext}
    {res : UtxoSet × UtxoApplySummary} (h : applyNonCoinbaseTx tx ctx = .ok res) :
    res.1.totalValue + res.2.fee ≤ ctx.utxoSet.totalValue := by
  obtain ⟨s', h⟩ := applyNonCoinbaseTx_ok h
  obtain ⟨hnodup, -, hres, hfee, -⟩ := applyNonCoinbaseTxImpl_ok h
  rw [hres]
  exact applied_totalValue hnodup hfee

theorem applyNonCoinbaseTxsSequential_totalValue {pb : ParsedBlock} {utxos : UtxoSet}
    {ctx : BlockApplyContext} {acc : BlockAccum}
    (h : applyNonCoinbaseTxsSequential pb utxos ctx = .ok acc) :
    acc.utxos.totalValue + acc.sumFees ≤ utxos.totalValue := by
  refine foldlM_from_start
    (fun _ acc => acc.utxos.totalValue + acc.sumFees ≤ utxos.totalValue) (Nat.le_refl _) ?_ h
  intro _ p acc acc' hacc hp
  obtain ⟨res, hres, hutxos, hsum, -⟩ := applyBlockTx_ok hp
  have htx : res.1.totalValue + res.2.fee ≤ acc.utxos.totalValue :=
    applyNonCoinbaseTx_totalValue hres
  rw [hutxos, hsum]
  omega

/-! ## 2. One block -/

/-- **One block** at a height above zero: the subsidy is what `alreadyGenerated` grows by, and it
bounds the growth of the value. -/
theorem connectBlockBasicInMemory_totalValue {blockBytes : Bytes} {ctx : ConnectBlockContext}
    {state state' : InMemoryChainState} {summary : ConnectBlockBasicSummary}
    (hpos : ctx.blockHeight ≠ 0)
    (h : connectBlockBasicInMemory blockBytes ctx state = .ok summary state') :
    state'.alreadyGenerated =
        state.alreadyGenerated + blockSubsidy ctx.blockHeight state.alreadyGenerated ∧
      state'.utxos.totalValue ≤
        state.utxos.totalValue + blockSubsidy ctx.blockHeight state.alreadyGenerated := by
  obtain ⟨prepared, acc, hprep, hacc, hfin⟩ := connectBlockBasicInMemory_stages h
  obtain ⟨-, -, hheight, hgen⟩ := prepareConnectBlock_ok hprep
  obtain ⟨hbound, hn1, rfl⟩ := finalizeConnectedBlock_ok hfin
  rw [hheight, hgen] at hbound hn1
  have hn1 := alreadyGeneratedAfterBlock_ok hpos hn1
  simp only [applyCoinbaseThenNonCoinbaseTxsSequential, bind_eq_ok] at hacc
  obtain ⟨work, hwork, hacc⟩ := hacc
  obtain ⟨coinbase, txid, hcb, -, rfl⟩ := applyCoinbaseOutputs_ok hwork
  have h1 := applyNonCoinbaseTxsSequential_totalValue hacc
  have h2 := validateCoinbaseValueBound_ok hpos hcb hbound
  have h3 := total_insertAll_le (fun e : UtxoEntry => e.value.toNat)
    (createdOutputs txid (prepared.applyContext ctx).blockHeight true coinbase.outputs) state.utxos
  have h4 := sum_createdOutputs_le txid (prepared.applyContext ctx).blockHeight true
    coinbase.outputs
  refine ⟨?_, ?_⟩
  · rw [if_pos (by rw [hheight]; exact hpos)]
    exact hn1
  · unfold UtxoSet.totalValue at h1 ⊢
    simp only at h1 h3 h4 ⊢
    omega

/-! ## 3. Runs -/

/-- Blocks connected one after another at successive heights from `height` on.  Each one brings
its own expectations, chain id, rotation provider and registry. -/
inductive ConnectRun : (height : Nat) → InMemoryChainState →
    List (Bytes × ConnectBlockContext) → InMemoryChainState → Prop
  | nil (height : Nat) (state : InMemoryChainState) : ConnectRun height state [] state
  | cons {height : Nat} {state state₁ state' : InMemoryChainState} {blockBytes : Bytes}
      {ctx : ConnectBlockContext} {blocks : List (Bytes × ConnectBlockContext)}
      {summary : ConnectBlockBasicSummary} :
      ctx.blockHeight = height →
      connectBlockBasicInMemory blockBytes ctx state = .ok summary state₁ →
      ConnectRun (height + 1) state₁ blocks state' →
      ConnectRun height state ((blockBytes, ctx) :: blocks) state'

/-- The subsidies of `n` blocks from `height` on, added up as they fall due. -/
def generatedAfter : (height generated n : Nat) → Nat
  | _, generated, 0 => generated
  | height, generated, n + 1 =>
    generatedAfter (height + 1) (generated + blockSubsidy height generated) n

/-- **No inflation over any run.**  From a height of at least 1 on, `already_generated` follows the
subsidy schedule exactly, and the UTXO set gains at most what `already_generated` gains. -/
theorem no_inflation {height : Nat} {state state' : InMemoryChainState}
    {blocks : List (Bytes × ConnectBlockContext)} (hheight : 1 ≤ height)
    (hrun : ConnectRun height state blocks state') :
    state'.alreadyGenerated = generatedAfter height state.alreadyGenerated blocks.length ∧
      state.alreadyGenerated ≤ state'.alreadyGenerated ∧
      state'.utxos.totalValue ≤
        state.utxos.totalValue + (state'.alreadyGenerated - state.alreadyGenerated) := by
  induction hrun with
  | nil height state => exact ⟨rfl, Nat.le_refl _, Nat.le_add_right _ _⟩
  | cons hctx hblock _ ih =>
    obtain ⟨ih1, ih2, ih3⟩ := ih (by omega)
    obtain ⟨hgen, hval⟩ := connectBlockBasicInMemory_totalValue (by omega) hblock
    rw [hctx] at hgen hval
    refine ⟨?_, by omega, by omega⟩
    rw [ih1, hgen]
    rfl

end blocks

/-- A block of height 1 whose coinbase mints 1000, on the real hash: the header, then one
transaction with a P2PK output and the witness commitment. -/
def mintBlock : Bytes :=
  u32LeBytes 1 ++ zero32.toList ++
    [33, 236, 76, 118, 64, 69, 123, 170, 162, 126, 223, 208, 141, 150, 200, 14,
     50, 91, 38, 130, 170, 60, 66, 178, 140, 108, 69, 101, 243, 106, 101, 92] ++
    u64LeBytes 1 ++ powLimit.toList ++ u64LeBytes 0 ++ [1] ++
  (u32LeBytes 1 ++ [0x00] ++ u64LeBytes 0 ++
    [1] ++ zero32.toList ++ u32LeBytes 0xffffffff ++ [0] ++ u32LeBytes 0xffffffff ++
    [2] ++ u64LeBytes 1000 ++ u16LeBytes covTypeP2pk ++ [33, 1] ++ List.replicate 32 7 ++
    u64LeBytes 0 ++ u16LeBytes covTypeAnchor ++ [32] ++
    [183, 22, 164, 183, 244, 192, 250, 182, 101, 41, 138, 185, 184, 25, 155, 96,
     26, 185, 250, 126, 10, 39, 240, 113, 51, 131, 243, 76, 243, 112, 113, 168] ++
    u32LeBytes 1 ++ [0] ++ [0])

def mintContext : ConnectBlockContext :=
  { expectedPrevHash := none, expectedTarget := none, blockHeight := 1, prevTimestamps := none,
    chainId := zero32, rotation := none, registry := none }

theorem no_inflation_mintBlock :
    letI : Crypto := Crypto.sha3With fun _ _ _ => .ok true
    ∃ state', ConnectRun 1 ⟨∅, 0⟩ [(mintBlock, mintContext)] state' ∧
      state'.alreadyGenerated = generatedAfter 1 0 1 ∧ 0 ≤ state'.alreadyGenerated ∧
      state'.utxos.totalValue ≤ UtxoSet.totalValue ∅ + (state'.alreadyGenerated - 0) := by
  let _ : Crypto := Crypto.sha3With fun _ _ _ => .ok true
  have hok : accepted (connectBlockBasicInMemory mintBlock mintContext ⟨∅, 0⟩) = true := by
    decide +kernel
  obtain ⟨summary, state', hblock⟩ := exists_of_accepted hok
  have hrun : ConnectRun 1 ⟨∅, 0⟩ [(mintBlock, mintContext)] state' :=
    .cons rfl hblock (.nil 2 state')
  exact ⟨state', hrun, no_inflation (Nat.le_refl 1) hrun⟩

end Rubin.Consensus
