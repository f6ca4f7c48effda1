/-
# Histories as runs of steps

A history of accepted connects, one step for each transaction: the outpoints it takes, the entries
it makes, its height.  `connects_steps` is the induction over a history: what holds of every
coinbase whose outputs were added and of every transaction that was applied (`StepRule`) holds of
every step, at the set the step starts from, and the set at the end is the one the steps lead to.
-/
import Rubin.Lib.ChangeRun
import Rubin.Node.RoundTrip

namespace Rubin.Node

open Rubin.Lib Rubin.Consensus

/-! ## 1. Steps -/

structure TxStep where
  height : Nat
  coinbase : Bool
  change : Change Outpoint UtxoEntry

def txStep (height : Nat) (p : (Tx × Bytes32) × Nat) : TxStep :=
  { height, coinbase := decide (p.2 = 0), change := txChange height p }

variable [Crypto]

def blockSteps (block : Bytes × ConnectBlockContext) : List TxStep :=
  match parseBlockBytes block.1 with
  | .ok pb => (pb.txs.zip pb.txids).zipIdx.map (txStep block.2.blockHeight)
  | .error _ => []

def blockTxids (block : Bytes × ConnectBlockContext) : List Bytes32 :=
  match parseBlockBytes block.1 with
  | .ok pb => pb.txids
  | .error _ => []

/-- The transactions of a history, in the order they are applied. -/
def runSteps (blocks : List (Bytes × ConnectBlockContext)) : List TxStep :=
  blocks.flatMap blockSteps

def runTxids (blocks : List (Bytes × ConnectBlockContext)) : List Bytes32 :=
  blocks.flatMap blockTxids

theorem exists_txStep {blocks : List (Bytes × ConnectBlockContext)} {step : TxStep}
    (h : step ∈ runSteps blocks) : ∃ height p, step = txStep height p := by
  obtain ⟨block, -, hstep⟩ := List.mem_flatMap.mp h
  rw [blockSteps] at hstep
  cases hpb : parseBlockBytes block.1 with
  | error e =>
    rw [hpb] at hstep
    cases hstep
  | ok pb =>
    rw [hpb] at hstep
    obtain ⟨p, -, rfl⟩ := List.mem_map.mp hstep
    exact ⟨block.2.blockHeight, p, rfl⟩

/-! ## 2. Induction over a history -/

/-- `ok` holds of whatever the code lets through. -/
structure StepRule (ok : UtxoSet → TxStep → Prop) : Prop where
  coinbase : ∀ {pb : ParsedBlock} {utxos work : UtxoSet} {height : Nat}
    {rotation : Option RotationProvider} {coinbase : Tx} {txid : Bytes32},
    applyCoinbaseOutputs pb utxos height rotation = .ok work → pb.txs.head? = some coinbase →
      ok utxos (txStep height ((coinbase, txid), 0))
  applied : ∀ {tx : Tx} {ctx : UtxoApplyContext} {s s' : SpendState tx}
    {res : UtxoSet × UtxoApplySummary} (k : Nat),
    applyNonCoinbaseTxImpl tx ctx s = .ok (res, s') →
      ok ctx.utxoSet (txStep ctx.height ((tx, ctx.txid), k + 1))

variable {ok : UtxoSet → TxStep → Prop}

theorem applyBlockTxs_steps (rule : StepRule ok) {ctx : BlockApplyContext}
    {l : List (Tx × Bytes32)} :
    ∀ {k : Nat} {acc acc' : BlockAccum}, l.foldlM (applyBlockTx ctx) acc = .ok acc' →
      EachStep TxStep.change ok acc.utxos ((l.zipIdx (k + 1)).map (txStep ctx.blockHeight)) ∧
        acc'.utxos = after TxStep.change ((l.zipIdx (k + 1)).map (txStep ctx.blockHeight))
          acc.utxos := by
  induction l with
  | nil =>
    intro k acc acc' h
    cases h
    exact ⟨.nil, rfl⟩
  | cons p l ih =>
    intro k acc acc' h
    rw [List.foldlM_cons, bind_eq_ok] at h
    obtain ⟨acc₁, h1, h2⟩ := h
    obtain ⟨res, hres, hutxos, -⟩ := applyBlockTx_ok h1
    obtain ⟨s', hres⟩ := applyNonCoinbaseTx_ok hres
    obtain ⟨-, -, hset, -⟩ := applyNonCoinbaseTxImpl_ok hres
    have happ : acc₁.utxos = (txStep ctx.blockHeight (p, k + 1)).change.apply acc.utxos := by
      rw [hutxos, hset]
      rfl
    obtain ⟨hsteps, hafter⟩ := @ih (k + 1) _ _ h2
    rw [happ] at hsteps hafter
    rw [List.zipIdx_cons, List.map_cons]
    exact ⟨.cons (rule.applied k hres) hsteps, hafter⟩

theorem connectBlockBasicInMemory_steps (rule : StepRule ok)
    {block : Bytes × ConnectBlockContext} {state state' : InMemoryChainState}
    {summary : ConnectBlockBasicSummary}
    (h : connectBlockBasicInMemory block.1 block.2 state = .ok summary state') :
    EachStep TxStep.change ok state.utxos (blockSteps block) ∧
      state'.utxos = after TxStep.change (blockSteps block) state.utxos := by
  obtain ⟨prepared, acc, hprep, happ, hfin⟩ := connectBlockBasicInMemory_stages h
  obtain ⟨hpb, -, hheight, -⟩ := prepareConnectBlock_ok hprep
  obtain ⟨-, -, rfl⟩ := finalizeConnectedBlock_ok hfin
  rw [applyCoinbaseThenNonCoinbaseTxsSequential, bind_eq_ok] at happ
  obtain ⟨work, hwork, hrun⟩ := happ
  obtain ⟨coinbase, txid, hcb, hid, rfl⟩ := applyCoinbaseOutputs_ok hwork
  obtain ⟨txs, htxs⟩ := List.head?_eq_some_iff.mp hcb
  obtain ⟨txids, htxids⟩ := List.head?_eq_some_iff.mp hid
  have hctx : (prepared.applyContext block.2).blockHeight = block.2.blockHeight := hheight
  have hfirst : ok state.utxos (txStep block.2.blockHeight ((coinbase, txid), 0)) := by
    rw [← hctx]
    exact rule.coinbase hwork hcb
  rw [applyNonCoinbaseTxsSequential, ParsedBlock.nonCoinbase, htxs, htxids, List.zip_cons_cons,
    List.tail_cons] at hrun
  obtain ⟨hsteps, hafter⟩ := @applyBlockTxs_steps _ _ rule _ _ 0 _ _ hrun
  rw [hctx] at hsteps hafter
  have hblock : blockSteps block = txStep block.2.blockHeight ((coinbase, txid), 0) ::
      ((txs.zip txids).zipIdx 1).map (txStep block.2.blockHeight) := by
    simp only [blockSteps, hpb, htxs, htxids]
    rfl
  rw [hblock]
  exact ⟨.cons hfirst hsteps, hafter⟩

/-- **A history is a run of steps.** -/
theorem connects_steps (rule : StepRule ok) {state state' : InMemoryChainState}
    {blocks : List (Bytes × ConnectBlockContext)} (h : Connects state blocks state') :
    EachStep TxStep.change ok state.utxos (runSteps blocks) ∧
      state'.utxos = after TxStep.change (runSteps blocks) state.utxos := by
  induction h with
  | nil state => exact ⟨.nil, rfl⟩
  | @cons state state₁ state' blockBytes ctx blocks summary hblock _ ih =>
    obtain ⟨hsteps, hafter⟩ :=
      @connectBlockBasicInMemory_steps _ _ rule (blockBytes, ctx) _ _ _ hblock
    rw [hafter] at ih
    rw [runSteps, List.flatMap_cons, after_append]
    exact ⟨hsteps.append ih.1, ih.2⟩

end Rubin.Node
