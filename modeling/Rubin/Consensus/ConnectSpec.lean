/-
# What a connected block has done

The facts that the success of each stage of a connection leaves behind: the parser's transactions
are well formed and their ids are hashes of their own bytes, the coinbase adds its spendable
outputs, each transaction is applied to what the one before it left, and the state is written only
at the end.
-/
import Rubin.Consensus.ApplySpec
import Rubin.Consensus.Connect
import Rubin.Consensus.TxCodec

namespace Rubin.Consensus

open Rubin.Lib

variable [Crypto]

/-! ## 1. The parser -/

theorem parseBlockTxs_ok : ∀ {count : Nat} {rem rest : Bytes} {ps : List ParsedTx},
    parseBlockTxs count rem = .ok (ps, rest) → ps.length = count ∧
      ∀ p ∈ ps, ∃ b, parseTx b = .ok p
  | 0, rem, rest, ps, h => by
    cases h
    exact ⟨rfl, fun p hp => by cases hp⟩
  | count + 1, rem, rest, ps, h => by
    simp only [parseBlockTxs, parseNextBlockTx, bind_eq_ok, exists_unit, Except.ok.injEq,
      Prod.mk.injEq] at h
    obtain ⟨_, ⟨-, p, hp, -, -, rfl⟩, ⟨ps, _⟩, hps, rfl, rfl⟩ := h
    obtain ⟨hlen, hall⟩ := parseBlockTxs_ok hps
    exact ⟨by rw [List.length_cons, hlen], List.forall_mem_cons.mpr ⟨⟨rem, hp⟩, hall⟩⟩

variable {blockBytes : Bytes} {pb : ParsedBlock} {generated : Nat}

theorem parseBlockBytes_ok (h : parseBlockBytes blockBytes = .ok pb) :
    pb.headerBytes = blockBytes.take blockHeaderBytes ∧
      parseBlockHeaderBytes pb.headerBytes = .ok pb.header ∧
      ∃ ps : List ParsedTx, (∀ p ∈ ps, ∃ b, parseTx b = .ok p) ∧ ps ≠ [] ∧
        pb.txs = ps.map ParsedTx.tx ∧ pb.txids = ps.map ParsedTx.txid ∧
        pb.wtxids = ps.map ParsedTx.wtxid := by
  simp only [parseBlockBytes, bind_eq_ok, exists_unit, rejectIf_eq_ok, mapError_eq_ok,
    Except.ok.injEq] at h
  obtain ⟨-, header, hheader, ⟨count, rem⟩, -, hcount, ⟨ps, rest⟩, hps, -, rfl⟩ := h
  obtain ⟨hlen, hall⟩ := parseBlockTxs_ok hps
  refine ⟨rfl, hheader, ps, hall, ?_, rfl, rfl, rfl⟩
  rintro rfl
  exact hcount hlen.symm

theorem parsed_wellFormed (h : parseBlockBytes blockBytes = .ok pb) :
    ∀ tx ∈ pb.txs, tx.WellFormed := by
  obtain ⟨-, -, ps, hps, -, htxs, -⟩ := parseBlockBytes_ok h
  intro tx htx
  rw [htxs] at htx
  obtain ⟨p, hp, rfl⟩ := List.mem_map.mp htx
  obtain ⟨b, hb⟩ := hps p hp
  exact (parseTx_eq_ok.mp hb).2.1

theorem parsed_lengths (h : parseBlockBytes blockBytes = .ok pb) :
    pb.txs.length = pb.txids.length := by
  obtain ⟨-, -, ps, -, -, htxs, hids, -⟩ := parseBlockBytes_ok h
  rw [htxs, hids, List.length_map, List.length_map]

theorem parsed_ne_nil (h : parseBlockBytes blockBytes = .ok pb) : pb.txs ≠ [] := by
  obtain ⟨-, -, ps, -, hne, htxs, -⟩ := parseBlockBytes_ok h
  rw [htxs]
  exact fun h => hne (List.map_eq_nil_iff.mp h)

omit [Crypto] in
theorem ParsedBlock.nonCoinbase_map_fst (h : pb.txs.length = pb.txids.length) :
    pb.nonCoinbase.map Prod.fst = pb.txs.tail := by
  rw [ParsedBlock.nonCoinbase, List.map_tail, List.map_fst_zip (le_of_eq h)]

/-! ## 2. The transactions -/

theorem applyNonCoinbaseTx_ok {tx : Tx} {ctx : UtxoApplyContext}
    {res : UtxoSet × UtxoApplySummary} (h : applyNonCoinbaseTx tx ctx = .ok res) :
    ∃ s', applyNonCoinbaseTxImpl tx ctx ⟨SighashV1PrehashCache.new tx, none⟩ = .ok (res, s') := by
  simp only [applyNonCoinbaseTx, bind_eq_ok, Except.ok.injEq] at h
  obtain ⟨⟨r, s'⟩, h, rfl⟩ := h
  exact ⟨s', h⟩

theorem applyBlockTx_ok {ctx : BlockApplyContext} {acc acc' : BlockAccum} {p : Tx × Bytes32}
    (h : applyBlockTx ctx acc p = .ok acc') :
    ∃ res, applyNonCoinbaseTx p.1 (ctx.forTx acc.utxos p.2) = .ok res ∧ acc'.utxos = res.1 ∧
      acc'.sumFees = acc.sumFees + res.2.fee ∧ acc'.sumFees < 2 ^ 128 ∧
      validateNonCoinbaseBlockTx acc.seenNonces p.1 = .ok acc'.seenNonces := by
  simp only [applyBlockTx, addBlockFee, bind_eq_ok, exists_unit, rejectIf_eq_ok,
    Except.ok.injEq] at h
  obtain ⟨seen, hseen, res, hres, sum, ⟨hlt, rfl⟩, rfl⟩ := h
  exact ⟨res, hres, rfl, rfl, not_le.mp hlt, hseen⟩

/-! ## 3. The coinbase -/

omit [Crypto] in
theorem applyCoinbaseOutput_ok {txKind : UInt8} {txid : Bytes32} {blockHeight : Nat}
    {rp : RotationProvider} {acc acc' : UtxoSet × List Bytes32} {p : TxOutput × Nat}
    (h : applyCoinbaseOutput txKind txid blockHeight rp acc p = .ok acc') :
    acc'.1 = insertAll (createdFrom txid blockHeight true [p]) acc.1 := by
  simp only [applyCoinbaseOutput, bind_eq_ok, exists_unit] at h
  obtain ⟨-, cmr, -, h⟩ := h
  by_cases hu : isUnspendable p.1.covenantType = true
  · rw [if_pos hu] at h
    rw [← Except.ok.inj h]
    simp [createdFrom, hu]
  · rw [if_neg hu, bind_eq_ok, exists_unit] at h
    rw [← Except.ok.inj h.2]
    simp [createdFrom, hu]

omit [Crypto] in
theorem applyCoinbaseOutputs_ok {utxos utxos' : UtxoSet} {blockHeight : Nat}
    {rotation : Option RotationProvider}
    (h : applyCoinbaseOutputs pb utxos blockHeight rotation = .ok utxos') :
    ∃ coinbase txid, pb.txs.head? = some coinbase ∧ pb.txids.head? = some txid ∧
      utxos' = insertAll (createdOutputs txid blockHeight true coinbase.outputs) utxos := by
  simp only [applyCoinbaseOutputs, coinbaseAndTxid, bind_eq_ok, exists_unit, okOr_eq_ok,
    Except.ok.injEq] at h
  obtain ⟨_, ⟨coinbase, hcb, txid, htxid, rfl⟩, acc, hrun, -, rfl⟩ := h
  refine ⟨coinbase, txid, hcb, htxid, ?_⟩
  refine foldlM_from_start
    (fun done (acc : UtxoSet × List Bytes32) =>
      acc.1 = insertAll (createdFrom txid blockHeight true done) utxos) rfl ?_ hrun
  intro done p acc acc' hacc hp
  rw [createdFrom_append, insertAll_append, ← hacc]
  exact applyCoinbaseOutput_ok hp

omit [Crypto] in
theorem sumCoinbaseOutputs_ok {coinbase : Tx} {n : Nat} (h : sumCoinbaseOutputs coinbase = .ok n) :
    n = valueSum coinbase.outputs := by
  refine foldlM_from_start (fun done sum => sum = valueSum done) rfl ?_ h
  intro done out sum sum' hsum hadd
  simp only [bind_eq_ok, exists_unit, Except.ok.injEq] at hadd
  rw [← hadd.2, hsum]
  simp [valueSum]

omit [Crypto] in
theorem validateCoinbaseValueBound_ok {height fees : Nat} {coinbase : Tx} (hpos : height ≠ 0)
    (hcb : pb.txs.head? = some coinbase)
    (h : validateCoinbaseValueBound pb height generated fees = .ok ()) :
    valueSum coinbase.outputs ≤ blockSubsidy height generated + fees := by
  simp only [validateCoinbaseValueBound, if_neg hpos, coinbaseValueLimit, hcb, bind_eq_ok,
    exists_unit, okOr_eq_ok, rejectIf_eq_ok, Option.some.injEq, Except.ok.injEq] at h
  obtain ⟨_, rfl, sum, hsum, limit, ⟨-, rfl⟩, hle⟩ := h
  rw [← sumCoinbaseOutputs_ok hsum]
  exact not_lt.mp hle

/-! ## 4. The whole connection -/

theorem finalizeConnectedBlock_ok {prepared : PreparedConnectBlock} {work : UtxoSet}
    {fees tasks : Nat} {state state' : InMemoryChainState} {summary : ConnectBlockBasicSummary}
    (h : finalizeConnectedBlock prepared work fees tasks state = .ok summary state') :
    validateCoinbaseValueBound prepared.pb prepared.blockHeight prepared.alreadyGenerated fees =
        .ok () ∧
      alreadyGeneratedAfterBlock prepared.blockHeight prepared.alreadyGenerated =
        .ok summary.alreadyGeneratedN1 ∧
      state' = { utxos := work
                 alreadyGenerated := if prepared.blockHeight ≠ 0 then summary.alreadyGeneratedN1
                   else state.alreadyGenerated } := by
  simp only [finalizeConnectedBlock, estate_bind_eq_ok, liftE_eq_ok] at h
  obtain ⟨⟨⟩, _, ⟨hbound, rfl⟩, n1, _, ⟨hn1, rfl⟩, ⟨⟩, s₁, hs₁, ⟨⟩, s₂, hs₂, s₃, _, hs₃, h⟩ := h
  cases hs₁
  cases hs₂
  cases hs₃
  cases h
  exact ⟨hbound, hn1, rfl⟩

theorem connectBlockBasicInMemory_stages {ctx : ConnectBlockContext}
    {state state' : InMemoryChainState} {summary : ConnectBlockBasicSummary}
    (h : connectBlockBasicInMemory blockBytes ctx state = .ok summary state') :
    ∃ prepared acc, prepareConnectBlock blockBytes state.alreadyGenerated ctx = .ok prepared ∧
      applyCoinbaseThenNonCoinbaseTxsSequential prepared.pb state.utxos
        (prepared.applyContext ctx) = .ok acc ∧
      finalizeConnectedBlock prepared acc.utxos acc.sumFees 0 state = .ok summary state' := by
  simp only [connectBlockBasicInMemory, estate_bind_eq_ok, liftE_eq_ok] at h
  obtain ⟨_, _, hget, prepared, _, ⟨hprep, rfl⟩, acc, _, ⟨hacc, rfl⟩, hfin⟩ := h
  cases hget
  exact ⟨prepared, acc, hprep, hacc, hfin⟩

theorem prepareConnectBlock_ok {ctx : ConnectBlockContext} {prepared : PreparedConnectBlock}
    (h : prepareConnectBlock blockBytes generated ctx = .ok prepared) :
    parseBlockBytes blockBytes = .ok prepared.pb ∧
      validateConnectPreflight prepared.pb ctx.expectedPrevHash ctx.expectedTarget
        ctx.blockHeight ctx.prevTimestamps = .ok () ∧
      prepared.blockHeight = ctx.blockHeight ∧ prepared.alreadyGenerated = generated := by
  simp only [prepareConnectBlock, bind_eq_ok, exists_unit, rejectIf_eq_ok, Except.ok.injEq] at h
  obtain ⟨pb, hpb, hpre, -, mtp, -, rfl⟩ := h
  exact ⟨hpb, hpre, rfl, rfl⟩

omit [Crypto] in
theorem alreadyGeneratedAfterBlock_ok {height n : Nat} (hpos : height ≠ 0)
    (h : alreadyGeneratedAfterBlock height generated = .ok n) :
    n = generated + blockSubsidy height generated := by
  simp only [alreadyGeneratedAfterBlock, if_pos hpos, bind_eq_ok, exists_unit, rejectIf_eq_ok,
    Except.ok.injEq] at h
  exact h.2.symm

/-! ## 5. Histories -/

/-- Blocks accepted one after another, each with its own height and expectations. -/
inductive Connects : InMemoryChainState → List (Bytes × ConnectBlockContext) →
    InMemoryChainState → Prop
  | nil (state : InMemoryChainState) : Connects state [] state
  | cons {state state₁ state' : InMemoryChainState} {blockBytes : Bytes}
      {ctx : ConnectBlockContext} {blocks : List (Bytes × ConnectBlockContext)}
      {summary : ConnectBlockBasicSummary} :
      connectBlockBasicInMemory blockBytes ctx state = .ok summary state₁ →
      Connects state₁ blocks state' → Connects state ((blockBytes, ctx) :: blocks) state'

end Rubin.Consensus
