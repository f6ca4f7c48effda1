/-
# Weight is serialized size

`block_basic/weight.rs` recomputes the weight of a transaction from its fields, as sums of lengths
in checked arithmetic; the parser consumes bytes.  For a parsed transaction the two meet: each sum
is the length of the part of the serialization it stands for, and the limits of the parser keep all
of them far below 64 bits.  So the weight is four times the bytes before the witness section, plus
the bytes from there on, plus the cost of the witness items.

Block and relay limits count weight only.  They bound bytes because of this.
-/
import Rubin.Consensus.ConnectSpec

namespace Rubin.Consensus

open Rubin.Lib

/-! ## 1. `weight.rs`, at a height -/

def registrySigCost (w : WitnessItem) (nativeSpend : NativeSuiteSet) (registry : SuiteRegistry) :
    Nat :=
  if w.suiteId = suiteIdSentinel then 0
  else if w.suiteId = suiteIdSimplicityEnvelope then simplicityBaseVerifyCost
  else if nativeSpend.contains w.suiteId = false then verifyCostUnknownSuite
  else
    match registry.lookup w.suiteId with
    | none => verifyCostUnknownSuite
    | some params =>
      if w.pubkey.length = params.pubkeyLen.toNat ∧ w.signature.length = (params.sigLen + 1).toNat then
        params.verifyCost.toNat
      else 0

/-- `tx_witness_size_and_sig_cost` for any cost of a witness item. -/
def txWitnessSizeAndSigCostBy (tx : Tx) (sigCostFn : WitnessItem → Nat) :
    Except TxError (Nat × Nat) := do
  let witnessSize := compactSizeLen tx.witness.length + (tx.witness.map witnessItemSize).sum
  let sigCost := (tx.witness.map sigCostFn).sum
  rejectIf (2 ^ 64 ≤ witnessSize ∨ 2 ^ 64 ≤ sigCost) weightOverflow
  .ok (witnessSize, sigCost)

def txWeightComponents (tx : Tx) (sigCostFn : WitnessItem → Nat) :
    Except TxError (Nat × Nat × Nat) := do
  let base ← txBaseSize tx
  let witness ← txWitnessSizeAndSigCostBy tx sigCostFn
  let da ← txDaSizeAndBytes tx
  let weight ← txWeight base.1 witness.1 da.1 witness.2
  .ok (weight, da.2, base.2)

def txWeightAndStatsAtHeight (tx : Tx) (height : Nat) (rotation : Option RotationProvider)
    (registry : Option SuiteRegistry) : Except TxError (Nat × Nat × Nat) :=
  match rotation, registry with
  | some rotation, some registry =>
    let nativeSpend := rotation.nativeSpendSuites height
    txWeightComponents tx fun w => registrySigCost w nativeSpend registry
  | _, _ => txWeightAndStats tx

theorem txWeightAndStats_eq_components (tx : Tx) :
    txWeightAndStats tx = txWeightComponents tx legacySigCost :=
  rfl

/-- The default rotation and registry know the one suite whose cost is built in. -/
theorem registrySigCost_default (w : WitnessItem) :
    registrySigCost w mlDsa87Only SuiteRegistry.defaultRegistry = legacySigCost w := by
  rw [registrySigCost, legacySigCost]
  split
  · rfl
  · split
    · rfl
    · by_cases hsuite : w.suiteId = suiteIdMlDsa87
      · have hlook : SuiteRegistry.defaultRegistry.lookup suiteIdMlDsa87 =
            some ⟨suiteIdMlDsa87, 2592, 4627, 8, "ML-DSA-87"⟩ := rfl
        rw [if_pos hsuite, hsuite, if_neg (by decide), hlook]
        simp only [hasExpectedMldsa87Shape, Bool.and_eq_true, beq_iff_eq]
        rfl
      · have hnative : mlDsa87Only.contains w.suiteId = false := by
          rw [NativeSuiteSet.contains, decide_eq_false_iff_not, mlDsa87Only, Finset.mem_singleton]
          exact hsuite
        rw [if_pos hnative, if_neg hsuite]

theorem txWeightAndStatsAtHeight_default (tx : Tx) (height : Nat) :
    txWeightAndStatsAtHeight tx height (some DefaultRotationProvider)
      (some SuiteRegistry.defaultRegistry) = txWeightAndStats tx := by
  have hcost : (fun w => registrySigCost w mlDsa87Only SuiteRegistry.defaultRegistry) =
      legacySigCost := funext registrySigCost_default
  rw [txWeightAndStats_eq_components, ← hcost]
  rfl

/-! ## 2. Sizes are lengths -/

theorem encodeCompactSize_length (n : Nat) : (encodeCompactSize n).length = compactSizeLen n := by
  unfold encodeCompactSize compactSizeLen
  split_ifs <;> simp

theorem TxInput.bytes_length (input : TxInput) : input.bytes.length = inputSize input := by
  simp only [TxInput.bytes, List.length_append, BytesN.length_toList, u32LeBytes_length,
    encodeCompactSize_length, inputSize]

theorem TxOutput.bytes_length (output : TxOutput) : output.bytes.length = outputSize output := by
  simp only [TxOutput.bytes, List.length_append, u64LeBytes_length, u16LeBytes_length,
    encodeCompactSize_length, outputSize]

theorem WitnessItem.bytes_length_eq (item : WitnessItem) :
    item.bytes.length = witnessItemSize item := by
  rw [WitnessItem.bytes_length, encodeCompactSize_length, encodeCompactSize_length, witnessItemSize]

theorem length_flatMap_eq {α : Type} {f : α → Bytes} {size : α → Nat}
    (h : ∀ a, (f a).length = size a) (l : List α) : (l.flatMap f).length = (l.map size).sum := by
  rw [List.length_flatMap]
  exact congrArg List.sum (List.map_congr_left fun a _ => h a)

theorem Tx.coreBytes_length (tx : Tx) : tx.coreBytes.length =
    4 + 1 + 8 + compactSizeLen tx.inputs.length + (tx.inputs.map inputSize).sum +
      compactSizeLen tx.outputs.length + (tx.outputs.map outputSize).sum + 4 +
      (daCoresBytes tx.txKind tx.cores).length := by
  simp only [Tx.coreBytes, List.length_append, u32LeBytes_length, u64LeBytes_length,
    encodeCompactSize_length, List.length_singleton, length_flatMap_eq TxInput.bytes_length,
    length_flatMap_eq TxOutput.bytes_length]
  omega

theorem Tx.tailBytes_length (tx : Tx) : tx.tailBytes.length =
    compactSizeLen tx.witness.length + (tx.witness.map witnessItemSize).sum +
      (compactSizeLen tx.daPayload.length + tx.daPayload.length) := by
  simp only [Tx.tailBytes, List.length_append, encodeCompactSize_length,
    length_flatMap_eq WitnessItem.bytes_length_eq]

/-! ## 3. Limits of the parser -/

theorem compactSizeLen_le (n : Nat) : compactSizeLen n ≤ 9 := by
  unfold compactSizeLen
  split_ifs <;> omega

theorem sum_map_le {α : Type} {f : α → Nat} {l : List α} {n bound : Nat}
    (hlen : l.length ≤ n) (h : ∀ a ∈ l, f a ≤ bound) : (l.map f).sum ≤ n * bound := by
  have hsum := List.sum_le_card_nsmul (l.map f) bound fun _ hx => by
    obtain ⟨a, ha, rfl⟩ := List.mem_map.mp hx
    exact h a ha
  rw [List.length_map, smul_eq_mul] at hsum
  exact hsum.trans (Nat.mul_le_mul_right bound hlen)

theorem daCoresBytes_le {txKind : UInt8} {cores : DaCores} (h : CoresInRange cores) :
    (daCoresBytes txKind cores).length ≤ 70000 := by
  obtain ⟨hcommit, hchunk⟩ := h
  rw [daCoresBytes]
  split
  · cases hc : cores.1 with
    | none => simp
    | some core =>
      have hsig := (hcommit core hc).2
      have hlen := compactSizeLen_le core.batchSig.length
      rw [maxDaManifestBytesPerTx] at hsig
      simp only [Option.map_some, Option.getD_some, DaCommitCore.bytes, List.length_append,
        BytesN.length_toList, u16LeBytes_length, u64LeBytes_length, List.length_singleton,
        encodeCompactSize_length]
      omega
  · split
    · cases cores.2 with
      | none => simp
      | some core => simp [DaChunkCore.bytes]
    · simp

theorem Tx.WellFormed.coreBytes_le {tx : Tx} (h : tx.WellFormed) :
    tx.coreBytes.length ≤ 1024 * 85 + 1024 * 65555 + 70035 := by
  have hin : (tx.inputs.map inputSize).sum ≤ 1024 * 85 := by
    refine sum_map_le h.inputs fun input hmem => ?_
    have hscript := h.scriptSigs input hmem
    have hlen := compactSizeLen_le input.scriptSig.length
    rw [maxScriptSigBytes] at hscript
    rw [inputSize]
    omega
  have hout : (tx.outputs.map outputSize).sum ≤ 1024 * 65555 := by
    refine sum_map_le h.outputs fun output hmem => ?_
    have hdata : output.covenantData.length ≤ 65536 := h.covenantData output hmem
    have hlen := compactSizeLen_le output.covenantData.length
    rw [outputSize]
    omega
  have hcores : (daCoresBytes tx.txKind tx.cores).length ≤ 70000 := daCoresBytes_le h.cores
  have h1 := compactSizeLen_le tx.inputs.length
  have h2 := compactSizeLen_le tx.outputs.length
  rw [tx.coreBytes_length]
  omega

theorem Tx.WellFormed.tailBytes_le {tx : Tx} (h : tx.WellFormed) :
    tx.tailBytes.length ≤ 100000 + 9 + 524288 + 9 := by
  have hwitness : (tx.witness.map witnessItemSize).sum ≤ 100000 := by
    by_cases hne : tx.witness = []
    · simp [hne]
    · have hle := h.witness.length_le hne
      simp only [WitnessItem.bytes_length_eq] at hle
      rw [maxWitnessBytesPerTx] at hle
      exact (Nat.le_add_left _ _).trans hle
  have hpayload : tx.daPayload.length ≤ 524288 := h.payload.le_chunkBytes
  have h1 := compactSizeLen_le tx.witness.length
  have h2 := compactSizeLen_le tx.daPayload.length
  rw [tx.tailBytes_length]
  omega

/-! ## 4. The cost of a witness item -/

/-- What verifying one signature of a suite counts for. -/
def suiteVerifyCost (suiteId : UInt8) : Nat :=
  if suiteId = suiteIdMlDsa87 then verifyCostMlDsa87
  else if suiteId = suiteIdSimplicityEnvelope then simplicityBaseVerifyCost
  else verifyCostUnknownSuite

/-- The costs of the items that are not sentinels. -/
def witnessVerifyCost (witness : List WitnessItem) : Nat :=
  ((witness.filter fun w => w.suiteId ≠ suiteIdSentinel).map fun w => suiteVerifyCost w.suiteId).sum

/-- The parser lets no ML-DSA-87 item of other lengths through, so the suite alone decides. -/
theorem legacySigCost_of_accepted {w : WitnessItem} {n : Nat} (h : w.Accepted n) :
    legacySigCost w = if w.suiteId = suiteIdSentinel then 0 else suiteVerifyCost w.suiteId := by
  rw [legacySigCost, suiteVerifyCost]
  split
  · rfl
  · rename_i hsentinel
    by_cases henvelope : w.suiteId = suiteIdSimplicityEnvelope
    · rw [if_pos henvelope, henvelope, if_neg (by decide), if_pos rfl]
    · rw [if_neg henvelope]
      by_cases hml : w.suiteId = suiteIdMlDsa87
      · simp only [WitnessItem.Accepted, validateWitnessItemOrdered, validateWitnessItemShape,
          bind_eq_ok, exists_unit, if_neg hsentinel] at h
        obtain ⟨-, -, h⟩ := h
        split at h
        · cases h
        · rename_i hshape
          have hshape : w.pubkey.length = mlDsa87PubkeyBytes ∧
              w.signature.length = mlDsa87SigBytes + 1 := not_not.mp fun hbad => hshape ⟨hml, hbad⟩
          rw [if_pos hml, if_pos hml, if_pos]
          simp [hasExpectedMldsa87Shape, hshape.1, hshape.2]
      · rw [if_neg hml, if_neg hml, if_neg henvelope]

theorem sum_legacySigCost {ws : List WitnessItem} (h : ∀ w ∈ ws, ∃ n, w.Accepted n) :
    (ws.map legacySigCost).sum = witnessVerifyCost ws := by
  induction ws with
  | nil => rfl
  | cons w ws ih =>
    rw [List.forall_mem_cons] at h
    obtain ⟨⟨n, hw⟩, hws⟩ := h
    have ih := ih hws
    rw [witnessVerifyCost] at ih ⊢
    rw [List.map_cons, List.sum_cons, ih, legacySigCost_of_accepted hw, List.filter_cons]
    by_cases hs : w.suiteId = suiteIdSentinel
    · simp [hs]
    · simp [hs]

theorem witnessVerifyCost_le {ws : List WitnessItem} (hlen : ws.length ≤ maxWitnessItems) :
    witnessVerifyCost ws ≤ 1024 * 64 := by
  refine sum_map_le ((List.length_filter_le _ _).trans hlen) fun w _ => ?_
  unfold suiteVerifyCost
  split_ifs <;> decide

/-! ## 5. The weight of a parsed transaction -/

theorem sum_anchorBytes_le (tx : Tx) :
    (tx.outputs.map anchorBytes).sum ≤ (tx.outputs.map outputSize).sum := by
  refine List.sum_le_sum fun output _ => ?_
  unfold anchorBytes outputSize
  split <;> omega

theorem txBaseSize_eq {tx : Tx} (hwf : tx.WellFormed) (hm : CoresMatchKind tx.txKind tx.cores) :
    txBaseSize tx = .ok (tx.coreBytes.length, (tx.outputs.map anchorBytes).sum) := by
  have hlen := tx.coreBytes_length
  have hle := hwf.coreBytes_le
  have hanchor := sum_anchorBytes_le tx
  rw [txBaseSize, daCoreFieldsBytes_of_match hwf.kind hm]
  rw [rejectIf_neg (by omega), ok_bind, ok_bind, rejectIf_neg (by omega), ok_bind, hlen]

theorem txWitnessSizeAndSigCost_eq {tx : Tx} (hwf : tx.WellFormed) :
    txWitnessSizeAndSigCost tx =
      .ok (compactSizeLen tx.witness.length + (tx.witness.map witnessItemSize).sum,
        witnessVerifyCost tx.witness) := by
  have hlen := tx.tailBytes_length
  have hle := hwf.tailBytes_le
  have hcost := witnessVerifyCost_le hwf.witnessCount
  rw [txWitnessSizeAndSigCost, sum_legacySigCost hwf.witness.each]
  rw [rejectIf_neg (by omega), ok_bind]

theorem txDaSizeAndBytes_eq {tx : Tx} (hwf : tx.WellFormed) :
    txDaSizeAndBytes tx = .ok (compactSizeLen tx.daPayload.length + tx.daPayload.length,
      if tx.txKind = 0x00 then 0 else tx.daPayload.length) := by
  have hlen := tx.tailBytes_length
  have hle := hwf.tailBytes_le
  rw [txDaSizeAndBytes, rejectIf_neg (by omega), ok_bind, ite_not]

/-- **The weight.**  A well-formed transaction weighs four times its core, plus its tail, plus the
cost of its witness. -/
theorem txWeightAndStats_of_wellFormed {tx : Tx} (hwf : tx.WellFormed)
    (hm : CoresMatchKind tx.txKind tx.cores) :
    txWeightAndStats tx = .ok (4 * tx.coreBytes.length + tx.tailBytes.length +
        witnessVerifyCost tx.witness, if tx.txKind = 0x00 then 0 else tx.daPayload.length,
      (tx.outputs.map anchorBytes).sum) := by
  have htail := tx.tailBytes_length
  have hcoreLe := hwf.coreBytes_le
  have htailLe := hwf.tailBytes_le
  have hcost := witnessVerifyCost_le hwf.witnessCount
  rw [txWeightAndStats, txBaseSize_eq hwf hm, ok_bind, txWitnessSizeAndSigCost_eq hwf, ok_bind,
    txDaSizeAndBytes_eq hwf, ok_bind, txWeight, witnessDiscountDivisor]
  dsimp only
  rw [rejectIf_neg (by omega), ok_bind, ok_bind, htail]
  simp only [Nat.add_assoc]

section bytes

variable [Crypto]

theorem parseTxWithoutHashes_of_parseTx {b : Bytes} {p : ParsedTx} (h : parseTx b = .ok p) :
    parseTxWithoutHashes b = .ok (p.tx, p.tx.coreBytes.length, p.consumed) := by
  obtain ⟨tx, txid, wtxid, n⟩ := p
  simp only [parseTx, bind_eq_ok, Except.ok.injEq, ParsedTx.mk.injEq] at h
  obtain ⟨⟨tx', ce, te⟩, hparse, rfl, -, -, rfl⟩ := h
  rw [hparse]
  simp only [parseTxWithoutHashes, bind_eq_ok, Except.ok.injEq] at hparse
  obtain ⟨⟨⟨tx'', ce', te'⟩, r⟩, hcursor, heq⟩ := hparse
  cases heq
  obtain ⟨-, hce, -⟩ := parseTxCursor_eq_ok.mp hcursor
  rw [hce]
  simp [Reader.new]

theorem parseBlockTxs_length : ∀ {count : Nat} {rem rest : Bytes} {ps : List ParsedTx},
    parseBlockTxs count rem = .ok (ps, rest) →
      rem.length = (ps.map ParsedTx.consumed).sum + rest.length
  | 0, rem, rest, ps, h => by
    cases h
    simp
  | count + 1, rem, rest, ps, h => by
    simp only [parseBlockTxs, parseNextBlockTx, bind_eq_ok, exists_unit, rejectIf_eq_ok,
      Except.ok.injEq, Prod.mk.injEq] at h
    obtain ⟨_, ⟨-, p, hp, -, hle, rfl⟩, ⟨ps, _⟩, hps, rfl, rfl⟩ := h
    have ih := parseBlockTxs_length hps
    dsimp only at ih ⊢
    rw [List.length_drop] at ih
    rw [List.map_cons, List.sum_cons]
    omega

theorem parseBlockBytes_length {blockBytes : Bytes} {pb : ParsedBlock}
    (h : parseBlockBytes blockBytes = .ok pb) :
    ∃ ps : List ParsedTx, (∀ p ∈ ps, ∃ b, parseTx b = .ok p) ∧ pb.txs = ps.map ParsedTx.tx ∧
      blockBytes.length = blockHeaderBytes + compactSizeLen pb.txs.length +
        (ps.map ParsedTx.consumed).sum := by
  simp only [parseBlockBytes, readTxCount, bind_eq_ok, exists_unit, rejectIf_eq_ok, mapError_eq_ok,
    Except.ok.injEq] at h
  obtain ⟨hlong, header, -, _, ⟨⟨⟨count, used⟩, r⟩, hcount, rfl⟩, -, ⟨ps, rest⟩, hps, hrest, rfl⟩ := h
  obtain ⟨hlen, hall⟩ := parseBlockTxs_ok hps
  have hbytes := parseBlockTxs_length hps
  obtain ⟨-, -, hdrop, -⟩ := readCompactSize_sound hcount
  have hdrop := congrArg List.length hdrop
  simp only [Reader.new, List.length_drop, List.length_append, encodeCompactSize_length] at hdrop
  dsimp only at hlen hbytes hrest
  rw [not_not.mp hrest, List.length_nil] at hbytes
  refine ⟨ps, hall, rfl, ?_⟩
  dsimp only
  rw [List.length_map, hlen]
  omega

omit [Crypto] in
theorem addTxStats_sumWeight {stats stats' : BlockTxStats} {tx : Tx} {t : Nat × Nat × Nat}
    (ht : txWeightAndStats tx = .ok t) (h : addTxStats stats tx = .ok stats') :
    stats'.sumWeight = stats.sumWeight + t.1 := by
  simp only [addTxStats, addBlockResourceStat, bind_eq_ok, exists_unit, rejectIf_eq_ok,
    Except.ok.injEq, ht] at h
  obtain ⟨_, rfl, _, ⟨-, rfl⟩, _, -, _, -, rfl⟩ := h
  rfl

omit [Crypto] in
theorem foldlM_addTxStats_sumWeight {stats stats' : BlockTxStats} :
    ∀ {txs : List Tx} {ts : List (Nat × Nat × Nat)}, txs.map txWeightAndStats = ts.map .ok →
      txs.foldlM addTxStats stats = .ok stats' →
      stats'.sumWeight = stats.sumWeight + (ts.map Prod.fst).sum := by
  intro txs
  induction txs generalizing stats with
  | nil =>
    intro ts hts h
    cases ts with
    | nil =>
      cases h
      rfl
    | cons t ts => cases hts
  | cons tx txs ih =>
    intro ts hts h
    cases ts with
    | nil => cases hts
    | cons t ts =>
      rw [List.map_cons, List.map_cons, List.cons.injEq] at hts
      rw [List.foldlM_cons, bind_eq_ok] at h
      obtain ⟨mid, hmid, h⟩ := h
      rw [ih hts.2 h, addTxStats_sumWeight hts.1 hmid, List.map_cons, List.sum_cons, Nat.add_assoc]

theorem exists_weights {ps : List ParsedTx} (h : ∀ p ∈ ps, ∃ b, parseTx b = .ok p) :
    ∃ ts : List (Nat × Nat × Nat), (ps.map ParsedTx.tx).map txWeightAndStats = ts.map .ok ∧
      (ps.map ParsedTx.consumed).sum ≤ (ts.map Prod.fst).sum := by
  induction ps with
  | nil => exact ⟨[], rfl, le_rfl⟩
  | cons p ps ih =>
    rw [List.forall_mem_cons] at h
    obtain ⟨⟨b, hb⟩, hps⟩ := h
    obtain ⟨ts, hts, hle⟩ := ih hps
    obtain ⟨hm, hwf, -, -, hlen, -⟩ := parseTx_eq_ok.mp hb
    have hweight := txWeightAndStats_of_wellFormed hwf hm
    generalize hda : (if p.tx.txKind = 0x00 then 0 else p.tx.daPayload.length) = da at hweight
    refine ⟨(4 * p.tx.coreBytes.length + p.tx.tailBytes.length + witnessVerifyCost p.tx.witness,
      da, (p.tx.outputs.map anchorBytes).sum) :: ts, ?_, ?_⟩
    · rw [List.map_cons, List.map_cons, List.map_cons, hts, hweight]
    · rw [List.length_append] at hlen
      simp only [List.map_cons, List.sum_cons]
      omega

/-- **Weight is serialized size.**  The weight of a parsed transaction is four times the bytes
before the witness section, plus the bytes from there to its end, plus the cost of the witness items
that are not sentinels, and it never overflows.  The DA bytes are the payload of kinds 1 and 2.  The
default rotation and registry change nothing.  A block is therefore no longer than its weight, its
header and its count. -/
theorem weight_is_serialized_size :
    (∀ (b : Bytes) (p : ParsedTx), parseTx b = .ok p →
      ∃ c anchorBytes : Nat, parseTxWithoutHashes b = .ok (p.tx, c, p.consumed) ∧
        c ≤ p.consumed ∧ (p.tx.txKind = 0x00 ∨ p.tx.txKind = 0x01 ∨ p.tx.txKind = 0x02) ∧
        txWeightAndStats p.tx =
          .ok (4 * c + (p.consumed - c) + witnessVerifyCost p.tx.witness,
            if p.tx.txKind = 0x00 then 0 else p.tx.daPayload.length, anchorBytes) ∧
        ∀ height, txWeightAndStatsAtHeight p.tx height (some DefaultRotationProvider)
          (some SuiteRegistry.defaultRegistry) = txWeightAndStats p.tx) ∧
    (∀ (blockBytes : Bytes) (pb : ParsedBlock), parseBlockBytes blockBytes = .ok pb →
      ∃ ts : List (Nat × Nat × Nat), pb.txs.map txWeightAndStats = ts.map .ok ∧
        blockBytes.length ≤
          (ts.map Prod.fst).sum + blockHeaderBytes + compactSizeLen pb.txs.length ∧
        ∀ stats, accumulateBlockResourceStats pb = .ok stats →
          stats.sumWeight = (ts.map Prod.fst).sum) := by
  constructor
  · intro b p h
    obtain ⟨hm, hwf, -, -, hlen, -⟩ := parseTx_eq_ok.mp h
    rw [List.length_append] at hlen
    refine ⟨p.tx.coreBytes.length, (p.tx.outputs.map anchorBytes).sum,
      parseTxWithoutHashes_of_parseTx h, ?_, hwf.kind, ?_, txWeightAndStatsAtHeight_default p.tx⟩
    · omega
    · rw [txWeightAndStats_of_wellFormed hwf hm, hlen, Nat.add_sub_cancel_left]
  · intro blockBytes pb h
    obtain ⟨ps, hps, htxs, hbytes⟩ := parseBlockBytes_length h
    obtain ⟨ts, hts, hle⟩ := exists_weights hps
    rw [← htxs] at hts
    refine ⟨ts, hts, by omega, ?_⟩
    intro stats hstats
    rw [foldlM_addTxStats_sumWeight hts hstats, Nat.zero_add]

end bytes

/-- The empty transaction: nineteen bytes up to its locktime and two empty lists. -/
theorem weight_is_serialized_size_empty_tx :
    let _ := Crypto.trivial
    ∃ p, parseTx (1 :: List.replicate 20 0) = .ok p ∧ ∃ c anchorBytes : Nat,
      parseTxWithoutHashes (1 :: List.replicate 20 0) = .ok (p.tx, c, p.consumed) ∧
      txWeightAndStats p.tx = .ok (4 * c + (p.consumed - c) + witnessVerifyCost p.tx.witness,
        if p.tx.txKind = 0x00 then 0 else p.tx.daPayload.length, anchorBytes) := by
  intro _
  have hparse : ∃ p, parseTx (1 :: List.replicate 20 0) = .ok p := by
    cases h : parseTx (1 :: List.replicate 20 0) with
    | ok p => exact ⟨p, rfl⟩
    | error e =>
      exfalso
      have hok : (parseTx (1 :: List.replicate 20 0)).isOk = true := by decide +kernel
      rw [h] at hok
      cases hok
  obtain ⟨p, hp⟩ := hparse
  obtain ⟨c, anchor, hraw, -, -, hweight, -⟩ := weight_is_serialized_size.1 _ p hp
  exact ⟨p, hp, c, anchor, hraw, hweight⟩

end Rubin.Consensus
