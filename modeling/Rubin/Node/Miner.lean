/-
# The block a miner builds

`mine_one` of `miner.rs` puts a block together from a coinbase of its own and the candidates that
were selected, and searches a nonce for it; the validator only sees the bytes.  The two agree
(`mined_block_preflight`): the bytes parse to that coinbase and those candidates, and of all that
the preflight of a connect checks, only the resource limits and the DA sets are left to the
selection.

The selection and the target are arguments.  So are the answers of the observer that is asked for a
shutdown before every 1024 nonces.
-/
import Rubin.Node.TimeWindow

namespace Rubin.Node

open Rubin.Consensus Rubin.Lib

/-! ## 1. `coinbase.rs`, `miner.rs` -/

def validateMineAddress (raw : Bytes) : Except String Unit := do
  rejectIf (raw.length ≠ maxP2pkCovenantData) ("mine_address: expected " ++
    Nat.repr maxP2pkCovenantData ++ " bytes, got " ++ Nat.repr raw.length)
  rejectIf (raw.head? ≠ some suiteIdMlDsa87)
    ("mine_address: unsupported suite_id 0x" ++ hexEncode (raw.take 1))

def buildCoinbaseTx (height alreadyGenerated : Nat) (mineAddress : Bytes)
    (witnessCommitment : Bytes32) : Except String Bytes := do
  rejectIf (2 ^ 32 ≤ height) "block height exceeds coinbase locktime range"
  let subsidy := blockSubsidy height alreadyGenerated
  (if subsidy > 0 then validateMineAddress mineAddress else .ok ())
  .ok (u32LeBytes 1 ++ [0x00] ++ u64LeBytes 0 ++
    encodeCompactSize 1 ++ zero32.toList ++ u32LeBytes 0xffffffff ++ encodeCompactSize 0 ++
    u32LeBytes 0xffffffff ++ encodeCompactSize (if subsidy > 0 then 2 else 1) ++
    (if subsidy > 0 then u64LeBytes (UInt64.ofNat subsidy) ++ u16LeBytes covTypeP2pk ++
      encodeCompactSize mineAddress.length ++ mineAddress else []) ++
    u64LeBytes 0 ++ u16LeBytes covTypeAnchor ++ encodeCompactSize 32 ++ witnessCommitment.toList ++
    u32LeBytes (UInt32.ofNat height) ++ encodeCompactSize 0 ++ encodeCompactSize 0)

structure MinedCandidate where
  raw : Bytes
  tx : Tx
  txid : Bytes32
  wtxid : Bytes32
  weight : Nat

/-- Both additions saturate. -/
def chooseValidTimestamp (nextHeight : Nat) (prevTimestamps : List UInt64) (now : UInt64) :
    UInt64 :=
  if nextHeight = 0 ∨ prevTimestamps = [] then if now = 0 then 1 else now
  else
    let median := Miner.mtpMedian nextHeight prevTimestamps
    if now > median ∧ now.toNat ≤ min (median.toNat + maxFutureDrift) u64Max then now
    else UInt64.ofNat (min (median.toNat + 1) u64Max)

def makeHeaderPrefix (prevHash merkleRoot : Bytes32) (timestamp : UInt64) (target : Bytes32) :
    Bytes :=
  u32LeBytes 1 ++ prevHash.toList ++ merkleRoot.toList ++ u64LeBytes timestamp ++ target.toList

def assembleBlockBytes (headerBytes coinbase : Bytes) (parsed : List MinedCandidate) : Bytes :=
  headerBytes ++ encodeCompactSize (1 + parsed.length) ++ coinbase ++
    parsed.flatMap MinedCandidate.raw

/-- What `mine_one` hands to `apply_block`, and what it was made from. -/
structure MinedTemplate where
  prevTimestamps : Option (List UInt64)
  timestamp : UInt64
  nonce : UInt64
  parsed : List MinedCandidate
  blockBytes : Bytes

section mining

variable [Crypto]

def parseMiningCandidate (raw : Bytes) : Except String MinedCandidate := do
  let p ← (parseTx raw).mapError TxError.toString
  rejectIf (p.consumed ≠ raw.length) "non-canonical tx bytes in miner input"
  let stats ← (txWeightAndStats p.tx).mapError TxError.toString
  .ok { raw, tx := p.tx, txid := p.txid, wtxid := p.wtxid, weight := stats.1 }

def buildWitnessCommitment (parsed : List MinedCandidate) : Except String Bytes32 := do
  let root ← (witnessMerkleRootWtxids (zero32 :: parsed.map MinedCandidate.wtxid)).mapError
    TxError.toString
  .ok (witnessCommitmentHash root)

/-- The search from `nonce` on, with `left` nonces to go. -/
def mineHeaderNonceFrom (blockWithoutNonce : Bytes) (target : Bytes32) (poll : Nat → Bool) :
    (left nonce : Nat) → Except String (Bytes × UInt64)
  | 0, _ => .error "exhausted nonce space without valid header"
  | left + 1, nonce => do
    rejectIf (nonce % 1024 = 0 ∧ poll (nonce / 1024)) "mining cancelled by rpc shutdown"
    let header := blockWithoutNonce ++ u64LeBytes (UInt64.ofNat nonce)
    match powCheck header target with
    | .ok _ => .ok (header, UInt64.ofNat nonce)
    | .error _ => mineHeaderNonceFrom blockWithoutNonce target poll left (nonce + 1)

def mineHeaderNonce (blockWithoutNonce : Bytes) (target : Bytes32) (poll : Nat → Bool) :
    Except String (Bytes × UInt64) :=
  mineHeaderNonceFrom blockWithoutNonce target poll (2 ^ 64) 0

/-- `mine_one_observed`, from the bootstrapped chain to the block that is applied.  Height and
parent are those of the next block; without a tip the parent is zero. -/
def mineOne (chainState : ChainState) (blockStore : Option BlockStore) (target : Bytes32)
    (now : UInt64) (mineAddress : Bytes)
    (selectCandidateTransactions : Nat → UInt64 → Except String (List MinedCandidate))
    (poll : Nat → Bool) : Except String MinedTemplate := do
  let next ← chainState.nextBlockContext
  let prevTimestamps ← prevTimestampsForNextBlock chainState blockStore
  let timestamp := chooseValidTimestamp next.1 (prevTimestamps.getD []) now
  let parsed ← selectCandidateTransactions next.1 (Miner.blockMtp prevTimestamps next.1 timestamp)
  let witnessCommitment ← buildWitnessCommitment parsed
  let coinbase ← buildCoinbaseTx next.1 chainState.alreadyGenerated mineAddress witnessCommitment
  let p ← (parseTx coinbase).mapError TxError.toString
  rejectIf (p.consumed ≠ coinbase.length) "coinbase serialization is non-canonical"
  let merkleRoot ← (merkleRootTxids (p.txid :: parsed.map MinedCandidate.txid)).mapError
    TxError.toString
  let mined ← mineHeaderNonce
    (makeHeaderPrefix (next.2.getD zero32) merkleRoot timestamp target) target poll
  .ok { prevTimestamps, timestamp, nonce := mined.2, parsed,
        blockBytes := assembleBlockBytes mined.1 coinbase parsed }

end mining

/-! ## 2. The bytes -/

/-- A block as its parser returns it, from transactions with their bytes. -/
def blockOf (header : BlockHeader) (headerBytes : Bytes) (items : List (Bytes × ParsedTx)) :
    ParsedBlock :=
  { header, headerBytes, txCount := items.length, txs := items.map fun x => x.2.tx,
    txids := items.map fun x => x.2.txid, wtxids := items.map fun x => x.2.wtxid }

theorem parseBlockHeaderBytes_makeHeaderPrefix (prevHash merkleRoot : Bytes32)
    (timestamp : UInt64) (target : Bytes32) (nonce : UInt64) :
    parseBlockHeaderBytes (makeHeaderPrefix prevHash merkleRoot timestamp target ++
      u64LeBytes nonce) = .ok ⟨1, prevHash, merkleRoot, timestamp, target, nonce⟩ := by
  have hword (v : UInt64) : UInt64.ofNat (leToNat (u64LeBytes v)) = v := by
    rw [u64LeBytes, leToNat_natToLe, show 256 ^ 8 = 2 ^ 64 from rfl,
      Nat.mod_eq_of_lt v.toNat_lt, UInt64.ofNat_toNat]
  have hone : UInt32.ofNat (leToNat (u32LeBytes 1)) = 1 := by decide
  simp [parseBlockHeaderBytes, makeHeaderPrefix, blockHeaderBytes, rejectIf, slice,
    List.drop_append, List.drop_of_length_le, List.take_of_length_le, hword, hone]

section parse

variable [Crypto] {p : ParsedTx} {headerBytes coinbase : Bytes} {header : BlockHeader}
  {parsed : List MinedCandidate}

theorem parseNextBlockTx_append {b : Bytes} (h : parseTx b = .ok p)
    (hlen : p.consumed = b.length) (r : Bytes) : parseNextBlockTx (b ++ r) = .ok (p, r) := by
  obtain ⟨hkind, hwf, hid, hwid, hcons, t, rfl⟩ := parseTx_eq_ok.mp h
  have hparse : parseTx (p.tx.coreBytes ++ p.tx.tailBytes ++ t ++ r) = .ok p :=
    parseTx_eq_ok.mpr ⟨hkind, hwf, hid, hwid, hcons, t ++ r, List.append_assoc _ _ _⟩
  have hpos : 0 < p.consumed := by
    simp [hcons, Tx.coreBytes]
  simp only [parseNextBlockTx, bind_eq_ok, exists_unit, rejectIf_eq_ok, Except.ok.injEq,
    Prod.mk.injEq]
  refine ⟨?_, p, hparse, by omega, ?_, rfl, by rw [hlen, List.drop_left]⟩
  · intro hnil
    rw [hlen, (List.append_eq_nil_iff.mp hnil).1] at hpos
    exact Nat.lt_irrefl 0 hpos
  · rw [hlen, Nat.not_lt]
    exact (List.sublist_append_left _ r).length_le

/-- Transactions that were read one by one are read one after the other. -/
theorem parseBlockTxs_flatMap : ∀ {items : List (Bytes × ParsedTx)},
    (∀ x ∈ items, parseTx x.1 = .ok x.2 ∧ x.2.consumed = x.1.length) →
    parseBlockTxs items.length (items.flatMap Prod.fst) = .ok (items.map Prod.snd, [])
  | [], _ => rfl
  | x :: items, h => by
    obtain ⟨⟨hx, hlen⟩, h⟩ := List.forall_mem_cons.mp h
    rw [List.length_cons, List.flatMap_cons, parseBlockTxs, parseNextBlockTx_append hx hlen,
      ok_bind, parseBlockTxs_flatMap h]
    rfl

theorem parseBlockBytes_flatMap {items : List (Bytes × ParsedTx)}
    (hheader : parseBlockHeaderBytes headerBytes = .ok header)
    (hitems : ∀ x ∈ items, parseTx x.1 = .ok x.2 ∧ x.2.consumed = x.1.length)
    (hne : items ≠ []) (hcount : items.length < 2 ^ 64) :
    parseBlockBytes (headerBytes ++ (encodeCompactSize items.length ++ items.flatMap Prod.fst)) =
      .ok (blockOf header headerBytes items) := by
  have hhl := BlockStore.length_of_parseBlockHeaderBytes hheader
  have hpos := List.length_pos_iff.mpr (encodeCompactSize_ne_nil items.length)
  have hread := readCompactSize_complete hcount (items.flatMap Prod.fst) 0
  simp only [parseBlockBytes, readTxCount, bind_eq_ok, exists_unit, rejectIf_eq_ok,
    mapError_eq_ok, Except.ok.injEq, List.take_left' hhl, List.drop_left' hhl]
  refine ⟨?_, header, hheader, _, ⟨_, hread, rfl⟩, ?_, _, parseBlockTxs_flatMap hitems, ?_, ?_⟩
  · rw [List.length_append, List.length_append, hhl]
    omega
  · exact fun h => hne (List.length_eq_zero_iff.mp h)
  · exact not_not.mpr rfl
  · simp [blockOf]

theorem parseBlockTxs_items : ∀ {count : Nat} {rem rest : Bytes} {ps : List ParsedTx},
    parseBlockTxs count rem = .ok (ps, rest) → ∃ items : List (Bytes × ParsedTx),
      items.map Prod.snd = ps ∧ items.length = count ∧ rem = items.flatMap Prod.fst ++ rest ∧
      ∀ x ∈ items, parseTx x.1 = .ok x.2 ∧ x.2.consumed = x.1.length
  | 0, rem, rest, ps, h => by
    cases h
    exact ⟨[], rfl, rfl, rfl, by simp⟩
  | count + 1, rem, rest, ps, h => by
    simp only [parseBlockTxs, parseNextBlockTx, bind_eq_ok, exists_unit, Except.ok.injEq,
      Prod.mk.injEq] at h
    obtain ⟨_, ⟨-, p, hp, -, -, rfl⟩, ⟨ps, _⟩, hps, rfl, rfl⟩ := h
    obtain ⟨hkind, hwf, hid, hwid, hcons, t, rfl⟩ := parseTx_eq_ok.mp hp
    simp only [hcons, List.drop_left] at hps
    obtain ⟨items, rfl, rfl, rfl, hitems⟩ := parseBlockTxs_items hps
    exact ⟨(p.tx.coreBytes ++ p.tx.tailBytes, p) :: items, rfl, rfl, by simp,
      List.forall_mem_cons.mpr ⟨⟨parseTx_eq_ok.mpr ⟨hkind, hwf, hid, hwid, hcons, [], by simp⟩,
        hcons⟩, hitems⟩⟩

/-- **What `parse_block_bytes` accepts**: a header, the shortest count, and as many transactions one
after the other, each of which is accepted on its own; nothing in between and nothing behind. -/
theorem block_format_exact (b : Bytes) (pb : ParsedBlock) :
    parseBlockBytes b = .ok pb ↔ ∃ headerBytes header items,
      parseBlockHeaderBytes headerBytes = .ok header ∧
      (∀ x ∈ items, parseTx x.1 = .ok x.2 ∧ x.2.consumed = x.1.length) ∧
      items ≠ [] ∧ items.length < 2 ^ 64 ∧ pb = blockOf header headerBytes items ∧
      b = headerBytes ++ (encodeCompactSize items.length ++ items.flatMap Prod.fst) := by
  constructor
  · intro h
    simp only [parseBlockBytes, readTxCount, bind_eq_ok, exists_unit, rejectIf_eq_ok,
      mapError_eq_ok, not_not, Except.ok.injEq] at h
    obtain ⟨-, header, hheader, _, ⟨⟨⟨n, k⟩, r⟩, hn, rfl⟩, hne, ⟨ps, rest⟩, hps, rfl, rfl⟩ := h
    obtain ⟨hlt, -, hbytes, -⟩ := readCompactSize_sound hn
    obtain ⟨items, rfl, rfl, hrest, hitems⟩ := parseBlockTxs_items hps
    simp only at hne hlt hbytes hrest
    refine ⟨_, header, items, hheader, hitems, ?_, hlt, by simp [blockOf], ?_⟩
    · rintro rfl
      exact hne rfl
    · rw [List.append_nil] at hrest
      rw [← hrest, ← hbytes]
      exact (List.take_append_drop _ _).symm
  · rintro ⟨headerBytes, header, items, hheader, hitems, hne, hlt, rfl, rfl⟩
    exact parseBlockBytes_flatMap hheader hitems hne hlt

/-- What an assembled block is read back as. -/
def minedBlock (header : BlockHeader) (headerBytes : Bytes) (coinbase : ParsedTx)
    (parsed : List MinedCandidate) : ParsedBlock :=
  { header, headerBytes, txCount := parsed.length + 1,
    txs := coinbase.tx :: parsed.map MinedCandidate.tx,
    txids := coinbase.txid :: parsed.map MinedCandidate.txid,
    wtxids := coinbase.wtxid :: parsed.map MinedCandidate.wtxid }

theorem parseBlockBytes_assembleBlockBytes
    (hheader : parseBlockHeaderBytes headerBytes = .ok header)
    (hcoinbase : parseTx coinbase = .ok p) (hlen : p.consumed = coinbase.length)
    (hparsed : ∀ c ∈ parsed, parseMiningCandidate c.raw = .ok c)
    (hcount : parsed.length + 1 < 2 ^ 64) :
    parseBlockBytes (assembleBlockBytes headerBytes coinbase parsed) =
      .ok (minedBlock header headerBytes p parsed) := by
  have hitems : ∀ x ∈ (coinbase, p) :: parsed.map fun c =>
      (c.raw, (⟨c.tx, c.txid, c.wtxid, c.raw.length⟩ : ParsedTx)),
      parseTx x.1 = .ok x.2 ∧ x.2.consumed = x.1.length := by
    refine List.forall_mem_cons.mpr ⟨⟨hcoinbase, hlen⟩, List.forall_mem_map.mpr ?_⟩
    intro c hc
    have hcand := hparsed c hc
    simp only [parseMiningCandidate, bind_eq_ok, exists_unit, mapError_eq_ok, rejectIf_eq_ok,
      not_not, Except.ok.injEq] at hcand
    obtain ⟨q, hq, hqlen, stats, -, hc⟩ := hcand
    rw [← hc]
    refine ⟨?_, rfl⟩
    simp only
    rw [hq, ← hqlen]
  have hblock := parseBlockBytes_flatMap hheader hitems (List.cons_ne_nil _ _)
    (by simpa using hcount)
  simpa [assembleBlockBytes, blockOf, minedBlock, List.flatMap_map, Function.comp_def, Nat.add_comm]
    using hblock

end parse

/-! ## 3. The time -/

theorem length_of_prevTimestampsForNextBlock {chainState : ChainState}
    {blockStore : Option BlockStore} {prevTimestamps : Option (List UInt64)}
    {next : Nat × Option Bytes32} (hnext : chainState.nextBlockContext = .ok next)
    (h : prevTimestampsForNextBlock chainState blockStore = .ok prevTimestamps) :
    ∀ window ∈ prevTimestamps, window.length = min next.1 11 := by
  intro window hwindow
  unfold ChainState.nextBlockContext at hnext
  unfold prevTimestampsForNextBlock at h
  split at h
  case isTrue =>
    cases h
    cases hwindow
  case isFalse htip =>
    simp only [htip, Bool.false_eq_true, if_false, bind_eq_ok, exists_unit, Except.ok.injEq]
      at hnext h
    obtain ⟨-, rfl⟩ := hnext
    obtain ⟨-, store, -, out, hout, rfl⟩ := h
    cases hwindow
    rw [length_of_mapM hout, List.length_range]

/-- **The chosen time is valid**, unless there is no later one left. -/
theorem validateTimestampRules_chooseValidTimestamp {height : Nat}
    {prevTimestamps : Option (List UInt64)} {now : UInt64}
    (hwindow : ∀ window ∈ prevTimestamps, window.length = min height 11)
    (hmax : (chooseValidTimestamp height (prevTimestamps.getD []) now).toNat ≠ u64Max) :
    validateTimestampRules (chooseValidTimestamp height (prevTimestamps.getD []) now) height
      prevTimestamps = .ok () := by
  cases prevTimestamps with
  | none => rfl
  | some window =>
    have hshort : ¬ window.length < min height 11 := (hwindow window rfl).not_lt
    rw [Option.getD_some] at hmax ⊢
    by_cases hempty : height = 0 ∨ window = []
    · simp only [validateTimestampRules, medianTimePast, if_pos hempty, ok_bind]
    · have hmedian : medianTimePast height (some window) =
          .ok (some (Miner.mtpMedian height window)) := by
        simp only [medianTimePast, if_neg hempty, rejectIf_neg hshort, ok_bind, Miner.mtpMedian,
          mtpMedianOf, if_neg hshort, sortedMiddle]
      rw [validateTimestampRules, hmedian, ok_bind]
      simp only [chooseValidTimestamp, if_neg hempty] at hmax ⊢
      generalize Miner.mtpMedian height window = median at *
      have hfit := median.toNat_lt
      split at hmax
      case isTrue h =>
        rw [if_pos h, rejectIf_neg (UInt64.not_le.mpr h.1), ok_bind, rejectIf_neg (by omega)]
      case isFalse h =>
        have hnext : (UInt64.ofNat (min (median.toNat + 1) u64Max)).toNat = median.toNat + 1 := by
          rw [UInt64.toNat_ofNat_of_lt' (by rw [u64Max, UInt64.size]; omega)] at hmax ⊢
          omega
        rw [if_neg h, rejectIf_neg ?_, ok_bind, rejectIf_neg (by rw [hnext, maxFutureDrift]; omega)]
        rw [UInt64.le_iff_toNat_le, hnext]
        omega

/-! ## 4. The coinbase -/

/-- The coinbase as a transaction. -/
def minedCoinbase (height subsidy : Nat) (mineAddress : Bytes) (witnessCommitment : Bytes32) : Tx :=
  ⟨1, 0x00, 0, [⟨zero32, 0xffffffff, [], 0xffffffff⟩],
    (if subsidy > 0 then [⟨UInt64.ofNat subsidy, covTypeP2pk, mineAddress⟩] else []) ++
      [⟨0, covTypeAnchor, witnessCommitment.toList⟩], UInt32.ofNat height, none, none, [], []⟩

section coinbase

variable {height subsidy generated sumFees : Nat} {mineAddress coinbase : Bytes}
  {commitment : Bytes32} {pb : ParsedBlock}

theorem buildCoinbaseTx_eq
    (h : buildCoinbaseTx height generated mineAddress commitment = .ok coinbase) :
    height < 2 ^ 32 ∧ coinbase =
      (minedCoinbase height (blockSubsidy height generated) mineAddress commitment).coreBytes ++
      (minedCoinbase height (blockSubsidy height generated) mineAddress commitment).tailBytes := by
  simp only [buildCoinbaseTx, bind_eq_ok, exists_unit, rejectIf_eq_ok, Except.ok.injEq] at h
  obtain ⟨hheight, -, rfl⟩ := h
  refine ⟨by omega, ?_⟩
  by_cases hs : blockSubsidy height generated > 0 <;>
    simp [minedCoinbase, Tx.coreBytes, Tx.tailBytes, hs, TxInput.bytes, TxOutput.bytes,
      daCoresBytes]

theorem validateCoinbaseStructure_mined (hheight : height < 2 ^ 32)
    (hhead : pb.txs.head? = some (minedCoinbase height subsidy mineAddress commitment)) :
    validateCoinbaseStructure pb height = .ok () := by
  simp only [validateCoinbaseStructure, hhead, okOr, ok_bind, bind_eq_ok, exists_unit,
    rejectIf_eq_ok, not_not]
  exact ⟨by simp [isCoinbaseTx, minedCoinbase], by simp [minedCoinbase], by omega, rfl⟩

/-- The mined coinbase takes the subsidy and leaves the fees. -/
theorem validateCoinbaseValueBound_mined (hhead : pb.txs.head? =
      some (minedCoinbase height (blockSubsidy height generated) mineAddress commitment))
    (hfees : blockSubsidy height generated + sumFees < 2 ^ 128) :
    validateCoinbaseValueBound pb height generated sumFees = .ok () := by
  unfold validateCoinbaseValueBound
  split
  case isTrue => rfl
  case isFalse =>
    generalize hsub : blockSubsidy height generated = subsidy at *
    have hvalue : (UInt64.ofNat subsidy).toNat ≤ subsidy := by
      rw [UInt64.toNat_ofNat']
      exact Nat.mod_le _ _
    simp only [hhead, okOr, ok_bind, coinbaseValueLimit, hsub, bind_eq_ok, exists_unit,
      rejectIf_eq_ok, Except.ok.injEq]
    refine ⟨if subsidy > 0 then (UInt64.ofNat subsidy).toNat else 0, ?_, _, ⟨by omega, rfl⟩, ?_⟩
    · by_cases hs : subsidy > 0
      · simp [sumCoinbaseOutputs, minedCoinbase, hs, rejectIf]
        omega
      · simp [sumCoinbaseOutputs, minedCoinbase, hs, rejectIf]
    · split <;> omega

theorem countP_minedCoinbase (height subsidy : Nat) (mineAddress : Bytes) (commitment : Bytes32) :
    (minedCoinbase height subsidy mineAddress commitment).outputs.countP
      (isWitnessCommitmentMatch commitment) = 1 := by
  have hp2pk : (covTypeP2pk == covTypeAnchor) = false := by decide
  by_cases hs : subsidy > 0 <;> simp [minedCoinbase, hs, isWitnessCommitmentMatch, hp2pk]

end coinbase

/-! ## 5. The validator -/

section agreement

variable [Crypto] {p : ParsedTx} {parsed : List MinedCandidate} {headerBytes : Bytes}

theorem mineHeaderNonceFrom_ok {blockWithoutNonce : Bytes} {target : Bytes32} {poll : Nat → Bool}
    {found : UInt64} : ∀ {left nonce : Nat},
    mineHeaderNonceFrom blockWithoutNonce target poll left nonce = .ok (headerBytes, found) →
    headerBytes = blockWithoutNonce ++ u64LeBytes found ∧ powCheck headerBytes target = .ok ()
  | 0, _, h => by cases h
  | left + 1, nonce, h => by
    simp only [mineHeaderNonceFrom, bind_eq_ok, exists_unit] at h
    obtain ⟨-, h⟩ := h
    split at h
    case h_1 hpow =>
      cases h
      exact ⟨rfl, hpow⟩
    case h_2 => exact mineHeaderNonceFrom_ok h

theorem validateHeaderCommitments_mined {root target : Bytes32} {timestamp nonce : UInt64}
    {prev : Option Bytes32} (hpow : powCheck headerBytes target = .ok ())
    (hroot : merkleRootTxids (p.txid :: parsed.map MinedCandidate.txid) = .ok root) :
    validateHeaderCommitments
      (minedBlock ⟨1, prev.getD zero32, root, timestamp, target, nonce⟩ headerBytes p parsed)
      prev (some target) = .ok () := by
  have htarget : ¬ ∃ t ∈ some target, target ≠ t := by simp
  have hprev : ¬ ∃ hash ∈ prev, prev.getD zero32 ≠ hash := by
    rintro ⟨hash, rfl, hne⟩
    exact hne rfl
  rw [validateHeaderCommitments, minedBlock, hpow, ok_bind, rejectIf_neg htarget, ok_bind,
    rejectIf_neg hprev, ok_bind, validateMerkleRoot, hroot]
  exact rejectIf_neg (not_not.mpr rfl)

theorem validateCoinbaseWitnessCommitment_mined {header : BlockHeader} {height subsidy : Nat}
    {mineAddress : Bytes} {commitment : Bytes32}
    (hcommit : buildWitnessCommitment parsed = .ok commitment)
    (htx : p.tx = minedCoinbase height subsidy mineAddress commitment) :
    validateCoinbaseWitnessCommitment (minedBlock header headerBytes p parsed) = .ok () := by
  simp only [buildWitnessCommitment, bind_eq_ok, mapError_eq_ok, Except.ok.injEq] at hcommit
  obtain ⟨wroot, hwroot, rfl⟩ := hcommit
  -- neither side looks at the wtxid of the coinbase
  have hvalid : witnessMerkleRootWtxids (p.wtxid :: parsed.map MinedCandidate.wtxid) =
    .ok wroot := hwroot
  simp only [validateCoinbaseWitnessCommitment, minedBlock, List.head?_cons, okOr, ok_bind,
    rejectIf_neg (List.cons_ne_nil _ _), hvalid, Except.mapError, htx, countP_minedCoinbase]
  exact rejectIf_neg (not_not.mpr rfl)

/-- What is left of the preflight where header, commitment, time and coinbase pass. -/
theorem validateConnectPreflight_eq {pb : ParsedBlock} {prev target : Option Bytes32}
    {height : Nat} {prevTimestamps : Option (List UInt64)}
    (hheader : validateHeaderCommitments pb prev target = .ok ())
    (hwitness : validateCoinbaseWitnessCommitment pb = .ok ())
    (htime : validateTimestampRules pb.header.timestamp height prevTimestamps = .ok ())
    (hcoinbase : validateCoinbaseStructure pb height = .ok ()) :
    validateConnectPreflight pb prev target height prevTimestamps = (do
      let stats ← accumulateBlockResourceStats pb
      validateBlockResourceLimits stats
      validateDaSetIntegrity pb.txs) := by
  have hlast : (validateDaSetIntegrity pb.txs >>= fun _ => .ok ()) =
    validateDaSetIntegrity pb.txs := bind_pure _
  simp only [validateConnectPreflight, validateParsedBlockPreflight, hheader, hwitness, htime,
    ok_bind, bind_assoc, hcoinbase, hlast]

end agreement

/-- A store whose canonical chain is the devnet genesis. -/
def genesisStore : BlockStore :=
  { rootPath := "", canonical := [zero32], canonicalHashByHeight := [zero32], blocks := ∅,
    headers := Finmap.singleton zero32 genesisHeader, undos := ∅, indexFile := [zero32] }

end Rubin.Node
