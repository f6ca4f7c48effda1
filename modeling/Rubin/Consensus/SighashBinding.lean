/-
# What the signature digest commits to

Two digests that are equal belong to signed messages that agree in everything the sighash type
covers.  The digest is a hash over hashes: the preimage has fixed-width fields only, and four of
them are hashes of byte strings of any length.

The assumption on SHA3-256 is that it has no collision among the strings these two calls hash
(`hashedStrings`); a hash that has no collision at all does not exist.  Equal digests then have
equal preimages, equal fields, and equal strings under each inner hash.  What is left is that
every such string determines what it was built from: prevouts and sequences by their width,
outputs because their encoding is prefix-free, and an absent output because it is the only one
that is encoded by nothing.
-/
import Rubin.Consensus.Sighash
import Rubin.Consensus.TxCodec
import Rubin.Lib.PrefixCode

namespace Rubin.Consensus

open Rubin.Lib

/-! ## 1. Encodings -/

theorem u16LeBytes_injective : Function.Injective u16LeBytes := fun v w h =>
  UInt16.toNat_inj.mp (natToLe_inj v.toNat_lt w.toNat_lt h)

theorem u32LeBytes_injective : Function.Injective u32LeBytes := fun v w h =>
  UInt32.toNat_inj.mp (natToLe_inj v.toNat_lt w.toNat_lt h)

theorem u64LeBytes_injective : Function.Injective u64LeBytes := fun v w h =>
  UInt64.toNat_inj.mp (natToLe_inj v.toNat_lt w.toNat_lt h)

theorem encodeCompactSize_prefixFree : PrefixFree (· < 2 ^ 64) encodeCompactSize := by
  intro m n x y hm hn h
  have hread := readCompactSize_complete hm x 0
  rw [h, readCompactSize_complete hn y 0] at hread
  simp only [Except.ok.injEq, Prod.mk.injEq] at hread
  have hmn : m = n := hread.1.1.symm
  rw [hmn] at h
  exact ⟨hmn, List.append_cancel_left h⟩

theorem TxOutput.bytes_ne_nil (o : TxOutput) : o.bytes ≠ [] := by
  intro h
  have hlen := congrArg List.length h
  simp only [TxOutput.bytes, List.length_append, u64LeBytes_length, List.length_nil] at hlen
  omega

theorem TxOutput.bytes_prefixFree :
    PrefixFree (fun o : TxOutput => o.covenantData.length < 2 ^ 64) TxOutput.bytes := by
  rintro ⟨v, c, d⟩ ⟨v', c', d'⟩ s t hd hd' h
  simp only [TxOutput.bytes, List.append_assoc] at h
  obtain ⟨hv, h⟩ := List.append_inj h (by simp)
  obtain ⟨hc, h⟩ := List.append_inj h (by simp)
  simp only [← List.append_assoc] at h
  obtain ⟨hdata, h⟩ := encodeCompactSize_prefixFree.lengthPrefixed d d' s t hd hd' h
  rw [u64LeBytes_injective hv, u16LeBytes_injective hc, hdata]
  exact ⟨rfl, h⟩

theorem TxInput.prevoutBytes_prefixFree :
    PrefixFree (fun _ => True)
      fun p : Bytes32 × UInt32 => p.1.toList ++ u32LeBytes p.2 := by
  refine PrefixFree.of_width (w := 36) (by simp) ?_
  rintro ⟨txid, vout⟩ ⟨txid', vout'⟩ h
  obtain ⟨h1, h2⟩ := List.append_inj h (by simp)
  exact Prod.ext (BytesN.toList_inj.mp h1) (u32LeBytes_injective h2)

theorem DaChunkCore.bytes_injective : Function.Injective DaChunkCore.bytes := by
  rintro ⟨id, i, hash⟩ ⟨id', i', hash'⟩ h
  simp only [DaChunkCore.bytes, List.append_assoc] at h
  obtain ⟨h1, h⟩ := List.append_inj h (by simp)
  obtain ⟨h2, h3⟩ := List.append_inj h (by simp)
  rw [BytesN.toList_inj.mp h1, u16LeBytes_injective h2, BytesN.toList_inj.mp h3]

theorem DaCommitCore.bytes_inj {c c' : DaCommitCore} (hc : c.batchSig.length < 2 ^ 64)
    (hc' : c'.batchSig.length < 2 ^ 64) (h : c.bytes = c'.bytes) : c = c' := by
  obtain ⟨id, n, dom, num, data, state, wd, suite, sig⟩ := c
  obtain ⟨id', n', dom', num', data', state', wd', suite', sig'⟩ := c'
  simp only [DaCommitCore.bytes, List.append_assoc] at h
  obtain ⟨h1, h⟩ := List.append_inj h (by simp)
  obtain ⟨h2, h⟩ := List.append_inj h (by simp)
  obtain ⟨h3, h⟩ := List.append_inj h (by simp)
  obtain ⟨h4, h⟩ := List.append_inj h (by simp)
  obtain ⟨h5, h⟩ := List.append_inj h (by simp)
  obtain ⟨h6, h⟩ := List.append_inj h (by simp)
  obtain ⟨h7, h⟩ := List.append_inj h (by simp)
  obtain ⟨h8, h⟩ := List.append_inj h (by simp)
  have h9 : sig = sig' := encodeCompactSize_prefixFree.lengthPrefixed.inj hc hc' h
  rw [BytesN.toList_inj.mp h1, u16LeBytes_injective h2, BytesN.toList_inj.mp h3,
    u64LeBytes_injective h4, BytesN.toList_inj.mp h5, BytesN.toList_inj.mp h6,
    BytesN.toList_inj.mp h7, (List.cons.inj h8).1, h9]

/-! ## 2. What is hashed -/

/-- Every Rust value: a `Vec` holds at most `isize::MAX` bytes. -/
structure Tx.InMemory (tx : Tx) : Prop where
  covenantData : ∀ o ∈ tx.outputs, o.covenantData.length ≤ isizeMax
  batchSig : ∀ c, tx.daCommitCore = some c → c.batchSig.length ≤ isizeMax

def anyoneCanPay (sighashType : UInt8) : Bool := (sighashType &&& sighashAnyonecanpay) != 0

def prevoutsPart (tx : Tx) (input : TxInput) (sighashType : UInt8) : Bytes :=
  if anyoneCanPay sighashType then input.prevoutBytes
  else tx.inputs.flatMap TxInput.prevoutBytes

def sequencesPart (tx : Tx) (input : TxInput) (sighashType : UInt8) : Bytes :=
  if anyoneCanPay sighashType then u32LeBytes input.sequence
  else tx.inputs.flatMap fun i => u32LeBytes i.sequence

def outputsPart (tx : Tx) (inputIndex : UInt32) (sighashType : UInt8) : Bytes :=
  if sighashType &&& 0x1f = sighashAll then tx.outputs.flatMap TxOutput.bytes
  else if sighashType &&& 0x1f = sighashNone then []
  else (tx.outputs[inputIndex.toNat]?.map TxOutput.bytes).getD []

variable {tx tx' : Tx} {input input' : TxInput} {i : UInt32} {t : UInt8}

section digests

variable [Crypto]

/-- The preimage, with its inner hashes. -/
def signedMessage (tx : Tx) (input : TxInput) (daCore : Bytes) (inputIndex : UInt32)
    (inputValue : UInt64) (chainId : Bytes32) (sighashType : UInt8) : Bytes :=
  sighashPreimage tx input inputIndex inputValue chainId sighashType (sha3_256 daCore)
    (sha3_256 (prevoutsPart tx input sighashType)) (sha3_256 (sequencesPart tx input sighashType))
    (sha3_256 (outputsPart tx inputIndex sighashType))

def hashedStrings (tx : Tx) (inputIndex : UInt32) (inputValue : UInt64) (chainId : Bytes32)
    (sighashType : UInt8) : List Bytes :=
  match tx.inputs[inputIndex.toNat]?, daCoreFieldsBytes tx with
  | some input, .ok daCore =>
    [daCore, prevoutsPart tx input sighashType, sequencesPart tx input sighashType,
      outputsPart tx inputIndex sighashType,
      signedMessage tx input daCore inputIndex inputValue chainId sighashType]
  | _, _ => []

theorem sighashV1DigestWithType_ok {inputIndex : UInt32} {inputValue : UInt64} {chainId d : Bytes32}
    {sighashType : UInt8}
    (h : sighashV1DigestWithType tx inputIndex inputValue chainId sighashType = .ok d) :
    ∃ input daCore, tx.inputs[inputIndex.toNat]? = some input ∧
      daCoreFieldsBytes tx = .ok daCore ∧
      d = sha3_256 (signedMessage tx input daCore inputIndex inputValue chainId sighashType) := by
  rw [sighashV1DigestWithType_of_steady
    (sighashV1DigestWithCache_plain tx inputIndex inputValue chainId sighashType)] at h
  simp only [sighashV1DigestPlain, bind_eq_ok, okOr_eq_ok, Except.ok.injEq, rejectIf_eq_ok,
    exists_eq_left'] at h
  obtain ⟨input, hin, _, _, hOut, hout, _, ⟨daCore, hda, rfl⟩, rfl⟩ := h
  refine ⟨input, daCore, hin, hda, ?_⟩
  have hhash : hOut = sha3_256 (outputsPart tx inputIndex sighashType) := by
    unfold digestOutputsPlain singleOutputHash at hout
    unfold outputsPart
    split_ifs at hout ⊢
    · exact (Except.ok.inj hout).symm
    · exact (Except.ok.inj hout).symm
    · rw [← Except.ok.inj hout]
      cases tx.outputs[inputIndex.toNat]? <;> rfl
  rw [signedMessage, hhash, prevoutsPart, sequencesPart]
  unfold anyoneCanPay prevoutsHash sequencesHash
  split_ifs <;> rfl

end digests

/-! ## 3. Binding -/

/-- What equal digests have in common: index, value, chain and type `i v c t` on one side,
`i' v' c' t'` on the other. -/
structure SameMessage (tx tx' : Tx) (i i' : UInt32) (v v' : UInt64) (c c' : Bytes32)
    (t t' : UInt8) : Prop where
  sighashType : t = t'
  chainId : c = c'
  version : tx.version = tx'.version
  txKind : tx.txKind = tx'.txKind
  txNonce : tx.txNonce = tx'.txNonce
  locktime : tx.locktime = tx'.locktime
  inputIndex : i = i'
  inputValue : v = v'
  /-- the outpoint and the sequence of the spent input -/
  spent : ∃ input input', tx.inputs[i.toNat]? = some input ∧
    tx'.inputs[i'.toNat]? = some input' ∧ input.prevTxid = input'.prevTxid ∧
    input.prevVout = input'.prevVout ∧ input.sequence = input'.sequence
  daCommitCore : tx.txKind = 0x01 → tx.daCommitCore = tx'.daCommitCore
  daChunkCore : tx.txKind = 0x02 → tx.daChunkCore = tx'.daChunkCore
  allOutputs : t &&& 0x1f = sighashAll → tx.outputs = tx'.outputs
  /-- neither has an output at the index, or both have the same one -/
  singleOutput : t &&& 0x1f = sighashSingle →
    tx.outputs[i.toNat]? = tx'.outputs[i'.toNat]?
  prevouts : t &&& sighashAnyonecanpay = 0 →
    tx.inputs.map (fun i => (i.prevTxid, i.prevVout)) =
      tx'.inputs.map fun i => (i.prevTxid, i.prevVout)
  sequences : t &&& sighashAnyonecanpay = 0 →
    tx.inputs.map TxInput.sequence = tx'.inputs.map TxInput.sequence

/-- The fields of the preimage. -/
theorem sighashPreimage_inj {i' : UInt32} {v v' : UInt64} {c c' d d' p p' q q' o o' : Bytes32}
    {t' : UInt8}
    (h : sighashPreimage tx input i v c t d p q o = sighashPreimage tx' input' i' v' c' t' d' p' q' o')
    :
    (c = c' ∧ tx.version = tx'.version ∧ tx.txKind = tx'.txKind ∧ tx.txNonce = tx'.txNonce) ∧
    (d = d' ∧ p = p' ∧ q = q' ∧ o = o') ∧
    (i = i' ∧ input.prevTxid = input'.prevTxid ∧ input.prevVout = input'.prevVout ∧ v = v' ∧
      input.sequence = input'.sequence) ∧
    tx.locktime = tx'.locktime ∧ t = t' := by
  simp only [sighashPreimage, List.append_assoc, List.append_cancel_left_eq] at h
  obtain ⟨h1, h⟩ := List.append_inj h (by simp)
  obtain ⟨h2, h⟩ := List.append_inj h (by simp)
  obtain ⟨h3, h⟩ := List.append_inj h (by simp)
  obtain ⟨h4, h⟩ := List.append_inj h (by simp)
  obtain ⟨h5, h⟩ := List.append_inj h (by simp)
  obtain ⟨h6, h⟩ := List.append_inj h (by simp)
  obtain ⟨h7, h⟩ := List.append_inj h (by simp)
  obtain ⟨h8, h⟩ := List.append_inj h (by simp)
  obtain ⟨h9, h⟩ := List.append_inj h (by simp)
  obtain ⟨h10, h⟩ := List.append_inj h (by simp)
  obtain ⟨h11, h⟩ := List.append_inj h (by simp)
  obtain ⟨h12, h⟩ := List.append_inj h (by simp)
  obtain ⟨h13, h⟩ := List.append_inj h (by simp)
  obtain ⟨h14, h15⟩ := List.append_inj h (by simp)
  exact ⟨⟨BytesN.toList_inj.mp h1, u32LeBytes_injective h2, (List.cons.inj h3).1,
      u64LeBytes_injective h4⟩,
    ⟨BytesN.toList_inj.mp h5, BytesN.toList_inj.mp h6, BytesN.toList_inj.mp h7,
      BytesN.toList_inj.mp h13⟩,
    ⟨u32LeBytes_injective h8, BytesN.toList_inj.mp h9, u32LeBytes_injective h10,
      u64LeBytes_injective h11, u32LeBytes_injective h12⟩,
    u32LeBytes_injective h14, (List.cons.inj h15).1⟩

theorem prevoutsPart_inj (ht : t &&& sighashAnyonecanpay = 0)
    (h : prevoutsPart tx input t = prevoutsPart tx' input' t) :
    tx.inputs.map (fun i => (i.prevTxid, i.prevVout)) =
      tx'.inputs.map fun i => (i.prevTxid, i.prevVout) := by
  have hacp : anyoneCanPay t = false := by simp [anyoneCanPay, ht]
  rw [prevoutsPart, prevoutsPart, hacp] at h
  refine TxInput.prevoutBytes_prefixFree.flatMap_inj ?_ (fun _ _ => trivial) (fun _ _ => trivial) ?_
  · intro p hp
    have hlen := congrArg List.length hp
    simp at hlen
  · rw [List.flatMap_map, List.flatMap_map]
    exact h

theorem sequencesPart_inj (ht : t &&& sighashAnyonecanpay = 0)
    (h : sequencesPart tx input t = sequencesPart tx' input' t) :
    tx.inputs.map TxInput.sequence = tx'.inputs.map TxInput.sequence := by
  have hacp : anyoneCanPay t = false := by simp [anyoneCanPay, ht]
  rw [sequencesPart, sequencesPart, hacp] at h
  have hfree : PrefixFree (fun _ => True) u32LeBytes :=
    PrefixFree.of_width u32LeBytes_length u32LeBytes_injective
  refine hfree.flatMap_inj ?_ (fun _ _ => trivial) (fun _ _ => trivial) ?_
  · intro v hv
    have hlen := congrArg List.length hv
    simp at hlen
  · rw [List.flatMap_map, List.flatMap_map]
    exact h

theorem isizeMax_lt : isizeMax < 2 ^ 64 := by decide

theorem Tx.InMemory.output (h : tx.InMemory) :
    ∀ o ∈ tx.outputs, o.covenantData.length < 2 ^ 64 := fun o ho =>
  (h.covenantData o ho).trans_lt isizeMax_lt

theorem outputsPart_inj_all (hm : tx.InMemory) (hm' : tx'.InMemory) (ht : t &&& 0x1f = sighashAll)
    (h : outputsPart tx i t = outputsPart tx' i t) : tx.outputs = tx'.outputs := by
  rw [outputsPart, outputsPart, if_pos ht, if_pos ht] at h
  exact TxOutput.bytes_prefixFree.flatMap_inj TxOutput.bytes_ne_nil hm.output hm'.output h

theorem outputsPart_inj_single (hm : tx.InMemory) (hm' : tx'.InMemory)
    (ht : t &&& 0x1f = sighashSingle) (h : outputsPart tx i t = outputsPart tx' i t) :
    tx.outputs[i.toNat]? = tx'.outputs[i.toNat]? := by
  rw [outputsPart, outputsPart, ht] at h
  simp only [if_neg (by decide : ¬ sighashSingle = sighashAll),
    if_neg (by decide : ¬ sighashSingle = sighashNone)] at h
  cases ho : tx.outputs[i.toNat]? with
  | none =>
    cases ho' : tx'.outputs[i.toNat]? with
    | none => rfl
    | some o' =>
      rw [ho, ho'] at h
      exact absurd h.symm (TxOutput.bytes_ne_nil o')
  | some o =>
    cases ho' : tx'.outputs[i.toNat]? with
    | none =>
      rw [ho, ho'] at h
      exact absurd h (TxOutput.bytes_ne_nil o)
    | some o' =>
      rw [ho, ho'] at h
      rw [TxOutput.bytes_prefixFree.inj (hm.output o (List.mem_of_getElem? ho))
        (hm'.output o' (List.mem_of_getElem? ho')) h]

theorem daCoreFieldsBytes_inj (hm : tx.InMemory) (hm' : tx'.InMemory) {d : Bytes}
    (hk : tx.txKind = tx'.txKind) (h : daCoreFieldsBytes tx = .ok d)
    (h' : daCoreFieldsBytes tx' = .ok d) :
    (tx.txKind = 0x01 → tx.daCommitCore = tx'.daCommitCore) ∧
      (tx.txKind = 0x02 → tx.daChunkCore = tx'.daChunkCore) := by
  unfold daCoreFieldsBytes at h h'
  rw [← hk] at h'
  constructor
  · intro h1
    rw [h1, if_neg (by decide), if_pos rfl] at h h'
    cases hc : tx.daCommitCore with
    | none =>
      rw [hc] at h
      cases h
    | some c =>
      cases hc' : tx'.daCommitCore with
      | none =>
        rw [hc'] at h'
        cases h'
      | some c' =>
        rw [hc] at h
        rw [hc'] at h'
        rw [DaCommitCore.bytes_inj ((hm.batchSig c hc).trans_lt isizeMax_lt)
          ((hm'.batchSig c' hc').trans_lt isizeMax_lt)
          ((Except.ok.inj h).trans (Except.ok.inj h').symm)]
  · intro h2
    rw [h2, if_neg (by decide), if_neg (by decide), if_pos rfl] at h h'
    cases hc : tx.daChunkCore with
    | none =>
      rw [hc] at h
      cases h
    | some c =>
      cases hc' : tx'.daChunkCore with
      | none =>
        rw [hc'] at h'
        cases h'
      | some c' =>
        rw [hc] at h
        rw [hc'] at h'
        rw [DaChunkCore.bytes_injective ((Except.ok.inj h).trans (Except.ok.inj h').symm)]

/-- **The digest commits.**  If SHA3-256 has no collision among the strings the two calls hash,
equal digests sign the same message. -/
theorem sighash_digest_binding [Crypto] (tx tx' : Tx) (inputIndex inputIndex' : UInt32)
    (inputValue inputValue' : UInt64) (chainId chainId' : Bytes32) (sighashType sighashType' : UInt8)
    (d : Bytes32) (hm : tx.InMemory) (hm' : tx'.InMemory)
    (hfree : Set.InjOn sha3_256 {b | b ∈ hashedStrings tx inputIndex inputValue chainId sighashType ∨
      b ∈ hashedStrings tx' inputIndex' inputValue' chainId' sighashType'})
    (h : sighashV1DigestWithType tx inputIndex inputValue chainId sighashType = .ok d)
    (h' : sighashV1DigestWithType tx' inputIndex' inputValue' chainId' sighashType' = .ok d) :
    SameMessage tx tx' inputIndex inputIndex' inputValue inputValue' chainId chainId' sighashType
      sighashType' := by
  obtain ⟨input, da, hin, hda, rfl⟩ := sighashV1DigestWithType_ok h
  obtain ⟨input', da', hin', hda', hd⟩ := sighashV1DigestWithType_ok h'
  have hmem : ∀ b ∈ [da, prevoutsPart tx input sighashType, sequencesPart tx input sighashType,
      outputsPart tx inputIndex sighashType,
      signedMessage tx input da inputIndex inputValue chainId sighashType],
      b ∈ hashedStrings tx inputIndex inputValue chainId sighashType := by
    intro b hb
    rw [hashedStrings, hin, hda]
    exact hb
  have hmem' : ∀ b ∈ [da', prevoutsPart tx' input' sighashType', sequencesPart tx' input' sighashType',
      outputsPart tx' inputIndex' sighashType',
      signedMessage tx' input' da' inputIndex' inputValue' chainId' sighashType'],
      b ∈ hashedStrings tx' inputIndex' inputValue' chainId' sighashType' := by
    intro b hb
    rw [hashedStrings, hin', hda']
    exact hb
  have hmsg := hfree (Or.inl (hmem _ (by simp))) (Or.inr (hmem' _ (by simp))) hd
  obtain ⟨⟨hc, hv, hk, hn⟩, ⟨hdh, hph, hqh, hoh⟩, ⟨hi, htxid, hvout, hval, hseq⟩, hl, ht⟩ :=
    sighashPreimage_inj hmsg
  have hdeq := hfree (Or.inl (hmem _ (by simp))) (Or.inr (hmem' _ (by simp))) hdh
  have hpeq := hfree (Or.inl (hmem _ (by simp))) (Or.inr (hmem' _ (by simp))) hph
  have hqeq := hfree (Or.inl (hmem _ (by simp))) (Or.inr (hmem' _ (by simp))) hqh
  have hoeq := hfree (Or.inl (hmem _ (by simp))) (Or.inr (hmem' _ (by simp))) hoh
  subst hi
  subst ht
  rw [hdeq] at hda
  obtain ⟨hcommit, hchunk⟩ := daCoreFieldsBytes_inj hm hm' hk hda hda'
  exact
    { sighashType := rfl, chainId := hc, version := hv, txKind := hk, txNonce := hn, locktime := hl
      inputIndex := rfl, inputValue := hval
      spent := ⟨input, input', hin, hin', htxid, hvout, hseq⟩
      daCommitCore := hcommit, daChunkCore := hchunk
      allOutputs := fun hall => outputsPart_inj_all hm hm' hall hoeq
      singleOutput := fun hone => outputsPart_inj_single hm hm' hone hoeq
      prevouts := fun hacp => prevoutsPart_inj hacp hpeq
      sequences := fun hacp => sequencesPart_inj hacp hqeq }

/-- A payment of `value`, signed with `NONE | ANYONECANPAY`. -/
def openPayment (value : UInt64) : Tx :=
  { version := txWireVersion, txKind := 0x00, txNonce := 7, inputs := [⟨zero32, 3, [], 5⟩],
    outputs := [⟨value, covTypeP2pk, []⟩], locktime := 0, daCommitCore := none,
    daChunkCore := none, witness := [], daPayload := [] }

theorem openPayment_inMemory (value : UInt64) : (openPayment value).InMemory :=
  ⟨by simp [openPayment], fun c hc => nomatch hc⟩

/-- Two payments that differ in an output the type does not cover. -/
theorem sighash_digest_binding_openPayment :
    letI := Crypto.sha3With fun _ _ _ => .ok true
    SameMessage (openPayment 1) (openPayment 2) 0 0 10 10 zero32 zero32 0x82 0x82 := by
  let _ := Crypto.sha3With fun _ _ _ => .ok true
  have hfree : ∀ a ∈ hashedStrings (openPayment 1) 0 10 zero32 0x82,
      ∀ b ∈ hashedStrings (openPayment 1) 0 10 zero32 0x82, sha3_256 a = sha3_256 b → a = b := by
    decide +kernel
  have hsame : hashedStrings (openPayment 2) 0 10 zero32 0x82 =
      hashedStrings (openPayment 1) 0 10 zero32 0x82 := rfl
  obtain ⟨d, hd⟩ := exists_ok_of_isOk
    (x := sighashV1DigestWithType (openPayment 1) 0 10 zero32 0x82) (by decide +kernel)
  refine sighash_digest_binding (openPayment 1) (openPayment 2) 0 0 10 10 zero32 zero32 0x82 0x82 d
    (openPayment_inMemory 1) (openPayment_inMemory 2) ?_ hd ?_
  · rw [hsame]
    intro a ha b hb
    exact hfree a (or_self_iff.mp ha) b (or_self_iff.mp hb)
  · rw [← hd]
    decide +kernel

end Rubin.Consensus
