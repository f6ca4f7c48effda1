/-
# Undo records on disk

The payload part of `undo.rs`.  A stored record is a tree of plain fields in which hashes and covenant
data are hexadecimal text.  It is read in two ways: decoded into a `BlockUndo` when a block is
disconnected, and compared in place with a `BlockUndo` when a block is committed again.

Texts are lists of their bytes.  The JSON reader is a parameter (`UndoPayloadReader`): whatever it
returns is checked against the serializer's output.  A `u128` is a natural number.
-/
import Rubin.Node.Envelope
import Rubin.Node.Undo

namespace Rubin.Node

open Rubin.Lib Rubin.Consensus

/-! ## 1. The tree -/

structure SpentUndoDisk where
  txid : Bytes
  vout : UInt32
  value : UInt64
  covenantType : UInt16
  covenantData : Bytes
  creationHeight : UInt64
  createdByCoinbase : Bool
deriving DecidableEq

structure TxUndoDisk where
  spent : List SpentUndoDisk
deriving DecidableEq

structure BlockUndoDisk where
  blockHeight : UInt64
  previousAlreadyGenerated : UInt64
  txs : List TxUndoDisk
deriving DecidableEq

structure BlockUndoDiskV2 where
  blockHeight : UInt64
  previousAlreadyGenerated : Nat
  txs : List TxUndoDisk
deriving DecidableEq

inductive ValidatedBlockUndo where
  | v1 (disk : BlockUndoDisk)
  | v2 (disk : BlockUndoDiskV2)
deriving DecidableEq

def jsonItems : List Bytes → Bytes
  | [] => []
  | [item] => item
  | item :: rest => item ++ [44] ++ jsonItems rest

def jsonArray (items : List Bytes) : Bytes := [91] ++ jsonItems items ++ [93]

def jsonBool (b : Bool) : Bytes := ascii (if b then "true" else "false")

def SpentUndoDisk.json (spent : SpentUndoDisk) : Bytes := jsonObject
  [("txid", jsonString spent.txid), ("vout", jsonNumber spent.vout.toNat),
    ("value", jsonNumber spent.value.toNat), ("covenant_type", jsonNumber spent.covenantType.toNat),
    ("covenant_data", jsonString spent.covenantData),
    ("creation_height", jsonNumber spent.creationHeight.toNat),
    ("created_by_coinbase", jsonBool spent.createdByCoinbase)]

def TxUndoDisk.json (txUndo : TxUndoDisk) : Bytes :=
  jsonObject [("spent", jsonArray (txUndo.spent.map SpentUndoDisk.json))]

def BlockUndoDisk.json (disk : BlockUndoDisk) : Bytes := jsonObject
  [("block_height", jsonNumber disk.blockHeight.toNat),
    ("previous_already_generated", jsonNumber disk.previousAlreadyGenerated.toNat),
    ("txs", jsonArray (disk.txs.map TxUndoDisk.json))]

/-- The widened amount is a decimal string. -/
def BlockUndoDiskV2.json (disk : BlockUndoDiskV2) : Bytes := jsonObject
  [("block_height", jsonNumber disk.blockHeight.toNat),
    ("previous_already_generated", jsonString (jsonNumber disk.previousAlreadyGenerated)),
    ("txs", jsonArray (disk.txs.map TxUndoDisk.json))]

/-! ## 2. Reading a payload -/

inductive UndoSupplyToken where
  | unsigned (value : UInt64)
  | string (value : Bytes) (unescaped : Bool)
  | other
deriving DecidableEq

/-- `serde_json::from_slice` at the three types the reader asks for. -/
class UndoPayloadReader where
  /-- `BlockUndoPayloadShape`: no field is missing, unknown or doubled. -/
  shape : Bytes → Bool
  supplyProbe : Bytes → Option UndoSupplyToken
  /-- `BlockUndoDiskRaw`, without the supply. -/
  typed : Bytes → Option (UInt64 × List TxUndoDisk)

def isAsciiDigit (c : UInt8) : Bool := decide (48 ≤ c.toNat) && decide (c.toNat ≤ 57)

def parseCanonicalDecimal (text : Bytes) : Option Nat :=
  if text = [] then none
  else if text.head? = some 48 ∧ text.length ≠ 1 then none
  else if text.all isAsciiDigit = false then none
  else
    let value := text.foldl (fun n c => 10 * n + (c.toNat - 48)) 0
    if value < 2 ^ 128 then some value else none

def undoInvalidV1Supply : String :=
  "decode undo: envelope v1 previous_already_generated must be a nonnegative JSON integer through u64"
def undoInvalidV2Supply : String :=
  "decode undo: envelope v2 previous_already_generated must be a canonical unsigned decimal " ++
    "string within u128"
def undoPayloadNotCanonical : String := "decode undo: payload is not the canonical encoding"

def validLowercaseHex (value : Bytes) : Bool :=
  decide (value.length % 2 = 0) && value.all Hex.isLower

/-- The two texts of a spent entry are canonical. -/
def SpentUndoDisk.canonicalFields (spent : SpentUndoDisk) : Bool :=
  validCanonicalHashHex spent.txid && validLowercaseHex spent.covenantData

def checkSpentCanonical (txIndex : Nat) (p : SpentUndoDisk × Nat) : Except String Unit :=
  rejectIf (p.1.canonicalFields = false)
    ("decode undo: txs[" ++ Nat.repr txIndex ++ "].spent[" ++ Nat.repr p.2 ++
      "] txid/covenant_data must be lowercase hex")

def checkUndoTxsCanonicalFields (txs : List TxUndoDisk) : Except String Unit :=
  forEach (fun p => forEach (checkSpentCanonical p.2) p.1.spent.zipIdx) txs.zipIdx

section read

variable [UndoPayloadReader]

def decodeBlockUndoSupply (raw : Bytes) (invalidSupplyError : String) :
    Except String UndoSupplyToken := do
  rejectIf (UndoPayloadReader.shape raw = false) undoPayloadNotCanonical
  okOr (UndoPayloadReader.supplyProbe raw) invalidSupplyError

def decodeBlockUndoTyped (raw : Bytes) : Except String (UInt64 × List TxUndoDisk) :=
  okOr (UndoPayloadReader.typed raw) undoPayloadNotCanonical

def unsignedSupply : UndoSupplyToken → Option UInt64
  | .unsigned value => some value
  | _ => none

def decimalSupply : UndoSupplyToken → Option Nat
  | .string value true => parseCanonicalDecimal value
  | _ => none

def decodeValidatedBlockUndoV1 (raw : Bytes) : Except String ValidatedBlockUndo := do
  let supply ← decodeBlockUndoSupply raw undoInvalidV1Supply
  let previousAlreadyGenerated ← okOr (unsignedSupply supply) undoInvalidV1Supply
  let decoded ← decodeBlockUndoTyped raw
  let disk : BlockUndoDisk := ⟨decoded.1, previousAlreadyGenerated, decoded.2⟩
  checkUndoTxsCanonicalFields disk.txs
  rejectIf (disk.json ≠ raw) undoPayloadNotCanonical
  .ok (.v1 disk)

def decodeValidatedBlockUndoV2 (raw : Bytes) : Except String ValidatedBlockUndo := do
  let supply ← decodeBlockUndoSupply raw undoInvalidV2Supply
  let previousAlreadyGenerated ← okOr (decimalSupply supply) undoInvalidV2Supply
  let decoded ← decodeBlockUndoTyped raw
  let disk : BlockUndoDiskV2 := ⟨decoded.1, previousAlreadyGenerated, decoded.2⟩
  checkUndoTxsCanonicalFields disk.txs
  rejectIf (disk.json ≠ raw) undoPayloadNotCanonical
  .ok (.v2 disk)

def decodeValidatedBlockUndo (version : Nat) (payload : Bytes) : Except String ValidatedBlockUndo :=
  if version = undoEnvelopeVersionV1 then decodeValidatedBlockUndoV1 payload
  else decodeValidatedBlockUndoV2 payload

end read

/-! ## 3. Decoding -/

/-- The errors of `hex::decode`. -/
inductive FromHexError where
  | invalidHexCharacter (c : UInt8) (index : Nat)
  | oddLength
deriving DecidableEq

def hexPairs : Nat → Bytes → Except FromHexError Bytes
  | index, c :: d :: rest => do
    let hi ← okOr (Hex.value c) (.invalidHexCharacter c index)
    let lo ← okOr (Hex.value d) (.invalidHexCharacter d (index + 1))
    let bytes ← hexPairs (index + 2) rest
    .ok (UInt8.ofNat (16 * hi + lo) :: bytes)
  | _, _ => .ok []

def hexDecode (text : Bytes) : Except FromHexError Bytes :=
  if text.length % 2 ≠ 0 then .error .oddLength else hexPairs 0 text

inductive Hex32Error where
  | fromHex (e : FromHexError)
  /-- `expected 32 bytes, got ..`. -/
  | wrongLength (got : Nat)
deriving DecidableEq

def parseHex32 (text : Bytes) : Except Hex32Error Bytes32 := do
  let bytes ← (hexDecode text).mapError .fromHex
  if h : bytes.length = 32 then .ok ⟨bytes, h⟩ else .error (.wrongLength bytes.length)

/-- The field that did not decode, by its path. -/
structure UndoFieldError where
  field : String
  cause : Hex32Error
deriving DecidableEq

def undoFieldPath (txIndex spentIndex : Nat) (name : String) : String :=
  "undo[" ++ Nat.repr txIndex ++ "].spent[" ++ Nat.repr spentIndex ++ "]." ++ name

def spentFromDisk (txIndex : Nat) (p : SpentUndoDisk × Nat) : Except UndoFieldError SpentUndo := do
  let txid ← (parseHex32 p.1.txid).mapError fun e => ⟨undoFieldPath txIndex p.2 "txid", e⟩
  let covenantData ← (hexDecode p.1.covenantData).mapError fun e =>
    ⟨undoFieldPath txIndex p.2 "covenant_data", .fromHex e⟩
  .ok ⟨⟨txid, p.1.vout⟩, ⟨p.1.value, p.1.covenantType, covenantData, p.1.creationHeight.toNat,
    p.1.createdByCoinbase⟩⟩

def txFromDisk (p : TxUndoDisk × Nat) : Except UndoFieldError TxUndo := do
  let spent ← p.1.spent.zipIdx.mapM (spentFromDisk p.2)
  .ok ⟨spent⟩

def blockUndoFromParts (blockHeight previousAlreadyGenerated : Nat) (diskTxs : List TxUndoDisk) :
    Except UndoFieldError BlockUndo := do
  let txs ← diskTxs.zipIdx.mapM txFromDisk
  .ok ⟨blockHeight, previousAlreadyGenerated, txs⟩

def blockUndoFromValidated : ValidatedBlockUndo → Except UndoFieldError BlockUndo
  | .v1 disk =>
    blockUndoFromParts disk.blockHeight.toNat disk.previousAlreadyGenerated.toNat disk.txs
  | .v2 disk => blockUndoFromParts disk.blockHeight.toNat disk.previousAlreadyGenerated disk.txs

/-! ## 4. Comparing -/

/-- `b"0123456789abcdef"`. -/
def hexTable : Bytes := ascii "0123456789abcdef"

def lowercaseHexMatchesBytes (value bytes : Bytes) : Bool :=
  if value.length ≠ bytes.length * 2 then false
  else bytes.zipIdx.all fun p =>
    value[p.2 * 2]? == hexTable[(p.1 >>> 4).toNat]? &&
      value[p.2 * 2 + 1]? == hexTable[(p.1 &&& 0x0f).toNat]?

def spentMatches (disk : SpentUndoDisk) (candidate : SpentUndo) : Bool :=
  !(disk.vout != candidate.outpoint.vout || disk.value != candidate.entry.value ||
    disk.covenantType != candidate.entry.covenantType ||
    disk.creationHeight.toNat != candidate.entry.creationHeight ||
    disk.createdByCoinbase != candidate.entry.createdByCoinbase ||
    !lowercaseHexMatchesBytes disk.txid candidate.outpoint.txid.toList ||
    !lowercaseHexMatchesBytes disk.covenantData candidate.entry.covenantData)

/-- Two lists of one length, compared entry by entry. -/
def allMatch {α β : Type} (f : α → β → Bool) (disk : List α) (candidate : List β) : Bool :=
  if disk.length ≠ candidate.length then false else (disk.zip candidate).all fun p => f p.1 p.2

def diskTxsMatchCandidate (diskTxs : List TxUndoDisk) (candidateTxs : List TxUndo) : Bool :=
  allMatch (fun diskTx candidateTx => allMatch spentMatches diskTx.spent candidateTx.spent)
    diskTxs candidateTxs

def validatedBlockUndoMatches (disk : ValidatedBlockUndo) (candidate : BlockUndo) : Bool :=
  match disk with
  | .v1 disk => candidate.blockHeight == disk.blockHeight.toNat &&
      candidate.previousAlreadyGenerated == disk.previousAlreadyGenerated.toNat &&
      diskTxsMatchCandidate disk.txs candidate.txs
  | .v2 disk => candidate.blockHeight == disk.blockHeight.toNat &&
      candidate.previousAlreadyGenerated == disk.previousAlreadyGenerated &&
      diskTxsMatchCandidate disk.txs candidate.txs

/-! ## 5. Comparing is decoding -/

theorem hexPairs_eq_ok : ∀ {text bytes : Bytes} (index : Nat), text.length % 2 = 0 →
    (hexPairs index text = .ok bytes ↔ Hex.decode text = some bytes)
  | [], bytes, index, _ => by simp [hexPairs, Hex.decode]
  | [c], bytes, index, h => by simp at h
  | c :: d :: rest, bytes, index, h => by
    have hrest : rest.length % 2 = 0 := by
      rw [List.length_cons, List.length_cons] at h
      omega
    simp only [hexPairs, Hex.decode, bind_eq_ok, okOr_eq_ok, Except.ok.injEq, Option.bind_eq_bind,
      Option.bind_eq_some_iff, Option.some.injEq, hexPairs_eq_ok (index + 2) hrest]

/-- **A lower-case text** decodes to the one string it is written for. -/
theorem hexDecode_eq_ok_iff {text bytes : Bytes} (h : validLowercaseHex text = true) :
    hexDecode text = .ok bytes ↔ text = Hex.encode bytes := by
  rw [validLowercaseHex, Bool.and_eq_true, decide_eq_true_eq, List.all_eq_true] at h
  rw [hexDecode, if_neg (not_not.mpr h.1), hexPairs_eq_ok 0 h.1]
  constructor
  · exact Hex.encode_of_decode h.2
  · rintro rfl
    exact Hex.decode_encode bytes

theorem parseHex32_eq_ok_iff {text : Bytes} {hash : Bytes32}
    (h : validCanonicalHashHex text = true) :
    parseHex32 text = .ok hash ↔ text = Hex.encode hash.toList := by
  rw [validCanonicalHashHex, Bool.and_eq_true, decide_eq_true_eq] at h
  have hlower : validLowercaseHex text = true := by
    rw [validLowercaseHex, Bool.and_eq_true, decide_eq_true_eq, h.1]
    exact ⟨rfl, h.2⟩
  simp only [parseHex32, bind_eq_ok, mapError_eq_ok, hexDecode_eq_ok_iff hlower]
  constructor
  · rintro ⟨bytes, htext, hbytes⟩
    split at hbytes
    · cases hbytes
      exact htext
    · cases hbytes
  · intro htext
    refine ⟨hash.toList, htext, ?_⟩
    rw [dif_pos hash.length_toList]

theorem encode_getElem? (bytes : Bytes) : ∀ i,
    (Hex.encode bytes)[i * 2]? = (bytes[i]?).map (fun b => Hex.digit (b.toNat / 16)) ∧
      (Hex.encode bytes)[i * 2 + 1]? = (bytes[i]?).map (fun b => Hex.digit (b.toNat % 16)) := by
  induction bytes with
  | nil => exact fun i => ⟨rfl, rfl⟩
  | cons b bytes ih =>
    intro i
    rw [Hex.encode, List.flatMap_cons, ← Hex.encode]
    cases i with
    | zero => exact ⟨rfl, rfl⟩
    | succ i =>
      rw [Nat.succ_mul]
      exact ih i

theorem hexTable_getElem? (b : UInt8) :
    hexTable[(b >>> 4).toNat]? = some (Hex.digit (b.toNat / 16)) ∧
      hexTable[(b &&& 0x0f).toNat]? = some (Hex.digit (b.toNat % 16)) := by
  have hall : ∀ k < 256, hexTable[((UInt8.ofNat k) >>> 4).toNat]? = some (Hex.digit (k / 16)) ∧
      hexTable[((UInt8.ofNat k) &&& 0x0f).toNat]? = some (Hex.digit (k % 16)) := by
    decide +kernel
  have h := hall b.toNat b.toNat_lt
  rwa [UInt8.ofNat_toNat] at h

/-- **The walk over the text** accepts the lower-case spelling and nothing else. -/
theorem lowercaseHexMatchesBytes_iff {value bytes : Bytes} :
    lowercaseHexMatchesBytes value bytes = true ↔ value = Hex.encode bytes := by
  unfold lowercaseHexMatchesBytes
  split
  · rename_i hlen
    refine ⟨fun h => (nomatch h), ?_⟩
    rintro rfl
    rw [Hex.encode_length, Nat.mul_comm] at hlen
    exact absurd rfl hlen
  · rename_i hlen
    rw [not_not] at hlen
    rw [List.all_eq_true]
    constructor
    · intro hall
      refine List.ext_getElem? fun k => ?_
      have hpair : ∀ i, value[i * 2]? = (Hex.encode bytes)[i * 2]? ∧
          value[i * 2 + 1]? = (Hex.encode bytes)[i * 2 + 1]? := by
        intro i
        obtain ⟨hhi, hlo⟩ := encode_getElem? bytes i
        cases hb : bytes[i]? with
        | none =>
          have hend := List.getElem?_eq_none_iff.mp hb
          rw [hhi, hlo, hb, List.getElem?_eq_none (by omega), List.getElem?_eq_none (by omega)]
          exact ⟨rfl, rfl⟩
        | some b =>
          have hcheck := hall (b, i) (List.mem_zipIdx_iff_getElem?.mpr hb)
          obtain ⟨hthi, htlo⟩ := hexTable_getElem? b
          rw [Bool.and_eq_true, beq_iff_eq, beq_iff_eq, hthi, htlo] at hcheck
          rw [hhi, hlo, hb]
          exact hcheck
      have hk := Nat.div_add_mod k 2
      rcases Nat.mod_two_eq_zero_or_one k with h0 | h1
      · rw [show k = k / 2 * 2 by omega]
        exact (hpair (k / 2)).1
      · rw [show k = k / 2 * 2 + 1 by omega]
        exact (hpair (k / 2)).2
    · rintro rfl p hp
      have hb := List.mem_zipIdx_iff_getElem?.mp hp
      obtain ⟨hhi, hlo⟩ := encode_getElem? bytes p.2
      obtain ⟨hthi, htlo⟩ := hexTable_getElem? p.1
      rw [Bool.and_eq_true, beq_iff_eq, beq_iff_eq, hhi, hlo, hb, hthi, htlo]
      exact ⟨rfl, rfl⟩

/-- The disk entry is the spelling of the entry. -/
structure SpentUndoDisk.Spells (disk : SpentUndoDisk) (spent : SpentUndo) : Prop where
  txid : disk.txid = Hex.encode spent.outpoint.txid.toList
  vout : disk.vout = spent.outpoint.vout
  value : disk.value = spent.entry.value
  covenantType : disk.covenantType = spent.entry.covenantType
  covenantData : disk.covenantData = Hex.encode spent.entry.covenantData
  creationHeight : disk.creationHeight.toNat = spent.entry.creationHeight
  createdByCoinbase : disk.createdByCoinbase = spent.entry.createdByCoinbase

theorem spentMatches_iff {disk : SpentUndoDisk} {spent : SpentUndo} :
    spentMatches disk spent = true ↔ disk.Spells spent := by
  simp only [spentMatches, Bool.not_eq_true', Bool.or_eq_false_iff, bne_eq_false_iff_eq,
    Bool.not_eq_false', lowercaseHexMatchesBytes_iff]
  constructor
  · rintro ⟨⟨⟨⟨⟨⟨hvout, hvalue⟩, htype⟩, hheight⟩, hcoinbase⟩, htxid⟩, hdata⟩
    exact ⟨htxid, hvout, hvalue, htype, hdata, hheight, hcoinbase⟩
  · rintro ⟨htxid, hvout, hvalue, htype, hdata, hheight, hcoinbase⟩
    exact ⟨⟨⟨⟨⟨⟨hvout, hvalue⟩, htype⟩, hheight⟩, hcoinbase⟩, htxid⟩, hdata⟩

theorem spentFromDisk_eq_ok_iff {disk : SpentUndoDisk} (h : disk.canonicalFields = true)
    (txIndex index : Nat) {spent : SpentUndo} :
    spentFromDisk txIndex (disk, index) = .ok spent ↔ disk.Spells spent := by
  rw [SpentUndoDisk.canonicalFields, Bool.and_eq_true] at h
  simp only [spentFromDisk, bind_eq_ok, mapError_eq_ok, parseHex32_eq_ok_iff h.1,
    hexDecode_eq_ok_iff h.2, Except.ok.injEq]
  constructor
  · rintro ⟨txid, htxid, data, hdata, rfl⟩
    exact ⟨htxid, rfl, rfl, rfl, hdata, rfl, rfl⟩
  · rintro ⟨htxid, hvout, hvalue, htype, hdata, hheight, hcoinbase⟩
    refine ⟨_, htxid, _, hdata, ?_⟩
    rw [hvout, hvalue, htype, hheight, hcoinbase]

theorem allMatch_iff {α β : Type} {f : α → β → Bool} (disk : List α) :
    ∀ candidate : List β, allMatch f disk candidate = true ↔
      List.Forall₂ (fun a b => f a b = true) disk candidate := by
  induction disk with
  | nil =>
    intro candidate
    cases candidate with
    | nil => exact ⟨fun _ => .nil, fun _ => rfl⟩
    | cons b candidate => exact ⟨fun h => (nomatch h), fun h => (nomatch h)⟩
  | cons a disk ih =>
    intro candidate
    cases candidate with
    | nil => exact ⟨fun h => (nomatch h), fun h => (nomatch h)⟩
    | cons b candidate =>
      rw [List.forall₂_cons, ← ih candidate]
      simp only [allMatch, List.length_cons, List.zip_cons_cons, List.all_cons]
      by_cases hlen : disk.length = candidate.length
      · rw [if_neg (by omega), if_neg (not_not.mpr hlen), Bool.and_eq_true]
      · rw [if_pos (by omega), if_pos hlen]
        exact ⟨fun h => (nomatch h), fun h => absurd h.2 Bool.false_ne_true⟩

/-- Every text of the tree is canonical. -/
def CanonicalTxs (txs : List TxUndoDisk) : Prop :=
  ∀ txUndo ∈ txs, ∀ spent ∈ txUndo.spent, spent.canonicalFields = true

theorem checkUndoTxsCanonicalFields_ok {txs : List TxUndoDisk}
    (h : checkUndoTxsCanonicalFields txs = .ok ()) : CanonicalTxs txs := by
  intro txUndo htx spent hspent
  rw [checkUndoTxsCanonicalFields, forEach_eq_ok] at h
  obtain ⟨i, hi⟩ := List.mem_iff_getElem?.mp htx
  have hone := h (txUndo, i) (List.mem_zipIdx_iff_getElem?.mpr hi)
  rw [forEach_eq_ok] at hone
  obtain ⟨j, hj⟩ := List.mem_iff_getElem?.mp hspent
  have hcheck := hone (spent, j) (List.mem_zipIdx_iff_getElem?.mpr hj)
  rw [checkSpentCanonical, rejectIf_eq_ok] at hcheck
  exact Bool.of_not_eq_false hcheck

/-- **On canonical trees** the in-place comparison and the decoder describe the same records. -/
theorem diskTxs_iff {diskTxs : List TxUndoDisk} (h : CanonicalTxs diskTxs) (txs : List TxUndo) :
    diskTxs.zipIdx.mapM txFromDisk = .ok txs ↔ diskTxsMatchCandidate diskTxs txs = true := by
  rw [diskTxsMatchCandidate, allMatch_iff, mapM_zipIdx_eq_ok_iff diskTxs]
  intro diskTx hdisk i txUndo
  simp only [txFromDisk, bind_eq_ok, Except.ok.injEq]
  have hspent : ∀ spent : List SpentUndo,
      diskTx.spent.zipIdx.mapM (spentFromDisk i) = .ok spent ↔
        allMatch spentMatches diskTx.spent spent = true := by
    intro spent
    rw [allMatch_iff, mapM_zipIdx_eq_ok_iff diskTx.spent]
    intro d hd j s
    rw [spentFromDisk_eq_ok_iff (h diskTx hdisk d hd), spentMatches_iff]
  constructor
  · rintro ⟨spent, hdecoded, rfl⟩
    exact (hspent spent).mp hdecoded
  · intro hmatch
    exact ⟨txUndo.spent, (hspent _).mpr hmatch, rfl⟩

def ValidatedBlockUndo.txs : ValidatedBlockUndo → List TxUndoDisk
  | .v1 disk => disk.txs
  | .v2 disk => disk.txs

theorem blockUndoFromParts_eq_ok_iff {diskTxs : List TxUndoDisk} (h : CanonicalTxs diskTxs)
    {height supply : Nat} {undo : BlockUndo} :
    blockUndoFromParts height supply diskTxs = .ok undo ↔ undo.blockHeight = height ∧
      undo.previousAlreadyGenerated = supply ∧ diskTxsMatchCandidate diskTxs undo.txs = true := by
  simp only [blockUndoFromParts, bind_eq_ok, Except.ok.injEq, diskTxs_iff h]
  constructor
  · rintro ⟨txs, hmatch, rfl⟩
    exact ⟨rfl, rfl, hmatch⟩
  · rintro ⟨rfl, rfl, hmatch⟩
    exact ⟨undo.txs, hmatch, rfl⟩

theorem matches_iff_decodes {disk : ValidatedBlockUndo} (h : CanonicalTxs disk.txs)
    (undo : BlockUndo) :
    validatedBlockUndoMatches disk undo = true ↔ blockUndoFromValidated disk = .ok undo := by
  cases disk with
  | v1 disk =>
    have hcanonical : CanonicalTxs disk.txs := h
    rw [blockUndoFromValidated, blockUndoFromParts_eq_ok_iff hcanonical, validatedBlockUndoMatches,
      Bool.and_eq_true, Bool.and_eq_true, beq_iff_eq, beq_iff_eq, and_assoc]
  | v2 disk =>
    have hcanonical : CanonicalTxs disk.txs := h
    rw [blockUndoFromValidated, blockUndoFromParts_eq_ok_iff hcanonical, validatedBlockUndoMatches,
      Bool.and_eq_true, Bool.and_eq_true, beq_iff_eq, beq_iff_eq, and_assoc]

section files

variable [Crypto] [EnvelopeProbe] [UndoPayloadReader]

omit [Crypto] [EnvelopeProbe] in
theorem canonicalTxs_of_decodeValidated {version : Nat} {payload : Bytes} {disk : ValidatedBlockUndo}
    (h : decodeValidatedBlockUndo version payload = .ok disk) : CanonicalTxs disk.txs := by
  unfold decodeValidatedBlockUndo at h
  split at h
  · simp only [decodeValidatedBlockUndoV1, bind_eq_ok, exists_unit, Except.ok.injEq] at h
    obtain ⟨supply, -, previous, -, decoded, -, hcheck, -, rfl⟩ := h
    exact checkUndoTxsCanonicalFields_ok hcheck
  · simp only [decodeValidatedBlockUndoV2, bind_eq_ok, exists_unit, Except.ok.injEq] at h
    obtain ⟨supply, -, previous, -, decoded, -, hcheck, -, rfl⟩ := h
    exact checkUndoTxsCanonicalFields_ok hcheck

theorem canonicalTxs_of_file {blockHash : Bytes32} {raw : Bytes} {disk : ValidatedBlockUndo}
    (h : unmarshalUndoEnvelopeDisk decodeValidatedBlockUndo blockHash raw = .ok disk) :
    CanonicalTxs disk.txs := by
  simp only [unmarshalUndoEnvelopeDisk, bind_eq_ok] at h
  obtain ⟨opened, -, hdecoded⟩ := h
  exact canonicalTxs_of_decodeValidated hdecoded

inductive UndoReadError where
  | text (message : String)
  | field (e : UndoFieldError)
deriving DecidableEq

def unmarshalUndoEnvelope (blockHash : Bytes32) (raw : Bytes) : Except UndoReadError BlockUndo := do
  let disk ← (unmarshalUndoEnvelopeDisk decodeValidatedBlockUndo blockHash raw).mapError .text
  (blockUndoFromValidated disk).mapError .field

/-- `validate_existing` of `put_undo`: what a block's undo file must pass when the block is committed
again. -/
def validateExistingUndo (blockHash : Bytes32) (path : String) (raw : Bytes) (undo : BlockUndo) :
    Except UndoReadError Unit := do
  let existing ← (unmarshalUndoEnvelopeDisk decodeValidatedBlockUndo blockHash raw).mapError .text
  rejectIf (validatedBlockUndoMatches existing undo = false)
    (.text ("file already exists with different content: " ++ path))

/-- **Comparing in place is decoding and comparing.**  For every file that is accepted as a stored
undo tree, of either version, and every record: the tree matches the record exactly when it decodes
to it.  So an existing undo file lets a block be committed again exactly when reading it back gives
the same record. -/
theorem undo_match_is_decode (blockHash : Bytes32) (raw : Bytes) (undo : BlockUndo) :
    (∀ disk, unmarshalUndoEnvelopeDisk decodeValidatedBlockUndo blockHash raw = .ok disk →
      (validatedBlockUndoMatches disk undo = true ↔ blockUndoFromValidated disk = .ok undo)) ∧
    ∀ path, validateExistingUndo blockHash path raw undo = .ok () ↔
      unmarshalUndoEnvelope blockHash raw = .ok undo := by
  refine ⟨fun disk h => matches_iff_decodes (canonicalTxs_of_file h) undo, fun path => ?_⟩
  simp only [validateExistingUndo, unmarshalUndoEnvelope, bind_eq_ok, mapError_eq_ok, rejectIf_eq_ok,
    Bool.not_eq_false]
  constructor
  · rintro ⟨disk, hdisk, hmatch⟩
    exact ⟨disk, hdisk, (matches_iff_decodes (canonicalTxs_of_file hdisk) undo).mp hmatch⟩
  · rintro ⟨disk, hdisk, hdecoded⟩
    exact ⟨disk, hdisk, (matches_iff_decodes (canonicalTxs_of_file hdisk) undo).mpr hdecoded⟩

end files

/-- A reader that finds the one entry of the sample below, whatever the bytes. -/
@[reducible] def sampleReader : UndoPayloadReader where
  shape := fun _ => true
  supplyProbe := fun _ => some (.string [55] true)
  typed := fun _ => some (3, [⟨[⟨Hex.encode powLimit.toList, 1, 2, 0, [48, 97], 2, false⟩]⟩])

/-- The undo file of a block at height 3 that spent one output. -/
theorem undo_match_is_decode_sample :
    letI : Crypto := Crypto.trivial
    letI : EnvelopeProbe := ⟨fun _ _ => "", fun _ => ""⟩
    letI : UndoPayloadReader := sampleReader
    let disk : BlockUndoDiskV2 :=
      ⟨3, 7, [⟨[⟨Hex.encode powLimit.toList, 1, 2, 0, [48, 97], 2, false⟩]⟩]⟩
    let raw := undoEnvelopeBytes undoEnvelopeVersion zero32 disk.json
    unmarshalUndoEnvelopeDisk decodeValidatedBlockUndo zero32 raw = .ok (.v2 disk) ∧
    (validatedBlockUndoMatches (.v2 disk) ⟨3, 7, [⟨[⟨⟨powLimit, 1⟩, ⟨2, 0, [10], 2, false⟩⟩]⟩]⟩ = true ↔
      blockUndoFromValidated (.v2 disk) = .ok ⟨3, 7, [⟨[⟨⟨powLimit, 1⟩, ⟨2, 0, [10], 2, false⟩⟩]⟩]⟩) := by
  let _ : Crypto := Crypto.trivial
  let _ : EnvelopeProbe := ⟨fun _ _ => "", fun _ => ""⟩
  let _ : UndoPayloadReader := sampleReader
  intro disk raw
  have hfile : unmarshalUndoEnvelopeDisk decodeValidatedBlockUndo zero32 raw = .ok (.v2 disk) := by
    decide +kernel
  exact ⟨hfile, (undo_match_is_decode zero32 raw _).1 _ hfile⟩

end Rubin.Node
