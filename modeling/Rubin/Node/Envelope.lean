/-
# Disk envelopes

`store_envelope.rs` and the envelope part of `undo.rs`.  The writer builds a record and hands it
to the JSON serializer; the reader never parses JSON.  It knows the lengths of the fixed segments,
derives the length of the body from the length of the file, and compares segments by position.

What joins the two is one layout lemma for each format: a file passes the reader's comparisons
exactly if it is the fixed segments around a body and a checksum (`splitStoreEnvelope_eq_ok`,
`splitUndoEnvelopeVersioned_eq_ok`), and that is what the serializer writes, because no symbol of the two
text codes is escaped.  After that the base64 and hexadecimal codes leave one spelling.

The messages for rejected files come from a JSON probe that no accepted file reaches; it is a
parameter (`EnvelopeProbe`).  The schemas inside the payloads are not modelled.
-/
import Rubin.Lib.TextCode
import Rubin.Consensus.Tx

namespace Rubin.Node

open Rubin.Lib Rubin.Consensus

/-! ## 1. What the serializer writes -/

/-- `serde_json`'s escapes; all other bytes are written as they are. -/
def jsonEscape (c : UInt8) : Bytes :=
  if c = 34 then [92, 34]
  else if c = 92 then [92, 92]
  else if c = 8 then [92, 98]
  else if c = 12 then [92, 102]
  else if c = 10 then [92, 110]
  else if c = 13 then [92, 114]
  else if c = 9 then [92, 116]
  else if c < 32 then ascii "\\u00" ++ Hex.encode [c]
  else [c]

def jsonString (text : Bytes) : Bytes := [34] ++ text.flatMap jsonEscape ++ [34]

/-- The fields of a struct in the order of its declaration, each with its value as written. -/
def jsonFields : List (String × Bytes) → Bytes
  | [] => []
  | [(name, value)] => jsonString (ascii name) ++ [58] ++ value
  | (name, value) :: rest => jsonString (ascii name) ++ [58] ++ value ++ [44] ++ jsonFields rest

def jsonObject (fields : List (String × Bytes)) : Bytes := [123] ++ jsonFields fields ++ [125]

/-- A `u32`. -/
def jsonNumber (n : Nat) : Bytes := ascii (Nat.repr n)

/-- Not escaped. -/
def Plain (c : UInt8) : Prop := c ≠ 34 ∧ c ≠ 92 ∧ ¬ c < 32

instance (c : UInt8) : Decidable (Plain c) := inferInstanceAs (Decidable (_ ∧ _ ∧ _))

theorem jsonEscape_plain {c : UInt8} (h : Plain c) : jsonEscape c = [c] := by
  have hsmall : ∀ k : UInt8, k < 32 → c ≠ k := by
    rintro k hk rfl
    exact h.2.2 hk
  unfold jsonEscape
  rw [if_neg h.1, if_neg h.2.1, if_neg (hsmall 8 (by decide)), if_neg (hsmall 12 (by decide)),
    if_neg (hsmall 10 (by decide)), if_neg (hsmall 13 (by decide)), if_neg (hsmall 9 (by decide)),
    if_neg h.2.2]

theorem jsonString_plain {text : Bytes} (h : ∀ c ∈ text, Plain c) :
    jsonString text = [34] ++ text ++ [34] := by
  have hid : text.flatMap jsonEscape = text := by
    induction text with
    | nil => rfl
    | cons c text ih =>
      rw [List.forall_mem_cons] at h
      rw [List.flatMap_cons, jsonEscape_plain h.1, ih h.2]
      rfl
  rw [jsonString, hid]

theorem plain_hex (bs : Bytes) : ∀ c ∈ Hex.encode bs, Plain c := by
  have hall : ∀ k < 256, Hex.isLower (UInt8.ofNat k) = true → Plain (UInt8.ofNat k) := by
    decide +kernel
  intro c hc
  have h := hall c.toNat c.toNat_lt
  rw [UInt8.ofNat_toNat] at h
  exact h (Hex.isLower_encode bs c hc)

theorem plain_symbol : ∀ n < 64, Plain (Base64.symbol n) := by decide

theorem plain_encodeChunk (chunk : Bytes) : ∀ c ∈ Base64.encodeChunk chunk, Plain c := by
  intro c hc
  obtain ⟨p, -, rfl⟩ := List.mem_map.mp hc
  split
  · decide
  · exact plain_symbol _ (Nat.mod_lt _ (by decide))

theorem plain_base64 : ∀ p : Bytes, ∀ c ∈ Base64.encode p, Plain c
  | [], c, h => by cases h
  | [x], c, h => by
    rw [Base64.encode_one] at h
    exact plain_encodeChunk _ c h
  | [x, y], c, h => by
    rw [Base64.encode_two] at h
    exact plain_encodeChunk _ c h
  | x :: y :: z :: rest, c, h => by
    rw [Base64.encode] at h
    rcases List.mem_append.mp h with h | h
    · exact plain_encodeChunk _ c h
    · exact plain_base64 rest c h

/-! ## 2. Shared checks -/

abbrev base64Encode (input : Bytes) : Bytes := Base64.encode input

/-- `u64::to_be_bytes` of a length. -/
def u64BeBytes (n : Nat) : Bytes := (natToLe 8 n).reverse

/-- `valid_canonical_hash_hex` on the bytes of the text: a byte that is not ASCII becomes some
other character that is not a digit either. -/
def validCanonicalHashHex (value : Bytes) : Bool :=
  decide (value.length = 64) && value.all Hex.isLower

/-- `hex::decode_to_slice` into 32 bytes. -/
def hexDecode32 (value : Bytes) : Option Bytes32 :=
  (Hex.decode value).bind fun bs => if h : bs.length = 32 then some ⟨bs, h⟩ else none

def constantTimeEq32 (a b : Bytes32) : Bool :=
  (a.toList.zip b.toList).foldl (fun acc p => acc ||| (p.1 ^^^ p.2)) 0 == 0

theorem foldl_or_eq_zero : ∀ (l : List (UInt8 × UInt8)) (acc : UInt8),
    l.foldl (fun acc p => acc ||| (p.1 ^^^ p.2)) acc = 0 ↔ acc = 0 ∧ ∀ p ∈ l, p.1 = p.2
  | [], acc => by simp
  | p :: l, acc => by
    rw [List.foldl_cons, foldl_or_eq_zero l, UInt8.or_eq_zero_iff, UInt8.xor_eq_zero_iff,
      List.forall_mem_cons, and_assoc]

theorem constantTimeEq32_iff {a b : Bytes32} : constantTimeEq32 a b = true ↔ a = b := by
  have hlen : a.toList.length = b.toList.length := a.length_toList.trans b.length_toList.symm
  rw [constantTimeEq32, beq_iff_eq, foldl_or_eq_zero, ← BytesN.toList_inj]
  constructor
  · rintro ⟨-, h⟩
    refine List.ext_getElem hlen fun i h1 h2 => ?_
    refine h (a.toList[i], b.toList[i]) ?_
    exact List.mem_iff_getElem.mpr ⟨i, by rw [List.length_zip]; omega, List.getElem_zip⟩
  · rintro h
    refine ⟨rfl, fun p hp => ?_⟩
    rw [h] at hp
    obtain ⟨i, hi, rfl⟩ := List.mem_iff_getElem.mp hp
    rw [List.getElem_zip]

/-- A canonical text is the checksum it is compared with exactly if it is its spelling. -/
theorem checksum_eq_iff {value : Bytes} {hash : Bytes32}
    (hvalid : validCanonicalHashHex value = true) :
    (∃ stored, hexDecode32 value = some stored ∧ constantTimeEq32 stored hash = true) ↔
      value = Hex.encode hash.toList := by
  rw [validCanonicalHashHex, Bool.and_eq_true, decide_eq_true_eq, List.all_eq_true] at hvalid
  obtain ⟨hlen, hlower⟩ := hvalid
  constructor
  · rintro ⟨stored, hdec, heq⟩
    rw [constantTimeEq32_iff] at heq
    subst heq
    obtain ⟨bs, hbs, hstored⟩ := Option.bind_eq_some_iff.mp hdec
    split at hstored
    · cases hstored
      exact Hex.encode_of_decode hlower hbs
    · cases hstored
  · rintro rfl
    refine ⟨hash, ?_, constantTimeEq32_iff.mpr rfl⟩
    rw [hexDecode32, Hex.decode_encode, Option.bind_some, dif_pos hash.length_toList]

theorem validCanonicalHashHex_encode (hash : Bytes32) :
    validCanonicalHashHex (Hex.encode hash.toList) = true := by
  rw [validCanonicalHashHex, Bool.and_eq_true, decide_eq_true_eq, List.all_eq_true]
  exact ⟨by rw [Hex.encode_length, hash.length_toList], Hex.isLower_encode _⟩

/-! ## 3. `store_envelope.rs` -/

inductive StoreEnvelopeKind where
  | chainState
  | blockIndex
deriving DecidableEq

namespace StoreEnvelopeKind

def domain : StoreEnvelopeKind → Bytes
  | chainState => ascii "RUBIN_CHAINSTATE_V1"
  | blockIndex => ascii "RUBIN_BLOCKSTORE_INDEX_V1"

end StoreEnvelopeKind

/-- The JSON probes that word the refusal of a file whose layout is wrong. -/
class EnvelopeProbe where
  classifyStoreEnvelopeFailure : StoreEnvelopeKind → Bytes → String
  classifyUndoEnvelopeFailure : Bytes → String

def storeEnvelopeVersion : Nat := 1
def storeChecksumHexLen : Nat := 64
def storeEnvelopePrefix : Bytes := ascii "\x7b\"version\":1,\"payload_b64\":\""
def storeEnvelopeChecksumSep : Bytes := ascii "\",\"checksum\":\""
def storeEnvelopeSuffix : Bytes := ascii "\"\x7d\n"

def storeEnvelopeFrameBytes : Nat :=
  storeEnvelopePrefix.length + storeEnvelopeChecksumSep.length + storeChecksumHexLen +
    storeEnvelopeSuffix.length

variable {raw payload : Bytes}

section store

variable [Crypto]

/-- What the checksum is a hash of. -/
def storeChecksumPreimage (domain payload : Bytes) : Bytes :=
  domain ++ u64BeBytes payload.length ++ payload

def storeEnvelopeChecksum (domain payload : Bytes) : Bytes32 :=
  sha3_256 (storeChecksumPreimage domain payload)

/-- The serializer does not fail on this struct. -/
def marshalStoreEnvelope (kind : StoreEnvelopeKind) (payload : Bytes) : Except String Bytes :=
  .ok (jsonObject
    [("version", jsonNumber storeEnvelopeVersion),
      ("payload_b64", jsonString (base64Encode payload)),
      ("checksum", jsonString (Hex.encode (storeEnvelopeChecksum kind.domain payload).toList))] ++
    [10])

def decodeCanonicalStoreBase64 (value : Bytes) : Except String Bytes :=
  Base64.decodeCanonical "STORE_INTEGRITY: payload_b64 is not canonical padded base64" value

variable [EnvelopeProbe]

/-- The body and the checksum text. -/
def splitStoreEnvelope (kind : StoreEnvelopeKind) (raw : Bytes) : Except String (Bytes × Bytes) := do
  rejectIf (raw.length < storeEnvelopeFrameBytes)
    (EnvelopeProbe.classifyStoreEnvelopeFailure kind raw)
  let body := raw.length - storeEnvelopeFrameBytes
  let payloadAt := storeEnvelopePrefix.length
  let checksumSepAt := payloadAt + body
  let checksumAt := checksumSepAt + storeEnvelopeChecksumSep.length
  let suffixAt := checksumAt + storeChecksumHexLen
  rejectIf (segment raw 0 payloadAt ≠ storeEnvelopePrefix ∨
      segment raw checksumSepAt checksumAt ≠ storeEnvelopeChecksumSep ∨
      segment raw suffixAt raw.length ≠ storeEnvelopeSuffix)
    (EnvelopeProbe.classifyStoreEnvelopeFailure kind raw)
  let checksumHex := segment raw checksumAt suffixAt
  rejectIf (validCanonicalHashHex checksumHex = false)
    "STORE_INTEGRITY: checksum must be 64 lowercase hex characters"
  .ok (segment raw payloadAt checksumSepAt, checksumHex)

def openStoreEnvelope (kind : StoreEnvelopeKind) (raw : Bytes) : Except String Bytes := do
  let parts ← splitStoreEnvelope kind raw
  let payload ← decodeCanonicalStoreBase64 parts.1
  let stored ← okOr (hexDecode32 parts.2) "STORE_INTEGRITY: checksum is not hexadecimal"
  rejectIf (constantTimeEq32 stored (storeEnvelopeChecksum kind.domain payload) = false)
    "STORE_INTEGRITY: checksum mismatch"
  .ok payload

omit [EnvelopeProbe] in
theorem marshalStoreEnvelope_eq (kind : StoreEnvelopeKind) (payload : Bytes) :
    marshalStoreEnvelope kind payload = .ok (storeEnvelopePrefix ++ (Base64.encode payload ++
      (storeEnvelopeChecksumSep ++
        (Hex.encode (storeEnvelopeChecksum kind.domain payload).toList ++
          storeEnvelopeSuffix)))) := by
  rw [marshalStoreEnvelope, jsonObject, jsonString_plain (plain_base64 payload),
    jsonString_plain (plain_hex _)]
  have hopen : storeEnvelopePrefix = [123] ++ (jsonString (ascii "version") ++ [58] ++
      jsonNumber storeEnvelopeVersion ++ [44] ++ (jsonString (ascii "payload_b64") ++ [58] ++ [34])) := by
    decide
  have hsep : storeEnvelopeChecksumSep =
      [34] ++ ([44] ++ (jsonString (ascii "checksum") ++ [58] ++ [34])) := by decide
  have hsuffix : storeEnvelopeSuffix = [34] ++ ([125] ++ [10]) := by decide
  rw [hopen, hsep, hsuffix]
  simp only [jsonFields, List.append_assoc]

variable {kind : StoreEnvelopeKind}

omit [Crypto] in
/-- **Layout**: what the reader lets through is the fixed segments around a body and a checksum. -/
theorem splitStoreEnvelope_eq_ok {body checksumHex : Bytes} :
    splitStoreEnvelope kind raw = .ok (body, checksumHex) ↔
      validCanonicalHashHex checksumHex = true ∧
        raw = [storeEnvelopePrefix, body, storeEnvelopeChecksumSep, checksumHex].flatten ++
          storeEnvelopeSuffix := by
  have hhexLen : validCanonicalHashHex checksumHex = true →
      checksumHex.length = storeChecksumHexLen := by
    intro hvalid
    rw [validCanonicalHashHex, Bool.and_eq_true, decide_eq_true_eq] at hvalid
    exact hvalid.1
  have hframe : storeEnvelopeFrameBytes = storeEnvelopePrefix.length +
      storeEnvelopeChecksumSep.length + storeChecksumHexLen + storeEnvelopeSuffix.length := rfl
  simp only [splitStoreEnvelope, bind_eq_ok, exists_unit, rejectIf_eq_ok, Except.ok.injEq,
    Prod.mk.injEq, not_or, not_not, Bool.not_eq_false]
  constructor
  · rintro ⟨hlen, ⟨hbefore, hsep, hsuffix⟩, hvalid, hbody, hhex⟩
    rw [hhex] at hvalid
    have hbodyLen : body.length = raw.length - storeEnvelopeFrameBytes := by
      rw [← hbody]
      exact segment_length (by omega)
    refine ⟨hvalid, eq_flatten_iff_segments.mpr ?_⟩
    simp only [segments, List.map_cons, List.map_nil, Nat.zero_add, hbodyLen, hhexLen hvalid,
      hbefore, hsep, hsuffix, hbody, hhex, List.cons_append, List.nil_append]
  · rintro ⟨hvalid, hraw⟩
    have hlen : raw.length = storeEnvelopeFrameBytes + body.length := by
      have hhex := hhexLen hvalid
      rw [hraw]
      simp only [List.flatten_cons, List.flatten_nil, List.length_append, List.length_nil]
      omega
    have hcut := eq_flatten_iff_segments.mp hraw
    simp only [segments, List.map_cons, List.map_nil, Nat.zero_add, hhexLen hvalid,
      List.cons_append, List.nil_append, List.cons.injEq, and_true] at hcut
    rw [show raw.length - storeEnvelopeFrameBytes = body.length by omega]
    obtain ⟨hbefore, hbody, hsep, hhex, hsuffix⟩ := hcut
    refine ⟨by omega, ⟨hbefore, hsep, hsuffix⟩, ?_, hbody, hhex⟩
    rw [hhex]
    exact hvalid

/-- **One spelling**: the reader opens exactly what the writer writes. -/
theorem openStoreEnvelope_eq_ok :
    openStoreEnvelope kind raw = .ok payload ↔ marshalStoreEnvelope kind payload = .ok raw := by
  rw [marshalStoreEnvelope_eq, Except.ok.injEq, openStoreEnvelope]
  simp only [bind_eq_ok, exists_unit, rejectIf_eq_ok, okOr_eq_ok, Bool.not_eq_false,
    Except.ok.injEq, decodeCanonicalStoreBase64, Base64.decodeCanonical_eq_ok, Prod.exists]
  constructor
  · rintro ⟨body, checksumHex, hsplit, payload, rfl, stored, hstored, heq, rfl⟩
    obtain ⟨hvalid, hraw⟩ := splitStoreEnvelope_eq_ok.mp hsplit
    have hhex := (checksum_eq_iff hvalid).mp ⟨stored, hstored, heq⟩
    rw [hraw, hhex]
    simp
  · intro hraw
    have hvalid := validCanonicalHashHex_encode (storeEnvelopeChecksum kind.domain payload)
    obtain ⟨stored, hstored, heq⟩ := (checksum_eq_iff hvalid).mpr rfl
    refine ⟨_, _, splitStoreEnvelope_eq_ok.mpr ⟨hvalid, ?_⟩, payload, rfl, stored, hstored, heq,
      rfl⟩
    rw [← hraw]
    simp

omit [EnvelopeProbe] in
theorem marshalStoreEnvelope_inj {kind' : StoreEnvelopeKind} {payload' : Bytes}
    (h : marshalStoreEnvelope kind payload = .ok raw)
    (h' : marshalStoreEnvelope kind' payload' = .ok raw) :
    payload = payload' ∧
      storeEnvelopeChecksum kind.domain payload = storeEnvelopeChecksum kind'.domain payload' := by
  rw [marshalStoreEnvelope_eq, Except.ok.injEq] at h h'
  have heq := h.trans h'.symm
  have hlen := congrArg List.length heq
  simp only [List.length_append, Hex.encode_length, BytesN.length_toList] at hlen
  obtain ⟨-, heq⟩ := List.append_inj heq rfl
  obtain ⟨hbody, heq⟩ := List.append_inj heq (by omega)
  obtain ⟨-, heq⟩ := List.append_inj heq rfl
  obtain ⟨hhex, -⟩ := List.append_inj heq (by simp)
  exact ⟨Base64.encode_injective hbody, BytesN.toList_inj.mp (Hex.encode_injective hhex)⟩

theorem openStoreEnvelope_other_kind {kind' : StoreEnvelopeKind} (hne : kind ≠ kind')
    (hraw : marshalStoreEnvelope kind payload = .ok raw)
    (hinj : Set.InjOn sha3_256 {storeChecksumPreimage kind.domain payload,
      storeChecksumPreimage kind'.domain payload}) :
    ∃ e, openStoreEnvelope kind' raw = .error e := by
  cases hopen : openStoreEnvelope kind' raw with
  | error e => exact ⟨e, rfl⟩
  | ok payload' =>
    obtain ⟨rfl, hsum⟩ := marshalStoreEnvelope_inj hraw (openStoreEnvelope_eq_ok.mp hopen)
    have hpre := congrArg List.length (hinj (Or.inl rfl) (Or.inr rfl) hsum)
    simp only [storeChecksumPreimage, List.length_append] at hpre
    have hdomain : kind.domain.length ≠ kind'.domain.length := by
      cases kind <;> cases kind' <;> first | exact absurd rfl hne | decide
    omega

end store

/-! ## 4. The envelope of `undo.rs` -/

def undoFileMaxBytes : Nat := 2000000000
def undoEnvelopeVersionV1 : Nat := 1
def undoEnvelopeVersion : Nat := 2
def undoHashHexLen : Nat := 64
def undoEnvelopeDomainV1 : Bytes := ascii "RUBIN_BLOCK_UNDO_V1"
def undoEnvelopeDomainV2 : Bytes := ascii "RUBIN_BLOCK_UNDO_V2"
def undoEnvelopePrefixV1 : Bytes := ascii "\x7b\"version\":1,\"block_hash\":\""
def undoEnvelopePrefixV2 : Bytes := ascii "\x7b\"version\":2,\"block_hash\":\""
def undoEnvelopePayloadSep : Bytes := ascii "\",\"payload_b64\":\""
def undoEnvelopeChecksumSep : Bytes := ascii "\",\"checksum\":\""
def undoEnvelopeSuffix : Bytes := ascii "\"\x7d\n"

def undoEnvelopeFrameBytes : Nat :=
  undoEnvelopePrefixV2.length + undoHashHexLen + undoEnvelopePayloadSep.length +
    undoEnvelopeChecksumSep.length + undoHashHexLen + undoEnvelopeSuffix.length

/-- The floor comes before the product. -/
def undoPayloadMaxBytes : Nat := 3 * ((undoFileMaxBytes - undoEnvelopeFrameBytes) / 4)

section undo

variable [Crypto]

def undoEnvelopeChecksumForVersion (version : Nat) (blockHash : Bytes32) (payload : Bytes) :
    Bytes32 :=
  sha3_256 ((if version = undoEnvelopeVersionV1 then undoEnvelopeDomainV1
    else undoEnvelopeDomainV2) ++ blockHash.toList ++ u64BeBytes payload.length ++ payload)

/-- The record as serialized, with the final newline. -/
def undoEnvelopeBytes (version : Nat) (blockHash : Bytes32) (payload : Bytes) : Bytes :=
  jsonObject
    [("version", jsonNumber version), ("block_hash", jsonString (Hex.encode blockHash.toList)),
      ("payload_b64", jsonString (base64Encode payload)),
      ("checksum", jsonString (Hex.encode
        (undoEnvelopeChecksumForVersion version blockHash payload).toList))] ++ [10]

/-- `marshal_undo_envelope_version` from the serialized payload on. -/
def marshalUndoEnvelopeVersion (version : Nat) (blockHash : Bytes32) (payload : Bytes) :
    Except String Bytes := do
  rejectIf (payload.length > undoPayloadMaxBytes)
    ("refusing to save undo: payload is " ++ toString payload.length ++ " bytes, class bound " ++
      toString undoPayloadMaxBytes)
  rejectIf ((undoEnvelopeBytes version blockHash payload).length > undoFileMaxBytes)
    ("refusing to save undo: envelope is " ++
      toString (undoEnvelopeBytes version blockHash payload).length ++ " bytes, class bound " ++
      toString undoFileMaxBytes)
  .ok (undoEnvelopeBytes version blockHash payload)

def base64DecodeCanonical (value : Bytes) : Except String Bytes :=
  Base64.decodeCanonical "UNDO_INTEGRITY: payload_b64 is not canonical padded base64" value

variable [EnvelopeProbe]

/-- The version that the file starts with, and its prefix. -/
def undoVersionOf (raw : Bytes) : Except String (Nat × Bytes) :=
  if undoEnvelopePrefixV1 <+: raw then .ok (undoEnvelopeVersionV1, undoEnvelopePrefixV1)
  else if undoEnvelopePrefixV2 <+: raw then .ok (undoEnvelopeVersion, undoEnvelopePrefixV2)
  else .error (EnvelopeProbe.classifyUndoEnvelopeFailure raw)

/-- The parts of an undo file. -/
structure UndoParts where
  version : Nat
  hashHex : Bytes
  payloadB64 : Bytes
  checksumHex : Bytes

def splitUndoEnvelopeVersioned (raw : Bytes) : Except String UndoParts := do
  rejectIf (raw.length < undoEnvelopeFrameBytes) (EnvelopeProbe.classifyUndoEnvelopeFailure raw)
  let body := raw.length - undoEnvelopeFrameBytes
  let vp ← undoVersionOf raw
  let hashAt := vp.2.length
  let payloadSepAt := hashAt + undoHashHexLen
  let payloadAt := payloadSepAt + undoEnvelopePayloadSep.length
  let checksumSepAt := payloadAt + body
  let checksumAt := checksumSepAt + undoEnvelopeChecksumSep.length
  let suffixAt := checksumAt + undoHashHexLen
  rejectIf (segment raw 0 hashAt ≠ vp.2 ∨
      segment raw payloadSepAt payloadAt ≠ undoEnvelopePayloadSep ∨
      segment raw checksumSepAt checksumAt ≠ undoEnvelopeChecksumSep ∨
      segment raw suffixAt raw.length ≠ undoEnvelopeSuffix)
    (EnvelopeProbe.classifyUndoEnvelopeFailure raw)
  let hashHex := segment raw hashAt payloadSepAt
  let checksumHex := segment raw checksumAt suffixAt
  rejectIf (validCanonicalHashHex hashHex = false ∨ validCanonicalHashHex checksumHex = false)
    "UNDO_INTEGRITY: block_hash and checksum must be 64 lowercase hex characters"
  .ok ⟨vp.1, hashHex, segment raw payloadAt checksumSepAt, checksumHex⟩

/-- `unmarshal_undo_envelope_disk` up to the payload's schema: the version and the payload. -/
def openUndoEnvelope (blockHash : Bytes32) (raw : Bytes) : Except String (Nat × Bytes) := do
  rejectIf (raw.length > undoFileMaxBytes)
    ("UNDO_INTEGRITY: undo record is " ++ toString raw.length ++ " bytes, class bound " ++
      toString undoFileMaxBytes)
  let parts ← splitUndoEnvelopeVersioned raw
  rejectIf (parts.hashHex ≠ Hex.encode blockHash.toList) "UNDO_INTEGRITY: block hash mismatch"
  let payload ← base64DecodeCanonical parts.payloadB64
  rejectIf (payload.length > undoPayloadMaxBytes)
    ("UNDO_INTEGRITY: decoded payload is " ++ toString payload.length ++ " bytes, class bound " ++
      toString undoPayloadMaxBytes)
  let stored ← okOr (hexDecode32 parts.checksumHex) "UNDO_INTEGRITY: checksum is not hexadecimal"
  rejectIf (constantTimeEq32 stored (undoEnvelopeChecksumForVersion parts.version blockHash payload)
      = false) "UNDO_INTEGRITY: checksum mismatch"
  .ok (parts.version, payload)

/-- The payload's schema is decoded last, by version. -/
def unmarshalUndoEnvelopeDisk {α : Type} (decodeValidatedBlockUndo : Nat → Bytes → Except String α)
    (blockHash : Bytes32) (raw : Bytes) : Except String α := do
  let opened ← openUndoEnvelope blockHash raw
  decodeValidatedBlockUndo opened.1 opened.2

/-! ### The two versions -/

def KnownVersion (version : Nat) : Prop :=
  version = undoEnvelopeVersionV1 ∨ version = undoEnvelopeVersion

def undoEnvelopePrefix (version : Nat) : Bytes :=
  if version = undoEnvelopeVersionV1 then undoEnvelopePrefixV1 else undoEnvelopePrefixV2

omit [Crypto] [EnvelopeProbe] in
theorem undoEnvelopePrefix_length (version : Nat) :
    (undoEnvelopePrefix version).length = undoEnvelopePrefixV2.length := by
  unfold undoEnvelopePrefix
  split
  · decide
  · rfl

omit [Crypto] in
theorem undoVersionOf_ok {vp : Nat × Bytes} (h : undoVersionOf raw = .ok vp) :
    KnownVersion vp.1 ∧ vp.2 = undoEnvelopePrefix vp.1 := by
  unfold undoVersionOf at h
  split_ifs at h
  · cases h
    exact ⟨.inl rfl, rfl⟩
  · cases h
    exact ⟨.inr rfl, rfl⟩

variable {version : Nat} {blockHash : Bytes32}

omit [Crypto] in
theorem undoVersionOf_prefix (h : KnownVersion version) (rest : Bytes) :
    undoVersionOf (undoEnvelopePrefix version ++ rest) =
      .ok (version, undoEnvelopePrefix version) := by
  rcases h with rfl | rfl
  · exact if_pos (List.prefix_append _ _)
  · have hdiff : ¬ undoEnvelopePrefixV1 <+: undoEnvelopePrefixV2 ++ rest := by
      rintro ⟨t, ht⟩
      exact absurd (List.append_inj ht (by decide)).1 (by decide)
    have hbefore : undoEnvelopePrefix undoEnvelopeVersion = undoEnvelopePrefixV2 := rfl
    rw [hbefore, undoVersionOf, if_neg hdiff, if_pos (List.prefix_append _ _)]

omit [Crypto] in
/-- **Layout** of an undo file. -/
theorem splitUndoEnvelopeVersioned_eq_ok {parts : UndoParts} :
    splitUndoEnvelopeVersioned raw = .ok parts ↔
      KnownVersion parts.version ∧ validCanonicalHashHex parts.hashHex = true ∧
        validCanonicalHashHex parts.checksumHex = true ∧
        raw = [undoEnvelopePrefix parts.version, parts.hashHex, undoEnvelopePayloadSep,
          parts.payloadB64, undoEnvelopeChecksumSep, parts.checksumHex].flatten ++
          undoEnvelopeSuffix := by
  obtain ⟨version, hashHex, body, checksumHex⟩ := parts
  have hhexLen : ∀ {text}, validCanonicalHashHex text = true → text.length = undoHashHexLen := by
    intro text hvalid
    rw [validCanonicalHashHex, Bool.and_eq_true, decide_eq_true_eq] at hvalid
    exact hvalid.1
  have hframe : undoEnvelopeFrameBytes = undoEnvelopePrefixV2.length + undoHashHexLen +
      undoEnvelopePayloadSep.length + undoEnvelopeChecksumSep.length + undoHashHexLen +
      undoEnvelopeSuffix.length := rfl
  have hbeforeLen := undoEnvelopePrefix_length version
  simp only [splitUndoEnvelopeVersioned, bind_eq_ok, exists_unit, rejectIf_eq_ok, Except.ok.injEq,
    UndoParts.mk.injEq, not_or, not_not, Bool.not_eq_false]
  constructor
  · rintro ⟨hlen, vp, hvp, ⟨hbefore, hsep, hsep', hsuffix⟩, ⟨hvalid, hvalid'⟩, rfl, hhash, hbody,
      hhex⟩
    obtain ⟨hknown, hp⟩ := undoVersionOf_ok hvp
    rw [hp] at hbefore hsep hsep' hsuffix hvalid hvalid' hhash hbody hhex
    rw [hhash] at hvalid
    rw [hhex] at hvalid'
    have hbodyLen : body.length = raw.length - undoEnvelopeFrameBytes := by
      rw [← hbody]
      exact segment_length (by omega)
    refine ⟨hknown, hvalid, hvalid', eq_flatten_iff_segments.mpr ?_⟩
    simp only [segments, List.map_cons, List.map_nil, Nat.zero_add, hbodyLen, hhexLen hvalid,
      hhexLen hvalid', hbefore, hsep, hsep', hsuffix, hbody, hhash, hhex, List.cons_append,
      List.nil_append]
  · rintro ⟨hknown, hvalid, hvalid', hraw⟩
    have hlen : raw.length = undoEnvelopeFrameBytes + body.length := by
      have hhex := hhexLen hvalid
      have hhex' := hhexLen hvalid'
      rw [hraw]
      simp only [List.flatten_cons, List.flatten_nil, List.length_append, List.length_nil]
      omega
    have hversion : undoVersionOf raw = .ok (version, undoEnvelopePrefix version) := by
      rw [hraw, List.flatten_cons, List.append_assoc]
      exact undoVersionOf_prefix hknown _
    have hcut := eq_flatten_iff_segments.mp hraw
    simp only [segments, List.map_cons, List.map_nil, Nat.zero_add, hhexLen hvalid,
      hhexLen hvalid', List.cons_append, List.nil_append, List.cons.injEq, and_true] at hcut
    obtain ⟨hbefore, hhash, hsep, hbody, hsep', hhex, hsuffix⟩ := hcut
    rw [show raw.length - undoEnvelopeFrameBytes = body.length by omega]
    refine ⟨by omega, _, hversion, ⟨hbefore, hsep, hsep', hsuffix⟩, ⟨?_, ?_⟩, rfl, hhash, hbody,
      hhex⟩
    · rw [hhash]
      exact hvalid
    · rw [hhex]
      exact hvalid'

omit [EnvelopeProbe] in
theorem undoEnvelopeBytes_eq (h : KnownVersion version) (blockHash : Bytes32) (payload : Bytes) :
    undoEnvelopeBytes version blockHash payload =
      [undoEnvelopePrefix version, Hex.encode blockHash.toList, undoEnvelopePayloadSep,
        Base64.encode payload, undoEnvelopeChecksumSep,
        Hex.encode (undoEnvelopeChecksumForVersion version blockHash payload).toList].flatten ++
        undoEnvelopeSuffix := by
  have hopen : undoEnvelopePrefix version = [123] ++ (jsonString (ascii "version") ++ [58] ++
      jsonNumber version ++ [44] ++ (jsonString (ascii "block_hash") ++ [58] ++ [34])) := by
    rcases h with rfl | rfl <;> decide
  have hsep : undoEnvelopePayloadSep =
      [34] ++ ([44] ++ (jsonString (ascii "payload_b64") ++ [58] ++ [34])) := by decide
  have hsep' : undoEnvelopeChecksumSep =
      [34] ++ ([44] ++ (jsonString (ascii "checksum") ++ [58] ++ [34])) := by decide
  have hsuffix : undoEnvelopeSuffix = [34] ++ ([125] ++ [10]) := by decide
  rw [undoEnvelopeBytes, jsonObject, jsonString_plain (plain_hex blockHash.toList),
    jsonString_plain (plain_base64 payload), jsonString_plain (plain_hex _), hopen, hsep, hsep',
    hsuffix]
  simp only [jsonFields, List.flatten_cons, List.flatten_nil, List.append_assoc, List.append_nil]

/-- **What passes all checks is an envelope of this hash.** -/
theorem openUndoEnvelope_ok {opened : Nat × Bytes} (h : openUndoEnvelope blockHash raw = .ok opened)
    :
    KnownVersion opened.1 ∧ raw = undoEnvelopeBytes opened.1 blockHash opened.2 := by
  simp only [openUndoEnvelope, bind_eq_ok, exists_unit, rejectIf_eq_ok, okOr_eq_ok, not_not,
    Bool.not_eq_false, base64DecodeCanonical, Base64.decodeCanonical_eq_ok, Except.ok.injEq] at h
  obtain ⟨-, parts, hsplit, hhash, payload, hbody, -, stored, hstored, heq, rfl⟩ := h
  obtain ⟨hknown, -, hvalid, hraw⟩ := splitUndoEnvelopeVersioned_eq_ok.mp hsplit
  have hhex := (checksum_eq_iff hvalid).mp ⟨stored, hstored, heq⟩
  refine ⟨hknown, ?_⟩
  rw [undoEnvelopeBytes_eq hknown, ← hhash, ← hbody, ← hhex]
  exact hraw

omit [EnvelopeProbe] in
theorem undoEnvelopeBytes_hash {version' : Nat} {blockHash' : Bytes32} {payload' : Bytes}
    (hv : KnownVersion version) (hv' : KnownVersion version')
    (h : undoEnvelopeBytes version blockHash payload =
      undoEnvelopeBytes version' blockHash' payload') : blockHash = blockHash' := by
  rw [undoEnvelopeBytes_eq hv, undoEnvelopeBytes_eq hv'] at h
  simp only [List.flatten_cons, List.append_assoc] at h
  obtain ⟨-, h⟩ := List.append_inj h (by simp only [undoEnvelopePrefix_length])
  obtain ⟨hhash, -⟩ := List.append_inj h (by simp)
  exact BytesN.toList_inj.mp (Hex.encode_injective hhash)

theorem unmarshalUndoEnvelopeDisk_other_hash {α : Type}
    (decodeValidatedBlockUndo : Nat → Bytes → Except String α) (hv : KnownVersion version)
    {blockHash' : Bytes32} (hne : blockHash ≠ blockHash')
    (hraw : marshalUndoEnvelopeVersion version blockHash payload = .ok raw) :
    ∃ e, unmarshalUndoEnvelopeDisk decodeValidatedBlockUndo blockHash' raw = .error e := by
  simp only [marshalUndoEnvelopeVersion, bind_eq_ok, exists_unit, rejectIf_eq_ok,
    Except.ok.injEq] at hraw
  obtain ⟨-, -, rfl⟩ := hraw
  rw [unmarshalUndoEnvelopeDisk]
  cases hopen : openUndoEnvelope blockHash' (undoEnvelopeBytes version blockHash payload) with
  | error e => exact ⟨e, rfl⟩
  | ok opened =>
    obtain ⟨hv', heq⟩ := openUndoEnvelope_ok hopen
    exact absurd (undoEnvelopeBytes_hash hv hv' heq) hne

end undo

/-! ## 5. One spelling -/

/-- **Every disk envelope has one accepted spelling.**  The two store kinds are kept apart by the
checksum, undo records of different blocks by the hash they carry, and both base64 readers accept
the writer's image and nothing else. -/
theorem disk_envelopes_one_spelling [Crypto] [EnvelopeProbe] {α : Type}
    (decodeValidatedBlockUndo : Nat → Bytes → Except String α) :
    (∀ kind payload raw, openStoreEnvelope kind raw = .ok payload ↔
      marshalStoreEnvelope kind payload = .ok raw) ∧
    (∀ kind kind' payload raw, kind ≠ kind' → marshalStoreEnvelope kind payload = .ok raw →
      Set.InjOn sha3_256 {storeChecksumPreimage kind.domain payload,
        storeChecksumPreimage kind'.domain payload} →
      ∃ e, openStoreEnvelope kind' raw = .error e) ∧
    (∀ blockHash raw opened, openUndoEnvelope blockHash raw = .ok opened →
      KnownVersion opened.1 ∧ raw = undoEnvelopeBytes opened.1 blockHash opened.2) ∧
    (∀ version blockHash blockHash' payload raw, KnownVersion version → blockHash ≠ blockHash' →
      marshalUndoEnvelopeVersion version blockHash payload = .ok raw →
      ∃ e, unmarshalUndoEnvelopeDisk decodeValidatedBlockUndo blockHash' raw = .error e) ∧
    (∀ value payload, decodeCanonicalStoreBase64 value = .ok payload ↔
      value = base64Encode payload) ∧
    ∀ value payload, base64DecodeCanonical value = .ok payload ↔ value = base64Encode payload := by
  refine ⟨?_, ?_, ?_, ?_, ?_, ?_⟩
  · exact fun _ _ _ => openStoreEnvelope_eq_ok
  · exact fun _ _ _ _ hne hraw hinj => openStoreEnvelope_other_kind hne hraw hinj
  · exact fun _ _ _ h => openUndoEnvelope_ok h
  · exact fun _ _ _ _ _ hv hne hraw =>
      unmarshalUndoEnvelopeDisk_other_hash decodeValidatedBlockUndo hv hne hraw
  · exact fun _ _ => Base64.decodeCanonical_eq_ok
  · exact fun _ _ => Base64.decodeCanonical_eq_ok

/-- On the real hash, the envelope of an empty chain state: it opens, and not as a block index. -/
theorem disk_envelopes_one_spelling_empty :
    letI : Crypto := Crypto.sha3With fun _ _ _ => .ok true
    letI : EnvelopeProbe := ⟨fun _ _ => "", fun _ => ""⟩
    ∃ raw, marshalStoreEnvelope .chainState [] = .ok raw ∧
      openStoreEnvelope .chainState raw = .ok [] ∧
      ∃ e, openStoreEnvelope .blockIndex raw = .error e := by
  let _ : Crypto := Crypto.sha3With fun _ _ _ => .ok true
  let _ : EnvelopeProbe := ⟨fun _ _ => "", fun _ => ""⟩
  obtain ⟨hopen, hkind, -⟩ := disk_envelopes_one_spelling fun _ payload => .ok payload
  have hdiff : sha3_256 (storeChecksumPreimage StoreEnvelopeKind.chainState.domain []) ≠
      sha3_256 (storeChecksumPreimage StoreEnvelopeKind.blockIndex.domain []) := by decide +kernel
  refine ⟨_, rfl, (hopen .chainState [] _).mpr rfl, hkind .chainState .blockIndex [] _ (by decide)
    rfl ?_⟩
  rintro a (rfl | rfl) b (rfl | rfl) h
  · rfl
  · exact absurd h hdiff
  · exact absurd h.symm hdiff
  · rfl

end Rubin.Node
