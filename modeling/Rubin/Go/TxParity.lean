/-
# One wire format, two parsers

The Rust parser of `Consensus/Tx.lean` and the Go parser of `Go/TxParse.lean` read every byte
string in lock-step: the Rust cursor always stands at the Go offset, and each field is refused
with the same error code or read as the same value.

There is one exception, and it is a difference between the two sources.  Rust refuses a
Simplicity envelope above `MAX_SIMPLICITY_ENVELOPE_BYTES`, or a program above
`MAX_SIMPLICITY_PROGRAM_BYTES`, while it parses; Go has moved both limits to the spend check and
reads on.  The comparison treats these two refusals as strays, so the result is exact: the parsers
agree on a string unless Rust stops at one of the two limits and Go does not happen to refuse the
string as malformed later on.
-/
import Rubin.Go.TxParse
import Rubin.Lib.Lockstep

namespace Rubin.Go

open Rubin.Lib Rubin.Consensus

/-! ## 1. The relation -/

/-- The two refusals that only the Rust parser knows. -/
def SimplicityLimit (e : TxError) : Prop :=
  e = .parse "Simplicity envelope too large" ∨ e = .parse "Simplicity program too large"

instance (e : TxError) : Decidable (SimplicityLimit e) :=
  inferInstanceAs (Decidable (_ ∨ _))

/-- The Rust cursor over `b` stands at the Go offset. -/
def AtOffset (b : Bytes) (r : Reader) (off : Nat) : Prop :=
  r = ⟨b.drop off, off⟩ ∧ off ≤ b.length

/-- The two readers go over `b` in lock-step. -/
abbrev Follows {α β : Type} (b : Bytes) (R : α → β → Prop) (m : Parser TxError α) (n : Scan β) :
    Prop :=
  Lockstep SameCode SimplicityLimit (AtOffset b) R m n

theorem take_atOffset {b : Bytes} {off n : Nat} {e : TxError} :
    Reader.take n e ⟨b.drop off, off⟩ =
      if n ≤ b.length - off then .ok ((b.drop off).take n, ⟨b.drop (off + n), off + n⟩)
      else .error e := by
  simp only [Reader.take, List.length_drop, List.drop_drop]

section follows

variable {b : Bytes}

theorem offset_follows : Follows b Eq (Reader.offset : Parser TxError Nat) get := by
  rintro r off ⟨rfl, hoff⟩
  exact .ok ⟨rfl, rfl, hoff⟩

/-! ## 2. Words, byte strings, lengths -/

theorem readWord_apply {width off : Nat} {eof : String} :
    readWord b width eof off =
      rejectIf (off > b.length ∨ width > b.length - off) (txerr .txErrParse eof) >>= fun _ =>
        .ok (leToNat ((b.drop off).take width), off + width) := by
  rw [readWord, stateT_get_bind, Scan.rejectIf, stateT_lift_bind]
  rfl

theorem readWord_follows {width : Nat} {msg eof : String} :
    Follows b (fun bs v => leToNat bs = v) (Reader.take width (.parse msg))
      (readWord b width eof) := by
  rintro r off ⟨rfl, hoff⟩
  rw [take_atOffset]
  rw [readWord_apply]
  by_cases hfit : width ≤ b.length - off
  · rw [if_pos hfit, rejectIf_neg (by omega)]
    exact .ok ⟨rfl, rfl, by dsimp only; omega⟩
  · rw [if_neg hfit, rejectIf_pos (by omega)]
    exact .error rfl

theorem readU8_apply {off : Nat} :
    readU8 b off = rejectIf (off ≥ b.length) (txerr .txErrParse "unexpected EOF (u8)") >>=
      fun _ => .ok (b.getD off 0, off + 1) := by
  rw [readU8, stateT_get_bind, Scan.rejectIf, stateT_lift_bind]
  rfl

theorem readU8_follows : Follows b Eq Consensus.readU8 (readU8 b) := by
  rintro r off ⟨rfl, hoff⟩
  change Agrees _ _ _ (Reader.take 1 _ _ >>= fun p => Except.ok (UInt8.ofNat (leToNat p.1), p.2)) _
  rw [take_atOffset, readU8_apply]
  by_cases hfit : 1 ≤ b.length - off
  · rw [if_pos hfit, rejectIf_neg (by omega)]
    refine .ok ⟨?_, rfl, by dsimp only; omega⟩
    have hlt : off < b.length := by omega
    dsimp only
    rw [List.drop_eq_getElem_cons hlt, List.take_succ_cons, List.take_zero,
      List.getD_eq_getElem?_getD, List.getElem?_eq_getElem hlt]
    simp [leToNat]
  · rw [if_neg hfit, rejectIf_pos (by omega)]
    exact .error rfl

theorem readU16le_follows : Follows b Eq Consensus.readU16Le (readU16le b) :=
  readWord_follows.bind fun _ _ h => .pure (congrArg UInt16.ofNat h)

theorem readU32le_follows : Follows b Eq Consensus.readU32Le (readU32le b) :=
  readWord_follows.bind fun _ _ h => .pure (congrArg UInt32.ofNat h)

theorem readU64le_follows : Follows b Eq Consensus.readU64Le (readU64le b) :=
  readWord_follows.bind fun _ _ h => .pure (congrArg UInt64.ofNat h)

theorem readBytes_apply {n off : Nat} (hoff : off ≤ b.length) :
    readBytes b n off =
      rejectIf (n > b.length - off) (txerr .txErrParse "unexpected EOF (bytes)") >>= fun _ =>
        .ok ((b.drop off).take n, off + n) := by
  rw [readBytes, stateT_get_bind, Scan.rejectIf, stateT_lift_bind, rejectIf_neg (by omega), ok_bind,
    Scan.rejectIf, stateT_lift_bind]
  rfl

theorem readBytes_follows {n : Nat} : Follows b Eq (Consensus.readBytes n) (readBytes b n) := by
  rintro r off ⟨rfl, hoff⟩
  rw [Consensus.readBytes, take_atOffset]
  rw [readBytes_apply hoff]
  by_cases hfit : n ≤ b.length - off
  · rw [if_pos hfit, rejectIf_neg (by omega)]
    exact .ok ⟨rfl, rfl, by dsimp only; omega⟩
  · rw [if_neg hfit, rejectIf_pos (by omega)]
    exact .error rfl

theorem readHash32_follows : Follows b Eq Consensus.read32 (readHash32 b) :=
  readBytes_follows.bind_same fun _ => .pure rfl

theorem readCompactSizeTagged_follows {tag : UInt8} :
    Follows b Eq (do
      let vm ← readCompactSizeBody tag
      Parser.rejectIf (vm.2 = false) (.parse "non-minimal CompactSize")
      pure vm.1) (readCompactSizeTagged tag b) := by
  have hlt : tag < 0xfd ↔ tag ≤ 0xfc := by
    rw [UInt8.lt_iff_toNat_lt, UInt8.le_iff_toNat_le]
    exact Nat.lt_succ_iff
  unfold readCompactSizeBody readCompactSizeTagged
  by_cases h1 : tag ≤ 0xfc
  · rw [if_pos h1, if_pos (hlt.mpr h1)]
    exact .pure rfl
  rw [if_neg h1, if_neg fun h => h1 (hlt.mp h)]
  by_cases h2 : tag = 0xfd
  · rw [if_pos h2, if_pos h2, bind_assoc]
    refine readU16le_follows.bind_same fun v => ?_
    rw [pure_bind]
    exact .guard (by simp) rfl fun _ => .pure rfl
  rw [if_neg h2, if_neg h2]
  by_cases h3 : tag = 0xfe
  · rw [if_pos h3, if_pos h3, bind_assoc]
    refine readU32le_follows.bind_same fun v => ?_
    rw [pure_bind]
    exact .guard (by simp) rfl fun _ => .pure rfl
  have h4 : tag = 0xff := by
    have hto := tag.toNat_lt
    rw [UInt8.le_iff_toNat_le] at h1
    rw [← UInt8.toNat_inj] at h2 h3 ⊢
    change ¬ tag.toNat ≤ 252 at h1
    change tag.toNat ≠ 253 at h2
    change tag.toNat ≠ 254 at h3
    change tag.toNat = 255
    omega
  rw [if_neg h3, if_neg h3, if_pos h4, bind_assoc]
  refine readU64le_follows.bind_same fun v => ?_
  rw [pure_bind]
  exact .guard (by simp) rfl fun _ => .pure rfl

theorem readCompactSize_follows : Follows b Eq Consensus.readCompactSize (readCompactSize b) := by
  have hsplit : Consensus.readCompactSize = (do
      let start ← Reader.offset
      let tag ← Consensus.readU8
      let v ← (do
        let vm ← readCompactSizeBody tag
        Parser.rejectIf (vm.2 = false) (.parse "non-minimal CompactSize")
        pure vm.1)
      let stop ← Reader.offset
      pure (v, stop - start)) := by
    simp only [Consensus.readCompactSize, bind_assoc, pure_bind]
  rw [hsplit]
  refine offset_follows.bind_same fun start => ?_
  refine readU8_follows.bind_same fun tag => ?_
  refine readCompactSizeTagged_follows.bind_same fun v => ?_
  exact offset_follows.bind_same fun stop => .pure rfl

theorem collect_follows {α : Type} {m : Parser TxError α} {n : Scan α} (h : Follows b Eq m n) :
    ∀ (k : Nat) (xs : List α),
      Follows b (fun as bs => xs ++ as = bs) (Parser.replicate m k) (Scan.collect n k xs) := by
  intro k
  induction k with
  | zero => exact fun xs => .pure (List.append_nil xs)
  | succ k ih =>
    intro xs
    refine h.bind_same fun a => ?_
    rw [← bind_pure (Scan.collect n k (xs ++ [a]))]
    refine (ih (xs ++ [a])).bind fun as bs hbs => .pure ?_
    rw [← hbs, List.append_assoc, List.singleton_append]

/-! ## 3. Header, inputs, outputs, DA core -/

/-- The kinds that the header lets through. -/
def KnownKind (txKind : UInt8) : Prop := txKind = 0x00 ∨ txKind = 0x01 ∨ txKind = 0x02

theorem parseTxHeader_follows :
    Follows b (fun p q => p = q ∧ KnownKind p.2.1) parseTxPrefix (parseTxHeader b) := by
  refine readU32le_follows.bind_same fun version => ?_
  refine .guard Iff.rfl rfl fun _ => ?_
  refine readU8_follows.bind_same fun txKind => ?_
  refine .guard (by simp only [not_or, ne_eq]) rfl fun hkind => ?_
  have hknown : KnownKind txKind := by
    unfold KnownKind
    tauto
  exact readU64le_follows.bind_same fun txNonce => .pure ⟨rfl, hknown⟩

theorem parseTxInput_follows : Follows b Eq Consensus.parseTxInput (parseTxInput b) := by
  refine readHash32_follows.bind_same fun prevTxid => ?_
  refine readU32le_follows.bind_same fun prevVout => ?_
  refine readCompactSize_follows.bind_same fun scriptSigLen => ?_
  refine .guard Iff.rfl rfl fun _ => ?_
  refine readBytes_follows.bind_same fun scriptSig => ?_
  exact readU32le_follows.bind_same fun sequence => .pure rfl

theorem parseTxInputs_follows : Follows b Eq Consensus.parseTxInputs (parseTxInputs b) := by
  refine readCompactSize_follows.bind_same fun inCount => ?_
  refine .guard Iff.rfl rfl fun _ => ?_
  exact collect_follows parseTxInput_follows inCount.1 []

theorem parseTxOutput_follows : Follows b Eq Consensus.parseTxOutput (parseTxOutput b) := by
  refine readU64le_follows.bind_same fun value => ?_
  refine readU16le_follows.bind_same fun covenantType => ?_
  refine readCompactSize_follows.bind_same fun covLen => ?_
  refine .guards ?_ (by simp) fun _ => ?_
  · -- each client has a bound for its own integers; both lie above the protocol's
    have h1 : maxCovenantDataPerOutput ≤ usizeMax := by decide
    have h2 : maxCovenantDataPerOutput ≤ maxInt := by decide
    omega
  exact readBytes_follows.bind_same fun covenantData => .pure rfl

theorem parseTxOutputs_follows : Follows b Eq Consensus.parseTxOutputs (parseTxOutputs b) := by
  refine readCompactSize_follows.bind_same fun outCount => ?_
  refine .guard Iff.rfl rfl fun _ => ?_
  exact collect_follows parseTxOutput_follows outCount.1 []

theorem parseTxDaCommitCore_follows :
    Follows b Eq parseDaCommitCore (parseTxDaCommitCore b) := by
  simp only [parseDaCommitCore, readDaCommitChunkCount, readDaBatchSig, parseTxDaCommitCore,
    parseDaCommitTail, bind_assoc, pure_bind]
  refine readHash32_follows.bind_same fun daId => ?_
  refine readU16le_follows.bind_same fun chunkCount => ?_
  refine .guard (by simp [invalidDaCommitChunkCount]) rfl fun _ => ?_
  refine readHash32_follows.bind_same fun retlDomainId => ?_
  refine readU64le_follows.bind_same fun batchNumber => ?_
  refine readHash32_follows.bind_same fun txDataRoot => ?_
  refine readHash32_follows.bind_same fun stateRoot => ?_
  refine readHash32_follows.bind_same fun withdrawalsRoot => ?_
  refine readU8_follows.bind_same fun batchSigSuite => ?_
  refine readCompactSize_follows.bind_same fun batchSigLen => ?_
  refine .guard ?_ rfl fun _ => ?_
  · have h : maxDaManifestBytesPerTx ≤ usizeMax := by decide
    omega
  exact readBytes_follows.bind_same fun batchSig => .pure rfl

theorem parseTxDaChunkCore_follows : Follows b Eq parseDaChunkCore (parseTxDaChunkCore b) := by
  refine readHash32_follows.bind_same fun daId => ?_
  refine readU16le_follows.bind_same fun chunkIndex => ?_
  refine .guard Iff.rfl rfl fun _ => ?_
  exact readHash32_follows.bind_same fun chunkHash => .pure rfl

theorem parseTxDaCore_follows {txKind : UInt8} (hkind : KnownKind txKind) :
    Follows b Eq (parseDaCore txKind) (parseTxDaCore b txKind) := by
  rcases hkind with rfl | rfl | rfl
  · exact .pure rfl
  · exact parseTxDaCommitCore_follows.bind_same fun core => .pure rfl
  · exact parseTxDaChunkCore_follows.bind_same fun core => .pure rfl

/-! ## 4. Witness items -/

theorem isCanonicalSentinelWitnessItem_eq (pubLen : Nat) (sig : Bytes) :
    isCanonicalSentinelWitnessItem pubLen sig = isCanonicalSentinelWitness pubLen sig := by
  unfold isCanonicalSentinelWitnessItem isCanonicalSentinelWitness
  by_cases h0 : pubLen = 0
  · subst h0
    cases sig <;> simp
  by_cases h32 : pubLen = 32
  · subst h32
    rcases sig with _ | ⟨x, _ | ⟨y, _ | ⟨z, t⟩⟩⟩
    · simp
    · simp
    · simp
    · by_cases hx : x = 0
      · subst hx
        by_cases hlen : leToNat [y, z] < minHtlcPreimageBytes ∨ leToNat [y, z] > maxHtlcPreimageBytes
        · have hbad : (decide (minHtlcPreimageBytes ≤ leToNat [y, z]) &&
              decide (leToNat [y, z] ≤ maxHtlcPreimageBytes)) = false := by
            rw [Bool.and_eq_false_iff, decide_eq_false_iff_not, decide_eq_false_iff_not]
            omega
          simp [isCanonicalHtlcClaimSignature, hlen, hbad]
        · have hgood : (decide (minHtlcPreimageBytes ≤ leToNat [y, z]) &&
              decide (leToNat [y, z] ≤ maxHtlcPreimageBytes)) = true := by
            rw [Bool.and_eq_true, decide_eq_true_eq, decide_eq_true_eq]
            omega
          simp [isCanonicalHtlcClaimSignature, hlen, hgood]
      · simp [isCanonicalHtlcClaimSignature, hx]
  · simp [h0, h32]

/-- The walk over an envelope from behind its version byte. -/
theorem readSimplicityEnvelope_follows :
    Follows b (fun _ _ => True) (do
      let programLen ← Consensus.readCompactSize
      Parser.rejectIf (programLen.1 > maxSimplicityProgramBytes)
        (.parse "Simplicity program too large")
      let _ ← Consensus.readBytes programLen.1
      let witnessLen ← Consensus.readCompactSize
      Parser.rejectIf (witnessLen.1 > isizeMax) (.parse "Simplicity witness_len overflows int")
      let _ ← Consensus.readBytes witnessLen.1
      let offset ← Reader.offset
      Parser.rejectIf (offset ≠ b.length)
        (.parse "non-canonical Simplicity envelope witness item")) (readSimplicityEnvelope b) := by
  refine readCompactSize_follows.bind_same fun programLen => ?_
  refine .strayGuard (fun h => Nat.lt_trans (by decide) h) (.inr rfl) fun _ => ?_
  refine readBytes_follows.bind_same fun program => ?_
  refine readCompactSize_follows.bind_same fun witnessLen => ?_
  refine .guard Iff.rfl rfl fun _ => ?_
  refine readBytes_follows.bind_same fun witness => ?_
  refine offset_follows.bind_same fun off => ?_
  rw [← bind_pure (Parser.rejectIf _ _)]
  exact .guard Iff.rfl rfl fun _ => .pure trivial

theorem validateSimplicityEnvelopeSignature_agrees (sig : Bytes) :
    Agrees SameCode SimplicityLimit Eq (Consensus.validateSimplicityEnvelopeSignature sig)
      (validateSimplicityEnvelopeSignature sig) := by
  simp only [Consensus.validateSimplicityEnvelopeSignature, validateSimplicityEnvelopeSignature,
    parseSimplicityEnvelopeSignature, bind_assoc]
  refine .guard Iff.rfl rfl fun hlen => ?_
  refine .strayGuard (.inl rfl) fun _ => ?_
  cases henv : sig.dropLast with
  | nil =>
    have hdrop : sig.dropLast.length = sig.length - 1 := List.length_dropLast
    rw [henv, List.length_nil] at hdrop
    omega
  | cons version rest =>
    have hread : Consensus.readU8 (Reader.new (version :: rest)) = .ok (version, ⟨rest, 1⟩) := by
      have h := readU8_codec.complete (a := version) trivial trivial rest 0
      simpa [u8Bytes, natToLe, Reader.past, Reader.new] using h
    rw [parseSimplicityEnvelope, stateT_bind_apply, hread, ok_bind, Parser.rejectIf,
      stateT_lift_bind, bind_assoc]
    simp only [List.head?_cons, okOr, ok_bind]
    refine .guard Iff.rfl rfl fun _ => ?_
    have hat : AtOffset (version :: rest) ⟨rest, 1⟩ 1 := ⟨rfl, by simp⟩
    exact (readSimplicityEnvelope_follows _ _ hat).bind fun _ _ _ => .ok rfl

theorem validateWitnessItemLengths_agrees (item : WitnessItem) (pubLen sigLen : Nat) :
    Agrees SameCode SimplicityLimit Eq
      (validateWitnessItemShape item.suiteId pubLen sigLen item.signature)
      (validateWitnessItemLengths item pubLen sigLen) := by
  unfold validateWitnessItemShape validateWitnessItemLengths
  have hdistinct : suiteIdMlDsa87 ≠ suiteIdSentinel ∧ suiteIdSimplicityEnvelope ≠ suiteIdSentinel ∧
    suiteIdSimplicityEnvelope ≠ suiteIdMlDsa87 := by decide
  by_cases h0 : item.suiteId = suiteIdSentinel
  · rw [if_pos h0, if_pos h0, isCanonicalSentinelWitnessItem_eq]
    exact .rejectIf (by simp) rfl
  rw [if_neg h0, if_neg h0]
  by_cases h1 : item.suiteId = suiteIdMlDsa87
  · rw [if_pos h1]
    by_cases hlen : pubLen = mlDsa87PubkeyBytes ∧ sigLen = mlDsa87SigBytes + 1
    · rw [if_neg fun h => h.2 hlen, rejectIf_neg (by omega), if_neg, if_neg]
      · exact .ok rfl
      · exact fun h => hdistinct.2.2 (h.symm.trans h1)
      · exact fun h => hdistinct.2.2 (h.1.symm.trans h1)
    · rw [if_pos ⟨h1, hlen⟩, rejectIf_pos (by omega)]
      exact .error rfl
  rw [if_neg h1, if_neg fun h => h1 h.1]
  by_cases h2 : item.suiteId = suiteIdSimplicityEnvelope
  · by_cases hpub : pubLen = 0
    · rw [if_neg fun h => h.2 hpub, if_pos h2, if_pos h2]
      exact .idleGuard (fun h => h hpub) (validateSimplicityEnvelopeSignature_agrees _)
    · rw [if_pos ⟨h2, hpub⟩, if_pos h2, rejectIf_pos hpub]
      exact .error rfl
  · rw [if_neg fun h => h2 h.1, if_neg h2, if_neg h2]
    exact .ok rfl

/-- One length-prefixed field.  A length that is no `int` is refused by Go at once, and by Rust
because no slice is that long. -/
theorem parseWitnessBytes_follows (hb : b.length ≤ maxInt) {witnessBytes : Nat}
    {msg msg' : String} :
    Follows b (fun p q => p.1 = q.2.1 ∧ p.2.1 = q.1 ∧ p.2.2 = witnessBytes + q.2.2)
      (readWitnessBytes witnessBytes msg) (parseWitnessBytes b msg') := by
  refine readCompactSize_follows.bind_same fun len => ?_
  have hint : maxInt ≤ usizeMax := by decide
  by_cases hbig : len.1 > maxInt
  · intro r off hst
    rw [Parser.rejectIf, Scan.rejectIf, stateT_lift_bind, stateT_lift_bind, rejectIf_pos hbig]
    by_cases husize : len.1 > usizeMax
    · rw [rejectIf_pos husize]
      exact .error rfl
    · rw [rejectIf_neg husize]
      obtain ⟨rfl, hoff⟩ := hst
      rw [ok_bind, stateT_bind_apply, Consensus.readBytes, take_atOffset, if_neg (by omega)]
      exact .error rfl
  · refine .guard (by omega) rfl fun _ => ?_
    exact readBytes_follows.bind_same fun bytes => .pure ⟨rfl, rfl, Nat.add_assoc _ _ _⟩

theorem parseTxWitnessItems_follows (hb : b.length ≤ maxInt) :
    ∀ (n witnessBytes : Nat) (xs : List WitnessItem),
      Follows b (fun as bs => xs ++ as = bs) (parseWitnessItems n witnessBytes)
        (parseTxWitnessItems b n witnessBytes xs) := by
  intro n
  induction n with
  | zero => exact fun _ xs => .pure (List.append_nil xs)
  | succ n ih =>
    intro witnessBytes xs
    simp only [parseWitnessItems, parseWitnessItem, validateWitnessItemOrdered,
      parseTxWitnessItems, parseWitnessItemFields, bind_assoc, pure_bind, stateT_lift_bind_lift]
    refine readU8_follows.bind_same fun suiteId => ?_
    refine (parseWitnessBytes_follows hb).bind fun pub pub' hpub => ?_
    refine (parseWitnessBytes_follows hb).bind fun sig sig' hsig => ?_
    obtain ⟨hpub1, hpub2, hpub3⟩ := hpub
    obtain ⟨hsig1, hsig2, hsig3⟩ := hsig
    have hcount : sig.2.2 = witnessBytes + (1 + pub'.2.2 + sig'.2.2) := by omega
    rw [hpub1, hpub2, hsig1, hsig2, hcount]
    refine .guard Iff.rfl rfl fun _ => ?_
    refine .guard Iff.rfl rfl fun _ => ?_
    refine (Lockstep.lift (validateWitnessItemLengths_agrees
      ⟨suiteId, pub'.1, sig'.1⟩ pub'.2.1 sig'.2.1)).bind_same fun _ => ?_
    rw [← bind_pure (parseTxWitnessItems _ _ _ _)]
    refine (ih _ (xs ++ [_])).bind fun as bs hbs => .pure ?_
    rw [← hbs, List.append_assoc, List.singleton_append]

theorem parseTxWitness_follows (hb : b.length ≤ maxInt) :
    Follows b Eq parseWitnesses (parseTxWitness b) := by
  refine readCompactSize_follows.bind_same fun witnessCount => ?_
  refine .guard Iff.rfl rfl fun _ => ?_
  exact parseTxWitnessItems_follows hb _ _ []

/-! ## 5. DA payload and the whole transaction -/

theorem readDaPayloadBytes_follows {daLen maxLen : Nat} {allowEmpty : Bool} {msg : String}
    {bad : Prop} [Decidable bad] {msg' : String}
    (hbad : bad ↔ daLen > maxLen ∨ daLen = 0 ∧ allowEmpty = false) :
    Follows b Eq (do
      Parser.rejectIf bad (.parse msg')
      Consensus.readBytes daLen) (readDaPayloadBytes b daLen maxLen allowEmpty msg) := by
  simp only [readDaPayloadBytes, Scan.rejectIf, stateT_guard_or]
  refine .guard hbad rfl fun _ => ?_
  by_cases h0 : daLen = 0
  · subst h0
    rw [if_pos rfl]
    rintro r off ⟨rfl, hoff⟩
    rw [Consensus.readBytes, take_atOffset, if_pos (Nat.zero_le _)]
    exact .ok ⟨rfl, rfl, hoff⟩
  · rw [if_neg h0]
    exact readBytes_follows

theorem parseTxDaPayload_follows {txKind : UInt8} (hkind : KnownKind txKind) :
    Follows b Eq (parseDaPayload txKind) (parseTxDaPayload b txKind) := by
  refine readCompactSize_follows.bind_same fun daLen => ?_
  have h1 : maxDaManifestBytesPerTx ≤ usizeMax := by decide
  have h2 : chunkBytes ≤ usizeMax := by decide
  rcases hkind with rfl | rfl | rfl
  · exact .guard Iff.rfl rfl fun _ => .pure rfl
  · exact readDaPayloadBytes_follows (by simp; omega)
  · exact readDaPayloadBytes_follows (by simp; omega)

theorem scanTx_follows (hb : b.length ≤ maxInt) : Follows b Eq parseTxCursor (scanTx b) := by
  refine parseTxHeader_follows.bind fun header header' hheader => ?_
  obtain ⟨rfl, hkind⟩ := hheader
  refine parseTxInputs_follows.bind_same fun inputs => ?_
  refine parseTxOutputs_follows.bind_same fun outputs => ?_
  refine readU32le_follows.bind_same fun locktime => ?_
  refine (parseTxDaCore_follows hkind).bind_same fun cores => ?_
  refine offset_follows.bind_same fun coreEnd => ?_
  refine (parseTxWitness_follows hb).bind_same fun witness => ?_
  refine (parseTxDaPayload_follows hkind).bind_same fun daPayload => ?_
  exact offset_follows.bind_same fun off => .pure rfl

end follows

/-! ## 6. The two languages -/

section languages

variable [Crypto]

theorem parseTx_agrees (b : ByteSlice) :
    Agrees SameCode SimplicityLimit Eq (Consensus.parseTx b.bytes) (parseTx b.bytes) := by
  have hstart : AtOffset b.bytes (Reader.new b.bytes) 0 := ⟨rfl, Nat.zero_le _⟩
  simp only [Consensus.parseTx, parseTxWithoutHashes, parseTx, bind_assoc, ok_bind]
  refine (scanTx_follows b.length_le _ _ hstart).bind fun p q hpq => .ok ?_
  rw [hpq.1]

/-- The claim about one string: the same transaction, ids and length, or the same error code. -/
def ParsersAgree (b : Bytes) : Prop :=
  (∃ p, Consensus.parseTx b = .ok p ∧ parseTx b = .ok p) ∨
    ∃ e f, Consensus.parseTx b = .error e ∧ parseTx b = .error f ∧ f.code = some e.code

end languages

/-- No inputs, no outputs, and one witness item: a Simplicity envelope whose program has one byte
more than `MAX_SIMPLICITY_PROGRAM_BYTES`. -/
def oversizeProgramTx : Bytes :=
  [0x01, 0, 0, 0, 0x00, 0, 0, 0, 0, 0, 0, 0, 0, 0x00, 0x00, 0, 0, 0, 0] ++
    [0x01, 0xf0, 0x00, 0xfd, 0x07, 0x40, 0x01, 0xfd, 0x01, 0x40] ++
    List.replicate (maxSimplicityProgramBytes + 1) 0 ++ [0x00, 0x01, 0x00]

theorem oversizeProgramTx_rust : (parseTxWithoutHashes oversizeProgramTx).isOk = false := by
  decide +kernel

theorem oversizeProgramTx_go : (scanTx oversizeProgramTx 0).isOk = true := by
  decide +kernel

end Rubin.Go
