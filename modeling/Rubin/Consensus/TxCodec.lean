/-
# The transaction wire format is canonical

`parse_tx` and `marshal_tx` are two separate pieces of code over ten fields, three counted lists
and three transaction kinds.  This file proves that they are the two directions of one format,
one codec per parser function, composed by `Codec.bind`.

Reading back (`marshalTx_parseTx`) needs the DA core fields to be the ones the kind calls for.
`marshal_tx` writes the core its kind selects and ignores the other, so a stray core does not
survive the trip.
-/
import Rubin.Consensus.Tx

namespace Rubin.Consensus

open Rubin.Lib

@[simp] theorem u8Bytes_eq (v : UInt8) : u8Bytes v = [v] := by
  simp [u8Bytes, natToLe, UInt8.ofNat_toNat]

theorem counted_codec {α : Type} {p : Parser TxError α} {enc : α → Bytes} {valid : α → Prop}
    (hp : Codec p enc (fun _ => True) valid) (limit : Nat) (hlim : limit ≤ 0xffffffff)
    (e : TxError) :
    Codec (do let n ← readCompactSize
              Parser.rejectIf (n.1 > limit) e
              Parser.replicate p n.1)
      (fun as => encodeCompactSize as.length ++ as.flatMap enc) (fun _ => True)
      (fun as => as.length ≤ limit ∧ ∀ a ∈ as, valid a) :=
  Codec.compactBind List.length limit hlim
    (fun n hn => Codec.skip (by omega) ((hp.replicate n).weaken (fun _ _ => rfl)
      (fun _ h => ⟨h.2, fun _ _ => trivial⟩) (fun _ h _ => ⟨trivial, h.1⟩) (fun _ _ => Iff.rfl)))
    (by simp; omega)

/-! ## 1. Inputs and outputs -/

theorem parseTxInput_codec :
    Codec parseTxInput TxInput.bytes (fun _ => True)
      (fun i => i.scriptSig.length ≤ maxScriptSigBytes) := by
  have h : Codec parseTxInput _ (fun _ => True) _ :=
    Codec.bind TxInput.prevTxid read32_codec (fun _ _ _ =>
    Codec.bind TxInput.prevVout readU32Le_codec (fun _ _ _ =>
    Codec.compactBind (fun i : TxInput => i.scriptSig.length) maxScriptSigBytes (by decide)
      (fun n hn => Codec.skip (by omega) (
        Codec.bind TxInput.scriptSig (readBytes_codec n) (fun _ hlen _ =>
        Codec.bind TxInput.sequence readU32Le_codec (fun _ _ _ =>
        Codec.pure (by rintro ⟨⟩; simp; grind)) (fun _ _ => trivial)) (by simp)))
      (by simp; omega)) (fun _ _ => trivial)) (fun _ _ => trivial)
  exact h.weaken (by simp [TxInput.bytes]) (fun _ h => h) (fun _ h _ => h) (by simp)

theorem parseTxInputs_codec :
    Codec parseTxInputs
      (fun is => encodeCompactSize is.length ++ is.flatMap TxInput.bytes) (fun _ => True)
      (fun is => is.length ≤ maxTxInputs ∧ ∀ i ∈ is, i.scriptSig.length ≤ maxScriptSigBytes) :=
  counted_codec parseTxInput_codec maxTxInputs (by decide) _

theorem parseTxOutput_codec :
    Codec parseTxOutput TxOutput.bytes (fun _ => True)
      (fun o => o.covenantData.length ≤ maxCovenantDataPerOutput) := by
  have hmax : maxCovenantDataPerOutput ≤ usizeMax := by decide
  have h : Codec parseTxOutput _ (fun _ => True) _ :=
    Codec.bind TxOutput.value readU64Le_codec (fun _ _ _ =>
    Codec.bind TxOutput.covenantType readU16Le_codec (fun _ _ _ =>
    Codec.compactBind (fun o : TxOutput => o.covenantData.length) maxCovenantDataPerOutput
      (by decide)
      (fun n hn => Codec.skip (by omega) (Codec.skip (by omega) (
        Codec.bind TxOutput.covenantData (readBytes_codec n) (fun _ hlen _ =>
        Codec.pure (by rintro ⟨⟩; simp; grind)) (by simp))))
      (by simp; omega)) (fun _ _ => trivial)) (fun _ _ => trivial)
  exact h.weaken (by simp [TxOutput.bytes]) (fun _ h => h) (fun _ h _ => h) (by simp)

theorem parseTxOutputs_codec :
    Codec parseTxOutputs
      (fun os => encodeCompactSize os.length ++ os.flatMap TxOutput.bytes) (fun _ => True)
      (fun os => os.length ≤ maxTxOutputs ∧
        ∀ o ∈ os, o.covenantData.length ≤ maxCovenantDataPerOutput) :=
  counted_codec parseTxOutput_codec maxTxOutputs (by decide) _

/-! ## 2. DA core fields -/

theorem readDaCommitChunkCount_codec :
    Codec readDaCommitChunkCount u16LeBytes (fun _ => True)
      (fun c => ¬ (c = 0 ∨ c.toNat > maxDaChunkCount)) := by
  have h : Codec readDaCommitChunkCount _ (fun _ => True) _ :=
    Codec.bind id readU16Le_codec (fun c _ _ =>
      Codec.guard (fun c : UInt16 => c = 0 ∨ c.toNat > maxDaChunkCount) (by simp)
        (fun _ => Codec.pure (by simp))) (fun _ _ => trivial)
  exact h.weaken (by simp) (fun _ h => h) (fun _ h _ => h) (by simp)

theorem readDaBatchSig_codec :
    Codec readDaBatchSig (fun s => encodeCompactSize s.length ++ s) (fun _ => True)
      (fun s => s.length ≤ maxDaManifestBytesPerTx) := by
  have hmax : maxDaManifestBytesPerTx ≤ usizeMax := by decide
  have h : Codec readDaBatchSig _ (fun _ => True) _ :=
    Codec.compactBind List.length maxDaManifestBytesPerTx (by decide)
      (fun n hn => Codec.skip (by omega) ((readBytes_codec n).weaken (fun _ _ => rfl)
        (fun _ h => h.2) (fun _ h _ => ⟨trivial, h⟩) (fun _ _ => Iff.rfl)))
      (by simp; omega)
  exact h.weaken (fun _ _ => rfl) (fun _ h => h) (fun _ h _ => h) (by simp)

theorem parseDaCommitCore_codec :
    Codec parseDaCommitCore DaCommitCore.bytes (fun _ => True)
      (fun c => ¬ (c.chunkCount = 0 ∨ c.chunkCount.toNat > maxDaChunkCount) ∧
        c.batchSig.length ≤ maxDaManifestBytesPerTx) := by
  have h : Codec parseDaCommitCore _ (fun _ => True) _ :=
    Codec.bind DaCommitCore.daId read32_codec (fun _ _ _ =>
    Codec.bind DaCommitCore.chunkCount readDaCommitChunkCount_codec (fun _ _ _ =>
    Codec.bind DaCommitCore.retlDomainId read32_codec (fun _ _ _ =>
    Codec.bind DaCommitCore.batchNumber readU64Le_codec (fun _ _ _ =>
    Codec.bind DaCommitCore.txDataRoot read32_codec (fun _ _ _ =>
    Codec.bind DaCommitCore.stateRoot read32_codec (fun _ _ _ =>
    Codec.bind DaCommitCore.withdrawalsRoot read32_codec (fun _ _ _ =>
    Codec.bind DaCommitCore.batchSigSuite readU8_codec (fun _ _ _ =>
    Codec.bind DaCommitCore.batchSig readDaBatchSig_codec (fun _ _ _ =>
    Codec.pure (by rintro ⟨⟩; simp; tauto))
      (fun _ _ => trivial)) (fun _ _ => trivial)) (fun _ _ => trivial)) (fun _ _ => trivial))
      (fun _ _ => trivial)) (fun _ _ => trivial)) (fun _ _ => trivial)) (fun _ _ => trivial))
      (fun _ _ => trivial)
  exact h.weaken (by simp [DaCommitCore.bytes]) (fun _ h => h) (fun _ h _ => h) (by simp)

theorem parseDaChunkCore_codec :
    Codec parseDaChunkCore DaChunkCore.bytes (fun _ => True)
      (fun c => c.chunkIndex.toNat < maxDaChunkCount) := by
  have h : Codec parseDaChunkCore _ (fun _ => True) _ :=
    Codec.bind DaChunkCore.daId read32_codec (fun _ _ _ =>
    Codec.bind DaChunkCore.chunkIndex readU16Le_codec (fun _ _ _ =>
    Codec.guard (fun c : DaChunkCore => c.chunkIndex.toNat ≥ maxDaChunkCount) (by simp; grind)
      (fun _ => Codec.bind DaChunkCore.chunkHash read32_codec (fun _ _ _ =>
    Codec.pure (by rintro ⟨⟩; simp; tauto)) (fun _ _ => trivial)))
      (fun _ _ => trivial)) (fun _ _ => trivial)
  exact h.weaken (by simp [DaChunkCore.bytes]) (fun _ h => h) (fun _ h _ => h) (by simp)

/-- The two optional cores of a transaction. -/
abbrev DaCores := Option DaCommitCore × Option DaChunkCore

/-- The core fields a kind selects; empty where `da_core_fields_bytes` refuses. -/
def daCoresBytes (txKind : UInt8) (cores : DaCores) : Bytes :=
  if txKind = 0x01 then (cores.1.map DaCommitCore.bytes).getD []
  else if txKind = 0x02 then (cores.2.map DaChunkCore.bytes).getD []
  else []

/-- A transaction carries the core of its kind and no other. -/
def CoresMatchKind (txKind : UInt8) (cores : DaCores) : Prop :=
  (cores.1.isSome ↔ txKind = 0x01) ∧ (cores.2.isSome ↔ txKind = 0x02)

/-- The range checks the parser makes on the cores. -/
def CoresInRange (cores : DaCores) : Prop :=
  (∀ c ∈ cores.1, ¬ (c.chunkCount = 0 ∨ c.chunkCount.toNat > maxDaChunkCount) ∧
    c.batchSig.length ≤ maxDaManifestBytesPerTx) ∧
  (∀ c ∈ cores.2, c.chunkIndex.toNat < maxDaChunkCount)

theorem parseDaCore_codec (txKind : UInt8) :
    Codec (parseDaCore txKind) (daCoresBytes txKind) (CoresMatchKind txKind) CoresInRange := by
  unfold parseDaCore
  split
  · rename_i h1
    subst h1
    refine parseDaCommitCore_codec.embed (fun c => ((some c, none) : DaCores)) ?_
      (by simp [daCoresBytes]) (by simp [CoresInRange])
    rintro ⟨_ | c, _ | c'⟩ <;> simp [CoresMatchKind]
  · rename_i h1
    split
    · rename_i h2
      subst h2
      refine parseDaChunkCore_codec.embed (fun c => ((none, some c) : DaCores)) ?_
        (by simp [daCoresBytes]) (by simp [CoresInRange])
      rintro ⟨_ | c, _ | c'⟩ <;> simp [CoresMatchKind]
    · rename_i h2
      have hdom : ∀ cores, CoresMatchKind txKind cores ↔ cores = (none, none) := by
        rintro ⟨_ | c, _ | c'⟩ <;> simp [CoresMatchKind, h1, h2]
      refine (Codec.pure hdom).weaken (by simp [daCoresBytes, h1, h2]) (fun _ h => h)
        (fun _ h _ => h) ?_
      intro cores h
      rw [(hdom cores).mp h]
      simp [CoresInRange]

/-! ## 3. Witness items -/

/-- What the parser demands of an item that brings the witness section to `witnessBytes`. -/
def WitnessItem.Accepted (item : WitnessItem) (witnessBytes : Nat) : Prop :=
  validateWitnessItemOrdered item.suiteId item.pubkey.length item.signature.length witnessBytes
    item.signature = .ok ()

theorem WitnessItem.Accepted.witnessBytes_le {item : WitnessItem} {witnessBytes : Nat}
    (h : item.Accepted witnessBytes) : witnessBytes ≤ maxWitnessBytesPerTx := by
  simp only [WitnessItem.Accepted, validateWitnessItemOrdered, bind_eq_ok, rejectIf_eq_ok] at h
  obtain ⟨-, -, -, h, -⟩ := h
  omega

theorem WitnessItem.bytes_length (item : WitnessItem) :
    item.bytes.length = 1 + (encodeCompactSize item.pubkey.length).length + item.pubkey.length +
      (encodeCompactSize item.signature.length).length + item.signature.length := by
  simp [WitnessItem.bytes]
  omega

/-- One item; the pair carries the running size of the witness section. -/
theorem parseWitnessItem_codec (witnessBytes : Nat) :
    Codec (parseWitnessItem witnessBytes) (fun x => x.1.bytes)
      (fun x => x.2 = witnessBytes + x.1.bytes.length) (fun x => x.1.Accepted x.2) := by
  have hmax : maxWitnessBytesPerTx ≤ usizeMax := by decide
  unfold parseWitnessItem readWitnessBytes
  simp only [bind_assoc, pure_bind]
  -- an item with an over-long field is refused only at its end, by the section size check
  refine Codec.weaken
    (D := fun x : WitnessItem × Nat => x.2 = witnessBytes + x.1.bytes.length)
    (Codec.bind (fun x : WitnessItem × Nat => x.1.suiteId) readU8_codec (fun suiteId _ _ =>
    Codec.compactBind (fun x : WitnessItem × Nat => x.1.pubkey.length) maxWitnessBytesPerTx
      (by decide)
      (fun n hn => Codec.skip (by omega) (
        Codec.bind (fun x : WitnessItem × Nat => x.1.pubkey) (readBytes_codec n)
          (fun pubkey hpub _ =>
    Codec.compactBind (fun x : WitnessItem × Nat => x.1.signature.length) maxWitnessBytesPerTx
      (by decide)
      (fun m hm => Codec.skip (by omega) (
        Codec.bind (fun x : WitnessItem × Nat => x.1.signature) (readBytes_codec m)
          (fun sig hsig _ =>
        Codec.check (fun x : WitnessItem × Nat => x.1.Accepted x.2) (by
            rintro ⟨⟨s, p, g⟩, wb⟩ h
            simp only [WitnessItem.bytes_length] at h
            obtain ⟨⟨⟨⟨⟨rfl, rfl⟩, rfl⟩, rfl⟩, rfl⟩, rfl⟩ := h
            simp only [WitnessItem.Accepted, Nat.add_assoc])
          (fun _ => Codec.pure (by
            rintro ⟨⟨s, p, g⟩, wb⟩
            simp only [WitnessItem.bytes_length, Prod.mk.injEq, WitnessItem.mk.injEq]
            constructor
            · rintro ⟨⟨⟨⟨⟨rfl, rfl⟩, rfl⟩, rfl⟩, rfl⟩, rfl⟩
              simp only [Nat.add_assoc, and_self]
            · rintro ⟨⟨rfl, rfl, rfl⟩, rfl⟩
              simp only [hpub, hsig, Nat.add_assoc, and_self])))
          (fun _ h => h.2)))
      (by
        rintro m k r ⟨x, r'⟩ hlt h
        simp only [validateWitnessItemOrdered, Parser.bind_eq_ok, Parser.rejectIf_eq_ok,
          Parser.lift_eq_ok, bind_eq_ok, rejectIf_eq_ok] at h
        obtain ⟨-, _, -, sig, _, -, -, _, ⟨⟨-, -, -, hle, -⟩, -⟩, -⟩ := h
        omega))
      (fun _ h => h.2)))
      (by
        rintro n k r ⟨x, r'⟩ hlt h
        simp only [validateWitnessItemOrdered, Parser.bind_eq_ok, Parser.rejectIf_eq_ok,
          Parser.lift_eq_ok, bind_eq_ok, rejectIf_eq_ok] at h
        obtain ⟨-, _, -, pub, _, -, len, _, -, -, _, -, sig, _, -, -, _, ⟨⟨-, -, -, hle, -⟩, -⟩, -⟩
          := h
        omega)) (fun _ _ => trivial))
    (by simp [WitnessItem.bytes]) (fun _ h => h) (fun _ h _ => h) ?_
  rintro ⟨item, wb⟩ hwb
  simp only [true_and, and_true]
  constructor
  · intro h
    have hle := h.witnessBytes_le
    rw [item.bytes_length] at hwb
    exact ⟨by omega, by omega, h⟩
  · exact fun h => h.2.2

/-- Every item is accepted at the size the section has reached with it. -/
def WitnessesAccepted : Nat → List WitnessItem → Prop
  | _, [] => True
  | wb, item :: items =>
    item.Accepted (wb + item.bytes.length) ∧ WitnessesAccepted (wb + item.bytes.length) items

theorem WitnessesAccepted.length_le : ∀ {ws : List WitnessItem} {wb : Nat},
    WitnessesAccepted wb ws → ws ≠ [] →
    wb + (ws.map fun w => w.bytes.length).sum ≤ maxWitnessBytesPerTx
  | [], _, _, hne => absurd rfl hne
  | [w], wb, h, _ => by
    have hle := h.1.witnessBytes_le
    simpa using hle
  | w :: w' :: ws, wb, h, _ => by
    have ih := h.2.length_le (List.cons_ne_nil w' ws)
    rw [List.map_cons, List.sum_cons]
    omega

theorem WitnessesAccepted.each : ∀ {ws : List WitnessItem} {wb : Nat},
    WitnessesAccepted wb ws → ∀ w ∈ ws, ∃ n, w.Accepted n
  | [], _, _ => fun w hw => by cases hw
  | v :: ws, wb, h => List.forall_mem_cons.mpr ⟨⟨_, h.1⟩, h.2.each⟩

theorem parseWitnessItems_eq_iterate : ∀ n wb : Nat,
    parseWitnessItems n wb = Parser.iterate parseWitnessItem n wb
  | 0, _ => rfl
  | n + 1, wb => by
    simp only [parseWitnessItems, Parser.iterate, parseWitnessItems_eq_iterate n]

theorem witnessesAccepted_iff_chained : ∀ (wb : Nat) (l : List WitnessItem),
    WitnessesAccepted wb l ↔
      Codec.Chained (fun wb item => wb + item.bytes.length)
        (fun wb item => item.Accepted (wb + item.bytes.length)) wb l
  | _, [] => Iff.rfl
  | _, _ :: items => and_congr_right fun _ => witnessesAccepted_iff_chained _ items

theorem parseWitnessItems_codec (n wb : Nat) :
    Codec (parseWitnessItems n wb) (fun l => l.flatMap WitnessItem.bytes)
      (fun l => l.length = n) (WitnessesAccepted wb) := by
  rw [parseWitnessItems_eq_iterate]
  refine (Codec.iterate (fun wb => (parseWitnessItem_codec wb).weaken
    (fun _ _ => rfl) (fun _ h => h.2) (fun _ h _ => ⟨trivial, h⟩) ?_) n wb).weaken (fun _ _ => rfl)
    (fun _ h => ⟨h, fun _ _ => trivial⟩) (fun _ h _ => h.1)
    (fun l _ => witnessesAccepted_iff_chained wb l)
  intro x hx
  rw [hx.2]

theorem parseWitnesses_codec :
    Codec parseWitnesses
      (fun l => encodeCompactSize l.length ++ l.flatMap WitnessItem.bytes) (fun _ => True)
      (fun l => l.length ≤ maxWitnessItems ∧
        WitnessesAccepted (encodeCompactSize l.length).length l) := by
  have h : Codec parseWitnesses _ (fun _ => True) _ :=
    Codec.compactBind List.length maxWitnessItems (by decide)
      (V := fun l => WitnessesAccepted (encodeCompactSize l.length).length l)
      (fun n hn => Codec.skip (by omega) ((parseWitnessItems_codec n _).weaken (fun _ _ => rfl)
        (fun _ h => h.2) (fun _ h _ => ⟨trivial, h⟩) (fun _ h => by rw [h.2])))
      (by simp; omega)
  exact h.weaken (fun _ _ => rfl) (fun _ h => h) (fun _ h _ => h) (by simp)

/-! ## 4. DA payload -/

/-- The payload lengths a kind allows. -/
def PayloadInRange (txKind : UInt8) (len : Nat) : Prop :=
  (txKind = 0x00 ∧ len = 0) ∨ (txKind = 0x01 ∧ len ≤ maxDaManifestBytesPerTx) ∨
    (txKind = 0x02 ∧ len ≠ 0 ∧ len ≤ chunkBytes)

theorem PayloadInRange.le_chunkBytes {txKind : UInt8} {len : Nat}
    (h : PayloadInRange txKind len) : len ≤ chunkBytes := by
  have hmax : maxDaManifestBytesPerTx ≤ chunkBytes := by decide
  rcases h with ⟨-, h⟩ | ⟨-, h⟩ | ⟨-, -, h⟩ <;> omega

theorem parseDaPayload_codec (txKind : UInt8) :
    Codec (parseDaPayload txKind) (fun p => encodeCompactSize p.length ++ p) (fun _ => True)
      (fun p => PayloadInRange txKind p.length) := by
  have hmax : chunkBytes ≤ usizeMax ∧ maxDaManifestBytesPerTx ≤ chunkBytes := by decide
  have hraw : ∀ n, Codec (readBytes n) (fun p => p) (fun p : Bytes => True ∧ p.length = n)
      (fun _ => True) := fun n => (readBytes_codec n).weaken (fun _ _ => rfl) (fun _ h => h.2)
        (fun _ h _ => ⟨trivial, h⟩) (fun _ _ => Iff.rfl)
  have h : Codec (parseDaPayload txKind) _ (fun _ => True) _ :=
    Codec.compactBind (V := fun p => PayloadInRange txKind p.length) List.length chunkBytes
      (by decide) (T := fun p => p)
      (fun n hn => by
        dsimp only
        split_ifs with h0 h1 h2
        · subst h0
          by_cases hz : n = 0
          · subst hz
            have hnil : ∀ p : Bytes, True ∧ p.length = 0 ↔ p = [] := by simp
            exact (Codec.skip (by simp) (Codec.pure hnil)).weaken
              (fun p h => (hnil p).mp h) (fun _ h => h) (fun _ h _ => h)
              (fun p h => by simp [PayloadInRange, h.2])
          · refine Codec.never ?_ (fun p h => by simp [PayloadInRange, h.2, hz])
            rintro r ⟨x, r'⟩ h
            simp only [parseStandardDaPayload, Parser.bind_eq_ok, Parser.rejectIf_eq_ok] at h
            obtain ⟨-, _, ⟨h, -⟩, -⟩ := h
            exact h hz
        · subst h1
          exact (Codec.guard (fun p : Bytes => p.length > maxDaManifestBytesPerTx)
            (fun p h => by rw [h.2]; omega) (fun _ => hraw n)).weaken (fun _ _ => rfl)
            (fun _ h => h) (fun _ h _ => h) (fun p _ => by simp [PayloadInRange])
        · subst h2
          exact (Codec.guard (fun p : Bytes => p.length = 0 ∨ p.length > chunkBytes)
            (fun p h => by rw [h.2]; omega) (fun _ => hraw n)).weaken (fun _ _ => rfl)
            (fun _ h => h) (fun _ h _ => h) (fun p _ => by simp [PayloadInRange])
        · exact Codec.never (by simp) (fun p _ => by simp [PayloadInRange, h0, h1, h2]))
      (fun n k r x hlt h => by
        obtain ⟨x, r'⟩ := x
        dsimp only at h
        split_ifs at h <;>
          simp only [parseStandardDaPayload, parseDaCommitPayload, parseDaChunkPayload,
            Parser.bind_eq_ok, Parser.rejectIf_eq_ok, Parser.lift_eq_ok, reduceCtorEq,
            false_and] at h <;>
          (obtain ⟨-, _, ⟨h, -⟩, -⟩ := h; omega))
  exact h.weaken (fun _ _ => rfl) (fun _ h => h) (fun _ h _ => h)
    (fun p _ => ⟨fun h => ⟨h.le_chunkBytes, h⟩, fun h => h.2⟩)

/-! ## 5. The whole transaction -/

/-- The fields of a transaction, without the two cursor positions `parse_tx` also records. -/
def parseTxFields : Parser TxError Tx := do
  let pre ← parseTxPrefix
  let inputs ← parseTxInputs
  let outputs ← parseTxOutputs
  let locktime ← readU32Le
  let cores ← parseDaCore pre.2.1
  let witness ← parseWitnesses
  let daPayload ← parseDaPayload pre.2.1
  pure { version := pre.1, txKind := pre.2.1, txNonce := pre.2.2, inputs, outputs, locktime,
         daCommitCore := cores.1, daChunkCore := cores.2, witness, daPayload }

def Tx.cores (tx : Tx) : DaCores := (tx.daCommitCore, tx.daChunkCore)

/-- The part of the serialization that the txid hashes. -/
def Tx.coreBytes (tx : Tx) : Bytes :=
  u32LeBytes tx.version ++ [tx.txKind] ++ u64LeBytes tx.txNonce ++
    (encodeCompactSize tx.inputs.length ++ tx.inputs.flatMap TxInput.bytes) ++
    (encodeCompactSize tx.outputs.length ++ tx.outputs.flatMap TxOutput.bytes) ++
    u32LeBytes tx.locktime ++ daCoresBytes tx.txKind tx.cores

/-- The witness section and the DA payload. -/
def Tx.tailBytes (tx : Tx) : Bytes :=
  (encodeCompactSize tx.witness.length ++ tx.witness.flatMap WitnessItem.bytes) ++
    (encodeCompactSize tx.daPayload.length ++ tx.daPayload)

/-- What every parsed transaction satisfies. -/
structure Tx.WellFormed (tx : Tx) : Prop where
  version : tx.version = txWireVersion
  kind : tx.txKind = 0x00 ∨ tx.txKind = 0x01 ∨ tx.txKind = 0x02
  inputs : tx.inputs.length ≤ maxTxInputs
  scriptSigs : ∀ i ∈ tx.inputs, i.scriptSig.length ≤ maxScriptSigBytes
  outputs : tx.outputs.length ≤ maxTxOutputs
  covenantData : ∀ o ∈ tx.outputs, o.covenantData.length ≤ maxCovenantDataPerOutput
  cores : CoresInRange tx.cores
  witnessCount : tx.witness.length ≤ maxWitnessItems
  witness : WitnessesAccepted (encodeCompactSize tx.witness.length).length tx.witness
  payload : PayloadInRange tx.txKind tx.daPayload.length

theorem parseTxPrefix_codec :
    Codec parseTxPrefix (fun x => u32LeBytes x.1 ++ [x.2.1] ++ u64LeBytes x.2.2) (fun _ => True)
      (fun x => x.1 = txWireVersion ∧ (x.2.1 = 0x00 ∨ x.2.1 = 0x01 ∨ x.2.1 = 0x02)) := by
  have h : Codec parseTxPrefix _ (fun _ => True) _ :=
    Codec.bind (fun x : UInt32 × UInt8 × UInt64 => x.1) readU32Le_codec (fun _ _ _ =>
    Codec.guard (fun x : UInt32 × UInt8 × UInt64 => x.1 ≠ txWireVersion) (by simp)
      (fun _ => Codec.bind (fun x : UInt32 × UInt8 × UInt64 => x.2.1) readU8_codec (fun _ _ _ =>
    Codec.guard
      (fun x : UInt32 × UInt8 × UInt64 => x.2.1 ≠ 0x00 ∧ x.2.1 ≠ 0x01 ∧ x.2.1 ≠ 0x02)
      (by simp)
      (fun _ => Codec.bind (fun x : UInt32 × UInt8 × UInt64 => x.2.2) readU64Le_codec
        (fun _ _ _ => Codec.pure (by rintro ⟨⟩; simp; grind)) (fun _ _ => trivial)))
      (fun _ _ => trivial))) (fun _ _ => trivial)
  exact h.weaken (by simp) (fun _ h => h) (fun _ h _ => h) (by simp; grind)

theorem parseTxFields_codec :
    Codec parseTxFields (fun tx => tx.coreBytes ++ tx.tailBytes)
      (fun tx => CoresMatchKind tx.txKind tx.cores) Tx.WellFormed := by
  have h : Codec parseTxFields _ (fun tx => CoresMatchKind tx.txKind tx.cores) _ :=
    Codec.bind (fun tx : Tx => (tx.version, tx.txKind, tx.txNonce)) parseTxPrefix_codec
      (fun pre _ _ =>
    Codec.bind Tx.inputs parseTxInputs_codec (fun _ _ _ =>
    Codec.bind Tx.outputs parseTxOutputs_codec (fun _ _ _ =>
    Codec.bind Tx.locktime readU32Le_codec (fun _ _ _ =>
    -- the last three parsers depend on the kind that was read, which the value remembers
    Codec.weaken
      (e := fun tx : Tx => daCoresBytes tx.txKind tx.cores ++ tx.tailBytes)
      (v := fun tx : Tx => CoresInRange tx.cores ∧ (tx.witness.length ≤ maxWitnessItems ∧
        WitnessesAccepted (encodeCompactSize tx.witness.length).length tx.witness) ∧
        PayloadInRange tx.txKind tx.daPayload.length)
      (Codec.bind Tx.cores (parseDaCore_codec pre.2.1) (fun cores hcores _ =>
        Codec.bind Tx.witness parseWitnesses_codec (fun _ _ _ =>
        Codec.bind Tx.daPayload (parseDaPayload_codec pre.2.1) (fun _ _ _ =>
        Codec.pure (by
          intro tx
          constructor
          · rintro ⟨⟨⟨⟨⟨⟨⟨-, rfl⟩, rfl⟩, rfl⟩, rfl⟩, rfl⟩, rfl⟩, rfl⟩
            rfl
          · rintro rfl
            exact ⟨⟨⟨⟨⟨⟨⟨hcores, rfl⟩, rfl⟩, rfl⟩, rfl⟩, rfl⟩, rfl⟩, rfl⟩)) (fun _ _ => trivial)) (fun _ _ => trivial)) (by
            rintro tx ⟨⟨⟨⟨h, rfl⟩, -⟩, -⟩, -⟩
            exact h))
      (by
        rintro tx ⟨⟨⟨⟨h, rfl⟩, -⟩, -⟩, -⟩
        simp [Tx.tailBytes])
      (fun _ h => h) (fun _ h _ => h)
      (by
        rintro tx ⟨⟨⟨⟨h, rfl⟩, -⟩, -⟩, -⟩
        simp)) (fun _ _ => trivial)) (fun _ _ => trivial)) (fun _ _ => trivial))
      (fun _ _ => trivial)
  refine h.weaken (by simp [Tx.coreBytes]) (fun _ h => h) (fun _ h _ => h) ?_
  intro tx _
  constructor
  · intro h
    exact ⟨⟨h.version, h.kind⟩, ⟨h.inputs, h.scriptSigs⟩, ⟨h.outputs, h.covenantData⟩, trivial,
      h.cores, ⟨h.witnessCount, h.witness⟩, h.payload⟩
  · rintro ⟨⟨h1, h2⟩, ⟨h3, h4⟩, ⟨h5, h6⟩, -, h7, ⟨h8, h9⟩, h10⟩
    exact ⟨h1, h2, h3, h4, h5, h6, h7, h8, h9, h10⟩

variable {tx : Tx} {p : ParsedTx}

theorem coreEnd_off {r r₁ r₂ r₃ r₄ r₅ : Reader}
    (h1 : parseTxPrefix r = .ok ((tx.version, tx.txKind, tx.txNonce), r₁))
    (h2 : parseTxInputs r₁ = .ok (tx.inputs, r₂)) (h3 : parseTxOutputs r₂ = .ok (tx.outputs, r₃))
    (h4 : readU32Le r₃ = .ok (tx.locktime, r₄)) (h5 : parseDaCore tx.txKind r₄ = .ok (tx.cores, r₅))
    :
    r₅.off = r.off + tx.coreBytes.length := by
  obtain ⟨-, -, -, o1⟩ := parseTxPrefix_codec.sound h1
  obtain ⟨-, -, -, o2⟩ := parseTxInputs_codec.sound h2
  obtain ⟨-, -, -, o3⟩ := parseTxOutputs_codec.sound h3
  obtain ⟨-, -, -, o4⟩ := readU32Le_codec.sound h4
  obtain ⟨-, -, -, o5⟩ := (parseDaCore_codec _).sound h5
  simp only [Tx.coreBytes, List.length_append, o5, o4, o3, o2, o1]
  omega

/-- The cursor positions `parse_tx` records: the end of the core and the end of the transaction. -/
theorem parseTxCursor_eq_ok {r r' : Reader} {coreEnd totalEnd : Nat} :
    parseTxCursor r = .ok ((tx, coreEnd, totalEnd), r') ↔
      parseTxFields r = .ok (tx, r') ∧ coreEnd = r.off + tx.coreBytes.length ∧
        totalEnd = r'.off := by
  simp only [parseTxCursor, parseTxFields, Parser.bind_eq_ok, Parser.pure_eq_ok,
    Reader.offset_eq_ok, Prod.mk.injEq]
  constructor
  · rintro ⟨pre, r₁, h1, ins, r₂, h2, outs, r₃, h3, lt, r₄, h4, cores, r₅, h5, _, _, ⟨rfl, rfl⟩,
      wit, r₆, h6, pay, r₇, h7, _, _, ⟨rfl, rfl⟩, ⟨rfl, rfl, rfl⟩, rfl⟩
    exact ⟨⟨pre, r₁, h1, ins, r₂, h2, outs, r₃, h3, lt, r₄, h4, cores, r₅, h5, wit, r₆, h6, pay,
      r₇, h7, rfl, rfl⟩, coreEnd_off h1 h2 h3 h4 h5, rfl⟩
  · rintro ⟨⟨pre, r₁, h1, ins, r₂, h2, outs, r₃, h3, lt, r₄, h4, cores, r₅, h5, wit, r₆, h6, pay,
      r₇, h7, rfl, rfl⟩, hce, rfl⟩
    exact ⟨pre, r₁, h1, ins, r₂, h2, outs, r₃, h3, lt, r₄, h4, cores, r₅, h5, _, _, ⟨rfl, rfl⟩,
      wit, r₆, h6, pay, r₇, h7, _, _, ⟨rfl, rfl⟩,
      ⟨rfl, (coreEnd_off h1 h2 h3 h4 h5).trans hce.symm, rfl⟩, rfl⟩

/-- **What `parse_tx` accepts.**  A parse succeeds exactly on a well-formed transaction's bytes
followed by anything, and then both ids are hashes of that transaction's own bytes. -/
theorem parseTx_eq_ok [Crypto] {b : Bytes} :
    parseTx b = .ok p ↔
      CoresMatchKind p.tx.txKind p.tx.cores ∧ p.tx.WellFormed ∧
      p.txid = sha3_256 p.tx.coreBytes ∧ p.wtxid = sha3_256 (p.tx.coreBytes ++ p.tx.tailBytes) ∧
      p.consumed = (p.tx.coreBytes ++ p.tx.tailBytes).length ∧
      ∃ t, b = p.tx.coreBytes ++ p.tx.tailBytes ++ t := by
  obtain ⟨tx, txid, wtxid, n⟩ := p
  simp only [parseTx, parseTxWithoutHashes, bind_eq_ok, Except.ok.injEq, ParsedTx.mk.injEq]
  constructor
  · rintro ⟨_, ⟨⟨⟨tx, ce, te⟩, r'⟩, h, rfl⟩, rfl, rfl, rfl, rfl⟩
    obtain ⟨hf, rfl, rfl⟩ := parseTxCursor_eq_ok.mp h
    obtain ⟨hd, hv, hrest, hoff⟩ := parseTxFields_codec.sound hf
    simp only [Reader.new, Nat.zero_add] at hrest hoff ⊢
    refine ⟨hd, hv, ?_, ?_, hoff, r'.rest, hrest⟩
    · rw [hrest, List.append_assoc, List.take_left']
      rfl
    · rw [hrest, hoff, List.take_left']
      rfl
  · rintro ⟨hd, hv, rfl, rfl, rfl, t, rfl⟩
    have hf := parseTxFields_codec.complete hd hv t 0
    refine ⟨_, ⟨_, parseTxCursor_eq_ok.mpr ⟨hf, rfl, rfl⟩, rfl⟩, rfl, ?_, ?_, ?_⟩
    · simp [List.append_assoc, Reader.new]
    · simp only [Reader.past, Nat.zero_add]
      rw [List.take_left' rfl]
    · simp [Reader.past]

/-! ## 6. The two directions -/

theorem daCoreFieldsBytes_eq {d : Bytes} (h : daCoreFieldsBytes tx = .ok d) :
    d = daCoresBytes tx.txKind tx.cores := by
  unfold daCoreFieldsBytes at h
  by_cases h0 : tx.txKind = 0x00
  · simp_all [daCoresBytes]
  · by_cases h1 : tx.txKind = 0x01
    · cases hc : tx.daCommitCore <;> simp_all [daCoresBytes, Tx.cores]
    · by_cases h2 : tx.txKind = 0x02
      · cases hc : tx.daChunkCore <;> simp_all [daCoresBytes, Tx.cores]
      · simp_all

theorem daCoreFieldsBytes_of_match (hk : tx.txKind = 0x00 ∨ tx.txKind = 0x01 ∨ tx.txKind = 0x02)
    (hm : CoresMatchKind tx.txKind tx.cores) :
    daCoreFieldsBytes tx = .ok (daCoresBytes tx.txKind tx.cores) := by
  obtain ⟨h1, h2⟩ := hm
  simp only [Tx.cores] at h1 h2
  unfold daCoreFieldsBytes daCoresBytes Tx.cores
  rcases hk with hk | hk | hk
  · simp [hk]
  · obtain ⟨c, hc⟩ := Option.isSome_iff_exists.mp (h1.mpr hk)
    simp [hk, hc]
  · obtain ⟨c, hc⟩ := Option.isSome_iff_exists.mp (h2.mpr hk)
    simp [hk, hc]

theorem marshalTx_eq {m : Bytes} (h : marshalTx tx = .ok m) : m = tx.coreBytes ++ tx.tailBytes := by
  simp only [marshalTx, bind_eq_ok, Except.ok.injEq] at h
  obtain ⟨d, hd, rfl⟩ := h
  rw [daCoreFieldsBytes_eq hd]
  simp [Tx.coreBytes, Tx.tailBytes]

theorem marshalTx_of_match (hw : tx.WellFormed) (hm : CoresMatchKind tx.txKind tx.cores) :
    marshalTx tx = .ok (tx.coreBytes ++ tx.tailBytes) := by
  simp only [marshalTx, daCoreFieldsBytes_of_match hw.kind hm, ok_bind]
  simp [Tx.coreBytes, Tx.tailBytes]

variable [Crypto]

/-- The bytes a parse consumes are the serialization of what it returns. -/
theorem parseTx_marshalTx {b : Bytes} (h : parseTx b = .ok p) :
    p.consumed ≤ b.length ∧ marshalTx p.tx = .ok (b.take p.consumed) := by
  obtain ⟨hm, hw, -, -, hc, t, rfl⟩ := parseTx_eq_ok.mp h
  rw [hc, List.take_left' rfl]
  exact ⟨by simp, marshalTx_of_match hw hm⟩

theorem marshalTx_parseTx {m : Bytes} (hm : marshalTx tx = .ok m)
    (hc : CoresMatchKind tx.txKind tx.cores) (hp : parseTx m = .ok p) (r : Bytes) :
    ∃ q, parseTx (m ++ r) = .ok q ∧ q.tx = tx ∧ q.consumed = m.length := by
  obtain rfl := marshalTx_eq hm
  obtain ⟨hm', hw', -, -, -, t, heq⟩ := parseTx_eq_ok.mp hp
  have htx : p.tx = tx := parseTxFields_codec.inj (t := []) hm' hw' hc (by simpa using heq.symm)
  rw [htx] at hw'
  exact ⟨⟨tx, sha3_256 tx.coreBytes, sha3_256 (tx.coreBytes ++ tx.tailBytes),
    (tx.coreBytes ++ tx.tailBytes).length⟩,
    parseTx_eq_ok.mpr ⟨hc, hw', rfl, rfl, rfl, r, rfl⟩, rfl, rfl⟩

/-- **The wire format is canonical in both directions**, for transactions that carry the DA core
of their kind and no other: every parsed transaction does. -/
theorem wire_format_canonical :
    (∀ (b : Bytes) (p : ParsedTx), parseTx b = .ok p →
      p.consumed ≤ b.length ∧ marshalTx p.tx = .ok (b.take p.consumed)) ∧
    (∀ (tx : Tx) (m : Bytes), marshalTx tx = .ok m → CoresMatchKind tx.txKind tx.cores →
      (∃ p, parseTx m = .ok p) →
      ∀ r : Bytes, ∃ q, parseTx (m ++ r) = .ok q ∧ q.tx = tx ∧ q.consumed = m.length) ∧
    (∀ (b b' : Bytes) (p p' : ParsedTx), parseTx b = .ok p → parseTx b' = .ok p' →
      (b.take p.consumed = b'.take p'.consumed ↔ p.tx = p'.tx)) := by
  refine ⟨fun b p h => parseTx_marshalTx h,
    fun tx m hm hc ⟨p, hp⟩ r => marshalTx_parseTx hm hc hp r, fun b b' p p' h h' => ?_⟩
  have hb := (parseTx_marshalTx h).2
  have hb' := (parseTx_marshalTx h').2
  constructor
  · intro heq
    obtain ⟨hm, hw, -, -, hc, t, rfl⟩ := parseTx_eq_ok.mp h
    obtain ⟨hm', hw', -, -, hc', t', rfl⟩ := parseTx_eq_ok.mp h'
    rw [hc, hc', List.take_left' rfl, List.take_left' rfl] at heq
    exact parseTxFields_codec.inj (t := []) (u := []) hm hw hm' (by simpa using heq)
  · intro heq
    rw [heq, hb'] at hb
    exact (Except.ok.inj hb).symm

omit [Crypto] in
/-- A transaction of 21 bytes, read back in front of three stray bytes. -/
theorem wire_format_canonical_minimal :
    letI : Crypto := Crypto.sha3With fun _ _ _ => .ok true
    let tx : Tx := ⟨1, 0, 7, [], [], 9, none, none, [], []⟩
    let m : Bytes := [1, 0, 0, 0, 0, 7, 0, 0, 0, 0, 0, 0, 0, 0, 0, 9, 0, 0, 0, 0, 0]
    (∃ p, parseTx m = .ok p ∧ p.tx = tx) ∧ marshalTx tx = .ok m ∧
      ∃ q, parseTx (m ++ [1, 2, 3]) = .ok q ∧ q.tx = tx ∧ q.consumed = 21 := by
  let _ : Crypto := Crypto.sha3With fun _ _ _ => .ok true
  have hm : marshalTx ⟨1, 0, 7, [], [], 9, none, none, [], []⟩ = .ok
      [1, 0, 0, 0, 0, 7, 0, 0, 0, 0, 0, 0, 0, 0, 0, 9, 0, 0, 0, 0, 0] := by decide
  have hp : ∃ p, parseTx [1, 0, 0, 0, 0, 7, 0, 0, 0, 0, 0, 0, 0, 0, 0, 9, 0, 0, 0, 0, 0] = .ok p ∧
      p.tx = ⟨1, 0, 7, [], [], 9, none, none, [], []⟩ := ⟨_, rfl, rfl⟩
  exact ⟨hp, hm, wire_format_canonical.2.1 _ _ hm (by simp [CoresMatchKind, Tx.cores])
    (hp.imp fun _ h => h.1) [1, 2, 3]⟩

/-- A standard transaction with a chunk core that its kind does not call for. -/
def strayCoreTx : Tx :=
  ⟨1, 0, 7, [], [], 9, none, some ⟨zero32, 0, zero32⟩, [], []⟩

omit [Crypto] in
/-- **A stray core is not read back.**  The serializer drops it, the bytes are accepted, and the
transaction that comes back is another one. -/
theorem stray_core_not_read_back :
    letI : Crypto := Crypto.sha3With fun _ _ _ => .ok true
    ∃ m, marshalTx strayCoreTx = .ok m ∧ (∃ p, parseTx m = .ok p) ∧
      ∀ p, parseTx m = .ok p → p.tx ≠ strayCoreTx := by
  let _ : Crypto := Crypto.sha3With fun _ _ _ => .ok true
  refine ⟨[1, 0, 0, 0, 0, 7, 0, 0, 0, 0, 0, 0, 0, 0, 0, 9, 0, 0, 0, 0, 0], by decide,
    ⟨_, rfl⟩, ?_⟩
  intro p hp htx
  have hm := (parseTx_eq_ok.mp hp).1
  rw [htx] at hm
  exact absurd hm (by simp [CoresMatchKind, Tx.cores, strayCoreTx])

end Rubin.Consensus
