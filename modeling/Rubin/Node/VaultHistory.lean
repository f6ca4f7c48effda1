/-
# Vaults over a history

From a set without vaults, whatever blocks are accepted, every vault in the set was created by a
transaction that the creation rules let through: its whitelist is canonical, and its owner lock id
is the lock id of a P2PK or multisig output that the history has seen.  So a vault that has its own
lock id for owner would be a collision of the hash, between two descriptors of the history
(`knownDescriptors`).  Without one, a transaction that spends a vault also spends an output of the
owner (`vaults_confined`).
-/
import Rubin.Consensus.SighashBinding
import Rubin.Consensus.Vault
import Rubin.Node.SpendOnce

namespace Rubin.Node

open Rubin.Lib Rubin.Consensus

/-! ## 1. Vaults are created by their owners -/

section history

variable [Crypto]

/-- Every vault that the step creates is canonical and has its owner in `utxos`. -/
def TxStep.VaultsOwned (utxos : UtxoSet) (step : TxStep) : Prop :=
  ∀ p ∈ step.change.creates, p.2.covenantType = covTypeVault →
    ∃ v, parseVaultCovenantData p.2.covenantData = .ok v ∧
      ∃ op owner, utxos.lookup op = some owner ∧ owner.lockId = v.ownerLockId ∧ owner.CanOwn

omit [Crypto] in
theorem mem_outputs_of_created {txid : Bytes32} {height : Nat} {cb : Bool}
    {outputs : List TxOutput} {p : Outpoint × UtxoEntry}
    (h : p ∈ createdOutputs txid height cb outputs) :
    ∃ out ∈ outputs, p.2 = out.toEntry height cb := by
  obtain ⟨q, hq, rfl⟩ := List.mem_map.mp h
  exact ⟨q.1, (List.mem_zipIdx (List.mem_filter.mp hq).1).2.2 ▸ List.getElem_mem _, rfl⟩

omit [Crypto] in
theorem coinbase_no_vault {pb : ParsedBlock} {utxos work : UtxoSet} {height : Nat}
    {rotation : Option RotationProvider} {coinbase : Tx}
    (h : applyCoinbaseOutputs pb utxos height rotation = .ok work)
    (hcb : pb.txs.head? = some coinbase) : ∀ out ∈ coinbase.outputs, out.covenantType ≠ covTypeVault := by
  simp only [applyCoinbaseOutputs, coinbaseAndTxid, bind_eq_ok, exists_unit, okOr_eq_ok,
    Except.ok.injEq] at h
  obtain ⟨_, ⟨cb, hcb', txid, -, rfl⟩, acc, hrun, -, -⟩ := h
  cases Option.some.inj (hcb.symm.trans hcb')
  have hall : ∀ p ∈ coinbase.outputs.zipIdx, p.1.covenantType ≠ covTypeVault := by
    refine foldlM_from_start
      (fun done (_ : UtxoSet × List Bytes32) => ∀ p ∈ done, p.1.covenantType ≠ covTypeVault)
      (List.forall_mem_nil _) ?_ hrun
    intro done p acc acc' hdone hp q hq
    simp only [applyCoinbaseOutput, bind_eq_ok, exists_unit, rejectIf_eq_ok] at hp
    rcases List.mem_append.mp hq with hq | hq
    · exact hdone q hq
    · rw [List.mem_singleton.mp hq]
      exact hp.1
  intro out hout
  obtain ⟨i, hi⟩ := List.mem_iff_getElem?.mp hout
  exact hall (out, i) (List.mk_mem_zipIdx_iff_getElem?.mpr hi)

theorem vaultsOwned_stepRule : StepRule TxStep.VaultsOwned where
  coinbase := by
    intro pb utxos work height rotation coinbase txid h hcb p hp hvault
    obtain ⟨out, hout, heq⟩ := mem_outputs_of_created hp
    rw [heq] at hvault
    exact absurd hvault (coinbase_no_vault h hcb out hout)
  applied := by
    intro tx ctx s s' res k h p hp hvault
    obtain ⟨out, hout, heq⟩ := mem_outputs_of_created hp
    rw [heq] at hvault ⊢
    obtain ⟨v, hv, input, -, owner, hlook, hlock, hown⟩ := created_vault_owned h hout hvault
    exact ⟨v, hv, input.outpoint, owner, hlook, hlock, hown⟩

/-! ## 2. What a history has seen -/

omit [Crypto] in
/-- The entry was there at the start, or a step has made it. -/
def KnownEntry (initial : UtxoSet) (steps : List TxStep) (entry : UtxoEntry) : Prop :=
  (∃ op, initial.lookup op = some entry) ∨ ∃ op, (op, entry) ∈ putIn TxStep.change steps

/-- The descriptors that are hashed to lock ids. -/
def knownDescriptors (initial : UtxoSet) (steps : List TxStep) : Set Bytes :=
  { d | ∃ entry, KnownEntry initial steps entry ∧
      d = outputDescriptorBytes entry.covenantType entry.covenantData }

/-- The entry is known and, if it is a vault, canonical with a known owner. -/
structure SoundEntry (initial : UtxoSet) (steps : List TxStep) (entry : UtxoEntry) : Prop where
  known : KnownEntry initial steps entry
  vault : entry.covenantType = covTypeVault →
    ∃ v, parseVaultCovenantData entry.covenantData = .ok v ∧
      ∃ owner, KnownEntry initial steps owner ∧ owner.lockId = v.ownerLockId ∧ owner.CanOwn

/-- **Every vault of a history is canonical and owned.** -/
theorem connects_sound {state state' : InMemoryChainState}
    {blocks : List (Bytes × ConnectBlockContext)} (h : Connects state blocks state')
    (hno : ∀ op entry, state.utxos.lookup op = some entry → entry.covenantType ≠ covTypeVault) :
    ∀ op entry, state'.utxos.lookup op = some entry →
      SoundEntry state.utxos (runSteps blocks) entry := by
  obtain ⟨howned, hafter⟩ := connects_steps vaultsOwned_stepRule h
  rw [hafter]
  refine forall_lookup_after ?_ ?_
  · intro op entry hlook
    exact ⟨.inl ⟨op, hlook⟩, fun hvault => absurd hvault (hno op entry hlook)⟩
  · intro pre step post hsplit hbefore p hp
    refine ⟨.inr ⟨p.1, ?_⟩, ?_⟩
    · rw [hsplit]
      exact List.mem_flatMap.mpr ⟨step, List.mem_append_right _ List.mem_cons_self, hp⟩
    · intro hvault
      obtain ⟨v, hv, op, owner, hlook, hlock, hown⟩ := howned pre step post hsplit p hp hvault
      exact ⟨v, hv, owner, (hbefore op owner hlook).known, hlock, hown⟩

/-! ## 3. Confinement -/

omit [Crypto] in
theorem descriptor_type_inj {t t' : UInt16} {data data' : Bytes}
    (h : outputDescriptorBytes t data = outputDescriptorBytes t' data') : t = t' := by
  rw [outputDescriptorBytes, outputDescriptorBytes, List.append_assoc, List.append_assoc] at h
  have hlen : (u16LeBytes t).length = (u16LeBytes t').length := by simp [u16LeBytes]
  exact u16LeBytes_injective (List.append_inj_left h hlen)

omit [Crypto] in
theorem eq_of_countP_one {α : Type} {p : α → Bool} {l : List α} {a b : α} (h : l.countP p = 1)
    (ha : a ∈ l) (hb : b ∈ l) (hpa : p a = true) (hpb : p b = true) : a = b := by
  rw [List.countP_eq_length_filter, List.length_eq_one_iff] at h
  obtain ⟨c, hc⟩ := h
  have hmem : ∀ x ∈ l, p x = true → x = c := by
    intro x hx hpx
    have hf : x ∈ l.filter p := List.mem_filter.mpr ⟨hx, hpx⟩
    rwa [hc, List.mem_singleton] at hf
  rw [hmem a ha hpa, hmem b hb hpb]

theorem SoundEntry.lockId_ne {initial : UtxoSet} {steps : List TxStep} {entry : UtxoEntry}
    (hsha : Set.InjOn sha3_256 (knownDescriptors initial steps))
    (h : SoundEntry initial steps entry) (hvault : entry.covenantType = covTypeVault)
    {v : VaultCovenant} (hv : parseVaultCovenantData entry.covenantData = .ok v) :
    entry.lockId ≠ v.ownerLockId := by
  intro heq
  obtain ⟨w, hw, owner, hknown, hlock, hown⟩ := h.vault hvault
  cases Except.ok.inj (hv.symm.trans hw)
  have hdesc := hsha ⟨entry, h.known, rfl⟩ ⟨owner, hknown, rfl⟩ (heq.trans hlock.symm)
  have htype : entry.covenantType = owner.covenantType := descriptor_type_inj hdesc
  rw [hvault] at htype
  rcases hown with hown | hown
  · rw [hown] at htype
    exact absurd htype (by decide)
  · rw [hown] at htype
    exact absurd htype (by decide)

/-- **Vault confinement over any history.**  Every vault has a canonical covenant; and a transaction
that spends one is confined to the owner's other inputs, of which there is one, and to the
destinations of the whitelist. -/
theorem vaults_confined {state state' : InMemoryChainState}
    {blocks : List (Bytes × ConnectBlockContext)} (hrun : Connects state blocks state')
    (hno : ∀ op entry, state.utxos.lookup op = some entry → entry.covenantType ≠ covTypeVault)
    (hsha : Set.InjOn sha3_256 (knownDescriptors state.utxos (runSteps blocks))) :
    (∀ op entry, state'.utxos.lookup op = some entry → entry.covenantType = covTypeVault →
      ∃ v, parseVaultCovenantData entry.covenantData = .ok v ∧ v.Canonical) ∧
    ∀ (tx : Tx) (ctx : UtxoApplyContext) (s s' : SpendState tx)
      (res : UtxoSet × UtxoApplySummary), ctx.utxoSet = state'.utxos →
      applyNonCoinbaseTxImpl tx ctx s = .ok (res, s') →
      ∀ vin ∈ tx.inputs, ∀ entry, state'.utxos.lookup vin.outpoint = some entry →
        entry.covenantType = covTypeVault →
        ∃ v, parseVaultCovenantDataForSpend entry.covenantData = .ok v ∧ v.Canonical ∧
          VaultConfined state'.utxos tx entry.value v ∧
          ∃ input ∈ tx.inputs, input.spendsVault state'.utxos = false := by
  have hsound := connects_sound hrun hno
  refine ⟨?_, ?_⟩
  · intro op entry hlook hvault
    obtain ⟨v, hv, -⟩ := (hsound op entry hlook).vault hvault
    exact ⟨v, hv, (parseVaultCovenantData_ok hv).2⟩
  · intro tx ctx s s' res hset happly vin hin entry hlook hvault
    rw [← hset] at hlook
    obtain ⟨v, hv, hconf, input, hinput, owner, howner, hlock⟩ :=
      spent_vault_confined happly hin hlook hvault
    rw [hset] at hlook hconf howner
    have hentry := hsound _ _ hlook
    obtain ⟨w, hw, -⟩ := hentry.vault hvault
    obtain ⟨hspend, hcanon⟩ := parseVaultCovenantData_ok hw
    cases Except.ok.inj (hv.symm.trans hspend)
    refine ⟨v, hv, hcanon, hconf, input, hinput, ?_⟩
    -- an owner input that is a vault would be the one vault, with its owner's lock id
    rw [TxInput.spendsVault, howner, Option.any_some, beq_eq_false_iff_ne]
    intro howns
    have hsame : owner = entry := by
      have hone := hconf.one
      have h1 : input.spendsVault state'.utxos = true := by
        rw [TxInput.spendsVault, howner, Option.any_some, beq_iff_eq]
        exact howns
      have h2 : vin.spendsVault state'.utxos = true := by
        rw [TxInput.spendsVault, hlook, Option.any_some, beq_iff_eq]
        exact hvault
      have heq : input = vin := eq_of_countP_one hone hinput hin h1 h2
      rw [heq, hlook] at howner
      exact (Option.some.inj howner).symm
    rw [hsame] at hlock
    exact hentry.lockId_ne hsha hvault hw hlock

end history

/-! ## 4. A vault that is made and spent -/

theorem injOn_knownDescriptors [Crypto] {initial : UtxoSet} {steps : List TxStep}
    {ds : List Bytes}
    (hinit : ∀ op entry, initial.lookup op = some entry →
      outputDescriptorBytes entry.covenantType entry.covenantData ∈ ds)
    (hput : (putIn TxStep.change steps).map (fun p =>
      outputDescriptorBytes p.2.covenantType p.2.covenantData) = ds)
    (hinj : ∀ d ∈ ds, ∀ d' ∈ ds, sha3_256 d = sha3_256 d' → d = d') :
    Set.InjOn sha3_256 (knownDescriptors initial steps) := by
  have hknown : ∀ d ∈ knownDescriptors initial steps, d ∈ ds := by
    rintro d ⟨entry, ⟨op, hop⟩ | ⟨op, hop⟩, rfl⟩
    · exact hinit op entry hop
    · rw [← hput]
      exact List.mem_map_of_mem hop
  intro d hd d' hd' heq
  exact hinj d (hknown d hd) d' (hknown d' hd') heq

section sample

attribute [local instance] firstBytesCrypto

def vaultState : InMemoryChainState :=
  { utxos := Finmap.singleton ⟨zero32, 0⟩ zeroKeyEntry, alreadyGenerated := 0 }

/-- The one destination of the vault. -/
def destinationData : Bytes := 1 :: List.replicate 32 7

/-- Owned by the zero key, one signing key, one destination. -/
def vaultData : Bytes :=
  zeroKeyEntry.lockId.toList ++ [1, 1] ++ zero32.toList ++ [1, 0] ++
    (sha3_256 (outputDescriptorBytes covTypeP2pk destinationData)).toList

/-- 60 of the 100 go into a vault, 40 stay with its owner. -/
def vaultBlock : Bytes :=
  zeroKeyBlock
    [1, 0, 1, 0, 0, 0, 0, 0, 0, 0, 0, 0, 0, 0, 0, 1,
     0, 0, 0, 0, 0, 0, 0, 0, 0, 0, 0, 0, 0, 0, 0, 0]
    [82, 85, 66, 73, 78, 45, 87, 73, 84, 78, 69, 83, 83, 47, 3, 2,
     0, 0, 0, 0, 0, 0, 0, 0, 0, 0, 0, 0, 0, 0, 0, 0]
    2 (zeroKeyTx 2 zero32 2
      (u64LeBytes 60 ++ u16LeBytes covTypeVault ++ [100] ++ vaultData ++ zeroKeyOutput 40))

/-- The vault and the owner's change go to the destination. -/
def vaultSpendTx : Tx :=
  let item : WitnessItem := ⟨1, List.replicate 2592 0, List.replicate 4627 0 ++ [1]⟩
  { version := 1, txKind := 0, txNonce := 3
    inputs := [⟨secondTxid, 0, [], 0⟩, ⟨secondTxid, 1, [], 0⟩]
    outputs := [⟨70, covTypeP2pk, destinationData⟩], locktime := 0, daCommitCore := none
    daChunkCore := none, witness := [item, item], daPayload := [] }

def vaultSpendContext (utxos : UtxoSet) : UtxoApplyContext :=
  { txid := zero32, utxoSet := utxos, height := 2, blockMtp := 0, chainId := zero32
    rotation := none, registry := none }

theorem vaultBlock_accepted :
    (match connectBlockBasicInMemory vaultBlock mintContext vaultState with
    | .ok _ state' =>
      (applyNonCoinbaseTx vaultSpendTx (vaultSpendContext state'.utxos)).isOk &&
        (state'.utxos.lookup ⟨secondTxid, 0⟩).any fun entry => entry.covenantType == covTypeVault
    | .error _ _ => false) = true := by
  decide +kernel

theorem vaultBlock_descriptors :
    (putIn TxStep.change (runSteps [(vaultBlock, mintContext)])).map (fun p =>
        outputDescriptorBytes p.2.covenantType p.2.covenantData) =
      [outputDescriptorBytes covTypeVault vaultData,
        outputDescriptorBytes covTypeP2pk (1 :: zero32.toList)] := by
  decide +kernel

theorem vaultState_entry {op : Outpoint} {entry : UtxoEntry}
    (h : vaultState.utxos.lookup op = some entry) : entry = zeroKeyEntry := by
  have hop : op = ⟨zero32, 0⟩ := (Finmap.mem_singleton _ _ _).mp (Finmap.mem_of_lookup_eq_some h)
  rw [hop, vaultState, Finmap.lookup_singleton_eq] at h
  exact (Option.some.inj h).symm

theorem vaultBlock_injOn :
    Set.InjOn sha3_256 (knownDescriptors vaultState.utxos
      (runSteps [(vaultBlock, mintContext)])) := by
  refine injOn_knownDescriptors ?_ vaultBlock_descriptors (by decide +kernel)
  intro op entry hlook
  rw [vaultState_entry hlook]
  exact List.mem_cons_of_mem _ List.mem_cons_self

theorem vaults_confined_vaultBlock :
    ∃ state' entry v, Connects vaultState [(vaultBlock, mintContext)] state' ∧
      state'.utxos.lookup ⟨secondTxid, 0⟩ = some entry ∧ entry.covenantType = covTypeVault ∧
      parseVaultCovenantDataForSpend entry.covenantData = .ok v ∧ v.Canonical ∧
      VaultConfined state'.utxos vaultSpendTx entry.value v ∧
      ∃ input ∈ vaultSpendTx.inputs, input.spendsVault state'.utxos = false := by
  have hok := vaultBlock_accepted
  cases hblock : connectBlockBasicInMemory vaultBlock mintContext vaultState with
  | error e state' =>
    rw [hblock] at hok
    cases hok
  | ok summary state' =>
    rw [hblock, Bool.and_eq_true] at hok
    obtain ⟨res, hres⟩ := exists_ok_of_isOk hok.1
    obtain ⟨s', happly⟩ := applyNonCoinbaseTx_ok hres
    obtain ⟨entry, hlook, hvault⟩ := (Option.any_eq_true _ _).mp hok.2
    have hrun : Connects vaultState [(vaultBlock, mintContext)] state' :=
      .cons hblock (.nil state')
    have hno : ∀ op entry, vaultState.utxos.lookup op = some entry →
        entry.covenantType ≠ covTypeVault := by
      intro op entry h
      rw [vaultState_entry h]
      decide
    obtain ⟨v, hv, hcanon, hconf, hother⟩ := (vaults_confined hrun hno vaultBlock_injOn).2
      vaultSpendTx (vaultSpendContext state'.utxos) _ s' res rfl happly
      ⟨secondTxid, 0, [], 0⟩ List.mem_cons_self entry hlook (beq_iff_eq.mp hvault)
    exact ⟨state', entry, v, hrun, hlook, beq_iff_eq.mp hvault, hv, hcanon, hconf, hother⟩

end sample

end Rubin.Node
