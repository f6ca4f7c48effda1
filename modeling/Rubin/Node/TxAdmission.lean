/-
# Relay and admission classify alike

`relay_metadata` and `add_tx_with_source` run the same checks in different orders, and admission
runs one more: the fast fee precheck, an independent re-implementation of a part of consensus.

The precheck recognises a plain one-input payment between `CORE_P2PK` outputs.  Consensus accepts
every such payment whose signature verifies, with the fee the precheck computed, and policy lets it
pass; so the precheck's verdict is the one the relay path reaches, with the same text.
-/
import Rubin.Node.TxPoolInv

namespace Rubin.Node

open Rubin.Lib Rubin.Consensus

section alike

variable [Crypto]

/-! ## 1. What the precheck recognises -/

/-- The one input of a plain payment, its entry, its witness item. -/
structure PlainInput (tx : Tx) (utxos : UtxoSet) (nextHeight : Nat)
    (rotation : Option RotationProvider) (registry : Option SuiteRegistry) (input : TxInput)
    (w : WitnessItem) (entry : UtxoEntry) (trailer : UInt8) : Prop where
  inputs : tx.inputs = [input]
  witness : tx.witness = [w]
  encoding : validateNonCoinbaseInputEncoding input = .ok ()
  lookup : utxos.lookup input.outpoint = some entry
  p2pk : entry.covenantType = covTypeP2pk
  available : validateInputAvailability entry nextHeight = .ok ()
  suite : ∃ params, spendSuiteParams w
      ((rotation.getD DefaultRotationProvider).nativeSpendSuites nextHeight)
      (registry.getD SuiteRegistry.defaultRegistry)
      "CORE_P2PK suite not in native spend set" "CORE_P2PK suite not registered" = .ok params ∧
    validateWitnessItemLengths w params = .ok ()
  keyId : p2pkCovenantKeyId entry w.suiteId = .ok (sha3_256 w.pubkey)
  trailer : extractCryptoSigAndSighash w = .ok (w.signature.dropLast, trailer)

omit [Crypto] in
theorem guard_eq_some {p : Prop} [Decidable p] {u : Unit} : (guard p : Option Unit) = some u ↔ p := by
  by_cases h : p <;> simp [guard, h]

omit [Crypto] in
theorem soleInputAndWitness_eq_some {tx : Tx} {p : TxInput × WitnessItem}
    (h : soleInputAndWitness tx = some p) : tx.inputs = [p.1] ∧ tx.witness = [p.2] := by
  unfold soleInputAndWitness at h
  split at h
  · rename_i hin hw
    cases h
    exact ⟨hin, hw⟩
  · cases h

omit [Crypto] in
/-- The cached default set is the set of the default provider at every height. -/
theorem precheckSpendSuites_eq (rotation : Option RotationProvider) (nextHeight : Nat) :
    precheckSpendSuites rotation nextHeight =
      (rotation.getD DefaultRotationProvider).nativeSpendSuites nextHeight := by
  cases rotation <;> rfl

omit [Crypto] in
theorem precheckCreateSuites_eq (rotation : Option RotationProvider) (nextHeight : Nat) :
    precheckCreateSuites rotation nextHeight =
      (rotation.getD DefaultRotationProvider).nativeCreateSuites nextHeight := by
  cases rotation <;> rfl

variable {utxos : UtxoSet} {nextHeight : Nat} {rotation : Option RotationProvider}
  {registry : Option SuiteRegistry} {e : TxPoolAdmitError}

theorem plainInput_of_precheck {tx : Tx} {value : UInt64}
    (h : feePrecheckP2pkInputValue tx utxos nextHeight rotation registry = some value) :
    ∃ input w entry trailer, PlainInput tx utxos nextHeight rotation registry input w entry trailer ∧
      entry.value = value := by
  simp only [feePrecheckP2pkInputValue, Option.bind_eq_bind, Option.bind_eq_some_iff, guard_eq_some,
    exists_unit, Option.some.injEq] at h
  obtain ⟨p, hsole, hprevout, hscript, hsequence, entry, hlookup, hp2pk, hmature, hspend, params,
    hparams, hlengths, hlen, hsuite, trailer, htrailer, hvalid, hkey, hvalue⟩ := h
  obtain ⟨hinputs, hwitness⟩ := soleInputAndWitness_eq_some hsole
  refine ⟨p.1, p.2, entry, trailer, ?_, hvalue⟩
  constructor
  · exact hinputs
  · exact hwitness
  · simp only [validateNonCoinbaseInputEncoding, check_bind_eq_ok, rejectIf_eq_ok, not_not]
    exact ⟨fun hc => hprevout ⟨hc.2, hc.1⟩, hscript, hsequence⟩
  · exact hlookup
  · exact hp2pk
  · simp only [validateInputAvailability, check_bind_eq_ok, rejectIf_eq_ok]
    refine ⟨?_, hmature⟩
    rw [hp2pk]
    decide
  · refine ⟨params, ?_, ?_⟩
    · rw [precheckSpendSuites_eq] at hspend
      simp [spendSuiteParams, hspend, hparams]
    · simp only [validateWitnessItemLengths, rejectIf_eq_ok, not_not]
      exact hlengths
  · simp only [p2pkCovenantKeyId, check_bind_eq_ok, rejectIf_eq_ok, not_or, not_not,
      Except.ok.injEq]
    exact ⟨⟨hlen, hsuite⟩, hkey.symm⟩
  · simp [extractCryptoSigAndSighash, htrailer, hvalid]

/-- The outputs of a plain payment. -/
structure PlainOutputs (outputs : List TxOutput) (nextHeight : Nat)
    (rotation : Option RotationProvider) : Prop where
  p2pk : ∀ out ∈ outputs, out.covenantType = covTypeP2pk
  valid : ∀ out ∈ outputs,
    validateP2pkOutput out nextHeight (rotation.getD DefaultRotationProvider) = .ok ()

omit [Crypto] in
theorem feePrecheckOutput_eq_some {nativeSuites : NativeSuiteSet} {total total' : Nat}
    {out : TxOutput} (h : feePrecheckOutput nativeSuites total out = some total') :
    out.covenantType = covTypeP2pk ∧ out.value ≠ 0 ∧
      out.covenantData.length = maxP2pkCovenantData ∧
      nativeSuites.contains (out.covenantData.getD 0 0) = true ∧
      total' = total + out.value.toNat ∧ total' < 2 ^ 64 := by
  simp only [feePrecheckOutput, Option.bind_eq_bind, Option.bind_eq_some_iff, guard_eq_some,
    exists_unit, Option.some.injEq] at h
  obtain ⟨htype, hvalue, hlen, hsuite, hsum, rfl⟩ := h
  exact ⟨htype, hvalue, hlen, hsuite, rfl, hsum⟩

omit [Crypto] in
theorem plainOutputs_of_precheck {outputs : List TxOutput} {value : Nat}
    (h : feePrecheckP2pkOutputValue outputs nextHeight rotation = some value) :
    PlainOutputs outputs nextHeight rotation ∧ value = valueSum outputs := by
  -- the running sum of a prefix, from any start
  suffices hrun : ∀ (outputs : List TxOutput) (total : Nat),
      outputs.foldlM (feePrecheckOutput (precheckCreateSuites rotation nextHeight)) total =
        some value → PlainOutputs outputs nextHeight rotation ∧ value = total + valueSum outputs by
    have hall := hrun outputs 0 h
    rwa [Nat.zero_add] at hall
  intro outputs
  induction outputs with
  | nil =>
    intro total hnil
    cases hnil
    exact ⟨⟨fun _ ho => (nomatch ho), fun _ ho => (nomatch ho)⟩, rfl⟩
  | cons out outputs ih =>
    intro total hcons
    rw [List.foldlM_cons, Option.bind_eq_bind, Option.bind_eq_some_iff] at hcons
    obtain ⟨total', hstep, hrest⟩ := hcons
    obtain ⟨htype, hvalue, hlen, hsuite, rfl, -⟩ := feePrecheckOutput_eq_some hstep
    obtain ⟨hplain, hsum⟩ := ih _ hrest
    rw [precheckCreateSuites_eq] at hsuite
    refine ⟨⟨?_, ?_⟩, ?_⟩
    · exact List.forall_mem_cons.mpr ⟨htype, hplain.p2pk⟩
    · refine List.forall_mem_cons.mpr ⟨?_, hplain.valid⟩
      simp only [validateP2pkOutput, check_bind_eq_ok, rejectIf_eq_ok, not_not]
      exact ⟨hvalue, hlen, by rw [hsuite]; exact Bool.noConfusion⟩
    · rw [hsum, valueSum, valueSum, List.map_cons, List.sum_cons, Nat.add_assoc]

/-- A payment the precheck classifies. -/
structure PlainPayment (tx : Tx) (utxos : UtxoSet) (nextHeight : Nat)
    (rotation : Option RotationProvider) (registry : Option SuiteRegistry) (input : TxInput)
    (w : WitnessItem) (entry : UtxoEntry) (trailer : UInt8) : Prop where
  kind : tx.txKind = 0x00
  nonce : tx.txNonce ≠ 0
  spend : PlainInput tx utxos nextHeight rotation registry input w entry trailer
  outputs : PlainOutputs tx.outputs nextHeight rotation
  covered : valueSum tx.outputs ≤ entry.value.toNat

theorem plainPayment_of_precheck {tx : Tx} {values : Nat × Nat}
    (h : feePrecheckValues tx utxos nextHeight rotation registry = some values) :
    ∃ input w entry trailer, PlainPayment tx utxos nextHeight rotation registry input w entry trailer ∧
      values = (entry.value.toNat, valueSum tx.outputs) := by
  simp only [feePrecheckValues, Option.bind_eq_bind, Option.bind_eq_some_iff, guard_eq_some,
    exists_unit, not_or, not_not, Option.some.injEq] at h
  obtain ⟨⟨hkind, -, hnonce⟩, value, hinput, sum, houtputs, hle, rfl⟩ := h
  obtain ⟨input, w, entry, trailer, hspend, rfl⟩ := plainInput_of_precheck hinput
  obtain ⟨hout, rfl⟩ := plainOutputs_of_precheck houtputs
  exact ⟨input, w, entry, trailer, ⟨hkind, hnonce, hspend, hout, hle⟩, rfl⟩

theorem cheapFeeFloorPrecheck_error {tx : Tx} {weight : Nat} {rate : UInt64}
    (h : cheapFeeFloorPrecheck tx utxos weight rate nextHeight rotation registry = .error e) :
    ∃ input w entry trailer, PlainPayment tx utxos nextHeight rotation registry input w entry trailer ∧
      validateFeeFloor (entry.value.toNat - valueSum tx.outputs) weight rate = .error e := by
  unfold cheapFeeFloorPrecheck at h
  split at h
  · cases h
  · rename_i values hvalues
    obtain ⟨input, w, entry, trailer, hplain, rfl⟩ := plainPayment_of_precheck hvalues
    split at h
    · cases h
    · exact ⟨input, w, entry, trailer, hplain, h⟩

/-! ## 2. Consensus accepts a plain payment -/

/-- The signature the oracle is asked about: the one of the only input. -/
def SoleSignatureAccepted (tx : Tx) (utxos : UtxoSet) (chainId : Bytes32)
    (registry : Option SuiteRegistry) : Prop :=
  ∃ input w entry trailer digest, tx.inputs = [input] ∧ tx.witness = [w] ∧
    utxos.lookup input.outpoint = some entry ∧ w.signature.getLast? = some trailer ∧
    sighashV1DigestWithType tx 0 entry.value chainId trailer = .ok digest ∧
    verifySigWithRegistry w.suiteId w.pubkey w.signature.dropLast digest
      (some (registry.getD SuiteRegistry.defaultRegistry)) = .ok true

section accept

variable {tx : Tx} {ctx : UtxoApplyContext} {input : TxInput} {w : WitnessItem} {entry : UtxoEntry}
  {trailer : UInt8}

omit [Crypto] in
theorem PlainOutputs.genesis {outputs : List TxOutput} {height : Nat}
    (h : PlainOutputs outputs height rotation) (houtputs : tx.outputs = outputs) :
    validateTxCovenantsGenesis tx height rotation = .ok () := by
  have hall : ∀ out ∈ tx.outputs, validateGenesisOutput out tx.txKind height
      (rotation.getD DefaultRotationProvider) = .ok ((fun _ => none) out) := by
    intro out hout
    rw [houtputs] at hout
    rw [validateGenesisOutput, if_pos (h.p2pk out hout), h.valid out hout]
    rfl
  have hnone : (tx.outputs.map fun _ => (none : Option Bytes32)).filterMap id = [] := by
    rw [List.filterMap_eq_nil_iff]
    intro o ho
    obtain ⟨_, -, rfl⟩ := List.mem_map.mp ho
    rfl
  simp only [validateTxCovenantsGenesis, mapM_eq_ok hall, ok_bind, hnone]
  rfl

/-- The resolution of the only input. -/
def soleResolved (entry : UtxoEntry) (input : TxInput) : ResolvedInput :=
  ⟨entry, 0, 1, input.outpoint⟩

theorem PlainInput.resolve
    (h : PlainInput tx ctx.utxoSet ctx.height ctx.rotation ctx.registry input w entry trailer) :
    ∃ seen, resolveInputs tx ctx = .ok ⟨0, 1, seen, [soleResolved entry input]⟩ := by
  have hcovenant : validateInputCovenant 0 entry = .ok 0 := by
    rw [validateInputCovenant, h.p2pk]
    rfl
  have hslots : witnessSlots entry.covenantType entry.covenantData = .ok 1 := by
    rw [h.p2pk]
    rfl
  have hrecord : recordResolvedInput tx 0 entry input.outpoint =
      .ok (soleResolved entry input) := by
    simp [recordResolvedInput, hslots, h.witness, soleResolved]
  have hone : resolveInput tx ctx ⟨0, 0, [], []⟩ input =
      .ok ⟨0, 1, [input.outpoint], [soleResolved entry input]⟩ := by
    simp [resolveInput, h.encoding, h.lookup, h.available, hcovenant, hrecord, okOr, soleResolved,
      rejectIf]
  refine ⟨[input.outpoint], ?_⟩
  simp [resolveInputs, h.inputs, hone, h.witness, pure, Except.pure, rejectIf]

theorem PlainInput.spendOk
    (h : PlainInput tx ctx.utxoSet ctx.height ctx.rotation ctx.registry input w entry trailer)
    {digest : Bytes32} (hdigest : sighashV1DigestWithType tx 0 entry.value ctx.chainId trailer =
      .ok digest) (hverify : verifySigWithRegistry w.suiteId w.pubkey w.signature.dropLast digest
        (some (ctx.registry.getD SuiteRegistry.defaultRegistry)) = .ok true)
    (cache : SighashV1PrehashCache tx) :
    ∃ s', validateP2pkSpendQ entry w 0 entry.value ctx.chainId ctx.height ctx.rotation ctx.registry
      (⟨cache, none⟩ : SpendState tx) = .ok ((), s') := by
  obtain ⟨params, hparams, hlengths⟩ := h.suite
  have hsteady := sighashV1DigestWithCache_steady tx 0 entry.value ctx.chainId trailer
  rw [hdigest] at hsteady
  obtain ⟨cache', hcache⟩ := hsteady.eq_ok cache
  refine ⟨⟨cache', none⟩, ?_⟩
  rw [validateP2pkSpendQ, hparams, stateT_lift_ok_bind, hlengths, stateT_lift_ok_bind, h.keyId, stateT_lift_ok_bind,
    verifyMldsaKeyAndSigQ, rejectIf_neg (not_not.mpr rfl), stateT_lift_ok_bind, checkSignature,
    h.trailer, stateT_lift_ok_bind, stateT_bind_apply, withCache, hcache, ok_bind, ok_bind]
  simp only [queueOrVerifySignature, submit, verifyQueuedTask, hverify, ok_bind]
  rfl

/-- The accumulator after the only input. -/
def soleSpent (ctx : UtxoApplyContext) (entry : UtxoEntry) (input : TxInput) : SpendAccum :=
  ⟨ctx.utxoSet.erase input.outpoint, entry.value.toNat, 0,
    [sha3_256 (outputDescriptorBytes entry.covenantType entry.covenantData)],
    [entry.covenantType], none⟩

theorem PlainInput.spends
    (h : PlainInput tx ctx.utxoSet ctx.height ctx.rotation ctx.registry input w entry trailer)
    {digest : Bytes32} (hdigest : sighashV1DigestWithType tx 0 entry.value ctx.chainId trailer =
      .ok digest) (hverify : verifySigWithRegistry w.suiteId w.pubkey w.signature.dropLast digest
        (some (ctx.registry.getD SuiteRegistry.defaultRegistry)) = .ok true)
    (cache : SighashV1PrehashCache tx) :
    ∃ s', validateSpends ctx 0 [soleResolved entry input] ⟨ctx.utxoSet, 0, 0, [], [], none⟩
      (⟨cache, none⟩ : SpendState tx) = .ok (soleSpent ctx entry input, s') := by
  obtain ⟨s', hspend⟩ := h.spendOk hdigest hverify cache
  have hrange : witnessRange tx 0 1 = .ok [w] := by
    simp [witnessRange, h.witness, rejectIf]
  have hresolved : validateResolvedSpend ctx (soleResolved entry input) 0 none
      (⟨cache, none⟩ : SpendState tx) = .ok (none, s') := by
    simp only [validateResolvedSpend, soleResolved, hrange, h.p2pk, if_true]
    change (validateP2pkSpendQ entry w 0 entry.value ctx.chainId ctx.height ctx.rotation
      ctx.registry _ >>= _) = _
    rw [hspend]
    rfl
  have hsum : checkedAdd128 0 entry.value.toNat = .ok entry.value.toNat := by
    have hlt := entry.value.toNat_lt
    rw [checkedAdd128, Nat.zero_add, rejectIf_neg (by omega)]
    rfl
  have hvault : SpendAccum.addVaultValue ⟨ctx.utxoSet, 0, 0, [], [], none⟩ entry = .ok 0 := by
    rw [SpendAccum.addVaultValue, h.p2pk]
    rfl
  have hrecord : SpendAccum.record ⟨ctx.utxoSet, 0, 0, [], [], none⟩ (soleResolved entry input)
      none = .ok (soleSpent ctx entry input) := by
    simp only [SpendAccum.record, soleResolved, soleSpent, hsum, hvault, ok_bind, List.nil_append]
  refine ⟨s', ?_⟩
  simp only [validateSpends, stateT_bind_apply, hresolved, ok_bind, hrecord]
  rfl

omit [Crypto] in
theorem addOutputs_of_valueSum_lt (tx : Tx) (ctx : UtxoApplyContext) (work : UtxoSet)
    (hlt : valueSum tx.outputs < 2 ^ 128) : ∃ out, addOutputs tx ctx work = .ok out := by
  have hrun := foldlM_progress (OutputsAdded ctx work) (f := addOutput ctx)
    (l := tx.outputs.zipIdx) (s := ⟨work, 0, false⟩) ⟨rfl, rfl, rfl⟩ ?_
  · obtain ⟨out, hout, -⟩ := hrun
    exact ⟨out, hout⟩
  · intro done p rest acc hsplit hacc
    have hsum : acc.sumOut + p.1.value.toNat < 2 ^ 128 := by
      have hall : (tx.outputs.zipIdx.map fun q => q.1.value.toNat).sum = valueSum tx.outputs := by
        rw [map_zipIdx fun out : TxOutput => out.value.toNat]
        rfl
      rw [hsplit, List.map_append, List.sum_append, List.map_cons, List.sum_cons,
        ← hacc.sumOut_eq] at hall
      omega
    have hchecked : checkedAdd128 acc.sumOut p.1.value.toNat =
        .ok (acc.sumOut + p.1.value.toNat) := by
      rw [checkedAdd128, rejectIf_neg (not_le.mpr hsum)]
      rfl
    obtain ⟨acc', hacc'⟩ : ∃ acc', addOutput ctx acc p = .ok acc' :=
      ⟨_, by rw [addOutput, hchecked]; rfl⟩
    exact ⟨acc', hacc', addOutput_ok hacc hacc'⟩

/-- The signature hypothesis speaks of the same input, entry and trailer as the payment. -/
theorem SoleSignatureAccepted.digest
    (hsig : SoleSignatureAccepted tx ctx.utxoSet ctx.chainId ctx.registry)
    (h : PlainInput tx ctx.utxoSet ctx.height ctx.rotation ctx.registry input w entry trailer) :
    ∃ digest, sighashV1DigestWithType tx 0 entry.value ctx.chainId trailer = .ok digest ∧
      verifySigWithRegistry w.suiteId w.pubkey w.signature.dropLast digest
        (some (ctx.registry.getD SuiteRegistry.defaultRegistry)) = .ok true := by
  obtain ⟨input', w', entry', trailer', digest, hin, hw, hentry, hlast, hdigest, hverify⟩ := hsig
  rw [h.inputs] at hin
  rw [h.witness] at hw
  cases hin
  cases hw
  rw [h.lookup] at hentry
  cases hentry
  have htrailer := h.trailer
  simp only [extractCryptoSigAndSighash, bind_eq_ok, exists_unit, okOr_eq_ok, hlast,
    Option.some.injEq, Except.ok.injEq, Prod.mk.injEq] at htrailer
  obtain ⟨_, rfl, -, -, rfl⟩ := htrailer
  exact ⟨digest, hdigest, hverify⟩

/-- **Consensus accepts every plain payment whose signature verifies**, with the fee that the
precheck computes. -/
theorem PlainPayment.accepted
    (h : PlainPayment tx ctx.utxoSet ctx.height ctx.rotation ctx.registry input w entry trailer)
    (hsig : SoleSignatureAccepted tx ctx.utxoSet ctx.chainId ctx.registry) :
    ∃ utxos count, applyNonCoinbaseTx tx ctx =
      .ok (utxos, ⟨entry.value.toNat - valueSum tx.outputs, count⟩) := by
  obtain ⟨digest, hdigest, hverify⟩ := hsig.digest h.spend
  obtain ⟨seen, hresolve⟩ := h.spend.resolve
  obtain ⟨s', hspends⟩ := h.spend.spends hdigest hverify (SighashV1PrehashCache.new tx)
  have hvalue := entry.value.toNat_lt
  have hcovered := h.covered
  obtain ⟨out, hout⟩ := addOutputs_of_valueSum_lt tx ctx (soleSpent ctx entry input).work
    (by omega)
  obtain ⟨-, hsumOut, hcreates⟩ := addOutputs_ok hout
  have happly : validateApplyInputs tx ctx = .ok () := by
    simp only [validateApplyInputs, check_bind_eq_ok, rejectIf_eq_ok]
    exact ⟨h.nonce, by rw [h.spend.inputs]; exact List.cons_ne_nil _ _, h.outputs.genesis rfl⟩
  have hnovault : out.createsVault = false := by
    rw [hcreates, List.any_eq_false]
    intro t ht
    obtain ⟨o, ho, rfl⟩ := List.mem_map.mp ht
    rw [h.outputs.p2pk o ho]
    decide
  have hcreation : validateVaultCreation tx (soleSpent ctx entry input) out.createsVault =
      .ok () := by
    rw [validateVaultCreation, hnovault]
    rfl
  have hfinish : finishApply 0 (soleSpent ctx entry input) out =
      .ok (out.work, ⟨entry.value.toNat - valueSum tx.outputs, out.work.len⟩) := by
    have hle : ¬ out.sumOut > (soleSpent ctx entry input).sumIn := by
      rw [hsumOut]
      exact not_lt.mpr hcovered
    rw [finishApply, rejectIf_neg hle, ok_bind, rejectIf_neg (by simp), ok_bind, hsumOut]
    rfl
  refine ⟨out.work, out.work.len, ?_⟩
  have himpl : applyNonCoinbaseTxImpl tx ctx ⟨SighashV1PrehashCache.new tx, none⟩ =
      .ok ((out.work, ⟨entry.value.toNat - valueSum tx.outputs, out.work.len⟩), s') := by
    rw [applyNonCoinbaseTxImpl, happly, stateT_lift_ok_bind, hresolve, stateT_lift_ok_bind,
      stateT_bind_apply, hspends, ok_bind]
    dsimp only
    rw [hout, stateT_lift_ok_bind, hcreation, stateT_lift_ok_bind, hfinish]
    rfl
  rw [applyNonCoinbaseTx, himpl]
  rfl

end accept

/-- Whether or not its signature was looked at, a plain payment that consensus accepts has the fee
that the precheck computes. -/
theorem PlainPayment.fee {tx : Tx} {ctx : UtxoApplyContext} {input : TxInput} {w : WitnessItem}
    {entry : UtxoEntry} {trailer : UInt8} {res : UtxoSet × UtxoApplySummary}
    (h : PlainPayment tx ctx.utxoSet ctx.height ctx.rotation ctx.registry input w entry trailer)
    (happly : applyNonCoinbaseTx tx ctx = .ok res) :
    res.2.fee = entry.value.toNat - valueSum tx.outputs := by
  simp only [applyNonCoinbaseTx, bind_eq_ok, Prod.exists, Except.ok.injEq] at happly
  obtain ⟨utxos, summary, s', himpl, rfl⟩ := happly
  obtain ⟨-, -, -, hfee, -⟩ := applyNonCoinbaseTxImpl_ok himpl
  rw [inputValue, h.spend.inputs, List.map_singleton, List.sum_singleton,
    weightAt_of_lookup h.spend.lookup] at hfee
  omega

/-! ## 3. Policy lets a plain payment pass -/

section policy

variable {tx : Tx} {utxos : UtxoSet} {nextHeight : Nat} {cfg : TxPoolConfig} {input : TxInput}
  {w : WitnessItem} {entry : UtxoEntry} {trailer : UInt8}

theorem PlainPayment.noSimplicity
    (h : PlainPayment tx utxos nextHeight cfg.rotation cfg.registry input w entry trailer) :
    covenantPolicyKind tx utxos covTypeCoreSimplicity = none := by
  have hout : (tx.outputs.any fun output => output.covenantType == covTypeCoreSimplicity) =
      false := by
    rw [List.any_eq_false]
    intro o ho
    rw [h.outputs.p2pk o ho]
    decide
  have hin : (tx.inputs.any fun input => (utxos.lookup input.outpoint).any fun entry =>
      entry.covenantType == covTypeCoreSimplicity) = false := by
    rw [h.spend.inputs, List.any_cons, List.any_nil, h.spend.lookup, Option.any_some, h.spend.p2pk]
    decide
  rw [covenantPolicyKind, hout, hin]
  rfl

theorem PlainPayment.gate
    (h : PlainPayment tx utxos nextHeight cfg.rotation cfg.registry input w entry trailer) :
    simplicityPolicyGate cfg tx utxos nextHeight = .ok () := by
  rw [simplicityPolicyGate, h.noSimplicity, if_neg (by simp)]

theorem PlainPayment.daBytes
    (h : PlainPayment tx utxos nextHeight cfg.rotation cfg.registry input w entry trailer)
    {stats : Nat × Nat × Nat} (hstats : txWeightAndStats tx = .ok stats) : stats.2.1 = 0 := by
  simp only [txWeightAndStats, txDaSizeAndBytes, bind_eq_ok, exists_unit, Except.ok.injEq] at hstats
  obtain ⟨_, -, _, -, _, ⟨-, rfl⟩, _, -, rfl⟩ := hstats
  simp [h.kind]

theorem PlainPayment.policy
    (h : PlainPayment tx utxos nextHeight cfg.rotation cfg.registry input w entry trailer)
    (weight : Nat) :
    applyPostConsensusPolicyWithoutFloor tx utxos weight 0 nextHeight cfg = .ok () := by
  have hanchor : rejectNonCoinbaseAnchorOutputs tx = .ok () := by
    rw [rejectNonCoinbaseAnchorOutputs, rejectIf_eq_ok, Bool.not_eq_true, List.any_eq_false]
    intro o ho
    rw [h.outputs.p2pk o ho]
    decide
  have hsimplicity : rejectCoreSimplicityPreActivation tx utxos nextHeight cfg.rotation =
      .ok none := by
    rw [rejectCoreSimplicityPreActivation, h.noSimplicity]
  rw [applyPostConsensusPolicyWithoutFloor, mapError_eq_ok]
  simp only [applyPolicy, check_bind_eq_ok, anchorOutputPolicy, simplicityPolicy]
  refine ⟨?_, rfl, ?_⟩
  · split
    · exact hanchor
    · rfl
  · split
    · change (rejectCoreSimplicityPreActivation tx utxos nextHeight cfg.rotation >>= _) = _
      rw [hsimplicity]
      rfl
    · rfl

end policy

/-! ## 4. The two paths -/

section paths

variable {txBytes : Bytes} {chainState : ChainState} {blockStore : Option BlockStore}
  {chainId : Bytes32} {cfg : TxPoolConfig}

/-- The checks that do not look at the pool, of both paths: what they find on the way. -/
structure Checked (txBytes : Bytes) (chainState : ChainState) (blockStore : Option BlockStore)
    (chainId : Bytes32) (cfg : TxPoolConfig) (parsed : ParsedTx) (nextHeight : Nat)
    (blockMtp : UInt64) (summary : UtxoApplySummary) (stats : Nat × Nat × Nat) : Prop where
  parse : parseCanonicalTx txBytes = .ok parsed
  height : TxPool.nextBlockHeight chainState = .ok nextHeight
  mtp : TxPool.nextBlockMtp blockStore nextHeight = .ok blockMtp
  gate : simplicityPolicyGate cfg parsed.tx chainState.utxos nextHeight = .ok ()
  consensus : applyAtNextBlock parsed chainState nextHeight blockMtp chainId cfg = .ok summary
  weight : txWeightAndStats parsed.tx = .ok stats
  policy : applyPostConsensusPolicyWithoutFloor parsed.tx chainState.utxos stats.1 stats.2.1
    nextHeight cfg = .ok ()

theorem relayMetadata_eq_ok {m : RelayTxMetadata} :
    relayMetadata txBytes chainState blockStore chainId cfg = .ok m ↔
      ∃ parsed nextHeight blockMtp summary stats,
        Checked txBytes chainState blockStore chainId cfg parsed nextHeight blockMtp summary stats ∧
        validateFeeFloor summary.fee stats.1 cfg.policyCurrentMempoolMinFeeRate = .ok () ∧
        m = ⟨summary.fee, txBytes.length⟩ := by
  simp only [relayMetadata, applyPostConsensusPolicyWithFloor, bind_eq_ok, exists_unit,
    mapError_eq_ok, Except.ok.injEq]
  constructor
  · rintro ⟨parsed, h1, height, h2, mtp, h3, h4, summary, h5, stats, h6, ⟨h7, h8⟩, rfl⟩
    exact ⟨parsed, height, mtp, summary, stats, ⟨h1, h2, h3, h4, h5, h6, h7⟩, h8, rfl⟩
  · rintro ⟨parsed, height, mtp, summary, stats, h, h8, rfl⟩
    exact ⟨parsed, h.parse, height, h.height, mtp, h.mtp, h.gate, summary, h.consensus, stats,
      h.weight, ⟨h.policy, h8⟩, rfl⟩

variable {tx : TxPool.CheckedTx} {α : Type} {failure : AdmitFailure} {pool : TxPool}
  {owner : PendingOutpointOwner} {context : PendingOutpointAdmissionContext}
  {ord : VisitOrder Bytes32} {source : TxSource}

theorem checkTransaction_eq_ok :
    TxPool.checkTransaction txBytes chainState blockStore chainId cfg = .ok tx ↔
      ∃ parsed nextHeight blockMtp summary stats,
        Checked txBytes chainState blockStore chainId cfg parsed nextHeight blockMtp summary stats ∧
        cheapFeeFloorPrecheck parsed.tx chainState.utxos stats.1 cfg.policyCurrentMempoolMinFeeRate
          nextHeight cfg.rotation cfg.registry = .ok () ∧
        tx = ⟨parsed.txid, parsed.tx.inputs.map TxInput.outpoint, stats.1, summary.fee⟩ := by
  simp only [TxPool.checkTransaction, atStage, bind_eq_ok, exists_unit, mapError_eq_ok,
    Except.ok.injEq]
  constructor
  · rintro ⟨parsed, h1, stats, h2, height, h3, mtp, h4, h5, h6, summary, h7, h8, rfl⟩
    exact ⟨parsed, height, mtp, summary, stats, ⟨h1, h3, h4, h6, h7, h2, h8⟩, h5, rfl⟩
  · rintro ⟨parsed, height, mtp, summary, stats, h, h5, rfl⟩
    exact ⟨parsed, h.parse, stats, h.weight, height, h.height, mtp, h.mtp, h5, h.gate, summary,
      h.consensus, h.policy, rfl⟩

theorem precheck_of_floor {parsed : ParsedTx} {blockMtp : UInt64} {summary : UtxoApplySummary}
    {stats : Nat × Nat × Nat}
    (h : Checked txBytes chainState blockStore chainId cfg parsed nextHeight blockMtp summary stats)
    (hfloor : validateFeeFloor summary.fee stats.1 cfg.policyCurrentMempoolMinFeeRate = .ok ()) :
    cheapFeeFloorPrecheck parsed.tx chainState.utxos stats.1 cfg.policyCurrentMempoolMinFeeRate
      nextHeight cfg.rotation cfg.registry = .ok () := by
  cases hpre : cheapFeeFloorPrecheck parsed.tx chainState.utxos stats.1
      cfg.policyCurrentMempoolMinFeeRate nextHeight cfg.rotation cfg.registry with
  | ok u => rfl
  | error e =>
    obtain ⟨input, w, entry, trailer, hplain, hlow⟩ := cheapFeeFloorPrecheck_error hpre
    have hconsensus := h.consensus
    simp only [applyAtNextBlock, bind_eq_ok, mapError_eq_ok, Except.ok.injEq] at hconsensus
    obtain ⟨res, happly, rfl⟩ := hconsensus
    rw [hplain.fee happly] at hfloor
    rw [hfloor] at hlow
    cases hlow

/-- A stage whose failure the relay path does not know. -/
def poolStages : List AdmitStage := [.ownerFence, .duplicate, .conflict, .capacity]

omit [Crypto] in
theorem atStage_error {stage : AdmitStage} {x : Except TxPoolAdmitError α}
    (h : atStage stage x = .error failure) : failure.stage = stage := by
  cases x with
  | ok a => cases h
  | error e =>
    cases h
    rfl

omit [Crypto] in
theorem atOwner_error {x : Except PendingOutpointError α} (h : atOwner x = .error failure) :
    failure.stage = .ownerFence := by
  cases x with
  | ok a => cases h
  | error e =>
    cases h
    rfl

omit [Crypto] in
theorem forEach_error {ε : Type} {f : α → Except ε Unit} {l : List α} {e : ε}
    (h : forEach f l = .error e) : ∃ a ∈ l, f a = .error e := by
  induction l with
  | nil => cases h
  | cons a l ih =>
    rw [forEach_cons, bind_eq_error] at h
    rcases h with h | ⟨_, -, h⟩
    · exact ⟨a, List.mem_cons_self, h⟩
    · obtain ⟨b, hb, hfb⟩ := ih h
      exact ⟨b, List.mem_cons_of_mem _ hb, hfb⟩

omit [Crypto] in
theorem validateStandardDelta_error {txid : Bytes32} {entry : TxPoolEntry} {token : Option Nat}
    {evicted : List Bytes32}
    (h : pool.validateStandardDelta owner context txid entry token evicted = .error failure) :
    failure.stage ∈ poolStages := by
  simp only [TxPool.validateStandardDelta, bind_eq_error, exists_unit] at h
  rcases h with h | ⟨-, h | ⟨-, h | ⟨-, h | ⟨-, h | ⟨-, h⟩⟩⟩⟩⟩
  · simp [atOwner_error h, poolStages]
  · simp [atStage_error h, poolStages]
  · simp [atStage_error h, poolStages]
  · simp [atOwner_error h, poolStages]
  · simp [atOwner_error h, poolStages]
  · obtain ⟨victim, -, hv⟩ := forEach_error h
    rw [bind_eq_error] at hv
    rcases hv with hv | ⟨e, -, hv⟩
    · simp [atStage_error hv, poolStages]
    · simp [atOwner_error hv, poolStages]

omit [Crypto] in
theorem admitReserved_error {reservation : Option Nat}
    (hfloor : validateFeeFloor tx.fee tx.weight pool.cfg.policyCurrentMempoolMinFeeRate = .ok ())
    (h : pool.admitReserved ord owner context txBytes source tx reservation = .error failure) :
    failure.stage ∈ poolStages := by
  simp only [TxPool.admitReserved, TxPool.commitStandardDelta, hfloor, bind_eq_error,
    exists_unit] at h
  rcases h with h | ⟨-, h | ⟨evicted, -, h | ⟨-, h | ⟨-, h⟩⟩⟩⟩
  · cases h
  · simp [atStage_error h, poolStages]
  · simp [atStage_error h, poolStages]
  · exact validateStandardDelta_error h
  · cases h

omit [Crypto] in
theorem reserveFailure_stage (e : PendingOutpointError) : (reserveFailure e).stage ∈ poolStages := by
  unfold reserveFailure
  dsimp only
  split
  · simp [poolStages]
  · simp [poolStages]

omit [Crypto] in
theorem admitChecked_of_floor
    (hfloor : validateFeeFloor tx.fee tx.weight pool.cfg.policyCurrentMempoolMinFeeRate = .ok ())
    (ord : VisitOrder Bytes32) (owner : PendingOutpointOwner)
    (context : PendingOutpointAdmissionContext) (txBytes : Bytes) (source : TxSource) :
    (∃ pool', pool.admitChecked ord owner context txBytes source tx =
        .ok (tx.txid, ⟨tx.fee, txBytes.length⟩) pool') ∨
      ∃ failure pool', pool.admitChecked ord owner context txBytes source tx =
        .error failure pool' ∧ failure.stage ∈ poolStages := by
  unfold TxPool.admitChecked
  split
  · exact Or.inr ⟨_, _, rfl, by simp [poolStages]⟩
  · split
    · rename_i e _
      exact Or.inr ⟨_, _, rfl, reserveFailure_stage e⟩
    · split
      · rename_i failure hadmit
        exact Or.inr ⟨_, _, rfl, admitReserved_error hfloor hadmit⟩
      · exact Or.inl ⟨_, rfl⟩

omit [Crypto] in
theorem floor_of_admitChecked {pool' : TxPool} {r : Bytes32 × RelayTxMetadata}
    (h : pool.admitChecked ord owner context txBytes source tx = .ok r pool') :
    validateFeeFloor tx.fee tx.weight pool.cfg.policyCurrentMempoolMinFeeRate = .ok () := by
  unfold TxPool.admitChecked at h
  split at h
  · cases h
  · split at h
    · cases h
    · split at h
      · cases h
      · rename_i hadmit
        simp only [TxPool.admitReserved, bind_eq_ok, exists_unit, atStage, mapError_eq_ok] at hadmit
        exact hadmit.1

theorem addTxStaged_of_checked
    (hcheck : TxPool.checkTransaction txBytes chainState blockStore chainId pool.cfg = .ok tx)
    (hfloor : validateFeeFloor tx.fee tx.weight pool.cfg.policyCurrentMempoolMinFeeRate = .ok ()) :
    (∃ pool', TxPool.addTxStaged ord txBytes chainState blockStore chainId source pool =
        .ok (tx.txid, ⟨tx.fee, txBytes.length⟩) pool') ∨
      ∃ failure pool', TxPool.addTxStaged ord txBytes chainState blockStore chainId source pool =
        .error failure pool' ∧ failure.stage ∈ poolStages := by
  unfold TxPool.addTxStaged
  dsimp only
  cases (pool.admissionContext chainState).2 with
  | error e => exact Or.inr ⟨_, _, rfl, by simp [poolStages]⟩
  | ok opened =>
    have hfloor' : validateFeeFloor tx.fee tx.weight
        (pool.admissionContext chainState).1.cfg.policyCurrentMempoolMinFeeRate = .ok () := hfloor
    simp only [hcheck]
    exact admitChecked_of_floor hfloor' ord opened.1 opened.2 txBytes source

theorem checked_of_addTxStaged {pool' : TxPool} {r : Bytes32 × RelayTxMetadata}
    (h : TxPool.addTxStaged ord txBytes chainState blockStore chainId source pool = .ok r pool') :
    ∃ tx, TxPool.checkTransaction txBytes chainState blockStore chainId pool.cfg = .ok tx ∧
      validateFeeFloor tx.fee tx.weight pool.cfg.policyCurrentMempoolMinFeeRate = .ok () := by
  unfold TxPool.addTxStaged at h
  dsimp only at h
  split at h
  · cases h
  · split at h
    · cases h
    · rename_i tx hcheck
      have hfloor := floor_of_admitChecked h
      exact ⟨tx, hcheck, hfloor⟩

theorem checkTransaction_feePrecheck
    (h : TxPool.checkTransaction txBytes chainState blockStore chainId cfg =
      .error ⟨.feePrecheck, e⟩) :
    ∃ parsed stats nextHeight blockMtp, parseCanonicalTx txBytes = .ok parsed ∧
      txWeightAndStats parsed.tx = .ok stats ∧ TxPool.nextBlockHeight chainState = .ok nextHeight ∧
      TxPool.nextBlockMtp blockStore nextHeight = .ok blockMtp ∧
      cheapFeeFloorPrecheck parsed.tx chainState.utxos stats.1 cfg.policyCurrentMempoolMinFeeRate
        nextHeight cfg.rotation cfg.registry = .error e := by
  simp only [TxPool.checkTransaction, bind_eq_error, exists_unit] at h
  -- the tag of every other stage is a different one
  rcases h with h | ⟨parsed, h1, h | ⟨stats, h2, h | ⟨nextHeight, h3, h | ⟨blockMtp, h4, h |
    ⟨-, h | ⟨-, h | ⟨summary, -, h | ⟨-, h⟩⟩⟩⟩⟩⟩⟩⟩
  · cases atStage_error h
  · cases atStage_error h
  · cases atStage_error h
  · cases atStage_error h
  · simp only [atStage, mapError_eq_ok] at h1 h2 h3 h4
    refine ⟨parsed, stats, nextHeight, blockMtp, h1, h2, h3, h4, ?_⟩
    unfold atStage at h
    cases hpre : cheapFeeFloorPrecheck parsed.tx chainState.utxos stats.1
        cfg.policyCurrentMempoolMinFeeRate nextHeight cfg.rotation cfg.registry with
    | ok u =>
      rw [hpre] at h
      cases h
    | error e' =>
      rw [hpre] at h
      cases h
      rfl
  · cases atStage_error h
  · cases atStage_error h
  · cases atStage_error h
  · cases h

/-- What a parsed transaction is applied in. -/
def nextBlockApplyContext (parsed : ParsedTx) (chainState : ChainState) (nextHeight : Nat)
    (blockMtp : UInt64) (chainId : Bytes32) (cfg : TxPoolConfig) : UtxoApplyContext :=
  { txid := parsed.txid, utxoSet := chainState.utxos, height := nextHeight, blockMtp, chainId,
    rotation := cfg.rotation, registry := cfg.registry }

/-- The oracle accepts the signature of the only input of the transaction in `txBytes`. -/
def SignatureAccepted (txBytes : Bytes) (utxos : UtxoSet) (chainId : Bytes32)
    (registry : Option SuiteRegistry) : Prop :=
  ∃ parsed, parseTx txBytes = .ok parsed ∧ SoleSignatureAccepted parsed.tx utxos chainId registry

theorem relayMetadata_of_precheck
    (h : TxPool.checkTransaction txBytes chainState blockStore chainId cfg =
      .error ⟨.feePrecheck, e⟩)
    (hsig : SignatureAccepted txBytes chainState.utxos chainId cfg.registry) :
    relayMetadata txBytes chainState blockStore chainId cfg = .error e := by
  obtain ⟨parsed, stats, nextHeight, blockMtp, hparse, hstats, hheight, hmtp, hpre⟩ :=
    checkTransaction_feePrecheck h
  obtain ⟨parsed', hparse', hsole⟩ := hsig
  have hsame : parsed' = parsed := by
    have hcanonical := hparse
    simp only [parseCanonicalTx, hparse', bind_eq_ok, exists_unit, Except.mapError,
      Except.ok.injEq] at hcanonical
    obtain ⟨_, rfl, -, rfl⟩ := hcanonical
    rfl
  subst hsame
  obtain ⟨input, w, entry, trailer, hplain, hfloor⟩ := cheapFeeFloorPrecheck_error hpre
  obtain ⟨utxos, count, happly⟩ : ∃ utxos count, applyNonCoinbaseTx parsed'.tx
      (nextBlockApplyContext parsed' chainState nextHeight blockMtp chainId cfg) =
        .ok (utxos, ⟨entry.value.toNat - valueSum parsed'.tx.outputs, count⟩) :=
    PlainPayment.accepted hplain hsole
  have hsummary : applyAtNextBlock parsed' chainState nextHeight blockMtp chainId cfg =
      .ok ⟨entry.value.toNat - valueSum parsed'.tx.outputs, count⟩ := by
    rw [nextBlockApplyContext] at happly
    simp only [applyAtNextBlock, happly, Except.mapError, ok_bind]
  have hpolicy := hplain.policy stats.1
  rw [← hplain.daBytes hstats] at hpolicy
  simp only [relayMetadata, hparse, hheight, hmtp, hstats, hplain.gate, hsummary, ok_bind,
    Except.mapError, applyPostConsensusPolicyWithFloor, hpolicy, hfloor, error_bind]

end paths

/-- **Relay and admission classify alike.**  What the relay path lets through is admitted with the
same metadata, or refused by the pool or the owner; what it refuses is refused; and a precheck
rejection of a payment whose signature is good is, kind and text, the relay path's own. -/
theorem relay_and_admission_classify_alike (ord : VisitOrder Bytes32) (txBytes : Bytes)
    (chainState : ChainState) (blockStore : Option BlockStore) (chainId : Bytes32)
    (source : TxSource) (pool : TxPool) :
    (∀ m, relayMetadata txBytes chainState blockStore chainId pool.cfg = .ok m →
      (∃ txid pool', TxPool.addTxWithSource ord txBytes chainState blockStore chainId source pool =
        .ok (txid, m) pool') ∨
      ∃ failure pool', TxPool.addTxStaged ord txBytes chainState blockStore chainId source pool =
        .error failure pool' ∧
        failure.stage ∈ [AdmitStage.ownerFence, .duplicate, .conflict, .capacity]) ∧
    (∀ e, relayMetadata txBytes chainState blockStore chainId pool.cfg = .error e →
      ∃ e' pool', TxPool.addTxWithSource ord txBytes chainState blockStore chainId source pool =
        .error e' pool') ∧
    (∀ e, TxPool.checkTransaction txBytes chainState blockStore chainId pool.cfg =
        .error ⟨.feePrecheck, e⟩ →
      SignatureAccepted txBytes chainState.utxos chainId pool.cfg.registry →
      relayMetadata txBytes chainState blockStore chainId pool.cfg = .error e) := by
  refine ⟨?_, ?_, fun e h hsig => relayMetadata_of_precheck h hsig⟩
  · intro m hrelay
    obtain ⟨parsed, nextHeight, blockMtp, summary, stats, h, hfloor, rfl⟩ :=
      relayMetadata_eq_ok.mp hrelay
    have hcheck := checkTransaction_eq_ok.mpr
      ⟨parsed, nextHeight, blockMtp, summary, stats, h, precheck_of_floor h hfloor, rfl⟩
    have hadd := @addTxStaged_of_checked _ txBytes chainState blockStore chainId _ pool ord source
      hcheck hfloor
    rcases hadd with ⟨pool', hok⟩ | hfail
    · exact Or.inl ⟨_, pool', by rw [TxPool.addTxWithSource, hok]⟩
    · exact Or.inr hfail
  · intro e hrelay
    cases hstaged : TxPool.addTxStaged ord txBytes chainState blockStore chainId source pool with
    | error failure pool' => exact ⟨_, pool', by rw [TxPool.addTxWithSource, hstaged]⟩
    | ok r pool' =>
      -- an admitted transaction would have passed the relay path
      obtain ⟨tx, hcheck, hfloor⟩ := checked_of_addTxStaged hstaged
      obtain ⟨parsed, nextHeight, blockMtp, summary, stats, h, -, rfl⟩ :=
        checkTransaction_eq_ok.mp hcheck
      have hok := relayMetadata_eq_ok.mpr
        ⟨parsed, nextHeight, blockMtp, summary, stats, h, hfloor, rfl⟩
      rw [hrelay] at hok
      cases hok

end alike

section sample

local instance : Crypto := Crypto.trivial

/-- A plain payment of 90 out of 100; its weight is in the thousands. -/
def underpaidPayment : Tx :=
  { version := txWireVersion, txKind := 0x00, txNonce := 1, inputs := [⟨zero32, 0, [], 0⟩],
    outputs := [⟨90, covTypeP2pk, 1 :: zero32.toList⟩], locktime := 0, daCommitCore := none,
    daChunkCore := none,
    witness := [⟨1, List.replicate 2592 0, List.replicate 4627 0 ++ [1]⟩], daPayload := [] }

def underpaidBytes : Bytes := (marshalTx underpaidPayment).toOption.getD []

def underpaidEntry : UtxoEntry :=
  { value := 100, covenantType := covTypeP2pk, covenantData := 1 :: zero32.toList,
    creationHeight := 0, createdByCoinbase := false }

def underpaidState : ChainState :=
  { ChainState.new with utxos := Finmap.singleton ⟨zero32, 0⟩ underpaidEntry }

/-- The stage and the kind of a failed check. -/
def failedAt {α : Type} : Except AdmitFailure α → Option (AdmitStage × TxPoolAdmitErrorKind)
  | .ok _ => none
  | .error failure => some (failure.stage, failure.error.kind)

theorem underpaid_signature :
    SignatureAccepted underpaidBytes underpaidState.utxos zero32 none := by
  have hmarshal : marshalTx underpaidPayment = .ok underpaidBytes := rfl
  obtain ⟨p, hp⟩ := exists_ok_of_isOk (x := parseTx underpaidBytes) (by decide +kernel)
  have hcores : CoresMatchKind underpaidPayment.txKind underpaidPayment.cores :=
    ⟨⟨fun h => (nomatch h), fun h => (nomatch h)⟩, ⟨fun h => (nomatch h), fun h => (nomatch h)⟩⟩
  obtain ⟨parsed, hparsed, htx, -⟩ := marshalTx_parseTx hmarshal hcores hp []
  rw [List.append_nil] at hparsed
  refine ⟨parsed, hparsed, ?_⟩
  rw [htx]
  refine ⟨_, _, underpaidEntry, 1, zero32, rfl, rfl, ?_, ?_, rfl, ?_⟩
  · decide +kernel
  · decide +kernel
  · decide +kernel

/-- The precheck rejects the payment, so the relay path does, with the same error. -/
theorem relay_and_admission_classify_alike_underpaid :
    ∃ e, TxPool.checkTransaction underpaidBytes underpaidState none zero32 .default =
        .error ⟨.feePrecheck, e⟩ ∧
      relayMetadata underpaidBytes underpaidState none zero32 .default = .error e := by
  have hfail : failedAt (TxPool.checkTransaction underpaidBytes underpaidState none zero32
      .default) = some (.feePrecheck, .unavailable) := by
    decide +kernel
  cases hcheck : TxPool.checkTransaction underpaidBytes underpaidState none zero32 .default with
  | ok tx =>
    rw [hcheck] at hfail
    cases hfail
  | error failure =>
    rw [hcheck] at hfail
    obtain ⟨stage, e⟩ := failure
    obtain ⟨rfl, -⟩ := Prod.mk.inj (Option.some.inj hfail)
    refine ⟨e, rfl, ?_⟩
    exact (relay_and_admission_classify_alike anyOrder underpaidBytes underpaidState none zero32
      .remote (TxPool.newWithOwner .default none)).2.2 e hcheck underpaid_signature

end sample

end Rubin.Node
