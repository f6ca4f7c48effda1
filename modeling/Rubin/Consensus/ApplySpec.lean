/-
# What an applied transaction has done

The stages of `utxo_basic.rs`, each with the facts its success leaves behind: what was resolved
(`Resolved`), what the spends took out (`validateSpends_ok`), what the outputs put in
(`addOutputs_ok`).  `applyNonCoinbaseTxImpl_ok` puts them together, for either sink: a transaction
replaces its inputs by its spendable outputs, and the fee is what is left.
-/
import Rubin.Consensus.Utxo
import Rubin.Lib.FiniteMap

namespace Rubin.Consensus

open Rubin.Lib

/-! ## 1. Resolved inputs -/

/-- What `resolve_input` has checked about one input. -/
structure InputResolved (ctx : UtxoApplyContext) (input : TxInput) (r : ResolvedInput) : Prop where
  outpoint : r.outpoint = input.outpoint
  lookup : ctx.utxoSet.lookup input.outpoint = some r.entry
  encoding : validateNonCoinbaseInputEncoding input = .ok ()
  available : validateInputAvailability r.entry ctx.height = .ok ()
  covenant : checkSpendCovenant r.entry.covenantType r.entry.covenantData = .ok ()
  slots : witnessSlots r.entry.covenantType r.entry.covenantData = .ok r.slotCount
  slots_pos : r.slotCount ≠ 0

def ResolvedInput.isVault (r : ResolvedInput) : Bool := r.entry.covenantType == covTypeVault

/-- The witness ranges of `rs` follow each other from `start` to `stop`. -/
def Spans : (start : Nat) → List ResolvedInput → (stop : Nat) → Prop
  | start, [], stop => start = stop
  | start, r :: rs, stop => r.witnessStart = start ∧ Spans (start + r.slotCount) rs stop

variable {rs : List ResolvedInput} {r : ResolvedInput} {stop : Nat} {tx : Tx}
  {ctx : UtxoApplyContext} {res : UtxoSet × UtxoApplySummary} {inputs : List TxInput}

theorem Spans.snoc :
    ∀ {start : Nat}, Spans start rs stop → r.witnessStart = stop →
      Spans start (rs ++ [r]) (stop + r.slotCount) := by
  induction rs with
  | nil =>
    intro start h hr
    rw [List.nil_append]
    exact ⟨hr.trans h.symm, by rw [h]; rfl⟩
  | cons q rs ih =>
    intro start h hr
    exact ⟨h.1, ih h.2 hr⟩

theorem Spans.le : ∀ {start : Nat}, Spans start rs stop → start ≤ stop := by
  induction rs with
  | nil => exact fun h => le_of_eq h
  | cons r rs ih =>
    intro start h
    have := ih h.2
    omega

/-- The witness items assigned to a resolved input. -/
def ResolvedInput.assigned (tx : Tx) (r : ResolvedInput) : List WitnessItem :=
  (tx.witness.drop r.witnessStart).take r.slotCount

theorem Spans.fits : ∀ {start : Nat},
    Spans start rs stop → ∀ r ∈ rs, r.witnessStart + r.slotCount ≤ stop := by
  induction rs with
  | nil => exact fun _ r hr => by cases hr
  | cons q rs ih =>
    intro start h r hr
    rcases List.mem_cons.mp hr with rfl | hr
    · have hle := h.2.le
      have hstart := h.1
      omega
    · exact ih h.2 r hr

theorem Spans.flatten : ∀ {start : Nat},
    Spans start rs stop →
      (rs.map (ResolvedInput.assigned tx)).flatten =
        (tx.witness.drop start).take (stop - start) := by
  induction rs with
  | nil =>
    intro start h
    rw [show stop - start = 0 by have := h; simp only [Spans] at this; omega]
    rfl
  | cons q rs ih =>
    intro start h
    have hle := h.2.le
    rw [List.map_cons, List.flatten_cons, ih h.2, ResolvedInput.assigned, h.1,
      show stop - start = q.slotCount + (stop - (start + q.slotCount)) by omega, List.take_add,
      List.drop_drop]

/-- The state of the input loop after `inputs`. -/
structure Resolved (tx : Tx) (ctx : UtxoApplyContext) (inputs : List TxInput) (st : ResolveState) :
    Prop where
  each : List.Forall₂ (InputResolved ctx) inputs st.resolved
  seen : ∀ op, op ∈ st.seenInputs ↔ op ∈ inputs.map TxInput.outpoint
  nodup : (inputs.map TxInput.outpoint).Nodup
  spans : Spans 0 st.resolved st.witnessCursor
  cursor_le : st.witnessCursor ≤ tx.witness.length
  vaults : st.vaultInputCount = st.resolved.countP ResolvedInput.isVault
  vaults_le : st.vaultInputCount ≤ 1

theorem validateInputCovenant_ok {count count' : Nat} {entry : UtxoEntry}
    (h : validateInputCovenant count entry = .ok count') :
    count' = count + (if entry.covenantType = covTypeVault then 1 else 0) ∧
      (entry.covenantType = covTypeVault → count' ≤ 1) ∧
      entry.covenantType ≠ covTypeCoreSimplicity ∧
      checkSpendCovenant entry.covenantType entry.covenantData = .ok () := by
  simp only [validateInputCovenant, bind_eq_ok, exists_unit, rejectIf_eq_ok, Except.ok.injEq] at h
  obtain ⟨h1, h2, h3, rfl⟩ := h
  refine ⟨?_, ?_, h2, h3⟩
  · split <;> rfl
  · intro hv
    simp only [hv, if_true, true_and] at h1 ⊢
    omega

theorem recordResolvedInput_ok {cursor : Nat} {entry : UtxoEntry} {op : Outpoint}
    (h : recordResolvedInput tx cursor entry op = .ok r) :
    r.entry = entry ∧ r.outpoint = op ∧ r.witnessStart = cursor ∧ r.slotCount ≠ 0 ∧
      witnessSlots entry.covenantType entry.covenantData = .ok r.slotCount ∧
      cursor + r.slotCount ≤ tx.witness.length := by
  simp only [recordResolvedInput, bind_eq_ok, exists_unit, rejectIf_eq_ok, Except.ok.injEq] at h
  obtain ⟨slots, hslots, hpos, hle, rfl⟩ := h
  exact ⟨rfl, rfl, rfl, hpos, hslots, not_lt.mp hle⟩

theorem resolveInput_ok {done : List TxInput} {input : TxInput} {st st' : ResolveState}
    (hst : Resolved tx ctx done st) (h : resolveInput tx ctx st input = .ok st') :
    Resolved tx ctx (done ++ [input]) st' := by
  simp only [resolveInput, bind_eq_ok, exists_unit, rejectIf_eq_ok, okOr_eq_ok,
    Except.ok.injEq] at h
  obtain ⟨henc, hseen, entry, hlook, havail, count, hcount, r, hr, rfl⟩ := h
  obtain ⟨hcount', hle, -, hcov⟩ := validateInputCovenant_ok hcount
  obtain ⟨hentry, hop, hstart, hpos, hslots, hfit⟩ := recordResolvedInput_ok hr
  subst hentry
  have hvault : r.isVault = decide (r.entry.covenantType = covTypeVault) := by
    simp [ResolvedInput.isVault, beq_eq_decide]
  refine ⟨?_, ?_, ?_, ?_, hfit, ?_, ?_⟩
  · exact List.rel_append hst.each (.cons ⟨hop, hlook, henc, havail, hcov, hslots, hpos⟩ .nil)
  · intro op
    simp [hst.seen op, or_comm]
  · rw [List.map_append, List.nodup_append]
    refine ⟨hst.nodup, by simp, ?_⟩
    intro a ha b hb hab
    rw [List.map_singleton, List.mem_singleton] at hb
    exact hseen ((hst.seen _).mpr (hb ▸ hab ▸ ha))
  · exact hst.spans.snoc hstart
  · rw [List.countP_append, hcount', hst.vaults, List.countP_singleton, hvault]
    simp
  · have := hst.vaults_le
    by_cases hv : r.entry.covenantType = covTypeVault
    · exact hle hv
    · rw [if_neg hv] at hcount'
      change count ≤ 1
      omega

/-- **What input resolution establishes**: distinct outpoints, their entries, and a cut of the
whole witness list. -/
theorem resolveInputs_ok {st : ResolveState} (h : resolveInputs tx ctx = .ok st) :
    Resolved tx ctx tx.inputs st ∧ st.witnessCursor = tx.witness.length := by
  simp only [resolveInputs, bind_eq_ok, exists_unit, rejectIf_eq_ok, Except.ok.injEq] at h
  obtain ⟨st, hrun, hend, rfl⟩ := h
  have hinit : Resolved tx ctx [] ⟨0, 0, [], []⟩ :=
    ⟨.nil, by simp, by simp, rfl, Nat.zero_le _, rfl, Nat.zero_le _⟩
  exact ⟨foldlM_invariant resolveInput_ok hinit hrun, not_not.mp hend⟩

/-! ## 2. Spends -/

theorem VaultSpendState.capture_ok {inputIndex : UInt32} {vault : VaultSpendState}
    (h : VaultSpendState.capture r inputIndex = .ok vault) :
    ∃ v, parseVaultCovenantDataForSpend r.entry.covenantData = .ok v ∧ vault.keys = v.keys ∧
      vault.threshold = v.threshold ∧ vault.witnessStart = r.witnessStart ∧
      vault.slotCount = r.slotCount ∧ vault.inputIndex = inputIndex ∧
      vault.inputValue = r.entry.value := by
  simp only [VaultSpendState.capture, bind_eq_ok, Except.ok.injEq] at h
  obtain ⟨v, hv, rfl⟩ := h
  exact ⟨v, hv, rfl, rfl, rfl, rfl, rfl, rfl⟩

theorem checkedAdd128_ok {a b c : Nat} (h : checkedAdd128 a b = .ok c) :
    c = a + b ∧ c < 2 ^ 128 := by
  simp only [checkedAdd128, bind_eq_ok, exists_unit, rejectIf_eq_ok, Except.ok.injEq] at h
  obtain ⟨h1, rfl⟩ := h
  exact ⟨rfl, by omega⟩

section spend

variable [Crypto] {tx : Tx} {s s' : SpendState tx}

def UtxoEntry.lockId (entry : UtxoEntry) : Bytes32 :=
  sha3_256 (outputDescriptorBytes entry.covenantType entry.covenantData)

/-- The value of the vault inputs among `rs`. -/
def vaultValue (rs : List ResolvedInput) : Nat :=
  (rs.map fun r => if r.entry.covenantType = covTypeVault then r.entry.value.toNat else 0).sum

theorem SpendAccum.record_ok {acc acc' : SpendAccum} {vault : Option VaultSpendState}
    (h : acc.record r vault = .ok acc') :
    acc'.work = acc.work.erase r.outpoint ∧ acc'.sumIn = acc.sumIn + r.entry.value.toNat ∧
      acc'.sumIn < 2 ^ 128 ∧
      acc'.sumInVault = acc.sumInVault +
        (if r.entry.covenantType = covTypeVault then r.entry.value.toNat else 0) ∧
      acc'.inputLockIds = acc.inputLockIds ++ [r.entry.lockId] ∧
      acc'.inputCovTypes = acc.inputCovTypes ++ [r.entry.covenantType] ∧
      acc'.vaultSpend = vault := by
  simp only [SpendAccum.record, bind_eq_ok, Except.ok.injEq] at h
  obtain ⟨sumIn, hin, sumInVault, hvault, rfl⟩ := h
  obtain ⟨hin, hlt⟩ := checkedAdd128_ok hin
  refine ⟨rfl, hin, hlt, ?_, rfl, rfl, rfl⟩
  rw [SpendAccum.addVaultValue] at hvault
  split at hvault
  · rename_i hv
    rw [if_pos hv]
    exact (checkedAdd128_ok hvault).1
  · rename_i hv
    rw [if_neg hv]
    exact (Except.ok.inj hvault).symm

theorem validateResolvedSpend_vault {i : Nat} {vault vault' : Option VaultSpendState}
    (h : validateResolvedSpend ctx r i vault s = .ok (vault', s')) :
    if r.isVault then
      ∃ captured, VaultSpendState.capture r (UInt32.ofNat i) = .ok captured ∧
        vault' = some captured
    else vault' = vault := by
  obtain ⟨assigned, s₁, -, h⟩ := stateT_bind_eq_ok.mp h
  -- every branch but the vault's ends in the vault it was given
  have hkeep : ∀ {m : SpendM tx Unit}, (do m; pure vault : SpendM tx _) s₁ = .ok (vault', s') →
      vault' = vault := by
    intro m hm
    obtain ⟨⟨⟩, s₂, -, hp⟩ := stateT_bind_eq_ok.mp hm
    exact (stateT_pure_eq_ok.mp hp).1.symm
  have hdistinct : covTypeVault ≠ covTypeP2pk ∧ covTypeVault ≠ covTypeMultisig := by decide
  by_cases hv : r.entry.covenantType = covTypeVault
  · have hvault : r.isVault = true := beq_iff_eq.mpr hv
    simp only [hv, hdistinct.1, hdistinct.2, if_false, if_true] at h
    obtain ⟨captured, s₂, hcap, hp⟩ := stateT_bind_eq_ok.mp h
    rw [if_pos hvault]
    exact ⟨captured, (stateT_lift_eq_ok.mp hcap).1, (stateT_pure_eq_ok.mp hp).1.symm⟩
  · have hvault : r.isVault = false := beq_eq_false_iff_ne.mpr hv
    rw [hvault, if_neg Bool.false_ne_true]
    split at h
    · exact hkeep h
    · split at h
      · exact hkeep h
      · split at h
        · exact hkeep h
        · split at h
          · exact hkeep h
          · exact (stateT_pure_eq_ok.mp h).1.symm

theorem validateSpends_ok : ∀ {rs : List ResolvedInput} {i : Nat}
    {acc acc' : SpendAccum} {s s' : SpendState tx},
    validateSpends ctx i rs acc s = .ok (acc', s') →
      acc'.work = eraseAll (rs.map ResolvedInput.outpoint) acc.work ∧
      acc'.sumIn = acc.sumIn + (rs.map fun r => r.entry.value.toNat).sum ∧
      acc'.sumInVault = acc.sumInVault + vaultValue rs ∧
      acc'.inputLockIds = acc.inputLockIds ++ rs.map (fun r => r.entry.lockId) ∧
      acc'.inputCovTypes = acc.inputCovTypes ++ rs.map (fun r => r.entry.covenantType)
  | [], i, acc, acc', s, s', h => by
    obtain ⟨rfl, rfl⟩ := stateT_pure_eq_ok.mp h
    simp [vaultValue]
  | r :: rs, i, acc, acc', s, s', h => by
    rw [validateSpends] at h
    obtain ⟨vault, s₁, -, h⟩ := stateT_bind_eq_ok.mp h
    obtain ⟨acc₁, s₂, hrec, h⟩ := stateT_bind_eq_ok.mp h
    obtain ⟨hrec', rfl⟩ := stateT_lift_eq_ok.mp hrec
    obtain ⟨hwork, hin, -, hvault, hlocks, htypes, -⟩ := SpendAccum.record_ok hrec'
    obtain ⟨ihwork, ihin, ihvault, ihlocks, ihtypes⟩ := validateSpends_ok h
    refine ⟨?_, ?_, ?_, ?_, ?_⟩
    · rw [ihwork, hwork]
      rfl
    · rw [ihin, hin, List.map_cons, List.sum_cons, Nat.add_assoc]
    · rw [ihvault, hvault, vaultValue, vaultValue, List.map_cons, List.sum_cons, Nat.add_assoc]
    · rw [ihlocks, hlocks, List.append_assoc, List.map_cons, List.singleton_append]
    · rw [ihtypes, htypes, List.append_assoc, List.map_cons, List.singleton_append]

end spend

/-! ## 3. Outputs -/

/-- The bindings a transaction's outputs add to the UTXO set, from index `i` on. -/
def createdFrom (txid : Bytes32) (height : Nat) (createdByCoinbase : Bool)
    (outputs : List (TxOutput × Nat)) : List (Outpoint × UtxoEntry) :=
  (outputs.filter fun p => !isUnspendable p.1.covenantType).map fun p =>
    (⟨txid, UInt32.ofNat p.2⟩, p.1.toEntry height createdByCoinbase)

def createdOutputs (txid : Bytes32) (height : Nat) (createdByCoinbase : Bool)
    (outputs : List TxOutput) : List (Outpoint × UtxoEntry) :=
  createdFrom txid height createdByCoinbase outputs.zipIdx

def valueSum (outputs : List TxOutput) : Nat := (outputs.map fun out => out.value.toNat).sum

theorem createdFrom_append (txid : Bytes32) (height : Nat) (cb : Bool)
    (ps qs : List (TxOutput × Nat)) :
    createdFrom txid height cb (ps ++ qs) =
      createdFrom txid height cb ps ++ createdFrom txid height cb qs := by
  simp [createdFrom]

theorem sum_createdFrom_le (txid : Bytes32) (height : Nat) (cb : Bool) :
    ∀ ps : List (TxOutput × Nat),
      ((createdFrom txid height cb ps).map fun p => p.2.value.toNat).sum ≤
        (ps.map fun p => p.1.value.toNat).sum
  | [] => Nat.le_refl _
  | p :: ps => by
    have ih := sum_createdFrom_le txid height cb ps
    have hone : ((createdFrom txid height cb [p]).map fun p => p.2.value.toNat).sum ≤
        p.1.value.toNat := by
      by_cases hp : isUnspendable p.1.covenantType = true
      · simp [createdFrom, hp]
      · simp [createdFrom, hp, TxOutput.toEntry]
    rw [← List.singleton_append, createdFrom_append, List.map_append, List.sum_append,
      List.map_append, List.sum_append, List.map_singleton, List.sum_singleton]
    exact Nat.add_le_add hone ih

theorem map_zipIdx {α β : Type} (f : α → β) (l : List α) :
    l.zipIdx.map (fun p => f p.1) = l.map f := by
  have h := congrArg (List.map f) (List.zipIdx_map_fst 0 l)
  rwa [List.map_map] at h

theorem sum_createdOutputs_le (txid : Bytes32) (height : Nat) (cb : Bool)
    (outputs : List TxOutput) :
    ((createdOutputs txid height cb outputs).map fun p => p.2.value.toNat).sum ≤
      valueSum outputs := by
  have h := sum_createdFrom_le txid height cb outputs.zipIdx
  rw [map_zipIdx fun out : TxOutput => out.value.toNat] at h
  exact h

/-- The state of the output loop after `done`. -/
structure OutputsAdded (ctx : UtxoApplyContext) (work : UtxoSet) (done : List (TxOutput × Nat))
    (acc : OutputAccum) : Prop where
  work_eq : acc.work = insertAll (createdFrom ctx.txid ctx.height false done) work
  sumOut_eq : acc.sumOut = (done.map fun p => p.1.value.toNat).sum
  createsVault_eq : acc.createsVault = (done.map fun p => p.1.covenantType).any (· == covTypeVault)

theorem addOutput_ok {work : UtxoSet} {done : List (TxOutput × Nat)} {p : TxOutput × Nat}
    {acc acc' : OutputAccum} (hacc : OutputsAdded ctx work done acc)
    (h : addOutput ctx acc p = .ok acc') : OutputsAdded ctx work (done ++ [p]) acc' := by
  simp only [addOutput, bind_eq_ok, Except.ok.injEq] at h
  obtain ⟨sumOut, hsum, rfl⟩ := h
  obtain ⟨hsum, -⟩ := checkedAdd128_ok hsum
  refine ⟨?_, ?_, ?_⟩
  · rw [createdFrom_append, insertAll_append, ← hacc.work_eq]
    by_cases hu : isUnspendable p.1.covenantType = true
    · simp [createdFrom, hu]
    · simp [createdFrom, hu]
  · simp [hsum, hacc.sumOut_eq]
  · simp only [hacc.createsVault_eq, List.map_append, List.any_append, List.map_singleton,
      List.any_cons, List.any_nil, Bool.or_false]

theorem addOutputs_ok {work : UtxoSet} {out : OutputAccum} (h : addOutputs tx ctx work = .ok out) :
    out.work = insertAll (createdOutputs ctx.txid ctx.height false tx.outputs) work ∧
      out.sumOut = valueSum tx.outputs ∧
      out.createsVault = (tx.outputs.map TxOutput.covenantType).any (· == covTypeVault) := by
  have hinit : OutputsAdded ctx work [] ⟨work, 0, false⟩ := ⟨rfl, rfl, rfl⟩
  obtain ⟨h1, h2, h3⟩ := foldlM_invariant addOutput_ok hinit h
  rw [List.nil_append] at h1 h2 h3
  rw [map_zipIdx fun out : TxOutput => out.value.toNat] at h2
  rw [map_zipIdx TxOutput.covenantType] at h3
  exact ⟨h1, h2, h3⟩

/-! ## 4. The whole transaction -/

theorem finishApply_ok {vaults : Nat} {acc : SpendAccum} {out : OutputAccum}
    (h : finishApply vaults acc out = .ok res) :
    res.1 = out.work ∧ res.2.fee + out.sumOut = acc.sumIn ∧ res.2.utxoCount = out.work.len := by
  simp only [finishApply, bind_eq_ok, exists_unit, rejectIf_eq_ok, Except.ok.injEq] at h
  obtain ⟨h1, -, rfl⟩ := h
  exact ⟨rfl, by simp only; omega, rfl⟩

/-- The value the UTXO set holds at the inputs of a transaction. -/
def inputValue (utxos : UtxoSet) (tx : Tx) : Nat :=
  (tx.inputs.map fun input => weightAt (fun e : UtxoEntry => e.value.toNat) utxos
    input.outpoint).sum

theorem resolved_getElem (h : List.Forall₂ (InputResolved ctx) inputs rs) :
    ∀ {i : Nat} {input : TxInput}, inputs[i]? = some input →
      ∃ r, rs[i]? = some r ∧ InputResolved ctx input r := by
  induction h with
  | nil =>
    intro i input hi
    cases hi
  | @cons q r inputs rs hr _ ih =>
    intro i input hi
    cases i with
    | zero =>
      cases hi
      exact ⟨r, rfl, hr⟩
    | succ i => exact ih hi

theorem exists_resolved (h : List.Forall₂ (InputResolved ctx) inputs rs) {input : TxInput}
    (hin : input ∈ inputs) : ∃ r ∈ rs, InputResolved ctx input r := by
  obtain ⟨i, hi⟩ := List.mem_iff_getElem?.mp hin
  obtain ⟨r, hr, hres⟩ := resolved_getElem h hi
  exact ⟨r, List.mem_of_getElem? hr, hres⟩

theorem resolved_covenants (h : List.Forall₂ (InputResolved ctx) inputs rs) :
    ∀ r ∈ rs, checkSpendCovenant r.entry.covenantType r.entry.covenantData = .ok () := by
  induction h with
  | nil =>
    intro r hr
    cases hr
  | cons hq _ ih => exact List.forall_mem_cons.mpr ⟨hq.covenant, ih⟩

theorem resolved_outpoints (h : List.Forall₂ (InputResolved ctx) inputs rs) :
    rs.map ResolvedInput.outpoint = inputs.map TxInput.outpoint := by
  induction h with
  | nil => rfl
  | cons hr _ ih => rw [List.map_cons, List.map_cons, hr.outpoint, ih]

theorem resolved_values (h : List.Forall₂ (InputResolved ctx) inputs rs) :
    rs.map (fun r => r.entry.value.toNat) = inputs.map fun input =>
      weightAt (fun e : UtxoEntry => e.value.toNat) ctx.utxoSet input.outpoint := by
  induction h with
  | nil => rfl
  | cons hr _ ih => rw [List.map_cons, List.map_cons, weightAt_of_lookup hr.lookup, ih]

section apply

variable [Crypto] {tx : Tx} {s s' : SpendState tx}

theorem applyNonCoinbaseTxImpl_stages (h : applyNonCoinbaseTxImpl tx ctx s = .ok (res, s')) :
    ∃ (st : ResolveState) (acc : SpendAccum) (out : OutputAccum) (s₁ s₂ : SpendState tx),
      validateApplyInputs tx ctx = .ok () ∧ resolveInputs tx ctx = .ok st ∧
      validateSpends ctx 0 st.resolved ⟨ctx.utxoSet, 0, 0, [], [], none⟩ s = .ok (acc, s₁) ∧
      addOutputs tx ctx acc.work = .ok out ∧
      validateVaultCreation tx acc out.createsVault = .ok () ∧
      validateVaultSpend ctx st.vaultInputCount acc s₁ = .ok ((), s₂) ∧
      finishApply st.vaultInputCount acc out = .ok res := by
  simp only [applyNonCoinbaseTxImpl, stateT_bind_eq_ok, stateT_lift_eq_ok] at h
  obtain ⟨⟨⟩, _, ⟨h1, rfl⟩, st, _, ⟨h2, rfl⟩, acc, s₁, h3, out, _, ⟨h4, rfl⟩, ⟨⟩, _, ⟨h5, rfl⟩,
    ⟨⟩, s₂, h6, h7, rfl⟩ := h
  exact ⟨st, acc, out, s₁, s₂, h1, h2, h3, h4, h5, h6, h7⟩

/-- **What an applied transaction has done**: distinct inputs, all present, are replaced by the
spendable outputs, and the fee is the difference of the values. -/
theorem applyNonCoinbaseTxImpl_ok (h : applyNonCoinbaseTxImpl tx ctx s = .ok (res, s')) :
    (tx.inputs.map TxInput.outpoint).Nodup ∧
      (∀ input ∈ tx.inputs, input.outpoint ∈ ctx.utxoSet) ∧
      res.1 = insertAll (createdOutputs ctx.txid ctx.height false tx.outputs)
        (eraseAll (tx.inputs.map TxInput.outpoint) ctx.utxoSet) ∧
      res.2.fee + valueSum tx.outputs = inputValue ctx.utxoSet tx ∧
      res.2.utxoCount = res.1.len := by
  obtain ⟨st, acc, out, s₁, s₂, -, h2, h3, h4, -, -, h7⟩ := applyNonCoinbaseTxImpl_stages h
  obtain ⟨hres, -⟩ := resolveInputs_ok h2
  obtain ⟨hwork, hsum, -⟩ := validateSpends_ok h3
  obtain ⟨hout, hsumOut, -⟩ := addOutputs_ok h4
  obtain ⟨hfin, hfee, hcount⟩ := finishApply_ok h7
  rw [resolved_outpoints hres.each] at hwork
  rw [resolved_values hres.each, Nat.zero_add] at hsum
  refine ⟨hres.nodup, ?_, ?_, ?_, ?_⟩
  · intro input hin
    obtain ⟨r, -, hr⟩ := exists_resolved hres.each hin
    exact Finmap.mem_of_lookup_eq_some hr.lookup
  · rw [hfin, hout, hwork]
  · rw [← hsumOut, hfee, hsum]
    rfl
  · rw [hcount, hfin]

end apply

end Rubin.Consensus
