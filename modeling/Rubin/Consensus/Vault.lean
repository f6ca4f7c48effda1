/-
# What a vault transaction can do

`vault.rs` checks the whitelist of a vault when it is created: strictly sorted, without the owner's
lock id.  The parser at spend time does not look again, and the spend rule of `utxo_basic.rs` looks
destinations up by binary search.  This file says what one accepted transaction leaves behind, in
a vault it creates (`created_vault_owned`) and where it spends one (`spent_vault_confined`).  The
owner check compares lock ids only, so by itself it does not exclude that the vault is its own
owner.
-/
import Rubin.Lib.SortedSearch
import Rubin.Consensus.ConnectSpec

namespace Rubin.Consensus

open Rubin.Lib

/-! ## 1. The whitelist -/

instance : IsStrictOrder Bytes32 fun a b => lt32 a b = true where
  irrefl a h := List.lt_irrefl a.toList (of_decide_eq_true h)
  trans _ _ _ hab hbc :=
    decide_eq_true (List.lt_trans (of_decide_eq_true hab) (of_decide_eq_true hbc))

theorem strictlySortedUnique32_iff {l : List Bytes32} :
    strictlySortedUnique32 l = true ↔ l.Pairwise fun a b => lt32 a b = true := by
  induction l with
  | nil => simp [strictlySortedUnique32]
  | cons a l ih =>
    cases l with
    | nil => simp [strictlySortedUnique32]
    | cons b l =>
      rw [strictlySortedUnique32, Bool.and_eq_true, ih]
      constructor
      · rintro ⟨hab, hl⟩
        refine List.pairwise_cons.mpr ⟨?_, hl⟩
        intro c hc
        rcases List.mem_cons.mp hc with rfl | hc
        · exact hab
        · exact IsTrans.trans (r := fun a b => lt32 a b = true) _ _ _ hab
            ((List.pairwise_cons.mp hl).1 c hc)
      · intro h
        obtain ⟨ha, hl⟩ := List.pairwise_cons.mp h
        exact ⟨ha b List.mem_cons_self, hl⟩

theorem binarySearchBase_eq_narrow (list : List Bytes32) (target : Bytes32) (fuel : Nat) :
    ∀ base size, binarySearchBase list target fuel base size =
      narrow (fun mid => lt32 target (list.getD mid zero32)) fuel base size := by
  induction fuel with
  | zero => exact fun _ _ => rfl
  | succ fuel ih =>
    intro base size
    rw [binarySearchBase, narrow]
    split
    · rfl
    · exact ih _ _

theorem mem_of_hashInSorted32 {list : List Bytes32} {target : Bytes32}
    (h : hashInSorted32 list target = true) : target ∈ list := by
  rw [hashInSorted32, beq_iff_eq] at h
  exact List.mem_of_getElem? h

theorem hashInSorted32_iff {list : List Bytes32} {target : Bytes32}
    (hs : strictlySortedUnique32 list = true) :
    hashInSorted32 list target = true ↔ target ∈ list := by
  rw [hashInSorted32, binarySearchBase_eq_narrow]
  refine narrow_finds_iff (strictlySortedUnique32_iff.mp hs) ?_
  intro i a hi
  rw [List.getD_eq_getElem?_getD, hi, Option.getD_some]

/-- A whitelist as `parse_vault_covenant_data` accepts it. -/
structure VaultCovenant.Canonical (v : VaultCovenant) : Prop where
  sorted : strictlySortedUnique32 v.whitelist = true
  no_owner : v.ownerLockId ∉ v.whitelist

theorem parseVaultCovenantData_ok {data : Bytes} {v : VaultCovenant}
    (h : parseVaultCovenantData data = .ok v) :
    parseVaultCovenantDataForSpend data = .ok v ∧ v.Canonical := by
  simp only [parseVaultCovenantData, parseVaultCovenantDataForSpend, parseVaultCovenantDataInner,
    bind_eq_ok, exists_unit, rejectIf_eq_ok, Except.ok.injEq, true_and, false_and,
    Bool.false_eq_true, not_false_eq_true] at h ⊢
  obtain ⟨h1, h2, h3, h4, h5, h6, h7, h8, hsorted, howner, rfl⟩ := h
  have hs := Bool.not_eq_false _ ▸ hsorted
  refine ⟨⟨h1, h2, h3, h4, h5, h6, h7, h8, rfl⟩, hs, ?_⟩
  intro hmem
  exact howner ((hashInSorted32_iff hs).mpr hmem)

/-! ## 2. The inputs of an accepted transaction -/

variable {ctx : UtxoApplyContext} {rs : List ResolvedInput} {r : ResolvedInput}

theorem exists_input {inputs : List TxInput} (h : List.Forall₂ (InputResolved ctx) inputs rs)
    (hr : r ∈ rs) : ∃ input ∈ inputs, InputResolved ctx input r := by
  induction h with
  | nil => cases hr
  | cons hq _ ih =>
    rcases List.mem_cons.mp hr with rfl | hr
    · exact ⟨_, List.mem_cons_self, hq⟩
    · obtain ⟨input, hin, hres⟩ := ih hr
      exact ⟨input, List.mem_cons_of_mem _ hin, hres⟩

/-- The input takes a vault out of `utxos`. -/
def TxInput.spendsVault (utxos : UtxoSet) (input : TxInput) : Bool :=
  (utxos.lookup input.outpoint).any fun entry => entry.covenantType == covTypeVault

theorem InputResolved.spendsVault_eq {input : TxInput} (h : InputResolved ctx input r) :
    input.spendsVault ctx.utxoSet = r.isVault := by
  rw [TxInput.spendsVault, h.lookup, Option.any_some]
  rfl

theorem countP_spendsVault {inputs : List TxInput} (h : List.Forall₂ (InputResolved ctx) inputs rs)
    :
    inputs.countP (TxInput.spendsVault ctx.utxoSet) = rs.countP ResolvedInput.isVault := by
  induction h with
  | nil => rfl
  | cons hr _ ih => rw [List.countP_cons, List.countP_cons, ih, hr.spendsVault_eq]

section apply

variable [Crypto] {tx : Tx} {ctx : UtxoApplyContext}

theorem validateSpends_no_vault : ∀ {i : Nat} {acc acc' : SpendAccum}
    {s s' : SpendState tx}, validateSpends ctx i rs acc s = .ok (acc', s') →
      rs.countP ResolvedInput.isVault = 0 → acc'.vaultSpend = acc.vaultSpend := by
  induction rs with
  | nil =>
    intro i acc acc' s s' h _
    obtain ⟨rfl, -⟩ := stateT_pure_eq_ok.mp h
    rfl
  | cons r rs ih =>
    intro i acc acc' s s' h hcount
    obtain ⟨vault, s₁, hstep, hmore⟩ := stateT_bind_eq_ok.mp h
    obtain ⟨acc₁, s₂, hrec, hrest⟩ := stateT_bind_eq_ok.mp hmore
    obtain ⟨-, -, -, -, -, -, hvault⟩ := SpendAccum.record_ok (stateT_lift_eq_ok.mp hrec).1
    rw [List.countP_cons] at hcount
    have hr : r.isVault = false := by
      cases hr : r.isVault with
      | false => rfl
      | true => rw [hr, if_pos rfl] at hcount; omega
    have hkept := validateResolvedSpend_vault hstep
    rw [hr, if_neg Bool.false_ne_true] at hkept
    rw [ih hrest (by omega), hvault, hkept]

theorem validateSpends_captured :
    ∀ {i : Nat} {acc acc' : SpendAccum} {s s' : SpendState tx},
      validateSpends ctx i rs acc s = .ok (acc', s') → r ∈ rs → r.isVault = true →
      rs.countP ResolvedInput.isVault ≤ 1 →
      ∃ j captured, VaultSpendState.capture r j = .ok captured ∧
        acc'.vaultSpend = some captured := by
  induction rs with
  | nil =>
    intro i acc acc' s s' _ hr
    cases hr
  | cons q rs ih =>
    intro i acc acc' s s' h hr hvault hcount
    obtain ⟨vault, s₁, hstep, hmore⟩ := stateT_bind_eq_ok.mp h
    obtain ⟨acc₁, s₂, hrec, hrest⟩ := stateT_bind_eq_ok.mp hmore
    obtain ⟨-, -, -, -, -, -, hacc⟩ := SpendAccum.record_ok (stateT_lift_eq_ok.mp hrec).1
    rw [List.countP_cons] at hcount
    rcases List.mem_cons.mp hr with rfl | hr
    · rw [hvault, if_pos rfl] at hcount
      have hcap := validateResolvedSpend_vault hstep
      rw [hvault, if_pos rfl] at hcap
      obtain ⟨captured, hcap, rfl⟩ := hcap
      exact ⟨_, captured, hcap, by rw [validateSpends_no_vault hrest (by omega), hacc]⟩
    · exact ih hrest hr hvault (by omega)

/-! ## 3. Creation -/

/-- The covenants that can own a vault. -/
def UtxoEntry.CanOwn (entry : UtxoEntry) : Prop :=
  entry.covenantType = covTypeP2pk ∨ entry.covenantType = covTypeMultisig

theorem exists_of_hasOwnerAuthorizedInput {owner : Bytes32}
    (h : hasOwnerAuthorizedInput (rs.map fun r => r.entry.lockId)
      (rs.map fun r => r.entry.covenantType) owner = true) :
    ∃ r ∈ rs, r.entry.lockId = owner ∧ r.entry.CanOwn := by
  rw [hasOwnerAuthorizedInput, List.zip_map', List.any_map, List.any_eq_true] at h
  obtain ⟨r, hr, hown⟩ := h
  simp only [Function.comp_apply, Bool.and_eq_true, Bool.or_eq_true, beq_iff_eq] at hown
  exact ⟨r, hr, hown⟩

/-- **A vault that an accepted transaction creates** parses strictly and has its owner among the
inputs. -/
theorem created_vault_owned {s s' : SpendState tx} {res : UtxoSet × UtxoApplySummary}
    (h : applyNonCoinbaseTxImpl tx ctx s = .ok (res, s')) {out : TxOutput}
    (hout : out ∈ tx.outputs) (hvault : out.covenantType = covTypeVault) :
    ∃ v, parseVaultCovenantData out.covenantData = .ok v ∧
      ∃ input ∈ tx.inputs, ∃ owner, ctx.utxoSet.lookup input.outpoint = some owner ∧
        owner.lockId = v.ownerLockId ∧ owner.CanOwn := by
  obtain ⟨st, acc, outs, s₁, s₂, -, h2, h3, h4, h5, -, -⟩ := applyNonCoinbaseTxImpl_stages h
  obtain ⟨hres, -⟩ := resolveInputs_ok h2
  obtain ⟨-, -, -, hlocks, htypes⟩ := validateSpends_ok h3
  obtain ⟨-, -, hcreates⟩ := addOutputs_ok h4
  have hany : outs.createsVault = true := by
    rw [hcreates, List.any_eq_true]
    exact ⟨out.covenantType, List.mem_map_of_mem hout, beq_iff_eq.mpr hvault⟩
  rw [validateVaultCreation, if_pos hany, forEach_eq_ok] at h5
  have hcheck := h5 out hout
  rw [validateVaultCreationOutput, if_neg (not_not.mpr hvault), bind_eq_ok] at hcheck
  obtain ⟨v, hv, hauth⟩ := hcheck
  rw [rejectIf_eq_ok, Bool.not_eq_false, hlocks, htypes, List.nil_append, List.nil_append] at hauth
  obtain ⟨r, hr, hlock, hown⟩ := exists_of_hasOwnerAuthorizedInput hauth
  obtain ⟨input, hin, hinput⟩ := exists_input hres.each hr
  exact ⟨v, hv, input, hin, r.entry, hinput.lookup, hlock, hown⟩

/-! ## 4. Spending -/

/-- What holds of a transaction that spends a vault with covenant `v` and value `value`. -/
structure VaultConfined (utxos : UtxoSet) (tx : Tx) (value : UInt64) (v : VaultCovenant) : Prop where
  /-- One vault is spent. -/
  one : tx.inputs.countP (TxInput.spendsVault utxos) = 1
  /-- Every other input carries the owner's lock id. -/
  others : ∀ input ∈ tx.inputs, input.spendsVault utxos = false →
    ∃ entry, utxos.lookup input.outpoint = some entry ∧ entry.lockId = v.ownerLockId
  /-- No output is a vault. -/
  no_vault : ∀ out ∈ tx.outputs, out.covenantType ≠ covTypeVault
  /-- Every output goes to a destination of the list. -/
  listed : ∀ out ∈ tx.outputs,
    sha3_256 (outputDescriptorBytes out.covenantType out.covenantData) ∈ v.whitelist
  /-- The value of the vault is not spent on fees. -/
  value_le : value.toNat ≤ valueSum tx.outputs

omit [Crypto] in
theorem vaultValue_ge (hr : r ∈ rs) (hv : r.entry.covenantType = covTypeVault) :
    r.entry.value.toNat ≤ vaultValue rs := by
  have hle := List.single_le_sum (l := rs.map fun r => if r.entry.covenantType = covTypeVault then
    r.entry.value.toNat else 0) (by simp) _ (List.mem_map_of_mem hr)
  rwa [if_pos hv] at hle

/-- **A vault that an accepted transaction spends.**  Some input carries the owner's lock id, but
nothing here says that it is not the vault. -/
theorem spent_vault_confined {s s' : SpendState tx} {res : UtxoSet × UtxoApplySummary}
    (h : applyNonCoinbaseTxImpl tx ctx s = .ok (res, s')) {vin : TxInput} {entry : UtxoEntry}
    (hin : vin ∈ tx.inputs) (hlook : ctx.utxoSet.lookup vin.outpoint = some entry)
    (hvault : entry.covenantType = covTypeVault) :
    ∃ v, parseVaultCovenantDataForSpend entry.covenantData = .ok v ∧
      VaultConfined ctx.utxoSet tx entry.value v ∧
      ∃ input ∈ tx.inputs, ∃ owner, ctx.utxoSet.lookup input.outpoint = some owner ∧
        owner.lockId = v.ownerLockId := by
  obtain ⟨st, acc, outs, s₁, s₂, -, h2, h3, h4, -, h6, h7⟩ := applyNonCoinbaseTxImpl_stages h
  obtain ⟨hres, -⟩ := resolveInputs_ok h2
  obtain ⟨-, -, hsum, hlocks, htypes⟩ := validateSpends_ok h3
  obtain ⟨-, hsumOut, -⟩ := addOutputs_ok h4
  obtain ⟨r, hr, hinput⟩ := exists_resolved hres.each hin
  have hentry : r.entry = entry := Option.some.inj (hinput.lookup.symm.trans hlook)
  subst hentry
  have hisVault : r.isVault = true := beq_iff_eq.mpr hvault
  have hone : st.vaultInputCount = 1 := by
    have hpos : 0 < st.resolved.countP ResolvedInput.isVault :=
      List.countP_pos_iff.mpr ⟨r, hr, hisVault⟩
    have hle := hres.vaults_le
    have heq := hres.vaults
    omega
  obtain ⟨j, captured, hcap, hspend⟩ :=
    validateSpends_captured h3 hr hisVault (hres.vaults ▸ hres.vaults_le)
  simp only [VaultSpendState.capture, bind_eq_ok, Except.ok.injEq] at hcap
  obtain ⟨v, hv, rfl⟩ := hcap
  simp only [validateVaultSpend, if_pos hone, stateT_bind_eq_ok, stateT_lift_eq_ok, okOr_eq_ok,
    hspend, Option.some.injEq] at h6
  obtain ⟨_, _, ⟨rfl, rfl⟩, ⟨⟩, _, ⟨howner, rfl⟩, ⟨⟩, _, ⟨hrec, rfl⟩, ⟨⟩, s₃, -, hdest, -⟩ := h6
  simp only [VaultSpendState.validateOwnerAndSponsor, bind_eq_ok, exists_unit, rejectIf_eq_ok,
    Bool.not_eq_false, hlocks, htypes, List.nil_append] at howner
  rw [VaultSpendState.validateNoRecursion, rejectIf_eq_ok] at hrec
  rw [VaultSpendState.validateDestinations, forEach_eq_ok] at hdest
  simp only [finishApply, bind_eq_ok, exists_unit, rejectIf_eq_ok] at h7
  obtain ⟨-, hvalue, -⟩ := h7
  refine ⟨v, hv, ⟨?_, ?_, ?_, ?_, ?_⟩, ?_⟩
  · rw [countP_spendsVault hres.each, ← hres.vaults]
    exact hone
  · intro input hmem hnot
    obtain ⟨q, hq, hqres⟩ := exists_resolved hres.each hmem
    rw [hqres.spendsVault_eq] at hnot
    have hall := howner.2
    rw [nonVaultInputsOwnedBy, List.zip_map', List.all_map, List.all_eq_true] at hall
    have hown := hall q hq
    simp only [Function.comp_apply, Bool.or_eq_true, beq_iff_eq] at hown
    rcases hown with hown | hown
    · exact absurd (beq_iff_eq.mpr hown) (by rw [← ResolvedInput.isVault, hnot]; exact Bool.false_ne_true)
    · exact ⟨q.entry, hqres.lookup, hown⟩
  · intro out hout hov
    exact hrec ⟨out, hout, hov⟩
  · intro out hout
    have hd := hdest out hout
    simp only [VaultSpendState.validateDestination, bind_eq_ok, exists_unit, rejectIf_eq_ok,
      Bool.not_eq_false] at hd
    exact mem_of_hashInSorted32 hd.2
  · have hge := vaultValue_ge hr hvault
    rw [not_and, not_lt, hsum, hsumOut, Nat.zero_add] at hvalue
    exact hge.trans (hvalue hone)
  · have hmem := howner.1
    rw [hasOwnerLockInput, List.contains_iff_mem, List.mem_map] at hmem
    obtain ⟨q, hq, hlock⟩ := hmem
    obtain ⟨input, hinp, hqres⟩ := exists_input hres.each hq
    exact ⟨input, hinp, q.entry, hqres.lookup, hlock⟩

end apply

end Rubin.Consensus
