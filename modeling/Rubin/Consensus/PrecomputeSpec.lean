/-
# The precompute pass beside the sequential application, one transaction

Both walk the inputs of a transaction, and both begin an input with the same checks
(`resolveInput_eq`).  After these the sequential path checks the covenant and the witness range of
the input at once; the precompute pass only counts slots and checks the range at the end.
-/
import Rubin.Consensus.Authorisation
import Rubin.Consensus.ConnectSpec
import Rubin.Consensus.Precompute

namespace Rubin.Consensus

open Rubin.Lib

/-! ## 1. Inputs -/

/-- What the sequential path does with an input after the checks it shares with precompute. -/
def finishResolveInput (tx : Tx) (st : ResolveState) (p : UtxoEntry × Outpoint) :
    Except TxError ResolveState := do
  let vaultInputCount ← validateInputCovenant st.vaultInputCount p.1
  let r ← recordResolvedInput tx st.witnessCursor p.1 p.2
  .ok { vaultInputCount, witnessCursor := st.witnessCursor + r.slotCount,
        seenInputs := p.2 :: st.seenInputs, resolved := st.resolved ++ [r] }

/-- **The common start.** -/
theorem resolveInput_eq (tx : Tx) (ctx : UtxoApplyContext) (st : ResolveState) (input : TxInput) :
    resolveInput tx ctx st input =
      resolvePrecomputeInput input st.seenInputs ctx.utxoSet ctx.height >>=
        finishResolveInput tx st := by
  have havail : validateInputAvailability = validatePrecomputeEntry := rfl
  simp only [resolveInput, resolvePrecomputeInput, finishResolveInput, havail, bind_assoc, ok_bind]

variable {overlay : UtxoSet} {height : Nat} {p : UtxoEntry × Outpoint}
  {out : CollectedPrecomputeInputs} {st : ResolveState} {tx : Tx} {ctx : UtxoApplyContext}
  {outputs : List TxOutput}

theorem resolvePrecomputeInput_ok {input : TxInput} {seen : List Outpoint}
    (h : resolvePrecomputeInput input seen overlay height = .ok p) :
    overlay.lookup p.2 = some p.1 ∧ p.2 = input.outpoint ∧
      isUnspendable p.1.covenantType = false := by
  simp only [resolvePrecomputeInput, validatePrecomputeEntry, bind_eq_ok, exists_unit,
    rejectIf_eq_ok, okOr_eq_ok, Except.ok.injEq] at h
  obtain ⟨-, -, entry, hlook, ⟨hty, -⟩, rfl⟩ := h
  exact ⟨hlook, rfl, by simpa [isUnspendable] using hty⟩

theorem CollectedPrecomputeInputs.add_eq_ok {out' : CollectedPrecomputeInputs} {entry : UtxoEntry}
    {op : Outpoint} :
    out.add entry op = .ok out' ↔ ∃ slots,
      witnessSlots entry.covenantType entry.covenantData = .ok slots ∧ slots ≠ 0 ∧
      out.totalWitnessSlots + slots < 2 ^ 64 ∧ out.sumIn + entry.value.toNat < 2 ^ 128 ∧
      out' = { out with totalWitnessSlots := out.totalWitnessSlots + slots
                        sumIn := out.sumIn + entry.value.toNat
                        resolvedInputs := out.resolvedInputs ++ [entry]
                        inputOutpoints := out.inputOutpoints ++ [op] } := by
  simp only [CollectedPrecomputeInputs.add, precomputeWitnessSlots, addWitnessSlots, bind_eq_ok,
    exists_unit, rejectIf_eq_ok, Except.ok.injEq, not_le]
  constructor
  · rintro ⟨slots, ⟨_, hslots, hne, rfl⟩, _, ⟨htotal, rfl⟩, hsum, rfl⟩
    exact ⟨_, hslots, hne, htotal, hsum, rfl⟩
  · rintro ⟨slots, hslots, hne, htotal, hsum, rfl⟩
    exact ⟨slots, ⟨slots, hslots, hne, rfl⟩, _, ⟨htotal, rfl⟩, hsum, rfl⟩

/-- The two loops have gone past the same inputs. -/
structure Tracks (st : ResolveState) (out : CollectedPrecomputeInputs) : Prop where
  entries : out.resolvedInputs = st.resolved.map ResolvedInput.entry
  outpoints : out.inputOutpoints = st.resolved.map ResolvedInput.outpoint
  slots : out.totalWitnessSlots = st.witnessCursor
  sum : out.sumIn = (st.resolved.map fun r => r.entry.value.toNat).sum
  going : out.stoppedAtCoreSimplicity = false

theorem sum_value_le (rs : List ResolvedInput) :
    (rs.map fun r => r.entry.value.toNat).sum ≤ rs.length * (2 ^ 64 - 1) := by
  induction rs with
  | nil => simp
  | cons r rs ih =>
    have hv := r.entry.value.toNat_lt
    rw [List.map_cons, List.sum_cons, List.length_cons, Nat.succ_mul]
    omega

theorem Tracks.sum_lt (h : Tracks st out) (hlen : st.resolved.length < 2 ^ 64) (v : UInt64) :
    out.sumIn + v.toNat < 2 ^ 128 := by
  have hv := v.toNat_lt
  have hsum := sum_value_le st.resolved
  rw [← h.sum] at hsum
  have hmul : st.resolved.length * (2 ^ 64 - 1) ≤ (2 ^ 64 - 1) * (2 ^ 64 - 1) :=
    Nat.mul_le_mul_right _ (by omega)
  omega

theorem Tracks.push (h : Tracks st out) (count : Nat) (seen : List Outpoint) (r : ResolvedInput) :
    Tracks ⟨count, st.witnessCursor + r.slotCount, seen, st.resolved ++ [r]⟩
      { out with totalWitnessSlots := out.totalWitnessSlots + r.slotCount
                 sumIn := out.sumIn + r.entry.value.toNat
                 resolvedInputs := out.resolvedInputs ++ [r.entry]
                 inputOutpoints := out.inputOutpoints ++ [r.outpoint] } where
  entries := by simp [h.entries]
  outpoints := by simp [h.outpoints]
  slots := by simp [h.slots]
  sum := by simp [h.sum]
  going := h.going

theorem finishResolveInput_ok {st' : ResolveState} (h : finishResolveInput tx st p = .ok st') :
    ∃ count r, validateInputCovenant st.vaultInputCount p.1 = .ok count ∧
      recordResolvedInput tx st.witnessCursor p.1 p.2 = .ok r ∧
      st' = { vaultInputCount := count, witnessCursor := st.witnessCursor + r.slotCount,
              seenInputs := p.2 :: st.seenInputs, resolved := st.resolved ++ [r] } := by
  simp only [finishResolveInput, bind_eq_ok, Except.ok.injEq] at h
  obtain ⟨count, hcount, r, hr, rfl⟩ := h
  exact ⟨count, r, hcount, hr, rfl⟩

theorem Tracks.add_of_finish {st' : ResolveState} (ht : Tracks st out)
    (hwit : tx.witness.length < 2 ^ 64) (hlen : st.resolved.length < 2 ^ 64)
    (h : finishResolveInput tx st p = .ok st') :
    p.1.covenantType ≠ covTypeCoreSimplicity ∧ st'.seenInputs = p.2 :: st.seenInputs ∧
      st'.resolved.length = st.resolved.length + 1 ∧
      ∃ out', out.add p.1 p.2 = .ok out' ∧ Tracks st' out' := by
  obtain ⟨entry, op⟩ := p
  obtain ⟨count, r, hcount, hr, rfl⟩ := finishResolveInput_ok h
  obtain ⟨-, -, hsimplicity, -⟩ := validateInputCovenant_ok hcount
  obtain ⟨rfl, rfl, -, hne, hslots, hfit⟩ := recordResolvedInput_ok hr
  exact ⟨hsimplicity, rfl, by simp, _, CollectedPrecomputeInputs.add_eq_ok.mpr
    ⟨r.slotCount, hslots, hne, by rw [ht.slots]; omega, ht.sum_lt hlen _, rfl⟩, ht.push _ _ r⟩

/-- **Sequential to precompute, the input loop.** -/
theorem collectFrom_of_resolve (hwit : tx.witness.length < 2 ^ 64) :
    ∀ {inputs : List TxInput} {st st' : ResolveState}
    {out : CollectedPrecomputeInputs}, Tracks st out →
    st.resolved.length + inputs.length ≤ 2 ^ 64 →
    inputs.foldlM (resolveInput tx ctx) st = .ok st' →
    ∃ out', collectFrom ctx.utxoSet ctx.height inputs st.seenInputs out = .ok out' ∧
      Tracks st' out'
  | [], st, st', out, ht, _, h => by
    cases h
    exact ⟨out, rfl, ht⟩
  | input :: inputs, st, st', out, ht, hlen, h => by
    rw [List.foldlM_cons, bind_eq_ok] at h
    obtain ⟨st₁, h1, h2⟩ := h
    rw [resolveInput_eq, bind_eq_ok] at h1
    obtain ⟨p, hp, h1⟩ := h1
    rw [List.length_cons] at hlen
    obtain ⟨hsimplicity, hseen, hlen₁, out₁, hadd, ht₁⟩ := ht.add_of_finish hwit (by omega) h1
    obtain ⟨out', hout', ht'⟩ := collectFrom_of_resolve hwit ht₁ (by omega) h2
    refine ⟨out', ?_, ht'⟩
    rw [collectFrom, hp, ok_bind, if_neg hsimplicity, hadd, ok_bind, ← hseen]
    exact hout'

theorem collectFrom_cons {input : TxInput} {inputs : List TxInput} {seen : List Outpoint}
    {out' : CollectedPrecomputeInputs}
    (h : collectFrom overlay height (input :: inputs) seen out = .ok out')
    (hgo : out'.stoppedAtCoreSimplicity = false) :
    ∃ p out₁, resolvePrecomputeInput input seen overlay height = .ok p ∧
      p.1.covenantType ≠ covTypeCoreSimplicity ∧ out.add p.1 p.2 = .ok out₁ ∧
      collectFrom overlay height inputs (p.2 :: seen) out₁ = .ok out' := by
  rw [collectFrom, bind_eq_ok] at h
  obtain ⟨p, hp, h⟩ := h
  split at h
  · cases h
    cases hgo
  · rename_i hne
    rw [bind_eq_ok] at h
    obtain ⟨out₁, hadd, hrest⟩ := h
    exact ⟨p, out₁, hp, hne, hadd, hrest⟩

theorem collectFrom_slots_le : ∀ {inputs : List TxInput}
    {seen : List Outpoint} {out out' : CollectedPrecomputeInputs},
    collectFrom overlay height inputs seen out = .ok out' →
    out.totalWitnessSlots ≤ out'.totalWitnessSlots
  | [], seen, out, out', h => by
    cases h
    exact Nat.le_refl _
  | input :: inputs, seen, out, out', h => by
    rw [collectFrom, bind_eq_ok] at h
    obtain ⟨p, -, h⟩ := h
    split at h
    · cases h
      exact Nat.le_refl _
    · rw [bind_eq_ok] at h
      obtain ⟨out₁, hadd, hrest⟩ := h
      obtain ⟨slots, -, -, -, -, rfl⟩ := CollectedPrecomputeInputs.add_eq_ok.mp hadd
      exact le_trans (Nat.le_add_right _ _) (collectFrom_slots_le hrest)

theorem collectFrom_entries : ∀ {inputs : List TxInput}
    {seen : List Outpoint} {out out' : CollectedPrecomputeInputs},
    collectFrom overlay height inputs seen out = .ok out' →
    out'.stoppedAtCoreSimplicity = false → ∀ e ∈ out.resolvedInputs, e ∈ out'.resolvedInputs
  | [], seen, out, out', h, _ => by
    cases h
    exact fun _ he => he
  | input :: inputs, seen, out, out', h, hgo => by
    obtain ⟨p, out₁, -, -, hadd, hrest⟩ := collectFrom_cons h hgo
    obtain ⟨slots, -, -, -, -, rfl⟩ := CollectedPrecomputeInputs.add_eq_ok.mp hadd
    exact fun e he => collectFrom_entries hrest hgo e (List.mem_append_left _ he)

/-- An entry without vault rules whose covenant data parse. -/
def PlainEntry (e : UtxoEntry) : Prop :=
  e.covenantType ≠ covTypeVault ∧ checkSpendCovenant e.covenantType e.covenantData = .ok ()

theorem validateInputCovenant_of_plain {count : Nat} {e : UtxoEntry} (h : PlainEntry e)
    (hne : e.covenantType ≠ covTypeCoreSimplicity) : validateInputCovenant count e = .ok count := by
  simp only [validateInputCovenant, if_neg h.1, rejectIf_neg (not_and.mpr fun hv _ => h.1 hv),
    rejectIf_neg hne, h.2, ok_bind]

/-- **Precompute to sequential, the input loop**, where no vault is spent. -/
theorem resolve_of_collectFrom : ∀ {inputs : List TxInput}
    {st : ResolveState} {out out' : CollectedPrecomputeInputs}, Tracks st out →
    collectFrom ctx.utxoSet ctx.height inputs st.seenInputs out = .ok out' →
    out'.stoppedAtCoreSimplicity = false → out'.totalWitnessSlots ≤ tx.witness.length →
    (∀ e ∈ out'.resolvedInputs, PlainEntry e) →
    ∃ st', inputs.foldlM (resolveInput tx ctx) st = .ok st' ∧ Tracks st' out' ∧
      st'.vaultInputCount = st.vaultInputCount
  | [], st, out, out', ht, h, _, _, _ => by
    cases h
    exact ⟨st, rfl, ht, rfl⟩
  | input :: inputs, st, out, out', ht, h, hgo, hfit, hplain => by
    obtain ⟨p, out₁, hp, hne, hadd, hrest⟩ := collectFrom_cons h hgo
    obtain ⟨slots, hslots, hpos, -, -, rfl⟩ := CollectedPrecomputeInputs.add_eq_ok.mp hadd
    have hle := collectFrom_slots_le hrest
    have hp₁ : PlainEntry p.1 := hplain _ (collectFrom_entries hrest hgo _ (by simp))
    have hcursor : ¬ st.witnessCursor + slots > tx.witness.length := by
      have := ht.slots
      simp only at hle
      omega
    have hrec : recordResolvedInput tx st.witnessCursor p.1 p.2 =
        .ok ⟨p.1, st.witnessCursor, slots, p.2⟩ := by
      simp only [recordResolvedInput, hslots, ok_bind, rejectIf_neg hpos, rejectIf_neg hcursor]
    have ht₁ := ht.push st.vaultInputCount (p.2 :: st.seenInputs)
      ⟨p.1, st.witnessCursor, slots, p.2⟩
    obtain ⟨st', hst', ht', hcount⟩ := resolve_of_collectFrom ht₁ hrest hgo hfit hplain
    refine ⟨st', ?_, ht', hcount⟩
    rw [List.foldlM_cons, resolveInput_eq, hp, ok_bind, finishResolveInput,
      validateInputCovenant_of_plain hp₁ hne, ok_bind, hrec, ok_bind, ok_bind]
    exact hst'

/-! ## 2. Outputs -/

theorem valueSum_append (xs ys : List TxOutput) :
    valueSum (xs ++ ys) = valueSum xs + valueSum ys := by
  simp [valueSum]

theorem valueSum_lt (h : outputs.length ≤ 2 ^ 64) : valueSum outputs < 2 ^ 128 := by
  have hle : ∀ l : List TxOutput, valueSum l ≤ l.length * (2 ^ 64 - 1) := by
    intro l
    induction l with
    | nil => simp [valueSum]
    | cons out l ih =>
      have hv := out.value.toNat_lt
      rw [← List.singleton_append, valueSum_append, List.length_append, Nat.add_mul]
      simp only [valueSum, List.map_singleton, List.sum_singleton, List.length_singleton] at ih ⊢
      omega
  have hmul : outputs.length * (2 ^ 64 - 1) ≤ 2 ^ 64 * (2 ^ 64 - 1) := Nat.mul_le_mul_right _ h
  have := hle outputs
  omega

theorem sumPrecomputeOutputs_eq (hlen : outputs.length ≤ 2 ^ 64) :
    outputs.foldlM addPrecomputeOutput 0 = .ok (valueSum outputs) := by
  obtain ⟨_, hrun, rfl⟩ : ∃ n, outputs.foldlM addPrecomputeOutput 0 = .ok n ∧
      n = valueSum outputs := by
    refine foldlM_progress (fun done n => n = valueSum done) rfl ?_
    rintro done out rest _ hl rfl
    have hlt := valueSum_lt hlen
    rw [hl, ← List.singleton_append, valueSum_append, valueSum_append] at hlt
    have hone : valueSum [out] = out.value.toNat := by simp [valueSum]
    refine ⟨_, ?_, rfl⟩
    rw [addPrecomputeOutput, rejectIf_neg (by omega), ok_bind, valueSum_append, hone]
  exact hrun

theorem computePrecomputeFee_eq_ok {sumIn fee : Nat} (hlen : outputs.length ≤ 2 ^ 64) :
    computePrecomputeFee sumIn outputs = .ok fee ↔ fee + valueSum outputs = sumIn := by
  simp only [computePrecomputeFee, sumPrecomputeOutputs_eq hlen, ok_bind, bind_eq_ok, exists_unit,
    rejectIf_eq_ok, Except.ok.injEq]
  omega

theorem computePrecomputeFee_of_lt {sumIn : Nat} (hlen : outputs.length ≤ 2 ^ 64)
    (h : sumIn < valueSum outputs) :
    computePrecomputeFee sumIn outputs =
      .error ⟨.txErrValueConservation, "outputs exceed inputs"⟩ := by
  rw [computePrecomputeFee, sumPrecomputeOutputs_eq hlen, ok_bind, rejectIf_pos h]
  rfl

theorem addOutputs_exists (ctx : UtxoApplyContext) (work : UtxoSet)
    (hlen : tx.outputs.length ≤ 2 ^ 64) : ∃ out, addOutputs tx ctx work = .ok out := by
  obtain ⟨out, hrun, -⟩ : ∃ out, addOutputs tx ctx work = .ok out ∧
      OutputsAdded ctx work tx.outputs.zipIdx out := by
    refine foldlM_progress (OutputsAdded ctx work) ⟨rfl, rfl, rfl⟩ ?_
    intro done p rest acc hl hacc
    have hlt := valueSum_lt hlen
    have hsum : valueSum tx.outputs = (done.map fun p => p.1.value.toNat).sum +
        (p.1.value.toNat + (rest.map fun p => p.1.value.toNat).sum) := by
      rw [valueSum, ← map_zipIdx fun out : TxOutput => out.value.toNat, hl, List.map_append,
        List.sum_append, List.map_cons, List.sum_cons]
    have hadd : ∃ acc', addOutput ctx acc p = .ok acc' := by
      simp only [addOutput, checkedAdd128, hacc.sumOut_eq]
      rw [rejectIf_neg (by omega), ok_bind, ok_bind]
      exact ⟨_, rfl⟩
    obtain ⟨acc', hacc'⟩ := hadd
    exact ⟨acc', hacc', addOutput_ok hacc hacc'⟩
  exact ⟨out, hrun⟩

theorem updatePrecomputeOverlay_eq (overlay : UtxoSet) (txid : Bytes32) (ops : List Outpoint)
    (height : Nat) (hlen : tx.outputs.length ≤ 2 ^ 32) :
    updatePrecomputeOverlay overlay tx txid ops height =
      .ok (insertAll (createdOutputs txid height false tx.outputs) (eraseAll ops overlay)) := by
  obtain ⟨_, hrun, rfl⟩ : ∃ o, updatePrecomputeOverlay overlay tx txid ops height = .ok o ∧
      o = insertAll (createdOutputs txid height false tx.outputs) (eraseAll ops overlay) := by
    refine foldlM_progress (fun done o =>
      o = insertAll (createdFrom txid height false done) (eraseAll ops overlay)) rfl ?_
    rintro done p rest _ hl rfl
    have hidx : p.2 < tx.outputs.length := by
      have hp : p ∈ tx.outputs.zipIdx := by rw [hl]; simp
      have := List.snd_lt_of_mem_zipIdx hp
      omega
    rw [createdFrom_append, insertAll_append]
    by_cases hu : p.1.covenantType = covTypeAnchor ∨ p.1.covenantType = covTypeDaCommit
    · have hun : isUnspendable p.1.covenantType = true := by simpa [isUnspendable] using hu
      refine ⟨_, if_pos hu, ?_⟩
      simp [createdFrom, hun]
    · have hun : isUnspendable p.1.covenantType = false := by simpa [isUnspendable] using hu
      refine ⟨_, ?_, rfl⟩
      rw [addPrecomputeOverlay, if_neg hu, rejectIf_neg (by omega), ok_bind]
      simp [createdFrom, hun]
  exact hrun

/-! ## 3. One transaction -/

theorem precomputeTxContext_eq_ok {i : Nat} {txid : Bytes32} {ptc : PrecomputedTxContext} :
    precomputeTxContext i tx txid overlay height = .ok ptc ↔ ∃ out fee,
      tx.txNonce ≠ 0 ∧ tx.inputs ≠ [] ∧ validateTxCovenantsGenesis tx height none = .ok () ∧
      collectPrecomputeInputs tx overlay height = .ok out ∧
      out.stoppedAtCoreSimplicity = false ∧ out.totalWitnessSlots = tx.witness.length ∧
      computePrecomputeFee out.sumIn tx.outputs = .ok fee ∧
      ptc = ⟨i, i, txid, out.resolvedInputs, 0, out.totalWitnessSlots, out.inputOutpoints, fee⟩ := by
  simp only [precomputeTxContext, precomputeWitnessBounds, bind_eq_ok, exists_unit, rejectIf_eq_ok,
    Except.ok.injEq]
  constructor
  · rintro ⟨h1, h2, h3, out, h4, _, ⟨h5, h6, rfl⟩, h7, fee, h8, rfl⟩
    have hgo : out.stoppedAtCoreSimplicity = false := by simpa using h7
    refine ⟨out, fee, h1, h2, h3, h4, hgo, ?_, h8, rfl⟩
    by_contra hne
    exact h6 ⟨hgo, hne⟩
  · rintro ⟨out, fee, h1, h2, h3, h4, hgo, hall, h8, rfl⟩
    refine ⟨h1, h2, h3, out, h4, _, ⟨by omega, ?_, rfl⟩, by simp [hgo], fee, h8, rfl⟩
    exact fun h => h.2 hall

/-- The context of a transaction holds what the sequential path has used: the resolved entries, the
witness span and the fee. -/
structure ContextMatches (i : Nat) (txid : Bytes32) (st : ResolveState) (fee : Nat)
    (ptc : PrecomputedTxContext) : Prop where
  txIndex : ptc.txIndex = i
  txBlockIdx : ptc.txBlockIdx = i
  txid : ptc.txid = txid
  entries : ptc.resolvedInputs = st.resolved.map ResolvedInput.entry
  outpoints : ptc.inputOutpoints = st.resolved.map ResolvedInput.outpoint
  witnessStart : ptc.witnessStart = 0
  witnessEnd : ptc.witnessEnd = st.witnessCursor
  fee : ptc.fee = fee

theorem Tracks.start : Tracks ⟨0, 0, [], []⟩ ⟨[], [], 0, 0, false⟩ :=
  ⟨rfl, rfl, rfl, rfl, rfl⟩

theorem collect_of_resolveInputs (hwf : tx.WellFormed) (h : resolveInputs tx ctx = .ok st) :
    ∃ out, collectPrecomputeInputs tx ctx.utxoSet ctx.height = .ok out ∧ Tracks st out := by
  have hin := hwf.inputs
  have hwit := hwf.witnessCount
  simp only [resolveInputs, bind_eq_ok, exists_unit, rejectIf_eq_ok, Except.ok.injEq] at h
  obtain ⟨st, hrun, -, rfl⟩ := h
  rw [maxTxInputs] at hin
  rw [maxWitnessItems] at hwit
  exact collectFrom_of_resolve (by omega) Tracks.start (by simp only [List.length_nil]; omega) hrun

section apply

variable [Crypto] {tx : Tx}

/-- **Sequential to precompute, one transaction.** -/
theorem precomputeTxContext_of_apply (hwf : tx.WellFormed) (hrot : ctx.rotation = none)
    {res : UtxoSet × UtxoApplySummary} (i : Nat) (h : applyNonCoinbaseTx tx ctx = .ok res) :
    ∃ st ptc, resolveInputs tx ctx = .ok st ∧
      precomputeTxContext i tx ctx.txid ctx.utxoSet ctx.height = .ok ptc ∧
      ContextMatches i ctx.txid st res.2.fee ptc ∧
      updatePrecomputeOverlay ctx.utxoSet tx ctx.txid ptc.inputOutpoints ctx.height =
        .ok res.1 := by
  obtain ⟨s', h⟩ := applyNonCoinbaseTx_ok h
  obtain ⟨-, -, hutxos, -, -⟩ := applyNonCoinbaseTxImpl_ok h
  obtain ⟨st, acc, outs, s₁, s₂, h1, h2, h3, h4, -, -, h7⟩ := applyNonCoinbaseTxImpl_stages h
  obtain ⟨hres, hend⟩ := resolveInputs_ok h2
  obtain ⟨out, hout, ht⟩ := collect_of_resolveInputs hwf h2
  obtain ⟨-, hsumIn, -⟩ := validateSpends_ok h3
  obtain ⟨-, hsumOut, -⟩ := addOutputs_ok h4
  obtain ⟨-, hfee, -⟩ := finishApply_ok h7
  simp only [validateApplyInputs, bind_eq_ok, exists_unit, rejectIf_eq_ok, hrot] at h1
  have hlen := hwf.outputs
  rw [maxTxOutputs] at hlen
  have hfee' : computePrecomputeFee out.sumIn tx.outputs = .ok res.2.fee := by
    rw [computePrecomputeFee_eq_ok (by omega), ht.sum, ← hsumOut, hfee, hsumIn, Nat.zero_add]
  refine ⟨st, _, h2, precomputeTxContext_eq_ok.mpr ⟨out, _, h1.1, h1.2.1, h1.2.2, hout, ht.going,
    ht.slots.trans hend, hfee', rfl⟩, ?_, ?_⟩
  · exact ⟨rfl, rfl, rfl, ht.entries, ht.outpoints, rfl, ht.slots, rfl⟩
  · rw [updatePrecomputeOverlay_eq _ _ _ _ (by omega), ht.outpoints, resolved_outpoints hres.each,
      hutxos]

end apply

end Rubin.Consensus
