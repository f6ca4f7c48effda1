/-
# The order of errors in the precompute pass

The documentation of `precompute_tx_contexts` says which failures of the sequential application it
repeats (`OwnedFailure`), and that it keeps their order.  For a block the codes agree except in one
situation, a witness list that ends too early in front of an input with a fault of another code
(`HiddenUnderflow`): the pass looks at the end of the witness list only after all inputs.
-/
import Rubin.Consensus.Pipeline

namespace Rubin.Consensus

open Rubin.Lib

/-! ## 1. Failures of the sequential application -/

/-- The checks of `resolve_input` up to the covenant have passed, with `entry` found. -/
structure ReachesCovenant (ctx : UtxoApplyContext) (st : ResolveState) (input : TxInput)
    (entry : UtxoEntry) : Prop where
  encoding : validateNonCoinbaseInputEncoding input = .ok ()
  unseen : input.outpoint ∉ st.seenInputs
  lookup : ctx.utxoSet.lookup input.outpoint = some entry
  available : validateInputAvailability entry ctx.height = .ok ()

/-- The input is refused for its covenant: a second vault, or data that do not parse.  Precompute
leaves these to the workers.  A `CORE_SIMPLICITY` entry it refuses itself. -/
def CovenantFailure (ctx : UtxoApplyContext) (st : ResolveState) (input : TxInput) : Prop :=
  ∃ entry e, ReachesCovenant ctx st input entry ∧ entry.covenantType ≠ covTypeCoreSimplicity ∧
    validateInputCovenant st.vaultInputCount entry = .error e

variable {tx : Tx} {ctx : UtxoApplyContext} {e : TxError} {done rest : List TxInput}
  {input : TxInput} {st : ResolveState} {out : CollectedPrecomputeInputs}

section sequential

variable [Crypto]

/-- The sequential application of a transaction fails with `e` in a step that is also one of the
precompute pass. -/
inductive OwnedTxFailure (tx : Tx) (ctx : UtxoApplyContext) : TxError → Prop
  | start {e : TxError} (h : validateApplyInputs tx ctx = .error e) : OwnedTxFailure tx ctx e
  | input {e : TxError} {done rest : List TxInput} {input : TxInput} {st : ResolveState}
      (start : validateApplyInputs tx ctx = .ok ()) (split : tx.inputs = done ++ input :: rest)
      (before : done.foldlM (resolveInput tx ctx) ⟨0, 0, [], []⟩ = .ok st)
      (h : resolveInput tx ctx st input = .error e) (own : ¬ CovenantFailure ctx st input) :
      OwnedTxFailure tx ctx e
  | witnessCount {st : ResolveState} (start : validateApplyInputs tx ctx = .ok ())
      (inputs : tx.inputs.foldlM (resolveInput tx ctx) ⟨0, 0, [], []⟩ = .ok st)
      (h : st.witnessCursor ≠ tx.witness.length) :
      OwnedTxFailure tx ctx (.parse "witness_count mismatch")
  | conservation {st : ResolveState} {acc : SpendAccum} {out : OutputAccum} {s₁ s₂ : SpendState tx}
      (start : validateApplyInputs tx ctx = .ok ()) (inputs : resolveInputs tx ctx = .ok st)
      (spends : validateSpends ctx 0 st.resolved ⟨ctx.utxoSet, 0, 0, [], [], none⟩
        ⟨SighashV1PrehashCache.new tx, none⟩ = .ok (acc, s₁))
      (outputs : addOutputs tx ctx acc.work = .ok out)
      (creation : validateVaultCreation tx acc out.createsVault = .ok ())
      (vault : validateVaultSpend ctx st.vaultInputCount acc s₁ = .ok ((), s₂))
      (h : out.sumOut > acc.sumIn) :
      OwnedTxFailure tx ctx ⟨.txErrValueConservation, "sum_out exceeds sum_in"⟩

theorem applyNonCoinbaseTx_eq_error :
    applyNonCoinbaseTx tx ctx = .error e ↔
      applyNonCoinbaseTxImpl tx ctx ⟨SighashV1PrehashCache.new tx, none⟩ = .error e := by
  simp [applyNonCoinbaseTx]

omit [Crypto] in
theorem resolveInputs_error (split : tx.inputs = done ++ input :: rest)
    (before : done.foldlM (resolveInput tx ctx) ⟨0, 0, [], []⟩ = .ok st)
    (h : resolveInput tx ctx st input = .error e) : resolveInputs tx ctx = .error e := by
  rw [resolveInputs, split, foldlM_stops before h]
  rfl

theorem OwnedTxFailure.sequential (h : OwnedTxFailure tx ctx e) :
    applyNonCoinbaseTx tx ctx = .error e := by
  rw [applyNonCoinbaseTx_eq_error]
  simp only [applyNonCoinbaseTxImpl, stateT_bind_eq_error, stateT_lift_eq_error, stateT_lift_eq_ok]
  cases h with
  | start h => exact .inl h
  | input start split before h own =>
    exact .inr ⟨(), _, ⟨start, rfl⟩, .inl (resolveInputs_error split before h)⟩
  | witnessCount start inputs h =>
    refine .inr ⟨(), _, ⟨start, rfl⟩, .inl ?_⟩
    rw [resolveInputs, inputs, ok_bind, rejectIf_pos h]
    rfl
  | conservation start inputs spends outputs creation vault h =>
    refine .inr ⟨(), _, ⟨start, rfl⟩, .inr ⟨_, _, ⟨inputs, rfl⟩, .inr ⟨_, _, spends, .inr ⟨_, _,
      ⟨outputs, rfl⟩, .inr ⟨(), _, ⟨creation, rfl⟩, .inr ⟨(), _, vault, ?_⟩⟩⟩⟩⟩⟩
    rw [finishApply, rejectIf_pos h]
    rfl

/-- The sequential application has come to the transaction `p` with `acc`. -/
def Reached (pb : ParsedBlock) (utxos : UtxoSet) (ctx : BlockApplyContext) (p : Tx × Bytes32)
    (acc : BlockAccum) : Prop :=
  ∃ work done rest, applyCoinbaseOutputs pb utxos ctx.blockHeight ctx.rotation = .ok work ∧
    pb.nonCoinbase = done ++ p :: rest ∧ done.foldlM (applyBlockTx ctx) ⟨work, 0, []⟩ = .ok acc

/-- The sequential application of a block fails with `e` in a step of the precompute pass. -/
inductive OwnedFailure (pb : ParsedBlock) (utxos : UtxoSet) (ctx : BlockApplyContext) :
    TxError → Prop
  | coinbase {e : TxError}
      (h : applyCoinbaseOutputs pb utxos ctx.blockHeight ctx.rotation = .error e) :
      OwnedFailure pb utxos ctx e
  | blockTx {e : TxError} {p : Tx × Bytes32} {acc : BlockAccum}
      (reached : Reached pb utxos ctx p acc)
      (h : validateNonCoinbaseBlockTx acc.seenNonces p.1 = .error e) : OwnedFailure pb utxos ctx e
  | tx {e : TxError} {p : Tx × Bytes32} {acc : BlockAccum} {seen : List UInt64}
      (reached : Reached pb utxos ctx p acc)
      (block : validateNonCoinbaseBlockTx acc.seenNonces p.1 = .ok seen)
      (h : OwnedTxFailure p.1 (ctx.forTx acc.utxos p.2) e) : OwnedFailure pb utxos ctx e

end sequential

/-! ## 2. Where the input loop of the pass stops -/

section stops

variable {overlay : UtxoSet} {height : Nat}

theorem collectFrom_append : ∀ {xs ys : List TxInput} {seen : List Outpoint}
    {out out₁ : CollectedPrecomputeInputs}, collectFrom overlay height xs seen out = .ok out₁ →
    out₁.stoppedAtCoreSimplicity = false →
    collectFrom overlay height (xs ++ ys) seen out =
      collectFrom overlay height ys ((xs.map TxInput.outpoint).reverse ++ seen) out₁
  | [], ys, seen, out, out₁, h, _ => by
    cases h
    rfl
  | x :: xs, ys, seen, out, out₁, h, hgo => by
    obtain ⟨p, out₂, hp, hne, hadd, hrest⟩ := collectFrom_cons h hgo
    obtain ⟨-, hop, -⟩ := resolvePrecomputeInput_ok hp
    rw [List.cons_append, collectFrom, hp, ok_bind, if_neg hne, hadd, ok_bind,
      collectFrom_append hrest hgo, hop, List.map_cons, List.reverse_cons, List.append_assoc]
    rfl

variable {seen : List Outpoint}

theorem collectFrom_cons_error (h : collectFrom overlay height [input] seen out = .error e) :
    collectFrom overlay height (input :: rest) seen out = .error e := by
  rw [collectFrom, bind_eq_error] at h ⊢
  refine h.imp id ?_
  rintro ⟨p, hp, h⟩
  refine ⟨p, hp, ?_⟩
  split at h
  · cases h
  · rename_i hne
    rw [if_neg hne]
    rw [bind_eq_error] at h ⊢
    rcases h with h | ⟨_, -, h⟩
    · exact .inl h
    · cases h

/-- The loop goes past `done` with `out` and stops at `input` with `e`. -/
structure StopsAt (overlay : UtxoSet) (height : Nat) (done : List TxInput) (input : TxInput)
    (seen : List Outpoint) (start out : CollectedPrecomputeInputs) (e : TxError) : Prop where
  before : collectFrom overlay height done seen start = .ok out
  going : out.stoppedAtCoreSimplicity = false
  fault : collectFrom overlay height [input] ((done.map TxInput.outpoint).reverse ++ seen) out =
    .error e

theorem StopsAt.error {start : CollectedPrecomputeInputs}
    (h : StopsAt overlay height done input seen start out e) :
    collectFrom overlay height (done ++ input :: rest) seen start = .error e := by
  rw [collectFrom_append h.before h.going]
  exact collectFrom_cons_error h.fault

theorem exists_stopsAt : ∀ {inputs : List TxInput} {seen : List Outpoint}
    {start : CollectedPrecomputeInputs}, start.stoppedAtCoreSimplicity = false →
    collectFrom overlay height inputs seen start = .error e →
    ∃ done input rest out, inputs = done ++ input :: rest ∧
      StopsAt overlay height done input seen start out e
  | [], _, _, _, h => by cases h
  | input :: inputs, seen, start, hgo, h => by
    cases hone : collectFrom overlay height [input] seen start with
    | error e' =>
      cases Except.error.inj ((collectFrom_cons_error hone).symm.trans h)
      exact ⟨[], input, inputs, start, rfl, rfl, hgo, hone⟩
    | ok out₁ =>
      cases hstop : out₁.stoppedAtCoreSimplicity with
      | true =>
        -- a loop that has stopped at a simplicity entry does not fail
        rw [collectFrom, bind_eq_ok] at hone
        obtain ⟨p, hp, hone⟩ := hone
        rw [collectFrom, hp, ok_bind] at h
        split at hone
        · rename_i hs
          rw [if_pos hs] at h
          cases h
        · obtain ⟨out₂, hadd, hout⟩ := bind_eq_ok.mp hone
          obtain ⟨_, -, -, -, -, rfl⟩ := CollectedPrecomputeInputs.add_eq_ok.mp hadd
          cases hout
          rw [show _ = start.stoppedAtCoreSimplicity from rfl, hgo] at hstop
          cases hstop
      | false =>
        have happ := @collectFrom_append overlay height [input] inputs seen start out₁ hone hstop
        rw [List.singleton_append, h] at happ
        obtain ⟨done, input', rest, out, rfl, hat⟩ := exists_stopsAt hstop happ.symm
        refine ⟨input :: done, input', rest, out, rfl, ?_, hat.going, ?_⟩
        · rw [← List.singleton_append, collectFrom_append hone hstop]
          exact hat.before
        · have hf := hat.fault
          rwa [List.map_singleton, List.reverse_singleton, ← List.append_assoc,
            ← List.reverse_cons] at hf

theorem StopsAt.unique {done' rest' : List TxInput} {input' : TxInput}
    {start out' : CollectedPrecomputeInputs} {e' : TxError}
    (h : StopsAt overlay height done input seen start out e)
    (h' : StopsAt overlay height done' input' seen start out' e')
    (hl : done ++ input :: rest = done' ++ input' :: rest') : out = out' := by
  rcases List.append_eq_append_iff.mp hl with ⟨as, rfl, has⟩ | ⟨bs, rfl, hbs⟩
  · cases as with
    | nil =>
      have hbefore := h'.before
      rw [List.append_nil] at hbefore
      exact Except.ok.inj (h.before.symm.trans hbefore)
    | cons a as =>
      obtain ⟨rfl, -⟩ := List.cons.inj has
      have hbad := h'.before
      rw [h.error] at hbad
      cases hbad
  · cases bs with
    | nil =>
      have hbefore := h.before
      rw [List.append_nil] at hbefore
      exact Except.ok.inj (hbefore.symm.trans h'.before)
    | cons b bs =>
      obtain ⟨rfl, -⟩ := List.cons.inj hbs
      have hbad := h.before
      rw [h'.error] at hbad
      cases hbad

end stops

/-- The witness list ends before the slots of the inputs in front of `input`, and `input` has a
fault of its own, with another code than an underflow. -/
def HiddenUnderflow (tx : Tx) (overlay : UtxoSet) (height : Nat) : Prop :=
  ∃ done input rest out e, tx.inputs = done ++ input :: rest ∧
    StopsAt overlay height done input [] ⟨[], [], 0, 0, false⟩ out e ∧
    tx.witness.length < out.totalWitnessSlots ∧ e.code ≠ .txErrParse

theorem HiddenUnderflow.collect {overlay : UtxoSet} {height : Nat}
    (h : HiddenUnderflow tx overlay height) :
    ∃ e, collectPrecomputeInputs tx overlay height = .error e ∧ e.code ≠ .txErrParse := by
  obtain ⟨done, input, rest, out, e, hl, hat, -, hcode⟩ := h
  exact ⟨e, by rw [collectPrecomputeInputs, hl, hat.error], hcode⟩

/-! ## 3. One transaction -/

/-- What the pass does with a transaction after its inputs. -/
def finishContext (i : Nat) (tx : Tx) (txid : Bytes32) (inputs : CollectedPrecomputeInputs) :
    Except TxError PrecomputedTxContext := do
  let bounds ← precomputeWitnessBounds tx inputs.totalWitnessSlots inputs.stoppedAtCoreSimplicity
  rejectIf (inputs.stoppedAtCoreSimplicity = true) rejectCoreSimplicitySpend
  let fee ← computePrecomputeFee inputs.sumIn tx.outputs
  .ok { txIndex := i, txBlockIdx := i, txid, resolvedInputs := inputs.resolvedInputs,
        witnessStart := bounds.1, witnessEnd := bounds.2, inputOutpoints := inputs.inputOutpoints,
        fee }

theorem precomputeTxContext_eq (hrot : ctx.rotation = none) (i : Nat) :
    precomputeTxContext i tx ctx.txid ctx.utxoSet ctx.height =
      validateApplyInputs tx ctx >>= fun _ =>
        collectPrecomputeInputs tx ctx.utxoSet ctx.height >>= finishContext i tx ctx.txid := by
  simp only [precomputeTxContext, validateApplyInputs, hrot, bind_assoc]
  rfl

theorem resolve_seen (h : done.foldlM (resolveInput tx ctx) ⟨0, 0, [], []⟩ = .ok st) :
    st.seenInputs = (done.map TxInput.outpoint).reverse := by
  refine foldlM_from_start (fun done (st : ResolveState) =>
    st.seenInputs = (done.map TxInput.outpoint).reverse) rfl ?_ h
  intro done input st st' hst hstep
  rw [resolveInput_eq, bind_eq_ok] at hstep
  obtain ⟨p, hp, hstep⟩ := hstep
  obtain ⟨count, r, -, -, rfl⟩ := finishResolveInput_ok hstep
  obtain ⟨-, hop, -⟩ := resolvePrecomputeInput_ok hp
  simp [hst, hop]

theorem reachesCovenant_iff {p : UtxoEntry × Outpoint}
    (h : resolvePrecomputeInput input st.seenInputs ctx.utxoSet ctx.height = .ok p) :
    ReachesCovenant ctx st input p.1 := by
  simp only [resolvePrecomputeInput, bind_eq_ok, exists_unit, rejectIf_eq_ok, okOr_eq_ok,
    Except.ok.injEq] at h
  obtain ⟨henc, hseen, entry, hlook, havail, rfl⟩ := h
  exact ⟨henc, hseen, hlook, havail⟩

theorem witnessSlots_le {ty : UInt16} {data : Bytes} {slots : Nat}
    (h : witnessSlots ty data = .ok slots) : slots ≤ 255 := by
  have h1 := (data.getD 1 1).toNat_lt
  have h33 := (data.getD 33 1).toNat_lt
  unfold witnessSlots at h
  split_ifs at h <;> cases h <;> first | omega | decide

theorem recordResolvedInput_error {cursor : Nat} {entry : UtxoEntry} {op : Outpoint}
    (h : recordResolvedInput tx cursor entry op = .error e) :
    precomputeWitnessSlots entry = .error e ∨
      ∃ slots, witnessSlots entry.covenantType entry.covenantData = .ok slots ∧ slots ≠ 0 ∧
        tx.witness.length < cursor + slots ∧ e = .parse "witness underflow" := by
  simp only [recordResolvedInput, bind_eq_error, rejectIf_eq_error, rejectIf_eq_ok, exists_unit,
    reduceCtorEq, or_false, and_false] at h
  rcases h with h | ⟨slots, hslots, ⟨hzero, rfl⟩ | ⟨hne, hlt, rfl⟩⟩
  · exact .inl (by rw [precomputeWitnessSlots, h]; rfl)
  · exact .inl (by rw [precomputeWitnessSlots, hslots, ok_bind, rejectIf_pos hzero]; rfl)
  · exact .inr ⟨slots, hslots, hne, hlt, rfl⟩

/-- What the pass makes of an input at which the sequential path fails: the same error, a stop at a
simplicity entry, or an underflow that it does not see yet. -/
theorem collect_of_resolveInput_error (ht : Tracks st out) (hlen : st.resolved.length < 2 ^ 64)
    (hcursor : st.witnessCursor < 2 ^ 63) (h : resolveInput tx ctx st input = .error e)
    (own : ¬ CovenantFailure ctx st input) :
    collectFrom ctx.utxoSet ctx.height [input] st.seenInputs out = .error e ∨
      (e = rejectCoreSimplicitySpend ∧
        ∃ out₁, (∀ rest, collectFrom ctx.utxoSet ctx.height (input :: rest) st.seenInputs out =
          .ok out₁) ∧ out₁.stoppedAtCoreSimplicity = true ∧
          out₁.totalWitnessSlots = out.totalWitnessSlots) ∨
      (e = .parse "witness underflow" ∧
        ∃ out₁, collectFrom ctx.utxoSet ctx.height [input] st.seenInputs out = .ok out₁ ∧
          out₁.stoppedAtCoreSimplicity = false ∧
          tx.witness.length < out₁.totalWitnessSlots) := by
  rw [resolveInput_eq, bind_eq_error] at h
  rcases h with h | ⟨p, hp, h⟩
  · exact .inl (by rw [collectFrom, h]; rfl)
  by_cases hs : p.1.covenantType = covTypeCoreSimplicity
  · refine .inr (.inl ⟨?_, { out with
      stoppedAtCoreSimplicity := true
      resolvedInputs := out.resolvedInputs ++ [p.1]
      inputOutpoints := out.inputOutpoints ++ [p.2] },
      fun rest => by rw [collectFrom, hp, ok_bind, if_pos hs], rfl, rfl⟩)
    have hv : p.1.covenantType ≠ covTypeVault := by rw [hs]; decide
    rw [finishResolveInput, validateInputCovenant, rejectIf_neg fun h => hv h.1, ok_bind,
      rejectIf_pos hs] at h
    exact (Except.error.inj h).symm
  · cases hcov : validateInputCovenant st.vaultInputCount p.1 with
    | error e' => exact absurd ⟨p.1, e', reachesCovenant_iff hp, hs, hcov⟩ own
    | ok count =>
      rw [finishResolveInput, hcov, ok_bind, bind_eq_error] at h
      rcases h with h | ⟨_, -, h⟩
      · rcases recordResolvedInput_error h with h | ⟨slots, hslots, hne, hlt, rfl⟩
        · refine .inl ?_
          rw [collectFrom, hp, ok_bind, if_neg hs, CollectedPrecomputeInputs.add, h]
          rfl
        · have hle := witnessSlots_le hslots
          obtain ⟨out₁, hadd, hgo, htotal⟩ : ∃ out₁, out.add p.1 p.2 = .ok out₁ ∧
              out₁.stoppedAtCoreSimplicity = false ∧
              out₁.totalWitnessSlots = st.witnessCursor + slots :=
            ⟨_, CollectedPrecomputeInputs.add_eq_ok.mpr ⟨slots, hslots, hne,
              by rw [ht.slots]; omega, ht.sum_lt hlen p.1.value, rfl⟩, ht.going, by rw [← ht.slots]⟩
          refine .inr (.inr ⟨rfl, out₁, ?_, hgo, by rw [htotal]; exact hlt⟩)
          rw [collectFrom, hp, ok_bind, if_neg hs, hadd]
          rfl
      · cases h

section comparison

variable [Crypto] {tx : Tx} {ctx : UtxoApplyContext}

omit [Crypto] in
theorem precompute_of_input_failure (hwf : tx.WellFormed) (hrot : ctx.rotation = none) (i : Nat)
    (start : validateApplyInputs tx ctx = .ok ()) (split : tx.inputs = done ++ input :: rest)
    (before : done.foldlM (resolveInput tx ctx) ⟨0, 0, [], []⟩ = .ok st)
    (h : resolveInput tx ctx st input = .error e) (own : ¬ CovenantFailure ctx st input) :
    ∃ e', precomputeTxContext i tx ctx.txid ctx.utxoSet ctx.height = .error e' ∧
      (e'.code = e.code ↔ ¬ HiddenUnderflow tx ctx.utxoSet ctx.height) := by
  have hin := hwf.inputs
  have hwit := hwf.witnessCount
  rw [maxTxInputs, split, List.length_append, List.length_cons] at hin
  rw [maxWitnessItems] at hwit
  have hres : Resolved tx ctx done st := foldlM_invariant resolveInput_ok
    (⟨.nil, by simp, by simp, rfl, Nat.zero_le _, rfl, Nat.zero_le _⟩ :
      Resolved tx ctx [] ⟨0, 0, [], []⟩) before
  have hcursor := hres.cursor_le
  have hcount : st.resolved.length = done.length := hres.each.length_eq.symm
  obtain ⟨out, hout, ht⟩ := collectFrom_of_resolve (by omega) Tracks.start
    (by simp only [List.length_nil]; omega) before
  have hslots := ht.slots
  have hseen := resolve_seen before
  -- the pass arrives at the same input
  have harrive : ∀ rest, collectFrom ctx.utxoSet ctx.height (done ++ rest) [] ⟨[], [], 0, 0, false⟩ =
      collectFrom ctx.utxoSet ctx.height rest st.seenInputs out := by
    intro rest
    rw [collectFrom_append hout ht.going, List.append_nil, hseen]
  rw [precomputeTxContext_eq hrot i, start, ok_bind, collectPrecomputeInputs, split, harrive]
  rcases collect_of_resolveInput_error ht (by omega) (by omega) h own with hsame | hsimp | hunder
  · refine ⟨e, by rw [collectFrom_cons_error hsame]; rfl, iff_of_true rfl ?_⟩
    rintro ⟨done', input', rest', out', e', hl, hat, hlt, -⟩
    have hhere : StopsAt ctx.utxoSet ctx.height done input [] ⟨[], [], 0, 0, false⟩ out e :=
      ⟨hout, ht.going, by rw [List.append_nil, ← hseen]; exact hsame⟩
    have heq := hhere.unique hat (split.symm.trans hl)
    rw [← heq] at hlt
    omega
  · obtain ⟨rfl, out₁, hout₁, hstop, htotal⟩ := hsimp
    refine ⟨rejectCoreSimplicitySpend, ?_, iff_of_true rfl ?_⟩
    · rw [hout₁ rest, ok_bind, finishContext, precomputeWitnessBounds, rejectIf_neg (by omega),
        ok_bind, rejectIf_neg (by simp [hstop]), ok_bind, ok_bind, rejectIf_pos hstop]
      rfl
    · intro hhid
      obtain ⟨e', he', -⟩ := hhid.collect
      rw [collectPrecomputeInputs, split, harrive, hout₁ rest] at he'
      cases he'
  · obtain ⟨rfl, out₁, hout₁, hgo, hlt⟩ := hunder
    cases hrest : collectFrom ctx.utxoSet ctx.height (input :: rest) st.seenInputs out with
    | ok out₂ =>
      refine ⟨.parse "witness underflow", ?_, iff_of_true rfl ?_⟩
      · have happ := @collectFrom_append ctx.utxoSet ctx.height [input] rest _ _ _ hout₁ hgo
        rw [List.singleton_append, hrest] at happ
        have hle := collectFrom_slots_le happ.symm
        rw [ok_bind, finishContext, precomputeWitnessBounds, rejectIf_pos (by omega)]
        rfl
      · intro hhid
        obtain ⟨e', he', -⟩ := hhid.collect
        rw [collectPrecomputeInputs, split, harrive, hrest] at he'
        cases he'
    | error e' =>
      refine ⟨e', rfl, ?_⟩
      constructor
      · intro hcode hhid
        obtain ⟨e'', he'', hne⟩ := hhid.collect
        rw [collectPrecomputeInputs, split, harrive, hrest] at he''
        cases he''
        exact hne hcode
      · intro hhid
        by_contra hcode
        have hall : collectFrom ctx.utxoSet ctx.height rest
            (([input].map TxInput.outpoint).reverse ++ st.seenInputs) out₁ = .error e' := by
          rw [← collectFrom_append hout₁ hgo]
          exact hrest
        obtain ⟨done', input', rest', out', rfl, hat⟩ := exists_stopsAt hgo hall
        refine hhid ⟨done ++ input :: done', input', rest', out', e', by simp [split], ?_, ?_, hcode⟩
        · refine ⟨?_, hat.going, ?_⟩
          · rw [harrive, ← List.singleton_append, collectFrom_append hout₁ hgo]
            exact hat.before
          · have hf := hat.fault
            rw [hseen] at hf
            simpa using hf
        · exact lt_of_lt_of_le hlt (collectFrom_slots_le hat.before)

omit [Crypto] in
theorem no_hiddenUnderflow {overlay : UtxoSet} {height : Nat}
    (h : collectPrecomputeInputs tx overlay height = .ok out) :
    ¬ HiddenUnderflow tx overlay height := by
  intro hhid
  obtain ⟨e, he, -⟩ := hhid.collect
  rw [h] at he
  cases he

/-- **One transaction**: the pass fails too, and with the same code unless it misses an
underflow. -/
theorem OwnedTxFailure.precompute (hwf : tx.WellFormed) (hrot : ctx.rotation = none) (i : Nat)
    (h : OwnedTxFailure tx ctx e) :
    ∃ e', precomputeTxContext i tx ctx.txid ctx.utxoSet ctx.height = .error e' ∧
      (e'.code = e.code ↔ ¬ (validateApplyInputs tx ctx = .ok () ∧
        HiddenUnderflow tx ctx.utxoSet ctx.height)) := by
  cases h with
  | start h =>
    refine ⟨e, by rw [precomputeTxContext_eq hrot, h]; rfl, iff_of_true rfl ?_⟩
    rintro ⟨hok, -⟩
    rw [h] at hok
    cases hok
  | input start split before h own =>
    obtain ⟨e', he', hcode⟩ := precompute_of_input_failure hwf hrot i start split before h own
    exact ⟨e', he', by rw [hcode, and_iff_right start]⟩
  | @witnessCount st start inputs h =>
    have hin := hwf.inputs
    have hwit := hwf.witnessCount
    rw [maxTxInputs] at hin
    rw [maxWitnessItems] at hwit
    obtain ⟨out, hout, ht⟩ := collectFrom_of_resolve (by omega) Tracks.start
      (by simp only [List.length_nil]; omega) inputs
    have hres : Resolved tx ctx tx.inputs st := foldlM_invariant resolveInput_ok
      (⟨.nil, by simp, by simp, rfl, Nat.zero_le _, rfl, Nat.zero_le _⟩ :
        Resolved tx ctx [] ⟨0, 0, [], []⟩) inputs
    have hle := hres.cursor_le
    have hslots := ht.slots
    refine ⟨_, ?_, iff_of_true rfl fun hh => no_hiddenUnderflow hout hh.2⟩
    rw [precomputeTxContext_eq hrot, start, ok_bind, collectPrecomputeInputs, hout, ok_bind,
      finishContext, precomputeWitnessBounds, rejectIf_neg (by omega), ok_bind,
      rejectIf_pos ⟨ht.going, by omega⟩]
    rfl
  | @conservation st acc outs s₁ s₂ start inputs spends outputs creation vault h =>
    obtain ⟨out, hout, ht⟩ := collect_of_resolveInputs hwf inputs
    obtain ⟨-, hend⟩ := resolveInputs_ok inputs
    obtain ⟨-, hsumIn, -⟩ := validateSpends_ok spends
    obtain ⟨-, hsumOut, -⟩ := addOutputs_ok outputs
    have hlen := hwf.outputs
    rw [maxTxOutputs] at hlen
    have hslots := ht.slots
    have hsum : out.sumIn < valueSum tx.outputs := by
      rw [ht.sum, ← hsumOut]
      rw [Nat.zero_add] at hsumIn
      omega
    refine ⟨⟨.txErrValueConservation, "outputs exceed inputs"⟩, ?_,
      iff_of_true rfl fun hh => no_hiddenUnderflow hout hh.2⟩
    rw [precomputeTxContext_eq hrot, start, ok_bind, hout, ok_bind, finishContext,
      precomputeWitnessBounds, rejectIf_neg (by omega), ok_bind,
      rejectIf_neg fun hh => hh.2 (hslots.trans hend), ok_bind, ok_bind,
      rejectIf_neg (by simp [ht.going]), ok_bind, computePrecomputeFee_of_lt (by omega) hsum]
    rfl

/-! ## 4. A block -/

/-- The sequential application comes to a transaction in which an underflow is hidden. -/
def HidesUnderflow (pb : ParsedBlock) (utxos : UtxoSet) (ctx : BlockApplyContext) : Prop :=
  ∃ p acc seen, Reached pb utxos ctx p acc ∧
    validateNonCoinbaseBlockTx acc.seenNonces p.1 = .ok seen ∧
    validateApplyInputs p.1 (ctx.forTx acc.utxos p.2) = .ok () ∧
    HiddenUnderflow p.1 acc.utxos ctx.blockHeight

variable {p : Tx × Bytes32} {acc : BlockAccum}

theorem Reached.unique {pb : ParsedBlock} {utxos : UtxoSet} {ctx : BlockApplyContext}
    {p' : Tx × Bytes32} {acc' : BlockAccum} {e' : TxError} (h : Reached pb utxos ctx p acc)
    (h' : Reached pb utxos ctx p' acc') (he : applyBlockTx ctx acc p = .error e)
    (he' : applyBlockTx ctx acc' p' = .error e') : p = p' ∧ acc = acc' := by
  obtain ⟨work, done, rest, hwork, hsplit, hdone⟩ := h
  obtain ⟨work', done', rest', hwork', hsplit', hdone'⟩ := h'
  cases Except.ok.inj (hwork.symm.trans hwork')
  exact foldlM_stop_unique he he' (hsplit.symm.trans hsplit') hdone hdone'

theorem Reached.precompute {blockBytes : Bytes} {pb : ParsedBlock}
    (hparse : parseBlockBytes blockBytes = .ok pb) {utxos : UtxoSet} {ctx : BlockApplyContext}
    (hrot : ctx.rotation = none) (h : Reached pb utxos ctx p acc) :
    p.1.WellFormed ∧ ∃ results i, ∀ e,
      precomputeNextTx ctx.blockHeight ⟨acc.utxos, acc.seenNonces, results⟩ (p, i) = .error e →
      precomputeTxContexts pb utxos ctx.blockHeight = .error e := by
  obtain ⟨work, done, rest, hwork, hsplit, hdone⟩ := h
  have hqs := parsed_nonCoinbase hparse
  have hzip : pb.nonCoinbase.zipIdx 1 =
      done.zipIdx 1 ++ (p, 1 + done.length) :: rest.zipIdx (1 + done.length + 1) := by
    rw [hsplit, List.zipIdx_append, List.zipIdx_cons]
  rw [hzip] at hqs
  have hwf : ∀ q ∈ done.zipIdx 1, q.1.1.WellFormed :=
    fun q hq => (hqs q (List.mem_append_left _ hq)).2.2
  have hfst : (done.zipIdx 1).map Prod.fst = done := List.zipIdx_map_fst 1 _
  rw [← hfst] at hdone
  obtain ⟨pre, contexts, hpre, hover, hseen, -, -⟩ := precompute_of_sequential hrot [] hwf hdone
  refine ⟨(hqs (p, 1 + done.length) (by simp)).2.2, pre.results, 1 + done.length, fun e he => ?_⟩
  rw [hrot] at hwork
  rw [precomputeTxContexts, precomputeOverlay_eq hparse, hwork, ok_bind,
    precomputeNonCoinbaseContexts, hzip, foldlM_stops hpre (by rw [← he, ← hover, ← hseen])]
  rfl

theorem HiddenUnderflow.sequential {ctx : BlockApplyContext} (hrot : ctx.rotation = none)
    (hwf : p.1.WellFormed) (h : HiddenUnderflow p.1 acc.utxos ctx.blockHeight) :
    ∃ e, applyBlockTx ctx acc p = .error e := by
  cases hrun : applyBlockTx ctx acc p with
  | error e => exact ⟨e, rfl⟩
  | ok acc' =>
    obtain ⟨res, hres, -⟩ := applyBlockTx_ok hrun
    obtain ⟨st, ptc, hst, -⟩ := precomputeTxContext_of_apply hwf hrot 0 hres
    obtain ⟨out, hout, -⟩ := collect_of_resolveInputs hwf hst
    exact absurd h (no_hiddenUnderflow hout)

/-- The transaction `p` of a block gets as far as its only input, which is missing from `work`. -/
def OnlyInputMissing (ctx : BlockApplyContext) (work : UtxoSet) (p : Tx × Bytes32) : Prop :=
  (validateNonCoinbaseBlockTx [] p.1).isOk = true ∧
    (validateApplyInputs p.1 (ctx.forTx work p.2)).isOk = true ∧ p.1.inputs.length = 1 ∧
    ∀ input ∈ p.1.inputs, (validateNonCoinbaseInputEncoding input).isOk = true ∧
      work.lookup input.outpoint = none

instance (ctx : BlockApplyContext) (work : UtxoSet) (p : Tx × Bytes32) :
    Decidable (OnlyInputMissing ctx work p) := inferInstanceAs (Decidable (_ ∧ _ ∧ _ ∧ _))

/-- Whether the block has one such transaction, on the empty UTXO set. -/
def inputMissing (blockBytes : Bytes) (ctx : BlockApplyContext) : Except TxError Bool := do
  let pb ← parseBlockBytes blockBytes
  let work ← applyCoinbaseOutputs pb ∅ ctx.blockHeight ctx.rotation
  .ok (decide (pb.nonCoinbase.length = 1 ∧ ∀ p ∈ pb.nonCoinbase, OnlyInputMissing ctx work p))

theorem OnlyInputMissing.owned {ctx : BlockApplyContext} {work : UtxoSet}
    (h : OnlyInputMissing ctx work p) :
    OwnedTxFailure p.1 (ctx.forTx work p.2) ⟨.txErrMissingUtxo, "utxo not found"⟩ := by
  obtain ⟨-, hstart, hone, hinput⟩ := h
  obtain ⟨⟨⟩, hstart⟩ := exists_ok_of_isOk hstart
  obtain ⟨input, hin⟩ := List.length_eq_one_iff.mp hone
  obtain ⟨henc, hnone⟩ := hinput input (by rw [hin]; exact List.mem_singleton_self _)
  obtain ⟨⟨⟩, henc⟩ := exists_ok_of_isOk henc
  have hsplit : p.1.inputs = [] ++ input :: [] := hin
  refine .input hstart hsplit rfl ?_ ?_
  · simp only [resolveInput, henc, ok_bind, BlockApplyContext.forTx, hnone, okOr,
      rejectIf_neg List.not_mem_nil, error_bind]
  · rintro ⟨entry, e, hreach, -⟩
    have hlook := hreach.lookup
    rw [show (ctx.forTx work p.2).utxoSet.lookup input.outpoint = none from hnone] at hlook
    cases hlook

/-- A block of height 1 with one transaction of two inputs and no witness item.  It passes the
connect preflight under the real hash. -/
def underflowBlock : Bytes :=
  u32LeBytes 1 ++ zero32.toList ++
    [11, 121, 71, 62, 111, 95, 79, 38, 132, 65, 146, 7, 184, 213, 216, 159, 81, 66, 161, 13, 49, 35,
     95, 188, 123, 105, 241, 37, 210, 186, 215, 216] ++
    u64LeBytes 1 ++ powLimit.toList ++ u64LeBytes 0 ++ [2] ++
  (u32LeBytes 1 ++ [0x00] ++ u64LeBytes 0 ++
    [1] ++ zero32.toList ++ u32LeBytes 0xffffffff ++ [0] ++ u32LeBytes 0xffffffff ++
    [1] ++ u64LeBytes 0 ++ u16LeBytes covTypeAnchor ++ [32] ++
      [154, 216, 154, 67, 240, 4, 69, 213, 108, 145, 68, 121, 91, 27, 93, 130, 166, 32, 133, 142,
       110, 99, 223, 41, 7, 144, 223, 125, 237, 74, 94, 136] ++
    u32LeBytes 1 ++ [0] ++ [0]) ++
  (u32LeBytes 1 ++ [0x00] ++ u64LeBytes 1 ++
    [2] ++ zero32.toList ++ u32LeBytes 0 ++ [0] ++ u32LeBytes 0 ++
      zero32.toList ++ u32LeBytes 1 ++ [0] ++ u32LeBytes 0 ++
    [1] ++ u64LeBytes 90 ++ u16LeBytes covTypeP2pk ++ [33, 1] ++ zero32.toList ++
    u32LeBytes 0 ++ [0] ++ [0])

/-- The errors of both, for a block that passes the connect preflight at height 1. -/
def bothErrors (blockBytes : Bytes) (utxos : UtxoSet) :
    Except TxError (Option TxError × Option TxError) := do
  let pb ← parseBlockBytes blockBytes
  validateConnectPreflight pb none none 1 none
  .ok (match applyCoinbaseThenNonCoinbaseTxsSequential pb utxos (defaultBlockContext 1 1 zero32),
      precomputeTxContexts pb utxos 1 with
    | .error e, .error e' => (some e, some e')
    | _, _ => (none, none))

end comparison

end Rubin.Consensus
