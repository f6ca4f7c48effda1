/-
# Precompute and workers against the sequential application

A worker with a queue of its own accepts exactly when every input is authorised by its slots, which
is also what the sequential path requires; the vault rules are the only ones the workers do not see.
-/
import Rubin.Consensus.Parallel
import Rubin.Consensus.PrecomputeSpec

namespace Rubin.Consensus

open Rubin.Lib

variable [Crypto] {tx : Tx}

/-! ## 1. The worker -/

/-- A validator that is given an empty queue of its own, and then the queue flushed, is the
validator without a queue. -/
theorem Deferred.own_queue_iff {α : Type} {m : SpendM tx α} {P : α → Prop} {reg : SuiteRegistry}
    {queue : SigCheckQueue} (hd : Deferred reg tx.witness m) (hi : Inline m P)
    (hwf : tx.WellFormed) (hfit : reg.FootprintsFit) (hq : Budgeted reg queue [])
    (threads : Threads) (cache : SighashV1PrehashCache tx) (a : α) :
    (∃ cache' queue', m ⟨cache, some queue⟩ = .ok (a, ⟨cache', some queue'⟩) ∧
      ∃ queue'', queue'.flush threads = .ok queue'') ↔ P a := by
  obtain ⟨v, htasks, hv⟩ := hd
  have hP : P a ↔ ∃ ts, v = some (a, ts) ∧ ∀ t ∈ ts, verifyQueuedTask (some reg) t = .ok () := by
    have h := (hi cache a none).symm.trans (hv ⟨cache, none⟩ a none)
    simpa only [true_and, submitAll_none, and_true] using h
  rw [hP]
  constructor
  · rintro ⟨cache', queue', hrun, hflush⟩
    obtain ⟨ts, hts, hsub⟩ := (hv _ a (some queue')).mp ⟨cache', hrun⟩
    obtain ⟨_, hsome, hq'⟩ := submitAll_holds hq.toHolds hsub
    cases hsome
    exact ⟨ts, hts, (hq'.flush_ok_iff threads).mp hflush⟩
  · rintro ⟨ts, hts, hver⟩
    have hlen := (htasks a ts hts).length_le_signatureCount hver
    have hcount := hwf.signatureCount_le
    have hbytes : 7253 * (([] : List SigCheckTask).length + ts.length) ≤ maxBlockWeight := by
      rw [List.length_nil, maxBlockWeight]
      omega
    obtain ⟨queue', hsub, hq'⟩ := submitAll_budgeted hfit hq hver hbytes
    obtain ⟨cache', hrun⟩ := (hv ⟨cache, some queue⟩ a (some queue')).mpr ⟨ts, hts, hsub⟩
    exact ⟨cache', queue', hrun, (hq'.flush_ok_iff threads).mpr hq'.verified⟩

/-- The worker's context as that of an application. -/
def TxLocalSpendContext.applyContext (ctx : TxLocalSpendContext) : UtxoApplyContext :=
  ⟨zero32, ∅, ctx.blockHeight, ctx.blockMtp, ctx.chainId, some ctx.rotation, some ctx.registry⟩

/-- The covenants a spend of which can be authorised. -/
def SpendableType (ty : UInt16) : Prop :=
  ty = covTypeP2pk ∨ ty = covTypeMultisig ∨ ty = covTypeVault ∨ ty = covTypeHtlc ∨
    ty = covTypeCoreStealth

variable {witnessEnd stop i height : Nat} {threads : Threads} {ptc context : PrecomputedTxContext}
  {ctx : UtxoApplyContext} {blockBytes : Bytes} {pb : ParsedBlock} {overlay : UtxoSet}
  {txid : Bytes32}

section worker

variable {ctx : TxLocalSpendContext}

theorem validateInputSpend_eq (entry : UtxoEntry) (assigned : List WitnessItem) (i : UInt32) :
    (validateInputSpend entry assigned i ctx : SpendM tx Unit) =
      if entry.covenantType = covTypeP2pk then applyP2pkSpend ctx.applyContext entry assigned i
      else if entry.covenantType = covTypeMultisig then
        applyMultisigSpend ctx.applyContext entry assigned i
      else if entry.covenantType = covTypeVault then do
        let v ← StateT.lift (parseVaultCovenantDataForSpend entry.covenantData)
        validateThresholdSigSpendQ v.keys v.threshold assigned i entry.value ctx.chainId
          ctx.blockHeight .coreVault (some ctx.rotation) (some ctx.registry)
      else if entry.covenantType = covTypeHtlc then
        applyHtlcSpend ctx.applyContext entry assigned i
      else if entry.covenantType = covTypeCoreStealth then
        applyStealthSpend ctx.applyContext entry assigned i
      else pure () := rfl

theorem validateInputSpend_inline {entry : UtxoEntry} (block : List WitnessItem) (i : Nat)
    (h : SpendableType entry.covenantType) :
    Inline (validateInputSpend entry block (UInt32.ofNat i) ctx : SpendM tx Unit)
      fun _ => SpendAuthorised tx ctx.applyContext i entry block := by
  rw [validateInputSpend_eq]
  unfold SpendAuthorised
  rcases h with h | h | h | h | h
  · simp only [if_pos h]
    exact applyP2pkSpend_inline
  · have h1 : entry.covenantType ≠ covTypeP2pk := by rw [h]; decide
    simp only [if_neg h1, if_pos h]
    exact applyMultisigSpend_inline
  · have h1 : entry.covenantType ≠ covTypeP2pk := by rw [h]; decide
    have h2 : entry.covenantType ≠ covTypeMultisig := by rw [h]; decide
    simp only [if_neg h1, if_neg h2, if_pos h]
    exact Inline.bind (Inline.lift _) fun _ => validateThresholdSigSpendQ_inline _ _ _ _ _ _ _ _ _ _
  · have h1 : entry.covenantType ≠ covTypeP2pk := by rw [h]; decide
    have h2 : entry.covenantType ≠ covTypeMultisig := by rw [h]; decide
    have h3 : entry.covenantType ≠ covTypeVault := by rw [h]; decide
    simp only [if_neg h1, if_neg h2, if_neg h3, if_pos h]
    exact applyHtlcSpend_inline
  · have h1 : entry.covenantType ≠ covTypeP2pk := by rw [h]; decide
    have h2 : entry.covenantType ≠ covTypeMultisig := by rw [h]; decide
    have h3 : entry.covenantType ≠ covTypeVault := by rw [h]; decide
    have h4 : entry.covenantType ≠ covTypeHtlc := by rw [h]; decide
    simp only [if_neg h1, if_neg h2, if_neg h3, if_neg h4, if_pos h]
    exact applyStealthSpend_inline

theorem validateInputSpend_deferred (entry : UtxoEntry) (assigned : List WitnessItem)
    (i : UInt32) :
    Deferred ctx.registry assigned (validateInputSpend entry assigned i ctx : SpendM tx Unit) := by
  rw [validateInputSpend_eq]
  split
  · exact applyP2pkSpend_deferred ctx.applyContext entry assigned i
  split
  · exact applyMultisigSpend_deferred ctx.applyContext entry assigned i
  split
  · exact Deferred.liftBind fun v _ => validateThresholdSigSpendQ_deferred v.keys v.threshold
      assigned i entry.value ctx.chainId ctx.blockHeight .coreVault (some ctx.rotation)
      (some ctx.registry)
  split
  · exact applyHtlcSpend_deferred ctx.applyContext entry assigned i
  split
  · exact applyStealthSpend_deferred ctx.applyContext entry assigned i
  · exact Deferred.pure ()

/-- The worker's input loop from input `i` and witness `cursor` on. -/
def WorkerSteps (tx : Tx) (ctx : UtxoApplyContext) (witnessEnd : Nat) :
    (i cursor : Nat) → List UtxoEntry → (stop : Nat) → Prop
  | _, cursor, [], stop => stop = cursor
  | i, cursor, entry :: rest, stop => ∃ slots,
      witnessSlots entry.covenantType entry.covenantData = .ok slots ∧
      cursor + slots ≤ witnessEnd ∧
      SpendAuthorised tx ctx i entry ((tx.witness.drop cursor).take slots) ∧
      WorkerSteps tx ctx witnessEnd (i + 1) (cursor + slots) rest stop

omit [Crypto] in
theorem assignedWorkerWitness_eq_ok {cursor slots : Nat} {ws : List WitnessItem} :
    assignedWorkerWitness tx cursor slots witnessEnd = .ok ws ↔
      cursor + slots ≤ witnessEnd ∧ ws = (tx.witness.drop cursor).take slots := by
  simp only [assignedWorkerWitness, bind_eq_ok, exists_unit, rejectIf_eq_ok, Except.ok.injEq,
    not_lt, @eq_comm _ ws]

theorem validateWorkerInputs_inline (witnessEnd : Nat) : ∀ {entries : List UtxoEntry}
    {i cursor : Nat}, (∀ e ∈ entries, SpendableType e.covenantType) →
    Inline (validateWorkerInputs ctx witnessEnd i cursor entries : SpendM tx Nat)
      (WorkerSteps tx ctx.applyContext witnessEnd i cursor entries)
  | [], i, cursor, _ => Inline.pure cursor
  | entry :: rest, i, cursor, h => by
    rw [List.forall_mem_cons] at h
    refine (Inline.bind (Inline.lift _) fun slots => Inline.bind (Inline.lift _) fun assigned =>
      Inline.bind (validateInputSpend_inline assigned i h.1) fun _ =>
        validateWorkerInputs_inline witnessEnd h.2).iff fun stop => ?_
    simp only [WorkerSteps, assignedWorkerWitness_eq_ok, exists_unit]
    constructor
    · rintro ⟨slots, hslots, _, ⟨hle, rfl⟩, hauth, hrest⟩
      exact ⟨slots, hslots, hle, hauth, hrest⟩
    · rintro ⟨slots, hslots, hle, hauth, hrest⟩
      exact ⟨slots, hslots, _, ⟨hle, rfl⟩, hauth, hrest⟩

theorem validateWorkerInputs_deferred (witnessEnd : Nat) : ∀ (entries : List UtxoEntry)
    (i cursor : Nat),
    Deferred ctx.registry (tx.witness.drop cursor)
      (validateWorkerInputs ctx witnessEnd i cursor entries : SpendM tx Nat)
  | [], _, cursor => Deferred.pure cursor
  | entry :: rest, i, cursor => by
    refine Deferred.liftBind fun slots _ => Deferred.liftBind fun assigned hassigned => ?_
    obtain ⟨-, rfl⟩ := assignedWorkerWitness_eq_ok.mp hassigned
    have h := Deferred.bind (@validateInputSpend_deferred _ tx ctx entry
      ((tx.witness.drop cursor).take slots) (UInt32.ofNat i)) fun _ _ =>
        validateWorkerInputs_deferred witnessEnd rest (i + 1) (cursor + slots)
    rwa [← List.drop_drop, List.take_append_drop] at h

theorem workerSigQueue_budgeted (threads : Threads) :
    Budgeted SuiteRegistry.defaultRegistry (workerSigQueue threads) [] :=
  ⟨⟨rfl, .inl rfl⟩, rfl, by simp⟩

theorem validateTxLocalOn_fee (threads : Threads) (ptc : PrecomputedTxContext) :
    (validateTxLocalOn threads ptc tx ctx).fee = ptc.fee := by
  unfold validateTxLocalOn
  split
  · rfl
  split
  · rfl
  unfold finishTxLocal
  split
  · rfl
  · dsimp only
    split <;> rfl

theorem finishTxLocal_valid_iff {cursor : Nat} {queue : SigCheckQueue} :
    (finishTxLocal threads ptc cursor queue).valid = true ↔
      cursor = ptc.witnessEnd ∧ ∃ queue', queue.flush threads = .ok queue' := by
  unfold finishTxLocal
  by_cases hc : cursor = ptc.witnessEnd
  · rw [if_neg (not_not.mpr hc)]
    cases hflush : queue.flush threads with
    | error e => simp [pendingTxValidationResult]
    | ok queue' => simp [hc]
  · rw [if_pos hc]
    simp [hc, txValidationErrorResult, pendingTxValidationResult]

/-- **What a worker accepts**: the slots of each input, taken in turn from the start of the span to
its end, authorise it. -/
theorem validateTxLocalOn_valid_iff (hwf : tx.WellFormed)
    (hreg : ctx.registry = SuiteRegistry.defaultRegistry) (hstart : ptc.witnessStart = 0)
    (hty : ∀ e ∈ ptc.resolvedInputs, SpendableType e.covenantType) :
    (validateTxLocalOn threads ptc tx ctx).valid = true ↔
      WorkerSteps tx ctx.applyContext ptc.witnessEnd 0 0 ptc.resolvedInputs ptc.witnessEnd := by
  have hsimplicity : rejectCoreSimplicitySpendIfPresent ptc.resolvedInputs = .ok () := by
    refine rejectIf_neg ?_
    rintro ⟨e, he, hsim⟩
    rcases hty e he with h | h | h | h | h <;> rw [hsim] at h <;> revert h <;> decide
  have hd := @validateWorkerInputs_deferred _ tx ctx ptc.witnessEnd
    ptc.resolvedInputs 0 0
  rw [List.drop_zero, hreg] at hd
  have hfit : SuiteRegistry.defaultRegistry.FootprintsFit := by decide
  rw [← hd.own_queue_iff (validateWorkerInputs_inline ptc.witnessEnd hty) hwf hfit
    (workerSigQueue_budgeted threads) threads (SighashV1PrehashCache.new tx)]
  rw [validateTxLocalOn, hsimplicity, hstart]
  dsimp only
  cases hrun : validateWorkerInputs ctx ptc.witnessEnd 0 0 ptc.resolvedInputs
      ⟨SighashV1PrehashCache.new tx, some (workerSigQueue threads)⟩ with
  | error e => simp [txValidationErrorResult, pendingTxValidationResult]
  | ok r =>
    obtain ⟨cursor, cache, sink⟩ := r
    -- a run that is given a queue leaves one
    obtain ⟨queue, rfl⟩ : ∃ queue, sink = some queue := by
      obtain ⟨v, -, hv⟩ := hd
      obtain ⟨ts, -, hsub⟩ := (hv _ cursor sink).mp ⟨cache, hrun⟩
      obtain ⟨queue, hsome, -⟩ := submitAll_holds (workerSigQueue_budgeted threads).toHolds hsub
      exact ⟨queue, hsome⟩
    dsimp only [Option.getD_some]
    rw [finishTxLocal_valid_iff]
    constructor
    · rintro ⟨rfl, hflush⟩
      exact ⟨cache, queue, rfl, hflush⟩
    · rintro ⟨_, _, heq, hflush⟩
      cases heq
      exact ⟨rfl, hflush⟩

end worker

theorem WorkerSteps.of_spans :
    ∀ {rs : List ResolvedInput} {i start : Nat}, Spans start rs witnessEnd →
    (∀ r ∈ rs, witnessSlots r.entry.covenantType r.entry.covenantData = .ok r.slotCount) →
    (∀ (k : Nat) (r : ResolvedInput), rs[k]? = some r →
      SpendAuthorised tx ctx (i + k) r.entry (r.assigned tx)) →
    WorkerSteps tx ctx witnessEnd i start (rs.map ResolvedInput.entry) witnessEnd
  | [], i, start, hspans, _, _ => hspans.symm
  | r :: rs, i, start, hspans, hslots, hauth => by
    rw [List.forall_mem_cons] at hslots
    refine ⟨r.slotCount, hslots.1, hspans.2.le, ?_, ?_⟩
    · have h := hauth 0 r rfl
      rw [ResolvedInput.assigned, hspans.1] at h
      exact h
    · refine WorkerSteps.of_spans hspans.2 hslots.2 fun k q hq => ?_
      have h := hauth (k + 1) q hq
      rwa [← Nat.add_assoc, Nat.add_right_comm] at h

theorem WorkerSteps.authorised :
    ∀ {rs : List ResolvedInput} {i start : Nat}, Spans start rs witnessEnd →
    (∀ r ∈ rs, witnessSlots r.entry.covenantType r.entry.covenantData = .ok r.slotCount) →
    WorkerSteps tx ctx witnessEnd i start (rs.map ResolvedInput.entry) stop →
    ∀ (k : Nat) (r : ResolvedInput), rs[k]? = some r →
      SpendAuthorised tx ctx (i + k) r.entry (r.assigned tx)
  | [], _, _, _, _, _, _, _, hk => by cases hk
  | q :: rs, i, start, hspans, hslots, h, k, r, hk => by
    rw [List.forall_mem_cons] at hslots
    obtain ⟨slots, hs, -, hauth, hrest⟩ := h
    cases Except.ok.inj (hs.symm.trans hslots.1)
    cases k with
    | zero =>
      cases hk
      rw [ResolvedInput.assigned, hspans.1]
      exact hauth
    | succ k =>
      have ih := WorkerSteps.authorised hspans.2 hslots.2 hrest k r hk
      rwa [Nat.add_right_comm] at ih

theorem SpendAuthorised.covenant {entry : UtxoEntry} {block : List WitnessItem}
    (h : SpendAuthorised tx ctx i entry block) :
    checkSpendCovenant entry.covenantType entry.covenantData = .ok () := by
  unfold SpendAuthorised at h
  unfold checkSpendCovenant
  split_ifs at h with h1 h2 h3 h4 h5
  · rw [if_pos h1]
  · obtain ⟨m, hm, -⟩ := h
    rw [h2, hm]
    rfl
  · obtain ⟨v, hv, -⟩ := h
    rw [h3, hv]
    rfl
  · obtain ⟨_, _, -, cov, hcov, -⟩ := h
    rw [h4, hcov]
    rfl
  · obtain ⟨_, -, cov, hcov, -⟩ := h
    rw [h5, hcov]
    rfl

theorem WorkerSteps.covenants :
    ∀ {entries : List UtxoEntry} {i start : Nat},
    WorkerSteps tx ctx witnessEnd i start entries stop →
    ∀ e ∈ entries, checkSpendCovenant e.covenantType e.covenantData = .ok ()
  | [], _, _, _ => fun e he => by cases he
  | _ :: _, _, _, h => by
    obtain ⟨slots, -, -, hauth, hrest⟩ := h
    exact List.forall_mem_cons.mpr ⟨hauth.covenant, hrest.covenants⟩

/-! ## 2. One transaction, from its context to the sequential path -/

theorem SpendSteps.exists_of_authorised :
    ∀ {rs : List ResolvedInput} {i : Nat} {acc : SpendAccum},
    (∀ r ∈ rs, r.entry.covenantType ≠ covTypeVault) →
    (∀ (k : Nat) (r : ResolvedInput), rs[k]? = some r →
      SpendAuthorised tx ctx (i + k) r.entry (r.assigned tx)) →
    acc.sumIn + (rs.map fun r => r.entry.value.toNat).sum < 2 ^ 128 →
    ∃ acc', SpendSteps tx ctx i rs acc acc'
  | [], i, acc, _, _, _ => ⟨acc, rfl⟩
  | r :: rs, i, acc, hv, hauth, hsum => by
    rw [List.forall_mem_cons] at hv
    rw [List.map_cons, List.sum_cons] at hsum
    have hrec : ∃ acc₁, acc.record r acc.vaultSpend = .ok acc₁ := by
      simp only [SpendAccum.record, checkedAdd128, SpendAccum.addVaultValue, if_neg hv.1]
      rw [rejectIf_neg (by omega), ok_bind, ok_bind, ok_bind]
      exact ⟨_, rfl⟩
    obtain ⟨acc₁, hrec⟩ := hrec
    obtain ⟨-, hsum₁, -⟩ := SpendAccum.record_ok hrec
    obtain ⟨acc', hrest⟩ := @SpendSteps.exists_of_authorised rs (i + 1) acc₁ hv.2
      (fun k q hq => by
        have h := hauth (k + 1) q hq
        rwa [← Nat.add_assoc, Nat.add_right_comm] at h) (by omega)
    refine ⟨acc', acc.vaultSpend, acc₁, ?_, hrec, hrest⟩
    rw [SpendStep, if_neg hv.1]
    exact ⟨hauth 0 r rfl, rfl⟩

omit [Crypto] in
theorem slots_of_resolved {inputs : List TxInput} {rs : List ResolvedInput}
    (h : List.Forall₂ (InputResolved ctx) inputs rs) :
    ∀ r ∈ rs, witnessSlots r.entry.covenantType r.entry.covenantData = .ok r.slotCount := by
  induction h with
  | nil => exact fun r hr => by cases hr
  | cons hr _ ih => exact List.forall_mem_cons.mpr ⟨hr.slots, ih⟩

omit [Crypto] in
theorem resolveInputs_of_collect {out : CollectedPrecomputeInputs}
    (h : collectPrecomputeInputs tx ctx.utxoSet ctx.height = .ok out)
    (hgo : out.stoppedAtCoreSimplicity = false) (hall : out.totalWitnessSlots = tx.witness.length)
    (hplain : ∀ e ∈ out.resolvedInputs, PlainEntry e) :
    ∃ st, resolveInputs tx ctx = .ok st ∧ Tracks st out ∧ st.vaultInputCount = 0 := by
  obtain ⟨st, hst, ht, hcount⟩ :=
    resolve_of_collectFrom Tracks.start h hgo (le_of_eq hall) hplain
  refine ⟨st, ?_, ht, hcount⟩
  rw [resolveInputs, hst, ok_bind, rejectIf_neg (not_not.mpr (ht.slots.symm.trans hall)), ok_bind]

/-- **Precompute and worker to sequential, one transaction**, which spends and creates no vault. -/
theorem apply_of_precomputeTxContext (hwf : tx.WellFormed) (hrot : ctx.rotation = none)
    (h : precomputeTxContext i tx ctx.txid ctx.utxoSet ctx.height = .ok ptc)
    (hwork : WorkerSteps tx ctx ptc.witnessEnd 0 0 ptc.resolvedInputs ptc.witnessEnd)
    (hin : ∀ e ∈ ptc.resolvedInputs, e.covenantType ≠ covTypeVault)
    (hout : ∀ o ∈ tx.outputs, o.covenantType ≠ covTypeVault) :
    ∃ res, applyNonCoinbaseTx tx ctx = .ok res := by
  obtain ⟨out, fee, h1, h2, h3, hcollect, hgo, hall, hfee, rfl⟩ := precomputeTxContext_eq_ok.mp h
  dsimp only at hwork hin
  obtain ⟨st, hst, ht, hcount⟩ := resolveInputs_of_collect hcollect hgo hall
    fun e he => ⟨hin e he, hwork.covenants e he⟩
  obtain ⟨hres, hend⟩ := resolveInputs_ok hst
  have hspans := hres.spans
  have hnv : ∀ r ∈ st.resolved, r.entry.covenantType ≠ covTypeVault := by
    intro r hr
    exact hin _ (by rw [ht.entries]; exact List.mem_map_of_mem hr)
  rw [ht.entries, ht.slots] at hwork
  have hauth := hwork.authorised hspans (slots_of_resolved hres.each)
  have hlen := hwf.outputs
  have hlen' := hwf.inputs
  rw [maxTxOutputs] at hlen
  rw [maxTxInputs] at hlen'
  have hsum : out.sumIn < 2 ^ 128 :=
    lt_of_le_of_lt (Nat.le_add_right _ _) (ht.sum_lt (by rw [← hres.each.length_eq]; omega) 0)
  rw [ht.sum] at hsum
  rw [computePrecomputeFee_eq_ok (by omega), ht.sum] at hfee
  obtain ⟨acc, hsteps⟩ := @SpendSteps.exists_of_authorised _ tx ctx st.resolved 0
    ⟨ctx.utxoSet, 0, 0, [], [], none⟩ hnv hauth (by rw [Nat.zero_add]; exact hsum)
  rw [hend] at hspans
  obtain ⟨cache, hspend⟩ := (validateSpends_inline hspans.fits (resolved_covenants hres.each)
    (SighashV1PrehashCache.new tx) acc none).mpr ⟨rfl, hsteps⟩
  obtain ⟨-, hsumIn, -⟩ := validateSpends_ok hspend
  obtain ⟨outs, houts⟩ := @addOutputs_exists tx ctx acc.work (by omega)
  obtain ⟨-, hsumOut, hvault⟩ := addOutputs_ok houts
  have hnone : outs.createsVault = false := by
    rw [hvault, List.any_eq_false]
    intro ty hty
    obtain ⟨o, ho, rfl⟩ := List.mem_map.mp hty
    simpa using hout o ho
  have hfin : ∃ res, finishApply st.vaultInputCount acc outs = .ok res := by
    rw [finishApply, rejectIf_neg (by rw [hsumOut, hsumIn]; omega), ok_bind,
      rejectIf_neg (by omega), ok_bind]
    exact ⟨_, rfl⟩
  obtain ⟨res, hfin⟩ := hfin
  have hrun : applyNonCoinbaseTxImpl tx ctx ⟨SighashV1PrehashCache.new tx, none⟩ =
      .ok (res, ⟨cache, none⟩) := by
    simp only [applyNonCoinbaseTxImpl, stateT_bind_eq_ok, stateT_lift_eq_ok]
    refine ⟨(), _, ⟨?_, rfl⟩, st, _, ⟨hst, rfl⟩, acc, _, hspend, outs, _, ⟨houts, rfl⟩, (), _,
      ⟨?_, rfl⟩, (), _, ?_, hfin, rfl⟩
    · simp only [validateApplyInputs, rejectIf_neg h1, rejectIf_neg h2, ok_bind, hrot, h3]
    · rw [validateVaultCreation, hnone]
      rfl
    · rw [validateVaultSpend, hcount]
      rfl
  exact ⟨res, by rw [applyNonCoinbaseTx, hrun]; rfl⟩

/-! ## 3. The fees of a block -/

omit [Crypto] in
theorem length_inputs_le_coreBytes (tx : Tx) : tx.inputs.length ≤ tx.coreBytes.length := by
  have hone : ∀ input ∈ tx.inputs, 1 ≤ input.bytes.length := by
    intro input _
    simp only [TxInput.bytes, List.length_append, input.prevTxid.length_toList]
    omega
  have hflat : tx.inputs.length ≤ (tx.inputs.flatMap TxInput.bytes).length := by
    rw [List.length_flatMap]
    simpa using List.card_nsmul_le_sum (tx.inputs.map fun i => i.bytes.length) 1 (by simpa using hone)
  simp only [Tx.coreBytes, List.length_append]
  omega

theorem parseBlockTxs_inputs_le : ∀ {count : Nat} {rem rest : Bytes} {ps : List ParsedTx},
    parseBlockTxs count rem = .ok (ps, rest) →
    (ps.map fun p => p.tx.inputs.length).sum ≤ rem.length
  | 0, rem, rest, ps, h => by
    cases h
    exact Nat.zero_le _
  | count + 1, rem, rest, ps, h => by
    simp only [parseBlockTxs, parseNextBlockTx, bind_eq_ok, exists_unit, rejectIf_eq_ok,
      Except.ok.injEq, Prod.mk.injEq] at h
    obtain ⟨_, ⟨-, p, hp, -, hle, rfl⟩, ⟨ps, _⟩, hps, rfl, rfl⟩ := h
    have ih := parseBlockTxs_inputs_le hps
    obtain ⟨-, -, -, -, hc, -⟩ := parseTx_eq_ok.mp hp
    have hin := length_inputs_le_coreBytes p.tx
    rw [List.length_append] at hc
    rw [List.length_drop] at ih
    rw [List.map_cons, List.sum_cons]
    dsimp only at hle ⊢
    omega

theorem parseBlockBytes_inputs_le (h : parseBlockBytes blockBytes = .ok pb) :
    (pb.txs.map fun tx => tx.inputs.length).sum ≤ blockBytes.length := by
  simp only [parseBlockBytes, readTxCount, bind_eq_ok, exists_unit, mapError_eq_ok,
    Except.ok.injEq] at h
  obtain ⟨-, header, -, _, ⟨⟨⟨count, k⟩, r⟩, hcount, rfl⟩, -, ⟨ps, rest⟩, hps, -, rfl⟩ := h
  have hle := parseBlockTxs_inputs_le hps
  obtain ⟨-, -, hrest, -⟩ := readCompactSize_sound hcount
  have hlen := congrArg List.length hrest
  rw [List.length_append, Reader.new, List.length_drop] at hlen
  rw [List.map_map]
  dsimp only at hle
  exact le_trans hle (by omega)

omit [Crypto] in
theorem inputValue_le (utxos : UtxoSet) (tx : Tx) :
    inputValue utxos tx ≤ tx.inputs.length * (2 ^ 64 - 1) := by
  rw [inputValue]
  induction tx.inputs with
  | nil => simp
  | cons input inputs ih =>
    have hone : weightAt (fun e : UtxoEntry => e.value.toNat) utxos input.outpoint ≤
        2 ^ 64 - 1 := by
      unfold weightAt
      split
      · rename_i e _
        have := e.value.toNat_lt
        dsimp only
        omega
      · omega
    rw [List.map_cons, List.sum_cons, List.length_cons, Nat.succ_mul]
    omega

/-! ## 4. The two block loops -/

omit [Crypto] in
theorem collectFrom_spendable : ∀ {inputs : List TxInput}
    {seen : List Outpoint} {out out' : CollectedPrecomputeInputs},
    collectFrom overlay height inputs seen out = .ok out' →
    out'.stoppedAtCoreSimplicity = false →
    (∀ e ∈ out.resolvedInputs, SpendableType e.covenantType) →
    ∀ e ∈ out'.resolvedInputs, SpendableType e.covenantType
  | [], _, _, _, h, _, hout => by
    cases h
    exact hout
  | input :: inputs, seen, out, out', h, hgo, hout => by
    obtain ⟨p, out₁, -, hne, hadd, hrest⟩ := collectFrom_cons h hgo
    obtain ⟨slots, hslots, -, -, -, rfl⟩ := CollectedPrecomputeInputs.add_eq_ok.mp hadd
    refine collectFrom_spendable hrest hgo ?_
    rw [List.forall_mem_append, List.forall_mem_singleton]
    refine ⟨hout, ?_⟩
    unfold witnessSlots at hslots
    split_ifs at hslots with h1 h2 h3 h4 h5
    · exact .inl h1
    · exact .inr (.inr (.inr (.inr h2)))
    · exact .inr (.inl h3)
    · exact .inr (.inr (.inl h4))
    · exact .inr (.inr (.inr (.inl h5)))

/-- The contexts, one for each transaction, hold what the sequential application of these
transactions to `utxos` uses. -/
def ContextsMatch (ctx : BlockApplyContext) : (utxos : UtxoSet) → List ((Tx × Bytes32) × Nat) →
    List PrecomputedTxContext → Prop
  | _, [], contexts => contexts = []
  | utxos, q :: qs, contexts => ∃ st res context rest, contexts = context :: rest ∧
      resolveInputs q.1.1 (ctx.forTx utxos q.1.2) = .ok st ∧
      applyNonCoinbaseTx q.1.1 (ctx.forTx utxos q.1.2) = .ok res ∧
      ContextMatches q.2 q.1.2 st res.2.fee context ∧ ContextsMatch ctx res.1 qs rest

/-- **Sequential to precompute, all transactions.** -/
theorem precompute_of_sequential {ctx : BlockApplyContext} (hrot : ctx.rotation = none) :
    ∀ {qs : List ((Tx × Bytes32) × Nat)} {acc acc' : BlockAccum}
    (results : List PrecomputedTxContext), (∀ q ∈ qs, q.1.1.WellFormed) →
    (qs.map Prod.fst).foldlM (applyBlockTx ctx) acc = .ok acc' →
    ∃ pre contexts, qs.foldlM (precomputeNextTx ctx.blockHeight)
        ⟨acc.utxos, acc.seenNonces, results⟩ = .ok pre ∧
      pre.overlay = acc'.utxos ∧ pre.seenNonces = acc'.seenNonces ∧
      pre.results = results ++ contexts ∧ ContextsMatch ctx acc.utxos qs contexts
  | [], acc, acc', results, _, h => by
    cases h
    exact ⟨_, [], rfl, rfl, rfl, (List.append_nil _).symm, rfl⟩
  | q :: qs, acc, acc', results, hwf, h => by
    rw [List.forall_mem_cons] at hwf
    rw [List.map_cons, List.foldlM_cons, bind_eq_ok] at h
    obtain ⟨acc₁, h1, h2⟩ := h
    obtain ⟨res, hres, hutxos, -, -, hseen⟩ := applyBlockTx_ok h1
    obtain ⟨st, context, hst, hctx, hmatch, hover⟩ :=
      precomputeTxContext_of_apply hwf.1 hrot q.2 hres
    obtain ⟨pre, contexts, hpre, hoverlay, hnonces, hresults, hall⟩ :=
      precompute_of_sequential hrot (results ++ [context]) hwf.2 h2
    refine ⟨pre, context :: contexts, ?_, hoverlay, hnonces, by simp [hresults],
      st, res, context, contexts, rfl, hst, hres, hmatch, by rw [← hutxos]; exact hall⟩
    rw [List.foldlM_cons, precomputeNextTx, hseen, ok_bind]
    rw [show precomputeTxContext q.2 q.1.1 q.1.2 acc.utxos ctx.blockHeight = .ok context from hctx,
      ok_bind]
    rw [show updatePrecomputeOverlay acc.utxos q.1.1 q.1.2 context.inputOutpoints ctx.blockHeight =
      .ok res.1 from hover, ok_bind, ok_bind, ← hutxos]
    exact hpre

/-- The worker's context for a block with the default suites. -/
def BlockApplyContext.localContext (ctx : BlockApplyContext) : TxLocalSpendContext :=
  ⟨ctx.chainId, ctx.blockHeight, ctx.blockMtp, DefaultRotationProvider,
    SuiteRegistry.defaultRegistry⟩

theorem WorkerSteps.iff_forTx {ctx : BlockApplyContext} (hrot : ctx.rotation = none)
    (hreg : ctx.registry = none) (utxos : UtxoSet) (txid : Bytes32) :
    ∀ {entries : List UtxoEntry} {i cursor : Nat},
    WorkerSteps tx ctx.localContext.applyContext witnessEnd i cursor entries stop ↔
      WorkerSteps tx (ctx.forTx utxos txid) witnessEnd i cursor entries stop
  | [], _, _ => Iff.rfl
  | entry :: rest, i, cursor => by
    have hauth : ∀ block, SpendAuthorised tx ctx.localContext.applyContext i entry block ↔
        SpendAuthorised tx (ctx.forTx utxos txid) i entry block := by
      obtain ⟨blockHeight, blockMtp, chainId, rotation, registry⟩ := ctx
      cases hrot
      cases hreg
      exact fun _ => Iff.rfl
    simp only [WorkerSteps, hauth, WorkerSteps.iff_forTx hrot hreg utxos txid]

/-- **A worker accepts what the sequential path has accepted.** -/
theorem validateTxLocalOn_of_apply {ctx : BlockApplyContext} (hrot : ctx.rotation = none)
    (hreg : ctx.registry = none) (hwf : tx.WellFormed) {utxos : UtxoSet}
    {res : UtxoSet × UtxoApplySummary} {st : ResolveState} {fee : Nat} (threads : Threads)
    (h : applyNonCoinbaseTx tx (ctx.forTx utxos txid) = .ok res)
    (hst : resolveInputs tx (ctx.forTx utxos txid) = .ok st)
    (hm : ContextMatches i txid st fee context) :
    (validateTxLocalOn threads context tx ctx.localContext).valid = true := by
  obtain ⟨_, hst', hauth⟩ := resolved_authorised h
  cases Except.ok.inj (hst.symm.trans hst')
  obtain ⟨hres, -⟩ := resolveInputs_ok hst
  have hty : ∀ e ∈ context.resolvedInputs, SpendableType e.covenantType := by
    rw [hm.entries]
    intro e he
    obtain ⟨r, hr, rfl⟩ := List.mem_map.mp he
    exact checkSpendCovenant_cases (resolved_covenants hres.each r hr)
  rw [validateTxLocalOn_valid_iff hwf rfl hm.witnessStart hty,
    WorkerSteps.iff_forTx hrot hreg utxos txid, hm.entries, hm.witnessEnd]
  exact WorkerSteps.of_spans hres.spans (slots_of_resolved hres.each) fun k r hr => by
    rw [Nat.zero_add]
    exact hauth k r hr

theorem ContextsMatch.workers {ctx : BlockApplyContext} (hrot : ctx.rotation = none)
    (hreg : ctx.registry = none) (threads : Threads) : ∀ {qs : List ((Tx × Bytes32) × Nat)}
    {utxos : UtxoSet} {contexts : List PrecomputedTxContext}, (∀ q ∈ qs, q.1.1.WellFormed) →
    ContextsMatch ctx utxos qs contexts → ∀ context ∈ contexts, ∃ q ∈ qs,
      context.txBlockIdx = q.2 ∧
      (validateTxLocalOn threads context q.1.1 ctx.localContext).valid = true
  | [], _, _, _, h => fun context hc => by
    rw [ContextsMatch] at h
    rw [h] at hc
    cases hc
  | q :: qs, utxos, _, hwf, h => by
    rw [List.forall_mem_cons] at hwf
    obtain ⟨st, res, context, rest, rfl, hst, hres, hm, hrest⟩ := h
    refine List.forall_mem_cons.mpr ⟨⟨q, List.mem_cons_self, hm.txBlockIdx, ?_⟩, ?_⟩
    · exact validateTxLocalOn_of_apply hrot hreg hwf.1 threads hres hst hm
    · intro c hc
      obtain ⟨q', hq', h'⟩ := ContextsMatch.workers hrot hreg threads hwf.2 hrest c hc
      exact ⟨q', List.mem_cons_of_mem q hq', h'⟩

omit [Crypto] in
theorem precomputeNextTx_ok {acc acc' : PrecomputeAccum} {q : (Tx × Bytes32) × Nat}
    (h : precomputeNextTx height acc q = .ok acc') :
    ∃ context, validateNonCoinbaseBlockTx acc.seenNonces q.1.1 = .ok acc'.seenNonces ∧
      precomputeTxContext q.2 q.1.1 q.1.2 acc.overlay height = .ok context ∧
      updatePrecomputeOverlay acc.overlay q.1.1 q.1.2 context.inputOutpoints height =
        .ok acc'.overlay ∧
      acc'.results = acc.results ++ [context] := by
  simp only [precomputeNextTx, bind_eq_ok, Except.ok.injEq] at h
  obtain ⟨seen, hseen, context, hctx, overlay, hover, rfl⟩ := h
  exact ⟨context, hseen, hctx, hover, rfl⟩

omit [Crypto] in
theorem precompute_results_grow : ∀ {qs : List ((Tx × Bytes32) × Nat)}
    {acc acc' : PrecomputeAccum}, qs.foldlM (precomputeNextTx height) acc = .ok acc' →
    ∀ c ∈ acc.results, c ∈ acc'.results
  | [], _, _, h => by
    cases h
    exact fun _ hc => hc
  | q :: qs, acc, acc', h => by
    rw [List.foldlM_cons, bind_eq_ok] at h
    obtain ⟨acc₁, h1, h2⟩ := h
    obtain ⟨context, -, -, -, hresults⟩ := precomputeNextTx_ok h1
    intro c hc
    exact precompute_results_grow h2 c (by rw [hresults]; exact List.mem_append_left _ hc)

omit [Crypto] in
theorem spendable_of_context (h : precomputeTxContext i tx txid overlay height = .ok context) :
    ∀ e ∈ context.resolvedInputs, SpendableType e.covenantType := by
  obtain ⟨out, fee, -, -, -, hcollect, hgo, -, -, rfl⟩ := precomputeTxContext_eq_ok.mp h
  exact collectFrom_spendable hcollect hgo (by simp)

theorem apply_of_worker {ctx : BlockApplyContext} (hrot : ctx.rotation = none)
    (hreg : ctx.registry = none) (hwf : tx.WellFormed)
    (h : precomputeTxContext i tx txid overlay ctx.blockHeight = .ok context)
    (hvalid : (validateTxLocalOn threads context tx ctx.localContext).valid = true)
    (hin : ∀ e ∈ context.resolvedInputs, e.covenantType ≠ covTypeVault)
    (hout : ∀ o ∈ tx.outputs, o.covenantType ≠ covTypeVault) :
    ∃ res, applyNonCoinbaseTx tx (ctx.forTx overlay txid) = .ok res ∧
      updatePrecomputeOverlay overlay tx txid context.inputOutpoints ctx.blockHeight =
        .ok res.1 ∧
      res.2.fee ≤ tx.inputs.length * (2 ^ 64 - 1) := by
  have hstart : context.witnessStart = 0 := by
    obtain ⟨_, _, -, -, -, -, -, -, -, rfl⟩ := precomputeTxContext_eq_ok.mp h
    rfl
  rw [validateTxLocalOn_valid_iff hwf rfl hstart (spendable_of_context h),
    WorkerSteps.iff_forTx hrot hreg overlay txid] at hvalid
  obtain ⟨res, hres⟩ := @apply_of_precomputeTxContext _ tx i context (ctx.forTx overlay txid)
    hwf hrot h hvalid hin hout
  obtain ⟨_, _, -, hctx, -, hover⟩ := precomputeTxContext_of_apply hwf hrot i hres
  cases Except.ok.inj (h.symm.trans hctx)
  obtain ⟨_, hrun⟩ := applyNonCoinbaseTx_ok hres
  obtain ⟨-, -, -, hfee, -⟩ := applyNonCoinbaseTxImpl_ok hrun
  refine ⟨res, hres, hover, le_trans ?_ (inputValue_le overlay tx)⟩
  rw [← show _ = inputValue overlay tx from hfee]
  exact Nat.le_add_right _ _

/-- **Precompute and workers to sequential, all transactions.** -/
theorem sequential_of_precompute {ctx : BlockApplyContext} (hrot : ctx.rotation = none)
    (hreg : ctx.registry = none) :
    ∀ {qs : List ((Tx × Bytes32) × Nat)} {pre pre' : PrecomputeAccum} {acc : BlockAccum},
    (∀ q ∈ qs, q.1.1.WellFormed) → (∀ q ∈ qs, pb.txs[q.2]? = some q.1.1) →
    qs.foldlM (precomputeNextTx ctx.blockHeight) pre = .ok pre' →
    (∀ c ∈ pre'.results, ∃ r, validateTxLocal threads c pb ctx.chainId ctx.blockHeight
      ctx.blockMtp = some r ∧ r.valid = true) →
    (∀ c ∈ pre'.results, ∀ e ∈ c.resolvedInputs, e.covenantType ≠ covTypeVault) →
    (∀ q ∈ qs, ∀ o ∈ q.1.1.outputs, o.covenantType ≠ covTypeVault) →
    acc.utxos = pre.overlay → acc.seenNonces = pre.seenNonces →
    acc.sumFees + (qs.map fun q => q.1.1.inputs.length).sum * (2 ^ 64 - 1) < 2 ^ 128 →
    ∃ acc', (qs.map Prod.fst).foldlM (applyBlockTx ctx) acc = .ok acc'
  | [], _, _, acc, _, _, _, _, _, _, _, _, _ => ⟨acc, rfl⟩
  | q :: qs, pre, pre', acc, hwf, htxs, h, hvalid, hin, hout, hutxos, hseen, hfees => by
    rw [List.forall_mem_cons] at hwf htxs hout
    rw [List.foldlM_cons, bind_eq_ok] at h
    obtain ⟨pre₁, h1, h2⟩ := h
    obtain ⟨context, hnonce, hctx, hover, hresults⟩ := precomputeNextTx_ok h1
    have hmem : context ∈ pre'.results :=
      precompute_results_grow h2 context (by rw [hresults]; simp)
    have hidx : context.txBlockIdx = q.2 := by
      obtain ⟨_, _, -, -, -, -, -, -, -, rfl⟩ := precomputeTxContext_eq_ok.mp hctx
      rfl
    obtain ⟨r, hr, hrv⟩ := hvalid context hmem
    rw [validateTxLocal, hidx, htxs.1, Option.map_some, Option.some.injEq] at hr
    subst hr
    obtain ⟨res, hres, hover', hfee⟩ :=
      apply_of_worker hrot hreg hwf.1 hctx hrv (hin context hmem) hout.1
    have hset := Except.ok.inj (hover.symm.trans hover')
    rw [List.map_cons, List.sum_cons, Nat.add_mul] at hfees
    obtain ⟨acc', hacc'⟩ := @sequential_of_precompute ctx hrot hreg qs pre₁ pre'
      ⟨res.1, acc.sumFees + res.2.fee, pre₁.seenNonces⟩ hwf.2 htxs.2 h2 hvalid hin hout.2 hset.symm
      rfl (by dsimp only; omega)
    refine ⟨acc', ?_⟩
    rw [List.map_cons, List.foldlM_cons, applyBlockTx, hseen, hnonce, ok_bind, hutxos, hres,
      ok_bind, addBlockFee, rejectIf_neg (by omega), ok_bind, ok_bind, ok_bind]
    exact hacc'

/-! ## 5. The whole pipeline -/

theorem parsed_nonCoinbase (h : parseBlockBytes blockBytes = .ok pb) :
    ∀ q ∈ pb.nonCoinbase.zipIdx 1, pb.txs[q.2]? = some q.1.1 ∧ q.1.1 ∈ pb.txs.tail ∧
      q.1.1.WellFormed := by
  rintro ⟨p, i⟩ hq
  have hp : p ∈ pb.nonCoinbase := List.fst_mem_of_mem_zipIdx hq
  obtain ⟨hle, hget⟩ := List.mem_zipIdx_iff_le_and_getElem?_sub.mp hq
  have hmem : p.1 ∈ pb.txs.tail := by
    rw [← ParsedBlock.nonCoinbase_map_fst (parsed_lengths h)]
    exact List.mem_map_of_mem hp
  refine ⟨?_, hmem, parsed_wellFormed h _ (List.mem_of_mem_tail hmem)⟩
  rw [ParsedBlock.nonCoinbase, List.getElem?_tail, Nat.sub_add_cancel hle] at hget
  exact (List.getElem?_zip_eq_some.mp hget).1

/-- On a parsed block the pass is the coinbase, then the loop. -/
theorem precomputeOverlay_eq (h : parseBlockBytes blockBytes = .ok pb) (utxos : UtxoSet)
    (height : Nat) :
    precomputeOverlay pb utxos height = applyCoinbaseOutputs pb utxos height none >>= fun overlay =>
      precomputeNonCoinbaseContexts pb overlay height := by
  rw [precomputeOverlay, rejectIf_neg (parsed_ne_nil h), ok_bind,
    rejectIf_neg (not_not.mpr (parsed_lengths h).symm), ok_bind]
  by_cases hone : pb.txs.length = 1
  · have hnil : pb.nonCoinbase = [] := by
      rw [ParsedBlock.nonCoinbase, ← List.length_eq_zero_iff, List.length_tail, List.length_zip]
      omega
    simp only [if_pos hone, precomputeNonCoinbaseContexts, hnil]
    rfl
  · simp only [if_neg hone]

/-- No transaction after the coinbase spends a vault, by its context, or creates one. -/
def VaultFree (pb : ParsedBlock) (contexts : List PrecomputedTxContext) : Prop :=
  (∀ c ∈ contexts, ∀ e ∈ c.resolvedInputs, e.covenantType ≠ covTypeVault) ∧
    ∀ tx ∈ pb.txs.tail, ∀ o ∈ tx.outputs, o.covenantType ≠ covTypeVault

instance (pb : ParsedBlock) (contexts : List PrecomputedTxContext) :
    Decidable (VaultFree pb contexts) := inferInstanceAs (Decidable (_ ∧ _))

/-- The default suites, as the workers use them. -/
def defaultBlockContext (height : Nat) (mtp : UInt64) (chainId : Bytes32) : BlockApplyContext :=
  ⟨height, mtp, chainId, none, none⟩

/-- **Precompute and workers agree with the sequential application.**  The bound on the length is
that of every slice; it keeps the fees of a block below 2^128. -/
theorem precompute_workers_agree {blockBytes : Bytes} {pb : ParsedBlock}
    (hparse : parseBlockBytes blockBytes = .ok pb) (hlen : blockBytes.length < 2 ^ 63)
    (threads : Threads) (utxos : UtxoSet) (height : Nat) (mtp : UInt64) (chainId : Bytes32) :
    (∀ acc, applyCoinbaseThenNonCoinbaseTxsSequential pb utxos
        (defaultBlockContext height mtp chainId) = .ok acc →
      ∃ work pre, applyCoinbaseOutputs pb utxos height none = .ok work ∧
        precomputeOverlay pb utxos height = .ok pre ∧
        precomputeTxContexts pb utxos height = .ok pre.results ∧ pre.overlay = acc.utxos ∧
        ContextsMatch (defaultBlockContext height mtp chainId) work (pb.nonCoinbase.zipIdx 1)
          pre.results ∧
        ∀ c ∈ pre.results, ∃ r, validateTxLocal threads c pb chainId height mtp = some r ∧
          r.valid = true ∧ r.fee = c.fee) ∧
    (∀ contexts, precomputeTxContexts pb utxos height = .ok contexts →
      (∀ c ∈ contexts, ∃ r, validateTxLocal threads c pb chainId height mtp = some r ∧
        r.valid = true) → VaultFree pb contexts →
      ∃ acc, applyCoinbaseThenNonCoinbaseTxsSequential pb utxos
        (defaultBlockContext height mtp chainId) = .ok acc) := by
  have hqs := parsed_nonCoinbase hparse
  have hwf : ∀ q ∈ pb.nonCoinbase.zipIdx 1, q.1.1.WellFormed := fun q hq => (hqs q hq).2.2
  have hfst : (pb.nonCoinbase.zipIdx 1).map Prod.fst = pb.nonCoinbase := List.zipIdx_map_fst 1 _
  constructor
  · intro acc h
    rw [applyCoinbaseThenNonCoinbaseTxsSequential, bind_eq_ok] at h
    obtain ⟨work, hwork, h⟩ := h
    rw [applyNonCoinbaseTxsSequential, ← hfst] at h
    obtain ⟨pre, contexts, hpre, hover, -, hresults, hall⟩ := precompute_of_sequential rfl [] hwf h
    rw [List.nil_append] at hresults
    subst hresults
    have hrun : precomputeOverlay pb utxos height = .ok pre := by
      rw [precomputeOverlay_eq hparse, show applyCoinbaseOutputs pb utxos height none = .ok work
        from hwork]
      exact hpre
    refine ⟨work, pre, hwork, hrun, ?_, hover, hall, ?_⟩
    · rw [precomputeTxContexts, hrun]
      rfl
    · intro c hc
      obtain ⟨q, hq, hidx, hvalid⟩ := hall.workers rfl rfl threads hwf c hc
      refine ⟨_, ?_, hvalid, validateTxLocalOn_fee threads c⟩
      rw [validateTxLocal, hidx, (hqs q hq).1]
      rfl
  · intro contexts h hvalid hfree
    rw [precomputeTxContexts, bind_eq_ok] at h
    obtain ⟨pre, hpre, hcontexts⟩ := h
    cases hcontexts
    rw [precomputeOverlay_eq hparse, bind_eq_ok] at hpre
    obtain ⟨work, hwork, hpre⟩ := hpre
    have hsum : ((pb.nonCoinbase.zipIdx 1).map fun q => q.1.1.inputs.length).sum ≤
        blockBytes.length := by
      have hle := parseBlockBytes_inputs_le hparse
      have htail : (pb.txs.tail.map fun tx => tx.inputs.length).sum ≤
          (pb.txs.map fun tx => tx.inputs.length).sum :=
        List.Sublist.sum_le_sum ((List.tail_sublist _).map _) (by simp)
      rw [← ParsedBlock.nonCoinbase_map_fst (parsed_lengths hparse), ← hfst, List.map_map,
        List.map_map] at htail
      exact le_trans htail hle
    have hfees : ((pb.nonCoinbase.zipIdx 1).map fun q => q.1.1.inputs.length).sum * (2 ^ 64 - 1) ≤
        2 ^ 63 * (2 ^ 64 - 1) := Nat.mul_le_mul_right _ (by omega)
    obtain ⟨acc, hacc⟩ := @sequential_of_precompute _ threads pb
      (defaultBlockContext height mtp chainId) rfl rfl _ _ pre ⟨work, 0, []⟩ hwf (fun q hq => (hqs q hq).1) hpre hvalid hfree.1
      (fun q hq => hfree.2 _ (hqs q hq).2.1) rfl rfl (by rw [Nat.zero_add]; omega)
    rw [hfst] at hacc
    refine ⟨acc, ?_⟩
    rw [applyCoinbaseThenNonCoinbaseTxsSequential,
      show applyCoinbaseOutputs pb utxos (defaultBlockContext height mtp chainId).blockHeight
        (defaultBlockContext height mtp chainId).rotation = .ok work from hwork, ok_bind]
    exact hacc

/-- Both validators on one block. -/
def bothValidators (blockBytes : Bytes) (utxos : UtxoSet) (height : Nat) (mtp : UInt64)
    (chainId : Bytes32) : Except TxError (ParsedBlock × List PrecomputedTxContext) := do
  let pb ← parseBlockBytes blockBytes
  let _ ← applyCoinbaseThenNonCoinbaseTxsSequential pb utxos
    (defaultBlockContext height mtp chainId)
  let contexts ← precomputeTxContexts pb utxos height
  .ok (pb, contexts)

omit [Crypto] in
theorem precompute_workers_agree_payBlock :
    letI := Crypto.trivial
    ∃ pb contexts, parseBlockBytes payBlock = .ok pb ∧
      precomputeTxContexts pb payState.utxos 1 = .ok contexts ∧ contexts.length = 1 ∧
      VaultFree pb contexts ∧
      (∀ c ∈ contexts, ∃ r, validateTxLocal Threads.single c pb zero32 1 1 = some r ∧
        r.valid = true ∧ r.fee = c.fee) ∧
      ∃ acc, applyCoinbaseThenNonCoinbaseTxsSequential pb payState.utxos
        (defaultBlockContext 1 1 zero32) = .ok acc := by
  let _ := Crypto.trivial
  have hrun : (bothValidators payBlock payState.utxos 1 1 zero32).toOption.any
      (fun r => r.2.length = 1 ∧ VaultFree r.1 r.2) = true := by decide +kernel
  have hlen : payBlock.length < 2 ^ 63 := by decide +kernel
  cases h : bothValidators payBlock payState.utxos 1 1 zero32 with
  | error e =>
    rw [h] at hrun
    cases hrun
  | ok r =>
    rw [h] at hrun
    obtain ⟨hone, hfree⟩ := of_decide_eq_true hrun
    simp only [bothValidators, bind_eq_ok, Except.ok.injEq] at h
    obtain ⟨pb, hpb, acc, hacc, contexts, hcontexts, rfl⟩ := h
    obtain ⟨hforth, hback⟩ :=
      precompute_workers_agree hpb hlen Threads.single payState.utxos 1 1 zero32
    obtain ⟨work, pre, -, -, hpre, -, -, hworkers⟩ := hforth acc hacc
    cases Except.ok.inj (hcontexts.symm.trans hpre)
    refine ⟨pb, _, hpb, hpre, hone, hfree, hworkers, hback _ hpre (fun c hc => ?_) hfree⟩
    obtain ⟨r, hr, hv, -⟩ := hworkers c hc
    exact ⟨r, hr, hv⟩

end Rubin.Consensus
