/-
# Parallel and sequential connection agree

`connect_block_parallel_sig_verify` defers every signature of a block to a queue with a byte and a
task budget; `connect_block_basic_in_memory` verifies each on the spot.  A whole transaction is
`Deferred`, and the queue is tied to the block weight: a transaction weighs at least 7253 for every
signature it has checked, which is what a queued task takes of the budget.
-/
import Rubin.Consensus.ConnectSpec

namespace Rubin.Consensus

open Rubin.Lib

/-! ## 1. A transaction is deferred -/

variable {ws : List WitnessItem} {w : WitnessItem} {tx : Tx} {pb : ParsedBlock}
  {reg : SuiteRegistry}

section deferred

variable [Crypto] {tx : Tx} (ctx : UtxoApplyContext)

/-- The registry every check of a transaction runs under. -/
def UtxoApplyContext.effectiveRegistry : SuiteRegistry :=
  ctx.registry.getD SuiteRegistry.defaultRegistry

theorem Deferred.error {α : Type} {registry : SuiteRegistry} (e : TxError) :
    Deferred registry ws (StateT.lift (.error e) : SpendM tx α) :=
  (Deferred.lift _).mono List.nil_subperm

theorem applyP2pkSpend_deferred (entry : UtxoEntry) (assigned : List WitnessItem) (i : UInt32) :
    Deferred ctx.effectiveRegistry assigned (applyP2pkSpend ctx entry assigned i :
      SpendM tx Unit) := by
  unfold applyP2pkSpend
  split
  · exact validateP2pkSpendQ_deferred ..
  · exact Deferred.error _

theorem applyMultisigSpend_deferred (entry : UtxoEntry) (assigned : List WitnessItem)
    (i : UInt32) :
    Deferred ctx.effectiveRegistry assigned (applyMultisigSpend ctx entry assigned i :
      SpendM tx Unit) :=
  Deferred.liftBind fun _ _ => validateThresholdSigSpendQ_deferred ..

theorem applyHtlcSpend_deferred (entry : UtxoEntry) (assigned : List WitnessItem) (i : UInt32) :
    Deferred ctx.effectiveRegistry assigned (applyHtlcSpend ctx entry assigned i :
      SpendM tx Unit) := by
  unfold applyHtlcSpend
  split
  · exact validateHtlcSpendQ_deferred ..
  · exact Deferred.error _

theorem applyStealthSpend_deferred (entry : UtxoEntry) (assigned : List WitnessItem)
    (i : UInt32) :
    Deferred ctx.effectiveRegistry assigned (applyStealthSpend ctx entry assigned i :
      SpendM tx Unit) := by
  unfold applyStealthSpend
  split
  · exact validateStealthSpendQ_deferred ..
  · exact Deferred.error _

omit [Crypto] in
theorem witnessRange_ok {start slots : Nat} (h : witnessRange tx start slots = .ok ws) :
    ws = (tx.witness.drop start).take slots := by
  simp only [witnessRange, bind_eq_ok, exists_unit, Except.ok.injEq] at h
  exact h.2.symm

/-- The items the spend loop has checked when it is done with `r`: none of a vault. -/
def ResolvedInput.checked (tx : Tx) (r : ResolvedInput) : List WitnessItem :=
  if r.isVault then [] else r.assigned tx

theorem validateResolvedSpend_deferred (r : ResolvedInput) (i : Nat)
    (vault : Option VaultSpendState) :
    Deferred ctx.effectiveRegistry (r.checked tx)
      (validateResolvedSpend ctx r i vault : SpendM tx _) := by
  refine Deferred.liftBind fun assigned hassigned => ?_
  have hassigned : assigned = r.assigned tx := witnessRange_ok hassigned
  subst hassigned
  have hkeep : ∀ {m : SpendM tx Unit}, Deferred ctx.effectiveRegistry (r.assigned tx) m →
      Deferred ctx.effectiveRegistry (r.assigned tx) (m >>= fun _ => pure vault) :=
    fun hm => hm.bindLift fun _ => .ok vault
  by_cases hv : r.entry.covenantType = covTypeVault
  · simp only [hv]
    exact Deferred.liftBind fun captured _ => Deferred.pure (some captured)
  · have hchecked : r.checked tx = r.assigned tx := by
      simp [ResolvedInput.checked, ResolvedInput.isVault, hv]
    simp only [hchecked, if_neg hv]
    split
    · exact hkeep (applyP2pkSpend_deferred ..)
    split
    · exact hkeep (applyMultisigSpend_deferred ..)
    split
    · exact hkeep (applyHtlcSpend_deferred ..)
    split
    · exact hkeep (applyStealthSpend_deferred ..)
    · exact Deferred.pure vault

theorem validateSpends_deferred : ∀ (rs : List ResolvedInput) (i : Nat) (acc : SpendAccum),
    Deferred ctx.effectiveRegistry (rs.flatMap (ResolvedInput.checked tx))
      (validateSpends ctx i rs acc : SpendM tx _)
  | [], _, acc => Deferred.pure acc
  | r :: rs, i, acc =>
    Deferred.bind (validateResolvedSpend_deferred ctx r i acc.vaultSpend) fun _ _ =>
      Deferred.liftBind fun acc₁ _ => validateSpends_deferred rs (i + 1) acc₁

theorem validateSpends_vault : ∀ {rs : List ResolvedInput} {i : Nat} {acc acc' : SpendAccum}
    {s s' : SpendState tx}, validateSpends ctx i rs acc s = .ok (acc', s') →
    acc'.vaultSpend = acc.vaultSpend ∨ ∃ r ∈ rs, r.isVault = true ∧
      ∃ v, acc'.vaultSpend = some v ∧ v.witnessStart = r.witnessStart ∧
        v.slotCount = r.slotCount
  | [], i, acc, acc', s, s', h => by
    obtain ⟨rfl, -⟩ := stateT_pure_eq_ok.mp h
    exact .inl rfl
  | r :: rs, i, acc, acc', s, s', h => by
    rw [validateSpends] at h
    obtain ⟨vault, s₁, hr, h⟩ := stateT_bind_eq_ok.mp h
    obtain ⟨acc₁, s₂, hrec, hrest⟩ := stateT_bind_eq_ok.mp h
    obtain ⟨-, -, -, -, -, -, hvault⟩ := SpendAccum.record_ok (stateT_lift_eq_ok.mp hrec).1
    rcases validateSpends_vault hrest with hsame | ⟨q, hq, hqv⟩
    · rw [hsame, hvault]
      have hturn := validateResolvedSpend_vault hr
      split at hturn
      · rename_i hisVault
        obtain ⟨v, hcap, rfl⟩ := hturn
        obtain ⟨c, -, -, -, hstart, hslots, -⟩ := VaultSpendState.capture_ok hcap
        exact .inr ⟨r, List.mem_cons_self, hisVault, v, rfl, hstart, hslots⟩
      · exact .inl hturn
    · exact .inr ⟨q, List.mem_cons_of_mem r hq, hqv⟩

theorem validateSignature_deferred (vault : VaultSpendState) :
    Deferred ctx.effectiveRegistry ((tx.witness.drop vault.witnessStart).take vault.slotCount)
      (vault.validateSignature ctx : SpendM tx Unit) := by
  refine Deferred.liftBind fun ws hws => ?_
  rw [witnessRange_ok hws]
  exact validateThresholdSigSpendQ_deferred ..

theorem validateVaultSpend_deferred (count : Nat) (acc : SpendAccum)
    (h : count = 1 → ∀ v, acc.vaultSpend = some v →
      ws = (tx.witness.drop v.witnessStart).take v.slotCount) :
    Deferred ctx.effectiveRegistry ws (validateVaultSpend ctx count acc : SpendM tx Unit) := by
  unfold validateVaultSpend
  split
  · rename_i hcount
    refine Deferred.liftBind fun v hv => Deferred.liftBind fun _ _ => Deferred.liftBind fun _ _ => ?_
    rw [h hcount v (okOr_eq_ok.mp hv)]
    exact (validateSignature_deferred ctx v).bindLift fun _ => v.validateDestinations tx
  · exact Deferred.pure ()

omit [Crypto] in
theorem flatMap_checked (tx : Tx) (rs : List ResolvedInput) :
    rs.flatMap (ResolvedInput.checked tx) =
      (rs.filter fun r => !r.isVault).flatMap (ResolvedInput.assigned tx) := by
  induction rs with
  | nil => rfl
  | cons r rs ih =>
    rw [List.flatMap_cons, ih]
    cases hr : r.isVault <;> simp [hr, ResolvedInput.checked]

omit [Crypto] in
theorem checked_append_vault {rs : List ResolvedInput}
    (hspans : Spans 0 rs tx.witness.length) :
    (rs.flatMap (ResolvedInput.checked tx) ++
      (rs.filter ResolvedInput.isVault).flatMap (ResolvedInput.assigned tx)).Subperm tx.witness := by
  have hall : rs.flatMap (ResolvedInput.assigned tx) = tx.witness := by
    have h := @Spans.flatten rs _ tx _ hspans
    rwa [List.drop_zero, Nat.sub_zero, List.take_length, ← List.flatMap_def] at h
  rw [flatMap_checked, ← List.flatMap_append]
  refine List.Perm.subperm ?_
  rw [← hall]
  exact (List.perm_append_comm.trans (List.filter_append_perm _ rs)).flatMap_right _

omit [Crypto] in
theorem filter_vault_eq {rs : List ResolvedInput} {r : ResolvedInput} (hr : r ∈ rs)
    (hv : r.isVault = true) (hcount : rs.countP ResolvedInput.isVault = 1) :
    rs.filter ResolvedInput.isVault = [r] := by
  rw [List.countP_eq_length_filter] at hcount
  obtain ⟨q, hq⟩ := List.length_eq_one_iff.mp hcount
  have hmem : r ∈ rs.filter ResolvedInput.isVault := List.mem_filter.mpr ⟨hr, hv⟩
  rw [hq, List.mem_singleton] at hmem
  rw [hq, hmem]

/-- **A whole transaction is deferred**, with at most one check for each witness item. -/
theorem applyNonCoinbaseTxImpl_deferred :
    Deferred ctx.effectiveRegistry tx.witness (applyNonCoinbaseTxImpl tx ctx) := by
  refine Deferred.liftBind fun _ _ => Deferred.liftBind fun st hst => ?_
  obtain ⟨hres, hend⟩ := resolveInputs_ok hst
  have hspans := hres.spans
  rw [hend] at hspans
  refine Deferred.mono (Deferred.bind (validateSpends_deferred ctx st.resolved 0 _)
    fun acc hacc => ?_) (checked_append_vault hspans)
  obtain ⟨s, s', hrun⟩ := hacc
  refine Deferred.liftBind fun out _ => Deferred.liftBind fun _ _ => Deferred.bindLift ?_ _
  refine validateVaultSpend_deferred ctx _ acc fun hcount v hv => ?_
  rcases validateSpends_vault ctx hrun with hnone | ⟨r, hr, hrv, v', hv', hstart, hslots⟩
  · rw [hv] at hnone
    cases hnone
  · rw [hv] at hv'
    cases hv'
    rw [filter_vault_eq hr hrv (hres.vaults.symm.trans hcount), List.flatMap_singleton, hstart,
      hslots]
    rfl

end deferred

/-! ## 2. Weight -/

/-- The item carries a key and a signature of the ML-DSA-87 sizes, and the sighash type. -/
def WitnessItem.MlDsaSized (w : WitnessItem) : Prop :=
  w.pubkey.length = mlDsa87PubkeyBytes ∧ w.signature.length = mlDsa87SigBytes + 1

instance : DecidablePred WitnessItem.MlDsaSized := fun _ => inferInstanceAs (Decidable (_ ∧ _))

def Tx.signatureCount (tx : Tx) : Nat := tx.witness.countP fun w => w.MlDsaSized

theorem WitnessItem.bytes_length_of_sized (h : w.MlDsaSized) : w.bytes.length = 7227 := by
  have hp : (encodeCompactSize mlDsa87PubkeyBytes).length = 3 := by decide
  have hs : (encodeCompactSize (mlDsa87SigBytes + 1)).length = 3 := by decide
  rw [WitnessItem.bytes_length, h.1, h.2, hp, hs]
  rfl

theorem witnessItemSize_of_sized (h : w.MlDsaSized) : witnessItemSize w = 7227 := by
  rw [witnessItemSize, h.1, h.2]
  rfl

/-- The parser keeps a sentinel short, so an item of these sizes pays for its verification. -/
theorem le_legacySigCost_of_sized {wb : Nat} (hacc : w.Accepted wb) (h : w.MlDsaSized) :
    verifyCostMlDsa87 ≤ legacySigCost w := by
  simp only [WitnessItem.Accepted, validateWitnessItemOrdered, bind_eq_ok, exists_unit,
    rejectIf_eq_ok] at hacc
  obtain ⟨-, -, hshape⟩ := hacc
  have hne : w.suiteId ≠ suiteIdSentinel := by
    intro hs
    rw [validateWitnessItemShape, if_pos hs, h.1] at hshape
    simp [validateSentinelWitness, rejectIf_eq_ok, isCanonicalSentinelWitness,
      mlDsa87PubkeyBytes] at hshape
  rw [legacySigCost, if_neg hne]
  split
  · decide
  split
  · have hshape : hasExpectedMldsa87Shape w = true := by
      simp [hasExpectedMldsa87Shape, h.1, h.2]
    rw [if_pos hshape]
  · decide

theorem countP_mul_le_sum {k : Nat} {f : WitnessItem → Nat} (h : ∀ w ∈ ws, w.MlDsaSized → k ≤ f w) :
    k * ws.countP (fun w => w.MlDsaSized) ≤ (ws.map f).sum := by
  induction ws with
  | nil => simp
  | cons w ws ih =>
    rw [List.forall_mem_cons] at h
    have ih := ih h.2
    rw [List.countP_cons, List.map_cons, List.sum_cons]
    split
    · rename_i hw
      have hw := h.1 (of_decide_eq_true hw)
      rw [Nat.mul_add]
      omega
    · rw [Nat.add_zero]
      omega

theorem Tx.WellFormed.signatureCount_le (h : tx.WellFormed) : tx.signatureCount ≤ 13 := by
  have hsum : 7227 * tx.signatureCount ≤ (tx.witness.map fun w => w.bytes.length).sum :=
    countP_mul_le_sum fun w _ hw => le_of_eq (WitnessItem.bytes_length_of_sized hw).symm
  by_cases hne : tx.witness = []
  · simp [Tx.signatureCount, hne]
  · have hle := h.witness.length_le hne
    rw [maxWitnessBytesPerTx] at hle
    omega

theorem one_le_compactSizeLen (n : Nat) : 1 ≤ compactSizeLen n := by
  unfold compactSizeLen
  split_ifs <;> omega

theorem txWeightAndStats_ok {t : Nat × Nat × Nat} (h : txWeightAndStats tx = .ok t) :
    4 * (19 + (tx.inputs.map inputSize).sum) + (tx.witness.map witnessItemSize).sum +
      (tx.witness.map legacySigCost).sum ≤ t.1 := by
  simp only [txWeightAndStats, txBaseSize, txWitnessSizeAndSigCost, txDaSizeAndBytes, txWeight,
    witnessDiscountDivisor, bind_eq_ok, exists_unit, Except.ok.injEq] at h
  obtain ⟨_, ⟨-, core, -, -, rfl⟩, _, ⟨-, rfl⟩, _, ⟨-, rfl⟩, _, ⟨-, rfl⟩, rfl⟩ := h
  have h1 := one_le_compactSizeLen tx.inputs.length
  have h2 := one_le_compactSizeLen tx.outputs.length
  simp only
  omega

theorem le_sum_inputSize (h : tx.inputs ≠ []) : 41 ≤ (tx.inputs.map inputSize).sum := by
  obtain ⟨input, inputs, hin⟩ := List.exists_cons_of_ne_nil h
  have h1 := one_le_compactSizeLen input.scriptSig.length
  rw [hin, List.map_cons, List.sum_cons, inputSize]
  omega

/-- **A transaction pays for its place in the queue**: its weight is at least the bytes its
signatures take there.  Each falls 18 short on its own, and the input makes up for 13 of them. -/
theorem signatureCount_mul_le_weight {t : Nat × Nat × Nat} (hwf : tx.WellFormed)
    (hin : tx.inputs ≠ []) (h : txWeightAndStats tx = .ok t) : 7253 * tx.signatureCount ≤ t.1 := by
  have hweight := txWeightAndStats_ok h
  have hinputs := le_sum_inputSize hin
  have hcount := hwf.signatureCount_le
  have hsize : 7227 * tx.signatureCount ≤ (tx.witness.map witnessItemSize).sum :=
    countP_mul_le_sum fun w _ hw => le_of_eq (witnessItemSize_of_sized hw).symm
  have hcost : verifyCostMlDsa87 * tx.signatureCount ≤ (tx.witness.map legacySigCost).sum := by
    refine countP_mul_le_sum fun w hmem hw => ?_
    obtain ⟨n, hacc⟩ := hwf.witness.each w hmem
    exact le_legacySigCost_of_sized hacc hw
  rw [verifyCostMlDsa87] at hcost
  omega

theorem accumulateBlockResourceStats_ok {stats : BlockTxStats}
    (h : accumulateBlockResourceStats pb = .ok stats) :
    ∃ weights : List Nat, List.Forall₂ (fun tx w => ∃ t, txWeightAndStats tx = .ok t ∧ t.1 = w)
      pb.txs weights ∧ weights.sum = stats.sumWeight := by
  refine foldlM_from_start (fun done (stats : BlockTxStats) => ∃ weights : List Nat,
    List.Forall₂ (fun tx w => ∃ t, txWeightAndStats tx = .ok t ∧ t.1 = w) done weights ∧
      weights.sum = stats.sumWeight) ⟨[], .nil, rfl⟩ ?_ h
  rintro done tx stats stats' ⟨weights, hall, hsum⟩ hstep
  simp only [addTxStats, addBlockResourceStat, bind_eq_ok, exists_unit, Except.ok.injEq] at hstep
  obtain ⟨t, ht, _, ⟨-, rfl⟩, _, -, _, -, rfl⟩ := hstep
  refine ⟨weights ++ [t.1], List.rel_append hall (.cons ⟨t, ht, rfl⟩ .nil), ?_⟩
  simp [hsum]

/-! ## 3. The queue -/

/-- No registered suite has a key and a signature that together overflow 64 bits. -/
def SuiteRegistry.FootprintsFit (reg : SuiteRegistry) : Prop :=
  ∀ p ∈ reg.suites, p.2.pubkeyLen.toNat + p.2.sigLen.toNat < 2 ^ 64

instance : DecidablePred SuiteRegistry.FootprintsFit :=
  fun reg => inferInstanceAs (Decidable (∀ p ∈ reg.suites, _))

theorem minSigcheckPayloadBytes_exists (hfit : reg.FootprintsFit) :
    ∃ m, reg.minSigcheckPayloadBytes = .ok m := by
  refine exists_foldlM_ok (fun p hp m => ?_) none
  simp only [rejectIf_neg (not_le.mpr (hfit p hp))]
  exact ⟨_, rfl⟩

theorem minSigcheckPayloadBytes_le {m : Option Nat} (h : reg.minSigcheckPayloadBytes = .ok m) :
    ∀ p ∈ reg.suites, ∃ k, m = some k ∧ k ≤ p.2.pubkeyLen.toNat + p.2.sigLen.toNat := by
  refine foldlM_from_start (fun done (m : Option Nat) => ∀ p ∈ done,
    ∃ k, m = some k ∧ k ≤ p.2.pubkeyLen.toNat + p.2.sigLen.toNat) (by simp) ?_ h
  intro done q m m' ih hstep p hp
  simp only [bind_eq_ok, exists_unit, Except.ok.injEq] at hstep
  obtain ⟨-, rfl⟩ := hstep
  rcases List.mem_append.mp hp with hp | hp
  · obtain ⟨k, rfl, hk⟩ := ih p hp
    exact ⟨_, rfl, le_trans (Nat.min_le_left _ _) hk⟩
  · rw [List.mem_singleton.mp hp]
    cases m with
    | none => exact ⟨_, rfl, le_refl _⟩
    | some k => exact ⟨_, rfl, Nat.min_le_right _ _⟩

section verify

variable [Crypto]

variable {t : SigCheckTask} {queue : SigCheckQueue} {ts us : List SigCheckTask}
  {ctx : BlockApplyContext} {acc : BlockAccum} {utxos : UtxoSet}

theorem verifyQueuedTask_ok (h : verifyQueuedTask (some reg) t = .ok ()) :
    t.pubkey.length = mlDsa87PubkeyBytes ∧ t.sig.length = mlDsa87SigBytes ∧
      ∃ p ∈ reg.suites, p.2.pubkeyLen.toNat = mlDsa87PubkeyBytes ∧
        p.2.sigLen.toNat = mlDsa87SigBytes := by
  simp only [verifyQueuedTask, bind_eq_ok, rejectIf_eq_ok, Bool.not_eq_false] at h
  obtain ⟨_, hver, rfl⟩ := h
  obtain ⟨hp, hs⟩ := verifySigWithRegistry_true hver
  simp only [verifySigWithRegistry, runtimeSuiteParamsForVerification, runtimeVerificationRegistry,
    resolveSuiteVerifierBinding, bind_eq_ok, okOr_eq_ok, rejectIf_eq_ok, Except.ok.injEq,
    not_not] at hver
  obtain ⟨params, ⟨_, rfl, hlook⟩, -, -, -, ⟨-, hpub, hsig⟩, -⟩ := hver
  obtain ⟨l₁, l₂, hsuites, -⟩ := List.lookup_eq_some_iff.mp hlook
  exact ⟨hp, hs, (t.suiteId, params), by rw [hsuites]; simp, hpub, hsig⟩

theorem maxSigcheckQueueTasks_eq (hfit : reg.FootprintsFit)
    (h : verifyQueuedTask (some reg) t = .ok ()) : maxSigcheckQueueTasks (some reg) = .ok 9375 := by
  obtain ⟨-, -, p, hp, hpub, hsig⟩ := verifyQueuedTask_ok h
  obtain ⟨m, hm⟩ := minSigcheckPayloadBytes_exists hfit
  obtain ⟨k, rfl, hk⟩ := minSigcheckPayloadBytes_le hm p hp
  rw [hpub, hsig] at hk
  have hmax : max k currentNativeQueuePayloadFloorBytes = 7219 := by
    simp only [currentNativeQueuePayloadFloorBytes, mlDsa87PubkeyBytes, mlDsa87SigBytes] at hk ⊢
    omega
  simp only [maxSigcheckQueueTasks, Option.getD_some, hm, Except.mapError, ok_bind, okOr, hmax]
  rfl

/-- `queue` holds `ts`, under the registry `reg` from the first task on. -/
structure Holds (reg : SuiteRegistry) (queue : SigCheckQueue) (ts : List SigCheckTask) : Prop where
  tasks : queue.tasks = ts
  registry : queue.registry = some reg ∨ queue.registry = none ∧ ts = []

omit [Crypto] in
theorem ensureRegistry_eq (h : Holds reg queue ts) :
    queue.ensureRegistry reg = .ok { queue with registry := some reg } := by
  obtain ⟨tasks, bytes, registry, workers⟩ := queue
  rcases h.registry with hreg | ⟨hreg, -⟩
  · cases hreg
    simp [SigCheckQueue.ensureRegistry]
  · cases hreg
    rfl

theorem submit_holds {sink : Option SigCheckQueue} (hq : Holds reg queue ts)
    (h : submit reg (some queue) t = .ok sink) :
    ∃ queue', sink = some queue' ∧ Holds reg queue' (ts ++ [t]) := by
  simp only [submit, ensureRegistry_eq hq, ok_bind, SigCheckQueue.push, bind_eq_ok, exists_unit,
    Except.ok.injEq] at h
  obtain ⟨_, ⟨-, _, -, bytes, -, rfl⟩, rfl⟩ := h
  exact ⟨_, rfl, by rw [hq.tasks], .inl rfl⟩

theorem submitAll_holds :
    ∀ {queue : SigCheckQueue} {ts : List SigCheckTask} {sink : Option SigCheckQueue},
    Holds reg queue ts → submitAll reg (some queue) us = .ok sink →
    ∃ queue', sink = some queue' ∧ Holds reg queue' (ts ++ us) := by
  induction us with
  | nil =>
    intro queue ts sink hq h
    cases h
    rw [List.append_nil]
    exact ⟨queue, rfl, hq⟩
  | cons t us ih =>
    intro queue ts sink hq h
    rw [submitAll, List.foldlM_cons, bind_eq_ok] at h
    obtain ⟨sink₁, h1, h2⟩ := h
    obtain ⟨queue₁, rfl, hq₁⟩ := submit_holds hq h1
    obtain ⟨queue', rfl, hq'⟩ := ih hq₁ h2
    rw [List.append_assoc, List.singleton_append] at hq'
    exact ⟨queue', rfl, hq'⟩

/-- A queue of verified tasks, with its byte count. -/
structure Budgeted (reg : SuiteRegistry) (queue : SigCheckQueue) (ts : List SigCheckTask) :
    Prop extends Holds reg queue ts where
  bytes : queue.queuedBytes = 7253 * ts.length
  verified : ∀ t ∈ ts, verifyQueuedTask (some reg) t = .ok ()

theorem submit_budgeted (hfit : reg.FootprintsFit) (hq : Budgeted reg queue ts)
    (ht : verifyQueuedTask (some reg) t = .ok ()) (hbytes : 7253 * (ts.length + 1) ≤ maxBlockWeight)
    :
    ∃ queue', submit reg (some queue) t = .ok (some queue') ∧ Budgeted reg queue' (ts ++ [t]) := by
  obtain ⟨hp, hs, -⟩ := verifyQueuedTask_ok ht
  have hmax := maxSigcheckQueueTasks_eq hfit ht
  rw [maxBlockWeight] at hbytes
  have htask : sigcheckTaskBytes t.pubkey.length t.sig.length = .ok 7253 := by
    rw [hp, hs]
    decide
  have hnext : nextQueuedBytes queue.queuedBytes 7253 = .ok (queue.queuedBytes + 7253) := by
    simp only [nextQueuedBytes, maxSigcheckQueueBytes, maxBlockWeight, hq.bytes]
    rw [rejectIf_neg (by omega), ok_bind, rejectIf_neg (by omega), ok_bind]
  have hbudget : ensureTaskBudget ts.length (some reg) = .ok () := by
    rw [ensureTaskBudget, hmax, ok_bind, rejectIf_neg (by omega)]
  refine ⟨⟨queue.tasks ++ [t], queue.queuedBytes + 7253, some reg, queue.workers⟩, ?_, ?_⟩
  · simp only [submit, ensureRegistry_eq hq.toHolds, ok_bind, SigCheckQueue.push, hq.tasks, hbudget,
      htask, hnext]
  · refine ⟨⟨by rw [hq.tasks], .inl rfl⟩, ?_, ?_⟩
    · simp only [hq.bytes, List.length_append, List.length_singleton]
      omega
    · intro u hu
      rcases List.mem_append.mp hu with hu | hu
      · exact hq.verified u hu
      · cases List.mem_singleton.mp hu
        exact ht

theorem submitAll_budgeted (hfit : reg.FootprintsFit) :
    ∀ {queue : SigCheckQueue} {ts : List SigCheckTask},
    Budgeted reg queue ts → (∀ t ∈ us, verifyQueuedTask (some reg) t = .ok ()) →
    7253 * (ts.length + us.length) ≤ maxBlockWeight →
    ∃ queue', submitAll reg (some queue) us = .ok (some queue') ∧
      Budgeted reg queue' (ts ++ us) := by
  induction us with
  | nil =>
    intro queue ts hq _ _
    rw [List.append_nil]
    exact ⟨queue, rfl, hq⟩
  | cons t us ih =>
    intro queue ts hq hus hbytes
    rw [List.forall_mem_cons] at hus
    rw [List.length_cons] at hbytes
    have hbytes₁ : 7253 * (ts.length + 1) ≤ maxBlockWeight := by omega
    obtain ⟨queue₁, h1, hq₁⟩ := submit_budgeted hfit hq hus.1 hbytes₁
    have hlen : (ts ++ [t]).length + us.length = ts.length + (us.length + 1) := by
      rw [List.length_append, List.length_singleton]
      omega
    obtain ⟨queue', h2, hq'⟩ := ih hq₁ hus.2 (by rw [hlen]; exact hbytes)
    rw [List.append_assoc, List.singleton_append] at hq'
    refine ⟨queue', ?_, hq'⟩
    rw [submitAll, List.foldlM_cons, h1]
    exact h2

/-! ## 4. The two block loops -/

theorem deferred_tx (tx : Tx) (ctx : UtxoApplyContext) :
    ∃ v : Option ((UtxoSet × UtxoApplySummary) × List SigCheckTask),
      (∀ res ts, v = some (res, ts) → TasksFrom tx.witness ts) ∧
      (∀ res, applyNonCoinbaseTx tx ctx = .ok res ↔ ∃ ts, v = some (res, ts) ∧
        ∀ t ∈ ts, verifyQueuedTask (some ctx.effectiveRegistry) t = .ok ()) ∧
      (∀ {queue : SigCheckQueue} {us : List SigCheckTask}, Holds ctx.effectiveRegistry queue us →
        ∀ res queue', applyNonCoinbaseTxQueuedSigchecks tx ctx queue = .ok (res, queue') ↔
          ∃ ts, v = some (res, ts) ∧
            submitAll ctx.effectiveRegistry (some queue) ts = .ok (some queue')) := by
  obtain ⟨v, htasks, hv⟩ := @applyNonCoinbaseTxImpl_deferred _ tx ctx
  refine ⟨v, htasks, fun res => ?_, fun {queue us} hq res queue' => ?_⟩
  · simp only [applyNonCoinbaseTx, bind_eq_ok, Except.ok.injEq]
    constructor
    · rintro ⟨⟨_, cache, sink⟩, hrun, rfl⟩
      obtain ⟨ts, hts, hsub⟩ := (hv _ _ sink).mp ⟨cache, hrun⟩
      exact ⟨ts, hts, (submitAll_none.mp hsub).1⟩
    · rintro ⟨ts, hts, hver⟩
      obtain ⟨cache, hrun⟩ := (hv ⟨SighashV1PrehashCache.new tx, none⟩ res none).mpr
        ⟨ts, hts, submitAll_none.mpr ⟨hver, rfl⟩⟩
      exact ⟨_, hrun, rfl⟩
  · simp only [applyNonCoinbaseTxQueuedSigchecks, bind_eq_ok, Except.ok.injEq, Prod.mk.injEq]
    constructor
    · rintro ⟨⟨_, cache, sink⟩, hrun, rfl, rfl⟩
      obtain ⟨ts, hts, hsub⟩ := (hv _ _ sink).mp ⟨cache, hrun⟩
      obtain ⟨queue₁, rfl, -⟩ := submitAll_holds hq hsub
      exact ⟨ts, hts, hsub⟩
    · rintro ⟨ts, hts, hsub⟩
      obtain ⟨cache, hrun⟩ := (hv ⟨SighashV1PrehashCache.new tx, some queue⟩ res
        (some queue')).mpr ⟨ts, hts, hsub⟩
      exact ⟨_, hrun, rfl, rfl⟩

/-- The registry every transaction of a block is checked under. -/
def BlockApplyContext.effectiveRegistry (ctx : BlockApplyContext) : SuiteRegistry :=
  ctx.registry.getD SuiteRegistry.defaultRegistry

theorem TasksFrom.length_le_signatureCount (h : TasksFrom tx.witness ts)
    (hts : ∀ t ∈ ts, verifyQueuedTask (some reg) t = .ok ()) : ts.length ≤ tx.signatureCount := by
  obtain ⟨items, hsub, hall⟩ := h
  have hsized : ∀ w ∈ items, w.MlDsaSized := by
    clear hsub
    induction hall with
    | nil =>
      intro w hw
      cases hw
    | cons hw _ ih =>
      rw [List.forall_mem_cons] at hts
      obtain ⟨hp, hs, -⟩ := verifyQueuedTask_ok hts.1
      obtain ⟨hkey, b, hsig⟩ := hw
      refine List.forall_mem_cons.mpr ⟨⟨by rw [← hkey, hp], ?_⟩, ih hts.2⟩
      rw [hsig, List.length_append, hs, List.length_singleton]
  have hcount : items.countP (fun w => w.MlDsaSized) = items.length :=
    List.countP_eq_length.mpr fun w hw => decide_eq_true (hsized w hw)
  rw [← hall.length_eq, ← hcount]
  exact hsub.countP_le _

theorem applyBlockTxQueued_of_applyBlockTx {acc' : BlockAccum} {p : Tx × Bytes32}
    (hfit : ctx.effectiveRegistry.FootprintsFit) (hq : Budgeted ctx.effectiveRegistry queue us)
    (hbytes : 7253 * (us.length + p.1.signatureCount) ≤ maxBlockWeight)
    (h : applyBlockTx ctx acc p = .ok acc') :
    ∃ queue' us', applyBlockTxQueued ctx (acc, queue) p = .ok (acc', queue') ∧
      Budgeted ctx.effectiveRegistry queue' us' ∧
      us'.length ≤ us.length + p.1.signatureCount := by
  simp only [applyBlockTx, bind_eq_ok, Except.ok.injEq] at h
  obtain ⟨seen, hseen, res, hres, sum, hsum, rfl⟩ := h
  obtain ⟨v, htasks, hseq, hpar⟩ := deferred_tx p.1 (ctx.forTx acc.utxos p.2)
  obtain ⟨ts, hv, hts⟩ := (hseq res).mp hres
  have hlen := (htasks res ts hv).length_le_signatureCount hts
  obtain ⟨queue', hsub, hq'⟩ := submitAll_budgeted hfit hq hts (le_trans (by omega) hbytes)
  have hrun := (hpar hq.toHolds res queue').mpr ⟨ts, hv, hsub⟩
  refine ⟨queue', us ++ ts, ?_, hq', by rw [List.length_append]; omega⟩
  simp only [applyBlockTxQueued, hseen, hrun, hsum, ok_bind]

theorem applyBlockTx_of_applyBlockTxQueued {acc' : BlockAccum} {p : Tx × Bytes32}
    {queue' : SigCheckQueue} (hq : Holds ctx.effectiveRegistry queue us)
    (h : applyBlockTxQueued ctx (acc, queue) p = .ok (acc', queue')) :
    ∃ ts, Holds ctx.effectiveRegistry queue' (us ++ ts) ∧
      ((∀ t ∈ ts, verifyQueuedTask (some ctx.effectiveRegistry) t = .ok ()) →
        applyBlockTx ctx acc p = .ok acc') := by
  simp only [applyBlockTxQueued, bind_eq_ok, Except.ok.injEq, Prod.mk.injEq] at h
  obtain ⟨seen, hseen, ⟨res, _⟩, hres, sum, hsum, rfl, rfl⟩ := h
  obtain ⟨v, -, hseq, hpar⟩ := deferred_tx p.1 (ctx.forTx acc.utxos p.2)
  obtain ⟨ts, hv, hsub⟩ := (hpar hq res _).mp hres
  obtain ⟨_, hsome, hq'⟩ := submitAll_holds hq hsub
  cases hsome
  refine ⟨ts, hq', fun hts => ?_⟩
  simp only [applyBlockTx, hseen, (hseq res).mpr ⟨ts, hv, hts⟩, hsum, ok_bind]

/-- Sequential to deferred, all transactions.  The queue grows by at most the signatures the
transactions carry. -/
theorem collectQueued_of_sequential (hfit : ctx.effectiveRegistry.FootprintsFit) :
    ∀ {ps : List (Tx × Bytes32)}
    {acc acc' : BlockAccum} {queue : SigCheckQueue} {us : List SigCheckTask},
    Budgeted ctx.effectiveRegistry queue us →
    7253 * (us.length + (ps.map fun p => p.1.signatureCount).sum) ≤ maxBlockWeight →
    ps.foldlM (applyBlockTx ctx) acc = .ok acc' →
    ∃ queue' us', ps.foldlM (applyBlockTxQueued ctx) (acc, queue) = .ok (acc', queue') ∧
      Budgeted ctx.effectiveRegistry queue' us'
  | [], acc, acc', queue, us, hq, _, h => by
    cases h
    exact ⟨queue, us, rfl, hq⟩
  | p :: ps, acc, acc', queue, us, hq, hbytes, h => by
    rw [List.foldlM_cons, bind_eq_ok] at h
    obtain ⟨acc₁, h1, h2⟩ := h
    rw [List.map_cons, List.sum_cons] at hbytes
    have hbytes₁ : 7253 * (us.length + p.1.signatureCount) ≤ maxBlockWeight := by omega
    obtain ⟨queue₁, us₁, hrun₁, hq₁, hlen⟩ :=
      applyBlockTxQueued_of_applyBlockTx hfit hq hbytes₁ h1
    obtain ⟨queue', us', hrun', hq'⟩ :=
      collectQueued_of_sequential hfit hq₁ (le_trans (by omega) hbytes) h2
    refine ⟨queue', us', ?_, hq'⟩
    rw [List.foldlM_cons, hrun₁]
    exact hrun'

theorem sequential_of_collectQueued : ∀ {ps : List (Tx × Bytes32)}
    {acc acc' : BlockAccum} {queue queue' : SigCheckQueue} {us : List SigCheckTask},
    Holds ctx.effectiveRegistry queue us →
    ps.foldlM (applyBlockTxQueued ctx) (acc, queue) = .ok (acc', queue') →
    ∃ ts, Holds ctx.effectiveRegistry queue' (us ++ ts) ∧
      ((∀ t ∈ ts, verifyQueuedTask (some ctx.effectiveRegistry) t = .ok ()) →
        ps.foldlM (applyBlockTx ctx) acc = .ok acc')
  | [], acc, acc', queue, queue', us, hq, h => by
    cases h
    exact ⟨[], by rwa [List.append_nil], fun _ => rfl⟩
  | p :: ps, acc, acc', queue, queue', us, hq, h => by
    rw [List.foldlM_cons, bind_eq_ok] at h
    obtain ⟨⟨acc₁, queue₁⟩, h1, h2⟩ := h
    obtain ⟨ts₁, hq₁, hseq₁⟩ := applyBlockTx_of_applyBlockTxQueued hq h1
    obtain ⟨ts₂, hq', hseq₂⟩ := sequential_of_collectQueued hq₁ h2
    refine ⟨ts₁ ++ ts₂, by rwa [← List.append_assoc], fun hts => ?_⟩
    rw [List.forall_mem_append] at hts
    rw [List.foldlM_cons, hseq₁ hts.1]
    exact hseq₂ hts.2

omit [Crypto] in
theorem blockSigQueue_holds (threads : Threads) (ctx : BlockApplyContext) (workers : Nat) :
    Holds ctx.effectiveRegistry (blockSigQueue threads ctx.registry workers) [] := by
  rw [BlockApplyContext.effectiveRegistry]
  cases ctx.registry with
  | none => exact ⟨rfl, .inr ⟨rfl, rfl⟩⟩
  | some reg => exact ⟨rfl, .inl rfl⟩

theorem Holds.flush_ok_iff (h : Holds reg queue ts) (threads : Threads) :
    (∃ queue', queue.flush threads = .ok queue') ↔
      ∀ t ∈ ts, verifyQueuedTask (some reg) t = .ok () := by
  rw [SigCheckQueue.flush_ok_iff, h.tasks]
  rcases h.registry with hreg | ⟨-, rfl⟩
  · rw [hreg]
  · simp

/-- **The transactions of a block come out the same either way**, if what they carry fits. -/
theorem applyNonCoinbaseTxsParallel_iff {threads : Threads} {workers : Nat}
    (hfit : ctx.effectiveRegistry.FootprintsFit)
    (hbytes : applyNonCoinbaseTxsSequential pb utxos ctx = .ok acc →
      7253 * (pb.nonCoinbase.map fun p => p.1.signatureCount).sum ≤ maxBlockWeight) :
    (∃ n, applyNonCoinbaseTxsParallel threads pb utxos ctx workers = .ok (acc, n)) ↔
      applyNonCoinbaseTxsSequential pb utxos ctx = .ok acc := by
  have hempty := blockSigQueue_holds threads ctx workers
  simp only [applyNonCoinbaseTxsParallel, collectQueuedNonCoinbaseTxs, bind_eq_ok,
    Except.ok.injEq, Prod.mk.injEq]
  constructor
  · rintro ⟨_, ⟨_, queue⟩, hrun, _, hflush, rfl, -⟩
    obtain ⟨ts, hq, hseq⟩ := sequential_of_collectQueued hempty hrun
    exact hseq ((hq.flush_ok_iff threads).mp ⟨_, hflush⟩)
  · intro h
    have hstart : Budgeted ctx.effectiveRegistry (blockSigQueue threads ctx.registry workers) [] :=
      ⟨hempty, by cases ctx.registry <;> rfl, by simp⟩
    obtain ⟨queue, us, hrun, hq⟩ := collectQueued_of_sequential hfit hstart
      (by rw [List.length_nil, Nat.zero_add]; exact hbytes h) h
    obtain ⟨queue', hflush⟩ := (hq.flush_ok_iff threads).mpr hq.verified
    exact ⟨_, (acc, queue), hrun, queue', hflush, rfl, rfl⟩

/-! ## 5. The whole connection -/

theorem validateConnectPreflight_weight {expectedPrevHash expectedTarget : Option Bytes32}
    {blockHeight : Nat} {prevTimestamps : Option (List UInt64)}
    (h : validateConnectPreflight pb expectedPrevHash expectedTarget blockHeight prevTimestamps =
      .ok ()) :
    ∃ weights : List Nat, List.Forall₂ (fun tx w => ∃ t, txWeightAndStats tx = .ok t ∧ t.1 = w)
      pb.txs weights ∧ weights.sum ≤ maxBlockWeight := by
  simp only [validateConnectPreflight, validateParsedBlockPreflight, validateBlockResourceLimits,
    bind_eq_ok, exists_unit, rejectIf_eq_ok] at h
  obtain ⟨_, ⟨-, -, -, stats, hstats, ⟨hle, -⟩, -⟩, -⟩ := h
  obtain ⟨weights, hall, hsum⟩ := accumulateBlockResourceStats_ok hstats
  exact ⟨weights, hall, by omega⟩

omit [Crypto] in
theorem sum_signatureCount_le {txs : List Tx} {weights : List Nat}
    (h : List.Forall₂ (fun tx w => ∃ t, txWeightAndStats tx = .ok t ∧ t.1 = w) txs weights)
    (hwf : ∀ tx ∈ txs, tx.WellFormed) (hin : ∀ tx ∈ txs, tx.inputs ≠ []) :
    7253 * (txs.map Tx.signatureCount).sum ≤ weights.sum := by
  induction h with
  | nil => simp
  | cons hw _ ih =>
    rw [List.forall_mem_cons] at hwf hin
    obtain ⟨t, ht, rfl⟩ := hw
    have h1 := signatureCount_mul_le_weight hwf.1 hin.1 ht
    have h2 := ih hwf.2 hin.2
    rw [List.map_cons, List.sum_cons, List.sum_cons]
    omega

theorem applyNonCoinbaseTxsSequential_inputs
    (h : applyNonCoinbaseTxsSequential pb utxos ctx = .ok acc) :
    ∀ p ∈ pb.nonCoinbase, p.1.inputs ≠ [] := by
  refine foldlM_from_start (fun done _ => ∀ p ∈ done, p.1.inputs ≠ []) (by simp) ?_ h
  intro done p acc acc' hdone hstep
  obtain ⟨-, -, -, -, -, hvalid⟩ := applyBlockTx_ok hstep
  simp only [validateNonCoinbaseBlockTx, validateNonCoinbaseNonceAndInputCount, bind_eq_ok,
    exists_unit, rejectIf_eq_ok] at hvalid
  rw [List.forall_mem_append, List.forall_mem_singleton]
  exact ⟨hdone, hvalid.2.1.2⟩

theorem block_signatures_fit {blockBytes : Bytes} {generated : Nat} {ctx : ConnectBlockContext}
    {prepared : PreparedConnectBlock} {actx : BlockApplyContext}
    (hprep : prepareConnectBlock blockBytes generated ctx = .ok prepared)
    (h : applyNonCoinbaseTxsSequential prepared.pb utxos actx = .ok acc) :
    7253 * (prepared.pb.nonCoinbase.map fun p => p.1.signatureCount).sum ≤ maxBlockWeight := by
  obtain ⟨hparse, hpre, -⟩ := prepareConnectBlock_ok hprep
  obtain ⟨weights, hall, hsum⟩ := validateConnectPreflight_weight hpre
  have hfst := ParsedBlock.nonCoinbase_map_fst (parsed_lengths hparse)
  have hwf : ∀ tx ∈ prepared.pb.txs.tail, tx.WellFormed :=
    fun tx htx => parsed_wellFormed hparse tx (List.mem_of_mem_tail htx)
  have hin : ∀ tx ∈ prepared.pb.txs.tail, tx.inputs ≠ [] := by
    intro tx htx
    rw [← hfst] at htx
    obtain ⟨p, hp, rfl⟩ := List.mem_map.mp htx
    exact applyNonCoinbaseTxsSequential_inputs h p hp
  have htail : List.Forall₂ (fun tx w => ∃ t, txWeightAndStats tx = .ok t ∧ t.1 = w)
      prepared.pb.txs.tail weights.tail := by
    rw [← List.drop_one, ← List.drop_one]
    exact List.forall₂_drop 1 hall
  have hle := sum_signatureCount_le htail hwf hin
  rw [← hfst, List.map_map] at hle
  have hweights : weights.tail.sum ≤ weights.sum := by
    cases weights with
    | nil => exact le_refl _
    | cons w ws => rw [List.tail_cons, List.sum_cons]; omega
  exact le_trans hle (le_trans hweights hsum)

/-- Two connections from `state` agree: both accept, with the same state, fees, count and digest,
or both reject and leave the state as it was. -/
inductive SameVerdict (state : InMemoryChainState) :
    (seq par : EStateM.Result TxError InMemoryChainState ConnectBlockBasicSummary) → Prop
  | accepted {s s' : ConnectBlockBasicSummary} {state' : InMemoryChainState} :
      s.sumFees = s'.sumFees → s.utxoCount = s'.utxoCount →
      s.postStateDigest = s'.postStateDigest → SameVerdict state (.ok s state') (.ok s' state')
  | rejected {e e' : TxError} : SameVerdict state (.error e state) (.error e' state)

theorem finalizeConnectedBlock_sameVerdict (prepared : PreparedConnectBlock) (work : UtxoSet)
    (fees n n' : Nat) (state : InMemoryChainState) :
    SameVerdict state (finalizeConnectedBlock prepared work fees n state)
      (finalizeConnectedBlock prepared work fees n' state) := by
  unfold finalizeConnectedBlock
  cases validateCoinbaseValueBound prepared.pb prepared.blockHeight prepared.alreadyGenerated
    fees with
  | error e => exact .rejected
  | ok _ =>
    cases alreadyGeneratedAfterBlock prepared.blockHeight prepared.alreadyGenerated with
    | error e => exact .rejected
    | ok n1 => exact .accepted rfl rfl rfl

/-- **Parallel and sequential connection are one rule**, for every interleaving of the workers and
every registry whose suites have a footprint that fits in 64 bits. -/
theorem parallel_connection_agrees (threads : Threads) (blockBytes : Bytes)
    (ctx : ConnectBlockContext) (workers : Nat) (state : InMemoryChainState)
    (hfit : (ctx.registry.getD SuiteRegistry.defaultRegistry).FootprintsFit) :
    SameVerdict state (connectBlockBasicInMemory blockBytes ctx state)
      (connectBlockParallelSigVerify threads blockBytes ctx workers state) := by
  change SameVerdict state
    ((liftE (prepareConnectBlock blockBytes state.alreadyGenerated ctx) >>= _) state)
    ((liftE (prepareConnectBlock blockBytes state.alreadyGenerated ctx) >>= _) state)
  cases hprep : prepareConnectBlock blockBytes state.alreadyGenerated ctx with
  | error e => exact .rejected
  | ok prepared =>
    simp only [liftE_ok_bind, applyCoinbaseThenNonCoinbaseTxsSequential]
    change SameVerdict state
      ((liftE (applyCoinbaseOutputs prepared.pb state.utxos prepared.blockHeight ctx.rotation >>= _)
        >>= _) state) _
    cases applyCoinbaseOutputs prepared.pb state.utxos prepared.blockHeight ctx.rotation with
    | error e => exact .rejected
    | ok work =>
      simp only [liftE_ok_bind, ok_bind]
      have hiff := fun acc => @applyNonCoinbaseTxsParallel_iff prepared.pb _
        (prepared.applyContext ctx) acc work threads workers hfit (block_signatures_fit hprep)
      cases hseq : applyNonCoinbaseTxsSequential prepared.pb work (prepared.applyContext ctx) with
      | error e =>
        cases hpar : applyNonCoinbaseTxsParallel threads prepared.pb work
          (prepared.applyContext ctx) workers with
        | error e' => exact .rejected
        | ok r =>
          have h := (hiff r.1).mp ⟨r.2, hpar⟩
          rw [hseq] at h
          cases h
      | ok acc =>
        obtain ⟨n, hpar⟩ := (hiff acc).mpr hseq
        rw [hpar]
        exact finalizeConnectedBlock_sameVerdict prepared acc.utxos acc.sumFees 0 n state

end verify

/-- A block of height 1 that spends one P2PK entry.  Its commitments are those of
`Crypto.trivial`. -/
def payBlock : Bytes :=
  u32LeBytes 1 ++ zero32.toList ++ zero32.toList ++ u64LeBytes 1 ++ powLimit.toList ++
    u64LeBytes 0 ++ [2] ++
  (u32LeBytes 1 ++ [0x00] ++ u64LeBytes 0 ++
    [1] ++ zero32.toList ++ u32LeBytes 0xffffffff ++ [0] ++ u32LeBytes 0xffffffff ++
    [1] ++ u64LeBytes 0 ++ u16LeBytes covTypeAnchor ++ [32] ++ zero32.toList ++
    u32LeBytes 1 ++ [0] ++ [0]) ++
  (u32LeBytes 1 ++ [0x00] ++ u64LeBytes 1 ++
    [1] ++ zero32.toList ++ u32LeBytes 0 ++ [0] ++ u32LeBytes 0 ++
    [1] ++ u64LeBytes 90 ++ u16LeBytes covTypeP2pk ++ [33, 1] ++ zero32.toList ++
    u32LeBytes 0 ++
    [1, 1] ++ encodeCompactSize 2592 ++ List.replicate 2592 0 ++
      encodeCompactSize 4628 ++ List.replicate 4627 0 ++ [1] ++ [0])

def payState : InMemoryChainState :=
  { utxos := Finmap.singleton ⟨zero32, 0⟩
      { value := 100, covenantType := covTypeP2pk, covenantData := 1 :: zero32.toList
        creationHeight := 0, createdByCoinbase := false }
    alreadyGenerated := 0 }

def payContext (registry : Option SuiteRegistry) : ConnectBlockContext :=
  { expectedPrevHash := none, expectedTarget := none, blockHeight := 1, prevTimestamps := none,
    chainId := zero32, rotation := none, registry }

theorem parallel_connection_agrees_payBlock :
    letI := Crypto.trivial
    (∃ summary state', connectBlockBasicInMemory payBlock (payContext none) payState =
        .ok summary state') ∧
      SameVerdict payState (connectBlockBasicInMemory payBlock (payContext none) payState)
        (connectBlockParallelSigVerify Threads.single payBlock (payContext none) 4 payState) := by
  let _ := Crypto.trivial
  have hok : accepted (connectBlockBasicInMemory payBlock (payContext none) payState) = true := by
    decide +kernel
  have hfit : SuiteRegistry.defaultRegistry.FootprintsFit := by decide
  exact ⟨exists_of_accepted hok,
    parallel_connection_agrees Threads.single payBlock (payContext none) 4 payState hfit⟩

/-- The default registry, with a second suite whose sizes overflow together and that no input
uses. -/
def overflowRegistry : SuiteRegistry where
  suites := SuiteRegistry.defaultRegistry.suites ++
    [(2, { suiteId := 2, pubkeyLen := 0xffffffffffffffff, sigLen := 1, verifyCost := 0
           algName := "unused" })]
  sorted := by decide
  native := by decide

/-- **An unused suite splits the two connections**: the queue computes its task budget over all
registered suites, and refuses the block when one of them overflows. -/
theorem overflow_registry_splits :
    letI := Crypto.trivial
    (∃ summary state', connectBlockBasicInMemory payBlock (payContext (some overflowRegistry))
        payState = .ok summary state') ∧
      ¬ ∃ summary state', connectBlockParallelSigVerify Threads.single payBlock
        (payContext (some overflowRegistry)) 1 payState = .ok summary state' := by
  let _ := Crypto.trivial
  have hseq : accepted (connectBlockBasicInMemory payBlock (payContext (some overflowRegistry))
      payState) = true := by decide +kernel
  have hpar : accepted (connectBlockParallelSigVerify Threads.single payBlock
      (payContext (some overflowRegistry)) 1 payState) = false := by decide +kernel
  refine ⟨exists_of_accepted hseq, ?_⟩
  rintro ⟨summary, state', h⟩
  rw [h] at hpar
  cases hpar

end Rubin.Consensus
