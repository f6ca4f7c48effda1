/-
# The queue on a failed path

`SpendM` forgets the queue when a validation fails.  The source does not: every validator writes to
the one queue of the block, a signature may bind the registry and then be refused for want of space,
and it is `rollback_to` that takes the tasks of a failed spend out again, in
`validate_threshold_sig_spend_q` and once more around the whole transaction.

Here the validators are translated a second time, over a state that survives errors.  Each of them
is `InPlace` with its counterpart in `SpendM`: the outcome is the same, and all that ever happened
to the queue is growth (`Grows`), which a rollback to a mark taken before undoes exactly
(`rollbackTo_of_grows`).  From this follow what a failed transaction leaves behind (nothing) and
that the byte counter is right over whole runs, as long as marks are used like a stack.
-/
import Rubin.Consensus.Utxo
import Rubin.Lib.Rollback

namespace Rubin.Consensus

open Rubin.Lib

/-! ## 1. Marks -/

structure SigCheckQueueMark where
  len : Nat
  queuedBytes : Nat
  registryWasBound : Bool
deriving DecidableEq

def SigCheckTask.byteCost (task : SigCheckTask) : Nat :=
  sigcheckTaskFixedOverheadBytes + task.pubkey.length + task.sig.length

def taskBytes (tasks : List SigCheckTask) : Nat := (tasks.map SigCheckTask.byteCost).sum

variable {queue : SigCheckQueue}

namespace SigCheckQueue

def mark (queue : SigCheckQueue) : SigCheckQueueMark :=
  ⟨queue.tasks.length, queue.queuedBytes, queue.registry.isSome⟩

def rollbackTo (queue : SigCheckQueue) (mark : SigCheckQueueMark) : SigCheckQueue :=
  { queue with
    tasks := queue.tasks.take mark.len
    queuedBytes := mark.queuedBytes
    registry := if mark.registryWasBound then queue.registry else none }

/-- What the queue goes through between a mark and a rollback to it. -/
structure Grows (queue queue' : SigCheckQueue) : Prop where
  workers : queue'.workers = queue.workers
  tasks : ∃ ts, queue'.tasks = queue.tasks ++ ts ∧
    queue'.queuedBytes = queue.queuedBytes + taskBytes ts
  registry : queue'.registry = queue.registry ∨ queue.registry = none

theorem Grows.refl (queue : SigCheckQueue) : Grows queue queue :=
  ⟨rfl, ⟨[], by simp [taskBytes]⟩, Or.inl rfl⟩

variable {queue' : SigCheckQueue}

theorem Grows.trans {queue'' : SigCheckQueue} (h : Grows queue queue') (h' : Grows queue' queue'') :
    Grows queue queue'' where
  workers := h'.workers.trans h.workers
  tasks := by
    obtain ⟨ts, htasks, hbytes⟩ := h.tasks
    obtain ⟨us, htasks', hbytes'⟩ := h'.tasks
    refine ⟨ts ++ us, by rw [htasks', htasks, List.append_assoc], ?_⟩
    rw [hbytes', hbytes, taskBytes, taskBytes, taskBytes, List.map_append, List.sum_append,
      Nat.add_assoc]
  registry := by
    rcases h.registry with hreg | hreg
    · rcases h'.registry with hreg' | hreg'
      · exact Or.inl (hreg'.trans hreg)
      · exact Or.inr (hreg.symm.trans hreg')
    · exact Or.inr hreg

theorem rollbackTo_of_grows (h : Grows queue queue') : queue'.rollbackTo queue.mark = queue := by
  obtain ⟨ts, htasks, -⟩ := h.tasks
  obtain ⟨tasks, bytes, registry, workers⟩ := queue
  obtain ⟨tasks', bytes', registry', workers'⟩ := queue'
  have hworkers := h.workers
  have hregistry := h.registry
  dsimp only at htasks hworkers hregistry
  subst htasks hworkers
  simp only [rollbackTo, mark, List.take_left', mk.injEq, true_and, and_true]
  rcases hregistry with hreg | hreg
  · rw [hreg]
    cases registry with
    | none => rfl
    | some r => rfl
  · rw [hreg]
    rfl

theorem push_grows {task : SigCheckTask} (h : queue.push task = .ok queue') :
    Grows queue queue' ∧ queue'.tasks = queue.tasks ++ [task] := by
  simp only [push, sigcheckTaskBytes, nextQueuedBytes, bind_eq_ok, exists_unit, rejectIf_eq_ok,
    Except.ok.injEq] at h
  obtain ⟨-, _, ⟨-, rfl⟩, _, ⟨-, -, rfl⟩, rfl⟩ := h
  refine ⟨⟨rfl, ⟨[task], rfl, ?_⟩, Or.inl rfl⟩, rfl⟩
  simp [taskBytes, SigCheckTask.byteCost]

theorem ensureRegistry_grows {registry : SuiteRegistry}
    (h : queue.ensureRegistry registry = .ok queue') : Grows queue queue' := by
  rw [ensureRegistry] at h
  split at h
  · split at h
    · cases h
    · cases h
      exact Grows.refl queue
  · rename_i hnone
    cases h
    exact ⟨rfl, ⟨[], by simp [taskBytes]⟩, Or.inr hnone⟩

def ensureRegistryInPlace (registry : SuiteRegistry) : EStateM TxError SigCheckQueue Unit :=
  writing fun queue => queue.ensureRegistry registry

def pushInPlace (task : SigCheckTask) : EStateM TxError SigCheckQueue Unit :=
  writing fun queue => queue.push task

end SigCheckQueue

/-- The signature is refused after the registry was bound if the queue is full. -/
def submitInPlace (registry : SuiteRegistry) (task : SigCheckTask) :
    EStateM TxError SigCheckQueue Unit := do
  SigCheckQueue.ensureRegistryInPlace registry
  SigCheckQueue.pushInPlace task

/-! ## 2. Validators that keep the queue on an error -/

section queued

variable [Crypto] {tx : Tx}

abbrev QueueM (tx : Tx) := EStateM TxError (SpendState tx)

/-- The cache is a local of the transaction: what a failed digest left in it is not seen. -/
def withCacheInPlace {α : Type} (m : SighashV1PrehashCache.M tx α) : QueueM tx α := fun s =>
  match m s.cache with
  | .ok r => .ok r.1 { s with cache := r.2 }
  | .error e => .error e s

namespace Queued

def queueOrVerifySignature (suiteId : UInt8) (pubkey cryptoSig : Bytes) (digest : Bytes32)
    (registry : SuiteRegistry) (errOnFail : TxError) : QueueM tx Unit := fun s =>
  let task : SigCheckTask := ⟨suiteId, pubkey, cryptoSig, digest, errOnFail⟩
  match s.queue with
  | some queue =>
    match submitInPlace registry task queue with
    | .ok () queue => .ok () { s with queue := some queue }
    | .error e queue => .error e { s with queue := some queue }
  | none => liftE (verifyQueuedTask (some registry) task) s

def checkSignature (w : WitnessItem) (inputIndex : UInt32) (inputValue : UInt64)
    (chainId : Bytes32) (registry : SuiteRegistry) (invalidSigError : TxError) :
    QueueM tx Unit := do
  let sig ← liftE (extractCryptoSigAndSighash w)
  let digest ← withCacheInPlace (sighashV1DigestWithCache tx inputIndex inputValue chainId sig.2)
  queueOrVerifySignature w.suiteId w.pubkey sig.1 digest registry invalidSigError

def verifyMldsaKeyAndSigQ (w : WitnessItem) (expectedKeyId : Bytes32) (inputIndex : UInt32)
    (inputValue : UInt64) (chainId : Bytes32) (registry : SuiteRegistry)
    (keyBindingError invalidSigError : TxError) : QueueM tx Unit := do
  liftE (rejectIf (sha3_256 w.pubkey ≠ expectedKeyId) keyBindingError)
  checkSignature w inputIndex inputValue chainId registry invalidSigError

def validateP2pkSpendQ (entry : UtxoEntry) (w : WitnessItem) (inputIndex : UInt32)
    (inputValue : UInt64) (chainId : Bytes32) (blockHeight : Nat)
    (rotation : Option RotationProvider) (registry : Option SuiteRegistry) : QueueM tx Unit := do
  let rp := rotation.getD DefaultRotationProvider
  let reg := registry.getD SuiteRegistry.defaultRegistry
  let params ← liftE (spendSuiteParams w (rp.nativeSpendSuites blockHeight) reg
    "CORE_P2PK suite not in native spend set" "CORE_P2PK suite not registered")
  liftE (validateWitnessItemLengths w params)
  let keyId ← liftE (p2pkCovenantKeyId entry w.suiteId)
  verifyMldsaKeyAndSigQ w keyId inputIndex inputValue chainId reg
    ⟨.txErrSigInvalid, "CORE_P2PK key binding mismatch"⟩
    ⟨.txErrSigInvalid, "CORE_P2PK signature invalid"⟩

def validateThresholdSlot (key : Bytes32) (w : WitnessItem) (inputIndex : UInt32)
    (inputValue : UInt64) (chainId : Bytes32) (context : ThresholdContext)
    (nativeSpend : NativeSuiteSet) (reg : SuiteRegistry) : QueueM tx Unit := do
  let params ← liftE (spendSuiteParams w nativeSpend reg
    (thresholdSigErrorMessage context .suiteNotInNativeSpendSet)
    (thresholdSigErrorMessage context .suiteNotRegistered))
  liftE (validateWitnessItemLengths w params)
  verifyMldsaKeyAndSigQ w key inputIndex inputValue chainId reg
    ⟨.txErrSigInvalid, thresholdSigErrorMessage context .keyBindingMismatch⟩
    ⟨.txErrSigInvalid, thresholdSigErrorMessage context .signatureInvalid⟩

def validateThresholdSlots (inputIndex : UInt32) (inputValue : UInt64) (chainId : Bytes32)
    (context : ThresholdContext) (nativeSpend : NativeSuiteSet) (reg : SuiteRegistry) :
    List (Bytes32 × WitnessItem) → (valid : Nat) → QueueM tx Nat
  | [], valid => pure valid
  | (key, w) :: rest, valid =>
    if w.suiteId = suiteIdSentinel then do
      liftE (rejectIf (w.pubkey ≠ [] ∨ w.signature ≠ [])
        (.parse "SENTINEL witness must be keyless"))
      validateThresholdSlots inputIndex inputValue chainId context nativeSpend reg rest valid
    else do
      validateThresholdSlot key w inputIndex inputValue chainId context nativeSpend reg
      validateThresholdSlots inputIndex inputValue chainId context nativeSpend reg rest
        (min (valid + 1) 255)

/-- The rollback of a failed spend, to the mark taken at its start. -/
def rollbackQueue (atStart s : SpendState tx) : SpendState tx :=
  match atStart.queue.map SigCheckQueue.mark, s.queue with
  | some mark, some queue => { s with queue := some (queue.rollbackTo mark) }
  | _, _ => s

def validateThresholdSigSpendQ (keys : List Bytes32) (threshold : UInt8) (ws : List WitnessItem)
    (inputIndex : UInt32) (inputValue : UInt64) (chainId : Bytes32) (blockHeight : Nat)
    (context : ThresholdContext) (rotation : Option RotationProvider)
    (registry : Option SuiteRegistry) : QueueM tx Unit := do
  let rp := rotation.getD DefaultRotationProvider
  let reg := registry.getD SuiteRegistry.defaultRegistry
  liftE (rejectIf (ws.length ≠ keys.length) (.parse "witness slot assignment mismatch"))
  restoring rollbackQueue do
    let valid ← validateThresholdSlots inputIndex inputValue chainId context
      (rp.nativeSpendSuites blockHeight) reg (keys.zip ws) 0
    liftE (rejectIf (valid < threshold.toNat)
      ⟨.txErrSigInvalid, thresholdSigErrorMessage context .thresholdNotMet⟩)

def validateHtlcSpendQ (entry : UtxoEntry) (pathItem sigItem : WitnessItem)
    (ctx : HtlcSpendContext) (rotation : Option RotationProvider)
    (registry : Option SuiteRegistry) : QueueM tx Unit := do
  let cov ← liftE (parseHtlcCovenantData entry.covenantData)
  let selector ← liftE (parseHtlcSelector pathItem)
  let expectedKeyId ← liftE (expectedHtlcSpendKeyId cov selector ctx)
  let rp := rotation.getD DefaultRotationProvider
  let reg := registry.getD SuiteRegistry.defaultRegistry
  liftE (validateHtlcSignaturePrecheck sigItem expectedKeyId ctx.blockHeight rp reg)
  checkSignature sigItem ctx.inputIndex ctx.inputValue ctx.chainId reg
    ⟨.txErrSigInvalid, "CORE_HTLC signature invalid"⟩

def validateStealthSpendQ (entry : UtxoEntry) (w : WitnessItem) (inputIndex : UInt32)
    (inputValue : UInt64) (chainId : Bytes32) (blockHeight : Nat)
    (rotation : Option RotationProvider) (registry : Option SuiteRegistry) : QueueM tx Unit := do
  let rp := rotation.getD DefaultRotationProvider
  let reg := registry.getD SuiteRegistry.defaultRegistry
  let cov ← liftE (parseStealthCovenantData entry.covenantData)
  let params ← liftE (spendSuiteParams w (rp.nativeSpendSuites blockHeight) reg
    "CORE_STEALTH suite not in native spend set" "CORE_STEALTH suite not registered")
  liftE (validateWitnessItemLengths w params)
  liftE (validateStealthKeyBinding w cov)
  checkSignature w inputIndex inputValue chainId reg
    ⟨.txErrSigInvalid, "CORE_STEALTH signature invalid"⟩

def applyP2pkSpend (ctx : UtxoApplyContext) (entry : UtxoEntry) (assigned : List WitnessItem)
    (inputIndex : UInt32) : QueueM tx Unit :=
  match assigned with
  | [witness] => validateP2pkSpendQ entry witness inputIndex entry.value ctx.chainId ctx.height
      ctx.rotation ctx.registry
  | _ => liftE (.error (.parse "CORE_P2PK witness_slots must be 1"))

def applyMultisigSpend (ctx : UtxoApplyContext) (entry : UtxoEntry) (assigned : List WitnessItem)
    (inputIndex : UInt32) : QueueM tx Unit := do
  let m ← liftE (parseMultisigCovenantData entry.covenantData)
  validateThresholdSigSpendQ m.keys m.threshold assigned inputIndex entry.value ctx.chainId
    ctx.height .coreMultisig ctx.rotation ctx.registry

def applyHtlcSpend (ctx : UtxoApplyContext) (entry : UtxoEntry) (assigned : List WitnessItem)
    (inputIndex : UInt32) : QueueM tx Unit :=
  match assigned with
  | [selector, witness] => validateHtlcSpendQ entry selector witness
      ⟨inputIndex, entry.value, ctx.chainId, ctx.height, ctx.blockMtp⟩ ctx.rotation ctx.registry
  | _ => liftE (.error (.parse "CORE_HTLC witness_slots must be 2"))

def applyStealthSpend (ctx : UtxoApplyContext) (entry : UtxoEntry) (assigned : List WitnessItem)
    (inputIndex : UInt32) : QueueM tx Unit :=
  match assigned with
  | [witness] => validateStealthSpendQ entry witness inputIndex entry.value ctx.chainId ctx.height
      ctx.rotation ctx.registry
  | _ => liftE (.error (.parse "CORE_STEALTH witness_slots must be 1"))

def validateResolvedSpend (ctx : UtxoApplyContext) (r : ResolvedInput) (inputIndex : Nat)
    (vault : Option VaultSpendState) : QueueM tx (Option VaultSpendState) := do
  let assigned ← liftE (witnessRange tx r.witnessStart r.slotCount)
  let inputIndex := UInt32.ofNat inputIndex
  if r.entry.covenantType = covTypeP2pk then do
    applyP2pkSpend ctx r.entry assigned inputIndex
    pure vault
  else if r.entry.covenantType = covTypeMultisig then do
    applyMultisigSpend ctx r.entry assigned inputIndex
    pure vault
  else if r.entry.covenantType = covTypeVault then do
    let captured ← liftE (VaultSpendState.capture r inputIndex)
    pure (some captured)
  else if r.entry.covenantType = covTypeHtlc then do
    applyHtlcSpend ctx r.entry assigned inputIndex
    pure vault
  else if r.entry.covenantType = covTypeCoreStealth then do
    applyStealthSpend ctx r.entry assigned inputIndex
    pure vault
  else pure vault

def validateSpends (ctx : UtxoApplyContext) : (inputIndex : Nat) → List ResolvedInput →
    SpendAccum → QueueM tx SpendAccum
  | _, [], acc => pure acc
  | inputIndex, r :: rest, acc => do
    let vaultSpend ← validateResolvedSpend ctx r inputIndex acc.vaultSpend
    let acc ← liftE (acc.record r vaultSpend)
    validateSpends ctx (inputIndex + 1) rest acc

def validateVaultSignature (vault : VaultSpendState) (ctx : UtxoApplyContext) :
    QueueM tx Unit := do
  let witness ← liftE (witnessRange tx vault.witnessStart vault.slotCount)
  validateThresholdSigSpendQ vault.keys vault.threshold witness vault.inputIndex vault.inputValue
    ctx.chainId ctx.height .coreVault ctx.rotation ctx.registry

def validateVaultSpend (ctx : UtxoApplyContext) (vaultInputCount : Nat) (acc : SpendAccum) :
    QueueM tx Unit :=
  if vaultInputCount = 1 then do
    let vault ← liftE (okOr acc.vaultSpend (.parse "missing CORE_VAULT signature context"))
    liftE (vault.validateOwnerAndSponsor acc.inputLockIds acc.inputCovTypes)
    liftE (VaultSpendState.validateNoRecursion tx)
    validateVaultSignature vault ctx
    liftE (vault.validateDestinations tx)
  else pure ()

def applyNonCoinbaseTxImpl (tx : Tx) (ctx : UtxoApplyContext) :
    QueueM tx (UtxoSet × UtxoApplySummary) := do
  liftE (validateApplyInputs tx ctx)
  let st ← liftE (resolveInputs tx ctx)
  let acc ← validateSpends ctx 0 st.resolved ⟨ctx.utxoSet, 0, 0, [], [], none⟩
  let out ← liftE (addOutputs tx ctx acc.work)
  liftE (validateVaultCreation tx acc out.createsVault)
  validateVaultSpend ctx st.vaultInputCount acc
  liftE (finishApply st.vaultInputCount acc out)

/-- `apply_non_coinbase_tx_basic_update_with_mtp_and_suite_context_queued_sigchecks`. -/
def applyNonCoinbaseTxQueuedSigchecks (tx : Tx) (ctx : UtxoApplyContext) :
    EStateM TxError SigCheckQueue (UtxoSet × UtxoApplySummary) := fun queue =>
  let entryMark := queue.mark
  match applyNonCoinbaseTxImpl tx ctx ⟨SighashV1PrehashCache.new tx, some queue⟩ with
  | .ok result s => .ok result (s.queue.getD queue)
  | .error e s => .error e ((s.queue.getD queue).rollbackTo entryMark)

end Queued

/-! ## 3. The two models agree -/

/-- Growth of the queue inside the state of a spend. -/
def QueueGrows (s s' : SpendState tx) : Prop :=
  match s.queue, s'.queue with
  | some queue, some queue' => queue.Grows queue'
  | none, none => True
  | _, _ => False

theorem QueueGrows.of_eq {s s' : SpendState tx} (h : s'.queue = s.queue) : QueueGrows s s' := by
  rw [QueueGrows, h]
  cases s.queue with
  | none => trivial
  | some queue => exact SigCheckQueue.Grows.refl queue

instance : Std.Refl (@QueueGrows _ tx) := ⟨fun _ => QueueGrows.of_eq rfl⟩

instance : IsTrans (SpendState tx) QueueGrows where
  trans := by
    intro s s' s'' h h'
    rw [QueueGrows] at h h' ⊢
    cases hs : s.queue with
    | none =>
      cases hs' : s'.queue with
      | none => simpa only [hs, hs'] using h'
      | some queue' => simp only [hs, hs'] at h
    | some queue =>
      cases hs' : s'.queue with
      | none => simp only [hs, hs'] at h
      | some queue' =>
        cases hs'' : s''.queue with
        | none => simp only [hs', hs''] at h'
        | some queue'' =>
          simp only [hs, hs', hs''] at h h' ⊢
          exact h.trans h'

abbrev Keeps {α : Type} (m : QueueM tx α) (m₀ : SpendM tx α) : Prop := InPlace QueueGrows m m₀

theorem withCache_keeps {α : Type} (m : SighashV1PrehashCache.M tx α) :
    Keeps (withCacheInPlace m) (withCache m) where
  forget := by
    intro s
    cases h : m s.cache with
    | ok r => simp [onCopy, withCacheInPlace, withCache, h]
    | error e => simp [onCopy, withCacheInPlace, withCache, h]
  moves := by
    intro s
    cases h : m s.cache with
    | ok r =>
      simp only [withCacheInPlace, h]
      exact QueueGrows.of_eq rfl
    | error e =>
      simp only [withCacheInPlace, h]
      exact QueueGrows.of_eq rfl

/-- What a submission to a queue does: it binds the registry, and adds the task if it fits. -/
theorem submitInPlace_cases (registry : SuiteRegistry) (task : SigCheckTask)
    (queue : SigCheckQueue) :
    (∃ queue', submitInPlace registry task queue = .ok () queue' ∧
      submit registry (some queue) task = .ok (some queue') ∧ queue.Grows queue') ∨
    ∃ e queue', submitInPlace registry task queue = .error e queue' ∧
      submit registry (some queue) task = .error e ∧ queue.Grows queue' := by
  change (∃ queue', EStateM.bind _ _ queue = _ ∧ _) ∨ ∃ e queue', EStateM.bind _ _ queue = _ ∧ _
  cases hreg : queue.ensureRegistry registry with
  | error e =>
    refine Or.inr ⟨e, queue, ?_, ?_, SigCheckQueue.Grows.refl queue⟩
    · simp [EStateM.bind, SigCheckQueue.ensureRegistryInPlace, writing, hreg]
    · simp [submit, hreg]
  | ok queue₁ =>
    have hgrows := SigCheckQueue.ensureRegistry_grows hreg
    cases hpush : queue₁.push task with
    | error e =>
      refine Or.inr ⟨e, queue₁, ?_, ?_, hgrows⟩
      · simp [EStateM.bind, SigCheckQueue.ensureRegistryInPlace, SigCheckQueue.pushInPlace, writing,
          hreg, hpush]
      · simp [submit, hreg, hpush]
    | ok queue₂ =>
      refine Or.inl ⟨queue₂, ?_, ?_, hgrows.trans (SigCheckQueue.push_grows hpush).1⟩
      · simp [EStateM.bind, SigCheckQueue.ensureRegistryInPlace, SigCheckQueue.pushInPlace, writing,
          hreg, hpush]
      · simp [submit, hreg, hpush]

namespace Queued

theorem queueOrVerifySignature_keeps (suiteId : UInt8) (pubkey cryptoSig : Bytes)
    (digest : Bytes32) (registry : SuiteRegistry) (e : TxError) :
    Keeps (queueOrVerifySignature suiteId pubkey cryptoSig digest registry e : QueueM tx Unit)
      (Consensus.queueOrVerifySignature suiteId pubkey cryptoSig digest registry e) := by
  have hcase : ∀ s : SpendState tx,
      onCopy (queueOrVerifySignature suiteId pubkey cryptoSig digest registry e) s =
        Consensus.queueOrVerifySignature suiteId pubkey cryptoSig digest registry e s ∧
      QueueGrows s (endState
        (queueOrVerifySignature suiteId pubkey cryptoSig digest registry e s)) := by
    rintro ⟨cache, queue⟩
    cases queue with
    | none =>
      cases hverify : verifyQueuedTask (some registry) ⟨suiteId, pubkey, cryptoSig, digest, e⟩ with
      | ok u =>
        simp [onCopy, queueOrVerifySignature, Consensus.queueOrVerifySignature, submit, liftE,
          hverify, QueueGrows]
      | error e =>
        simp [onCopy, queueOrVerifySignature, Consensus.queueOrVerifySignature, submit, liftE,
          hverify, QueueGrows]
    | some queue =>
      rcases submitInPlace_cases registry ⟨suiteId, pubkey, cryptoSig, digest, e⟩ queue with
        ⟨queue', hrun, hsubmit, hgrows⟩ | ⟨e', queue', hrun, hsubmit, hgrows⟩
      · simpa [onCopy, queueOrVerifySignature, Consensus.queueOrVerifySignature, hrun, hsubmit,
          QueueGrows] using hgrows
      · simpa [onCopy, queueOrVerifySignature, Consensus.queueOrVerifySignature, hrun, hsubmit,
          QueueGrows] using hgrows
  exact ⟨fun s => (hcase s).1, fun s => (hcase s).2⟩

theorem checkSignature_keeps (w : WitnessItem) (inputIndex : UInt32) (inputValue : UInt64)
    (chainId : Bytes32) (registry : SuiteRegistry) (e : TxError) :
    Keeps (checkSignature w inputIndex inputValue chainId registry e : QueueM tx Unit)
      (Consensus.checkSignature w inputIndex inputValue chainId registry e) :=
  InPlace.liftBind fun _ => (withCache_keeps _).bind fun _ => queueOrVerifySignature_keeps ..

theorem verifyMldsaKeyAndSigQ_keeps (w : WitnessItem) (keyId : Bytes32) (inputIndex : UInt32)
    (inputValue : UInt64) (chainId : Bytes32) (registry : SuiteRegistry) (e e' : TxError) :
    Keeps (verifyMldsaKeyAndSigQ w keyId inputIndex inputValue chainId registry e e' :
        QueueM tx Unit)
      (Consensus.verifyMldsaKeyAndSigQ w keyId inputIndex inputValue chainId registry e e') :=
  InPlace.liftBind fun _ => checkSignature_keeps ..

theorem validateP2pkSpendQ_keeps (entry : UtxoEntry) (w : WitnessItem) (inputIndex : UInt32)
    (inputValue : UInt64) (chainId : Bytes32) (blockHeight : Nat)
    (rotation : Option RotationProvider) (registry : Option SuiteRegistry) :
    Keeps (validateP2pkSpendQ entry w inputIndex inputValue chainId blockHeight rotation registry :
        QueueM tx Unit)
      (Consensus.validateP2pkSpendQ entry w inputIndex inputValue chainId blockHeight rotation
        registry) :=
  InPlace.liftBind fun _ => InPlace.liftBind fun _ => InPlace.liftBind fun _ =>
    verifyMldsaKeyAndSigQ_keeps ..

theorem validateThresholdSlot_keeps (key : Bytes32) (w : WitnessItem) (inputIndex : UInt32)
    (inputValue : UInt64) (chainId : Bytes32) (context : ThresholdContext)
    (nativeSpend : NativeSuiteSet) (reg : SuiteRegistry) :
    Keeps (validateThresholdSlot key w inputIndex inputValue chainId context nativeSpend reg :
        QueueM tx Unit)
      (Consensus.validateThresholdSlot key w inputIndex inputValue chainId context nativeSpend
        reg) :=
  InPlace.liftBind fun _ => InPlace.liftBind fun _ => verifyMldsaKeyAndSigQ_keeps ..

theorem validateThresholdSlots_keeps (inputIndex : UInt32) (inputValue : UInt64)
    (chainId : Bytes32) (context : ThresholdContext) (nativeSpend : NativeSuiteSet)
    (reg : SuiteRegistry) : ∀ (slots : List (Bytes32 × WitnessItem)) (valid : Nat),
    Keeps (validateThresholdSlots inputIndex inputValue chainId context nativeSpend reg slots valid :
        QueueM tx Nat)
      (Consensus.validateThresholdSlots inputIndex inputValue chainId context nativeSpend reg slots
        valid)
  | [], valid => InPlace.pure valid
  | (key, w) :: rest, valid => by
    unfold validateThresholdSlots Consensus.validateThresholdSlots
    split
    · exact InPlace.liftBind fun _ => validateThresholdSlots_keeps _ _ _ _ _ _ rest valid
    · exact (validateThresholdSlot_keeps ..).bind fun _ =>
        validateThresholdSlots_keeps _ _ _ _ _ _ rest _

theorem rollbackQueue_grows {s s' : SpendState tx} (h : QueueGrows s s') :
    (rollbackQueue s s').queue = s.queue := by
  rw [QueueGrows] at h
  cases hs : s.queue with
  | none =>
    cases hs' : s'.queue with
    | none => simp [rollbackQueue, hs, hs']
    | some queue' => simp only [hs, hs'] at h
  | some queue =>
    cases hs' : s'.queue with
    | none => simp only [hs, hs'] at h
    | some queue' =>
      simp only [hs, hs'] at h
      simp [rollbackQueue, hs, hs', SigCheckQueue.rollbackTo_of_grows h]

theorem validateThresholdSigSpendQ_keeps (keys : List Bytes32) (threshold : UInt8)
    (ws : List WitnessItem) (inputIndex : UInt32) (inputValue : UInt64) (chainId : Bytes32)
    (blockHeight : Nat) (context : ThresholdContext) (rotation : Option RotationProvider)
    (registry : Option SuiteRegistry) :
    Keeps (validateThresholdSigSpendQ keys threshold ws inputIndex inputValue chainId blockHeight
        context rotation registry : QueueM tx Unit)
      (Consensus.validateThresholdSigSpendQ keys threshold ws inputIndex inputValue chainId
        blockHeight context rotation registry) := by
  refine InPlace.liftBind fun _ => InPlace.restore ?_ fun s s' h =>
    QueueGrows.of_eq (rollbackQueue_grows h)
  exact (validateThresholdSlots_keeps ..).bind fun _ => InPlace.lift _

theorem validateHtlcSpendQ_keeps (entry : UtxoEntry) (pathItem sigItem : WitnessItem)
    (ctx : HtlcSpendContext) (rotation : Option RotationProvider)
    (registry : Option SuiteRegistry) :
    Keeps (validateHtlcSpendQ entry pathItem sigItem ctx rotation registry : QueueM tx Unit)
      (Consensus.validateHtlcSpendQ entry pathItem sigItem ctx rotation registry) :=
  InPlace.liftBind fun _ => InPlace.liftBind fun _ => InPlace.liftBind fun _ =>
    InPlace.liftBind fun _ => checkSignature_keeps ..

theorem validateStealthSpendQ_keeps (entry : UtxoEntry) (w : WitnessItem) (inputIndex : UInt32)
    (inputValue : UInt64) (chainId : Bytes32) (blockHeight : Nat)
    (rotation : Option RotationProvider) (registry : Option SuiteRegistry) :
    Keeps (validateStealthSpendQ entry w inputIndex inputValue chainId blockHeight rotation
        registry : QueueM tx Unit)
      (Consensus.validateStealthSpendQ entry w inputIndex inputValue chainId blockHeight rotation
        registry) :=
  InPlace.liftBind fun _ => InPlace.liftBind fun _ => InPlace.liftBind fun _ =>
    InPlace.liftBind fun _ => checkSignature_keeps ..

theorem applyP2pkSpend_keeps (ctx : UtxoApplyContext) (entry : UtxoEntry)
    (assigned : List WitnessItem) (inputIndex : UInt32) :
    Keeps (applyP2pkSpend ctx entry assigned inputIndex : QueueM tx Unit)
      (Consensus.applyP2pkSpend ctx entry assigned inputIndex) := by
  have hfail : Keeps (liftE (.error (.parse "CORE_P2PK witness_slots must be 1")) : QueueM tx Unit)
      (StateT.lift (.error (.parse "CORE_P2PK witness_slots must be 1"))) := InPlace.lift _
  match assigned with
  | [] => exact hfail
  | [_] => exact validateP2pkSpendQ_keeps ..
  | _ :: _ :: _ => exact hfail

theorem applyMultisigSpend_keeps (ctx : UtxoApplyContext) (entry : UtxoEntry)
    (assigned : List WitnessItem) (inputIndex : UInt32) :
    Keeps (applyMultisigSpend ctx entry assigned inputIndex : QueueM tx Unit)
      (Consensus.applyMultisigSpend ctx entry assigned inputIndex) :=
  InPlace.liftBind fun _ => validateThresholdSigSpendQ_keeps ..

theorem applyHtlcSpend_keeps (ctx : UtxoApplyContext) (entry : UtxoEntry)
    (assigned : List WitnessItem) (inputIndex : UInt32) :
    Keeps (applyHtlcSpend ctx entry assigned inputIndex : QueueM tx Unit)
      (Consensus.applyHtlcSpend ctx entry assigned inputIndex) := by
  have hfail : Keeps (liftE (.error (.parse "CORE_HTLC witness_slots must be 2")) : QueueM tx Unit)
      (StateT.lift (.error (.parse "CORE_HTLC witness_slots must be 2"))) := InPlace.lift _
  match assigned with
  | [] => exact hfail
  | [_] => exact hfail
  | [_, _] => exact validateHtlcSpendQ_keeps ..
  | _ :: _ :: _ :: _ => exact hfail

theorem applyStealthSpend_keeps (ctx : UtxoApplyContext) (entry : UtxoEntry)
    (assigned : List WitnessItem) (inputIndex : UInt32) :
    Keeps (applyStealthSpend ctx entry assigned inputIndex : QueueM tx Unit)
      (Consensus.applyStealthSpend ctx entry assigned inputIndex) := by
  have hfail : Keeps (liftE (.error (.parse "CORE_STEALTH witness_slots must be 1")) : QueueM tx Unit)
      (StateT.lift (.error (.parse "CORE_STEALTH witness_slots must be 1"))) := InPlace.lift _
  match assigned with
  | [] => exact hfail
  | [_] => exact validateStealthSpendQ_keeps ..
  | _ :: _ :: _ => exact hfail

theorem validateResolvedSpend_keeps (ctx : UtxoApplyContext) (r : ResolvedInput)
    (inputIndex : Nat) (vault : Option VaultSpendState) :
    Keeps (validateResolvedSpend ctx r inputIndex vault : QueueM tx _)
      (Consensus.validateResolvedSpend ctx r inputIndex vault) := by
  refine InPlace.liftBind fun assigned => ?_
  dsimp only
  split
  · exact (applyP2pkSpend_keeps ..).bind fun _ => InPlace.pure vault
  · split
    · exact (applyMultisigSpend_keeps ..).bind fun _ => InPlace.pure vault
    · split
      · exact InPlace.liftBind fun captured => InPlace.pure (some captured)
      · split
        · exact (applyHtlcSpend_keeps ..).bind fun _ => InPlace.pure vault
        · split
          · exact (applyStealthSpend_keeps ..).bind fun _ => InPlace.pure vault
          · exact InPlace.pure vault

theorem validateSpends_keeps (ctx : UtxoApplyContext) : ∀ (inputIndex : Nat)
    (resolved : List ResolvedInput) (acc : SpendAccum),
    Keeps (validateSpends ctx inputIndex resolved acc : QueueM tx SpendAccum)
      (Consensus.validateSpends ctx inputIndex resolved acc)
  | _, [], acc => InPlace.pure acc
  | inputIndex, r :: rest, acc =>
    (validateResolvedSpend_keeps ctx r inputIndex acc.vaultSpend).bind fun _ =>
      InPlace.liftBind fun acc => validateSpends_keeps ctx (inputIndex + 1) rest acc

theorem validateVaultSpend_keeps (ctx : UtxoApplyContext) (vaultInputCount : Nat)
    (acc : SpendAccum) :
    Keeps (validateVaultSpend ctx vaultInputCount acc : QueueM tx Unit)
      (Consensus.validateVaultSpend ctx vaultInputCount acc) := by
  unfold validateVaultSpend Consensus.validateVaultSpend
  split
  · refine InPlace.liftBind fun vault => InPlace.liftBind fun _ => InPlace.liftBind fun _ => ?_
    refine InPlace.bind ?_ fun _ => InPlace.lift _
    exact InPlace.liftBind fun _ => validateThresholdSigSpendQ_keeps ..
  · exact InPlace.pure ()

/-- **The transaction.**  Forgetting the queue on an error gives the model the block rules use. -/
theorem applyNonCoinbaseTxImpl_keeps (tx : Tx) (ctx : UtxoApplyContext) :
    Keeps (applyNonCoinbaseTxImpl tx ctx) (Consensus.applyNonCoinbaseTxImpl tx ctx) :=
  InPlace.liftBind fun _ => InPlace.liftBind fun _ => (validateSpends_keeps ..).bind fun _ =>
    InPlace.liftBind fun _ => InPlace.liftBind fun _ => (validateVaultSpend_keeps ..).bind fun _ =>
      InPlace.lift _

/-- **A queued transaction.**  If it fails the queue is what it was, registry and all; if it succeeds
the queue has grown. -/
theorem applyNonCoinbaseTxQueuedSigchecks_cases (tx : Tx) (ctx : UtxoApplyContext)
    (queue : SigCheckQueue) :
    (∃ r queue', applyNonCoinbaseTxQueuedSigchecks tx ctx queue = .ok r queue' ∧
      Consensus.applyNonCoinbaseTxQueuedSigchecks tx ctx queue = .ok (r, queue') ∧
      queue.Grows queue') ∨
    ∃ e, applyNonCoinbaseTxQueuedSigchecks tx ctx queue = .error e queue ∧
      Consensus.applyNonCoinbaseTxQueuedSigchecks tx ctx queue = .error e := by
  have hkeeps := applyNonCoinbaseTxImpl_keeps tx ctx
  have hforget := hkeeps.forget ⟨SighashV1PrehashCache.new tx, some queue⟩
  have hmoves := hkeeps.moves ⟨SighashV1PrehashCache.new tx, some queue⟩
  cases hrun : applyNonCoinbaseTxImpl tx ctx ⟨SighashV1PrehashCache.new tx, some queue⟩ with
  | ok r s =>
    rw [onCopy, hrun] at hforget
    rw [hrun, endState_ok, QueueGrows] at hmoves
    cases hs : s.queue with
    | none => simp only [hs] at hmoves
    | some queue' =>
      simp only [hs] at hmoves
      refine Or.inl ⟨r, queue', ?_, ?_, hmoves⟩
      · simp [applyNonCoinbaseTxQueuedSigchecks, hrun, hs]
      · simp [Consensus.applyNonCoinbaseTxQueuedSigchecks, ← hforget, hs]
  | error e s =>
    rw [onCopy, hrun] at hforget
    rw [hrun, endState_error, QueueGrows] at hmoves
    cases hs : s.queue with
    | none => simp only [hs] at hmoves
    | some queue' =>
      simp only [hs] at hmoves
      refine Or.inr ⟨e, ?_, ?_⟩
      · simp [applyNonCoinbaseTxQueuedSigchecks, hrun, hs,
          SigCheckQueue.rollbackTo_of_grows hmoves]
      · simp [Consensus.applyNonCoinbaseTxQueuedSigchecks, ← hforget]

end Queued

/-! ## 4. The flush -/

/-- The error a task would be reported with. -/
def taskError (registry : Option SuiteRegistry) (task : SigCheckTask) : Option TxError :=
  match verifyQueuedTask registry task with
  | .ok () => none
  | .error e => some e

/-- The error of the first task in submission order that fails. -/
def firstTaskError (registry : Option SuiteRegistry) (tasks : List SigCheckTask) :
    Option TxError :=
  tasks.findSome? (taskError registry)

theorem forEach_verifyQueuedTask (registry : Option SuiteRegistry) (tasks : List SigCheckTask) :
    forEach (verifyQueuedTask registry) tasks =
      match firstTaskError registry tasks with
      | none => .ok ()
      | some e => .error e := by
  induction tasks with
  | nil => rfl
  | cons task tasks ih =>
    rw [forEach_cons, ih, firstTaskError, firstTaskError, List.findSome?_cons]
    cases h : verifyQueuedTask registry task with
    | ok u =>
      simp only [taskError, h]
      rfl
    | error e =>
      simp only [taskError, h]
      rfl

/-- `flush`: the tasks are taken out and the counter is cleared before anything is verified. -/
def SigCheckQueue.flushInPlace (threads : Threads) : EStateM TxError SigCheckQueue Unit :=
  fun queue =>
    if queue.tasks = [] then .ok () queue
    else
      let emptied := { queue with tasks := [], queuedBytes := 0 }
      liftE (if queue.tasks.length = 1 ∨ queue.workers ≤ 1 then
          forEach (verifyQueuedTask queue.registry) queue.tasks
        else verifyQueuedTasksBatch threads queue.tasks queue.workers queue.registry) emptied

theorem SigCheckQueue.flushInPlace_result (threads : Threads) (queue : SigCheckQueue) :
    (onCopy (flushInPlace threads) queue).map (fun _ => ()) =
      forEach (verifyQueuedTask queue.registry) queue.tasks := by
  by_cases hnil : queue.tasks = []
  · simp [onCopy, flushInPlace, hnil, Except.map]
  · cases hres : forEach (verifyQueuedTask queue.registry) queue.tasks with
    | ok u =>
      simp [onCopy, flushInPlace, hnil, verifyQueuedTasksBatch_eq, hres, liftE, Except.map]
    | error e =>
      simp [onCopy, flushInPlace, hnil, verifyQueuedTasksBatch_eq, hres, liftE, Except.map]

theorem SigCheckQueue.flushInPlace_eq (threads : Threads)
    (h : queue.queuedBytes = taskBytes queue.tasks) :
    queue.flushInPlace threads =
      match firstTaskError queue.registry queue.tasks with
      | none => .ok () { queue with tasks := [], queuedBytes := 0 }
      | some e => .error e { queue with tasks := [], queuedBytes := 0 } := by
  obtain ⟨tasks, bytes, registry, workers⟩ := queue
  dsimp only at h
  subst h
  rw [flushInPlace]
  by_cases hnil : tasks = []
  · subst hnil
    rfl
  · rw [if_neg hnil, verifyQueuedTasksBatch_eq, ite_self, forEach_verifyQueuedTask]
    cases firstTaskError registry tasks with
    | none => rfl
    | some e => rfl

/-! ## 5. Whole runs -/

/-- What the owner of a queue can do with it.  `rollback n` goes back to the `n`-th youngest of the
marks that are still held. -/
inductive QueueOp where
  | push (task : SigCheckTask)
  | mark
  | rollback (n : Nat)
  | apply (tx : Tx) (ctx : UtxoApplyContext)

/-- The queue, and the marks held, the youngest first. -/
structure QueueRun where
  queue : SigCheckQueue
  marks : List SigCheckQueueMark

namespace QueueRun

def step (r : QueueRun) : QueueOp → QueueRun
  | .push task => { r with queue := endState (SigCheckQueue.pushInPlace task r.queue) }
  | .mark => { r with marks := r.queue.mark :: r.marks }
  | .rollback n =>
    match r.marks.drop n with
    | [] => r
    | mark :: older => ⟨r.queue.rollbackTo mark, mark :: older⟩
  | .apply tx ctx =>
    { r with queue := endState (Queued.applyNonCoinbaseTxQueuedSigchecks tx ctx r.queue) }

def run (r : QueueRun) (ops : List QueueOp) : QueueRun := ops.foldl step r

/-- The counter is right, for the queue and for every mark held. -/
structure Wf (r : QueueRun) : Prop where
  bytes : r.queue.queuedBytes = taskBytes r.queue.tasks
  marks : ∀ m ∈ r.marks, m.len ≤ r.queue.tasks.length ∧
    m.queuedBytes = taskBytes (r.queue.tasks.take m.len)
  nested : r.marks.Pairwise fun young old => old.len ≤ young.len

variable {r : QueueRun}

omit [Crypto] in
theorem Wf.grow (h : r.Wf) (hg : r.queue.Grows queue) : Wf { r with queue } where
  bytes := by
    obtain ⟨ts, htasks, hbytes⟩ := hg.tasks
    rw [hbytes, htasks, h.bytes, taskBytes, taskBytes, taskBytes, List.map_append, List.sum_append]
  marks := by
    intro m hm
    obtain ⟨ts, htasks, -⟩ := hg.tasks
    obtain ⟨hlen, hbytes⟩ := h.marks m hm
    dsimp only
    rw [htasks, List.length_append, List.take_append_of_le_length hlen]
    exact ⟨hlen.trans (Nat.le_add_right _ _), hbytes⟩
  nested := h.nested

omit [Crypto] in
theorem Wf.takeMark (h : r.Wf) : Wf { r with marks := r.queue.mark :: r.marks } where
  bytes := h.bytes
  marks := by
    intro m hm
    rcases List.mem_cons.mp hm with rfl | hm
    · refine ⟨le_rfl, ?_⟩
      rw [SigCheckQueue.mark, List.take_length]
      exact h.bytes
    · exact h.marks m hm
  nested := List.pairwise_cons.mpr ⟨fun m hm => (h.marks m hm).1, h.nested⟩

omit [Crypto] in
theorem Wf.rollback {n : Nat} {m : SigCheckQueueMark} {older : List SigCheckQueueMark} (h : r.Wf)
    (hdrop : r.marks.drop n = m :: older) : Wf ⟨r.queue.rollbackTo m, m :: older⟩ := by
  have hsub : ∀ m' ∈ m :: older, m' ∈ r.marks := fun m' hm' =>
    List.mem_of_mem_drop (hdrop ▸ hm')
  have hnested : (m :: older).Pairwise fun young old => old.len ≤ young.len :=
    hdrop ▸ h.nested.sublist (List.drop_sublist n r.marks)
  obtain ⟨hlen, hbytes⟩ := h.marks m (hsub m (List.mem_cons_self ..))
  refine ⟨hbytes, ?_, hnested⟩
  intro m' hm'
  have hle : m'.len ≤ m.len := by
    rcases List.mem_cons.mp hm' with rfl | hm'
    · exact le_rfl
    · exact (List.pairwise_cons.mp hnested).1 m' hm'
  obtain ⟨-, hbytes'⟩ := h.marks m' (hsub m' hm')
  simp only [SigCheckQueue.rollbackTo, List.length_take, List.take_take, min_eq_left hlen,
    min_eq_left hle]
  exact ⟨hle, hbytes'⟩

theorem Wf.step (h : r.Wf) (op : QueueOp) : (r.step op).Wf := by
  cases op with
  | push task =>
    refine h.grow ?_
    cases hpush : r.queue.push task with
    | ok queue =>
      simp only [SigCheckQueue.pushInPlace, writing, hpush, endState_ok]
      exact (SigCheckQueue.push_grows hpush).1
    | error e =>
      simp only [SigCheckQueue.pushInPlace, writing, hpush, endState_error]
      exact SigCheckQueue.Grows.refl r.queue
  | mark => exact h.takeMark
  | rollback n =>
    cases hdrop : r.marks.drop n with
    | nil => simpa only [QueueRun.step, hdrop] using h
    | cons m older => simpa only [QueueRun.step, hdrop] using h.rollback hdrop
  | apply tx ctx =>
    refine h.grow ?_
    rcases Queued.applyNonCoinbaseTxQueuedSigchecks_cases tx ctx r.queue with
      ⟨result, queue', hrun, -, hgrows⟩ | ⟨e, hrun, -⟩
    · rw [hrun]
      exact hgrows
    · rw [hrun]
      exact SigCheckQueue.Grows.refl r.queue

theorem Wf.run (h : r.Wf) (ops : List QueueOp) : (r.run ops).Wf := by
  induction ops generalizing r with
  | nil => exact h
  | cons op ops ih => exact ih (h.step op)

/-- A queue as it is made, with or without a registry. -/
def start (threads : Threads) (workers : Nat) (registry : Option SuiteRegistry) : QueueRun :=
  ⟨{ SigCheckQueue.new threads workers with registry }, []⟩

omit [Crypto] in
theorem start_wf (threads : Threads) (workers : Nat) (registry : Option SuiteRegistry) :
    (start threads workers registry).Wf :=
  ⟨rfl, fun _ hm => (nomatch hm), List.Pairwise.nil⟩

end QueueRun

end queued

end Rubin.Consensus
