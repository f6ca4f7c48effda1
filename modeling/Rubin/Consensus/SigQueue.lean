/-
# Signature checks, inline or queued

`sig_queue.rs` and the part of `worker_pool.rs` it runs on.  A spend validator hands each
signature to `queue_or_verify_signature`: without a queue it is verified on the spot, with one it
is recorded within a byte and a task budget and verified by `flush`, on several workers if there
are any.

The two modes are one semantics with two sinks.  A validator is `Deferred` when what it submits,
and everything else it does, is the same for every sink; `Deferred.bind` composes such validators.
What then separates the modes is only when the submissions are verified, and the budgets.
-/
import Rubin.Consensus.Covenants
import Rubin.Consensus.Sighash
import Rubin.Lib.WorkerPool

namespace Rubin.Consensus

open Rubin.Lib

/-! ## 1. The worker pool of a batch -/

inductive WorkerPoolError (ε : Type) where
  | cancelled
  | panic
  | task (e : ε)

/-- `WorkerResult`: exactly one of value and error is there. -/
abbrev WorkerResult (ε ρ : Type) := Except (WorkerPoolError ε) ρ

inductive WorkerPoolRunError where
  | invalidMaxTasks
  | tooManyTasks (taskCount maxTasks : Nat)

/-- `exec_task` of a pool that nobody cancels, for a function that does not panic. -/
def execTask {T ε ρ : Type} (func : T → Except ε ρ) (task : T) : WorkerResult ε ρ :=
  match func task with
  | .ok value => .ok value
  | .error e => .error (.task e)

def normalizedWorkerCount (threads : Threads) (maxWorkers taskCount : Nat) : Nat :=
  let workers := if maxWorkers = 0 then threads.availableParallelism else maxWorkers
  max (min workers taskCount) 1

def runWorkerPool {T ε ρ : Type} (threads : Threads) (maxWorkers maxTasks : Nat) (tasks : List T)
    (func : T → Except ε ρ) : Except WorkerPoolRunError (List (WorkerResult ε ρ)) :=
  if tasks.length = 0 then .ok []
  else if maxTasks = 0 then .error .invalidMaxTasks
  else if tasks.length > maxTasks then .error (.tooManyTasks tasks.length maxTasks)
  else
    match tasks with
    | [task] => .ok [execTask func task]
    | tasks =>
      let workerCount := normalizedWorkerCount threads maxWorkers tasks.length
      let slots := threads.runPool workerCount (execTask func) tasks
      .ok (slots.map fun slot => slot.getD (.error .panic))

theorem runWorkerPool_eq {T ε ρ : Type} (threads : Threads) (maxWorkers : Nat) {maxTasks : Nat}
    (tasks : List T) (func : T → Except ε ρ) (h : tasks.length ≤ maxTasks) :
    runWorkerPool threads maxWorkers maxTasks tasks func = .ok (tasks.map (execTask func)) := by
  unfold runWorkerPool
  by_cases h0 : tasks.length = 0
  · rw [if_pos h0, List.length_eq_zero_iff.mp h0]
    rfl
  · rw [if_neg h0, if_neg (by omega), if_neg (by omega)]
    have hpos : 0 < normalizedWorkerCount threads maxWorkers tasks.length := by
      exact lt_of_lt_of_le Nat.one_pos (le_max_right _ _)
    split
    · rfl
    · simp only [Threads.runPool_results threads hpos, List.map_map]
      rfl

/-! ## 2. The queue -/

def maxSigcheckQueueBytes : Nat := maxBlockWeight
def sigcheckTaskFixedOverheadBytes : Nat := 1 + 32 + 1
def currentNativeQueuePayloadFloorBytes : Nat := mlDsa87PubkeyBytes + mlDsa87SigBytes

structure SigCheckTask where
  suiteId : UInt8
  pubkey : Bytes
  sig : Bytes
  digest : Bytes32
  errOnFail : TxError
deriving DecidableEq

structure SigCheckQueue where
  tasks : List SigCheckTask
  queuedBytes : Nat
  registry : Option SuiteRegistry
  workers : Nat

namespace SigCheckQueue

def new (threads : Threads) (workers : Nat) : SigCheckQueue where
  tasks := []
  queuedBytes := 0
  registry := none
  workers := max (if workers = 0 then threads.availableParallelism else workers) 1

def withRegistry (queue : SigCheckQueue) (registry : SuiteRegistry) : SigCheckQueue :=
  { queue with registry := some registry }

end SigCheckQueue

def maxSigcheckQueueTasks (registry : Option SuiteRegistry) : Except TxError Nat := do
  let registry := registry.getD SuiteRegistry.defaultRegistry
  let minPayload ← registry.minSigcheckPayloadBytes.mapError fun msg => ⟨.txErrSigAlgInvalid, msg⟩
  let minPayloadBytes ← okOr minPayload
    ⟨.txErrSigAlgInvalid, "SigCheckQueue registry has no registered suites"⟩
  let effectiveMinPayloadBytes := max minPayloadBytes currentNativeQueuePayloadFloorBytes
  let minTaskBytes := sigcheckTaskFixedOverheadBytes + effectiveMinPayloadBytes
  rejectIf (2 ^ 64 ≤ minTaskBytes)
    ⟨.txErrWitnessOverflow, "SigCheckQueue task budget footprint overflow"⟩
  .ok (maxSigcheckQueueBytes / minTaskBytes)

def ensureTaskBudget (taskCount : Nat) (registry : Option SuiteRegistry) : Except TxError Unit := do
  let maxTasks ← maxSigcheckQueueTasks registry
  rejectIf (taskCount ≥ maxTasks) ⟨.txErrWitnessOverflow, "SigCheckQueue task budget exceeded"⟩

def sigcheckTaskBytes (pubkeyLen sigLen : Nat) : Except TxError Nat := do
  rejectIf (2 ^ 64 ≤ sigcheckTaskFixedOverheadBytes + pubkeyLen + sigLen)
    ⟨.txErrWitnessOverflow, "SigCheckQueue task footprint overflow"⟩
  .ok (sigcheckTaskFixedOverheadBytes + pubkeyLen + sigLen)

def nextQueuedBytes (current taskBytes : Nat) : Except TxError Nat := do
  rejectIf (2 ^ 64 ≤ current + taskBytes)
    ⟨.txErrWitnessOverflow, "SigCheckQueue queued-byte accounting overflow"⟩
  rejectIf (current + taskBytes > maxSigcheckQueueBytes)
    ⟨.txErrWitnessOverflow, "SigCheckQueue queued-byte budget exceeded"⟩
  .ok (current + taskBytes)

namespace SigCheckQueue

def push (queue : SigCheckQueue) (task : SigCheckTask) : Except TxError SigCheckQueue := do
  ensureTaskBudget queue.tasks.length queue.registry
  let taskBytes ← sigcheckTaskBytes task.pubkey.length task.sig.length
  let queuedBytes ← nextQueuedBytes queue.queuedBytes taskBytes
  .ok { queue with queuedBytes, tasks := queue.tasks ++ [task] }

def ensureRegistry (queue : SigCheckQueue) (registry : SuiteRegistry) :
    Except TxError SigCheckQueue :=
  match queue.registry with
  | some current =>
    if current ≠ registry then
      .error ⟨.txErrSigAlgInvalid, "SigCheckQueue registry mismatch"⟩
    else .ok queue
  | none => .ok { queue with registry := some registry }

end SigCheckQueue

section verify

variable [Crypto]

def verifyQueuedTask (registry : Option SuiteRegistry) (task : SigCheckTask) :
    Except TxError Unit := do
  let ok ← verifySigWithRegistry task.suiteId task.pubkey task.sig task.digest registry
  rejectIf (ok = false) task.errOnFail

/-- A cancelled result is passed over; the pool of a batch is never cancelled. -/
def reduceQueuedTaskResults : List (WorkerResult TxError Unit) → Except TxError Unit
  | [] => .ok ()
  | .error (.task e) :: _ => .error e
  | .error .panic :: _ => .error ⟨.txErrSigInvalid, "signature worker panic (fail-closed)"⟩
  | .error .cancelled :: rest => reduceQueuedTaskResults rest
  | .ok _ :: rest => reduceQueuedTaskResults rest

def sigcheckBatchRunErrorToTxError : WorkerPoolRunError → TxError
  | .invalidMaxTasks => ⟨.txErrSigInvalid, "signature batch worker pool misconfigured"⟩
  | .tooManyTasks _ _ => ⟨.txErrWitnessOverflow, "signature batch task budget exceeded"⟩

def verifyQueuedTasksBatch (threads : Threads) (tasks : List SigCheckTask) (workers : Nat)
    (registry : Option SuiteRegistry) : Except TxError Unit :=
  match runWorkerPool threads workers tasks.length tasks (verifyQueuedTask registry) with
  | .error e => .error (sigcheckBatchRunErrorToTxError e)
  | .ok results => reduceQueuedTaskResults results

def SigCheckQueue.flush (threads : Threads) (queue : SigCheckQueue) :
    Except TxError SigCheckQueue :=
  if queue.tasks = [] then .ok queue
  else do
    if queue.tasks.length = 1 ∨ queue.workers ≤ 1 then
      forEach (verifyQueuedTask queue.registry) queue.tasks
    else verifyQueuedTasksBatch threads queue.tasks queue.workers queue.registry
    .ok { queue with tasks := [], queuedBytes := 0 }

theorem reduceQueuedTaskResults_eq (registry : Option SuiteRegistry) :
    ∀ tasks : List SigCheckTask,
      reduceQueuedTaskResults (tasks.map (execTask (verifyQueuedTask registry))) =
        forEach (verifyQueuedTask registry) tasks
  | [] => rfl
  | task :: tasks => by
    rw [List.map_cons, forEach_cons, execTask]
    cases verifyQueuedTask registry task with
    | error e => rfl
    | ok u => exact reduceQueuedTaskResults_eq registry tasks

/-- The batch reports what the sequential loop reports, whatever the interleaving. -/
theorem verifyQueuedTasksBatch_eq (threads : Threads) (tasks : List SigCheckTask) (workers : Nat)
    (registry : Option SuiteRegistry) :
    verifyQueuedTasksBatch threads tasks workers registry =
      forEach (verifyQueuedTask registry) tasks := by
  unfold verifyQueuedTasksBatch
  rw [runWorkerPool_eq threads workers tasks _ (le_refl _)]
  exact reduceQueuedTaskResults_eq registry tasks

/-- **What a flush checks**: every queued signature, once. -/
theorem SigCheckQueue.flush_ok_iff (threads : Threads) (queue : SigCheckQueue) :
    (∃ queue', queue.flush threads = .ok queue') ↔
      ∀ task ∈ queue.tasks, verifyQueuedTask queue.registry task = .ok () := by
  unfold SigCheckQueue.flush
  by_cases h : queue.tasks = []
  · simp [h]
  · simp only [h, if_false, verifyQueuedTasksBatch_eq, ite_self, bind_eq_ok]
    rw [← forEach_eq_ok]
    constructor
    · rintro ⟨_, ⟨⟩, hok, -⟩
      exact hok
    · intro hok
      exact ⟨_, (), hok, rfl⟩

end verify

/-! ## 3. Spend validation as a computation -/

section spend

variable [Crypto]

/-- What a spend validator threads: the prehash cache of its transaction, and the queue if there
is one.  A failed validation drops the state, as the source rolls the queue back. -/
structure SpendState (tx : Tx) where
  cache : SighashV1PrehashCache tx
  queue : Option SigCheckQueue

abbrev SpendM (tx : Tx) := StateT (SpendState tx) (Except TxError)

variable {tx : Tx}

def withCache {α : Type} (m : SighashV1PrehashCache.M tx α) : SpendM tx α := fun s => do
  let r ← m s.cache
  .ok (r.1, { s with cache := r.2 })

/-- What becomes of one signature: verified now, or queued under the registry. -/
def submit (registry : SuiteRegistry) (sink : Option SigCheckQueue) (task : SigCheckTask) :
    Except TxError (Option SigCheckQueue) :=
  match sink with
  | some queue => do
    let queue ← queue.ensureRegistry registry
    let queue ← queue.push task
    .ok (some queue)
  | none => do
    verifyQueuedTask (some registry) task
    .ok none

def queueOrVerifySignature (suiteId : UInt8) (pubkey cryptoSig : Bytes) (digest : Bytes32)
    (registry : SuiteRegistry) (errOnFail : TxError) : SpendM tx Unit := fun s => do
  let queue ← submit registry s.queue ⟨suiteId, pubkey, cryptoSig, digest, errOnFail⟩
  .ok ((), { s with queue })

/-! ## 4. Deferral -/

def submitAll (registry : SuiteRegistry) (sink : Option SigCheckQueue) (tasks : List SigCheckTask) :
    Except TxError (Option SigCheckQueue) :=
  tasks.foldlM (submit registry) sink

theorem submitAll_append (registry : SuiteRegistry) (sink : Option SigCheckQueue)
    (ts us : List SigCheckTask) :
    submitAll registry sink (ts ++ us) =
      submitAll registry sink ts >>= fun sink => submitAll registry sink us :=
  List.foldlM_append

theorem submitAll_none {registry : SuiteRegistry} {tasks : List SigCheckTask}
    {sink : Option SigCheckQueue} :
    submitAll registry none tasks = .ok sink ↔
      (∀ task ∈ tasks, verifyQueuedTask (some registry) task = .ok ()) ∧ sink = none := by
  induction tasks with
  | nil => simp [submitAll, pure, Except.pure, eq_comm]
  | cons task tasks ih =>
    rw [List.forall_mem_cons, and_assoc, ← ih]
    unfold submitAll
    rw [List.foldlM_cons]
    simp only [submit, bind_assoc, ok_bind, check_bind_eq_ok]

/-- `ts` are the checks of some of the items `ws`, at most one each.  Up to order: the slots of a
vault are checked after everything else. -/
def TasksFrom (ws : List WitnessItem) (ts : List SigCheckTask) : Prop :=
  ∃ items, items.Subperm ws ∧ List.Forall₂ (fun (w : WitnessItem) (t : SigCheckTask) =>
    t.pubkey = w.pubkey ∧ ∃ b, w.signature = t.sig ++ [b]) items ts

omit [Crypto] in
theorem TasksFrom.nil (ws : List WitnessItem) : TasksFrom ws [] :=
  ⟨[], List.nil_subperm, .nil⟩

omit [Crypto] in
theorem TasksFrom.append {ws vs : List WitnessItem} {ts us : List SigCheckTask}
    (h : TasksFrom ws ts) (h' : TasksFrom vs us) : TasksFrom (ws ++ vs) (ts ++ us) := by
  obtain ⟨items, hsub, hall⟩ := h
  obtain ⟨items', hsub', hall'⟩ := h'
  exact ⟨items ++ items', hsub.append hsub', List.rel_append hall hall'⟩

omit [Crypto] in
theorem TasksFrom.mono {ws vs : List WitnessItem} {ts : List SigCheckTask} (h : TasksFrom ws ts)
    (hsub : ws.Subperm vs) : TasksFrom vs ts := by
  obtain ⟨items, hitems, hall⟩ := h
  exact ⟨items, hitems.trans hsub, hall⟩

/-- `m` does the same for every sink: there is one outcome `v`, with the list of signatures to be
checked, and a run succeeds exactly when that outcome is a value and the sink takes the list. -/
def Deferred {α : Type} (registry : SuiteRegistry) (ws : List WitnessItem) (m : SpendM tx α) :
    Prop :=
  ∃ v : Option (α × List SigCheckTask), (∀ a ts, v = some (a, ts) → TasksFrom ws ts) ∧
    ∀ (s : SpendState tx) (a : α) (sink : Option SigCheckQueue),
      (∃ cache, m s = .ok (a, ⟨cache, sink⟩)) ↔
        ∃ ts, v = some (a, ts) ∧ submitAll registry s.queue ts = .ok sink

namespace Deferred

variable {α β : Type} {registry : SuiteRegistry} {ws vs : List WitnessItem}

theorem mono {m : SpendM tx α} (h : Deferred registry ws m) (hsub : ws.Subperm vs) :
    Deferred registry vs m := by
  obtain ⟨v, hv, hm⟩ := h
  exact ⟨v, fun a ts hts => (hv a ts hts).mono hsub, hm⟩

theorem ofSteady {m : SighashV1PrehashCache.M tx α} {x : Except TxError α} (h : Steady m x) :
    Deferred registry [] (withCache m) := by
  refine ⟨x.toOption.map (·, []), ?_, ?_⟩
  · intro a ts hts
    cases x with
    | error e => cases hts
    | ok b =>
      cases hts
      exact TasksFrom.nil []
  · intro s a sink
    cases x with
    | error e => simp [withCache, h.eq_error, Except.toOption]
    | ok b =>
      obtain ⟨c, hc⟩ := h.eq_ok s.cache
      simp [withCache, hc, Except.toOption, submitAll, pure, Except.pure, eq_comm]

theorem lift (x : Except TxError α) : Deferred registry [] (StateT.lift x : SpendM tx α) := by
  refine ⟨x.toOption.map (·, []), ?_, ?_⟩
  · intro a ts hts
    cases x with
    | error e => cases hts
    | ok b =>
      cases hts
      exact TasksFrom.nil []
  · rintro ⟨cache, queue⟩ a sink
    cases x with
    | error e => simp [stateT_lift_eq_ok, Except.toOption]
    | ok b => simp [stateT_lift_eq_ok, Except.toOption, submitAll, pure, Except.pure]

theorem pure (a : α) : Deferred registry ws (Pure.pure a : SpendM tx α) :=
  (lift (.ok a)).mono List.nil_subperm

/-- Sequencing.  The second part need only be deferred for the results the first can have. -/
theorem bind {m : SpendM tx α} {f : α → SpendM tx β} (hm : Deferred registry ws m)
    (hf : ∀ a, (∃ s s', m s = .ok (a, s')) → Deferred registry vs (f a)) :
    Deferred registry (ws ++ vs) (m >>= f) := by
  classical
  obtain ⟨v, hv, hm⟩ := hm
  have hf' : ∀ a, ∃ w : Option (β × List SigCheckTask), (∃ s s', m s = .ok (a, s')) →
      (∀ b ts, w = some (b, ts) → TasksFrom vs ts) ∧
        ∀ (s : SpendState tx) (b : β) (sink : Option SigCheckQueue),
          (∃ cache, f a s = .ok (b, ⟨cache, sink⟩)) ↔
            ∃ ts, w = some (b, ts) ∧ submitAll registry s.queue ts = .ok sink := by
    intro a
    by_cases ha : ∃ s s', m s = .ok (a, s')
    · obtain ⟨w, hw⟩ := hf a ha
      exact ⟨w, fun _ => hw⟩
    · exact ⟨none, fun h => absurd h ha⟩
  choose u hu using hf'
  -- the checks of the second part count only after a result the first part can have
  refine ⟨v.bind fun p => if ∃ s s', m s = .ok (p.1, s') then
    (u p.1).map fun q => (q.1, p.2 ++ q.2) else none, ?_, ?_⟩
  · intro b ts hts
    obtain ⟨⟨a, ts₁⟩, h1, h2⟩ := Option.bind_eq_some_iff.mp hts
    split at h2
    · rename_i ha
      obtain ⟨⟨b', ts₂⟩, hu₂, heq⟩ := Option.map_eq_some_iff.mp h2
      cases heq
      exact (hv a ts₁ h1).append ((hu a ha).1 b' ts₂ hu₂)
    · cases h2
  · intro s b sink
    constructor
    · rintro ⟨cache, h⟩
      obtain ⟨a, s₁, h1, h2⟩ := stateT_bind_eq_ok.mp h
      obtain ⟨ts₁, hts₁, hsub₁⟩ := (hm s a s₁.queue).mp ⟨s₁.cache, h1⟩
      obtain ⟨ts₂, hts₂, hsub₂⟩ := ((hu a ⟨s, s₁, h1⟩).2 s₁ b sink).mp ⟨cache, h2⟩
      refine ⟨ts₁ ++ ts₂, ?_, ?_⟩
      · rw [hts₁, Option.bind_some, if_pos ⟨s, s₁, h1⟩, hts₂, Option.map_some]
      · rw [submitAll_append, hsub₁]
        exact hsub₂
    · rintro ⟨ts, hts, hsub⟩
      obtain ⟨⟨a, ts₁⟩, h1, h2⟩ := Option.bind_eq_some_iff.mp hts
      split at h2
      · rename_i ha
        obtain ⟨⟨b', ts₂⟩, hu₂, heq⟩ := Option.map_eq_some_iff.mp h2
        cases heq
        rw [submitAll_append] at hsub
        obtain ⟨sink₁, hsub₁, hsub₂⟩ := bind_eq_ok.mp hsub
        obtain ⟨cache₁, hrun₁⟩ := (hm s a sink₁).mpr ⟨ts₁, h1, hsub₁⟩
        obtain ⟨cache₂, hrun₂⟩ := ((hu a ha).2 ⟨cache₁, sink₁⟩ b' sink).mpr ⟨ts₂, hu₂, hsub₂⟩
        exact ⟨cache₂, stateT_bind_eq_ok.mpr ⟨a, _, hrun₁, hrun₂⟩⟩
      · cases h2

theorem liftBind {x : Except TxError α} {f : α → SpendM tx β}
    (hf : ∀ a, x = .ok a → Deferred registry ws (f a)) :
    Deferred registry ws (StateT.lift x >>= f) := by
  cases x with
  | error e =>
    have h : Deferred registry [] (StateT.lift (.error e) : SpendM tx β) := lift _
    exact h.mono List.nil_subperm
  | ok a => exact hf a rfl

theorem bindLift {m : SpendM tx α} (hm : Deferred registry ws m) (f : α → Except TxError β) :
    Deferred registry ws (m >>= fun a => StateT.lift (f a)) := by
  have hf : ∀ a, (∃ s s', m s = .ok (a, s')) →
      Deferred registry [] (StateT.lift (f a) : SpendM tx β) := fun a _ => lift (f a)
  have h := hm.bind hf
  rwa [List.append_nil] at h

theorem signature {w : WitnessItem} {suiteId : UInt8} {cryptoSig : Bytes} {digest : Bytes32}
    {errOnFail : TxError} {b : UInt8} (h : w.signature = cryptoSig ++ [b]) :
    Deferred registry [w] (queueOrVerifySignature suiteId w.pubkey cryptoSig digest registry
      errOnFail : SpendM tx Unit) := by
  refine ⟨some ((), [⟨suiteId, w.pubkey, cryptoSig, digest, errOnFail⟩]), ?_, ?_⟩
  · intro a ts hts
    cases hts
    exact ⟨[w], List.Subperm.refl _, .cons ⟨rfl, b, h⟩ .nil⟩
  · intro s a sink
    simp [queueOrVerifySignature, submitAll]

end Deferred

end spend

end Rubin.Consensus
