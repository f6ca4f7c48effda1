/-
# The signature cache

`sig_cache.rs`, and the flush of a queue that has a cache.  A worker looks a signature up under a
read lock, verifies it on a miss, and inserts it under a write lock if it was valid; the cache is
shared by all workers of a flush and by all flushes, and holds hashes of what was verified.

The pool is `SharedPool`, with two actions for a task.  The invariant of the cache is that every
entry is the key of a task that the oracle accepts (`SigCache.Sound`); it needs the key to tell
tasks apart, which is where the length fields of the hashed string come in
(`sigCacheKeyBytes_inj`).
-/
import Rubin.Consensus.QueueRollback
import Rubin.Consensus.SighashBinding
import Rubin.Lib.SharedPool

namespace Rubin.Consensus

open Rubin.Lib

/-! ## 1. `sig_cache.rs` -/

/-- The capacity is set once.  The counters of hits and misses are left out: nothing reads them. -/
structure SigCache where
  entries : Finset Bytes32
  capacity : Nat

/-- The hashed string.  The source panics on a length that does not fit 32 bits. -/
def sigCacheKeyBytes (suiteId : UInt8) (pubkey sig : Bytes) (digest : Bytes32) : Bytes :=
  [suiteId] ++ u32LeBytes (UInt32.ofNat pubkey.length) ++ pubkey ++
    u32LeBytes (UInt32.ofNat sig.length) ++ sig ++ digest.toList

section cache

variable [Crypto]

def sigCacheKey (suiteId : UInt8) (pubkey sig : Bytes) (digest : Bytes32) : Bytes32 :=
  sha3_256 (sigCacheKeyBytes suiteId pubkey sig digest)

namespace SigCache

def new (capacity : Nat) : SigCache := ⟨∅, max capacity 1⟩

def lookup (cache : SigCache) (suiteId : UInt8) (pubkey sig : Bytes) (digest : Bytes32) : Bool :=
  decide (sigCacheKey suiteId pubkey sig digest ∈ cache.entries)

def insert (cache : SigCache) (suiteId : UInt8) (pubkey sig : Bytes) (digest : Bytes32) :
    SigCache :=
  if cache.entries.card < cache.capacity then
    { cache with entries := Insert.insert (sigCacheKey suiteId pubkey sig digest) cache.entries }
  else cache

def reset (cache : SigCache) : SigCache := { cache with entries := ∅ }

end SigCache

/-! ## 2. `verify_queued_task` with a cache -/

def lookupTask (cache : SigCache) (task : SigCheckTask) : Bool :=
  cache.lookup task.suiteId task.pubkey task.sig task.digest

def insertTask (cache : SigCache) (task : SigCheckTask) : SigCache :=
  cache.insert task.suiteId task.pubkey task.sig task.digest

/-- The part after a miss.  Verification touches nothing shared, so it goes with the insertion. -/
def verifyAndInsert (registry : Option SuiteRegistry) (task : SigCheckTask) (cache : SigCache) :
    Except TxError Unit × SigCache :=
  match verifyQueuedTask registry task with
  | .ok () => (.ok (), insertTask cache task)
  | .error e => (.error e, cache)

def verifyQueuedTaskCached (registry : Option SuiteRegistry) (task : SigCheckTask)
    (cache : SigCache) : Except TxError Unit × SigCache :=
  if lookupTask cache task then (.ok (), cache) else verifyAndInsert registry task cache

/-- Where a worker stands with its task. -/
inductive VerifyPhase where
  | lookup (task : SigCheckTask)
  | missed (task : SigCheckTask)

/-- The two atomic actions of a worker. -/
def cachedProgram (registry : Option SuiteRegistry) :
    TaskProgram SigCheckTask VerifyPhase (WorkerResult TxError Unit) SigCache where
  start := .lookup
  act := fun phase cache =>
    match phase with
    | .lookup task =>
      if lookupTask cache task then (.inr (.ok ()), cache) else (.inl (.missed task), cache)
    | .missed task =>
      let r := verifyAndInsert registry task cache
      (.inr (r.1.mapError .task), r.2)

/-! ## 3. The flush -/

/-- The sequential loop, with its early return. -/
def verifyAllCached (registry : Option SuiteRegistry) :
    List SigCheckTask → SigCache → Except TxError Unit × SigCache
  | [], cache => (.ok (), cache)
  | task :: tasks, cache =>
    let r := verifyQueuedTaskCached registry task cache
    match r.1 with
    | .ok () => verifyAllCached registry tasks r.2
    | .error e => (.error e, r.2)

/-- The pool of a batch after some turns.  A reset may come in between. -/
def batchPool (queue : SigCheckQueue) (schedule : List Turn) (cache : SigCache) :
    SharedPool SigCheckTask VerifyPhase (WorkerResult TxError Unit) SigCache :=
  (SharedPool.start queue.tasks cache).run (cachedProgram queue.registry) SigCache.reset schedule

/-- The outcome of a flush of the queue, and the cache after it. -/
def flushCached (queue : SigCheckQueue) (schedule : List Turn) (cache : SigCache) :
    Except TxError Unit × SigCache :=
  if queue.tasks = [] then (.ok (), cache)
  else if queue.tasks.length = 1 ∨ queue.workers ≤ 1 then
    verifyAllCached queue.registry queue.tasks cache
  else
    let pool := batchPool queue schedule cache
    (reduceQueuedTaskResults (pool.slots.map fun slot => slot.getD (.error .panic)), pool.shared)

/-- The schedule lets the flush return: if there is a pool, its workers have all returned. -/
def Returns (queue : SigCheckQueue) (schedule : List Turn) (cache : SigCache) : Prop :=
  2 ≤ queue.tasks.length → 2 ≤ queue.workers → (batchPool queue schedule cache).Joined

/-- What can happen to a cache that several queues share. -/
inductive CacheEvent where
  | flush (queue : SigCheckQueue) (schedule : List Turn)
  | reset

def cacheStep (cache : SigCache) : CacheEvent → SigCache
  | .flush queue schedule => (flushCached queue schedule cache).2
  | .reset => cache.reset

def cacheRun (cache : SigCache) (events : List CacheEvent) : SigCache :=
  events.foldl cacheStep cache

/-! ## 4. Keys tell tasks apart -/

/-- The lengths for which a key exists. -/
def SigCheckTask.KeyExists (task : SigCheckTask) : Prop :=
  task.pubkey.length < 2 ^ 32 ∧ task.sig.length < 2 ^ 32

def SigCheckTask.keyBytes (task : SigCheckTask) : Bytes :=
  sigCacheKeyBytes task.suiteId task.pubkey task.sig task.digest

omit [Crypto] in
theorem u32Len_prefixFree :
    PrefixFree (· < 2 ^ 32) fun n => u32LeBytes (UInt32.ofNat n) := by
  intro a b s t ha hb heq
  obtain ⟨hlen, hrest⟩ := List.append_inj heq (by rw [u32LeBytes_length, u32LeBytes_length])
  have hnat := congrArg UInt32.toNat (u32LeBytes_injective hlen)
  rw [UInt32.toNat_ofNat_of_lt' ha, UInt32.toNat_ofNat_of_lt' hb] at hnat
  exact ⟨hnat, hrest⟩

variable {task : SigCheckTask}

omit [Crypto] in
theorem sigCacheKeyBytes_inj {task' : SigCheckTask} (h : task.KeyExists) (h' : task'.KeyExists)
    (heq : task.keyBytes = task'.keyBytes) :
    task.suiteId = task'.suiteId ∧ task.pubkey = task'.pubkey ∧ task.sig = task'.sig ∧
      task.digest = task'.digest := by
  have hbytes : ∀ t : SigCheckTask, t.keyBytes = t.suiteId ::
      ((u32LeBytes (UInt32.ofNat t.pubkey.length) ++ t.pubkey) ++
        ((u32LeBytes (UInt32.ofNat t.sig.length) ++ t.sig) ++ t.digest.toList)) := by
    intro t
    simp [SigCheckTask.keyBytes, sigCacheKeyBytes]
  rw [hbytes, hbytes, List.cons.injEq] at heq
  obtain ⟨hsuite, heq⟩ := heq
  obtain ⟨hpubkey, heq⟩ := u32Len_prefixFree.lengthPrefixed _ _ _ _ h.1 h'.1 heq
  obtain ⟨hsig, heq⟩ := u32Len_prefixFree.lengthPrefixed _ _ _ _ h.2 h'.2 heq
  exact ⟨hsuite, hpubkey, hsig, BytesN.toList_inj.mp heq⟩

/-! ## 5. The cache holds what the oracle accepts -/

/-- The oracle, without a cache. -/
def Accepted (registry : Option SuiteRegistry) (task : SigCheckTask) : Prop :=
  verifySigWithRegistry task.suiteId task.pubkey task.sig task.digest registry = .ok true

theorem verifyQueuedTask_ok_iff {registry : Option SuiteRegistry} :
    verifyQueuedTask registry task = .ok () ↔ Accepted registry task := by
  simp only [verifyQueuedTask, bind_eq_ok, rejectIf_eq_ok, Accepted, Bool.not_eq_false]
  constructor
  · rintro ⟨ok, hok, rfl⟩
    exact hok
  · exact fun h => ⟨true, h, rfl⟩

/-- Every entry is the key of an accepted task among `U`, and there is room for all of them. -/
structure SigCache.Sound (registry : Option SuiteRegistry) (U : Set SigCheckTask)
    (asked : Nat) (cache : SigCache) : Prop where
  entries : ∀ key ∈ cache.entries, ∃ task ∈ U, Accepted registry task ∧
    sha3_256 task.keyBytes = key
  capacity : cache.capacity = max asked 1
  card : cache.entries.card ≤ max asked 1

/-- The tasks a development is about: keys exist, and the hash does not collide on them. -/
structure KeysDistinct (U : Set SigCheckTask) : Prop where
  exist : ∀ task ∈ U, task.KeyExists
  inj : Set.InjOn sha3_256 (Set.image SigCheckTask.keyBytes U)

section sound

variable {registry : Option SuiteRegistry} {U : Set SigCheckTask} {capacity : Nat}
  {cache : SigCache}

theorem SigCache.Sound.new : (SigCache.new capacity).Sound registry U capacity :=
  ⟨fun _ hkey => absurd hkey (Finset.notMem_empty _), rfl, Nat.zero_le _⟩

theorem SigCache.Sound.reset (h : cache.Sound registry U capacity) :
    cache.reset.Sound registry U capacity :=
  ⟨fun _ hkey => absurd hkey (Finset.notMem_empty _), h.capacity, Nat.zero_le _⟩

theorem SigCache.Sound.lookup (hU : KeysDistinct U) (h : cache.Sound registry U capacity)
    (htask : task ∈ U) (hit : lookupTask cache task = true) : Accepted registry task := by
  obtain ⟨task', htask', hok, hkey⟩ := h.entries _ (of_decide_eq_true hit)
  have hbytes := hU.inj (Set.mem_image_of_mem _ htask') (Set.mem_image_of_mem _ htask) hkey
  obtain ⟨hsuite, hpubkey, hsig, hdigest⟩ :=
    sigCacheKeyBytes_inj (hU.exist task' htask') (hU.exist task htask) hbytes
  rw [Accepted, hsuite, hpubkey, hsig, hdigest] at hok
  exact hok

theorem SigCache.Sound.insert (h : cache.Sound registry U capacity) (htask : task ∈ U)
    (hok : Accepted registry task) : (insertTask cache task).Sound registry U capacity := by
  rw [insertTask, SigCache.insert]
  split
  · rename_i hroom
    refine ⟨?_, h.capacity, ?_⟩
    · intro key hkey
      rcases Finset.mem_insert.mp hkey with rfl | hkey
      · exact ⟨task, htask, hok, rfl⟩
      · exact h.entries key hkey
    · rw [h.capacity] at hroom
      exact (Finset.card_insert_le _ _).trans hroom
  · exact h

theorem verifyAndInsert_spec (h : cache.Sound registry U capacity) (htask : task ∈ U) :
    (verifyAndInsert registry task cache).1 = verifyQueuedTask registry task ∧
      (verifyAndInsert registry task cache).2.Sound registry U capacity := by
  rw [verifyAndInsert]
  split
  · rename_i hok
    rw [hok]
    exact ⟨rfl, h.insert htask (verifyQueuedTask_ok_iff.mp hok)⟩
  · rename_i e herr
    rw [herr]
    exact ⟨rfl, h⟩

theorem verifyQueuedTaskCached_spec (hU : KeysDistinct U) (h : cache.Sound registry U capacity)
    (htask : task ∈ U) :
    (verifyQueuedTaskCached registry task cache).1 = verifyQueuedTask registry task ∧
      (verifyQueuedTaskCached registry task cache).2.Sound registry U capacity := by
  rw [verifyQueuedTaskCached]
  split
  · rename_i hit
    exact ⟨(verifyQueuedTask_ok_iff.mpr (h.lookup hU htask hit)).symm, h⟩
  · exact verifyAndInsert_spec h htask

theorem verifyAllCached_spec (hU : KeysDistinct U) {tasks : List SigCheckTask} :
    ∀ {cache : SigCache}, cache.Sound registry U capacity → (∀ task ∈ tasks, task ∈ U) →
      (verifyAllCached registry tasks cache).1 = forEach (verifyQueuedTask registry) tasks ∧
        (verifyAllCached registry tasks cache).2.Sound registry U capacity := by
  induction tasks with
  | nil => exact fun h _ => ⟨rfl, h⟩
  | cons task tasks ih =>
    intro cache h hmem
    rw [List.forall_mem_cons] at hmem
    obtain ⟨hresult, hsound⟩ := verifyQueuedTaskCached_spec hU h hmem.1
    rw [forEach_cons, ← hresult, verifyAllCached]
    cases hcase : (verifyQueuedTaskCached registry task cache).1 with
    | ok u => exact ih hsound hmem.2
    | error e => exact ⟨rfl, hsound⟩

theorem cachedProgram_correct (hU : KeysDistinct U) {tasks : List SigCheckTask}
    (hmem : ∀ task ∈ tasks, task ∈ U) :
    SharedPool.Correct (cachedProgram registry) SigCache.reset
      (SigCache.Sound registry U capacity)
      (fun task phase => task ∈ U ∧ (phase = .lookup task ∨ phase = .missed task))
      (execTask (verifyQueuedTask registry)) tasks where
  outside := fun _ h => h.reset
  start := fun task htask => ⟨hmem task htask, Or.inl rfl⟩
  shared := by
    rintro task phase cache ⟨htask, rfl | rfl⟩ h
    · simp only [cachedProgram]
      split
      · exact h
      · exact h
    · exact (verifyAndInsert_spec h htask).2
  phase := by
    rintro task phase cache phase' ⟨htask, rfl | rfl⟩ h hact
    · simp only [cachedProgram] at hact
      split at hact
      · cases hact
      · cases hact
        exact ⟨htask, Or.inr rfl⟩
    · cases hact
  result := by
    rintro task phase cache r ⟨htask, rfl | rfl⟩ h hact
    · simp only [cachedProgram] at hact
      split at hact
      · rename_i hit
        cases hact
        rw [execTask, verifyQueuedTask_ok_iff.mpr (h.lookup hU htask hit)]
      · cases hact
    · simp only [cachedProgram, Sum.inr.injEq, (verifyAndInsert_spec h htask).1] at hact
      rw [← hact, execTask]
      cases verifyQueuedTask registry task with
      | ok u => rfl
      | error e => rfl

variable {queue : SigCheckQueue}

theorem batchPool_inv (hU : KeysDistinct U) (hreg : queue.registry = registry)
    (hmem : ∀ task ∈ queue.tasks, task ∈ U) (h : cache.Sound registry U capacity)
    (schedule : List Turn) :
    SharedPool.Inv (SigCache.Sound registry U capacity)
      (fun task phase => task ∈ U ∧ (phase = .lookup task ∨ phase = .missed task))
      (execTask (verifyQueuedTask registry)) queue.tasks (batchPool queue schedule cache) := by
  subst hreg
  exact (SharedPool.start_inv h).run (cachedProgram_correct hU hmem) schedule

theorem flushCached_sound (hU : KeysDistinct U) (hreg : queue.registry = registry)
    (hmem : ∀ task ∈ queue.tasks, task ∈ U) (h : cache.Sound registry U capacity)
    (schedule : List Turn) : (flushCached queue schedule cache).2.Sound registry U capacity := by
  rw [flushCached]
  split
  · exact h
  · split
    · rw [hreg]
      exact (verifyAllCached_spec hU h hmem).2
    · exact (batchPool_inv hU hreg hmem h schedule).shared

theorem flushCached_result (hU : KeysDistinct U) (hreg : queue.registry = registry)
    (hmem : ∀ task ∈ queue.tasks, task ∈ U) (h : cache.Sound registry U capacity)
    {schedule : List Turn} (hret : Returns queue schedule cache) :
    (flushCached queue schedule cache).1 = forEach (verifyQueuedTask registry) queue.tasks := by
  rw [flushCached]
  split
  · rename_i hnil
    rw [hnil, forEach_nil]
  · rename_i hne
    split
    · rw [hreg]
      exact (verifyAllCached_spec hU h hmem).1
    · rename_i hbatch
      have hlen : queue.tasks.length ≠ 0 := fun hlen => hne (List.length_eq_zero_iff.mp hlen)
      have hslots := (batchPool_inv hU hreg hmem h schedule).slots_eq
        (hret (by omega) (by omega))
      dsimp only
      rw [hslots, List.map_map]
      exact reduceQueuedTaskResults_eq registry queue.tasks

theorem exists_returns (queue : SigCheckQueue) (cache : SigCache) :
    ∃ schedule, Returns queue schedule cache := by
  have hrank : ∀ phase c phase' c', (cachedProgram queue.registry).act phase c =
      (.inl phase', c') → (match phase' with | .lookup _ => 1 | .missed _ => 0) <
        (match phase with | .lookup _ => 1 | .missed _ => 0) := by
    intro phase c phase' c' hact
    cases phase with
    | lookup task =>
      simp only [cachedProgram] at hact
      split at hact
      · cases hact
      · cases hact
        exact Nat.one_pos
    | missed task => cases hact
  obtain ⟨schedule, hjoined⟩ := SharedPool.exists_joined _ hrank SigCache.reset
    (queue.tasks.zipIdx.map Prod.swap) (SharedPool.start queue.tasks cache) rfl fun _ => rfl
  exact ⟨schedule, fun _ _ => hjoined⟩

/-- The queues of a run share the registry, and their tasks are among `U`. -/
def EventIn (registry : Option SuiteRegistry) (U : Set SigCheckTask) : CacheEvent → Prop
  | .flush queue _ => queue.registry = registry ∧ ∀ task ∈ queue.tasks, task ∈ U
  | .reset => True

theorem cacheRun_sound (hU : KeysDistinct U) {events : List CacheEvent} :
    ∀ {cache : SigCache}, cache.Sound registry U capacity →
      (∀ event ∈ events, EventIn registry U event) →
      (cacheRun cache events).Sound registry U capacity := by
  induction events with
  | nil => exact fun h _ => h
  | cons event events ih =>
    intro cache h hevents
    rw [List.forall_mem_cons] at hevents
    refine ih ?_ hevents.2
    cases event with
    | flush queue schedule => exact flushCached_sound hU hevents.1.1 hevents.1.2 h schedule
    | reset => exact h.reset

end sound

/-- **The cache does not show.**  Take any history of flushes and resets of one cache, the last
flush perhaps still under way.  The cache never holds more entries than its capacity.  Every task is
then accepted with the cache exactly when the oracle accepts it, and with the same error otherwise;
a further flush that returns, as on some schedule it does, reports what the queue reports without a
cache. -/
theorem sig_cache_transparent (capacity : Nat) (registry : Option SuiteRegistry)
    (U : Set SigCheckTask) (hU : KeysDistinct U) (events : List CacheEvent)
    (hevents : ∀ event ∈ events, EventIn registry U event) :
    let cache := cacheRun (SigCache.new capacity) events
    cache.entries.card ≤ max capacity 1 ∧
    (∀ task ∈ U, (verifyQueuedTaskCached registry task cache).1 = verifyQueuedTask registry task ∧
      ((verifyQueuedTaskCached registry task cache).1 = .ok () ↔ Accepted registry task)) ∧
    ∀ queue : SigCheckQueue, queue.registry = registry → (∀ task ∈ queue.tasks, task ∈ U) →
      (∃ schedule, Returns queue schedule cache) ∧
      ∀ schedule, Returns queue schedule cache → ∀ threads,
        (flushCached queue schedule cache).1 =
          (onCopy (SigCheckQueue.flushInPlace threads) queue).map fun _ => () := by
  have hsound := cacheRun_sound hU
    (SigCache.Sound.new : (SigCache.new capacity).Sound registry U capacity) hevents
  refine ⟨hsound.card, ?_, ?_⟩
  · intro task htask
    have hresult := (verifyQueuedTaskCached_spec hU hsound htask).1
    exact ⟨hresult, by rw [hresult, verifyQueuedTask_ok_iff]⟩
  · intro queue hreg hmem
    refine ⟨exists_returns queue _, ?_⟩
    intro schedule hret threads
    rw [flushCached_result hU hreg hmem hsound hret, ← hreg]
    exact (SigCheckQueue.flushInPlace_result threads queue).symm

end cache

/-- One signature twice in a queue with two workers, after a flush of the same queue and a reset. -/
theorem sig_cache_transparent_twice :
    let _ := Crypto.trivial
    let task : SigCheckTask := ⟨suiteIdMlDsa87, [1], [2], zero32, .parse "invalid"⟩
    let queue : SigCheckQueue := ⟨[task, task], taskBytes [task, task], none, 2⟩
    let cache := cacheRun (SigCache.new 0) [.flush queue [.worker 0, .worker 1], .reset]
    cache.entries.card ≤ 1 ∧ (∃ schedule, Returns queue schedule cache) ∧
      ∀ schedule, Returns queue schedule cache →
        (flushCached queue schedule cache).1 =
          (onCopy (SigCheckQueue.flushInPlace Threads.single) queue).map fun _ => () := by
  intro _ task queue cache
  have hU : KeysDistinct {task} := by
    refine ⟨?_, ?_⟩
    · rintro _ rfl
      exact ⟨by decide, by decide⟩
    · rw [Set.image_singleton]
      exact Set.injOn_singleton _ _
  have hmem : ∀ t ∈ queue.tasks, t ∈ ({task} : Set SigCheckTask) := by
    intro t ht
    simpa [queue] using ht
  have hevents : ∀ event ∈ [CacheEvent.flush queue [.worker 0, .worker 1], .reset],
      EventIn none {task} event := by
    intro event hevent
    rcases List.mem_cons.mp hevent with rfl | hevent
    · exact ⟨rfl, hmem⟩
    · rw [List.mem_singleton.mp hevent]
      trivial
  obtain ⟨hcard, -, hflush⟩ := sig_cache_transparent 0 none {task} hU _ hevents
  obtain ⟨hreturns, hresult⟩ := hflush queue rfl hmem
  exact ⟨hcard, hreturns, fun schedule hret => hresult schedule hret Threads.single⟩

end Rubin.Consensus
