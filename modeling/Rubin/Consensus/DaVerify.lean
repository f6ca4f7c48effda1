/-
# DA verification on a worker pool

`da_verify_parallel.rs`.  The module collects the hash checks of a block into tasks, runs them on
a pool and reduces the results to the first error; before it builds the payload tasks it checks
the structure of the DA sets again, over maps of its own in which a later transaction replaces an
earlier one.

The result is the verdict of `da_set.rs`: both go through the same stages (`daStages`), so
`verifyDaParallel_rejection` is all there is to compare.  The one check the sequential rule does
not make is the cap on the DA bytes of the block, which another block rule makes.
-/
import Rubin.Consensus.DaSet

namespace Rubin.Consensus

open Rubin.Lib

/-! ## 1. Tasks -/

structure DaChunkHashTask where
  txIndex : Nat
  daPayload : Bytes
  expected : Bytes32

structure DaPayloadCommitTask where
  daId : Bytes32
  chunkCount : UInt16
  chunkPayloads : List Bytes
  expectedCommit : Bytes32

def reduceDaResults (infraCode : ErrorCode) :
    List (WorkerResult TxError Unit) → Except TxError Unit
  | [] => .ok ()
  | .error (.task e) :: _ => .error e
  | .error .cancelled :: _ => .error ⟨infraCode, "DA verification worker canceled (fail-closed)"⟩
  | .error .panic :: _ => .error ⟨infraCode, "DA verification worker panic (fail-closed)"⟩
  | .ok _ :: results => reduceDaResults infraCode results

def daRunErrorToTxError : WorkerPoolRunError → TxError
  | .invalidMaxTasks => ⟨.blockErrDaSetInvalid, "DA verification worker pool misconfigured"⟩
  | .tooManyTasks _ _ => ⟨.blockErrDaBatchExceeded, "DA verification task budget exceeded"⟩

/-- `verify_da_chunk_hashes_parallel` and `verify_da_payload_commits_parallel` differ in what a
worker does with a task. -/
def verifyDaTasksParallel {T : Type} (threads : Threads) (verify : T → Except TxError Unit)
    (tasks : List T) (workers : Nat) : Except TxError Unit :=
  if tasks.isEmpty then .ok ()
  else do
    let results ← (runWorkerPool threads workers tasks.length tasks verify).mapError
      daRunErrorToTxError
    reduceDaResults .blockErrDaSetInvalid results

def totalPayloadLen (lengths : List Nat) : Except TxError Nat :=
  lengths.foldlM (fun acc len => do
    rejectIf (2 ^ 64 ≤ acc + len)
      ⟨.blockErrDaPayloadCommitInvalid, "payload commitment concat overflow"⟩
    .ok (acc + len)) 0

def nextBlockDaPayloadBytes (current daPayloadLen : Nat) : Except TxError Nat := do
  rejectIf (2 ^ 64 ≤ current + daPayloadLen) ⟨.blockErrDaBatchExceeded, "DA payload bytes overflow"⟩
  rejectIf (current + daPayloadLen > maxDaBytesPerBlock)
    ⟨.blockErrDaBatchExceeded, "DA payload batch exceeds block cap"⟩
  .ok (current + daPayloadLen)

def daChunkHashTask (p : Tx × Nat) : Option DaChunkHashTask :=
  if p.1.txKind ≠ 0x02 then none
  else p.1.daChunkCore.map fun core => ⟨p.2, p.1.daPayload, core.chunkHash⟩

def countDaPayload (total : Nat) (tx : Tx) : Except TxError Nat :=
  if tx.txKind ≠ 0x00 then nextBlockDaPayloadBytes total tx.daPayload.length else .ok total

def addDaChunkHashTask (acc : List DaChunkHashTask × Nat) (p : Tx × Nat) :
    Except TxError (List DaChunkHashTask × Nat) := do
  let total ← countDaPayload acc.2 p.1
  .ok (acc.1 ++ (daChunkHashTask p).toList, total)

def collectDaChunkHashTasks (txs : List Tx) : Except TxError (List DaChunkHashTask) := do
  let acc ← txs.zipIdx.foldlM addDaChunkHashTask ([], 0)
  .ok acc.1

/-! ## 2. The payload structure -/

structure DaPayloadStructure where
  commits : List (Bytes32 × Tx)
  chunks : List (Bytes32 × List (UInt16 × Tx))
  duplicateCommitIds : List Bytes32
  duplicateChunkIndexes : List (Bytes32 × UInt16)

def daPayloadCommitCore (tx : Tx) : Except TxError DaCommitCore :=
  okOr tx.daCommitCore (.parse "missing da_commit_core for tx_kind=0x01")

def daPayloadCommitChunkCount (tx : Tx) : Except TxError UInt16 := do
  let core ← daPayloadCommitCore tx
  .ok core.chunkCount

/-- `BTreeMap::insert` of a commit, over an older one if there is one. -/
def putCommit (daId : Bytes32) (tx : Tx) (commits : List (Bytes32 × Tx)) : List (Bytes32 × Tx) :=
  insertByKey (daId, tx) (commits.filter fun p => p.1 != daId)

/-- `BTreeMap::insert` of a chunk into the set of its `da_id`. -/
def putChunk (index : UInt16) (tx : Tx) (set : List (UInt16 × Tx)) : List (UInt16 × Tx) :=
  insertChunk (index, tx) (set.filter fun p => p.1 != index)

def DaPayloadStructure.insertCommit (s : DaPayloadStructure) (core : DaCommitCore) (tx : Tx) :
    DaPayloadStructure :=
  { s with
    commits := putCommit core.daId tx s.commits
    duplicateCommitIds := if (s.commits.lookup core.daId).isSome
      then core.daId :: s.duplicateCommitIds else s.duplicateCommitIds }

def DaPayloadStructure.insertChunk (s : DaPayloadStructure) (core : DaChunkCore) (tx : Tx) :
    DaPayloadStructure :=
  let set := (s.chunks.lookup core.daId).getD []
  { s with
    chunks := setChunks core.daId (putChunk core.chunkIndex tx set) s.chunks
    duplicateChunkIndexes := if (set.lookup core.chunkIndex).isSome
      then (core.daId, core.chunkIndex) :: s.duplicateChunkIndexes
      else s.duplicateChunkIndexes }

def addPayloadCommit (acc : DaPayloadStructure × Nat) (tx : Tx) :
    Except TxError (DaPayloadStructure × Nat) := do
  let total ← nextBlockDaPayloadBytes acc.2 tx.daPayload.length
  let core ← daPayloadCommitCore tx
  .ok (acc.1.insertCommit core tx, total)

def addPayloadChunk (acc : DaPayloadStructure × Nat) (tx : Tx) :
    Except TxError (DaPayloadStructure × Nat) := do
  let core ← okOr tx.daChunkCore (.parse "missing da_chunk_core for tx_kind=0x02")
  let total ← nextBlockDaPayloadBytes acc.2 tx.daPayload.length
  .ok (acc.1.insertChunk core tx, total)

def addPayloadTx (acc : DaPayloadStructure × Nat) (tx : Tx) :
    Except TxError (DaPayloadStructure × Nat) :=
  if tx.txKind = 0x01 then addPayloadCommit acc tx
  else if tx.txKind = 0x02 then addPayloadChunk acc tx
  else .ok acc

def collectDaPayloadStructure (txs : List Tx) : Except TxError DaPayloadStructure := do
  let acc ← txs.foldlM addPayloadTx (⟨[], [], [], []⟩, 0)
  .ok acc.1

def validateDaPayloadChunkIndexes (set : List (UInt16 × Tx)) (chunkCount : UInt16) :
    Except TxError Unit :=
  rejectIf (¬ ∀ i ∈ List.range chunkCount.toNat, (set.lookup (UInt16.ofNat i)).isSome)
    (daIncomplete "missing DA chunk index")

def validateDaPayloadCommitComplete (s : DaPayloadStructure) (p : Bytes32 × Tx) :
    Except TxError Unit := do
  rejectIf (∃ q ∈ s.duplicateChunkIndexes, q.1 = p.1) (daIncomplete "duplicate DA chunk index")
  let chunkCount ← daPayloadCommitChunkCount p.2
  rejectIf (((s.chunks.lookup p.1).getD []).length ≠ chunkCount.toNat)
    (daIncomplete "DA chunk count mismatch")
  let set ← okOr (s.chunks.lookup p.1) (daIncomplete "DA commit without chunks")
  validateDaPayloadChunkIndexes set chunkCount

def validateDaPayloadCommitBound (p : Bytes32 × Tx) : Except TxError Unit := do
  let chunkCount ← daPayloadCommitChunkCount p.2
  rejectIf (chunkCount = 0 ∨ chunkCount.toNat > maxDaChunkCount)
    (.parse "chunk_count out of range for tx_kind=0x01")

def validateDaPayloadStructure (s : DaPayloadStructure) : Except TxError Unit := do
  rejectIf (∃ p ∈ s.chunks, s.commits.lookup p.1 = none)
    ⟨.blockErrDaSetInvalid, "DA chunks without DA commit"⟩
  rejectIf (s.duplicateCommitIds ≠ [])
    ⟨.blockErrDaSetInvalid, "duplicate DA commit for da_id"⟩
  forEach (validateDaPayloadCommitComplete s) s.commits
  rejectIf (s.commits.length > maxDaBatchesPerBlock)
    ⟨.blockErrDaBatchExceeded, "too many DA commits in block"⟩
  forEach validateDaPayloadCommitBound s.commits

def daPayloadCommitmentOutput (tx : Tx) : Except TxError Bytes32 :=
  match tx.outputs.filter isDaCommitOutput with
  | [o] =>
    if o.covenantData.length = 32 then .ok (BytesN.ofList 32 o.covenantData)
    else .error ⟨.blockErrDaPayloadCommitInvalid, "DA commitment output has invalid length"⟩
  | _ => .error ⟨.blockErrDaPayloadCommitInvalid, "DA commitment output missing or duplicated"⟩

def collectDaPayloadChunkPayloads (set : List (UInt16 × Tx)) (chunkCount : UInt16) :
    Except TxError (List Bytes) :=
  (List.range chunkCount.toNat).mapM fun i =>
    okOr ((set.lookup (UInt16.ofNat i)).map Tx.daPayload) (daIncomplete "missing DA chunk index")

def buildDaPayloadCommitTask (s : DaPayloadStructure) (p : Bytes32 × Tx) :
    Except TxError DaPayloadCommitTask := do
  let chunkCount ← daPayloadCommitChunkCount p.2
  let set ← okOr (s.chunks.lookup p.1) (daIncomplete "DA commit without chunks")
  let chunkPayloads ← collectDaPayloadChunkPayloads set chunkCount
  let expectedCommit ← daPayloadCommitmentOutput p.2
  .ok { daId := p.1, chunkCount, chunkPayloads, expectedCommit }

def collectDaPayloadCommitTasks (txs : List Tx) : Except TxError (List DaPayloadCommitTask) := do
  let s ← collectDaPayloadStructure txs
  validateDaPayloadStructure s
  s.commits.mapM (buildDaPayloadCommitTask s)

section verify

variable [Crypto]

def verifyDaChunkHashTask (task : DaChunkHashTask) : Except TxError Unit :=
  rejectIf (sha3_256 task.daPayload ≠ task.expected)
    ⟨.blockErrDaChunkHashInvalid, "chunk_hash mismatch"⟩

def verifyDaPayloadCommitTask (task : DaPayloadCommitTask) : Except TxError Unit := do
  let totalLen ← totalPayloadLen (task.chunkPayloads.map List.length)
  rejectIf (totalLen > maxDaBytesPerBlock)
    ⟨.blockErrDaBatchExceeded, "DA payload batch exceeds block cap"⟩
  rejectIf (sha3_256 task.chunkPayloads.flatten ≠ task.expectedCommit)
    ⟨.blockErrDaPayloadCommitInvalid, "payload commitment mismatch"⟩

def verifyDaChunkHashesParallel (threads : Threads) (tasks : List DaChunkHashTask)
    (workers : Nat) : Except TxError Unit :=
  verifyDaTasksParallel threads verifyDaChunkHashTask tasks workers

def verifyDaPayloadCommitsParallel (threads : Threads) (tasks : List DaPayloadCommitTask)
    (workers : Nat) : Except TxError Unit :=
  verifyDaTasksParallel threads verifyDaPayloadCommitTask tasks workers

/-- The four calls in the order in which a caller makes them. -/
def verifyDaParallel (threads : Threads) (txs : List Tx) (hashWorkers commitWorkers : Nat) :
    Except TxError Unit := do
  let hashTasks ← collectDaChunkHashTasks txs
  verifyDaChunkHashesParallel threads hashTasks hashWorkers
  let commitTasks ← collectDaPayloadCommitTasks txs
  verifyDaPayloadCommitsParallel threads commitTasks commitWorkers

end verify

/-! ## 3. The pool and the byte cap -/

theorem reduceDaResults_eq {T : Type} (infraCode : ErrorCode) (verify : T → Except TxError Unit)
    (tasks : List T) :
    reduceDaResults infraCode (tasks.map (execTask verify)) = forEach verify tasks := by
  induction tasks with
  | nil => rfl
  | cons task tasks ih =>
    rw [List.map_cons, forEach_cons, execTask]
    cases verify task with
    | error e => rfl
    | ok u => exact ih

/-- The pool reports what a loop over the tasks reports, whatever the interleaving. -/
theorem verifyDaTasksParallel_eq {T : Type} (threads : Threads) (verify : T → Except TxError Unit)
    (tasks : List T) (workers : Nat) :
    verifyDaTasksParallel threads verify tasks workers = forEach verify tasks := by
  unfold verifyDaTasksParallel
  cases tasks with
  | nil => rfl
  | cons task tasks =>
    rw [if_neg (by simp), runWorkerPool_eq threads workers _ _ (le_refl _)]
    exact reduceDaResults_eq _ verify (task :: tasks)

/-- The DA bytes of a list of transactions, as the block limit counts them. -/
def daBytesOf (txs : List Tx) : Nat :=
  (txs.map fun tx => if tx.txKind ≠ 0x00 then tx.daPayload.length else 0).sum

theorem daBytesOf_concat (txs : List Tx) (tx : Tx) :
    daBytesOf (txs ++ [tx]) =
      daBytesOf txs + if tx.txKind ≠ 0x00 then tx.daPayload.length else 0 := by
  simp [daBytesOf]

theorem daBytesOf_start_le (done : List Tx) (tx : Tx) (rest : List Tx) :
    daBytesOf (done ++ [tx]) ≤ daBytesOf (done ++ tx :: rest) := by
  simp [daBytesOf]

theorem maxDaBytes_lt : maxDaBytesPerBlock < 2 ^ 64 := by decide

theorem nextBlockDaPayloadBytes_eq {current len : Nat} (h : current + len ≤ maxDaBytesPerBlock) :
    nextBlockDaPayloadBytes current len = .ok (current + len) := by
  have hmax := maxDaBytes_lt
  rw [nextBlockDaPayloadBytes, rejectIf_neg (by omega), ok_bind, rejectIf_neg (by omega)]
  rfl

variable {txs : List Tx} {tx : Tx}

theorem collectDaChunkHashTasks_eq (h : daBytesOf txs ≤ maxDaBytesPerBlock) :
    collectDaChunkHashTasks txs = .ok (txs.zipIdx.filterMap daChunkHashTask) := by
  obtain ⟨acc, hrun, htasks, -⟩ : ∃ acc, txs.zipIdx.foldlM addDaChunkHashTask ([], 0) = .ok acc ∧
      acc.1 = txs.zipIdx.filterMap daChunkHashTask ∧
      acc.2 = daBytesOf (txs.zipIdx.map Prod.fst) := by
    refine foldlM_progress
      (fun (done : List (Tx × Nat)) (acc : List DaChunkHashTask × Nat) =>
        acc.1 = done.filterMap daChunkHashTask ∧ acc.2 = daBytesOf (done.map Prod.fst))
      ⟨rfl, rfl⟩ ?_
    rintro done p rest acc hsplit ⟨htasks, htotal⟩
    have htxs : txs = done.map Prod.fst ++ p.1 :: rest.map Prod.fst := by
      have := congrArg (List.map Prod.fst) hsplit
      rwa [List.zipIdx_map_fst, List.map_append, List.map_cons] at this
    have hcap : daBytesOf (done.map Prod.fst ++ [p.1]) ≤ maxDaBytesPerBlock :=
      (daBytesOf_start_le _ _ _).trans (htxs ▸ h)
    rw [daBytesOf_concat] at hcap
    have hnext : countDaPayload acc.2 p.1 = .ok (daBytesOf (done.map Prod.fst ++ [p.1])) := by
      rw [daBytesOf_concat, htotal, countDaPayload]
      split
      · rename_i hk
        rw [if_pos hk] at hcap
        exact nextBlockDaPayloadBytes_eq hcap
      · rfl
    refine ⟨_, by rw [addDaChunkHashTask, hnext, ok_bind], ?_, ?_⟩
    · rw [htasks, List.filterMap_append]
      cases ht : daChunkHashTask p <;> simp [ht]
    · rw [List.map_append]
      rfl
  rw [collectDaChunkHashTasks, hrun, ok_bind, htasks]

theorem chunkHashTasks_judges [Crypto] (txs : List Tx) :
    Judges TxError.code (forEach verifyDaChunkHashTask (txs.zipIdx.filterMap daChunkHashTask))
      (∀ tx ∈ txs, ChunkHashed tx) .blockErrDaChunkHashInvalid := by
  have hall : Judges TxError.code _ _ .blockErrDaChunkHashInvalid :=
    Judges.forEach (f := verifyDaChunkHashTask) (l := txs.zipIdx.filterMap daChunkHashTask)
      fun _ _ => Judges.guard rfl
  refine hall.congr ?_
  simp only [List.mem_filterMap, not_not]
  constructor
  · intro h tx htx core hk hc
    rw [← List.zipIdx_map_fst 0 txs] at htx
    obtain ⟨p, hp, rfl⟩ := List.mem_map.mp htx
    exact h ⟨p.2, p.1.daPayload, core.chunkHash⟩ ⟨p, hp, by simp [daChunkHashTask, hk, hc]⟩
  · rintro h task ⟨p, hp, htask⟩
    have htx : p.1 ∈ txs := by
      rw [← List.zipIdx_map_fst 0 txs]
      exact List.mem_map_of_mem hp
    unfold daChunkHashTask at htask
    split at htask
    · cases htask
    · rename_i hk
      obtain ⟨core, hc, rfl⟩ := Option.map_eq_some_iff.mp htask
      exact h p.1 htx core (not_not.mp hk) hc

/-! ## 4. What the payload collector gathers -/

/-- The commit transactions, under their `da_id`. -/
def commitTxsOf (txs : List Tx) : List (Bytes32 × Tx) :=
  (commitsOf txs).map fun p => (p.1, p.2.tx)

theorem commitTxsOf_keys (txs : List Tx) :
    (commitTxsOf txs).map Prod.fst = (commitsOf txs).map Prod.fst := by
  rw [commitTxsOf, List.map_map]
  rfl

theorem commitTxsOf_concat (txs : List Tx) (tx : Tx) :
    commitTxsOf (txs ++ [tx]) = commitTxsOf txs ++ commitTxsOf [tx] := by
  rw [commitTxsOf, commitsOf_concat, List.map_append]
  rfl

structure PayloadGathered (txs : List Tx) (s : DaPayloadStructure) : Prop where
  ids : (s.commits.map Prod.fst).Nodup
  commits : Collects (fun daId => s.commits.lookup daId) (commitTxsOf txs)
  duplicates : s.duplicateCommitIds = [] ↔ ((commitsOf txs).map Prod.fst).Nodup
  chunks : ChunksGathered txs s.chunks fun daId => ∃ q ∈ s.duplicateChunkIndexes, q.1 = daId

theorem putCommit_perm (daId : Bytes32) (tx : Tx) (commits : List (Bytes32 × Tx)) :
    (putCommit daId tx commits).Perm ((daId, tx) :: commits.filter fun p => p.1 != daId) :=
  insertByKey_perm _ _

theorem putChunk_perm (index : UInt16) (tx : Tx) (set : List (UInt16 × Tx)) :
    (putChunk index tx set).Perm ((index, tx) :: set.filter fun p => p.1 != index) :=
  insertChunk_perm _ _

namespace PayloadGathered

variable {txs : List Tx} {tx : Tx} {s : DaPayloadStructure} {total : Nat}

theorem start : PayloadGathered [] ⟨[], [], [], []⟩ :=
  ⟨List.nodup_nil, Collects.nil, Gathered.start.duplicates, Gathered.start.chunks⟩

theorem insertCommit {core : DaCommitCore} (h : PayloadGathered txs s) (hk : tx.txKind = 0x01)
    (hc : tx.daCommitCore = some core) :
    PayloadGathered (txs ++ [tx]) (s.insertCommit core tx) := by
  obtain ⟨hcommit, hchunk⟩ := entries_of_commit hk hc
  have hcommitTx : commitTxsOf [tx] = [(core.daId, tx)] := by
    rw [commitTxsOf, hcommit]
    rfl
  have hperm := putCommit_perm core.daId tx s.commits
  refine ⟨nodup_keys_of_put hperm h.ids, ?_, ?_, h.chunks.skip hchunk⟩
  · have hput : (fun daId => (s.insertCommit core tx).commits.lookup daId) = _ :=
      lookup_of_put hperm h.ids
    rw [commitTxsOf_concat, hcommitTx, hput]
    exact h.commits.insert _ _
  · rw [commitsOf_concat, hcommit, nodup_keys_concat, ← h.duplicates, ← commitTxsOf_keys,
      ← h.commits.keys]
    unfold DaPayloadStructure.insertCommit
    cases s.commits.lookup core.daId <;> simp

theorem insertChunk {core : DaChunkCore} (h : PayloadGathered txs s) (hk : tx.txKind = 0x02)
    (hc : tx.daChunkCore = some core) :
    PayloadGathered (txs ++ [tx]) (s.insertChunk core tx) := by
  obtain ⟨hcommit, hchunk⟩ := entries_of_chunk hk hc
  have hcommits : commitsOf (txs ++ [tx]) = commitsOf txs := by
    rw [commitsOf_concat, hcommit, List.append_nil]
  have hcommitTxs : commitTxsOf (txs ++ [tx]) = commitTxsOf txs := by
    rw [commitTxsOf, hcommits]
    rfl
  have hcol := h.chunks.collected core.daId
  have hperm := putChunk_perm core.chunkIndex tx ((s.chunks.lookup core.daId).getD [])
  have hkeys := h.chunks.keys core.daId
  refine ⟨h.ids, hcommitTxs ▸ h.commits, hcommits ▸ h.duplicates,
    h.chunks.put hchunk (nodup_keys_of_put hperm hkeys) ?_ ?_⟩
  · rw [lookup_of_put hperm hkeys]
    exact hcol.insert _ _
  · intro id
    unfold DaPayloadStructure.insertChunk
    dsimp only
    cases hl : ((s.chunks.lookup core.daId).getD []).lookup core.chunkIndex with
    | none =>
      have hnew := (hcol.keys core.chunkIndex).mp hl
      exact ⟨Or.inl, fun hor => hor.resolve_right fun hboth => hnew hboth.2⟩
    | some w =>
      have hmem := List.mem_map_of_mem (f := Prod.fst) (hcol.values _ _ hl)
      rw [Option.isSome_some, if_pos rfl, List.exists_mem_cons_iff, or_comm, and_iff_left hmem]
      exact or_congr Iff.rfl eq_comm

theorem skip (h : PayloadGathered txs s) (h1 : tx.txKind ≠ 0x01) (h2 : tx.txKind ≠ 0x02) :
    PayloadGathered (txs ++ [tx]) s := by
  obtain ⟨hcommit, hchunk⟩ := entries_of_other h1 h2
  have hcommits : commitsOf (txs ++ [tx]) = commitsOf txs := by
    rw [commitsOf_concat, hcommit, List.append_nil]
  have hcommitTxs : commitTxsOf (txs ++ [tx]) = commitTxsOf txs := by
    rw [commitTxsOf, hcommits]
    rfl
  exact ⟨h.ids, hcommitTxs ▸ h.commits, hcommits ▸ h.duplicates, h.chunks.skip hchunk⟩

end PayloadGathered

theorem PayloadGathered.addPayloadTx {s : DaPayloadStructure} {total : Nat}
    (h : PayloadGathered txs s) (htx : tx.HasDaCore)
    (hcap : total + (if tx.txKind ≠ 0x00 then tx.daPayload.length else 0) ≤ maxDaBytesPerBlock) :
    ∃ acc, addPayloadTx (s, total) tx = .ok acc ∧ PayloadGathered (txs ++ [tx]) acc.1 ∧
      acc.2 ≤ total + if tx.txKind ≠ 0x00 then tx.daPayload.length else 0 := by
  unfold Consensus.addPayloadTx
  by_cases h1 : tx.txKind = 0x01
  · obtain ⟨core, hc⟩ := Option.isSome_iff_exists.mp (htx.1 h1)
    have hk : tx.txKind ≠ 0x00 := by
      rw [h1]
      decide
    rw [if_pos hk] at hcap ⊢
    refine ⟨(s.insertCommit core tx, total + tx.daPayload.length), ?_, h.insertCommit h1 hc,
      le_refl _⟩
    rw [if_pos h1, addPayloadCommit, nextBlockDaPayloadBytes_eq hcap, ok_bind,
      daPayloadCommitCore, hc, okOr, ok_bind]
  · by_cases h2 : tx.txKind = 0x02
    · obtain ⟨core, hc⟩ := Option.isSome_iff_exists.mp (htx.2 h2)
      have hk : tx.txKind ≠ 0x00 := by
        rw [h2]
        decide
      rw [if_pos hk] at hcap ⊢
      refine ⟨(s.insertChunk core tx, total + tx.daPayload.length), ?_, h.insertChunk h2 hc,
        le_refl _⟩
      rw [if_neg h1, if_pos h2, addPayloadChunk, hc, okOr, ok_bind,
        nextBlockDaPayloadBytes_eq hcap, ok_bind]
    · exact ⟨(s, total), by rw [if_neg h1, if_neg h2], h.skip h1 h2, Nat.le_add_right _ _⟩

theorem collectDaPayloadStructure_gathered (hcores : ∀ tx ∈ txs, tx.HasDaCore)
    (hcap : daBytesOf txs ≤ maxDaBytesPerBlock) :
    ∃ s, collectDaPayloadStructure txs = .ok s ∧ PayloadGathered txs s := by
  obtain ⟨acc, hrun, hg, -⟩ : ∃ acc, txs.foldlM addPayloadTx (⟨[], [], [], []⟩, 0) = .ok acc ∧
      PayloadGathered txs acc.1 ∧ acc.2 ≤ daBytesOf txs := by
    refine foldlM_progress (fun (done : List Tx) (acc : DaPayloadStructure × Nat) =>
      PayloadGathered done acc.1 ∧ acc.2 ≤ daBytesOf done)
      ⟨PayloadGathered.start, le_refl _⟩ ?_
    rintro done tx rest ⟨s, total⟩ rfl ⟨hg, htotal⟩
    have hle := (daBytesOf_start_le done tx rest).trans hcap
    rw [daBytesOf_concat] at hle
    obtain ⟨acc, hstep, hg', hacc⟩ := hg.addPayloadTx (hcores tx (by simp))
      ((Nat.add_le_add_right htotal _).trans hle)
    refine ⟨acc, hstep, hg', ?_⟩
    rw [daBytesOf_concat]
    exact hacc.trans (Nat.add_le_add_right htotal _)
  exact ⟨acc.1, by rw [collectDaPayloadStructure, hrun, ok_bind], hg⟩

/-! ## 5. The stages, over these maps -/

section stages

variable {txs : List Tx} {s : DaPayloadStructure}

theorem PayloadGathered.perm (h : PayloadGathered txs s)
    (hn : ((commitsOf txs).map Prod.fst).Nodup) : s.commits.Perm (commitTxsOf txs) :=
  h.commits.perm h.ids (by rw [commitTxsOf_keys]; exact hn)

variable {p : Bytes32 × DaCommitSet} {P : Bytes32 × DaCommitSet → Prop}

theorem chunkCount_of_mem_commitsOf (hp : p ∈ commitsOf txs) :
    daPayloadCommitChunkCount p.2.tx = .ok p.2.chunkCount := by
  obtain ⟨tx, -, htx⟩ := List.mem_filterMap.mp hp
  split at htx
  · obtain ⟨core, hc, rfl⟩ := Option.map_eq_some_iff.mp htx
    rw [daPayloadCommitChunkCount, daPayloadCommitCore, hc, okOr, ok_bind]
  · cases htx

/-- A property of a commit, read off the transaction alone. -/
def OfTx (P : Bytes32 × DaCommitSet → Prop) (q : Bytes32 × Tx) : Prop :=
  ∀ n, daPayloadCommitChunkCount q.2 = .ok n → P (q.1, ⟨q.2, n⟩)

theorem ofTx_iff (hp : p ∈ commitsOf txs) : OfTx P (p.1, p.2.tx) ↔ P p := by
  have hcount := chunkCount_of_mem_commitsOf hp
  constructor
  · intro h
    exact h p.2.chunkCount hcount
  · intro h n hn
    rw [hcount] at hn
    cases hn
    exact h

theorem forall_ofTx_iff (hperm : s.commits.Perm (commitTxsOf txs)) :
    (∀ q ∈ s.commits, OfTx P q) ↔ ∀ p ∈ commitsOf txs, P p := by
  constructor
  · intro h p hp
    exact (ofTx_iff hp).mp (h _ (hperm.mem_iff.mpr (List.mem_map.mpr ⟨p, hp, rfl⟩)))
  · intro h q hq
    obtain ⟨p, hp, rfl⟩ := List.mem_map.mp (hperm.mem_iff.mp hq)
    exact (ofTx_iff hp).mpr (h p hp)

theorem forEach_commitTxs_judges {f : Bytes32 × Tx → Except TxError Unit} {c : ErrorCode}
    (hperm : s.commits.Perm (commitTxsOf txs))
    (hf : ∀ p ∈ commitsOf txs, Judges TxError.code (f (p.1, p.2.tx)) (P p) c) :
    Judges TxError.code (forEach f s.commits) (∀ p ∈ commitsOf txs, P p) c := by
  refine (Judges.forEach fun q hq => ?_).congr (forall_ofTx_iff hperm)
  obtain ⟨p, hp, rfl⟩ := List.mem_map.mp (hperm.mem_iff.mp hq)
  exact (hf p hp).congr (ofTx_iff hp).symm

theorem validateDaPayloadChunkIndexes_judges {set : List (UInt16 × Tx)} {n : UInt16} :
    Judges TxError.code (validateDaPayloadChunkIndexes set n)
      (∀ i < n.toNat, UInt16.ofNat i ∈ set.map Prod.fst) .blockErrDaIncomplete := by
  refine (Judges.guard rfl).congr ?_
  simp only [not_not, List.mem_range]
  refine forall₂_congr fun i _ => ?_
  rw [← not_iff_not, ← lookup_eq_none_iff_keys, Bool.not_eq_true, Option.isSome_eq_false_iff,
    Option.isNone_iff_eq_none]

theorem validateDaPayloadCommitComplete_judges (h : PayloadGathered txs s) (hp : p ∈ commitsOf txs)
    :
    Judges TxError.code (validateDaPayloadCommitComplete s (p.1, p.2.tx))
      (p.2.chunkCount ≠ 0 ∧ IndexesComplete (chunksFor p.1 txs) p.2.chunkCount)
      .blockErrDaIncomplete := by
  have hset : Judges TxError.code
      (okOr (s.chunks.lookup p.1) (daIncomplete "DA commit without chunks") >>= fun set =>
        validateDaPayloadChunkIndexes set p.2.chunkCount)
      (s.chunks.lookup p.1 ≠ none ∧ ∀ i < p.2.chunkCount.toNat,
        UInt16.ofNat i ∈ ((s.chunks.lookup p.1).getD []).map Prod.fst)
      .blockErrDaIncomplete := by
    refine Judges.okOr rfl (fun hnone hset => hset.1 hnone) fun set hset => ?_
    refine validateDaPayloadChunkIndexes_judges.congr ?_
    rw [hset]
    exact (and_iff_right (fun hnone => nomatch hnone)).symm
  unfold validateDaPayloadCommitComplete
  rw [chunkCount_of_mem_commitsOf hp]
  refine Judges.congr (Judges.both (Judges.guard rfl) fun _ =>
    Judges.both (Judges.guard rfl) fun _ => hset) ?_
  rw [← h.chunks.complete_iff, not_not]

theorem validateDaPayloadCommitBound_judges (hp : p ∈ commitsOf txs) :
    Judges TxError.code (validateDaPayloadCommitBound (p.1, p.2.tx))
      (p.2.chunkCount ≠ 0 ∧ p.2.chunkCount.toNat ≤ maxDaChunkCount) .txErrParse := by
  unfold validateDaPayloadCommitBound
  rw [chunkCount_of_mem_commitsOf hp]
  exact validateDaChunkCount_judges p.2.chunkCount

/-! ### The payload tasks -/

theorem totalPayloadLen_eq {lengths : List Nat} (h : lengths.sum < 2 ^ 64) :
    totalPayloadLen lengths = .ok lengths.sum := by
  obtain ⟨total, hrun, htotal⟩ : ∃ total, totalPayloadLen lengths = .ok total ∧
      total = lengths.sum := by
    refine foldlM_progress (fun (done : List Nat) (acc : Nat) => acc = done.sum) rfl ?_
    rintro done len rest acc rfl rfl
    rw [List.sum_append, List.sum_cons] at h
    exact ⟨_, by rw [rejectIf_neg (by omega), ok_bind], by rw [List.sum_append, List.sum_singleton]⟩
  rw [hrun, htotal]

theorem chunksFor_cons (daId : Bytes32) (tx : Tx) (txs : List Tx) :
    chunksFor daId (tx :: txs) = chunksFor daId [tx] ++ chunksFor daId txs := by
  have hsplit : chunksOf (tx :: txs) = chunksOf [tx] ++ chunksOf txs := by
    rw [chunksOf, ← List.singleton_append, List.filterMap_append]
    rfl
  rw [chunksFor, hsplit, List.filterMap_append]
  rfl

theorem chunksFor_singleton (daId : Bytes32) (tx : Tx) :
    chunksFor daId [tx] = [] ∨ (tx.txKind = 0x02 ∧ ∃ i, chunksFor daId [tx] = [(i, tx)]) := by
  by_cases hk : tx.txKind = 0x02
  · cases hc : tx.daChunkCore with
    | none => exact Or.inl (by simp [chunksFor, chunksOf, hk, hc])
    | some core =>
      by_cases hid : core.daId = daId
      · exact Or.inr ⟨hk, core.chunkIndex, by simp [chunksFor, chunksOf, hk, hc, hid]⟩
      · exact Or.inl (by simp [chunksFor, chunksOf, hk, hc, hid])
  · exact Or.inl (by simp [chunksFor, chunksOf, hk])

theorem chunksFor_bytes_le (daId : Bytes32) (txs : List Tx) :
    ((chunksFor daId txs).map fun c => c.2.daPayload.length).sum ≤ daBytesOf txs := by
  induction txs with
  | nil => exact le_refl _
  | cons tx txs ih =>
    have hcons : daBytesOf (tx :: txs) =
        (if tx.txKind ≠ 0x00 then tx.daPayload.length else 0) + daBytesOf txs := rfl
    rw [chunksFor_cons, List.map_append, List.sum_append, hcons]
    refine Nat.add_le_add ?_ ih
    rcases chunksFor_singleton daId tx with hnil | ⟨hk, i, hone⟩
    · rw [hnil]
      exact Nat.zero_le _
    · have hk0 : tx.txKind ≠ 0x00 := by
        rw [hk]
        decide
      rw [hone, if_pos hk0]
      exact le_refl _

theorem chunk_bytes_le {chunks : List (UInt16 × Tx)} {n : UInt16} {chunk : Nat → Tx}
    (hchunk : ∀ i < n.toNat, (UInt16.ofNat i, chunk i) ∈ chunks) :
    ((List.range n.toNat).map fun i => (chunk i).daPayload.length).sum ≤
      (chunks.map fun c => c.2.daPayload.length).sum := by
  have hinj : ∀ i ∈ List.range n.toNat, ∀ j ∈ List.range n.toNat,
      (UInt16.ofNat i, chunk i) = (UInt16.ofNat j, chunk j) → i = j := by
    intro i hi j hj hij
    have h16 : n.toNat < 2 ^ 16 := n.toNat_lt
    have hnat := congrArg UInt16.toNat (Prod.mk.inj hij).1
    rw [List.mem_range] at hi hj
    rwa [UInt16.toNat_ofNat_of_lt' (hi.trans h16), UInt16.toNat_ofNat_of_lt' (hj.trans h16)] at hnat
  have hnodup : ((List.range n.toNat).map fun i => (UInt16.ofNat i, chunk i)).Nodup :=
    List.nodup_range.map_on hinj
  have hsub : ((List.range n.toNat).map fun i => (UInt16.ofNat i, chunk i)) ⊆ chunks := by
    intro c hc
    obtain ⟨i, hi, rfl⟩ := List.mem_map.mp hc
    exact hchunk i (List.mem_range.mp hi)
  obtain ⟨l, hperm, hl⟩ := hnodup.subperm hsub
  calc ((List.range n.toNat).map fun i => (chunk i).daPayload.length).sum
      = (l.map fun c => c.2.daPayload.length).sum := by
        rw [(hperm.map _).sum_eq, List.map_map]
        rfl
    _ ≤ (chunks.map fun c => c.2.daPayload.length).sum :=
        (hl.map _).sum_le_sum fun _ _ => Nat.zero_le _

theorem daPayloadCommitmentOutput_eq {o : TxOutput}
    (hone : tx.outputs.filter isDaCommitOutput = [o]) (hlen : o.covenantData.length = 32) :
    daPayloadCommitmentOutput tx = .ok (BytesN.ofList 32 o.covenantData) := by
  rw [daPayloadCommitmentOutput, hone]
  exact if_pos hlen

theorem daPayloadCommitmentOutput_rejection
    (h : ¬ ∃ o, tx.outputs.filter isDaCommitOutput = [o] ∧ o.covenantData.length = 32) :
    rejection TxError.code (daPayloadCommitmentOutput tx) =
      some .blockErrDaPayloadCommitInvalid := by
  unfold daPayloadCommitmentOutput
  split
  · rename_i o hone
    rw [if_neg fun hlen => h ⟨o, hone, hlen⟩]
    rfl
  · rfl

theorem buildDaPayloadCommitTask_spec [Crypto] (h : PayloadGathered txs s)
    (hcap : daBytesOf txs ≤ maxDaBytesPerBlock) (hp : p ∈ commitsOf txs) (hpos : p.2.chunkCount ≠ 0)
    (hix : IndexesComplete (chunksFor p.1 txs) p.2.chunkCount) :
    (∃ task, buildDaPayloadCommitTask s (p.1, p.2.tx) = .ok task ∧
      Judges TxError.code (verifyDaPayloadCommitTask task)
        (PayloadCommitted (chunksFor p.1 txs) p.2) .blockErrDaPayloadCommitInvalid) ∨
    (rejection TxError.code (buildDaPayloadCommitTask s (p.1, p.2.tx)) =
        some .blockErrDaPayloadCommitInvalid ∧
      ¬ PayloadCommitted (chunksFor p.1 txs) p.2) := by
  obtain ⟨set, chunk, hset, hchunk⟩ := h.chunks.exists_chunks hpos hix
  have hmem := fun i hi => (hchunk i hi).2
  have hpay : collectDaPayloadChunkPayloads set p.2.chunkCount =
      .ok ((List.range p.2.chunkCount.toNat).map fun i => (chunk i).daPayload) := by
    refine mapM_eq_ok fun i hi => ?_
    rw [(hchunk i (List.mem_range.mp hi)).1]
    rfl
  unfold buildDaPayloadCommitTask
  rw [chunkCount_of_mem_commitsOf hp, ok_bind, hset, okOr, ok_bind, hpay, ok_bind]
  simp only [payloadCommitted_iff hix.nodup hmem]
  by_cases hout : ∃ o, p.2.tx.outputs.filter isDaCommitOutput = [o] ∧ o.covenantData.length = 32
  · obtain ⟨o, hone, hlen⟩ := hout
    refine Or.inl ⟨_, by rw [daPayloadCommitmentOutput_eq hone hlen, ok_bind], ?_⟩
    have hbytes := ((chunk_bytes_le hmem).trans (chunksFor_bytes_le p.1 txs)).trans hcap
    unfold verifyDaPayloadCommitTask
    dsimp only
    rw [List.map_map, Function.comp_def, totalPayloadLen_eq (hbytes.trans_lt maxDaBytes_lt), ok_bind,
      rejectIf_neg (not_lt.mpr hbytes), ok_bind, ← List.flatMap_def]
    refine Judges.congr (Judges.guard rfl) ?_
    rw [not_not]
    constructor
    · intro heq
      exact ⟨o, hone, hlen, by rw [heq, BytesN.toList_ofList hlen]⟩
    · rintro ⟨o', hone', -, hdata⟩
      rw [hone] at hone'
      cases hone'
      rw [hdata, BytesN.ofList_toList]
  · refine Or.inr ⟨rejection_bind_of_some (daPayloadCommitmentOutput_rejection hout), ?_⟩
    rintro ⟨o, hone, hlen, -⟩
    exact hout ⟨o, hone, hlen⟩

end stages

/-! ## 6. The pipeline -/

/-- **The pipeline refuses with the code of the first stage that fails.** -/
theorem verifyDaParallel_rejection [Crypto] (threads : Threads) (hcores : ∀ tx ∈ txs, tx.HasDaCore)
    (hcap : daBytesOf txs ≤ maxDaBytesPerBlock) (hashWorkers commitWorkers : Nat) :
    rejection TxError.code (verifyDaParallel threads txs hashWorkers commitWorkers) =
      firstFault (daStages txs) := by
  obtain ⟨s, hcollect, hg⟩ := collectDaPayloadStructure_gathered hcores hcap
  unfold verifyDaParallel verifyDaChunkHashesParallel verifyDaPayloadCommitsParallel
  rw [collectDaChunkHashTasks_eq hcap, ok_bind, verifyDaTasksParallel_eq]
  refine (chunkHashTasks_judges txs).rejection_bind fun _ => ?_
  simp only [collectDaPayloadCommitTasks, hcollect, ok_bind, validateDaPayloadStructure, bind_assoc,
    verifyDaTasksParallel_eq]
  have hkeys : ∀ daId, s.commits.lookup daId = none ↔ daId ∉ (commitsOf txs).map Prod.fst := by
    intro daId
    rw [← commitTxsOf_keys]
    exact hg.commits.keys daId
  refine Judges.rejection_bind ((Judges.guard rfl).congr (hg.chunks.committed_iff hkeys))
    fun _ => ?_
  refine Judges.rejection_bind ((Judges.guard rfl).congr (not_not.trans hg.duplicates))
    fun hone => ?_
  have hperm := hg.perm hone
  refine (forEach_commitTxs_judges hperm fun p hp =>
    validateDaPayloadCommitComplete_judges hg hp).rejection_bind fun hcomplete => ?_
  have hlen : ¬ s.commits.length > maxDaBatchesPerBlock ↔
      (commitsOf txs).length ≤ maxDaBatchesPerBlock := by
    rw [gt_iff_lt, not_lt, hperm.length_eq, commitTxsOf, List.length_map]
  refine Judges.rejection_bind ((Judges.guard rfl).congr hlen) fun _ => ?_
  refine (forEach_commitTxs_judges hperm fun p hp =>
    validateDaPayloadCommitBound_judges hp).rejection_bind fun _ => ?_
  refine Judges.rejection_last (Judges.congr (Judges.mapM_forEach ?_) (forall_ofTx_iff hperm))
  intro q hq
  obtain ⟨p, hp, rfl⟩ := List.mem_map.mp (hperm.mem_iff.mp hq)
  simp only [ofTx_iff hp]
  exact buildDaPayloadCommitTask_spec hg hcap hp (hcomplete p hp).1 (hcomplete p hp).2

/-- **Parallel and sequential DA verification agree**: one accepts when the other does, and a
refusal has the same code, for any worker counts and any interleaving. -/
theorem da_parallel_agrees [Crypto] (threads : Threads) (txs : List Tx)
    (hparsed : ∀ tx ∈ txs, tx.IsParsed) (hcap : daBytesOf txs ≤ maxDaBytesPerBlock)
    (hashWorkers commitWorkers : Nat) :
    rejection TxError.code (verifyDaParallel threads txs hashWorkers commitWorkers) =
      rejection TxError.code (validateDaSetIntegrity txs) := by
  have hcores : ∀ tx ∈ txs, tx.HasDaCore := fun tx htx => (hparsed tx htx).hasDaCore
  rw [verifyDaParallel_rejection threads hcores hcap, validateDaSetIntegrity_rejection hcores]

theorem da_parallel_agrees_sampleDaSet :
    letI := Crypto.sha3With fun _ _ _ => .ok true
    verifyDaParallel Threads.single sampleDaSet 4 2 = .ok () := by
  let _ := Crypto.sha3With fun _ _ _ => .ok true
  have hrun : validateDaSetIntegrity sampleDaSet = .ok () :=
    exists_unit.mp (exists_ok_of_isOk (by decide +kernel))
  have h := da_parallel_agrees Threads.single sampleDaSet sampleDaSet_parsed (by decide) 4 2
  rwa [hrun, rejection_ok, rejection_eq_none] at h

end Rubin.Consensus
