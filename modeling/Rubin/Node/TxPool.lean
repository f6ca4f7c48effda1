/-
# The transaction pool

`txpool.rs`: the resident map with its admission sequences and byte count, the tokens that tie
each resident to its claim at the pending-outpoint owner, capacity planning, admission and
removal.

The owner is behind an `Arc<Mutex<_>>` in the source; here it is a field of the pool, and what
other holders of the handle do to it (the sync engine's transitions) are steps on that field.
`worst_heap` is written but never read outside tests and is left out.  Sizes and sequence numbers
are `Nat`: a sum of resident sizes cannot reach `usize::MAX`, and `next_heap_id` is checked before
it is increased, so the saturating additions of the source are additions.  The loop over the
resident map visits it in an unspecified order, which is a parameter.

Admission tags its errors with the check that failed.  The tag is not in the source; it is dropped
in `addTxWithSource`.
-/
import Rubin.Node.PendingOwner
import Rubin.Node.TxPolicy

namespace Rubin.Node

open Rubin.Lib Rubin.Consensus

/-! ## 1. State -/

inductive TxSource where
  | «local»
  | remote
  | reorg
deriving DecidableEq, Repr

structure TxPoolEntry where
  raw : Bytes
  inputs : List Outpoint
  fee : Nat
  weight : Nat
  size : Nat
  source : TxSource
deriving DecidableEq

structure TxPool where
  cfg : TxPoolConfig
  txs : Finmap fun _ : Bytes32 => TxPoolEntry
  owner : Option PendingOutpointOwner
  ownerTokens : Finmap fun _ : Bytes32 => Nat
  heapSeqs : Finmap fun _ : Bytes32 => Nat
  nextHeapId : Nat
  maxTransactions : Nat
  maxBytes : Nat
  lowWaterBytes : Nat
  usedBytes : Nat

def maxTxPoolTransactions : Nat := 300
def defaultTxPoolMaxBytes : Nat := maxRelayMsgBytes

def defaultTxPoolLowWaterBytes (maxBytes : Nat) : Nat :=
  if maxBytes = 0 then 0
  else
    let lowWater := maxBytes / 10 * 9 + maxBytes % 10 * 9 / 10
    if lowWater = 0 then 1 else lowWater

def ownerError (error : PendingOutpointError) : TxPoolAdmitError :=
  match error.kind with
  | .conflict => conflict error.message
  | .unavailable => unavailable error.message
  | .internal => unavailable error.message

/-- Which check of an admission failed. -/
inductive AdmitStage where
  | ownerFence
  | parse
  | weight
  | chainContext
  | feePrecheck
  | simplicityPolicy
  | consensus
  | policy
  | duplicate
  | conflict
  | feeFloor
  | capacity
deriving DecidableEq, Repr

structure AdmitFailure where
  stage : AdmitStage
  error : TxPoolAdmitError
deriving DecidableEq

/-- `x?` at a given stage. -/
def atStage {α : Type} (stage : AdmitStage) (x : Except TxPoolAdmitError α) :
    Except AdmitFailure α := x.mapError (AdmitFailure.mk stage)

/-- `x.map_err(owner_error)?`. -/
def atOwner {α : Type} (x : Except PendingOutpointError α) : Except AdmitFailure α :=
  x.mapError fun error => ⟨.ownerFence, ownerError error⟩

/-- A failed reservation: an outpoint that is taken, or the owner is not available. -/
def reserveFailure (error : PendingOutpointError) : AdmitFailure :=
  ⟨if error.kind = .conflict then .conflict else .ownerFence, ownerError error⟩

namespace TxPool

def newWithOwner (cfg : TxPoolConfig) (owner : Option PendingOutpointOwner) : TxPool where
  cfg := cfg
  txs := ∅
  owner := owner
  ownerTokens := ∅
  heapSeqs := ∅
  nextHeapId := 0
  maxTransactions := maxTxPoolTransactions
  maxBytes := defaultTxPoolMaxBytes
  lowWaterBytes := defaultTxPoolLowWaterBytes defaultTxPoolMaxBytes
  usedBytes := 0

def len (pool : TxPool) : Nat := pool.txs.keys.card

/-! ## 2. Capacity -/

structure CapacityPlanEntry where
  txid : Bytes32
  entry : TxPoolEntry
  candidate : Bool
  admissionSeq : Nat

inductive CapacityOrdering where
  | legacyCountPressure
  | bytePressure

def compare32 (a b : Bytes32) : Ordering :=
  if lt32 a b then .lt else if lt32 b a then .gt else .eq

/-- The exact cross product; an uncomputable rate compares equal. -/
def compareFeeRateValues (feeA weightA feeB weightB : Nat) : Ordering :=
  if weightA = 0 ∨ weightB = 0 then .eq else compare (feeA * weightB) (feeB * weightA)

def compareCountPressurePriority (a b : CapacityPlanEntry) : Ordering :=
  ((compareFeeRateValues a.entry.fee a.entry.weight b.entry.fee b.entry.weight).then
    (compare a.entry.fee b.entry.fee)).then
    ((compare b.entry.weight a.entry.weight).then (compare32 b.txid a.txid))

def compareCapacityPriority (a b : CapacityPlanEntry) : Ordering :=
  ((compareFeeRateValues a.entry.fee a.entry.weight b.entry.fee b.entry.weight).then
    (compare a.entry.fee b.entry.fee)).then (compare a.admissionSeq b.admissionSeq)

def capacityPlanEntryWorse (a b : CapacityPlanEntry) (ordering : CapacityOrdering) : Bool :=
  let priority := match ordering with
    | .legacyCountPressure => compareCountPressurePriority a b
    | .bytePressure => compareCapacityPriority a b
  match priority with
  | .lt => true
  | .gt => false
  | .eq => lt32 b.txid a.txid

/-- The loop of `worst_capacity_plan_index` from index `i` on. -/
def worstIndexFrom (ordering : CapacityOrdering) :
    (worst : CapacityPlanEntry) → (worstIndex i : Nat) → List CapacityPlanEntry → Nat
  | _, worstIndex, _, [] => worstIndex
  | worst, worstIndex, i, e :: rest =>
    if capacityPlanEntryWorse e worst ordering then worstIndexFrom ordering e i (i + 1) rest
    else worstIndexFrom ordering worst worstIndex (i + 1) rest

def worstCapacityPlanIndex (ordering : CapacityOrdering) : List CapacityPlanEntry → Nat
  | [] => 0
  | e :: rest => worstIndexFrom ordering e 0 1 rest

structure CapacityPlan where
  planPool : List CapacityPlanEntry
  admissionSeqs : Finmap fun _ : Nat => Bytes32
  totalCount : Nat
  totalBytes : Nat
  evicted : List Bytes32

def invalidResident : TxPoolAdmitError :=
  rejected "tx pool capacity invariant violated: invalid resident metadata"

/-- `if let Some(existing) = admission_seqs.insert(admission_seq, *txid)`. -/
def checkSequenceNew (admissionSeqs : Finmap fun _ : Nat => Bytes32) (admissionSeq : Nat)
    (txid : Bytes32) : Except TxPoolAdmitError Unit :=
  match admissionSeqs.lookup admissionSeq with
  | some existing => .error (rejected
      ("tx pool capacity invariant violated: duplicate heap sequence " ++ toString admissionSeq ++
        " existing=" ++ hexEncode existing.toList ++ " new=" ++ hexEncode txid.toList))
  | none => .ok ()

/-- One turn of the loop over the residents. -/
def planResident (pool : TxPool) (plan : CapacityPlan) (txid : Bytes32) :
    Except TxPoolAdmitError CapacityPlan :=
  match pool.txs.lookup txid with
  | none => .ok plan
  | some entry => do
    rejectIf (txid = zero32) invalidResident
    let admissionSeq ← okOr (pool.heapSeqs.lookup txid)
      (rejected "tx pool capacity invariant violated: missing heap sequence")
    checkSequenceNew plan.admissionSeqs admissionSeq txid
    rejectIf (entry.size = 0 ∨ entry.weight = 0) invalidResident
    .ok { plan with
      admissionSeqs := plan.admissionSeqs.insert admissionSeq txid
      planPool := plan.planPool ++ [⟨txid, entry, false, admissionSeq⟩] }

/-- The eviction loop.  Every turn removes one entry of the plan pool, so as many turns as the
pool has entries are enough. -/
def evictWorst (pool : TxPool) (targetBytes : Nat) (ordering : CapacityOrdering) :
    (turns : Nat) → CapacityPlan → Except TxPoolAdmitError CapacityPlan
  | 0, plan => .ok plan
  | turns + 1, plan =>
    if plan.totalCount > pool.maxTransactions ∨ plan.totalBytes > targetBytes then
      let worstIndex := worstCapacityPlanIndex ordering plan.planPool
      match plan.planPool[worstIndex]? with
      | none => .ok plan
      | some worst => do
        rejectIf (worst.candidate = true)
          (unavailable "mempool capacity candidate rejected by eviction ordering")
        rejectIf (plan.totalBytes < worst.entry.size)
          (unavailable "mempool eviction byte accounting underflow")
        evictWorst pool targetBytes ordering turns { plan with
          planPool := plan.planPool.eraseIdx worstIndex
          totalCount := plan.totalCount - 1
          totalBytes := plan.totalBytes - worst.entry.size
          evicted := plan.evicted ++ [worst.txid] }
    else .ok plan

def effectiveLowWaterBytes (pool : TxPool) : Nat :=
  if pool.lowWaterBytes > 0 ∨ pool.maxBytes = 0 then pool.lowWaterBytes
  else defaultTxPoolLowWaterBytes pool.maxBytes

def txPoolBytePressureTarget (lowWaterBytes candidateSize : Nat) : Nat :=
  max lowWaterBytes candidateSize

def capacityRemains (pool : TxPool) (plan : CapacityPlan) : TxPoolAdmitError :=
  unavailable ("mempool capacity remains exceeded after dry-run eviction: count=" ++
    toString plan.totalCount ++ "/" ++ toString pool.maxTransactions ++ " bytes=" ++
    toString plan.totalBytes ++ "/" ++ toString pool.maxBytes)

/-- The plan under pressure: the residents and the candidate, the worst of them evicted. -/
def evictUnderPressure (pool : TxPool) (ord : VisitOrder Bytes32) (candidateTxid : Bytes32)
    (candidate : TxPoolEntry) (bytePressure : Bool) : Except TxPoolAdmitError (List Bytes32) := do
  let targetBytes :=
    if bytePressure then txPoolBytePressureTarget pool.effectiveLowWaterBytes candidate.size
    else pool.maxBytes
  let ordering : CapacityOrdering := if bytePressure then .bytePressure else .legacyCountPressure
  let plan ← (ord.order pool.txs.keys).foldlM pool.planResident
    ⟨[], ∅, pool.len + 1, pool.usedBytes + candidate.size, []⟩
  let plan := { plan with planPool := plan.planPool ++ [⟨candidateTxid, candidate, true, 0⟩] }
  let plan ← pool.evictWorst targetBytes ordering plan.planPool.length plan
  rejectIf (plan.totalCount > pool.maxTransactions ∨ plan.totalBytes > pool.maxBytes)
    (pool.capacityRemains plan)
  .ok plan.evicted

def capacityEvictionPlan (pool : TxPool) (ord : VisitOrder Bytes32) (candidateTxid : Bytes32)
    (candidate : TxPoolEntry) : Except TxPoolAdmitError (List Bytes32) := do
  rejectIf (pool.maxTransactions = 0 ∨ pool.maxBytes = 0)
    (unavailable ("invalid mempool capacity limits: max_txs=" ++ toString pool.maxTransactions ++
      " max_bytes=" ++ toString pool.maxBytes))
  rejectIf (candidateTxid = zero32 ∨ candidate.size = 0 ∨ candidate.weight = 0)
    (rejected "tx pool capacity invariant violated: invalid candidate metadata")
  rejectIf (candidate.size > pool.maxBytes)
    (unavailable ("mempool byte limit exceeded: current=" ++ toString pool.usedBytes ++ " tx=" ++
      toString candidate.size ++ " max=" ++ toString pool.maxBytes))
  let countPressure := decide (pool.len ≥ pool.maxTransactions)
  let bytePressure := decide (pool.usedBytes > pool.maxBytes - candidate.size)
  if !countPressure && !bytePressure then .ok []
  else pool.evictUnderPressure ord candidateTxid candidate bytePressure

/-! ## 3. Admission -/

def admissionContext (pool : TxPool) (chainState : ChainState) :
    TxPool × Except TxPoolAdmitError (PendingOutpointOwner × PendingOutpointAdmissionContext) :=
  let expectedTip := PendingOutpointTip.fromChainState chainState
  let owner := pool.owner.getD (.new expectedTip)
  ({ pool with owner := some owner }, do
    let context ← owner.admissionContext.mapError ownerError
    rejectIf (context.tip ≠ expectedTip)
      (unavailable "pending-outpoint owner context does not match chain tip")
    .ok (owner, context))

/-- What admission knows of a transaction when it turns to the pool. -/
structure CheckedTx where
  txid : Bytes32
  inputs : List Outpoint
  weight : Nat
  fee : Nat

/-- The checks of `add_tx_with_source` that do not look at the pool: up to the policy. -/
def checkTransaction [Crypto] (txBytes : Bytes) (chainState : ChainState)
    (blockStore : Option BlockStore) (chainId : Bytes32) (cfg : TxPoolConfig) :
    Except AdmitFailure CheckedTx := do
  let parsed ← atStage .parse (parseCanonicalTx txBytes)
  let stats ← atStage .weight ((txWeightAndStats parsed.tx).mapError transactionRejected)
  let nextHeight ← atStage .chainContext (TxPool.nextBlockHeight chainState)
  let blockMtp ← atStage .chainContext
    ((TxPool.nextBlockMtp blockStore nextHeight).mapError unavailable)
  atStage .feePrecheck (cheapFeeFloorPrecheck parsed.tx chainState.utxos stats.1
    cfg.policyCurrentMempoolMinFeeRate nextHeight cfg.rotation cfg.registry)
  atStage .simplicityPolicy (simplicityPolicyGate cfg parsed.tx chainState.utxos nextHeight)
  let summary ← atStage .consensus
    (applyAtNextBlock parsed chainState nextHeight blockMtp chainId cfg)
  atStage .policy (applyPostConsensusPolicyWithoutFloor parsed.tx chainState.utxos stats.1 stats.2.1
    nextHeight cfg)
  .ok { txid := parsed.txid, inputs := parsed.tx.inputs.map TxInput.outpoint, weight := stats.1,
        fee := summary.fee }

def preflightStandardDelta (pool : TxPool) (evicted : List Bytes32) :
    Except TxPoolAdmitError Unit := do
  rejectIf (pool.nextHeapId = u64Max) (unavailable "txpool heap sequence exhausted")
  rejectIf (∃ txid ∈ evicted, pool.txs.lookup txid = none)
    (unavailable "txpool eviction plan changed before commit")

def insertEntryRaw (pool : TxPool) (txid : Bytes32) (entry : TxPoolEntry) : TxPool :=
  { pool with
    nextHeapId := pool.nextHeapId + 1
    usedBytes := pool.usedBytes + entry.size
    heapSeqs := pool.heapSeqs.insert txid (pool.nextHeapId + 1)
    txs := pool.txs.insert txid entry }

/-- The part of `remove_entry_raw` for an entry that is there. -/
def removeEntryRaw (pool : TxPool) (txid : Bytes32) (entry : TxPoolEntry) : TxPool :=
  { pool with
    txs := pool.txs.erase txid
    heapSeqs := pool.heapSeqs.erase txid
    usedBytes := pool.usedBytes - entry.size }

/-- The body of the removal loops: the entry, its token, its claim. -/
def removeResident (s : TxPool × PendingOutpointOwner) (txid : Bytes32) :
    TxPool × PendingOutpointOwner :=
  match s.1.txs.lookup txid with
  | none => s
  | some entry =>
    let pool := s.1.removeEntryRaw txid entry
    match pool.ownerTokens.lookup txid with
    | none => (pool, s.2)
    | some token =>
      ({ pool with ownerTokens := pool.ownerTokens.erase txid }, s.2.dropAfterValidation token)

/-- `commit_standard_delta` up to its first write. -/
def validateStandardDelta (pool : TxPool) (owner : PendingOutpointOwner)
    (context : PendingOutpointAdmissionContext) (txid : Bytes32) (entry : TxPoolEntry)
    (candidateToken : Option Nat) (evicted : List Bytes32) : Except AdmitFailure Unit := do
  atOwner (owner.checkAvailable context)
  atStage .capacity (rejectIf (evicted.length > maxTxPoolTransactions)
    (unavailable "txpool delta victim bound exceeded"))
  atStage .capacity (rejectIf (txid ∈ evicted ∨ ¬ evicted.Nodup)
    (unavailable "txpool delta victim shape invalid"))
  atOwner (forEach owner.checkCandidate candidateToken.toList)
  atOwner (owner.validateStandardEntry txid entry.inputs candidateToken false)
  forEach (fun victimTxid => do
    let victim ← atStage .capacity (okOr (pool.txs.lookup victimTxid)
      (unavailable "txpool eviction plan changed before commit"))
    atOwner (owner.validateStandardEntry victimTxid victim.inputs
      (pool.ownerTokens.lookup victimTxid) true)) evicted

/-- The writes of `commit_standard_delta`. -/
def applyStandardDelta (pool : TxPool) (owner : PendingOutpointOwner) (txid : Bytes32)
    (entry : TxPoolEntry) (candidateToken : Option Nat) (evicted : List Bytes32) : TxPool :=
  let s := evicted.foldl removeResident (pool, owner)
  let pool := s.1.insertEntryRaw txid entry
  match candidateToken with
  | none => { pool with owner := some s.2 }
  | some token =>
    { pool with
      ownerTokens := pool.ownerTokens.insert txid token
      owner := some (s.2.finalizeAfterValidation token) }

def commitStandardDelta (pool : TxPool) (owner : PendingOutpointOwner)
    (context : PendingOutpointAdmissionContext) (txid : Bytes32) (entry : TxPoolEntry)
    (candidateToken : Option Nat) (evicted : List Bytes32) : Except AdmitFailure TxPool := do
  pool.validateStandardDelta owner context txid entry candidateToken evicted
  .ok (pool.applyStandardDelta owner txid entry candidateToken evicted)

/-- Nothing is reserved for a transaction without inputs. -/
def reserveInputs (owner : PendingOutpointOwner) (context : PendingOutpointAdmissionContext)
    (txid : Bytes32) (inputs : List Outpoint) :
    Except PendingOutpointError (Option Nat × PendingOutpointOwner) :=
  if inputs = [] then .ok (none, owner)
  else do
    let r ← owner.reserve context txid inputs
    .ok (some r.1, r.2)

/-- `let _ = owner.release(token)`. -/
def releaseReservation (owner : PendingOutpointOwner) (token : Option Nat) :
    PendingOutpointOwner :=
  match token with
  | none => owner
  | some token =>
    match owner.release token with
    | .ok owner' => owner'
    | .error _ => owner

/-- Everything after the reservation. -/
def admitReserved (pool : TxPool) (ord : VisitOrder Bytes32) (owner : PendingOutpointOwner)
    (context : PendingOutpointAdmissionContext) (txBytes : Bytes) (source : TxSource)
    (tx : CheckedTx) (reservation : Option Nat) : Except AdmitFailure TxPool := do
  atStage .feeFloor (validateFeeFloor tx.fee tx.weight pool.cfg.policyCurrentMempoolMinFeeRate)
  let entry : TxPoolEntry :=
    ⟨txBytes, tx.inputs, tx.fee, tx.weight, txBytes.length, source⟩
  let evicted ← atStage .capacity (pool.capacityEvictionPlan ord tx.txid entry)
  atStage .capacity (pool.preflightStandardDelta evicted)
  pool.commitStandardDelta owner context tx.txid entry reservation evicted

/-- From the duplicate check on.  Every failure after the reservation releases it. -/
def admitChecked (pool : TxPool) (ord : VisitOrder Bytes32) (owner : PendingOutpointOwner)
    (context : PendingOutpointAdmissionContext) (txBytes : Bytes) (source : TxSource)
    (tx : CheckedTx) : EStateM.Result AdmitFailure TxPool (Bytes32 × RelayTxMetadata) :=
  if pool.txs.lookup tx.txid ≠ none then
    .error ⟨.duplicate, Node.conflict "tx already in mempool"⟩ pool
  else
    match reserveInputs owner context tx.txid tx.inputs with
    | .error error => .error (reserveFailure error) pool
    | .ok (reservation, owner) =>
      match pool.admitReserved ord owner context txBytes source tx reservation with
      | .error failure =>
        .error failure { pool with owner := some (releaseReservation owner reservation) }
      | .ok pool => .ok (tx.txid, { fee := tx.fee, size := txBytes.length }) pool

/-- `add_tx_with_source`, with the failing check named. -/
def addTxStaged [Crypto] (ord : VisitOrder Bytes32) (txBytes : Bytes) (chainState : ChainState)
    (blockStore : Option BlockStore) (chainId : Bytes32) (source : TxSource) :
    EStateM AdmitFailure TxPool (Bytes32 × RelayTxMetadata) := fun pool =>
  let opened := pool.admissionContext chainState
  match opened.2 with
  | .error error => .error ⟨.ownerFence, error⟩ opened.1
  | .ok (owner, context) =>
    match checkTransaction txBytes chainState blockStore chainId pool.cfg with
    | .error failure => .error failure opened.1
    | .ok tx => opened.1.admitChecked ord owner context txBytes source tx

def addTxWithSource [Crypto] (ord : VisitOrder Bytes32) (txBytes : Bytes) (chainState : ChainState)
    (blockStore : Option BlockStore) (chainId : Bytes32) (source : TxSource) :
    EStateM TxPoolAdmitError TxPool (Bytes32 × RelayTxMetadata) := fun pool =>
  match addTxStaged ord txBytes chainState blockStore chainId source pool with
  | .ok r pool => .ok r pool
  | .error failure pool => .error failure.error pool

/-! ## 4. Removal -/

/-- The validation loop of `remove_entries_exact`. -/
def removalValid (pool : TxPool) (owner : PendingOutpointOwner) (live : List Bytes32) : Bool :=
  live.all fun txid =>
    match pool.txs.lookup txid with
    | none => false
    | some entry =>
      (owner.validateStandardEntry txid entry.inputs (pool.ownerTokens.lookup txid) true).isOk

/-- The residents among `txids`, each once, in the order of their first mention. -/
def liveTxids (pool : TxPool) (txids : List Bytes32) : List Bytes32 :=
  txids.foldl (fun live txid =>
    if pool.txs.lookup txid ≠ none ∧ txid ∉ live then live ++ [txid] else live) []

/-- `remove_entry_raw` for an entry that need not be there. -/
def removeIfPresent (pool : TxPool) (txid : Bytes32) : TxPool :=
  match pool.txs.lookup txid with
  | none => pool
  | some entry => pool.removeEntryRaw txid entry

def removeEntriesExact (pool : TxPool) (txids : List Bytes32) : TxPool :=
  let live := pool.liveTxids txids
  if live = [] then pool
  else
    match pool.owner with
    | none =>
      if live.all fun txid => (pool.txs.lookup txid).any fun entry => entry.inputs.isEmpty then
        live.foldl removeIfPresent pool
      else pool
    | some owner =>
      if pool.removalValid owner live then
        let s := live.foldl removeResident (pool, owner)
        { s.1 with owner := some s.2 }
      else pool

def evictTxids (pool : TxPool) (txids : List Bytes32) : TxPool := pool.removeEntriesExact txids

/-- The transactions that hold one of the outpoints, each once. -/
def conflictingTxids (owner : PendingOutpointOwner) (outpoints : List Outpoint) : List Bytes32 :=
  outpoints.foldl (fun conflicting outpoint =>
    match owner.txidForOutpoint outpoint with
    | some txid => if txid ∉ conflicting then conflicting ++ [txid] else conflicting
    | none => conflicting) []

def removeConflictingOutpoints (pool : TxPool) (outpoints : List Outpoint) : TxPool :=
  match pool.owner with
  | none => pool
  | some owner => pool.evictTxids (conflictingTxids owner outpoints)

end TxPool

end Rubin.Node
