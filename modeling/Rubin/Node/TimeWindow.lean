/-
# One median time for every component

Five functions build the window of previous timestamps: the engine for the next block and for any
height (`sync.rs`), startup recovery (`chainstate_recovery.rs`), the pool (`txpool.rs`), and the
reorganisation code, which slides a window along a branch that the canonical index does not have
yet (`sync_reorg.rs`).  The pool and the miner then compute the median themselves.

All of them return the predecessor window of the chain they are asked about, and the two medians
are the consensus one.
-/
import Rubin.Consensus.MedianTime
import Rubin.Node.BlockStore

namespace Rubin.Node

open Rubin.Lib Rubin.Consensus

/-! ## 1. The windows -/

/-- `for offset in 0..window_len` over the canonical index, from `next_height - 1` down. -/
def canonicalTimestamps (store : BlockStore) (nextHeight : Nat) (missing : Nat → String) :
    Except String (List UInt64) :=
  (List.range (min nextHeight 11)).mapM fun offset => do
    let height := nextHeight - 1 - offset
    let hash ← okOr (store.canonicalHash height) (missing height)
    let header ← store.readHeader hash
    .ok header.timestamp

def missingCanonicalHash (nextHeight height : Nat) : String :=
  "missing canonical hash at height " ++ Nat.repr height ++ " for timestamp context (next_height=" ++
    Nat.repr nextHeight ++ ")"

def prevTimestampsForHeight (blockStore : Option BlockStore) (nextHeight : Nat) :
    Except String (Option (List UInt64)) :=
  if nextHeight = 0 then .ok none
  else do
    let store ← okOr blockStore "sync engine missing blockstore for timestamp context"
    let out ← canonicalTimestamps store nextHeight (missingCanonicalHash nextHeight)
    .ok (some out)

def prevTimestampsForNextBlock (chainState : ChainState) (blockStore : Option BlockStore) :
    Except String (Option (List UInt64)) :=
  if !chainState.hasTip then .ok none
  else do
    rejectIf (chainState.height = u64Max) "height overflow"
    let store ← okOr blockStore "sync engine missing blockstore for timestamp context"
    let out ← canonicalTimestamps store (chainState.height + 1)
      (missingCanonicalHash (chainState.height + 1))
    .ok (some out)

/-- `prev_timestamps_from_store` of the recovery. -/
def prevTimestampsFromStore (store : BlockStore) (height : Nat) :
    Except String (Option (List UInt64)) :=
  if height = 0 then .ok none
  else do
    let out ← canonicalTimestamps store height (missingCanonicalHash height)
    .ok (some out)

/-- Prepends the new timestamp and keeps at most eleven. -/
def advancePrevTimestamps (prev : Option (List UInt64)) (newTs : UInt64) : List UInt64 :=
  newTs :: (prev.getD []).take (11 - 1)

/-- A block of a candidate branch, as the walk to the canonical chain collects it. -/
structure ReorgBranchBlock where
  hash : Bytes32
  headerBytes : Bytes
  blockBytes : Bytes
  prevHash : Bytes32
  target : Bytes32
  timestamp : UInt64
  txids : List Bytes32
deriving DecidableEq

/-- The window after the rows of a branch, one advance per row. -/
def slideAlong (start : Option (List UInt64)) (rows : List ReorgBranchBlock) :
    Option (List UInt64) :=
  rows.foldl (fun window row => some (advancePrevTimestamps window row.timestamp)) start

/-- The window of the last row of a branch that leaves the canonical chain at
`commonAncestorHeight`. -/
def sideBranchPrevTimestamps (blockStore : Option BlockStore) (branch : List ReorgBranchBlock)
    (commonAncestorHeight : Nat) : Except String (Option (List UInt64)) := do
  rejectIf (branch = []) "empty side branch"
  rejectIf (commonAncestorHeight = u64Max) "height overflow"
  let start ← prevTimestampsForHeight blockStore (commonAncestorHeight + 1)
  .ok (slideAlong start branch.dropLast)

/-! ## 2. The medians -/

/-- `window.sort_unstable()`, then the entry in the middle. -/
def sortedMiddle (timestamps : List UInt64) : UInt64 :=
  let window := timestamps.insertionSort (· ≤ ·)
  window.getD ((window.length - 1) / 2) 0

/-- `mtp_median`, of which the pool and the miner have a copy each. -/
def mtpMedianOf (nextHeight : Nat) (prevTimestamps : List UInt64) : UInt64 :=
  if prevTimestamps.length < min nextHeight 11 then
    if prevTimestamps = [] then 0 else sortedMiddle prevTimestamps
  else sortedMiddle (prevTimestamps.take (min nextHeight 11))

def TxPool.mtpMedian (nextHeight : Nat) (prevTimestamps : List UInt64) : UInt64 :=
  mtpMedianOf nextHeight prevTimestamps

def Miner.mtpMedian (nextHeight : Nat) (prevTimestamps : List UInt64) : UInt64 :=
  mtpMedianOf nextHeight prevTimestamps

/-- `next_block_mtp` of the pool; its errors are wrapped as `unavailable` by the caller. -/
def TxPool.nextBlockMtp (blockStore : Option BlockStore) (nextHeight : Nat) :
    Except String UInt64 :=
  match blockStore with
  | none => .ok 0
  | some store =>
    if nextHeight = 0 then .ok 0
    else do
      let out ← canonicalTimestamps store nextHeight fun _ =>
        "missing canonical header for timestamp context"
      .ok (TxPool.mtpMedian nextHeight out)

/-- The median time of a template, as `mine_one` computes it. -/
def Miner.blockMtp (prevTimestamps : Option (List UInt64)) (nextHeight : Nat) (timestamp : UInt64) :
    UInt64 :=
  match prevTimestamps with
  | none => timestamp
  | some timestamps =>
    if timestamps = [] then timestamp else Miner.mtpMedian nextHeight timestamps

/-! ## 3. Walking the canonical index -/

variable {timestamps : List UInt64} {height : Nat}

theorem predecessorWindow_eq_map (h : height ≤ timestamps.length) :
    predecessorWindow timestamps height =
      (List.range (min height 11)).map fun offset => timestamps.getD (height - 1 - offset) 0 := by
  refine List.ext_getElem (by simp [length_predecessorWindow h, mtpWindowSize]) fun i hi _ => ?_
  rw [length_predecessorWindow h, mtpWindowSize] at hi
  simp only [predecessorWindow, List.getElem_take, List.getElem_reverse, List.length_take,
    List.getElem_map, List.getElem_range, Nat.min_eq_left h]
  rw [List.getD_eq_getElem _ _ (by omega)]

section chain

variable {store : BlockStore} {chain : List BlockHeader}

/-- **The walk finds the predecessors**, whatever text it has for a missing hash. -/
theorem canonicalTimestamps_ok (hchain : store.HoldsChain chain) {nextHeight : Nat}
    (hle : nextHeight ≤ chain.length) (missing : Nat → String) :
    canonicalTimestamps store nextHeight missing =
      .ok (predecessorWindow (chain.map BlockHeader.timestamp) nextHeight) := by
  rw [predecessorWindow_eq_map (by rwa [List.length_map])]
  refine mapM_eq_ok fun offset hoffset => ?_
  rw [List.mem_range] at hoffset
  have hlt : nextHeight - 1 - offset < chain.length := by omega
  obtain ⟨hash, hhash, hheader⟩ := hchain.at_height (List.getElem?_eq_getElem hlt)
  simp only [hhash, okOr, ok_bind, hheader.readHeader]
  rw [List.getD_eq_getElem _ _ (by rwa [List.length_map]), List.getElem_map]

theorem canonicalTimestamps_above (hchain : store.HoldsChain chain) {nextHeight : Nat}
    (hlt : chain.length < nextHeight) (missing : Nat → String) :
    canonicalTimestamps store nextHeight missing = .error (missing (nextHeight - 1)) := by
  obtain ⟨n, hn⟩ : ∃ n, min nextHeight 11 = n + 1 := ⟨min nextHeight 11 - 1, by omega⟩
  have hnone : store.canonicalHash (nextHeight - 1) = none := by
    rw [BlockStore.canonicalHash, List.getElem?_eq_none_iff, hchain.length_eq]
    omega
  rw [canonicalTimestamps, hn, List.range_succ_eq_map, List.mapM_cons]
  simp only [Nat.sub_zero, hnone, okOr, error_bind]

/-- The window of a height, as the functions below return it: genesis has none. -/
def windowAt (chain : List BlockHeader) (height : Nat) : Option (List UInt64) :=
  if height = 0 then none
  else some (predecessorWindow (chain.map BlockHeader.timestamp) height)

theorem prevTimestampsForHeight_ok (hchain : store.HoldsChain chain) (hle : height ≤ chain.length) :
    prevTimestampsForHeight (some store) height = .ok (windowAt chain height) := by
  unfold prevTimestampsForHeight windowAt
  by_cases h0 : height = 0
  · rw [if_pos h0, if_pos h0]
  · rw [if_neg h0, if_neg h0, okOr, ok_bind, canonicalTimestamps_ok hchain hle, ok_bind]

theorem prevTimestampsForHeight_eq_ok (hchain : store.HoldsChain chain)
    {window : Option (List UInt64)} : prevTimestampsForHeight (some store) height = .ok window ↔
      height ≤ chain.length ∧ window = windowAt chain height := by
  rcases Nat.lt_or_ge chain.length height with hlt | hle
  · rw [prevTimestampsForHeight, if_neg (by omega), okOr, ok_bind,
      canonicalTimestamps_above hchain hlt, error_bind]
    constructor
    · intro h
      cases h
    · rintro ⟨h, -⟩
      omega
  · rw [prevTimestampsForHeight_ok hchain hle, Except.ok.injEq, eq_comm]
    exact (and_iff_right hle).symm

/-- The chain state stands at the last block of the chain. -/
def AtTip (state : ChainState) (chain : List BlockHeader) : Prop :=
  if state.hasTip then chain.length = state.height + 1 else chain = []

theorem prevTimestampsForNextBlock_ok {state : ChainState} (hchain : store.HoldsChain chain)
    (htip : AtTip state chain) (hlen : chain.length < 2 ^ 64) :
    prevTimestampsForNextBlock state (some store) = .ok (windowAt chain chain.length) := by
  unfold prevTimestampsForNextBlock AtTip at *
  cases hhas : state.hasTip with
  | false =>
    rw [hhas, if_neg Bool.false_ne_true] at htip
    rw [htip]
    rfl
  | true =>
    rw [hhas, if_pos rfl] at htip
    have hover : ¬ state.height = u64Max := by
      rw [u64Max]
      omega
    simp only [Bool.not_true, Bool.false_eq_true, if_false, rejectIf_neg hover, ok_bind, okOr,
      ← htip, canonicalTimestamps_ok hchain (Nat.le_refl _)]
    rw [windowAt, if_neg (by omega)]

/-! ## 4. Sliding along a branch -/

theorem advancePrevTimestamps_predecessorWindow {timestamp : UInt64}
    (h : timestamps[height]? = some timestamp) :
    advancePrevTimestamps (some (predecessorWindow timestamps height)) timestamp =
      predecessorWindow timestamps (height + 1) := by
  rw [predecessorWindow_succ h, advancePrevTimestamps, Option.getD_some, mtpWindowSize,
    List.take_succ_cons]

/-- **Sliding follows the branch.**  From the window of the fork point, the window after any rows
is the predecessor window of the chain that has those rows on top. -/
theorem slideAlong_predecessorWindow (rows : List ReorgBranchBlock) :
    slideAlong (some (predecessorWindow timestamps timestamps.length)) rows =
      some (predecessorWindow (timestamps ++ rows.map ReorgBranchBlock.timestamp)
        (timestamps.length + rows.length)) := by
  induction rows generalizing timestamps with
  | nil => simp [slideAlong]
  | cons row rows ih =>
    have hlast : (timestamps ++ [row.timestamp])[timestamps.length]? = some row.timestamp := by
      simp
    have hstep : advancePrevTimestamps (some (predecessorWindow timestamps timestamps.length))
        row.timestamp = predecessorWindow (timestamps ++ [row.timestamp])
          (timestamps ++ [row.timestamp]).length := by
      rw [List.length_append, List.length_singleton, ← advancePrevTimestamps_predecessorWindow hlast,
        predecessorWindow_append (Nat.le_refl _)]
    have hslide : slideAlong (some (predecessorWindow timestamps timestamps.length)) (row :: rows) =
        slideAlong (some (advancePrevTimestamps
          (some (predecessorWindow timestamps timestamps.length)) row.timestamp)) rows := rfl
    rw [hslide, hstep, ih, List.map_cons, List.append_assoc, List.singleton_append]
    congr 2
    simp only [List.length_append, List.length_cons, List.length_nil]
    omega

/-- The timestamps of the chain up to `ancestor`, with the rows of a branch on top. -/
def branchTimestamps (chain : List BlockHeader) (ancestor : Nat) (branch : List ReorgBranchBlock) :
    List UInt64 :=
  (chain.map BlockHeader.timestamp).take (ancestor + 1) ++ branch.map ReorgBranchBlock.timestamp

theorem slideAlong_branch {ancestor : Nat} (hlt : ancestor < chain.length)
    (branch : List ReorgBranchBlock) (k : Nat) (hk : k ≤ branch.length) :
    slideAlong (windowAt chain (ancestor + 1)) (branch.take k) =
      some (predecessorWindow (branchTimestamps chain ancestor branch) (ancestor + 1 + k)) := by
  have hlen : ((chain.map BlockHeader.timestamp).take (ancestor + 1)).length = ancestor + 1 := by
    rw [List.length_take, List.length_map]
    omega
  have hslide := @slideAlong_predecessorWindow
    ((chain.map BlockHeader.timestamp).take (ancestor + 1)) (branch.take k)
  rw [hlen, predecessorWindow_take (Nat.le_refl _), List.length_take, Nat.min_eq_left hk] at hslide
  rw [windowAt, if_neg (Nat.succ_ne_zero _), hslide, branchTimestamps]
  -- the rows above `k` are above the height that is asked for
  have hsplit : branch.map ReorgBranchBlock.timestamp =
      (branch.take k).map ReorgBranchBlock.timestamp ++
        (branch.drop k).map ReorgBranchBlock.timestamp := by
    rw [← List.map_append, List.take_append_drop]
  have htop : ancestor + 1 + k ≤ ((chain.map BlockHeader.timestamp).take (ancestor + 1) ++
      (branch.take k).map ReorgBranchBlock.timestamp).length := by
    rw [List.length_append, hlen, List.length_map, List.length_take, Nat.min_eq_left hk]
  rw [hsplit, ← List.append_assoc, predecessorWindow_append htop]

theorem sideBranchPrevTimestamps_ok (hchain : store.HoldsChain chain) {ancestor : Nat}
    (hlt : ancestor < chain.length) (hlen : chain.length < 2 ^ 64)
    {branch : List ReorgBranchBlock} (hne : branch ≠ []) :
    sideBranchPrevTimestamps (some store) branch ancestor =
      .ok (some (predecessorWindow (branchTimestamps chain ancestor branch)
        (ancestor + branch.length))) := by
  have hpos := List.length_pos_iff.mpr hne
  have hover : ¬ ancestor = u64Max := by
    rw [u64Max]
    omega
  have hheight : ancestor + 1 + (branch.length - 1) = ancestor + branch.length := by omega
  rw [sideBranchPrevTimestamps, rejectIf_neg hne, ok_bind, rejectIf_neg hover, ok_bind,
    prevTimestampsForHeight_ok hchain hlt, ok_bind, List.dropLast_eq_take,
    slideAlong_branch hlt branch _ (Nat.sub_le _ _), hheight]

/-! ## 5. The medians -/

theorem mtpMedianOf_eq {window : List UInt64} (hlen : window.length = min height mtpWindowSize) :
    mtpMedianOf height window = windowMedian window := by
  have hshort : ¬ window.length < min height 11 := by
    rw [hlen]
    exact Nat.lt_irrefl _
  have htake : window.take (min height 11) = window := List.take_of_length_le (Nat.le_of_eq hlen)
  rw [mtpMedianOf, if_neg hshort, htake, windowMedian, lowerMedian]
  simp only [sortedMiddle, List.length_insertionSort]

theorem nextBlockMtp_ok (hchain : store.HoldsChain chain) (hpos : 0 < height)
    (hle : height ≤ chain.length) : TxPool.nextBlockMtp (some store) height =
      .ok (windowMedian (predecessorWindow (chain.map BlockHeader.timestamp) height)) := by
  have hlen : (predecessorWindow (chain.map BlockHeader.timestamp) height).length =
      min height mtpWindowSize := length_predecessorWindow (by rwa [List.length_map])
  simp only [TxPool.nextBlockMtp, if_neg (Nat.pos_iff_ne_zero.mp hpos),
    canonicalTimestamps_ok hchain hle, ok_bind, TxPool.mtpMedian, mtpMedianOf_eq hlen]

end chain

/-! ## 6. Every component uses the same median -/

/-- The median time past of a chain of headers: it never goes back, and every timestamp is above
the median before it. -/
structure MedianNeverGoesBack (chain : List BlockHeader) : Prop where
  mono : ∀ i j, 0 < i → i ≤ j → j ≤ chain.length → ∃ m m',
    medianTimePast i (some (predecessorWindow (chain.map BlockHeader.timestamp) i)) = .ok (some m) ∧
    medianTimePast j (some (predecessorWindow (chain.map BlockHeader.timestamp) j)) = .ok (some m') ∧
    m ≤ m'
  below : ∀ height header, 0 < height → chain[height]? = some header → ∃ m,
    medianTimePast height (some (predecessorWindow (chain.map BlockHeader.timestamp) height)) =
      .ok (some m) ∧ m < header.timestamp

/-- The windows every component builds for a canonical chain, and the medians taken of them. -/
structure SharedMedian (store : BlockStore) (chain : List BlockHeader) : Prop where
  nextBlock : ∀ state, AtTip state chain →
    prevTimestampsForNextBlock state (some store) = .ok (windowAt chain chain.length)
  forHeight : ∀ height window, prevTimestampsForHeight (some store) height = .ok window ↔
    height ≤ chain.length ∧ window = windowAt chain height
  recovery : ∀ height window, prevTimestampsFromStore store height = .ok window ↔
    height ≤ chain.length ∧ window = windowAt chain height
  sliding : ∀ ancestor branch k, ancestor < chain.length → k ≤ branch.length → ∃ start,
    prevTimestampsForHeight (some store) (ancestor + 1) = .ok start ∧
    slideAlong start (branch.take k) =
      some (predecessorWindow (branchTimestamps chain ancestor branch) (ancestor + 1 + k))
  sideBranch : ∀ ancestor branch, ancestor < chain.length → branch ≠ [] →
    sideBranchPrevTimestamps (some store) branch ancestor =
      .ok (some (predecessorWindow (branchTimestamps chain ancestor branch)
        (ancestor + branch.length)))
  medians : ∀ timestamps height, 0 < height → height ≤ timestamps.length → ∃ m,
    medianTimePast height (some (predecessorWindow timestamps height)) = .ok (some m) ∧
    TxPool.mtpMedian height (predecessorWindow timestamps height) = m ∧
    Miner.mtpMedian height (predecessorWindow timestamps height) = m ∧
    ∀ timestamp, Miner.blockMtp (some (predecessorWindow timestamps height)) height timestamp = m
  pool : ∀ height, 0 < height → height ≤ chain.length → ∃ m,
    medianTimePast height (windowAt chain height) = .ok (some m) ∧
    TxPool.nextBlockMtp (some store) height = .ok m

theorem medianNeverGoesBack {chain : List BlockHeader}
    (h : TimestampsChecked (chain.map BlockHeader.timestamp)) : MedianNeverGoesBack chain := by
  constructor
  · intro i j hpos hij hj
    have hj' : j ≤ (chain.map BlockHeader.timestamp).length := by rwa [List.length_map]
    exact ⟨_, _, medianTimePast_predecessorWindow hpos (by omega),
      medianTimePast_predecessorWindow (by omega) hj', windowMedian_mono h hpos hij hj'⟩
  · intro height header hpos hheader
    have hts : (chain.map BlockHeader.timestamp)[height]? = some header.timestamp := by
      rw [List.getElem?_map, hheader, Option.map_some]
    have hlt := (List.getElem?_eq_some_iff.mp hts).1
    exact ⟨_, medianTimePast_predecessorWindow hpos hlt.le, windowMedian_lt h hpos hts⟩

theorem medians_agree (hpos : 0 < height) (hle : height ≤ timestamps.length) : ∃ m,
      medianTimePast height (some (predecessorWindow timestamps height)) = .ok (some m) ∧
      TxPool.mtpMedian height (predecessorWindow timestamps height) = m ∧
      Miner.mtpMedian height (predecessorWindow timestamps height) = m ∧
      ∀ timestamp,
        Miner.blockMtp (some (predecessorWindow timestamps height)) height timestamp = m := by
  have hmtp := mtpMedianOf_eq (length_predecessorWindow hle)
  refine ⟨_, medianTimePast_predecessorWindow hpos hle, hmtp, hmtp, fun timestamp => ?_⟩
  rw [Miner.blockMtp]
  simp only [if_neg (predecessorWindow_ne_nil hpos hle)]
  exact hmtp

/-- **One median time.**  Along checked headers the median time past never goes back; and for the
canonical chain of a store, whichever component builds a window, and along whichever branch, it is
the predecessor window, and whichever component takes its median, it is the consensus one. -/
theorem median_time_is_shared {headers : List BlockHeader}
    (hchecked : TimestampsChecked (headers.map BlockHeader.timestamp)) {store : BlockStore}
    {chain : List BlockHeader} (hstore : store.HoldsChain chain) (hlen : chain.length < 2 ^ 64) :
    MedianNeverGoesBack headers ∧ SharedMedian store chain := by
  refine ⟨medianNeverGoesBack hchecked, ?_⟩
  constructor
  · intro state htip
    exact prevTimestampsForNextBlock_ok hstore htip hlen
  · intro height window
    exact prevTimestampsForHeight_eq_ok hstore
  · intro height window
    exact prevTimestampsForHeight_eq_ok hstore
  · intro ancestor branch k hlt hk
    exact ⟨_, prevTimestampsForHeight_ok hstore hlt, slideAlong_branch hlt branch k hk⟩
  · intro ancestor branch hlt hne
    exact sideBranchPrevTimestamps_ok hstore hlt hlen hne
  · intro timestamps height hpos hle
    exact medians_agree hpos hle
  · intro height hpos hle
    refine ⟨_, ?_, nextBlockMtp_ok hstore hpos hle⟩
    rw [windowAt, if_neg (Nat.pos_iff_ne_zero.mp hpos)]
    exact medianTimePast_predecessorWindow hpos (by rwa [List.length_map])

/-- Three headers, the second with the latest timestamp. -/
def timedHeaders : List BlockHeader :=
  [sampleHeader zero32 100, sampleHeader zero32 300, sampleHeader zero32 200]

def timedHash (i : UInt8) : Bytes32 := BytesN.replicate 32 i

def timedStore : BlockStore :=
  sampleStore [(timedHash 1, sampleHeaderBytes zero32 100), (timedHash 2, sampleHeaderBytes zero32 300),
    (timedHash 3, sampleHeaderBytes zero32 200)]

theorem median_time_is_shared_sample :
    MedianNeverGoesBack timedHeaders ∧ SharedMedian timedStore timedHeaders := by
  refine median_time_is_shared ?_ ⟨rfl, ?_⟩ (by decide)
  · intro height timestamp h
    match height, h with
    | 0, h =>
      cases h
      decide
    | 1, h =>
      cases h
      decide
    | 2, h =>
      cases h
      decide
  · refine .cons ⟨_, rfl, ?_⟩ (.cons ⟨_, rfl, ?_⟩ (.cons ⟨_, rfl, ?_⟩ .nil))
    · decide
    · decide
    · decide

end Rubin.Node
