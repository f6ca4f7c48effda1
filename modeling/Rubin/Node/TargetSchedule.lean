/-
# The target schedule of a chain

`target_schedule.rs`: the target a candidate has to carry is the target of its parent, except at a
multiple of `WINDOW_SIZE`, where it is retargeted from the timestamps of the last window.  The
window is collected by walking parents backwards through the header files, each checked against the
hash it is looked up by.

From a block of a chain that the store holds, the walk visits the blocks of that chain and nothing
else (`targetWalk_along`).  So the derived target is decided by the ancestry of the parent, and the
properties of one retarget carry over to the whole chain.
-/
import Rubin.Consensus.Retarget
import Rubin.Node.BlockStore

namespace Rubin.Node

open Rubin.Lib Rubin.Consensus

/-! ## 1. The source -/

inductive TargetScheduleError where
  | parentUnknown
  | historyMissing
  | historyCorrupt
  | heightInvalid
  | retarget (msg : String)
  | localIo (msg : String)
deriving DecidableEq, Repr

inductive TargetHeaderRead where
  | bytes (raw : Bytes)
  | notFound
  | localIo (error : String)
deriving DecidableEq, Repr

def parseHeader (raw : Bytes) : Except TargetScheduleError BlockHeader :=
  (parseBlockHeaderBytes raw).mapError fun _ => .historyCorrupt

/-- `visited`, `current`, `target_old` and `timestamps` of the loop; the timestamps are written from
the back, so the oldest one comes first. -/
structure TargetWalk where
  visited : Finset Bytes32
  current : Bytes32
  targetOld : Bytes32
  timestamps : List UInt64

def targetHeaderBytes (index : Nat) : TargetHeaderRead → Except TargetScheduleError Bytes
  | .bytes raw => .ok raw
  | .notFound => .error (if index = 0 then .parentUnknown else .historyMissing)
  | .localIo error => .error (.localIo error)

section schedule

variable [Crypto]

def verifyHeaderHash (raw : Bytes) (lookup : Bytes32) : Except TargetScheduleError Unit := do
  let actual ← (blockHash raw).mapError fun _ => TargetScheduleError.historyCorrupt
  rejectIf (actual ≠ lookup) .historyCorrupt

/-- One turn of the loop. -/
def targetWalkStep (read : Bytes32 → TargetHeaderRead) (boundary : Bool) (window : Nat)
    (walk : TargetWalk) (index : Nat) : Except TargetScheduleError TargetWalk := do
  rejectIf (walk.current ∈ walk.visited) .historyCorrupt
  let raw ← targetHeaderBytes index (read walk.current)
  let header ← parseHeader raw
  rejectIf (header.prevBlockHash ∈ insert walk.current walk.visited) .historyCorrupt
  verifyHeaderHash raw walk.current
  rejectIf (boundary = true ∧ index + 1 < window ∧ header.prevBlockHash = zero32) .historyMissing
  .ok { visited := insert walk.current walk.visited
        current := header.prevBlockHash
        targetOld := if index = 0 then header.target else walk.targetOld
        timestamps := header.timestamp :: walk.timestamps }

def startWalk (parentHash : Bytes32) : TargetWalk :=
  { visited := ∅, current := parentHash, targetOld := zero32, timestamps := [] }

def expectedTargetForCandidateWithReader (read : Bytes32 → TargetHeaderRead) (parentHash : Bytes32)
    (candidateHeight : Nat) : Except TargetScheduleError Bytes32 := do
  rejectIf (candidateHeight = 0) .heightInvalid
  let boundary := decide (windowSize ∣ candidateHeight)
  let window := if boundary then windowSize else 1
  let walk ← (List.range window).foldlM (targetWalkStep read boundary window) (startWalk parentHash)
  if !boundary then .ok walk.targetOld
  else (retargetV1Clamped walk.targetOld walk.timestamps).mapError fun e => .retarget e.toString

omit [Crypto] in
def BlockStore.readTargetHeader (store : BlockStore) (lookup : Bytes32) : TargetHeaderRead :=
  if !store.hasBlock lookup then .notFound
  else
    match store.getHeaderByHash lookup with
    | .ok raw => .bytes raw
    | .error error => .localIo error

def expectedTargetForCandidate (store : BlockStore) (parentHash : Bytes32) (candidateHeight : Nat) :
    Except TargetScheduleError Bytes32 :=
  expectedTargetForCandidateWithReader store.readTargetHeader parentHash candidateHeight

/-! ## 2. A chain in the store -/

/-- The header file of `row.1` is `row.2`, and hashes to its name. -/
def BlockStore.HoldsRow (store : BlockStore) (row : Bytes32 × BlockHeader) : Prop :=
  ∃ raw, store.headers.lookup row.1 = some raw ∧ parseBlockHeaderBytes raw = .ok row.2 ∧
    sha3_256 raw = row.1

/-- Hashes and headers from genesis on, each linked to the one before. -/
structure BlockStore.HoldsPath (store : BlockStore) (chain : List (Bytes32 × BlockHeader)) :
    Prop where
  rows : ∀ row ∈ chain, store.HoldsRow row
  genesis : ∀ row ∈ chain.head?, row.2.prevBlockHash = zero32
  linked : ∀ {i a b}, chain[i]? = some a → chain[i + 1]? = some b → b.2.prevBlockHash = a.1

/-- The genesis target is in range, and every later header carries the derived target. -/
structure FollowsSchedule (store : BlockStore) (chain : List (Bytes32 × BlockHeader)) : Prop where
  genesis : ∀ row ∈ chain.head?,
    1 ≤ beToNat row.2.target ∧ beToNat row.2.target ≤ beToNat powLimit
  derived : ∀ {i a b}, chain[i]? = some a → chain[i + 1]? = some b →
    expectedTargetForCandidate store a.1 (i + 1) = .ok b.2.target

variable {row : Bytes32 × BlockHeader} {i : Nat}

theorem BlockStore.HoldsRow.read {store : BlockStore} (h : store.HoldsRow row) :
    ∃ raw, store.readTargetHeader row.1 = .bytes raw ∧
      parseHeader raw = .ok row.2 ∧ verifyHeaderHash raw row.1 = .ok () := by
  obtain ⟨raw, hraw, hparse, hhash⟩ := h
  obtain ⟨raw', hraw', hget, -⟩ := HoldsHeader.getHeaderByHash ⟨raw, hraw, hparse⟩
  cases Option.some.inj (hraw.symm.trans hraw')
  have hblock : blockHash raw = .ok row.1 := by
    rw [blockHash, rejectIf_neg (not_not.mpr (length_of_parseBlockHeaderBytes hparse)), ok_bind,
      hhash]
  refine ⟨raw, ?_, ?_, ?_⟩
  · rw [readTargetHeader, hasBlock, hraw]
    simp only [Option.isSome_some, Bool.not_true, Bool.false_eq_true, if_false, hget]
  · rw [parseHeader, hparse]
    rfl
  · rw [verifyHeaderHash, hblock]
    exact rejectIf_neg (not_not.mpr rfl)

/-! ## 3. The walk stays on the chain -/

def chainTimestamps (chain : List (Bytes32 × BlockHeader)) : List UInt64 :=
  chain.map fun row => row.2.timestamp

/-- The walk after `m` turns from the block at height `i`. -/
structure WalkAt (chain : List (Bytes32 × BlockHeader)) (i m : Nat) (walk : TargetWalk) : Prop where
  current : ∀ j row, i = j + m → chain[j]? = some row → walk.current = row.1
  targetOld : 0 < m → ∀ row, chain[i]? = some row → walk.targetOld = row.2.target
  timestamps : walk.timestamps = ((chainTimestamps chain).take (i + 1)).drop (i + 1 - m)

omit [Crypto] in
theorem WalkAt.start {chain : List (Bytes32 × BlockHeader)} (hrow : chain[i]? = some row) :
    WalkAt chain i 0 (startWalk row.1) where
  current := by
    rintro j row' rfl hrow'
    exact congrArg Prod.fst (Option.some.inj (hrow.symm.trans hrow'))
  targetOld := fun h => absurd h (Nat.lt_irrefl 0)
  timestamps := by
    rw [startWalk, Nat.sub_zero, List.drop_of_length_le (List.length_take_le _ _)]

section walk

variable {store : BlockStore} {chain : List (Bytes32 × BlockHeader)}

theorem targetWalkStep_eq (hchain : store.HoldsPath chain) {boundary : Bool} {window : Nat}
    {walk : TargetWalk} {index j : Nat} (hrow : chain[j]? = some row) (hcur : walk.current = row.1)
    :
    targetWalkStep store.readTargetHeader boundary window walk index = (do
      rejectIf (row.1 ∈ walk.visited) TargetScheduleError.historyCorrupt
      rejectIf (row.2.prevBlockHash ∈ insert row.1 walk.visited) .historyCorrupt
      rejectIf (boundary = true ∧ index + 1 < window ∧ row.2.prevBlockHash = zero32) .historyMissing
      .ok { visited := insert row.1 walk.visited
            current := row.2.prevBlockHash
            targetOld := if index = 0 then row.2.target else walk.targetOld
            timestamps := row.2.timestamp :: walk.timestamps }) := by
  obtain ⟨raw, hread, hparse, hverify⟩ :=
    (hchain.rows row (List.mem_of_getElem? hrow)).read
  rw [targetWalkStep, hcur, hread, targetHeaderBytes]
  simp only [ok_bind, hparse, hverify]

theorem WalkAt.step (hchain : store.HoldsPath chain) {boundary : Bool} {window m j : Nat}
    {walk walk' : TargetWalk} (hij : i = j + m) (hrow : chain[j]? = some row)
    (hwalk : WalkAt chain i m walk)
    (h : targetWalkStep store.readTargetHeader boundary window walk m = .ok walk') :
    WalkAt chain i (m + 1) walk' := by
  rw [targetWalkStep_eq hchain hrow (hwalk.current j row hij hrow)] at h
  simp only [bind_eq_ok, exists_unit, Except.ok.injEq] at h
  obtain ⟨-, -, -, rfl⟩ := h
  constructor
  · rintro k prev hik hprev
    have hjk : j = k + 1 := by omega
    subst hjk
    exact hchain.linked hprev hrow
  · intro _ top htop
    by_cases hm : m = 0
    · have htop' : row = top := Option.some.inj (hrow.symm.trans (by rwa [hij, hm] at htop))
      rw [if_pos hm, htop']
    · rw [if_neg hm]
      exact hwalk.targetOld (Nat.pos_of_ne_zero hm) top htop
  · obtain ⟨hlt, hval⟩ := List.getElem?_eq_some_iff.mp hrow
    have hj : i + 1 - m = j + 1 := by omega
    have hj' : i + 1 - (m + 1) = j := by omega
    have hlen : j < ((chainTimestamps chain).take (i + 1)).length := by
      rw [List.length_take, chainTimestamps, List.length_map]
      omega
    rw [hj', List.drop_eq_getElem_cons hlen, hwalk.timestamps, hj]
    simp [chainTimestamps, hval]

variable {store' : BlockStore}

/-- **The walk stays on the chain.**  As long as it does not leave genesis behind it meets the
blocks below its start, in this store and in every store with the same files for them. -/
theorem targetWalk_along (hchain : store.HoldsPath chain) (hrow : chain[i]? = some row)
    (hsame : ∀ j r, j ≤ i → chain[j]? = some r →
      store'.readTargetHeader r.1 = store.readTargetHeader r.1) (boundary : Bool) (window : Nat) :
    ∀ m, m ≤ i + 1 →
      (List.range m).foldlM (targetWalkStep store'.readTargetHeader boundary window)
          (startWalk row.1) =
        (List.range m).foldlM (targetWalkStep store.readTargetHeader boundary window)
          (startWalk row.1) ∧
      ∀ walk, (List.range m).foldlM (targetWalkStep store.readTargetHeader boundary window)
          (startWalk row.1) = .ok walk → WalkAt chain i m walk := by
  intro m
  induction m with
  | zero =>
    intro _
    refine ⟨rfl, fun walk h => ?_⟩
    cases h
    exact WalkAt.start hrow
  | succ m ih =>
    intro hm
    obtain ⟨heq, hat⟩ := ih (by omega)
    obtain ⟨j, hij⟩ : ∃ j, i = j + m := ⟨i - m, by omega⟩
    have hj : j < chain.length := by
      have := (List.getElem?_eq_some_iff.mp hrow).1
      omega
    have hrowj := List.getElem?_eq_getElem hj
    simp only [List.range_succ, List.foldlM_append, List.foldlM_cons, List.foldlM_nil, heq]
    constructor
    · cases hw : (List.range m).foldlM (targetWalkStep store.readTargetHeader boundary window)
          (startWalk row.1) with
      | error e => rfl
      | ok walk =>
        have hcur := (hat walk hw).current j _ hij hrowj
        rw [ok_bind, ok_bind, targetWalkStep, targetWalkStep, hcur,
          hsame j _ (by omega) hrowj]
    · intro walk' h
      simp only [bind_eq_ok, pure_eq_ok_iff] at h
      obtain ⟨walk, hwalk, walk₁, hstep, rfl⟩ := h
      exact (hat walk hwalk).step hchain hij hrowj hstep

/-! ## 4. The derived target -/

/-- The timestamps of the window that ends at height `i`. -/
def retargetWindow (chain : List (Bytes32 × BlockHeader)) (i : Nat) : List UInt64 :=
  ((chainTimestamps chain).take (i + 1)).drop (i + 1 - windowSize)

omit [Crypto] in
theorem window_le (i : Nat) :
    (if decide (windowSize ∣ i + 1) = true then windowSize else 1) ≤ i + 1 := by
  by_cases h : windowSize ∣ i + 1
  · rw [if_pos (decide_eq_true h)]
    exact Nat.le_of_dvd (Nat.succ_pos i) h
  · rw [if_neg (by simpa using h)]
    exact Nat.succ_pos i

theorem expectedTargetForCandidate_congr (hchain : store.HoldsPath chain)
    (hrow : chain[i]? = some row) (hsame : ∀ j r, j ≤ i → chain[j]? = some r →
      store'.readTargetHeader r.1 = store.readTargetHeader r.1) :
    expectedTargetForCandidate store' row.1 (i + 1) =
      expectedTargetForCandidate store row.1 (i + 1) := by
  have hwalk := (targetWalk_along hchain hrow hsame (decide (windowSize ∣ i + 1))
    (if decide (windowSize ∣ i + 1) = true then windowSize else 1) _ (window_le i)).1
  simp only [expectedTargetForCandidate, expectedTargetForCandidateWithReader]
  rw [hwalk]

theorem expectedTargetForCandidate_inside (hchain : store.HoldsPath chain) {target : Bytes32}
    (hrow : chain[i]? = some row) (hinside : ¬ windowSize ∣ i + 1)
    (h : expectedTargetForCandidate store row.1 (i + 1) = .ok target) : target = row.2.target := by
  have hdec : decide (windowSize ∣ i + 1) = false := decide_eq_false hinside
  simp only [expectedTargetForCandidate, expectedTargetForCandidateWithReader, hdec, bind_eq_ok,
    exists_unit, Bool.false_eq_true, if_false, Bool.not_false, if_true, Except.ok.injEq] at h
  obtain ⟨-, walk, hwalk, rfl⟩ := h
  have hat := (targetWalk_along hchain hrow (fun _ _ _ _ => rfl) false 1 1
    (Nat.succ_le_succ (Nat.zero_le i))).2 walk hwalk
  exact hat.targetOld Nat.one_pos row hrow

theorem expectedTargetForCandidate_boundary (hchain : store.HoldsPath chain) {target : Bytes32}
    (hrow : chain[i]? = some row) (hboundary : windowSize ∣ i + 1)
    (h : expectedTargetForCandidate store row.1 (i + 1) = .ok target) :
    retargetV1Clamped row.2.target (retargetWindow chain i) = .ok target := by
  have hdec : decide (windowSize ∣ i + 1) = true := decide_eq_true hboundary
  simp only [expectedTargetForCandidate, expectedTargetForCandidateWithReader, hdec, bind_eq_ok,
    exists_unit, if_true, Bool.not_true, Bool.false_eq_true, if_false, mapError_eq_ok] at h
  obtain ⟨-, walk, hwalk, htarget⟩ := h
  have hat := (targetWalk_along hchain hrow (fun _ _ _ _ => rfl) true windowSize windowSize
    (Nat.le_of_dvd (Nat.succ_pos i) hboundary)).2 walk hwalk
  rwa [hat.targetOld (by decide) row hrow, hat.timestamps] at htarget

/-! ## 5. Along the chain -/

theorem target_step (hchain : store.HoldsPath chain) (hfollows : FollowsSchedule store chain)
    {a b : Bytes32 × BlockHeader} (ha : chain[i]? = some a) (hb : chain[i + 1]? = some b) :
    b.2.target = a.2.target ∨ windowSize ∣ i + 1 ∧ ∃ span,
      beToNat b.2.target = scaledTarget (beToNat a.2.target) span := by
  have hderived := hfollows.derived ha hb
  by_cases hboundary : windowSize ∣ i + 1
  · obtain ⟨span, -, -, -, htarget⟩ :=
      retargetV1Clamped_ok (expectedTargetForCandidate_boundary hchain ha hboundary hderived)
    exact .inr ⟨hboundary, span, retargetV1WithActual_ok htarget⟩
  · exact .inl (expectedTargetForCandidate_inside hchain ha hboundary hderived)

theorem target_inRange (hchain : store.HoldsPath chain) (hfollows : FollowsSchedule store chain) :
    ∀ (i : Nat) (row : Bytes32 × BlockHeader), chain[i]? = some row →
      1 ≤ beToNat row.2.target ∧ beToNat row.2.target ≤ beToNat powLimit := by
  intro i
  induction i with
  | zero =>
    intro row hrow
    exact hfollows.genesis row (by rwa [List.head?_eq_getElem?])
  | succ i ih =>
    intro row hrow
    have hlt := (List.getElem?_eq_some_iff.mp hrow).1
    have hprev := List.getElem?_eq_getElem (show i < chain.length by omega)
    obtain ⟨hpos, hle⟩ := ih _ hprev
    rcases target_step hchain hfollows hprev hrow with heq | ⟨-, span, hspan⟩
    · rw [heq]
      exact ⟨hpos, hle⟩
    · obtain ⟨-, -, hpos', hle'⟩ := scaledTarget_bounds hpos hle span
      rw [hspan]
      exact ⟨hpos', hle'⟩

/-- A header file that is added under the hash of its bytes. -/
def BlockStore.addHeader (store : BlockStore) (raw : Bytes) : BlockStore :=
  { store with headers := store.headers.insert (sha3_256 raw) raw }

/-- What the hash has to tell apart: the header strings of the store and those added. -/
def BlockStore.HeaderStrings (store : BlockStore) (added : List Bytes) : Set Bytes :=
  {raw | (∃ hash, store.headers.lookup hash = some raw) ∨ raw ∈ added}

/-- A file that hashes to its name is the same after others have been added. -/
theorem lookup_addHeaders {added : List Bytes} {raw : Bytes} (hhash : sha3_256 raw = row.1) :
    ∀ {store : BlockStore}, store.headers.lookup row.1 = some raw →
      (∀ other ∈ added, sha3_256 other = sha3_256 raw → other = raw) →
      (added.foldl BlockStore.addHeader store).headers.lookup row.1 = some raw := by
  induction added with
  | nil => exact fun h _ => h
  | cons other added ih =>
    intro store h hinj
    rw [List.forall_mem_cons] at hinj
    refine ih ?_ hinj.2
    rw [BlockStore.addHeader, lookup_insert_eq]
    by_cases he : row.1 = sha3_256 other
    · rw [if_pos he, hinj.1 (he.symm.trans hhash.symm)]
    · rw [if_neg he]
      exact h

omit [Crypto] in
theorem readTargetHeader_congr {hash : Bytes32} {raw : Bytes}
    (hraw : store.headers.lookup hash = some raw) (hlen : raw.length = blockHeaderBytes)
    (h : store'.headers.lookup hash = some raw) :
    store'.readTargetHeader hash = store.readTargetHeader hash := by
  have hbound : ¬ raw.length > headerFileMaxBytes := by
    rw [hlen, headerFileMaxBytes]
    exact Nat.lt_irrefl _
  simp [BlockStore.readTargetHeader, BlockStore.hasBlock, BlockStore.getHeaderByHash,
    readFileFromDir, h, hraw, okOr, rejectIf_neg hbound, Except.mapError]

omit [Crypto] in
theorem retargetV1WithActual_isOk {targetOld : Bytes32} (hpos : 1 ≤ beToNat targetOld)
    (hle : beToNat targetOld ≤ beToNat powLimit) (tActual : Nat) :
    ∃ target, retargetV1WithActual targetOld tActual = .ok target := by
  obtain ⟨-, -, -, hmax⟩ := scaledTarget_bounds hpos hle tActual
  have hfits : ¬ scaledTarget (beToNat targetOld) tActual ≥ 2 ^ 256 := by
    rw [powLimitNat_eq] at hmax
    omega
  have hexp : retargetExpectedInterval = .ok (targetBlockInterval * windowSize) := by decide
  refine ⟨BytesN.ofList 32 (natToLe 32 (scaledTarget (beToNat targetOld) tActual)).reverse, ?_⟩
  rw [retargetV1WithActual, validateRetargetOldTarget, rejectIf_neg (by omega), ok_bind,
    rejectIf_neg (by omega), ok_bind, hexp, ok_bind]
  exact (congrArg (· >>= _) (rejectIf_neg hfits) :)

end walk

/-! ## 6. The schedule of a chain -/

/-- What holds of the targets of a chain that follows the schedule. -/
structure TargetsScheduled (store : BlockStore) (chain : List (Bytes32 × BlockHeader)) : Prop where
  inRange : ∀ row ∈ chain, 1 ≤ beToNat row.2.target ∧ beToNat row.2.target ≤ beToNat powLimit
  changes : ∀ {i a b}, chain[i]? = some a → chain[i + 1]? = some b →
    b.2.target ≠ a.2.target → windowSize ∣ i + 1
  limited : ∀ {i a b}, chain[i]? = some a → chain[i + 1]? = some b →
    beToNat a.2.target / 4 ≤ beToNat b.2.target ∧ beToNat b.2.target ≤ 4 * beToNat a.2.target
  /-- Only the header files of the ancestry are read. -/
  ancestry : ∀ {i row}, chain[i]? = some row → ∀ store' : BlockStore,
    (∀ j r, j ≤ i → chain[j]? = some r → store'.headers.lookup r.1 = store.headers.lookup r.1) →
    expectedTargetForCandidate store' row.1 (i + 1) = expectedTargetForCandidate store row.1 (i + 1)
  growth : ∀ {i row}, chain[i]? = some row → ∀ added : List Bytes,
    Set.InjOn sha3_256 (store.HeaderStrings added) →
    expectedTargetForCandidate (added.foldl BlockStore.addHeader store) row.1 (i + 1) =
      expectedTargetForCandidate store row.1 (i + 1)
  /-- At a boundary the timestamps count only through their clamped span. -/
  boundary : ∀ {i row target}, chain[i]? = some row → windowSize ∣ i + 1 →
    expectedTargetForCandidate store row.1 (i + 1) = .ok target → ∃ span,
      clampedSpan (retargetWindow chain i) = .ok span ∧
      windowSize - 1 ≤ span ∧ span ≤ (windowSize - 1) * maxTimestampStepPerBlock ∧
      ∀ window, window.length = windowSize → clampedSpan window = .ok span →
        retargetV1Clamped row.2.target window = .ok target
  /-- Raising a timestamp other than the first never lowers the target. -/
  raising : ∀ {i row target j raw raised span'}, chain[i]? = some row → windowSize ∣ i + 1 →
    expectedTargetForCandidate store row.1 (i + 1) = .ok target →
    (retargetWindow chain i)[j + 1]? = some raw → raw ≤ raised →
    clampedSpan ((retargetWindow chain i).set (j + 1) raised) = .ok span' → ∃ target',
      retargetV1Clamped row.2.target ((retargetWindow chain i).set (j + 1) raised) = .ok target' ∧
      beToNat target ≤ beToNat target'

omit [Crypto] in
theorem length_retargetWindow {chain : List (Bytes32 × BlockHeader)} (hrow : chain[i]? = some row)
    (h : windowSize ∣ i + 1) : (retargetWindow chain i).length = windowSize := by
  have hlt := (List.getElem?_eq_some_iff.mp hrow).1
  have hle := Nat.le_of_dvd (Nat.succ_pos i) h
  rw [retargetWindow, List.length_drop, List.length_take, chainTimestamps, List.length_map]
  omega

omit [Crypto] in
theorem retargetV1Clamped_of_span {targetOld : Bytes32} {window : List UInt64} {span : Nat}
    (hlen : window.length = windowSize) (hspan : clampedSpan window = .ok span) :
    retargetV1Clamped targetOld window = retargetV1WithActual targetOld span := by
  have hpos : span ≠ 0 := by
    have hone : 1 ≤ windowSize - 1 := by decide
    have hlo := (clampedSpan_bounds hlen hspan).1
    omega
  rw [retargetV1Clamped, rejectIf_neg (not_not.mpr hlen), ok_bind, hspan, ok_bind, if_neg hpos]

/-- **The target schedule.**  Along every chain of a store that follows the schedule. -/
theorem target_schedule_along_chain {store : BlockStore} {chain : List (Bytes32 × BlockHeader)}
    (hchain : store.HoldsPath chain) (hfollows : FollowsSchedule store chain) :
    TargetsScheduled store chain where
  inRange row hrow := by
    obtain ⟨i, hi⟩ := List.mem_iff_getElem?.mp hrow
    exact target_inRange hchain hfollows i row hi
  changes ha hb hne := by
    rcases target_step hchain hfollows ha hb with heq | ⟨hboundary, -⟩
    · exact absurd heq hne
    · exact hboundary
  limited {i a b} ha hb := by
    obtain ⟨hpos, hle⟩ := target_inRange hchain hfollows i a ha
    rcases target_step hchain hfollows ha hb with heq | ⟨-, span, hspan⟩
    · rw [heq]
      omega
    · obtain ⟨hlo, hhi, -, -⟩ := scaledTarget_bounds hpos hle span
      rw [hspan]
      exact ⟨hlo, hhi⟩
  ancestry hrow store' hsame := by
    refine expectedTargetForCandidate_congr hchain hrow fun j r hj hr => ?_
    obtain ⟨raw, hraw, hparse, -⟩ := hchain.rows r (List.mem_of_getElem? hr)
    exact readTargetHeader_congr hraw (BlockStore.length_of_parseBlockHeaderBytes hparse)
      ((hsame j r hj hr).trans hraw)
  growth hrow added hinj := by
    refine expectedTargetForCandidate_congr hchain hrow fun j r hj hr => ?_
    obtain ⟨raw, hraw, hparse, hhash⟩ := hchain.rows r (List.mem_of_getElem? hr)
    refine readTargetHeader_congr hraw (BlockStore.length_of_parseBlockHeaderBytes hparse) ?_
    refine lookup_addHeaders hhash hraw fun other hother heq => ?_
    exact hinj (.inr hother) (.inl ⟨r.1, hraw⟩) heq
  boundary hrow hboundary h := by
    obtain ⟨span, hspan, hlo, hhi, htarget⟩ :=
      retargetV1Clamped_ok (expectedTargetForCandidate_boundary hchain hrow hboundary h)
    refine ⟨span, hspan, hlo, hhi, fun window hlen hwindow => ?_⟩
    rw [retargetV1Clamped_of_span hlen hwindow]
    exact htarget
  raising {i row target j raw raised span'} hrow hboundary h hraw hle hspan' := by
    have hlen : ((retargetWindow chain i).set (j + 1) raised).length = windowSize := by
      rw [List.length_set, length_retargetWindow hrow hboundary]
    obtain ⟨hpos, hmax⟩ := target_inRange hchain hfollows i row hrow
    obtain ⟨target', htarget'⟩ := retargetV1WithActual_isOk hpos hmax span'
    rw [← retargetV1Clamped_of_span hlen hspan'] at htarget'
    exact ⟨target', htarget', retargetV1Clamped_set_mono hraw hle
      (expectedTargetForCandidate_boundary hchain hrow hboundary h) htarget'⟩

end schedule

/-! ## 7. Genesis and one block on top of it -/

section sample

@[reducible] def scheduleCrypto : Crypto := Crypto.sha3With fun _ _ _ => .ok true

attribute [local instance] scheduleCrypto

def scheduleGenesisHash : Bytes32 := sha3_256 (sampleHeaderBytes zero32 100)

def scheduleChildHash : Bytes32 := sha3_256 (sampleHeaderBytes scheduleGenesisHash 220)

def scheduleStore : BlockStore :=
  sampleStore [(scheduleGenesisHash, sampleHeaderBytes zero32 100),
    (scheduleChildHash, sampleHeaderBytes scheduleGenesisHash 220)]

def scheduleChain : List (Bytes32 × BlockHeader) :=
  [(scheduleGenesisHash, sampleHeader zero32 100),
    (scheduleChildHash, sampleHeader scheduleGenesisHash 220)]

theorem scheduleStore_lookup :
    scheduleStore.headers.lookup scheduleGenesisHash = some (sampleHeaderBytes zero32 100) ∧
      scheduleStore.headers.lookup scheduleChildHash =
        some (sampleHeaderBytes scheduleGenesisHash 220) := by
  have hne : scheduleGenesisHash ≠ scheduleChildHash := by decide +kernel
  constructor
  · simp only [scheduleStore, sampleStore, insertAll_cons, insertAll_nil, lookup_insert_eq, hne,
      if_false, if_true]
  · simp only [scheduleStore, sampleStore, insertAll_cons, insertAll_nil, lookup_insert_eq, if_true]

theorem scheduleStore_derives :
    expectedTargetForCandidate scheduleStore scheduleGenesisHash 1 = .ok powLimit := by
  have hread : scheduleStore.readTargetHeader scheduleGenesisHash =
      .bytes (sampleHeaderBytes zero32 100) := by
    simp only [BlockStore.readTargetHeader, BlockStore.hasBlock, BlockStore.getHeaderByHash,
      readFileFromDir, scheduleStore_lookup.1]
    rfl
  have hinside : decide (windowSize ∣ 1) = false := by decide
  simp only [expectedTargetForCandidate, expectedTargetForCandidateWithReader, hinside]
  simp only [Bool.false_eq_true, if_false, List.range_one, List.foldlM_cons, List.foldlM_nil,
    targetWalkStep, startWalk, hread]
  decide +kernel

theorem target_schedule_along_chain_sample : TargetsScheduled scheduleStore scheduleChain := by
  refine target_schedule_along_chain ⟨?_, ?_, ?_⟩ ⟨?_, ?_⟩
  · intro row hrow
    rcases List.mem_cons.mp hrow with rfl | hrow
    · exact ⟨_, scheduleStore_lookup.1, by decide, rfl⟩
    · rw [List.mem_singleton] at hrow
      subst hrow
      exact ⟨_, scheduleStore_lookup.2, by decide +kernel, rfl⟩
  · intro row hrow
    cases hrow
    rfl
  · intro i a b ha hb
    match i, ha, hb with
    | 0, ha, hb =>
      cases ha
      cases hb
      rfl
  · intro row hrow
    cases hrow
    decide
  · intro i a b ha hb
    match i, ha, hb with
    | 0, ha, hb =>
      cases ha
      cases hb
      exact scheduleStore_derives

end sample

end Rubin.Node
