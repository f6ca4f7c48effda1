/-
# Orphan blocks

`OrphanBlockPool` and `resolve_orphans` of `p2p_runtime.rs`.  A session keeps blocks whose parent it
has not seen.  When a block arrives, its retained children are taken out of the pool and handed to
the engine; the children of each one that is accepted follow.

The walk is a stack, and a rejected child ends it: the function returns the error while the stack
still holds siblings that were already taken out of the pool.  They are neither delivered nor
retained (`resolveOrphans_rejected`).  Where the walk can meet no invalid block it is complete
(`resolve_orphans_complete`).

The engine is a parameter: all that is used is that it accepts a valid block whose parent it knows
(`AcceptsValid`).
-/
import Rubin.Consensus.Basic
import Rubin.Lib.FiniteMap

namespace Rubin.Node

open Rubin.Lib Rubin.Consensus

/-! ## 1. `OrphanBlockPool` -/

structure OrphanBlockEntry where
  blockHash : Bytes32
  parentHash : Bytes32
  blockBytes : Bytes
deriving DecidableEq

structure OrphanBlockMeta where
  parentHash : Bytes32
  size : Nat

/-- The process-wide byte counter is kept with the pool of the session; the metrics are left out. -/
structure OrphanBlockPool where
  limit : Nat
  byteLimit : Nat
  totalBytes : Nat
  pool : Finmap fun _ : Bytes32 => List OrphanBlockEntry
  byHash : Finmap fun _ : Bytes32 => OrphanBlockMeta
  fifo : List Bytes32
  globalTotalBytes : Nat

def defaultGlobalOrphanByteLimit : Nat := 256 <<< 20

namespace OrphanBlockPool

def new (limit byteLimit globalTotalBytes : Nat) : OrphanBlockPool :=
  ⟨limit, byteLimit, 0, ∅, ∅, [], globalTotalBytes⟩

/-- What leaves `by_hash` is taken off the counters. -/
def forget (p : OrphanBlockPool) (blockHash : Bytes32) (size : Nat) : OrphanBlockPool :=
  { p with
    byHash := p.byHash.erase blockHash
    totalBytes := p.totalBytes - size
    globalTotalBytes := p.globalTotalBytes - size }

/-- Takes one child out of its parent's list, and the list out of the map when it is empty. -/
def dropChild (pool : Finmap fun _ : Bytes32 => List OrphanBlockEntry)
    (parentHash blockHash : Bytes32) : Finmap fun _ : Bytes32 => List OrphanBlockEntry :=
  match pool.lookup parentHash with
  | none => pool
  | some children =>
    let children := children.eraseP fun child => child.blockHash = blockHash
    if children = [] then pool.erase parentHash else pool.insert parentHash children

/-- `evict_oldest` on what is left of the queue. -/
def evictFrom : List Bytes32 → OrphanBlockPool → Bool × OrphanBlockPool
  | [], p => (false, { p with fifo := [] })
  | oldest :: fifo, p =>
    match p.byHash.lookup oldest with
    | none => evictFrom fifo p
    | some info =>
      let p := p.forget oldest info.size
      (true, { p with fifo, pool := dropChild p.pool info.parentHash oldest })

def evictOldest (p : OrphanBlockPool) : Bool × OrphanBlockPool := evictFrom p.fifo p

/-- The loop that reserves bytes of the global budget; an eviction shortens the queue, which bounds
the turns. -/
def reserve (blockSize globalByteLimit : Nat) : (turns : Nat) → OrphanBlockPool →
    Bool × OrphanBlockPool
  | 0, p => (false, p)
  | turns + 1, p =>
    let next := p.globalTotalBytes + blockSize
    if 2 ^ 64 ≤ next then (false, p)
    else if 0 < globalByteLimit ∧ globalByteLimit < next then
      let r := p.evictOldest
      if r.1 then reserve blockSize globalByteLimit turns r.2 else (false, r.2)
    else (true, { p with globalTotalBytes := next })

def overLimits (p : OrphanBlockPool) : Bool :=
  decide (p.limit < p.byHash.keys.card) ||
    (decide (0 < p.byteLimit) && decide (p.byteLimit < p.totalBytes))

/-- Evicts until the pool is within its limits, and at least `minEvict` entries. -/
def evictLoop (minEvict : Nat) : (turns evicted : Nat) → OrphanBlockPool → OrphanBlockPool
  | 0, _, p => p
  | turns + 1, evicted, p =>
    if evicted < minEvict ∨ p.overLimits = true then
      let r := p.evictOldest
      if r.1 then evictLoop minEvict turns (evicted + 1) r.2 else r.2
    else p

def insertEntry (p : OrphanBlockPool) (entry : OrphanBlockEntry) : OrphanBlockPool :=
  { p with
    pool := p.pool.insert entry.parentHash ((p.pool.lookup entry.parentHash).getD [] ++ [entry])
    byHash := p.byHash.insert entry.blockHash ⟨entry.parentHash, entry.blockBytes.length⟩
    totalBytes := p.totalBytes + entry.blockBytes.length
    fifo := p.fifo ++ [entry.blockHash] }

def add (p : OrphanBlockPool) (entry : OrphanBlockEntry) (globalByteLimit : Nat) :
    OrphanBlockPool :=
  let blockSize := entry.blockBytes.length
  if (p.byHash.lookup entry.blockHash).isSome then p
  else if 0 < p.byteLimit ∧ p.byteLimit < blockSize then p
  else
    let r := p.reserve blockSize globalByteLimit (p.fifo.length + 1)
    if r.1 then
      let p := r.2.insertEntry entry
      let minEvict := if p.overLimits then max (p.byHash.keys.card / 10) 1 else 0
      p.evictLoop minEvict (p.fifo.length + 1) 0
    else r.2

/-- `by_hash` forgets the children one by one. -/
def forgetChild (p : OrphanBlockPool) (child : OrphanBlockEntry) : OrphanBlockPool :=
  match p.byHash.lookup child.blockHash with
  | none => p
  | some info => p.forget child.blockHash info.size

def takeChildren (p : OrphanBlockPool) (parentHash : Bytes32) :
    List OrphanBlockEntry × OrphanBlockPool :=
  let children := (p.pool.lookup parentHash).getD []
  let p := { p with pool := p.pool.erase parentHash }
  if children = [] then (children, p)
  else
    let removed := children.map OrphanBlockEntry.blockHash
    let p := children.foldl forgetChild p
    (children, { p with fifo := p.fifo.filter fun hash => hash ∉ removed })

/-! ## 2. How many entries there are -/

def size (p : OrphanBlockPool) : Nat := total List.length p.pool

theorem total_dropChild_le (pool : Finmap fun _ : Bytes32 => List OrphanBlockEntry)
    (parentHash blockHash : Bytes32) :
    total List.length (dropChild pool parentHash blockHash) ≤ total List.length pool := by
  rw [dropChild]
  split
  · exact le_rfl
  · rename_i children hchildren
    have herase := total_erase List.length pool parentHash
    rw [weightAt_of_lookup hchildren] at herase
    dsimp only
    split
    · omega
    · have hinsert := total_insert List.length pool parentHash
        (children.eraseP fun child => child.blockHash = blockHash)
      have hlen := List.length_eraseP_le (p := fun child => decide (child.blockHash = blockHash))
        (l := children)
      rw [weightAt_of_lookup hchildren] at hinsert
      omega

theorem evictFrom_size_le : ∀ (fifo : List Bytes32) (p : OrphanBlockPool),
    (evictFrom fifo p).2.size ≤ p.size
  | [], p => le_rfl
  | oldest :: fifo, p => by
    rw [evictFrom]
    split
    · exact evictFrom_size_le fifo p
    · exact total_dropChild_le ..

theorem reserve_size_le (blockSize globalByteLimit : Nat) : ∀ (turns : Nat) (p : OrphanBlockPool),
    (reserve blockSize globalByteLimit turns p).2.size ≤ p.size
  | 0, p => le_rfl
  | turns + 1, p => by
    have hevict := evictFrom_size_le p.fifo p
    rw [reserve]
    dsimp only
    split
    · exact le_rfl
    · split
      · split
        · exact (reserve_size_le blockSize globalByteLimit turns _).trans hevict
        · exact hevict
      · exact le_rfl

theorem evictLoop_size_le (minEvict : Nat) : ∀ (turns evicted : Nat) (p : OrphanBlockPool),
    (evictLoop minEvict turns evicted p).size ≤ p.size
  | 0, _, p => le_rfl
  | turns + 1, evicted, p => by
    have hevict := evictFrom_size_le p.fifo p
    rw [evictLoop]
    dsimp only
    split
    · split
      · exact (evictLoop_size_le minEvict turns (evicted + 1) _).trans hevict
      · exact hevict
    · exact le_rfl

theorem insertEntry_size (p : OrphanBlockPool) (entry : OrphanBlockEntry) :
    (p.insertEntry entry).size = p.size + 1 := by
  have hinsert := total_insert List.length p.pool entry.parentHash
    ((p.pool.lookup entry.parentHash).getD [] ++ [entry])
  rw [size, insertEntry, size]
  rw [List.length_append, List.length_singleton] at hinsert
  dsimp only
  cases hlook : p.pool.lookup entry.parentHash with
  | none =>
    rw [weightAt, hlook] at hinsert
    simpa using hinsert
  | some children =>
    rw [weightAt_of_lookup hlook, hlook] at hinsert
    simp only [Option.getD_some] at hinsert ⊢
    omega

theorem add_size_le (p : OrphanBlockPool) (entry : OrphanBlockEntry) (globalByteLimit : Nat) :
    (p.add entry globalByteLimit).size ≤ p.size + 1 := by
  have hreserve := reserve_size_le entry.blockBytes.length globalByteLimit (p.fifo.length + 1) p
  rw [add]
  dsimp only
  split
  · omega
  · split
    · omega
    · split
      · refine (evictLoop_size_le ..).trans ?_
        rw [insertEntry_size]
        omega
      · omega

theorem foldl_forgetChild_pool (children : List OrphanBlockEntry) : ∀ p : OrphanBlockPool,
    (children.foldl forgetChild p).pool = p.pool := by
  induction children with
  | nil => exact fun _ => rfl
  | cons child children ih =>
    intro p
    rw [List.foldl_cons, ih, forgetChild]
    split <;> rfl

theorem takeChildren_pool (p : OrphanBlockPool) (parentHash : Bytes32) :
    (p.takeChildren parentHash).1 = (p.pool.lookup parentHash).getD [] ∧
      (p.takeChildren parentHash).2.pool = p.pool.erase parentHash := by
  rw [takeChildren]
  dsimp only
  split
  · exact ⟨rfl, rfl⟩
  · exact ⟨rfl, foldl_forgetChild_pool ..⟩

theorem takeChildren_size (p : OrphanBlockPool) (parentHash : Bytes32) :
    (p.takeChildren parentHash).2.size + (p.takeChildren parentHash).1.length = p.size := by
  obtain ⟨hchildren, hpool⟩ := takeChildren_pool p parentHash
  have herase := total_erase List.length p.pool parentHash
  rw [size, hpool, hchildren, size, ← herase]
  cases hlook : p.pool.lookup parentHash with
  | none => simp [weightAt, hlook]
  | some children => simp [weightAt_of_lookup hlook]

end OrphanBlockPool

/-! ## 3. `resolve_orphans` -/

def parentBlockNotFoundErr : String := "parent block not found"

def isParentNotFoundErr (err : String) : Bool := err == parentBlockNotFoundErr

/-- `apply_block_with_reorg`, as far as the walk sees it: a verdict and the engine after it. -/
abbrev ApplyBlock (σ : Type) := Bytes → EStateM String σ Unit

/-- What the walk changes.  The plan for the transaction pool, the best known height and the
consumed DA sets are outputs of accepted blocks that the walk does not read. -/
structure ResolveState (σ : Type) where
  engine : σ
  orphans : OrphanBlockPool
  acceptedBlocks : Nat
  lastError : Option String

variable {σ : Type}

/-- The loop of `resolve_orphans`.  `ready` is a stack with its top in front: what is taken last is
tried first. -/
def resolveLoop (apply : ApplyBlock σ) (ready : List OrphanBlockEntry) (s : ResolveState σ) :
    Except String Unit × ResolveState σ :=
  match ready with
  | [] => (.ok (), s)
  | child :: ready =>
    match apply child.blockBytes s.engine with
    | .ok () engine =>
      let taken := s.orphans.takeChildren child.blockHash
      resolveLoop apply (taken.1.reverse ++ ready)
        { s with engine, orphans := taken.2, acceptedBlocks := s.acceptedBlocks + 1 }
    | .error err engine =>
      if isParentNotFoundErr err then
        resolveLoop apply ready
          { s with engine, orphans := s.orphans.add child defaultGlobalOrphanByteLimit }
      else (.error err, { s with engine, lastError := some err })
termination_by (s.orphans.size + ready.length, ready.length)
decreasing_by
  · have hsize := s.orphans.takeChildren_size child.blockHash
    refine Prod.Lex.left _ _ ?_
    simp only [List.length_append, List.length_reverse, List.length_cons]
    omega
  · have hsize := s.orphans.add_size_le child defaultGlobalOrphanByteLimit
    rcases Nat.lt_or_eq_of_le hsize with hlt | heq
    · refine Prod.Lex.left _ _ ?_
      simp only [List.length_cons]
      omega
    · simp only [List.length_cons, heq]
      rw [Nat.add_right_comm, Nat.add_assoc]
      exact Prod.Lex.right _ (Nat.lt_succ_self _)

def resolveOrphans (apply : ApplyBlock σ) (parentHash : Bytes32) (s : ResolveState σ) :
    Except String Unit × ResolveState σ :=
  let taken := s.orphans.takeChildren parentHash
  resolveLoop apply taken.1.reverse { s with orphans := taken.2 }

/-! ## 4. When the walk is complete -/

/-- The blocks retained under a parent. -/
def OrphanBlockPool.children (p : OrphanBlockPool) (parentHash : Bytes32) :
    List OrphanBlockEntry :=
  (p.pool.lookup parentHash).getD []

theorem children_takeChildren (p : OrphanBlockPool) (parent q : Bytes32) :
    (p.takeChildren parent).1 = p.children parent ∧
      (p.takeChildren parent).2.children q = if q = parent then [] else p.children q := by
  obtain ⟨hchildren, hpool⟩ := p.takeChildren_pool parent
  refine ⟨hchildren, ?_⟩
  rw [OrphanBlockPool.children, hpool, lookup_erase_eq]
  split
  · rfl
  · rfl

/-- What a session relies on in an engine that has no fault: a valid retained block whose parent is
known is accepted, and is known from then on.  Nothing is said of other blocks: the engine may store
an invalid one on a side branch that it does not follow. -/
def AcceptsValid (apply : ApplyBlock σ) (known : σ → Set Bytes32)
    (Valid : OrphanBlockEntry → Prop) (p : OrphanBlockPool) : Prop :=
  ∀ parent, ∀ e ∈ p.children parent, ∀ s, parent ∈ known s → Valid e →
    ∃ s', apply e.blockBytes s = .ok () s' ∧ known s ⊆ known s' ∧ e.blockHash ∈ known s'

/-- A retained block below the arrived one, all of whose retained ancestors are valid. -/
inductive Deliverable (p : OrphanBlockPool) (Valid : OrphanBlockEntry → Prop) (arrived : Bytes32) :
    OrphanBlockEntry → Prop
  | child {e : OrphanBlockEntry} (h : e ∈ p.children arrived) : Deliverable p Valid arrived e
  | descendant {a e : OrphanBlockEntry} (ha : Deliverable p Valid arrived a) (hvalid : Valid a)
      (h : e ∈ p.children a.blockHash) : Deliverable p Valid arrived e

/-- The walk under way.  `opened` are the parents whose children have been taken out of the pool;
each of these waits on the stack or has been accepted. -/
structure WalkInv (p : OrphanBlockPool) (Valid : OrphanBlockEntry → Prop) (arrived : Bytes32)
    (known : σ → Set Bytes32) (ready : List OrphanBlockEntry) (s : ResolveState σ)
    (opened : Set Bytes32) : Prop where
  root : arrived ∈ opened
  known : opened ⊆ known s.engine
  closed : ∀ q, q ∉ opened → s.orphans.children q = p.children q
  taken : ∀ q ∈ opened, s.orphans.children q = []
  settled : ∀ q ∈ opened, ∀ e ∈ p.children q, e ∈ ready ∨ e.blockHash ∈ opened
  ready : ∀ e ∈ ready, Deliverable p Valid arrived e ∧ ∃ q ∈ opened, e ∈ p.children q

section walk

variable {apply : ApplyBlock σ} {known : σ → Set Bytes32} {Valid : OrphanBlockEntry → Prop}
  {p : OrphanBlockPool} {arrived : Bytes32} {s : ResolveState σ}
  {ready : List OrphanBlockEntry} {opened : Set Bytes32}

theorem WalkInv.start (horphans : s.orphans = p) (hknown : arrived ∈ known s.engine) :
    WalkInv p Valid arrived known (s.orphans.takeChildren arrived).1.reverse
      { s with orphans := (s.orphans.takeChildren arrived).2 } {arrived} where
  root := Set.mem_singleton _
  known := Set.singleton_subset_iff.mpr hknown
  closed := by
    intro q hq
    rw [(children_takeChildren ..).2, if_neg (Set.mem_singleton_iff.not.mp hq), horphans]
  taken := by
    intro q hq
    rw [(children_takeChildren ..).2, if_pos (Set.mem_singleton_iff.mp hq)]
  settled := by
    intro q hq e he
    rw [Set.mem_singleton_iff.mp hq, ← horphans] at he
    rw [List.mem_reverse, (children_takeChildren s.orphans arrived arrived).1]
    exact Or.inl he
  ready := by
    intro e he
    rw [List.mem_reverse, (children_takeChildren s.orphans arrived arrived).1, horphans] at he
    exact ⟨.child he, arrived, Set.mem_singleton _, he⟩

theorem WalkInv.accept {child : OrphanBlockEntry} {engine : σ}
    (h : WalkInv p Valid arrived known (child :: ready) s opened) (hvalid : Valid child)
    (hmono : known s.engine ⊆ known engine) (hknown : child.blockHash ∈ known engine) :
    WalkInv p Valid arrived known
      ((s.orphans.takeChildren child.blockHash).1.reverse ++ ready)
      { s with engine, orphans := (s.orphans.takeChildren child.blockHash).2,
               acceptedBlocks := s.acceptedBlocks + 1 }
      (insert child.blockHash opened) where
  root := Set.mem_insert_of_mem _ h.root
  known := Set.insert_subset hknown (h.known.trans hmono)
  closed := by
    intro q hq
    rw [Set.mem_insert_iff, not_or] at hq
    rw [(children_takeChildren ..).2, if_neg hq.1, h.closed q hq.2]
  taken := by
    intro q hq
    rw [(children_takeChildren ..).2]
    split
    · rfl
    · rename_i hne
      exact h.taken q ((Set.mem_insert_iff.mp hq).resolve_left hne)
  settled := by
    intro q hq e he
    by_cases hopen : q ∈ opened
    · rcases h.settled q hopen e he with hready | hmem
      · rcases List.mem_cons.mp hready with rfl | hready
        · exact Or.inr (Set.mem_insert _ _)
        · exact Or.inl (List.mem_append_right _ hready)
      · exact Or.inr (Set.mem_insert_of_mem _ hmem)
    · -- the children of the accepted block are the ones just taken
      have hq := (Set.mem_insert_iff.mp hq).resolve_right hopen
      refine Or.inl (List.mem_append_left _ (List.mem_reverse.mpr ?_))
      rw [(children_takeChildren s.orphans child.blockHash q).1, ← hq, h.closed q hopen]
      exact he
  ready := by
    intro e he
    rcases List.mem_append.mp he with he | he
    · rw [List.mem_reverse, (children_takeChildren s.orphans child.blockHash arrived).1] at he
      have hchild := (h.ready child (List.mem_cons_self ..)).1
      have hnew : e ∈ p.children child.blockHash := by
        by_cases hopen : child.blockHash ∈ opened
        · rw [h.taken _ hopen] at he
          cases he
        · rwa [h.closed _ hopen] at he
      exact ⟨hchild.descendant hvalid hnew, child.blockHash, Set.mem_insert _ _, hnew⟩
    · obtain ⟨hdel, q, hq, hmem⟩ := h.ready e (List.mem_cons_of_mem _ he)
      exact ⟨hdel, q, Set.mem_insert_of_mem _ hq, hmem⟩

theorem WalkInv.finished (h : WalkInv p Valid arrived known [] s opened) {e : OrphanBlockEntry}
    (he : Deliverable p Valid arrived e) : e.blockHash ∈ opened := by
  induction he with
  | child he =>
    rcases h.settled arrived h.root _ he with hready | hmem
    · cases hready
    · exact hmem
  | descendant _ _ he ih =>
    rcases h.settled _ ih _ he with hready | hmem
    · cases hready
    · exact hmem

theorem resolveLoop_complete (haccepts : AcceptsValid apply known Valid p)
    (hall : ∀ e, Deliverable p Valid arrived e → Valid e) :
    ∀ (ready : List OrphanBlockEntry) (s : ResolveState σ) (opened : Set Bytes32),
      WalkInv p Valid arrived known ready s opened →
      (resolveLoop apply ready s).1 = .ok () ∧
        ∀ e, Deliverable p Valid arrived e →
          e.blockHash ∈ known (resolveLoop apply ready s).2.engine := by
  -- whatever is on the stack is deliverable, hence valid, hence accepted
  have hstep : ∀ {child : OrphanBlockEntry} {ready : List OrphanBlockEntry} {s : ResolveState σ}
      {opened : Set Bytes32}, WalkInv p Valid arrived known (child :: ready) s opened →
      ∃ engine, apply child.blockBytes s.engine = .ok () engine ∧
        known s.engine ⊆ known engine ∧ child.blockHash ∈ known engine := by
    intro child ready s opened h
    obtain ⟨hdel, q, hq, hmem⟩ := h.ready child (List.mem_cons_self ..)
    exact haccepts q child hmem s.engine (h.known hq) (hall child hdel)
  intro ready s
  fun_induction resolveLoop apply ready s with
  | case1 s =>
    intro opened h
    exact ⟨rfl, fun e he => h.known (h.finished he)⟩
  | case2 s child ready engine hrun taken ih =>
    intro opened h
    obtain ⟨engine', hok, hmono, hknown⟩ := hstep h
    rw [hrun] at hok
    cases hok
    have hdel := (h.ready child (List.mem_cons_self ..)).1
    exact ih _ (h.accept (hall child hdel) hmono hknown)
  | case3 s child ready err engine hrun hnotfound ih =>
    intro opened h
    obtain ⟨engine', hok, -⟩ := hstep h
    rw [hrun] at hok
    cases hok
  | case4 s child ready err engine hrun hother =>
    intro opened h
    obtain ⟨engine', hok, -⟩ := hstep h
    rw [hrun] at hok
    cases hok

end walk

/-! ## 5. What a rejected block takes with it -/

/-- The youngest sibling is tried first.  If the engine rejects it, the call ends there; the other
siblings have left the pool and were never shown to the engine, whatever they are. -/
theorem resolveOrphans_rejected (apply : ApplyBlock σ) (arrived : Bytes32) (s : ResolveState σ)
    {older : List OrphanBlockEntry} {youngest : OrphanBlockEntry} {err : String} {engine : σ}
    (hchildren : s.orphans.children arrived = older ++ [youngest])
    (hrejected : apply youngest.blockBytes s.engine = .error err engine)
    (hother : isParentNotFoundErr err = false) :
    (resolveOrphans apply arrived s).1 = .error err ∧
      (resolveOrphans apply arrived s).2.engine = engine ∧
      (resolveOrphans apply arrived s).2.orphans.children arrived = [] := by
  obtain ⟨htaken, hpool⟩ := children_takeChildren s.orphans arrived arrived
  rw [if_pos rfl] at hpool
  rw [resolveOrphans, htaken, hchildren, List.reverse_append, List.reverse_singleton,
    List.singleton_append, resolveLoop]
  simp only [hrejected, hother]
  exact ⟨rfl, rfl, hpool⟩

/-- An engine that keeps the blocks it accepts and rejects those that are empty. -/
def sampleApply : ApplyBlock (List Bytes) := fun block accepted =>
  if block = [] then .error "block rejected" accepted else .ok () (block :: accepted)

/-- The hash of a sample block: its first byte, repeated. -/
def sampleHash (block : Bytes) : Bytes32 := BytesN.replicate 32 (block.headD 0)

def sampleKnown (accepted : List Bytes) : Set Bytes32 := {h | h ∈ ([] :: accepted).map sampleHash}

def sampleValid (e : OrphanBlockEntry) : Prop :=
  e.blockBytes ≠ [] ∧ e.blockHash = sampleHash e.blockBytes

theorem sampleApply_acceptsValid (p : OrphanBlockPool) :
    AcceptsValid sampleApply sampleKnown sampleValid p := by
  rintro parent e - accepted - ⟨hne, hhash⟩
  refine ⟨e.blockBytes :: accepted, if_neg hne, ?_, ?_⟩
  · intro h hmem
    have hmem : h ∈ ([] :: accepted).map sampleHash := hmem
    change h ∈ ([] :: e.blockBytes :: accepted).map sampleHash
    simp only [List.map_cons, List.mem_cons] at hmem ⊢
    exact hmem.imp_right Or.inr
  · change e.blockHash ∈ ([] :: e.blockBytes :: accepted).map sampleHash
    simp [hhash]

/-- A chain of two valid blocks. -/
def sampleChain : OrphanBlockPool :=
  ((OrphanBlockPool.new 8 0 0).add ⟨sampleHash [1], zero32, [1]⟩ defaultGlobalOrphanByteLimit).add
    ⟨sampleHash [2], sampleHash [1], [2]⟩ defaultGlobalOrphanByteLimit

/-- Two siblings under one parent: a valid block, then an empty one. -/
def sampleSiblings : OrphanBlockPool :=
  ((OrphanBlockPool.new 8 0 0).add ⟨sampleHash [1], zero32, [1]⟩ defaultGlobalOrphanByteLimit).add
    ⟨sampleHash [2], zero32, []⟩ defaultGlobalOrphanByteLimit

end Rubin.Node
