/-
# The bounded set of seen hashes

The filter that keeps a relayed transaction or block from being asked for twice: a map for the
look-up and a ring that says which member is the oldest.  The ring starts out full of zero hashes,
and the zero hash may be added like any other; eviction scans the ring for a cell whose hash is a
member.  The members are still a window of the hashes that were added.
-/
import Rubin.Lib.RingWindow
import Rubin.Consensus.Basic
import Mathlib.Data.Finset.Dedup

namespace Rubin.Node

open Rubin.Lib Rubin.Consensus

/-! ## 1. The set -/

def defaultTxSeenCapacity : Nat := 50000

structure BoundedHashSet where
  cap : Nat
  ring : List Bytes32
  next : Nat
  items : Finset Bytes32

namespace BoundedHashSet

def new (capacity : Nat) : BoundedHashSet :=
  let cap := if capacity = 0 then defaultTxSeenCapacity else capacity
  { cap := cap, ring := List.replicate cap zero32, next := 0, items := ∅ }

/-- The scan for a cell whose hash is a member, from distance `i` on; it moves the cursor there. -/
def evictFrom (s : BoundedHashSet) (i : Nat) : Nat → BoundedHashSet
  | 0 => s
  | turns + 1 =>
    let idx := (s.next + i) % s.cap
    let oldHash := s.ring.getD idx zero32
    if oldHash ∈ s.items then { s with items := s.items.erase oldHash, next := idx }
    else s.evictFrom (i + 1) turns

def add (s : BoundedHashSet) (hash : Bytes32) : Bool × BoundedHashSet :=
  if hash ∈ s.items then (false, s)
  else
    let s' := if s.cap ≤ s.items.card then s.evictFrom 0 s.cap else s
    (true, { s' with
      ring := s'.ring.set s'.next hash
      items := insert hash s'.items
      next := (s'.next + 1) % s'.cap })

def has (s : BoundedHashSet) (hash : Bytes32) : Bool := decide (hash ∈ s.items)

def len (s : BoundedHashSet) : Nat := s.items.card

/-- One call of a run: the hashes whose `add` returned true so far, and the set. -/
def record (acc : List Bytes32 × BoundedHashSet) (hash : Bytes32) :
    List Bytes32 × BoundedHashSet :=
  let r := acc.2.add hash
  (if r.1 then acc.1 ++ [hash] else acc.1, r.2)

def addAll (s : BoundedHashSet) (hashes : List Bytes32) : List Bytes32 × BoundedHashSet :=
  hashes.foldl record ([], s)

/-! ## 2. One call -/

variable {s : BoundedHashSet} {w : List Bytes32} {hash : Bytes32}

/-- The set holds the window `w`, the oldest hash first. -/
structure Holding (s : BoundedHashSet) (w : List Bytes32) : Prop where
  window : RingWindow s.cap s.ring s.next w
  nodup : w.Nodup
  items : s.items = w.toFinset

namespace Holding

theorem mem_items (h : s.Holding w) : hash ∈ s.items ↔ hash ∈ w := by
  rw [h.items, List.mem_toFinset]

theorem card_items (h : s.Holding w) : s.items.card = w.length := by
  rw [h.items, List.toFinset_card_of_nodup h.nodup]

theorem new {capacity : Nat} (hpos : 1 ≤ capacity) : (BoundedHashSet.new capacity).Holding [] := by
  have hcap : (BoundedHashSet.new capacity).cap = capacity := if_neg (by omega)
  have hcap' : 0 < (BoundedHashSet.new capacity).cap := by rwa [hcap]
  exact ⟨.start zero32 hcap', List.nodup_nil, rfl⟩

/-- A full set is scanned for one cell only: the next one holds the oldest member. -/
theorem evictFrom_full {oldest : Bytes32} {rest : List Bytes32} (h : s.Holding (oldest :: rest))
    (hfull : (oldest :: rest).length = s.cap) :
    s.evictFrom 0 s.cap = { s with items := s.items.erase oldest } := by
  have hcell : s.ring.getD s.next zero32 = oldest := by
    rw [List.getD_eq_getElem?_getD, ← h.window.head?_of_full hfull, List.head?_cons,
      Option.getD_some]
  have hidx : (s.next + 0) % s.cap = s.next := Nat.mod_eq_of_lt h.window.next_lt
  obtain ⟨turns, hturns⟩ : ∃ turns, s.cap = turns + 1 := ⟨rest.length, hfull.symm⟩
  have hscan : s.evictFrom 0 s.cap = s.evictFrom 0 (turns + 1) := by rw [hturns]
  rw [hscan, evictFrom]
  simp only [hidx, hcell, h.mem_items, List.mem_cons_self, if_true]

theorem add_of_mem (h : s.Holding w) (hmem : hash ∈ w) : s.add hash = (false, s) :=
  if_pos (h.mem_items.2 hmem)

theorem add_of_room (h : s.Holding w) (hnew : hash ∉ w) (hroom : w.length < s.cap) :
    s.add hash = (true, { s with
      ring := s.ring.set s.next hash
      items := insert hash s.items
      next := (s.next + 1) % s.cap }) := by
  rw [add, if_neg (mt h.mem_items.1 hnew), if_neg (by rw [h.card_items]; omega)]

theorem add_of_full {oldest : Bytes32} {rest : List Bytes32} (h : s.Holding (oldest :: rest))
    (hnew : hash ∉ oldest :: rest) (hfull : (oldest :: rest).length = s.cap) :
    s.add hash = (true, { s with
      ring := s.ring.set s.next hash
      items := insert hash (s.items.erase oldest)
      next := (s.next + 1) % s.cap }) := by
  rw [add, if_neg (mt h.mem_items.1 hnew), if_pos (by rw [h.card_items, hfull]),
    h.evictFrom_full hfull]

theorem cap_pos (h : s.Holding w) : 0 < s.cap := Nat.zero_lt_of_lt h.window.next_lt

/-- **A hash that is not a member becomes the newest of the window.** -/
theorem add_of_notMem (h : s.Holding w) (hnew : hash ∉ w) :
    (s.add hash).1 = true ∧ (s.add hash).2.cap = s.cap ∧
      (s.add hash).2.Holding ((w ++ [hash]).rtake s.cap) := by
  have hnodup : (w ++ [hash]).Nodup := List.nodup_append_comm.1 (List.nodup_cons.2 ⟨hnew, h.nodup⟩)
  have hkept : ((w ++ [hash]).rtake s.cap).Nodup := hnodup.sublist (List.drop_sublist _ _)
  rcases Nat.lt_or_eq_of_le h.window.length_le with hroom | hfull
  · rw [h.add_of_room hnew hroom]
    refine ⟨rfl, rfl, h.window.push hash, hkept, ?_⟩
    rw [rtake_of_length_le (by simp; omega)]
    ext member
    simp [h.items]
  · cases w with
    | nil => exact absurd hfull h.cap_pos.ne
    | cons oldest rest =>
      rw [h.add_of_full hnew hfull]
      refine ⟨rfl, rfl, h.window.push hash, hkept, ?_⟩
      have hout : oldest ∉ rest := (List.nodup_cons.1 h.nodup).1
      rw [rtake_concat_of_length_eq hash hfull h.cap_pos, List.tail_cons]
      ext member
      simp [h.items, hout]

end Holding

/-! ## 3. Runs -/

theorem record_holds {capacity : Nat} {acc : List Bytes32 × BoundedHashSet}
    (h : acc.2.cap = capacity ∧ acc.2.Holding (acc.1.rtake capacity)) (hash : Bytes32) :
    (record acc hash).2.cap = capacity ∧
      (record acc hash).2.Holding ((record acc hash).1.rtake capacity) := by
  obtain ⟨rfl, hwin⟩ := h
  by_cases hmem : hash ∈ acc.1.rtake acc.2.cap
  · rw [record, hwin.add_of_mem hmem]
    exact ⟨rfl, hwin⟩
  · obtain ⟨htrue, hcap, hnext⟩ := hwin.add_of_notMem hmem
    rw [rtake_rtake_concat _ _ hwin.cap_pos] at hnext
    rw [record]
    simp only [htrue, if_true]
    exact ⟨hcap, hnext⟩

theorem addAll_holds {capacity : Nat} (hpos : 1 ≤ capacity) (hashes : List Bytes32) :
    ((new capacity).addAll hashes).2.cap = capacity ∧
      ((new capacity).addAll hashes).2.Holding
        (((new capacity).addAll hashes).1.rtake capacity) := by
  have hall : ∀ acc : List Bytes32 × BoundedHashSet,
      (acc.2.cap = capacity ∧ acc.2.Holding (acc.1.rtake capacity)) →
      (hashes.foldl record acc).2.cap = capacity ∧
        (hashes.foldl record acc).2.Holding ((hashes.foldl record acc).1.rtake capacity) := by
    induction hashes with
    | nil => exact fun _ h => h
    | cons hash rest ih => exact fun acc h => ih (record acc hash) (record_holds h hash)
  exact hall ([], new capacity) ⟨if_neg (by omega), by simpa [List.rtake] using .new hpos⟩

/-- **The seen set is a first-in-first-out window.**  After any calls the members are the last
`capacity` hashes whose `add` returned true, each once; the next call returns false exactly for a
member and then changes nothing; a new hash joins them, and pushes out the oldest exactly when the
set is full. -/
theorem seenSet_is_fifo_window {capacity : Nat} (hpos : 1 ≤ capacity) (hashes : List Bytes32)
    (hash : Bytes32) :
    let accepted := ((new capacity).addAll hashes).1
    let s := ((new capacity).addAll hashes).2
    (∀ member, s.has member = true ↔ member ∈ accepted.rtake capacity) ∧
    (accepted.rtake capacity).Nodup ∧
    s.len = min capacity accepted.length ∧
    ((s.add hash).1 = false ↔ s.has hash = true) ∧
    (s.has hash = true → (s.add hash).2 = s) ∧
    (s.has hash = false → s.len < capacity → (s.add hash).2.items = insert hash s.items) ∧
    (s.has hash = false → s.len = capacity → ∃ oldest rest,
      accepted.rtake capacity = oldest :: rest ∧
        (s.add hash).2.items = insert hash (s.items.erase oldest)) := by
  intro accepted s
  obtain ⟨hcap, hwin⟩ : s.cap = capacity ∧ s.Holding (accepted.rtake capacity) :=
    addAll_holds hpos hashes
  have hhas : ∀ member, s.has member = true ↔ member ∈ accepted.rtake capacity := fun member => by
    rw [has, decide_eq_true_iff, hwin.mem_items]
  have hnot : s.has hash = false ↔ hash ∉ accepted.rtake capacity := by
    rw [← hhas, Bool.not_eq_true]
  have hlen : s.len = (accepted.rtake capacity).length := hwin.card_items
  refine ⟨hhas, hwin.nodup, ?_, ?_, ?_, ?_, ?_⟩
  · rw [hlen, List.rtake, List.length_drop]
    omega
  · rw [hhas]
    constructor
    · intro hfalse
      by_contra hnew
      rw [(hwin.add_of_notMem hnew).1] at hfalse
      cases hfalse
    · intro hmem
      rw [hwin.add_of_mem hmem]
  · intro hmem
    rw [hwin.add_of_mem ((hhas hash).1 hmem)]
  · intro hnew hroom
    rw [hwin.add_of_room (hnot.1 hnew) (by rwa [← hlen, hcap])]
  · intro hnew hfull
    rw [hlen] at hfull
    rcases hw : accepted.rtake capacity with _ | ⟨oldest, rest⟩
    · rw [hw] at hfull
      simp only [List.length_nil] at hfull
      omega
    · rw [hw] at hwin hfull hnot
      refine ⟨oldest, rest, rfl, ?_⟩
      rw [hwin.add_of_full (hnot.1 hnew) (hcap ▸ hfull)]

/-- With room for two: the zero hash is refused while it is a member, and once two has pushed it out
it is added again. -/
theorem seenSet_is_fifo_window_zero_again :
    let one : Bytes32 := BytesN.replicate 32 1
    let two : Bytes32 := BytesN.replicate 32 2
    ((new 2).addAll [zero32, one, zero32, two]).1 = [zero32, one, two] ∧
    ((((new 2).addAll [zero32, one, zero32, two]).2.add zero32).1 = false ↔
      ((new 2).addAll [zero32, one, zero32, two]).2.has zero32 = true) ∧
    (((new 2).addAll [zero32, one, zero32, two]).2.add zero32).1 = true := by
  refine ⟨by decide +kernel, (seenSet_is_fifo_window (by decide) _ zero32).2.2.2.1,
    by decide +kernel⟩

end BoundedHashSet

end Rubin.Node
