/-
# The DA prefetch planner

`da_prefetch.rs`.  A node that misses chunks of a DA set asks its peers for them.  The planner
remembers which chunk it has asked which peer for, so that no chunk is requested twice, and keeps the
bytes in flight under a cap per peer, a cap in total and a cap on the number of sets.  A reservation
goes when its chunk is no longer missing, when sending the request failed, or with its whole set when
the set's expiry has passed.

Byte counts and times are `Nat`: the counts stay far below 64 bits, and the one addition of times is
saturating.
-/
import Mathlib.Data.List.Destutter
import Mathlib.Data.List.Sort
import Rubin.Lib.Grid
import Rubin.Node.ChainState
import Rubin.Node.DaRelay

namespace Rubin.Node

open Rubin.Lib Rubin.Consensus

/-! ## 1. The planner -/

def daPrefetchPerPeerBytes : Nat := 4000000
def daPrefetchGlobalBytes : Nat := 32000000
def daPrefetchMaxConcurrentSets : Nat := 8
def daPrefetchRequestTtlNanos : Nat := 1000000000

structure DaRelayPrefetchPlan where
  daId : Bytes32
  peerKey : String
  indexes : List UInt16
deriving DecidableEq

structure DaRelayPrefetchState where
  /-- Which peer a chunk has been reserved for. -/
  indexes : Finmap fun _ : Bytes32 => Finmap fun _ : UInt16 => String
  expires : Finmap fun _ : Bytes32 => Nat

/-- `sort_unstable` and `dedup`. -/
def sortedUnique (missing : List UInt16) : List UInt16 :=
  (missing.insertionSort (· ≤ ·)).destutter (· ≠ ·)

/-- One turn of the loop that keeps the first occurrence of every key that is not empty. -/
def keepPeer (acc : Finset String × List String) (key : String) : Finset String × List String :=
  if key ≠ "" ∧ key ∉ acc.1 then (insert key acc.1, acc.2 ++ [key]) else acc

def uniquePeers (peerKeys : List String) : List String := (peerKeys.foldl keepPeer (∅, [])).2

def nextDaPrefetchPeer (peerKeys : List String) (peerBytes : Finmap fun _ : String => Nat)
    (globalBytes peerIndex : Nat) : Except String (String × Nat) :=
  if peerKeys = [] then .error ""
  else if globalBytes + chunkBytes > daPrefetchGlobalBytes then
    .error "da prefetch global byte cap exceeded"
  else
    let found := (List.range peerKeys.length).findSome? fun checked =>
      let idx := (peerIndex + checked) % peerKeys.length
      peerKeys[idx]?.bind fun key =>
        if count peerBytes key + chunkBytes ≤ daPrefetchPerPeerBytes then some (key, idx + 1)
        else none
    match found with
    | some next => .ok next
    | none => .error "da prefetch per-peer byte cap exceeded"

def buildDaPrefetchPlans (daId : Bytes32) (peerKeys : List String)
    (plansByPeer : Finmap fun _ : String => List UInt16) : List DaRelayPrefetchPlan :=
  peerKeys.filterMap fun key =>
    match plansByPeer.lookup key with
    | some indexes => if indexes ≠ [] then some ⟨daId, key, indexes⟩ else none
    | none => none

namespace DaRelayPrefetchState

def empty : DaRelayPrefetchState := ⟨∅, ∅⟩

variable (s : DaRelayPrefetchState)

def releaseSet (daId : Bytes32) : DaRelayPrefetchState :=
  ⟨s.indexes.erase daId, s.expires.erase daId⟩

def releaseExpired (nowNanos : Nat) : DaRelayPrefetchState :=
  let expired := (daIdOrder.entries s.expires).filter fun p => p.2 ≠ 0 ∧ nowNanos ≥ p.2
  (expired.map Prod.fst).foldl releaseSet s

def releaseFulfilled (daId : Bytes32) (missing : List UInt16) : DaRelayPrefetchState :=
  match s.indexes.lookup daId with
  | none => s
  | some set =>
    if set = ∅ then s
    else
      let kept := indexOrder.retain (fun index => decide (index ∈ missing)) set
      if kept = ∅ then s.releaseSet daId
      else { s with indexes := s.indexes.insert daId kept }

def releaseDaPrefetchPlan (plan : DaRelayPrefetchPlan) : DaRelayPrefetchState :=
  match s.indexes.lookup plan.daId with
  | none => s
  | some set =>
    let kept := plan.indexes.foldl
      (fun set index => if set.lookup index = some plan.peerKey then set.erase index else set) set
    if kept = ∅ then s.releaseSet plan.daId
    else { s with indexes := s.indexes.insert plan.daId kept }

def bytesInFlight : Nat × Finmap fun _ : String => Nat :=
  (daIdOrder.cells indexOrder s.indexes).foldl
    (fun acc peerKey => (acc.1 + chunkBytes, charge acc.2 peerKey chunkBytes)) (0, ∅)

def expirePlanned (daId : Bytes32) (plansByPeer : Finmap fun _ : String => List UInt16)
    (nowNanos : Nat) : DaRelayPrefetchState :=
  if plansByPeer = ∅ then s
  else { s with
    expires := s.expires.insert daId (min (nowNanos + daPrefetchRequestTtlNanos) u64Max) }

end DaRelayPrefetchState

/-- The variables of the loop of `reserve_missing`. -/
structure ReserveLoop where
  indexes : Finmap fun _ : Bytes32 => Finmap fun _ : UInt16 => String
  globalBytes : Nat
  peerBytes : Finmap fun _ : String => Nat
  plansByPeer : Finmap fun _ : String => List UInt16
  peerIndex : Nat

/-- What a turn writes for a chunk that is not in flight. -/
def ReserveLoop.assign (l : ReserveLoop) (daId : Bytes32) (index : UInt16) (peerKey : String)
    (peerIndex : Nat) : ReserveLoop where
  indexes := setCell l.indexes daId index peerKey
  globalBytes := l.globalBytes + chunkBytes
  peerBytes := charge l.peerBytes peerKey chunkBytes
  plansByPeer := l.plansByPeer.insert peerKey ((l.plansByPeer.lookup peerKey).getD [] ++ [index])
  peerIndex := peerIndex

/-- The loop, with the diagnostic it stops with. -/
def reserveLoop (daId : Bytes32) (peerKeys : List String) :
    List UInt16 → ReserveLoop → ReserveLoop × String
  | [], l => (l, "")
  | index :: missing, l =>
    if (cell l.indexes daId index).isSome then reserveLoop daId peerKeys missing l
    else
      match nextDaPrefetchPeer peerKeys l.peerBytes l.globalBytes l.peerIndex with
      | .error reason => (l, reason)
      | .ok (peerKey, peerIndex) =>
        reserveLoop daId peerKeys missing (l.assign daId index peerKey peerIndex)

/-- What a plan call returns, and the state it leaves. -/
structure PlanOutcome where
  state : DaRelayPrefetchState
  plans : List DaRelayPrefetchPlan
  diagnostic : String

namespace DaRelayPrefetchState

variable (s : DaRelayPrefetchState)

/-- Where the loop of `reserve_missing` starts. -/
def startLoop : ReserveLoop := ⟨s.indexes, s.bytesInFlight.1, s.bytesInFlight.2, ∅, 0⟩

/-- `reserve_missing`, with the plans built from what it reserved. -/
def reserveMissing (daId : Bytes32) (missing : List UInt16) (peerKeys : List String)
    (nowNanos : Nat) : PlanOutcome :=
  let done := reserveLoop daId peerKeys missing s.startLoop
  let reserved : DaRelayPrefetchState := { s with indexes := done.1.indexes }
  ⟨reserved.expirePlanned daId done.1.plansByPeer nowNanos,
    buildDaPrefetchPlans daId peerKeys done.1.plansByPeer, done.2⟩

def planDaPrefetch (daId : Bytes32) (missing : List UInt16) (peerKeys : List String)
    (nowNanos : Nat) : PlanOutcome :=
  let missing := sortedUnique missing
  let peers := uniquePeers peerKeys
  let s := s.releaseExpired nowNanos
  if missing = [] then ⟨s.releaseSet daId, [], ""⟩
  else
    let s := s.releaseFulfilled daId missing
    if peers = [] then ⟨s, [], ""⟩
    else if s.indexes.lookup daId = none ∧ s.indexes.keys.card ≥ daPrefetchMaxConcurrentSets then
      ⟨s, [], "da prefetch global set cap exceeded"⟩
    else s.reserveMissing daId missing peers nowNanos

/-- The peer a chunk is reserved for. -/
def reserved (daId : Bytes32) (index : UInt16) : Option String := cell s.indexes daId index

/-- The bytes in flight, in total and to one peer. -/
def globalBytes : Nat := gridTotal (fun _ => chunkBytes) s.indexes
def peerBytes (peerKey : String) : Nat :=
  gridTotal (fun key => if key = peerKey then chunkBytes else 0) s.indexes

end DaRelayPrefetchState

/-! ## 2. Releases -/

theorem bytes_loop (keys : List String) : ∀ acc : Nat × Finmap fun _ : String => Nat,
    let r := keys.foldl (fun acc peerKey => (acc.1 + chunkBytes, charge acc.2 peerKey chunkBytes)) acc
    r.1 = acc.1 + (keys.map fun _ => chunkBytes).sum ∧
      ∀ key, count r.2 key = count acc.2 key +
        (keys.map fun k => if k = key then chunkBytes else 0).sum := by
  induction keys with
  | nil => exact fun _ => ⟨rfl, fun _ => rfl⟩
  | cons k keys ih =>
    intro acc
    obtain ⟨hglobal, hpeer⟩ := ih (acc.1 + chunkBytes, charge acc.2 k chunkBytes)
    refine ⟨?_, fun key => ?_⟩
    · rw [List.foldl_cons, hglobal, List.map_cons, List.sum_cons]
      omega
    · rw [List.foldl_cons, hpeer, List.map_cons, List.sum_cons, count_charge]
      omega

variable {daId : Bytes32} {index : UInt16} {key : String} {missing rest : List UInt16}
  {peerKeys : List String} {s : DaRelayPrefetchState} {l : ReserveLoop}

namespace DaRelayPrefetchState

variable {s s' : DaRelayPrefetchState}

theorem bytesInFlight_spec (s : DaRelayPrefetchState) :
    s.bytesInFlight.1 = s.globalBytes ∧ ∀ key, count s.bytesInFlight.2 key = s.peerBytes key := by
  obtain ⟨hglobal, hpeer⟩ := bytes_loop (daIdOrder.cells indexOrder s.indexes) (0, ∅)
  refine ⟨?_, fun key => ?_⟩
  · rw [bytesInFlight, hglobal, VisitOrder.sum_cells, Nat.zero_add]
    rfl
  · rw [bytesInFlight, hpeer, VisitOrder.sum_cells, count_empty, Nat.zero_add]
    rfl

/-- The state keeps its caps: what holds between any two calls. -/
structure Inv (s : DaRelayPrefetchState) : Prop where
  sets : s.indexes.keys.card ≤ daPrefetchMaxConcurrentSets
  nonempty : ∀ daId set, s.indexes.lookup daId = some set → set ≠ ∅
  expiry : ∀ daId set, s.indexes.lookup daId = some set →
    ∃ expiresAt, s.expires.lookup daId = some expiresAt
  timed : ∀ daId expiresAt, s.expires.lookup daId = some expiresAt → expiresAt ≠ 0
  peer : ∀ key, s.peerBytes key ≤ daPrefetchPerPeerBytes
  global : s.globalBytes ≤ daPrefetchGlobalBytes

theorem inv_empty : empty.Inv where
  sets := by simp [empty]
  nonempty := by simp [empty]
  expiry := by simp [empty]
  timed := by simp [empty]
  peer := by simp [peerBytes, gridTotal, empty, total_empty]
  global := by simp [globalBytes, gridTotal, empty, total_empty]

/-- `s'` is what some releases have left of `s`. -/
structure Released (s s' : DaRelayPrefetchState) : Prop where
  rows : ∀ daId set', s'.indexes.lookup daId = some set' → set' ≠ ∅ ∧
    ∃ set, s.indexes.lookup daId = some set ∧
      ∀ index key, set'.lookup index = some key → set.lookup index = some key
  kept : ∀ daId set', s'.indexes.lookup daId = some set' →
    s'.expires.lookup daId = s.expires.lookup daId
  timed : ∀ daId expiresAt, s'.expires.lookup daId = some expiresAt →
    s.expires.lookup daId = some expiresAt

theorem Released.refl (h : s.Inv) : Released s s where
  rows := fun daId set hset => ⟨h.nonempty daId set hset, set, hset, fun _ _ hkey => hkey⟩
  kept := fun _ _ _ => rfl
  timed := fun _ _ ht => ht

theorem Released.cells (h : Released s s') (hkey : cell s'.indexes daId index = some key) :
    cell s.indexes daId index = some key := by
  obtain ⟨set', hset', hkey⟩ := cell_eq_some.mp hkey
  obtain ⟨-, set, hset, hsub⟩ := h.rows daId set' hset'
  exact cell_eq_some.mpr ⟨set, hset, hsub index key hkey⟩

/-- **Releases keep the caps.** -/
theorem Released.inv (h : Released s s') (hinv : s.Inv) : s'.Inv where
  sets := by
    refine (Finset.card_le_card fun daId hmem => ?_).trans hinv.sets
    obtain ⟨set', hset'⟩ := mem_keys_iff.mp hmem
    obtain ⟨-, set, hset, -⟩ := h.rows daId set' hset'
    exact mem_keys_iff.mpr ⟨set, hset⟩
  nonempty := fun daId set' hset' => (h.rows daId set' hset').1
  expiry := by
    intro daId set' hset'
    obtain ⟨-, set, hset, -⟩ := h.rows daId set' hset'
    rw [h.kept daId set' hset']
    exact hinv.expiry daId set hset
  timed := fun daId expiresAt ht => hinv.timed daId expiresAt (h.timed daId expiresAt ht)
  peer := fun key => (gridTotal_mono _ fun _ _ _ hc => h.cells hc).trans (hinv.peer key)
  global := (gridTotal_mono _ fun _ _ _ hc => h.cells hc).trans hinv.global

theorem Released.trans {s'' : DaRelayPrefetchState} (h : Released s s') (h' : Released s' s'') :
    Released s s'' where
  rows := by
    intro daId set'' hset''
    obtain ⟨hne, set', hset', hsub'⟩ := h'.rows daId set'' hset''
    obtain ⟨-, set, hset, hsub⟩ := h.rows daId set' hset'
    exact ⟨hne, set, hset, fun index key hkey => hsub index key (hsub' index key hkey)⟩
  kept := by
    intro daId set'' hset''
    obtain ⟨-, set', hset', -⟩ := h'.rows daId set'' hset''
    rw [h'.kept daId set'' hset'', h.kept daId set' hset']
  timed := fun daId expiresAt ht => h.timed daId expiresAt (h'.timed daId expiresAt ht)

theorem released_releaseSet (h : s.Inv) (daId : Bytes32) : Released s (s.releaseSet daId) where
  rows := by
    intro daId' set' hset'
    rw [releaseSet, lookup_erase_eq] at hset'
    split at hset'
    · cases hset'
    · exact ⟨h.nonempty daId' set' hset', set', hset', fun _ _ hkey => hkey⟩
  kept := by
    intro daId' set' hset'
    rw [releaseSet, lookup_erase_eq] at hset'
    rw [releaseSet, lookup_erase_eq]
    split at hset'
    · cases hset'
    · rename_i hne
      rw [if_neg hne]
  timed := by
    intro daId' expiresAt ht
    rw [releaseSet, lookup_erase_eq] at ht
    split at ht
    · cases ht
    · exact ht

theorem released_insert (h : s.Inv) {set kept : Finmap fun _ : UInt16 => String}
    (hset : s.indexes.lookup daId = some set) (hne : kept ≠ ∅)
    (hsub : ∀ index key, kept.lookup index = some key → set.lookup index = some key) :
    Released s { s with indexes := s.indexes.insert daId kept } where
  rows := by
    intro daId' set' hset'
    dsimp only at hset'
    rw [lookup_insert_eq] at hset'
    split at hset'
    · rename_i heq
      cases hset'
      rw [heq]
      exact ⟨hne, set, hset, hsub⟩
    · exact ⟨h.nonempty daId' set' hset', set', hset', fun _ _ hkey => hkey⟩
  kept := fun _ _ _ => rfl
  timed := fun _ _ ht => ht

theorem released_releaseFulfilled (h : s.Inv) (daId : Bytes32) (missing : List UInt16) :
    Released s (s.releaseFulfilled daId missing) := by
  unfold releaseFulfilled
  cases hset : s.indexes.lookup daId with
  | none => exact .refl h
  | some set =>
    dsimp only
    rw [if_neg (h.nonempty daId set hset)]
    split
    · exact released_releaseSet h daId
    · rename_i hne
      refine released_insert h hset hne fun index key hkey => ?_
      rw [VisitOrder.lookup_retain] at hkey
      split at hkey
      · exact hkey
      · cases hkey

theorem reserved_releaseFulfilled (h : s.Inv) (hindex : index ∈ missing) :
    (s.releaseFulfilled daId missing).reserved daId index = s.reserved daId index := by
  unfold releaseFulfilled
  cases hset : s.indexes.lookup daId with
  | none => rfl
  | some set =>
    dsimp only
    rw [if_neg (h.nonempty daId set hset)]
    have hkept : ∀ kept, indexOrder.retain (fun index => decide (index ∈ missing)) set = kept →
        kept.lookup index = set.lookup index := by
      rintro _ rfl
      rw [VisitOrder.lookup_retain, if_pos (decide_eq_true hindex)]
    split
    · rename_i hempty
      have hnone := hkept _ hempty
      rw [Finmap.lookup_empty] at hnone
      rw [reserved, reserved, releaseSet, cell_erase, if_pos rfl, cell_of_lookup hset, hnone]
    · rw [reserved, reserved, cell_of_lookup (Finmap.lookup_insert _), cell_of_lookup hset,
        hkept _ rfl]

theorem lookup_dropIndexes (peerKey : String) (indexes : List UInt16) :
    ∀ (set : Finmap fun _ : UInt16 => String) (index : UInt16) (key : String),
      (indexes.foldl (fun set index => if set.lookup index = some peerKey then set.erase index
        else set) set).lookup index = some key → set.lookup index = some key := by
  induction indexes with
  | nil => exact fun _ _ _ h => h
  | cons i indexes ih =>
    intro set index key h
    have hrest := ih _ index key h
    dsimp only at hrest
    split at hrest
    · rw [lookup_erase_eq] at hrest
      split at hrest
      · cases hrest
      · exact hrest
    · exact hrest

theorem released_releaseDaPrefetchPlan (h : s.Inv) (plan : DaRelayPrefetchPlan) :
    Released s (s.releaseDaPrefetchPlan plan) := by
  unfold releaseDaPrefetchPlan
  cases hset : s.indexes.lookup plan.daId with
  | none => exact .refl h
  | some set =>
    dsimp only
    split
    · exact released_releaseSet h plan.daId
    · rename_i hne
      exact released_insert h hset hne fun index key hkey =>
        lookup_dropIndexes plan.peerKey plan.indexes set index key hkey

theorem released_releaseSets (daIds : List Bytes32) (h : s.Inv) :
    Released s (daIds.foldl releaseSet s) := by
  induction daIds generalizing s with
  | nil => exact .refl h
  | cons daId daIds ih =>
    have hone := released_releaseSet h daId
    exact hone.trans (ih (hone.inv h))

theorem released_releaseExpired (h : s.Inv) (nowNanos : Nat) :
    Released s (s.releaseExpired nowNanos) :=
  released_releaseSets _ h

end DaRelayPrefetchState

/-! ## 3. Reserving -/

theorem mem_destutter_ne {α : Type} [DecidableEq α] {a : α} (l : List α) :
    ∀ b, (a ∈ b :: l → a ∈ l.destutter' (· ≠ ·) b) := by
  induction l with
  | nil => exact fun b h => h
  | cons c l ih =>
    intro b h
    by_cases hbc : b = c
    · rw [List.destutter'_cons_neg _ (not_not.mpr hbc)]
      refine ih b ?_
      rcases List.mem_cons.mp h with h | h
      · exact h ▸ List.mem_cons_self
      · exact hbc ▸ h
    · rw [List.destutter'_cons_pos _ hbc]
      rcases List.mem_cons.mp h with h | h
      · exact h ▸ List.mem_cons_self
      · exact List.mem_cons_of_mem _ (ih c h)

theorem mem_sortedUnique : index ∈ sortedUnique missing ↔ index ∈ missing := by
  unfold sortedUnique
  rw [← List.mem_insertionSort (· ≤ ·) (l := missing)]
  cases missing.insertionSort (· ≤ ·) with
  | nil => rfl
  | cons b l =>
    constructor
    · exact fun h => (List.destutter'_sublist _ _ b).mem h
    · exact mem_destutter_ne l b

theorem pairwise_lt_of_chain {l : List UInt16} (hchain : l.IsChain (· ≠ ·))
    (hsorted : l.Pairwise (· ≤ ·)) : l.Pairwise (· < ·) := by
  induction l with
  | nil => exact .nil
  | cons a l ih =>
    refine List.pairwise_cons.mpr ⟨fun b hb => ?_, ih hchain.of_cons hsorted.of_cons⟩
    cases l with
    | nil => cases hb
    | cons c l =>
      have hac : a ≠ c := (List.isChain_cons_cons.mp hchain).1
      have hle : a ≤ c := List.rel_of_pairwise_cons hsorted List.mem_cons_self
      have hcb : c ≤ b := by
        rcases List.mem_cons.mp hb with rfl | hb
        · exact UInt16.le_refl b
        · exact List.rel_of_pairwise_cons hsorted.of_cons hb
      exact UInt16.lt_of_lt_of_le (UInt16.lt_of_le_of_ne hle hac) hcb

theorem pairwise_sortedUnique (missing : List UInt16) : (sortedUnique missing).Pairwise (· < ·) := by
  have : Std.Total (fun a b : UInt16 => a ≤ b) := ⟨UInt16.le_total⟩
  have : IsTrans UInt16 (fun a b => a ≤ b) := ⟨fun _ _ _ => UInt16.le_trans⟩
  have hsorted := List.pairwise_insertionSort (fun a b : UInt16 => a ≤ b) missing
  refine pairwise_lt_of_chain (List.isChain_destutter _ _) ?_
  exact hsorted.sublist (List.destutter_sublist _ _)

theorem nextDaPrefetchPeer_ok {peerBytes : Finmap fun _ : String => Nat}
    {globalBytes peerIndex next : Nat}
    (h : nextDaPrefetchPeer peerKeys peerBytes globalBytes peerIndex = .ok (key, next)) :
    key ∈ peerKeys ∧ globalBytes + chunkBytes ≤ daPrefetchGlobalBytes ∧
      count peerBytes key + chunkBytes ≤ daPrefetchPerPeerBytes := by
  unfold nextDaPrefetchPeer at h
  split at h
  · cases h
  · split at h
    · cases h
    · rename_i hglobal
      dsimp only at h
      split at h
      · rename_i found hfound
        cases h
        obtain ⟨checked, -, hchecked⟩ := List.exists_of_findSome?_eq_some hfound
        obtain ⟨key', hkey', hroom⟩ := Option.bind_eq_some_iff.mp hchecked
        split at hroom
        · rename_i hle
          cases hroom
          exact ⟨List.mem_of_getElem? hkey', Nat.le_of_not_lt hglobal, hle⟩
        · cases hroom
      · cases h

theorem nextDaPrefetchPeer_error {peerBytes : Finmap fun _ : String => Nat}
    {globalBytes peerIndex : Nat} {reason : String} (hpeers : peerKeys ≠ [])
    (h : nextDaPrefetchPeer peerKeys peerBytes globalBytes peerIndex = .error reason) :
    reason ≠ "" := by
  unfold nextDaPrefetchPeer at h
  rw [if_neg hpeers] at h
  split at h
  · cases h
    decide
  · dsimp only at h
    split at h
    · cases h
    · cases h
      decide

/-- What holds between two turns of the loop, with `rest` still to come: the books are the cells and
within the caps, and the plans list what has been reserved since the start. -/
structure LoopInv (s : DaRelayPrefetchState) (daId : Bytes32) (peerKeys : List String)
    (missing rest : List UInt16) (l : ReserveLoop) : Prop where
  globalBook : l.globalBytes = gridTotal (fun _ => chunkBytes) l.indexes
  peerBook : ∀ key, count l.peerBytes key =
    gridTotal (fun k => if k = key then chunkBytes else 0) l.indexes
  global : l.globalBytes ≤ daPrefetchGlobalBytes
  peer : ∀ key, count l.peerBytes key ≤ daPrefetchPerPeerBytes
  others : ∀ daId', daId' ≠ daId → l.indexes.lookup daId' = s.indexes.lookup daId'
  nonempty : ∀ set, l.indexes.lookup daId = some set → set ≠ ∅
  unplanned : l.plansByPeer = ∅ → l.indexes = s.indexes
  older : ∀ index key, cell s.indexes daId index = some key → cell l.indexes daId index = some key
  newer : ∀ index key, cell l.indexes daId index = some key → cell s.indexes daId index = none →
    ∃ indexes, l.plansByPeer.lookup key = some indexes ∧ index ∈ indexes
  planned : ∀ key indexes, l.plansByPeer.lookup key = some indexes →
    key ∈ peerKeys ∧ indexes ≠ [] ∧ indexes.Pairwise (· < ·) ∧
      ∀ index ∈ indexes, index ∈ missing ∧ cell s.indexes daId index = none ∧
        cell l.indexes daId index = some key ∧ ∀ later ∈ rest, index < later

theorem loopInv_start (h : s.Inv) (daId : Bytes32) (peerKeys : List String) (missing : List UInt16)
    :
    LoopInv s daId peerKeys missing missing s.startLoop := by
  obtain ⟨hglobal, hpeer⟩ := s.bytesInFlight_spec
  exact {
    globalBook := hglobal
    peerBook := hpeer
    global := hglobal.trans_le h.global
    peer := fun key => (hpeer key).trans_le (h.peer key)
    others := fun _ _ => rfl
    nonempty := h.nonempty daId
    unplanned := fun _ => rfl
    older := fun _ _ hc => hc
    newer := fun _ _ hc hnone => by
      rw [DaRelayPrefetchState.startLoop, hnone] at hc
      cases hc
    planned := fun _ _ hp => by
      rw [DaRelayPrefetchState.startLoop, Finmap.lookup_empty] at hp
      cases hp }

theorem LoopInv.shrink {rest' : List UInt16} (h : LoopInv s daId peerKeys missing rest l)
    (hsub : rest' ⊆ rest) : LoopInv s daId peerKeys missing rest' l :=
  { h with
    planned := by
      intro key indexes hp
      obtain ⟨hkey, hne, hsorted, hall⟩ := h.planned key indexes hp
      refine ⟨hkey, hne, hsorted, fun index hindex => ?_⟩
      obtain ⟨hmissing, hnew, hcell, hlater⟩ := hall index hindex
      exact ⟨hmissing, hnew, hcell, fun later hmem => hlater later (hsub hmem)⟩ }

/-- **One turn** that reserves a chunk. -/
theorem LoopInv.assign {next : Nat} (h : LoopInv s daId peerKeys missing (index :: rest) l)
    (hmem : index ∈ missing) (hsorted : (index :: rest).Pairwise (· < ·))
    (hfree : cell l.indexes daId index = none)
    (hnext : nextDaPrefetchPeer peerKeys l.peerBytes l.globalBytes l.peerIndex = .ok (key, next)) :
    LoopInv s daId peerKeys missing rest (l.assign daId index key next) := by
  obtain ⟨hkey, hglobal, hpeer⟩ := nextDaPrefetchPeer_ok hnext
  have hlater : ∀ later ∈ rest, index < later := fun _ => List.rel_of_pairwise_cons hsorted
  have hnew : cell s.indexes daId index = none := by
    cases hc : cell s.indexes daId index with
    | none => rfl
    | some key' =>
      rw [h.older index key' hc] at hfree
      cases hfree
  have hcells : ∀ index' key', cell l.indexes daId index' = some key' →
      cell (setCell l.indexes daId index key) daId index' = some key' := by
    intro index' key' hc
    rw [cell_setCell, if_neg, hc]
    rintro ⟨-, rfl⟩
    rw [hc] at hfree
    cases hfree
  refine {
    globalBook := ?_, peerBook := ?_, global := hglobal, peer := ?_, others := ?_, nonempty := ?_,
    unplanned := ?_, older := fun i k hc => hcells i k (h.older i k hc), newer := ?_, planned := ?_ }
  · rw [ReserveLoop.assign, gridTotal_setCell _ hfree, h.globalBook]
  · intro key'
    rw [ReserveLoop.assign, gridTotal_setCell _ hfree, count_charge, h.peerBook]
  · intro key'
    rw [ReserveLoop.assign, count_charge]
    split
    · rename_i heq
      rw [← heq]
      exact hpeer
    · exact h.peer key'
  · intro daId' hne
    rw [ReserveLoop.assign, setCell, lookup_insert_eq, if_neg hne]
    exact h.others daId' hne
  · intro set hset hempty
    rw [ReserveLoop.assign, setCell, Finmap.lookup_insert] at hset
    cases hset
    have hcell := congrArg (Finmap.lookup index) hempty
    rw [Finmap.lookup_insert, Finmap.lookup_empty] at hcell
    cases hcell
  · intro hempty
    have hlook := congrArg (Finmap.lookup key) hempty
    rw [ReserveLoop.assign, Finmap.lookup_insert, Finmap.lookup_empty] at hlook
    cases hlook
  · intro index' key' hc hold
    rw [ReserveLoop.assign, cell_setCell] at hc
    split at hc
    · rename_i heq
      cases hc
      refine ⟨_, Finmap.lookup_insert _, ?_⟩
      rw [heq.2]
      exact List.mem_append_right _ List.mem_cons_self
    · obtain ⟨indexes, hp, hin⟩ := h.newer index' key' hc hold
      rw [ReserveLoop.assign, lookup_insert_eq]
      split
      · rename_i heq
        refine ⟨_, rfl, List.mem_append_left _ ?_⟩
        rw [← heq, hp]
        exact hin
      · exact ⟨indexes, hp, hin⟩
  · intro key' indexes hp
    rw [ReserveLoop.assign, lookup_insert_eq] at hp
    split at hp
    · rename_i heq
      cases hp
      -- the peer's list so far, empty when the peer had none
      have hbefore : ∀ i ∈ (l.plansByPeer.lookup key).getD [], i ∈ missing ∧
          cell s.indexes daId i = none ∧ cell l.indexes daId i = some key ∧
            ∀ later ∈ index :: rest, i < later := by
        intro i hi
        cases hlist : l.plansByPeer.lookup key with
        | none =>
          rw [hlist] at hi
          cases hi
        | some list =>
          rw [hlist] at hi
          exact (h.planned key list hlist).2.2.2 i hi
      have hpair : ((l.plansByPeer.lookup key).getD []).Pairwise (· < ·) := by
        cases hlist : l.plansByPeer.lookup key with
        | none => exact .nil
        | some list => exact (h.planned key list hlist).2.2.1
      refine ⟨heq ▸ hkey, by simp, ?_, fun i hi => ?_⟩
      · refine List.pairwise_append.mpr ⟨hpair, List.pairwise_singleton _ _, fun a ha b hb => ?_⟩
        rw [List.mem_singleton.mp hb]
        exact (hbefore a ha).2.2.2 index List.mem_cons_self
      · rw [heq]
        rcases List.mem_append.mp hi with hi | hi
        · obtain ⟨hmissing, hold, hcell, hlt⟩ := hbefore i hi
          exact ⟨hmissing, hold, hcells i key hcell,
            fun later hr => hlt later (List.mem_cons_of_mem _ hr)⟩
        · rw [List.mem_singleton.mp hi]
          refine ⟨hmem, hnew, ?_, hlater⟩
          rw [ReserveLoop.assign, cell_setCell, if_pos ⟨rfl, rfl⟩]
    · obtain ⟨hkey', hne, hpair, hall⟩ := h.planned key' indexes hp
      refine ⟨hkey', hne, hpair, fun i hi => ?_⟩
      obtain ⟨hmissing, hold, hcell, hlt⟩ := hall i hi
      exact ⟨hmissing, hold, hcells i key' hcell,
        fun later hr => hlt later (List.mem_cons_of_mem _ hr)⟩

/-- **The whole loop.**  An empty diagnostic means that every missing chunk is in flight. -/
theorem reserveLoop_spec (hpeers : peerKeys ≠ []) (rest : List UInt16) :
    ∀ l : ReserveLoop, LoopInv s daId peerKeys missing rest l → rest ⊆ missing →
      rest.Pairwise (· < ·) →
      LoopInv s daId peerKeys missing [] (reserveLoop daId peerKeys rest l).1 ∧
      (∀ index key, cell l.indexes daId index = some key →
        cell (reserveLoop daId peerKeys rest l).1.indexes daId index = some key) ∧
      ((reserveLoop daId peerKeys rest l).2 = "" → ∀ index ∈ rest,
        (cell (reserveLoop daId peerKeys rest l).1.indexes daId index).isSome) := by
  induction rest with
  | nil => exact fun l h _ _ => ⟨h, fun _ _ hc => hc, fun _ _ hmem => nomatch hmem⟩
  | cons index rest ih =>
    intro l h hsub hsorted
    have hsub' : rest ⊆ missing := fun i hi => hsub (List.mem_cons_of_mem _ hi)
    rw [reserveLoop]
    split
    · rename_i hflight
      obtain ⟨hinv, hkeep, hdone⟩ :=
        ih l (h.shrink (List.subset_cons_self _ _)) hsub' hsorted.of_cons
      refine ⟨hinv, hkeep, fun hdiag i hi => ?_⟩
      rcases List.mem_cons.mp hi with rfl | hi
      · obtain ⟨key, hkey⟩ := Option.isSome_iff_exists.mp hflight
        rw [hkeep i key hkey]
        rfl
      · exact hdone hdiag i hi
    · rename_i hflight
      have hfree : cell l.indexes daId index = none := by simpa using hflight
      split
      · rename_i reason hnext
        exact ⟨h.shrink (List.nil_subset _), fun _ _ hc => hc,
          fun hdiag => absurd hdiag (nextDaPrefetchPeer_error hpeers hnext)⟩
      · rename_i key next hnext
        obtain ⟨hinv, hkeep, hdone⟩ :=
          ih _ (h.assign (hsub List.mem_cons_self) hsorted hfree hnext) hsub' hsorted.of_cons
        have hstep : ∀ i k, cell l.indexes daId i = some k →
            cell (l.assign daId index key next).indexes daId i = some k := by
          intro i k hc
          rw [ReserveLoop.assign, cell_setCell, if_neg, hc]
          rintro ⟨-, rfl⟩
          rw [hc] at hfree
          cases hfree
        refine ⟨hinv, fun i k hc => hkeep i k (hstep i k hc), fun hdiag i hi => ?_⟩
        rcases List.mem_cons.mp hi with rfl | hi
        · rw [hkeep i key (by rw [ReserveLoop.assign, cell_setCell, if_pos ⟨rfl, rfl⟩])]
          rfl
        · exact hdone hdiag i hi

/-! ## 4. One plan call -/

theorem keepPeers_spec (peerKeys : List String) : ∀ acc : Finset String × List String,
    (∀ key, key ∈ acc.1 ↔ key ∈ acc.2) → acc.2.Nodup →
    (peerKeys.foldl keepPeer acc).2.Nodup ∧ ∀ key, key ∈ (peerKeys.foldl keepPeer acc).2 ↔
      key ∈ acc.2 ∨ (key ∈ peerKeys ∧ key ≠ "") := by
  induction peerKeys with
  | nil => exact fun acc _ hnodup => ⟨hnodup, fun key => by simp⟩
  | cons key peerKeys ih =>
    intro acc hseen hnodup
    rw [List.foldl_cons, keepPeer]
    split
    · rename_i hnew
      have hfresh : key ∉ acc.2 := fun hmem => hnew.2 ((hseen key).mpr hmem)
      have hseen' : ∀ k, k ∈ insert key acc.1 ↔ k ∈ acc.2 ++ [key] := by
        intro k
        rw [Finset.mem_insert, List.mem_append, List.mem_singleton, hseen, or_comm]
      obtain ⟨hdistinct, hmem⟩ := ih (insert key acc.1, acc.2 ++ [key]) hseen'
        (List.nodup_append.mpr ⟨hnodup, List.nodup_singleton _, fun a ha b hb hab => hfresh
          (by rw [← List.mem_singleton.mp hb, ← hab]; exact ha)⟩)
      refine ⟨hdistinct, fun k => ?_⟩
      rw [hmem, List.mem_append, List.mem_singleton, List.mem_cons]
      constructor
      · rintro ((h | rfl) | h)
        · exact .inl h
        · exact .inr ⟨.inl rfl, hnew.1⟩
        · exact .inr ⟨.inr h.1, h.2⟩
      · rintro (h | ⟨rfl | h, hne⟩)
        · exact .inl (.inl h)
        · exact .inl (.inr rfl)
        · exact .inr ⟨h, hne⟩
    · rename_i hold
      obtain ⟨hdistinct, hmem⟩ := ih acc hseen hnodup
      refine ⟨hdistinct, fun k => ?_⟩
      rw [hmem, List.mem_cons]
      constructor
      · rintro (h | h)
        · exact .inl h
        · exact .inr ⟨.inr h.1, h.2⟩
      · rintro (h | ⟨rfl | h, hne⟩)
        · exact .inl h
        · refine .inl ((hseen k).mp ?_)
          by_contra hk
          exact hold ⟨hne, hk⟩
        · exact .inr ⟨h, hne⟩

theorem nodup_uniquePeers (peerKeys : List String) : (uniquePeers peerKeys).Nodup :=
  (keepPeers_spec peerKeys (∅, []) (by simp) .nil).1

theorem mem_uniquePeers : key ∈ uniquePeers peerKeys ↔ key ∈ peerKeys ∧ key ≠ "" := by
  rw [uniquePeers, (keepPeers_spec peerKeys (∅, []) (by simp) .nil).2]
  simp

theorem mem_buildDaPrefetchPlans {plansByPeer : Finmap fun _ : String => List UInt16}
    {plan : DaRelayPrefetchPlan} :
    plan ∈ buildDaPrefetchPlans daId peerKeys plansByPeer ↔
      plan.daId = daId ∧ plan.peerKey ∈ peerKeys ∧ plan.indexes ≠ [] ∧
        plansByPeer.lookup plan.peerKey = some plan.indexes := by
  rw [buildDaPrefetchPlans, List.mem_filterMap]
  constructor
  · rintro ⟨key, hkey, h⟩
    split at h
    · rename_i indexes hlook
      split at h
      · rename_i hne
        cases h
        exact ⟨rfl, hkey, hne, hlook⟩
      · cases h
    · cases h
  · rintro ⟨rfl, hkey, hne, hlook⟩
    refine ⟨plan.peerKey, hkey, ?_⟩
    rw [hlook]
    dsimp only
    rw [if_pos hne]

theorem nodup_buildDaPrefetchPlans (plansByPeer : Finmap fun _ : String => List UInt16)
    (h : peerKeys.Nodup) :
    ((buildDaPrefetchPlans daId peerKeys plansByPeer).map DaRelayPrefetchPlan.peerKey).Nodup := by
  induction peerKeys with
  | nil => exact .nil
  | cons key peerKeys ih =>
    rw [List.nodup_cons] at h
    rw [buildDaPrefetchPlans, List.filterMap_cons]
    split
    · exact ih h.2
    · rename_i plan hplan
      have hkey : plan.peerKey = key := by
        split at hplan
        · split at hplan
          · cases hplan
            rfl
          · cases hplan
        · cases hplan
      refine List.nodup_cons.mpr ⟨fun hmem => ?_, ih h.2⟩
      obtain ⟨other, hother, heq⟩ := List.mem_map.mp hmem
      have := (mem_buildDaPrefetchPlans.mp hother).2.1
      rw [heq, hkey] at this
      exact h.1 this

/-- What a plan call does from `mid` on, the state its releases have left. -/
structure Plans (mid : DaRelayPrefetchState) (daId : Bytes32) (missing : List UInt16)
    (peerKeys : List String) (nowNanos : Nat) (r : PlanOutcome) : Prop where
  inv : r.state.Inv
  older : ∀ daId' index key, mid.reserved daId' index = some key →
    r.state.reserved daId' index = some key
  newer : ∀ daId' index key, r.state.reserved daId' index = some key →
    mid.reserved daId' index = none →
    ∃ plan ∈ r.plans, plan.daId = daId' ∧ index ∈ plan.indexes
  plans : ∀ plan ∈ r.plans, plan.daId = daId ∧ plan.peerKey ∈ peerKeys ∧
    plan.indexes.Pairwise (· < ·) ∧ ∀ index ∈ plan.indexes, index ∈ missing ∧
      mid.reserved daId index = none ∧ r.state.reserved daId index = some plan.peerKey
  filled : ∀ plan ∈ r.plans, plan.indexes ≠ []
  distinct : (r.plans.map DaRelayPrefetchPlan.peerKey).Nodup
  quiet : r.plans = [] → r.state.expires = mid.expires
  renewed : r.plans ≠ [] → r.state.expires =
    mid.expires.insert daId (min (nowNanos + daPrefetchRequestTtlNanos) u64Max)
  complete : (∃ key ∈ peerKeys, key ≠ "") → r.diagnostic = "" →
    ∀ index ∈ missing, ∃ key, r.state.reserved daId index = some key

namespace DaRelayPrefetchState

variable {s mid : DaRelayPrefetchState}

theorem plans_nothing (h : mid.Inv) (daId : Bytes32) (nowNanos : Nat) {diagnostic : String}
    (hdone : (∃ key ∈ peerKeys, key ≠ "") → diagnostic = "" → missing = []) :
    Plans mid daId missing peerKeys nowNanos ⟨mid, [], diagnostic⟩ where
  inv := h
  older := fun _ _ _ hr => hr
  newer := by
    intro daId' index key hr hnone
    rw [hr] at hnone
    cases hnone
  plans := fun _ hmem => nomatch hmem
  filled := fun _ hmem => nomatch hmem
  distinct := .nil
  quiet := fun _ => rfl
  renewed := fun hne => absurd rfl hne
  complete := by
    intro hkey hdiag index hindex
    rw [hdone hkey hdiag] at hindex
    cases hindex

theorem LoopInv.card_le (h : LoopInv mid daId peerKeys missing rest l) (hinv : mid.Inv)
    (hroom : mid.indexes.lookup daId = none → mid.indexes.keys.card < daPrefetchMaxConcurrentSets) :
    l.indexes.keys.card ≤ daPrefetchMaxConcurrentSets := by
  have hsub : l.indexes.keys ⊆ insert daId mid.indexes.keys := by
    intro daId' hmem
    by_cases heq : daId' = daId
    · exact Finset.mem_insert.mpr (.inl heq)
    · obtain ⟨set, hset⟩ := mem_keys_iff.mp hmem
      rw [h.others daId' heq] at hset
      exact Finset.mem_insert_of_mem (mem_keys_iff.mpr ⟨set, hset⟩)
  refine (Finset.card_le_card hsub).trans ?_
  cases hset : mid.indexes.lookup daId with
  | none => exact (Finset.card_insert_le _ _).trans (hroom hset)
  | some set =>
    rw [Finset.insert_eq_self.mpr (mem_keys_iff.mpr ⟨set, hset⟩)]
    exact hinv.sets

theorem expirePlanned_eq (s : DaRelayPrefetchState) (daId : Bytes32)
    (plansByPeer : Finmap fun _ : String => List UInt16) (nowNanos : Nat) :
    s.expirePlanned daId plansByPeer nowNanos = ⟨s.indexes,
      if plansByPeer = ∅ then s.expires
      else s.expires.insert daId (min (nowNanos + daPrefetchRequestTtlNanos) u64Max)⟩ := by
  unfold expirePlanned
  split
  · rfl
  · rfl

theorem inv_reserved (hinv : mid.Inv) (hloop : LoopInv mid daId peerKeys missing rest l)
    (hroom : mid.indexes.lookup daId = none → mid.indexes.keys.card < daPrefetchMaxConcurrentSets)
    (nowNanos : Nat) :
    Inv ⟨l.indexes, if l.plansByPeer = ∅ then mid.expires
      else mid.expires.insert daId (min (nowNanos + daPrefetchRequestTtlNanos) u64Max)⟩ where
  sets := LoopInv.card_le hloop hinv hroom
  nonempty := by
    intro daId' set hset
    by_cases heq : daId' = daId
    · rw [heq] at hset
      exact hloop.nonempty set hset
    · dsimp only at hset
      rw [hloop.others daId' heq] at hset
      exact hinv.nonempty daId' set hset
  expiry := by
    intro daId' set hset
    dsimp only at hset ⊢
    split
    · rename_i hempty
      rw [hloop.unplanned hempty] at hset
      exact hinv.expiry daId' set hset
    · rw [lookup_insert_eq]
      split
      · exact ⟨_, rfl⟩
      · rename_i heq
        rw [hloop.others daId' heq] at hset
        exact hinv.expiry daId' set hset
  timed := by
    intro daId' expiresAt ht
    dsimp only at ht
    split at ht
    · exact hinv.timed daId' expiresAt ht
    · rw [lookup_insert_eq] at ht
      split at ht
      · rw [← Option.some.inj ht]
        exact Nat.pos_iff_ne_zero.mp (Nat.lt_min.mpr ⟨Nat.add_pos_right _ (by decide), by decide⟩)
      · exact hinv.timed daId' expiresAt ht
  peer := fun key => (hloop.peerBook key).symm.trans_le (hloop.peer key)
  global := hloop.globalBook.symm.trans_le hloop.global

/-- **Reserving** under the caps. -/
theorem plans_reserveMissing (hinv : mid.Inv) (nowNanos : Nat)
    (hroom : mid.indexes.lookup daId = none → mid.indexes.keys.card < daPrefetchMaxConcurrentSets)
    (hpeers : uniquePeers peerKeys ≠ []) :
    Plans mid daId missing peerKeys nowNanos
      (mid.reserveMissing daId (sortedUnique missing) (uniquePeers peerKeys) nowNanos) := by
  obtain ⟨hloop, -, hdone⟩ := reserveLoop_spec hpeers (sortedUnique missing) mid.startLoop
    (loopInv_start hinv daId (uniquePeers peerKeys) (sortedUnique missing)) (List.Subset.refl _)
    (pairwise_sortedUnique missing)
  unfold reserveMissing
  generalize reserveLoop daId (uniquePeers peerKeys) (sortedUnique missing) mid.startLoop = done
    at hloop hdone
  obtain ⟨l, diagnostic⟩ := done
  dsimp only at hloop hdone ⊢
  rw [expirePlanned_eq]
  -- the plans are the peers' lists
  have hlists : ∀ plan, plan ∈ buildDaPrefetchPlans daId (uniquePeers peerKeys) l.plansByPeer ↔
      plan.daId = daId ∧ l.plansByPeer.lookup plan.peerKey = some plan.indexes := by
    intro plan
    rw [mem_buildDaPrefetchPlans]
    constructor
    · exact fun h => ⟨h.1, h.2.2.2⟩
    · intro h
      obtain ⟨hkey, hne, -, -⟩ := hloop.planned _ _ h.2
      exact ⟨h.1, hkey, hne, h.2⟩
  have hempty : buildDaPrefetchPlans daId (uniquePeers peerKeys) l.plansByPeer = [] ↔
      l.plansByPeer = ∅ := by
    constructor
    · intro hnone
      refine Finmap.ext_lookup fun key => ?_
      rw [Finmap.lookup_empty]
      cases hlist : l.plansByPeer.lookup key with
      | none => rfl
      | some list =>
        have hplan := (hlists ⟨daId, key, list⟩).mpr ⟨rfl, hlist⟩
        rw [hnone] at hplan
        cases hplan
    · intro hnone
      refine List.eq_nil_iff_forall_not_mem.mpr fun plan hplan => ?_
      have hlook := ((hlists plan).mp hplan).2
      rw [hnone, Finmap.lookup_empty] at hlook
      cases hlook
  have hothers : ∀ daId' index, daId' ≠ daId →
      cell l.indexes daId' index = cell mid.indexes daId' index := by
    intro daId' index hne
    rw [cell, cell, hloop.others daId' hne]
  refine {
    inv := ?_, older := ?_, newer := ?_, plans := ?_, quiet := ?_, renewed := ?_,
    filled := fun _ hplan => (mem_buildDaPrefetchPlans.mp hplan).2.2.1,
    distinct := nodup_buildDaPrefetchPlans _ (nodup_uniquePeers peerKeys), complete := ?_ }
  · exact inv_reserved hinv hloop hroom nowNanos
  · intro daId' index key hr
    by_cases heq : daId' = daId
    · rw [heq] at hr ⊢
      exact hloop.older index key hr
    · exact (hothers daId' index heq).trans hr
  · intro daId' index key hr hnone
    by_cases heq : daId' = daId
    · rw [heq] at hr hnone ⊢
      obtain ⟨indexes, hlist, hindex⟩ := hloop.newer index key hr hnone
      exact ⟨⟨daId, key, indexes⟩, (hlists _).mpr ⟨rfl, hlist⟩, rfl, hindex⟩
    · have hsame := (hothers daId' index heq).symm.trans hr
      rw [reserved, hsame] at hnone
      cases hnone
  · intro plan hplan
    obtain ⟨hdaId, hlist⟩ := (hlists plan).mp hplan
    obtain ⟨hkey, -, hsorted, hall⟩ := hloop.planned _ _ hlist
    refine ⟨hdaId, (mem_uniquePeers.mp hkey).1, hsorted, fun index hindex => ?_⟩
    obtain ⟨hmissing, hnew, hcell, -⟩ := hall index hindex
    exact ⟨mem_sortedUnique.mp hmissing, hnew, hcell⟩
  · intro hnone
    dsimp only
    rw [if_pos (hempty.mp hnone)]
  · intro hsome
    dsimp only
    rw [if_neg fun h => hsome (hempty.mpr h)]
  · intro _ hdiag index hindex
    exact Option.isSome_iff_exists.mp (hdone hdiag index (mem_sortedUnique.mpr hindex))

/-- The state after the releases of a plan call. -/
def afterReleases (s : DaRelayPrefetchState) (daId : Bytes32) (missing : List UInt16)
    (nowNanos : Nat) : DaRelayPrefetchState :=
  if sortedUnique missing = [] then (s.releaseExpired nowNanos).releaseSet daId
  else (s.releaseExpired nowNanos).releaseFulfilled daId (sortedUnique missing)

theorem released_afterReleases (h : s.Inv) (daId : Bytes32) (missing : List UInt16)
    (nowNanos : Nat) :
    Released (s.releaseExpired nowNanos) (s.afterReleases daId missing nowNanos) := by
  have hinv := (released_releaseExpired h nowNanos).inv h
  unfold afterReleases
  split
  · exact released_releaseSet hinv daId
  · exact released_releaseFulfilled hinv daId _

/-- **A plan call**: releases, then reservations. -/
theorem planDaPrefetch_spec (h : s.Inv) (daId : Bytes32) (missing : List UInt16)
    (peerKeys : List String) (nowNanos : Nat) :
    Plans (s.afterReleases daId missing nowNanos) daId missing peerKeys nowNanos
      (s.planDaPrefetch daId missing peerKeys nowNanos) := by
  have hexpired := (released_releaseExpired h nowNanos).inv h
  have hinv := (released_afterReleases h daId missing nowNanos).inv hexpired
  unfold afterReleases at hinv ⊢
  unfold planDaPrefetch
  dsimp only
  split
  · rename_i hmissing
    rw [if_pos hmissing] at hinv
    refine plans_nothing hinv daId nowNanos fun _ _ => List.eq_nil_iff_forall_not_mem.mpr ?_
    intro index hindex
    rw [← mem_sortedUnique, hmissing] at hindex
    cases hindex
  · rename_i hmissing
    rw [if_neg hmissing] at hinv
    split
    · rename_i hpeers
      refine plans_nothing hinv daId nowNanos fun ⟨key, hkey⟩ _ => ?_
      rw [← mem_uniquePeers, hpeers] at hkey
      cases hkey
    · rename_i hpeers
      split
      · exact plans_nothing hinv daId nowNanos fun _ hdiag => absurd hdiag (by decide)
      · rename_i hfull
        refine plans_reserveMissing hinv nowNanos (fun hnone => ?_) hpeers
        exact Nat.lt_of_not_le fun hle => hfull ⟨hnone, hle⟩

theorem reserved_afterReleases (h : s.Inv) (nowNanos : Nat) (hindex : index ∈ missing) :
    (s.afterReleases daId missing nowNanos).reserved daId index =
      (s.releaseExpired nowNanos).reserved daId index := by
  have hmem := mem_sortedUnique.mpr hindex
  unfold afterReleases
  rw [if_neg (List.ne_nil_of_mem hmem)]
  exact reserved_releaseFulfilled ((released_releaseExpired h nowNanos).inv h) hmem

end DaRelayPrefetchState

/-! ## 5. Histories -/

inductive PrefetchCall where
  | plan (daId : Bytes32) (missing : List UInt16) (peerKeys : List String) (nowNanos : Nat)
  | release (plan : DaRelayPrefetchPlan)

namespace DaRelayPrefetchState

variable {s : DaRelayPrefetchState}

def perform (s : DaRelayPrefetchState) : PrefetchCall → DaRelayPrefetchState
  | .plan daId missing peerKeys nowNanos => (s.planDaPrefetch daId missing peerKeys nowNanos).state
  | .release plan => s.releaseDaPrefetchPlan plan

def run (s : DaRelayPrefetchState) (calls : List PrefetchCall) : DaRelayPrefetchState :=
  calls.foldl perform s

/-- **One call** keeps the caps. -/
theorem Inv.perform (h : s.Inv) (call : PrefetchCall) : (s.perform call).Inv := by
  cases call with
  | plan daId missing peerKeys nowNanos =>
    exact (planDaPrefetch_spec h daId missing peerKeys nowNanos).inv
  | release plan => exact (released_releaseDaPrefetchPlan h plan).inv h

theorem Inv.run (h : s.Inv) (calls : List PrefetchCall) : (s.run calls).Inv := by
  induction calls generalizing s with
  | nil => exact h
  | cons call calls ih => exact ih (h.perform call)

/-- **The caps hold over any history.**  After any plan and release calls, with any arguments and
times, at most 8 sets are in flight, each of them has chunks in flight and an expiry, every chunk in
flight is reserved for one peer, and the bytes in flight are within the cap of every peer and within
the cap in total.  The plans that the next call returns are for distinct peers among the given ones;
their indexes ascend, are disjoint, were missing and not in flight once the expired sets were gone,
and are in flight now.  When the call had a peer to ask and returns no diagnostic, every missing
chunk is in flight. -/
theorem prefetch_caps (calls : List PrefetchCall) :
    let s := empty.run calls
    s.indexes.keys.card ≤ 8 ∧
    (∀ daId set, s.indexes.lookup daId = some set →
      set ≠ ∅ ∧ ∃ expiresAt, s.expires.lookup daId = some expiresAt) ∧
    (∀ daId index, (s.reserved daId index).isSome → ∃! key, s.reserved daId index = some key) ∧
    (∀ key, s.peerBytes key ≤ 4000000) ∧ s.globalBytes ≤ 32000000 ∧
    ∀ daId missing peerKeys nowNanos,
      let r := s.planDaPrefetch daId missing peerKeys nowNanos
      (r.plans.map DaRelayPrefetchPlan.peerKey).Nodup ∧
      (∀ plan ∈ r.plans, plan.daId = daId ∧ plan.peerKey ∈ peerKeys ∧
        plan.indexes.Pairwise (· < ·) ∧ ∀ index ∈ plan.indexes, index ∈ missing ∧
          (s.releaseExpired nowNanos).reserved daId index = none ∧
          r.state.reserved daId index = some plan.peerKey) ∧
      r.plans.Pairwise (fun p q => p.indexes.Disjoint q.indexes) ∧
      ((∃ key ∈ peerKeys, key ≠ "") → r.diagnostic = "" →
        ∀ index ∈ missing, (r.state.reserved daId index).isSome) := by
  intro s
  have hinv : s.Inv := inv_empty.run calls
  refine ⟨hinv.sets, fun daId set hset => ⟨hinv.nonempty daId set hset, hinv.expiry daId set hset⟩,
    ?_, hinv.peer, hinv.global, ?_⟩
  · intro daId index hflight
    obtain ⟨key, hkey⟩ := Option.isSome_iff_exists.mp hflight
    refine ⟨key, hkey, fun key' hkey' => ?_⟩
    exact Option.some.inj (hkey'.symm.trans hkey)
  · intro daId missing peerKeys nowNanos r
    have hplan : Plans _ daId missing peerKeys nowNanos r :=
      planDaPrefetch_spec hinv daId missing peerKeys nowNanos
    refine ⟨hplan.distinct, fun plan hmem => ?_, ?_, fun hkey hdiag index hindex => ?_⟩
    · obtain ⟨hdaId, hkey, hsorted, hall⟩ := hplan.plans plan hmem
      refine ⟨hdaId, hkey, hsorted, fun index hindex => ?_⟩
      obtain ⟨hmissing, hfree, hnow⟩ := hall index hindex
      rw [reserved_afterReleases hinv nowNanos hmissing] at hfree
      exact ⟨hmissing, hfree, hnow⟩
    -- one chunk has one peer, so plans for different peers share no chunk
    · refine (List.pairwise_map.mp hplan.distinct).imp_of_mem fun {p q} hp hq hne index hip hiq => ?_
      have hpkey := ((hplan.plans p hp).2.2.2 index hip).2.2
      have hqkey := ((hplan.plans q hq).2.2.2 index hiq).2.2
      exact hne (Option.some.inj (hpkey.symm.trans hqkey))
    · exact Option.isSome_iff_exists.mpr (hplan.complete hkey hdiag index hindex)

/-- A second peer is asked for the chunk that the first has not been asked for. -/
theorem prefetch_caps_shared :
    let s := empty.run [.plan zero32 [0, 0] ["a", "", "a"] 5]
    let r := s.planDaPrefetch zero32 [1, 0] ["b"] 6
    r.plans = [⟨zero32, "b", [1]⟩] ∧ r.diagnostic = "" ∧ (r.state.reserved zero32 0).isSome := by
  have hplans : ((empty.run [.plan zero32 [0, 0] ["a", "", "a"] 5]).planDaPrefetch
      zero32 [1, 0] ["b"] 6).plans = [⟨zero32, "b", [1]⟩] := by decide +kernel
  have hdiag : ((empty.run [.plan zero32 [0, 0] ["a", "", "a"] 5]).planDaPrefetch
      zero32 [1, 0] ["b"] 6).diagnostic = "" := by decide +kernel
  obtain ⟨-, -, -, -, -, hnext⟩ := prefetch_caps [.plan zero32 [0, 0] ["a", "", "a"] 5]
  obtain ⟨-, -, -, hcomplete⟩ := hnext zero32 [1, 0] ["b"] 6
  exact ⟨hplans, hdiag, hcomplete ⟨"b", by simp, by decide⟩ hdiag 0 (by simp)⟩

end DaRelayPrefetchState

end Rubin.Node
