/-
# The relay pool

`relay_pool.rs`: the pool from which other nodes are answered.  It is bounded; when it is full an
offer is taken only if it beats the worst resident, which goes for it.  The worst is found by a scan
of a hash map, and priorities are compared by the exact cross products of fees and sizes.
-/
import Mathlib.Data.Int.Order.Basic
import Rubin.Lib.Tally
import Rubin.Lib.TopK
import Rubin.Node.MiningOrder

namespace Rubin.Node

open Rubin.Lib Rubin.Consensus TxPool

/-! ## 1. The pool -/

def defaultMaxRelayPoolSize : Nat := 1000

structure RelayTxEntry where
  raw : Bytes
  fee : Nat
  size : Nat
deriving DecidableEq, Repr

structure RelayTxPool where
  txs : Finmap fun _ : Bytes32 => RelayTxEntry
  maxSize : Nat

def RelayTxPool.newWithLimit (maxSize : Nat) : RelayTxPool where
  txs := ∅
  maxSize := if maxSize = 0 then defaultMaxRelayPoolSize else maxSize

def compareRelayFeeRate (aFee aSize bFee bSize : Nat) : Int :=
  if aSize = 0 ∨ bSize = 0 then 0
  else
    match compareFeeRate aFee aSize bFee bSize with
    | .gt => 1
    | .lt => -1
    | .eq => 0

/-- Positive if the first has the higher priority. -/
def compareRelayPriority (aFee aSize : Nat) (aTxid : Bytes32) (bFee bSize : Nat) (bTxid : Bytes32) :
    Int :=
  if compareRelayFeeRate aFee aSize bFee bSize ≠ 0 then compareRelayFeeRate aFee aSize bFee bSize
  else if aFee ≠ bFee then if aFee > bFee then 1 else -1
  else
    match compare32 aTxid bTxid with
    | .lt => 1
    | .gt => -1
    | .eq => 0

/-- One turn of the loop in `find_worst`. -/
def worseOf (worst : Option (Bytes32 × Nat × Nat)) (p : Bytes32 × RelayTxEntry) :
    Option (Bytes32 × Nat × Nat) :=
  match worst with
  | none => some (p.1, p.2.fee, p.2.size)
  | some w =>
    if compareRelayPriority p.2.fee p.2.size p.1 w.2.1 w.2.2 w.1 < 0 then
      some (p.1, p.2.fee, p.2.size)
    else some w

def findWorst (ord : VisitOrder Bytes32) (txs : Finmap fun _ : Bytes32 => RelayTxEntry) :
    Option (Bytes32 × Nat × Nat) :=
  (ord.entries txs).foldl worseOf none

structure RelayOffer where
  txid : Bytes32
  raw : Bytes
  fee : Nat
  size : Nat

/-- The size an offer counts with. -/
def RelayOffer.countedSize (offer : RelayOffer) : Nat :=
  if offer.size = 0 then offer.raw.length else offer.size

namespace RelayTxPool

def insertOffer (pool : RelayTxPool) (offer : RelayOffer) : RelayTxPool :=
  { pool with txs := pool.txs.insert offer.txid ⟨offer.raw, offer.fee, offer.countedSize⟩ }

def put (ord : VisitOrder Bytes32) (pool : RelayTxPool) (offer : RelayOffer) : Bool × RelayTxPool :=
  if offer.countedSize = 0 then (false, pool)
  else if (pool.txs.lookup offer.txid).isSome then (false, pool)
  else if pool.txs.keys.card ≥ pool.maxSize then
    match findWorst ord pool.txs with
    | none => (false, pool)
    | some w =>
      if compareRelayPriority offer.fee offer.countedSize offer.txid w.2.1 w.2.2 w.1 ≤ 0 then
        (false, pool)
      else (true, { pool with txs := pool.txs.erase w.1 }.insertOffer offer)
  else (true, pool.insertOffer offer)

/-- Calls of `put`; each visits the map in an order of its own. -/
def putAll (pool : RelayTxPool) (offers : List (VisitOrder Bytes32 × RelayOffer)) : RelayTxPool :=
  offers.foldl (fun pool p => (put p.1 pool p.2).2) pool

end RelayTxPool

/-! ## 2. The order -/

/-- High rates first, then high fees, then low txids. -/
def relayKey (fee size : Nat) (txid : Bytes32) : ℚᵒᵈ ×ₗ ℕᵒᵈ ×ₗ Bytes32 :=
  toLex (OrderDual.toDual (fee / size : ℚ), toLex (OrderDual.toDual fee, txid))

theorem relayKey_inj {fee size fee' size' : Nat} {txid txid' : Bytes32}
    (h : relayKey fee size txid = relayKey fee' size' txid') : txid = txid' :=
  congrArg (fun k => (ofLex (ofLex k).2).2) h

section order

variable {aFee aSize bFee bSize : Nat} {aTxid bTxid : Bytes32}

theorem compareRelayFeeRate_eq (ha : 0 < aSize) (hb : 0 < bSize) :
    compareRelayFeeRate aFee aSize bFee bSize =
      match compare (aFee / aSize : ℚ) (bFee / bSize : ℚ) with
      | .gt => 1
      | .lt => -1
      | .eq => 0 := by
  rw [compareRelayFeeRate, if_neg (by omega), compareFeeRate_eq, compareFeeRateValues_rat ha hb]

/-- **The comparison is the order of the keys**; the better one has the smaller key. -/
theorem compareRelayPriority_eq (ha : 0 < aSize) (hb : 0 < bSize) :
    compareRelayPriority aFee aSize aTxid bFee bSize bTxid =
      match compare (relayKey aFee aSize aTxid) (relayKey bFee bSize bTxid) with
      | .lt => 1
      | .gt => -1
      | .eq => 0 := by
  rw [compareRelayPriority, compareRelayFeeRate_eq ha hb, relayKey, relayKey, compare_toLex,
    compare_toLex, compare_toDual, compare_toDual, compare32_eq]
  rcases lt_trichotomy (aFee / aSize : ℚ) (bFee / bSize : ℚ) with h | h | h
  · rw [compare_lt_iff_lt.mpr h, compare_gt_iff_gt.mpr h]
    rfl
  · rw [h, compare_eq_iff_eq.mpr rfl]
    dsimp only
    rw [if_neg (not_not.mpr rfl), Ordering.eq_then]
    rcases lt_trichotomy aFee bFee with h | h | h
    · rw [compare_gt_iff_gt.mpr h, if_pos h.ne, if_neg h.asymm]
      rfl
    · rw [compare_eq_iff_eq.mpr h.symm, if_neg (not_not.mpr h), Ordering.eq_then]
    · rw [compare_lt_iff_lt.mpr h, if_pos h.ne', if_pos h]
      rfl
  · rw [compare_gt_iff_gt.mpr h, compare_lt_iff_lt.mpr h]
    rfl

theorem compareRelayPriority_neg (ha : 0 < aSize) (hb : 0 < bSize) :
    compareRelayPriority aFee aSize aTxid bFee bSize bTxid < 0 ↔
      relayKey bFee bSize bTxid < relayKey aFee aSize aTxid := by
  rw [compareRelayPriority_eq ha hb]
  rcases lt_trichotomy (relayKey aFee aSize aTxid) (relayKey bFee bSize bTxid) with h | h | h
  · rw [compare_lt_iff_lt.mpr h]
    exact iff_of_false (by decide) h.asymm
  · rw [compare_eq_iff_eq.mpr h]
    exact iff_of_false (by decide) h.not_gt
  · rw [compare_gt_iff_gt.mpr h]
    exact iff_of_true (by decide) h

theorem compareRelayPriority_le (ha : 0 < aSize) (hb : 0 < bSize) :
    compareRelayPriority aFee aSize aTxid bFee bSize bTxid ≤ 0 ↔
      relayKey bFee bSize bTxid ≤ relayKey aFee aSize aTxid := by
  rw [compareRelayPriority_eq ha hb]
  rcases lt_trichotomy (relayKey aFee aSize aTxid) (relayKey bFee bSize bTxid) with h | h | h
  · rw [compare_lt_iff_lt.mpr h]
    exact iff_of_false (by decide) h.not_ge
  · rw [compare_eq_iff_eq.mpr h]
    exact iff_of_true (by decide) h.ge
  · rw [compare_gt_iff_gt.mpr h]
    exact iff_of_true (by decide) h.le

end order

/-! ## 3. The worst resident -/

/-- The fee and the size of every txid. -/
abbrev RelayPrices : Type := Bytes32 → Nat × Nat

variable {price : RelayPrices} {txs : Finmap fun _ : Bytes32 => RelayTxEntry}

def priceKey (price : RelayPrices) (txid : Bytes32) : ℚᵒᵈ ×ₗ ℕᵒᵈ ×ₗ Bytes32 :=
  relayKey (price txid).1 (price txid).2 txid

/-- An entry has its txid's fee and size. -/
def Priced (price : RelayPrices) (p : Bytes32 × RelayTxEntry) : Prop :=
  price p.1 = (p.2.fee, p.2.size) ∧ 0 < p.2.size

/-- `w` is the last of the txids seen so far. -/
def WorstOf (price : RelayPrices) (seen : List Bytes32) (worst : Option (Bytes32 × Nat × Nat)) :
    Prop :=
  match worst with
  | none => seen = []
  | some w => w.2 = price w.1 ∧ 0 < w.2.2 ∧ w.1 ∈ seen ∧
      ∀ t ∈ seen, t ≠ w.1 → priceKey price t < priceKey price w.1

theorem WorstOf.step {seen : List Bytes32} {worst : Option (Bytes32 × Nat × Nat)}
    {p : Bytes32 × RelayTxEntry} (h : WorstOf price seen worst) (hp : Priced price p)
    (hnew : p.1 ∉ seen) : WorstOf price (seen ++ [p.1]) (worseOf worst p) := by
  cases worst with
  | none =>
    have hnil : seen = [] := h
    subst hnil
    refine ⟨hp.1.symm, hp.2, List.mem_singleton_self _, fun t ht hne => ?_⟩
    exact absurd (List.mem_singleton.mp ht) hne
  | some w =>
    obtain ⟨hw, hpos, hmem, hlast⟩ := h
    have hkey : relayKey p.2.fee p.2.size p.1 = priceKey price p.1 := by
      rw [priceKey, hp.1]
    have hwkey : relayKey w.2.1 w.2.2 w.1 = priceKey price w.1 := by
      rw [priceKey, hw]
    have hneg : compareRelayPriority p.2.fee p.2.size p.1 w.2.1 w.2.2 w.1 < 0 ↔
        priceKey price w.1 < priceKey price p.1 := by
      rw [← hkey, ← hwkey]
      exact compareRelayPriority_neg hp.2 hpos
    unfold worseOf
    dsimp only
    by_cases hlt : priceKey price w.1 < priceKey price p.1
    · rw [if_pos (hneg.mpr hlt)]
      refine ⟨hp.1.symm, hp.2, by simp, fun t ht hne => ?_⟩
      have ht : t ∈ seen := (List.mem_append.mp ht).resolve_right fun h =>
        hne (List.mem_singleton.mp h)
      by_cases heq : t = w.1
      · rw [heq]
        exact hlt
      · exact (hlast t ht heq).trans hlt
    · rw [if_neg (mt hneg.mp hlt)]
      refine ⟨hw, hpos, List.mem_append_left _ hmem, fun t ht hne => ?_⟩
      rcases List.mem_append.mp ht with ht | ht
      · exact hlast t ht hne
      · cases List.mem_singleton.mp ht
        refine lt_of_le_of_ne (not_lt.mp hlt) fun heq => hne (relayKey_inj heq)

theorem WorstOf.loop : ∀ {l : List (Bytes32 × RelayTxEntry)} {seen : List Bytes32}
    {worst : Option (Bytes32 × Nat × Nat)}, WorstOf price seen worst →
      (∀ p ∈ l, Priced price p) → (seen ++ l.map Prod.fst).Nodup →
      WorstOf price (seen ++ l.map Prod.fst) (l.foldl worseOf worst) := by
  intro l
  induction l with
  | nil =>
    intro seen worst h _ _
    rw [List.map_nil, List.append_nil]
    exact h
  | cons p l ih =>
    intro seen worst h hl hnodup
    rw [List.forall_mem_cons] at hl
    rw [List.map_cons, ← List.singleton_append, ← List.append_assoc] at hnodup ⊢
    have hnew : p.1 ∉ seen := by
      have hsub := (List.nodup_append.mp hnodup).1
      intro hmem
      exact (List.nodup_append.mp hsub).2.2 p.1 hmem p.1 (List.mem_singleton_self _) rfl
    exact ih (h.step hl.1 hnew) hl.2 hnodup

/-- **The scan finds the last resident**, whatever order it visits the map in. -/
theorem findWorst_spec (ord : VisitOrder Bytes32)
    (htxs : ∀ t e, txs.lookup t = some e → Priced price (t, e)) (hne : txs.keys.Nonempty) :
    ∃ w, findWorst ord txs = some w ∧ w.2 = price w.1 ∧ 0 < w.2.2 ∧
      Best.Last (priceKey price) txs.keys w.1 := by
  have hloop : WorstOf price ([] ++ (ord.entries txs).map Prod.fst)
      ((ord.entries txs).foldl worseOf none) := by
    refine WorstOf.loop rfl (fun p hp => htxs p.1 p.2 (ord.mem_entries.mp hp)) ?_
    rw [List.nil_append, ord.map_fst_entries]
    exact ord.once _
  rw [List.nil_append, ord.map_fst_entries] at hloop
  unfold findWorst
  cases hw : (ord.entries txs).foldl worseOf none with
  | none =>
    rw [hw] at hloop
    obtain ⟨t, ht⟩ := hne
    have hmem := (ord.visits _ _).mpr ht
    rw [show ord.order txs.keys = [] from hloop] at hmem
    cases hmem
  | some w =>
    rw [hw] at hloop
    obtain ⟨hprice, hpos, hmem, hlast⟩ := hloop
    exact ⟨w, rfl, hprice, hpos, (ord.visits _ _).mp hmem,
      fun t ht hne => hlast t ((ord.visits _ _).mpr ht) hne⟩

/-! ## 4. What the pool holds -/

namespace RelayTxPool

variable {pool : RelayTxPool} {offered : Finset Bytes32} {offer : RelayOffer}

/-- The pool holds the best of what has been offered. -/
structure Holds (price : RelayPrices) (offered : Finset Bytes32) (pool : RelayTxPool) : Prop where
  best : Best (priceKey price) pool.maxSize offered pool.txs.keys
  priced : ∀ t e, pool.txs.lookup t = some e → Priced price (t, e)

/-- The offer comes with its txid's fee and size. -/
def Offers (price : RelayPrices) (offer : RelayOffer) : Prop :=
  price offer.txid = (offer.fee, offer.countedSize) ∧ 0 < offer.countedSize

theorem keys_insertOffer (pool : RelayTxPool) (offer : RelayOffer) :
    (pool.insertOffer offer).txs.keys = insert offer.txid pool.txs.keys := by
  ext t
  rw [Finset.mem_insert, Finmap.mem_keys, Finmap.mem_keys, insertOffer, Finmap.mem_insert]

theorem priced_insertOffer (h : ∀ t e, pool.txs.lookup t = some e → Priced price (t, e))
    (hoffer : Offers price offer) :
    ∀ t e, (pool.insertOffer offer).txs.lookup t = some e → Priced price (t, e) := by
  intro t e he
  rw [insertOffer, lookup_insert_eq] at he
  split at he
  · rename_i heq
    cases he
    rw [heq]
    exact hoffer
  · exact h t e he

/-- **One offer.** -/
theorem Holds.put (h : Holds price offered pool) (hpos : 0 < pool.maxSize)
    (ord : VisitOrder Bytes32) (hoffer : Offers price offer) :
    Holds price (insert offer.txid offered) (put ord pool offer).2 ∧
      (RelayTxPool.put ord pool offer).2.maxSize = pool.maxSize := by
  unfold RelayTxPool.put
  rw [if_neg (Nat.pos_iff_ne_zero.mp hoffer.2)]
  by_cases hin : (pool.txs.lookup offer.txid).isSome
  · rw [if_pos hin]
    obtain ⟨e, he⟩ := Option.isSome_iff_exists.mp hin
    exact ⟨⟨h.best.again (mem_keys_iff.mpr ⟨e, he⟩), h.priced⟩, rfl⟩
  · rw [if_neg hin]
    have hnew : offer.txid ∉ pool.txs.keys := by
      intro hmem
      obtain ⟨e, he⟩ := mem_keys_iff.mp hmem
      rw [he] at hin
      exact hin rfl
    by_cases hfull : pool.txs.keys.card ≥ pool.maxSize
    · rw [if_pos hfull]
      obtain ⟨w, hw, hprice, hwpos, hlast⟩ := findWorst_spec ord h.priced
        (Finset.card_pos.mp (by omega))
      have hkey : relayKey offer.fee offer.countedSize offer.txid = priceKey price offer.txid := by
        rw [priceKey, hoffer.1]
      have hwkey : relayKey w.2.1 w.2.2 w.1 = priceKey price w.1 := by
        rw [priceKey, hprice]
      have hle : compareRelayPriority offer.fee offer.countedSize offer.txid w.2.1 w.2.2 w.1 ≤ 0 ↔
          priceKey price w.1 ≤ priceKey price offer.txid := by
        rw [← hkey, ← hwkey]
        exact compareRelayPriority_le hoffer.2 hwpos
      rw [hw]
      dsimp only
      by_cases hworse : priceKey price w.1 ≤ priceKey price offer.txid
      · rw [if_pos (hle.mpr hworse)]
        have hlt : priceKey price w.1 < priceKey price offer.txid := by
          refine lt_of_le_of_ne hworse fun heq => hnew ?_
          rw [← relayKey_inj heq]
          exact hlast.1
        exact ⟨⟨h.best.refuse hfull hlast hlt, h.priced⟩, rfl⟩
      · rw [if_neg (mt hle.mp hworse)]
        refine ⟨⟨?_, priced_insertOffer ?_ hoffer⟩, rfl⟩
        · rw [keys_insertOffer]
          dsimp only
          rw [Finmap.keys_erase]
          exact h.best.replace hfull hlast hnew (not_le.mp hworse)
        · intro t e he
          dsimp only at he
          rw [lookup_erase_eq] at he
          split at he
          · cases he
          · exact h.priced t e he
    · rw [if_neg hfull]
      refine ⟨⟨?_, priced_insertOffer h.priced hoffer⟩, rfl⟩
      rw [keys_insertOffer]
      exact h.best.room (Nat.not_le.mp hfull)

def offeredTxids (offers : List (VisitOrder Bytes32 × RelayOffer)) : Finset Bytes32 :=
  (offers.map fun p => p.2.txid).toFinset

theorem Holds.putAll : ∀ {offers : List (VisitOrder Bytes32 × RelayOffer)} {pool : RelayTxPool}
    {offered : Finset Bytes32}, Holds price offered pool → 0 < pool.maxSize →
      (∀ p ∈ offers, Offers price p.2) →
      Holds price (offered ∪ offeredTxids offers) (pool.putAll offers) ∧
        (pool.putAll offers).maxSize = pool.maxSize := by
  intro offers
  induction offers with
  | nil =>
    intro pool offered h _ _
    rw [offeredTxids, List.map_nil, List.toFinset_nil, Finset.union_empty]
    exact ⟨h, rfl⟩
  | cons p offers ih =>
    intro pool offered h hpos hoffers
    rw [List.forall_mem_cons] at hoffers
    obtain ⟨hput, hsize⟩ := h.put hpos p.1 hoffers.1
    obtain ⟨hrest, hrestSize⟩ := ih hput (hsize ▸ hpos) hoffers.2
    rw [offeredTxids, List.map_cons, List.toFinset_cons, Finset.union_insert, ← Finset.insert_union]
    exact ⟨hrest, hrestSize.trans hsize⟩

theorem holds_new (price : RelayPrices) {k : Nat} (hk : 0 < k) :
    Holds price ∅ (newWithLimit k) ∧ (newWithLimit k).maxSize = k := by
  refine ⟨⟨?_, fun t e he => ?_⟩, if_neg (Nat.pos_iff_ne_zero.mp hk)⟩
  · rw [newWithLimit, Finmap.keys_empty]
    exact Best.empty _ _
  · rw [newWithLimit, Finmap.lookup_empty] at he
    cases he

theorem Holds.lookup_eq {pool' : RelayTxPool} (h : Holds price offered pool)
    (h' : Holds price offered pool') (hsize : pool'.maxSize = pool.maxSize) (t : Bytes32) :
    (pool'.txs.lookup t).map (fun e => (e.fee, e.size)) =
      (pool.txs.lookup t).map fun e => (e.fee, e.size) := by
  have hkeys : pool'.txs.keys = pool.txs.keys := (hsize ▸ h'.best).unique h.best
  have hmem : t ∈ pool'.txs.keys ↔ t ∈ pool.txs.keys := by rw [hkeys]
  rw [mem_keys_iff, mem_keys_iff] at hmem
  cases he : pool.txs.lookup t with
  | none =>
    cases he' : pool'.txs.lookup t with
    | none => rfl
    | some e' =>
      obtain ⟨e, hsome⟩ := hmem.mp ⟨e', he'⟩
      rw [he] at hsome
      cases hsome
  | some e =>
    obtain ⟨e', he'⟩ := hmem.mpr ⟨e, he⟩
    rw [he', Option.map_some, Option.map_some, ← (h.priced t e he).1, ← (h'.priced t e' he').1]

end RelayTxPool

/-- **The pool keeps the best of what it is offered.**  With room for `k` and offers in which every
txid always comes with the same fee and size, it ends with the `k` best of the offered txids, or all
of them, by fee rate, then fee, then the smaller txid.  The same txids offered in another order or
more often, with the map visited in any way, end in the same content. -/
theorem relay_pool_keeps_best {k : Nat} (hk : 0 < k) (price : RelayPrices)
    (offers : List (VisitOrder Bytes32 × RelayOffer))
    (hoffers : ∀ p ∈ offers, RelayTxPool.Offers price p.2) :
    let pool := (RelayTxPool.newWithLimit k).putAll offers
    Best (priceKey price) k (RelayTxPool.offeredTxids offers) pool.txs.keys ∧
    (∀ t e, pool.txs.lookup t = some e → price t = (e.fee, e.size)) ∧
    ∀ offers' : List (VisitOrder Bytes32 × RelayOffer),
      (∀ p ∈ offers', RelayTxPool.Offers price p.2) →
      RelayTxPool.offeredTxids offers' = RelayTxPool.offeredTxids offers →
      ∀ t, (((RelayTxPool.newWithLimit k).putAll offers').txs.lookup t).map
          (fun e => (e.fee, e.size)) =
        (pool.txs.lookup t).map fun e => (e.fee, e.size) := by
  intro pool
  obtain ⟨hnew, hsize⟩ := RelayTxPool.holds_new price hk
  have hpos : 0 < (RelayTxPool.newWithLimit k).maxSize := by rw [hsize]; exact hk
  obtain ⟨hpool, hpoolSize⟩ := hnew.putAll hpos hoffers
  rw [Finset.empty_union] at hpool
  refine ⟨?_, fun t e he => (hpool.priced t e he).1, fun offers' hoffers' hsame t => ?_⟩
  · have hbest := hpool.best
    rw [hpoolSize, hsize] at hbest
    exact hbest
  · obtain ⟨hpool', hpoolSize'⟩ := hnew.putAll hpos hoffers'
    rw [Finset.empty_union, hsame] at hpool'
    exact hpool.lookup_eq hpool' (hpoolSize'.trans hpoolSize.symm) t

/-- Two offers of the same fee and size, and room for one. -/
theorem relay_pool_keeps_best_two :
    let ord : VisitOrder Bytes32 := .ascendingBy id Function.injective_id
    let offers := [(ord, (⟨BytesN.replicate 32 1, [], 3, 2⟩ : RelayOffer)), (ord, ⟨zero32, [], 3, 2⟩)]
    ((RelayTxPool.newWithLimit 1).putAll offers).txs.keys = {zero32} := by
  intro ord offers
  have hbest := (relay_pool_keeps_best (k := 1) (by decide) (fun _ => (3, 2)) offers (by
    simp [offers, RelayTxPool.Offers, RelayOffer.countedSize])).1
  refine hbest.unique ⟨by decide, by decide, ?_⟩
  decide +kernel

end Rubin.Node
