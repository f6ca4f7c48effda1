/-
# What the UTXO digest identifies

`utxo_set_hash` of `connect_block_inmem.rs` and its copy in `chainstate.rs`.  The source iterates
a hash map, so it sees the entries in an order of its own; here the functions take the entries in
the order they are met (`IterationOf`), and the digest of `Connect.lean` is what all orders give.

Sorting by the 36-byte key makes one list out of all orders, because no two entries have one key.
That list can be read back from the preimage: every field of an item has a fixed width, or its
length in front.  So two maps with one digest are one map, as long as the hash has no collision on
the two preimages.
-/
import Rubin.Consensus.SighashBinding
import Rubin.Node.SpendOnce

namespace Rubin.Consensus

open Rubin.Lib

/-! ## 1. Iteration orders -/

/-- An order in which the entries of the map may be met. -/
structure IterationOf (utxos : UtxoSet) (items : List (Outpoint × UtxoEntry)) : Prop where
  nodup : (items.map Prod.fst).Nodup
  mem_iff : ∀ op entry, (op, entry) ∈ items ↔ utxos.lookup op = some entry

/-- The key and the entry, as the source collects them. -/
def digestKey (item : Outpoint × UtxoEntry) : Bytes × UtxoEntry := (item.1.key, item.2)

def KeyOrder (a b : Bytes × UtxoEntry) : Prop := a.1 ≤ b.1

instance : DecidableRel KeyOrder := fun a b => inferInstanceAs (Decidable (a.1 ≤ b.1))
instance : IsTrans (Bytes × UtxoEntry) KeyOrder := ⟨fun _ _ _ => List.le_trans⟩
instance : Std.Total KeyOrder := ⟨fun a b => List.le_total a.1 b.1⟩

/-- `items.sort_unstable_by`: the keys are distinct, so there is one sorted order. -/
def sortedItems (items : List (Outpoint × UtxoEntry)) : List (Bytes × UtxoEntry) :=
  (items.map digestKey).insertionSort KeyOrder

def digestRecord (item : Bytes × UtxoEntry) : Bytes := item.1 ++ item.2.digestBytes

def utxoSetPreimage (items : List (Outpoint × UtxoEntry)) : Bytes :=
  utxoSetHashDst ++ natToLe 8 items.length ++ (sortedItems items).flatMap digestRecord

/-- `utxo_set_hash` on the entries in the order they are met. -/
def utxoSetHashFrom [Crypto] (items : List (Outpoint × UtxoEntry)) : Bytes32 :=
  sha3_256 (utxoSetPreimage items)

/-- Every Rust map: heights are 64-bit words, covenant data is in memory. -/
def UtxoSet.InMemory (utxos : UtxoSet) : Prop :=
  ∀ op entry, utxos.lookup op = some entry →
    entry.creationHeight < 2 ^ 64 ∧ entry.covenantData.length ≤ isizeMax

theorem digestKey_injective : Function.Injective digestKey := by
  intro a b h
  obtain ⟨hkey, hentry⟩ := Prod.mk.inj h
  exact Prod.ext (Outpoint.key_injective hkey) hentry

namespace IterationOf

variable {utxos utxos' : UtxoSet} {items items' : List (Outpoint × UtxoEntry)}

theorem perm (h : IterationOf utxos items) (h' : IterationOf utxos items') : items.Perm items' := by
  rw [List.perm_ext_iff_of_nodup h.nodup.of_map h'.nodup.of_map]
  rintro ⟨op, entry⟩
  rw [h.mem_iff, h'.mem_iff]

theorem eq_of_perm (h : IterationOf utxos items) (h' : IterationOf utxos' items')
    (hperm : items.Perm items') : utxos = utxos' := by
  refine Finmap.ext_lookup fun op => Option.ext fun entry => ?_
  rw [← h.mem_iff, ← h'.mem_iff]
  exact hperm.mem_iff

theorem keyOrder_antisymm (h : IterationOf utxos items) :
    ∀ a ∈ items.map digestKey, ∀ b ∈ items.map digestKey, KeyOrder a b → KeyOrder b a → a = b := by
  intro a ha b hb hab hba
  obtain ⟨⟨op, entry⟩, hitem, rfl⟩ := List.mem_map.mp ha
  obtain ⟨⟨op', entry'⟩, hitem', rfl⟩ := List.mem_map.mp hb
  have hop : op = op' := Outpoint.key_injective (List.le_antisymm hab hba)
  subst hop
  rw [h.mem_iff] at hitem hitem'
  cases hitem.symm.trans hitem'
  rfl

theorem eq_sortedItems (h : IterationOf utxos items) {l : List (Bytes × UtxoEntry)}
    (hperm : l.Perm (items.map digestKey)) (hsorted : l.Pairwise KeyOrder) :
    l = sortedItems items := by
  have hsort := List.perm_insertionSort KeyOrder (items.map digestKey)
  refine List.Perm.eq_of_pairwise ?_ hsorted (List.pairwise_insertionSort KeyOrder _)
    (hperm.trans hsort.symm)
  intro a b ha hb
  exact h.keyOrder_antisymm a (hperm.mem_iff.mp ha) b (hsort.mem_iff.mp hb)

/-- **All orders give one preimage.** -/
theorem preimage_eq (h : IterationOf utxos items) (h' : IterationOf utxos items') :
    utxoSetPreimage items = utxoSetPreimage items' := by
  have hperm := h.perm h'
  have hsort : sortedItems items = sortedItems items' := by
    refine h'.eq_sortedItems ?_ (List.pairwise_insertionSort KeyOrder _)
    exact (List.perm_insertionSort KeyOrder _).trans (hperm.map digestKey)
  rw [utxoSetPreimage, utxoSetPreimage, hperm.length_eq, hsort]

end IterationOf

/-- The entries in the order of their keys. -/
def keyedOrder (utxos : UtxoSet) : List (Outpoint × UtxoEntry) :=
  (utxos.keys.sort Outpoint.KeyLe).filterMap fun op => (utxos.lookup op).map fun entry => (op, entry)

theorem keyedOrder_map_fst (utxos : UtxoSet) :
    (keyedOrder utxos).map Prod.fst = utxos.keys.sort Outpoint.KeyLe := by
  have hkeep : ∀ op ∈ utxos.keys.sort Outpoint.KeyLe,
      ((utxos.lookup op).map fun entry => (op, entry)).map Prod.fst = some op := by
    intro op hop
    rw [Finset.mem_sort, Finmap.mem_keys] at hop
    obtain ⟨entry, hentry⟩ := Option.isSome_iff_exists.mp (Finmap.lookup_isSome.mpr hop)
    rw [hentry]
    rfl
  rw [keyedOrder, List.map_filterMap, List.filterMap_congr hkeep, List.filterMap_some]

theorem keyedOrder_iterationOf (utxos : UtxoSet) : IterationOf utxos (keyedOrder utxos) := by
  refine ⟨?_, ?_⟩
  · rw [keyedOrder_map_fst]
    exact Finset.sort_nodup _ _
  · intro op entry
    rw [keyedOrder, List.mem_filterMap]
    constructor
    · rintro ⟨op', -, h⟩
      obtain ⟨entry', hlookup, hpair⟩ := Option.map_eq_some_iff.mp h
      cases hpair
      exact hlookup
    · intro hlookup
      refine ⟨op, ?_, by rw [hlookup]; rfl⟩
      rw [Finset.mem_sort, Finmap.mem_keys]
      exact Finmap.mem_of_lookup_eq_some hlookup

theorem flatMap_digestItem (utxos : UtxoSet) (ops : List Outpoint) :
    ops.flatMap (digestItem utxos) =
      ((ops.filterMap fun op => (utxos.lookup op).map fun entry => (op, entry)).map
        digestKey).flatMap digestRecord := by
  induction ops with
  | nil => rfl
  | cons op ops ih =>
    rw [List.flatMap_cons, ih, digestItem, List.filterMap_cons]
    cases utxos.lookup op with
    | none => rfl
    | some entry => rfl

variable {utxos : UtxoSet} {items : List (Outpoint × UtxoEntry)}

/-- **The digest of the map itself** is the digest of any order of its entries. -/
theorem IterationOf.utxoSetHash_eq [Crypto] (h : IterationOf utxos items) :
    utxoSetHashFrom items = utxoSetHash utxos := by
  have hkeyed := keyedOrder_iterationOf utxos
  have hlen : (keyedOrder utxos).length = utxos.len := by
    rw [← List.length_map Prod.fst, keyedOrder_map_fst, Finset.length_sort]
    rfl
  have hsorted : ((keyedOrder utxos).map digestKey).Pairwise KeyOrder := by
    have hkeys := Finset.pairwise_sort utxos.keys Outpoint.KeyLe
    rw [← keyedOrder_map_fst, List.pairwise_map] at hkeys
    exact List.pairwise_map.mpr hkeys
  rw [utxoSetHashFrom, h.preimage_eq hkeyed, utxoSetPreimage, hlen,
    ← hkeyed.eq_sortedItems (List.Perm.refl _) hsorted, utxoSetHash, flatMap_digestItem]
  rfl

/-! ## 2. Reading the preimage -/

structure ItemInMemory (item : Bytes × UtxoEntry) : Prop where
  key : item.1.length = 36
  height : item.2.creationHeight < 2 ^ 64
  data : item.2.covenantData.length < 2 ^ 64

theorem coinbaseFlag_inj {b b' : Bool}
    (h : (if b then 1 else 0 : UInt8) = if b' then 1 else 0) : b = b' := by
  cases b <;> cases b' <;> simp_all

theorem digestRecord_prefixFree : PrefixFree ItemInMemory digestRecord := by
  rintro ⟨key, v, c, d, n, cb⟩ ⟨key', v', c', d', n', cb'⟩ s t h h' heq
  simp only [digestRecord, UtxoEntry.digestBytes, List.append_assoc] at heq
  obtain ⟨hkey, heq⟩ := List.append_inj heq (h.key.trans h'.key.symm)
  obtain ⟨hv, heq⟩ := List.append_inj heq (by simp)
  obtain ⟨hc, heq⟩ := List.append_inj heq (by simp)
  rw [← List.append_assoc (encodeCompactSize _), ← List.append_assoc (encodeCompactSize _)] at heq
  obtain ⟨hd, heq⟩ := encodeCompactSize_prefixFree.lengthPrefixed d d' _ _ h.data h'.data heq
  obtain ⟨hn, heq⟩ := List.append_inj heq (by simp)
  obtain ⟨hcb, heq⟩ := List.append_inj heq rfl
  have hheight : n = n' := natToLe_inj h.height h'.height hn
  have hflag : cb = cb' := coinbaseFlag_inj (List.cons.inj hcb).1
  rw [hkey, u64LeBytes_injective hv, u16LeBytes_injective hc, hd, hheight, hflag]
  exact ⟨rfl, heq⟩

theorem digestRecord_ne_nil (item : Bytes × UtxoEntry) : digestRecord item ≠ [] := by
  intro h
  have hlen := congrArg List.length h
  simp only [digestRecord, UtxoEntry.digestBytes, List.length_append, u64LeBytes_length,
    List.length_nil] at hlen
  omega

theorem IterationOf.itemInMemory (h : IterationOf utxos items) (hmem : utxos.InMemory) :
    ∀ item ∈ sortedItems items, ItemInMemory item := by
  intro item hitem
  rw [sortedItems, List.mem_insertionSort, List.mem_map] at hitem
  obtain ⟨⟨op, entry⟩, hitem, rfl⟩ := hitem
  obtain ⟨hheight, hdata⟩ := hmem op entry ((h.mem_iff op entry).mp hitem)
  refine ⟨?_, hheight, ?_⟩
  · simp [digestKey, Outpoint.key]
  · have : isizeMax < 2 ^ 64 := by decide
    exact Nat.lt_of_le_of_lt hdata this

theorem IterationOf.eq_of_preimage {utxos' : UtxoSet} {items' : List (Outpoint × UtxoEntry)}
    (h : IterationOf utxos items) (h' : IterationOf utxos' items') (hmem : utxos.InMemory)
    (hmem' : utxos'.InMemory) (heq : utxoSetPreimage items = utxoSetPreimage items') :
    utxos = utxos' := by
  obtain ⟨-, hrecords⟩ := List.append_inj heq (by simp)
  have hsorted : sortedItems items = sortedItems items' :=
    digestRecord_prefixFree.flatMap_inj digestRecord_ne_nil (h.itemInMemory hmem)
      (h'.itemInMemory hmem') hrecords
  have hperm : (items.map digestKey).Perm (items'.map digestKey) := by
    refine (List.perm_insertionSort KeyOrder _).symm.trans ?_
    rw [← sortedItems, hsorted]
    exact List.perm_insertionSort KeyOrder _
  exact h.eq_of_perm h' ((List.map_perm_map_iff digestKey_injective).mp hperm)

end Rubin.Consensus

namespace Rubin.Node

open Rubin.Lib Rubin.Consensus

/-! ## 3. The node's copy -/

/-- `b"RUBINv1-utxo-set-hash/"` of `chainstate.rs`. -/
def utxoSetHashDst : Bytes :=
  [0x52, 0x55, 0x42, 0x49, 0x4e, 0x76, 0x31, 0x2d, 0x75, 0x74, 0x78, 0x6f, 0x2d, 0x73, 0x65, 0x74,
   0x2d, 0x68, 0x61, 0x73, 0x68, 0x2f]

def utxoSetHash [Crypto] (items : List (Outpoint × UtxoEntry)) : Bytes32 :=
  let sorted := (items.map fun p => (p.1.txid.toList ++ u32LeBytes p.1.vout, p.2)).insertionSort
    KeyOrder
  sha3_256 (utxoSetHashDst ++ natToLe 8 sorted.length ++ sorted.flatMap fun p =>
    p.1 ++ (u64LeBytes p.2.value ++ u16LeBytes p.2.covenantType ++
      encodeCompactSize p.2.covenantData.length ++ p.2.covenantData ++
      natToLe 8 p.2.creationHeight ++ [if p.2.createdByCoinbase then 1 else 0]))

theorem utxoSetHash_eq_consensus [Crypto] (items : List (Outpoint × UtxoEntry)) :
    utxoSetHash items = utxoSetHashFrom items := by
  unfold utxoSetHash utxoSetHashFrom utxoSetPreimage
  dsimp only
  rw [List.length_insertionSort, List.length_map]
  rfl

/-- **The digest identifies the set.**  In whatever order the two maps are iterated, their digests
are equal exactly if they are; the node computes the consensus digest, in an order of its own. -/
theorem utxoSetHash_identifies [Crypto] {utxos utxos' : UtxoSet} (hmem : utxos.InMemory)
    (hmem' : utxos'.InMemory) {items items' : List (Outpoint × UtxoEntry)}
    (h : IterationOf utxos items) (h' : IterationOf utxos' items')
    (hinj : Set.InjOn sha3_256 {utxoSetPreimage items, utxoSetPreimage items'}) :
    (utxoSetHashFrom items = utxoSetHashFrom items' ↔ utxos = utxos') ∧
      ∀ order, IterationOf utxos order → utxoSetHash order = utxoSetHashFrom items := by
  refine ⟨⟨?_, ?_⟩, ?_⟩
  · intro hdigest
    exact h.eq_of_preimage h' hmem hmem' (hinj (Or.inl rfl) (Or.inr rfl) hdigest)
  · rintro rfl
    exact congrArg sha3_256 (h.preimage_eq h')
  · intro order horder
    rw [utxoSetHash_eq_consensus, horder.utxoSetHash_eq, h.utxoSetHash_eq]

theorem iterationOf_nil : IterationOf ∅ [] :=
  ⟨List.nodup_nil, fun op entry => by rw [Finmap.lookup_empty]; simp⟩

theorem iterationOf_singleton (op : Outpoint) (entry : UtxoEntry) :
    IterationOf (Finmap.singleton op entry) [(op, entry)] := by
  refine ⟨List.nodup_singleton _, fun op' entry' => ?_⟩
  rw [List.mem_singleton, Prod.mk.injEq]
  by_cases hop : op' = op
  · subst hop
    rw [Finmap.lookup_singleton_eq, Option.some_inj, eq_comm (a := entry)]
    exact and_iff_right rfl
  · have habsent : op' ∉ (Finmap.singleton op entry : UtxoSet) := by rwa [Finmap.mem_singleton]
    rw [Finmap.lookup_eq_none.mpr habsent]
    exact ⟨fun h => absurd h.1 hop, nofun⟩

/-- On the real hash: the empty set and a set with one entry. -/
theorem utxoSetHash_identifies_singleton :
    letI : Crypto := Crypto.sha3With fun _ _ _ => .ok true
    utxoSetHashFrom [] ≠ utxoSetHashFrom [(⟨zero32, 0⟩, zeroKeyEntry)] ∧
      utxoSetHash [] = utxoSetHashFrom [] := by
  let _ : Crypto := Crypto.sha3With fun _ _ _ => .ok true
  have hdiff : sha3_256 (utxoSetPreimage []) ≠
      sha3_256 (utxoSetPreimage [(⟨zero32, 0⟩, zeroKeyEntry)]) := by decide +kernel
  have hinj : Set.InjOn sha3_256 {utxoSetPreimage [],
      utxoSetPreimage [(⟨zero32, 0⟩, zeroKeyEntry)]} := by
    rintro a (rfl | rfl) b (rfl | rfl) h
    · rfl
    · exact absurd h hdiff
    · exact absurd h.symm hdiff
    · rfl
  have hmem : UtxoSet.InMemory ∅ := fun op entry h => by
    rw [Finmap.lookup_empty] at h
    cases h
  have hmem' : UtxoSet.InMemory (Finmap.singleton ⟨zero32, 0⟩ zeroKeyEntry) := by
    intro op entry h
    have hitem := ((iterationOf_singleton ⟨zero32, 0⟩ zeroKeyEntry).mem_iff op entry).mpr h
    rw [List.mem_singleton, Prod.mk.injEq] at hitem
    rw [hitem.2]
    decide
  have hids := utxoSetHash_identifies hmem hmem' iterationOf_nil
    (iterationOf_singleton ⟨zero32, 0⟩ zeroKeyEntry) hinj
  refine ⟨fun h => ?_, hids.2 [] iterationOf_nil⟩
  have hempty := congrArg (Finmap.lookup ⟨zero32, 0⟩) (hids.1.mp h)
  rw [Finmap.lookup_empty, Finmap.lookup_singleton_eq] at hempty
  cases hempty

end Rubin.Node
