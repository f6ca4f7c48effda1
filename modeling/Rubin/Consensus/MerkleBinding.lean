/-
# Merkle roots bind the whole list

`merkle.rs` hashes tagged ids and tagged pairs, level by level, and carries an odd last node over
unchanged.  The levels of the source are the digests of the levels of a `HashTree`
(`merkleReduce_digest`), so a root is the digest of a tree whose fringe is the list of ids.  The
tags keep leaves and inner nodes apart, hence the digest determines the tree, and the tree its
fringe: lists of different lengths, whose trees have different shapes, are no exception.

No collision is assumed away beyond the strings hashed for the two lists compared.
-/
import Rubin.Consensus.Block
import Rubin.Lib.HashTree

namespace Rubin.Consensus

open Rubin.Lib

/-! ## 1. The tree behind a root -/

/-- Leaves and inner nodes as `merkle_root_tagged` writes them. -/
def merkleCode (leafTag nodeTag : UInt8) (h : leafTag ≠ nodeTag) :
    TreeCode Bytes32 Bytes Bytes32 where
  leaf id := leafTag :: id.toList
  node a b := nodeTag :: (a.toList ++ b.toList)
  leaf_inj := by
    intro a b heq
    exact BytesN.toList_inj.mp (List.cons.inj heq).2
  node_inj := by
    intro a b a' b' heq
    obtain ⟨ha, hb⟩ := List.append_inj (List.cons.inj heq).2 (by simp)
    exact ⟨BytesN.toList_inj.mp ha, BytesN.toList_inj.mp hb⟩
  leaf_ne_node := by
    intro a l r heq
    exact h (List.cons.inj heq).1

/-- The tree of `merkle_root_txids`. -/
def txidCode : TreeCode Bytes32 Bytes Bytes32 := merkleCode 0x00 0x01 (by decide)

/-- The tree of `witness_merkle_root_wtxids`. -/
def wtxidCode : TreeCode Bytes32 Bytes Bytes32 := merkleCode 0x02 0x03 (by decide)

section binding

variable [Crypto]

variable {leafTag nodeTag : UInt8} {ids : List Bytes32}

theorem merkleNextLevel_digest (h : leafTag ≠ nodeTag) :
    ∀ level : List (HashTree Bytes32),
      merkleNextLevel nodeTag (level.map ((merkleCode leafTag nodeTag h).digest sha3_256)) =
        (HashTree.pairUp level).map ((merkleCode leafTag nodeTag h).digest sha3_256)
  | [] => by simp [merkleNextLevel, HashTree.pairUp]
  | [_] => by simp [merkleNextLevel, HashTree.pairUp]
  | a :: b :: rest => by
    rw [HashTree.pairUp, List.map_cons, List.map_cons, List.map_cons, merkleNextLevel,
      merkleNextLevel_digest h rest]
    rfl

theorem merkleReduce_digest (h : leafTag ≠ nodeTag) (fuel : Nat) :
    ∀ level : List (HashTree Bytes32),
      merkleReduce nodeTag fuel (level.map ((merkleCode leafTag nodeTag h).digest sha3_256)) =
        (HashTree.reduce fuel level).map ((merkleCode leafTag nodeTag h).digest sha3_256) := by
  induction fuel with
  | zero => exact fun _ => rfl
  | succ fuel ih =>
    intro level
    rw [merkleReduce, HashTree.reduce, List.length_map]
    split
    · rfl
    · rw [merkleNextLevel_digest, ih]

theorem merkleRootTagged_eq (leafTag nodeTag : UInt8) (h : leafTag ≠ nodeTag) (hne : ids ≠ []) :
    ∃ t, HashTree.ofList ids = some t ∧ t.fringe = ids ∧ merkleRootTagged ids leafTag nodeTag =
      .ok ((merkleCode leafTag nodeTag h).digest sha3_256 t) := by
  obtain ⟨t, hreduce, hlist, hfringe⟩ := HashTree.exists_ofList hne
  refine ⟨t, hlist, hfringe, ?_⟩
  have hleaves : ids.map (fun id => sha3_256 (leafTag :: id.toList)) =
      (ids.map HashTree.leaf).map ((merkleCode leafTag nodeTag h).digest sha3_256) := by
    rw [List.map_map]
    rfl
  rw [merkleRootTagged, rejectIf_neg hne, ok_bind, hleaves]
  dsimp only
  rw [merkleReduce_digest h, List.length_map, List.length_map, hreduce]
  rfl

/-! ## 2. What is hashed -/

/-- The strings hashed for the tree over `ids`. -/
def treeStrings (code : TreeCode Bytes32 Bytes Bytes32) (ids : List Bytes32) : List Bytes :=
  ((HashTree.ofList ids).map (code.messages sha3_256)).getD []

/-- The strings `merkle_root_txids` hashes. -/
def hashedTxidStrings (txids : List Bytes32) : List Bytes := treeStrings txidCode txids

/-- The strings `witness_merkle_root_wtxids` hashes. -/
def hashedWtxidStrings (wtxids : List Bytes32) : List Bytes :=
  treeStrings wtxidCode (zero32 :: wtxids.tail)

theorem treeStrings_eq {code : TreeCode Bytes32 Bytes Bytes32} {t : HashTree Bytes32}
    (h : HashTree.ofList ids = some t) : treeStrings code ids = code.messages sha3_256 t := by
  rw [treeStrings, h]
  rfl

theorem merkleRootTagged_inj (h : leafTag ≠ nodeTag) {ids' : List Bytes32} (hne : ids ≠ [])
    (hne' : ids' ≠ [])
    (hinj : Set.InjOn sha3_256 {s | s ∈ treeStrings (merkleCode leafTag nodeTag h) ids ∨
      s ∈ treeStrings (merkleCode leafTag nodeTag h) ids'})
    (heq : merkleRootTagged ids leafTag nodeTag = merkleRootTagged ids' leafTag nodeTag) :
    ids = ids' := by
  obtain ⟨t, hlist, hfringe, hroot⟩ := merkleRootTagged_eq leafTag nodeTag h hne
  obtain ⟨t', hlist', hfringe', hroot'⟩ := merkleRootTagged_eq leafTag nodeTag h hne'
  rw [treeStrings_eq hlist, treeStrings_eq hlist'] at hinj
  rw [hroot, hroot', Except.ok.injEq] at heq
  rw [← hfringe, ← hfringe', TreeCode.digest_inj hinj heq]

omit [Crypto] in
theorem head_message (leafTag nodeTag : UInt8) (h : leafTag ≠ nodeTag) (hash : Bytes → Bytes32)
    (t : HashTree Bytes32) :
    ((merkleCode leafTag nodeTag h).message hash t).head? = some leafTag ∨
      ((merkleCode leafTag nodeTag h).message hash t).head? = some nodeTag := by
  cases t with
  | leaf id => exact Or.inl rfl
  | node l r => exact Or.inr rfl

/-- The two kinds of root never meet: every string of the one starts with a tag the other does
not use. -/
theorem txid_root_ne_witness_root {ids' : List Bytes32} (hne : ids ≠ []) (hne' : ids' ≠ [])
    (hinj : Set.InjOn sha3_256 {s | s ∈ hashedTxidStrings ids ∨ s ∈ hashedWtxidStrings ids'}) :
    merkleRootTxids ids ≠ witnessMerkleRootWtxids ids' := by
  intro heq
  obtain ⟨t, hlist, -, hroot⟩ := merkleRootTagged_eq 0x00 0x01
    (by decide) hne
  obtain ⟨t', hlist', -, hroot'⟩ := merkleRootTagged_eq 0x02 0x03
    (by decide) (List.cons_ne_nil zero32 ids'.tail)
  rw [hashedTxidStrings, hashedWtxidStrings, treeStrings_eq hlist, treeStrings_eq hlist'] at hinj
  rw [merkleRootTxids, witnessMerkleRootWtxids, rejectIf_neg hne', ok_bind, hroot, hroot',
    Except.ok.injEq] at heq
  have hmsg := hinj (Or.inl (TreeCode.message_mem_messages t))
    (Or.inr (TreeCode.message_mem_messages t')) heq
  have htag : (txidCode.message sha3_256 t).head? = (wtxidCode.message sha3_256 t').head? := by
    rw [hmsg]
  rcases head_message 0x00 0x01 (by decide) sha3_256 t with h | h <;>
    rcases head_message 0x02 0x03 (by decide) sha3_256 t' with h' | h' <;>
    exact absurd (h.symm.trans (htag.trans h')) (by decide)

/-! ## 3. The binding -/

/-- **Merkle roots bind the whole list.**  For two non-empty lists of any lengths both roots exist;
equal txid roots come from equal lists, equal witness roots from lists that agree after the ignored
first id, no txid root is a witness root, and appending anything, a copy of the tail included,
changes the root.  Each part assumes no collision among the strings hashed for its two lists. -/
theorem merkle_roots_bind (ids ids' : List Bytes32) (hne : ids ≠ []) (hne' : ids' ≠ []) :
    (∃ root wroot, merkleRootTxids ids = .ok root ∧ witnessMerkleRootWtxids ids = .ok wroot) ∧
      (Set.InjOn sha3_256 {s | s ∈ hashedTxidStrings ids ∨ s ∈ hashedTxidStrings ids'} →
        merkleRootTxids ids = merkleRootTxids ids' → ids = ids') ∧
      (Set.InjOn sha3_256 {s | s ∈ hashedWtxidStrings ids ∨ s ∈ hashedWtxidStrings ids'} →
        witnessMerkleRootWtxids ids = witnessMerkleRootWtxids ids' → ids.tail = ids'.tail) ∧
      (Set.InjOn sha3_256 {s | s ∈ hashedTxidStrings ids ∨ s ∈ hashedWtxidStrings ids'} →
        merkleRootTxids ids ≠ witnessMerkleRootWtxids ids') ∧
      (Set.InjOn sha3_256 {s | s ∈ hashedTxidStrings (ids ++ ids') ∨ s ∈ hashedTxidStrings ids} →
        merkleRootTxids (ids ++ ids') ≠ merkleRootTxids ids) := by
  refine ⟨?_, ?_, ?_, txid_root_ne_witness_root hne hne', ?_⟩
  · obtain ⟨t, -, -, hroot⟩ := merkleRootTagged_eq 0x00 0x01
      (by decide) hne
    obtain ⟨t', -, -, hroot'⟩ := merkleRootTagged_eq 0x02 0x03
      (by decide) (List.cons_ne_nil zero32 ids.tail)
    refine ⟨_, wtxidCode.digest sha3_256 t', hroot, ?_⟩
    rw [witnessMerkleRootWtxids, rejectIf_neg hne, ok_bind]
    exact hroot'
  · exact fun hinj heq => merkleRootTagged_inj (by decide) hne hne' hinj heq
  · intro hinj heq
    rw [witnessMerkleRootWtxids, witnessMerkleRootWtxids, rejectIf_neg hne, rejectIf_neg hne',
      ok_bind, ok_bind] at heq
    have hcons := merkleRootTagged_inj (by decide) (List.cons_ne_nil _ _) (List.cons_ne_nil _ _)
      hinj heq
    exact (List.cons.inj hcons).2
  · intro hinj heq
    have happend := merkleRootTagged_inj (by decide) (List.append_ne_nil_of_left_ne_nil hne _) hne
      hinj heq
    exact hne' (List.append_right_eq_self.mp happend)

end binding

/-- On the real hash: three ids, of which the last is promoted, and the same with the last one
repeated. -/
theorem merkle_roots_bind_doubled_tail :
    letI : Crypto := Crypto.sha3With fun _ _ _ => .ok true
    merkleRootTxids [zero32, powLimit, zero32] ≠ merkleRootTxids [zero32, powLimit, zero32, zero32] := by
  let _ : Crypto := Crypto.sha3With fun _ _ _ => .ok true
  have hfree : ∀ a ∈ hashedTxidStrings [zero32, powLimit, zero32] ++
      hashedTxidStrings [zero32, powLimit, zero32, zero32],
      ∀ b ∈ hashedTxidStrings [zero32, powLimit, zero32] ++
        hashedTxidStrings [zero32, powLimit, zero32, zero32],
      sha3_256 a = sha3_256 b → a = b := by
    decide +kernel
  intro heq
  have hsame := (merkle_roots_bind [zero32, powLimit, zero32] [zero32, powLimit, zero32, zero32]
    (by decide) (by decide)).2.1 (fun a ha b hb => hfree a (List.mem_append.mpr ha) b
      (List.mem_append.mpr hb)) heq
  exact absurd hsame (by decide)

end Rubin.Consensus
