/-
# The dependency graph of a block

`tx_dep_graph.rs` orders the transactions of a block for parallel validation.  It draws an edge from
a transaction to each later one that spends its output, and from the first spender of an outpoint to
each other one; the levels are longest paths over these edges.

What the graph should be is said without the scan that draws the edges and the pass that computes
the levels (`inputEdge`, `TxDepGraph.Exact`), and there is only one such graph: the one the code
builds (`txDepGraph_exact_iff`).
-/
import Mathlib.Data.List.FinRange
import Mathlib.Data.List.GetD
import Mathlib.Data.Prod.Lex
import Rubin.Consensus.ByteOrder
import Rubin.Lib.KeyedTable
import Rubin.Lib.Layering

namespace Rubin.Consensus

open Rubin.Lib

/-! ## 1. `tx_dep_graph.rs` -/

structure TxValidationContext where
  txid : Bytes32
  inputOutpoints : List Outpoint
deriving DecidableEq

inductive TxDepEdgeKind where
  | parentChild
  | samePrevout
deriving DecidableEq, Repr

def TxDepEdgeKind.discriminant : TxDepEdgeKind → Nat
  | .parentChild => 0
  | .samePrevout => 1

structure TxDepEdge where
  producerIdx : Nat
  consumerIdx : Nat
  kind : TxDepEdgeKind
deriving DecidableEq, Repr

structure TxDepGraph where
  txCount : Nat
  edges : List TxDepEdge
  levels : List Nat
  levelOrder : List Nat
  maxLevel : Nat
deriving DecidableEq, Repr

def txDepEdgeSortKey (e : TxDepEdge) : Nat ×ₗ Nat ×ₗ Nat :=
  toLex (e.consumerIdx, toLex (e.producerIdx, e.kind.discriminant))

def sortTxDepEdges (edges : List TxDepEdge) : List TxDepEdge :=
  edges.insertionSort fun d e => txDepEdgeSortKey d ≤ txDepEdgeSortKey e

/-- The levels and the greatest of them. -/
def computeTxDepLevels (txCount : Nat) (edges : List TxDepEdge) : List Nat × Nat :=
  let levels := edges.foldl (fun levels e => relaxTable levels (e.producerIdx, e.consumerIdx))
    (List.replicate txCount 0)
  (levels, levels.max?.getD 0)

def txDepLevelOrderKey (contexts : List TxValidationContext) (levels : List Nat)
    (idx : Fin contexts.length) : Nat ×ₗ Bytes32 :=
  toLex (levels.getD idx 0, contexts[idx].txid)

def computeTxDepLevelOrder (contexts : List TxValidationContext) (levels : List Nat) : List Nat :=
  ((List.finRange contexts.length).insertionSort fun i j =>
    txDepLevelOrderKey contexts levels i ≤ txDepLevelOrderKey contexts levels j).map Fin.val

def txidIndex (contexts : List TxValidationContext) : Finmap fun _ : Bytes32 => Nat :=
  insertAll (contexts.zipIdx.map fun p => (p.1.txid, p.2)) ∅

def parentChildEdge (txidToIdx : Finmap fun _ : Bytes32 => Nat) (consumerIdx : Nat)
    (outpoint : Outpoint) : Option TxDepEdge :=
  (txidToIdx.lookup outpoint.txid).bind fun producerIdx =>
    if producerIdx < consumerIdx then some ⟨producerIdx, consumerIdx, .parentChild⟩ else none

/-- The two accumulators of the scan. -/
structure EdgeScan where
  outpointFirstConsumer : Finmap fun _ : Outpoint => Nat
  edges : List TxDepEdge

def pushSamePrevoutEdge (scan : EdgeScan) (consumerIdx : Nat) (outpoint : Outpoint) : EdgeScan :=
  match scan.outpointFirstConsumer.lookup outpoint with
  | some firstIdx =>
    if firstIdx ≠ consumerIdx then
      { scan with edges := scan.edges ++
          [⟨min firstIdx consumerIdx, max firstIdx consumerIdx, .samePrevout⟩] }
    else scan
  | none =>
    { scan with outpointFirstConsumer := scan.outpointFirstConsumer.insert outpoint consumerIdx }

def scanOutpoint (txidToIdx : Finmap fun _ : Bytes32 => Nat) (consumerIdx : Nat) (scan : EdgeScan)
    (outpoint : Outpoint) : EdgeScan :=
  match parentChildEdge txidToIdx consumerIdx outpoint with
  | some edge => { scan with edges := scan.edges ++ [edge] }
  | none => pushSamePrevoutEdge scan consumerIdx outpoint

def collectTxDepEdges (contexts : List TxValidationContext)
    (txidToIdx : Finmap fun _ : Bytes32 => Nat) : List TxDepEdge :=
  let scan := contexts.zipIdx.foldl
    (fun scan p => p.1.inputOutpoints.foldl (scanOutpoint txidToIdx p.2) scan) (⟨∅, []⟩ : EdgeScan)
  scan.edges

def buildTxDepGraph (contexts : List TxValidationContext) : TxDepGraph :=
  let txCount := contexts.length
  if txCount = 0 then ⟨0, [], [], [], 0⟩
  else
    let edges := sortTxDepEdges (collectTxDepEdges contexts (txidIndex contexts))
    let levels := computeTxDepLevels txCount edges
    { txCount, edges, levels := levels.1, levelOrder := computeTxDepLevelOrder contexts levels.1
      maxLevel := levels.2 }

/-! ## 2. What the graph should be -/

/-- The inputs of the block, each with the index of its transaction. -/
def blockInputs (contexts : List TxValidationContext) : List (Nat × Outpoint) :=
  contexts.zipIdx.flatMap fun p => p.1.inputOutpoints.map fun o => (p.2, o)

/-- The transaction before `j` that has this txid. -/
def earlierTx (contexts : List TxValidationContext) (j : Nat) (txid : Bytes32) : Option Nat :=
  (contexts.take j).findIdx? fun ctx => ctx.txid = txid

/-- The first transaction with an input that names the outpoint. -/
def firstSpender (contexts : List TxValidationContext) (o : Outpoint) : Option Nat :=
  contexts.findIdx? fun ctx => o ∈ ctx.inputOutpoints

/-- The edge that an input of transaction `j` stands for. -/
def inputEdge (contexts : List TxValidationContext) (input : Nat × Outpoint) : Option TxDepEdge :=
  match earlierTx contexts input.1 input.2.txid with
  | some i => some ⟨i, input.1, .parentChild⟩
  | none =>
    match firstSpender contexts input.2 with
    | some k => if k = input.1 then none else some ⟨k, input.1, .samePrevout⟩
    | none => none

/-- There is an edge from `i` to `j`. -/
def TxDepGraph.Edge (g : TxDepGraph) (i j : Nat) : Prop :=
  ∃ e ∈ g.edges, e.producerIdx = i ∧ e.consumerIdx = j

/-- By level, then by txid. -/
def LevelOrderLe (contexts : List TxValidationContext) (levels : List Nat) (a b : Nat) : Prop :=
  levels.getD a 0 < levels.getD b 0 ∨
    levels.getD a 0 = levels.getD b 0 ∧
      ∀ ca ∈ contexts[a]?, ∀ cb ∈ contexts[b]?, ca.txid ≤ cb.txid

structure TxDepGraph.Exact (contexts : List TxValidationContext) (g : TxDepGraph) : Prop where
  txCount : g.txCount = contexts.length
  edges : (g.edges : Multiset TxDepEdge) = (blockInputs contexts).filterMap (inputEdge contexts)
  edgesSorted : g.edges.Pairwise fun d e => txDepEdgeSortKey d ≤ txDepEdgeSortKey e
  forward : ∀ e ∈ g.edges, e.producerIdx < e.consumerIdx ∧ e.consumerIdx < contexts.length
  levelsLength : g.levels.length = contexts.length
  levels : LongestPaths g.Edge fun j => g.levels.getD j 0
  maxLevel : g.maxLevel = g.levels.max?.getD 0
  orderPerm : g.levelOrder.Perm (List.range contexts.length)
  orderSorted : g.levelOrder.Pairwise (LevelOrderLe contexts g.levels)
  producersFirst : ∀ e ∈ g.edges,
    g.levelOrder.idxOf e.producerIdx < g.levelOrder.idxOf e.consumerIdx
  independent : ∀ i j, g.levels.getD i 0 = g.levels.getD j 0 → ¬ Relation.TransGen g.Edge i j

/-! ## 3. The edges -/

variable {contexts : List TxValidationContext} {j : Nat} {o : Outpoint}
  {done todo : List (Nat × Outpoint)} {x : Nat × Outpoint} {scan : EdgeScan} {e : TxDepEdge}

theorem mem_blockInputs :
    (j, o) ∈ blockInputs contexts ↔ ∃ ctx ∈ contexts[j]?, o ∈ ctx.inputOutpoints := by
  simp only [blockInputs, List.mem_flatMap, List.mem_map, Prod.exists, List.mem_zipIdx_iff_getElem?,
    Prod.mk.injEq, Option.mem_def]
  constructor
  · rintro ⟨ctx, k, hctx, o', ho, rfl, rfl⟩
    exact ⟨ctx, hctx, ho⟩
  · rintro ⟨ctx, hctx, ho⟩
    exact ⟨ctx, j, hctx, o, ho, rfl, rfl⟩

theorem txid_inj (hn : (contexts.map TxValidationContext.txid).Nodup) {i : Nat}
    (hi : i < contexts.length) (hj : j < contexts.length) (h : contexts[i].txid = contexts[j].txid) :
    i = j := by
  have hi' : i < (contexts.map TxValidationContext.txid).length := by rwa [List.length_map]
  have hj' : j < (contexts.map TxValidationContext.txid).length := by rwa [List.length_map]
  have heq : (contexts.map TxValidationContext.txid)[i] =
      (contexts.map TxValidationContext.txid)[j] := by
    rw [List.getElem_map, List.getElem_map, h]
  exact hn.getElem_inj_iff.mp heq

theorem txidIndex_lookup (hn : (contexts.map TxValidationContext.txid).Nodup) (txid : Bytes32) :
    (txidIndex contexts).lookup txid = contexts.findIdx? fun ctx => ctx.txid = txid := by
  rw [txidIndex]
  cases hfind : contexts.findIdx? fun ctx => decide (ctx.txid = txid) with
  | none =>
    rw [List.findIdx?_eq_none_iff] at hfind
    rw [lookup_insertAll_of_notMem, Finmap.lookup_empty]
    intro hmem
    simp only [List.map_map, List.mem_map, Function.comp_apply, Prod.exists] at hmem
    obtain ⟨ctx, i, hctx, rfl⟩ := hmem
    exact of_decide_eq_false (hfind ctx (List.fst_mem_of_mem_zipIdx hctx)) rfl
  | some i =>
    obtain ⟨hi, htxid, -⟩ := List.findIdx?_eq_some_iff_getElem.mp hfind
    have htxid : contexts[i].txid = txid := of_decide_eq_true htxid
    have hmem : txid ∈ (contexts.zipIdx.map fun p => (p.1.txid, p.2)).map Prod.fst := by
      rw [List.map_map, List.mem_map]
      exact ⟨(contexts[i], i), List.mem_zipIdx_iff_getElem?.mpr (List.getElem?_eq_getElem hi), htxid⟩
    obtain ⟨v, hv, hlook⟩ := lookup_insertAll_of_mem _ ∅ hmem
    rw [hlook]
    simp only [List.mem_map, Prod.mk.injEq, Prod.exists, List.mem_zipIdx_iff_getElem?] at hv
    obtain ⟨ctx, k, hctx, hk, rfl⟩ := hv
    obtain ⟨hlt, rfl⟩ := List.getElem?_eq_some_iff.mp hctx
    rw [txid_inj hn hlt hi (hk.trans htxid.symm)]

theorem parentChildEdge_eq (hn : (contexts.map TxValidationContext.txid).Nodup) (j : Nat)
    (o : Outpoint) :
    parentChildEdge (txidIndex contexts) j o =
      (earlierTx contexts j o.txid).map fun i => ⟨i, j, .parentChild⟩ := by
  rw [parentChildEdge, txidIndex_lookup hn, earlierTx, List.findIdx?_take]
  cases contexts.findIdx? fun ctx => decide (ctx.txid = o.txid) with
  | none => rfl
  | some i =>
    by_cases hi : i < j
    · simp [hi]
    · simp [hi]

theorem earlierTx_none_of_le {k : Nat} {txid : Bytes32} (hle : k ≤ j)
    (h : earlierTx contexts j txid = none) : earlierTx contexts k txid = none := by
  rw [earlierTx, List.findIdx?_eq_none_iff] at h ⊢
  exact fun ctx hctx => h ctx (List.take_subset_take_left contexts hle hctx)

theorem blockInputs_from (contexts : List TxValidationContext) (n : Nat) :
    (∀ x ∈ (contexts.zipIdx n).flatMap fun p => p.1.inputOutpoints.map fun o => (p.2, o),
      n ≤ x.1) ∧
    ((contexts.zipIdx n).flatMap fun p => p.1.inputOutpoints.map fun o => (p.2, o)).Pairwise
      fun x y => x.1 ≤ y.1 := by
  induction contexts generalizing n with
  | nil => simp
  | cons ctx contexts ih =>
    obtain ⟨hle, hsorted⟩ := ih (n + 1)
    rw [List.zipIdx_cons, List.flatMap_cons]
    constructor
    · intro x hx
      rcases List.mem_append.mp hx with hx | hx
      · obtain ⟨o, -, rfl⟩ := List.mem_map.mp hx
        exact le_rfl
      · exact (Nat.le_succ n).trans (hle x hx)
    · rw [List.pairwise_append]
      refine ⟨?_, hsorted, ?_⟩
      · rw [List.pairwise_map]
        exact List.pairwise_of_forall fun _ _ => le_rfl
      · intro x hx y hy
        obtain ⟨o, -, rfl⟩ := List.mem_map.mp hx
        exact (Nat.le_succ n).trans (hle y hy)

theorem firstSpender_from (contexts : List TxValidationContext) (o : Outpoint) (n : Nat) :
    (((contexts.zipIdx n).flatMap fun p => p.1.inputOutpoints.map fun o => (p.2, o)).find?
      fun x => x.2 = o).map Prod.fst = (firstSpender contexts o).map (· + n) := by
  induction contexts generalizing n with
  | nil => rfl
  | cons ctx contexts ih =>
    rw [List.zipIdx_cons, List.flatMap_cons, List.find?_append, firstSpender, List.findIdx?_cons]
    by_cases ho : o ∈ ctx.inputOutpoints
    · cases hfind : (ctx.inputOutpoints.map fun o => (n, o)).find? fun x => decide (x.2 = o) with
      | none =>
        rw [List.find?_eq_none] at hfind
        exact absurd (decide_eq_true rfl) (hfind (n, o) (List.mem_map.mpr ⟨o, ho, rfl⟩))
      | some x =>
        obtain ⟨o', -, rfl⟩ := List.mem_map.mp (List.mem_of_find?_eq_some hfind)
        rw [if_pos (decide_eq_true ho), Option.some_or, Option.map_some, Option.map_some,
          Nat.zero_add]
    · have hfind : ((ctx.inputOutpoints.map fun o => (n, o)).find? fun x => x.2 = o) = none := by
        rw [List.find?_eq_none]
        intro x hx
        obtain ⟨o', ho', rfl⟩ := List.mem_map.mp hx
        simp only [decide_eq_true_eq]
        rintro rfl
        exact ho ho'
      rw [hfind, if_neg (by simpa using ho), Option.none_or, ih, firstSpender, Option.map_map]
      congr 1
      funext k
      simp only [Function.comp_apply]
      omega

theorem firstSpender_eq (contexts : List TxValidationContext) (o : Outpoint) :
    firstSpender contexts o = ((blockInputs contexts).find? fun x => x.2 = o).map Prod.fst := by
  rw [blockInputs, firstSpender_from contexts o 0]
  simp

theorem le_of_blockInputs_split (hsplit : blockInputs contexts = done ++ (j, o) :: todo)
    (hx : x ∈ done) : x.1 ≤ j := by
  have hsorted : (blockInputs contexts).Pairwise fun x y => x.1 ≤ y.1 :=
    (blockInputs_from contexts 0).2
  rw [hsplit, List.pairwise_append] at hsorted
  exact hsorted.2.2 x hx (j, o) (List.mem_cons_self ..)

/-! ## 4. The scan -/

/-- After the inputs `done`: their edges, and of each outpoint the first of them that names it
without naming an earlier transaction. -/
structure ScanInv (contexts : List TxValidationContext) (done : List (Nat × Outpoint))
    (scan : EdgeScan) : Prop where
  edges : scan.edges = done.filterMap (inputEdge contexts)
  first : ∀ o, scan.outpointFirstConsumer.lookup o =
    (done.find? fun x => x.2 = o ∧ earlierTx contexts x.1 o.txid = none).map Prod.fst

theorem ScanInv.nil (contexts : List TxValidationContext) : ScanInv contexts [] ⟨∅, []⟩ :=
  ⟨rfl, fun _ => Finmap.lookup_empty _⟩

theorem ScanInv.lookup (h : ScanInv contexts done scan)
    (hsplit : blockInputs contexts = done ++ (j, o) :: todo)
    (hnone : earlierTx contexts j o.txid = none) :
    scan.outpointFirstConsumer.lookup o = (done.find? fun x => x.2 = o).map Prod.fst := by
  rw [h.first o]
  refine congrArg _ (List.find?_congr fun x hx => ?_)
  simp [earlierTx_none_of_le (le_of_blockInputs_split hsplit hx) hnone]

theorem ScanInv.first_concat (h : ScanInv contexts done scan)
    (hx : earlierTx contexts x.1 x.2.txid = none → scan.outpointFirstConsumer.lookup x.2 ≠ none)
    (o : Outpoint) : scan.outpointFirstConsumer.lookup o =
      ((done ++ [x]).find? fun x => x.2 = o ∧ earlierTx contexts x.1 o.txid = none).map
        Prod.fst := by
  rw [List.find?_append, h.first o]
  cases hfind : done.find? fun x => decide (x.2 = o ∧ earlierTx contexts x.1 o.txid = none) with
  | some y => rfl
  | none =>
    rw [Option.none_or, List.find?_singleton, if_neg]
    simp only [decide_eq_true_eq, not_and]
    rintro rfl hnone
    exact hx hnone (by rw [h.first, hfind]; rfl)

theorem ScanInv.edges_concat (h : ScanInv contexts done scan) {e : Option TxDepEdge}
    (he : inputEdge contexts x = e) :
    scan.edges ++ e.toList = (done ++ [x]).filterMap (inputEdge contexts) := by
  rw [List.filterMap_append, h.edges]
  cases e with
  | none => simp [he]
  | some e => simp [he]

theorem ScanInv.push (h : ScanInv contexts done scan)
    (hsplit : blockInputs contexts = done ++ (j, o) :: todo)
    (hearlier : earlierTx contexts j o.txid = none) :
    ScanInv contexts (done ++ [(j, o)]) (pushSamePrevoutEdge scan j o) := by
  have hlook := h.lookup hsplit hearlier
  have hfirst : firstSpender contexts o =
      ((done.find? fun x => x.2 = o).or (some (j, o))).map Prod.fst := by
    have hself : ((j, o) :: todo).find? (fun x => decide (x.2 = o)) = some (j, o) := by simp
    rw [firstSpender_eq, hsplit, List.find?_append, hself]
  cases hdone : done.find? fun x => decide (x.2 = o) with
  | none =>
    rw [hdone] at hlook hfirst
    have hnew := h.edges_concat (x := (j, o)) (e := none) (by simp [inputEdge, hearlier, hfirst])
    simp only [Option.map_none] at hlook
    simp only [pushSamePrevoutEdge, hlook]
    refine ⟨by simpa using hnew, ?_⟩
    intro o'
    rw [lookup_insert_eq, List.find?_append]
    by_cases ho : o' = o
    · subst ho
      have hold := (h.first o').symm.trans hlook
      rw [Option.map_eq_none_iff] at hold
      rw [if_pos rfl, hold]
      simp [hearlier]
    · simp [ho, Ne.symm ho, h.first]
  | some x =>
    rw [hdone] at hlook hfirst
    have hle := le_of_blockInputs_split hsplit (List.mem_of_find?_eq_some hdone)
    have hkeep := h.first_concat (x := (j, o)) fun _ hnone => by
      rw [hlook] at hnone
      cases hnone
    simp only [Option.map_some] at hlook
    by_cases hxj : x.1 = j
    · have hnew := h.edges_concat (x := (j, o)) (e := none)
        (by simp [inputEdge, hearlier, hfirst, hxj])
      simp only [pushSamePrevoutEdge, hlook, hxj, ne_eq, not_true_eq_false, if_false]
      exact ⟨by simpa using hnew, hkeep⟩
    · have hnew := h.edges_concat (x := (j, o)) (e := some ⟨x.1, j, .samePrevout⟩)
        (by simp [inputEdge, hearlier, hfirst, hxj])
      simp only [pushSamePrevoutEdge, hlook, ne_eq, hxj, not_false_eq_true, if_true,
        min_eq_left hle, max_eq_right hle]
      exact ⟨hnew, hkeep⟩

theorem ScanInv.step (hn : (contexts.map TxValidationContext.txid).Nodup)
    (h : ScanInv contexts done scan) (hsplit : blockInputs contexts = done ++ (j, o) :: todo) :
    ScanInv contexts (done ++ [(j, o)]) (scanOutpoint (txidIndex contexts) j scan o) := by
  rw [scanOutpoint, parentChildEdge_eq hn]
  cases hearlier : earlierTx contexts j o.txid with
  | none => exact h.push hsplit hearlier
  | some i =>
    refine ⟨h.edges_concat (e := some ⟨i, j, .parentChild⟩) ?_, h.first_concat ?_⟩
    · simp only [inputEdge, hearlier]
    · rw [hearlier]
      exact fun hnone => nomatch hnone

theorem ScanInv.run (hn : (contexts.map TxValidationContext.txid).Nodup) :
    ∀ {todo done : List (Nat × Outpoint)}
    {scan : EdgeScan}, ScanInv contexts done scan → blockInputs contexts = done ++ todo →
      ScanInv contexts (blockInputs contexts)
        (todo.foldl (fun scan x => scanOutpoint (txidIndex contexts) x.1 scan x.2) scan) := by
  intro todo
  induction todo with
  | nil =>
    intro done scan h hsplit
    rw [hsplit, List.append_nil]
    exact h
  | cons x todo ih =>
    intro done scan h hsplit
    refine ih (h.step hn hsplit) ?_
    rw [hsplit, List.append_assoc, List.singleton_append]

theorem collectTxDepEdges_eq (hn : (contexts.map TxValidationContext.txid).Nodup) :
    collectTxDepEdges contexts (txidIndex contexts) =
      (blockInputs contexts).filterMap (inputEdge contexts) := by
  have hrun : ScanInv contexts (blockInputs contexts) ((blockInputs contexts).foldl
      (fun scan x => scanOutpoint (txidIndex contexts) x.1 scan x.2) ⟨∅, []⟩) :=
    (ScanInv.nil contexts).run hn (List.nil_append _).symm
  rw [← hrun.edges]
  simp only [collectTxDepEdges, blockInputs, List.foldl_flatMap, List.foldl_map]

/-! ## 5. The graph -/

theorem inputEdge_forward (hx : x ∈ blockInputs contexts) (he : inputEdge contexts x = some e) :
    e.producerIdx < e.consumerIdx ∧ e.consumerIdx < contexts.length := by
  obtain ⟨j, o⟩ := x
  obtain ⟨ctx, hctx, ho⟩ := mem_blockInputs.mp hx
  obtain ⟨hj, rfl⟩ := List.getElem?_eq_some_iff.mp hctx
  simp only [inputEdge] at he
  split at he
  · rename_i i hearlier
    cases he
    obtain ⟨hi, -⟩ := List.findIdx?_eq_some_iff_getElem.mp hearlier
    rw [List.length_take] at hi
    exact ⟨hi.trans_le (min_le_left _ _), hj⟩
  · split at he
    · rename_i k hfirst
      split at he
      · cases he
      · rename_i hne
        cases he
        refine ⟨lt_of_le_of_ne ?_ hne, hj⟩
        obtain ⟨hk, -, hmin⟩ := List.findIdx?_eq_some_iff_getElem.mp hfirst
        exact not_lt.mp fun hlt => hmin j hlt (decide_eq_true ho)
    · cases he

theorem txDepEdgeSortKey_inj {d : TxDepEdge} (h : txDepEdgeSortKey d = txDepEdgeSortKey e) :
    d = e := by
  obtain ⟨p, c, k⟩ := d
  obtain ⟨p', c', k'⟩ := e
  simp only [txDepEdgeSortKey, EmbeddingLike.apply_eq_iff_eq, Prod.mk.injEq] at h
  obtain ⟨rfl, rfl, hk⟩ := h
  cases k with
  | parentChild => cases k' with
    | parentChild => rfl
    | samePrevout => cases hk
  | samePrevout => cases k' with
    | parentChild => cases hk
    | samePrevout => rfl

theorem consumerIdx_le_of_key {d : TxDepEdge} (h : txDepEdgeSortKey d ≤ txDepEdgeSortKey e) :
    d.consumerIdx ≤ e.consumerIdx := by
  rcases Prod.Lex.le_iff.mp h with h | h
  · exact le_of_lt h
  · exact le_of_eq h.1

theorem mem_edges_forward {edges : List TxDepEdge}
    (h : (edges : Multiset TxDepEdge) = (blockInputs contexts).filterMap (inputEdge contexts)) :
    ∀ e ∈ edges, e.producerIdx < e.consumerIdx ∧ e.consumerIdx < contexts.length := by
  intro e he
  have he := (Multiset.coe_eq_coe.mp h).mem_iff.mp he
  obtain ⟨x, hx, hxe⟩ := List.mem_filterMap.mp he
  exact inputEdge_forward hx hxe

theorem computeTxDepLevels_spec {n : Nat} {edges : List TxDepEdge}
    (hrange : ∀ e ∈ edges, e.producerIdx < e.consumerIdx ∧ e.consumerIdx < n)
    (hsorted : edges.Pairwise fun d e => txDepEdgeSortKey d ≤ txDepEdgeSortKey e) :
    (computeTxDepLevels n edges).1.length = n ∧
      LongestPaths (fun i j => ∃ e ∈ edges, e.producerIdx = i ∧ e.consumerIdx = j)
        fun j => (computeTxDepLevels n edges).1.getD j 0 := by
  let pairs := edges.map fun e => (e.producerIdx, e.consumerIdx)
  have hfold : (computeTxDepLevels n edges).1 = pairs.foldl relaxTable (List.replicate n 0) :=
    List.foldl_map.symm
  have hedge : (fun i j => ∃ e ∈ edges, e.producerIdx = i ∧ e.consumerIdx = j) =
      fun i j => (i, j) ∈ pairs := by
    funext i j
    simp only [pairs, List.mem_map, Prod.mk.injEq]
  rw [hfold, hedge]
  refine ⟨by rw [length_foldl_relaxTable, List.length_replicate], ?_⟩
  refine foldl_relaxTable_longestPaths ?_ ?_
  · intro p hp
    obtain ⟨e, he, rfl⟩ := List.mem_map.mp hp
    exact hrange e he
  · rw [List.pairwise_map]
    exact hsorted.imp consumerIdx_le_of_key

theorem computeTxDepLevelOrder_spec (contexts : List TxValidationContext) (levels : List Nat) :
    (computeTxDepLevelOrder contexts levels).Perm (List.range contexts.length) ∧
      (computeTxDepLevelOrder contexts levels).Pairwise (LevelOrderLe contexts levels) := by
  constructor
  · have hperm := (List.perm_insertionSort (fun i j => txDepLevelOrderKey contexts levels i ≤
      txDepLevelOrderKey contexts levels j) (List.finRange contexts.length)).map Fin.val
    rw [List.map_coe_finRange_eq_range] at hperm
    exact hperm
  · rw [computeTxDepLevelOrder, List.pairwise_map]
    let _ : Std.Total fun i j => txDepLevelOrderKey contexts levels i ≤
      txDepLevelOrderKey contexts levels j := ⟨fun _ _ => le_total _ _⟩
    let _ : IsTrans (Fin contexts.length) fun i j => txDepLevelOrderKey contexts levels i ≤
      txDepLevelOrderKey contexts levels j := ⟨fun _ _ _ => le_trans⟩
    refine (List.pairwise_insertionSort _ _).imp ?_
    intro a b h
    rcases Prod.Lex.le_iff.mp h with h | ⟨hlevel, htxid⟩
    · exact Or.inl h
    · refine Or.inr ⟨hlevel, ?_⟩
      intro ca hca cb hcb
      rw [Option.mem_def, List.getElem?_eq_getElem a.isLt, Option.some_inj] at hca
      rw [Option.mem_def, List.getElem?_eq_getElem b.isLt, Option.some_inj] at hcb
      rw [← hca, ← hcb]
      exact htxid

/-- Where the txids are distinct the level order leaves no choice. -/
theorem LevelOrderLe.antisymm {levels : List Nat}
    (hn : (contexts.map TxValidationContext.txid).Nodup) {a b : Nat} (ha : a < contexts.length)
    (hb : b < contexts.length) (hab : LevelOrderLe contexts levels a b)
    (hba : LevelOrderLe contexts levels b a) : a = b := by
  rcases hab with hlt | ⟨heq, htxid⟩
  · rcases hba with hgt | ⟨heq, -⟩
    · omega
    · omega
  · rcases hba with hgt | ⟨-, htxid'⟩
    · omega
    · have hca : contexts[a] ∈ contexts[a]? := List.getElem?_eq_getElem ha
      have hcb : contexts[b] ∈ contexts[b]? := List.getElem?_eq_getElem hb
      exact txid_inj hn ha hb (le_antisymm (htxid _ hca _ hcb) (htxid' _ hcb _ hca))

theorem idxOf_lt_of_pairwise {r : Nat → Nat → Prop} {l : List Nat} (hsorted : l.Pairwise r)
    {a b : Nat} (ha : a ∈ l) (hb : b ∈ l) (hba : ¬ r b a) (hne : a ≠ b) :
    l.idxOf a < l.idxOf b := by
  have hia := List.idxOf_lt_length_iff.mpr ha
  have hib := List.idxOf_lt_length_iff.mpr hb
  rcases lt_trichotomy (l.idxOf a) (l.idxOf b) with hlt | heq | hgt
  · exact hlt
  · exact absurd ((List.idxOf_inj ha).mp heq) hne
  · have hr := List.pairwise_iff_getElem.mp hsorted _ _ hib hia hgt
    rw [List.getElem_idxOf, List.getElem_idxOf] at hr
    exact absurd hr hba

theorem producersFirst_of_sorted {g : TxDepGraph}
    (hforward : ∀ e ∈ g.edges, e.producerIdx < e.consumerIdx ∧ e.consumerIdx < contexts.length)
    (hlevels : LongestPaths g.Edge fun j => g.levels.getD j 0)
    (hperm : g.levelOrder.Perm (List.range contexts.length))
    (hsorted : g.levelOrder.Pairwise (LevelOrderLe contexts g.levels)) (he : e ∈ g.edges) :
    g.levelOrder.idxOf e.producerIdx < g.levelOrder.idxOf e.consumerIdx := by
  obtain ⟨hlt, hrange⟩ := hforward e he
  have hlevel := hlevels.edge_lt ⟨e, he, rfl, rfl⟩
  refine idxOf_lt_of_pairwise hsorted ?_ ?_ ?_ (Nat.ne_of_lt hlt)
  · exact hperm.mem_iff.mpr (List.mem_range.mpr (hlt.trans hrange))
  · exact hperm.mem_iff.mpr (List.mem_range.mpr hrange)
  · rintro (h | ⟨h, -⟩)
    · exact absurd h hlevel.not_gt
    · exact absurd h hlevel.ne'

theorem buildTxDepGraph_eq (contexts : List TxValidationContext) :
    buildTxDepGraph contexts =
      let edges := sortTxDepEdges (collectTxDepEdges contexts (txidIndex contexts))
      let levels := computeTxDepLevels contexts.length edges
      ⟨contexts.length, edges, levels.1, computeTxDepLevelOrder contexts levels.1, levels.2⟩ := by
  cases contexts with
  | nil => rfl
  | cons ctx contexts => rw [buildTxDepGraph, if_neg (by simp)]

theorem buildTxDepGraph_exact (hn : (contexts.map TxValidationContext.txid).Nodup) :
    (buildTxDepGraph contexts).Exact contexts := by
  rw [buildTxDepGraph_eq, collectTxDepEdges_eq hn]
  dsimp only
  generalize hedges : sortTxDepEdges ((blockInputs contexts).filterMap (inputEdge contexts)) = edges
  have hperm : (edges : Multiset TxDepEdge) =
      (blockInputs contexts).filterMap (inputEdge contexts) := by
    rw [← hedges, Multiset.coe_eq_coe]
    exact List.perm_insertionSort _ _
  have hsorted : edges.Pairwise fun d e => txDepEdgeSortKey d ≤ txDepEdgeSortKey e := by
    let _ : Std.Total fun d e => txDepEdgeSortKey d ≤ txDepEdgeSortKey e :=
      ⟨fun _ _ => le_total _ _⟩
    let _ : IsTrans TxDepEdge fun d e => txDepEdgeSortKey d ≤ txDepEdgeSortKey e :=
      ⟨fun _ _ _ => le_trans⟩
    rw [← hedges]
    exact List.pairwise_insertionSort _ _
  have hforward := mem_edges_forward hperm
  obtain ⟨hlength, hlevels⟩ := computeTxDepLevels_spec hforward hsorted
  obtain ⟨horder, horderSorted⟩ :=
    computeTxDepLevelOrder_spec contexts (computeTxDepLevels contexts.length edges).1
  exact {
    txCount := rfl
    edges := hperm
    edgesSorted := hsorted
    forward := hforward
    levelsLength := hlength
    levels := hlevels
    maxLevel := rfl
    orderPerm := horder
    orderSorted := horderSorted
    producersFirst := fun _ he =>
      producersFirst_of_sorted (g := ⟨_, edges, _, _, _⟩) hforward hlevels horder horderSorted he
    independent := fun i j heq hdep => (hlevels.transGen_lt hdep).ne heq }

theorem TxDepGraph.Exact.unique (hn : (contexts.map TxValidationContext.txid).Nodup)
    {g g' : TxDepGraph} (h : g.Exact contexts) (h' : g'.Exact contexts) : g = g' := by
  have hedges : g.edges = g'.edges := by
    refine (Multiset.coe_eq_coe.mp (h.edges.trans h'.edges.symm)).eq_of_pairwise ?_ h.edgesSorted
      h'.edgesSorted
    exact fun d e _ _ hde hed => txDepEdgeSortKey_inj (le_antisymm hde hed)
  have hedge : g.Edge = g'.Edge := by
    funext i j
    rw [TxDepGraph.Edge, TxDepGraph.Edge, hedges]
  have hlevels : g.levels = g'.levels := by
    have hget := h.levels.unique (hedge ▸ h'.levels)
    refine List.ext_getElem (h.levelsLength.trans h'.levelsLength.symm) fun i hi hi' => ?_
    have hget := congrFun hget i
    rw [List.getD_eq_getElem _ _ hi, List.getD_eq_getElem _ _ hi'] at hget
    exact hget
  have horder : g.levelOrder = g'.levelOrder := by
    refine (h.orderPerm.trans h'.orderPerm.symm).eq_of_pairwise ?_ h.orderSorted
      (hlevels ▸ h'.orderSorted)
    intro a b ha hb hab hba
    have ha := List.mem_range.mp (h.orderPerm.mem_iff.mp ha)
    have hb := List.mem_range.mp (h'.orderPerm.mem_iff.mp hb)
    exact hab.antisymm hn ha hb hba
  have hmax : g.maxLevel = g'.maxLevel := by
    rw [h.maxLevel, h'.maxLevel, hlevels]
  obtain ⟨count, edges, levels, order, top⟩ := g
  obtain ⟨count', edges', levels', order', top'⟩ := g'
  have hcount := h.txCount.trans h'.txCount.symm
  dsimp only at hcount hedges hlevels horder hmax
  subst hcount hedges hlevels horder hmax
  rfl

/-- **The graph is exact.**  For transactions with distinct txids there is exactly one graph with
one edge per input as `inputEdge` says, levels that are longest paths and an order by level and
txid; the code builds it, and its order puts producers first. -/
theorem txDepGraph_exact_iff (contexts : List TxValidationContext)
    (hn : (contexts.map TxValidationContext.txid).Nodup) (g : TxDepGraph) :
    g.Exact contexts ↔ g = buildTxDepGraph contexts := by
  constructor
  · exact fun h => h.unique hn (buildTxDepGraph_exact hn)
  · rintro rfl
    exact buildTxDepGraph_exact hn

/-- Three transactions: the second spends the first, the third what the first spends. -/
def sampleContexts : List TxValidationContext :=
  let id (n : UInt8) : Bytes32 := BytesN.replicate 32 n
  [⟨id 3, [⟨id 9, 0⟩]⟩, ⟨id 2, [⟨id 3, 0⟩]⟩, ⟨id 1, [⟨id 9, 0⟩, ⟨id 8, 0⟩]⟩]

theorem txDepGraph_exact_iff_sample :
    (TxDepGraph.mk 3 [⟨0, 1, .parentChild⟩, ⟨0, 2, .samePrevout⟩] [0, 1, 1] [0, 2, 1] 1).Exact
      sampleContexts :=
  (txDepGraph_exact_iff sampleContexts (by decide) _).mpr (by decide +kernel)

end Rubin.Consensus
