/-
# The transaction context of a Simplicity program

`simplicity_txcontext.rs`.  A covenant program sees the transaction through this context: the sums,
a view of every input and output, and the group of inputs and outputs that carry its own program
root.  Balance checks rely on the groups being complete and in order.

The descriptor hashes, which charge the execution meter, are left to the evaluator.
-/
import Rubin.Consensus.Covenants
import Rubin.Lib.FiniteMap

namespace Rubin.Consensus

open Rubin.Lib

/-! ## 1. The context -/

structure SimplicityTxContextBase where
  chainId : Bytes32
  totalIn : Nat
  totalOut : Nat
  height : Nat
  txNonce : UInt64
  locktime : UInt32
  inputCount : UInt16
  outputCount : UInt16
  txKind : UInt8

structure SimplicityTxContextIoView where
  value : UInt64
  covenantType : UInt16
deriving DecidableEq

structure SimplicityTxContextGroupEntry where
  state : Bytes
  value : UInt64
deriving DecidableEq

structure SimplicityTxContextSameCmrView where
  programCmr : Bytes32
  inputs : List SimplicityTxContextGroupEntry
  outputs : List SimplicityTxContextGroupEntry
deriving DecidableEq

structure SimplicityTxContextDaCommitView where
  daId : Bytes32
  retlDomainId : Bytes32
  txDataRoot : Bytes32
  stateRoot : Bytes32
  withdrawalsRoot : Bytes32
  batchNumber : UInt64
  chunkCount : UInt16

structure SimplicityTxContextDaChunkView where
  daId : Bytes32
  chunkHash : Bytes32
  chunkIndex : UInt16

/-- The kind of the view with the core it shows; the source keeps a zero core beside it. -/
inductive SimplicityTxContextDaView
  | absent
  | commit (core : SimplicityTxContextDaCommitView)
  | chunk (core : SimplicityTxContextDaChunkView)

/-- One per input, whatever its covenant. -/
structure SimplicityTxContextSelfSource where
  programCmr : Bytes32
  state : Bytes
  value : UInt64
  isCoreSimplicity : Bool

structure SimplicityTxContextDescriptorSource where
  covenantType : UInt16
  covenantData : Bytes

structure SimplicityTxContext where
  base : SimplicityTxContextBase
  inputViews : List SimplicityTxContextIoView
  outputViews : List SimplicityTxContextIoView
  selfSources : List SimplicityTxContextSelfSource
  groupInputs : Finmap fun _ : Bytes32 => List SimplicityTxContextGroupEntry
  groupOutputs : Finmap fun _ : Bytes32 => List SimplicityTxContextGroupEntry
  daView : SimplicityTxContextDaView
  inputDescriptors : List SimplicityTxContextDescriptorSource
  outputDescriptors : List SimplicityTxContextDescriptorSource

/-! ## 2. Building it -/

/-- `sum_values`, in 128 bits. -/
def sumValues (values : List UInt64) : Except TxError Nat :=
  values.foldlM (fun total value => do
    rejectIf (2 ^ 128 ≤ total + value.toNat) (.parse "u128 overflow")
    .ok (total + value.toNat)) 0

/-- What a covenant that runs no program leaves at its index. -/
def noSelfSource : SimplicityTxContextSelfSource := ⟨zero32, [], 0, false⟩

/-- One turn of `populate_simplicity_tx_context_input_views`. -/
def populateInput (ctx : SimplicityTxContext) (entry : UtxoEntry) :
    Except TxError SimplicityTxContext :=
  let ctx : SimplicityTxContext := { ctx with
    inputViews := ctx.inputViews ++ [⟨entry.value, entry.covenantType⟩]
    inputDescriptors := ctx.inputDescriptors ++ [⟨entry.covenantType, entry.covenantData⟩] }
  if entry.covenantType ≠ covTypeCoreSimplicity then
    .ok { ctx with selfSources := ctx.selfSources ++ [noSelfSource] }
  else do
    let parsed ← parseCoreSimplicityCovenantData entry.value entry.covenantData
    let group : List SimplicityTxContextGroupEntry :=
      (ctx.groupInputs.lookup parsed.1).getD [] ++ [⟨parsed.2, entry.value⟩]
    rejectIf (simplicityMaxGroupInputs < group.length)
      ⟨.txErrCovenantTypeInvalid, "CORE_SIMPLICITY same-cmr input group exceeds limit"⟩
    .ok { ctx with
      selfSources := ctx.selfSources ++ [⟨parsed.1, parsed.2, entry.value, true⟩]
      groupInputs := ctx.groupInputs.insert parsed.1 group }

/-- One turn of `populate_simplicity_tx_context_output_views`; outputs have no limit. -/
def populateOutput (ctx : SimplicityTxContext) (out : TxOutput) :
    Except TxError SimplicityTxContext :=
  let ctx : SimplicityTxContext := { ctx with
    outputViews := ctx.outputViews ++ [⟨out.value, out.covenantType⟩]
    outputDescriptors := ctx.outputDescriptors ++ [⟨out.covenantType, out.covenantData⟩] }
  if out.covenantType ≠ covTypeCoreSimplicity then .ok ctx
  else do
    let parsed ← parseCoreSimplicityCovenantData out.value out.covenantData
    let group : List SimplicityTxContextGroupEntry :=
      (ctx.groupOutputs.lookup parsed.1).getD [] ++ [⟨parsed.2, out.value⟩]
    .ok { ctx with groupOutputs := ctx.groupOutputs.insert parsed.1 group }

def validateSimplicityTxContextDaCommitCore (core : Option DaCommitCore) :
    Except TxError DaCommitCore :=
  match core with
  | some core =>
    if core.chunkCount ≠ 0 ∧ core.chunkCount.toNat ≤ maxDaChunkCount ∧
        core.batchSig.length ≤ maxDaManifestBytesPerTx then .ok core
    else .error (.parse "invalid da_commit_core for tx_kind=0x01")
  | none => .error (.parse "invalid da_commit_core for tx_kind=0x01")

def buildSimplicityTxContextDaView (tx : Tx) : Except TxError SimplicityTxContextDaView :=
  if tx.txKind = 0x00 then .ok .absent
  else if tx.txKind = 0x01 then do
    let core ← validateSimplicityTxContextDaCommitCore tx.daCommitCore
    .ok (.commit ⟨core.daId, core.retlDomainId, core.txDataRoot, core.stateRoot,
      core.withdrawalsRoot, core.batchNumber, core.chunkCount⟩)
  else if tx.txKind = 0x02 then do
    let core ← okOr tx.daChunkCore (.parse "missing da_chunk_core for tx_kind=0x02")
    rejectIf (maxDaChunkCount ≤ core.chunkIndex.toNat)
      (.parse "chunk_index out of range for tx_kind=0x02")
    .ok (.chunk ⟨core.daId, core.chunkHash, core.chunkIndex⟩)
  else .error (.parse "unsupported tx_kind")

/-- The part of `build_simplicity_tx_context` after it has seen that a program is to run. -/
def simplicityTxContext (tx : Tx) (resolvedInputs : List UtxoEntry) (blockHeight : Nat)
    (chainId : Bytes32) : Except TxError SimplicityTxContext := do
  let totalIn ← sumValues (resolvedInputs.map UtxoEntry.value)
  let totalOut ← sumValues (tx.outputs.map TxOutput.value)
  let base : SimplicityTxContextBase :=
    ⟨chainId, totalIn, totalOut, blockHeight, tx.txNonce, tx.locktime,
      UInt16.ofNat tx.inputs.length, UInt16.ofNat tx.outputs.length, tx.txKind⟩
  let ctx ← resolvedInputs.foldlM populateInput ⟨base, [], [], [], ∅, ∅, .absent, [], []⟩
  let ctx ← tx.outputs.foldlM populateOutput ctx
  let daView ← buildSimplicityTxContextDaView tx
  .ok { ctx with daView }

def buildSimplicityTxContext (tx : Tx) (resolvedInputs : List UtxoEntry) (blockHeight : Nat)
    (chainId : Bytes32) : Except TxError (Option SimplicityTxContext) := do
  rejectIf (tx.inputs.length ≠ resolvedInputs.length)
    (.parse "simplicity txcontext resolved input count mismatch")
  rejectIf (maxTxInputs < tx.inputs.length) (.parse "simplicity txcontext input_count overflow")
  rejectIf (maxTxOutputs < tx.outputs.length) (.parse "simplicity txcontext output_count overflow")
  if ∃ entry ∈ resolvedInputs, entry.covenantType = covTypeCoreSimplicity then do
    let ctx ← simplicityTxContext tx resolvedInputs blockHeight chainId
    .ok (some ctx)
  else .ok none

/-- The source of an index, which `self_view` and `same_cmr_view` start from. -/
def SimplicityTxContext.selfSource (ctx : SimplicityTxContext) (inputIndex : UInt16) :
    Except TxError SimplicityTxContextSelfSource := do
  let source ← okOr ctx.selfSources[inputIndex.toNat]?
    (.parse "simplicity txcontext self input index out of range")
  rejectIf (source.isCoreSimplicity = false)
    ⟨.txErrCovenantTypeInvalid, "simplicity txcontext self input is not CORE_SIMPLICITY"⟩
  .ok source

def SimplicityTxContext.sameCmrView (ctx : SimplicityTxContext) (inputIndex : UInt16) :
    Except TxError SimplicityTxContextSameCmrView := do
  let source ← ctx.selfSource inputIndex
  .ok ⟨source.programCmr, (ctx.groupInputs.lookup source.programCmr).getD [],
    (ctx.groupOutputs.lookup source.programCmr).getD []⟩

/-! ## 3. The loops -/

/-- What the context reads of an input or an output. -/
structure SimplicityCell where
  value : UInt64
  covenantType : UInt16
  covenantData : Bytes

def UtxoEntry.cell (entry : UtxoEntry) : SimplicityCell :=
  ⟨entry.value, entry.covenantType, entry.covenantData⟩

def TxOutput.cell (out : TxOutput) : SimplicityCell :=
  ⟨out.value, out.covenantType, out.covenantData⟩

namespace SimplicityCell

/-- The root and state of a cell that carries a program. -/
def program (c : SimplicityCell) : Option (Bytes32 × Bytes) :=
  if c.covenantType = covTypeCoreSimplicity then
    (parseCoreSimplicityCovenantData c.value c.covenantData).toOption
  else none

def view (c : SimplicityCell) : SimplicityTxContextIoView := ⟨c.value, c.covenantType⟩

def selfSource (c : SimplicityCell) : SimplicityTxContextSelfSource :=
  match c.program with
  | some p => ⟨p.1, p.2, c.value, true⟩
  | none => noSelfSource

/-- The entry of a cell in the group of `root`. -/
def entryOf (root : Bytes32) (c : SimplicityCell) : Option SimplicityTxContextGroupEntry :=
  c.program.bind fun p => if p.1 = root then some ⟨p.2, c.value⟩ else none

/-- **The group of `root`**: the cells that carry it, in order. -/
def group (root : Bytes32) (cells : List SimplicityCell) : List SimplicityTxContextGroupEntry :=
  cells.filterMap (entryOf root)

/-- The cell runs no program, or its covenant data parse. -/
def Parses (c : SimplicityCell) : Prop :=
  c.covenantType = covTypeCoreSimplicity → ∃ p, c.program = some p

theorem program_of_ne {c : SimplicityCell} (h : c.covenantType ≠ covTypeCoreSimplicity) :
    c.program = none := if_neg h

theorem program_of_parse {c : SimplicityCell} {p : Bytes32 × Bytes}
    (h : c.covenantType = covTypeCoreSimplicity)
    (hp : parseCoreSimplicityCovenantData c.value c.covenantData = .ok p) : c.program = some p := by
  rw [program, if_pos h, hp]
  rfl

theorem parse_of_program {c : SimplicityCell} {p : Bytes32 × Bytes} (h : c.program = some p) :
    parseCoreSimplicityCovenantData c.value c.covenantData = .ok p := by
  rw [program] at h
  split_ifs at h
  cases hp : parseCoreSimplicityCovenantData c.value c.covenantData with
  | error e => rw [hp] at h; cases h
  | ok p' => rw [hp] at h; rw [Option.some.inj h]

theorem group_snoc (root : Bytes32) (cells : List SimplicityCell) (c : SimplicityCell) :
    group root (cells ++ [c]) = group root cells ++ (c.entryOf root).toList := by
  rw [group, List.filterMap_append, ← group, List.filterMap_cons]
  cases c.entryOf root <;> rfl

end SimplicityCell

open SimplicityCell

/-- `groups` are the groups of `cells`, an absent one being empty. -/
def Grouped (groups : Finmap fun _ : Bytes32 => List SimplicityTxContextGroupEntry)
    (cells : List SimplicityCell) : Prop :=
  ∀ root, (groups.lookup root).getD [] = group root cells

variable {groups : Finmap fun _ : Bytes32 => List SimplicityTxContextGroupEntry}
  {cells : List SimplicityCell} {c : SimplicityCell} {p : Bytes32 × Bytes}

theorem Grouped.skip (h : Grouped groups cells) (hc : c.program = none) :
    Grouped groups (cells ++ [c]) := by
  intro root
  rw [group_snoc, h root, entryOf, hc]
  exact (List.append_nil _).symm

theorem Grouped.push (h : Grouped groups cells) (hc : c.program = some p) :
    Grouped (groups.insert p.1 ((groups.lookup p.1).getD [] ++ [⟨p.2, c.value⟩])) (cells ++ [c]) := by
  intro root
  rw [getD_lookup_push, group_snoc, h root, entryOf, hc, Option.bind_some]
  split_ifs
  · rfl
  · rfl

/-- What the input loop has done after the cells `cells`. -/
structure InputsSeen (start ctx : SimplicityTxContext) (cells : List SimplicityCell) : Prop where
  base : ctx.base = start.base
  views : ctx.inputViews = cells.map view
  sources : ctx.selfSources = cells.map SimplicityCell.selfSource
  groups : Grouped ctx.groupInputs cells
  capped : ∀ root, (group root cells).length ≤ simplicityMaxGroupInputs
  parses : ∀ c ∈ cells, c.Parses
  outputViews : ctx.outputViews = start.outputViews
  groupOutputs : ctx.groupOutputs = start.groupOutputs

/-- What the output loop has done after the cells `cells`. -/
structure OutputsSeen (start ctx : SimplicityTxContext) (cells : List SimplicityCell) : Prop where
  base : ctx.base = start.base
  views : ctx.outputViews = cells.map view
  groups : Grouped ctx.groupOutputs cells
  parses : ∀ c ∈ cells, c.Parses
  inputViews : ctx.inputViews = start.inputViews
  sources : ctx.selfSources = start.selfSources
  groupInputs : ctx.groupInputs = start.groupInputs

theorem parses_snoc (h : ∀ c ∈ cells, c.Parses) (hc : c.Parses) : ∀ d ∈ cells ++ [c], d.Parses := by
  intro d hd
  rcases List.mem_append.1 hd with hd | hd
  · exact h d hd
  · rw [List.mem_singleton.1 hd]
    exact hc

theorem populateInput_seen {start ctx ctx' : SimplicityTxContext} {entry : UtxoEntry}
    (h : InputsSeen start ctx cells) (hrun : populateInput ctx entry = .ok ctx') :
    InputsSeen start ctx' (cells ++ [entry.cell]) := by
  rw [populateInput] at hrun
  have hviews : ctx.inputViews ++ [entry.cell.view] = (cells ++ [entry.cell]).map view := by
    rw [List.map_append, ← h.views]
    rfl
  have hsources : ctx.selfSources ++ [entry.cell.selfSource] =
      (cells ++ [entry.cell]).map SimplicityCell.selfSource := by
    rw [List.map_append, ← h.sources]
    rfl
  split_ifs at hrun with htype
  · obtain rfl := Except.ok.inj hrun
    have hprog : entry.cell.program = none := program_of_ne htype
    rw [SimplicityCell.selfSource, hprog] at hsources
    refine ⟨h.base, hviews, hsources, h.groups.skip hprog, ?_,
      parses_snoc h.parses fun heq => absurd heq htype, h.outputViews, h.groupOutputs⟩
    intro root
    rw [group_snoc, entryOf, hprog, Option.bind_none, Option.toList_none, List.append_nil]
    exact h.capped root
  · simp only [bind_eq_ok, exists_unit, rejectIf_eq_ok, Except.ok.injEq] at hrun
    obtain ⟨parsed, hparse, hroom, rfl⟩ := hrun
    have hprog : entry.cell.program = some parsed := program_of_parse (not_not.1 htype) hparse
    rw [SimplicityCell.selfSource, hprog] at hsources
    have hpush := h.groups.push hprog
    refine ⟨h.base, hviews, hsources, hpush, ?_, parses_snoc h.parses fun _ => ⟨parsed, hprog⟩,
      h.outputViews, h.groupOutputs⟩
    -- the check covers the group that grew; the others are as before
    intro root
    by_cases hroot : parsed.1 = root
    · rw [← hpush root, ← hroot, Finmap.lookup_insert, Option.getD_some]
      exact Nat.le_of_not_lt hroom
    · rw [group_snoc, entryOf, hprog, Option.bind_some, if_neg hroot, Option.toList_none,
        List.append_nil]
      exact h.capped root

theorem populateOutput_seen {start ctx ctx' : SimplicityTxContext} {out : TxOutput}
    (h : OutputsSeen start ctx cells) (hrun : populateOutput ctx out = .ok ctx') :
    OutputsSeen start ctx' (cells ++ [out.cell]) := by
  rw [populateOutput] at hrun
  have hviews : ctx.outputViews ++ [out.cell.view] = (cells ++ [out.cell]).map view := by
    rw [List.map_append, ← h.views]
    rfl
  split_ifs at hrun with htype
  · obtain rfl := Except.ok.inj hrun
    exact ⟨h.base, hviews, h.groups.skip (program_of_ne htype),
      parses_snoc h.parses fun heq => absurd heq htype, h.inputViews, h.sources, h.groupInputs⟩
  · simp only [bind_eq_ok, Except.ok.injEq] at hrun
    obtain ⟨parsed, hparse, rfl⟩ := hrun
    have hprog : out.cell.program = some parsed := program_of_parse (not_not.1 htype) hparse
    exact ⟨h.base, hviews, h.groups.push hprog, parses_snoc h.parses fun _ => ⟨parsed, hprog⟩,
      h.inputViews, h.sources, h.groupInputs⟩

theorem sumValues_eq {values : List UInt64} {total : Nat} (h : sumValues values = .ok total) :
    total = (values.map UInt64.toNat).sum := by
  refine foldlM_from_start (fun done total => total = (done.map UInt64.toNat).sum) rfl ?_ h
  intro done value total total' hdone hstep
  simp only [bind_eq_ok, exists_unit, rejectIf_eq_ok, Except.ok.injEq] at hstep
  rw [← hstep.2, hdone]
  simp

/-! ## 4. The projection -/

section projection

variable {tx : Tx} {resolvedInputs : List UtxoEntry} {blockHeight : Nat} {chainId : Bytes32}
  {ctx : SimplicityTxContext}

/-- All that a built context holds of the transaction. -/
structure Projects (tx : Tx) (resolvedInputs : List UtxoEntry) (ctx : SimplicityTxContext) : Prop where
  totalIn : ctx.base.totalIn = (resolvedInputs.map fun entry => entry.value.toNat).sum
  totalOut : ctx.base.totalOut = (tx.outputs.map fun out => out.value.toNat).sum
  inputViews : ctx.inputViews = (resolvedInputs.map UtxoEntry.cell).map view
  outputViews : ctx.outputViews = (tx.outputs.map TxOutput.cell).map view
  sources : ctx.selfSources = (resolvedInputs.map UtxoEntry.cell).map SimplicityCell.selfSource
  groupInputs : Grouped ctx.groupInputs (resolvedInputs.map UtxoEntry.cell)
  groupOutputs : Grouped ctx.groupOutputs (tx.outputs.map TxOutput.cell)
  capped : ∀ root,
    (group root (resolvedInputs.map UtxoEntry.cell)).length ≤ simplicityMaxGroupInputs
  inputsParse : ∀ c ∈ resolvedInputs.map UtxoEntry.cell, c.Parses
  outputsParse : ∀ c ∈ tx.outputs.map TxOutput.cell, c.Parses

theorem simplicityTxContext_projects
    (h : simplicityTxContext tx resolvedInputs blockHeight chainId = .ok ctx) :
    Projects tx resolvedInputs ctx := by
  simp only [simplicityTxContext, bind_eq_ok, Except.ok.injEq] at h
  obtain ⟨totalIn, hin, totalOut, hout, ctx₁, hinputs, ctx₂, houtputs, daView, -, rfl⟩ := h
  have h₁ := foldlM_from_start (fun done ctx => InputsSeen _ ctx (done.map UtxoEntry.cell))
    ⟨rfl, rfl, rfl, fun _ => rfl, fun _ => Nat.zero_le _, by simp, rfl, rfl⟩
    (fun done entry s s' hs hstep => by
      rw [List.map_append]
      exact populateInput_seen hs hstep) hinputs
  have h₂ := foldlM_from_start (fun done ctx => OutputsSeen ctx₁ ctx (done.map TxOutput.cell))
    ⟨rfl, h₁.outputViews, fun _ => by rw [h₁.groupOutputs]; rfl, by simp, rfl, rfl, rfl⟩
    (fun done out s s' hs hstep => by
      rw [List.map_append]
      exact populateOutput_seen hs hstep) houtputs
  have hbase := h₂.base.trans h₁.base
  refine ⟨?_, ?_, h₂.inputViews.trans h₁.views, h₂.views, h₂.sources.trans h₁.sources, ?_,
    h₂.groups, h₁.capped, h₁.parses, h₂.parses⟩
  · rw [hbase, sumValues_eq hin, List.map_map]
    rfl
  · rw [hbase, sumValues_eq hout, List.map_map]
    rfl
  · intro root
    rw [h₂.groupInputs]
    exact h₁.groups root

theorem Projects.sameCmrView (h : Projects tx resolvedInputs ctx) {i : UInt16} {root : Bytes32}
    {state : Bytes} {entry : UtxoEntry} (hi : resolvedInputs[i.toNat]? = some entry)
    (hprog : entry.cell.program = some (root, state)) :
    ctx.sameCmrView i = .ok ⟨root, group root (resolvedInputs.map UtxoEntry.cell),
      group root (tx.outputs.map TxOutput.cell)⟩ := by
  have hsource : ctx.selfSource i = .ok ⟨root, state, entry.value, true⟩ := by
    rw [SimplicityTxContext.selfSource, h.sources, List.getElem?_map, List.getElem?_map, hi]
    simp only [Option.map_some, SimplicityCell.selfSource, hprog]
    rfl
  rw [SimplicityTxContext.sameCmrView, hsource, ok_bind, ← h.groupInputs root,
    ← h.groupOutputs root]

theorem Projects.sameCmrView_none (h : Projects tx resolvedInputs ctx) {i : UInt16}
    (hi : ∀ entry, resolvedInputs[i.toNat]? = some entry →
      entry.covenantType ≠ covTypeCoreSimplicity) : ∃ e, ctx.sameCmrView i = .error e := by
  rw [SimplicityTxContext.sameCmrView, SimplicityTxContext.selfSource, h.sources,
    List.getElem?_map, List.getElem?_map]
  cases hentry : resolvedInputs[i.toNat]? with
  | none => exact ⟨_, rfl⟩
  | some entry =>
    have hprog : entry.cell.program = none := program_of_ne (hi entry hentry)
    simp only [Option.map_some, SimplicityCell.selfSource, hprog]
    exact ⟨_, rfl⟩

/-- The own entry of a cell stands in its group where the cell stands in the list. -/
theorem group_split {root : Bytes32} {state : Bytes} {i : Nat} (hi : cells[i]? = some c)
    (hprog : c.program = some (root, state)) :
    group root cells =
      group root (cells.take i) ++ ⟨state, c.value⟩ :: group root (cells.drop (i + 1)) := by
  have hsplit : cells = cells.take i ++ c :: cells.drop (i + 1) := by
    obtain ⟨hlt, rfl⟩ := List.getElem?_eq_some_iff.1 hi
    rw [← List.drop_eq_getElem_cons hlt, List.take_append_drop]
  have hown : c.entryOf root = some ⟨state, c.value⟩ := by
    rw [entryOf, hprog, Option.bind_some, if_pos rfl]
  conv_lhs => rw [hsplit]
  rw [group, List.filterMap_append, List.filterMap_cons_some hown]
  rfl

/-- **The context is a faithful projection.**  A context is built only for a transaction with a
program to run, whose program cells all parse and none of whose roots is carried by too many
inputs.  Its sums and views are those of the whole transaction.  The view of an input with a program
is the group of its root, over all inputs and over all outputs in order, with its own entry in its
place; every other index has none. -/
theorem simplicity_context_projects (tx : Tx) (resolvedInputs : List UtxoEntry)
    (blockHeight : Nat) (chainId : Bytes32) (ctx : SimplicityTxContext)
    (h : buildSimplicityTxContext tx resolvedInputs blockHeight chainId = .ok (some ctx)) :
    let inputs := resolvedInputs.map UtxoEntry.cell
    let outputs := tx.outputs.map TxOutput.cell
    (∃ entry ∈ resolvedInputs, entry.covenantType = covTypeCoreSimplicity) ∧
    (∀ c ∈ inputs ++ outputs, c.covenantType = covTypeCoreSimplicity →
      ∃ p, parseCoreSimplicityCovenantData c.value c.covenantData = .ok p) ∧
    (∀ root, (group root inputs).length ≤ simplicityMaxGroupInputs) ∧
    ctx.base.totalIn = (resolvedInputs.map fun entry => entry.value.toNat).sum ∧
    ctx.base.totalOut = (tx.outputs.map fun out => out.value.toNat).sum ∧
    ctx.inputViews = (resolvedInputs.map fun e => ⟨e.value, e.covenantType⟩) ∧
    ctx.outputViews = (tx.outputs.map fun o => ⟨o.value, o.covenantType⟩) ∧
    (∀ (i : UInt16) entry, resolvedInputs[i.toNat]? = some entry →
      entry.covenantType = covTypeCoreSimplicity → ∃ root state,
        parseCoreSimplicityCovenantData entry.value entry.covenantData = .ok (root, state) ∧
        ctx.sameCmrView i = .ok ⟨root, group root inputs, group root outputs⟩ ∧
        group root inputs = group root (inputs.take i.toNat) ++
          ⟨state, entry.value⟩ :: group root (inputs.drop (i.toNat + 1))) ∧
    (∀ i : UInt16, (∀ entry, resolvedInputs[i.toNat]? = some entry →
      entry.covenantType ≠ covTypeCoreSimplicity) → ∃ e, ctx.sameCmrView i = .error e) := by
  intro inputs outputs
  simp only [buildSimplicityTxContext, bind_eq_ok, exists_unit, rejectIf_eq_ok] at h
  obtain ⟨-, -, -, h⟩ := h
  split_ifs at h with hany
  · simp only [bind_eq_ok, Except.ok.injEq, Option.some.injEq] at h
    obtain ⟨ctx', hctx, rfl⟩ := h
    have hproj := simplicityTxContext_projects hctx
    refine ⟨hany, ?_, hproj.capped, hproj.totalIn, hproj.totalOut, ?_, ?_, ?_,
      fun i => hproj.sameCmrView_none⟩
    · intro c hc htype
      have hparses : c.Parses := (List.mem_append.1 hc).elim (hproj.inputsParse c)
        (hproj.outputsParse c)
      obtain ⟨p, hp⟩ := hparses htype
      exact ⟨p, parse_of_program hp⟩
    · rw [hproj.inputViews, List.map_map]
      rfl
    · rw [hproj.outputViews, List.map_map]
      rfl
    · intro i entry hi htype
      have hcell : inputs[i.toNat]? = some entry.cell := by
        rw [List.getElem?_map, hi, Option.map_some]
      obtain ⟨⟨root, state⟩, hprog⟩ :=
        hproj.inputsParse entry.cell (List.mem_of_getElem? hcell) htype
      exact ⟨root, state, parse_of_program hprog, hproj.sameCmrView hi hprog,
        group_split hcell hprog⟩
  · cases h

/-- Two inputs with one root around a plain one, and an output that carries the root on. -/
def sampleContextTx : Tx :=
  ⟨1, 0, 7, [⟨zero32, 0, [], 0⟩, ⟨zero32, 1, [], 0⟩, ⟨zero32, 2, [], 0⟩],
    [⟨9, covTypeCoreSimplicity, List.replicate 33 0⟩], 0, none, none, [], []⟩

def sampleContextInputs : List UtxoEntry :=
  [⟨5, covTypeCoreSimplicity, List.replicate 33 0, 0, false⟩, ⟨1, covTypeP2pk, [], 0, false⟩,
    ⟨6, covTypeCoreSimplicity, List.replicate 33 0, 0, false⟩]

theorem simplicity_context_projects_sample :
    ∃ ctx, buildSimplicityTxContext sampleContextTx sampleContextInputs 3 zero32 = .ok (some ctx) ∧
      ctx.base.totalIn = 12 ∧ (∃ e, ctx.sameCmrView 1 = .error e) ∧
      ctx.sameCmrView 2 = .ok ⟨zero32, [⟨[], 5⟩, ⟨[], 6⟩], [⟨[], 9⟩]⟩ := by
  obtain ⟨ctx, hctx⟩ : ∃ ctx,
      buildSimplicityTxContext sampleContextTx sampleContextInputs 3 zero32 = .ok (some ctx) := by
    have hsome : (buildSimplicityTxContext sampleContextTx sampleContextInputs 3
        zero32).toOption.join.isSome = true := by decide +kernel
    cases hbuild : buildSimplicityTxContext sampleContextTx sampleContextInputs 3 zero32 with
    | error e => rw [hbuild] at hsome; cases hsome
    | ok built =>
      cases built with
      | none => rw [hbuild] at hsome; cases hsome
      | some ctx => exact ⟨ctx, rfl⟩
  obtain ⟨-, -, -, hin, -, -, -, hview, hnone⟩ := simplicity_context_projects _ _ _ _ ctx hctx
  refine ⟨ctx, hctx, hin, hnone 1 ?_, ?_⟩
  · rintro entry ⟨⟩
    decide
  · obtain ⟨root, state, hparse, hsame, -⟩ := hview 2 _ rfl rfl
    have hroot : parseCoreSimplicityCovenantData 6 (List.replicate 33 0) = .ok (zero32, []) := by
      decide +kernel
    obtain ⟨rfl, rfl⟩ := Prod.mk.inj (Except.ok.inj (hparse.symm.trans hroot))
    rw [hsame]
    decide +kernel

end projection

end Rubin.Consensus
