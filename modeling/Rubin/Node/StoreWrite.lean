/-
# The block store, write side

The operations of `blockstore.rs` that change the canonical index, and the writes of `io_utils.rs`
under them.  An opened store keeps the index in memory, as texts and decoded by height; the data
directory holds one file for the index, three for each block, and one for the chain state.  Every
write may succeed, fail before the file is replaced or fail after it (`Lib/Journal`).

An entry of the index is the list of the bytes of its text: `rollback_canonical` accepts any text
that decodes, and the reader only lower case.  Of the index file the entries are modelled; its
envelope is in `Node/Envelope`.  An undo file stands for the record it decodes to.
-/
import Rubin.Lib.Exits
import Rubin.Lib.Journal
import Rubin.Lib.Rollback
import Rubin.Node.BlockStore
import Rubin.Node.UndoDisk

namespace Rubin.Node

open Rubin.Lib Rubin.Consensus

/-! ## 1. Files and writes -/

inductive StorePath where
  | index
  | block (hash : Bytes32)
  | header (hash : Bytes32)
  | undo (hash : Bytes32)
  | chainState
deriving DecidableEq

/-- What the data directory holds. -/
structure Files where
  blocks : FileMap Bytes
  headers : FileMap Bytes
  undos : FileMap BlockUndo
  index : List Bytes
  chainState : Option ChainState

abbrev Disk := Journal StorePath Files

inductive AtomicWriteStage where
  | beforeNamespaceCommit
  | afterNamespaceCommit
deriving DecidableEq, Repr

inductive AtomicWriteOperation where
  | overwrite
  | createIfAbsent
deriving DecidableEq, Repr

structure AtomicWriteError where
  stage : AtomicWriteStage
  destination : StorePath
  operation : AtomicWriteOperation
  primary : String
deriving DecidableEq

def atomicWriteErrorBefore (destination : StorePath) (operation : AtomicWriteOperation)
    (primary : String) : AtomicWriteError :=
  ⟨.beforeNamespaceCommit, destination, operation, primary⟩

def atomicWriteErrorAfter (destination : StorePath) (operation : AtomicWriteOperation)
    (primary : String) : AtomicWriteError :=
  ⟨.afterNamespaceCommit, destination, operation, primary⟩

/-- What the caller of a write is told. -/
def reportWrite (destination : StorePath) (operation : AtomicWriteOperation) :
    WriteOutcome → Except AtomicWriteError Unit
  | .done => .ok ()
  | .before cause => .error (atomicWriteErrorBefore destination operation cause)
  | .after cause => .error (atomicWriteErrorAfter destination operation cause)

/-- `BlockStore` in memory. -/
structure StoreIndex where
  rootPath : String
  /-- `index.canonical`. -/
  canonical : List Bytes
  canonicalHashByHeight : List Bytes32
deriving DecidableEq

/-- An opened store and the directory under it. -/
structure OpenStore where
  mem : StoreIndex
  io : Disk

abbrev StoreM : Type → Type := EStateM AtomicWriteError OpenStore

def StorePath.display (rootPath : String) : StorePath → String
  | .index => rootPath ++ "/index.json"
  | .block hash => rootPath ++ "/blocks/" ++ BlockStore.binName hash
  | .header hash => rootPath ++ "/headers/" ++ BlockStore.binName hash
  | .undo hash => rootPath ++ "/undo/" ++ BlockStore.jsonName hash
  | .chainState => "chainstate.json"

/-- One write, with its outcome taken from the script. -/
def writeFile (destination : StorePath) (operation : AtomicWriteOperation) (f : Files → Files) :
    StoreM Unit := do
  let s ← get
  set { s with io := s.io.write destination f }
  liftE (reportWrite destination operation s.io.outcome)

/-! ## 2. The index file -/

def FromHexError.toString : FromHexError → String
  | .invalidHexCharacter c index => "Invalid character '" ++
      String.ofList [Char.ofNat c.toNat] ++ "' at position " ++ Nat.repr index
  | .oddLength => "Odd number of digits"

def Hex32Error.toString : Hex32Error → String
  | .fromHex e => e.toString
  | .wrongLength got => "expected 32 bytes, got " ++ Nat.repr got

def canonicalEntry (p : Bytes × Nat) : Except String Bytes32 :=
  (parseHex32 p.1).mapError fun e =>
    "canonical[" ++ Nat.repr p.2 ++ "]: canonical: " ++ e.toString

def buildCanonicalHashCache (canonical : List Bytes) : Except String (List Bytes32) :=
  canonical.zipIdx.mapM canonicalEntry

def checkMarkerEntry (p : Bytes × Nat) : Except String Unit :=
  rejectIf (validCanonicalHashHex p.1 = false)
    ("canonical[" ++ Nat.repr p.2 ++ "]: not 64 lowercase hex characters: \"" ++
      String.ofList (p.1.map fun c => Char.ofNat c.toNat) ++ "\"")

def loadBlockstoreIndex (files : Files) : Except String (List Bytes) := do
  forEach checkMarkerEntry files.index.zipIdx
  .ok files.index

def fromParts (rootPath : String) (canonical : List Bytes) : Except String StoreIndex := do
  let canonicalHashByHeight ← buildCanonicalHashCache canonical
  .ok ⟨rootPath, canonical, canonicalHashByHeight⟩

/-- `BlockStore::open`. -/
def openBlockStore (rootPath : String) (files : Files) : Except String StoreIndex := do
  let canonical ← loadBlockstoreIndex files
  fromParts rootPath canonical

/-- The errors of the store's public operations, before they are rendered. -/
inductive StoreError where
  | write (e : AtomicWriteError)
  | text (message : String)
deriving DecidableEq

def StoreError.stage : StoreError → Option AtomicWriteStage
  | .write e => some e.stage
  | .text _ => none

namespace StoreIndex

def canonicalLen (mem : StoreIndex) : Nat := mem.canonical.length

def canonicalHash (mem : StoreIndex) (height : Nat) : Option Bytes32 :=
  mem.canonicalHashByHeight[height]?

def truncate (mem : StoreIndex) (len : Nat) : StoreIndex :=
  { mem with canonical := mem.canonical.take len,
             canonicalHashByHeight := mem.canonicalHashByHeight.take len }

def push (mem : StoreIndex) (text : Bytes) (hash : Bytes32) : StoreIndex :=
  { mem with canonical := mem.canonical ++ [text],
             canonicalHashByHeight := mem.canonicalHashByHeight ++ [hash] }

/-- `truncate` to `height` and `extend` by what `split_off` took from `old`. -/
def restoreFrom (mem old : StoreIndex) (height : Nat) : StoreIndex :=
  { mem with canonical := mem.canonical.take height ++ old.canonical.drop height,
             canonicalHashByHeight :=
               mem.canonicalHashByHeight.take height ++ old.canonicalHashByHeight.drop height }

end StoreIndex

/-! ## 3. The operations -/

namespace OpenStore

def saveBlockstoreIndex (canonical : List Bytes) : StoreM Unit :=
  writeFile .index .overwrite fun files => { files with index := canonical }

def existingContentDiffers (rootPath : String) (path : StorePath) : String :=
  "file already exists with different content: " ++ path.display rootPath

/-- An existing file is compared, and the directory is synced. -/
def writeIfAbsent (path : StorePath) (conflicts : Option Bool) (store : Files → Files) :
    StoreM Unit := do
  let s ← get
  match conflicts with
  | some differs => do
    liftE (rejectIf (differs = true)
      (atomicWriteErrorBefore path .createIfAbsent (existingContentDiffers s.mem.rootPath path)))
    writeFile path .createIfAbsent id
  | none => writeFile path .createIfAbsent store

def writeBlockFile (hash : Bytes32) (content : Bytes) : StoreM Unit := do
  let s ← get
  writeIfAbsent (.block hash) ((s.io.disk.blocks.lookup hash).map (· != content)) fun files =>
    { files with blocks := files.blocks.insert hash content }

def writeHeaderFile (hash : Bytes32) (content : Bytes) : StoreM Unit := do
  let s ← get
  writeIfAbsent (.header hash) ((s.io.disk.headers.lookup hash).map (· != content)) fun files =>
    { files with headers := files.headers.insert hash content }

def putUndo (hash : Bytes32) (undo : BlockUndo) : StoreM Unit := do
  let s ← get
  writeIfAbsent (.undo hash) ((s.io.disk.undos.lookup hash).map (· != undo)) fun files =>
    { files with undos := files.undos.insert hash undo }

def validateHeaderMatchesHash [Crypto] (headerBytes : Bytes) (hash : Bytes32) :
    Except String Unit := do
  rejectIf (headerBytes.length ≠ blockHeaderBytes)
    ("invalid header length: " ++ Nat.repr headerBytes.length)
  let computedHash ← (blockHash headerBytes).mapError TxError.toString
  rejectIf (computedHash ≠ hash) "header hash mismatch"

def persistBlockBytes [Crypto] (hash : Bytes32) (headerBytes blockBytes : Bytes) : StoreM Unit := do
  liftE ((validateHeaderMatchesHash headerBytes hash).mapError
    (atomicWriteErrorBefore (.block hash) .createIfAbsent))
  writeBlockFile hash blockBytes
  writeHeaderFile hash headerBytes

/-- Memory is changed first, and put back when nothing was written. -/
def replaceFrom (height : Nat) (hashHex : Bytes) (hash : Bytes32) : StoreM Unit := do
  let s ← get
  let next := (s.mem.truncate height).push hashHex hash
  set { s with mem := next }
  let saved ← attempt (saveBlockstoreIndex next.canonical)
  match saved with
  | .ok () => pure ()
  | .error e => do
    modify fun t => if e.stage = .beforeNamespaceCommit then
      { t with mem := t.mem.restoreFrom s.mem height } else t
    throw e

def setCanonicalTip (height : Nat) (hash : Bytes32) : StoreM Unit := do
  let s ← get
  let hashHex := Hex.encode hash.toList
  liftE (rejectIf (height > s.mem.canonical.length)
    (atomicWriteErrorBefore .index .overwrite ("height gap: got " ++ Nat.repr height ++
      ", expected <= " ++ Nat.repr s.mem.canonical.length)))
  if s.mem.canonical[height]? = some hashHex then pure () else replaceFrom height hashHex hash

def truncateCanonical (newLen : Nat) : StoreM Unit := do
  let s ← get
  liftE (rejectIf (newLen > s.mem.canonical.length)
    (atomicWriteErrorBefore .index .overwrite ("truncate_canonical new_len " ++ Nat.repr newLen ++
      " > current " ++ Nat.repr s.mem.canonical.length)))
  if newLen = s.mem.canonical.length then pure ()
  else do
    saveBlockstoreIndex (s.mem.canonical.take newLen)
    modify fun t => { t with mem := t.mem.truncate newLen }

def rewindToHeight (height : Nat) : EStateM StoreError OpenStore Unit := do
  let s ← get
  if s.mem.canonical = [] then pure ()
  else do
    liftE (rejectIf (height ≥ s.mem.canonical.length)
      (.text ("rewind height out of range: " ++ Nat.repr height)))
    let truncated ← attempt (truncateCanonical (height + 1))
    match truncated with
    | .ok () => pure ()
    | .error e => do
      modify fun t => if e.stage = .afterNamespaceCommit then
        { t with mem := t.mem.truncate (height + 1) } else t
      throw (.write e)

def rollbackCanonical (baseLen : Nat) (suffix : List Bytes) : StoreM Unit := do
  let s ← get
  let nextCanonical := s.mem.canonical.take (min baseLen s.mem.canonical.length) ++ suffix
  let nextCache ← liftE ((buildCanonicalHashCache nextCanonical).mapError
    (atomicWriteErrorBefore .index .overwrite))
  saveBlockstoreIndex nextCanonical
  modify fun t => { t with mem := { t.mem with canonical := nextCanonical,
                                               canonicalHashByHeight := nextCache } }

def commitCanonicalBlock [Crypto] (height : Nat) (hash : Bytes32) (headerBytes blockBytes : Bytes)
    (undo : BlockUndo) : StoreM Unit := do
  let s ← get
  liftE (rejectIf (undo.blockHeight ≠ height)
    (atomicWriteErrorBefore .index .overwrite ("undo block_height mismatch: commit height=" ++
      Nat.repr height ++ ", undo.block_height=" ++ Nat.repr undo.blockHeight)))
  liftE (rejectIf (height > s.mem.canonicalLen)
    (atomicWriteErrorBefore .index .overwrite ("commit_canonical_block height gap: height=" ++
      Nat.repr height ++ " > canonical_len=" ++ Nat.repr s.mem.canonicalLen)))
  if height < s.mem.canonicalLen ∧ s.mem.canonicalHash height = some hash then do
    -- the block is canonical already: its files are completed, the index is not touched
    persistBlockBytes hash headerBytes blockBytes
    putUndo hash undo
  else do
    persistBlockBytes hash headerBytes blockBytes
    putUndo hash undo
    setCanonicalTip height hash

def reloadPersistenceState : EStateM StoreError OpenStore Unit := do
  let s ← get
  let disk ← liftE ((loadBlockstoreIndex s.io.disk).mapError .text)
  let cache ← liftE ((buildCanonicalHashCache disk).mapError .text)
  set { s with mem := { s.mem with canonical := disk, canonicalHashByHeight := cache } }

/-! ## 4. One call -/

end OpenStore

/-- The cache is the decoding of the index. -/
def StoreIndex.Decodes (mem : StoreIndex) : Prop :=
  List.Forall₂ (fun text hash => parseHex32 text = .ok hash) mem.canonical mem.canonicalHashByHeight

theorem buildCanonicalHashCache_eq_ok_iff {canonical : List Bytes} {cache : List Bytes32} :
    buildCanonicalHashCache canonical = .ok cache ↔
      List.Forall₂ (fun text hash => parseHex32 text = .ok hash) canonical cache := by
  refine mapM_zipIdx_eq_ok_iff canonical (fun text _ i hash => ?_) 0 cache
  rw [canonicalEntry, mapError_eq_ok]

theorem parseHex32_encode (hash : Bytes32) : parseHex32 (Hex.encode hash.toList) = .ok hash :=
  (parseHex32_eq_ok_iff (validCanonicalHashHex_encode hash)).mpr rfl

namespace StoreIndex

variable {mem : StoreIndex}

theorem Decodes.length_eq (h : mem.Decodes) :
    mem.canonical.length = mem.canonicalHashByHeight.length := List.Forall₂.length_eq h

theorem Decodes.truncate (h : mem.Decodes) (len : Nat) : (mem.truncate len).Decodes :=
  List.forall₂_take len h

theorem Decodes.push (h : mem.Decodes) (hash : Bytes32) :
    (mem.push (Hex.encode hash.toList) hash).Decodes :=
  List.rel_append h (.cons (parseHex32_encode hash) .nil)

theorem Decodes.restoreFrom_push (h : mem.Decodes) {height : Nat}
    (hle : height ≤ mem.canonical.length) (text : Bytes) (hash : Bytes32) :
    ((mem.truncate height).push text hash).restoreFrom mem height = mem := by
  have hle' : height ≤ mem.canonicalHashByHeight.length := h.length_eq ▸ hle
  simp only [StoreIndex.restoreFrom, StoreIndex.push, StoreIndex.truncate]
  rw [List.take_append_of_le_length (by rw [List.length_take, min_eq_left hle]),
    List.take_append_of_le_length (by rw [List.length_take, min_eq_left hle']), List.take_take,
    List.take_take, min_self, List.take_append_drop, List.take_append_drop]

end StoreIndex

/-- Only files that are not the index have changed. -/
structure SameIndex (s s' : OpenStore) : Prop where
  mem : s'.mem = s.mem
  disk : s'.io.disk.index = s.io.disk.index
  log : s'.io.reached .index = s.io.reached .index

theorem SameIndex.refl (s : OpenStore) : SameIndex s s := ⟨rfl, rfl, rfl⟩

variable {s : OpenStore} {path : StorePath}

theorem SameIndex.trans {t u : OpenStore} (h : SameIndex s t) (h' : SameIndex t u) :
    SameIndex s u :=
  ⟨h'.mem.trans h.mem, h'.disk.trans h.disk, h'.log.trans h.log⟩

/-- **What one call can do to the index.**  It is left alone; or it is written, and then memory
follows the disk unless the confirmation of the write was lost; or memory is read from the disk. -/
inductive IndexStep (s : OpenStore) : Option StoreError → OpenStore → Prop
  | kept {failed : Option StoreError} {s' : OpenStore} (same : SameIndex s s') : IndexStep s failed s'
  | saved {s' : OpenStore} (decodes : s'.mem.Decodes)
      (disk : s'.io.disk.index = s'.mem.canonical)
      (log : s'.io.reached .index = s.io.reached .index ++ [.done]) : IndexStep s none s'
  | unconfirmed {e : StoreError} {s' : OpenStore} {cause : String}
      (stage : e.stage = some .afterNamespaceCommit) (decodes : s'.mem.Decodes)
      (log : s'.io.reached .index = s.io.reached .index ++ [.after cause]) : IndexStep s (some e) s'
  | reloaded {s' : OpenStore} (decodes : s'.mem.Decodes)
      (disk : s'.io.disk.index = s'.mem.canonical)
      (log : s'.io.reached .index = s.io.reached .index) : IndexStep s none s'

theorem IndexStep.after_files {s₁ s' : OpenStore} {failed : Option StoreError} (h : SameIndex s s₁)
    (h' : IndexStep s₁ failed s') : IndexStep s failed s' := by
  cases h' with
  | kept same => exact .kept (h.trans same)
  | saved decodes disk log => exact .saved decodes disk (h.log ▸ log)
  | unconfirmed stage decodes log => exact .unconfirmed stage decodes (h.log ▸ log)
  | reloaded decodes disk log => exact .reloaded decodes disk (h.log ▸ log)

/-- Both ways out of a call are steps of the index. -/
abbrev StepsIndex {α : Type} (m : EStateM StoreError OpenStore α) (s : OpenStore) : Prop :=
  Exits m s (fun _ s' => IndexStep s none s') (fun e s' => IndexStep s (some e) s')

theorem exits_writeFile {operation : AtomicWriteOperation} {f : Files → Files}
    {Q : Unit → OpenStore → Prop} {E : AtomicWriteError → OpenStore → Prop} :
    Exits (writeFile path operation f) s Q E ↔
      (s.io.outcome = .done → Q () { s with io := s.io.write path f }) ∧
      (∀ cause, s.io.outcome = .before cause →
        E (atomicWriteErrorBefore path operation cause) { s with io := s.io.write path f }) ∧
      ∀ cause, s.io.outcome = .after cause →
        E (atomicWriteErrorAfter path operation cause) { s with io := s.io.write path f } := by
  simp only [writeFile, exits_bind, exits_get, exits_set, exits_liftE]
  cases s.io.outcome <;> simp [reportWrite, Unique.forall_iff]

theorem exits_writeFile_other (hpath : path ≠ .index) {operation : AtomicWriteOperation}
    {f : Files → Files} (hf : ∀ files, (f files).index = files.index) (s : OpenStore) :
    Exits (writeFile path operation f) s (fun _ s' => SameIndex s s') (fun _ s' => SameIndex s s') := by
  have hsame : SameIndex s { s with io := s.io.write path f } := by
    refine ⟨rfl, ?_, Journal.reached_write_other hpath f⟩
    rw [Journal.write_disk]
    split
    · exact hf _
    · rfl
  exact exits_writeFile.mpr ⟨fun _ => hsame, fun _ _ => hsame, fun _ _ => hsame⟩

theorem exits_saveBlockstoreIndex {canonical : List Bytes} {Q : Unit → OpenStore → Prop}
    {E : AtomicWriteError → OpenStore → Prop} (hdone : ∀ io : Disk, io.disk.index = canonical →
      io.reached .index = s.io.reached .index ++ [.done] → Q () { s with io })
    (hbefore : ∀ (io : Disk) (e : AtomicWriteError), SameIndex s { s with io } →
      e.stage = .beforeNamespaceCommit → E e { s with io })
    (hafter : ∀ (io : Disk) (e : AtomicWriteError) (cause : String), io.disk.index = canonical →
      io.reached .index = s.io.reached .index ++ [.after cause] →
      e.stage = .afterNamespaceCommit → E e { s with io }) :
    Exits (OpenStore.saveBlockstoreIndex canonical) s Q E := by
  rw [OpenStore.saveBlockstoreIndex, exits_writeFile]
  refine ⟨fun h => ?_, fun cause h => ?_, fun cause h => ?_⟩
  · have hr : s.io.outcome.reaches = true := by rw [h]; rfl
    refine hdone _ ?_ ?_
    · rw [Journal.write_disk_of_reaches hr]
    · rw [Journal.reached_write_of_reaches hr, h]
  · have hr : s.io.outcome.reaches = false := by rw [h]; rfl
    refine hbefore _ _ ⟨rfl, ?_, ?_⟩ rfl
    · rw [Journal.write_disk_of_not_reaches hr]
    · rw [Journal.reached_write_of_not_reaches hr]
  · have hr : s.io.outcome.reaches = true := by rw [h]; rfl
    refine hafter _ _ cause ?_ ?_ rfl
    · rw [Journal.write_disk_of_reaches hr]
    · rw [Journal.reached_write_of_reaches hr, h]

namespace OpenStore

theorem exits_writeIfAbsent (hpath : path ≠ .index) {conflicts : Option Bool}
    {store : Files → Files} (hstore : ∀ files, (store files).index = files.index) (s : OpenStore) :
    Exits (writeIfAbsent path conflicts store) s (fun _ s' => SameIndex s s')
      (fun _ s' => SameIndex s s') := by
  simp only [writeIfAbsent, exits_bind, exits_get]
  cases conflicts with
  | none => exact exits_writeFile_other hpath hstore s
  | some differs =>
    simp only [exits_bind, exits_reject]
    exact ⟨fun _ => exits_writeFile_other hpath (fun _ => rfl) s, fun _ => SameIndex.refl s⟩

theorem exits_persistBlockBytes [Crypto] (hash : Bytes32) (headerBytes blockBytes : Bytes)
    (s : OpenStore) : Exits (persistBlockBytes hash headerBytes blockBytes) s
      (fun _ s' => SameIndex s s') (fun _ s' => SameIndex s s') := by
  simp only [persistBlockBytes, exits_bind, exits_liftE, writeBlockFile, writeHeaderFile, exits_get]
  have hblock : StorePath.block hash ≠ .index := StorePath.noConfusion
  have hheader : StorePath.header hash ≠ .index := StorePath.noConfusion
  refine ⟨fun _ _ => ?_, fun _ _ => SameIndex.refl s⟩
  refine (exits_writeIfAbsent hblock (by intro; rfl) s).mono (fun _ s₁ h₁ => ?_) (fun _ _ h => h)
  exact (exits_writeIfAbsent hheader (by intro; rfl) s₁).mono (fun _ _ h => h₁.trans h)
    (fun _ _ h => h₁.trans h)

theorem exits_putUndo (hash : Bytes32) (undo : BlockUndo) (s : OpenStore) :
    Exits (putUndo hash undo) s (fun _ s' => SameIndex s s') (fun _ s' => SameIndex s s') := by
  have hundo : StorePath.undo hash ≠ .index := StorePath.noConfusion
  simp only [putUndo, exits_bind, exits_get]
  exact exits_writeIfAbsent hundo (by intro; rfl) s

theorem exits_blockFiles [Crypto] (hash : Bytes32) (headerBytes blockBytes : Bytes)
    (undo : BlockUndo) (s : OpenStore) :
    Exits (persistBlockBytes hash headerBytes blockBytes >>= fun _ => putUndo hash undo) s
      (fun _ s' => SameIndex s s') (fun _ s' => SameIndex s s') := by
  rw [exits_bind]
  refine (exits_persistBlockBytes hash headerBytes blockBytes s).mono (fun _ s₁ h₁ => ?_)
    (fun _ _ h => h)
  exact (exits_putUndo hash undo s₁).mono (fun _ _ h => h₁.trans h) (fun _ _ h => h₁.trans h)

theorem setCanonicalTip_steps (h : s.mem.Decodes) (height : Nat) (hash : Bytes32) :
    StepsIndex (mapErr .write (setCanonicalTip height hash)) s := by
  simp only [StepsIndex, setCanonicalTip, exits_mapErr, exits_bind, exits_get, exits_reject, not_lt]
  refine ⟨fun hle => ?_, fun _ => .kept (.refl s)⟩
  split
  · exact .kept (.refl s)
  · simp only [replaceFrom, exits_bind, exits_get, exits_set, exits_attempt]
    refine exits_saveBlockstoreIndex ?_ ?_ ?_
    · intro io hdisk hlog
      exact .saved ((h.truncate height).push hash) hdisk hlog
    · intro io e hsame hstage
      simp only [exits_modify, exits_throw, hstage, if_true]
      refine .kept ⟨h.restoreFrom_push hle _ hash, hsame.disk, hsame.log⟩
    · intro io e cause hdisk hlog hstage
      simp only [exits_modify, exits_throw, hstage]
      exact .unconfirmed (congrArg some hstage) ((h.truncate height).push hash) hlog

theorem exits_truncateCanonical (s : OpenStore) (newLen : Nat) :
    Exits (truncateCanonical newLen) s
      (fun _ s' => SameIndex s s' ∨ (s'.mem = s.mem.truncate newLen ∧
        s'.io.disk.index = s'.mem.canonical ∧
        s'.io.reached .index = s.io.reached .index ++ [.done]))
      (fun e s' => (SameIndex s s' ∧ e.stage = .beforeNamespaceCommit) ∨
        (s'.mem = s.mem ∧ e.stage = .afterNamespaceCommit ∧
          s'.io.disk.index = (s.mem.truncate newLen).canonical ∧
          ∃ cause, s'.io.reached .index = s.io.reached .index ++ [.after cause])) := by
  simp only [truncateCanonical, exits_bind, exits_get, exits_reject, not_lt]
  refine ⟨fun _ => ?_, fun _ => .inl ⟨.refl s, rfl⟩⟩
  split
  · exact .inl (.refl s)
  · rw [exits_bind]
    refine exits_saveBlockstoreIndex ?_ ?_ ?_
    · intro io hdisk hlog
      exact .inr ⟨rfl, hdisk, hlog⟩
    · intro io e hsame hstage
      exact .inl ⟨hsame, hstage⟩
    · intro io e cause hdisk hlog hstage
      exact .inr ⟨rfl, hstage, hdisk, cause, hlog⟩

theorem truncateCanonical_steps (h : s.mem.Decodes) (newLen : Nat) :
    StepsIndex (mapErr .write (truncateCanonical newLen)) s := by
  rw [StepsIndex, exits_mapErr]
  refine (exits_truncateCanonical s newLen).mono ?_ ?_
  · rintro _ s' (hsame | ⟨hmem, hdisk, hlog⟩)
    · exact .kept hsame
    · exact .saved (hmem ▸ h.truncate newLen) hdisk hlog
  · rintro e s' (⟨hsame, -⟩ | ⟨hmem, hstage, -, cause, hlog⟩)
    · exact .kept hsame
    · exact .unconfirmed (congrArg some hstage) (hmem ▸ h) hlog

theorem rewindToHeight_steps (h : s.mem.Decodes) (height : Nat) :
    StepsIndex (rewindToHeight height) s := by
  simp only [StepsIndex, rewindToHeight, exits_bind, exits_get]
  split
  · exact .kept (.refl s)
  · simp only [exits_bind, exits_reject, exits_attempt]
    refine ⟨fun _ => ?_, fun _ => .kept (.refl s)⟩
    refine (exits_truncateCanonical s (height + 1)).mono ?_ ?_
    · rintro _ s' (hsame | ⟨hmem, hdisk, hlog⟩)
      · exact .kept hsame
      · exact .saved (hmem ▸ h.truncate (height + 1)) hdisk hlog
    · rintro e s' (⟨hsame, hstage⟩ | ⟨hmem, hstage, -, cause, hlog⟩)
      · simp only [exits_modify, exits_throw, hstage]
        exact .kept hsame
      · simp only [exits_modify, exits_throw, hstage, if_true]
        refine .unconfirmed (congrArg some hstage) ?_ hlog
        rw [hmem]
        exact h.truncate (height + 1)

theorem rollbackCanonical_steps (h : s.mem.Decodes) (baseLen : Nat) (suffix : List Bytes) :
    StepsIndex (mapErr .write (rollbackCanonical baseLen suffix)) s := by
  simp only [StepsIndex, rollbackCanonical, exits_mapErr, exits_bind, exits_get, exits_liftE,
    mapError_eq_ok]
  refine ⟨fun cache hcache => ?_, fun _ _ => .kept (.refl s)⟩
  refine exits_saveBlockstoreIndex ?_ ?_ ?_
  · intro io hdisk hlog
    exact .saved (buildCanonicalHashCache_eq_ok_iff.mp hcache) hdisk hlog
  · intro io e hsame _
    exact .kept hsame
  · intro io e cause _ hlog hstage
    exact .unconfirmed (congrArg some hstage) h hlog

theorem commitCanonicalBlock_steps [Crypto] (h : s.mem.Decodes) (height : Nat) (hash : Bytes32)
    (headerBytes blockBytes : Bytes) (undo : BlockUndo) :
    StepsIndex (mapErr .write (commitCanonicalBlock height hash headerBytes blockBytes undo)) s := by
  simp only [StepsIndex, commitCanonicalBlock, exits_mapErr, exits_bind, exits_get, exits_reject]
  refine ⟨fun _ => ⟨fun _ => ?_, fun _ => .kept (.refl s)⟩, fun _ => .kept (.refl s)⟩
  split
  · exact (exits_blockFiles hash headerBytes blockBytes undo s).mono (fun _ _ same => .kept same)
      (fun _ _ same => .kept same)
  · rw [← bind_assoc, exits_bind]
    refine (exits_blockFiles hash headerBytes blockBytes undo s).mono (fun _ s₁ same => ?_)
      (fun _ _ same => .kept same)
    have hdec : s₁.mem.Decodes := by rw [same.mem]; exact h
    have hstep := setCanonicalTip_steps hdec height hash
    rw [StepsIndex, exits_mapErr] at hstep
    exact hstep.mono (fun _ _ step => IndexStep.after_files same step)
      (fun _ _ step => IndexStep.after_files same step)

theorem reloadPersistenceState_steps (s : OpenStore) : StepsIndex reloadPersistenceState s := by
  simp only [StepsIndex, reloadPersistenceState, exits_bind, exits_get, exits_liftE, exits_set,
    mapError_eq_ok]
  refine ⟨fun disk hdisk => ⟨fun cache hcache => ?_, fun _ _ => .kept (.refl s)⟩,
    fun _ _ => .kept (.refl s)⟩
  simp only [loadBlockstoreIndex, bind_eq_ok, exists_unit, Except.ok.injEq] at hdisk
  exact .reloaded (buildCanonicalHashCache_eq_ok_iff.mp hcache) hdisk.2 rfl

end OpenStore

/-! ## 5. Runs -/

inductive StoreOp where
  | setCanonicalTip (height : Nat) (hash : Bytes32)
  | rewindToHeight (height : Nat)
  | truncateCanonical (newLen : Nat)
  | rollbackCanonical (baseLen : Nat) (suffix : List Bytes)
  | commitCanonicalBlock (height : Nat) (hash : Bytes32) (headerBytes blockBytes : Bytes)
      (undo : BlockUndo)
  | reloadPersistenceState
deriving DecidableEq

/-- Memory and disk differ only after a write whose confirmation was lost. -/
structure IndexInv (s : OpenStore) : Prop where
  decodes : s.mem.Decodes
  strayed : s.mem.canonical ≠ s.io.disk.index →
    ∃ cause, (s.io.reached .index).getLast? = some (.after cause)

theorem IndexStep.inv {s' : OpenStore} {failed : Option StoreError} (h : IndexInv s)
    (hstep : IndexStep s failed s') : IndexInv s' := by
  cases hstep with
  | kept same =>
    refine ⟨by rw [same.mem]; exact h.decodes, fun hne => ?_⟩
    rw [same.log]
    rw [same.mem, same.disk] at hne
    exact h.strayed hne
  | saved decodes disk log => exact ⟨decodes, fun hne => absurd disk.symm hne⟩
  | @unconfirmed _ _ cause stage decodes log =>
    refine ⟨decodes, fun _ => ⟨cause, ?_⟩⟩
    rw [log, List.getLast?_concat]
  | reloaded decodes disk log => exact ⟨decodes, fun hne => absurd disk.symm hne⟩

section runs

variable [Crypto]

def StoreOp.perform : StoreOp → EStateM StoreError OpenStore Unit
  | .setCanonicalTip height hash => mapErr .write (OpenStore.setCanonicalTip height hash)
  | .rewindToHeight height => OpenStore.rewindToHeight height
  | .truncateCanonical newLen => mapErr .write (OpenStore.truncateCanonical newLen)
  | .rollbackCanonical baseLen suffix => mapErr .write (OpenStore.rollbackCanonical baseLen suffix)
  | .commitCanonicalBlock height hash headerBytes blockBytes undo =>
    mapErr .write (OpenStore.commitCanonicalBlock height hash headerBytes blockBytes undo)
  | .reloadPersistenceState => OpenStore.reloadPersistenceState

def storeRun (s : OpenStore) (ops : List StoreOp) : OpenStore :=
  ops.foldl (fun s op => endState (op.perform s)) s

theorem StoreOp.perform_steps (h : s.mem.Decodes) (op : StoreOp) : StepsIndex op.perform s := by
  cases op with
  | setCanonicalTip height hash => exact OpenStore.setCanonicalTip_steps h height hash
  | rewindToHeight height => exact OpenStore.rewindToHeight_steps h height
  | truncateCanonical newLen => exact OpenStore.truncateCanonical_steps h newLen
  | rollbackCanonical baseLen suffix => exact OpenStore.rollbackCanonical_steps h baseLen suffix
  | commitCanonicalBlock height hash headerBytes blockBytes undo =>
    exact OpenStore.commitCanonicalBlock_steps h height hash headerBytes blockBytes undo
  | reloadPersistenceState => exact OpenStore.reloadPersistenceState_steps s

theorem StoreOp.perform_cases (h : s.mem.Decodes) (op : StoreOp) :
    ∃ failed, IndexStep s failed (endState (op.perform s)) ∧
      ∀ e t, op.perform s = .error e t → failed = some e := by
  have hsteps := op.perform_steps h
  cases hresult : op.perform s with
  | ok u t => exact ⟨none, hsteps.of_ok hresult, fun e t' he => nomatch he⟩
  | error e t =>
    refine ⟨some e, hsteps.of_error hresult, fun e' t' he => ?_⟩
    cases he
    rfl

theorem storeRun_inv (h : IndexInv s) (ops : List StoreOp) : IndexInv (storeRun s ops) := by
  induction ops generalizing s with
  | nil => exact h
  | cons op ops ih =>
    obtain ⟨failed, hstep, -⟩ := op.perform_cases h.decodes
    exact ih (hstep.inv h)

omit [Crypto] in
theorem openBlockStore_inv {rootPath : String} {io : Disk} {mem : StoreIndex}
    (h : openBlockStore rootPath io.disk = .ok mem) : IndexInv ⟨mem, io⟩ := by
  simp only [openBlockStore, loadBlockstoreIndex, fromParts, bind_eq_ok, exists_unit,
    Except.ok.injEq] at h
  obtain ⟨canonical, ⟨-, rfl⟩, cache, hcache, rfl⟩ := h
  exact ⟨buildCanonicalHashCache_eq_ok_iff.mp hcache, fun hne => absurd rfl hne⟩

/-- A block that is canonical at its height: the index is not touched, whatever happens. -/
theorem commit_again_same (s : OpenStore) {height : Nat} {hash : Bytes32}
    (hcanonical : s.mem.canonicalHash height = some hash) (h : s.mem.Decodes)
    (headerBytes blockBytes : Bytes) (undo : BlockUndo) :
    SameIndex s (endState ((StoreOp.commitCanonicalBlock height hash headerBytes blockBytes
      undo).perform s)) := by
  have hlt : height < s.mem.canonicalLen := by
    rw [StoreIndex.canonicalLen, h.length_eq]
    exact (List.getElem?_eq_some_iff.mp hcanonical).1
  have hexits : Exits ((StoreOp.commitCanonicalBlock height hash headerBytes blockBytes
      undo).perform) s (fun _ s' => SameIndex s s') (fun _ s' => SameIndex s s') := by
    simp only [StoreOp.perform, OpenStore.commitCanonicalBlock, exits_mapErr, exits_bind, exits_get,
      exits_reject, if_pos (And.intro hlt hcanonical)]
    refine ⟨fun _ => ⟨fun _ => ?_, fun _ => .refl s⟩, fun _ => .refl s⟩
    have hfiles := OpenStore.exits_blockFiles hash headerBytes blockBytes undo s
    rwa [exits_bind] at hfiles
  cases hresult : (StoreOp.commitCanonicalBlock height hash headerBytes blockBytes undo).perform s with
  | ok u t => exact hexits.of_ok hresult
  | error e t => exact hexits.of_error hresult

/-- What is known after the call of `op` that took `s` to `s'`. -/
structure CallCoherent (s : OpenStore) (op : StoreOp) (s' : OpenStore) : Prop where
  cache : buildCanonicalHashCache s'.mem.canonical = .ok s'.mem.canonicalHashByHeight
  before : ∀ e t, op.perform s = .error e t → e.stage ≠ some .afterNamespaceCommit →
    s'.mem = s.mem ∧ s'.io.disk.index = s.io.disk.index
  strayed : s'.mem.canonical ≠ s'.io.disk.index →
    ∃ cause, (s'.io.reached .index).getLast? = some (.after cause)
  reload : op = .reloadPersistenceState → ∀ u t, op.perform s = .ok u t →
    s'.mem.canonical = s'.io.disk.index
  again : ∀ height hash headerBytes blockBytes undo,
    op = .commitCanonicalBlock height hash headerBytes blockBytes undo →
    s.mem.canonicalHash height = some hash →
    s'.mem = s.mem ∧ s'.io.disk.index = s.io.disk.index

/-- **The index, its cache and its file stay coherent.**  For every opened store, whatever happens to
its writes and whatever calls were made: after the next call the cache decodes the index; a failure
that is not after a commit left memory and disk alone; memory and disk differ only if the last write
of the index that reached the disk reported a failure after commit; a reload that succeeds makes them
equal; and a block committed again does not touch the index. -/
theorem canonical_index_coherent {rootPath : String} {io : Disk} {mem : StoreIndex}
    (hopen : openBlockStore rootPath io.disk = .ok mem) (ops : List StoreOp) (op : StoreOp) :
    CallCoherent (storeRun ⟨mem, io⟩ ops) op (storeRun ⟨mem, io⟩ (ops ++ [op])) := by
  have hinv := storeRun_inv (openBlockStore_inv hopen) ops
  have hinv' := storeRun_inv (openBlockStore_inv hopen) (ops ++ [op])
  have hnext : storeRun ⟨mem, io⟩ (ops ++ [op]) = endState (op.perform (storeRun ⟨mem, io⟩ ops)) := by
    rw [storeRun, List.foldl_append]
    rfl
  refine ⟨buildCanonicalHashCache_eq_ok_iff.mpr hinv'.decodes, ?_, hinv'.strayed, ?_, ?_⟩
  · intro e t herror hstage
    rw [hnext]
    obtain ⟨failed, hstep, hfailed⟩ := op.perform_cases hinv.decodes
    cases hfailed e t herror
    cases hstep with
    | kept same => exact ⟨same.mem, same.disk⟩
    | unconfirmed stage _ _ => exact absurd stage hstage
  · rintro rfl u t hok
    rw [hnext, hok]
    have hexits : Exits OpenStore.reloadPersistenceState (storeRun ⟨mem, io⟩ ops)
        (fun _ s' => s'.mem.canonical = s'.io.disk.index) (fun _ _ => True) := by
      simp only [OpenStore.reloadPersistenceState, exits_bind, exits_get, exits_liftE, exits_set,
        mapError_eq_ok, loadBlockstoreIndex, bind_eq_ok, exists_unit, Except.ok.injEq]
      exact ⟨fun disk hdisk => ⟨fun _ _ => hdisk.2.symm, fun _ _ => trivial⟩, fun _ _ => trivial⟩
    exact hexits.of_ok hok
  · rintro height hash headerBytes blockBytes undo rfl hcanonical
    rw [hnext]
    have hsame := commit_again_same _ hcanonical hinv.decodes headerBytes blockBytes undo
    exact ⟨hsame.mem, hsame.disk⟩

end runs

/-- A store with one canonical block, and what is to happen to its next writes. -/
def sampleDisk (forward : List WriteOutcome) : Disk where
  disk := ⟨∅, ∅, ∅, [Hex.encode zero32.toList], none⟩
  forward
  restoring := []
  log := []

theorem canonical_index_coherent_sample :
    letI : Crypto := Crypto.trivial
    let io := sampleDisk [.after "sync", .before "disk full"]
    let mem : StoreIndex := ⟨"blockstore", [Hex.encode zero32.toList], [zero32]⟩
    openBlockStore "blockstore" io.disk = .ok mem ∧
    CallCoherent ⟨mem, io⟩ (.truncateCanonical 0) (storeRun ⟨mem, io⟩ [.truncateCanonical 0]) := by
  let _ : Crypto := Crypto.trivial
  intro io mem
  have hopen : openBlockStore "blockstore" io.disk = .ok mem := by decide +kernel
  exact ⟨hopen, canonical_index_coherent hopen [] (.truncateCanonical 0)⟩

/-- The literal rule, with the last write instead of the last one that reached the disk, fails: a
truncation loses its confirmation, and the next write fails before the commit. -/
theorem strayed_after_failure_before :
    letI : Crypto := Crypto.trivial
    let io := sampleDisk [.after "sync", .before "disk full"]
    let mem : StoreIndex := ⟨"blockstore", [Hex.encode zero32.toList], [zero32]⟩
    let s := storeRun ⟨mem, io⟩ [.truncateCanonical 0, .setCanonicalTip 1 zero32]
    openBlockStore "blockstore" io.disk = .ok mem ∧ s.mem.canonical ≠ s.io.disk.index ∧
    (s.io.log.map fun r => (r.target, r.outcome)) =
      [(.index, .after "sync"), (.index, .before "disk full")] := by
  decide +kernel

end Rubin.Node
