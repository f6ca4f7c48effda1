/-
# The block store, read side

`BlockStore` of `blockstore.rs`: what it keeps in memory (the canonical index and its decoded
hashes) and what its directory holds (block, header and undo files by hash, and the index file).
A hash stands for its hexadecimal spelling, in the index and in file names, and an undo file for the
record it decodes to.  Reading fails for a missing file and for one above the bound of its class;
other I/O failures of a read are outside the model.
-/
import Rubin.Node.Undo

namespace Rubin.Node

open Rubin.Lib Rubin.Consensus

/-- Files of one directory, by the hash they are named after. -/
abbrev FileMap (β : Type) := Finmap fun _ : Bytes32 => β

structure BlockStore where
  rootPath : String
  /-- `index.canonical`. -/
  canonical : List Bytes32
  canonicalHashByHeight : List Bytes32
  blocks : FileMap Bytes
  headers : FileMap Bytes
  undos : FileMap BlockUndo
  /-- What the index file on disk holds. -/
  indexFile : List Bytes32

/-! ## 1. `io_utils.rs`: bounded reads -/

inductive ReadError where
  | notFound
  | overBound (name : String) (observed bound : Nat)
deriving DecidableEq, Repr

def ReadError.toString : ReadError → String
  | .notFound => "No such file or directory (os error 2)"
  | .overBound name observed bound => "store file exceeds size bound: " ++ name ++ ": " ++
      Nat.repr observed ++ " bytes observed, class bound " ++ Nat.repr bound

def blockFileMaxBytes : Nat := maxBlockBytes
def headerFileMaxBytes : Nat := blockHeaderBytes

def readFileFromDir (dir : FileMap Bytes) (name : Bytes32) (fileName : String) (maxBytes : Nat) :
    Except ReadError Bytes := do
  let raw ← okOr (dir.lookup name) .notFound
  rejectIf (raw.length > maxBytes) (.overBound fileName raw.length maxBytes)
  .ok raw

namespace BlockStore

def binName (hash : Bytes32) : String := hexEncode hash.toList ++ ".bin"

def jsonName (hash : Bytes32) : String := hexEncode hash.toList ++ ".json"

/-! ## 2. The canonical index -/

def canonicalHash (store : BlockStore) (height : Nat) : Option Bytes32 :=
  store.canonicalHashByHeight[height]?

def tip (store : BlockStore) : Option (Nat × Bytes32) :=
  store.canonicalHashByHeight.getLast?.map fun hash =>
    (store.canonicalHashByHeight.length - 1, hash)

/-- From the tip down. -/
def findCanonicalHeight (store : BlockStore) (hash : Bytes32) : Option Nat :=
  (List.range store.canonicalHashByHeight.length).reverse.find? fun height =>
    store.canonicalHash height = some hash

/-! ## 3. The files -/

def readBlockFileByHash (store : BlockStore) (hash : Bytes32) : Except ReadError Bytes :=
  readFileFromDir store.blocks hash (binName hash) blockFileMaxBytes

def getHeaderByHash (store : BlockStore) (hash : Bytes32) : Except String Bytes :=
  (readFileFromDir store.headers hash (binName hash) headerFileMaxBytes).mapError fun e =>
    "read header " ++ store.rootPath ++ "/headers/" ++ binName hash ++ ": " ++ e.toString

def getUndo (store : BlockStore) (hash : Bytes32) : Except String BlockUndo :=
  (okOr (store.undos.lookup hash) ReadError.notFound).mapError fun e =>
    "read undo " ++ store.rootPath ++ "/undo/" ++ jsonName hash ++ ": " ++ e.toString

def hasBlock (store : BlockStore) (hash : Bytes32) : Bool := (store.headers.lookup hash).isSome

/-- The header file of `hash`, read and parsed. -/
def readHeader (store : BlockStore) (hash : Bytes32) : Except String BlockHeader := do
  let headerBytes ← store.getHeaderByHash hash
  (parseBlockHeaderBytes headerBytes).mapError TxError.toString

/-! ## 4. What a store holds -/

/-- The header file of `hash` is the header `header`. -/
def HoldsHeader (store : BlockStore) (hash : Bytes32) (header : BlockHeader) : Prop :=
  ∃ raw, store.headers.lookup hash = some raw ∧ parseBlockHeaderBytes raw = .ok header

/-- The canonical chain of the store, genesis first. -/
structure HoldsChain (store : BlockStore) (chain : List BlockHeader) : Prop where
  coherent : store.canonicalHashByHeight = store.canonical
  headers : List.Forall₂ store.HoldsHeader store.canonical chain

variable {header : BlockHeader} {store : BlockStore}

theorem length_of_parseBlockHeaderBytes {raw : Bytes} (h : parseBlockHeaderBytes raw = .ok header) :
    raw.length = blockHeaderBytes := by
  simp only [parseBlockHeaderBytes, bind_eq_ok, exists_unit, rejectIf_eq_ok, not_not] at h
  exact h.1

theorem HoldsHeader.getHeaderByHash {hash : Bytes32} (h : store.HoldsHeader hash header) :
    ∃ raw, store.headers.lookup hash = some raw ∧
      store.getHeaderByHash hash = .ok raw ∧ parseBlockHeaderBytes raw = .ok header := by
  obtain ⟨raw, hraw, hparse⟩ := h
  have hbound : ¬ raw.length > headerFileMaxBytes := by
    rw [length_of_parseBlockHeaderBytes hparse, headerFileMaxBytes]
    exact Nat.lt_irrefl _
  refine ⟨raw, hraw, ?_, hparse⟩
  rw [BlockStore.getHeaderByHash, readFileFromDir, hraw, okOr, ok_bind, rejectIf_neg hbound]
  rfl

theorem HoldsHeader.readHeader {hash : Bytes32} (h : store.HoldsHeader hash header) :
    store.readHeader hash = .ok header := by
  obtain ⟨raw, -, hget, hparse⟩ := h.getHeaderByHash
  rw [BlockStore.readHeader, hget, ok_bind, hparse]
  rfl

theorem HoldsChain.length_eq {chain : List BlockHeader} (h : store.HoldsChain chain) :
    store.canonicalHashByHeight.length = chain.length := by
  rw [h.coherent]
  exact h.headers.length_eq

theorem HoldsChain.at_height {chain : List BlockHeader} (h : store.HoldsChain chain) {height : Nat}
    (hheader : chain[height]? = some header) : ∃ hash, store.canonicalHash height = some hash ∧
      store.HoldsHeader hash header := by
  obtain ⟨hlt, rfl⟩ := List.getElem?_eq_some_iff.mp hheader
  have hlt' : height < store.canonical.length := by rwa [h.headers.length_eq]
  refine ⟨store.canonical[height], ?_, h.headers.get hlt' hlt⟩
  rw [canonicalHash, h.coherent, List.getElem?_eq_getElem hlt']

end BlockStore

/-! ## 5. Headers for concrete stores -/

def sampleHeader (prev : Bytes32) (timestamp : UInt64) : BlockHeader :=
  { version := 1, prevBlockHash := prev, merkleRoot := zero32, timestamp, target := powLimit,
    nonce := 0 }

def sampleHeaderBytes (prev : Bytes32) (timestamp : UInt64) : Bytes :=
  u32LeBytes 1 ++ prev.toList ++ zero32.toList ++ u64LeBytes timestamp ++ powLimit.toList ++
    u64LeBytes 0

/-- A store whose canonical chain has the given header files. -/
def sampleStore (files : List (Bytes32 × Bytes)) : BlockStore :=
  { rootPath := "blockstore"
    canonical := files.map Prod.fst
    canonicalHashByHeight := files.map Prod.fst
    blocks := ∅
    headers := insertAll files ∅
    undos := ∅
    indexFile := files.map Prod.fst }

end Rubin.Node
