/-
# The signature digest and its prehash cache

`sighash.rs`.  The digest commits to chain, transaction, input and amount; the parts that do not
depend on the input are hashed once and kept in a cache.  A cached hash carries the proof that it
is the hash of its transaction, so a stale cache cannot be built, and the digest through any cache
is the digest without one (`sighashV1DigestWithCache_steady`).
-/
import Rubin.Consensus.Tx

namespace Rubin.Consensus

open Rubin.Lib

variable [Crypto]

/-! ## 1. What is hashed -/

def isValidSighashType (sighashType : UInt8) : Bool :=
  sighashType == sighashAll || sighashType == sighashNone || sighashType == sighashSingle ||
    sighashType == (sighashAll ||| sighashAnyonecanpay) ||
    sighashType == (sighashNone ||| sighashAnyonecanpay) ||
    sighashType == (sighashSingle ||| sighashAnyonecanpay)

def TxInput.prevoutBytes (input : TxInput) : Bytes :=
  input.prevTxid.toList ++ u32LeBytes input.prevVout

def prevoutsHash (tx : Tx) : Bytes32 := sha3_256 (tx.inputs.flatMap TxInput.prevoutBytes)

def sequencesHash (tx : Tx) : Bytes32 :=
  sha3_256 (tx.inputs.flatMap fun input => u32LeBytes input.sequence)

def outputsHash (tx : Tx) : Bytes32 := sha3_256 (tx.outputs.flatMap TxOutput.bytes)

/-- A `SINGLE` digest of an input without an output of its index commits to no output. -/
def singleOutputHash (tx : Tx) (inputIndex : UInt32) : Bytes32 :=
  match tx.outputs[inputIndex.toNat]? with
  | some output => sha3_256 output.bytes
  | none => sha3_256 []

/-- `b"RUBINv1-sighash/"`. -/
def sighashDomain : Bytes :=
  [0x52, 0x55, 0x42, 0x49, 0x4e, 0x76, 0x31, 0x2d, 0x73, 0x69, 0x67, 0x68, 0x61, 0x73, 0x68, 0x2f]

/-- The preimage of the digest, given its four inner hashes. -/
def sighashPreimage (tx : Tx) (input : TxInput) (inputIndex : UInt32) (inputValue : UInt64)
    (chainId : Bytes32) (sighashType : UInt8)
    (daCoreHash hashPrevouts hashSequences hashOutputs : Bytes32) : Bytes :=
  sighashDomain ++ chainId.toList ++ u32LeBytes tx.version ++ [tx.txKind] ++
    u64LeBytes tx.txNonce ++ daCoreHash.toList ++ hashPrevouts.toList ++ hashSequences.toList ++
    u32LeBytes inputIndex ++ input.prevTxid.toList ++ u32LeBytes input.prevVout ++
    u64LeBytes inputValue ++ u32LeBytes input.sequence ++ hashOutputs.toList ++
    u32LeBytes tx.locktime ++ [sighashType]

/-! ## 2. The cache -/

/-- A cell that is empty or holds `v`. -/
abbrev Memo {α : Type} (v : α) : Type := Option {x : α // x = v}

/-- Read the cell, filling it first if it is empty. -/
def Memo.force {α : Type} {v : α} (m : Memo v) : α × Memo v :=
  match m with
  | some x => (x.1, some x)
  | none => (v, some ⟨v, rfl⟩)

omit [Crypto] in
@[simp] theorem Memo.force_fst {α : Type} {v : α} (m : Memo v) : m.force.1 = v := by
  rcases m with _ | ⟨x, hx⟩
  · rfl
  · exact hx

structure SighashV1PrehashCache (tx : Tx) where
  hashOfDaCoreFields : Option {h : Bytes32 // daCoreFieldsBytes tx >>= (.ok <| sha3_256 ·) = .ok h}
  hashAllPrevouts : Memo (prevoutsHash tx)
  hashAllSequences : Memo (sequencesHash tx)
  hashAllOutputs : Memo (outputsHash tx)
  singleOutputs : List {p : UInt32 × Bytes32 // p.2 = singleOutputHash tx p.1}

namespace SighashV1PrehashCache

variable {tx : Tx}

def new (tx : Tx) : SighashV1PrehashCache tx := ⟨none, none, none, none, []⟩

abbrev M (tx : Tx) := StateT (SighashV1PrehashCache tx) (Except TxError)

def getHashOfDaCoreFields : M tx Bytes32 := fun cache =>
  match cache.hashOfDaCoreFields with
  | some h => .ok (h.1, cache)
  | none =>
    match hb : daCoreFieldsBytes tx with
    | .error e => .error e
    | .ok b =>
      .ok (sha3_256 b, { cache with hashOfDaCoreFields := some ⟨sha3_256 b, by rw [hb]; rfl⟩ })

def getHashAllPrevouts : M tx Bytes32 := fun cache =>
  .ok (cache.hashAllPrevouts.force.1, { cache with hashAllPrevouts := cache.hashAllPrevouts.force.2 })

def getHashAllSequences : M tx Bytes32 := fun cache =>
  .ok (cache.hashAllSequences.force.1,
    { cache with hashAllSequences := cache.hashAllSequences.force.2 })

def getHashAllOutputs : M tx Bytes32 := fun cache =>
  .ok (cache.hashAllOutputs.force.1, { cache with hashAllOutputs := cache.hashAllOutputs.force.2 })

def getSingleOutputHash (inputIndex : UInt32) : M tx Bytes32 := fun cache =>
  match cache.singleOutputs.find? (fun p => p.1.1 == inputIndex) with
  | some p => .ok (p.1.2, cache)
  | none =>
    let hash := singleOutputHash tx inputIndex
    .ok (hash, { cache with singleOutputs := ⟨(inputIndex, hash), rfl⟩ :: cache.singleOutputs })

end SighashV1PrehashCache

/-! ## 3. The digest -/

section digest

open SighashV1PrehashCache

variable {tx : Tx}

def digestPrevouts (input : TxInput) (anyoneCanPay : Bool) : M tx Bytes32 :=
  if anyoneCanPay then pure (sha3_256 input.prevoutBytes) else getHashAllPrevouts

def digestSequences (input : TxInput) (anyoneCanPay : Bool) : M tx Bytes32 :=
  if anyoneCanPay then pure (sha3_256 (u32LeBytes input.sequence)) else getHashAllSequences

def digestOutputs (inputIndex : UInt32) (baseType : UInt8) : M tx Bytes32 :=
  if baseType = sighashAll then getHashAllOutputs
  else if baseType = sighashNone then pure (sha3_256 [])
  else if baseType = sighashSingle then getSingleOutputHash inputIndex
  else StateT.lift (.error ⟨.txErrSighashTypeInvalid, "sighash: invalid base_type"⟩)

end digest

open SighashV1PrehashCache in
def sighashV1DigestWithCache (tx : Tx) (inputIndex : UInt32) (inputValue : UInt64)
    (chainId : Bytes32) (sighashType : UInt8) : M tx Bytes32 := do
  let input ← StateT.lift (okOr tx.inputs[inputIndex.toNat]?
    (.parse "sighash: input_index out of bounds"))
  StateT.lift (rejectIf (isValidSighashType sighashType = false)
    ⟨.txErrSighashTypeInvalid, "sighash: invalid sighash_type"⟩)
  let anyoneCanPay := (sighashType &&& sighashAnyonecanpay) != 0
  let hashPrevouts ← digestPrevouts input anyoneCanPay
  let hashSequences ← digestSequences input anyoneCanPay
  let hashOutputs ← digestOutputs inputIndex (sighashType &&& 0x1f)
  let daCoreHash ← getHashOfDaCoreFields
  pure (sha3_256 (sighashPreimage tx input inputIndex inputValue chainId sighashType
    daCoreHash hashPrevouts hashSequences hashOutputs))

def sighashV1DigestWithType (tx : Tx) (inputIndex : UInt32) (inputValue : UInt64)
    (chainId : Bytes32) (sighashType : UInt8) : Except TxError Bytes32 := do
  let r ← (sighashV1DigestWithCache tx inputIndex inputValue chainId sighashType).run
    (SighashV1PrehashCache.new tx)
  .ok r.1

/-! ## 4. The cache is transparent -/

open SighashV1PrehashCache

section transparent

variable (tx : Tx)

theorem getHashOfDaCoreFields_steady :
    Steady (getHashOfDaCoreFields : M tx Bytes32)
      (daCoreFieldsBytes tx >>= (.ok <| sha3_256 ·)) := by
  intro cache
  unfold getHashOfDaCoreFields
  split
  · rename_i h _
    exact h.2.symm
  · split
    · rename_i e hb
      rw [hb]
      rfl
    · rename_i b hb
      simp [hb, Except.map]

theorem getHashAllPrevouts_steady :
    Steady (getHashAllPrevouts : M tx Bytes32) (.ok (prevoutsHash tx)) :=
  fun cache => congrArg Except.ok (Memo.force_fst cache.hashAllPrevouts)

theorem getHashAllSequences_steady :
    Steady (getHashAllSequences : M tx Bytes32) (.ok (sequencesHash tx)) :=
  fun cache => congrArg Except.ok (Memo.force_fst cache.hashAllSequences)

theorem getHashAllOutputs_steady :
    Steady (getHashAllOutputs : M tx Bytes32) (.ok (outputsHash tx)) :=
  fun cache => congrArg Except.ok (Memo.force_fst cache.hashAllOutputs)

theorem getSingleOutputHash_steady (inputIndex : UInt32) :
    Steady (getSingleOutputHash inputIndex : M tx Bytes32)
      (.ok (singleOutputHash tx inputIndex)) := by
  intro cache
  unfold getSingleOutputHash
  split
  · rename_i p hp
    have hidx : p.1.1 = inputIndex := by simpa using List.find?_some hp
    rw [← hidx, ← p.2]
    rfl
  · rfl

theorem digestPrevouts_steady (input : TxInput) (anyoneCanPay : Bool) :
    Steady (digestPrevouts input anyoneCanPay : M tx Bytes32)
      (.ok (if anyoneCanPay then sha3_256 input.prevoutBytes else prevoutsHash tx)) := by
  cases anyoneCanPay
  · exact getHashAllPrevouts_steady tx
  · exact Steady.pure _

theorem digestSequences_steady (input : TxInput) (anyoneCanPay : Bool) :
    Steady (digestSequences input anyoneCanPay : M tx Bytes32)
      (.ok (if anyoneCanPay then sha3_256 (u32LeBytes input.sequence)
        else sequencesHash tx)) := by
  cases anyoneCanPay
  · exact getHashAllSequences_steady tx
  · exact Steady.pure _

/-- The hash of the outputs, computed without a cache. -/
def digestOutputsPlain (inputIndex : UInt32) (baseType : UInt8) : Except TxError Bytes32 :=
  if baseType = sighashAll then .ok (outputsHash tx)
  else if baseType = sighashNone then .ok (sha3_256 [])
  else if baseType = sighashSingle then .ok (singleOutputHash tx inputIndex)
  else .error ⟨.txErrSighashTypeInvalid, "sighash: invalid base_type"⟩

theorem digestOutputs_steady (inputIndex : UInt32) (baseType : UInt8) :
    Steady (digestOutputs inputIndex baseType : M tx Bytes32)
      (digestOutputsPlain tx inputIndex baseType) := by
  unfold digestOutputs digestOutputsPlain
  split_ifs
  · exact getHashAllOutputs_steady tx
  · exact Steady.pure _
  · exact getSingleOutputHash_steady tx inputIndex
  · exact Steady.lift _

variable {tx} in
theorem sighashV1DigestWithType_of_steady {inputIndex : UInt32} {inputValue : UInt64}
    {chainId : Bytes32} {sighashType : UInt8} {v : Except TxError Bytes32}
    (h : Steady (sighashV1DigestWithCache tx inputIndex inputValue chainId sighashType) v) :
    sighashV1DigestWithType tx inputIndex inputValue chainId sighashType = v := by
  rw [← h (SighashV1PrehashCache.new tx)]
  unfold sighashV1DigestWithType StateT.run
  cases sighashV1DigestWithCache tx inputIndex inputValue chainId sighashType
    (SighashV1PrehashCache.new tx) <;> rfl

/-- The digest, computed without a cache. -/
def sighashV1DigestPlain (inputIndex : UInt32) (inputValue : UInt64) (chainId : Bytes32)
    (sighashType : UInt8) : Except TxError Bytes32 := do
  let input ← okOr tx.inputs[inputIndex.toNat]? (.parse "sighash: input_index out of bounds")
  rejectIf (isValidSighashType sighashType = false)
    ⟨.txErrSighashTypeInvalid, "sighash: invalid sighash_type"⟩
  let anyoneCanPay := (sighashType &&& sighashAnyonecanpay) != 0
  let baseType := sighashType &&& 0x1f
  let hashPrevouts ← .ok (if anyoneCanPay then sha3_256 input.prevoutBytes else prevoutsHash tx)
  let hashSequences ← .ok (if anyoneCanPay then sha3_256 (u32LeBytes input.sequence)
    else sequencesHash tx)
  let hashOutputs ← digestOutputsPlain tx inputIndex baseType
  let daCoreHash ← daCoreFieldsBytes tx >>= (.ok <| sha3_256 ·)
  .ok (sha3_256 (sighashPreimage tx input inputIndex inputValue chainId sighashType
    daCoreHash hashPrevouts hashSequences hashOutputs))

theorem sighashV1DigestWithCache_plain (inputIndex : UInt32) (inputValue : UInt64)
    (chainId : Bytes32) (sighashType : UInt8) :
    Steady (sighashV1DigestWithCache tx inputIndex inputValue chainId sighashType)
      (sighashV1DigestPlain tx inputIndex inputValue chainId sighashType) :=
  Steady.bind (Steady.lift _) fun input => Steady.bind (Steady.lift _) fun _ =>
    Steady.bind (digestPrevouts_steady tx input _) fun _ =>
    Steady.bind (digestSequences_steady tx input _) fun _ =>
    Steady.bind (digestOutputs_steady tx inputIndex _) fun _ =>
    Steady.bind (getHashOfDaCoreFields_steady tx) fun _ => Steady.pure _

/-- **The cache is transparent**: whatever it holds, the digest is the one computed afresh. -/
theorem sighashV1DigestWithCache_steady (inputIndex : UInt32) (inputValue : UInt64)
    (chainId : Bytes32) (sighashType : UInt8) :
    Steady (sighashV1DigestWithCache tx inputIndex inputValue chainId sighashType)
      (sighashV1DigestWithType tx inputIndex inputValue chainId sighashType) := by
  have h := sighashV1DigestWithCache_plain tx inputIndex inputValue chainId sighashType
  rw [sighashV1DigestWithType_of_steady h]
  exact h

end transparent

end Rubin.Consensus
