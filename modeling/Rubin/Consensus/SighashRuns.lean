/-
# Many digests from one cache

The prehash cache of `sighash.rs` as the source keeps it: plain cells that a call fills as it goes,
and that keep what was filled when the call fails further on.  The cells of a cache that was only
ever used by digests of its transaction hold that transaction's hashes (`PrehashCells.Sound`), so
the digests of a whole run are the ones computed afresh.
-/
import Rubin.Lib.Exits
import Rubin.Lib.FiniteMap
import Rubin.Consensus.Sighash

namespace Rubin.Consensus

open Rubin.Lib

variable [Crypto]

/-! ## 1. The cells -/

structure PrehashCells where
  hashOfDaCoreFields : Option Bytes32
  hashAllPrevouts : Option Bytes32
  hashAllSequences : Option Bytes32
  hashAllOutputs : Option Bytes32
  singleOutputs : Finmap fun _ : UInt32 => Bytes32

namespace PrehashCells

def new : PrehashCells := ⟨none, none, none, none, ∅⟩

abbrev M := EStateM TxError PrehashCells

variable (tx : Tx)

def getHashOfDaCoreFields : M Bytes32 :=
  memoized hashOfDaCoreFields (fun hash cache => { cache with hashOfDaCoreFields := some hash })
    (daCoreFieldsBytes tx >>= (.ok <| sha3_256 ·))

def getHashAllPrevouts : M Bytes32 :=
  memoized hashAllPrevouts (fun hash cache => { cache with hashAllPrevouts := some hash })
    (.ok (prevoutsHash tx))

def getHashAllSequences : M Bytes32 :=
  memoized hashAllSequences (fun hash cache => { cache with hashAllSequences := some hash })
    (.ok (sequencesHash tx))

def getHashAllOutputs : M Bytes32 :=
  memoized hashAllOutputs (fun hash cache => { cache with hashAllOutputs := some hash })
    (.ok (outputsHash tx))

def getSingleOutputHash (inputIndex : UInt32) : M Bytes32 :=
  memoized (fun cache => cache.singleOutputs.lookup inputIndex)
    (fun hash cache => { cache with singleOutputs := cache.singleOutputs.insert inputIndex hash })
    (.ok (singleOutputHash tx inputIndex))

/-- `ANYONECANPAY` commits to the input's own part and leaves the cell alone. -/
def ownOrAll (anyoneCanPay : Bool) (own : Bytes32) (all : M Bytes32) : M Bytes32 :=
  if anyoneCanPay then pure own else all

def hashOutputs (inputIndex : UInt32) (baseType : UInt8) : M Bytes32 :=
  if baseType = sighashAll then getHashAllOutputs tx
  else if baseType = sighashNone then pure (sha3_256 [])
  else if baseType = sighashSingle then getSingleOutputHash tx inputIndex
  else liftE (.error ⟨.txErrSighashTypeInvalid, "sighash: invalid base_type"⟩)

/-- `sighash_v1_digest_with_cache`. -/
def digest (inputIndex : UInt32) (inputValue : UInt64) (chainId : Bytes32) (sighashType : UInt8) :
    M Bytes32 := do
  let input ← liftE (okOr tx.inputs[inputIndex.toNat]? (.parse "sighash: input_index out of bounds"))
  liftE (rejectIf (isValidSighashType sighashType = false)
    ⟨.txErrSighashTypeInvalid, "sighash: invalid sighash_type"⟩)
  let anyoneCanPay := (sighashType &&& sighashAnyonecanpay) != 0
  let hashPrevouts ← ownOrAll anyoneCanPay (sha3_256 input.prevoutBytes) (getHashAllPrevouts tx)
  let hashSequences ←
    ownOrAll anyoneCanPay (sha3_256 (u32LeBytes input.sequence)) (getHashAllSequences tx)
  let hashOutputs ← hashOutputs tx inputIndex (sighashType &&& 0x1f)
  let daCoreHash ← getHashOfDaCoreFields tx
  pure (sha3_256 (sighashPreimage tx input inputIndex inputValue chainId sighashType
    daCoreHash hashPrevouts hashSequences hashOutputs))

end PrehashCells

structure DigestCall where
  inputIndex : UInt32
  inputValue : UInt64
  chainId : Bytes32
  sighashType : UInt8

/-- The answers of calls made one after the other on one cache. -/
def PrehashCells.answers (tx : Tx) : List DigestCall → PrehashCells → List (Except TxError Bytes32)
  | [], _ => []
  | call :: calls, cache =>
    match digest tx call.inputIndex call.inputValue call.chainId call.sighashType cache with
    | .ok hash cache' => .ok hash :: answers tx calls cache'
    | .error e cache' => .error e :: answers tx calls cache'

/-! ## 2. Sound cells -/

namespace PrehashCells

/-- Every cell that is filled holds the hash of `tx` it stands for. -/
structure Sound (tx : Tx) (cache : PrehashCells) : Prop where
  daCore : ∀ hash, cache.hashOfDaCoreFields = some hash →
    (daCoreFieldsBytes tx >>= (.ok <| sha3_256 ·)) = .ok hash
  prevouts : ∀ hash, cache.hashAllPrevouts = some hash → prevoutsHash tx = hash
  sequences : ∀ hash, cache.hashAllSequences = some hash → sequencesHash tx = hash
  outputs : ∀ hash, cache.hashAllOutputs = some hash → outputsHash tx = hash
  single : ∀ index hash, cache.singleOutputs.lookup index = some hash →
    singleOutputHash tx index = hash

variable (tx : Tx)

theorem sound_new : Sound tx new where
  daCore := nofun
  prevouts := nofun
  sequences := nofun
  outputs := nofun
  single := by simp [new]

theorem getHashOfDaCoreFields_sound :
    SteadyOn (Sound tx) (getHashOfDaCoreFields tx) (daCoreFieldsBytes tx >>= (.ok <| sha3_256 ·)) :=
  .memoized (fun _ hash hI hcell => hI.daCore hash hcell)
    fun _ _ hI hval => { hI with daCore := by rintro _ ⟨⟩; exact hval }

theorem getHashAllPrevouts_sound :
    SteadyOn (Sound tx) (getHashAllPrevouts tx) (.ok (prevoutsHash tx)) :=
  .memoized (fun _ hash hI hcell => congrArg _ (hI.prevouts hash hcell))
    fun _ _ hI hval => { hI with prevouts := by rintro _ ⟨⟩; exact Except.ok.inj hval }

theorem getHashAllSequences_sound :
    SteadyOn (Sound tx) (getHashAllSequences tx) (.ok (sequencesHash tx)) :=
  .memoized (fun _ hash hI hcell => congrArg _ (hI.sequences hash hcell))
    fun _ _ hI hval => { hI with sequences := by rintro _ ⟨⟩; exact Except.ok.inj hval }

theorem getHashAllOutputs_sound :
    SteadyOn (Sound tx) (getHashAllOutputs tx) (.ok (outputsHash tx)) :=
  .memoized (fun _ hash hI hcell => congrArg _ (hI.outputs hash hcell))
    fun _ _ hI hval => { hI with outputs := by rintro _ ⟨⟩; exact Except.ok.inj hval }

/-- The only cell with a key: storing one index leaves the others. -/
theorem getSingleOutputHash_sound (inputIndex : UInt32) :
    SteadyOn (Sound tx) (getSingleOutputHash tx inputIndex) (.ok (singleOutputHash tx inputIndex)) := by
  refine .memoized (fun _ hash hI hcell => congrArg _ (hI.single inputIndex hash hcell)) ?_
  intro cache hash hI hval
  refine { hI with single := ?_ }
  intro index found hfound
  rw [lookup_insert_eq] at hfound
  split_ifs at hfound with heq
  · rw [heq, ← Option.some.inj hfound]
    exact Except.ok.inj hval
  · exact hI.single index found hfound

omit [Crypto] in
theorem ownOrAll_sound {I : PrehashCells → Prop} {all : M Bytes32} {v : Bytes32}
    (h : SteadyOn I all (.ok v)) (anyoneCanPay : Bool) (own : Bytes32) :
    SteadyOn I (ownOrAll anyoneCanPay own all) (.ok (if anyoneCanPay then own else v)) := by
  cases anyoneCanPay
  · exact h
  · exact SteadyOn.pure own

theorem hashOutputs_sound (inputIndex : UInt32) (baseType : UInt8) :
    SteadyOn (Sound tx) (hashOutputs tx inputIndex baseType)
      (digestOutputsPlain tx inputIndex baseType) := by
  unfold hashOutputs digestOutputsPlain
  split_ifs
  · exact getHashAllOutputs_sound tx
  · exact SteadyOn.pure _
  · exact getSingleOutputHash_sound tx inputIndex
  · exact SteadyOn.lift _

/-- **One call on a sound cache**: the digest computed without a cache, and the cache is sound
again, also when the call fails half-way. -/
theorem digest_sound (inputIndex : UInt32) (inputValue : UInt64) (chainId : Bytes32)
    (sighashType : UInt8) :
    SteadyOn (Sound tx) (digest tx inputIndex inputValue chainId sighashType)
      (sighashV1DigestPlain tx inputIndex inputValue chainId sighashType) :=
  .bind (.lift _) fun _ => .bind (.lift _) fun _ =>
    .bind (ownOrAll_sound (getHashAllPrevouts_sound tx) _ _) fun _ =>
    .bind (ownOrAll_sound (getHashAllSequences_sound tx) _ _) fun _ =>
    .bind (hashOutputs_sound tx inputIndex _) fun _ =>
    .bind (getHashOfDaCoreFields_sound tx) fun _ => .pure _

/-! ## 3. Runs -/

theorem answers_of_sound (calls : List DigestCall) (cache : PrehashCells) (hI : Sound tx cache) :
    answers tx calls cache = calls.map fun call => sighashV1DigestPlain tx call.inputIndex
      call.inputValue call.chainId call.sighashType := by
  induction calls generalizing cache with
  | nil => rfl
  | cons call calls ih =>
    have hcall := digest_sound tx call.inputIndex call.inputValue call.chainId call.sighashType
      cache hI
    rw [answers, List.map_cons]
    split
    · rename_i hash cache' hd
      obtain ⟨hplain, hI'⟩ := hcall.of_ok hd
      rw [hplain, ih cache' hI']
    · rename_i e cache' hd
      obtain ⟨hplain, hI'⟩ := hcall.of_error hd
      rw [hplain, ih cache' hI']

/-- **The cache is transparent over every run.**  Any calls on one cache, failing ones among them,
answer what `sighash_v1_digest_with_type` answers to each of them alone. -/
theorem answers_eq_withType (calls : List DigestCall) :
    answers tx calls new = calls.map fun call => sighashV1DigestWithType tx call.inputIndex
      call.inputValue call.chainId call.sighashType := by
  rw [answers_of_sound tx calls new (sound_new tx)]
  refine List.map_congr_left fun call _ => ?_
  exact (sighashV1DigestWithType_of_steady (sighashV1DigestWithCache_plain tx _ _ _ _)).symm

end PrehashCells

end Rubin.Consensus
