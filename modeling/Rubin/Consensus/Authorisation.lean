/-
# Spend authorisation

What an accepted transaction has proved about its inputs.  Without a queue a spend validator
succeeds exactly when a predicate holds, whatever the prehash cache has seen; that predicate is
computed for one slot, for a list of threshold slots and for each covenant.
-/
import Rubin.Consensus.ApplySpec

namespace Rubin.Consensus

open Rubin.Lib

variable [Crypto] {tx : Tx}

/-! ## 1. Validators without a queue -/

/-- Run without a queue, `m` returns `a` exactly when `P a`, and makes no queue. -/
def Inline {α : Type} (m : SpendM tx α) (P : α → Prop) : Prop :=
  ∀ (cache : SighashV1PrehashCache tx) (a : α) (sink : Option SigCheckQueue),
    (∃ cache', m ⟨cache, none⟩ = .ok (a, ⟨cache', sink⟩)) ↔ sink = none ∧ P a

namespace Inline

variable {α β : Type}

variable {m : SpendM tx α} {P : α → Prop}

theorem iff {Q : α → Prop} (h : Inline m P) (hpq : ∀ a, P a ↔ Q a) : Inline m Q := by
  intro cache a sink
  rw [h cache a sink, hpq a]

theorem lift (x : Except TxError α) : Inline (StateT.lift x : SpendM tx α) (x = .ok ·) := by
  intro cache a sink
  constructor
  · rintro ⟨cache', h⟩
    obtain ⟨hx, hs⟩ := stateT_lift_eq_ok.mp h
    cases hs
    exact ⟨rfl, hx⟩
  · rintro ⟨rfl, hx⟩
    exact ⟨cache, stateT_lift_eq_ok.mpr ⟨hx, rfl⟩⟩

theorem pure (b : α) : Inline (Pure.pure b : SpendM tx α) (· = b) :=
  (lift (.ok b)).iff fun a => by rw [Except.ok.injEq, eq_comm]

theorem bind {f : α → SpendM tx β} {Q : α → β → Prop} (hm : Inline m P)
    (hf : ∀ a, Inline (f a) (Q a)) : Inline (m >>= f) fun b => ∃ a, P a ∧ Q a b := by
  intro cache b sink
  constructor
  · rintro ⟨cache', h⟩
    obtain ⟨a, ⟨cache₁, sink₁⟩, h1, h2⟩ := stateT_bind_eq_ok.mp h
    obtain ⟨rfl, hP⟩ := (hm cache a sink₁).mp ⟨cache₁, h1⟩
    obtain ⟨rfl, hQ⟩ := (hf a cache₁ b sink).mp ⟨cache', h2⟩
    exact ⟨rfl, a, hP, hQ⟩
  · rintro ⟨rfl, a, hP, hQ⟩
    obtain ⟨cache₁, h1⟩ := (hm cache a none).mpr ⟨rfl, hP⟩
    obtain ⟨cache', h2⟩ := (hf a cache₁ b none).mpr ⟨rfl, hQ⟩
    exact ⟨cache', stateT_bind_eq_ok.mpr ⟨a, _, h1, h2⟩⟩

theorem ofSteady {m : SighashV1PrehashCache.M tx α} {x : Except TxError α} (h : Steady m x) :
    Inline (withCache m) (x = .ok ·) := by
  intro cache a sink
  cases x with
  | error e => simp [withCache, h.eq_error]
  | ok b =>
    obtain ⟨c, hc⟩ := h.eq_ok cache
    simp [withCache, hc, eq_comm, and_comm]

theorem signature (suiteId : UInt8) (pubkey cryptoSig : Bytes) (digest : Bytes32)
    (registry : SuiteRegistry) (e : TxError) :
    Inline (queueOrVerifySignature suiteId pubkey cryptoSig digest registry e : SpendM tx Unit)
      fun _ => verifySigWithRegistry suiteId pubkey cryptoSig digest (some registry) =
        .ok true := by
  intro cache a sink
  simp only [queueOrVerifySignature, submit, verifyQueuedTask]
  cases verifySigWithRegistry suiteId pubkey cryptoSig digest (some registry) with
  | error e' => simp
  | ok b => cases b <;> simp [rejectIf, eq_comm]

theorem run (h : Inline m P) {s s' : SpendState tx} {a : α} (hq : s.queue = none)
    (hrun : m s = .ok (a, s')) : P a ∧ s'.queue = none := by
  obtain ⟨cache, queue⟩ := s
  cases hq
  obtain ⟨hnone, hP⟩ := (h cache a s'.queue).mp ⟨s'.cache, hrun⟩
  exact ⟨hP, hnone⟩

end Inline

/-! ## 2. One slot -/

/-- What a slot is checked against: the suites of its height, and what is signed. -/
structure AuthContext where
  nativeSpend : NativeSuiteSet
  registry : SuiteRegistry
  chainId : Bytes32
  inputIndex : UInt32
  inputValue : UInt64

def AuthContext.of (rotation : Option RotationProvider) (registry : Option SuiteRegistry)
    (blockHeight : Nat) (chainId : Bytes32) (inputIndex : UInt32) (inputValue : UInt64) :
    AuthContext where
  nativeSpend := (rotation.getD DefaultRotationProvider).nativeSpendSuites blockHeight
  registry := registry.getD SuiteRegistry.defaultRegistry
  chainId
  inputIndex
  inputValue

/-- The suite is native and registered, and the item has the registered lengths. -/
def SuiteAccepted (ac : AuthContext) (w : WitnessItem) : Prop :=
  ac.nativeSpend.contains w.suiteId = true ∧
    ∃ params, ac.registry.lookup w.suiteId = some params ∧
      w.pubkey.length = params.pubkeyLen.toNat ∧
      w.signature.length = (params.sigLen + 1).toNat

/-- The item's last byte is a sighash type, and the rest signs the digest of that type. -/
def Signed (tx : Tx) (ac : AuthContext) (w : WitnessItem) : Prop :=
  ∃ sig sighashType digest, w.signature = sig ++ [sighashType] ∧
    isValidSighashType sighashType = true ∧
    sighashV1DigestWithType tx ac.inputIndex ac.inputValue ac.chainId sighashType = .ok digest ∧
    verifySigWithRegistry w.suiteId w.pubkey sig digest (some ac.registry) = .ok true

structure SlotAuthorises (tx : Tx) (ac : AuthContext) (w : WitnessItem) (keyId : Bytes32) :
    Prop where
  suite : SuiteAccepted ac w
  key : sha3_256 w.pubkey = keyId
  signed : Signed tx ac w

omit [Crypto] in
theorem suiteAccepted_iff {ac : AuthContext} {w : WitnessItem} {msg msg' : String} :
    (∃ params, spendSuiteParams w ac.nativeSpend ac.registry msg msg' = .ok params ∧
      validateWitnessItemLengths w params = .ok ()) ↔ SuiteAccepted ac w := by
  simp only [spendSuiteParams, validateWitnessItemLengths, bind_eq_ok, exists_unit,
    rejectIf_eq_ok, okOr_eq_ok, not_not, Bool.not_eq_false, SuiteAccepted, and_assoc,
    exists_and_left]

omit [Crypto] in
theorem extractCryptoSigAndSighash_iff {w : WitnessItem} {sig : Bytes × UInt8} :
    extractCryptoSigAndSighash w = .ok sig ↔
      w.signature = sig.1 ++ [sig.2] ∧ isValidSighashType sig.2 = true := by
  constructor
  · exact extractCryptoSigAndSighash_eq_ok
  · rintro ⟨hsig, hty⟩
    simp [extractCryptoSigAndSighash, hsig, hty, okOr, rejectIf]

theorem checkSignature_inline (ac : AuthContext) (w : WitnessItem) (e : TxError) :
    Inline (checkSignature w ac.inputIndex ac.inputValue ac.chainId ac.registry e :
      SpendM tx Unit) fun _ => Signed tx ac w := by
  refine (Inline.bind (Inline.lift _) fun sig => Inline.bind
    (Inline.ofSteady (sighashV1DigestWithCache_steady tx _ _ _ _)) fun digest =>
      Inline.signature _ _ _ _ _ _).iff ?_
  intro _
  simp only [extractCryptoSigAndSighash_iff, Signed]
  constructor
  · rintro ⟨⟨sig, ty⟩, ⟨hsig, hty⟩, digest, hdigest, hver⟩
    exact ⟨sig, ty, digest, hsig, hty, hdigest, hver⟩
  · rintro ⟨sig, ty, digest, hsig, hty, hdigest, hver⟩
    exact ⟨(sig, ty), ⟨hsig, hty⟩, digest, hdigest, hver⟩

theorem verifyMldsaKeyAndSigQ_inline (ac : AuthContext) (w : WitnessItem) (keyId : Bytes32)
    (e e' : TxError) :
    Inline (verifyMldsaKeyAndSigQ w keyId ac.inputIndex ac.inputValue ac.chainId ac.registry e e' :
      SpendM tx Unit) fun _ => sha3_256 w.pubkey = keyId ∧ Signed tx ac w := by
  refine (Inline.bind (Inline.lift _) fun _ => checkSignature_inline ac w e').iff ?_
  intro _
  simp only [rejectIf_eq_ok, not_not, exists_unit]

/-! ## 3. Threshold slots -/

def WitnessItem.IsEmptySentinel (w : WitnessItem) : Prop :=
  w.suiteId = suiteIdSentinel ∧ w.pubkey = [] ∧ w.signature = []

/-- A threshold slot is left empty, or it authorises the key at its position. -/
def SlotFilled (tx : Tx) (ac : AuthContext) (p : Bytes32 × WitnessItem) : Prop :=
  p.2.IsEmptySentinel ∨ p.2.suiteId ≠ suiteIdSentinel ∧ SlotAuthorises tx ac p.2 p.1

/-- One slot for each key, none wrong, and enough of them filled. -/
structure ThresholdAuthorised (tx : Tx) (ac : AuthContext) (keys : List Bytes32)
    (threshold : UInt8) (ws : List WitnessItem) : Prop where
  length : ws.length = keys.length
  slots : ∀ p ∈ keys.zip ws, SlotFilled tx ac p
  enough : threshold.toNat ≤ ws.countP (·.suiteId ≠ suiteIdSentinel)

theorem validateThresholdSlot_inline (ac : AuthContext) (key : Bytes32) (w : WitnessItem)
    (context : ThresholdContext) :
    Inline (validateThresholdSlot key w ac.inputIndex ac.inputValue ac.chainId context
      ac.nativeSpend ac.registry : SpendM tx Unit) fun _ => SlotAuthorises tx ac w key := by
  refine (Inline.bind (Inline.lift _) fun params => Inline.bind (Inline.lift _) fun _ =>
    verifyMldsaKeyAndSigQ_inline ac w key _ _).iff ?_
  intro _
  simp only [exists_unit, ← and_assoc, exists_and_right, suiteAccepted_iff]
  constructor
  · rintro ⟨⟨h1, h2⟩, h3⟩
    exact ⟨h1, h2, h3⟩
  · rintro ⟨h1, h2, h3⟩
    exact ⟨⟨h1, h2⟩, h3⟩

/-- The counter saturates at 255 and no threshold is above that. -/
theorem validateThresholdSlots_inline (ac : AuthContext) (context : ThresholdContext) :
    ∀ (slots : List (Bytes32 × WitnessItem)) {valid : Nat}, valid ≤ 255 →
      Inline (validateThresholdSlots ac.inputIndex ac.inputValue ac.chainId context
        ac.nativeSpend ac.registry slots valid : SpendM tx Nat) fun n =>
          (∀ p ∈ slots, SlotFilled tx ac p) ∧
            n = min (valid + slots.countP (·.2.suiteId ≠ suiteIdSentinel)) 255
  | [], valid, hvalid => by
    refine (Inline.pure valid).iff fun n => ?_
    simp [hvalid]
  | (key, w) :: rest, valid, hvalid => by
    unfold validateThresholdSlots
    by_cases hw : w.suiteId = suiteIdSentinel
    · rw [if_pos hw]
      refine (Inline.bind (Inline.lift _) fun _ =>
        validateThresholdSlots_inline ac context rest hvalid).iff fun n => ?_
      simp [rejectIf_eq_ok, hw, SlotFilled, WitnessItem.IsEmptySentinel, and_assoc]
    · rw [if_neg hw]
      refine (Inline.bind (validateThresholdSlot_inline ac key w context) fun _ =>
        validateThresholdSlots_inline ac context rest (Nat.min_le_right _ 255)).iff fun n => ?_
      have hcount : min (min (valid + 1) 255 + rest.countP (·.2.suiteId ≠ suiteIdSentinel)) 255 =
          min (valid + (rest.countP (·.2.suiteId ≠ suiteIdSentinel) + 1)) 255 := by omega
      rw [hcount]
      simp [hw, SlotFilled, WitnessItem.IsEmptySentinel, and_assoc]

omit [Crypto] in
theorem countP_zip_snd {keys : List Bytes32} {ws : List WitnessItem}
    (hlen : ws.length = keys.length) (p : WitnessItem → Bool) :
    (keys.zip ws).countP (fun q => p q.2) = ws.countP p := by
  have h := List.countP_map (p := p) (f := Prod.snd) (l := keys.zip ws)
  rw [List.map_snd_zip (le_of_eq hlen)] at h
  exact h.symm

section covenants

variable (rotation : Option RotationProvider) (registry : Option SuiteRegistry)
  (blockHeight : Nat) (chainId : Bytes32) (inputIndex : UInt32) (inputValue : UInt64)

theorem validateThresholdSigSpendQ_inline (keys : List Bytes32) (threshold : UInt8)
    (ws : List WitnessItem) (context : ThresholdContext) :
    Inline (validateThresholdSigSpendQ keys threshold ws inputIndex inputValue chainId
      blockHeight context rotation registry : SpendM tx Unit) fun _ => ThresholdAuthorised tx
        (.of rotation registry blockHeight chainId inputIndex inputValue) keys threshold ws := by
  refine (Inline.bind (Inline.lift _) fun _ => Inline.bind (validateThresholdSlots_inline
    (.of rotation registry blockHeight chainId inputIndex inputValue) context (keys.zip ws)
    (Nat.zero_le 255)) fun valid => Inline.lift _).iff fun _ => ?_
  simp only [rejectIf_eq_ok, not_not, exists_unit, not_lt, Nat.zero_add]
  have ht : threshold.toNat < 256 := threshold.toNat_lt
  constructor
  · rintro ⟨hlen, n, ⟨hslots, hn⟩, hle⟩
    rw [countP_zip_snd hlen fun w => decide (w.suiteId ≠ suiteIdSentinel)] at hn
    exact ⟨hlen, hslots, by omega⟩
  · rintro ⟨hlen, hslots, hle⟩
    refine ⟨hlen, _, ⟨hslots, rfl⟩, ?_⟩
    rw [countP_zip_snd hlen fun w => decide (w.suiteId ≠ suiteIdSentinel)]
    omega

/-! ## 4. Each covenant -/

/-- The claim selector: the claim key, then the preimage of the lock with its length in front. -/
def HtlcClaim (cov : HtlcCovenant) (selector : WitnessItem) : Prop :=
  selector.suiteId = suiteIdSentinel ∧ selector.pubkey = cov.claimKeyId.toList ∧
    ∃ preimage : Bytes, selector.signature = 0x00 :: (natToLe 2 preimage.length ++ preimage) ∧
      minHtlcPreimageBytes ≤ preimage.length ∧ preimage.length ≤ maxHtlcPreimageBytes ∧
      sha3_256 preimage = cov.hash

/-- The refund selector: the refund key, once the lock has run out. -/
def HtlcRefund (cov : HtlcCovenant) (blockHeight : Nat) (blockMtp : UInt64)
    (selector : WitnessItem) : Prop :=
  selector.suiteId = suiteIdSentinel ∧ selector.pubkey = cov.refundKeyId.toList ∧
    selector.signature = [0x01] ∧
    (cov.lockMode = lockModeHeight → cov.lockValue ≤ blockHeight) ∧
    (cov.lockMode ≠ lockModeHeight → cov.lockValue ≤ blockMtp.toNat)

def P2pkAuthorised (tx : Tx) (ac : AuthContext) (entry : UtxoEntry) (block : List WitnessItem) :
    Prop :=
  ∃ w, block = [w] ∧ entry.covenantData.length = maxP2pkCovenantData ∧
    entry.covenantData.getD 0 0 = w.suiteId ∧
    SlotAuthorises tx ac w (slice32 entry.covenantData 1)

def MultisigAuthorised (tx : Tx) (ac : AuthContext) (entry : UtxoEntry)
    (block : List WitnessItem) : Prop :=
  ∃ m, parseMultisigCovenantData entry.covenantData = .ok m ∧
    ThresholdAuthorised tx ac m.keys m.threshold block

def VaultAuthorised (tx : Tx) (ac : AuthContext) (entry : UtxoEntry)
    (block : List WitnessItem) : Prop :=
  ∃ v, parseVaultCovenantDataForSpend entry.covenantData = .ok v ∧
    ThresholdAuthorised tx ac v.keys v.threshold block

def HtlcAuthorised (tx : Tx) (ac : AuthContext) (blockHeight : Nat) (blockMtp : UInt64)
    (entry : UtxoEntry) (block : List WitnessItem) : Prop :=
  ∃ selector w, block = [selector, w] ∧
    ∃ cov, parseHtlcCovenantData entry.covenantData = .ok cov ∧
      (HtlcClaim cov selector ∧ SlotAuthorises tx ac w cov.claimKeyId ∨
        HtlcRefund cov blockHeight blockMtp selector ∧ SlotAuthorises tx ac w cov.refundKeyId)

def StealthAuthorised (tx : Tx) (ac : AuthContext) (entry : UtxoEntry)
    (block : List WitnessItem) : Prop :=
  ∃ w, block = [w] ∧ ∃ cov, parseStealthCovenantData entry.covenantData = .ok cov ∧
    SlotAuthorises tx ac w cov.oneTimeKeyId

def UtxoApplyContext.auth (ctx : UtxoApplyContext) (i : Nat) (entry : UtxoEntry) : AuthContext :=
  .of ctx.rotation ctx.registry ctx.height ctx.chainId (UInt32.ofNat i) entry.value

/-- `block` authorises the spend of `entry` by input `i`, under the entry's own covenant. -/
def SpendAuthorised (tx : Tx) (ctx : UtxoApplyContext) (i : Nat) (entry : UtxoEntry)
    (block : List WitnessItem) : Prop :=
  if entry.covenantType = covTypeP2pk then P2pkAuthorised tx (ctx.auth i entry) entry block
  else if entry.covenantType = covTypeMultisig then
    MultisigAuthorised tx (ctx.auth i entry) entry block
  else if entry.covenantType = covTypeVault then
    VaultAuthorised tx (ctx.auth i entry) entry block
  else if entry.covenantType = covTypeHtlc then
    HtlcAuthorised tx (ctx.auth i entry) ctx.height ctx.blockMtp entry block
  else if entry.covenantType = covTypeCoreStealth then
    StealthAuthorised tx (ctx.auth i entry) entry block
  else False

theorem validateP2pkSpendQ_inline (entry : UtxoEntry) (w : WitnessItem) :
    Inline (validateP2pkSpendQ entry w inputIndex inputValue chainId blockHeight rotation
      registry : SpendM tx Unit) fun _ =>
        entry.covenantData.length = maxP2pkCovenantData ∧
          entry.covenantData.getD 0 0 = w.suiteId ∧
          SlotAuthorises tx (.of rotation registry blockHeight chainId inputIndex inputValue) w
            (slice32 entry.covenantData 1) := by
  refine (Inline.bind (Inline.lift _) fun params => Inline.bind (Inline.lift _) fun _ =>
    Inline.bind (Inline.lift _) fun keyId => verifyMldsaKeyAndSigQ_inline
      (.of rotation registry blockHeight chainId inputIndex inputValue) w keyId _ _).iff fun _ => ?_
  simp only [p2pkCovenantKeyId, bind_eq_ok, exists_unit, rejectIf_eq_ok, Except.ok.injEq]
  constructor
  · rintro ⟨params, hparams, hlens, keyId, ⟨hcov, rfl⟩, hkey, hsig⟩
    have hsuite : SuiteAccepted (.of rotation registry blockHeight chainId inputIndex inputValue)
      w := suiteAccepted_iff.mp ⟨params, hparams, hlens⟩
    push Not at hcov
    exact ⟨hcov.1, hcov.2, hsuite, hkey, hsig⟩
  · rintro ⟨hlen, hid, hsuite, hkey, hsig⟩
    obtain ⟨params, hparams, hlens⟩ := suiteAccepted_iff.mpr hsuite
    have hcov := not_or.mpr ⟨not_not.mpr hlen, not_not.mpr hid⟩
    exact ⟨params, hparams, hlens, _, ⟨hcov, rfl⟩, hkey, hsig⟩

theorem validateStealthSpendQ_inline (entry : UtxoEntry) (w : WitnessItem) :
    Inline (validateStealthSpendQ entry w inputIndex inputValue chainId blockHeight rotation
      registry : SpendM tx Unit) fun _ =>
        ∃ cov, parseStealthCovenantData entry.covenantData = .ok cov ∧
          SlotAuthorises tx (.of rotation registry blockHeight chainId inputIndex inputValue) w
            cov.oneTimeKeyId := by
  refine (Inline.bind (Inline.lift _) fun cov => Inline.bind (Inline.lift _) fun params =>
    Inline.bind (Inline.lift _) fun _ => Inline.bind (Inline.lift _) fun _ =>
      checkSignature_inline (.of rotation registry blockHeight chainId inputIndex inputValue) w
        _).iff fun _ => ?_
  simp only [validateStealthKeyBinding, exists_unit, rejectIf_eq_ok, not_not]
  constructor
  · rintro ⟨cov, hcov, params, hparams, hlens, hkey, hsig⟩
    exact ⟨cov, hcov, suiteAccepted_iff.mp ⟨params, hparams, hlens⟩, hkey, hsig⟩
  · rintro ⟨cov, hcov, hsuite, hkey, hsig⟩
    obtain ⟨params, hparams, hlens⟩ := suiteAccepted_iff.mpr hsuite
    exact ⟨cov, hcov, params, hparams, hlens, hkey, hsig⟩

end covenants

variable {rest : Bytes} {cov : HtlcCovenant} {k : Bytes32} {ctx : UtxoApplyContext}

theorem claimPayload_iff {hash : Bytes32} :
    (2 ≤ rest.length ∧ minHtlcPreimageBytes ≤ leToNat (rest.take 2) ∧
        leToNat (rest.take 2) ≤ maxHtlcPreimageBytes ∧
        rest.length = 2 + leToNat (rest.take 2) ∧ sha3_256 (rest.drop 2) = hash) ↔
      ∃ preimage : Bytes, rest = natToLe 2 preimage.length ++ preimage ∧
        minHtlcPreimageBytes ≤ preimage.length ∧ preimage.length ≤ maxHtlcPreimageBytes ∧
        sha3_256 preimage = hash := by
  constructor
  · rintro ⟨h2, hmin, hmax, hlen, hhash⟩
    have htake : (rest.take 2).length = 2 := by rw [List.length_take]; omega
    have hdrop : (rest.drop 2).length = leToNat (rest.take 2) := by rw [List.length_drop]; omega
    have hle := natToLe_leToNat (rest.take 2)
    rw [htake] at hle
    refine ⟨rest.drop 2, ?_, by omega, by omega, hhash⟩
    rw [hdrop, hle, List.take_append_drop]
  · rintro ⟨preimage, rfl, hmin, hmax, hhash⟩
    have hlen : (natToLe 2 preimage.length).length = 2 := natToLe_length _ _
    have htake : (natToLe 2 preimage.length ++ preimage).take 2 = natToLe 2 preimage.length :=
      List.take_left' hlen
    have hdrop : (natToLe 2 preimage.length ++ preimage).drop 2 = preimage :=
      List.drop_left' hlen
    have hval : leToNat (natToLe 2 preimage.length) = preimage.length := by
      rw [leToNat_natToLe]
      exact Nat.mod_eq_of_lt (by simp only [maxHtlcPreimageBytes] at hmax; omega)
    rw [htake, hdrop, hval, List.length_append, hlen]
    exact ⟨by omega, hmin, hmax, rfl, hhash⟩

theorem validateHtlcClaimPath_iff {key : Bytes32} :
    validateHtlcClaimPath cov (0x00 :: rest) key = .ok k ↔
      key = cov.claimKeyId ∧ k = cov.claimKeyId ∧
        ∃ preimage : Bytes, rest = natToLe 2 preimage.length ++ preimage ∧
          minHtlcPreimageBytes ≤ preimage.length ∧ preimage.length ≤ maxHtlcPreimageBytes ∧
          sha3_256 preimage = cov.hash := by
  rw [← claimPayload_iff]
  simp only [validateHtlcClaimPath, bind_eq_ok, exists_unit, rejectIf_eq_ok, Except.ok.injEq,
    List.length_cons, List.drop_succ_cons, List.drop_zero, not_not, not_lt]
  constructor
  · rintro ⟨hkey, h3, hmin, hmax, hlen, hhash, rfl⟩
    exact ⟨hkey, rfl, by omega, hmin, hmax, by omega, hhash⟩
  · rintro ⟨hkey, rfl, h2, hmin, hmax, hlen, hhash⟩
    exact ⟨hkey, by omega, hmin, hmax, by omega, hhash, rfl⟩

omit [Crypto] in
theorem validateHtlcRefundPath_iff {key : Bytes32} {ctx : HtlcSpendContext} :
    validateHtlcRefundPath cov (0x01 :: rest) key ctx = .ok k ↔
      key = cov.refundKeyId ∧ k = cov.refundKeyId ∧ rest = [] ∧
        (cov.lockMode = lockModeHeight → cov.lockValue ≤ ctx.blockHeight) ∧
        (cov.lockMode ≠ lockModeHeight → cov.lockValue ≤ ctx.blockMtp.toNat) := by
  simp only [validateHtlcRefundPath, bind_eq_ok, exists_unit, rejectIf_eq_ok, Except.ok.injEq,
    List.length_cons, not_and, not_lt, not_not, Nat.add_eq_right, List.length_eq_zero_iff]
  constructor
  · rintro ⟨hlen, hheight, htime, hkey, rfl⟩
    exact ⟨hkey, rfl, hlen, hheight, htime⟩
  · rintro ⟨hkey, rfl, hlen, hheight, htime⟩
    exact ⟨hlen, hheight, htime, hkey, rfl⟩

omit [Crypto] in
theorem parseHtlcSelector_iff {item : WitnessItem} {selector : HtlcSelector} :
    parseHtlcSelector item = .ok selector ↔
      item.suiteId = suiteIdSentinel ∧ item.pubkey = selector.keyId.toList ∧
        item.signature = selector.payload ∧ selector.payload ≠ [] ∧
        selector.pathId = selector.payload.headD 0 := by
  obtain ⟨keyId, pathId, payload⟩ := selector
  simp only [parseHtlcSelector, bind_eq_ok, exists_unit, rejectIf_eq_ok, Except.ok.injEq,
    HtlcSelector.mk.injEq, not_not]
  constructor
  · rintro ⟨hsuite, hlen, hne, rfl, rfl, rfl⟩
    exact ⟨hsuite, (BytesN.toList_ofList hlen).symm, rfl, hne, rfl⟩
  · rintro ⟨hsuite, hkey, rfl, hne, rfl⟩
    refine ⟨hsuite, ?_, hne, ?_, rfl, rfl⟩
    · rw [hkey]
      exact keyId.length_toList
    · rw [hkey, BytesN.ofList_toList]

theorem htlcSelector_iff {item : WitnessItem} {ctx : HtlcSpendContext} :
    (∃ selector, parseHtlcSelector item = .ok selector ∧
        expectedHtlcSpendKeyId cov selector ctx = .ok k) ↔
      HtlcClaim cov item ∧ k = cov.claimKeyId ∨
        HtlcRefund cov ctx.blockHeight ctx.blockMtp item ∧ k = cov.refundKeyId := by
  constructor
  · rintro ⟨⟨keyId, pathId, payload⟩, hparse, hexp⟩
    obtain ⟨hsuite, hkey, hsig, hne, hpath⟩ := parseHtlcSelector_iff.mp hparse
    obtain ⟨b, rest, rfl⟩ := List.exists_cons_of_ne_nil hne
    cases hpath
    rw [expectedHtlcSpendKeyId] at hexp
    split at hexp
    · rename_i hb
      cases hb
      obtain ⟨rfl, rfl, preimage, hrest, hpre⟩ := validateHtlcClaimPath_iff.mp hexp
      exact .inl ⟨⟨hsuite, hkey, preimage, hsig.trans (congrArg _ hrest), hpre⟩, rfl⟩
    · split at hexp
      · rename_i hb
        cases hb
        obtain ⟨rfl, rfl, rfl, hlock⟩ := validateHtlcRefundPath_iff.mp hexp
        exact .inr ⟨⟨hsuite, hkey, hsig, hlock⟩, rfl⟩
      · cases hexp
  · rintro (⟨⟨hsuite, hkey, preimage, hsig, hpre⟩, rfl⟩ | ⟨⟨hsuite, hkey, hsig, hlock⟩, rfl⟩)
    · refine ⟨⟨cov.claimKeyId, 0x00, _⟩, parseHtlcSelector_iff.mpr
        ⟨hsuite, hkey, hsig, List.cons_ne_nil _ _, rfl⟩, ?_⟩
      exact validateHtlcClaimPath_iff.mpr ⟨rfl, rfl, preimage, rfl, hpre⟩
    · refine ⟨⟨cov.refundKeyId, 0x01, _⟩, parseHtlcSelector_iff.mpr
        ⟨hsuite, hkey, hsig, List.cons_ne_nil _ _, rfl⟩, ?_⟩
      exact validateHtlcRefundPath_iff.mpr ⟨rfl, rfl, rfl, hlock⟩

theorem validateHtlcSpendQ_inline (entry : UtxoEntry) (selector w : WitnessItem)
    (ctx : HtlcSpendContext) (rotation : Option RotationProvider)
    (registry : Option SuiteRegistry) :
    Inline (validateHtlcSpendQ entry selector w ctx rotation registry : SpendM tx Unit) fun _ =>
      ∃ cov k, parseHtlcCovenantData entry.covenantData = .ok cov ∧
        (HtlcClaim cov selector ∧ k = cov.claimKeyId ∨
          HtlcRefund cov ctx.blockHeight ctx.blockMtp selector ∧ k = cov.refundKeyId) ∧
        SlotAuthorises tx (.of rotation registry ctx.blockHeight ctx.chainId ctx.inputIndex
          ctx.inputValue) w k := by
  refine (Inline.bind (Inline.lift _) fun cov => Inline.bind (Inline.lift _) fun sel =>
    Inline.bind (Inline.lift _) fun k => Inline.bind (Inline.lift _) fun _ =>
      checkSignature_inline (.of rotation registry ctx.blockHeight ctx.chainId ctx.inputIndex
        ctx.inputValue) w _).iff fun _ => ?_
  simp only [validateHtlcSignaturePrecheck, bind_eq_ok, exists_unit, rejectIf_eq_ok, not_not]
  constructor
  · rintro ⟨cov, hcov, sel, hsel, k, hk, ⟨params, hparams, hlens, hkey⟩, hsig⟩
    have hpath := htlcSelector_iff.mp ⟨sel, hsel, hk⟩
    exact ⟨cov, k, hcov, hpath, suiteAccepted_iff.mp ⟨params, hparams, hlens⟩, hkey, hsig⟩
  · rintro ⟨cov, k, hcov, hpath, hsuite, hkey, hsig⟩
    obtain ⟨sel, hsel, hk⟩ := htlcSelector_iff.mpr hpath
    obtain ⟨params, hparams, hlens⟩ := suiteAccepted_iff.mpr hsuite
    exact ⟨cov, hcov, sel, hsel, k, hk, ⟨params, hparams, hlens, hkey⟩, hsig⟩

/-! ## 5. One input -/

section input

variable {ctx : UtxoApplyContext} {i : Nat} {entry : UtxoEntry} {block : List WitnessItem}

theorem applyP2pkSpend_inline :
    Inline (applyP2pkSpend ctx entry block (UInt32.ofNat i) : SpendM tx Unit)
      fun _ => P2pkAuthorised tx (ctx.auth i entry) entry block := by
  unfold applyP2pkSpend
  split
  · refine (validateP2pkSpendQ_inline _ _ _ _ _ _ entry _).iff fun _ => ?_
    simp [P2pkAuthorised, UtxoApplyContext.auth]
  · rename_i hne
    refine (Inline.lift _).iff fun _ => ?_
    constructor
    · intro h
      cases h
    · rintro ⟨w, hw, -⟩
      exact (hne w hw).elim

theorem applyMultisigSpend_inline :
    Inline (applyMultisigSpend ctx entry block (UInt32.ofNat i) : SpendM tx Unit)
      fun _ => MultisigAuthorised tx (ctx.auth i entry) entry block :=
  Inline.bind (Inline.lift _) fun _ => validateThresholdSigSpendQ_inline _ _ _ _ _ _ _ _ _ _

theorem applyHtlcSpend_inline :
    Inline (applyHtlcSpend ctx entry block (UInt32.ofNat i) : SpendM tx Unit)
      fun _ => HtlcAuthorised tx (ctx.auth i entry) ctx.height ctx.blockMtp entry block := by
  unfold applyHtlcSpend
  split
  · refine (validateHtlcSpendQ_inline entry _ _ _ _ _).iff fun _ => ?_
    constructor
    · rintro ⟨cov, k, hcov, ⟨hclaim, rfl⟩ | ⟨hrefund, rfl⟩, hslot⟩
      · exact ⟨_, _, rfl, cov, hcov, .inl ⟨hclaim, hslot⟩⟩
      · exact ⟨_, _, rfl, cov, hcov, .inr ⟨hrefund, hslot⟩⟩
    · rintro ⟨_, _, hblock, cov, hcov, ⟨hclaim, hslot⟩ | ⟨hrefund, hslot⟩⟩
      · cases hblock
        exact ⟨cov, _, hcov, .inl ⟨hclaim, rfl⟩, hslot⟩
      · cases hblock
        exact ⟨cov, _, hcov, .inr ⟨hrefund, rfl⟩, hslot⟩
  · rename_i hne
    refine (Inline.lift _).iff fun _ => ?_
    constructor
    · intro h
      cases h
    · rintro ⟨selector, w, hw, -⟩
      exact (hne selector w hw).elim

theorem applyStealthSpend_inline :
    Inline (applyStealthSpend ctx entry block (UInt32.ofNat i) : SpendM tx Unit)
      fun _ => StealthAuthorised tx (ctx.auth i entry) entry block := by
  unfold applyStealthSpend
  split
  · refine (validateStealthSpendQ_inline _ _ _ _ _ _ entry _).iff fun _ => ?_
    simp [StealthAuthorised, UtxoApplyContext.auth]
  · rename_i hne
    refine (Inline.lift _).iff fun _ => ?_
    constructor
    · intro h
      cases h
    · rintro ⟨w, hw, -⟩
      exact (hne w hw).elim

/-- One turn of the spend loop: a vault is captured for later, anything else is authorised. -/
def SpendStep (tx : Tx) (ctx : UtxoApplyContext) (i : Nat) (r : ResolvedInput)
    (vault vault' : Option VaultSpendState) : Prop :=
  if r.entry.covenantType = covTypeVault then
    ∃ captured, VaultSpendState.capture r (UInt32.ofNat i) = .ok captured ∧
      vault' = some captured
  else SpendAuthorised tx ctx i r.entry (r.assigned tx) ∧ vault' = vault

omit [Crypto] in
theorem checkSpendCovenant_cases {ty : UInt16} {data : Bytes}
    (h : checkSpendCovenant ty data = .ok ()) :
    ty = covTypeP2pk ∨ ty = covTypeMultisig ∨ ty = covTypeVault ∨ ty = covTypeHtlc ∨
      ty = covTypeCoreStealth := by
  unfold checkSpendCovenant at h
  split_ifs at h with h1 h2 h3 h4 h5
  · exact .inl h1
  · exact .inr (.inr (.inr (.inr h2)))
  · exact .inr (.inr (.inl h3))
  · exact .inr (.inl h4)
  · exact .inr (.inr (.inr (.inl h5)))

theorem validateResolvedSpend_inline {r : ResolvedInput} {vault : Option VaultSpendState}
    (hfit : r.witnessStart + r.slotCount ≤ tx.witness.length)
    (hcov : checkSpendCovenant r.entry.covenantType r.entry.covenantData = .ok ()) :
    Inline (validateResolvedSpend ctx r i vault : SpendM tx _)
      (SpendStep tx ctx i r vault) := by
  have hrange : witnessRange tx r.witnessStart r.slotCount = .ok (r.assigned tx) := by
    simp [witnessRange, rejectIf, not_lt.mpr hfit, ResolvedInput.assigned]
  have hkeep : ∀ {m : SpendM tx Unit} {P : Prop}, Inline m (fun _ => P) →
      Inline (m >>= fun _ => pure vault) fun vault' => P ∧ vault' = vault := by
    intro m P hm
    refine (hm.bind fun _ => Inline.pure vault).iff fun vault' => ?_
    simp
  unfold validateResolvedSpend
  rw [hrange]
  change Inline (ite _ _ _) _
  rcases checkSpendCovenant_cases hcov with h | h | h | h | h
  · rw [if_pos h]
    refine (hkeep applyP2pkSpend_inline).iff fun vault' => ?_
    rw [SpendStep, if_neg (by rw [h]; decide), SpendAuthorised, if_pos h]
  · rw [if_neg (by rw [h]; decide), if_pos h]
    refine (hkeep applyMultisigSpend_inline).iff fun vault' => ?_
    rw [SpendStep, if_neg (by rw [h]; decide), SpendAuthorised, if_neg (by rw [h]; decide),
      if_pos h]
  · rw [if_neg (by rw [h]; decide), if_neg (by rw [h]; decide), if_pos h]
    refine (Inline.bind (Inline.lift _) fun captured => Inline.pure (some captured)).iff
      fun vault' => ?_
    rw [SpendStep, if_pos h]
  · rw [if_neg (by rw [h]; decide), if_neg (by rw [h]; decide), if_neg (by rw [h]; decide),
      if_pos h]
    refine (hkeep applyHtlcSpend_inline).iff fun vault' => ?_
    rw [SpendStep, if_neg (by rw [h]; decide), SpendAuthorised, if_neg (by rw [h]; decide),
      if_neg (by rw [h]; decide), if_neg (by rw [h]; decide), if_pos h]
  · rw [if_neg (by rw [h]; decide), if_neg (by rw [h]; decide), if_neg (by rw [h]; decide),
      if_neg (by rw [h]; decide), if_pos h]
    refine (hkeep applyStealthSpend_inline).iff fun vault' => ?_
    rw [SpendStep, if_neg (by rw [h]; decide), SpendAuthorised, if_neg (by rw [h]; decide),
      if_neg (by rw [h]; decide), if_neg (by rw [h]; decide), if_neg (by rw [h]; decide), if_pos h]

end input

/-! ## 6. All inputs -/

/-- The spend loop from input `i` on. -/
def SpendSteps (tx : Tx) (ctx : UtxoApplyContext) :
    (i : Nat) → List ResolvedInput → (acc acc' : SpendAccum) → Prop
  | _, [], acc, acc' => acc' = acc
  | i, r :: rs, acc, acc' => ∃ vault acc₁, SpendStep tx ctx i r acc.vaultSpend vault ∧
      acc.record r vault = .ok acc₁ ∧ SpendSteps tx ctx (i + 1) rs acc₁ acc'

theorem validateSpends_inline : ∀ {rs : List ResolvedInput} {i : Nat}
    {acc : SpendAccum},
    (∀ r ∈ rs, r.witnessStart + r.slotCount ≤ tx.witness.length) →
    (∀ r ∈ rs, checkSpendCovenant r.entry.covenantType r.entry.covenantData = .ok ()) →
    Inline (validateSpends ctx i rs acc : SpendM tx _) (SpendSteps tx ctx i rs acc)
  | [], i, acc, _, _ => Inline.pure acc
  | r :: rs, i, acc, hfit, hcov => by
    rw [List.forall_mem_cons] at hfit hcov
    refine (Inline.bind (validateResolvedSpend_inline hfit.1 hcov.1) fun vault =>
      Inline.bind (Inline.lift _) fun acc₁ => validateSpends_inline hfit.2 hcov.2).iff
        fun acc' => ?_
    simp only [SpendSteps, ← exists_and_left]

theorem SpendSteps.authorised : ∀ {rs : List ResolvedInput} {i k : Nat}
    {acc acc' : SpendAccum} {r : ResolvedInput}, SpendSteps tx ctx i rs acc acc' →
    rs[k]? = some r → r.entry.covenantType ≠ covTypeVault →
    SpendAuthorised tx ctx (i + k) r.entry (r.assigned tx)
  | [], _, _, _, _, _, _, hk, _ => by cases hk
  | q :: rs, i, 0, acc, acc', r, h, hk, hty => by
    obtain ⟨vault, acc₁, hstep, -, -⟩ := h
    cases hk
    rw [SpendStep, if_neg hty] at hstep
    exact hstep.1
  | q :: rs, i, k + 1, acc, acc', r, h, hk, hty => by
    obtain ⟨vault, acc₁, -, -, hrest⟩ := h
    have ih := SpendSteps.authorised hrest (k := k) hk hty
    rwa [Nat.add_right_comm] at ih

theorem SpendSteps.no_vault : ∀ {rs : List ResolvedInput} {i : Nat}
    {acc acc' : SpendAccum}, SpendSteps tx ctx i rs acc acc' →
    rs.countP ResolvedInput.isVault = 0 → acc'.vaultSpend = acc.vaultSpend
  | [], _, _, _, h, _ => by rw [h]
  | r :: rs, i, acc, acc', h, hcount => by
    obtain ⟨vault, acc₁, hstep, hrec, hrest⟩ := h
    rw [List.countP_cons] at hcount
    have hr : r.entry.covenantType ≠ covTypeVault := by
      intro hty
      simp [ResolvedInput.isVault, hty] at hcount
    rw [SpendStep, if_neg hr] at hstep
    obtain ⟨-, -, -, -, -, -, hvault⟩ := SpendAccum.record_ok hrec
    rw [hrest.no_vault (by omega), hvault, hstep.2]

theorem SpendSteps.captured : ∀ {rs : List ResolvedInput} {i k : Nat}
    {acc acc' : SpendAccum} {r : ResolvedInput}, SpendSteps tx ctx i rs acc acc' →
    rs[k]? = some r → r.entry.covenantType = covTypeVault →
    rs.countP ResolvedInput.isVault ≤ 1 →
    ∃ captured, VaultSpendState.capture r (UInt32.ofNat (i + k)) = .ok captured ∧
      acc'.vaultSpend = some captured
  | [], _, _, _, _, _, _, hk, _, _ => by cases hk
  | q :: rs, i, 0, acc, acc', r, h, hk, hty, hcount => by
    obtain ⟨vault, acc₁, hstep, hrec, hrest⟩ := h
    cases hk
    rw [SpendStep, if_pos hty] at hstep
    obtain ⟨captured, hcap, rfl⟩ := hstep
    obtain ⟨-, -, -, -, -, -, hvault⟩ := SpendAccum.record_ok hrec
    rw [List.countP_cons] at hcount
    have hq : q.isVault = true := by simp [ResolvedInput.isVault, hty]
    rw [if_pos hq] at hcount
    exact ⟨captured, hcap, by rw [hrest.no_vault (by omega), hvault]⟩
  | q :: rs, i, k + 1, acc, acc', r, h, hk, hty, hcount => by
    obtain ⟨vault, acc₁, -, -, hrest⟩ := h
    rw [List.countP_cons] at hcount
    have ih := SpendSteps.captured hrest (k := k) hk hty (by omega)
    rwa [Nat.add_right_comm] at ih

theorem validateVaultSpend_authorised {acc : SpendAccum} {r : ResolvedInput} {i : Nat}
    {vault : VaultSpendState} {s s' : SpendState tx} (hq : s.queue = none)
    (hvault : acc.vaultSpend = some vault)
    (hcap : VaultSpendState.capture r (UInt32.ofNat i) = .ok vault)
    (h : validateVaultSpend ctx 1 acc s = .ok ((), s')) :
    VaultAuthorised tx (ctx.auth i r.entry) r.entry (r.assigned tx) := by
  simp only [validateVaultSpend, if_true, stateT_bind_eq_ok, stateT_lift_eq_ok, okOr_eq_ok,
    hvault, Option.some.injEq] at h
  obtain ⟨_, _, ⟨rfl, rfl⟩, ⟨⟩, _, ⟨-, rfl⟩, ⟨⟩, _, ⟨-, rfl⟩, ⟨⟩, s₁, hsig, -⟩ := h
  rw [VaultSpendState.validateSignature, stateT_bind_eq_ok] at hsig
  obtain ⟨ws, _, hws, hsig⟩ := hsig
  obtain ⟨hrange, rfl⟩ := stateT_lift_eq_ok.mp hws
  simp only [witnessRange, bind_eq_ok, exists_unit, Except.ok.injEq] at hrange
  obtain ⟨-, rfl⟩ := hrange
  obtain ⟨v, hv, hkeys, hthreshold, hstart, hslots, hindex, hvalue⟩ :=
    VaultSpendState.capture_ok hcap
  rw [hkeys, hthreshold, hstart, hslots, hindex, hvalue] at hsig
  obtain ⟨hth, -⟩ := (validateThresholdSigSpendQ_inline _ _ _ _ _ _ _ _ _ _).run hq hsig
  exact ⟨v, hv, hth⟩

/-- Every input of an accepted transaction is authorised by the slots assigned to it; for a vault
input that comes from the check after the outputs. -/
theorem resolved_authorised {res : UtxoSet × UtxoApplySummary}
    (h : applyNonCoinbaseTx tx ctx = .ok res) :
    ∃ st, resolveInputs tx ctx = .ok st ∧ ∀ (i : Nat) (r : ResolvedInput),
      st.resolved[i]? = some r → SpendAuthorised tx ctx i r.entry (r.assigned tx) := by
  simp only [applyNonCoinbaseTx, bind_eq_ok, Except.ok.injEq] at h
  obtain ⟨⟨r, s'⟩, h, rfl⟩ := h
  obtain ⟨st, acc, out, s₁, s₂, -, h2, h3, -, -, h6, -⟩ := applyNonCoinbaseTxImpl_stages h
  obtain ⟨hres, hend⟩ := resolveInputs_ok h2
  have hspans := hres.spans
  rw [hend] at hspans
  obtain ⟨hsteps, hq⟩ :=
    (validateSpends_inline hspans.fits (resolved_covenants hres.each)).run rfl h3
  refine ⟨st, h2, fun i r hr => ?_⟩
  by_cases hty : r.entry.covenantType = covTypeVault
  · have hcount : st.vaultInputCount = 1 := by
      have hpos : 0 < st.resolved.countP ResolvedInput.isVault :=
        List.countP_pos_iff.mpr ⟨r, List.mem_of_getElem? hr, by simp [ResolvedInput.isVault, hty]⟩
      have hle := hres.vaults_le
      have hv := hres.vaults
      omega
    obtain ⟨captured, hcap, hvault⟩ := hsteps.captured hr hty (hres.vaults ▸ hres.vaults_le)
    rw [Nat.zero_add] at hcap
    rw [hcount] at h6
    have hauth := validateVaultSpend_authorised hq hvault hcap h6
    rw [SpendAuthorised, if_neg (by rw [hty]; decide), if_neg (by rw [hty]; decide), if_pos hty]
    exact hauth
  · have hauth := hsteps.authorised hr hty
    rwa [Nat.zero_add] at hauth

/-- **Exact spend authorisation.**  An accepted transaction's witness list is cut, in input order
and with nothing left over, into one block for each input, and each block alone authorises its
input under the covenant of the entry it spends. -/
theorem accepted_spends_authorised {ctx : UtxoApplyContext} {res : UtxoSet × UtxoApplySummary}
    (h : applyNonCoinbaseTx tx ctx = .ok res) :
    ∃ blocks : List (List WitnessItem), blocks.flatten = tx.witness ∧
      blocks.length = tx.inputs.length ∧
      ∀ (i : Nat) (input : TxInput) (block : List WitnessItem), tx.inputs[i]? = some input →
        blocks[i]? = some block → ∃ entry, ctx.utxoSet.lookup input.outpoint = some entry ∧
          witnessSlots entry.covenantType entry.covenantData = .ok block.length ∧
          SpendAuthorised tx ctx i entry block := by
  obtain ⟨st, hst, hauth⟩ := resolved_authorised h
  obtain ⟨hres, hend⟩ := resolveInputs_ok hst
  have hspans := hres.spans
  rw [hend] at hspans
  refine ⟨st.resolved.map (ResolvedInput.assigned tx), ?_, ?_, ?_⟩
  · rw [hspans.flatten, List.drop_zero, Nat.sub_zero, List.take_length]
  · rw [List.length_map]
    exact hres.each.length_eq.symm
  · intro i input block hinput hblock
    obtain ⟨r, hr, hresolved⟩ := resolved_getElem hres.each hinput
    rw [List.getElem?_map, hr, Option.map_some, Option.some.injEq] at hblock
    subst hblock
    have hlen : (r.assigned tx).length = r.slotCount := by
      have hfit := hspans.fits r (List.mem_of_getElem? hr)
      rw [ResolvedInput.assigned, List.length_take, List.length_drop]
      omega
    exact ⟨r.entry, hresolved.lookup, by rw [hlen]; exact hresolved.slots, hauth i r hr⟩

/-- A transaction that spends one P2PK entry to another, on the real hash. -/
def samplePayTx : Tx where
  version := 1
  txKind := 0x00
  txNonce := 1
  inputs := [⟨zero32, 0, [], 0⟩]
  outputs := [⟨90, covTypeP2pk, 1 :: zero32.toList⟩]
  locktime := 0
  daCommitCore := none
  daChunkCore := none
  witness := [⟨suiteIdMlDsa87, List.replicate 2592 0, List.replicate 4627 0 ++ [sighashAll]⟩]
  daPayload := []

/-- The entry's key id is the hash of the 2592 zero bytes of the sample key. -/
def samplePayContext : UtxoApplyContext where
  txid := zero32
  utxoSet := Finmap.singleton ⟨zero32, 0⟩
    { value := 100, covenantType := covTypeP2pk
      covenantData := 1 :: [2, 48, 93, 209, 69, 146, 25, 100, 55, 215, 209, 9, 154, 160, 67, 90,
        197, 215, 49, 106, 153, 206, 122, 26, 8, 183, 151, 164, 249, 23, 11, 101]
      creationHeight := 0, createdByCoinbase := false }
  height := 1
  blockMtp := 0
  chainId := zero32
  rotation := none
  registry := none

omit [Crypto] in
theorem accepted_spends_authorised_samplePayTx :
    letI : Crypto := Crypto.sha3With fun _ _ _ => .ok true
    (∃ res, applyNonCoinbaseTx samplePayTx samplePayContext = .ok res) ∧
      ∃ blocks : List (List WitnessItem), blocks.flatten = samplePayTx.witness ∧
        blocks.length = samplePayTx.inputs.length ∧
        ∀ (i : Nat) (input : TxInput) (block : List WitnessItem),
          samplePayTx.inputs[i]? = some input → blocks[i]? = some block →
          ∃ entry, samplePayContext.utxoSet.lookup input.outpoint = some entry ∧
            witnessSlots entry.covenantType entry.covenantData = .ok block.length ∧
            SpendAuthorised samplePayTx samplePayContext i entry block := by
  let _ : Crypto := Crypto.sha3With fun _ _ _ => .ok true
  have hok : (applyNonCoinbaseTx samplePayTx samplePayContext).isOk = true := by decide +kernel
  obtain ⟨res, hres⟩ := exists_ok_of_isOk hok
  exact ⟨⟨res, hres⟩, accepted_spends_authorised hres⟩

end Rubin.Consensus
