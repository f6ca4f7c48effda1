/-
# Signature suites: registry, rotation and the live verifier

`suite_registry.rs` and the dispatch part of `verify_sig_openssl.rs`.  The registry says which
lengths a suite has, the rotation provider says which suites are in force at a height, and the
verifier runs OpenSSL only for a suite whose parameters are exactly those of the one live binding,
ML-DSA-87.  Everything below the dispatch is `Crypto`.
-/
import Rubin.Consensus.Tx

namespace Rubin.Consensus

open Rubin.Lib

/-! ## 1. Registry -/

structure SuiteParams where
  suiteId : UInt8
  pubkeyLen : UInt64
  sigLen : UInt64
  verifyCost : UInt64
  algName : String
deriving DecidableEq, Repr

def isStructuralWitnessCarrierSuiteId (suiteId : UInt8) : Bool :=
  decide (suiteIdSimplicityEnvelope ≤ suiteId) && decide (suiteId ≤ 0xfe)

/-- A `BTreeMap<u8, SuiteParams>` is its entries in key order.  `with_suites` refuses the ids of
structural witness carriers. -/
structure SuiteRegistry where
  suites : List (UInt8 × SuiteParams)
  sorted : (suites.map Prod.fst).Pairwise (· < ·)
  native : ∀ p ∈ suites, isStructuralWitnessCarrierSuiteId p.1 = false
deriving DecidableEq

def SuiteRegistry.defaultRegistry : SuiteRegistry where
  suites := [(suiteIdMlDsa87,
    { suiteId := suiteIdMlDsa87, pubkeyLen := 2592, sigLen := 4627, verifyCost := 8,
      algName := "ML-DSA-87" })]
  sorted := by simp
  native := by decide

def SuiteRegistry.lookup (reg : SuiteRegistry) (suiteId : UInt8) : Option SuiteParams :=
  reg.suites.lookup suiteId

def SuiteRegistry.isCanonicalDefaultLiveManifest (reg : SuiteRegistry) : Bool :=
  decide (reg.suites.length = 1) &&
    match reg.lookup suiteIdMlDsa87 with
    | some params =>
      params.suiteId == suiteIdMlDsa87 && params.pubkeyLen.toNat == mlDsa87PubkeyBytes &&
        params.sigLen.toNat == mlDsa87SigBytes && params.verifyCost.toNat == verifyCostMlDsa87 &&
        params.algName == "ML-DSA-87"
    | none => false

/-- The smallest key-plus-signature size of any registered suite; a suite whose size does not fit
in 64 bits is an error. -/
def SuiteRegistry.minSigcheckPayloadBytes (reg : SuiteRegistry) : Except String (Option Nat) :=
  reg.suites.foldlM (fun minPayload p => do
    let payloadBytes := p.2.pubkeyLen.toNat + p.2.sigLen.toNat
    rejectIf (2 ^ 64 ≤ payloadBytes) "SuiteRegistry payload footprint overflow"
    .ok (some (match minPayload with
      | some current => min current payloadBytes
      | none => payloadBytes))) none

/-! ## 2. Rotation -/

/-- At most two suites are live at once. -/
structure NativeSuiteSet where
  suites : Finset UInt8
  card_le : suites.card ≤ 2

def NativeSuiteSet.contains (s : NativeSuiteSet) (suiteId : UInt8) : Bool :=
  decide (suiteId ∈ s.suites)

/-- The `RotationProvider` trait: its three methods. -/
structure RotationProvider where
  nativeCreateSuites : Nat → NativeSuiteSet
  nativeSpendSuites : Nat → NativeSuiteSet
  simplicityActiveAtHeight : Nat → Bool

def mlDsa87Only : NativeSuiteSet := ⟨{suiteIdMlDsa87}, by simp⟩

def DefaultRotationProvider : RotationProvider where
  nativeCreateSuites := fun _ => mlDsa87Only
  nativeSpendSuites := fun _ => mlDsa87Only
  simplicityActiveAtHeight := fun _ => false

/-! ## 3. The verifier dispatch -/

variable [Crypto]

/-- `resolve_suite_verifier_binding`: the embedded live binding policy has one entry. -/
def resolveSuiteVerifierBinding (algName : String) (pubkeyLen sigLen : UInt64) :
    Except TxError Unit :=
  rejectIf
    (¬ (algName = "ML-DSA-87" ∧ pubkeyLen.toNat = mlDsa87PubkeyBytes ∧
      sigLen.toNat = mlDsa87SigBytes))
    ⟨.txErrSigAlgInvalid, "resolve_suite_verifier_binding: unsupported suite verifier binding"⟩

/-- `verify_sig_with_binding` for the one live binding. -/
def verifySigWithBinding (pubkey signature : Bytes) (digest32 : Bytes32) : Except TxError Bool :=
  if pubkey.length ≠ mlDsa87PubkeyBytes ∨ signature.length ≠ mlDsa87SigBytes then .ok false
  else Crypto.mlDsa87Verify pubkey signature digest32

def runtimeVerificationRegistry (registry : Option SuiteRegistry) :
    Except TxError SuiteRegistry :=
  match registry with
  | some registry => .ok registry
  | none => do
    rejectIf (SuiteRegistry.defaultRegistry.isCanonicalDefaultLiveManifest = false)
      ⟨.txErrSigAlgInvalid, "verify_sig: default runtime registry drift"⟩
    .ok SuiteRegistry.defaultRegistry

def runtimeSuiteParamsForVerification (suiteId : UInt8) (registry : Option SuiteRegistry) :
    Except TxError SuiteParams := do
  let registry ← runtimeVerificationRegistry registry
  okOr (registry.lookup suiteId) ⟨.txErrSigAlgInvalid, "verify_sig: unsupported suite_id"⟩

def verifySigWithRegistry (suiteId : UInt8) (pubkey signature : Bytes) (digest32 : Bytes32)
    (registry : Option SuiteRegistry) : Except TxError Bool := do
  let params ← runtimeSuiteParamsForVerification suiteId registry
  Crypto.opensslConsensusInit
  resolveSuiteVerifierBinding params.algName params.pubkeyLen params.sigLen
  verifySigWithBinding pubkey signature digest32

/-- An accepted signature has the ML-DSA-87 sizes, whatever the registry says. -/
theorem verifySigWithRegistry_true {suiteId : UInt8} {pubkey signature : Bytes}
    {digest32 : Bytes32} {registry : Option SuiteRegistry}
    (h : verifySigWithRegistry suiteId pubkey signature digest32 registry = .ok true) :
    pubkey.length = mlDsa87PubkeyBytes ∧ signature.length = mlDsa87SigBytes := by
  simp only [verifySigWithRegistry, bind_eq_ok, verifySigWithBinding] at h
  obtain ⟨-, -, -, -, -, -, h⟩ := h
  split at h
  · simp at h
  · rename_i hlen
    push Not at hlen
    exact hlen

end Rubin.Consensus
