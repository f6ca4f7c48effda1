/-
# The owner of pending outpoints

`pending_outpoint_owner.rs`.  The owner hands out exclusive claims on outpoints: a claim is stored
under its token, and every outpoint of it has a row that names the token and the transaction.  It
is also a fence: while the chain tip moves (`transition`), or after a failure that left the tip
uncertain (`unavailable`), nothing new is admitted.

A token is its sequence number, since there is one owner; a foreign token cannot be built.  The
mutex and the `try_reserve` calls of the source (both can only fail with an error, before anything
is written) are left out.
-/
import Rubin.Lib.ClaimIndex
import Rubin.Node.ChainState

namespace Rubin.Node

open Rubin.Lib Rubin.Consensus

/-! ## 1. Types -/

structure PendingOutpointTip where
  hasTip : Bool
  height : Nat
  hash : Bytes32
deriving DecidableEq

def PendingOutpointTip.fromChainState (state : ChainState) : PendingOutpointTip :=
  ⟨state.hasTip, state.height, state.tipHash⟩

structure PendingOutpointAdmissionContext where
  tip : PendingOutpointTip
  generation : Nat
deriving DecidableEq

inductive PendingOutpointErrorKind where
  | conflict
  | unavailable
  | internal
deriving DecidableEq, Repr

structure PendingOutpointError where
  kind : PendingOutpointErrorKind
  message : String
  existingTxid : Option Bytes32
deriving DecidableEq

def PendingOutpointError.conflict (txid : Bytes32) : PendingOutpointError :=
  ⟨.conflict, "mempool double-spend conflict with " ++ hexEncode txid.toList, some txid⟩

def PendingOutpointError.unavailable (message : String) : PendingOutpointError :=
  ⟨.unavailable, message, none⟩

def PendingOutpointError.internal (message : String) : PendingOutpointError :=
  ⟨.internal, message, none⟩

structure PendingOutpointRow where
  sequence : Nat
  txid : Bytes32
deriving DecidableEq

structure PendingOutpointClaim where
  txid : Bytes32
  inputs : List Outpoint
  generation : Nat
  finalized : Bool
deriving DecidableEq

structure PendingOutpointOwner where
  byOutpoint : Finmap fun _ : Outpoint => PendingOutpointRow
  byToken : Finmap fun _ : Nat => PendingOutpointClaim
  tokenHighWater : Nat
  generation : Nat
  transition : Bool
  unavailable : Bool
  stableTip : PendingOutpointTip

/-! ## 2. Methods -/

namespace PendingOutpointOwner

def newWithContext (context : PendingOutpointAdmissionContext) : PendingOutpointOwner :=
  { byOutpoint := ∅, byToken := ∅, tokenHighWater := 0, generation := context.generation,
    transition := false, unavailable := false, stableTip := context.tip }

def new (tip : PendingOutpointTip) : PendingOutpointOwner := newWithContext ⟨tip, 0⟩

variable (owner : PendingOutpointOwner)

def admissionContext : Except PendingOutpointError PendingOutpointAdmissionContext := do
  rejectIf (owner.transition ∨ owner.unavailable ∨ owner.generation = u64Max)
    (.unavailable "pending-outpoint owner admission context unavailable")
  .ok ⟨owner.stableTip, owner.generation⟩

def txidForOutpoint (outpoint : Outpoint) : Option Bytes32 :=
  (owner.byOutpoint.lookup outpoint).map PendingOutpointRow.txid

def checkAvailable (context : PendingOutpointAdmissionContext) :
    Except PendingOutpointError Unit := do
  rejectIf (owner.transition ∨ owner.unavailable)
    (.unavailable "pending-outpoint owner transition in progress")
  rejectIf (context.tip ≠ owner.stableTip)
    (.unavailable "pending-outpoint expected tip mismatch")
  rejectIf (context.generation ≠ owner.generation)
    (.unavailable "pending-outpoint expected generation mismatch")

def firstConflict (inputs : List Outpoint) : Except PendingOutpointError Unit :=
  forEach (fun outpoint =>
    match owner.byOutpoint.lookup outpoint with
    | some row => .error (.conflict row.txid)
    | none => .ok ()) inputs

end PendingOutpointOwner

def validateRequest (txid : Bytes32) (inputs : List Outpoint) :
    Except PendingOutpointError Unit := do
  rejectIf (txid = zero32) (.internal "zero pending-outpoint txid")
  rejectIf (inputs = [] ∨ inputs.length > maxTxInputs)
    (.internal "invalid pending-outpoint input count")
  rejectIf (¬ inputs.Nodup) (.internal "duplicate pending-outpoint input")

namespace PendingOutpointOwner

variable (owner : PendingOutpointOwner)

/-- `PendingOutpointOwnerHandle::reserve` with the owner's own `reserve`. -/
def reserve (context : PendingOutpointAdmissionContext) (txid : Bytes32) (inputs : List Outpoint) :
    Except PendingOutpointError (Nat × PendingOutpointOwner) := do
  validateRequest txid inputs
  owner.checkAvailable context
  rejectIf (owner.tokenHighWater = u64Max)
    (.unavailable "pending-outpoint token sequence exhausted")
  owner.firstConflict inputs
  let sequence := owner.tokenHighWater + 1
  .ok (sequence, { owner with
    tokenHighWater := sequence
    byToken := owner.byToken.insert sequence ⟨txid, inputs, owner.generation, false⟩
    byOutpoint := insertAll (inputs.map fun outpoint => (outpoint, ⟨sequence, txid⟩))
      owner.byOutpoint })

/-- The lookup behind a token; `none` is a claim that is no longer there. -/
def claim (token : Nat) : Except PendingOutpointError (Option PendingOutpointClaim) := do
  rejectIf (token = 0) (.internal "zero or foreign pending-outpoint token")
  rejectIf (token > owner.tokenHighWater)
    (.internal "pending-outpoint token sequence above high-water")
  .ok (owner.byToken.lookup token)

def dropRow (sequence : Nat) (rows : Finmap fun _ : Outpoint => PendingOutpointRow)
    (outpoint : Outpoint) : Finmap fun _ : Outpoint => PendingOutpointRow :=
  match rows.lookup outpoint with
  | some row => if row.sequence = sequence then rows.erase outpoint else rows
  | none => rows

def dropClaim (sequence : Nat) : PendingOutpointOwner :=
  match owner.byToken.lookup sequence with
  | none => owner
  | some claim =>
    { owner with
      byToken := owner.byToken.erase sequence
      byOutpoint := claim.inputs.foldl (dropRow sequence) owner.byOutpoint }

/-- The loop over a claim's inputs in `release` and in `validate_standard_entry`. -/
def checkRows (sequence : Nat) (txid : Bytes32) (inputs : List Outpoint) :
    Except PendingOutpointError Unit :=
  forEach (fun outpoint => do
    let row ← okOr (owner.byOutpoint.lookup outpoint) (.internal "pending-outpoint row is missing")
    rejectIf (row.sequence ≠ sequence ∨ row.txid ≠ txid)
      (.internal "pending-outpoint row mismatch")) inputs

def release (token : Nat) : Except PendingOutpointError PendingOutpointOwner := do
  let claim ← owner.claim token
  match claim with
  | none =>
    if ∃ outpoint ∈ owner.byOutpoint.keys,
        (owner.byOutpoint.lookup outpoint).map PendingOutpointRow.sequence = some token then
      .error (.internal "pending-outpoint claim is missing with live row")
    else .ok owner
  | some claim => do
    owner.checkRows token claim.txid claim.inputs
    .ok (owner.dropClaim token)

def validateStandardEntry (txid : Bytes32) (inputs : List Outpoint) (token : Option Nat)
    (finalized : Bool) : Except PendingOutpointError Unit :=
  if inputs = [] then
    rejectIf (token ≠ none) (.internal "pending-outpoint token on inputless entry")
  else do
    let token ← okOr token (.internal "missing pending-outpoint token")
    let found ← owner.claim token
    let claim ← okOr found (.internal "pending-outpoint claim is not live")
    rejectIf (claim.txid ≠ txid ∨ claim.finalized ≠ finalized ∨ claim.inputs ≠ inputs)
      (.internal "pending-outpoint claim mismatch")
    owner.checkRows token txid inputs

def checkCandidate (token : Nat) : Except PendingOutpointError Unit := do
  rejectIf (owner.transition ∨ owner.unavailable)
    (.unavailable "pending-outpoint owner transition in progress")
  let found ← owner.claim token
  let claim ← okOr found (.unavailable "pending-outpoint token is no longer live")
  rejectIf (claim.generation ≠ owner.generation)
    (.unavailable "pending-outpoint token belongs to an older generation")

def beginTransition : Except PendingOutpointError PendingOutpointOwner := do
  rejectIf (owner.transition ∨ owner.unavailable)
    (.unavailable "pending-outpoint owner transition already active")
  rejectIf (owner.generation = u64Max) (.unavailable "pending-outpoint generation exhausted")
  .ok { owner with generation := owner.generation + 1, transition := true }

def commitStableTip (tip : PendingOutpointTip) :
    Except PendingOutpointError PendingOutpointOwner := do
  rejectIf (¬ owner.transition ∨ owner.unavailable)
    (.internal "pending-outpoint stable tip commit without active transition")
  .ok { owner with stableTip := tip, transition := false }

def reopenOldTip : Except PendingOutpointError PendingOutpointOwner := do
  rejectIf (¬ owner.transition ∨ owner.unavailable)
    (.internal "pending-outpoint transition abort without active transition")
  .ok { owner with transition := false }

def latchUnavailable : PendingOutpointOwner :=
  { owner with unavailable := true, transition := false }

def finalizeAfterValidation (token : Nat) : PendingOutpointOwner :=
  match owner.byToken.lookup token with
  | none => owner
  | some claim =>
    { owner with byToken := owner.byToken.insert token { claim with finalized := true } }

def finalize (token : Nat) : Except PendingOutpointError PendingOutpointOwner := do
  owner.checkCandidate token
  rejectIf (owner.byToken.lookup token = none) (.internal "pending-outpoint claim is not live")
  .ok (owner.finalizeAfterValidation token)

def dropAfterValidation (token : Nat) : PendingOutpointOwner := owner.dropClaim token

end PendingOutpointOwner

/-! ## 3. The owner keeps its index -/

def claimRow (sequence : Nat) (claim : PendingOutpointClaim) : PendingOutpointRow :=
  ⟨sequence, claim.txid⟩

theorem claimRow_token {t t' : Nat} {c c' : PendingOutpointClaim}
    (h : claimRow t c = claimRow t' c') : t = t' := (PendingOutpointRow.mk.inj h).1

namespace PendingOutpointOwner

/-- The rows are the reverse of the claims, and every token has been handed out. -/
structure Wf (owner : PendingOutpointOwner) : Prop where
  indexed : Indexed PendingOutpointClaim.inputs claimRow owner.byToken owner.byOutpoint
  issued : ∀ token claim, owner.byToken.lookup token = some claim →
    0 < token ∧ token ≤ owner.tokenHighWater

variable {owner owner' : PendingOutpointOwner}

theorem wf_new (context : PendingOutpointAdmissionContext) : (newWithContext context).Wf :=
  ⟨Indexed.empty, fun _ _ h => by simp [newWithContext] at h⟩

variable {inputs : List Outpoint} {txid : Bytes32} {context : PendingOutpointAdmissionContext}
  {token : Nat} {claim : PendingOutpointClaim}

theorem firstConflict_eq_ok :
    owner.firstConflict inputs = .ok () ↔ ∀ op ∈ inputs, owner.byOutpoint.lookup op = none := by
  rw [firstConflict, forEach_eq_ok]
  refine forall₂_congr fun op _ => ?_
  cases owner.byOutpoint.lookup op <;> simp

/-- What a reservation asks for, and what it does. -/
structure Reserved (owner : PendingOutpointOwner) (context : PendingOutpointAdmissionContext)
    (txid : Bytes32) (inputs : List Outpoint) (token : Nat) (owner' : PendingOutpointOwner) :
    Prop where
  request : validateRequest txid inputs = .ok ()
  available : owner.checkAvailable context = .ok ()
  room : owner.tokenHighWater ≠ u64Max
  free : ∀ op ∈ inputs, owner.byOutpoint.lookup op = none
  token_eq : token = owner.tokenHighWater + 1
  owner_eq : owner' = { owner with
    tokenHighWater := token
    byToken := owner.byToken.insert token ⟨txid, inputs, owner.generation, false⟩
    byOutpoint := insertAll (inputs.map fun op => (op, ⟨token, txid⟩)) owner.byOutpoint }

theorem reserve_ok (h : owner.reserve context txid inputs = .ok (token, owner')) :
    Reserved owner context txid inputs token owner' := by
  simp only [reserve, check_bind_eq_ok, rejectIf_eq_ok, firstConflict_eq_ok, Except.ok.injEq,
    Prod.mk.injEq] at h
  obtain ⟨hreq, havail, hroom, hfree, rfl, rfl⟩ := h
  exact ⟨hreq, havail, hroom, hfree, rfl, rfl⟩

theorem Wf.fresh (h : owner.Wf) : owner.byToken.lookup (owner.tokenHighWater + 1) = none := by
  cases hc : owner.byToken.lookup (owner.tokenHighWater + 1) with
  | none => rfl
  | some claim =>
    have := (h.issued _ _ hc).2
    omega

theorem Wf.reserve (h : owner.Wf) (hres : Reserved owner context txid inputs token owner') :
    owner'.Wf := by
  obtain ⟨-, -, -, hfree, rfl, rfl⟩ := hres
  constructor
  · exact h.indexed.claim h.fresh hfree
  · intro token claim hc
    simp only [lookup_insert_eq] at hc
    split at hc
    · rename_i heq
      dsimp only
      omega
    · have := h.issued _ _ hc
      dsimp only
      omega

/-- On a row that is the claim's own, the guard of the loop is true. -/
theorem foldl_dropRow {sequence : Nat} (inputs : List Outpoint) :
    ∀ rows : Finmap fun _ : Outpoint => PendingOutpointRow,
      (∀ op ∈ inputs, ∀ row, rows.lookup op = some row → row.sequence = sequence) →
      inputs.foldl (dropRow sequence) rows = eraseAll inputs rows := by
  induction inputs with
  | nil => exact fun _ _ => rfl
  | cons op inputs ih =>
    intro rows hown
    have hstep : dropRow sequence rows op = rows.erase op := by
      unfold dropRow
      cases hrow : rows.lookup op with
      | some row => simp [hown op List.mem_cons_self row hrow]
      | none =>
        refine Finmap.ext_lookup fun op' => ?_
        rw [lookup_erase_eq]
        by_cases heq : op' = op
        · rw [if_pos heq, heq]
          exact hrow
        · rw [if_neg heq]
    rw [List.foldl_cons, hstep, eraseAll_cons]
    refine ih _ fun op' hop' row hrow => ?_
    rw [lookup_erase_eq] at hrow
    split at hrow
    · cases hrow
    · exact hown op' (List.mem_cons_of_mem _ hop') row hrow

theorem dropClaim_eq (h : owner.Wf) (hc : owner.byToken.lookup token = some claim) :
    owner.dropClaim token = { owner with
      byToken := owner.byToken.erase token
      byOutpoint := eraseAll claim.inputs owner.byOutpoint } := by
  unfold dropClaim
  rw [hc]
  dsimp only
  rw [foldl_dropRow]
  intro op hop row hrow
  rw [h.indexed.lookup hc hop] at hrow
  exact (Option.some.inj hrow ▸ rfl : row.sequence = token)

theorem Wf.dropClaim (h : owner.Wf) (token : Nat) : (owner.dropClaim token).Wf := by
  cases hc : owner.byToken.lookup token with
  | none =>
    simp only [PendingOutpointOwner.dropClaim, hc]
    exact h
  | some claim =>
    rw [dropClaim_eq h hc]
    refine ⟨h.indexed.drop claimRow_token hc, fun t c ht => ?_⟩
    simp only [lookup_erase_eq] at ht
    split at ht
    · cases ht
    · exact h.issued _ _ ht

theorem Wf.finalizeAfterValidation (h : owner.Wf) (token : Nat) :
    (owner.finalizeAfterValidation token).Wf := by
  unfold PendingOutpointOwner.finalizeAfterValidation
  cases hc : owner.byToken.lookup token with
  | none => exact h
  | some claim =>
    refine ⟨h.indexed.rewrite hc rfl rfl, fun t c ht => ?_⟩
    simp only [lookup_insert_eq] at ht
    split at ht
    · rename_i heq
      rw [heq]
      exact h.issued _ _ hc
    · exact h.issued _ _ ht

theorem claim_of_live (h : owner.Wf) (hc : owner.byToken.lookup token = some claim) :
    owner.claim token = .ok (some claim) := by
  obtain ⟨hpos, hle⟩ := h.issued _ _ hc
  rw [PendingOutpointOwner.claim, rejectIf_neg (by omega), ok_bind, rejectIf_neg (by omega),
    ok_bind, hc]

theorem checkRows_of_live (h : owner.Wf) (hc : owner.byToken.lookup token = some claim) :
    owner.checkRows token claim.txid claim.inputs = .ok () := by
  rw [checkRows, forEach_eq_ok]
  intro op hop
  rw [h.indexed.lookup hc hop]
  simp [okOr, claimRow]

/-- **A live claim passes.**  The defensive checks of `validate_standard_entry` cannot fail on an
entry whose claim is live. -/
theorem validateStandardEntry_of_live (h : owner.Wf) (hc : owner.byToken.lookup token = some claim)
    (hne : claim.inputs ≠ []) :
    owner.validateStandardEntry claim.txid claim.inputs (some token) claim.finalized = .ok () := by
  rw [validateStandardEntry, if_neg hne]
  simp [okOr, claim_of_live h hc, checkRows_of_live h hc]

/-- **A released reservation leaves only the high-water mark behind.** -/
theorem release_reserved (h : owner.Wf) (hres : Reserved owner context txid inputs token owner') :
    owner'.release token = .ok { owner with tokenHighWater := token } := by
  have h' := h.reserve hres
  have hlive : owner'.byToken.lookup token = some ⟨txid, inputs, owner.generation, false⟩ := by
    rw [hres.owner_eq]
    exact Finmap.lookup_insert _
  rw [PendingOutpointOwner.release, claim_of_live h' hlive, ok_bind]
  dsimp only
  rw [checkRows_of_live h' hlive, ok_bind, dropClaim_eq h' hlive]
  -- the claims are those from before, and the index follows from the claims
  have hclaims : owner'.byToken.erase token = owner.byToken := by
    refine Finmap.ext_lookup fun t => ?_
    rw [hres.owner_eq, lookup_erase_eq]
    dsimp only
    split
    · rename_i heq
      rw [heq, hres.token_eq, h.fresh]
    · rename_i hne
      rw [lookup_insert_eq, if_neg hne]
  have hindex := h'.indexed.drop claimRow_token hlive
  rw [hclaims] at hindex
  rw [hclaims, hindex.unique h.indexed, hres.owner_eq]

theorem transition_keeps (h : owner.beginTransition = .ok owner' ∨
    (∃ tip, owner.commitStableTip tip = .ok owner') ∨ owner.reopenOldTip = .ok owner') :
    owner'.byToken = owner.byToken ∧ owner'.byOutpoint = owner.byOutpoint ∧
      owner'.tokenHighWater = owner.tokenHighWater := by
  rcases h with h | ⟨tip, h⟩ | h
  · simp only [beginTransition, check_bind_eq_ok, Except.ok.injEq] at h
    obtain ⟨-, -, rfl⟩ := h
    exact ⟨rfl, rfl, rfl⟩
  · simp only [commitStableTip, check_bind_eq_ok, Except.ok.injEq] at h
    obtain ⟨-, rfl⟩ := h
    exact ⟨rfl, rfl, rfl⟩
  · simp only [reopenOldTip, check_bind_eq_ok, Except.ok.injEq] at h
    obtain ⟨-, rfl⟩ := h
    exact ⟨rfl, rfl, rfl⟩

end PendingOutpointOwner

end Rubin.Node
