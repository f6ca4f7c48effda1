/-
# Histories of the pending-outpoint owner

The owner of `PendingOwner.lean` under any sequence of its calls.  Here a call works on the owner in
place and leaves it as it is when it fails: `reserve` writes the high-water mark and the claim, reads
the claim back and then writes the rows, and the error of the read in the middle is shown never to
occur.
-/
import Rubin.Lib.Rollback
import Rubin.Node.PendingOwner

namespace Rubin.Node

open Rubin.Lib Rubin.Consensus

/-! ## 1. The calls -/

abbrev OwnerM : Type → Type := EStateM PendingOutpointError PendingOutpointOwner

namespace PendingOutpointOwner

/-- `reserve`, with the writes in the order of the source. -/
def reserveInPlace (context : PendingOutpointAdmissionContext) (txid : Bytes32)
    (inputs : List Outpoint) : OwnerM Nat := do
  liftE (validateRequest txid inputs)
  let owner ← get
  liftE (owner.checkAvailable context)
  liftE (rejectIf (owner.tokenHighWater = u64Max)
    (.unavailable "pending-outpoint token sequence exhausted"))
  liftE (owner.firstConflict inputs)
  let sequence := owner.tokenHighWater + 1
  set { owner with tokenHighWater := sequence }
  modify fun owner => { owner with
    byToken := owner.byToken.insert sequence ⟨txid, inputs, owner.generation, false⟩ }
  let owner ← get
  let claim ← liftE (okOr (owner.byToken.lookup sequence)
    (.internal "pending-outpoint claim publication failed"))
  claim.inputs.forM fun outpoint => modify fun owner => { owner with
    byOutpoint := owner.byOutpoint.insert outpoint ⟨sequence, txid⟩ }
  pure sequence

end PendingOutpointOwner

/-- A call of the owner's handle.  A token that is not the owner's own is refused like token 0. -/
inductive OwnerCall where
  | reserve (context : PendingOutpointAdmissionContext) (txid : Bytes32) (inputs : List Outpoint)
  | finalize (token : Nat)
  | release (token : Nat)
  | beginTransition
  | commitStableTip (tip : PendingOutpointTip)
  | reopenOldTip
  | latchUnavailable

/-- The result is the token of a reservation. -/
def OwnerCall.perform : OwnerCall → OwnerM (Option Nat)
  | .reserve context txid inputs => some <$> PendingOutpointOwner.reserveInPlace context txid inputs
  | .finalize token => (fun _ => none) <$> writing fun owner => owner.finalize token
  | .release token => (fun _ => none) <$> writing fun owner => owner.release token
  | .beginTransition => (fun _ => none) <$> writing fun owner => owner.beginTransition
  | .commitStableTip tip => (fun _ => none) <$> writing fun owner => owner.commitStableTip tip
  | .reopenOldTip => (fun _ => none) <$> writing fun owner => owner.reopenOldTip
  | .latchUnavailable => do
    modify PendingOutpointOwner.latchUnavailable
    pure none

/-- A call that the latch refuses for good. -/
def OwnerCall.Admits : OwnerCall → Prop
  | .reserve _ _ _ | .finalize _ | .beginTransition => True
  | _ => False

def succeeds {α : Type} : EStateM.Result PendingOutpointError PendingOutpointOwner α → Prop
  | .ok _ _ => True
  | .error _ _ => False

instance {α : Type} :
    ∀ result : EStateM.Result PendingOutpointError PendingOutpointOwner α, Decidable (succeeds result)
  | .ok _ _ => .isTrue trivial
  | .error _ _ => .isFalse id

/-- The owner after a call, whether it succeeded or not. -/
def afterCall (owner : PendingOutpointOwner) (call : OwnerCall) : PendingOutpointOwner :=
  endState (call.perform owner)

/-- The owner after the calls, one after the other. -/
def ownerRun (owner : PendingOutpointOwner) (calls : List OwnerCall) : PendingOutpointOwner :=
  calls.foldl afterCall owner

def tokenOf : EStateM.Result PendingOutpointError PendingOutpointOwner (Option Nat) → Option Nat
  | .ok token _ => token
  | .error _ _ => none

/-- The tokens handed out during the calls, in order. -/
def issuedTokens : PendingOutpointOwner → List OwnerCall → List Nat
  | _, [] => []
  | owner, call :: calls =>
    (tokenOf (call.perform owner)).toList ++ issuedTokens (afterCall owner call) calls

namespace PendingOutpointOwner

variable {owner owner' : PendingOutpointOwner}

theorem insertRows (row : PendingOutpointRow) (inputs : List Outpoint) :
    ∀ owner : PendingOutpointOwner,
      (inputs.forM fun outpoint => (modify fun owner => { owner with
        byOutpoint := owner.byOutpoint.insert outpoint row } : OwnerM Unit)) owner =
      .ok () { owner with
        byOutpoint := insertAll (inputs.map fun outpoint => (outpoint, row)) owner.byOutpoint } := by
  induction inputs with
  | nil => exact fun _ => rfl
  | cons outpoint inputs ih =>
    intro owner
    exact estate_bind_eq_ok.mpr ⟨(), _, rfl, ih _⟩

/-- **Reserving in place** is the reservation, and an error has written nothing. -/
theorem reserveInPlace_eq (context : PendingOutpointAdmissionContext) (txid : Bytes32)
    (inputs : List Outpoint) (owner : PendingOutpointOwner) :
    reserveInPlace context txid inputs owner =
      match owner.reserve context txid inputs with
      | .ok (token, owner') => .ok token owner'
      | .error e => .error e owner := by
  unfold reserveInPlace reserve
  cases validateRequest txid inputs with
  | error e => rfl
  | ok _ =>
    rw [liftE_ok_bind, estate_get_bind, ok_bind]
    cases owner.checkAvailable context with
    | error e => rfl
    | ok _ =>
      rw [liftE_ok_bind, ok_bind]
      cases rejectIf (owner.tokenHighWater = u64Max)
          (PendingOutpointError.unavailable "pending-outpoint token sequence exhausted") with
      | error e => rfl
      | ok _ =>
        rw [liftE_ok_bind, ok_bind]
        cases owner.firstConflict inputs with
        | error e => rfl
        | ok _ =>
          rw [liftE_ok_bind, ok_bind, estate_set_bind]
          -- the claim that has just been written is read back
          refine estate_bind_eq_ok.mpr ⟨(), _, rfl, ?_⟩
          rw [estate_get_bind, Finmap.lookup_insert, okOr, liftE_ok_bind]
          exact estate_bind_eq_ok.mpr ⟨(), _, insertRows _ _ _, rfl⟩

/-! ## 2. One call -/

/-- What a call that succeeds has found and done. -/
inductive Did (owner : PendingOutpointOwner) : OwnerCall → Option Nat → PendingOutpointOwner → Prop
  | reserved {context txid inputs token owner'} (h : Reserved owner context txid inputs token owner') :
    Did owner (.reserve context txid inputs) (some token) owner'
  | finalized {token claim} (hopen : ¬ owner.transition ∧ ¬ owner.unavailable)
    (hclaim : owner.byToken.lookup token = some claim) (hgen : claim.generation = owner.generation) :
    Did owner (.finalize token) none (owner.finalizeAfterValidation token)
  | released {token} (hissued : 0 < token ∧ token ≤ owner.tokenHighWater) :
    Did owner (.release token) none (owner.dropClaim token)
  | began (hopen : ¬ owner.transition ∧ ¬ owner.unavailable) :
    Did owner .beginTransition none
      { owner with generation := owner.generation + 1, transition := true }
  | committed {tip} (hopen : ¬ owner.unavailable) :
    Did owner (.commitStableTip tip) none { owner with stableTip := tip, transition := false }
  | reopened (hopen : ¬ owner.unavailable) :
    Did owner .reopenOldTip none { owner with transition := false }
  | latched : Did owner .latchUnavailable none owner.latchUnavailable

theorem map_writing_eq_ok {f : PendingOutpointOwner → Except PendingOutpointError PendingOutpointOwner}
    {token : Option Nat} :
    ((fun _ => none) <$> writing f : OwnerM (Option Nat)) owner = .ok token owner' ↔
      token = none ∧ f owner = .ok owner' := by
  change EStateM.map _ _ _ = _ ↔ _
  cases h : f owner <;> simp [EStateM.map, writing, h, eq_comm]

theorem map_writing_eq_error
    {f : PendingOutpointOwner → Except PendingOutpointError PendingOutpointOwner}
    {e : PendingOutpointError}
    (h : ((fun _ => none) <$> writing f : OwnerM (Option Nat)) owner = .error e owner') :
    f owner = .error e ∧ owner' = owner := by
  change EStateM.map _ _ _ = _ at h
  cases hf : f owner with
  | ok s =>
    simp [EStateM.map, writing, hf] at h
  | error e' =>
    simp only [EStateM.map, writing, hf] at h
    cases h
    exact ⟨rfl, rfl⟩

variable {call : OwnerCall} {token : Nat}

/-- **A call that fails changes nothing.** -/
theorem perform_error {e : PendingOutpointError} (h : call.perform owner = .error e owner') :
    owner' = owner := by
  cases call with
  | reserve context txid inputs =>
    change EStateM.map some _ _ = _ at h
    rw [EStateM.map, reserveInPlace_eq] at h
    cases hres : owner.reserve context txid inputs with
    | ok p =>
      rw [hres] at h
      cases h
    | error e' =>
      rw [hres] at h
      cases h
      rfl
  | finalize token => exact (map_writing_eq_error h).2
  | release token => exact (map_writing_eq_error h).2
  | beginTransition => exact (map_writing_eq_error h).2
  | commitStableTip tip => exact (map_writing_eq_error h).2
  | reopenOldTip => exact (map_writing_eq_error h).2
  | latchUnavailable => cases h

theorem claim_eq_ok {found : Option PendingOutpointClaim} :
    owner.claim token = .ok found ↔
      (0 < token ∧ token ≤ owner.tokenHighWater) ∧ owner.byToken.lookup token = found := by
  simp only [PendingOutpointOwner.claim, check_bind_eq_ok, rejectIf_eq_ok, Except.ok.injEq,
    Nat.pos_iff_ne_zero, Nat.not_lt, and_assoc]

theorem checkAvailable_eq_ok {context : PendingOutpointAdmissionContext} :
    owner.checkAvailable context = .ok () ↔ (¬ owner.transition ∧ ¬ owner.unavailable) ∧
      context.tip = owner.stableTip ∧ context.generation = owner.generation := by
  simp only [checkAvailable, check_bind_eq_ok, rejectIf_eq_ok, not_or, not_not]

theorem checkCandidate_ok (h : owner.checkCandidate token = .ok ()) :
    (¬ owner.transition ∧ ¬ owner.unavailable) ∧
      ∃ claim, owner.byToken.lookup token = some claim ∧ claim.generation = owner.generation := by
  simp only [checkCandidate, bind_eq_ok, exists_unit, rejectIf_eq_ok, okOr_eq_ok, claim_eq_ok,
    not_or, not_not] at h
  obtain ⟨hopen, found, ⟨-, hfound⟩, claim, rfl, hgen⟩ := h
  exact ⟨hopen, claim, hfound, hgen⟩

theorem perform_ok {token : Option Nat} (h : call.perform owner = .ok token owner') :
    Did owner call token owner' := by
  cases call with
  | reserve context txid inputs =>
    change EStateM.map some _ _ = _ at h
    rw [EStateM.map, reserveInPlace_eq] at h
    cases hres : owner.reserve context txid inputs with
    | ok p =>
      rw [hres] at h
      cases h
      exact .reserved (reserve_ok hres)
    | error e' =>
      rw [hres] at h
      cases h
  | finalize t =>
    obtain ⟨rfl, hdone⟩ : token = none ∧ owner.finalize t = .ok owner' := map_writing_eq_ok.mp h
    simp only [PendingOutpointOwner.finalize, check_bind_eq_ok, Except.ok.injEq] at hdone
    obtain ⟨hcandidate, -, rfl⟩ := hdone
    obtain ⟨hopen, claim, hfound, hgen⟩ := checkCandidate_ok hcandidate
    exact .finalized hopen hfound hgen
  | release t =>
    obtain ⟨rfl, hdone⟩ : token = none ∧ owner.release t = .ok owner' := map_writing_eq_ok.mp h
    simp only [PendingOutpointOwner.release, bind_eq_ok, claim_eq_ok] at hdone
    obtain ⟨found, ⟨hissued, hfound⟩, hdone⟩ := hdone
    cases found with
    | none =>
      dsimp only at hdone
      split at hdone
      · cases hdone
      · cases hdone
        have hsame : owner.dropClaim t = owner := by
          rw [PendingOutpointOwner.dropClaim, hfound]
        have hdid : Did owner (.release t) none (owner.dropClaim t) := .released hissued
        rwa [hsame] at hdid
    | some claim =>
      simp only [check_bind_eq_ok, Except.ok.injEq] at hdone
      obtain ⟨-, rfl⟩ := hdone
      exact .released hissued
  | beginTransition =>
    obtain ⟨rfl, hdone⟩ : token = none ∧ owner.beginTransition = .ok owner' :=
      map_writing_eq_ok.mp h
    simp only [PendingOutpointOwner.beginTransition, check_bind_eq_ok, rejectIf_eq_ok, not_or,
      Except.ok.injEq] at hdone
    obtain ⟨hopen, -, rfl⟩ := hdone
    exact .began hopen
  | commitStableTip tip =>
    obtain ⟨rfl, hdone⟩ : token = none ∧ owner.commitStableTip tip = .ok owner' :=
      map_writing_eq_ok.mp h
    simp only [PendingOutpointOwner.commitStableTip, check_bind_eq_ok, rejectIf_eq_ok, not_or,
      Except.ok.injEq] at hdone
    obtain ⟨⟨-, hopen⟩, rfl⟩ := hdone
    exact .committed hopen
  | reopenOldTip =>
    obtain ⟨rfl, hdone⟩ : token = none ∧ owner.reopenOldTip = .ok owner' := map_writing_eq_ok.mp h
    simp only [PendingOutpointOwner.reopenOldTip, check_bind_eq_ok, rejectIf_eq_ok, not_or,
      Except.ok.injEq] at hdone
    obtain ⟨⟨-, hopen⟩, rfl⟩ := hdone
    exact .reopened hopen
  | latchUnavailable =>
    cases h
    exact .latched

/-- How the owner can change from one point of a history to a later one. -/
structure Later (owner owner' : PendingOutpointOwner) : Prop where
  wf : owner'.Wf
  highWater : owner.tokenHighWater ≤ owner'.tokenHighWater
  generation : owner.generation ≤ owner'.generation
  latched : owner.unavailable = true → owner'.unavailable = true
  claims : ∀ token claim', token ≤ owner.tokenHighWater →
    owner'.byToken.lookup token = some claim' →
    ∃ claim, owner.byToken.lookup token = some claim ∧ claim'.generation = claim.generation

theorem Later.refl (h : owner.Wf) : Later owner owner :=
  ⟨h, Nat.le_refl _, Nat.le_refl _, id, fun _ claim _ hc => ⟨claim, hc, rfl⟩⟩

theorem Later.trans {owner'' : PendingOutpointOwner} (h : Later owner owner')
    (h' : Later owner' owner'') : Later owner owner'' where
  wf := h'.wf
  highWater := h.highWater.trans h'.highWater
  generation := h.generation.trans h'.generation
  latched := fun hl => h'.latched (h.latched hl)
  claims := by
    intro token claim'' ht hc
    obtain ⟨claim', hc', hgen'⟩ := h'.claims token claim'' (ht.trans h.highWater) hc
    obtain ⟨claim, hc, hgen⟩ := h.claims token claim' ht hc'
    exact ⟨claim, hc, hgen'.trans hgen⟩

theorem Later.of_fence (hwf : owner.Wf) (hrows : owner'.byOutpoint = owner.byOutpoint)
    (hclaims : owner'.byToken = owner.byToken)
    (hhigh : owner'.tokenHighWater = owner.tokenHighWater)
    (hgen : owner.generation ≤ owner'.generation)
    (hlatched : owner.unavailable = true → owner'.unavailable = true) : Later owner owner' where
  wf := ⟨by rw [hrows, hclaims]; exact hwf.indexed, by rw [hclaims, hhigh]; exact hwf.issued⟩
  highWater := hhigh.ge
  generation := hgen
  latched := hlatched
  claims := by
    intro token claim' _ hc
    rw [hclaims] at hc
    exact ⟨claim', hc, rfl⟩

/-- **One step.** -/
theorem Did.later {token : Option Nat} (hwf : owner.Wf) (h : Did owner call token owner') :
    Later owner owner' := by
  cases h with
  | reserved h =>
    have hwf' := hwf.reserve h
    obtain ⟨-, -, -, -, rfl, rfl⟩ := h
    refine ⟨hwf', Nat.le_succ _, Nat.le_refl _, id, fun t claim' ht hc => ⟨claim', ?_, rfl⟩⟩
    dsimp only at hc
    rwa [lookup_insert_eq, if_neg (by omega)] at hc
  | @finalized t claim _ hclaim _ =>
    have hwf' := hwf.finalizeAfterValidation t
    rw [PendingOutpointOwner.finalizeAfterValidation, hclaim] at hwf' ⊢
    refine ⟨hwf', Nat.le_refl _, Nat.le_refl _, id, fun t' claim' _ hc => ?_⟩
    dsimp only at hc
    rw [lookup_insert_eq] at hc
    split at hc
    · rename_i heq
      cases hc
      rw [heq]
      exact ⟨claim, hclaim, rfl⟩
    · exact ⟨claim', hc, rfl⟩
  | @released t _ =>
    have hwf' := hwf.dropClaim t
    cases hclaim : owner.byToken.lookup t with
    | none =>
      rw [PendingOutpointOwner.dropClaim, hclaim]
      exact .refl hwf
    | some claim =>
      rw [dropClaim_eq hwf hclaim] at hwf' ⊢
      refine ⟨hwf', Nat.le_refl _, Nat.le_refl _, id, fun t' claim' _ hc => ⟨claim', ?_, rfl⟩⟩
      dsimp only at hc
      rw [lookup_erase_eq] at hc
      split at hc
      · cases hc
      · exact hc
  | began _ => exact .of_fence hwf rfl rfl rfl (Nat.le_succ _) id
  | committed _ => exact .of_fence hwf rfl rfl rfl (Nat.le_refl _) id
  | reopened _ => exact .of_fence hwf rfl rfl rfl (Nat.le_refl _) id
  | latched => exact .of_fence hwf rfl rfl rfl (Nat.le_refl _) fun _ => rfl

/-- A claim is of the current generation or an older one, and during a transition of an older one:
nothing is reserved then. -/
def Aged (owner : PendingOutpointOwner) : Prop :=
  ∀ token claim, owner.byToken.lookup token = some claim →
    claim.generation ≤ owner.generation ∧
      (owner.transition = true → claim.generation < owner.generation)

theorem aged_new (context : PendingOutpointAdmissionContext) : (newWithContext context).Aged :=
  fun _ _ h => by simp [newWithContext] at h

theorem Did.aged {token : Option Nat} (hwf : owner.Wf) (haged : owner.Aged)
    (h : Did owner call token owner') : owner'.Aged := by
  cases h with
  | reserved h =>
    obtain ⟨-, havailable, -, -, rfl, rfl⟩ := h
    have hclosed := (checkAvailable_eq_ok.mp havailable).1.1
    intro t claim hc
    dsimp only at hc
    rw [lookup_insert_eq] at hc
    split at hc
    · cases hc
      exact ⟨Nat.le_refl _, fun hmoving => absurd hmoving hclosed⟩
    · exact haged t claim hc
  | @finalized t claim _ hclaim _ =>
    rw [PendingOutpointOwner.finalizeAfterValidation, hclaim]
    intro t' claim' hc
    dsimp only at hc
    rw [lookup_insert_eq] at hc
    split at hc
    · cases hc
      exact haged t claim hclaim
    · exact haged t' claim' hc
  | @released t _ =>
    cases hclaim : owner.byToken.lookup t with
    | none =>
      rw [PendingOutpointOwner.dropClaim, hclaim]
      exact haged
    | some claim =>
      rw [dropClaim_eq hwf hclaim]
      intro t' claim' hc
      dsimp only at hc
      rw [lookup_erase_eq] at hc
      split at hc
      · cases hc
      · exact haged t' claim' hc
  | began _ =>
    intro t claim hc
    have hold := (haged t claim hc).1
    exact ⟨Nat.le_succ_of_le hold, fun _ => Nat.lt_succ_of_le hold⟩
  | committed _ => exact fun t claim hc => ⟨(haged t claim hc).1, by simp⟩
  | reopened _ => exact fun t claim hc => ⟨(haged t claim hc).1, by simp⟩
  | latched => exact fun t claim hc => ⟨(haged t claim hc).1, fun hmoving => by cases hmoving⟩

theorem dropClaim_tokenHighWater (owner : PendingOutpointOwner) (token : Nat) :
    (owner.dropClaim token).tokenHighWater = owner.tokenHighWater := by
  unfold PendingOutpointOwner.dropClaim
  split
  · rfl
  · rfl

/-- A reservation hands out the next sequence number, and nothing else moves the mark. -/
theorem Did.issues {token : Option Nat} (h : Did owner call token owner') :
    (token = none ∧ owner'.tokenHighWater = owner.tokenHighWater) ∨
      (token = some owner'.tokenHighWater ∧ owner'.tokenHighWater = owner.tokenHighWater + 1) := by
  cases h with
  | reserved h =>
    obtain ⟨-, -, -, -, rfl, rfl⟩ := h
    exact .inr ⟨rfl, rfl⟩
  | finalized _ hclaim _ =>
    rw [PendingOutpointOwner.finalizeAfterValidation, hclaim]
    exact .inl ⟨rfl, rfl⟩
  | released _ => exact .inl ⟨rfl, dropClaim_tokenHighWater owner _⟩
  | began _ => exact .inl ⟨rfl, rfl⟩
  | committed _ => exact .inl ⟨rfl, rfl⟩
  | reopened _ => exact .inl ⟨rfl, rfl⟩
  | latched => exact .inl ⟨rfl, rfl⟩

theorem afterCall_cases (owner : PendingOutpointOwner) (call : OwnerCall) :
    Did owner call (tokenOf (call.perform owner)) (afterCall owner call) ∨
      (tokenOf (call.perform owner) = none ∧ afterCall owner call = owner) := by
  rw [afterCall]
  cases h : call.perform owner with
  | ok token owner' => exact .inl (perform_ok h)
  | error e owner' => exact .inr ⟨rfl, perform_error h⟩

theorem later_afterCall (hwf : owner.Wf) (call : OwnerCall) : Later owner (afterCall owner call) := by
  rcases afterCall_cases owner call with hdid | ⟨-, hsame⟩
  · exact hdid.later hwf
  · rw [hsame]
    exact .refl hwf

/-! ## 3. Runs -/

theorem ownerRun_append (owner : PendingOutpointOwner) (calls calls' : List OwnerCall) :
    ownerRun owner (calls ++ calls') = ownerRun (ownerRun owner calls) calls' :=
  List.foldl_append

/-- **Any run.** -/
theorem later_run (hwf : owner.Wf) (calls : List OwnerCall) : Later owner (ownerRun owner calls) := by
  induction calls generalizing owner with
  | nil => exact .refl hwf
  | cons call calls ih =>
    have hstep := later_afterCall hwf call
    exact hstep.trans (ih hstep.wf)

theorem aged_run (hwf : owner.Wf) (haged : owner.Aged) (calls : List OwnerCall) :
    (ownerRun owner calls).Aged := by
  induction calls generalizing owner with
  | nil => exact haged
  | cons call calls ih =>
    refine ih (later_afterCall hwf call).wf ?_
    rcases afterCall_cases owner call with hdid | ⟨-, hsame⟩
    · exact hdid.aged hwf haged
    · rw [hsame]
      exact haged

theorem mem_tokenOf (h : token ∈ (tokenOf (call.perform owner)).toList) :
    token = (afterCall owner call).tokenHighWater ∧ owner.tokenHighWater < token := by
  rw [Option.mem_toList] at h
  rcases afterCall_cases owner call with hdid | ⟨hnone, -⟩
  · rcases hdid.issues with ⟨hnone, -⟩ | ⟨hsome, hnext⟩
    · rw [hnone] at h
      cases h
    · rw [hsome] at h
      cases h
      exact ⟨rfl, by omega⟩
  · rw [hnone] at h
    cases h

theorem issuedTokens_spec (hwf : owner.Wf) (calls : List OwnerCall) :
    (issuedTokens owner calls).Pairwise (· < ·) ∧
      ∀ t ∈ issuedTokens owner calls,
        owner.tokenHighWater < t ∧ t ≤ (ownerRun owner calls).tokenHighWater := by
  induction calls generalizing owner with
  | nil => exact ⟨.nil, nofun⟩
  | cons call calls ih =>
    have hstep := later_afterCall hwf call
    obtain ⟨hsorted, hbounds⟩ := ih hstep.wf
    have hrun := later_run hstep.wf calls
    constructor
    · refine List.pairwise_append.mpr ⟨?_, hsorted, fun a ha b hb => ?_⟩
      · cases tokenOf (call.perform owner) with
        | none => exact .nil
        | some token => exact List.pairwise_singleton _ _
      · rw [(mem_tokenOf ha).1]
        exact (hbounds b hb).1
    · intro t ht
      rcases List.mem_append.mp ht with ht | ht
      · obtain ⟨heq, hlt⟩ := mem_tokenOf ht
        exact ⟨hlt, heq.trans_le hrun.highWater⟩
      · exact ⟨Nat.lt_of_le_of_lt hstep.highWater (hbounds t ht).1, (hbounds t ht).2⟩

theorem token_of_live (hwf : owner.Wf) (calls : List OwnerCall)
    (h : token ∈ (ownerRun owner calls).byToken.keys) :
    token ∈ owner.byToken.keys ∨ token ∈ issuedTokens owner calls := by
  induction calls generalizing owner with
  | nil => exact .inl h
  | cons call calls ih =>
    have hstep := later_afterCall hwf call
    rcases ih hstep.wf h with hbefore | hsince
    · obtain ⟨claim', hclaim'⟩ := mem_keys_iff.mp hbefore
      by_cases hold : token ≤ owner.tokenHighWater
      · obtain ⟨claim, hclaim, -⟩ := hstep.claims token claim' hold hclaim'
        exact .inl (mem_keys_iff.mpr ⟨claim, hclaim⟩)
      -- above the old mark there is only the token this call has handed out
      · have hissued := (hstep.wf.issued token claim' hclaim').2
        rcases afterCall_cases owner call with hdid | ⟨-, hsame⟩
        · rcases hdid.issues with ⟨-, hmark⟩ | ⟨hsome, hnext⟩
          · omega
          · refine .inr (List.mem_append_left _ ?_)
            rw [hsome, Option.mem_toList, Option.some.injEq]
            omega
        · rw [hsame] at hissued
          omega
    · exact .inr (List.mem_append_right _ hsince)

theorem release_issued (hwf : owner.Wf) (ht : 0 < token ∧ token ≤ owner.tokenHighWater) :
    owner.release token = .ok (owner.dropClaim token) := by
  cases hclaim : owner.byToken.lookup token with
  | some claim =>
    rw [PendingOutpointOwner.release, claim_of_live hwf hclaim, ok_bind]
    dsimp only
    rw [checkRows_of_live hwf hclaim, ok_bind]
  | none =>
    have hfound : owner.claim token = .ok none := claim_eq_ok.mpr ⟨ht, hclaim⟩
    have hrow : ¬ ∃ outpoint ∈ owner.byOutpoint.keys,
        (owner.byOutpoint.lookup outpoint).map PendingOutpointRow.sequence = some token := by
      rintro ⟨outpoint, -, hrow⟩
      obtain ⟨row, hlookup, rfl⟩ := Option.map_eq_some_iff.mp hrow
      obtain ⟨t, claim, hc, -, rfl⟩ := (hwf.indexed outpoint row).mp hlookup
      rw [show (claimRow t claim).sequence = t from rfl, hc] at hclaim
      cases hclaim
    rw [PendingOutpointOwner.release, hfound, ok_bind]
    dsimp only
    rw [if_neg hrow, PendingOutpointOwner.dropClaim, hclaim]

theorem dropClaim_twice (hwf : owner.Wf) (token : Nat) :
    (owner.dropClaim token).dropClaim token = owner.dropClaim token := by
  have hnone : (owner.dropClaim token).byToken.lookup token = none := by
    cases hclaim : owner.byToken.lookup token with
    | none =>
      rw [PendingOutpointOwner.dropClaim, hclaim]
      exact hclaim
    | some claim =>
      rw [dropClaim_eq hwf hclaim]
      exact Finmap.lookup_erase _ _
  conv_lhs => rw [PendingOutpointOwner.dropClaim, hnone]

/-- A claim that a transition has left behind. -/
def Stale (owner : PendingOutpointOwner) (token : Nat) : Prop :=
  token ≤ owner.tokenHighWater ∧ (owner.unavailable = true ∨
    ∀ claim, owner.byToken.lookup token = some claim → claim.generation < owner.generation)

theorem Stale.later (h : owner.Stale token) (hlater : Later owner owner') : owner'.Stale token := by
  refine ⟨h.1.trans hlater.highWater, ?_⟩
  rcases h.2 with hlatched | hold
  · exact .inl (hlater.latched hlatched)
  · refine .inr fun claim' hclaim' => ?_
    obtain ⟨claim, hclaim, hgen⟩ := hlater.claims token claim' h.1 hclaim'
    rw [hgen]
    exact (hold claim hclaim).trans_le hlater.generation

theorem Stale.not_finalized (h : owner.Stale token) :
    ¬ succeeds ((OwnerCall.finalize token).perform owner) := by
  intro hok
  cases hres : (OwnerCall.finalize token).perform owner with
  | error e owner' =>
    rw [hres] at hok
    exact hok
  | ok result owner' =>
    cases perform_ok hres with
    | finalized hopen hclaim hgen =>
      rcases h.2 with hlatched | hold
      · exact hopen.2 hlatched
      · exact (hold _ hclaim).ne hgen

/-- **Opening a transition** leaves every token behind, unless the generation counter is used up: also
when it is refused because a transition is running. -/
theorem stale_of_begin (haged : owner.Aged) (ht : token ≤ owner.tokenHighWater)
    (hbegin : ∀ owner', OwnerCall.beginTransition.perform owner ≠
      .error (.unavailable "pending-outpoint generation exhausted") owner') :
    (afterCall owner .beginTransition).Stale token := by
  rw [afterCall]
  cases h : OwnerCall.beginTransition.perform owner with
  | ok result owner' =>
    cases perform_ok h with
    | began _ =>
      exact ⟨ht, .inr fun claim hclaim => Nat.lt_succ_of_le (haged token claim hclaim).1⟩
  | error e owner' =>
    have hrefused : owner.beginTransition = .error e := (map_writing_eq_error h).1
    have hclosed : owner.transition ∨ owner.unavailable := by
      by_contra hopen
      rw [beginTransition, rejectIf_neg hopen, ok_bind] at hrefused
      by_cases hlast : owner.generation = u64Max
      · rw [rejectIf_pos hlast] at hrefused
        cases hrefused
        exact hbegin owner' h
      · rw [rejectIf_neg hlast] at hrefused
        cases hrefused
    rw [endState_error, perform_error h]
    refine ⟨ht, ?_⟩
    rcases hclosed with hmoving | hlatched
    · exact .inr fun claim hclaim => (haged token claim hclaim).2 hmoving
    · exact .inl hlatched

theorem not_admits_of_latched (h : owner.unavailable = true) (hcall : OwnerCall.Admits call) :
    ¬ succeeds (call.perform owner) := by
  intro hok
  cases hres : call.perform owner with
  | error e owner' =>
    rw [hres] at hok
    exact hok
  | ok result owner' =>
    cases perform_ok hres with
    | reserved hreserved =>
      exact (checkAvailable_eq_ok.mp hreserved.available).1.2 h
    | finalized hopen _ _ => exact hopen.2 h
    | began hopen => exact hopen.2 h
    | released _ => exact hcall
    | committed _ => exact hcall
    | reopened _ => exact hcall
    | latched => exact hcall

/-- **The owner over any history.**  From a fresh owner, after any calls, failed ones included:

* a row stands under an outpoint exactly when a live claim lists the outpoint, and it names that
  claim's token and transaction; live claims share no outpoint;
* the tokens handed out ascend and stop at the high-water mark, so none is handed out twice, and every
  live claim has one of them;
* a call that fails changes nothing; every token handed out can be released, and releasing it again
  succeeds and changes nothing;
* a reservation succeeds only outside a transition, with the stable tip and the generation of now;
* a token from before a call of `begin_transition` is never finalized after it.  This also holds when
  that call is refused, except for an exhausted generation counter, which leaves no transition behind;
* after `latch_unavailable` no reservation, finalization or transition succeeds. -/
theorem owner_history (context : PendingOutpointAdmissionContext) (calls : List OwnerCall) :
    let owner := ownerRun (newWithContext context) calls
    let issued := issuedTokens (newWithContext context) calls
    (∀ outpoint row, owner.byOutpoint.lookup outpoint = some row ↔
      ∃ token claim, owner.byToken.lookup token = some claim ∧ outpoint ∈ claim.inputs ∧
        row = ⟨token, claim.txid⟩) ∧
    (∀ token claim token' claim', owner.byToken.lookup token = some claim →
      owner.byToken.lookup token' = some claim' → token ≠ token' →
      claim.inputs.Disjoint claim'.inputs) ∧
    issued.Pairwise (· < ·) ∧
    (∀ token ∈ issued, 0 < token ∧ token ≤ owner.tokenHighWater) ∧
    (∀ token claim, owner.byToken.lookup token = some claim → token ∈ issued) ∧
    (∀ call e owner', OwnerCall.perform call owner = .error e owner' → owner' = owner) ∧
    (∀ token ∈ issued, ∃ owner', (OwnerCall.release token).perform owner = .ok none owner' ∧
      (OwnerCall.release token).perform owner' = .ok none owner') ∧
    (∀ context' txid inputs, succeeds ((OwnerCall.reserve context' txid inputs).perform owner) →
      ¬ owner.transition ∧ context'.tip = owner.stableTip ∧
        context'.generation = owner.generation) ∧
    (∀ before after token, calls = before ++ .beginTransition :: after →
      token ∈ issuedTokens (newWithContext context) before →
      (∀ owner', OwnerCall.beginTransition.perform (ownerRun (newWithContext context) before) ≠
        .error (.unavailable "pending-outpoint generation exhausted") owner') →
      ¬ succeeds ((OwnerCall.finalize token).perform owner)) ∧
    (∀ before after, calls = before ++ .latchUnavailable :: after →
      ∀ call, OwnerCall.Admits call → ¬ succeeds (call.perform owner)) := by
  have hwf₀ := wf_new context
  have hwf := (later_run hwf₀ calls).wf
  obtain ⟨hascending, hbounds⟩ := issuedTokens_spec hwf₀ calls
  intro owner issued
  refine ⟨hwf.indexed, ?_, hascending, fun token ht => ?_, fun token claim hclaim => ?_, ?_,
    fun token ht => ?_, ?_, ?_, ?_⟩
  · intro token claim token' claim' hc hc' hne outpoint hmem hmem'
    exact hne (hwf.indexed.exclusive claimRow_token hc hmem hc' hmem')
  · exact hbounds token ht
  · rcases token_of_live hwf₀ calls (mem_keys_iff.mpr ⟨claim, hclaim⟩) with hfresh | hissued
    · simp [newWithContext] at hfresh
    · exact hissued
  · exact fun call e owner' h => perform_error h
  · have honce := release_issued hwf (hbounds token ht)
    have hmark : 0 < token ∧ token ≤ (owner.dropClaim token).tokenHighWater := by
      rw [dropClaim_tokenHighWater]
      exact hbounds token ht
    have hagain := release_issued (hwf.dropClaim token) hmark
    rw [dropClaim_twice hwf] at hagain
    exact ⟨owner.dropClaim token, map_writing_eq_ok.mpr ⟨rfl, honce⟩,
      map_writing_eq_ok.mpr ⟨rfl, hagain⟩⟩
  · intro context' txid inputs hok
    cases hres : (OwnerCall.reserve context' txid inputs).perform owner with
    | error e owner' =>
      rw [hres] at hok
      exact hok.elim
    | ok result owner' =>
      cases perform_ok hres with
      | reserved hreserved =>
        obtain ⟨hopen, hcurrent⟩ := checkAvailable_eq_ok.mp hreserved.available
        exact ⟨hopen.1, hcurrent⟩
  · rintro before after token rfl ht hbegin
    have hbefore := later_run hwf₀ before
    have hstale := stale_of_begin (aged_run hwf₀ (aged_new context) before)
      ((issuedTokens_spec hwf₀ before).2 token ht).2 hbegin
    have hafter := later_run (later_afterCall hbefore.wf .beginTransition).wf after
    rw [show owner = _ from ownerRun_append _ before _]
    exact (hstale.later hafter).not_finalized
  · rintro before after rfl call hcall
    have hbefore := later_run hwf₀ before
    have hafter := later_run (later_afterCall hbefore.wf .latchUnavailable).wf after
    rw [show owner = _ from ownerRun_append _ before _]
    exact not_admits_of_latched (hafter.latched rfl) hcall

/-- A claim from before a transition that is given up, and an owner that is latched afterwards. -/
theorem owner_history_fenced :
    let context : PendingOutpointAdmissionContext := ⟨⟨false, 0, zero32⟩, 0⟩
    let reservation : OwnerCall := .reserve context powLimit [⟨zero32, 3⟩]
    issuedTokens (newWithContext context) [reservation] = [1] ∧
    ¬ succeeds ((OwnerCall.finalize 1).perform
      (ownerRun (newWithContext context) [reservation, .beginTransition, .reopenOldTip])) ∧
    ¬ succeeds (OwnerCall.beginTransition.perform
      (ownerRun (newWithContext context) [reservation, .latchUnavailable, .release 1])) := by
  intro context reservation
  have hissued : issuedTokens (newWithContext context) [reservation] = [1] := by decide +kernel
  have hbegan : succeeds (OwnerCall.beginTransition.perform
      (ownerRun (newWithContext context) [reservation])) := by decide +kernel
  refine ⟨hissued, ?_, ?_⟩
  · obtain ⟨-, -, -, -, -, -, -, -, hstale, -⟩ :=
      owner_history context [reservation, .beginTransition, .reopenOldTip]
    refine hstale [reservation] [.reopenOldTip] 1 rfl (by simp [hissued]) ?_
    intro owner' hrefused
    rw [hrefused] at hbegan
    exact hbegan
  · obtain ⟨-, -, -, -, -, -, -, -, -, hlatched⟩ :=
      owner_history context [reservation, .latchUnavailable, .release 1]
    exact hlatched [reservation] [.release 1] rfl .beginTransition trivial

end PendingOutpointOwner

end Rubin.Node
