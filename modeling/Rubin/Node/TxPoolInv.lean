/-
# The books of the transaction pool

The pool keeps five maps in two objects: residents, admission sequences, tokens, and at the owner
claims and rows.  `Accounts` is what the pool's own maps owe each other, `Linked` what ties them to
the owner.  A removal keeps both (section 2), an admission that fails changes nothing but the
owner's high-water mark (section 4), and one that succeeds keeps both and the limits.

`Linked` has a parameter for a claim that belongs to no resident: the candidate's, from its
reservation to the commit.

Nothing is assumed about the residents beyond what admission itself put there, so the defensive
branches (a missing or duplicate sequence, a claim that does not match) are unreachable: an
eviction really evicts.
-/
import Rubin.Node.TxPool

namespace Rubin.Node

open Rubin.Lib Rubin.Consensus

namespace TxPool

/-! ## 1. The books -/

/-- Residents, admission sequences and the byte count. -/
structure Accounts (txs : Finmap fun _ : Bytes32 => TxPoolEntry)
    (heapSeqs : Finmap fun _ : Bytes32 => Nat) (nextHeapId usedBytes : Nat) : Prop where
  sequenced : heapSeqs.keys = txs.keys
  positive : ∀ txid seq, heapSeqs.lookup txid = some seq → 0 < seq ∧ seq ≤ nextHeapId
  distinct : ∀ txid txid' seq, heapSeqs.lookup txid = some seq → heapSeqs.lookup txid' = some seq →
    txid = txid'
  used : usedBytes = total TxPoolEntry.size txs

/-- Residents, tokens and claims.  `spare` is the token of a claim that is no resident's. -/
structure Linked (txs : Finmap fun _ : Bytes32 => TxPoolEntry)
    (tokens : Finmap fun _ : Bytes32 => Nat) (owner : PendingOutpointOwner)
    (spare : Option Nat) : Prop where
  wf : owner.Wf
  recorded : ∀ txid entry, txs.lookup txid = some entry → entry.inputs ≠ [] → ∃ token generation,
    tokens.lookup txid = some token ∧
    owner.byToken.lookup token = some ⟨txid, entry.inputs, generation, true⟩
  inputless : ∀ txid entry, txs.lookup txid = some entry → entry.inputs = [] →
    tokens.lookup txid = none
  resident : ∀ txid token, tokens.lookup txid = some token → ∃ entry, txs.lookup txid = some entry
  claimed : ∀ token claim, owner.byToken.lookup token = some claim →
    spare = some token ∨ tokens.lookup claim.txid = some token
  apart : ∀ txid token, tokens.lookup txid = some token → spare ≠ some token

variable {txid : Bytes32} {entry : TxPoolEntry} {token : Nat} {ord : VisitOrder Bytes32}
  {evicted : List Bytes32} {txs : Finmap fun _ : Bytes32 => TxPoolEntry}
  {tokens : Finmap fun _ : Bytes32 => Nat} {owner owner' : PendingOutpointOwner} {pool' : TxPool}
  {chainState : ChainState}

namespace Accounts

variable {txs : Finmap fun _ : Bytes32 => TxPoolEntry} {heapSeqs : Finmap fun _ : Bytes32 => Nat}
  {nextHeapId usedBytes : Nat}

theorem remove (h : Accounts txs heapSeqs nextHeapId usedBytes)
    (hentry : txs.lookup txid = some entry) :
    Accounts (txs.erase txid) (heapSeqs.erase txid) nextHeapId (usedBytes - entry.size) where
  sequenced := by rw [Finmap.keys_erase, Finmap.keys_erase, h.sequenced]
  positive := fun a seq hseq => h.positive a seq (lookup_erase_eq_some.mp hseq).2
  distinct := fun a b seq ha hb =>
    h.distinct a b seq (lookup_erase_eq_some.mp ha).2 (lookup_erase_eq_some.mp hb).2
  used := by
    have hsum := total_erase TxPoolEntry.size txs txid
    rw [weightAt_of_lookup hentry] at hsum
    rw [h.used]
    omega

theorem insert (h : Accounts txs heapSeqs nextHeapId usedBytes) (hnew : txs.lookup txid = none)
    (entry : TxPoolEntry) :
    Accounts (txs.insert txid entry) (heapSeqs.insert txid (nextHeapId + 1)) (nextHeapId + 1)
      (usedBytes + entry.size) where
  sequenced := by
    ext k
    rw [mem_keys_iff, mem_keys_iff, lookup_insert_eq, lookup_insert_eq]
    split
    · simp
    · rw [← mem_keys_iff, ← mem_keys_iff, h.sequenced]
  positive := by
    intro a seq hseq
    rcases lookup_insert_eq_some.mp hseq with ⟨-, rfl⟩ | ⟨-, hseq⟩
    · exact ⟨Nat.succ_pos _, Nat.le_refl _⟩
    · have := h.positive a seq hseq
      omega
  distinct := by
    -- the new sequence is above all the others
    intro a b seq ha hb
    rcases lookup_insert_eq_some.mp ha with ⟨hat, rfl⟩ | ⟨-, ha⟩
    · rcases lookup_insert_eq_some.mp hb with ⟨hbt, -⟩ | ⟨-, hb⟩
      · rw [hat, hbt]
      · have := (h.positive b _ hb).2
        omega
    · rcases lookup_insert_eq_some.mp hb with ⟨-, rfl⟩ | ⟨-, hb⟩
      · have := (h.positive a _ ha).2
        omega
      · exact h.distinct a b seq ha hb
  used := by
    have hsum := total_insert TxPoolEntry.size txs txid entry
    have hzero : weightAt TxPoolEntry.size txs txid = 0 := by simp [weightAt, hnew]
    rw [h.used]
    omega

end Accounts

namespace Linked

variable {txs : Finmap fun _ : Bytes32 => TxPoolEntry} {tokens : Finmap fun _ : Bytes32 => Nat}
  {owner : PendingOutpointOwner} {spare : Option Nat}

theorem claim_of_token (h : Linked txs tokens owner spare) (ht : tokens.lookup txid = some token) :
    ∃ entry generation, txs.lookup txid = some entry ∧
      entry.inputs ≠ [] ∧
      owner.byToken.lookup token = some ⟨txid, entry.inputs, generation, true⟩ := by
  obtain ⟨entry, hentry⟩ := h.resident txid token ht
  have hne : entry.inputs ≠ [] := by
    intro hnil
    rw [h.inputless txid entry hentry hnil] at ht
    cases ht
  obtain ⟨token', generation, ht', hclaim⟩ := h.recorded txid entry hentry hne
  rw [ht] at ht'
  cases ht'
  exact ⟨entry, generation, hentry, hne, hclaim⟩

theorem token_inj (h : Linked txs tokens owner spare) {a b : Bytes32}
    (ha : tokens.lookup a = some token) (hb : tokens.lookup b = some token) : a = b := by
  obtain ⟨_, _, -, -, hca⟩ := h.claim_of_token ha
  obtain ⟨_, _, -, -, hcb⟩ := h.claim_of_token hb
  rw [hca] at hcb
  exact (PendingOutpointClaim.mk.inj (Option.some.inj hcb)).1

theorem validateStandardEntry (h : Linked txs tokens owner spare)
    (hentry : txs.lookup txid = some entry) :
    owner.validateStandardEntry txid entry.inputs (tokens.lookup txid) true = .ok () := by
  by_cases hnil : entry.inputs = []
  · rw [h.inputless txid entry hentry hnil, PendingOutpointOwner.validateStandardEntry, if_pos hnil]
    exact rejectIf_neg (fun h => h rfl)
  · obtain ⟨token, generation, ht, hclaim⟩ := h.recorded txid entry hentry hnil
    rw [ht]
    exact PendingOutpointOwner.validateStandardEntry_of_live h.wf hclaim hnil

theorem removeInputless (h : Linked txs tokens owner spare) (ht : tokens.lookup txid = none) :
    Linked (txs.erase txid) tokens owner spare where
  wf := h.wf
  recorded := fun a entry ha => h.recorded a entry (lookup_erase_eq_some.mp ha).2
  inputless := fun a entry ha => h.inputless a entry (lookup_erase_eq_some.mp ha).2
  resident := by
    intro a token hat
    have hne : a ≠ txid := by
      rintro rfl
      rw [ht] at hat
      cases hat
    rw [lookup_erase_eq, if_neg hne]
    exact h.resident a token hat
  claimed := h.claimed
  apart := h.apart

theorem lookup_dropClaim (h : Linked txs tokens owner spare) (ht : tokens.lookup txid = some token)
    (t : Nat) :
    (owner.dropClaim token).byToken.lookup t =
      if t = token then none else owner.byToken.lookup t := by
  obtain ⟨_, _, -, -, hclaim⟩ := h.claim_of_token ht
  rw [PendingOutpointOwner.dropClaim_eq h.wf hclaim]
  exact lookup_erase_eq _ _ _

theorem removeClaimed (h : Linked txs tokens owner spare) (ht : tokens.lookup txid = some token) :
    Linked (txs.erase txid) (tokens.erase txid) (owner.dropClaim token) spare where
  wf := h.wf.dropClaim token
  recorded := by
    intro a entry ha hne
    obtain ⟨hat, ha⟩ := lookup_erase_eq_some.mp ha
    obtain ⟨token', generation, ht', hclaim⟩ := h.recorded a entry ha hne
    have htoken : token' ≠ token := fun heq => hat (h.token_inj (heq ▸ ht') ht)
    refine ⟨token', generation, lookup_erase_eq_some.mpr ⟨hat, ht'⟩, ?_⟩
    rw [h.lookup_dropClaim ht, if_neg htoken, hclaim]
  inputless := by
    intro a entry ha hnil
    obtain ⟨hat, ha⟩ := lookup_erase_eq_some.mp ha
    rw [lookup_erase_eq, if_neg hat, h.inputless a entry ha hnil]
  resident := by
    intro a token' hat
    obtain ⟨hne, hat⟩ := lookup_erase_eq_some.mp hat
    rw [lookup_erase_eq, if_neg hne]
    exact h.resident a token' hat
  claimed := by
    intro t claim hclaim
    rw [h.lookup_dropClaim ht] at hclaim
    split at hclaim
    · cases hclaim
    · rename_i hne
      rcases h.claimed t claim hclaim with hspare | hat
      · exact Or.inl hspare
      · have htxid : claim.txid ≠ txid := by
          intro heq
          rw [heq, ht] at hat
          exact hne (Option.some.inj hat).symm
        exact Or.inr (lookup_erase_eq_some.mpr ⟨htxid, hat⟩)
  apart := fun a token' hat => h.apart a token' (lookup_erase_eq_some.mp hat).2

end Linked

/-! ## 2. Removal -/

section removal

variable {pool : TxPool} {owner : PendingOutpointOwner} {spare : Option Nat}

/-- What is left after some residents have been removed. -/
structure Removed (pool : TxPool) (owner : PendingOutpointOwner) (spare : Option Nat)
    (gone : List Bytes32) (s : TxPool × PendingOutpointOwner) : Prop where
  pool_eq : ∃ heapSeqs usedBytes ownerTokens, s.1 = { pool with
    txs := eraseAll gone pool.txs, heapSeqs := heapSeqs, usedBytes := usedBytes,
    ownerTokens := ownerTokens }
  accounts : Accounts s.1.txs s.1.heapSeqs s.1.nextHeapId s.1.usedBytes
  linked : Linked s.1.txs s.1.ownerTokens s.2 spare
  spared : ∀ token, spare = some token → s.2.byToken.lookup token = owner.byToken.lookup token

theorem Removed.start (hacc : Accounts pool.txs pool.heapSeqs pool.nextHeapId pool.usedBytes)
    (hlink : Linked pool.txs pool.ownerTokens owner spare) :
    Removed pool owner spare [] (pool, owner) :=
  ⟨⟨_, _, _, rfl⟩, hacc, hlink, fun _ _ => rfl⟩

theorem Removed.step {gone : List Bytes32} {s : TxPool × PendingOutpointOwner}
    (h : Removed pool owner spare gone s) (txid : Bytes32) :
    Removed pool owner spare (gone ++ [txid]) (removeResident s txid) := by
  obtain ⟨⟨heapSeqs, usedBytes, ownerTokens, hpool⟩, hacc, hlink, hspared⟩ := h
  have htxs : s.1.txs = eraseAll gone pool.txs := by rw [hpool]
  unfold removeResident
  cases hentry : s.1.txs.lookup txid with
  | none =>
    have hsame : eraseAll (gone ++ [txid]) pool.txs = eraseAll gone pool.txs := by
      rw [eraseAll_snoc, ← htxs, erase_of_lookup_none hentry]
    exact ⟨⟨heapSeqs, usedBytes, ownerTokens, by rw [hsame]; exact hpool⟩, hacc, hlink, hspared⟩
  | some entry =>
    have hacc' := hacc.remove hentry
    have htxs' : s.1.txs.erase txid = eraseAll (gone ++ [txid]) pool.txs := by
      rw [eraseAll_snoc, htxs]
    dsimp only [removeEntryRaw]
    cases ht : s.1.ownerTokens.lookup txid with
    | none =>
      refine ⟨⟨s.1.heapSeqs.erase txid, s.1.usedBytes - entry.size, s.1.ownerTokens, ?_⟩, hacc',
        hlink.removeInputless ht, hspared⟩
      rw [htxs', hpool]
    | some token =>
      refine ⟨⟨s.1.heapSeqs.erase txid, s.1.usedBytes - entry.size, s.1.ownerTokens.erase txid, ?_⟩,
        hacc', hlink.removeClaimed ht, ?_⟩
      · rw [htxs', hpool]
      · intro t hspare
        have hne : t ≠ token := fun heq => hlink.apart txid token ht (heq ▸ hspare)
        change (s.2.dropClaim token).byToken.lookup t = _
        rw [hlink.lookup_dropClaim ht, if_neg hne]
        exact hspared t hspare

theorem removed_foldl (hacc : Accounts pool.txs pool.heapSeqs pool.nextHeapId pool.usedBytes)
    (hlink : Linked pool.txs pool.ownerTokens owner spare) (gone : List Bytes32) :
    Removed pool owner spare gone (gone.foldl removeResident (pool, owner)) := by
  suffices h : ∀ (rest done : List Bytes32) (s : TxPool × PendingOutpointOwner),
      Removed pool owner spare done s →
      Removed pool owner spare (done ++ rest) (rest.foldl removeResident s) from
    h gone [] _ (Removed.start hacc hlink)
  intro rest
  induction rest with
  | nil =>
    intro done s hs
    rwa [List.append_nil]
  | cons txid rest ih =>
    intro done s hs
    have hnext := ih (done ++ [txid]) _ (hs.step txid)
    rwa [List.append_assoc, List.singleton_append] at hnext

end removal

/-! ## 3. The eviction plan -/

section plan

variable {pool : TxPool} {candidate : TxPoolEntry}

/-- The entries of the plan pool are residents, and nothing is lost between it, the totals and
what has been evicted. -/
structure PlanInv (pool : TxPool) (candidate : TxPoolEntry) (plan : CapacityPlan) : Prop where
  residents : ∀ e ∈ plan.planPool, e.candidate = false → pool.txs.lookup e.txid = some e.entry
  count : plan.totalCount = plan.planPool.length
  bytes : plan.totalBytes + (plan.evicted.map (weightAt TxPoolEntry.size pool.txs)).sum =
    pool.usedBytes + candidate.size
  evictions : plan.totalCount + plan.evicted.length = pool.len + 1

/-- The plan after the loop over the residents. -/
structure Gathered (pool : TxPool) (start : CapacityPlan) (done : List Bytes32)
    (plan : CapacityPlan) : Prop where
  residents : ∀ e ∈ plan.planPool, pool.txs.lookup e.txid = some e.entry
  length : (∀ txid ∈ done, pool.txs.lookup txid ≠ none) → plan.planPool.length = done.length
  totals : plan.totalCount = start.totalCount ∧ plan.totalBytes = start.totalBytes ∧
    plan.evicted = start.evicted

variable {plan : CapacityPlan}

theorem gathered_step {start plan' : CapacityPlan} {done : List Bytes32}
    (h : Gathered pool start done plan) (hstep : pool.planResident plan txid = .ok plan') :
    Gathered pool start (done ++ [txid]) plan' := by
  unfold planResident at hstep
  cases hentry : pool.txs.lookup txid with
  | none =>
    rw [hentry] at hstep
    cases hstep
    refine ⟨h.residents, fun hall => absurd hentry (hall txid ?_), h.totals⟩
    exact List.mem_append_right _ List.mem_cons_self
  | some entry =>
    simp only [hentry, bind_eq_ok, exists_unit, Except.ok.injEq] at hstep
    obtain ⟨-, seq, -, -, -, rfl⟩ := hstep
    constructor
    · intro e he
      rcases List.mem_append.mp he with he | he
      · exact h.residents e he
      · cases List.mem_singleton.mp he
        exact hentry
    · intro hall
      have hlen := h.length fun a ha => hall a (List.mem_append_left _ ha)
      rw [List.length_append, List.length_append, hlen]
      rfl
    · exact h.totals

theorem planInv_evict {worst : CapacityPlanEntry} {i : Nat} (h : PlanInv pool candidate plan)
    (hworst : plan.planPool[i]? = some worst) (hresident : ¬ worst.candidate = true)
    (hsize : ¬ plan.totalBytes < worst.entry.size) :
    PlanInv pool candidate { plan with
      planPool := plan.planPool.eraseIdx i
      totalCount := plan.totalCount - 1
      totalBytes := plan.totalBytes - worst.entry.size
      evicted := plan.evicted ++ [worst.txid] } := by
  have hmem : worst ∈ plan.planPool := List.mem_of_getElem? hworst
  have hi : i < plan.planPool.length := (List.getElem?_eq_some_iff.mp hworst).1
  have hentry := h.residents worst hmem (Bool.eq_false_iff.mpr hresident)
  have hcount := h.count
  constructor
  · intro e he
    exact h.residents e (List.mem_of_mem_eraseIdx he)
  · dsimp only
    rw [List.length_eraseIdx_of_lt hi, hcount]
  · have hbytes := h.bytes
    dsimp only
    rw [List.map_append, List.sum_append, List.map_singleton, List.sum_singleton,
      weightAt_of_lookup hentry]
    omega
  · have hevictions := h.evictions
    dsimp only
    rw [List.length_append, List.length_singleton]
    omega

theorem planInv_evictWorst {targetBytes : Nat} {ordering : CapacityOrdering} (turns : Nat) :
    ∀ {plan plan' : CapacityPlan}, PlanInv pool candidate plan →
      pool.evictWorst targetBytes ordering turns plan = .ok plan' → PlanInv pool candidate plan' := by
  induction turns with
  | zero =>
    intro plan plan' h hrun
    cases hrun
    exact h
  | succ turns ih =>
    intro plan plan' h hrun
    rw [evictWorst] at hrun
    split at hrun
    · dsimp only at hrun
      cases hworst : plan.planPool[worstCapacityPlanIndex ordering plan.planPool]? with
      | none =>
        rw [hworst] at hrun
        cases hrun
        exact h
      | some worst =>
        simp only [hworst, check_bind_eq_ok, rejectIf_eq_ok] at hrun
        obtain ⟨hresident, hsize, hrun⟩ := hrun
        exact ih (planInv_evict h hworst hresident hsize) hrun
    · cases hrun
      exact h

/-- The evictions make room for the candidate. -/
structure Fits (pool : TxPool) (candidate : TxPoolEntry) (evicted : List Bytes32) : Prop where
  bytes : pool.usedBytes + candidate.size ≤
    pool.maxBytes + (evicted.map (weightAt TxPoolEntry.size pool.txs)).sum
  count : pool.len + 1 ≤ pool.maxTransactions + evicted.length

theorem fits_of_planInv (h : PlanInv pool candidate plan)
    (hcount : plan.totalCount ≤ pool.maxTransactions) (hbytes : plan.totalBytes ≤ pool.maxBytes) :
    Fits pool candidate plan.evicted := by
  have h1 := h.bytes
  have h2 := h.evictions
  constructor <;> omega

theorem evictUnderPressure_fits {bytePressure : Bool}
    (h : pool.evictUnderPressure ord txid candidate bytePressure = .ok evicted) :
    Fits pool candidate evicted := by
  simp only [evictUnderPressure, bind_eq_ok, exists_unit, rejectIf_eq_ok, not_or, not_lt,
    Except.ok.injEq] at h
  obtain ⟨plan, hgather, plan', hevict, ⟨hcount, hbytes⟩, rfl⟩ := h
  have hg : Gathered pool ⟨[], ∅, pool.len + 1, pool.usedBytes + candidate.size, []⟩
      (ord.order pool.txs.keys) plan := by
    refine foldlM_from_start (Gathered pool _) ?_ (fun _ _ _ _ h hstep => gathered_step h hstep)
      hgather
    exact ⟨List.forall_mem_nil _, fun _ => rfl, rfl, rfl, rfl⟩
  have hlen : plan.planPool.length = pool.len := by
    rw [hg.length, ord.length_order]
    · rfl
    · intro a ha hnone
      rw [ord.visits, Finmap.mem_keys] at ha
      exact Finmap.lookup_eq_none.mp hnone ha
  obtain ⟨htotal, hsum, hnil⟩ := hg.totals
  refine fits_of_planInv (planInv_evictWorst _ ?_ hevict) hcount hbytes
  constructor
  · intro e he hresident
    rcases List.mem_append.mp he with he | he
    · exact hg.residents e he
    · cases List.mem_singleton.mp he
      cases hresident
  · dsimp only
    rw [htotal, List.length_append, hlen]
    rfl
  · dsimp only
    rw [hsum, hnil]
    rfl
  · dsimp only
    rw [htotal, hnil]
    rfl

theorem capacityEvictionPlan_fits (h : pool.capacityEvictionPlan ord txid candidate = .ok evicted) :
    Fits pool candidate evicted := by
  simp only [capacityEvictionPlan, check_bind_eq_ok, rejectIf_eq_ok] at h
  obtain ⟨-, -, hsize, h⟩ := h
  split at h
  · rename_i hno
    cases h
    simp only [Bool.and_eq_true, Bool.not_eq_true', decide_eq_false_iff_not] at hno
    obtain ⟨hcount, hbytes⟩ := hno
    constructor
    · simp only [List.map_nil, List.sum_nil]
      omega
    · simp only [List.length_nil]
      omega
  · exact evictUnderPressure_fits h

end plan

/-! ## 4. Admission -/

/-- The books balance, and the limits hold. -/
structure Wf (pool : TxPool) : Prop where
  accounts : Accounts pool.txs pool.heapSeqs pool.nextHeapId pool.usedBytes
  bytes_le : pool.usedBytes ≤ pool.maxBytes
  count_le : pool.len ≤ pool.maxTransactions
  linked : ∀ owner, pool.owner = some owner → Linked pool.txs pool.ownerTokens owner none
  unowned : pool.owner = none → pool.txs = ∅ ∧ pool.ownerTokens = ∅

section admission

variable {pool : TxPool}

/-- The owner an admission works with. -/
def ownerAt (pool : TxPool) (chainState : ChainState) : PendingOutpointOwner :=
  pool.owner.getD (.new (.fromChainState chainState))

theorem linked_empty (context : PendingOutpointAdmissionContext) :
    Linked ∅ ∅ (.newWithContext context) none where
  wf := PendingOutpointOwner.wf_new context
  recorded := fun _ _ h => by simp at h
  inputless := fun _ _ h => by simp at h
  resident := fun _ _ h => by simp at h
  claimed := fun _ _ h => by simp [PendingOutpointOwner.newWithContext] at h
  apart := fun _ _ h => by simp at h

theorem Wf.linkedAt (h : pool.Wf) (chainState : ChainState) :
    Linked pool.txs pool.ownerTokens (pool.ownerAt chainState) none := by
  cases howner : pool.owner with
  | none =>
    obtain ⟨htxs, htokens⟩ := h.unowned howner
    rw [ownerAt, howner, htxs, htokens]
    exact linked_empty _
  | some owner =>
    rw [ownerAt, howner]
    exact h.linked owner howner

variable {context : PendingOutpointAdmissionContext}

theorem Linked.reserve {inputs : List Outpoint} (h : Linked txs tokens owner none)
    (hres : PendingOutpointOwner.Reserved owner context txid inputs token owner') :
    Linked txs tokens owner' (some token) := by
  have hclaims : owner'.byToken =
      owner.byToken.insert token ⟨txid, inputs, owner.generation, false⟩ := by rw [hres.owner_eq]
  have hold : ∀ t claim, owner.byToken.lookup t = some claim → t ≠ token := by
    intro t claim hclaim heq
    have hle := (h.wf.issued t claim hclaim).2
    rw [hres.token_eq] at heq
    omega
  constructor
  · exact h.wf.reserve hres
  · intro a entry ha hne
    obtain ⟨t, generation, ht, hclaim⟩ := h.recorded a entry ha hne
    exact ⟨t, generation, ht, by rw [hclaims, lookup_insert_eq, if_neg (hold t _ hclaim), hclaim]⟩
  · exact h.inputless
  · exact h.resident
  · intro t claim hclaim
    rw [hclaims] at hclaim
    rcases lookup_insert_eq_some.mp hclaim with ⟨heq, -⟩ | ⟨-, hclaim⟩
    · exact Or.inl (congrArg some heq.symm)
    · rcases h.claimed t claim hclaim with hspare | ht
      · cases hspare
      · exact Or.inr ht
  · intro a t ht heq
    obtain ⟨_, _, -, -, hclaim⟩ := h.claim_of_token ht
    exact hold t _ hclaim (Option.some.inj heq).symm

theorem Linked.insertInputless (h : Linked txs tokens owner none) (hnew : txs.lookup txid = none)
    (hnil : entry.inputs = []) : Linked (txs.insert txid entry) tokens owner none where
  wf := h.wf
  recorded := by
    intro a e ha hne
    rcases lookup_insert_eq_some.mp ha with ⟨-, rfl⟩ | ⟨-, ha⟩
    · exact absurd hnil hne
    · exact h.recorded a e ha hne
  inputless := by
    intro a e ha he
    rcases lookup_insert_eq_some.mp ha with ⟨heq, -⟩ | ⟨-, ha⟩
    · cases ht : tokens.lookup a with
      | none => rfl
      | some token =>
        obtain ⟨e', he'⟩ := h.resident a token ht
        rw [heq, hnew] at he'
        cases he'
    · exact h.inputless a e ha he
  resident := by
    intro a token ht
    obtain ⟨e, he⟩ := h.resident a token ht
    rw [lookup_insert_eq]
    split
    · exact ⟨entry, rfl⟩
    · exact ⟨e, he⟩
  claimed := h.claimed
  apart := h.apart

theorem Linked.insertClaimed {generation : Nat} (h : Linked txs tokens owner (some token))
    (hnew : txs.lookup txid = none) (hne : entry.inputs ≠ [])
    (hclaim : owner.byToken.lookup token = some ⟨txid, entry.inputs, generation, false⟩) :
    Linked (txs.insert txid entry) (tokens.insert txid token)
      (owner.finalizeAfterValidation token) none := by
  have hclaims : (owner.finalizeAfterValidation token).byToken =
      owner.byToken.insert token ⟨txid, entry.inputs, generation, true⟩ := by
    rw [PendingOutpointOwner.finalizeAfterValidation, hclaim]
  constructor
  · exact h.wf.finalizeAfterValidation token
  · intro a e ha hea
    rw [hclaims]
    rcases lookup_insert_eq_some.mp ha with ⟨rfl, rfl⟩ | ⟨hat, ha⟩
    · exact ⟨token, generation, Finmap.lookup_insert _, Finmap.lookup_insert _⟩
    · obtain ⟨t, g, ht, hc⟩ := h.recorded a e ha hea
      have htoken : t ≠ token := fun heq => h.apart a t ht (heq ▸ rfl)
      exact ⟨t, g, lookup_insert_eq_some.mpr (.inr ⟨hat, ht⟩),
        lookup_insert_eq_some.mpr (.inr ⟨htoken, hc⟩)⟩
  · intro a e ha hnil
    rcases lookup_insert_eq_some.mp ha with ⟨-, rfl⟩ | ⟨hat, ha⟩
    · exact absurd hnil hne
    · rw [lookup_insert_eq, if_neg hat]
      exact h.inputless a e ha hnil
  · intro a t ht
    rw [lookup_insert_eq]
    rcases lookup_insert_eq_some.mp ht with ⟨heq, -⟩ | ⟨hat, ht⟩
    · exact ⟨entry, if_pos heq⟩
    · rw [if_neg hat]
      exact h.resident a t ht
  · intro t claim hc
    rw [hclaims] at hc
    rcases lookup_insert_eq_some.mp hc with ⟨rfl, rfl⟩ | ⟨hne', hc⟩
    · exact Or.inr (Finmap.lookup_insert _)
    · rcases h.claimed t claim hc with hspare | ht
      · exact absurd (Option.some.inj hspare).symm hne'
      · have htxid : claim.txid ≠ txid := by
          intro heq
          obtain ⟨e', he'⟩ := h.resident _ t ht
          rw [heq, hnew] at he'
          cases he'
        exact Or.inr (lookup_insert_eq_some.mpr (.inr ⟨htxid, ht⟩))
  · intro _ _ _ hspare
    cases hspare

/-- What a commit needs, and what it leaves. -/
structure Committed (pool : TxPool) (owner : PendingOutpointOwner) (txid : Bytes32)
    (entry : TxPoolEntry) (token : Option Nat) (pool' : TxPool) : Prop where
  plan : ∃ evicted, Fits pool entry evicted ∧ evicted.Nodup ∧
    (∀ victim ∈ evicted, ∃ e, pool.txs.lookup victim = some e) ∧
    pool' = pool.applyStandardDelta owner txid entry token evicted

theorem admitReserved_ok {txBytes : Bytes} {source : TxSource} {tx : CheckedTx}
    {reservation : Option Nat}
    (h : pool.admitReserved ord owner context txBytes source tx reservation = .ok pool') :
    Committed pool owner tx.txid ⟨txBytes, tx.inputs, tx.fee, tx.weight, txBytes.length, source⟩
      reservation pool' := by
  simp only [admitReserved, commitStandardDelta, validateStandardDelta, atStage, atOwner,
    bind_eq_ok, exists_unit, mapError_eq_ok, rejectIf_eq_ok, okOr_eq_ok, forEach_eq_ok, not_or,
    not_not, Except.ok.injEq] at h
  obtain ⟨-, evicted, hplan, -, ⟨-, -, hshape, -, -, hvictims⟩, rfl⟩ := h
  refine ⟨evicted, capacityEvictionPlan_fits hplan, hshape.2, fun victim hv => ?_, rfl⟩
  obtain ⟨e, he, -⟩ := hvictims victim hv
  exact ⟨e, he⟩

/-- The owner before the commit, with the candidate's claim if it has inputs. -/
def Prepared (pool : TxPool) (owner : PendingOutpointOwner) (txid : Bytes32) (inputs : List Outpoint)
    (token : Option Nat) : Prop :=
  Linked pool.txs pool.ownerTokens owner token ∧
    match token with
    | none => inputs = []
    | some token => inputs ≠ [] ∧ ∃ generation,
        owner.byToken.lookup token = some ⟨txid, inputs, generation, false⟩

theorem Wf.withOwner (h : pool.Wf) (hlink : Linked pool.txs pool.ownerTokens owner none) :
    TxPool.Wf { pool with owner := some owner } where
  accounts := h.accounts
  bytes_le := h.bytes_le
  count_le := h.count_le
  linked := by
    intro o ho
    cases ho
    exact hlink
  unowned := by
    intro ho
    cases ho

theorem Fits.after_commit (hfits : Fits pool entry evicted)
    (hused : pool.usedBytes = total TxPoolEntry.size pool.txs) (hnodup : evicted.Nodup)
    (hmem : ∀ victim ∈ evicted, ∃ e, pool.txs.lookup victim = some e)
    (hnew : pool.txs.lookup txid = none) :
    ((eraseAll evicted pool.txs).insert txid entry).keys.card ≤ pool.maxTransactions ∧
      total TxPoolEntry.size (eraseAll evicted pool.txs) + entry.size ≤ pool.maxBytes := by
  have hnew' : (eraseAll evicted pool.txs).lookup txid = none := lookup_eraseAll_none hnew evicted
  have hcard := card_eraseAll evicted pool.txs hnodup hmem
  have hsum := total_eraseAll TxPoolEntry.size evicted pool.txs hnodup
  have hcount := hfits.count
  have hbytes := hfits.bytes
  rw [TxPool.len] at hcount
  rw [hused] at hbytes
  rw [card_insert hnew']
  omega

theorem Wf.commit {token : Option Nat} (h : pool.Wf) (hnew : pool.txs.lookup txid = none)
    (hprep : Prepared pool owner txid entry.inputs token)
    (hcommit : Committed pool owner txid entry token pool') : pool'.Wf := by
  obtain ⟨evicted, hfits, hnodup, hmem, rfl⟩ := hcommit
  obtain ⟨hlink, hclaim⟩ := hprep
  obtain ⟨⟨heapSeqs, usedBytes, ownerTokens, hpool⟩, hacc, hlink', hspared⟩ :=
    removed_foldl h.accounts hlink evicted
  have hnew' : (eraseAll evicted pool.txs).lookup txid = none := lookup_eraseAll_none hnew evicted
  rw [hpool] at hacc hlink'
  obtain ⟨hcount, hbytes⟩ := hfits.after_commit h.accounts.used hnodup hmem hnew
  have hused : usedBytes + entry.size ≤ pool.maxBytes := by
    have hleft : usedBytes = total TxPoolEntry.size (eraseAll evicted pool.txs) := hacc.used
    omega
  cases token with
  | none =>
    simp only [applyStandardDelta, insertEntryRaw, hpool]
    exact {
      accounts := hacc.insert hnew' entry
      bytes_le := hused
      count_le := hcount
      linked := by
        intro o ho
        cases ho
        exact hlink'.insertInputless hnew' hclaim
      unowned := by
        intro ho
        cases ho }
  | some token =>
    obtain ⟨hne, generation, hclaim⟩ := hclaim
    simp only [applyStandardDelta, insertEntryRaw, hpool]
    exact {
      accounts := hacc.insert hnew' entry
      bytes_le := hused
      count_le := hcount
      linked := by
        intro o ho
        cases ho
        exact hlink'.insertClaimed hnew' hne ((hspared token rfl).trans hclaim)
      unowned := by
        intro ho
        cases ho }

theorem reserveInputs_ok {inputs : List Outpoint} {token : Option Nat}
    (hlink : Linked pool.txs pool.ownerTokens owner none)
    (h : reserveInputs owner context txid inputs = .ok (token, owner')) :
    Prepared pool owner' txid inputs token ∧ ∃ highWater, owner.tokenHighWater ≤ highWater ∧
      releaseReservation owner' token = { owner with tokenHighWater := highWater } := by
  unfold reserveInputs at h
  split at h
  · rename_i hnil
    cases h
    exact ⟨⟨hlink, hnil⟩, owner.tokenHighWater, Nat.le_refl _, rfl⟩
  · rename_i hne
    simp only [bind_eq_ok, Prod.exists, Except.ok.injEq, Prod.mk.injEq] at h
    obtain ⟨token', owner₁, hres, rfl, rfl⟩ := h
    have hres := PendingOutpointOwner.reserve_ok hres
    refine ⟨⟨hlink.reserve hres, hne, owner.generation, ?_⟩, token', ?_, ?_⟩
    · rw [hres.owner_eq]
      exact Finmap.lookup_insert _
    · rw [hres.token_eq]
      exact Nat.le_succ _
    · rw [releaseReservation, PendingOutpointOwner.release_reserved hlink.wf hres]

/-- Nothing but the owner's high-water mark has moved. -/
def OnlyHighWater (pool : TxPool) (chainState : ChainState) (pool' : TxPool) : Prop :=
  ∃ highWater, (pool.ownerAt chainState).tokenHighWater ≤ highWater ∧
    pool' = { pool with
      owner := some { pool.ownerAt chainState with tokenHighWater := highWater } }

theorem admissionContext_owner (h : (pool.admissionContext chainState).2 = .ok (owner, context)) :
    owner = pool.ownerAt chainState := by
  simp only [admissionContext, bind_eq_ok, exists_unit, Except.ok.injEq, Prod.mk.injEq] at h
  obtain ⟨-, -, -, rfl, -⟩ := h
  rfl

theorem onlyHighWater_opened (pool : TxPool) (chainState : ChainState) :
    OnlyHighWater pool chainState (pool.admissionContext chainState).1 :=
  ⟨(pool.ownerAt chainState).tokenHighWater, Nat.le_refl _, rfl⟩

theorem Wf.opened (h : pool.Wf) (chainState : ChainState) :
    (pool.admissionContext chainState).1.Wf :=
  h.withOwner (h.linkedAt chainState)

/-- **Admission.**  It keeps the books, and where it fails only the high-water mark has moved. -/
theorem addTxStaged_spec [Crypto] (h : pool.Wf) (ord : VisitOrder Bytes32) (txBytes : Bytes)
    (chainState : ChainState) (blockStore : Option BlockStore) (chainId : Bytes32)
    (source : TxSource) :
    match addTxStaged ord txBytes chainState blockStore chainId source pool with
    | .ok _ pool' => pool'.Wf
    | .error _ pool' => OnlyHighWater pool chainState pool' := by
  unfold addTxStaged
  dsimp only
  cases hopen : (pool.admissionContext chainState).2 with
  | error e => exact onlyHighWater_opened pool chainState
  | ok opened =>
    obtain ⟨owner, context⟩ := opened
    have howner := admissionContext_owner hopen
    cases checkTransaction txBytes chainState blockStore chainId pool.cfg with
    | error failure => exact onlyHighWater_opened pool chainState
    | ok tx =>
      dsimp only [admitChecked]
      have hwf := h.opened chainState
      have hlink : Linked (pool.admissionContext chainState).1.txs
          (pool.admissionContext chainState).1.ownerTokens owner none := by
        rw [howner]
        exact h.linkedAt chainState
      by_cases hnew : (pool.admissionContext chainState).1.txs.lookup tx.txid ≠ none
      · rw [if_pos hnew]
        exact onlyHighWater_opened pool chainState
      · rw [if_neg hnew]
        cases hres : reserveInputs owner context tx.txid tx.inputs with
        | error e => exact onlyHighWater_opened pool chainState
        | ok reserved =>
          obtain ⟨token, owner'⟩ := reserved
          obtain ⟨hprep, highWater, hle, hrelease⟩ := reserveInputs_ok hlink hres
          dsimp only
          cases hadmit : (pool.admissionContext chainState).1.admitReserved ord owner' context
              txBytes source tx token with
          | error failure =>
            dsimp only
            rw [hrelease, howner]
            exact ⟨highWater, howner ▸ hle, rfl⟩
          | ok pool' => exact hwf.commit (not_not.mp hnew) hprep (admitReserved_ok hadmit)

end admission

/-! ## 5. Evictions evict -/

section eviction

variable {pool : TxPool}

theorem mem_liveTxids {txids : List Bytes32} :
    txid ∈ pool.liveTxids txids ↔ txid ∈ txids ∧ pool.txs.lookup txid ≠ none := by
  suffices h : ∀ (rest live : List Bytes32), txid ∈ rest.foldl (fun live txid =>
      if pool.txs.lookup txid ≠ none ∧ txid ∉ live then live ++ [txid] else live) live ↔
        txid ∈ live ∨ txid ∈ rest ∧ pool.txs.lookup txid ≠ none by
    rw [liveTxids, h]
    simp
  intro rest
  induction rest with
  | nil => simp
  | cons a rest ih =>
    intro live
    rw [List.foldl_cons, ih, List.mem_cons]
    by_cases ha : txid = a
    · subst ha
      split
      · rename_i hnew
        simp [hnew.1]
      · rename_i hold
        by_cases hres : pool.txs.lookup txid = none
        · simp [hres]
        · have hlive : txid ∈ live := by
            by_contra hnot
            exact hold ⟨hres, hnot⟩
          simp [hlive]
    · split
      · simp [ha]
      · simp [ha]

theorem eraseAll_liveTxids (pool : TxPool) (txids : List Bytes32) :
    eraseAll (pool.liveTxids txids) pool.txs = eraseAll txids pool.txs := by
  refine Finmap.ext_lookup fun k => ?_
  rw [lookup_eraseAll, lookup_eraseAll]
  by_cases hlive : k ∈ pool.liveTxids txids
  · rw [if_pos hlive, if_pos (mem_liveTxids.mp hlive).1]
  · rw [if_neg hlive]
    split
    · rename_i hk
      by_contra hres
      exact hlive (mem_liveTxids.mpr ⟨hk, hres⟩)
    · rfl

theorem Wf.removed (h : pool.Wf) {gone : List Bytes32} {s : TxPool × PendingOutpointOwner}
    (hgone : Removed pool owner none gone s) : TxPool.Wf { s.1 with owner := some s.2 } := by
  obtain ⟨⟨heapSeqs, usedBytes, ownerTokens, hpool⟩, hacc, hlink, -⟩ := hgone
  rw [hpool] at hacc hlink ⊢
  exact {
    accounts := hacc
    bytes_le := by
      have hused : usedBytes = total TxPoolEntry.size (eraseAll gone pool.txs) := hacc.used
      have hle := total_eraseAll_le TxPoolEntry.size gone pool.txs
      have hmax := h.bytes_le
      rw [h.accounts.used] at hmax
      dsimp only
      omega
    count_le := (card_eraseAll_le gone pool.txs).trans h.count_le
    linked := by
      intro o ho
      cases ho
      exact hlink
    unowned := by
      intro ho
      cases ho }

/-- **Evictions evict.**  The validation in front of a removal cannot fail, so the named residents
go, all of them, and nobody else does. -/
theorem removeEntriesExact_spec (h : pool.Wf) (txids : List Bytes32) :
    (pool.removeEntriesExact txids).Wf ∧
      (pool.removeEntriesExact txids).txs = eraseAll txids pool.txs := by
  unfold removeEntriesExact
  dsimp only
  rw [← eraseAll_liveTxids]
  by_cases hlive : pool.liveTxids txids = []
  · rw [if_pos hlive, hlive]
    exact ⟨h, rfl⟩
  · rw [if_neg hlive]
    cases howner : pool.owner with
    | none =>
      -- without an owner there is no resident yet
      obtain ⟨a, ha⟩ := List.exists_mem_of_ne_nil _ hlive
      have hres := (mem_liveTxids.mp ha).2
      rw [(h.unowned howner).1] at hres
      exact absurd (Finmap.lookup_empty a) hres
    | some owner =>
      have hlink := h.linked owner howner
      have hvalid : pool.removalValid owner (pool.liveTxids txids) = true := by
        rw [removalValid, List.all_eq_true]
        intro txid htxid
        cases hentry : pool.txs.lookup txid with
        | none => exact absurd hentry (mem_liveTxids.mp htxid).2
        | some entry =>
          dsimp only
          rw [hlink.validateStandardEntry hentry]
          rfl
      dsimp only
      rw [if_pos hvalid]
      have hgone := removed_foldl h.accounts hlink (pool.liveTxids txids)
      refine ⟨h.removed hgone, ?_⟩
      obtain ⟨_, _, _, hpool⟩ := hgone.pool_eq
      rw [hpool]

theorem mem_conflictingTxids {outpoints : List Outpoint} {op : Outpoint} (hop : op ∈ outpoints)
    (htxid : owner.txidForOutpoint op = some txid) : txid ∈ conflictingTxids owner outpoints := by
  refine foldl_finds (fun found => txid ∈ found) (fun found a hfound => ?_) (fun found => ?_) [] hop
  · split
    · split
      · exact List.mem_append_left _ hfound
      · exact hfound
    · exact hfound
  · rw [htxid]
    by_cases hin : txid ∈ found
    · simp [hin]
    · simp [hin]

theorem removeConflictingOutpoints_spec (h : pool.Wf) (outpoints : List Outpoint) :
    (pool.removeConflictingOutpoints outpoints).Wf ∧
      ∀ txid entry op, (pool.removeConflictingOutpoints outpoints).txs.lookup txid = some entry →
        op ∈ entry.inputs → op ∉ outpoints := by
  unfold removeConflictingOutpoints
  cases howner : pool.owner with
  | none =>
    refine ⟨h, fun txid entry op hentry => ?_⟩
    rw [(h.unowned howner).1, Finmap.lookup_empty] at hentry
    cases hentry
  | some owner =>
    have hspec := removeEntriesExact_spec h (conflictingTxids owner outpoints)
    refine ⟨hspec.1, fun txid entry op hentry hop hmem => ?_⟩
    change (pool.removeEntriesExact _).txs.lookup txid = some entry at hentry
    rw [hspec.2, lookup_eraseAll] at hentry
    split at hentry
    · cases hentry
    · rename_i hnot
      have hlink := h.linked owner howner
      obtain ⟨token, generation, -, hclaim⟩ :=
        hlink.recorded txid entry hentry (List.ne_nil_of_mem hop)
      have hrow := hlink.wf.indexed.lookup hclaim hop
      refine hnot (mem_conflictingTxids hmem ?_)
      rw [PendingOutpointOwner.txidForOutpoint, hrow]
      rfl

end eviction

/-! ## 6. Runs -/

/-- The calls on a pool, and what the sync engine does to the owner in between. -/
inductive PoolOp where
  | addTxWithSource (ord : VisitOrder Bytes32) (txBytes : Bytes) (chainState : ChainState)
      (blockStore : Option BlockStore) (chainId : Bytes32) (source : TxSource)
  | evictTxids (txids : List Bytes32)
  | removeConflictingOutpoints (outpoints : List Outpoint)
  | beginTransition
  | commitStableTip (tip : PendingOutpointTip)
  | reopenOldTip

/-- A transition of the owner; one that fails changes nothing. -/
def onOwner (pool : TxPool)
    (f : PendingOutpointOwner → Except PendingOutpointError PendingOutpointOwner) : TxPool :=
  match pool.owner with
  | none => pool
  | some owner =>
    match f owner with
    | .ok owner' => { pool with owner := some owner' }
    | .error _ => pool

def poolAfter {ε α : Type} : EStateM.Result ε TxPool α → TxPool
  | .ok _ pool => pool
  | .error _ pool => pool

def PoolOp.apply [Crypto] (pool : TxPool) : PoolOp → TxPool
  | .addTxWithSource ord txBytes chainState blockStore chainId source =>
    poolAfter (TxPool.addTxWithSource ord txBytes chainState blockStore chainId source pool)
  | .evictTxids txids => pool.evictTxids txids
  | .removeConflictingOutpoints outpoints => pool.removeConflictingOutpoints outpoints
  | .beginTransition => pool.onOwner PendingOutpointOwner.beginTransition
  | .commitStableTip tip => pool.onOwner fun owner => owner.commitStableTip tip
  | .reopenOldTip => pool.onOwner PendingOutpointOwner.reopenOldTip

def run [Crypto] (pool : TxPool) (ops : List PoolOp) : TxPool := ops.foldl PoolOp.apply pool

/-- Nothing in the pool, and nothing claimed at its owner. -/
structure Fresh (pool : TxPool) : Prop where
  txs : pool.txs = ∅
  ownerTokens : pool.ownerTokens = ∅
  heapSeqs : pool.heapSeqs = ∅
  usedBytes : pool.usedBytes = 0
  owner : ∀ owner, pool.owner = some owner → owner.byToken = ∅ ∧ owner.byOutpoint = ∅

section runs

variable {pool : TxPool}

theorem Fresh.wf (h : pool.Fresh) : pool.Wf where
  accounts := by
    rw [h.txs, h.heapSeqs, h.usedBytes]
    exact ⟨rfl, fun _ _ hs => by simp at hs, fun _ _ _ hs => by simp at hs, (total_empty _).symm⟩
  bytes_le := by
    rw [h.usedBytes]
    exact Nat.zero_le _
  count_le := by
    rw [TxPool.len, h.txs, Finmap.keys_empty, Finset.card_empty]
    exact Nat.zero_le _
  linked := by
    intro owner howner
    obtain ⟨hclaims, hrows⟩ := h.owner owner howner
    rw [h.txs, h.ownerTokens]
    constructor
    · refine ⟨?_, fun t c hc => ?_⟩
      · rw [hclaims, hrows]
        exact Indexed.empty
      · rw [hclaims] at hc
        simp at hc
    · exact fun _ _ hs => by simp at hs
    · exact fun _ _ hs => by simp at hs
    · exact fun _ _ hs => by simp at hs
    · intro t c hc
      rw [hclaims] at hc
      simp at hc
    · exact fun _ _ hs => by simp at hs
  unowned := fun _ => ⟨h.txs, h.ownerTokens⟩

theorem Linked.of_same {spare : Option Nat} (h : Linked txs tokens owner spare)
    (hsame : owner'.byToken = owner.byToken ∧ owner'.byOutpoint = owner.byOutpoint ∧
      owner.tokenHighWater ≤ owner'.tokenHighWater) : Linked txs tokens owner' spare := by
  obtain ⟨hclaims, hrows, hhigh⟩ := hsame
  constructor
  · refine ⟨?_, fun t c hc => ?_⟩
    · rw [hclaims, hrows]
      exact h.wf.indexed
    · rw [hclaims] at hc
      have := h.wf.issued t c hc
      omega
  · rw [hclaims]
    exact h.recorded
  · exact h.inputless
  · exact h.resident
  · rw [hclaims]
    exact h.claimed
  · exact h.apart

theorem Wf.onOwner (h : pool.Wf)
    {f : PendingOutpointOwner → Except PendingOutpointError PendingOutpointOwner}
    (hf : ∀ owner owner', f owner = .ok owner' → owner'.byToken = owner.byToken ∧
      owner'.byOutpoint = owner.byOutpoint ∧ owner'.tokenHighWater = owner.tokenHighWater) :
    (pool.onOwner f).Wf := by
  unfold TxPool.onOwner
  cases howner : pool.owner with
  | none => exact h
  | some owner =>
    dsimp only
    cases hok : f owner with
    | error e => exact h
    | ok owner' =>
      obtain ⟨hclaims, hrows, hhigh⟩ := hf owner owner' hok
      exact h.withOwner ((h.linked owner howner).of_same ⟨hclaims, hrows, hhigh.ge⟩)

theorem Wf.onlyHighWater (h : pool.Wf) (hsame : OnlyHighWater pool chainState pool') :
    pool'.Wf := by
  obtain ⟨highWater, hle, rfl⟩ := hsame
  exact h.withOwner ((h.linkedAt chainState).of_same ⟨rfl, rfl, hle⟩)

theorem addTxWithSource_error [Crypto] (h : pool.Wf) {txBytes : Bytes}
    {blockStore : Option BlockStore} {chainId : Bytes32} {source : TxSource}
    {error : TxPoolAdmitError}
    (herr : TxPool.addTxWithSource ord txBytes chainState blockStore chainId source pool =
      .error error pool') : OnlyHighWater pool chainState pool' := by
  have hspec := addTxStaged_spec h ord txBytes chainState blockStore chainId source
  unfold TxPool.addTxWithSource at herr
  cases hstaged : addTxStaged ord txBytes chainState blockStore chainId source pool with
  | ok r p =>
    rw [hstaged] at herr
    cases herr
  | error failure p =>
    rw [hstaged] at herr hspec
    cases herr
    exact hspec

theorem PoolOp.keeps [Crypto] (h : pool.Wf) (op : PoolOp) : (op.apply pool).Wf := by
  cases op with
  | addTxWithSource ord txBytes chainState blockStore chainId source =>
    have hspec := addTxStaged_spec h ord txBytes chainState blockStore chainId source
    simp only [PoolOp.apply, TxPool.addTxWithSource]
    cases hstaged : addTxStaged ord txBytes chainState blockStore chainId source pool with
    | ok r p =>
      rw [hstaged] at hspec
      exact hspec
    | error failure p =>
      rw [hstaged] at hspec
      exact h.onlyHighWater hspec
  | evictTxids txids => exact (removeEntriesExact_spec h txids).1
  | removeConflictingOutpoints outpoints => exact (removeConflictingOutpoints_spec h outpoints).1
  | beginTransition =>
    exact h.onOwner fun _ _ hok => PendingOutpointOwner.transition_keeps (Or.inl hok)
  | commitStableTip tip =>
    exact h.onOwner fun _ _ hok => PendingOutpointOwner.transition_keeps (Or.inr (Or.inl ⟨tip, hok⟩))
  | reopenOldTip =>
    exact h.onOwner fun _ _ hok => PendingOutpointOwner.transition_keeps (Or.inr (Or.inr hok))

theorem run_keeps [Crypto] (ops : List PoolOp) : ∀ {pool : TxPool}, pool.Wf → (pool.run ops).Wf := by
  induction ops with
  | nil => exact fun h => h
  | cons op ops ih => exact fun h => ih (PoolOp.keeps h op)

end runs

/-! ## 7. The invariant, spelled out -/

/-- The rows of the owner; no owner has no rows. -/
def rows (pool : TxPool) : Finmap fun _ : Outpoint => PendingOutpointRow :=
  match pool.owner with
  | none => ∅
  | some owner => owner.byOutpoint

def claims (pool : TxPool) : Finmap fun _ : Nat => PendingOutpointClaim :=
  match pool.owner with
  | none => ∅
  | some owner => owner.byToken

/-- What holds of a pool between two calls. -/
structure Balanced (pool : TxPool) : Prop where
  sequenced : pool.heapSeqs.keys = pool.txs.keys
  distinct : ∀ txid txid' seq, pool.heapSeqs.lookup txid = some seq →
    pool.heapSeqs.lookup txid' = some seq → txid = txid'
  positive : ∀ txid seq, pool.heapSeqs.lookup txid = some seq → 0 < seq ∧ seq ≤ pool.nextHeapId
  used : pool.usedBytes = ∑ txid ∈ pool.txs.keys, weightAt TxPoolEntry.size pool.txs txid
  bytes_le : pool.usedBytes ≤ pool.maxBytes
  count_le : pool.txs.keys.card ≤ pool.maxTransactions
  disjoint : ∀ txid txid' entry entry' op, pool.txs.lookup txid = some entry →
    pool.txs.lookup txid' = some entry' → op ∈ entry.inputs → op ∈ entry'.inputs → txid = txid'
  rows : ∀ op row, pool.rows.lookup op = some row ↔ ∃ entry generation,
    pool.txs.lookup row.txid = some entry ∧ op ∈ entry.inputs ∧
    pool.ownerTokens.lookup row.txid = some row.sequence ∧
    pool.claims.lookup row.sequence = some ⟨row.txid, entry.inputs, generation, true⟩

/-- Residents, sequences, byte count and everything at the owner but the high-water mark. -/
structure Unchanged (pool pool' : TxPool) : Prop where
  txs : pool'.txs = pool.txs
  heapSeqs : pool'.heapSeqs = pool.heapSeqs
  nextHeapId : pool'.nextHeapId = pool.nextHeapId
  usedBytes : pool'.usedBytes = pool.usedBytes
  ownerTokens : pool'.ownerTokens = pool.ownerTokens
  rows : pool'.rows = pool.rows
  claims : pool'.claims = pool.claims
  fence : ∀ owner, pool.owner = some owner → ∃ owner', pool'.owner = some owner' ∧
    owner'.generation = owner.generation ∧ owner'.transition = owner.transition ∧
    owner'.unavailable = owner.unavailable ∧ owner'.stableTip = owner.stableTip ∧
    owner.tokenHighWater ≤ owner'.tokenHighWater

section balanced

variable {pool : TxPool}

theorem Wf.rows_iff (h : pool.Wf) (op : Outpoint) (row : PendingOutpointRow) :
    pool.rows.lookup op = some row ↔ ∃ entry generation,
      pool.txs.lookup row.txid = some entry ∧ op ∈ entry.inputs ∧
      pool.ownerTokens.lookup row.txid = some row.sequence ∧
      pool.claims.lookup row.sequence = some ⟨row.txid, entry.inputs, generation, true⟩ := by
  unfold TxPool.rows TxPool.claims
  cases howner : pool.owner with
  | none =>
    obtain ⟨htxs, -⟩ := h.unowned howner
    rw [htxs]
    simp
  | some owner =>
    have hlink := h.linked owner howner
    dsimp only
    constructor
    · intro hrow
      obtain ⟨token, claim, hclaim, hop, rfl⟩ := (hlink.wf.indexed op row).mp hrow
      rcases hlink.claimed token claim hclaim with hspare | ht
      · cases hspare
      · obtain ⟨entry, generation, hentry, -, hclaim'⟩ := hlink.claim_of_token ht
        rw [hclaim] at hclaim'
        have heq := Option.some.inj hclaim'
        refine ⟨entry, generation, hentry, ?_, ht, hclaim.trans (congrArg some heq)⟩
        rw [heq] at hop
        exact hop
    · rintro ⟨entry, generation, -, hop, -, hclaim⟩
      exact hlink.wf.indexed.lookup hclaim hop

theorem Wf.balanced (h : pool.Wf) : pool.Balanced where
  sequenced := h.accounts.sequenced
  distinct := h.accounts.distinct
  positive := h.accounts.positive
  used := h.accounts.used
  bytes_le := h.bytes_le
  count_le := h.count_le
  disjoint := by
    intro a b entry entry' op ha hb hop hop'
    cases howner : pool.owner with
    | none =>
      rw [(h.unowned howner).1, Finmap.lookup_empty] at ha
      cases ha
    | some owner =>
      have hlink := h.linked owner howner
      obtain ⟨t, g, ht, hc⟩ := hlink.recorded a entry ha (List.ne_nil_of_mem hop)
      obtain ⟨t', g', ht', hc'⟩ := hlink.recorded b entry' hb (List.ne_nil_of_mem hop')
      have htt := hlink.wf.indexed.exclusive claimRow_token hc hop hc' hop'
      exact hlink.token_inj ht (htt ▸ ht')
  rows := h.rows_iff

theorem OnlyHighWater.unchanged (h : OnlyHighWater pool chainState pool') :
    Unchanged pool pool' := by
  obtain ⟨highWater, hle, rfl⟩ := h
  cases howner : pool.owner with
  | none =>
    exact ⟨rfl, rfl, rfl, rfl, rfl, by simp [TxPool.rows, ownerAt, howner]; rfl,
      by simp [TxPool.claims, ownerAt, howner]; rfl, fun o ho => by cases howner.symm.trans ho⟩
  | some owner =>
    rw [ownerAt, howner] at hle
    refine ⟨rfl, rfl, rfl, rfl, rfl, by simp [TxPool.rows, ownerAt, howner],
      by simp [TxPool.claims, ownerAt, howner], fun o ho => ?_⟩
    cases howner.symm.trans ho
    refine ⟨_, rfl, ?_⟩
    rw [ownerAt, howner]
    exact ⟨rfl, rfl, rfl, rfl, hle⟩

end balanced

end TxPool

noncomputable def anyOrder : VisitOrder Bytes32 :=
  ⟨fun keys => keys.toList, fun _ _ => Finset.mem_toList, fun keys => keys.nodup_toList⟩

section sample

open TxPool

local instance : Crypto := Crypto.trivial

theorem newWithOwner_fresh (cfg : TxPoolConfig) (context : PendingOutpointAdmissionContext) :
    (TxPool.newWithOwner cfg (some (.newWithContext context))).Fresh :=
  ⟨rfl, rfl, rfl, rfl, fun o ho => by cases ho; exact ⟨rfl, rfl⟩⟩

end sample

end Rubin.Node
