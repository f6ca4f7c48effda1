/-
# Who is evicted

`capacity_eviction_plan`: when the pool is full, the residents and the candidate compete, and the
worst of them is found and removed again and again until count and bytes fit.  Under either
pressure mode "worse" is the order of a key, so finding the worst by
a linear scan takes the contenders in the order of their one ranked list, and the plan is the
shortest prefix of that list whose removal fits (`evictWorst_takes_prefix`).

The order in which the resident map is visited decides how the scan list is laid out, and nothing
else.
-/
import Rubin.Node.MiningOrder

namespace Rubin.Node

open Rubin.Lib Rubin.Consensus

namespace TxPool

/-! ## 1. The order of eviction -/

/-- `a` goes before `b`. -/
def Worse (ordering : CapacityOrdering) (a b : CapacityPlanEntry) : Prop :=
  capacityPlanEntryWorse a b ordering = true

instance (ordering : CapacityOrdering) (a b : CapacityPlanEntry) :
    Decidable (Worse ordering a b) :=
  inferInstanceAs (Decidable (_ = true))

/-- What decides between equal rates and equal fees: high weights go first when places are short,
early admissions when bytes are. -/
def tieBreak (ordering : CapacityOrdering) (e : CapacityPlanEntry) : ℤ :=
  match ordering with
  | .legacyCountPressure => -e.entry.weight
  | .bytePressure => e.admissionSeq

def evictionKey (ordering : CapacityOrdering) (e : CapacityPlanEntry) :
    ℚ ×ₗ ℕ ×ₗ ℤ ×ₗ Bytes32ᵒᵈ :=
  toLex (feeRate e.entry, toLex (e.entry.fee, toLex (tieBreak ordering e, OrderDual.toDual e.txid)))

theorem compare_neg_natCast (x y : Nat) : compare (-(x : ℤ)) (-(y : ℤ)) = compare y x := by
  rcases lt_trichotomy x y with h | h | h
  · rw [compare_gt_iff_gt.mpr h, compare_gt_iff_gt]
    omega
  · rw [compare_eq_iff_eq.mpr h.symm, compare_eq_iff_eq, h]
  · rw [compare_lt_iff_lt.mpr h, compare_lt_iff_lt]
    omega

theorem compare_natCast (x y : Nat) : compare (x : ℤ) (y : ℤ) = compare x y := by
  rcases lt_trichotomy x y with h | h | h
  · rw [compare_lt_iff_lt.mpr h, compare_lt_iff_lt]
    omega
  · rw [compare_eq_iff_eq.mpr h, compare_eq_iff_eq, h]
  · rw [compare_gt_iff_gt.mpr h, compare_gt_iff_gt]
    omega

variable {ordering : CapacityOrdering} {s : Set CapacityPlanEntry} {plan : CapacityPlan}
  {ranked : List CapacityPlanEntry}

theorem worse_iff {a b : CapacityPlanEntry} (ha : 0 < a.entry.weight) (hb : 0 < b.entry.weight) :
    Worse ordering a b ↔ evictionKey ordering a < evictionKey ordering b := by
  have hrate := compareFeeRateValues_eq ha hb
  rw [← compare_lt_iff_lt, evictionKey, evictionKey, compare_toLex, compare_toLex, compare_toLex,
    compare_toDual, ← hrate, Worse]
  cases ordering with
  | legacyCountPressure =>
    simp only [capacityPlanEntryWorse, compareCountPressurePriority, tieBreak, compare_neg_natCast, compare32_eq,
      Ordering.then_assoc]
    -- the txid has already been compared when the priorities are equal
    cases hcmp : (compareFeeRateValues a.entry.fee a.entry.weight b.entry.fee b.entry.weight).then
        ((compare a.entry.fee b.entry.fee).then ((compare b.entry.weight a.entry.weight).then
          (compare b.txid a.txid))) with
    | lt => simp
    | gt => simp
    | eq =>
      simp only [Ordering.then_eq_eq, compare_eq_iff_eq] at hcmp
      obtain ⟨-, -, -, heq⟩ := hcmp
      simp [heq, lt32]
  | bytePressure =>
    simp only [capacityPlanEntryWorse, compareCapacityPriority, tieBreak, compare_natCast]
    cases compareFeeRateValues a.entry.fee a.entry.weight b.entry.fee b.entry.weight with
    | lt => simp
    | gt => simp
    | eq =>
      cases compare a.entry.fee b.entry.fee with
      | lt => simp
      | gt => simp
      | eq =>
        cases compare a.admissionSeq b.admissionSeq with
        | lt => simp
        | gt => simp
        | eq => simp [lt32_iff, compare_lt_iff_lt]

/-! ## 2. The contenders -/

/-- The pool invariant the plan relies on. -/
structure CapacityInv (pool : TxPool) : Prop where
  accounts : Accounts pool.txs pool.heapSeqs pool.nextHeapId pool.usedBytes
  measured : ∀ p ∈ pool.residents, 0 < p.2.size ∧ 0 < p.2.weight
  named : ∀ p ∈ pool.residents, p.1 ≠ zero32
  lowWater : pool.effectiveLowWaterBytes ≤ pool.maxBytes

/-- A transaction that could be added: known by its own txid, and not too large for any pool. -/
structure Candidate (pool : TxPool) (txid : Bytes32) (candidate : TxPoolEntry) : Prop where
  named : txid ≠ zero32
  fresh : pool.txs.lookup txid = none
  size_pos : 0 < candidate.size
  weight_pos : 0 < candidate.weight
  size_le : candidate.size ≤ pool.maxBytes

def candidateEntry (txid : Bytes32) (candidate : TxPoolEntry) : CapacityPlanEntry :=
  ⟨txid, candidate, true, 0⟩

/-- The residents and the candidate. -/
def contenders (pool : TxPool) (txid : Bytes32) (candidate : TxPoolEntry) : Set CapacityPlanEntry :=
  {e | e = candidateEntry txid candidate ∨ e.candidate = false ∧
    pool.txs.lookup e.txid = some e.entry ∧ pool.heapSeqs.lookup e.txid = some e.admissionSeq}

variable {pool : TxPool} {txid : Bytes32} {candidate : TxPoolEntry}

theorem CapacityInv.weight_pos (h : pool.CapacityInv) (hc : pool.Candidate txid candidate)
    {e : CapacityPlanEntry} (he : e ∈ pool.contenders txid candidate) : 0 < e.entry.weight := by
  rcases he with rfl | ⟨-, hres, -⟩
  · exact hc.weight_pos
  · exact (h.measured (e.txid, e.entry) hres).2

theorem contenders_txid_inj (hc : pool.Candidate txid candidate) {a b : CapacityPlanEntry}
    (ha : a ∈ pool.contenders txid candidate) (hb : b ∈ pool.contenders txid candidate)
    (heq : a.txid = b.txid) : a = b := by
  have hfresh := hc.fresh
  rcases ha with rfl | ⟨hca, hta, hsa⟩
  · rcases hb with rfl | ⟨-, htb, -⟩
    · rfl
    · rw [← heq] at htb
      exact absurd (hfresh.symm.trans htb) nofun
  · rcases hb with rfl | ⟨hcb, htb, hsb⟩
    · rw [heq] at hta
      exact absurd (hfresh.symm.trans hta) nofun
    · rw [heq, htb] at hta
      rw [heq, hsb] at hsa
      obtain ⟨ta, ea, ca, sa⟩ := a
      obtain ⟨tb, eb, cb, sb⟩ := b
      cases heq
      cases hta
      cases hsa
      cases hca
      cases hcb
      rfl

/-- **A strict total order**, in either pressure mode. -/
theorem CapacityInv.ranks (h : pool.CapacityInv) (hc : pool.Candidate txid candidate)
    (ordering : CapacityOrdering) :
    RanksOn (Worse ordering) (pool.contenders txid candidate) := by
  have hkey : ∀ a ∈ pool.contenders txid candidate, ∀ b ∈ pool.contenders txid candidate,
      Worse ordering a b ↔ evictionKey ordering a < evictionKey ordering b :=
    fun a ha b hb => worse_iff (h.weight_pos hc ha) (h.weight_pos hc hb)
  refine RanksOn.of_key hkey ?_
  intro a ha b hb heq
  have htxid : a.txid = b.txid :=
    congrArg (fun k : ℚ ×ₗ ℕ ×ₗ ℤ ×ₗ Bytes32ᵒᵈ =>
      OrderDual.ofDual (ofLex (ofLex (ofLex k).2).2).2) heq
  exact contenders_txid_inj hc ha hb htxid

/-! ## 3. Finding the worst -/

theorem worstIndexFrom_spec (hranks : RanksOn (Worse ordering) s) :
    ∀ (rest done : List CapacityPlanEntry) (worst : CapacityPlanEntry) (worstIndex : Nat),
      (∀ e ∈ done ++ rest, e ∈ s) → done[worstIndex]? = some worst →
      (∀ e ∈ done, e ≠ worst → Worse ordering worst e) →
      ∃ w, (done ++ rest)[worstIndexFrom ordering worst worstIndex done.length rest]? = some w ∧
        ∀ e ∈ done ++ rest, e ≠ w → Worse ordering w e := by
  intro rest
  induction rest with
  | nil =>
    intro done worst worstIndex _ hworst hleast
    rw [List.append_nil]
    exact ⟨worst, hworst, hleast⟩
  | cons e rest ih =>
    intro done worst worstIndex hs hworst hleast
    have hmem : worst ∈ s := hs worst (List.mem_append_left _ (List.mem_of_getElem? hworst))
    have he : e ∈ s := hs e (by simp)
    have hlen : (done ++ [e]).length = done.length + 1 := by simp
    have hassoc : done ++ e :: rest = done ++ [e] ++ rest := by simp
    rw [hassoc] at hs ⊢
    rw [worstIndexFrom, ← hlen]
    split
    · rename_i hworse
      refine ih (done ++ [e]) e done.length hs (by simp) ?_
      intro x hx hne
      rcases List.mem_append.mp hx with hx | hx
      · by_cases hxw : x = worst
        · rw [hxw]
          exact hworse
        · exact hranks.trans e he worst hmem x (hs x (by simp [hx])) hworse (hleast x hx hxw)
      · exact absurd (List.mem_singleton.mp hx) hne
    · rename_i hworse
      refine ih (done ++ [e]) worst worstIndex hs ?_ ?_
      · rw [List.getElem?_append_left (List.getElem?_eq_some_iff.mp hworst).1]
        exact hworst
      · intro x hx hne
        rcases List.mem_append.mp hx with hx | hx
        · exact hleast x hx hne
        · rw [List.mem_singleton.mp hx] at hne ⊢
          exact (hranks.total e he worst hmem hne).resolve_left hworse

theorem worstCapacityPlanIndex_spec (hranks : RanksOn (Worse ordering) s)
    {l : List CapacityPlanEntry} (hs : ∀ e ∈ l, e ∈ s) (hne : l ≠ []) :
    ∃ w, l[worstCapacityPlanIndex ordering l]? = some w ∧ ∀ e ∈ l, e ≠ w → Worse ordering w e := by
  cases l with
  | nil => exact absurd rfl hne
  | cons e rest =>
    refine worstIndexFrom_spec hranks rest [e] e 0 hs rfl ?_
    intro x hx hxe
    exact absurd (List.mem_singleton.mp hx) hxe

/-! ## 4. The eviction loop -/

/-- What is left is small enough. -/
def Settled (pool : TxPool) (targetBytes : Nat) (l : List CapacityPlanEntry) : Prop :=
  l.length ≤ pool.maxTransactions ∧ (l.map fun e => e.entry.size).sum ≤ targetBytes

instance (targetBytes : Nat) : DecidablePred (pool.Settled targetBytes) :=
  fun _ => inferInstanceAs (Decidable (_ ∧ _))

/-- The totals of a plan are those of its contenders. -/
structure Tallied (plan : CapacityPlan) : Prop where
  count : plan.totalCount = plan.planPool.length
  bytes : plan.totalBytes = (plan.planPool.map fun e => e.entry.size).sum

theorem Tallied.evict {i : Nat} {w : CapacityPlanEntry} (h : Tallied plan)
    (hperm : plan.planPool.Perm (w :: plan.planPool.eraseIdx i)) :
    w.entry.size ≤ plan.totalBytes ∧ Tallied { plan with
      planPool := plan.planPool.eraseIdx i
      totalCount := plan.totalCount - 1
      totalBytes := plan.totalBytes - w.entry.size
      evicted := plan.evicted ++ [w.txid] } := by
  have hlen := hperm.length_eq
  have hsum := (hperm.map fun e => e.entry.size).sum_eq
  rw [List.map_cons, List.sum_cons] at hsum
  rw [List.length_cons] at hlen
  have hcount := h.count
  have hbytes := h.bytes
  refine ⟨by omega, ⟨?_, ?_⟩⟩
  · dsimp only
    omega
  · dsimp only
    omega

/-- The shortest prefix whose removal leaves something small enough. -/
def worstPrefix (pool : TxPool) (targetBytes : Nat) (ranked : List CapacityPlanEntry) :
    List CapacityPlanEntry :=
  ranked.take (cutLength (pool.Settled targetBytes) ranked)

theorem worstPrefix_of_settled {targetBytes : Nat} (h : pool.Settled targetBytes ranked) :
    pool.worstPrefix targetBytes ranked = [] := by
  cases ranked with
  | nil => rfl
  | cons a l => rw [worstPrefix, cutLength, if_pos h, List.take_zero]

theorem settled_perm {targetBytes : Nat} {l l' : List CapacityPlanEntry} (h : l.Perm l') :
    pool.Settled targetBytes l ↔ pool.Settled targetBytes l' := by
  rw [Settled, Settled, h.length_eq, (h.map fun e => e.entry.size).sum_eq]

/-- **The loop takes a prefix of the ranked list**, the shortest whose removal settles the totals,
and gives up exactly when the candidate is in it. -/
theorem evictWorst_takes_prefix (pool : TxPool) (targetBytes : Nat)
    (hranks : RanksOn (Worse ordering) s) :
    ∀ (turns : Nat) (plan : CapacityPlan) (ranked : List CapacityPlanEntry),
      (∀ e ∈ plan.planPool, e ∈ s) → Ranked (Worse ordering) plan.planPool ranked → Tallied plan →
      plan.planPool.length ≤ turns →
      ((∀ e ∈ pool.worstPrefix targetBytes ranked, e.candidate = false) →
        ∃ plan', pool.evictWorst targetBytes ordering turns plan = .ok plan' ∧
          plan'.evicted = plan.evicted ++
            (pool.worstPrefix targetBytes ranked).map CapacityPlanEntry.txid ∧
          pool.Settled targetBytes plan'.planPool ∧ Tallied plan') ∧
      ((∃ e ∈ pool.worstPrefix targetBytes ranked, e.candidate = true) →
        ∃ e, pool.evictWorst targetBytes ordering turns plan = .error e) := by
  intro turns
  induction turns with
  | zero =>
    intro plan ranked hs hr htally hlen
    have hnil : plan.planPool = [] := List.length_eq_zero_iff.mp (Nat.le_zero.mp hlen)
    have hfits : pool.Settled targetBytes plan.planPool := by
      rw [hnil]
      exact ⟨Nat.zero_le _, Nat.zero_le _⟩
    rw [worstPrefix_of_settled ((settled_perm hr.1).mpr hfits)]
    exact ⟨fun _ => ⟨plan, rfl, by simp, hfits, htally⟩, by simp⟩
  | succ turns ih =>
    intro plan ranked hs hr htally hlen
    have hsettled : pool.Settled targetBytes plan.planPool ↔
        ¬ (plan.totalCount > pool.maxTransactions ∨ plan.totalBytes > targetBytes) := by
      rw [Settled, ← htally.count, ← htally.bytes, not_or, not_lt, not_lt]
    by_cases hfits : pool.Settled targetBytes plan.planPool
    · rw [worstPrefix_of_settled ((settled_perm hr.1).mpr hfits), evictWorst,
        if_neg (hsettled.mp hfits)]
      exact ⟨fun _ => ⟨plan, rfl, by simp, hfits, htally⟩, by simp⟩
    · have hover := not_not.mp (mt hsettled.mpr hfits)
      have hne : plan.planPool ≠ [] := by
        intro hnil
        rw [hnil] at hfits
        exact hfits ⟨Nat.zero_le _, Nat.zero_le _⟩
      obtain ⟨w, hw, hleast⟩ := worstCapacityPlanIndex_spec hranks hs hne
      obtain ⟨rest, rfl, hrest⟩ := Ranked.head_of_least hranks hs hr hw hleast
      have hi := (List.getElem?_eq_some_iff.mp hw).1
      obtain ⟨hsize, htally'⟩ := htally.evict (hr.1.symm.trans (hrest.1.cons w))
      have hcut : pool.worstPrefix targetBytes (w :: rest) =
          w :: pool.worstPrefix targetBytes rest := by
        rw [worstPrefix, cutLength, if_neg (mt (settled_perm hr.1).mp hfits), List.take_succ_cons]
        rfl
      obtain ⟨hok, herr⟩ := ih _ rest (fun e he => hs e (List.mem_of_mem_eraseIdx he)) hrest htally'
        (by dsimp only; rw [List.length_eraseIdx_of_lt hi]; omega)
      rw [evictWorst, if_pos hover, hcut]
      dsimp only
      rw [hw]
      dsimp only
      constructor
      · intro hnone
        rw [List.forall_mem_cons] at hnone
        obtain ⟨plan', hrun, hevicted, hend⟩ := hok hnone.2
        refine ⟨plan', ?_, ?_, hend⟩
        · rw [rejectIf_neg (by simp [hnone.1]), ok_bind, rejectIf_neg (by omega), ok_bind]
          exact hrun
        · rw [hevicted]
          simp
      · rintro ⟨e, he, hcand⟩
        by_cases hwc : w.candidate = true
        · exact ⟨_, by rw [rejectIf_pos hwc]; rfl⟩
        · rcases List.mem_cons.mp he with rfl | he
          · exact absurd hcand hwc
          · obtain ⟨err, hrun⟩ := herr ⟨e, he, hcand⟩
            refine ⟨err, ?_⟩
            rw [rejectIf_neg hwc, ok_bind, rejectIf_neg (by omega), ok_bind]
            exact hrun

/-! ## 5. Gathering the contenders -/

/-- The plan after some of the residents have been visited. -/
structure Gathering (pool : TxPool) (start : CapacityPlan) (done : List Bytes32)
    (plan : CapacityPlan) : Prop where
  txids : plan.planPool.map CapacityPlanEntry.txid = done
  residents : ∀ e ∈ plan.planPool, e.candidate = false ∧
    pool.txs.lookup e.txid = some e.entry ∧ pool.heapSeqs.lookup e.txid = some e.admissionSeq
  sequences : ∀ seq txid, plan.admissionSeqs.lookup seq = some txid →
    txid ∈ done ∧ pool.heapSeqs.lookup txid = some seq
  totals : plan.totalCount = start.totalCount ∧ plan.totalBytes = start.totalBytes ∧
    plan.evicted = start.evicted

theorem CapacityInv.gather_step (h : pool.CapacityInv) {start : CapacityPlan} {done : List Bytes32}
    {txid : Bytes32} (hg : Gathering pool start done plan)
    (hres : ∃ entry, pool.txs.lookup txid = some entry) (hnew : txid ∉ done) :
    ∃ plan', pool.planResident plan txid = .ok plan' ∧
      Gathering pool start (done ++ [txid]) plan' := by
  obtain ⟨entry, hentry⟩ := hres
  have hpos : 0 < entry.size ∧ 0 < entry.weight := h.measured (txid, entry) hentry
  have hkey : txid ∈ pool.heapSeqs.keys := by
    rw [h.accounts.sequenced]
    exact mem_keys_iff.mpr ⟨entry, hentry⟩
  obtain ⟨seq, hseq⟩ := mem_keys_iff.mp hkey
  have hfresh : plan.admissionSeqs.lookup seq = none := by
    cases hold : plan.admissionSeqs.lookup seq with
    | none => rfl
    | some other =>
      obtain ⟨hother, hseq'⟩ := hg.sequences seq other hold
      rw [h.accounts.distinct other txid seq hseq' hseq] at hother
      exact absurd hother hnew
  refine ⟨{ plan with
    admissionSeqs := plan.admissionSeqs.insert seq txid
    planPool := plan.planPool ++ [⟨txid, entry, false, seq⟩] }, ?_, ?_⟩
  · rw [planResident, hentry]
    dsimp only
    rw [rejectIf_neg (h.named (txid, entry) hentry), ok_bind, hseq, okOr, ok_bind,
      checkSequenceNew, hfresh]
    dsimp only
    rw [ok_bind, rejectIf_neg (by omega), ok_bind]
  · constructor
    · dsimp only
      rw [List.map_append, hg.txids, List.map_singleton]
    · intro e he
      rcases List.mem_append.mp he with he | he
      · exact hg.residents e he
      · rw [List.mem_singleton.mp he]
        exact ⟨rfl, hentry, hseq⟩
    · intro seq' txid' hlook
      rcases lookup_insert_eq_some.mp hlook with ⟨rfl, rfl⟩ | ⟨-, hlook⟩
      · exact ⟨by simp, hseq⟩
      · obtain ⟨hdone, hseq'⟩ := hg.sequences seq' txid' hlook
        exact ⟨List.mem_append_left _ hdone, hseq'⟩
    · exact hg.totals

theorem CapacityInv.gather (h : pool.CapacityInv) (ord : VisitOrder Bytes32)
    (count bytes : Nat) :
    ∃ plan, (ord.order pool.txs.keys).foldlM pool.planResident ⟨[], ∅, count, bytes, []⟩ =
        .ok plan ∧
      Gathering pool ⟨[], ∅, count, bytes, []⟩ (ord.order pool.txs.keys) plan := by
  refine foldlM_progress (Gathering pool ⟨[], ∅, count, bytes, []⟩) ?_ ?_
  · refine ⟨rfl, nofun, ?_, rfl, rfl, rfl⟩
    intro seq txid hlook
    rw [Finmap.lookup_empty] at hlook
    cases hlook
  · intro done txid rest plan hsplit hg
    have hmem : txid ∈ ord.order pool.txs.keys := by simp [hsplit]
    refine h.gather_step hg (mem_keys_iff.mp ((ord.visits _ _).mp hmem)) ?_
    have hnodup := ord.once pool.txs.keys
    rw [hsplit, List.nodup_append] at hnodup
    exact fun hin => hnodup.2.2 txid hin txid List.mem_cons_self rfl

/-- The scan list: every contender once. -/
structure Assembled (pool : TxPool) (txid : Bytes32) (candidate : TxPoolEntry)
    (plan : CapacityPlan) : Prop where
  mem : ∀ e, e ∈ plan.planPool ↔ e ∈ pool.contenders txid candidate
  nodup : plan.planPool.Nodup
  tallied : Tallied plan
  evicted : plan.evicted = []

theorem CapacityInv.assembled (h : pool.CapacityInv) (hc : pool.Candidate txid candidate)
    {ord : VisitOrder Bytes32}
    (hg : Gathering pool ⟨[], ∅, pool.len + 1, pool.usedBytes + candidate.size, []⟩
      (ord.order pool.txs.keys) plan) :
    Assembled pool txid candidate
      { plan with planPool := plan.planPool ++ [candidateEntry txid candidate] } := by
  have hlen : plan.planPool.length = pool.len := by
    rw [← List.length_map CapacityPlanEntry.txid, hg.txids, VisitOrder.length_order]
    rfl
  have hsum : (plan.planPool.map fun e => e.entry.size).sum = pool.usedBytes := by
    rw [h.accounts.used, ← ord.sum_order, ← hg.txids, List.map_map]
    refine congrArg List.sum (List.map_congr_left fun e he => ?_)
    exact (weightAt_of_lookup (hg.residents e he).2.1).symm
  constructor
  · intro e
    rw [List.mem_append, List.mem_singleton]
    constructor
    · rintro (he | rfl)
      · exact Or.inr (hg.residents e he)
      · exact Or.inl rfl
    · rintro (rfl | ⟨hcand, hentry, hseq⟩)
      · exact Or.inr rfl
      · have hmem : e.txid ∈ plan.planPool.map CapacityPlanEntry.txid := by
          rw [hg.txids, ord.visits]
          exact mem_keys_iff.mpr ⟨e.entry, hentry⟩
        obtain ⟨e', he', htxid⟩ := List.mem_map.mp hmem
        have hsame : e' = e :=
          contenders_txid_inj hc (Or.inr (hg.residents e' he')) (Or.inr ⟨hcand, hentry, hseq⟩) htxid
        exact Or.inl (hsame ▸ he')
  · have htxids : (plan.planPool.map CapacityPlanEntry.txid).Nodup := by
      rw [hg.txids]
      exact ord.once _
    refine List.Nodup.append (List.Nodup.of_map _ htxids) (List.nodup_singleton _) ?_
    intro e he hin
    rw [List.mem_singleton.mp hin] at he
    exact absurd (hg.residents _ he).1 nofun
  · obtain ⟨hcount, hbytes, -⟩ := hg.totals
    constructor
    · dsimp only at hcount ⊢
      rw [hcount, List.length_append, hlen]
      rfl
    · dsimp only at hbytes ⊢
      rw [hbytes, List.map_append, List.sum_append, hsum]
      rfl
  · exact hg.totals.2.2

/-! ## 6. The plan -/

/-- Whether the bytes, and not only the places, are short. -/
def bytePressure (pool : TxPool) (candidate : TxPoolEntry) : Bool :=
  decide (pool.usedBytes > pool.maxBytes - candidate.size)

/-- The order of the active pressure mode. -/
def activeOrdering (pool : TxPool) (candidate : TxPoolEntry) : CapacityOrdering :=
  if pool.bytePressure candidate then .bytePressure else .legacyCountPressure

/-- What the bytes have to come down to. -/
def activeTarget (pool : TxPool) (candidate : TxPoolEntry) : Nat :=
  if pool.bytePressure candidate then
    txPoolBytePressureTarget pool.effectiveLowWaterBytes candidate.size
  else pool.maxBytes

theorem CapacityInv.target_le (h : pool.CapacityInv) (hc : pool.Candidate txid candidate) :
    pool.activeTarget candidate ≤ pool.maxBytes := by
  rw [activeTarget]
  split
  · exact max_le h.lowWater hc.size_le
  · exact le_refl _

theorem CapacityInv.ranked_planPool (h : pool.CapacityInv) (hc : pool.Candidate txid candidate)
    (hmem : ∀ e, e ∈ ranked ↔ e ∈ pool.contenders txid candidate)
    (hpairs : ranked.Pairwise (Worse ordering)) (hall : Assembled pool txid candidate plan) :
    Ranked (Worse ordering) plan.planPool ranked := by
  have hranks := h.ranks hc ordering
  have hnodup : ranked.Nodup := by
    refine hpairs.imp_of_mem ?_
    rintro a b ha _ hab rfl
    exact hranks.irrefl a ((hmem a).mp ha) hab
  refine ⟨(List.perm_ext_iff_of_nodup hnodup hall.nodup).mpr fun e => ?_, hpairs⟩
  rw [hmem, hall.mem]

theorem CapacityInv.settled_of_no_pressure (h : pool.CapacityInv)
    (hc : pool.Candidate txid candidate)
    (hmem : ∀ e, e ∈ ranked ↔ e ∈ pool.contenders txid candidate)
    (hpairs : ranked.Pairwise (Worse ordering)) (hroom : ¬ pool.len ≥ pool.maxTransactions)
    (hfree : pool.bytePressure candidate = false) :
    pool.Settled (pool.activeTarget candidate) ranked := by
  obtain ⟨plan, -, hg⟩ := h.gather anyOrder (pool.len + 1) (pool.usedBytes + candidate.size)
  have hall := h.assembled hc hg
  obtain ⟨hperm, -⟩ := h.ranked_planPool hc hmem hpairs hall
  have hcount : plan.totalCount = pool.len + 1 := hg.totals.1
  have hbytes : plan.totalBytes = pool.usedBytes + candidate.size := hg.totals.2.1
  have hused : ¬ pool.usedBytes > pool.maxBytes - candidate.size := of_decide_eq_false hfree
  have hsize := hc.size_le
  rw [activeTarget, hfree, if_neg Bool.false_ne_true, Settled, hperm.length_eq,
    (hperm.map fun e => e.entry.size).sum_eq, ← hall.tallied.count, ← hall.tallied.bytes]
  dsimp only
  omega

theorem CapacityInv.evictUnderPressure_eq (h : pool.CapacityInv)
    (hc : pool.Candidate txid candidate)
    (hmem : ∀ e, e ∈ ranked ↔ e ∈ pool.contenders txid candidate)
    (hpairs : ranked.Pairwise (Worse (pool.activeOrdering candidate))) (ord : VisitOrder Bytes32) :
    (candidateEntry txid candidate ∉ pool.worstPrefix (pool.activeTarget candidate) ranked →
      pool.evictUnderPressure ord txid candidate (pool.bytePressure candidate) =
        .ok ((pool.worstPrefix (pool.activeTarget candidate) ranked).map
          CapacityPlanEntry.txid)) ∧
      (candidateEntry txid candidate ∈ pool.worstPrefix (pool.activeTarget candidate) ranked →
        ∃ e, pool.evictUnderPressure ord txid candidate (pool.bytePressure candidate) =
          .error e) := by
  have hranks := h.ranks hc (pool.activeOrdering candidate)
  obtain ⟨plan, hgather, hg⟩ := h.gather ord (pool.len + 1) (pool.usedBytes + candidate.size)
  have hall := h.assembled hc hg
  have hranked := h.ranked_planPool hc hmem hpairs hall
  obtain ⟨hok, herr⟩ := evictWorst_takes_prefix pool (pool.activeTarget candidate) hranks _ _ ranked
    (fun e he => (hall.mem e).mp he) hranked hall.tallied le_rfl
  have hrun : pool.evictUnderPressure ord txid candidate (pool.bytePressure candidate) =
      (pool.evictWorst (pool.activeTarget candidate) (pool.activeOrdering candidate)
        (plan.planPool ++ [candidateEntry txid candidate]).length
        { plan with planPool := plan.planPool ++ [candidateEntry txid candidate] } >>=
          fun plan => rejectIf (plan.totalCount > pool.maxTransactions ∨
            plan.totalBytes > pool.maxBytes) (pool.capacityRemains plan) >>=
              fun _ => .ok plan.evicted) := by
    rw [evictUnderPressure]
    dsimp only
    rw [hgather]
    rfl
  rw [hrun]
  constructor
  · intro hout
    have hresidents : ∀ e ∈ pool.worstPrefix (pool.activeTarget candidate) ranked,
        e.candidate = false := by
      intro e he
      rcases (hmem e).mp (List.mem_of_mem_take he) with rfl | hres
      · exact absurd he hout
      · exact hres.1
    obtain ⟨plan', hevict, hevicted, hsettled, htally⟩ := hok hresidents
    have htarget := h.target_le hc
    have hend : ¬ (plan'.totalCount > pool.maxTransactions ∨ plan'.totalBytes > pool.maxBytes) := by
      rw [htally.count, htally.bytes, not_or, not_lt, not_lt]
      exact ⟨hsettled.1, hsettled.2.trans htarget⟩
    rw [hevict, ok_bind, rejectIf_neg hend, ok_bind, hevicted, hall.evicted, List.nil_append]
  · intro hin
    obtain ⟨e, hevict⟩ := herr ⟨_, hin, rfl⟩
    exact ⟨e, by rw [hevict]; rfl⟩

theorem CapacityInv.capacityEvictionPlan_eq (h : pool.CapacityInv)
    (hc : pool.Candidate txid candidate)
    (hmem : ∀ e, e ∈ ranked ↔ e ∈ pool.contenders txid candidate)
    (hpairs : ranked.Pairwise (Worse (pool.activeOrdering candidate))) (ord : VisitOrder Bytes32)
    (plan : List Bytes32) :
    pool.capacityEvictionPlan ord txid candidate = .ok plan ↔
      candidateEntry txid candidate ∉ pool.worstPrefix (pool.activeTarget candidate) ranked ∧
        plan = (pool.worstPrefix (pool.activeTarget candidate) ranked).map
          CapacityPlanEntry.txid := by
  have hcand : candidateEntry txid candidate ∈ ranked := (hmem _).mpr (Or.inl rfl)
  have hcut : IsLeast {k | pool.Settled (pool.activeTarget candidate) (ranked.drop k)}
      (cutLength (pool.Settled (pool.activeTarget candidate)) ranked) :=
    cutLength_isLeast ⟨Nat.zero_le _, Nat.zero_le _⟩ ranked
  have hmeta : ¬ (txid = zero32 ∨ candidate.size = 0 ∨ candidate.weight = 0) := by
    have h1 := hc.named
    have h2 := hc.size_pos
    have h3 := hc.weight_pos
    rintro (h0 | h0 | h0)
    · exact h1 h0
    · omega
    · omega
  have hsize := hc.size_le
  have hpos := hc.size_pos
  by_cases hzero : pool.maxTransactions = 0
  · -- no place at all: everything has to go, the candidate included
    have hlen := hcut.1.1
    rw [hzero, List.length_drop] at hlen
    have htake : pool.worstPrefix (pool.activeTarget candidate) ranked = ranked :=
      List.take_of_length_le (by omega)
    rw [capacityEvictionPlan, rejectIf_pos (Or.inl hzero), htake]
    exact ⟨by simp, fun hout => absurd hcand hout.1⟩
  · rw [capacityEvictionPlan, rejectIf_neg (by omega), ok_bind, rejectIf_neg hmeta, ok_bind,
      rejectIf_neg (by omega), ok_bind]
    dsimp only
    split
    · rename_i hcalm
      rw [Bool.and_eq_true, Bool.not_eq_true', Bool.not_eq_true'] at hcalm
      have hsettled := h.settled_of_no_pressure hc hmem hpairs (of_decide_eq_false hcalm.1) hcalm.2
      rw [worstPrefix_of_settled hsettled, Except.ok.injEq, List.map_nil]
      exact ⟨fun heq => ⟨List.not_mem_nil, heq.symm⟩, fun heq => heq.2.symm⟩
    · obtain ⟨hok, herr⟩ := h.evictUnderPressure_eq hc hmem hpairs ord
      rw [bytePressure] at hok herr
      constructor
      · intro hrun
        by_cases hin : candidateEntry txid candidate ∈
            pool.worstPrefix (pool.activeTarget candidate) ranked
        · obtain ⟨e, he⟩ := herr hin
          exact absurd (he.symm.trans hrun) (by simp)
        · exact ⟨hin, (Except.ok.inj ((hok hin).symm.trans hrun)).symm⟩
      · rintro ⟨hout, rfl⟩
        exact hok hout

theorem CapacityInv.exists_ranked (h : pool.CapacityInv) (hc : pool.Candidate txid candidate) :
    ∃ ranked : List CapacityPlanEntry, (∀ e, e ∈ ranked ↔ e ∈ pool.contenders txid candidate) ∧
      ranked.Pairwise (Worse (pool.activeOrdering candidate)) ∧ ranked.Nodup := by
  have hranks := h.ranks hc (pool.activeOrdering candidate)
  obtain ⟨plan₀, -, hg⟩ := h.gather anyOrder (pool.len + 1) (pool.usedBytes + candidate.size)
  have hall := h.assembled hc hg
  obtain ⟨hperm, hpairs⟩ := hranks.ranked_insertionSort (fun _ _ _ _ _ => Iff.rfl)
    (fun e he => (hall.mem e).mp he) hall.nodup
  refine ⟨_, fun e => ?_, hpairs, hperm.nodup_iff.mpr hall.nodup⟩
  rw [hperm.mem_iff]
  exact hall.mem e

/-- The keys in their own order. -/
def sortedOrder : VisitOrder Bytes32 :=
  ⟨fun keys => keys.sort (· ≤ ·), fun _ _ => Finset.mem_sort _, fun _ => Finset.sort_nodup _ _⟩

/-- An empty pool with one place. -/
def smallPool : TxPool := { TxPool.newWithOwner .default none with maxTransactions := 1 }

/-- A transaction of weight 1 and one byte, with a fee. -/
def tinyEntry (fee : Nat) : TxPoolEntry := ⟨[7], [], fee, 1, 1, .remote⟩

theorem smallPool_capacityInv : smallPool.CapacityInv where
  accounts := ⟨rfl, fun _ _ hs => by simp [smallPool, newWithOwner] at hs,
    fun _ _ _ hs => by simp [smallPool, newWithOwner] at hs, (total_empty _).symm⟩
  measured := by
    intro p hp
    exact absurd hp (by simp [residents, smallPool, newWithOwner])
  named := by
    intro p hp
    exact absurd hp (by simp [residents, smallPool, newWithOwner])
  lowWater := by decide

/-- The same pool with its place taken by a transaction that pays 5. -/
def fullPool : TxPool := smallPool.insertEntryRaw powLimit (tinyEntry 5)

theorem mem_fullPool {p : Bytes32 × TxPoolEntry} (hp : p ∈ fullPool.residents) :
    p.1 = powLimit ∧ tinyEntry 5 = p.2 := by
  rcases lookup_insert_eq_some.mp hp with h | ⟨-, h⟩
  · exact h
  · cases h

theorem fullPool_capacityInv : fullPool.CapacityInv where
  accounts := smallPool_capacityInv.accounts.insert (Finmap.lookup_empty _) (tinyEntry 5)
  measured := by
    intro p hp
    rw [← (mem_fullPool hp).2]
    decide
  named := by
    intro p hp
    rw [(mem_fullPool hp).1]
    decide
  lowWater := by decide

end TxPool

end Rubin.Node
