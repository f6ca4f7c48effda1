/-
# Which transactions are mined

`select_transactions_with_filter`: the residents of the pool are sorted by fee rate, fee, weight and
txid, and taken from the best on while they fit.  Fee rates are compared by their exact cross
products, so on positive weights the comparison is the order of a key, the rational fee rate first
(`compareEntriesForMining_eq`); hence a strict total order, and only one sorted list whatever
order the map is visited in.
-/
import Mathlib.Algebra.Order.Field.Basic
import Mathlib.Data.Rat.Cast.Order
import Rubin.Consensus.ByteOrder
import Rubin.Lib.Ranking
import Rubin.Node.TxPoolInv

namespace Rubin.Node

open Rubin.Lib Rubin.Consensus TxPool

/-! ## 1. Fee rates -/

/-- `mul_u128_by_u64`: the exact product as its high 128 and its low 64 bits. -/
def mulU128ByU64 (a b : Nat) : Nat × Nat :=
  let lowPart := a % 2 ^ 64 * b
  let highPart := (a >>> 64) * b
  (highPart + lowPart >>> 64, lowPart % 2 ^ 64)

def compareFeeRate (feeA weightA feeB weightB : Nat) : Ordering :=
  if weightA = 0 ∨ weightB = 0 then .eq
  else
    (compare (mulU128ByU64 feeA weightB).1 (mulU128ByU64 feeB weightA).1).then
      (compare (mulU128ByU64 feeA weightB).2 (mulU128ByU64 feeB weightA).2)

theorem mulU128ByU64_eq (a b : Nat) : mulU128ByU64 a b = (a * b / 2 ^ 64, a * b % 2 ^ 64) := by
  have hsplit : a * b = a % 2 ^ 64 * b + 2 ^ 64 * (a / 2 ^ 64 * b) := by
    conv_lhs => rw [← Nat.mod_add_div a (2 ^ 64)]
    rw [Nat.add_mul, Nat.mul_assoc]
  simp only [mulU128ByU64, Nat.shiftRight_eq_div_pow]
  rw [hsplit, Nat.add_mul_div_left _ _ (by decide), Nat.add_mul_mod_self_left, Nat.add_comm]

theorem then_compare_divMod (x y : Nat) :
    (compare (x / 2 ^ 64) (y / 2 ^ 64)).then (compare (x % 2 ^ 64) (y % 2 ^ 64)) = compare x y := by
  rcases lt_trichotomy x y with h | h | h
  · rw [compare_lt_iff_lt.mpr h, Ordering.then_eq_lt, compare_lt_iff_lt, compare_eq_iff_eq,
      compare_lt_iff_lt]
    omega
  · subst h
    rw [compare_eq_iff_eq.mpr rfl, compare_eq_iff_eq.mpr rfl, compare_eq_iff_eq.mpr rfl]
    rfl
  · rw [compare_gt_iff_gt.mpr h, Ordering.then_eq_gt, compare_gt_iff_gt, compare_eq_iff_eq,
      compare_gt_iff_gt]
    omega

theorem compareFeeRate_eq (feeA weightA feeB weightB : Nat) :
    compareFeeRate feeA weightA feeB weightB = compareFeeRateValues feeA weightA feeB weightB := by
  simp only [compareFeeRate, compareFeeRateValues, mulU128ByU64_eq, then_compare_divMod]

theorem compareFeeRateValues_rat {feeA weightA feeB weightB : Nat} (ha : 0 < weightA)
    (hb : 0 < weightB) : compareFeeRateValues feeA weightA feeB weightB =
      compare (feeA / weightA : ℚ) (feeB / weightB : ℚ) := by
  have hlt : ∀ {f w f' w' : Nat}, 0 < w → 0 < w' →
      (f * w' < f' * w ↔ (f / w : ℚ) < (f' / w' : ℚ)) := by
    intro f w f' w' hw hw'
    have hw : (0 : ℚ) < w := by exact_mod_cast hw
    have hw' : (0 : ℚ) < w' := by exact_mod_cast hw'
    rw [div_lt_div_iff₀ hw hw']
    exact_mod_cast Iff.rfl
  rw [compareFeeRateValues, if_neg (by omega)]
  rcases lt_trichotomy (feeA / weightA : ℚ) (feeB / weightB : ℚ) with h | h | h
  · rw [compare_lt_iff_lt.mpr h, compare_lt_iff_lt]
    exact (hlt ha hb).mpr h
  · rw [compare_eq_iff_eq.mpr h, compare_eq_iff_eq]
    have h1 := mt (hlt ha hb).mp h.not_lt
    have h2 := mt (hlt hb ha).mp h.not_gt
    omega
  · rw [compare_gt_iff_gt.mpr h, compare_gt_iff_gt]
    exact (hlt hb ha).mpr h

/-- Fee per weight, as a fraction. -/
def feeRate (e : TxPoolEntry) : ℚ := e.fee / e.weight

theorem compareFeeRateValues_eq {a b : TxPoolEntry} (ha : 0 < a.weight) (hb : 0 < b.weight) :
    compareFeeRateValues a.fee a.weight b.fee b.weight = compare (feeRate a) (feeRate b) :=
  compareFeeRateValues_rat ha hb

theorem compare32_eq (a b : Bytes32) : compare32 a b = compare a b := by
  have hfalse : ∀ {x y : Bytes32}, ¬ x < y → ¬ lt32 x y = true := fun h h' => h (lt32_iff.mp h')
  rcases lt_trichotomy a b with h | h | h
  · rw [compare_lt_iff_lt.mpr h, compare32, if_pos (lt32_iff.mpr h)]
  · subst h
    rw [compare_eq_iff_eq.mpr rfl, compare32, if_neg (hfalse (lt_irrefl a)),
      if_neg (hfalse (lt_irrefl a))]
  · rw [compare_gt_iff_gt.mpr h, compare32, if_neg (hfalse h.asymm), if_pos (lt32_iff.mpr h)]

/-! ## 2. `txpool.rs` -/

def compareEntriesForMining (a b : Bytes32 × TxPoolEntry) : Ordering :=
  match compareFeeRate a.2.fee a.2.weight b.2.fee b.2.weight with
  | .gt => .lt
  | .lt => .gt
  | .eq =>
    ((compare b.2.fee a.2.fee).then (compare a.2.weight b.2.weight)).then (compare32 a.1 b.1)

/-- The loop over the sorted entries. -/
def selectLoop (maxCount maxBytes : Nat) (filter : Bytes → Bool) :
    (selected : List Bytes) → (usedBytes : Nat) → List (Bytes32 × TxPoolEntry) → List Bytes
  | selected, _, [] => selected
  | selected, usedBytes, entry :: rest =>
    if filter entry.2.raw then selectLoop maxCount maxBytes filter selected usedBytes rest
    else if selected.length ≥ maxCount then selected
    else if entry.2.size > maxBytes - usedBytes then
      selectLoop maxCount maxBytes filter selected usedBytes rest
    else
      selectLoop maxCount maxBytes filter (selected ++ [entry.2.raw]) (usedBytes + entry.2.size) rest

def TxPool.selectTransactionsWithFilter (pool : TxPool) (ord : VisitOrder Bytes32)
    (maxCount maxBytes : Nat) (filter : Bytes → Bool) : List Bytes :=
  if maxCount = 0 ∨ maxBytes = 0 then []
  else
    selectLoop maxCount maxBytes filter [] 0
      ((ord.entries pool.txs).insertionSort fun a b => compareEntriesForMining a b ≠ .gt)

/-! ## 3. The order -/

/-- `a` is mined before `b`. -/
def MinedBefore (a b : Bytes32 × TxPoolEntry) : Prop := compareEntriesForMining a b = .lt

/-- The residents, with their txids. -/
def TxPool.residents (pool : TxPool) : Set (Bytes32 × TxPoolEntry) :=
  {p | pool.txs.lookup p.1 = some p.2}

/-- The comparison is the order of these keys: high rates first, then high fees, then low weights,
then low txids. -/
def miningKey (p : Bytes32 × TxPoolEntry) : ℚᵒᵈ ×ₗ ℕᵒᵈ ×ₗ ℕ ×ₗ Bytes32 :=
  toLex (OrderDual.toDual (feeRate p.2), toLex (OrderDual.toDual p.2.fee,
    toLex (p.2.weight, p.1)))

theorem compareEntriesForMining_eq {a b : Bytes32 × TxPoolEntry} (ha : 0 < a.2.weight)
    (hb : 0 < b.2.weight) :
    compareEntriesForMining a b = compare (miningKey a) (miningKey b) := by
  rw [compareEntriesForMining, compareFeeRate_eq, compareFeeRateValues_eq ha hb, miningKey,
    miningKey, compare_toLex, compare_toLex, compare_toLex, compare_toDual, compare_toDual,
    compare32_eq, Ordering.then_assoc]
  rcases lt_trichotomy (feeRate a.2) (feeRate b.2) with h | h | h
  · rw [compare_lt_iff_lt.mpr h, compare_gt_iff_gt.mpr h]
    rfl
  · rw [h, compare_eq_iff_eq.mpr rfl]
    rfl
  · rw [compare_gt_iff_gt.mpr h, compare_lt_iff_lt.mpr h]
    rfl

theorem minedBefore_ranks {pool : TxPool}
    (hweight : ∀ p ∈ pool.residents, 0 < p.2.weight) : RanksOn MinedBefore pool.residents := by
  have hkey : ∀ a ∈ pool.residents, ∀ b ∈ pool.residents,
      MinedBefore a b ↔ miningKey a < miningKey b := by
    intro a ha b hb
    rw [MinedBefore, compareEntriesForMining_eq (hweight a ha) (hweight b hb), compare_lt_iff_lt]
  refine RanksOn.of_key hkey ?_
  intro a ha b hb heq
  have ha : pool.txs.lookup a.1 = some a.2 := ha
  have hb : pool.txs.lookup b.1 = some b.2 := hb
  have htxid : a.1 = b.1 := congrArg (fun k => (ofLex (ofLex (ofLex k).2).2).2) heq
  rw [htxid, hb] at ha
  exact Prod.ext htxid (Option.some.inj ha).symm

/-! ## 4. The scan -/

/-- The residents a filter lets through. -/
def unfiltered (filter : Bytes → Bool) (entries : List (Bytes32 × TxPoolEntry)) :
    List (Bytes32 × TxPoolEntry) :=
  entries.filter fun p => !filter p.2.raw

/-- Taking from the front what still fits. -/
def greedyEntries (maxCount maxBytes : Nat) (entries : List (Bytes32 × TxPoolEntry)) :
    List (Bytes32 × TxPoolEntry) :=
  greedy (fun p => p.2.size) maxCount maxBytes entries

theorem selectLoop_eq (maxCount maxBytes : Nat) (filter : Bytes → Bool) :
    ∀ (entries : List (Bytes32 × TxPoolEntry)) (selected : List Bytes) (usedBytes : Nat),
      usedBytes ≤ maxBytes → selected.length ≤ maxCount →
      selectLoop maxCount maxBytes filter selected usedBytes entries =
        selected ++ (greedyEntries (maxCount - selected.length) (maxBytes - usedBytes)
          (unfiltered filter entries)).map fun p => p.2.raw := by
  intro entries
  induction entries with
  | nil =>
    intro selected usedBytes _ _
    simp [selectLoop, unfiltered, greedyEntries, greedy]
  | cons entry rest ih =>
    intro selected usedBytes hused hcount
    rw [selectLoop]
    by_cases hfilter : filter entry.2.raw = true
    · have hskip : unfiltered filter (entry :: rest) = unfiltered filter rest :=
        List.filter_cons_of_neg (by simp [hfilter])
      rw [if_pos hfilter, hskip]
      exact ih selected usedBytes hused hcount
    · have hkeep : unfiltered filter (entry :: rest) = entry :: unfiltered filter rest :=
        List.filter_cons_of_pos (by simp [hfilter])
      rw [if_neg hfilter, hkeep]
      split
      · rename_i hfull
        rw [Nat.sub_eq_zero_of_le hfull, greedyEntries, greedy_zero]
        simp
      · rename_i hroom
        obtain ⟨n, hn⟩ : ∃ n, maxCount - selected.length = n + 1 :=
          ⟨maxCount - selected.length - 1, by omega⟩
        rw [hn, greedyEntries, greedy]
        split
        · rename_i hlarge
          rw [if_neg (by omega), ih selected usedBytes hused hcount, hn]
          rfl
        · rename_i hfits
          have hlen : (selected ++ [entry.2.raw]).length = selected.length + 1 := by simp
          rw [if_pos (by omega), ih _ _ (by omega) (by omega), hlen,
            show maxCount - (selected.length + 1) = n by omega,
            show maxBytes - (usedBytes + entry.2.size) = maxBytes - usedBytes - entry.2.size by
              omega, List.append_assoc]
          rfl

theorem TxPool.ranked_sortedEntries (pool : TxPool)
    (hweight : ∀ p ∈ pool.residents, 0 < p.2.weight) (ord : VisitOrder Bytes32) :
    Ranked MinedBefore (ord.entries pool.txs)
      ((ord.entries pool.txs).insertionSort fun a b => compareEntriesForMining a b ≠ .gt) := by
  have hranks := minedBefore_ranks hweight
  -- the sort asks for "not after", which is "before" on distinct residents
  have hle : ∀ a ∈ pool.residents, ∀ b ∈ pool.residents, a ≠ b →
      (compareEntriesForMining a b ≠ .gt ↔ MinedBefore a b) := by
    intro a ha b hb hne
    constructor
    · intro hgt
      rcases hranks.total a ha b hb hne with h | h
      · exact h
      · rw [MinedBefore, compareEntriesForMining_eq (hweight b hb) (hweight a ha),
          compare_lt_iff_lt] at h
        rw [compareEntriesForMining_eq (hweight a ha) (hweight b hb)] at hgt
        exact absurd (compare_gt_iff_gt.mpr h) hgt
    · intro h hgt
      rw [MinedBefore, hgt] at h
      cases h
  exact hranks.ranked_insertionSort hle (fun _ => ord.mem_entries.mp) (ord.nodup_entries pool.txs)

theorem TxPool.sortedEntries_order_free (pool : TxPool)
    (hweight : ∀ p ∈ pool.residents, 0 < p.2.weight) (ord ord' : VisitOrder Bytes32) :
    (ord.entries pool.txs).insertionSort (fun a b => compareEntriesForMining a b ≠ .gt) =
      (ord'.entries pool.txs).insertionSort fun a b => compareEntriesForMining a b ≠ .gt := by
  obtain ⟨hperm, hpairs⟩ := pool.ranked_sortedEntries hweight ord'
  have hentries : (ord.entries pool.txs).Perm (ord'.entries pool.txs) := by
    refine (List.perm_ext_iff_of_nodup (ord.nodup_entries _) (ord'.nodup_entries _)).mpr ?_
    intro p
    rw [VisitOrder.mem_entries, VisitOrder.mem_entries]
  refine (minedBefore_ranks hweight).ranked_unique (fun _ => ord.mem_entries.mp)
    (pool.ranked_sortedEntries hweight ord) ?_
  exact ⟨hperm.trans hentries.symm, hpairs⟩

/-- A pool whose only resident has weight 1 and the given serialised bytes. -/
def singlePool (raw : Bytes) : TxPool :=
  { TxPool.newWithOwner .default none with
    txs := Finmap.singleton zero32 ⟨raw, [], 5, 1, raw.length, .remote⟩ }

theorem mem_residents_singlePool {raw : Bytes} {p : Bytes32 × TxPoolEntry} :
    p ∈ (singlePool raw).residents ↔ p = (zero32, ⟨raw, [], 5, 1, raw.length, .remote⟩) := by
  change (Finmap.singleton zero32 _ : Finmap fun _ : Bytes32 => TxPoolEntry).lookup p.1 =
    some p.2 ↔ _
  by_cases htxid : p.1 = zero32
  · rw [htxid, Finmap.lookup_singleton_eq, Prod.ext_iff, Option.some.injEq]
    exact ⟨fun h => ⟨htxid, h.symm⟩, fun h => h.2.symm⟩
  · have hnone : (Finmap.singleton zero32 (⟨raw, [], 5, 1, raw.length, .remote⟩ : TxPoolEntry) :
        Finmap fun _ : Bytes32 => TxPoolEntry).lookup p.1 = none := by
      rw [Finmap.lookup_eq_none, Finmap.mem_singleton]
      exact htxid
    rw [hnone]
    refine ⟨nofun, fun h => absurd ?_ htxid⟩
    rw [h]

theorem ranked_singlePool {raw : Bytes} {ranked : List (Bytes32 × TxPoolEntry)}
    (hmem : ∀ p, p ∈ ranked ↔ p ∈ (singlePool raw).residents)
    (hpairs : ranked.Pairwise MinedBefore) :
    ranked = [(zero32, ⟨raw, [], 5, 1, raw.length, .remote⟩)] := by
  have hweight : ∀ p ∈ (singlePool raw).residents, 0 < p.2.weight := by
    intro p hp
    rw [mem_residents_singlePool.mp hp]
    exact Nat.one_pos
  have hranks := minedBefore_ranks hweight
  refine hranks.ranked_unique (fun p hp => (hmem p).mp hp) ⟨List.Perm.refl _, hpairs⟩ ?_
  refine ⟨?_, List.pairwise_singleton _ _⟩
  have hnodup : ranked.Nodup := by
    refine hpairs.imp_of_mem ?_
    rintro a b ha _ hab rfl
    exact hranks.irrefl a ((hmem a).mp ha) hab
  refine (List.perm_ext_iff_of_nodup (List.nodup_singleton _) hnodup).mpr ?_
  intro p
  rw [hmem, mem_residents_singlePool, List.mem_singleton]

end Rubin.Node
