/-
# Block locators

`locator_hashes` and `hashes_after_locators` of `blockstore.rs`.  A node that asks for blocks names a
few hashes of its own canonical chain, dense at the tip and ever sparser towards genesis.  The peer
looks for the first of them in its own chain and answers with what follows there.
-/
import Rubin.Node.BlockStore

namespace Rubin.Node

open Rubin.Lib Rubin.Consensus

namespace BlockStore

/-! ## 1. The functions -/

/-- The loop of `locator_hashes`; there are at most `limit` turns, which is the first argument at the
start. -/
def locatorLoop (store : BlockStore) (limit : Nat) : Nat → Nat → Nat → Nat → List Bytes32
  | 0, _, _, _ => []
  | turns + 1, tipHeight, step, appended =>
    match store.canonicalHash tipHeight with
    | none => []
    | some hash =>
      let appended := appended + 1
      if appended ≥ limit ∨ tipHeight = 0 then [hash]
      else
        let step := if appended ≥ 10 then min (step * 2) u64Max else step
        let tipHeight := if tipHeight ≤ step then 0 else tipHeight - step
        hash :: locatorLoop store limit turns tipHeight step appended

def locatorHashes (store : BlockStore) (limit : Nat) : List Bytes32 :=
  let limit := if limit = 0 then 32 else limit
  match store.tip with
  | none => []
  | some (tipHeight, _) => locatorLoop store limit limit tipHeight 1 0

/-- Where the answer to the locators starts. -/
def startHeight (store : BlockStore) (locatorHashes : List Bytes32) : Nat :=
  match locatorHashes.findSome? store.findCanonicalHeight with
  | some height => height + 1
  | none => 0

/-- The loop of `hashes_after_locators` over the heights, with what it has collected. -/
def collectHashes (store : BlockStore) (stopHash : Bytes32) (limit : Nat) :
    List Nat → List Bytes32 → List Bytes32
  | [], out => out
  | height :: heights, out =>
    if out.length ≥ limit then out
    else
      match store.canonicalHash height with
      | none => out
      | some hash =>
        if stopHash ≠ zero32 ∧ hash = stopHash then out ++ [hash]
        else collectHashes store stopHash limit heights (out ++ [hash])

def hashesAfterLocators (store : BlockStore) (locatorHashes : List Bytes32) (stopHash : Bytes32)
    (limit : Nat) : List Bytes32 :=
  let limit := if limit = 0 then 128 else limit
  match store.tip with
  | none => []
  | some (tipHeight, _) =>
    let startHeight := store.startHeight locatorHashes
    store.collectHashes stopHash limit (List.range' startHeight (tipHeight + 1 - startHeight)) []

/-! ## 2. The first common locator -/

variable {a b : BlockStore}

variable {height fork : Nat} {hash : Bytes32}

theorem findCanonicalHeight_eq_some (hnodup : b.canonicalHashByHeight.Nodup)
    (h : b.canonicalHash height = some hash) : b.findCanonicalHeight hash = some height := by
  cases hfind : b.findCanonicalHeight hash with
  | none =>
    have hlt := (List.getElem?_eq_some_iff.mp h).1
    have hnot := List.find?_eq_none.mp hfind height
      (List.mem_reverse.mpr (List.mem_range.mpr hlt))
    exact absurd (decide_eq_true h) hnot
  | some height' =>
    have hfound : b.canonicalHash height' = some hash := by
      simpa using List.find?_some hfind
    rw [(List.getElem?_inj (List.getElem?_eq_some_iff.mp hfound).1 hnodup).mp
      (hfound.trans h.symm)]

theorem findCanonicalHeight_eq_none (h : ∀ height, b.canonicalHash height ≠ some hash) :
    b.findCanonicalHeight hash = none :=
  List.find?_eq_none.mpr fun height _ hfound => h height (of_decide_eq_true hfound)

theorem startHeight_cons_some {rest : List Bytes32} (h : b.findCanonicalHeight hash = some height) :
    b.startHeight (hash :: rest) = height + 1 := by
  rw [startHeight, List.findSome?_cons, h]

theorem startHeight_cons_none {rest : List Bytes32} (h : b.findCanonicalHeight hash = none) :
    b.startHeight (hash :: rest) = b.startHeight rest := by
  rw [startHeight, startHeight, List.findSome?_cons, h]

/-- Two chains of distinct hashes that agree up to the height `fork` and share no hash above it. -/
structure Forked (a b : BlockStore) (fork : Nat) : Prop where
  distinctA : a.canonicalHashByHeight.Nodup
  distinctB : b.canonicalHashByHeight.Nodup
  inA : fork < a.canonicalHashByHeight.length
  inB : fork < b.canonicalHashByHeight.length
  agree : ∀ height ≤ fork, a.canonicalHash height = b.canonicalHash height
  apart : ∀ height height' hash, fork < height → fork < height' →
    a.canonicalHash height = some hash → b.canonicalHash height' ≠ some hash

theorem Forked.below (h : Forked a b fork) (hle : height ≤ fork)
    (hhash : a.canonicalHash height = some hash) : b.findCanonicalHeight hash = some height :=
  findCanonicalHeight_eq_some h.distinctB ((h.agree height hle).symm.trans hhash)

theorem Forked.above (h : Forked a b fork) (hlt : fork < height)
    (hhash : a.canonicalHash height = some hash) : b.findCanonicalHeight hash = none := by
  refine findCanonicalHeight_eq_none fun height' hhash' => ?_
  by_cases hle : height' ≤ fork
  · have hsame : a.canonicalHash height' = some hash := (h.agree height' hle).trans hhash'
    have heq := (List.getElem?_inj (List.getElem?_eq_some_iff.mp hhash).1 h.distinctA).mp
      (hhash.trans hsame.symm)
    omega
  · exact h.apart height height' hash hlt (by omega) hhash hhash'

/-- `height` is where a search may stop that started `depth` blocks above the fork: at most
`depth - 9` blocks below the fork, and not below it at all for `depth ≤ 9`. -/
def NearFork (fork depth height : Nat) : Prop := fork ≤ height + (depth - 9)

/-- What holds when a turn begins at `height` after `appended` entries: ten entries lie one block
apart, then the step is at most the distance from the tip, less a constant. -/
structure LocatorInv (tip height step appended : Nat) : Prop where
  dense : appended ≤ 9 → height + appended = tip ∧ step = 1
  sparse : 9 ≤ appended → height = 0 ∨ 2 * step + 7 + height ≤ tip

/-- **One turn**: the next height keeps the invariant, and is near the fork if it is not above it. -/
theorem LocatorInv.next {tip step appended : Nat} (h : LocatorInv tip height step appended)
    (habove : fork < height) (hfork : fork ≤ tip) :
    let step' := if appended + 1 ≥ 10 then min (step * 2) u64Max else step
    let height' := if height ≤ step' then 0 else height - step'
    LocatorInv tip height' step' (appended + 1) ∧
      (height' ≤ fork → NearFork fork (tip - fork) height') := by
  intro step' height'
  by_cases hdense : appended + 1 ≥ 10
  · have hstep' : step' ≤ step * 2 := by
      change (if appended + 1 ≥ 10 then min (step * 2) u64Max else step) ≤ _
      rw [if_pos hdense]
      exact min_le_left _ _
    have hroom : 2 * step + 7 + height ≤ tip := (h.sparse (by omega)).resolve_left (by omega)
    have hheight' : height' = 0 ∧ height ≤ step' ∨ height' + step' = height := by
      change (if height ≤ step' then 0 else height - step') = 0 ∧ _ ∨ _
      split
      · rename_i hle
        exact .inl ⟨rfl, hle⟩
      · refine .inr ?_
        change (if height ≤ step' then 0 else height - step') + step' = height
        rw [if_neg (by assumption)]
        omega
    refine ⟨⟨fun hle => absurd hle (by omega), fun _ => ?_⟩, fun hle => ?_⟩
    · rcases hheight' with ⟨hzero, -⟩ | hstep
      · exact .inl hzero
      · exact .inr (by omega)
    · rw [NearFork]
      rcases hheight' with ⟨hzero, hshort⟩ | hstep
      · omega
      · omega
  · obtain ⟨hpos, hone⟩ := h.dense (by omega)
    have hstep' : step' = 1 := by
      change (if appended + 1 ≥ 10 then min (step * 2) u64Max else step) = 1
      rw [if_neg hdense]
      exact hone
    have hheight' : height' + 1 = height := by
      change (if height ≤ step' then 0 else height - step') + 1 = height
      rw [hstep']
      split
      · omega
      · omega
    refine ⟨⟨fun _ => ⟨by omega, hstep'⟩, fun hle => .inr (by omega)⟩, fun hle => ?_⟩
    rw [NearFork]
    omega

/-- **The loop over the locators.**  If it gets down to genesis, the other chain's search ends at a
common block near the fork. -/
theorem forkStart_loop {tip limit : Nat} (h : Forked a b fork) (hfork : fork ≤ tip)
    {genesis : Bytes32} (hgenesis : a.canonicalHash 0 = some genesis) (turns : Nat) :
    ∀ height step appended, LocatorInv tip height step appended →
      (height ≤ fork → NearFork fork (tip - fork) height) →
      genesis ∈ a.locatorLoop limit turns height step appended →
      ∃ common ≤ fork, NearFork fork (tip - fork) common ∧
        b.startHeight (a.locatorLoop limit turns height step appended) = common + 1 := by
  induction turns with
  | zero => exact fun _ _ _ _ _ hmem => nomatch hmem
  | succ turns ih =>
    intro height step appended hinv hnear hmem
    rw [locatorLoop] at hmem ⊢
    cases hhash : a.canonicalHash height with
    | none =>
      rw [hhash] at hmem
      cases hmem
    | some hash =>
      rw [hhash] at hmem
      dsimp only at hmem ⊢
      by_cases hbelow : height ≤ fork
      · refine ⟨height, hbelow, hnear hbelow, ?_⟩
        split
        · exact startHeight_cons_some (h.below hbelow hhash)
        · exact startHeight_cons_some (h.below hbelow hhash)
      · have habove : fork < height := by omega
        have hne : hash ≠ genesis := by
          rintro rfl
          have heq := (List.getElem?_inj (List.getElem?_eq_some_iff.mp hhash).1 h.distinctA).mp
            (hhash.trans hgenesis.symm)
          omega
        split at hmem
        · exact absurd (List.mem_singleton.mp hmem).symm hne
        · rename_i hgo
          rw [if_neg hgo, startHeight_cons_none (h.above habove hhash)]
          obtain ⟨hinv', hnear'⟩ := hinv.next habove hfork
          exact ih _ _ _ hinv' hnear' ((List.mem_cons.mp hmem).resolve_left (Ne.symm hne))

/-! ## 3. The answer -/

/-- Up to the stop hash, which stays in; the zero hash does not stop. -/
def upTo (stopHash : Bytes32) : List Bytes32 → List Bytes32
  | [] => []
  | hash :: hashes =>
    if stopHash ≠ zero32 ∧ hash = stopHash then [hash] else hash :: upTo stopHash hashes

theorem upTo_eq_take (stopHash : Bytes32) (hashes : List Bytes32) :
    ∃ n, upTo stopHash hashes = hashes.take n := by
  induction hashes with
  | nil => exact ⟨0, rfl⟩
  | cons hash hashes ih =>
    rw [upTo]
    split
    · exact ⟨1, by rw [List.take_succ_cons, List.take_zero]⟩
    · obtain ⟨n, hn⟩ := ih
      exact ⟨n + 1, by rw [hn, List.take_succ_cons]⟩

theorem getLast?_upTo {stopHash : Bytes32} (hstop : stopHash ≠ zero32) {hashes : List Bytes32}
    (h : stopHash ∈ upTo stopHash hashes) : (upTo stopHash hashes).getLast? = some stopHash := by
  induction hashes with
  | nil => cases h
  | cons hash hashes ih =>
    rw [upTo] at h ⊢
    split at h
    · rename_i hhit
      rw [if_pos hhit, hhit.2]
      rfl
    · rename_i hmiss
      have hne : stopHash ≠ hash := fun heq => hmiss ⟨hstop, heq.symm⟩
      have hrest := ih ((List.mem_cons.mp h).resolve_left hne)
      rw [if_neg hmiss, List.getLast?_cons, hrest]
      rfl

theorem upTo_of_notMem {stopHash : Bytes32} {hashes : List Bytes32}
    (h : stopHash ≠ zero32 → stopHash ∉ upTo stopHash hashes) : upTo stopHash hashes = hashes := by
  induction hashes with
  | nil => rfl
  | cons hash hashes ih =>
    rw [upTo] at h ⊢
    split at h
    · rename_i hhit
      refine absurd ?_ (h hhit.1)
      rw [hhit.2]
      exact List.mem_cons_self
    · rename_i hmiss
      rw [if_neg hmiss, ih fun hstop hmem => h hstop (List.mem_cons_of_mem _ hmem)]

/-- **The collecting loop** returns what it has and then the chain up to the stop hash, within the
limit. -/
theorem collectHashes_eq (store : BlockStore) (stopHash : Bytes32) (limit : Nat)
    (heights : List Nat) : ∀ (hashes out : List Bytes32),
      heights.map store.canonicalHash = hashes.map some →
      store.collectHashes stopHash limit heights out =
        out ++ upTo stopHash (hashes.take (limit - out.length)) := by
  induction heights with
  | nil =>
    intro hashes out h
    rw [List.map_eq_nil_iff.mp h.symm, List.take_nil, upTo, List.append_nil, collectHashes]
  | cons height heights ih =>
    intro hashes out h
    cases hashes with
    | nil => cases h
    | cons hash hashes =>
      rw [List.map_cons, List.map_cons, List.cons.injEq] at h
      rw [collectHashes]
      split
      · rename_i hfull
        rw [Nat.sub_eq_zero_of_le hfull, List.take_zero, upTo, List.append_nil]
      · rename_i hroom
        have hmore : limit - out.length = (limit - (out ++ [hash]).length) + 1 := by
          rw [List.length_append, List.length_singleton]
          omega
        rw [h.1]
        dsimp only
        rw [hmore, List.take_succ_cons, upTo]
        split
        · rfl
        · rw [ih hashes (out ++ [hash]) h.2, List.append_assoc, List.singleton_append]

theorem map_canonicalHash (store : BlockStore) (start : Nat) :
    ∀ n, start + n = store.canonicalHashByHeight.length →
      (List.range' start n).map store.canonicalHash =
        (store.canonicalHashByHeight.drop start).map some := by
  intro n hn
  refine List.ext_getElem? fun i => ?_
  rw [List.getElem?_map, List.getElem?_map, List.getElem?_drop]
  by_cases hi : i < n
  · rw [List.getElem?_range' hi, List.getElem?_eq_getElem (by omega)]
    rw [Option.map_some, Option.map_some, Nat.one_mul, canonicalHash,
      List.getElem?_eq_getElem (by omega)]
  · rw [List.getElem?_eq_none (by rw [List.length_range']; omega),
      List.getElem?_eq_none (by omega)]
    rfl

theorem hashesAfterLocators_eq {store : BlockStore} (hne : store.canonicalHashByHeight ≠ [])
    (locators : List Bytes32) (stopHash : Bytes32) (limit : Nat)
    (hstart : store.startHeight locators ≤ store.canonicalHashByHeight.length) :
    store.hashesAfterLocators locators stopHash limit =
      upTo stopHash ((store.canonicalHashByHeight.drop (store.startHeight locators)).take
        (if limit = 0 then 128 else limit)) := by
  have hlen : 0 < store.canonicalHashByHeight.length := List.length_pos_of_ne_nil hne
  have htip : store.tip = some (store.canonicalHashByHeight.length - 1,
      store.canonicalHashByHeight.getLast hne) := by
    rw [tip, List.getLast?_eq_some_getLast hne]
    rfl
  rw [hashesAfterLocators, htip]
  dsimp only
  rw [collectHashes_eq store stopHash _ _ _ [] (map_canonicalHash store _ _ (by omega))]
  rfl

/-- **Locators find the fork.**  For any two stores whose chains have distinct hashes, agree up to the
height `fork` and share no hash above it, and for any limit under which the locators of `a` come down
to genesis: the answer of `b` starts at a height `s` of at most `fork + 1`, and with `depth` the number
of blocks of `a` above the fork at least `fork + 1` for `depth ≤ 9` and at least
`fork + 1 - (depth - 9)` otherwise.  The answer is a run of the chain of `b` from `s`, within the
response limit (0 stands for 128), which ends at a stop hash other than zero if that occurs in it, and
otherwise goes on to the limit or to the tip. -/
theorem locators_find_fork {fork : Nat} (h : Forked a b fork) (limit : Nat)
    (hreach : ∃ genesis ∈ a.locatorHashes limit, a.canonicalHash 0 = some genesis)
    (stopHash : Bytes32) (responseLimit : Nat) :
    let depth := a.canonicalHashByHeight.length - 1 - fork
    let answer := b.hashesAfterLocators (a.locatorHashes limit) stopHash responseLimit
    let most := if responseLimit = 0 then 128 else responseLimit
    ∃ s ≤ fork + 1, (depth ≤ 9 → fork + 1 ≤ s) ∧ (9 < depth → fork + 1 - (depth - 9) ≤ s) ∧
      (∃ n, answer = (b.canonicalHashByHeight.drop s).take n) ∧ answer.length ≤ most ∧
      (stopHash ≠ zero32 → stopHash ∈ answer → answer.getLast? = some stopHash) ∧
      ((stopHash ≠ zero32 → stopHash ∉ answer) →
        answer = (b.canonicalHashByHeight.drop s).take most) := by
  intro depth answer most
  obtain ⟨genesis, hmem, hgenesis⟩ := hreach
  have hlenA := h.inA
  have hlenB := h.inB
  have hneA : a.canonicalHashByHeight ≠ [] := List.ne_nil_of_length_pos (by omega)
  have hneB : b.canonicalHashByHeight ≠ [] := List.ne_nil_of_length_pos (by omega)
  have hloop : ∃ most', a.locatorHashes limit =
      a.locatorLoop most' most' (a.canonicalHashByHeight.length - 1) 1 0 := by
    refine ⟨if limit = 0 then 32 else limit, ?_⟩
    rw [locatorHashes, tip, List.getLast?_eq_some_getLast hneA]
    rfl
  obtain ⟨most', hloop⟩ := hloop
  rw [hloop] at hmem
  have hstartInv : LocatorInv (a.canonicalHashByHeight.length - 1)
      (a.canonicalHashByHeight.length - 1) 1 0 :=
    ⟨fun _ => ⟨rfl, rfl⟩, fun hle => absurd hle (by omega)⟩
  obtain ⟨common, hcommon, hnear, hstart⟩ := forkStart_loop h (by omega) hgenesis most' _ _ _
    hstartInv (fun hle => by rw [NearFork]; omega) hmem
  rw [← hloop] at hstart
  rw [NearFork] at hnear
  have hanswer : answer = upTo stopHash ((b.canonicalHashByHeight.drop (common + 1)).take most) := by
    rw [← hstart]
    exact hashesAfterLocators_eq hneB _ stopHash responseLimit (by omega)
  refine ⟨common + 1, by omega, fun hle => by omega, fun hlt => by omega, ?_, ?_, ?_, ?_⟩
  · obtain ⟨n, hn⟩ := upTo_eq_take stopHash ((b.canonicalHashByHeight.drop (common + 1)).take most)
    exact ⟨min n most, by rw [hanswer, hn, List.take_take]⟩
  · obtain ⟨n, hn⟩ := upTo_eq_take stopHash ((b.canonicalHashByHeight.drop (common + 1)).take most)
    rw [hanswer, hn, List.take_take]
    exact (List.length_take_le _ _).trans (min_le_right _ _)
  · intro hstop hin
    rw [hanswer] at hin ⊢
    exact getLast?_upTo hstop hin
  · intro hout
    rw [hanswer] at hout ⊢
    exact upTo_of_notMem hout

theorem forked_genesis {genesis : Bytes32} (more : List Bytes32) (h : (genesis :: more).Nodup) :
    Forked (sampleStore [(genesis, [])]) (sampleStore ((genesis :: more).map fun hash => (hash, [])))
      0 where
  distinctA := List.nodup_singleton _
  distinctB := by
    rw [sampleStore, List.map_map]
    exact (List.map_id' _).symm ▸ h
  inA := Nat.zero_lt_one
  inB := Nat.succ_pos _
  agree := by
    intro height hle
    rw [Nat.le_zero.mp hle]
    rfl
  apart := by
    intro height height' hash hlt _ hhash
    rw [canonicalHash, List.getElem?_eq_none (by exact hlt)] at hhash
    cases hhash

/-- A node at genesis asks a peer that is two blocks ahead. -/
theorem locators_find_fork_genesis :
    let a := sampleStore [(powLimit, [])]
    let b := sampleStore [(powLimit, []), (zero32, []), (BytesN.replicate 32 1, [])]
    ∃ s ≤ 1, 1 ≤ s ∧ (b.hashesAfterLocators (a.locatorHashes 0) zero32 7) =
      (b.canonicalHashByHeight.drop s).take 7 := by
  intro a b
  have hfork : Forked a b 0 := forked_genesis [zero32, BytesN.replicate 32 1] (by decide)
  obtain ⟨s, hs, hlow, -, -, -, -, hrun⟩ := locators_find_fork hfork 0
    ⟨powLimit, by decide +kernel, rfl⟩ zero32 7
  exact ⟨s, hs, hlow (by decide), hrun fun hstop => absurd rfl hstop⟩

/-- **The zero hash does not stop.**  It occurs in the answer, which does not end there. -/
theorem zero_hash_does_not_stop :
    let a := sampleStore [(powLimit, [])]
    let b := sampleStore [(powLimit, []), (zero32, []), (BytesN.replicate 32 1, [])]
    let answer := b.hashesAfterLocators (a.locatorHashes 0) zero32 7
    Forked a b 0 ∧ (∃ genesis ∈ a.locatorHashes 0, a.canonicalHash 0 = some genesis) ∧
      zero32 ∈ answer ∧ answer.getLast? ≠ some zero32 := by
  refine ⟨forked_genesis [zero32, BytesN.replicate 32 1] (by decide),
    ⟨powLimit, by decide +kernel, rfl⟩, by decide +kernel, by decide +kernel⟩

end BlockStore

end Rubin.Node
