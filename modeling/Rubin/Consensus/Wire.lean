/-
# Reading words and CompactSize lengths

`wire_read.rs` and `compactsize.rs`, and what they read: every fixed-width read is a codec, and
the CompactSize reader accepts exactly the minimal encodings.

A CompactSize is never read for its own sake: it counts what follows.  `Codec.compactBind` is the
rule for that.  The count of an in-memory list is not bounded by anything, so a list that is too
long would be encoded under a wrong count; the rule shows that such a list is never confused with
an accepted one, because an accepted count is below `2 ^ 32` and so its tag is not `0xff`.
-/
import Rubin.Consensus.Basic

namespace Rubin.Consensus

open Rubin.Lib

/-! ## 1. `wire_read.rs` -/

def readU8 : Parser TxError UInt8 := do
  let bs ← Reader.take 1 (.parse "unexpected EOF (u8)")
  pure (UInt8.ofNat (leToNat bs))

def readU16Le : Parser TxError UInt16 := do
  let bs ← Reader.take 2 (.parse "unexpected EOF (u16le)")
  pure (UInt16.ofNat (leToNat bs))

def readU32Le : Parser TxError UInt32 := do
  let bs ← Reader.take 4 (.parse "unexpected EOF (u32le)")
  pure (UInt32.ofNat (leToNat bs))

def readU64Le : Parser TxError UInt64 := do
  let bs ← Reader.take 8 (.parse "unexpected EOF (u64le)")
  pure (UInt64.ofNat (leToNat bs))

def readBytes (n : Nat) : Parser TxError Bytes :=
  Reader.take n (.parse "unexpected EOF (bytes)")

def read32 : Parser TxError Bytes32 := do
  let bs ← readBytes 32
  pure (BytesN.ofList 32 bs)

def u8Bytes (v : UInt8) : Bytes := natToLe 1 v.toNat
def u16LeBytes (v : UInt16) : Bytes := natToLe 2 v.toNat
def u32LeBytes (v : UInt32) : Bytes := natToLe 4 v.toNat
def u64LeBytes (v : UInt64) : Bytes := natToLe 8 v.toNat

@[simp] theorem u16LeBytes_length (v : UInt16) : (u16LeBytes v).length = 2 := natToLe_length _ _
@[simp] theorem u32LeBytes_length (v : UInt32) : (u32LeBytes v).length = 4 := natToLe_length _ _
@[simp] theorem u64LeBytes_length (v : UInt64) : (u64LeBytes v).length = 8 := natToLe_length _ _

/-- A fixed-width read is a codec as soon as the width holds the type's values. -/
theorem word_codec {ε W : Type} (k : Nat) (e : ε) (ofNat : Nat → W) (toNat : W → Nat)
    (hlt : ∀ w, toNat w < 256 ^ k) (hto : ∀ n, n < 256 ^ k → toNat (ofNat n) = n)
    (hof : ∀ w, ofNat (toNat w) = w) :
    Codec (do let bs ← Reader.take k e; pure (ofNat (leToNat bs))) (fun w => natToLe k (toNat w))
      (fun _ => True) (fun _ => True) := by
  have h := Codec.map (fun bs => ofNat (leToNat bs)) (fun w => natToLe k (toNat w))
    (Codec.take k e)
    (fun bs hbs => by
      subst hbs
      rw [hto _ (leToNat_lt bs), natToLe_leToNat])
    (fun w => by rw [leToNat_natToLe, Nat.mod_eq_of_lt (hlt w), hof])
  exact h.weaken (fun _ _ => rfl) (fun _ _ => natToLe_length _ _) (fun _ _ _ => trivial)
    (fun _ _ => Iff.rfl)

theorem readU8_codec : Codec readU8 u8Bytes (fun _ => True) (fun _ => True) :=
  word_codec 1 _ UInt8.ofNat UInt8.toNat (fun w => w.toNat_lt)
    (fun _ h => UInt8.toNat_ofNat_of_lt' h) (fun _ => UInt8.ofNat_toNat)

theorem readU16Le_codec : Codec readU16Le u16LeBytes (fun _ => True) (fun _ => True) :=
  word_codec 2 _ UInt16.ofNat UInt16.toNat (fun w => w.toNat_lt)
    (fun _ h => UInt16.toNat_ofNat_of_lt' h) (fun _ => UInt16.ofNat_toNat)

theorem readU32Le_codec : Codec readU32Le u32LeBytes (fun _ => True) (fun _ => True) :=
  word_codec 4 _ UInt32.ofNat UInt32.toNat (fun w => w.toNat_lt)
    (fun _ h => UInt32.toNat_ofNat_of_lt' h) (fun _ => UInt32.ofNat_toNat)

theorem readU64Le_codec : Codec readU64Le u64LeBytes (fun _ => True) (fun _ => True) :=
  word_codec 8 _ UInt64.ofNat UInt64.toNat (fun w => w.toNat_lt)
    (fun _ h => UInt64.toNat_ofNat_of_lt' h) (fun _ => UInt64.ofNat_toNat)

theorem readBytes_codec (n : Nat) :
    Codec (readBytes n) (fun bs => bs) (fun bs => bs.length = n) (fun _ => True) :=
  Codec.take n _

theorem read32_codec : Codec read32 BytesN.toList (fun _ => True) (fun _ => True) :=
  (Codec.map (BytesN.ofList 32) BytesN.toList (readBytes_codec 32)
    (fun _ h => BytesN.toList_ofList h) BytesN.ofList_toList).weaken
    (fun _ _ => rfl) (fun v _ => v.length_toList) (fun _ _ _ => trivial) (fun _ _ => Iff.rfl)

/-! ## 2. `compactsize.rs` -/

/-- The value after a CompactSize tag, and whether that tag was the shortest one for it. -/
def readCompactSizeBody (tag : UInt8) : Parser TxError (Nat × Bool) :=
  if tag ≤ 0xfc then pure (tag.toNat, true)
  else if tag = 0xfd then do
    let v ← readU16Le
    pure (v.toNat, decide (0xfd ≤ v.toNat))
  else if tag = 0xfe then do
    let v ← readU32Le
    pure (v.toNat, decide (0xffff < v.toNat))
  else do
    let v ← readU64Le
    pure (v.toNat, decide (0xffffffff < v.toNat))

/-- Returns the value and the number of bytes it took. -/
def readCompactSize : Parser TxError (Nat × Nat) := do
  let start ← Reader.offset
  let tag ← readU8
  let vm ← readCompactSizeBody tag
  Parser.rejectIf (vm.2 = false) (.parse "non-minimal CompactSize")
  let stop ← Reader.offset
  pure (vm.1, stop - start)

/-- The source's argument is a `u64`; lengths are passed to it as they are. -/
def encodeCompactSize (n : Nat) : Bytes :=
  if n ≤ 0xfc then [UInt8.ofNat n]
  else if n ≤ 0xffff then 0xfd :: natToLe 2 n
  else if n ≤ 0xffffffff then 0xfe :: natToLe 4 n
  else 0xff :: natToLe 8 n

theorem readCompactSizeBody_sound {tag : UInt8} {r r' : Reader} {v : Nat}
    (h : readCompactSizeBody tag r = .ok ((v, true), r')) :
    v < 2 ^ 64 ∧ ∃ body, encodeCompactSize v = tag :: body ∧ r.rest = body ++ r'.rest ∧
      r'.off = r.off + body.length := by
  unfold readCompactSizeBody at h
  split at h
  · rename_i htag
    have hle : tag.toNat ≤ 0xfc := UInt8.le_iff_toNat_le.mp htag
    simp only [Parser.pure_eq_ok, Prod.mk.injEq, and_true] at h
    obtain ⟨rfl, rfl⟩ := h
    exact ⟨by omega, [], by simp [encodeCompactSize, hle, UInt8.ofNat_toNat], rfl, rfl⟩
  · rename_i htag
    have hgt : ¬ tag.toNat ≤ 0xfc := fun h => htag (UInt8.le_iff_toNat_le.mpr h)
    split at h
    · rename_i h16
      simp only [Parser.bind_eq_ok, Parser.pure_eq_ok, Prod.mk.injEq, decide_eq_true_eq] at h
      obtain ⟨w, _, hw, ⟨rfl, hmin⟩, rfl⟩ := h
      obtain ⟨-, -, hrest, hoff⟩ := readU16Le_codec.sound hw
      have hlt := w.toNat_lt
      refine ⟨by omega, u16LeBytes w, ?_, hrest, hoff⟩
      simp [encodeCompactSize, h16, u16LeBytes, show ¬ w.toNat ≤ 0xfc by omega,
        show w.toNat ≤ 0xffff by omega]
    · split at h
      · rename_i h32
        simp only [Parser.bind_eq_ok, Parser.pure_eq_ok, Prod.mk.injEq, decide_eq_true_eq] at h
        obtain ⟨w, _, hw, ⟨rfl, hmin⟩, rfl⟩ := h
        obtain ⟨-, -, hrest, hoff⟩ := readU32Le_codec.sound hw
        have hlt := w.toNat_lt
        refine ⟨by omega, u32LeBytes w, ?_, hrest, hoff⟩
        simp [encodeCompactSize, h32, u32LeBytes, show ¬ w.toNat ≤ 0xfc by omega,
          show ¬ w.toNat ≤ 0xffff by omega, show w.toNat ≤ 0xffffffff by omega]
      · rename_i h16 h32
        simp only [Parser.bind_eq_ok, Parser.pure_eq_ok, Prod.mk.injEq, decide_eq_true_eq] at h
        obtain ⟨w, _, hw, ⟨rfl, hmin⟩, rfl⟩ := h
        obtain ⟨-, -, hrest, hoff⟩ := readU64Le_codec.sound hw
        have hlt := w.toNat_lt
        have h64 : tag = 0xff := by
          have := tag.toNat_lt
          have h1 : tag.toNat ≠ 0xfd := fun h => h16 (UInt8.toNat_inj.mp h)
          have h2 : tag.toNat ≠ 0xfe := fun h => h32 (UInt8.toNat_inj.mp h)
          exact UInt8.toNat_inj.mp (show tag.toNat = 0xff by omega)
        refine ⟨by omega, u64LeBytes w, ?_, hrest, hoff⟩
        simp [encodeCompactSize, h64, u64LeBytes, show ¬ w.toNat ≤ 0xfc by omega,
          show ¬ w.toNat ≤ 0xffff by omega, show ¬ w.toNat ≤ 0xffffffff by omega]

theorem readCompactSizeBody_complete {v : Nat} (hv : v < 2 ^ 64) :
    ∃ tag body, encodeCompactSize v = tag :: body ∧ ∀ t o,
      readCompactSizeBody tag ⟨body ++ t, o⟩ = .ok ((v, true), Reader.past body t o) := by
  unfold encodeCompactSize
  split
  · refine ⟨UInt8.ofNat v, [], rfl, fun t o => ?_⟩
    have hto : (UInt8.ofNat v).toNat = v := UInt8.toNat_ofNat_of_lt' (show v < 256 by omega)
    have hle : UInt8.ofNat v ≤ 0xfc := UInt8.le_iff_toNat_le.mpr (by rw [hto]; assumption)
    simp [readCompactSizeBody, hle, hto, Reader.past]
  · split
    · refine ⟨0xfd, natToLe 2 v, rfl, fun t o => ?_⟩
      have hto : (UInt16.ofNat v).toNat = v := UInt16.toNat_ofNat_of_lt' (show v < 65536 by omega)
      have h := readU16Le_codec.complete (a := UInt16.ofNat v) trivial trivial t o
      rw [u16LeBytes, hto] at h
      simp only [readCompactSizeBody, if_neg (by decide : ¬ (0xfd : UInt8) ≤ 0xfc), if_true,
        Parser.bind_eq_ok, Parser.pure_eq_ok, Prod.mk.injEq, decide_eq_true_eq]
      exact ⟨_, _, h, ⟨hto, by omega⟩, rfl⟩
    · split
      · refine ⟨0xfe, natToLe 4 v, rfl, fun t o => ?_⟩
        have hto : (UInt32.ofNat v).toNat = v := UInt32.toNat_ofNat_of_lt'
          (show v < 4294967296 by omega)
        have h := readU32Le_codec.complete (a := UInt32.ofNat v) trivial trivial t o
        rw [u32LeBytes, hto] at h
        simp only [readCompactSizeBody, if_neg (by decide : ¬ (0xfe : UInt8) ≤ 0xfc),
          if_neg (by decide : ¬ (0xfe : UInt8) = 0xfd), if_true, Parser.bind_eq_ok,
          Parser.pure_eq_ok, Prod.mk.injEq, decide_eq_true_eq]
        exact ⟨_, _, h, ⟨hto, by omega⟩, rfl⟩
      · refine ⟨0xff, natToLe 8 v, rfl, fun t o => ?_⟩
        have hto : (UInt64.ofNat v).toNat = v := UInt64.toNat_ofNat_of_lt' hv
        have h := readU64Le_codec.complete (a := UInt64.ofNat v) trivial trivial t o
        rw [u64LeBytes, hto] at h
        simp only [readCompactSizeBody, if_neg (by decide : ¬ (0xff : UInt8) ≤ 0xfc),
          if_neg (by decide : ¬ (0xff : UInt8) = 0xfd),
          if_neg (by decide : ¬ (0xff : UInt8) = 0xfe), Parser.bind_eq_ok,
          Parser.pure_eq_ok, Prod.mk.injEq, decide_eq_true_eq]
        exact ⟨_, _, h, ⟨hto, by omega⟩, rfl⟩

theorem readCompactSize_sound {r r' : Reader} {v k : Nat}
    (h : readCompactSize r = .ok ((v, k), r')) :
    v < 2 ^ 64 ∧ k = (encodeCompactSize v).length ∧ r.rest = encodeCompactSize v ++ r'.rest ∧
      r'.off = r.off + (encodeCompactSize v).length := by
  simp only [readCompactSize, Parser.bind_eq_ok, Reader.offset_eq_ok, Parser.rejectIf_eq_ok,
    Parser.pure_eq_ok, Prod.mk.injEq, Bool.not_eq_false] at h
  obtain ⟨_, _, ⟨rfl, rfl⟩, tag, r₁, htag, ⟨w, b⟩, r₂, hbody, -, _, ⟨rfl, rfl⟩, _, _, ⟨rfl, rfl⟩,
    ⟨rfl, hk⟩, rfl⟩ := h
  obtain ⟨-, -, hrest₁, hoff₁⟩ := readU8_codec.sound htag
  obtain ⟨hlt, body, henc, hrest₂, hoff₂⟩ := readCompactSizeBody_sound hbody
  have htb : u8Bytes tag = [tag] := by simp [u8Bytes, natToLe, UInt8.ofNat_toNat]
  rw [htb] at hrest₁ hoff₁
  simp only [List.length_singleton] at hoff₁
  refine ⟨hlt, ?_, ?_, ?_⟩
  · rw [henc, List.length_cons]
    omega
  · rw [hrest₁, hrest₂, henc]
    rfl
  · rw [henc, List.length_cons]
    omega

theorem readCompactSize_complete {v : Nat} (hv : v < 2 ^ 64) (t : Bytes) (o : Nat) :
    readCompactSize ⟨encodeCompactSize v ++ t, o⟩ =
      .ok ((v, (encodeCompactSize v).length), Reader.past (encodeCompactSize v) t o) := by
  obtain ⟨tag, body, henc, hbody⟩ := readCompactSizeBody_complete hv
  have htag := readU8_codec.complete (a := tag) trivial trivial (body ++ t) o
  have htb : u8Bytes tag = [tag] := by simp [u8Bytes, natToLe, UInt8.ofNat_toNat]
  rw [htb] at htag
  simp only [readCompactSize, Parser.bind_eq_ok, Reader.offset_eq_ok, Parser.rejectIf_eq_ok,
    Parser.pure_eq_ok, Prod.mk.injEq, henc]
  refine ⟨_, _, ⟨rfl, rfl⟩, tag, _, htag, (v, true), _, hbody t _, (), _, ⟨by simp, rfl⟩, _, _,
    ⟨rfl, rfl⟩, ⟨rfl, ?_⟩, ?_⟩
  · simp only [Reader.past, List.length_cons, List.length_nil]
    omega
  · rw [Reader.past_append]
    rfl

theorem encodeCompactSize_ne_nil (n : Nat) : encodeCompactSize n ≠ [] := by
  unfold encodeCompactSize
  split_ifs <;> simp

theorem encodeCompactSize_head {n : Nat} (hn : n ≤ 0xffffffff) :
    (encodeCompactSize n).head (encodeCompactSize_ne_nil n) ≠ 0xff := by
  unfold encodeCompactSize
  split_ifs with h
  · intro he
    have hto : (UInt8.ofNat n).toNat = n := UInt8.toNat_ofNat_of_lt' (show n < 256 by omega)
    have : n = 0xff := hto.symm.trans (congrArg UInt8.toNat he)
    omega
  · simp
  · simp

/-- A count below `2 ^ 32` is never confused with any other, whatever follows. -/
theorem encodeCompactSize_inj {m n : Nat} {x y : Bytes} (hm : m ≤ 0xffffffff)
    (h : encodeCompactSize m ++ x = encodeCompactSize n ++ y) : m = n := by
  have hmread := readCompactSize_complete (show m < 2 ^ 64 by omega) x 0
  by_cases hn : n < 2 ^ 64
  · have hnread := readCompactSize_complete hn y 0
    rw [h, hnread] at hmread
    simp only [Except.ok.injEq, Prod.mk.injEq] at hmread
    exact hmread.1.1.symm
  · -- the truncated count carries the tag `0xff`, which no accepted count has
    exfalso
    have hff : encodeCompactSize n = 0xff :: natToLe 8 n := by
      unfold encodeCompactSize
      rw [if_neg (by omega), if_neg (by omega), if_neg (by omega)]
    apply encodeCompactSize_head hm
    have hhead := congrArg List.head? h
    rw [hff, List.head?_append_of_ne_nil _ (encodeCompactSize_ne_nil m),
      List.head?_eq_some_head (encodeCompactSize_ne_nil m)] at hhead
    simpa using hhead

/-- A CompactSize count read by `p`, which may report errors in its own way, then a parser that
refuses every count above `limit` and otherwise reads a value with that count. -/
theorem Codec.compactBindOf {ε β : Type} {p : Parser ε (Nat × Nat)}
    (hp : ∀ r x, p r = .ok x ↔ readCompactSize r = .ok x)
    {f : Nat × Nat → Parser ε β} {T : β → Bytes}
    {D V : β → Prop} (cnt : β → Nat) (limit : Nat) (hlim : limit ≤ 0xffffffff)
    (hf : ∀ n, n ≤ limit → Codec (f (n, (encodeCompactSize n).length)) T
      (fun b => D b ∧ cnt b = n) V)
    (hbig : ∀ n k r x, limit < n → f (n, k) r ≠ .ok x) :
    Codec (p >>= f) (fun b => encodeCompactSize (cnt b) ++ T b) D
      (fun b => cnt b ≤ limit ∧ V b) where
  sound {r r' b} h := by
    obtain ⟨⟨n, k⟩, r₁, h1, h2⟩ := Parser.bind_eq_ok.mp h
    obtain ⟨-, rfl, rest1, off1⟩ := readCompactSize_sound ((hp _ _).mp h1)
    have hn : n ≤ limit := by
      by_contra hgt
      exact hbig n _ r₁ _ (by omega) h2
    obtain ⟨⟨hd, rfl⟩, hv, rest2, off2⟩ := (hf n hn).sound h2
    refine ⟨hd, ⟨hn, hv⟩, ?_, ?_⟩
    · rw [rest1, rest2, List.append_assoc]
    · rw [off2, off1, List.length_append, Nat.add_assoc]
  complete {b} hd hv t o := by
    have h1 := (hp _ _).mpr
      (readCompactSize_complete (show cnt b < 2 ^ 64 by omega) (T b ++ t) o)
    have h2 := (hf (cnt b) hv.1).complete ⟨hd, rfl⟩ hv.2 t
      (o + (encodeCompactSize (cnt b)).length)
    rw [Reader.past_append] at h2
    rw [List.append_assoc]
    exact Parser.bind_eq_ok.mpr ⟨_, _, h1, h2⟩
  inj {b b' t t'} hd' hv' hd heq := by
    rw [List.append_assoc, List.append_assoc] at heq
    have hcnt : cnt b' = cnt b := encodeCompactSize_inj (le_trans hv'.1 hlim) heq
    rw [hcnt] at heq
    exact (hf (cnt b') hv'.1).inj ⟨hd', rfl⟩ hv'.2 ⟨hd, hcnt.symm⟩ (List.append_cancel_left heq)

/-- **A counted field.**  A CompactSize count, then a parser that refuses every count above
`limit` and otherwise reads a value with that count. -/
theorem Codec.compactBind {β : Type} {f : Nat × Nat → Parser TxError β} {T : β → Bytes}
    {D V : β → Prop} (cnt : β → Nat) (limit : Nat) (hlim : limit ≤ 0xffffffff)
    (hf : ∀ n, n ≤ limit → Codec (f (n, (encodeCompactSize n).length)) T
      (fun b => D b ∧ cnt b = n) V)
    (hbig : ∀ n k r x, limit < n → f (n, k) r ≠ .ok x) :
    Codec (readCompactSize >>= f) (fun b => encodeCompactSize (cnt b) ++ T b) D
      (fun b => cnt b ≤ limit ∧ V b) :=
  compactBindOf (fun _ _ => Iff.rfl) cnt limit hlim hf hbig

end Rubin.Consensus
