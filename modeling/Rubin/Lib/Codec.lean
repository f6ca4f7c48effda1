/-
# Cursor parsers and the encodings they read

A wire parser walks a cursor over a byte slice; a serializer appends bytes to a vector.  The two
are written separately in the source, so the fact that they describe the same format has to be
proved field by field.  `Codec p enc dom valid` is what is proved about one parser `p`:

* whatever `p` accepts is a valid value and the bytes consumed are exactly its encoding (`sound`);
* every valid value in front of any suffix is read back, the cursor stopping at the suffix
  (`complete`);
* no valid value's encoding is confused with that of ANY value of `dom`, valid or not, whatever
  follows them (`inj`).

`inj` is what lets a statement start from an arbitrary in-memory value whose encoding merely
happens to be accepted.
-/
import Rubin.Lib.Outcome
import Mathlib.Tactic

namespace Rubin.Lib

abbrev Bytes := List UInt8

/-- A fixed-size byte array `[u8; n]`. -/
@[ext] structure BytesN (n : Nat) where
  toList : Bytes
  length_toList : toList.length = n
deriving DecidableEq

attribute [simp] BytesN.length_toList

instance {n : Nat} : Repr (BytesN n) := ⟨fun v => reprPrec v.toList⟩

/-- `[b; n]`. -/
def BytesN.replicate (n : Nat) (b : UInt8) : BytesN n := ⟨List.replicate n b, by simp⟩

/-- The array a slice of the right length is copied into. -/
def BytesN.ofList (n : Nat) (bs : Bytes) : BytesN n :=
  if h : bs.length = n then ⟨bs, h⟩ else BytesN.replicate n 0

variable {n : Nat}

@[simp] theorem BytesN.ofList_toList (v : BytesN n) : BytesN.ofList n v.toList = v := by
  simp [BytesN.ofList]

theorem BytesN.toList_ofList {bs : Bytes} (h : bs.length = n) :
    (BytesN.ofList n bs).toList = bs := by
  simp [BytesN.ofList, h]

theorem BytesN.toList_inj {v w : BytesN n} : v.toList = w.toList ↔ v = w :=
  BytesN.ext_iff.symm

/-! ## 1. Little-endian words -/

/-- The `k` little-endian bytes of `n`, high bits dropped. -/
def natToLe : Nat → Nat → Bytes
  | 0, _ => []
  | k + 1, n => UInt8.ofNat n :: natToLe k (n / 256)

/-- The number a little-endian byte string denotes. -/
def leToNat : Bytes → Nat
  | [] => 0
  | b :: bs => b.toNat + 256 * leToNat bs

@[simp] theorem natToLe_length : ∀ k n, (natToLe k n).length = k
  | 0, _ => rfl
  | k + 1, n => by simp [natToLe, natToLe_length k]

theorem leToNat_lt : ∀ bs : Bytes, leToNat bs < 256 ^ bs.length
  | [] => by simp [leToNat]
  | b :: bs => by
    have ih := leToNat_lt bs
    have hb := b.toNat_lt
    simp only [leToNat, List.length_cons, pow_succ]
    omega

theorem leToNat_natToLe : ∀ k n, leToNat (natToLe k n) = n % 256 ^ k
  | 0, n => by simp [natToLe, leToNat, Nat.mod_one]
  | k + 1, n => by
    have hsplit : n % 256 ^ (k + 1) = n % 256 + 256 * (n / 256 % 256 ^ k) := by
      rw [show 256 ^ (k + 1) = 256 * 256 ^ k by ring, Nat.mod_mul]
    simp only [natToLe, leToNat, leToNat_natToLe k, UInt8.toNat_ofNat', hsplit]

theorem natToLe_leToNat : ∀ bs : Bytes, natToLe bs.length (leToNat bs) = bs
  | [] => rfl
  | b :: bs => by
    have hb := b.toNat_lt
    have hmod : (b.toNat + 256 * leToNat bs) % 2 ^ 8 = b.toNat := by omega
    have hdiv : (b.toNat + 256 * leToNat bs) / 256 = leToNat bs := by omega
    simp only [List.length_cons, natToLe, leToNat, hdiv, natToLe_leToNat bs, List.cons.injEq,
      and_true]
    apply UInt8.toNat_inj.mp
    rw [UInt8.toNat_ofNat', hmod]

theorem natToLe_inj {k m : Nat} (hm : m < 256 ^ k) (hn : n < 256 ^ k)
    (h : natToLe k m = natToLe k n) : m = n := by
  have := congrArg leToNat h
  simpa [leToNat_natToLe, Nat.mod_eq_of_lt hm, Nat.mod_eq_of_lt hn] using this

/-! ## 2. The cursor -/

/-- A cursor over a slice: the bytes not read yet, and how many were read. -/
structure Reader where
  rest : Bytes
  off : Nat
deriving DecidableEq, Repr

/-- A parser: it moves the cursor or fails. -/
abbrev Parser (ε α : Type) := StateT Reader (Except ε) α

variable {ε α β γ : Type}

def Reader.new (b : Bytes) : Reader := ⟨b, 0⟩

def Reader.offset : Parser ε Nat := fun r => .ok (r.off, r)

/-- The next `n` bytes, or `eof` when the slice is shorter. -/
def Reader.take (n : Nat) (eof : ε) : Parser ε Bytes := fun r =>
  if n ≤ r.rest.length then .ok (r.rest.take n, ⟨r.rest.drop n, r.off + n⟩) else .error eof

/-- A guard inside a parser. -/
def Parser.rejectIf (bad : Prop) [Decidable bad] (e : ε) : Parser ε Unit :=
  StateT.lift (Lib.rejectIf bad e)

/-- `n` reads one after another. -/
def Parser.replicate (p : Parser ε α) : Nat → Parser ε (List α)
  | 0 => pure []
  | n + 1 => do
    let a ← p
    let as ← Parser.replicate p n
    pure (a :: as)

/-- `n` reads one after another, each handing a state on to the next. -/
def Parser.iterate {σ : Type} (p : σ → Parser ε (α × σ)) : Nat → σ → Parser ε (List α)
  | 0, _ => pure []
  | n + 1, s => do
    let x ← p s
    let as ← Parser.iterate p n x.2
    pure (x.1 :: as)

variable {p : Parser ε α} {r r' : Reader} {bad : Prop} {e : ε}

@[simp] theorem Parser.bind_eq_ok {f : α → Parser ε β} {b : β} :
    (p >>= f) r = .ok (b, r') ↔ ∃ a r₁, p r = .ok (a, r₁) ∧ f a r₁ = .ok (b, r') :=
  stateT_bind_eq_ok

@[simp] theorem Parser.pure_eq_ok {a b : α} :
    (Pure.pure a : Parser ε α) r = .ok (b, r') ↔ a = b ∧ r = r' := stateT_pure_eq_ok

@[simp] theorem Parser.lift_eq_ok {x : Except ε α} {a : α} :
    (StateT.lift x : Parser ε α) r = .ok (a, r') ↔ x = .ok a ∧ r = r' := by
  cases x <;> simp [StateT.lift, Bind.bind, Except.bind, Pure.pure, Except.pure]

@[simp] theorem Parser.rejectIf_eq_ok [Decidable bad] {u : Unit} :
    Parser.rejectIf bad e r = .ok (u, r') ↔ ¬ bad ∧ r = r' := by
  rw [Parser.rejectIf, Parser.lift_eq_ok, Lib.rejectIf_eq_ok]

@[simp] theorem Reader.offset_eq_ok :
    (Reader.offset : Parser ε Nat) r = .ok (n, r') ↔ r.off = n ∧ r = r' := by
  simp [Reader.offset]

/-- The cursor after `bs` has been read off it. -/
def Reader.past (bs t : Bytes) (o : Nat) : Reader := ⟨t, o + bs.length⟩

theorem Reader.past_append (a b t : Bytes) (o : Nat) :
    Reader.past b t (o + a.length) = Reader.past (a ++ b) t o := by
  simp [Reader.past, Nat.add_assoc]

/-! ## 3. A parser and its encoding -/

/-- `p` reads exactly the encodings `enc` of the `valid` values; see the header. -/
structure Codec (p : Parser ε α) (enc : α → Bytes) (dom valid : α → Prop) : Prop where
  sound : ∀ {r r' : Reader} {a : α}, p r = .ok (a, r') →
    dom a ∧ valid a ∧ r.rest = enc a ++ r'.rest ∧ r'.off = r.off + (enc a).length
  complete : ∀ {a : α}, dom a → valid a → ∀ (t : Bytes) (o : Nat),
    p ⟨enc a ++ t, o⟩ = .ok (a, Reader.past (enc a) t o)
  inj : ∀ {a b : α} {t u : Bytes}, dom b → valid b → dom a →
    enc b ++ u = enc a ++ t → b = a

namespace Codec

theorem weaken {E e : α → Bytes} {D d V v : α → Prop} (h : Codec p E D V)
    (he : ∀ a, d a → e a = E a) (hd : ∀ a, d a → D a) (hs : ∀ a, D a → V a → d a)
    (hv : ∀ a, d a → (v a ↔ V a)) : Codec p e d v where
  sound hp := by
    obtain ⟨h1, h2, h3, h4⟩ := h.sound hp
    have hd' := hs _ h1 h2
    rw [he _ hd']
    exact ⟨hd', (hv _ hd').mpr h2, h3, h4⟩
  complete hd' hv' t o := by
    rw [he _ hd']
    exact h.complete (hd _ hd') ((hv _ hd').mp hv') t o
  inj hd₁ hv₁ hd₂ heq := by
    rw [he _ hd₁, he _ hd₂] at heq
    exact h.inj (hd _ hd₁) ((hv _ hd₁).mp hv₁) (hd _ hd₂) heq

variable {dom valid domP validP : α → Prop} {enc : α → Bytes}

theorem pure {x : α} (hd : ∀ a, dom a ↔ a = x) :
    Codec (Pure.pure x : Parser ε α) (fun _ => []) dom (fun _ => True) where
  sound hp := by
    cases hp
    simp [hd]
  complete hd' _ t o := by
    have := (hd _).mp hd'
    subst this
    rw [Parser.pure_eq_ok]
    simp [Reader.past]
  inj hd₁ _ hd₂ _ := ((hd _).mp hd₁).trans ((hd _).mp hd₂).symm

theorem never (hp : ∀ r x, p r ≠ .ok x) (hv : ∀ a, dom a → ¬ valid a) : Codec p enc dom valid where
  sound h := absurd h (hp _ _)
  complete hd hv' := absurd hv' (hv _ hd)
  inj hd' hv' := absurd hv' (hv _ hd')

/-- One parser after another.  `proj` recovers what the first read from the final value. -/
theorem bind {f : α → Parser ε β} {encP : α → Bytes} {tail : β → Bytes} {dom valid : β → Prop}
    (proj : β → α) (hp : Codec p encP domP validP)
    (hf : ∀ a, domP a → validP a → Codec (f a) tail (fun b => dom b ∧ proj b = a) valid)
    (hdom : ∀ b, dom b → domP (proj b)) :
    Codec (p >>= f) (fun b => encP (proj b) ++ tail b) dom
      (fun b => validP (proj b) ∧ valid b) where
  sound {r r' b} h := by
    obtain ⟨a, r₁, h1, h2⟩ := Parser.bind_eq_ok.mp h
    obtain ⟨d1, v1, rest1, off1⟩ := hp.sound h1
    obtain ⟨⟨d2, rfl⟩, v2, rest2, off2⟩ := (hf a d1 v1).sound h2
    refine ⟨d2, ⟨v1, v2⟩, ?_, ?_⟩
    · rw [rest1, rest2, List.append_assoc]
    · rw [off2, off1, List.length_append, Nat.add_assoc]
  complete {b} hd hv t o := by
    have h1 := hp.complete (hdom b hd) hv.1 (tail b ++ t) o
    have h2 := (hf (proj b) (hdom b hd) hv.1).complete ⟨hd, rfl⟩ hv.2 t
      (o + (encP (proj b)).length)
    rw [Reader.past_append] at h2
    rw [List.append_assoc]
    exact Parser.bind_eq_ok.mpr ⟨_, _, h1, h2⟩
  inj {b b' t t'} hd' hv' hd heq := by
    rw [List.append_assoc, List.append_assoc] at heq
    have hproj : proj b' = proj b := hp.inj (hdom b' hd') hv'.1 (hdom b hd) heq
    rw [hproj] at heq
    exact (hf (proj b') (hdom b' hd') hv'.1).inj ⟨hd', rfl⟩ hv'.2 ⟨hd, hproj.symm⟩
      (List.append_cancel_left heq)

/-- A computation in front of a parser, its success restated as a condition on the value read. -/
theorem compute {δ : Type} {c : Except ε δ} {f : δ → Parser ε α} (good : α → Prop)
    (hc : ∀ a, dom a → ((∃ d, c = .ok d) ↔ good a))
    (hf : ∀ d, c = .ok d → Codec (f d) enc dom valid) :
    Codec (StateT.lift c >>= f) enc dom (fun a => good a ∧ valid a) where
  sound {r r' a} h := by
    simp only [Parser.bind_eq_ok, Parser.lift_eq_ok] at h
    obtain ⟨d, _, ⟨hok, rfl⟩, h⟩ := h
    obtain ⟨h1, h2, h3⟩ := (hf d hok).sound h
    exact ⟨h1, ⟨(hc a h1).mp ⟨d, hok⟩, h2⟩, h3⟩
  complete {a} hd hv t o := by
    obtain ⟨d, hok⟩ := (hc a hd).mpr hv.1
    simp only [Parser.bind_eq_ok, Parser.lift_eq_ok]
    exact ⟨d, _, ⟨hok, rfl⟩, (hf d hok).complete hd hv.2 t o⟩
  inj {a a' t t'} hd' hv' hd heq := by
    obtain ⟨d, hok⟩ := (hc a' hd').mpr hv'.1
    exact (hf d hok).inj hd' hv'.2 hd heq

theorem check {c : Except ε Unit} (good : α → Prop) (hc : ∀ a, dom a → (c = .ok () ↔ good a))
    (hp : c = .ok () → Codec p enc dom valid) :
    Codec (StateT.lift c >>= fun _ => p) enc dom (fun a => good a ∧ valid a) :=
  compute good (fun a ha => exists_unit.trans (hc a ha)) fun _ h => hp h

theorem guard [Decidable bad] (bad' : α → Prop) (hb : ∀ a, dom a → (bad ↔ bad' a))
    (hp : ¬ bad → Codec p enc dom valid) :
    Codec (Parser.rejectIf bad e >>= fun _ => p) enc dom (fun a => ¬ bad' a ∧ valid a) :=
  check (fun a => ¬ bad' a) (fun a ha => by rw [Lib.rejectIf_eq_ok, hb a ha])
    (fun h => hp (Lib.rejectIf_eq_ok.mp h))

theorem skip [Decidable bad] (hb : ¬ bad) (hp : Codec p enc dom valid) :
    Codec (Parser.rejectIf bad e >>= fun _ => p) enc dom valid :=
  (guard (fun _ => False) (fun _ _ => iff_of_false hb not_false) fun _ => hp).weaken
    (fun _ _ => rfl) (fun _ h => h) (fun _ h _ => h) (by simp)

theorem take (n : Nat) (eof : ε) :
    Codec (Reader.take n eof) (fun bs => bs) (fun bs => bs.length = n) (fun _ => True) where
  sound {r r' bs} h := by
    unfold Reader.take at h
    split at h
    · rename_i hn
      simp only [Except.ok.injEq, Prod.mk.injEq] at h
      obtain ⟨rfl, rfl⟩ := h
      simp [hn]
    · cases h
  complete {bs} hd _ t o := by
    subst hd
    simp [Reader.take, Reader.past]
  inj hd' _ hd heq := List.append_inj_left heq (hd'.trans hd.symm)

theorem embed {enc' : β → Bytes} {dom valid : β → Prop} (g : α → β) (hp : Codec p enc domP validP)
    (hdom : ∀ b, dom b ↔ ∃ a, domP a ∧ g a = b) (henc : ∀ a, domP a → enc' (g a) = enc a)
    (hvalid : ∀ a, domP a → (valid (g a) ↔ validP a)) :
    Codec (p >>= fun a => Pure.pure (g a)) enc' dom valid where
  sound {r r' b} h := by
    simp only [Parser.bind_eq_ok, Parser.pure_eq_ok] at h
    obtain ⟨a, _, h1, rfl, rfl⟩ := h
    obtain ⟨hd, hv, hrest, hoff⟩ := hp.sound h1
    rw [henc a hd]
    exact ⟨(hdom _).mpr ⟨a, hd, rfl⟩, (hvalid a hd).mpr hv, hrest, hoff⟩
  complete {b} hd hv t o := by
    obtain ⟨a, ha, rfl⟩ := (hdom b).mp hd
    rw [henc a ha]
    exact Parser.bind_eq_ok.mpr ⟨a, _, hp.complete ha ((hvalid a ha).mp hv) t o, rfl⟩
  inj {b b' t t'} hd' hv' hd heq := by
    obtain ⟨a, ha, rfl⟩ := (hdom b).mp hd
    obtain ⟨a', ha', rfl⟩ := (hdom b').mp hd'
    rw [henc a ha, henc a' ha'] at heq
    rw [hp.inj ha' ((hvalid a' ha').mp hv') ha heq]

theorem map (g : α → β) (inv : β → α) (hp : Codec p enc domP validP)
    (hleft : ∀ a, domP a → inv (g a) = a) (hright : ∀ b, g (inv b) = b) :
    Codec (p >>= fun a => Pure.pure (g a)) (fun b => enc (inv b)) (fun b => domP (inv b))
      (fun b => validP (inv b)) :=
  embed g hp
    (fun b => ⟨fun h => ⟨inv b, h, hright b⟩, by rintro ⟨a, ha, rfl⟩; rwa [hleft a ha]⟩)
    (fun a ha => by rw [hleft a ha]) (fun a ha => by rw [hleft a ha])

theorem replicate_succ_eq_ok {l : List α} :
    Parser.replicate p (n + 1) r = .ok (l, r') ↔
      ∃ a as r₁, l = a :: as ∧ p r = .ok (a, r₁) ∧ Parser.replicate p n r₁ = .ok (as, r') := by
  simp only [Parser.replicate, Parser.bind_eq_ok, Parser.pure_eq_ok]
  constructor
  · rintro ⟨a, r₁, h1, as, r₂, h2, rfl, rfl⟩
    exact ⟨a, as, r₁, rfl, h1, h2⟩
  · rintro ⟨a, as, r₁, rfl, h1, h2⟩
    exact ⟨a, r₁, h1, as, r', h2, rfl, rfl⟩

theorem replicate (hp : Codec p enc dom valid) : ∀ n : Nat,
    Codec (Parser.replicate p n) (fun as => as.flatMap enc)
      (fun as => as.length = n ∧ ∀ a ∈ as, dom a) (fun as => ∀ a ∈ as, valid a)
  | 0 => by
    have hnil : ∀ as : List α, (as.length = 0 ∧ ∀ a ∈ as, dom a) ↔ as = [] := fun as =>
      ⟨fun h => List.length_eq_zero_iff.mp h.1, fun h => by simp [h]⟩
    refine (pure hnil).weaken ?_ (fun _ h => h) (fun _ h _ => h) ?_
    · intro as h
      simp [(hnil as).mp h]
    · intro as h
      simp [(hnil as).mp h]
  | n + 1 => by
    have ih := replicate hp n
    refine ⟨?_, ?_, ?_⟩
    · intro r r' l h
      obtain ⟨a, as, r₁, rfl, h1, h2⟩ := replicate_succ_eq_ok.mp h
      obtain ⟨d1, v1, rest1, off1⟩ := hp.sound h1
      obtain ⟨⟨hlen, d2⟩, v2, rest2, off2⟩ := ih.sound h2
      refine ⟨⟨by simp [hlen], List.forall_mem_cons.mpr ⟨d1, d2⟩⟩,
        List.forall_mem_cons.mpr ⟨v1, v2⟩, ?_, ?_⟩
      · rw [rest1, rest2, List.flatMap_cons, List.append_assoc]
      · rw [off2, off1, List.flatMap_cons, List.length_append, Nat.add_assoc]
    · rintro (_ | ⟨a, as⟩) ⟨hlen, hd⟩ hv t o
      · simp at hlen
      · obtain ⟨d1, d2⟩ := List.forall_mem_cons.mp hd
        obtain ⟨v1, v2⟩ := List.forall_mem_cons.mp hv
        have h1 := hp.complete d1 v1 (as.flatMap enc ++ t) o
        have h2 := ih.complete ⟨by simpa using hlen, d2⟩ v2 t (o + (enc a).length)
        rw [List.flatMap_cons, ← Reader.past_append, List.append_assoc]
        exact replicate_succ_eq_ok.mpr ⟨a, as, _, rfl, h1, h2⟩
    · rintro (_ | ⟨a, as⟩) (_ | ⟨a', as'⟩) t t' ⟨hlen', hd'⟩ hv' ⟨hlen, hd⟩ heq
      · rfl
      · simp at hlen
      · simp at hlen'
      · obtain ⟨d1, d2⟩ := List.forall_mem_cons.mp hd
        obtain ⟨d1', d2'⟩ := List.forall_mem_cons.mp hd'
        obtain ⟨v1', v2'⟩ := List.forall_mem_cons.mp hv'
        simp only [List.flatMap_cons, List.append_assoc] at heq
        obtain rfl := hp.inj d1' v1' d1 heq
        rw [ih.inj ⟨by simpa using hlen', d2'⟩ v2' ⟨by simpa using hlen, d2⟩
          (List.append_cancel_left heq)]

section iterate

variable {σ τ : Type}

/-- Every value is valid in the state the values before it have led to. -/
def Chained (next : σ → α → σ) (valid : σ → α → Prop) : σ → List α → Prop
  | _, [] => True
  | s, a :: as => valid s a ∧ Chained next valid (next s a) as

theorem iterate_succ_eq_ok {p : σ → Parser ε (α × σ)} {s : σ} {l : List α} :
    Parser.iterate p (n + 1) s r = .ok (l, r') ↔
      ∃ x as r₁, l = x.1 :: as ∧ p s r = .ok (x, r₁) ∧
        Parser.iterate p n x.2 r₁ = .ok (as, r') := by
  simp only [Parser.iterate, Parser.bind_eq_ok, Parser.pure_eq_ok]
  constructor
  · rintro ⟨x, r₁, h1, as, r₂, h2, rfl, rfl⟩
    exact ⟨x, as, r₁, rfl, h1, h2⟩
  · rintro ⟨x, as, r₁, rfl, h1, h2⟩
    exact ⟨x, r₁, h1, as, r', h2, rfl, rfl⟩

/-- `Codec.replicate` with a running state, when the state is a function of the values read. -/
theorem iterate {p : σ → Parser ε (α × σ)} {next : σ → α → σ} {valid : σ → α → Prop}
    (hp : ∀ s, Codec (p s) (fun x => enc x.1) (fun x => dom x.1 ∧ x.2 = next s x.1)
      (fun x => valid s x.1)) : ∀ (n : Nat) (s : σ),
    Codec (Parser.iterate p n s) (fun as => as.flatMap enc)
      (fun as => as.length = n ∧ ∀ a ∈ as, dom a) (Chained next valid s)
  | 0, s => by
    have hnil : ∀ as : List α, (as.length = 0 ∧ ∀ a ∈ as, dom a) ↔ as = [] := fun as =>
      ⟨fun h => List.length_eq_zero_iff.mp h.1, fun h => by simp [h]⟩
    refine (pure hnil).weaken ?_ (fun _ h => h) (fun _ h _ => h) ?_
    · intro as h
      simp [(hnil as).mp h]
    · intro as h
      simp [(hnil as).mp h, Chained]
  | n + 1, s => by
    refine ⟨?_, ?_, ?_⟩
    · intro r r' l h
      obtain ⟨x, as, r₁, rfl, h1, h2⟩ := iterate_succ_eq_ok.mp h
      obtain ⟨⟨d1, n1⟩, v1, rest1, off1⟩ := (hp s).sound h1
      obtain ⟨⟨hlen, d2⟩, v2, rest2, off2⟩ := (iterate hp n x.2).sound h2
      rw [n1] at v2
      refine ⟨⟨by simp [hlen], List.forall_mem_cons.mpr ⟨d1, d2⟩⟩, ⟨v1, v2⟩, ?_, ?_⟩
      · rw [rest1, rest2, List.flatMap_cons, List.append_assoc]
      · rw [off2, off1, List.flatMap_cons, List.length_append, Nat.add_assoc]
    · rintro (_ | ⟨a, as⟩) ⟨hlen, hd⟩ hv t o
      · simp at hlen
      · obtain ⟨d1, d2⟩ := List.forall_mem_cons.mp hd
        have h1 := (hp s).complete (a := (a, next s a)) ⟨d1, rfl⟩ hv.1 (as.flatMap enc ++ t) o
        have h2 := (iterate hp n (next s a)).complete ⟨by simpa using hlen, d2⟩ hv.2 t
          (o + (enc a).length)
        rw [List.flatMap_cons, ← Reader.past_append, List.append_assoc]
        exact iterate_succ_eq_ok.mpr ⟨_, as, _, rfl, h1, h2⟩
    · rintro (_ | ⟨a, as⟩) (_ | ⟨a', as'⟩) t t' ⟨hlen', hd'⟩ hv' ⟨hlen, hd⟩ heq
      · rfl
      · simp at hlen
      · simp at hlen'
      · obtain ⟨d1, d2⟩ := List.forall_mem_cons.mp hd
        obtain ⟨d1', d2'⟩ := List.forall_mem_cons.mp hd'
        simp only [List.flatMap_cons, List.append_assoc] at heq
        have hx := (hp s).inj (a := (a, next s a)) (b := (a', next s a')) ⟨d1', rfl⟩ hv'.1
          ⟨d1, rfl⟩ heq
        obtain rfl : a' = a := congrArg Prod.fst hx
        rw [(iterate hp n _).inj ⟨by simpa using hlen', d2'⟩ hv'.2 ⟨by simpa using hlen, d2⟩
          (List.append_cancel_left heq)]

end iterate

end Codec

end Rubin.Lib
