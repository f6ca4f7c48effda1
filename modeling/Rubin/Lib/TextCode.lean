/-
# Bytes as text: hexadecimal and padded base64

Two encodings of byte strings by printable characters, as lists of character codes, and readers
for them.  The hexadecimal reader takes both cases of a letter, so it accepts more than the writer
writes; restricted to lower case it is the writer's inverse.  The base64 reader is strict: only the
last quad may be padded and the bits that padding discards must be zero, which leaves exactly the
writer's image (`decodeCanonical_eq_ok`).

The proofs go group by group: a quad of symbols and the three bytes it stands for are two ways to
cut one 24-bit number.
-/
import Rubin.Lib.Codec

namespace Rubin.Lib

variable {ε : Type} {e : ε}

/-! ## 1. Hexadecimal -/

variable {n : Nat} {c : UInt8}

namespace Hex

/-- The lower-case digit of a number below 16. -/
def digit (n : Nat) : UInt8 := UInt8.ofNat (if n < 10 then 48 + n else 87 + n)

def encode (bs : Bytes) : Bytes := bs.flatMap fun b => [digit (b.toNat / 16), digit (b.toNat % 16)]

/-- The value of a digit in either case. -/
def value (c : UInt8) : Option Nat :=
  if 48 ≤ c.toNat ∧ c.toNat ≤ 57 then some (c.toNat - 48)
  else if 97 ≤ c.toNat ∧ c.toNat ≤ 102 then some (c.toNat - 87)
  else if 65 ≤ c.toNat ∧ c.toNat ≤ 70 then some (c.toNat - 55)
  else none

def decode : Bytes → Option Bytes
  | [] => some []
  | [_] => none
  | c :: d :: rest => do
    let hi ← value c
    let lo ← value d
    let bs ← decode rest
    some (UInt8.ofNat (16 * hi + lo) :: bs)

/-- A digit as the writer writes it. -/
def isLower (c : UInt8) : Bool :=
  (decide (48 ≤ c.toNat) && decide (c.toNat ≤ 57)) ||
    (decide (97 ≤ c.toNat) && decide (c.toNat ≤ 102))

theorem digit_toNat (h : n < 16) : (digit n).toNat = if n < 10 then 48 + n else 87 + n := by
  unfold digit
  rw [UInt8.toNat_ofNat']
  split_ifs <;> omega

theorem value_digit (h : n < 16) : value (digit n) = some n := by
  unfold value
  rw [digit_toNat h]
  by_cases hn : n < 10
  · rw [if_pos hn, if_pos (by omega)]
    congr 1
    omega
  · rw [if_neg hn, if_neg (by omega), if_pos (by omega)]
    congr 1
    omega

theorem isLower_digit (h : n < 16) : isLower (digit n) = true := by
  unfold isLower
  rw [digit_toNat h]
  by_cases hn : n < 10
  · rw [if_pos hn]
    simp
    omega
  · rw [if_neg hn]
    simp
    omega

theorem digit_of_isLower (h : isLower c = true) : ∃ n, n < 16 ∧ value c = some n ∧ digit n = c := by
  simp only [isLower, Bool.or_eq_true, Bool.and_eq_true, decide_eq_true_eq] at h
  rcases h with ⟨h1, h2⟩ | ⟨h1, h2⟩
  · refine ⟨c.toNat - 48, by omega, if_pos ⟨h1, h2⟩, ?_⟩
    rw [← UInt8.toNat_inj, digit_toNat (by omega), if_pos (by omega)]
    omega
  · refine ⟨c.toNat - 87, by omega, ?_, ?_⟩
    · rw [value, if_neg (by omega), if_pos ⟨h1, h2⟩]
    · rw [← UInt8.toNat_inj, digit_toNat (by omega), if_neg (by omega)]
      omega

@[simp] theorem encode_length (bs : Bytes) : (encode bs).length = 2 * bs.length := by
  induction bs with
  | nil => rfl
  | cons b bs ih =>
    rw [encode, List.flatMap_cons, List.length_append, ← encode, ih, List.length_cons]
    simp only [List.length_cons, List.length_nil]
    omega

theorem isLower_encode (bs : Bytes) : ∀ c ∈ encode bs, isLower c = true := by
  intro c hc
  obtain ⟨b, -, hb⟩ := List.mem_flatMap.mp hc
  have hlt := b.toNat_lt
  rcases List.mem_cons.mp hb with rfl | hb
  · exact isLower_digit (by omega)
  · rw [List.mem_singleton.mp hb]
    exact isLower_digit (by omega)

theorem decode_encode (bs : Bytes) : decode (encode bs) = some bs := by
  induction bs with
  | nil => rfl
  | cons b bs ih =>
    have hlt := b.toNat_lt
    have hbyte : UInt8.ofNat (16 * (b.toNat / 16) + b.toNat % 16) = b := by
      rw [Nat.div_add_mod, UInt8.ofNat_toNat]
    rw [encode, List.flatMap_cons, ← encode]
    simp only [List.cons_append, List.nil_append, decode]
    rw [value_digit (by omega), value_digit (by omega), ih]
    exact congrArg (fun x => some (x :: bs)) hbyte

theorem encode_injective : Function.Injective encode := by
  intro a b h
  have hdec := congrArg decode h
  rw [decode_encode, decode_encode] at hdec
  exact Option.some.inj hdec

/-- **Lower case is canonical**: a lower-case text is read as the one string it is written for. -/
theorem encode_of_decode : ∀ {l bs : Bytes}, (∀ c ∈ l, isLower c = true) → decode l = some bs →
    l = encode bs
  | [], bs, _, h => by
    cases h
    rfl
  | [c], bs, _, h => by cases h
  | c :: d :: rest, bs, hl, h => by
    rw [List.forall_mem_cons, List.forall_mem_cons] at hl
    obtain ⟨hi, hhi, hc, hdc⟩ := digit_of_isLower hl.1
    obtain ⟨lo, hlo, hd, hdd⟩ := digit_of_isLower hl.2.1
    rw [decode, hc, hd] at h
    have h : (decode rest).bind (fun bs => some (UInt8.ofNat (16 * hi + lo) :: bs)) = some bs := h
    obtain ⟨tail, htail, hbs⟩ := Option.bind_eq_some_iff.mp h
    cases hbs
    have hbyte : (UInt8.ofNat (16 * hi + lo)).toNat = 16 * hi + lo := by
      rw [UInt8.toNat_ofNat']
      omega
    rw [encode, List.flatMap_cons, ← encode, ← encode_of_decode hl.2.2 htail, hbyte,
      show (16 * hi + lo) / 16 = hi by omega, show (16 * hi + lo) % 16 = lo by omega, hdc, hdd]
    rfl

end Hex

/-! ## 2. Base64 -/

namespace Base64

/-- The code of the pad character. -/
def pad : UInt8 := 61

/-- Upper case, lower case, digits, plus and slash. -/
def alphabet : Bytes :=
  (List.range' 65 26 ++ List.range' 97 26 ++ List.range' 48 10 ++ [43, 47]).map UInt8.ofNat

/-- The symbol of a number below 64. -/
def symbol (n : Nat) : UInt8 := alphabet.getD n 0

def symbolValue (c : UInt8) : Option Nat :=
  if 65 ≤ c.toNat ∧ c.toNat ≤ 90 then some (c.toNat - 65)
  else if 97 ≤ c.toNat ∧ c.toNat ≤ 122 then some (c.toNat - 97 + 26)
  else if 48 ≤ c.toNat ∧ c.toNat ≤ 57 then some (c.toNat - 48 + 52)
  else if c.toNat = 43 then some 62
  else if c.toNat = 47 then some 63
  else none

theorem symbolValue_symbol : ∀ n < 64, symbolValue (symbol n) = some n := by decide

theorem symbol_ne_pad : ∀ n < 64, symbol n ≠ pad := by decide

theorem symbol_of_symbolValue (h : symbolValue c = some n) : n < 64 ∧ symbol n = c := by
  have hall : ∀ k < 256, ∀ n < 64, symbolValue (UInt8.ofNat k) = some n →
      symbol n = UInt8.ofNat k := by decide +kernel
  have hlt : n < 64 := by
    unfold symbolValue at h
    split_ifs at h <;> cases h <;> omega
  have hc := hall c.toNat c.toNat_lt n hlt
  rw [UInt8.ofNat_toNat] at hc
  exact ⟨hlt, hc h⟩

/-- One to three bytes as four characters: the bytes are a 24-bit number, a missing byte counts as
zero, and a character that holds no bit of the bytes is the pad. -/
def encodeChunk (chunk : Bytes) : Bytes :=
  let packed := (chunk.getD 0 0).toNat * 65536 + (chunk.getD 1 0).toNat * 256 + (chunk.getD 2 0).toNat
  [packed / 262144, packed / 4096, packed / 64, packed].zipIdx.map fun p =>
    if p.2 > chunk.length then pad else symbol (p.1 % 64)

def encode : Bytes → Bytes
  | a :: b :: c :: rest => encodeChunk [a, b, c] ++ encode rest
  | [] => []
  | chunk => encodeChunk chunk

/-- How many characters of a quad are padding; only the last quad may have any. -/
def padOf (last : Bool) (c d : UInt8) : Nat :=
  if last = false then 0 else if d = pad then (if c = pad then 2 else 1) else 0

/-- The number that the symbols spell, six bits each. -/
def packSymbols (e : ε) : List UInt8 → (packed : Nat) → Except ε Nat
  | [], packed => .ok packed
  | c :: rest, packed => do
    let v ← okOr (symbolValue c) e
    packSymbols e rest (packed * 64 + v)

/-- One quad with `n` pads: the discarded bits must be zero. -/
def decodeQuad (e : ε) (n : Nat) (quad : List UInt8) : Except ε Bytes := do
  let packed ← packSymbols e (quad.take (4 - n)) 0
  rejectIf (packed % 2 ^ (2 * n) ≠ 0) e
  let packed := packed * 2 ^ (6 * n)
  .ok (([packed / 65536, packed / 256, packed].map UInt8.ofNat).take (3 - n))

def decodeQuads (e : ε) : Bytes → Except ε Bytes
  | a :: b :: c :: d :: rest => do
    let out ← decodeQuad e (padOf rest.isEmpty c d) [a, b, c, d]
    let more ← decodeQuads e rest
    .ok (out ++ more)
  | _ => .ok []

def decodeCanonical (e : ε) (value : Bytes) : Except ε Bytes := do
  rejectIf (value.length % 4 ≠ 0) e
  decodeQuads e value

theorem encodeChunk_three (a b c : UInt8) :
    encodeChunk [a, b, c] = [
      symbol ((a.toNat * 65536 + b.toNat * 256 + c.toNat) / 262144 % 64),
      symbol ((a.toNat * 65536 + b.toNat * 256 + c.toNat) / 4096 % 64),
      symbol ((a.toNat * 65536 + b.toNat * 256 + c.toNat) / 64 % 64),
      symbol ((a.toNat * 65536 + b.toNat * 256 + c.toNat) % 64)] := rfl

theorem encodeChunk_two (a b : UInt8) :
    encodeChunk [a, b] = [
      symbol ((a.toNat * 65536 + b.toNat * 256 + 0) / 262144 % 64),
      symbol ((a.toNat * 65536 + b.toNat * 256 + 0) / 4096 % 64),
      symbol ((a.toNat * 65536 + b.toNat * 256 + 0) / 64 % 64), pad] := rfl

theorem encodeChunk_one (a : UInt8) :
    encodeChunk [a] = [
      symbol ((a.toNat * 65536 + 0 * 256 + 0) / 262144 % 64),
      symbol ((a.toNat * 65536 + 0 * 256 + 0) / 4096 % 64), pad, pad] := rfl

theorem packSymbols_nil {packed r : Nat} : packSymbols e [] packed = .ok r ↔ packed = r := by
  rw [packSymbols, Except.ok.injEq]

theorem packSymbols_cons {rest : List UInt8} {packed r : Nat} :
    packSymbols e (c :: rest) packed = .ok r ↔
      ∃ v < 64, symbol v = c ∧ packSymbols e rest (packed * 64 + v) = .ok r := by
  rw [packSymbols, bind_eq_ok]
  constructor
  · rintro ⟨v, hv, h⟩
    obtain ⟨hlt, hsym⟩ := symbol_of_symbolValue (okOr_eq_ok.mp hv)
    exact ⟨v, hlt, hsym, h⟩
  · rintro ⟨v, hlt, rfl, h⟩
    exact ⟨v, okOr_eq_ok.mpr (symbolValue_symbol v hlt), h⟩

theorem symbols_of_packed {va vb vc vd : Nat} (ha : va < 64) (hb : vb < 64) (hc : vc < 64)
    (hd : vd < 64) :
    (((va * 64 + vb) * 64 + vc) * 64 + vd) / 262144 % 64 = va ∧
      (((va * 64 + vb) * 64 + vc) * 64 + vd) / 4096 % 64 = vb ∧
      (((va * 64 + vb) * 64 + vc) * 64 + vd) / 64 % 64 = vc ∧
      (((va * 64 + vb) * 64 + vc) * 64 + vd) % 64 = vd := by
  omega

theorem bytes_of_packed (h : n < 16777216) :
    (UInt8.ofNat (n / 65536)).toNat * 65536 + (UInt8.ofNat (n / 256)).toNat * 256 +
      (UInt8.ofNat n).toNat = n := by
  simp only [UInt8.toNat_ofNat']
  omega

theorem packed_of_bytes (x y z : UInt8) :
    UInt8.ofNat ((x.toNat * 65536 + y.toNat * 256 + z.toNat) / 65536) = x ∧
      UInt8.ofNat ((x.toNat * 65536 + y.toNat * 256 + z.toNat) / 256) = y ∧
      UInt8.ofNat (x.toNat * 65536 + y.toNat * 256 + z.toNat) = z := by
  have hx := x.toNat_lt
  have hy := y.toNat_lt
  have hz := z.toNat_lt
  simp only [← UInt8.toNat_inj, UInt8.toNat_ofNat']
  omega

variable {a b d : UInt8} {out : Bytes}

/-- **A full quad** is the spelling of three bytes. -/
theorem decodeQuad_zero :
    decodeQuad e 0 [a, b, c, d] = .ok out ↔
      ∃ x y z, out = [x, y, z] ∧ [a, b, c, d] = encodeChunk [x, y, z] := by
  simp only [decodeQuad, bind_eq_ok, List.take, packSymbols_cons, packSymbols_nil, exists_unit,
    rejectIf_eq_ok, Except.ok.injEq, List.map, Nat.mul_zero, pow_zero, Nat.mul_one, Nat.zero_mul,
    Nat.zero_add]
  constructor
  · rintro ⟨packed, ⟨va, ha, rfl, vb, hb, rfl, vc, hc, rfl, vd, hd, rfl, rfl⟩, -, rfl⟩
    obtain ⟨h1, h2, h3, h4⟩ := symbols_of_packed ha hb hc hd
    refine ⟨_, _, _, rfl, ?_⟩
    rw [encodeChunk_three, bytes_of_packed (by omega), h1, h2, h3, h4]
  · rintro ⟨x, y, z, rfl, h⟩
    have hx := x.toNat_lt
    have hy := y.toNat_lt
    have hz := z.toNat_lt
    obtain ⟨h1, h2, h3⟩ := packed_of_bytes x y z
    rw [encodeChunk_three] at h
    simp only [List.cons.injEq, and_true] at h
    obtain ⟨rfl, rfl, rfl, rfl⟩ := h
    refine ⟨x.toNat * 65536 + y.toNat * 256 + z.toNat,
      ⟨_, Nat.mod_lt _ (by decide), rfl, _, Nat.mod_lt _ (by decide), rfl, _,
        Nat.mod_lt _ (by decide), rfl, _, Nat.mod_lt _ (by decide), rfl, by omega⟩,
      by simp [Nat.mod_one], ?_⟩
    rw [h1, h2, h3]

/-- **One pad**: two bytes, whose spelling leaves the third byte zero. -/
theorem decodeQuad_one :
    decodeQuad e 1 [a, b, c, d] = .ok out ↔
      ∃ x y, out = [x, y] ∧ [a, b, c, pad] = encodeChunk [x, y] := by
  simp only [decodeQuad, bind_eq_ok, List.take, packSymbols_cons, packSymbols_nil, exists_unit,
    rejectIf_eq_ok, Except.ok.injEq, List.map, Nat.mul_one, Nat.zero_mul, Nat.zero_add]
  constructor
  · rintro ⟨packed, ⟨va, ha, rfl, vb, hb, rfl, vc, hc, rfl, rfl⟩, hzero, rfl⟩
    obtain ⟨h1, h2, h3, -⟩ := symbols_of_packed ha hb hc (show 0 < 64 by decide)
    have hbytes := bytes_of_packed (n := ((va * 64 + vb) * 64 + vc) * 64) (by omega)
    have hlast : (UInt8.ofNat (((va * 64 + vb) * 64 + vc) * 64)).toNat = 0 := by
      rw [UInt8.toNat_ofNat']
      omega
    refine ⟨_, _, rfl, ?_⟩
    rw [hlast] at hbytes
    rw [encodeChunk_two, show (2 : Nat) ^ 6 = 64 by rfl, hbytes]
    simp only [Nat.add_zero] at h1 h2 h3
    rw [h1, h2, h3]
  · rintro ⟨x, y, rfl, h⟩
    have hx := x.toNat_lt
    have hy := y.toNat_lt
    obtain ⟨h1, h2, -⟩ := packed_of_bytes x y 0
    rw [encodeChunk_two] at h
    simp only [List.cons.injEq, and_true] at h
    obtain ⟨rfl, rfl, rfl⟩ := h
    have hpacked : (x.toNat * 65536 + y.toNat * 256 + 0) / 64 * 2 ^ 6 =
        x.toNat * 65536 + y.toNat * 256 + (0 : UInt8).toNat := by
      rw [UInt8.toNat_zero]
      omega
    refine ⟨(x.toNat * 65536 + y.toNat * 256 + 0) / 64,
      ⟨_, Nat.mod_lt _ (by decide), rfl, _, Nat.mod_lt _ (by decide), rfl, _,
        Nat.mod_lt _ (by decide), rfl, by omega⟩, by omega, ?_⟩
    rw [hpacked, h1, h2]

/-- **Two pads**: one byte. -/
theorem decodeQuad_two :
    decodeQuad e 2 [a, b, c, d] = .ok out ↔
      ∃ x, out = [x] ∧ [a, b, pad, pad] = encodeChunk [x] := by
  simp only [decodeQuad, bind_eq_ok, List.take, packSymbols_cons, packSymbols_nil, exists_unit,
    rejectIf_eq_ok, Except.ok.injEq, List.map, Nat.zero_mul, Nat.zero_add]
  constructor
  · rintro ⟨packed, ⟨va, ha, rfl, vb, hb, rfl, rfl⟩, hzero, rfl⟩
    refine ⟨_, rfl, ?_⟩
    have hbyte : (UInt8.ofNat ((va * 64 + vb) * 2 ^ (6 * 2) / 65536)).toNat * 65536 + 0 * 256 + 0 =
        (va * 64 + vb) * 4096 := by
      rw [UInt8.toNat_ofNat']
      omega
    rw [encodeChunk_one, hbyte, show (va * 64 + vb) * 4096 / 262144 % 64 = va by omega,
      show (va * 64 + vb) * 4096 / 4096 % 64 = vb by omega]
  · rintro ⟨x, rfl, h⟩
    have hx := x.toNat_lt
    rw [encodeChunk_one] at h
    simp only [List.cons.injEq, and_true] at h
    obtain ⟨rfl, rfl⟩ := h
    refine ⟨(x.toNat * 65536 + 0 * 256 + 0) / 4096,
      ⟨_, Nat.mod_lt _ (by decide), rfl, _, Nat.mod_lt _ (by decide), rfl, by omega⟩, by omega, ?_⟩
    rw [show (x.toNat * 65536 + 0 * 256 + 0) / 4096 * 2 ^ (6 * 2) / 65536 = x.toNat by omega,
      UInt8.ofNat_toNat]

theorem encodeChunk_length (chunk : Bytes) : (encodeChunk chunk).length = 4 := rfl

theorem encode_one (x : UInt8) : encode [x] = encodeChunk [x] := by simp [encode]

theorem encode_two (x y : UInt8) : encode [x, y] = encodeChunk [x, y] := by simp [encode]

theorem encode_length_mod : ∀ p : Bytes, (encode p).length % 4 = 0
  | [] => rfl
  | [x] => by rw [encode_one, encodeChunk_length]
  | [x, y] => by rw [encode_two, encodeChunk_length]
  | _ :: _ :: _ :: rest => by
    rw [encode, List.length_append, encodeChunk_length, Nat.add_mod_left]
    exact encode_length_mod rest

theorem encode_eq_nil {p : Bytes} (h : encode p = []) : p = [] := by
  match p, h with
  | [], _ => rfl
  | [_], h => cases h
  | [_, _], h => cases h
  | _ :: _ :: _ :: _, h => cases h

theorem encode_of_decodeQuads : ∀ {v p : Bytes}, v.length % 4 = 0 → decodeQuads e v = .ok p →
    v = encode p
  | [], p, _, h => by
    cases h
    rfl
  | [_], p, hlen, _ => by cases hlen
  | [_, _], p, hlen, _ => by cases hlen
  | [_, _, _], p, hlen, _ => by cases hlen
  | a :: b :: c :: d :: rest, p, hlen, h => by
    simp only [decodeQuads, bind_eq_ok, Except.ok.injEq] at h
    obtain ⟨out, hout, more, hmore, rfl⟩ := h
    have hlen : rest.length % 4 = 0 := by
      rw [List.length_cons, List.length_cons, List.length_cons, List.length_cons] at hlen
      omega
    have hrest := encode_of_decodeQuads hlen hmore
    have hfull : ∀ {out}, decodeQuad e 0 [a, b, c, d] = .ok out →
        a :: b :: c :: d :: rest = encode (out ++ more) := by
      intro out hout
      obtain ⟨x, y, z, rfl, hquad⟩ := decodeQuad_zero.mp hout
      rw [List.cons_append, List.cons_append, List.cons_append, List.nil_append, encode, ← hquad,
        ← hrest]
      rfl
    cases rest with
    | cons a' rest => exact hfull hout
    | nil =>
      have hmore : more = [] := encode_eq_nil hrest.symm
      subst hmore
      by_cases hd : d = pad
      · by_cases hc : c = pad
        · rw [padOf, if_neg (by simp), if_pos hd, if_pos hc] at hout
          obtain ⟨x, rfl, hquad⟩ := decodeQuad_two.mp hout
          rw [hc, hd]
          exact hquad
        · rw [padOf, if_neg (by simp), if_pos hd, if_neg hc] at hout
          obtain ⟨x, y, rfl, hquad⟩ := decodeQuad_one.mp hout
          rw [hd]
          exact hquad
      · rw [padOf, if_neg (by simp), if_neg hd] at hout
        exact hfull hout

theorem decodeQuads_quad {quad rest more : Bytes} (hlen : quad.length = 4)
    (hpad : ∀ c d, quad.drop 2 = [c, d] → padOf rest.isEmpty c d = n)
    (hquad : decodeQuad e n quad = .ok out) (hrest : decodeQuads e rest = .ok more) :
    decodeQuads e (quad ++ rest) = .ok (out ++ more) := by
  obtain ⟨a, b, c, d, rfl⟩ : ∃ a b c d, quad = [a, b, c, d] := by
    match quad, hlen with
    | [a, b, c, d], _ => exact ⟨a, b, c, d, rfl⟩
  rw [← hpad c d rfl] at hquad
  simp only [List.cons_append, List.nil_append, decodeQuads]
  rw [hquad, hrest]
  rfl

theorem decodeQuads_encode : ∀ p : Bytes, decodeQuads e (encode p) = .ok p
  | [] => rfl
  | [x] => by
    have hquad : decodeQuad e 2 (encodeChunk [x]) = .ok [x] :=
      decodeQuad_two.mpr ⟨x, rfl, (encodeChunk_one x).symm⟩
    rw [encode_one, ← List.append_nil (encodeChunk [x])]
    refine decodeQuads_quad (encodeChunk_length _) ?_ hquad rfl
    intro c d h
    cases h
    rfl
  | [x, y] => by
    have hquad : decodeQuad e 1 (encodeChunk [x, y]) = .ok [x, y] :=
      decodeQuad_one.mpr ⟨x, y, rfl, (encodeChunk_two x y).symm⟩
    rw [encode_two, ← List.append_nil (encodeChunk [x, y])]
    refine decodeQuads_quad (encodeChunk_length _) ?_ hquad rfl
    intro c d h
    cases h
    exact if_neg (symbol_ne_pad _ (Nat.mod_lt _ (by decide)))
  | x :: y :: z :: rest => by
    have hquad : decodeQuad e 0 (encodeChunk [x, y, z]) = .ok [x, y, z] :=
      decodeQuad_zero.mpr ⟨x, y, z, rfl, (encodeChunk_three x y z).symm⟩
    rw [encode]
    refine decodeQuads_quad (encodeChunk_length _) ?_ hquad (decodeQuads_encode rest)
    intro c d h
    cases h
    rw [padOf]
    split
    · rfl
    · exact if_neg (symbol_ne_pad _ (Nat.mod_lt _ (by decide)))

/-- **The strict reader accepts exactly the writer's image, and inverts it.** -/
theorem decodeCanonical_eq_ok {v p : Bytes} : decodeCanonical e v = .ok p ↔ v = encode p := by
  rw [decodeCanonical, check_bind_eq_ok, rejectIf_eq_ok, not_not]
  constructor
  · rintro ⟨hlen, h⟩
    exact encode_of_decodeQuads hlen h
  · rintro rfl
    exact ⟨encode_length_mod p, decodeQuads_encode p⟩

theorem encode_injective : Function.Injective encode := by
  intro p q h
  have hp : decodeCanonical () (encode p) = .ok p := decodeCanonical_eq_ok.mpr rfl
  have hq : decodeCanonical () (encode p) = .ok q := decodeCanonical_eq_ok.mpr h
  exact Except.ok.inj (hp.symm.trans hq)

end Base64

/-! ## 3. Text at given offsets -/

/-- The codes of an ASCII text. -/
def ascii (text : String) : Bytes := text.toList.map fun c => UInt8.ofNat c.toNat

/-- `raw[i..j]`. -/
def segment (raw : Bytes) (i j : Nat) : Bytes := (raw.take j).drop i

theorem segment_length {raw : Bytes} {i : Nat} (h : i + n ≤ raw.length) :
    (segment raw i (i + n)).length = n := by
  rw [segment, List.length_drop, List.length_take]
  omega

/-- The fields of the given lengths from `i` on, and what is left. -/
def segments (raw : Bytes) (i : Nat) : List Nat → List Bytes
  | [] => [segment raw i raw.length]
  | n :: ns => segment raw i (i + n) :: segments raw (i + n) ns

theorem segments_flatten (raw : Bytes) (ns : List Nat) :
    ∀ i, (segments raw i ns).flatten = raw.drop i := by
  induction ns with
  | nil =>
    intro i
    simp [segments, segment]
  | cons n ns ih =>
    intro i
    rw [segments, List.flatten_cons, ih, segment, List.drop_take, Nat.add_sub_cancel_left,
      ← List.drop_drop, List.take_append_drop]

theorem segments_of_fields (last : Bytes) (fs : List Bytes) : ∀ x : Bytes,
    segments (x ++ (fs.flatten ++ last)) x.length (fs.map List.length) = fs ++ [last] := by
  induction fs with
  | nil =>
    intro x
    rw [List.flatten_nil, List.nil_append, List.map_nil, segments, segment, List.take_length,
      List.drop_left, List.nil_append]
  | cons f fs ih =>
    intro x
    have hrest := ih (x ++ f)
    rw [List.length_append, List.append_assoc, ← List.append_assoc f] at hrest
    rw [List.map_cons, segments, List.flatten_cons, hrest, List.cons_append]
    congr 1
    simp [segment, List.take_append]

/-- **A string is its fields**, read at the offsets that their lengths give. -/
theorem eq_flatten_iff_segments {raw last : Bytes} {fs : List Bytes} :
    raw = fs.flatten ++ last ↔ segments raw 0 (fs.map List.length) = fs ++ [last] := by
  constructor
  · rintro rfl
    exact segments_of_fields last fs []
  · intro h
    have hflat := segments_flatten raw (fs.map List.length) 0
    rw [h, List.flatten_append, List.flatten_singleton, List.drop_zero] at hflat
    exact hflat.symm

end Rubin.Lib
