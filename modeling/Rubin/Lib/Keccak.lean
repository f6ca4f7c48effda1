/-
# SHA3-256

FIPS 202, on natural-number lanes.  The development is parametric in its hash function; this one
is the real one, used where a result is shown on a concrete input.  The lanes are the fields of a
record and the word operations are the `Nat` primitives themselves, so that the kernel evaluates
a permutation in a fraction of a second.
-/
import Rubin.Lib.Codec

namespace Rubin.Lib.Keccak

/-- The 25 lanes, row by row: `a0` is lane `(0, 0)`, `b0` is lane `(0, 1)`. -/
structure State where
  (a0 a1 a2 a3 a4 b0 b1 b2 b3 b4 c0 c1 c2 c3 c4 d0 d1 d2 d3 d4 e0 e1 e2 e3 e4 : Nat)

def State.zero : State :=
  ⟨0, 0, 0, 0, 0, 0, 0, 0, 0, 0, 0, 0, 0, 0, 0, 0, 0, 0, 0, 0, 0, 0, 0, 0, 0⟩

/-- 64-bit rotation to the left. -/
def rotl (w r : Nat) : Nat :=
  Nat.lor (Nat.mod (Nat.shiftLeft w r) 18446744073709551616) (Nat.shiftRight w (Nat.sub 64 r))

def parity (a b c d e : Nat) : Nat := Nat.xor a (Nat.xor b (Nat.xor c (Nat.xor d e)))

/-- The mask of theta for a column between the parities `left` and `right`. -/
def thetaMask (left right : Nat) : Nat := Nat.xor left (rotl right 1)

def addMasks (s : State) (q0 q1 q2 q3 q4 : Nat) : State :=
  match s with
  | ⟨a0, a1, a2, a3, a4, b0, b1, b2, b3, b4, c0, c1, c2,
     c3, c4, d0, d1, d2, d3, d4, e0, e1, e2, e3, e4⟩ =>
    ⟨Nat.xor a0 q0, Nat.xor a1 q1, Nat.xor a2 q2, Nat.xor a3 q3, Nat.xor a4 q4,
     Nat.xor b0 q0, Nat.xor b1 q1, Nat.xor b2 q2, Nat.xor b3 q3, Nat.xor b4 q4,
     Nat.xor c0 q0, Nat.xor c1 q1, Nat.xor c2 q2, Nat.xor c3 q3, Nat.xor c4 q4,
     Nat.xor d0 q0, Nat.xor d1 q1, Nat.xor d2 q2, Nat.xor d3 q3, Nat.xor d4 q4,
     Nat.xor e0 q0, Nat.xor e1 q1, Nat.xor e2 q2, Nat.xor e3 q3, Nat.xor e4 q4⟩

def thetaFrom (s : State) (p0 p1 p2 p3 p4 : Nat) : State :=
  addMasks s (thetaMask p4 p1) (thetaMask p0 p2) (thetaMask p1 p3) (thetaMask p2 p4)
    (thetaMask p3 p0)

def theta (s : State) : State :=
  thetaFrom s (parity s.a0 s.b0 s.c0 s.d0 s.e0) (parity s.a1 s.b1 s.c1 s.d1 s.e1)
    (parity s.a2 s.b2 s.c2 s.d2 s.e2) (parity s.a3 s.b3 s.c3 s.d3 s.e3)
    (parity s.a4 s.b4 s.c4 s.d4 s.e4)

/-- Rotate every lane and move it to its new place. -/
def rhoPi (s : State) : State :=
  match s with
  | ⟨a0, a1, a2, a3, a4, b0, b1, b2, b3, b4, c0, c1, c2,
     c3, c4, d0, d1, d2, d3, d4, e0, e1, e2, e3, e4⟩ =>
    ⟨a0, rotl b1 44, rotl c2 43, rotl d3 21, rotl e4 14,
     rotl a3 28, rotl b4 20, rotl c0 3, rotl d1 45, rotl e2 61,
     rotl a1 1, rotl b2 6, rotl c3 25, rotl d4 8, rotl e0 18,
     rotl a4 27, rotl b0 36, rotl c1 10, rotl d2 15, rotl e3 56,
     rotl a2 62, rotl b3 55, rotl c4 39, rotl d0 41, rotl e1 2⟩

def chiLane (a b c : Nat) : Nat := Nat.xor a (Nat.land (Nat.xor b 18446744073709551615) c)

def chiIota (rc : Nat) (s : State) : State :=
  match s with
  | ⟨a0, a1, a2, a3, a4, b0, b1, b2, b3, b4, c0, c1, c2,
     c3, c4, d0, d1, d2, d3, d4, e0, e1, e2, e3, e4⟩ =>
    ⟨Nat.xor (chiLane a0 a1 a2) rc, chiLane a1 a2 a3, chiLane a2 a3 a4, chiLane a3 a4 a0, chiLane a4 a0 a1,
     chiLane b0 b1 b2, chiLane b1 b2 b3, chiLane b2 b3 b4, chiLane b3 b4 b0, chiLane b4 b0 b1,
     chiLane c0 c1 c2, chiLane c1 c2 c3, chiLane c2 c3 c4, chiLane c3 c4 c0, chiLane c4 c0 c1,
     chiLane d0 d1 d2, chiLane d1 d2 d3, chiLane d2 d3 d4, chiLane d3 d4 d0, chiLane d4 d0 d1,
     chiLane e0 e1 e2, chiLane e1 e2 e3, chiLane e2 e3 e4, chiLane e3 e4 e0, chiLane e4 e0 e1⟩

def roundConstants : List Nat :=
  [0x0000000000000001, 0x0000000000008082, 0x800000000000808A, 0x8000000080008000,
   0x000000000000808B, 0x0000000080000001, 0x8000000080008081, 0x8000000000008009,
   0x000000000000008A, 0x0000000000000088, 0x0000000080008009, 0x000000008000000A,
   0x000000008000808B, 0x800000000000008B, 0x8000000000008089, 0x8000000000008003,
   0x8000000000008002, 0x8000000000000080, 0x000000000000800A, 0x800000008000000A,
   0x8000000080008081, 0x8000000000008080, 0x0000000080000001, 0x8000000080008008]

def permute (s : State) : State :=
  roundConstants.foldl (fun s rc => chiIota rc (rhoPi (theta s))) s

/-- Lane `i` of a block. -/
def lane (bs : Bytes) (i : Nat) : Nat := leToNat ((bs.drop (8 * i)).take 8)

/-- Add a 136-byte block to the first 17 lanes. -/
def addBlock (s : State) (bs : Bytes) : State :=
  match s with
  | ⟨a0, a1, a2, a3, a4, b0, b1, b2, b3, b4, c0, c1, c2,
     c3, c4, d0, d1, d2, d3, d4, e0, e1, e2, e3, e4⟩ =>
    ⟨Nat.xor a0 (lane bs 0), Nat.xor a1 (lane bs 1), Nat.xor a2 (lane bs 2), Nat.xor a3 (lane bs 3), Nat.xor a4 (lane bs 4),
     Nat.xor b0 (lane bs 5), Nat.xor b1 (lane bs 6), Nat.xor b2 (lane bs 7), Nat.xor b3 (lane bs 8), Nat.xor b4 (lane bs 9),
     Nat.xor c0 (lane bs 10), Nat.xor c1 (lane bs 11), Nat.xor c2 (lane bs 12), Nat.xor c3 (lane bs 13), Nat.xor c4 (lane bs 14),
     Nat.xor d0 (lane bs 15), Nat.xor d1 (lane bs 16), d2, d3, d4,
     e0, e1, e2, e3, e4⟩

/-- The domain bits `01` of SHA3 and `pad10*1`, to a multiple of the rate. -/
def pad (msg : Bytes) : Bytes :=
  let gap := 136 - msg.length % 136
  if gap = 1 then msg ++ [0x86]
  else msg ++ 0x06 :: (List.replicate (gap - 2) 0 ++ [0x80])

def absorb : Nat → State → Bytes → State
  | 0, s, _ => s
  | k + 1, s, bs => absorb k (permute (addBlock s (bs.take 136))) (bs.drop 136)

def squeeze (s : State) : Bytes :=
  natToLe 8 s.a0 ++ natToLe 8 s.a1 ++ natToLe 8 s.a2 ++ natToLe 8 s.a3

def sha3_256 (msg : Bytes) : BytesN 32 :=
  ⟨squeeze (absorb ((pad msg).length / 136) State.zero (pad msg)), by simp [squeeze]⟩

/-- The vector FIPS 202 gives for the empty message. -/
example : (sha3_256 []).toList =
    [0xa7, 0xff, 0xc6, 0xf8, 0xbf, 0x1e, 0xd7, 0x66, 0x51, 0xc1, 0x47, 0x56, 0xa0, 0x61, 0xd6,
     0x62, 0xf5, 0x80, 0xff, 0x4d, 0xe4, 0x3b, 0x49, 0xfa, 0x82, 0xd8, 0x0a, 0x4b, 0x80, 0xf8,
     0x43, 0x4a] := by decide +kernel

/-- The vector for `abc`. -/
example : (sha3_256 [0x61, 0x62, 0x63]).toList =
    [0x3a, 0x98, 0x5d, 0xa7, 0x4f, 0xe2, 0x25, 0xb2, 0x04, 0x5c, 0x17, 0x2d, 0x6b, 0xd3, 0x90,
     0xbd, 0x85, 0x5f, 0x08, 0x6e, 0x3e, 0x9d, 0x52, 0x5b, 0x46, 0xbf, 0xe2, 0x45, 0x11, 0x43,
     0x15, 0x32] := by decide +kernel

end Rubin.Lib.Keccak
