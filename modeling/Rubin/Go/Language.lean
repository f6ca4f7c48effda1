/-
# What the Go client is written in

The outcomes of a Go call, its maps and its slices.  A run-time panic is an outcome of its own.
The error codes of the two clients are the same strings, so they are one type; the messages are
not compared.
-/
import Mathlib.Data.Finmap
import Rubin.Consensus.Basic

namespace Rubin.Go

open Rubin.Lib Rubin.Consensus

/-- How a Go call ends when it does not return normally: with an error value, or in a panic. -/
inductive Fault where
  | err (e : TxError)
  | panic
deriving DecidableEq, Repr

/-- What a caller sees: the code of an error; a panic has none. -/
def Fault.code : Fault → Option ErrorCode
  | .err e => some e.code
  | .panic => none

def txerr (code : ErrorCode) (msg : String) : Fault := .err ⟨code, msg⟩

abbrev GoMap (K V : Type) := Finmap fun _ : K => V

/-- `math.MaxInt` on a 64-bit platform. -/
def maxInt : Nat := 2 ^ 63 - 1

/-- A byte slice of either client on a 64-bit platform: its length is an `int` in Go, and at most
`isize::MAX` in Rust. -/
structure ByteSlice where
  bytes : Bytes
  length_le : bytes.length ≤ maxInt

/-- The errors of the two clients agree when a caller sees the same code. -/
def SameCode (e : TxError) (f : Fault) : Prop := f.code = some e.code

@[simp] theorem sameCode_txerr {e : TxError} {code : ErrorCode} {msg : String} :
    SameCode e (txerr code msg) ↔ code = e.code :=
  Option.some_inj

end Rubin.Go
