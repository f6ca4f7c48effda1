/-
# The order of 32-byte values

Hashes and ids compare as byte strings, from the first byte on.  `lt32` is that order; here it is
made the linear order of the type, so that sorted containers and tie-breaks can be reasoned about
with the library of orders.
-/
import Mathlib.Order.Compare
import Mathlib.Order.RelClasses
import Rubin.Consensus.BlockRules

namespace Rubin.Consensus

open Rubin.Lib

instance : LinearOrder Bytes32 :=
  let _ : IsStrictTotalOrder Bytes32 fun a b => lt32 a b = true :=
    { irrefl := fun a h => List.lt_irrefl a.toList (of_decide_eq_true h)
      trans := fun _ _ _ hab hbc =>
        decide_eq_true (List.lt_trans (of_decide_eq_true hab) (of_decide_eq_true hbc))
      trichotomous := fun _ _ hab hba => BytesN.toList_inj.mp
        (List.le_antisymm (of_decide_eq_false (Bool.eq_false_iff.mpr hba))
          (of_decide_eq_false (Bool.eq_false_iff.mpr hab))) }
  linearOrderOfSTO fun a b : Bytes32 => lt32 a b = true

theorem lt32_iff {a b : Bytes32} : lt32 a b = true ↔ a < b := Iff.rfl

end Rubin.Consensus
