/-
# A ring as a window

A ring of fixed size and the cell that is written next.  While it fills, what has been written is a
front part of the cells; once it is full, it is all of them, from the next one on.  Either way
writing one more makes it the last so many of everything written.
-/
import Mathlib.Data.List.DropRight
import Mathlib.Data.List.Rotate

namespace Rubin.Lib

variable {α : Type} {cap next : Nat} {ring w : List α}

/-- `w` is what the ring holds, the oldest first. -/
inductive RingWindow (cap : Nat) (ring : List α) (next : Nat) (w : List α) : Prop
  | filling (hlen : ring.length = cap) (hnext : next < cap) (hw : w = ring.take next)
  | full (hlen : ring.length = cap) (hnext : next < cap) (hw : w = ring.rotate next)

theorem rtake_of_length_le {l : List α} {n : Nat} (h : l.length ≤ n) : l.rtake n = l := by
  rw [List.rtake, Nat.sub_eq_zero_of_le h, List.drop_zero]

theorem rtake_concat_of_length_eq {l : List α} {n : Nat} (a : α) (h : l.length = n)
    (hpos : 0 < n) : (l ++ [a]).rtake n = l.tail ++ [a] := by
  rw [List.rtake, List.length_append, h, List.length_singleton, Nat.add_sub_cancel_left,
    List.drop_append_of_le_length (h ▸ hpos), List.drop_one]

theorem rtake_rtake_concat (l : List α) (a : α) {n : Nat} (hpos : 0 < n) :
    (l.rtake n ++ [a]).rtake n = (l ++ [a]).rtake n := by
  obtain ⟨m, rfl⟩ := Nat.exists_eq_succ_of_ne_zero hpos.ne'
  rw [List.rtake_concat_succ, List.rtake_concat_succ, List.rtake, List.rtake, List.rtake,
    List.drop_drop, List.length_drop]
  congr 2
  omega

namespace RingWindow

theorem start (filler : α) (hpos : 0 < cap) : RingWindow cap (List.replicate cap filler) 0 [] :=
  .filling (List.length_replicate ..) hpos rfl

theorem length_le (h : RingWindow cap ring next w) : w.length ≤ cap := by
  rcases h with ⟨hlen, hnext, rfl⟩ | ⟨hlen, hnext, rfl⟩
  · rw [List.length_take]
    omega
  · rw [List.length_rotate, hlen]

theorem next_lt (h : RingWindow cap ring next w) : next < cap := by
  rcases h with ⟨-, hnext, -⟩ | ⟨-, hnext, -⟩
  · exact hnext
  · exact hnext

theorem rotate_set (a : α) (hnext : next < ring.length) :
    (ring.set next a).rotate next = a :: (ring.rotate next).tail := by
  rw [List.rotate_eq_drop_append_take (by rw [List.length_set]; omega),
    List.rotate_eq_drop_append_take hnext.le, List.drop_eq_getElem_cons hnext,
    List.drop_eq_getElem_cons (by rwa [List.length_set]), List.getElem_set_self,
    List.drop_set_of_lt (Nat.lt_succ_self next), List.take_set_of_le le_rfl, List.cons_append,
    List.cons_append, List.tail_cons]

theorem head?_of_full (h : RingWindow cap ring next w) (hfull : w.length = cap) :
    w.head? = ring[next]? := by
  rcases h with ⟨hlen, hnext, rfl⟩ | ⟨hlen, hnext, rfl⟩
  · rw [List.length_take, hlen, Nat.min_eq_left hnext.le] at hfull
    exact absurd hfull hnext.ne
  · exact List.head?_rotate (hlen ▸ hnext)

/-- **One more write.** -/
theorem push (h : RingWindow cap ring next w) (a : α) :
    RingWindow cap (ring.set next a) ((next + 1) % cap) ((w ++ [a]).rtake cap) := by
  have hpos : 0 < cap := Nat.zero_lt_of_lt h.next_lt
  rcases h with ⟨hlen, hnext, rfl⟩ | ⟨hlen, hnext, rfl⟩
  · have hw : (ring.take next ++ [a]).rtake cap = (ring.set next a).take (next + 1) := by
      rw [rtake_of_length_le (by simp; omega), List.take_add_one, List.take_set_of_le le_rfl,
        List.getElem?_set_self (hlen ▸ hnext), Option.toList_some]
    rw [hw]
    rcases Nat.lt_or_eq_of_le (Nat.succ_le_of_lt hnext) with hlt | heq
    · rw [Nat.mod_eq_of_lt hlt]
      exact .filling (by rw [List.length_set, hlen]) hlt rfl
    · rw [← Nat.succ_eq_add_one, heq, Nat.mod_self]
      refine .full (by rw [List.length_set, hlen]) hpos ?_
      rw [List.rotate_zero, List.take_of_length_le (by rw [List.length_set, hlen])]
  · refine .full (by rw [List.length_set, hlen]) (Nat.mod_lt _ hpos) ?_
    have hturn : (ring.set next a).rotate ((next + 1) % cap) =
        ((ring.set next a).rotate next).rotate 1 := by
      rw [List.rotate_rotate, ← hlen, ← List.length_set, List.rotate_mod]
    rw [hturn, rotate_set a (hlen ▸ hnext), List.rotate_cons_succ, List.rotate_zero,
      rtake_concat_of_length_eq a (by rw [List.length_rotate, hlen]) hpos]

end RingWindow

end Rubin.Lib
