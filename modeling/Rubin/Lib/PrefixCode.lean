/-
# Encodings that can be read off the front

An encoding is prefix-free on the values with `P` when the value, and what follows it, can be told
from the bytes alone.  A fixed width gives that, and so does a length in front; a list of items
encoded one after the other by such a code is then determined by its bytes, without a count.
-/
import Mathlib.Data.List.Basic

namespace Rubin.Lib

variable {α β : Type} {P : α → Prop} {enc : α → List β}

/-- Two encodings that agree on a common stretch are encodings of one value. -/
def PrefixFree (P : α → Prop) (enc : α → List β) : Prop :=
  ∀ a b s t, P a → P b → enc a ++ s = enc b ++ t → a = b ∧ s = t

namespace PrefixFree

theorem inj (h : PrefixFree P enc) {a b : α} (ha : P a) (hb : P b) (heq : enc a = enc b) :
    a = b := by
  refine (h a b [] [] ha hb ?_).1
  rw [heq]

theorem of_width {w : Nat} (hw : ∀ a, (enc a).length = w) (hinj : Function.Injective enc) :
    PrefixFree (fun _ => True) enc := by
  intro a b s t _ _ heq
  obtain ⟨h1, h2⟩ := List.append_inj heq ((hw a).trans (hw b).symm)
  exact ⟨hinj h1, h2⟩

theorem lengthPrefixed {len : Nat → List β} {n : Nat} (h : PrefixFree (· < n) len) :
    PrefixFree (fun d : List β => d.length < n) fun d => len d.length ++ d := by
  intro a b s t ha hb heq
  rw [List.append_assoc, List.append_assoc] at heq
  obtain ⟨hlen, hrest⟩ := h _ _ _ _ ha hb heq
  exact List.append_inj hrest hlen

/-- **A list without a count.**  No item is encoded by nothing, so the items can be read off one
after the other. -/
theorem flatMap_inj (h : PrefixFree P enc) (hne : ∀ a, enc a ≠ []) :
    ∀ {l l' : List α}, (∀ a ∈ l, P a) → (∀ a ∈ l', P a) →
      l.flatMap enc = l'.flatMap enc → l = l' := by
  intro l
  induction l with
  | nil =>
    intro l' _ _ heq
    cases l' with
    | nil => rfl
    | cons b l' =>
      rw [List.flatMap_nil, List.flatMap_cons, eq_comm, List.append_eq_nil_iff] at heq
      exact absurd heq.1 (hne b)
  | cons a l ih =>
    intro l' hl hl' heq
    cases l' with
    | nil =>
      rw [List.flatMap_nil, List.flatMap_cons, List.append_eq_nil_iff] at heq
      exact absurd heq.1 (hne a)
    | cons b l' =>
      rw [List.forall_mem_cons] at hl hl'
      rw [List.flatMap_cons, List.flatMap_cons] at heq
      obtain ⟨hab, hrest⟩ := h a b _ _ hl.1 hl'.1 heq
      rw [hab, ih hl.2 hl'.2 hrest]

end PrefixFree

end Rubin.Lib
