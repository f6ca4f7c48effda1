/-
# Hash trees of any shape

A binary tree over values, hashed from the leaves up: a leaf hashes an encoding of its value, an
inner node an encoding of the two digests below it.  When the encodings of leaves and of inner
nodes cannot be confused, a digest determines the whole tree, its shape included, as long as the
hash has no collision among the strings that were hashed (`TreeCode.digest_inj`).

The second half builds such a tree level by level from a list, pairing neighbours and carrying an
odd last tree over unchanged.  Whatever its shape, its fringe is the list
(`HashTree.exists_ofList`); so trees of lists of different lengths need no separate argument.
-/
import Mathlib.Data.List.Basic
import Mathlib.Data.Set.Function

namespace Rubin.Lib

/-! ## 1. Trees and their digests -/

inductive HashTree (α : Type) where
  | leaf (a : α)
  | node (left right : HashTree α)

/-- How leaves and inner nodes are written down before they are hashed. -/
structure TreeCode (α M D : Type) where
  leaf : α → M
  node : D → D → M
  leaf_inj : ∀ {a b : α}, leaf a = leaf b → a = b
  node_inj : ∀ {l r l' r' : D}, node l r = node l' r' → l = l' ∧ r = r'
  leaf_ne_node : ∀ (a : α) (l r : D), leaf a ≠ node l r

variable {α M D : Type}

namespace HashTree

/-- The values at the leaves, from left to right. -/
def fringe : HashTree α → List α
  | leaf a => [a]
  | node l r => l.fringe ++ r.fringe

end HashTree

namespace TreeCode

/-- The string whose hash is the digest of the tree. -/
def message (code : TreeCode α M D) (hash : M → D) : HashTree α → M
  | .leaf a => code.leaf a
  | .node l r => code.node (hash (code.message hash l)) (hash (code.message hash r))

def digest (code : TreeCode α M D) (hash : M → D) (t : HashTree α) : D :=
  hash (code.message hash t)

/-- Every string that is hashed on the way. -/
def messages (code : TreeCode α M D) (hash : M → D) : HashTree α → List M
  | .leaf a => [code.leaf a]
  | .node l r => code.message hash (.node l r) :: (code.messages hash l ++ code.messages hash r)

variable {code : TreeCode α M D} {hash : M → D}

theorem message_mem_messages (t : HashTree α) : code.message hash t ∈ code.messages hash t := by
  cases t with
  | leaf a => exact List.mem_singleton.mpr rfl
  | node l r => exact List.mem_cons_self

theorem mem_messages_left {l r : HashTree α} {m : M} (h : m ∈ code.messages hash l) :
    m ∈ code.messages hash (.node l r) :=
  List.mem_cons_of_mem _ (List.mem_append_left _ h)

theorem mem_messages_right {l r : HashTree α} {m : M} (h : m ∈ code.messages hash r) :
    m ∈ code.messages hash (.node l r) :=
  List.mem_cons_of_mem _ (List.mem_append_right _ h)

/-- **A digest determines its tree**, given no collision among the strings hashed. -/
theorem digest_inj : ∀ {t t' : HashTree α},
    Set.InjOn hash {m | m ∈ code.messages hash t ∨ m ∈ code.messages hash t'} →
    code.digest hash t = code.digest hash t' → t = t' := by
  intro t
  induction t with
  | leaf a =>
    intro t' hinj heq
    have hmsg := hinj (Or.inl (message_mem_messages _)) (Or.inr (message_mem_messages _)) heq
    cases t' with
    | leaf b => rw [code.leaf_inj hmsg]
    | node l r => exact absurd hmsg (code.leaf_ne_node a _ _)
  | node l r ihl ihr =>
    intro t' hinj heq
    have hmsg := hinj (Or.inl (message_mem_messages _)) (Or.inr (message_mem_messages _)) heq
    cases t' with
    | leaf b => exact absurd hmsg.symm (code.leaf_ne_node b _ _)
    | node l' r' =>
      obtain ⟨hl, hr⟩ := code.node_inj hmsg
      have hleft : l = l' := by
        refine ihl (hinj.mono ?_) hl
        rintro m (hm | hm)
        · exact Or.inl (mem_messages_left hm)
        · exact Or.inr (mem_messages_left hm)
      have hright : r = r' := by
        refine ihr (hinj.mono ?_) hr
        rintro m (hm | hm)
        · exact Or.inl (mem_messages_right hm)
        · exact Or.inr (mem_messages_right hm)
      rw [hleft, hright]

end TreeCode

/-! ## 2. Trees from lists -/

namespace HashTree

/-- One level up: neighbours are joined, an odd last tree is carried over. -/
def pairUp : List (HashTree α) → List (HashTree α)
  | a :: b :: rest => node a b :: pairUp rest
  | level => level

theorem length_pairUp : ∀ level : List (HashTree α),
    (pairUp level).length = (level.length + 1) / 2
  | [] => by simp [pairUp]
  | [_] => by simp [pairUp]
  | a :: b :: rest => by
    rw [pairUp, List.length_cons, length_pairUp rest, List.length_cons, List.length_cons]
    omega

theorem fringe_pairUp : ∀ level : List (HashTree α),
    (pairUp level).flatMap fringe = level.flatMap fringe
  | [] => by simp [pairUp]
  | [_] => by simp [pairUp]
  | a :: b :: rest => by
    rw [pairUp, List.flatMap_cons, List.flatMap_cons, List.flatMap_cons, fringe_pairUp rest,
      fringe, List.append_assoc]

/-- Levels are joined until one tree is left, or the rounds are used up. -/
def reduce : (rounds : Nat) → List (HashTree α) → List (HashTree α)
  | 0, level => level
  | rounds + 1, level => if level.length ≤ 1 then level else reduce rounds (pairUp level)

theorem fringe_reduce (rounds : Nat) : ∀ level : List (HashTree α),
    (reduce rounds level).flatMap fringe = level.flatMap fringe := by
  induction rounds with
  | zero => exact fun _ => rfl
  | succ rounds ih =>
    intro level
    rw [reduce]
    split
    · rfl
    · rw [ih, fringe_pairUp]

theorem length_reduce (rounds : Nat) : ∀ level : List (HashTree α), level ≠ [] →
    level.length ≤ rounds + 1 → (reduce rounds level).length = 1 := by
  induction rounds with
  | zero =>
    intro level hne hle
    have := List.length_pos_iff.mpr hne
    rw [reduce]
    omega
  | succ rounds ih =>
    intro level hne hle
    have hpos := List.length_pos_iff.mpr hne
    have hlen := length_pairUp level
    rw [reduce]
    split
    · omega
    · refine ih _ ?_ (by omega)
      rw [← List.length_pos_iff]
      omega

def ofList (l : List α) : Option (HashTree α) := (reduce l.length (l.map leaf)).head?

/-- **The list is the fringe of its tree**, whatever the shape. -/
theorem exists_ofList {l : List α} (hne : l ≠ []) :
    ∃ t, reduce l.length (l.map leaf) = [t] ∧ ofList l = some t ∧ t.fringe = l := by
  have hlen : (reduce l.length (l.map leaf)).length = 1 := by
    refine length_reduce _ _ ?_ ?_
    · simpa using hne
    · simp
  obtain ⟨t, ht⟩ := List.length_eq_one_iff.mp hlen
  have hfringe := fringe_reduce l.length (l.map leaf)
  rw [ht, List.flatMap_singleton, List.flatMap_map] at hfringe
  refine ⟨t, ht, by rw [ofList, ht, List.head?_cons], ?_⟩
  rw [hfringe]
  exact List.flatMap_pure_eq_map id l |>.trans (List.map_id l)

end HashTree

end Rubin.Lib
