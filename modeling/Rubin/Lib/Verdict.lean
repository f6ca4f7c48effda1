/-
# What a validator says

A validator accepts or refuses, and of a refusal only the code is compared.  Two ways to speak
about that:

* `Judges r P c`: the check `r` accepts exactly what has `P` and refuses the rest with code `c`.
  Checks compose: in sequence, and over a list, as long as the code stays the same.
* `firstFault`: a validator that runs several stages refuses with the code of the first stage that
  does not hold (`Judges.rejection_bind`).  A statement about the stages, which are propositions,
  is then a statement about the validator, whatever the data structures it uses.
-/
import Rubin.Lib.Outcome

namespace Rubin.Lib

variable {ε α β γ : Type} {code : ε → γ}

/-! ## 1. Refusals -/

/-- The code of a refusal; `none` is acceptance. -/
def rejection (code : ε → γ) : Except ε α → Option γ
  | .ok _ => none
  | .error e => some (code e)

@[simp] theorem rejection_ok (a : α) : rejection code (.ok a) = none := rfl

variable {r : Except ε Unit} {c : γ} {f : α → Except ε Unit}

theorem rejection_eq_none : rejection code r = none ↔ r = .ok () := by
  cases r with
  | ok u => exact ⟨fun _ => rfl, fun _ => rfl⟩
  | error e => exact ⟨fun h => (nomatch h), fun h => (nomatch h)⟩

theorem rejection_bind_of_some {r : Except ε α} {f : α → Except ε β} (h : rejection code r = some c) :
    rejection code (r >>= f) = some c := by
  cases r with
  | ok a => cases h
  | error e => exact h

theorem forEach_map {f : β → Except ε Unit} (g : α → β) (l : List α) :
    forEach f (l.map g) = forEach (fun a => f (g a)) l := by
  induction l with
  | nil => rfl
  | cons a l ih => rw [List.map_cons, forEach_cons, forEach_cons, ih]

theorem forEach_mapError {ε' : Type} {k : ε → ε'} {g : α → Except ε' Unit}
    (h : ∀ a, g a = (f a).mapError k) (l : List α) : forEach g l = (forEach f l).mapError k := by
  induction l with
  | nil => rfl
  | cons a l ih =>
    rw [forEach_cons, forEach_cons, h a]
    cases f a with
    | error e => rfl
    | ok u => exact ih

/-! ## 2. One check -/

/-- `r` accepts exactly what has `P`, and refuses the rest with code `c`. -/
structure Judges (code : ε → γ) (r : Except ε Unit) (P : Prop) (c : γ) : Prop where
  accepts : P → r = .ok ()
  rejects : ¬ P → rejection code r = some c

namespace Judges

variable {r r₁ r₂ : Except ε Unit} {P Q : Prop} {c : γ}

theorem congr (h : Judges code r P c) (hPQ : P ↔ Q) : Judges code r Q c :=
  ⟨fun hq => h.accepts (hPQ.mpr hq), fun hq => h.rejects (fun hp => hq (hPQ.mp hp))⟩

theorem ok (hP : P) : Judges code (.ok ()) P c := ⟨fun _ => rfl, fun h => absurd hP h⟩

variable {e : ε}

theorem error (hP : ¬ P) (hc : code e = c) : Judges code (.error e) P c :=
  ⟨fun h => absurd h hP, fun _ => congrArg some hc⟩

theorem guard {bad : Prop} [Decidable bad] (hc : code e = c) :
    Judges code (rejectIf bad e) (¬ bad) c where
  accepts := rejectIf_neg
  rejects := by
    intro h
    rw [rejectIf_pos (not_not.mp h)]
    exact congrArg some hc

/-- Two checks in sequence; the second one is only reached when the first accepts. -/
theorem both (h₁ : Judges code r₁ P c) (h₂ : P → Judges code r₂ Q c) :
    Judges code (r₁ >>= fun _ => r₂) (P ∧ Q) c where
  accepts := by
    rintro ⟨hp, hq⟩
    rw [h₁.accepts hp]
    exact (h₂ hp).accepts hq
  rejects := by
    intro h
    by_cases hp : P
    · rw [h₁.accepts hp]
      exact (h₂ hp).rejects fun hq => h ⟨hp, hq⟩
    · exact rejection_bind_of_some (h₁.rejects hp)

theorem forEach {P : α → Prop} {l : List α} (h : ∀ a ∈ l, Judges code (f a) (P a) c) :
    Judges code (forEach f l) (∀ a ∈ l, P a) c := by
  induction l with
  | nil => exact ok (fun a ha => nomatch ha)
  | cons a l ih =>
    rw [List.forall_mem_cons] at h
    refine (both h.1 fun _ => ih h.2).congr ?_
    rw [List.forall_mem_cons]

/-- Two passes: the first prepares every item, and refuses only what the second would refuse. -/
theorem mapM_forEach {f : α → Except ε β} {g : β → Except ε Unit} {P : α → Prop} {l : List α}
    (h : ∀ a ∈ l, (∃ b, f a = .ok b ∧ Judges code (g b) (P a) c) ∨
      (rejection code (f a) = some c ∧ ¬ P a)) :
    Judges code (l.mapM f >>= Lib.forEach g) (∀ a ∈ l, P a) c := by
  have hpass : (∃ bs, l.mapM f = .ok bs ∧ Judges code (Lib.forEach g bs) (∀ a ∈ l, P a) c) ∨
      (rejection code (l.mapM f) = some c ∧ ¬ ∀ a ∈ l, P a) := by
    induction l with
    | nil => exact Or.inl ⟨[], rfl, ok (fun a ha => nomatch ha)⟩
    | cons a l ih =>
      simp only [List.forall_mem_cons] at h ⊢
      rw [List.mapM_cons]
      rcases h.1 with ⟨b, hb, hj⟩ | ⟨hrej, hP⟩
      · rw [hb, ok_bind]
        rcases ih h.2 with ⟨bs, hbs, hjs⟩ | ⟨hrej, hP⟩
        · exact Or.inl ⟨b :: bs, by rw [hbs]; rfl, both hj fun _ => hjs⟩
        · exact Or.inr ⟨rejection_bind_of_some hrej, fun hall => hP hall.2⟩
      · exact Or.inr ⟨rejection_bind_of_some hrej, fun hall => hP hall.1⟩
  rcases hpass with ⟨bs, hbs, hj⟩ | ⟨hrej, hP⟩
  · rw [hbs, ok_bind]
    exact hj
  · exact ⟨fun hall => absurd hall hP, fun _ => rejection_bind_of_some hrej⟩

theorem okOr {o : Option α} (hc : code e = c) (hnone : o = none → ¬ P)
    (hsome : ∀ a, o = some a → Judges code (f a) P c) : Judges code (okOr o e >>= f) P c := by
  cases o with
  | none => exact error (hnone rfl) hc
  | some a => exact hsome a rfl

end Judges

/-! ## 3. Stages -/

open Classical in
/-- The code of the first stage that does not hold. -/
noncomputable def firstFault : List (Prop × γ) → Option γ
  | [] => none
  | (P, c) :: stages => if P then firstFault stages else some c

theorem firstFault_eq_none {stages : List (Prop × γ)} :
    firstFault stages = none ↔ ∀ s ∈ stages, s.1 := by
  induction stages with
  | nil => exact ⟨fun _ s hs => (nomatch hs), fun _ => rfl⟩
  | cons s stages ih =>
    obtain ⟨P, c⟩ := s
    rw [firstFault, List.forall_mem_cons]
    by_cases hP : P
    · rw [if_pos hP, ih]
      exact ⟨fun h => ⟨hP, h⟩, fun h => h.2⟩
    · rw [if_neg hP]
      exact ⟨fun h => (nomatch h), fun h => absurd h.1 hP⟩

theorem firstFault_map {γ' : Type} (f : γ → γ') (stages : List (Prop × γ)) :
    firstFault (stages.map fun s => (s.1, f s.2)) = (firstFault stages).map f := by
  induction stages with
  | nil => rfl
  | cons s stages ih =>
    obtain ⟨P, c⟩ := s
    rw [List.map_cons, firstFault, firstFault]
    by_cases hP : P
    · rw [if_pos hP, if_pos hP, ih]
    · rw [if_neg hP, if_neg hP]
      rfl

/-- **One stage, then the rest.** -/
theorem Judges.rejection_bind {r' : Except ε α} {P : Prop} {stages : List (Prop × γ)}
    (h : Judges code r P c) (h' : P → rejection code r' = firstFault stages) :
    rejection code (r >>= fun _ => r') = firstFault ((P, c) :: stages) := by
  by_cases hP : P
  · rw [h.accepts hP, ok_bind, h' hP, firstFault, if_pos hP]
  · rw [rejection_bind_of_some (h.rejects hP), firstFault, if_neg hP]

theorem Judges.rejection_last {P : Prop} (h : Judges code r P c) :
    rejection code r = firstFault [(P, c)] := by
  by_cases hP : P
  · rw [h.accepts hP, firstFault, if_pos hP]
    rfl
  · rw [h.rejects hP, firstFault, if_neg hP]

end Rubin.Lib
