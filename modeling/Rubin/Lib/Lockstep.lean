/-
# Two programs in lock-step

Two implementations of one function that stop at their first fault are compared outcome by
outcome: `Agrees same stray R x y` says that `x` and `y` both succeed with values related by `R`,
or both fail with errors related by `same`.  The left program may know faults the right one does
not look for: an error in `stray` is not compared with anything, and what the right program does
from there on is its own affair.

`Lockstep` is the same relation for programs that also thread a state, the two states being related
at every step.
-/
import Rubin.Lib.Outcome

namespace Rubin.Lib

variable {ε φ α β γ δ σ τ ι : Type}

/-! ## 1. Outcomes -/

/-- The outcomes `x` and `y` agree. -/
inductive Agrees (same : ε → φ → Prop) (stray : ε → Prop) (R : α → β → Prop) :
    Except ε α → Except φ β → Prop
  | ok {a : α} {b : β} (h : R a b) : Agrees same stray R (.ok a) (.ok b)
  | error {e : ε} {f : φ} (h : same e f) : Agrees same stray R (.error e) (.error f)
  | stray {e : ε} {y : Except φ β} (h : stray e) : Agrees same stray R (.error e) y

variable {p q : Prop} {e : ε} {f : φ}

namespace Agrees

variable {same : ε → φ → Prop} {stray : ε → Prop} {R : α → β → Prop} {Q : γ → δ → Prop}

theorem bind {x : Except ε α} {y : Except φ β} {f : α → Except ε γ} {g : β → Except φ δ}
    (h : Agrees same stray R x y) (hfg : ∀ a b, R a b → Agrees same stray Q (f a) (g b)) :
    Agrees same stray Q (x >>= f) (y >>= g) := by
  cases h with
  | ok h => exact hfg _ _ h
  | error h => exact .error h
  | stray h => exact .stray h

theorem rejectIf [Decidable p] [Decidable q] (hpq : p ↔ q) (hef : same e f) :
    Agrees same stray Eq (Lib.rejectIf p e) (Lib.rejectIf q f) := by
  by_cases hp : p
  · rw [rejectIf_pos hp, rejectIf_pos (hpq.mp hp)]
    exact .error hef
  · rw [rejectIf_neg hp, rejectIf_neg fun hq => hp (hpq.mpr hq)]
    exact .ok rfl

/-- Two guards on the same condition, and what comes after them where they let through. -/
theorem guard [Decidable p] [Decidable q] {m : Except ε γ} {n : Except φ δ} (hpq : p ↔ q)
    (hef : same e f) (hmn : ¬ p → Agrees same stray Q m n) :
    Agrees same stray Q (Lib.rejectIf p e >>= fun _ => m) (Lib.rejectIf q f >>= fun _ => n) := by
  by_cases hp : p
  · rw [rejectIf_pos hp, rejectIf_pos (hpq.mp hp)]
    exact .error hef
  · rw [rejectIf_neg hp, rejectIf_neg fun hq => hp (hpq.mpr hq)]
    exact hmn hp

theorem strayGuard [Decidable p] {m : Except ε γ} {n : Except φ δ} (he : stray e)
    (hmn : ¬ p → Agrees same stray Q m n) :
    Agrees same stray Q (Lib.rejectIf p e >>= fun _ => m) n := by
  by_cases hp : p
  · rw [rejectIf_pos hp]
    exact .stray he
  · rw [rejectIf_neg hp]
    exact hmn hp

theorem idleGuard [Decidable q] {m : Except ε γ} {n : Except φ δ} (hq : ¬ q)
    (hmn : Agrees same stray Q m n) : Agrees same stray Q m (Lib.rejectIf q f >>= fun _ => n) := by
  rw [rejectIf_neg hq]
  exact hmn

end Agrees

/-! ## 2. Programs with a state -/

/-- From related states the two programs agree, and leave related states. -/
def Lockstep (same : ε → φ → Prop) (stray : ε → Prop) (S : σ → τ → Prop) (R : α → β → Prop)
    (m : StateT σ (Except ε) α) (n : StateT τ (Except φ) β) : Prop :=
  ∀ s t, S s t → Agrees same stray (fun p q => R p.1 q.1 ∧ S p.2 q.2) (m s) (n t)

namespace Lockstep

variable {same : ε → φ → Prop} {stray : ε → Prop} {S : σ → τ → Prop} {R : α → β → Prop}
  {Q : γ → δ → Prop}

theorem pure {a : α} {b : β} (h : R a b) :
    Lockstep same stray S R (Pure.pure a) (Pure.pure b) := fun _ _ hst => .ok ⟨h, hst⟩

theorem bind {m : StateT σ (Except ε) α} {n : StateT τ (Except φ) β}
    {f : α → StateT σ (Except ε) γ} {g : β → StateT τ (Except φ) δ}
    (h : Lockstep same stray S R m n) (hfg : ∀ a b, R a b → Lockstep same stray S Q (f a) (g b)) :
    Lockstep same stray S Q (m >>= f) (n >>= g) := fun s t hst =>
  (h s t hst).bind fun p q hpq => hfg p.1 q.1 hpq.1 p.2 q.2 hpq.2

theorem bind_same {m : StateT σ (Except ε) α} {n : StateT τ (Except φ) α}
    {f : α → StateT σ (Except ε) γ} {g : α → StateT τ (Except φ) δ}
    (h : Lockstep same stray S Eq m n) (hfg : ∀ a, Lockstep same stray S Q (f a) (g a)) :
    Lockstep same stray S Q (m >>= f) (n >>= g) := by
  refine h.bind fun a b hab => ?_
  cases hab
  exact hfg a

theorem lift {x : Except ε α} {y : Except φ β} (h : Agrees same stray R x y) :
    Lockstep same stray S R (StateT.lift x) (StateT.lift y) := by
  intro s t hst
  cases h with
  | ok h => exact .ok ⟨h, hst⟩
  | error h => exact .error h
  | stray h => exact .stray h

variable {m : Unit → StateT σ (Except ε) γ} {n : Unit → StateT τ (Except φ) δ}

theorem guard [Decidable p] [Decidable q] (hpq : p ↔ q) (hef : same e f)
    (hmn : ¬ p → Lockstep same stray S Q (m ()) (n ())) :
    Lockstep same stray S Q (StateT.lift (rejectIf p e) >>= m)
      (StateT.lift (rejectIf q f) >>= n) := by
  by_cases hp : p
  · rw [rejectIf_pos hp, rejectIf_pos (hpq.mp hp)]
    exact fun _ _ _ => .error hef
  · rw [rejectIf_neg hp, rejectIf_neg fun hq => hp (hpq.mpr hq)]
    exact hmn hp

/-- Two pairs of guards that refuse the same inputs, for whichever reason comes first. -/
theorem guards {p' q' : Prop} [Decidable p] [Decidable p'] [Decidable q] [Decidable q'] {e' : ε}
    {f' : φ} (hpq : p ∨ p' ↔ q ∨ q') (hsame : ∀ e₁ ∈ [e, e'], ∀ f₁ ∈ [f, f'], same e₁ f₁)
    (hmn : ¬ p' → Lockstep same stray S Q (m ()) (n ())) :
    Lockstep same stray S Q
      (StateT.lift (rejectIf p e) >>= fun _ => StateT.lift (rejectIf p' e') >>= m)
      (StateT.lift (rejectIf q f) >>= fun _ => StateT.lift (rejectIf q' f') >>= n) := by
  simp only [List.forall_mem_cons, List.not_mem_nil, false_imp_iff, implies_true, and_true]
    at hsame
  obtain ⟨⟨hef, hef'⟩, he'f, he'f'⟩ := hsame
  intro s t hst
  by_cases hp : p <;> by_cases hq : q
  · rw [rejectIf_pos hp, rejectIf_pos hq]
    exact .error hef
  · have hq' : q' := (hpq.mp (.inl hp)).resolve_left hq
    rw [rejectIf_pos hp, rejectIf_neg hq, rejectIf_pos hq']
    exact .error hef'
  · have hp' : p' := (hpq.mpr (.inl hq)).resolve_left hp
    rw [rejectIf_neg hp, rejectIf_pos hq, rejectIf_pos hp']
    exact .error he'f
  · have hpq' : p' ↔ q' := by
      rw [or_iff_right hp, or_iff_right hq] at hpq
      exact hpq
    rw [rejectIf_neg hp, rejectIf_neg hq]
    exact guard hpq' he'f' hmn s t hst

theorem strayGuard [Decidable p] [Decidable q] (hqp : q → p) (he : stray e)
    (hmn : ¬ p → Lockstep same stray S Q (m ()) (n ())) :
    Lockstep same stray S Q (StateT.lift (rejectIf p e) >>= m)
      (StateT.lift (rejectIf q f) >>= n) := by
  by_cases hp : p
  · rw [rejectIf_pos hp]
    exact fun _ _ _ => .stray he
  · rw [rejectIf_neg hp, rejectIf_neg fun hq => hp (hqp hq)]
    exact hmn hp

end Lockstep

end Rubin.Lib
