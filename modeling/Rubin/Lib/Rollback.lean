/-
# Rollback

A method that fails keeps what it has written unless it undoes it.  Two models of such a method are
useful: one that keeps the state on an error, and one that forgets it.  `InPlace R` ties them
together: forgetting the state turns the first into the second, and on the way the state has only
moved along `R`.  When `R` moves can be undone, `restoring` undoes them on an error.
-/
import Mathlib.Order.Defs.Unbundled
import Rubin.Lib.Outcome

namespace Rubin.Lib

variable {ε σ α β : Type}

/-- The state a run ends in, either way. -/
def endState : EStateM.Result ε σ α → σ
  | .ok _ s => s
  | .error _ s => s

@[simp] theorem endState_ok (a : α) (s : σ) : endState (.ok a s : EStateM.Result ε σ α) = s := rfl

@[simp] theorem endState_error (e : ε) (s : σ) :
    endState (.error e s : EStateM.Result ε σ α) = s := rfl

/-- A method that writes only when nothing can fail any more. -/
def writing (f : σ → Except ε σ) : EStateM ε σ Unit := fun s =>
  match f s with
  | .ok s' => .ok () s'
  | .error e => .error e s

theorem writing_eq_ok {f : σ → Except ε σ} {s s' : σ} {u : Unit} :
    writing f s = .ok u s' ↔ f s = .ok s' := by
  cases h : f s <;> simp [writing, h]

theorem writing_eq_error {f : σ → Except ε σ} {s s' : σ} {e : ε} :
    writing f s = .error e s' ↔ f s = .error e ∧ s' = s := by
  cases h : f s <;> simp [writing, h, eq_comm]

/-- `m` is `m₀` that keeps its state on an error, and moves it along `R` only. -/
structure InPlace (R : σ → σ → Prop) (m : EStateM ε σ α) (m₀ : StateT σ (Except ε) α) : Prop where
  forget : ∀ s, onCopy m s = m₀ s
  moves : ∀ s, R s (endState (m s))

/-- On an error, goes back to the state at the start as `back` can. -/
def restoring (back : σ → σ → σ) (m : EStateM ε σ α) : EStateM ε σ α := fun s =>
  match m s with
  | .ok a s' => .ok a s'
  | .error e s' => .error e (back s s')

namespace InPlace

variable {R : σ → σ → Prop}

theorem lift [Std.Refl R] (x : Except ε α) : InPlace R (liftE x) (StateT.lift x) where
  forget := by
    intro s
    cases x with
    | ok a => rfl
    | error e => rfl
  moves := by
    intro s
    cases x with
    | ok a => exact Std.Refl.refl s
    | error e => exact Std.Refl.refl s

theorem pure [Std.Refl R] (a : α) :
    InPlace R (Pure.pure a : EStateM ε σ α) (Pure.pure a) where
  forget := fun _ => rfl
  moves := fun s => Std.Refl.refl s

theorem bind [IsTrans σ R] {m : EStateM ε σ α} {m₀ : StateT σ (Except ε) α}
    {f : α → EStateM ε σ β} {f₀ : α → StateT σ (Except ε) β} (h : InPlace R m m₀)
    (hf : ∀ a, InPlace R (f a) (f₀ a)) : InPlace R (m >>= f) (m₀ >>= f₀) where
  forget := by
    intro s
    change onCopy (EStateM.bind m f) s = m₀ s >>= fun p => f₀ p.1 p.2
    rw [← h.forget s]
    cases hm : m s with
    | ok a s' =>
      have hright := (hf a).forget s'
      simp only [onCopy, EStateM.bind, hm] at hright ⊢
      rw [hright]
      rfl
    | error e s' =>
      simp only [onCopy, EStateM.bind, hm]
      rfl
  moves := by
    intro s
    change R s (endState (EStateM.bind m f s))
    have hleft := h.moves s
    cases hm : m s with
    | ok a s' =>
      rw [hm] at hleft
      simp only [EStateM.bind, hm]
      exact IsTrans.trans s s' _ hleft ((hf a).moves s')
    | error e s' =>
      rw [hm] at hleft
      simp only [EStateM.bind, hm]
      exact hleft

theorem liftBind [Std.Refl R] [IsTrans σ R] {x : Except ε α} {f : α → EStateM ε σ β}
    {f₀ : α → StateT σ (Except ε) β} (hf : ∀ a, InPlace R (f a) (f₀ a)) :
    InPlace R (liftE x >>= f) (StateT.lift x >>= f₀) :=
  (lift x).bind hf

theorem restore {m : EStateM ε σ α} {m₀ : StateT σ (Except ε) α} (h : InPlace R m m₀)
    {back : σ → σ → σ} (hback : ∀ s s', R s s' → R s (back s s')) :
    InPlace R (restoring back m) m₀ where
  forget := by
    intro s
    rw [← h.forget s]
    cases hm : m s with
    | ok a s' => simp [onCopy, restoring, hm]
    | error e s' => simp [onCopy, restoring, hm]
  moves := by
    intro s
    have hmoves := h.moves s
    cases hm : m s with
    | ok a s' =>
      rw [hm] at hmoves
      simpa [restoring, hm] using hmoves
    | error e s' =>
      rw [hm] at hmoves
      simpa [restoring, hm] using hback s s' hmoves

end InPlace

end Rubin.Lib
