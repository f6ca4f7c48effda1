/-
# Both ways out of a method

A method with `&mut self` that returns a `Result` is an `EStateM` computation: it ends with a value or
with an error, and leaves a state either way.  `Exits m s Q E` says that from `s` it ends in `Q` or in
`E`; it is the weakest precondition of `m` for the two postconditions, and the rules below compute
it along the structure of `m`.
-/
import Rubin.Lib.Outcome

namespace Rubin.Lib

variable {ε ε' σ τ α β : Type}

/-! ## 1. The judgement -/

def Exits (m : EStateM ε σ α) (s : σ) (Q : α → σ → Prop) (E : ε → σ → Prop) : Prop :=
  match m s with
  | .ok a s' => Q a s'
  | .error e s' => E e s'

section rules

variable {m : EStateM ε σ α} {s s' : σ} {Q Q' : α → σ → Prop} {E E' : ε → σ → Prop}

theorem exits_iff : Exits m s Q E ↔
    (∀ a s', m s = .ok a s' → Q a s') ∧ ∀ e s', m s = .error e s' → E e s' := by
  unfold Exits
  cases m s <;> simp

theorem Exits.of_ok {a : α} (h : Exits m s Q E) (hm : m s = .ok a s') : Q a s' :=
  (exits_iff.mp h).1 a s' hm

theorem Exits.of_error {e : ε} (h : Exits m s Q E) (hm : m s = .error e s') : E e s' :=
  (exits_iff.mp h).2 e s' hm

theorem Exits.mono (h : Exits m s Q E) (hQ : ∀ a s', Q a s' → Q' a s')
    (hE : ∀ e s', E e s' → E' e s') : Exits m s Q' E' :=
  exits_iff.mpr ⟨fun a s' hm => hQ a s' (h.of_ok hm), fun e s' hm => hE e s' (h.of_error hm)⟩

@[simp] theorem exits_pure {a : α} : Exits (pure a : EStateM ε σ α) s Q E ↔ Q a s := Iff.rfl

@[simp] theorem exits_throw {e : ε} : Exits (throw e : EStateM ε σ α) s Q E ↔ E e s := Iff.rfl

@[simp] theorem exits_get {Q : σ → σ → Prop} : Exits (get : EStateM ε σ σ) s Q E ↔ Q s s := Iff.rfl

@[simp] theorem exits_set {Q : PUnit → σ → Prop} {s₁ : σ} :
    Exits (set s₁ : EStateM ε σ PUnit) s Q E ↔ Q ⟨⟩ s₁ := Iff.rfl

@[simp] theorem exits_modify {Q : PUnit → σ → Prop} {f : σ → σ} :
    Exits (modify f : EStateM ε σ PUnit) s Q E ↔ Q ⟨⟩ (f s) := Iff.rfl

@[simp] theorem exits_bind {f : α → EStateM ε σ β} {Q : β → σ → Prop} :
    Exits (m >>= f) s Q E ↔ Exits m s (fun a s₁ => Exits (f a) s₁ Q E) E := by
  change Exits (EStateM.bind m f) s Q E ↔ _
  unfold Exits EStateM.bind
  cases m s <;> rfl

theorem exits_liftE {x : Except ε α} : Exits (liftE x) s Q E ↔
    (∀ a, x = .ok a → Q a s) ∧ ∀ e, x = .error e → E e s := by
  cases x <;> simp [Exits, liftE]

@[simp] theorem exits_reject {bad : Prop} [Decidable bad] {e : ε} {Q : Unit → σ → Prop} :
    Exits (liftE (rejectIf bad e)) s Q E ↔ (¬ bad → Q () s) ∧ (bad → E e s) := by
  by_cases h : bad
  · rw [rejectIf_pos h]
    simp [Exits, liftE, h]
  · rw [rejectIf_neg h]
    simp [Exits, liftE, h]

end rules

/-! ## 2. Calls -/

/-- `match self.m() { Ok(..) .. Err(..) .. }`: the error is a value. -/
def attempt (m : EStateM ε σ α) : EStateM ε' σ (Except ε α) := fun s =>
  match m s with
  | .ok a s' => .ok (.ok a) s'
  | .error e s' => .ok (.error e) s'

@[simp] theorem exits_attempt {m : EStateM ε σ α} {s : σ} {Q : Except ε α → σ → Prop}
    {E : ε' → σ → Prop} : Exits (attempt m) s Q E ↔
      Exits m s (fun a s' => Q (.ok a) s') (fun e s' => Q (.error e) s') := by
  unfold Exits attempt
  cases m s <;> rfl

/-- `x.map_err(f)`. -/
def mapErr (f : ε → ε') (m : EStateM ε σ α) : EStateM ε' σ α := fun s =>
  match m s with
  | .ok a s' => .ok a s'
  | .error e s' => .error (f e) s'

@[simp] theorem exits_mapErr {f : ε → ε'} {m : EStateM ε σ α} {s : σ} {Q : α → σ → Prop}
    {E : ε' → σ → Prop} :
    Exits (mapErr f m) s Q E ↔ Exits m s Q (fun e s' => E (f e) s') := by
  unfold Exits mapErr
  cases m s <;> rfl

/-! ## 3. Memo cells -/

/-- From every state that keeps `I`, the outcome of `m` is `v`, and `I` is kept. -/
def SteadyOn (I : σ → Prop) (m : EStateM ε σ α) (v : Except ε α) : Prop :=
  ∀ s, I s → Exits m s (fun a s' => v = .ok a ∧ I s') (fun e s' => v = .error e ∧ I s')

/-- The cell's value, or the computed one, which is then stored; nothing is stored on an error. -/
def memoized (cell : σ → Option α) (store : α → σ → σ) (compute : Except ε α) : EStateM ε σ α := do
  let s ← get
  match cell s with
  | some a => pure a
  | none =>
    let a ← liftE compute
    modify (store a)
    pure a

namespace SteadyOn

variable {I : σ → Prop}

theorem pure (a : α) : SteadyOn I (Pure.pure a : EStateM ε σ α) (.ok a) := fun _ hI => ⟨rfl, hI⟩

theorem lift (x : Except ε α) : SteadyOn I (liftE x) x := by
  intro s hI
  exact exits_liftE.2 ⟨fun _ hx => ⟨hx, hI⟩, fun _ hx => ⟨hx, hI⟩⟩

theorem bind {m : EStateM ε σ α} {f : α → EStateM ε σ β} {v : Except ε α} {g : α → Except ε β}
    (hm : SteadyOn I m v) (hf : ∀ a, SteadyOn I (f a) (g a)) : SteadyOn I (m >>= f) (v >>= g) := by
  intro s hI
  rw [exits_bind]
  refine (hm s hI).mono ?_ ?_
  · rintro a s' ⟨rfl, hI'⟩
    exact hf a s' hI'
  · rintro e s' ⟨rfl, hI'⟩
    exact ⟨rfl, hI'⟩

/-- **A cell that only ever holds the computed value can be forgotten.** -/
theorem memoized {cell : σ → Option α} {store : α → σ → σ} {compute : Except ε α}
    (hread : ∀ s a, I s → cell s = some a → compute = .ok a)
    (hstore : ∀ s a, I s → compute = .ok a → I (store a s)) :
    SteadyOn I (memoized cell store compute) compute := by
  intro s hI
  rw [Lib.memoized, exits_bind, exits_get]
  rcases hcell : cell s with _ | a
  · simp only [exits_bind, exits_liftE, exits_modify, exits_pure]
    exact ⟨fun a ha => ⟨ha, hstore s a hI ha⟩, fun e he => ⟨he, hI⟩⟩
  · exact ⟨hread s a hI hcell, hI⟩

end SteadyOn

end Rubin.Lib
