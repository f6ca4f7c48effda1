/-
# Fallible computations, peeled apart

Source code that returns early (`if bad { return Err(e) }`, `f(x)?`) is written here as a chain
of binds in `Except`: a guard is `rejectIf bad e`, a fallible call is a bind.  The two rules
below take such a chain apart from the outside in, so that a proof about a long function never
unfolds the monad.

A computation that also threads a cache is `Steady` when its outcome does not depend on what the
cache holds; steadiness composes, so a cache can be forgotten.
-/
import Mathlib.Data.List.Basic
import Mathlib.Data.List.Forall2
import Mathlib.Logic.Basic

namespace Rubin.Lib

variable {ε α β γ σ : Type}

/-! ## 1. Guards and binds -/

/-- `if bad { return Err(e) }`. -/
def rejectIf (bad : Prop) [Decidable bad] (e : ε) : Except ε Unit :=
  if bad then .error e else .ok ()

variable {bad : Prop} {e e' : ε} {x : Except ε α} {b : β} {a : α} {l : List α}
  {f : σ → α → Except ε σ} {s s' : σ} {m : StateT σ (Except ε) α}

@[simp] theorem rejectIf_eq_ok [Decidable bad] {u : Unit} : rejectIf bad e = .ok u ↔ ¬ bad := by
  unfold rejectIf
  split <;> simp_all

@[simp] theorem rejectIf_eq_error [Decidable bad] : rejectIf bad e = .error e' ↔ bad ∧ e = e' := by
  unfold rejectIf
  split <;> simp_all

theorem rejectIf_pos [Decidable bad] (h : bad) : rejectIf bad e = .error e := if_pos h

theorem rejectIf_neg [Decidable bad] (h : ¬ bad) : rejectIf bad e = .ok () := if_neg h

@[simp] theorem bind_eq_ok {f : α → Except ε β} :
    x >>= f = .ok b ↔ ∃ a, x = .ok a ∧ f a = .ok b := by
  cases x <;> simp [bind, Except.bind]

@[simp] theorem bind_eq_error {f : α → Except ε β} :
    x >>= f = .error e ↔ x = .error e ∨ ∃ a, x = .ok a ∧ f a = .error e := by
  cases x <;> simp [bind, Except.bind]

theorem check_bind_eq_ok {x : Except ε Unit} {f : Unit → Except ε β} :
    x >>= f = .ok b ↔ x = .ok () ∧ f () = .ok b := by
  cases x <;> simp [bind, Except.bind]

/-- What is left of a check after `bind_eq_ok`. -/
@[simp] theorem exists_unit {p : Unit → Prop} : (∃ u, p u) ↔ p () :=
  ⟨fun ⟨_, h⟩ => h, fun h => ⟨(), h⟩⟩

@[simp] theorem ok_bind (a : α) (f : α → Except ε β) : (Except.ok a >>= f) = f a := rfl

@[simp] theorem error_bind (e : ε) (f : α → Except ε β) : (Except.error e >>= f) = .error e := rfl

@[simp] theorem pure_eq_ok_iff {b : α} : (pure a : Except ε α) = .ok b ↔ a = b := by
  simp [pure, Except.pure]

theorem exists_ok_of_isOk (h : x.isOk = true) : ∃ a, x = .ok a := by
  cases x with
  | error e => cases h
  | ok a => exact ⟨a, rfl⟩

/-- `o.ok_or(e)?`. -/
def okOr (o : Option α) (e : ε) : Except ε α :=
  match o with
  | some a => .ok a
  | none => .error e

@[simp] theorem okOr_eq_ok {o : Option α} : okOr o e = .ok a ↔ o = some a := by
  cases o <;> simp [okOr]

@[simp] theorem mapError_eq_ok {ε' : Type} {f : ε → ε'} : x.mapError f = .ok a ↔ x = .ok a := by
  cases x <;> simp [Except.mapError]

/-- `for a in l { f(a)?; }`. -/
def forEach (f : α → Except ε Unit) : List α → Except ε Unit
  | [] => .ok ()
  | a :: l => f a >>= fun _ => forEach f l

@[simp] theorem forEach_nil (f : α → Except ε Unit) : forEach f [] = .ok () := rfl

@[simp] theorem forEach_cons (f : α → Except ε Unit) (a : α) (l : List α) :
    forEach f (a :: l) = f a >>= fun _ => forEach f l := rfl

theorem forEach_eq_ok {f : α → Except ε Unit} : forEach f l = .ok () ↔ ∀ a ∈ l, f a = .ok () := by
  induction l with
  | nil => simp
  | cons a l ih =>
    rw [forEach_cons, check_bind_eq_ok, List.forall_mem_cons, ← ih]

theorem mapM_eq_ok {f : α → Except ε β} {g : α → β} (h : ∀ a ∈ l, f a = .ok (g a)) :
    l.mapM f = .ok (l.map g) := by
  induction l with
  | nil => rfl
  | cons a l ih =>
    rw [List.forall_mem_cons] at h
    rw [List.mapM_cons, h.1, ok_bind, ih h.2]
    rfl

theorem length_of_mapM {f : α → Except ε β} {bs : List β} (h : l.mapM f = .ok bs) :
    bs.length = l.length := by
  induction l generalizing bs with
  | nil =>
    rw [List.mapM_nil, pure_eq_ok_iff] at h
    subst h
    rfl
  | cons a l ih =>
    simp only [List.mapM_cons, bind_eq_ok, pure_eq_ok_iff] at h
    obtain ⟨b, -, bs', hbs', rfl⟩ := h
    rw [List.length_cons, List.length_cons, ih hbs']

theorem mapM_zipIdx_eq_ok_iff {f : α × Nat → Except ε β} {R : α → β → Prop}
    (l : List α) (h : ∀ a ∈ l, ∀ i b, f (a, i) = .ok b ↔ R a b) :
    ∀ (i : Nat) (bs : List β), (l.zipIdx i).mapM f = .ok bs ↔ List.Forall₂ R l bs := by
  induction l with
  | nil =>
    intro i bs
    rw [List.zipIdx_nil, List.mapM_nil, pure_eq_ok_iff, List.forall₂_nil_left_iff, eq_comm]
  | cons a l ih =>
    rw [List.forall_mem_cons] at h
    intro i bs
    simp only [List.zipIdx_cons, List.mapM_cons, bind_eq_ok, pure_eq_ok_iff, h.1 i,
      ih h.2 (i + 1)]
    constructor
    · rintro ⟨b, hb, rest, hrest, rfl⟩
      exact .cons hb hrest
    · rintro (_ | ⟨hb, hrest⟩)
      exact ⟨_, hb, _, hrest, rfl⟩

/-- **Loop rule.**  What holds of nothing done, and survives one more turn, holds after the loop. -/
theorem foldlM_invariant {P : List α → σ → Prop}
    (step : ∀ {done : List α} {a : α} {s s' : σ}, P done s → f s a = .ok s' → P (done ++ [a]) s') :
    ∀ {l done : List α} {s s' : σ}, P done s → l.foldlM f s = .ok s' → P (done ++ l) s' := by
  intro l
  induction l with
  | nil =>
    intro done s s' h hrun
    rw [List.foldlM_nil, pure_eq_ok_iff] at hrun
    rw [List.append_nil, ← hrun]
    exact h
  | cons a l ih =>
    intro done s s' h hrun
    rw [List.foldlM_cons, bind_eq_ok] at hrun
    obtain ⟨s₁, h1, h2⟩ := hrun
    have h3 := ih (step h h1) h2
    rwa [List.append_assoc, List.singleton_append] at h3

/-- The loop rule from the start of the list: what holds before any item holds after all. -/
theorem foldlM_from_start (P : List α → σ → Prop) (init : P [] s)
    (step : ∀ done a s s', P done s → f s a = .ok s' → P (done ++ [a]) s')
    (hrun : l.foldlM f s = .ok s') : P l s' :=
  foldlM_invariant (fun {done a s s'} => step done a s s') init hrun

/-- The loop rule with progress: every turn succeeds from a state that has the invariant. -/
theorem foldlM_progress (P : List α → σ → Prop) (init : P [] s)
    (step : ∀ done a rest s, l = done ++ a :: rest → P done s →
      ∃ s', f s a = .ok s' ∧ P (done ++ [a]) s') : ∃ s', l.foldlM f s = .ok s' ∧ P l s' := by
  suffices h : ∀ (rest done : List α) (s : σ), l = done ++ rest → P done s →
      ∃ s', rest.foldlM f s = .ok s' ∧ P l s' from h l [] s rfl init
  intro rest
  induction rest with
  | nil =>
    intro done s hl hs
    rw [List.append_nil] at hl
    exact ⟨s, rfl, hl ▸ hs⟩
  | cons a rest ih =>
    intro done s hl hs
    obtain ⟨s₁, h1, hs₁⟩ := step done a rest s hl hs
    obtain ⟨s', h2, hs'⟩ := ih (done ++ [a]) s₁ (by simp [hl]) hs₁
    exact ⟨s', by rw [List.foldlM_cons, h1]; exact h2, hs'⟩

theorem exists_foldlM_ok (h : ∀ a ∈ l, ∀ s, ∃ s', f s a = .ok s') :
    ∀ s, ∃ s', l.foldlM f s = .ok s' := by
  induction l with
  | nil => exact fun s => ⟨s, rfl⟩
  | cons a l ih =>
    rw [List.forall_mem_cons] at h
    intro s
    obtain ⟨s₁, h1⟩ := h.1 s
    obtain ⟨s', h2⟩ := ih h.2 s₁
    exact ⟨s', by rw [List.foldlM_cons, h1]; exact h2⟩

theorem foldl_finds {f : σ → α → σ} (P : σ → Prop) (hkeep : ∀ s a, P s → P (f s a))
    (hfind : ∀ s, P (f s a)) : ∀ s, a ∈ l → P (l.foldl f s) := by
  have hall : ∀ (l : List α) (s : σ), P s → P (l.foldl f s) := fun l => by
    induction l with
    | nil => exact fun _ h => h
    | cons b l ih => exact fun s h => ih _ (hkeep s b h)
  induction l with
  | nil => simp
  | cons b l ih =>
    intro s ha
    rcases List.mem_cons.1 ha with rfl | ha
    · exact hall l _ (hfind s)
    · exact ih _ ha

theorem foldlM_stops {done rest : List α} {s₁ : σ} (hdone : done.foldlM f s = .ok s₁)
    (ha : f s₁ a = .error e) : (done ++ a :: rest).foldlM f s = .error e := by
  rw [List.foldlM_append, hdone, ok_bind, List.foldlM_cons, ha]
  rfl

theorem foldlM_stop_unique {rest rest' : List α} {a' : α} {s₁ s₁' : σ} (ha : f s₁ a = .error e)
    (ha' : f s₁' a' = .error e') :
    ∀ {done done' : List α} {s : σ}, done ++ a :: rest = done' ++ a' :: rest' →
      done.foldlM f s = .ok s₁ → done'.foldlM f s = .ok s₁' → a = a' ∧ s₁ = s₁' := by
  intro done
  induction done with
  | nil =>
    intro done' s hl h h'
    cases h
    cases done' with
    | nil =>
      cases h'
      exact ⟨(List.cons.inj hl).1, rfl⟩
    | cons b done' =>
      obtain ⟨rfl, -⟩ := List.cons.inj hl
      rw [List.foldlM_cons, ha] at h'
      cases h'
  | cons b done ih =>
    intro done' s hl h h'
    cases done' with
    | nil =>
      cases h'
      obtain ⟨rfl, -⟩ := List.cons.inj hl
      rw [List.foldlM_cons, ha'] at h
      cases h
    | cons b' done' =>
      obtain ⟨rfl, htail⟩ := List.cons.inj hl
      rw [List.foldlM_cons, bind_eq_ok] at h h'
      obtain ⟨t, ht, h⟩ := h
      obtain ⟨t', ht', h'⟩ := h'
      cases Except.ok.inj (ht.symm.trans ht')
      exact ih htail h h'

/-- The rule of `bind_eq_ok` for a computation that also threads a state. -/
theorem stateT_bind_eq_ok {f : α → StateT σ (Except ε) β} :
    (m >>= f) s = .ok (b, s') ↔ ∃ a s₁, m s = .ok (a, s₁) ∧ f a s₁ = .ok (b, s') := by
  change (m s >>= fun p => f p.1 p.2) = _ ↔ _
  rw [bind_eq_ok, Prod.exists]

theorem stateT_bind_eq_error {f : α → StateT σ (Except ε) β} : (m >>= f) s = .error e ↔
      m s = .error e ∨ ∃ a s₁, m s = .ok (a, s₁) ∧ f a s₁ = .error e := by
  change (m s >>= fun p => f p.1 p.2) = _ ↔ _
  rw [bind_eq_error, Prod.exists]

theorem stateT_pure_eq_ok {b : α} :
    (pure a : StateT σ (Except ε) α) s = .ok (b, s') ↔ a = b ∧ s = s' := by
  change Except.ok (a, s) = .ok (b, s') ↔ _
  rw [Except.ok.injEq, Prod.mk.injEq]

theorem stateT_lift_eq_ok :
    (StateT.lift x : StateT σ (Except ε) α) s = .ok (a, s') ↔ x = .ok a ∧ s = s' := by
  cases x <;> simp [StateT.lift, Functor.map, Except.map]

theorem stateT_lift_eq_error :
    (StateT.lift x : StateT σ (Except ε) α) s = .error e ↔ x = .error e := by
  cases x <;> simp [StateT.lift, Functor.map, Except.map]

theorem stateT_bind_apply (m : StateT σ (Except ε) α) (f : α → StateT σ (Except ε) β) (s : σ) :
    (m >>= f) s = m s >>= fun p => f p.1 p.2 := rfl

theorem stateT_get_bind (f : σ → StateT σ (Except ε) β) (s : σ) :
    ((get : StateT σ (Except ε) σ) >>= f) s = f s s := rfl

theorem stateT_lift_bind (x : Except ε α) (f : α → StateT σ (Except ε) β) (s : σ) :
    (StateT.lift x >>= f) s = x >>= fun a => f a s := by
  cases x <;> rfl

theorem stateT_lift_ok_bind (a : α) (f : α → StateT σ (Except ε) β) :
    (StateT.lift (.ok a) : StateT σ (Except ε) α) >>= f = f a := rfl

theorem stateT_lift_bind_lift (x : Except ε α) (f : α → Except ε β) :
    (StateT.lift (x >>= f) : StateT σ (Except ε) β) =
      StateT.lift x >>= fun a => StateT.lift (f a) := by
  cases x <;> rfl

theorem stateT_guard_or {p q : Prop} [Decidable p] [Decidable q] (e : ε)
    (m : Unit → StateT σ (Except ε) β) :
    (StateT.lift (rejectIf p e) >>= fun _ => StateT.lift (rejectIf q e) >>= m) =
      StateT.lift (rejectIf (p ∨ q) e) >>= m := by
  by_cases hp : p
  · rw [rejectIf_pos hp, rejectIf_pos (Or.inl hp : p ∨ q)]
    rfl
  · by_cases hq : q
    · rw [rejectIf_neg hp, rejectIf_pos hq, rejectIf_pos (Or.inr hq : p ∨ q)]
      rfl
    · rw [rejectIf_neg hp, rejectIf_neg hq, rejectIf_neg (not_or.mpr ⟨hp, hq⟩)]
      rfl

/-! ## 2. Outcomes that do not depend on the state -/

/-- `m` has the outcome `v` from every state. -/
def Steady (m : StateT σ (Except ε) α) (v : Except ε α) : Prop :=
  ∀ s, (m s).map Prod.fst = v

namespace Steady

theorem pure (a : α) : Steady (Pure.pure a : StateT σ (Except ε) α) (.ok a) := fun _ => rfl

theorem lift (x : Except ε α) : Steady (StateT.lift x : StateT σ (Except ε) α) x := by
  intro s
  cases x <;> rfl

theorem bind {f : α → StateT σ (Except ε) β} {v : Except ε α} {g : α → Except ε β} (hm : Steady m v)
    (hf : ∀ a, Steady (f a) (g a)) : Steady (m >>= f) (v >>= g) := by
  intro s
  have h1 := hm s
  change ((m s) >>= fun p => f p.1 p.2).map Prod.fst = _
  cases hs : m s with
  | error e =>
    rw [hs] at h1
    rw [← h1]
    rfl
  | ok p =>
    rw [hs] at h1
    rw [← h1]
    exact hf p.1 p.2

theorem eq_ok (hm : Steady m (.ok a)) (s : σ) : ∃ s', m s = .ok (a, s') := by
  have h := hm s
  cases hs : m s with
  | error e => rw [hs] at h; cases h
  | ok p =>
    rw [hs] at h
    exact ⟨p.2, by rw [← Except.ok.inj h]⟩

theorem eq_error (hm : Steady m (.error e)) (s : σ) : m s = .error e := by
  have h := hm s
  cases hs : m s with
  | error e' => rw [hs] at h; rw [Except.error.inj h]
  | ok p => rw [hs] at h; cases h

end Steady

/-! ## 3. Computations that keep their state on an error

A method with `&mut self` that returns a `Result` leaves whatever it has written when it fails. -/

/-- `x?` in such a method. -/
def liftE (x : Except ε α) : EStateM ε σ α := fun s =>
  match x with
  | .ok a => .ok a s
  | .error e => .error e s

@[simp] theorem liftE_eq_ok : liftE x s = .ok a s' ↔ x = .ok a ∧ s = s' := by
  cases x <;> simp [liftE]

@[simp] theorem liftE_eq_error :
    (liftE x : EStateM ε σ α) s = .error e s' ↔ x = .error e ∧ s = s' := by
  cases x <;> simp [liftE]

theorem estate_bind_eq_ok {m : EStateM ε σ α} {f : α → EStateM ε σ β} :
    (m >>= f) s = .ok b s' ↔ ∃ a s₁, m s = .ok a s₁ ∧ f a s₁ = .ok b s' := by
  change EStateM.bind m f s = _ ↔ _
  cases h : m s <;> simp [EStateM.bind, h]

theorem estate_bind_eq_error {m : EStateM ε σ α} {f : α → EStateM ε σ β} :
    (m >>= f) s = .error e s' ↔
      m s = .error e s' ∨ ∃ a s₁, m s = .ok a s₁ ∧ f a s₁ = .error e s' := by
  change EStateM.bind m f s = _ ↔ _
  cases h : m s <;> simp [EStateM.bind, h]

@[simp] theorem liftE_ok_bind (a : α) (f : α → EStateM ε σ β) (s : σ) :
    (liftE (.ok a) >>= f) s = f a s := rfl

@[simp] theorem estate_get_bind (f : σ → EStateM ε σ β) (s : σ) : (get >>= f) s = f s s := rfl

@[simp] theorem estate_set_bind (s₁ : σ) (f : PUnit → EStateM ε σ β) (s : σ) :
    (set s₁ >>= f) s = f ⟨⟩ s₁ := rfl

/-- Runs `m` on a copy of the state: what it has written is lost when it fails. -/
def onCopy (m : EStateM ε σ α) (s : σ) : Except ε (α × σ) :=
  match m s with
  | .ok a s' => .ok (a, s')
  | .error e _ => .error e

@[simp] theorem onCopy_eq_ok {m : EStateM ε σ α} : onCopy m s = .ok (a, s') ↔ m s = .ok a s' := by
  cases h : m s <;> simp [onCopy, h]

/-- Whether a run ended well; concrete runs are decided through it. -/
def accepted : EStateM.Result ε σ α → Bool
  | .ok _ _ => true
  | .error _ _ => false

theorem exists_of_accepted {r : EStateM.Result ε σ α} (h : accepted r = true) :
    ∃ a s, r = .ok a s := by
  cases r with
  | ok a s => exact ⟨a, s, rfl⟩
  | error e s => cases h

end Rubin.Lib
