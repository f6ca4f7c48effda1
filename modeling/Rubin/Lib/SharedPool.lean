/-
# Workers that share a state

Workers take tasks from a queue and write outcomes into slots, as in a pool with ordered results.
Here running a task is a sequence of atomic actions on a state that all workers share, and something
outside the pool may act on that state at any time.  A schedule says whose turn it is.

If the shared state keeps an invariant, and under it a task can only finish with the outcome
`exec t`, then once all workers have returned slot `i` holds the outcome of task `i`
(`Inv.slots_eq`): neither the interleaving nor the shared state shows.
-/
import Mathlib.Data.List.Basic
import Mathlib.Logic.Function.Basic

namespace Rubin.Lib

/-- How a task runs: where it starts, and what one atomic action does. -/
structure TaskProgram (T L R σ : Type) where
  start : T → L
  act : L → σ → (L ⊕ R) × σ

inductive Turn where
  | worker (w : Nat)
  | outside

structure SharedPool (T L R σ : Type) where
  queue : List (Nat × T)
  held : Nat → Option (Nat × L)
  slots : List (Option R)
  shared : σ

variable {T L R σ : Type}

namespace SharedPool

/-! ## 1. The pool -/

def start (tasks : List T) (shared : σ) : SharedPool T L R σ :=
  ⟨tasks.zipIdx.map Prod.swap, fun _ => none, tasks.map fun _ => none, shared⟩

/-- A worker that holds task `i` in phase `l` does its next action. -/
def advance (prog : TaskProgram T L R σ) (s : SharedPool T L R σ) (w i : Nat) (l : L) :
    SharedPool T L R σ :=
  match prog.act l s.shared with
  | (.inl l', shared) => { s with held := Function.update s.held w (some (i, l')), shared }
  | (.inr r, shared) =>
    { s with held := Function.update s.held w none, slots := s.slots.set i (some r), shared }

/-- An idle worker takes the next task, if there is one. -/
def take (prog : TaskProgram T L R σ) (s : SharedPool T L R σ) (w : Nat) : SharedPool T L R σ :=
  match s.queue with
  | [] => s
  | (i, t) :: queue =>
    { s with queue, held := Function.update s.held w (some (i, prog.start t)) }

def step (prog : TaskProgram T L R σ) (outside : σ → σ) (s : SharedPool T L R σ) :
    Turn → SharedPool T L R σ
  | .outside => { s with shared := outside s.shared }
  | .worker w =>
    match s.held w with
    | some (i, l) => s.advance prog w i l
    | none => s.take prog w

def run (prog : TaskProgram T L R σ) (outside : σ → σ) (s : SharedPool T L R σ)
    (schedule : List Turn) : SharedPool T L R σ :=
  schedule.foldl (step prog outside) s

def Joined (s : SharedPool T L R σ) : Prop := s.queue = [] ∧ ∀ w, s.held w = none

/-! ## 2. Outcomes -/

/-- What has to be known of a program: `I` of the shared state, `J` of a task in a phase. -/
structure Correct (prog : TaskProgram T L R σ) (outside : σ → σ) (I : σ → Prop)
    (J : T → L → Prop) (exec : T → R) (tasks : List T) : Prop where
  outside : ∀ s, I s → I (outside s)
  start : ∀ t ∈ tasks, J t (prog.start t)
  shared : ∀ t l s, J t l → I s → I (prog.act l s).2
  phase : ∀ t l s l', J t l → I s → (prog.act l s).1 = .inl l' → J t l'
  result : ∀ t l s r, J t l → I s → (prog.act l s).1 = .inr r → r = exec t

/-- Each task is queued, held or done, and a filled slot holds its task's outcome. -/
structure Inv (I : σ → Prop) (J : T → L → Prop) (exec : T → R) (tasks : List T)
    (s : SharedPool T L R σ) : Prop where
  length : s.slots.length = tasks.length
  queued : ∀ i t, (i, t) ∈ s.queue → tasks[i]? = some t
  holds : ∀ w i l, s.held w = some (i, l) → ∃ t, tasks[i]? = some t ∧ J t l
  placed : ∀ i t, tasks[i]? = some t →
    (i, t) ∈ s.queue ∨ (∃ w l, s.held w = some (i, l)) ∨ s.slots[i]? = some (some (exec t))
  shared : I s.shared

variable {prog : TaskProgram T L R σ} {outside : σ → σ} {I : σ → Prop} {J : T → L → Prop}
  {exec : T → R} {tasks : List T} {s : SharedPool T L R σ}

theorem start_inv {shared : σ} (h : I shared) :
    Inv I J exec tasks (start tasks shared : SharedPool T L R σ) where
  length := by simp [start]
  queued := by
    intro i t hmem
    simpa [start, List.mem_zipIdx_iff_getElem?] using hmem
  holds := by simp [start]
  placed := by
    intro i t ht
    refine Or.inl ?_
    simpa [start, List.mem_zipIdx_iff_getElem?] using ht
  shared := h

theorem Inv.take (hc : Correct prog outside I J exec tasks) (h : Inv I J exec tasks s) {w : Nat}
    (hw : s.held w = none) : Inv I J exec tasks (s.take prog w) := by
  rw [SharedPool.take]
  split
  · exact h
  · rename_i i t queue hqueue
    have ht := h.queued i t (by rw [hqueue]; exact List.mem_cons_self)
    refine ⟨h.length, ?_, ?_, ?_, h.shared⟩
    · intro j u hmem
      exact h.queued j u (by rw [hqueue]; exact List.mem_cons_of_mem _ hmem)
    · intro v j l hv
      by_cases hvw : v = w
      · subst hvw
        simp only [Function.update_self] at hv
        cases hv
        exact ⟨t, ht, hc.start t (List.mem_of_getElem? ht)⟩
      · simp only [Function.update_of_ne hvw] at hv
        exact h.holds v j l hv
    · intro j u hu
      rcases h.placed j u hu with hmem | ⟨v, l, hv⟩ | hdone
      · rw [hqueue] at hmem
        rcases List.mem_cons.mp hmem with heq | hmem
        · cases heq
          exact Or.inr (Or.inl ⟨w, prog.start t, Function.update_self ..⟩)
        · exact Or.inl hmem
      · have hvw : v ≠ w := by
          rintro rfl
          rw [hw] at hv
          cases hv
        exact Or.inr (Or.inl ⟨v, l, by simpa only [Function.update_of_ne hvw] using hv⟩)
      · exact Or.inr (Or.inr hdone)

theorem Inv.advance (hc : Correct prog outside I J exec tasks) (h : Inv I J exec tasks s)
    {w i : Nat} {l : L} (hw : s.held w = some (i, l)) :
    Inv I J exec tasks (s.advance prog w i l) := by
  obtain ⟨t, ht, hJ⟩ := h.holds w i l hw
  have hshared := hc.shared t l s.shared hJ h.shared
  rw [SharedPool.advance]
  rcases hact : prog.act l s.shared with ⟨l' | r, shared⟩
  · -- the task goes on, in the hands of the same worker
    rw [hact] at hshared
    have hphase := hc.phase t l s.shared l' hJ h.shared (by rw [hact])
    refine ⟨h.length, h.queued, ?_, ?_, hshared⟩
    · intro v j m hv
      by_cases hvw : v = w
      · subst hvw
        simp only [Function.update_self] at hv
        cases hv
        exact ⟨t, ht, hphase⟩
      · simp only [Function.update_of_ne hvw] at hv
        exact h.holds v j m hv
    · intro j u hu
      rcases h.placed j u hu with hmem | ⟨v, m, hv⟩ | hdone
      · exact Or.inl hmem
      · refine Or.inr (Or.inl ?_)
        by_cases hvw : v = w
        · subst hvw
          rw [hw] at hv
          cases hv
          exact ⟨v, l', Function.update_self ..⟩
        · exact ⟨v, m, by simpa only [Function.update_of_ne hvw] using hv⟩
      · exact Or.inr (Or.inr hdone)
  · rw [hact] at hshared
    have hresult := hc.result t l s.shared r hJ h.shared (by rw [hact])
    have hi : i < s.slots.length := by
      rw [h.length]
      exact (List.getElem?_eq_some_iff.mp ht).1
    refine ⟨by simpa using h.length, h.queued, ?_, ?_, hshared⟩
    · intro v j m hv
      by_cases hvw : v = w
      · subst hvw
        simp only [Function.update_self] at hv
        cases hv
      · simp only [Function.update_of_ne hvw] at hv
        exact h.holds v j m hv
    · intro j u hu
      by_cases hij : i = j
      · subst hij
        rw [ht] at hu
        cases hu
        exact Or.inr (Or.inr (by simp [hi, hresult]))
      · rcases h.placed j u hu with hmem | ⟨v, m, hv⟩ | hdone
        · exact Or.inl hmem
        · have hvw : v ≠ w := by
            rintro rfl
            rw [hw] at hv
            cases hv
            exact hij rfl
          exact Or.inr (Or.inl ⟨v, m, by simpa only [Function.update_of_ne hvw] using hv⟩)
        · exact Or.inr (Or.inr (by rw [List.getElem?_set_ne hij]; exact hdone))

theorem Inv.step (hc : Correct prog outside I J exec tasks) (h : Inv I J exec tasks s)
    (turn : Turn) : Inv I J exec tasks (s.step prog outside turn) := by
  cases turn with
  | outside => exact { h with shared := hc.outside _ h.shared }
  | worker w =>
    rw [SharedPool.step]
    split
    · rename_i i l hw
      exact h.advance hc hw
    · rename_i hw
      exact h.take hc hw

theorem Inv.run (hc : Correct prog outside I J exec tasks) (schedule : List Turn) :
    ∀ {s : SharedPool T L R σ}, Inv I J exec tasks s →
      Inv I J exec tasks (s.run prog outside schedule) := by
  induction schedule with
  | nil => exact fun h => h
  | cons turn schedule ih => exact fun h => ih (h.step hc turn)

theorem Inv.slots_eq (h : Inv I J exec tasks s) (hj : s.Joined) :
    s.slots = tasks.map fun t => some (exec t) := by
  apply List.ext_getElem?
  intro i
  rw [List.getElem?_map]
  cases ht : tasks[i]? with
  | none =>
    rw [List.getElem?_eq_none_iff] at ht
    rw [Option.map_none, List.getElem?_eq_none_iff, h.length]
    exact ht
  | some t =>
    rcases h.placed i t ht with hmem | ⟨w, l, hw⟩ | hdone
    · rw [hj.1] at hmem
      cases hmem
    · rw [hj.2 w] at hw
      cases hw
    · exact hdone

/-! ## 3. Some schedule ends

Programs whose phases go down a rank end when a worker is given enough turns. -/

theorem exists_idle (rank : L → Nat)
    (hrank : ∀ l s l' s', prog.act l s = (.inl l', s') → rank l' < rank l) (outside : σ → σ) :
    ∀ (n : Nat) (s : SharedPool T L R σ) (i : Nat) (l : L), rank l < n →
      s.held 0 = some (i, l) → (∀ w, w ≠ 0 → s.held w = none) →
      ∃ schedule, (s.run prog outside schedule).queue = s.queue ∧
        ∀ w, (s.run prog outside schedule).held w = none := by
  intro n
  induction n with
  | zero =>
    intro s i l hl
    exact absurd hl (Nat.not_lt_zero _)
  | succ n ih =>
    intro s i l hl h0 hothers
    have hstep : s.step prog outside (.worker 0) = s.advance prog 0 i l := by
      simp only [step, h0]
    rcases hact : prog.act l s.shared with ⟨l' | r, shared⟩
    · have hlt := hrank l s.shared l' shared hact
      have hadv : s.advance prog 0 i l =
          { s with held := Function.update s.held 0 (some (i, l')), shared } := by
        simp only [advance, hact]
      have hheld : (s.advance prog 0 i l).held 0 = some (i, l') := by
        simp [hadv]
      have hfree : ∀ w, w ≠ 0 → (s.advance prog 0 i l).held w = none := by
        intro w hw
        simp [hadv, hw, hothers w hw]
      obtain ⟨schedule, hqueue, hidle⟩ := ih (s.advance prog 0 i l) i l' (by omega) hheld hfree
      refine ⟨.worker 0 :: schedule, ?_, ?_⟩
      · rw [run, List.foldl_cons, hstep]
        exact hqueue.trans (by rw [hadv])
      · rw [run, List.foldl_cons, hstep]
        exact hidle
    · have hadv : s.advance prog 0 i l =
          { s with held := Function.update s.held 0 none, slots := s.slots.set i (some r),
                   shared } := by
        simp only [advance, hact]
      refine ⟨[.worker 0], ?_, ?_⟩
      · rw [run, List.foldl_cons, List.foldl_nil, hstep, hadv]
      · intro w
        rw [run, List.foldl_cons, List.foldl_nil, hstep, hadv]
        by_cases hw : w = 0
        · simp [hw]
        · simp [hw, hothers w hw]

theorem exists_joined (rank : L → Nat)
    (hrank : ∀ l s l' s', prog.act l s = (.inl l', s') → rank l' < rank l) (outside : σ → σ) :
    ∀ (queue : List (Nat × T)) (s : SharedPool T L R σ), s.queue = queue →
      (∀ w, s.held w = none) → ∃ schedule, (s.run prog outside schedule).Joined := by
  intro queue
  induction queue with
  | nil => exact fun s hqueue hidle => ⟨[], hqueue, hidle⟩
  | cons x queue ih =>
    intro s hqueue hidle
    obtain ⟨i, t⟩ := x
    have hstep : s.step prog outside (.worker 0) =
        { s with queue, held := Function.update s.held 0 (some (i, prog.start t)) } := by
      simp only [step, hidle 0, take, hqueue]
    have hheld : (s.step prog outside (.worker 0)).held 0 = some (i, prog.start t) := by
      simp [hstep]
    have hothers : ∀ w, w ≠ 0 → (s.step prog outside (.worker 0)).held w = none := by
      intro w hw
      simp [hstep, hw, hidle w]
    obtain ⟨schedule, hq, hfree⟩ := exists_idle rank hrank outside (rank (prog.start t) + 1)
      (s.step prog outside (.worker 0)) i (prog.start t) (Nat.lt_succ_self _) hheld hothers
    obtain ⟨rest, hjoined⟩ := ih _ (hq.trans (by rw [hstep])) hfree
    refine ⟨.worker 0 :: (schedule ++ rest), ?_⟩
    rw [run, List.foldl_cons, List.foldl_append]
    exact hjoined

end SharedPool

end Rubin.Lib
