/-
# A worker pool with ordered results

A fixed list of tasks, a shared queue of them, and workers that repeatedly take the next task,
run it and write the outcome to the task's own slot.  A schedule is the order in which workers
act: an action of an idle worker takes a task, an action of a busy one finishes the task it holds.

Whatever the schedule, once the queue is empty and no worker holds a task, slot `i` holds the
outcome of task `i` (`runPool_results`): the result vector does not depend on the interleaving.
-/
import Mathlib.Data.List.Basic
import Mathlib.Logic.Function.Basic

namespace Rubin.Lib

variable {T R : Type}

/-! ## 1. The pool -/

structure PoolState (T R : Type) where
  queue : List (Nat × T)
  held : Nat → Option (Nat × T)
  slots : List (Option R)

namespace PoolState

def start (tasks : List T) : PoolState T R :=
  ⟨tasks.zipIdx.map Prod.swap, fun _ => none, tasks.map fun _ => none⟩

def step (exec : T → R) (s : PoolState T R) (w : Nat) : PoolState T R :=
  match s.held w with
  | some (i, t) =>
    { s with held := Function.update s.held w none, slots := s.slots.set i (some (exec t)) }
  | none =>
    match s.queue with
    | [] => s
    | x :: queue => { s with queue, held := Function.update s.held w (some x) }

def run (exec : T → R) (s : PoolState T R) (schedule : List Nat) : PoolState T R :=
  schedule.foldl (step exec) s

def Joined (s : PoolState T R) : Prop := s.queue = [] ∧ ∀ w, s.held w = none

/-- Each task is queued, held or done, and a filled slot holds its task's outcome. -/
structure Inv (exec : T → R) (tasks : List T) (s : PoolState T R) : Prop where
  length : s.slots.length = tasks.length
  queued : ∀ i t, (i, t) ∈ s.queue → tasks[i]? = some t
  holds : ∀ w i t, s.held w = some (i, t) → tasks[i]? = some t
  placed : ∀ i t, tasks[i]? = some t →
    (i, t) ∈ s.queue ∨ (∃ w, s.held w = some (i, t)) ∨ s.slots[i]? = some (some (exec t))

variable {exec : T → R} {tasks : List T} {s : PoolState T R}

theorem start_inv (exec : T → R) (tasks : List T) : Inv exec tasks (start tasks) where
  length := by simp [start]
  queued := by
    intro i t h
    simpa [start, List.mem_zipIdx_iff_getElem?] using h
  holds := by simp [start]
  placed := by
    intro i t h
    refine Or.inl ?_
    simpa [start, List.mem_zipIdx_iff_getElem?] using h

theorem Inv.take (h : Inv exec tasks s) {w : Nat} {x : Nat × T} {queue : List (Nat × T)}
    (hw : s.held w = none) (hq : s.queue = x :: queue) :
    Inv exec tasks { s with queue, held := Function.update s.held w (some x) } where
  length := h.length
  queued := by
    intro i t hmem
    exact h.queued i t (by rw [hq]; exact List.mem_cons_of_mem _ hmem)
  holds := by
    intro v i t hv
    by_cases hvw : v = w
    · subst hvw
      simp only [Function.update_self] at hv
      cases hv
      exact h.queued i t (by rw [hq]; exact List.mem_cons_self)
    · simp only [Function.update_of_ne hvw] at hv
      exact h.holds v i t hv
  placed := by
    intro i t ht
    rcases h.placed i t ht with hmem | ⟨v, hv⟩ | hdone
    · rw [hq] at hmem
      rcases List.mem_cons.mp hmem with rfl | hmem
      · exact Or.inr (Or.inl ⟨w, Function.update_self ..⟩)
      · exact Or.inl hmem
    · have hvw : v ≠ w := by
        rintro rfl
        rw [hw] at hv
        cases hv
      exact Or.inr (Or.inl ⟨v, by simpa only [Function.update_of_ne hvw] using hv⟩)
    · exact Or.inr (Or.inr hdone)

theorem Inv.finish (h : Inv exec tasks s) {w i : Nat} {t : T} (hw : s.held w = some (i, t)) :
    Inv exec tasks { s with
      held := Function.update s.held w none, slots := s.slots.set i (some (exec t)) } where
  length := by simpa using h.length
  queued := h.queued
  holds := by
    intro v j u hv
    by_cases hvw : v = w
    · subst hvw
      simp only [Function.update_self] at hv
      cases hv
    · simp only [Function.update_of_ne hvw] at hv
      exact h.holds v j u hv
  placed := by
    intro j u hu
    have hti := h.holds w i t hw
    have hi : i < s.slots.length := by
      rw [h.length]
      exact (List.getElem?_eq_some_iff.mp hti).1
    by_cases hij : i = j
    · subst hij
      rw [hti] at hu
      cases hu
      exact Or.inr (Or.inr (by simp [hi]))
    · rcases h.placed j u hu with hmem | ⟨v, hv⟩ | hdone
      · exact Or.inl hmem
      · have hvw : v ≠ w := by
          rintro rfl
          rw [hw] at hv
          cases hv
          exact hij rfl
        exact Or.inr (Or.inl ⟨v, by simpa only [Function.update_of_ne hvw] using hv⟩)
      · exact Or.inr (Or.inr (by rw [List.getElem?_set_ne hij]; exact hdone))

theorem step_inv (h : Inv exec tasks s) (w : Nat) : Inv exec tasks (step exec s w) := by
  unfold step
  split
  · rename_i i t hw
    exact h.finish hw
  · rename_i hw
    split
    · exact h
    · rename_i x queue hq
      exact h.take hw hq

theorem run_inv (schedule : List Nat) :
    ∀ {s : PoolState T R}, Inv exec tasks s → Inv exec tasks (run exec s schedule) := by
  induction schedule with
  | nil => exact fun h => h
  | cons w schedule ih => exact fun h => ih (step_inv h w)

theorem Inv.slots_eq (h : Inv exec tasks s) (hj : s.Joined) :
    s.slots = tasks.map fun t => some (exec t) := by
  apply List.ext_getElem?
  intro i
  rw [List.getElem?_map]
  cases ht : tasks[i]? with
  | none =>
    rw [List.getElem?_eq_none_iff] at ht
    rw [Option.map_none, List.getElem?_eq_none_iff, h.length]
    exact ht
  | some t =>
    rcases h.placed i t ht with hmem | ⟨w, hw⟩ | hdone
    · rw [hj.1] at hmem
      cases hmem
    · rw [hj.2 w] at hw
      cases hw
    · exact hdone

end PoolState

/-! ## 2. Threads -/

/-- What the operating system decides: the parallelism it offers, and in which order the workers
of a pool act until all of them have returned. -/
structure Threads where
  availableParallelism : Nat
  schedule : (workers tasks : Nat) → List Nat
  parallelism_pos : 0 < availableParallelism
  workers_exist : ∀ workers tasks, ∀ w ∈ schedule workers tasks, w < workers
  joined : ∀ (workers : Nat) {T R : Type} (exec : T → R) (tasks : List T), 0 < workers →
    ((PoolState.start tasks).run exec (schedule workers tasks.length)).Joined

/-- The slots after the pool has run. -/
def Threads.runPool (threads : Threads) (workers : Nat) (exec : T → R) (tasks : List T) :
    List (Option R) :=
  ((PoolState.start tasks).run exec (threads.schedule workers tasks.length)).slots

/-- **The interleaving does not show.**  Slot `i` holds the outcome of task `i`. -/
theorem Threads.runPool_results (threads : Threads) {workers : Nat} (hw : 0 < workers)
    (exec : T → R) (tasks : List T) :
    threads.runPool workers exec tasks = tasks.map fun t => some (exec t) :=
  (PoolState.run_inv _ (PoolState.start_inv exec tasks)).slots_eq (threads.joined workers exec tasks hw)

theorem PoolState.run_alone (exec : T → R) (held : Nat → Option (Nat × T))
    (h : ∀ w, held w = none) (queue : List (Nat × T)) : ∀ slots : List (Option R),
    ((⟨queue, held, slots⟩ : PoolState T R).run exec
      (List.replicate (2 * queue.length) 0)).Joined := by
  induction queue with
  | nil => exact fun _ => ⟨rfl, h⟩
  | cons x queue ih =>
    intro slots
    have h0 : held 0 = none := h 0
    have hidle : Function.update (Function.update held 0 (some x)) 0 none = held := by
      rw [Function.update_idem, ← h0, Function.update_eq_self]
    have h2 : 2 * (x :: queue).length = 2 * queue.length + 1 + 1 := by
      rw [List.length_cons]
      omega
    rw [h2]
    simp only [List.replicate_succ, run, List.foldl_cons, step, h0, Function.update_self, hidle]
    exact ih _

/-- The schedule of a single-threaded machine. -/
def Threads.single : Threads where
  availableParallelism := 1
  schedule := fun workers tasks => if 0 < workers then List.replicate (2 * tasks) 0 else []
  parallelism_pos := Nat.one_pos
  workers_exist := by
    intro workers tasks w hw
    split at hw
    · rename_i hpos
      rw [List.eq_of_mem_replicate hw]
      exact hpos
    · cases hw
  joined := by
    intro workers T R exec tasks hpos
    have h := PoolState.run_alone (R := R) exec (fun _ => none) (fun _ => rfl)
      (tasks.zipIdx.map Prod.swap) (tasks.map fun _ => none)
    rw [if_pos hpos]
    simpa [PoolState.start] using h

end Rubin.Lib
