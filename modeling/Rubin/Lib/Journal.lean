/-
# A disk under atomic writes that may fail

A write replaces one file as a whole.  It is done, or it fails before the file changes, or it fails
after the file has changed and only the confirmation is lost.  What happens to each write is given in
advance as a script; there is a second script for the writes that undo earlier ones, and
`Journal.swap` exchanges the two.  Every write is logged with the disk it leaves, so that what a
crash can find is the list of those disks.
-/
import Mathlib.Data.List.Basic

namespace Rubin.Lib

inductive WriteOutcome where
  | done
  | before (cause : String)
  | after (cause : String)
deriving DecidableEq

/-- The file on disk is the new one. -/
def WriteOutcome.reaches : WriteOutcome → Bool
  | .before _ => false
  | _ => true

structure WriteRecord (ι δ : Type) where
  target : ι
  outcome : WriteOutcome
  disk : δ

structure Journal (ι δ : Type) where
  disk : δ
  /-- What happens to the next writes; those beyond the list are done. -/
  forward : List WriteOutcome
  restoring : List WriteOutcome
  log : List (WriteRecord ι δ)

namespace Journal

variable {ι δ : Type}

def outcome (j : Journal ι δ) : WriteOutcome := j.forward.headD .done

def write (j : Journal ι δ) (target : ι) (f : δ → δ) : Journal ι δ :=
  let disk := if j.outcome.reaches then f j.disk else j.disk
  { disk, forward := j.forward.tail, restoring := j.restoring,
    log := j.log ++ [⟨target, j.outcome, disk⟩] }

@[simp] theorem write_disk (j : Journal ι δ) (target : ι) (f : δ → δ) :
    (j.write target f).disk = if j.outcome.reaches then f j.disk else j.disk := rfl

variable {j : Journal ι δ}

theorem write_disk_of_reaches (h : j.outcome.reaches = true) (target : ι) (f : δ → δ) :
    (j.write target f).disk = f j.disk := if_pos h

theorem write_disk_of_not_reaches (h : j.outcome.reaches = false) (target : ι) (f : δ → δ) :
    (j.write target f).disk = j.disk := by
  rw [write_disk, h]
  rfl

/-- The outcomes of the writes to `target` that reached the disk, in order. -/
def reached [DecidableEq ι] (j : Journal ι δ) (target : ι) : List WriteOutcome :=
  (j.log.filter fun r => r.target = target && r.outcome.reaches).map WriteRecord.outcome

variable [DecidableEq ι]

theorem reached_write (j : Journal ι δ) (target target' : ι) (f : δ → δ) :
    (j.write target f).reached target' = j.reached target' ++
      if target = target' ∧ j.outcome.reaches = true then [j.outcome] else [] := by
  simp only [reached, write, List.filter_append, List.map_append]
  by_cases h : target = target' ∧ j.outcome.reaches = true
  · rw [if_pos h]
    simp [h.1, h.2]
  · rw [if_neg h]
    simp only [not_and, Bool.not_eq_true] at h
    by_cases ht : target = target'
    · simp [ht, h ht]
    · simp [ht]

theorem reached_write_other {target target' : ι} (h : target ≠ target') (f : δ → δ) :
    (j.write target f).reached target' = j.reached target' := by
  rw [reached_write, if_neg fun h' => h h'.1, List.append_nil]

theorem reached_write_of_reaches (h : j.outcome.reaches = true) (target : ι) (f : δ → δ) :
    (j.write target f).reached target = j.reached target ++ [j.outcome] := by
  rw [reached_write, if_pos ⟨rfl, h⟩]

theorem reached_write_of_not_reaches (h : j.outcome.reaches = false) (target : ι) (f : δ → δ) :
    (j.write target f).reached target = j.reached target := by
  rw [reached_write, if_neg (fun h' => by rw [h] at h'; cases h'.2), List.append_nil]

end Journal

end Rubin.Lib
