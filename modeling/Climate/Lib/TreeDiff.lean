import Mathlib.Data.List.AList
import Mathlib.Data.List.Dedup

/-!
# Differences between trees of files

A tree gives the contents of finitely many paths. Bringing what is on disk
from one tree to another by their difference touches only the paths on which
the two disagree, so the result is the second tree exactly where what is on
disk already has it on the others.
-/

abbrev Files (α : Type) (β : Type) := AList fun _ : α => β

namespace Files

variable {α β : Type} [DecidableEq α]

/-- Two trees have the same files with the same contents. -/
def Same (t u : Files α β) : Prop := ∀ path, t.lookup path = u.lookup path

def set (t : Files α β) (path : α) : Option β → Files α β
  | some contents => t.insert path contents
  | none => t.erase path

@[simp] theorem lookup_set_self (t : Files α β) (path : α) (contents : Option β) :
    (t.set path contents).lookup path = contents := by
  cases contents with
  | none => exact AList.lookup_erase path t
  | some _ => exact AList.lookup_insert t

@[simp] theorem lookup_set_other (t : Files α β) {path other : α} (contents : Option β)
    (h : other ≠ path) : (t.set path contents).lookup other = t.lookup other := by
  cases contents with
  | none => exact AList.lookup_erase_ne h
  | some _ => exact AList.lookup_insert_ne h

/-- No file on which the two trees agree is anything else on disk. -/
def Unmissed (old new disk : Files α β) : Prop :=
  ∀ path, old.lookup path = new.lookup path → disk.lookup path = new.lookup path

/-- A disk that holds the old tree misses nothing. -/
theorem Unmissed.of_same {old new disk : Files α β} (h : disk.Same old) : Unmissed old new disk :=
  fun path heq => (h path).trans heq

theorem Unmissed.congr {old old' new disk disk' : Files α β} (hold : old.Same old')
    (hdisk : disk.Same disk') : Unmissed old new disk ↔ Unmissed old' new disk' := by
  simp only [Unmissed, hold _, hdisk _]

variable [DecidableEq β]

def Differ (old new : Files α β) (paths : List α) : Prop :=
  paths.Nodup ∧ ∀ path, path ∈ paths ↔ old.lookup path ≠ new.lookup path

def changed (old new : Files α β) : List α :=
  (old.keys ++ new.keys).dedup.filter fun path => old.lookup path ≠ new.lookup path

theorem differ_changed (old new : Files α β) : Differ old new (changed old new) := by
  refine ⟨(List.nodup_dedup _).filter _, fun path => ?_⟩
  simp only [changed, List.mem_filter, List.mem_dedup, List.mem_append, decide_eq_true_eq,
    and_iff_right_iff_imp]
  intro hne
  by_contra hnone
  rw [not_or, ← AList.mem_keys, ← AList.mem_keys] at hnone
  exact hne (by rw [AList.lookup_eq_none.mpr hnone.1, AList.lookup_eq_none.mpr hnone.2])

def Applied (old new disk after : Files α β) : Prop :=
  ∀ path, after.lookup path = if old.lookup path = new.lookup path then disk.lookup path
    else new.lookup path

/-- A difference brings the disk to the new tree exactly if it misses nothing. -/
theorem Applied.same_iff {old new disk after : Files α β} (h : Applied old new disk after) :
    after.Same new ↔ Unmissed old new disk := by
  constructor
  · intro hsame path heq
    have hpath := h path
    rw [if_pos heq, hsame path] at hpath
    exact hpath.symm
  · intro hunmissed path
    rw [h path]
    split
    next heq => exact hunmissed path heq
    next => rfl

end Files
