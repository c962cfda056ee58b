import Mathlib.Data.List.Forall2
import Mathlib.Logic.Function.Basic

/-!
# Descriptor tables

The open files of a process by their numbers, duplication, and descriptors
moved to given numbers in two phases: copies out of the way first, so that no
target is a descriptor still to be moved.
-/

namespace Descriptors

inductive Errno
  | badFd
  | invalid
  | tooMany
  deriving DecidableEq, Repr

structure Descriptor (F : Type) where
  file : F
  cloexec : Bool
  deriving DecidableEq, Repr

/-- No number from `limit` on is given out. -/
structure Table (F : Type) where
  slots : Nat → Option (Descriptor F)
  limit : Nat

namespace Table

variable {F : Type}

def set (t : Table F) (n : Nat) (d : Descriptor F) : Table F :=
  { t with slots := Function.update t.slots n (some d) }

@[simp] theorem set_self (t : Table F) (n : Nat) (d : Descriptor F) : (t.set n d).slots n = some d := by
  simp [set]

theorem set_other (t : Table F) (d : Descriptor F) (h : m ≠ n) : (t.set n d).slots m = t.slots m := by
  simp [set, h]

/-- The lowest number from `least` on that is not open. -/
def free? (t : Table F) (least : Nat) : Option Nat :=
  (List.range' least (t.limit - least)).find? fun n => (t.slots n).isNone

def dupfdCloexec (t : Table F) (fd least : Nat) : Except Errno (Nat × Table F) :=
  match t.slots fd with
  | none => .error .badFd
  | some d =>
    if t.limit ≤ least then .error .invalid
    else match t.free? least with
      | none => .error .tooMany
      | some n => .ok (n, t.set n ⟨d.file, true⟩)

/-- A descriptor duplicated onto itself is left as it is. -/
def dup2 (t : Table F) (old new : Nat) : Except Errno (Table F) :=
  match t.slots old with
  | none => .error .badFd
  | some d =>
    if t.limit ≤ new then .error .badFd
    else if old = new then .ok t
    else .ok (t.set new ⟨d.file, false⟩)

def exec (t : Table F) : Table F := { t with slots := fun n => (t.slots n).filter fun d => !d.cloexec }

theorem free?_some {t : Table F} (h : t.free? least = some n) : least ≤ n ∧ t.slots n = none := by
  have hfree := List.find?_some h
  have hmem := List.mem_of_find?_eq_some h
  rw [List.mem_range'_1] at hmem
  exact ⟨hmem.1, by simpa using hfree⟩

theorem dupfdCloexec_ok {t t' : Table F} (h : t.dupfdCloexec fd least = .ok (n, t')) :
    ∃ d, t.slots fd = some d ∧ least ≤ n ∧ t.slots n = none ∧ t' = t.set n ⟨d.file, true⟩ := by
  unfold dupfdCloexec at h
  split at h
  · cases h
  next d hd =>
    split at h
    · cases h
    split at h
    · cases h
    next hfree =>
      cases h
      exact ⟨d, hd, (free?_some hfree).1, (free?_some hfree).2, rfl⟩

theorem dup2_ok {t t' : Table F} (h : t.dup2 old new = .ok t') (hne : old ≠ new) :
    ∃ d, t.slots old = some d ∧ t' = t.set new ⟨d.file, false⟩ := by
  unfold dup2 at h
  split at h
  · cases h
  next d hd =>
    split at h
    · cases h
    cases h
    exact ⟨d, hd, rfl⟩

theorem exec_kept {t : Table F} (h : t.slots n = some ⟨file, false⟩) : t.exec.slots n = some ⟨file, false⟩ := by
  simp [exec, h, Option.filter]

-- ---------------------------------------------------------------------------
-- Moving
-- ---------------------------------------------------------------------------

def copies (least : Nat) : List Nat → Table F → Except Errno (List Nat × Table F)
  | [], t => .ok ([], t)
  | source :: rest, t => do
    let (copy, t) ← t.dupfdCloexec source least
    let (others, t) ← copies least rest t
    return (copy :: others, t)

def place : List (Nat × Nat) → Table F → Except Errno (Table F)
  | [], t => .ok t
  | (source, target) :: rest, t => do
    let t ← t.dup2 source target
    place rest t

/-- What is open stays so, and the copies are of the descriptors they were
made from. -/
structure Copied (least : Nat) (t t' : Table F) (sources found : List Nat) : Prop where
  copies : List.Forall₂ (fun source copy => least ≤ copy ∧
    ∃ d, t.slots source = some d ∧ t'.slots copy = some ⟨d.file, true⟩) sources found
  kept : ∀ n, (t.slots n).isSome = true ∨ n < least → t'.slots n = t.slots n

theorem copies_ok {t t' : Table F} (hopen : ∀ source ∈ sources, (t.slots source).isSome = true)
    (h : copies least sources t = .ok (found, t')) : Copied least t t' sources found := by
  induction sources generalizing t found with
  | nil =>
    cases h
    exact ⟨.nil, fun _ _ => rfl⟩
  | cons source rest ih =>
    rw [copies] at h
    cases hdup : t.dupfdCloexec source least with
    | error e => rw [hdup] at h; cases h
    | ok r =>
      obtain ⟨copy, t₁⟩ := r
      obtain ⟨d, hd, hleast, hfree, rfl⟩ := dupfdCloexec_ok hdup
      cases hrest : copies least rest (t.set copy ⟨d.file, true⟩) with
      | error e => simp [hdup, hrest, bind, Except.bind] at h
      | ok r =>
        obtain ⟨others, t₂⟩ := r
        simp only [hdup, hrest, bind, Except.bind, pure, Except.pure] at h
        cases h
        have hsame : ∀ n, (t.slots n).isSome = true ∨ n < least →
            (t.set copy ⟨d.file, true⟩).slots n = t.slots n := by
          intro n hn
          refine set_other t _ ?_
          rintro rfl
          rw [hfree] at hn
          exact hn.elim (by simp) (by omega)
        have hrest_open : ∀ other ∈ rest, (t.slots other).isSome = true := fun other hother =>
          hopen other (List.mem_cons_of_mem _ hother)
        have hothers : Copied least (t.set copy ⟨d.file, true⟩) t' rest others := by
          refine ih (fun other hother => ?_) hrest
          rw [hsame other (.inl (hrest_open other hother))]
          exact hrest_open other hother
        refine ⟨.cons ⟨hleast, d, hd, ?_⟩ ?_, fun n hn => ?_⟩
        · rw [hothers.kept copy (.inl (by simp)), set_self]
        · refine List.forall₂_iff_zip.mpr ⟨hothers.copies.length_eq, fun {other copy'} hzip => ?_⟩
          have hcopy := (List.forall₂_iff_zip.mp hothers.copies).2 hzip
          rwa [hsame other (.inl (hrest_open other (List.of_mem_zip hzip).1))] at hcopy
        · rw [← hsame n hn]
          exact hothers.kept n (hn.imp (fun hsome => by rwa [hsame n (.inl hsome)]) id)

theorem place_other {t t' : Table F} (hapart : ∀ m ∈ moves, m.1 ≠ m.2) (h : place moves t = .ok t')
    (hn : n ∉ moves.map (·.2)) : t'.slots n = t.slots n := by
  induction moves generalizing t with
  | nil =>
    cases h
    rfl
  | cons m rest ih =>
    obtain ⟨source, target⟩ := m
    rw [place] at h
    cases hdup : t.dup2 source target with
    | error e => rw [hdup] at h; cases h
    | ok t₁ =>
      rw [hdup] at h
      obtain ⟨d, -, rfl⟩ := dup2_ok hdup (hapart (source, target) (by simp))
      simp only [List.map_cons, List.mem_cons, not_or] at hn
      rw [ih (fun m hm => hapart m (List.mem_cons_of_mem _ hm)) h hn.2, set_other t _ hn.1]

theorem place_ok {t t' : Table F} (hapart : ∀ m ∈ moves, ∀ m' ∈ moves, m.1 ≠ m'.2)
    (hnodup : (moves.map (·.2)).Nodup) (h : place moves t = .ok t') :
    ∀ m ∈ moves, ∃ d, t.slots m.1 = some d ∧ t'.slots m.2 = some ⟨d.file, false⟩ := by
  induction moves generalizing t with
  | nil => simp
  | cons m rest ih =>
    obtain ⟨source, target⟩ := m
    rw [place] at h
    cases hdup : t.dup2 source target with
    | error e => rw [hdup] at h; cases h
    | ok t₁ =>
      rw [hdup] at h
      obtain ⟨d, hd, rfl⟩ := dup2_ok hdup (hapart (source, target) (by simp) (source, target) (by simp))
      rw [List.map_cons, List.nodup_cons] at hnodup
      have hrest : ∀ m ∈ rest, ∀ m' ∈ rest, m.1 ≠ m'.2 := fun m hm m' hm' =>
        hapart m (List.mem_cons_of_mem _ hm) m' (List.mem_cons_of_mem _ hm')
      intro m hm
      rcases List.mem_cons.mp hm with rfl | hm
      · refine ⟨d, hd, ?_⟩
        rw [place_other (fun m hm => hrest m hm m hm) h hnodup.1, set_self]
      · obtain ⟨d', hd', htarget⟩ := ih hrest hnodup.2 h m hm
        rw [set_other t _ (hapart m (List.mem_cons_of_mem _ hm) (source, target) (by simp))] at hd'
        exact ⟨d', hd', htarget⟩

/-- Every target is the descriptor meant for it and outlives an exec; what
else is numbered below the copies is as it was. -/
theorem moved {t t₁ t' : Table F} (hopen : ∀ source ∈ sources, (t.slots source).isSome = true)
    (hbelow : ∀ target ∈ targets, target < least) (hnodup : targets.Nodup)
    (hlength : sources.length = targets.length) (hcopies : copies least sources t = .ok (found, t₁))
    (hplace : place (found.zip targets) t₁ = .ok t') :
    List.Forall₂ (fun source target => ∃ d, t.slots source = some d ∧
      t'.slots target = some ⟨d.file, false⟩) sources targets ∧
    ∀ n < least, n ∉ targets → t'.slots n = t.slots n := by
  have hcopied := copies_ok hopen hcopies
  obtain ⟨hfound, hall⟩ := List.forall₂_iff_get.mp hcopied.copies
  have hsnd : (found.zip targets).map (·.2) = targets := List.map_snd_zip (by omega)
  have habove : ∀ copy ∈ found, least ≤ copy := by
    intro copy hcopy
    obtain ⟨i, hi, rfl⟩ := List.getElem_of_mem hcopy
    exact (hall i (by omega) hi).1
  have hapart : ∀ m ∈ found.zip targets, ∀ m' ∈ found.zip targets, m.1 ≠ m'.2 := by
    intro m hm m' hm'
    have hlow := hbelow m'.2 (List.of_mem_zip hm').2
    have hhigh := habove m.1 (List.of_mem_zip hm).1
    omega
  refine ⟨List.forall₂_iff_get.mpr ⟨hlength, fun i hsource htarget => ?_⟩, fun n hn hnot => ?_⟩
  · have hi : i < found.length := by omega
    have hzip : (found[i], targets[i]) ∈ found.zip targets :=
      List.mem_iff_getElem.mpr ⟨i, by rw [List.length_zip]; omega, List.getElem_zip⟩
    obtain ⟨-, d, hd, hcopy⟩ := hall i hsource hi
    obtain ⟨d', hd', hplaced⟩ := place_ok hapart (by rwa [hsnd]) hplace _ hzip
    cases hcopy.symm.trans hd'
    exact ⟨d, hd, hplaced⟩
  · rw [place_other (fun m hm => hapart m hm m hm) hplace (by rwa [hsnd]), hcopied.kept n (.inr hn)]

end Table

end Descriptors
