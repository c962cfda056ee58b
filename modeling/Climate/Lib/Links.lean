import Climate.Lib.Text
import Climate.Lib.UnixPath
import Mathlib.Logic.Function.Basic

/-!
# Symbolic links

Links by their text: where a text leads, and when two texts are one path to a
program that compares their components.
-/

namespace Links

open UnixPath

inductive Item
  | dir
  | file (number : Nat)
  | link (text : String)
  | other
  deriving DecidableEq, Repr

abbrev Disk := Place → Option Item

def pieces (path : String) : List (List Char) := path.toList.splitOn '/'

/-- One piece after the other, up to a link, from where `onLink` goes on. A
piece that is empty or a dot still asks for a directory. -/
def Disk.walk (d : Disk) (onLink : Place → List (List Char) → Option Place) (place : Place) :
    List (List Char) → Option Place
  | [] => some place
  | piece :: rest =>
    if d place = some .dir then
      match component? piece with
      | none => d.walk onLink place rest
      | some .parent => d.walk onLink place.dropLast rest
      | some (.normal name) =>
        match d (place ++ [name]) with
        | none => none
        | some (.link text) => onLink (if isAbsolute text then [] else place) (pieces text ++ rest)
        | some _ => d.walk onLink (place ++ [name]) rest
    else none

def Disk.resolve (d : Disk) : (links : Nat) → Place → List (List Char) → Option Place
  | 0 => d.walk fun _ _ => none
  | links + 1 => d.walk (d.resolve links)

def maxLinks : Nat := 40

/-- A path that is a name in the directory it starts from. -/
structure Bare (name : String) : Prop where
  whole : '/' ∉ name.toList
  normal : component? name.toList = some (.normal name)

variable {d : Disk} {place : Place} {name target text : String} {number : Nat}

theorem Bare.pieces_eq (h : Bare name) : pieces name = [name.toList] := List.splitOn_eq_singleton h.whole

theorem Bare.components_eq (h : Bare name) : components name = [.normal name] := by
  rw [components, List.splitOn_eq_singleton h.whole, List.filterMap_cons_some h.normal, List.filterMap_nil]

theorem Bare.not_absolute (h : Bare name) : isAbsolute name = false :=
  decide_eq_false fun habsolute => h.whole (List.mem_of_mem_head? habsolute)

-- ---------------------------------------------------------------------------
-- Comparing
-- ---------------------------------------------------------------------------

def startsHere (path : String) : Bool := (pieces path).head? = some ['.']

/-- `==` of two paths, which are equal if their components are. -/
def samePath (path path' : String) : Bool :=
  isAbsolute path = isAbsolute path' ∧ startsHere path = startsHere path' ∧ components path = components path'

theorem samePath_self (path : String) : samePath path path = true := decide_eq_true ⟨rfl, rfl, rfl⟩

theorem Bare.not_startsHere (h : Bare name) : startsHere name = false := by
  refine decide_eq_false fun hdot => ?_
  rw [h.pieces_eq, List.head?_cons, Option.some_inj] at hdot
  have hnormal := h.normal
  rw [hdot] at hnormal
  cases hnormal

theorem component?_normal {piece : List Char} (h : component? piece = some (.normal name)) :
    piece = name.toList := by
  unfold component? at h
  split at h
  · cases h
  · split at h
    · cases h
    · cases h
      exact (String.toList_ofList).symm

theorem pieces_head (habsolute : isAbsolute text = false) (hsome : components text ≠ []) :
    (pieces text).head? ≠ some [] := by
  intro hhead
  rw [pieces, Text.head?_splitOn, Option.some_inj] at hhead
  rw [isAbsolute, decide_eq_false_iff_not] at habsolute
  cases htext : text.toList with
  | nil =>
    rw [components, htext] at hsome
    exact hsome rfl
  | cons c rest =>
    rw [htext, List.head?_cons, Option.some_inj] at habsolute
    rw [htext, List.takeWhile_cons_of_pos (by simpa using habsolute)] at hhead
    cases hhead

theorem pieces_of_same (hname : Bare name) (h : samePath text name = true) :
    ∃ rest, pieces text = name.toList :: rest ∧ (rest = [] → text = name) := by
  obtain ⟨habsolute, hhere, hcomponents⟩ := of_decide_eq_true h
  rw [hname.not_absolute] at habsolute
  rw [hname.not_startsHere] at hhere
  rw [hname.components_eq] at hcomponents
  have hempty := pieces_head habsolute (by rw [hcomponents]; nofun)
  rw [startsHere, decide_eq_false_iff_not] at hhere
  obtain ⟨piece, rest, hpieces⟩ := List.exists_cons_of_ne_nil (List.splitOn_ne_nil '/' text.toList)
  rw [← pieces] at hpieces
  rw [hpieces, List.head?_cons, Option.some_inj] at hhere
  rw [hpieces, List.head?_cons, ne_eq, Option.some_inj] at hempty
  have hpiece : piece = name.toList := by
    rw [components, ← pieces, hpieces] at hcomponents
    cases hcomponent : component? piece with
    | none =>
      unfold component? at hcomponent
      rw [if_neg (not_or.mpr ⟨hempty, hhere⟩)] at hcomponent
      split at hcomponent <;> cases hcomponent
    | some c =>
      rw [List.filterMap_cons_some hcomponent] at hcomponents
      rw [(List.cons.inj hcomponents).1] at hcomponent
      exact component?_normal hcomponent
  subst hpiece
  refine ⟨rest, hpieces, fun hrest => ?_⟩
  have hjoined : ['/'].intercalate (text.toList.splitOn '/') = text.toList := List.intercalate_splitOn '/'
  rw [← pieces, hpieces, hrest, List.intercalate_singleton] at hjoined
  exact (String.toList_inj.mp hjoined).symm

-- ---------------------------------------------------------------------------
-- Following
-- ---------------------------------------------------------------------------

theorem walk_file {onLink : Place → List (List Char) → Option Place} (hdir : d place = some .dir)
    (hname : Bare name) (hfile : d (place ++ [name]) = some (.file number)) (rest : List (List Char)) :
    d.walk onLink place (name.toList :: rest) = if rest = [] then some (place ++ [name]) else none := by
  rw [Disk.walk, if_pos hdir, hname.normal]
  simp only [hfile]
  cases rest with
  | nil => rfl
  | cons piece rest =>
    rw [Disk.walk, if_neg (by rw [hfile]; exact nofun)]
    rfl

theorem resolve_file (hdir : d place = some .dir) (hname : Bare name)
    (hfile : d (place ++ [name]) = some (.file number))
    (links : Nat) (rest : List (List Char)) :
    d.resolve links place (name.toList :: rest) = if rest = [] then some (place ++ [name]) else none := by
  cases links <;> exact walk_file hdir hname hfile rest

theorem resolve_step (links : Nat) (hdir : d place = some .dir) (hname : Bare name)
    (hlink : d (place ++ [name]) = some (.link text)) (habsolute : isAbsolute text = false) :
    d.resolve (links + 1) place (pieces name) = d.resolve links place (pieces text) := by
  rw [hname.pieces_eq, Disk.resolve, Disk.walk, if_pos hdir, hname.normal]
  simp only [hlink, habsolute, List.append_nil]
  rfl

/-- A link whose text is the same path as a file's name leads to the file only
if it is the name. -/
theorem resolve_same (hdir : d place = some .dir) (hname : Bare name) (htarget : Bare target)
    (hlink : d (place ++ [name]) = some (.link text)) (hsame : samePath text target = true)
    (hfile : d (place ++ [target]) = some (.file number)) (links : Nat) :
    d.resolve (links + 1) place (pieces name) = some (place ++ [target]) ↔ text = target := by
  have habsolute : isAbsolute text = false := (of_decide_eq_true hsame).1.trans htarget.not_absolute
  rw [resolve_step links hdir hname hlink habsolute]
  obtain ⟨rest, hpieces, hrest⟩ := pieces_of_same htarget hsame
  rw [hpieces, resolve_file hdir htarget hfile]
  constructor
  · intro h
    split at h
    next hnil => exact hrest hnil
    next => cases h
  · rintro rfl
    rw [htarget.pieces_eq] at hpieces
    rw [if_pos (List.cons.inj hpieces).2.symm]

end Links
