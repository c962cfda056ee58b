import Mathlib.Data.List.Infix

/-!
# Unix paths

Paths as text, as components and as the places they lead to. Empty components
and single dots are dropped, as they name the directory they stand in.
-/

namespace UnixPath

inductive Component
  | parent
  | normal (name : String)
  deriving DecidableEq, Repr

def isAbsolute (path : String) : Bool := path.toList.head? = some '/'

def component? (name : List Char) : Option Component :=
  if name = [] ∨ name = ['.'] then none
  else if name = ['.', '.'] then some .parent
  else some (.normal (String.ofList name))

/-- What comes after the root, or after where a relative path starts. -/
def components (path : String) : List Component := (path.toList.splitOn '/').filterMap component?

def isRoot (path : String) : Bool := isAbsolute path && components path = []

/-- An absolute path takes the place of what it is joined to. -/
def join (base path : String) : String :=
  if isAbsolute path then path
  else if base = "" ∨ base.toList.getLast? = some '/' then base ++ path
  else base ++ "/" ++ path

def Component.text : Component → String
  | .parent => ".."
  | .normal name => name

def render (l : List Component) : String := "/" ++ "/".intercalate (l.map Component.text)

def parent? (path : String) : Option String :=
  match components path with
  | [] => none
  | c :: rest => some (render (c :: rest).dropLast)

-- ---------------------------------------------------------------------------
-- Places
-- ---------------------------------------------------------------------------

/-- The names from the root down. No name on the way is a symbolic link. -/
abbrev Place := List String

def Component.from (place : Place) : Component → Place
  | .parent => place.dropLast
  | .normal name => place ++ [name]

/-- Where a path leads that starts at `place`. -/
def resolve (place : Place) : List Component → Place
  | [] => place
  | c :: rest => resolve (c.from place) rest

def walk (place : Place) : List Component → List Place
  | [] => []
  | c :: rest => c.from place :: walk (c.from place) rest

/-- The places above `place` and `place` itself, the root left out. -/
def ancestry (place : Place) : List Place := place.inits.tail

@[simp] theorem mem_ancestry {place other : Place} :
    other ∈ ancestry place ↔ other <+: place ∧ other ≠ [] := by
  cases place with
  | nil => simp [ancestry]
  | cons name rest =>
    cases other with
    | nil => simp [ancestry]
    | cons name' rest' => simp [ancestry, List.cons_prefix_cons, and_comm, eq_comm]

theorem ancestry_cons (name : String) (rest : Place) :
    ancestry (name :: rest) = [name] :: (ancestry rest).map (name :: ·) := by
  cases rest <;> simp [ancestry]

theorem mem_take_ancestry {place other : Place} {n : Nat} :
    other ∈ (ancestry place).take n ↔ other <+: place ∧ other ≠ [] ∧ other.length ≤ n := by
  induction place generalizing other n with
  | nil =>
    have hnone : other ∉ (ancestry []).take n := by simp [ancestry]
    exact iff_of_false hnone fun h => h.2.1 (List.prefix_nil.mp h.1)
  | cons name rest ih =>
    cases n with
    | zero => simp
    | succ n =>
      rw [ancestry_cons, List.take_succ_cons, ← List.map_take]
      cases other with
      | nil => simp [-List.map_take]
      | cons name' rest' =>
        simp only [List.mem_cons, List.cons.injEq, List.mem_map, ih, List.cons_prefix_cons, List.length_cons]
        constructor
        · rintro (⟨rfl, rfl⟩ | ⟨place, ⟨hpre, -, hlen⟩, rfl, rfl⟩)
          · simp
          · exact ⟨⟨rfl, hpre⟩, by simp, by omega⟩
        · rintro ⟨⟨rfl, hpre⟩, -, hlen⟩
          by_cases hnil : rest' = []
          · exact .inl ⟨rfl, hnil⟩
          · exact .inr ⟨rest', ⟨hpre, hnil, by omega⟩, rfl, rfl⟩

theorem resolve_append (place : Place) (l l' : List Component) :
    resolve place (l ++ l') = resolve (resolve place l) l' := by
  induction l generalizing place with
  | nil => rfl
  | cons c l ih => exact ih (c.from place)

theorem walk_append (place : Place) (l l' : List Component) :
    walk place (l ++ l') = walk place l ++ walk (resolve place l) l' := by
  induction l generalizing place with
  | nil => rfl
  | cons c l ih => exact congrArg (_ :: ·) (ih (c.from place))

-- ---------------------------------------------------------------------------
-- Back to the root
-- ---------------------------------------------------------------------------

def LeadsToRoot (path : String) : Prop := isAbsolute path = true ∧ resolve [] (components path) = []

/-- What may follow a name that stays, with `n` more names below it in the end:
at no point has it gone up more often than down. -/
structure Stays (n : Nat) (after : List Component) : Prop where
  throughout : ∀ part, part <+: after → 2 * part.count .parent ≤ part.length
  below : 2 * after.count .parent + n ≤ after.length

def KeepsName (l : List Component) : Prop :=
  ∃ before name after, l = before ++ .normal name :: after ∧ Stays 0 after

theorem stays_nil : Stays n [] ↔ n = 0 := by
  constructor
  · intro h
    simpa using h.below
  · rintro rfl
    refine ⟨fun part hpart => ?_, by simp⟩
    obtain rfl := List.prefix_nil.mp hpart
    simp

theorem stays_parent : Stays n (after ++ [.parent]) ↔ Stays (n + 1) after := by
  have hcount : (after ++ [Component.parent]).count .parent = after.count .parent + 1 := by simp
  have hlength : (after ++ [Component.parent]).length = after.length + 1 := by simp
  constructor
  · rintro ⟨hthroughout, hbelow⟩
    exact ⟨fun part hpart => hthroughout part (hpart.trans (by simp)), by omega⟩
  · rintro ⟨hthroughout, hbelow⟩
    refine ⟨fun part hpart => ?_, by omega⟩
    rcases List.prefix_concat_iff.mp hpart with rfl | hpart
    · omega
    · exact hthroughout part hpart

theorem stays_normal : Stays n (after ++ [.normal name]) ↔ Stays (n - 1) after := by
  have hcount : (after ++ [Component.normal name]).count .parent = after.count .parent := by simp
  have hlength : (after ++ [Component.normal name]).length = after.length + 1 := by simp
  constructor
  · rintro ⟨hthroughout, hbelow⟩
    refine ⟨fun part hpart => hthroughout part (hpart.trans (by simp)), ?_⟩
    have hafter := hthroughout after (by simp)
    omega
  · rintro ⟨hthroughout, hbelow⟩
    refine ⟨fun part hpart => ?_, by omega⟩
    rcases List.prefix_concat_iff.mp hpart with rfl | hpart
    · omega
    · exact hthroughout part hpart

theorem resolve_concat (l : List Component) (c : Component) :
    resolve place (l ++ [c]) = c.from (resolve place l) := resolve_append place l [c]

theorem exists_split_concat {l : List Component} {c : Component} {p : List Component → Prop} :
    (∃ before name after, l ++ [c] = before ++ .normal name :: after ∧ p after) ↔
      (∃ name, c = .normal name ∧ p []) ∨
        ∃ before name after, l = before ++ .normal name :: after ∧ p (after ++ [c]) := by
  constructor
  · rintro ⟨before, name, after, h, hp⟩
    rcases List.eq_nil_or_concat after with rfl | ⟨rest, last, rfl⟩
    · obtain ⟨-, hc⟩ := List.append_inj' h rfl
      exact .inl ⟨name, by simpa using hc, hp⟩
    · rw [List.concat_eq_append, ← List.cons_append, ← List.append_assoc] at h
      obtain ⟨hl, hc⟩ := List.append_inj' h rfl
      cases hc
      exact .inr ⟨before, name, rest, hl, by simpa using hp⟩
  · rintro (⟨name, rfl, hp⟩ | ⟨before, name, after, rfl, hp⟩)
    · exact ⟨l, name, [], rfl, hp⟩
    · exact ⟨before, name, after ++ [c], by simp, hp⟩

theorem lt_length_resolve {l : List Component} {n : Nat} : n < (resolve [] l).length ↔
    ∃ before name after, l = before ++ .normal name :: after ∧ Stays n after := by
  induction l using List.reverseRecOn generalizing n with
  | nil => simp [resolve]
  | append_singleton l c ih =>
    rw [resolve_concat, exists_split_concat]
    cases c with
    | parent =>
      have hlength : n < (Component.parent.from (resolve [] l)).length ↔ n + 1 < (resolve [] l).length := by
        rw [Component.from, List.length_dropLast]
        omega
      rw [hlength, ih]
      simp only [stays_parent, reduceCtorEq, false_and, exists_false, false_or]
    | normal last =>
      have hlength : n < ((Component.normal last).from (resolve [] l)).length ↔
          n = 0 ∨ n - 1 < (resolve [] l).length := by
        rw [Component.from, List.length_append, List.length_singleton]
        omega
      rw [hlength, ih]
      simp only [stays_normal, stays_nil, Component.normal.injEq, exists_eq_left']

/-- A path leads below the root exactly if one of its names stays. -/
theorem resolve_ne_nil {l : List Component} : resolve [] l ≠ [] ↔ KeepsName l := by
  rw [← List.length_pos_iff, lt_length_resolve]
  rfl

theorem keepsName_of_descending (h : .parent ∉ l) (hne : l ≠ []) : KeepsName l := by
  obtain ⟨c, after, rfl⟩ := List.exists_cons_of_ne_nil hne
  have hnone : ∀ part, part <+: after → part.count .parent = 0 := fun part hpart =>
    List.count_eq_zero_of_not_mem fun hmem => h (List.mem_cons_of_mem _ (hpart.subset hmem))
  cases c with
  | parent => simp at h
  | normal name =>
    refine ⟨[], name, after, rfl, fun part hpart => ?_, ?_⟩
    · rw [hnone part hpart]
      simp
    · rw [hnone after (List.prefix_refl _)]
      simp

end UnixPath
