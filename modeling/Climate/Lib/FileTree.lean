import Climate.Lib.UnixPath
import Mathlib.Data.List.AList

/-!
# Trees of files with permissions

A file system as a user meets it who is not its administrator: looking names
up, through symbolic links where an operation follows them, listing, changing
modes and removing. What an operation is allowed depends on the mode of the
directories it needs.
-/

namespace FileTree

open UnixPath (Place Component)

inductive Errno
  | noEntry
  | notDirectory
  | isDirectory
  | access
  | notPermitted
  | loop
  | notEmpty
  | busy
  | tooDeep
  deriving DecidableEq, Repr

inductive Class
  | owner
  | group
  | other
  deriving DecidableEq, Repr

/-- Where the group's bits begin: executing or searching, then writing, then
reading. -/
def Class.start : Class → Nat
  | .owner => 6
  | .group => 3
  | .other => 0

def maySearch (cls : Class) (mode : Nat) : Bool := mode.testBit cls.start

def mayWrite (cls : Class) (mode : Nat) : Bool := mode.testBit (cls.start + 1)

def mayRead (cls : Class) (mode : Nat) : Bool := mode.testBit (cls.start + 2)

/-- A `file` is whatever is neither a directory nor a link. -/
inductive Node
  | dir (cls : Class) (mode : Nat)
  | file (cls : Class) (mode : Nat) (content : String)
  | link (absolute : Bool) (target : List Component)
  deriving DecidableEq, Repr

namespace Node

def isDir : Node → Bool
  | .dir .. => true
  | _ => false

def isLink : Node → Bool
  | .link .. => true
  | _ => false

def mode : Node → Nat
  | .dir _ mode | .file _ mode _ => mode
  | .link .. => 0o777

def owned : Node → Bool
  | .dir cls _ | .file cls _ _ => cls = .owner
  | .link .. => false

def withMode (mode : Nat) : Node → Node
  | .dir cls _ => .dir cls mode
  | .file cls _ content => .file cls mode content
  | .link absolute target => .link absolute target

@[simp] theorem isDir_withMode (mode : Nat) (node : Node) : (node.withMode mode).isDir = node.isDir := by
  cases node <;> rfl

theorem isDir_iff {node : Node} : node.isDir = true ↔ ∃ cls mode, node = .dir cls mode := by
  cases node <;> simp [isDir]

end Node

abbrev Nodes := AList fun _ : Place => Node

def Nodes.setMode (nodes : Nodes) (place : Place) (mode : Nat) : Nodes :=
  match nodes.lookup place with
  | some node => nodes.insert place (node.withMode mode)
  | none => nodes

theorem Nodes.lookup_setMode (nodes : Nodes) (place p : Place) (mode : Nat) :
    (nodes.setMode place mode).lookup p =
    if p = place then (nodes.lookup p).map (Node.withMode mode) else nodes.lookup p := by
  unfold Nodes.setMode
  split
  next node hnode =>
    split
    next heq =>
      subst heq
      rw [AList.lookup_insert, hnode, Option.map_some]
    next hne => rw [AList.lookup_insert_ne hne]
  next hnone =>
    split
    next heq =>
      subst heq
      rw [hnone, Option.map_none]
    next => rfl

/-- Whatever there is stands in a directory. -/
structure Tree where
  nodes : Nodes
  above : ∀ place name, (nodes.lookup (place ++ [name])).isSome = true →
    (nodes.lookup place).any Node.isDir = true

namespace Tree

def node (t : Tree) (place : Place) : Option Node := t.nodes.lookup place

theorem above_of_keys {nodes : Nodes}
    (h : ∀ p ∈ nodes.keys, p ≠ [] → (nodes.lookup p.dropLast).any Node.isDir = true) (place : Place)
    (name : String)
    (hsome : (nodes.lookup (place ++ [name])).isSome = true) : (nodes.lookup place).any Node.isDir = true := by
  rw [AList.lookup_isSome, AList.mem_keys] at hsome
  have hdir := h _ hsome (by simp)
  rwa [List.dropLast_concat] at hdir

def names (t : Tree) (place : Place) : List String :=
  t.nodes.keys.filterMap fun p => if p.dropLast = place then p.getLast? else none

theorem getLast?_eq_append {p : Place} : p.dropLast = place ∧ p.getLast? = some name ↔ p = place ++ [name] := by
  constructor
  · rintro ⟨rfl, hlast⟩
    exact (List.dropLast_append_getLast? name hlast).symm
  · rintro rfl
    simp

theorem mem_names {t : Tree} : name ∈ t.names place ↔ (t.node (place ++ [name])).isSome = true := by
  rw [node, AList.lookup_isSome, AList.mem_keys, names, List.mem_filterMap]
  constructor
  · rintro ⟨p, hp, hname⟩
    rw [Option.ite_none_right_eq_some] at hname
    exact getLast?_eq_append.mp hname ▸ hp
  · intro hmem
    exact ⟨_, hmem, by simp⟩

theorem names_nodup (t : Tree) (place : Place) : (t.names place).Nodup := by
  refine t.nodes.keys_nodup.filterMap fun p q name hp hq => ?_
  rw [Option.mem_def, Option.ite_none_right_eq_some] at hp hq
  exact (getLast?_eq_append.mp hp).trans (getLast?_eq_append.mp hq).symm

def setMode (t : Tree) (place : Place) (mode : Nat) : Tree where
  nodes := t.nodes.setMode place mode
  above p name hsome := by
    have hthere : (t.nodes.lookup (p ++ [name])).isSome = true := by
      rw [Nodes.lookup_setMode] at hsome
      split at hsome
      · rwa [Option.isSome_map] at hsome
      · exact hsome
    have hdir := t.above p name hthere
    rw [Nodes.lookup_setMode]
    split
    · cases hp : t.nodes.lookup p with
      | none => rw [hp] at hdir; cases hdir
      | some node =>
        rw [hp] at hdir
        simpa using hdir
    · exact hdir

@[simp] theorem node_setMode (t : Tree) (place p : Place) (mode : Nat) : (t.setMode place mode).node p =
    if p = place then (t.node p).map (Node.withMode mode) else t.node p :=
  Nodes.lookup_setMode ..

/-- Only what nothing is in can go. -/
def remove (t : Tree) (place : Place) (hempty : t.names place = []) : Tree where
  nodes := t.nodes.erase place
  above p name hsome := by
    have hthere : p ++ [name] ≠ place ∧ (t.nodes.lookup (p ++ [name])).isSome = true := by
      rw [AList.lookup_isSome, AList.mem_erase, ← AList.lookup_isSome] at hsome
      exact hsome
    have hne : p ≠ place := by
      rintro rfl
      have hmem := mem_names.mpr hthere.2
      rw [hempty] at hmem
      cases hmem
    rw [AList.lookup_erase_ne hne]
    exact t.above p name hthere.2

@[simp] theorem node_remove (t : Tree) (place p : Place) (hempty : t.names place = []) :
    (t.remove place hempty).node p = if p = place then none else t.node p := by
  split
  next heq =>
    subst heq
    exact AList.lookup_erase p t.nodes
  next hne => exact AList.lookup_erase_ne hne

def depth (t : Tree) : Nat := (t.nodes.keys.map List.length).foldr max 0

theorem length_le_depth {t : Tree} (hsome : (t.node p).isSome = true) : p.length ≤ t.depth := by
  have hmem : p.length ∈ t.nodes.keys.map List.length :=
    List.mem_map_of_mem (AList.mem_keys.mp (AList.lookup_isSome.mp hsome))
  unfold depth
  generalize t.nodes.keys.map List.length = lengths at hmem
  induction lengths with
  | nil => cases hmem
  | cons n lengths ih =>
    rw [List.foldr_cons]
    rcases List.mem_cons.mp hmem with rfl | hmem
    · exact le_max_left ..
    · exact (ih hmem).trans (le_max_right ..)

-- ---------------------------------------------------------------------------
-- Above and below
-- ---------------------------------------------------------------------------

theorem dir_of_child {t : Tree} (hsome : (t.node (place ++ [name])).isSome = true) :
    ∃ cls mode, t.node place = some (.dir cls mode) := by
  obtain ⟨n, hnode, hdir⟩ := (Option.any_eq_true ..).mp (t.above place name hsome)
  obtain ⟨cls, mode, rfl⟩ := Node.isDir_iff.mp hdir
  exact ⟨cls, mode, hnode⟩

theorem dir_of_below {t : Tree} (hsome : (t.node (place ++ name :: rest)).isSome = true) :
    ∃ cls mode, t.node place = some (.dir cls mode) := by
  induction rest using List.reverseRecOn generalizing name with
  | nil => exact dir_of_child hsome
  | append_singleton rest last ih =>
    rw [← List.cons_append, ← List.append_assoc] at hsome
    obtain ⟨cls, mode, hdir⟩ := dir_of_child hsome
    exact ih (by rw [hdir]; rfl)

theorem node_below {t : Tree} (hdir : (t.node place).any Node.isDir = false) (hbelow : place <+: p)
    (hne : p ≠ place) : t.node p = none := by
  obtain ⟨rest, rfl⟩ := hbelow
  cases rest with
  | nil => exact absurd (List.append_nil place) hne
  | cons name rest =>
    by_contra hsome
    obtain ⟨cls, mode, heq⟩ := dir_of_below (Option.isSome_iff_ne_none.mpr hsome)
    rw [heq] at hdir
    cases hdir

theorem below_name {t : Tree} (hsome : (t.node p).isSome = true) (hbelow : place <+: p) (hne : p ≠ place) :
    ∃ name ∈ t.names place, place ++ [name] <+: p := by
  obtain ⟨rest, rfl⟩ := hbelow
  cases rest with
  | nil => exact absurd (List.append_nil place) hne
  | cons name rest =>
    refine ⟨name, mem_names.mpr ?_, ⟨rest, by simp⟩⟩
    cases rest with
    | nil => exact hsome
    | cons next rest =>
      have hsome' : (t.node ((place ++ [name]) ++ next :: rest)).isSome = true := by simpa using hsome
      obtain ⟨cls, mode, heq⟩ := dir_of_below hsome'
      rw [heq]
      rfl

-- ---------------------------------------------------------------------------
-- Looking up
-- ---------------------------------------------------------------------------

def search (t : Tree) (place : Place) : Except Errno Unit :=
  match t.node place with
  | some (.dir cls mode) => if maySearch cls mode then .ok () else .error .access
  | some _ => .error .notDirectory
  | none => .error .noEntry

/-- One component after the other, up to a link, from where `onLink` goes on.
Only a path's last link may be left as it is. -/
def walk (t : Tree) (follow : Bool) (onLink : Place → List Component → Except Errno Place) (place : Place) :
    List Component → Except Errno Place
  | [] => .ok place
  | c :: rest => do
    t.search place
    match c with
    | .parent => t.walk follow onLink place.dropLast rest
    | .normal name =>
      match t.node (place ++ [name]) with
      | none => .error .noEntry
      | some (.link absolute target) =>
        if rest = [] ∧ !follow then .ok (place ++ [name])
        else onLink (if absolute then [] else place) (target ++ rest)
      | some _ => t.walk follow onLink (place ++ [name]) rest

/-- With as many links as `links` on the way. -/
def resolve (t : Tree) (follow : Bool) : (links : Nat) → Place → List Component → Except Errno Place
  | 0 => t.walk follow fun _ _ => .error .loop
  | links + 1 => t.walk follow (t.resolve follow links)

def maxLinks : Nat := 40

def find (t : Tree) (follow : Bool) (path : Place) : Except Errno Place :=
  t.resolve follow maxLinks [] (path.map .normal)

/-- Every directory above a place that is there can be searched. -/
def Open (t : Tree) (path : Place) : Prop :=
  ∀ place, place <+: path → place ≠ path → (t.node place).isSome = true → t.search place = .ok ()

theorem open_of_inits {t : Tree} (h : ∀ place ∈ path.inits, place ≠ path → t.search place = .ok ()) :
    t.Open path :=
  fun place hbefore hne _ => h place ((List.mem_inits ..).mpr hbefore) hne

theorem search_of_dir {t : Tree} (hdir : t.node place = some (.dir cls mode)) (hmay : maySearch cls mode = true) :
    t.search place = .ok () := by
  rw [search, hdir]
  exact if_pos hmay

theorem dir_of_search {t : Tree} (h : t.search place = .ok ()) :
    ∃ cls mode, t.node place = some (.dir cls mode) ∧ maySearch cls mode = true := by
  unfold search at h
  split at h
  next cls mode hdir =>
    split at h
    next hmay => exact ⟨cls, mode, hdir, hmay⟩
    next => cases h
  next => cases h
  next => cases h

theorem walk_real {t : Tree} {onLink : Place → List Component → Except Errno Place} (names : List String)
    (hopen : ∀ before, before <+: names → before ≠ names → t.search (place ++ before) = .ok ())
    (hnode : t.node (place ++ names) = some n) (hlink : n.isLink = true → follow = false) :
    t.walk follow onLink place (names.map .normal) = .ok (place ++ names) := by
  induction names generalizing place with
  | nil => rw [List.append_nil]; rfl
  | cons name rest ih =>
    have hplace : t.search place = .ok () := by simpa using hopen [] (List.nil_prefix) (by simp)
    rw [List.map_cons, walk, hplace]
    have happend : place ++ name :: rest = (place ++ [name]) ++ rest := by simp
    cases rest with
    | nil =>
      have hnode' : t.node (place ++ [name]) = some n := hnode
      simp only [hnode', bind, Except.bind]
      cases n with
      | link absolute target => simp [hlink rfl]
      | dir _ _ | file _ _ _ => rfl
    | cons next rest =>
      obtain ⟨cls, mode, hdir⟩ := dir_of_below (happend ▸ Option.isSome_of_eq_some hnode)
      simp only [hdir, bind, Except.bind]
      rw [happend]
      refine ih (fun before hbefore hne => ?_) (happend ▸ hnode)
      simpa using hopen (name :: before) (List.cons_prefix_cons.mpr ⟨rfl, hbefore⟩) (by simpa using hne)

theorem walk_missing {t : Tree} {onLink : Place → List Component → Except Errno Place} (names : List String)
    (hopen : ∀ before, before <+: names → before ≠ names → (t.node (place ++ before)).isSome = true →
      t.search (place ++ before) = .ok ())
    (hnone : t.node (place ++ names) = none) (hne : names ≠ []) :
    t.walk follow onLink place (names.map .normal) = .error .noEntry := by
  induction names generalizing place with
  | nil => exact absurd rfl hne
  | cons name rest ih =>
    rw [List.map_cons, walk]
    cases hthere : t.node place with
    | none =>
      rw [search, hthere]
      rfl
    | some n =>
      have hplace : t.search place = .ok () := by
        simpa [hthere] using hopen [] (List.nil_prefix) (by simp)
      rw [hplace]
      have happend : place ++ name :: rest = (place ++ [name]) ++ rest := by simp
      cases hchild : t.node (place ++ [name]) with
      | none => rfl
      | some child =>
        have hrest : rest ≠ [] := by
          rintro rfl
          rw [hchild] at hnone
          cases hnone
        have hsearch : t.search (place ++ [name]) = .ok () :=
          hopen [name] (List.prefix_append ..) (by simpa using Ne.symm hrest) (by rw [hchild]; rfl)
        obtain ⟨cls, mode, hdir, -⟩ := dir_of_search hsearch
        cases hchild.symm.trans hdir
        refine ih (fun before hbefore hne hsome => ?_) (happend ▸ hnone) hrest
        have hgoal := hopen (name :: before) (List.cons_prefix_cons.mpr ⟨rfl, hbefore⟩) (by simpa using hne)
        exact (by simpa using hgoal : (t.node ((place ++ [name]) ++ before)).isSome = true → _) hsome

theorem find_real {t : Tree} (hopen : t.Open path) (hnode : t.node path = some n)
    (hlink : n.isLink = true → follow = false) : t.find follow path = .ok path := by
  have hsearch : ∀ before, before <+: path → before ≠ path → t.search ([] ++ before) = .ok () := by
    intro before hbefore hne
    obtain ⟨rest, rfl⟩ := hbefore
    refine hopen before (List.prefix_append ..) hne ?_
    cases rest with
    | nil => simp at hne
    | cons name rest =>
      obtain ⟨cls, mode, hdir⟩ := dir_of_below (Option.isSome_of_eq_some hnode)
      rw [hdir]
      rfl
  exact walk_real path hsearch hnode hlink

theorem find_missing {t : Tree} (hopen : t.Open path) (hnone : t.node path = none) (hne : path ≠ []) :
    t.find follow path = .error .noEntry :=
  walk_missing path (fun before hbefore hne hsome => hopen before hbefore hne hsome) hnone hne

-- ---------------------------------------------------------------------------
-- What is allowed
-- ---------------------------------------------------------------------------

/-- Whether entries of a directory can be removed. -/
def alter (t : Tree) (place : Place) : Except Errno Unit := do
  t.search place
  match t.node place with
  | some (.dir cls mode) => if mayWrite cls mode then .ok () else .error .access
  | _ => .error .notDirectory

def children (t : Tree) (place : Place) : List (String × Bool) :=
  (t.names place).map fun name => (name, (t.node (place ++ [name])).any Node.isDir)

def listing (t : Tree) (place : Place) : Except Errno (List (String × Bool)) :=
  match t.node place with
  | some (.dir cls mode) =>
    if mayRead cls mode && maySearch cls mode then
      .ok (t.children place)
    else .error .access
  | some _ => .error .notDirectory
  | none => .error .noEntry

/-- unlinkat(2), with AT_REMOVEDIR for a directory. -/
def unlinkat (t : Tree) (removeDir : Bool) (parent : Place) (name : String) : Except Errno Tree := do
  t.alter parent
  match t.node (parent ++ [name]) with
  | none => .error .noEntry
  | some node =>
    if node.isDir && !removeDir then .error .isDirectory
    else if !node.isDir && removeDir then .error .notDirectory
    else if hempty : t.names (parent ++ [name]) = [] then .ok (t.remove (parent ++ [name]) hempty)
    else .error .notEmpty

end Tree

-- ---------------------------------------------------------------------------
-- Operations
-- ---------------------------------------------------------------------------

abbrev Act := EStateM Errno Tree

def lift (x : Except Errno α) : Act α :=
  match x with
  | .ok a => pure a
  | .error e => throw e

def lookUp (follow : Bool) (path : Place) : Act (Place × Node) := do
  let t ← get
  let place ← lift (t.find follow path)
  match t.node place with
  | some node => return (place, node)
  | none => throw .noEntry

/-- What a path names, be it a link. -/
def lstat (path : Place) : Act Node := do
  let found ← lookUp false path
  return found.2

/-- chmod(2), which follows links. -/
def chmod (path : Place) (mode : Nat) : Act Unit := do
  let (place, node) ← lookUp true path
  if node.owned then modify (·.setMode place mode) else throw .notPermitted

/-- opendir(3) and readdir(3), which follow links. -/
def readDir (path : Place) : Act (List (String × Bool)) := do
  let (place, _) ← lookUp true path
  let t ← get
  lift (t.listing place)

def unlinkat (removeDir : Bool) (parent : Place) (name : String) : Act Unit := do
  let t ← get
  let t' ← lift (t.unlinkat removeDir parent name)
  set t'

/-- A directory opened from the one it stands in, links not followed. -/
def openat (parent : Place) (name : String) : Act (List (String × Bool)) := do
  let t ← get
  lift (t.search parent)
  lift (t.listing (parent ++ [name]))

def ignoreNotFound (act : Act Unit) : Act Unit :=
  tryCatch act fun e => if e = .noEntry then pure () else throw e

/-- A directory's entry goes as what it is. -/
def removeChild (recur : String → Act Unit) (place : Place) (child : String × Bool) : Act Unit :=
  ignoreNotFound (if child.2 then recur child.1 else unlinkat false place child.1)

/-- The recursion of `std::fs::remove_dir_all`, to the depth of `fuel`. -/
def removeDirAllRecursive : (fuel : Nat) → Place → String → Act Unit
  | 0, _, _ => throw .tooDeep
  | fuel + 1, parent, name => do
    let children ← openat parent name
    children.forM (removeChild (removeDirAllRecursive fuel (parent ++ [name])) (parent ++ [name]))
    ignoreNotFound (unlinkat true parent name)

/-- A link is removed itself. The root directory cannot be. -/
def removeDirAll (fuel : Nat) (path : Place) : Act Unit := do
  let (place, node) ← lookUp false path
  match place.getLast? with
  | none => throw .busy
  | some name =>
    if node.isLink then unlinkat false place.dropLast name
    else removeDirAllRecursive fuel place.dropLast name

-- ---------------------------------------------------------------------------
-- What the operations do
-- ---------------------------------------------------------------------------

variable {t t' t₁ t₂ : Tree} {U V : Place → Prop} {g : Option Node → Option Node}

theorem run_bind_ok {x : EStateM ε Tree α} {f : α → EStateM ε Tree β} (h : x.run t = .ok a t₁) :
    (x >>= f).run t = (f a).run t₁ := by
  rw [EStateM.run_bind, h]

theorem run_get_bind (f : Tree → Act β) : (get >>= f : Act β).run t = (f t).run t := rfl

theorem run_lift_ok {x : Except Errno α} (h : x = .ok a) : (lift x).run t = .ok a t := by
  rw [h]
  rfl

theorem forM_ok {l : List β} {f : β → Act PUnit} {J : List β → Tree → Prop} (hi : J [] t)
    (hstep : ∀ done b rest t, l = done ++ b :: rest → J done t →
      ∃ t', (f b).run t = .ok () t' ∧ J (done ++ [b]) t') :
    ∃ t', (l.forM f).run t = .ok () t' ∧ J l t' := by
  suffices h : ∀ rest done t, l = done ++ rest → J done t → ∃ t', (rest.forM f).run t = .ok () t' ∧ J l t' from
    h l [] t rfl hi
  intro rest
  induction rest with
  | nil =>
    intro done t hl hdone
    rw [List.append_nil] at hl
    exact ⟨t, rfl, hl ▸ hdone⟩
  | cons b rest ih =>
    intro done t hl hdone
    obtain ⟨t₁, hrun, hinv⟩ := hstep done b rest t hl hdone
    obtain ⟨t', hrest, hall⟩ := ih (done ++ [b]) t₁ (by simpa using hl) hinv
    exact ⟨t', (run_bind_ok hrun).trans hrest, hall⟩

theorem ignoreNotFound_ok {act : Act Unit} (h : act.run t = .ok () t') :
    (ignoreNotFound act).run t = .ok () t' := by
  change EStateM.tryCatch act _ t = _
  rw [EStateM.tryCatch, show act t = .ok () t' from h]

theorem lookUp_real (hopen : t.Open path) (hnode : t.node path = some n)
    (hlink : n.isLink = true → follow = false) :
    (lookUp follow path).run t = .ok (path, n) t := by
  unfold lookUp
  rw [run_get_bind, run_bind_ok (run_lift_ok (Tree.find_real hopen hnode hlink)), hnode]
  rfl

theorem lstat_real (hopen : t.Open path) (hnode : t.node path = some n) : (lstat path).run t = .ok n t := by
  unfold lstat
  rw [run_bind_ok (lookUp_real hopen hnode fun _ => rfl)]
  rfl

theorem lstat_missing (hopen : t.Open path) (hnone : t.node path = none) :
    (lstat path).run t = .error .noEntry t := by
  unfold lstat lookUp
  rw [EStateM.run_bind, run_get_bind, EStateM.run_bind]
  by_cases hpath : path = []
  · subst hpath
    rw [run_lift_ok (show t.find false [] = .ok [] from rfl)]
    dsimp only
    rw [hnone]
    rfl
  · rw [Tree.find_missing hopen hnone hpath]
    rfl

theorem chmod_real (hopen : t.Open path) (hnode : t.node path = some n) (howned : n.owned = true) (mode : Nat) :
    (chmod path mode).run t = .ok () (t.setMode path mode) := by
  have hlink : n.isLink = true → true = false := fun hlink => by
    cases n with
    | link _ _ => cases howned
    | dir _ _ | file _ _ _ => cases hlink
  unfold chmod
  rw [run_bind_ok (lookUp_real hopen hnode hlink)]
  dsimp only
  rw [howned]
  rfl

theorem listing_dir (hdir : t.node path = some (.dir cls mode)) (hread : mayRead cls mode = true)
    (hsearch : maySearch cls mode = true) : t.listing path = .ok (t.children path) := by
  rw [Tree.listing, hdir]
  simp [hread, hsearch]

theorem readDir_real (hopen : t.Open path) (hdir : t.node path = some (.dir cls mode))
    (hread : mayRead cls mode = true) (hsearch : maySearch cls mode = true) :
    (readDir path).run t = .ok (t.children path) t := by
  unfold readDir
  rw [run_bind_ok (lookUp_real hopen hdir nofun)]
  exact run_lift_ok (listing_dir hdir hread hsearch)

theorem openat_dir (hsearches : t.search parent = .ok ())
    (hdir : t.node (parent ++ [name]) = some (.dir cls mode))
    (hread : mayRead cls mode = true) (hsearch : maySearch cls mode = true) :
    (openat parent name).run t = .ok (t.children (parent ++ [name])) t := by
  unfold openat
  rw [run_get_bind, run_bind_ok (run_lift_ok hsearches)]
  exact run_lift_ok (listing_dir hdir hread hsearch)

theorem unlinkat_ok (halter : t.alter parent = .ok ()) (hnode : t.node (parent ++ [name]) = some n)
    (hkind : n.isDir = removeDir) (hempty : t.names (parent ++ [name]) = []) :
    (unlinkat removeDir parent name).run t = .ok () (t.remove (parent ++ [name]) hempty) := by
  have hpure : t.unlinkat removeDir parent name = .ok (t.remove (parent ++ [name]) hempty) := by
    unfold Tree.unlinkat
    rw [halter]
    simp only [bind, Except.bind, hnode]
    subst hkind
    simp [hempty]
  unfold unlinkat
  rw [run_get_bind, run_bind_ok (run_lift_ok hpure)]
  rfl

-- ---------------------------------------------------------------------------
-- What becomes of a part
-- ---------------------------------------------------------------------------

/-- One tree from another, what `U` holds of changed by `g`. -/
structure Becomes (g : Option Node → Option Node) (U : Place → Prop) (t t' : Tree) : Prop where
  inside : ∀ p, U p → t'.node p = g (t.node p)
  outside : ∀ p, ¬ U p → t'.node p = t.node p

theorem Becomes.trans (hg : ∀ n, g (g n) = g n) (h : Becomes g U t t₁) (h' : Becomes g V t₁ t₂) :
    Becomes g (fun p => U p ∨ V p) t t₂ where
  inside p hp := by
    by_cases hv : V p
    · rw [h'.inside p hv]
      by_cases hu : U p
      · rw [h.inside p hu, hg]
      · rw [h.outside p hu]
    · rw [h'.outside p hv, h.inside p (hp.resolve_right hv)]
  outside p hp := by
    rw [not_or] at hp
    rw [h'.outside p hp.2, h.outside p hp.1]

theorem Becomes.widen (h : Becomes g U t t') (hsub : ∀ p, U p → V p)
    (hrest : ∀ p, V p → ¬ U p → g (t.node p) = t.node p) : Becomes g V t t' where
  inside p hv := by
    by_cases hu : U p
    · exact h.inside p hu
    · rw [h.outside p hu, hrest p hv hu]
  outside p hv := h.outside p fun hu => hv (hsub p hu)

theorem Becomes.congr (h : Becomes g U t t') (hiff : ∀ p, V p ↔ U p) : Becomes g V t t' :=
  ⟨fun p hp => h.inside p ((hiff p).mp hp), fun p hp => h.outside p (mt (hiff p).mpr hp)⟩

theorem Becomes.refl (g : Option Node → Option Node) (t : Tree) (hnone : ∀ p, ¬ U p) : Becomes g U t t :=
  ⟨fun p h => (hnone p h).elim, fun _ _ => rfl⟩

-- ---------------------------------------------------------------------------
-- Removing everything
-- ---------------------------------------------------------------------------

/-- Every directory there can be listed, searched and written to. -/
def Tree.Pliant (t : Tree) (place : Place) : Prop :=
  ∀ p cls mode, place <+: p → t.node p = some (.dir cls mode) →
    mayRead cls mode = true ∧ mayWrite cls mode = true ∧ maySearch cls mode = true

theorem alter_dir (hdir : t.node place = some (.dir cls mode)) (hwrite : mayWrite cls mode = true)
    (hsearch : maySearch cls mode = true) : t.alter place = .ok () := by
  rw [Tree.alter, Tree.search_of_dir hdir hsearch]
  simp only [bind, Except.bind, hdir]
  exact if_pos hwrite

theorem names_of_not_dir (hdir : (t.node place).any Node.isDir = false) : t.names place = [] := by
  refine List.eq_nil_iff_forall_not_mem.mpr fun name hname => ?_
  rw [Tree.mem_names, Tree.node_below hdir (List.prefix_append ..) (by simp)] at hname
  cases hname

theorem becomes_remove (hempty : t.names place = []) : Becomes (fun _ => none)
    (· = place) t (t.remove place hempty) :=
  ⟨fun p hp => by rw [Tree.node_remove, if_pos hp], fun p hp => by rw [Tree.node_remove, if_neg hp]⟩

def Under (place : Place) (names : List String) (p : Place) : Prop := ∃ name ∈ names, place ++ [name] <+: p

theorem not_under_above (hbefore : p <+: place) (names : List String) : ¬ Under place names p := by
  rintro ⟨name, -, hbelow⟩
  have := (hbelow.trans hbefore).length_le
  rw [List.length_append, List.length_singleton] at this
  omega

theorem under_child_iff : Under place names (place ++ [name]) ↔ name ∈ names := by
  constructor
  · rintro ⟨other, hother, hbelow⟩
    have heq := hbelow.eq_of_length (by simp)
    rw [List.append_cancel_left_eq, List.singleton_inj] at heq
    exact heq ▸ hother
  · exact fun hmem => ⟨name, hmem, List.prefix_rfl⟩

theorem under_append (place : Place) (names : List String) (name : String) (p : Place) :
    Under place (names ++ [name]) p ↔ Under place names p ∨ place ++ [name] <+: p := by
  simp [Under, or_and_right, exists_or]

theorem Becomes.whole (hg : g none = none) (hdir : (t.node place).any Node.isDir = false)
    (h : Becomes g (· = place) t t') : Becomes g (place <+: ·) t t' := by
  refine h.widen (fun p hp => hp ▸ List.prefix_rfl) fun p hbelow hne => ?_
  rw [Tree.node_below hdir hbelow hne, hg]

/-- A directory and all that its names lead to. -/
theorem Becomes.all (hg : g none = none) (h : Becomes g (fun p => Under place (t.names place) p ∨
    p = place) t t') :
    Becomes g (place <+: ·) t t' := by
  refine h.widen ?_ fun p hbelow hnot => ?_
  · rintro p (⟨name, -, hbelow⟩ | rfl)
    · exact (List.prefix_append ..).trans hbelow
    · exact List.prefix_rfl
  · rw [not_or] at hnot
    cases hnode : t.node p with
    | none => exact hg
    | some n =>
      obtain ⟨name, hname, hbelow'⟩ := Tree.below_name (Option.isSome_of_eq_some hnode) hbelow hnot.2
      exact absurd ⟨name, hname, hbelow'⟩ hnot.1

theorem children_fst (t : Tree) (place : Place) : (t.children place).map Prod.fst = t.names place := by
  rw [Tree.children, List.map_map]
  exact List.map_id _

theorem child_of_split {done rest : List (String × Bool)} (hsplit : t.children place = done ++ child :: rest) :
    child.1 ∉ done.map Prod.fst ∧ ∃ n, t.node (place ++ [child.1]) = some n ∧ child.2 = n.isDir := by
  have hmem : child ∈ t.children place := by simp [hsplit]
  obtain ⟨name, hname, rfl⟩ := List.mem_map.mp hmem
  obtain ⟨n, hn⟩ := Option.isSome_iff_exists.mp (Tree.mem_names.mp hname)
  refine ⟨fun hdone => ?_, n, hn, by rw [hn]; rfl⟩
  have hnodup := t.names_nodup place
  rw [← children_fst, hsplit, List.map_append, List.nodup_append] at hnodup
  exact hnodup.2.2 _ hdone _ (by simp) rfl

/-- What is done to a directory's children one by one is done to all that its
names lead to. -/
theorem forM_children (place : Place) (f : String × Bool → Act PUnit) (hg : ∀ n, g (g n) = g n)
    (hf : ∀ child n done tk, child.1 ∉ done → Becomes g (Under place done) t tk →
      tk.node (place ++ [child.1]) = some n → child.2 = n.isDir →
      ∃ t', (f child).run tk = .ok () t' ∧ Becomes g (place ++ [child.1] <+: ·) tk t') :
    ∃ t', ((t.children place).forM f).run t = .ok () t' ∧ Becomes g (Under place (t.names place)) t t' := by
  rw [← children_fst]
  refine forM_ok (J := fun done tk => Becomes g (Under place (done.map Prod.fst)) t tk)
    (.refl g t (by simp [Under])) fun done child rest tk hsplit hdone => ?_
  obtain ⟨hnew, n, hn, hkind⟩ := child_of_split hsplit
  have hnk : tk.node (place ++ [child.1]) = some n := by
    rw [hdone.outside _ (mt under_child_iff.mp hnew), hn]
  obtain ⟨t', hrun, hbecomes⟩ := hf child n _ tk hnew hdone hnk hkind
  refine ⟨t', hrun, (hdone.trans hg hbecomes).congr fun p => ?_⟩
  rw [List.map_append]
  exact under_append ..

/-- A directory of which nothing is out of reach is removed with all that is
in it, and nothing else. -/
theorem removeDirAllRecursive_ok {fuel : Nat} (halter : t.alter parent = .ok ())
    (hdir : t.node (parent ++ [name]) = some (.dir cls mode)) (hpliant : t.Pliant (parent ++ [name]))
    (hdeep : ∀ p, (t.node p).isSome = true → p.length < (parent ++ [name]).length + fuel) :
    ∃ t', (removeDirAllRecursive fuel parent name).run t = .ok () t' ∧
      Becomes (fun _ => none) (parent ++ [name] <+: ·) t t' := by
  induction fuel generalizing t parent name cls mode with
  | zero =>
    have := hdeep _ (Option.isSome_of_eq_some hdir)
    omega
  | succ fuel ih =>
    obtain ⟨hread, hwrite, hsearch⟩ := hpliant _ cls mode List.prefix_rfl hdir
    obtain ⟨t₁, hloop, hemptied⟩ := forM_children (g := fun _ => none) (t := t) (parent ++ [name])
      (removeChild (removeDirAllRecursive fuel (parent ++ [name])) (parent ++ [name])) (fun _ => rfl)
      fun child n done tk hnew hdone hnk hkind => by
        have halterk : tk.alter (parent ++ [name]) = .ok () :=
          alter_dir ((hdone.outside _ (not_under_above List.prefix_rfl _)).trans hdir) hwrite hsearch
        have hfrom : ∀ {p n}, tk.node p = some n → t.node p = some n := fun {p n} hp => by
          by_cases hunder : Under (parent ++ [name]) done p
          · rw [hdone.inside p hunder] at hp
            cases hp
          · rwa [hdone.outside p hunder] at hp
        suffices hchild : ∃ t', (if child.2 then removeDirAllRecursive fuel (parent ++ [name]) child.1
            else unlinkat false (parent ++ [name]) child.1).run tk = .ok () t' ∧
            Becomes (fun _ => none) (parent ++ [name] ++ [child.1] <+: ·) tk t' by
          obtain ⟨t', hrun, hbecomes⟩ := hchild
          exact ⟨t', ignoreNotFound_ok hrun, hbecomes⟩
        rw [hkind]
        cases hisDir : n.isDir with
        | true =>
          obtain ⟨cls', mode', rfl⟩ := Node.isDir_iff.mp hisDir
          refine ih halterk hnk (fun p cls mode hbelow hp => ?_) fun p hp => ?_
          · exact hpliant p cls mode ((List.prefix_append ..).trans hbelow) (hfrom hp)
          · obtain ⟨n, hn⟩ := Option.isSome_iff_exists.mp hp
            have := hdeep p (Option.isSome_of_eq_some (hfrom hn))
            simp only [List.length_append, List.length_singleton] at this ⊢
            omega
        | false =>
          have hnot : (tk.node (parent ++ [name] ++ [child.1])).any Node.isDir = false := by
            rw [hnk]
            exact hisDir
          have hempty := names_of_not_dir hnot
          exact ⟨_, unlinkat_ok halterk hnk hisDir hempty, (becomes_remove hempty).whole rfl hnot⟩
    have halter₁ : t₁.alter parent = .ok () := by
      have hsame := hemptied.outside parent (not_under_above (List.prefix_append ..) _)
      rw [Tree.alter, Tree.search, hsame]
      exact halter
    have hdir₁ : t₁.node (parent ++ [name]) = some (.dir cls mode) :=
      (hemptied.outside _ (not_under_above List.prefix_rfl _)).trans hdir
    have hempty : t₁.names (parent ++ [name]) = [] := by
      refine List.eq_nil_iff_forall_not_mem.mpr fun child hchild => ?_
      rw [Tree.mem_names] at hchild
      by_cases hmem : child ∈ t.names (parent ++ [name])
      · rw [hemptied.inside _ (under_child_iff.mpr hmem)] at hchild
        cases hchild
      · rw [hemptied.outside _ (mt under_child_iff.mp hmem)] at hchild
        exact hmem (Tree.mem_names.mpr hchild)
    have hsearches : t.search parent = .ok () := by
      rw [Tree.alter] at halter
      cases hs : t.search parent with
      | ok _ => rfl
      | error e => rw [hs] at halter; cases halter
    refine ⟨t₁.remove _ hempty, ?_, Becomes.all rfl
      (Becomes.trans (g := fun _ => none) (fun _ => rfl) hemptied (becomes_remove hempty))⟩
    rw [removeDirAllRecursive, run_bind_ok (openat_dir hsearches hdir hread hsearch), run_bind_ok hloop]
    exact ignoreNotFound_ok (unlinkat_ok halter₁ hdir₁ rfl hempty)

theorem removeDirAll_dir {fuel : Nat} (hopen : t.Open (parent ++ [name])) (halter : t.alter parent = .ok ())
    (hdir : t.node (parent ++ [name]) = some (.dir cls mode)) (hpliant : t.Pliant (parent ++ [name]))
    (hdeep : ∀ p, (t.node p).isSome = true → p.length < (parent ++ [name]).length + fuel) :
    ∃ t', (removeDirAll fuel (parent ++ [name])).run t = .ok () t' ∧
      Becomes (fun _ => none) (parent ++ [name] <+: ·) t t' := by
  unfold removeDirAll
  rw [run_bind_ok (lookUp_real hopen hdir fun _ => rfl)]
  simp only [List.getLast?_append, List.getLast?_singleton, Option.some_or, List.dropLast_concat]
  exact removeDirAllRecursive_ok halter hdir hpliant hdeep

theorem removeDirAll_link (fuel : Nat) (hopen : t.Open (parent ++ [name])) (halter : t.alter parent = .ok ())
    (hlink : t.node (parent ++ [name]) = some (.link absolute target)) :
    ∃ t', (removeDirAll fuel (parent ++ [name])).run t = .ok () t' ∧
      Becomes (fun _ => none) (parent ++ [name] <+: ·) t t' := by
  have hnot : (t.node (parent ++ [name])).any Node.isDir = false := by
    rw [hlink]
    rfl
  have hempty := names_of_not_dir hnot
  refine ⟨_, ?_, (becomes_remove hempty).whole rfl hnot⟩
  unfold removeDirAll
  rw [run_bind_ok (lookUp_real hopen hlink fun _ => rfl)]
  simp only [List.getLast?_append, List.getLast?_singleton, Option.some_or, List.dropLast_concat]
  exact unlinkat_ok halter hlink rfl hempty

theorem removeDirAll_file (fuel : Nat) (hopen : t.Open (parent ++ [name]))
    (hfile : t.node (parent ++ [name]) = some (.file cls mode content)) :
    (removeDirAll (fuel + 1) (parent ++ [name])).run t = .error .notDirectory t := by
  obtain ⟨cls', mode', hdir⟩ := Tree.dir_of_child (Option.isSome_of_eq_some hfile)
  have hsearch : t.search parent = .ok () := hopen parent (List.prefix_append ..) (by simp) (by rw [hdir]; rfl)
  unfold removeDirAll
  rw [run_bind_ok (lookUp_real hopen hfile fun _ => rfl)]
  simp only [List.getLast?_append, List.getLast?_singleton, Option.some_or, List.dropLast_concat]
  have hopenat : (openat parent name).run t = .error .notDirectory t := by
    unfold openat
    rw [run_get_bind, run_bind_ok (run_lift_ok hsearch), Tree.listing, hfile]
    rfl
  change (removeDirAllRecursive (fuel + 1) parent name).run t = _
  rw [removeDirAllRecursive, EStateM.run_bind, hopenat]

-- ---------------------------------------------------------------------------
-- What is allowed from elsewhere
-- ---------------------------------------------------------------------------

theorem search_congr (h : t'.node place = t.node place) : t'.search place = t.search place := by
  rw [Tree.search, Tree.search, h]

theorem alter_congr (h : t'.node place = t.node place) : t'.alter place = t.alter place := by
  rw [Tree.alter, Tree.alter, search_congr h, h]

theorem Tree.Open.congr (h : t.Open path)
    (hsame : ∀ place, place <+: path → place ≠ path → t'.node place = t.node place) : t'.Open path := by
  intro place hbefore hne hsome
  rw [hsame place hbefore hne] at hsome
  rw [search_congr (hsame place hbefore hne)]
  exact h place hbefore hne hsome

theorem Tree.Open.child (h : t.Open path) (hsearch : t.search path = .ok ()) (name : String) :
    t.Open (path ++ [name]) := by
  intro place hbefore hne hsome
  rcases List.prefix_concat_iff.mp hbefore with heq | hbefore
  · exact absurd heq hne
  · by_cases heq : place = path
    · exact heq ▸ hsearch
    · exact h place hbefore heq hsome

end FileTree
