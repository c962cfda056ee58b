import Climate.Lib.Exec
import Climate.Store.Digest
import Mathlib.Data.List.AList
import Mathlib.Data.List.Infix

/-!
# The image store on disk

What lies under ~/.local/share/climate/images and the operations on it that
store.rs, pull.rs, build.rs and clean.rs make. Each is one atomic step, and
each that can fail may do so at any time. Directories that only hold entries
are not recorded: they are made when first needed and are otherwise empty.
-/

namespace Climate

structure Descriptor where
  digest : String
  mediaType : String := ""
  deriving DecidableEq, Repr

structure Manifest where
  config : Descriptor
  layers : List Descriptor
  deriving DecidableEq, Repr

structure TarEntry where
  path : String
  contents : String
  deriving DecidableEq, Repr

/-- What a file holds: the text of a ref marker, a manifest, an image's
settings, a layer as an archive, or anything else. -/
inductive Content
  | text (s : String)
  | manifest (m : Manifest)
  | config (json : String)
  | archive (entries : List TarEntry)
  | other (bytes : String)
  deriving DecidableEq, Repr

def Content.manifest? : Content → Option Manifest
  | .manifest m => some m
  | _ => none

abbrev Tree := List TarEntry

def Tree.write (t : Tree) (e : TarEntry) : Tree := e :: t.filter (·.path ≠ e.path)

inductive Node
  | file (c : Content)
  | dir (t : Tree)
  deriving DecidableEq, Repr

inductive Path
  | ref (name : String)
  | blob (algo name : String)
  | layer (algo name : String)
  | download (name : String)
  deriving DecidableEq, Repr

inductive Dir
  | store
  | refs
  | blobs
  | blobAlgo (algo : String)
  | layers
  | layerAlgo (algo : String)
  deriving DecidableEq, Repr

def Dir.display : Dir → String
  | .store => "."
  | .refs => "refs"
  | .blobs => "blobs"
  | .blobAlgo algo => s!"blobs/{algo}"
  | .layers => "layers"
  | .layerAlgo algo => s!"layers/{algo}"

def Path.name : Path → String
  | .ref name | .blob _ name | .layer _ name | .download name => name

def Path.parent : Path → Dir
  | .ref _ => .refs
  | .blob algo _ => .blobAlgo algo
  | .layer algo _ => .layerAlgo algo
  | .download _ => .store

def Path.display (p : Path) : String := s!"{p.parent.display}/{p.name}"

abbrev Store := AList fun _ : Path => Node

namespace Store

def has (s : Store) (p : Path) : Bool := (s.lookup p).isSome

def put (s : Store) (p : Path) (n : Node) : Store := s.insert p n

def remove (s : Store) (p : Path) : Store := s.erase p

@[simp] theorem lookup_put_self (s : Store) (p : Path) (n : Node) :
    (s.put p n).lookup p = some n := AList.lookup_insert s

@[simp] theorem lookup_put_other (s : Store) {p q : Path} (n : Node) (h : q ≠ p) :
    (s.put p n).lookup q = s.lookup q := AList.lookup_insert_ne h

@[simp] theorem lookup_remove_self (s : Store) (p : Path) : (s.remove p).lookup p = none :=
  AList.lookup_erase p s

@[simp] theorem lookup_remove_other (s : Store) {p q : Path} (h : q ≠ p) :
    (s.remove p).lookup q = s.lookup q := AList.lookup_erase_ne h

theorem has_iff {s : Store} {p : Path} : s.has p = true ↔ ∃ n, s.lookup p = some n := by
  simp [has, Option.isSome_iff_exists]

@[simp] theorem has_put (s : Store) (p q : Path) (n : Node) :
    (s.put p n).has q = true ↔ q = p ∨ s.has q = true := by
  by_cases h : q = p
  · subst h; simp [has]
  · simp [has, h]

@[simp] theorem has_remove (s : Store) (p q : Path) :
    (s.remove p).has q = true ↔ q ≠ p ∧ s.has q = true := by
  by_cases h : q = p
  · subst h; simp [has]
  · simp [has, h]

def isDir (s : Store) (p : Path) : Bool :=
  match s.lookup p with
  | some (.dir _) => true
  | _ => false

theorem has_of_isDir {s : Store} (h : s.isDir p = true) : s.has p = true := by
  unfold isDir at h
  split at h
  next t ht => exact has_iff.mpr ⟨_, ht⟩
  · cases h

/-- Whether rename(2) may put `n` in the place of what is there: a file over
a file, a directory over an empty directory. -/
def replaceable (n : Node) : Option Node → Bool
  | none => true
  | some (.file _) => match n with
    | .file _ => true
    | .dir _ => false
  | some (.dir t) => match n with
    | .file _ => false
    | .dir _ => t.isEmpty

def rename (s : Store) (p q : Path) : Option Store :=
  match s.lookup p with
  | none => none
  | some n => if replaceable n (s.lookup q) then some ((s.remove p).put q n) else none

theorem rename_eq_some {s s' : Store} {p q : Path} (h : s.rename p q = some s') :
    ∃ n, s.lookup p = some n ∧ replaceable n (s.lookup q) = true ∧ s' = (s.remove p).put q n := by
  unfold rename at h
  split at h
  · cases h
  next n hn =>
    split at h
    next hr => cases h; exact ⟨n, hn, hr, rfl⟩
    · cases h

/-- Whether a directory listing names `name`. The directory of an algorithm
may be there without an entry. -/
def Lists (s : Store) : Dir → List String → Prop
  | .store, names => names.Nodup ∧ ∀ name, name ∈ names ↔ s.has (.download name) = true
  | .refs, names => names.Nodup ∧ ∀ name, name ∈ names ↔ s.has (.ref name) = true
  | .blobs, names => names.Nodup ∧ ∀ algo name, s.has (.blob algo name) = true → algo ∈ names
  | .blobAlgo algo, names =>
    names.Nodup ∧ ∀ name, name ∈ names ↔ s.has (.blob algo name) = true
  | .layers, names => names.Nodup ∧ ∀ algo name, s.has (.layer algo name) = true → algo ∈ names
  | .layerAlgo algo, names =>
    names.Nodup ∧ ∀ name, name ∈ names ↔ s.has (.layer algo name) = true

end Store

-- ---------------------------------------------------------------------------
-- The operations
-- ---------------------------------------------------------------------------

def buildAlgo : String := "build"

/-- What the code relies on outside it. `content` is what a digest names:
the client checks everything it downloads against its digest. `whole` is the
reference parser, giving the full form of what it accepts. -/
structure Oci where
  content : String → Content
  whole : String → Option String

/-- Whether a digest is one of build.rs's, which no registry hands out. -/
def Built (digest : String) : Prop := ∃ id, digest = digestOf buildAlgo id

/-- What is stored under a registry's digest is what the digest names. -/
def Oci.Admits (oci : Oci) (p : Path) (n : Node) : Prop :=
  ∀ algo name c, p = .blob algo name → n = .file c → algo ≠ buildAlgo →
    c = oci.content (digestOf algo name)

inductive IoError
  | notFound
  | other
  deriving DecidableEq, Repr

/-- `write` is `fs::write` as one step; `truncate` and `fill` are its two
halves. `manifest` and `manifestRaw` ask a registry, `download` fetches a
blob into a file, `runScript` runs an install script with `upper` as the
writable layer, `runContainer` an app, whose root is read-only. -/
inductive Op
  | storeExists
  | exists (p : Path)
  | isDir (p : Path)
  | read (p : Path)
  | write (p : Path) (c : Content)
  | truncate (p : Path)
  | fill (p : Path) (c : Content)
  | rename (p q : Path)
  | removeFile (p : Path)
  | removeTree (p : Path)
  | readDir (d : Dir)
  | createDirAll (d : Dir)
  | createTree (p : Path)
  | unpackEntry (p : Path) (e : TarEntry)
  | uniqueId
  | manifest (reference : String)
  | manifestRaw (digest : String)
  | download (p : Path) (digest : String)
  | runScript (upper work : Path) (lowerdirs : List Path) (script : String)
  | runContainer (lowerdirs : List Path)
  deriving DecidableEq, Repr

def Op.Res : Op → Type
  | .storeExists | .exists _ | .isDir _ => Bool
  | .read _ | .manifestRaw _ => Except IoError Content
  | .readDir _ => Except IoError (List String)
  | .uniqueId => String
  | .manifest _ => Except IoError (Manifest × String)
  | .runScript .. | .runContainer _ => Except IoError Int
  | .write .. | .truncate _ | .fill .. | .rename .. | .removeFile _ | .removeTree _
  | .createDirAll _ | .createTree _ | .unpackEntry .. | .download .. => Except IoError Unit

def uniqueId (pid nanos : Nat) : String := s!"{pid}-{nanos}"

theorem uniqueId_toList (pid nanos : Nat) :
    (uniqueId pid nanos).toList = Nat.toDigits 10 pid ++ '-' :: Nat.toDigits 10 nanos := by
  change (toString pid ++ "-" ++ toString nanos).toList = _
  simp

theorem dash_not_mem_toDigits (n : Nat) : '-' ∉ Nat.toDigits 10 n := by
  intro hmem
  exact absurd (Nat.isDigit_of_mem_toDigits (by decide) (by decide) hmem) (by decide)

/-- `unique_id().replace('-', "")`. -/
def dashless (id : String) : String := String.ofList (id.toList.filter (· ≠ '-'))

/-- Nothing in the store carries the id in its name, as no other run picks it. -/
def Store.Unused (s : Store) (id : String) : Prop :=
  ∀ p ∈ s, ¬ id.toList <:+: p.name.toList ∧ ¬ (dashless id).toList <:+: p.name.toList

instance (s : Store) (id : String) : Decidable (s.Unused id) :=
  inferInstanceAs (Decidable (∀ p ∈ s.keys, _))

/-- A step that either succeeds, as `done` says, or fails and changes nothing. -/
def OrFails (r : Except IoError α) (s s' : Store) (done : α → Prop) : Prop :=
  match r with
  | .ok a => done a
  | .error _ => s' = s

def OrPartly (r : Except IoError α) (s s' : Store) (done : Prop) (partly : Prop) : Prop :=
  match r with
  | .ok _ => done
  | .error _ => s' = s ∨ partly

def Store.fits (s : Store) (p : Path) : Bool := replaceable (.file (.text "")) (s.lookup p)

def Op.effect (oci : Oci) : (op : Op) → Store → op.Res → Store → Prop
  | .storeExists, s, r, s' => s' = s ∧ (s ≠ ∅ → r = true)
  | .exists p, s, r, s' => s' = s ∧ r = s.has p
  | .isDir p, s, r, s' => s' = s ∧ r = s.isDir p
  | .read p, s, r, s' => s' = s ∧ match r with
    | .ok c => s.lookup p = some (.file c)
    | .error .notFound => s.lookup p = none
    | .error .other => True
  | .write p c, s, r, s' => OrFails r s s' fun _ =>
    s.fits p = true ∧ s' = s.put p (.file c) ∧ oci.Admits p (.file c)
  | .truncate p, s, r, s' => OrFails r s s' fun _ =>
    s.fits p = true ∧ s' = s.put p (.file (.text ""))
  | .fill p c, s, r, s' => OrFails r s s' fun _ =>
    (s' = if s.has p then s.put p (.file c) else s) ∧ oci.Admits p (.file c)
  | .rename p q, s, r, s' => OrFails r s s' fun _ =>
    s.rename p q = some s' ∧ ∀ n, s.lookup p = some n → oci.Admits q n
  | .removeFile p, s, r, s' => OrFails r s s' fun _ =>
    (∃ c, s.lookup p = some (.file c)) ∧ s' = s.remove p
  | .removeTree p, s, r, s' => OrPartly r s s' (s' = s.remove p)
    (∃ t t', s.lookup p = some (.dir t) ∧ t' ⊆ t ∧ s' = s.put p (.dir t'))
  | .readDir d, s, r, s' => s' = s ∧ match r with
    | .ok names => s.Lists d names
    | .error .notFound => s.Lists d []
    | .error .other => True
  | .createDirAll _, s, _, s' => s' = s
  | .createTree p, s, r, s' => OrFails r s s' fun _ =>
    s.isDir p = true ∧ s' = s ∨ s.has p = false ∧ s' = s.put p (.dir [])
  -- tar refuses to write outside its directory, so a missing one is an error.
  | .unpackEntry p e, s, r, s' => OrPartly r s s'
    (∃ t, s.lookup p = some (.dir t) ∧ s' = s.put p (.dir (Tree.write t e)))
    (∃ t part, s.lookup p = some (.dir t) ∧
      s' = s.put p (.dir (Tree.write t { e with contents := part })))
  | .uniqueId, s, r, s' => s' = s ∧ s.Unused r ∧ ∃ pid nanos, r = Climate.uniqueId pid nanos
  | .manifest _, s, r, s' => s' = s ∧ ∀ m d, r = .ok (m, d) →
    oci.content d = .manifest m ∧ ¬ Built d
  | .manifestRaw d, s, r, s' => s' = s ∧ ∀ c, r = .ok c → c = oci.content d
  -- A broken download leaves part of a file behind.
  | .download p d, s, r, s' => OrPartly r s s'
    (s.fits p = true ∧ s' = s.put p (.file (oci.content d)) ∧ ¬ Built d)
    (s.fits p = true ∧ ∃ c, s' = s.put p (.file c))
  -- The script writes into the upper directory whether it succeeds or not.
  | .runScript upper _ _ _, s, _, s' => ∃ t, s.has upper = true ∧ s' = s.put upper (.dir t) ∨ s' = s
  | .runContainer _, s, _, s' => s' = s

abbrev disk : Interface where
  Op := Op
  Res := Op.Res

/-- A program over the store. -/
abbrev Act := Prog disk

end Climate
