import Climate.Seccomp.Profile
import Mathlib.Data.List.Dedup

/-!
# Definition files

How config.rs finds an app's definition and its override, and what it reads
them as.
-/

namespace Climate

open Toml (Table Value)

-- ---------------------------------------------------------------------------
-- Reading a table
-- ---------------------------------------------------------------------------

/-- What config.rs has from the libraries it uses. `parse` reads a document,
`print` writes a value and `newlines` is what becomes of the newlines in a
literal. `variant` is the name a value gives of one of several choices,
`sequence` the fields of a struct written as an array, where that is taken,
and `nearest` an integer read as a floating-point number. -/
structure Crates where
  parse : String → Except String Table
  print : Value → String
  newlines : String → String
  variant : Value → Option String
  sequence : List String → List Value → Option (String → Option Value)
  nearest : Int64 → Toml.Number
  capability : String → Option Capability
  capabilityName : Capability → String
  seacomb : Seccomp.Seacomb

section
variable (crates : Crates)

def structFields (names : List String) : Value → Option (String → Option Value)
  | .table t => if ∀ key ∈ Table.keys t, key ∈ names then some (Table.get t) else none
  | .array items => crates.sequence names items
  | _ => none

def readString : Value → Option String
  | .string text => some text
  | _ => none

def readBool : Value → Option Bool
  | .boolean b => some b
  | _ => none

def readInt : Value → Option Int64
  | .integer n => some n
  | _ => none

def readFloat : Value → Option Toml.Number
  | .float x => some x
  | .integer n => some (crates.nearest n)
  | _ => none

def readList (read : Value → Option α) : Value → Option (List α)
  | .array items => items.mapM read
  | _ => none

/-- A field with a default may be left out. -/
def field (default : α) (read : Value → Option α) : Option Value → Option α
  | none => some default
  | some value => read value

def optional (read : Value → Option α) : Option Value → Option (Option α) :=
  field none fun value => (read value).map some

def Entrypoint.read : Value → Option Entrypoint
  | .string program => some (.string program)
  | value => (readList readString value).map .list

def Network.name : Network → String
  | .full => "full"
  | .none => "none"
  | .localhost => "localhost"
  | .localnet => "localnet"

def Network.read (value : Value) : Option Network :=
  (crates.variant value).bind fun name =>
    [Network.full, .none, .localhost, .localnet].find? (·.name = name)

def Capability.read (value : Value) : Option Capability :=
  (crates.variant value).bind crates.capability

/-- TOML's own integers and floats are kept apart, so 1.5 is refused. -/
def size : Value → Option String
  | .integer bytes => some (toString bytes)
  | .string text => some text
  | _ => none

def AppMeta.read (value : Value) : Option AppMeta := do
  let get ← structFields crates ["name", "description", "license"] value
  return {
    name := ← (← get "name") |> readString
    description := ← (← get "description") |> readString
    license := ← (← get "license") |> readString }

def ImageConfig.read (value : Value) : Option ImageConfig := do
  let get ← structFields crates ["reference", "pull", "install"] value
  return {
    reference := ← (← get "reference") |> readString
    pull := ← get "pull" |> field true readBool
    install := ← get "install" |> optional readString }

def RunConfig.read (value : Value) : Option RunConfig := do
  let get ← structFields crates ["entrypoint", "args", "env", "mount-cwd", "mount", "network",
    "capabilities", "seccomp-allow", "seccomp-deny"] value
  return {
    entrypoint := ← get "entrypoint" |> optional Entrypoint.read
    args := ← get "args" |> field [] (readList readString)
    env := ← get "env" |> field [] (readList readString)
    mountCwd := ← get "mount-cwd" |> field true readBool
    mount := ← get "mount" |> field [] (readList readString)
    network := ← get "network" |> field default (Network.read crates)
    capabilities := ← get "capabilities" |> field [] (readList (Capability.read crates))
    seccompAllow := ← get "seccomp-allow" |> field [] (readList readString)
    seccompDeny := ← get "seccomp-deny" |> field [] (readList readString) }

def LimitsConfig.read (value : Value) : Option LimitsConfig := do
  let get ← structFields crates ["memory", "swap", "memory-high", "cpu", "cpu-shares", "pids"] value
  return {
    memory := ← get "memory" |> optional size
    swap := ← get "swap" |> optional size
    memoryHigh := ← get "memory-high" |> optional size
    cpu := ← get "cpu" |> optional (readFloat crates)
    cpuShares := ← get "cpu-shares" |> optional readInt
    pids := ← get "pids" |> optional readInt }

def AppConfig.read (raw : Table) : Option AppConfig := do
  let get ← structFields crates ["app", "image", "run", "limits"] (.table raw)
  return {
    app := ← (← get "app") |> AppMeta.read crates
    image := ← (← get "image") |> ImageConfig.read crates
    run := ← get "run" |> field {} (RunConfig.read crates)
    limits := ← get "limits" |> field {} (LimitsConfig.read crates) }

end

-- ---------------------------------------------------------------------------
-- Finding a definition
-- ---------------------------------------------------------------------------

inductive Entry
  | file (text : Except String String)
  | other

/-- A directory. One that cannot be listed may still be searched. -/
structure Folder (α : Type) where
  listable : Bool := true
  entries : List (String × α) := []

def Folder.list (f : Folder α) : List (String × α) := if f.listable then f.entries else []

/-- Apps, grouped by first character, under a path of the host. -/
structure AppsDir where
  path : String
  groups : Folder (Folder Entry)

/-- The directories that are searched, in order, and the overrides. -/
structure AppsDirs where
  search : List AppsDir
  overrides : Option AppsDir := none

/-- What stands before `.toml`, if it is not nothing. -/
def tomlStem (file : String) : Option String :=
  let stem := file.toList.take (file.length - 5)
  if file.toList.drop (file.length - 5) = ".toml".toList ∧ stem ≠ [] then some (String.ofList stem)
  else none

def AppsDir.names (dir : AppsDir) : List String :=
  dir.groups.list.flatMap fun group => group.2.list.filterMap fun entry => tomlStem entry.1

def appNames (dirs : AppsDirs) : List String :=
  (dirs.search.flatMap AppsDir.names).dedup.mergeSort (· ≤ ·)

def validateAppName (name : String) : Except String Unit :=
  if name ≠ "" ∧ name.toList.head? ≠ some '.' ∧ name.toList.all fun c => c.isAlphanum || "+._-".toList.contains c
  then .ok ()
  else .error s!"invalid app name '{name}' (allowed: A-Z a-z 0-9 + . _ -, not starting with '.')"

/-- The text of an app's file in the directory of its first character. -/
def AppsDir.file (dir : AppsDir) (name : String) : Option (String × Except String String) :=
  let group := String.ofList (name.toList.take 1)
  let file := s!"{name}.toml"
  match (dir.groups.entries.lookup group).bind (·.entries.lookup file) with
  | some (.file text) => some (s!"{dir.path}/{group}/{file}", text)
  | _ => none

def readFile : String × Except String String → Except String (String × String)
  | (path, .ok text) => .ok (path, text)
  | (path, .error _) => .error s!"reading {path}"

/-- The first directory that has the app wins. -/
def read (dirs : AppsDirs) (name : String) : Except String (String × String) := do
  validateAppName name
  match dirs.search.findSome? (·.file name) with
  | some found => readFile found
  | none => .error s!"unknown app '{name}'"

def readOverride (dirs : AppsDirs) (name : String) : Except String (Option (String × String)) :=
  match dirs.overrides.bind (·.file name) with
  | some found => (readFile found).map some
  | none => .ok none

-- ---------------------------------------------------------------------------
-- Loading
-- ---------------------------------------------------------------------------

def orParsing (origin : String) : Option α → Except String α
  | some a => .ok a
  | none => .error s!"parsing {origin}"

def AppConfig.check (crates : Crates) (name origin : String) (config : AppConfig) : Except String Unit := do
  if config.app.name ≠ name then
    .error s!"{origin}: app name '{config.app.name}' does not match file name '{name}'"
  if config.app.description = "" then .error s!"{origin}: app description must not be empty"
  if config.app.license = "" then .error s!"{origin}: app license must not be empty"
  orParsing origin (Seccomp.checkSyscallNames crates.seacomb config.run).toOption

/-- The definition and the table it was read from, override included. -/
def loadWithRaw (crates : Crates) (dirs : AppsDirs) (name : String) : Except String (AppConfig × Table) := do
  let (path, text) ← read dirs name
  let raw ← orParsing path (crates.parse text).toOption
  let (config, origin, raw) ← match ← readOverride dirs name with
    | none => do
      let config ← orParsing path (AppConfig.read crates raw)
      pure (config, path, raw)
    | some (overridePath, overrideText) => do
      let override ← orParsing overridePath (crates.parse overrideText).toOption
      let raw := Toml.merge raw override
      let origin := s!"{path} with {overridePath}"
      let config ← orParsing origin (AppConfig.read crates raw)
      pure (config, origin, raw)
  config.check crates name origin
  return (config, raw)

def load (crates : Crates) (dirs : AppsDirs) (name : String) : Except String AppConfig :=
  (loadWithRaw crates dirs name).map (·.1)

/-- The apps that load; a warning about one that does not is left out. -/
def loadable (crates : Crates) (dirs : AppsDirs) : List AppConfig :=
  (appNames dirs).filterMap fun name => (load crates dirs name).toOption

theorem toOption_some {x : Except ε α} (h : x.toOption = some a) : x = .ok a := by
  cases x with
  | error e => cases h
  | ok b => cases h; rfl

theorem bind_ok {x : Except String α} {f : α → Except String β} (h : x >>= f = .ok b) :
    ∃ a, x = .ok a ∧ f a = .ok b := by
  cases x with
  | ok a => exact ⟨a, rfl, h⟩
  | error e => cases h

theorem orParsing_ok {o : Option α} (h : orParsing origin o = .ok a) : o = some a := by
  cases o with
  | some _ => exact congrArg some (Except.ok.inj h)
  | none => cases h

theorem loadWithRaw_ok {crates : Crates} (h : loadWithRaw crates dirs name = .ok (config, raw)) :
    validateAppName name = .ok () ∧ AppConfig.read crates raw = some config ∧
      ∃ origin, config.check crates name origin = .ok () := by
  obtain ⟨⟨path, text⟩, hread, h⟩ := bind_ok h
  obtain ⟨_, hvalid, -⟩ := bind_ok hread
  obtain ⟨base, -, h⟩ := bind_ok h
  obtain ⟨override, -, h⟩ := bind_ok h
  cases override with
  | none =>
    obtain ⟨_, hconfig, h⟩ := bind_ok h
    obtain ⟨_, hpure, h⟩ := bind_ok h
    cases hpure
    obtain ⟨_, hcheck, h⟩ := bind_ok h
    cases h
    exact ⟨hvalid, orParsing_ok hconfig, _, hcheck⟩
  | some override =>
    obtain ⟨parsed, -, h⟩ := bind_ok h
    obtain ⟨_, hconfig, h⟩ := bind_ok h
    obtain ⟨_, hpure, h⟩ := bind_ok h
    cases hpure
    obtain ⟨_, hcheck, h⟩ := bind_ok h
    cases h
    exact ⟨hvalid, orParsing_ok hconfig, _, hcheck⟩

theorem load_ok {crates : Crates} (h : load crates dirs name = .ok config) :
    ∃ raw, loadWithRaw crates dirs name = .ok (config, raw) := by
  unfold load at h
  cases hraw : loadWithRaw crates dirs name with
  | error e => rw [hraw] at h; cases h
  | ok r =>
    rw [hraw] at h
    cases h
    exact ⟨r.2, rfl⟩

theorem load_name {crates : Crates} (h : load crates dirs name = .ok config) :
    config.app.name = name ∧ validateAppName name = .ok () := by
  obtain ⟨raw, hraw⟩ := load_ok h
  obtain ⟨hvalid, -, origin, hcheck⟩ := loadWithRaw_ok hraw
  refine ⟨?_, hvalid⟩
  by_contra hne
  rw [AppConfig.check, if_pos hne] at hcheck
  cases hcheck

theorem validateAppName_char (h : validateAppName name = .ok ()) (hc : c ∈ name.toList) :
    c ≠ '/' ∧ c ≠ ':' := by
  unfold validateAppName at h
  split at h
  next hvalid =>
    have hharmless := List.all_eq_true.mp hvalid.2.2 c hc
    constructor
    all_goals
      rintro rfl
      revert hharmless
      decide
  · cases h

end Climate
