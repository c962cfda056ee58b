import Climate.Spec.Host

/-!
# Mounts

The functions of spec.rs that read a definition's mounts and list what will be
mounted onto.
-/

namespace Climate

open UnixPath

def tmpfsDirs : List (String × String) := [("/tmp", "1777"), ("/run", "0755"), ("/var/tmp", "1777")]

def defaultMountDirs : List String := ["/proc", "/dev", "/sys"]

def hostNetFiles : List String := ["/etc/resolv.conf", "/etc/hosts"]

def orNone (message : String) : Option α → Except String α
  | some a => .ok a
  | none => .error message

def hostDir (run : RunConfig) : HostAct (Option String) :=
  if run.mountCwd then .ask .currentDir fun cwd => (orNone "resolving current directory" cwd).map some
  else return none

def trimStart (c : Char) (text : String) : String := String.ofList (text.toList.dropWhile (· = c))

def expand (home : Option String) (path : String) : Except String String := do
  let expanded ←
    if path = "~" ∨ "~/".toList <+: path.toList then do
      let home ← orNone "resolving the home directory" home
      pure (join home (trimStart '/' (trimStart '~' path)))
    else pure path
  if isAbsolute expanded then .ok expanded else .error s!"mount path '{path}' is not absolute"

def expandPath (path : String) : HostAct String := .ask .homeDir fun home => expand home path

/-- Up to three fields: the path on the host, the path inside the container
and whether it is read-only. -/
def parseMount (entry : String) : Except String (String × String × Bool) := do
  let (source, destination, access) ←
    match (entry.toList.splitOn ':').map String.ofList with
    | [source] => .ok (source, source, none)
    | [source, second] =>
      if second = "ro" ∨ second = "rw" then .ok (source, source, some second)
      else .ok (source, second, none)
    | [source, destination, access] => .ok (source, destination, some access)
    | _ => .error s!"mount '{entry}' has more than three ':' separated fields"
  match access with
  | none => .ok (source, destination, false)
  | some access =>
    if access = "ro" then .ok (source, destination, true)
    else if access = "rw" then .ok (source, destination, false)
    else .error s!"mount '{entry}': expected 'ro' or 'rw', not '{access}'"

/-- A trailing `/` asks for a directory, anything else for an empty file. -/
def createSource (path : String) (asDir : Bool) : HostAct Unit := do
  if asDir then .ask (.createDirAll path) (orFail s!"creating {path}")
  else do
    match parent? path with
    | some parent => .ask (.createDirAll parent) (orFail s!"creating {parent}")
    | none => pure ()
    .ask (.createFile path) (orFail s!"creating {path}")

/-- A missing source is created, unless it is shared read-only. -/
def extraMount (entry : String) : HostAct (String × String × Bool) := do
  let (source, destination, readonly) ← .ofExcept (parseMount entry)
  let asDir := source.toList.getLast? = some '/'
  let source ← expandPath source
  if isRoot source then
    .throw "refusing to mount / (the whole host filesystem) into the container"
  else do
    let kind : Option Kind ← .ask (.kind source) .ok
    if kind.isNone then
      if readonly then .throw s!"{source} does not exist and is shared read-only"
      else createSource source asDir
    let destination ← expandPath destination
    return (source, destination, readonly)

def extraMounts : List String → HostAct (List (String × String × Bool))
  | [] => return []
  | entry :: rest => do
    let mount ← extraMount entry
    let mounts ← extraMounts rest
    return mount :: mounts

def existing : List String → HostAct (List String)
  | [] => return []
  | path :: rest => do
    let kind : Option Kind ← .ask (.kind path) .ok
    let found ← existing rest
    return if kind.isSome then path :: found else found

def hostNet (run : RunConfig) : HostAct (List String) :=
  if run.network = .full then existing hostNetFiles else return []

/-- runtime.rs's path to create in the stub layer. -/
structure MountPoint where
  path : String
  isFile : Bool
  contents : String := ""
  deriving DecidableEq, Repr

def MountPoint.dir (path : String) : MountPoint := { path, isFile := false }

def MountPoint.file (path : String) : MountPoint := { path, isFile := true }

def MountPoint.generated (path contents : String) : MountPoint := { path, isFile := true, contents }

def sharePoints : List (String × String × Bool) → HostAct (List MountPoint)
  | [] => return []
  | (source, destination, _) :: rest => do
    let kind : Option Kind ← .ask (.kind source) .ok
    let points ← sharePoints rest
    return (if kind = some .regular then .file destination else .dir destination) :: points

/-- Every path something will be mounted onto, and localnet's resolv.conf,
which is written in place. -/
def mountpoints (cfg : AppConfig) : HostAct (List MountPoint) := do
  let run := cfg.run
  let points := (defaultMountDirs ++ tmpfsDirs.map (·.1)).map MountPoint.dir
  let host ← hostDir run
  let shares ← extraMounts run.mount
  let sharePoints ← sharePoints shares
  let files ← hostNet run
  let points := points ++ host.toList.map .dir ++ sharePoints ++ files.map .file
  if run.network = .localnet then do
    let contents ← .ask .resolvConf .ok
    return points ++ [.generated "/etc/resolv.conf" contents]
  else return points

end Climate
