import Climate.Spec.Resources

/-!
# The runtime specification

The function of spec.rs that puts together the specification an app runs
under.
-/

namespace Climate

structure ImageExecConfig where
  entrypoint : Option (List String) := none
  cmd : Option (List String) := none
  env : Option (List String) := none
  workingDir : Option String := none
  deriving DecidableEq, Repr

def defaultPath : String := "PATH=/usr/local/sbin:/usr/local/bin:/usr/sbin:/usr/bin:/sbin:/bin"

/-- An entrypoint of the app's replaces the image's entrypoint and its command. -/
def command (run : RunConfig) (image : Option ImageExecConfig) (userArgs : List String) : List String :=
  let extra := run.args ++ userArgs
  let argv := match run.entrypoint with
    | some (.string program) => [program]
    | some (.list argv) => argv
    | none => (image.bind (·.entrypoint)).getD []
  if run.entrypoint.isNone ∧ extra = [] then argv ++ (image.bind (·.cmd)).getD []
  else argv ++ extra

/-- "NAME" copies a variable of the host's, "NAME=VALUE" sets one. -/
def appVariables : List String → HostAct (List String)
  | [] => return []
  | entry :: rest => do
    if '=' ∈ entry.toList then return entry :: (← appVariables rest)
    else
      let value : Option String ← .ask (.var entry) .ok
      let others ← appVariables rest
      return (value.map fun value => s!"{entry}={value}").toList ++ others

def environment (run : RunConfig) (image : Option ImageExecConfig) : HostAct (List String) := do
  let env := (image.bind (·.env)).getD [] ++ (← appVariables run.env)
  return if env.any fun e => "PATH=".toList.isPrefixOf e.toList then env else env ++ [defaultPath]

structure Mount where
  destination : String
  typ : String
  source : String
  options : List String
  deriving DecidableEq, Repr

def tmpfs (destination mode : String) : Mount where
  destination := destination
  typ := "tmpfs"
  source := "tmpfs"
  options := ["nosuid", "nodev", s!"mode={mode}"]

def bindMount (source destination : String) (readonly : Bool) : Mount where
  destination := destination
  typ := "bind"
  source := source
  options := ["rbind", if readonly then "ro" else "rw"]

structure Spec.Process where
  terminal : Bool
  cwd : String
  args : List String
  env : List String
  noNewPrivileges : Bool
  capabilities : List Capability
  deriving DecidableEq, Repr

structure Spec where
  root : String
  rootReadonly : Bool
  process : Spec.Process
  mounts : List Mount
  privateNetwork : Bool
  resources : Option LinuxResources
  deriving DecidableEq, Repr

/-- The mounts of the library's own rootless specification come first. -/
def Spec.build (rootless : List Mount) (cfg : AppConfig) (image : Option ImageExecConfig) (root : String)
    (userArgs : List String) (tty : Bool) : HostAct Spec := do
  let run := cfg.run
  let argv := command run image userArgs
  if argv = [] then
    .throw s!"{cfg.app.name}: image has no entrypoint or command and none was configured"
  else do
    -- the shared working directory, or the image's own
    let cwd := (← hostDir run).getD ((image.bind (·.workingDir)).getD "/")
    let env ← environment run image
    let host ← hostDir run
    let shares ← extraMounts run.mount
    let files ← hostNet run
    let limits ← .ofExcept (Climate.resources cfg.limits)
    return {
      root
      rootReadonly := false
      process := {
        terminal := tty
        cwd
        args := argv
        env
        noNewPrivileges := true
        capabilities := run.capabilities }
      mounts := rootless ++ tmpfsDirs.map (fun (dir, mode) => tmpfs dir mode) ++
        host.toList.map (fun dir => bindMount dir dir false) ++
        shares.map (fun (source, destination, readonly) => bindMount source destination readonly) ++
        files.map fun file => bindMount file file true
      privateNetwork := run.network ≠ .full
      resources := limits }

end Climate
