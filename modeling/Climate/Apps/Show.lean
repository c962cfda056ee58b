import Climate.Apps.Definitions
import Mathlib.Data.List.Infix

/-!
# Showing a definition

The functions of show.rs, which prints the definition in effect as TOML. What
is printed is a list of lines, without colours.
-/

namespace Climate

open Toml (Table Value Line Text)

-- ---------------------------------------------------------------------------
-- Values
-- ---------------------------------------------------------------------------

def stringsValue (l : List String) : Value := .array (l.map .string)

def entrypointValue : Entrypoint → Value
  | .string program => .string program
  | .list argv => stringsValue argv

def networkValue (network : Network) : Value := .string network.name

/-- A script that holds the literal's own closing quotes is escaped. -/
def scriptValue (script : String) : Text :=
  if '\n' ∈ script.toList ∧ ¬ Toml.quotes.toList <:+: script.toList then .literal script
  else .printed (.string script)

def capabilitiesValue (crates : Crates) (capabilities : List Capability) : Value :=
  stringsValue (capabilities.map crates.capabilityName)

-- ---------------------------------------------------------------------------
-- Lines
-- ---------------------------------------------------------------------------

/-- A line about what the file leaves out. -/
def defaulted (defaults : Bool) (line : Line) : List Line := if defaults then [line] else []

def showKey (defaults : Bool) (key : String) (value : Value) (absent : Bool) : List Line :=
  let line := Line.entry key (.printed value)
  if absent then defaulted defaults line else [line]

def showLimit (defaults : Bool) (key : String) (value : Option Value) (unset : String) : List Line :=
  match value with
  | some value => showKey defaults key value false
  | none => defaulted defaults (.comment s!"{key} is unset: {unset}")

def tableOf (raw : Table) (name : String) : Option Table :=
  match raw.get name with
  | some (.table entries) => some entries
  | _ => none

def absent (raw : Table) (name key : String) : Bool :=
  !(tableOf raw name).any fun entries => (Table.get entries key).isSome

def statesAny (raw : Table) (name : String) : Bool := (tableOf raw name).any (!·.isEmpty)

section
variable (crates : Crates) (defaults : Bool) (config : AppConfig) (raw : Table)

def showApp : List Line :=
  [.header "app"] ++
  showKey defaults "name" (.string config.app.name) false ++
  showKey defaults "description" (.string config.app.description) false ++
  showKey defaults "license" (.string config.app.license) false

def showInstall : List Line :=
  match config.image.install with
  | some script => [.entry "install" (scriptValue script)]
  | none => defaulted defaults (.comment "install is unset: the image runs as pulled")

def showImage : List Line :=
  [.blank, .header "image"] ++
  showKey defaults "reference" (.string config.image.reference) false ++
  showKey defaults "pull" (.boolean config.image.pull) (absent raw "image" "pull") ++
  showInstall defaults config

/-- A section that can end up empty has a header only if a line follows. -/
def showHeader (name : String) : List Line :=
  if defaults || statesAny raw name then [.blank, .header name] else []

def showRun : List Line :=
  (match config.run.entrypoint with
    | some entrypoint => showKey defaults "entrypoint" (entrypointValue entrypoint) false
    | none => defaulted defaults (.comment "entrypoint is unset: the image's own entrypoint runs")) ++
  showKey defaults "args" (stringsValue config.run.args) (absent raw "run" "args") ++
  showKey defaults "env" (stringsValue config.run.env) (absent raw "run" "env") ++
  showKey defaults "mount-cwd" (.boolean config.run.mountCwd) (absent raw "run" "mount-cwd") ++
  showKey defaults "mount" (stringsValue config.run.mount) (absent raw "run" "mount") ++
  showKey defaults "network" (networkValue config.run.network) (absent raw "run" "network") ++
  showKey defaults "capabilities" (capabilitiesValue crates config.run.capabilities)
    (absent raw "run" "capabilities") ++
  showKey defaults "seccomp-allow" (stringsValue config.run.seccompAllow) (absent raw "run" "seccomp-allow") ++
  showKey defaults "seccomp-deny" (stringsValue config.run.seccompDeny) (absent raw "run" "seccomp-deny")

def showLimits : List Line :=
  showLimit defaults "memory" (config.limits.memory.map .string)
    "the app may use as much memory as it likes" ++
  showLimit defaults "swap" (config.limits.swap.map .string) "the app may swap as much as it likes" ++
  showLimit defaults "memory-high" (config.limits.memoryHigh.map .string)
    "the app is never throttled, only killed at the memory limit" ++
  showLimit defaults "cpu" (config.limits.cpu.map .float) "the app may use every core" ++
  showLimit defaults "cpu-shares" (config.limits.cpuShares.map .integer)
    "the app competes for the CPU on equal terms" ++
  showLimit defaults "pids" (config.limits.pids.map .integer)
    "the app may start as many processes as it likes"

def showLines : List Line :=
  showApp defaults config ++ showImage defaults config raw ++
  (showHeader defaults raw "run" ++ showRun crates defaults config raw) ++
  (showHeader defaults raw "limits" ++ showLimits defaults config)

end

/-- What is printed when nothing is coloured. -/
def show_ (crates : Crates) (dirs : AppsDirs) (name : String) (defaults : Bool) : Except String String := do
  let (config, raw) ← loadWithRaw crates dirs name
  return Toml.render crates.print (showLines crates defaults config raw)

end Climate
