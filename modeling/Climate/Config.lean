import Climate.Lib.Toml

/-!
# App definitions

The records of config.rs, with the defaults a definition leaves out.
-/

namespace Climate

structure AppMeta where
  name : String
  description : String
  license : String
  deriving DecidableEq, Repr

structure ImageConfig where
  reference : String
  pull : Bool := true
  install : Option String := none
  deriving DecidableEq, Repr

inductive Entrypoint
  | string (program : String)
  | list (argv : List String)
  deriving DecidableEq, Repr

inductive Network
  | full
  | none
  | localhost
  | localnet
  deriving DecidableEq, Repr

instance : Inhabited Network := ⟨.none⟩

/-- The capabilities of the runtime specification. -/
inductive Capability
  | auditControl | auditRead | auditWrite | blockSuspend | bpf | checkpointRestore | chown
  | dacOverride | dacReadSearch | fowner | fsetid | ipcLock | ipcOwner | kill | lease
  | linuxImmutable | macAdmin | macOverride | mknod | netAdmin | netBindService | netBroadcast
  | netRaw | perfmon | setgid | setfcap | setpcap | setuid | sysAdmin | sysBoot | sysChroot
  | sysModule | sysNice | sysPacct | sysPtrace | sysRawio | sysResource | sysTime | sysTtyConfig
  | syslog | wakeAlarm
  deriving DecidableEq, Repr

structure RunConfig where
  entrypoint : Option Entrypoint := none
  args : List String := []
  env : List String := []
  mountCwd : Bool := true
  mount : List String := []
  network : Network := default
  capabilities : List Capability := []
  seccompAllow : List String := []
  seccompDeny : List String := []
  deriving DecidableEq, Repr

/-- Sizes are kept as written. -/
structure LimitsConfig where
  memory : Option String := none
  swap : Option String := none
  memoryHigh : Option String := none
  cpu : Option Toml.Number := none
  cpuShares : Option Int64 := none
  pids : Option Int64 := none
  deriving DecidableEq, Repr

structure AppConfig where
  app : AppMeta
  image : ImageConfig
  run : RunConfig := {}
  limits : LimitsConfig := {}
  deriving DecidableEq, Repr

end Climate
