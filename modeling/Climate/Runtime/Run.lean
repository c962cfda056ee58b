import Climate.Runtime.Machine
import Climate.Store.Digest

/-!
# Mounting and running

The functions of runtime.rs that stack an image's layers and run a container
on them. `base` is the runtime directory.
-/

namespace Climate.Runtime

open UnixPath

def display (place : Place) : String := render (place.map .normal)

/-- `with_context`, where an operation fails in a way of its own. -/
def orElse (message : String) : Except ε α → Except String α
  | .ok a => .ok a
  | .error _ => .error message

@[simp] theorem orElse_ok {r : Except ε α} : orElse message r = .ok a ↔ r = .ok a := by
  cases r <;> simp [orElse]

/-- The same on each part of an operation, where the reply names the part that
failed. -/
def orElseOf (messages : List String) : Except (Fin messages.length) α → Except String α
  | .ok a => .ok a
  | .error part => .error (messages.get part)

@[simp] theorem orElseOf_ok {r : Except (Fin messages.length) α} : orElseOf messages r = .ok a ↔ r = .ok a := by
  cases r <;> simp [orElseOf]

-- ---------------------------------------------------------------------------
-- The root filesystem
-- ---------------------------------------------------------------------------

def parentOf (stub : Place) (relative : List Component) : Place × List Component :=
  if relative = [] then (stub.dropLast, []) else (stub, relative.dropLast)

def materialise (stub : Place) (point : MountPoint) : RunAct Unit := do
  let relative := components point.path
  let target := s!"{display stub}{render relative}"
  if point.isFile then
    let parent := parentOf stub relative
    .ask (.createDirAll parent.1 parent.2) (orElse s!"creating {display parent.1}{render parent.2}")
    .ask (.write stub relative point.contents) (orElse s!"creating {target}")
  else .ask (.createDirAll stub relative) (orElse s!"creating {target}")

def materialiseStub (stub : Place) (points : List MountPoint) : RunAct Unit :=
  points.forM (materialise stub)

def lowerdirArg (path : String) : Except String String :=
  if ':' ∈ path.toList then .error s!"path '{path}' contains a ':' that overlayfs cannot express"
  else .ok path

structure Mount where
  dir : Place
  merged : Place
  deriving DecidableEq, Repr

/-- The image's layers, as arguments. `images` is the store's directory. -/
def lowerdirs (images : Place) : List String → RunAct (List String)
  | [] => return []
  | digest :: rest => do
    let (algo, hex) ← .ofExcept (digestPath digest)
    let path := images ++ ["layers", algo, hex]
    let extracted : Bool ← .ask (.isDir path) .ok
    if extracted then do
      let lower ← .ofExcept (lowerdirArg (display path))
      let others ← lowerdirs images rest
      return lower :: others
    else .throw s!"layer {digest} is not extracted in the store"

def writableOptions : Option (Place × Place) → Except String String
  | none => .ok ""
  | some (upper, work) => do
    let upper ← lowerdirArg (display upper)
    let work ← lowerdirArg (display work)
    return s!",upperdir={upper},workdir={work}"

/-- The topmost layer comes first, and the stub above all of them. -/
def Mount.new (base images : Place) (layers : List String) (points : List MountPoint)
    (writable : Option (Place × Place)) : RunAct Mount :=
  if layers = [] then .throw "image has no layers to mount"
  else do
    let id : String ← .ask .uniqueId .ok
    let dir := base ++ ["overlays", id]
    let merged := base ++ ["overlays", id, "merged"]
    let stub := base ++ ["overlays", id, "stub"]
    .ask (.createDirAll merged []) (orElse s!"creating {display merged}")
    materialiseStub stub points
    let first ← .ofExcept (lowerdirArg (display stub))
    let others ← lowerdirs images layers.reverse
    let extra ← .ofExcept (writableOptions writable)
    let stacked := ":".intercalate (first :: others)
    let options := s!"lowerdir={stacked}{extra}"
    let mounted ← .ask (.fuseOverlayfs options merged) (orElse "running fuse-overlayfs (is it installed?)")
    if mounted then return { dir, merged }
    else do
      .ask (.removeDirAll dir) .ok
      .throw "fuse-overlayfs failed to mount the image layers"

def Mount.drop (mount : Mount) : RunAct Unit := do
  .ask (.unmount mount.merged) .ok
  .ask (.removeDirAll mount.dir) .ok

-- ---------------------------------------------------------------------------
-- The container
-- ---------------------------------------------------------------------------

def hookSocket : String := "loopback.sock"

def consoleSocket : String := "console.sock"

def bridged (network : Network) : Bool := network = .localhost || network = .localnet

def checkCgroup2 : RunAct Unit :=
  .ask .cgroup2 fun (there : Bool) =>
    if there then .ok ()
    else .error ("no cgroup v2 filesystem at /sys/fs/cgroup; on OpenRC enable it with " ++
      "`rc-update add cgroups boot && rc-service cgroups start` (as root)")

def installSignalForwarding : RunAct Unit :=
  [sigInt, sigTerm].forM fun signum =>
    .ask (.sigaction signum) (orElse s!"installing the handler for signal {signum}")

def onlyIf (wanted : Bool) (act : RunAct Unit) : RunAct Unit := if wanted then act else pure ()

/-- A stream that leads to the null device is swapped for a pipe. -/
def swapNull (stream : String) : RunAct Unit := do
  let isNull : Bool ← .ask (.isDevNull stream) .ok
  onlyIf isNull (.ask (.discardPipe stream) (orElse "creating a discard pipe"))

def wait (pid : Int) : RunAct Int := .ask (.wait pid) Waited.outcome

def create (base bundle : Place) (id config : String) (tty : Bool) (network : Network) : RunAct Int := do
  let stateRoot := base ++ ["containers"]
  .ask (.createDirAll stateRoot []) (orElse s!"creating {display stateRoot}")
  onlyIf (bridged network) do
    .ask (.bindSocket bundle hookSocket)
      (orElse s!"binding loopback socket {display (bundle ++ [hookSocket])}")
    .ask .hookProgram (orElse "resolving the CLImate executable")
  .ask (.write bundle [.normal "config.json"] config) (orElse "writing the runtime spec")
  .ask .subreaper (orElse "becoming a child subreaper")
  installSignalForwarding
  onlyIf tty <| .ask (.bindSocket bundle consoleSocket)
    (orElse s!"binding console socket {display (bundle ++ [consoleSocket])}")
  .ask .statePath (orElse "setting the container state path")
  swapNull "stdout"
  swapNull "stderr"
  let created ← .ask (.buildContainer stateRoot id) (orElse "creating the container")
  onlyIf tty (.ask .acceptMaster (orElseOf acceptMasterErrors))
  let pid ← .ofExcept (orNone "container has no pid after create" created)
  .ofExcept (orNone "container has an invalid pid" (fromRaw pid))

/-- A signal that arrived while the container was being created is delivered
now, unless one has been sent since. -/
def deliverPending (pid : Int) : RunAct Unit := do
  .ask (.storePid pid) .ok
  let pending : Int ← .ask .takePending .ok
  match fromNamedRaw pending with
  | none => pure ()
  | some signal => do
    let forwarded : Bool ← .ask .swapForwarded .ok
    onlyIf (!forwarded) (.ask (.kill pid signal) .ok)

def keeping (wanted : Bool) (acquire release : RunAct Unit) (body : RunAct α) : RunAct α :=
  if wanted then .bracket acquire release body else body

def supervise (pid : Int) (tty : Bool) (network : Network) : RunAct Int :=
  keeping (bridged network)
    (.ask (.startForward pid) (orElseOf startForwardErrors)) (.ask .dropForward .ok) do
      .ask .startContainer (orElse "starting the container")
      keeping tty (.ask .rawMode (orElseOf rawModeErrors)) (.ask .dropRaw .ok) <|
        keeping tty (.ask .resize (orElseOf resizeErrors)) (.ask .dropResize .ok) do
          let code ← wait pid
          onlyIf tty (.ask .joinPump .ok)
          return code

/-- `config` is the specification as it is saved. -/
def run (base : Place) (config : String) (tty : Bool) (network : Network) : RunAct Int := do
  checkCgroup2
  let unique : String ← .ask .uniqueId .ok
  let id := s!"climate-{unique}"
  let bundle := base ++ ["bundles", id]
  .ask (.createDirAll bundle []) (orElse s!"creating {display bundle}")
  let pid ← create base bundle id config tty network
  deliverPending pid
  let result ← (supervise pid tty network).attempt
  .ask .clearPid .ok
  .ask (.deleteContainer (base ++ ["containers"]) id) .ok
  .ask (.removeDirAll bundle) .ok
  .ofExcept result

/-- A run of an image: the mount is dropped on every way out. -/
def launch (base images : Place) (layers : List String) (points : List MountPoint)
    (writable : Option (Place × Place)) (config : String) (tty : Bool) (network : Network) : RunAct Int := do
  let mount ← Mount.new base images layers points writable
  let code ← (run base config tty network).attempt
  mount.drop
  .ofExcept code

-- ---------------------------------------------------------------------------
-- Without tasks
-- ---------------------------------------------------------------------------

open Prog

theorem keeping_only {allowed : RunOp → Prop} {acquire release : RunAct Unit} {body : RunAct α}
    (hacquire : acquire.Only allowed) (hrelease : release.Only allowed) (hbody : body.Only allowed) :
    (keeping wanted acquire release body).Only allowed := by
  unfold keeping
  split
  · exact hacquire.bind fun _ => hbody.attempt.bind fun r => hrelease.bind fun _ => .ofExcept r
  · exact hbody

theorem keeping_sequential {acquire release : RunAct Unit} {body : RunAct α}
    (hacquire : acquire.Sequential) (hrelease : release.Sequential) (hbody : body.Sequential) :
    (keeping wanted acquire release body).Sequential := by
  unfold keeping
  split
  · exact hacquire.bind fun _ => hbody.attempt.bind fun r => hrelease.bind fun _ => .ofExcept r
  · exact hbody

theorem onlyIf_only {allowed : RunOp → Prop} {act : RunAct Unit} (h : act.Only allowed) :
    (onlyIf wanted act).Only allowed := by
  cases wanted with
  | false => trivial
  | true => exact h

theorem onlyIf_sequential {act : RunAct Unit} (h : act.Sequential) : (onlyIf wanted act).Sequential := by
  cases wanted with
  | false => trivial
  | true => exact h

theorem supervise_sequential (pid : Int) (tty : Bool) (network : Network) :
    (supervise pid tty network).Sequential :=
  keeping_sequential (.ask _ _) (.ask _ _) <| .bind (.ask _ _) fun _ =>
    keeping_sequential (.ask _ _) (.ask _ _) <| keeping_sequential (.ask _ _) (.ask _ _) <|
      .bind (.ask _ _) fun _ => .bind (onlyIf_sequential (.ask _ _)) fun _ => trivial

theorem create_sequential (base bundle : Place) (id config : String) (tty : Bool) (network : Network) :
    (create base bundle id config tty network).Sequential := by
  have hnull : ∀ stream, (swapNull stream).Sequential := fun stream =>
    .bind (.ask _ _) fun _ => onlyIf_sequential (.ask _ _)
  unfold create
  refine .bind (.ask _ _) fun _ => .bind (onlyIf_sequential (.bind (.ask _ _) fun _ => .ask _ _)) fun _ => ?_
  refine .bind (.ask _ _) fun _ => .bind (.ask _ _) fun _ => .bind (.forM fun _ => .ask _ _) fun _ => ?_
  refine .bind (onlyIf_sequential (.ask _ _)) fun _ => .bind (.ask _ _) fun _ => ?_
  refine .bind (hnull "stdout") fun _ => .bind (hnull "stderr") fun _ => .bind (.ask _ _) fun created => ?_
  exact .bind (onlyIf_sequential (.ask _ _)) fun _ => .bind (.ofExcept _) fun _ => .ofExcept _

theorem deliverPending_sequential (pid : Int) : (deliverPending pid).Sequential := by
  refine .bind (.ask _ _) fun _ => .bind (.ask _ _) fun pending => ?_
  split
  · trivial
  · exact .bind (.ask _ _) fun _ => onlyIf_sequential (.ask _ _)

theorem run_sequential (base : Place) (config : String) (tty : Bool) (network : Network) :
    (run base config tty network).Sequential := by
  unfold run
  refine .bind (.ask _ _) fun _ => .bind (.ask _ _) fun unique => .bind (.ask _ _) fun _ => ?_
  refine .bind (create_sequential _ _ _ _ _ _) fun pid => .bind (deliverPending_sequential pid) fun _ => ?_
  refine .bind (supervise_sequential pid tty network).attempt fun result => .bind (.ask _ _) fun _ => ?_
  exact .bind (.ask _ _) fun _ => .bind (.ask _ _) fun _ => .ofExcept result

end Climate.Runtime
