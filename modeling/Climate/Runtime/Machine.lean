import Climate.Lib.Exec
import Climate.Lib.Interrupt
import Climate.Lib.UnixPath
import Climate.Spec.Mounts
import Climate.Store.Basic

/-!
# The machine a run works on

What runtime.rs asks of the host while it mounts an image and runs a
container, the places and containers that makes, and the statics its signal
handler shares with the main thread.
-/

namespace Climate.Runtime

open UnixPath

-- ---------------------------------------------------------------------------
-- Signals
-- ---------------------------------------------------------------------------

def sigInt : Int := 2

def sigKill : Int := 9

def sigTerm : Int := 15

/-- `Signal::from_named_raw`. -/
def fromNamedRaw (raw : Int) : Option Int := if 1 ≤ raw ∧ raw ≤ 31 then some raw else none

/-- `Pid::from_raw`. -/
def fromRaw (raw : Int) : Option Int := if raw = 0 then none else some raw

/-- What happens to the statics and to the container's first process.
`handled` is one execution of the handler, with the process and the signal it
sent, if it did; `delivered` is the main thread's sending of one. -/
inductive Event
  | handled (signum : Int) (sent : Option (Int × Int))
  | stored (pid : Int)
  | took
  | swapped
  | delivered (pid signal : Int)
  | reaped (pid : Int)
  | cleared
  deriving DecidableEq, Repr

/-- The statics of runtime.rs, the signals that have a handler, and what has
happened so far. -/
structure Signals where
  containerPid : Int := 0
  pending : Int := 0
  forwarded : Bool := false
  installed : List Int := []
  trace : List Event := []
  deriving DecidableEq, Repr

def Signals.note (s : Signals) (e : Event) : Signals := { s with trace := s.trace ++ [e] }

/-- The handler. A signal to a process that is not there yet is kept, and one
after the first becomes a SIGKILL. -/
def forwardSignal (signum : Int) (s : Signals) : Signals :=
  match fromRaw s.containerPid with
  | some pid =>
    let signal := if s.forwarded then some sigKill else fromNamedRaw signum
    { s with forwarded := true }.note (.handled signum (signal.map fun signal => (pid, signal)))
  | none => { s with pending := signum }.note (.handled signum none)

-- ---------------------------------------------------------------------------
-- The machine
-- ---------------------------------------------------------------------------

inductive Entry
  | dir
  | file (contents : String)
  | socket
  deriving DecidableEq, Repr

/-- `written` are the places that were created or written to, and `live` the
containers that were created and not deleted. -/
structure Machine where
  entries : List (Place × Entry) := []
  written : List Place := []
  live : List String := []
  signals : Signals := {}
  deriving DecidableEq, Repr

namespace Machine

def entry (m : Machine) (place : Place) : Option Entry :=
  if place = [] then some .dir else m.entries.lookup place

def has (m : Machine) (place : Place) : Bool := (m.entry place).isSome

def isDir (m : Machine) (place : Place) : Bool := m.entry place = some .dir

def put (m : Machine) (place : Place) (entry : Entry) : Machine :=
  { m with entries := (place, entry) :: m.entries, written := place :: m.written }

def makeDir (m : Machine) (place : Place) : Machine := if m.has place then m else m.put place .dir

def makeDirs (m : Machine) (places : List Place) : Machine := places.foldl makeDir m

def removeTree (m : Machine) (place : Place) : Machine :=
  { m with entries := m.entries.filter fun e => !place.isPrefixOf e.1 }

/-- Neither a place nor a container carries the id in its name. -/
def Unused (m : Machine) (id : String) : Prop :=
  (∀ e ∈ m.entries, ∀ name ∈ e.1, ¬ id.toList <:+: name.toList) ∧
    ∀ name ∈ m.live, ¬ id.toList <:+: name.toList

theorem put_entry (m : Machine) (place : Place) (e : Entry) (h : other ≠ []) :
    (m.put place e).entry other = if other = place then some e else m.entry other := by
  simp only [entry, put, h, if_false, List.lookup_cons]
  by_cases heq : other = place
  · simp [heq]
  · have hbeq : (other == place) = false := by simpa using heq
    simp [heq, hbeq]

@[simp] theorem has_root (m : Machine) : m.has [] = true := rfl

theorem has_put (m : Machine) (place : Place) (e : Entry) :
    (m.put place e).has other = true ↔ other = place ∨ m.has other = true := by
  by_cases hroot : other = []
  · simp [hroot]
  · rw [has, put_entry m place e hroot]
    split <;> simp_all [has]

theorem has_makeDir (m : Machine) (place : Place) :
    (m.makeDir place).has other = true ↔ other = place ∨ m.has other = true := by
  unfold makeDir
  split
  next hthere =>
    refine ⟨.inr, ?_⟩
    rintro (rfl | h)
    · exact hthere
    · exact h
  next => exact has_put m place .dir

theorem has_makeDirs (m : Machine) (places : List Place) :
    (m.makeDirs places).has other = true ↔ other ∈ places ∨ m.has other = true := by
  induction places generalizing m with
  | nil => simp [makeDirs]
  | cons place rest ih =>
    change ((m.makeDir place).makeDirs rest).has other = true ↔ _
    rw [ih, has_makeDir, List.mem_cons]
    tauto

theorem lookup_filter (keep : Place → Bool) (l : List (Place × Entry)) :
    (l.filter fun e => keep e.1).lookup other = if keep other then l.lookup other else none := by
  induction l with
  | nil => simp
  | cons e l ih =>
    obtain ⟨place, e⟩ := e
    rw [List.filter_cons]
    by_cases heq : other = place
    · subst heq
      cases hkeep : keep other <;> simp [hkeep, ih]
    · have hbeq : (other == place) = false := by simpa using heq
      cases hkeep : keep place <;> simp [List.lookup_cons, hbeq, ih]

theorem has_removeTree (m : Machine) (place : Place) (h : place ≠ []) :
    (m.removeTree place).has other = true ↔ m.has other = true ∧ ¬ place <+: other := by
  by_cases hroot : other = []
  · subst hroot
    simp [h]
  · simp only [has, entry, hroot, if_false, removeTree,
      lookup_filter (fun p => !place.isPrefixOf p)]
    by_cases hp : place <+: other
    · simp [hp, List.isPrefixOf_iff_prefix.mpr hp]
    · have hnot : place.isPrefixOf other = false :=
        Bool.eq_false_iff.mpr fun h => hp (List.isPrefixOf_iff_prefix.mp h)
      simp only [hnot, hp, Bool.not_false, if_true, not_false_iff, and_true]

@[simp] theorem makeDirs_live (m : Machine) (places : List Place) : (m.makeDirs places).live = m.live := by
  induction places generalizing m with
  | nil => rfl
  | cons place rest ih =>
    refine (ih (m.makeDir place)).trans ?_
    unfold makeDir
    split <;> rfl

@[simp] theorem makeDirs_signals (m : Machine) (places : List Place) :
    (m.makeDirs places).signals = m.signals := by
  induction places generalizing m with
  | nil => rfl
  | cons place rest ih =>
    refine (ih (m.makeDir place)).trans ?_
    unfold makeDir
    split <;> rfl

end Machine

-- ---------------------------------------------------------------------------
-- The operations
-- ---------------------------------------------------------------------------

/-- What wait(2) has to say: that a child ended, that one changed without
ending, and why it stopped waiting. -/
inductive WaitReply
  | exited (pid code : Int)
  | signaled (pid signal : Int)
  | other
  | interrupted
  | noChild
  | failed
  deriving DecidableEq, Repr

def waitOutcome (pid : Int) : List WaitReply → Option (Except String Int)
  | [] => none
  | .exited p code :: rest => if p = pid then some (.ok code) else waitOutcome pid rest
  | .signaled p signal :: rest => if p = pid then some (.ok (128 + signal)) else waitOutcome pid rest
  | .other :: rest => waitOutcome pid rest
  | .interrupted :: rest => waitOutcome pid rest
  | .noChild :: _ => some (.error "the container exited but its exit status was lost")
  | .failed :: _ => some (.error "waiting for the container")

/-- The replies up to one that decides. -/
def Waited (pid : Int) := { replies : List WaitReply // (waitOutcome pid replies).isSome }

def Waited.outcome (replies : Waited pid) : Except String Int := (waitOutcome pid replies.1).get replies.2

/-- What the parts of an operation fail with, one after the other. -/
def acceptMasterErrors : List String :=
  ["accepting the console socket connection", "receiving the pty master over the console socket",
    "console socket carried no pty master fd"]

def startForwardErrors : List String :=
  ["waiting for the container's loopback hook", "receiving the container's namespaces",
    "the loopback hook did not pass both namespaces", "creating the loopback helper's socket",
    "resolving the CLImate executable", "starting the container's loopback helper",
    "waiting for the container's loopback helper", "the helper did not pass the TUN device",
    "starting the LAN relay", "watching the TUN device", "creating the forwarding shutdown pipe"]

def rawModeErrors : List String := ["reading terminal settings", "enabling raw terminal mode"]

def resizeErrors : List String :=
  ["creating the resize pipe", "making the resize pipe non-blocking", "duplicating the pty master for resizes",
    "installing the SIGWINCH handler"]

/-- A path is a directory and what is joined to it. `fuseOverlayfs` answers
with whether the command succeeded, and `buildContainer` with the pid. -/
inductive RunOp
  | uniqueId
  | createDirAll (dir : Place) (relative : List Component)
  | write (dir : Place) (relative : List Component) (contents : String)
  | removeDirAll (place : Place)
  | isDir (place : Place)
  | fuseOverlayfs (options : String) (merged : Place)
  | unmount (merged : Place)
  | cgroup2
  | bindSocket (dir : Place) (name : String)
  | hookProgram
  | subreaper
  | sigaction (signum : Int)
  | statePath
  | isDevNull (stream : String)
  | discardPipe (stream : String)
  | buildContainer (stateRoot : Place) (id : String)
  | acceptMaster
  | storePid (pid : Int)
  | takePending
  | swapForwarded
  | kill (pid signal : Int)
  | startForward (pid : Int)
  | dropForward
  | startContainer
  | rawMode
  | dropRaw
  | resize
  | dropResize
  | wait (pid : Int)
  | joinPump
  | clearPid
  | deleteContainer (stateRoot : Place) (id : String)
  deriving DecidableEq, Repr

/-- `createDirAll` fails with the number of directories on the way that are
there by then, and what has several parts with the one that failed. -/
def RunOp.Res : RunOp → Type
  | .uniqueId => String
  | .createDirAll .. => Except Nat Unit
  | .isDir _ | .cgroup2 | .isDevNull _ | .swapForwarded => Bool
  | .fuseOverlayfs .. => Except IoError Bool
  | .buildContainer .. => Except IoError (Option Int)
  | .takePending => Int
  | .wait pid => Waited pid
  | .acceptMaster => Except (Fin acceptMasterErrors.length) Unit
  | .startForward _ => Except (Fin startForwardErrors.length) Unit
  | .rawMode => Except (Fin rawModeErrors.length) Unit
  | .resize => Except (Fin resizeErrors.length) Unit
  | .write .. | .bindSocket .. | .hookProgram | .subreaper | .sigaction _ | .statePath | .discardPipe _
  | .startContainer => Except IoError Unit
  | .removeDirAll _ | .unmount _ | .storePid _ | .kill .. | .dropForward | .dropRaw | .dropResize
  | .joinPump | .clearPid | .deleteContainer .. => Unit

def fileAt (dir : Place) (relative : List Component) : Option Place :=
  match relative.getLast? with
  | some (.normal _) => some (resolve dir relative)
  | _ => none

def dirsOf (dir : Place) (relative : List Component) : List Place := ancestry dir ++ walk dir relative

def Machine.Fills (m : Machine) (dir : Place) (relative : List Component) (contents : String)
    (m' : Machine) : Prop :=
  ∃ place, fileAt dir relative = some place ∧ m.isDir place = false ∧ m' = m.put place (.file contents)

def Machine.create (m : Machine) (stateRoot : Place) (id : String) : Machine :=
  { m.makeDirs [stateRoot ++ [id]] with live := id :: m.live }

def Machine.delete (m : Machine) (stateRoot : Place) (id : String) : Machine :=
  { m.removeTree (stateRoot ++ [id]) with live := m.live.filter (· ≠ id) }

/-- Unmounting and deleting succeed. -/
def RunOp.effect : (op : RunOp) → Machine → op.Res → Machine → Prop
  | .uniqueId, m, r, m' => m' = m ∧ m.Unused r ∧ r ≠ ""
  | .createDirAll dir relative, m, r, m' => match r with
    | .ok () => m' = m.makeDirs (dirsOf dir relative)
    | .error made => made < dir.length + relative.length ∧ m' = m.makeDirs ((dirsOf dir relative).take made)
  | .write dir relative contents, m, r, m' => match r with
    | .ok () => m.Fills dir relative contents m'
    | .error _ => m' = m ∨ ∃ part, m.Fills dir relative part m'
  | .removeDirAll place, m, _, m' => m' = m.removeTree place
  | .isDir place, m, r, m' => m' = m ∧ r = m.isDir place
  | .bindSocket dir name, m, r, m' => match r with
    | .ok () => m.has (dir ++ [name]) = false ∧ m' = m.put (dir ++ [name]) .socket
    | .error _ => m' = m
  | .sigaction signum, m, r, m' => match r with
    | .ok () => m' = { m with signals := { m.signals with installed := signum :: m.signals.installed } }
    | .error _ => m' = m
  -- What a container that could not be built leaves is its library's affair.
  | .buildContainer stateRoot id, m, r, m' => match r with
    | .ok _ => m' = m.create stateRoot id
    | .error _ => m' = m ∨ m' = m.create stateRoot id
  | .storePid pid, m, _, m' =>
    m' = { m with signals := { m.signals with containerPid := pid }.note (.stored pid) }
  | .takePending, m, r, m' =>
    r = m.signals.pending ∧ m' = { m with signals := { m.signals with pending := 0 }.note .took }
  | .swapForwarded, m, r, m' =>
    r = m.signals.forwarded ∧ m' = { m with signals := { m.signals with forwarded := true }.note .swapped }
  | .kill pid signal, m, _, m' => m' = { m with signals := m.signals.note (.delivered pid signal) }
  | .wait pid, m, r, m' => match r.outcome with
    | .ok _ => m' = { m with signals := m.signals.note (.reaped pid) }
    | .error _ => m' = m
  | .clearPid, m, _, m' =>
    m' = { m with signals := { m.signals with containerPid := 0 }.note .cleared }
  | .deleteContainer stateRoot id, m, _, m' => m' = m.delete stateRoot id
  | .fuseOverlayfs .., m, _, m' | .unmount _, m, _, m' | .cgroup2, m, _, m' | .hookProgram, m, _, m'
  | .subreaper, m, _, m' | .statePath, m, _, m' | .isDevNull _, m, _, m' | .discardPipe _, m, _, m'
  | .acceptMaster, m, _, m' | .startForward _, m, _, m' | .dropForward, m, _, m'
  | .startContainer, m, _, m' | .rawMode, m, _, m' | .dropRaw, m, _, m' | .resize, m, _, m'
  | .dropResize, m, _, m' | .joinPump, m, _, m' => m' = m

abbrev runOps : Interface where
  Op := RunOp
  Res := RunOp.Res

abbrev RunAct := Prog runOps

/-- The handler runs, whole, for a signal that has one. -/
def Handled (m m' : Machine) : Prop :=
  ∃ signum ∈ m.signals.installed, m' = { m with signals := forwardSignal signum m.signals }

namespace Workshop

instance (m : Machine) (id : String) : Decidable (m.Unused id) := inferInstanceAs (Decidable (_ ∧ _))

def tried (refused : List RunOp) (op : RunOp) (failure : ε) : Except ε Unit :=
  if op ∈ refused then .error failure else .ok ()

def attempted (refused : List RunOp) (op : RunOp) (m : Machine) (done : Option Machine) :
    Option (Except IoError Unit × Machine) :=
  if op ∈ refused then some (.error .other, m) else done.map fun m' => (.ok (), m')

/-- Does what it is asked unless it refuses. Its containers have the pid 100,
and exit by themselves. -/
def obliging (refused : List RunOp) : (op : RunOp) → Machine → Option (op.Res × Machine)
  | .uniqueId, m => (["7-1", "7-2"].find? fun id => m.Unused id).map fun id => (id, m)
  | .createDirAll dir relative, m => some (.ok (), m.makeDirs (dirsOf dir relative))
  | .write dir relative contents, m => attempted refused (.write dir relative contents) m
      (((fileAt dir relative).filter fun place => !m.isDir place).map fun place => m.put place (.file contents))
  | .removeDirAll place, m => some ((), m.removeTree place)
  | .isDir place, m => some (m.isDir place, m)
  | .fuseOverlayfs _ _, m => some (.ok true, m)
  | .cgroup2, m => some (decide (.cgroup2 ∉ refused), m)
  | .bindSocket dir name, m => attempted refused (.bindSocket dir name) m
      (if m.has (dir ++ [name]) then none else some (m.put (dir ++ [name]) .socket))
  | .sigaction signum, m => attempted refused (.sigaction signum) m
      (some { m with signals := { m.signals with installed := signum :: m.signals.installed } })
  | .isDevNull _, m => some (false, m)
  | .buildContainer stateRoot id, m => some (.ok (some 100), m.create stateRoot id)
  | .storePid pid, m =>
    some ((), { m with signals := { m.signals with containerPid := pid }.note (.stored pid) })
  | .takePending, m =>
    some (m.signals.pending, { m with signals := { m.signals with pending := 0 }.note .took })
  | .swapForwarded, m =>
    some (m.signals.forwarded, { m with signals := { m.signals with forwarded := true }.note .swapped })
  | .kill pid signal, m => some ((), { m with signals := m.signals.note (.delivered pid signal) })
  | .wait pid, m =>
    some (⟨[.exited pid 0], by simp [waitOutcome]⟩, { m with signals := m.signals.note (.reaped pid) })
  | .clearPid, m => some ((), { m with signals := { m.signals with containerPid := 0 }.note .cleared })
  | .deleteContainer stateRoot id, m => some ((), m.delete stateRoot id)
  | .hookProgram, m => some (tried refused .hookProgram .other, m)
  | .subreaper, m => some (tried refused .subreaper .other, m)
  | .statePath, m => some (tried refused .statePath .other, m)
  | .discardPipe stream, m => some (tried refused (.discardPipe stream) .other, m)
  | .acceptMaster, m => some (tried refused .acceptMaster ⟨0, by decide⟩, m)
  | .startForward pid, m => some (tried refused (.startForward pid) ⟨0, by decide⟩, m)
  | .startContainer, m => some (tried refused .startContainer .other, m)
  | .rawMode, m => some (tried refused .rawMode ⟨0, by decide⟩, m)
  | .resize, m => some (tried refused .resize ⟨0, by decide⟩, m)
  | .unmount _, m => some ((), m)
  | .dropForward, m => some ((), m)
  | .dropRaw, m => some ((), m)
  | .dropResize, m => some ((), m)
  | .joinPump, m => some ((), m)

theorem attempted_eq {op : RunOp} {done : Option Machine} (h : attempted refused op m done = some (r, m')) :
    ((∃ e, r = .error e) ∧ m' = m) ∨ r = .ok () ∧ done = some m' := by
  unfold attempted at h
  split at h
  · cases h
    exact .inl ⟨⟨_, rfl⟩, rfl⟩
  · obtain ⟨m₁, hdone, heq⟩ := Option.map_eq_some_iff.mp h
    cases heq
    exact .inr ⟨rfl, hdone⟩

theorem obliging_sound (op : RunOp) (r : op.Res) (h : obliging refused op m = some (r, m')) :
    RunOp.effect op m r m' := by
  cases op with
  | uniqueId =>
    obtain ⟨(id : String), hfind, heq⟩ := Option.map_eq_some_iff.mp h
    have hunused := List.find?_some hfind
    have hne : id ≠ "" := by
      rintro rfl
      simpa using List.mem_of_find?_eq_some hfind
    cases heq
    exact ⟨rfl, by simpa using hunused, hne⟩
  | write dir relative contents =>
    rcases attempted_eq h with ⟨⟨e, rfl⟩, rfl⟩ | ⟨rfl, hdone⟩
    · exact .inl rfl
    · obtain ⟨place, hplace, rfl⟩ := Option.map_eq_some_iff.mp hdone
      obtain ⟨hfile, hnot⟩ := Option.filter_eq_some_iff.mp hplace
      exact ⟨place, hfile, by simpa using hnot, rfl⟩
  | bindSocket dir name =>
    rcases attempted_eq h with ⟨⟨e, rfl⟩, rfl⟩ | ⟨rfl, hdone⟩
    · rfl
    · by_cases hthere : m.has (dir ++ [name]) = true
      · rw [if_pos hthere] at hdone
        cases hdone
      · rw [if_neg hthere] at hdone
        cases hdone
        exact ⟨by simpa using hthere, rfl⟩
  | sigaction signum =>
    rcases attempted_eq h with ⟨⟨e, rfl⟩, rfl⟩ | ⟨rfl, hdone⟩
    · rfl
    · cases hdone
      rfl
  | wait pid =>
    cases h
    have hout : @Waited.outcome pid ⟨[.exited pid 0], by simp [waitOutcome]⟩ = .ok 0 := by
      simp [Waited.outcome, waitOutcome]
    simp only [RunOp.effect, hout]
  | isDir place | takePending | swapForwarded =>
    cases h
    exact ⟨rfl, rfl⟩
  | _ =>
    cases h
    rfl

def worker (refused : List RunOp) : Handler (I := runOps) RunOp.effect where
  answer := obliging refused
  sound := obliging_sound _ _

end Workshop

end Climate.Runtime
