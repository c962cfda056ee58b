import Climate.Lib.Calls
import Climate.Lib.Interrupt
import Climate.Net.Forward

/-!
# The helper

The part of forward.rs in which the run asks another process for sockets. The
helper is inside the container's namespaces and answers one request after the
other; it may stop at any time, and the services of both sides may change at
any time. What the run does is a program, with the helper's steps, the changes
of the services and the end of the run falling in between.
-/

namespace Climate.Forwarder

open Forward (Port SocketAddr Listener listeningPorts loopbackAddrs minus)
open Calls

-- ---------------------------------------------------------------------------
-- Descriptors
-- ---------------------------------------------------------------------------

inductive Side
  | host
  | container
  deriving DecidableEq, Repr

def Side.other : Side → Side
  | .host => .container
  | .container => .host

def side (inbound : Bool) : Side := if inbound then .host else .container

/-- What a descriptor leads to: a socket, which stays in the namespace it was
made in, or the TUN device. -/
inductive Fd
  | listening (side : Side) (addr : SocketAddr)
  | accepted (side : Side) (addr : SocketAddr)
  | connected (side : Side) (addr : SocketAddr)
  | tun
  deriving DecidableEq, Repr

/-- What /proc/net shows of a descriptor among the listeners of a side. -/
def Fd.listener (s : Side) : Fd → Option Listener
  | .listening side addr => if side = s then some { addr } else none
  | _ => none

-- ---------------------------------------------------------------------------
-- Requests
-- ---------------------------------------------------------------------------

abbrev Byte := BitVec 8

def opListen : Byte := 0x4c

def opConnect : Byte := 0x43

def low (port : Port) : Byte := port.extractLsb' 0 8

def high (port : Port) : Byte := port.extractLsb' 8 8

def fromLeBytes (low high : Byte) : Port := high ++ low

@[simp] theorem fromLeBytes_low_high (port : Port) : fromLeBytes (low port) (high port) = port := by
  ext i hi
  simp [fromLeBytes, low, high]
  grind

/-- What the helper is doing: joining the namespaces, creating the TUN device
if it is to, trying one address after the other, or about to answer. -/
inductive Making
  | starting (localnet : Bool)
  | inside (localnet : Bool)
  | listening (todo : List SocketAddr) (made : List Fd)
  | connecting (todo : List SocketAddr)
  | made (fds : List Fd)
  deriving DecidableEq, Repr

/-- How the helper takes a request, in a buffer of three bytes. -/
def accept (request : List Byte) : Making :=
  let port := fromLeBytes (request.getD 1 0) (request.getD 2 0)
  if request.getD 0 0 = opListen then .listening (loopbackAddrs port) []
  else if request.getD 0 0 = opConnect then .connecting (loopbackAddrs port)
  else .made []

def Making.fds : Making → List Fd
  | .listening _ fds | .made fds => fds
  | _ => []

def Making.answer : Making → Option (List Fd)
  | .made fds => some fds
  | _ => none

-- ---------------------------------------------------------------------------
-- The state
-- ---------------------------------------------------------------------------

/-- What the run has: its descriptors, whether its copies of the helper's end
of the socket pair are among them, what it has started the LAN relay with, the
connections it has joined, what it did not make itself of what its scans have
shown, and how often it has polled the shutdown pipe once that was closed. -/
structure Own where
  held : List Fd := []
  theirs : Bool := false
  relay : List Fd := []
  joined : List (Fd × Fd) := []
  scans : List (Side × List Listener) := []
  late : Nat := 0
  deriving DecidableEq, Repr

namespace Own

def holding (own : Own) (held : List Fd) : Own := { own with held }

def hold (own : Own) (fds : List Fd) : Own := own.holding (own.held ++ fds)

def drop (own : Own) (fd : Fd) : Own := own.holding (own.held.erase fd)

def saw (own : Own) (side : Side) (listeners : List Listener) : Own :=
  { own with scans := own.scans ++ [(side, listeners)] }

def join (own : Own) (near far : Fd) : Own := { own with joined := own.joined ++ [(near, far)] }

def poll (own : Own) (quit : Bool) : Own := { own with late := if quit then own.late + 1 else own.late }

@[simp] theorem holding_held (own : Own) (held : List Fd) : (own.holding held).held = held := rfl

@[simp] theorem holding_theirs (own : Own) (held : List Fd) : (own.holding held).theirs = own.theirs := rfl

@[simp] theorem holding_scans (own : Own) (held : List Fd) : (own.holding held).scans = own.scans := rfl

@[simp] theorem holding_holding (own : Own) (held held' : List Fd) :
    (own.holding held).holding held' = own.holding held' := rfl

@[simp] theorem holding_self (own : Own) : own.holding own.held = own := rfl

@[simp] theorem hold_held (own : Own) (fds : List Fd) : (own.hold fds).held = own.held ++ fds := rfl

@[simp] theorem hold_theirs (own : Own) (fds : List Fd) : (own.hold fds).theirs = own.theirs := rfl

@[simp] theorem hold_nil (own : Own) : own.hold [] = own := by
  simp [hold]

@[simp] theorem hold_hold (own : Own) (fds more : List Fd) : (own.hold fds).hold more =
    own.hold (fds ++ more) := by
  simp [hold]

@[simp] theorem saw_held (own : Own) (side : Side) (listeners : List Listener) :
    (own.saw side listeners).held = own.held := rfl

@[simp] theorem saw_theirs (own : Own) (side : Side) (listeners : List Listener) :
    (own.saw side listeners).theirs = own.theirs := rfl

@[simp] theorem join_held (own : Own) (near far : Fd) : (own.join near far).held = own.held := rfl

end Own

/-- Where the main thread is with the dropping of the `Forwarder`: not there
yet, past the signal that kills the helper, past closing the shutdown pipe, or
past joining the forwarding thread. -/
inductive Main
  | running
  | killed
  | quit
  | joined
  deriving DecidableEq, Repr

/-- `pending` are the connections that wait at the run's listeners, each by its
listener, and `ended` is whether the forwarding thread has returned. -/
structure Net where
  services : Side → List Listener
  own : Own := {}
  pending : List Fd := []
  entered : Bool := false
  main : Main := .running
  ended : Bool := false

def Main.quitClosed : Main → Bool
  | .running | .killed => false
  | .quit | .joined => true

abbrev State := Wire Net (List Byte) (List Fd) Making

def Net.listeners (n : Net) (s : Side) (others : List Fd) : List Listener :=
  n.services s ++ (n.own.held ++ others).filterMap (Fd.listener s)

/-- One thing the helper does. A bind is refused where the address is taken,
and any step may be refused for reasons of its own. -/
inductive Move : Net → Making → Net → Making → Prop
  | enter : Move n (.starting localnet) { n with entered := true } (.inside localnet)
  | createTun : Move n (.inside true) n (.made [.tun])
  | noTun : Move n (.inside false) n (.made [])
  | bind : (n.listeners .container made).any (·.takes addr) = false →
      Move n (.listening (addr :: todo) made) n (.listening todo (made ++ [.listening .container addr]))
  | refuse : Move n (.listening (addr :: todo) made) n (.listening todo made)
  | bound : Move n (.listening [] made) n (.made made)
  | connect : (n.listeners .container []).any (·.takes addr) = true →
      Move n (.connecting (addr :: todo)) n (.made [.connected .container addr])
  | unreachable : Move n (.connecting (addr :: todo)) n (.connecting todo)
  | alone : Move n (.connecting []) n (.made [])

def helper : Server Net (List Byte) (List Fd) Making where
  accept := accept
  Move := Move
  answer := Making.answer

/-- What changes without the helper and without the forwarding thread. -/
inductive Drift : Net → Net → Prop
  | services : Drift n { n with services := services }
  | arrive {place : Side} : .listening place addr ∈ n.own.held →
      Drift n { n with pending := n.pending ++ [.listening place addr] }
  | kill : n.main = .running → Drift n { n with main := .killed }
  | quit : n.main = .killed → Drift n { n with main := .quit }
  | join : n.main = .quit → n.ended = true → Drift n { n with main := .joined }

abbrev Meanwhile : State → State → Prop := Turn helper Drift

def lingering (s : State) : List Fd :=
  s.answers.flatten ++ match s.server with
    | .busy w | .resting w => w.fds
    | .idle | .gone => []

/-- What listens on a side and is none of the run's. -/
def others (s : State) (side : Side) : List Listener :=
  s.world.services side ++ ((lingering s).filter (· ∉ s.world.own.held)).filterMap (Fd.listener side)

inductive Table
  | tcp
  | tcp6
  deriving DecidableEq, Repr

def table (l : Listener) : Table :=
  match l.addr.ip with
  | .v4 _ => .tcp
  | .v6 _ => .tcp6

/-- What there is of listeners in the tables that can be read. -/
def shown (readable : Table → Bool) (listeners : List Listener) : List Listener :=
  listeners.filter fun l => readable (table l)

-- ---------------------------------------------------------------------------
-- The operations
-- ---------------------------------------------------------------------------

/-- `send` and `receive` are one message on the socket pair. `listen` is
`listen_on_addr` and `connect` is `connect_to_addr`, both on the host. `join`
is `pump`. -/
inductive BridgeOp
  | spawn (localnet : Bool)
  | closeSources
  | startRelay (device : Fd)
  | pipe
  | send (bytes : List Byte)
  | receive
  | scan (side : Side)
  | iterate (ports : List Port)
  | listen (addr : SocketAddr)
  | connect (addr : SocketAddr)
  | accept (listener : Fd)
  | join (near far : Fd)
  | close (fd : Fd)
  | due
  | poll (listeners : List Fd)
  | hangUp
  deriving DecidableEq, Repr

/-- `poll` answers with whether the shutdown pipe is closed and with which of
the listeners are ready. -/
def BridgeOp.Res : BridgeOp → Type
  | .spawn _ | .startRelay _ | .pipe | .send _ | .due => Bool
  | .closeSources | .join .. | .close _ | .hangUp => Unit
  | .receive => Option (List Fd)
  | .scan _ | .iterate _ => List Port
  | .listen _ | .connect _ | .accept _ => Option Fd
  | .poll _ => Option (Bool × List Bool)

def State.withOwn (s : State) (own : Own) : State := { s with world := { s.world with own } }

def State.take (s : State) (listener : Fd) : State :=
  { s with world := { s.world with pending := s.world.pending.erase listener } }

/-- What waits at a listener goes with it. -/
def State.close (s : State) (fd : Fd) : State :=
  { s with world := { s.world with own := s.world.own.drop fd, pending := s.world.pending.filter (· ≠ fd) } }

/-- An operation that gives a descriptor, or nothing. -/
def Gives (s : State) (r : Option Fd) (s' : State) (fd : Fd) (possible : Prop) : Prop :=
  match r with
  | some given => given = fd ∧ possible ∧ s' = s.withOwn (s.world.own.hold [fd])
  | none => s' = s

/-- Descriptors that find no room in the receiving process are dropped. Its
end of the pair is at its end once no process has the other one open. To
accept is to wait for a connection, where none is there yet, and may fail
with the connection or without; to poll is to wait no longer than the time
between two scans. A scan leaves out the tables it cannot read. -/
def BridgeOp.effect : (op : BridgeOp) → State → op.Res → State → Prop
  | .spawn localnet, s, r, s' => match (r : Bool) with
    | true => s' = { s.withOwn { s.world.own with theirs := true } with server := .busy (.starting localnet) }
    | false => s' = s
  | .closeSources, s, _, s' => s' = s.withOwn { s.world.own with theirs := false }
  | .startRelay device, s, r, s' => match (r : Bool) with
    | true => s' = s.withOwn { s.world.own.drop device with relay := s.world.own.relay ++ [device] }
    | false => s' = s.withOwn (s.world.own.drop device)
  | .pipe, s, _, s' | .due, s, _, s' => s' = s
  | .send bytes, s, r, s' => match (r : Bool) with
    | true => s.server ≠ .gone ∧ s' = { s with calls := s.calls ++ [bytes] }
    | false => s' = s
  | .receive, s, r, s' => match r with
    | some fds => ∃ sent rest, s.answers = sent :: rest ∧ fds <+: sent ∧
        s' = { s.withOwn (s.world.own.hold fds) with answers := rest }
    | none => s.answers = [] ∧ s.server = .gone ∧ s.world.own.theirs = false ∧ s' = s
  | .scan side, s, r, s' => ∃ readable : Table → Bool,
    r = listeningPorts (shown readable (others s side ++ s.world.own.held.filterMap (Fd.listener side))) ∧
      s' = s.withOwn (s.world.own.saw side (shown readable (others s side)))
  | .iterate ports, s, r, s' => List.Perm r ports ∧ s' = s
  | .listen addr, s, r, s' =>
    Gives s r s' (.listening .host addr) ((s.world.listeners .host []).any (·.takes addr) = false)
  | .connect addr, s, r, s' =>
    Gives s r s' (.connected .host addr) ((s.world.listeners .host []).any (·.takes addr) = true)
  | .accept listener, s, r, s' => match listener with
    | .listening side addr => listener ∈ s.world.pending ∧
        (Gives (s.take listener) r s' (.accepted side addr) True ∨ r = none ∧ s' = s)
    | _ => r = none ∧ s' = s
  | .join near far, s, _, s' =>
    s' = s.withOwn (((s.world.own.drop near).drop far).join near far) ∨
      s' = s.withOwn ((s.world.own.drop near).drop far)
  | .close fd, s, _, s' => s' = s.close fd
  | .poll listeners, s, r, s' => match r with
    | some (quit, ready) => quit = s.world.main.quitClosed ∧ ready.length = listeners.length ∧
        (∀ pair ∈ listeners.zip ready, pair.2 = true → pair.1 ∈ s.world.pending) ∧
        s' = s.withOwn (s.world.own.poll quit)
    | none => s' = s
  | .hangUp, s, _, s' => s' = { s with world := { s.world with ended := true } }

abbrev bridgeOps : Interface where
  Op := BridgeOp
  Res := BridgeOp.Res

abbrev BridgeAct := Prog bridgeOps

-- ---------------------------------------------------------------------------
-- The program
-- ---------------------------------------------------------------------------

def orStopped (r : Option (List Fd)) : Except String (List Fd) :=
  r.elim (.error "the other side of the loopback bridge stopped") .ok

def orElse (message : String) (r : Bool) : Except String Unit := if r then .ok () else .error message

def recvFds : BridgeAct (List Fd) := .ask .receive orStopped

def request (op : Byte) (port : Port) : BridgeAct (List Fd) := do
  let written : Bool ← .ask (.send [op, low port, high port]) .ok
  if written then do
    let reply ← recvFds.attempt
    return reply.toOption.getD []
  else return []

def listenEach : List SocketAddr → BridgeAct (List Fd)
  | [] => return []
  | addr :: rest => do
    let fd : Option Fd ← .ask (.listen addr) .ok
    let fds ← listenEach rest
    return fd.toList ++ fds

def listenOn (port : Port) : BridgeAct (List Fd) := listenEach (loopbackAddrs port)

def connectFirst : List SocketAddr → BridgeAct (Option Fd)
  | [] => return none
  | addr :: rest => do
    let fd : Option Fd ← .ask (.connect addr) .ok
    match fd with
    | some fd => return some fd
    | none => connectFirst rest

def connectTo (port : Port) : BridgeAct (Option Fd) := connectFirst (loopbackAddrs port)

structure Mirror where
  listener : Fd
  port : Port
  inbound : Bool
  deriving DecidableEq, Repr

def closeAll (fds : List Fd) : BridgeAct Unit := fds.forM fun fd => .ask (.close fd) .ok

def pop (fds : List Fd) : BridgeAct (Option Fd) := do
  closeAll fds.dropLast
  return fds.getLast?

def complete (near : Fd) : Option Fd → BridgeAct Unit
  | some far => .ask (.join near far) .ok
  | none => .ask (.close near) .ok

/-- A connection to a mirror's port on the side it is not on. -/
def farHalf (mirror : Mirror) : BridgeAct (Option Fd) :=
  if mirror.inbound then request opConnect mirror.port >>= pop else connectTo mirror.port

/-- Each half is made in the namespace it belongs to. -/
def serve (mirror : Mirror) : BridgeAct Unit := do
  let near : Option Fd ← .ask (.accept mirror.listener) .ok
  match near with
  | none => return
  | some near => do
    let far ← farHalf mirror
    complete near far

def ports (inbound : Bool) (mirrors : List Mirror) : List Port :=
  ((mirrors.filter (·.inbound = inbound)).map (·.port)).dedup

def mirrorEach (make : Port → BridgeAct (List Fd)) (inbound : Bool) :
    List Port → List Mirror → BridgeAct (List Mirror)
  | [], mirrors => return mirrors
  | port :: rest, mirrors => do
    let listeners ← make port
    mirrorEach make inbound rest (mirrors ++ listeners.map fun listener => ⟨listener, port, inbound⟩)

def wanted (inbound outbound : List Port) (m : Mirror) : Bool :=
  (if m.inbound then inbound else outbound).contains m.port

def rescan (mirrors : List Mirror) : BridgeAct (List Mirror) := do
  let oursHost := ports true mirrors
  let oursContainer := ports false mirrors
  let host : List Port ← .ask (.scan .host) .ok
  let container : List Port ← .ask (.scan .container) .ok
  let host := minus host oursHost
  let container := minus container oursContainer
  let outbound := minus host container
  let inbound := minus container host
  closeAll ((mirrors.filter fun m => !wanted inbound outbound m).map (·.listener))
  let kept := mirrors.filter (wanted inbound outbound)
  let toContainer : List Port ← .ask (.iterate (minus outbound oursContainer)) .ok
  let mirrors ← mirrorEach (request opListen) false toContainer kept
  let toHost : List Port ← .ask (.iterate (minus inbound oursHost)) .ok
  mirrorEach listenOn true toHost mirrors

def refresh (mirrors : List Mirror) : Bool → BridgeAct (List Mirror)
  | true => rescan mirrors
  | false => return mirrors

/-- A listener that is ready has a connection waiting. -/
def serveReady : Mirror × Bool → BridgeAct Unit
  | (mirror, true) => serve mirror
  | (_, false) => return

def finish (mirrors : List Mirror) : BridgeAct Bool := do
  closeAll (mirrors.map (·.listener))
  .ask .hangUp .ok
  return true

/-- So many rounds of the loop. The answer is whether it has ended by then. -/
def forwardLoop : Nat → List Mirror → BridgeAct Bool
  | 0, _ => return false
  | rounds + 1, mirrors => do
    let due : Bool ← .ask .due .ok
    let mirrors ← refresh mirrors due
    let polled : Option (Bool × List Bool) ← .ask (.poll (mirrors.map (·.listener))) .ok
    match polled with
    | none => finish mirrors
    | some (true, _) => finish mirrors
    | some (false, ready) => do
      (mirrors.zip ready).forM serveReady
      forwardLoop rounds mirrors

def startRelay : Option Fd → BridgeAct Unit
  | some device => .ask (.startRelay device) (orElse "starting the LAN relay")
  | none => .throw "the helper did not pass the TUN device"

def onlyIf (wanted : Bool) (act : BridgeAct Unit) : BridgeAct Unit := if wanted then act else pure ()

def start (localnet : Bool) : BridgeAct Unit := do
  .ask (.spawn localnet) (orElse "starting the container's loopback helper")
  .ask .closeSources .ok
  let fds ← recvFds
  onlyIf localnet (startRelay fds.head?)
  .ask .pipe (orElse "creating the forwarding shutdown pipe")

def forward (localnet : Bool) (rounds : Nat) : BridgeAct Bool := do
  start localnet
  forwardLoop rounds []

def initial (services : Side → List Listener) : State where
  world := { services }
  server := .gone

end Climate.Forwarder
