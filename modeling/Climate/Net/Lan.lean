import Climate.Lib.Exec
import Climate.Lib.Interrupt
import Climate.Net.Forward
import Climate.Net.RouteTable

/-!
# The LAN relay

The part of localnet.rs that takes what the container sends to an address and
sends it on from a socket of the host. The host's routes may change at any
time, between the two files that show them too, and so may what arrives.
-/

namespace Climate.Lan

open Prog
open Relation (ReflTransGen)
open Forward (SocketAddr)

-- ---------------------------------------------------------------------------
-- The host
-- ---------------------------------------------------------------------------

abbrev Byte := BitVec 8

inductive Family
  | v4
  | v6
  deriving DecidableEq, Repr

def family : IpAddr → Family
  | .v4 _ => .v4
  | .v6 _ => .v6

structure Tables where
  rows4 : List Ipv4Entry
  rows6 : List Ipv6Entry

namespace Tables

def routes4 (t : Tables) : List Route := (t.rows4.filter (·.isUp)).map (·.route)

def routes6 (t : Tables) : List Route := (t.rows6.filter (·.isUp)).map (·.route)

def routes (t : Tables) : List Route := t.routes4 ++ t.routes6

def onto (t : Tables) (device : String) : List Route := t.routes.filter (·.device = device)

def text (e : Endian) (header : Header) (t : Tables) : Family → String
  | .v4 => closed (header.text :: t.rows4.map (·.print e))
  | .v6 => closed (t.rows6.map (·.print))

end Tables

inductive Protocol
  | tcp
  | udp
  deriving DecidableEq, Repr

/-- What has left the host, with the route it took and the routes there were. -/
structure Packet where
  dest : SocketAddr
  payload : List Byte
  route : Route
  tables : Tables

/-- What has come to the socket. `early` is whether that was before the socket
was connected. -/
structure Datagram where
  source : SocketAddr
  device : String
  payload : List Byte
  early : Bool
  deriving DecidableEq, Repr

/-- The host and one flow. `asked` is what was read of the tables, and of which
family. The container has `spoken` and `taken` of that has been read; `arrived`
and `heard` are the same of the socket, `left` is what was sent from it, and
`given` what was handed to the container. -/
structure State where
  tables : Tables
  asked : List (Family × Tables) := []
  socket : Option Protocol := none
  device : Option String := none
  peer : Option SocketAddr := none
  spoken : List (List Byte) := []
  taken : List (List Byte) := []
  arrived : List Datagram := []
  heard : List Datagram := []
  left : List Packet := []
  given : List (List Byte) := []
  shut : Bool := false

def State.Sends (s : State) (dest : SocketAddr) (r : Route) : Prop :=
  match s.device with
  | some device => Routed (s.tables.onto device) dest.ip r
  | none => Routed s.tables.routes dest.ip r

def State.leave (s : State) (dest : SocketAddr) (payload : List Byte) (r : Route) : State :=
  { s with left := s.left ++ [⟨dest, payload, r, s.tables⟩] }

/-- A socket that is connected takes what comes from its peer, and one that is
held to a device what comes in by that. -/
def State.Takes (s : State) (d : Datagram) : Prop :=
  s.socket.isSome = true ∧ (s.socket = some .tcp → s.peer.isSome = true) ∧
    (∀ peer, s.peer = some peer → d.source = peer) ∧
    (∀ device, s.device = some device → d.device = device) ∧ d.early = s.peer.isNone

/-- What happens without the relay. The kernel sends for a TCP socket whenever
it sees fit. -/
inductive Meanwhile (s : State) : State → Prop
  | routes (tables : Tables) : Meanwhile s { s with tables }
  | speak (l : List Byte) : Meanwhile s { s with spoken := s.spoken ++ [l] }
  | arrive (d : Datagram) : s.Takes d → Meanwhile s { s with arrived := s.arrived ++ [d] }
  | transmit (payload : List Byte) : s.socket = some .tcp → s.peer = some dest → s.Sends dest r →
      Meanwhile s (s.leave dest payload r)

-- ---------------------------------------------------------------------------
-- The operations
-- ---------------------------------------------------------------------------

inductive Selected
  | read (r : Option (List Byte))
  | received (r : Option (List Byte))
  deriving DecidableEq, Repr

inductive LanOp
  | table (family : Family)
  | socket (protocol : Protocol) (family : Family)
  | bindDevice (device : String)
  | connect (target : SocketAddr)
  | select
  | send (l : List Byte)
  | write (l : List Byte)
  | shutdown
  deriving DecidableEq, Repr

def LanOp.Res : LanOp → Type
  | .table _ => Option String
  | .select => Selected
  | .write _ => Option Nat
  | _ => Bool

def LanOp.opens : LanOp → Bool
  | .table _ | .socket _ _ | .bindDevice _ | .connect _ => true
  | _ => false

abbrev Inside := List Byte → Nat → Prop

/-- The kernel of a host prints its tables, the reading of which may fail. A
connection is asked for with a packet of its own, a UDP socket is connected
without. A read of the container's side takes a datagram, and what a write
takes goes as one. -/
def LanOp.effect (e : Endian) (header : Header) (inside : Inside) : (op : LanOp) → State → op.Res → State → Prop
  | .table family, s, r, s' => match r with
    | some text => text = s.tables.text e header family ∧ s' = { s with asked := s.asked ++ [(family, s.tables)] }
    | none => s' = s
  | .socket protocol _, s, r, s' => match (r : Bool) with
    | true => s' = { s with socket := some protocol }
    | false => s' = s
  | .bindDevice device, s, r, s' => match (r : Bool) with
    | true => s' = { s with device := some device }
    | false => s' = s
  | .connect target, s, r, s' => match (r : Bool) with
    | true => (s.socket = some .udp ∧ s' = { s with peer := some target }) ∨
        s.socket = some .tcp ∧ ∃ route, s.Sends target route ∧
          s' = { s.leave target [] route with peer := some target }
    | false => s' = s ∨ s.socket = some .tcp ∧ ∃ route, s.Sends target route ∧ s' = s.leave target [] route
  | .select, s, r, s' => match r with
    | .read (some l) => (s.taken ++ [l] <+: s.spoken ∧ s' = { s with taken := s.taken ++ [l] }) ∨ l = [] ∧ s' = s
    | .received (some l) => ∃ d, s.heard ++ [d] <+: s.arrived ∧ d.payload = l ∧
        s' = { s with heard := s.heard ++ [d] }
    | .read none | .received none => s' = s
  | .send l, s, r, s' => match (r : Bool) with
    | true => ∃ dest route, s.peer = some dest ∧ s.Sends dest route ∧ s' = s.leave dest l route
    | false => s' = s
  | .write l, s, r, s' => match (r : Option Nat) with
    | some (n + 1) => n < l.length ∧ inside l (n + 1) ∧ s' = { s with given := s.given ++ [l.take (n + 1)] }
    | some 0 | none => s' = s
  | .shutdown, s, _, s' => s' = { s with shut := true }

abbrev lanOps : Interface where
  Op := LanOp
  Res := LanOp.Res

abbrev LanAct := Prog lanOps

-- ---------------------------------------------------------------------------
-- The program
-- ---------------------------------------------------------------------------

def orElse (message : String) (r : Bool) : Except String Unit := if r then .ok () else .error message

/-- A table that cannot be read is taken for an empty one. -/
def routesNow (e : Endian) : LanAct (List Route) := do
  let v4 : Option String ← .ask (.table .v4) .ok
  let v6 : Option String ← .ask (.table .v6) .ok
  return routes e (v4.getD "") (v6.getD "")

def egressNow (e : Endian) (ip : IpAddr) : LanAct (Option String) :=
  if isUnicast ip then do
    let routes ← routesNow e
    return egress routes ip
  else return none

def connected (protocol : Protocol) (device : String) (target : SocketAddr) : LanAct Unit := do
  .ask (.socket protocol (family target.ip)) (orElse "creating a socket")
  .ask (.bindDevice device) (orElse "binding a socket to a device")
  .ask (.connect target) (orElse "connecting a socket")

def connectTcp (e : Endian) (target : SocketAddr) : LanAct Unit := do
  let device ← egressNow e target.ip
  match device with
  | some device => connected .tcp device target
  | none => .throw "permission denied"

def relayTcp (e : Endian) (copyBidirectional : LanAct Unit) (target : SocketAddr) : LanAct Unit := do
  let outside ← (connectTcp e target).attempt
  match outside with
  | .ok () => copyBidirectional
  | .error _ => .ask .shutdown (orElse "closing the connection")

/-- The library's `write_all`, which goes on until nothing is left to write. -/
def writeAll : List Byte → LanAct Unit
  | [] => return
  | b :: l => do
    let written : Option Nat ← .ask (.write (b :: l)) .ok
    match written with
    | some (n + 1) => writeAll (l.drop n)
    | some 0 | none => .throw "passing on a datagram"
termination_by l => l.length
decreasing_by simp only [List.length_drop, List.length_cons]; omega

/-- So many rounds of the loop of `relay_udp`. -/
def exchange : Nat → LanAct Unit
  | 0 => return
  | rounds + 1 => do
    let selected : Selected ← .ask .select .ok
    match selected with
    | .read none => .throw "reading a datagram"
    | .read (some []) => return
    | .read (some l) => do
      .ask (.send l) (orElse "sending a datagram")
      exchange rounds
    | .received none => .throw "receiving a datagram"
    | .received (some l) => do
      writeAll l
      exchange rounds

def relayUdp (e : Endian) (rounds : Nat) (target : SocketAddr) : LanAct Unit := do
  let device ← egressNow e target.ip
  match device with
  | some device => do
    connected .udp device target
    exchange rounds
  | none => return

inductive IpStackStream
  | tcp (target : SocketAddr)
  | udp (target : SocketAddr)
  | other
  deriving DecidableEq, Repr

def IpStackStream.target? : IpStackStream → Option SocketAddr
  | .tcp target | .udp target => some target
  | .other => none

def relay (e : Endian) (copyBidirectional : LanAct Unit) (rounds : Nat) : IpStackStream → LanAct Unit
  | .tcp target => relayTcp e copyBidirectional target
  | .udp target => relayUdp e rounds target
  | .other => return

def initial (tables : Tables) : State := { tables }

end Climate.Lan
