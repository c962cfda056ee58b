import Climate.Net.Addr
import Mathlib.Data.List.Dedup

/-!
# Loopback mirrors

The part of forward.rs that keeps the mirrors of ports listened on at loopback
on one side only, on the host or in the container. `Moment` is everything else
that a rescan meets: the services of both sides at its scans and at each bind,
and which binds are refused for reasons of their own.
-/

namespace Climate.Forward

abbrev Port := BitVec 16

structure SocketAddr where
  ip : IpAddr
  port : Port
  deriving DecidableEq, Repr

/-- A listening socket. An IPv6 one on the wildcard address may be open to
IPv4 as well. -/
structure Listener where
  addr : SocketAddr
  v6only : Bool := true
  deriving DecidableEq, Repr

def localhostV4 : IpAddr := .v4 0x7f000001

def localhostV6 : IpAddr := .v6 1

def loopbackAddrs (port : Port) : List SocketAddr := [⟨localhostV4, port⟩, ⟨localhostV6, port⟩]

def isV4 (ip : BitVec 32) : Bool := ip = 0 || ip >>> 24 = 127

def isMapped (ip : BitVec 128) : Bool := ip >>> 32 = 0xffff

/-- Whether a connection to loopback can reach a listener on the address. -/
def isLoopback : IpAddr → Bool
  | .v4 ip => isV4 ip
  | .v6 ip => ip = 0 || ip = 1 || (isMapped ip && isV4 (ip.setWidth 32))

def listeningPorts (listeners : List Listener) : List Port :=
  ((listeners.filter fun l => isLoopback l.addr.ip).map (·.addr.port)).dedup

/-- Whether a listener on `l` keeps others from binding a loopback address. -/
def Listener.covers (l : Listener) (ip : IpAddr) : Bool :=
  match l.addr.ip, ip with
  | .v4 own, .v4 ip => own = ip || own = 0
  | .v6 own, .v6 ip => own = ip || own = 0
  | .v6 own, .v4 ip =>
    (own = 0 && !l.v6only) || (isMapped own && (own.setWidth 32 = ip || own.setWidth 32 = (0 : BitVec 32)))
  | .v4 _, .v6 _ => false

def Listener.takes (l : Listener) (addr : SocketAddr) : Bool :=
  l.addr.port = addr.port && l.covers addr.ip

/-- An outbound mirror listens in the container, an inbound one on the host. -/
structure Mirror where
  listener : SocketAddr
  port : Port
  inbound : Bool
  deriving DecidableEq, Repr

def ports (inbound : Bool) (mirrors : List Mirror) : List Port :=
  ((mirrors.filter (·.inbound = inbound)).map (·.port)).dedup

def sockets (inbound : Bool) (mirrors : List Mirror) : List Listener :=
  (mirrors.filter (·.inbound = inbound)).map fun m => { addr := m.listener }

/-- What a rescan meets: the services on each side when that side is scanned,
those on the side of a mirror when one of its addresses is bound, which binds
are let through, and the order in which a set of ports is gone through. -/
structure Moment where
  host : List Listener
  container : List Listener
  services : Bool → SocketAddr → List Listener
  granted : Bool → SocketAddr → Bool
  order : List Port → List Port
  order_perm : ∀ ports, (order ports).Perm ports

def Moment.binds (now : Moment) (inbound : Bool) (mirrors : List Mirror) (addr : SocketAddr) : Bool :=
  now.granted inbound addr &&
    !(now.services inbound addr ++ sockets inbound mirrors).any (·.takes addr)

def listenOn (now : Moment) (inbound : Bool) (mirrors : List Mirror) (port : Port) : List SocketAddr :=
  (loopbackAddrs port).filter (now.binds inbound mirrors)

def mirror (now : Moment) (inbound : Bool) (mirrors : List Mirror) (port : Port) : List Mirror :=
  mirrors ++ (listenOn now inbound mirrors port).map fun addr => ⟨addr, port, inbound⟩

def minus (a b : List Port) : List Port := a.filter (· ∉ b)

def rescan (now : Moment) (mirrors : List Mirror) : List Mirror :=
  let oursHost := ports true mirrors
  let oursContainer := ports false mirrors
  let host := minus (listeningPorts (now.host ++ sockets true mirrors)) oursHost
  let container := minus (listeningPorts (now.container ++ sockets false mirrors)) oursContainer
  let outbound := minus host container
  let inbound := minus container host
  let kept := mirrors.filter fun m => if m.inbound then m.port ∈ inbound else m.port ∈ outbound
  let withOutbound := (now.order (minus outbound oursContainer)).foldl (mirror now false) kept
  (now.order (minus inbound oursHost)).foldl (mirror now true) withOutbound

def rescans (moments : List Moment) (mirrors : List Mirror) : List Mirror :=
  moments.foldl (fun mirrors now => rescan now mirrors) mirrors

end Climate.Forward
