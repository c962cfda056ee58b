import Mathlib.Data.BitVec

/-!
# IP addresses

The addresses of the standard library that localnet.rs and forward.rs handle,
with the tests they use.
-/

namespace Climate

inductive IpAddr
  | v4 (ip : BitVec 32)
  | v6 (ip : BitVec 128)
  deriving DecidableEq, Repr

namespace IpAddr

def width : IpAddr → Nat
  | .v4 _ => 32
  | .v6 _ => 128

def isUnspecified : IpAddr → Bool
  | .v4 ip => ip = 0
  | .v6 ip => ip = 0

/-- IPv6 has no broadcast. -/
def isBroadcast : IpAddr → Bool
  | .v4 ip => ip = BitVec.allOnes 32
  | .v6 _ => false

def isMulticast : IpAddr → Bool
  | .v4 ip => 224 ≤ (ip >>> 24).toNat && (ip >>> 24).toNat ≤ 239
  | .v6 ip => (ip >>> 112) &&& 0xff00 = 0xff00

end IpAddr

end Climate
