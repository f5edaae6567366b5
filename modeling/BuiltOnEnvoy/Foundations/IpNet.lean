import BuiltOnEnvoy.Foundations.IpAddr
import Mathlib.Data.Set.Defs

/-!
# Blocks of IP addresses

An address with the length of its network part. The block has the addresses of
the same family that agree with it on the leading bits.
-/

namespace BuiltOnEnvoy.Foundations

structure IpNet where
  addr : IpAddr
  prefixLen : ℕ
  deriving DecidableEq, Repr

namespace IpNet

def hostBits (net : IpNet) : ℕ := net.addr.width - net.prefixLen

/-- The address is of the family of the block and agrees with it in the network part. -/
def Covers (net : IpNet) (ip : IpAddr) : Prop :=
  ip.isIpv6 = net.addr.isIpv6 ∧
    ip.toNat / 2 ^ net.hostBits = net.addr.toNat / 2 ^ net.hostBits

instance (net : IpNet) (ip : IpAddr) : Decidable (net.Covers ip) :=
  inferInstanceAs (Decidable (_ ∧ _))

/-- The addresses of a block. -/
def block (net : IpNet) : Set IpAddr := {ip | net.Covers ip}

end IpNet

end BuiltOnEnvoy.Foundations
