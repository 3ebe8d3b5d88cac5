import Mathlib.Tactic

/-!
# Addresses and networks

An address is a number of its family's width. A network is an address with a number of leading
bits, and contains the addresses of its family that agree with it there.
-/

namespace Netip

inductive Family where
  | v4 | v6
deriving DecidableEq, Repr

def Family.width : Family → ℕ
  | .v4 => 32
  | .v6 => 128

structure Addr where
  family : Family
  value : ℕ
deriving DecidableEq, Repr

structure Prefix where
  addr : Addr
  bits : ℕ
deriving DecidableEq, Repr

namespace Prefix

/-- The bits of a value that a network does not fix. -/
def hostBits (p : Prefix) : ℕ := p.addr.family.width - p.bits

/-- The bits behind the network are cleared. -/
def masked (p : Prefix) : Prefix :=
  { p with addr := { p.addr with value := p.addr.value / 2 ^ p.hostBits * 2 ^ p.hostBits } }

def contains (p : Prefix) (a : Addr) : Bool :=
  a.family = p.addr.family && a.value / 2 ^ p.hostBits = p.addr.value / 2 ^ p.hostBits

end Prefix

end Netip
