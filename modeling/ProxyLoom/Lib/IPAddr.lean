import ProxyLoom.Lib.Domain

/-!
# IP addresses and their classes

The address type of Go's `net/netip` with the predicates that classify it, as the library computes
them from octets. A zone is part of a version 6 address: it counts when addresses are compared, an
address that has one is in no network, and the mapped form of a version 4 address loses it.
-/

namespace Netip

/-- The zero address of the library, or an address of one of the two versions. -/
inductive IP where
  | invalid
  | v4 (bits : BitVec 32)
  | v6 (bits : BitVec 128) (zone : String)
deriving DecidableEq, Repr

namespace IP

def zone : IP → String
  | v6 _ z => z
  | _ => ""

/-- The octets of a version 4 address, the leading one first. -/
def octet (a : BitVec 32) (i : ℕ) : ℕ := a.toNat / 2 ^ (8 * (3 - i)) % 256

/-- The leading 16 bits of a version 6 address. -/
def word (a : BitVec 128) : ℕ := a.toNat / 2 ^ 112

def is4In6 (a : BitVec 128) : Bool := a.toNat / 2 ^ 32 = 0xffff

def unmap : IP → IP
  | v6 a z => if is4In6 a then v4 (BitVec.ofNat 32 a.toNat) else v6 a z
  | ip => ip

def mapped (a : BitVec 32) (z : String) : IP :=
  v6 (BitVec.ofNat 128 (0xffff * 2 ^ 32 + a.toNat)) z

def isValid : IP → Bool
  | invalid => false
  | _ => true

def isUnspecified (ip : IP) : Bool := ip = v4 0 || ip = v6 0 ""

/-- A predicate of either version, on the unmapped address. -/
def classify (four : BitVec 32 → Bool) (six : BitVec 128 → Bool) (ip : IP) : Bool :=
  match ip.unmap with
  | invalid => false
  | v4 a => four a
  | v6 a _ => six a

def isLoopback : IP → Bool := classify (fun a => octet a 0 = 127) (fun a => a.toNat = 1)

def isPrivate : IP → Bool :=
  classify (fun a => octet a 0 = 10 || octet a 0 = 172 && octet a 1 &&& 0xf0 = 16 ||
      octet a 0 = 192 && octet a 1 = 168)
    (fun a => word a / 2 ^ 8 &&& 0xfe = 0xfc)

def isMulticast : IP → Bool :=
  classify (fun a => octet a 0 &&& 0xf0 = 0xe0) (fun a => word a / 2 ^ 8 = 0xff)

def isLinkLocalUnicast : IP → Bool :=
  classify (fun a => octet a 0 = 169 && octet a 1 = 254) (fun a => word a &&& 0xffc0 = 0xfe80)

def isLinkLocalMulticast : IP → Bool :=
  classify (fun a => octet a 0 = 224 && octet a 1 = 0 && octet a 2 = 0)
    (fun a => word a &&& 0xff0f = 0xff02)

/-- There is no such class in version 4, mapped or not. -/
def isInterfaceLocalMulticast : IP → Bool :=
  classify (fun _ => false) (fun a => word a &&& 0xff0f = 0xff01)

def addr? : IP → Option Addr
  | invalid => none
  | v4 a => some ⟨.v4, a.toNat⟩
  | v6 a _ => some ⟨.v6, a.toNat⟩

def within (ip : IP) (p : Prefix) : Bool := ip.addr?.any p.contains

end IP

/-- An address with a zone is in no network. -/
def Prefix.containsIP (p : Prefix) (ip : IP) : Bool := ip.zone = "" && ip.within p

def net4 (a b c d bits : ℕ) : Prefix := ⟨⟨.v4, ((a * 256 + b) * 256 + c) * 256 + d⟩, bits⟩

def net6 (value bits : ℕ) : Prefix := ⟨⟨.v6, value⟩, bits⟩

namespace IP

variable {ip : IP}

/-! ## Mapping -/

theorem unmap_v6 {a : BitVec 128} {z : String} (h : is4In6 a = false) :
    (v6 a z).unmap = v6 a z := by
  rw [unmap, h]
  rfl

theorem unmap_unmap (ip : IP) : ip.unmap.unmap = ip.unmap := by
  cases ip with
  | invalid => rfl
  | v4 a => rfl
  | v6 a z =>
    cases h : is4In6 a with
    | true =>
      rw [unmap, h]
      rfl
    | false => rw [unmap_v6 h, unmap_v6 h]

theorem unmap_mapped (a : BitVec 32) (z : String) : (mapped a z).unmap = v4 a := by
  have ha := a.isLt
  have hval : (BitVec.ofNat 128 (0xffff * 2 ^ 32 + a.toNat)).toNat = 0xffff * 2 ^ 32 + a.toNat := by
    rw [BitVec.toNat_ofNat]
    omega
  have h46 : is4In6 (BitVec.ofNat 128 (0xffff * 2 ^ 32 + a.toNat)) = true := by
    rw [is4In6, hval]
    exact decide_eq_true (by omega)
  rw [mapped, unmap, h46, hval, if_pos rfl]
  congr 1
  apply BitVec.eq_of_toNat_eq
  rw [BitVec.toNat_ofNat]
  omega

@[simp] theorem isValid_unmap (ip : IP) : ip.unmap.isValid = ip.isValid := by
  cases ip with
  | invalid => rfl
  | v4 a => rfl
  | v6 a z =>
    cases h : is4In6 a with
    | true =>
      rw [unmap, h]
      rfl
    | false => rw [unmap_v6 h]

theorem zone_unmap (h : ip.zone = "") : ip.unmap.zone = "" := by
  cases ip with
  | invalid => rfl
  | v4 a => rfl
  | v6 a z =>
    cases hmapped : is4In6 a with
    | true =>
      rw [unmap, hmapped]
      rfl
    | false => rwa [unmap_v6 hmapped]

/-! ## Masks and networks -/

/-- What a mask keeps of the leading bits, as a quotient. -/
theorem and_mask (x m k : ℕ) : x &&& ((2 ^ m - 1) * 2 ^ k) = x / 2 ^ k % 2 ^ m * 2 ^ k := by
  apply Nat.eq_of_testBit_eq
  intro i
  rw [Nat.testBit_and, Nat.testBit_mul_two_pow, Nat.testBit_mul_two_pow,
    Nat.testBit_two_pow_sub_one, Nat.testBit_mod_two_pow, Nat.testBit_div_two_pow]
  by_cases hi : k ≤ i
  · rw [Nat.sub_add_cancel hi, decide_eq_true hi, Bool.true_and, Bool.true_and, Bool.and_comm]
  · rw [decide_eq_false hi, Bool.false_and, Bool.false_and, Bool.and_false]

/-! ## Classes -/

def loopbackNets : List Prefix := [net4 127 0 0 0 8, net6 1 128]

def privateNets : List Prefix :=
  [net4 10 0 0 0 8, net4 172 16 0 0 12, net4 192 168 0 0 16, net6 (0xfc00 * 2 ^ 112) 7]

def multicastNets : List Prefix := [net4 224 0 0 0 4, net6 (0xff00 * 2 ^ 112) 8]

def linkLocalNets : List Prefix := [net4 169 254 0 0 16, net6 (0xfe80 * 2 ^ 112) 10]

def unspecifiedNets : List Prefix := [net4 0 0 0 0 32, net6 0 128]

def inside (ip : IP) (nets : List Prefix) : Bool := nets.any ip.unmap.within

@[simp] theorem inside_unmap (ip : IP) (nets : List Prefix) :
    ip.unmap.inside nets = ip.inside nets := by
  unfold inside
  rw [unmap_unmap]

theorem inside_append (ip : IP) (nets nets' : List Prefix) :
    ip.inside (nets ++ nets') = (ip.inside nets || ip.inside nets') := List.any_append

theorem classify_eq {four : BitVec 32 → Bool} {six : BitVec 128 → Bool} {nets : List Prefix}
    (h4 : ∀ a, four a = true ↔ nets.any (v4 a).within = true)
    (h6 : ∀ a z, six a = true ↔ nets.any (v6 a z).within = true) (ip : IP) :
    classify four six ip = ip.inside nets := by
  unfold classify inside
  cases ip.unmap with
  | invalid => exact (List.any_eq_false.mpr fun _ _ => Bool.false_ne_true).symm
  | v4 a => exact Bool.eq_iff_iff.mpr (h4 a)
  | v6 a z => exact Bool.eq_iff_iff.mpr (h6 a z)

@[simp] theorem v4_within_net4 (x : BitVec 32) (a b c d bits : ℕ) :
    (v4 x).within (net4 a b c d bits) = true ↔
      x.toNat / 2 ^ (32 - bits) =
        (((a * 256 + b) * 256 + c) * 256 + d) / 2 ^ (32 - bits) := by
  show (net4 a b c d bits).contains ⟨.v4, x.toNat⟩ = true ↔ _
  rw [Prefix.contains_iff]
  exact and_iff_right rfl

@[simp] theorem v4_within_net6 (x : BitVec 32) (v bits : ℕ) :
    (v4 x).within (net6 v bits) = false := rfl

@[simp] theorem v6_within_net4 (x : BitVec 128) (z : String) (a b c d bits : ℕ) :
    (v6 x z).within (net4 a b c d bits) = false := rfl

@[simp] theorem v6_within_net6 (x : BitVec 128) (z : String) (v bits : ℕ) :
    (v6 x z).within (net6 v bits) = true ↔ x.toNat / 2 ^ (128 - bits) = v / 2 ^ (128 - bits) := by
  show (net6 v bits).contains ⟨.v6, x.toNat⟩ = true ↔ _
  rw [Prefix.contains_iff]
  exact and_iff_right rfl

theorem isLoopback_eq (ip : IP) : ip.isLoopback = ip.inside loopbackNets := by
  refine classify_eq (fun a => ?_) (fun a z => ?_) ip
  · have ha := a.isLt
    simp [loopbackNets]
    unfold octet
    omega
  · simp [loopbackNets]

theorem isPrivate_eq (ip : IP) : ip.isPrivate = ip.inside privateNets := by
  refine classify_eq (fun a => ?_) (fun a z => ?_) ip
  · have ha := a.isLt
    have hmask : octet a 1 &&& 0xf0 = octet a 1 / 2 ^ 4 % 2 ^ 4 * 2 ^ 4 := and_mask _ 4 4
    rw [hmask]
    simp [privateNets]
    unfold octet
    omega
  · have ha := a.isLt
    have hmask : word a / 2 ^ 8 &&& 0xfe = word a / 2 ^ 8 / 2 ^ 1 % 2 ^ 7 * 2 ^ 1 := and_mask _ 7 1
    rw [hmask]
    simp [privateNets]
    unfold word
    omega

theorem isMulticast_eq (ip : IP) : ip.isMulticast = ip.inside multicastNets := by
  refine classify_eq (fun a => ?_) (fun a z => ?_) ip
  · have ha := a.isLt
    have hmask : octet a 0 &&& 0xf0 = octet a 0 / 2 ^ 4 % 2 ^ 4 * 2 ^ 4 := and_mask _ 4 4
    rw [hmask]
    simp [multicastNets]
    unfold octet
    omega
  · have ha := a.isLt
    simp [multicastNets]
    unfold word
    omega

theorem isLinkLocalUnicast_eq (ip : IP) : ip.isLinkLocalUnicast = ip.inside linkLocalNets := by
  refine classify_eq (fun a => ?_) (fun a z => ?_) ip
  · have ha := a.isLt
    simp [linkLocalNets]
    unfold octet
    omega
  · have ha := a.isLt
    have hmask : word a &&& 0xffc0 = word a / 2 ^ 6 % 2 ^ 10 * 2 ^ 6 := and_mask _ 10 6
    rw [hmask]
    simp [linkLocalNets]
    unfold word
    omega

def zonedUnspecified : IP → Bool
  | v6 a z => a = 0 && z ≠ ""
  | _ => false

@[simp] theorem zonedUnspecified_unmap (ip : IP) :
    ip.unmap.zonedUnspecified = ip.zonedUnspecified := by
  cases ip with
  | invalid => rfl
  | v4 a => rfl
  | v6 a z =>
    cases h : is4In6 a with
    | false => rw [unmap_v6 h]
    | true =>
      have ha : decide (a = 0) = false := by
        rw [decide_eq_false_iff_not]
        rintro rfl
        exact absurd h (by decide)
      rw [unmap, h, if_pos rfl]
      show false = (decide (a = 0) && decide (z ≠ ""))
      rw [ha, Bool.false_and]

/-- The unspecified address is only recognized without a zone. -/
theorem isUnspecified_eq (ip : IP) :
    ip.unmap.isUnspecified = (ip.inside unspecifiedNets && !ip.zonedUnspecified) := by
  rw [← zonedUnspecified_unmap]
  unfold inside
  rw [Bool.eq_iff_iff]
  cases ip.unmap with
  | invalid => rfl
  | v4 a => simp [isUnspecified, unspecifiedNets, zonedUnspecified, ← BitVec.toNat_inj]
  | v6 a z =>
    have hzero : a.toNat = 0 ↔ a = 0 := by rw [← BitVec.toNat_inj]; rfl
    simp [isUnspecified, unspecifiedNets, zonedUnspecified, hzero]
    tauto

end IP

end Netip
