import ProxyLoom.Lib.Laminar
import ProxyLoom.Lib.Netip
import ProxyLoom.Lib.Scan

/-!
# Dotted names and networks as nested sets

A name lies under another if it is that name or ends in a dot and that name. The names under two
names are nested or disjoint, and so are the addresses of two networks.
-/

namespace Domain

/-- The name `b` is `a` or ends in a dot and `a`. -/
def under (a b : List Char) : Bool := b = a || ('.' :: a).isSuffixOf b

variable {a b n : List Char}

theorem under_iff : under a b = true ↔ b = a ∨ '.' :: a <:+ b := by
  simp [under]

theorem under_refl : under a a = true := under_iff.mpr (.inl rfl)

theorem under_trans (hab : under a b = true) (hbn : under b n = true) : under a n = true := by
  obtain rfl | hbn := under_iff.mp hbn
  · exact hab
  · obtain rfl | hab := under_iff.mp hab
    · exact under_iff.mpr (.inr hbn)
    · exact under_iff.mpr (.inr (hab.trans ((List.suffix_cons '.' b).trans hbn)))

theorem under_total (ha : under a n = true) (hb : under b n = true) :
    under a b = true ∨ under b a = true := by
  obtain rfl | ha := under_iff.mp ha
  · exact .inr hb
  · obtain rfl | hb := under_iff.mp hb
    · exact .inl (under_iff.mpr (.inr ha))
    · obtain h | h := List.suffix_or_suffix_of_suffix ha hb
      · obtain heq | hsuffix := List.suffix_cons_iff.mp h
        · exact .inl (under_iff.mpr (.inl (List.cons.inj heq).2.symm))
        · exact .inl (under_iff.mpr (.inr hsuffix))
      · obtain heq | hsuffix := List.suffix_cons_iff.mp h
        · exact .inr (under_iff.mpr (.inl (List.cons.inj heq).2.symm))
        · exact .inr (under_iff.mpr (.inr hsuffix))

def tails : List Char → List (List Char)
  | [] => []
  | c :: cs => if c = '.' then cs :: tails cs else tails cs

theorem mem_tails : a ∈ tails n ↔ '.' :: a <:+ n := by
  induction n with
  | nil => simp [tails]
  | cons c n ih =>
    rw [tails, List.suffix_cons_iff]
    by_cases hc : c = '.'
    · rw [if_pos hc, List.mem_cons, ih, hc]
      simp
    · have hne : '.' :: a ≠ c :: n := fun h => hc (List.cons.inj h).1.symm
      rw [if_neg hc, ih]
      simp [hne]

/-- A name and what follows each of its dots: the names it lies under. -/
def ancestors (n : List Char) : List (List Char) := n :: tails n

theorem mem_ancestors : a ∈ ancestors n ↔ under a n = true := by
  rw [ancestors, List.mem_cons, mem_tails, under_iff, eq_comm]

/-! ## Patterns -/

inductive Pattern where
  | full (name : List Char)
  | tree (name : List Char)
deriving DecidableEq, Repr

namespace Pattern

def name : Pattern → List Char
  | full a | tree a => a

def holds : Pattern → List Char → Bool
  | full a, n => n = a
  | tree a, n => under a n

/-- Everything the second pattern stands for the first one stands for. -/
def includes : Pattern → Pattern → Bool
  | full a, full b => a = b
  | full _, tree _ => false
  | tree a, q => under a q.name

variable {p q : Pattern}

theorem holds_of_includes (h : p.includes q = true) (hq : q.holds n = true) :
    p.holds n = true := by
  cases p with
  | full a =>
    cases q with
    | full b =>
      have hab : a = b := of_decide_eq_true h
      rwa [hab]
    | tree b => cases h
  | tree a =>
    cases q with
    | full b =>
      have hn : n = b := of_decide_eq_true hq
      rwa [hn]
    | tree b => exact under_trans h hq

theorem includes_or_includes (hp : p.holds n = true) (hq : q.holds n = true) :
    p.includes q = true ∨ q.includes p = true := by
  cases p with
  | full a =>
    obtain rfl : n = a := of_decide_eq_true hp
    cases q with
    | full b => exact .inl hq
    | tree b => exact .inr hq
  | tree a =>
    cases q with
    | full b =>
      obtain rfl : n = b := of_decide_eq_true hq
      exact .inl hp
    | tree b => exact under_total hp hq

end Pattern

end Domain

namespace Netip.Prefix

/-- Every address of the second network is one of the first. -/
def includes (p q : Prefix) : Bool := p.contains q.addr && p.bits ≤ q.bits

variable {p q : Prefix} {x : Addr}

theorem contains_iff : p.contains x = true ↔
    x.family = p.addr.family ∧ x.value / 2 ^ p.hostBits = p.addr.value / 2 ^ p.hostBits := by
  simp [contains]

/-- Addresses that agree on the leading bits of a longer network agree on those of a shorter one. -/
theorem div_eq_of_le {a b m n : ℕ} (hmn : m ≤ n) (h : a / 2 ^ m = b / 2 ^ m) :
    a / 2 ^ n = b / 2 ^ n := by
  obtain ⟨k, rfl⟩ := Nat.exists_eq_add_of_le hmn
  rw [Nat.pow_add, ← Nat.div_div_eq_div_mul, ← Nat.div_div_eq_div_mul, h]

theorem hostBits_le (hfamily : q.addr.family = p.addr.family) (h : p.bits ≤ q.bits) :
    q.hostBits ≤ p.hostBits := by
  unfold hostBits
  rw [hfamily]
  omega

theorem contains_of_includes (h : p.includes q = true) (hx : q.contains x = true) :
    p.contains x = true := by
  obtain ⟨hpq, hbits⟩ := Bool.and_eq_true_iff.mp h
  obtain ⟨hfamily, hq⟩ := contains_iff.mp hpq
  obtain ⟨hxfamily, hxq⟩ := contains_iff.mp hx
  have hle := hostBits_le hfamily (of_decide_eq_true hbits)
  exact contains_iff.mpr ⟨hxfamily.trans hfamily, (div_eq_of_le hle hxq).trans hq⟩

theorem includes_of_contains (hp : p.contains x = true) (hq : q.contains x = true)
    (hbits : p.bits ≤ q.bits) : p.includes q = true := by
  obtain ⟨hpfamily, hxp⟩ := contains_iff.mp hp
  obtain ⟨hqfamily, hxq⟩ := contains_iff.mp hq
  have hfamily : q.addr.family = p.addr.family := hqfamily.symm.trans hpfamily
  have hle := hostBits_le hfamily hbits
  refine Bool.and_eq_true_iff.mpr ⟨contains_iff.mpr ⟨hfamily, ?_⟩, decide_eq_true hbits⟩
  rw [← div_eq_of_le hle hxq, hxp]

theorem includes_or_includes (hp : p.contains x = true) (hq : q.contains x = true) :
    p.includes q = true ∨ q.includes p = true := by
  obtain h | h := Nat.le_total p.bits q.bits
  · exact .inl (includes_of_contains hp hq h)
  · exact .inr (includes_of_contains hq hp h)

end Netip.Prefix
