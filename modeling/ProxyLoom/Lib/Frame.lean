import Mathlib.Tactic

/-!
# Framing bytes

Integers of a fixed width and fields behind their lengths, such that a text of frames can be read in
one way only.
-/

namespace Frame

abbrev Bytes := List UInt8

/-- The last digits of a number to the base 256, the most significant first. -/
def bigEndian : ℕ → ℕ → Bytes
  | 0, _ => []
  | width + 1, n => bigEndian width (n / 256) ++ [UInt8.ofNat n]

theorem length_bigEndian (width n : ℕ) : (bigEndian width n).length = width := by
  induction width generalizing n with
  | zero => rfl
  | succ width ih => rw [bigEndian, List.length_append, ih, List.length_singleton]

variable {n m : ℕ}

theorem mod_eq_of_ofNat_eq (h : UInt8.ofNat n = UInt8.ofNat m) : n % 256 = m % 256 := by
  simpa using congrArg UInt8.toNat h

theorem bigEndian_inj {width : ℕ} (hn : n < 256 ^ width) (hm : m < 256 ^ width)
    (h : bigEndian width n = bigEndian width m) : n = m := by
  induction width generalizing n m with
  | zero => omega
  | succ width ih =>
    rw [bigEndian, bigEndian] at h
    obtain ⟨hhigh, hlow⟩ := List.append_inj' h rfl
    have hmod := mod_eq_of_ofNat_eq (List.cons.inj hlow).1
    have hdiv := ih (by rw [pow_succ] at hn; omega) (by rw [pow_succ] at hm; omega) hhigh
    omega

/-- **Integers can be read back.** -/
theorem bigEndian_append_inj {width : ℕ} {r s : Bytes} (hn : n < 256 ^ width)
    (hm : m < 256 ^ width) (h : bigEndian width n ++ r = bigEndian width m ++ s) :
    n = m ∧ r = s := by
  obtain ⟨hint, hrest⟩ := List.append_inj h (by rw [length_bigEndian, length_bigEndian])
  exact ⟨bigEndian_inj hn hm hint, hrest⟩

def field (x : Bytes) : Bytes := bigEndian 4 x.length ++ x

theorem length_field (x : Bytes) : (field x).length = 4 + x.length := by
  rw [field, List.length_append, length_bigEndian]

/-- **Fields can be read back.** -/
theorem field_append_inj {x y r s : Bytes} (hx : x.length < 256 ^ 4) (hy : y.length < 256 ^ 4)
    (h : field x ++ r = field y ++ s) : x = y ∧ r = s := by
  unfold field at h
  rw [List.append_assoc, List.append_assoc] at h
  obtain ⟨hlength, hrest⟩ := bigEndian_append_inj hx hy h
  exact List.append_inj hrest hlength

/-! ## Text -/

def utf8 (s : String) : Bytes := s.toByteArray.data.toList

theorem utf8_injective : Function.Injective utf8 := by
  intro s t h
  have hdata : s.toByteArray.data = t.toByteArray.data := Array.toList_inj.mp h
  have hbytes : s.toByteArray = t.toByteArray := ByteArray.ext hdata
  exact String.toByteArray_inj.mp hbytes

end Frame
