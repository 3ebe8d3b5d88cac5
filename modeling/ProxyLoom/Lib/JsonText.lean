import Mathlib.Data.List.Basic
import ProxyLoom.Lib.Frame

/-!
# The string literals of a JSON text

A text is read as a list of lexemes: string literals, and the bytes that stand between them. The
items of a literal are plain bytes, short escapes and `\u` escapes, each with its well-formedness.
-/

namespace ProxyLoom.JsonText

open Frame (Bytes)

def quote : UInt8 := 34

def backslash : UInt8 := 92

def letterU : UInt8 := 117

def hexDigit? (b : UInt8) : Option ℕ :=
  if 48 ≤ b ∧ b ≤ 57 then some (b.toNat - 48)
  else if 97 ≤ b ∧ b ≤ 102 then some (b.toNat - 87)
  else if 65 ≤ b ∧ b ≤ 70 then some (b.toNat - 55)
  else none

structure HexDigit where
  byte : UInt8
  value : ℕ
  hexDigit : hexDigit? byte = some value

theorem HexDigit.value_lt (x : HexDigit) : x.value < 16 := by
  have h := x.hexDigit
  unfold hexDigit? at h
  simp only [UInt8.le_iff_toNat_le, UInt8.reduceToNat] at h
  split_ifs at h with hdigit hlower hupper
  all_goals
    have hvalue := Option.some.inj h
    omega

/-- The bytes that may follow a backslash, other than `u`. -/
def shortEscapes : Bytes := [34, 92, 47, 98, 102, 110, 114, 116]

inductive Item where
  | plain (b : UInt8) (hquote : b ≠ quote) (hbackslash : b ≠ backslash) (hcontrol : 32 ≤ b)
  | short (b : UInt8) (hshort : b ∈ shortEscapes)
  | unit (a b c d : HexDigit)

def Item.bytes : Item → Bytes
  | .plain b _ _ _ => [b]
  | .short b _ => [backslash, b]
  | .unit a b c d => [backslash, letterU, a.byte, b.byte, c.byte, d.byte]

/-- The UTF-16 unit of four digits. -/
def unitOf (a b c d : HexDigit) : ℕ := ((a.value * 16 + b.value) * 16 + c.value) * 16 + d.value

theorem unitOf_lt (a b c d : HexDigit) : unitOf a b c d < 2 ^ 16 := by
  have ha := a.value_lt
  have hb := b.value_lt
  have hc := c.value_lt
  have hd := d.value_lt
  unfold unitOf
  omega

def Item.unit? : Item → Option ℕ
  | .unit a b c d => some (unitOf a b c d)
  | _ => none

def isHigh (n : ℕ) : Bool := 0xD800 ≤ n && n ≤ 0xDBFF

def isLow (n : ℕ) : Bool := 0xDC00 ≤ n && n ≤ 0xDFFF

def Item.high (x : Item) : Bool := x.unit?.any isHigh

def Item.low (x : Item) : Bool := x.unit?.any isLow

/-- What stands outside of the literals may be any bytes other than a quote, the tokens of JSON
among them. -/
inductive Lexeme where
  | outside (b : UInt8) (hquote : b ≠ quote)
  | literal (items : List Item)

def itemBytes (items : List Item) : Bytes := items.flatMap Item.bytes

def Lexeme.bytes : Lexeme → Bytes
  | .outside b _ => [b]
  | .literal items => quote :: itemBytes items ++ [quote]

def textBytes (text : List Lexeme) : Bytes := text.flatMap Lexeme.bytes

/-! ## Surrogates -/

theorem not_high_of_low {n : ℕ} (h : isLow n = true) : isHigh n = false := by
  unfold isLow at h
  unfold isHigh
  simp only [Bool.and_eq_true, decide_eq_true_eq] at h
  simp only [Bool.and_eq_false_iff, decide_eq_false_iff_not]
  omega

theorem Item.not_high {x : Item} (h : x.low = true) : x.high = false := by
  unfold Item.low at h
  unfold Item.high
  cases hx : x.unit? with
  | none => rfl
  | some n =>
    rw [hx] at h
    exact not_high_of_low h

/-- Every high surrogate is immediately followed by a low one, and every low surrogate immediately
follows a high one. -/
def WellPaired (items : List Item) : Prop :=
  (∀ i x, items[i]? = some x → x.high = true → ∃ y, items[i + 1]? = some y ∧ y.low = true) ∧
  ∀ i y, items[i]? = some y → y.low = true →
    ∃ j x, i = j + 1 ∧ items[j]? = some x ∧ x.high = true

/-- The same behind an item that may be a high surrogate. -/
def PairedAfter (high : Bool) (items : List Item) : Prop :=
  (∀ i x, items[i]? = some x → x.high = true → ∃ y, items[i + 1]? = some y ∧ y.low = true) ∧
  ∀ i y, items[i]? = some y → y.low = true →
    i = 0 ∧ high = true ∨ ∃ j x, i = j + 1 ∧ items[j]? = some x ∧ x.high = true

theorem wellPaired_iff_after (items : List Item) : WellPaired items ↔ PairedAfter false items := by
  unfold WellPaired PairedAfter
  simp only [Bool.false_eq_true, and_false, false_or]

theorem pairedAfter_nil (high : Bool) : PairedAfter high [] := by
  refine ⟨fun i x hx => ?_, fun i y hy => ?_⟩
  · cases hx
  · cases hy

theorem pairedAfter_cons (high : Bool) (x : Item) (l : List Item) :
    PairedAfter high (x :: l) ↔ (x.low = true → high = true) ∧
      (x.high = true → ∃ y, l[0]? = some y ∧ y.low = true) ∧ PairedAfter x.high l := by
  constructor
  · rintro ⟨hnext, hprevious⟩
    refine ⟨fun hlow => ?_, hnext 0 x rfl, fun i => hnext (i + 1), fun i y hy hlow => ?_⟩
    · obtain ⟨-, hhigh⟩ | ⟨j, -, h0, -⟩ := hprevious 0 x rfl hlow
      · exact hhigh
      · cases h0
    · obtain ⟨h0, -⟩ | ⟨j, z, hj, hz, hhigh⟩ := hprevious (i + 1) y hy hlow
      · cases h0
      · cases hj
        cases i with
        | zero =>
          cases hz
          exact .inl ⟨rfl, hhigh⟩
        | succ i => exact .inr ⟨i, z, rfl, hz, hhigh⟩
  · rintro ⟨hlow, hhead, hnext, hprevious⟩
    constructor
    · intro i z hz hhigh
      cases i with
      | zero =>
        cases hz
        exact hhead hhigh
      | succ i => exact hnext i z hz hhigh
    · intro i y hy hy'
      cases i with
      | zero =>
        cases hy
        exact .inl ⟨rfl, hlow hy'⟩
      | succ i =>
        obtain ⟨rfl, hhigh⟩ | ⟨j, z, rfl, hz, hhigh⟩ := hprevious i y hy hy'
        · exact .inr ⟨0, x, rfl, rfl, hhigh⟩
        · exact .inr ⟨j + 1, z, rfl, hz, hhigh⟩

def paired : List Item → Bool
  | [] => true
  | [x] => !x.low && !x.high
  | x :: y :: rest =>
    if x.low then false
    else if x.high then y.low && paired rest
    else paired (y :: rest)

/-- Pairing up the escapes from left to right is the condition that every high surrogate is followed
by a low one and every low surrogate follows a high one. -/
theorem paired_iff (items : List Item) : paired items = true ↔ WellPaired items := by
  rw [wellPaired_iff_after]
  induction items using paired.induct with
  | case1 => exact iff_of_true rfl (pairedAfter_nil false)
  | case2 x =>
    rw [pairedAfter_cons]
    simp [paired, pairedAfter_nil]
  | case3 x y rest hlow =>
    rw [pairedAfter_cons, paired, if_pos hlow]
    refine iff_of_false Bool.false_ne_true fun h => Bool.false_ne_true (h.1 hlow)
  | case4 x y rest hlow hhigh ih =>
    rw [paired, if_neg hlow, if_pos hhigh, Bool.and_eq_true, ih, pairedAfter_cons, hhigh,
      pairedAfter_cons true y rest]
    constructor
    · rintro ⟨hy, hrest⟩
      rw [Item.not_high hy]
      exact ⟨fun h => absurd h hlow, fun _ => ⟨y, rfl, hy⟩, fun _ => rfl,
        fun h => absurd h Bool.false_ne_true, hrest⟩
    · rintro ⟨-, hnext, -, -, hrest⟩
      obtain ⟨_, heq, hy⟩ := hnext rfl
      cases heq
      rw [Item.not_high hy] at hrest
      exact ⟨hy, hrest⟩
  | case5 x y rest hlow hhigh ih =>
    rw [paired, if_neg hlow, if_neg hhigh, ih, pairedAfter_cons false x,
      Bool.eq_false_iff.mpr hhigh]
    constructor
    · exact fun h => ⟨fun hx => absurd hx hlow, fun hx => absurd hx Bool.false_ne_true, h⟩
    · exact fun h => h.2.2

end ProxyLoom.JsonText
