import Mathlib.Tactic

/-!
# Journals

A journal is a list of entries that is only ever appended to. Its entries are numbered from one. A
conditional entry names the entry it expects to follow, its base; it may only be appended when that
is the last one, so two conditional entries with one base cannot both be in the journal.
-/

namespace Journal

open List

variable {ρ κ : Type} {number : ρ → ℕ} {id : ρ → κ} {base base' : ρ → Option κ → Prop}
  {l : List ρ} {r r' : ρ} {i : ℕ}

/-! ## Numbers -/

/-- The entries have the numbers 1, 2, 3, ... -/
def Numbered (number : ρ → ℕ) (l : List ρ) : Prop := l.map number = List.range' 1 l.length

theorem numbered_nil : Numbered number ([] : List ρ) := rfl

theorem Numbered.snoc (h : Numbered number l) (hr : number r = l.length + 1) :
    Numbered number (l ++ [r]) := by
  unfold Numbered at h ⊢
  rw [map_append, h, length_append, length_singleton, List.range'_concat,
    map_singleton, hr]
  simp [Nat.add_comm]

theorem Numbered.number_eq (h : Numbered number l) (hi : l[i]? = some r) :
    number r = i + 1 := by
  have hlt : i < l.length := (List.getElem?_eq_some_iff.mp hi).1
  have hmap : (l.map number)[i]? = some (number r) := by
    rw [List.getElem?_map, hi, Option.map_some]
  rw [h, List.getElem?_range' (by omega)] at hmap
  have := Option.some.inj hmap
  omega

theorem Numbered.last (h : Numbered number l) (hr : l.getLast? = some r) :
    number r = l.length := by
  have hne : l ≠ [] := by
    rintro rfl
    cases hr
  have hpos : 0 < l.length := length_pos_of_ne_nil hne
  rw [List.getLast?_eq_getElem?] at hr
  rw [h.number_eq hr]
  omega

theorem Numbered.le_last (h : Numbered number l) {last : ρ} (hlast : l.getLast? = some last)
    (hr : r ∈ l) : number r ≤ number last := by
  obtain ⟨i, hi⟩ := mem_iff_getElem?.mp hr
  have hlt : i < l.length := (List.getElem?_eq_some_iff.mp hi).1
  rw [h.number_eq hi, h.last hlast]
  omega

/-! ## Bases -/

def before (id : ρ → κ) (l : List ρ) : ℕ → Option κ
  | 0 => none
  | i + 1 => l[i]?.map id

theorem before_length (id : ρ → κ) (l : List ρ) : before id l l.length = l.getLast?.map id := by
  cases h : l.length with
  | zero =>
    rw [length_eq_zero_iff.mp h]
    rfl
  | succ n =>
    rw [List.getLast?_eq_getElem?, h]
    rfl

theorem before_append (id : ρ → κ) {l l' : List ρ} (hi : i ≤ l.length) :
    before id (l ++ l') i = before id l i := by
  cases i with
  | zero => rfl
  | succ i =>
    show (l ++ l')[i]?.map id = l[i]?.map id
    rw [List.getElem?_append_left (by omega)]

theorem before_inj (hnodup : (l.map id).Nodup) {j : ℕ} (hi : i < l.length) (hj : j < l.length)
    (h : before id l i = before id l j) : i = j := by
  cases i with
  | zero =>
    cases j with
    | zero => rfl
    | succ j =>
      simp [before, List.getElem?_eq_getElem (show j < l.length by omega)] at h
  | succ i =>
    cases j with
    | zero =>
      simp [before, List.getElem?_eq_getElem (show i < l.length by omega)] at h
    | succ j =>
      have hmap : (l.map id)[i]? = (l.map id)[j]? := by
        rw [List.getElem?_map, List.getElem?_map]
        exact h
      rw [(List.getElem?_inj (by rw [length_map]; omega) hnodup).mp hmap]

def Chained (id : ρ → κ) (base : ρ → Option κ → Prop) (l : List ρ) : Prop :=
  ∀ i r, l[i]? = some r → ∀ b, base r b → b = before id l i

theorem chained_nil : Chained id base [] := by
  intro i r hi
  simp at hi

theorem Chained.snoc (h : Chained id base l) (hr : ∀ b, base r b → b = l.getLast?.map id) :
    Chained id base (l ++ [r]) := by
  intro i x hi b hb
  by_cases hlt : i < l.length
  · rw [List.getElem?_append_left hlt] at hi
    rw [before_append id hlt.le]
    exact h i x hi b hb
  · have hi' : i = l.length := by
      have := (List.getElem?_eq_some_iff.mp hi).1
      rw [length_append, length_singleton] at this
      omega
    subst hi'
    rw [List.getElem?_concat_length] at hi
    cases hi
    rw [before_append id le_rfl, before_length]
    exact hr b hb

theorem Chained.mono (h : Chained id base l) (hbase : ∀ r ∈ l, ∀ b, base' r b → base r b) :
    Chained id base' l := fun i r hi b hb =>
  h i r hi b (hbase r (mem_of_getElem? hi) b hb)

/-- **No lost update.** Two conditional entries with one base are one entry. -/
theorem Chained.unique (h : Chained id base l) (hnodup : (l.map id).Nodup) (hr : r ∈ l)
    (hr' : r' ∈ l) {b : Option κ} (hb : base r b) (hb' : base r' b) : r = r' := by
  obtain ⟨i, hi⟩ := mem_iff_getElem?.mp hr
  obtain ⟨j, hj⟩ := mem_iff_getElem?.mp hr'
  have hlt := (List.getElem?_eq_some_iff.mp hi).1
  have hlt' := (List.getElem?_eq_some_iff.mp hj).1
  have hij : i = j := before_inj hnodup hlt hlt' ((h i r hi b hb).symm.trans (h j r' hj b hb'))
  subst hij
  rw [hi] at hj
  exact Option.some.inj hj

end Journal
