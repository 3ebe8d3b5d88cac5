import Mathlib.Tactic

/-!
# Unions of nested sets

Patterns that stand for sets of points, any two of which are nested or disjoint: names under a
domain, addresses of a network. A list of patterns stands for the union of its members. The
intersection of two such unions is again a list of the given patterns, the smaller one of each
nested pair.
-/

/-- Patterns over points. The laws are asked of well-formed patterns only. -/
structure Laminar (π σ : Type) where
  Ok : π → Prop
  holds : π → σ → Bool
  includes : π → π → Bool
  sound {p q : π} {x : σ} : Ok p → Ok q → includes p q = true → holds q x = true → holds p x = true
  overlap {p q : π} {x : σ} : Ok p → Ok q → holds p x = true → holds q x = true →
    includes p q = true ∨ includes q p = true

namespace Laminar

variable {π σ : Type} (L : Laminar π σ)

def meet (a b : List π) : List π :=
  a.flatMap fun p => b.filterMap fun q =>
    if L.includes p q then some q else if L.includes q p then some p else none

/-- The patterns of each list that lie in one of the other. -/
def common (a b : List π) : List π :=
  a.filter (fun p => b.any fun q => L.includes q p) ++
    b.filter (fun q => a.any fun p => L.includes p q)

variable {L} {a b : List π} {r : π} {x : σ}

theorem mem_meet : r ∈ L.meet a b ↔ ∃ p ∈ a, ∃ q ∈ b,
    (L.includes p q = true ∧ r = q) ∨
      (L.includes p q = false ∧ L.includes q p = true ∧ r = p) := by
  unfold meet
  simp only [List.mem_flatMap, List.mem_filterMap]
  refine exists_congr fun p => and_congr_right fun _ => exists_congr fun q =>
    and_congr_right fun _ => ?_
  cases hpq : L.includes p q with
  | true => simp [@eq_comm _ r]
  | false =>
    cases hqp : L.includes q p with
    | true => simp [@eq_comm _ r]
    | false => simp

theorem mem_of_mem_meet (h : r ∈ L.meet a b) : r ∈ a ∨ r ∈ b := by
  obtain ⟨p, hp, q, hq, ⟨-, rfl⟩ | ⟨-, -, rfl⟩⟩ := mem_meet.mp h
  · exact .inr hq
  · exact .inl hp

/-- **Intersection by pairs.** -/
theorem any_meet (ha : ∀ p ∈ a, L.Ok p) (hb : ∀ q ∈ b, L.Ok q) :
    (L.meet a b).any (L.holds · x) = (a.any (L.holds · x) && b.any (L.holds · x)) := by
  rw [Bool.eq_iff_iff, Bool.and_eq_true]
  simp only [List.any_eq_true]
  constructor
  · rintro ⟨r, hr, hx⟩
    obtain ⟨p, hp, q, hq, ⟨hpq, rfl⟩ | ⟨-, hqp, rfl⟩⟩ := mem_meet.mp hr
    · exact ⟨⟨p, hp, L.sound (ha p hp) (hb r hq) hpq hx⟩, r, hq, hx⟩
    · exact ⟨⟨r, hp, hx⟩, q, hq, L.sound (hb q hq) (ha r hp) hqp hx⟩
  · rintro ⟨⟨p, hp, hpx⟩, q, hq, hqx⟩
    cases hpq : L.includes p q with
    | true => exact ⟨q, mem_meet.mpr ⟨p, hp, q, hq, .inl ⟨hpq, rfl⟩⟩, hqx⟩
    | false =>
      have hqp : L.includes q p = true := by
        refine (L.overlap (ha p hp) (hb q hq) hpx hqx).resolve_left ?_
        simp [hpq]
      exact ⟨p, mem_meet.mpr ⟨p, hp, q, hq, .inr ⟨hpq, hqp, rfl⟩⟩, hpx⟩

theorem mem_common : r ∈ L.common a b ↔
    (r ∈ a ∧ ∃ q ∈ b, L.includes q r = true) ∨ (r ∈ b ∧ ∃ p ∈ a, L.includes p r = true) := by
  simp [common]

/-- **Intersection by filters.** -/
theorem any_common (ha : ∀ p ∈ a, L.Ok p) (hb : ∀ q ∈ b, L.Ok q) :
    (L.common a b).any (L.holds · x) = (a.any (L.holds · x) && b.any (L.holds · x)) := by
  rw [Bool.eq_iff_iff, Bool.and_eq_true]
  simp only [List.any_eq_true]
  constructor
  · rintro ⟨r, hr, hx⟩
    obtain ⟨hra, q, hq, hqr⟩ | ⟨hrb, p, hp, hpr⟩ := mem_common.mp hr
    · exact ⟨⟨r, hra, hx⟩, q, hq, L.sound (hb q hq) (ha r hra) hqr hx⟩
    · exact ⟨⟨p, hp, L.sound (ha p hp) (hb r hrb) hpr hx⟩, r, hrb, hx⟩
  · rintro ⟨⟨p, hp, hpx⟩, q, hq, hqx⟩
    obtain hpq | hqp := L.overlap (ha p hp) (hb q hq) hpx hqx
    · exact ⟨q, mem_common.mpr (.inr ⟨hq, p, hp, hpq⟩), hqx⟩
    · exact ⟨p, mem_common.mpr (.inl ⟨hp, q, hq, hqp⟩), hpx⟩

end Laminar

/-! ## Canonical lists -/

namespace Slices

section
variable {α : Type} {p q : α → Bool} {l : List α}

theorem any_congr (h : ∀ a ∈ l, p a = q a) : l.any p = l.any q := by
  rw [Bool.eq_iff_iff, List.any_eq_true, List.any_eq_true]
  refine exists_congr fun a => and_congr_right fun ha => ?_
  rw [h a ha]

theorem all_congr (h : ∀ a ∈ l, p a = q a) : l.all p = l.all q := by
  rw [Bool.eq_iff_iff, List.all_eq_true, List.all_eq_true]
  refine forall₂_congr fun a ha => ?_
  rw [h a ha]

end

variable {α : Type} [DecidableEq α]

def compact : List α → List α
  | [] => []
  | [a] => [a]
  | a :: b :: l => if a = b then compact (b :: l) else a :: compact (b :: l)

theorem mem_compact {x : α} {l : List α} : x ∈ compact l ↔ x ∈ l := by
  induction l with
  | nil => rfl
  | cons a l ih =>
    cases l with
    | nil => rfl
    | cons b l =>
      rw [compact]
      by_cases hab : a = b
      · rw [if_pos hab, ih, hab]
        simp
      · rw [if_neg hab]
        simp only [List.mem_cons, ih]

variable [LE α] [DecidableLE α]

def canonical (l : List α) : List α := compact (l.insertionSort (· ≤ ·))

/-- Sorting a list and dropping repetitions changes no member. -/
theorem mem_canonical {x : α} {l : List α} : x ∈ canonical l ↔ x ∈ l := by
  rw [canonical, mem_compact, List.mem_insertionSort]

theorem any_canonical {l : List α} {p : α → Bool} : (canonical l).any p = l.any p := by
  rw [Bool.eq_iff_iff, List.any_eq_true, List.any_eq_true]
  simp only [mem_canonical]

end Slices
