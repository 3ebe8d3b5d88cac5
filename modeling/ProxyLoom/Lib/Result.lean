import Mathlib.Tactic

/-!
# Peeling computations that may fail

A computation in `Except` that succeeds has succeeded at each of its steps, and a loop at each of
its elements: its input and its output are related entry by entry.
-/

namespace Except

open List

variable {ε α β : Type} {x : Except ε α} {f : α → Except ε β} {b : β} {a : α} {e : ε}

theorem bind_eq_ok_iff :
    (x >>= f) = .ok b ↔ ∃ a, x = .ok a ∧ f a = .ok b := by
  cases x with
  | error e =>
    constructor
    · intro h
      cases h
    · rintro ⟨a, h, -⟩
      cases h
  | ok a =>
    constructor
    · intro h
      exact ⟨a, rfl, h⟩
    · rintro ⟨a', h, hb⟩
      cases h
      exact hb

theorem of_bind (h : (x >>= f) = .ok b) :
    ∃ a, x = .ok a ∧ f a = .ok b :=
  bind_eq_ok_iff.mp h

@[simp] theorem pure_eq_ok_iff {b : α} : (pure a : Except ε α) = .ok b ↔ a = b := by
  constructor
  · intro h
    cases h
    rfl
  · rintro rfl
    rfl

theorem ite_error_eq_ok_iff {c : Prop} [Decidable c] :
    (if c then .error e else x) = .ok a ↔ ¬c ∧ x = .ok a := by
  by_cases h : c
  · simp [h]
  · simp [h]

theorem of_ite {c : Prop} [Decidable c]
    (h : (if c then .error e else x) = .ok a) : ¬c ∧ x = .ok a :=
  ite_error_eq_ok_iff.mp h

def error? : Except ε α → Option ε
  | .error e => some e
  | .ok _ => none

theorem eq_error_of_error? (h : x.error? = some e) : x = .error e := by
  cases x with
  | error e' => rw [Option.some.inj h]
  | ok a => cases h

theorem eq_ok_of_toOption (h : x.toOption = some a) : x = .ok a := by
  cases x with
  | error e => cases h
  | ok a' => rw [Option.some.inj h]

theorem toOption_map_eq_some_iff {f : α → β} :
    x.toOption.map f = some b ↔ ∃ a, x = .ok a ∧ f a = b := by
  cases x with
  | error e => simp [Except.toOption]
  | ok a => simp [Except.toOption]

theorem map_eq_ok_iff {f : α → β} :
    x.map f = .ok b ↔ ∃ a, x = .ok a ∧ f a = b := by
  cases x with
  | error e => simp [Except.map]
  | ok a => simp [Except.map]

theorem of_map {f : α → β} (h : x.map f = .ok b) : ∃ a, x = .ok a ∧ f a = b :=
  map_eq_ok_iff.mp h

theorem mapError_eq_ok_iff {δ : Type} {f : ε → δ} :
    x.mapError f = .ok a ↔ x = .ok a := by
  cases x with
  | error e => simp [Except.mapError]
  | ok b => simp [Except.mapError]

theorem mapM_eq_ok_iff {l : List α} {r : List β} :
    l.mapM f = .ok r ↔ List.Forall₂ (fun a b => f a = .ok b) l r := by
  induction l generalizing r with
  | nil =>
    rw [mapM_nil, pure_eq_ok_iff, forall₂_nil_left_iff, eq_comm]
  | cons a l ih =>
    rw [mapM_cons, bind_eq_ok_iff, forall₂_cons_left_iff]
    refine exists_congr fun b => ?_
    rw [bind_eq_ok_iff]
    constructor
    · rintro ⟨ha, bs, hl, hr⟩
      exact ⟨bs, ha, ih.mp hl, (pure_eq_ok_iff.mp hr).symm⟩
    · rintro ⟨bs, ha, hl, rfl⟩
      exact ⟨ha, bs, ih.mpr hl, rfl⟩

end Except

/-! ## Lists related entry by entry -/

namespace List.Forall₂

variable {α β : Type} {R : α → β → Prop} {l : List α} {r : List β} {p : α → Bool} {q : β → Bool}

theorem exists_right (h : List.Forall₂ R l r) {a : α} (ha : a ∈ l) : ∃ b ∈ r, R a b := by
  induction h with
  | nil => cases ha
  | cons hab _ ih =>
    obtain rfl | ha := mem_cons.mp ha
    · exact ⟨_, mem_cons_self, hab⟩
    · obtain ⟨b, hb, hR⟩ := ih ha
      exact ⟨b, mem_cons_of_mem _ hb, hR⟩

theorem exists_left (h : List.Forall₂ R l r) {b : β} (hb : b ∈ r) : ∃ a ∈ l, R a b := by
  obtain ⟨a, ha, hR⟩ := h.flip.exists_right hb
  exact ⟨a, ha, hR⟩

theorem compose {γ : Type} {S : β → γ → Prop} {T : α → γ → Prop} {t : List γ}
    (h : List.Forall₂ R l r) (h' : List.Forall₂ S r t) (hT : ∀ a b c, R a b → S b c → T a c) :
    List.Forall₂ T l t := by
  induction h generalizing t with
  | nil =>
    cases h'
    exact .nil
  | cons hab _ ih =>
    obtain ⟨c, t', hbc, htail, rfl⟩ := forall₂_cons_left_iff.mp h'
    exact .cons (hT _ _ _ hab hbc) (ih htail)

theorem any_eq (h : List.Forall₂ (fun a b => p a = q b) l r) :
    l.any p = r.any q := by
  induction h with
  | nil => rfl
  | cons hab _ ih => rw [any_cons, any_cons, hab, ih]

theorem find?_rel (hpq : ∀ a b, R a b → p a = q b)
    (h : List.Forall₂ R l r) : Option.Rel R (l.find? p) (r.find? q) := by
  induction h with
  | nil => exact .none
  | @cons a b l r hab _ ih =>
    cases hp : p a with
    | true =>
      rw [List.find?_cons_of_pos hp, List.find?_cons_of_pos (hpq a b hab ▸ hp)]
      exact .some hab
    | false =>
      have hq : q b = false := hpq a b hab ▸ hp
      rwa [List.find?_cons_of_neg (by simp [hp]), List.find?_cons_of_neg (by simp [hq])]

theorem find?_map_eq {γ : Type} {f : α → γ} {g : β → γ}
    (h : List.Forall₂ (fun a b => p a = q b ∧ f a = g b) l r) :
    (l.find? p).map f = (r.find? q).map g := by
  induction h with
  | nil => rfl
  | @cons a b l r hab _ ih =>
    obtain ⟨hpq, hfg⟩ := hab
    cases hp : p a with
    | true => rw [List.find?_cons_of_pos hp, List.find?_cons_of_pos (hpq ▸ hp), Option.map_some,
        Option.map_some, hfg]
    | false =>
      have hq : q b = false := hpq ▸ hp
      rw [List.find?_cons_of_neg (by simp [hp]), List.find?_cons_of_neg (by simp [hq]), ih]

end List.Forall₂
