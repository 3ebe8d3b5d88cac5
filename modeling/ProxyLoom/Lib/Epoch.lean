import Mathlib.Tactic

/-!
# Epochs

A secret is stamped with an epoch. One stamped secret is below another when its epoch is, and equal
epochs stamp equal secrets. An owner that only ever moves upwards may hand out epochs in place of
secrets: whoever finds the epoch unchanged knows that the secret is unchanged.
-/

@[ext] structure Stamped (κ : Type) where
  epoch : ℕ
  secret : κ
deriving DecidableEq

namespace Stamped

variable {κ : Type} {a b : Stamped κ}

instance : PartialOrder (Stamped κ) where
  le a b := a.epoch ≤ b.epoch ∧ (a.epoch = b.epoch → a.secret = b.secret)
  le_refl a := ⟨le_refl _, fun _ => rfl⟩
  le_trans a b c hab hbc := by
    refine ⟨hab.1.trans hbc.1, fun hac => ?_⟩
    have h₁ := hab.1
    have h₂ := hbc.1
    rw [hab.2 (by omega), hbc.2 (by omega)]
  le_antisymm a b hab hba := by
    have hepoch : a.epoch = b.epoch := le_antisymm hab.1 hba.1
    ext
    · exact hepoch
    · exact hab.2 hepoch

theorem le_of_epoch_lt (h : a.epoch < b.epoch) : a ≤ b :=
  ⟨h.le, fun heq => absurd heq h.ne⟩

theorem le_of_secret_eq (hepoch : a.epoch ≤ b.epoch)
    (hsecret : a.secret = b.secret) : a ≤ b :=
  ⟨hepoch, fun _ => hsecret⟩

/-- **An unchanged epoch stamps an unchanged secret.** -/
theorem secret_eq (h : a ≤ b) (hepoch : a.epoch = b.epoch) :
    a.secret = b.secret :=
  h.2 hepoch

end Stamped
