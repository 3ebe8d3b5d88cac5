import Mathlib.Tactic

/-!
# Transition systems

States, labelled steps, the states that runs reach, and the two rules every proof about runs
goes through: an invariant that each step preserves holds in every reachable state, and a relation
that each step respects holds between any two states of a run.
-/

structure Machine (σ ι : Type) where
  init : σ → Prop
  step : σ → ι → σ → Prop

namespace Machine

variable {σ ι : Type} (M : Machine σ ι)

inductive Reach : σ → Prop where
  | init {s : σ} : M.init s → Reach s
  | step {s t : σ} {l : ι} : Reach s → M.step s l t → Reach t

inductive Run : σ → σ → Prop where
  | refl (s : σ) : Run s s
  | step {s t u : σ} {l : ι} : Run s t → M.step t l u → Run s u

/-- The runs whose steps all meet a condition on the state before and the label. -/
def restrict (C : σ → ι → Prop) : Machine σ ι where
  init := M.init
  step s l t := C s l ∧ M.step s l t

variable {M} {s t : σ}

/-- **Invariant rule.** -/
theorem Reach.invariant {P : σ → Prop} (hinit : ∀ s, M.init s → P s)
    (hstep : ∀ s l t, M.Reach s → P s → M.step s l t → P t) (h : M.Reach s) : P s := by
  induction h with
  | init h => exact hinit _ h
  | step hr hs ih => exact hstep _ _ _ hr ih hs

theorem Reach.run (hs : M.Reach s) (h : M.Run s t) : M.Reach t := by
  induction h with
  | refl => exact hs
  | step _ hstep ih => exact Reach.step ih hstep

/-- **Run rule.** A reflexive and transitive relation between the states before and after each
step holds along every run. -/
theorem Run.relation {R : σ → σ → Prop} (hrefl : ∀ s, R s s)
    (htrans : ∀ s t u, R s t → R t u → R s u)
    (hstep : ∀ s l t, M.Reach s → M.step s l t → R s t) (hs : M.Reach s)
    (h : M.Run s t) : R s t := by
  induction h with
  | refl => exact hrefl s
  | step hrun hst ih => exact htrans _ _ _ ih (hstep _ _ _ (hs.run hrun) hst)

theorem Reach.of_restrict {C : σ → ι → Prop} (h : (M.restrict C).Reach s) :
    M.Reach s := by
  induction h with
  | init h => exact Reach.init h
  | step _ hs ih => exact Reach.step ih hs.2

theorem Run.of_restrict {C : σ → ι → Prop} (h : (M.restrict C).Run s t) : M.Run s t := by
  induction h with
  | refl => exact Run.refl _
  | step _ hs ih => exact Run.step ih hs.2

end Machine
