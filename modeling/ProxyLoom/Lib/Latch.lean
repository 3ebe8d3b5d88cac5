import Mathlib.Tactic

/-!
# Transactions with a latch

A callback writes through a handle. The handle latches the first write that fails: later writes fail
with it, and whoever runs the callback can tell, even if the callback swallowed the error. Once the
handle is closed it writes nothing.
-/

namespace Latch

variable {σ ε ι ρ α : Type}

/-- The handle of a transaction over the state `σ`. -/
structure Tx (σ ε : Type) where
  state : σ
  active : Bool
  dirty : Bool
  failed : Option ε

def Tx.start (s : σ) : Tx σ ε := ⟨s, true, false, none⟩

def Tx.close (t : Tx σ ε) : Tx σ ε := { t with active := false }

def Tx.call (closed : ε) (t : Tx σ ε) (op : σ → Except ε (σ × ρ)) : Tx σ ε × Except ε ρ :=
  if !t.active then (t, .error closed)
  else
    match t.failed with
    | some e => (t, .error e)
    | none =>
      match op t.state with
      | .error e => ({ t with failed := some e }, .error e)
      | .ok (s, r) => ({ t with state := s, dirty := true }, .ok r)

/-- A callback sees the result of each of its writes before it goes on. -/
inductive Callback (ι ε ρ α : Type) where
  | ret (a : α)
  | call (op : ι) (next : Except ε ρ → Callback ι ε ρ α)

/-- The handle after a callback, the results of its writes, and what it returns. -/
def Callback.run (closed : ε) (exec : ι → σ → Except ε (σ × ρ)) :
    Callback ι ε ρ α → Tx σ ε → Tx σ ε × List (Except ε ρ) × α
  | .ret a, t => (t, [], a)
  | .call op next, t =>
    let step := t.call closed (exec op)
    let rest := (next step.2).run closed exec step.1
    (rest.1, step.2 :: rest.2.1, rest.2.2)

def late (closed : ε) (exec : ι → σ → Except ε (σ × ρ)) (ops : List ι) (t : Tx σ ε) : Tx σ ε :=
  ops.foldl (fun t op => (t.call closed (exec op)).1) t

/-! ## The latch -/

variable {closed : ε} {exec : ι → σ → Except ε (σ × ρ)} {t : Tx σ ε} {e : ε}

theorem call_of_closed (h : t.active = false) (op : σ → Except ε (σ × ρ)) :
    t.call closed op = (t, .error closed) := by
  simp [Tx.call, h]

/-- **A closed handle writes nothing.** -/
theorem late_of_closed (h : t.active = false) (ops : List ι) :
    late closed exec ops t = t := by
  induction ops with
  | nil => rfl
  | cons op ops ih =>
    show late closed exec ops (t.call closed (exec op)).1 = t
    rw [call_of_closed h]
    exact ih

theorem call_failed (h : t.failed = some e) (op : σ → Except ε (σ × ρ)) :
    (t.call closed op).1.failed = some e := by
  unfold Tx.call
  split_ifs
  · exact h
  · rw [h]
    exact h

theorem call_active (t : Tx σ ε) (op : σ → Except ε (σ × ρ)) :
    (t.call closed op).1.active = t.active := by
  unfold Tx.call
  split_ifs
  · rfl
  · split
    · rfl
    · split <;> rfl

theorem call_latches (hactive : t.active = true) {op : σ → Except ε (σ × ρ)}
    (h : (t.call closed op).2 = .error e) : (t.call closed op).1.failed ≠ none := by
  unfold Tx.call at h ⊢
  rw [hactive] at h ⊢
  simp only [Bool.not_true, Bool.false_eq_true, if_false] at h ⊢
  cases hfailed : t.failed with
  | some e' => simp [hfailed]
  | none =>
    rw [hfailed] at h
    cases hop : op t.state with
    | error e' => simp
    | ok r =>
      rw [hop] at h
      cases h

theorem run_failed (c : Callback ι ε ρ α) (h : t.failed = some e) :
    (c.run closed exec t).1.failed = some e := by
  induction c generalizing t with
  | ret a => exact h
  | call op next ih => exact ih _ (call_failed h _)

/-- **No swallowed error.** If any write of the callback failed, the handle says so. -/
theorem run_latches (c : Callback ι ε ρ α) (hactive : t.active = true)
    (h : .error e ∈ (c.run closed exec t).2.1) : (c.run closed exec t).1.failed ≠ none := by
  induction c generalizing t with
  | ret a => cases h
  | call op next ih =>
    obtain h | h := List.mem_cons.mp h
    · obtain ⟨e', he'⟩ := Option.ne_none_iff_exists'.mp (call_latches hactive h.symm)
      show ((next _).run closed exec _).1.failed ≠ none
      rw [run_failed _ he']
      exact Option.some_ne_none e'
    · exact ih _ ((call_active _ _).trans hactive) h

/-- **Invariant rule.** What every write keeps, a callback keeps. -/
theorem run_invariant {P : σ → Prop} (hexec : ∀ op s s' r, exec op s = .ok (s', r) → P s → P s')
    (c : Callback ι ε ρ α) (h : P t.state) : P (c.run closed exec t).1.state := by
  induction c generalizing t with
  | ret a => exact h
  | call op next ih =>
    refine ih _ ?_
    unfold Tx.call
    split_ifs
    · exact h
    · split
      · exact h
      · split
        · exact h
        · next s r hop => exact hexec op _ _ _ hop h

end Latch
