import Mathlib.Data.List.Basic
import Mathlib.Tactic.SplitIfs

/-!
# Recency

A history of operations, newest first, and the keys that each of them uses. A list of entries is in
order of recency if every entry was used after all those that follow it.
-/

namespace ProxyLoom

variable {ι κ α : Type} {uses : ι → κ → Bool} {key : α → κ} {op : ι} {history : List ι} {l : List α}

/-- The number of operations up to the last one that uses the key; zero if there is none. -/
def lastUse (uses : ι → κ → Bool) : List ι → κ → ℕ
  | [], _ => 0
  | op :: earlier, k => if uses op k then earlier.length + 1 else lastUse uses earlier k

theorem lastUse_le (history : List ι) (k : κ) : lastUse uses history k ≤ history.length := by
  induction history with
  | nil => exact Nat.le_refl 0
  | cons op earlier ih =>
    rw [lastUse, List.length_cons]
    split_ifs
    · exact Nat.le_refl _
    · omega

theorem lastUse_of_used {k : κ} (h : uses op k = true) (earlier : List ι) :
    lastUse uses (op :: earlier) k = earlier.length + 1 := if_pos h

theorem lastUse_of_unused {k : κ} (h : uses op k = false) (earlier : List ι) :
    lastUse uses (op :: earlier) k = lastUse uses earlier k := by
  rw [lastUse, if_neg]
  rw [h]
  exact Bool.false_ne_true

/-- The entries are in order of their last use, newest first. -/
def Recent (uses : ι → κ → Bool) (key : α → κ) (history : List ι) (l : List α) : Prop :=
  l.Pairwise fun a b => lastUse uses history (key b) < lastUse uses history (key a)

/-- An operation that uses no key of the list leaves it as it is. -/
theorem Recent.unused (h : Recent uses key history l)
    (hunused : ∀ a ∈ l, uses op (key a) = false) : Recent uses key (op :: history) l := by
  refine List.Pairwise.imp_of_mem (fun {a b} ha hb hab => ?_) h
  rw [lastUse_of_unused (hunused a ha), lastUse_of_unused (hunused b hb)]
  exact hab

theorem Recent.sublist {l' : List α} (h : Recent uses key history l)
    (hsub : l'.Sublist l) : Recent uses key history l' :=
  List.Pairwise.sublist hsub h

/-- An operation that uses one key moves its entry to the front. -/
theorem Recent.front {a : α}
    (h : Recent uses key history l) (hused : uses op (key a) = true)
    (hunused : ∀ b ∈ l, uses op (key b) = false) : Recent uses key (op :: history) (a :: l) := by
  refine List.pairwise_cons.mpr ⟨fun b hb => ?_, h.unused hunused⟩
  rw [lastUse_of_used hused, lastUse_of_unused (hunused b hb)]
  exact Nat.lt_succ_of_le (lastUse_le history (key b))

/-- The last entry is the least recently used one. -/
theorem Recent.oldest {a : α}
    (h : Recent uses key history (l ++ [a])) :
    ∀ b ∈ l, lastUse uses history (key a) < lastUse uses history (key b) := by
  intro b hb
  exact (List.pairwise_append.mp h).2.2 b hb a (List.mem_singleton.mpr rfl)

end ProxyLoom
