import Mathlib.Data.List.Basic

/-!
# Readers

A reader gives its bytes in pieces of its own choosing: a call that asks for `k` bytes gets at most
`k` of them, perhaps none, and the end is reported with the last bytes or by a call of its own. The
script of a reader fixes its choices for the calls to come; when it runs out the reader gives as
much as it is asked for. Every finite interaction with a reader is of this form. -/

namespace ProxyLoom

open List

inductive ReadError where
  | eof
  | timeout
  | failed
deriving DecidableEq, Repr

structure ReadStep where
  /-- No more than this many bytes. -/
  size : ℕ
  /-- The caller's deadline has passed when the call returns. -/
  expired : Bool
deriving DecidableEq, Repr

structure Reader where
  /-- The bytes still to come. -/
  rest : List UInt8
  script : List ReadStep
  ending : ReadError
  /-- The end is reported together with the last bytes. -/
  withLast : Bool
deriving DecidableEq, Repr

namespace Reader

structure Answer where
  data : List UInt8
  error : Option ReadError
  expired : Bool
deriving DecidableEq, Repr

/-- The choice for the next call of at most `k` bytes. -/
def next (r : Reader) (k : ℕ) : ReadStep := r.script.headD ⟨k, false⟩

/-- The end, if it is reported with the last `n` bytes. -/
def endAfter (r : Reader) (n : ℕ) : Option ReadError :=
  if r.rest.length ≤ n ∧ r.withLast then some r.ending else none

def read (r : Reader) (k : ℕ) : Answer × Reader :=
  let step := r.next k
  let n := min k step.size
  let after := { r with rest := r.rest.drop n, script := r.script.tail }
  if n = 0 then (⟨[], none, step.expired⟩, after)
  else if r.rest = [] then (⟨[], some r.ending, step.expired⟩, after)
  else (⟨r.rest.take n, r.endAfter n, step.expired⟩, after)

def fuel (r : Reader) : ℕ := r.script.length + r.rest.length + 1

theorem length_data_le (r : Reader) (k : ℕ) : (r.read k).1.data.length ≤ k := by
  unfold read
  dsimp only
  split_ifs
  · exact Nat.zero_le k
  · exact Nat.zero_le k
  · rw [length_take]
    omega

theorem data_append_rest (r : Reader) (k : ℕ) :
    (r.read k).1.data ++ (r.read k).2.rest = r.rest := by
  unfold read
  dsimp only
  split_ifs with hn hrest
  · rw [hn, drop_zero, nil_append]
  · rw [hrest, drop_nil, append_nil]
  · rw [take_append_drop]

theorem read_withLast (r : Reader) (k : ℕ) : (r.read k).2.withLast = r.withLast := by
  unfold read
  dsimp only
  split_ifs <;> rfl

theorem read_ending (r : Reader) (k : ℕ) : (r.read k).2.ending = r.ending := by
  unfold read
  dsimp only
  split_ifs <;> rfl

theorem read_script (r : Reader) (k : ℕ) : (r.read k).2.script = r.script.tail := by
  unfold read
  dsimp only
  split_ifs <;> rfl

theorem read_expired (r : Reader) (k : ℕ) : (r.read k).1.expired = (r.next k).expired := by
  unfold read
  dsimp only
  split_ifs <;> rfl

/-- A call for some bytes reports the end exactly when it is there to be reported: with the last
bytes, if the reader does that, or when nothing was left. -/
theorem error_of_read {r : Reader} {k : ℕ} (h : (r.read k).1.error ≠ none) :
    (r.read k).1.error = some r.ending ∧ (r.read k).2.rest = [] ∧
      (r.rest ≠ [] → r.withLast = true) := by
  unfold read at h ⊢
  dsimp only at h ⊢
  split_ifs at h ⊢ with hn hrest
  · exact absurd rfl h
  · exact ⟨rfl, by rw [hrest, drop_nil], fun hne => absurd hrest hne⟩
  · unfold endAfter at h ⊢
    split_ifs at h ⊢ with hlast
    · exact ⟨rfl, drop_eq_nil_of_le hlast.1, fun _ => hlast.2⟩
    · exact absurd rfl h

/-- A call that reports no end left something to come, or did not report it with the last bytes; and
it brought the end nearer. -/
theorem no_error_of_read {r : Reader} {k : ℕ} (hk : 0 < k) (h : (r.read k).1.error = none) :
    (r.read k).2.fuel < r.fuel ∧
      ((r.read k).2.rest = [] → r.rest ≠ [] → r.withLast = false) := by
  unfold read at h ⊢
  dsimp only at h ⊢
  have hscript : min k (r.next k).size = 0 → r.script.tail.length < r.script.length := by
    intro hn
    unfold next at hn
    cases hs : r.script with
    | nil =>
      rw [hs] at hn
      simp only [headD_nil, Nat.min_self] at hn
      omega
    | cons step script => exact Nat.lt_succ_self _
  have htail : r.script.tail.length ≤ r.script.length := by
    rw [length_tail]
    exact Nat.sub_le _ _
  split_ifs at h ⊢ with hn hrest
  · refine ⟨?_, ?_⟩
    · have := hscript hn
      simp only [fuel, hn, drop_zero]
      omega
    · intro hnil hne
      rw [hn, drop_zero] at hnil
      exact absurd hnil hne
  · have hpos : 0 < r.rest.length := length_pos_of_ne_nil hrest
    refine ⟨?_, ?_⟩
    · simp only [fuel, length_drop]
      omega
    · intro hnil _
      unfold endAfter at h
      split_ifs at h with hlast
      rw [not_and, Bool.not_eq_true] at hlast
      exact hlast (drop_eq_nil_iff.mp hnil)

end Reader

end ProxyLoom
