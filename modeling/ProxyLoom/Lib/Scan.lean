import Mathlib.Tactic

/-!
# Scanning text

Cutting and splitting text at a separator, and reading numbers and ranges of numbers, with the laws
that read printed text back. Everything is structurally recursive on the characters.
-/

namespace Scan

open List

variable {sep : Char} {p : List Char} {a b c : Char}

/-! ## Cutting and splitting -/

/-- The text before the first separator and, if there is one, the text behind it. -/
def cut (sep : Char) : List Char → List Char × Option (List Char)
  | [] => ([], none)
  | c :: cs =>
    if c = sep then ([], some cs)
    else (c :: (cut sep cs).1, (cut sep cs).2)

theorem cut_append {rest : List Char} (h : sep ∉ p) :
    cut sep (p ++ sep :: rest) = (p, some rest) := by
  induction p with
  | nil => simp [cut]
  | cons c p ih =>
    obtain ⟨hc, hp⟩ := not_or.mp (mem_cons.not.mp h)
    rw [cons_append, cut, if_neg (Ne.symm hc), ih hp]

theorem cut_of_not_mem (h : sep ∉ p) : cut sep p = (p, none) := by
  induction p with
  | nil => rfl
  | cons c p ih =>
    obtain ⟨hc, hp⟩ := not_or.mp (mem_cons.not.mp h)
    rw [cut, if_neg (Ne.symm hc), ih hp]

def split (sep : Char) : List Char → List (List Char)
  | [] => [[]]
  | c :: cs =>
    if c = sep then [] :: split sep cs
    else
      match split sep cs with
      | [] => [[c]]
      | field :: fields => (c :: field) :: fields

def join (sep : Char) : List (List Char) → List Char
  | [] => []
  | [field] => field
  | field :: next :: fields => field ++ sep :: join sep (next :: fields)

theorem split_of_not_mem (h : sep ∉ p) : split sep p = [p] := by
  induction p with
  | nil => rfl
  | cons c p ih =>
    obtain ⟨hc, hp⟩ := not_or.mp (mem_cons.not.mp h)
    rw [split, if_neg (Ne.symm hc), ih hp]

theorem split_append {rest : List Char} (h : sep ∉ p) :
    split sep (p ++ sep :: rest) = p :: split sep rest := by
  induction p with
  | nil => simp [split]
  | cons c p ih =>
    obtain ⟨hc, hp⟩ := not_or.mp (mem_cons.not.mp h)
    rw [cons_append, split, if_neg (Ne.symm hc), ih hp]

theorem split_join {fields : List (List Char)} (hne : fields ≠ [])
    (h : ∀ field ∈ fields, sep ∉ field) : split sep (join sep fields) = fields := by
  induction fields with
  | nil => exact absurd rfl hne
  | cons field fields ih =>
    have hfield := h field mem_cons_self
    cases fields with
    | nil => exact split_of_not_mem hfield
    | cons next fields =>
      rw [join, split_append hfield,
        ih (cons_ne_nil _ _) fun f hf => h f (mem_cons_of_mem _ hf)]

def replace (a b : Char) (cs : List Char) : List Char := cs.map fun c => if c = a then b else c

theorem replace_append {q : List Char} :
    replace a b (p ++ q) = replace a b p ++ replace a b q := map_append

theorem replace_of_not_mem (h : a ∉ p) : replace a b p = p := by
  have hid : p.map (fun c => if c = a then b else c) = p.map id := by
    refine map_congr_left fun c hc => ?_
    have hne : c ≠ a := by
      rintro rfl
      exact h hc
    rw [if_neg hne, id]
  rw [replace, hid, map_id]

theorem replace_join (hs : sep ≠ a) {fields : List (List Char)} :
    replace a b (join sep fields) = join sep (fields.map (replace a b)) := by
  induction fields with
  | nil => rfl
  | cons field fields ih =>
    cases fields with
    | nil => rfl
    | cons next fields =>
      rw [join, replace_append, map_cons, map_cons, join, ← map_cons, ← ih]
      simp [replace, hs]

/-! ## Numbers -/

def number (cs : List Char) : Option ℕ :=
  if cs ≠ [] ∧ cs.all Char.isDigit then some (Nat.ofDigitChars 10 cs 0) else none

def digits (n : ℕ) : List Char := (toString n).toList

theorem digits_eq (n : ℕ) : digits n = Nat.toDigits 10 n := by
  unfold digits
  rw [Nat.toString_eq_ofList_toDigits, String.toList_ofList]

theorem isDigit_of_mem_digits {n : ℕ} (h : c ∈ digits n) : c.isDigit := by
  rw [digits_eq] at h
  exact Nat.isDigit_of_mem_toDigits (by omega) (by omega) h

theorem not_mem_digits {n : ℕ} (h : c.isDigit = false) : c ∉ digits n := by
  intro hc
  rw [isDigit_of_mem_digits hc] at h
  cases h

theorem digits_ne_nil (n : ℕ) : digits n ≠ [] := by
  rw [digits_eq]
  exact Nat.toDigits_ne_nil

theorem number_digits (n : ℕ) : number (digits n) = some n := by
  have hall : (digits n).all Char.isDigit = true :=
    all_eq_true.mpr fun c hc => isDigit_of_mem_digits hc
  unfold number
  rw [if_pos ⟨digits_ne_nil n, hall⟩, digits_eq, Nat.ofDigitChars_ten_toDigits]

theorem number_of_mem {cs : List Char} (hc : c ∈ cs) (h : c.isDigit = false) :
    number cs = none := by
  unfold number
  refine if_neg fun hn => ?_
  rw [all_eq_true.mp hn.2 c hc] at h
  cases h

/-! ## Ranges -/

/-- A number, or two numbers with a separator between them. -/
def range (sep : Char) (cs : List Char) : Option (ℕ × ℕ) :=
  match cut sep cs with
  | (a, none) => (number a).map fun n => (n, n)
  | (a, some b) => (number a).bind fun n => (number b).map fun m => (n, m)

theorem range_single (h : sep.isDigit = false) (n : ℕ) :
    range sep (digits n) = some (n, n) := by
  unfold range
  rw [cut_of_not_mem (not_mem_digits h)]
  simp only [number_digits, Option.map_some]

theorem range_pair (h : sep.isDigit = false) (n m : ℕ) :
    range sep (digits n ++ sep :: digits m) = some (n, m) := by
  unfold range
  rw [cut_append (not_mem_digits h)]
  simp only [number_digits, Option.bind_some, Option.map_some]

end Scan
