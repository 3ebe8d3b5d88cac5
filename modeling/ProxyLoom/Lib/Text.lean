import Mathlib.Tactic

/-!
# Text checks

Fixed-length patterns and character classes, as the anchored regular expressions of a schema spell
them. Everything is structurally recursive on the characters, so the checks evaluate.
-/

namespace Text

/-- One character for each class of the pattern, and nothing more. -/
def matchesClasses : List (Char → Bool) → List Char → Bool
  | [], [] => true
  | p :: ps, c :: cs => p c && matchesClasses ps cs
  | _, _ => false

theorem exists_class_of_matchesClasses {ps : List (Char → Bool)} :
    ∀ {cs : List Char}, matchesClasses ps cs = true → ∀ c ∈ cs, ∃ p ∈ ps, p c = true := by
  induction ps with
  | nil =>
    intro cs h c hc
    cases cs with
    | nil => cases hc
    | cons d cs => cases h
  | cons p ps ih =>
    intro cs h c hc
    cases cs with
    | nil => cases hc
    | cons d cs =>
      obtain ⟨hd, hcs⟩ := Bool.and_eq_true_iff.mp h
      rcases List.mem_cons.mp hc with rfl | hc
      · exact ⟨p, List.mem_cons_self, hd⟩
      · obtain ⟨q, hq, hqc⟩ := ih hcs c hc
        exact ⟨q, List.mem_cons_of_mem p hq, hqc⟩

def isLower (c : Char) : Bool := 'a' ≤ c && c ≤ 'z'

def isUpper (c : Char) : Bool := 'A' ≤ c && c ≤ 'Z'

def isDigit (c : Char) : Bool := '0' ≤ c && c ≤ '9'

def isLowerHex (c : Char) : Bool := isDigit c || ('a' ≤ c && c ≤ 'f')

def isHex (c : Char) : Bool := isLowerHex c || ('A' ≤ c && c ≤ 'F')

def isBase64Url (c : Char) : Bool := isLower c || isUpper c || isDigit c || c == '_' || c == '-'

def isControl (c : Char) : Bool := c < ' ' || c == '\x7f'

/-- The pattern of a UUID of version 1 to 8 in lower case. -/
def uuidClasses : List (Char → Bool) :=
  List.replicate 8 isLowerHex ++ [(· == '-')] ++ List.replicate 4 isLowerHex ++ [(· == '-')] ++
    [fun c => '1' ≤ c && c ≤ '8'] ++ List.replicate 3 isLowerHex ++ [(· == '-')] ++
    [fun c => c == '8' || c == '9' || c == 'a' || c == 'b'] ++ List.replicate 3 isLowerHex ++
    [(· == '-')] ++ List.replicate 12 isLowerHex

def isUUID (s : String) : Bool := matchesClasses uuidClasses s.toList

theorem le_of_isLowerHex {c : Char} (h : isLowerHex c = true) : c ≤ 'f' := by
  unfold isLowerHex isDigit at h
  rcases Bool.or_eq_true_iff.mp h with h | h
  · have hle : c ≤ '9' := of_decide_eq_true (Bool.and_eq_true_iff.mp h).2
    exact Char.le_trans hle (by decide)
  · exact of_decide_eq_true (Bool.and_eq_true_iff.mp h).2

theorem le_of_isUUID {s : String} (h : isUUID s = true) : ∀ c ∈ s.toList, c ≤ 'f' := by
  intro c hc
  obtain ⟨p, hp, hpc⟩ := exists_class_of_matchesClasses h c hc
  have hdash : (c == '-') = true → c ≤ 'f' := by
    intro hc
    rw [eq_of_beq hc]
    decide
  have hversion : (decide ('1' ≤ c) && decide (c ≤ '8')) = true → c ≤ 'f' := by
    intro hc
    exact Char.le_trans (of_decide_eq_true (Bool.and_eq_true_iff.mp hc).2) (by decide)
  have hvariant : (c == '8' || c == '9' || c == 'a' || c == 'b') = true → c ≤ 'f' := by
    intro hc
    simp only [Bool.or_eq_true, beq_iff_eq] at hc
    rcases hc with ((rfl | rfl) | rfl) | rfl <;> decide
  simp only [uuidClasses, List.mem_append, List.mem_replicate, List.mem_singleton] at hp
  rcases hp with (((((((((⟨-, rfl⟩ | rfl) | ⟨-, rfl⟩) | rfl) | rfl) | ⟨-, rfl⟩) | rfl) | rfl) |
    ⟨-, rfl⟩) | rfl) | ⟨-, rfl⟩
  · exact le_of_isLowerHex hpc
  · exact hdash hpc
  · exact le_of_isLowerHex hpc
  · exact hdash hpc
  · exact hversion hpc
  · exact le_of_isLowerHex hpc
  · exact hdash hpc
  · exact hvariant hpc
  · exact le_of_isLowerHex hpc
  · exact hdash hpc
  · exact le_of_isLowerHex hpc

end Text
