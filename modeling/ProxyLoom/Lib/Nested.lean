import ProxyLoom.Lib.Scan

/-!
# Nested text

Text with fields between commas, where a comma in parentheses separates nothing.
-/

namespace Nested

open List

def level (depth : ℕ) (c : Char) : ℕ :=
  if c = '(' then depth + 1 else if c = ')' then depth - 1 else depth

def glue (t : List Char) : List (List Char) → List (List Char)
  | [] => [t]
  | field :: fields => (t ++ field) :: fields

/-- The fields, where `depth` parentheses are open already. -/
def fields (depth : ℕ) : List Char → List (List Char)
  | [] => [[]]
  | c :: cs =>
    if c = ',' ∧ depth = 0 then [] :: fields 0 cs else glue [c] (fields (level depth c) cs)

def group (t : List Char) : List Char := '(' :: t ++ [')']

def ungroup : List Char → Option (List Char)
  | c :: cs => if c = '(' ∧ cs.getLast? = some ')' then some cs.dropLast else none
  | [] => none

theorem ungroup_group (t : List Char) : ungroup (group t) = some t := by
  simp [ungroup, group]

theorem glue_glue (s t : List Char) (l : List (List Char)) :
    glue s (glue t l) = glue (s ++ t) l := by
  cases l with
  | nil => rfl
  | cons field fields => simp [glue]

variable {l : List (List Char)}

theorem glue_nil (h : l ≠ []) : glue [] l = l := by
  cases l with
  | nil => exact absurd rfl h
  | cons field fields => rfl

theorem fields_ne_nil (d : ℕ) (t : List Char) : fields d t ≠ [] := by
  cases t with
  | nil => simp [fields]
  | cons c cs =>
    rw [fields]
    split_ifs with h
    · simp
    · cases fields (level d c) cs with
      | nil => simp [glue]
      | cons field rest => simp [glue]

/-! ## Parts of one field -/

/-- The text is a part of the field that it is found in, and what follows is at the same depth. -/
def Passes (d : ℕ) (t : List Char) : Prop :=
  ∀ rest, fields d (t ++ rest) = glue t (fields d rest)

/-- A character that is no comma and no parenthesis. -/
def Plain (c : Char) : Prop := c ≠ ',' ∧ c ≠ '(' ∧ c ≠ ')'

instance : DecidablePred Plain := fun c =>
  inferInstanceAs (Decidable (c ≠ ',' ∧ c ≠ '(' ∧ c ≠ ')'))

theorem forall_of_all {p : Char → Prop} [DecidablePred p] {t : List Char}
    (h : t.all (fun c => decide (p c)) = true) : ∀ c ∈ t, p c := by
  simpa using h

variable {d : ℕ} {s t : List Char}

theorem passes_nil : Passes d [] := fun rest => (glue_nil (fields_ne_nil d rest)).symm

theorem passes_append (hs : Passes d s) (ht : Passes d t) : Passes d (s ++ t) := by
  intro rest
  rw [append_assoc, hs, ht, glue_glue]

theorem passes_plain (h : ∀ c ∈ t, Plain c) : Passes d t := by
  induction t with
  | nil => exact passes_nil
  | cons c t ih =>
    obtain ⟨hcomma, hopen, hclose⟩ := h c mem_cons_self
    have hlevel : level d c = d := by simp [level, hopen, hclose]
    intro rest
    have htail := ih (fun c' hc' => h c' (mem_cons_of_mem _ hc')) rest
    rw [cons_append, fields, if_neg (by simp [hcomma]), hlevel, htail, glue_glue]
    rfl

theorem passes_comma : Passes (d + 1) [','] := by
  intro rest
  have hlevel : level (d + 1) ',' = d + 1 := by simp [level]
  rw [singleton_append, fields, if_neg (by simp), hlevel]

theorem passes_group (h : Passes (d + 1) t) : Passes d (group t) := by
  intro rest
  have hopen : level d '(' = d + 1 := by simp [level]
  have hclose : level (d + 1) ')' = d := by simp [level]
  have htext : group t ++ rest = '(' :: (t ++ ')' :: rest) := by simp [group]
  rw [htext, fields, if_neg (by simp), hopen, h, fields, if_neg (by simp), hclose, glue_glue,
    glue_glue]
  simp [group]

theorem passes_join (h : ∀ t ∈ l, Passes (d + 1) t) :
    Passes (d + 1) (Scan.join ',' l) := by
  induction l with
  | nil => exact passes_nil
  | cons t l ih =>
    have ht := h t mem_cons_self
    cases l with
    | nil => exact ht
    | cons next l =>
      have htail := ih fun t' ht' => h t' (mem_cons_of_mem _ ht')
      have htext : Scan.join ',' (t :: next :: l) = t ++ ([','] ++ Scan.join ',' (next :: l)) := rfl
      rw [htext]
      exact passes_append ht (passes_append passes_comma htail)

/-! ## Fields -/

theorem fields_of_passes (h : Passes 0 t) : fields 0 t = [t] := by
  have hrest := h []
  rw [append_nil] at hrest
  rw [hrest]
  simp [fields, glue]

theorem fields_cons (h : Passes 0 t) (rest : List Char) :
    fields 0 (t ++ ',' :: rest) = t :: fields 0 rest := by
  rw [h, fields, if_pos ⟨rfl, rfl⟩]
  simp [glue]

/-- The fields of joined text. -/
theorem fields_join (hne : l ≠ []) (h : ∀ t ∈ l, Passes 0 t) :
    fields 0 (Scan.join ',' l) = l := by
  induction l with
  | nil => exact absurd rfl hne
  | cons t l ih =>
    have ht := h t mem_cons_self
    cases l with
    | nil => exact fields_of_passes ht
    | cons next l =>
      rw [Scan.join, fields_cons ht,
        ih (cons_ne_nil _ _) fun t' ht' => h t' (mem_cons_of_mem _ ht')]

/-! ## Words behind commas -/

/-- The word, as its characters are written under `f`, stands behind a comma of the text. -/
def Behind (f : Char → Char) (word t : List Char) : Prop :=
  ∃ s, ',' :: s <:+ t ∧ word <+: s.map f

def Ends (t : List Char) : Prop := ∀ c, t.head? = some c → ¬Plain c

section
variable {f : Char → Char} {word : List Char}

theorem ends_nil : Ends [] := fun _ h => nomatch h

theorem ends_comma : Ends (',' :: t) := by
  intro c hc
  obtain rfl := Option.some.inj hc
  exact fun h => h.1 rfl

theorem ends_close : Ends (')' :: t) := by
  intro c hc
  obtain rfl := Option.some.inj hc
  exact fun h => h.2.2 rfl

theorem not_behind_nil : ¬Behind f word [] := by
  rintro ⟨s, hs, -⟩
  exact absurd (suffix_nil.mp hs) (cons_ne_nil _ _)

theorem behind_cons {c : Char} (h : c ≠ ',') : Behind f word (c :: t) ↔ Behind f word t := by
  refine exists_congr fun s => and_congr_left fun _ => ?_
  rw [suffix_cons_iff]
  refine or_iff_right fun heq => h ?_
  exact (List.cons.inj heq).1.symm

theorem behind_comma : Behind f word (',' :: t) ↔ word <+: t.map f ∨ Behind f word t := by
  constructor
  · rintro ⟨s, hs, hword⟩
    obtain heq | hs := suffix_cons_iff.mp hs
    · obtain rfl := (List.cons.inj heq).2
      exact .inl hword
    · exact .inr ⟨s, hs, hword⟩
  · rintro (hword | ⟨s, hs, hword⟩)
    · exact ⟨t, suffix_refl _, hword⟩
    · exact ⟨s, hs.trans (suffix_cons _ _), hword⟩

theorem behind_append (h : ',' ∉ s) : Behind f word (s ++ t) ↔ Behind f word t := by
  induction s with
  | nil => rfl
  | cons c s ih =>
    obtain ⟨hc, hs⟩ := not_or.mp (mem_cons.not.mp h)
    rw [cons_append, behind_cons (Ne.symm hc), ih hs]

variable (hword : ∀ c, ¬Plain c → f c ∉ word)

include hword

theorem starts_append {v : List Char} (ht : Ends t) :
    word <+: (v ++ t).map f ↔ word <+: v.map f := by
  rw [map_append]
  refine ⟨fun h => ?_, fun h => h.trans (prefix_append _ _)⟩
  obtain hle | ⟨r, hr⟩ := prefix_or_prefix_of_prefix h (prefix_append (v.map f) (t.map f))
  · exact hle
  · cases r with
    | nil =>
      rw [append_nil] at hr
      rw [hr]
    | cons a r =>
      rw [← hr, prefix_append_right_inj] at h
      cases t with
      | nil => exact absurd (prefix_nil.mp h) (cons_ne_nil _ _)
      | cons c t =>
        obtain ⟨rfl, -⟩ := cons_prefix_cons.mp h
        exact absurd (hr ▸ by simp) (hword c (ht c rfl))

theorem not_starts {c : Char} (hne : word ≠ []) (hc : ¬Plain c) : ¬word <+: (c :: t).map f := by
  intro h
  cases word with
  | nil => exact hne rfl
  | cons a w =>
    obtain ⟨rfl, -⟩ := cons_prefix_cons.mp h
    exact hword c hc mem_cons_self

end

end Nested
