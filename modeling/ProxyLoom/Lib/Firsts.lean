import Mathlib.Data.List.Dedup
import Mathlib.Data.Finset.Card
import ProxyLoom.Lib.Result

/-!
# The first element of each key

A loop that skips the elements whose key it has met runs over the first element of each key. The
keys that were met before the loop are a parameter, so that the loop can be taken apart.
-/

namespace List

variable {α κ : Type} [DecidableEq κ] (key : α → κ) {l : List α}

/-- The first element of each key that was not met. -/
def firsts (met : List κ) : List α → List α
  | [] => []
  | a :: l => if key a ∈ met then firsts met l else a :: firsts (key a :: met) l

theorem mem_of_mem_firsts {met : List κ} {a : α} (h : a ∈ firsts key met l) :
    a ∈ l ∧ key a ∉ met := by
  induction l generalizing met with
  | nil => cases h
  | cons b l ih =>
    rw [firsts] at h
    split_ifs at h with hb
    · exact ⟨mem_cons_of_mem _ (ih h).1, (ih h).2⟩
    · rcases mem_cons.mp h with rfl | h
      · exact ⟨mem_cons_self, hb⟩
      · obtain ⟨hmem, hkey⟩ := ih h
        exact ⟨mem_cons_of_mem _ hmem, fun hmet => hkey (mem_cons_of_mem _ hmet)⟩

/-- Every key that was not met has a first element. -/
theorem exists_firsts {met : List κ} {a : α} (ha : a ∈ l) (hkey : key a ∉ met) :
    ∃ b ∈ firsts key met l, key b = key a := by
  induction l generalizing met with
  | nil => cases ha
  | cons c l ih =>
    rw [firsts]
    by_cases hc : key c ∈ met
    · rw [if_pos hc]
      rcases mem_cons.mp ha with rfl | ha
      · exact absurd hc hkey
      · exact ih ha hkey
    · rw [if_neg hc]
      by_cases heq : key a = key c
      · exact ⟨c, mem_cons_self, heq.symm⟩
      · rcases mem_cons.mp ha with rfl | ha
        · exact absurd rfl heq
        · have hmet : key a ∉ key c :: met := by
            rw [mem_cons]
            rintro (h | h)
            · exact heq h
            · exact hkey h
          obtain ⟨b, hb, hba⟩ := ih ha hmet
          exact ⟨b, mem_cons_of_mem _ hb, hba⟩

theorem firsts_keys_nodup (met : List κ) (l : List α) : ((firsts key met l).map key).Nodup := by
  induction l generalizing met with
  | nil => exact nodup_nil
  | cons a l ih =>
    rw [firsts]
    split_ifs with ha
    · exact ih met
    · rw [map_cons, nodup_cons]
      refine ⟨fun hmem => ?_, ih _⟩
      obtain ⟨b, hb, hba⟩ := mem_map.mp hmem
      exact (mem_of_mem_firsts key hb).2 (hba ▸ mem_cons_self)

/-- There are as many as there are keys. -/
theorem length_firsts (l : List α) : (firsts key [] l).length = (l.map key).dedup.length := by
  have hmem : ((firsts key [] l).map key).toFinset = (l.map key).toFinset := by
    ext k
    simp only [mem_toFinset, mem_map]
    constructor
    · rintro ⟨a, ha, rfl⟩
      exact ⟨a, (mem_of_mem_firsts key ha).1, rfl⟩
    · rintro ⟨a, ha, rfl⟩
      exact exists_firsts key ha not_mem_nil
  calc (firsts key [] l).length = ((firsts key [] l).map key).length := (length_map _).symm
    _ = ((firsts key [] l).map key).toFinset.card :=
      (toFinset_card_of_nodup (firsts_keys_nodup key [] l)).symm
    _ = (l.map key).toFinset.card := by rw [hmem]
    _ = (l.map key).dedup.length := card_toFinset _

omit [DecidableEq κ] in
/-- In a list without a repeated key, a symmetric relation between neighbours and later elements is
one between all elements of different keys. -/
theorem pairwise_iff_of_keys {R : α → α → Prop} (hkeys : (l.map key).Nodup)
    (hsymm : ∀ a b, R a b → R b a) :
    l.Pairwise R ↔ ∀ a ∈ l, ∀ b ∈ l, key a ≠ key b → R a b := by
  constructor
  · intro h a ha b hb hne
    have hR : Std.Symm R := ⟨hsymm⟩
    exact h.forall ha hb fun heq => hne (heq ▸ rfl)
  · intro h
    have hne : l.Pairwise fun a b => key a ≠ key b := pairwise_map.mp hkeys
    exact hne.imp_of_mem fun ha hb => h _ ha _ hb

/-! ## Loops -/

section
variable {ε β : Type}

/-- A relation between the elements that were visited and the state, kept by every round. -/
theorem foldlM_invariant {f : β → α → Except ε β} (P : List α → β → Prop)
    (hstep : ∀ done b a b', P done b → f b a = .ok b' → P (done ++ [a]) b')
    {l done : List α} {b b' : β} (hb : P done b) (h : l.foldlM f b = .ok b') :
    P (done ++ l) b' := by
  induction l generalizing done b with
  | nil =>
    rw [foldlM_nil] at h
    cases h
    rwa [append_nil]
  | cons a l ih =>
    rw [foldlM_cons] at h
    obtain ⟨c, hc, hrest⟩ := Except.of_bind h
    have hnext := ih (hstep done b a c hb hc) hrest
    rwa [append_assoc, singleton_append] at hnext

/-- What a fallible loop preserves on the elements that it does not skip. -/
theorem foldlM_firsts {f : β → α → Except ε β} (met : β → List κ) (P : List α → β → Prop)
    (hskip : ∀ b a b', key a ∈ met b → f b a = .ok b' → b' = b)
    (hmet : ∀ b a b', key a ∉ met b → f b a = .ok b' → met b' = key a :: met b)
    (hstep : ∀ done b a b', key a ∉ met b → P done b → f b a = .ok b' → P (done ++ [a]) b')
    {l done : List α} {b b' : β} (hb : P done b) (h : l.foldlM f b = .ok b') :
    P (done ++ firsts key (met b) l) b' := by
  induction l generalizing done b with
  | nil =>
    rw [foldlM_nil] at h
    cases h
    rwa [firsts, append_nil]
  | cons a l ih =>
    rw [foldlM_cons] at h
    obtain ⟨c, hc, hrest⟩ := Except.of_bind h
    rw [firsts]
    split_ifs with ha
    · rw [hskip b a c ha hc] at hrest
      exact ih hb hrest
    · have hnext := ih (hstep done b a c ha hb hc) hrest
      rwa [hmet b a c ha hc, append_assoc, singleton_append] at hnext

end

end List
