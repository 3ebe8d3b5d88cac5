import Mathlib.Algebra.BigOperators.Group.List.Basic
import Mathlib.Data.List.Nodup
import Mathlib.Tactic

/-!
# Keyed tables

A table is a list of rows with pairwise different keys; the uniqueness is part of the type, so a
primary key or a unique constraint needs no invariant of its own. `insert?` refuses a row whose key
is taken, `modify` rewrites one row in place.

The lemmas say what a lookup finds after each operation, and how a sum over the rows changes.
-/

structure Table {κ ρ : Type} (key : ρ → κ) where
  rows : List ρ
  nodup : (rows.map key).Nodup

namespace Table

open List

variable {κ ρ : Type} [DecidableEq κ] {key : ρ → κ} {t t' : Table key} {r : ρ} {k : κ}

def empty : Table key := ⟨[], nodup_nil⟩

def find? (t : Table key) (k : κ) : Option ρ := t.rows.find? fun r => key r = k

theorem find?_eq_some_iff (t : Table key) (k : κ) (r : ρ) :
    t.find? k = some r ↔ r ∈ t.rows ∧ key r = k := by
  constructor
  · intro h
    exact ⟨mem_of_find?_eq_some h, by simpa using List.find?_some h⟩
  · rintro ⟨hr, rfl⟩
    cases hf : t.find? (key r) with
    | none =>
      have := List.find?_eq_none.mp hf r hr
      simp at this
    | some r' =>
      have hr' : r' ∈ t.rows := mem_of_find?_eq_some hf
      have hk : key r' = key r := by simpa using List.find?_some hf
      rw [inj_on_of_nodup_map t.nodup hr' hr hk]

variable (key) in
/-- A map filled entry by entry keeps the last entry of a key. -/
theorem exists_find?_reverse {l : List ρ} (hr : r ∈ l) (hk : key r = k) :
    ∃ e ∈ l, key e = k ∧ (l.reverse.find? fun e => key e = k) = some e := by
  have hsome : (l.reverse.find? fun e => key e = k).isSome := by
    rw [List.find?_isSome]
    exact ⟨r, mem_reverse.mpr hr, by simpa using hk⟩
  obtain ⟨e, he⟩ := Option.isSome_iff_exists.mp hsome
  exact ⟨e, mem_reverse.mp (mem_of_find?_eq_some he), by simpa using List.find?_some he, he⟩

theorem mem_of_find? (h : t.find? k = some r) : r ∈ t.rows :=
  ((t.find?_eq_some_iff k r).mp h).1

theorem key_of_find? (h : t.find? k = some r) : key r = k :=
  ((t.find?_eq_some_iff k r).mp h).2

theorem find?_of_mem (h : r ∈ t.rows) : t.find? (key r) = some r :=
  (t.find?_eq_some_iff _ _).mpr ⟨h, rfl⟩

theorem key_ne_of_find?_eq_none (h : t.find? k = none) (hr : r ∈ t.rows) : key r ≠ k := by
  rintro rfl
  rw [find?_of_mem hr] at h
  cases h

/-! ## Inserting -/

def insert? (t : Table key) (r : ρ) : Option (Table key) :=
  if h : t.find? (key r) = none then
    some ⟨t.rows ++ [r], by
      rw [map_append, nodup_append]
      refine ⟨t.nodup, by simp, ?_⟩
      intro a ha b hb
      obtain ⟨r', hr', rfl⟩ := mem_map.mp ha
      rw [map_singleton, mem_singleton] at hb
      rw [hb]
      exact key_ne_of_find?_eq_none h hr'⟩
  else none

theorem insert?_eq_some_iff :
    t.insert? r = some t' ↔ t.find? (key r) = none ∧ t'.rows = t.rows ++ [r] := by
  unfold insert?
  split_ifs with h
  · rw [Option.some.injEq]
    constructor
    · rintro rfl
      exact ⟨h, rfl⟩
    · rintro ⟨-, hrows⟩
      cases t'
      simp only at hrows
      subst hrows
      rfl
  · simp [h]

theorem find?_of_insert?_eq_none (h : t.insert? r = none) :
    t.find? (key r) ≠ none := by
  intro hnone
  unfold insert? at h
  rw [dif_pos hnone] at h
  cases h

theorem find?_insert? (h : t.insert? r = some t') (k : κ) :
    t'.find? k = if k = key r then some r else t.find? k := by
  obtain ⟨hnone, hrows⟩ := insert?_eq_some_iff.mp h
  unfold find? at hnone ⊢
  rw [hrows, List.find?_append]
  by_cases hk : k = key r
  · subst hk
    rw [hnone, if_pos rfl]
    simp
  · have hr : ¬ key r = k := fun h => hk h.symm
    rw [if_neg hk]
    simp [hr]

theorem mem_insert? (h : t.insert? r = some t') (x : ρ) :
    x ∈ t'.rows ↔ x ∈ t.rows ∨ x = r := by
  rw [(insert?_eq_some_iff.mp h).2]
  simp

/-! ## Rewriting one row -/

/-- Rewrite the row with key `k`, if there is one. -/
def modify (t : Table key) (k : κ) (f : ρ → ρ) (hf : ∀ r, key (f r) = key r) : Table key :=
  ⟨t.rows.map fun r => if key r = k then f r else r, by
    have hkeys : (t.rows.map fun r => if key r = k then f r else r).map key = t.rows.map key := by
      rw [map_map]
      refine map_congr_left fun r _ => ?_
      rw [Function.comp_apply]
      split_ifs
      · exact hf r
      · rfl
    rw [hkeys]
    exact t.nodup⟩

theorem find?_modify (t : Table key) (k : κ) (f : ρ → ρ) (hf : ∀ r, key (f r) = key r) (k' : κ) :
    (t.modify k f hf).find? k' = if k' = k then (t.find? k).map f else t.find? k' := by
  unfold find? modify
  rw [List.find?_map]
  have hpred : ((fun r => decide (key r = k')) ∘ fun r => if key r = k then f r else r) =
      fun r => decide (key r = k') := by
    funext r
    rw [Function.comp_apply]
    split_ifs
    · rw [hf r]
    · rfl
  rw [hpred]
  by_cases hk : k' = k
  · subst hk
    rw [if_pos rfl]
    cases h : t.rows.find? fun r => decide (key r = k') with
    | none => rfl
    | some r =>
      have hr : key r = k' := by simpa using List.find?_some h
      simp [hr]
  · rw [if_neg hk]
    cases h : t.rows.find? fun r => decide (key r = k') with
    | none => rfl
    | some r =>
      have hr : key r = k' := by simpa using List.find?_some h
      have hne : ¬ key r = k := by
        rw [hr]
        exact hk
      simp [hne]

theorem find?_modify_self (t : Table key) (k : κ) (f : ρ → ρ) (hf : ∀ r, key (f r) = key r) :
    (t.modify k f hf).find? k = (t.find? k).map f := by
  rw [find?_modify, if_pos rfl]

theorem find?_modify_ne (t : Table key) {k' : κ} (f : ρ → ρ) (hf : ∀ r, key (f r) = key r)
    (h : k' ≠ k) : (t.modify k f hf).find? k' = t.find? k' := by
  rw [find?_modify, if_neg h]

/-! ## Inserting or replacing -/

/-- Add a row, or put it in the place of the row with its key. -/
def upsert (t : Table key) (r : ρ) : Table key :=
  match t.insert? r with
  | some t' => t'
  | none => t.modify (key r) (fun x => if key x = key r then r else x) fun x => by
    split_ifs with h
    · exact h.symm
    · rfl

theorem find?_upsert (t : Table key) (r : ρ) (k : κ) :
    (t.upsert r).find? k = if k = key r then some r else t.find? k := by
  unfold upsert
  split
  · next hins => exact find?_insert? hins k
  · next hnone =>
    rw [find?_modify]
    split_ifs with hk
    · cases hr : t.find? (key r) with
      | none => exact absurd hr (find?_of_insert?_eq_none hnone)
      | some x =>
        rw [Option.map_some, if_pos (key_of_find? hr)]
    · rfl

/-! ## Sums over the rows -/

def sum (t : Table key) (charge : ρ → ℤ) : ℤ := (t.rows.map charge).sum

theorem sum_insert? (h : t.insert? r = some t') (charge : ρ → ℤ) :
    t'.sum charge = t.sum charge + charge r := by
  unfold sum
  rw [(insert?_eq_some_iff.mp h).2]
  simp

theorem sum_modify (t : Table key) (k : κ) (f : ρ → ρ) (hf : ∀ r, key (f r) = key r)
    (charge : ρ → ℤ) (h : t.find? k = some r) :
    (t.modify k f hf).sum charge = t.sum charge + (charge (f r) - charge r) := by
  obtain ⟨hmem, rfl⟩ := (t.find?_eq_some_iff k r).mp h
  obtain ⟨rows, nodup⟩ := t
  unfold sum modify
  simp only [map_map] at hmem ⊢
  clear h
  -- the key occurs once, so exactly one summand changes
  induction rows with
  | nil => cases hmem
  | cons x xs ih =>
    rw [map_cons, nodup_cons] at nodup
    rcases mem_cons.mp hmem with rfl | hxs
    · have htail : xs.map (charge ∘ fun y => if key y = key r then f y else y) =
          xs.map charge := by
        refine map_congr_left fun y hy => ?_
        have hne : key y ≠ key r := by
          intro heq
          exact nodup.1 (heq ▸ mem_map_of_mem hy)
        simp [hne]
      simp only [map_cons, sum_cons, htail, Function.comp_apply, if_true]
      ring
    · have hne : key x ≠ key r := by
        intro heq
        exact nodup.1 (heq ▸ mem_map_of_mem hxs)
      simp only [map_cons, sum_cons, Function.comp_apply, hne, if_false]
      rw [ih nodup.2 hxs]
      ring

omit [DecidableEq κ] in
theorem sum_eq_zero {charge : ρ → ℤ} (h : ∀ r ∈ t.rows, charge r = 0) :
    t.sum charge = 0 := by
  unfold sum
  refine List.sum_eq_zero fun x hx => ?_
  obtain ⟨r, hr, rfl⟩ := mem_map.mp hx
  exact h r hr

end Table
