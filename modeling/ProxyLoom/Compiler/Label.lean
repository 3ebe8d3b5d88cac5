import ProxyLoom.Adapter.Input

/-!
# Labels

Outbounds are named after a digest of the resource they come from. The labeler starts with the first
eight digits of each digest and gives two more digits to every item whose tags collide, until all
tags differ.
-/

namespace ProxyLoom.Compiler

open IR Adapter List

def labelMinLen : ℕ := 8

def labelStep : ℕ := 2

def labelHashLen : ℕ := 64

/-- What is to be labelled, with the text that is digested and the tags around the label. -/
structure LabelItem where
  key : String
  material : String
  tagPrefix : String
  suffixes : List String
deriving DecidableEq, Repr

def nodeMaterial (id : ID) (revision : ℕ) : String := "node|" ++ id ++ "|" ++ toString revision

def chainMaterial (id : ID) (revision : ℕ) : String := "chain|" ++ id ++ "|" ++ toString revision

def policyMaterial (id : ID) (revision : ℕ) : String := "policy|" ++ id ++ "|" ++ toString revision

def nodeLabelItem (id : ID) (revision : ℕ) : LabelItem :=
  ⟨nodeMaterial id revision, nodeMaterial id revision, "n_", [""]⟩

def chainLabelItem (id : ID) (revision : ℕ) : LabelItem :=
  ⟨chainMaterial id revision, chainMaterial id revision, "c_", ["_h1", "_h2"]⟩

def policyLabelItem (id : ID) (revision : ℕ) : LabelItem :=
  ⟨policyMaterial id revision, policyMaterial id revision, "g_", [""]⟩

/-- An item with its digest and the number of digits in use. -/
structure LabelState extends LabelItem where
  hex : String
  n : ℕ
deriving DecidableEq, Repr

namespace LabelState

/-- The digits in use. -/
def stem (st : LabelState) : String := String.ofList (st.hex.toList.take st.n)

def tags (st : LabelState) : List String :=
  st.suffixes.map fun suffix => st.tagPrefix ++ st.stem ++ suffix

/-- The same item with at least as many digits. -/
structure Grown (a b : LabelState) : Prop where
  item : b.toLabelItem = a.toLabelItem
  hex : b.hex = a.hex
  le : a.n ≤ b.n

theorem Grown.refl (a : LabelState) : Grown a a := ⟨rfl, rfl, Nat.le_refl _⟩

theorem Grown.trans {a b c : LabelState} (hab : Grown a b) (hbc : Grown b c) : Grown a c :=
  ⟨hbc.item.trans hab.item, hbc.hex.trans hab.hex, hab.le.trans hbc.le⟩

end LabelState

def allTags (states : List LabelState) : List String := states.flatMap LabelState.tags

/-- Every item with a tag that occurs twice gets two more digits. -/
def bump (states : List LabelState) : List LabelState :=
  states.map fun st =>
    if st.tags.any (fun tag => 2 ≤ (allTags states).count tag) then
      { st with n := st.n + labelStep }
    else st

def labelCollision : List Diagnostic := [compileIssue .compileLabelCollision "" "" ""]

/-- Rounds until all tags differ or a digest has no digits left. -/
def settle : ℕ → List LabelState → Except (List Diagnostic) (List LabelState)
  | 0, _ => .error labelCollision
  | fuel + 1, states =>
    if states.any (fun st => labelHashLen < st.n) then .error labelCollision
    else if (allTags states).Nodup then .ok states
    else settle fuel (bump states)

/-- The digits that are left to use, the round in which they run out included. -/
def room (states : List LabelState) : ℕ :=
  (states.map fun st => labelHashLen + labelStep - st.n).sum

abbrev Labels := String → List String

/-- The tags of the last item with the key. -/
def labelsOf (states : List LabelState) : Labels := fun key =>
  ((states.reverse.find? fun st => st.key = key).map LabelState.tags).getD []

def initialStates (digest : String → String) (items : List LabelItem) : List LabelState :=
  items.map fun item => { toLabelItem := item, hex := digest item.material, n := labelMinLen }

def assign (digest : String → String) (items : List LabelItem) :
    Except (List Diagnostic) Labels :=
  if items.any (fun item => (digest item.material).length ≠ labelHashLen) then
    .error labelCollision
  else
    (settle (room (initialStates digest items) + 1) (initialStates digest items)).map labelsOf

/-! ## A run of the labeler -/

variable {fuel : ℕ} {states out : List LabelState}

/-- The tags of a successful run differ. -/
theorem settle_nodup (h : settle fuel states = .ok out) : (allTags out).Nodup := by
  induction fuel generalizing states with
  | zero => cases h
  | succ fuel ih =>
    rw [settle, Except.ite_error_eq_ok_iff] at h
    by_cases hnodup : (allTags states).Nodup
    · rw [if_pos hnodup] at h
      cases h.2
      exact hnodup
    · rw [if_neg hnodup] at h
      exact ih h.2

theorem settle_le (h : settle fuel states = .ok out) : ∀ st ∈ out, st.n ≤ labelHashLen := by
  induction fuel generalizing states with
  | zero => cases h
  | succ fuel ih =>
    rw [settle, Except.ite_error_eq_ok_iff] at h
    by_cases hnodup : (allTags states).Nodup
    · rw [if_pos hnodup] at h
      cases h.2
      simpa using h.1
    · rw [if_neg hnodup] at h
      exact ih h.2

theorem bump_grown : List.Forall₂ LabelState.Grown states (bump states) := by
  unfold bump
  rw [forall₂_map_right_iff, forall₂_same]
  intro st _
  split_ifs
  · exact ⟨rfl, rfl, Nat.le_add_right _ _⟩
  · exact .refl st

/-- A run only lengthens the digits that are used. -/
theorem settle_grown (h : settle fuel states = .ok out) :
    List.Forall₂ LabelState.Grown states out := by
  induction fuel generalizing states with
  | zero => cases h
  | succ fuel ih =>
    rw [settle, Except.ite_error_eq_ok_iff] at h
    by_cases hnodup : (allTags states).Nodup
    · rw [if_pos hnodup] at h
      cases h.2
      exact forall₂_same.mpr fun st _ => .refl st
    · rw [if_neg hnodup] at h
      have hgrown := ih h.2
      clear ih h hnodup
      -- one round, then the rest of the run
      have hround := @bump_grown states
      revert hround hgrown
      generalize bump states = next
      intro hgrown hround
      induction hround generalizing out with
      | nil => exact hgrown
      | cons hab _ ih =>
        cases hgrown with
        | cons hbc hrest => exact .cons (hab.trans hbc) (ih hrest)

theorem exists_bumped (h : ¬(allTags states).Nodup) :
    ∃ st ∈ states, st.tags.any (fun tag => 2 ≤ (allTags states).count tag) = true := by
  rw [nodup_iff_count_le_one] at h
  push Not at h
  obtain ⟨tag, hcount⟩ := h
  have hmem : tag ∈ allTags states := count_pos_iff.mp (by omega)
  obtain ⟨st, hst, htag⟩ := mem_flatMap.mp hmem
  exact ⟨st, hst, any_eq_true.mpr ⟨tag, htag, decide_eq_true hcount⟩⟩

theorem room_bump_lt (hlen : ∀ st ∈ states, st.n ≤ labelHashLen)
    (h : ¬(allTags states).Nodup) : room (bump states) < room states := by
  unfold room bump
  rw [map_map]
  refine sum_lt_sum _ _ ?_ ?_
  · intro st hst
    dsimp only [Function.comp]
    split_ifs
    · dsimp only
      omega
    · exact Nat.le_refl _
  · obtain ⟨st, hst, hbumped⟩ := exists_bumped h
    refine ⟨st, hst, ?_⟩
    have hle := hlen st hst
    dsimp only [Function.comp]
    rw [if_pos hbumped]
    dsimp only [labelStep, labelHashLen] at *
    omega

/-! ## The labels of an item -/

/-- A state that the labeler can end with. -/
structure LabelState.Labels (digest : String → String) (items : List LabelItem)
    (st : LabelState) : Prop where
  item : st.toLabelItem ∈ items
  hex : st.hex = digest st.material
  length : st.hex.length = labelHashLen
  min : labelMinLen ≤ st.n
  max : st.n ≤ labelHashLen

theorem assign_eq_ok {digest : String → String} {items : List LabelItem} {labels : Labels}
    (h : assign digest items = .ok labels) :
    ∃ out, labels = labelsOf out ∧ (allTags out).Nodup ∧
      List.Forall₂ LabelState.Grown (initialStates digest items) out ∧
      ∀ st ∈ out, st.Labels digest items := by
  unfold assign at h
  obtain ⟨hlength, h⟩ := Except.of_ite h
  obtain ⟨out, hout, rfl⟩ := Except.of_map h
  have hgrown := settle_grown hout
  refine ⟨out, rfl, settle_nodup hout, hgrown, ?_⟩
  intro st hst
  obtain ⟨st₀, hst₀, hst⟩ := hgrown.exists_left hst
  obtain ⟨item, hitem, rfl⟩ := mem_map.mp hst₀
  have hlen : (digest item.material).length = labelHashLen := by
    simp only [ne_eq, decide_not, any_eq_true, not_exists, not_and] at hlength
    simpa using hlength item hitem
  have hmaterial : st.material = item.material := by rw [hst.item]
  exact ⟨hst.item ▸ hitem, by rw [hst.hex, hmaterial], by rw [hst.hex, hlen], hst.le,
    settle_le hout st ‹_›⟩

theorem labelsOf_eq {digest : String → String} {items : List LabelItem} {out : List LabelState}
    (hgrown : List.Forall₂ LabelState.Grown (initialStates digest items) out)
    {item : LabelItem} (hitem : item ∈ items) :
    ∃ st ∈ out, st.key = item.key ∧ labelsOf out item.key = st.tags := by
  have hinit : { toLabelItem := item, hex := digest item.material, n := labelMinLen } ∈
      initialStates digest items := mem_map.mpr ⟨item, hitem, rfl⟩
  obtain ⟨st₁, hst₁, hg⟩ := hgrown.exists_right hinit
  have hkey : st₁.key = item.key := by rw [hg.item]
  obtain ⟨st, hmem, hst, hfind⟩ :=
    Table.exists_find?_reverse (fun st : LabelState => st.key) hst₁ hkey
  refine ⟨st, hmem, hst, ?_⟩
  unfold labelsOf
  rw [hfind]
  rfl

end ProxyLoom.Compiler
