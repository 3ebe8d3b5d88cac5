import ProxyLoom.Compiler.Label
import Mathlib.Order.Bounds.Basic

/-!
# The labels are as short as they can be

In every round the labeler lengthens exactly the labels that two items share. So after `t` rounds an
item that is alone with its first `n` digits, for some `n ≤ 8 + 2 t`, has stopped at the least such
`n`, and every other item has used all `8 + 2 t` digits.
-/

namespace ProxyLoom.Compiler

open IR List

/-! ## Items and their tags -/

def IsLabelItem (item : LabelItem) : Prop :=
  ∃ id revision, item = nodeLabelItem id revision ∨ item = chainLabelItem id revision ∨
    item = policyLabelItem id revision

theorem IsLabelItem.shape {item : LabelItem} (h : IsLabelItem item) :
    (item.tagPrefix = "n_" ∧ item.suffixes = [""]) ∨
      (item.tagPrefix = "c_" ∧ item.suffixes = ["_h1", "_h2"]) ∨
      (item.tagPrefix = "g_" ∧ item.suffixes = [""]) := by
  obtain ⟨id, revision, rfl | rfl | rfl⟩ := h
  · exact .inl ⟨rfl, rfl⟩
  · exact .inr (.inl ⟨rfl, rfl⟩)
  · exact .inr (.inr ⟨rfl, rfl⟩)

theorem IsLabelItem.key_inj {a b : LabelItem} (ha : IsLabelItem a) (hb : IsLabelItem b)
    (h : a.key = b.key) : a = b := by
  -- the materials of different kinds begin differently
  obtain ⟨i, n, rfl | rfl | rfl⟩ := ha <;> obtain ⟨j, m, rfl | rfl | rfl⟩ := hb
  · simp only [nodeLabelItem] at h ⊢
    rw [h]
  · exact absurd (congrArg (fun s => s.toList.head?) h) (by
      simp [nodeLabelItem, chainLabelItem, nodeMaterial, chainMaterial])
  · exact absurd (congrArg (fun s => s.toList.head?) h) (by
      simp [nodeLabelItem, policyLabelItem, nodeMaterial, policyMaterial])
  · exact absurd (congrArg (fun s => s.toList.head?) h) (by
      simp [nodeLabelItem, chainLabelItem, nodeMaterial, chainMaterial])
  · simp only [chainLabelItem] at h ⊢
    rw [h]
  · exact absurd (congrArg (fun s => s.toList.head?) h) (by
      simp [policyLabelItem, chainLabelItem, policyMaterial, chainMaterial])
  · exact absurd (congrArg (fun s => s.toList.head?) h) (by
      simp [nodeLabelItem, policyLabelItem, nodeMaterial, policyMaterial])
  · exact absurd (congrArg (fun s => s.toList.head?) h) (by
      simp [policyLabelItem, chainLabelItem, policyMaterial, chainMaterial])
  · simp only [policyLabelItem] at h ⊢
    rw [h]

section
variable (digest : String → String)

def digitsOf (item : LabelItem) (n : ℕ) : List Char := (digest item.material).toList.take n

def tagsAt (item : LabelItem) (n : ℕ) : List String :=
  item.suffixes.map fun suffix => item.tagPrefix ++ String.ofList (digitsOf digest item n) ++ suffix

/-- The states in which every item has the given number of digits. -/
def statesOf (len : LabelItem → ℕ) (items : List LabelItem) : List LabelState :=
  items.map fun item => { toLabelItem := item, hex := digest item.material, n := len item }

/-- No other item of the same kind begins with the same digits. -/
def Alone (items : List LabelItem) (item : LabelItem) (n : ℕ) : Prop :=
  ∀ other ∈ items, other ≠ item → other.tagPrefix = item.tagPrefix →
    digitsOf digest other n ≠ digitsOf digest item n

end

def labelLengths : Set ℕ := {n | labelMinLen ≤ n ∧ n ≤ labelHashLen ∧ n % labelStep = 0}

variable {digest : String → String} {items : List LabelItem} {len : LabelItem → ℕ}
  {a b item : LabelItem} {k n m : ℕ}

theorem allTags_statesOf : allTags (statesOf digest len items) =
    items.flatMap fun item => tagsAt digest item (len item) := by
  unfold allTags statesOf
  rw [flatMap_map]
  rfl

theorem toList_tag (tagPrefix suffix : String) (digits : List Char) :
    (tagPrefix ++ String.ofList digits ++ suffix).toList =
      tagPrefix.toList ++ digits ++ suffix.toList := by
  simp

theorem tag_inj {tagPrefix s t : String} {x y : List Char} (hlength : s.length = t.length)
    (h : tagPrefix ++ String.ofList x ++ s = tagPrefix ++ String.ofList y ++ t) :
    x = y ∧ s = t := by
  have hlist := congrArg String.toList h
  rw [toList_tag, toList_tag] at hlist
  obtain ⟨hxy, hst⟩ := append_inj' hlist (by simp only [String.length_toList, hlength])
  exact ⟨append_cancel_left hxy, String.toList_inj.mp hst⟩

/-- **A tag tells its prefix and its digits.** -/
theorem mem_tagsAt_inj (ha : IsLabelItem a) (hb : IsLabelItem b) {tag : String}
    (hta : tag ∈ tagsAt digest a n) (htb : tag ∈ tagsAt digest b m) :
    a.tagPrefix = b.tagPrefix ∧ digitsOf digest a n = digitsOf digest b m := by
  obtain ⟨s, hs, rfl⟩ := mem_map.mp hta
  obtain ⟨t, ht, h⟩ := mem_map.mp htb
  have hhead : ∀ (p q : Char) (x y : List Char) (s t : String),
      String.ofList [p, '_'] ++ String.ofList x ++ s =
        String.ofList [q, '_'] ++ String.ofList y ++ t → p = q := by
    intro p q x y s t h
    have hlist := congrArg String.toList h
    rw [toList_tag, toList_tag] at hlist
    simp only [String.toList_ofList, cons_append, List.cons.injEq] at hlist
    exact hlist.1
  obtain ⟨hpa, hsa⟩ | ⟨hpa, hsa⟩ | ⟨hpa, hsa⟩ := ha.shape <;>
    obtain ⟨hpb, hsb⟩ | ⟨hpb, hsb⟩ | ⟨hpb, hsb⟩ := hb.shape <;>
    rw [hsa] at hs <;> rw [hsb] at ht <;> rw [hpa, hpb] at h ⊢
  · rw [mem_singleton.mp hs, mem_singleton.mp ht] at h
    exact ⟨rfl, (tag_inj rfl h).1.symm⟩
  · exact absurd (hhead 'c' 'n' _ _ _ _ h) (by decide)
  · exact absurd (hhead 'g' 'n' _ _ _ _ h) (by decide)
  · exact absurd (hhead 'n' 'c' _ _ _ _ h) (by decide)
  · refine ⟨rfl, (tag_inj ?_ h).1.symm⟩
    have hlength : ∀ u ∈ ["_h1", "_h2"], u.length = 3 := by decide
    rw [hlength s hs, hlength t ht]
  · exact absurd (hhead 'g' 'c' _ _ _ _ h) (by decide)
  · exact absurd (hhead 'n' 'g' _ _ _ _ h) (by decide)
  · exact absurd (hhead 'c' 'g' _ _ _ _ h) (by decide)
  · rw [mem_singleton.mp hs, mem_singleton.mp ht] at h
    exact ⟨rfl, (tag_inj rfl h).1.symm⟩

theorem tagsAt_congr (ha : IsLabelItem a) (hb : IsLabelItem b)
    (htag : a.tagPrefix = b.tagPrefix) (hdigits : digitsOf digest a n = digitsOf digest b m) :
    tagsAt digest a n = tagsAt digest b m := by
  have hsuffixes : a.suffixes = b.suffixes := by
    obtain ⟨hpa, hsa⟩ | ⟨hpa, hsa⟩ | ⟨hpa, hsa⟩ := ha.shape <;>
      obtain ⟨hpb, hsb⟩ | ⟨hpb, hsb⟩ | ⟨hpb, hsb⟩ := hb.shape <;>
      rw [hpa, hpb] at htag <;> first | exact absurd htag (by decide) | rw [hsa, hsb]
  unfold tagsAt
  rw [htag, hdigits, hsuffixes]

theorem exists_mem_tagsAt (digest : String → String) (ha : IsLabelItem a) (n : ℕ) :
    ∃ tag, tag ∈ tagsAt digest a n := by
  unfold tagsAt
  obtain ⟨-, hs⟩ | ⟨-, hs⟩ | ⟨-, hs⟩ := ha.shape <;> rw [hs] <;>
    exact ⟨_, mem_cons_self⟩

theorem tagsAt_nodup (ha : IsLabelItem a) (n : ℕ) : (tagsAt digest a n).Nodup := by
  have hsuffixes : a.suffixes.Nodup ∧ ∀ s ∈ a.suffixes, ∀ t ∈ a.suffixes, s.length = t.length := by
    obtain ⟨-, hs⟩ | ⟨-, hs⟩ | ⟨-, hs⟩ := ha.shape <;> rw [hs] <;> decide
  refine hsuffixes.1.map_on fun s hs t ht h => ?_
  exact (tag_inj (hsuffixes.2 s hs t ht) h).2

/-! ## Collisions -/

/-- A value occurs twice in the lists of different entries, none of which repeats it, if another
entry has it too. -/
theorem two_le_count_flatMap_iff {α β : Type} [DecidableEq α] [DecidableEq β] {f : α → List β}
    {l : List α} (hl : l.Nodup) (hf : ∀ x ∈ l, (f x).Nodup) {x : α} (hx : x ∈ l) {y : β}
    (hy : y ∈ f x) : 2 ≤ (l.flatMap f).count y ↔ ∃ z ∈ l, z ≠ x ∧ y ∈ f z := by
  have hperm : (l.flatMap f).Perm (f x ++ (l.erase x).flatMap f) :=
    (perm_cons_erase hx).flatMap_right f
  have hone : (f x).count y = 1 := count_eq_one_of_mem (hf x hx) hy
  rw [hperm.count_eq, count_append, hone]
  have hrest : 2 ≤ 1 + ((l.erase x).flatMap f).count y ↔ y ∈ (l.erase x).flatMap f := by
    rw [← count_pos_iff]
    omega
  rw [hrest, mem_flatMap]
  constructor
  · rintro ⟨z, hz, hyz⟩
    obtain ⟨hne, hmem⟩ := hl.mem_erase_iff.mp hz
    exact ⟨z, hmem, hne, hyz⟩
  · rintro ⟨z, hz, hne, hyz⟩
    exact ⟨z, hl.mem_erase_iff.mpr ⟨hne, hz⟩, hyz⟩

section
variable (hitems : ∀ item ∈ items, IsLabelItem item) (hnodup : items.Nodup)

include hitems

theorem nodup_of_tags (h : (allTags (statesOf digest len items)).Nodup) : items.Nodup := by
  rw [allTags_statesOf, nodup_flatMap] at h
  refine h.2.imp_of_mem fun {a b} ha _ hdisjoint heq => ?_
  obtain ⟨tag, htag⟩ := exists_mem_tagsAt digest (hitems a ha) (len a)
  exact hdisjoint htag (heq ▸ htag)

include hnodup

theorem collides_iff (hitem : item ∈ items) :
    (tagsAt digest item (len item)).any
        (fun tag => 2 ≤ (allTags (statesOf digest len items)).count tag) = true ↔
      ∃ other ∈ items, other ≠ item ∧ other.tagPrefix = item.tagPrefix ∧
        digitsOf digest other (len other) = digitsOf digest item (len item) := by
  have hcount : ∀ tag ∈ tagsAt digest item (len item),
      2 ≤ (allTags (statesOf digest len items)).count tag ↔
        ∃ other ∈ items, other ≠ item ∧ tag ∈ tagsAt digest other (len other) := by
    intro tag htag
    rw [allTags_statesOf]
    exact two_le_count_flatMap_iff hnodup (fun x hx => tagsAt_nodup (hitems x hx) _) hitem htag
  rw [any_eq_true]
  constructor
  · rintro ⟨tag, htag, hcollides⟩
    obtain ⟨other, hother, hne, htag'⟩ := (hcount tag htag).mp (by simpa using hcollides)
    exact ⟨other, hother, hne, mem_tagsAt_inj (hitems other hother) (hitems item hitem) htag' htag⟩
  · rintro ⟨other, hother, hne, hkind, hdigits⟩
    obtain ⟨tag, htag⟩ := exists_mem_tagsAt digest (hitems item hitem) (len item)
    refine ⟨tag, htag, decide_eq_true ((hcount tag htag).mpr ⟨other, hother, hne, ?_⟩)⟩
    rw [tagsAt_congr (hitems other hother) (hitems item hitem) hkind hdigits]
    exact htag

theorem tags_nodup_iff : (allTags (statesOf digest len items)).Nodup ↔
    ∀ item ∈ items, ∀ other ∈ items, other ≠ item → other.tagPrefix = item.tagPrefix →
      digitsOf digest other (len other) ≠ digitsOf digest item (len item) := by
  constructor
  · intro h item hitem other hother hne htag hdigits
    have hcollides := (collides_iff hitems hnodup hitem).mpr ⟨other, hother, hne, htag, hdigits⟩
    obtain ⟨tag, -, hcount⟩ := any_eq_true.mp hcollides
    have hle := nodup_iff_count_le_one.mp h tag
    simp only [decide_eq_true_eq] at hcount
    omega
  · intro h
    by_contra hdup
    obtain ⟨st, hst, hbumped⟩ := exists_bumped hdup
    obtain ⟨item, hitem, rfl⟩ := mem_map.mp hst
    obtain ⟨other, hother, hne, htag, hdigits⟩ := (collides_iff hitems hnodup hitem).mp hbumped
    exact h item hitem other hother hne htag hdigits

end

/-! ## Rounds -/

section
variable (digest items)

/-- The lengths in a round that has reached `k` digits. -/
structure Lengths (k : ℕ) (len : LabelItem → ℕ) : Prop where
  min : labelMinLen ≤ k
  even : k % labelStep = 0
  range : ∀ item ∈ items, labelMinLen ≤ len item ∧ len item % labelStep = 0 ∧ len item ≤ k
  stopped : ∀ item ∈ items, len item < k → Alone digest items item (len item)
  crowded : ∀ item ∈ items, ∀ n ∈ labelLengths, n < len item → ¬Alone digest items item n

end

theorem Lengths.initial : Lengths digest items labelMinLen fun _ => labelMinLen where
  min := Nat.le_refl _
  even := by decide
  range item _ := ⟨Nat.le_refl _, by decide, Nat.le_refl _⟩
  stopped item _ h := absurd h (Nat.lt_irrefl _)
  crowded item _ n hn h := absurd h (Nat.not_lt.mpr hn.1)

theorem Alone.mono (h : Alone digest items item n) (hnm : n ≤ m) : Alone digest items item m := by
  intro other hother hne htag hdigits
  refine h other hother hne htag ?_
  have htake := congrArg (List.take n) hdigits
  unfold digitsOf at htake ⊢
  rwa [take_take, take_take, Nat.min_eq_left hnm] at htake

section
variable (digest items)

def IsLabelLength (item : LabelItem) (n : ℕ) : Prop :=
  IsLeast {n | n ∈ labelLengths ∧ Alone digest items item n} n

def DigestCollision : Prop :=
  ∃ item ∈ items, ∃ other ∈ items, other ≠ item ∧ other.tagPrefix = item.tagPrefix ∧
    digest other.material = digest item.material

end

section
variable (digest items len)

def grow (item : LabelItem) : ℕ :=
  if (tagsAt digest item (len item)).any
      (fun tag => 2 ≤ (allTags (statesOf digest len items)).count tag) = true then
    len item + labelStep
  else len item

theorem bump_statesOf :
    bump (statesOf digest len items) = statesOf digest (grow digest items len) items := by
  unfold bump
  rw [statesOf, statesOf, map_map]
  refine map_congr_left fun item _ => ?_
  show (if (tagsAt digest item (len item)).any (fun tag =>
    2 ≤ (allTags (statesOf digest len items)).count tag) = true then _ else _) = _
  unfold grow
  split_ifs <;> rfl

end

theorem length_digitsOf (h : (digest item.material).length = labelHashLen) (hn : n ≤ labelHashLen) :
    (digitsOf digest item n).length = n := by
  rw [digitsOf, length_take, String.length_toList, h, Nat.min_eq_left hn]

theorem digitsOf_all (h : (digest item.material).length = labelHashLen) :
    digitsOf digest item labelHashLen = (digest item.material).toList := by
  rw [digitsOf, ← h, ← String.length_toList, take_length]

section
variable (hitems : ∀ item ∈ items, IsLabelItem item) (hnodup : items.Nodup)
  (hdigest : ∀ item ∈ items, (digest item.material).length = labelHashLen)

include hdigest

theorem Lengths.collides_iff (h : Lengths digest items k len)
    (hlen : ∀ item ∈ items, len item ≤ labelHashLen) (hitem : item ∈ items) :
    (∃ other ∈ items, other ≠ item ∧ other.tagPrefix = item.tagPrefix ∧
        digitsOf digest other (len other) = digitsOf digest item (len item)) ↔
      len item = k ∧ ¬Alone digest items item k := by
  constructor
  · rintro ⟨other, hother, hne, htag, hdigits⟩
    have hlength : len other = len item := by
      have := congrArg List.length hdigits
      rwa [length_digitsOf (hdigest other hother) (hlen other hother),
        length_digitsOf (hdigest item hitem) (hlen item hitem)] at this
    have halone : ¬Alone digest items item (len item) := by
      intro halone
      exact halone other hother hne htag (hlength ▸ hdigits)
    have hk : len item = k := by
      by_contra hk
      exact halone (h.stopped item hitem (lt_of_le_of_ne (h.range item hitem).2.2 hk))
    exact ⟨hk, hk ▸ halone⟩
  · rintro ⟨hk, halone⟩
    unfold Alone at halone
    push Not at halone
    obtain ⟨other, hother, hne, htag, hdigits⟩ := halone
    have hk' : len other = k := by
      by_contra hk'
      have hstopped := h.stopped other hother (lt_of_le_of_ne (h.range other hother).2.2 hk')
      exact hstopped.mono (h.range other hother).2.2 item hitem hne.symm htag.symm hdigits.symm
    exact ⟨other, hother, hne, htag, by rw [hk, hk', hdigits]⟩

theorem Lengths.collision (h : Lengths digest items k len) (hitem : item ∈ items)
    (hlt : labelHashLen < len item) : DigestCollision digest items := by
  have hcrowded := h.crowded item hitem labelHashLen ⟨by decide, Nat.le_refl _, by decide⟩ hlt
  unfold Alone at hcrowded
  push Not at hcrowded
  obtain ⟨other, hother, hne, htag, hdigits⟩ := hcrowded
  rw [digitsOf_all (hdigest other hother), digitsOf_all (hdigest item hitem)] at hdigits
  exact ⟨item, hitem, other, hother, hne, htag, String.toList_inj.mp hdigits⟩

include hitems hnodup

/-- **One round.** -/
theorem Lengths.bump (h : Lengths digest items k len)
    (hlen : ∀ item ∈ items, len item ≤ labelHashLen) :
    Lengths digest items (k + labelStep) (grow digest items len) := by
  have heven := h.even
  have hgrow : ∀ item ∈ items, (len item = k ∧ ¬Alone digest items item k ∧
        grow digest items len item = k + labelStep) ∨
      (Alone digest items item (len item) ∧ grow digest items len item = len item) := by
    intro item hitem
    have hcollides := (Compiler.collides_iff hitems hnodup hitem).trans
      (h.collides_iff hdigest hlen hitem)
    unfold grow
    split_ifs with hany
    · obtain ⟨hk, halone⟩ := hcollides.mp hany
      exact .inl ⟨hk, halone, by rw [hk]⟩
    · refine .inr ⟨?_, rfl⟩
      obtain hlt | hk := Nat.lt_or_eq_of_le (h.range item hitem).2.2
      · exact h.stopped item hitem hlt
      · by_contra halone
        exact hany (hcollides.mpr ⟨hk, hk ▸ halone⟩)
  refine ⟨?_, ?_, ?_, ?_, ?_⟩
  · exact Nat.le_trans h.min (Nat.le_add_right _ _)
  · rw [Nat.add_mod_right, heven]
  · intro item hitem
    obtain ⟨hmin, hmod, hle⟩ := h.range item hitem
    obtain ⟨-, -, hg⟩ | ⟨-, hg⟩ := hgrow item hitem
    · rw [hg, Nat.add_mod_right]
      exact ⟨Nat.le_trans h.min (Nat.le_add_right _ _), heven, Nat.le_refl _⟩
    · rw [hg]
      exact ⟨hmin, hmod, Nat.le_trans hle (Nat.le_add_right _ _)⟩
  · intro item hitem hlt
    obtain ⟨-, -, hg⟩ | ⟨halone, hg⟩ := hgrow item hitem
    · rw [hg] at hlt
      exact absurd hlt (Nat.lt_irrefl _)
    · rw [hg]
      exact halone
  · intro item hitem n hn hlt
    obtain ⟨hk, halone, hg⟩ | ⟨-, hg⟩ := hgrow item hitem
    · rw [hg] at hlt
      obtain hlt' | rfl : n < k ∨ n = k := by
        have hmod := hn.2.2
        simp only [labelStep] at hmod heven hlt
        omega
      · exact h.crowded item hitem n hn (hk ▸ hlt')
      · exact halone
    · exact h.crowded item hitem n hn (hg ▸ hlt)

theorem Lengths.least (h : Lengths digest items k len)
    (hlen : ∀ item ∈ items, len item ≤ labelHashLen)
    (htags : (allTags (statesOf digest len items)).Nodup) (hitem : item ∈ items) :
    IsLabelLength digest items item (len item) := by
  obtain ⟨hmin, hmod, hle⟩ := h.range item hitem
  refine ⟨⟨⟨hmin, hlen item hitem, hmod⟩, ?_⟩, ?_⟩
  · obtain hlt | hk := Nat.lt_or_eq_of_le hle
    · exact h.stopped item hitem hlt
    · by_contra halone
      obtain ⟨other, hother, hne, htag, hdigits⟩ :=
        (h.collides_iff hdigest hlen hitem).mpr ⟨hk, hk ▸ halone⟩
      exact (tags_nodup_iff hitems hnodup).mp htags item hitem other hother hne htag hdigits
  · rintro n ⟨hn, halone⟩
    by_contra hlt
    exact h.crowded item hitem n hn (Nat.lt_of_not_le hlt) halone

/-- **A run.** The rounds end with the least lengths, or at two items with one digest. -/
theorem settle_lengths {fuel : ℕ} (h : Lengths digest items k len)
    (hfuel : room (statesOf digest len items) < fuel) :
    (∃ len', settle fuel (statesOf digest len items) = .ok (statesOf digest len' items) ∧
        ∀ item ∈ items, IsLabelLength digest items item (len' item)) ∨
      ((∃ e, settle fuel (statesOf digest len items) = .error e) ∧
        DigestCollision digest items) := by
  induction fuel generalizing k len with
  | zero => exact absurd hfuel (Nat.not_lt_zero _)
  | succ fuel ih =>
    rw [settle]
    by_cases hlong : (statesOf digest len items).any (fun st => labelHashLen < st.n) = true
    · rw [if_pos hlong]
      obtain ⟨st, hst, hlt⟩ := any_eq_true.mp hlong
      obtain ⟨item, hitem, rfl⟩ := mem_map.mp hst
      exact .inr ⟨⟨_, rfl⟩, h.collision hdigest hitem (by simpa using hlt)⟩
    · rw [if_neg hlong]
      have hlen : ∀ item ∈ items, len item ≤ labelHashLen := by
        intro item hitem
        by_contra hlt
        exact hlong (any_eq_true.mpr ⟨_, mem_map_of_mem hitem,
          decide_eq_true (Nat.lt_of_not_le hlt)⟩)
      by_cases htags : (allTags (statesOf digest len items)).Nodup
      · rw [if_pos htags]
        exact .inl ⟨len, rfl, fun item hitem =>
          h.least hitems hnodup hdigest hlen htags hitem⟩
      · rw [if_neg htags, bump_statesOf]
        have hstates : ∀ st ∈ statesOf digest len items, st.n ≤ labelHashLen := by
          intro st hst
          obtain ⟨item, hitem, rfl⟩ := mem_map.mp hst
          exact hlen item hitem
        have hlt := room_bump_lt hstates htags
        rw [bump_statesOf] at hlt
        exact ih (h.bump hitems hnodup hdigest hlen) (by omega)

end

/-! ## Assignment -/

theorem assign_digest_length {labels : Labels} (h : assign digest items = .ok labels) :
    ∀ item ∈ items, (digest item.material).length = labelHashLen := by
  unfold assign at h
  obtain ⟨hlength, -⟩ := Except.of_ite h
  intro item hitem
  by_contra hne
  exact hlength (any_eq_true.mpr ⟨item, hitem, decide_eq_true hne⟩)

section
variable (hitems : ∀ item ∈ items, IsLabelItem item)

include hitems

/-- The labels of an item are its tags, because its key is its own. -/
theorem labelsOf_statesOf (hitem : item ∈ items) :
    labelsOf (statesOf digest len items) item.key = tagsAt digest item (len item) := by
  have hstate : ∃ st ∈ statesOf digest len items, st.key = item.key :=
    ⟨_, mem_map_of_mem hitem, rfl⟩
  obtain ⟨st₀, hmem₀, hkey₀⟩ := hstate
  obtain ⟨st, hmem, hkey, hst⟩ :=
    Table.exists_find?_reverse (fun st : LabelState => st.key) hmem₀ hkey₀
  obtain ⟨item', hitem', rfl⟩ := mem_map.mp hmem
  obtain rfl : item' = item := (hitems item' hitem').key_inj (hitems item hitem) hkey
  rw [labelsOf, hst]
  rfl

omit hitems in
theorem settle_statesOf {fuel : ℕ} {out : List LabelState}
    (h : settle fuel (statesOf digest len items) = .ok out) :
    ∃ len', out = statesOf digest len' items := by
  induction fuel generalizing len with
  | zero => cases h
  | succ fuel ih =>
    rw [settle, Except.ite_error_eq_ok_iff] at h
    by_cases htags : (allTags (statesOf digest len items)).Nodup
    · rw [if_pos htags] at h
      exact ⟨len, (Except.ok.inj h.2).symm⟩
    · rw [if_neg htags, bump_statesOf] at h
      exact ih h.2

omit hitems in
theorem pairwise_iff (digest : String → String) (items : List LabelItem) :
    (items.Pairwise fun a b => a.tagPrefix = b.tagPrefix → digest a.material ≠ digest b.material) ↔
      items.Nodup ∧ ¬DigestCollision digest items := by
  constructor
  · intro h
    refine ⟨h.imp fun {a b} hab (heq : a = b) => hab (by rw [heq]) (by rw [heq]), ?_⟩
    rintro ⟨item, hitem, other, hother, hne, htag, hsame⟩
    have hsymm : Std.Symm fun a b : LabelItem =>
        a.tagPrefix = b.tagPrefix → digest a.material ≠ digest b.material :=
      ⟨fun a b hab htag hsame => hab htag.symm hsame.symm⟩
    exact h.forall hother hitem hne htag hsame
  · rintro ⟨hnodup, hcollision⟩
    refine hnodup.imp_of_mem fun {a b} ha hb hne htag hsame => ?_
    exact hcollision ⟨b, hb, a, ha, hne, htag, hsame⟩

variable (hdigest : ∀ item ∈ items, (digest item.material).length = labelHashLen)

include hdigest

omit hitems in
theorem assign_eq : assign digest items =
    (settle (room (initialStates digest items) + 1) (initialStates digest items)).map labelsOf := by
  unfold assign
  rw [if_neg]
  simp only [ne_eq, decide_not, any_eq_true, not_exists, not_and]
  intro item hitem
  simp [hdigest item hitem]

/-- The labels of an assignment. -/
theorem assign_labels {labels : Labels} (h : assign digest items = .ok labels) :
    items.Nodup ∧ ∃ len, labels = labelsOf (statesOf digest len items) ∧
      (allTags (statesOf digest len items)).Nodup ∧
      ∀ item ∈ items, IsLabelLength digest items item (len item) := by
  rw [assign_eq hdigest] at h
  obtain ⟨out, hout, rfl⟩ := Except.of_map h
  obtain ⟨len, rfl⟩ := settle_statesOf hout
  have htags := settle_nodup hout
  have hnodup := nodup_of_tags hitems htags
  refine ⟨hnodup, len, rfl, htags, ?_⟩
  have hrun := settle_lengths hitems hnodup hdigest Lengths.initial (Nat.lt_succ_self _)
  rw [show statesOf digest (fun _ => labelMinLen) items = initialStates digest items from rfl]
    at hrun
  obtain ⟨len', hok, hleast⟩ | ⟨⟨e, herror⟩, -⟩ := hrun
  · rw [hout, Except.ok.injEq] at hok
    intro item hitem
    -- the two descriptions of one state agree on its length
    have hlen : len item = len' item := by
      have hmap := congrArg (List.map fun st : LabelState => st.n) hok
      simp only [statesOf, map_map] at hmap
      exact map_inj_left.mp hmap item hitem
    rw [hlen]
    exact hleast item hitem
  · rw [hout] at herror
    cases herror

theorem assign_tags_nodup {labels : Labels} (h : assign digest items = .ok labels) :
    (items.flatMap fun item => labels item.key).Nodup := by
  obtain ⟨-, len, rfl, htags, -⟩ := assign_labels hitems hdigest h
  rw [allTags_statesOf] at htags
  rwa [flatMap_congr fun item hitem => labelsOf_statesOf hitems hitem]

/-- **Success.** -/
theorem assign_ok_iff : (∃ labels, assign digest items = .ok labels) ↔ items.Pairwise fun a b =>
    a.tagPrefix = b.tagPrefix → digest a.material ≠ digest b.material := by
  rw [pairwise_iff]
  constructor
  · rintro ⟨labels, h⟩
    obtain ⟨hnodup, len, -, -, hleast⟩ := assign_labels hitems hdigest h
    refine ⟨hnodup, ?_⟩
    rintro ⟨item, hitem, other, hother, hne, htag, hsame⟩
    obtain ⟨⟨-, halone⟩, -⟩ := hleast item hitem
    refine halone other hother hne htag ?_
    rw [digitsOf, digitsOf, hsame]
  · rintro ⟨hnodup, hcollision⟩
    rw [assign_eq hdigest]
    obtain ⟨len, hok, -⟩ | ⟨-, hcollision'⟩ :=
      settle_lengths hitems hnodup hdigest Lengths.initial (Nat.lt_succ_self _)
    · exact ⟨_, Except.map_eq_ok_iff.mpr ⟨_, hok, rfl⟩⟩
    · exact absurd hcollision' hcollision

end

def Stops (states : List LabelState) : Prop :=
  states.any (fun st => labelHashLen < st.n) = true ∨ (allTags states).Nodup

theorem exists_stops {fuel : ℕ} {states : List LabelState} (h : room states < fuel) :
    ∃ rounds < fuel, Stops (bump^[rounds] states) := by
  induction fuel generalizing states with
  | zero => omega
  | succ fuel ih =>
    by_cases hstops : Stops states
    · exact ⟨0, Nat.succ_pos _, hstops⟩
    · unfold Stops at hstops
      push Not at hstops
      have hlt := room_bump_lt (by simpa using hstops.1) hstops.2
      obtain ⟨rounds, hrounds, hstop⟩ := ih (Nat.lt_of_lt_of_le hlt (Nat.le_of_lt_succ h))
      exact ⟨rounds + 1, by omega, hstop⟩

/-- **Labels are minimal and free of collisions.** The loop ends; it succeeds exactly if no two
items of one kind have one digest; every item then has the least length with which it is alone, all
tags differ, and the order of the items does not matter. -/
theorem assign_minimal (digest : String → String) (items : List LabelItem)
    (hitems : ∀ item ∈ items, IsLabelItem item)
    (hdigest : ∀ item ∈ items, (digest item.material).length = labelHashLen) :
    (∃ rounds ≤ room (initialStates digest items),
      Stops (bump^[rounds] (initialStates digest items))) ∧
    ((∃ labels, assign digest items = .ok labels) ↔ items.Pairwise fun a b =>
      a.tagPrefix = b.tagPrefix → digest a.material ≠ digest b.material) ∧
    ∀ labels, assign digest items = .ok labels →
      (∀ item ∈ items, ∃ n, IsLabelLength digest items item n ∧
        labels item.key = tagsAt digest item n) ∧
      (items.flatMap fun item => labels item.key).Nodup ∧
      ∀ items', items'.Perm items → ∃ labels', assign digest items' = .ok labels' ∧
        ∀ item ∈ items, labels' item.key = labels item.key := by
  refine ⟨?_, assign_ok_iff hitems hdigest, ?_⟩
  · obtain ⟨rounds, hlt, hstop⟩ :=
      exists_stops (Nat.lt_succ_self (room (initialStates digest items)))
    exact ⟨rounds, Nat.le_of_lt_succ hlt, hstop⟩
  · intro labels h
    have htags := assign_tags_nodup hitems hdigest h
    obtain ⟨-, len, rfl, -, hleast⟩ := assign_labels hitems hdigest h
    refine ⟨fun item hitem => ⟨len item, hleast item hitem, ?_⟩, htags, ?_⟩
    · exact labelsOf_statesOf hitems hitem
    · intro items' hperm
      have hitems' : ∀ item ∈ items', IsLabelItem item := fun item hitem =>
        hitems item (hperm.subset hitem)
      have hdigest' : ∀ item ∈ items', (digest item.material).length = labelHashLen :=
        fun item hitem => hdigest item (hperm.subset hitem)
      have hpairwise := (assign_ok_iff hitems hdigest).mp ⟨_, h⟩
      have hpairwise' := (hperm.pairwise_iff fun {a b} hab htag hsame =>
        hab htag.symm hsame.symm).mpr hpairwise
      obtain ⟨labels', h'⟩ := (assign_ok_iff hitems' hdigest').mpr hpairwise'
      refine ⟨labels', h', ?_⟩
      obtain ⟨-, len', rfl, -, hleast'⟩ := assign_labels hitems' hdigest' h'
      intro item hitem
      have hitem' := hperm.symm.subset hitem
      have halone : ∀ n, Alone digest items' item n ↔ Alone digest items item n := fun n =>
        ⟨fun h other hother => h other (hperm.symm.subset hother),
          fun h other hother => h other (hperm.subset hother)⟩
      have hlen : len' item = len item := by
        have hl := hleast' item hitem'
        unfold IsLabelLength at hl
        simp only [halone] at hl
        exact hl.unique (hleast item hitem)
      rw [labelsOf_statesOf hitems' hitem', labelsOf_statesOf hitems hitem, hlen]

def tenthDigest (material : String) : String :=
  String.ofList (List.replicate 9 'a' ++ (if material = nodeMaterial "x" 1 then 'b' else 'c') ::
    List.replicate 54 'a')

theorem assign_minimal_two :
    ∃ labels, assign tenthDigest [nodeLabelItem "x" 1, nodeLabelItem "y" 1] = .ok labels := by
  have hminimal := assign_minimal tenthDigest [nodeLabelItem "x" 1, nodeLabelItem "y" 1] (by
      intro item hitem
      obtain rfl | hitem := mem_cons.mp hitem
      · exact ⟨"x", 1, .inl rfl⟩
      · obtain rfl := mem_singleton.mp hitem
        exact ⟨"y", 1, .inl rfl⟩) (by
      intro item _
      rw [tenthDigest, String.length_ofList]
      rfl)
  refine hminimal.2.1.mpr ?_
  simp [nodeLabelItem, nodeMaterial, tenthDigest]

end ProxyLoom.Compiler
