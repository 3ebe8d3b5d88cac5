import ProxyLoom.Compiler.Meaning

/-!
# The form of tags

A policy group is tagged `g_` and digits; the instances of its members add `_m`, their number and
their role. So no member is mistaken for a group, and resolving a tag twice is resolving it once.
-/

namespace ProxyLoom.Compiler

open IR Adapter List

def IsStem (s : String) : Prop := s ≠ "" ∧ s.toList.all Text.isLowerHex = true

theorem isStem_of_labels {digest : String → String} {items : List LabelItem}
    {st : LabelState} (hdigest : ∀ m, (digest m).toList.all Text.isLowerHex = true)
    (h : st.Labels digest items) : IsStem st.stem := by
  have hall : st.hex.toList.all Text.isLowerHex = true := h.hex ▸ hdigest st.material
  refine ⟨?_, ?_⟩
  · intro hempty
    have hlist : st.hex.toList.take st.n = [] := by
      rw [LabelState.stem] at hempty
      simpa using congrArg String.toList hempty
    have hlength : (st.hex.toList.take st.n).length = min st.n labelHashLen := by
      rw [length_take, String.length_toList, h.length]
    have hmin := h.min
    rw [hlist] at hlength
    simp only [length_nil, labelHashLen, labelMinLen] at hlength hmin
    omega
  · rw [LabelState.stem, String.toList_ofList, all_eq_true]
    intro ch hch
    exact all_eq_true.mp hall ch (mem_of_mem_take hch)

theorem not_mem_of_isStem {s : String} (h : IsStem s) {ch : Char}
    (hch : Text.isLowerHex ch = false) : ch ∉ s.toList := by
  intro hmem
  rw [all_eq_true.mp h.2 ch hmem] at hch
  cases hch

/-! ## Policy groups -/

section
variable {c : Compiler} {b : Base} {x : Expansion} {g : Graph} {tag : String}

theorem mem_groups {entry : Resource × PolicyGroup} :
    entry ∈ b.groups ↔ entry.1 ∈ b.policies ∧ entry.1.payload = .policyGroup entry.2 := by
  obtain ⟨r, p⟩ := entry
  unfold Base.groups
  rw [mem_filterMap]
  constructor
  · rintro ⟨r', hr', h⟩
    cases hpayload : r'.payload with
    | policyGroup p' =>
      rw [hpayload] at h
      cases h
      exact ⟨(mem_insertionSort _).mp hr', hpayload⟩
    | node | chain | routingProfile | dnsProfile | ruleSet | subscriptionProfile | clientPreset =>
      rw [hpayload] at h
      cases h
  · rintro ⟨hr, hp⟩
    refine ⟨r, (mem_insertionSort _).mpr hr, ?_⟩
    rw [hp]

/-- The tags of policy groups. -/
theorem policyTag_eq (hb : b.Expanded c.digest x) {r : Resource} (hr : r ∈ b.policies) :
    ∃ stem, IsStem stem ∧ b.policyTag r = "g_" ++ stem := by
  obtain ⟨st, hst, htag⟩ := policyLabel hb.sound hb.labels (hb.policies ▸ hr)
  exact ⟨st.stem, isStem_of_labels c.digest_hex hst, htag⟩

theorem Prepared.mem_policies (h : Prepared b g) {p : PolicyInstance} :
    p ∈ g.policies ↔ ∃ entry ∈ b.groups, b.policyInstance entry.1 entry.2 = p := by
  rw [h.policies, mem_insertionSort, mem_map]

/-! ## Members -/

/-- A member's tag is its group's tag with more behind it. -/
def IsMemberTag (tag member : String) : Prop :=
  ∃ index, member = Base.memberPrefix tag index ++ "_n" ∨
    member = Base.memberPrefix tag index ++ "_h2"

theorem mem_memberTags {members : List TargetRef} {entry : ID × String}
    (h : entry ∈ b.memberTags tag members) : IsMemberTag tag entry.2 := by
  unfold Base.memberTags at h
  obtain ⟨⟨member, index⟩, -, h⟩ := mem_filterMap.mp h
  dsimp only at h
  cases hr : b.resources (Base.TargetRef.id member) with
  | none =>
    rw [hr] at h
    cases h
  | some r =>
    rw [hr] at h
    dsimp only at h
    cases hpayload : r.payload with
    | node n =>
      rw [hpayload] at h
      cases h
      exact ⟨index, .inl rfl⟩
    | chain ch =>
      rw [hpayload] at h
      cases h
      exact ⟨index, .inr rfl⟩
    | policyGroup | routingProfile | dnsProfile | ruleSet | subscriptionProfile | clientPreset =>
      rw [hpayload] at h
      cases h

/-- The tags of their members. -/
theorem memberTag_eq (tag : String) (members : List TargetRef) (member : TargetRef) :
    b.memberTag tag members member = "" ∨ IsMemberTag tag (b.memberTag tag members member) := by
  unfold Base.memberTag Adapter.lookup
  cases h : (b.memberTags tag members).reverse.find? fun entry =>
      entry.1 = Base.TargetRef.id member with
  | none => exact .inl rfl
  | some entry =>
    exact .inr (mem_memberTags (mem_reverse.mp (mem_of_find?_eq_some h)))

theorem memberTag_ne {stem stem' member : String} (hstem : IsStem stem)
    (htag : tag = "g_" ++ stem') (h : IsMemberTag tag member) : member ≠ "g_" ++ stem := by
  intro heq
  refine not_mem_of_isStem hstem (show Text.isLowerHex '_' = false by decide) ?_
  have hmem : '_' ∈ (member.toList.drop 2) := by
    obtain ⟨index, rfl | rfl⟩ := h <;> simp [htag, Base.memberPrefix]
  rw [heq] at hmem
  simpa using hmem

/-! ## Resolution -/

theorem resolvePolicyTag_of_forall {input : EmitInput}
    (h : ∀ p ∈ input.policies, p.tag ≠ tag) : input.resolvePolicyTag tag = tag := by
  unfold EmitInput.resolvePolicyTag
  have hnone : (input.policies.find? fun p => p.tag = tag && p.strategy = .fixed) = none := by
    rw [List.find?_eq_none]
    intro p hp
    simp [h p hp]
  rw [hnone]

/-- **Resolution is idempotent.** -/
theorem resolvePolicyTag_idem (hb : b.Expanded c.digest x) (h : Prepared b g) (tag : String) :
    g.emitInput.resolvePolicyTag (g.emitInput.resolvePolicyTag tag) =
      g.emitInput.resolvePolicyTag tag := by
  have htag : ∀ p ∈ g.policies, ∃ stem, IsStem stem ∧ p.tag = "g_" ++ stem := by
    intro p hp
    obtain ⟨entry, hentry, rfl⟩ := h.mem_policies.mp hp
    exact policyTag_eq hb (mem_groups.mp hentry).1
  cases hfind : g.emitInput.policies.find? fun p => p.tag = tag && p.strategy = .fixed with
  | none =>
    have hself : g.emitInput.resolvePolicyTag tag = tag := by
      rw [EmitInput.resolvePolicyTag, hfind]
    rw [hself, hself]
  | some p =>
    have hdefault : g.emitInput.resolvePolicyTag tag = p.default := by
      rw [EmitInput.resolvePolicyTag, hfind]
    rw [hdefault]
    refine resolvePolicyTag_of_forall fun q hq => ?_
    obtain ⟨stem, hstem, hqtag⟩ := htag q hq
    obtain ⟨entry, hentry, rfl⟩ := h.mem_policies.mp (mem_of_find?_eq_some hfind)
    obtain ⟨stem', -, hptag⟩ := policyTag_eq hb (mem_groups.mp hentry).1
    rw [hqtag]
    obtain hempty | hmember := @memberTag_eq b (b.policyTag entry.1) entry.2.members
      entry.2.defaultMember
    · rw [show (b.policyInstance entry.1 entry.2).default = "" from hempty]
      simp
    · exact (memberTag_ne hstem hptag hmember).symm

/-! ## Words -/

def isWordChar (ch : Char) : Bool := Text.isLower ch || Text.isDigit ch || ch == '_'

def IsWord (s : String) : Prop := ∀ ch ∈ s.toList, isWordChar ch = true

instance (s : String) : Decidable (IsWord s) :=
  decidable_of_iff (s.toList.all isWordChar = true) all_eq_true

theorem isWord_append {s t : String} (hs : IsWord s) (ht : IsWord t) : IsWord (s ++ t) := by
  intro ch hch
  rw [String.toList_append] at hch
  exact (mem_append.mp hch).elim (hs ch) (ht ch)

theorem isWord_stem {s : String} (h : IsStem s) : IsWord s := by
  intro ch hch
  have hhex := all_eq_true.mp h.2 ch hch
  simp only [Text.isLowerHex, Bool.or_eq_true, Bool.and_eq_true, decide_eq_true_eq] at hhex
  simp only [isWordChar, Text.isLower, Bool.or_eq_true, Bool.and_eq_true, decide_eq_true_eq]
  obtain hdigit | ⟨ha, hf⟩ := hhex
  · exact .inl (.inr hdigit)
  · exact .inl (.inl ⟨ha, Char.le_trans hf (by decide)⟩)

theorem isWord_number (n : ℕ) : IsWord (toString n) := by
  intro ch hch
  have hdigit := Scan.isDigit_of_mem_digits (n := n) hch
  unfold isWordChar Text.isDigit
  simp only [Char.isDigit, Bool.and_eq_true, decide_eq_true_eq] at hdigit
  simp only [Bool.or_eq_true, Bool.and_eq_true, decide_eq_true_eq]
  exact .inl (.inr hdigit)

theorem isWord_member {member : String} (htag : IsWord tag) (h : IsMemberTag tag member) :
    IsWord member := by
  obtain ⟨index, rfl | rfl⟩ := h
  · exact isWord_append (isWord_append (isWord_append htag (by decide)) (isWord_number _))
      (by decide)
  · exact isWord_append (isWord_append (isWord_append htag (by decide)) (isWord_number _))
      (by decide)

theorem isWord_policyTag (hb : b.Expanded c.digest x) {r : Resource} (hr : r ∈ b.policies) :
    IsWord (b.policyTag r) := by
  obtain ⟨stem, hstem, htag⟩ := policyTag_eq hb hr
  rw [htag]
  exact isWord_append (by decide) (isWord_stem hstem)

theorem isWord_tags (hb : b.Expanded c.digest x) (id : ID) : IsWord (b.tags id) := by
  unfold Base.tags
  cases hp : b.policies.find? fun r => r.id = id with
  | some r => exact isWord_policyTag hb (mem_of_find?_eq_some hp)
  | none =>
    cases hc : b.chains.find? fun ch => ch.resourceID = id with
    | some ch =>
      obtain ⟨r, hr, rfl⟩ := (hb.chains ch).mp (mem_of_find?_eq_some hc)
      obtain ⟨st, hst, -, htag⟩ := chainOf_tags hb.sound hb.labels hr
      dsimp only
      rw [htag]
      exact isWord_append (isWord_append (by decide)
        (isWord_stem (isStem_of_labels c.digest_hex hst))) (by decide)
    | none =>
      cases ho : b.independents.find? fun o => o.resource.id = id with
      | some o =>
        obtain ⟨r, hr, rfl⟩ := (hb.independents o).mp (mem_of_find?_eq_some ho)
        obtain ⟨st, hst, htag⟩ := independentOf_tag hb.sound hb.labels hr
        dsimp only
        rw [htag]
        exact isWord_append (by decide) (isWord_stem (isStem_of_labels c.digest_hex hst))
      | none => exact show IsWord "" by decide

theorem isWord_resolve (hb : b.Expanded c.digest x) (ref : TargetRef) :
    IsWord (b.resolve ref) := by
  cases ref with
  | builtin t =>
    cases t with
    | direct => exact show IsWord directTag by decide
    | reject => exact show IsWord blockTag by decide
  | resource kind id => exact isWord_tags hb id

/-- **Tags are words.** -/
theorem isWord_resolved (hb : b.Expanded c.digest x) (h : Prepared b g)
    (htag : IsWord tag) : IsWord (g.emitInput.resolvePolicyTag tag) := by
  unfold EmitInput.resolvePolicyTag
  cases hfind : g.emitInput.policies.find? fun p => p.tag = tag && p.strategy = .fixed with
  | none => exact htag
  | some p =>
    obtain ⟨entry, hentry, rfl⟩ := h.mem_policies.mp (mem_of_find?_eq_some hfind)
    have hword := isWord_policyTag hb (mem_groups.mp hentry).1
    obtain hempty | hmember := @memberTag_eq b (b.policyTag entry.1) entry.2.members
      entry.2.defaultMember
    · dsimp only
      rw [show (b.policyInstance entry.1 entry.2).default = "" from hempty]
      decide
    · exact isWord_member hword hmember

end

end ProxyLoom.Compiler
