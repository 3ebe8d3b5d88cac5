import ProxyLoom.Compiler.LabelExact
import ProxyLoom.Compiler.Tags
import ProxyLoom.Adapter.Xray.Emit

/-!
# The outbounds of a prepared graph

The tags of a graph are made in two places: the labeler tags the requested nodes, chains and policy
groups, and every group tags its own instances of its members. The outbounds are, up to their order,
those of the two places, so their number is the one that was checked, their tags differ, and the tag
of a member is no beginning of another.
-/

namespace ProxyLoom.Compiler

open IR Adapter List Except

/-! ## The text of a member's tag -/

inductive Role where
  | node | hop1 | hop2
deriving DecidableEq, Repr

def Role.text : Role → String
  | .node => "_n"
  | .hop1 => "_h1"
  | .hop2 => "_h2"

def memberText (stem : String) (index : ℕ) (role : Role) : String :=
  Base.memberPrefix ("g_" ++ stem) index ++ role.text

theorem starts_fields {sep : Char} {p q a b : List Char} (hp : sep ∉ p) (hq : sep ∉ q)
    (h : p ++ sep :: a <+: q ++ sep :: b) : p = q ∧ a <+: b := by
  obtain ⟨u, hu⟩ := h
  have hcut := congrArg (Scan.cut sep) hu
  rw [append_assoc, cons_append, Scan.cut_append hp, Scan.cut_append hq] at hcut
  simp only [Prod.mk.injEq, Option.some.injEq] at hcut
  exact ⟨hcut.1, u, hcut.2⟩

theorem toList_memberText (stem : String) (index : ℕ) (role : Role) :
    (memberText stem index role).toList =
      ['g'] ++ '_' :: (stem.toList ++ '_' ::
        ('m' :: Scan.digits (index + 1) ++ role.text.toList)) := by
  simp [memberText, Base.memberPrefix, Scan.digits]

variable {stem : String}

/-- **Members' tags begin no others.** -/
theorem memberText_starts {stem' : String} {index index' : ℕ} {role role' : Role}
    (hstem : IsStem stem) (hstem' : IsStem stem')
    (h : (memberText stem index role).toList <+: (memberText stem' index' role').toList) :
    stem = stem' ∧ index = index' ∧ role = role' := by
  have hnot : ∀ s, IsStem s → '_' ∉ s.toList := fun s hs =>
    not_mem_of_isStem hs (show Text.isLowerHex '_' = false by decide)
  have hdigits : ∀ n, '_' ∉ 'm' :: Scan.digits n := by
    intro n hmem
    obtain heq | hmem := mem_cons.mp hmem
    · exact absurd heq (by decide)
    · exact Scan.not_mem_digits (by decide) hmem
  have htail : ∀ r : Role, ∃ c cs, r.text.toList = '_' :: c :: cs := by
    intro r
    cases r <;> exact ⟨_, _, rfl⟩
  rw [toList_memberText, toList_memberText] at h
  obtain ⟨-, h⟩ := starts_fields (by decide) (by decide) h
  obtain ⟨hstems, h⟩ := starts_fields (hnot _ hstem) (hnot _ hstem') h
  obtain ⟨c, cs, hrole⟩ := htail role
  obtain ⟨c', cs', hrole'⟩ := htail role'
  rw [hrole, hrole'] at h
  obtain ⟨hindex, h⟩ := starts_fields (hdigits _) (hdigits _) h
  refine ⟨String.toList_inj.mp hstems, ?_, ?_⟩
  · have hnumber := congrArg Scan.number (List.cons.inj hindex).2
    rw [Scan.number_digits, Scan.number_digits, Option.some.injEq] at hnumber
    omega
  · have hroles : ∀ r r' : Role, r.text.toList <+: r'.text.toList → r = r' := by
      intro r r'
      cases r <;> cases r' <;> decide
    refine hroles role role' ?_
    rw [hrole, hrole']
    exact (prefix_cons_inj '_').mpr h

theorem memberText_inj {stem' : String} {index index' : ℕ} {role role' : Role} (hstem : IsStem stem)
    (hstem' : IsStem stem') (h : memberText stem index role = memberText stem' index' role') :
    stem = stem' ∧ index = index' ∧ role = role' := by
  refine memberText_starts hstem hstem' ?_
  rw [h]

/-! ## The members of a group -/

section
variable {c : Compiler} {spec : FrozenInputSpec} {target : Target} {b : Base} {x : Expansion}
  {g : Graph} {entry : Resource × PolicyGroup} {tag : String} {diags : List Diagnostic} {α : Type}

theorem mergeResource_group {r r' : Resource} {p : PolicyGroup}
    (hr : r.payload.validate c.schema = true) (h : c.mergeResource target r = .ok r')
    (hp : r'.payload = .policyGroup p) :
    p.validate c.schema = true ∧ ∃ p₀, r.payload = .policyGroup p₀ ∧ p.members = p₀.members := by
  unfold mergeResource at h
  cases ho : target.override? r.id with
  | none =>
    rw [ho] at h
    cases h
    rw [hp] at hr
    exact ⟨hr, p, hp, rfl⟩
  | some o =>
    rw [ho] at h
    dsimp only at h
    cases hm : mergePolicyOverride c.schema r o with
    | none =>
      rw [hm] at h
      cases h
    | some p' =>
      rw [hm] at h
      cases h
      obtain rfl : p' = p := Payload.policyGroup.inj hp
      unfold mergePolicyOverride at hm
      cases hpayload : r.payload with
      | policyGroup p₀ =>
        rw [hpayload] at hm
        simp only [Option.ite_none_right_eq_some, Bool.and_eq_true, Option.some.injEq] at hm
        obtain ⟨⟨-, hvalid⟩, rfl⟩ := hm
        exact ⟨hvalid, p₀, rfl, rfl⟩
      | node | chain | routingProfile | dnsProfile | ruleSet | subscriptionProfile | clientPreset =>
        rw [hpayload] at hm
        cases hm

/-- A member is a node or a chain of the snapshot, of the kind that the reference says. -/
structure MemberOf (b : Base) (member : TargetRef) (r : Resource) : Prop where
  ref : member = .resource r.payload.kind r.id
  resource : b.resources r.id = some r
  kind : r.payload.kind = .node ∨ r.payload.kind = .chain

theorem groups_valid (h : c.base spec target = .ok b) (hb : b.Expanded c.digest x)
    (hentry : entry ∈ b.groups) :
    entry.2.validate c.schema = true ∧ ∀ member ∈ entry.2.members, ∃ r, MemberOf b member r := by
  obtain ⟨hpolicy, hpayload⟩ := mem_groups.mp hentry
  have hres := (hb.sound.policies entry.1 (hb.policies ▸ hpolicy)).1
  obtain ⟨build, merged, y, labels, hspec, -, hmerged, -, -, hbase⟩ := base_eq_ok h
  obtain ⟨hwf, hclosed⟩ := validateSpec_ok_iff.mp hspec
  rw [hbase] at hres
  obtain ⟨original, horiginal, hmerge⟩ :=
    (mapM_eq_ok_iff.mp hmerged).exists_left (mem_of_resourcesOf hres)
  have hvalid := hwf.resources original horiginal
  unfold Resource.validate at hvalid
  simp only [Bool.and_eq_true] at hvalid
  obtain ⟨hgroup, p₀, hp₀, hmembers⟩ := mergeResource_group hvalid.1.2 hmerge hpayload
  refine ⟨hgroup, ?_⟩
  intro member hmember
  have hvalidMember : member.validMember = true := by
    unfold PolicyGroup.validate at hgroup
    simp only [Bool.and_eq_true] at hgroup
    exact all_eq_true.mp hgroup.1.1.1.1.2 member hmember
  cases member with
  | builtin t => cases hvalidMember
  | resource kind id =>
    have hkind : kind = .node ∨ kind = .chain := by
      simp only [TargetRef.validMember, Bool.and_eq_true, Bool.or_eq_true,
        decide_eq_true_eq] at hvalidMember
      exact hvalidMember.1
    have hedge : (id, kind) ∈ original.payload.edges := by
      rw [hp₀]
      exact mem_flatMap.mpr ⟨_, hmembers ▸ hmember, mem_singleton.mpr rfl⟩
    obtain ⟨r, hr, rfl, hrkind⟩ := hclosed.references original horiginal _ hedge
    have hpkind : r.payload.kind = kind := (kind_of_validate (hwf.resources r hr)).symm.trans hrkind
    refine ⟨r, ?_, ?_, hpkind ▸ hkind⟩
    · rw [hpkind]
    · refine base_resources h ((byID_eq_some_iff hclosed.unique).mpr ⟨hr, rfl⟩) ?_
      rw [hpkind]
      obtain rfl | rfl := hkind <;> decide

def memberRefs (b : Base) (tag : String) (entry : TargetRef × ℕ) : List String :=
  match (b.resources (Base.TargetRef.id entry.1)).map Resource.payload with
  | some (.node _) => [Base.memberPrefix tag entry.2 ++ "_n"]
  | some (.chain _) =>
    [Base.memberPrefix tag entry.2 ++ "_h1", Base.memberPrefix tag entry.2 ++ "_h2"]
  | _ => []

def outboundTags (independents : List IndependentOutbound) (chains : List ChainInstance) :
    List String :=
  independents.map IndependentOutbound.tag ++ chains.flatMap fun ch => [ch.tagH1, ch.tagH2]

theorem outboundTags_append (o o' : List IndependentOutbound) (ch ch' : List ChainInstance) :
    (outboundTags (o ++ o') (ch ++ ch')).Perm (outboundTags o ch ++ outboundTags o' ch') := by
  unfold outboundTags
  rw [map_append, flatMap_append]
  simp only [append_assoc]
  refine List.Perm.append_left _ ?_
  rw [← append_assoc, ← append_assoc]
  exact List.Perm.append_right _ perm_append_comm

theorem outboundTags_perm {o o' : List IndependentOutbound} {ch ch' : List ChainInstance}
    (ho : o.Perm o') (hch : ch.Perm ch') : (outboundTags o ch).Perm (outboundTags o' ch') :=
  (ho.map _).append (hch.flatMap_right _)

theorem memberRefs_perm (b : Base) (tag : String) (members : List TargetRef) :
    (outboundTags (b.memberOutbounds tag members) (b.memberChains tag members)).Perm
      (members.zipIdx.flatMap (memberRefs b tag)) := by
  unfold Base.memberOutbounds Base.memberChains outboundTags
  generalize members.zipIdx = entries
  induction entries with
  | nil => exact .refl _
  | cons entry entries ih =>
    obtain ⟨member, index⟩ := entry
    rw [filterMap_cons, filterMap_cons, flatMap_cons, memberRefs]
    dsimp only
    cases hr : b.resources (Base.TargetRef.id member) with
    | none => exact ih
    | some r =>
      dsimp only [Option.map_some]
      cases hp : r.payload with
      | node n => exact ih.cons _
      | chain ch =>
        refine perm_middle.trans (List.Perm.cons _ ?_)
        exact perm_middle.trans (ih.cons _)
      | policyGroup | routingProfile | dnsProfile | ruleSet | subscriptionProfile | clientPreset =>
        exact ih

/-! ## What is requested -/

def labelItems (x : Expansion) : List LabelItem :=
  x.independents.map (fun r => nodeLabelItem r.id r.metadata.revision) ++
    (x.chains.map (fun r => chainLabelItem r.id r.metadata.revision) ++
      x.policies.map fun r => policyLabelItem r.id r.metadata.revision)

theorem perm_insert {l p q : List α} (h : l.Perm (p ++ q)) (a : α) :
    (l ++ [a]).Perm (p ++ [a] ++ q) := by
  refine (h.append_right [a]).trans ?_
  rw [append_assoc, append_assoc]
  exact List.Perm.append_left _ perm_append_comm

theorem addResource_items {resources : Resources} {x x' : Expansion} {id : ID}
    (hkey : ∀ id r, resources id = some r → r.id = id)
    (h : addResource resources target x id = .ok x') (hx : x.items.Perm (labelItems x)) :
    x'.items.Perm (labelItems x') := by
  obtain ⟨r, hr, hcases⟩ := addResource_cases h
  obtain rfl : r.id = id := hkey id r hr
  unfold labelItems at hx ⊢
  obtain ⟨-, ⟨-, rfl⟩ | rfl⟩ | ⟨-, ⟨-, rfl⟩ | rfl⟩ | ⟨-, ⟨-, rfl⟩ | rfl⟩ := hcases
  · exact hx
  · rw [map_append]
    exact perm_insert hx _
  · exact hx
  · rw [← append_assoc] at hx ⊢
    rw [map_append, ← append_assoc]
    exact perm_insert hx _
  · exact hx
  · rw [← append_assoc] at hx
    rw [map_append, ← append_assoc, ← append_assoc]
    exact hx.append_right _

theorem foldlM_items {resources : Resources} {x x' : Expansion} {ids : List ID}
    (hkey : ∀ id r, resources id = some r → r.id = id)
    (h : ids.foldlM (addResource resources target) x = .ok x') (hx : x.items.Perm (labelItems x)) :
    x'.items.Perm (labelItems x') := by
  induction ids generalizing x with
  | nil =>
    cases h
    exact hx
  | cons id ids ih =>
    rw [foldlM_cons] at h
    obtain ⟨y, hy, h⟩ := of_bind h
    exact ih h (addResource_items hkey hy hx)

structure Base.Counted (b : Base) (x : Expansion) : Prop where
  independents : b.independents.Perm (x.independents.map (independentOf b.labels))
  chains : b.chains.Perm (x.chains.map (chainOf b.resources b.labels))
  items : x.items.Perm (labelItems x)
  count : outboundCount x ≤ maxOutbounds

theorem base_counted (h : c.base spec target = .ok b)
    (hx : expand spec b.resources target = .ok x) : b.Counted x := by
  unfold base at h
  obtain ⟨⟨⟩, -, h⟩ := of_bind h
  obtain ⟨build, -, h⟩ := of_bind h
  obtain ⟨merged, -, h⟩ := of_bind h
  obtain ⟨y, hy, h⟩ := of_bind h
  obtain ⟨labels, -, h⟩ := of_bind h
  obtain ⟨hcount, h⟩ := of_ite h
  cases h
  obtain rfl : y = x := Except.ok.inj (hy.symm.trans hx)
  refine ⟨perm_insertionSort _ _, perm_insertionSort _ _, ?_, not_lt.mp hcount⟩
  exact foldlM_items (fun id r => resourcesOf_id) hy (.refl _)

/-! ## Tags of the labeler -/

def baseTags (b : Base) : List String :=
  outboundTags b.independents b.chains ++ b.policies.map b.policyTag

theorem baseTags_perm (hb : b.Expanded c.digest x) (hcounted : b.Counted x) :
    (baseTags b).Perm (x.items.flatMap fun item => b.labels item.key) := by
  have hnode : ∀ r ∈ x.independents,
      b.labels (nodeLabelItem r.id r.metadata.revision).key = [(independentOf b.labels r).tag] := by
    intro r hr
    obtain ⟨st, -, hlabel⟩ := labels_of_item hb.sound hb.labels (hb.sound.nodes r hr).2.2
    rw [independentOf, show nodeMaterial r.id r.metadata.revision =
      (nodeLabelItem r.id r.metadata.revision).key from rfl, hlabel]
    rfl
  have hchain : ∀ r ∈ x.chains, b.labels (chainLabelItem r.id r.metadata.revision).key =
      [(chainOf b.resources b.labels r).tagH1, (chainOf b.resources b.labels r).tagH2] := by
    intro r hr
    obtain ⟨st, -, hlabel⟩ := labels_of_item hb.sound hb.labels (hb.sound.chains r hr).2.2
    rw [chainOf, show chainMaterial r.id r.metadata.revision =
      (chainLabelItem r.id r.metadata.revision).key from rfl, hlabel]
    rfl
  have hpolicy : ∀ r ∈ x.policies,
      b.labels (policyLabelItem r.id r.metadata.revision).key = [b.policyTag r] := by
    intro r hr
    obtain ⟨st, -, hlabel⟩ := labels_of_item hb.sound hb.labels (hb.sound.policies r hr).2.2
    rw [Base.policyTag, show policyMaterial r.id r.metadata.revision =
      (policyLabelItem r.id r.metadata.revision).key from rfl, hlabel]
    rfl
  refine List.Perm.trans ?_ (hcounted.items.flatMap_right _).symm
  unfold baseTags
  refine ((outboundTags_perm hcounted.independents hcounted.chains).append_right _).trans ?_
  unfold labelItems outboundTags
  rw [hb.policies, flatMap_append, flatMap_append, flatMap_map, flatMap_map,
    flatMap_map, flatMap_map, flatMap_congr hnode, flatMap_congr hchain,
    flatMap_congr hpolicy, map_map, append_assoc, ← map_eq_flatMap,
    ← map_eq_flatMap]
  exact .refl _

/-- The tags of the labeler differ. -/
theorem baseTags_nodup (hb : b.Expanded c.digest x) (hcounted : b.Counted x) :
    (baseTags b).Nodup := by
  rw [(baseTags_perm hb hcounted).nodup_iff]
  exact assign_tags_nodup hb.sound.items (assign_digest_length hb.labels) hb.labels

theorem mem_baseTags (hb : b.Expanded c.digest x) (h : tag ∈ baseTags b) :
    ∃ stem, IsStem stem ∧ (tag = "n_" ++ stem ∨ tag = "c_" ++ stem ++ "_h1" ∨
      tag = "c_" ++ stem ++ "_h2" ∨ (tag = "g_" ++ stem ∧ tag ∈ b.policies.map b.policyTag)) := by
  unfold baseTags outboundTags at h
  obtain (h | h) | h := (mem_append.mp h).imp_left mem_append.mp
  · obtain ⟨o, ho, rfl⟩ := mem_map.mp h
    obtain ⟨r, hr, rfl⟩ := (hb.independents o).mp ho
    obtain ⟨st, hst, htag⟩ := independentOf_tag hb.sound hb.labels hr
    exact ⟨st.stem, isStem_of_labels c.digest_hex hst, .inl htag⟩
  · obtain ⟨ch, hch, htag⟩ := mem_flatMap.mp h
    obtain ⟨r, hr, rfl⟩ := (hb.chains ch).mp hch
    obtain ⟨st, hst, htag₁, htag₂⟩ := chainOf_tags hb.sound hb.labels hr
    refine ⟨st.stem, isStem_of_labels c.digest_hex hst, .inr ?_⟩
    obtain rfl | htag := mem_cons.mp htag
    · exact .inl htag₁
    · exact .inr (.inl ((mem_singleton.mp htag).trans htag₂))
  · obtain ⟨r, hr, rfl⟩ := mem_map.mp h
    obtain ⟨stem, hstem, htag⟩ := policyTag_eq hb hr
    exact ⟨stem, hstem, .inr (.inr (.inr ⟨htag, h⟩))⟩

/-! ## Tags of the members -/

theorem mem_memberRefs {entry : TargetRef × ℕ} (h : tag ∈ memberRefs b ("g_" ++ stem) entry) :
    ∃ role, tag = memberText stem entry.2 role := by
  unfold memberRefs at h
  split at h
  · exact ⟨.node, mem_singleton.mp h⟩
  · obtain rfl | h := mem_cons.mp h
    · exact ⟨.hop1, rfl⟩
    · exact ⟨.hop2, mem_singleton.mp h⟩
  · cases h

theorem memberRefs_nodup (hstem : IsStem stem) (entry : TargetRef × ℕ) :
    (memberRefs b ("g_" ++ stem) entry).Nodup := by
  unfold memberRefs
  split
  · exact nodup_singleton _
  · refine nodup_cons.mpr ⟨fun h => ?_, nodup_singleton _⟩
    have heq : memberText stem entry.2 .hop1 = memberText stem entry.2 .hop2 :=
      mem_singleton.mp h
    obtain ⟨-, -, hrole⟩ := memberText_inj hstem hstem heq
    cases hrole
  · exact nodup_nil

def groupTags (b : Base) (entry : Resource × PolicyGroup) : List String :=
  entry.2.members.zipIdx.flatMap (memberRefs b (b.policyTag entry.1))

theorem mem_groupTags (hb : b.Expanded c.digest x) (hentry : entry ∈ b.groups)
    (h : tag ∈ groupTags b entry) :
    ∃ stem index role, IsStem stem ∧ b.policyTag entry.1 = "g_" ++ stem ∧
      tag = memberText stem index role := by
  obtain ⟨stem, hstem, hpolicy⟩ := policyTag_eq hb (mem_groups.mp hentry).1
  unfold groupTags at h
  rw [hpolicy] at h
  obtain ⟨member, -, htag⟩ := mem_flatMap.mp h
  obtain ⟨role, rfl⟩ := mem_memberRefs htag
  exact ⟨stem, member.2, role, hstem, hpolicy, rfl⟩

theorem pairwise_zipIdx (l : List α) :
    l.zipIdx.Pairwise fun a b => a.2 ≠ b.2 := by
  rw [← pairwise_map (f := Prod.snd) (R := (· ≠ ·)), zipIdx_map_snd]
  exact nodup_range'

theorem groupTags_nodup (hb : b.Expanded c.digest x) (hentry : entry ∈ b.groups) :
    (groupTags b entry).Nodup := by
  obtain ⟨stem, hstem, hpolicy⟩ := policyTag_eq hb (mem_groups.mp hentry).1
  unfold groupTags
  rw [hpolicy, nodup_flatMap]
  refine ⟨fun member _ => memberRefs_nodup hstem member, ?_⟩
  refine (pairwise_zipIdx entry.2.members).imp fun {m m'} hne tag htag htag' => ?_
  obtain ⟨role, rfl⟩ := mem_memberRefs htag
  obtain ⟨role', heq⟩ := mem_memberRefs htag'
  exact hne (memberText_inj hstem hstem heq).2.1

theorem groups_perm (hb : b.Expanded c.digest x) : (b.groups.map Prod.fst).Perm b.policies := by
  have hkind : ∀ r ∈ b.policies, r.payload.kind = .policyGroup := fun r hr =>
    (hb.sound.policies r (hb.policies ▸ hr)).2.1
  unfold Base.groups
  have hsorted := perm_insertionSort (fun a b : Resource => a.id ≤ b.id) b.policies
  refine List.Perm.trans ?_ hsorted
  have hkind' : ∀ r ∈ b.policies.insertionSort (fun a b => a.id ≤ b.id),
      r.payload.kind = .policyGroup := fun r hr => hkind r (hsorted.subset hr)
  generalize b.policies.insertionSort (fun a b => a.id ≤ b.id) = l at hkind'
  induction l with
  | nil => exact .refl _
  | cons r l ih =>
    have hrest := ih fun r' hr' => hkind' r' (mem_cons_of_mem _ hr')
    have hr := hkind' r mem_cons_self
    rw [filterMap_cons]
    cases hp : r.payload with
    | policyGroup p => exact hrest.cons r
    | node | chain | routingProfile | dnsProfile | ruleSet | subscriptionProfile | clientPreset =>
      rw [hp] at hr
      cases hr

/-- The tags of the members of groups differ. -/
theorem memberTags_nodup (hb : b.Expanded c.digest x) (hcounted : b.Counted x) :
    (b.groups.flatMap (groupTags b)).Nodup := by
  rw [nodup_flatMap]
  refine ⟨fun entry hentry => groupTags_nodup hb hentry, ?_⟩
  have hpolicies : (b.groups.map fun entry => b.policyTag entry.1).Nodup := by
    have hperm := (groups_perm hb).map b.policyTag
    rw [map_map] at hperm
    exact hperm.nodup_iff.mpr (nodup_append.mp (baseTags_nodup hb hcounted)).2.1
  refine (pairwise_map.mp hpolicies).imp_of_mem ?_
  intro entry entry' hentry hentry' hne tag htag htag'
  obtain ⟨stem, index, role, hstem, hpolicy, rfl⟩ := mem_groupTags hb hentry htag
  obtain ⟨stem', index', role', hstem', hpolicy', heq⟩ := mem_groupTags hb hentry' htag'
  obtain ⟨rfl, -, -⟩ := memberText_inj hstem hstem' heq
  exact hne (hpolicy.trans hpolicy'.symm)

/-! ## The graph -/

theorem outboundTags_flatMap (l : List α) (o : α → List IndependentOutbound)
    (ch : α → List ChainInstance) :
    (outboundTags (l.flatMap o) (l.flatMap ch)).Perm
      (l.flatMap fun a => outboundTags (o a) (ch a)) := by
  induction l with
  | nil => exact .refl _
  | cons a l ih =>
    rw [flatMap_cons, flatMap_cons, flatMap_cons]
    exact (outboundTags_append _ _ _ _).trans (ih.append_left _)

theorem orchestration_outbounds (h : b.prepareOrchestration = .ok g) :
    g.independents = b.independents ++ b.groups.flatMap (fun entry =>
        b.memberOutbounds (b.policyTag entry.1) entry.2.members) ∧
      g.chains = b.chains ++ b.groups.flatMap fun entry =>
        b.memberChains (b.policyTag entry.1) entry.2.members := by
  unfold Base.prepareOrchestration at h
  obtain ⟨⟨⟩, -, h⟩ := of_bind h
  obtain ⟨⟨st, routing, finalTag⟩, -, h⟩ := of_bind h
  obtain ⟨⟨st', dns⟩, -, h⟩ := of_bind h
  obtain ⟨preset, -, h⟩ := of_bind h
  cases h
  exact ⟨rfl, rfl⟩

/-- **The outbounds of a graph**: those of the base and those of its groups. -/
theorem outbounds_perm (hb : c.base spec target = .ok b)
    (h : c.prepare spec target = .ok (g, diags)) :
    (outboundTags g.independents g.chains).Perm
      (outboundTags b.independents b.chains ++ b.groups.flatMap (groupTags b)) := by
  obtain ⟨b', g', keys, unverified, hb', hg, rfl⟩ := prepare_eq_ok h
  obtain rfl : b = b' := Except.ok.inj (hb.symm.trans hb')
  obtain ⟨hindependents, hchains⟩ := orchestration_outbounds hg
  have hsorted : (outboundTags (sortGraph g').independents (sortGraph g').chains).Perm
      (outboundTags g'.independents g'.chains) :=
    outboundTags_perm (perm_insertionSort _ _) (perm_insertionSort _ _)
  refine hsorted.trans ?_
  rw [hindependents, hchains]
  refine (outboundTags_append _ _ _ _).trans (List.Perm.append_left _ ?_)
  refine (outboundTags_flatMap _ _ _).trans ?_
  exact List.Perm.flatMap_left _ fun entry _ => memberRefs_perm b _ _

theorem length_outboundTags (o : List IndependentOutbound) (ch : List ChainInstance) :
    (outboundTags o ch).length = o.length + 2 * ch.length := by
  unfold outboundTags
  rw [length_append, length_map, length_flatMap]
  simp [Nat.mul_comm]

theorem length_memberRefs {members : List TargetRef} (k : ℕ)
    (h : ∀ member ∈ members, ∃ r, MemberOf b member r) :
    ((members.zipIdx k).flatMap (memberRefs b tag)).length = (members.map fun m =>
      match m with
      | .resource .chain _ => 2
      | _ => 1).sum := by
  induction members generalizing k with
  | nil => rfl
  | cons member members ih =>
    obtain ⟨r, hr⟩ := h member mem_cons_self
    have hrest := ih (k + 1) fun m hm => h m (mem_cons_of_mem _ hm)
    rw [zipIdx_cons, flatMap_cons, length_append, hrest, map_cons,
      sum_cons]
    congr 1
    have hid : b.resources (Base.TargetRef.id member) = some r := by
      rw [hr.ref]
      exact hr.resource
    unfold memberRefs
    rw [hid, hr.ref]
    obtain hkind | hkind := hr.kind
    · cases hp : r.payload with
      | node n => simp [hp, Payload.kind]
      | chain | policyGroup | routingProfile | dnsProfile | ruleSet | subscriptionProfile
      | clientPreset =>
        rw [hp] at hkind
        cases hkind
    · cases hp : r.payload with
      | chain n => simp [hp, Payload.kind]
      | node | policyGroup | routingProfile | dnsProfile | ruleSet | subscriptionProfile
      | clientPreset =>
        rw [hp] at hkind
        cases hkind

/-- **The count that was checked.** -/
theorem outboundCount_eq (hb : c.base spec target = .ok b) (hx : b.Expanded c.digest x)
    (hcounted : b.Counted x) (h : c.prepare spec target = .ok (g, diags)) :
    g.independents.length + 2 * g.chains.length = outboundCount x := by
  have hgroup : ∀ entry ∈ b.groups, (groupTags b entry).length = memberCount entry.1 := by
    intro entry hentry
    unfold memberCount
    rw [(mem_groups.mp hentry).2]
    exact length_memberRefs 0 (groups_valid hb hx hentry).2
  have hsum : (b.groups.map fun entry => memberCount entry.1).sum =
      (x.policies.map memberCount).sum := by
    have hperm := ((groups_perm hx).map memberCount).sum_eq
    rwa [map_map, hx.policies] at hperm
  have hlength := (outbounds_perm hb h).length_eq
  rw [length_outboundTags, length_append, length_outboundTags, length_flatMap,
    map_congr_left hgroup, hsum, hcounted.independents.length_eq, hcounted.chains.length_eq,
    length_map, length_map] at hlength
  exact hlength

def graphTags (g : Graph) : List String :=
  outboundTags g.independents g.chains ++ g.policies.map PolicyInstance.tag

theorem graphTags_perm (hb : c.base spec target = .ok b) (hx : b.Expanded c.digest x)
    (h : c.prepare spec target = .ok (g, diags)) :
    (graphTags g).Perm (baseTags b ++ b.groups.flatMap (groupTags b)) := by
  have hpolicies : (g.policies.map PolicyInstance.tag).Perm (b.policies.map b.policyTag) := by
    rw [(prepare_prepared hb h).policies]
    refine ((perm_insertionSort _ _).map _).trans ?_
    rw [map_map]
    have hperm := (groups_perm hx).map b.policyTag
    rwa [map_map] at hperm
  unfold graphTags baseTags
  refine ((outbounds_perm hb h).append hpolicies).trans ?_
  rw [append_assoc, append_assoc]
  exact List.Perm.append_left _ perm_append_comm

theorem baseTags_disjoint (hx : b.Expanded c.digest x) :
    (baseTags b).Disjoint (b.groups.flatMap (groupTags b)) := by
  intro tag hbase hmember
  obtain ⟨entry, hentry, htag⟩ := mem_flatMap.mp hmember
  obtain ⟨stem, index, role, hstem, -, rfl⟩ := mem_groupTags hx hentry htag
  obtain ⟨stem', hstem', heq | heq | heq | ⟨heq, -⟩⟩ := mem_baseTags hx hbase
  · have hlist := congrArg String.toList heq
    simp [toList_memberText] at hlist
  · have hlist := congrArg String.toList heq
    simp [toList_memberText] at hlist
  · have hlist := congrArg String.toList heq
    simp [toList_memberText] at hlist
  · refine not_mem_of_isStem hstem' (show Text.isLowerHex '_' = false by decide) ?_
    have hlist := congrArg (fun s => s.toList.drop 2) heq
    simp only [toList_memberText, String.toList_append] at hlist
    rw [show stem'.toList = ("g_".toList ++ stem'.toList).drop 2 from rfl, ← hlist]
    simp

theorem graphTags_nodup (hb : c.base spec target = .ok b) (hx : b.Expanded c.digest x)
    (hcounted : b.Counted x) (h : c.prepare spec target = .ok (g, diags)) :
    (graphTags g).Nodup := by
  rw [(graphTags_perm hb hx h).nodup_iff]
  exact (baseTags_nodup hx hcounted).append (memberTags_nodup hx hcounted) (baseTags_disjoint hx)

theorem not_reserved (h : tag.toList[1]? = some '_') :
    isReservedTag tag = false := by
  have hwords : ∀ word ∈ ["in", "block", "direct", "reject", "global", "compatible", "pass",
      "dns-out"], word.toList[1]? ≠ some '_' := by decide
  unfold isReservedTag
  rw [← Bool.not_eq_true, contains_iff_mem]
  intro hmem
  refine hwords _ hmem ?_
  rw [toLower, String.toList_ofList, List.getElem?_map, h]
  rfl

theorem graphTags_form (hb : c.base spec target = .ok b) (hx : b.Expanded c.digest x)
    (h : c.prepare spec target = .ok (g, diags)) (htag : tag ∈ graphTags g) :
    tag.toList[1]? = some '_' := by
  obtain hbase | hmember := mem_append.mp ((graphTags_perm hb hx h).subset htag)
  · obtain ⟨stem, -, rfl | rfl | rfl | ⟨rfl, -⟩⟩ := mem_baseTags hx hbase <;> simp
  · obtain ⟨entry, hentry, hmem⟩ := mem_flatMap.mp hmember
    obtain ⟨stem, index, role, -, -, rfl⟩ := mem_groupTags hx hentry hmem
    rw [toList_memberText]
    rfl

/-! ## Selectors -/

theorem isMemberTag_memberTag {members : List TargetRef} {member : TargetRef} {r : Resource}
    (hmember : member ∈ members) (hr : MemberOf b member r) :
    IsMemberTag tag (b.memberTag tag members member) := by
  have hid : b.resources (Base.TargetRef.id member) = some r := by
    rw [hr.ref]
    exact hr.resource
  have hentry : ∃ entry ∈ b.memberTags tag members, entry.1 = Base.TargetRef.id member := by
    obtain ⟨index, hindex⟩ := mem_iff_getElem?.mp hmember
    have hmem := mk_mem_zipIdx_iff_getElem?.mpr hindex
    unfold Base.memberTags
    obtain hkind | hkind := hr.kind
    · refine ⟨(Base.TargetRef.id member, Base.memberPrefix tag index ++ "_n"),
        mem_filterMap.mpr ⟨_, hmem, ?_⟩, rfl⟩
      dsimp only
      rw [hid]
      cases hp : r.payload with
      | node n => simp only [hp]
      | chain | policyGroup | routingProfile | dnsProfile | ruleSet | subscriptionProfile
      | clientPreset =>
        rw [hp] at hkind
        cases hkind
    · refine ⟨(Base.TargetRef.id member, Base.memberPrefix tag index ++ "_h2"),
        mem_filterMap.mpr ⟨_, hmem, ?_⟩, rfl⟩
      dsimp only
      rw [hid]
      cases hp : r.payload with
      | chain n => simp only [hp]
      | node | policyGroup | routingProfile | dnsProfile | ruleSet | subscriptionProfile
      | clientPreset =>
        rw [hp] at hkind
        cases hkind
  obtain ⟨entry, hentry, hkey⟩ := hentry
  obtain ⟨entry', hmem', -, hfind⟩ := Table.exists_find?_reverse Prod.fst hentry hkey
  unfold Base.memberTag Adapter.lookup
  rw [hfind]
  exact mem_memberTags hmem'

theorem mem_policyInstance (hb : c.base spec target = .ok b) (hx : b.Expanded c.digest x)
    (hentry : entry ∈ b.groups) (h : tag ∈ (b.policyInstance entry.1 entry.2).members) :
    ∃ stem index role, IsStem stem ∧ tag = memberText stem index role := by
  obtain ⟨hvalid, hmembers⟩ := groups_valid hb hx hentry
  obtain ⟨stem, hstem, hpolicy⟩ := policyTag_eq hx (mem_groups.mp hentry).1
  have hform : ∀ member ∈ entry.2.members, ∃ stem index role, IsStem stem ∧
      b.memberTag (b.policyTag entry.1) entry.2.members member = memberText stem index role := by
    intro member hmember
    obtain ⟨r, hr⟩ := hmembers member hmember
    have hmemberTag : IsMemberTag (b.policyTag entry.1) _ := isMemberTag_memberTag hmember hr
    obtain ⟨index, htag | htag⟩ := hmemberTag
    · exact ⟨stem, index, .node, hstem, by rw [htag, hpolicy]; rfl⟩
    · exact ⟨stem, index, .hop2, hstem, by rw [htag, hpolicy]; rfl⟩
  have hdefault : entry.2.defaultMember ∈ entry.2.members := by
    unfold PolicyGroup.validate at hvalid
    simp only [Bool.and_eq_true] at hvalid
    exact contains_iff_mem.mp hvalid.2
  obtain rfl | h := mem_cons.mp h
  · exact hform _ hdefault
  · obtain ⟨member, hmember, rfl⟩ := mem_map.mp (mem_of_mem_filter h)
    exact hform member hmember

/-- **Selectors are exact.** -/
theorem member_eq_of_starts (hb : c.base spec target = .ok b) (hx : b.Expanded c.digest x)
    (h : c.prepare spec target = .ok (g, diags)) {p : PolicyInstance} (hp : p ∈ g.policies)
    {member : String} (hmember : member ∈ p.members)
    (htag : tag ∈ outboundTags g.independents g.chains) (hstart : member.toList <+: tag.toList) :
    member = tag := by
  obtain ⟨entry, hentry, rfl⟩ := (prepare_prepared hb h).mem_policies.mp hp
  obtain ⟨stem, index, role, hstem, rfl⟩ := mem_policyInstance hb hx hentry hmember
  obtain hbase | hgroup := mem_append.mp ((outbounds_perm hb h).subset htag)
  · have hkind : ∃ ch, ch ≠ 'g' ∧ tag.toList.head? = some ch := by
      unfold outboundTags at hbase
      obtain hmem | hmem := mem_append.mp hbase
      · obtain ⟨o, ho, rfl⟩ := mem_map.mp hmem
        obtain ⟨r, hr, rfl⟩ := (hx.independents o).mp ho
        obtain ⟨st, -, hn⟩ := independentOf_tag hx.sound hx.labels hr
        exact ⟨'n', by decide, by simp [hn]⟩
      · obtain ⟨ch, hch, hmem⟩ := mem_flatMap.mp hmem
        obtain ⟨r, hr, rfl⟩ := (hx.chains ch).mp hch
        obtain ⟨st, -, hc₁, hc₂⟩ := chainOf_tags hx.sound hx.labels hr
        refine ⟨'c', by decide, ?_⟩
        obtain rfl | hmem := mem_cons.mp hmem
        · simp [hc₁]
        · simp [mem_singleton.mp hmem, hc₂]
    obtain ⟨ch, hne, hhead⟩ := hkind
    obtain ⟨u, hu⟩ := hstart
    rw [← hu, toList_memberText] at hhead
    exact absurd (Option.some.inj hhead).symm hne
  · obtain ⟨entry', hentry', hmem⟩ := mem_flatMap.mp hgroup
    obtain ⟨stem', index', role', hstem', -, rfl⟩ := mem_groupTags hx hentry' hmem
    obtain ⟨rfl, rfl, rfl⟩ := memberText_starts hstem hstem' hstart
    rfl

end

/-! ## The checks of the emitters -/

/-- Such tags pass the check of the emitters. -/
theorem checkTags_of_nodup {key : String} {seen : List String} {refs : List OutboundRef}
    (hrefs : ∀ ref ∈ refs, ref.tag ≠ "" ∧ isReservedTag ref.tag = false ∧ ref.tag ∉ seen)
    (hnodup : (refs.map OutboundRef.tag).Nodup) : checkTags key seen refs = .ok () := by
  induction refs generalizing seen with
  | nil => rfl
  | cons ref refs ih =>
    obtain ⟨hne, hreserved, hseen⟩ := hrefs ref mem_cons_self
    rw [map_cons, nodup_cons] at hnodup
    rw [checkTags, if_neg (by simp [hne, hreserved, hseen])]
    refine ih ?_ hnodup.2
    intro ref' href'
    obtain ⟨hne', hreserved', hseen'⟩ := hrefs ref' (mem_cons_of_mem _ href')
    refine ⟨hne', hreserved', fun hmem => ?_⟩
    obtain heq | hmem := mem_cons.mp hmem
    · exact hnodup.1 (mem_map.mpr ⟨ref', href', heq⟩)
    · exact hseen' hmem

theorem allRefs_tags (input : EmitInput) :
    input.allRefs.map OutboundRef.tag = outboundTags input.independents input.chains := by
  unfold EmitInput.allRefs outboundTags
  rw [map_append, map_map, map_flatMap]
  congr 1
  · show input.independents.zipIdx.map (IndependentOutbound.tag ∘ Prod.fst) = _
    rw [← map_map, zipIdx_map_fst]
  · conv_rhs => rw [← zipIdx_map_fst 0 input.chains]
    rw [flatMap_map]
    rfl

theorem balancer_ne_collision {input : EmitInput} {outbounds : List Xray.Outbound}
    {p : PolicyInstance} {path key : String} {id : ID}
    (h : ∀ member ∈ p.members, ∀ o ∈ outbounds, member.toList <+: o.tag.toList →
      member = o.tag) :
    Xray.balancer input outbounds p ≠ .error [compileIssue .compileLabelCollision path key id] := by
  have hselector : (p.members.any fun tag => outbounds.any fun o =>
      o.tag ≠ tag && tag.toList.isPrefixOf o.tag.toList) = false := by
    rw [any_eq_false]
    intro member hmember
    rw [Bool.not_eq_true, any_eq_false]
    intro o ho hcollides
    simp only [Bool.and_eq_true, decide_eq_true_eq, List.isPrefixOf_iff_prefix] at hcollides
    exact hcollides.1 (h member hmember o ho hcollides.2).symm
  unfold Xray.balancer
  rw [hselector]
  split_ifs with hfixed hother hcollision
  · exact fun heq => nomatch heq
  · simp [compileIssue]
  · exact hcollision.elim
  · exact fun heq => nomatch heq

/-- **Prepared graphs have unique tags and a bounded number of outbounds.** So the emitters never
refuse the tags of a graph, and no selector of an Xray balancer takes more than its members. -/
theorem prepared_tags (c : Compiler) (spec : FrozenInputSpec) (target : Target) (g : Graph)
    (diags : List Diagnostic) (h : c.prepare spec target = .ok (g, diags)) :
    (graphTags g).Nodup ∧ (∀ tag ∈ graphTags g, isReservedTag tag = false) ∧
    (∀ p ∈ g.policies, ∀ member ∈ p.members, ∀ tag ∈ outboundTags g.independents g.chains,
      member.toList <+: tag.toList → member = tag) ∧
    (∃ b x, c.base spec target = .ok b ∧ expand spec b.resources target = .ok x ∧
      g.independents.length + 2 * g.chains.length = outboundCount x ∧
      outboundCount x ≤ maxOutbounds) ∧
    g.emitInput.outboundRefs = .ok g.emitInput.allRefs ∧
    ∀ lib exit refs outbounds, g.emitInput.orderedOutboundRefs = .ok (exit, refs) →
      refs.mapM (Xray.refOutbound lib g.emitInput) = .ok outbounds → ∀ p ∈ g.policies,
      Xray.balancer g.emitInput (Xray.initialDocument exit outbounds).outbounds p ≠
        .error [compileIssue .compileLabelCollision "/payload/members" g.target.key
          p.resourceID] := by
  obtain ⟨b, -, -, -, hb, -⟩ := prepare_eq_ok h
  obtain ⟨x, hexpand, hx, -⟩ := base_expansion hb
  have hcounted := base_counted hb hexpand
  have hnodup := graphTags_nodup hb hx hcounted h
  have hcount := outboundCount_eq hb hx hcounted h
  have hreserved : ∀ tag ∈ graphTags g, isReservedTag tag = false := fun tag htag =>
    not_reserved (graphTags_form hb hx h htag)
  refine ⟨hnodup, hreserved, ?_, ⟨b, x, hb, hexpand, hcount, hcounted.count⟩, ?_, ?_⟩
  · intro p hp member hmember tag htag
    exact member_eq_of_starts hb hx h hp hmember htag
  · unfold EmitInput.outboundRefs
    have hlimit : ¬maxOutbounds < g.emitInput.independents.length +
        2 * g.emitInput.chains.length := by
      show ¬maxOutbounds < g.independents.length + 2 * g.chains.length
      rw [hcount]
      exact not_lt.mpr hcounted.count
    rw [if_neg hlimit, checkTags_of_nodup]
    · rfl
    · intro ref href
      have hmem : ref.tag ∈ graphTags g := by
        refine mem_append_left _ ?_
        rw [← show _ = outboundTags g.independents g.chains from allRefs_tags g.emitInput]
        exact mem_map_of_mem href
      refine ⟨?_, hreserved _ hmem, not_mem_nil⟩
      intro hempty
      have hform := graphTags_form hb hx h hmem
      rw [hempty] at hform
      cases hform
    · rw [allRefs_tags]
      exact (nodup_append.mp hnodup).1
  · intro lib exit refs outbounds hrefs houtbounds p hp
    refine balancer_ne_collision fun member hmember o ho hstart => ?_
    obtain ho | ho := mem_append.mp ho
    · obtain ⟨ref, href, hout⟩ := (mapM_eq_ok_iff.mp houtbounds).exists_left ho
      refine member_eq_of_starts hb hx h hp hmember ?_ hstart
      rw [Xray.refOutbound_tag hout, ← show _ = outboundTags g.independents g.chains from
        allRefs_tags g.emitInput]
      exact mem_map_of_mem ((EmitInput.orderedOutboundRefs_perm hrefs).subset href)
    · -- the tag of the blackhole begins otherwise
      rw [mem_singleton.mp ho] at hstart
      obtain ⟨entry, hentry, rfl⟩ := (prepare_prepared hb h).mem_policies.mp hp
      obtain ⟨stem, index, role, -, rfl⟩ := mem_policyInstance hb hx hentry hmember
      obtain ⟨u, hu⟩ := hstart
      rw [toList_memberText] at hu
      have hhead : some 'g' = blockTag.toList.head? := congrArg List.head? hu
      exact absurd hhead (by decide)

/-- The catalog of the small compiler with chains and groups, under a digest that begins with the
revision and the end of the ID. -/
def linkedCompiler : Compiler :=
  { smallCompiler .xray with
    catalog :=
      { (smallCompiler .xray).catalog with
        builds := (smallCompiler .xray).catalog.builds.map fun build => { build with
          capabilities := ("chain.two_hop.tcp", .verified) :: ("policy.round_robin", .verified) ::
            build.capabilities } }
    digest := fun material => String.ofList
      ((material.toList.reverse.filter Text.isLowerHex ++ List.replicate 64 'a').take 64)
    digest_hex := fun material => by
      rw [String.toList_ofList, all_eq_true]
      intro ch hch
      rcases mem_append.mp (mem_of_mem_take hch) with hch | hch
      · exact (mem_filter.mp hch).2
      · rw [eq_of_mem_replicate hch]
        rfl }

/-- The linked resources beside the DNS profile and the preset of a small snapshot. -/
def linkedInput : FrozenInputSpec :=
  let small := smallSnapshot .xray linkedRouting smallDNS
  { small with resources := small.resources ++ [exitNode, twoHops, eitherWay] }

/-- Besides the node that is labelled, the group has its own instances of the node and the chain. -/
theorem prepared_tags_linked : ∃ graph diags,
    linkedCompiler.prepare linkedInput (smallTarget .xray) = .ok (graph, diags) ∧
      graph.independents.length = 2 ∧ graph.chains.length = 1 ∧
      graph.policies.map (fun p => p.members.length) = [2] ∧ (graphTags graph).Nodup := by
  have hsome : (linkedCompiler.prepare linkedInput (smallTarget .xray)).toOption.map (fun out =>
      (out.1.independents.length, out.1.chains.length,
        out.1.policies.map fun p => p.members.length)) = some (2, 1, [2]) := by
    decide +kernel
  obtain ⟨⟨graph, diags⟩, hprepare, hfacts⟩ := toOption_map_eq_some_iff.mp hsome
  simp only [Prod.mk.injEq] at hfacts
  exact ⟨graph, diags, hprepare, hfacts.1, hfacts.2.1, hfacts.2.2,
    (prepared_tags _ _ _ graph diags hprepare).1⟩

end ProxyLoom.Compiler
