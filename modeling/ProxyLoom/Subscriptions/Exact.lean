import ProxyLoom.Subscriptions.Download

/-!
# Snapshots are exact

What a snapshot holds, in terms of the profile and the catalog: the members that the profile asks
for, what they and the profiles and presets lead to, and one dependency for each resource.
-/

namespace ProxyLoom.Subscriptions

open IR Catalog Depgraph List Except

/-! ## What the profile asks for -/

/-- The members that the profile asks for: by ID or by tag, and not excluded. -/
def Wanted (p : SubscriptionProfile) (heads : List Resource) (stale : ID → Bool) (id : ID) : Prop :=
  (id ∈ p.members.includeIDs ∨ ∃ r ∈ heads, r.id = id ∧
      (r.metadata.kind = .node ∨ r.metadata.kind = .chain ∨ r.metadata.kind = .policyGroup) ∧
      r.metadata.enabled = true ∧ stale id = false ∧
      p.members.selector.matchesTags r.metadata.tags = true) ∧
    id ∉ p.members.excludeIDs

def SubscriptionProfile.presetIDs (p : SubscriptionProfile) : List ID :=
  (p.targets.filter SubscriptionTarget.isEnabled).map SubscriptionTarget.clientPresetID

def snapshotRoots (p : SubscriptionProfile) (input : FrozenInputSpec) : List ID :=
  input.members.map FrozenRef.resourceID ++ [p.routingProfileID, p.dnsProfileID] ++
    SubscriptionProfile.presetIDs p

def Dependency.pin (d : Dependency) : ID × ℕ × ℕ := (d.resourceID, d.revision, d.securityEpoch)

def resourcePin (r : Resource) : ID × ℕ × ℕ := (r.id, r.metadata.revision, r.metadata.securityEpoch)

structure Exact (p : SubscriptionProfile) (heads : List Resource) (stale : ID → Bool)
    (s : Selection) : Prop where
  members : ∀ id, id ∈ s.input.members.map FrozenRef.resourceID ↔ Wanted p heads stale id
  kept : ∀ r ∈ s.input.resources, r.id ∉ p.members.excludeIDs
  fresh : ∀ r ∈ s.input.resources, stale r.id = false
  enabled : ∀ r ∈ s.input.resources, r.metadata.enabled = true
  frozen : ∀ r ∈ s.input.resources, ∃ head, findHead heads r.id = some head ∧ r = sortTags head
  closure : ∀ id, id ∈ s.input.resources.map Resource.id ↔
    Reaches (findHead heads) (snapshotRoots p s.input) id
  once : (s.dependencies.map Dependency.resourceID).Nodup
  pins : (s.dependencies.map Dependency.pin).Perm (s.input.resources.map resourcePin)

/-! ## What a selection has found -/

section

variable {schema : Schema} {cores : Cores} {snapshot : ID} {profile : Resource}
  {p : SubscriptionProfile} {heads : List Resource} {stale : ID → Bool}
  {catalogRevision authEpoch : ℕ} {r : Resource} {spec : FrozenInputSpec}

theorem id_of_findHead {id : ID} (h : findHead heads id = some r) : r.id = id := by
  have hid := List.find?_some h
  exact of_decide_eq_true hid

theorem memberRefs_ids {ids : List ID} {refs : List FrozenRef}
    (h : memberRefs (findHead heads) ids = .ok refs) : refs.map FrozenRef.resourceID = ids := by
  have hrefs := mapM_eq_ok_iff.mp h
  clear h
  induction hrefs with
  | nil => rfl
  | @cons id ref ids refs href _ ih =>
    rw [map_cons, ih]
    split at href
    · cases href
    · next r hr =>
      cases href
      congr 1
      exact id_of_findHead hr

theorem memberRefs_found {ids : List ID} {refs : List FrozenRef}
    (h : memberRefs (findHead heads) ids = .ok refs) {m : FrozenRef} (hm : m ∈ refs) :
    ∃ r, findHead heads m.resourceID = some r ∧ r.ref = m := by
  obtain ⟨id, -, hid⟩ := (mapM_eq_ok_iff.mp h).exists_left hm
  split at hid
  · cases hid
  · next r hr =>
    cases hid
    refine ⟨r, ?_, rfl⟩
    rw [show r.ref.resourceID = id from id_of_findHead hr]
    exact hr

theorem profileRef_ok {id : ID} {kind : ResourceKind} {path : String} {ref : FrozenRef}
    (h : profileRef (findHead heads) id kind path = .ok ref) :
    ref.resourceID = id ∧ ref.kind = kind ∧
      ∃ r, findHead heads ref.resourceID = some r ∧ r.ref = ref := by
  unfold profileRef at h
  split at h
  · cases h
  · next r hr =>
    split_ifs at h with hkind
    · cases h
    · cases h
      have hid : r.ref.resourceID = id := id_of_findHead hr
      refine ⟨hid, not_not.mp hkind, r, ?_, rfl⟩
      rw [hid]
      exact hr

/-- The target's preset is a head, and agrees with the target. -/
def Preset (heads : List Resource) (t : Target) : Prop :=
  ∃ r preset, findHead heads t.clientPresetID = some r ∧ r.payload = .clientPreset preset ∧
    r.metadata.revision = t.clientPresetRevision ∧ preset.coreFamily = t.coreFamily ∧
    preset.format = t.format

theorem checkPreset_format {t : SubscriptionTarget} {preset : ClientPreset}
    (h : checkPreset t preset = .ok ()) : t.format = preset.format := by
  unfold checkPreset at h
  split_ifs at h with hformat
  exact not_not.mp hformat

theorem freezeTarget_ok {path : String} {t : SubscriptionTarget} {target : Target}
    (h : freezeTarget cores (findHead heads) path t = .ok target) :
    target.clientPresetID = t.clientPresetID ∧ Preset heads target := by
  unfold freezeTarget at h
  split at h
  · cases h
  · split at h
    · cases h
    · next r hr =>
      split at h
      · next preset hpreset =>
        split_ifs at h with hfamily
        · cases h
        · obtain ⟨⟨⟩, hcheck, h⟩ := of_bind h
          cases h
          exact ⟨rfl, r, preset, hr, hpreset, rfl, not_not.mp hfamily,
            (checkPreset_format hcheck).symm⟩
      · cases h

theorem freezeTargets_ok {targets : List Target}
    (h : freezeTargets cores (findHead heads) p = .ok targets) :
    targets.map Target.clientPresetID = SubscriptionProfile.presetIDs p ∧
      ∀ t ∈ targets, Preset heads t := by
  have htargets := mapM_eq_ok_iff.mp h
  refine ⟨?_, fun t ht => ?_⟩
  · have hpresets : targets.map Target.clientPresetID =
        ((indexed "/targets" p.targets).filter fun q => q.2.isEnabled).map
          fun q => q.2.clientPresetID := by
      clear h
      generalize (indexed "/targets" p.targets).filter (fun q => q.2.isEnabled) = l at htargets ⊢
      induction htargets with
      | nil => rfl
      | cons htarget _ ih => rw [map_cons, map_cons, ih, (freezeTarget_ok htarget).1]
    rw [hpresets, SubscriptionProfile.presetIDs]
    nth_rewrite 2 [← map_snd_indexed "/targets" p.targets]
    rw [filter_map, map_map]
    rfl
  · obtain ⟨q, -, hq⟩ := htargets.exists_left ht
    exact (freezeTarget_ok hq).2

/-- The roots of a snapshot are those of the profile, and pin heads. -/
structure Rooted (heads : List Resource) (p : SubscriptionProfile) (ids : List ID)
    (roots : Roots) : Prop where
  members : roots.members.map FrozenRef.resourceID = ids
  routing : roots.routing.resourceID = p.routingProfileID ∧ roots.routing.kind = .routingProfile
  dns : roots.dns.resourceID = p.dnsProfileID ∧ roots.dns.kind = .dnsProfile
  presets : roots.targets.map Target.clientPresetID = SubscriptionProfile.presetIDs p
  pins : ∀ ref, ref ∈ roots.members ∨ ref = roots.routing ∨ ref = roots.dns →
    ∃ r, findHead heads ref.resourceID = some r ∧ r.ref = ref
  targets : ∀ t ∈ roots.targets, Preset heads t

theorem freezeRoots_ok {ids : List ID} {roots : Roots}
    (h : freezeRoots cores (findHead heads) profile.id p ids = .ok roots) :
    Rooted heads p ids roots := by
  unfold freezeRoots at h
  obtain ⟨refs, hrefs, h⟩ := of_bind h
  obtain ⟨routing, hrouting, h⟩ := of_bind h
  obtain ⟨dns, hdns, h⟩ := of_bind h
  obtain ⟨targets, htargets, h⟩ := of_bind h
  obtain ⟨hroutingID, hroutingKind, hroutingHead⟩ := profileRef_ok hrouting
  obtain ⟨hdnsID, hdnsKind, hdnsHead⟩ := profileRef_ok hdns
  obtain ⟨hpresets, htargets⟩ := freezeTargets_ok htargets
  split_ifs at h
  · cases h
  · cases h
    refine ⟨memberRefs_ids hrefs, ⟨hroutingID, hroutingKind⟩, ⟨hdnsID, hdnsKind⟩, hpresets, ?_,
      htargets⟩
    rintro ref (hm | rfl | rfl)
    · exact memberRefs_found hrefs hm
    · exact hroutingHead
    · exact hdnsHead

structure Specified (schema : Schema) (heads : List Resource) (stale : ID → Bool)
    (profile : Resource) (p : SubscriptionProfile) (spec : FrozenInputSpec) (roots : Roots)
    (expanded : Expansion) : Prop where
  rooted : Rooted heads p ((selectedIDs p heads stale).insertionSort (· ≤ ·)) roots
  scope : spec.scopeID = profile.metadata.scopeID
  members : spec.members = roots.members
  routing : spec.routingProfile = some roots.routing
  dns : spec.dnsProfile = some roots.dns
  targets : spec.targets.Perm roots.targets
  resources : spec.resources = expanded.resources.insertionSort fun a b => a.id ≤ b.id
  closure : Closure schema (findHead heads) ⟨profile.metadata.scopeID, p.members.excludeIDs, 0⟩
    (snapshotRoots p spec) expanded

/-- What a selection that succeeds has found. -/
theorem selectSpec_ok
    (h : selectSpec schema cores snapshot profile p heads stale catalogRevision authEpoch =
      .ok spec) :
    ∃ roots expanded, Specified schema heads stale profile p spec roots expanded := by
  unfold selectSpec at h
  dsimp only at h
  split_ifs at h with hempty
  · cases h
  · obtain ⟨roots, hroots, h⟩ := of_bind h
    split_ifs at h with hdiagnostics
    have hrooted := freezeRoots_ok hroots
    have hclosure := expand_closure (not_not.mp hdiagnostics)
    have hids : roots.ids = roots.members.map FrozenRef.resourceID ++
        [p.routingProfileID, p.dnsProfileID] ++ SubscriptionProfile.presetIDs p := by
      unfold Roots.ids
      rw [hrooted.routing.1, hrooted.dns.1, hrooted.presets]
    rw [hids] at hclosure h
    cases h
    exact ⟨roots, _, hrooted, rfl, rfl, rfl, rfl, perm_insertionSort _ _, rfl, hclosure⟩

theorem mem_selectedIDs {id : ID} : id ∈ selectedIDs p heads stale ↔ Wanted p heads stale id := by
  unfold selectedIDs Wanted
  simp only [mem_dedup, mem_append, mem_filter, mem_map, selectable,
    Bool.and_eq_true, Bool.or_eq_true, Bool.not_eq_true', decide_eq_true_eq,
    contains_eq_mem, decide_eq_false_iff_not]
  constructor
  · rintro (⟨hinclude, hexclude⟩ | ⟨r, ⟨hr, ⟨⟨⟨hkind, henabled⟩, hstale⟩, hexclude⟩, htags⟩, rfl⟩)
    · exact ⟨.inl hinclude, hexclude⟩
    · exact ⟨.inr ⟨r, hr, rfl, or_assoc.mp hkind, henabled, hstale, htags⟩, hexclude⟩
  · rintro ⟨hinclude | ⟨r, hr, rfl, hkind, henabled, hstale, htags⟩, hexclude⟩
    · exact .inl ⟨hinclude, hexclude⟩
    · exact .inr ⟨r, ⟨hr, ⟨⟨⟨or_assoc.mpr hkind, henabled⟩, hstale⟩, hexclude⟩, htags⟩, rfl⟩

theorem Specified.found {roots : Roots} {expanded : Expansion}
    (h : Specified schema heads stale profile p spec roots expanded) (hr : r ∈ spec.resources) :
    r.id ∈ expanded.order ∧ findHead heads r.id = some r := by
  rw [h.resources] at hr
  have hmem := (perm_insertionSort _ _).mem_iff.mp hr
  have hsome : some r ∈ expanded.order.map (findHead heads) := by
    rw [← h.closure.walked.resources]
    exact mem_map_of_mem hmem
  obtain ⟨id, hid, hfind⟩ := mem_map.mp hsome
  rw [id_of_findHead hfind]
  exact ⟨hid, hfind⟩

theorem Specified.ids {roots : Roots} {expanded : Expansion}
    (h : Specified schema heads stale profile p spec roots expanded) :
    (spec.resources.map Resource.id).Perm expanded.order := by
  have hids : expanded.resources.map Resource.id = expanded.order := by
    have hresources := h.closure.walked.resources
    generalize expanded.resources = resources at hresources
    generalize expanded.order = order at hresources
    induction order generalizing resources with
    | nil =>
      cases resources with
      | nil => rfl
      | cons r resources => cases hresources
    | cons id order ih =>
      cases resources with
      | nil => cases hresources
      | cons r resources =>
        rw [map_cons, map_cons, List.cons.injEq] at hresources
        rw [map_cons, ih resources hresources.2, id_of_findHead hresources.1.symm]
  rw [h.resources]
  exact ((perm_insertionSort _ _).map _).trans (.of_eq hids)

/-! ## Exactness -/

theorem Selection.of_ok {selected : List ID} {refs : List (ID × List Reference)} {s : Selection}
    (h : Selection.of schema spec selected refs = some s) :
    s.input = spec.normalize ∧ s.dependencies = spec.resources.map (dependency selected refs) := by
  unfold Selection.of at h
  split at h
  · cases h
  · next frozen hfrozen =>
    cases h
    exact ⟨(newFrozenInput_ok hfrozen).2, rfl⟩

theorem freezeClosure_fresh {selected : List ID} {s : Selection}
    (h : freezeClosure schema stale selected spec = .ok s) (hr : r ∈ spec.resources) :
    stale r.id = false := by
  unfold freezeClosure at h
  obtain ⟨refs, -, h⟩ := of_bind h
  split at h
  · cases h
  · next hnone => exact eq_false_of_ne_true (List.find?_eq_none.mp hnone r hr)

theorem normalize_perm {γ : Type} {f : Resource → γ} (hf : ∀ r, f (sortTags r) = f r)
    (spec : FrozenInputSpec) : (spec.normalize.resources.map f).Perm (spec.resources.map f) := by
  have hmap : spec.normalize.resources.map f =
      (spec.resources.insertionSort fun a b => a.id ≤ b.id).map f := by
    change List.map f (List.map sortTags _) = _
    rw [map_map]
    exact map_congr_left fun r _ => hf r
  rw [hmap]
  exact (perm_insertionSort _ _).map f

/-- **A snapshot is exact.** -/
theorem selection_exact {s : Selection}
    (h : select schema cores snapshot profile heads stale catalogRevision authEpoch = .ok s) :
    ∃ p, profile.payload = .subscriptionProfile p ∧ Exact p heads stale s := by
  unfold select at h
  split at h
  · next p hp =>
    split_ifs at h
    · cases h
    · obtain ⟨spec, hspec, h⟩ := of_bind h
      obtain ⟨refs, hof⟩ := freezeClosure_ok h
      obtain ⟨hinput, hdependencies⟩ := Selection.of_ok hof
      obtain ⟨roots, expanded, hspecified⟩ := selectSpec_ok hspec
      have hwalked := hspecified.closure.walked
      have hfound : ∀ r ∈ s.input.resources, ∃ r₀ ∈ spec.resources, r = sortTags r₀ ∧
          r₀.id ∈ expanded.order ∧ findHead heads r₀.id = some r₀ := by
        intro r hr
        rw [hinput] at hr
        obtain ⟨r₀, hr₀, heq⟩ := mem_normalize_resources hr
        exact ⟨r₀, hr₀, heq, hspecified.found hr₀⟩
      have hmembers : (s.input.members.map FrozenRef.resourceID).Perm
          ((selectedIDs p heads stale).insertionSort (· ≤ ·)) := by
        rw [hinput, ← hspecified.rooted.members, ← hspecified.members]
        exact (perm_insertionSort _ _).map _
      have hroots : (snapshotRoots p spec).Perm (snapshotRoots p s.input) := by
        unfold snapshotRoots
        rw [hinput]
        exact (((perm_insertionSort _ _).map _).symm.append_right _).append_right _
      have hids : (s.input.resources.map Resource.id).Perm expanded.order := by
        rw [hinput]
        exact (normalize_perm (fun _ => rfl) spec).trans hspecified.ids
      refine ⟨p, hp, ⟨fun id => ?_, fun r hr => ?_, fun r hr => ?_, fun r hr => ?_, fun r hr => ?_,
        fun id => ?_, ?_, ?_⟩⟩
      · rw [hmembers.mem_iff, (perm_insertionSort _ _).mem_iff, mem_selectedIDs]
      · obtain ⟨r₀, -, rfl, hid, -⟩ := hfound r hr
        exact hwalked.kept _ hid
      · obtain ⟨r₀, hr₀, rfl, -⟩ := hfound r hr
        have hfresh := freezeClosure_fresh h hr₀
        exact hfresh
      · obtain ⟨r₀, -, rfl, hid, hfind⟩ := hfound r hr
        obtain ⟨scope, -, hadm⟩ := hwalked.admissible _ hid _ hfind
        exact hadm.enabled
      · obtain ⟨r₀, -, rfl, -, hfind⟩ := hfound r hr
        exact ⟨r₀, hfind, rfl⟩
      · rw [hids.mem_iff, hspecified.closure.reaches]
        exact ⟨.mono hroots.subset, .mono hroots.symm.subset⟩
      · rw [hdependencies, map_map]
        exact hspecified.ids.nodup_iff.mpr hwalked.nodup
      · rw [hdependencies, map_map, hinput]
        exact (normalize_perm (f := resourcePin) (fun _ => rfl) spec).symm
  · cases h

end

/-! ## One selection

A chain is selected by its tag and brings its nodes; a disabled chain with the tag is not selected,
and the node that only it refers to stays out. -/

def taggedResource (id : ID) (enabled : Bool) (payload : Payload) : Resource :=
  { sampleResource id payload with
    metadata := { (sampleResource id payload).metadata with tags := ["eu"], enabled := enabled } }

def taggedProfile : SubscriptionProfile :=
  { sampleProfile with members := ⟨[], [], ⟨["eu"], [], []⟩⟩ }

def taggedHeads : List Resource :=
  [taggedResource (sampleID '7') true (.chain ⟨1, [sampleID '1', sampleID '9']⟩),
    taggedResource (sampleID '8') false (.chain ⟨1, [sampleID 'b', sampleID '9']⟩),
    sampleResource (sampleID '9') (.node sampleNode),
    sampleResource (sampleID 'b') (.node sampleNode)] ++ sampleRows.map Row.resource

def taggedSelection : Except SelectError Selection :=
  select hostnameSchema ⟨"1", [sampleBuild]⟩ (sampleID '0')
    (sampleResource (sampleID '5') (.subscriptionProfile taggedProfile)) taggedHeads
    (fun _ => false) 1 1

theorem taggedSelection_resources :
    taggedSelection.toOption.map (fun s => (s.input.members.map FrozenRef.resourceID,
      s.input.resources.map Resource.id)) =
      some ([sampleID '7'], [sampleID '1', sampleID '2', sampleID '3', sampleID '4', sampleID '7',
        sampleID '9']) := by
  decide +kernel

/-- The chain is the only member, and it is frozen with what it leads to. -/
theorem selection_exact_tagged :
    ∃ s, taggedSelection = .ok s ∧ s.input.members.map FrozenRef.resourceID = [sampleID '7'] ∧
      Exact taggedProfile taggedHeads (fun _ => false) s := by
  obtain ⟨s, hs, heq⟩ := toOption_map_eq_some_iff.mp taggedSelection_resources
  obtain ⟨p, hp, hexact⟩ := selection_exact hs
  cases hp
  exact ⟨s, hs, (Prod.mk.inj heq).1, hexact⟩

end ProxyLoom.Subscriptions
