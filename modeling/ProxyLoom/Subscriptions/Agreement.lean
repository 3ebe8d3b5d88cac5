import ProxyLoom.IR.Closure
import ProxyLoom.Subscriptions.Exact

/-!
# Two traversals of one graph

The expansion of the catalog and the check of a snapshot list the references of a payload each in
their own words, and walk along them each in their own way. A snapshot that the expansion accepts is
not refused by the check for its graph.
-/

namespace ProxyLoom.Subscriptions

open IR Catalog Depgraph List

variable {schema : Schema} {r : Resource}

/-! ## References -/

def Reference.edge (ref : Reference) : ID × ResourceKind := (ref.targetID, ref.expectedKind)

theorem map_edge_reference (path : String) (t : TargetRef) :
    (TargetRef.reference path t).map Reference.edge = t.edge := by
  cases t <;> rfl

theorem map_edge_indexed {α : Type} {f : String → α → List Reference}
    {g : α → List (ID × ResourceKind)} (hf : ∀ path a, (f path a).map Reference.edge = g a)
    (base : String) (l : List α) :
    ((indexed base l).flatMap fun q => f q.1 q.2).map Reference.edge = l.flatMap g := by
  nth_rewrite 2 [← map_snd_indexed base l]
  rw [map_flatMap, flatMap_map]
  exact congrArg₂ _ (funext fun q => hf q.1 q.2) rfl

theorem map_edge_ruleSets (path : String) (ids : List ID) :
    (ruleSetReferences path ids).map Reference.edge = ids.map fun id => (id, .ruleSet) := by
  nth_rewrite 2 [← map_snd_indexed (path ++ "/match/rule_set_ids") ids]
  unfold ruleSetReferences
  rw [map_map, map_map]
  rfl

/-- **The two lists of references.** The default member of a valid policy group is one of its
members; a subscription profile is never part of a snapshot. -/
theorem mem_edges_iff {payload : Payload} (hvalid : payload.validate schema = true)
    (hkind : payload.kind ≠ .subscriptionProfile) {edge : ID × ResourceKind} :
    edge ∈ payload.edges ↔ edge ∈ (payloadReferences payload).map Reference.edge := by
  cases payload with
  | node n => exact Iff.rfl
  | ruleSet s => exact Iff.rfl
  | clientPreset p => exact Iff.rfl
  | subscriptionProfile p => exact absurd rfl hkind
  | chain c =>
    have hlist : (payloadReferences (.chain c)).map Reference.edge = (Payload.chain c).edges := by
      change List.map _ (List.map _ (indexed _ _)) = List.map _ c.hops
      nth_rewrite 2 [← map_snd_indexed "/payload/hops" c.hops]
      rw [map_map, map_map]
      rfl
    rw [hlist]
  | policyGroup g =>
    have hdefault : g.defaultMember ∈ g.members := by
      change g.validate schema = true at hvalid
      unfold PolicyGroup.validate at hvalid
      rw [Bool.and_eq_true] at hvalid
      exact contains_iff_mem.mp hvalid.2
    change _ ↔ edge ∈ List.map _ (_ ++ _)
    rw [map_append, mem_append, map_edge_reference,
      map_edge_indexed fun path m => map_edge_reference (path ++ "/resource_id") m]
    constructor
    · exact .inl
    · rintro (h | h)
      · exact h
      · exact mem_flatMap.mpr ⟨_, hdefault, h⟩
  | routingProfile p =>
    change _ ↔ edge ∈ List.map _ (_ ++ _)
    rw [map_append, mem_append, map_edge_reference,
      map_edge_indexed (f := fun path (rule : RoutingRule) =>
        TargetRef.reference (path ++ "/action/resource_id") rule.action ++
          ruleSetReferences path rule.routeMatch.ruleSetIDs)
        (g := fun rule => rule.action.edge ++ rule.routeMatch.ruleSetIDs.map fun id =>
          (id, .ruleSet))
        fun path rule => by rw [map_append, map_edge_reference, map_edge_ruleSets]]
    change edge ∈ _ ++ _ ↔ _
    rw [mem_append, or_comm]
  | dnsProfile p =>
    change _ ↔ edge ∈ List.map _ (_ ++ _)
    rw [map_append, mem_append,
      map_edge_indexed (f := fun path (resolver : DNSResolver) =>
        resolver.outbound.toList.flatMap (TargetRef.reference (path ++ "/outbound/resource_id")))
        (g := fun resolver => resolver.outbound.toList.flatMap TargetRef.edge)
        fun path resolver => by
          rw [map_flatMap]
          exact congrArg₂ _ (funext fun t => map_edge_reference _ t) rfl,
      map_edge_indexed fun path (rule : DNSRule) =>
        map_edge_ruleSets path rule.domainMatch.ruleSetIDs]
    exact mem_append

theorem edge_kind {payload : Payload} (hvalid : payload.validate schema = true)
    {edge : ID × ResourceKind} (h : edge ∈ payload.edges) : edge.2 ≠ .subscriptionProfile := by
  have htarget : ∀ t : TargetRef, t.validate = true → edge ∈ t.edge →
      edge.2 ≠ .subscriptionProfile := by
    intro t ht hedge
    cases t with
    | builtin b => cases hedge
    | resource kind id =>
      rw [mem_singleton.mp hedge]
      rintro rfl
      cases ht
  have hruleSets : ∀ ids : List ID, edge ∈ ids.map (fun id => (id, ResourceKind.ruleSet)) →
      edge.2 ≠ .subscriptionProfile := by
    intro ids hedge
    obtain ⟨id, -, rfl⟩ := mem_map.mp hedge
    exact nofun
  cases payload with
  | node n => cases h
  | ruleSet s => cases h
  | clientPreset p => cases h
  | subscriptionProfile p => cases h
  | chain c =>
    obtain ⟨id, -, rfl⟩ := mem_map.mp h
    exact nofun
  | policyGroup g =>
    obtain ⟨m, hm, hedge⟩ := mem_flatMap.mp h
    refine htarget m ?_ hedge
    change g.validate schema = true at hvalid
    simp only [PolicyGroup.validate, Bool.and_eq_true, all_eq_true] at hvalid
    have hmember := hvalid.1.1.1.1.2 m hm
    cases m with
    | builtin b => rfl
    | resource kind id =>
      simp only [TargetRef.validMember, Bool.and_eq_true, Bool.or_eq_true] at hmember
      simp only [TargetRef.validate, Bool.and_eq_true, Bool.or_eq_true]
      exact ⟨.inl hmember.1, hmember.2⟩
  | routingProfile p =>
    change p.validate schema = true at hvalid
    simp only [RoutingProfile.validate, Bool.and_eq_true, all_eq_true] at hvalid
    rcases mem_append.mp h with hfinal | hrules
    · exact htarget p.final hvalid.2 hfinal
    · obtain ⟨rule, hrule, hedge⟩ := mem_flatMap.mp hrules
      have hok := hvalid.1.2 rule hrule
      simp only [RoutingRule.validate, Bool.and_eq_true] at hok
      rcases mem_append.mp hedge with hedge | hedge
      · exact htarget rule.action hok.1.2 hedge
      · exact hruleSets _ hedge
  | dnsProfile p =>
    change p.validate schema = true at hvalid
    simp only [DNSProfile.validate, Bool.and_eq_true, all_eq_true] at hvalid
    rcases mem_append.mp h with hresolvers | hrules
    · obtain ⟨resolver, hresolver, hedge⟩ := mem_flatMap.mp hresolvers
      obtain ⟨t, ht, hedge⟩ := mem_flatMap.mp hedge
      have hok := hvalid.1.1.1.1.1.2 resolver hresolver
      simp only [DNSResolver.validate, Bool.and_eq_true] at hok
      refine htarget t ?_ hedge
      have hall := hok.1.2
      rw [Option.mem_toList.mp ht] at hall
      exact hall
    · obtain ⟨rule, -, hedge⟩ := mem_flatMap.mp hrules
      exact hruleSets _ hedge

/-! ## What the expansion emits -/

section

variable {heads : List Resource} {stale : ID → Bool} {profile : Resource}
  {p : SubscriptionProfile} {spec : FrozenInputSpec} {roots : Roots} {expanded : Expansion}

variable (h : Specified schema heads stale profile p spec roots expanded) {id : ID}
include h

theorem Specified.unique :
    (spec.resources.map Resource.id).Nodup :=
  h.ids.nodup_iff.mpr h.closure.walked.nodup

theorem Specified.valid (hr : r ∈ spec.resources) : r.validate schema = true := by
  obtain ⟨hid, hfind⟩ := h.found hr
  obtain ⟨scope, -, hadm⟩ := h.closure.walked.admissible _ hid _ hfind
  exact hadm.valid

theorem Specified.mem_of_emitted (hid : id ∈ expanded.order)
    (hr : findHead heads id = some r) :
    r ∈ spec.resources := by
  obtain ⟨r', hr', rfl⟩ := mem_map.mp (h.ids.mem_iff.mpr hid)
  have hfind := (h.found hr').2
  rw [hr] at hfind
  rw [Option.some.inj hfind]
  exact hr'

theorem Specified.mem_of_root (hid : id ∈ snapshotRoots p spec)
    (hr : findHead heads id = some r) :
    r ∈ spec.resources :=
  h.mem_of_emitted ((h.closure.reaches id).mpr (.root hid)) hr

theorem Specified.payload (hr : r ∈ spec.resources) : r.payload.validate schema = true := by
  have hvalid := h.valid hr
  simp only [Resource.validate, Bool.and_eq_true] at hvalid
  exact hvalid.1.2

theorem Specified.resolved (hr : r ∈ spec.resources) {edge : ID × ResourceKind}
    (hedge : edge ∈ r.payload.edges) :
    spec.Resolved edge := by
  have hkind : r.payload.kind ≠ .subscriptionProfile := by
    intro hkind
    cases hpayload : r.payload with
    | subscriptionProfile q =>
      rw [hpayload] at hedge
      cases hedge
    | _ =>
      rw [hpayload] at hkind
      cases hkind
  obtain ⟨ref, href, rfl⟩ := mem_map.mp ((mem_edges_iff (h.payload hr) hkind).mp hedge)
  obtain ⟨hid, hfind⟩ := h.found hr
  obtain ⟨htarget, hkinds⟩ := h.closure.walked.closed _ hid _ hfind ref href
  obtain ⟨target, hmem, htid⟩ := mem_map.mp (h.ids.mem_iff.mpr htarget)
  refine ⟨target, hmem, htid, hkinds target ?_⟩
  rw [← htid]
  exact (h.found hmem).2

theorem Specified.pins {ref : FrozenRef}
    (href : ref ∈ spec.members ∨ ref ∈ spec.routingProfile ∨ ref ∈ spec.dnsProfile) :
    ∃ r ∈ spec.resources, r.ref = ref := by
  have hroot : (ref ∈ roots.members ∨ ref = roots.routing ∨ ref = roots.dns) ∧
      ref.resourceID ∈ snapshotRoots p spec := by
    unfold snapshotRoots
    rw [h.routing, h.dns, h.members] at href
    rw [h.members]
    rcases href with hm | hrouting | hdns
    · exact ⟨.inl hm, mem_append_left _ (mem_append_left _ (mem_map_of_mem hm))⟩
    · cases hrouting
      rw [h.rooted.routing.1]
      exact ⟨.inr (.inl rfl), by simp⟩
    · cases hdns
      rw [h.rooted.dns.1]
      exact ⟨.inr (.inr rfl), by simp⟩
  obtain ⟨r, hfind, hr⟩ := h.rooted.pins ref hroot.1
  exact ⟨r, h.mem_of_root hroot.2 hfind, hr⟩

theorem Specified.presets {t : Target} (ht : t ∈ spec.targets) (hr : r ∈ spec.resources)
    (hid : r.id = t.clientPresetID) :
    ∃ preset, r.payload = .clientPreset preset ∧ r.metadata.revision = t.clientPresetRevision ∧
      preset.coreFamily = t.coreFamily ∧ preset.format = t.format := by
  obtain ⟨r', preset, hfind, hpreset, hrest⟩ := h.rooted.targets t (h.targets.mem_iff.mp ht)
  have hfound := (h.found hr).2
  rw [hid, hfind] at hfound
  cases hfound
  exact ⟨preset, hpreset, hrest⟩

/-- **Linked.** The roots and the references of the snapshot resolve. -/
theorem Specified.linked :
    spec.Linked where
  unique := h.unique
  profiles _ href := h.pins (.inr href)
  presets := preset_kind (fun _ => h.valid) fun _ ht _ => h.presets ht
  members _ hm := h.pins (.inl hm)
  references _ hr _ := h.resolved hr

theorem Specified.preset_of_root (hid : id ∈ SubscriptionProfile.presetIDs p) :
    ∃ t ∈ spec.targets, t.clientPresetID = id ∧ Preset heads t := by
  rw [← h.rooted.presets] at hid
  obtain ⟨t, ht, rfl⟩ := mem_map.mp hid
  exact ⟨t, h.targets.mem_iff.mpr ht, rfl, h.rooted.targets t ht⟩

/-- **Reached.** What the expansion emits is reached by the references of the snapshot, if its
members are of the kinds that members may have. -/
theorem Specified.reachable (hkinds : ∀ m ∈ spec.members, m.memberKind = true)
    (hid : Reaches (findHead heads) (snapshotRoots p spec) id) :
    spec.Reachable id ∧
      ∀ r, findHead heads id = some r → r.payload.kind ≠ .subscriptionProfile := by
  induction hid with
  | @root id hroot =>
    have hresource : ∀ {ref : FrozenRef},
        (ref ∈ spec.members ∨ ref ∈ spec.routingProfile ∨ ref ∈ spec.dnsProfile) →
        ref.kind ≠ .subscriptionProfile → ∀ r, findHead heads ref.resourceID = some r →
        r.payload.kind ≠ .subscriptionProfile := by
      intro ref href hkind r hr hpayload
      obtain ⟨r', hr', rfl⟩ := h.pins href
      have hfind := (h.found hr').2
      rw [show r'.id = r'.ref.resourceID from rfl, hr] at hfind
      cases hfind
      rw [← kind_of_validate (h.valid hr')] at hpayload
      exact hkind hpayload
    rcases mem_append.mp hroot with hroot | hpreset
    · rcases mem_append.mp hroot with hmember | hprofile
      · obtain ⟨m, hm, rfl⟩ := mem_map.mp hmember
        refine ⟨.member hm, hresource (.inl hm) fun hkind => ?_⟩
        have hmemberKind := hkinds m hm
        unfold FrozenRef.memberKind at hmemberKind
        rw [hkind] at hmemberKind
        cases hmemberKind
      · rcases mem_cons.mp hprofile with rfl | hdns
        · have href : roots.routing ∈ spec.routingProfile := h.routing
          rw [← h.rooted.routing.1]
          refine ⟨.profile (.inl href), hresource (.inr (.inl href)) ?_⟩
          rw [h.rooted.routing.2]
          exact nofun
        · have href : roots.dns ∈ spec.dnsProfile := h.dns
          rw [mem_singleton.mp hdns, ← h.rooted.dns.1]
          refine ⟨.profile (.inr href), hresource (.inr (.inr href)) ?_⟩
          rw [h.rooted.dns.2]
          exact nofun
    · obtain ⟨t, ht, rfl, r, preset, hfind, hpayload, -⟩ := h.preset_of_root hpreset
      have hr := h.mem_of_root hroot hfind
      refine ⟨.preset ht hr (id_of_findHead hfind), fun r' hr' => ?_⟩
      rw [hfind] at hr'
      cases hr'
      rw [hpayload]
      exact nofun
  | @ref id r ref hreaches hr href ih =>
    obtain ⟨hreachable, hkind⟩ := ih
    have hid := (h.closure.reaches id).mpr hreaches
    have hmem := h.mem_of_emitted hid hr
    have hedge : Reference.edge ref ∈ r.payload.edges :=
      (mem_edges_iff (h.payload hmem) (hkind r hr)).mpr (mem_map_of_mem href)
    refine ⟨?_, fun target htarget hsubscription => ?_⟩
    · rw [← id_of_findHead hr] at hreachable
      exact hreachable.ref hmem hedge
    · obtain ⟨hemitted, hkinds'⟩ := h.closure.walked.closed _ hid _ hr ref href
      have htargetKind := hkinds' target htarget
      rw [kind_of_validate (h.valid (h.mem_of_emitted hemitted htarget)), hsubscription]
        at htargetKind
      exact edge_kind (h.payload hmem) hedge htargetKind.symm

end

/-! ## The codes of the graph -/

/-- The codes that a snapshot is refused with for its graph. -/
def graphCode : DiagnosticCode → Bool
  | .referenceMissing | .referenceKind | .scopeMismatch | .resourceDisabled | .duplicateResource
  | .unreachableResource | .inputLimitExceeded => true
  | _ => false

/-- The contract's own reports: the schema has other codes, and a target is refused with a code of
the graph for its overrides only. -/
structure Structural (reports : Reports) : Prop where
  frozenInput : ∀ spec, ∀ d ∈ reports.frozenInput spec, graphCode d.code = false
  target : ∀ t, ∀ d ∈ reports.target t, graphCode d.code = true →
    ∃ rest, d.fieldPath = "/policy_overrides/" ++ rest

/-- A diagnostic about a policy override, or about a network in a rule set of a DNS rule. -/
inductive Excepted (spec : FrozenInputSpec) (d : Diagnostic) : Prop where
  | override (i : ℕ) (rest : String) :
    d.fieldPath = "/targets/" ++ toString i ++ "/policy_overrides/" ++ rest → Excepted spec d
  | network {r target : Resource} {p : DNSProfile} {rule : DNSRule} {s : RuleSet}
      {network : String} : r ∈ spec.resources → r.payload = .dnsProfile p → rule ∈ p.rules →
    target.id ∈ rule.domainMatch.ruleSetIDs → target ∈ spec.resources →
    target.payload = .ruleSet s → .cidr network ∈ s.entries → d.resourceID = r.id →
    d.code = .referenceKind → Excepted spec d

section

variable {spec : FrozenInputSpec} {reports : Reports} {d : Diagnostic}

theorem mem_ite_singleton {δ : Type} {c : Prop} [Decidable c] {a b : δ}
    (h : a ∈ if c then [b] else []) : a = b := by
  split_ifs at h
  · exact mem_singleton.mp h
  · cases h

theorem graphCode_targetIssues (h : d ∈ spec.targetIssues) : graphCode d.code = false := by
  obtain ⟨before, t, after, -, h⟩ := Loop.mem_reports h
  dsimp only at h
  rcases mem_append.mp h with h | h
  · rw [mem_ite_singleton h]
    rfl
  · split at h
    · cases h
    · rcases mem_append.mp h with h | h
      · rw [mem_ite_singleton h]
        rfl
      · rw [mem_ite_singleton h]
        rfl

theorem excepted_overrideIssues (h : d ∈ spec.overrideIssues schema reports) :
    Excepted spec d := by
  obtain ⟨before, t, after, -, h⟩ := Loop.mem_reports h
  obtain ⟨⟨o, j⟩, -, h⟩ := mem_flatMap.mp h
  have hpath : ∀ rest, d.fieldPath = "/targets/" ++ toString before.length ++
      "/policy_overrides/" ++ toString j ++ rest → Excepted spec d := fun rest hrest =>
    .override before.length (toString j ++ rest) (by rw [hrest, String.append_assoc])
  dsimp only at h
  split at h
  · rw [mem_singleton.mp h] at hpath ⊢
    exact hpath _ rfl
  · split_ifs at h
    · rw [mem_singleton.mp h] at hpath ⊢
      exact hpath _ rfl
    · obtain ⟨x, -, rfl⟩ := mem_map.mp h
      exact hpath _ rfl
    · rw [mem_singleton.mp h] at hpath ⊢
      exact hpath _ rfl

theorem checkDomains_network {path : String} {id : ID} (h : d ∈ spec.checkDomains path r id) :
    d.code = .referenceKind ∧ d.resourceID = r.id ∧ ∃ target ∈ spec.resources, target.id = id ∧
      ∃ s network, target.payload = .ruleSet s ∧ .cidr network ∈ s.entries := by
  unfold FrozenInputSpec.checkDomains at h
  split at h
  · next s hs =>
    obtain ⟨target, htarget, hpayload⟩ := Option.map_eq_some_iff.mp hs
    have hmem := mem_reverse.mp (mem_of_find?_eq_some htarget)
    have hid := List.find?_some htarget
    split_ifs at h with hany
    · rw [mem_singleton.mp h]
      refine ⟨rfl, rfl, target, hmem, of_decide_eq_true hid, s, ?_⟩
      obtain ⟨entry, hentry, hcidr⟩ := any_eq_true.mp hany
      cases entry with
      | domain name kind => cases hcidr
      | cidr network => exact ⟨network, hpayload, hentry⟩
    · cases h
  · cases h

theorem excepted_payloadIssues (hunique : (spec.resources.map Resource.id).Nodup)
    (hdns : spec.dnsProfile ≠ none) {path : String} (hr : r ∈ spec.resources)
    (hresolved : ∀ edge ∈ r.payload.edges, spec.Resolved edge) (h : d ∈ spec.payloadIssues path r) :
    Excepted spec d := by
  cases hpayload : r.payload with
  | dnsProfile p =>
    unfold FrozenInputSpec.payloadIssues at h
    rw [hpayload] at h hresolved
    dsimp only at h
    rcases mem_append.mp h with h | h
    · obtain ⟨⟨resolver, j⟩, hresolver, h⟩ := mem_flatMap.mp h
      obtain ⟨t, ht, h⟩ := mem_flatMap.mp h
      have hmem : resolver ∈ p.resolvers := fst_mem_of_mem_zipIdx hresolver
      have hedges : ∀ edge ∈ t.edge, spec.Resolved edge := fun edge hedge =>
        hresolved edge (mem_append_left _ (mem_flatMap.mpr
          ⟨resolver, hmem, mem_flatMap.mpr ⟨t, ht, hedge⟩⟩))
      rw [(checkTarget_eq_nil_iff hunique).mpr hedges] at h
      cases h
    · obtain ⟨⟨rule, j⟩, hrule, h⟩ := mem_flatMap.mp h
      obtain ⟨⟨id, k⟩, hid, h⟩ := mem_flatMap.mp h
      have hmem : rule ∈ p.rules := fst_mem_of_mem_zipIdx hrule
      have hidMem : id ∈ rule.domainMatch.ruleSetIDs := fst_mem_of_mem_zipIdx hid
      rcases mem_append.mp h with h | h
      · have hedge : spec.Resolved (id, .ruleSet) :=
          hresolved _ (mem_append_right _ (mem_flatMap.mpr
            ⟨rule, hmem, mem_map.mpr ⟨id, hidMem, rfl⟩⟩))
        rw [(checkEdge_eq_nil_iff hunique).mpr hedge] at h
        cases h
      · obtain ⟨hcode, hresource, target, htarget, rfl, s, network, hs, hentry⟩ :=
          checkDomains_network h
        exact .network hr hpayload hmem hidMem htarget hs hentry hresource hcode
  | _ =>
    have hclosed : spec.PayloadClosed r.payload :=
      ⟨hresolved, fun _ _ _ => hdns, fun q hq => by rw [hpayload] at hq; cases hq⟩
    rw [(payloadIssues_eq_nil_iff hunique).mpr hclosed] at h
    cases h

end

/-! ## Agreement -/

section

variable {cores : Cores} {snapshot : ID} {profile : Resource} {p : SubscriptionProfile}
  {heads : List Resource} {stale : ID → Bool} {catalogRevision authEpoch : ℕ}
  {spec : FrozenInputSpec} {reports : Reports} {roots : Roots} {expanded : Expansion}

theorem Specified.issues (h : Specified schema heads stale profile p spec roots expanded)
    (hscope : spec.scopeID ≠ "") (hkinds : ∀ m ∈ spec.members, m.memberKind = true)
    {d : Diagnostic} (hd : d ∈ spec.issues schema reports) (hcode : graphCode d.code = true) :
    Excepted spec d := by
  have hunique := h.unique
  have hadmissible : ∀ r ∈ spec.resources, Admissible schema spec.scopeID r := by
    intro r hr
    obtain ⟨hid, hfind⟩ := h.found hr
    obtain ⟨scope, hscopes, hadm⟩ := h.closure.walked.admissible _ hid _ hfind
    rw [h.scope] at hscope ⊢
    rw [← show scope = profile.metadata.scopeID from hscopes hscope]
    exact hadm
  have hresources : spec.resourceIssues = [] :=
    reports_resources.mpr ⟨hunique, fun r hr => (hadmissible r hr).scope,
      fun r hr => (hadmissible r hr).enabled⟩
  have hprofiles : spec.profileIssues = [] :=
    (reports_profiles hunique).mpr fun ref href => h.pins (.inr href)
  have hpresets : spec.presetIssues = [] :=
    (reports_presets hunique).mpr fun t ht r hr => h.presets ht hr
  have hmembers : spec.memberIssues = [] := by
    refine (reports_members hunique).mpr ⟨?_, fun m hm => h.pins (.inl hm)⟩
    rw [h.members, h.rooted.members]
    exact (perm_insertionSort _ _).nodup_iff.mpr (nodup_dedup _)
  have hunreachable : spec.unreachableIssues = [] := by
    refine (reports_unreachable h.linked).mpr fun r hr => ?_
    exact (h.reachable hkinds ((h.closure.reaches _).mp (h.found hr).1)).1
  unfold FrozenInputSpec.issues at hd
  rw [hresources, hprofiles, hpresets, hmembers, hunreachable, append_nil, append_nil,
    append_nil, append_nil, nil_append] at hd
  rcases mem_append.mp hd with hd | hd
  · rcases mem_append.mp hd with hd | hd
    · rw [graphCode_targetIssues hd] at hcode
      cases hcode
    · obtain ⟨before, r, after, heq, hd⟩ := Loop.mem_reports hd
      have hr : r ∈ spec.resources := by
        rw [heq]
        exact mem_append_right _ mem_cons_self
      have hdns : spec.dnsProfile ≠ none := by
        rw [h.dns]
        exact nofun
      exact excepted_payloadIssues hunique hdns hr (fun edge => h.resolved hr) hd
  · exact excepted_overrideIssues hd

theorem shape_facts (h : spec.shape = true) :
    ID.validate spec.scopeID = true ∧ ∀ m ∈ spec.members, m.memberKind = true := by
  simp only [FrozenInputSpec.shape, Bool.and_eq_true, all_eq_true] at h
  obtain ⟨⟨⟨⟨⟨⟨⟨⟨⟨⟨⟨⟨-, hscope⟩, -⟩, -⟩, -⟩, -⟩, -⟩, -⟩, -⟩, hmembers⟩, -⟩, -⟩, -⟩ := h
  exact ⟨hscope, fun m hm => (hmembers m hm).2⟩

/-- **Agreement.** A snapshot that the expansion accepts is refused for its graph only because of a
policy override, or of a network in a rule set of a DNS rule. -/
theorem expansion_agrees (hreports : Structural reports)
    (h : selectSpec schema cores snapshot profile p heads stale catalogRevision authEpoch =
      .ok spec) {ds : List Diagnostic} (hds : spec.validateSpec schema reports = .error ds) :
    ∀ d ∈ ds, graphCode d.code = true → Excepted spec d := by
  obtain ⟨roots, expanded, hspecified⟩ := selectSpec_ok h
  intro d hd hcode
  have hlimit : ¬ maxFrozenResources < spec.resources.length := by
    have hlength := hspecified.ids.length_eq
    rw [length_map] at hlength
    rw [hlength, not_lt]
    exact hspecified.closure.limit
  unfold FrozenInputSpec.validateSpec at hds
  rw [if_neg hlimit, find?_invalid_eq_none_iff.mpr fun r hr => hspecified.valid hr] at hds
  dsimp only at hds
  split at hds
  · next t i ht =>
    cases hds
    obtain ⟨x, hx, rfl⟩ := mem_map.mp hd
    obtain ⟨rest, hrest⟩ := hreports.target t x hx hcode
    refine .override i rest ?_
    change "/targets/" ++ toString i ++ x.fieldPath = _
    rw [hrest, String.append_assoc, String.append_assoc, String.append_assoc]
  · split_ifs at hds with hshape hissues
    · cases hds
      rw [hreports.frozenInput spec d hd] at hcode
      cases hcode
    · cases hds
      rw [Bool.or_eq_true, not_or, Bool.not_eq_true', Bool.not_eq_false] at hshape
      obtain ⟨hscope, hkinds⟩ := shape_facts hshape.2
      refine hspecified.issues (fun hempty => ?_) hkinds (mem_stableDiagnostics_iff.mp hd) hcode
      rw [hempty] at hscope
      cases hscope

end

/-! ## One refusal

A target overrides a policy group that the catalog does not have. The expansion does not look at
overrides, and the check refuses the snapshot for the override alone. -/

def strayTarget : SubscriptionTarget :=
  { sampleTarget with policyOverrides := [⟨sampleID 'c', some .fixed, none, none⟩] }

def strayProfile : SubscriptionProfile := { sampleProfile with targets := [strayTarget] }

def straySpec : Except SelectError FrozenInputSpec :=
  selectSpec hostnameSchema ⟨"1", [sampleBuild]⟩ (sampleID '0')
    (sampleResource (sampleID '5') (.subscriptionProfile strayProfile)) strayProfile
    (sampleRows.map Row.resource) (fun _ => false) 1 1

def strayDiagnostic : Diagnostic :=
  issueAt .referenceMissing "/targets/0/policy_overrides/0/policy_group_id" (sampleID 'c')

theorem validate_straySpec :
    straySpec.toOption.map (fun spec =>
      match spec.validateSpec hostnameSchema plainReports with
      | .ok _ => []
      | .error ds => ds) = some [strayDiagnostic] := by
  decide +kernel

theorem structural_plainReports : Structural plainReports :=
  ⟨fun _ _ hd => by cases mem_singleton.mp hd; rfl,
    fun _ _ hd hcode => by cases mem_singleton.mp hd; cases hcode⟩

/-- The refusal of the snapshot is one of the two exceptions. -/
theorem expansion_agrees_stray :
    ∃ spec, straySpec = .ok spec ∧
      spec.validateSpec hostnameSchema plainReports = .error [strayDiagnostic] ∧
      Excepted spec strayDiagnostic := by
  obtain ⟨spec, hspec, heq⟩ := Except.toOption_map_eq_some_iff.mp validate_straySpec
  split at heq
  · cases heq
  · next ds hds =>
    subst heq
    exact ⟨spec, hspec, hds,
      expansion_agrees structural_plainReports hspec hds _ mem_cons_self rfl⟩

end ProxyLoom.Subscriptions
