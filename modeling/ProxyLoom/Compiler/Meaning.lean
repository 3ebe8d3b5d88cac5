import ProxyLoom.Compiler.Prepare

/-!
# What a graph means

The rules of a prepared graph select what the profiles of its snapshot select.
-/

namespace ProxyLoom

open IR Adapter List Except

/-! ## First match on the input of an emitter -/

namespace Adapter

/-- The target of the first rule whose condition holds. -/
def firstTarget (schema : Schema) (f : Flow) (rules : List RouteRule) (otherwise : String) :
    String :=
  ((rules.find? fun r => r.condition.holds schema f).map RouteRule.target).getD otherwise

def EmitInput.select (schema : Schema) (input : EmitInput) (f : Flow) : String :=
  firstTarget schema f (input.routing.toList.flatMap RoutingInput.rules) input.exit

def DNSInput.select (schema : Schema) (d : DNSInput) (name : String) : String :=
  firstTarget schema (Flow.query name) d.rules d.profile.finalResolver

end Adapter

namespace Compiler

/-! ## Labels of expanded resources -/

variable {r : Resource} {id : ID}

section
variable {digest : String → String} {resources : Resources} {x : Expansion} {labels : Labels}

theorem shape_of_key {item item' : LabelItem}
    (h : ∃ id revision, item = nodeLabelItem id revision ∨ item = chainLabelItem id revision ∨
      item = policyLabelItem id revision)
    (h' : ∃ id revision, item' = nodeLabelItem id revision ∨ item' = chainLabelItem id revision ∨
      item' = policyLabelItem id revision)
    (hkey : item.key = item'.key) :
    item.tagPrefix = item'.tagPrefix ∧ item.suffixes = item'.suffixes := by
  obtain ⟨id, revision, rfl | rfl | rfl⟩ := h <;>
    obtain ⟨id', revision', rfl | rfl | rfl⟩ := h' <;>
    first
    | exact ⟨rfl, rfl⟩
    | exact absurd (congrArg String.toList hkey)
        (by simp [nodeLabelItem, chainLabelItem, policyLabelItem, nodeMaterial, chainMaterial,
          policyMaterial])

theorem labels_of_item (hx : x.Sound resources) (hlabels : assign digest x.items = .ok labels)
    {item : LabelItem} (hitem : item ∈ x.items) :
    ∃ st : LabelState, st.Labels digest x.items ∧
      labels item.key = item.suffixes.map fun suffix => item.tagPrefix ++ st.stem ++ suffix := by
  obtain ⟨out, rfl, -, hgrown, hout⟩ := assign_eq_ok hlabels
  obtain ⟨st, hst, hkey, htags⟩ := labelsOf_eq hgrown hitem
  obtain ⟨hshape, hsuffixes⟩ :=
    shape_of_key (hx.items _ (hout st hst).item) (hx.items item hitem) hkey
  refine ⟨st, hout st hst, ?_⟩
  rw [htags, LabelState.tags, hshape, hsuffixes]

theorem independentOf_tag (hx : x.Sound resources) (hlabels : assign digest x.items = .ok labels)
    (hr : r ∈ x.independents) :
    ∃ st : LabelState, st.Labels digest x.items ∧
      (independentOf labels r).tag = "n_" ++ st.stem := by
  obtain ⟨st, hst, h⟩ := labels_of_item hx hlabels (hx.nodes r hr).2.2
  refine ⟨st, hst, ?_⟩
  rw [independentOf, show nodeMaterial r.id r.metadata.revision =
    (nodeLabelItem r.id r.metadata.revision).key from rfl, h]
  simp [nodeLabelItem]

theorem chainOf_tags (hx : x.Sound resources) (hlabels : assign digest x.items = .ok labels)
    (hr : r ∈ x.chains) :
    ∃ st : LabelState, st.Labels digest x.items ∧
      (chainOf resources labels r).tagH1 = "c_" ++ st.stem ++ "_h1" ∧
      (chainOf resources labels r).tagH2 = "c_" ++ st.stem ++ "_h2" := by
  obtain ⟨st, hst, h⟩ := labels_of_item hx hlabels (hx.chains r hr).2.2
  refine ⟨st, hst, ?_⟩
  rw [chainOf, show chainMaterial r.id r.metadata.revision =
    (chainLabelItem r.id r.metadata.revision).key from rfl, h]
  simp [chainLabelItem]

theorem policyLabel (hx : x.Sound resources) (hlabels : assign digest x.items = .ok labels)
    (hr : r ∈ x.policies) :
    ∃ st : LabelState, st.Labels digest x.items ∧
      (labels (policyMaterial r.id r.metadata.revision)).headD "" = "g_" ++ st.stem := by
  obtain ⟨st, hst, h⟩ := labels_of_item hx hlabels (hx.policies r hr).2.2
  refine ⟨st, hst, ?_⟩
  rw [show policyMaterial r.id r.metadata.revision =
    (policyLabelItem r.id r.metadata.revision).key from rfl, h]
  simp [policyLabelItem]

end

/-! ## The base -/

theorem resourcesOf_id {merged : List Resource} (h : resourcesOf merged id = some r) :
    r.id = id := by
  simpa using List.find?_some h

theorem mem_of_resourcesOf {merged : List Resource} (h : resourcesOf merged id = some r) :
    r ∈ merged :=
  mem_reverse.mp (mem_of_find?_eq_some h)

section
variable {c : Compiler} {spec : FrozenInputSpec} {target : Target} {b : Base}

theorem mergeResource_id {r' : Resource} (h : c.mergeResource target r = .ok r') :
    r'.id = r.id := by
  unfold mergeResource at h
  cases ho : target.override? r.id with
  | none =>
    rw [ho] at h
    cases h
    rfl
  | some o =>
    rw [ho] at h
    dsimp only at h
    cases hm : mergePolicyOverride c.schema r o with
    | none =>
      rw [hm] at h
      cases h
    | some g =>
      rw [hm] at h
      cases h
      rfl

/-- A target sees the resources of the snapshot, with other settings for its policy groups only. -/
def SameBut (r r' : Resource) : Prop :=
  r'.metadata = r.metadata ∧
    (r'.payload = r.payload ∨ (r.payload.kind = .policyGroup ∧ r'.payload.kind = .policyGroup))

theorem mergeResource_sameBut {r' : Resource} (h : c.mergeResource target r = .ok r') :
    SameBut r r' := by
  unfold mergeResource at h
  cases ho : target.override? r.id with
  | none =>
    rw [ho] at h
    cases h
    exact ⟨rfl, .inl rfl⟩
  | some o =>
    rw [ho] at h
    dsimp only at h
    cases hm : mergePolicyOverride c.schema r o with
    | none =>
      rw [hm] at h
      cases h
    | some g =>
      rw [hm] at h
      cases h
      refine ⟨rfl, .inr ⟨?_, rfl⟩⟩
      unfold mergePolicyOverride at hm
      cases hpayload : r.payload with
      | policyGroup => rfl
      | node | chain | routingProfile | dnsProfile | ruleSet | subscriptionProfile | clientPreset =>
        rw [hpayload] at hm
        cases hm

theorem base_byID (h : c.base spec target = .ok b) (id : ID) :
    Option.Rel SameBut (spec.byID id) (b.resources id) := by
  obtain ⟨build, merged, x, labels, -, -, hmerged, -, -, rfl⟩ := base_eq_ok h
  have hrel : List.Forall₂ SameBut spec.resources merged :=
    (mapM_eq_ok_iff.mp hmerged).imp fun _ _ => mergeResource_sameBut
  refine List.Forall₂.find?_rel ?_ (forall₂_reverse_iff.mpr hrel)
  intro r r' hr
  show decide (r.metadata.resourceID = id) = decide (r'.metadata.resourceID = id)
  rw [hr.1]

theorem base_ruleSet (h : c.base spec target = .ok b) :
    b.resources.ruleSet = Resources.ruleSet spec.byID := by
  funext id
  unfold Resources.ruleSet
  have hrel := base_byID h id
  cases hspec : spec.byID id with
  | none =>
    rw [hspec] at hrel
    cases hres : b.resources id with
    | none => rfl
    | some r =>
      rw [hres] at hrel
      cases hrel
  | some r =>
    rw [hspec] at hrel
    cases hres : b.resources id with
    | none =>
      rw [hres] at hrel
      cases hrel
    | some r' =>
      rw [hres] at hrel
      cases hrel with
      | some hsame =>
        obtain heq | ⟨hkind, hkind'⟩ := hsame.2
        · simp only [Option.map_some, heq]
        · cases hp : r.payload <;> cases hp' : r'.payload <;>
            simp_all [Payload.kind]

theorem base_resources (h : c.base spec target = .ok b) (hr : spec.byID id = some r)
    (hkind : r.payload.kind ≠ .policyGroup) :
    b.resources id = some r := by
  have hrel := base_byID h id
  rw [hr] at hrel
  cases hres : b.resources id with
  | none =>
    rw [hres] at hrel
    cases hrel
  | some r' =>
    rw [hres] at hrel
    cases hrel with
    | some hsame =>
      obtain heq | ⟨hpolicy, -⟩ := hsame.2
      · exact congrArg some (by cases r; cases r'; simp_all [SameBut])
      · exact absurd hpolicy hkind

theorem payload_valid (h : c.base spec target = .ok b) (hr : spec.byID id = some r) :
    r.payload.validate c.schema = true := by
  obtain ⟨-, -, -, -, hspec, -⟩ := base_eq_ok h
  have hmem : r ∈ spec.resources := mem_reverse.mp (mem_of_find?_eq_some hr)
  have hvalid := (validateSpec_ok_iff.mp hspec).1.resources r hmem
  unfold Resource.validate at hvalid
  simp only [Bool.and_eq_true] at hvalid
  exact hvalid.1.2

theorem ruleSet_valid (h : c.base spec target = .ok b) (id : ID) (s : RuleSet)
    (hs : b.resources.ruleSet id = some s) : s.validate c.schema = true := by
  rw [base_ruleSet h] at hs
  unfold Resources.ruleSet at hs
  cases hr : spec.byID id with
  | none =>
    rw [hr] at hs
    cases hs
  | some r =>
    rw [hr, Option.map_some] at hs
    have hvalid := payload_valid h hr
    cases hp : r.payload with
    | ruleSet s' =>
      rw [hp] at hs hvalid
      cases hs
      exact hvalid
    | node | chain | policyGroup | routingProfile | dnsProfile | subscriptionProfile
    | clientPreset =>
      rw [hp] at hs
      cases hs

structure Base.Expanded (b : Base) (digest : String → String) (x : Expansion) : Prop where
  sound : x.Sound b.resources
  labels : assign digest x.items = .ok b.labels
  independents : ∀ o, o ∈ b.independents ↔ ∃ r ∈ x.independents, independentOf b.labels r = o
  chains : ∀ ch, ch ∈ b.chains ↔ ∃ r ∈ x.chains, chainOf b.resources b.labels r = ch
  policies : b.policies = x.policies
  members : ∀ m ∈ b.spec.members, x.Has m.resourceID
  profiles : ∀ id r, b.resources id = some r → ∀ ref ∈ profileRefs r.payload,
    ∀ kind i, ref = .resource kind i → x.Has i
  ids : ∀ id r, b.resources id = some r → r.id = id

theorem base_expansion (h : c.base spec target = .ok b) :
    ∃ x, expand spec b.resources target = .ok x ∧ b.Expanded c.digest x ∧ b.spec = spec ∧
      b.target = target := by
  obtain ⟨build, merged, x, labels, -, -, hmerged, hx, hlabels, rfl⟩ := base_eq_ok h
  have hkey : ∀ id r, resourcesOf merged id = some r → r.id = id := fun id r => resourcesOf_id
  have hempty : Expansion.Sound (resourcesOf merged) ⟨[], [], [], []⟩ := by
    constructor <;> intro r hr <;> cases hr
  obtain ⟨hsound, -, hhas⟩ := foldlM_addResource hkey hx hempty
  refine ⟨x, hx, ⟨hsound, hlabels, ?_, ?_, rfl, ?_, ?_, hkey⟩, rfl, rfl⟩
  · intro o
    dsimp only
    rw [mem_insertionSort, mem_map]
  · intro ch
    dsimp only
    rw [mem_insertionSort, mem_map]
  · intro m hm
    exact hhas _ (mem_append_left _ (mem_map.mpr ⟨m, hm, rfl⟩))
  · intro id r hr ref href kind i hi
    obtain ⟨original, horiginal, hmerge⟩ :=
      (mapM_eq_ok_iff.mp hmerged).exists_left (mem_of_resourcesOf hr)
    have hid : original.id = id := (mergeResource_id hmerge).symm.trans (resourcesOf_id hr)
    refine hhas i (mem_append_right _ (mem_flatMap.mpr ⟨original, horiginal, ?_⟩))
    have hres : resourcesOf merged original.id = some r := hid ▸ hr
    rw [hres]
    exact mem_filterMap.mpr ⟨ref, href, by rw [hi]; rfl⟩

theorem base_expanded (h : c.base spec target = .ok b) :
    ∃ x, b.Expanded c.digest x ∧ b.spec = spec ∧ b.target = target := by
  obtain ⟨x, -, hx⟩ := base_expansion h
  exact ⟨x, hx⟩

variable {digest : String → String} {x : Expansion}

theorem Base.Expanded.tags_ne_empty (hb : b.Expanded digest x) (h : x.Has id) :
    b.tags id ≠ "" := by
  unfold Base.tags
  cases hp : b.policies.find? fun r => r.id = id with
  | some r =>
    obtain ⟨st, -, htag⟩ := policyLabel hb.sound hb.labels
      (hb.policies ▸ mem_of_find?_eq_some hp)
    dsimp only
    rw [Base.policyTag, htag]
    simp
  | none =>
    cases hc : b.chains.find? fun ch => ch.resourceID = id with
    | some ch =>
      obtain ⟨r, hr, rfl⟩ := (hb.chains ch).mp (mem_of_find?_eq_some hc)
      obtain ⟨st, -, -, htag⟩ := chainOf_tags hb.sound hb.labels hr
      simp [htag]
    | none =>
      cases ho : b.independents.find? fun o => o.resource.id = id with
      | some o =>
        obtain ⟨r, hr, rfl⟩ := (hb.independents o).mp (mem_of_find?_eq_some ho)
        obtain ⟨st, -, htag⟩ := independentOf_tag hb.sound hb.labels hr
        simp [htag]
      | none =>
        exfalso
        obtain h | h | h := h
        · obtain ⟨r, hr, rfl⟩ := mem_map.mp h
          have hmem := (hb.independents _).mpr ⟨r, hr, rfl⟩
          exact absurd (List.find?_eq_none.mp ho _ hmem) (by simp [independentOf])
        · obtain ⟨r, hr, rfl⟩ := mem_map.mp h
          have hmem := (hb.chains _).mpr ⟨r, hr, rfl⟩
          exact absurd (List.find?_eq_none.mp hc _ hmem) (by simp [chainOf])
        · obtain ⟨r, hr, rfl⟩ := mem_map.mp h
          rw [hb.policies] at hp
          exact absurd (List.find?_eq_none.mp hp _ hr) (by simp)

theorem Base.Expanded.resolve_ne_empty (hb : b.Expanded digest x) (hr : b.resources id = some r)
    {ref : TargetRef} (href : ref ∈ profileRefs r.payload) :
    b.resolve ref ≠ "" := by
  cases ref with
  | builtin t =>
    cases t with
    | direct => exact show directTag ≠ "" by decide
    | reject => exact show blockTag ≠ "" by decide
  | resource kind i => exact hb.tags_ne_empty (hb.profiles id r hr _ href kind i rfl)

end

/-! ## Rules -/

section
variable {b : Base} {schema : Schema} {f : Flow} {p : RoutingProfile} {c : Compiler}
  {spec : FrozenInputSpec} {target : Target} {g : Graph} {dns : Bool} {α : Type}

structure Compiled (b : Base) (dns : Bool) (entry : RouteMatch × String × ℕ) (rule : RouteRule) :
    Prop where
  condition : routeCondition entry.1 b.resources dns = .ok rule.condition
  target : rule.target = entry.2.1
  fieldPath : rule.fieldPath = "/payload/rules/" ++ toString entry.2.2

theorem addRule_eq_ok {st st' : Base.RuleState} {entry : RouteMatch × String × ℕ}
    (h : b.addRule dns id st entry = .ok st') :
    ∃ rule, Compiled b dns entry rule ∧ st'.rules = st.rules ++ [rule] := by
  obtain ⟨m, target, index⟩ := entry
  unfold Base.addRule at h
  dsimp only at h
  obtain ⟨-, h⟩ := of_ite h
  cases hc : routeCondition m b.resources dns with
  | error d =>
    rw [hc] at h
    cases h
  | ok condition =>
    rw [hc] at h
    cases h
    exact ⟨_, ⟨hc, rfl, rfl⟩, rfl⟩

theorem foldlM_addRule {st st' : Base.RuleState}
    {entries : List (RouteMatch × String × ℕ)}
    (h : entries.foldlM (b.addRule dns id) st = .ok st') :
    ∃ rules, List.Forall₂ (Compiled b dns) entries rules ∧ st'.rules = st.rules ++ rules := by
  induction entries generalizing st with
  | nil =>
    cases h
    exact ⟨[], .nil, (append_nil _).symm⟩
  | cons entry entries ih =>
    rw [foldlM_cons] at h
    obtain ⟨next, hnext, h⟩ := of_bind h
    obtain ⟨rule, hrule, hst⟩ := addRule_eq_ok hnext
    obtain ⟨rules, hrules, hst'⟩ := ih h
    exact ⟨rule :: rules, .cons hrule hrules, by rw [hst', hst, append_assoc]; rfl⟩

theorem find?_zipIdx {l : List α} {k : ℕ} {p : α → Bool} :
    ((l.zipIdx k).find? fun entry => p entry.1).map Prod.fst = l.find? p := by
  induction l generalizing k with
  | nil => rfl
  | cons a l ih =>
    rw [zipIdx_cons]
    cases hp : p a with
    | true => rw [List.find?_cons_of_pos (by simpa using hp), List.find?_cons_of_pos hp,
        Option.map_some]
    | false => rw [List.find?_cons_of_neg (by simp [hp]), List.find?_cons_of_neg (by simp [hp]), ih]

theorem firstTarget_compiled {rules : List α} {enabled : α → Bool}
    {match_ : α → RouteMatch} {target : α → String} {compiled : List RouteRule}
    {otherwise : String}
    (h : List.Forall₂ (Compiled b dns) ((rules.zipIdx.filter fun entry => enabled entry.1).map
      fun entry => (match_ entry.1, target entry.1, entry.2)) compiled) :
    firstTarget schema f compiled otherwise =
      ((rules.find? fun r => enabled r && (match_ r).holds schema b.resources.ruleSet f).map
        target).getD otherwise := by
  have hrules : List.Forall₂
      (fun (entry : RouteMatch × String × ℕ) (rule : RouteRule) =>
        entry.1.holds schema b.resources.ruleSet f = rule.condition.holds schema f ∧
          entry.2.1 = rule.target) _ compiled :=
    h.imp fun _ _ hrule => ⟨(routeCondition_holds hrule.condition).symm, hrule.target.symm⟩
  rw [firstTarget, ← hrules.find?_map_eq, List.find?_map, List.find?_filter, Option.map_map]
  rw [← find?_zipIdx (k := 0) (p := fun r => enabled r && (match_ r).holds schema _ f),
    Option.map_map]
  simp only [Bool.decide_and, Bool.decide_eq_true]
  rfl

theorem valid_compiled (hb : c.base spec target = .ok b)
    {entries : List (RouteMatch × String × ℕ)} {rules : List RouteRule}
    (hentries : ∀ entry ∈ entries, ValidFields c.schema entry.1)
    (h : List.Forall₂ (Compiled b dns) entries rules) :
    ∀ rule ∈ rules, ValidCondition c.schema rule.condition := by
  intro rule hrule
  obtain ⟨entry, hentry, hcompiled⟩ := h.exists_left hrule
  exact routeCondition_valid (hentries entry hentry) (ruleSet_valid hb) hcompiled.condition

structure Prepared (b : Base) (g : Graph) : Prop where
  policies : g.policies =
    (b.groups.map fun (r, p) => b.policyInstance r p).insertionSort fun a b => a.tag ≤ b.tag
  checks : ∀ entry ∈ b.groups, b.checkPolicy entry.1 entry.2 = .ok ()
  routing : ∃ st st', b.routingInput st = .ok (st', g.routing, g.finalTag)
  dns : ∃ st st', b.dnsInput st = .ok (st', g.dns)
  preset : b.presetInput g.routing g.dns g.policies = .ok g.preset
  independents : ∀ o, o ∈ g.independents ↔ o ∈ b.independents ∨
    ∃ entry ∈ b.groups, o ∈ b.memberOutbounds (b.policyTag entry.1) entry.2.members
  chains : ∀ ch, ch ∈ g.chains ↔ ch ∈ b.chains ∨
    ∃ entry ∈ b.groups, ch ∈ b.memberChains (b.policyTag entry.1) entry.2.members
  target : g.target = b.target

theorem forM_eq_ok {ε : Type} {l : List α} {check : α → Except ε Unit}
    (h : l.forM check = .ok ()) : ∀ a ∈ l, check a = .ok () := by
  induction l with
  | nil =>
    intro a ha
    cases ha
  | cons a l ih =>
    change (check a >>= fun _ => l.forM check) = .ok () at h
    obtain ⟨⟨⟩, ha, hl⟩ := of_bind h
    intro a' ha'
    obtain rfl | ha' := mem_cons.mp ha'
    · exact ha
    · exact ih hl a' ha'

theorem prepareOrchestration_prepared (h : b.prepareOrchestration = .ok g) :
    Prepared b g := by
  unfold Base.prepareOrchestration at h
  obtain ⟨⟨⟩, hchecks, h⟩ := of_bind h
  obtain ⟨⟨st, routing, finalTag⟩, hrouting, h⟩ := of_bind h
  obtain ⟨⟨st', dns⟩, hdns, h⟩ := of_bind h
  obtain ⟨preset, hpreset, h⟩ := of_bind h
  cases h
  refine ⟨rfl, forM_eq_ok hchecks, ⟨_, _, hrouting⟩, ⟨_, _, hdns⟩, hpreset, ?_, ?_, rfl⟩
  · intro o
    simp only [mem_append, mem_flatMap]
  · intro ch
    simp only [mem_append, mem_flatMap]

theorem Prepared.sorted (h : Prepared b g) (keys unverified : List String) :
    Prepared b { sortGraph g with requiredKeys := keys, unverifiedKeys := unverified } where
  policies := h.policies
  checks := h.checks
  routing := h.routing
  dns := h.dns
  preset := h.preset
  independents o := by
    rw [← h.independents o]
    exact mem_insertionSort _
  chains ch := by
    rw [← h.chains ch]
    exact mem_insertionSort _
  target := h.target

theorem prepare_prepared {graph : Graph} {diags : List Diagnostic} (hb : c.base spec target = .ok b)
    (h : c.prepare spec target = .ok (graph, diags)) : Prepared b graph := by
  obtain ⟨b', g, keys, unverified, hb', hg, rfl⟩ := prepare_eq_ok h
  obtain rfl : b = b' := Except.ok.inj (hb.symm.trans hb')
  exact (prepareOrchestration_prepared hg).sorted keys unverified

theorem Prepared.routing_eq (h : Prepared b g) (hp : b.routingProfile = some (r, p)) :
    ∃ rules, List.Forall₂ (Compiled b false) (b.routingRules p) rules ∧
      g.routing = some ⟨r.id, p.domainResolutionMode, rules⟩ ∧ g.finalTag = b.resolve p.final := by
  obtain ⟨st, st', h⟩ := h.routing
  unfold Base.routingInput at h
  rw [hp] at h
  obtain ⟨next, hrules, h⟩ := of_bind h
  obtain ⟨rules, hcompiled, hnext⟩ := foldlM_addRule hrules
  simp only [Except.ok.injEq, Prod.mk.injEq] at h
  obtain ⟨-, hrouting, hfinal⟩ := h
  refine ⟨rules, hcompiled, ?_, hfinal.symm⟩
  rw [← hrouting, hnext]
  rfl

theorem Prepared.dns_eq (h : Prepared b g) {p : DNSProfile} (hp : b.dnsProfile = some (r, p)) :
    ∃ rules tags, List.Forall₂ (Compiled b true) (Base.dnsRules p) rules ∧
      p.resolvers.zipIdx.foldlM (b.addResolver r.id) [] = .ok tags ∧
      g.dns = some ⟨r.id, p, tags, rules⟩ := by
  obtain ⟨st, st', h⟩ := h.dns
  unfold Base.dnsInput at h
  rw [hp] at h
  obtain ⟨tags, htags, h⟩ := of_bind h
  obtain ⟨next, hrules, h⟩ := of_bind h
  obtain ⟨rules, hcompiled, hnext⟩ := foldlM_addRule hrules
  simp only [Except.ok.injEq, Prod.mk.injEq] at h
  obtain ⟨-, hdns⟩ := h
  refine ⟨rules, tags, hcompiled, htags, ?_⟩
  rw [← hdns, hnext]
  rfl

theorem compiled_enabled {rules : List RouteRule}
    (h : List.Forall₂ (Compiled b false) (b.routingRules p) rules) :
    List.Forall₂ (fun (rule : RoutingRule) (r : RouteRule) =>
      routeCondition rule.routeMatch b.resources false = .ok r.condition ∧
        r.target = b.resolve rule.action) (p.rules.filter RoutingRule.enabled) rules := by
  have hfilter : ((p.rules.zipIdx.filter fun entry => entry.1.enabled).map Prod.fst) =
      p.rules.filter RoutingRule.enabled := by
    conv_rhs => rw [← zipIdx_map_fst 0 p.rules]
    rw [filter_map]
    rfl
  rw [← hfilter, forall₂_map_left_iff]
  unfold Base.routingRules at h
  rw [forall₂_map_left_iff] at h
  exact h.imp fun _ _ hrule => ⟨hrule.condition, hrule.target⟩

theorem routingProfile_eq_some (h : b.routingProfile = some (r, p)) :
    ∃ ref, b.spec.routingProfile = some ref ∧ b.resources ref.resourceID = some r ∧
      r.payload = .routingProfile p := by
  unfold Base.routingProfile at h
  cases hr : b.spec.routingProfile.bind fun ref => b.resources ref.resourceID with
  | none =>
    rw [hr] at h
    cases h
  | some r' =>
    rw [hr] at h
    obtain ⟨ref, href, hres⟩ := Option.bind_eq_some_iff.mp hr
    dsimp only at h
    cases hpayload : r'.payload with
    | routingProfile p' =>
      rw [hpayload] at h
      cases h
      exact ⟨ref, href, hres, hpayload⟩
    | node | chain | policyGroup | dnsProfile | ruleSet | subscriptionProfile | clientPreset =>
      rw [hpayload] at h
      cases h

theorem routingProfile_of_spec (hb : c.base spec target = .ok b) {ref : FrozenRef}
    (href : spec.routingProfile = some ref) (hr : spec.byID ref.resourceID = some r)
    (hp : r.payload = .routingProfile p) : b.routingProfile = some (r, p) := by
  obtain ⟨x, -, rfl, -⟩ := base_expanded hb
  have hres := base_resources hb hr (by simp [hp, Payload.kind])
  unfold Base.routingProfile
  rw [href, Option.bind_some, hres]
  simp only [hp]

theorem dnsProfile_of_spec (hb : c.base spec target = .ok b) {ref : FrozenRef} {p : DNSProfile}
    (href : spec.dnsProfile = some ref) (hr : spec.byID ref.resourceID = some r)
    (hp : r.payload = .dnsProfile p) : b.dnsProfile = some (r, p) := by
  obtain ⟨x, -, rfl, -⟩ := base_expanded hb
  have hres := base_resources hb hr (by simp [hp, Payload.kind])
  unfold Base.dnsProfile
  rw [href, Option.bind_some, hres]
  simp only [hp]

theorem valid_routingRules (h : p.validate schema = true) :
    ∀ entry ∈ b.routingRules p, ValidFields schema entry.1 := by
  unfold RoutingProfile.validate at h
  simp only [Bool.and_eq_true] at h
  obtain ⟨⟨-, hrules⟩, -⟩ := h
  rintro entry hentry
  obtain ⟨⟨rule, i⟩, hrule, rfl⟩ := mem_map.mp hentry
  have hmem : rule ∈ p.rules := fst_mem_of_mem_zipIdx (mem_of_mem_filter hrule)
  have hvalid := all_eq_true.mp hrules rule hmem
  unfold RoutingRule.validate at hvalid
  simp only [Bool.and_eq_true] at hvalid
  exact validFields_of_validate hvalid.1.1

theorem valid_dnsRules {p : DNSProfile} (h : p.validate schema = true) :
    ∀ entry ∈ Base.dnsRules p, ValidFields schema entry.1 := by
  unfold DNSProfile.validate at h
  simp only [Bool.and_eq_true] at h
  rintro entry hentry
  obtain ⟨⟨rule, i⟩, hrule, rfl⟩ := mem_map.mp hentry
  have hmem : rule ∈ p.rules := fst_mem_of_mem_zipIdx (mem_of_mem_filter hrule)
  have hvalid : rule.validate schema = true := by
    have hrules : p.rules.all (DNSRule.validate schema) = true := by tauto
    exact all_eq_true.mp hrules rule hmem
  unfold DNSRule.validate at hvalid
  simp only [Bool.and_eq_true] at hvalid
  exact validFields_route hvalid.1.1

theorem exit_eq {digest : String → String} {x : Expansion} (hb : b.Expanded digest x)
    (h : Prepared b g) (hp : b.routingProfile = some (r, p)) :
    g.emitInput.exit = b.resolve p.final := by
  obtain ⟨-, -, -, hfinal⟩ := h.routing_eq hp
  obtain ⟨ref, -, hres, hpayload⟩ := routingProfile_eq_some hp
  have hne : b.resolve p.final ≠ "" :=
    hb.resolve_ne_empty hres (by rw [hpayload]; exact mem_cons_self)
  have htag : g.emitInput.exitTag = .ok (b.resolve p.final) := by
    unfold EmitInput.exitTag
    rw [show g.emitInput.finalTag = b.resolve p.final from hfinal, if_pos hne]
  rw [EmitInput.exit, htag]

/-- **Routing is kept.** -/
theorem select_eq_resolve {digest : String → String} {x : Expansion} {g : Graph}
    (hb : b.Expanded digest x) (h : Prepared b g) {r : Resource} {p : RoutingProfile}
    (hp : b.routingProfile = some (r, p)) :
    g.emitInput.select schema f = b.resolve (p.select schema b.resources.ruleSet f) := by
  obtain ⟨rules, hcompiled, hrouting, -⟩ := h.routing_eq hp
  unfold EmitInput.select
  rw [exit_eq hb h hp, show g.emitInput.routing = _ from hrouting]
  simp only [Option.toList_some, flatMap_cons, flatMap_nil, append_nil]
  rw [@firstTarget_compiled b schema f false RoutingRule p.rules RoutingRule.enabled
    RoutingRule.routeMatch (fun r => b.resolve r.action) rules _ hcompiled]
  unfold RoutingProfile.select
  cases p.rules.find? fun r => r.enabled && r.routeMatch.holds schema b.resources.ruleSet f with
  | none => rfl
  | some rule => rfl

/-- **Resolver selection is kept.** -/
theorem dns_select_eq (h : Prepared b g) {p : DNSProfile} (hp : b.dnsProfile = some (r, p))
    {d : DNSInput} (hd : g.dns = some d) (name : String) :
    d.select schema name = p.select schema b.resources.ruleSet name := by
  obtain ⟨rules, tags, hcompiled, -, hdns⟩ := h.dns_eq hp
  obtain rfl := Option.some.inj (hd.symm.trans hdns)
  exact @firstTarget_compiled b schema (Flow.query name) true DNSRule p.rules DNSRule.enabled
    (fun r => r.domainMatch.route) DNSRule.resolverID rules _ hcompiled

end

end Compiler

end ProxyLoom
