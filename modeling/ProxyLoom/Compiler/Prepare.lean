import ProxyLoom.Compiler.Orchestration

/-!
# Preparing a graph

`Compiler.prepare` checks the snapshot and the pinned target, applies the target's policy overrides,
collects every resource that traffic can be sent to, labels them, and adds the policies, routing and
DNS. What it needs of the rest of the repository is in `Compiler`: the locked catalog, the digest of
the labeler and the checks of the contract.
-/

namespace ProxyLoom

open List Except

namespace Compiler

/-- Features of a node that a core supports together. -/
structure Combination where
  capabilityKey : String
  protocol : String
  transport : String
  security : String
deriving DecidableEq, Repr

structure Catalog where
  adapterVersion : String
  builds : List Build
  combinations : List Combination
deriving DecidableEq, Repr

def Catalog.build (catalog : Catalog) (id : IR.ID) : Option Build :=
  catalog.builds.find? fun b => b.id = id

end Compiler

/-- The locked catalog, the hexadecimal digest that labels are made of, and the checks of the
contract with what they report. -/
structure Compiler where
  catalog : Compiler.Catalog
  digest : String → String
  digest_hex : ∀ material, (digest material).toList.all Text.isLowerHex = true
  schema : IR.Schema
  reports : IR.Reports

namespace Compiler

open IR Adapter

/-! ## Capabilities -/

def transportText : Transport → String
  | .nativeTCP => "native_tcp"
  | .webSocket _ _ => "websocket"

def securityText : SecurityMode → String
  | .none => "none"
  | .tls => "tls"
  | .reality => "reality"

def strategyText : PolicyStrategy → String
  | .fixed => "fixed"
  | .manualSelect => "manual_select"
  | .latencyBest => "latency_best"
  | .roundRobin => "round_robin"

def nodeCapabilityKey (n : Node) (combinations : List Combination) : Option String :=
  let security := securityText n.security.mode
  (combinations.find? fun combo =>
    combo.protocol = n.protocol.text && combo.transport = transportText n.transport &&
      (combo.security = security ||
        (combo.security = "tls_or_none" && (security = "tls" || security = "none")))).map
    Combination.capabilityKey

/-- A capability that the graph asks for, and where. -/
structure Requirement where
  key : String
  path : String
  resourceID : ID
deriving DecidableEq, Repr

def nodeRequirement (catalog : Catalog) (target : Target) (path : String)
    (resource : Option Resource) : Except (List Diagnostic) Requirement :=
  match resource with
  | some r =>
    match r.payload with
    | .node n =>
      match nodeCapabilityKey n catalog.combinations with
      | some key => .ok ⟨key, path, r.id⟩
      | none =>
        .error [compileIssue .compileUnknownCapability (path ++ "/protocol") target.key r.id]
    | _ => .error [compileIssue .invalidUnion path target.key r.id]
  | none => .error [compileIssue .invalidUnion path target.key ""]

def chainRequirements (catalog : Catalog) (target : Target) (entry : ChainInstance × ℕ) :
    Except (List Diagnostic) (List Requirement) := do
  let base := "/chains/" ++ toString entry.2
  let h1 ← nodeRequirement catalog target (base ++ "/h1") entry.1.hop1
  let h2 ← nodeRequirement catalog target (base ++ "/h2") entry.1.hop2
  .ok [h1, h2, ⟨"chain.two_hop.tcp", base, entry.1.resourceID⟩]

/-- All that the graph asks of the build. -/
def requirements (catalog : Catalog) (graph : Graph) :
    Except (List Diagnostic) (List Requirement) := do
  let nodes ← graph.independents.zipIdx.mapM fun (o, i) =>
    nodeRequirement catalog graph.target ("/independents/" ++ toString i) (some o.resource)
  let chains ← graph.chains.zipIdx.mapM (chainRequirements catalog graph.target)
  .ok (nodes ++ chains.flatten ++
    graph.policies.map (fun p => ⟨"policy." ++ strategyText p.strategy, "/payload/strategy",
      p.resourceID⟩) ++
    graph.routing.toList.map (fun r => ⟨"routing.ordered", "/payload/rules", r.resourceID⟩) ++
    graph.dns.toList.map (fun d => ⟨"dns.profile", "/payload/resolvers", d.resourceID⟩) ++
    graph.preset.toList.map (fun _ => ⟨"client_preset", "/payload",
      graph.target.clientPresetID⟩) ++
    graph.ruleSets.map fun ref => ⟨"rule_set.inline", "/payload/entries", ref.resourceID⟩)

/-- The state of a required capability; an unsupported one ends the compilation. -/
def requirementState (graph : Graph) (req : Requirement) :
    Except (List Diagnostic) (Requirement × CapabilityState) :=
  match lookup graph.build.capabilities req.key with
  | none =>
    .error [compileIssue .compileUnknownCapability req.path graph.target.key req.resourceID]
  | some .unsupported =>
    .error [compileIssue .capabilityUnsupported req.path graph.target.key req.resourceID]
  | some state => .ok (req, state)

def stableCompileDiagnostics (d : List Diagnostic) : List Diagnostic :=
  d.insertionSort fun a b => a.fieldPath < b.fieldPath ∨ (a.fieldPath = b.fieldPath ∧
    (a.code.text < b.code.text ∨ (a.code = b.code ∧ a.resourceID ≤ b.resourceID)))

/-- The required keys and those not verified, each in order, with a note for every requirement that
is not verified. -/
def collectCapabilities (catalog : Catalog) (graph : Graph) :
    Except (List Diagnostic) (List String × List String × List Diagnostic) := do
  let required ← requirements catalog graph
  let states ← required.mapM (requirementState graph)
  let unverified := (states.filter fun s => s.2 ≠ .verified).map Prod.fst
  .ok (Slices.canonical (required.map Requirement.key),
    Slices.canonical (unverified.map Requirement.key),
    stableCompileDiagnostics (unverified.map fun req =>
      { compileIssue .capabilityUnverified req.path graph.target.key req.resourceID with
        severity := .info }))

/-! ## Expansion -/

/-- The outbounds, chains and policy groups in the order in which they are first requested. -/
structure Expansion where
  independents : List Resource
  chains : List Resource
  policies : List Resource
  items : List LabelItem
deriving DecidableEq, Repr

/-- Add a resource with what it needs, unless it is there. -/
def addResource (resources : Resources) (target : Target) (x : Expansion) (id : ID) :
    Except (List Diagnostic) Expansion :=
  match resources id with
  | some r =>
    match r.payload with
    | .node _ =>
      if id ∈ x.independents.map Resource.id then .ok x
      else .ok { x with
        independents := x.independents ++ [r]
        items := x.items ++ [nodeLabelItem r.id r.metadata.revision] }
    | .chain _ =>
      if id ∈ x.chains.map Resource.id then .ok x
      else .ok { x with
        chains := x.chains ++ [r]
        items := x.items ++ [chainLabelItem r.id r.metadata.revision] }
    | .policyGroup _ =>
      if id ∈ x.policies.map Resource.id then .ok x
      else .ok { x with
        policies := x.policies ++ [r]
        items := x.items ++ [policyLabelItem id r.metadata.revision] }
    | _ => .error [compileIssue .invalidUnion "/members" target.key id]
  | none => .error [compileIssue .invalidUnion "/members" target.key id]

/-- What the rules of a profile, the disabled ones included, send traffic to. -/
def profileRefs : Payload → List TargetRef
  | .routingProfile p => p.final :: p.rules.map RoutingRule.action
  | .dnsProfile p => p.resolvers.filterMap DNSResolver.outbound
  | _ => []

/-- The members, then the references of every profile of the snapshot. -/
def requested (spec : FrozenInputSpec) (resources : Resources) : List ID :=
  spec.members.map FrozenRef.resourceID ++ spec.resources.flatMap fun original =>
    match resources original.id with
    | some r => (profileRefs r.payload).filterMap TargetRef.resourceID
    | none => []

/-- The resources that are compiled, in the order of the requests. -/
def expand (spec : FrozenInputSpec) (resources : Resources) (target : Target) :
    Except (List Diagnostic) Expansion :=
  (requested spec resources).foldlM (addResource resources target) ⟨[], [], [], []⟩

/-- The outbounds of the members of a policy group: two for a chain. -/
def memberCount (r : Resource) : ℕ :=
  match r.payload with
  | .policyGroup p => (p.members.map fun m =>
    match m with
    | .resource .chain _ => 2
    | _ => 1).sum
  | _ => 0

/-- The outbounds of the graph, the members of the policy groups included. -/
def outboundCount (x : Expansion) : ℕ :=
  x.independents.length + 2 * x.chains.length + (x.policies.map memberCount).sum

/-! ## Preparation -/

variable (c : Compiler)

/-- The resource under the override of the target. -/
def mergeResource (target : Target) (r : Resource) : Except (List Diagnostic) Resource :=
  match target.override? r.id with
  | none => .ok r
  | some o =>
    match mergePolicyOverride c.schema r o with
    | some g => .ok { r with payload := .policyGroup g }
    | none => .error (FrozenInputSpec.mergeIssues c.schema c.reports r o)

def trimSpace (s : List Char) : List Char :=
  (((s.dropWhile Char.isWhitespace).reverse).dropWhile Char.isWhitespace).reverse

def equalDigest (want got : String) : Bool :=
  (trimSpace want.toList).map lowerChar = (trimSpace got.toList).map lowerChar

/-- The target is of this snapshot, and its build is the one it pins. -/
def checkTarget (spec : FrozenInputSpec) (target : Target) : Except (List Diagnostic) Build :=
  let fail := fun code path => Except.error [compileIssue code path target.key ""]
  if spec.targets.find? (fun t => t.key = target.key) ≠ some target then
    fail .compileTargetMismatch ""
  else if target.format ≠ target.coreFamily.format then fail .compileFormatMismatch "/format"
  else if target.adapterVersion ≠ c.catalog.adapterVersion then
    fail .compileAdapterVersion "/adapter_version"
  else
    match c.catalog.build target.coreBuildID with
    | none => fail .compileUnknownBuild "/core_build_id"
    | some build =>
      if build.family ≠ target.coreFamily then fail .compileUnknownBuild "/core_family"
      else if target.coreBuildSHA256 = "" ∨
          equalDigest build.binarySHA256 target.coreBuildSHA256 = false then
        fail .compileDigestMismatch "/core_build_sha256"
      else .ok build

def resourcesOf (merged : List Resource) : Resources := fun id =>
  merged.reverse.find? fun r => r.id = id

def independentOf (labels : Labels) (r : Resource) : IndependentOutbound :=
  ⟨(labels (nodeMaterial r.id r.metadata.revision)).headD "", r⟩

def chainOf (resources : Resources) (labels : Labels) (r : Resource) : ChainInstance :=
  let tags := labels (chainMaterial r.id r.metadata.revision)
  let hops :=
    match r.payload with
    | .chain chain => chain.hops
    | _ => []
  { resourceID := r.id, revision := r.metadata.revision, tagH1 := tags.getD 0 "",
    tagH2 := tags.getD 1 "", hop1 := resources (hops.getD 0 ""),
    hop2 := resources (hops.getD 1 "") }

/-- What the orchestration starts from. -/
def base (spec : FrozenInputSpec) (target : Target) : Except (List Diagnostic) Base := do
  spec.validateSpec c.schema c.reports
  let build ← c.checkTarget spec target
  let merged ← spec.resources.mapM (c.mergeResource target)
  let resources := resourcesOf merged
  let x ← expand spec resources target
  let labels ← assign c.digest x.items
  if maxOutbounds < outboundCount x then
    .error [compileIssue .inputLimitExceeded "/outbounds" target.key ""]
  else
    .ok
      { spec, target, build, resources, labels
        independents := (x.independents.map (independentOf labels)).insertionSort
          fun a b => a.tag ≤ b.tag
        chains := (x.chains.map (chainOf resources labels)).insertionSort
          fun a b => a.resourceID ≤ b.resourceID
        policies := x.policies }

def sortGraph (graph : Graph) : Graph :=
  { graph with
    independents := graph.independents.insertionSort fun a b => a.tag ≤ b.tag
    chains := graph.chains.insertionSort fun a b => a.tagH1 ≤ b.tagH1 }

/-- The graph of a target and its diagnostics, sorted. -/
def prepare (spec : FrozenInputSpec) (target : Target) :
    Except (List Diagnostic) (Graph × List Diagnostic) := do
  let base ← c.base spec target
  let graph ← base.prepareOrchestration
  let (keys, unverified, diags) ← collectCapabilities c.catalog (sortGraph graph)
  .ok ({ sortGraph graph with requiredKeys := keys, unverifiedKeys := unverified }, diags)

/-! ## Inversion -/

section
variable {c : Compiler} {spec : FrozenInputSpec} {target : Target}

/-- What a successful preparation of the outbounds went through. -/
theorem base_eq_ok {b : Base} (h : c.base spec target = .ok b) :
    ∃ build merged x labels, spec.validateSpec c.schema c.reports = .ok () ∧
      c.checkTarget spec target = .ok build ∧
      spec.resources.mapM (c.mergeResource target) = .ok merged ∧
      expand spec (resourcesOf merged) target = .ok x ∧ assign c.digest x.items = .ok labels ∧
      b =
        { spec, target, build, resources := resourcesOf merged, labels
          independents := (x.independents.map (independentOf labels)).insertionSort
            fun a b => a.tag ≤ b.tag
          chains := (x.chains.map (chainOf (resourcesOf merged) labels)).insertionSort
            fun a b => a.resourceID ≤ b.resourceID
          policies := x.policies } := by
  unfold base at h
  obtain ⟨⟨⟩, hvalid, h⟩ := of_bind h
  obtain ⟨build, hbuild, h⟩ := of_bind h
  obtain ⟨merged, hmerged, h⟩ := of_bind h
  obtain ⟨x, hx, h⟩ := of_bind h
  obtain ⟨labels, hlabels, h⟩ := of_bind h
  obtain ⟨-, h⟩ := of_ite h
  exact ⟨build, merged, x, labels, hvalid, hbuild, hmerged, hx, hlabels, (Except.ok.inj h).symm⟩

/-- What a successful preparation went through. -/
theorem prepare_eq_ok {graph : Graph} {diags : List Diagnostic}
    (h : c.prepare spec target = .ok (graph, diags)) :
    ∃ b g keys unverified, c.base spec target = .ok b ∧ b.prepareOrchestration = .ok g ∧
      graph = { sortGraph g with requiredKeys := keys, unverifiedKeys := unverified } := by
  unfold prepare at h
  obtain ⟨b, hb, h⟩ := of_bind h
  obtain ⟨g, hg, h⟩ := of_bind h
  obtain ⟨⟨keys, unverified, ds⟩, -, h⟩ := of_bind h
  exact ⟨b, g, keys, unverified, hb, hg, (congrArg Prod.fst (Except.ok.inj h)).symm⟩

end

/-! ## Expanded resources -/

/-- The resources are of the kind, and their labels are among the items. -/
def Labelled (resources : Resources) (items : List LabelItem) (kind : ResourceKind)
    (label : ID → ℕ → LabelItem) (l : List Resource) : Prop :=
  ∀ r ∈ l, resources r.id = some r ∧ r.payload.kind = kind ∧
    label r.id r.metadata.revision ∈ items

structure Expansion.Sound (resources : Resources) (x : Expansion) : Prop where
  nodes : Labelled resources x.items .node nodeLabelItem x.independents
  chains : Labelled resources x.items .chain chainLabelItem x.chains
  policies : Labelled resources x.items .policyGroup policyLabelItem x.policies
  items : ∀ item ∈ x.items, ∃ id revision, item = nodeLabelItem id revision ∨
    item = chainLabelItem id revision ∨ item = policyLabelItem id revision

def Expansion.Has (x : Expansion) (id : ID) : Prop :=
  id ∈ x.independents.map Resource.id ∨ id ∈ x.chains.map Resource.id ∨
    id ∈ x.policies.map Resource.id

section
variable {resources : Resources} {target : Target} {x x' : Expansion} {id : ID} {r : Resource}

theorem Labelled.mono {kind : ResourceKind} {label : ID → ℕ → LabelItem}
    {items items' : List LabelItem} {l : List Resource}
    (h : Labelled resources items kind label l) (hsub : items ⊆ items') :
    Labelled resources items' kind label l := by
  intro r hr
  obtain ⟨hres, hkind, hitem⟩ := h r hr
  exact ⟨hres, hkind, hsub hitem⟩

theorem Labelled.snoc {kind : ResourceKind} {label : ID → ℕ → LabelItem} {items : List LabelItem}
    {l : List Resource} (h : Labelled resources items kind label l)
    (hr : resources r.id = some r) (hkind : r.payload.kind = kind) :
    Labelled resources (items ++ [label r.id r.metadata.revision]) kind label (l ++ [r]) := by
  intro r' hr'
  obtain hr' | hr' := mem_append.mp hr'
  · exact h.mono (subset_append_left _ _) r' hr'
  · obtain rfl := mem_singleton.mp hr'
    exact ⟨hr, hkind, mem_append_right _ (mem_singleton.mpr rfl)⟩

theorem Expansion.Sound.addNode (hx : x.Sound resources)
    (hr : resources r.id = some r) (hkind : r.payload.kind = .node) :
    Expansion.Sound resources { x with
      independents := x.independents ++ [r]
      items := x.items ++ [nodeLabelItem r.id r.metadata.revision] } where
  nodes := hx.nodes.snoc hr hkind
  chains := hx.chains.mono (subset_append_left _ _)
  policies := hx.policies.mono (subset_append_left _ _)
  items item hitem := by
    obtain hitem | hitem := mem_append.mp hitem
    · exact hx.items item hitem
    · exact ⟨_, _, .inl (mem_singleton.mp hitem)⟩

theorem Expansion.Sound.addChain (hx : x.Sound resources)
    (hr : resources r.id = some r) (hkind : r.payload.kind = .chain) :
    Expansion.Sound resources { x with
      chains := x.chains ++ [r]
      items := x.items ++ [chainLabelItem r.id r.metadata.revision] } where
  nodes := hx.nodes.mono (subset_append_left _ _)
  chains := hx.chains.snoc hr hkind
  policies := hx.policies.mono (subset_append_left _ _)
  items item hitem := by
    obtain hitem | hitem := mem_append.mp hitem
    · exact hx.items item hitem
    · exact ⟨_, _, .inr (.inl (mem_singleton.mp hitem))⟩

theorem Expansion.Sound.addPolicy (hx : x.Sound resources)
    (hr : resources r.id = some r) (hkind : r.payload.kind = .policyGroup) :
    Expansion.Sound resources { x with
      policies := x.policies ++ [r]
      items := x.items ++ [policyLabelItem r.id r.metadata.revision] } where
  nodes := hx.nodes.mono (subset_append_left _ _)
  chains := hx.chains.mono (subset_append_left _ _)
  policies := hx.policies.snoc hr hkind
  items item hitem := by
    obtain hitem | hitem := mem_append.mp hitem
    · exact hx.items item hitem
    · exact ⟨_, _, .inr (.inr (mem_singleton.mp hitem))⟩

theorem addResource_cases (h : addResource resources target x id = .ok x') :
    ∃ r, resources id = some r ∧
      ((r.payload.kind = .node ∧ ((id ∈ x.independents.map Resource.id ∧ x' = x) ∨
          x' = { x with
            independents := x.independents ++ [r]
            items := x.items ++ [nodeLabelItem r.id r.metadata.revision] })) ∨
        (r.payload.kind = .chain ∧ ((id ∈ x.chains.map Resource.id ∧ x' = x) ∨
          x' = { x with
            chains := x.chains ++ [r]
            items := x.items ++ [chainLabelItem r.id r.metadata.revision] })) ∨
        (r.payload.kind = .policyGroup ∧ ((id ∈ x.policies.map Resource.id ∧ x' = x) ∨
          x' = { x with
            policies := x.policies ++ [r]
            items := x.items ++ [policyLabelItem id r.metadata.revision] }))) := by
  unfold addResource at h
  cases hr : resources id with
  | none =>
    rw [hr] at h
    cases h
  | some r =>
    rw [hr] at h
    refine ⟨r, rfl, ?_⟩
    cases hpayload : r.payload with
    | node n =>
      simp only [hpayload] at h
      by_cases hmem : id ∈ x.independents.map Resource.id
      · rw [if_pos hmem] at h
        exact .inl ⟨rfl, .inl ⟨hmem, (Except.ok.inj h).symm⟩⟩
      · rw [if_neg hmem] at h
        exact .inl ⟨rfl, .inr (Except.ok.inj h).symm⟩
    | chain n =>
      simp only [hpayload] at h
      by_cases hmem : id ∈ x.chains.map Resource.id
      · rw [if_pos hmem] at h
        exact .inr (.inl ⟨rfl, .inl ⟨hmem, (Except.ok.inj h).symm⟩⟩)
      · rw [if_neg hmem] at h
        exact .inr (.inl ⟨rfl, .inr (Except.ok.inj h).symm⟩)
    | policyGroup p =>
      simp only [hpayload] at h
      by_cases hmem : id ∈ x.policies.map Resource.id
      · rw [if_pos hmem] at h
        exact .inr (.inr ⟨rfl, .inl ⟨hmem, (Except.ok.inj h).symm⟩⟩)
      · rw [if_neg hmem] at h
        exact .inr (.inr ⟨rfl, .inr (Except.ok.inj h).symm⟩)
    | routingProfile | dnsProfile | ruleSet | subscriptionProfile | clientPreset =>
      simp only [hpayload] at h
      cases h

variable (hkey : ∀ id r, resources id = some r → r.id = id)

include hkey

theorem addResource_sound (h : addResource resources target x id = .ok x')
    (hx : x.Sound resources) : x'.Sound resources := by
  obtain ⟨r, hr, hcases⟩ := addResource_cases h
  obtain rfl : r.id = id := hkey id r hr
  obtain ⟨hkind, ⟨-, rfl⟩ | rfl⟩ | ⟨hkind, ⟨-, rfl⟩ | rfl⟩ | ⟨hkind, ⟨-, rfl⟩ | rfl⟩ := hcases
  · exact hx
  · exact hx.addNode hr hkind
  · exact hx
  · exact hx.addChain hr hkind
  · exact hx
  · exact hx.addPolicy hr hkind

theorem addResource_has (h : addResource resources target x id = .ok x') :
    x'.Has id ∧ ∀ i, x.Has i → x'.Has i := by
  obtain ⟨r, hr, hcases⟩ := addResource_cases h
  obtain rfl : r.id = id := hkey id r hr
  unfold Expansion.Has
  obtain ⟨-, ⟨hmem, rfl⟩ | rfl⟩ | ⟨-, ⟨hmem, rfl⟩ | rfl⟩ | ⟨-, ⟨hmem, rfl⟩ | rfl⟩ := hcases
  · exact ⟨.inl hmem, fun i hi => hi⟩
  · exact ⟨.inl (by simp), fun i hi => hi.imp_left fun h => by simp at h ⊢; exact .inl h⟩
  · exact ⟨.inr (.inl hmem), fun i hi => hi⟩
  · refine ⟨.inr (.inl (by simp)), fun i hi => hi.imp_right (Or.imp_left fun h => ?_)⟩
    simp at h ⊢
    exact .inl h
  · exact ⟨.inr (.inr hmem), fun i hi => hi⟩
  · refine ⟨.inr (.inr (by simp)), fun i hi => hi.imp_right (Or.imp_right fun h => ?_)⟩
    simp at h ⊢
    exact .inl h

/-- Every requested resource is expanded, with its label item. -/
theorem foldlM_addResource {ids : List ID}
    (h : ids.foldlM (addResource resources target) x = .ok x') (hx : x.Sound resources) :
    x'.Sound resources ∧ (∀ i, x.Has i → x'.Has i) ∧ ∀ id ∈ ids, x'.Has id := by
  induction ids generalizing x with
  | nil =>
    cases h
    exact ⟨hx, fun _ hi => hi, fun _ hid => nomatch hid⟩
  | cons id ids ih =>
    rw [foldlM_cons] at h
    obtain ⟨y, hy, h⟩ := of_bind h
    obtain ⟨hsound, hmono, hids⟩ := ih h (addResource_sound hkey hy hx)
    obtain ⟨hid, hxy⟩ := addResource_has hkey hy
    refine ⟨hsound, fun i hi => hmono i (hxy i hi), ?_⟩
    intro i hi
    obtain rfl | hi := mem_cons.mp hi
    · exact hmono i hid
    · exact hids i hi

end

/-- What the graph hands to the emitter of the target's family. -/
def Graph.emitInput (graph : Graph) : EmitInput :=
  { snapshotID := graph.snapshotID
    targetKey := graph.target.key
    independents := graph.independents
    chains := graph.chains
    policies := graph.policies
    finalTag := graph.finalTag
    routing := graph.routing
    dns := graph.dns
    preset := graph.preset }

/-! ## A small snapshot -/

/-- A rule that refuses one domain, and everything else to the node. -/
def smallRouting : RoutingProfile where
  schemaVersion := 1
  rules := [⟨⟨[], ["example.org"], [], [], [], []⟩, .builtin .reject, true, ""⟩]
  final := .resource .node plainNode.id
  domainResolutionMode := .preserveDomain

def smallDNS : DNSProfile where
  schemaVersion := 1
  bootstrap := [⟨"boot", .localDNS, "", 0⟩]
  resolvers := [⟨"system", .localDNS, "", 0, "", "", none⟩]
  rules := [⟨⟨[], ["example.org"], []⟩, "system", true, ""⟩]
  finalResolver := "system"

def smallTarget (family : CoreFamily) : Target :=
  { xrayTarget with coreFamily := family, format := family.format }

/-- The node with a routing profile, a DNS profile and the preset of a family. -/
def smallSnapshot (family : CoreFamily) (routing : RoutingProfile) (dns : DNSProfile) :
    FrozenInputSpec :=
  let routing := smallResource directRouting.id .routingProfile (.routingProfile routing)
  let dns := smallResource "00000000-0000-4000-8000-000000000006" .dnsProfile (.dnsProfile dns)
  let preset := smallResource xrayTarget.clientPresetID .clientPreset (.clientPreset
    ⟨1, family, family.format, ⟨.socks5, presetLoopbackAddress, presetSOCKSPort⟩, ⟨false, "", 0⟩⟩)
  { directSnapshot [plainNode] with
    resources := [plainNode, routing, dns, preset]
    targets := [smallTarget family]
    routingProfile := some routing.ref
    dnsProfile := some dns.ref }

/-- A catalog with one build that can do what a small snapshot needs. -/
def smallCompiler (family : CoreFamily) : Compiler where
  catalog :=
    { adapterVersion := "1"
      builds := [⟨xrayTarget.coreBuildID, family, xrayTarget.coreBuildSHA256,
        ["protocol.shadowsocks", "routing.ordered", "dns.profile", "client_preset"].map
          fun key => (key, .verified)⟩]
      combinations := [⟨"protocol.shadowsocks", "shadowsocks", "native_tcp", "none"⟩] }
  digest _ := String.ofList (List.replicate 64 'a')
  digest_hex _ := by decide
  schema := hostnameSchema
  reports := plainReports

theorem smallSnapshot_routing (family : CoreFamily) (routing : RoutingProfile) (dns : DNSProfile) :
    ∃ ref r, (smallSnapshot family routing dns).routingProfile = some ref ∧
      (smallSnapshot family routing dns).byID ref.resourceID = some r ∧
      r.payload = .routingProfile routing :=
  ⟨_, smallResource directRouting.id .routingProfile (.routingProfile routing), rfl, rfl, rfl⟩

end Compiler

end ProxyLoom
