import ProxyLoom.Compiler.Condition
import ProxyLoom.Compiler.Label

/-!
# Policies, routing and DNS of a graph

`prepareOrchestration` gives each policy group its own instances of its members, resolves the
targets of the routing and DNS profiles to tags, and turns their enabled rules into conditions.
-/

namespace ProxyLoom.Compiler

open IR Adapter

/-! ## The graph -/

inductive CapabilityState where
  | unverified | unsupported | verified
deriving DecidableEq, Repr

structure Build where
  id : ID
  family : CoreFamily
  binarySHA256 : String
  capabilities : List (String × CapabilityState)
deriving DecidableEq, Repr

/-- What the emitters get. -/
structure Graph where
  snapshotID : ID
  scopeID : ID
  catalogRevision : ℕ
  securityEpoch : ℕ
  target : Target
  build : Build
  capabilityState : CapabilityState
  independents : List IndependentOutbound
  chains : List ChainInstance
  policies : List PolicyInstance
  finalTag : String
  routing : Option RoutingInput
  dns : Option DNSInput
  preset : Option ClientPreset
  ruleSets : List FrozenRef
  resources : List FrozenRef
  requiredKeys : List String
  unverifiedKeys : List String
deriving Repr

/-- What is known before the policies are expanded: the resources as the target sees them, the
labelled outbounds and chains, and the policy groups in use with their tags. -/
structure Base where
  spec : FrozenInputSpec
  target : Target
  build : Build
  resources : Resources
  independents : List IndependentOutbound
  chains : List ChainInstance
  policies : List Resource
  labels : Labels

namespace Base

variable (base : Base)

def fail (code : DiagnosticCode) (path : String) (id : ID) : List Diagnostic :=
  [compileIssue code path base.target.key id]

def presetResource : Option Resource := base.resources base.target.clientPresetID

def controlled : Bool :=
  base.presetResource.any fun r =>
    match r.payload with
    | .clientPreset p => p.controlAPI.enabled
    | _ => false

def policyTag (r : Resource) : String :=
  (base.labels (policyMaterial r.id r.metadata.revision)).headD ""

/-- The tag of a resource. -/
def tags (id : ID) : String :=
  match base.policies.find? fun r => r.id = id with
  | some r => base.policyTag r
  | none =>
    match base.chains.find? fun c => c.resourceID = id with
    | some c => c.tagH2
    | none =>
      match base.independents.find? fun o => o.resource.id = id with
      | some o => o.tag
      | none => ""

/-- The tag that a rule routes to. -/
def resolve : TargetRef → String
  | .builtin .direct => directTag
  | .builtin .reject => blockTag
  | .resource _ id => base.tags id

/-! ## Policy groups -/

def manualSelectAction : String :=
  "The approved file preset has no runtime selection control API; use an explicit fixed strategy override."

/-- The strategies and health checks that the family can run. -/
def checkPolicy (r : Resource) (p : PolicyGroup) : Except (List Diagnostic) Unit :=
  let family := base.target.coreFamily
  let h := p.healthCheck
  if p.strategy = .manualSelect ∧ (base.controlled = false ∨ family = .xray) then
    .error [{ compileIssue .capabilityUnsupported "/payload/strategy" base.target.key r.id with
      suggestedAction := manualSelectAction }]
  else if p.strategy = .roundRobin ∧ family = .singBox then
    .error (base.fail .capabilityUnsupported "/payload/strategy" r.id)
  else if p.strategy = .roundRobin ∧ family = .mihomo ∧ h.enabled = false then
    .error (base.fail .compileUnmappedField "/payload/health_check/enabled" r.id)
  else if (p.strategy = .fixed ∨ p.strategy = .manualSelect) ∧ h.enabled = true then
    .error (base.fail .compileUnmappedField "/payload/health_check/enabled" r.id)
  else if h.enabled = false ∧ (h.url ≠ "" ∨ h.intervalMS ≠ none ∨ h.timeoutMS ≠ none ∨
      h.toleranceMS ≠ none) then
    .error (base.fail .compileUnmappedField "/payload/health_check" r.id)
  else if p.strategy = .latencyBest ∧ h.enabled = false then
    .error (base.fail .compileUnmappedField "/payload/health_check/enabled" r.id)
  else if h.enabled = true ∧ family ≠ .mihomo then
    .error (base.fail .compileUnmappedField "/payload/health_check/timeout_ms" r.id)
  else .ok ()

/-- The tags of a member's own instance start with its group's tag and its number. -/
def memberPrefix (tag : String) (index : ℕ) : String := tag ++ "_m" ++ toString (index + 1)

def TargetRef.id (ref : TargetRef) : ID := ref.resourceID.getD ""

def chainInstance (r : Resource) (c : Chain) (tagH1 tagH2 : String) : ChainInstance :=
  { resourceID := r.id, revision := r.metadata.revision, tagH1, tagH2,
    hop1 := base.resources (c.hops.getD 0 ""), hop2 := base.resources (c.hops.getD 1 "") }

def memberOutbounds (tag : String) (members : List TargetRef) : List IndependentOutbound :=
  members.zipIdx.filterMap fun (member, index) =>
    match base.resources (TargetRef.id member) with
    | some r =>
      match r.payload with
      | .node _ => some ⟨memberPrefix tag index ++ "_n", r⟩
      | _ => none
    | none => none

def memberChains (tag : String) (members : List TargetRef) : List ChainInstance :=
  members.zipIdx.filterMap fun (member, index) =>
    match base.resources (TargetRef.id member) with
    | some r =>
      match r.payload with
      | .chain c => some (base.chainInstance r c (memberPrefix tag index ++ "_h1")
        (memberPrefix tag index ++ "_h2"))
      | _ => none
    | none => none

/-- The tags that a group has for its members. -/
def memberTags (tag : String) (members : List TargetRef) : List (ID × String) :=
  members.zipIdx.filterMap fun (member, index) =>
    match base.resources (TargetRef.id member) with
    | some r =>
      match r.payload with
      | .node _ => some (TargetRef.id member, memberPrefix tag index ++ "_n")
      | .chain _ => some (TargetRef.id member, memberPrefix tag index ++ "_h2")
      | _ => none
    | none => none

def memberTag (tag : String) (members : List TargetRef) (member : TargetRef) : String :=
  (lookup (base.memberTags tag members).reverse (TargetRef.id member)).getD ""

/-- The default is the first candidate at startup. -/
def policyInstance (r : Resource) (p : PolicyGroup) : PolicyInstance :=
  let tag := base.policyTag r
  let default := base.memberTag tag p.members p.defaultMember
  { tag, resourceID := r.id, strategy := p.strategy, default, health := p.healthCheck,
    members := default :: (p.members.map (base.memberTag tag p.members)).filter
      fun member => member ≠ default }

/-- The policy groups, by ID. -/
def groups : List (Resource × PolicyGroup) :=
  (base.policies.insertionSort fun a b => a.id ≤ b.id).filterMap fun r =>
    match r.payload with
    | .policyGroup p => some (r, p)
    | _ => none

/-! ## Rules -/

/-- The rules of a profile so far, with the entries counted and the rule sets used. -/
structure RuleState where
  normalizedRules : ℕ
  ruleSets : List FrozenRef
  rules : List RouteRule

def ruleSetRef (id : ID) : FrozenRef :=
  match base.resources id with
  | some r => ⟨id, .ruleSet, r.metadata.revision, r.metadata.securityEpoch⟩
  | none => ⟨id, .ruleSet, 0, 0⟩

/-- The entries of a match and of the rule sets it names. -/
def entryCount (m : RouteMatch) : ℕ :=
  m.domainExact.length + m.domainSuffix.length + m.ipCIDRs.length + m.destinationPorts.length +
    m.network.length +
    (m.ruleSetIDs.map fun id =>
      ((base.resources.ruleSet id).map fun s => s.entries.length).getD 0).sum

/-- Compile one rule, within the limit. -/
def addRule (dns : Bool) (resourceID : ID) (st : RuleState) (rule : RouteMatch × String × ℕ) :
    Except (List Diagnostic) RuleState :=
  let (m, target, index) := rule
  let path := "/payload/rules/" ++ toString index
  let count := st.normalizedRules + max 1 (base.entryCount m)
  if maxRules < count then .error (base.fail .inputLimitExceeded path resourceID)
  else
    match routeCondition m base.resources dns with
    | .error _ =>
      .error (base.fail .compileUnmappedField (path ++ "/match/rule_set_ids") resourceID)
    | .ok condition =>
      .ok ⟨count, st.ruleSets ++ m.ruleSetIDs.map base.ruleSetRef,
        st.rules ++ [⟨condition, target, path⟩]⟩

def routingRules (p : RoutingProfile) : List (RouteMatch × String × ℕ) :=
  (p.rules.zipIdx.filter fun (rule, _) => rule.enabled).map fun (rule, index) =>
    (rule.routeMatch, base.resolve rule.action, index)

def dnsRules (p : DNSProfile) : List (RouteMatch × String × ℕ) :=
  (p.rules.zipIdx.filter fun (rule, _) => rule.enabled).map fun (rule, index) =>
    (rule.domainMatch.route, rule.resolverID, index)

/-- The tag of each resolver that has an outbound. A UDP resolver goes out directly. -/
def addResolver (resourceID : ID) (tags : List (String × String)) (entry : DNSResolver × ℕ) :
    Except (List Diagnostic) (List (String × String)) :=
  let (resolver, index) := entry
  match resolver.outbound with
  | none => .ok tags
  | some ref =>
    if resolver.kind = .udp ∧ base.resolve ref ≠ directTag then
      .error (base.fail .compileUnmappedField
        ("/payload/resolvers/" ++ toString index ++ "/outbound") resourceID)
    else .ok (setKey tags resolver.resolverID (base.resolve ref))

/-- The resource that a reference of the snapshot names, with its profile. -/
def routingProfile : Option (Resource × RoutingProfile) :=
  match base.spec.routingProfile.bind fun ref => base.resources ref.resourceID with
  | some r =>
    match r.payload with
    | .routingProfile p => some (r, p)
    | _ => none
  | none => none

def dnsProfile : Option (Resource × DNSProfile) :=
  match base.spec.dnsProfile.bind fun ref => base.resources ref.resourceID with
  | some r =>
    match r.payload with
    | .dnsProfile p => some (r, p)
    | _ => none
  | none => none

def routingInput (st : RuleState) :
    Except (List Diagnostic) (RuleState × Option RoutingInput × String) :=
  match base.routingProfile with
  | none => .ok (st, none, "")
  | some (r, p) => do
    let st ← (base.routingRules p).foldlM (base.addRule false r.id) { st with rules := [] }
    .ok (st, some ⟨r.id, p.domainResolutionMode, st.rules⟩, base.resolve p.final)

def dnsInput (st : RuleState) : Except (List Diagnostic) (RuleState × Option DNSInput) :=
  match base.dnsProfile with
  | none => .ok (st, none)
  | some (r, p) => do
    let tags ← p.resolvers.zipIdx.foldlM (base.addResolver r.id) []
    let st ← (dnsRules p).foldlM (base.addRule true r.id) { st with rules := [] }
    .ok (st, some ⟨r.id, p, tags, st.rules⟩)

/-- An embedded preset comes with both profiles, and nothing is routed without one. -/
def presetInput (routing : Option RoutingInput) (dns : Option DNSInput)
    (policies : List PolicyInstance) : Except (List Diagnostic) (Option ClientPreset) :=
  let presetID := base.target.clientPresetID
  match base.presetResource with
  | some r =>
    match r.payload with
    | .clientPreset p =>
      if r.metadata.revision ≠ base.target.clientPresetRevision ∨
          p.coreFamily ≠ base.target.coreFamily ∨ p.format ≠ base.target.format then
        .error (base.fail .compileTargetMismatch "/client_preset_id" presetID)
      else if dns.isNone then .error (base.fail .referenceMissing "/dns_profile" r.id)
      else if routing.isNone then .error (base.fail .referenceMissing "/routing_profile" r.id)
      else .ok (some p)
    | _ => .error (base.fail .compileTargetMismatch "/client_preset_id" presetID)
  | none =>
    if routing.isSome ∨ dns.isSome ∨ policies ≠ [] then
      .error (base.fail .referenceMissing "/client_preset_id" presetID)
    else .ok none

/-- Drops the references that follow one to the same resource. -/
def compactAfter : ID → List FrozenRef → List FrozenRef
  | _, [] => []
  | id, ref :: refs =>
    if ref.resourceID = id then compactAfter id refs else ref :: compactAfter ref.resourceID refs

/-- The references of the rule sets in use, in order and without repetitions. -/
def compactRefs : List FrozenRef → List FrozenRef
  | [] => []
  | ref :: refs => ref :: compactAfter ref.resourceID refs

/-- Groups, rules and resolvers over the compiled base. -/
def prepareOrchestration : Except (List Diagnostic) Graph := do
  base.groups.forM fun (r, p) => base.checkPolicy r p
  let instances := base.groups.map fun (r, p) => base.policyInstance r p
  let policies := instances.insertionSort fun a b => a.tag ≤ b.tag
  let (st, routing, finalTag) ← base.routingInput ⟨0, [], []⟩
  let (st, dns) ← base.dnsInput st
  let preset ← base.presetInput routing dns policies
  .ok
    { snapshotID := base.spec.snapshotID
      scopeID := base.spec.scopeID
      catalogRevision := base.spec.catalogRevision
      securityEpoch := base.spec.securityEpoch
      target := base.target
      build := base.build
      capabilityState := .unverified
      independents := base.independents ++ base.groups.flatMap fun (r, p) =>
        base.memberOutbounds (base.policyTag r) p.members
      chains := base.chains ++ base.groups.flatMap fun (r, p) =>
        base.memberChains (base.policyTag r) p.members
      policies, finalTag, routing, dns, preset
      ruleSets := compactRefs (st.ruleSets.insertionSort fun a b => a.resourceID ≤ b.resourceID)
      resources := (base.spec.resources.map Resource.ref).insertionSort
        fun a b => a.resourceID ≤ b.resourceID
      requiredKeys := []
      unverifiedKeys := [] }

end Base

end ProxyLoom.Compiler
