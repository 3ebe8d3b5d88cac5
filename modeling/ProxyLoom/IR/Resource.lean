import ProxyLoom.IR.Routing

/-!
# Resources

The typed payloads of the catalog besides nodes, with the checks each passes, and the metadata that
every resource carries. Single-valued fields of the contract (a failure policy, a platform, a review
status) are left out.
-/

namespace ProxyLoom.IR

def maxInt64 : ℕ := 2 ^ 63 - 1

inductive CoreFamily where
  | xray | singBox | mihomo
deriving DecidableEq, Repr

inductive OutputFormat where
  | xrayJSON | singBoxJSON | mihomoYAML
deriving DecidableEq, Repr

/-- The one format a family's configurations are written in. -/
def CoreFamily.format : CoreFamily → OutputFormat
  | .xray => .xrayJSON
  | .singBox => .singBoxJSON
  | .mihomo => .mihomoYAML

/-! ## Chains and policy groups -/

/-- Two nodes, one behind the other. -/
structure Chain where
  schemaVersion : ℕ
  hops : List ID
deriving DecidableEq, Repr

def Chain.validate (c : Chain) : Bool :=
  c.schemaVersion = IR.schemaVersion && c.hops.length = 2 && decide c.hops.Nodup &&
    c.hops.all ID.validate

inductive PolicyStrategy where
  | fixed | manualSelect | latencyBest | roundRobin
deriving DecidableEq, Repr

structure PolicyHealthCheck where
  enabled : Bool
  url : String
  intervalMS : Option ℕ
  timeoutMS : Option ℕ
  toleranceMS : Option ℕ
deriving DecidableEq, Repr

/-- Members of which one is used. -/
structure PolicyGroup where
  schemaVersion : ℕ
  strategy : PolicyStrategy
  members : List TargetRef
  defaultMember : TargetRef
  healthCheck : PolicyHealthCheck
deriving DecidableEq, Repr

/-- What a target may change of a policy group: never its members. -/
structure PolicyOverride where
  policyGroupID : ID
  strategy : Option PolicyStrategy
  defaultMember : Option TargetRef
  healthCheck : Option PolicyHealthCheck
deriving DecidableEq, Repr

/-- A reference that a policy group may have as a member. -/
def TargetRef.validMember : TargetRef → Bool
  | .resource kind id => (kind = .node || kind = .chain) && ID.validate id
  | .builtin _ => false

/-- The resource a member names, which is all that tells members apart. -/
def TargetRef.resourceID : TargetRef → Option ID
  | .resource _ id => some id
  | .builtin _ => none

section
variable (schema : Schema)

def PolicyHealthCheck.validate (h : PolicyHealthCheck) : Bool :=
  (h.url = "" || (h.url.length ≤ 2048 && schema.httpsURL h.url)) &&
    h.intervalMS.all (fun n => 1000 ≤ n && n ≤ 86400000) &&
    h.timeoutMS.all (fun n => 100 ≤ n && n ≤ 60000) &&
    h.toleranceMS.all (fun n => n ≤ 60000) &&
    (!h.enabled ||
      (h.url ≠ "" && h.intervalMS.isSome && h.timeoutMS.isSome && h.toleranceMS.isSome))

def PolicyGroup.validate (g : PolicyGroup) : Bool :=
  g.schemaVersion = IR.schemaVersion && g.members ≠ [] && g.members.length ≤ 200 &&
    g.members.all TargetRef.validMember && g.defaultMember.validMember &&
    g.healthCheck.validate schema && decide (g.members.map TargetRef.resourceID).Nodup &&
    g.members.contains g.defaultMember

def PolicyOverride.validate (o : PolicyOverride) : Bool :=
  ID.validate o.policyGroupID &&
    (o.strategy.isSome || o.defaultMember.isSome || o.healthCheck.isSome) &&
    o.defaultMember.all TargetRef.validMember &&
    o.healthCheck.all (PolicyHealthCheck.validate schema)

end

/-! ## DNS profiles -/

inductive DNSResolverKind where
  | localDNS | udp | https
deriving DecidableEq, Repr

structure BootstrapResolver where
  resolverID : String
  kind : DNSResolverKind
  address : String
  port : ℕ
deriving DecidableEq, Repr

/-- Only a UDP resolver has an address and a port, only an HTTPS resolver a URL and a bootstrap
resolver; each remote resolver has an outbound. -/
structure DNSResolver where
  resolverID : String
  kind : DNSResolverKind
  address : String
  port : ℕ
  url : String
  bootstrapResolverID : String
  outbound : Option TargetRef
deriving DecidableEq, Repr

structure DNSRule where
  domainMatch : DomainMatch
  resolverID : String
  enabled : Bool
  comment : String
deriving DecidableEq, Repr

/-- Resolvers, and the rules that choose one. -/
structure DNSProfile where
  schemaVersion : ℕ
  bootstrap : List BootstrapResolver
  resolvers : List DNSResolver
  rules : List DNSRule
  finalResolver : String
deriving DecidableEq, Repr

section
variable (schema : Schema)

def validAddress (s : String) : Bool := schema.ipv4 s || schema.ipv6 s

def BootstrapResolver.validate (b : BootstrapResolver) : Bool :=
  validKey b.resolverID &&
    match b.kind with
    | .localDNS => b.address = "" && b.port = 0
    | .udp => validAddress schema b.address && validPort b.port
    | .https => false

def DNSResolver.validate (r : DNSResolver) : Bool :=
  validKey r.resolverID && r.outbound.all TargetRef.validate &&
    match r.kind with
    | .localDNS =>
      r.address = "" && r.port = 0 && r.url = "" && r.bootstrapResolverID = "" &&
        r.outbound.isNone
    | .udp =>
      validAddress schema r.address && validPort r.port && r.url = "" &&
        r.bootstrapResolverID = "" && r.outbound.isSome
    | .https =>
      r.address = "" && r.port = 0 && r.url.length ≤ 2048 && schema.httpsURL r.url &&
        validKey r.bootstrapResolverID && r.outbound.isSome

def DNSRule.validate (r : DNSRule) : Bool :=
  r.domainMatch.validate schema && validKey r.resolverID && validComment r.comment

/-- A resolver whose bootstrap is another resolver is refused because it is not in `bootstrap`, so
the source's search for cycles among such references adds no further refusal. -/
def DNSProfile.validate (p : DNSProfile) : Bool :=
  p.schemaVersion = IR.schemaVersion && p.bootstrap ≠ [] && p.bootstrap.length ≤ 32 &&
    p.resolvers ≠ [] && p.resolvers.length ≤ 32 && p.rules.length ≤ 1000 &&
    p.bootstrap.all (BootstrapResolver.validate schema) &&
    p.resolvers.all (DNSResolver.validate schema) && p.rules.all (DNSRule.validate schema) &&
    decide (p.bootstrap.map BootstrapResolver.resolverID ++
      p.resolvers.map DNSResolver.resolverID).Nodup &&
    p.resolvers.all (fun r => r.kind ≠ .https ||
      (p.bootstrap.map BootstrapResolver.resolverID).contains r.bootstrapResolverID) &&
    (p.resolvers.map DNSResolver.resolverID).contains p.finalResolver &&
    p.rules.all fun r => (p.resolvers.map DNSResolver.resolverID).contains r.resolverID

end

/-! ## Client presets and subscription profiles -/

inductive ListenerProtocol where
  | socks5 | http | mixed
deriving DecidableEq, Repr

structure LocalListener where
  protocol : ListenerProtocol
  listen : String
  port : ℕ
deriving DecidableEq, Repr

structure ControlAPIPreset where
  enabled : Bool
  listen : String
  port : ℕ
deriving DecidableEq, Repr

/-- The local side of a client. -/
structure ClientPreset where
  schemaVersion : ℕ
  coreFamily : CoreFamily
  format : OutputFormat
  localListener : LocalListener
  controlAPI : ControlAPIPreset
deriving DecidableEq, Repr

def presetLoopbackAddress : String := "127.0.0.1"

def presetSOCKSPort : ℕ := 1080

/-- The reviewed control port of a family, if it has one. -/
def CoreFamily.controlPort : CoreFamily → Option ℕ
  | .xray => none
  | .singBox => some 17812
  | .mihomo => some 17813

def ClientPreset.validate (p : ClientPreset) : Bool :=
  p.schemaVersion = IR.schemaVersion && p.format = p.coreFamily.format &&
    p.localListener = ⟨.socks5, presetLoopbackAddress, presetSOCKSPort⟩ &&
    if p.controlAPI.enabled then
      p.controlAPI.listen = presetLoopbackAddress &&
        p.coreFamily.controlPort = some p.controlAPI.port
    else p.controlAPI.listen = "" && p.controlAPI.port = 0

structure TagSelector where
  allTags : List String
  anyTags : List String
  noneTags : List String
deriving DecidableEq, Repr

/-- An empty selector selects nothing. -/
def TagSelector.matchesTags (s : TagSelector) (tags : List String) : Bool :=
  (s.allTags ≠ [] || s.anyTags ≠ [] || s.noneTags ≠ []) && s.allTags.all tags.contains &&
    s.noneTags.all (fun tag => !tags.contains tag) &&
    (s.anyTags = [] || s.anyTags.any tags.contains)

structure SubscriptionMembers where
  includeIDs : List ID
  excludeIDs : List ID
  selector : TagSelector
deriving DecidableEq, Repr

structure ClientParameters where
  localPort : Option ℕ
  controlAPIEnabled : Option Bool
deriving DecidableEq, Repr

structure SubscriptionTarget where
  key : String
  coreBuildID : ID
  clientPresetID : ID
  format : OutputFormat
  policyOverrides : List PolicyOverride
  clientParameters : Option ClientParameters
  enabled : Option Bool
deriving DecidableEq, Repr

/-- What a subscription publishes, for which clients. -/
structure SubscriptionProfile where
  schemaVersion : ℕ
  members : SubscriptionMembers
  routingProfileID : ID
  dnsProfileID : ID
  targets : List SubscriptionTarget
deriving DecidableEq, Repr

def SubscriptionTarget.isEnabled (t : SubscriptionTarget) : Bool := t.enabled.getD true

def SubscriptionProfile.enabledKeys (p : SubscriptionProfile) : List String :=
  (p.targets.filter SubscriptionTarget.isEnabled).map SubscriptionTarget.key

def TagSelector.validate (s : TagSelector) : Bool :=
  [s.allTags, s.anyTags, s.noneTags].all
    (validSet 100 fun tag => 1 ≤ tag.length && tag.length ≤ 64)

def ClientParameters.validate (p : ClientParameters) : Bool :=
  (p.localPort.isSome || p.controlAPIEnabled.isSome) && p.localPort.all validPort

def SubscriptionTarget.validate (schema : Schema) (t : SubscriptionTarget) : Bool :=
  validKey t.key && ID.validate t.coreBuildID && ID.validate t.clientPresetID &&
    t.policyOverrides.length ≤ 200 && t.policyOverrides.all (PolicyOverride.validate schema) &&
    decide (t.policyOverrides.map PolicyOverride.policyGroupID).Nodup &&
    t.clientParameters.all ClientParameters.validate

def SubscriptionProfile.validate (schema : Schema) (p : SubscriptionProfile) : Bool :=
  p.schemaVersion = IR.schemaVersion && validSet 10000 ID.validate p.members.includeIDs &&
    validSet 10000 ID.validate p.members.excludeIDs && p.members.selector.validate &&
    ID.validate p.routingProfileID && ID.validate p.dnsProfileID && p.targets ≠ [] &&
    p.targets.length ≤ 32 && p.targets.all (SubscriptionTarget.validate schema) &&
    decide (p.targets.map SubscriptionTarget.key).Nodup

/-! ## Resources -/

/-- What all resources have. -/
structure Metadata where
  resourceID : ID
  scopeID : ID
  kind : ResourceKind
  revision : ℕ
  schemaVersion : ℕ
  name : String
  tags : List String
  enabled : Bool
  securityEpoch : ℕ
deriving DecidableEq, Repr

inductive Payload where
  | node (n : Node)
  | chain (c : Chain)
  | policyGroup (g : PolicyGroup)
  | routingProfile (p : RoutingProfile)
  | dnsProfile (p : DNSProfile)
  | ruleSet (s : RuleSet)
  | subscriptionProfile (p : SubscriptionProfile)
  | clientPreset (p : ClientPreset)
deriving DecidableEq, Repr

/-- A resource of the catalog. -/
structure Resource where
  metadata : Metadata
  payload : Payload
deriving DecidableEq, Repr

def Resource.id (r : Resource) : ID := r.metadata.resourceID

def Payload.kind : Payload → ResourceKind
  | .node _ => .node
  | .chain _ => .chain
  | .policyGroup _ => .policyGroup
  | .routingProfile _ => .routingProfile
  | .dnsProfile _ => .dnsProfile
  | .ruleSet _ => .ruleSet
  | .subscriptionProfile _ => .subscriptionProfile
  | .clientPreset _ => .clientPreset

def validRevision (n : ℕ) : Bool := 1 ≤ n && n ≤ maxInt64

def Metadata.validate (m : Metadata) : Bool :=
  ID.validate m.resourceID && ID.validate m.scopeID && validRevision m.revision &&
    m.schemaVersion = IR.schemaVersion && validText m.name && decide m.tags.Nodup &&
    m.tags.all validText && validRevision m.securityEpoch

def Payload.validate (schema : Schema) : Payload → Bool
  | .node n => n.validate schema.toFormats
  | .chain c => c.validate
  | .policyGroup g => g.validate schema
  | .routingProfile p => p.validate schema
  | .dnsProfile p => p.validate schema
  | .ruleSet s => s.validate schema
  | .subscriptionProfile p => p.validate schema
  | .clientPreset p => p.validate

def Resource.validate (schema : Schema) (r : Resource) : Bool :=
  r.metadata.kind = r.payload.kind && r.payload.validate schema && r.metadata.validate

theorem kind_of_validate {schema : Schema} {r : Resource} (h : r.validate schema = true) :
    r.metadata.kind = r.payload.kind := by
  unfold Resource.validate at h
  simp only [Bool.and_eq_true, decide_eq_true_eq] at h
  exact h.1.1

def PolicyOverride.apply (o : PolicyOverride) (g : PolicyGroup) : PolicyGroup :=
  { g with
    strategy := o.strategy.getD g.strategy
    defaultMember := o.defaultMember.getD g.defaultMember
    healthCheck := o.healthCheck.getD g.healthCheck }

/-- The policy group a target sees, if its override is valid for the group. -/
def mergePolicyOverride (schema : Schema) (base : Resource) (o : PolicyOverride) :
    Option PolicyGroup :=
  match base.payload with
  | .policyGroup g =>
    if base.validate schema && base.metadata.resourceID = o.policyGroupID && o.validate schema &&
        (o.apply g).validate schema then
      some (o.apply g)
    else none
  | _ => none

end ProxyLoom.IR
