import ProxyLoom.IR.Resource

/-!
# Frozen inputs

A frozen input is a snapshot of exactly the resources that a publication depends on, with its
members, its targets and its routing and DNS profile. `FrozenInputSpec.validate` says when a
snapshot is closed under references and pins what it names. -/

namespace ProxyLoom.IR

def maxFrozenResources : ℕ := 2000

/-- A target with its build and preset pinned. The overrides are ordered by policy group. -/
structure Target where
  key : String
  coreFamily : CoreFamily
  coreBuildID : ID
  coreBuildSHA256 : String
  adapterVersion : String
  clientPresetID : ID
  clientPresetRevision : ℕ
  format : OutputFormat
  policyOverrides : List PolicyOverride
deriving DecidableEq, Repr

/-- A resource, pinned. -/
structure FrozenRef where
  resourceID : ID
  kind : ResourceKind
  revision : ℕ
  securityEpoch : ℕ
deriving DecidableEq, Repr

/-- The snapshot of a publication. -/
structure FrozenInputSpec where
  schemaVersion : ℕ
  snapshotID : ID
  scopeID : ID
  catalogRevision : ℕ
  securityEpoch : ℕ
  resources : List Resource
  members : List FrozenRef
  targets : List Target
  routingProfile : Option FrozenRef
  dnsProfile : Option FrozenRef
deriving DecidableEq, Repr

def Resource.ref (r : Resource) : FrozenRef :=
  ⟨r.metadata.resourceID, r.metadata.kind, r.metadata.revision, r.metadata.securityEpoch⟩

def FrozenInputSpec.find? (spec : FrozenInputSpec) (id : ID) : Option Resource :=
  spec.resources.find? fun r => r.id = id

def Target.override? (t : Target) (id : ID) : Option PolicyOverride :=
  t.policyOverrides.find? fun o => o.policyGroupID = id

/-! ## Edges -/

def TargetRef.edge : TargetRef → List (ID × ResourceKind)
  | .resource kind id => [(id, kind)]
  | .builtin _ => []

/-- The resources that a resource of the snapshot refers to, each with the kind it has to have. -/
def Payload.edges : Payload → List (ID × ResourceKind)
  | .chain c => c.hops.map fun id => (id, .node)
  | .policyGroup g => g.members.flatMap TargetRef.edge
  | .routingProfile p =>
    p.final.edge ++ p.rules.flatMap fun r =>
      r.action.edge ++ r.routeMatch.ruleSetIDs.map fun id => (id, .ruleSet)
  | .dnsProfile p =>
    p.resolvers.flatMap (fun r => r.outbound.toList.flatMap TargetRef.edge) ++
      p.rules.flatMap fun r => r.domainMatch.ruleSetIDs.map fun id => (id, .ruleSet)
  | _ => []

def FrozenInputSpec.edgeOk (spec : FrozenInputSpec) (edge : ID × ResourceKind) : Bool :=
  (spec.find? edge.1).any fun r => r.metadata.kind = edge.2

/-- The rule sets of a DNS rule hold domains only. -/
def FrozenInputSpec.dnsRulesOk (spec : FrozenInputSpec) (p : DNSProfile) : Bool :=
  p.rules.all fun rule => rule.domainMatch.ruleSetIDs.all fun id =>
    match (spec.find? id).map Resource.payload with
    | some (.ruleSet s) => s.entries.all fun
      | .domain _ _ => true
      | .cidr _ => false
    | _ => true

def FrozenInputSpec.payloadOk (spec : FrozenInputSpec) (payload : Payload) : Bool :=
  payload.edges.all spec.edgeOk &&
    match payload with
    | .routingProfile p => p.domainResolutionMode ≠ .resolveForIPRules || spec.dnsProfile.isSome
    | .dnsProfile p => spec.dnsRulesOk p
    | _ => true

/-! ## Reachability -/

def FrozenInputSpec.roots (spec : FrozenInputSpec) : List ID :=
  spec.routingProfile.toList.map FrozenRef.resourceID ++
    spec.dnsProfile.toList.map FrozenRef.resourceID ++
    (spec.targets.map Target.clientPresetID).filter (fun id => (spec.find? id).isSome) ++
    spec.members.map FrozenRef.resourceID

/-- The resources within `n` references of the given ones. -/
def FrozenInputSpec.within (spec : FrozenInputSpec) : ℕ → List ID → List ID
  | 0, ids => ids
  | n + 1, ids =>
    spec.within n (ids ∪ ids.flatMap fun id =>
      ((spec.find? id).map fun r => r.payload.edges.map Prod.fst).getD [])

/-- What the roots reach; no path without repetition is longer than the snapshot. -/
def FrozenInputSpec.reachable (spec : FrozenInputSpec) : List ID :=
  spec.within spec.resources.length spec.roots

/-! ## Validity -/

section
variable (schema : Schema)

def validSHA256 (s : String) : Bool := s.length = 64 && s.toList.all Text.isLowerHex

def Target.validate (t : Target) : Bool :=
  validKey t.key && ID.validate t.coreBuildID && validSHA256 t.coreBuildSHA256 &&
    validText t.adapterVersion && ID.validate t.clientPresetID &&
    validRevision t.clientPresetRevision && t.format = t.coreFamily.format &&
    t.policyOverrides.length ≤ 200 && t.policyOverrides.all (PolicyOverride.validate schema) &&
    decide (t.policyOverrides.map PolicyOverride.policyGroupID).Nodup

def FrozenInputSpec.pins (spec : FrozenInputSpec) (ref : FrozenRef) : Bool :=
  (spec.find? ref.resourceID).any fun r => r.ref = ref

def FrozenInputSpec.presetOk (spec : FrozenInputSpec) (t : Target) : Bool :=
  (spec.find? t.clientPresetID).all fun r =>
    match r.payload with
    | .clientPreset p => r.metadata.revision = t.clientPresetRevision &&
      p.coreFamily = t.coreFamily && p.format = t.format
    | _ => false

def FrozenInputSpec.overrideOk (spec : FrozenInputSpec) (o : PolicyOverride) : Bool :=
  spec.reachable.contains o.policyGroupID &&
    (spec.find? o.policyGroupID).any fun r => (mergePolicyOverride schema r o).isSome

def sameBuild (a b : Target) : Bool :=
  a.coreBuildID ≠ b.coreBuildID ||
    (a.coreFamily = b.coreFamily && a.coreBuildSHA256 = b.coreBuildSHA256)

def FrozenRef.memberKind (ref : FrozenRef) : Bool :=
  ref.kind = .node || ref.kind = .chain || ref.kind = .policyGroup

def FrozenInputSpec.validate (spec : FrozenInputSpec) : Bool :=
  spec.schemaVersion = IR.schemaVersion && ID.validate spec.snapshotID &&
    ID.validate spec.scopeID && validRevision spec.catalogRevision &&
    validRevision spec.securityEpoch &&
    -- resources
    spec.resources ≠ [] && spec.resources.length ≤ maxFrozenResources &&
    spec.resources.all (fun r => r.validate schema && r.metadata.scopeID = spec.scopeID &&
      r.metadata.enabled && spec.payloadOk r.payload && spec.reachable.contains r.id) &&
    decide (spec.resources.map Resource.id).Nodup &&
    -- roots
    spec.members ≠ [] && spec.members.length ≤ 2000 &&
    spec.members.all (fun m => m.memberKind && spec.pins m) &&
    decide (spec.members.map FrozenRef.resourceID).Nodup &&
    spec.routingProfile.all (fun ref => ref.kind = .routingProfile && spec.pins ref) &&
    spec.dnsProfile.all (fun ref => ref.kind = .dnsProfile && spec.pins ref) &&
    -- targets
    spec.targets ≠ [] && spec.targets.all (fun t => t.validate schema && spec.presetOk t &&
      t.policyOverrides.all (spec.overrideOk schema) && spec.targets.all (sameBuild t)) &&
    decide (spec.targets.map Target.key).Nodup

/-! ## Construction -/

/-- Members, resources and targets are sets, kept in the order of their IDs and keys. -/
def FrozenInputSpec.normalize (spec : FrozenInputSpec) : FrozenInputSpec :=
  { spec with
    resources := (spec.resources.insertionSort fun a b => a.id ≤ b.id).map fun r =>
      { r with metadata := { r.metadata with tags := r.metadata.tags.insertionSort (· ≤ ·) } }
    members := spec.members.insertionSort fun a b => a.resourceID ≤ b.resourceID
    targets := spec.targets.insertionSort fun a b => a.key ≤ b.key }

/-- Subscription profiles are never part of a snapshot. -/
def Payload.frozen : Payload → Bool
  | .subscriptionProfile _ => false
  | _ => true

def newFrozenInput (spec : FrozenInputSpec) : Option FrozenInputSpec :=
  if spec.resources.all (fun r => r.payload.frozen) && spec.validate schema then
    some spec.normalize
  else none

end

end ProxyLoom.IR
