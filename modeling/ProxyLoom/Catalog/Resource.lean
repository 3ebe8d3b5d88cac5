import ProxyLoom.IR.Diagnostic
import ProxyLoom.IR.Resource
import ProxyLoom.Lib.Result

/-!
# Revisions of a resource

How a resource is created, edited, revoked and deleted. Every change raises the revision; changes
that rotate a credential, disable, revoke or delete raise the security epoch as well.
-/

namespace ProxyLoom.Catalog

open IR

inductive CatalogError where
  | notFound | revisionConflict | invalidReference | invalidInput | unavailable | crypto
  | idempotencyConflict
  | diagnostics (d : List Diagnostic)
deriving DecidableEq, Repr

/-- The fields of a resource that a caller sets. -/
structure Input where
  name : String
  tags : List String
  enabled : Bool
  payload : Payload
deriving DecidableEq, Repr

/-- The resource as its canonical bytes decode: the tags are a set and kept in order. -/
def sortTags (r : Resource) : Resource :=
  { r with metadata := { r.metadata with tags := r.metadata.tags.insertionSort (· ≤ ·) } }

def originOk : Payload → Bool
  | .node n => n.origin.all Origin.validate
  | _ => true

/-- A resource as it is stored. -/
def canonical (schema : Schema) (r : Resource) : Except CatalogError Resource :=
  if !(sortTags r).validate schema then .error .invalidInput
  else if !originOk r.payload then .error .invalidReference
  else .ok (sortTags r)

/-- The first revision of a resource. -/
def newResource (schema : Schema) (id scope : ID) (input : Input) :
    Except CatalogError Resource :=
  if input.payload.kind = .clientPreset then .error .invalidInput
  else
    canonical schema
      ⟨⟨id, scope, input.payload.kind, 1, schemaVersion, input.name, input.tags, input.enabled, 1⟩,
        input.payload⟩

/-- The REALITY credentials of a node: public key and short ID. -/
def realityCredentials (n : Node) : Option (Secret × Secret) :=
  match n.security with
  | .reality r => some (r.publicKey, r.shortID)
  | _ => none

/-- The edit rotates a credential. REALITY credentials are part of the security, not of the
authentication. -/
def authChanged : Payload → Payload → Bool
  | .node previous, .node current =>
    previous.auth ≠ current.auth || realityCredentials previous ≠ realityCredentials current
  | _, _ => false

/-- The resource after an edit, before its epoch is decided. -/
def edited (old : Resource) (input : Input) : Resource where
  metadata :=
    { old.metadata with
      revision := old.metadata.revision + 1
      name := input.name
      tags := input.tags
      enabled := input.enabled }
  payload := input.payload

def bumpEpoch (r : Resource) : Resource :=
  { r with metadata := { r.metadata with securityEpoch := r.metadata.securityEpoch + 1 } }

def revokes (old : Resource) (input : Input) : Bool :=
  authChanged old.payload input.payload || (old.metadata.enabled && !input.enabled)

/-- The edited resource with its epoch, unless the epoch cannot be raised. -/
def withEpoch (old : Resource) (input : Input) : Except CatalogError Resource :=
  if revokes old input then
    if old.metadata.securityEpoch = maxInt64 then .error .invalidInput
    else .ok (bumpEpoch (edited old input))
  else .ok (edited old input)

/-- The next revision of a resource. -/
def apply (schema : Schema) (old : Resource) (input : Input) : Except CatalogError Resource :=
  if old.metadata.kind = .clientPreset then .error .invalidInput
  else do
    let _ ← canonical schema old
    if old.metadata.revision = maxInt64 || input.payload.kind ≠ old.metadata.kind then
      .error .invalidInput
    else do
      let _ ← canonical schema (edited old input)
      let next ← withEpoch old input
      canonical schema next

/-- The next revision of a revoked resource, or of a deleted one. -/
def invalidate (schema : Schema) (old : Resource) (disable : Bool) :
    Except CatalogError Resource :=
  if old.metadata.kind = .clientPreset then .error .invalidInput
  else if old.metadata.revision = maxInt64 || old.metadata.securityEpoch = maxInt64 then
    .error .invalidInput
  else do
    let next ← canonical schema old
    pure { next with
      metadata := { next.metadata with
        revision := next.metadata.revision + 1
        securityEpoch := next.metadata.securityEpoch + 1
        enabled := next.metadata.enabled && !disable } }

/-! ## What the next revision is -/

variable {schema : Schema} {old next r : Resource}

theorem canonical_eq_ok (h : canonical schema r = .ok next) :
    next = sortTags r ∧ (sortTags r).validate schema = true := by
  unfold canonical at h
  split_ifs at h with hvalid horigin
  rw [Bool.not_eq_true', Bool.not_eq_false] at hvalid
  exact ⟨(Except.ok.inj h).symm, hvalid⟩

theorem withEpoch_ok {input : Input} (h : withEpoch old input = .ok next) :
    next = if revokes old input then bumpEpoch (edited old input) else edited old input := by
  unfold withEpoch at h
  split_ifs at h ⊢
  · exact (Except.ok.inj h).symm
  · exact (Except.ok.inj h).symm

theorem kind_of_canonical (h : canonical schema r = .ok next) :
    r.metadata.kind = r.payload.kind :=
  kind_of_validate (r := sortTags r) (canonical_eq_ok h).2

/-- The next revision of an edited resource. -/
theorem apply_ok {input : Input} (h : apply schema old input = .ok next) :
    input.payload.kind = old.payload.kind ∧
      next = sortTags (if revokes old input then bumpEpoch (edited old input)
        else edited old input) := by
  unfold apply at h
  by_cases hpreset : old.metadata.kind = .clientPreset
  · rw [if_pos hpreset] at h
    cases h
  rw [if_neg hpreset] at h
  obtain ⟨_, hold, h⟩ := Except.of_bind h
  split_ifs at h with hkind
  rw [Bool.or_eq_true, not_or, decide_eq_true_eq, decide_eq_true_eq, not_not] at hkind
  obtain ⟨_, -, h⟩ := Except.of_bind h
  obtain ⟨r, hr, h⟩ := Except.of_bind h
  rw [(canonical_eq_ok h).1, withEpoch_ok hr]
  exact ⟨hkind.2.trans (kind_of_canonical hold), rfl⟩

/-- The next revision of a resource that is revoked or deleted. -/
theorem invalidate_ok {disable : Bool} (h : invalidate schema old disable = .ok next) :
    next.metadata.resourceID = old.metadata.resourceID ∧
      next.metadata.scopeID = old.metadata.scopeID ∧
      next.metadata.revision = old.metadata.revision + 1 ∧
      next.metadata.securityEpoch = old.metadata.securityEpoch + 1 ∧
      (disable = true → next.metadata.enabled = false) := by
  unfold invalidate at h
  split_ifs at h with hpreset hmax
  obtain ⟨r, hr, h⟩ := Except.of_bind h
  cases h
  rw [(canonical_eq_ok hr).1]
  refine ⟨rfl, rfl, rfl, rfl, fun hdisable => ?_⟩
  simp [hdisable]

/-! ## References -/

/-- A resource that another one names, and where. -/
structure Reference where
  targetID : ID
  expectedKind : ResourceKind
  path : String
deriving DecidableEq, Repr

def TargetRef.reference (path : String) : TargetRef → List Reference
  | .resource kind id => [⟨id, kind, path⟩]
  | .builtin _ => []

/-- `base/0`, `base/1`, ... beside the entries of a list. -/
def indexed {α : Type} (base : String) (l : List α) : List (String × α) :=
  l.zipIdx.map fun p => (base ++ "/" ++ toString p.2, p.1)

def ruleSetReferences (path : String) (ids : List ID) : List Reference :=
  (indexed (path ++ "/match/rule_set_ids") ids).map fun p => ⟨p.2, .ruleSet, p.1⟩

/-- The references of a resource in their order. -/
def payloadReferences : Payload → List Reference
  | .chain c =>
    (indexed "/payload/hops" c.hops).map fun p => ⟨p.2, .node, p.1 ++ "/node_id"⟩
  | .policyGroup g =>
    (indexed "/payload/members" g.members).flatMap (fun p =>
        TargetRef.reference (p.1 ++ "/resource_id") p.2) ++
      TargetRef.reference "/payload/default_member/resource_id" g.defaultMember
  | .routingProfile p =>
    (indexed "/payload/rules" p.rules).flatMap (fun q =>
        TargetRef.reference (q.1 ++ "/action/resource_id") q.2.action ++
          ruleSetReferences q.1 q.2.routeMatch.ruleSetIDs) ++
      TargetRef.reference "/payload/final/resource_id" p.final
  | .dnsProfile p =>
    (indexed "/payload/resolvers" p.resolvers).flatMap (fun q =>
        q.2.outbound.toList.flatMap (TargetRef.reference (q.1 ++ "/outbound/resource_id"))) ++
      (indexed "/payload/rules" p.rules).flatMap fun q =>
        ruleSetReferences q.1 q.2.domainMatch.ruleSetIDs
  | .subscriptionProfile p =>
    ⟨p.routingProfileID, .routingProfile, "/payload/routing_profile_id"⟩ ::
      ⟨p.dnsProfileID, .dnsProfile, "/payload/dns_profile_id"⟩ ::
      (indexed "/payload/targets" p.targets).map fun q =>
        ⟨q.2.clientPresetID, .clientPreset, q.1 ++ "/client_preset_id"⟩
  | .node _ | .ruleSet _ | .clientPreset _ => []

def extractReferences (schema : Schema) (r : Resource) : Except CatalogError (List Reference) :=
  if r.validate schema then .ok (payloadReferences r.payload) else .error .invalidInput

end ProxyLoom.Catalog
