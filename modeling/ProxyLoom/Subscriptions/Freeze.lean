import ProxyLoom.Depgraph.Closure

/-!
# Freezing a subscription

A subscription profile selects members by ID and by tag. Its snapshot is the closure of the members,
the profiles and the presets under references, together with one dependency for each resource.
-/

namespace ProxyLoom.Subscriptions

open IR Catalog Depgraph

/-! ## Core builds -/

/-- A core binary. -/
structure Build where
  id : ID
  family : CoreFamily
  version : String
  os : String
  arch : String
  binarySHA256 : String
deriving DecidableEq, Repr

structure Cores where
  adapterVersion : String
  builds : List Build

def Cores.build? (cores : Cores) (id : ID) : Option Build :=
  cores.builds.find? fun b => b.id = id

/-! ## Diagnostics -/

def diagnostic (code : DiagnosticCode) (id : ID) (path target : String) : Diagnostic :=
  ⟨code, .error, id, path, target,
    "The frozen publication input does not meet the required constraints.", ""⟩

/-- Why nothing can be frozen. -/
inductive SelectError where
  | diagnostics (d : List Diagnostic)
  | catalog (e : CatalogError)
  /-- The diagnostics of the contract's validators, which are not spelled out. -/
  | contract
deriving DecidableEq, Repr

def fail {α : Type} (code : DiagnosticCode) (id : ID) (path : String) : Except SelectError α :=
  .error (.diagnostics [diagnostic code id path ""])

/-! ## Members -/

/-- The selector of the profile takes the resource. -/
def selectable (p : SubscriptionProfile) (stale : ID → Bool) (r : Resource) : Bool :=
  (r.metadata.kind = .node || r.metadata.kind = .chain || r.metadata.kind = .policyGroup) &&
    r.metadata.enabled && !stale r.id && !p.members.excludeIDs.contains r.id &&
    p.members.selector.matchesTags r.metadata.tags

/-- The members: those named and those selected, but the excluded. -/
def selectedIDs (p : SubscriptionProfile) (heads : List Resource) (stale : ID → Bool) : List ID :=
  (p.members.includeIDs.filter (fun id => !p.members.excludeIDs.contains id) ++
    (heads.filter (selectable p stale)).map Resource.id).dedup

def memberRefs (find : ID → Option Resource) (ids : List ID) :
    Except SelectError (List FrozenRef) :=
  ids.mapM fun id =>
    match find id with
    | none => fail .referenceMissing id "/members"
    | some r => .ok r.ref

def profileRef (find : ID → Option Resource) (id : ID) (kind : ResourceKind) (path : String) :
    Except SelectError FrozenRef :=
  match find id with
  | none => fail .referenceMissing id path
  | some r => if r.metadata.kind ≠ kind then fail .referenceKind id path else .ok r.ref

/-! ## Targets -/

def checkPreset (t : SubscriptionTarget) (p : ClientPreset) : Except SelectError Unit :=
  if t.format ≠ p.format then .error (.diagnostics [issue .invalidValue "/format"])
  else if t.clientParameters.any fun c => c.localPort.any fun port => port ≠ p.localListener.port
  then .error (.diagnostics [issue .capabilityUnsupported "/client_parameters/local_port"])
  else if t.clientParameters.any fun c =>
      c.controlAPIEnabled.any fun enabled => enabled ≠ p.controlAPI.enabled
  then .error (.diagnostics [issue .capabilityUnsupported "/client_parameters/control_api_enabled"])
  else .ok ()

/-- Pin the build and the preset of a target. -/
def freezeTarget (cores : Cores) (find : ID → Option Resource) (path : String)
    (t : SubscriptionTarget) : Except SelectError Target :=
  match cores.build? t.coreBuildID with
  | none => fail .compileUnknownBuild t.coreBuildID path
  | some b =>
    match find t.clientPresetID with
    | none => fail .referenceMissing t.clientPresetID path
    | some r =>
      match r.payload with
      | .clientPreset preset =>
        if preset.coreFamily ≠ b.family then fail .referenceKind t.clientPresetID path
        else do
          checkPreset t preset
          pure ⟨t.key, b.family, b.id, b.binarySHA256, cores.adapterVersion, t.clientPresetID,
            r.metadata.revision, t.format,
            t.policyOverrides.insertionSort fun a b => a.policyGroupID ≤ b.policyGroupID⟩
      | _ => fail .referenceKind t.clientPresetID path

def freezeTargets (cores : Cores) (find : ID → Option Resource) (p : SubscriptionProfile) :
    Except SelectError (List Target) :=
  ((indexed "/targets" p.targets).filter fun q => q.2.isEnabled).mapM fun q =>
    freezeTarget cores find q.1 q.2

/-! ## Dependencies -/

inductive Inclusion where
  | explicit | automatic
deriving DecidableEq, Repr

inductive CredentialCategory where
  | uuid | password | username | realityPublicKey | realityShortID
deriving DecidableEq, Repr

/-- A resource that the publication depends on, as it was. -/
structure Dependency where
  resourceID : ID
  kind : ResourceKind
  revision : ℕ
  securityEpoch : ℕ
  inclusion : Inclusion
  requiredBy : List ID
  credentialCategories : List CredentialCategory
deriving DecidableEq, Repr

def authCategories : Authentication → List CredentialCategory
  | .uuid _ | .vmess _ _ => [.uuid]
  | .password _ | .methodPassword _ _ => [.password]
  | .usernamePassword _ _ => [.username, .password]
  | .noAuth => []

def credentialCategories : Payload → List CredentialCategory
  | .node n => authCategories n.auth ++
    match n.security with
    | .reality _ => [.realityPublicKey, .realityShortID]
    | _ => []
  | _ => []

/-- The resources whose references name `id`. -/
def requiredBy (refs : List (ID × List Reference)) (id : ID) : List ID :=
  ((refs.filter fun p => p.2.any fun ref => ref.targetID = id).map Prod.fst).dedup.insertionSort
    (· ≤ ·)

/-- The dependency on a resource of the snapshot. -/
def dependency (selected : List ID) (refs : List (ID × List Reference)) (r : Resource) :
    Dependency where
  resourceID := r.id
  kind := r.metadata.kind
  revision := r.metadata.revision
  securityEpoch := r.metadata.securityEpoch
  inclusion := if selected.contains r.id then .explicit else .automatic
  requiredBy := requiredBy refs r.id
  credentialCategories := credentialCategories r.payload

/-! ## Frozen inputs -/

variable {r : Resource} {spec : FrozenInputSpec}

section
variable {schema : Schema} {spec frozen : FrozenInputSpec}

theorem newFrozenInput_ok (h : newFrozenInput schema spec = some frozen) :
    spec.validate schema = true ∧ frozen = spec.normalize := by
  unfold newFrozenInput at h
  split_ifs at h with hok
  rw [Bool.and_eq_true] at hok
  exact ⟨hok.2, (Option.some.inj h).symm⟩

theorem newFrozenInput_targets_nodup (h : newFrozenInput schema spec = some frozen) :
    (frozen.targets.map Target.key).Nodup := by
  obtain ⟨hvalid, rfl⟩ := newFrozenInput_ok h
  have hkeys : (spec.targets.map Target.key).Nodup := by
    unfold FrozenInputSpec.validate at hvalid
    simp only [Bool.and_eq_true, decide_eq_true_eq] at hvalid
    exact hvalid.2
  -- normalizing only reorders the targets
  exact (((spec.targets.perm_insertionSort _).map Target.key).nodup_iff).mpr hkeys

theorem mem_normalize_resources (h : r ∈ spec.normalize.resources) :
    ∃ r₀ ∈ spec.resources, r = sortTags r₀ := by
  obtain ⟨r₀, hr₀, rfl⟩ := List.mem_map.mp h
  exact ⟨r₀, (List.perm_insertionSort _ _).mem_iff.mp hr₀, rfl⟩

theorem newFrozenInput_resources (h : newFrozenInput schema spec = some frozen)
    (hr : r ∈ frozen.resources) : ∃ r₀ ∈ spec.resources, r = sortTags r₀ := by
  obtain ⟨-, rfl⟩ := newFrozenInput_ok h
  exact mem_normalize_resources hr

end

/-- The dependency pins the security epoch of the resource. -/
def Dependency.Pins (d : Dependency) (r : Resource) : Prop :=
  d.resourceID = r.id ∧ d.securityEpoch = r.metadata.securityEpoch

/-- What every snapshot has: pairwise different target keys, and a dependency with the security
epoch of each resource. -/
structure Selection where
  input : FrozenInputSpec
  dependencies : List Dependency
  targets_nodup : (input.targets.map Target.key).Nodup
  pinned : ∀ r ∈ input.resources, ∃ d ∈ dependencies, d.Pins r

/-- The snapshot of a specification, if the contract accepts it. -/
def Selection.of (schema : Schema) (spec : FrozenInputSpec) (selected : List ID)
    (refs : List (ID × List Reference)) : Option Selection :=
  match h : newFrozenInput schema spec with
  | none => none
  | some frozen => some {
      input := frozen
      dependencies := spec.resources.map (dependency selected refs)
      targets_nodup := newFrozenInput_targets_nodup h
      pinned := by
        intro r hr
        obtain ⟨r₀, hr₀, rfl⟩ := newFrozenInput_resources h hr
        exact ⟨dependency selected refs r₀, List.mem_map_of_mem hr₀, rfl, rfl⟩ }

theorem Selection.of_resources {schema : Schema} {selected : List ID}
    {refs : List (ID × List Reference)} {s : Selection}
    (h : Selection.of schema spec selected refs = some s) (hr : r ∈ s.input.resources) :
    ∃ r₀ ∈ spec.resources, r = sortTags r₀ := by
  unfold Selection.of at h
  split at h
  · cases h
  · next frozen hfrozen =>
    cases h
    exact newFrozenInput_resources hfrozen hr

/-! ## Selection -/

/-- The roots of a snapshot, its targets in the order of the profile. -/
structure Roots where
  members : List FrozenRef
  routing : FrozenRef
  dns : FrozenRef
  targets : List Target

def Roots.ids (roots : Roots) : List ID :=
  roots.members.map FrozenRef.resourceID ++ [roots.routing.resourceID, roots.dns.resourceID] ++
    roots.targets.map Target.clientPresetID

/-- Pin what the profile names. -/
def freezeRoots (cores : Cores) (find : ID → Option Resource) (profile : ID)
    (p : SubscriptionProfile) (members : List ID) : Except SelectError Roots := do
  let refs ← memberRefs find members
  let routing ← profileRef find p.routingProfileID .routingProfile "/routing_profile_id"
  let dns ← profileRef find p.dnsProfileID .dnsProfile "/dns_profile_id"
  let targets ← freezeTargets cores find p
  if targets = [] then fail .invalidValue profile "/targets"
  else pure ⟨refs, routing, dns, targets⟩

def resourceReferences (schema : Schema) (r : Resource) :
    Except SelectError (ID × List Reference) :=
  match extractReferences schema r with
  | .error e => .error (.catalog e)
  | .ok refs => .ok (r.id, refs)

/-- The snapshot of the closure, unless one of its nodes is stale. -/
def freezeClosure (schema : Schema) (stale : ID → Bool) (selected : List ID)
    (spec : FrozenInputSpec) : Except SelectError Selection := do
  let refs ← spec.resources.mapM (resourceReferences schema)
  match spec.resources.find? fun r => stale r.id with
  | some r => fail .resourceDisabled r.id "/members"
  | none =>
    match Selection.of schema spec selected refs with
    | none => .error .contract
    | some s => .ok s

def findHead (heads : List Resource) (id : ID) : Option Resource :=
  heads.find? fun r => r.id = id

/-- The specification of the snapshot of a valid profile, with its explicit members. -/
def selectSpec (schema : Schema) (cores : Cores) (snapshot : ID) (profile : Resource)
    (p : SubscriptionProfile) (heads : List Resource) (stale : ID → Bool)
    (catalogRevision authEpoch : ℕ) : Except SelectError FrozenInputSpec :=
  let members := (selectedIDs p heads stale).insertionSort (· ≤ ·)
  if members = [] then fail .invalidValue profile.id "/members"
  else do
    let roots ← freezeRoots cores (findHead heads) profile.id p members
    let expanded := expand (extractReferences schema) (findHead heads)
      ⟨profile.metadata.scopeID, p.members.excludeIDs, 0⟩ roots.ids
    if expanded.diagnostics ≠ [] then .error (.diagnostics expanded.diagnostics)
    else pure {
      schemaVersion := 1
      snapshotID := snapshot
      scopeID := profile.metadata.scopeID
      catalogRevision := catalogRevision
      securityEpoch := authEpoch
      resources := expanded.resources.insertionSort fun a b => a.id ≤ b.id
      members := roots.members
      targets := roots.targets.insertionSort fun a b => a.key ≤ b.key
      routingProfile := some roots.routing
      dnsProfile := some roots.dns }

/-- The snapshot of a profile. -/
def select (schema : Schema) (cores : Cores) (snapshot : ID) (profile : Resource)
    (heads : List Resource) (stale : ID → Bool) (catalogRevision authEpoch : ℕ) :
    Except SelectError Selection :=
  match profile.payload with
  | .subscriptionProfile p =>
    if !profile.metadata.enabled then fail .resourceDisabled profile.id "/subscription"
    else if !p.validate schema then .error .contract
    else do
      let spec ← selectSpec schema cores snapshot profile p heads stale catalogRevision authEpoch
      freezeClosure schema stale (selectedIDs p heads stale) spec
  | _ => fail .resourceDisabled profile.id "/subscription"

section
variable {schema : Schema} {cores : Cores} {snapshot : ID} {profile : Resource}
  {heads : List Resource} {stale : ID → Bool} {catalogRevision authEpoch : ℕ}

theorem mem_of_findHead {id : ID} (h : findHead heads id = some r) : r ∈ heads :=
  List.mem_of_find?_eq_some h

theorem selectSpec_resources {p : SubscriptionProfile}
    (h : selectSpec schema cores snapshot profile p heads stale catalogRevision authEpoch =
      .ok spec)
    (hr : r ∈ spec.resources) : r ∈ heads := by
  unfold selectSpec at h
  dsimp only at h
  split_ifs at h with hmembers
  · cases h
  · obtain ⟨roots, -, h⟩ := Except.of_bind h
    split_ifs at h with hdiagnostics
    cases h
    have hexpanded := (List.perm_insertionSort _ _).mem_iff.mp hr
    obtain ⟨id, hid⟩ := expand_resources hexpanded
    exact mem_of_findHead hid

theorem freezeClosure_ok {selected : List ID} {s : Selection}
    (h : freezeClosure schema stale selected spec = .ok s) :
    ∃ refs, Selection.of schema spec selected refs = some s := by
  unfold freezeClosure at h
  obtain ⟨refs, -, h⟩ := Except.of_bind h
  split at h
  · cases h
  · split at h
    · cases h
    · next s' hs =>
      cases h
      exact ⟨refs, hs⟩

/-- **A snapshot holds heads.** Every frozen resource is a head of the catalog. -/
theorem select_resources {s : Selection}
    (h : select schema cores snapshot profile heads stale catalogRevision authEpoch = .ok s)
    (hr : r ∈ s.input.resources) : ∃ head ∈ heads, r = sortTags head := by
  unfold select at h
  split at h
  · split_ifs at h
    · cases h
    · obtain ⟨spec, hspec, h⟩ := Except.of_bind h
      obtain ⟨refs, hof⟩ := freezeClosure_ok h
      obtain ⟨head, hhead, rfl⟩ := Selection.of_resources hof hr
      exact ⟨head, selectSpec_resources hspec hhead, rfl⟩
  · cases h

end

end ProxyLoom.Subscriptions
