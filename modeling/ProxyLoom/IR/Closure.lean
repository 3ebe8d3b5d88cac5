import Mathlib.Data.List.Destutter
import ProxyLoom.IR.Diagnostic
import ProxyLoom.IR.Frozen
import ProxyLoom.Lib.Result
import ProxyLoom.Lib.Table
import ProxyLoom.Lib.Worklist

/-!
# Closed snapshots

The check a snapshot passes before it is frozen, with the diagnostics it collects, and what the
check is for: a snapshot is closed if it pins every root it names, every reference resolves to a
resource of the right kind, and it holds what the roots reach and nothing else.
-/

namespace ProxyLoom.IR

open List

/-! ## Diagnostics -/

/-- The text of a code, by which diagnostics are ordered. -/
def DiagnosticCode.text : DiagnosticCode → String
  | .invalidType => "IR_INVALID_TYPE"
  | .invalidValue => "IR_INVALID_VALUE"
  | .requiredField => "IR_REQUIRED"
  | .inputLimitExceeded => "INPUT_LIMIT_EXCEEDED"
  | .invalidUnion => "IR_INVALID_UNION"
  | .invalidSnapshot => "IR_INVALID_SNAPSHOT"
  | .duplicateResource => "IR_DUPLICATE_RESOURCE"
  | .duplicateTarget => "IR_DUPLICATE_TARGET"
  | .referenceMissing => "IR_REFERENCE_MISSING"
  | .referenceKind => "IR_REFERENCE_KIND"
  | .referenceRevision => "IR_REFERENCE_REVISION"
  | .referenceEpoch => "IR_REFERENCE_EPOCH"
  | .referenceCycle => "IR_REFERENCE_CYCLE"
  | .scopeMismatch => "IR_SCOPE_MISMATCH"
  | .resourceDisabled => "IR_RESOURCE_DISABLED"
  | .unreachableResource => "IR_UNREACHABLE_RESOURCE"
  | .capabilityUnsupported => "CAPABILITY_UNSUPPORTED"
  | .capabilityUnverified => "CAPABILITY_UNVERIFIED"
  | .compileTargetMismatch => "COMPILE_TARGET_MISMATCH"
  | .compileUnknownBuild => "COMPILE_UNKNOWN_BUILD"
  | .compileDigestMismatch => "COMPILE_DIGEST_MISMATCH"
  | .compileAdapterVersion => "COMPILE_ADAPTER_VERSION"
  | .compileFormatMismatch => "COMPILE_FORMAT_MISMATCH"
  | .compileLabelCollision => "COMPILE_LABEL_COLLISION"
  | .compileUnknownCapability => "COMPILE_UNKNOWN_CAPABILITY"
  | .compileUnmappedField => "COMPILE_UNMAPPED_FIELD"
  | .compileDialConflict => "COMPILE_DIAL_CONFLICT"
  | .dependencyExcluded => "DEPENDENCY_EXCLUDED"
  | .dependencyCycle => "DEPENDENCY_CYCLE"
  | .publicationBlocked => "PUBLICATION_BLOCKED"
  | .runnerValidationPending => "RUNNER_VALIDATION_PENDING"
  | .runner code => code

/-- Ordered by path and code; a diagnostic that repeats the one before it is dropped. -/
def stableDiagnostics (d : List Diagnostic) : List Diagnostic :=
  (d.insertionSort fun a b => a.fieldPath < b.fieldPath ∨
    (a.fieldPath = b.fieldPath ∧ a.code.text ≤ b.code.text)).destutter (· ≠ ·)

theorem mem_destutter_ne_iff {α : Type} [DecidableEq α] {x : α} (l : List α) :
    x ∈ l.destutter (· ≠ ·) ↔ x ∈ l := by
  refine ⟨fun h => (destutter_sublist _ _).subset h, fun h => ?_⟩
  cases l with
  | nil => cases h
  | cons a l =>
    rw [destutter_cons']
    induction l generalizing a with
    | nil => exact h
    | cons b l ih =>
      rw [List.destutter'_cons]
      split_ifs with hab
      · exact mem_cons.mpr ((mem_cons.mp h).imp_right (ih b))
      · rw [← not_not.mp hab] at h
        exact ih a (mem_cons.mpr ((mem_cons.mp h).elim .inl mem_cons.mp))

theorem mem_stableDiagnostics_iff {d : Diagnostic} {l : List Diagnostic} :
    d ∈ stableDiagnostics l ↔ d ∈ l :=
  (mem_destutter_ne_iff _).trans (perm_insertionSort _ _).mem_iff

def issueAt (code : DiagnosticCode) (path : String) (id : ID) : Diagnostic :=
  { issue code path with resourceID := id }

def prefixDiagnostics (d : List Diagnostic) (path : String) (id : ID) : List Diagnostic :=
  d.map fun x =>
    { x with fieldPath := path ++ x.fieldPath, resourceID := if ID.validate id then id else "" }

def maxDocumentBytes : ℕ := 10 * 1024 * 1024

/-- What the contract reports of a value that it refuses, and how long a snapshot is when it is
encoded. -/
structure Reports where
  resource : Resource → List Diagnostic
  target : Target → List Diagnostic
  frozenInput : FrozenInputSpec → List Diagnostic
  override : PolicyOverride → List Diagnostic
  group : PolicyGroup → List Diagnostic
  encodedBytes : FrozenInputSpec → ℕ
  group_ne_nil : ∀ g, group g ≠ []

/-! ## The loops of the check -/

def FrozenRef.shape (ref : FrozenRef) : Bool :=
  ID.validate ref.resourceID && ref.kind ≠ .subscriptionProfile && validRevision ref.revision &&
    validRevision ref.securityEpoch

/-- The fields of the snapshot fit their schema. The resources and targets are checked one by one
before. -/
def FrozenInputSpec.shape (spec : FrozenInputSpec) : Bool :=
  spec.schemaVersion = IR.schemaVersion && ID.validate spec.snapshotID &&
    ID.validate spec.scopeID && validRevision spec.catalogRevision &&
    validRevision spec.securityEpoch &&
    spec.resources ≠ [] && spec.resources.length ≤ maxFrozenResources &&
    spec.members ≠ [] && spec.members.length ≤ 2000 && decide spec.members.Nodup &&
    spec.members.all (fun m => m.shape && m.memberKind) &&
    spec.routingProfile.all (fun ref => ref.shape && ref.kind = .routingProfile) &&
    spec.dnsProfile.all (fun ref => ref.shape && ref.kind = .dnsProfile) &&
    spec.targets ≠ []

namespace FrozenInputSpec

variable (schema : Schema) (reports : Reports) (spec : FrozenInputSpec)

/-- The map of the resources by ID. A later resource takes the place of an earlier one. -/
def byID (id : ID) : Option Resource := spec.resources.reverse.find? fun r => r.id = id

/-- Resources of the scope, each once. -/
def resourceIssues : List Diagnostic :=
  Loop.reports (fun before r =>
    let path := "/resources/" ++ toString before.length ++ "/metadata"
    (if r.id ∈ before.map Resource.id then
      [issueAt .duplicateResource (path ++ "/resource_id") r.id] else []) ++
    (if r.metadata.scopeID ≠ spec.scopeID then
      [issueAt .scopeMismatch (path ++ "/scope_id") r.id] else []) ++
    (if r.metadata.enabled = false then
      [issueAt .resourceDisabled (path ++ "/enabled") r.id] else [])) spec.resources

/-- Targets with different keys, and one digest for each build. -/
def targetIssues : List Diagnostic :=
  Loop.reports (fun before t =>
    let path := "/targets/" ++ toString before.length
    (if t.key ∈ before.map Target.key then [issueAt .duplicateTarget (path ++ "/key") ""]
      else []) ++
    match before.reverse.find? (fun s => s.coreBuildID = t.coreBuildID) with
    | none => []
    | some earlier =>
      (if earlier.coreFamily ≠ t.coreFamily then
        [issueAt .invalidValue (path ++ "/core_family") ""] else []) ++
      (if earlier.coreBuildSHA256 ≠ t.coreBuildSHA256 then
        [issueAt .invalidValue (path ++ "/core_build_sha256") ""] else [])) spec.targets

/-- A pinned resource is there, as it is pinned. -/
def checkRoot (ref : FrozenRef) (path : String) : List Diagnostic :=
  match spec.byID ref.resourceID with
  | none => [issueAt .referenceMissing (path ++ "/resource_id") ref.resourceID]
  | some r =>
    (if ref.kind ≠ r.metadata.kind then
      [issueAt .referenceKind (path ++ "/kind") ref.resourceID] else []) ++
    (if ref.revision ≠ r.metadata.revision then
      [issueAt .referenceRevision (path ++ "/revision") ref.resourceID] else []) ++
    (if ref.securityEpoch ≠ r.metadata.securityEpoch then
      [issueAt .referenceEpoch (path ++ "/security_epoch") ref.resourceID] else [])

def profileIssues : List Diagnostic :=
  spec.routingProfile.toList.flatMap (spec.checkRoot · "/routing_profile") ++
    spec.dnsProfile.toList.flatMap (spec.checkRoot · "/dns_profile")

/-- A target may pin a preset that is not part of the snapshot. -/
def presetIssues : List Diagnostic :=
  Loop.reports (fun before t =>
    let path := "/targets/" ++ toString before.length
    match spec.byID t.clientPresetID with
    | none => []
    | some r =>
      match r.payload with
      | .clientPreset p =>
        (if r.metadata.revision ≠ t.clientPresetRevision then
          [issueAt .referenceRevision (path ++ "/client_preset_revision") t.clientPresetID]
          else []) ++
        (if p.coreFamily ≠ t.coreFamily then
          [issueAt .invalidValue (path ++ "/core_family") t.clientPresetID] else []) ++
        (if p.format ≠ t.format then
          [issueAt .invalidValue (path ++ "/format") t.clientPresetID] else [])
      | _ => [issueAt .referenceKind (path ++ "/client_preset_id") t.clientPresetID])
    spec.targets

/-- Members of the right kinds, each once. -/
def memberIssues : List Diagnostic :=
  Loop.reports (fun before m =>
    let path := "/members/" ++ toString before.length
    (if m.resourceID ∈ before.map FrozenRef.resourceID then
      [issueAt .duplicateResource (path ++ "/resource_id") m.resourceID] else []) ++
    spec.checkRoot m path) spec.members

def resolves (edge : ID × ResourceKind) : Bool :=
  (spec.byID edge.1).any fun r => r.metadata.kind = edge.2

/-- One reference of a resource, at a field of its payload. -/
def checkEdge (path : String) (r : Resource) (id : ID) (kind : ResourceKind) : List Diagnostic :=
  match spec.byID id with
  | none => [issueAt .referenceMissing path r.id]
  | some target => if target.metadata.kind ≠ kind then [issueAt .referenceKind path r.id] else []

def checkTarget (path : String) (r : Resource) : TargetRef → List Diagnostic
  | .resource kind id => spec.checkEdge (path ++ "/resource_id") r id kind
  | .builtin _ => []

/-- A rule set of a DNS rule holds domains only. -/
def checkDomains (path : String) (r : Resource) (id : ID) : List Diagnostic :=
  match (spec.byID id).map Resource.payload with
  | some (.ruleSet s) =>
    if s.entries.any (fun
      | .domain _ _ => false
      | .cidr _ => true) then [issueAt .referenceKind path r.id] else []
  | _ => []

def checkRuleSets (path : String) (r : Resource) (ids : List ID)
    (check : String → ID → List Diagnostic) : List Diagnostic :=
  ids.zipIdx.flatMap fun (id, k) =>
    let path := path ++ "/match/rule_set_ids/" ++ toString k
    spec.checkEdge path r id .ruleSet ++ check path id

/-- The references of a resource. -/
def payloadIssues (path : String) (r : Resource) : List Diagnostic :=
  match r.payload with
  | .chain c => c.hops.zipIdx.flatMap fun (id, k) =>
    spec.checkEdge (path ++ "/hops/" ++ toString k ++ "/node_id") r id .node
  | .policyGroup g => g.members.zipIdx.flatMap fun (m, k) =>
    spec.checkTarget (path ++ "/members/" ++ toString k) r m
  | .routingProfile p =>
    spec.checkTarget (path ++ "/final") r p.final ++
    (if p.domainResolutionMode = .resolveForIPRules ∧ spec.dnsProfile = none then
      [issueAt .referenceMissing (path ++ "/domain_resolution_mode") r.id] else []) ++
    p.rules.zipIdx.flatMap fun (rule, j) =>
      spec.checkTarget (path ++ "/rules/" ++ toString j ++ "/action") r rule.action ++
      spec.checkRuleSets (path ++ "/rules/" ++ toString j) r rule.routeMatch.ruleSetIDs
        fun _ _ => []
  | .dnsProfile p =>
    (p.resolvers.zipIdx.flatMap fun (resolver, j) => resolver.outbound.toList.flatMap
      (spec.checkTarget (path ++ "/resolvers/" ++ toString j ++ "/outbound") r)) ++
    p.rules.zipIdx.flatMap fun (rule, j) =>
      spec.checkRuleSets (path ++ "/rules/" ++ toString j) r rule.domainMatch.ruleSetIDs
        fun path id => spec.checkDomains path r id
  | _ => []

def edgeIssues : List Diagnostic :=
  Loop.reports (fun before r =>
    spec.payloadIssues ("/resources/" ++ toString before.length ++ "/payload") r) spec.resources

/-! ## The worklist -/

/-- The roots that are part of the snapshot, in the order they are queued. -/
def queuedRoots : List ID :=
  ((spec.routingProfile.toList ++ spec.dnsProfile.toList).map FrozenRef.resourceID).filter
    (fun id => (spec.byID id).isSome) ++
  (spec.targets.map Target.clientPresetID).filter
    (fun id => (spec.byID id).any fun r => r.metadata.kind = .clientPreset) ++
  (spec.members.map FrozenRef.resourceID).filter fun id => (spec.byID id).isSome

def edgesFrom (id : ID) : List ID :=
  (spec.resources.filter fun r => r.id = id).flatMap fun r =>
    (r.payload.edges.filter spec.resolves).map Prod.fst

/-- What the worklist marks. It takes each root and each resource off the queue at most once. -/
def marked : List ID :=
  Worklist.walk spec.edgesFrom (spec.queuedRoots.length + spec.resources.length)
    spec.queuedRoots spec.queuedRoots

def mergeIssues (base : Resource) (o : PolicyOverride) : List Diagnostic :=
  if !base.validate schema then reports.resource base
  else
    match base.payload with
    | .policyGroup g =>
      if base.id ≠ o.policyGroupID then [issue .referenceKind "/policy_group_id"]
      else if !o.validate schema then reports.override o
      else if !(o.apply g).validate schema then reports.group (o.apply g)
      else []
    | _ => [issue .referenceKind "/policy_group_id"]

def overrideIssues : List Diagnostic :=
  Loop.reports (fun before t =>
    t.policyOverrides.zipIdx.flatMap fun (o, j) =>
      let path := "/targets/" ++ toString before.length ++ "/policy_overrides/" ++ toString j
      match spec.byID o.policyGroupID with
      | none => [issueAt .referenceMissing (path ++ "/policy_group_id") o.policyGroupID]
      | some r =>
        if r.metadata.kind ≠ .policyGroup then
          [issueAt .referenceKind (path ++ "/policy_group_id") o.policyGroupID]
        else if o.policyGroupID ∉ spec.marked then
          [issueAt .unreachableResource (path ++ "/policy_group_id") o.policyGroupID]
        else prefixDiagnostics (mergeIssues schema reports r o) path o.policyGroupID) spec.targets

/-- Nothing is in the snapshot that nothing leads to. -/
def unreachableIssues : List Diagnostic :=
  Loop.reports (fun before r =>
    if r.id ∉ spec.marked then
      [issueAt .unreachableResource ("/resources/" ++ toString before.length) r.id] else [])
    spec.resources

def issues : List Diagnostic :=
  spec.resourceIssues ++ spec.targetIssues ++ spec.profileIssues ++ spec.presetIssues ++
    spec.memberIssues ++ spec.edgeIssues ++ spec.overrideIssues schema reports ++
    spec.unreachableIssues

/-- `FrozenInputSpec.Validate`. -/
def validateSpec : Except (List Diagnostic) Unit :=
  if maxFrozenResources < spec.resources.length then
    .error [issue .inputLimitExceeded "/resources"]
  else
    match spec.resources.zipIdx.find? fun (r, _) => !r.validate schema with
    | some (r, i) =>
      .error (prefixDiagnostics (reports.resource r) ("/resources/" ++ toString i) r.id)
    | none =>
      match spec.targets.zipIdx.find? fun (t, _) => !t.validate schema with
      | some (t, i) => .error (prefixDiagnostics (reports.target t) ("/targets/" ++ toString i) "")
      | none =>
        if maxDocumentBytes < reports.encodedBytes spec || !spec.shape then
          .error (reports.frozenInput spec)
        else if spec.issues schema reports ≠ [] then
          .error (stableDiagnostics (spec.issues schema reports))
        else .ok ()

end FrozenInputSpec

/-! ## What the check is for -/

/-- What the members, the profiles and the embedded presets lead to. -/
inductive FrozenInputSpec.Reachable (spec : FrozenInputSpec) : ID → Prop where
  | profile {ref : FrozenRef} :
    ref ∈ spec.routingProfile ∨ ref ∈ spec.dnsProfile → Reachable spec ref.resourceID
  | preset {t : Target} {r : Resource} : t ∈ spec.targets → r ∈ spec.resources →
    r.id = t.clientPresetID → Reachable spec t.clientPresetID
  | member {m : FrozenRef} : m ∈ spec.members → Reachable spec m.resourceID
  | ref {r : Resource} {edge : ID × ResourceKind} : Reachable spec r.id → r ∈ spec.resources →
    edge ∈ r.payload.edges → Reachable spec edge.1

/-- What a snapshot has to be. -/
structure FrozenInputSpec.Closed (schema : Schema) (spec : FrozenInputSpec) : Prop where
  unique : (spec.resources.map Resource.id).Nodup
  scope : ∀ r ∈ spec.resources, r.metadata.scopeID = spec.scopeID
  enabled : ∀ r ∈ spec.resources, r.metadata.enabled = true
  keys : (spec.targets.map Target.key).Nodup
  builds : ∀ s ∈ spec.targets, ∀ t ∈ spec.targets, s.coreBuildID = t.coreBuildID →
    s.coreFamily = t.coreFamily ∧ s.coreBuildSHA256 = t.coreBuildSHA256
  profiles : ∀ ref, ref ∈ spec.routingProfile ∨ ref ∈ spec.dnsProfile →
    ∃ r ∈ spec.resources, r.ref = ref
  presets : ∀ t ∈ spec.targets, ∀ r ∈ spec.resources, r.id = t.clientPresetID →
    ∃ p, r.payload = .clientPreset p ∧ r.metadata.revision = t.clientPresetRevision ∧
      p.coreFamily = t.coreFamily ∧ p.format = t.format
  membersUnique : (spec.members.map FrozenRef.resourceID).Nodup
  members : ∀ m ∈ spec.members, ∃ r ∈ spec.resources, r.ref = m
  references : ∀ r ∈ spec.resources, ∀ edge ∈ r.payload.edges,
    ∃ target ∈ spec.resources, target.id = edge.1 ∧ target.metadata.kind = edge.2
  resolution : ∀ r ∈ spec.resources, ∀ p, r.payload = .routingProfile p →
    p.domainResolutionMode = .resolveForIPRules → spec.dnsProfile ≠ none
  domains : ∀ r ∈ spec.resources, ∀ p, r.payload = .dnsProfile p → ∀ rule ∈ p.rules,
    ∀ id ∈ rule.domainMatch.ruleSetIDs, ∀ target ∈ spec.resources, target.id = id →
      ∀ s, target.payload = .ruleSet s → ∀ entry ∈ s.entries, ∃ name kind, entry = .domain name kind
  overrides : ∀ t ∈ spec.targets, ∀ o ∈ t.policyOverrides,
    spec.Reachable o.policyGroupID ∧ ∃ r ∈ spec.resources, r.id = o.policyGroupID ∧
      r.metadata.kind = .policyGroup ∧ (mergePolicyOverride schema r o).isSome
  exact : ∀ id, spec.Reachable id ↔ ∃ r ∈ spec.resources, r.id = id

/-! ## When each loop is silent -/

section

variable {schema : Schema} {reports : Reports} {spec : FrozenInputSpec} {id : ID} {r : Resource}
  {path : String}

theorem ite_singleton_eq_nil {δ : Type} {p : Prop} [Decidable p] {d : δ} :
    (if p then [d] else []) = [] ↔ ¬p := by
  split_ifs with h <;> simp [h]

theorem reports_resources : spec.resourceIssues = [] ↔
    (spec.resources.map Resource.id).Nodup ∧
      (∀ r ∈ spec.resources, r.metadata.scopeID = spec.scopeID) ∧
      (∀ r ∈ spec.resources, r.metadata.enabled = true) := by
  unfold FrozenInputSpec.resourceIssues
  rw [Loop.reports_eq_nil_iff, Loop.nodup_iff_split]
  simp only [append_eq_nil_iff, ite_singleton_eq_nil, not_not, Bool.not_eq_false]
  constructor
  · intro h
    refine ⟨fun before a after heq => (h before a after heq).1.1, ?_, ?_⟩
    · intro r hr
      obtain ⟨before, after, heq⟩ := append_of_mem hr
      exact (h before r after heq).1.2
    · intro r hr
      obtain ⟨before, after, heq⟩ := append_of_mem hr
      exact (h before r after heq).2
  · rintro ⟨hunique, hscope, henabled⟩ before a after heq
    have ha : a ∈ spec.resources := by simp [heq]
    exact ⟨⟨hunique before a after heq, hscope a ha⟩, henabled a ha⟩

/-- Comparing each target with the last one of its build compares all targets of a build. -/
theorem builds_agree_iff {β : Type} (build : Target → ID) (pinned : Target → β) (l : List Target) :
    (∀ before t after, l = before ++ t :: after →
      ∀ s, before.reverse.find? (fun s => build s = build t) = some s → pinned s = pinned t) ↔
    ∀ s ∈ l, ∀ t ∈ l, build s = build t → pinned s = pinned t := by
  constructor
  · intro h
    induction l using List.reverseRecOn with
    | nil => simp
    | append_singleton l a ih =>
      have hl := ih fun before t after heq => h before t (after ++ [a]) (by simp [heq])
      have hlast : ∀ s ∈ l, build s = build a → pinned s = pinned a := by
        intro s hs hbuild
        obtain ⟨e, hmem, hkey, he⟩ := Table.exists_find?_reverse build hs hbuild
        rw [hl s hs e hmem (hbuild.trans hkey.symm), h l a [] (by simp) e he]
      intro s hs t ht hbuild
      rw [mem_append, mem_singleton] at hs ht
      obtain hs | rfl := hs
      · obtain ht | rfl := ht
        · exact hl s hs t ht hbuild
        · exact hlast s hs hbuild
      · obtain ht | rfl := ht
        · exact (hlast t ht hbuild.symm).symm
        · rfl
  · rintro h before t after rfl s hs
    have hmem := mem_reverse.mp (mem_of_find?_eq_some hs)
    exact h s (by simp [hmem]) t (by simp) (by simpa using List.find?_some hs)

theorem reports_targets : spec.targetIssues = [] ↔
    (spec.targets.map Target.key).Nodup ∧
      ∀ s ∈ spec.targets, ∀ t ∈ spec.targets, s.coreBuildID = t.coreBuildID →
        s.coreFamily = t.coreFamily ∧ s.coreBuildSHA256 = t.coreBuildSHA256 := by
  have hbuilds := builds_agree_iff Target.coreBuildID
    (fun t => (t.coreFamily, t.coreBuildSHA256)) spec.targets
  simp only [Prod.mk.injEq] at hbuilds
  unfold FrozenInputSpec.targetIssues
  rw [Loop.reports_eq_nil_iff, Loop.nodup_iff_split, ← hbuilds]
  simp only [append_eq_nil_iff, ite_singleton_eq_nil]
  constructor
  · intro h
    refine ⟨fun before a after heq => (h before a after heq).1, ?_⟩
    intro before t after heq s hs
    have hmatch := (h before t after heq).2
    rw [hs] at hmatch
    simpa [append_eq_nil_iff, ite_singleton_eq_nil] using hmatch
  · rintro ⟨hkeys, hsame⟩ before t after heq
    refine ⟨hkeys before t after heq, ?_⟩
    cases hs : before.reverse.find? fun s => s.coreBuildID = t.coreBuildID with
    | none => rfl
    | some s => simpa [ite_singleton_eq_nil] using hsame before t after heq s hs

/-! ## Roots and references -/

section
variable (hunique : (spec.resources.map Resource.id).Nodup)
include hunique

theorem byID_eq_some_iff :
    spec.byID id = some r ↔ r ∈ spec.resources ∧ r.id = id := by
  have hreverse : (spec.resources.reverse.map Resource.id).Nodup := by
    rwa [map_reverse, nodup_reverse]
  exact ((⟨_, hreverse⟩ : Table Resource.id).find?_eq_some_iff id r).trans
    (and_congr_left' mem_reverse)

theorem byID_isSome_iff :
    (spec.byID id).isSome ↔ ∃ r ∈ spec.resources, r.id = id := by
  rw [Option.isSome_iff_exists]
  exact exists_congr fun r => byID_eq_some_iff hunique

theorem checkRoot_eq_nil_iff {ref : FrozenRef} :
    spec.checkRoot ref path = [] ↔ ∃ r ∈ spec.resources, r.ref = ref := by
  unfold FrozenInputSpec.checkRoot
  constructor
  · intro h
    cases hfind : spec.byID ref.resourceID with
    | none =>
      rw [hfind] at h
      cases h
    | some r =>
      rw [hfind] at h
      obtain ⟨hr, hid⟩ := (byID_eq_some_iff hunique).mp hfind
      simp only [append_eq_nil_iff, ite_singleton_eq_nil, not_not] at h
      obtain ⟨⟨hkind, hrevision⟩, hepoch⟩ := h
      refine ⟨r, hr, ?_⟩
      cases ref
      simp only at hkind hrevision hepoch hid
      rw [hkind, hrevision, hepoch, ← hid]
      rfl
  · rintro ⟨r, hr, rfl⟩
    have hfind : spec.byID r.ref.resourceID = some r := (byID_eq_some_iff hunique).mpr ⟨hr, rfl⟩
    rw [hfind]
    simp [Resource.ref]

theorem reports_profiles :
    spec.profileIssues = [] ↔ ∀ ref, ref ∈ spec.routingProfile ∨ ref ∈ spec.dnsProfile →
      ∃ r ∈ spec.resources, r.ref = ref := by
  unfold FrozenInputSpec.profileIssues
  simp only [append_eq_nil_iff, flatMap_eq_nil_iff, Option.mem_toList,
    checkRoot_eq_nil_iff hunique]
  constructor
  · rintro ⟨hrouting, hdns⟩ ref (h | h)
    · exact hrouting ref h
    · exact hdns ref h
  · intro h
    exact ⟨fun ref href => h ref (.inl href), fun ref href => h ref (.inr href)⟩

theorem reports_presets :
    spec.presetIssues = [] ↔
      ∀ t ∈ spec.targets, ∀ r ∈ spec.resources, r.id = t.clientPresetID →
        ∃ p, r.payload = .clientPreset p ∧ r.metadata.revision = t.clientPresetRevision ∧
          p.coreFamily = t.coreFamily ∧ p.format = t.format := by
  unfold FrozenInputSpec.presetIssues
  apply Loop.reports_eq_nil_iff_forall
  intro before t _
  cases hfind : spec.byID t.clientPresetID with
  | none =>
    refine iff_of_true rfl fun r hr hid => ?_
    rw [(byID_eq_some_iff hunique).mpr ⟨hr, hid⟩] at hfind
    cases hfind
  | some r =>
    obtain ⟨hr, hid⟩ := (byID_eq_some_iff hunique).mp hfind
    have honly : ∀ s ∈ spec.resources, s.id = t.clientPresetID → s = r := fun s hs hsid =>
      inj_on_of_nodup_map hunique hs hr (hsid.trans hid.symm)
    constructor
    · intro h s hs hsid
      rw [honly s hs hsid]
      dsimp only at h
      split at h
      · next p hp =>
        simp only [append_eq_nil_iff, ite_singleton_eq_nil, not_not] at h
        exact ⟨p, hp, h.1.1, h.1.2, h.2⟩
      · cases h
    · intro h
      obtain ⟨p, hp, hrevision, hfamily, hformat⟩ := h r hr hid
      simp [hp, hrevision, hfamily, hformat]

theorem reports_members :
    spec.memberIssues = [] ↔ (spec.members.map FrozenRef.resourceID).Nodup ∧
      ∀ m ∈ spec.members, ∃ r ∈ spec.resources, r.ref = m := by
  unfold FrozenInputSpec.memberIssues
  rw [Loop.reports_eq_nil_iff, Loop.nodup_iff_split]
  simp only [append_eq_nil_iff, ite_singleton_eq_nil, checkRoot_eq_nil_iff hunique]
  constructor
  · intro h
    refine ⟨fun before m after heq => (h before m after heq).1, fun m hm => ?_⟩
    obtain ⟨before, after, heq⟩ := append_of_mem hm
    exact (h before m after heq).2
  · rintro ⟨hmembers, hpins⟩ before m after heq
    exact ⟨hmembers before m after heq, hpins m (by simp [heq])⟩

def FrozenInputSpec.Resolved (spec : FrozenInputSpec) (edge : ID × ResourceKind) : Prop :=
  ∃ target ∈ spec.resources, target.id = edge.1 ∧ target.metadata.kind = edge.2

theorem resolves_iff {edge : ID × ResourceKind} :
    spec.resolves edge = true ↔ spec.Resolved edge := by
  unfold FrozenInputSpec.resolves FrozenInputSpec.Resolved
  rw [Option.any_eq_true]
  simp only [byID_eq_some_iff hunique, decide_eq_true_eq, and_assoc]

theorem checkEdge_eq_nil_iff {kind : ResourceKind} :
    spec.checkEdge path r id kind = [] ↔ spec.Resolved (id, kind) := by
  rw [← resolves_iff hunique]
  unfold FrozenInputSpec.checkEdge FrozenInputSpec.resolves
  cases spec.byID id with
  | none => simp
  | some target => simp

theorem checkTarget_eq_nil_iff {ref : TargetRef} :
    spec.checkTarget path r ref = [] ↔ ∀ edge ∈ ref.edge, spec.Resolved edge := by
  cases ref with
  | resource kind id =>
    show spec.checkEdge (path ++ "/resource_id") r id kind = [] ↔ _
    rw [checkEdge_eq_nil_iff hunique]
    simp [TargetRef.edge]
  | builtin b => simp [FrozenInputSpec.checkTarget, TargetRef.edge]

theorem checkRuleSets_eq_nil_iff {ids : List ID} {check : String → ID → List Diagnostic}
    {P : ID → Prop} (hcheck : ∀ path id, check path id = [] ↔ P id) :
    spec.checkRuleSets path r ids check = [] ↔
      ∀ id ∈ ids, spec.Resolved (id, .ruleSet) ∧ P id := by
  unfold FrozenInputSpec.checkRuleSets
  apply Loop.flatMap_zipIdx_eq_nil_iff
  intro id _ k
  dsimp only
  rw [append_eq_nil_iff, checkEdge_eq_nil_iff hunique, hcheck]

/-- The rule set of the ID, if there is one, holds domains only. -/
def FrozenInputSpec.DomainsOnly (spec : FrozenInputSpec) (id : ID) : Prop :=
  ∀ target ∈ spec.resources, target.id = id → ∀ s, target.payload = .ruleSet s →
    ∀ entry ∈ s.entries, ∃ name kind, entry = .domain name kind

theorem checkDomains_eq_nil_iff :
    spec.checkDomains path r id = [] ↔ spec.DomainsOnly id := by
  unfold FrozenInputSpec.checkDomains FrozenInputSpec.DomainsOnly
  cases hfind : spec.byID id with
  | none =>
    refine iff_of_true rfl fun target htarget hid => ?_
    rw [(byID_eq_some_iff hunique).mpr ⟨htarget, hid⟩] at hfind
    cases hfind
  | some target =>
    obtain ⟨htarget, hid⟩ := (byID_eq_some_iff hunique).mp hfind
    have honly : ∀ s ∈ spec.resources, s.id = id → s = target := fun s hs hsid =>
      inj_on_of_nodup_map hunique hs htarget (hsid.trans hid.symm)
    rw [Option.map_some]
    constructor
    · intro h s hs hsid set hset entry hentry
      rw [honly s hs hsid] at hset
      rw [hset] at h
      dsimp only at h
      rw [ite_singleton_eq_nil, any_eq_true, not_exists] at h
      cases entry with
      | domain name kind => exact ⟨name, kind, rfl⟩
      | cidr network => exact absurd ⟨hentry, rfl⟩ (h _)
    · intro h
      split
      · next set hset =>
        rw [ite_singleton_eq_nil, any_eq_true]
        rintro ⟨entry, hentry, hcidr⟩
        obtain ⟨name, kind, rfl⟩ := h target htarget hid set (Option.some.inj hset) entry hentry
        cases hcidr
      · rfl

structure FrozenInputSpec.PayloadClosed (spec : FrozenInputSpec) (payload : Payload) : Prop where
  references : ∀ edge ∈ payload.edges, spec.Resolved edge
  resolution : ∀ p, payload = .routingProfile p → p.domainResolutionMode = .resolveForIPRules →
    spec.dnsProfile ≠ none
  domains : ∀ p, payload = .dnsProfile p → ∀ rule ∈ p.rules,
    ∀ id ∈ rule.domainMatch.ruleSetIDs, spec.DomainsOnly id

theorem payloadIssues_eq_nil_iff :
    spec.payloadIssues path r = [] ↔ spec.PayloadClosed r.payload := by
  unfold FrozenInputSpec.payloadIssues
  cases hpayload : r.payload with
  | chain c =>
    dsimp only
    rw [Loop.flatMap_zipIdx_eq_nil_iff (P := fun id => spec.Resolved (id, .node))
      fun id _ k => checkEdge_eq_nil_iff hunique]
    constructor
    · exact fun h => ⟨by simpa [Payload.edges] using h, nofun, nofun⟩
    · exact fun h => by simpa [Payload.edges] using h.references
  | policyGroup g =>
    dsimp only
    rw [Loop.flatMap_zipIdx_eq_nil_iff (P := fun m => ∀ edge ∈ m.edge, spec.Resolved edge)
      fun m _ k => checkTarget_eq_nil_iff hunique]
    constructor
    · refine fun h => ⟨fun edge hedge => ?_, nofun, nofun⟩
      obtain ⟨m, hm, hedge⟩ := mem_flatMap.mp hedge
      exact h m hm edge hedge
    · exact fun h m hm edge hedge => h.references edge (mem_flatMap.mpr ⟨m, hm, hedge⟩)
  | routingProfile p =>
    dsimp only
    rw [append_eq_nil_iff, append_eq_nil_iff, checkTarget_eq_nil_iff hunique,
      ite_singleton_eq_nil, not_and,
      Loop.flatMap_zipIdx_eq_nil_iff
        (P := fun rule => (∀ edge ∈ rule.action.edge, spec.Resolved edge) ∧
          ∀ id ∈ rule.routeMatch.ruleSetIDs, spec.Resolved (id, .ruleSet) ∧ True) ?_]
    · constructor
      · rintro ⟨⟨hfinal, hmode⟩, hrules⟩
        refine ⟨fun edge hedge => ?_, fun q hq => ?_, nofun⟩
        · obtain hedge | hedge := mem_append.mp hedge
          · exact hfinal edge hedge
          · obtain ⟨rule, hrule, hedge⟩ := mem_flatMap.mp hedge
            obtain hedge | hedge := mem_append.mp hedge
            · exact (hrules rule hrule).1 edge hedge
            · obtain ⟨id, hid, rfl⟩ := mem_map.mp hedge
              exact ((hrules rule hrule).2 id hid).1
        · cases hq
          exact hmode
      · intro h
        refine ⟨⟨fun edge hedge => ?_, h.resolution p rfl⟩, fun rule hrule => ⟨?_, ?_⟩⟩
        · exact h.references edge (mem_append_left _ hedge)
        · intro edge hedge
          exact h.references edge (mem_append_right _
            (mem_flatMap.mpr ⟨rule, hrule, mem_append_left _ hedge⟩))
        · intro id hid
          exact ⟨h.references _ (mem_append_right _ (mem_flatMap.mpr
            ⟨rule, hrule, mem_append_right _ (mem_map.mpr ⟨id, hid, rfl⟩)⟩)), trivial⟩
    · intro rule _ k
      dsimp only
      rw [append_eq_nil_iff, checkTarget_eq_nil_iff hunique,
        checkRuleSets_eq_nil_iff hunique (P := fun _ => True) fun _ _ => iff_of_true rfl trivial]
  | dnsProfile p =>
    dsimp only
    rw [append_eq_nil_iff,
      Loop.flatMap_zipIdx_eq_nil_iff
        (P := fun resolver : DNSResolver =>
          ∀ ref ∈ resolver.outbound, ∀ edge ∈ ref.edge, spec.Resolved edge) ?_,
      Loop.flatMap_zipIdx_eq_nil_iff
        (P := fun rule : DNSRule => ∀ id ∈ rule.domainMatch.ruleSetIDs,
          spec.Resolved (id, .ruleSet) ∧ spec.DomainsOnly id)
        fun rule _ k => checkRuleSets_eq_nil_iff hunique (P := spec.DomainsOnly)
          fun _ _ => checkDomains_eq_nil_iff hunique]
    · constructor
      · rintro ⟨hresolvers, hrules⟩
        refine ⟨fun edge hedge => ?_, nofun, fun q hq => ?_⟩
        · obtain hedge | hedge := mem_append.mp hedge
          · obtain ⟨resolver, hresolver, hedge⟩ := mem_flatMap.mp hedge
            obtain ⟨ref, href, hedge⟩ := mem_flatMap.mp hedge
            exact hresolvers resolver hresolver ref (Option.mem_toList.mp href) edge hedge
          · obtain ⟨rule, hrule, hedge⟩ := mem_flatMap.mp hedge
            obtain ⟨id, hid, rfl⟩ := mem_map.mp hedge
            exact (hrules rule hrule id hid).1
        · cases hq
          exact fun rule hrule id hid => (hrules rule hrule id hid).2
      · intro h
        refine ⟨fun resolver hresolver ref href edge hedge => ?_, fun rule hrule id hid => ⟨?_, ?_⟩⟩
        · exact h.references edge (mem_append_left _ (mem_flatMap.mpr
            ⟨resolver, hresolver, mem_flatMap.mpr ⟨ref, Option.mem_toList.mpr href, hedge⟩⟩))
        · exact h.references _ (mem_append_right _ (mem_flatMap.mpr
            ⟨rule, hrule, mem_map.mpr ⟨id, hid, rfl⟩⟩))
        · exact h.domains p rfl rule hrule id hid
    · intro resolver _ k
      dsimp only
      rw [flatMap_eq_nil_iff]
      simp only [Option.mem_toList, checkTarget_eq_nil_iff hunique]
      exact Iff.rfl
  | node n => exact iff_of_true rfl ⟨nofun, nofun, nofun⟩
  | ruleSet s => exact iff_of_true rfl ⟨nofun, nofun, nofun⟩
  | subscriptionProfile s => exact iff_of_true rfl ⟨nofun, nofun, nofun⟩
  | clientPreset s => exact iff_of_true rfl ⟨nofun, nofun, nofun⟩

theorem reports_edges :
    spec.edgeIssues = [] ↔ ∀ r ∈ spec.resources, spec.PayloadClosed r.payload := by
  unfold FrozenInputSpec.edgeIssues
  exact Loop.reports_eq_nil_iff_forall fun before r _ => payloadIssues_eq_nil_iff hunique

end

/-! ## What the worklist marks -/

/-- The roots and the references that the worklist needs to resolve. -/
structure FrozenInputSpec.Linked (spec : FrozenInputSpec) : Prop where
  unique : (spec.resources.map Resource.id).Nodup
  profiles : ∀ ref, ref ∈ spec.routingProfile ∨ ref ∈ spec.dnsProfile →
    ∃ r ∈ spec.resources, r.ref = ref
  presets : ∀ t ∈ spec.targets, ∀ r ∈ spec.resources, r.id = t.clientPresetID →
    r.metadata.kind = .clientPreset
  members : ∀ m ∈ spec.members, ∃ r ∈ spec.resources, r.ref = m
  references : ∀ r ∈ spec.resources, ∀ edge ∈ r.payload.edges, spec.Resolved edge

theorem mem_edgesFrom_iff (hlinked : spec.Linked) {a b : ID} :
    b ∈ spec.edgesFrom a ↔
      ∃ r ∈ spec.resources, r.id = a ∧ ∃ edge ∈ r.payload.edges, edge.1 = b := by
  unfold FrozenInputSpec.edgesFrom
  simp only [mem_flatMap, mem_filter, mem_map, decide_eq_true_eq,
    resolves_iff hlinked.unique]
  constructor
  · rintro ⟨r, ⟨hr, hid⟩, edge, ⟨hedge, -⟩, rfl⟩
    exact ⟨r, hr, hid, edge, hedge, rfl⟩
  · rintro ⟨r, hr, hid, edge, hedge, rfl⟩
    exact ⟨r, ⟨hr, hid⟩, edge, ⟨hedge, hlinked.references r hr edge hedge⟩, rfl⟩

theorem mem_queuedRoots_iff (hlinked : spec.Linked) :
    id ∈ spec.queuedRoots ↔
      (∃ ref, (ref ∈ spec.routingProfile ∨ ref ∈ spec.dnsProfile) ∧ ref.resourceID = id) ∨
      (∃ t ∈ spec.targets, t.clientPresetID = id ∧ ∃ r ∈ spec.resources, r.id = id) ∨
      ∃ m ∈ spec.members, m.resourceID = id := by
  have hpreset : ∀ t ∈ spec.targets,
      ((spec.byID t.clientPresetID).any fun r => r.metadata.kind = .clientPreset) = true ↔
        ∃ r ∈ spec.resources, r.id = t.clientPresetID := by
    intro t ht
    rw [Option.any_eq_true]
    simp only [byID_eq_some_iff hlinked.unique, decide_eq_true_eq]
    constructor
    · rintro ⟨r, ⟨hr, hid⟩, -⟩
      exact ⟨r, hr, hid⟩
    · rintro ⟨r, hr, hid⟩
      exact ⟨r, ⟨hr, hid⟩, hlinked.presets t ht r hr hid⟩
  unfold FrozenInputSpec.queuedRoots
  simp only [mem_append, mem_filter, mem_map, Option.mem_toList,
    byID_isSome_iff hlinked.unique, or_assoc]
  refine or_congr ?_ (or_congr ?_ ?_)
  · constructor
    · rintro ⟨href, -⟩
      exact href
    · rintro ⟨ref, href, rfl⟩
      obtain ⟨r, hr, rfl⟩ := hlinked.profiles ref href
      exact ⟨⟨r.ref, href, rfl⟩, r, hr, rfl⟩
  · constructor
    · rintro ⟨⟨t, ht, rfl⟩, hembedded⟩
      exact ⟨t, ht, rfl, (hpreset t ht).mp hembedded⟩
    · rintro ⟨t, ht, rfl, hembedded⟩
      exact ⟨⟨t, ht, rfl⟩, (hpreset t ht).mpr hembedded⟩
  · constructor
    · rintro ⟨hm, -⟩
      exact hm
    · rintro ⟨m, hm, rfl⟩
      obtain ⟨r, hr, rfl⟩ := hlinked.members m hm
      exact ⟨⟨r.ref, hm, rfl⟩, r, hr, rfl⟩

theorem reachable_of_root (hlinked : spec.Linked) (h : id ∈ spec.queuedRoots) :
    spec.Reachable id := by
  obtain ⟨ref, href, rfl⟩ | ⟨t, ht, rfl, r, hr, hid⟩ | ⟨m, hm, rfl⟩ :=
    (mem_queuedRoots_iff hlinked).mp h
  · exact .profile href
  · exact .preset ht hr hid
  · exact .member hm

/-- **The worklist marks what the roots reach.** -/
theorem mem_marked_iff (hlinked : spec.Linked) :
    id ∈ spec.marked ↔ spec.Reachable id := by
  have hnext : ∀ a, ∀ b ∈ spec.edgesFrom a, b ∈ (spec.resources.map Resource.id).toFinset := by
    intro a b hb
    obtain ⟨r, hr, -, edge, hedge, rfl⟩ := (mem_edgesFrom_iff hlinked).mp hb
    obtain ⟨target, htarget, hid, -⟩ := hlinked.references r hr edge hedge
    rw [mem_toFinset, mem_map]
    exact ⟨target, htarget, hid⟩
  have hfuel : Worklist.left (spec.resources.map Resource.id).toFinset
      (spec.queuedRoots, spec.queuedRoots) ≤
        spec.queuedRoots.length + spec.resources.length := by
    have hcard := (Finset.card_le_card (Finset.sdiff_subset
      (s := (spec.resources.map Resource.id).toFinset) (t := spec.queuedRoots.toFinset))).trans
      (toFinset_card_le _)
    rw [length_map] at hcard
    exact Nat.add_le_add_left hcard _
  have hmarked : Worklist.Marked spec.edgesFrom spec.queuedRoots spec.queuedRoots :=
    ⟨fun a ha => ha, fun a ha hnot => absurd ha hnot⟩
  unfold FrozenInputSpec.marked
  rw [Worklist.mem_walk_iff hnext hmarked hfuel]
  constructor
  · rintro ⟨root, hroot, hpath⟩
    induction hpath with
    | refl => exact reachable_of_root hlinked hroot
    | tail _ hstep ih =>
      obtain ⟨r, hr, rfl, edge, hedge, rfl⟩ := (mem_edgesFrom_iff hlinked).mp hstep
      exact .ref ih hr hedge
  · intro h
    induction h with
    | profile href =>
      exact ⟨_, (mem_queuedRoots_iff hlinked).mpr (.inl ⟨_, href, rfl⟩), .refl⟩
    | preset ht hr hid =>
      exact ⟨_, (mem_queuedRoots_iff hlinked).mpr (.inr (.inl ⟨_, ht, rfl, _, hr, hid⟩)), .refl⟩
    | member hm =>
      exact ⟨_, (mem_queuedRoots_iff hlinked).mpr (.inr (.inr ⟨_, hm, rfl⟩)), .refl⟩
    | ref _ hr hedge ih =>
      obtain ⟨root, hroot, hpath⟩ := ih
      exact ⟨root, hroot, hpath.tail
        ((mem_edgesFrom_iff hlinked).mpr ⟨_, hr, rfl, _, hedge, rfl⟩)⟩

theorem Reachable.resource (hlinked : spec.Linked) (h : spec.Reachable id) :
    ∃ r ∈ spec.resources, r.id = id := by
  cases h with
  | profile href =>
    obtain ⟨r, hr, rfl⟩ := hlinked.profiles _ href
    exact ⟨r, hr, rfl⟩
  | preset _ hr hid => exact ⟨_, hr, hid⟩
  | member hm =>
    obtain ⟨r, hr, rfl⟩ := hlinked.members _ hm
    exact ⟨r, hr, rfl⟩
  | ref _ hr hedge =>
    obtain ⟨target, htarget, hid, -⟩ := hlinked.references _ hr _ hedge
    exact ⟨target, htarget, hid⟩

/-! ## Overrides -/

theorem mergeIssues_eq_nil_iff {base : Resource} {o : PolicyOverride}
    (hbase : base.validate schema = true) (ho : o.validate schema = true) :
    FrozenInputSpec.mergeIssues schema reports base o = [] ↔
      (mergePolicyOverride schema base o).isSome := by
  unfold FrozenInputSpec.mergeIssues mergePolicyOverride
  simp only [hbase, ho, Bool.not_true, Bool.false_eq_true, if_false, Bool.true_and, Bool.and_true]
  cases base.payload with
  | policyGroup g =>
    dsimp only
    by_cases hid : base.id = o.policyGroupID
    · by_cases hnext : (o.apply g).validate schema = true
      · have hmeta : base.metadata.resourceID = o.policyGroupID := hid
        simp [hid, hnext, hmeta]
      · simp [hid, hnext, reports.group_ne_nil]
    · have hmeta : base.metadata.resourceID ≠ o.policyGroupID := hid
      simp [hid, hmeta]
  | _ => simp

theorem reports_overrides (hlinked : spec.Linked)
    (hresources : ∀ r ∈ spec.resources, r.validate schema = true)
    (htargets : ∀ t ∈ spec.targets, t.validate schema = true) :
    spec.overrideIssues schema reports = [] ↔ ∀ t ∈ spec.targets, ∀ o ∈ t.policyOverrides,
      spec.Reachable o.policyGroupID ∧ ∃ r ∈ spec.resources, r.id = o.policyGroupID ∧
        r.metadata.kind = .policyGroup ∧ (mergePolicyOverride schema r o).isSome := by
  unfold FrozenInputSpec.overrideIssues
  refine Loop.reports_eq_nil_iff_forall fun before t ht =>
    Loop.flatMap_zipIdx_eq_nil_iff fun o ho k => ?_
  have hvalid : o.validate schema = true := by
    have h := htargets t ht
    unfold Target.validate at h
    simp only [Bool.and_eq_true, all_eq_true] at h
    exact h.1.2 o ho
  dsimp only
  rw [← mem_marked_iff hlinked]
  cases hfind : spec.byID o.policyGroupID with
  | none =>
    refine iff_of_false nofun ?_
    rintro ⟨-, r, hr, hid, -⟩
    rw [(byID_eq_some_iff hlinked.unique).mpr ⟨hr, hid⟩] at hfind
    cases hfind
  | some r =>
    obtain ⟨hr, hid⟩ := (byID_eq_some_iff hlinked.unique).mp hfind
    have honly : ∀ s ∈ spec.resources, s.id = o.policyGroupID → s = r := fun s hs hsid =>
      inj_on_of_nodup_map hlinked.unique hs hr (hsid.trans hid.symm)
    have hmerge := @mergeIssues_eq_nil_iff schema reports r o (hresources r hr) hvalid
    dsimp only
    constructor
    · intro h
      split_ifs at h with hkind hmarked
      rw [prefixDiagnostics, map_eq_nil_iff, hmerge] at h
      exact ⟨hmarked, r, hr, hid, not_not.mp hkind, h⟩
    · rintro ⟨hmarked, s, hs, hsid, hkind, hsome⟩
      rw [honly s hs hsid] at hkind hsome
      rw [if_neg (not_not.mpr hkind), if_neg (not_not.mpr hmarked), hmerge.mpr hsome]
      rfl

theorem reports_unreachable (hlinked : spec.Linked) :
    spec.unreachableIssues = [] ↔ ∀ r ∈ spec.resources, spec.Reachable r.id := by
  unfold FrozenInputSpec.unreachableIssues
  refine Loop.reports_eq_nil_iff_forall fun before r _ => ?_
  rw [ite_singleton_eq_nil, not_not, mem_marked_iff hlinked]

/-! ## The whole check -/

theorem preset_kind (hresources : ∀ r ∈ spec.resources, r.validate schema = true)
    (hpresets : ∀ t ∈ spec.targets, ∀ r ∈ spec.resources, r.id = t.clientPresetID →
      ∃ p, r.payload = .clientPreset p ∧ r.metadata.revision = t.clientPresetRevision ∧
        p.coreFamily = t.coreFamily ∧ p.format = t.format) :
    ∀ t ∈ spec.targets, ∀ r ∈ spec.resources, r.id = t.clientPresetID →
      r.metadata.kind = .clientPreset := by
  intro t ht r hr hid
  obtain ⟨p, hp, -⟩ := hpresets t ht r hr hid
  rw [kind_of_validate (hresources r hr), hp]
  rfl

theorem issues_eq_nil_iff (hresources : ∀ r ∈ spec.resources, r.validate schema = true)
    (htargets : ∀ t ∈ spec.targets, t.validate schema = true) :
    spec.issues schema reports = [] ↔ spec.Closed schema := by
  unfold FrozenInputSpec.issues
  simp only [append_eq_nil_iff, and_assoc]
  constructor
  · rintro ⟨hr, ht, hprofiles, hpresets, hmembers, hedges, hoverrides, hunreachable⟩
    obtain ⟨hunique, hscope, henabled⟩ := reports_resources.mp hr
    obtain ⟨hkeys, hbuilds⟩ := reports_targets.mp ht
    have hprofiles := (reports_profiles hunique).mp hprofiles
    have hpresets := (reports_presets hunique).mp hpresets
    obtain ⟨hmembersUnique, hmembers⟩ := (reports_members hunique).mp hmembers
    have hedges := (reports_edges hunique).mp hedges
    have hlinked : spec.Linked := ⟨hunique, hprofiles, preset_kind hresources hpresets, hmembers,
      fun r hr => (hedges r hr).references⟩
    have hunreachable := (reports_unreachable hlinked).mp hunreachable
    exact
      { unique := hunique, scope := hscope, enabled := henabled, keys := hkeys, builds := hbuilds
        profiles := hprofiles, presets := hpresets, membersUnique := hmembersUnique
        members := hmembers, references := hlinked.references
        resolution := fun r hr => (hedges r hr).resolution
        domains := fun r hr => (hedges r hr).domains
        overrides := (reports_overrides hlinked hresources htargets).mp hoverrides
        exact := fun id => ⟨fun h => Reachable.resource hlinked h, by
          rintro ⟨r, hr, rfl⟩
          exact hunreachable r hr⟩ }
  · intro h
    have hlinked : spec.Linked :=
      ⟨h.unique, h.profiles, preset_kind hresources h.presets, h.members, h.references⟩
    exact ⟨reports_resources.mpr ⟨h.unique, h.scope, h.enabled⟩,
      reports_targets.mpr ⟨h.keys, h.builds⟩,
      (reports_profiles h.unique).mpr h.profiles,
      (reports_presets h.unique).mpr h.presets,
      (reports_members h.unique).mpr ⟨h.membersUnique, h.members⟩,
      (reports_edges h.unique).mpr fun r hr =>
        ⟨h.references r hr, h.resolution r hr, h.domains r hr⟩,
      (reports_overrides hlinked hresources htargets).mpr h.overrides,
      (reports_unreachable hlinked).mpr fun r hr => (h.exact r.id).mpr ⟨r, hr, rfl⟩⟩

theorem find?_invalid_eq_none_iff {α : Type} {valid : α → Bool} {l : List α} :
    (l.zipIdx.find? fun (a, _) => !valid a) = none ↔ ∀ a ∈ l, valid a = true := by
  rw [List.find?_eq_none]
  constructor
  · intro h a ha
    obtain ⟨k, hk⟩ := mem_iff_getElem?.mp ha
    simpa using h _ (mk_mem_zipIdx_iff_getElem?.mpr hk)
  · rintro h ⟨a, k⟩ hak
    have ha : a ∈ l := mem_of_getElem? (mk_mem_zipIdx_iff_getElem?.mp hak)
    simp [h a ha]

/-- A snapshot whose parts are valid each for itself and that fits its schema. -/
structure FrozenInputSpec.WellFormed (schema : Schema) (reports : Reports)
    (spec : FrozenInputSpec) : Prop where
  resources : ∀ r ∈ spec.resources, r.validate schema = true
  targets : ∀ t ∈ spec.targets, t.validate schema = true
  limit : spec.resources.length ≤ maxFrozenResources
  bytes : reports.encodedBytes spec ≤ maxDocumentBytes
  shape : spec.shape = true

theorem validateSpec_ok_iff : spec.validateSpec schema reports = .ok () ↔
    spec.WellFormed schema reports ∧ spec.Closed schema := by
  unfold FrozenInputSpec.validateSpec
  constructor
  · rw [Except.ite_error_eq_ok_iff]
    rintro ⟨hlimit, h⟩
    split at h
    · cases h
    next hresources =>
    split at h
    · cases h
    next htargets =>
    rw [Except.ite_error_eq_ok_iff, Except.ite_error_eq_ok_iff] at h
    obtain ⟨hshape, hissues, -⟩ := h
    rw [find?_invalid_eq_none_iff] at hresources htargets
    rw [Bool.or_eq_true, not_or, decide_eq_true_eq, not_lt, Bool.not_eq_true',
      Bool.not_eq_false] at hshape
    exact ⟨⟨hresources, htargets, not_lt.mp hlimit, hshape.1, hshape.2⟩,
      (issues_eq_nil_iff hresources htargets).mp (not_not.mp hissues)⟩
  · rintro ⟨hwf, hclosed⟩
    have hissues := (@issues_eq_nil_iff schema reports spec hwf.resources hwf.targets).mpr hclosed
    rw [if_neg (not_lt.mpr hwf.limit), find?_invalid_eq_none_iff.mpr hwf.resources,
      find?_invalid_eq_none_iff.mpr hwf.targets]
    dsimp only
    rw [if_neg (by simp [hwf.shape, hwf.bytes]), if_neg (not_not.mpr hissues)]

/-- **The check accepts exactly the closed snapshots**, among those whose parts are valid. -/
theorem validateSpec_iff_closed (schema : Schema) (reports : Reports) (spec : FrozenInputSpec)
    (hresources : ∀ r ∈ spec.resources, r.validate schema = true)
    (htargets : ∀ t ∈ spec.targets, t.validate schema = true)
    (hlimit : spec.resources.length ≤ maxFrozenResources)
    (hbytes : reports.encodedBytes spec ≤ maxDocumentBytes) (hshape : spec.shape = true) :
    spec.validateSpec schema reports = .ok () ↔ spec.Closed schema := by
  rw [validateSpec_ok_iff]
  exact and_iff_right ⟨hresources, htargets, hlimit, hbytes, hshape⟩

/-! ## The check in rounds -/

theorem find?_eq_some_iff (hunique : (spec.resources.map Resource.id).Nodup) :
    spec.find? id = some r ↔ r ∈ spec.resources ∧ r.id = id :=
  (⟨_, hunique⟩ : Table Resource.id).find?_eq_some_iff id r

def FrozenInputSpec.followers (spec : FrozenInputSpec) (id : ID) : List ID :=
  ((spec.find? id).map fun r => r.payload.edges.map Prod.fst).getD []

theorem within_eq_rounds (n : ℕ) (ids : List ID) :
    spec.within n ids = Worklist.rounds spec.followers n ids := by
  induction n generalizing ids with
  | zero => rfl
  | succ n ih => exact ih _

theorem mem_followers_iff (hunique : (spec.resources.map Resource.id).Nodup) {a b : ID} :
    b ∈ spec.followers a ↔
      ∃ r ∈ spec.resources, r.id = a ∧ ∃ edge ∈ r.payload.edges, edge.1 = b := by
  unfold FrozenInputSpec.followers
  constructor
  · intro hb
    cases hfind : spec.find? a with
    | none => simp [hfind] at hb
    | some r =>
      obtain ⟨hr, hid⟩ := (find?_eq_some_iff hunique).mp hfind
      rw [hfind] at hb
      exact ⟨r, hr, hid, mem_map.mp hb⟩
  · rintro ⟨r, hr, hid, hedge⟩
    rw [(find?_eq_some_iff hunique).mpr ⟨hr, hid⟩]
    exact mem_map.mpr hedge

theorem mem_roots_iff (hlinked : spec.Linked) :
    id ∈ spec.roots ↔ id ∈ spec.queuedRoots := by
  have hembedded : ∀ id, (spec.find? id).isSome ↔ ∃ r ∈ spec.resources, r.id = id := by
    intro id
    rw [Option.isSome_iff_exists]
    exact exists_congr fun r => find?_eq_some_iff hlinked.unique
  rw [mem_queuedRoots_iff hlinked]
  unfold FrozenInputSpec.roots
  simp only [mem_append, mem_map, mem_filter, Option.mem_toList, hembedded]
  constructor
  · rintro (((⟨ref, href, rfl⟩ | ⟨ref, href, rfl⟩) | ⟨⟨t, ht, rfl⟩, hr⟩) | hm)
    · exact .inl ⟨ref, .inl href, rfl⟩
    · exact .inl ⟨ref, .inr href, rfl⟩
    · exact .inr (.inl ⟨t, ht, rfl, hr⟩)
    · exact .inr (.inr hm)
  · rintro (⟨ref, href | href, rfl⟩ | ⟨t, ht, rfl, hr⟩ | hm)
    · exact .inl (.inl (.inl ⟨ref, href, rfl⟩))
    · exact .inl (.inl (.inr ⟨ref, href, rfl⟩))
    · exact .inl (.inr ⟨⟨t, ht, rfl⟩, hr⟩)
    · exact .inr hm

theorem mem_reachable_iff (hlinked : spec.Linked) :
    id ∈ spec.reachable ↔ spec.Reachable id := by
  unfold FrozenInputSpec.reachable
  rw [within_eq_rounds]
  constructor
  · refine Worklist.rounds_sound (P := spec.Reachable) ?_ ?_ id
    · intro a ha b hb
      obtain ⟨r, hr, rfl, edge, hedge, rfl⟩ := (mem_followers_iff hlinked.unique).mp hb
      exact .ref ha hr hedge
    · exact fun a ha => reachable_of_root hlinked ((mem_roots_iff hlinked).mp ha)
  · have hclosed := @Worklist.rounds_closed ID _ spec.resources.length spec.followers
      (spec.resources.map Resource.id).toFinset ?_ spec.roots ?_
    · have hroot : ∀ a ∈ spec.queuedRoots, a ∈ Worklist.rounds spec.followers
          spec.resources.length spec.roots :=
        fun a ha => Worklist.subset_rounds _ _ a ((mem_roots_iff hlinked).mpr ha)
      intro h
      induction h with
      | profile href => exact hroot _ ((mem_queuedRoots_iff hlinked).mpr (.inl ⟨_, href, rfl⟩))
      | preset ht hr hid =>
        exact hroot _ ((mem_queuedRoots_iff hlinked).mpr (.inr (.inl ⟨_, ht, rfl, _, hr, hid⟩)))
      | member hm =>
        exact hroot _ ((mem_queuedRoots_iff hlinked).mpr (.inr (.inr ⟨_, hm, rfl⟩)))
      | ref _ hr hedge ih =>
        exact hclosed _ ih _ ((mem_followers_iff hlinked.unique).mpr ⟨_, hr, rfl, _, hedge, rfl⟩)
    · intro a b hb
      obtain ⟨r, hr, -, edge, hedge, rfl⟩ := (mem_followers_iff hlinked.unique).mp hb
      obtain ⟨target, htarget, hid, -⟩ := hlinked.references r hr edge hedge
      rw [mem_toFinset, mem_map]
      exact ⟨target, htarget, hid⟩
    · have hcard := (Finset.card_le_card (Finset.sdiff_subset
        (s := (spec.resources.map Resource.id).toFinset) (t := spec.roots.toFinset))).trans
        (toFinset_card_le _)
      rwa [length_map] at hcard

theorem pins_iff (hunique : (spec.resources.map Resource.id).Nodup) {ref : FrozenRef} :
    spec.pins ref = true ↔ ∃ r ∈ spec.resources, r.ref = ref := by
  unfold FrozenInputSpec.pins
  rw [Option.any_eq_true]
  simp only [find?_eq_some_iff hunique, decide_eq_true_eq]
  constructor
  · rintro ⟨r, ⟨hr, -⟩, href⟩
    exact ⟨r, hr, href⟩
  · rintro ⟨r, hr, rfl⟩
    exact ⟨r, ⟨hr, rfl⟩, rfl⟩

theorem dnsRulesOk_iff (hunique : (spec.resources.map Resource.id).Nodup) {p : DNSProfile} :
    spec.dnsRulesOk p = true ↔
      ∀ rule ∈ p.rules, ∀ id ∈ rule.domainMatch.ruleSetIDs, spec.DomainsOnly id := by
  unfold FrozenInputSpec.dnsRulesOk
  simp only [all_eq_true]
  refine forall₄_congr fun rule _ id _ => ?_
  constructor
  · intro h target htarget hid s hs entry hentry
    rw [(find?_eq_some_iff hunique).mpr ⟨htarget, hid⟩, Option.map_some, hs] at h
    dsimp only at h
    cases entry with
    | domain name kind => exact ⟨name, kind, rfl⟩
    | cidr network => simpa using all_eq_true.mp h _ hentry
  · intro h
    split
    · next s hs =>
      obtain ⟨target, hfind, hpayload⟩ := Option.map_eq_some_iff.mp hs
      obtain ⟨htarget, hid⟩ := (find?_eq_some_iff hunique).mp hfind
      rw [all_eq_true]
      intro entry hentry
      obtain ⟨name, kind, rfl⟩ := h target htarget hid s hpayload entry hentry
      rfl
    · rfl

theorem payloadOk_iff (hunique : (spec.resources.map Resource.id).Nodup) {payload : Payload} :
    spec.payloadOk payload = true ↔ spec.PayloadClosed payload := by
  have hedge : ∀ edge, spec.edgeOk edge = true ↔ spec.Resolved edge := by
    intro edge
    unfold FrozenInputSpec.edgeOk FrozenInputSpec.Resolved
    rw [Option.any_eq_true]
    simp only [find?_eq_some_iff hunique, decide_eq_true_eq, and_assoc]
  unfold FrozenInputSpec.payloadOk
  rw [Bool.and_eq_true, all_eq_true]
  simp only [hedge]
  constructor
  · rintro ⟨hreferences, hextra⟩
    refine ⟨hreferences, fun p hp hmode => ?_, fun p hp => ?_⟩
    · rw [hp] at hextra
      simpa [hmode, Option.isSome_iff_ne_none] using hextra
    · rw [hp] at hextra
      exact (dnsRulesOk_iff hunique).mp hextra
  · intro h
    refine ⟨h.references, ?_⟩
    cases payload with
    | routingProfile p =>
      by_cases hmode : p.domainResolutionMode = .resolveForIPRules
      · simpa [hmode, Option.isSome_iff_ne_none] using h.resolution p rfl hmode
      · simp [hmode]
    | dnsProfile p => exact (dnsRulesOk_iff hunique).mpr (h.domains p rfl)
    | _ => rfl

theorem presetOk_iff (hunique : (spec.resources.map Resource.id).Nodup) {t : Target} :
    spec.presetOk t = true ↔ ∀ r ∈ spec.resources, r.id = t.clientPresetID →
      ∃ p, r.payload = .clientPreset p ∧ r.metadata.revision = t.clientPresetRevision ∧
        p.coreFamily = t.coreFamily ∧ p.format = t.format := by
  unfold FrozenInputSpec.presetOk
  rw [Option.all_eq_true]
  simp only [find?_eq_some_iff hunique, and_imp]
  refine forall₃_congr fun r _ _ => ?_
  cases r.payload with
  | clientPreset p => simp [and_assoc]
  | _ => simp

theorem overrideOk_iff (hlinked : spec.Linked) {o : PolicyOverride}
    (hresources : ∀ r ∈ spec.resources, r.validate schema = true) :
    spec.overrideOk schema o = true ↔ spec.Reachable o.policyGroupID ∧
      ∃ r ∈ spec.resources, r.id = o.policyGroupID ∧ r.metadata.kind = .policyGroup ∧
        (mergePolicyOverride schema r o).isSome := by
  unfold FrozenInputSpec.overrideOk
  rw [Bool.and_eq_true, contains_iff_mem, mem_reachable_iff hlinked, Option.any_eq_true]
  simp only [find?_eq_some_iff hlinked.unique, and_assoc]
  refine and_congr_right fun _ => exists_congr fun r => and_congr_right fun hr =>
    and_congr_right fun _ => ?_
  refine (and_iff_right_of_imp fun hmerge => ?_).symm
  rw [kind_of_validate (hresources r hr)]
  unfold mergePolicyOverride at hmerge
  split at hmerge
  · next hpayload =>
    rw [hpayload]
    rfl
  · cases hmerge

theorem ref_shape (h : r.validate schema = true) (hkind : r.metadata.kind ≠ .subscriptionProfile) :
    r.ref.shape = true := by
  unfold Resource.validate Metadata.validate at h
  simp only [Bool.and_eq_true] at h
  obtain ⟨-, hmeta⟩ := h
  show (ID.validate r.metadata.resourceID && decide (r.metadata.kind ≠ .subscriptionProfile) &&
    validRevision r.metadata.revision && validRevision r.metadata.securityEpoch) = true
  simp [hmeta, hkind]

theorem sameBuild_iff {s t : Target} : sameBuild s t = true ↔
    (s.coreBuildID = t.coreBuildID →
      s.coreFamily = t.coreFamily ∧ s.coreBuildSHA256 = t.coreBuildSHA256) := by
  unfold sameBuild
  by_cases hbuild : s.coreBuildID = t.coreBuildID
  · simp [hbuild]
  · simp [hbuild]

/-- **One check.** The check in rounds, which answers yes or no, accepts what the check of the
source accepts. -/
theorem validate_iff_validateSpec (hbytes : reports.encodedBytes spec ≤ maxDocumentBytes) :
    spec.validate schema = true ↔ spec.validateSpec schema reports = .ok () := by
  rw [validateSpec_ok_iff]
  unfold FrozenInputSpec.validate
  simp only [Bool.and_eq_true, decide_eq_true_eq, all_eq_true, Option.all_eq_true,
    sameBuild_iff, contains_iff_mem, and_assoc]
  constructor
  · rintro ⟨hversion, hsnapshot, hscope, hcatalog, hepoch, hne, hlimit, hall, hunique, hmembersNe,
      hmembersLimit, hmembers, hmembersUnique, hrouting, hdns, htargetsNe, htargets, hkeys⟩
    have hvalid : ∀ r ∈ spec.resources, r.validate schema = true := fun r hr => (hall r hr).1
    have hpinned : ∀ ref, ref ∈ spec.routingProfile ∨ ref ∈ spec.dnsProfile →
        ∃ r ∈ spec.resources, r.ref = ref := by
      rintro ref (href | href)
      · exact (pins_iff hunique).mp (hrouting ref href).2
      · exact (pins_iff hunique).mp (hdns ref href).2
    have hpresets := fun t ht => (presetOk_iff hunique).mp (htargets t ht).2.1
    have hpayloads := fun r hr => (payloadOk_iff hunique).mp (hall r hr).2.2.2.1
    have hpins := fun m hm => (pins_iff hunique).mp (hmembers m hm).2
    have hlinked : spec.Linked := ⟨hunique, hpinned, preset_kind hvalid hpresets, hpins,
      fun r hr => (hpayloads r hr).references⟩
    have hshape : ∀ ref, (∃ r ∈ spec.resources, r.ref = ref) → ref.kind ≠ .subscriptionProfile →
        ref.shape = true := by
      rintro ref ⟨r, hr, rfl⟩ hkind
      exact ref_shape (hvalid r hr) hkind
    have hmemberKind : ∀ m : FrozenRef, m.memberKind = true → m.kind ≠ .subscriptionProfile := by
      rintro m hm hkind
      simp [FrozenRef.memberKind, hkind] at hm
    refine ⟨⟨hvalid, fun t ht => (htargets t ht).1, hlimit, hbytes, ?_⟩, ?_⟩
    · unfold FrozenInputSpec.shape
      simp only [Bool.and_eq_true, decide_eq_true_eq, all_eq_true, Option.all_eq_true,
        and_assoc]
      exact ⟨hversion, hsnapshot, hscope, hcatalog, hepoch, hne, hlimit, hmembersNe, hmembersLimit,
        hmembersUnique.of_map, fun m hm => ⟨hshape m (hpins m hm) (hmemberKind m (hmembers m hm).1),
          (hmembers m hm).1⟩,
        fun ref href => ⟨hshape ref (hpinned ref (.inl href)) (by simp [(hrouting ref href).1]),
          (hrouting ref href).1⟩,
        fun ref href => ⟨hshape ref (hpinned ref (.inr href)) (by simp [(hdns ref href).1]),
          (hdns ref href).1⟩, htargetsNe⟩
    · exact
        { unique := hunique, scope := fun r hr => (hall r hr).2.1
          enabled := fun r hr => (hall r hr).2.2.1, keys := hkeys
          builds := fun s hs => (htargets s hs).2.2.2, profiles := hpinned, presets := hpresets
          membersUnique := hmembersUnique, members := hpins, references := hlinked.references
          resolution := fun r hr => (hpayloads r hr).resolution
          domains := fun r hr => (hpayloads r hr).domains
          overrides := fun t ht o ho =>
            (overrideOk_iff hlinked hvalid).mp ((htargets t ht).2.2.1 o ho)
          exact := fun id => ⟨fun h => Reachable.resource hlinked h, by
            rintro ⟨r, hr, rfl⟩
            exact (mem_reachable_iff hlinked).mp (hall r hr).2.2.2.2⟩ }
  · rintro ⟨hwf, h⟩
    have hlinked : spec.Linked :=
      ⟨h.unique, h.profiles, preset_kind hwf.resources h.presets, h.members, h.references⟩
    have hshape := hwf.shape
    unfold FrozenInputSpec.shape at hshape
    simp only [Bool.and_eq_true, decide_eq_true_eq, all_eq_true, Option.all_eq_true,
      and_assoc] at hshape
    obtain ⟨hversion, hsnapshot, hscope, hcatalog, hepoch, hne, hlimit, hmembersNe, hmembersLimit,
      -, hmembers, hrouting, hdns, htargetsNe⟩ := hshape
    refine ⟨hversion, hsnapshot, hscope, hcatalog, hepoch, hne, hlimit, fun r hr => ?_, h.unique,
      hmembersNe, hmembersLimit, fun m hm => ?_, h.membersUnique, fun ref href => ?_,
      fun ref href => ?_, htargetsNe, fun t ht => ?_, h.keys⟩
    · exact ⟨hwf.resources r hr, h.scope r hr, h.enabled r hr, (payloadOk_iff h.unique).mpr
        ⟨h.references r hr, h.resolution r hr, h.domains r hr⟩,
        (mem_reachable_iff hlinked).mpr ((h.exact r.id).mpr ⟨r, hr, rfl⟩)⟩
    · exact ⟨(hmembers m hm).2, (pins_iff h.unique).mpr (h.members m hm)⟩
    · exact ⟨(hrouting ref href).2, (pins_iff h.unique).mpr (h.profiles ref (.inl href))⟩
    · exact ⟨(hdns ref href).2, (pins_iff h.unique).mpr (h.profiles ref (.inr href))⟩
    · exact ⟨hwf.targets t ht, (presetOk_iff h.unique).mpr (h.presets t ht),
        fun o ho => (overrideOk_iff hlinked hwf.resources).mpr (h.overrides t ht o ho),
        h.builds t ht⟩

/-- **Frozen inputs.** A snapshot within the size limit is frozen if and only if it is well-formed
and closed and has no subscription profiles, and it is frozen in its normal form. -/
theorem newFrozenInput_iff {frozen : FrozenInputSpec}
    (hbytes : reports.encodedBytes spec ≤ maxDocumentBytes) :
    newFrozenInput schema spec = some frozen ↔ (∀ r ∈ spec.resources, r.payload.frozen = true) ∧
      spec.WellFormed schema reports ∧ spec.Closed schema ∧ spec.normalize = frozen := by
  rw [← and_assoc (b := spec.Closed schema), ← validateSpec_ok_iff,
    ← validate_iff_validateSpec hbytes]
  unfold newFrozenInput
  rw [← all_eq_true, ← and_assoc, ← Bool.and_eq_true]
  split_ifs with h
  · simp [h]
  · simp [h]

end

/-! ## Small snapshots -/

/-- The contract reports one diagnostic for whatever it refuses. -/
def plainReports : Reports where
  resource _ := [issue .invalidValue ""]
  target _ := [issue .invalidValue ""]
  frozenInput _ := [issue .invalidValue ""]
  override _ := [issue .invalidValue ""]
  group _ := [issue .invalidValue ""]
  encodedBytes _ := 0
  group_ne_nil _ := cons_ne_nil _ _

def directRouting : Resource where
  metadata := ⟨"00000000-0000-4000-8000-000000000001", "00000000-0000-4000-8000-00000000000a",
    .routingProfile, 1, 1, "routing", [], true, 1⟩
  payload := .routingProfile ⟨1, [], .builtin .direct, .preserveDomain⟩

def plainNode : Resource where
  metadata := ⟨"00000000-0000-4000-8000-000000000002", "00000000-0000-4000-8000-00000000000a",
    .node, 1, 1, "node", [], true, 1⟩
  payload := .node ⟨1, .shadowsocks, ⟨"example.org", 443⟩, .methodPassword .aes128GCM "secret",
    .nativeTCP, .noSecurity, ⟨none, none, none⟩, none⟩

def xrayTarget : Target where
  key := "main"
  coreFamily := .xray
  coreBuildID := "00000000-0000-4000-8000-000000000003"
  coreBuildSHA256 := String.ofList (List.replicate 64 'a')
  adapterVersion := "1"
  clientPresetID := "00000000-0000-4000-8000-000000000004"
  clientPresetRevision := 1
  format := .xrayJSON
  policyOverrides := []

def directSnapshot (members : List Resource) : FrozenInputSpec where
  schemaVersion := 1
  snapshotID := "00000000-0000-4000-8000-000000000005"
  scopeID := "00000000-0000-4000-8000-00000000000a"
  catalogRevision := 1
  securityEpoch := 1
  resources := directRouting :: members
  members := members.map Resource.ref
  targets := [xrayTarget]
  routingProfile := some directRouting.ref
  dnsProfile := none

def smallResource (id : ID) (kind : ResourceKind) (payload : Payload) : Resource :=
  ⟨⟨id, plainNode.metadata.scopeID, kind, 1, 1, "small", [], true, 1⟩, payload⟩

def exitNode : Resource :=
  smallResource "00000000-0000-4000-8000-000000000007" .node plainNode.payload

def twoHops : Resource :=
  smallResource "00000000-0000-4000-8000-000000000008" .chain
    (.chain ⟨1, [plainNode.id, exitNode.id]⟩)

/-- A policy group that holds a node and a chain. -/
def eitherWay : Resource :=
  smallResource "00000000-0000-4000-8000-000000000009" .policyGroup (.policyGroup
    ⟨1, .roundRobin, [.resource .node plainNode.id, .resource .chain twoHops.id],
      .resource .node plainNode.id, ⟨false, "", none, none, none⟩⟩)

/-- Everything to the policy group. -/
def linkedRouting : RoutingProfile :=
  ⟨1, [], .resource .policyGroup eitherWay.id, .preserveDomain⟩

/-- A routing profile that leads to a policy group, a chain and two nodes. -/
def linkedSnapshot : FrozenInputSpec :=
  { directSnapshot [plainNode] with
    resources := [smallResource directRouting.id .routingProfile (.routingProfile linkedRouting),
      plainNode, exitNode, twoHops, eitherWay] }

theorem validateSpec_iff_closed_linked : linkedSnapshot.Closed hostnameSchema :=
  (validateSpec_iff_closed hostnameSchema plainReports linkedSnapshot
    (by decide) (by decide) (by decide) (by decide) (by decide)).mp
    (by decide)

/-- A closed snapshot without members is refused: its schema asks for one. -/
theorem validateSpec_refuses_memberless :
    (∀ r ∈ (directSnapshot []).resources, r.validate hostnameSchema = true) ∧
      (∀ t ∈ (directSnapshot []).targets, t.validate hostnameSchema = true) ∧
      (directSnapshot []).resources.length ≤ maxFrozenResources ∧
      plainReports.encodedBytes (directSnapshot []) ≤ maxDocumentBytes ∧
      (directSnapshot []).Closed hostnameSchema ∧
      (directSnapshot []).validateSpec hostnameSchema plainReports =
        .error [issue .invalidValue ""] :=
  ⟨by decide, by decide, by decide, by decide,
    (@issues_eq_nil_iff hostnameSchema plainReports (directSnapshot []) (by decide)
      (by decide)).mp (by decide), by decide⟩

theorem newFrozenInput_iff_linked :
    newFrozenInput hostnameSchema linkedSnapshot = some linkedSnapshot.normalize ∧
      linkedSnapshot.WellFormed hostnameSchema plainReports ∧
      linkedSnapshot.Closed hostnameSchema := by
  have hfrozen : newFrozenInput hostnameSchema linkedSnapshot = some linkedSnapshot.normalize := by
    decide
  obtain ⟨-, hwf, hclosed, -⟩ := (@newFrozenInput_iff hostnameSchema plainReports linkedSnapshot _
    (by decide)).mp hfrozen
  exact ⟨hfrozen, hwf, hclosed⟩

end ProxyLoom.IR
