import ProxyLoom.Catalog.Transaction
import ProxyLoom.Jobs.Lease
import ProxyLoom.Subscriptions.Freeze

/-!
# The tables of subscriptions

A compile batch freezes a subscription profile, its outputs are validated by jobs, and a publication
makes one whole batch the head of its profile. The queue's tables stand beside these ones, in one
store that every transaction locks by scope.
-/

namespace ProxyLoom.Subscriptions

open IR Catalog RunnerProtocol

/-! ## Requests -/

/-- Who asks, and under which key. -/
structure Actor where
  scopeID : ID
  id : ID
  /-- The idempotency key, empty if there is none. -/
  key : String
deriving DecidableEq, Repr

structure PublishRequest where
  batchID : ID
  expectedGeneration : ℕ
  effectivePreviewHash : String
  acknowledged : Bool
deriving DecidableEq, Repr

structure RollbackRequest where
  publicationID : ID
  expectedGeneration : ℕ
deriving DecidableEq, Repr

inductive Route where
  | compile | publish | rollback
deriving DecidableEq, Repr

/-- A request as its digest covers it: the profile, the revision it expects, and the body. -/
inductive Request where
  | compile (profile : ID) (revision : ℕ) (keys : List String)
  | publish (profile : ID) (revision : ℕ) (request : PublishRequest)
  | rollback (profile : ID) (revision : ℕ) (request : RollbackRequest)
deriving DecidableEq, Repr

def Request.route : Request → Route
  | .compile .. => .compile
  | .publish .. => .publish
  | .rollback .. => .rollback

inductive SubError where
  | obsolete | blocked | confirmation | token | notReady
  | catalog (e : CatalogError)
  | select (e : SelectError)
deriving DecidableEq, Repr

/-! ## Rows -/

inductive BatchState where
  | queued | compiling | validating | ready | failed | obsolete
deriving DecidableEq, Repr

inductive OutputState where
  | queued | validating | ready | failed
deriving DecidableEq, Repr

/-- What a batch was frozen from, with the limits it is compiled under. -/
structure FrozenPublication extends Selection where
  limits : Option CatalogLimits

/-- A row of `compile_batches`, opened. The preview hash is empty until the batch is ready. -/
structure BatchRow where
  id : ID
  scopeID : ID
  profileID : ID
  profileRevision : ℕ
  catalogRevision : ℕ
  authEpoch : ℕ
  frozen : FrozenPublication
  inputHMAC : String
  revision : ℕ
  state : BatchState
  diagnostics : List Diagnostic
  previewHash : String
  basePublicationID : Option ID
  compileJobID : ID

/-- An output as the API shows it. -/
structure Output where
  targetKey : String
  coreBuildID : ID
  coreBuildSHA256 : String
  adapterVersion : String
  clientPresetID : ID
  clientPresetRevision : ℕ
  format : OutputFormat
  state : OutputState
  artifactID : Option ID
  validationJobID : Option ID
  validationVerdict : Option Jobs.Verdict
  diagnostics : List Diagnostic
  previewTruncated : Bool
  previousPreviewTruncated : Bool
  previousPreviewExpired : Bool
  preview : String
  previousPreview : String
  changed : Bool
deriving DecidableEq, Repr

/-- A row of `compile_outputs`, with its artifact opened. -/
structure OutputRow where
  artifactID : ID
  scopeID : ID
  batchID : ID
  targetKey : String
  coreBuildID : ID
  descriptor : Output
  bytes : List UInt8
  contentHMAC : String
  validationJobID : ID

def OutputRow.key (o : OutputRow) : ID × ID × String := (o.scopeID, o.batchID, o.targetKey)

structure PublicationRow where
  id : ID
  scopeID : ID
  profileID : ID
  generation : ℕ
  batchID : ID
  /-- The publication that a rollback restores. -/
  sourcePublicationID : Option ID
  createdBy : ID
deriving DecidableEq, Repr

structure DependencyRow where
  publicationID : ID
  scopeID : ID
  resourceID : ID
  revision : ℕ
  securityEpoch : ℕ
deriving DecidableEq, Repr

def DependencyRow.key (d : DependencyRow) : ID × ID := (d.publicationID, d.resourceID)

structure HeadRow where
  scopeID : ID
  profileID : ID
  publicationID : ID
deriving DecidableEq, Repr

def HeadRow.key (h : HeadRow) : ID × ID := (h.scopeID, h.profileID)

structure ViewRow where
  scopeID : ID
  actorID : ID
  batchID : ID
  previewHash : String
deriving DecidableEq, Repr

def ViewRow.key (v : ViewRow) : ID × ID × ID := (v.scopeID, v.actorID, v.batchID)

structure TokenRow where
  publicID : String
  scopeID : ID
  profileID : ID
  secretDigest : String
  allowedTargets : List String
  authEpoch : ℕ
  expiresAt : Option Jobs.Time
  revoked : Bool
deriving DecidableEq, Repr

structure OperationRow where
  scopeID : ID
  actorID : ID
  route : Route
  key : String
  requestHMAC : String
  operationID : ID
deriving DecidableEq, Repr

def OperationRow.index (o : OperationRow) : ID × ID × Route × String :=
  (o.scopeID, o.actorID, o.route, o.key)

structure AuditRow where
  scopeID : ID
  actorID : ID
  objectID : ID
  action : Route
deriving DecidableEq, Repr

structure CoreBuildRow where
  id : ID
  enabled : Bool
deriving DecidableEq, Repr

/-- The tables of subscriptions. -/
structure Tables extends Catalog.Tables where
  coreBuilds : Table CoreBuildRow.id
  batches : Table BatchRow.id
  outputs : Table OutputRow.key
  publications : Table PublicationRow.id
  dependencies : Table DependencyRow.key
  heads : Table HeadRow.key
  views : Table ViewRow.key
  tokens : Table TokenRow.publicID
  operations : Table OperationRow.index
  audits : List AuditRow

abbrev Store := Jobs.Store Tables

def withTables (s : Store) (f : Tables → Tables) : Store := { s with business := f s.business }

@[simp] theorem withTables_business (s : Store) (f : Tables → Tables) :
    (withTables s f).business = f s.business := rfl

/-! ## The compiler and the digests -/

inductive CompileError where
  | diagnostics (d : List Diagnostic)
  | other
deriving DecidableEq, Repr

structure Artifact where
  bytes : List UInt8
  outboundCount : ℕ
  ruleCount : ℕ
deriving DecidableEq, Repr

/-- What the transactions are built on: the contract, the catalog's checks, the locked builds, the
compiler, the encoders and the keyed digests. -/
structure Service where
  wire : Jobs.Wire
  schema : Schema
  checks : Checks
  cores : Cores
  compile : FrozenInputSpec → Target → Except CompileError (Artifact × List Diagnostic)
  publicationEvidence : FrozenInputSpec → Target → Except CompileError Unit
  checkPublication : List UInt8 → Target → ClientPreset → Except CompileError Unit
  redactedNative : List UInt8 → OutputFormat → Except CompileError String
  encodeBatchID : ID → List UInt8
  decodeBatchID : List UInt8 → Option ID
  encodeValidation : Build → Target → ID → List UInt8 → List UInt8
  requestDigest : ID → ID → Request → String
  inputDigest : FrozenPublication → String
  outputDigest : List UInt8 → String
  previewDigest : ID → Option ID → String → List String → String
  tokenDigest : String → String → String
  decodeSecret : String → Option (List UInt8)

/-- What one transaction reads outside the tables: the queue's clock and IDs, a fresh ID for the
batch or the publication, the nodes that their source no longer lists, and the limits. -/
structure Env where
  jobs : Jobs.Env
  newID : ID
  stale : ID → Bool
  limits : CatalogLimits

/-! ## Reads -/

def notFound {α : Type} : Except SubError α := .error (.catalog .notFound)

def invalidInput {α : Type} : Except SubError α := .error (.catalog .invalidInput)

def unavailable {α : Type} : Except SubError α := .error (.catalog .unavailable)

def validIDs (ids : List ID) : Bool := ids.all ID.validate

def lockScope (t : Tables) (scope : ID) : Except SubError Scope :=
  match t.scopes.find? scope with
  | none => notFound
  | some s => .ok s

/-- The head of a subscription profile that is not deleted. -/
def profile (t : Tables) (scope id : ID) : Except SubError (Resource × SubscriptionProfile) :=
  match t.head? scope id with
  | none => notFound
  | some r =>
    match r.payload with
    | .subscriptionProfile p => .ok (r, p)
    | _ => notFound

def readBatch (t : Tables) (scope id : ID) : Except SubError BatchRow :=
  match (t.batches.find? id).filter fun b => b.scopeID = scope with
  | none => notFound
  | some b => .ok b

/-- The head publication of a profile and its generation. -/
def headID (t : Tables) (scope profile : ID) : Option (ID × ℕ) :=
  (t.heads.find? (scope, profile)).bind fun h =>
    (t.publications.find? h.publicationID).map fun p => (p.id, p.generation)

/-! ## Idempotency -/

/-- Up to 128 printable bytes. -/
def safeIdempotencyToken (key : String) : Bool :=
  1 ≤ key.utf8ByteSize && key.utf8ByteSize ≤ 128 &&
    key.toList.all fun c => 0x21 ≤ c.toNat && c.toNat ≤ 0x7e

/-- Record the operation of a request under its key, or find the one recorded before. The flag says
that it was recorded before. -/
def operation (svc : Service) (t : Tables) (a : Actor) (request : Request) (id : ID) :
    Except SubError (Tables × ID × Bool) :=
  if !ID.validate a.scopeID || !ID.validate a.id || (a.key ≠ "" && !safeIdempotencyToken a.key)
  then invalidInput
  else if a.key = "" then .ok (t, id, false)
  else
    let digest := svc.requestDigest a.scopeID a.id request
    match t.operations.insert? ⟨a.scopeID, a.id, request.route, a.key, digest, id⟩ with
    | some operations => .ok ({ t with operations := operations }, id, false)
    | none =>
      match t.operations.find? (a.scopeID, a.id, request.route, a.key) with
      | none => notFound
      | some o =>
        if o.requestHMAC ≠ digest then .error (.catalog .idempotencyConflict)
        else .ok (t, o.operationID, o.operationID ≠ id)

def audit (t : Tables) (a : Actor) (id : ID) (action : Route) : Tables :=
  { t with audits := t.audits ++ [⟨a.scopeID, a.id, id, action⟩] }

end ProxyLoom.Subscriptions
