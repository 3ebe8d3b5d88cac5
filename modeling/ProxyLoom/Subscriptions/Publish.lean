import ProxyLoom.Subscriptions.Batch

/-!
# Publishing and rolling back

`publishTx` makes a ready batch the head of its profile, if the profile, the catalog and the head
are those that the batch was frozen at and the actor has seen its preview. `rollbackTx` publishes
the batch of an earlier publication once more.
-/

namespace ProxyLoom.Subscriptions

open IR Catalog RunnerProtocol

/-! ## Reading a publication -/

structure PublishedTarget where
  targetKey : String
  artifactID : Option ID
  coreBuildID : ID
  coreBuildSHA256 : String
  clientPresetID : ID
  clientPresetRevision : ℕ
  format : OutputFormat
  validationJobID : Option ID
deriving DecidableEq, Repr

inductive PublicationState where
  | active | historical | blocked
deriving DecidableEq, Repr

/-- A publication as the API shows it. -/
structure Publication where
  publicationID : ID
  subscriptionID : ID
  generation : ℕ
  batchID : ID
  sourcePublicationID : Option ID
  createdBy : ID
  state : PublicationState
  targets : List PublishedTarget
  dependencies : List Dependency
  blockingReasons : List Diagnostic
deriving DecidableEq, Repr

def publishedTarget (o : Output) : PublishedTarget :=
  ⟨o.targetKey, o.artifactID, o.coreBuildID, o.coreBuildSHA256, o.clientPresetID,
    o.clientPresetRevision, o.format, o.validationJobID⟩

/-- Whether the publication is served, replaced or blocked. -/
def publicationState (t : Tables) (p : PublicationRow) (safe : Bool) : PublicationState :=
  if !safe then .blocked
  else if (headID t p.scopeID p.profileID).map Prod.fst = some p.id then .active
  else .historical

def findPublication (t : Tables) (scope id : ID) : Option PublicationRow :=
  (t.publications.find? id).filter fun p => p.scopeID = scope

/-- A publication with the targets of its batch. -/
def readPublication (s : Store) (scope id : ID) : Except SubError Publication :=
  match findPublication s.business scope id with
  | none => notFound
  | some p => do
    let b ← readBatch s.business scope p.batchID
    let safe := isSafe s.business b p.profileID
    pure {
      publicationID := id
      subscriptionID := p.profileID
      generation := p.generation
      batchID := p.batchID
      sourcePublicationID := p.sourcePublicationID
      createdBy := p.createdBy
      state := publicationState s.business p safe
      targets := (outputRows s scope p.batchID).map fun o => publishedTarget o.1
      dependencies := b.frozen.dependencies
      blockingReasons :=
        if safe then [] else [diagnostic .resourceDisabled p.profileID "/publication" ""] }

/-! ## Creating a publication -/

def insertDependencies (t : Tables) (scope publication : ID) : List Dependency → Option Tables
  | [] => some t
  | d :: ds =>
    (t.dependencies.insert? ⟨publication, scope, d.resourceID, d.revision, d.securityEpoch⟩).bind
      fun dependencies =>
        insertDependencies { t with dependencies := dependencies } scope publication ds

/-- Generations of a profile do not repeat. -/
def insertPublication (t : Tables) (p : PublicationRow) : Option Tables :=
  if t.publications.rows.any fun q =>
      q.scopeID = p.scopeID && q.profileID = p.profileID && q.generation = p.generation then none
  else (t.publications.insert? p).map fun publications => { t with publications := publications }

/-- Insert the publication, pin its resources and move the head. -/
def createPublication (t : Tables) (a : Actor) (p : PublicationRow)
    (dependencies : List Dependency) : Except SubError Tables :=
  match (insertPublication t p).bind fun t =>
      insertDependencies t p.scopeID p.id dependencies with
  | none => unavailable
  | some t => .ok (audit
      { t with heads := t.heads.upsert ⟨p.scopeID, p.profileID, p.id⟩ } a p.id
      (if p.sourcePublicationID.isSome then .rollback else .publish))

def commitPublication (s : Store) (a : Actor) (p : PublicationRow)
    (dependencies : List Dependency) : Except SubError (Store × Publication) := do
  let t ← createPublication s.business a p dependencies
  let s := { s with business := t }
  let publication ← readPublication s a.scopeID p.id
  pure (s, publication)

def headGeneration (t : Tables) (scope profile : ID) : ℕ :=
  ((headID t scope profile).map Prod.snd).getD 0

/-! ## Publish -/

/-- The hash of the preview that the actor has seen, empty if none. -/
def viewedHash (t : Tables) (a : Actor) (batch : ID) : String :=
  ((t.views.find? (a.scopeID, a.id, batch)).map ViewRow.previewHash).getD ""

/-- The request confirms the preview that the actor has seen and that the batch has now. -/
def confirmed (t : Tables) (a : Actor) (request : PublishRequest) (b : BatchRow) : Bool :=
  request.acknowledged && request.effectivePreviewHash ≠ "" &&
    viewedHash t a request.batchID = request.effectivePreviewHash &&
    viewedHash t a request.batchID = b.previewHash

/-- The checks of a first publish request: the store with the batch up to date, and the batch. -/
def checkPublish (svc : Service) (s : Store) (a : Actor) (scope : Scope)
    (current : Resource × SubscriptionProfile) (id : ID) (expected : ℕ) (request : PublishRequest) :
    Except SubError (Store × BatchRow) :=
  if current.1.metadata.revision ≠ expected then .error (.catalog .revisionConflict)
  else do
    let b ← readBatch s.business a.scopeID request.batchID
    if b.profileID ≠ id then notFound
    else if !b.current scope || expected ≠ b.profileRevision then .error .obsolete
    else do
      let (s, b, _) ← aggregate svc s b
      if b.state ≠ .ready then .error .blocked
      else do
        safeBatch s.business b current
        if headGeneration s.business a.scopeID id ≠ request.expectedGeneration ||
            (headID s.business a.scopeID id).map Prod.fst ≠ b.basePublicationID then
          .error .obsolete
        else if !confirmed s.business a request b then .error .confirmation
        else pure (s, b)

/-- Publish a batch that is ready. -/
def publishTx (svc : Service) (env : Env) (s : Store) (a : Actor) (id : ID) (expected : ℕ)
    (request : PublishRequest) : Except SubError (Store × Publication) :=
  if !validIDs [a.scopeID, a.id, id, request.batchID] || expected < 1 then invalidInput
  else do
    let scope ← lockScope s.business a.scopeID
    let current ← profile s.business a.scopeID id
    let (t, publication, replay) ←
      operation svc s.business a (.publish id expected request) env.newID
    let s := { s with business := t }
    if replay then do
      let p ← readPublication s a.scopeID publication
      pure (s, p)
    else do
      let (s, b) ← checkPublish svc s a scope current id expected request
      commitPublication s a ⟨publication, a.scopeID, id,
        headGeneration s.business a.scopeID id + 1, b.id, none, a.id⟩ b.frozen.dependencies

/-! ## Rollback -/

def targetKeys (b : BatchRow) : List String := b.frozen.input.targets.map Target.key

/-- The checks of a first rollback request: the batch to restore. -/
def checkRollback (s : Store) (a : Actor) (current : Resource × SubscriptionProfile) (id : ID)
    (expected : ℕ) (request : RollbackRequest) : Except SubError BatchRow :=
  if current.1.metadata.revision ≠ expected then .error (.catalog .revisionConflict)
  else do
    let old ← readPublication s a.scopeID request.publicationID
    if old.subscriptionID ≠ id then notFound
    else do
      let b ← readBatch s.business a.scopeID old.batchID
      safeBatch s.business b current
      let outputs := outputRows s a.scopeID b.id
      if current.2.enabledKeys.insertionSort (· ≤ ·) ≠ (targetKeys b).insertionSort (· ≤ ·) ||
          outputs.length ≠ (targetKeys b).length || outputs.any (fun o => o.1.state ≠ .ready) then
        .error .blocked
      else if headGeneration s.business a.scopeID id ≠ request.expectedGeneration then
        .error .obsolete
      else pure b

/-- Publish the batch of an earlier publication again. -/
def rollbackTx (svc : Service) (env : Env) (s : Store) (a : Actor) (id : ID) (expected : ℕ)
    (request : RollbackRequest) : Except SubError (Store × Publication) :=
  if !validIDs [a.scopeID, a.id, id, request.publicationID] || expected < 1 then invalidInput
  else do
    let _ ← lockScope s.business a.scopeID
    let current ← profile s.business a.scopeID id
    let (t, publication, replay) ←
      operation svc s.business a (.rollback id expected request) env.newID
    let s := { s with business := t }
    if replay then do
      let p ← readPublication s a.scopeID publication
      pure (s, p)
    else do
      let b ← checkRollback s a current id expected request
      commitPublication s a ⟨publication, a.scopeID, id,
        headGeneration s.business a.scopeID id + 1, b.id, some request.publicationID, a.id⟩
        b.frozen.dependencies

/-! ## Download -/

structure Download where
  bytes : List UInt8
  contentType : String
deriving DecidableEq, Repr

/-- `sub_<public ID>.<secret>`. -/
def splitToken (token : String) : Option (String × String) :=
  match token.toList with
  | 's' :: 'u' :: 'b' :: '_' :: rest =>
    match rest.span fun c => c ≠ '.' with
    | (publicID, _ :: secret) => some (String.ofList publicID, String.ofList secret)
    | (_, []) => none
  | _ => none

/-- The token's public ID and secret, if it is well formed. -/
def parseToken (svc : Service) (token key : String) : Option (String × String) :=
  if 128 < token.utf8ByteSize || 64 < key.utf8ByteSize then none
  else (splitToken token).filter fun parts =>
    1 ≤ parts.1.utf8ByteSize && parts.1.utf8ByteSize ≤ 64 &&
      (svc.decodeSecret parts.2).any fun secret => secret.length = 32

/-- The token is live: not revoked, not expired and of the current authorization. -/
def TokenRow.allowed (token : TokenRow) (t : Tables) (now : Jobs.Time) : Bool :=
  !token.revoked && token.expiresAt.all (fun at' => now < at') &&
    (t.scopes.find? token.scopeID).any fun s => token.authEpoch = s.authEpoch

/-- The publication's manifest against the tables: the authorization and the dependencies are those
it was published with, its builds are enabled and its targets are still authorized. -/
def safePublished (t : Tables) (p : PublicationRow) (current : Resource × SubscriptionProfile) :
    Except SubError Unit :=
  if !current.1.metadata.enabled then .error .blocked
  else do
    let scope ← lockScope t p.scopeID
    let b ← readBatch t p.scopeID p.batchID
    let outputs := t.outputs.rows.filter fun o => o.scopeID = p.scopeID && o.batchID = p.batchID
    if b.authEpoch ≠ scope.authEpoch ||
        !(t.dependencies.rows.filter fun d => d.publicationID = p.id).all
          (fun d => dependencyOk t d.scopeID d.resourceID d.securityEpoch) ||
        !outputs.all (fun o => (t.coreBuilds.find? o.coreBuildID).any fun c => c.enabled) ||
        !outputs.all (fun o => authorizes current.2 o.targetKey o.descriptor.format) then
      .error .blocked
    else pure ()

def contentType (format : OutputFormat) : String :=
  if format = .mihomoYAML then "application/yaml" else "application/json"

/-- The published artifact of a target, for the bearer of a token. -/
def download (svc : Service) (t : Tables) (now : Jobs.Time) (token key : String) :
    Except SubError Download :=
  match parseToken svc token key with
  | none => .error .token
  | some (publicID, secret) =>
    match t.tokens.find? publicID with
    | none => .error .token
    | some row =>
      if !row.allowed t now || row.secretDigest ≠ svc.tokenDigest publicID secret ||
          !row.allowedTargets.contains key then .error .token
      else
        match profile t row.scopeID row.profileID with
        | .error _ => .error .blocked
        | .ok current =>
          if !current.2.targets.any (fun live => live.key = key && live.isEnabled) then
            .error .token
          else
            match headID t row.scopeID row.profileID with
            | none => .error .notReady
            | some (id, _) =>
              match findPublication t row.scopeID id with
              | none => notFound
              | some p => do
                safePublished t p current
                match t.outputs.find? (row.scopeID, p.batchID, key) with
                | none => notFound
                | some o => pure ⟨o.bytes, contentType o.descriptor.format⟩

end ProxyLoom.Subscriptions
