import ProxyLoom.Subscriptions.Types

/-!
# Compile batches

`compileTx` freezes a profile into a batch and enqueues its compilation. The worker compiles the
frozen input (`handleCompile`) and commits the outputs with one validation job each
(`commitCompile`). Reading a batch brings its state up to date with those jobs (`aggregate`), and an
actor who reads a ready batch has seen its preview (`getBatch`).
-/

namespace ProxyLoom.Subscriptions

open IR Catalog RunnerProtocol

/-! ## Freezing -/

def freezable : ResourceKind → Bool
  | .node | .chain | .policyGroup | .routingProfile | .dnsProfile | .ruleSet | .clientPreset => true
  | _ => false

def resources (t : Tables) (scope : ID) : List Resource :=
  (t.resources.rows.filter fun row => row.scopeID = scope && !row.deleted &&
    freezable row.resource.metadata.kind).map Row.resource

/-- The builds of the targets are known and usable. -/
def checkCores (t : Tables) : List Target → Except SubError Unit
  | [] => .ok ()
  | target :: targets =>
    match t.coreBuilds.find? target.coreBuildID with
    | none => notFound
    | some c => if !c.enabled then .error .blocked else checkCores t targets

def compileInput (svc : Service) (scope batch : ID) : Jobs.EnqueueInput :=
  ⟨none, scope, some batch, .apiWorker, .compile, svc.encodeBatchID batch, none⟩

/-- The row of a batch as it is frozen. -/
def newBatch (svc : Service) (env : Env) (t : Tables) (scope : Scope) (r : Resource)
    (expected : ℕ) (batch : ID) (frozen : FrozenPublication) : BatchRow where
  id := batch
  scopeID := scope.id
  profileID := r.id
  profileRevision := expected
  catalogRevision := scope.catalogRevision
  authEpoch := scope.authEpoch
  frozen := frozen
  inputHMAC := svc.inputDigest frozen
  revision := 1
  state := .queued
  diagnostics := []
  previewHash := ""
  basePublicationID := (t.heads.find? (scope.id, r.id)).map HeadRow.publicationID
  compileJobID := (Jobs.newJob env.jobs 0 (compileInput svc scope.id batch)).id

/-- The snapshot of a profile, within the limits and with its builds enabled. -/
def freeze (svc : Service) (env : Env) (t : Tables) (scope : Scope) (r : Resource) (batch : ID) :
    Except SubError FrozenPublication :=
  match select svc.schema svc.cores batch r (resources t scope.id) env.stale scope.catalogRevision
      scope.authEpoch with
  | .error e => .error (.select e)
  | .ok selection => do
    checkCores t selection.input.targets
    if env.limits.maxDependencyResources < selection.dependencies.length ||
        env.limits.maxTargetsPerSubscription < selection.input.targets.length then
      .error (.catalog (.diagnostics (limitDiagnostic "/dependencies" r.id)))
    else pure { selection with limits := some env.limits }

/-- Enqueue the compilation of a new batch and insert the batch. -/
def insertBatch (svc : Service) (env : Env) (s : Store) (a : Actor) (b : BatchRow) :
    Except SubError Store :=
  match Jobs.enqueueTx svc.wire env.jobs 0 s (compileInput svc b.scopeID b.id) with
  | .error _ => unavailable
  | .ok s =>
    match s.business.batches.insert? b with
    | none => unavailable
    | some batches =>
      .ok (withTables s fun t => audit { t with batches := batches } a b.id .compile)

def namesTargets (keys : List String) (p : SubscriptionProfile) : Bool :=
  keys.insertionSort (· ≤ ·) = p.enabledKeys.insertionSort (· ≤ ·) && p.enabledKeys ≠ []

/-- The first transaction of a compile request: the batch, and whether it was there before. -/
def compileTx (svc : Service) (env : Env) (s : Store) (a : Actor) (id : ID) (expected : ℕ)
    (keys : List String) : Except SubError (Store × ID × Bool) :=
  if !validIDs [a.scopeID, a.id, id] || expected < 1 then invalidInput
  else do
    let scope ← lockScope s.business a.scopeID
    let (r, p) ← profile s.business a.scopeID id
    if !r.metadata.enabled then .error .blocked
    else if !namesTargets keys p then invalidInput
    else do
      let (t, batch, replay) ← operation svc s.business a (.compile id expected keys) env.newID
      if replay then pure ({ s with business := t }, batch, true)
      else if r.metadata.revision ≠ expected then .error (.catalog .revisionConflict)
      else do
        let frozen ← freeze svc env t scope r batch
        let s ← insertBatch svc env { s with business := t } a
          (newBatch svc env t scope r expected batch frozen)
        pure (s, batch, false)

/-! ## Compiling -/

/-- An artifact as the compiler made it. -/
structure Compiled where
  target : Target
  bytes : List UInt8
  preview : String
  diagnostics : List Diagnostic

/-- The limits that an artifact exceeds; the rules are checked last. -/
def artifactLimits (profile : ID) (limits : CatalogLimits) (artifact : Artifact) :
    Except CompileError Unit :=
  if limits.maxRules < artifact.ruleCount then
    .error (.diagnostics (limitDiagnostic "/rules" profile))
  else if limits.maxOutbounds < artifact.outboundCount then
    .error (.diagnostics (limitDiagnostic "/outbounds" profile))
  else .ok ()

def presetOf (input : FrozenInputSpec) (target : Target) : Option ClientPreset :=
  (input.find? target.clientPresetID).bind fun r =>
    match r.payload with
    | .clientPreset p => some p
    | _ => none

/-- Compile one target within the limits of the snapshot. -/
def compileTarget (svc : Service) (b : BatchRow) (target : Target) :
    Except CompileError Compiled := do
  let (artifact, diagnostics) ← svc.compile b.frozen.input target
  (b.frozen.limits.elim (.ok ()) fun limits => artifactLimits b.profileID limits artifact)
  svc.publicationEvidence b.frozen.input target
  (presetOf b.frozen.input target).elim (.ok ()) fun preset =>
    svc.checkPublication artifact.bytes target preset
  let preview ← svc.redactedNative artifact.bytes target.format
  pure ⟨target, artifact.bytes, preview, diagnostics⟩

def compileDiagnostics (b : BatchRow) (target : Target) :
    Except CompileError Compiled → List Diagnostic
  | .ok _ => []
  | .error (.diagnostics d) => d
  | .error .other => [diagnostic .invalidValue b.profileID "/targets" target.key]

/-- What the worker commits for a batch that it has read. -/
structure Prepared where
  batch : BatchRow
  outputs : List Compiled
  diagnostics : List Diagnostic

/-- Compile every target of the batch. -/
def prepare (svc : Service) (b : BatchRow) : Prepared where
  batch := b
  outputs := b.frozen.input.targets.filterMap fun target => (compileTarget svc b target).toOption
  diagnostics := b.frozen.input.targets.flatMap fun target =>
    compileDiagnostics b target (compileTarget svc b target)

def Prepared.result (p : Prepared) : Jobs.Result :=
  ⟨.succeeded, some (if p.diagnostics = [] then .pass else .fail), .none, none, none, none⟩

/-- The job of the compile worker, outside any transaction. -/
def handleCompile (svc : Service) (t : Tables) (lease : Jobs.Lease) :
    Except Jobs.JobError Prepared :=
  match svc.decodeBatchID lease.payload with
  | none => .error .invalidInput
  | some id =>
    if lease.job.batchID ≠ some id then .error .invalidInput
    else
      match readBatch t lease.job.scopeID id with
      | .error _ => .error .notFound
      | .ok b => .ok (prepare svc b)

/-! ## Committing outputs -/

def outputSummary (t : Target) : Output where
  targetKey := t.key
  coreBuildID := t.coreBuildID
  coreBuildSHA256 := t.coreBuildSHA256
  adapterVersion := t.adapterVersion
  clientPresetID := t.clientPresetID
  clientPresetRevision := t.clientPresetRevision
  format := t.format
  state := .queued
  artifactID := none
  validationJobID := none
  validationVerdict := none
  diagnostics := []
  previewTruncated := false
  previousPreviewTruncated := false
  previousPreviewExpired := false
  preview := ""
  previousPreview := ""
  changed := false

def previewLimit : ℕ := 32 * 2 ^ 10

/-- The characters of a prefix of at most so many bytes. -/
def takeBytes : ℕ → List Char → List Char
  | _, [] => []
  | n, c :: cs => if c.utf8Size ≤ n then c :: takeBytes (n - c.utf8Size) cs else []

/-- The shown part of a preview, and whether it is only a part. -/
def preview (value : String) : String × Bool :=
  if value.utf8ByteSize ≤ previewLimit then (value, false)
  else (String.ofList (takeBytes previewLimit value.toList), true)

/-- At most so many diagnostics, the last one saying that there are more. -/
def boundDiagnostics (value : List Diagnostic) (limit : ℕ) : List Diagnostic :=
  if value.length ≤ limit then value
  else value.take (limit - 1) ++ [⟨.inputLimitExceeded, .warning, "", "/diagnostics", "",
    "Additional diagnostics are omitted from this bounded response.", ""⟩]

/-- Fresh IDs for the artifact and the validation job of each target. -/
abbrev FreshIDs := String → ID × ID

/-- The row of an artifact. -/
def newOutput (svc : Service) (b : BatchRow) (ids : FreshIDs) (o : Compiled) : OutputRow where
  artifactID := (ids o.target.key).1
  scopeID := b.scopeID
  batchID := b.id
  targetKey := o.target.key
  coreBuildID := o.target.coreBuildID
  descriptor :=
    { outputSummary o.target with
      artifactID := some (ids o.target.key).1
      validationJobID := some (ids o.target.key).2
      state := .validating
      preview := (preview o.preview).1
      previewTruncated := (preview o.preview).2
      diagnostics := boundDiagnostics o.diagnostics 50 }
  bytes := o.bytes
  contentHMAC := svc.outputDigest o.bytes
  validationJobID := (ids o.target.key).2

/-- Insert an output, whose artifact, validation job and target have to be new. -/
def insertOutput (t : Tables) (row : OutputRow) : Option Tables :=
  if t.outputs.rows.any fun o =>
      o.artifactID = row.artifactID || o.validationJobID = row.validationJobID then none
  else (t.outputs.insert? row).map fun outputs => { t with outputs := outputs }

def insertOutputs (t : Tables) : List OutputRow → Option Tables
  | [] => some t
  | row :: rows => (insertOutput t row).bind fun t => insertOutputs t rows

/-- The job in which a core checks the artifact. -/
def validationInput (svc : Service) (b : BatchRow) (ids : FreshIDs) (o : Compiled) :
    Jobs.EnqueueInput :=
  ⟨some (ids o.target.key).2, b.scopeID, some b.id, .runner, .configValidate,
    ((svc.cores.build? o.target.coreBuildID).map fun build =>
      svc.encodeValidation build o.target (ids o.target.key).1 o.bytes).getD [],
    (svc.cores.build? o.target.coreBuildID).map Build.id⟩

/-- A batch whose catalog has moved on is obsolete. -/
def Prepared.nextState (p : Prepared) (scope : Scope) : BatchState :=
  if scope.catalogRevision ≠ p.batch.catalogRevision || scope.authEpoch ≠ p.batch.authEpoch then
    .obsolete
  else if p.diagnostics ≠ [] then .failed
  else .validating

/-- `UPDATE compile_batches SET ... WHERE state IN ('queued', 'compiling')` -/
def BatchRow.compiled (state : BatchState) (diagnostics : List Diagnostic) (b : BatchRow) :
    BatchRow :=
  if b.state = .queued || b.state = .compiling then
    { b with state := state, diagnostics := diagnostics, revision := b.revision + 1 }
  else b

@[simp] theorem BatchRow.compiled_id (state : BatchState) (diagnostics : List Diagnostic)
    (b : BatchRow) : (b.compiled state diagnostics).id = b.id := by
  unfold BatchRow.compiled
  split_ifs <;> rfl

def Prepared.rows (svc : Service) (p : Prepared) (ids : FreshIDs) (state : BatchState) :
    List OutputRow :=
  if state = .validating then p.outputs.map (newOutput svc p.batch ids) else []

def Tables.compiled (t : Tables) (batch : ID) (state : BatchState)
    (diagnostics : List Diagnostic) : Tables :=
  { t with
    batches := t.batches.modify batch (BatchRow.compiled state diagnostics)
      (BatchRow.compiled_id _ _) }

/-- What the worker commits. -/
def Prepared.write (svc : Service) (p : Prepared) (ids : FreshIDs) (t : Tables) : Option Tables :=
  (t.scopes.find? p.batch.scopeID).bind fun scope =>
    (insertOutputs t (p.rows svc ids (p.nextState scope))).map fun t =>
      t.compiled p.batch.id (p.nextState scope) p.diagnostics

/-- One validation for each artifact. -/
def Prepared.enqueues (svc : Service) (p : Prepared) (ids : FreshIDs) (t : Tables) :
    List Jobs.EnqueueInput :=
  match t.scopes.find? p.batch.scopeID with
  | none => []
  | some scope =>
    if p.nextState scope = .validating then p.outputs.map (validationInput svc p.batch ids) else []

/-- The callback that commits the outputs with the result of the compile job. -/
def commitCompile (svc : Service) (p : Prepared) (ids : FreshIDs) : Jobs.Callback Tables :=
  ⟨p.write svc ids, p.enqueues svc ids⟩

/-! ## The state of a batch -/

/-- The state of an output follows its validation. -/
def outputState (job : Jobs.Job) : OutputState :=
  if job.state = .succeeded && job.verdict = some .pass then .ready
  else if job.state.terminal then .failed
  else .validating

def failureCode (job : Jobs.Job) : String :=
  ((job.safeError.map SafeError.code).filter knownError).getD "CORE_CONFIG_INVALID"

/-- The output with the verdict of its validation. -/
def judged (o : OutputRow) (job : Jobs.Job) : Output :=
  { o.descriptor with
    validationVerdict := job.verdict
    state := outputState job
    diagnostics := o.descriptor.diagnostics ++
      if outputState job = .failed then
        [diagnostic (.runner (failureCode job)) o.descriptor.clientPresetID "/artifact"
          o.descriptor.targetKey]
      else [] }

/-- The output rows of a batch in the order of their targets, each with its job. -/
def outputJobs (s : Store) (scope batch : ID) : List (OutputRow × Jobs.Job) :=
  ((s.business.outputs.rows.filter fun o => o.scopeID = scope && o.batchID = batch).insertionSort
    fun a b => a.targetKey ≤ b.targetKey).filterMap fun o =>
      (s.jobs.find? o.validationJobID).map fun job => (o, job)

def outputRows (s : Store) (scope batch : ID) : List (Output × String) :=
  (outputJobs s scope batch).map fun p => (judged p.1 p.2, p.1.contentHMAC)

/-- The state of a batch whose targets all have an output. -/
def outputsState (outputs : List Output) : BatchState :=
  if outputs.any fun o => o.state = .failed then .failed
  else if outputs.any fun o => o.state ≠ .ready then .validating
  else .ready

/-- The state of a batch without all its outputs, by its compile job. -/
def compilingState (state : BatchState) (job : Jobs.Job) : BatchState :=
  match job.state with
  | .failed | .canceled | .timedOut => .failed
  | .leased | .running => .compiling
  | _ => state

def published (t : Tables) (b : BatchRow) : Bool :=
  t.publications.rows.any fun p => p.scopeID = b.scopeID && p.batchID = b.id

/-- The catalog and the authorization are those that the batch was frozen at. -/
def BatchRow.current (b : BatchRow) (scope : Scope) : Bool :=
  scope.catalogRevision = b.catalogRevision && scope.authEpoch = b.authEpoch

/-- The state of a batch, from those of its outputs. -/
def aggregateState (s : Store) (b : BatchRow) (outputs : List Output) :
    Except SubError BatchState := do
  let scope ← lockScope s.business b.scopeID
  let state := if !published s.business b && !b.current scope then .obsolete else b.state
  if state = .failed || state = .obsolete then pure state
  else if outputs.length = b.frozen.input.targets.length then pure (outputsState outputs)
  else
    match s.jobs.find? b.compileJobID with
    | none => notFound
    | some job => pure (compilingState state job)

/-- The preview hash, which a batch gets when it is first ready. -/
def previewHashOf (svc : Service) (b : BatchRow) (state : BatchState) (digests : List String) :
    String :=
  if state = .ready && b.previewHash = "" then
    svc.previewDigest b.id b.basePublicationID b.inputHMAC digests
  else b.previewHash

/-- `UPDATE compile_batches SET state = ..., preview_hash = ... WHERE` one of them differs. -/
def BatchRow.settle (state : BatchState) (hash : String) (b : BatchRow) : BatchRow :=
  if b.state ≠ state || b.previewHash ≠ hash then
    { b with state := state, previewHash := hash, revision := b.revision + 1 }
  else b

@[simp] theorem BatchRow.settle_id (state : BatchState) (hash : String) (b : BatchRow) :
    (b.settle state hash).id = b.id := by
  unfold BatchRow.settle
  split_ifs <;> rfl

/-- Bring a batch up to date with its jobs: the row it has now, and its outputs. -/
def aggregate (svc : Service) (s : Store) (b : BatchRow) :
    Except SubError (Store × BatchRow × List Output) := do
  let rows := outputRows s b.scopeID b.id
  let state ← aggregateState s b (rows.map Prod.fst)
  let hash := previewHashOf svc b state (rows.map Prod.snd)
  pure (withTables s fun t =>
      { t with
        batches := t.batches.modify b.id (BatchRow.settle state hash) (BatchRow.settle_id _ _) },
    b.settle state hash, rows.map Prod.fst)

/-! ## Safety -/

/-- The resource is enabled, not deleted, and under the epoch it was frozen at. -/
def dependencyOk (t : Tables) (scope id : ID) (epoch : ℕ) : Bool :=
  (t.row? scope id).any fun row => row.resource.metadata.enabled && !row.deleted &&
    row.resource.metadata.securityEpoch = epoch

/-- The profile still has the target enabled, with the same format. -/
def authorizes (p : SubscriptionProfile) (key : String) (format : OutputFormat) : Bool :=
  p.targets.any fun live => live.isEnabled && live.key = key && live.format = format

/-- The targets may still be published. -/
def safeTargets (t : Tables) (p : SubscriptionProfile) : List Target → Except SubError Unit
  | [] => .ok ()
  | target :: targets =>
    match t.coreBuilds.find? target.coreBuildID with
    | none => notFound
    | some c =>
      if !c.enabled || !authorizes p target.key target.format then .error .blocked
      else safeTargets t p targets

/-- Revisions may have moved on; what was frozen may not have been disabled or rotated. -/
def safeBatch (t : Tables) (b : BatchRow) (current : Resource × SubscriptionProfile) :
    Except SubError Unit :=
  if !current.1.metadata.enabled then .error .blocked
  else do
    let scope ← lockScope t b.scopeID
    if scope.authEpoch ≠ b.authEpoch then .error .blocked
    else if !b.frozen.dependencies.all fun d =>
        dependencyOk t b.scopeID d.resourceID d.securityEpoch then .error .blocked
    else safeTargets t current.2 b.frozen.input.targets

/-- The profile is there and publishing the batch is safe. -/
def isSafe (t : Tables) (b : BatchRow) (id : ID) : Bool :=
  match profile t b.scopeID id with
  | .error _ => false
  | .ok current => (safeBatch t b current).isOk

/-! ## Reading a batch -/

/-- A batch as the API shows it. -/
structure Batch where
  batchID : ID
  revision : ℕ
  subscriptionID : ID
  subscriptionRevision : ℕ
  catalogRevision : ℕ
  state : BatchState
  jobIDs : List ID
  effectivePreviewHash : String
  dependencies : List Dependency
  outputs : List Output
  diagnostics : List Diagnostic
  blockingReasons : List Diagnostic
deriving DecidableEq, Repr

/-- The outputs as they are shown: before there are any, one for each target. -/
def shownOutputs (b : BatchRow) (outputs : List Output) : List Output :=
  if outputs = [] then
    b.frozen.input.targets.map fun t =>
      { outputSummary t with state := if b.state = .failed then .failed else .queued }
  else outputs

/-- Whether the output differs from the one that is published. -/
def comparedOutput (previous current : List (Output × String)) (o : Output) : Output :=
  let changed := o.artifactID.isSome
  match previous.find? fun p => p.1.targetKey = o.targetKey with
  | none => { o with changed := changed }
  | some p =>
    { o with
      previousPreview := p.1.preview
      previousPreviewTruncated := p.1.previewTruncated
      changed := ((current.find? fun c => c.1.targetKey = p.1.targetKey).map fun c =>
        decide (c.2 ≠ p.2)).getD changed }

def comparedOutputs (s : Store) (b : BatchRow) (outputs : List Output) : List Output :=
  match b.basePublicationID with
  | none => outputs.map fun o => { o with changed := o.artifactID.isSome }
  | some base =>
    match (s.business.publications.find? base).filter fun p => p.scopeID = b.scopeID with
    | none => outputs.map fun o => { o with previousPreviewExpired := true }
    | some p => outputs.map (comparedOutput (outputRows s b.scopeID p.batchID)
        (outputRows s b.scopeID b.id))

/-- Why the batch cannot be published now. -/
def blockingReasons (t : Tables) (b : BatchRow) : List Diagnostic :=
  (if b.state = .validating then
    [diagnostic .runnerValidationPending b.profileID "/outputs" ""] else []) ++
  if b.state = .ready && !isSafe t b b.profileID then
    [diagnostic .publicationBlocked b.profileID "/publication" ""] else []

def shownBatch (s : Store) (b : BatchRow) (outputs : List Output) : Batch :=
  let outputs := shownOutputs b outputs
  { batchID := b.id
    revision := b.revision
    subscriptionID := b.profileID
    subscriptionRevision := b.profileRevision
    catalogRevision := b.catalogRevision
    state := b.state
    jobIDs := b.compileJobID :: outputs.filterMap Output.validationJobID
    effectivePreviewHash := b.previewHash
    dependencies := b.frozen.dependencies
    outputs := comparedOutputs s b outputs
    diagnostics := boundDiagnostics (b.diagnostics ++
      (outputs.filter fun o => o.state = .failed).flatMap fun o =>
        o.diagnostics.filter fun d => d.severity = .error) 200
    blockingReasons := blockingReasons s.business b }

/-- Read a batch. Reading a ready one records that the actor has seen its preview. -/
def getBatch (svc : Service) (s : Store) (a : Actor) (id : ID) :
    Except SubError (Store × Batch) :=
  if !validIDs [a.scopeID, a.id, id] then invalidInput
  else do
    let _ ← lockScope s.business a.scopeID
    let b ← readBatch s.business a.scopeID id
    let (s, b, outputs) ← aggregate svc s b
    let batch := shownBatch s b outputs
    if b.state = .ready then
      pure (withTables s fun t =>
        { t with views := t.views.upsert ⟨a.scopeID, a.id, id, b.previewHash⟩ }, batch)
    else pure (s, batch)

/-- Bring the state of the batch up to date. -/
def reconcile (svc : Service) (s : Store) (scope id : ID) : Except SubError Store := do
  let _ ← lockScope s.business scope
  let b ← readBatch s.business scope id
  let (s, _, _) ← aggregate svc s b
  pure s

end ProxyLoom.Subscriptions
