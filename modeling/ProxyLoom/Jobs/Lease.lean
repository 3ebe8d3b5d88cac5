import ProxyLoom.Jobs.Queue

/-!
# Leases

How a worker gets a job, keeps it, reports on it and finishes it. Each call after the claim names
the worker, the attempt and the lease sequence number, and is checked against the job's row.
-/

namespace ProxyLoom.Jobs

open IR RunnerProtocol

variable {β : Type}

/-! ## Claiming -/

/-- A worker that asks for a job. -/
structure ClaimInput where
  executor : Executor
  workerID : ID
  types : List JobType
  coreBuildIDs : List ID
  availableSlots : Slots
  maximumSlots : Slots
deriving DecidableEq, Repr

def ClaimInput.valid (input : ClaimInput) : Bool :=
  ID.validate input.workerID && 1 ≤ input.types.length && input.types.length ≤ 3 &&
    input.types.all (validType input.executor) && input.coreBuildIDs.all ID.validate &&
    (input.executor ≠ .runner ||
      (1 ≤ input.coreBuildIDs.length && input.coreBuildIDs.length ≤ 100))

def noSlots : Slots := ⟨0, 0, 0⟩

/-- The oldest of the queued jobs that satisfy a condition, skipping locked rows. -/
def oldestQueued (env : Env) (s : Store β) (p : Job → Bool) : Option Job :=
  ((s.jobs.rows.filter fun j => j.state = .queued && j.cancelRequestedAt.isNone && p j &&
    !env.locked j.id).insertionSort Job.before).head?

/-- One head of the queue for each type, oldest first. -/
def claimHeads (env : Env) (s : Store β) (input : ClaimInput) : List Job :=
  (input.types.filterMap fun kind => oldestQueued env s fun j =>
    j.executor = input.executor && j.kind = kind &&
      j.coreBuildID.any (fun id => input.coreBuildIDs.contains id)).insertionSort Job.before

/-- The slots that the worker and the quota leave for a job: the worker's own limit, the limit over
all workers, and what the worker says is free. -/
def slotLimits (input : ClaimInput) (q : Quota) (kind : JobType) : ℤ × ℤ × ℤ :=
  let maximum : Slots := if input.maximumSlots = noSlots then ⟨1, 4, 1⟩ else input.maximumSlots
  match kind with
  | .connectivity =>
    (min q.connectivityConcurrency maximum.connectivity, q.connectivityConcurrency,
      input.availableSlots.connectivity)
  | .downloadThroughput =>
    (min q.throughputConcurrency maximum.downloadThroughput, q.throughputConcurrency,
      input.availableSlots.downloadThroughput)
  | _ =>
    (1, 2147483647,
      if input.availableSlots = noSlots then 1 else input.availableSlots.configValidate)

def activeLeases (env : Env) (s : Store β) (p : Job → Bool) : ℤ :=
  ((s.jobs.rows.filter fun j => j.executor = .runner && j.leaseValid env.finish && p j).length : ℤ)

/-- A free slot for the job, on this worker and over all workers. A worker never runs offline and
network jobs at the same time. -/
def slotFree (env : Env) (s : Store β) (input : ClaimInput) (q : Quota) (job : Job) : Bool :=
  let (localLimit, globalLimit, available) := slotLimits input q job.kind
  let mine (j : Job) : Bool := j.workerID = some input.workerID
  let offline := activeLeases env s fun j => mine j && j.kind = .configValidate
  let online := activeLeases env s fun j => mine j && j.kind.network
  1 ≤ available && !(job.kind.network && 0 < offline) &&
    !(job.kind = .configValidate && 0 < online) &&
    activeLeases env s (fun j => j.kind = job.kind) < globalLimit &&
    activeLeases env s (fun j => j.kind = job.kind && mine j) < localLimit

/-- Walk the candidates: a revoked test is cancelled, a job without a slot is passed over. Nothing
found is no failure, so the claim commits what was written up to there. -/
def pickCandidate (wire : Wire) (env : Env) (input : ClaimInput) :
    Store β → List Job → Except JobError (Store β × Option Job)
  | s, [] => .ok (s, none)
  | s, job :: jobs =>
    if env.testRevoked job.id then
      match cancelChild wire env s job with
      -- `Claim` reads a missing row here as an empty queue and commits the cancellation mark
      | .error .notFound => .ok (markCancel env s job, none)
      | .error e => .error e
      | .ok s => pickCandidate wire env input s jobs
    else
      match env.quota job.scopeID with
      | .error .notFound => .ok (s, none)
      | .error e => .error e
      | .ok q =>
        if slotFree env s input q job then .ok (s, some job)
        else pickCandidate wire env input s jobs

/-- The job that a worker gets. -/
def claimCandidate (wire : Wire) (env : Env) (s : Store β) (input : ClaimInput) :
    Except JobError (Store β × Option Job) :=
  match input.executor with
  | .apiWorker =>
    .ok (s, oldestQueued env s fun j =>
      j.executor = input.executor && input.types.contains j.kind)
  | .runner => pickCandidate wire env input s (claimHeads env s input)

/-- `UPDATE jobs SET state = 'leased', attempt = attempt + 1, lease_seq = lease_seq + 1, ...`. -/
def Job.lease (worker : ID) (now : Time) (j : Job) : Job :=
  { j with
    state := .leased
    attempt := j.attempt + 1
    leaseSeq := j.leaseSeq + 1
    revision := j.revision + 1
    workerID := some worker
    leaseUntil := some (now + leaseDuration)
    startedAt := j.startedAt.or (some now)
    safeError := none }

@[simp] theorem Job.lease_id (worker : ID) (now : Time) (j : Job) :
    (j.lease worker now).id = j.id := rfl

/-- A job as its worker has it. -/
structure Lease where
  job : Job
  identity : LeaseIdentity
  payload : List UInt8
  expiresAt : Time
deriving DecidableEq, Repr

/-- The payload handed to the worker: for a network job, with the reservation of the attempt. -/
def leasePayload (wire : Wire) (s : Store β) (job : Job) : Except JobError (List UInt8) :=
  if job.kind.network then
    match wire.decodeFrozenPayload job.payload with
    | none => .error .invalidInput
    | some frozen =>
      match s.reservations.find? (job.id, job.attempt) with
      | some r =>
        if r.settledAt.isNone && r.reservedBytes = frozen.maxBytes then
          .ok (wire.encodeFrozenPayload { frozen with quotaReservationID := r.id })
        else .error .notFound
      | none => .error .notFound
  else .ok job.payload

/-- Lease a chosen job. The schema admits attempts up to 2. -/
def leaseJob (wire : Wire) (env : Env) (s : Store β) (worker : ID) (job : Job) :
    Except JobError (Store β × Lease) :=
  match s.jobs.find? job.id with
  | none => .error .notFound
  | some row =>
    if row.state ≠ .queued || row.cancelRequestedAt.isSome then .error .notFound
    else if 2 < row.attempt + 1 then .error .invalidInput
    else do
      let leased := row.lease worker env.finish
      let s := { s with
        jobs := s.jobs.modify job.id (Job.lease worker env.finish) (Job.lease_id _ _) }
      let payload ← leasePayload wire s leased
      let (s, _) ← appendJobEvent wire s leased
        ⟨env.newID (.event job.id), .leased, 0, 1, none, none⟩
      pure (s, ⟨leased, ⟨leased.id, worker, leased.attempt, leased.leaseSeq⟩, payload,
        env.finish + leaseDuration⟩)

/-- The claim itself, after the expired leases were reaped in a transaction of their own. -/
def claim (wire : Wire) (env : Env) (s : Store β) (input : ClaimInput) :
    Except JobError (Store β × Option Lease) :=
  if input.valid then
    match claimCandidate wire env s input with
    | .error e => .error e
    | .ok (s, none) => .ok (s, none)
    | .ok (s, some job) =>
      match leaseJob wire env s input.workerID job with
      | .error e => .error e
      | .ok (s, lease) => .ok (s, some lease)
  else .error .invalidInput

/-! ## Checking a lease -/

/-- The job, if the lease names its current attempt. -/
def lockLease (s : Store β) (id : LeaseIdentity) : Except JobError Job :=
  if id.valid then
    match s.jobs.find? id.jobID with
    | some job => if id.names job then .ok job else .error .leaseLost
    | none => .error .leaseLost
  else .error .invalidInput

/-- The lease still holds. -/
def validLease (s : Store β) (id : LeaseIdentity) (allowCancel : Bool) (now : Time) : Bool :=
  (s.jobs.find? id.jobID).any fun job =>
    id.names job && job.leaseValid now && (allowCancel || job.cancelRequestedAt.isNone)

structure Heartbeat where
  expiresAt : Time
  cancelRequested : Bool
deriving DecidableEq, Repr

/-- `UPDATE jobs SET lease_until = ..., cancel_requested_at = ...` of a heartbeat. -/
def Job.beat (revoked : Bool) (now : Time) (j : Job) : Job :=
  { j with
    leaseUntil := some (now + leaseDuration)
    cancelRequestedAt := if revoked then j.cancelRequestedAt.or (some now) else j.cancelRequestedAt
    revision := if revoked && j.cancelRequestedAt.isNone then j.revision + 1 else j.revision }

@[simp] theorem Job.beat_id (revoked : Bool) (now : Time) (j : Job) :
    (j.beat revoked now).id = j.id :=
  rfl

/-- Extend a lease, and tell whether the job is cancelled. -/
def heartbeat (env : Env) (s : Store β) (id : LeaseIdentity) :
    Except JobError (Store β × Heartbeat) :=
  if id.valid then
    match s.jobs.find? id.jobID with
    | none => .error .leaseLost
    | some job =>
      if id.names job && job.leaseValid env.start then
        .ok ({ s with
            jobs := s.jobs.modify id.jobID (Job.beat (env.testRevoked job.id) env.finish)
              (Job.beat_id _ _) },
          ⟨env.finish + leaseDuration,
            (job.beat (env.testRevoked job.id) env.finish).cancelRequested⟩)
      else .error .leaseLost
  else .error .invalidInput

/-- Phases that only the API worker reports. -/
def Phase.apiOnly : Phase → Bool
  | .queued | .fetching | .parsing | .compiling => true
  | _ => false

def Job.run (j : Job) : Job :=
  { j with
    state := .running
    revision := if j.state = .leased then j.revision + 1 else j.revision }

@[simp] theorem Job.run_id (j : Job) : j.run.id = j.id := rfl

/-- Record the progress of a running job. -/
def event (wire : Wire) (env : Env) (s : Store β) (id : LeaseIdentity) (input : EventInput) :
    Except JobError (Store β × EventReceipt) := do
  let input ← cleanEvent input
  let job ← lockLease s id
  if !validLease s id true env.start then .error .leaseLost
  else if job.executor = .runner && input.phase.apiOnly then .error .invalidInput
  else
    match s.events.find? (id.jobID, id.attempt, id.leaseSeq, input.eventID) with
    | some e =>
      if e.eventHash ≠ wire.eventDigest input then .error .conflict
      else .ok (s, ⟨id.jobID, id.attempt, id.leaseSeq, input.eventID, e.seq, true⟩)
    | none => do
      let s := if input.phase = .leased then s
        else { s with jobs := s.jobs.modify id.jobID Job.run Job.run_id }
      let (s, receipt) ← appendJobEvent wire s job input
      if validLease s id true env.finish then pure (s, receipt) else .error .leaseLost

/-! ## Finishing -/

/-- The result with its safe error and its hash, if it is well formed. A hash that the caller sent
along has to be that hash. -/
def canonicalResult (wire : Wire) (input : Result) : Except JobError (Result × String) :=
  if !input.observation.all NetworkObservation.validate then .error .invalidInput
  else if !input.state.terminal || (input.state = .succeeded && input.verdict.isNone) ||
      !validateMetrics wire.parseAddr input.metrics then
    .error .invalidInput
  else if input.error.any (fun e => !knownError e.code) then .error .invalidInput
  else
    let error := input.error.map fun e => safe e.code
    -- the digest covers everything but the hash itself
    let hash := wire.resultDigest { input with error := error, hash := none }
    if input.hash.any (fun h => h ≠ hash) then .error .conflict
    else .ok ({ input with error := error, hash := some hash }, hash)

/-- The codes of failures that are put down to the infrastructure. -/
def infrastructureCodes : List String :=
  ["CORE_BINARY_MISMATCH", "RUNNER_RESOURCE_LIMIT", "PORT_BUSY", "SERVICE_UNAVAILABLE"]

/-- A failure of the infrastructure: the job gets its one further attempt. -/
def infrastructureRetry (job : Job) (result : Result) : Bool :=
  job.kind ≠ .downloadThroughput && job.attempt < 2 && result.state = .failed &&
    !job.cancelRequested && result.error.any fun e => infrastructureCodes.contains e.code

/-- A business callback: what it writes, or its failure, and the jobs it enqueues. Both depend on
the rows it reads. -/
structure Callback (β : Type) where
  effect : β → Option β
  enqueues : β → List EnqueueInput

/-- The writes of the callback, and its jobs. -/
def runCallback (wire : Wire) (env : Env) (s : Store β) (c : Callback β) :
    Except JobError (Store β) :=
  match c.effect s.business with
  | none => .error .callback
  | some business =>
    enqueueAll wire env 0 { s with business := business } (c.enqueues s.business)

/-- What a worker hears of its result. -/
structure ResultReceipt where
  jobID : ID
  attempt : ℕ
  leaseSeq : ℕ
  resultID : ID
  resultHash : String
  replayed : Bool
  settledBytes : ℤ
deriving DecidableEq, Repr

/-- The state, verdict and error a finished attempt leaves, reserving a retry where one is due. -/
def completeOutcome (env : Env) (s : Store β) (job : Job) (input : Result) :
    Except JobError (Store β × State × Option Verdict × Option SafeError) :=
  if infrastructureRetry job input then
    if job.kind.network then
      match reserveRetry env s job with
      | .error e => .error e
      | .ok (s, some _) => .ok (s, .queued, none, input.error)
      | .ok (s, none) => .ok (s, .failed, some .inconclusive, some (safe "BUDGET_EXCEEDED"))
    else .ok (s, .queued, none, input.error)
  else .ok (s, input.state, input.verdict, input.error)

/-- `UPDATE jobs SET state = ..., lease_until = NULL, verdict = ..., ...` of a finished attempt. -/
def Job.finish (now : Time) (state : State) (verdict : Option Verdict) (error : Option SafeError)
    (j : Job) : Job :=
  { j with
    state := state
    revision := j.revision + 1
    leaseUntil := none
    verdict := verdict
    safeError := error
    finishedAt := if state = .queued then none else some now }

@[simp] theorem Job.finish_id (now : Time) (state : State) (verdict : Option Verdict)
    (error : Option SafeError) (j : Job) : (j.finish now state verdict error).id = j.id := rfl

def insertResult (env : Env) (s : Store β) (id : LeaseIdentity) (hash : String) (input : Result)
    (settled : ℤ) : Except JobError (Store β) :=
  let resultID := env.newID (.result id.jobID)
  if s.results.rows.any (fun r => r.resultID = resultID) then .error .conflict
  else
    match s.results.insert?
        ⟨resultID, id.jobID, id.workerID, id.attempt, id.leaseSeq, hash, input, settled⟩ with
    | none => .error .conflict
    | some results => .ok { s with results := results }

/-- Run the business callback, which a cancelled job never does. -/
def callbackTx (wire : Wire) (env : Env) (s : Store β) (job : Job) :
    Option (Callback β) → Except JobError (Store β)
  | none => .ok s
  | some c => if job.cancelRequested then .error .canceled else runCallback wire env s c

/-- Record the outcome of an attempt, if its lease did not expire during the callback. -/
def recordAttempt (wire : Wire) (env : Env) (s : Store β) (id : LeaseIdentity) (job : Job)
    (input : Result) (hash : String) : Except JobError (Store β × ResultReceipt) :=
  if !validLease s id true env.finish then .error .leaseLost
  else do
    let (s, settled) ← settleAttempt env s job job.attempt input.metrics.bodyBytes
    let s ← insertResult env s id hash input settled
    let (s, state, verdict, error) ← completeOutcome env s job input
    -- the final update repeats the conditions of the lease
    if !validLease s id true env.finish then .error .leaseLost
    else do
      let (s, _) ← appendJobEvent wire { s with
          jobs := s.jobs.modify id.jobID (Job.finish env.finish state verdict error)
            (Job.finish_id _ _ _ _) } job
        ⟨env.newID (.event job.id), if state = .queued then .queued else .completed,
          if state = .queued then 0 else 1, 1, verdict, error⟩
      pure (s, ⟨id.jobID, id.attempt, id.leaseSeq, env.newID (.result id.jobID), hash, false,
        settled⟩)

def ResultRow.receipt (r : ResultRow) : ResultReceipt :=
  ⟨r.jobID, r.attempt, r.leaseSeq, r.resultID, r.resultHash, true, r.settledBytes⟩

/-- The result of this attempt, if there is one. -/
def recordedResult (s : Store β) (id : LeaseIdentity) : Option ResultRow :=
  (s.results.find? (id.jobID, id.attempt, id.leaseSeq)).filter fun r => r.workerID = id.workerID

/-- The part of `completeTx` that runs without a recorded result. -/
def finishAttempt (wire : Wire) (env : Env) (s : Store β) (id : LeaseIdentity) (job : Job)
    (input : Result) (hash : String) (callback : Option (Callback β)) :
    Except JobError (Store β × ResultReceipt) :=
  if !validLease s id true env.start then .error .leaseLost
  else if job.cancelRequested && input.state ≠ .canceled then .error .canceled
  else do
    let s ← callbackTx wire env s job callback
    recordAttempt wire env s id job input hash

/-- Metrics and observations that only a network job may report. -/
def resultFits (job : Job) (input : Result) : Bool :=
  job.kind.network || (validateConfigMetrics input.metrics && input.observation.isNone)

/-- Finish an attempt. The callback and the outcome commit together or not at all; the result says
whether the callback ran. -/
def completeTx (wire : Wire) (env : Env) (s : Store β) (id : LeaseIdentity) (input : Result)
    (callback : Option (Callback β)) : Except JobError (Store β × ResultReceipt × Bool) := do
  let (input, hash) ← canonicalResult wire input
  let job ← lockLease s id
  if !resultFits job input then .error .invalidInput
  else
    match recordedResult s id with
    | some r => if r.resultHash ≠ hash then .error .conflict else .ok (s, r.receipt, false)
    | none => do
      let (s, receipt) ← finishAttempt wire env s id job input hash callback
      pure (s, receipt, callback.isSome)

end ProxyLoom.Jobs
