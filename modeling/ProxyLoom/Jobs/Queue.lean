import ProxyLoom.Lib.Result
import ProxyLoom.Jobs.Types

/-!
# The transactions of the job queue

Every function below is one transaction or a part of one: it takes the tables and either fails,
and then nothing is written, or returns the tables it commits. The clock is read when the
transaction starts (`env.start`) and when it finishes (`env.finish`).
-/

namespace ProxyLoom.Jobs

open IR RunnerProtocol

variable {β : Type}

/-! ## Events -/

structure EventReceipt where
  jobID : ID
  attempt : ℕ
  leaseSeq : ℕ
  eventID : ID
  seq : ℕ
  replayed : Bool
deriving DecidableEq, Repr

/-- An event as it is stored. -/
def cleanEvent (input : EventInput) : Except JobError EventInput :=
  if !ID.validate input.eventID || input.completed < 0 || input.total < 0 ||
      input.total < input.completed then
    .error .invalidInput
  else
    match input.error with
    | none => .ok input
    | some e =>
      if knownError e.code then .ok { input with error := some (safe e.code) }
      else .error .invalidInput

def Job.bump (j : Job) : Job := { j with eventSeq := j.eventSeq + 1 }

@[simp] theorem Job.bump_id (j : Job) : j.bump.id = j.id := rfl

/-- Append an event under the next number. -/
def appendJobEvent (wire : Wire) (s : Store β) (job : Job) (input : EventInput) :
    Except JobError (Store β × EventReceipt) := do
  let input ← cleanEvent input
  match s.jobs.find? job.id with
  | none => .error .notFound
  | some row =>
    let seq := row.eventSeq + 1
    let event : EventRow :=
      ⟨job.id, seq, job.attempt, job.leaseSeq, input.eventID, wire.eventDigest input, input⟩
    if s.events.rows.any (fun e => e.jobID = job.id && e.seq = seq) then .error .conflict
    else
      match s.events.insert? event with
      | none => .error .conflict
      | some events =>
        .ok ({ s with jobs := s.jobs.modify job.id Job.bump Job.bump_id, events := events },
          ⟨job.id, job.attempt, job.leaseSeq, input.eventID, seq, false⟩)

/-! ## The byte budget -/

/-- `INSERT ... ON CONFLICT DO NOTHING` of an empty bucket. -/
def ensureBucket (buckets : Table Bucket.key) (scope : ID) (day : ℕ) : Table Bucket.key :=
  (buckets.insert? ⟨scope, day, 0, 0⟩).getD buckets

def Bucket.reserve (bytes : ℤ) (b : Bucket) : Bucket :=
  { b with reservedBytes := b.reservedBytes + bytes }

@[simp] theorem Bucket.reserve_key (bytes : ℤ) (b : Bucket) : (b.reserve bytes).key = b.key := rfl

def Bucket.settle (reserved actual : ℤ) (b : Bucket) : Bucket :=
  { b with reservedBytes := b.reservedBytes - reserved, settledBytes := b.settledBytes + actual }

@[simp] theorem Bucket.settle_key (reserved actual : ℤ) (b : Bucket) :
    (b.settle reserved actual).key = b.key := rfl

/-- The guard of the bucket update: the reservation still fits in the daily budget. -/
def Bucket.admits (b : Bucket) (daily bytes : ℤ) : Bool :=
  b.settledBytes ≤ daily && b.reservedBytes ≤ daily - b.settledBytes &&
    bytes ≤ daily - b.settledBytes - b.reservedBytes

def newReservation (env : Env) (job : Job) (attempt : ℕ) (maximum : ℤ) : Reservation where
  id := env.newID (.reservation job.id attempt)
  scopeID := job.scopeID
  jobID := job.id
  attempt := attempt
  utcDay := utcDay env.finish
  reservedBytes := maximum
  settledBytes := none
  settledAt := none

/-- Charge a reservation to today's bucket, if it fits there. -/
def chargeBucket (s : Store β) (r : Reservation) (daily : ℤ) :
    Except JobError (Store β × Option ID) :=
  let buckets := ensureBucket s.buckets r.scopeID r.utcDay
  if (buckets.find? (r.scopeID, r.utcDay)).any fun b => b.admits daily r.reservedBytes then
    if s.reservations.rows.any (fun r' => r'.id = r.id) then .error .conflict
    else
      match s.reservations.insert? r with
      | none => .error .conflict
      | some reservations =>
        .ok ({ s with
            buckets := buckets.modify (r.scopeID, r.utcDay) (Bucket.reserve r.reservedBytes)
              (Bucket.reserve_key _)
            reservations := reservations }, some r.id)
  else .ok ({ s with buckets := buckets }, none)

/-- Reserve bytes for an attempt. A reservation that exists is returned without consulting a
bucket; no reservation is returned when the budget is exceeded. -/
def reserveAttempt (env : Env) (s : Store β) (job : Job) (attempt : ℕ) (maximum : ℤ) :
    Except JobError (Store β × Option ID) :=
  if !job.kind.network || attempt < 1 || 2 < attempt || maximum < 1 || 2 ^ 30 < maximum then
    .error .invalidInput
  else
    match s.reservations.find? (job.id, attempt) with
    | some existing =>
      if existing.reservedBytes ≠ maximum then .error .conflict else .ok (s, some existing.id)
    | none =>
      match env.quota job.scopeID with
      | .error e => .error e
      | .ok quota =>
        if quota.maxTestBytes < maximum then .ok (s, none)
        else chargeBucket s (newReservation env job attempt maximum) quota.dailyDownloadBytes

/-- Set aside as much as for the last attempt. -/
def reserveRetry (env : Env) (s : Store β) (job : Job) :
    Except JobError (Store β × Option ID) :=
  match s.reservations.find? (job.id, job.attempt) with
  | none => .error .notFound
  | some r => reserveAttempt env s job (job.attempt + 1) r.reservedBytes

def Reservation.settle (actual : ℤ) (now : Time) (r : Reservation) : Reservation :=
  { r with settledBytes := some actual, settledAt := some now }

@[simp] theorem Reservation.settle_key (actual : ℤ) (now : Time) (r : Reservation) :
    (r.settle actual now).key = r.key := rfl

/-- Settle an attempt's reservation. Unknown usage settles all of it. -/
def settleAttempt (env : Env) (s : Store β) (job : Job) (attempt : ℕ) (usage : Option ℤ) :
    Except JobError (Store β × ℤ) :=
  if !job.kind.network then .ok (s, 0)
  else
    match s.reservations.find? (job.id, attempt) with
    | none => .error .notFound
    | some r =>
      match r.settledBytes with
      | some settled => .ok (s, settled)
      | none =>
        if usage.any (fun u => u < 0 || r.reservedBytes < u) then .error .invalidInput
        else
          let actual := usage.getD r.reservedBytes
          .ok ({ s with
              buckets := s.buckets.modify (job.scopeID, r.utcDay)
                (Bucket.settle r.reservedBytes actual) (Bucket.settle_key _ _)
              reservations := s.reservations.modify (job.id, attempt)
                (Reservation.settle actual env.finish) (Reservation.settle_key _ _) }, actual)

/-! ## Enqueueing -/

structure EnqueueInput where
  id : Option ID
  scopeID : ID
  batchID : Option ID
  executor : Executor
  kind : JobType
  payload : List UInt8
  coreBuildID : Option ID
deriving DecidableEq, Repr

def EnqueueInput.valid (wire : Wire) (input : EnqueueInput) : Bool :=
  ID.validate input.scopeID && validType input.executor input.kind && input.payload ≠ [] &&
    input.payload.length ≤ maxPayloadBytes && input.id.all ID.validate &&
    input.batchID.all ID.validate &&
    match input.executor with
    | .runner =>
      (wire.decodeFrozenPayload input.payload).any fun frozen =>
        input.coreBuildID = some frozen.coreBuildID && input.kind.text = frozen.type
    | .apiWorker => input.coreBuildID.isNone

/-- A job as it is enqueued. -/
def newJob (env : Env) (n : ℕ) (input : EnqueueInput) : Job where
  id := input.id.getD (env.newID (.job n))
  scopeID := input.scopeID
  batchID := input.batchID
  revision := 1
  executor := input.executor
  kind := input.kind
  state := .queued
  attempt := 0
  leaseSeq := 0
  workerID := none
  leaseUntil := none
  cancelRequestedAt := none
  verdict := none
  safeError := none
  eventSeq := 0
  createdAt := env.start
  startedAt := none
  finishedAt := none
  coreBuildID := input.coreBuildID
  payload := input.payload

def Job.withPayload (payload : List UInt8) (j : Job) : Job := { j with payload := payload }

@[simp] theorem Job.withPayload_id (payload : List UInt8) (j : Job) :
    (j.withPayload payload).id = j.id := rfl

/-- Reserve the first attempt of a network job and put the reservation into its payload. -/
def reserveFirst (wire : Wire) (env : Env) (s : Store β) (job : Job) :
    Except JobError (Store β) :=
  if job.kind.network then
    match wire.decodeFrozenPayload job.payload with
    | none => .error .invalidInput
    | some frozen =>
      match reserveAttempt env s job 1 frozen.maxBytes with
      | .error e => .error e
      | .ok (_, none) => .error .budgetExceeded
      | .ok (s, some reservation) =>
        let payload := wire.encodeFrozenPayload { frozen with quotaReservationID := reservation }
        .ok { s with jobs := s.jobs.modify job.id (Job.withPayload payload) (Job.withPayload_id _) }
  else .ok s

/-- The index `jobs_source_refresh_active`: a source has one unfinished refresh at a time. -/
def refreshActive (s : Store β) (input : EnqueueInput) : Bool :=
  input.kind = .sourceRefresh && input.batchID.isSome && s.jobs.rows.any fun j =>
    j.kind = .sourceRefresh && j.scopeID = input.scopeID && j.batchID = input.batchID &&
      !j.state.terminal

/-- Insert a job in the caller's transaction; `n` numbers the jobs inserted there. -/
def enqueueTx (wire : Wire) (env : Env) (n : ℕ) (s : Store β) (input : EnqueueInput) :
    Except JobError (Store β) :=
  if input.valid wire then
    let job := newJob env n input
    if refreshActive s input then .error .conflict
    else match s.jobs.insert? job with
    | none => .error .conflict
    | some jobs => do
      let s ← reserveFirst wire env { s with jobs := jobs } job
      let (s, _) ← appendJobEvent wire s job ⟨env.newID (.event job.id), .queued, 0, 1, none, none⟩
      pure s
  else .error .invalidInput

def enqueueAll (wire : Wire) (env : Env) : ℕ → Store β → List EnqueueInput →
    Except JobError (Store β)
  | _, s, [] => .ok s
  | n, s, input :: inputs =>
    match enqueueTx wire env n s input with
    | .error e => .error e
    | .ok s => enqueueAll wire env (n + 1) s inputs

structure BatchInput where
  id : Option ID
  scopeID : ID
  maxBytes : ℤ
  durationMS : ℤ
  children : List EnqueueInput
deriving DecidableEq, Repr

/-- A batch with all its jobs. -/
def createBatchTx (wire : Wire) (env : Env) (s : Store β) (input : BatchInput) :
    Except JobError (Store β) :=
  let id := input.id.getD (env.newID .batch)
  if !ID.validate input.scopeID || input.children.length < 1 || 100 < input.children.length ||
      !input.id.all ID.validate || input.maxBytes < 0 || 2 ^ 30 < input.maxBytes ||
      input.durationMS < 1 || 300000 < input.durationMS then
    .error .invalidInput
  else
    match s.batches.insert? ⟨id, input.scopeID, 1, none⟩ with
    | none => .error .conflict
    | some batches =>
      if input.children.any (fun c => (c.scopeID ≠ "" && c.scopeID ≠ input.scopeID) ||
          c.batchID.any (fun b => b ≠ id)) then
        .error .invalidInput
      else
        enqueueAll wire env 0 { s with batches := batches }
          (input.children.map fun c => { c with scopeID := input.scopeID, batchID := some id })

/-! ## Cancelling -/

/-- `UPDATE jobs SET cancel_requested_at = now, ...`: a queued job is finished by it. -/
def Job.requestCancel (now : Time) (j : Job) : Job :=
  { j with
    cancelRequestedAt := some now
    revision := j.revision + 1
    state := if j.state = .queued then .canceled else j.state
    finishedAt := if j.state = .queued then some now else j.finishedAt }

@[simp] theorem Job.requestCancel_id (now : Time) (j : Job) : (j.requestCancel now).id = j.id := rfl

def markCancel (env : Env) (s : Store β) (job : Job) : Store β :=
  { s with jobs := s.jobs.modify job.id (Job.requestCancel env.finish) (Job.requestCancel_id _) }

/-- Cancel a queued job; ask a running one to stop. -/
def cancelChild (wire : Wire) (env : Env) (s : Store β) (job : Job) :
    Except JobError (Store β) :=
  if job.state.terminal || job.cancelRequested then .ok s
  else
    if job.state = .queued then do
      -- nothing ran, so nothing was used
      let (s, _) ← settleAttempt env (markCancel env s job) job (job.attempt + 1) (some 0)
      let (s, _) ← appendJobEvent wire s job
        ⟨env.newID (.event job.id), .completed, 1, 1, none, some (safe "CANCELED")⟩
      pure s
    else do
      let (s, _) ← appendJobEvent wire (markCancel env s job) job
        ⟨env.newID (.event job.id), .canceling, 0, 1, none, some (safe "CANCELED")⟩
      pure s

def cancelChildren (wire : Wire) (env : Env) : Store β → List Job → Except JobError (Store β)
  | s, [] => .ok s
  | s, job :: jobs =>
    match cancelChild wire env s job with
    | .error e => .error e
    | .ok s => cancelChildren wire env s jobs

/-- A batch with its jobs, as `readBatch` returns it. -/
structure Batch where
  id : ID
  scopeID : ID
  revision : ℕ
  cancelRequested : Bool
  children : List Job
  state : State
  completed : ℕ
  verdict : Option Verdict
deriving DecidableEq, Repr

/-- The state of a batch. -/
def aggregateState (children : List Job) : State :=
  if children.all (fun j => j.state.terminal) then
    if children.any (fun j => j.state = .failed) then .failed
    else if children.any (fun j => j.state = .timedOut) then .timedOut
    else if children.any (fun j => j.state = .canceled) then .canceled
    else .succeeded
  else if children.any (fun j => j.state ≠ .queued) then .running
  else .queued

def aggregateVerdict (children : List Job) : Option Verdict :=
  if children.all (fun j => j.state.terminal) then
    if children.any (fun j => j.verdict = some .fail) then some .fail
    else if children.all (fun j => j.verdict = some .pass) then some .pass
    else some .inconclusive
  else none

/-- `ORDER BY created_at, id`. -/
def Job.before (a b : Job) : Prop :=
  a.createdAt < b.createdAt ∨ (a.createdAt = b.createdAt ∧ a.id ≤ b.id)

instance : DecidableRel Job.before := fun a b =>
  inferInstanceAs (Decidable
    (a.createdAt < b.createdAt ∨ (a.createdAt = b.createdAt ∧ a.id ≤ b.id)))

/-- A batch with its jobs, in one snapshot. -/
def readBatch (s : Store β) (scope id : ID) : Except JobError Batch :=
  match s.batches.find? id with
  | none => .error .notFound
  | some row =>
    if row.scopeID ≠ scope then .error .notFound
    else
      let children := (s.jobs.rows.filter fun j =>
        j.scopeID = scope && j.batchID = some id).insertionSort Job.before
      if children.length < 1 || 200 < children.length then .error .unavailable
      else
        .ok ⟨row.id, row.scopeID, row.revision + (children.map fun j => j.revision - 1).sum,
          row.cancelRequestedAt.isSome, children, aggregateState children,
          (children.filter fun j => j.state.terminal).length, aggregateVerdict children⟩

def BatchRow.requestCancel (now : Time) (b : BatchRow) : BatchRow :=
  { b with cancelRequestedAt := some now, revision := b.revision + 1 }

@[simp] theorem BatchRow.requestCancel_id (now : Time) (b : BatchRow) :
    (b.requestCancel now).id = b.id := rfl

/-- The audit record of a cancellation names a valid actor, or none. -/
def auditCancel (changed : Bool) (actor : Option ID) : Except JobError Unit :=
  if changed && !actor.all ID.validate then .error .invalidInput else .ok ()

def cancelJob (wire : Wire) (env : Env) (s : Store β) (job : Job) (expectedRevision : ℤ)
    (actor : Option ID) : Except JobError (Store β) :=
  if (job.revision : ℤ) ≠ expectedRevision then .error .revisionConflict
  else do
    let s ← cancelChild wire env s job
    let _ ← auditCancel (!job.state.terminal && !job.cancelRequested) actor
    pure s

def markBatch (env : Env) (s : Store β) (batch : Batch) : Table BatchRow.id :=
  if !batch.state.terminal && !batch.cancelRequested then
    s.batches.modify batch.id (BatchRow.requestCancel env.finish) (BatchRow.requestCancel_id _)
  else s.batches

def cancelBatch (wire : Wire) (env : Env) (s : Store β) (batch : Batch) (expectedRevision : ℤ)
    (actor : Option ID) : Except JobError (Store β) :=
  if (batch.revision : ℤ) ≠ expectedRevision then .error .revisionConflict
  else do
    let s ← cancelChildren wire env { s with batches := markBatch env s batch } batch.children
    let _ ← auditCancel (!batch.state.terminal && !batch.cancelRequested) actor
    pure s

/-- Cancel a job or a batch at the revision that was seen. -/
def cancel (wire : Wire) (env : Env) (s : Store β) (scope id : ID) (expectedRevision : ℤ)
    (actor : Option ID) : Except JobError (Store β) :=
  if !ID.validate scope || !ID.validate id || expectedRevision < 1 then .error .invalidInput
  else
    match (s.jobs.find? id).filter fun j => j.scopeID = scope with
    | some job => cancelJob wire env s job expectedRevision actor
    | none =>
      match readBatch s scope id with
      | .error e => .error e
      | .ok batch => cancelBatch wire env s batch expectedRevision actor

/-! ## Reaping expired leases -/

/-- What becomes of a job whose lease expired, unless its retry exceeds the budget. -/
def reapState (job : Job) : State × SafeError :=
  if job.cancelRequested then (.canceled, safe "CANCELED")
  else if 2 ≤ job.attempt || job.kind = .downloadThroughput then (.failed, safe "LEASE_LOST")
  else (.queued, safe "LEASE_LOST")

/-- `UPDATE jobs SET state = ..., lease_until = NULL, ...` of an expired lease. -/
def Job.expire (now : Time) (state : State) (failure : SafeError) (j : Job) : Job :=
  if j.state.active && j.leaseUntil.any (· ≤ now) then
    { j with
      state := state
      revision := j.revision + 1
      leaseUntil := none
      safeError := some failure
      finishedAt := if state = .queued then none else some now }
  else j

theorem Job.expire_id (now : Time) (state : State) (failure : SafeError) (j : Job) :
    (j.expire now state failure).id = j.id := by
  unfold Job.expire
  split_ifs <;> rfl

/-- The state a job goes to after its attempt was settled, reserving the next attempt of a network
job that is to be queued again. -/
def reapOutcome (env : Env) (s : Store β) (job : Job) :
    Except JobError (Store β × State × SafeError) :=
  if (reapState job).1 = .queued && job.kind.network then
    match reserveRetry env s job with
    | .error e => .error e
    | .ok (s, some _) => .ok (s, reapState job)
    | .ok (s, none) => .ok (s, .failed, safe "BUDGET_EXCEEDED")
  else .ok (s, reapState job)

/-- End an attempt whose lease has expired. -/
def reapOne (wire : Wire) (env : Env) (s : Store β) (job : Job) : Except JobError (Store β) := do
  let (s, _) ← settleAttempt env s job job.attempt none
  let (s, state, failure) ← reapOutcome env s job
  let s := { s with
    jobs := s.jobs.modify job.id (Job.expire env.finish state failure) (Job.expire_id _ _ _) }
  let (s, _) ← appendJobEvent wire s job
    ⟨env.newID (.event job.id), if state.terminal then .completed else .queued,
      if state.terminal then 1 else 0, 1, none, some failure⟩
  pure s

def reapAll (wire : Wire) (env : Env) : Store β → List Job → Except JobError (Store β)
  | s, [] => .ok s
  | s, job :: jobs =>
    match reapOne wire env s job with
    | .error e => .error e
    | .ok s => reapAll wire env s jobs

/-- `ORDER BY lease_until, id`. -/
def Job.expiresBefore (a b : Job) : Prop :=
  a.leaseUntil.getD 0 < b.leaseUntil.getD 0 ∨
    (a.leaseUntil.getD 0 = b.leaseUntil.getD 0 ∧ a.id ≤ b.id)

instance : DecidableRel Job.expiresBefore := fun a b =>
  inferInstanceAs (Decidable (a.leaseUntil.getD 0 < b.leaseUntil.getD 0 ∨
    (a.leaseUntil.getD 0 = b.leaseUntil.getD 0 ∧ a.id ≤ b.id)))

/-- The expired leases that no concurrent transaction holds, at most a hundred. -/
def expiredJobs (env : Env) (s : Store β) : List Job :=
  ((s.jobs.rows.filter fun j => j.state.active && j.leaseUntil.any (· ≤ env.start) &&
    !env.locked j.id).insertionSort Job.expiresBefore).take 100

def reapExpired (wire : Wire) (env : Env) (s : Store β) : Except JobError (Store β) :=
  reapAll wire env s (expiredJobs env s)

end ProxyLoom.Jobs
