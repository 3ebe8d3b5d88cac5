import ProxyLoom.Lib.Table
import ProxyLoom.RunnerProtocol.Result

/-!
# The rows of the job queue

Jobs with their leases, the events and results recorded for them, and the daily byte budget with
its reservations. The unique constraints of the schema are the keys of the tables.
-/

namespace ProxyLoom.Jobs

open IR RunnerProtocol

abbrev Time := ℕ

def leaseDuration : Time := 30 * 1000000

/-- The UTC day of a time, counted from the clock's origin. -/
def utcDay (t : Time) : ℕ := t / (86400 * 1000000)

def maxPayloadBytes : ℕ := 15 * 2 ^ 20

inductive Executor where
  | apiWorker | runner
deriving DecidableEq, Repr

inductive JobType where
  | importParse | configValidate | sourceRefresh | compile | connectivity | downloadThroughput
deriving DecidableEq, Repr

inductive State where
  | queued | leased | running | succeeded | failed | canceled | timedOut
deriving DecidableEq, Repr

inductive Verdict where
  | pass | fail | inconclusive
deriving DecidableEq, Repr

inductive JobError where
  | invalidInput | unavailable | notFound | leaseLost | conflict | revisionConflict | canceled
  | budgetExceeded
  /-- The business callback's own error. -/
  | callback
deriving DecidableEq, Repr

def JobType.text : JobType → String
  | .importParse => "import_parse"
  | .configValidate => "config_validate"
  | .sourceRefresh => "source_refresh"
  | .compile => "compile"
  | .connectivity => "connectivity"
  | .downloadThroughput => "download_throughput"

def JobType.network : JobType → Bool
  | .connectivity | .downloadThroughput => true
  | _ => false

def validType : Executor → JobType → Bool
  | .apiWorker, .importParse | .apiWorker, .sourceRefresh | .apiWorker, .compile => true
  | .runner, .configValidate | .runner, .connectivity | .runner, .downloadThroughput => true
  | _, _ => false

def State.terminal : State → Bool
  | .succeeded | .failed | .canceled | .timedOut => true
  | _ => false

def State.active : State → Bool
  | .leased | .running => true
  | _ => false

theorem State.not_terminal_of_active {s : State} (h : s.active = true) : s.terminal = false := by
  cases s <;> first | rfl | cases h

/-! ## Rows -/

/-- A row of `jobs`, with the payload stored for it. -/
structure Job where
  id : ID
  scopeID : ID
  batchID : Option ID
  revision : ℕ
  executor : Executor
  kind : JobType
  state : State
  attempt : ℕ
  leaseSeq : ℕ
  workerID : Option ID
  leaseUntil : Option Time
  cancelRequestedAt : Option Time
  verdict : Option Verdict
  safeError : Option SafeError
  eventSeq : ℕ
  createdAt : Time
  startedAt : Option Time
  finishedAt : Option Time
  coreBuildID : Option ID
  payload : List UInt8
deriving DecidableEq, Repr

def Job.cancelRequested (j : Job) : Bool := j.cancelRequestedAt.isSome

/-- An attempt, as its worker knows it. -/
structure LeaseIdentity where
  jobID : ID
  workerID : ID
  attempt : ℕ
  leaseSeq : ℕ
deriving DecidableEq, Repr

def LeaseIdentity.valid (id : LeaseIdentity) : Bool :=
  ID.validate id.jobID && ID.validate id.workerID && 0 < id.attempt && id.attempt ≤ 100 &&
    0 < id.leaseSeq

def LeaseIdentity.names (id : LeaseIdentity) (j : Job) : Bool :=
  j.id = id.jobID && j.workerID = some id.workerID && j.attempt = id.attempt &&
    j.leaseSeq = id.leaseSeq

def Job.leaseValid (j : Job) (now : Time) : Bool := j.state.active && j.leaseUntil.any (now < ·)

inductive Phase where
  | queued | leased | fetching | parsing | compiling | preparing | validating | starting | running
  | probing | downloading | collecting | settling | canceling | completed
deriving DecidableEq, Repr

structure EventInput where
  eventID : ID
  phase : Phase
  completed : ℤ
  total : ℤ
  verdict : Option Verdict
  error : Option SafeError
deriving DecidableEq, Repr

structure EventRow where
  jobID : ID
  seq : ℕ
  attempt : ℕ
  leaseSeq : ℕ
  eventID : ID
  eventHash : String
  event : EventInput
deriving DecidableEq, Repr

def EventRow.key (e : EventRow) : ID × ℕ × ℕ × ID := (e.jobID, e.attempt, e.leaseSeq, e.eventID)

structure Result where
  state : State
  verdict : Option Verdict
  metrics : Metrics
  error : Option SafeError
  hash : Option String
  observation : Option NetworkObservation

structure ResultRow where
  resultID : ID
  jobID : ID
  workerID : ID
  attempt : ℕ
  leaseSeq : ℕ
  resultHash : String
  result : Result
  settledBytes : ℤ

def ResultRow.key (r : ResultRow) : ID × ℕ × ℕ := (r.jobID, r.attempt, r.leaseSeq)

structure BatchRow where
  id : ID
  scopeID : ID
  revision : ℕ
  cancelRequestedAt : Option Time
deriving DecidableEq, Repr

/-- Bytes set aside for an attempt. -/
structure Reservation where
  id : ID
  scopeID : ID
  jobID : ID
  attempt : ℕ
  utcDay : ℕ
  reservedBytes : ℤ
  settledBytes : Option ℤ
  settledAt : Option Time
deriving DecidableEq, Repr

def Reservation.key (r : Reservation) : ID × ℕ := (r.jobID, r.attempt)

/-- The bytes of a scope on a day. -/
structure Bucket where
  scopeID : ID
  utcDay : ℕ
  reservedBytes : ℤ
  settledBytes : ℤ
deriving DecidableEq, Repr

def Bucket.key (b : Bucket) : ID × ℕ := (b.scopeID, b.utcDay)

/-- The limits of a scope. -/
structure Quota where
  dailyDownloadBytes : ℤ
  connectivityConcurrency : ℤ
  throughputConcurrency : ℤ
  maxTestDurationMS : ℤ
  maxTestBytes : ℤ
  minimumThroughputSampleBytes : ℤ
deriving DecidableEq, Repr

def defaultQuota : Quota := ⟨2 ^ 30, 4, 1, 60000, 20 * 2 ^ 20, 2 ^ 20⟩

def Quota.valid (q : Quota) : Bool :=
  0 < q.dailyDownloadBytes && q.dailyDownloadBytes ≤ 9007199254740991 &&
    1 ≤ q.connectivityConcurrency && q.connectivityConcurrency ≤ 64 &&
    1 ≤ q.throughputConcurrency && q.throughputConcurrency ≤ 16 &&
    1000 ≤ q.maxTestDurationMS && q.maxTestDurationMS ≤ 60000 &&
    1 ≤ q.maxTestBytes && q.maxTestBytes ≤ 2 ^ 30 &&
    1 ≤ q.minimumThroughputSampleBytes && q.minimumThroughputSampleBytes ≤ q.maxTestBytes

/-- The queue's tables, and the state `β` that business callbacks write. -/
structure Store (β : Type) where
  jobs : Table Job.id
  batches : Table BatchRow.id
  events : Table EventRow.key
  results : Table ResultRow.key
  reservations : Table Reservation.key
  buckets : Table Bucket.key
  business : β

inductive IDUse where
  | job (n : ℕ)
  | batch
  | event (jobID : ID)
  | reservation (jobID : ID) (attempt : ℕ)
  | result (jobID : ID)
deriving DecidableEq, Repr

/-- What a transaction reads outside the queue's tables: the clock when it starts and when it
finishes, the quota settings as `readQuota` returns them, the jobs whose test was revoked, the
rows that concurrent transactions hold locked, and fresh IDs. -/
structure Env where
  start : Time
  finish : Time
  quota : ID → Except JobError Quota
  testRevoked : ID → Bool
  locked : ID → Bool
  newID : IDUse → ID

/-- Encodings and digests. -/
structure Wire where
  decodeFrozenPayload : List UInt8 → Option FrozenPayload
  encodeFrozenPayload : FrozenPayload → List UInt8
  eventDigest : EventInput → String
  resultDigest : Result → String
  parseAddr : String → Bool

end ProxyLoom.Jobs
