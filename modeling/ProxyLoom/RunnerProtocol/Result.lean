import ProxyLoom.IR.Node

/-!
# What a worker reports

The wire values of a finished attempt: the safe error with its fixed explanation, the metrics of a
test, the observation of a network test, and the checks that the queue makes on them.
-/

namespace ProxyLoom.RunnerProtocol

open IR

/-- A diagnostic. The explanation belongs to the code; caller text never gets here. -/
structure SafeError where
  code : String
  message : String
deriving DecidableEq, Repr

def safeMessages : List (String × String) :=
  [("BUDGET_EXCEEDED", "The test budget is exhausted."),
    ("PROXY_CONNECT_FAILED", "The proxy connection could not be established."),
    ("AUTH_FAILED", "Proxy authentication failed."),
    ("TARGET_TLS_FAILED", "The target TLS handshake failed."),
    ("HTTP_EXPECTATION_FAILED", "The target response did not match its registered expectation."),
    ("TEST_TARGET_UNAVAILABLE",
      "The controlled target is unavailable; the node cannot be assessed."),
    ("INSUFFICIENT_SAMPLE", "The sample is too small to report throughput."),
    ("CORE_CONFIG_INVALID", "The generated configuration was rejected by the core."),
    ("CORE_BINARY_MISMATCH", "The registered core binary did not match its build."),
    ("RUNNER_RESOURCE_LIMIT", "The runner could not reserve execution resources."),
    ("PORT_BUSY", "The reserved local port was unavailable."),
    ("CANCELED", "Cancellation was requested."),
    ("JOB_TIMEOUT", "The job exceeded its time limit."),
    ("LEASE_LOST", "The job lease is no longer valid."),
    ("INVALID_CONFIG", "The input configuration is invalid."),
    ("CAPABILITY_UNSUPPORTED", "The requested capability is unsupported."),
    ("VALIDATION_FAILED", "The merged resource is not valid."),
    ("SERVICE_UNAVAILABLE", "The operation is temporarily unavailable."),
    ("INTERNAL_ERROR", "The operation could not be completed.")]

def knownError (code : String) : Bool := (safeMessages.lookup code).isSome

def safe (code : String) : SafeError :=
  match safeMessages.lookup code with
  | some message => ⟨code, message⟩
  | none => ⟨"INTERNAL_ERROR", "The operation could not be completed."⟩

theorem safe_code_of_known {code : String} (h : knownError code = true) :
    (safe code).code = code := by
  unfold safe
  cases hl : safeMessages.lookup code with
  | none => simp [knownError, hl] at h
  | some message => rfl

/-! ## Metrics -/

structure Metrics where
  configCheckMS : Option Float
  coreStartMS : Option Float
  proxyDialMS : Option Float
  targetTLSMS : Option Float
  httpTTFBMS : Option Float
  httpTotalMS : Option Float
  bodyBytes : Option ℤ
  bodyDurationMS : Option Float
  throughputMbps : Option Float
  egressIP : Option String
  sampleCount : Option ℤ
  failureCount : Option ℤ

def Metrics.none : Metrics :=
  ⟨Option.none, Option.none, Option.none, Option.none, Option.none, Option.none, Option.none,
    Option.none, Option.none, Option.none, Option.none, Option.none⟩

/-- A duration of at most five minutes. -/
def validMillis (v : Float) : Bool := !v.isNaN && !v.isInf && !(v < 0) && !(300000 < v)

/-- The reported throughput is the one of the measured bytes and duration. -/
def validThroughput (throughput : Float) (bodyBytes : Option ℤ) (duration : Option Float) : Bool :=
  match bodyBytes, duration with
  | some bytes, some duration =>
    let expected := Float.ofInt bytes * 8 / (duration * 1000)
    let tolerance := if 0.000001 < expected * 0.000001 then expected * 0.000001 else 0.000001
    !throughput.isNaN && !throughput.isInf && !(throughput < 0) && !(duration < 1000) &&
      !(tolerance < (throughput - expected).abs)
  | _, _ => false

def validateMetrics (parseAddr : String → Bool) (m : Metrics) : Bool :=
  [m.configCheckMS, m.coreStartMS, m.proxyDialMS, m.targetTLSMS, m.httpTTFBMS, m.httpTotalMS,
      m.bodyDurationMS].all (fun v => v.all validMillis) &&
    m.bodyBytes.all (fun b => 0 ≤ b && b ≤ 2 ^ 30) &&
    m.sampleCount.all (fun n => 0 ≤ n && n ≤ 3) && m.failureCount.all (fun n => 0 ≤ n && n ≤ 3) &&
    m.throughputMbps.all (fun t => validThroughput t m.bodyBytes m.bodyDurationMS) &&
    m.failureCount.all (fun f => m.sampleCount.any (fun n => f ≤ n)) && m.egressIP.all parseAddr

/-- An offline check reports its own duration only. -/
def validateConfigMetrics (m : Metrics) : Bool :=
  m.coreStartMS.isNone && m.proxyDialMS.isNone && m.targetTLSMS.isNone && m.httpTTFBMS.isNone &&
    m.httpTotalMS.isNone && m.bodyBytes.isNone && m.bodyDurationMS.isNone &&
    m.throughputMbps.isNone && m.egressIP.isNone && m.sampleCount.isNone &&
    m.failureCount.isNone && m.configCheckMS.all validMillis

/-! ## Observations -/

inductive TruncatedBy where
  | none | duration | bytes
deriving DecidableEq, Repr

structure NetworkObservation where
  location : String
  executionSHA256 : String
  truncatedBy : TruncatedBy
  cpuThrottled : Option Bool
deriving DecidableEq, Repr

/-- The lower-case hexadecimal digits of a SHA-256 value. -/
def validDigest (value : String) : Bool :=
  value.toList.length == 64 && value.toList.all Text.isLowerHex

def NetworkObservation.validate (o : NetworkObservation) : Bool :=
  1 ≤ o.location.utf8ByteSize && o.location.utf8ByteSize ≤ 128 &&
    o.location.toList.all (fun c => c != '\r' && c != '\n' && c != '\x00') &&
    validDigest o.executionSHA256

/-! ## Frozen payloads and leases -/

/-- The parts of a frozen payload that the queue reads and writes. -/
structure FrozenPayload where
  type : String
  coreBuildID : ID
  maxBytes : ℤ
  quotaReservationID : ID
deriving DecidableEq, Repr

structure Slots where
  configValidate : ℤ
  connectivity : ℤ
  downloadThroughput : ℤ
deriving DecidableEq, Repr

end ProxyLoom.RunnerProtocol
