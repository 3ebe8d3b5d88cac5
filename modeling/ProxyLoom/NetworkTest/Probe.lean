import ProxyLoom.Lib.IPAddr
import ProxyLoom.Lib.Reader
import ProxyLoom.Lib.Rounding
import ProxyLoom.RunnerProtocol.Result

/-!
# The probe

A network test fetches its target through the proxy: three samples for a connectivity test, one for
a download. A sample reads at most its byte limit of the body, hashes what it reads, and judges the
response by the registered expectation; the samples share the byte limit of the test.

What the network does is an argument: how each exchange ends, how long its parts take, and how the
body is delivered (`Reader`). Times are in microseconds; the arithmetic on them is the interface
`FloatOps`.
-/

namespace ProxyLoom.NetworkTest.Probe

open Netip RunnerProtocol List

/-! ## The payload -/

inductive TestKind where
  | connectivity | downloadThroughput
deriving DecidableEq, Repr

/-- The answer that a target is registered with. -/
structure HTTPExpectation where
  statusCodes : List ℤ
  /-- Empty if the body may be any. -/
  bodySHA256 : String
  maxResponseBytes : ℤ
  egressIPResponse : Bool
deriving DecidableEq, Repr

/-- No status code is listed twice, and each is in range. -/
def validStatusCodes : List ℤ → List ℤ → Bool
  | _, [] => true
  | earlier, code :: codes =>
    !(code < 100 || 599 < code || earlier.contains code) &&
      validStatusCodes (earlier ++ [code]) codes

def HTTPExpectation.validate (e : HTTPExpectation) : Bool :=
  !(e.statusCodes.length < 1 || 10 < e.statusCodes.length || e.maxResponseBytes < 1 ||
      2 ^ 30 < e.maxResponseBytes || (e.bodySHA256 ≠ "" && !validDigest e.bodySHA256)) &&
    validStatusCodes [] e.statusCodes

structure Limits where
  durationMS : ℤ
  maxBytes : ℤ
deriving DecidableEq, Repr

/-- A frozen test. -/
structure Payload where
  kind : TestKind
  limits : Limits
  minimumSampleBytes : ℤ
  expected : HTTPExpectation
deriving DecidableEq, Repr

/-! ## What the network does -/

structure Response where
  status : ℤ
  contentEncoding : String
  /-- The `Age` header, if it is a number. -/
  age : Option ℤ
  /-- Minus one if the length is not announced. -/
  contentLength : ℤ
  body : Reader
deriving DecidableEq, Repr

inductive Outcome where
  /-- No dialer for the proxy. -/
  | noDialer
  /-- The target's address makes no request. -/
  | badRequest
  /-- The exchange fails before a response. -/
  | failed
  | answered (r : Response)
deriving DecidableEq, Repr

/-- What happens in one fetch. -/
structure Exchange where
  outcome : Outcome
  tlsFailed : Bool
  dial : ℕ
  tls : ℕ
  ttfb : ℕ
  total : ℕ
  body : ℕ
deriving DecidableEq, Repr

inductive Code where
  | proxyConnectFailed | invalidConfig | httpExpectationFailed | targetTLSFailed
deriving DecidableEq, Repr

def Code.text : Code → String
  | .proxyConnectFailed => "PROXY_CONNECT_FAILED"
  | .invalidConfig => "INVALID_CONFIG"
  | .httpExpectationFailed => "HTTP_EXPECTATION_FAILED"
  | .targetTLSFailed => "TARGET_TLS_FAILED"

structure Tools where
  /-- The hexadecimal SHA-256 value. -/
  sha256 : List UInt8 → String
  /-- `netip.ParseAddr` of the trimmed text. -/
  parseTrimmed : List UInt8 → Option IP
  format : IP → String

/-- What one fetch has measured. -/
structure Sample (F : Type) where
  dial : F
  tls : F
  ttfb : F
  total : F
  body : F
  bytes : ℕ
  code : Option Code
  truncated : TruncatedBy
  egress : Option String

/-! ## Reading the body -/

def bufferSize : ℕ := 32 * 1024

structure BodyRead where
  bytes : ℕ
  /-- What was written to the hash. -/
  hashed : List UInt8
  egressBody : List UInt8
  complete : Bool
  code : Option Code
  truncated : TruncatedBy
deriving DecidableEq, Repr

def BodyRead.start : BodyRead := ⟨0, [], [], false, none, .none⟩

/-- The bytes of one call. At most 65 are kept for the address. -/
def BodyRead.write (s : BodyRead) (egressIPResponse : Bool) (data : List UInt8) : BodyRead :=
  { s with
    bytes := s.bytes + data.length
    hashed := s.hashed ++ data
    egressBody := if egressIPResponse && s.egressBody.length < 65
      then s.egressBody ++ data.take (min data.length (65 - s.egressBody.length))
      else s.egressBody }

/-- The loop over the body: at most `fuel` calls, each for what is left of the limit. -/
def readLoop (p : Payload) (limit : ℕ) : ℕ → Reader → BodyRead → BodyRead
  | 0, _, s => s
  | fuel + 1, r, s =>
    if s.bytes < limit then
      let (answer, r) := r.read (min bufferSize (limit - s.bytes))
      let s := s.write p.expected.egressIPResponse answer.data
      match answer.error with
      | some .eof => { s with complete := true }
      | some e =>
        if p.kind = .downloadThroughput ∧ e = .timeout then { s with truncated := .duration }
        else { s with code := some .httpExpectationFailed }
      | none => if answer.expired then s else readLoop p limit fuel r s
    else s

/-- The body as far as it is read, and the whole of it known to be read. -/
def readBody (p : Payload) (limit : ℕ) (r : Response) : BodyRead :=
  let s := readLoop p limit r.body.fuel r.body BodyRead.start
  if s.bytes = limit then
    { s with
      truncated := .bytes
      complete := s.complete || r.contentLength = s.bytes }
  else s

/-! ## What the loop has read -/

/-- The state after reading `read` without an error. -/
def BodyRead.after (p : Payload) (read : List UInt8) (complete : Bool) : BodyRead where
  bytes := read.length
  hashed := read
  egressBody := if p.expected.egressIPResponse then read.take 65 else []
  complete := complete
  code := none
  truncated := .none

theorem take_append_take (n : ℕ) (l data : List UInt8) :
    (if (l.take n).length < n
      then l.take n ++ data.take (min data.length (n - (l.take n).length)) else l.take n) =
      (l ++ data).take n := by
  rw [take_append, length_take]
  split_ifs with hlt
  · have hle : l.length ≤ n := by omega
    rw [Nat.min_eq_right hle, take_of_length_le hle, Nat.min_comm, ← take_eq_take_min]
  · have hge : n - l.length = 0 := by omega
    rw [hge, take_zero, append_nil]

theorem write_after (p : Payload) (read data : List UInt8) :
    (BodyRead.after p read false).write p.expected.egressIPResponse data =
      BodyRead.after p (read ++ data) false := by
  have htake := take_append_take 65 read data
  unfold BodyRead.after BodyRead.write
  cases p.expected.egressIPResponse with
  | false => simp only [Bool.false_and, Bool.false_eq_true, if_false, length_append]
  | true => simp only [Bool.true_and, decide_eq_true_eq, if_true, length_append, htake]

/-- The reader never fails and never comes too late. -/
structure Delivers (r : Reader) : Prop where
  ending : r.ending = .eof
  onTime : ∀ step ∈ r.script, step.expired = false

theorem Delivers.read {r : Reader} (h : Delivers r) (k : ℕ) : Delivers (r.read k).2 := by
  refine ⟨by rw [Reader.read_ending, h.ending], fun step hstep => ?_⟩
  rw [Reader.read_script] at hstep
  exact h.onTime step (mem_of_mem_tail hstep)

theorem Delivers.not_expired {r : Reader} (h : Delivers r) (k : ℕ) :
    (r.read k).1.expired = false := by
  rw [Reader.read_expired, Reader.next]
  cases hs : r.script with
  | nil => rfl
  | cons step script => exact h.onTime step (hs ▸ mem_cons_self)

/-- The loop met the end of a body of which `rest` was still to come. -/
def sawEnd (limit : ℕ) (body rest : List UInt8) (withLast : Bool) : Bool :=
  body.length < limit || (body.length = limit && withLast && rest ≠ [])

/-- **The loop.** Whatever the pieces, the loop reads the body up to the limit, and it has met the
end if the body is shorter than the limit, or just as long and the end came with its last bytes. -/
theorem readLoop_eq (p : Payload) (limit : ℕ) {fuel : ℕ} :
    ∀ {r : Reader} {read : List UInt8}, Delivers r → r.fuel ≤ fuel → read.length ≤ limit →
      readLoop p limit fuel r (BodyRead.after p read false) =
        BodyRead.after p ((read ++ r.rest).take limit)
          (sawEnd limit (read ++ r.rest) r.rest r.withLast) := by
  induction fuel with
  | zero =>
    intro r read _ hfuel _
    simp only [Reader.fuel] at hfuel
    omega
  | succ fuel ih =>
    intro r read hr hfuel hread
    rw [readLoop]
    have hbytes : (BodyRead.after p read false).bytes = read.length := rfl
    rw [hbytes]
    split_ifs with hlt
    · set k := min bufferSize (limit - read.length) with hk
      have hpos : 0 < k := by
        have : 0 < bufferSize := by decide
        omega
      have hdata := r.length_data_le k
      have hsplit := r.data_append_rest k
      dsimp only
      rw [write_after]
      cases herror : (r.read k).1.error with
      | some e =>
        obtain ⟨hending, hdone, hlast⟩ := Reader.error_of_read (herror ▸ Option.some_ne_none e)
        rw [herror, hr.ending] at hending
        cases hending
        rw [hdone, append_nil] at hsplit
        have hle : (read ++ r.rest).length ≤ limit := by
          rw [length_append, ← hsplit]
          omega
        have hend : sawEnd limit (read ++ r.rest) r.rest r.withLast = true := by
          unfold sawEnd
          rcases Nat.lt_or_ge (read ++ r.rest).length limit with hshort | hfull
          · simp only [hshort, decide_true, Bool.true_or]
          · have hne : r.rest ≠ [] := by
              intro hnil
              rw [hnil, append_nil] at hfull
              omega
            have heq : (read ++ r.rest).length = limit := le_antisymm hle hfull
            simp only [heq, hlast hne, hne, ne_eq, not_false_eq_true, decide_true, Bool.and_self,
              Bool.or_true]
        rw [hend, take_of_length_le hle, hsplit]
        rfl
      | none =>
        obtain ⟨hfewer, hkept⟩ := Reader.no_error_of_read hpos herror
        have hlength : (read ++ (r.read k).1.data).length ≤ limit := by
          rw [length_append]
          omega
        have hnext := ih (hr.read k) (by omega) hlength
        simp only [hr.not_expired k, Bool.false_eq_true, if_false]
        rw [hnext, append_assoc, hsplit, Reader.read_withLast]
        congr 1
        unfold sawEnd
        congr 1
        cases hw : r.withLast with
        | false => simp only [Bool.and_false, Bool.false_and]
        | true =>
          congr 1
          rw [decide_eq_decide]
          constructor
          · intro hne hnil
            rw [hnil] at hsplit
            exact hne (append_eq_nil_iff.mp hsplit).2
          · intro hne hnil
            rw [hkept hnil hne] at hw
            cases hw
    · have heq : read.length = limit := by omega
      have hend : sawEnd limit (read ++ r.rest) r.rest r.withLast = false := by
        unfold sawEnd
        rw [Bool.or_eq_false_iff, decide_eq_false_iff_not, length_append]
        refine ⟨by omega, ?_⟩
        cases hrest : r.rest with
        | nil => simp
        | cons b rest =>
          have : ¬ read.length + (b :: rest).length = limit := by
            rw [length_cons]
            omega
          simp only [this, decide_false, Bool.false_and]
      rw [hend, ← heq, take_left']
      rfl

section
variable {F : Type} (ops : FloatOps F) (tools : Tools) {r : Response} {p : Payload}

/-! ## A sample -/

def ms (micros : ℕ) : F := ops.div (ops.ofNat micros) (ops.ofNat 1000)

/-- The response's status, encoding and age meet the expectation. -/
def headOk (e : HTTPExpectation) (r : Response) : Bool :=
  !(!e.statusCodes.contains r.status ||
      (r.contentEncoding ≠ "" && r.contentEncoding ≠ "identity")) &&
    !r.age.any (0 < ·)

/-- The error that the body leaves, in the order of the checks. -/
def bodyCode (p : Payload) (s : BodyRead) : Option Code × Option String :=
  let code := if p.kind = .connectivity ∧ !s.complete then some .httpExpectationFailed else s.code
  let code := if p.expected.bodySHA256 ≠ "" ∧
      (!s.complete ∨ tools.sha256 s.hashed ≠ p.expected.bodySHA256)
    then some .httpExpectationFailed else code
  if p.expected.egressIPResponse then
    match tools.parseTrimmed s.egressBody with
    | some ip =>
      if !s.complete || 64 < s.bytes || ip.zone ≠ "" then (some .httpExpectationFailed, none)
      else (code, some (tools.format ip.unmap))
    | none => (some .httpExpectationFailed, none)
  else (code, none)

/-- One fetch of the target, before the recorded times are copied into it. -/
def fetchSample (p : Payload) (limit : ℕ) (x : Exchange) : Sample F :=
  let zero := ops.ofNat 0
  let s : Sample F := ⟨zero, zero, zero, zero, zero, 0, none, .none, none⟩
  match x.outcome with
  | .noDialer => { s with code := some .proxyConnectFailed }
  | .badRequest => { s with code := some .invalidConfig }
  | .failed => { s with code := some .proxyConnectFailed, total := ms ops x.total }
  | .answered r =>
    if headOk p.expected r then
      let read := readBody p limit r
      let (code, egress) := bodyCode tools p read
      { s with
        body := ms ops x.body
        total := ms ops x.total
        bytes := read.bytes
        code := code
        truncated := read.truncated
        egress := egress }
    else { s with code := some .httpExpectationFailed }

def probeSample (p : Payload) (limit : ℕ) (x : Exchange) : Sample F :=
  let s := fetchSample ops tools p limit x
  { s with
    dial := ms ops x.dial
    tls := ms ops x.tls
    ttfb := ms ops x.ttfb
    code := if x.tlsFailed then some .targetTLSFailed else s.code }

/-! ## The verdict on a response -/

/-- The announced length, if there is one, is that of the body. -/
def Announced (r : Response) : Prop :=
  r.contentLength = -1 ∨ r.contentLength = r.body.rest.length

/-- A sample with this limit learns that it has read the whole body. -/
def KnownComplete (limit : ℕ) (r : Response) : Prop :=
  r.body.rest.length < limit ∨ (r.body.rest.length = limit ∧
    (r.contentLength = r.body.rest.length ∨ (r.body.withLast = true ∧ r.body.rest ≠ [])))

theorem readBody_eq (p : Payload) (limit : ℕ) (hbody : Delivers r.body) :
    readBody p limit r =
      if (r.body.rest.take limit).length = limit then
        { BodyRead.after p (r.body.rest.take limit)
            (sawEnd limit r.body.rest r.body.rest r.body.withLast ||
              r.contentLength = (r.body.rest.take limit).length) with truncated := .bytes }
      else BodyRead.after p (r.body.rest.take limit)
        (sawEnd limit r.body.rest r.body.rest r.body.withLast) := by
  have hempty : ([] : List UInt8).length ≤ limit := Nat.zero_le limit
  have hloop := readLoop_eq p limit hbody le_rfl hempty
  rw [nil_append] at hloop
  have hstart : BodyRead.start = BodyRead.after p [] false := by
    unfold BodyRead.start BodyRead.after
    cases p.expected.egressIPResponse <;> rfl
  unfold readBody
  rw [hstart, hloop]
  rfl

/-- Which bytes a sample has read and whether it knows them to be the whole body, for every way the
body may be delivered. -/
theorem readBody_complete (p : Payload) (limit : ℕ) (hbody : Delivers r.body)
    (hlength : Announced r) :
    (readBody p limit r).complete = true ↔ KnownComplete limit r := by
  rw [readBody_eq p limit hbody]
  unfold KnownComplete
  have hend : sawEnd limit r.body.rest r.body.rest r.body.withLast = true ↔
      r.body.rest.length < limit ∨
        (r.body.rest.length = limit ∧ r.body.withLast = true ∧ r.body.rest ≠ []) := by
    simp only [sawEnd, Bool.or_eq_true, Bool.and_eq_true, decide_eq_true_eq, and_assoc]
  rw [length_take]
  split_ifs with hfull
  · have hge : limit ≤ r.body.rest.length := by omega
    have hshort : ¬ r.body.rest.length < limit := by omega
    simp only [BodyRead.after, Bool.or_eq_true, hend, decide_eq_true_eq, length_take,
      Nat.min_eq_left hge, hshort, false_or]
    rcases hlength with hnone | hsome
    · have hlimit : ¬ (-1 : ℤ) = limit := by omega
      have hrest : ¬ (-1 : ℤ) = r.body.rest.length := by omega
      simp only [hnone, hlimit, hrest, or_false, false_or]
    · simp only [hsome, Nat.cast_inj, true_or, and_true]
      exact or_iff_right_of_imp And.left
  · have hlt : r.body.rest.length < limit := by omega
    simp only [BodyRead.after, hend, hlt, true_or]

theorem readBody_of_complete {limit : ℕ} (hbody : Delivers r.body)
    (h : KnownComplete limit r) :
    (readBody p limit r).bytes = r.body.rest.length ∧
      (readBody p limit r).hashed = r.body.rest ∧
      (p.expected.egressIPResponse = true →
        (readBody p limit r).egressBody = r.body.rest.take 65) := by
  have hle : r.body.rest.length ≤ limit := by
    rcases h with hlt | ⟨heq, -⟩
    · exact le_of_lt hlt
    · exact le_of_eq heq
  rw [readBody_eq p limit hbody, take_of_length_le hle]
  split_ifs
  · exact ⟨rfl, rfl, fun hegress => if_pos hegress⟩
  · exact ⟨rfl, rfl, fun hegress => if_pos hegress⟩

theorem readBody_code (p : Payload) (limit : ℕ) (hbody : Delivers r.body) :
    (readBody p limit r).code = none := by
  rw [readBody_eq p limit hbody]
  split_ifs <;> rfl

/-- The body has the registered hash, if one is registered. -/
def HashMet (e : HTTPExpectation) (body : List UInt8) : Prop :=
  e.bodySHA256 ≠ "" → tools.sha256 body = e.bodySHA256

def EgressMet (e : HTTPExpectation) (body : List UInt8) : Prop :=
  e.egressIPResponse = true →
    body.length ≤ 64 ∧ ∃ ip, tools.parseTrimmed body = some ip ∧ ip.zone = ""

theorem bodyCode_eq_none_iff (hkind : p.kind = .connectivity) {s : BodyRead}
    (hcode : s.code = none) :
    (bodyCode tools p s).1 = none ↔ s.complete = true ∧
      (p.expected.bodySHA256 ≠ "" → tools.sha256 s.hashed = p.expected.bodySHA256) ∧
      (p.expected.egressIPResponse = true →
        s.bytes ≤ 64 ∧ ∃ ip, tools.parseTrimmed s.egressBody = some ip ∧ ip.zone = "") := by
  unfold bodyCode
  simp only [hkind, hcode, true_and]
  cases hcomplete : s.complete with
  | false =>
    simp only [Bool.not_false, if_true, Bool.false_eq_true, false_and, iff_false]
    split
    · split
      · simp
      · simp
    · split_ifs <;> simp
  | true =>
    simp only [Bool.not_true, Bool.false_eq_true, if_false, false_or, true_and]
    cases hegress : p.expected.egressIPResponse with
    | false => by_cases hhash : p.expected.bodySHA256 = "" <;> simp [hhash]
    | true =>
      cases hip : tools.parseTrimmed s.egressBody with
      | none => simp
      | some ip =>
        by_cases hbad : 64 < s.bytes ∨ ip.zone ≠ ""
        · have hnot : ¬ (s.bytes ≤ 64 ∧ ip.zone = "") := by
            rintro ⟨hbytes, hzone⟩
            rcases hbad with hlong | hzoned
            · omega
            · exact hzoned hzone
          simp [hbad, hnot]
        · rw [not_or, not_not] at hbad
          by_cases hhash : p.expected.bodySHA256 = "" <;>
            simp [hbad, Nat.le_of_not_lt hbad.1, hhash]

/-- A sample of a connectivity test succeeds if it knows the body to be complete and the body meets
the expectation. -/
theorem probeSample_code_iff (hkind : p.kind = .connectivity) (limit : ℕ)
    {x : Exchange} (hanswer : x.outcome = .answered r) (htls : x.tlsFailed = false)
    (hhead : headOk p.expected r = true) (hbody : Delivers r.body) (hlength : Announced r) :
    (probeSample ops tools p limit x).code = none ↔
      KnownComplete limit r ∧ HashMet tools p.expected r.body.rest ∧
        EgressMet tools p.expected r.body.rest := by
  have hcode : (probeSample ops tools p limit x).code =
      (bodyCode tools p (readBody p limit r)).1 := by
    simp only [probeSample, fetchSample, hanswer, htls, hhead, Bool.false_eq_true, if_false,
      if_true]
  rw [hcode, bodyCode_eq_none_iff tools hkind (readBody_code p limit hbody),
    readBody_complete p limit hbody hlength]
  refine and_congr_right fun hcomplete => ?_
  obtain ⟨hbytes, hhashed, hegress⟩ := readBody_of_complete hbody hcomplete (p := p)
  rw [hbytes, hhashed]
  refine and_congr_right fun _ => forall_congr' fun hexpected => and_congr_right fun hle => ?_
  rw [hegress hexpected, take_of_length_le (by omega)]

/-- **The verdict and the delivery.** A sample of a connectivity test gets a response with the
expected status and headers, without a transport error, in any pieces. It succeeds exactly when the
body is within the limit and meets the expectation, unless the body is just as long as the limit,
its length is not announced and its end does not come with its last bytes. -/
theorem verdict_of_body_iff {p : Payload} (hkind : p.kind = .connectivity) (limit : ℕ)
    {x : Exchange} {r : Response} (hanswer : x.outcome = .answered r) (htls : x.tlsFailed = false)
    (hhead : headOk p.expected r = true) (hbody : Delivers r.body) (hlength : Announced r) :
    ((probeSample ops tools p limit x).code = none ↔
        r.body.rest.length ≤ limit ∧ HashMet tools p.expected r.body.rest ∧
          EgressMet tools p.expected r.body.rest) ↔
      ¬ (r.body.rest.length = limit ∧ r.contentLength = -1 ∧
        (r.body.withLast = false ∨ r.body.rest = []) ∧ HashMet tools p.expected r.body.rest ∧
        EgressMet tools p.expected r.body.rest) := by
  rw [probeSample_code_iff ops tools hkind limit hanswer htls hhead hbody hlength]
  have hknown : KnownComplete limit r ↔ r.body.rest.length ≤ limit ∧
      ¬ (r.body.rest.length = limit ∧ r.contentLength = -1 ∧
        (r.body.withLast = false ∨ r.body.rest = [])) := by
    unfold KnownComplete
    have hlast : (r.body.withLast = true ∧ r.body.rest ≠ []) ↔
        ¬ (r.body.withLast = false ∨ r.body.rest = []) := by
      rw [not_or, Bool.not_eq_false]
    have hle : r.body.rest.length ≤ limit ↔
        r.body.rest.length < limit ∨ r.body.rest.length = limit := le_iff_lt_or_eq
    have hne : r.body.rest.length < limit → ¬ r.body.rest.length = limit := ne_of_lt
    rw [hlast, hle]
    rcases hlength with hnone | hsome
    · have hneg : ¬ (-1 : ℤ) = r.body.rest.length := by omega
      rw [hnone]
      tauto
    · have hneg : ¬ (r.body.rest.length : ℤ) = -1 := by omega
      rw [hsome]
      tauto
  have hle : r.body.rest.length = limit → r.body.rest.length ≤ limit := le_of_eq
  rw [hknown]
  tauto

end

section
variable {F : Type} (ops : FloatOps F) (tools : Tools)

/-! ## Bytes within the limit -/

theorem readLoop_bytes_le (p : Payload) (limit : ℕ) (fuel : ℕ) :
    ∀ (r : Reader) (s : BodyRead), s.bytes ≤ limit → (readLoop p limit fuel r s).bytes ≤ limit := by
  induction fuel with
  | zero =>
    intro r s hs
    exact hs
  | succ fuel ih =>
    intro r s hs
    rw [readLoop]
    split_ifs with hlt
    · have hdata := r.length_data_le (min bufferSize (limit - s.bytes))
      have hwritten : (s.write p.expected.egressIPResponse
          (r.read (min bufferSize (limit - s.bytes))).1.data).bytes ≤ limit := by
        simp only [BodyRead.write]
        omega
      dsimp only
      split
      · exact hwritten
      · split_ifs <;> exact hwritten
      · split_ifs
        · exact hwritten
        · exact ih _ _ hwritten
    · exact hs

/-- The bytes of a sample are within its limit. -/
theorem probeSample_bytes_le (p : Payload) (limit : ℕ) (x : Exchange) :
    (probeSample ops tools p limit x).bytes ≤ limit := by
  have hread (r : Response) : (readBody p limit r).bytes ≤ limit := by
    have hloop := readLoop_bytes_le p limit r.body.fuel r.body BodyRead.start (Nat.zero_le limit)
    unfold readBody
    dsimp only
    split_ifs <;> exact hloop
  unfold probeSample fetchSample
  dsimp only
  split
  · exact Nat.zero_le limit
  · exact Nat.zero_le limit
  · exact Nat.zero_le limit
  · split_ifs
    · exact hread _
    · exact Nat.zero_le limit

/-! ## The test -/

/-- What the network does for one sample; `alive` if the deadline has not passed before it. -/
structure Round where
  alive : Bool
  exchange : Exchange
deriving DecidableEq, Repr

/-- The samples so far. -/
structure Tally (F : Type) where
  samples : ℕ
  failures : ℕ
  bytes : ℕ
  body : F
  dialTimes : List F
  tlsTimes : List F
  ttfbTimes : List F
  totalTimes : List F
  egress : Option String
  error : Option SafeError
  truncatedBy : TruncatedBy

/-- The byte limit of one sample. It is positive if the expectation is valid and bytes remain. -/
def sampleLimit (p : Payload) (remaining : ℤ) : ℤ :=
  match p.kind with
  | .connectivity => min remaining (min p.expected.maxResponseBytes (64 * 1024))
  | .downloadThroughput => remaining

def Tally.add (t : Tally F) (s : Sample F) : Tally F :=
  let t :=
    { t with
      bytes := t.bytes + s.bytes
      body := ops.add t.body s.body
      samples := t.samples + 1
      truncatedBy := if s.truncated ≠ TruncatedBy.none then s.truncated else t.truncatedBy }
  match s.code with
  | some code => { t with failures := t.failures + 1, error := some (safe code.text) }
  | none =>
    { t with
      egress := s.egress.or t.egress
      dialTimes := t.dialTimes ++ [s.dial]
      tlsTimes := if ops.lt (ops.ofNat 0) s.tls then t.tlsTimes ++ [s.tls] else t.tlsTimes
      ttfbTimes := t.ttfbTimes ++ [s.ttfb]
      totalTimes := t.totalTimes ++ [s.total] }

/-- The samples from the `i`-th on, `n` of them at most. -/
def probeLoop (p : Payload) (rounds : ℕ → Round) : ℕ → ℕ → Tally F → Tally F
  | 0, _, t => t
  | n + 1, i, t =>
    if (rounds i).alive then
      let remaining := p.limits.maxBytes - t.bytes
      if remaining ≤ 0 then { t with truncatedBy := .bytes }
      else
        probeLoop p rounds n (i + 1) (t.add ops
          (probeSample ops tools p (sampleLimit p remaining).toNat (rounds i).exchange))
    else t

/-- The middle of the values, or the mean of the two in the middle. -/
def median (values : List F) : Option F :=
  let sorted := values.insertionSort fun a b => !ops.lt b a
  let zero := ops.ofNat 0
  if values = [] then none
  else
    let v := sorted.getD (values.length / 2) zero
    some (if values.length % 2 = 0
      then ops.div (ops.add (sorted.getD (values.length / 2 - 1) zero) v) (ops.ofNat 2) else v)

inductive Verdict where
  | pass | fail | inconclusive
deriving DecidableEq, Repr

structure Metrics (F : Type) where
  proxyDialMS : Option F
  targetTLSMS : Option F
  httpTTFBMS : Option F
  httpTotalMS : Option F
  bodyBytes : ℕ
  bodyDurationMS : F
  sampleCount : ℕ
  failureCount : ℕ
  egressIP : Option String
  throughputMbps : Option F

/-- What the runner reports. -/
structure ProbeResult (F : Type) where
  metrics : Metrics F
  verdict : Verdict
  error : Option SafeError
  truncatedBy : TruncatedBy

def sampleCount (p : Payload) : ℕ :=
  match p.kind with
  | .connectivity => 3
  | .downloadThroughput => 1

def Tally.start : Tally F :=
  ⟨0, 0, 0, ops.ofNat 0, [], [], [], [], none, none, TruncatedBy.none⟩

def probeTally (p : Payload) (rounds : ℕ → Round) : Tally F :=
  probeLoop ops tools p rounds (sampleCount p) 0 (Tally.start ops)

/-- The test. `alive` says whether the caller still waits at the end, and `healthy` whether the
target answers a request that does not go through the proxy. -/
def probe (p : Payload) (rounds : ℕ → Round) (alive healthy : Bool) : ProbeResult F :=
  let t := probeTally ops tools p rounds
  let metrics : Metrics F :=
    { proxyDialMS := median ops t.dialTimes
      targetTLSMS := median ops t.tlsTimes
      httpTTFBMS := median ops t.ttfbTimes
      httpTotalMS := median ops t.totalTimes
      bodyBytes := t.bytes
      bodyDurationMS := t.body
      sampleCount := t.samples
      failureCount := t.failures
      egressIP := t.egress
      throughputMbps := none }
  let pass := t.samples = sampleCount p ∧ t.failures = 0
  if pass then
    match p.kind with
    | .connectivity => ⟨metrics, .pass, none, t.truncatedBy⟩
    | .downloadThroughput =>
      if ops.lt t.body (ops.ofNat 1000) ∨ (t.bytes : ℤ) < p.minimumSampleBytes then
        ⟨metrics, .inconclusive, some (safe "INSUFFICIENT_SAMPLE"), t.truncatedBy⟩
      else
        ⟨{ metrics with throughputMbps := some (ops.div (ops.mul (ops.ofInt t.bytes) (ops.ofNat 8))
            (ops.mul t.body (ops.ofNat 1000))) }, .pass, none, t.truncatedBy⟩
  else if alive && !healthy then
    ⟨metrics, .inconclusive, some (safe "TEST_TARGET_UNAVAILABLE"), t.truncatedBy⟩
  else ⟨metrics, .fail, t.error, t.truncatedBy⟩

theorem sampleLimit_le (p : Payload) {remaining : ℤ} (h : 0 ≤ remaining) :
    ((sampleLimit p remaining).toNat : ℤ) ≤ remaining := by
  unfold sampleLimit
  cases p.kind with
  | connectivity =>
    dsimp only
    omega
  | downloadThroughput =>
    dsimp only
    omega

theorem add_bytes (t : Tally F) (s : Sample F) : (t.add ops s).bytes = t.bytes + s.bytes := by
  unfold Tally.add
  dsimp only
  split <;> rfl

theorem probeLoop_bytes_le (p : Payload) (rounds : ℕ → Round) (n : ℕ) :
    ∀ (i : ℕ) (t : Tally F), (t.bytes : ℤ) ≤ p.limits.maxBytes →
      ((probeLoop ops tools p rounds n i t).bytes : ℤ) ≤ p.limits.maxBytes := by
  induction n with
  | zero =>
    intro i t ht
    exact ht
  | succ n ih =>
    intro i t ht
    rw [probeLoop]
    dsimp only
    split_ifs with halive hspent
    · exact ht
    · refine ih _ _ ?_
      have hsample := probeSample_bytes_le ops tools p
        (sampleLimit p (p.limits.maxBytes - t.bytes)).toNat (rounds i).exchange
      have hlimit := sampleLimit_le p (le_of_lt (not_le.mp hspent))
      rw [add_bytes]
      push_cast
      omega
    · exact ht

/-- The bytes of a test are within its limit. -/
theorem probeTally_bytes_le {p : Payload} (h : 0 ≤ p.limits.maxBytes) (rounds : ℕ → Round) :
    ((probeTally ops tools p rounds).bytes : ℤ) ≤ p.limits.maxBytes :=
  probeLoop_bytes_le ops tools p rounds _ _ _ h

/-- The reported bytes and duration are those of the samples, and so is a throughput. -/
theorem probe_metrics (p : Payload) (rounds : ℕ → Round) (alive healthy : Bool) :
    (probe ops tools p rounds alive healthy).metrics.bodyBytes =
        (probeTally ops tools p rounds).bytes ∧
      (probe ops tools p rounds alive healthy).metrics.bodyDurationMS =
        (probeTally ops tools p rounds).body ∧
      ∀ v, (probe ops tools p rounds alive healthy).metrics.throughputMbps = some v →
        ops.lt (probeTally ops tools p rounds).body (ops.ofNat 1000) = false ∧
        v = ops.div (ops.mul (ops.ofInt (probeTally ops tools p rounds).bytes) (ops.ofNat 8))
          (ops.mul (probeTally ops tools p rounds).body (ops.ofNat 1000)) := by
  unfold probe
  dsimp only
  by_cases hpass : (probeTally ops tools p rounds).samples = sampleCount p ∧
      (probeTally ops tools p rounds).failures = 0
  · rw [if_pos hpass]
    cases p.kind with
    | connectivity => exact ⟨rfl, rfl, nofun⟩
    | downloadThroughput =>
      dsimp only
      split_ifs with hsmall
      · exact ⟨rfl, rfl, nofun⟩
      · refine ⟨rfl, rfl, ?_⟩
        rintro v ⟨⟩
        rw [not_or, Bool.not_eq_true] at hsmall
        exact ⟨hsmall.1, rfl⟩
  · rw [if_neg hpass]
    split_ifs <;> exact ⟨rfl, rfl, nofun⟩

end

/-! ## A body as long as the limit -/

def fiveBytes : Payload := ⟨.connectivity, ⟨10000, 15⟩, 1, ⟨[200], "", 5, false⟩⟩

/-- Five bytes without an announced length; `withLast` says how their end is reported. -/
def unannounced (withLast : Bool) : Exchange :=
  ⟨.answered ⟨200, "", none, -1, ⟨[104, 101, 108, 108, 111], [], .eof, withLast⟩⟩, false,
    10, 0, 20, 30, 5⟩

/-- No hash and no address is asked for. -/
def noTools : Tools := ⟨fun _ => "", fun _ => none, fun _ => ""⟩

/-- The same five bytes pass when their end comes with them, and fail when it comes after them. -/
theorem verdict_depends_on_end :
    fiveBytes.expected.validate = true ∧
      (probeSample Rounding.identity.ops noTools fiveBytes 5 (unannounced true)).code = none ∧
      (probeSample Rounding.identity.ops noTools fiveBytes 5 (unannounced false)).code =
        some .httpExpectationFailed := by
  refine ⟨?_, ?_, ?_⟩ <;> decide

theorem verdict_of_body_iff_four :
    (probeSample Rounding.identity.ops noTools fiveBytes 5
      ⟨.answered ⟨200, "", none, -1, ⟨[104, 101, 108, 108], [⟨1, false⟩], .eof, false⟩⟩, false,
        10, 0, 20, 30, 5⟩).code = none := by
  have h := verdict_of_body_iff Rounding.identity.ops noTools (p := fiveBytes) rfl 5
    (x := ⟨.answered ⟨200, "", none, -1, ⟨[104, 101, 108, 108], [⟨1, false⟩], .eof, false⟩⟩, false,
      10, 0, 20, 30, 5⟩) rfl rfl (by decide) ⟨rfl, by simp⟩ (Or.inl rfl)
  refine (h.mpr ?_).mpr ⟨by decide, fun h => absurd rfl h, nofun⟩
  rintro ⟨h, -⟩
  exact absurd h (by decide)

end ProxyLoom.NetworkTest.Probe
