import ProxyLoom.Jobs.Amounts
import ProxyLoom.NetworkTest.Probe

/-!
# From the probe to the ledger

A test is created with limits, its bytes are reserved, a runner probes with the payload that its
lease carries, and the bytes that the probe reports settle the reservation.
-/

namespace ProxyLoom.NetworkTest.Usage

open IR (ID)
open Option
open Jobs Probe

/-! ## Creation -/

structure Request where
  kind : TestKind
  limits : Limits
deriving DecidableEq, Repr

structure Target where
  limits : Limits
  expected : HTTPExpectation
deriving DecidableEq, Repr

def createLimits (request : Request) (target : Target) (quota : Quota) : Limits where
  durationMS := min (min (min request.limits.durationMS quota.maxTestDurationMS) 60000)
    target.limits.durationMS
  maxBytes :=
    let maxBytes := min (min request.limits.maxBytes target.limits.maxBytes) quota.maxTestBytes
    match request.kind with
    | .connectivity => min maxBytes (3 * min target.expected.maxResponseBytes (64 * 1024))
    | .downloadThroughput => min maxBytes target.expected.maxResponseBytes

/-- The checks of `ValidatePayload` on what the probe reads. -/
def validatePayload (p : Payload) : Bool :=
  !(p.limits.maxBytes < 1 || 2 ^ 30 < p.limits.maxBytes || 60000 < p.limits.durationMS ||
      p.minimumSampleBytes < 1 || 2 ^ 30 < p.minimumSampleBytes || p.limits.durationMS < 1) &&
    p.expected.validate

def freeze (request : Request) (target : Target) (quota : Quota) : Option Payload :=
  let p : Payload := ⟨request.kind, createLimits request target quota,
    quota.minimumThroughputSampleBytes, target.expected⟩
  if request.limits.durationMS < 1 || request.limits.maxBytes < 1 then none
  else if validatePayload p then some p
  else none

variable {p : Payload}

/-- What creation freezes is a limit that reserving accepts. -/
theorem freeze_limits {request : Request} {target : Target} {quota : Quota}
    (h : freeze request target quota = some p) :
    1 ≤ p.limits.maxBytes ∧ p.limits.maxBytes ≤ 2 ^ 30 := by
  unfold freeze at h
  dsimp only at h
  split_ifs at h with hrequest hvalid
  cases h
  unfold validatePayload at hvalid
  simp only [Bool.and_eq_true, Bool.not_eq_true', Bool.or_eq_false_iff, decide_eq_false_iff_not,
    not_lt] at hvalid
  exact ⟨hvalid.1.1.1.1.1.1, hvalid.1.1.1.1.1.2⟩

/-! ## Throughput -/

def validThroughput {F : Type} (ops : FloatOps F) (throughput : F) (bodyBytes : Option ℤ)
    (duration : Option F) : Bool :=
  match bodyBytes, duration with
  | some bytes, some duration =>
    let expected := ops.div (ops.mul (ops.ofInt bytes) (ops.ofNat 8))
      (ops.mul duration (ops.ofNat 1000))
    let millionth := ops.ofScientific 1 true 6
    let tolerance := if ops.lt millionth (ops.mul expected millionth)
      then ops.mul expected millionth else millionth
    !ops.isNaN throughput && !ops.isInf throughput && !ops.lt throughput (ops.ofNat 0) &&
      !ops.lt duration (ops.ofNat 1000) &&
      !ops.lt tolerance (ops.abs (ops.sub throughput expected))
  | _, _ => false

theorem validThroughput_float :
    validThroughput FloatOps.float = RunnerProtocol.validThroughput := by
  funext throughput bodyBytes duration
  cases bodyBytes with
  | none => rfl
  | some bytes =>
    cases duration with
    | none => rfl
    | some duration =>
      unfold validThroughput RunnerProtocol.validThroughput FloatOps.float
      simp only [decide_eq_true_eq]
      rfl

theorem tolerance_nonneg (r : Rounding) (x : ℚ) :
    0 ≤ if r.ops.lt (r.ops.ofScientific 1 true 6) x = true then x
      else r.ops.ofScientific 1 true 6 := by
  have hmillionth : 0 ≤ r.ops.ofScientific 1 true 6 :=
    r.round_nonneg (by norm_num)
  split_ifs with hlt
  · have hlt' : r.ops.ofScientific 1 true 6 < x := of_decide_eq_true hlt
    exact hmillionth.trans hlt'.le
  · exact hmillionth

/-- **Throughput.** A reported throughput agrees with the reported bytes and duration. -/
theorem validThroughput_probe (r : Rounding) (tools : Tools) (p : Payload) (rounds : ℕ → Round)
    (alive healthy : Bool) {v : ℚ}
    (h : (probe r.ops tools p rounds alive healthy).metrics.throughputMbps = some v) :
    validThroughput r.ops v (some (probe r.ops tools p rounds alive healthy).metrics.bodyBytes)
      (some (probe r.ops tools p rounds alive healthy).metrics.bodyDurationMS) = true := by
  obtain ⟨hbytes, hduration, hreported⟩ := probe_metrics r.ops tools p rounds alive healthy
  obtain ⟨hlong, hv⟩ := hreported v h
  rw [hbytes, hduration]
  unfold validThroughput
  dsimp only
  rw [← hv]
  have hnan : r.ops.isNaN v = false := rfl
  have hinf : r.ops.isInf v = false := rfl
  have hzero : (0 : ℚ) ≤ r.ops.ofNat 1000 := r.round_nonneg (Nat.cast_nonneg 1000)
  have hbody : 0 ≤ (probeTally r.ops tools p rounds).body :=
    hzero.trans (not_lt.mp (of_decide_eq_false hlong))
  have hnonneg : 0 ≤ v := by
    rw [hv]
    refine r.ops_div_nonneg (r.ops_mul_nonneg (r.round_nonneg ?_) (r.round_nonneg ?_))
      (r.ops_mul_nonneg hbody hzero)
    · exact_mod_cast Nat.zero_le _
    · exact Nat.cast_nonneg 8
  have hsign : r.ops.lt v (r.ops.ofNat 0) = false := by
    refine decide_eq_false (not_lt.mpr ?_)
    show r.round ((0 : ℕ) : ℚ) ≤ v
    rw [Nat.cast_zero, r.zero]
    exact hnonneg
  have hclose : r.ops.lt (if r.ops.lt (r.ops.ofScientific 1 true 6)
      (r.ops.mul v (r.ops.ofScientific 1 true 6)) = true
      then r.ops.mul v (r.ops.ofScientific 1 true 6) else r.ops.ofScientific 1 true 6)
      (r.ops.abs (r.ops.sub v v)) = false := by
    rw [r.ops_abs_sub_self]
    exact decide_eq_false (not_lt.mpr (tolerance_nonneg r _))
  rw [hnan, hinf, hsign, hlong, hclose]
  rfl

/-! ## Settlement -/

/-- The runner reads the payload of a lease as the queue does. -/
def ReadsLike (wire : Wire) (reads : List UInt8 → Option Payload) : Prop :=
  ∀ b p, reads b = some p → ∃ frozen, wire.decodeFrozenPayload b = some frozen ∧
    frozen.maxBytes = p.limits.maxBytes

theorem bytes_le {F : Type} (ops : FloatOps F) (tools : Tools)
    (h : 0 ≤ p.limits.maxBytes) (rounds : ℕ → Round) (alive healthy : Bool) :
    ((probe ops tools p rounds alive healthy).metrics.bodyBytes : ℤ) ≤ p.limits.maxBytes := by
  rw [(probe_metrics ops tools p rounds alive healthy).1]
  exact probeTally_bytes_le ops tools h rounds

/-- What is reserved for the attempt of a lease is the limit that its runner reads, in every later
state. -/
theorem amount_of_lease {β : Type} {wire : Wire} (hlaw : wire.Lawful)
    {reads : List UInt8 → Option Payload} (hreads : ReadsLike wire reads) {w w' : World β}
    (hw : (queue wire).Reach w) {env : Jobs.Env} (hstart : w.clock ≤ env.start)
    (hfinish : env.start ≤ env.finish) {input : ClaimInput} {s : Store β} {lease : Lease}
    (hclaim : claim wire env w.store input = .ok (s, some lease))
    (hnet : lease.job.kind.network = true)
    (hrun : (queue wire).Run (w.next wire ⟨env, .claim input⟩) w')
    (hp : reads lease.payload = some p) :
    w'.store.amount lease.identity.jobID lease.identity.attempt = some p.limits.maxBytes ∧
      0 ≤ p.limits.maxBytes := by
  have hnext : (w.next wire ⟨env, .claim input⟩).store = s := by
    unfold World.next exec
    dsimp only
    rw [hclaim]
    rfl
  have hreach := Jobs.Reach.next hw ⟨env, .claim input⟩ hstart hfinish
  obtain ⟨frozen, id, hpayload, hamount⟩ := claim_amount hclaim hnet
  obtain ⟨frozen', hread, hmax⟩ := hreads _ p hp
  rw [hpayload] at hread
  have hsame : frozen.maxBytes = p.limits.maxBytes := by
    rw [← hmax, hlaw.readsBack _ _ hread]
  rw [← hnext, hsame] at hamount
  have hlater := Jobs.Run.amount hreach hrun hamount
  refine ⟨hlater, ?_⟩
  obtain ⟨r, hr, hbytes⟩ := map_eq_some_iff.mp hlater
  rw [← hbytes]
  exact ((Jobs.Reach.ledgerOk (hreach.run hrun)).2.bounds r (Table.mem_of_find? hr)).1

/-- **Usage settles.**

1. A test that was created reports between no bytes and its limit, however the target behaves.
2. In every state, what is reserved for an attempt, the first or a retry, is the limit of the job's
   payload.
3. Whatever the runner of a lease reports settles, in every later state of the queue.
4. A reported throughput passes the check on it. -/
theorem usage_settles {β : Type} (tools : Tools) {wire : Wire} (hlaw : wire.Lawful)
    {reads : List UInt8 → Option Payload} (hreads : ReadsLike wire reads) :
    (∀ request target quota p, freeze request target quota = some p →
      ∀ (F : Type) (ops : FloatOps F) rounds alive healthy,
        0 ≤ ((probe ops tools p rounds alive healthy).metrics.bodyBytes : ℤ) ∧
          ((probe ops tools p rounds alive healthy).metrics.bodyBytes : ℤ) ≤ p.limits.maxBytes) ∧
    (∀ w : World β, ((queue wire).restrict FreshIDs).Reach w → ∀ k attempt v,
      w.store.amount k attempt = some v → ∃ b frozen, w.store.payload k = some b ∧
        wire.decodeFrozenPayload b = some frozen ∧ frozen.maxBytes = v) ∧
    (∀ (w w' : World β) env input s lease, (queue wire).Reach w → w.clock ≤ env.start →
      env.start ≤ env.finish → claim wire env w.store input = .ok (s, some lease) →
      lease.job.kind.network = true →
      (queue wire).Run (w.next wire ⟨env, .claim input⟩) w' →
      ∀ p, reads lease.payload = some p → ∀ (F : Type) (ops : FloatOps F) rounds alive healthy,
        ∀ env' job, w'.store.jobs.find? lease.identity.jobID = some job →
          ∃ out, settleAttempt env' w'.store job lease.identity.attempt
            (some (probe ops tools p rounds alive healthy).metrics.bodyBytes) = .ok out) ∧
    (∀ (r : Rounding) p rounds alive healthy v,
      (probe r.ops tools p rounds alive healthy).metrics.throughputMbps = some v →
        validThroughput r.ops v
          (some (probe r.ops tools p rounds alive healthy).metrics.bodyBytes)
          (some (probe r.ops tools p rounds alive healthy).metrics.bodyDurationMS) = true) := by
  refine ⟨?_, fun w hw => Jobs.Reach.metered hlaw hw, ?_, ?_⟩
  · intro request target quota p hp F ops rounds alive healthy
    have hlimit : 0 ≤ p.limits.maxBytes := by
      have hone := (freeze_limits hp).1
      omega
    exact ⟨Int.natCast_nonneg _, bytes_le ops tools hlimit rounds alive healthy⟩
  · intro w w' env input s lease hw hstart hfinish hclaim hnet hrun p hp F ops rounds alive healthy
      env' job hjob
    obtain ⟨hamount, hlimit⟩ :=
      amount_of_lease hlaw hreads hw hstart hfinish hclaim hnet hrun hp
    have hid : job.id = lease.identity.jobID := Table.key_of_find? hjob
    rw [← hid] at hamount
    exact settleAttempt_of_le hamount (Int.natCast_nonneg _)
      (bytes_le ops tools hlimit rounds alive healthy)
  · intro r p rounds alive healthy v hv
    exact validThroughput_probe r tools p rounds alive healthy hv

/-! ## A small run

A connectivity test with a limit of 1000 bytes is enqueued and claimed, and its runner reads five
bytes in each of three samples. -/

def coreBuild : ID := "00000000-0000-4000-8000-000000000005"

/-- A wire format for tests of 1000 bytes: a payload is the ID of its reservation. -/
def textWire : Wire :=
  { plainWire with
    decodeFrozenPayload := fun b =>
      if 255 ∈ b then none
      else some ⟨"connectivity", coreBuild, 1000, String.ofList (b.map fun x => Char.ofNat x.toNat)⟩
    encodeFrozenPayload := fun f =>
      if f.type = "connectivity" ∧ f.coreBuildID = coreBuild ∧ f.maxBytes = 1000 ∧
          ID.validate f.quotaReservationID = true then
        f.quotaReservationID.toList.map fun c => UInt8.ofNat c.toNat
      else [255] }

theorem toNat_ofNat_of_le {c : Char} (h : c ≤ 'f') : (UInt8.ofNat c.toNat).toNat = c.toNat := by
  have hle : c.toNat ≤ 102 := h
  rw [UInt8.toNat_ofNat']
  exact Nat.mod_eq_of_lt (by omega)

theorem decode_textWire {id : ID} (h : ID.validate id = true) :
    textWire.decodeFrozenPayload (id.toList.map fun c => UInt8.ofNat c.toNat) =
      some ⟨"connectivity", coreBuild, 1000, id⟩ := by
  have hchars := Text.le_of_isUUID h
  have hnot : (255 : UInt8) ∉ id.toList.map fun c => UInt8.ofNat c.toNat := by
    intro hmem
    obtain ⟨c, hc, heq⟩ := List.mem_map.mp hmem
    have hnat := toNat_ofNat_of_le (hchars c hc)
    have hle : c.toNat ≤ 102 := hchars c hc
    rw [heq] at hnat
    have h255 : (255 : UInt8).toNat = 255 := rfl
    omega
  have hback : (id.toList.map fun c => UInt8.ofNat c.toNat).map (fun x => Char.ofNat x.toNat) =
      id.toList := by
    rw [List.map_map]
    refine (List.map_congr_left fun c hc => ?_).trans (List.map_id _)
    show Char.ofNat (UInt8.ofNat c.toNat).toNat = c
    rw [toNat_ofNat_of_le (hchars c hc), Char.ofNat_toNat]
  show (if (255 : UInt8) ∈ id.toList.map fun c => UInt8.ofNat c.toNat then none else
    some (⟨"connectivity", coreBuild, 1000, String.ofList ((id.toList.map fun c =>
      UInt8.ofNat c.toNat).map fun x => Char.ofNat x.toNat)⟩ : RunnerProtocol.FrozenPayload)) = _
  rw [if_neg hnot, hback, String.ofList_toList]

theorem lawful_textWire : textWire.Lawful := by
  refine ⟨fun f f' h => ?_, fun b f id h hid => ?_⟩
  · by_cases hf : f.type = "connectivity" ∧ f.coreBuildID = coreBuild ∧ f.maxBytes = 1000 ∧
        ID.validate f.quotaReservationID = true
    · have hencode : textWire.encodeFrozenPayload f =
          f.quotaReservationID.toList.map fun c => UInt8.ofNat c.toNat := if_pos hf
      rw [hencode, decode_textWire hf.2.2.2] at h
      obtain ⟨type, core, maxBytes, id⟩ := f
      obtain ⟨rfl, rfl, rfl, -⟩ := hf
      exact (Option.some.inj h).symm
    · have hencode : textWire.encodeFrozenPayload f = [255] := if_neg hf
      rw [hencode] at h
      cases h
  · have hshape : f.type = "connectivity" ∧ f.coreBuildID = coreBuild ∧ f.maxBytes = 1000 := by
      unfold textWire at h
      dsimp only at h
      split_ifs at h
      cases h
      exact ⟨rfl, rfl, rfl⟩
    have hencode : textWire.encodeFrozenPayload { f with quotaReservationID := id } =
        id.toList.map fun c => UInt8.ofNat c.toNat :=
      if_pos ⟨hshape.1, hshape.2.1, hshape.2.2, hid⟩
    rw [hencode, decode_textWire hid]
    rfl

def testPayload : Payload := ⟨.connectivity, ⟨5000, 1000⟩, 1, fiveBytes.expected⟩

def readTest (b : List UInt8) : Option Payload :=
  if (textWire.decodeFrozenPayload b).isSome then some testPayload else none

theorem readsLike_readTest : ReadsLike textWire readTest := by
  intro b p h
  unfold readTest at h
  split_ifs at h with hsome
  cases h
  obtain ⟨frozen, hfrozen⟩ := isSome_iff_exists.mp hsome
  refine ⟨frozen, hfrozen, ?_⟩
  unfold textWire at hfrozen
  dsimp only at hfrozen
  split_ifs at hfrozen
  cases hfrozen
  rfl

def queuedTest : World Unit := (emptyWorld ()).next textWire enqueueTest

def runnerClaim : ClaimInput :=
  ⟨.runner, refreshWorker, [.connectivity], [coreBuild], ⟨1, 4, 1⟩, ⟨1, 4, 1⟩⟩

def claimEnv : Jobs.Env := instantEnv 2 "00000000-0000-4000-8000-000000000012"

/-- The fifteen bytes that the runner of the claimed test reads settle. -/
theorem usage_settles_fifteen :
    ∃ job out, (queuedTest.next textWire ⟨claimEnv, .claim runnerClaim⟩).store.jobs.find?
        refreshJob = some job ∧
      settleAttempt claimEnv (queuedTest.next textWire ⟨claimEnv, .claim runnerClaim⟩).store job 1
        (some 15) = .ok out := by
  have hreach : (queue textWire).Reach queuedTest :=
    Jobs.Reach.next (reach_emptyWorld ()) enqueueTest (by decide) (by decide)
  have hclaim : ((claim textWire claimEnv queuedTest.store runnerClaim).toOption.bind
      Prod.snd).any (fun lease => lease.job.kind.network && (readTest lease.payload).isSome &&
        lease.identity.jobID = refreshJob && lease.identity.attempt = 1) = true := by decide
  have hrow : ((queuedTest.next textWire ⟨claimEnv, .claim runnerClaim⟩).store.jobs.find?
      refreshJob).isSome = true := by decide
  have hbytes : (probe Rounding.identity.ops noTools testPayload
      (fun _ => ⟨true, unannounced true⟩) true true).metrics.bodyBytes = 15 := by decide
  obtain ⟨job, hjob⟩ := isSome_iff_exists.mp hrow
  obtain ⟨lease, hlease, hclaim⟩ := (any_eq_true _ _).mp hclaim
  obtain ⟨⟨s, found⟩, hfirst, hfound⟩ := bind_eq_some_iff.mp hlease
  obtain rfl : found = some lease := hfound
  have hok := Except.eq_ok_of_toOption hfirst
  simp only [Bool.and_eq_true, decide_eq_true_eq] at hclaim
  obtain ⟨⟨⟨hnet, hread⟩, hid⟩, hattempt⟩ := hclaim
  obtain ⟨p, hp⟩ := isSome_iff_exists.mp hread
  obtain ⟨out, hout⟩ :=
    (usage_settles (β := Unit) noTools lawful_textWire readsLike_readTest).2.2.1 queuedTest _
      claimEnv runnerClaim s lease hreach (by decide) (by decide) hok hnet (.refl _) p hp ℚ
      Rounding.identity.ops (fun _ => ⟨true, unannounced true⟩) true true claimEnv job
      (by rw [hid]; exact hjob)
  have hpayload : p = testPayload := by
    unfold readTest at hp
    split_ifs at hp
    exact (Option.some.inj hp).symm
  rw [hpayload, hbytes, hattempt] at hout
  exact ⟨job, out, hjob, hout⟩

end ProxyLoom.NetworkTest.Usage
