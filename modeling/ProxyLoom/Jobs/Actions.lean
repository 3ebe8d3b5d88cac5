import Mathlib.Logic.Relation
import ProxyLoom.Jobs.Lease

/-!
# The actions that calls are made of

A call of the queue may touch many jobs. Every call that commits is a chain of actions, each about
one job and each started on the job's current row: an action leaves the other rows, so a row that
was read at the start of the call is still current when its turn comes. -/

namespace ProxyLoom.Jobs

open IR RunnerProtocol Relation List Except

variable {β : Type} {wire : Wire} {env : Env} {s s' : Store β} {job : Job} {input : Result}
  {receipt : EventReceipt} {attempt : ℕ} {id : LeaseIdentity} {callback : Option (Callback β)}

/-! ## Which tables are written -/

def LedgerOnly (s s' : Store β) : Prop :=
  ∃ buckets reservations, s' = { s with buckets := buckets, reservations := reservations }

theorem LedgerOnly.refl (s : Store β) : LedgerOnly s s := ⟨s.buckets, s.reservations, rfl⟩

theorem LedgerOnly.jobs (h : LedgerOnly s s') : s'.jobs = s.jobs := by
  obtain ⟨buckets, reservations, rfl⟩ := h
  rfl

/-- The batches, the recorded results and the business state are as before. -/
structure Aside (s s' : Store β) : Prop where
  batches : s'.batches = s.batches
  results : s'.results = s.results
  business : s'.business = s.business

theorem Aside.refl (s : Store β) : Aside s s := ⟨rfl, rfl, rfl⟩

theorem Aside.trans {s t u : Store β} (h₁ : Aside s t) (h₂ : Aside t u) : Aside s u :=
  ⟨h₂.batches.trans h₁.batches, h₂.results.trans h₁.results, h₂.business.trans h₁.business⟩

theorem LedgerOnly.aside (h : LedgerOnly s s') : Aside s s' := by
  obtain ⟨buckets, reservations, rfl⟩ := h
  exact ⟨rfl, rfl, rfl⟩

theorem appendJobEvent_ok {input : EventInput}
    (h : appendJobEvent wire s job input = .ok (s', receipt)) :
    ∃ events, s' = { s with
      jobs := s.jobs.modify job.id Job.bump Job.bump_id, events := events } := by
  unfold appendJobEvent at h
  obtain ⟨clean, -, h⟩ := of_bind h
  dsimp only at h
  split at h
  · cases h
  · split_ifs at h
    split at h
    · cases h
    · cases h
      exact ⟨_, rfl⟩

theorem chargeBucket_ok {r : Reservation} {daily : ℤ} {made : Option ID}
    (h : chargeBucket s r daily = .ok (s', made)) : LedgerOnly s s' := by
  unfold chargeBucket at h
  dsimp only at h
  split_ifs at h
  · split at h
    · cases h
    · cases h
      exact ⟨_, _, rfl⟩
  · cases h
    exact ⟨_, _, rfl⟩

theorem reserveAttempt_ok {maximum : ℤ} {r : Option ID}
    (h : reserveAttempt env s job attempt maximum = .ok (s', r)) : LedgerOnly s s' := by
  unfold reserveAttempt at h
  split_ifs at h
  split at h
  · split_ifs at h
    cases h
    exact LedgerOnly.refl s
  · split at h
    · cases h
    · split_ifs at h
      · cases h
        exact LedgerOnly.refl s
      · exact chargeBucket_ok h

theorem reserveRetry_ok {r : Option ID} (h : reserveRetry env s job = .ok (s', r)) :
    LedgerOnly s s' := by
  unfold reserveRetry at h
  split at h
  · cases h
  · exact reserveAttempt_ok h

/-- What settling an attempt does: nothing for a job without a budget or a reservation that is
settled, and otherwise it settles the reservation. -/
theorem settleAttempt_cases {usage : Option ℤ} {settled : ℤ}
    (h : settleAttempt env s job attempt usage = .ok (s', settled)) :
    (s' = s ∧ (job.kind.network = true → ∃ r v, s.reservations.find? (job.id, attempt) = some r ∧
      r.settledBytes = some v)) ∨
    ∃ r, s.reservations.find? (job.id, attempt) = some r ∧ r.settledBytes = none ∧
      ¬(usage.any (fun u => u < 0 || r.reservedBytes < u) = true) ∧ s' = { s with
        buckets := s.buckets.modify (job.scopeID, r.utcDay)
          (Bucket.settle r.reservedBytes (usage.getD r.reservedBytes)) (Bucket.settle_key _ _)
        reservations := s.reservations.modify (job.id, attempt)
          (Reservation.settle (usage.getD r.reservedBytes) env.finish)
          (Reservation.settle_key _ _) } := by
  unfold settleAttempt at h
  split_ifs at h with hnet
  · cases h
    refine .inl ⟨rfl, fun hyes => ?_⟩
    rw [hyes] at hnet
    cases hnet
  · split at h
    · cases h
    · next r hr =>
      split at h
      · next v hv =>
        cases h
        exact .inl ⟨rfl, fun _ => ⟨r, _, hr, hv⟩⟩
      · next hopen =>
        split_ifs at h with hover
        cases h
        exact .inr ⟨r, hr, hopen, hover, rfl⟩

theorem settleAttempt_ok {usage : Option ℤ} {settled : ℤ}
    (h : settleAttempt env s job attempt usage = .ok (s', settled)) : LedgerOnly s s' := by
  obtain ⟨rfl, -⟩ | ⟨r, -, -, -, rfl⟩ := settleAttempt_cases h
  · exact LedgerOnly.refl _
  · exact ⟨_, _, rfl⟩

/-- The outcome of an expired lease: what its row asks for, unless the budget has no room for the
retry. -/
theorem reapOutcome_cases {out : State × SafeError} (h : reapOutcome env s job = .ok (s', out)) :
    (((reapState job).1 = .queued → job.kind.network = false) ∧ s' = s ∧ out = reapState job) ∨
    ((reapState job).1 = .queued ∧ ∃ made, reserveRetry env s job = .ok (s', made) ∧
      ((made ≠ none ∧ out = reapState job) ∨
        (made = none ∧ out = (.failed, safe "BUDGET_EXCEEDED")))) := by
  unfold reapOutcome at h
  split_ifs at h with hretry
  · rw [Bool.and_eq_true, decide_eq_true_eq] at hretry
    split at h
    · cases h
    · next hr =>
      cases h
      exact .inr ⟨hretry.1, _, hr, .inl ⟨Option.some_ne_none _, rfl⟩⟩
    · next hr =>
      cases h
      exact .inr ⟨hretry.1, _, hr, .inr ⟨rfl, rfl⟩⟩
  · cases h
    refine .inl ⟨fun hqueued => ?_, rfl, rfl⟩
    simpa [hqueued] using hretry

theorem reapOutcome_ok {out : State × SafeError} (h : reapOutcome env s job = .ok (s', out)) :
    LedgerOnly s s' := by
  obtain ⟨-, rfl, -⟩ | ⟨-, made, hr, -⟩ := reapOutcome_cases h
  · exact LedgerOnly.refl _
  · exact reserveRetry_ok hr

/-- The outcome of a finished attempt: what was reported, unless it is to be tried again. -/
theorem completeOutcome_cases {out : State × Option Verdict × Option SafeError}
    (h : completeOutcome env s job input = .ok (s', out)) :
    (infrastructureRetry job input = false ∧ s' = s ∧
      out = (input.state, input.verdict, input.error)) ∨
    (infrastructureRetry job input = true ∧ job.kind.network = false ∧ s' = s ∧
      out = (.queued, none, input.error)) ∨
    (infrastructureRetry job input = true ∧ job.kind.network = true ∧
      ∃ made, reserveRetry env s job = .ok (s', made) ∧
        ((made ≠ none ∧ out = (.queued, none, input.error)) ∨ (made = none ∧
          out = (.failed, some .inconclusive, some (safe "BUDGET_EXCEEDED"))))) := by
  unfold completeOutcome at h
  split_ifs at h with hretry hnet
  · split at h
    · cases h
    · next hr =>
      cases h
      exact .inr (.inr ⟨hretry, hnet, _, hr, .inl ⟨Option.some_ne_none _, rfl⟩⟩)
    · next hr =>
      cases h
      exact .inr (.inr ⟨hretry, hnet, _, hr, .inr ⟨rfl, rfl⟩⟩)
  · cases h
    exact .inr (.inl ⟨hretry, by simpa using hnet, rfl, rfl⟩)
  · cases h
    exact .inl ⟨by simpa using hretry, rfl, rfl⟩

theorem completeOutcome_ok {out : State × Option Verdict × Option SafeError}
    (h : completeOutcome env s job input = .ok (s', out)) : LedgerOnly s s' := by
  obtain ⟨-, rfl, -⟩ | ⟨-, -, rfl, -⟩ | ⟨-, -, made, hr, -⟩ := completeOutcome_cases h
  · exact LedgerOnly.refl _
  · exact LedgerOnly.refl _
  · exact reserveRetry_ok hr

theorem insertResult_ok {hash : String} {settled : ℤ}
    (h : insertResult env s id hash input settled = .ok s') :
    ∃ results, s' = { s with results := results } ∧ s.results.insert?
      ⟨env.newID (.result id.jobID), id.jobID, id.workerID, id.attempt, id.leaseSeq, hash, input,
        settled⟩ = some results := by
  unfold insertResult at h
  dsimp only at h
  split_ifs at h
  split at h
  · cases h
  · next results hins =>
    cases h
    exact ⟨results, rfl, hins⟩

/-! ## Which rows are written -/

theorem appendJobEvent_find?_ne {input : EventInput}
    (h : appendJobEvent wire s job input = .ok (s', receipt)) {k : ID} (hk : k ≠ job.id) :
    s'.jobs.find? k = s.jobs.find? k := by
  obtain ⟨events, rfl⟩ := appendJobEvent_ok h
  dsimp only
  rw [Table.find?_modify_ne _ _ _ hk]

/-- What the first reservation does: nothing without a budget, and otherwise it reserves the limit
of the payload and writes the reservation there. -/
theorem reserveFirst_ok (h : reserveFirst wire env s job = .ok s') :
    (job.kind.network = false ∧ s' = s) ∨ ∃ frozen s₁ made, job.kind.network = true ∧
      wire.decodeFrozenPayload job.payload = some frozen ∧
      reserveAttempt env s job 1 frozen.maxBytes = .ok (s₁, some made) ∧
      s' = { s₁ with
        jobs := s₁.jobs.modify job.id (Job.withPayload
          (wire.encodeFrozenPayload { frozen with quotaReservationID := made }))
          (Job.withPayload_id _) } := by
  unfold reserveFirst at h
  split_ifs at h with hnet
  · split at h
    · cases h
    · next frozen hfrozen =>
      split at h
      · cases h
      · cases h
      · next hr =>
        cases h
        exact .inr ⟨frozen, _, _, hnet, hfrozen, hr, rfl⟩
  · cases h
    exact .inl ⟨by simpa using hnet, rfl⟩

theorem reserveFirst_find?_ne (h : reserveFirst wire env s job = .ok s') {k : ID}
    (hk : k ≠ job.id) :
    s'.jobs.find? k = s.jobs.find? k := by
  obtain ⟨-, rfl⟩ | ⟨frozen, s₁, made, -, -, hr, rfl⟩ := reserveFirst_ok h
  · rfl
  · dsimp only
    rw [Table.find?_modify_ne _ _ _ hk, (reserveAttempt_ok hr).jobs]

theorem appendJobEvent_aside {input : EventInput}
    (h : appendJobEvent wire s job input = .ok (s', receipt)) : Aside s s' := by
  obtain ⟨events, rfl⟩ := appendJobEvent_ok h
  exact ⟨rfl, rfl, rfl⟩

theorem reserveFirst_aside (h : reserveFirst wire env s job = .ok s') :
    Aside s s' := by
  obtain ⟨-, rfl⟩ | ⟨frozen, s₁, made, -, -, hr, rfl⟩ := reserveFirst_ok h
  · exact .refl _
  · obtain ⟨hbatches, hresults, hbusiness⟩ := (reserveAttempt_ok hr).aside
    exact ⟨hbatches, hresults, hbusiness⟩

/-- What cancelling does, in order: mark the row, settle the attempt that a queued job waits for,
report it. -/
theorem cancelChild_ok (h : cancelChild wire env s job = .ok s') :
    ((job.state.terminal || job.cancelRequested) = true ∧ s' = s) ∨
      ∃ s₁ input receipt, (job.state.terminal || job.cancelRequested) = false ∧
      ((job.state ≠ .queued ∧ s₁ = markCancel env s job) ∨ (job.state = .queued ∧
        ∃ settled, settleAttempt env (markCancel env s job) job (job.attempt + 1) (some 0) =
          .ok (s₁, settled))) ∧ appendJobEvent wire s₁ job input = .ok (s', receipt) := by
  unfold cancelChild at h
  split_ifs at h with hdone hqueued
  · cases h
    exact .inl ⟨hdone, rfl⟩
  · obtain ⟨⟨s₁, settled⟩, hsettle, h⟩ := of_bind h
    obtain ⟨⟨s₂, receipt⟩, hevent, h⟩ := of_bind h
    cases h
    exact .inr ⟨s₁, _, receipt, by simpa using hdone, .inr ⟨hqueued, settled, hsettle⟩, hevent⟩
  · obtain ⟨⟨s₂, receipt⟩, hevent, h⟩ := of_bind h
    cases h
    exact .inr ⟨_, _, receipt, by simpa using hdone, .inl ⟨hqueued, rfl⟩, hevent⟩

theorem cancelChild_ledger (h : cancelChild wire env s job = .ok s') :
    ((job.state.terminal || job.cancelRequested) = true ∧ s' = s) ∨
      ∃ s₁ input receipt, (job.state.terminal || job.cancelRequested) = false ∧
      LedgerOnly (markCancel env s job) s₁ ∧
      appendJobEvent wire s₁ job input = .ok (s', receipt) := by
  obtain hsame | ⟨s₁, input, receipt, hdone, ⟨-, rfl⟩ | ⟨-, settled, hsettle⟩, hevent⟩ :=
    cancelChild_ok h
  · exact .inl hsame
  · exact .inr ⟨_, input, receipt, hdone, LedgerOnly.refl _, hevent⟩
  · exact .inr ⟨s₁, input, receipt, hdone, settleAttempt_ok hsettle, hevent⟩

theorem cancelChild_aside (h : cancelChild wire env s job = .ok s') :
    Aside s s' := by
  obtain ⟨-, rfl⟩ | ⟨s₁, input, receipt, -, hledger, hevent⟩ := cancelChild_ledger h
  · exact .refl _
  · have hmark : Aside s (markCancel env s job) := ⟨rfl, rfl, rfl⟩
    exact (hmark.trans hledger.aside).trans (appendJobEvent_aside hevent)

/-- What enqueueing does, in order: the row, its reservation, its first event. -/
theorem enqueueTx_ok {n : ℕ} {input : EnqueueInput} (h : enqueueTx wire env n s input = .ok s') :
    ∃ jobs s₁ receipt, s.jobs.insert? (newJob env n input) = some jobs ∧
      reserveFirst wire env { s with jobs := jobs } (newJob env n input) = .ok s₁ ∧
      appendJobEvent wire s₁ (newJob env n input)
        ⟨env.newID (.event (newJob env n input).id), .queued, 0, 1, none, none⟩ =
          .ok (s', receipt) := by
  unfold enqueueTx at h
  dsimp only at h
  split_ifs at h
  split at h
  · cases h
  · next jobs hins =>
    obtain ⟨s₁, hfirst, h⟩ := of_bind h
    obtain ⟨⟨s₂, receipt⟩, hevent, h⟩ := of_bind h
    cases h
    exact ⟨jobs, s₁, receipt, hins, hfirst, hevent⟩

theorem enqueueTx_find? {n : ℕ} {input : EnqueueInput} (h : enqueueTx wire env n s input = .ok s')
    {k : ID} {j : Job} (hj : s.jobs.find? k = some j) : s'.jobs.find? k = some j := by
  obtain ⟨jobs, s₁, receipt, hins, hfirst, hevent⟩ := enqueueTx_ok h
  have hk : k ≠ (newJob env n input).id := by
    rintro rfl
    rw [(Table.insert?_eq_some_iff.mp hins).1] at hj
    cases hj
  rw [appendJobEvent_find?_ne hevent hk, reserveFirst_find?_ne hfirst hk]
  dsimp only
  rw [Table.find?_insert? hins, if_neg hk, hj]

theorem enqueueAll_find? {inputs : List EnqueueInput} :
    ∀ {n : ℕ} {s : Store β}, enqueueAll wire env n s inputs = .ok s' →
      ∀ {k : ID} {j : Job}, s.jobs.find? k = some j → s'.jobs.find? k = some j := by
  induction inputs with
  | nil =>
    intro n s h k j hj
    cases h
    exact hj
  | cons input inputs ih =>
    intro n s h k j hj
    unfold enqueueAll at h
    split at h
    · cases h
    · next hone => exact ih h (enqueueTx_find? hone hj)

theorem cancelChild_find?_ne (h : cancelChild wire env s job = .ok s') {k : ID} (hk : k ≠ job.id) :
    s'.jobs.find? k = s.jobs.find? k := by
  obtain ⟨-, rfl⟩ | ⟨s₁, input, receipt, -, hledger, hevent⟩ := cancelChild_ledger h
  · rfl
  · rw [appendJobEvent_find?_ne hevent hk, hledger.jobs]
    unfold markCancel
    dsimp only
    rw [Table.find?_modify_ne _ _ _ hk]

/-- What reaping does, in order: settle, perhaps reserve a retry, rewrite the row, report it. -/
theorem reapOne_ok (h : reapOne wire env s job = .ok s') :
    ∃ s₁ settled s₂ state failure input receipt,
      settleAttempt env s job job.attempt none = .ok (s₁, settled) ∧
      reapOutcome env s₁ job = .ok (s₂, state, failure) ∧
      appendJobEvent wire { s₂ with
        jobs := s₂.jobs.modify job.id (Job.expire env.finish state failure)
          (Job.expire_id _ _ _) } job input = .ok (s', receipt) := by
  unfold reapOne at h
  obtain ⟨⟨s₁, settled⟩, hsettle, h⟩ := of_bind h
  obtain ⟨⟨s₂, state, failure⟩, hout, h⟩ := of_bind h
  obtain ⟨⟨s₃, receipt⟩, hevent, h⟩ := of_bind h
  cases h
  exact ⟨s₁, settled, s₂, state, failure, _, receipt, hsettle, hout, hevent⟩

theorem reapOne_find?_ne (h : reapOne wire env s job = .ok s') {k : ID} (hk : k ≠ job.id) :
    s'.jobs.find? k = s.jobs.find? k := by
  obtain ⟨s₁, settled, s₂, state, failure, input, receipt, hsettle, hout, hevent⟩ := reapOne_ok h
  rw [appendJobEvent_find?_ne hevent hk]
  dsimp only
  rw [Table.find?_modify_ne _ _ _ hk, (reapOutcome_ok hout).jobs, (settleAttempt_ok hsettle).jobs]

/-! ## Actions -/

/-- The row is the one that was read, or the job was cancelled since. A claim that names a type
twice reads the same head twice, so it may cancel a job that it has cancelled already. -/
def Current (row job : Job) : Prop := row = job ∨ row.state = .canceled

/-- A result that `completeTx` accepts for a job. -/
structure Accepted (job : Job) (input : Result) (hash : String) : Prop where
  terminal : input.state.terminal = true
  hashed : input.hash = some hash
  canceled : job.cancelRequested = true → input.state = .canceled
  fits : resultFits job input = true

/-- No batch vanishes, and a batch that changes gets a higher revision. -/
def BatchesGrow (t t' : Table BatchRow.id) : Prop :=
  ∀ k b, t.find? k = some b → ∃ b', t'.find? k = some b' ∧ b.revision ≤ b'.revision ∧
    (b'.revision = b.revision → b' = b)

theorem BatchesGrow.refl (t : Table BatchRow.id) : BatchesGrow t t :=
  fun _ b hb => ⟨b, hb, Nat.le_refl _, fun _ => rfl⟩

theorem BatchesGrow.trans {t u v : Table BatchRow.id} (h₁ : BatchesGrow t u)
    (h₂ : BatchesGrow u v) : BatchesGrow t v := by
  intro k b hb
  obtain ⟨b₁, hb₁, hle₁, heq₁⟩ := h₁ k b hb
  obtain ⟨b₂, hb₂, hle₂, heq₂⟩ := h₂ k b₁ hb₁
  refine ⟨b₂, hb₂, hle₁.trans hle₂, fun heq => ?_⟩
  have hmid : b₁.revision = b.revision := Nat.le_antisymm (heq ▸ hle₂) hle₁
  rw [heq₂ (heq.trans hmid.symm), heq₁ hmid]

theorem batchesGrow_insert {t t' : Table BatchRow.id} {b : BatchRow}
    (h : t.insert? b = some t') : BatchesGrow t t' := by
  intro k b' hb'
  refine ⟨b', ?_, Nat.le_refl _, fun _ => rfl⟩
  rw [Table.find?_insert? h, if_neg, hb']
  rintro rfl
  rw [(Table.insert?_eq_some_iff.mp h).1] at hb'
  cases hb'

theorem batchesGrow_markBatch (batch : Batch) : BatchesGrow s.batches (markBatch env s batch) := by
  unfold markBatch
  split_ifs
  · intro k b hb
    rw [Table.find?_modify]
    split_ifs with hk
    · rw [← hk, hb]
      exact ⟨_, rfl, Nat.le_succ _, fun heq => absurd heq (Nat.succ_ne_self _)⟩
    · exact ⟨b, hb, Nat.le_refl _, fun _ => rfl⟩
  · exact .refl _

/-- One change of the queue's tables; the jobs that it adds meet a condition. -/
inductive QueueAction (wire : Wire) (env : Env) (P : EnqueueInput → Prop) :
    Store β → Store β → Prop where
  | batches {s : Store β} {batches : Table BatchRow.id} : BatchesGrow s.batches batches →
    QueueAction wire env P s { s with batches := batches }
  | enqueue {s s' : Store β} {n : ℕ} {input : EnqueueInput} : P input →
    enqueueTx wire env n s input = .ok s' → QueueAction wire env P s s'
  | cancel {s s' : Store β} {job row : Job} : s.jobs.find? job.id = some row → Current row job →
    cancelChild wire env s job = .ok s' → QueueAction wire env P s s'
  /-- The cancellation of a job without a reservation, which a claim commits half done. -/
  | mark {s : Store β} {job row : Job} : s.jobs.find? job.id = some row → Current row job →
    job.state = .queued → job.kind.network = true →
    s.reservations.find? (job.id, job.attempt + 1) = none →
    QueueAction wire env P s (markCancel env s job)
  | lease {s s' : Store β} {worker : ID} {job : Job} {lease : Lease} :
    leaseJob wire env s worker job = .ok (s', lease) → QueueAction wire env P s s'
  | beat {s s' : Store β} {id : LeaseIdentity} {answer : Heartbeat} :
    heartbeat env s id = .ok (s', answer) → QueueAction wire env P s s'
  | event {s s' : Store β} {id : LeaseIdentity} {input : EventInput} {receipt : EventReceipt} :
    event wire env s id input = .ok (s', receipt) → QueueAction wire env P s s'
  | reap {s s' : Store β} {job : Job} : s.jobs.find? job.id = some job →
    job.state.active = true → job.leaseUntil.any (· ≤ env.finish) = true →
    reapOne wire env s job = .ok s' → QueueAction wire env P s s'
  | finish {s s' : Store β} {id : LeaseIdentity} {job : Job} {input : Result} {hash : String}
      {receipt : ResultReceipt} : lockLease s id = .ok job → Accepted job input hash →
    recordAttempt wire env s id job input hash = .ok (s', receipt) → QueueAction wire env P s s'

/-- One action of a call: on the queue's tables, or on the state that callbacks write. -/
inductive Action (wire : Wire) (env : Env) (P : EnqueueInput → Prop) :
    Store β → Store β → Prop where
  | queue {s s' : Store β} : QueueAction wire env P s s' → Action wire env P s s'
  | business (s : Store β) (business : β) : Action wire env P s { s with business := business }

abbrev QueueActions (wire : Wire) (env : Env) (P : EnqueueInput → Prop) :
    Store β → Store β → Prop :=
  ReflTransGen (QueueAction wire env P)

abbrev Actions (wire : Wire) (env : Env) (P : EnqueueInput → Prop) : Store β → Store β → Prop :=
  ReflTransGen (Action wire env P)

variable {P : EnqueueInput → Prop}

theorem QueueActions.actions (h : QueueActions wire env P s s') : Actions wire env P s s' :=
  ReflTransGen.mono (fun _ _ => Action.queue) _ _ h

/-! ## Lists of jobs -/

structure Rows (s : Store β) (jobs : List Job) : Prop where
  found : ∀ job ∈ jobs, s.jobs.find? job.id = some job
  nodup : (jobs.map Job.id).Nodup

theorem Rows.of_filter (s : Store β) (p : Job → Bool) : Rows s (s.jobs.rows.filter p) where
  found _ h := Table.find?_of_mem (mem_of_mem_filter h)
  nodup := s.jobs.nodup.sublist (filter_sublist.map _)

theorem Rows.insertionSort {jobs : List Job} (h : Rows s jobs) (r : Job → Job → Prop)
    [DecidableRel r] : Rows s (jobs.insertionSort r) where
  found job hjob := h.found job ((perm_insertionSort r jobs).mem_iff.mp hjob)
  nodup := ((perm_insertionSort r jobs).map Job.id).nodup_iff.mpr h.nodup

theorem Rows.take {jobs : List Job} (h : Rows s jobs) (n : ℕ) : Rows s (jobs.take n) where
  found job hjob := h.found job (mem_of_mem_take hjob)
  nodup := h.nodup.sublist ((take_sublist n jobs).map _)

theorem Rows.tail {jobs : List Job} (h : Rows s (job :: jobs))
    (hne : ∀ k, k ≠ job.id → s'.jobs.find? k = s.jobs.find? k) : Rows s' jobs := by
  have hnodup := h.nodup
  rw [map_cons, nodup_cons] at hnodup
  refine ⟨fun other hother => ?_, hnodup.2⟩
  have hid : other.id ≠ job.id := by
    intro heq
    exact hnodup.1 (heq ▸ mem_map_of_mem hother)
  rw [hne _ hid]
  exact h.found other (mem_cons_of_mem _ hother)

theorem enqueueAll_actions {inputs : List EnqueueInput} (hP : ∀ input ∈ inputs, P input) :
    ∀ {n : ℕ} {s : Store β}, enqueueAll wire env n s inputs = .ok s' →
      QueueActions wire env P s s' := by
  induction inputs with
  | nil =>
    intro n s h
    cases h
    exact .refl
  | cons input inputs ih =>
    intro n s h
    rw [forall_mem_cons] at hP
    unfold enqueueAll at h
    split at h
    · cases h
    · next hone => exact (ReflTransGen.single (.enqueue hP.1 hone)).trans (ih hP.2 h)

theorem cancelChildren_actions {jobs : List Job} :
    ∀ {s : Store β}, Rows s jobs → cancelChildren wire env s jobs = .ok s' →
      QueueActions wire env P s s' := by
  induction jobs with
  | nil =>
    intro s _ h
    cases h
    exact .refl
  | cons job jobs ih =>
    intro s hrows h
    unfold cancelChildren at h
    split at h
    · cases h
    · next hone =>
      have hjob := hrows.found job mem_cons_self
      exact (ReflTransGen.single (.cancel hjob (Or.inl rfl) hone)).trans
        (ih (hrows.tail fun k hk => cancelChild_find?_ne hone hk) h)

theorem reapAll_actions {jobs : List Job} :
    ∀ {s : Store β}, Rows s jobs →
      (∀ job ∈ jobs, job.state.active = true ∧ job.leaseUntil.any (· ≤ env.finish) = true) →
      reapAll wire env s jobs = .ok s' → QueueActions wire env P s s' := by
  induction jobs with
  | nil =>
    intro s _ _ h
    cases h
    exact .refl
  | cons job jobs ih =>
    intro s hrows hexp h
    unfold reapAll at h
    split at h
    · cases h
    · next hone =>
      have hjob := hrows.found job mem_cons_self
      obtain ⟨hactive, huntil⟩ := hexp job mem_cons_self
      exact (ReflTransGen.single (.reap hjob hactive huntil hone)).trans
        (ih (hrows.tail fun k hk => reapOne_find?_ne hone hk)
          (fun other hother => hexp other (mem_cons_of_mem _ hother)) h)

theorem reapExpired_actions (hclock : env.start ≤ env.finish)
    (h : reapExpired wire env s = .ok s') : QueueActions wire env P s s' := by
  refine reapAll_actions (((Rows.of_filter s _).insertionSort _).take 100) ?_ h
  intro job hjob
  have hmem := (perm_insertionSort Job.expiresBefore _).mem_iff.mp (mem_of_mem_take hjob)
  have hp := of_mem_filter hmem
  simp only [Bool.and_eq_true, Option.any_eq_true, decide_eq_true_eq] at hp ⊢
  obtain ⟨⟨hactive, until', huntil, hle⟩, -⟩ := hp
  exact ⟨hactive, until', huntil, hle.trans hclock⟩

theorem readBatch_rows {scope id : ID} {batch : Batch} (h : readBatch s scope id = .ok batch) :
    Rows s batch.children := by
  unfold readBatch at h
  dsimp only at h
  split at h
  · cases h
  · split_ifs at h
    cases h
    exact (Rows.of_filter s _).insertionSort _

theorem cancelJob_actions {revision : ℤ} {actor : Option ID} (hjob : s.jobs.find? job.id = some job)
    (h : cancelJob wire env s job revision actor = .ok s') : QueueActions wire env P s s' := by
  unfold cancelJob at h
  split_ifs at h
  obtain ⟨s₁, hone, h⟩ := of_bind h
  obtain ⟨-, -, h⟩ := of_bind h
  cases h
  exact ReflTransGen.single (.cancel hjob (Or.inl rfl) hone)

theorem cancelBatch_actions {batch : Batch} {revision : ℤ} {actor : Option ID}
    (hrows : Rows s batch.children) (h : cancelBatch wire env s batch revision actor = .ok s') :
    QueueActions wire env P s s' := by
  unfold cancelBatch at h
  split_ifs at h
  obtain ⟨s₁, hall, h⟩ := of_bind h
  obtain ⟨-, -, h⟩ := of_bind h
  cases h
  have hmarked : Rows { s with batches := markBatch env s batch } batch.children :=
    ⟨hrows.found, hrows.nodup⟩
  exact ReflTransGen.head (.batches (batchesGrow_markBatch batch))
    (cancelChildren_actions hmarked hall)

theorem cancel_actions {scope id : ID} {revision : ℤ} {actor : Option ID}
    (h : cancel wire env s scope id revision actor = .ok s') : QueueActions wire env P s s' := by
  unfold cancel at h
  split_ifs at h
  split at h
  · next job hjob =>
    have hfound := (Option.filter_eq_some_iff.mp hjob).1
    rw [← Table.key_of_find? hfound] at hfound
    exact cancelJob_actions hfound h
  · split at h
    · cases h
    · next hbatch => exact cancelBatch_actions (readBatch_rows hbatch) h

theorem createBatchTx_actions {input : BatchInput}
    (hP : ∀ c ∈ input.children, ∀ id, P { c with scopeID := input.scopeID, batchID := some id })
    (h : createBatchTx wire env s input = .ok s') : QueueActions wire env P s s' := by
  unfold createBatchTx at h
  dsimp only at h
  split_ifs at h
  · split at h <;> cases h
  · split at h
    · cases h
    · next hins =>
      refine ReflTransGen.head (.batches (batchesGrow_insert hins)) (enqueueAll_actions ?_ h)
      intro added hadded
      obtain ⟨c, hc, rfl⟩ := mem_map.mp hadded
      exact hP c hc _

/-! ## Claims -/

theorem cancelChild_find?_self {row : Job} (hrow : s.jobs.find? job.id = some row)
    (hcur : Current row job) (hqueued : job.state = .queued) (hopen : job.cancelRequested = false)
    (h : cancelChild wire env s job = .ok s') :
    ∃ row', s'.jobs.find? job.id = some row' ∧ row'.state = .canceled := by
  have hstate : (row.requestCancel env.finish).state = .canceled := by
    unfold Job.requestCancel
    rcases hcur with rfl | hcanceled
    · simp [hqueued]
    · simp [hcanceled]
  obtain ⟨hdone, -⟩ | ⟨s₁, input, receipt, -, hledger, hevent⟩ := cancelChild_ledger h
  · rw [hqueued, hopen] at hdone
    cases hdone
  · obtain ⟨events, rfl⟩ := appendJobEvent_ok hevent
    refine ⟨(row.requestCancel env.finish).bump, ?_, hstate⟩
    dsimp only
    rw [Table.find?_modify_self, hledger.jobs]
    unfold markCancel
    dsimp only
    rw [Table.find?_modify_self, hrow]
    rfl

structure Candidate (s : Store β) (job : Job) : Prop where
  queued : job.state = .queued
  notCanceled : job.cancelRequested = false
  current : ∃ row, s.jobs.find? job.id = some row ∧ Current row job

theorem Candidate.of_cancelChild {other : Job} (hjob : Candidate s job) (hother : Candidate s other)
    (h : cancelChild wire env s job = .ok s') :
    Candidate s' other := by
  refine ⟨hother.queued, hother.notCanceled, ?_⟩
  by_cases hid : other.id = job.id
  · obtain ⟨row, hrow, hcur⟩ := hjob.current
    obtain ⟨row', hrow', hstate⟩ :=
      cancelChild_find?_self hrow hcur hjob.queued hjob.notCanceled h
    rw [hid]
    exact ⟨row', hrow', Or.inr hstate⟩
  · rw [cancelChild_find?_ne h hid]
    exact hother.current

theorem oldestQueued_candidate {p : Job → Bool} (h : oldestQueued env s p = some job) :
    Candidate s job := by
  unfold oldestQueued at h
  have hmem := (perm_insertionSort Job.before _).mem_iff.mp (mem_of_mem_head? h)
  have hp := of_mem_filter hmem
  simp only [Bool.and_eq_true, decide_eq_true_eq, Option.isNone_iff_eq_none] at hp
  refine ⟨hp.1.1.1, ?_, job, Table.find?_of_mem (mem_of_mem_filter hmem), Or.inl rfl⟩
  unfold Job.cancelRequested
  rw [hp.1.1.2]
  rfl

theorem claimHeads_candidate {input : ClaimInput} (h : job ∈ claimHeads env s input) :
    Candidate s job := by
  unfold claimHeads at h
  have hmem := (perm_insertionSort Job.before _).mem_iff.mp h
  obtain ⟨kind, -, hkind⟩ := mem_filterMap.mp hmem
  exact oldestQueued_candidate hkind

theorem settleAttempt_notFound {usage : Option ℤ}
    (h : settleAttempt env s job attempt usage = .error .notFound) :
    job.kind.network = true ∧ s.reservations.find? (job.id, attempt) = none := by
  unfold settleAttempt at h
  split_ifs at h with hnet
  split at h
  · next hnone => exact ⟨by simpa using hnet, hnone⟩
  · split at h
    · cases h
    · split_ifs at h
      cases h

theorem cleanEvent_ne_notFound (input : EventInput) : cleanEvent input ≠ .error .notFound := by
  intro h
  unfold cleanEvent at h
  split_ifs at h
  · cases h
  · split at h
    · cases h
    · split_ifs at h
      cases h

/-- An event of a job that is there does not miss its row. -/
theorem appendJobEvent_ne_notFound {row : Job} {input : EventInput}
    (hrow : s.jobs.find? job.id = some row) :
    appendJobEvent wire s job input ≠ .error .notFound := by
  intro h
  unfold appendJobEvent at h
  cases hclean : cleanEvent input with
  | error e =>
    rw [hclean] at h
    cases h
    exact cleanEvent_ne_notFound input hclean
  | ok clean =>
    rw [hclean] at h
    simp only [bind, Except.bind, hrow] at h
    split_ifs at h
    · cases h
    · split at h <;> cases h

theorem cancelChild_notFound (hjob : Candidate s job)
    (h : cancelChild wire env s job = .error .notFound) :
    job.kind.network = true ∧ s.reservations.find? (job.id, job.attempt + 1) = none := by
  obtain ⟨row, hrow, -⟩ := hjob.current
  have hmarked : (markCancel env s job).jobs.find? job.id =
      some (row.requestCancel env.finish) := by
    unfold markCancel
    dsimp only
    rw [Table.find?_modify_self, hrow]
    rfl
  unfold cancelChild at h
  rw [if_neg (by simp [hjob.queued, hjob.notCanceled, State.terminal]), if_pos hjob.queued] at h
  cases hsettle : settleAttempt env (markCancel env s job) job (job.attempt + 1) (some 0) with
  | error e =>
    rw [hsettle] at h
    cases h
    have hnone := settleAttempt_notFound hsettle
    unfold markCancel at hnone
    exact hnone
  | ok out =>
    obtain ⟨s₁, settled⟩ := out
    rw [hsettle] at h
    rw [← (settleAttempt_ok hsettle).jobs] at hmarked
    cases hevent : appendJobEvent wire s₁ job
        ⟨env.newID (.event job.id), .completed, 1, 1, none, some (safe "CANCELED")⟩ with
    | error e =>
      simp only [bind, Except.bind, hevent] at h
      cases h
      exact absurd hevent (appendJobEvent_ne_notFound hmarked)
    | ok out =>
      simp only [bind, Except.bind, hevent] at h
      cases h

theorem pickCandidate_actions {input : ClaimInput} {jobs : List Job} {found : Option Job} :
    ∀ {s : Store β}, (∀ job ∈ jobs, Candidate s job) →
      pickCandidate wire env input s jobs = .ok (s', found) → QueueActions wire env P s s' := by
  induction jobs with
  | nil =>
    intro s _ h
    cases h
    exact .refl
  | cons job jobs ih =>
    intro s hcand h
    have hjob := hcand job mem_cons_self
    have hrest : ∀ other ∈ jobs, Candidate s other := fun other hother =>
      hcand other (mem_cons_of_mem _ hother)
    obtain ⟨row, hrow, hcur⟩ := hjob.current
    unfold pickCandidate at h
    split_ifs at h
    · split at h
      · next hmissing =>
        cases h
        obtain ⟨hnet, hnone⟩ := cancelChild_notFound hjob hmissing
        exact ReflTransGen.single (.mark hrow hcur hjob.queued hnet hnone)
      · cases h
      · next hone =>
        exact (ReflTransGen.single (.cancel hrow hcur hone)).trans
          (ih (fun other hother => hjob.of_cancelChild (hrest other hother) hone) h)
    · split at h
      · cases h
        exact .refl
      · cases h
      · split_ifs at h
        · cases h
          exact .refl
        · exact ih hrest h

theorem claimCandidate_actions {input : ClaimInput} {found : Option Job}
    (h : claimCandidate wire env s input = .ok (s', found)) : QueueActions wire env P s s' := by
  unfold claimCandidate at h
  split at h
  · cases h
    exact .refl
  · exact pickCandidate_actions (fun job hjob => claimHeads_candidate hjob) h

theorem claim_actions {input : ClaimInput} {lease : Option Lease}
    (h : claim wire env s input = .ok (s', lease)) : QueueActions wire env P s s' := by
  unfold claim at h
  split_ifs at h
  split at h
  · cases h
  · next hc =>
    cases h
    exact claimCandidate_actions hc
  · next hc =>
    split at h
    · cases h
    · next hl =>
      cases h
      exact (claimCandidate_actions hc).tail (.lease hl)

/-! ## Completions -/

theorem lockLease_ok :
    lockLease s id = .ok job ↔
      id.valid = true ∧ s.jobs.find? id.jobID = some job ∧ id.names job = true := by
  unfold lockLease
  split_ifs with hvalid
  · cases hfind : s.jobs.find? id.jobID with
    | none => simp [hvalid]
    | some row =>
      by_cases hnames : id.names row = true
      · simp only [hnames, if_true, Except.ok.injEq, hvalid, Option.some.injEq, true_and]
        constructor
        · rintro rfl
          exact ⟨rfl, hnames⟩
        · rintro ⟨rfl, -⟩
          rfl
      · simp only [hnames, hvalid, Option.some.injEq, true_and]
        constructor
        · intro h
          cases h
        · rintro ⟨rfl, h⟩
          exact absurd h hnames
  · simp [hvalid]

theorem canonicalResult_ok {result : Result} {hash : String}
    (h : canonicalResult wire input = .ok (result, hash)) :
    result.state = input.state ∧ result.state.terminal = true ∧ result.hash = some hash := by
  unfold canonicalResult at h
  dsimp only at h
  split_ifs at h with h1 h2 h3 h4
  cases h
  simp only [Bool.or_eq_true, not_or, Bool.not_eq_true', Bool.not_eq_false] at h2
  exact ⟨rfl, h2.1.1, rfl⟩

theorem runCallback_actions {c : Callback β} (hP : ∀ input ∈ c.enqueues s.business, P input)
    (h : runCallback wire env s c = .ok s') : Actions wire env P s s' := by
  unfold runCallback at h
  split at h
  · cases h
  · exact ReflTransGen.head (.business s _) (enqueueAll_actions hP h).actions

/-- A callback leaves the rows there are, so the lease that was locked is still locked. -/
theorem runCallback_lockLease {c : Callback β} (h : runCallback wire env s c = .ok s')
    (hlock : lockLease s id = .ok job) :
    lockLease s' id = .ok job := by
  obtain ⟨hvalid, hfind, hnames⟩ := lockLease_ok.mp hlock
  refine lockLease_ok.mpr ⟨hvalid, ?_, hnames⟩
  unfold runCallback at h
  split at h
  · cases h
  · exact enqueueAll_find? h hfind

theorem callbackTx_actions
    (hP : ∀ c, callback = some c → ∀ input ∈ c.enqueues s.business, P input)
    (h : callbackTx wire env s job callback = .ok s') : Actions wire env P s s' := by
  cases callback with
  | none =>
    cases h
    exact .refl
  | some c =>
    unfold callbackTx at h
    split_ifs at h
    exact runCallback_actions (hP c rfl) h

theorem callbackTx_lockLease (h : callbackTx wire env s job callback = .ok s')
    (hlock : lockLease s id = .ok job) :
    lockLease s' id = .ok job := by
  cases callback with
  | none =>
    cases h
    exact hlock
  | some c =>
    unfold callbackTx at h
    split_ifs at h
    exact runCallback_lockLease h hlock

/-- **Completion, inverted.** A completion that commits either replays a recorded result and
changes nothing, or runs the callback and records the outcome under a valid lease. -/
theorem completeTx_ok {receipt : ResultReceipt} {ran : Bool}
    (h : completeTx wire env s id input callback = .ok (s', receipt, ran)) :
    (s' = s ∧ ran = false) ∨
      ∃ job result hash s₁, canonicalResult wire input = .ok (result, hash) ∧
        lockLease s id = .ok job ∧ Accepted job result hash ∧
        validLease s id true env.start = true ∧ ran = callback.isSome ∧
        callbackTx wire env s job callback = .ok s₁ ∧
        recordAttempt wire env s₁ id job result hash = .ok (s', receipt) := by
  unfold completeTx at h
  obtain ⟨⟨result, hash⟩, hcanon, h⟩ := of_bind h
  obtain ⟨job, hlock, h⟩ := of_bind h
  dsimp only at h
  by_cases hfits : resultFits job result = true
  · rw [if_neg (by simp [hfits])] at h
    split at h
    · split_ifs at h
      cases h
      exact Or.inl ⟨rfl, rfl⟩
    · obtain ⟨⟨s₂, receipt₂⟩, hfinish, h⟩ := of_bind h
      cases h
      unfold finishAttempt at hfinish
      split_ifs at hfinish with hlease hcancel
      obtain ⟨s₁, hcallback, hrecord⟩ := of_bind hfinish
      obtain ⟨-, hterminal, hhash⟩ := canonicalResult_ok hcanon
      have haccepted : Accepted job result hash := by
        refine ⟨hterminal, hhash, fun hreq => ?_, hfits⟩
        by_contra hne
        exact hcancel (by simp [hreq, hne])
      exact Or.inr ⟨job, result, hash, s₁, hcanon, hlock, haccepted, by simpa using hlease, rfl,
        hcallback, hrecord⟩
  · rw [if_pos (by simp [hfits])] at h
    cases h

theorem completeTx_actions {receipt : ResultReceipt} {ran : Bool}
    (hP : ∀ c, callback = some c → ∀ input ∈ c.enqueues s.business, P input)
    (h : completeTx wire env s id input callback = .ok (s', receipt, ran)) :
    Actions wire env P s s' := by
  rcases completeTx_ok h with ⟨rfl, -⟩ |
    ⟨job, result, hash, s₁, -, hlock, hacc, -, -, hcallback, hrecord⟩
  · exact .refl
  · exact (callbackTx_actions hP hcallback).tail
      (.queue (.finish (callbackTx_lockLease hcallback hlock) hacc hrecord))

/-! ## Calls about one lease, inverted -/

theorem leaseJob_ok {worker : ID} {lease : Lease}
    (h : leaseJob wire env s worker job = .ok (s', lease)) :
    ∃ row events, s.jobs.find? job.id = some row ∧ row.state = .queued ∧
      row.cancelRequested = false ∧ row.attempt < 2 ∧
      s' = { s with
        jobs := (s.jobs.modify job.id (Job.lease worker env.finish) (Job.lease_id _ _)).modify
          job.id Job.bump Job.bump_id
        events := events } := by
  unfold leaseJob at h
  split at h
  · cases h
  · next row hrow =>
    split_ifs at h with hopen hattempt
    obtain ⟨payload, -, h⟩ := of_bind h
    obtain ⟨⟨s₁, receipt⟩, hevent, h⟩ := of_bind h
    cases h
    obtain ⟨events, rfl⟩ := appendJobEvent_ok hevent
    simp only [Bool.or_eq_true, decide_eq_true_eq, not_or, not_not, Bool.not_eq_true] at hopen
    have hid : (row.lease worker env.finish).id = job.id := by
      rw [Job.lease_id]
      exact Table.key_of_find? hrow
    exact ⟨row, events, hrow, hopen.1, hopen.2, by omega, by simp only [hid]⟩

theorem heartbeat_ok {answer : Heartbeat} (h : heartbeat env s id = .ok (s', answer)) :
    ∃ job, s.jobs.find? id.jobID = some job ∧ id.names job = true ∧
      job.leaseValid env.start = true ∧
      s' = { s with
        jobs := s.jobs.modify id.jobID (Job.beat (env.testRevoked job.id) env.finish)
          (Job.beat_id _ _) } := by
  unfold heartbeat at h
  split_ifs at h
  split at h
  · cases h
  · next job hjob =>
    split_ifs at h with hheld
    cases h
    rw [Bool.and_eq_true] at hheld
    exact ⟨job, hjob, hheld.1, hheld.2, rfl⟩

theorem validLease_iff {now : Time} (hlock : lockLease s id = .ok job) :
    validLease s id true now = true ↔ job.leaseValid now = true := by
  obtain ⟨-, hfind, hnames⟩ := lockLease_ok.mp hlock
  unfold validLease
  rw [hfind]
  simp [hnames]

/-- The rows before the event is appended: a job that reports on its work is running. -/
def runRow (s : Store β) (id : LeaseIdentity) (input : EventInput) : Store β :=
  if input.phase = .leased then s
  else { s with jobs := s.jobs.modify id.jobID Job.run Job.run_id }

theorem event_ok {input : EventInput} (h : event wire env s id input = .ok (s', receipt)) :
    ∃ job clean, lockLease s id = .ok job ∧ job.leaseValid env.start = true ∧
      (s' = s ∨ appendJobEvent wire (runRow s id clean) job clean = .ok (s', receipt) ∧
        validLease s' id true env.finish = true) := by
  unfold event at h
  obtain ⟨clean, -, h⟩ := of_bind h
  obtain ⟨job, hlock, h⟩ := of_bind h
  by_cases hlease : validLease s id true env.start = true
  · rw [if_neg (by simp [hlease])] at h
    refine ⟨job, clean, hlock, (validLease_iff hlock).mp hlease, ?_⟩
    by_cases hapi : (job.executor = .runner && clean.phase.apiOnly) = true
    · rw [if_pos hapi] at h
      cases h
    · rw [if_neg hapi] at h
      split at h
      · split_ifs at h
        cases h
        exact Or.inl rfl
      · obtain ⟨⟨s₁, receipt₁⟩, hevent, h⟩ := of_bind h
        dsimp only at h
        by_cases hfinish : validLease s₁ id true env.finish = true
        · rw [if_pos hfinish] at h
          cases h
          exact Or.inr ⟨hevent, hfinish⟩
        · rw [if_neg hfinish] at h
          cases h
  · rw [if_pos (by simpa using hlease)] at h
    cases h

/-- What recording an outcome does, in order: settle, record, decide, rewrite the row, report. -/
theorem recordAttempt_ok {hash : String} {receipt : ResultReceipt}
    (hlock : lockLease s id = .ok job)
    (h : recordAttempt wire env s id job input hash = .ok (s', receipt)) :
    ∃ s₁ settled s₂ s₃ state verdict error report ereceipt,
      job.leaseValid env.finish = true ∧
      settleAttempt env s job job.attempt input.metrics.bodyBytes = .ok (s₁, settled) ∧
      insertResult env s₁ id hash input settled = .ok s₂ ∧
      completeOutcome env s₂ job input = .ok (s₃, state, verdict, error) ∧
      appendJobEvent wire { s₃ with
        jobs := s₃.jobs.modify id.jobID (Job.finish env.finish state verdict error)
          (Job.finish_id _ _ _ _) } job report = .ok (s', ereceipt) := by
  unfold recordAttempt at h
  by_cases hlease : validLease s id true env.finish = true
  · rw [if_neg (by simp [hlease])] at h
    obtain ⟨⟨s₁, settled⟩, hsettle, h⟩ := of_bind h
    obtain ⟨s₂, hinsert, h⟩ := of_bind h
    obtain ⟨⟨s₃, state, verdict, error⟩, hout, h⟩ := of_bind h
    dsimp only at h
    by_cases hlast : validLease s₃ id true env.finish = true
    · rw [if_neg (by simp [hlast])] at h
      obtain ⟨⟨s₄, ereceipt⟩, hevent, h⟩ := of_bind h
      cases h
      exact ⟨s₁, settled, s₂, s₃, state, verdict, error, _, ereceipt,
        (validLease_iff hlock).mp hlease, hsettle, hinsert, hout, hevent⟩
    · rw [if_pos (by simpa using hlast)] at h
      cases h
  · rw [if_pos (by simpa using hlease)] at h
    cases h

end ProxyLoom.Jobs
