import ProxyLoom.Jobs.Business
import ProxyLoom.Jobs.Callbacks

/-!
# Source refreshes

`handleRefresh` fetches and parses a source and hands the queue a result together with a callback
that writes the catalog. A refresh that fails writes its failure too: the snapshot, the source's
last error and revision, and the backed-off schedule.

Fetching and parsing are parameters, as is the preview that a successful refresh creates.
-/

namespace ProxyLoom.Sources

open IR RunnerProtocol Jobs Except Option

/-! ## Fetch outcomes -/

inductive FetchError where
  | timeout | invalidURL | httpDisabled | blockedAddress | tooLarge | other
deriving DecidableEq, Repr

structure Fetched where
  status : ℤ
  contentType : String
  body : List UInt8
deriving DecidableEq, Repr

def fetchOk (err : Option FetchError) (fetched : Fetched) : Bool :=
  err.isNone && 200 ≤ fetched.status && fetched.status ≤ 299 && fetched.body ≠ []

def refreshFetchCode (err : Option FetchError) (fetched : Fetched) : String :=
  match err with
  | some .timeout => "JOB_TIMEOUT"
  | some .invalidURL | some .httpDisabled | some .blockedAddress | some .tooLarge =>
    "INVALID_CONFIG"
  | some .other => "SERVICE_UNAVAILABLE"
  | none =>
    if 200 ≤ fetched.status && fetched.status ≤ 299 && fetched.body = [] then "INVALID_CONFIG"
    else "SERVICE_UNAVAILABLE"

def sourcePreviewLimit : String := "SOURCE_PREVIEW_LIMIT"

def sourceInvalidEntries : String := "SOURCE_INVALID_ENTRIES"

def sourceRefreshError (code : String) : SafeError :=
  if code = sourcePreviewLimit then
    { safe "VALIDATION_FAILED" with
      message := "The source preview exceeds the 5000-candidate limit, including missing items. No changes were applied." }
  else if code = sourceInvalidEntries then
    { safe "VALIDATION_FAILED" with
      message := "The source contains invalid or unsupported entries. Previous successful data was retained." }
  else safe code

/-! ## The catalog -/

/-- A source row. -/
structure Source where
  id : ID
  scopeID : ID
  revision : ℕ
  refreshEnabled : Bool
  intervalSeconds : ℕ
  bindingRevision : ℕ
  lastJobID : Option ID
  lastError : Option SafeError
  lastSuccessAt : Option Time
  latestPreviewBatchID : Option ID
deriving DecidableEq, Repr

structure Snapshot where
  sourceID : ID
  sourceRevision : ℕ
  httpStatus : Option ℤ
  contentType : Option String
  decodedBytes : ℕ
  success : Bool
deriving DecidableEq, Repr

structure Schedule where
  sourceID : ID
  nextRunAt : Time
  backoffSeconds : ℕ
  lastJobID : ID
deriving DecidableEq, Repr

structure Catalog where
  sources : Table Source.id
  snapshots : List Snapshot
  schedules : ID → Option Schedule

structure RefreshPayload where
  sourceID : ID
  revision : ℕ
deriving DecidableEq, Repr

def newSnapshot (source : Source) (fetched : Fetched) (success : Bool) : Snapshot where
  sourceID := source.id
  sourceRevision := source.revision
  httpStatus := if 100 ≤ fetched.status && fetched.status ≤ 599 then some fetched.status else none
  contentType := if fetched.contentType = "" then none else some fetched.contentType
  decodedBytes := fetched.body.length
  success := success

def nextBackoff (current interval : ℕ) : ℕ := min (min (max (current * 2) 60) interval) 2592000

/-- The schedule after a refresh: the interval after a success, a backoff after a failure. -/
def syncSchedule (schedules : ID → Option Schedule) (source : Source) (job : ID) (success : Bool)
    (now : Time) : ID → Option Schedule := fun id =>
  if id ≠ source.id then schedules id
  else if !source.refreshEnabled then none
  else if success then
    some ⟨source.id, now + source.intervalSeconds * 1000000, 60, job⟩
  else
    let backoff := nextBackoff (((schedules source.id).map Schedule.backoffSeconds).getD 60)
      source.intervalSeconds
    some ⟨source.id, now + backoff * 1000000, backoff, job⟩

/-- How a refresh ended: with a preview batch, or with an error code. -/
inductive Outcome where
  | success (previewBatchID : ID)
  | failure (code : String)
deriving DecidableEq, Repr

def Outcome.ok : Outcome → Bool
  | .success _ => true
  | .failure _ => false

/-- The source as the refresh leaves it. Every update raises the revision. -/
def Source.refreshed (job : ID) (outcome : Outcome) (now : Time) (source : Source) : Source :=
  let next := { source with revision := source.revision + 1, lastJobID := some job }
  match outcome with
  | .success preview =>
    { next with
      lastError := none
      lastSuccessAt := some now
      bindingRevision := source.bindingRevision + 1
      latestPreviewBatchID := some preview }
  | .failure code => { next with lastError := some (sourceRefreshError code) }

@[simp] theorem Source.refreshed_id (job : ID) (outcome : Outcome) (now : Time) (source : Source) :
    (source.refreshed job outcome now).id = source.id := by
  cases outcome <;> rfl

@[simp] theorem Source.refreshed_scopeID (job : ID) (outcome : Outcome) (now : Time)
    (source : Source) : (source.refreshed job outcome now).scopeID = source.scopeID := by
  cases outcome <;> rfl

@[simp] theorem Source.refreshed_revision (job : ID) (outcome : Outcome) (now : Time)
    (source : Source) : (source.refreshed job outcome now).revision = source.revision + 1 := by
  cases outcome <;> rfl

/-- The callback of a refresh. A source that changed since is left as it is. -/
def commitRefresh (scope job : ID) (payload : RefreshPayload) (fetched : Fetched)
    (outcome : Outcome) (now : Time) (catalog : Catalog) : Option Catalog :=
  match catalog.sources.find? payload.sourceID with
  | none => none
  | some current =>
    if current.scopeID ≠ scope then none
    else if current.revision ≠ payload.revision then some catalog
    else
      some
        { sources := catalog.sources.modify payload.sourceID (Source.refreshed job outcome now)
            (Source.refreshed_id job outcome now)
          snapshots := catalog.snapshots ++ [newSnapshot current fetched outcome.ok]
          schedules := syncSchedule catalog.schedules (current.refreshed job outcome now) job
            outcome.ok now }

/-! ## The handler -/

/-- What the parser makes of a body: nothing usable, entries that are not valid, more candidates
than a preview holds, or a preview. -/
inductive Parsed where
  | nothing | invalidEntries | overLimit
  | preview (batchID : ID)
deriving DecidableEq, Repr

/-- Fetching and parsing. -/
structure Remote where
  decode : List UInt8 → Option RefreshPayload
  fetch : Source → Option FetchError × Fetched
  parse : Fetched → Parsed
  now : Time

/-- What a refresh ends in. -/
def refreshOutcome (remote : Remote) (source : Source) : Outcome :=
  let (err, fetched) := remote.fetch source
  if fetchOk err fetched then
    match remote.parse fetched with
    | .nothing => .failure "INVALID_CONFIG"
    | .invalidEntries => .failure sourceInvalidEntries
    | .overLimit => .failure sourcePreviewLimit
    | .preview batchID => .success batchID
  else .failure (refreshFetchCode err fetched)

def refreshResult : Outcome → Result
  | .success _ => ⟨.succeeded, some .pass, .none, none, none, none⟩
  | .failure code => ⟨.failed, some .fail, .none, some (sourceRefreshError code), none, none⟩

def staleResult : Result := ⟨.failed, some .fail, .none, some (safe "INVALID_CONFIG"), none, none⟩

/-- The job of a refresh worker. -/
def handleRefresh (remote : Remote) (catalog : Catalog) (lease : Lease) :
    Except JobError (Result × Option (Callback Catalog)) :=
  if lease.job.executor ≠ .apiWorker || lease.job.kind ≠ .sourceRefresh || !lease.identity.valid ||
      lease.identity.jobID ≠ lease.job.id || !ID.validate lease.job.scopeID ||
      !lease.job.batchID.any ID.validate then
    .error .invalidInput
  else
    match remote.decode lease.payload with
    | none => .error .invalidInput
    | some payload =>
      if lease.job.batchID ≠ some payload.sourceID || payload.revision < 1 then
        .error .invalidInput
      else
        match (catalog.sources.find? payload.sourceID).filter
            fun source => source.scopeID = lease.job.scopeID with
        | none => .ok (staleResult, none)
        | some source =>
          if source.revision ≠ payload.revision then .ok (staleResult, none)
          else
            let outcome := refreshOutcome remote source
            .ok (refreshResult outcome,
              some ⟨commitRefresh lease.job.scopeID lease.job.id payload (remote.fetch source).2
                outcome remote.now, fun _ => []⟩)

/-- What the API worker completes the lease with: a handler that fails commits no callback. -/
def workerResult : Except JobError (Result × Option (Callback Catalog)) →
    Result × Option (Callback Catalog)
  | .ok out => out
  | .error .invalidInput =>
    (⟨.failed, none, .none, some (safe "INVALID_CONFIG"), none, none⟩, none)
  | .error _ => (⟨.failed, none, .none, some (safe "SERVICE_UNAVAILABLE"), none, none⟩, none)

/-! ## Failed refreshes and retries -/

theorem refreshFetchCode_cases (err : Option FetchError) (fetched : Fetched) :
    refreshFetchCode err fetched = "JOB_TIMEOUT" ∨ refreshFetchCode err fetched = "INVALID_CONFIG" ∨
      refreshFetchCode err fetched = "SERVICE_UNAVAILABLE" := by
  unfold refreshFetchCode
  split
  · exact .inl rfl
  · exact .inr (.inl rfl)
  · exact .inr (.inl rfl)
  · exact .inr (.inl rfl)
  · exact .inr (.inl rfl)
  · exact .inr (.inr rfl)
  · split_ifs
    · exact .inr (.inl rfl)
    · exact .inr (.inr rfl)

variable {remote : Remote} {source : Source} {catalog : Catalog} {lease : Lease} {wire : Wire}
  {payload : RefreshPayload} {w : World Catalog}

theorem refreshOutcome_code {code : String}
    (h : refreshOutcome remote source = .failure code) :
    code = "SERVICE_UNAVAILABLE" ∨ (sourceRefreshError code).code ∉ infrastructureCodes := by
  unfold refreshOutcome at h
  dsimp only at h
  split_ifs at h
  · split at h <;> cases h
    · exact .inr (by decide)
    · exact .inr (by decide)
    · exact .inr (by decide)
  · cases h
    rcases refreshFetchCode_cases (remote.fetch source).1 (remote.fetch source).2 with h | h | h
    · rw [h]
      exact .inr (by decide)
    · rw [h]
      exact .inr (by decide)
    · exact .inl h

theorem refresh_retryable {job : Job}
    (hkind : job.kind = .sourceRefresh) (hopen : job.cancelRequested = false) :
    Retryable job (refreshResult (refreshOutcome remote source)) ↔
      job.attempt < 2 ∧ refreshOutcome remote source = .failure "SERVICE_UNAVAILABLE" := by
  unfold Retryable
  cases hout : refreshOutcome remote source with
  | success preview => simp [refreshResult]
  | failure code =>
    constructor
    · rintro ⟨-, hattempt, -, -, e, herror, hcode⟩
      cases herror
      rcases refreshOutcome_code hout with rfl | hnot
      · exact ⟨hattempt, rfl⟩
      · exact absurd hcode hnot
    · rintro ⟨hattempt, heq⟩
      cases heq
      exact ⟨by rw [hkind]; decide, hattempt, hopen, rfl, _, rfl, by decide⟩

/-- A handler that returns a callback read the source at the revision of the payload. -/
theorem handleRefresh_ok {input : Result}
    {c : Callback Catalog} (h : handleRefresh remote catalog lease = .ok (input, some c)) :
    ∃ payload source, catalog.sources.find? payload.sourceID = some source ∧
      lease.job.batchID = some payload.sourceID ∧
      input = refreshResult (refreshOutcome remote source) ∧
      c = ⟨commitRefresh lease.job.scopeID lease.job.id payload (remote.fetch source).2
        (refreshOutcome remote source) remote.now, fun _ => []⟩ := by
  unfold handleRefresh at h
  obtain ⟨-, h⟩ := of_ite h
  split at h
  · cases h
  · next payload _ =>
    obtain ⟨hpayload, h⟩ := of_ite h
    simp only [Bool.or_eq_true, decide_eq_true_eq, not_or, not_not] at hpayload
    split at h
    · cases h
    · next source hsource =>
      split_ifs at h
      · cases h
      · cases h
        exact ⟨payload, source, (filter_eq_some_iff.mp hsource).1, hpayload.1, rfl, rfl⟩

/-- **Which refreshes the queue retries.** A completion with what the handler returned queues the
job again if it was the first attempt and the source was not available, and ends it otherwise. -/
theorem refresh_retried_iff {env : Env} {s s' : Store Catalog} {input : Result}
    {c : Callback Catalog} {job : Job} {receipt : ResultReceipt}
    (hhandle : handleRefresh remote catalog lease = .ok (input, some c))
    (hjob : s.jobs.find? lease.identity.jobID = some job) (hkind : job.kind = .sourceRefresh)
    (h : completeTx wire env s lease.identity input (some c) = .ok (s', receipt, true)) :
    ∃ source ∈ catalog.sources.rows, lease.job.batchID = some source.id ∧
      ∃ j', s'.jobs.find? lease.identity.jobID = some j' ∧
        (j'.state = .queued ∨ j'.state.terminal = true) ∧
        (j'.state = .queued ↔
          job.attempt < 2 ∧ refreshOutcome remote source = .failure "SERVICE_UNAVAILABLE") := by
  obtain ⟨payload, source, hsource, hbatch, rfl, rfl⟩ := handleRefresh_ok hhandle
  have hid : source.id = payload.sourceID := Table.key_of_find? hsource
  obtain ⟨job', j', hjob', -, -, hj', hend, hagain⟩ := completeTx_ran h
  obtain rfl : job = job' := Option.some.inj (hjob.symm.trans hjob')
  have hopen := completeTx_open hjob h
  have hretry := @refresh_retryable remote source _ hkind hopen
  have hoff : job.kind.network = false := by rw [hkind]; rfl
  refine ⟨source, Table.mem_of_find? hsource, hid ▸ hbatch, j', hj', ?_⟩
  by_cases hyes : Retryable job (refreshResult (refreshOutcome remote source))
  · have hqueued := hagain hyes hoff
    exact ⟨.inl hqueued, iff_of_true hqueued (hretry.mp hyes)⟩
  · have hterminal := hend hyes
    refine ⟨.inr hterminal, iff_of_false (fun hqueued => ?_) fun hyes' => hyes (hretry.mpr hyes')⟩
    rw [hqueued] at hterminal
    cases hterminal

theorem commitRefresh_revision {scope job : ID} {fetched : Fetched}
    {outcome : Outcome} {now : Time} {catalog' : Catalog}
    (hsource : catalog.sources.find? payload.sourceID = some source)
    (hrev : source.revision = payload.revision)
    (h : commitRefresh scope job payload fetched outcome now catalog = some catalog') :
    ∃ source', catalog'.sources.find? payload.sourceID = some source' ∧
      source'.scopeID = scope ∧ source'.revision = payload.revision + 1 := by
  unfold commitRefresh at h
  rw [hsource] at h
  dsimp only at h
  split_ifs at h with hscope hstale
  · exact absurd hrev hstale
  · cases h
    refine ⟨source.refreshed job outcome now, ?_, ?_, ?_⟩
    · rw [Table.find?_modify_self, hsource]
      rfl
    · rw [Source.refreshed_scopeID]
      exact not_not.mp hscope
    · rw [Source.refreshed_revision, hrev]

theorem handleRefresh_stale {out : Result × Option (Callback Catalog)}
    (hdecode : remote.decode lease.payload = some payload)
    (hsource : catalog.sources.find? payload.sourceID = some source)
    (hrev : source.revision ≠ payload.revision)
    (h : handleRefresh remote catalog lease = .ok out) : out = (staleResult, none) := by
  unfold handleRefresh at h
  obtain ⟨-, h⟩ := of_ite h
  rw [hdecode] at h
  obtain ⟨-, h⟩ := of_ite h
  rw [hsource] at h
  split at h
  · cases h
    rfl
  · next hfilter =>
    cases (filter_eq_some_iff.mp hfilter).1
    rw [if_pos hrev] at h
    cases h
    rfl

/-! ## Runs -/

/-- The callbacks of a run are those of refreshes. -/
def RefreshCalls (_ : World Catalog) (l : Label Catalog) : Prop :=
  ∀ c, l.call.callback = some c →
    ∃ remote catalog lease input, handleRefresh remote catalog lease = .ok (input, some c)

/-- No source vanishes, changes its scope or goes back to an earlier revision. -/
def SourcesFollow (catalog catalog' : Catalog) : Prop :=
  ∀ k source, catalog.sources.find? k = some source →
    ∃ source', catalog'.sources.find? k = some source' ∧ source'.scopeID = source.scopeID ∧
      source.revision ≤ source'.revision

theorem SourcesFollow.refl (catalog : Catalog) : SourcesFollow catalog catalog :=
  fun _ source h => ⟨source, h, rfl, le_rfl⟩

theorem commitRefresh_follows {scope job : ID} {fetched : Fetched}
    {outcome : Outcome} {now : Time} {catalog' : Catalog}
    (h : commitRefresh scope job payload fetched outcome now catalog = some catalog') :
    SourcesFollow catalog catalog' := by
  unfold commitRefresh at h
  split at h
  · cases h
  · split_ifs at h
    · cases h
      exact .refl _
    · cases h
      intro k source hsource
      by_cases hk : k = payload.sourceID
      · subst hk
        refine ⟨source.refreshed job outcome now, ?_, Source.refreshed_scopeID .., ?_⟩
        · rw [Table.find?_modify_self, hsource]
          rfl
        · rw [Source.refreshed_revision]
          exact Nat.le_succ _
      · refine ⟨source, ?_, rfl, le_rfl⟩
        rw [Table.find?_modify_ne _ _ _ hk, hsource]

theorem step_follows {w' : World Catalog} {l : Label Catalog}
    (hcalls : RefreshCalls w l) (hstep : (queue wire).step w l w') :
    SourcesFollow w.store.business w'.store.business := by
  obtain ⟨-, hclock, rfl⟩ := hstep
  cases hexec : exec wire l.env w.store l.call with
  | error e => exact .refl _
  | ok out =>
    obtain ⟨s', ran⟩ := out
    show SourcesFollow w.store.business s'.business
    rcases exec_effect hclock hexec with hsame | ⟨c, hc, heffect⟩
    · rw [hsame]
      exact .refl _
    · obtain ⟨remote, catalog, lease, input, hhandle⟩ := hcalls c hc
      obtain ⟨payload, source, -, -, -, rfl⟩ := handleRefresh_ok hhandle
      exact commitRefresh_follows heffect

theorem Run.sourcesFollow {w' : World Catalog}
    (h : ((queue wire).restrict RefreshCalls).Run w w') :
    SourcesFollow w.store.business w'.store.business := by
  induction h with
  | refl => exact .refl _
  | step _ hstep ih =>
    intro k source hsource
    obtain ⟨source₁, hsource₁, hscope₁, hrev₁⟩ := ih k source hsource
    obtain ⟨source₂, hsource₂, hscope₂, hrev₂⟩ := step_follows hstep.1 hstep.2 k source₁ hsource₁
    exact ⟨source₂, hsource₂, hscope₂.trans hscope₁, hrev₁.trans hrev₂⟩

/-- **No lost update.** Once a callback for a revision of a source has changed the catalog, in every
later state no callback for that revision changes it again, and no attempt has a callback. -/
theorem refresh_once {wire : Wire} {w w' : World Catalog} {scope job : ID}
    {payload : RefreshPayload} {fetched : Fetched} {outcome : Outcome} {now : Time}
    {catalog : Catalog} {source : Source}
    (hsource : catalog.sources.find? payload.sourceID = some source)
    (hrev : source.revision = payload.revision)
    (h : commitRefresh scope job payload fetched outcome now catalog = some w.store.business)
    (hrun : ((queue wire).restrict RefreshCalls).Run w w') :
    (∀ job' fetched' outcome' now',
      commitRefresh scope job' payload fetched' outcome' now' w'.store.business =
        some w'.store.business) ∧
    ∀ remote lease out, remote.decode lease.payload = some payload →
      handleRefresh remote w'.store.business lease = .ok out → out = (staleResult, none) := by
  obtain ⟨source₁, hsource₁, hscope₁, hrev₁⟩ := commitRefresh_revision hsource hrev h
  obtain ⟨source', hsource', hscope, hle⟩ := Run.sourcesFollow hrun _ source₁ hsource₁
  have hne : source'.revision ≠ payload.revision := by omega
  refine ⟨fun job' fetched' outcome' now' => ?_,
    fun remote lease out hdecode => handleRefresh_stale hdecode hsource' hne⟩
  unfold commitRefresh
  rw [hsource']
  simp [hscope, hscope₁, hne]

/-! ## A refresh of an unavailable source -/

/-- A source whose server answers with status 503. -/
def unavailable : Remote where
  decode _ := some ⟨refreshSource, 1⟩
  fetch _ := (none, ⟨503, "text/plain", []⟩)
  parse _ := .nothing
  now := 3

def oneSource : Catalog where
  sources := ⟨[⟨refreshSource, refreshScope, 1, true, 3600, 0, none, none, none, none⟩], by simp⟩
  snapshots := []
  schedules _ := none

def refreshLeased : Option Lease :=
  match claim plainWire (instantEnv 2 "00000000-0000-4000-8000-000000000012")
      ((emptyWorld oneSource).next plainWire enqueueRefresh).store
      ⟨.apiWorker, refreshWorker, [.sourceRefresh], [], noSlots, noSlots⟩ with
  | .ok (_, lease) => lease
  | .error _ => none

/-- The worker completes its lease with what the handler returns. -/
def completeLeased (remote : Remote) (catalog : Catalog) (lease : Lease) (env : Env) :
    Label Catalog where
  env := env
  call :=
    let out := workerResult (handleRefresh remote catalog lease)
    .complete lease.identity out.1 out.2

/-- The refresh after its first attempt found the source unavailable. -/
def failedOnce : Option (World Catalog) :=
  refreshLeased.map fun lease => (claimedRefresh oneSource).next plainWire
    (completeLeased unavailable oneSource lease
      (instantEnv 3 "00000000-0000-4000-8000-000000000013"))

theorem reach_failedOnce (h : failedOnce = some w) :
    (queue plainWire).Reach w := by
  obtain ⟨lease, -, rfl⟩ := map_eq_some_iff.mp h
  have hclaimed : (queue plainWire).Reach (claimedRefresh oneSource) :=
    Reach.next (Reach.next (reach_emptyWorld oneSource) enqueueRefresh (by decide) (by decide))
      (claimRefresh 2 _) (by decide) (by decide)
  have hclock : (claimedRefresh oneSource).clock ≤ 3 := by decide
  exact Reach.next hclaimed _ hclock (le_refl 3)

/-- **A committed callback behind a queued job.** The failure of the first attempt is in the
catalog, with the revision raised, and the job is queued for a second one. -/
theorem refresh_requeued :
    ∃ w, failedOnce = some w ∧ (queue plainWire).Reach w ∧ w.callbacks = [refreshJob] ∧
      (w.store.jobs.find? refreshJob).map Job.state = some .queued ∧
      (w.store.business.sources.find? refreshSource).map
          (fun source => (source.revision, source.lastError.map SafeError.code)) =
        some (2, some "SERVICE_UNAVAILABLE") := by
  have hsome : failedOnce.isSome = true := by decide
  obtain ⟨w, hw⟩ := isSome_iff_exists.mp hsome
  have hfacts : failedOnce.map (fun w => (w.callbacks,
      (w.store.jobs.find? refreshJob).map Job.state,
      (w.store.business.sources.find? refreshSource).map
        (fun source => (source.revision, source.lastError.map SafeError.code)))) =
      some ([refreshJob], some .queued, some (2, some "SERVICE_UNAVAILABLE")) := by
    decide
  rw [hw, map_some, Option.some.injEq, Prod.mk.injEq, Prod.mk.injEq] at hfacts
  exact ⟨w, hw, reach_failedOnce hw, hfacts.1, hfacts.2.1, hfacts.2.2⟩

/-- The first attempt of the claimed refresh, which finds its source unavailable, is retried. -/
theorem refresh_retried_iff_unavailable :
    ∃ lease input c s' receipt j', handleRefresh unavailable oneSource lease = .ok (input, some c) ∧
      completeTx plainWire (instantEnv 3 "00000000-0000-4000-8000-000000000013")
        (claimedRefresh oneSource).store lease.identity input (some c) = .ok (s', receipt, true) ∧
      s'.jobs.find? lease.identity.jobID = some j' ∧ j'.state = .queued := by
  have hrun : (refreshLeased.bind fun lease =>
      (handleRefresh unavailable oneSource lease).toOption.bind fun out => out.2.bind fun c =>
        (completeTx plainWire (instantEnv 3 "00000000-0000-4000-8000-000000000013")
          (claimedRefresh oneSource).store lease.identity out.1 (some c)).toOption.bind fun done =>
          ((claimedRefresh oneSource).store.jobs.find? lease.identity.jobID).map fun job =>
            (done.2.2, job.kind, job.attempt)) = some (true, .sourceRefresh, 1) := by decide
  obtain ⟨lease, -, hrun⟩ := bind_eq_some_iff.mp hrun
  obtain ⟨⟨input, _⟩, hhandle, hrun⟩ := bind_eq_some_iff.mp hrun
  obtain ⟨c, rfl, hrun⟩ := bind_eq_some_iff.mp hrun
  obtain ⟨⟨s', receipt, _⟩, hdone, hrun⟩ := bind_eq_some_iff.mp hrun
  obtain ⟨job, hjob, hrow⟩ := map_eq_some_iff.mp hrun
  simp only [Prod.mk.injEq] at hrow
  obtain ⟨rfl, hkind, hattempt⟩ := hrow
  have hhandle := eq_ok_of_toOption hhandle
  have hdone := eq_ok_of_toOption hdone
  obtain ⟨source, -, -, j', hj', -, hqueued⟩ := refresh_retried_iff hhandle hjob hkind hdone
  exact ⟨lease, input, c, s', receipt, j', hhandle, hdone, hj',
    hqueued.mpr ⟨by rw [hattempt]; decide, rfl⟩⟩

/-- The catalog behind a refresh that found its source unavailable. -/
def refreshedCatalog : Catalog :=
  (commitRefresh refreshScope refreshJob ⟨refreshSource, 1⟩ ⟨503, "text/plain", []⟩
    (.failure "SERVICE_UNAVAILABLE") 3 oneSource).getD oneSource

/-- The refresh is enqueued again, and can no longer write its revision. -/
theorem refresh_once_enqueued :
    ((emptyWorld refreshedCatalog).next plainWire enqueueRefresh).store.jobs.rows ≠ [] ∧
      commitRefresh refreshScope refreshJob ⟨refreshSource, 1⟩ ⟨200, "", []⟩ (.success "") 4
        ((emptyWorld refreshedCatalog).next plainWire enqueueRefresh).store.business =
          some ((emptyWorld refreshedCatalog).next plainWire enqueueRefresh).store.business := by
  have hcommit : commitRefresh refreshScope refreshJob ⟨refreshSource, 1⟩
      ⟨503, "text/plain", []⟩ (.failure "SERVICE_UNAVAILABLE") 3 oneSource =
        some refreshedCatalog := rfl
  have hrun : ((queue plainWire).restrict RefreshCalls).Run (emptyWorld refreshedCatalog)
      ((emptyWorld refreshedCatalog).next plainWire enqueueRefresh) := by
    refine .step (l := enqueueRefresh) (.refl _) ⟨?_, by decide, by decide, rfl⟩
    rintro c ⟨⟩
  exact ⟨by decide, (refresh_once rfl rfl hcommit hrun).1 _ _ _ _⟩

end ProxyLoom.Sources
