import ProxyLoom.Jobs.Fencing

/-!
# Business callbacks and terminal outcomes

A completion commits its business callback together with the outcome of the attempt. The outcome
is terminal unless the failure is one that the queue retries: `completeTx_terminal_iff` says exactly
when. In runs that pass no callback with such a failure, every committed callback belongs to a
finished job, and no job commits two.
-/

namespace ProxyLoom.Jobs

open IR RunnerProtocol List

variable {β : Type} {wire : Wire} {env : Env} {s s' : Store β} {input : Result}
  {receipt : ResultReceipt} {hash : String} {job : Job} {id : LeaseIdentity}
  {callback : Option (Callback β)}

/-- The reported failure gives the job a further attempt. -/
def Retryable (job : Job) (input : Result) : Prop :=
  job.kind ≠ .downloadThroughput ∧ job.attempt < 2 ∧ job.cancelRequested = false ∧
    input.state = .failed ∧ ∃ e, input.error = some e ∧ e.code ∈ infrastructureCodes

theorem canonicalResult_error {result : Result}
    (h : canonicalResult wire input = .ok (result, hash)) :
    result.error = input.error.map (fun e => safe e.code) ∧
      ∀ e, input.error = some e → knownError e.code = true := by
  unfold canonicalResult at h
  dsimp only at h
  split_ifs at h with h1 h2 h3 h4
  cases h
  refine ⟨rfl, fun e he => ?_⟩
  rw [he] at h3
  simpa using h3

theorem infrastructureRetry_iff {result : Result}
    (h : canonicalResult wire input = .ok (result, hash)) :
    infrastructureRetry job result = true ↔ Retryable job input := by
  obtain ⟨hstate, -, -⟩ := canonicalResult_ok h
  obtain ⟨herror, hknown⟩ := canonicalResult_error h
  unfold infrastructureRetry Retryable
  rw [hstate, herror]
  cases hinput : input.error with
  | none => simp
  | some e =>
    have hcode : (safe e.code).code = e.code := safe_code_of_known (hknown e hinput)
    simp [hcode, and_assoc, and_comm, and_left_comm]

theorem recordAttempt_find?
    (hlock : lockLease s id = .ok job)
    (h : recordAttempt wire env s id job input hash = .ok (s', receipt)) :
    ∃ j' out, ∃ s₂ s₃ : Store β, s'.jobs.find? id.jobID = some j' ∧
      completeOutcome env s₂ job input = .ok (s₃, j'.state, out) := by
  obtain ⟨s₁, settled, s₂, s₃, state, verdict, error, report, ereceipt, -, hsettle, hinsert,
    hout, hevent⟩ := recordAttempt_ok hlock h
  obtain ⟨results, rfl, -⟩ := insertResult_ok hinsert
  obtain ⟨events, rfl⟩ := appendJobEvent_ok hevent
  have hfind := (lockLease_ok.mp hlock).2.1
  have hid : job.id = id.jobID := Table.key_of_find? hfind
  have hjobs : s₃.jobs = s.jobs := by
    rw [(completeOutcome_ok hout).jobs]
    exact (settleAttempt_ok hsettle).jobs
  refine ⟨(job.finish env.finish state verdict error).bump, (verdict, error), _, s₃, ?_, hout⟩
  dsimp only
  rw [hid, Table.find?_modify_self, Table.find?_modify_self, hjobs, hfind]
  rfl

theorem completeOutcome_state {state : State} {out : Option Verdict × Option SafeError}
    (h : completeOutcome env s job input = .ok (s', state, out)) :
    (infrastructureRetry job input = false → state = input.state) ∧
      (infrastructureRetry job input = true → job.kind.network = false → state = .queued) := by
  obtain ⟨hretry, -, heq⟩ | ⟨hretry, -, -, heq⟩ | ⟨hretry, hnet, -⟩ := completeOutcome_cases h
  · cases heq
    exact ⟨fun _ => rfl, fun hyes => Bool.noConfusion (hretry.symm.trans hyes)⟩
  · cases heq
    exact ⟨fun hno => Bool.noConfusion (hretry.symm.trans hno), fun _ _ => rfl⟩
  · exact ⟨fun hno => Bool.noConfusion (hretry.symm.trans hno),
      fun _ hoff => Bool.noConfusion (hnet.symm.trans hoff)⟩

/-- A completion that commits its callback, inverted: the lease held, and what becomes of the
job. -/
theorem completeTx_ran
    (h : completeTx wire env s id input callback = .ok (s', receipt, true)) :
    ∃ job j', s.jobs.find? id.jobID = some job ∧ job.state.active = true ∧
      callback.isSome = true ∧ s'.jobs.find? id.jobID = some j' ∧
      (¬ Retryable job input → j'.state.terminal = true) ∧
      (Retryable job input → job.kind.network = false → j'.state = .queued) := by
  rcases completeTx_ok h with ⟨-, hfalse⟩ |
    ⟨job, result, hash, s₁, hcanon, hlock, hacc, hvalid, hran, hcallback, hrecord⟩
  · cases hfalse
  · obtain ⟨j', out, s₂, s₃, hj', hout⟩ :=
      recordAttempt_find? (callbackTx_lockLease hcallback hlock) hrecord
    have hstate := completeOutcome_state hout
    refine ⟨job, j', (lockLease_ok.mp hlock).2.1,
      active_of_leaseValid ((validLease_iff hlock).mp hvalid), hran.symm, hj', ?_, ?_⟩
    · intro hnot
      rw [← infrastructureRetry_iff hcanon, Bool.not_eq_true] at hnot
      rw [hstate.1 hnot]
      exact hacc.terminal
    · intro hretry hoff
      exact hstate.2 ((infrastructureRetry_iff hcanon).mpr hretry) hoff

/-- A canceled job commits no callback. -/
theorem completeTx_open
    (hjob : s.jobs.find? id.jobID = some job)
    (h : completeTx wire env s id input callback = .ok (s', receipt, true)) :
    job.cancelRequested = false := by
  rcases completeTx_ok h with ⟨-, hfalse⟩ |
    ⟨job', result, hash, s₁, -, hlock, -, -, hran, hcallback, -⟩
  · cases hfalse
  · obtain rfl : job = job' := Option.some.inj (hjob.symm.trans (lockLease_ok.mp hlock).2.1)
    obtain ⟨c, rfl⟩ := Option.isSome_iff_exists.mp hran.symm
    by_contra hcancel
    rw [callbackTx, if_pos (by simpa using hcancel)] at hcallback
    cases hcallback

/-- **When a committed callback ends its job.** For a job outside the network budget, exactly when
the reported failure is not retried. -/
theorem completeTx_terminal_iff
    (hjob : s.jobs.find? id.jobID = some job) (hoff : job.kind.network = false)
    (h : completeTx wire env s id input callback = .ok (s', receipt, true)) :
    (∃ j', s'.jobs.find? id.jobID = some j' ∧ j'.state.terminal = true) ↔
      ¬ Retryable job input := by
  obtain ⟨job', j', hjob', -, -, hj', hend, hagain⟩ := completeTx_ran h
  rw [hjob] at hjob'
  cases hjob'
  constructor
  · rintro ⟨j'', hj'', hterminal⟩ hretry
    rw [hj'] at hj''
    cases hj''
    rw [hagain hretry hoff] at hterminal
    cases hterminal
  · intro hnot
    exact ⟨j', hj', hend hnot⟩

/-! ## Whole runs -/

/-- No callback is passed along with a failure that is retried. -/
def NoRetriedCallback (w : World β) (l : Label β) : Prop :=
  ∀ id input c, l.call = .complete id input (some c) →
    ∀ job, w.store.jobs.find? id.jobID = some job → ¬ Retryable job input

/-- Every committed callback belongs to a finished job, and no job committed two. -/
structure CallbacksFinal (w : World β) : Prop where
  terminal : ∀ k ∈ w.callbacks, ∃ j, w.store.jobs.find? k = some j ∧ j.state.terminal = true
  once : w.callbacks.Nodup

theorem exec_ran {call : Call β} {k : ID} (h : exec wire env s call = .ok (s', some k)) :
    ∃ id input c receipt, call = .complete id input (some c) ∧ id.jobID = k ∧
      completeTx wire env s id input (some c) = .ok (s', receipt, true) := by
  cases call <;> obtain ⟨out, hout, heq⟩ := Except.of_map h
  case complete id input callback =>
    obtain ⟨s₁, receipt, ran⟩ := out
    obtain ⟨rfl, hran⟩ := Prod.mk.inj heq
    dsimp only at hran
    split_ifs at hran with htrue
    cases hran
    subst htrue
    obtain ⟨job, j', -, -, hsome, -⟩ := completeTx_ran hout
    obtain ⟨c, rfl⟩ := Option.isSome_iff_exists.mp hsome
    exact ⟨id, input, c, receipt, rfl, rfl, hout⟩
  all_goals cases heq

theorem CallbacksFinal.step {w w' : World β} {l : Label β} (hreach : (queue wire).Reach w)
    (hw : CallbacksFinal w) (hno : NoRetriedCallback w l) (hstep : (queue wire).step w l w') :
    CallbacksFinal w' := by
  have hkept : ∀ k ∈ w.callbacks, ∃ j, w'.store.jobs.find? k = some j ∧
      j.state.terminal = true := by
    intro k hk
    obtain ⟨j, hj, hterminal⟩ := hw.terminal k hk
    obtain ⟨j', hj', hlater⟩ := Run.later hreach (.step (.refl w) hstep) hj
    refine ⟨j', hj', ?_⟩
    rw [hlater.absorbing hterminal]
    exact hterminal
  obtain ⟨-, -, rfl⟩ := hstep
  cases hexec : exec wire l.env w.store l.call with
  | error e => exact ⟨hw.terminal, hw.once⟩
  | ok out =>
    obtain ⟨s', ran⟩ := out
    rw [hexec] at hkept
    cases ran with
    | none =>
      have hsame : (w.after l.env.finish (.ok (s', none))).callbacks = w.callbacks :=
        append_nil _
      exact ⟨fun k hk => hkept k (hsame ▸ hk), hsame ▸ hw.once⟩
    | some k =>
      obtain ⟨id, input, c, receipt, hcall, rfl, hcomplete⟩ := exec_ran hexec
      obtain ⟨job, j', hjob, hactive, -, hj', hend, -⟩ := completeTx_ran hcomplete
      have hnew : id.jobID ∉ w.callbacks := by
        intro hmem
        obtain ⟨j, hj, hterminal⟩ := hw.terminal _ hmem
        rw [hjob] at hj
        cases hj
        rw [State.not_terminal_of_active hactive] at hterminal
        cases hterminal
      refine ⟨fun k hk => ?_, ?_⟩
      · rcases mem_append.mp hk with hold | hlast
        · exact hkept k hold
        · rw [Option.toList_some, mem_singleton] at hlast
          subst hlast
          exact ⟨j', hj', hend (hno id input c hcall job hjob)⟩
      · exact nodup_append.mpr ⟨hw.once, nodup_singleton _, by
          intro a ha b hb heq
          rw [Option.toList_some, mem_singleton] at hb
          exact hnew (hb ▸ heq ▸ ha)⟩

/-- **Callbacks of runs without retried callbacks.** In every such run, each committed callback is
one of a job that is finished from then on, and no job commits two; and without the condition, one
completion suffices to leave the job queued behind its committed callback. -/
theorem callbacks_final (wire : Wire) {w : World β}
    (h : ((queue wire).restrict NoRetriedCallback).Reach w) :
    (∀ k ∈ w.callbacks, ∃ j, w.store.jobs.find? k = some j ∧ j.state.terminal = true) ∧
      w.callbacks.Nodup ∧
      ∀ env s' id input callback receipt job, w.store.jobs.find? id.jobID = some job →
        job.kind.network = false →
        completeTx wire env w.store id input callback = .ok (s', receipt, true) →
        ((∃ j', s'.jobs.find? id.jobID = some j' ∧ j'.state.terminal = true) ↔
          ¬ Retryable job input) := by
  have hfinal : CallbacksFinal w := by
    refine h.invariant (P := CallbacksFinal) ?_ ?_
    · rintro w ⟨business, -, hnone⟩
      refine ⟨fun k hk => ?_, ?_⟩
      · rw [hnone] at hk
        cases hk
      · rw [hnone]
        exact nodup_nil
    · intro w l w' hreach hw hstep
      exact hw.step hreach.of_restrict hstep.1 hstep.2
  exact ⟨hfinal.terminal, hfinal.once, fun env s' id input callback receipt job hjob hoff hc =>
    completeTx_terminal_iff hjob hoff hc⟩

/-- The claimed refresh succeeds, with a callback that counts. -/
def commitRefreshed : Label ℕ where
  env := instantEnv 3 "00000000-0000-4000-8000-000000000013"
  call := .complete (refreshLease 1) ⟨.succeeded, some .pass, .none, none, none, none⟩
    (some ⟨fun n => some (n + 1), fun _ => []⟩)

def claimedRefresh (business : β) : World β :=
  ((emptyWorld business).next plainWire enqueueRefresh).next plainWire
    (claimRefresh 2 "00000000-0000-4000-8000-000000000012")

theorem reach_committed :
    ((queue plainWire).restrict NoRetriedCallback).Reach
      ((claimedRefresh 0).next plainWire commitRefreshed) := by
  have henqueue : NoRetriedCallback (emptyWorld 0) enqueueRefresh := by
    intro id input c h
    cases h
  have hclaim : NoRetriedCallback ((emptyWorld 0).next plainWire enqueueRefresh)
      (claimRefresh 2 "00000000-0000-4000-8000-000000000012") := by
    intro id input c h
    cases h
  have hcommit : NoRetriedCallback (claimedRefresh 0) commitRefreshed := by
    intro id input c h job _ hretry
    cases h
    cases hretry.2.2.2.1
  refine .step (l := commitRefreshed) (.step (l := claimRefresh 2 _) (.step (l := enqueueRefresh)
    (.init ⟨0, rfl, rfl⟩) ⟨henqueue, ?_, ?_, rfl⟩) ⟨hclaim, ?_, ?_, rfl⟩) ⟨hcommit, ?_, ?_, rfl⟩
  all_goals decide

/-- A refresh that succeeds commits its callback, once and for a finished job. -/
theorem callbacks_final_committed :
    ((claimedRefresh 0).next plainWire commitRefreshed).callbacks = [refreshJob] ∧
      ((claimedRefresh 0).next plainWire commitRefreshed).store.business = 1 ∧
      ∀ k ∈ ((claimedRefresh 0).next plainWire commitRefreshed).callbacks,
        ∃ j, ((claimedRefresh 0).next plainWire commitRefreshed).store.jobs.find? k = some j ∧
          j.state.terminal = true :=
  ⟨by decide, by decide, (callbacks_final plainWire reach_committed).1⟩

end ProxyLoom.Jobs
