import ProxyLoom.Jobs.Machine

/-!
# Lease fencing

`Job.Change` lists what an action may do to one row, and actions do nothing else: rows never vanish,
and new rows are fresh ones. A call whose identity is not the current unexpired lease leaves the
tables as they are.
-/

namespace ProxyLoom.Jobs

open IR Relation

variable {β : Type} {wire : Wire} {env : Env} {s s' : Store β} {job row j : Job} {input : Result}
  {id : LeaseIdentity} {state : State} {hash : String} {w : World β} {r : ResultRow}

/-! ## Changes of a row -/

def Ends (j : Job) (state : State) : Prop :=
  state.active = false ∧ (j.cancelRequested = true → state = .canceled)

/-- What an action does to one row. -/
inductive Job.Change : Job → Job → Prop where
  | bump (j : Job) : Change j j.bump
  | payload (j : Job) (payload : List UInt8) : Change j (j.withPayload payload)
  | requestCancel {j : Job} (now : Time) : (j.state.terminal = true → j.state = .canceled) →
    Change j (j.requestCancel now)
  | lease {j : Job} (worker : ID) (now : Time) : j.state = .queued → j.cancelRequested = false →
    j.attempt < 2 → Change j (j.lease worker now)
  | beat {j : Job} (revoked : Bool) (now : Time) : j.state.active = true →
    Change j (j.beat revoked now)
  | run {j : Job} : j.state.active = true → Change j j.run
  | finish {j : Job} (now : Time) {state : State} (verdict : Option Verdict)
      (error : Option RunnerProtocol.SafeError) : j.state.active = true → Ends j state →
    Change j (j.finish now state verdict error)
  | expire {j : Job} (now : Time) {state : State} (failure : RunnerProtocol.SafeError) :
    j.state.active = true → Ends j state → Change j (j.expire now state failure)

abbrev Job.Changes : Job → Job → Prop := ReflTransGen Job.Change

/-- No row vanishes, rows only change, and new rows start as `newJob`. -/
structure Evolves (P : EnqueueInput → Prop) (s s' : Store β) : Prop where
  kept : ∀ k j, s.jobs.find? k = some j → ∃ j', s'.jobs.find? k = some j' ∧ j.Changes j'
  fresh : ∀ k j', s.jobs.find? k = none → s'.jobs.find? k = some j' →
    ∃ env n input, P input ∧ (newJob env n input).Changes j'

variable {P : EnqueueInput → Prop} {j' : Job}

theorem Evolves.of_jobs (h : s'.jobs = s.jobs) : Evolves P s s' where
  kept k j hj := ⟨j, by rw [h, hj], .refl⟩
  fresh k j' hnone hj' := by
    rw [h, hnone] at hj'
    cases hj'

theorem Evolves.refl (s : Store β) : Evolves P s s := .of_jobs rfl

theorem Evolves.trans {t : Store β} (h₁ : Evolves P s t) (h₂ : Evolves P t s') :
    Evolves P s s' where
  kept k j hj := by
    obtain ⟨j₁, hj₁, hc₁⟩ := h₁.kept k j hj
    obtain ⟨j₂, hj₂, hc₂⟩ := h₂.kept k j₁ hj₁
    exact ⟨j₂, hj₂, hc₁.trans hc₂⟩
  fresh k j' hnone hj' := by
    cases ht : t.jobs.find? k with
    | none => exact h₂.fresh k j' ht hj'
    | some j₁ =>
      obtain ⟨env, n, input, hinput, hnew⟩ := h₁.fresh k j₁ hnone ht
      obtain ⟨j₂, hj₂, hc⟩ := h₂.kept k j₁ ht
      rw [hj'] at hj₂
      cases hj₂
      exact ⟨env, n, input, hinput, hnew.trans hc⟩

theorem Evolves.modify {k : ID} {f : Job → Job} (hf : ∀ j, (f j).id = j.id)
    (hjobs : s'.jobs = s.jobs.modify k f hf)
    (hchange : ∀ j, s.jobs.find? k = some j → j.Change (f j)) : Evolves P s s' where
  kept k' j hj := by
    rw [hjobs]
    by_cases hk : k' = k
    · subst hk
      rw [Table.find?_modify_self, hj]
      exact ⟨f j, rfl, .single (hchange j hj)⟩
    · rw [Table.find?_modify_ne _ _ _ hk, hj]
      exact ⟨j, rfl, .refl⟩
  fresh k' j' hnone hj' := by
    rw [hjobs] at hj'
    by_cases hk : k' = k
    · subst hk
      rw [Table.find?_modify_self, hnone] at hj'
      cases hj'
    · rw [Table.find?_modify_ne _ _ _ hk, hnone] at hj'
      cases hj'

theorem LedgerOnly.evolves (h : LedgerOnly s s') : Evolves P s s' := .of_jobs h.jobs

theorem appendJobEvent_evolves {input : EventInput} {receipt : EventReceipt}
    (h : appendJobEvent wire s job input = .ok (s', receipt)) : Evolves P s s' := by
  obtain ⟨events, rfl⟩ := appendJobEvent_ok h
  exact .modify Job.bump_id rfl fun j _ => .bump j

theorem markCancel_evolves (hrow : s.jobs.find? job.id = some row)
    (hcancel : row.state.terminal = true → row.state = .canceled) :
    Evolves P s (markCancel env s job) := by
  refine .modify (Job.requestCancel_id env.finish) rfl fun j hj => ?_
  rw [hrow] at hj
  cases hj
  exact .requestCancel _ hcancel

theorem reserveFirst_evolves (h : reserveFirst wire env s job = .ok s') :
    Evolves P s s' := by
  obtain ⟨-, rfl⟩ | ⟨frozen, s₁, made, -, -, hr, rfl⟩ := reserveFirst_ok h
  · exact .refl _
  · exact (reserveAttempt_ok hr).evolves.trans
      (.modify (Job.withPayload_id _) rfl fun j _ => .payload j _)

theorem enqueueTx_evolves {n : ℕ} {input : EnqueueInput} (hinput : P input)
    (h : enqueueTx wire env n s input = .ok s') : Evolves P s s' := by
  obtain ⟨jobs, s₁, receipt, hins, hfirst, hevent⟩ := enqueueTx_ok h
  have hinsert : Evolves P s { s with jobs := jobs } := by
    refine ⟨fun k j hj => ?_, fun k j' hnone hj' => ?_⟩
    · have hk : k ≠ (newJob env n input).id := by
        rintro rfl
        rw [(Table.insert?_eq_some_iff.mp hins).1] at hj
        cases hj
      refine ⟨j, ?_, .refl⟩
      dsimp only
      rw [Table.find?_insert? hins, if_neg hk, hj]
    · dsimp only at hj'
      rw [Table.find?_insert? hins, hnone] at hj'
      split_ifs at hj'
      cases hj'
      exact ⟨env, n, input, hinput, .refl⟩
  exact (hinsert.trans (reserveFirst_evolves hfirst)).trans (appendJobEvent_evolves hevent)

theorem cancelChild_evolves (hrow : s.jobs.find? job.id = some row) (hcur : Current row job)
    (h : cancelChild wire env s job = .ok s') : Evolves P s s' := by
  obtain ⟨-, rfl⟩ | ⟨s₁, input, receipt, hdone, hledger, hevent⟩ := cancelChild_ledger h
  · exact .refl _
  · have hcancel : row.state.terminal = true → row.state = .canceled := by
      intro hterminal
      rcases hcur with rfl | hcanceled
      · rw [hterminal] at hdone
        cases hdone
      · exact hcanceled
    exact ((markCancel_evolves hrow hcancel).trans hledger.evolves).trans
      (appendJobEvent_evolves hevent)

theorem leaseJob_evolves {worker : ID} {lease : Lease}
    (h : leaseJob wire env s worker job = .ok (s', lease)) : Evolves P s s' := by
  obtain ⟨row, events, hrow, hqueued, hopen, hattempt, rfl⟩ := leaseJob_ok h
  have hleased : Evolves P s { s with
      jobs := s.jobs.modify job.id (Job.lease worker env.finish) (Job.lease_id _ _) } := by
    refine .modify (Job.lease_id _ _) rfl fun j hj => ?_
    rw [hrow] at hj
    cases hj
    exact .lease _ _ hqueued hopen hattempt
  exact hleased.trans (.modify Job.bump_id rfl fun j _ => .bump j)

theorem active_of_leaseValid {now : Time} (h : j.leaseValid now = true) :
    j.state.active = true := by
  unfold Job.leaseValid at h
  rw [Bool.and_eq_true] at h
  exact h.1

theorem heartbeat_evolves {answer : Heartbeat} (h : heartbeat env s id = .ok (s', answer)) :
    Evolves P s s' := by
  obtain ⟨job, hjob, -, hvalid, rfl⟩ := heartbeat_ok h
  refine .modify (Job.beat_id _ _) rfl fun j hj => ?_
  rw [hjob] at hj
  cases hj
  exact .beat _ _ (active_of_leaseValid hvalid)

theorem event_evolves {input : EventInput} {receipt : EventReceipt}
    (h : event wire env s id input = .ok (s', receipt)) : Evolves P s s' := by
  obtain ⟨job, clean, hlock, hvalid, rfl | ⟨hevent, -⟩⟩ := event_ok h
  · exact .refl _
  · refine Evolves.trans ?_ (appendJobEvent_evolves hevent)
    unfold runRow
    split_ifs
    · exact .refl s
    · refine .modify Job.run_id rfl fun j hj => ?_
      rw [(lockLease_ok.mp hlock).2.1] at hj
      cases hj
      exact .run (active_of_leaseValid hvalid)

theorem reapOutcome_ends {failure : RunnerProtocol.SafeError}
    (h : reapOutcome env s job = .ok (s', state, failure)) : Ends job state := by
  have hstate : Ends job (reapState job).1 := by
    unfold Ends reapState
    split_ifs with hcancel <;> simp [State.active, hcancel]
  obtain ⟨-, -, heq⟩ | ⟨hqueued, made, -, ⟨-, heq⟩ | ⟨-, heq⟩⟩ := reapOutcome_cases h
  · rwa [← heq] at hstate
  · rwa [← heq] at hstate
  · cases heq
    refine ⟨rfl, fun hcancel => ?_⟩
    rw [hstate.2 hcancel] at hqueued
    cases hqueued

theorem reapOne_evolves (hjob : s.jobs.find? job.id = some job) (hactive : job.state.active = true)
    (h : reapOne wire env s job = .ok s') : Evolves P s s' := by
  obtain ⟨s₁, settled, s₂, state, failure, input, receipt, hsettle, hout, hevent⟩ := reapOne_ok h
  have hledger : Evolves P s s₂ :=
    (settleAttempt_ok hsettle).evolves.trans (reapOutcome_ok hout).evolves
  refine (hledger.trans (.modify (Job.expire_id _ _ _) rfl fun j hj => ?_)).trans
    (appendJobEvent_evolves hevent)
  rw [(reapOutcome_ok hout).jobs, (settleAttempt_ok hsettle).jobs, hjob] at hj
  cases hj
  exact .expire _ _ hactive (reapOutcome_ends hout)

theorem State.not_active_of_terminal (h : state.terminal = true) :
    state.active = false := by
  cases state <;> first | rfl | cases h

theorem completeOutcome_ends {out : Option Verdict × Option RunnerProtocol.SafeError}
    (hacc : Accepted job input hash) (h : completeOutcome env s job input = .ok (s', state, out)) :
    Ends job state := by
  have hretried : infrastructureRetry job input = true → ∀ {p : Prop},
      job.cancelRequested = true → p := by
    intro hretry p hcancel
    unfold infrastructureRetry at hretry
    simp [hcancel] at hretry
  obtain ⟨-, -, heq⟩ | ⟨hretry, -, -, heq⟩ | ⟨hretry, -, made, -, ⟨-, heq⟩ | ⟨-, heq⟩⟩ :=
    completeOutcome_cases h <;> cases heq
  · exact ⟨State.not_active_of_terminal hacc.terminal, hacc.canceled⟩
  all_goals exact ⟨rfl, hretried hretry⟩

theorem recordAttempt_evolves {receipt : ResultReceipt} (hlock : lockLease s id = .ok job)
    (hacc : Accepted job input hash)
    (h : recordAttempt wire env s id job input hash = .ok (s', receipt)) : Evolves P s s' := by
  obtain ⟨s₁, settled, s₂, s₃, state, verdict, error, report, ereceipt, hvalid, hsettle, hinsert,
    hout, hevent⟩ := recordAttempt_ok hlock h
  obtain ⟨results, rfl, -⟩ := insertResult_ok hinsert
  have hjobs : s₃.jobs = s.jobs := by
    rw [(completeOutcome_ok hout).jobs]
    exact (settleAttempt_ok hsettle).jobs
  refine ((Evolves.of_jobs hjobs).trans (.modify (Job.finish_id _ _ _ _) rfl fun j hj => ?_)).trans
    (appendJobEvent_evolves hevent)
  rw [hjobs, (lockLease_ok.mp hlock).2.1] at hj
  cases hj
  exact .finish _ _ _ (active_of_leaseValid hvalid) (completeOutcome_ends hacc hout)

theorem queueAction_evolves (h : QueueAction wire env P s s') : Evolves P s s' := by
  cases h with
  | batches => exact .of_jobs rfl
  | enqueue hinput h => exact enqueueTx_evolves hinput h
  | cancel hrow hcur h => exact cancelChild_evolves hrow hcur h
  | mark hrow hcur hqueued =>
    refine markCancel_evolves hrow fun hterminal => ?_
    rcases hcur with rfl | hcanceled
    · rw [hqueued] at hterminal
      cases hterminal
    · exact hcanceled
  | lease h => exact leaseJob_evolves h
  | beat h => exact heartbeat_evolves h
  | event h => exact event_evolves h
  | reap hjob hactive _ h => exact reapOne_evolves hjob hactive h
  | finish hlock hacc h => exact recordAttempt_evolves hlock hacc h

/-- **Actions only change rows so.** -/
theorem action_evolves (h : Action wire env P s s') : Evolves P s s' := by
  cases h with
  | queue h => exact queueAction_evolves h
  | business => exact .of_jobs rfl

theorem actions_evolves (h : Actions wire env P s s') : Evolves P s s' := by
  induction h with
  | refl => exact .refl _
  | tail _ hact ih => exact ih.trans (action_evolves hact)

/-! ## What holds of every row, and between a row and its later self -/

/-- What holds of every row. -/
structure RowOk (j : Job) : Prop where
  attempt_eq : j.attempt = j.leaseSeq
  attempt_le : j.attempt ≤ 2
  canceled : j.cancelRequested = true → j.state ≠ .queued ∧ j.state ≠ .succeeded

/-- A row and itself later in a run. -/
structure Later (j j' : Job) : Prop where
  id : j'.id = j.id
  kind : j'.kind = j.kind
  attempt : j.attempt ≤ j'.attempt
  worker : j'.attempt = j.attempt → j.attempt ≠ 0 → j'.workerID = j.workerID
  absorbing : j.state.terminal = true → j'.state = j.state
  canceled : j.cancelRequested = true → j'.cancelRequested = true

theorem Later.refl (j : Job) : Later j j :=
  ⟨rfl, rfl, le_refl _, fun _ _ => rfl, fun _ => rfl, fun h => h⟩

theorem Later.trans {i k : Job} (h₁ : Later i j) (h₂ : Later j k) : Later i k where
  id := h₂.id.trans h₁.id
  kind := h₂.kind.trans h₁.kind
  attempt := h₁.attempt.trans h₂.attempt
  worker heq hne := by
    have hij : j.attempt = i.attempt := le_antisymm (heq ▸ h₂.attempt) h₁.attempt
    rw [h₂.worker (heq.trans hij.symm) (by rw [hij]; exact hne), h₁.worker hij hne]
  absorbing hterminal := by
    have hj := h₁.absorbing hterminal
    rw [h₂.absorbing (by rw [hj]; exact hterminal), hj]
  canceled h := h₂.canceled (h₁.canceled h)

/-- A job that ends an attempt is queued again only without a cancellation, and succeeds only
without one. -/
theorem Ends.not_canceled (h : Ends j state) (hcancel : j.cancelRequested = true) :
    state ≠ .queued ∧ state ≠ .succeeded := by
  rw [h.2 hcancel]
  exact ⟨by decide, by decide⟩

theorem State.active_ne (h : state.active = true) :
    state ≠ .queued ∧ state ≠ .succeeded := by
  cases state <;> first | exact ⟨by decide, by decide⟩ | cases h

theorem RowOk.change (hj : RowOk j) (h : j.Change j') : RowOk j' := by
  cases h with
  | bump => exact ⟨hj.attempt_eq, hj.attempt_le, hj.canceled⟩
  | payload => exact ⟨hj.attempt_eq, hj.attempt_le, hj.canceled⟩
  | requestCancel now hcancel =>
    refine ⟨hj.attempt_eq, hj.attempt_le, fun _ => ?_⟩
    unfold Job.requestCancel
    cases hstate : j.state with
    | succeeded =>
      rw [hstate] at hcancel
      cases hcancel rfl
    | _ => exact ⟨by simp, by simp⟩
  | lease worker now hqueued hopen hattempt =>
    refine ⟨congrArg (· + 1) hj.attempt_eq, ?_, fun _ => State.active_ne rfl⟩
    unfold Job.lease
    dsimp only
    omega
  | beat revoked now hactive =>
    exact ⟨hj.attempt_eq, hj.attempt_le, fun _ => State.active_ne hactive⟩
  | run => exact ⟨hj.attempt_eq, hj.attempt_le, fun _ => State.active_ne rfl⟩
  | finish now verdict error _ hends =>
    exact ⟨hj.attempt_eq, hj.attempt_le, fun hcancel => hends.not_canceled hcancel⟩
  | expire now failure _ hends =>
    unfold Job.expire
    split
    · exact ⟨hj.attempt_eq, hj.attempt_le, fun hcancel => hends.not_canceled hcancel⟩
    · exact hj

theorem Later.of_change (h : j.Change j') : Later j j' := by
  have hactive : ∀ {p : Prop}, j.state.active = true → j.state.terminal = true → p := by
    intro p hact hterm
    rw [State.not_terminal_of_active hact] at hterm
    cases hterm
  cases h with
  | bump => exact ⟨rfl, rfl, le_refl _, fun _ _ => rfl, fun _ => rfl, fun h => h⟩
  | payload => exact ⟨rfl, rfl, le_refl _, fun _ _ => rfl, fun _ => rfl, fun h => h⟩
  | requestCancel now hcancel =>
    refine ⟨rfl, rfl, le_refl _, fun _ _ => rfl, fun hterminal => ?_, fun _ => rfl⟩
    unfold Job.requestCancel
    simp [hcancel hterminal]
  | lease worker now hqueued hopen =>
    refine ⟨rfl, rfl, Nat.le_succ _, fun heq => ?_, fun hterminal => ?_, fun h => h⟩
    · exact absurd heq (Nat.succ_ne_self _)
    · rw [hqueued] at hterminal
      cases hterminal
  | beat revoked now hact =>
    refine ⟨rfl, rfl, le_refl _, fun _ _ => rfl, fun _ => rfl, fun hcancel => ?_⟩
    obtain ⟨at', hat⟩ := Option.isSome_iff_exists.mp hcancel
    unfold Job.cancelRequested Job.beat
    dsimp only
    rw [hat]
    split_ifs <;> rfl
  | run hact => exact ⟨rfl, rfl, le_refl _, fun _ _ => rfl, hactive hact, fun h => h⟩
  | finish now verdict error hact =>
    exact ⟨rfl, rfl, le_refl _, fun _ _ => rfl, hactive hact, fun h => h⟩
  | expire now failure hact =>
    unfold Job.expire
    split
    · exact ⟨rfl, rfl, le_refl _, fun _ _ => rfl, hactive hact, fun h => h⟩
    · exact .refl j

theorem RowOk.changes (hj : RowOk j) (h : j.Changes j') : RowOk j' := by
  induction h with
  | refl => exact hj
  | tail _ hchange ih => exact ih.change hchange

theorem Later.of_changes (h : j.Changes j') : Later j j' := by
  induction h with
  | refl => exact .refl j
  | tail _ hchange ih => exact ih.trans (.of_change hchange)

theorem rowOk_newJob (env : Env) (n : ℕ) (input : EnqueueInput) : RowOk (newJob env n input) :=
  ⟨rfl, Nat.zero_le _, fun h => by cases h⟩

def RowsOk (s : Store β) : Prop := ∀ k j, s.jobs.find? k = some j → RowOk j

theorem RowsOk.evolves (hs : RowsOk s) (hev : Evolves P s s') : RowsOk s' := by
  intro k j' hj'
  cases hj : s.jobs.find? k with
  | none =>
    obtain ⟨env', n, input, -, hnew⟩ := hev.fresh k j' hj hj'
    exact (rowOk_newJob env' n input).changes hnew
  | some j =>
    obtain ⟨j₁, hj₁, hc⟩ := hev.kept k j hj
    rw [hj'] at hj₁
    cases hj₁
    exact (hs k j hj).changes hc

theorem Reach.rowsOk (h : (queue wire).Reach w) : RowsOk w.store := by
  refine Reach.store_invariant (P := RowsOk) ?_ ?_ h
  · intro business k j hj
    cases hj
  · intro env s s' hs hact
    exact hs.evolves (action_evolves hact)

theorem Run.later {w' : World β} (hw : (queue wire).Reach w) (h : (queue wire).Run w w') {k : ID}
    (hj : w.store.jobs.find? k = some j) :
    ∃ j', w'.store.jobs.find? k = some j' ∧ Later j j' := by
  have hev := Run.store_relation (R := Evolves _) Evolves.refl (fun _ _ _ => Evolves.trans)
    (fun _ _ _ => action_evolves) hw h
  obtain ⟨j', hj', hc⟩ := hev.kept k j hj
  exact ⟨j', hj', .of_changes hc⟩

/-! ## Calls without the lease -/

/-- The identity is the job's current lease, and the lease has not expired. -/
def Holds (s : Store β) (id : LeaseIdentity) (now : Time) : Prop :=
  ∃ job, s.jobs.find? id.jobID = some job ∧ id.names job = true ∧ job.leaseValid now = true

/-- The lease that a call presents. -/
def Call.identity : Call β → Option LeaseIdentity
  | .heartbeat id => some id
  | .event id _ => some id
  | .complete id _ _ => some id
  | _ => none

theorem exec_of_not_holds {call : Call β} (hid : call.identity = some id)
    (hnot : ¬ Holds s id env.start) {ran : Option ID} (h : exec wire env s call = .ok (s', ran)) :
    s' = s ∧ ran = none := by
  cases call <;> cases hid <;> obtain ⟨out, hout, heq⟩ := Except.of_map h <;> cases heq
  case heartbeat =>
    obtain ⟨job, hjob, hnames, hvalid, -⟩ := heartbeat_ok hout
    exact absurd ⟨job, hjob, hnames, hvalid⟩ hnot
  case event =>
    obtain ⟨job, clean, hlock, hvalid, -⟩ := event_ok hout
    obtain ⟨-, hjob, hnames⟩ := lockLease_ok.mp hlock
    exact absurd ⟨job, hjob, hnames, hvalid⟩ hnot
  case complete =>
    obtain ⟨s₁, receipt, ran⟩ := out
    rcases completeTx_ok hout with ⟨rfl, rfl⟩ | ⟨job, result, hash, s₂, -, hlock, -, hvalid, -⟩
    · exact ⟨rfl, rfl⟩
    · obtain ⟨-, hjob, hnames⟩ := lockLease_ok.mp hlock
      exact absurd ⟨job, hjob, hnames, (validLease_iff hlock).mp hvalid⟩ hnot

/-! ## Recorded results -/

def newResult (env : Env) (id : LeaseIdentity) (hash : String) (input : Result) (settled : ℤ) :
    ResultRow :=
  ⟨env.newID (.result id.jobID), id.jobID, id.workerID, id.attempt, id.leaseSeq, hash, input,
    settled⟩

/-- The results are as before, or a result was added for the lease of a job. -/
def Records (env : Env) (s s' : Store β) : Prop :=
  s'.results = s.results ∨ ∃ id job input hash settled, lockLease s id = .ok job ∧
    Accepted job input hash ∧
    s.results.insert? (newResult env id hash input settled) = some s'.results

theorem queueAction_frame (h : QueueAction wire env P s s') :
    s'.business = s.business ∧ Records env s s' ∧ BatchesGrow s.batches s'.batches := by
  have haside : Aside s s' →
      s'.business = s.business ∧ Records env s s' ∧ BatchesGrow s.batches s'.batches :=
    fun h => ⟨h.business, Or.inl h.results, h.batches ▸ .refl _⟩
  cases h with
  | batches h => exact ⟨rfl, Or.inl rfl, h⟩
  | enqueue _ h =>
    obtain ⟨jobs, s₁, receipt, -, hfirst, hevent⟩ := enqueueTx_ok h
    have hinsert : Aside s { s with jobs := jobs } := ⟨rfl, rfl, rfl⟩
    exact haside ((hinsert.trans (reserveFirst_aside hfirst)).trans (appendJobEvent_aside hevent))
  | cancel _ _ h => exact haside (cancelChild_aside h)
  | mark => exact haside ⟨rfl, rfl, rfl⟩
  | lease h =>
    obtain ⟨row, events, -, -, -, -, rfl⟩ := leaseJob_ok h
    exact haside ⟨rfl, rfl, rfl⟩
  | beat h =>
    obtain ⟨job, -, -, -, rfl⟩ := heartbeat_ok h
    exact haside ⟨rfl, rfl, rfl⟩
  | event h =>
    obtain ⟨job, clean, -, -, rfl | ⟨hevent, -⟩⟩ := event_ok h
    · exact haside (.refl _)
    · refine haside (Aside.trans ?_ (appendJobEvent_aside hevent))
      unfold runRow
      split_ifs
      · exact .refl _
      · exact ⟨rfl, rfl, rfl⟩
  | @reap _ job _ _ _ h =>
    obtain ⟨s₁, settled, s₂, state, failure, input, receipt, hsettle, hout, hevent⟩ := reapOne_ok h
    have hledger := (settleAttempt_ok hsettle).aside.trans (reapOutcome_ok hout).aside
    have hexpire : Aside s₂ { s₂ with
        jobs := s₂.jobs.modify job.id (Job.expire env.finish state failure)
          (Job.expire_id _ _ _) } := ⟨rfl, rfl, rfl⟩
    exact haside ((hledger.trans hexpire).trans (appendJobEvent_aside hevent))
  | finish hlock hacc h =>
    obtain ⟨s₁, settled, s₂, s₃, state, verdict, error, report, ereceipt, -, hsettle, hinsert,
      hout, hevent⟩ := recordAttempt_ok hlock h
    obtain ⟨results, rfl, hins⟩ := insertResult_ok hinsert
    have hsettled := (settleAttempt_ok hsettle).aside
    have houtcome := (completeOutcome_ok hout).aside
    have hrow := appendJobEvent_aside hevent
    have hbatches := hrow.batches.trans (houtcome.batches.trans hsettled.batches)
    refine ⟨hrow.business.trans (houtcome.business.trans hsettled.business),
      Or.inr ⟨_, _, _, _, settled, hlock, hacc, ?_⟩, hbatches ▸ .refl _⟩
    rw [hrow.results, ← hsettled.results]
    dsimp only
    rw [houtcome.results]
    exact hins

theorem queueActions_business (h : QueueActions wire env P s s') : s'.business = s.business := by
  induction h with
  | refl => rfl
  | tail _ hact ih => exact (queueAction_frame hact).1.trans ih

theorem action_results (h : Action wire env P s s') : Records env s s' := by
  cases h with
  | queue h => exact (queueAction_frame h).2.1
  | business => exact Or.inl rfl

def ResultRow.identity (r : ResultRow) : LeaseIdentity :=
  ⟨r.jobID, r.workerID, r.attempt, r.leaseSeq⟩

/-- Where a recorded result came from: a lease of its job, the current one unless a later one was
issued since. -/
structure Recorded (r : ResultRow) (row : Job) : Prop where
  valid : r.identity.valid = true
  leaseSeq : r.leaseSeq = r.attempt
  attempt : r.attempt ≤ row.attempt
  worker : row.attempt = r.attempt → row.workerID = some r.workerID
  hashed : r.result.hash = some r.resultHash
  fits : resultFits row r.result = true

theorem attempt_pos_of_valid (h : id.valid = true) : id.attempt ≠ 0 := by
  unfold LeaseIdentity.valid at h
  simp only [Bool.and_eq_true, decide_eq_true_eq] at h
  omega

theorem Recorded.later {row' : Job} (h : Recorded r row) (hlater : Later row row') :
    Recorded r row' where
  valid := h.valid
  leaseSeq := h.leaseSeq
  attempt := h.attempt.trans hlater.attempt
  worker heq := by
    have hrow : row.attempt = r.attempt := le_antisymm (heq ▸ hlater.attempt) h.attempt
    have hne : row.attempt ≠ 0 := hrow ▸ attempt_pos_of_valid h.valid
    rw [hlater.worker (heq.trans hrow.symm) hne, h.worker hrow]
  hashed := h.hashed
  fits := by
    have hfits := h.fits
    unfold resultFits at hfits ⊢
    rw [hlater.kind]
    exact hfits

theorem recorded_newResult {settled : ℤ} (hjob : RowOk job) (hlock : lockLease s id = .ok job)
    (hacc : Accepted job input hash) : Recorded (newResult env id hash input settled) job := by
  obtain ⟨hvalid, -, hnames⟩ := lockLease_ok.mp hlock
  unfold LeaseIdentity.names at hnames
  simp only [Bool.and_eq_true, decide_eq_true_eq] at hnames
  obtain ⟨⟨⟨-, hworker⟩, hattempt⟩, hseq⟩ := hnames
  exact ⟨hvalid, by rw [newResult, ← hseq, ← hattempt, hjob.attempt_eq], le_of_eq hattempt.symm,
    fun _ => hworker, hacc.hashed, hacc.fits⟩

def ResultsOk (s : Store β) : Prop :=
  ∀ r ∈ s.results.rows, ∃ row, s.jobs.find? r.jobID = some row ∧ Recorded r row

theorem ResultsOk.action (hrows : RowsOk s) (hs : ResultsOk s) (h : Action wire env P s s') :
    ResultsOk s' := by
  have hev := action_evolves h
  have hkeep : ∀ r row, s.jobs.find? r.jobID = some row → Recorded r row →
      ∃ row', s'.jobs.find? r.jobID = some row' ∧ Recorded r row' := by
    intro r row hrow hrec
    obtain ⟨row', hrow', hc⟩ := hev.kept _ row hrow
    exact ⟨row', hrow', hrec.later (.of_changes hc)⟩
  intro r hr
  rcases action_results h with hsame | ⟨id, job, input, hash, settled, hlock, hacc, hins⟩
  · rw [hsame] at hr
    obtain ⟨row, hrow, hrec⟩ := hs r hr
    exact hkeep r row hrow hrec
  · rcases (Table.mem_insert? hins r).mp hr with hr | rfl
    · obtain ⟨row, hrow, hrec⟩ := hs r hr
      exact hkeep r row hrow hrec
    · have hjob := (lockLease_ok.mp hlock).2.1
      exact hkeep _ job hjob (recorded_newResult (hrows _ _ hjob) hlock hacc)

theorem Reach.resultsOk (h : (queue wire).Reach w) : ResultsOk w.store := by
  refine (Reach.store_invariant (P := fun s => RowsOk s ∧ ResultsOk s) ?_ ?_ h).2
  · intro business
    refine ⟨fun k j hj => ?_, fun r hr => ?_⟩
    · cases hj
    · cases hr
  · rintro env s s' ⟨hrows, hres⟩ hact
    exact ⟨hrows.evolves (action_evolves hact), hres.action hrows hact⟩

theorem Run.results_kept {w' : World β} (hw : (queue wire).Reach w) (h : (queue wire).Run w w')
    {k : ID × ℕ × ℕ} (hr : w.store.results.find? k = some r) :
    w'.store.results.find? k = some r := by
  refine Run.store_relation (R := fun s s' => ∀ k r, s.results.find? k = some r →
    s'.results.find? k = some r) (fun _ _ _ h => h) (fun _ _ _ h₁ h₂ k r h => h₂ k r (h₁ k r h))
    ?_ hw h k r hr
  intro env s s' hact k r hr
  rcases action_results hact with hsame | ⟨id, job, input, hash, settled, -, -, hins⟩
  · rw [hsame, hr]
  · have hk : k ≠ (newResult env id hash input settled).key := by
      rintro rfl
      rw [(Table.insert?_eq_some_iff.mp hins).1] at hr
      cases hr
    rw [Table.find?_insert? hins, if_neg hk, hr]

/-- While no later lease was issued, the lease of a recorded result still names its job. -/
theorem Recorded.lockLease (h : Recorded r row) (hrow : RowOk row)
    (hfind : s.jobs.find? r.jobID = some row) (hlast : row.leaseSeq = r.leaseSeq) :
    lockLease s r.identity = .ok row := by
  have hattempt : row.attempt = r.attempt := by rw [hrow.attempt_eq, hlast, h.leaseSeq]
  refine lockLease_ok.mpr ⟨h.valid, hfind, ?_⟩
  unfold LeaseIdentity.names
  simp only [Bool.and_eq_true, decide_eq_true_eq]
  exact ⟨⟨⟨Table.key_of_find? hfind, h.worker hattempt⟩, hattempt⟩, hlast⟩

theorem recordedResult_identity (hr : r ∈ s.results.rows) :
    recordedResult s r.identity = some r := by
  unfold recordedResult
  have hfind : s.results.find? (r.identity.jobID, r.identity.attempt, r.identity.leaseSeq) =
      some r := Table.find?_of_mem hr
  rw [hfind]
  simp [ResultRow.identity]

/-- **Repeating a completion.** With a result recorded and no later lease, a completion under the
same lease replays the receipt or is refused, and never reaches the callback. -/
theorem completeTx_recorded (hr : r ∈ s.results.rows) (hlock : lockLease s r.identity = .ok row)
    {result : Result} (hcanon : canonicalResult wire input = .ok (result, hash))
    (callback : Option (Callback β)) :
    completeTx wire env s r.identity input callback =
      if resultFits row result = true then
        if r.resultHash = hash then .ok (s, r.receipt, false) else .error .conflict
      else .error .invalidInput := by
  unfold completeTx
  rw [hcanon, hlock, recordedResult_identity hr]
  simp only [bind, Except.bind]
  by_cases hfits : resultFits row result = true
  · by_cases hhash : r.resultHash = hash
    · simp [hfits, hhash]
    · simp [hfits, hhash]
  · simp [hfits]

/-! ## The theorem -/

/-- **Lease fencing.** Between any two states of a run:

1. terminal states are absorbing, attempts never decrease, and a job whose cancellation was
   requested is never queued again and never succeeds;
2. the attempt of a job is its lease sequence number, and at most two;
3. a heartbeat, event or completion without the current unexpired lease changes nothing;
4. a recorded result stays, and is the only one for its job, attempt and lease;
5. while no later lease was issued, repeating the completion replays the recorded receipt without
   the callback, and a result with another hash is a conflict. -/
theorem lease_fencing (wire : Wire) {w w' : World β} (hw : (queue wire).Reach w)
    (hrun : (queue wire).Run w w') :
    (∀ k j, w.store.jobs.find? k = some j → ∃ j', w'.store.jobs.find? k = some j' ∧
      (j.state.terminal = true → j'.state = j.state) ∧ j.attempt ≤ j'.attempt ∧
      (j.cancelRequested = true → j'.state ≠ .queued ∧ j'.state ≠ .succeeded)) ∧
    (∀ j ∈ w.store.jobs.rows, j.attempt = j.leaseSeq ∧ j.attempt ≤ 2) ∧
    (∀ l v id, (queue wire).step w l v → l.call.identity = some id →
      ¬ Holds w.store id l.env.start → v.store = w.store ∧ v.callbacks = w.callbacks) ∧
    (∀ r ∈ w.store.results.rows, r ∈ w'.store.results.rows ∧
      ∀ r' ∈ w'.store.results.rows, r'.key = r.key → r' = r) ∧
    (∀ r ∈ w.store.results.rows, ∀ row, w.store.jobs.find? r.jobID = some row →
      row.leaseSeq = r.leaseSeq → ∀ env input result hash (callback : Option (Callback β)),
        canonicalResult wire input = .ok (result, hash) →
        (result = r.result →
          completeTx wire env w.store r.identity input callback =
            .ok (w.store, r.receipt, false)) ∧
        (resultFits row result = true → hash ≠ r.resultHash →
          completeTx wire env w.store r.identity input callback = .error .conflict)) := by
  refine ⟨fun k j hj => ?_, fun j hj => ?_, ?_, fun r hr => ?_, ?_⟩
  · obtain ⟨j', hj', hlater⟩ := Run.later hw hrun hj
    exact ⟨j', hj', hlater.absorbing, hlater.attempt, fun hcancel =>
      (Reach.rowsOk (hw.run hrun) k j' hj').canceled (hlater.canceled hcancel)⟩
  · have hok := Reach.rowsOk hw _ j (Table.find?_of_mem hj)
    exact ⟨hok.attempt_eq, hok.attempt_le⟩
  · rintro l v id ⟨-, -, rfl⟩ hid hnot
    cases hexec : exec wire l.env w.store l.call with
    | error e => exact ⟨rfl, rfl⟩
    | ok out =>
      obtain ⟨s₁, ran⟩ := out
      obtain ⟨rfl, rfl⟩ := exec_of_not_holds hid hnot hexec
      exact ⟨rfl, List.append_nil _⟩
  · have hkept := Run.results_kept hw hrun (Table.find?_of_mem hr)
    refine ⟨Table.mem_of_find? hkept, fun r' hr' hkey => ?_⟩
    have hfind := Table.find?_of_mem hr'
    rw [hkey, hkept] at hfind
    exact (Option.some.inj hfind).symm
  · intro r hr row hrow hlast env input result hash callback hcanon
    obtain ⟨row', hrow', hrec⟩ := Reach.resultsOk hw r hr
    rw [hrow] at hrow'
    cases hrow'
    have hlock := hrec.lockLease (Reach.rowsOk hw _ row hrow) hrow hlast
    rw [completeTx_recorded hr hlock hcanon callback]
    refine ⟨fun heq => ?_, fun hfits hne => ?_⟩
    · have hhash : r.resultHash = hash := by
        have hsome := (canonicalResult_ok hcanon).2.2
        rw [heq, hrec.hashed] at hsome
        exact Option.some.inj hsome
      rw [heq, if_pos hrec.fits, if_pos hhash]
    · rw [if_pos hfits, if_neg (Ne.symm hne)]

def finishRefresh : Label Unit where
  env := instantEnv 3 "00000000-0000-4000-8000-000000000013"
  call := .complete (refreshLease 1) ⟨.succeeded, some .pass, .none, none, none, none⟩ none

def refreshed : World Unit :=
  (((emptyWorld ()).next plainWire enqueueRefresh).next plainWire
    (claimRefresh 2 "00000000-0000-4000-8000-000000000012")).next plainWire finishRefresh

theorem reach_refreshed : (queue plainWire).Reach refreshed :=
  Reach.next (Reach.next (Reach.next (reach_emptyWorld ()) enqueueRefresh (by decide) (by decide))
    (claimRefresh 2 _) (by decide) (by decide)) finishRefresh (by decide) (by decide)

/-- The finished refresh has its one result, and finished for good. -/
theorem lease_fencing_refreshed :
    refreshed.store.results.rows.length = 1 ∧
      (refreshed.store.jobs.find? refreshJob).map (fun j => (j.state, j.attempt)) =
        some (.succeeded, 1) ∧
      ∀ j ∈ refreshed.store.jobs.rows, j.attempt = j.leaseSeq ∧ j.attempt ≤ 2 :=
  ⟨by decide, by decide,
    (lease_fencing plainWire reach_refreshed (.refl refreshed)).2.1⟩

end ProxyLoom.Jobs
