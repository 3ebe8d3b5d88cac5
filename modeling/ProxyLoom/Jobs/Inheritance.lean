import ProxyLoom.Jobs.Fencing

/-!
# Leases that are let go

Apart from a claim, nothing that a call does makes a lease live that was not live when the call
began: a heartbeat extends no lease that has expired, and new jobs are not leased.

`Inherits` says so of a whole transaction, and composes.
-/

namespace ProxyLoom.Jobs

open IR RunnerProtocol

variable {β : Type} {wire : Wire} {env : Env} {s s' : Store β} {job : Job} {id : LeaseIdentity}
  {j j' : Job}

/-! ## Rows -/

theorem leaseValid_mono {now now' : Time} (hnow : now ≤ now')
    (h : j.leaseValid now' = true) : j.leaseValid now = true := by
  unfold Job.leaseValid at h ⊢
  rw [Bool.and_eq_true] at h ⊢
  refine ⟨h.1, ?_⟩
  obtain ⟨t, ht, hlt⟩ := (Option.any_eq_true _ _).mp h.2
  rw [ht]
  exact decide_eq_true (hnow.trans_lt (of_decide_eq_true hlt))

/-- The row is the same job, and its lease is live only if it was live when the call began. -/
structure Job.Inherits (env : Env) (j j' : Job) : Prop where
  executor : j'.executor = j.executor
  kind : j'.kind = j.kind
  live : ∀ now, env.start ≤ now → j'.leaseValid now = true →
    j.leaseValid env.start = true ∧ j'.workerID = j.workerID

theorem Job.Inherits.refl (j : Job) : j.Inherits env j :=
  ⟨rfl, rfl, fun _ hnow h => ⟨leaseValid_mono hnow h, rfl⟩⟩

theorem Job.Inherits.trans {i k : Job} (h₁ : i.Inherits env j) (h₂ : j.Inherits env k) :
    i.Inherits env k where
  executor := h₂.executor.trans h₁.executor
  kind := h₂.kind.trans h₁.kind
  live now hnow h := by
    obtain ⟨hj, hworker⟩ := h₂.live now hnow h
    obtain ⟨hi, hworker'⟩ := h₁.live env.start le_rfl hj
    exact ⟨hi, hworker.trans hworker'⟩

theorem Job.Inherits.of_same (hexecutor : j'.executor = j.executor)
    (hkind : j'.kind = j.kind) (hworker : j'.workerID = j.workerID)
    (hlive : ∀ now, j'.leaseValid now = true → j.leaseValid now = true) : j.Inherits env j' :=
  ⟨hexecutor, hkind, fun now hnow h => ⟨leaseValid_mono hnow (hlive now h), hworker⟩⟩

theorem Job.Inherits.of_inactive (hexecutor : j'.executor = j.executor)
    (hkind : j'.kind = j.kind) (hstate : j'.state.active = false) : j.Inherits env j' := by
  refine ⟨hexecutor, hkind, fun now _ h => ?_⟩
  rw [active_of_leaseValid h] at hstate
  cases hstate

theorem inherits_requestCancel (now : Time) (j : Job) : j.Inherits env (j.requestCancel now) := by
  by_cases hqueued : j.state = .queued
  · refine .of_inactive rfl rfl ?_
    unfold Job.requestCancel
    rw [if_pos hqueued]
    rfl
  · refine .of_same rfl rfl rfl fun now' h => ?_
    unfold Job.requestCancel Job.leaseValid at h
    rw [if_neg hqueued] at h
    exact h

theorem inherits_expire (now : Time) {state : State} (failure : SafeError) (j : Job)
    (hstate : state.active = false) : j.Inherits env (j.expire now state failure) := by
  unfold Job.expire
  split
  · exact .of_inactive rfl rfl hstate
  · exact .refl j

/-- A job of a type that its executor runs, with no lease that is live when the call began. -/
structure Job.Idle (env : Env) (j : Job) : Prop where
  typed : validType j.executor j.kind = true
  idle : ∀ now, env.start ≤ now → j.leaseValid now = false

theorem Job.Idle.inherits (h : j.Idle env) (hj : j.Inherits env j') : j'.Idle env := by
  refine ⟨by rw [hj.executor, hj.kind]; exact h.typed, fun now hnow => ?_⟩
  by_contra hlive
  obtain ⟨hstart, -⟩ := hj.live now hnow (eq_true_of_ne_false hlive)
  rw [h.idle env.start le_rfl] at hstart
  cases hstart

def Inherits (env : Env) (s s' : Store β) : Prop :=
  ∀ k j', s'.jobs.find? k = some j' →
    j'.Idle env ∨ ∃ j, s.jobs.find? k = some j ∧ j.Inherits env j'

theorem Inherits.of_jobs (h : s'.jobs = s.jobs) : Inherits env s s' := by
  intro k j' hj'
  rw [h] at hj'
  exact .inr ⟨j', hj', .refl j'⟩

theorem Inherits.refl (s : Store β) : Inherits env s s := .of_jobs rfl

theorem Inherits.trans {s t u : Store β} (h₁ : Inherits env s t) (h₂ : Inherits env t u) :
    Inherits env s u := by
  intro k j'' hj''
  rcases h₂ k j'' hj'' with hidle | ⟨j', hj', hinherits⟩
  · exact .inl hidle
  · rcases h₁ k j' hj' with hidle | ⟨j, hj, hinherits'⟩
    · exact .inl (hidle.inherits hinherits)
    · exact .inr ⟨j, hj, hinherits'.trans hinherits⟩

theorem Inherits.congr {t : Store β} (h : Inherits env t s') (hjobs : t.jobs = s.jobs) :
    Inherits env s s' :=
  Inherits.trans (Inherits.of_jobs hjobs) h

theorem Inherits.modify {k : ID} {f : Job → Job} (hf : ∀ j, (f j).id = j.id)
    (hjobs : s'.jobs = s.jobs.modify k f hf)
    (hrow : ∀ j, s.jobs.find? k = some j → j.Inherits env (f j)) : Inherits env s s' := by
  intro k' j' hj'
  rw [hjobs] at hj'
  by_cases hk : k' = k
  · subst hk
    rw [Table.find?_modify_self] at hj'
    obtain ⟨j, hj, rfl⟩ := Option.map_eq_some_iff.mp hj'
    exact .inr ⟨j, hj, hrow j hj⟩
  · rw [Table.find?_modify_ne _ _ _ hk] at hj'
    exact .inr ⟨j', hj', .refl j'⟩

/-! ## Transactions that lease nothing -/

theorem LedgerOnly.inherits (h : LedgerOnly s s') : Inherits env s s' := .of_jobs h.jobs

theorem appendJobEvent_inherits {input : EventInput} {receipt : EventReceipt}
    (h : appendJobEvent wire s job input = .ok (s', receipt)) : Inherits env s s' := by
  obtain ⟨events, rfl⟩ := appendJobEvent_ok h
  exact .modify Job.bump_id rfl fun j _ => .of_same rfl rfl rfl fun _ hlive => hlive

theorem markCancel_inherits (job : Job) : Inherits env s (markCancel env s job) :=
  .modify (Job.requestCancel_id env.finish) rfl fun j _ => inherits_requestCancel _ j

theorem reserveFirst_inherits (h : reserveFirst wire env s job = .ok s') :
    Inherits env s s' := by
  obtain ⟨-, rfl⟩ | ⟨frozen, s₁, made, -, -, hr, rfl⟩ := reserveFirst_ok h
  · exact .refl _
  · exact (reserveAttempt_ok hr).inherits.trans
      (.modify (Job.withPayload_id _) rfl fun j _ => .of_same rfl rfl rfl fun _ hlive => hlive)

theorem idle_newJob {n : ℕ} {input : EnqueueInput} (h : input.valid wire = true) :
    (newJob env n input).Idle env := by
  refine ⟨?_, fun now _ => rfl⟩
  unfold EnqueueInput.valid at h
  simp only [Bool.and_eq_true] at h
  exact h.1.1.1.1.1.2

theorem enqueueTx_inherits {n : ℕ} {input : EnqueueInput}
    (h : enqueueTx wire env n s input = .ok s') : Inherits env s s' := by
  have hvalid : input.valid wire = true := by
    by_contra hinvalid
    unfold enqueueTx at h
    rw [if_neg hinvalid] at h
    cases h
  obtain ⟨jobs, s₁, receipt, hins, hfirst, hevent⟩ := enqueueTx_ok h
  have hinsert : Inherits env s { s with jobs := jobs } := by
    intro k j' hj'
    dsimp only at hj'
    rw [Table.find?_insert? hins] at hj'
    split_ifs at hj'
    · cases hj'
      exact .inl (idle_newJob hvalid)
    · exact .inr ⟨j', hj', .refl j'⟩
  exact (hinsert.trans (reserveFirst_inherits hfirst)).trans (appendJobEvent_inherits hevent)

theorem enqueueAll_inherits {inputs : List EnqueueInput} :
    ∀ {n : ℕ} {s : Store β}, enqueueAll wire env n s inputs = .ok s' → Inherits env s s' := by
  induction inputs with
  | nil =>
    intro n s h
    cases h
    exact .refl _
  | cons input inputs ih =>
    intro n s h
    unfold enqueueAll at h
    split at h
    · cases h
    · next hone => exact (enqueueTx_inherits hone).trans (ih h)

theorem createBatchTx_inherits {input : BatchInput} (h : createBatchTx wire env s input = .ok s') :
    Inherits env s s' := by
  unfold createBatchTx at h
  dsimp only at h
  split_ifs at h
  · split at h <;> cases h
  · split at h
    · cases h
    · exact (enqueueAll_inherits h).congr rfl

theorem cancelChild_inherits (h : cancelChild wire env s job = .ok s') :
    Inherits env s s' := by
  obtain ⟨-, rfl⟩ | ⟨s₁, input, receipt, -, hledger, hevent⟩ := cancelChild_ledger h
  · exact .refl _
  · exact ((markCancel_inherits job).trans hledger.inherits).trans (appendJobEvent_inherits hevent)

theorem cancelChildren_inherits {jobs : List Job} :
    ∀ {s : Store β}, cancelChildren wire env s jobs = .ok s' → Inherits env s s' := by
  induction jobs with
  | nil =>
    intro s h
    cases h
    exact .refl _
  | cons job jobs ih =>
    intro s h
    unfold cancelChildren at h
    split at h
    · cases h
    · next hone => exact (cancelChild_inherits hone).trans (ih h)

theorem cancel_inherits {scope id : ID} {revision : ℤ} {actor : Option ID}
    (h : cancel wire env s scope id revision actor = .ok s') : Inherits env s s' := by
  unfold cancel at h
  split_ifs at h
  split at h
  · unfold cancelJob at h
    split_ifs at h
    obtain ⟨s₁, hchild, h⟩ := Except.of_bind h
    obtain ⟨⟨⟩, -, h⟩ := Except.of_bind h
    cases h
    exact cancelChild_inherits hchild
  · split at h
    · cases h
    · unfold cancelBatch at h
      split_ifs at h
      obtain ⟨s₁, hchildren, h⟩ := Except.of_bind h
      obtain ⟨⟨⟩, -, h⟩ := Except.of_bind h
      cases h
      exact (cancelChildren_inherits hchildren).congr rfl

theorem reapOne_inherits (h : reapOne wire env s job = .ok s') : Inherits env s s' := by
  obtain ⟨s₁, settled, s₂, state, failure, input, receipt, hsettle, hout, hevent⟩ := reapOne_ok h
  have hledger : Inherits env s s₂ :=
    (settleAttempt_ok hsettle).inherits.trans (reapOutcome_ok hout).inherits
  exact (hledger.trans (.modify (Job.expire_id _ _ _) rfl fun j _ =>
    inherits_expire _ _ j (reapOutcome_ends hout).1)).trans (appendJobEvent_inherits hevent)

theorem reapAll_inherits {jobs : List Job} :
    ∀ {s : Store β}, reapAll wire env s jobs = .ok s' → Inherits env s s' := by
  induction jobs with
  | nil =>
    intro s h
    cases h
    exact .refl _
  | cons job jobs ih =>
    intro s h
    unfold reapAll at h
    split at h
    · cases h
    · next hone => exact (reapOne_inherits hone).trans (ih h)

theorem heartbeat_inherits {answer : Heartbeat} (h : heartbeat env s id = .ok (s', answer)) :
    Inherits env s s' := by
  obtain ⟨job, hjob, -, hvalid, rfl⟩ := heartbeat_ok h
  refine .modify (Job.beat_id _ _) rfl fun j hj => ?_
  rw [hjob] at hj
  cases hj
  exact ⟨rfl, rfl, fun _ _ _ => ⟨hvalid, rfl⟩⟩

theorem event_inherits {input : EventInput} {receipt : EventReceipt}
    (h : event wire env s id input = .ok (s', receipt)) : Inherits env s s' := by
  obtain ⟨job, clean, hlock, hvalid, rfl | ⟨hevent, -⟩⟩ := event_ok h
  · exact .refl _
  · refine Inherits.trans ?_ (appendJobEvent_inherits hevent)
    unfold runRow
    split_ifs
    · exact .refl s
    · refine .modify Job.run_id rfl fun j hj => ?_
      rw [(lockLease_ok.mp hlock).2.1] at hj
      cases hj
      exact ⟨rfl, rfl, fun _ _ _ => ⟨hvalid, rfl⟩⟩

theorem runCallback_inherits {c : Callback β} (h : runCallback wire env s c = .ok s') :
    Inherits env s s' := by
  unfold runCallback at h
  split at h
  · cases h
  · exact (enqueueAll_inherits h).congr rfl

theorem callbackTx_inherits {callback : Option (Callback β)}
    (h : callbackTx wire env s job callback = .ok s') : Inherits env s s' := by
  cases callback with
  | none =>
    cases h
    exact .refl _
  | some c =>
    unfold callbackTx at h
    split_ifs at h
    exact runCallback_inherits h

theorem recordAttempt_inherits {input : Result} {hash : String} {receipt : ResultReceipt}
    (hlock : lockLease s id = .ok job) (hacc : Accepted job input hash)
    (h : recordAttempt wire env s id job input hash = .ok (s', receipt)) : Inherits env s s' := by
  obtain ⟨s₁, settled, s₂, s₃, state, verdict, error, report, ereceipt, -, hsettle, hinsert, hout,
    hevent⟩ := recordAttempt_ok hlock h
  obtain ⟨results, rfl, -⟩ := insertResult_ok hinsert
  have hjobs : s₃.jobs = s.jobs := by
    rw [(completeOutcome_ok hout).jobs]
    exact (settleAttempt_ok hsettle).jobs
  exact ((Inherits.of_jobs hjobs).trans (.modify (Job.finish_id _ _ _ _) rfl fun j _ =>
    .of_inactive rfl rfl (completeOutcome_ends hacc hout).1)).trans (appendJobEvent_inherits hevent)

theorem completeTx_inherits {input : Result} {callback : Option (Callback β)}
    {receipt : ResultReceipt} {ran : Bool}
    (h : completeTx wire env s id input callback = .ok (s', receipt, ran)) :
    Inherits env s s' := by
  rcases completeTx_ok h with ⟨rfl, -⟩ |
    ⟨job, result, hash, s₁, -, hlock, hacc, -, -, hcallback, hrecord⟩
  · exact .refl _
  · exact (callbackTx_inherits hcallback).trans
      (recordAttempt_inherits (callbackTx_lockLease hcallback hlock) hacc hrecord)

end ProxyLoom.Jobs
