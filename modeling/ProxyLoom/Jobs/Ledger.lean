import ProxyLoom.Jobs.Fencing
import ProxyLoom.Jobs.Postings

/-!
# The quota ledger

Which reservations a job has depends on where it stands: an unfinished network job has exactly one
unsettled reservation, for the attempt that is due (`Job.due`), and a finished job has none. This is
`Owed`, for one job; it breaks inside an action and holds again at its end, so it is proved action
by action.
-/

namespace ProxyLoom.Jobs

open IR RunnerProtocol Relation

variable {β : Type} {wire : Wire} {env : Env} {s s' : Store β} {res res' : Table Reservation.key}
  {P : EnqueueInput → Prop}
  {j job : Job} {receipt : EventReceipt} {state : State} {j' : Job} {k : ID} {input : EventInput}
  {id : LeaseIdentity} {w : World β}

/-- The attempt whose bytes are set aside: the next one of a queued job, else the current one. -/
def Job.due (j : Job) : ℕ := if j.state = .queued then j.attempt + 1 else j.attempt

/-- The reservations of a job stand as its state asks. -/
structure Owed (reservations : Table Reservation.key) (j : Job) : Prop where
  scope : ∀ a r, reservations.find? (j.id, a) = some r →
    j.kind.network = true ∧ r.scopeID = j.scopeID
  le_due : j.state.terminal = false →
    ∀ a r, reservations.find? (j.id, a) = some r → a ≤ j.due
  unsettled : ∀ a r, reservations.find? (j.id, a) = some r →
    (r.settledBytes = none ↔ j.state.terminal = false ∧ a = j.due)
  due : j.kind.network = true → j.state.terminal = false →
    ∃ r, reservations.find? (j.id, j.due) = some r

/-- Every job has its reservations, and every reservation its job. -/
structure Owns (s : Store β) : Prop where
  owed : ∀ k j, s.jobs.find? k = some j → Owed s.reservations j
  job : ∀ r ∈ s.reservations.rows, ∃ j, s.jobs.find? r.jobID = some j

/-- Where a job stands, as far as its reservations are concerned. -/
structure SameStanding (j j' : Job) : Prop where
  id : j'.id = j.id
  kind : j'.kind = j.kind
  scope : j'.scopeID = j.scopeID
  terminal : j'.state.terminal = j.state.terminal
  due : j.state.terminal = false → j'.due = j.due

/-- Actions that leave the reservations and where the job stands. -/
theorem Owed.congr (h : Owed res j) (hstand : SameStanding j j')
    (hres : ∀ a, res'.find? (j.id, a) = res.find? (j.id, a)) :
    Owed res' j' := by
  have hfind : ∀ a, res'.find? (j'.id, a) = res.find? (j.id, a) := by
    intro a
    rw [hstand.id, hres]
  refine ⟨fun a r hr => ?_, fun hopen a r hr => ?_, fun a r hr => ?_, fun hnet hopen => ?_⟩
  · rw [hfind] at hr
    rw [hstand.kind, hstand.scope]
    exact h.scope a r hr
  · rw [hfind] at hr
    rw [hstand.terminal] at hopen
    rw [hstand.due hopen]
    exact h.le_due hopen a r hr
  · rw [hfind] at hr
    rw [hstand.terminal, h.unsettled a r hr]
    constructor
    · rintro ⟨hopen, ha⟩
      exact ⟨hopen, by rw [hstand.due hopen, ha]⟩
    · rintro ⟨hopen, ha⟩
      exact ⟨hopen, by rw [← hstand.due hopen, ha]⟩
  · rw [hstand.terminal] at hopen
    rw [hstand.kind] at hnet
    obtain ⟨r, hr⟩ := h.due hnet hopen
    exact ⟨r, by rw [hfind, hstand.due hopen, hr]⟩

/-! ## Closing the attempt that was due -/

/-- The reservations of a job are settled, none of them beyond the attempt that was due. -/
structure Closed (reservations : Table Reservation.key) (j : Job) : Prop where
  scope : ∀ a r, reservations.find? (j.id, a) = some r →
    j.kind.network = true ∧ r.scopeID = j.scopeID
  le_due : ∀ a r, reservations.find? (j.id, a) = some r → a ≤ j.due
  settled : ∀ a r, reservations.find? (j.id, a) = some r → r.settledBytes ≠ none

theorem Owed.settle {j : Job} {usage : Option ℤ} {amount : ℤ} (h : Owed s.reservations j)
    (hbounds : ∀ r ∈ s.reservations.rows, 0 ≤ r.reservedBytes)
    (hopen : j.state.terminal = false)
    (hsettle : settleAttempt env s j j.due usage = .ok (s', amount)) :
    Posting env s s' ∧ Closed s'.reservations j ∧
      ∀ k a, k ≠ j.id → s'.reservations.find? (k, a) = s.reservations.find? (k, a) := by
  obtain ⟨hpost, hout⟩ := settleAttempt_posting
    (fun r hr => ⟨(h.scope _ r hr).2, hbounds r (Table.mem_of_find? hr)⟩) hsettle
  refine ⟨hpost, ?_⟩
  rcases hout with ⟨hsame, hnet⟩ | ⟨r₀, actual, hr₀, hmod⟩
  · rw [hsame]
    refine ⟨⟨h.scope, h.le_due hopen, fun a r hr => ?_⟩, fun _ _ _ => rfl⟩
    -- a reservation that settling left alone was settled before
    obtain ⟨r₁, v, hr₁, hv⟩ := hnet (h.scope a r hr).1
    have hnone := (h.unsettled _ r₁ hr₁).mpr ⟨hopen, rfl⟩
    rw [hv] at hnone
    cases hnone
  · have hfind : ∀ a, s'.reservations.find? (j.id, a) =
        if a = j.due then some (r₀.settle actual env.finish)
        else s.reservations.find? (j.id, a) := by
      intro a
      rw [hmod, Table.find?_modify, hr₀]
      by_cases ha : a = j.due
      · rw [if_pos (by rw [ha]), if_pos ha]
        rfl
      · rw [if_neg (fun heq => ha (Prod.mk.inj heq).2), if_neg ha]
    refine ⟨⟨fun a r hr => ?_, fun a r hr => ?_, fun a r hr => ?_⟩, fun k a hk => ?_⟩
    · rw [hfind] at hr
      split_ifs at hr
      · cases hr
        exact h.scope _ r₀ hr₀
      · exact h.scope a r hr
    · rw [hfind] at hr
      split_ifs at hr with ha
      · exact le_of_eq ha
      · exact h.le_due hopen a r hr
    · rw [hfind] at hr
      split_ifs at hr with ha
      · cases hr
        exact Option.some_ne_none actual
      · intro hnone
        exact ha ((h.unsettled a r hr).mp hnone).2
    · rw [hmod, Table.find?_modify_ne _ _ _ (fun heq => hk (Prod.mk.inj heq).1)]

structure SameJob (j j' : Job) : Prop where
  id : j'.id = j.id
  kind : j'.kind = j.kind
  scope : j'.scopeID = j.scopeID

theorem Closed.finished (h : Closed res j) (hsame : SameJob j j')
    (hterminal : j'.state.terminal = true) : Owed res j' := by
  have hnot : j'.state.terminal ≠ false := by
    rw [hterminal]
    decide
  refine ⟨fun a r hr => ?_, fun hopen => absurd hopen hnot, fun a r hr => ?_,
    fun _ hopen => absurd hopen hnot⟩
  · rw [hsame.id] at hr
    rw [hsame.kind, hsame.scope]
    exact h.scope a r hr
  · rw [hsame.id] at hr
    constructor
    · intro hnone
      exact absurd hnone (h.settled a r hr)
    · rintro ⟨hopen, -⟩
      exact absurd hopen hnot

/-- A job without a budget has no reservations, whatever becomes of it. -/
theorem Closed.offline (h : Closed res j) (hsame : SameJob j j')
    (hoff : j.kind.network = false) : Owed res j' := by
  have hnone : ∀ a r, res.find? (j'.id, a) = some r → False := by
    intro a r hr
    rw [hsame.id] at hr
    have hnet := (h.scope a r hr).1
    rw [hoff] at hnet
    cases hnet
  refine ⟨fun a r hr => (hnone a r hr).elim, fun _ a r hr => (hnone a r hr).elim,
    fun a r hr => (hnone a r hr).elim, fun hnet => ?_⟩
  rw [hsame.kind, hoff] at hnet
  cases hnet

theorem Closed.requeued {r₀ : Reservation} (h : Closed res j) (hsame : SameJob j j')
    (hnet : j.kind.network = true) (hqueued : j'.state = .queued)
    (hle : ∀ a r, res.find? (j.id, a) = some r → a ≤ j'.due)
    (hr₀ : r₀.scopeID = j.scopeID ∧ r₀.settledBytes = none ∧ r₀.key = (j.id, j'.due))
    (hins : res.insert? r₀ = some res') : Owed res' j' := by
  obtain ⟨hscope₀, hopen₀, hkey₀⟩ := hr₀
  have hopen : j'.state.terminal = false := by
    rw [hqueued]
    rfl
  have hfind : ∀ a, res'.find? (j'.id, a) =
      if a = j'.due then some r₀ else res.find? (j.id, a) := by
    intro a
    rw [Table.find?_insert? hins, hkey₀, hsame.id]
    by_cases ha : a = j'.due
    · rw [if_pos (by rw [ha]), if_pos ha]
    · rw [if_neg (fun heq => ha (Prod.mk.inj heq).2), if_neg ha]
  refine ⟨fun a r hr => ?_, fun _ a r hr => ?_, fun a r hr => ?_, fun _ _ => ⟨r₀, ?_⟩⟩
  · rw [hfind] at hr
    rw [hsame.kind, hsame.scope]
    split_ifs at hr
    · cases hr
      exact ⟨hnet, hscope₀⟩
    · exact h.scope a r hr
  · rw [hfind] at hr
    split_ifs at hr with ha
    · exact le_of_eq ha
    · exact hle a r hr
  · rw [hfind] at hr
    split_ifs at hr with ha
    · cases hr
      exact ⟨fun _ => ⟨hopen, ha⟩, fun _ => hopen₀⟩
    · exact ⟨fun hnone => absurd hnone (h.settled a r hr), fun hc => absurd hc.2 ha⟩
  · rw [hfind, if_pos rfl]

/-! ## Rewriting one row -/

theorem SameStanding.refl (j : Job) : SameStanding j j := ⟨rfl, rfl, rfl, rfl, fun _ => rfl⟩

theorem Owns.update (h : Owns s) (hk : s'.jobs.find? k = some j)
    (hothers : ∀ k', k' ≠ k → s'.jobs.find? k' = s.jobs.find? k')
    (hres : ∀ k' a, k' ≠ k → s'.reservations.find? (k', a) = s.reservations.find? (k', a))
    (howed : Owed s'.reservations j) : Owns s' where
  owed k' i hi := by
    by_cases heq : k' = k
    · subst heq
      rw [hk] at hi
      cases hi
      exact howed
    · rw [hothers k' heq] at hi
      have hid : i.id = k' := Table.key_of_find? hi
      exact (h.owed k' i hi).congr (.refl i) fun a => by rw [hid, hres k' a heq]
  job r hr := by
    by_cases heq : r.jobID = k
    · exact ⟨j, by rw [heq, hk]⟩
    · have hfind := Table.find?_of_mem hr
      have hkey : r.key = (r.jobID, r.attempt) := rfl
      rw [hkey, hres _ _ heq] at hfind
      obtain ⟨i, hi⟩ := h.job r (Table.mem_of_find? hfind)
      exact ⟨i, by rw [hothers _ heq, hi]⟩

theorem Owns.of_same (h : Owns s) (hjobs : s'.jobs = s.jobs)
    (hres : s'.reservations = s.reservations) : Owns s' :=
  ⟨by rw [hjobs, hres]; exact h.owed, by rw [hjobs, hres]; exact h.job⟩

theorem Owns.modify (h : Owns s) {f : Job → Job} (hf : ∀ j, (f j).id = j.id)
    (hjobs : s'.jobs = s.jobs.modify k f hf) (hres : s'.reservations = s.reservations)
    (hstand : ∀ j, s.jobs.find? k = some j → SameStanding j (f j)) : Owns s' := by
  cases hk : s.jobs.find? k with
  | none =>
    have hfind : ∀ k', s'.jobs.find? k' = s.jobs.find? k' := by
      intro k'
      rw [hjobs, Table.find?_modify]
      split_ifs with heq
      · rw [heq, hk]
        rfl
      · rfl
    refine ⟨fun k' j hj => ?_, fun r hr => ?_⟩
    · rw [hfind] at hj
      rw [hres]
      exact h.owed k' j hj
    · rw [hres] at hr
      obtain ⟨j, hj⟩ := h.job r hr
      exact ⟨j, by rw [hfind, hj]⟩
  | some j =>
    refine h.update (k := k) (j := f j) ?_ ?_ ?_ ?_
    · rw [hjobs, Table.find?_modify_self, hk]
      rfl
    · intro k' hne
      rw [hjobs, Table.find?_modify_ne _ _ _ hne]
    · intro k' a _
      rw [hres]
    · rw [hres]
      exact (h.owed k j hk).congr (hstand j hk) fun _ => rfl

theorem Owns.append (h : Owns s)
    (happend : appendJobEvent wire s job input = .ok (s', receipt)) : Owns s' := by
  obtain ⟨events, rfl⟩ := appendJobEvent_ok happend
  exact h.modify Job.bump_id rfl rfl fun j _ => ⟨rfl, rfl, rfl, rfl, fun _ => rfl⟩

theorem appendJobEvent_posting
    (happend : appendJobEvent wire s job input = .ok (s', receipt)) : Posting env s s' := by
  obtain ⟨events, rfl⟩ := appendJobEvent_ok happend
  exact .same rfl rfl

theorem State.active_not_queued (h : state.active = true) : state ≠ .queued :=
  (State.active_ne h).1

theorem Job.due_of_active (h : j.state.active = true) : j.due = j.attempt :=
  if_neg (State.active_not_queued h)

theorem SameStanding.requestCancel (h : j.state ≠ .queued) (now : Time) :
    SameStanding j (j.requestCancel now) := by
  have hstate : (j.requestCancel now).state = j.state := if_neg h
  refine ⟨rfl, rfl, rfl, by rw [hstate], fun _ => ?_⟩
  unfold Job.due
  rw [hstate]
  rfl

theorem Owns.lease {worker : ID} {lease : Lease} (h : Owns s)
    (hl : leaseJob wire env s worker job = .ok (s', lease)) : Owns s' ∧ Posting env s s' := by
  obtain ⟨row, events, hrow, hqueued, -, -, rfl⟩ := leaseJob_ok hl
  have hleased : Owns { s with
      jobs := s.jobs.modify job.id (Job.lease worker env.finish) (Job.lease_id _ _) } := by
    refine h.modify (Job.lease_id _ _) rfl rfl fun j hj => ?_
    rw [hrow] at hj
    cases hj
    refine ⟨rfl, rfl, rfl, by rw [hqueued]; rfl, fun _ => ?_⟩
    -- the attempt that was due is the current one now
    unfold Job.due
    rw [hqueued]
    rfl
  exact ⟨hleased.modify Job.bump_id rfl rfl fun j _ => ⟨rfl, rfl, rfl, rfl, fun _ => rfl⟩,
    .same rfl rfl⟩

theorem Owns.beat {answer : Heartbeat} (h : Owns s)
    (hb : heartbeat env s id = .ok (s', answer)) : Owns s' ∧ Posting env s s' := by
  obtain ⟨job, -, -, -, rfl⟩ := heartbeat_ok hb
  exact ⟨h.modify (Job.beat_id _ _) rfl rfl fun j _ => ⟨rfl, rfl, rfl, rfl, fun _ => rfl⟩,
    .same rfl rfl⟩

theorem Owns.event (h : Owns s)
    (he : event wire env s id input = .ok (s', receipt)) : Owns s' ∧ Posting env s s' := by
  obtain ⟨job, clean, hlock, hvalid, rfl | ⟨hevent, -⟩⟩ := event_ok he
  · exact ⟨h, .same rfl rfl⟩
  · have hactive := active_of_leaseValid hvalid
    have hrun : Owns (runRow s id clean) ∧ (runRow s id clean).buckets = s.buckets ∧
        (runRow s id clean).reservations = s.reservations := by
      unfold runRow
      split_ifs
      · exact ⟨h, rfl, rfl⟩
      · refine ⟨h.modify Job.run_id rfl rfl fun j hj => ?_, rfl, rfl⟩
        rw [(lockLease_ok.mp hlock).2.1] at hj
        cases hj
        refine ⟨rfl, rfl, rfl, (State.not_terminal_of_active hactive).symm, fun _ => ?_⟩
        rw [Job.due_of_active hactive]
        rfl
    obtain ⟨events, rfl⟩ := appendJobEvent_ok hevent
    exact ⟨hrun.1.append hevent, .same hrun.2.1 hrun.2.2⟩

/-! ## Actions that move bytes -/

/-- An action keeps the ledger: it posts, and every job has its reservations after it. -/
def Keeps (env : Env) (s s' : Store β) : Prop := ReflTransGen (Posting env) s s' ∧ Owns s'

theorem Owns.fresh (h : Owns s) (hk : s.jobs.find? k = none) (a : ℕ) :
    s.reservations.find? (k, a) = none := by
  cases hr : s.reservations.find? (k, a) with
  | none => rfl
  | some r =>
    obtain ⟨j, hj⟩ := h.job r (Table.mem_of_find? hr)
    have hkey : r.key = (k, a) := Table.key_of_find? hr
    have hid : r.jobID = k := (Prod.mk.inj hkey).1
    rw [hid, hk] at hj
    cases hj

theorem Closed.of_none (h : ∀ a, res.find? (j.id, a) = none) : Closed res j := by
  have hnone : ∀ a r, res.find? (j.id, a) = some r → False := by
    intro a r hr
    rw [h] at hr
    cases hr
  exact ⟨fun a r hr => (hnone a r hr).elim, fun a r hr => (hnone a r hr).elim,
    fun a r hr => (hnone a r hr).elim⟩

theorem find?_insert_ne {r₀ : Reservation} (hins : res.insert? r₀ = some res')
    (hk : k ≠ r₀.jobID) (a : ℕ) :
    res'.find? (k, a) = res.find? (k, a) := by
  have hne : (k, a) ≠ r₀.key := fun heq => hk (Prod.mk.inj heq).1
  rw [Table.find?_insert? hins, if_neg hne]

theorem reserveFirst_keeps (h : Owns s) (hnew : ∀ a, s.reservations.find? (job.id, a) = none)
    {t : Store β} (hjobs : s.jobs.insert? job = some t.jobs)
    (hres : t.reservations = s.reservations) (hbuckets : t.buckets = s.buckets)
    (hqueued : job.state = .queued) (hattempt : job.attempt = 0)
    (hf : reserveFirst wire env t job = .ok s') : Keeps env s s' := by
  have hself : t.jobs.find? job.id = some job := by
    rw [Table.find?_insert? hjobs, if_pos rfl]
  have hothers : ∀ k', k' ≠ job.id → t.jobs.find? k' = s.jobs.find? k' := by
    intro k' hne
    rw [Table.find?_insert? hjobs, if_neg hne]
  have hclosed : Closed s.reservations job := .of_none hnew
  obtain ⟨hnet, rfl⟩ | ⟨frozen, s₁, made, hnet, -, hr, rfl⟩ := reserveFirst_ok hf
  · refine ⟨.single (.same hbuckets hres), h.update (k := job.id) hself hothers ?_ ?_⟩
    · intro k' a _
      rw [hres]
    · rw [hres]
      exact hclosed.offline ⟨rfl, rfl, rfl⟩ hnet
  · have hledger := reserveAttempt_ok hr
    obtain ⟨hpost, -, hout⟩ := reserveAttempt_posting hr
    rw [hres] at hout
    have hins : s.reservations.insert? (newReservation env job 1 frozen.maxBytes) =
        some s₁.reservations := by
      rcases hout with ⟨-, hexists⟩ | ⟨-, hins⟩
      · obtain ⟨r, hr⟩ := hexists (by simp)
        rw [hnew] at hr
        cases hr
      · exact hins
    have hdue : job.due = 1 := by
      unfold Job.due
      rw [if_pos hqueued, hattempt]
    have howed : Owed s₁.reservations job := by
      refine hclosed.requeued ⟨rfl, rfl, rfl⟩ hnet hqueued (fun a r hr => ?_) ⟨rfl, rfl, ?_⟩ hins
      · rw [hnew] at hr
        cases hr
      · rw [hdue]
        rfl
    have howns : Owns s₁ := by
      refine h.update (k := job.id) (j := job) ?_ ?_ ?_ howed
      · rw [hledger.jobs, hself]
      · intro k' hne
        rw [hledger.jobs, hothers k' hne]
      · intro k' a hne
        exact find?_insert_ne hins hne a
    refine ⟨?_, howns.modify (Job.withPayload_id _) rfl rfl
      fun j _ => ⟨rfl, rfl, rfl, rfl, fun _ => rfl⟩⟩
    exact ((ReflTransGen.single (Posting.same hbuckets hres)).tail hpost).tail (.same rfl rfl)

theorem enqueueTx_keeps {n : ℕ} {input : EnqueueInput} (h : Owns s)
    (he : enqueueTx wire env n s input = .ok s') : Keeps env s s' := by
  obtain ⟨jobs, s₁, receipt, hins, hfirst, hevent⟩ := enqueueTx_ok he
  have hnew := h.fresh (Table.insert?_eq_some_iff.mp hins).1
  obtain ⟨hpost, howns⟩ := reserveFirst_keeps (t := { s with jobs := jobs }) h hnew hins rfl rfl rfl
    rfl hfirst
  exact ⟨hpost.tail (appendJobEvent_posting hevent), howns.append hevent⟩

theorem settleAttempt_settled {attempt : ℕ} {usage : Option ℤ} {amount : ℤ}
    (hall : ∀ r, s.reservations.find? (job.id, attempt) = some r → r.settledBytes ≠ none)
    (h : settleAttempt env s job attempt usage = .ok (s', amount)) : s' = s := by
  obtain ⟨rfl, -⟩ | ⟨r, hr, hopen, -, -⟩ := settleAttempt_cases h
  · rfl
  · exact absurd hopen (hall r hr)

theorem Owns.mark {row : Job} (h : Owns s) (hrow : s.jobs.find? job.id = some row)
    (hnot : row.state ≠ .queued) : Owns (markCancel env s job) := by
  refine h.modify (Job.requestCancel_id env.finish) rfl rfl fun j hj => ?_
  rw [hrow] at hj
  cases hj
  exact .requestCancel hnot _

theorem cancelChild_keeps {row : Job} (h : Owns s) (hbooks : Books s)
    (hrow : s.jobs.find? job.id = some row) (hcur : Current row job)
    (hc : cancelChild wire env s job = .ok s') : Keeps env s s' := by
  have hmark : ReflTransGen (Posting env) s (markCancel env s job) := .single (.same rfl rfl)
  obtain ⟨-, rfl⟩ | ⟨s₁, input, receipt, -, ⟨hqueued, rfl⟩ | ⟨hqueued, amount, hsettle⟩, hevent⟩ :=
    cancelChild_ok hc
  · exact ⟨.refl, h⟩
  · have hnot : row.state ≠ .queued := by
      rcases hcur with rfl | hcanceled
      · exact hqueued
      · rw [hcanceled]
        decide
    exact ⟨hmark.tail (appendJobEvent_posting hevent), (h.mark hrow hnot).append hevent⟩
  · rcases hcur with rfl | hcanceled
    · have hopen : row.state.terminal = false := by
        rw [hqueued]
        rfl
      have hdue : row.attempt + 1 = row.due := (if_pos hqueued).symm
      rw [hdue] at hsettle
      obtain ⟨hpost, hclosed, hres⟩ := Owed.settle (s := markCancel env s row)
        (h.owed _ row hrow) (fun r hr => (hbooks.bounds r hr).1) hopen hsettle
      have hjobs := (settleAttempt_ok hsettle).jobs
      have hstate : (row.requestCancel env.finish).state = .canceled := if_pos hqueued
      have howns : Owns s₁ := by
        refine h.update (k := row.id) (j := row.requestCancel env.finish) ?_ ?_ ?_
          (hclosed.finished ⟨rfl, rfl, rfl⟩ (by rw [hstate]; rfl))
        · rw [hjobs]
          unfold markCancel
          dsimp only
          rw [Table.find?_modify_self, hrow]
          rfl
        · intro k' hne
          rw [hjobs]
          unfold markCancel
          dsimp only
          rw [Table.find?_modify_ne _ _ _ hne]
        · exact hres
      exact ⟨(hmark.tail hpost).tail (appendJobEvent_posting hevent), howns.append hevent⟩
    · -- the job was cancelled by this very call, so its reservation is settled
      have hid : row.id = job.id := Table.key_of_find? hrow
      have hsame : s₁ = markCancel env s job := by
        refine settleAttempt_settled (fun r hr hnone => ?_) hsettle
        have hiff := (h.owed _ row hrow).unsettled (job.attempt + 1) r (by rw [hid]; exact hr)
        have hopen := (hiff.mp hnone).1
        rw [hcanceled] at hopen
        cases hopen
      subst hsame
      have hnot : row.state ≠ .queued := by
        rw [hcanceled]
        decide
      exact ⟨hmark.tail (appendJobEvent_posting hevent), (h.mark hrow hnot).append hevent⟩

/-- What closing an attempt decides: the reservations stay and the job is finished or has no
budget, or the job is queued with its next attempt reserved. -/
def Decides (env : Env) (s s' : Store β) (job : Job) (state : State) : Prop :=
  (s'.reservations = s.reservations ∧ (state.terminal = true ∨ job.kind.network = false)) ∨
    (job.kind.network = true ∧ state = .queued ∧ ∃ maximum, s.reservations.insert?
      (newReservation env job (job.attempt + 1) maximum) = some s'.reservations)

theorem reserveRetry_decides {made : Option ID} (hactive : job.state.active = true)
    (hclosed : Closed s.reservations job) (h : reserveRetry env s job = .ok (s', made)) :
    Posting env s s' ∧ (made = none → s'.reservations = s.reservations) ∧
      (made ≠ none → Decides env s s' job .queued) := by
  unfold reserveRetry at h
  split at h
  · cases h
  · next r₀ hr₀ =>
    obtain ⟨hpost, hnet, hout⟩ := reserveAttempt_posting h
    refine ⟨hpost, fun hnone => ?_, fun hsome => ?_⟩
    · rcases hout with ⟨hsame, -⟩ | ⟨hne, -⟩
      · exact hsame
      · exact absurd hnone hne
    · rcases hout with ⟨-, hexists⟩ | ⟨-, hins⟩
      · -- no attempt beyond the current one was reserved before
        obtain ⟨r, hr⟩ := hexists hsome
        have hle := hclosed.le_due _ r hr
        rw [Job.due_of_active hactive] at hle
        omega
      · exact Or.inr ⟨hnet, rfl, _, hins⟩

theorem reapState_terminal (h : (reapState job).1 ≠ .queued) :
    (reapState job).1.terminal = true := by
  unfold reapState at h ⊢
  split_ifs at h ⊢
  · rfl
  · rfl
  · exact absurd rfl h

theorem reapOutcome_decides {failure : SafeError} (hactive : job.state.active = true)
    (hclosed : Closed s.reservations job) (h : reapOutcome env s job = .ok (s', state, failure)) :
    Posting env s s' ∧ Decides env s s' job state := by
  obtain ⟨hoff, rfl, heq⟩ | ⟨hqueued, made, hr, hout⟩ := reapOutcome_cases h
  · refine ⟨.same rfl rfl, Or.inl ⟨rfl, ?_⟩⟩
    rw [show state = (reapState job).1 from congrArg Prod.fst heq]
    by_cases hqueued : (reapState job).1 = .queued
    · exact Or.inr (hoff hqueued)
    · exact Or.inl (reapState_terminal hqueued)
  · obtain ⟨hpost, hnone, hsome⟩ := reserveRetry_decides hactive hclosed hr
    refine ⟨hpost, ?_⟩
    obtain ⟨hmade, heq⟩ | ⟨rfl, heq⟩ := hout
    · rw [show state = .queued from (congrArg Prod.fst heq).trans hqueued]
      exact hsome hmade
    · cases heq
      exact Or.inl ⟨hnone rfl, Or.inl rfl⟩

theorem completeOutcome_decides {input : Result} {hash : String}
    {out : Option Verdict × Option SafeError} (hactive : job.state.active = true)
    (hacc : Accepted job input hash) (hclosed : Closed s.reservations job)
    (h : completeOutcome env s job input = .ok (s', state, out)) :
    Posting env s s' ∧ Decides env s s' job state := by
  obtain ⟨-, rfl, heq⟩ | ⟨-, hnet, rfl, heq⟩ | ⟨-, -, made, hr, hout⟩ := completeOutcome_cases h
  · cases heq
    exact ⟨.same rfl rfl, Or.inl ⟨rfl, Or.inl hacc.terminal⟩⟩
  · cases heq
    exact ⟨.same rfl rfl, Or.inl ⟨rfl, Or.inr hnet⟩⟩
  · obtain ⟨hpost, hnone, hsome⟩ := reserveRetry_decides hactive hclosed hr
    refine ⟨hpost, ?_⟩
    obtain ⟨hmade, heq⟩ | ⟨rfl, heq⟩ := hout <;> cases heq
    · exact hsome hmade
    · exact Or.inl ⟨hnone rfl, Or.inl rfl⟩

theorem Decides.owed (h : Decides env s s' job state) (hactive : job.state.active = true)
    (hclosed : Closed s.reservations job) (hsame : SameJob job j) (hstate : j.state = state)
    (hattempt : j.attempt = job.attempt) :
    Owed s'.reservations j ∧
      ∀ k a, k ≠ job.id → s'.reservations.find? (k, a) = s.reservations.find? (k, a) := by
  rcases h with ⟨hres, hend⟩ | ⟨hnet, rfl, maximum, hins⟩
  · rw [hres]
    refine ⟨?_, fun _ _ _ => rfl⟩
    rcases hend with hterminal | hoff
    · exact hclosed.finished hsame (by rw [hstate]; exact hterminal)
    · exact hclosed.offline hsame hoff
  · have hdue : j.due = job.attempt + 1 := by
      unfold Job.due
      rw [if_pos hstate, hattempt]
    refine ⟨hclosed.requeued hsame hnet hstate (fun a r hr => ?_) ⟨rfl, rfl, ?_⟩ hins,
      fun k a hne => find?_insert_ne hins hne a⟩
    · have hle := hclosed.le_due a r hr
      rw [Job.due_of_active hactive] at hle
      omega
    · rw [hdue]
      rfl

theorem reapOne_keeps (h : Owns s) (hbooks : Books s) (hjob : s.jobs.find? job.id = some job)
    (hactive : job.state.active = true) (huntil : job.leaseUntil.any (· ≤ env.finish) = true)
    (hr : reapOne wire env s job = .ok s') : Keeps env s s' := by
  obtain ⟨s₁, amount, s₂, state, failure, input, receipt, hsettle, hout, hevent⟩ := reapOne_ok hr
  have hopen := State.not_terminal_of_active hactive
  rw [← Job.due_of_active hactive] at hsettle
  obtain ⟨hpost₁, hclosed, hres₁⟩ := (h.owed _ job hjob).settle
    (fun r hr => (hbooks.bounds r hr).1) hopen hsettle
  obtain ⟨hpost₂, hdecides⟩ := reapOutcome_decides hactive hclosed hout
  have hjobs : s₂.jobs = s.jobs := (reapOutcome_ok hout).jobs.trans (settleAttempt_ok hsettle).jobs
  have hexpire : job.expire env.finish state failure =
      { job with
        state := state
        revision := job.revision + 1
        leaseUntil := none
        safeError := some failure
        finishedAt := if state = .queued then none else some env.finish } := by
    unfold Job.expire
    rw [if_pos (by rw [hactive, huntil]; rfl)]
  obtain ⟨howed, hres₂⟩ := hdecides.owed (j := job.expire env.finish state failure) hactive hclosed
    (by rw [hexpire]; exact ⟨rfl, rfl, rfl⟩) (by rw [hexpire]) (by rw [hexpire])
  have howns : Owns { s₂ with
      jobs := s₂.jobs.modify job.id (Job.expire env.finish state failure)
        (Job.expire_id _ _ _) } := by
    refine h.update (k := job.id) (j := job.expire env.finish state failure) ?_ ?_ ?_ howed
    · dsimp only
      rw [Table.find?_modify_self, hjobs, hjob]
      rfl
    · intro k' hne
      dsimp only
      rw [Table.find?_modify_ne _ _ _ hne, hjobs]
    · intro k' a hne
      dsimp only
      rw [hres₂ k' a hne, hres₁ k' a hne]
  have hrow : Posting env s₂ { s₂ with
      jobs := s₂.jobs.modify job.id (Job.expire env.finish state failure)
        (Job.expire_id _ _ _) } := .same rfl rfl
  refine ⟨?_, howns.append hevent⟩
  exact (((ReflTransGen.single hpost₁).tail hpost₂).tail hrow).tail (appendJobEvent_posting hevent)

theorem recordAttempt_keeps {input : Result} {hash : String}
    {receipt : ResultReceipt} (h : Owns s) (hbooks : Books s) (hlock : lockLease s id = .ok job)
    (hacc : Accepted job input hash)
    (hr : recordAttempt wire env s id job input hash = .ok (s', receipt)) : Keeps env s s' := by
  obtain ⟨s₁, amount, s₂, s₃, state, verdict, error, report, ereceipt, hvalid, hsettle, hinsert,
    hout, hevent⟩ := recordAttempt_ok hlock hr
  obtain ⟨results, rfl, -⟩ := insertResult_ok hinsert
  have hactive := active_of_leaseValid hvalid
  have hopen := State.not_terminal_of_active hactive
  have hfind := (lockLease_ok.mp hlock).2.1
  have hid : job.id = id.jobID := Table.key_of_find? hfind
  rw [← Job.due_of_active hactive] at hsettle
  obtain ⟨hpost₁, hclosed, hres₁⟩ := (h.owed _ job hfind).settle
    (fun r hr => (hbooks.bounds r hr).1) hopen hsettle
  obtain ⟨hpost₂, hdecides⟩ := completeOutcome_decides (s := { s₁ with results := results })
    hactive hacc hclosed hout
  have hjobs : s₃.jobs = s.jobs := by
    rw [(completeOutcome_ok hout).jobs]
    exact (settleAttempt_ok hsettle).jobs
  obtain ⟨howed, hres₂⟩ := hdecides.owed (j := job.finish env.finish state verdict error) hactive
    hclosed ⟨rfl, rfl, rfl⟩ rfl rfl
  have howns : Owns { s₃ with
      jobs := s₃.jobs.modify id.jobID (Job.finish env.finish state verdict error)
        (Job.finish_id _ _ _ _) } := by
    refine h.update (k := id.jobID) (j := job.finish env.finish state verdict error) ?_ ?_ ?_ howed
    · dsimp only
      rw [Table.find?_modify_self, hjobs, hfind]
      rfl
    · intro k' hne
      dsimp only
      rw [Table.find?_modify_ne _ _ _ hne, hjobs]
    · intro k' a hne
      rw [← hid] at hne
      dsimp only at hres₂ ⊢
      rw [hres₂ k' a hne, hres₁ k' a hne]
  have hresult : Posting env s₁ { s₁ with results := results } := .same rfl rfl
  have hrow : Posting env s₃ { s₃ with
      jobs := s₃.jobs.modify id.jobID (Job.finish env.finish state verdict error)
        (Job.finish_id _ _ _ _) } := .same rfl rfl
  refine ⟨?_, howns.append hevent⟩
  exact ((((ReflTransGen.single hpost₁).tail hresult).tail hpost₂).tail hrow).tail
    (appendJobEvent_posting hevent)

theorem queueAction_ledger (h : Owns s) (hbooks : Books s) (hact : QueueAction wire env P s s') :
    Keeps env s s' := by
  cases hact with
  | batches => exact ⟨.single (.same rfl rfl), h.of_same rfl rfl⟩
  | enqueue _ he => exact enqueueTx_keeps h he
  | cancel hrow hcur hc => exact cancelChild_keeps h hbooks hrow hcur hc
  | mark hrow hcur hqueued hnet hnone =>
    refine ⟨.single (.same rfl rfl), ?_⟩
    rcases hcur with rfl | hcanceled
    · -- a queued network job has its next attempt reserved
      obtain ⟨r, hr⟩ := (h.owed _ _ hrow).due hnet (by rw [hqueued]; rfl)
      unfold Job.due at hr
      rw [if_pos hqueued, hnone] at hr
      cases hr
    · exact h.mark hrow (by rw [hcanceled]; decide)
  | lease hl => exact ⟨.single (h.lease hl).2, (h.lease hl).1⟩
  | beat hb => exact ⟨.single (h.beat hb).2, (h.beat hb).1⟩
  | event he => exact ⟨.single (h.event he).2, (h.event he).1⟩
  | reap hjob hactive huntil hr => exact reapOne_keeps h hbooks hjob hactive huntil hr
  | finish hlock hacc hr => exact recordAttempt_keeps h hbooks hlock hacc hr

/-- **Actions keep the ledger.** -/
theorem action_ledger (h : Owns s) (hbooks : Books s) (hact : Action wire env P s s') :
    Keeps env s s' := by
  cases hact with
  | queue hact => exact queueAction_ledger h hbooks hact
  | business => exact ⟨.single (.same rfl rfl), h.of_same rfl rfl⟩

/-! ## Whole runs -/

theorem postings_keep (h : ReflTransGen (Posting env) s s') :
    (Books s → Books s') ∧ Progress s s' ∧
      ∀ scope limit, DailyLimit scope limit env → Within scope limit s → Within scope limit s' := by
  induction h with
  | refl => exact ⟨fun h => h, .refl s, fun _ _ _ h => h⟩
  | tail _ hpost ih =>
    exact ⟨fun h => (ih.1 h).posting hpost, ih.2.1.trans (.posting hpost),
      fun scope limit hlimit h => (ih.2.2 scope limit hlimit h).posting hlimit hpost⟩

def LedgerOk (s : Store β) : Prop := Owns s ∧ Books s

theorem ledgerOk_empty (business : β) : LedgerOk (Store.empty business) := by
  refine ⟨⟨fun k j hj => ?_, fun r hr => ?_⟩, fun k b hb => ?_, fun k b hb => ?_, fun r hr => ?_,
    fun r hr => ?_⟩
  · cases hj
  · cases hr
  · cases hb
  · cases hb
  · cases hr
  · cases hr

theorem LedgerOk.actions (h : LedgerOk s) (hacts : Actions wire env P s s') :
    LedgerOk s' ∧ ReflTransGen (Posting env) s s' := by
  induction hacts with
  | refl => exact ⟨h, .refl⟩
  | tail _ hact ih =>
    obtain ⟨hpost, howns⟩ := action_ledger ih.1.1 ih.1.2 hact
    exact ⟨⟨howns, (postings_keep hpost).1 ih.1.2⟩, ih.2.trans hpost⟩

theorem Reach.ledgerOk (h : (queue wire).Reach w) : LedgerOk w.store := by
  refine Reach.store_invariant (P := LedgerOk) ledgerOk_empty ?_ h
  intro env s s' hs hact
  exact (hs.actions (.single hact)).1

theorem Run.progress {w' : World β} (hw : (queue wire).Reach w) (h : (queue wire).Run w w') :
    Progress w.store w'.store := by
  refine h.relation (R := fun w w' => Progress w.store w'.store) (fun w => .refl _)
    (fun _ _ _ => Progress.trans) ?_ hw
  intro w l w' hreach hstep
  have hacts := (Reach.ledgerOk hreach).actions (step_actions (Call.adds_true _ _) hstep)
  exact (postings_keep hacts.2).2.1

def UnderLimit (scope : ID) (limit : ℤ) (_ : World β) (l : Label β) : Prop :=
  DailyLimit scope limit l.env

theorem Reach.within {scope : ID} {limit : ℤ}
    (h : ((queue wire).restrict (UnderLimit scope limit)).Reach w) :
    Within scope limit w.store := by
  refine h.invariant (P := fun w => Within scope limit w.store) ?_ ?_
  · rintro w ⟨business, hstore, -⟩ day b hb
    rw [hstore] at hb
    cases hb
  · intro w l w' hreach hw hstep
    have hok := Reach.ledgerOk hreach.of_restrict
    have hacts := hok.actions (step_actions (Call.adds_true _ _) hstep.2)
    exact (postings_keep hacts.2).2.2 scope limit hstep.1 hw

/-- **The quota ledger.** In every reachable state:

1. a bucket holds the sum of the unsettled and of the settled reservations charged to it;
2. a settled amount is between nothing and what was reserved, and never changes again;
3. an unfinished network job has exactly one unsettled reservation, for the attempt that is due;
4. a finished job has none;
5. while the daily limit of a scope is constant, no bucket of the scope exceeds it. -/
theorem quota_ledger (wire : Wire) {w : World β} (hw : (queue wire).Reach w) :
    (∀ k b, w.store.buckets.find? k = some b →
      b.reservedBytes = w.store.reservations.sum (openCharge k) ∧
        b.settledBytes = w.store.reservations.sum (settledCharge k)) ∧
    (∀ r ∈ w.store.reservations.rows, ∀ v, r.settledBytes = some v →
      0 ≤ v ∧ v ≤ r.reservedBytes ∧
        ∀ w', (queue wire).Run w w' → r ∈ w'.store.reservations.rows) ∧
    (∀ j ∈ w.store.jobs.rows, j.kind.network = true → j.state.terminal = false →
      ∃ r ∈ w.store.reservations.rows, r.attempt = j.due ∧
        ∀ r' ∈ w.store.reservations.rows,
          (r'.jobID = j.id ∧ r'.settledBytes = none ↔ r' = r)) ∧
    (∀ j ∈ w.store.jobs.rows, j.state.terminal = true →
      ∀ r ∈ w.store.reservations.rows, r.jobID = j.id → r.settledBytes ≠ none) ∧
    (∀ scope limit, ((queue wire).restrict (UnderLimit scope limit)).Reach w →
      ∀ b ∈ w.store.buckets.rows, b.scopeID = scope →
        b.reservedBytes + b.settledBytes ≤ limit) := by
  obtain ⟨howns, hbooks⟩ := Reach.ledgerOk hw
  have howed : ∀ j ∈ w.store.jobs.rows, Owed w.store.reservations j := fun j hj =>
    howns.owed j.id j (Table.find?_of_mem hj)
  have hfind : ∀ r ∈ w.store.reservations.rows, ∀ j : Job, r.jobID = j.id →
      w.store.reservations.find? (j.id, r.attempt) = some r := by
    intro r hr j hid
    rw [← hid]
    exact Table.find?_of_mem hr
  refine ⟨fun k b hb => ⟨hbooks.reserved k b hb, hbooks.settled k b hb⟩, fun r hr v hv => ?_,
    fun j hj hnet hopen => ?_, fun j hj hterminal r hr hid hnone => ?_,
    fun scope limit hreach b hb hscope => ?_⟩
  · obtain ⟨hlow, hhigh⟩ := (hbooks.bounds r hr).2 v hv
    refine ⟨hlow, hhigh, fun w' hrun => ?_⟩
    obtain ⟨r', hr', hsame⟩ := Run.progress hw hrun _ r (Table.find?_of_mem hr)
    have hmem := Table.mem_of_find? hr'
    rw [hsame (by rw [hv]; exact Option.some_ne_none v)] at hmem
    exact hmem
  · obtain ⟨r, hr⟩ := (howed j hj).due hnet hopen
    have hkey : r.key = (j.id, j.due) := Table.key_of_find? hr
    have hid : r.jobID = j.id := (Prod.mk.inj hkey).1
    have hattempt : r.attempt = j.due := (Prod.mk.inj hkey).2
    refine ⟨r, Table.mem_of_find? hr, hattempt, fun r' hr' => ⟨fun hopen' => ?_, ?_⟩⟩
    · have hr'find := hfind r' hr' j hopen'.1
      have hdue := ((howed j hj).unsettled _ r' hr'find).mp hopen'.2
      rw [hdue.2, hr] at hr'find
      exact (Option.some.inj hr'find).symm
    · rintro rfl
      exact ⟨hid, ((howed j hj).unsettled _ r' hr).mpr ⟨hopen, rfl⟩⟩
  · have hopen := (((howed j hj).unsettled _ r (hfind r hr j hid)).mp hnone).1
    rw [hterminal] at hopen
    cases hopen
  · have hkey : b.key = (scope, b.utcDay) := by
      rw [← hscope]
      rfl
    have hb' := Table.find?_of_mem hb
    rw [hkey] at hb'
    exact Reach.within hreach b.utcDay b hb'

/-- A wire format whose payloads all ask for 1000 bytes of connectivity testing. -/
def testWire : Wire :=
  { plainWire with
    decodeFrozenPayload := fun _ =>
      some ⟨"connectivity", "00000000-0000-4000-8000-000000000005", 1000, ""⟩ }

def enqueueTest : Label Unit where
  env := instantEnv 1 "00000000-0000-4000-8000-000000000011"
  call := .enqueue ⟨some refreshJob, refreshScope, none, .runner, .connectivity, [0],
    some "00000000-0000-4000-8000-000000000005"⟩

def leaseTest : Label Unit where
  env := instantEnv 2 "00000000-0000-4000-8000-000000000012"
  call := .claim ⟨.runner, refreshWorker, [.connectivity],
    ["00000000-0000-4000-8000-000000000005"], ⟨1, 4, 1⟩, ⟨1, 4, 1⟩⟩

def failTest : Label Unit where
  env := instantEnv 3 "00000000-0000-4000-8000-000000000013"
  call := .complete (refreshLease 1) ⟨.failed, some .inconclusive, { Metrics.none with
    bodyBytes := some 400 }, some (safe "SERVICE_UNAVAILABLE"), none, none⟩ none

/-- The first attempt of a test has read 400 bytes and failed, and the test is queued again. -/
def retriedTest : World Unit :=
  (((emptyWorld ()).next testWire enqueueTest).next testWire leaseTest).next testWire failTest

theorem reach_next {R : World β → Label β → Prop} (hw : ((queue wire).restrict R).Reach w)
    (l : Label β) (hR : R w l) (hstart : w.clock ≤ l.env.start)
    (hfinish : l.env.start ≤ l.env.finish) : ((queue wire).restrict R).Reach (w.next wire l) :=
  .step (l := l) hw ⟨hR, hstart, hfinish, rfl⟩

theorem underLimit_instantEnv {w : World β} {now : Time} {fresh : ID} {call : Call β} :
    UnderLimit refreshScope (2 ^ 30) w ⟨instantEnv now fresh, call⟩ := by
  intro q hq
  cases hq
  exact ⟨by decide, rfl⟩

theorem reach_retriedTest :
    ((queue testWire).restrict (UnderLimit refreshScope (2 ^ 30))).Reach retriedTest := by
  have hempty : ((queue testWire).restrict (UnderLimit refreshScope (2 ^ 30))).Reach
      (emptyWorld ()) := .init ⟨(), rfl, rfl⟩
  have hqueued := reach_next hempty enqueueTest underLimit_instantEnv (by decide) (by decide)
  have hleased := reach_next hqueued leaseTest underLimit_instantEnv (by decide) (by decide)
  exact reach_next hleased failTest underLimit_instantEnv (by decide) (by decide)

/-- The attempt that failed settled 400 of its 1000 bytes for good, the next one has 1000 reserved,
and the day's limit is kept. -/
theorem quota_ledger_retried :
    retriedTest.store.reservations.rows.map
          (fun r => (r.attempt, r.reservedBytes, r.settledBytes)) =
        [(1, 1000, some 400), (2, 1000, none)] ∧
      retriedTest.store.buckets.rows.map (fun b => (b.reservedBytes, b.settledBytes)) =
        [(1000, 400)] ∧
      (∀ r ∈ retriedTest.store.reservations.rows, ∀ v, r.settledBytes = some v →
        0 ≤ v ∧ v ≤ r.reservedBytes ∧
          ∀ w', (queue testWire).Run retriedTest w' → r ∈ w'.store.reservations.rows) ∧
      ∀ b ∈ retriedTest.store.buckets.rows, b.scopeID = refreshScope →
        b.reservedBytes + b.settledBytes ≤ 2 ^ 30 := by
  obtain ⟨-, hsettled, -, -, hlimit⟩ := quota_ledger testWire reach_retriedTest.of_restrict
  exact ⟨by decide, by decide, hsettled, hlimit _ _ reach_retriedTest⟩

end ProxyLoom.Jobs
