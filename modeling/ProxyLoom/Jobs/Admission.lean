import ProxyLoom.Jobs.Inheritance

/-!
# Admission

How many leases are live at a time. A claim counts the live leases before it adds one, and nothing
else adds any.
-/

namespace ProxyLoom.Jobs

open IR RunnerProtocol List

variable {β : Type} {wire : Wire} {env : Env} {s s' : Store β} {now now' : Time}
  {p : JobType → Option ID → Bool} {worker : ID} {job : Job} {kind : JobType} {w : Option ID}
  {input : ClaimInput}

/-! ## Live leases -/

/-- The jobs with a live lease, by their types and workers. -/
def liveIDs (s : Store β) (now : Time) (p : JobType → Option ID → Bool) : List ID :=
  (s.jobs.rows.filter fun j => j.leaseValid now && p j.kind j.workerID).map Job.id

def live (s : Store β) (now : Time) (p : JobType → Option ID → Bool) : ℕ := (liveIDs s now p).length

theorem nodup_liveIDs (s : Store β) (now : Time) (p : JobType → Option ID → Bool) :
    (liveIDs s now p).Nodup :=
  s.jobs.nodup.sublist (filter_sublist.map Job.id)

theorem mem_liveIDs {k : ID} :
    k ∈ liveIDs s now p ↔ ∃ j, s.jobs.find? k = some j ∧ j.leaseValid now = true ∧
      p j.kind j.workerID = true := by
  unfold liveIDs
  rw [mem_map]
  constructor
  · rintro ⟨j, hj, rfl⟩
    obtain ⟨hmem, hp⟩ := mem_filter.mp hj
    rw [Bool.and_eq_true] at hp
    exact ⟨j, Table.find?_of_mem hmem, hp⟩
  · rintro ⟨j, hj, hp⟩
    refine ⟨j, mem_filter.mpr ⟨Table.mem_of_find? hj, ?_⟩, Table.key_of_find? hj⟩
    rw [Bool.and_eq_true]
    exact hp

theorem live_le_of_subset {l : List ID} (h : liveIDs s' now' p ⊆ l ++ liveIDs s now p) :
    live s' now' p ≤ l.length + live s now p := by
  have hperm := subperm_of_subset (nodup_liveIDs s' now' p) h
  have hlength := hperm.length_le
  rw [length_append] at hlength
  exact hlength

/-- What a call inherits is no more than was there. -/
theorem live_le (h : Inherits env s s') (hnow : env.start ≤ now) (p : JobType → Option ID → Bool) :
    live s' now p ≤ live s env.start p := by
  have hsubset : liveIDs s' now p ⊆ [] ++ liveIDs s env.start p := by
    intro k hk
    obtain ⟨j', hj', hlive, hp⟩ := mem_liveIDs.mp hk
    rcases h k j' hj' with hidle | ⟨j, hj, hinherits⟩
    · rw [hidle.idle now hnow] at hlive
      cases hlive
    · obtain ⟨hstart, hworker⟩ := hinherits.live now hnow hlive
      rw [hinherits.kind, hworker] at hp
      exact mem_liveIDs.mpr ⟨j, hj, hstart, hp⟩
  have hle := live_le_of_subset hsubset
  rw [length_nil] at hle
  omega

theorem live_mono (hnow : now ≤ now') (p : JobType → Option ID → Bool) :
    live s now' p ≤ live s now p := by
  have hsubset : liveIDs s now' p ⊆ [] ++ liveIDs s now p := by
    intro k hk
    obtain ⟨j, hj, hlive, hp⟩ := mem_liveIDs.mp hk
    exact mem_liveIDs.mpr ⟨j, hj, leaseValid_mono hnow hlive, hp⟩
  have hle := live_le_of_subset hsubset
  rw [length_nil] at hle
  omega

theorem live_leaseJob {lease : Lease} (h : leaseJob wire env s worker job = .ok (s', lease))
    {row : Job} (hrow : s.jobs.find? job.id = some row) (now : Time)
    (p : JobType → Option ID → Bool) :
    live s' now p ≤ live s now p + if p row.kind (some worker) then 1 else 0 := by
  obtain ⟨row', events, hrow', -, -, -, rfl⟩ := leaseJob_ok h
  rw [hrow] at hrow'
  cases hrow'
  have hother : ∀ k j, k ≠ job.id →
      ((s.jobs.modify job.id (Job.lease worker env.finish) (Job.lease_id _ _)).modify job.id
        Job.bump Job.bump_id).find? k = some j → s.jobs.find? k = some j := by
    intro k j hk hj
    rw [Table.find?_modify_ne _ _ _ hk, Table.find?_modify_ne _ _ _ hk] at hj
    exact hj
  by_cases hp : p row.kind (some worker) = true
  · rw [if_pos hp, Nat.add_comm]
    refine live_le_of_subset (l := [job.id]) fun k hk => ?_
    obtain ⟨j, hj, hlive, hpj⟩ := mem_liveIDs.mp hk
    by_cases hkey : k = job.id
    · rw [hkey]
      exact mem_cons_self
    · exact mem_cons_of_mem _ (mem_liveIDs.mpr ⟨j, hother k j hkey hj, hlive, hpj⟩)
  · rw [if_neg hp, Nat.add_comm]
    refine live_le_of_subset (l := []) fun k hk => ?_
    obtain ⟨j, hj, hlive, hpj⟩ := mem_liveIDs.mp hk
    by_cases hkey : k = job.id
    · subst hkey
      dsimp only at hj
      rw [Table.find?_modify_self, Table.find?_modify_self, hrow] at hj
      cases hj
      exact absurd hpj hp
    · exact mem_liveIDs.mpr ⟨j, hother k j hkey hj, hlive, hpj⟩

/-! ## Claims -/

def Typed (s : Store β) : Prop :=
  ∀ k j, s.jobs.find? k = some j → validType j.executor j.kind = true

theorem Typed.inherits (hs : Typed s) (h : Inherits env s s') : Typed s' := by
  intro k j' hj'
  rcases h k j' hj' with hidle | ⟨j, hj, hinherits⟩
  · exact hidle.typed
  · rw [hinherits.executor, hinherits.kind]
    exact hs k j hj

theorem Typed.leaseJob (hs : Typed s) {lease : Lease}
    (h : leaseJob wire env s worker job = .ok (s', lease)) : Typed s' := by
  obtain ⟨row, events, hrow, -, -, -, rfl⟩ := leaseJob_ok h
  intro k j hj
  dsimp only at hj
  by_cases hk : k = job.id
  · subst hk
    rw [Table.find?_modify_self, Table.find?_modify_self, hrow] at hj
    cases hj
    exact hs _ row hrow
  · rw [Table.find?_modify_ne _ _ _ hk, Table.find?_modify_ne _ _ _ hk] at hj
    exact hs k j hj

theorem executor_of_runnerType {executor : Executor} (h : validType executor kind = true)
    (hkind : validType .runner kind = true) :
    executor = .runner := by
  cases executor with
  | runner => rfl
  | apiWorker => cases kind <;> contradiction

def Counted (p : JobType → Option ID → Bool) : Prop :=
  ∀ kind worker, p kind worker = true → validType .runner kind = true

theorem activeLeases_eq (hs : Typed s) (hp : Counted p) :
    activeLeases env s (fun j => p j.kind j.workerID) = live s env.finish p := by
  have hfilter : (s.jobs.rows.filter fun j =>
      decide (j.executor = .runner) && j.leaseValid env.finish && p j.kind j.workerID) =
        s.jobs.rows.filter fun j => j.leaseValid env.finish && p j.kind j.workerID := by
    refine filter_congr fun j hj => ?_
    by_cases hpj : p j.kind j.workerID = true
    · have hrunner := executor_of_runnerType (hs _ j (Table.find?_of_mem hj)) (hp _ _ hpj)
      rw [hrunner, decide_eq_true rfl, Bool.true_and]
    · rw [Bool.not_eq_true] at hpj
      rw [hpj, Bool.and_false, Bool.and_false]
  unfold activeLeases live liveIDs
  rw [hfilter, length_map]

def ofType (kind : JobType) : JobType → Option ID → Bool := fun k _ => k = kind

def runs (kind : JobType) (worker : ID) : JobType → Option ID → Bool :=
  fun k w => k = kind && w = some worker

def onNetwork (worker : ID) : JobType → Option ID → Bool := fun k w => w = some worker && k.network

theorem runs_iff {k : JobType} :
    runs kind worker k w = true ↔ k = kind ∧ w = some worker := by
  simp [runs]

theorem onNetwork_iff {k : JobType} :
    onNetwork worker k w = true ↔ w = some worker ∧ k.network = true := by
  simp [onNetwork]

theorem runnerType_of_network (h : kind.network = true) :
    validType .runner kind = true := by
  cases kind <;> first | rfl | cases h

theorem counted_ofType (h : validType .runner kind = true) :
    Counted (ofType kind) := by
  intro k w hp
  rw [of_decide_eq_true hp]
  exact h

theorem counted_runs {kind : JobType} (h : validType .runner kind = true) (worker : ID) :
    Counted (runs kind worker) := by
  intro k w hp
  rw [(runs_iff.mp hp).1]
  exact h

theorem counted_onNetwork (worker : ID) : Counted (onNetwork worker) := fun _ _ hp =>
  runnerType_of_network (onNetwork_iff.mp hp).2

theorem slotFree_live (hs : Typed s) {q : Quota} (hkind : validType .runner job.kind = true)
    (h : slotFree env s input q job = true) :
    (job.kind.network = true → live s env.finish (runs .configValidate input.workerID) = 0) ∧
    (job.kind = .configValidate → live s env.finish (onNetwork input.workerID) = 0) ∧
    (live s env.finish (ofType job.kind) : ℤ) < (slotLimits input q job.kind).2.1 ∧
    (live s env.finish (runs job.kind input.workerID) : ℤ) < (slotLimits input q job.kind).1 := by
  have hconfig : activeLeases env s (fun j => decide (j.workerID = some input.workerID) &&
      decide (j.kind = .configValidate)) =
        live s env.finish (runs .configValidate input.workerID) := by
    rw [← activeLeases_eq hs (counted_runs rfl input.workerID)]
    exact congrArg _ (funext fun j => Bool.and_comm _ _)
  have hnetwork : activeLeases env s (fun j => decide (j.workerID = some input.workerID) &&
      j.kind.network) = live s env.finish (onNetwork input.workerID) :=
    activeLeases_eq hs (counted_onNetwork input.workerID)
  have hglobal : activeLeases env s (fun j => decide (j.kind = job.kind)) =
      live s env.finish (ofType job.kind) :=
    activeLeases_eq hs (counted_ofType hkind)
  have hlocal : activeLeases env s (fun j => decide (j.kind = job.kind) &&
      decide (j.workerID = some input.workerID)) =
        live s env.finish (runs job.kind input.workerID) :=
    activeLeases_eq hs (counted_runs hkind input.workerID)
  simp only [slotFree, hconfig, hnetwork, hglobal, hlocal, Bool.and_eq_true, Bool.not_eq_true',
    Bool.and_eq_false_iff, decide_eq_true_eq, decide_eq_false_iff_not, not_lt] at h
  obtain ⟨⟨⟨⟨-, hoffline⟩, honline⟩, hg⟩, hl⟩ := h
  refine ⟨fun hnet => ?_, fun hconf => ?_, hg, hl⟩
  · rcases hoffline with hoff | hzero
    · rw [hnet] at hoff
      cases hoff
    · omega
  · rcases honline with hon | hzero
    · exact absurd hconf hon
    · omega

/-- A claim leases a job only into a free slot. -/
theorem pickCandidate_found {jobs : List Job} :
    ∀ {s : Store β}, (∀ job ∈ jobs, Candidate s job) →
      pickCandidate wire env input s jobs = .ok (s', some job) →
      Inherits env s s' ∧ Candidate s' job ∧
        ∃ q, env.quota job.scopeID = .ok q ∧ slotFree env s' input q job = true := by
  induction jobs with
  | nil =>
    intro s _ h
    cases h
  | cons head jobs ih =>
    intro s hcand h
    have hhead := hcand head mem_cons_self
    have hrest : ∀ other ∈ jobs, Candidate s other := fun other hother =>
      hcand other (mem_cons_of_mem _ hother)
    unfold pickCandidate at h
    split_ifs at h
    · split at h
      · cases h
      · cases h
      · next hone =>
        obtain ⟨hinherits, hfound⟩ :=
          ih (fun other hother => hhead.of_cancelChild (hrest other hother) hone) h
        exact ⟨(cancelChild_inherits hone).trans hinherits, hfound⟩
    · split at h
      · cases h
      · cases h
      · next q hq =>
        split_ifs at h with hfree
        · cases h
          exact ⟨.refl _, hhead, q, hq, hfree⟩
        · exact ih hrest h

theorem pickCandidate_none {jobs : List Job} :
    ∀ {s : Store β}, pickCandidate wire env input s jobs = .ok (s', none) → Inherits env s s' := by
  induction jobs with
  | nil =>
    intro s h
    cases h
    exact .refl _
  | cons head jobs ih =>
    intro s h
    unfold pickCandidate at h
    split_ifs at h
    · split at h
      · cases h
        exact markCancel_inherits head
      · cases h
      · next hone => exact (cancelChild_inherits hone).trans (ih h)
    · split at h
      · cases h
        exact .refl _
      · cases h
      · split_ifs at h
        · cases h
        · exact ih h

/-- Why a claim may lease a job: the API worker is not limited, a runner has a free slot. -/
def Admits (env : Env) (s : Store β) (input : ClaimInput) (job : Job) : Prop :=
  (input.executor = .apiWorker ∧ job.executor = .apiWorker) ∨
    (input.executor = .runner ∧
      ∃ q, env.quota job.scopeID = .ok q ∧ slotFree env s input q job = true)

/-- **Claims, inverted.** -/
theorem claim_cases {lease : Option Lease} (h : claim wire env s input = .ok (s', lease)) :
    Inherits env s s' ∨ ∃ s₁ job l, Inherits env s s₁ ∧ Candidate s₁ job ∧
      Admits env s₁ input job ∧ leaseJob wire env s₁ input.workerID job = .ok (s', l) := by
  unfold claim at h
  split_ifs at h
  cases hexecutor : input.executor with
  | apiWorker =>
    simp only [claimCandidate, hexecutor] at h
    split at h
    · cases h
    · next hc =>
      obtain ⟨rfl, -⟩ := Prod.mk.inj (Except.ok.inj hc)
      cases h
      exact .inl (.refl _)
    · next job hc =>
      obtain ⟨rfl, hjob⟩ := Prod.mk.inj (Except.ok.inj hc)
      split at h
      · cases h
      · next hl =>
        cases h
        refine .inr ⟨s, job, _, .refl _, oldestQueued_candidate hjob, .inl ⟨hexecutor, ?_⟩, hl⟩
        have hmem := (perm_insertionSort Job.before _).mem_iff.mp (mem_of_mem_head? hjob)
        have hp := of_mem_filter hmem
        simp only [Bool.and_eq_true, decide_eq_true_eq] at hp
        exact hp.1.2.1
  | runner =>
    simp only [claimCandidate, hexecutor] at h
    split at h
    · cases h
    · next hc =>
      cases h
      exact .inl (pickCandidate_none hc)
    · next job hc =>
      split at h
      · cases h
      · next hl =>
        cases h
        obtain ⟨hinherits, hcand, hfree⟩ :=
          pickCandidate_found (fun job hjob => claimHeads_candidate hjob) hc
        exact .inr ⟨_, job, _, hinherits, hcand, .inr ⟨hexecutor, hfree⟩, hl⟩

/-! ## The limits -/

def validRegistration (slots : Slots) : Bool :=
  slots.configValidate = 1 && 0 ≤ slots.connectivity && slots.connectivity ≤ 64 &&
    0 ≤ slots.downloadThroughput && slots.downloadThroughput ≤ 16

abbrev RegisteredSlots := {slots : Slots // validRegistration slots = true}

def Quota.concurrency (q : Quota) : JobType → ℤ
  | .connectivity => q.connectivityConcurrency
  | .downloadThroughput => q.throughputConcurrency
  | _ => 0

def registered (slots : RegisteredSlots) : JobType → ℤ
  | .connectivity => slots.val.connectivity
  | .downloadThroughput => slots.val.downloadThroughput
  | _ => 0

structure Admitted (q : Quota) (slots : ID → RegisteredSlots) (s : Store β) (now : Time) :
    Prop where
  total : ∀ kind, kind.network = true → (live s now (ofType kind) : ℤ) ≤ q.concurrency kind
  runner : ∀ kind worker, kind.network = true →
    (live s now (runs kind worker) : ℤ) ≤ min (q.concurrency kind) (registered (slots worker) kind)
  validation : ∀ worker, live s now (runs .configValidate worker) ≤ 1
  apart : ∀ worker, live s now (runs .configValidate worker) = 0 ∨ live s now (onNetwork worker) = 0

/-- A call reads the configured concurrency, whatever the scope. -/
def SteadyQuota (q : Quota) (env : Env) : Prop :=
  ∀ scope q', env.quota scope = .ok q' →
    q'.connectivityConcurrency = q.connectivityConcurrency ∧
      q'.throughputConcurrency = q.throughputConcurrency

/-- A runner claims with the slots that it is registered with. -/
def Registered (slots : ID → RegisteredSlots) (input : ClaimInput) : Prop :=
  input.executor = .runner → input.maximumSlots = (slots input.workerID).val

/-- Room for one more lease of a worker, which is what a claim counts. -/
structure Room (q : Quota) (slots : ID → RegisteredSlots) (s : Store β) (now : Time) (worker : ID)
    (kind : JobType) : Prop where
  config : kind.network = true → live s now (runs .configValidate worker) = 0
  network : kind = .configValidate → live s now (onNetwork worker) = 0
  total : kind.network = true → (live s now (ofType kind) : ℤ) < q.concurrency kind
  runner : kind.network = true →
    (live s now (runs kind worker) : ℤ) < min (q.concurrency kind) (registered (slots worker) kind)
  validation : kind = .configValidate → live s now (runs .configValidate worker) = 0

section Limits

variable {q : Quota} {slots : ID → RegisteredSlots} {call : Call β} {out : Store β × Option ID}

/-- The limits hold for whatever has no more live leases. -/
theorem Admitted.of_le (h : Admitted q slots s now)
    (hle : ∀ p, Counted p → live s' now' p ≤ live s now p) : Admitted q slots s' now' where
  total kind hkind := by
    have hbound := h.total kind hkind
    have := hle _ (counted_ofType (runnerType_of_network hkind))
    omega
  runner kind worker hkind := by
    have hbound := h.runner kind worker hkind
    have := hle _ (counted_runs (runnerType_of_network hkind) worker)
    omega
  validation worker := (hle _ (@counted_runs .configValidate rfl worker)).trans
    (h.validation worker)
  apart worker := by
    have hconfig := hle _ (@counted_runs .configValidate rfl worker)
    have hnetwork := hle _ (counted_onNetwork worker)
    rcases h.apart worker with hzero | hzero
    · left
      omega
    · right
      omega

theorem Admitted.empty (business : β) (hq : q.valid = true) (now : Time) :
    Admitted q slots (Store.empty business) now := by
  have hzero : ∀ p, live (Store.empty business) now p = 0 := fun p => rfl
  have hconcurrency : ∀ kind, 0 ≤ q.concurrency kind := by
    intro kind
    simp only [Quota.valid, Bool.and_eq_true, decide_eq_true_eq] at hq
    cases kind <;> simp only [Quota.concurrency] <;> omega
  have hregistered : ∀ worker kind, 0 ≤ registered (slots worker) kind := by
    intro worker kind
    have hslots := (slots worker).property
    simp only [validRegistration, Bool.and_eq_true, decide_eq_true_eq] at hslots
    cases kind <;> simp only [registered] <;> omega
  refine ⟨fun kind _ => ?_, fun kind worker _ => ?_, fun worker => ?_, fun worker => .inl (hzero _)⟩
  · rw [hzero]
    exact hconcurrency kind
  · rw [hzero]
    exact le_min (hconcurrency kind) (hregistered worker kind)
  · rw [hzero]
    exact Nat.zero_le 1

theorem ne_noSlots (slots : RegisteredSlots) : slots.val ≠ noSlots := by
  intro h
  have hslots := slots.property
  rw [h] at hslots
  cases hslots

theorem slotLimits_network {q' : Quota} {r : RegisteredSlots} (hslots : input.maximumSlots = r.val)
    (hquota : q'.connectivityConcurrency = q.connectivityConcurrency ∧
      q'.throughputConcurrency = q.throughputConcurrency)
    (hkind : kind.network = true) :
    (slotLimits input q' kind).1 = min (q.concurrency kind) (registered r kind) ∧
      (slotLimits input q' kind).2.1 = q.concurrency kind := by
  cases kind with
  | connectivity =>
    simp only [slotLimits, hslots, if_neg (ne_noSlots r), Quota.concurrency, registered, hquota.1,
      and_self]
  | downloadThroughput =>
    simp only [slotLimits, hslots, if_neg (ne_noSlots r), Quota.concurrency, registered, hquota.2,
      and_self]
  | _ => cases hkind

theorem live_le_of_free {b : ℤ} (hle : live s' now' p ≤ live s now p + if p kind w then 1 else 0)
    (hbound : (live s now p : ℤ) ≤ b) (hfree : p kind w = true → (live s now p : ℤ) < b) :
    (live s' now' p : ℤ) ≤ b := by
  split_ifs at hle with hp
  · have hlt := hfree hp
    omega
  · omega

/-- A runner's leases stay apart when it gets one more that does not mix with the others. -/
theorem apart_of_lease (hle : ∀ p, live s' now' p ≤ live s now p + if p kind w then 1 else 0)
    (h : live s now (runs .configValidate worker) = 0 ∨ live s now (onNetwork worker) = 0)
    (hconfig : kind.network = true → w = some worker → live s now (runs .configValidate worker) = 0)
    (hnetwork : kind = .configValidate → w = some worker → live s now (onNetwork worker) = 0) :
    live s' now' (runs .configValidate worker) = 0 ∨ live s' now' (onNetwork worker) = 0 := by
  have hnewConfig := hle (runs .configValidate worker)
  have hnewNetwork := hle (onNetwork worker)
  split_ifs at hnewConfig hnewNetwork with hc hn hn
  · obtain ⟨rfl, -⟩ := runs_iff.mp hc
    cases (onNetwork_iff.mp hn).2
  · obtain ⟨hkind, hworker⟩ := runs_iff.mp hc
    have hzero := hnetwork hkind hworker
    right
    omega
  · obtain ⟨hworker, hkind⟩ := onNetwork_iff.mp hn
    have hzero := hconfig hkind hworker
    left
    omega
  · omega

/-- There is room in whatever has no more live leases. -/
theorem Room.of_le (h : Room q slots s now worker kind)
    (hle : ∀ p, Counted p → live s' now' p ≤ live s now p) : Room q slots s' now' worker kind where
  config hkind :=
    Nat.le_zero.mp ((hle _ (@counted_runs .configValidate rfl worker)).trans_eq (h.config hkind))
  network hkind :=
    Nat.le_zero.mp ((hle _ (counted_onNetwork worker)).trans_eq (h.network hkind))
  total hkind := by
    have := hle _ (counted_ofType (runnerType_of_network hkind))
    exact (Nat.cast_le.mpr this).trans_lt (h.total hkind)
  runner hkind := by
    have := hle _ (counted_runs (runnerType_of_network hkind) worker)
    exact (Nat.cast_le.mpr this).trans_lt (h.runner hkind)
  validation hkind :=
    Nat.le_zero.mp
      ((hle _ (@counted_runs .configValidate rfl worker)).trans_eq (h.validation hkind))

theorem Room.of_unlimited (hkind : validType .runner kind = false) :
    Room q slots s now worker kind := by
  have hnetwork : kind.network = true → False := fun hnet => by
    rw [runnerType_of_network hnet] at hkind
    cases hkind
  have hconfig : kind = .configValidate → False := fun hconf => by
    rw [hconf] at hkind
    cases hkind
  exact ⟨fun h => (hnetwork h).elim, fun h => (hconfig h).elim, fun h => (hnetwork h).elim,
    fun h => (hnetwork h).elim, fun h => (hconfig h).elim⟩

theorem Room.of_slotFree (hs : Typed s) {q' : Quota}
    (hslots : input.maximumSlots = (slots input.workerID).val)
    (hquota : q'.connectivityConcurrency = q.connectivityConcurrency ∧
      q'.throughputConcurrency = q.throughputConcurrency)
    (hfree : slotFree env s input q' job = true) :
    Room q slots s env.finish input.workerID job.kind := by
  cases hkind : validType .runner job.kind with
  | false => exact .of_unlimited hkind
  | true =>
    obtain ⟨hconfig, hnetwork, hglobal, hlocal⟩ := slotFree_live hs hkind hfree
    refine ⟨hconfig, hnetwork, fun hnet => ?_, fun hnet => ?_, fun hconf => ?_⟩
    · rw [(slotLimits_network hslots hquota hnet).2] at hglobal
      exact hglobal
    · rw [(slotLimits_network hslots hquota hnet).1] at hlocal
      exact hlocal
    · rw [hconf] at hlocal
      have hone : (live s env.finish (runs .configValidate input.workerID) : ℤ) < 1 := hlocal
      omega

theorem Room.of_admits (hs : Typed s) (hslots : Registered slots input) (hquota : SteadyQuota q env)
    (htyped : validType job.executor job.kind = true) (h : Admits env s input job) :
    Room q slots s env.finish input.workerID job.kind := by
  rcases h with ⟨-, hapi⟩ | ⟨hrunner, q', hq', hfree⟩
  · refine .of_unlimited ?_
    by_contra hkind
    have hexecutor := executor_of_runnerType htyped (eq_true_of_ne_false hkind)
    rw [hapi] at hexecutor
    cases hexecutor
  · exact .of_slotFree hs (hslots hrunner) (hquota _ _ hq') hfree

/-- **One more lease.** A job is leased within the limits where there is room for it. -/
theorem Admitted.lease (h : Admitted q slots s now) {row : Job} {l : Lease}
    (hrow : s.jobs.find? job.id = some row) (hroom : Room q slots s now worker row.kind)
    (hlease : leaseJob wire env s worker job = .ok (s', l)) : Admitted q slots s' now := by
  have hle : ∀ p, live s' now p ≤ live s now p + if p row.kind (some worker) then 1 else 0 :=
    live_leaseJob hlease hrow now
  refine ⟨fun kind hnet => ?_, fun kind w hnet => ?_, fun w => ?_, fun w => ?_⟩
  · refine live_le_of_free (hle _) (h.total kind hnet) fun hp => ?_
    obtain rfl := of_decide_eq_true hp
    exact hroom.total hnet
  · refine live_le_of_free (hle _) (h.runner kind w hnet) fun hp => ?_
    obtain ⟨rfl, hworker⟩ := runs_iff.mp hp
    obtain rfl := Option.some.inj hworker
    exact hroom.runner hnet
  · have hbound : (live s now (runs .configValidate w) : ℤ) ≤ 1 :=
      Nat.cast_le.mpr (h.validation w)
    have hone := live_le_of_free (hle _) hbound fun hp => by
      obtain ⟨hconf, hworker⟩ := runs_iff.mp hp
      obtain rfl := Option.some.inj hworker
      rw [hroom.validation hconf]
      exact zero_lt_one
    omega
  · refine apart_of_lease hle (h.apart w) (fun hnet hworker => ?_) fun hconf hworker => ?_
    · obtain rfl := Option.some.inj hworker
      exact hroom.config hnet
    · obtain rfl := Option.some.inj hworker
      exact hroom.network hconf

theorem Candidate.row_of_lease (hcand : Candidate s job) {l : Lease}
    (hlease : leaseJob wire env s worker job = .ok (s', l)) : s.jobs.find? job.id = some job := by
  obtain ⟨row, hrow, hcurrent⟩ := hcand.current
  obtain ⟨row', -, hrow', hqueued, -⟩ := leaseJob_ok hlease
  rcases hcurrent with rfl | hcanceled
  · exact hrow
  · rw [hrow] at hrow'
    cases hrow'
    rw [hcanceled] at hqueued
    cases hqueued

/-! ## Calls -/

theorem exec_inherits {ran : Option ID} (hcall : ∀ input, call ≠ .claim input)
    (h : exec wire env s call = .ok (s', ran)) : Inherits env s s' := by
  cases call <;> obtain ⟨out, hout, heq⟩ := Except.of_map h <;> cases heq
  case enqueue => exact enqueueTx_inherits hout
  case createBatch => exact createBatchTx_inherits hout
  case claim input => exact absurd rfl (hcall input)
  case reapExpired => exact reapAll_inherits hout
  case heartbeat => exact heartbeat_inherits hout
  case event => exact event_inherits hout
  case complete => exact completeTx_inherits hout
  case cancel => exact cancel_inherits hout

theorem Typed.exec (hs : Typed s) (h : exec wire env s call = .ok out) : Typed out.1 := by
  by_cases hclaim : ∃ input, call = .claim input
  · obtain ⟨input, rfl⟩ := hclaim
    obtain ⟨⟨s₁, lease⟩, hok, rfl⟩ := Except.of_map h
    rcases claim_cases hok with hinherits | ⟨s₂, job, l, hinherits, -, -, hlease⟩
    · exact hs.inherits hinherits
    · exact (hs.inherits hinherits).leaseJob hlease
  · exact hs.inherits (exec_inherits (fun input hinput => hclaim ⟨input, hinput⟩) h)

theorem live_exec (hs : Typed s) (hcall : ∀ input, call = .claim input → input.executor ≠ .runner)
    (h : exec wire env s call = .ok out) (hnow : env.start ≤ now) (hp : Counted p) :
    live out.1 now p ≤ live s env.start p := by
  by_cases hclaim : ∃ input, call = .claim input
  · obtain ⟨input, rfl⟩ := hclaim
    obtain ⟨⟨s₁, lease⟩, hok, rfl⟩ := Except.of_map h
    rcases claim_cases hok with hinherits | ⟨s₂, job, l, hinherits, hcand, hadmits, hlease⟩
    · exact live_le hinherits hnow p
    · have hrow := hcand.row_of_lease hlease
      rcases hadmits with ⟨-, hapi⟩ | ⟨hrunner, -⟩
      · have hother : ¬ p job.kind (some input.workerID) = true := fun hpj => by
          have htyped := hs.inherits hinherits _ job hrow
          have hexecutor := executor_of_runnerType htyped (hp _ _ hpj)
          rw [hapi] at hexecutor
          cases hexecutor
        have hadded := live_leaseJob hlease hrow now p
        rw [if_neg hother] at hadded
        exact hadded.trans (live_le hinherits hnow p)
      · exact absurd hrunner (hcall input rfl)
  · exact live_le (exec_inherits (fun input hinput => hclaim ⟨input, hinput⟩) h) hnow p

/-- **One call.** A call that nothing overlaps keeps the limits. -/
theorem Admitted.exec (h : Admitted q slots s env.start) (hs : Typed s)
    (hclock : env.start ≤ env.finish) (hnow : env.finish ≤ now)
    (hslots : ∀ input, call = .claim input → Registered slots input) (hquota : SteadyQuota q env)
    (hexec : exec wire env s call = .ok out) :
    Admitted q slots out.1 now := by
  have hstart := hclock.trans hnow
  by_cases hclaim : ∃ input, call = .claim input ∧ input.executor = .runner
  · obtain ⟨input, rfl, -⟩ := hclaim
    obtain ⟨⟨s₁, lease⟩, hok, rfl⟩ := Except.of_map hexec
    rcases claim_cases hok with hinherits | ⟨s₂, job, l, hinherits, hcand, hadmits, hlease⟩
    · exact h.of_le fun p _ => live_le hinherits hstart p
    · have hs₂ := hs.inherits hinherits
      have hrow := hcand.row_of_lease hlease
      have hroom := Room.of_admits hs₂ (hslots input rfl) hquota (hs₂ _ job hrow) hadmits
      have h₂ : Admitted q slots s₂ now := h.of_le fun p _ => live_le hinherits hstart p
      exact h₂.lease hrow (hroom.of_le fun p _ => live_mono hnow p) hlease
  · refine h.of_le fun p hp => live_exec hs (fun input hinput hrunner => ?_) hexec hstart hp
    exact hclaim ⟨input, hinput, hrunner⟩

end Limits

end ProxyLoom.Jobs
