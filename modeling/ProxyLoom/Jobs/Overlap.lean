import ProxyLoom.Jobs.Admission
import ProxyLoom.Jobs.Ledger

/-!
# Calls that overlap

What a transaction writes is seen by others when it commits, not when its statements run. Two calls
matter for the admission of runners, and are taken apart here:

* a heartbeat checks the lease when its `UPDATE` runs, and the new time is seen at its commit;
* a runner's claim counts the live leases under the admission lock, and its lease is seen at its
  commit, where the lock is released. Other calls commit in between.

A call that would write a row which an open transaction has locked waits, or skips the row.
-/

namespace ProxyLoom.Jobs

open IR RunnerProtocol List

variable {β : Type} {wire : Wire} {env : Env} {s s' : Store β} {input : ClaimInput} {job : Job}
  {jobs : List Job}

/-! ## Open transactions -/

structure Beat where
  env : Env
  id : LeaseIdentity

def Beat.write (b : Beat) (s : Store β) : Store β :=
  { s with
    jobs := s.jobs.modify b.id.jobID (Job.beat (b.env.testRevoked b.id.jobID) b.env.finish)
      (Job.beat_id _ _) }

/-- The revoked candidates that `pickCandidate` cancels on its way. -/
def pickRevoked (wire : Wire) (env : Env) (input : ClaimInput) : Store β → List Job → List Job
  | _, [] => []
  | s, job :: jobs =>
    if env.testRevoked job.id then
      match cancelChild wire env s job with
      | .error _ => []
      | .ok s => job :: pickRevoked wire env input s jobs
    else
      match env.quota job.scopeID with
      | .error _ => []
      | .ok q => if slotFree env s input q job then [] else pickRevoked wire env input s jobs

/-- A runner's claim that holds the admission lock and has counted: the candidates, which it has
locked, the revoked ones among them, and the job it is going to lease. -/
structure Choice where
  input : ClaimInput
  heads : List Job
  revoked : List Job
  job : Job

def grantTx (wire : Wire) (env : Env) (s : Store β) (c : Choice) :
    Except JobError (Store β × Lease) := do
  let s ← cancelChildren wire env s c.revoked
  leaseJob wire env s c.input.workerID c.job

/-- The committed world, the heartbeats that are not committed yet, and the holder of the admission
lock. -/
structure Traffic (β : Type) where
  world : World β
  beats : List Beat
  choice : Option Choice

def beatRows (beats : List Beat) : List ID := beats.map fun b => b.id.jobID

def Traffic.rows (t : Traffic β) : List ID :=
  beatRows t.beats ++ (t.choice.toList.flatMap fun c => c.heads.map Job.id)

def LeavesRows (rows : List ID) (s s' : Store β) : Prop :=
  ∀ k ∈ rows, s'.jobs.find? k = s.jobs.find? k

inductive Turn (β : Type) where
  /-- A whole call. -/
  | call (l : Label β)
  /-- A heartbeat checks its lease. -/
  | check (env : Env) (id : LeaseIdentity)
  /-- A heartbeat commits. -/
  | publish (b : Beat) (now : Time)
  /-- A runner's claim takes the lock, counts and chooses. -/
  | choose (env : Env) (input : ClaimInput)
  /-- A runner's claim leases the job, commits and releases the lock. -/
  | grant (env : Env)

inductive Traffic.Step (wire : Wire) : Traffic β → Turn β → Traffic β → Prop where
  | call {t : Traffic β} {l : Label β} : t.world.clock ≤ l.env.start → l.env.start ≤ l.env.finish →
    (∀ input, l.call = .claim input → input.executor = .runner → t.choice = none) →
    LeavesRows t.rows t.world.store (t.world.next wire l).store →
    Step wire t (.call l) { t with world := t.world.next wire l }
  | check {t : Traffic β} {env : Env} {id : LeaseIdentity} {out : Store β × Heartbeat} :
    t.world.clock ≤ env.start → env.start ≤ env.finish → id.jobID ∉ t.rows →
    heartbeat env t.world.store id = .ok out →
    Step wire t (.check env id)
      { t with world := { t.world with clock := env.finish }, beats := ⟨env, id⟩ :: t.beats }
  | publish {t : Traffic β} {b : Beat} {earlier later : List Beat} {now : Time} :
    t.beats = earlier ++ b :: later → t.world.clock ≤ now →
    Step wire t (.publish b now)
      { t with
        world := { t.world with clock := now, store := b.write t.world.store }
        beats := earlier ++ later }
  | choose {t : Traffic β} {env : Env} {input : ClaimInput} {s : Store β} {job : Job} :
    t.choice = none → t.world.clock ≤ env.start → env.start ≤ env.finish →
    input.valid = true → input.executor = .runner →
    pickCandidate wire env input t.world.store (claimHeads env t.world.store input) =
      .ok (s, some job) →
    -- candidates that others have locked are skipped
    (∀ j ∈ claimHeads env t.world.store input, j.id ∉ t.rows) →
    Step wire t (.choose env input)
      { t with
        world := { t.world with clock := env.finish }
        choice := some ⟨input, claimHeads env t.world.store input,
          pickRevoked wire env input t.world.store (claimHeads env t.world.store input), job⟩ }
  | grant {t : Traffic β} {env : Env} {c : Choice} {w : World β} : t.choice = some c →
    t.world.clock ≤ env.start → env.start ≤ env.finish →
    w = t.world.after env.finish ((grantTx wire env t.world.store c).map fun out => (out.1, none)) →
    LeavesRows (beatRows t.beats) t.world.store w.store →
    Step wire t (.grant env) { t with world := w, choice := none }

def traffic (wire : Wire) : Machine (Traffic β) (Turn β) where
  init t := (∃ business, t.world.store = Store.empty business ∧ t.world.callbacks = []) ∧
    t.beats = [] ∧ t.choice = none
  step := Traffic.Step wire

/-! ## A claim in two parts -/

theorem pickRevoked_subset :
    ∀ {s : Store β}, pickRevoked wire env input s jobs ⊆ jobs := by
  induction jobs with
  | nil => exact fun {s} => List.Subset.refl _
  | cons head jobs ih =>
    intro s
    have hrest : ∀ {s : Store β}, pickRevoked wire env input s jobs ⊆ head :: jobs := fun {s} =>
      List.Subset.trans ih (subset_cons_self _ _)
    unfold pickRevoked
    split_ifs
    · split
      · exact nil_subset _
      · exact cons_subset_cons _ ih
    · split
      · exact nil_subset _
      · split_ifs
        · exact nil_subset _
        · exact hrest

/-- The choice of a claim is one of the candidates, and the cancellations are what it wrote. -/
theorem pickCandidate_revoked :
    ∀ {s : Store β}, pickCandidate wire env input s jobs = .ok (s', some job) →
      job ∈ jobs ∧
        cancelChildren wire env s (pickRevoked wire env input s jobs) = .ok s' := by
  induction jobs with
  | nil =>
    intro s h
    cases h
  | cons head jobs ih =>
    intro s h
    unfold pickCandidate at h
    unfold pickRevoked
    split_ifs at h ⊢
    · split at h
      · cases h
      · cases h
      · next s₁ hone =>
        obtain ⟨hmem, hfold⟩ := ih h
        rw [hone]
        refine ⟨mem_cons_of_mem _ hmem, ?_⟩
        unfold cancelChildren
        rw [hone]
        exact hfold
    · split at h
      · cases h
      · cases h
      · next q hq =>
        rw [hq]
        dsimp only
        split_ifs at h ⊢
        · cases h
          exact ⟨mem_cons_self, rfl⟩
        · obtain ⟨hmem, hfold⟩ := ih h
          exact ⟨mem_cons_of_mem _ hmem, hfold⟩

theorem Candidate.idle {row : Job} (h : Candidate s job) (hrow : s.jobs.find? job.id = some row)
    (now : Time) : row.leaseValid now = false := by
  have hinactive : row.state.active = false := by
    obtain ⟨row', hrow', rfl | hcanceled⟩ := h.current
    · rw [hrow] at hrow'
      cases hrow'
      rw [h.queued]
      rfl
    · rw [hrow] at hrow'
      cases hrow'
      rw [hcanceled]
      rfl
  unfold Job.leaseValid
  rw [hinactive, Bool.false_and]

theorem Candidate.live_cancelChild (h : Candidate s job)
    (hcancel : cancelChild wire env s job = .ok s') (now : Time) (p : JobType → Option ID → Bool) :
    live s now p ≤ live s' now p := by
  have hsubset : liveIDs s now p ⊆ [] ++ liveIDs s' now p := by
    intro k hk
    obtain ⟨j, hj, hlive, hp⟩ := mem_liveIDs.mp hk
    have hne : k ≠ job.id := by
      rintro rfl
      rw [h.idle hj now] at hlive
      cases hlive
    rw [← cancelChild_find?_ne hcancel hne] at hj
    exact mem_liveIDs.mpr ⟨j, hj, hlive, hp⟩
  have hle := live_le_of_subset hsubset
  rw [length_nil] at hle
  omega

theorem cancelChildren_candidates {other : Job} :
    ∀ {s : Store β}, (∀ job ∈ jobs, Candidate s job) → Candidate s other →
      cancelChildren wire env s jobs = .ok s' →
      Candidate s' other ∧ ∀ now p, live s now p ≤ live s' now p := by
  induction jobs with
  | nil =>
    intro s _ hother h
    cases h
    exact ⟨hother, fun _ _ => le_rfl⟩
  | cons job jobs ih =>
    intro s hjobs hother h
    have hjob := hjobs job mem_cons_self
    unfold cancelChildren at h
    split at h
    · cases h
    · next hone =>
      have hrest : ∀ j ∈ jobs, Candidate _ j := fun j hj =>
        hjob.of_cancelChild (hjobs j (mem_cons_of_mem _ hj)) hone
      obtain ⟨hcand, hle⟩ := ih hrest (hjob.of_cancelChild hother hone) h
      exact ⟨hcand, fun now p => (hjob.live_cancelChild hone now p).trans (hle now p)⟩

/-- **Claims in two parts.** A claim that nothing overlaps is a choice that is granted at once. -/
theorem grantTx_of_pick (hvalid : input.valid = true) (hrunner : input.executor = .runner)
    (h : pickCandidate wire env input s (claimHeads env s input) = .ok (s', some job)) :
    claim wire env s input =
      (grantTx wire env s ⟨input, claimHeads env s input,
        pickRevoked wire env input s (claimHeads env s input), job⟩).map
        fun out => (out.1, some out.2) := by
  have hcandidate : claimCandidate wire env s input = .ok (s', some job) := by
    simp only [claimCandidate, hrunner]
    exact h
  unfold claim grantTx
  rw [if_pos hvalid, hcandidate]
  dsimp only
  rw [(pickCandidate_revoked h).2]
  change _ = (leaseJob wire env s' input.workerID job).map _
  cases leaseJob wire env s' input.workerID job <;> rfl

/-! ## The limits -/

/-- The settings that a turn reads do not change: the concurrency of the quota, and the slots that
each runner is registered with. -/
def Turn.Settled (q : Quota) (slots : ID → RegisteredSlots) : Turn β → Prop
  | .call l => SteadyQuota q l.env ∧ ∀ input, l.call = .claim input → Registered slots input
  | .choose env input => SteadyQuota q env ∧ Registered slots input
  | .check .. | .publish .. | .grant .. => True

/-- A heartbeat commits while the lease in its row is still live. -/
def Turn.Prompt (t : Traffic β) : Turn β → Prop
  | .publish b now => ∀ row, t.world.store.jobs.find? b.id.jobID = some row →
      row.leaseValid now = true
  | .call _ | .check .. | .choose .. | .grant _ => True

section Limits

variable {q : Quota} {slots : ID → RegisteredSlots} {t : Traffic β} {c : Choice}

/-- A claim in flight: its candidates are still there, and so is the room that it counted. -/
structure Chosen (q : Quota) (slots : ID → RegisteredSlots) (w : World β) (c : Choice) : Prop where
  revoked : c.revoked ⊆ c.heads
  job : c.job ∈ c.heads
  candidates : ∀ j ∈ c.heads, Candidate w.store j
  room : ∀ now, w.clock ≤ now → Room q slots w.store now c.input.workerID c.job.kind

theorem Candidate.congr (h : Candidate s job) (hrow : s'.jobs.find? job.id = s.jobs.find? job.id) :
    Candidate s' job := by
  refine ⟨h.queued, h.notCanceled, ?_⟩
  rw [hrow]
  exact h.current

/-- A claim in flight outlasts what adds nothing to the counts and leaves its candidates. -/
theorem Chosen.later {w w' : World β} (h : Chosen q slots w c)
    (hrows : LeavesRows (c.heads.map Job.id) w.store w'.store)
    (hle : ∀ now p, w'.clock ≤ now → Counted p →
      ∃ now', w.clock ≤ now' ∧ live w'.store now p ≤ live w.store now' p) :
    Chosen q slots w' c where
  revoked := h.revoked
  job := h.job
  candidates j hj := (h.candidates j hj).congr (hrows _ (mem_map_of_mem hj))
  room now hnow := by
    refine (h.room w.clock le_rfl).of_le fun p hp => ?_
    obtain ⟨now', hnow', hcount⟩ := hle now p hnow hp
    exact hcount.trans (live_mono hnow' p)

/-- Typed rows, the limits from now on, and a claim in flight that has room. -/
structure Sound (q : Quota) (slots : ID → RegisteredSlots) (t : Traffic β) : Prop where
  typed : Typed t.world.store
  admitted : ∀ now, t.world.clock ≤ now → Admitted q slots t.world.store now
  locks : ∀ c ∈ t.choice, ∀ j ∈ c.heads, j.id ∉ beatRows t.beats
  chosen : ∀ c ∈ t.choice, Chosen q slots t.world c

theorem mem_rows_of_beat {k : ID} (h : k ∈ beatRows t.beats) : k ∈ t.rows :=
  mem_append_left _ h

theorem mem_rows_of_head (t : Traffic β) (hc : c ∈ t.choice) {k : ID}
    (hk : k ∈ c.heads.map Job.id) : k ∈ t.rows :=
  mem_append_right _ (mem_flatMap.mpr ⟨c, Option.mem_toList.mpr hc, hk⟩)

theorem Sound.call {l : Label β} (h : Sound q slots t) (hstart : t.world.clock ≤ l.env.start)
    (hfinish : l.env.start ≤ l.env.finish)
    (hlock : ∀ input, l.call = .claim input → input.executor = .runner → t.choice = none)
    (hrows : LeavesRows t.rows t.world.store (t.world.next wire l).store)
    (hsettled : (Turn.call l).Settled q slots) :
    Sound q slots { t with world := t.world.next wire l } := by
  unfold World.next at hrows ⊢
  cases hexec : exec wire l.env t.world.store l.call with
  | error e =>
    have hclock : t.world.clock ≤ l.env.finish := hstart.trans hfinish
    refine ⟨h.typed, fun now hnow => h.admitted now (hclock.trans hnow), h.locks, fun c hc => ?_⟩
    exact (h.chosen c hc).later (fun _ _ => rfl) fun now p hnow _ =>
      ⟨now, hclock.trans hnow, le_rfl⟩
  | ok out =>
    rw [hexec] at hrows
    refine ⟨h.typed.exec hexec, fun now hnow => ?_, h.locks, fun c hc => ?_⟩
    · exact (h.admitted _ hstart).exec h.typed hfinish hnow hsettled.2 hsettled.1 hexec
    · refine (h.chosen c hc).later (fun k hk => hrows k (mem_rows_of_head t hc hk)) ?_
      intro now p hnow hp
      refine ⟨l.env.start, hstart, live_exec h.typed (fun input hinput hrunner => ?_) hexec
        (hfinish.trans hnow) hp⟩
      have hnone := hlock input hinput hrunner
      rw [hnone] at hc
      cases hc

theorem Sound.check {env : Env} {id : LeaseIdentity} (h : Sound q slots t)
    (hstart : t.world.clock ≤ env.start) (hfinish : env.start ≤ env.finish)
    (hfree : id.jobID ∉ t.rows) :
    Sound q slots
      { t with world := { t.world with clock := env.finish }, beats := ⟨env, id⟩ :: t.beats } := by
  have hclock : t.world.clock ≤ env.finish := hstart.trans hfinish
  refine ⟨h.typed, fun now hnow => h.admitted now (hclock.trans hnow), fun c hc j hj => ?_,
    fun c hc => ?_⟩
  · intro hmem
    rcases mem_cons.mp hmem with heq | hmem
    · have hlocked : j.id ∈ t.rows := mem_rows_of_head t hc (mem_map_of_mem hj)
      rw [heq] at hlocked
      exact hfree hlocked
    · exact h.locks c hc j hj hmem
  · exact (h.chosen c hc).later (fun _ _ => rfl) fun now p hnow _ =>
      ⟨now, hclock.trans hnow, le_rfl⟩

theorem Beat.write_inherits {b : Beat} {now : Time}
    (h : ∀ row, s.jobs.find? b.id.jobID = some row → row.leaseValid now = true) :
    Inherits { b.env with start := now } s (b.write s) := by
  refine .modify (Job.beat_id _ _) rfl fun row hrow => ?_
  exact ⟨rfl, rfl, fun _ _ _ => ⟨h row hrow, rfl⟩⟩

theorem Sound.publish {t : Traffic β} {b : Beat} {earlier later : List Beat} {now : Time}
    (h : Sound q slots t) (hbeats : t.beats = earlier ++ b :: later)
    (hclock : t.world.clock ≤ now) (hprompt : (Turn.publish b now).Prompt t) :
    Sound q slots
      { t with
        world := { t.world with clock := now, store := b.write t.world.store }
        beats := earlier ++ later } := by
  have hinherits := Beat.write_inherits hprompt
  have hsubset : beatRows (earlier ++ later) ⊆ beatRows t.beats := by
    rw [hbeats]
    exact map_subset _ ((sublist_cons_self b later).append_left earlier).subset
  have hbeat : b.id.jobID ∈ beatRows t.beats := by
    rw [hbeats]
    exact mem_map_of_mem (mem_append_right _ mem_cons_self)
  refine ⟨h.typed.inherits hinherits, fun now' hnow' => ?_,
    fun c hc j hj hmem => h.locks c hc j hj (hsubset hmem), fun c hc => ?_⟩
  · exact (h.admitted now hclock).of_le fun p _ => live_le hinherits hnow' p
  · refine (h.chosen c hc).later (fun k hk => ?_) fun now' p hnow' _ =>
      ⟨now, hclock, live_le hinherits hnow' p⟩
    obtain ⟨j, hj, rfl⟩ := mem_map.mp hk
    refine Table.find?_modify_ne _ _ (Job.beat_id _ _) fun heq => ?_
    rw [← heq] at hbeat
    exact h.locks c hc j hj hbeat

theorem Sound.choose {s : Store β} (h : Sound q slots t) (hstart : t.world.clock ≤ env.start)
    (hfinish : env.start ≤ env.finish) (hrunner : input.executor = .runner)
    (hpick : pickCandidate wire env input t.world.store (claimHeads env t.world.store input) =
      .ok (s, some job))
    (hfree : ∀ j ∈ claimHeads env t.world.store input, j.id ∉ t.rows)
    (hsettled : (Turn.choose (β := β) env input).Settled q slots) :
    Sound q slots
      { t with
        world := { t.world with clock := env.finish }
        choice := some ⟨input, claimHeads env t.world.store input,
          pickRevoked wire env input t.world.store (claimHeads env t.world.store input),
          job⟩ } := by
  have hclock : t.world.clock ≤ env.finish := hstart.trans hfinish
  have hcandidates : ∀ j ∈ claimHeads env t.world.store input, Candidate t.world.store j :=
    fun j hj => claimHeads_candidate hj
  obtain ⟨hmem, hrevoked⟩ := pickCandidate_revoked hpick
  obtain ⟨hinherits, -, q', hq', hslot⟩ := pickCandidate_found hcandidates hpick
  have hle := (cancelChildren_candidates (fun j hj => hcandidates j (pickRevoked_subset hj))
    (hcandidates job hmem) hrevoked).2
  have hroom := Room.of_slotFree (h.typed.inherits hinherits) (hsettled.2 hrunner)
    (hsettled.1 _ _ hq') hslot
  refine ⟨h.typed, fun now hnow => h.admitted now (hclock.trans hnow), fun c hc j hj hbeat => ?_,
    fun c hc => ?_⟩
  · cases hc
    exact hfree j hj (mem_rows_of_beat hbeat)
  · cases hc
    refine ⟨pickRevoked_subset, hmem, hcandidates, fun now hnow => ?_⟩
    exact hroom.of_le fun p _ => (live_mono hnow p).trans (hle _ p)

theorem Sound.grant {w : World β} (h : Sound q slots t) (hc : t.choice = some c)
    (hstart : t.world.clock ≤ env.start) (hfinish : env.start ≤ env.finish)
    (hw : w = t.world.after env.finish ((grantTx wire env t.world.store c).map fun out =>
      (out.1, none))) :
    Sound q slots { t with world := w, choice := none } := by
  have hclock : t.world.clock ≤ env.finish := hstart.trans hfinish
  have hchosen := h.chosen c hc
  subst hw
  cases hgrant : grantTx wire env t.world.store c with
  | error e =>
    exact ⟨h.typed, fun now hnow => h.admitted now (hclock.trans hnow), fun c hc => (by cases hc),
      fun c hc => by cases hc⟩
  | ok out =>
    obtain ⟨s₁, hcancel, hlease⟩ := Except.of_bind hgrant
    have hinherits : Inherits env t.world.store s₁ := cancelChildren_inherits hcancel
    have hcand := (cancelChildren_candidates (fun j hj => hchosen.candidates j (hchosen.revoked hj))
      (hchosen.candidates _ hchosen.job) hcancel).1
    have hrow := hcand.row_of_lease hlease
    refine ⟨(h.typed.inherits hinherits).leaseJob hlease, fun now hnow => ?_,
      fun c hc => (by cases hc), fun c hc => by cases hc⟩
    have hle : ∀ p, Counted p → live s₁ now p ≤ live t.world.store env.start p := fun p _ =>
      live_le hinherits (hfinish.trans hnow) p
    exact ((h.admitted _ hstart).of_le hle).lease hrow ((hchosen.room _ hstart).of_le hle) hlease

/-- **Step.** -/
theorem Sound.step {t' : Traffic β} {turn : Turn β} (h : Sound q slots t)
    (hsettled : turn.Settled q slots) (hprompt : turn.Prompt t)
    (hstep : (traffic wire).step t turn t') : Sound q slots t' := by
  cases hstep with
  | call hstart hfinish hlock hrows => exact h.call hstart hfinish hlock hrows hsettled
  | check hstart hfinish hfree _ => exact h.check hstart hfinish hfree
  | publish hbeats hclock => exact h.publish hbeats hclock hprompt
  | choose _ hstart hfinish _ hrunner hpick hfree =>
    exact h.choose hstart hfinish hrunner hpick hfree hsettled
  | grant hc hstart hfinish hw _ => exact h.grant hc hstart hfinish hw

/-- **Admission.** With constant settings, and heartbeats that commit before the lease runs out, the
limits hold after every run, at every time from then on. -/
theorem admission_limits (wire : Wire) {q : Quota} (hq : q.valid = true)
    (slots : ID → RegisteredSlots) {t : Traffic β}
    (ht : ((traffic wire).restrict fun t turn => turn.Settled q slots ∧ turn.Prompt t).Reach t)
    {now : Time} (hnow : t.world.clock ≤ now) : Admitted q slots t.world.store now := by
  have hsound : Sound q slots t := by
    refine ht.invariant (P := Sound q slots) ?_ ?_
    · rintro t ⟨⟨business, hstore, -⟩, -, hchoice⟩
      refine ⟨?_, fun now _ => ?_, ?_, ?_⟩
      · intro k j hj
        rw [hstore] at hj
        cases hj
      · rw [hstore]
        exact Admitted.empty business hq now
      · intro c hc
        rw [hchoice] at hc
        cases hc
      · intro c hc
        rw [hchoice] at hc
        cases hc
    · intro t turn t' _ ih hstep
      exact ih.step hstep.1.1 hstep.1.2 hstep.2
  exact hsound.admitted now hnow

end Limits

/-! ## One runner, one slot

Two connectivity tests are queued and one of them may run at a time. A runner leases the first, and
sends a heartbeat. -/

def singleQuota : Quota := { defaultQuota with connectivityConcurrency := 1 }

def testSlots : RegisteredSlots := ⟨⟨1, 4, 1⟩, by decide⟩

def singleEnv (now : Time) (fresh : ID) : Env :=
  { instantEnv now fresh with quota := fun _ => .ok singleQuota }

def secondJob : ID := "00000000-0000-4000-8000-000000000021"

def secondRunner : ID := "00000000-0000-4000-8000-000000000022"

def queueTest (job : ID) (fresh : ID) : Label Unit where
  env := singleEnv 1 fresh
  call := .enqueue ⟨some job, refreshScope, none, .runner, .connectivity, [0],
    some "00000000-0000-4000-8000-000000000005"⟩

def claimTest (runner : ID) (now : Time) (fresh : ID) : Label Unit where
  env := singleEnv now fresh
  call := .claim ⟨.runner, runner, [.connectivity], ["00000000-0000-4000-8000-000000000005"],
    ⟨1, 4, 1⟩, ⟨1, 4, 1⟩⟩

def queuedTests : World Unit :=
  ((emptyWorld ()).next testWire (queueTest refreshJob "00000000-0000-4000-8000-000000000031")).next
    testWire (queueTest secondJob "00000000-0000-4000-8000-000000000032")

def leasedTest : World Unit :=
  queuedTests.next testWire
    (claimTest refreshWorker 2 "00000000-0000-4000-8000-000000000033")

theorem settled_queueTest (job fresh : ID) :
    (Turn.call (queueTest job fresh)).Settled singleQuota fun _ => testSlots := by
  refine ⟨fun scope q' hq' => ?_, fun input hinput => by cases hinput⟩
  cases hq'
  exact ⟨rfl, rfl⟩

theorem settled_claimTest (runner : ID) (now : Time) (fresh : ID) :
    (Turn.call (claimTest runner now fresh)).Settled singleQuota fun _ => testSlots := by
  refine ⟨fun scope q' hq' => ?_, fun input hinput _ => ?_⟩
  · cases hq'
    exact ⟨rfl, rfl⟩
  · cases hinput
    rfl

theorem reach_call {R : Traffic β → Turn β → Prop} {w : World β}
    (hw : ((traffic wire).restrict R).Reach ⟨w, [], none⟩) (l : Label β)
    (hR : R ⟨w, [], none⟩ (.call l)) (hstart : w.clock ≤ l.env.start)
    (hfinish : l.env.start ≤ l.env.finish) :
    ((traffic wire).restrict R).Reach ⟨w.next wire l, [], none⟩ :=
  .step (l := .call l) hw ⟨hR, .call hstart hfinish (fun _ _ _ => rfl) fun _ hk => by cases hk⟩

theorem reach_leasedTest {R : Traffic Unit → Turn Unit → Prop}
    (hR : ∀ t l, (Turn.call l).Settled singleQuota (fun _ => testSlots) → R t (.call l)) :
    ((traffic testWire).restrict R).Reach ⟨leasedTest, [], none⟩ := by
  have hempty : ((traffic testWire).restrict R).Reach ⟨emptyWorld (), [], none⟩ :=
    .init ⟨⟨(), rfl, rfl⟩, rfl, rfl⟩
  have hfirst := reach_call hempty (queueTest refreshJob "00000000-0000-4000-8000-000000000031")
    (hR _ _ (settled_queueTest _ _)) (by decide) (by decide)
  have hsecond := reach_call hfirst (queueTest secondJob "00000000-0000-4000-8000-000000000032")
    (hR _ _ (settled_queueTest _ _)) (by decide) (by decide)
  exact reach_call hsecond (claimTest refreshWorker 2 "00000000-0000-4000-8000-000000000033")
    (hR _ _ (settled_claimTest _ _ _)) (by decide) (by decide)

def testBeat (now : Time) : Beat :=
  ⟨singleEnv now "00000000-0000-4000-8000-000000000034", refreshLease 1⟩

def checkedTest (now : Time) : Traffic Unit :=
  ⟨{ leasedTest with clock := now }, [testBeat now], none⟩

theorem reach_checkedTest {R : Traffic Unit → Turn Unit → Prop}
    (hR : ∀ t l, (Turn.call l).Settled singleQuota (fun _ => testSlots) → R t (.call l))
    (hcheck : ∀ t env id, R t (.check env id)) (now : Time) (hclock : leasedTest.clock ≤ now)
    (hbeat : (heartbeat (testBeat now).env leasedTest.store (refreshLease 1)).isOk = true) :
    ((traffic testWire).restrict R).Reach (checkedTest now) := by
  cases hout : heartbeat (testBeat now).env leasedTest.store (refreshLease 1) with
  | error e =>
    rw [hout] at hbeat
    cases hbeat
  | ok out =>
    exact .step (l := .check (testBeat now).env (refreshLease 1)) (reach_leasedTest hR)
      ⟨hcheck _ _ _, .check hclock le_rfl (not_mem_nil) hout⟩

def beatenTest : Traffic Unit :=
  ⟨{ leasedTest with clock := 4, store := (testBeat 3).write leasedTest.store }, [], none⟩

theorem reach_beatenTest :
    ((traffic testWire).restrict fun t turn =>
      turn.Settled singleQuota (fun _ => testSlots) ∧ turn.Prompt t).Reach beatenTest := by
  have hchecked := reach_checkedTest
    (R := fun t turn => turn.Settled singleQuota (fun _ => testSlots) ∧ turn.Prompt t)
    (fun t l hl => ⟨hl, trivial⟩) (fun _ _ _ => ⟨trivial, trivial⟩) 3
    (by decide) (by decide)
  have hprompt : (Turn.publish (testBeat 3) 4).Prompt (checkedTest 3) := by
    intro row hrow
    have hall : ((checkedTest 3).world.store.jobs.find? refreshJob).all
        (fun row => row.leaseValid 4) = true := by decide
    rw [show (checkedTest 3).world.store.jobs.find? refreshJob = some row from hrow] at hall
    exact hall
  exact .step (l := .publish (testBeat 3) 4) hchecked
    ⟨⟨trivial, hprompt⟩, @Traffic.Step.publish _ _ (checkedTest 3) (testBeat 3) [] [] 4 rfl
      (by decide)⟩

/-- The first runner holds the only lease that may be live. -/
theorem admission_limits_beaten :
    live beatenTest.world.store 4 (ofType .connectivity) = 1 ∧
      Admitted singleQuota (fun _ => testSlots) beatenTest.world.store 4 :=
  ⟨by decide, admission_limits testWire (by decide) _ reach_beatenTest le_rfl⟩

/-! ## A late commit

The lease runs until 30000002. The heartbeat is checked at 30000001 and committed at 30000003; in
between, a second runner claims. -/

/-- The second runner reaps first, and skips the row that the heartbeat has locked. -/
def reapLocked : Label Unit where
  env := { singleEnv 30000002 "00000000-0000-4000-8000-000000000035" with
    locked := fun id => id = refreshJob }
  call := .reapExpired

def claimSecond : Label Unit :=
  claimTest secondRunner 30000002 "00000000-0000-4000-8000-000000000036"

def reapedTest : World Unit := (checkedTest 30000001).world.next testWire reapLocked

def overtakenTest : World Unit := reapedTest.next testWire claimSecond

def overrunTest : Traffic Unit :=
  ⟨{ overtakenTest with
      clock := 30000003, store := (testBeat 30000001).write overtakenTest.store }, [], none⟩

theorem reach_overrunTest :
    ((traffic testWire).restrict fun _ turn =>
      turn.Settled singleQuota fun _ => testSlots).Reach overrunTest := by
  have hchecked := reach_checkedTest
    (R := fun _ turn => turn.Settled singleQuota fun _ => testSlots)
    (fun t l hl => hl) (fun _ _ _ => trivial) 30000001 (by decide) (by decide)
  have hreap : (Turn.call reapLocked).Settled singleQuota fun _ => testSlots := by
    refine ⟨fun scope q' hq' => ?_, fun input hinput => by cases hinput⟩
    cases hq'
    exact ⟨rfl, rfl⟩
  have hreaped : ((traffic testWire).restrict fun _ turn =>
      turn.Settled singleQuota fun _ => testSlots).Reach
        ⟨reapedTest, [testBeat 30000001], none⟩ := by
    refine .step (l := .call reapLocked) hchecked
      ⟨hreap, .call (by decide) (by decide) (fun _ _ _ => rfl) fun k hk => ?_⟩
    cases mem_singleton.mp hk
    decide
  have hovertaken : ((traffic testWire).restrict fun _ turn =>
      turn.Settled singleQuota fun _ => testSlots).Reach
        ⟨overtakenTest, [testBeat 30000001], none⟩ := by
    refine .step (l := .call claimSecond) hreaped
      ⟨settled_claimTest _ _ _, .call (by decide) (by decide) (fun _ _ _ => rfl)
        fun k hk => ?_⟩
    cases mem_singleton.mp hk
    decide
  exact .step (l := .publish (testBeat 30000001) 30000003) hovertaken
    ⟨trivial, @Traffic.Step.publish _ _ ⟨overtakenTest, [testBeat 30000001], none⟩
      (testBeat 30000001) [] [] 30000003 rfl (by decide)⟩

/-- **Overrun.** Two connectivity leases are live where the quota allows one. -/
theorem admission_overrun :
    ((traffic testWire).restrict fun _ turn =>
        turn.Settled singleQuota fun _ => testSlots).Reach overrunTest ∧
      live overrunTest.world.store overrunTest.world.clock (ofType .connectivity) = 2 ∧
      ¬ Admitted singleQuota (fun _ => testSlots) overrunTest.world.store
        overrunTest.world.clock := by
  have hlive : live overrunTest.world.store overrunTest.world.clock (ofType .connectivity) = 2 := by
    decide
  refine ⟨reach_overrunTest, hlive, fun h => ?_⟩
  have htotal := h.total .connectivity rfl
  rw [hlive] at htotal
  exact absurd htotal (by decide)

end ProxyLoom.Jobs
