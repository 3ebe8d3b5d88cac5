import ProxyLoom.Jobs.Ledger

/-!
# What is reserved for a test

The bytes set aside for an attempt are those that the frozen payload of the job allows: the first
attempt reserves the limit of the payload, and a retry reserves what the attempt before it had.
-/

namespace ProxyLoom.Jobs

open IR RunnerProtocol Relation

variable {β : Type} {wire : Wire} {env : Env} {s s' : Store β} {job : Job}
  {P : EnqueueInput → Prop} {k : ID} {attempt a : ℕ} {v : ℤ}

def Store.payload (s : Store β) (k : ID) : Option (List UInt8) := (s.jobs.find? k).map Job.payload

def Store.amount (s : Store β) (k : ID) (attempt : ℕ) : Option ℤ :=
  (s.reservations.find? (k, attempt)).map Reservation.reservedBytes

structure Meters (s s' : Store β) : Prop where
  payload : ∀ k, s'.payload k = s.payload k
  kept : ∀ k a v, s.amount k a = some v → s'.amount k a = some v
  /-- An amount is one that the job had reserved before. -/
  asked : ∀ k a v, s'.amount k a = some v → ∃ a', s.amount k a' = some v

theorem Meters.refl (s : Store β) : Meters s s :=
  ⟨fun _ => rfl, fun _ _ _ h => h, fun _ a _ h => ⟨a, h⟩⟩

theorem Meters.trans {s t u : Store β} (h₁ : Meters s t) (h₂ : Meters t u) : Meters s u := by
  refine ⟨fun k => (h₂.payload k).trans (h₁.payload k), fun k a v h =>
    h₂.kept k a v (h₁.kept k a v h),
    fun k a v h => ?_⟩
  obtain ⟨a', h'⟩ := h₂.asked k a v h
  exact h₁.asked k a' v h'

theorem Meters.of_amount (hjobs : ∀ k, s'.payload k = s.payload k)
    (hamount : ∀ k a, s'.amount k a = s.amount k a) : Meters s s' :=
  ⟨hjobs, fun k a v h => by rw [hamount, h], fun k a v h => ⟨a, by rw [← hamount, h]⟩⟩

/-! ## Rows -/

theorem payload_modify {f : Job → Job} (hf : ∀ j, (f j).id = j.id)
    (hjobs : s'.jobs = s.jobs.modify k f hf) (hpayload : ∀ j, (f j).payload = j.payload) (k' : ID) :
    s'.payload k' = s.payload k' := by
  unfold Store.payload
  rw [hjobs]
  by_cases hk : k' = k
  · subst hk
    rw [Table.find?_modify_self, Option.map_map]
    exact Option.map_congr fun j _ => hpayload j
  · rw [Table.find?_modify_ne _ _ _ hk]

theorem Meters.modify {f : Job → Job} (hf : ∀ j, (f j).id = j.id)
    (hjobs : s'.jobs = s.jobs.modify k f hf) (hpayload : ∀ j, (f j).payload = j.payload)
    (hres : s'.reservations = s.reservations) : Meters s s' := by
  refine .of_amount (payload_modify hf hjobs hpayload) fun k' a => ?_
  unfold Store.amount
  rw [hres]

theorem appendJobEvent_meters {input : EventInput} {receipt : EventReceipt}
    (h : appendJobEvent wire s job input = .ok (s', receipt)) : Meters s s' := by
  obtain ⟨events, rfl⟩ := appendJobEvent_ok h
  exact .modify Job.bump_id rfl (fun _ => rfl) rfl

theorem markCancel_meters (job : Job) : Meters s (markCancel env s job) :=
  .modify (Job.requestCancel_id env.finish) rfl (fun _ => rfl) rfl

theorem leaseJob_meters {worker : ID} {lease : Lease}
    (h : leaseJob wire env s worker job = .ok (s', lease)) : Meters s s' := by
  obtain ⟨row, events, -, -, -, -, rfl⟩ := leaseJob_ok h
  let leased := s.jobs.modify job.id (Job.lease worker env.finish) (Job.lease_id _ _)
  have hleased : Meters s { s with jobs := leased } :=
    .modify (Job.lease_id worker env.finish) rfl (fun _ => rfl) rfl
  exact hleased.trans (.modify Job.bump_id rfl (fun _ => rfl) rfl)

theorem event_meters {id : LeaseIdentity} {input : EventInput} {receipt : EventReceipt}
    (h : event wire env s id input = .ok (s', receipt)) : Meters s s' := by
  obtain ⟨job, clean, -, -, rfl | ⟨hevent, -⟩⟩ := event_ok h
  · exact .refl _
  · refine Meters.trans ?_ (appendJobEvent_meters hevent)
    unfold runRow
    split_ifs
    · exact .refl _
    · exact .modify Job.run_id rfl (fun _ => rfl) rfl

/-! ## Reservations -/

theorem settleAttempt_meters {usage : Option ℤ} {settled : ℤ}
    (h : settleAttempt env s job attempt usage = .ok (s', settled)) : Meters s s' := by
  obtain ⟨rfl, -⟩ | ⟨r, -, -, -, rfl⟩ := settleAttempt_cases h
  · exact .refl _
  · refine .of_amount (fun _ => rfl) fun k a => ?_
    unfold Store.amount
    dsimp only
    by_cases hk : (k, a) = (job.id, attempt)
    · rw [hk, Table.find?_modify_self, Option.map_map]
      rfl
    · rw [Table.find?_modify_ne _ _ _ hk]

theorem amount_insert {r : Reservation} (h : s.reservations.insert? r = some s'.reservations)
    (k : ID) (a : ℕ) :
    s'.amount k a = if (k, a) = r.key then some r.reservedBytes else s.amount k a := by
  unfold Store.amount
  rw [Table.find?_insert? h]
  split_ifs <;> rfl

theorem amount_of_insert {r : Reservation} (h : s.reservations.insert? r = some s'.reservations)
    (hv : s.amount k a = some v) : s'.amount k a = some v := by
  rw [amount_insert h, if_neg, hv]
  intro hk
  unfold Store.amount at hv
  rw [hk, (Table.insert?_eq_some_iff.mp h).1] at hv
  cases hv

theorem reserveRetry_meters {made : Option ID} (h : reserveRetry env s job = .ok (s', made)) :
    Meters s s' := by
  have hjobs : ∀ k, s'.payload k = s.payload k := by
    intro k
    unfold Store.payload
    rw [(reserveRetry_ok h).jobs]
  unfold reserveRetry at h
  split at h
  · cases h
  · next r₀ hr₀ =>
    obtain ⟨-, -, ⟨hsame, -⟩ | ⟨-, hins⟩⟩ := reserveAttempt_posting h
    · refine .of_amount hjobs fun k a => ?_
      unfold Store.amount
      rw [hsame]
    · refine ⟨hjobs, fun k a v => amount_of_insert hins, fun k a v hv => ?_⟩
      rw [amount_insert hins] at hv
      split_ifs at hv with hk
      · obtain rfl : k = job.id := (Prod.mk.inj hk).1
        cases hv
        refine ⟨job.attempt, ?_⟩
        unfold Store.amount
        rw [hr₀]
        rfl
      · exact ⟨a, hv⟩

theorem reapOutcome_meters {out : State × SafeError} (h : reapOutcome env s job = .ok (s', out)) :
    Meters s s' := by
  obtain ⟨-, rfl, -⟩ | ⟨-, made, hr, -⟩ := reapOutcome_cases h
  · exact .refl _
  · exact reserveRetry_meters hr

theorem completeOutcome_meters {input : Result} {out : State × Option Verdict × Option SafeError}
    (h : completeOutcome env s job input = .ok (s', out)) : Meters s s' := by
  obtain ⟨-, rfl, -⟩ | ⟨-, -, rfl, -⟩ | ⟨-, -, made, hr, -⟩ := completeOutcome_cases h
  · exact .refl _
  · exact .refl _
  · exact reserveRetry_meters hr

/-! ## Actions -/

theorem cancelChild_meters (h : cancelChild wire env s job = .ok s') :
    Meters s s' := by
  obtain ⟨-, rfl⟩ | ⟨s₁, input, receipt, -, ⟨-, rfl⟩ | ⟨-, settled, hsettle⟩, hevent⟩ :=
    cancelChild_ok h
  · exact .refl _
  · exact (markCancel_meters job).trans (appendJobEvent_meters hevent)
  · exact ((markCancel_meters job).trans (settleAttempt_meters hsettle)).trans
      (appendJobEvent_meters hevent)

theorem expire_payload (now : Time) (state : State) (failure : SafeError) (j : Job) :
    (j.expire now state failure).payload = j.payload := by
  unfold Job.expire
  split_ifs <;> rfl

theorem reapOne_meters (h : reapOne wire env s job = .ok s') : Meters s s' := by
  obtain ⟨s₁, settled, s₂, state, failure, input, receipt, hsettle, hout, hevent⟩ := reapOne_ok h
  have hexpire : Meters s₂ { s₂ with
      jobs := s₂.jobs.modify job.id (Job.expire env.finish state failure) (Job.expire_id _ _ _) } :=
    .modify (Job.expire_id env.finish state failure) rfl (expire_payload _ _ _) rfl
  exact (((settleAttempt_meters hsettle).trans (reapOutcome_meters hout)).trans hexpire).trans
    (appendJobEvent_meters hevent)

theorem recordAttempt_meters {id : LeaseIdentity} {input : Result} {hash : String}
    {receipt : ResultReceipt} (hlock : lockLease s id = .ok job)
    (h : recordAttempt wire env s id job input hash = .ok (s', receipt)) : Meters s s' := by
  obtain ⟨s₁, settled, s₂, s₃, state, verdict, error, report, ereceipt, -, hsettle, hinsert, hout,
    hevent⟩ := recordAttempt_ok hlock h
  obtain ⟨results, rfl, -⟩ := insertResult_ok hinsert
  have hresult : Meters s₁ { s₁ with results := results } :=
    .of_amount (fun _ => rfl) fun _ _ => rfl
  have hfinish : Meters s₃ { s₃ with
      jobs := s₃.jobs.modify id.jobID (Job.finish env.finish state verdict error)
        (Job.finish_id _ _ _ _) } :=
    .modify (Job.finish_id env.finish state verdict error) rfl (fun _ => rfl) rfl
  exact ((((settleAttempt_meters hsettle).trans hresult).trans (completeOutcome_meters hout)).trans
    hfinish).trans (appendJobEvent_meters hevent)

/-- **Actions on reserved amounts.** Only an enqueue brings in a payload. -/
theorem action_meters (h : Action wire env P s s') :
    Meters s s' ∨ ∃ n input, enqueueTx wire env n s input = .ok s' := by
  cases h with
  | business => exact .inl (.of_amount (fun _ => rfl) fun _ _ => rfl)
  | queue h =>
    cases h with
    | batches => exact .inl (.of_amount (fun _ => rfl) fun _ _ => rfl)
    | enqueue _ h => exact .inr ⟨_, _, h⟩
    | cancel _ _ h => exact .inl (cancelChild_meters h)
    | mark => exact .inl (markCancel_meters _)
    | lease h => exact .inl (leaseJob_meters h)
    | beat h =>
      obtain ⟨job, -, -, -, rfl⟩ := heartbeat_ok h
      exact .inl (.modify (Job.beat_id _ _) rfl (fun _ => rfl) rfl)
    | event h => exact .inl (event_meters h)
    | reap _ _ _ h => exact .inl (reapOne_meters h)
    | finish hlock _ h => exact .inl (recordAttempt_meters hlock h)

/-! ## Enqueueing -/

theorem reserveAttempt_fresh {maximum : ℤ} {id : ID}
    (h : reserveAttempt env s job attempt maximum = .ok (s', some id))
    (hnone : s.reservations.find? (job.id, attempt) = none) :
    id = env.newID (.reservation job.id attempt) ∧
      s.reservations.insert? (newReservation env job attempt maximum) = some s'.reservations := by
  unfold reserveAttempt at h
  split_ifs at h
  rw [hnone] at h
  dsimp only at h
  split at h
  · cases h
  · split_ifs at h
    · cases h
    · unfold chargeBucket at h
      dsimp only at h
      split_ifs at h
      · split at h
        · cases h
        · next reservations hins =>
          cases h
          exact ⟨rfl, hins⟩
      · cases h

/-- What is stored for a network job: its payload with the reservation written into it, and the
limit of that payload as the amount of the first attempt. -/
theorem reserveFirst_amounts (hnew : ∀ a, s.reservations.find? (job.id, a) = none)
    (hrow : s.payload job.id = some job.payload) (h : reserveFirst wire env s job = .ok s') :
    (job.kind.network = false ∧ s' = s) ∨
      ∃ frozen, wire.decodeFrozenPayload job.payload = some frozen ∧
        s'.payload job.id = some (wire.encodeFrozenPayload
          { frozen with quotaReservationID := env.newID (.reservation job.id 1) }) ∧
        (∀ k, k ≠ job.id → s'.payload k = s.payload k) ∧
        ∀ k a, s'.amount k a =
          if (k, a) = (job.id, 1) then some frozen.maxBytes else s.amount k a := by
  obtain hoff | ⟨frozen, s₁, made, -, hfrozen, hr, rfl⟩ := reserveFirst_ok h
  · exact .inl hoff
  · obtain ⟨rfl, hins⟩ := reserveAttempt_fresh hr (hnew 1)
    have hjobs := (reserveAttempt_ok hr).jobs
    refine .inr ⟨frozen, hfrozen, ?_, fun k hk => ?_, fun k a => amount_insert hins k a⟩
    · unfold Store.payload at hrow ⊢
      obtain ⟨row, hfind, -⟩ := Option.map_eq_some_iff.mp hrow
      dsimp only
      rw [Table.find?_modify_self, hjobs, hfind]
      rfl
    · unfold Store.payload
      dsimp only
      rw [Table.find?_modify_ne _ _ _ hk, hjobs]

/-! ## Amounts are limits -/

/-- Payloads read back as they were written, and one that was read can be written with another
reservation. -/
structure Wire.Lawful (wire : Wire) : Prop where
  readsBack : ∀ f f', wire.decodeFrozenPayload (wire.encodeFrozenPayload f) = some f' → f' = f
  rewritten : ∀ b f id, wire.decodeFrozenPayload b = some f → ID.validate id = true →
    (wire.decodeFrozenPayload
      (wire.encodeFrozenPayload { f with quotaReservationID := id })).isSome = true

/-- Every reserved amount is the limit of the job's payload. -/
def Metered (wire : Wire) (s : Store β) : Prop :=
  ∀ k a v, s.amount k a = some v → ∃ b frozen, s.payload k = some b ∧
    wire.decodeFrozenPayload b = some frozen ∧ frozen.maxBytes = v

theorem Metered.meters (h : Metered wire s) (hm : Meters s s') : Metered wire s' := by
  intro k a v hv
  obtain ⟨a', hv'⟩ := hm.asked k a v hv
  rw [hm.payload]
  exact h k a' v hv'

theorem Metered.enqueueTx (h : Metered wire s) (hlaw : wire.Lawful)
    (hids : ∀ use, ID.validate (env.newID use) = true) {n : ℕ} {input : EnqueueInput}
    (he : enqueueTx wire env n s input = .ok s') : Metered wire s' := by
  obtain ⟨jobs, s₁, receipt, hins, hfirst, hevent⟩ := enqueueTx_ok he
  refine Metered.meters ?_ (appendJobEvent_meters hevent)
  have hrow : s.jobs.find? (newJob env n input).id = none := (Table.insert?_eq_some_iff.mp hins).1
  -- A job that is not there has nothing reserved.
  have hnothing : ∀ a, s.amount (newJob env n input).id a = none := by
    intro a
    cases hv : s.amount (newJob env n input).id a with
    | none => rfl
    | some v =>
      obtain ⟨b, -, hb, -⟩ := h _ a v hv
      unfold Store.payload at hb
      rw [hrow] at hb
      cases hb
  have hothers : ∀ k, k ≠ (newJob env n input).id →
      Store.payload { s with jobs := jobs } k = s.payload k := by
    intro k hk
    unfold Store.payload
    rw [Table.find?_insert? hins, if_neg hk]
  have hself : Store.payload { s with jobs := jobs } (newJob env n input).id =
      some (newJob env n input).payload := by
    unfold Store.payload
    rw [Table.find?_insert? hins, if_pos rfl]
    rfl
  have hkept : ∀ k a v, k ≠ (newJob env n input).id → s.amount k a = some v →
      ∃ b frozen, Store.payload { s with jobs := jobs } k = some b ∧
        wire.decodeFrozenPayload b = some frozen ∧ frozen.maxBytes = v := by
    intro k a v hk hv
    rw [hothers k hk]
    exact h k a v hv
  have hne : ∀ k a v, s.amount k a = some v → k ≠ (newJob env n input).id := by
    rintro k a v hv rfl
    rw [hnothing] at hv
    cases hv
  have hnone : ∀ a, s.reservations.find? ((newJob env n input).id, a) = none :=
    fun a => Option.map_eq_none_iff.mp (hnothing a)
  rcases reserveFirst_amounts (s := { s with jobs := jobs }) hnone hself hfirst with
    ⟨-, rfl⟩ | ⟨frozen, hfrozen, hpayload, hsame, hamount⟩
  · intro k a v hv
    exact hkept k a v (hne k a v hv) hv
  · intro k a v hv
    rw [hamount] at hv
    split_ifs at hv with hk
    · obtain rfl : k = (newJob env n input).id := (Prod.mk.inj hk).1
      cases hv
      obtain ⟨frozen', hread⟩ := Option.isSome_iff_exists.mp (hlaw.rewritten _ frozen _ hfrozen
        (hids (.reservation (newJob env n input).id 1)))
      refine ⟨_, frozen', hpayload, hread, ?_⟩
      rw [hlaw.readsBack _ _ hread]
    · have hk' := hne k a v hv
      rw [hsame k hk']
      exact hkept k a v hk' hv

def FreshIDs (_ : World β) (l : Label β) : Prop := ∀ use, ID.validate (l.env.newID use) = true

/-- **What is reserved.** In every state reached, whatever is reserved for an attempt of a job is
the limit of the job's payload. -/
theorem Reach.metered (hlaw : wire.Lawful) {w : World β}
    (h : ((queue wire).restrict FreshIDs).Reach w) : Metered wire w.store := by
  refine h.invariant (P := fun w => Metered wire w.store) ?_ ?_
  · rintro w ⟨business, hstore, -⟩ k a v hv
    rw [hstore] at hv
    cases hv
  · intro w l w' _ hw hstep
    have hacts := step_actions (l.call.adds_true _) hstep.2
    generalize w'.store = s' at hacts ⊢
    induction hacts with
    | refl => exact hw
    | tail _ hact ih =>
      rcases action_meters hact with hm | ⟨n, input, he⟩
      · exact ih.meters hm
      · exact ih.enqueueTx hlaw hstep.1 he

/-! ## Amounts stay -/

theorem enqueueTx_amount {n : ℕ} {input : EnqueueInput}
    (h : enqueueTx wire env n s input = .ok s')
    (hv : s.amount k a = some v) : s'.amount k a = some v := by
  obtain ⟨jobs, s₁, receipt, -, hfirst, hevent⟩ := enqueueTx_ok h
  refine (appendJobEvent_meters hevent).kept k a v ?_
  obtain ⟨-, rfl⟩ | ⟨frozen, s₁, made, -, -, hr, rfl⟩ := reserveFirst_ok hfirst
  · exact hv
  · obtain ⟨-, -, ⟨hsame, -⟩ | ⟨-, hins⟩⟩ := reserveAttempt_posting hr
    · unfold Store.amount at hv ⊢
      dsimp only at hsame ⊢
      rw [hsame, hv]
    · exact amount_of_insert (s := { s with jobs := jobs }) hins hv

theorem Run.amount {w w' : World β} (hw : (queue wire).Reach w) (h : (queue wire).Run w w')
    (hv : w.store.amount k a = some v) :
    w'.store.amount k a = some v := by
  refine Run.store_relation
    (R := fun s s' => ∀ k a v, s.amount k a = some v → s'.amount k a = some v)
    (fun _ _ _ _ h => h) (fun _ _ _ h₁ h₂ k a v h => h₂ k a v (h₁ k a v h)) ?_ hw h k a v hv
  intro env s s' hact k a v hv
  rcases action_meters hact with hm | ⟨n, input, he⟩
  · exact hm.kept k a v hv
  · exact enqueueTx_amount he hv

theorem settleAttempt_of_le {usage : ℤ} (hv : s.amount job.id attempt = some v)
    (hlow : 0 ≤ usage) (hhigh : usage ≤ v) :
    ∃ out, settleAttempt env s job attempt (some usage) = .ok out := by
  obtain ⟨r, hr, rfl⟩ := Option.map_eq_some_iff.mp hv
  have hfits : ¬ (Option.any (fun u => decide (u < 0) || decide (r.reservedBytes < u))
      (some usage) = true) := by
    simp only [Option.any_some, Bool.or_eq_true, decide_eq_true_eq, not_or, not_lt]
    exact ⟨hlow, hhigh⟩
  unfold settleAttempt
  by_cases hnet : (!job.kind.network) = true
  · rw [if_pos hnet]
    exact ⟨_, rfl⟩
  · rw [if_neg hnet, hr]
    dsimp only
    rw [if_neg hfits]
    cases r.settledBytes with
    | some settled => exact ⟨_, rfl⟩
    | none => exact ⟨_, rfl⟩

/-! ## Leases -/

theorem claim_amount {input : ClaimInput} {lease : Lease}
    (h : claim wire env s input = .ok (s', some lease)) (hnet : lease.job.kind.network = true) :
    ∃ (frozen : FrozenPayload) (id : ID), lease.payload =
        wire.encodeFrozenPayload { frozen with quotaReservationID := id } ∧
      s'.amount lease.identity.jobID lease.identity.attempt = some frozen.maxBytes := by
  unfold claim at h
  split_ifs at h
  split at h
  · cases h
  · cases h
  · next s₁ job hc =>
    split at h
    · cases h
    · next s₂ l hl =>
      cases h
      have hm := leaseJob_meters hl
      unfold leaseJob at hl
      split at hl
      · cases hl
      · next row hrow =>
        split_ifs at hl
        obtain ⟨payload, hpayload, hl⟩ := Except.of_bind hl
        obtain ⟨⟨s₃, receipt⟩, -, hl⟩ := Except.of_bind hl
        cases hl
        unfold leasePayload at hpayload
        rw [if_pos hnet] at hpayload
        split at hpayload
        · cases hpayload
        · next frozen hfrozen =>
          split at hpayload
          · next r hr =>
            split_ifs at hpayload with hopen
            cases hpayload
            rw [Bool.and_eq_true, decide_eq_true_eq] at hopen
            refine ⟨frozen, r.id, rfl, hm.kept _ _ _ ?_⟩
            unfold Store.amount
            dsimp only at hr ⊢
            rw [hr, Option.map_some, hopen.2]
          · cases hpayload

end ProxyLoom.Jobs
