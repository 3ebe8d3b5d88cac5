import ProxyLoom.Jobs.Actions

/-!
# Postings to the byte accounts

The buckets and reservations change in three ways only: a bucket is opened, a reservation is
charged to its bucket, a reservation is settled in the bucket it was charged to. Each keeps

1. the books (`Books`): what a bucket holds is the sum over the reservations charged to it;
2. the daily limit (`Within`), as long as reservations are admitted under that limit;
3. settled reservations (`Progress`): they never change again.
-/

namespace ProxyLoom.Jobs

open IR

variable {β : Type} {env : Env} {s s' : Store β} {r : Reservation} {scope : ID} {limit : ℤ}

def Reservation.account (r : Reservation) : ID × ℕ := (r.scopeID, r.utcDay)

def openCharge (k : ID × ℕ) (r : Reservation) : ℤ :=
  if r.account = k ∧ r.settledBytes = none then r.reservedBytes else 0

def settledCharge (k : ID × ℕ) (r : Reservation) : ℤ :=
  if r.account = k then r.settledBytes.getD 0 else 0

theorem openCharge_of_open (h : r.settledBytes = none) (k : ID × ℕ) :
    openCharge k r = if k = r.account then r.reservedBytes else 0 := by
  unfold openCharge
  by_cases hk : k = r.account
  · rw [if_pos ⟨hk.symm, h⟩, if_pos hk]
  · rw [if_neg fun hc => hk hc.1.symm, if_neg hk]

theorem settledCharge_of_open (h : r.settledBytes = none) (k : ID × ℕ) :
    settledCharge k r = 0 := by
  unfold settledCharge
  rw [h, Option.getD_none, ite_self]

theorem openCharge_settle (r : Reservation) (actual : ℤ) (now : Time) (k : ID × ℕ) :
    openCharge k (r.settle actual now) = 0 := by
  unfold openCharge
  rw [if_neg]
  rintro ⟨-, h⟩
  cases h

theorem settledCharge_settle (r : Reservation) (actual : ℤ) (now : Time) (k : ID × ℕ) :
    settledCharge k (r.settle actual now) = if k = r.account then actual else 0 := by
  have haccount : (r.settle actual now).account = r.account := rfl
  unfold settledCharge
  rw [haccount]
  by_cases hk : k = r.account
  · rw [if_pos hk.symm, if_pos hk]
    rfl
  · rw [if_neg (Ne.symm hk), if_neg hk]

inductive Posting (env : Env) (s s' : Store β) : Prop where
  | same : s'.buckets = s.buckets → s'.reservations = s.reservations → Posting env s s'
  | opened (scope : ID) (day : ℕ) (q : Quota) : env.quota scope = .ok q →
    s'.buckets = ensureBucket s.buckets scope day → s'.reservations = s.reservations →
    Posting env s s'
  | reserved (r : Reservation) (b : Bucket) (q : Quota) : env.quota r.scopeID = .ok q →
    0 < r.reservedBytes → r.settledBytes = none →
    (ensureBucket s.buckets r.scopeID r.utcDay).find? r.account = some b →
    b.admits q.dailyDownloadBytes r.reservedBytes = true →
    s'.buckets = (ensureBucket s.buckets r.scopeID r.utcDay).modify r.account
      (Bucket.reserve r.reservedBytes) (Bucket.reserve_key _) →
    s.reservations.insert? r = some s'.reservations → Posting env s s'
  | settled (r : Reservation) (actual : ℤ) (now : Time) : s.reservations.find? r.key = some r →
    r.settledBytes = none → 0 ≤ actual → actual ≤ r.reservedBytes →
    s'.buckets = s.buckets.modify r.account (Bucket.settle r.reservedBytes actual)
      (Bucket.settle_key _ _) →
    s'.reservations = s.reservations.modify r.key (Reservation.settle actual now)
      (Reservation.settle_key _ _) → Posting env s s'

/-! ## The parts of a transaction post -/

theorem chargeBucket_posting {q : Quota} {made : Option ID}
    (hquota : env.quota r.scopeID = .ok q) (hpos : 0 < r.reservedBytes)
    (hopen : r.settledBytes = none)
    (h : chargeBucket s r q.dailyDownloadBytes = .ok (s', made)) :
    Posting env s s' ∧ ((made = none ∧ s'.reservations = s.reservations) ∨
      (made = some r.id ∧ s.reservations.insert? r = some s'.reservations)) := by
  unfold chargeBucket at h
  dsimp only at h
  split_ifs at h with hadmits
  · split at h
    · cases h
    · next reservations hins =>
      cases h
      obtain ⟨b, hb, hb'⟩ := (Option.any_eq_true _ _).mp hadmits
      exact ⟨.reserved r b q hquota hpos hopen hb hb' rfl hins, Or.inr ⟨rfl, hins⟩⟩
  · cases h
    exact ⟨.opened r.scopeID r.utcDay q hquota rfl rfl, Or.inl ⟨rfl, rfl⟩⟩

/-- What reserving an attempt does to the reservations: nothing, unless it adds the one asked
for. -/
theorem reserveAttempt_posting {job : Job} {attempt : ℕ} {maximum : ℤ} {made : Option ID}
    (h : reserveAttempt env s job attempt maximum = .ok (s', made)) :
    Posting env s s' ∧ job.kind.network = true ∧
      ((s'.reservations = s.reservations ∧
          (made ≠ none → ∃ r, s.reservations.find? (job.id, attempt) = some r)) ∨
        (made ≠ none ∧ s.reservations.insert? (newReservation env job attempt maximum) =
          some s'.reservations)) := by
  unfold reserveAttempt at h
  split_ifs at h with hbad
  simp only [Bool.or_eq_true, Bool.not_eq_true', decide_eq_true_eq, not_or, not_lt,
    Bool.not_eq_false] at hbad
  obtain ⟨⟨⟨⟨hnet, -⟩, -⟩, hpos⟩, -⟩ := hbad
  split at h
  · next existing hexisting =>
    split_ifs at h
    cases h
    exact ⟨.same rfl rfl, hnet, Or.inl ⟨rfl, fun _ => ⟨existing, hexisting⟩⟩⟩
  · split at h
    · cases h
    · next q hq =>
      split_ifs at h
      · cases h
        exact ⟨.same rfl rfl, hnet, Or.inl ⟨rfl, fun hne => absurd rfl hne⟩⟩
      · obtain ⟨hpost, ⟨rfl, hsame⟩ | ⟨rfl, hins⟩⟩ := chargeBucket_posting (s := s)
          (r := newReservation env job attempt maximum) hq hpos rfl h
        · exact ⟨hpost, hnet, Or.inl ⟨hsame, fun hne => absurd rfl hne⟩⟩
        · exact ⟨hpost, hnet, Or.inr ⟨by simp, hins⟩⟩

/-- What settling an attempt does: nothing for a job without a budget or a reservation that is
settled, and otherwise it settles the reservation. -/
theorem settleAttempt_posting {job : Job} {attempt : ℕ} {usage : Option ℤ} {amount : ℤ}
    (hscope : ∀ r, s.reservations.find? (job.id, attempt) = some r →
      r.scopeID = job.scopeID ∧ 0 ≤ r.reservedBytes)
    (h : settleAttempt env s job attempt usage = .ok (s', amount)) :
    Posting env s s' ∧
      ((s'.reservations = s.reservations ∧ (job.kind.network = true →
          ∃ r v, s.reservations.find? (job.id, attempt) = some r ∧ r.settledBytes = some v)) ∨
        ∃ r actual, s.reservations.find? (job.id, attempt) = some r ∧
          s'.reservations = s.reservations.modify (job.id, attempt)
            (Reservation.settle actual env.finish) (Reservation.settle_key _ _)) := by
  obtain ⟨rfl, hsettled⟩ | ⟨r, hr, hopen, hover, rfl⟩ := settleAttempt_cases h
  · exact ⟨.same rfl rfl, Or.inl ⟨rfl, hsettled⟩⟩
  · obtain ⟨hsc, hnonneg⟩ := hscope r hr
    have hkey : r.key = (job.id, attempt) := Table.key_of_find? hr
    have haccount : r.account = (job.scopeID, r.utcDay) := by rw [← hsc]; rfl
    have hactual : 0 ≤ usage.getD r.reservedBytes ∧
        usage.getD r.reservedBytes ≤ r.reservedBytes := by
      cases usage with
      | none => exact ⟨hnonneg, le_refl _⟩
      | some u => simpa using hover
    refine ⟨.settled r (usage.getD r.reservedBytes) env.finish (by rw [hkey]; exact hr) hopen
      hactual.1 hactual.2 ?_ ?_, Or.inr ⟨r, _, hr, rfl⟩⟩
    · simp only [haccount]
    · simp only [hkey]

/-! ## The books -/

structure Books (s : Store β) : Prop where
  reserved : ∀ k b, s.buckets.find? k = some b →
    b.reservedBytes = s.reservations.sum (openCharge k)
  settled : ∀ k b, s.buckets.find? k = some b →
    b.settledBytes = s.reservations.sum (settledCharge k)
  charged : ∀ r ∈ s.reservations.rows, ∃ b, s.buckets.find? r.account = some b
  bounds : ∀ r ∈ s.reservations.rows, 0 ≤ r.reservedBytes ∧
    ∀ v, r.settledBytes = some v → 0 ≤ v ∧ v ≤ r.reservedBytes

theorem find?_ensureBucket (buckets : Table Bucket.key) (scope : ID) (day : ℕ) (k : ID × ℕ) :
    (ensureBucket buckets scope day).find? k =
      if k = (scope, day) ∧ buckets.find? k = none then some ⟨scope, day, 0, 0⟩
      else buckets.find? k := by
  have hkey : (⟨scope, day, 0, 0⟩ : Bucket).key = (scope, day) := rfl
  unfold ensureBucket
  cases hins : buckets.insert? ⟨scope, day, 0, 0⟩ with
  | none =>
    have htaken := Table.find?_of_insert?_eq_none hins
    rw [hkey] at htaken
    rw [Option.getD_none, if_neg]
    rintro ⟨rfl, hnone⟩
    exact htaken hnone
  | some buckets' =>
    have hnone := (Table.insert?_eq_some_iff.mp hins).1
    rw [hkey] at hnone
    rw [Option.getD_some, Table.find?_insert? hins, hkey]
    by_cases hk : k = (scope, day)
    · subst hk
      rw [if_pos rfl, if_pos ⟨rfl, hnone⟩]
    · rw [if_neg hk, if_neg fun h => hk h.1]

/-- Opening a bucket keeps the books: nothing is charged to a bucket that is not there. -/
theorem Books.ensure (h : Books s) (scope : ID) (day : ℕ) :
    Books { s with buckets := ensureBucket s.buckets scope day } := by
  have hnew : ∀ k, s.buckets.find? k = none → ∀ r ∈ s.reservations.rows, r.account ≠ k := by
    intro k hnone r hr heq
    obtain ⟨b, hb⟩ := h.charged r hr
    rw [heq, hnone] at hb
    cases hb
  refine ⟨fun k b hb => ?_, fun k b hb => ?_, fun r hr => ?_, h.bounds⟩
  · dsimp only at hb ⊢
    rw [find?_ensureBucket] at hb
    split_ifs at hb with hk
    · cases hb
      refine (Table.sum_eq_zero fun r hr => ?_).symm
      exact if_neg fun hc => hnew k hk.2 r hr hc.1
    · exact h.reserved k b hb
  · dsimp only at hb ⊢
    rw [find?_ensureBucket] at hb
    split_ifs at hb with hk
    · cases hb
      refine (Table.sum_eq_zero fun r hr => ?_).symm
      exact if_neg (hnew k hk.2 r hr)
    · exact h.settled k b hb
  · obtain ⟨b, hb⟩ := h.charged r hr
    refine ⟨b, ?_⟩
    dsimp only
    rw [find?_ensureBucket, if_neg, hb]
    rintro ⟨-, hnone⟩
    rw [hb] at hnone
    cases hnone

/-- A posting to one account changes what the account holds by what its reservations change. -/
theorem bucket_after {buckets buckets' : Table Bucket.key} {a : ID × ℕ} {f : Bucket → Bucket}
    {hf : ∀ b, (f b).key = b.key} (hb' : buckets' = buckets.modify a f hf) {k : ID × ℕ}
    {b' : Bucket} (h : buckets'.find? k = some b') :
    ∃ b, buckets.find? k = some b ∧ b' = if k = a then f b else b := by
  subst hb'
  rw [Table.find?_modify] at h
  split_ifs at h with hk
  · subst hk
    obtain ⟨b, hb, rfl⟩ := Option.map_eq_some_iff.mp h
    exact ⟨b, hb, (if_pos rfl).symm⟩
  · exact ⟨b', h, (if_neg hk).symm⟩

theorem exists_bucket_after {buckets buckets' : Table Bucket.key} {a : ID × ℕ}
    {f : Bucket → Bucket} {hf : ∀ b, (f b).key = b.key} (hb' : buckets' = buckets.modify a f hf)
    {k : ID × ℕ} {b : Bucket} (h : buckets.find? k = some b) :
    ∃ b', buckets'.find? k = some b' := by
  subst hb'
  rw [Table.find?_modify]
  split_ifs with hk
  · subst hk
    rw [h]
    exact ⟨f b, rfl⟩
  · exact ⟨b, h⟩

theorem Books.posting (h : Books s) (hpost : Posting env s s') : Books s' := by
  cases hpost with
  | same hb hr => exact ⟨by rw [hb, hr]; exact h.reserved, by rw [hb, hr]; exact h.settled,
      by rw [hb, hr]; exact h.charged, by rw [hr]; exact h.bounds⟩
  | opened scope day q _ hb hr =>
    have he := h.ensure scope day
    exact ⟨by rw [hb, hr]; exact he.reserved, by rw [hb, hr]; exact he.settled,
      by rw [hb, hr]; exact he.charged, by rw [hr]; exact he.bounds⟩
  | reserved r b₀ q _ hpos hopen hb₀ _ hb hr =>
    have he := h.ensure r.scopeID r.utcDay
    refine ⟨fun k b' hb' => ?_, fun k b' hb' => ?_, fun x hx => ?_, fun x hx => ?_⟩
    · obtain ⟨b, hfind, rfl⟩ := bucket_after hb hb'
      rw [Table.sum_insert? hr, ← he.reserved k b hfind, openCharge_of_open hopen]
      split_ifs
      · rfl
      · rw [add_zero]
    · obtain ⟨b, hfind, rfl⟩ := bucket_after hb hb'
      rw [Table.sum_insert? hr, ← he.settled k b hfind, settledCharge_of_open hopen, add_zero]
      split_ifs <;> rfl
    · rcases (Table.mem_insert? hr x).mp hx with hx | rfl
      · obtain ⟨b, hfind⟩ := he.charged x hx
        exact exists_bucket_after hb hfind
      · exact exists_bucket_after hb hb₀
    · rcases (Table.mem_insert? hr x).mp hx with hx | rfl
      · exact h.bounds x hx
      · exact ⟨hpos.le, fun v hv => by rw [hopen] at hv; cases hv⟩
  | settled r actual now hfind hopen hlow hhigh hb hr =>
    have hsum : ∀ charge, s'.reservations.sum charge =
        s.reservations.sum charge + (charge (r.settle actual now) - charge r) := by
      intro charge
      rw [hr]
      exact Table.sum_modify _ _ _ _ _ hfind
    have hrows : ∀ x ∈ s'.reservations.rows, x ∈ s.reservations.rows ∨ x = r.settle actual now := by
      intro x hx
      have hx' := Table.find?_of_mem hx
      rw [hr, Table.find?_modify] at hx'
      split_ifs at hx' with hk
      · rw [hfind] at hx'
        exact Or.inr (Option.some.inj hx').symm
      · exact Or.inl (Table.mem_of_find? hx')
    refine ⟨fun k b' hb' => ?_, fun k b' hb' => ?_, fun x hx => ?_, fun x hx => ?_⟩
    · obtain ⟨b, hbk, rfl⟩ := bucket_after hb hb'
      rw [hsum, ← h.reserved k b hbk, openCharge_settle, openCharge_of_open hopen]
      unfold Bucket.settle
      split_ifs
      · dsimp only
        omega
      · omega
    · obtain ⟨b, hbk, rfl⟩ := bucket_after hb hb'
      rw [hsum, ← h.settled k b hbk, settledCharge_settle, settledCharge_of_open hopen]
      unfold Bucket.settle
      split_ifs
      · dsimp only
        omega
      · omega
    · rcases hrows x hx with hx | rfl
      · obtain ⟨b, hbk⟩ := h.charged x hx
        exact exists_bucket_after hb hbk
      · obtain ⟨b, hbk⟩ := h.charged r (Table.mem_of_find? hfind)
        exact exists_bucket_after hb hbk
    · rcases hrows x hx with hx | rfl
      · exact h.bounds x hx
      · refine ⟨(h.bounds r (Table.mem_of_find? hfind)).1, fun v hv => ?_⟩
        cases hv
        exact ⟨hlow, hhigh⟩

/-! ## The daily limit -/

/-- The buckets of a scope hold at most `limit` bytes. -/
def Within (scope : ID) (limit : ℤ) (s : Store β) : Prop :=
  ∀ day b, s.buckets.find? (scope, day) = some b → b.reservedBytes + b.settledBytes ≤ limit

/-- The quota settings of a scope allow `limit` bytes a day. -/
def DailyLimit (scope : ID) (limit : ℤ) (env : Env) : Prop :=
  ∀ q, env.quota scope = .ok q → q.valid = true ∧ q.dailyDownloadBytes = limit

theorem DailyLimit.pos (h : DailyLimit scope limit env) {q : Quota}
    (hq : env.quota scope = .ok q) : 0 < limit := by
  obtain ⟨hvalid, rfl⟩ := h q hq
  unfold Quota.valid at hvalid
  simp only [Bool.and_eq_true, decide_eq_true_eq] at hvalid
  omega

theorem Within.ensure (h : Within scope limit s) {scope' : ID}
    (hpos : scope' = scope → 0 ≤ limit) (day' : ℕ) :
    Within scope limit { s with buckets := ensureBucket s.buckets scope' day' } := by
  intro day b hb
  dsimp only at hb
  rw [find?_ensureBucket] at hb
  split_ifs at hb with hk
  · cases hb
    exact hpos (Prod.mk.inj hk.1).1.symm
  · exact h day b hb

theorem Within.posting (h : Within scope limit s)
    (hlimit : DailyLimit scope limit env) (hpost : Posting env s s') : Within scope limit s' := by
  cases hpost with
  | same hb _ =>
    intro day b hfind
    rw [hb] at hfind
    exact h day b hfind
  | opened scope' day' q hq hb _ =>
    intro day b hfind
    rw [hb] at hfind
    refine h.ensure (fun heq => ?_) day' day b hfind
    subst heq
    exact (hlimit.pos hq).le
  | reserved r b₀ q hq _ _ hb₀ hadmits hb _ =>
    intro day b' hb'
    obtain ⟨b, hfind, rfl⟩ := bucket_after hb hb'
    split_ifs with hk
    · -- the bucket was charged, so the reservation was admitted under the limit
      rw [hk, hb₀] at hfind
      cases hfind
      have hscope : r.scopeID = scope := (Prod.mk.inj hk).1.symm
      rw [hscope] at hq
      unfold Bucket.admits at hadmits
      simp only [Bool.and_eq_true, decide_eq_true_eq, (hlimit q hq).2] at hadmits
      unfold Bucket.reserve
      dsimp only
      omega
    · refine h.ensure (fun heq => ?_) r.utcDay day b hfind
      rw [heq] at hq
      exact (hlimit.pos hq).le
  | settled r actual now _ _ _ hhigh hb _ =>
    intro day b' hb'
    obtain ⟨b, hfind, rfl⟩ := bucket_after hb hb'
    have hle := h day b hfind
    unfold Bucket.settle
    split_ifs
    · dsimp only
      omega
    · exact hle

/-! ## Settled reservations -/

/-- Reservations stay, and settled ones stay as they are. -/
def Progress (s s' : Store β) : Prop :=
  ∀ k r, s.reservations.find? k = some r → ∃ r', s'.reservations.find? k = some r' ∧
    (r.settledBytes ≠ none → r' = r)

theorem Progress.refl (s : Store β) : Progress s s := fun _ r hr => ⟨r, hr, fun _ => rfl⟩

theorem Progress.trans {s t u : Store β} (h₁ : Progress s t) (h₂ : Progress t u) :
    Progress s u := by
  intro k r hr
  obtain ⟨r₁, hr₁, hsame₁⟩ := h₁ k r hr
  obtain ⟨r₂, hr₂, hsame₂⟩ := h₂ k r₁ hr₁
  refine ⟨r₂, hr₂, fun hsettled => ?_⟩
  have heq := hsame₁ hsettled
  rw [hsame₂ (by rw [heq]; exact hsettled), heq]

theorem Progress.posting (hpost : Posting env s s') : Progress s s' := by
  intro k r hr
  cases hpost with
  | same _ hres => exact ⟨r, by rw [hres, hr], fun _ => rfl⟩
  | opened _ _ _ _ _ hres => exact ⟨r, by rw [hres, hr], fun _ => rfl⟩
  | reserved r₀ _ _ _ _ _ _ _ _ hins =>
    have hk : k ≠ r₀.key := by
      rintro rfl
      rw [(Table.insert?_eq_some_iff.mp hins).1] at hr
      cases hr
    exact ⟨r, by rw [Table.find?_insert? hins, if_neg hk, hr], fun _ => rfl⟩
  | settled r₀ actual now hfind hopen _ _ _ hres =>
    rw [hres]
    by_cases hk : k = r₀.key
    · subst hk
      rw [hfind] at hr
      cases hr
      refine ⟨r.settle actual now, ?_, fun hsettled => absurd hopen hsettled⟩
      rw [Table.find?_modify_self, hfind]
      rfl
    · exact ⟨r, by rw [Table.find?_modify_ne _ _ _ hk, hr], fun _ => rfl⟩

end ProxyLoom.Jobs
