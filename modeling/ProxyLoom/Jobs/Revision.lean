import Mathlib.Algebra.Order.BigOperators.Group.Finset
import ProxyLoom.Jobs.Fencing

/-!
# The revision of a batch

A batch is read with one revision, for its row and for its jobs, and a cancellation names the
revision that it was decided on.
-/

namespace ProxyLoom.Jobs

open IR List

variable {β : Type} {wire : Wire} {s s' : Store β} {j j' : Job}

/-! ## Revisions of rows -/

/-- What a reader of a batch sees of a job. -/
def Job.view (j : Job) : State × Bool × Option Verdict := (j.state, j.cancelRequested, j.verdict)

/-- Whatever a reader sees of a row, a change of it raises the row's revision. -/
structure Newer (j j' : Job) : Prop where
  scopeID : j'.scopeID = j.scopeID
  batchID : j'.batchID = j.batchID
  revision : j.revision ≤ j'.revision
  view : j'.revision = j.revision → j'.view = j.view

theorem Newer.refl (j : Job) : Newer j j := ⟨rfl, rfl, le_rfl, fun _ => rfl⟩

theorem Newer.trans {i k : Job} (h₁ : Newer i j) (h₂ : Newer j k) : Newer i k where
  scopeID := h₂.scopeID.trans h₁.scopeID
  batchID := h₂.batchID.trans h₁.batchID
  revision := h₁.revision.trans h₂.revision
  view heq := by
    have hij : j.revision = i.revision := le_antisymm (heq ▸ h₂.revision) h₁.revision
    rw [h₂.view (heq.trans hij.symm), h₁.view hij]

theorem Newer.of_succ (hscope : j'.scopeID = j.scopeID)
    (hbatch : j'.batchID = j.batchID) (h : j'.revision = j.revision + 1) : Newer j j' :=
  ⟨hscope, hbatch, by omega, fun heq => by omega⟩

theorem Newer.of_change (h : j.Change j') : Newer j j' := by
  cases h with
  | bump | payload => exact ⟨rfl, rfl, le_rfl, fun _ => rfl⟩
  | requestCancel | lease | finish => exact .of_succ rfl rfl rfl
  | beat revoked now =>
    by_cases hnew : (revoked && j.cancelRequestedAt.isNone) = true
    · exact .of_succ rfl rfl (if_pos hnew)
    · refine ⟨rfl, rfl, (if_neg hnew).ge, fun _ => ?_⟩
      unfold Job.view Job.cancelRequested Job.beat
      cases revoked <;> cases hat : j.cancelRequestedAt <;> simp [hat] at hnew ⊢
  | run hactive =>
    by_cases hleased : j.state = .leased
    · exact .of_succ rfl rfl (if_pos hleased)
    · have hrunning : j.state = .running := by
        cases hstate : j.state <;> simp_all [State.active]
      refine ⟨rfl, rfl, (if_neg hleased).ge, fun _ => ?_⟩
      rw [Job.view, Job.view, hrunning]
      rfl
  | expire =>
    unfold Job.expire
    split
    · exact .of_succ rfl rfl rfl
    · exact .refl j

theorem Newer.of_changes (h : j.Changes j') : Newer j j' := by
  induction h with
  | refl => exact .refl j
  | tail _ hchange ih => exact ih.trans (.of_change hchange)

theorem Reach.revision_pos {w : World β} (h : (queue wire).Reach w) {k : ID}
    (hj : w.store.jobs.find? k = some j) : 0 < j.revision := by
  refine Reach.store_invariant (P := fun s => ∀ k j, s.jobs.find? k = some j → 0 < j.revision)
    (fun _ _ _ hj => by cases hj) (fun env s s' hs hact k j' hj' => ?_) h k j hj
  have hev := action_evolves hact
  cases hj : s.jobs.find? k with
  | none =>
    obtain ⟨env', n, input, -, hnew⟩ := hev.fresh k j' hj hj'
    exact Nat.lt_of_lt_of_le Nat.one_pos (Newer.of_changes hnew).revision
  | some j =>
    obtain ⟨j₁, hj₁, hc⟩ := hev.kept k j hj
    rw [hj'] at hj₁
    cases hj₁
    exact Nat.lt_of_lt_of_le (hs k j hj) (Newer.of_changes hc).revision

/-! ## The revision of a batch -/

def Store.added (s : Store β) (k : ID) : ℕ := ((s.jobs.find? k).map fun j => j.revision - 1).getD 0

theorem sum_added {jobs : List Job} (h : Rows s jobs) :
    (jobs.map fun j => j.revision - 1).sum = ∑ k ∈ (jobs.map Job.id).toFinset, s.added k := by
  rw [sum_toFinset _ h.nodup, map_map]
  refine congrArg List.sum (map_congr_left fun j hj => ?_)
  rw [Function.comp_apply, Store.added, h.found j hj]
  rfl

theorem readBatch_ok {scope id : ID} {b : Batch} (h : readBatch s scope id = .ok b) :
    ∃ row, s.batches.find? id = some row ∧ b.cancelRequested = row.cancelRequestedAt.isSome ∧
      b.revision = row.revision + (b.children.map fun j => j.revision - 1).sum ∧
      ∀ j, j ∈ b.children ↔
        s.jobs.find? j.id = some j ∧ j.scopeID = scope ∧ j.batchID = some id := by
  unfold readBatch at h
  split at h
  · cases h
  · next row hrow =>
    dsimp only at h
    split_ifs at h
    cases h
    refine ⟨row, hrow, rfl, rfl, fun j => ?_⟩
    rw [(perm_insertionSort _ _).mem_iff, mem_filter, Table.find?_eq_some_iff]
    simp

/-- The batch looks as it did: its own flag, and its jobs, one to one. -/
structure Unchanged (b b' : Batch) : Prop where
  cancelRequested : b'.cancelRequested = b.cancelRequested
  children : (b'.children.map fun j => (j.id, j.view)).Perm (b.children.map fun j => (j.id, j.view))

section
variable {scope id : ID} {b b' : Batch}

theorem unchanged_of_revision (hpos : ∀ k j, s.jobs.find? k = some j → 0 < j.revision)
    (hjobs : ∀ k j, s.jobs.find? k = some j → ∃ j', s'.jobs.find? k = some j' ∧ Newer j j')
    (hnone : ∀ k j', s'.jobs.find? k = some j' → j'.batchID = some id →
      ∃ j, s.jobs.find? k = some j)
    (hbatches : BatchesGrow s.batches s'.batches) (h : readBatch s scope id = .ok b)
    (h' : readBatch s' scope id = .ok b') (heq : b'.revision = b.revision) : Unchanged b b' := by
  obtain ⟨row, hrow, hflag, hrev, hmem⟩ := readBatch_ok h
  obtain ⟨row', hrow', hflag', hrev', hmem'⟩ := readBatch_ok h'
  obtain ⟨row₁, hrow₁, hle, hsame⟩ := hbatches id row hrow
  obtain rfl : row' = row₁ := Option.some.inj (hrow'.symm.trans hrow₁)
  have hlater : ∀ j ∈ b.children, ∃ j' ∈ b'.children, j'.id = j.id ∧ Newer j j' := by
    intro j hj
    obtain ⟨hfind, hscope, hbatch⟩ := (hmem j).mp hj
    obtain ⟨j', hj', hnew⟩ := hjobs _ j hfind
    have hid : j'.id = j.id := Table.key_of_find? hj'
    exact ⟨j', (hmem' j').mpr ⟨hid ▸ hj', hnew.scopeID.trans hscope, hnew.batchID.trans hbatch⟩,
      hid, hnew⟩
  have hearlier : ∀ j' ∈ b'.children, ∃ j ∈ b.children, j'.id = j.id ∧ Newer j j' := by
    intro j' hj'
    obtain ⟨hfind', hscope, hbatch⟩ := (hmem' j').mp hj'
    obtain ⟨j, hfind⟩ := hnone _ j' hfind' hbatch
    obtain ⟨j₁, hj₁, hnew⟩ := hjobs _ j hfind
    obtain rfl : j' = j₁ := Option.some.inj (hfind'.symm.trans hj₁)
    have hid : j.id = j'.id := Table.key_of_find? hfind
    exact ⟨j, (hmem j).mpr
      ⟨hid ▸ hfind, hnew.scopeID.symm.trans hscope, hnew.batchID.symm.trans hbatch⟩, hid.symm, hnew⟩
  -- both sums grow with the rows and with the set of the rows
  rw [sum_added (readBatch_rows h)] at hrev
  rw [sum_added (readBatch_rows h')] at hrev'
  have hadded : ∀ k ∈ (b.children.map Job.id).toFinset, s.added k ≤ s'.added k := by
    intro k hk
    obtain ⟨j, hj, rfl⟩ := mem_map.mp (mem_toFinset.mp hk)
    obtain ⟨j', hj', hid, hnew⟩ := hlater j hj
    rw [Store.added, Store.added, ((hmem j).mp hj).1, ← hid, ((hmem' j').mp hj').1]
    exact Nat.sub_le_sub_right hnew.revision 1
  have hsub : (b.children.map Job.id).toFinset ⊆ (b'.children.map Job.id).toFinset := by
    intro k hk
    obtain ⟨j, hj, rfl⟩ := mem_map.mp (mem_toFinset.mp hk)
    obtain ⟨j', hj', hid, -⟩ := hlater j hj
    exact mem_toFinset.mpr (mem_map.mpr ⟨j', hj', hid⟩)
  have hgrow := Finset.sum_le_sum hadded
  have hmore := Finset.sum_le_sum_of_subset hsub (f := s'.added)
  have hterms := (Finset.sum_eq_sum_iff_of_le hadded).mp (by omega)
  have hview : ∀ j ∈ b.children, ∀ j' ∈ b'.children, j'.id = j.id → Newer j j' →
      (j'.id, j'.view) = (j.id, j.view) := by
    intro j hj j' hj' hid hnew
    have hterm := hterms j.id (mem_toFinset.mpr (mem_map.mpr ⟨j, hj, rfl⟩))
    rw [Store.added, Store.added, ((hmem j).mp hj).1, ← hid, ((hmem' j').mp hj').1] at hterm
    have hle := hnew.revision
    have hj₀ := hpos _ j ((hmem j).mp hj).1
    simp only [Option.map_some, Option.getD_some] at hterm
    rw [hid, hnew.view (by omega)]
  have hnodup : ∀ {jobs : List Job}, (jobs.map Job.id).Nodup →
      (jobs.map fun j => (j.id, j.view)).Nodup := by
    intro jobs hids
    refine .of_map Prod.fst ?_
    rwa [map_map]
  refine ⟨?_, (perm_ext_iff_of_nodup (hnodup (readBatch_rows h').nodup)
    (hnodup (readBatch_rows h).nodup)).mpr fun seen => ?_⟩
  · rw [hflag, hflag', hsame (by omega)]
  · rw [mem_map, mem_map]
    constructor
    · rintro ⟨j', hj', rfl⟩
      obtain ⟨j, hj, hid, hnew⟩ := hearlier j' hj'
      exact ⟨j, hj, (hview j hj j' hj' hid hnew).symm⟩
    · rintro ⟨j, hj, rfl⟩
      obtain ⟨j', hj', hid, hnew⟩ := hlater j hj
      exact ⟨j', hj', hview j hj j' hj' hid hnew⟩

/-- A call that adds no job to the batch: neither by itself nor through its callback. -/
def Spares (id : ID) (w : World β) (l : Label β) : Prop :=
  l.call.Adds (fun input => input.batchID ≠ some id) w.store.business

/-- **Runs without additions.** Every job of the batch was there before. -/
theorem evolves_of_spares {w w' : World β} (hrun : ((queue wire).restrict (Spares id)).Run w w') :
    Evolves (fun input => input.batchID ≠ some id) w.store w'.store := by
  induction hrun with
  | refl => exact .refl _
  | step _ hstep ih => exact ih.trans (actions_evolves (step_actions hstep.1 hstep.2))

/-- **The revision of a batch is a sound token.** -/
theorem batch_revision_sound {w w' : World β} (hw : (queue wire).Reach w)
    (hrun : ((queue wire).restrict (Spares id)).Run w w')
    (hread : readBatch w.store scope id = .ok b) :
    (∀ b', readBatch w'.store scope id = .ok b' → b'.revision = b.revision → Unchanged b b') ∧
    ∀ env actor s', cancel wire env w'.store scope id b.revision actor = .ok s' →
      ((w'.store.jobs.find? id).filter fun j => j.scopeID = scope) = none →
      ∃ b', readBatch w'.store scope id = .ok b' ∧ Unchanged b b' := by
  have hbatches : BatchesGrow w.store.batches w'.store.batches := by
    refine Run.store_relation (R := fun s s' => BatchesGrow s.batches s'.batches)
      (fun _ => .refl _) (fun _ _ _ => .trans) (fun _ _ _ hact => ?_) hw hrun.of_restrict
    cases hact with
    | queue h => exact (queueAction_frame h).2.2
    | business => exact .refl _
  have hev := evolves_of_spares hrun
  have hjobs : ∀ k j, w.store.jobs.find? k = some j →
      ∃ j', w'.store.jobs.find? k = some j' ∧ Newer j j' := by
    intro k j hj
    obtain ⟨j', hj', hc⟩ := hev.kept k j hj
    exact ⟨j', hj', .of_changes hc⟩
  have hnone : ∀ k j', w'.store.jobs.find? k = some j' → j'.batchID = some id →
      ∃ j, w.store.jobs.find? k = some j := by
    intro k j' hj' hbatch
    cases hj : w.store.jobs.find? k with
    | some j => exact ⟨j, rfl⟩
    | none =>
      obtain ⟨env, n, input, hother, hnew⟩ := hev.fresh k j' hj hj'
      exact absurd ((Newer.of_changes hnew).batchID.symm.trans hbatch) hother
  have hall : ∀ b', readBatch w'.store scope id = .ok b' → b'.revision = b.revision →
      Unchanged b b' := fun b' hread' =>
    unchanged_of_revision (fun _ _ => Reach.revision_pos hw) hjobs hnone hbatches hread hread'
  refine ⟨hall, fun env actor s' hcancel hnojob => ?_⟩
  unfold cancel at hcancel
  split_ifs at hcancel
  rw [hnojob] at hcancel
  cases hread' : readBatch w'.store scope id with
  | error e =>
    rw [hread'] at hcancel
    cases hcancel
  | ok b' =>
    rw [hread'] at hcancel
    dsimp only at hcancel
    unfold cancelBatch at hcancel
    split_ifs at hcancel with hrev
    exact ⟨b', rfl, hall b' hread' (by simpa using hrev)⟩

end

def createPair : Label Unit where
  env := { instantEnv 1 refreshWorker with
    newID use := if use = .job 0 then refreshJob else refreshWorker }
  call := .createBatch ⟨some refreshSource, refreshScope, 0, 1000, List.replicate 2
    ⟨none, refreshScope, none, .apiWorker, .compile, [0], none⟩⟩

def claimPair : Label Unit where
  env := instantEnv 2 "00000000-0000-4000-8000-000000000012"
  call := .claim ⟨.apiWorker, refreshWorker, [.compile], [], noSlots, noSlots⟩

/-- A batch of two compilations, one of them leased. -/
def pair : World Unit := ((emptyWorld ()).next plainWire createPair).next plainWire claimPair

def beat : Label Unit := ⟨instantEnv 3 "", .heartbeat (refreshLease 1)⟩

def beatPair : World Unit := pair.next plainWire beat

/-- A heartbeat extends the lease and leaves the batch as it looks. -/
theorem batch_revision_sound_pair :
    ∃ b b', readBatch pair.store refreshScope refreshSource = .ok b ∧
    b.children.map Job.state = [.leased, .queued] ∧
    readBatch beatPair.store refreshScope refreshSource = .ok b' ∧ b'.children ≠ b.children ∧
    Unchanged b b' := by
  have hw : (queue plainWire).Reach pair :=
    Reach.next (Reach.next (reach_emptyWorld ()) createPair (Nat.zero_le _) le_rfl) _
      (by decide) le_rfl
  have hrun : ((queue plainWire).restrict (Spares refreshSource)).Run pair beatPair :=
    .step (l := beat) (.refl _) ⟨trivial, by decide, le_rfl, rfl⟩
  have hsome : ((readBatch pair.store refreshScope refreshSource).toOption.map fun b =>
      (b.children.map fun j => (j.state, j.leaseUntil), b.revision)) =
        some ([(.leased, some 30000002), (.queued, none)], 2) := by decide
  have hsome' : ((readBatch beatPair.store refreshScope refreshSource).toOption.map fun b =>
      (b.children.map fun j => (j.state, j.leaseUntil), b.revision)) =
        some ([(.leased, some 30000003), (.queued, none)], 2) := by decide
  obtain ⟨b, hread, hlook⟩ := Except.toOption_map_eq_some_iff.mp hsome
  obtain ⟨b', hread', hlook'⟩ := Except.toOption_map_eq_some_iff.mp hsome'
  obtain ⟨hjobs, hrev⟩ := Prod.mk.inj hlook
  obtain ⟨hjobs', hrev'⟩ := Prod.mk.inj hlook'
  refine ⟨b, b', hread, ?_, hread', fun heq => ?_,
    (batch_revision_sound hw hrun hread).1 b' hread' (hrev'.trans hrev.symm)⟩
  · have hstates := congrArg (List.map Prod.fst) hjobs
    rwa [map_map] at hstates
  · rw [heq, hjobs] at hjobs'
    exact absurd hjobs' (by decide)

end ProxyLoom.Jobs
