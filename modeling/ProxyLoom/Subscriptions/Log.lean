import ProxyLoom.Lib.Journal
import ProxyLoom.Subscriptions.Invariants

/-!
# The log of publications

The publications of a profile, in the order they were committed, are a journal: numbered by
generation, with the head as its last entry, and with every entry that Publish made following the
base of its batch. A batch that is ready has one validated output for each of its targets.
-/

namespace ProxyLoom.Subscriptions

open IR Catalog Journal List

variable {svc : Service} {s s' : Store} {scope profile : ID} {p : PublicationRow} {b : BatchRow}

/-! ## Journals -/

/-- The publications of a profile, oldest first. -/
def log (s : Store) (scope profile : ID) : List PublicationRow :=
  s.business.publications.rows.filter fun p => p.scopeID = scope && p.profileID = profile

/-- Publish made the publication from a batch with this base. -/
def Based (s : Store) (p : PublicationRow) (base : Option ID) : Prop :=
  p.sourcePublicationID = none ∧
    ∃ b, s.business.batches.find? p.batchID = some b ∧ b.basePublicationID = base

structure Logbook (s : Store) : Prop where
  numbered : ∀ scope profile, Numbered PublicationRow.generation (log s scope profile)
  head : ∀ scope profile, (s.business.heads.find? (scope, profile)).map HeadRow.publicationID =
    (log s scope profile).getLast?.map PublicationRow.id
  chained : ∀ scope profile, Chained PublicationRow.id (Based s) (log s scope profile)

theorem mem_log :
    p ∈ log s scope profile ↔
      p ∈ s.business.publications.rows ∧ p.scopeID = scope ∧ p.profileID = profile := by
  unfold log
  rw [mem_filter, Bool.and_eq_true, decide_eq_true_eq, decide_eq_true_eq]

theorem log_nodup : ((log s scope profile).map PublicationRow.id).Nodup :=
  s.business.publications.nodup.sublist (filter_sublist.map _)

theorem Logbook.headID_eq (h : Logbook s) (scope profile : ID) :
    headID s.business scope profile =
      (log s scope profile).getLast?.map fun p => (p.id, p.generation) := by
  have hhead := h.head scope profile
  unfold headID
  cases hlast : (log s scope profile).getLast? with
  | none =>
    rw [hlast, Option.map_none, Option.map_eq_none_iff] at hhead
    rw [hhead]
    rfl
  | some p =>
    rw [hlast, Option.map_some] at hhead
    obtain ⟨row, hrow, hid⟩ := Option.map_eq_some_iff.mp hhead
    have hp : p ∈ s.business.publications.rows := (mem_log.mp (mem_of_getLast? hlast)).1
    have hfound : s.business.publications.find? p.id = some p := Table.find?_of_mem hp
    rw [hrow, Option.bind_some, hid, hfound, Option.map_some]

theorem Logbook.headGeneration_eq (h : Logbook s) (scope profile : ID) :
    headGeneration s.business scope profile = (log s scope profile).length := by
  unfold headGeneration
  rw [h.headID_eq]
  cases hlast : (log s scope profile).getLast? with
  | none =>
    rw [List.getLast?_eq_none_iff.mp hlast]
    rfl
  | some p => exact (h.numbered scope profile).last hlast

/-! ## Effects on journals -/

theorem log_of_publications (h : s'.business.publications = s.business.publications) :
    log s' scope profile = log s scope profile := by
  unfold log
  rw [h]

theorem log_of_publishes (h : Publishes s s' p b) :
    log s' scope profile = log s scope profile ++
      if p.scopeID = scope ∧ p.profileID = profile then [p] else [] := by
  unfold log
  rw [(Table.insert?_eq_some_iff.mp h.inserted).2, filter_append]
  congr 1
  by_cases hp : p.scopeID = scope ∧ p.profileID = profile
  · simp [hp]
  · rw [if_neg hp, filter_cons_of_neg, filter_nil]
    simpa using hp

theorem based_of_grows (hs : Sourced svc s) (hgrows : Grows s s')
    (hp : p ∈ s.business.publications.rows) {base : Option ID} (h : Based s' p base) :
    Based s p base := by
  obtain ⟨hsource, b', hb', hbase⟩ := h
  obtain ⟨b, hb, -⟩ := hs.pinned p hp
  obtain ⟨b₁, hb₁, hsame⟩ := hgrows.batches _ b hb
  rw [hb'] at hb₁
  cases hb₁
  exact ⟨hsource, b, hb, hsame.base.symm.trans hbase⟩

theorem chained_of_grows (hs : Sourced svc s) (hgrows : Grows s s')
    (h : Chained PublicationRow.id (Based s) (log s scope profile)) :
    Chained PublicationRow.id (Based s') (log s scope profile) :=
  h.mono fun _ hp _ => based_of_grows hs hgrows (mem_log.mp hp).1

theorem logbook_publishes (hs : Sourced svc s) (h : Logbook s) (hp : Publishes s s' p b) :
    Logbook s' := by
  have hgrows : Grows s s' := @effect_grows svc _ _ (.publish hp)
  refine ⟨fun scope profile => ?_, fun scope profile => ?_, fun scope profile => ?_⟩
  · rw [log_of_publishes hp]
    split_ifs with hown
    · refine (h.numbered scope profile).snoc ?_
      rw [hp.generation, hown.1, hown.2, h.headGeneration_eq]
    · rw [append_nil]
      exact h.numbered scope profile
  · rw [log_of_publishes hp, hp.heads, Table.find?_upsert]
    split_ifs with hkey hown hown
    · rw [List.getLast?_concat]
      rfl
    · refine absurd ?_ hown
      simp only [HeadRow.key, Prod.mk.injEq] at hkey
      exact ⟨hkey.1.symm, hkey.2.symm⟩
    · refine absurd ?_ hkey
      simp only [HeadRow.key, hown.1, hown.2]
    · rw [append_nil]
      exact h.head scope profile
  · rw [log_of_publishes hp]
    have hold := chained_of_grows hs hgrows (h.chained scope profile)
    split_ifs with hown
    · refine hold.snoc ?_
      rintro base ⟨hsource, b', hb', rfl⟩
      rw [hp.batches, hp.found] at hb'
      cases hb'
      rw [← (hp.own hsource).2, h.headID_eq, Option.map_map, hown.1, hown.2]
      rfl
    · rw [append_nil]
      exact hold

theorem logbook_effect (hs : Sourced svc s) (h : Logbook s) (heffect : Effect svc s s') :
    Logbook s' := by
  rcases effect_publication heffect with ⟨hpublications, hheads⟩ | ⟨p, b, hp⟩
  · refine ⟨fun scope profile => ?_, fun scope profile => ?_, fun scope profile => ?_⟩
    · rw [log_of_publications hpublications]
      exact h.numbered scope profile
    · rw [log_of_publications hpublications, hheads]
      exact h.head scope profile
    · rw [log_of_publications hpublications]
      exact chained_of_grows hs (effect_grows heffect) (h.chained scope profile)
  · exact logbook_publishes hs h hp

/-- **The log of every profile is a journal.** -/
theorem Reach.logbook {w : World} (hw : (subscriptions svc).Reach w) : Logbook w.store := by
  have hboth : Sourced svc w.store ∧ Logbook w.store := by
    refine Reach.store_invariant (P := fun s => Sourced svc s ∧ Logbook s) ?_ ?_ hw
    · intro catalog coreBuilds tokens
      exact ⟨sourced_initial catalog coreBuilds tokens,
        fun _ _ => numbered_nil, fun _ _ => rfl, fun _ _ => chained_nil⟩
    · rintro s s' ⟨hs, h⟩ heffect
      exact ⟨sourced_effect hs heffect, logbook_effect hs h heffect⟩
  exact hboth.2

/-! ## Complete batches -/

def outputsOf (s : Store) (b : BatchRow) : List OutputRow :=
  s.business.outputs.rows.filter fun o => o.scopeID = b.scopeID && o.batchID = b.id

theorem mem_outputsOf {o : OutputRow} :
    o ∈ outputsOf s b ↔
      o ∈ s.business.outputs.rows ∧ o.scopeID = b.scopeID ∧ o.batchID = b.id := by
  unfold outputsOf
  rw [mem_filter, Bool.and_eq_true, decide_eq_true_eq, decide_eq_true_eq]

theorem outputsOf_nodup (s : Store) (b : BatchRow) :
    ((outputsOf s b).map OutputRow.targetKey).Nodup := by
  have hrows : (outputsOf s b).Nodup :=
    (List.Nodup.of_map _ s.business.outputs.nodup).sublist filter_sublist
  refine (nodup_map_iff_inj_on hrows).mpr fun o ho o' ho' hkey => ?_
  obtain ⟨hmem, hscope, hbatch⟩ := mem_outputsOf.mp ho
  obtain ⟨hmem', hscope', hbatch'⟩ := mem_outputsOf.mp ho'
  refine inj_on_of_nodup_map s.business.outputs.nodup hmem hmem' ?_
  simp only [OutputRow.key, hscope, hscope', hbatch, hbatch', hkey]

theorem outputsOf_targets (hs : Sourced svc s) (hb : s.business.batches.find? b.id = some b) :
    (outputsOf s b).map OutputRow.targetKey ⊆ targetKeys b := by
  intro key hkey
  obtain ⟨o, ho, rfl⟩ := mem_map.mp hkey
  obtain ⟨hmem, -, hbatch⟩ := mem_outputsOf.mp ho
  obtain ⟨⟨b', hb', -, target, htarget, hname, -⟩, -⟩ := hs.attributed o hmem
  rw [hbatch, hb] at hb'
  cases hb'
  rw [← hname]
  exact mem_map_of_mem htarget

theorem length_outputsOf_le (hs : Sourced svc s) (hb : s.business.batches.find? b.id = some b) :
    (outputsOf s b).length ≤ b.frozen.input.targets.length := by
  have hle := (subperm_of_subset (outputsOf_nodup s b) (outputsOf_targets hs hb)).length_le
  unfold targetKeys at hle
  rw [length_map, length_map] at hle
  exact hle

/-- Every output has its job, so none is missing from the outputs with jobs. -/
theorem length_outputJobs (hs : Sourced svc s) (b : BatchRow) :
    (outputJobs s b.scopeID b.id).length = (outputsOf s b).length := by
  unfold outputJobs
  rw [filterMap_length_eq_length.mpr, length_insertionSort]
  · rfl
  · intro o ho
    have hmem := (mem_insertionSort _).mp ho
    obtain ⟨-, j, hj⟩ := hs.attributed o (mem_filter.mp hmem).1
    rw [hj]
    rfl

theorem complete_iff (hs : Sourced svc s) (b : BatchRow) :
    Complete s b ↔ (outputsOf s b).length = b.frozen.input.targets.length := by
  unfold Complete
  rw [length_outputJobs hs]

theorem output_of_complete (hs : Sourced svc s) (hb : s.business.batches.find? b.id = some b)
    (h : Complete s b) {target : Target} (htarget : target ∈ b.frozen.input.targets) :
    ∃ o ∈ outputsOf s b, o.targetKey = target.key := by
  have hsub := subperm_of_subset (outputsOf_nodup s b) (outputsOf_targets hs hb)
  -- as many outputs as targets, so none of the keys is left out
  have hperm := hsub.perm_of_length_le (by
    rw [complete_iff hs] at h
    unfold targetKeys
    rw [length_map, length_map, h])
  have hkey : target.key ∈ targetKeys b := mem_map_of_mem htarget
  obtain ⟨o, ho, hname⟩ := mem_map.mp (hperm.mem_iff.mpr hkey)
  exact ⟨o, ho, hname⟩

/-- A complete batch stays complete: outputs are never lost, and there are never more than
targets. -/
theorem complete_of_grows (hs : Sourced svc s) (hs' : Sourced svc s') (hgrows : Grows s s')
    {b' : BatchRow} (hid : b'.id = b.id) (hsame : b.SameInput b')
    (hb' : s'.business.batches.find? b'.id = some b') (h : Complete s b) : Complete s' b' := by
  rw [complete_iff hs] at h
  rw [complete_iff hs', hsame.frozen]
  have hle := length_outputsOf_le hs' hb'
  rw [hsame.frozen] at hle
  have hkept : (outputsOf s b).length ≤ (outputsOf s' b').length := by
    refine (subperm_of_subset (List.Nodup.of_map _ (outputsOf_nodup s b)) ?_).length_le
    intro o ho
    obtain ⟨hmem, hscope, hbatch⟩ := mem_outputsOf.mp ho
    exact mem_outputsOf.mpr
      ⟨hgrows.outputs hmem, hscope.trans hsame.scopeID.symm, hbatch.trans hid.symm⟩
  omega

def ReadyComplete (s : Store) : Prop :=
  ∀ k b, s.business.batches.find? k = some b → b.state = .ready → Complete s b

theorem readyComplete_effect (hs : Sourced svc s) (h : ReadyComplete s)
    (heffect : Effect svc s s') : ReadyComplete s' := by
  intro k b' hb' hstate
  have hid' : b'.id = k := Table.key_of_find? hb'
  rcases effect_batch heffect hb' with ⟨b, hb, hsame, hready⟩ | hf
  · have hid : b.id = k := Table.key_of_find? hb
    have hcomplete : Complete s b := (hready hstate).elim (h k b hb) id
    refine complete_of_grows hs (sourced_effect hs heffect) (effect_grows heffect)
      (hid'.trans hid.symm) hsame ?_ hcomplete
    rw [hid']
    exact hb'
  · rw [hf.queued] at hstate
    cases hstate

/-- **Ready batches are complete.** -/
theorem Reach.ready {w : World} (hw : (subscriptions svc).Reach w) : ReadyComplete w.store := by
  have hboth : Sourced svc w.store ∧ ReadyComplete w.store := by
    refine Reach.store_invariant (P := fun s => Sourced svc s ∧ ReadyComplete s) ?_ ?_ hw
    · intro catalog coreBuilds tokens
      exact ⟨sourced_initial catalog coreBuilds tokens, fun _ _ hb => by cases hb⟩
    · rintro s s' ⟨hs, h⟩ heffect
      exact ⟨sourced_effect hs heffect, readyComplete_effect hs h heffect⟩
  exact hboth.2

end ProxyLoom.Subscriptions
