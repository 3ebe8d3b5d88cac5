import ProxyLoom.Subscriptions.Download
import ProxyLoom.Subscriptions.Log

/-!
# Two checks of one publication

Publishing, rolling back and reading a publication walk the frozen input (`safeBatch`); a download
joins the rows that were written with the publication (`safePublished`). They agree because those
rows are the exact image of the frozen input.
-/

namespace ProxyLoom.Subscriptions

open IR Catalog List Except

variable {svc : Service} {s s' : Store} {t : Tables} {p : PublicationRow} {b : BatchRow}

/-! ## The rows of a publication -/

/-- The row pins a dependency of its publication's batch. -/
def PinOf (s : Store) (row : DependencyRow) : Prop :=
  ∃ p ∈ s.business.publications.rows, ∃ b, s.business.batches.find? p.batchID = some b ∧
    ∃ d ∈ b.frozen.dependencies,
      row = ⟨p.id, p.scopeID, d.resourceID, d.revision, d.securityEpoch⟩

def Describes (s : Store) (o : OutputRow) : Prop :=
  ∃ b, s.business.batches.find? o.batchID = some b ∧ ∃ target ∈ b.frozen.input.targets,
    target.key = o.targetKey ∧ target.coreBuildID = o.coreBuildID ∧
      target.format = o.descriptor.format

structure Manifest (s : Store) : Prop where
  pins : ∀ row ∈ s.business.dependencies.rows, PinOf s row
  describes : ∀ o ∈ s.business.outputs.rows, Describes s o
  complete : ∀ p ∈ s.business.publications.rows,
    ∃ b, s.business.batches.find? p.batchID = some b ∧ Complete s b

theorem PinOf.grows {row : DependencyRow} (h : PinOf s row) (hgrows : Grows s s') :
    PinOf s' row := by
  obtain ⟨p, hp, b, hb, d, hd, rfl⟩ := h
  obtain ⟨b', hb', hsame⟩ := hgrows.batches _ b hb
  refine ⟨p, hgrows.publications.subset hp, b', hb', d, ?_, rfl⟩
  rw [hsame.frozen]
  exact hd

theorem Describes.grows {o : OutputRow} (h : Describes s o) (hgrows : Grows s s') :
    Describes s' o := by
  obtain ⟨b, hb, target, htarget, hfacts⟩ := h
  obtain ⟨b', hb', hsame⟩ := hgrows.batches _ b hb
  refine ⟨b', hb', target, ?_, hfacts⟩
  rw [hsame.frozen]
  exact htarget

theorem effect_dependency (h : Effect svc s s') {row : DependencyRow}
    (hrow : row ∈ s'.business.dependencies.rows) :
    row ∈ s.business.dependencies.rows ∨ PinOf s' row := by
  cases h with
  | other _ _ hsame =>
    rw [hsame.dependencies] at hrow
    exact Or.inl hrow
  | settle => exact Or.inl hrow
  | freeze hf =>
    rw [hf.dependencies] at hrow
    exact Or.inl hrow
  | commit hc =>
    obtain ⟨scope, outputs, -, -, hwrite⟩ := write_ok hc.write
    rw [hwrite] at hrow
    exact Or.inl hrow
  | @publish _ p b hp =>
    refine (hp.only row hrow).imp id ?_
    rintro ⟨d, hd, rfl⟩
    refine ⟨p, (Table.mem_insert? hp.inserted p).mpr (Or.inr rfl), b, ?_, d, hd, rfl⟩
    rw [hp.batches]
    exact hp.found

theorem commits_describes {p : Prepared} {ids : FreshIDs} {state : BatchState} {o : OutputRow}
    (h : Commits svc s s' p ids) (ho : o ∈ p.rows svc ids state) : Describes s' o := by
  obtain ⟨-, c, hc, rfl⟩ := mem_rows ho
  obtain ⟨b, hb, hsame⟩ := h.batch
  obtain ⟨b', hb', hsame'⟩ := (effect_grows (.commit h)).batches _ b hb
  have hinput : b'.SameInput p.batch := hsame'.symm.trans hsame
  rw [h.prepared] at hc
  obtain ⟨target, htarget, hcompiled⟩ := mem_filterMap.mp hc
  obtain ⟨hname, -⟩ := compileTarget_ok (eq_ok_of_toOption hcompiled)
  refine ⟨b', hb', target, ?_, ?_, ?_, ?_⟩
  · rw [← hinput.frozen]
    exact htarget
  · rw [← hname]
    rfl
  · rw [← hname]
    rfl
  · rw [← hname]
    rfl

theorem complete_published (hs : Sourced svc s) (hready : ReadyComplete s)
    (heffect : Effect svc s s') (hb : s.business.batches.find? p.batchID = some b)
    (hcomplete : b.state = .ready ∨ Complete s b) :
    ∃ b', s'.business.batches.find? p.batchID = some b' ∧ Complete s' b' := by
  have hgrows := effect_grows heffect
  obtain ⟨b', hb', hsame⟩ := hgrows.batches _ b hb
  have hid : b.id = p.batchID := Table.key_of_find? hb
  have hid' : b'.id = p.batchID := Table.key_of_find? hb'
  refine ⟨b', hb', complete_of_grows hs (sourced_effect hs heffect) hgrows
    (hid'.trans hid.symm) hsame ?_ (hcomplete.elim (hready _ b hb) id)⟩
  rw [hid']
  exact hb'

theorem manifest_effect (hs : Sourced svc s) (hready : ReadyComplete s) (h : Manifest s)
    (heffect : Effect svc s s') : Manifest s' := by
  have hgrows := effect_grows heffect
  refine ⟨fun row hrow => ?_, fun o ho => ?_, fun p hp => ?_⟩
  · exact (effect_dependency heffect hrow).elim (fun hold => (h.pins row hold).grows hgrows) id
  · rcases effect_output heffect ho with hold | ⟨p, ids, scope, hc, -, hnew⟩
    · exact (h.describes o hold).grows hgrows
    · exact commits_describes hc hnew
  · have hold : p ∈ s.business.publications.rows ∨ ∃ b, Publishes s s' p b := by
      rcases effect_publication heffect with ⟨hsame, -⟩ | ⟨q, b, hq⟩
      · rw [hsame] at hp
        exact Or.inl hp
      · rcases (Table.mem_insert? hq.inserted p).mp hp with hp | rfl
        · exact Or.inl hp
        · exact Or.inr ⟨b, hq⟩
    rcases hold with hp | ⟨b, hq⟩
    · obtain ⟨b, hb, hcomplete⟩ := h.complete p hp
      exact complete_published hs hready heffect hb (Or.inr hcomplete)
    · exact complete_published hs hready heffect hq.found hq.ready

/-- **The rows of a publication are the image of its batch.** -/
theorem Reach.manifest {w : World} (hw : (subscriptions svc).Reach w) : Manifest w.store := by
  have hall : Sourced svc w.store ∧ ReadyComplete w.store ∧ Manifest w.store := by
    refine Reach.store_invariant
      (P := fun s => Sourced svc s ∧ ReadyComplete s ∧ Manifest s) ?_ ?_ hw
    · intro catalog coreBuilds tokens
      refine ⟨sourced_initial catalog coreBuilds tokens, fun k b hb => ?_,
        fun row hrow => ?_, fun o ho => ?_, fun p hp => ?_⟩
      · cases hb
      · cases hrow
      · cases ho
      · cases hp
    · rintro s s' ⟨hs, hready, h⟩ heffect
      exact ⟨sourced_effect hs heffect, readyComplete_effect hs hready heffect,
        manifest_effect hs hready h heffect⟩
  exact hall.2.2

/-! ## The checks as conditions -/

/-- The build is enabled and the profile authorizes the target. -/
def TargetSafe (t : Tables) (p : SubscriptionProfile) (build : ID) (key : String)
    (format : OutputFormat) : Prop :=
  ((t.coreBuilds.find? build).any fun c => c.enabled) = true ∧ authorizes p key format = true

theorem safeTargets_eq_ok_iff {p : SubscriptionProfile} {targets : List Target} :
    safeTargets t p targets = .ok () ↔
      ∀ target ∈ targets, TargetSafe t p target.coreBuildID target.key target.format := by
  induction targets with
  | nil => simp [safeTargets]
  | cons target targets ih =>
    rw [forall_mem_cons, ← ih, safeTargets]
    unfold TargetSafe
    cases hbuild : t.coreBuilds.find? target.coreBuildID with
    | none => simp [notFound]
    | some c =>
      dsimp only
      rw [ite_error_eq_ok_iff]
      simp

theorem safeBatch_eq_ok_iff {current : Resource × SubscriptionProfile} :
    safeBatch t b current = .ok () ↔ current.1.metadata.enabled = true ∧
      (∃ scope, t.scopes.find? b.scopeID = some scope ∧ scope.authEpoch = b.authEpoch) ∧
      (∀ d ∈ b.frozen.dependencies,
        dependencyOk t b.scopeID d.resourceID d.securityEpoch = true) ∧
      ∀ target ∈ b.frozen.input.targets,
        TargetSafe t current.2 target.coreBuildID target.key target.format := by
  unfold safeBatch
  rw [ite_error_eq_ok_iff, bind_eq_ok_iff, Bool.not_eq_true', Bool.not_eq_false]
  refine and_congr_right fun _ => ?_
  constructor
  · rintro ⟨scope, hscope, h⟩
    obtain ⟨hepoch, h⟩ := of_ite h
    obtain ⟨hdeps, htargets⟩ := of_ite h
    rw [Bool.not_eq_true', Bool.not_eq_false, all_eq_true] at hdeps
    exact ⟨⟨scope, lockScope_ok.mp hscope, not_not.mp hepoch⟩, hdeps,
      safeTargets_eq_ok_iff.mp htargets⟩
  · rintro ⟨⟨scope, hscope, hepoch⟩, hdeps, htargets⟩
    refine ⟨scope, lockScope_ok.mpr hscope, ?_⟩
    rw [if_neg (not_not.mpr hepoch), if_neg]
    · exact safeTargets_eq_ok_iff.mpr htargets
    · rw [Bool.not_eq_true', Bool.not_eq_false, all_eq_true]
      exact hdeps

theorem safePublished_eq_ok_iff {current : Resource × SubscriptionProfile} :
    safePublished t p current = .ok () ↔ current.1.metadata.enabled = true ∧
      ∃ scope b, t.scopes.find? p.scopeID = some scope ∧
        readBatch t p.scopeID p.batchID = .ok b ∧ b.authEpoch = scope.authEpoch ∧
        (∀ d ∈ t.dependencies.rows, d.publicationID = p.id →
          dependencyOk t d.scopeID d.resourceID d.securityEpoch = true) ∧
        ∀ o ∈ t.outputs.rows, o.scopeID = p.scopeID → o.batchID = p.batchID →
          TargetSafe t current.2 o.coreBuildID o.targetKey o.descriptor.format := by
  unfold safePublished
  rw [ite_error_eq_ok_iff, bind_eq_ok_iff, Bool.not_eq_true', Bool.not_eq_false]
  refine and_congr_right fun _ => exists_congr fun scope => ?_
  rw [lockScope_ok, bind_eq_ok_iff, ← exists_and_left]
  refine exists_congr fun b => and_congr_right fun _ => and_congr_right fun _ => ?_
  rw [ite_error_eq_ok_iff]
  simp only [ne_eq, Bool.or_eq_true, decide_eq_true_eq, Bool.not_eq_true', not_or, not_not,
    Bool.not_eq_false, all_eq_true, mem_filter, Bool.and_eq_true, and_imp,
    pure_eq_ok_iff, and_true, and_assoc]
  refine and_congr_right fun _ => and_congr_right fun _ => ?_
  unfold TargetSafe
  constructor
  · rintro ⟨hbuilds, htargets⟩ o ho hscope hbatch
    exact ⟨hbuilds o ho hscope hbatch, htargets o ho hscope hbatch⟩
  · intro h
    exact ⟨fun o ho hscope hbatch => (h o ho hscope hbatch).1,
      fun o ho hscope hbatch => (h o ho hscope hbatch).2⟩

/-! ## Agreement -/

/-- The pins of a publication, whatever the catalog, hold when the dependencies do. -/
theorem pins_iff (hs : Sourced svc s) (hm : Manifest s) (hp : p ∈ s.business.publications.rows)
    (hb : s.business.batches.find? p.batchID = some b) (ok : ID → ID → ℕ → Prop) :
    (∀ d ∈ b.frozen.dependencies, ok b.scopeID d.resourceID d.securityEpoch) ↔
      ∀ row ∈ s.business.dependencies.rows, row.publicationID = p.id →
        ok row.scopeID row.resourceID row.securityEpoch := by
  obtain ⟨b', hb', hscope, -, hpins⟩ := hs.pinned p hp
  rw [hb] at hb'
  cases hb'
  constructor
  · intro h row hrow hid
    obtain ⟨q, hq, bq, hbq, d, hd, rfl⟩ := hm.pins row hrow
    -- publications are keyed by their ID, so the pin is one of this publication
    have hsame : q = p := by
      have hqfound : s.business.publications.find? q.id = some q := Table.find?_of_mem hq
      have hpfound : s.business.publications.find? p.id = some p := Table.find?_of_mem hp
      rw [show q.id = p.id from hid, hpfound] at hqfound
      exact (Option.some.inj hqfound).symm
    subst hsame
    rw [hb] at hbq
    cases hbq
    rw [← hscope]
    exact h d hd
  · intro h d hd
    rw [hscope]
    exact h _ (hpins d hd) rfl

theorem outputs_iff (hs : Sourced svc s) (hm : Manifest s) (hp : p ∈ s.business.publications.rows)
    (hb : s.business.batches.find? p.batchID = some b) (hscope : b.scopeID = p.scopeID)
    (ok : ID → String → OutputFormat → Prop) :
    (∀ target ∈ b.frozen.input.targets, ok target.coreBuildID target.key target.format) ↔
      ∀ o ∈ s.business.outputs.rows, o.scopeID = p.scopeID → o.batchID = p.batchID →
        ok o.coreBuildID o.targetKey o.descriptor.format := by
  have hid : b.id = p.batchID := Table.key_of_find? hb
  constructor
  · intro h o ho _ hbatch
    obtain ⟨b', hb', target, htarget, hkey, hbuild, hformat⟩ := hm.describes o ho
    rw [hbatch, hb] at hb'
    cases hb'
    rw [← hkey, ← hbuild, ← hformat]
    exact h target htarget
  · intro h target htarget
    obtain ⟨b', hb', hcomplete⟩ := hm.complete p hp
    rw [hb] at hb'
    cases hb'
    obtain ⟨o, ho, hkey⟩ := output_of_complete hs (by rw [hid]; exact hb) hcomplete htarget
    obtain ⟨hmem, hoscope, hobatch⟩ := mem_outputsOf.mp ho
    obtain ⟨b', hb', target', htarget', hkey', hbuild, hformat⟩ := hm.describes o hmem
    rw [hobatch, hid, hb] at hb'
    cases hb'
    -- a batch has one target under each key
    have hsame : target' = target :=
      inj_on_of_nodup_map b.frozen.targets_nodup htarget' htarget (hkey'.trans hkey)
    subst hsame
    rw [hbuild, hformat, ← hkey]
    exact h o hmem (hoscope.trans hscope) (hobatch.trans hid)

/-- **The safety checks agree.** For every publication of a reachable state, and whatever the
scopes, the resources, the builds and the profile have become. -/
theorem safeBatch_iff_safePublished {w : World} (hw : (subscriptions svc).Reach w)
    {p : PublicationRow} (hp : p ∈ w.store.business.publications.rows)
    (catalog : Catalog.Tables) (coreBuilds : Table CoreBuildRow.id)
    (current : Resource × SubscriptionProfile) :
    ∃ b, w.store.business.batches.find? p.batchID = some b ∧
      (safeBatch { w.store.business with toTables := catalog, coreBuilds := coreBuilds } b current =
          .ok () ↔
        safePublished { w.store.business with toTables := catalog, coreBuilds := coreBuilds } p
          current = .ok ()) := by
  have hs := Reach.sourced hw
  have hm := Reach.manifest hw
  obtain ⟨b, hb, hscope, -, -⟩ := hs.pinned p hp
  refine ⟨b, hb, ?_⟩
  rw [safeBatch_eq_ok_iff, safePublished_eq_ok_iff]
  refine and_congr_right fun _ => ?_
  have hread : ∀ b', readBatch
      { w.store.business with toTables := catalog, coreBuilds := coreBuilds }
      p.scopeID p.batchID = .ok b' ↔ b' = b := by
    intro b'
    rw [readBatch_ok]
    show w.store.business.batches.find? p.batchID = some b' ∧ _ ↔ _
    rw [hb]
    constructor
    · rintro ⟨hsome, -⟩
      exact (Option.some.inj hsome).symm
    · rintro rfl
      exact ⟨rfl, hscope⟩
  have hpins := pins_iff hs hm hp hb fun scope id epoch => dependencyOk
    { w.store.business with toTables := catalog, coreBuilds := coreBuilds } scope id epoch = true
  have htargets := outputs_iff hs hm hp hb hscope
    (TargetSafe { w.store.business with toTables := catalog, coreBuilds := coreBuilds } current.2)
  constructor
  · rintro ⟨⟨scope, hfound, hepoch⟩, hdeps, hall⟩
    rw [hscope] at hfound
    exact ⟨scope, b, hfound, (hread b).mpr rfl, hepoch.symm, hpins.mp hdeps, htargets.mp hall⟩
  · rintro ⟨scope, b', hfound, hb', hepoch, hdeps, hall⟩
    rw [(hread b').mp hb'] at hepoch
    refine ⟨⟨scope, ?_, hepoch.symm⟩, hpins.mpr hdeps, htargets.mpr hall⟩
    rw [hscope]
    exact hfound

/-- The checks agree on the sample publication, here with the catalog it was compiled from and
without builds. -/
theorem safeBatch_iff_safePublished_sample :
    ∃ p ∈ samplePublished.store.business.publications.rows, ∃ b,
      samplePublished.store.business.batches.find? p.batchID = some b ∧
        (safeBatch { samplePublished.store.business with
              toTables := sampleCatalog, coreBuilds := .empty } b
            (sampleResource (sampleID '5') (.subscriptionProfile sampleProfile), sampleProfile) =
            .ok () ↔
          safePublished { samplePublished.store.business with
              toTables := sampleCatalog, coreBuilds := .empty } p
            (sampleResource (sampleID '5') (.subscriptionProfile sampleProfile), sampleProfile) =
            .ok ()) := by
  have hsome : samplePublished.store.business.publications.rows ≠ [] := by decide +kernel
  obtain ⟨p, hp⟩ := exists_mem_of_ne_nil _ hsome
  exact ⟨p, hp, safeBatch_iff_safePublished reach_samplePublished hp sampleCatalog .empty _⟩

end ProxyLoom.Subscriptions
