import ProxyLoom.Subscriptions.Machine

/-!
# Where the rows come from

A row of the batches, outputs or publications was there before an effect, or the effect is the one
that makes such rows.
-/

namespace ProxyLoom.Subscriptions

open IR Catalog Relation Except

variable {svc : Service} {s s' : Store} {b : BatchRow} {o : OutputRow}

/-! ## Rows before and after an effect -/

theorem modify_batch {t : Tables} {f : BatchRow → BatchRow} (hid : ∀ b, (f b).id = b.id)
    {batch k : ID} {b' : BatchRow} (h : (t.batches.modify batch f hid).find? k = some b') :
    ∃ b, t.batches.find? k = some b ∧ (b' = b ∨ k = batch ∧ b' = f b) := by
  by_cases hk : k = batch
  · subst hk
    rw [Table.find?_modify_self] at h
    obtain ⟨b, hb, rfl⟩ := Option.map_eq_some_iff.mp h
    exact ⟨b, hb, Or.inr ⟨rfl, rfl⟩⟩
  · rw [Table.find?_modify_ne _ _ _ hk] at h
    exact ⟨b', h, Or.inl rfl⟩

theorem compiled_ready {state : BatchState} {diagnostics : List Diagnostic}
    (hstate : state ≠ .ready) (h : (b.compiled state diagnostics).state = .ready) :
    b.state = .ready := by
  unfold BatchRow.compiled at h
  split_ifs at h
  · exact absurd h hstate
  · exact h

theorem nextState_ne_ready (p : Prepared) (scope : Scope) : p.nextState scope ≠ .ready := by
  unfold Prepared.nextState
  split_ifs <;> exact nofun

/-- A batch was there with its input, and was ready or complete if it is ready now; or it is
new. -/
theorem effect_batch (h : Effect svc s s') {k : ID} {b' : BatchRow}
    (hb' : s'.business.batches.find? k = some b') :
    (∃ b, s.business.batches.find? k = some b ∧ b.SameInput b' ∧
      (b'.state = .ready → b.state = .ready ∨ Complete s b)) ∨ Freezes s s' b' := by
  cases h with
  | other _ _ hsame =>
    rw [hsame.batches] at hb'
    exact Or.inl ⟨b', hb', .refl b', Or.inl⟩
  | @settle b state hash hfound hready =>
    obtain ⟨b₀, hb₀, rfl | ⟨rfl, rfl⟩⟩ := modify_batch (BatchRow.settle_id _ _) hb'
    · exact Or.inl ⟨b', hb₀, .refl b', Or.inl⟩
    · rw [hfound] at hb₀
      cases hb₀
      refine Or.inl ⟨b, hfound, b.settle_sameInput state hash, fun hstate => hready ?_⟩
      rw [BatchRow.settle_state] at hstate
      exact hstate
  | freeze hf =>
    rw [Table.find?_insert? hf.inserted] at hb'
    split_ifs at hb' with hk
    · cases hb'
      exact Or.inr hf
    · exact Or.inl ⟨b', hb', .refl b', Or.inl⟩
  | commit hc =>
    obtain ⟨scope, outputs, -, -, hwrite⟩ := write_ok hc.write
    rw [hwrite] at hb'
    obtain ⟨b₀, hb₀, rfl | ⟨-, rfl⟩⟩ := modify_batch (BatchRow.compiled_id _ _) hb'
    · exact Or.inl ⟨b', hb₀, .refl b', Or.inl⟩
    · exact Or.inl ⟨b₀, hb₀, b₀.compiled_sameInput _ _,
        fun hstate => Or.inl (compiled_ready (nextState_ne_ready _ _) hstate)⟩
  | publish hp =>
    rw [hp.batches] at hb'
    exact Or.inl ⟨b', hb', .refl b', Or.inl⟩

theorem effect_output (h : Effect svc s s')
    (ho : o ∈ s'.business.outputs.rows) :
    o ∈ s.business.outputs.rows ∨ ∃ p ids scope, Commits svc s s' p ids ∧
      s.business.scopes.find? p.batch.scopeID = some scope ∧
      o ∈ p.rows svc ids (p.nextState scope) := by
  cases h with
  | other _ _ hsame =>
    rw [hsame.outputs] at ho
    exact Or.inl ho
  | settle => exact Or.inl ho
  | freeze hf =>
    rw [hf.outputs] at ho
    exact Or.inl ho
  | commit hc =>
    obtain ⟨scope, outputs, hscope, hmem, hwrite⟩ := write_ok hc.write
    rw [hwrite] at ho
    exact ((hmem o).mp ho).imp id fun hnew => ⟨_, _, scope, hc, hscope, hnew⟩
  | publish hp =>
    rw [hp.outputs] at ho
    exact Or.inl ho

theorem effect_publication (h : Effect svc s s') :
    s'.business.publications = s.business.publications ∧
        s'.business.heads = s.business.heads ∨
      ∃ p b, Publishes s s' p b := by
  cases h with
  | other _ _ hsame => exact Or.inl ⟨hsame.publications, hsame.heads⟩
  | settle => exact Or.inl ⟨rfl, rfl⟩
  | freeze hf => exact Or.inl ⟨hf.publications, hf.heads⟩
  | commit hc =>
    obtain ⟨scope, outputs, -, -, hwrite⟩ := write_ok hc.write
    rw [hwrite]
    exact Or.inl ⟨rfl, rfl⟩
  | publish hp => exact Or.inr ⟨_, _, hp⟩

/-! ## Sources of rows -/

def Follows (s : Store) (scope : ID) (r : Resource) : Prop :=
  ∃ row, s.business.resources.find? r.id = some row ∧ row.scopeID = scope ∧
    Succeeds row.resource r

theorem Follows.grows {scope : ID} {r : Resource} (h : Follows s scope r)
    (hgrows : Grows s s') : Follows s' scope r := by
  obtain ⟨row, hrow, hscope, hsucceeds⟩ := h
  obtain ⟨row', hrow', hsucceeds'⟩ := hgrows.catalog.resources _ row hrow
  exact ⟨row', hrow', hsucceeds'.scopeID.trans hscope, hsucceeds.trans hsucceeds'⟩

/-- The publication has its batch, and a pin for each of the batch's dependencies. -/
def Pinned (s : Store) (p : PublicationRow) : Prop :=
  ∃ b, s.business.batches.find? p.batchID = some b ∧ b.scopeID = p.scopeID ∧
    (p.sourcePublicationID = none → b.profileID = p.profileID) ∧
    ∀ d ∈ b.frozen.dependencies,
      ⟨p.id, p.scopeID, d.resourceID, d.revision, d.securityEpoch⟩ ∈ s.business.dependencies.rows

theorem Pinned.grows {p : PublicationRow} (h : Pinned s p) (hgrows : Grows s s') :
    Pinned s' p := by
  obtain ⟨b, hb, hscope, hown, hpins⟩ := h
  obtain ⟨b', hb', hsame⟩ := hgrows.batches _ b hb
  refine ⟨b', hb', hsame.scopeID.trans hscope, fun h => hsame.profileID.trans (hown h), ?_⟩
  rw [hsame.frozen]
  exact fun d hd => hgrows.dependencies (hpins d hd)

/-- The bytes are what the compiler makes of a target of the batch. -/
def CompiledFrom (svc : Service) (b : BatchRow) (o : OutputRow) : Prop :=
  ∃ target ∈ b.frozen.input.targets, target.key = o.targetKey ∧
    ∃ artifact diagnostics, svc.compile b.frozen.input target = .ok (artifact, diagnostics) ∧
      artifact.bytes = o.bytes

/-- The output was compiled from its batch, and has a validation job. -/
def Attributed (svc : Service) (s : Store) (o : OutputRow) : Prop :=
  (∃ b, s.business.batches.find? o.batchID = some b ∧ b.scopeID = o.scopeID ∧
    CompiledFrom svc b o) ∧ ∃ j, s.jobs.find? o.validationJobID = some j

theorem Attributed.grows (h : Attributed svc s o) (hgrows : Grows s s') :
    Attributed svc s' o := by
  obtain ⟨⟨b, hb, hscope, hcompiled⟩, j, hj⟩ := h
  obtain ⟨b', hb', hsame⟩ := hgrows.batches _ b hb
  refine ⟨⟨b', hb', hsame.scopeID.trans hscope, ?_⟩, hgrows.jobs _ j hj⟩
  unfold CompiledFrom
  rw [hsame.frozen]
  exact hcompiled

/-- In every reachable state a frozen resource has a row that follows it, a publication has its
batch and a pin for every dependency of the batch, and an output was compiled from the input of its
batch and has a validation job. -/
structure Sourced (svc : Service) (s : Store) : Prop where
  frozen : ∀ k b, s.business.batches.find? k = some b →
    ∀ r ∈ b.frozen.input.resources, Follows s b.scopeID r
  pinned : ∀ p ∈ s.business.publications.rows, Pinned s p
  attributed : ∀ o ∈ s.business.outputs.rows, Attributed svc s o

theorem freezes_follows (h : Freezes s s' b) {r : Resource}
    (hr : r ∈ b.frozen.input.resources) : Follows s' b.scopeID r := by
  obtain ⟨row, hrow, hscope, rfl⟩ := h.frozen r hr
  refine ⟨row, ?_, hscope, ⟨rfl, rfl, le_rfl, le_rfl⟩⟩
  rw [h.catalog]
  exact Table.find?_of_mem hrow

theorem publishes_pinned {p : PublicationRow} (h : Publishes s s' p b) :
    Pinned s' p := by
  refine ⟨b, ?_, h.scope, fun hsource => (h.own hsource).1, h.pinned⟩
  rw [h.batches]
  exact h.found

theorem compileTarget_ok {target : Target} {c : Compiled}
    (h : compileTarget svc b target = .ok c) :
    c.target = target ∧ ∃ artifact diagnostics,
      svc.compile b.frozen.input target = .ok (artifact, diagnostics) ∧
        artifact.bytes = c.bytes := by
  unfold compileTarget at h
  obtain ⟨⟨artifact, diagnostics⟩, hcompile, h⟩ := of_bind h
  obtain ⟨_, -, h⟩ := of_bind h
  obtain ⟨_, -, h⟩ := of_bind h
  obtain ⟨_, -, h⟩ := of_bind h
  obtain ⟨preview, -, h⟩ := of_bind h
  cases pure_eq_ok_iff.mp h
  exact ⟨rfl, artifact, diagnostics, hcompile, rfl⟩

theorem mem_rows {p : Prepared} {ids : FreshIDs} {state : BatchState}
    (h : o ∈ p.rows svc ids state) :
    state = .validating ∧ ∃ c ∈ p.outputs, o = newOutput svc p.batch ids c := by
  unfold Prepared.rows at h
  split_ifs at h with hstate
  · obtain ⟨c, hc, rfl⟩ := List.mem_map.mp h
    exact ⟨hstate, c, hc, rfl⟩
  · cases h

/-- A committed output comes from its batch, and its validation job is enqueued with it. -/
theorem commits_attributed {p : Prepared} {ids : FreshIDs} {scope : Scope}
    (h : Commits svc s s' p ids)
    (hscope : s.business.scopes.find? p.batch.scopeID = some scope)
    (ho : o ∈ p.rows svc ids (p.nextState scope)) : Attributed svc s' o := by
  obtain ⟨hstate, c, hc, rfl⟩ := mem_rows ho
  obtain ⟨b, hb, hsame⟩ := h.batch
  obtain ⟨b', hb', hsame'⟩ := (effect_grows (.commit h)).batches _ b hb
  have hinput : b'.SameInput p.batch := hsame'.symm.trans hsame
  constructor
  · refine ⟨b', hb', hinput.scopeID.symm, ?_⟩
    rw [h.prepared] at hc
    obtain ⟨target, htarget, hcompiled⟩ := List.mem_filterMap.mp hc
    have hok : compileTarget svc p.batch target = .ok c := by
      cases hcompile : compileTarget svc p.batch target with
      | error e =>
        rw [hcompile] at hcompiled
        cases hcompiled
      | ok c' =>
        rw [hcompile] at hcompiled
        cases hcompiled
        rfl
    obtain ⟨hkey, artifact, diagnostics, hcompile, hbytes⟩ := compileTarget_ok hok
    unfold CompiledFrom
    rw [← hinput.frozen]
    exact ⟨target, htarget, by rw [← hkey]; rfl, artifact, diagnostics, hcompile, hbytes⟩
  · refine h.enqueued (validationInput svc p.batch ids c) ?_ _ rfl
    unfold Prepared.enqueues
    rw [hscope]
    dsimp only
    rw [if_pos hstate]
    exact List.mem_map_of_mem hc

/-- **Rows keep their sources.** -/
theorem sourced_effect (hs : Sourced svc s) (h : Effect svc s s') : Sourced svc s' := by
  have hgrows := effect_grows h
  refine ⟨fun k b' hb' r hr => ?_, fun p hp => ?_, fun o ho => ?_⟩
  · rcases effect_batch h hb' with ⟨b, hb, hsame, -⟩ | hf
    · rw [hsame.frozen] at hr
      rw [hsame.scopeID]
      exact (hs.frozen k b hb r hr).grows hgrows
    · exact freezes_follows hf hr
  · rcases effect_publication h with ⟨hsame, -⟩ | ⟨q, b, hq⟩
    · rw [hsame] at hp
      exact (hs.pinned p hp).grows hgrows
    · rcases (Table.mem_insert? hq.inserted p).mp hp with hp | rfl
      · exact (hs.pinned p hp).grows hgrows
      · exact publishes_pinned hq
  · rcases effect_output h ho with ho | ⟨p, ids, scope, hc, hscope, ho⟩
    · exact (hs.attributed o ho).grows hgrows
    · exact commits_attributed hc hscope ho

theorem sourced_initial (catalog : Catalog.Tables) (coreBuilds : Table CoreBuildRow.id)
    (tokens : Table TokenRow.publicID) :
    Sourced svc (Jobs.Store.empty (Tables.initial catalog coreBuilds tokens)) := by
  refine ⟨fun k b hb => ?_, fun p hp => ?_, fun o ho => ?_⟩
  · cases hb
  · cases hp
  · cases ho

/-- **Every reachable row has a source.** -/
theorem Reach.sourced {w : World} (h : (subscriptions svc).Reach w) : Sourced svc w.store :=
  Reach.store_invariant sourced_initial (fun _ _ => sourced_effect) h

end ProxyLoom.Subscriptions
