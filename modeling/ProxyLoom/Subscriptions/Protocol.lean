import ProxyLoom.Subscriptions.Download
import ProxyLoom.Subscriptions.Log

/-!
# The publication protocol

What administrators who compile, look, publish and roll back at the same time can rely on.
-/

namespace ProxyLoom.Subscriptions

open IR Catalog Journal List Except

variable {svc : Service} {env env' : Env} {s s' : Store} {outputs : List Output} {b : BatchRow}
  {a : Actor} {id : ID} {expected : ℕ} {request : PublishRequest} {publication : Publication}
  {w w' : World} {batch scope : ID} {keys : List String} {s₁ : Store}

/-! ## Validated outputs -/

def Validated (s : Store) (b : BatchRow) (key : String) : Prop :=
  ∃ o ∈ s.business.outputs.rows, o.scopeID = b.scopeID ∧ o.batchID = b.id ∧ o.targetKey = key ∧
    ∃ j, s.jobs.find? o.validationJobID = some j ∧ j.state = .succeeded ∧ j.verdict = some .pass

theorem outputState_ready {job : Jobs.Job} (h : outputState job = .ready) :
    job.state = .succeeded ∧ job.verdict = some .pass := by
  unfold outputState at h
  split_ifs at h with hpass
  simpa using hpass

theorem outputsState_ready (h : outputsState outputs = .ready) :
    ∀ o ∈ outputs, o.state = .ready := by
  unfold outputsState at h
  split_ifs at h with hfailed hpending
  intro o ho
  by_contra hne
  exact hpending (any_eq_true.mpr ⟨o, ho, by simpa using hne⟩)

theorem mem_outputJobs {o : OutputRow} {j : Jobs.Job} (ho : o ∈ outputsOf s b)
    (hj : s.jobs.find? o.validationJobID = some j) : (o, j) ∈ outputJobs s b.scopeID b.id := by
  unfold outputJobs
  refine mem_filterMap.mpr ⟨o, (mem_insertionSort _).mpr ho, ?_⟩
  rw [hj]
  rfl

/-- **Ready means validated.** -/
theorem ready_validated (hs : Sourced svc s) (hready : ReadyComplete s) {b' : BatchRow}
    (hb : s.business.batches.find? b.id = some b) (h : aggregate svc s b = .ok (s', b', outputs))
    (hstate : b'.state = .ready) {target : Target} (htarget : target ∈ b.frozen.input.targets) :
    Validated s b target.key := by
  obtain ⟨state, hash, hagg, -, rfl, rfl, -⟩ := aggregate_ok h
  rw [BatchRow.settle_state] at hstate
  subst hstate
  rcases aggregateState_ready hagg with ⟨hlen, houtputs⟩ | ⟨hlen, hbefore⟩
  · rw [length_outputRows] at hlen
    obtain ⟨o, ho, hname⟩ := output_of_complete hs hb hlen htarget
    obtain ⟨hmem, hscope, hbatch⟩ := mem_outputsOf.mp ho
    obtain ⟨-, j, hj⟩ := hs.attributed o hmem
    have hjudged : (judged o j) ∈ (outputRows s b.scopeID b.id).map Prod.fst := by
      unfold outputRows
      rw [map_map]
      exact mem_map.mpr ⟨(o, j), mem_outputJobs ho hj, rfl⟩
    have hpass := outputState_ready (outputsState_ready houtputs _ hjudged)
    exact ⟨o, hmem, hscope, hbatch, hname, j, hj, hpass⟩
  · rw [length_outputRows] at hlen
    exact absurd (hready b.id b hb hbefore) hlen

/-! ## Views -/

theorem compileTx_views {replay : Bool}
    (h : compileTx svc env s a id expected keys = .ok (s', batch, replay)) :
    s'.business.views = s.business.views := by
  obtain ⟨-, ⟨-, rfl⟩ | ⟨-, b, hfreezes, -⟩⟩ := compileTx_ok h
  · rfl
  · exact hfreezes.views

theorem aggregate_views {b' : BatchRow} (h : aggregate svc s b = .ok (s', b', outputs)) :
    s'.business.views = s.business.views := by
  obtain ⟨state, hash, -, rfl, -⟩ := aggregate_ok h
  rfl

theorem publishTx_views (h : publishTx svc env s a id expected request = .ok (s', publication)) :
    s'.business.views = s.business.views := by
  obtain ⟨_, -, -, rfl | ⟨-, _, _, b, b', s₁, outputs, -, -, -, hagg, -, -, -, -, hpublishes⟩⟩ :=
    publishTx_ok h
  · rfl
  · exact hpublishes.views.trans (aggregate_views hagg)

theorem rollbackTx_views {request : RollbackRequest}
    (h : rollbackTx svc env s a id expected request = .ok (s', publication)) :
    s'.business.views = s.business.views := by
  obtain ⟨_, -, -, rfl | ⟨-, current, b, -, -, hpublishes⟩⟩ := rollbackTx_ok h
  · rfl
  · exact hpublishes.views

theorem reconcile_views (h : reconcile svc s scope id = .ok s') :
    s'.business.views = s.business.views := by
  unfold reconcile at h
  obtain ⟨_, -, h⟩ := of_bind h
  obtain ⟨b, -, h⟩ := of_bind h
  obtain ⟨⟨s₁, b', outputs⟩, hagg, h⟩ := of_bind h
  cases pure_eq_ok_iff.mp h
  exact aggregate_views hagg

theorem complete_views {id : Jobs.LeaseIdentity} {p : Prepared} {ids : FreshIDs}
    {ran : Option ID}
    (h : Jobs.exec svc.wire env.jobs s (.complete id p.result (some (commitCompile svc p ids))) =
      .ok (s', ran)) : s'.business.views = s.business.views := by
  obtain ⟨⟨s₁, receipt, ranHere⟩, hcomplete, heq⟩ := of_map h
  cases heq
  rcases Jobs.completeTx_business hcomplete with hsame | ⟨hwrite, -⟩
  · rw [hsame]
  · obtain ⟨scope, outputs, -, -, hbusiness⟩ := write_ok hwrite
    rw [hbusiness]
    rfl

def Viewed (w : World) : Prop :=
  ∀ k v, w.store.business.views.find? k = some v → v ∈ w.shown

theorem Viewed.of_views (h : Viewed w) (hviews : w'.store.business.views = w.store.business.views)
    (hshown : w'.shown = w.shown) :
    Viewed w' := by
  intro k v hv
  rw [hviews] at hv
  rw [hshown]
  exact h k v hv

theorem getBatch_viewed (h : Viewed w) {batch : Batch}
    (hget : getBatch svc w.store a id = .ok (s', batch)) :
    Viewed { w with store := s', shown := w.shown ++ (shownTo a batch).toList } := by
  obtain ⟨s₁, b, b', outputs, hread, hagg, rfl, hcase⟩ := getBatch_ok hget
  have hviews := aggregate_views hagg
  intro k v hv
  dsimp only at hv ⊢
  rcases hcase with ⟨hready, rfl⟩ | ⟨-, rfl⟩
  · rw [withTables_business, Table.find?_upsert] at hv
    split_ifs at hv with hk
    · cases hv
      have hid : b'.id = id := by
        obtain ⟨state, hash, -, -, rfl, -⟩ := aggregate_ok hagg
        rw [BatchRow.settle_id]
        exact Table.key_of_find? (readBatch_ok.mp hread).1
      refine mem_append_right _ ?_
      have hshown : shownTo a (shownBatch s₁ b' outputs) =
          some ⟨a.scopeID, a.id, b'.id, b'.previewHash⟩ := if_pos hready
      rw [hshown, hid]
      exact mem_cons_self
    · rw [hviews] at hv
      exact mem_append_left _ (h k v hv)
  · rw [hviews] at hv
    exact mem_append_left _ (h k v hv)

theorem exec_viewed {call : Call} (hclock : env.jobs.start ≤ env.jobs.finish)
    (hallowed : call.Allowed w) (hviewed : Viewed w) (h : exec svc env w call = some w') :
    Viewed w' := by
  cases call with
  | setCoreBuilds coreBuilds =>
    cases h
    exact hviewed.of_views rfl rfl
  | setTokens tokens =>
    cases h
    exact hviewed.of_views rfl rfl
  | getBatch a id =>
    obtain ⟨⟨s, batch⟩, ht, rfl⟩ := toOption_map_eq_some_iff.mp h
    exact getBatch_viewed hviewed ht
  | handle lease =>
    obtain ⟨p, -, rfl⟩ := toOption_map_eq_some_iff.mp h
    exact hviewed.of_views rfl rfl
  | catalog scope ms =>
    obtain ⟨t, -, rfl⟩ := toOption_map_eq_some_iff.mp h
    exact hviewed.of_views rfl rfl
  | compile a id expected keys =>
    obtain ⟨⟨s, batch, replay⟩, ht, rfl⟩ := toOption_map_eq_some_iff.mp h
    exact hviewed.of_views (compileTx_views ht) rfl
  | publish a id expected request =>
    obtain ⟨⟨s, p⟩, ht, rfl⟩ := toOption_map_eq_some_iff.mp h
    exact hviewed.of_views (publishTx_views ht) rfl
  | rollback a id expected request =>
    obtain ⟨⟨s, p⟩, ht, rfl⟩ := toOption_map_eq_some_iff.mp h
    exact hviewed.of_views (rollbackTx_views ht) rfl
  | reconcile scope id =>
    obtain ⟨s, ht, rfl⟩ := toOption_map_eq_some_iff.mp h
    exact hviewed.of_views (reconcile_views ht) rfl
  | complete id p ids =>
    obtain ⟨⟨s, ran⟩, ht, rfl⟩ := toOption_map_eq_some_iff.mp h
    exact hviewed.of_views (complete_views ht) rfl
  | queue call =>
    obtain ⟨⟨s, ran⟩, ht, rfl⟩ := toOption_map_eq_some_iff.mp h
    have hbusiness := Jobs.exec_business hclock hallowed ht
    exact hviewed.of_views (by rw [hbusiness]) rfl

/-- **Recorded views were shown.** -/
theorem Reach.viewed (hw : (subscriptions svc).Reach w) : Viewed w := by
  refine hw.invariant ?_ ?_
  · rintro w ⟨catalog, coreBuilds, tokens, rfl⟩ k v hv
    cases hv
  · intro w l w' _ hviewed hstep
    rcases step_exec hstep with rfl | ⟨w₁, hexec, rfl⟩
    · exact hviewed.of_views rfl rfl
    · exact (exec_viewed hstep.2.1 hstep.2.2.1 hviewed hexec).of_views rfl rfl

/-! ## Repeated requests -/

theorem Run.grows (hw : (subscriptions svc).Reach w) (h : (subscriptions svc).Run w w') :
    Grows w.store w'.store :=
  h.relation (R := fun w w' => Grows w.store w'.store) (fun w => .refl w.store)
    (fun _ _ _ => Grows.trans) (fun _ _ _ hw hstep => effects_grow (step_effects hw hstep)) hw

theorem operation_again {t t' : Tables} {request : Request} {id' op : ID} {out : Tables × ID × Bool}
    (hfirst : operation svc t a request id = .ok out) (hkey : a.key ≠ "")
    (hrecorded : Recorded svc t' a request op) (hfresh : id' ≠ op) :
    operation svc t' a request id' = .ok (t', op, true) := by
  obtain ⟨o, ho, rfl, hdigest⟩ := hrecorded hkey
  unfold operation at hfirst ⊢
  obtain ⟨hvalid, -⟩ := of_ite hfirst
  rw [if_neg hvalid, if_neg hkey]
  have hnone : t'.operations.insert? ⟨a.scopeID, a.id, request.route, a.key,
      svc.requestDigest a.scopeID a.id request, id'⟩ = none := by
    cases hins : t'.operations.insert? ⟨a.scopeID, a.id, request.route, a.key,
      svc.requestDigest a.scopeID a.id request, id'⟩ with
    | none => rfl
    | some operations =>
      have hnew := (Table.insert?_eq_some_iff.mp hins).1
      rw [show OperationRow.index ⟨a.scopeID, a.id, request.route, a.key,
        svc.requestDigest a.scopeID a.id request, id'⟩ =
          (a.scopeID, a.id, request.route, a.key) from rfl, ho] at hnew
      cases hnew
  dsimp only
  rw [hnone, ho]
  dsimp only
  rw [if_neg (not_not.mpr hdigest)]
  simp [hfresh.symm]

theorem Recorded.grows {request : Request} {op : ID} (h : Recorded svc s.business a request op)
    (hgrows : Grows s s') :
    Recorded svc s'.business a request op := by
  intro hkey
  obtain ⟨o, ho, hop, hdigest⟩ := h hkey
  exact ⟨o, hgrows.operations _ o ho, hop, hdigest⟩

theorem readPublication_ok (h : readPublication s scope id = .ok publication) :
    publication.publicationID = id ∧
      ∃ p, s.business.publications.find? id = some p ∧ p.scopeID = scope := by
  unfold readPublication at h
  split at h
  · cases h
  · next p hp =>
    obtain ⟨b, -, h⟩ := of_bind h
    cases pure_eq_ok_iff.mp h
    exact ⟨rfl, p, findPublication_some.mp hp⟩

theorem readPublication_again (hs' : Sourced svc s') (hgrows : Grows s s')
    (h : readPublication s scope id = .ok publication) :
    ∃ again, readPublication s' scope id = .ok again ∧ again.publicationID = id := by
  obtain ⟨-, p, hp, hscope⟩ := readPublication_ok h
  have hid : p.id = id := Table.key_of_find? hp
  have hmem : p ∈ s'.business.publications.rows :=
    hgrows.publications.subset (Table.mem_of_find? hp)
  have hfound : s'.business.publications.find? id = some p := by
    rw [← hid]
    exact Table.find?_of_mem hmem
  obtain ⟨b, hb, hbscope, -⟩ := hs'.pinned p hmem
  have hbatch : readBatch s'.business scope p.batchID = .ok b :=
    readBatch_ok.mpr ⟨hb, hbscope.trans hscope⟩
  unfold readPublication
  rw [findPublication_some.mpr ⟨hfound, hscope⟩]
  dsimp only
  rw [hbatch]
  exact ⟨_, rfl, rfl⟩

theorem lockScope_again (hgrows : Grows s s') {x : Scope}
    (h : lockScope s.business scope = .ok x) :
    ∃ x', lockScope s'.business scope = .ok x' := by
  obtain ⟨x', hx'⟩ := hgrows.catalog.scopes scope x (lockScope_ok.mp h)
  exact ⟨x', lockScope_ok.mpr hx'⟩

/-- A repeated publish request finds its publication. -/
theorem publishTx_again
    (h : publishTx svc env s a id expected request = .ok (s₁, publication)) (hkey : a.key ≠ "")
    (hgrows₁ : Grows s s') (hgrows : Grows s₁ s') (hs' : Sourced svc s')
    (hfresh : env'.newID ≠ publication.publicationID) {current : Resource × SubscriptionProfile}
    (hprofile : profile s'.business a.scopeID id = .ok current) :
    ∃ again, publishTx svc env' s' a id expected request = .ok (s', again) ∧
      again.publicationID = publication.publicationID := by
  obtain ⟨op, hrecorded, hread, -⟩ := publishTx_ok h
  obtain ⟨again, hagain, hid⟩ := readPublication_again hs' hgrows hread
  rw [(readPublication_ok hread).1] at hfresh ⊢
  unfold publishTx at h ⊢
  obtain ⟨hvalid, h⟩ := of_ite h
  obtain ⟨scope, hscope, h⟩ := of_bind h
  obtain ⟨_, -, h⟩ := of_bind h
  obtain ⟨out, hop, -⟩ := of_bind h
  obtain ⟨scope', hscope'⟩ := lockScope_again hgrows₁ hscope
  have hop' := operation_again hop hkey (hrecorded.grows hgrows) hfresh
  rw [if_neg hvalid]
  refine ⟨again, bind_eq_ok_iff.mpr ⟨scope', hscope', ?_⟩, hid⟩
  refine bind_eq_ok_iff.mpr ⟨current, hprofile, ?_⟩
  refine bind_eq_ok_iff.mpr ⟨_, hop', ?_⟩
  exact bind_eq_ok_iff.mpr ⟨again, hagain, rfl⟩

/-- A repeated rollback request finds its publication. -/
theorem rollbackTx_again {request : RollbackRequest}
    (h : rollbackTx svc env s a id expected request = .ok (s₁, publication)) (hkey : a.key ≠ "")
    (hgrows₁ : Grows s s') (hgrows : Grows s₁ s') (hs' : Sourced svc s')
    (hfresh : env'.newID ≠ publication.publicationID) {current : Resource × SubscriptionProfile}
    (hprofile : profile s'.business a.scopeID id = .ok current) :
    ∃ again, rollbackTx svc env' s' a id expected request = .ok (s', again) ∧
      again.publicationID = publication.publicationID := by
  obtain ⟨op, hrecorded, hread, -⟩ := rollbackTx_ok h
  obtain ⟨again, hagain, hid⟩ := readPublication_again hs' hgrows hread
  rw [(readPublication_ok hread).1] at hfresh ⊢
  unfold rollbackTx at h ⊢
  obtain ⟨hvalid, h⟩ := of_ite h
  obtain ⟨scope, hscope, h⟩ := of_bind h
  obtain ⟨_, -, h⟩ := of_bind h
  obtain ⟨out, hop, -⟩ := of_bind h
  obtain ⟨scope', hscope'⟩ := lockScope_again hgrows₁ hscope
  have hop' := operation_again hop hkey (hrecorded.grows hgrows) hfresh
  rw [if_neg hvalid]
  refine ⟨again, bind_eq_ok_iff.mpr ⟨scope', hscope', ?_⟩, hid⟩
  refine bind_eq_ok_iff.mpr ⟨current, hprofile, ?_⟩
  refine bind_eq_ok_iff.mpr ⟨_, hop', ?_⟩
  exact bind_eq_ok_iff.mpr ⟨again, hagain, rfl⟩

/-- A repeated compile request also needs the profile enabled, with the targets it names. -/
theorem compileTx_again {replay : Bool}
    (h : compileTx svc env s a id expected keys = .ok (s₁, batch, replay)) (hkey : a.key ≠ "")
    (hgrows₁ : Grows s s') (hgrows : Grows s₁ s') (hfresh : env'.newID ≠ batch) {r : Resource}
    {p : SubscriptionProfile} (hprofile : profile s'.business a.scopeID id = .ok (r, p))
    (henabled : r.metadata.enabled = true) (hkeys : namesTargets keys p = true) :
    compileTx svc env' s' a id expected keys = .ok (s', batch, true) := by
  obtain ⟨hrecorded, -⟩ := compileTx_ok h
  unfold compileTx at h ⊢
  obtain ⟨hvalid, h⟩ := of_ite h
  obtain ⟨scope, hscope, h⟩ := of_bind h
  obtain ⟨_, -, h⟩ := of_bind h
  obtain ⟨-, h⟩ := of_ite h
  obtain ⟨-, h⟩ := of_ite h
  obtain ⟨out, hop, -⟩ := of_bind h
  obtain ⟨scope', hscope'⟩ := lockScope_again hgrows₁ hscope
  have hop' := operation_again hop hkey (hrecorded.grows hgrows) hfresh
  rw [if_neg hvalid]
  refine bind_eq_ok_iff.mpr ⟨scope', hscope', ?_⟩
  refine bind_eq_ok_iff.mpr ⟨(r, p), hprofile, ?_⟩
  dsimp only
  rw [henabled, hkeys]
  exact bind_eq_ok_iff.mpr ⟨_, hop', rfl⟩

/-! ## The protocol -/

/-- The call is made at `w`, and `w'` comes later. -/
def Later (svc : Service) (w : World) (l : Label) (w' : World) : Prop :=
  ∃ w₁, (subscriptions svc).step w l w₁ ∧ (subscriptions svc).Run w₁ w'

theorem Later.grows {l : Label} (hw : (subscriptions svc).Reach w) (h : Later svc w l w')
    {w₁ : World} (hexec : exec svc l.env w l.call = some w₁) :
    Sourced svc w'.store ∧ Grows w.store w'.store ∧ Grows w₁.store w'.store := by
  obtain ⟨w₂, hstep, hrun⟩ := h
  have hw₂ : (subscriptions svc).Reach w₂ := .step hw hstep
  have hstore : w₂.store = w₁.store := by
    obtain ⟨-, -, -, rfl⟩ := hstep
    unfold World.next
    rw [hexec]
    rfl
  have hlast := Run.grows hw₂ hrun
  refine ⟨Reach.sourced (hw₂.run hrun), (effects_grow (step_effects hw hstep)).trans hlast, ?_⟩
  rw [← hstore]
  exact hlast

/-- What a publish request has found when it creates a publication: the catalog and the
authorization of the batch, a validated output for each target, and that the actor was shown the
preview that it confirms. -/
def PublishChecked (w : World) (s' : Store) (a : Actor) (request : PublishRequest) : Prop :=
  ∃ b scope, w.store.business.batches.find? request.batchID = some b ∧
    w.store.business.scopes.find? b.scopeID = some scope ∧
    scope.catalogRevision = b.catalogRevision ∧ scope.authEpoch = b.authEpoch ∧
    (∀ target ∈ b.frozen.input.targets, Validated w.store b target.key) ∧
    ⟨a.scopeID, a.id, b.id, request.effectivePreviewHash⟩ ∈ w.shown ∧
    ∃ b', s'.business.batches.find? b.id = some b' ∧
      b'.previewHash = request.effectivePreviewHash

theorem confirmed_viewed {t : Tables} (h : confirmed t a request b = true) :
    b.previewHash = request.effectivePreviewHash ∧
      ∃ v, t.views.find? (a.scopeID, a.id, request.batchID) = some v ∧
        v.previewHash = request.effectivePreviewHash := by
  unfold confirmed viewedHash at h
  simp only [Bool.and_eq_true, decide_eq_true_eq, ne_eq] at h
  obtain ⟨⟨⟨-, hne⟩, hviewed⟩, hbatch⟩ := h
  refine ⟨hbatch.symm.trans hviewed, ?_⟩
  cases hfind : t.views.find? (a.scopeID, a.id, request.batchID) with
  | none =>
    rw [hfind] at hviewed
    exact absurd hviewed.symm hne
  | some v =>
    rw [hfind] at hviewed
    exact ⟨v, rfl, hviewed⟩

/-- A publish request that changes anything has found the batch validated, current and seen. -/
theorem publishTx_checked (hw : (subscriptions svc).Reach w)
    (h : publishTx svc env w.store a id expected request = .ok (s', publication)) :
    s' = w.store ∨ PublishChecked w s' a request := by
  obtain ⟨_, -, -, hsame | ⟨-, scope, current, b, b', s₁, outputs, hscope, -, hable, hagg, hready,
    -, -, hconfirmed, hpublishes⟩⟩ := publishTx_ok h
  · exact Or.inl hsame
  obtain ⟨hfound, hbscope⟩ := readBatch_ok.mp hable.read
  have hid : b.id = request.batchID := Table.key_of_find? hfound
  have hb : w.store.business.batches.find? b.id = some b := by
    rw [hid]
    exact hfound
  have hcurrent := hable.current
  unfold BatchRow.current at hcurrent
  rw [Bool.and_eq_true, decide_eq_true_eq, decide_eq_true_eq] at hcurrent
  obtain ⟨hhash, v, hv, hvhash⟩ := confirmed_viewed hconfirmed
  refine Or.inr ⟨b, scope, hfound, ?_, hcurrent.1, hcurrent.2, ?_, ?_, b', ?_, hhash⟩
  · rw [hbscope]
    exact lockScope_ok.mp hscope
  · intro target htarget
    exact ready_validated (Reach.sourced hw) (Reach.ready hw) hb hagg hready htarget
  · rw [aggregate_views hagg] at hv
    have hkey : v.key = (a.scopeID, a.id, request.batchID) := Table.key_of_find? hv
    have hshown := Reach.viewed hw _ v hv
    have hrow : v = ⟨a.scopeID, a.id, b.id, request.effectivePreviewHash⟩ := by
      simp only [ViewRow.key, Prod.mk.injEq] at hkey
      rw [hid, ← hkey.1, ← hkey.2.1, ← hkey.2.2, ← hvhash]
    rw [← hrow]
    exact hshown
  · have hb' : b'.id = b.id := by
      obtain ⟨state, hash, -, -, rfl, -⟩ := aggregate_ok hagg
      exact BatchRow.settle_id _ _ _
    rw [hpublishes.batches, ← hb']
    exact hpublishes.found

theorem compileTx_base (hw : (subscriptions svc).Reach w)
    (h : compileTx svc env w.store a id expected keys = .ok (s', batch, false))
    (hlater : Later svc w ⟨env, .compile a id expected keys⟩ w') :
    ∃ b, w'.store.business.batches.find? batch = some b ∧
      b.basePublicationID = (headID w.store.business b.scopeID b.profileID).map Prod.fst := by
  obtain ⟨-, ⟨hreplay, -⟩ | ⟨-, b, hfreezes, rfl⟩⟩ := compileTx_ok h
  · cases hreplay
  have hexec : exec svc env w (.compile a id expected keys) = some { w with store := s' } :=
    toOption_map_eq_some_iff.mpr ⟨_, h, rfl⟩
  obtain ⟨-, -, hgrows⟩ := hlater.grows hw hexec
  have hb : s'.business.batches.find? b.id = some b := by
    rw [Table.find?_insert? hfreezes.inserted, if_pos rfl]
  obtain ⟨b', hb', hsame⟩ := hgrows.batches _ b hb
  refine ⟨b', hb', ?_⟩
  have hlogbook := Reach.logbook hw
  rw [hsame.base, hsame.scopeID, hsame.profileID, hfreezes.base, hlogbook.head,
    hlogbook.headID_eq, Option.map_map]
  rfl

/-- Reading a batch adds no row but the view of its preview. -/
structure OnlyRead (s s' : Store) : Prop where
  jobs : s'.jobs = s.jobs
  batches : s'.business.batches.rows.map BatchRow.id = s.business.batches.rows.map BatchRow.id
  outputs : s'.business.outputs = s.business.outputs
  publications : s'.business.publications = s.business.publications
  dependencies : s'.business.dependencies = s.business.dependencies
  heads : s'.business.heads = s.business.heads
  operations : s'.business.operations = s.business.operations

theorem settled_onlyRead (s : Store) (batch : ID) (state : BatchState) (hash : String) :
    OnlyRead s (settled s batch state hash) := by
  refine ⟨rfl, ?_, rfl, rfl, rfl, rfl, rfl⟩
  show ((s.business.batches.rows.map fun b => if b.id = batch then b.settle state hash else b).map
    BatchRow.id) = _
  rw [map_map]
  refine map_congr_left fun b _ => ?_
  by_cases hb : b.id = batch
  · simp [hb]
  · simp [hb]

theorem getBatch_onlyRead {batch : Batch} (h : getBatch svc s a id = .ok (s', batch)) :
    batch.batchID = id ∧ OnlyRead s s' := by
  obtain ⟨s₁, b, b', outputs, hread, hagg, rfl, hcase⟩ := getBatch_ok h
  obtain ⟨state, hash, -, rfl, rfl, -⟩ := aggregate_ok hagg
  have hid : b.id = id := Table.key_of_find? (readBatch_ok.mp hread).1
  refine ⟨(BatchRow.settle_id _ _ _).trans hid, ?_⟩
  have honly := settled_onlyRead s b.id state hash
  rcases hcase with ⟨-, rfl⟩ | ⟨-, rfl⟩
  · exact ⟨honly.jobs, honly.batches, honly.outputs, honly.publications, honly.dependencies,
      honly.heads, honly.operations⟩
  · exact honly

theorem published_once (hw : (subscriptions svc).Reach w) {p p' : PublicationRow}
    (hp : p ∈ w.store.business.publications.rows) (hp' : p' ∈ w.store.business.publications.rows)
    (hsource : p.sourcePublicationID = none) (hsource' : p'.sourcePublicationID = none)
    (hbatch : p.batchID = p'.batchID) : p = p' := by
  have hsourced := Reach.sourced hw
  obtain ⟨b, hb, hscope, hown, -⟩ := hsourced.pinned p hp
  obtain ⟨b', hb', hscope', hown', -⟩ := hsourced.pinned p' hp'
  rw [← hbatch, hb] at hb'
  cases hb'
  have hlog : p ∈ log w.store b.scopeID b.profileID :=
    mem_log.mpr ⟨hp, hscope.symm, (hown hsource).symm⟩
  have hlog' : p' ∈ log w.store b.scopeID b.profileID :=
    mem_log.mpr ⟨hp', hscope'.symm, (hown' hsource').symm⟩
  refine ((Reach.logbook hw).chained _ _).unique log_nodup hlog hlog' ⟨hsource, b, hb, rfl⟩
    ⟨hsource', b, ?_, rfl⟩
  rw [← hbatch]
  exact hb

/-- **The publication protocol.** In every reachable state the publications of a profile are
numbered 1, 2, 3, ..., the head is the last of them, and each one that Publish made follows the base
of its batch, which was the head when the batch was compiled; so no batch is published twice. A
request changes something only if the batch is validated, current and seen. A repeated request finds
its batch or publication and changes nothing, as long as its profile is there, and for a compile
request enabled with the same targets; the read of the batch that ends a compile request adds at
most the view of its preview. -/
theorem publication_protocol {w : World} (hw : (subscriptions svc).Reach w) :
    (∀ scope profile, Numbered PublicationRow.generation (log w.store scope profile) ∧
      headID w.store.business scope profile =
        (log w.store scope profile).getLast?.map (fun p => (p.id, p.generation)) ∧
      ∀ p ∈ log w.store scope profile,
        p.generation ≤ headGeneration w.store.business scope profile) ∧
    (∀ scope profile i p, (log w.store scope profile)[i]? = some p →
      p.sourcePublicationID = none →
      ∃ b, w.store.business.batches.find? p.batchID = some b ∧
        b.basePublicationID = before PublicationRow.id (log w.store scope profile) i) ∧
    (∀ p ∈ w.store.business.publications.rows, ∀ p' ∈ w.store.business.publications.rows,
      p.sourcePublicationID = none → p'.sourcePublicationID = none → p.batchID = p'.batchID →
      p = p') ∧
    (∀ env a id expected keys s' batch w',
      compileTx svc env w.store a id expected keys = .ok (s', batch, false) →
      Later svc w ⟨env, .compile a id expected keys⟩ w' →
      ∃ b, w'.store.business.batches.find? batch = some b ∧
        b.basePublicationID = (headID w.store.business b.scopeID b.profileID).map Prod.fst) ∧
    (∀ env a id expected request s' publication,
      publishTx svc env w.store a id expected request = .ok (s', publication) →
      s' = w.store ∨ PublishChecked w s' a request) ∧
    (∀ env a id expected request s' publication w' env' current, a.key ≠ "" →
      publishTx svc env w.store a id expected request = .ok (s', publication) →
      Later svc w ⟨env, .publish a id expected request⟩ w' →
      env'.newID ≠ publication.publicationID →
      profile w'.store.business a.scopeID id = .ok current →
      ∃ again, publishTx svc env' w'.store a id expected request = .ok (w'.store, again) ∧
        again.publicationID = publication.publicationID) ∧
    (∀ env a id expected request s' publication w' env' current, a.key ≠ "" →
      rollbackTx svc env w.store a id expected request = .ok (s', publication) →
      Later svc w ⟨env, .rollback a id expected request⟩ w' →
      env'.newID ≠ publication.publicationID →
      profile w'.store.business a.scopeID id = .ok current →
      ∃ again, rollbackTx svc env' w'.store a id expected request = .ok (w'.store, again) ∧
        again.publicationID = publication.publicationID) ∧
    (∀ env a id expected keys s' batch replay w' env' r p, a.key ≠ "" →
      compileTx svc env w.store a id expected keys = .ok (s', batch, replay) →
      Later svc w ⟨env, .compile a id expected keys⟩ w' → env'.newID ≠ batch →
      profile w'.store.business a.scopeID id = .ok (r, p) → r.metadata.enabled = true →
      namesTargets keys p = true →
      compileTx svc env' w'.store a id expected keys = .ok (w'.store, batch, true)) ∧
    (∀ a id s' batch, getBatch svc w.store a id = .ok (s', batch) →
      batch.batchID = id ∧ OnlyRead w.store s') := by
  have hlogbook := Reach.logbook hw
  refine ⟨fun scope profile => ?_, fun scope profile i p hi hsource => ?_, ?_, ?_, ?_, ?_, ?_, ?_,
    fun a id s' batch h => getBatch_onlyRead h⟩
  · refine ⟨hlogbook.numbered scope profile, hlogbook.headID_eq scope profile, fun p hp => ?_⟩
    have hne : log w.store scope profile ≠ [] := ne_nil_of_mem hp
    have hle := (hlogbook.numbered scope profile).le_last (List.getLast?_eq_some_getLast hne) hp
    rw [(hlogbook.numbered scope profile).last (List.getLast?_eq_some_getLast hne)] at hle
    rw [hlogbook.headGeneration_eq]
    exact hle
  · obtain ⟨b, hb, -⟩ :=
      (Reach.sourced hw).pinned p (mem_log.mp (mem_of_getElem? hi)).1
    exact ⟨b, hb, hlogbook.chained scope profile i p hi _ ⟨hsource, b, hb, rfl⟩⟩
  · intro p hp p' hp' hsource hsource' hbatch
    exact published_once hw hp hp' hsource hsource' hbatch
  · intro env a id expected keys s' batch w' h hlater
    exact compileTx_base hw h hlater
  · intro env a id expected request s' publication h
    exact publishTx_checked hw h
  · intro env a id expected request s' publication w' env' current hkey h hlater hfresh hprofile
    have hexec : exec svc env w (.publish a id expected request) = some { w with store := s' } :=
      toOption_map_eq_some_iff.mpr ⟨_, h, rfl⟩
    obtain ⟨hs', hgrows₁, hgrows⟩ := hlater.grows hw hexec
    exact publishTx_again h hkey hgrows₁ hgrows hs' hfresh hprofile
  · intro env a id expected request s' publication w' env' current hkey h hlater hfresh hprofile
    have hexec : exec svc env w (.rollback a id expected request) = some { w with store := s' } :=
      toOption_map_eq_some_iff.mpr ⟨_, h, rfl⟩
    obtain ⟨hs', hgrows₁, hgrows⟩ := hlater.grows hw hexec
    exact rollbackTx_again h hkey hgrows₁ hgrows hs' hfresh hprofile
  · intro env a id expected keys s' batch replay w' env' r p hkey h hlater hfresh hprofile
      henabled hkeys
    have hexec : exec svc env w (.compile a id expected keys) = some { w with store := s' } :=
      toOption_map_eq_some_iff.mpr ⟨_, h, rfl⟩
    obtain ⟨-, hgrows₁, hgrows⟩ := hlater.grows hw hexec
    exact compileTx_again h hkey hgrows₁ hgrows hfresh hprofile henabled hkeys

/-- The publication of the sample run is restored by a second one. -/
def sampleRestored : World :=
  samplePublished.next sampleService (sampleEnv 9 (sampleID '6') (sampleID 'f'))
    (.rollback sampleActor (sampleID '5') 1 ⟨sampleID 'd', 1⟩)

theorem publication_protocol_sample :
    Numbered PublicationRow.generation (log sampleRestored.store (sampleID 'a') (sampleID '5')) ∧
      headID sampleRestored.store.business (sampleID 'a') (sampleID '5') =
        (log sampleRestored.store (sampleID 'a') (sampleID '5')).getLast?.map
          (fun p => (p.id, p.generation)) ∧
      (log sampleRestored.store (sampleID 'a') (sampleID '5')).map
        (fun p => (p.id, p.sourcePublicationID)) =
          [(sampleID 'd', none), (sampleID 'f', some (sampleID 'd'))] := by
  obtain ⟨hnumbered, hhead, -⟩ := (publication_protocol (Reach.next reach_samplePublished
    (sampleEnv 9 (sampleID '6') (sampleID 'f')) (.rollback sampleActor (sampleID '5') 1
      ⟨sampleID 'd', 1⟩) (by decide) (by decide) trivial)).1 (sampleID 'a') (sampleID '5')
  exact ⟨hnumbered, hhead, by decide +kernel⟩

/-! ## A repeated request that is refused -/

/-- An administrator disables the profile after it was compiled. -/
def disableSample : Call :=
  .catalog (sampleID 'a')
    [.update (sampleID '5') 1 ⟨"sample", [], false, .subscriptionProfile sampleProfile⟩]

def sampleDisabled : World :=
  sampleCompiled.next sampleService (sampleEnv 2 (sampleID '0') "") disableSample

/-- **A repeat need not return its batch.** The profile is compiled under a key; it is disabled; the
same request under the same key is then refused. -/
theorem compile_repeat_refused :
    (subscriptions sampleService).Reach sampleInitial ∧
      Later sampleService sampleInitial ⟨sampleEnv 1 (sampleID '8') (sampleID '7'), compileSample⟩
        sampleDisabled ∧
      (compileTx sampleService (sampleEnv 1 (sampleID '8') (sampleID '7')) sampleInitial.store
        sampleActor (sampleID '5') 1 ["main"]).toOption.map Prod.snd =
          some (sampleID '7', false) ∧
      compileTx sampleService (sampleEnv 3 (sampleID '0') (sampleID '9')) sampleDisabled.store
        sampleActor (sampleID '5') 1 ["main"] = .error .blocked := by
  refine ⟨.init ⟨_, _, _, rfl⟩, ⟨sampleCompiled, ⟨by decide, by decide, trivial, rfl⟩, ?_⟩,
    by decide, eq_error_of_error? (by decide)⟩
  exact .step (l := ⟨sampleEnv 2 (sampleID '0') "", disableSample⟩) (.refl _)
    ⟨by decide, by decide, trivial, rfl⟩

/-! ## What is kept -/

/-- **Nothing recorded is taken back.** Along every run publications are only appended, outputs,
pins and recorded requests stay, a batch keeps what it was frozen with, and the row of a resource
is followed by a later revision. -/
theorem history_kept (hw : (subscriptions svc).Reach w) (h : (subscriptions svc).Run w w') :
    w.store.business.publications.rows <+: w'.store.business.publications.rows ∧
    w.store.business.outputs.rows ⊆ w'.store.business.outputs.rows ∧
    w.store.business.dependencies.rows ⊆ w'.store.business.dependencies.rows ∧
    (∀ k o, w.store.business.operations.find? k = some o →
      w'.store.business.operations.find? k = some o) ∧
    (∀ k b, w.store.business.batches.find? k = some b → ∃ b',
      w'.store.business.batches.find? k = some b' ∧ b.SameInput b' ∧
        (Complete w.store b → Complete w'.store b')) ∧
    RowsFollow w.store.business.toTables w'.store.business.toTables := by
  have hgrows := Run.grows hw h
  refine ⟨hgrows.publications, hgrows.outputs, hgrows.dependencies, hgrows.operations,
    fun k b hb => ?_, hgrows.catalog.resources⟩
  obtain ⟨b', hb', hsame⟩ := hgrows.batches k b hb
  have hid : b.id = k := Table.key_of_find? hb
  have hid' : b'.id = k := Table.key_of_find? hb'
  exact ⟨b', hb', hsame, complete_of_grows (Reach.sourced hw) (Reach.sourced (hw.run h)) hgrows
    (hid'.trans hid.symm) hsame (hid' ▸ hb')⟩

/-- The profile was disabled under a new revision, and its row is still there. -/
theorem history_kept_disabled :
    RowsFollow sampleCompiled.store.business.toTables sampleDisabled.store.business.toTables := by
  obtain ⟨-, -, -, -, -, hrows⟩ := history_kept reach_sampleCompiled
    (.step (l := ⟨sampleEnv 2 (sampleID '0') "", disableSample⟩) (.refl _)
      ⟨by decide, by decide, trivial, rfl⟩)
  exact hrows

/-- **The outputs of a ready batch are final.** There is one for each target, which the compiler
made of what the batch was frozen with, and every later state has it and no other one. -/
theorem ready_outputs_final (hw : (subscriptions svc).Reach w) (h : (subscriptions svc).Run w w')
    {b : BatchRow} (hb : w.store.business.batches.find? b.id = some b) (hready : b.state = .ready)
    {target : Target} (htarget : target ∈ b.frozen.input.targets) :
    ∃ o ∈ w.store.business.outputs.rows, CompiledFrom svc b o ∧
      o.key = (b.scopeID, b.id, target.key) ∧ o ∈ w'.store.business.outputs.rows ∧
      ∀ o' ∈ w'.store.business.outputs.rows,
        o'.key = (b.scopeID, b.id, target.key) ↔ o' = o := by
  have hsourced := Reach.sourced hw
  obtain ⟨o, ho, hname⟩ := output_of_complete hsourced hb (Reach.ready hw _ b hb hready) htarget
  obtain ⟨hmem, hscope, hbatch⟩ := mem_outputsOf.mp ho
  have hkey : o.key = (b.scopeID, b.id, target.key) := by rw [OutputRow.key, hscope, hbatch, hname]
  obtain ⟨⟨b', hb', -, hcompiled⟩, -⟩ := hsourced.attributed o hmem
  rw [hbatch, hb] at hb'
  cases hb'
  have hmem' := (Run.grows hw h).outputs hmem
  refine ⟨o, hmem, hcompiled, hkey, hmem', fun o' ho' => ⟨fun hkey' => ?_, fun heq => heq ▸ hkey⟩⟩
  exact inj_on_of_nodup_map w'.store.business.outputs.nodup ho' hmem'
    (hkey'.trans hkey.symm)

theorem ready_outputs_final_sample : ∃ b ∈ samplePublished.store.business.batches.rows,
    ∃ o ∈ samplePublished.store.business.outputs.rows, CompiledFrom sampleService b o := by
  have hready : ∃ b ∈ samplePublished.store.business.batches.rows,
      b.state = .ready ∧ b.frozen.input.targets ≠ [] := by decide +kernel
  obtain ⟨b, hb, hstate, hne⟩ := hready
  obtain ⟨target, htarget⟩ := exists_mem_of_ne_nil _ hne
  obtain ⟨o, ho, hcompiled, -⟩ := ready_outputs_final reach_samplePublished (.refl _)
    (Table.find?_of_mem hb) hstate htarget
  exact ⟨b, hb, o, ho, hcompiled⟩

end ProxyLoom.Subscriptions
