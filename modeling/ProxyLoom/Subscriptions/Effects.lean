import ProxyLoom.Jobs.Business
import ProxyLoom.Subscriptions.Publish

/-!
# What the transactions write

Every transaction that commits is a chain of effects: a new batch, a batch brought up to date, the
outputs of a batch, a new publication, or writes that none of these tables see. `Effect` lists them
with everything a proof needs to know about the rows they read; `compileTx_effects`,
`getBatch_effects`, `publishTx_effects` and `rollbackTx_effects` take the transactions apart.
-/

namespace ProxyLoom.Subscriptions

open IR Catalog Relation List Except

variable {svc : Service} {env : Env} {s s' : Store} {a : Actor} {b b' : BatchRow} {t t' : Tables}
  {scope id : ID} {request : RollbackRequest} {outputs : List Output} {expected : ℕ}
  {publication : Publication} {ds : List Dependency} {p : PublicationRow} {op batch : ID}
  {replay : Bool}

/-! ## Effects -/

/-- The part of a batch that is never rewritten. -/
structure BatchRow.SameInput (b b' : BatchRow) : Prop where
  scopeID : b'.scopeID = b.scopeID
  profileID : b'.profileID = b.profileID
  profileRevision : b'.profileRevision = b.profileRevision
  catalogRevision : b'.catalogRevision = b.catalogRevision
  authEpoch : b'.authEpoch = b.authEpoch
  frozen : b'.frozen = b.frozen
  inputHMAC : b'.inputHMAC = b.inputHMAC
  base : b'.basePublicationID = b.basePublicationID
  compileJobID : b'.compileJobID = b.compileJobID

theorem BatchRow.SameInput.refl (b : BatchRow) : b.SameInput b :=
  ⟨rfl, rfl, rfl, rfl, rfl, rfl, rfl, rfl, rfl⟩

theorem BatchRow.SameInput.trans {a c : BatchRow} (h₁ : a.SameInput b) (h₂ : b.SameInput c) :
    a.SameInput c :=
  ⟨h₂.scopeID.trans h₁.scopeID, h₂.profileID.trans h₁.profileID,
    h₂.profileRevision.trans h₁.profileRevision, h₂.catalogRevision.trans h₁.catalogRevision,
    h₂.authEpoch.trans h₁.authEpoch, h₂.frozen.trans h₁.frozen, h₂.inputHMAC.trans h₁.inputHMAC,
    h₂.base.trans h₁.base, h₂.compileJobID.trans h₁.compileJobID⟩

theorem BatchRow.SameInput.symm {a : BatchRow} (h : a.SameInput b) : b.SameInput a :=
  ⟨h.scopeID.symm, h.profileID.symm, h.profileRevision.symm, h.catalogRevision.symm,
    h.authEpoch.symm, h.frozen.symm, h.inputHMAC.symm, h.base.symm, h.compileJobID.symm⟩

theorem BatchRow.settle_sameInput (state : BatchState) (hash : String) (b : BatchRow) :
    b.SameInput (b.settle state hash) := by
  unfold BatchRow.settle
  split_ifs
  · exact ⟨rfl, rfl, rfl, rfl, rfl, rfl, rfl, rfl, rfl⟩
  · exact .refl b

theorem BatchRow.compiled_sameInput (state : BatchState) (diagnostics : List Diagnostic)
    (b : BatchRow) : b.SameInput (b.compiled state diagnostics) := by
  unfold BatchRow.compiled
  split_ifs
  · exact ⟨rfl, rfl, rfl, rfl, rfl, rfl, rfl, rfl, rfl⟩
  · exact .refl b

def JobsKept (s s' : Store) : Prop :=
  ∀ k j, s.jobs.find? k = some j → ∃ j', s'.jobs.find? k = some j'

/-- No scope is lost, and every resource is followed by a later revision. -/
structure CatalogFollows (s s' : Store) : Prop where
  scopes : ∀ k x, s.business.scopes.find? k = some x → ∃ x', s'.business.scopes.find? k = some x'
  resources : RowsFollow s.business.toTables s'.business.toTables

theorem CatalogFollows.of_eq (h : s'.business.toTables = s.business.toTables) :
    CatalogFollows s s' := by
  refine ⟨fun k x hx => ⟨x, ?_⟩, ?_⟩
  · rw [h]
    exact hx
  · rw [h]
    exact .refl _

/-- The tables of batches and publications are as before. -/
structure SameTables (t t' : Tables) : Prop where
  batches : t'.batches = t.batches
  outputs : t'.outputs = t.outputs
  publications : t'.publications = t.publications
  dependencies : t'.dependencies = t.dependencies
  heads : t'.heads = t.heads
  operations : t'.operations = t.operations

def Logged (t t' : Tables) (P : OperationRow → Prop) : Prop :=
  t'.operations = t.operations ∨ ∃ o, t.operations.insert? o = some t'.operations ∧ P o

theorem Logged.congr {u u' : Tables} {P Q : OperationRow → Prop} (h : Logged t t' P)
    (ht : u.operations = t.operations) (ht' : u'.operations = t'.operations)
    (hPQ : ∀ o, P o → Q o) :
    Logged u u' Q := by
  unfold Logged
  rw [ht, ht']
  rcases h with hsame | ⟨o, hins, hP⟩
  · exact Or.inl hsame
  · exact Or.inr ⟨o, hins, hPQ o hP⟩

/-- The batch with the state that was derived for it. -/
def settled (s : Store) (batch : ID) (state : BatchState) (hash : String) : Store :=
  withTables s fun t =>
    { t with
      batches := t.batches.modify batch (BatchRow.settle state hash) (BatchRow.settle_id _ _) }

/-- Every target has its output. -/
def Complete (s : Store) (b : BatchRow) : Prop :=
  (outputJobs s b.scopeID b.id).length = b.frozen.input.targets.length

/-- A batch is created. -/
structure Freezes (s s' : Store) (b : BatchRow) : Prop where
  jobs : JobsKept s s'
  catalog : s'.business.toTables = s.business.toTables
  inserted : s.business.batches.insert? b = some s'.business.batches
  outputs : s'.business.outputs = s.business.outputs
  publications : s'.business.publications = s.business.publications
  dependencies : s'.business.dependencies = s.business.dependencies
  heads : s'.business.heads = s.business.heads
  views : s'.business.views = s.business.views
  logged : Logged s.business s'.business fun o =>
    o.route = .compile ∧ o.scopeID = b.scopeID ∧ o.operationID = b.id
  queued : b.state = .queued
  scope : ∃ x, s.business.scopes.find? b.scopeID = some x
  base : b.basePublicationID =
    (s.business.heads.find? (b.scopeID, b.profileID)).map HeadRow.publicationID
  frozen : ∀ r ∈ b.frozen.input.resources, ∃ row ∈ s.business.resources.rows,
    row.scopeID = b.scopeID ∧ r = sortTags row.resource
  job : ∃ j, s'.jobs.find? b.compileJobID = some j

/-- The outputs of a batch are written. -/
structure Commits (svc : Service) (s s' : Store) (p : Prepared) (ids : FreshIDs) : Prop where
  jobs : JobsKept s s'
  prepared : p = prepare svc p.batch
  batch : ∃ b, s.business.batches.find? p.batch.id = some b ∧ b.SameInput p.batch
  write : p.write svc ids s.business = some s'.business
  enqueued : ∀ e ∈ p.enqueues svc ids s.business, ∀ k, e.id = some k →
    ∃ j, s'.jobs.find? k = some j

/-- A publication is created and becomes the head. -/
structure Publishes (s s' : Store) (p : PublicationRow) (b : BatchRow) : Prop where
  jobs : s'.jobs = s.jobs
  catalog : s'.business.toTables = s.business.toTables
  batches : s'.business.batches = s.business.batches
  outputs : s'.business.outputs = s.business.outputs
  inserted : s.business.publications.insert? p = some s'.business.publications
  kept : s.business.dependencies.rows ⊆ s'.business.dependencies.rows
  pinned : ∀ d ∈ b.frozen.dependencies,
    ⟨p.id, p.scopeID, d.resourceID, d.revision, d.securityEpoch⟩ ∈ s'.business.dependencies.rows
  only : ∀ row ∈ s'.business.dependencies.rows, row ∈ s.business.dependencies.rows ∨
    ∃ d ∈ b.frozen.dependencies,
      row = ⟨p.id, p.scopeID, d.resourceID, d.revision, d.securityEpoch⟩
  heads : s'.business.heads = s.business.heads.upsert ⟨p.scopeID, p.profileID, p.id⟩
  views : s'.business.views = s.business.views
  logged : Logged s.business s'.business fun o =>
    o.route ≠ .compile ∧ o.scopeID = p.scopeID ∧ o.operationID = p.id
  found : s.business.batches.find? p.batchID = some b
  ready : b.state = .ready ∨ Complete s b
  scope : b.scopeID = p.scopeID
  generation : p.generation = headGeneration s.business p.scopeID p.profileID + 1
  own : p.sourcePublicationID = none → b.profileID = p.profileID ∧
    (headID s.business p.scopeID p.profileID).map Prod.fst = b.basePublicationID

/-- All that a call can do. -/
inductive Effect (svc : Service) : Store → Store → Prop where
  | other {s s' : Store} : JobsKept s s' → CatalogFollows s s' →
    SameTables s.business s'.business → Effect svc s s'
  | settle {s : Store} {b : BatchRow} {state : BatchState} {hash : String} :
    s.business.batches.find? b.id = some b → (state = .ready → b.state = .ready ∨ Complete s b) →
    Effect svc s (settled s b.id state hash)
  | freeze {s s' : Store} {b : BatchRow} : Freezes s s' b → Effect svc s s'
  | commit {s s' : Store} {p : Prepared} {ids : FreshIDs} : Commits svc s s' p ids →
    Effect svc s s'
  | publish {s s' : Store} {p : PublicationRow} {b : BatchRow} : Publishes s s' p b →
    Effect svc s s'

abbrev Effects (svc : Service) : Store → Store → Prop := ReflTransGen (Effect svc)

/-! ## Reads, inverted -/

theorem lockScope_ok {x : Scope} :
    lockScope t scope = .ok x ↔ t.scopes.find? scope = some x := by
  unfold lockScope
  cases h : t.scopes.find? scope with
  | none => simp [notFound]
  | some y => simp

theorem readBatch_ok :
    readBatch t scope id = .ok b ↔ t.batches.find? id = some b ∧ b.scopeID = scope := by
  unfold readBatch
  cases h : t.batches.find? id with
  | none => simp [notFound]
  | some y =>
    by_cases hscope : y.scopeID = scope
    · simp only [Option.filter_some, hscope, decide_true, if_true, Except.ok.injEq,
        Option.some.injEq]
      constructor
      · rintro rfl
        exact ⟨rfl, hscope⟩
      · exact fun h => h.1
    · simp only [Option.filter_some, hscope, decide_false, Bool.false_eq_true, if_false, notFound,
        reduceCtorEq, Option.some.injEq, false_iff, not_and]
      rintro rfl
      exact hscope

def Recorded (svc : Service) (t : Tables) (a : Actor) (request : Request) (op : ID) : Prop :=
  a.key ≠ "" → ∃ o, t.operations.find? (a.scopeID, a.id, request.route, a.key) = some o ∧
    o.operationID = op ∧ o.requestHMAC = svc.requestDigest a.scopeID a.id request

theorem Recorded.congr {request : Request} (h : Recorded svc t a request op)
    (ht : t'.operations = t.operations) :
    Recorded svc t' a request op := by
  unfold Recorded
  rw [ht]
  exact h

theorem operation_ok {request : Request}
    (h : operation svc t a request id = .ok (t', op, replay)) :
    Recorded svc t' a request op ∧
    (t' = t ∧ replay = decide (op ≠ id) ∨
      ∃ operations, t' = { t with operations := operations } ∧ replay = false ∧ op = id ∧
        t.operations.insert? ⟨a.scopeID, a.id, request.route, a.key,
          svc.requestDigest a.scopeID a.id request, id⟩ = some operations) := by
  unfold operation at h
  split_ifs at h with hvalid hkey
  · cases h
  · cases h
    exact ⟨fun hne => absurd hkey hne, Or.inl ⟨rfl, by simp⟩⟩
  · dsimp only at h
    split at h
    · next operations hins =>
      cases h
      refine ⟨fun _ => ⟨⟨a.scopeID, a.id, request.route, a.key,
        svc.requestDigest a.scopeID a.id request, id⟩, ?_, rfl, rfl⟩,
        Or.inr ⟨operations, rfl, rfl, rfl, hins⟩⟩
      dsimp only
      rw [Table.find?_insert? hins]
      exact if_pos rfl
    · split at h
      · cases h
      · next o ho =>
        split_ifs at h with hdigest
        cases h
        exact ⟨fun _ => ⟨o, ho, rfl, not_not.mp hdigest⟩, Or.inl ⟨rfl, rfl⟩⟩

/-! ## Bringing a batch up to date -/

@[simp] theorem BatchRow.settle_state (state : BatchState) (hash : String) (b : BatchRow) :
    (b.settle state hash).state = state := by
  unfold BatchRow.settle
  split_ifs with h
  · rfl
  · simp only [ne_eq, Bool.or_eq_true, decide_eq_true_eq, not_or, not_not] at h
    exact h.1

theorem aggregateState_ready (h : aggregateState s b outputs = .ok .ready) :
    outputs.length = b.frozen.input.targets.length ∧ outputsState outputs = .ready ∨
      outputs.length ≠ b.frozen.input.targets.length ∧ b.state = .ready := by
  unfold aggregateState at h
  obtain ⟨scope, -, h⟩ := of_bind h
  dsimp only at h
  generalize hstate : (if (!published s.business b && !b.current scope) = true then
    BatchState.obsolete else b.state) = state at h
  by_cases hlen : outputs.length = b.frozen.input.targets.length
  · split_ifs at h with hfinal
    · rw [pure_eq_ok_iff.mp h] at hfinal
      simp at hfinal
    · exact Or.inl ⟨hlen, pure_eq_ok_iff.mp h⟩
  · refine Or.inr ⟨hlen, ?_⟩
    have hready : state = .ready := by
      split_ifs at h with hfinal
      · exact pure_eq_ok_iff.mp h
      · split at h
        · cases h
        · next job _ =>
          have hjob := pure_eq_ok_iff.mp h
          unfold compilingState at hjob
          split at hjob <;> first | exact hjob | cases hjob
    rw [hready] at hstate
    split_ifs at hstate
    exact hstate

theorem aggregate_ok (h : aggregate svc s b = .ok (s', b', outputs)) :
    ∃ state hash, aggregateState s b outputs = .ok state ∧ s' = settled s b.id state hash ∧
      b' = b.settle state hash ∧ outputs = (outputRows s b.scopeID b.id).map Prod.fst ∧
      hash = previewHashOf svc b state ((outputRows s b.scopeID b.id).map Prod.snd) := by
  unfold aggregate at h
  obtain ⟨state, hstate, h⟩ := of_bind h
  cases pure_eq_ok_iff.mp h
  exact ⟨state, _, hstate, rfl, rfl, rfl, rfl⟩

theorem length_outputRows (s : Store) (b : BatchRow) :
    ((outputRows s b.scopeID b.id).map Prod.fst).length = (outputJobs s b.scopeID b.id).length := by
  unfold outputRows
  rw [length_map, length_map]

theorem aggregate_settles (h : aggregate svc s b = .ok (s', b', outputs)) :
    ∃ state hash, s' = settled s b.id state hash ∧ b' = b.settle state hash ∧
      (state = .ready → b.state = .ready ∨ Complete s b) := by
  obtain ⟨state, hash, hstate, rfl, rfl, rfl, -⟩ := aggregate_ok h
  refine ⟨state, hash, rfl, rfl, ?_⟩
  rintro rfl
  rcases aggregateState_ready hstate with ⟨hlen, -⟩ | ⟨-, hready⟩
  · rw [length_outputRows] at hlen
    exact Or.inr hlen
  · exact Or.inl hready

theorem aggregate_effect (hb : readBatch s.business scope id = .ok b)
    (h : aggregate svc s b = .ok (s', b', outputs)) : Effect svc s s' := by
  obtain ⟨hfound, -⟩ := readBatch_ok.mp hb
  have hid : b.id = id := Table.key_of_find? hfound
  obtain ⟨state, hash, rfl, -, hready⟩ := aggregate_settles h
  refine .settle ?_ hready
  rw [hid]
  exact hfound

theorem reconcile_effects (h : reconcile svc s scope id = .ok s') :
    Effects svc s s' := by
  unfold reconcile at h
  obtain ⟨_, -, h⟩ := of_bind h
  obtain ⟨b, hb, h⟩ := of_bind h
  obtain ⟨⟨s₁, b', outputs⟩, hagg, h⟩ := of_bind h
  cases pure_eq_ok_iff.mp h
  exact ReflTransGen.single (aggregate_effect hb hagg)

theorem getBatch_ok {batch : Batch} (h : getBatch svc s a id = .ok (s', batch)) :
    ∃ s₁ b b' outputs, readBatch s.business a.scopeID id = .ok b ∧
      aggregate svc s b = .ok (s₁, b', outputs) ∧ batch = shownBatch s₁ b' outputs ∧
      (b'.state = .ready ∧ s' = withTables s₁ (fun t =>
        { t with views := t.views.upsert ⟨a.scopeID, a.id, id, b'.previewHash⟩ }) ∨
      b'.state ≠ .ready ∧ s' = s₁) := by
  unfold getBatch at h
  split_ifs at h
  · cases h
  · obtain ⟨_, -, h⟩ := of_bind h
    obtain ⟨b, hb, h⟩ := of_bind h
    obtain ⟨⟨s₁, b', outputs⟩, hagg, h⟩ := of_bind h
    refine ⟨s₁, b, b', outputs, hb, hagg, ?_⟩
    dsimp only at h
    split_ifs at h with hready <;> cases pure_eq_ok_iff.mp h
    · exact ⟨rfl, Or.inl ⟨hready, rfl⟩⟩
    · exact ⟨rfl, Or.inr ⟨hready, rfl⟩⟩

theorem getBatch_effects {batch : Batch} (h : getBatch svc s a id = .ok (s', batch)) :
    Effects svc s s' := by
  obtain ⟨s₁, b, b', outputs, hb, hagg, -, hcase⟩ := getBatch_ok h
  have hfirst : Effects svc s s₁ := ReflTransGen.single (aggregate_effect hb hagg)
  rcases hcase with ⟨-, rfl⟩ | ⟨-, rfl⟩
  · refine hfirst.tail (.other (fun k j hj => ⟨j, hj⟩) (.of_eq rfl) ?_)
    exact ⟨rfl, rfl, rfl, rfl, rfl, rfl⟩
  · exact hfirst

/-! ## A new batch -/

theorem operation_logged {request : Request}
    (h : operation svc t a request id = .ok (t', op, false)) :
    op = id ∧ ∃ operations, t' = { t with operations := operations } ∧
      Logged t t' fun o => o.route = request.route ∧ o.scopeID = a.scopeID ∧
        o.operationID = id := by
  obtain ⟨-, ⟨rfl, hreplay⟩ | ⟨operations, rfl, -, hop, hins⟩⟩ := operation_ok h
  · exact ⟨by simpa using hreplay.symm, t'.operations, rfl, Or.inl rfl⟩
  · exact ⟨hop, operations, rfl, Or.inr ⟨_, hins, rfl, rfl, rfl⟩⟩

theorem operation_replay {request : Request}
    (h : operation svc t a request id = .ok (t', op, true)) : t' = t := by
  obtain ⟨-, ⟨rfl, -⟩ | ⟨operations, -, hreplay, -⟩⟩ := operation_ok h
  · rfl
  · cases hreplay

theorem mem_resources {r : Resource} (h : r ∈ resources t scope) :
    ∃ row ∈ t.resources.rows, row.scopeID = scope ∧ row.deleted = false ∧ row.resource = r := by
  unfold resources at h
  obtain ⟨row, hrow, rfl⟩ := mem_map.mp h
  obtain ⟨hmem, hkeep⟩ := mem_filter.mp hrow
  simp only [Bool.and_eq_true, decide_eq_true_eq, Bool.not_eq_true'] at hkeep
  exact ⟨row, hmem, hkeep.1.1, hkeep.1.2, rfl⟩

theorem freeze_resources {scope : Scope} {profile : Resource} {f : FrozenPublication}
    (h : freeze svc env t scope profile batch = .ok f) {r : Resource} (hr : r ∈ f.input.resources) :
    ∃ row ∈ t.resources.rows, row.scopeID = scope.id ∧ r = sortTags row.resource := by
  unfold freeze at h
  split at h
  · cases h
  · next selection hselect =>
    obtain ⟨_, -, h⟩ := of_bind h
    split_ifs at h
    cases pure_eq_ok_iff.mp h
    obtain ⟨head, hhead, rfl⟩ := select_resources hselect hr
    obtain ⟨row, hrow, hscope, -, rfl⟩ := mem_resources hhead
    exact ⟨row, hrow, hscope, rfl⟩

theorem insertBatch_ok (h : insertBatch svc env s a b = .ok s') :
    ∃ s₁ batches, Jobs.enqueueTx svc.wire env.jobs 0 s (compileInput svc b.scopeID b.id) = .ok s₁ ∧
      s₁.business.batches.insert? b = some batches ∧
      s' = withTables s₁ fun t => audit { t with batches := batches } a b.id .compile := by
  unfold insertBatch at h
  split at h
  · cases h
  · next s₁ henq =>
    split at h
    · cases h
    · next batches hins =>
      cases h
      exact ⟨s₁, batches, henq, hins, rfl⟩

theorem enqueueTx_jobsKept {s s' : Store} {n : ℕ} {input : Jobs.EnqueueInput}
    (h : Jobs.enqueueTx svc.wire env.jobs n s input = .ok s') : JobsKept s s' := by
  intro k j hj
  obtain ⟨j', hj', -⟩ := (Jobs.enqueueTx_evolves (P := fun _ => True) trivial h).kept k j hj
  exact ⟨j', hj'⟩

theorem compileTx_ok {keys : List String}
    (h : compileTx svc env s a id expected keys = .ok (s', batch, replay)) :
    Recorded svc s'.business a (.compile id expected keys) batch ∧
      (replay = true ∧ s' = s ∨ replay = false ∧ ∃ b, Freezes s s' b ∧ b.id = batch) := by
  unfold compileTx at h
  obtain ⟨-, h⟩ := of_ite h
  obtain ⟨scope, hscope, h⟩ := of_bind h
  obtain ⟨⟨r, p⟩, hprofile, h⟩ := of_bind h
  obtain ⟨-, h⟩ := of_ite h
  obtain ⟨-, h⟩ := of_ite h
  obtain ⟨⟨t, op, found⟩, hop, h⟩ := of_bind h
  dsimp only at h
  cases found with
  | true =>
    have ht := operation_replay hop
    subst ht
    cases pure_eq_ok_iff.mp h
    exact ⟨(operation_ok hop).1, Or.inl ⟨rfl, rfl⟩⟩
  | false =>
    rw [if_neg Bool.false_ne_true] at h
    obtain ⟨-, h⟩ := of_ite h
    obtain ⟨frozen, hfreeze, h⟩ := of_bind h
    obtain ⟨s₂, hinsert, h⟩ := of_bind h
    cases pure_eq_ok_iff.mp h
    obtain ⟨hnew, operations, rfl, hlog⟩ := operation_logged hop
    obtain ⟨s₁, batches, henq, hins, rfl⟩ := insertBatch_ok hinsert
    have hbusiness := Jobs.enqueueTx_business henq
    have hscopeID : scope.id = a.scopeID := Table.key_of_find? (lockScope_ok.mp hscope)
    have hrecorded := (operation_ok hop).1
    refine ⟨hrecorded.congr (by simp only [withTables_business, audit, hbusiness]),
      Or.inr ⟨rfl, newBatch svc env s.business scope r expected batch frozen, ?_, rfl⟩⟩
    exact {
      jobs := fun k j hj => enqueueTx_jobsKept henq k j hj
      catalog := by simp only [withTables_business, audit, hbusiness]
      inserted := by
        rw [hbusiness] at hins
        exact hins
      outputs := by simp only [withTables_business, audit, hbusiness]
      publications := by simp only [withTables_business, audit, hbusiness]
      dependencies := by simp only [withTables_business, audit, hbusiness]
      heads := by simp only [withTables_business, audit, hbusiness]
      views := by simp only [withTables_business, audit, hbusiness]
      logged := by
        refine hlog.congr rfl ?_ ?_
        · simp only [withTables_business, audit, hbusiness]
        · rintro o ⟨hroute, hscope', hop'⟩
          exact ⟨hroute, hscope'.trans hscopeID.symm, hop'.trans hnew.symm⟩
      queued := rfl
      scope := ⟨scope, by
        show s.business.scopes.find? scope.id = some scope
        rw [hscopeID]
        exact lockScope_ok.mp hscope⟩
      base := rfl
      frozen := fun res hres => freeze_resources hfreeze hres
      job := Jobs.enqueueTx_inserts henq }

theorem compileTx_effects {keys : List String}
    (h : compileTx svc env s a id expected keys = .ok (s', batch, replay)) :
    Effects svc s s' := by
  obtain ⟨-, ⟨-, rfl⟩ | ⟨-, b, hfreezes, -⟩⟩ := compileTx_ok h
  · exact ReflTransGen.refl
  · exact ReflTransGen.single (.freeze hfreezes)

/-! ## A new publication -/

theorem insertDependencies_ok {publication : ID} :
    ∀ {t t' : Tables}, insertDependencies t scope publication ds = some t' →
      ∃ dependencies, t' = { t with dependencies := dependencies } ∧
        ∀ row, row ∈ dependencies.rows ↔ row ∈ t.dependencies.rows ∨
          ∃ d ∈ ds, row = ⟨publication, scope, d.resourceID, d.revision, d.securityEpoch⟩ := by
  induction ds with
  | nil =>
    intro t t' h
    cases h
    exact ⟨t.dependencies, rfl, by simp⟩
  | cons d ds ih =>
    intro t t' h
    unfold insertDependencies at h
    obtain ⟨inserted, hins, h⟩ := Option.bind_eq_some_iff.mp h
    obtain ⟨dependencies, rfl, hmem⟩ := ih h
    refine ⟨dependencies, rfl, fun row => ?_⟩
    rw [hmem row]
    show row ∈ inserted.rows ∨ _ ↔ _
    rw [Table.mem_insert? hins, exists_mem_cons_iff]
    exact or_assoc

theorem createPublication_ok (h : createPublication t a p ds = .ok t') :
    ∃ publications dependencies, t.publications.insert? p = some publications ∧
      (∀ row, row ∈ dependencies.rows ↔ row ∈ t.dependencies.rows ∨
        ∃ d ∈ ds, row = ⟨p.id, p.scopeID, d.resourceID, d.revision, d.securityEpoch⟩) ∧
      t' = audit
        { t with
          publications := publications
          dependencies := dependencies
          heads := t.heads.upsert ⟨p.scopeID, p.profileID, p.id⟩ } a p.id
        (if p.sourcePublicationID.isSome then .rollback else .publish) := by
  unfold createPublication at h
  split at h
  · cases h
  · next t₂ hinsert =>
    cases h
    obtain ⟨t₁, hpublication, hdependencies⟩ := Option.bind_eq_some_iff.mp hinsert
    unfold insertPublication at hpublication
    split_ifs at hpublication
    obtain ⟨publications, hins, rfl⟩ := Option.map_eq_some_iff.mp hpublication
    obtain ⟨dependencies, rfl, hmem⟩ := insertDependencies_ok hdependencies
    exact ⟨publications, dependencies, hins, hmem, rfl⟩

theorem createPublication_operations (h : createPublication t a p ds = .ok t') :
    t'.operations = t.operations := by
  obtain ⟨publications, dependencies, -, -, rfl⟩ := createPublication_ok h
  rfl

theorem commitPublication_ok (h : commitPublication s a p ds = .ok (s', publication)) :
    ∃ t, createPublication s.business a p ds = .ok t ∧ s' = { s with business := t } ∧
      readPublication s' a.scopeID p.id = .ok publication := by
  unfold commitPublication at h
  obtain ⟨t, ht, h⟩ := of_bind h
  obtain ⟨read, hread, h⟩ := of_bind h
  cases pure_eq_ok_iff.mp h
  exact ⟨t, ht, rfl, hread⟩

theorem commitPublication_publishes {operations : Table OperationRow.index}
    (h : commitPublication (withTables s fun t => { t with operations := operations }) a p
      b.frozen.dependencies = .ok (s', publication))
    (hlog : Logged s.business { s.business with operations := operations } fun o =>
      o.route ≠ .compile ∧ o.scopeID = p.scopeID ∧ o.operationID = p.id)
    (hfound : s.business.batches.find? p.batchID = some b)
    (hready : b.state = .ready ∨ Complete s b) (hscope : b.scopeID = p.scopeID)
    (hgeneration : p.generation = headGeneration s.business p.scopeID p.profileID + 1)
    (hown : p.sourcePublicationID = none → b.profileID = p.profileID ∧
      (headID s.business p.scopeID p.profileID).map Prod.fst = b.basePublicationID) :
    Publishes s s' p b := by
  obtain ⟨t, ht, rfl, -⟩ := commitPublication_ok h
  obtain ⟨publications, dependencies, hins, hmem, rfl⟩ := createPublication_ok ht
  exact {
    jobs := rfl
    catalog := rfl
    batches := rfl
    outputs := rfl
    inserted := hins
    kept := fun row hrow => (hmem row).mpr (Or.inl hrow)
    pinned := fun d hd => (hmem _).mpr (Or.inr ⟨d, hd, rfl⟩)
    only := fun row hrow => (hmem row).mp hrow
    heads := rfl
    views := rfl
    logged := hlog.congr rfl rfl fun _ ho => ho
    found := hfound
    ready := hready
    scope := hscope
    generation := hgeneration
    own := hown }

/-! ## Publish -/

/-- What the checks of a first publish request establish. -/
structure Publishable (svc : Service) (s : Store) (a : Actor) (scope : Scope)
    (current : Resource × SubscriptionProfile) (id : ID) (expected : ℕ) (request : PublishRequest)
    (b : BatchRow) : Prop where
  revision : current.1.metadata.revision = expected
  read : readBatch s.business a.scopeID request.batchID = .ok b
  profileID : b.profileID = id
  current : b.current scope = true
  profileRevision : expected = b.profileRevision

theorem checkPublish_ok {scope : Scope} {current : Resource × SubscriptionProfile}
    {request : PublishRequest}
    (h : checkPublish svc s a scope current id expected request = .ok (s', b')) :
    ∃ b outputs, Publishable svc s a scope current id expected request b ∧
      aggregate svc s b = .ok (s', b', outputs) ∧ b'.state = .ready ∧
      safeBatch s'.business b' current = .ok () ∧
      headGeneration s'.business a.scopeID id = request.expectedGeneration ∧
      (headID s'.business a.scopeID id).map Prod.fst = b'.basePublicationID ∧
      confirmed s'.business a request b' = true := by
  unfold checkPublish at h
  obtain ⟨hrevision, h⟩ := of_ite h
  obtain ⟨b, hread, h⟩ := of_bind h
  obtain ⟨hprofile, h⟩ := of_ite h
  obtain ⟨hcurrent, h⟩ := of_ite h
  obtain ⟨⟨s₁, b₁, outputs⟩, hagg, h⟩ := of_bind h
  obtain ⟨hready, h⟩ := of_ite h
  obtain ⟨_, hsafe, h⟩ := of_bind h
  obtain ⟨hhead, h⟩ := of_ite h
  obtain ⟨hconfirmed, h⟩ := of_ite h
  cases pure_eq_ok_iff.mp h
  simp only [ne_eq, Bool.or_eq_true, Bool.not_eq_true', decide_eq_true_eq, not_or, not_not,
    Bool.not_eq_false] at hrevision hprofile hcurrent hready hhead hconfirmed
  exact ⟨b, outputs, ⟨hrevision, hread, hprofile, hcurrent.1, hcurrent.2⟩, hagg, hready, hsafe,
    hhead.1, hhead.2, hconfirmed⟩

theorem settled_found {state : BatchState} {hash : String}
    (h : s.business.batches.find? b.id = some b) :
    (settled s b.id state hash).business.batches.find? (b.settle state hash).id =
      some (b.settle state hash) := by
  rw [BatchRow.settle_id]
  unfold settled
  rw [withTables_business, Table.find?_modify_self, h]
  rfl

theorem aggregate_operations {operations : Table OperationRow.index}
    (h : aggregate svc (withTables s fun t => { t with operations := operations }) b =
      .ok (s', b', outputs)) :
    ∃ s₁, aggregate svc s b = .ok (s₁, b', outputs) ∧
      s' = withTables s₁ fun t => { t with operations := operations } := by
  obtain ⟨state, hash, hstate, rfl, rfl, rfl, rfl⟩ := aggregate_ok h
  have hstate' : aggregateState s b ((outputRows s b.scopeID b.id).map Prod.fst) = .ok state :=
    hstate
  refine ⟨settled s b.id state (previewHashOf svc b state
    ((outputRows s b.scopeID b.id).map Prod.snd)), ?_, rfl⟩
  unfold aggregate
  dsimp only
  rw [hstate']
  rfl

theorem safeTargets_congr (h : t'.coreBuilds = t.coreBuilds) (p : SubscriptionProfile)
    (targets : List Target) :
    safeTargets t' p targets = safeTargets t p targets := by
  induction targets with
  | nil => rfl
  | cons target targets ih =>
    unfold safeTargets
    rw [h, ih]

theorem safeBatch_operations (t : Tables) (operations : Table OperationRow.index) (b : BatchRow)
    (current : Resource × SubscriptionProfile) :
    safeBatch { t with operations := operations } b current = safeBatch t b current := by
  have htargets : safeTargets { t with operations := operations } current.2
      b.frozen.input.targets = safeTargets t current.2 b.frozen.input.targets :=
    safeTargets_congr (by rfl) _ _
  unfold safeBatch
  rw [htargets]
  rfl

theorem checkRollback_operations (s : Store) (operations : Table OperationRow.index) (a : Actor)
    (current : Resource × SubscriptionProfile) (id : ID) (expected : ℕ)
    (request : RollbackRequest) :
    checkRollback (withTables s fun t => { t with operations := operations }) a current id expected
      request = checkRollback s a current id expected request := by
  have hread : readPublication (withTables s fun t => { t with operations := operations })
      a.scopeID request.publicationID = readPublication s a.scopeID request.publicationID := by
    unfold readPublication isSafe
    simp only [withTables_business, safeBatch_operations]
    rfl
  unfold checkRollback
  rw [hread]
  simp only [withTables_business, safeBatch_operations]
  rfl

/-- The publication that a first publish request creates. -/
def publishedRow (s : Store) (a : Actor) (id publication : ID) (b : BatchRow) : PublicationRow :=
  ⟨publication, a.scopeID, id, headGeneration s.business a.scopeID id + 1, b.id, none, a.id⟩

/-- A publish request finds its publication, or publishes a batch that it brings up to date. -/
theorem publishTx_ok {request : PublishRequest}
    (h : publishTx svc env s a id expected request = .ok (s', publication)) :
    ∃ op, Recorded svc s'.business a (.publish id expected request) op ∧
      readPublication s' a.scopeID op = .ok publication ∧
      (s' = s ∨ op = env.newID ∧
      ∃ scope current b b' s₁ outputs, lockScope s.business a.scopeID = .ok scope ∧
        profile s.business a.scopeID id = .ok current ∧
        Publishable svc s a scope current id expected request b ∧
        aggregate svc s b = .ok (s₁, b', outputs) ∧ b'.state = .ready ∧
        safeBatch s₁.business b' current = .ok () ∧
        headGeneration s₁.business a.scopeID id = request.expectedGeneration ∧
        confirmed s₁.business a request b' = true ∧
        Publishes s₁ s' (publishedRow s₁ a id env.newID b') b') := by
  unfold publishTx at h
  obtain ⟨-, h⟩ := of_ite h
  obtain ⟨scope, hscope, h⟩ := of_bind h
  obtain ⟨current, hprofile, h⟩ := of_bind h
  obtain ⟨⟨t, op, found⟩, hop, h⟩ := of_bind h
  dsimp only at h
  cases found with
  | true =>
    have ht := operation_replay hop
    subst ht
    rw [if_pos rfl] at h
    obtain ⟨read, hread, h⟩ := of_bind h
    cases pure_eq_ok_iff.mp h
    exact ⟨op, (operation_ok hop).1, hread, Or.inl rfl⟩
  | false =>
    rw [if_neg Bool.false_ne_true] at h
    obtain ⟨⟨s₂, b'⟩, hcheck, h⟩ := of_bind h
    obtain ⟨hnew, operations, rfl, hlog⟩ := operation_logged hop
    subst hnew
    obtain ⟨b, outputs, hable, hagg, hready, hsafe, hgeneration, hbase, hconfirmed⟩ :=
      checkPublish_ok hcheck
    -- the operation is recorded before the batch is brought up to date, which does not read it
    obtain ⟨s₁, hagg₁, rfl⟩ := aggregate_operations hagg
    have hscope' : b.scopeID = a.scopeID := (readBatch_ok.mp hable.read).2
    have hid : b.id = request.batchID := Table.key_of_find? (readBatch_ok.mp hable.read).1
    obtain ⟨state, hash, rfl, rfl, -⟩ := aggregate_settles hagg₁
    rw [withTables_business, safeBatch_operations] at hsafe
    have hfound : s.business.batches.find? b.id = some b := by
      rw [hid]
      exact (readBatch_ok.mp hable.read).1
    have hpublishes : Publishes (settled s b.id state hash) s'
        (publishedRow (settled s b.id state hash) a id env.newID (b.settle state hash))
        (b.settle state hash) := by
      refine commitPublication_publishes h (hlog.congr rfl rfl ?_) (settled_found hfound)
        (Or.inl hready) ?_ rfl fun _ => ⟨?_, hbase⟩
      · rintro o ⟨hroute, hrest⟩
        refine ⟨?_, hrest⟩
        rw [hroute]
        exact nofun
      · exact (b.settle_sameInput state hash).scopeID.trans hscope'
      · exact (b.settle_sameInput state hash).profileID.trans hable.profileID
    obtain ⟨t, ht, hs', hread⟩ := commitPublication_ok h
    have hrecorded := (operation_ok hop).1
    refine ⟨env.newID, hrecorded.congr ?_, hread, Or.inr ⟨rfl, scope, current, b, _, _, outputs,
      hscope, hprofile, ?_, hagg₁, hready, hsafe, hgeneration, hconfirmed, hpublishes⟩⟩
    · rw [hs']
      exact (createPublication_operations ht).trans rfl
    · exact ⟨hable.revision, hable.read, hable.profileID, hable.current, hable.profileRevision⟩

theorem publishTx_effects {request : PublishRequest}
    (h : publishTx svc env s a id expected request = .ok (s', publication)) :
    Effects svc s s' := by
  obtain ⟨_, -, -, rfl | ⟨-, scope, current, b, b', s₁, outputs, -, -, hable, hagg, -, -, -, -,
    hpublishes⟩⟩ := publishTx_ok h
  · exact ReflTransGen.refl
  · exact (ReflTransGen.single (aggregate_effect hable.read hagg)).tail (.publish hpublishes)

/-! ## Rollback -/

theorem checkRollback_ok {current : Resource × SubscriptionProfile}
    (h : checkRollback s a current id expected request = .ok b) :
    ∃ old, readPublication s a.scopeID request.publicationID = .ok old ∧
      old.subscriptionID = id ∧ readBatch s.business a.scopeID old.batchID = .ok b ∧
      safeBatch s.business b current = .ok () ∧
      (outputRows s a.scopeID b.id).length = (targetKeys b).length ∧
      (∀ o ∈ outputRows s a.scopeID b.id, o.1.state = .ready) ∧
      headGeneration s.business a.scopeID id = request.expectedGeneration := by
  unfold checkRollback at h
  obtain ⟨-, h⟩ := of_ite h
  obtain ⟨old, hold, h⟩ := of_bind h
  obtain ⟨hprofile, h⟩ := of_ite h
  obtain ⟨b', hread, h⟩ := of_bind h
  obtain ⟨_, hsafe, h⟩ := of_bind h
  obtain ⟨houtputs, h⟩ := of_ite h
  obtain ⟨hgeneration, h⟩ := of_ite h
  cases pure_eq_ok_iff.mp h
  simp only [ne_eq, Bool.or_eq_true, decide_eq_true_eq, not_or, not_not, any_eq_true,
    not_exists, not_and] at hprofile houtputs hgeneration
  exact ⟨old, hold, hprofile, hread, hsafe, houtputs.1.2, houtputs.2, hgeneration⟩

theorem rollbackTx_ok (h : rollbackTx svc env s a id expected request = .ok (s', publication)) :
    ∃ op, Recorded svc s'.business a (.rollback id expected request) op ∧
      readPublication s' a.scopeID op = .ok publication ∧
      (s' = s ∨ op = env.newID ∧ ∃ current b, profile s.business a.scopeID id = .ok current ∧
        checkRollback s a current id expected request = .ok b ∧
        Publishes s s' { publishedRow s a id env.newID b with
          sourcePublicationID := some request.publicationID } b) := by
  unfold rollbackTx at h
  obtain ⟨-, h⟩ := of_ite h
  obtain ⟨_, -, h⟩ := of_bind h
  obtain ⟨current, hprofile, h⟩ := of_bind h
  obtain ⟨⟨t, op, found⟩, hop, h⟩ := of_bind h
  dsimp only at h
  cases found with
  | true =>
    have ht := operation_replay hop
    subst ht
    rw [if_pos rfl] at h
    obtain ⟨read, hread, h⟩ := of_bind h
    cases pure_eq_ok_iff.mp h
    exact ⟨op, (operation_ok hop).1, hread, Or.inl rfl⟩
  | false =>
    rw [if_neg Bool.false_ne_true] at h
    obtain ⟨b, hcheck, h⟩ := of_bind h
    obtain ⟨hnew, operations, rfl, hlog⟩ := operation_logged hop
    subst hnew
    obtain ⟨t, ht, hs', hread⟩ := commitPublication_ok h
    have hcheck' := (checkRollback_operations s operations a current id expected request).symm.trans
      hcheck
    obtain ⟨old, -, -, hbatch, -, houtputs, -, -⟩ := checkRollback_ok hcheck
    obtain ⟨hfound, hscope⟩ := readBatch_ok.mp hbatch
    have hid : b.id = old.batchID := Table.key_of_find? hfound
    have hrecorded := (operation_ok hop).1
    refine ⟨env.newID, hrecorded.congr ?_, hread,
      Or.inr ⟨rfl, current, b, hprofile, hcheck', ?_⟩⟩
    · rw [hs']
      exact (createPublication_operations ht).trans rfl
    have hcomplete : Complete s b := by
      unfold Complete
      rw [← length_outputRows, hscope, length_map]
      exact houtputs.trans (length_map _)
    refine commitPublication_publishes h (hlog.congr rfl rfl ?_) ?_ (Or.inr hcomplete) hscope rfl
      nofun
    · rintro o ⟨hroute, hrest⟩
      refine ⟨?_, hrest⟩
      rw [hroute]
      exact nofun
    · show s.business.batches.find? b.id = some b
      rw [hid]
      exact hfound

theorem rollbackTx_effects (h : rollbackTx svc env s a id expected request =
    .ok (s', publication)) :
    Effects svc s s' := by
  obtain ⟨_, -, -, rfl | ⟨-, current, b, -, -, hpublishes⟩⟩ := rollbackTx_ok h
  · exact ReflTransGen.refl
  · exact ReflTransGen.single (.publish hpublishes)

end ProxyLoom.Subscriptions
