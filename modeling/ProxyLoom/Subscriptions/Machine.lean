import ProxyLoom.Subscriptions.Effects

/-!
# Subscriptions as a transition system

Administrators change the catalog, compile, look at batches, publish and roll back; workers compile
batches, and runners validate their outputs through the job queue. Every transaction runs alone, in
any order, and one that fails changes nothing but the clock.
-/

namespace ProxyLoom.Subscriptions

open IR Catalog Relation Except

variable {svc : Service} {env : Env} {s s' : Store} {p : Prepared} {t : Tables} {w' : World}
  {l : Label}

/-! ## Growth -/

/-- What no transaction takes back. -/
structure Grows (s s' : Store) : Prop where
  jobs : JobsKept s s'
  catalog : CatalogFollows s s'
  batches : ∀ k b, s.business.batches.find? k = some b →
    ∃ b', s'.business.batches.find? k = some b' ∧ b.SameInput b'
  outputs : s.business.outputs.rows ⊆ s'.business.outputs.rows
  publications : s.business.publications.rows <+: s'.business.publications.rows
  dependencies : s.business.dependencies.rows ⊆ s'.business.dependencies.rows
  operations : ∀ k o, s.business.operations.find? k = some o →
    s'.business.operations.find? k = some o

theorem CatalogFollows.trans {s t u : Store} (h₁ : CatalogFollows s t)
    (h₂ : CatalogFollows t u) : CatalogFollows s u := by
  refine ⟨fun k x hx => ?_, h₁.resources.trans h₂.resources⟩
  obtain ⟨y, hy⟩ := h₁.scopes k x hx
  exact h₂.scopes k y hy

theorem Grows.refl (s : Store) : Grows s s where
  jobs _ j hj := ⟨j, hj⟩
  catalog := .of_eq rfl
  batches _ b hb := ⟨b, hb, .refl b⟩
  outputs := List.Subset.refl _
  publications := List.prefix_refl _
  dependencies := List.Subset.refl _
  operations _ _ h := h

theorem Grows.trans {s t u : Store} (h₁ : Grows s t) (h₂ : Grows t u) : Grows s u where
  jobs k j hj := by
    obtain ⟨j₁, hj₁⟩ := h₁.jobs k j hj
    exact h₂.jobs k j₁ hj₁
  catalog := h₁.catalog.trans h₂.catalog
  batches k b hb := by
    obtain ⟨b₁, hb₁, hsame₁⟩ := h₁.batches k b hb
    obtain ⟨b₂, hb₂, hsame₂⟩ := h₂.batches k b₁ hb₁
    exact ⟨b₂, hb₂, hsame₁.trans hsame₂⟩
  outputs := List.Subset.trans h₁.outputs h₂.outputs
  publications := h₁.publications.trans h₂.publications
  dependencies := List.Subset.trans h₁.dependencies h₂.dependencies
  operations k o ho := h₂.operations k o (h₁.operations k o ho)

theorem Logged.kept {t' : Tables} {P : OperationRow → Prop} (h : Logged t t' P)
    (k : ID × ID × Route × String) (o : OperationRow) (ho : t.operations.find? k = some o) :
    t'.operations.find? k = some o := by
  rcases h with hsame | ⟨new, hins, -⟩
  · rw [hsame]
    exact ho
  · rw [Table.find?_insert? hins, if_neg]
    · exact ho
    · rintro rfl
      rw [(Table.insert?_eq_some_iff.mp hins).1] at ho
      cases ho

theorem batches_modify {f : BatchRow → BatchRow} (hid : ∀ b, (f b).id = b.id)
    (hf : ∀ b : BatchRow, b.SameInput (f b)) (batch k : ID) {b : BatchRow}
    (hb : t.batches.find? k = some b) :
    ∃ b', (t.batches.modify batch f hid).find? k = some b' ∧ b.SameInput b' := by
  by_cases hk : k = batch
  · subst hk
    rw [Table.find?_modify_self, hb]
    exact ⟨f b, rfl, hf b⟩
  · rw [Table.find?_modify_ne _ _ _ hk]
    exact ⟨b, hb, .refl b⟩

theorem insertOutputs_ok {rows : List OutputRow} :
    ∀ {t t' : Tables}, insertOutputs t rows = some t' →
      ∃ outputs, t' = { t with outputs := outputs } ∧
        ∀ o, o ∈ outputs.rows ↔ o ∈ t.outputs.rows ∨ o ∈ rows := by
  induction rows with
  | nil =>
    intro t t' h
    cases h
    exact ⟨t.outputs, rfl, by simp⟩
  | cons row rows ih =>
    intro t t' h
    unfold insertOutputs at h
    obtain ⟨t₁, hfirst, h⟩ := Option.bind_eq_some_iff.mp h
    unfold insertOutput at hfirst
    split_ifs at hfirst
    obtain ⟨inserted, hins, rfl⟩ := Option.map_eq_some_iff.mp hfirst
    obtain ⟨outputs, rfl, hmem⟩ := ih h
    refine ⟨outputs, rfl, fun o => ?_⟩
    rw [hmem o]
    show o ∈ inserted.rows ∨ o ∈ rows ↔ _
    rw [Table.mem_insert? hins, List.mem_cons]
    exact or_assoc

/-- The outputs of a compiled batch: those there were, and one for each compiled target. -/
theorem write_ok {ids : FreshIDs} {t' : Tables} (h : p.write svc ids t = some t') :
    ∃ scope outputs, t.scopes.find? p.batch.scopeID = some scope ∧
      (∀ o, o ∈ outputs.rows ↔
        o ∈ t.outputs.rows ∨ o ∈ p.rows svc ids (p.nextState scope)) ∧
      t' = { t with outputs := outputs }.compiled p.batch.id (p.nextState scope)
        p.diagnostics := by
  unfold Prepared.write at h
  obtain ⟨scope, hscope, h⟩ := Option.bind_eq_some_iff.mp h
  obtain ⟨t₁, hinsert, rfl⟩ := Option.map_eq_some_iff.mp h
  obtain ⟨outputs, rfl, hmem⟩ := insertOutputs_ok hinsert
  exact ⟨scope, outputs, hscope, hmem, rfl⟩

/-- **Effects only add.** -/
theorem effect_grows (h : Effect svc s s') : Grows s s' := by
  cases h with
  | other hjobs hcatalog hsame =>
    exact {
      jobs := hjobs
      catalog := hcatalog
      batches := fun k b hb => ⟨b, by rw [hsame.batches]; exact hb, .refl b⟩
      outputs := by rw [hsame.outputs]; exact List.Subset.refl _
      publications := by rw [hsame.publications]
      dependencies := by rw [hsame.dependencies]; exact List.Subset.refl _
      operations := fun k o ho => by rw [hsame.operations]; exact ho }
  | settle hfound hready =>
    exact { Grows.refl s with
      jobs := fun k j hj => ⟨j, hj⟩
      catalog := .of_eq rfl
      batches := fun k b hb =>
        batches_modify (BatchRow.settle_id _ _) (BatchRow.settle_sameInput _ _) _ k hb }
  | freeze hf =>
    exact {
      jobs := hf.jobs
      catalog := .of_eq hf.catalog
      batches := fun k b hb => by
        refine ⟨b, ?_, .refl b⟩
        rw [Table.find?_insert? hf.inserted, if_neg]
        · exact hb
        · rintro rfl
          rw [(Table.insert?_eq_some_iff.mp hf.inserted).1] at hb
          cases hb
      outputs := by rw [hf.outputs]; exact List.Subset.refl _
      publications := by rw [hf.publications]
      dependencies := by rw [hf.dependencies]; exact List.Subset.refl _
      operations := hf.logged.kept }
  | commit hc =>
    obtain ⟨scope, outputs, -, hmem, hwrite⟩ := write_ok hc.write
    exact {
      jobs := hc.jobs
      catalog := .of_eq (by rw [hwrite]; rfl)
      batches := fun k b hb => by
        rw [hwrite]
        exact batches_modify (BatchRow.compiled_id _ _) (BatchRow.compiled_sameInput _ _) _ k hb
      outputs := fun o ho => by
        rw [hwrite]
        exact (hmem o).mpr (Or.inl ho)
      publications := by rw [hwrite]; exact List.prefix_refl _
      dependencies := by rw [hwrite]; exact List.Subset.refl _
      operations := fun k o ho => by rw [hwrite]; exact ho }
  | publish hp =>
    exact {
      jobs := fun k j hj => ⟨j, by rw [hp.jobs]; exact hj⟩
      catalog := .of_eq hp.catalog
      batches := fun k b hb => ⟨b, by rw [hp.batches]; exact hb, .refl b⟩
      outputs := by rw [hp.outputs]; exact List.Subset.refl _
      publications := by
        rw [(Table.insert?_eq_some_iff.mp hp.inserted).2]
        exact List.prefix_append _ _
      dependencies := hp.kept
      operations := hp.logged.kept }

theorem effects_grow (h : Effects svc s s') : Grows s s' := by
  induction h with
  | refl => exact .refl s
  | tail _ heffect ih => exact ih.trans (effect_grows heffect)

/-! ## Calls -/

/-- The clock, the tables, the batches that workers have compiled and not yet committed, and the
previews that actors were shown. -/
structure World where
  clock : Jobs.Time
  store : Store
  handling : List Prepared
  shown : List ViewRow

/-- The operations of the API and of the workers. -/
inductive Call where
  | catalog (scope : ID) (mutations : List Mutation)
  | compile (a : Actor) (id : ID) (expected : ℕ) (keys : List String)
  | getBatch (a : Actor) (id : ID)
  | publish (a : Actor) (id : ID) (expected : ℕ) (request : PublishRequest)
  | rollback (a : Actor) (id : ID) (expected : ℕ) (request : RollbackRequest)
  | reconcile (scope id : ID)
  /-- A worker compiles the batch of its lease. -/
  | handle (lease : Jobs.Lease)
  /-- A worker commits what it compiled. -/
  | complete (id : Jobs.LeaseIdentity) (p : Prepared) (ids : FreshIDs)
  /-- Anything else that happens in the queue. -/
  | queue (call : Jobs.Call Tables)
  | setCoreBuilds (coreBuilds : Table CoreBuildRow.id)
  | setTokens (tokens : Table TokenRow.publicID)

/-- A worker commits only what it compiled, and no other call of the queue has a callback that
writes these tables. -/
def Call.Allowed (w : World) : Call → Prop
  | .complete _ p _ => p ∈ w.handling
  | .queue call => call.callback = none
  | _ => True

/-- The preview of a batch that an actor is shown: a ready batch with its hash. -/
def shownTo (a : Actor) (batch : Batch) : Option ViewRow :=
  if batch.state = .ready then
    some ⟨a.scopeID, a.id, batch.batchID, batch.effectivePreviewHash⟩
  else none

/-- What a call commits; a failed one commits nothing. -/
def exec (svc : Service) (env : Env) (w : World) : Call → Option World
  | .catalog scope ms =>
    (transact svc.schema svc.checks scope w.store.business.toTables ms).toOption.map fun t =>
      { w with store := withTables w.store fun x => { x with toTables := t } }
  | .compile a id expected keys =>
    (compileTx svc env w.store a id expected keys).toOption.map fun out =>
      { w with store := out.1 }
  | .getBatch a id =>
    (getBatch svc w.store a id).toOption.map fun out =>
      { w with store := out.1, shown := w.shown ++ (shownTo a out.2).toList }
  | .publish a id expected request =>
    (publishTx svc env w.store a id expected request).toOption.map fun out =>
      { w with store := out.1 }
  | .rollback a id expected request =>
    (rollbackTx svc env w.store a id expected request).toOption.map fun out =>
      { w with store := out.1 }
  | .reconcile scope id =>
    (reconcile svc w.store scope id).toOption.map fun s => { w with store := s }
  | .handle lease =>
    (handleCompile svc w.store.business lease).toOption.map fun p =>
      { w with handling := w.handling ++ [p] }
  | .complete id p ids =>
    (Jobs.exec svc.wire env.jobs w.store
      (.complete id p.result (some (commitCompile svc p ids)))).toOption.map fun out =>
        { w with store := out.1 }
  | .queue call =>
    (Jobs.exec svc.wire env.jobs w.store call).toOption.map fun out => { w with store := out.1 }
  | .setCoreBuilds coreBuilds =>
    some { w with store := withTables w.store fun t => { t with coreBuilds := coreBuilds } }
  | .setTokens tokens =>
    some { w with store := withTables w.store fun t => { t with tokens := tokens } }

/-- The world after a call: one that fails changes nothing but the clock. -/
def World.next (svc : Service) (env : Env) (w : World) (call : Call) : World :=
  { (exec svc env w call).getD w with clock := env.jobs.finish }

structure Label where
  env : Env
  call : Call

def Tables.initial (catalog : Catalog.Tables) (coreBuilds : Table CoreBuildRow.id)
    (tokens : Table TokenRow.publicID) : Tables where
  toTables := catalog
  coreBuilds := coreBuilds
  batches := .empty
  outputs := .empty
  publications := .empty
  dependencies := .empty
  heads := .empty
  views := .empty
  tokens := tokens
  operations := .empty
  audits := []

def initialWorld (catalog : Catalog.Tables) (coreBuilds : Table CoreBuildRow.id)
    (tokens : Table TokenRow.publicID) : World :=
  ⟨0, Jobs.Store.empty (Tables.initial catalog coreBuilds tokens), [], []⟩

/-- Calls one at a time, from any catalog. -/
def subscriptions (svc : Service) : Machine World Label where
  init w := ∃ catalog coreBuilds tokens, w = initialWorld catalog coreBuilds tokens
  step w l w' := w.clock ≤ l.env.jobs.start ∧ l.env.jobs.start ≤ l.env.jobs.finish ∧
    l.call.Allowed w ∧ w' = w.next svc l.env l.call

/-! ## Steps are effects -/

/-- The batch a worker has compiled is there, with the input it was compiled from. -/
def Handled (svc : Service) (s : Store) (p : Prepared) : Prop :=
  p = prepare svc p.batch ∧ ∃ b, s.business.batches.find? p.batch.id = some b ∧
    b.SameInput p.batch

theorem Handled.grows (h : Handled svc s p) (hgrows : Grows s s') :
    Handled svc s' p := by
  obtain ⟨hprepared, b, hb, hsame⟩ := h
  obtain ⟨b', hb', hsame'⟩ := hgrows.batches _ b hb
  exact ⟨hprepared, b', hb', hsame'.symm.trans hsame⟩

theorem handleCompile_handled {lease : Jobs.Lease}
    (h : handleCompile svc s.business lease = .ok p) :
    Handled svc s p := by
  unfold handleCompile at h
  split at h
  · cases h
  · next id _ =>
    split_ifs at h
    split at h
    · cases h
    · next b hb =>
      cases h
      obtain ⟨hfound, -⟩ := readBatch_ok.mp hb
      have hid : b.id = id := Table.key_of_find? hfound
      refine ⟨rfl, b, ?_, .refl b⟩
      show s.business.batches.find? b.id = some b
      rw [hid]
      exact hfound

theorem transact_effect {scope : ID} {ms : List Mutation} {t : Catalog.Tables}
    (h : transact svc.schema svc.checks scope s.business.toTables ms = .ok t) :
    Effect svc s (withTables s fun x => { x with toTables := t }) := by
  obtain ⟨hrows, hscopes⟩ := transact_follows h
  refine .other (fun k j hj => ⟨j, hj⟩) ⟨fun k x hx => ?_, hrows⟩ ⟨rfl, rfl, rfl, rfl, rfl, rfl⟩
  show ∃ x', t.scopes.find? k = some x'
  rcases hscopes with hsame | hadvanced
  · exact ⟨x, by rw [hsame]; exact hx⟩
  · by_cases hk : k = scope
    · subst hk
      rw [hadvanced, Table.find?_modify_self, hx]
      exact ⟨x.advance, rfl⟩
    · rw [hadvanced, Table.find?_modify_ne _ _ _ hk]
      exact ⟨x, hx⟩

theorem queue_effect {call : Jobs.Call Tables} {ran : Option ID}
    (hclock : env.jobs.start ≤ env.jobs.finish) (hnone : call.callback = none)
    (h : Jobs.exec svc.wire env.jobs s call = .ok (s', ran)) : Effect svc s s' := by
  have hbusiness := Jobs.exec_business hclock hnone h
  refine .other (fun k j hj => Jobs.exec_kept hclock h hj) (.of_eq ?_) ?_
  · rw [hbusiness]
  · rw [hbusiness]
    exact ⟨rfl, rfl, rfl, rfl, rfl, rfl⟩

/-- Completing a compile job: its outputs are committed, or the tables stay as they are. -/
theorem complete_effect {id : Jobs.LeaseIdentity} {ids : FreshIDs} {ran : Option ID}
    (hclock : env.jobs.start ≤ env.jobs.finish) (hp : Handled svc s p)
    (h : Jobs.exec svc.wire env.jobs s (.complete id p.result (some (commitCompile svc p ids))) =
      .ok (s', ran)) :
    Effect svc s s' := by
  have hjobs : JobsKept s s' := fun k j hj => Jobs.exec_kept hclock h hj
  obtain ⟨⟨s₁, receipt, ranHere⟩, hcomplete, heq⟩ := of_map h
  cases heq
  rcases Jobs.completeTx_business hcomplete with hsame | ⟨hwrite, henqueued⟩
  · refine .other hjobs (.of_eq ?_) ?_
    · rw [hsame]
    · rw [hsame]
      exact ⟨rfl, rfl, rfl, rfl, rfl, rfl⟩
  · exact .commit ⟨hjobs, hp.1, hp.2, hwrite, henqueued⟩

variable {w : World}

theorem exec_effects {call : Call} (hclock : env.jobs.start ≤ env.jobs.finish)
    (hallowed : call.Allowed w) (hhandled : ∀ p ∈ w.handling, Handled svc w.store p)
    (h : exec svc env w call = some w') :
    Effects svc w.store w'.store ∧
      ∀ p ∈ w'.handling, p ∈ w.handling ∨ Handled svc w.store p := by
  cases call with
  | setCoreBuilds coreBuilds =>
    cases h
    exact ⟨.single (.other (fun k j hj => ⟨j, hj⟩) (.of_eq rfl) ⟨rfl, rfl, rfl, rfl, rfl, rfl⟩),
      fun p hp => Or.inl hp⟩
  | setTokens tokens =>
    cases h
    exact ⟨.single (.other (fun k j hj => ⟨j, hj⟩) (.of_eq rfl) ⟨rfl, rfl, rfl, rfl, rfl, rfl⟩),
      fun p hp => Or.inl hp⟩
  | handle lease =>
    obtain ⟨p, hp, rfl⟩ := toOption_map_eq_some_iff.mp h
    refine ⟨.refl, fun q hq => ?_⟩
    rcases List.mem_append.mp hq with hq | hq
    · exact Or.inl hq
    · rw [List.mem_singleton.mp hq]
      exact Or.inr (handleCompile_handled hp)
  | catalog scope ms =>
    obtain ⟨t, ht, rfl⟩ := toOption_map_eq_some_iff.mp h
    exact ⟨.single (transact_effect ht), fun p hp => Or.inl hp⟩
  | compile a id expected keys =>
    obtain ⟨⟨s, batch, replay⟩, ht, rfl⟩ := toOption_map_eq_some_iff.mp h
    exact ⟨compileTx_effects ht, fun p hp => Or.inl hp⟩
  | getBatch a id =>
    obtain ⟨⟨s, batch⟩, ht, rfl⟩ := toOption_map_eq_some_iff.mp h
    exact ⟨getBatch_effects ht, fun p hp => Or.inl hp⟩
  | publish a id expected request =>
    obtain ⟨⟨s, p⟩, ht, rfl⟩ := toOption_map_eq_some_iff.mp h
    exact ⟨publishTx_effects ht, fun p hp => Or.inl hp⟩
  | rollback a id expected request =>
    obtain ⟨⟨s, p⟩, ht, rfl⟩ := toOption_map_eq_some_iff.mp h
    exact ⟨rollbackTx_effects ht, fun p hp => Or.inl hp⟩
  | reconcile scope id =>
    obtain ⟨s, ht, rfl⟩ := toOption_map_eq_some_iff.mp h
    exact ⟨reconcile_effects ht, fun p hp => Or.inl hp⟩
  | complete id p ids =>
    obtain ⟨⟨s, ran⟩, ht, rfl⟩ := toOption_map_eq_some_iff.mp h
    exact ⟨.single (complete_effect hclock (hhandled p hallowed) ht), fun p hp => Or.inl hp⟩
  | queue call =>
    obtain ⟨⟨s, ran⟩, ht, rfl⟩ := toOption_map_eq_some_iff.mp h
    exact ⟨.single (queue_effect hclock hallowed ht), fun p hp => Or.inl hp⟩

theorem step_exec (h : (subscriptions svc).step w l w') :
    w' = { w with clock := l.env.jobs.finish } ∨
      ∃ w₁, exec svc l.env w l.call = some w₁ ∧ w' = { w₁ with clock := l.env.jobs.finish } := by
  obtain ⟨-, -, -, rfl⟩ := h
  unfold World.next
  cases hexec : exec svc l.env w l.call with
  | none => exact Or.inl rfl
  | some w₁ => exact Or.inr ⟨w₁, rfl, rfl⟩

theorem step_handled (hhandled : ∀ p ∈ w.handling, Handled svc w.store p)
    (h : (subscriptions svc).step w l w') :
    Effects svc w.store w'.store ∧ ∀ p ∈ w'.handling, Handled svc w'.store p := by
  rcases step_exec h with rfl | ⟨w₁, hexec, rfl⟩
  · exact ⟨.refl, hhandled⟩
  · obtain ⟨heffects, hnew⟩ := exec_effects h.2.1 h.2.2.1 hhandled hexec
    refine ⟨heffects, fun p hp => ?_⟩
    have hold : Handled svc w.store p := (hnew p hp).elim (hhandled p) id
    exact hold.grows (effects_grow heffects)

theorem Reach.handled (h : (subscriptions svc).Reach w) :
    ∀ p ∈ w.handling, Handled svc w.store p := by
  refine h.invariant (P := fun w => ∀ p ∈ w.handling, Handled svc w.store p) ?_ ?_
  · rintro w ⟨catalog, coreBuilds, tokens, rfl⟩ p hp
    cases hp
  · intro w l w' _ hhandled hstep
    exact (step_handled hhandled hstep).2

/-- **Steps are effects.** -/
theorem step_effects (hw : (subscriptions svc).Reach w)
    (h : (subscriptions svc).step w l w') : Effects svc w.store w'.store :=
  (step_handled (Reach.handled hw) h).1

/-- **Invariants by effects.** -/
theorem Reach.store_invariant {P : Store → Prop}
    (hinit : ∀ catalog coreBuilds tokens,
      P (Jobs.Store.empty (Tables.initial catalog coreBuilds tokens)))
    (heffect : ∀ s s', P s → Effect svc s s' → P s') (h : (subscriptions svc).Reach w) :
    P w.store := by
  refine h.invariant (P := fun w => P w.store) ?_ ?_
  · rintro w ⟨catalog, coreBuilds, tokens, rfl⟩
    exact hinit catalog coreBuilds tokens
  · intro w l w' hw hP hstep
    have heffects := step_effects hw hstep
    generalize w'.store = s' at heffects ⊢
    induction heffects with
    | refl => exact hP
    | tail _ hlast ih => exact heffect _ _ ih hlast

end ProxyLoom.Subscriptions
