import ProxyLoom.Catalog.Resource
import ProxyLoom.Lib.Epoch
import ProxyLoom.Lib.Table

/-!
# Catalog transactions

A transaction locks its scope and applies its mutations in order, all or none of them. One that
writes anything advances the catalog revision of the scope once.

`transact_follows`: every row is followed by a row of the same resource, and the credentials of a
resource only change together with its security epoch.
-/

namespace ProxyLoom.Catalog

open IR Except

/-! ## Tables -/

structure Scope where
  id : ID
  catalogRevision : ℕ
  authEpoch : ℕ
deriving DecidableEq, Repr

/-- A row of `resources` with its head revision. A deleted resource is disabled. -/
structure Row where
  resource : Resource
  deleted : Bool
  disabled : deleted = true → resource.metadata.enabled = false

def Row.id (row : Row) : ID := row.resource.id

def Row.scopeID (row : Row) : ID := row.resource.metadata.scopeID

/-- The tables of the catalog. -/
structure Tables where
  scopes : Table Scope.id
  resources : Table Row.id

def Tables.row? (t : Tables) (scope id : ID) : Option Row :=
  (t.resources.find? id).filter fun row => row.scopeID = scope

/-- The head of a resource that is not deleted. -/
def Tables.head? (t : Tables) (scope id : ID) : Option Resource :=
  ((t.row? scope id).filter fun row => !row.deleted).map Row.resource

/-- The row that is written, unless it violates the constraint of the table. -/
def Row.make? (r : Resource) (deleted : Bool) : Option Row :=
  if h : deleted = true → r.metadata.enabled = false then some ⟨r, deleted, h⟩ else none

/-! ## Checks -/

/-- The limits of a workspace. -/
structure CatalogLimits where
  maxDependencyResources : ℕ
  maxTargetsPerSubscription : ℕ
  maxNodes : ℕ
  maxRules : ℕ
  maxOutbounds : ℕ
deriving DecidableEq, Repr

def limitDiagnostic (path : String) (id : ID) : List Diagnostic :=
  [⟨.inputLimitExceeded, .error, id, path, "", "The configured workspace limit was exceeded.", ""⟩]

/-- What a write reads besides the tables: the limits of the workspace, whether the members, rules
and resolvers of a payload resolve, and whether the members and presets of a subscription do. -/
structure Checks where
  limits : ID → CatalogLimits
  payload : Tables → Resource → Except CatalogError Unit
  subscription : Tables → Resource → Except CatalogError Unit

def ruleCount : Payload → ℕ
  | .ruleSet s => s.entries.length
  | .routingProfile p => p.rules.length
  | .dnsProfile p => p.rules.length
  | _ => 0

def targetCount : Payload → ℕ
  | .subscriptionProfile p => p.targets.length
  | _ => 0

def nodeCount (t : Tables) (scope : ID) : ℕ :=
  (t.resources.rows.filter fun row => row.scopeID = scope && !row.deleted &&
    row.resource.metadata.kind = .node).length

def checkOperationalLimits (limits : CatalogLimits) (t : Tables) (scope : ID) (r : Resource)
    (creating : Bool) : Except CatalogError Unit :=
  if creating && r.metadata.kind = .node && limits.maxNodes ≤ nodeCount t scope then
    .error (.diagnostics (limitDiagnostic "/node" r.id))
  else if limits.maxTargetsPerSubscription < targetCount r.payload then
    .error (.diagnostics (limitDiagnostic "/subscription/targets" r.id))
  else if limits.maxRules < ruleCount r.payload then
    .error (.diagnostics (limitDiagnostic "/payload/rules" r.id))
  else .ok ()

/-- Every reference is to a resource of its kind. -/
def checkRefs (t : Tables) (scope : ID) (refs : List Reference) : Except CatalogError Unit :=
  if refs.all fun ref => (t.row? scope ref.targetID).any fun row =>
      row.resource.metadata.kind = ref.expectedKind then .ok ()
  else .error .invalidReference

/-! ## Mutations -/

section
variable (schema : Schema) (checks : Checks) (scope : ID)

/-- Write the head of a resource. -/
def persist (t : Tables) (r : Resource) (deleted : Bool) : Except CatalogError Tables := do
  let r ← canonical schema r
  match Row.make? r deleted with
  | none => .error .unavailable
  | some row => .ok { t with resources := t.resources.upsert row }

def create (t : Tables) (id : ID) (input : Input) : Except CatalogError Tables := do
  let r ← newResource schema id scope input
  checkOperationalLimits (checks.limits scope) t scope r true
  checks.payload t r
  let refs ← extractReferences schema r
  checks.subscription t r
  checkRefs t scope refs
  if (t.resources.find? id).isSome then .error .unavailable else persist schema t r false

/-- Write the next revision, if the caller has seen the last one. -/
def change (t : Tables) (id : ID) (expected : ℕ) (deleted : Bool)
    (apply : Resource → Except CatalogError Resource) : Except CatalogError Tables :=
  if !ID.validate id || expected < 1 then .error .invalidInput
  else
    match t.head? scope id with
    | none => .error .notFound
    | some old =>
      if old.metadata.revision ≠ expected then .error .revisionConflict
      else do
        let next ← apply old
        let refs ← extractReferences schema next
        checks.subscription t next
        let _ ← extractReferences schema old
        checks.subscription t old
        checkRefs t scope refs
        persist schema t next deleted

def update (t : Tables) (id : ID) (expected : ℕ) (input : Input) : Except CatalogError Tables :=
  change schema checks scope t id expected false fun old => do
    let next ← apply schema old input
    checkOperationalLimits (checks.limits scope) t scope next false
    checks.payload t next
    pure next

def delete (t : Tables) (id : ID) (expected : ℕ) : Except CatalogError Tables :=
  change schema checks scope t id expected true fun old => invalidate schema old true

def revoke (t : Tables) (id : ID) (expected : ℕ) : Except CatalogError Tables :=
  change schema checks scope t id expected false fun old => invalidate schema old false

inductive Mutation where
  | create (id : ID) (input : Input)
  | update (id : ID) (expected : ℕ) (input : Input)
  | delete (id : ID) (expected : ℕ)
  | revoke (id : ID) (expected : ℕ)

def mutate (t : Tables) : Mutation → Except CatalogError Tables
  | .create id input => create schema checks scope t id input
  | .update id expected input => update schema checks scope t id expected input
  | .delete id expected => delete schema checks scope t id expected
  | .revoke id expected => revoke schema checks scope t id expected

def mutateAll (t : Tables) : List Mutation → Except CatalogError Tables
  | [] => .ok t
  | m :: ms => do
    let t ← mutate schema checks scope t m
    mutateAll t ms

def Scope.advance (s : Scope) : Scope := { s with catalogRevision := s.catalogRevision + 1 }

@[simp] theorem Scope.advance_id (s : Scope) : s.advance.id = s.id := rfl

def Tables.advanceCatalog (t : Tables) (scope : ID) : Tables :=
  { t with scopes := t.scopes.modify scope Scope.advance Scope.advance_id }

/-- All the mutations, or none. -/
def transact (t : Tables) (ms : List Mutation) : Except CatalogError Tables :=
  if !ID.validate scope then .error .invalidInput
  else if (t.scopes.find? scope).isNone then .error .notFound
  else do
    let t ← mutateAll schema checks scope t ms
    pure (if ms = [] then t else t.advanceCatalog scope)

end

/-! ## Credentials and epochs -/

variable {schema : Schema} {checks : Checks} {scope : ID} {t t' : Tables} {old next : Resource}
  {r : Resource} {deleted : Bool} {id : ID}

/-- What authenticates against a node: its authentication and its REALITY credentials. -/
def credentials : Payload → Option (Authentication × Option (Secret × Secret))
  | .node n => some (n.auth, realityCredentials n)
  | _ => none

/-- The credentials of a resource under its security epoch. -/
def stamp (r : Resource) : Stamped (Option (Authentication × Option (Secret × Secret))) :=
  ⟨r.metadata.securityEpoch, credentials r.payload⟩

/-- The same resource later on: its revision does not go back, and its credentials stay as long as
their epoch does. -/
structure Succeeds (next old : Resource) : Prop where
  id : next.id = old.id
  scopeID : next.metadata.scopeID = old.metadata.scopeID
  revision : old.metadata.revision ≤ next.metadata.revision
  stamp : stamp old ≤ stamp next

theorem Succeeds.refl (r : Resource) : Succeeds r r := ⟨rfl, rfl, le_rfl, le_rfl⟩

theorem Succeeds.trans {a b c : Resource} (h₁ : Succeeds b a) (h₂ : Succeeds c b) :
    Succeeds c a :=
  ⟨h₂.id.trans h₁.id, h₂.scopeID.trans h₁.scopeID, h₁.revision.trans h₂.revision,
    h₁.stamp.trans h₂.stamp⟩

theorem Succeeds.sortTags (h : Succeeds next old) : Succeeds (sortTags next) old :=
  ⟨h.id, h.scopeID, h.revision, h.stamp⟩

theorem credentials_eq_of_not_authChanged {old new : Payload} (hkind : new.kind = old.kind)
    (h : authChanged old new = false) : credentials new = credentials old := by
  unfold authChanged at h
  split at h
  · next previous current =>
    simp only [Bool.or_eq_false_iff, decide_eq_false_iff_not, not_not] at h
    simp only [credentials, h.1, h.2]
  · next hnodes =>
    cases old <;> cases new <;> first | exact (hnodes _ _ rfl rfl).elim | rfl | cases hkind

theorem apply_succeeds {input : Input} (h : apply schema old input = .ok next) :
    Succeeds next old := by
  obtain ⟨hkind, rfl⟩ := apply_ok h
  refine Succeeds.sortTags ?_
  split_ifs with hrevokes
  · exact ⟨rfl, rfl, Nat.le_succ _, Stamped.le_of_epoch_lt (Nat.lt_succ_self _)⟩
  · refine ⟨rfl, rfl, Nat.le_succ _, Stamped.le_of_secret_eq (le_refl _) ?_⟩
    unfold revokes at hrevokes
    rw [Bool.or_eq_true, not_or, Bool.not_eq_true] at hrevokes
    exact (credentials_eq_of_not_authChanged hkind hrevokes.1).symm

theorem invalidate_succeeds {disable : Bool} (h : invalidate schema old disable = .ok next) :
    Succeeds next old := by
  obtain ⟨hid, hscope, hrevision, hepoch, -⟩ := invalidate_ok h
  refine ⟨hid, hscope, by omega, Stamped.le_of_epoch_lt ?_⟩
  unfold stamp
  dsimp only
  omega

/-! ## What a transaction leaves of a row -/

/-- Every row is still there, under the same or a later revision. -/
def RowsFollow (t t' : Tables) : Prop :=
  ∀ k row, t.resources.find? k = some row →
    ∃ row', t'.resources.find? k = some row' ∧ Succeeds row'.resource row.resource

theorem RowsFollow.refl (t : Tables) : RowsFollow t t := fun _ row h => ⟨row, h, .refl _⟩

theorem RowsFollow.trans {t u v : Tables} (h₁ : RowsFollow t u) (h₂ : RowsFollow u v) :
    RowsFollow t v := by
  intro k row hrow
  obtain ⟨row₁, hrow₁, hs₁⟩ := h₁ k row hrow
  obtain ⟨row₂, hrow₂, hs₂⟩ := h₂ k row₁ hrow₁
  exact ⟨row₂, hrow₂, hs₁.trans hs₂⟩

theorem persist_ok (h : persist schema t r deleted = .ok t') :
    ∃ row, row.resource = sortTags r ∧ row.deleted = deleted ∧
      t' = { t with resources := t.resources.upsert row } := by
  unfold persist at h
  obtain ⟨r', hr', h⟩ := of_bind h
  split at h
  · cases h
  · next row hrow =>
    cases h
    unfold Row.make? at hrow
    split_ifs at hrow
    cases hrow
    exact ⟨_, (canonical_eq_ok hr').1, rfl, rfl⟩

theorem persist_follows (h : persist schema t r deleted = .ok t')
    (hr : ∀ row, t.resources.find? r.id = some row → Succeeds r row.resource) :
    RowsFollow t t' ∧ t'.scopes = t.scopes := by
  obtain ⟨new, hnew, -, rfl⟩ := persist_ok h
  refine ⟨fun k row hrow => ?_, rfl⟩
  have hid : new.id = r.id := by
    unfold Row.id
    rw [hnew]
    rfl
  dsimp only
  rw [Table.find?_upsert, hid]
  by_cases hk : k = r.id
  · subst hk
    rw [if_pos rfl]
    refine ⟨new, rfl, ?_⟩
    rw [hnew]
    exact (hr row hrow).sortTags
  · rw [if_neg hk]
    exact ⟨row, hrow, .refl _⟩

theorem head?_eq_some (h : t.head? scope id = some r) :
    ∃ row, t.resources.find? id = some row ∧ row.scopeID = scope ∧ row.deleted = false ∧
      row.resource = r := by
  unfold Tables.head? Tables.row? at h
  obtain ⟨row, hrow, rfl⟩ := Option.map_eq_some_iff.mp h
  obtain ⟨hrow, hdeleted⟩ := Option.filter_eq_some_iff.mp hrow
  obtain ⟨hrow, hscope⟩ := Option.filter_eq_some_iff.mp hrow
  exact ⟨row, hrow, by simpa using hscope, by simpa using hdeleted, rfl⟩

theorem change_follows {expected : ℕ}
    {apply : Resource → Except CatalogError Resource}
    (happly : ∀ old next, apply old = .ok next → Succeeds next old)
    (h : change schema checks scope t id expected deleted apply = .ok t') :
    RowsFollow t t' ∧ t'.scopes = t.scopes := by
  unfold change at h
  split_ifs at h
  split at h
  · cases h
  · next old hold =>
    obtain ⟨row, hrow, -, -, rfl⟩ := head?_eq_some hold
    split_ifs at h
    obtain ⟨next, hnext, h⟩ := of_bind h
    obtain ⟨refs, -, h⟩ := of_bind h
    obtain ⟨_, -, h⟩ := of_bind h
    obtain ⟨_, -, h⟩ := of_bind h
    obtain ⟨_, -, h⟩ := of_bind h
    obtain ⟨_, -, h⟩ := of_bind h
    have hsucceeds := happly _ _ hnext
    refine persist_follows h fun row' hrow' => ?_
    have hkey : row.id = id := Table.key_of_find? hrow
    have hid : next.id = id := hsucceeds.id.trans hkey
    rw [hid, hrow] at hrow'
    cases hrow'
    exact hsucceeds

theorem create_follows {input : Input}
    (h : create schema checks scope t id input = .ok t') :
    RowsFollow t t' ∧ t'.scopes = t.scopes := by
  unfold create at h
  obtain ⟨r, hr, h⟩ := of_bind h
  obtain ⟨_, -, h⟩ := of_bind h
  obtain ⟨_, -, h⟩ := of_bind h
  obtain ⟨refs, -, h⟩ := of_bind h
  obtain ⟨_, -, h⟩ := of_bind h
  obtain ⟨_, -, h⟩ := of_bind h
  split_ifs at h with htaken
  -- the ID is not taken, so there is no row to follow
  refine persist_follows h fun row hrow => ?_
  unfold newResource at hr
  split_ifs at hr
  rw [(canonical_eq_ok hr).1] at hrow
  exact absurd (Option.isSome_iff_exists.mpr ⟨row, hrow⟩) htaken

theorem mutate_follows {m : Mutation} (h : mutate schema checks scope t m = .ok t') :
    RowsFollow t t' ∧ t'.scopes = t.scopes := by
  cases m with
  | create id input => exact create_follows h
  | update id expected input =>
    refine change_follows (fun old next happly => ?_) h
    obtain ⟨next', hnext', happly⟩ := of_bind happly
    obtain ⟨_, -, happly⟩ := of_bind happly
    obtain ⟨_, -, happly⟩ := of_bind happly
    cases happly
    exact apply_succeeds hnext'
  | delete id expected => exact change_follows (fun _ _ => invalidate_succeeds) h
  | revoke id expected => exact change_follows (fun _ _ => invalidate_succeeds) h

theorem mutateAll_follows {ms : List Mutation} :
    ∀ {t : Tables}, mutateAll schema checks scope t ms = .ok t' →
      RowsFollow t t' ∧ t'.scopes = t.scopes := by
  induction ms with
  | nil =>
    intro t h
    cases h
    exact ⟨.refl _, rfl⟩
  | cons m ms ih =>
    intro t h
    obtain ⟨t₁, hone, h⟩ := of_bind h
    obtain ⟨hrows₁, hscopes₁⟩ := mutate_follows hone
    obtain ⟨hrows, hscopes⟩ := ih h
    exact ⟨hrows₁.trans hrows, hscopes.trans hscopes₁⟩

/-- **Catalog transactions.** Every row is followed by one of the same resource, under a later epoch
or with the same credentials, and only the catalog revision of a scope moves. -/
theorem transact_follows {ms : List Mutation} (h : transact schema checks scope t ms = .ok t') :
    RowsFollow t t' ∧ (t'.scopes = t.scopes ∨
      t'.scopes = t.scopes.modify scope Scope.advance Scope.advance_id) := by
  unfold transact at h
  split_ifs at h <;> obtain ⟨t₁, hall, h⟩ := of_bind h <;>
    obtain ⟨hrows, hscopes⟩ := mutateAll_follows hall <;> cases h
  · exact ⟨hrows, Or.inl hscopes⟩
  · refine ⟨hrows, Or.inr ?_⟩
    unfold Tables.advanceCatalog
    rw [hscopes]

end ProxyLoom.Catalog
