import ProxyLoom.Catalog.Transaction
import ProxyLoom.Lib.Latch
import ProxyLoom.Lib.Machine

/-!
# Idempotent execution

A request with a key is executed in one transaction: claim the key, run the business callback
through a handle that latches failed writes, close the handle, record the receipt, commit. Whatever
fails, the transaction is rolled back. The business state and its writes are parameters: the catalog
is one instance.
-/

namespace ProxyLoom.Storage

open IR Catalog Except

/-! ## Requests and receipts -/

/-- What an operation on the store fails with. The last case holds the other errors that are passed
on by name. -/
inductive StoreError where
  | catalog (e : CatalogError)
  | transactionClosed
  | other (name : String)
deriving DecidableEq

/-- Who asks for what, under which key. -/
structure IdempotencyRequest where
  scopeID : ID
  principalID : ID
  routeKey : String
  key : String
  canonicalRequest : List UInt8
deriving DecidableEq

/-- Printable ASCII without blanks. -/
def safeIdempotencyToken (value : String) : Bool :=
  1 ≤ value.length && value.length ≤ 128 &&
    value.toList.all fun c => 0x21 ≤ c.toNat && c.toNat ≤ 0x7e

def IdempotencyRequest.validate (r : IdempotencyRequest) : Bool :=
  ID.validate r.scopeID && ID.validate r.principalID && safeIdempotencyToken r.routeKey &&
    safeIdempotencyToken r.key && 0 < r.canonicalRequest.length &&
    r.canonicalRequest.length ≤ 2 ^ 20

structure Frame where
  scope : ID
  principal : ID
  route : String
  request : List UInt8
deriving DecidableEq

def IdempotencyRequest.frame (r : IdempotencyRequest) : Frame :=
  ⟨r.scopeID, r.principalID, r.routeKey, r.canonicalRequest⟩

/-- The primary key of `idempotency_keys`. -/
abbrev Slot := ID × String × String

def IdempotencyRequest.slot (r : IdempotencyRequest) : Slot := (r.principalID, r.routeKey, r.key)

theorem frame_eq_iff {a b : IdempotencyRequest} (hslot : b.slot = a.slot) :
    b.frame = a.frame ↔ b.scopeID = a.scopeID ∧ b.canonicalRequest = a.canonicalRequest := by
  simp only [IdempotencyRequest.slot, Prod.mk.injEq] at hslot
  simp [IdempotencyRequest.frame, hslot.1, hslot.2.1]

theorem request_eq {a b : IdempotencyRequest} (hslot : b.slot = a.slot)
    (h : b.scopeID = a.scopeID ∧ b.canonicalRequest = a.canonicalRequest) : b = a := by
  simp only [IdempotencyRequest.slot, Prod.mk.injEq] at hslot
  cases a
  cases b
  simp_all

/-- `unknown` is any other text, the empty one included. -/
inductive ReceiptStatus where
  | created | updated | deleted | revoked | accepted | unknown
deriving DecidableEq

/-- What is answered, now and on every repetition. -/
structure Receipt where
  httpStatus : ℤ
  resourceID : ID
  revision : ℤ
  operationID : ID
  status : ReceiptStatus
deriving DecidableEq

def Receipt.statusOk (r : Receipt) : Bool :=
  match r.status with
  | .created => r.httpStatus = 201
  | .updated | .deleted | .revoked => r.httpStatus = 200 || r.httpStatus = 204
  | .accepted => r.httpStatus = 202 && r.operationID ≠ ""
  | .unknown => false

def Receipt.validate (r : Receipt) : Bool :=
  (r.resourceID = "" || ID.validate r.resourceID) &&
    (r.operationID = "" || ID.validate r.operationID) && 0 ≤ r.revision && r.statusOk &&
    (r.status = .accepted || (r.resourceID ≠ "" && 1 ≤ r.revision)) &&
    (decide (r.resourceID = "") == decide (r.revision = 0))

/-- The receipt columns: an empty ID is null, and so is the revision of no resource. -/
structure StoredReceipt where
  httpStatus : ℤ
  resource : Option (ID × ℤ)
  operationID : Option ID
  status : ReceiptStatus
deriving DecidableEq

def Receipt.store (r : Receipt) : StoredReceipt where
  httpStatus := r.httpStatus
  resource := if r.resourceID = "" then none else some (r.resourceID, r.revision)
  operationID := if r.operationID = "" then none else some r.operationID
  status := r.status

/-- Null columns read as zero values. -/
def StoredReceipt.read (s : StoredReceipt) : Receipt where
  httpStatus := s.httpStatus
  resourceID := (s.resource.map Prod.fst).getD ""
  revision := (s.resource.map Prod.snd).getD 0
  operationID := s.operationID.getD ""
  status := s.status

theorem Receipt.read_store {r : Receipt} (h : r.validate = true) : r.store.read = r := by
  have hrevision : r.resourceID = "" → r.revision = 0 := by
    intro hid
    unfold Receipt.validate at h
    simp only [Bool.and_eq_true, beq_iff_eq, decide_eq_decide] at h
    exact h.2.mp hid
  obtain ⟨http, resource, revision, operation, status⟩ := r
  unfold Receipt.store StoredReceipt.read
  by_cases hresource : resource = ""
  · by_cases hoperation : operation = "" <;> simp_all
  · by_cases hoperation : operation = "" <;> simp_all

/-- A row of `idempotency_keys`. The receipt is missing only inside the transaction that claims the
key. -/
structure KeyRow (δ : Type) where
  slot : Slot
  scopeID : ID
  requestHMAC : δ
  receipt : Option StoredReceipt

def KeyRow.finalize {δ : Type} (receipt : StoredReceipt) (row : KeyRow δ) : KeyRow δ :=
  { row with receipt := some receipt }

theorem KeyRow.finalize_slot {δ : Type} (receipt : StoredReceipt) (row : KeyRow δ) :
    (row.finalize receipt).slot = row.slot := rfl

def KeyRow.read {δ : Type} (row : KeyRow δ) : Receipt :=
  (row.receipt.map StoredReceipt.read).getD ⟨0, "", 0, "", .unknown⟩

structure IdempotencyResult where
  receipt : Receipt
  replayed : Bool
deriving DecidableEq

/-! ## One invocation -/

/-- What a store provides: the keyed digest of a request, its writes, and the scopes and resource
revisions that the tables refer to. No write removes a scope. -/
structure Service (σ ι ρ δ : Type) where
  digest : Frame → δ
  exec : ID → ι → σ → Except StoreError (σ × ρ)
  scopeExists : σ → ID → Bool
  hasRevision : σ → ID → ID → ℤ → Bool
  advanceCatalog : σ → ID → σ
  exec_scope : ∀ scope op s s' r, exec scope op s = .ok (s', r) →
    ∀ id, scopeExists s id = true → scopeExists s' id = true
  advance_scope : ∀ s scope id, scopeExists s id = true →
    scopeExists (advanceCatalog s scope) id = true

structure Database (σ δ : Type) where
  business : σ
  keys : Table (KeyRow.slot (δ := δ))

variable {σ ι ρ δ : Type}

/-- An invocation: the request, the callback, and the writes that a handle which escaped from the
callback is used for after it returned. -/
structure Invocation (ι ρ : Type) where
  request : IdempotencyRequest
  fn : Latch.Callback ι StoreError ρ (Except StoreError Receipt)
  escaped : List ι

/-- The handle after the callback returned and was shut out. -/
def callback (svc : Service σ ι ρ δ) (s : σ) (inv : Invocation ι ρ) :
    Latch.Tx σ StoreError × List (Except StoreError ρ) × Except StoreError Receipt :=
  let run := inv.fn.run .transactionClosed (svc.exec inv.request.scopeID) (Latch.Tx.start s)
  (Latch.late .transactionClosed (svc.exec inv.request.scopeID) inv.escaped run.1.close, run.2)

def referenceOk (svc : Service σ ι ρ δ) (s : σ) (scope : ID) (receipt : Receipt) : Bool :=
  receipt.store.resource.all fun r => svc.hasRevision s scope r.1 r.2

/-- Record the receipt in the row that was claimed, and commit. -/
def finalize (svc : Service σ ι ρ δ) (keys : Table (KeyRow.slot (δ := δ)))
    (request : IdempotencyRequest) (t : Latch.Tx σ StoreError) (receipt : Receipt) :
    Except StoreError (Database σ δ × IdempotencyResult) :=
  match t.failed with
  | some e => .error e
  | none =>
    if !receipt.validate then .error (.catalog .invalidInput)
    else if !referenceOk svc t.state request.scopeID receipt then
      .error (.catalog .invalidReference)
    else
      .ok (⟨if t.dirty then svc.advanceCatalog t.state request.scopeID else t.state,
        keys.modify request.slot (KeyRow.finalize receipt.store)
          (KeyRow.finalize_slot receipt.store)⟩, ⟨receipt, false⟩)

def claim (svc : Service σ ι ρ δ) (request : IdempotencyRequest) : KeyRow δ :=
  ⟨request.slot, request.scopeID, svc.digest request.frame, none⟩

@[simp] theorem claim_slot (svc : Service σ ι ρ δ) (request : IdempotencyRequest) :
    (claim svc request).slot = request.slot := rfl

section

variable {svc : Service σ ι ρ δ} {db db' : Database σ δ} {inv : Invocation ι ρ}
  {result : IdempotencyResult}

theorem exists_claim (h : db.keys.find? inv.request.slot = none) :
    ∃ keys, db.keys.insert? (claim svc inv.request) = some keys := by
  cases hinsert : db.keys.insert? (claim svc inv.request) with
  | none => exact absurd h (Table.find?_of_insert?_eq_none hinsert)
  | some keys => exact ⟨keys, rfl⟩

theorem insert_claimed {row : KeyRow δ} (h : db.keys.find? inv.request.slot = some row) :
    db.keys.insert? (claim svc inv.request) = none := by
  cases hinsert : db.keys.insert? (claim svc inv.request) with
  | none => rfl
  | some keys =>
    have hnone : db.keys.find? inv.request.slot = none := (Table.insert?_eq_some_iff.mp hinsert).1
    rw [hnone] at h
    cases h

theorem callback_fst : (callback svc db.business inv).1 =
    (inv.fn.run .transactionClosed (svc.exec inv.request.scopeID)
      (Latch.Tx.start db.business)).1.close :=
  Latch.late_of_closed rfl inv.escaped

theorem callback_scopes {id : ID} (h : svc.scopeExists db.business id = true) :
    svc.scopeExists (callback svc db.business inv).1.state id = true := by
  rw [callback_fst]
  exact Latch.run_invariant (P := fun s => svc.scopeExists s id = true)
    (fun op s s' r hexec hs => svc.exec_scope _ op s s' r hexec id hs) inv.fn h

theorem finalize_ok {keys : Table (KeyRow.slot (δ := δ))} {t : Latch.Tx σ StoreError}
    {receipt : Receipt} (h : finalize svc keys inv.request t receipt = .ok (db', result)) :
    t.failed = none ∧ receipt.validate = true ∧ result = ⟨receipt, false⟩ ∧
      db' = ⟨if t.dirty then svc.advanceCatalog t.state inv.request.scopeID else t.state,
        keys.modify inv.request.slot (KeyRow.finalize receipt.store)
          (KeyRow.finalize_slot receipt.store)⟩ := by
  unfold finalize at h
  split at h
  · cases h
  · next hfailed =>
    rw [ite_error_eq_ok_iff, ite_error_eq_ok_iff] at h
    obtain ⟨hvalid, -, h⟩ := h
    obtain ⟨rfl, rfl⟩ := Prod.mk.inj (Except.ok.inj h)
    exact ⟨hfailed, by simpa using hvalid, rfl, rfl⟩

/-- What a committed invocation leaves: its own row, every other row, and every scope. -/
structure Commits (svc : Service σ ι ρ δ) (db : Database σ δ) (inv : Invocation ι ρ)
    (receipt : Receipt) (db' : Database σ δ) : Prop where
  valid : receipt.validate = true
  unclaimed : db.keys.find? inv.request.slot = none
  own : db'.keys.find? inv.request.slot =
    some ⟨inv.request.slot, inv.request.scopeID, svc.digest inv.request.frame, some receipt.store⟩
  others : ∀ slot, slot ≠ inv.request.slot → db'.keys.find? slot = db.keys.find? slot
  scopes : ∀ id, svc.scopeExists db.business id = true → svc.scopeExists db'.business id = true
  clean : (callback svc db.business inv).1.failed = none
  returned : (callback svc db.business inv).2.2 = .ok receipt

structure Kept (svc : Service σ ι ρ δ) (db db' : Database σ δ) : Prop where
  keys : ∀ slot row, db.keys.find? slot = some row → db'.keys.find? slot = some row
  scopes : ∀ id, svc.scopeExists db.business id = true → svc.scopeExists db'.business id = true

theorem Kept.refl (db : Database σ δ) : Kept svc db db := ⟨fun _ _ h => h, fun _ h => h⟩

theorem Kept.trans {db₁ db₂ db₃ : Database σ δ} (h₁ : Kept svc db₁ db₂) (h₂ : Kept svc db₂ db₃) :
    Kept svc db₁ db₃ :=
  ⟨fun slot row h => h₂.keys slot row (h₁.keys slot row h),
    fun id h => h₂.scopes id (h₁.scopes id h)⟩

theorem Commits.kept {receipt : Receipt} (h : Commits svc db inv receipt db') :
    Kept svc db db' := by
  refine ⟨fun slot row hfind => ?_, h.scopes⟩
  have hne : slot ≠ inv.request.slot := by
    rintro rfl
    rw [h.unclaimed] at hfind
    cases hfind
  rw [h.others slot hne, hfind]

end

variable [DecidableEq δ]

/-- The key is taken: give back the receipt if the request is the same. -/
def replay (svc : Service σ ι ρ δ) (db : Database σ δ) (request : IdempotencyRequest) :
    Except StoreError IdempotencyResult :=
  match db.keys.find? request.slot with
  | none => .error (.catalog .notFound)
  | some row =>
    if row.scopeID ≠ request.scopeID ∨ row.requestHMAC ≠ svc.digest request.frame then
      .error (.catalog .idempotencyConflict)
    else if !row.read.validate then .error (.catalog .unavailable)
    else .ok ⟨row.read, true⟩

/-- The transaction of one invocation. -/
def executeTx (svc : Service σ ι ρ δ) (db : Database σ δ) (inv : Invocation ι ρ) :
    Except StoreError (Database σ δ × IdempotencyResult) :=
  if !inv.request.validate then .error (.catalog .invalidInput)
  else if !svc.scopeExists db.business inv.request.scopeID then .error (.catalog .notFound)
  else
    match db.keys.insert? (claim svc inv.request) with
    | none => do
      let result ← replay svc db inv.request
      pure (db, result)
    | some keys => do
      let run := callback svc db.business inv
      let receipt ← run.2.2
      finalize svc keys inv.request run.1 receipt

/-- What fails leaves the database. -/
def executeIdempotent (svc : Service σ ι ρ δ) (db : Database σ δ) (inv : Invocation ι ρ) :
    Database σ δ × Except StoreError IdempotencyResult :=
  match executeTx svc db inv with
  | .error e => (db, .error e)
  | .ok (db', result) => (db', .ok result)

/-! ## What an invocation does -/

section

variable {svc : Service σ ι ρ δ} {db db' : Database σ δ} {inv : Invocation ι ρ}
  {result : IdempotencyResult}

/-- **A failure leaves the database as it was**: no business write and no claim. -/
theorem execute_error {e : StoreError} (h : (executeIdempotent svc db inv).2 = .error e) :
    (executeIdempotent svc db inv).1 = db := by
  unfold executeIdempotent at h ⊢
  split at h
  · rfl
  · cases h

theorem execute_ok : (executeIdempotent svc db inv).2 = .ok result ↔
    executeTx svc db inv = .ok ((executeIdempotent svc db inv).1, result) := by
  unfold executeIdempotent
  cases executeTx svc db inv with
  | error e => simp
  | ok r => simp [Prod.ext_iff]

theorem execute_missing (hvalid : inv.request.validate = true)
    (hscope : svc.scopeExists db.business inv.request.scopeID = false) :
    (executeIdempotent svc db inv).2 = .error (.catalog .notFound) := by
  unfold executeIdempotent executeTx
  simp only [hvalid, hscope, Bool.not_true, Bool.false_eq_true, if_false, Bool.not_false, if_true]

/-- **While the key is unclaimed, the callback runs.** -/
theorem execute_unclaimed {keys : Table (KeyRow.slot (δ := δ))}
    (hvalid : inv.request.validate = true)
    (hscope : svc.scopeExists db.business inv.request.scopeID = true)
    (h : db.keys.insert? (claim svc inv.request) = some keys) :
    executeTx svc db inv = (callback svc db.business inv).2.2 >>=
      finalize svc keys inv.request (callback svc db.business inv).1 := by
  unfold executeTx
  simp only [hvalid, hscope, h, Bool.not_true, Bool.false_eq_true, if_false]

theorem execute_claimed {row : KeyRow δ} (hvalid : inv.request.validate = true)
    (hscope : svc.scopeExists db.business inv.request.scopeID = true)
    (h : db.keys.find? inv.request.slot = some row) :
    executeTx svc db inv = (replay svc db inv.request).map fun result => (db, result) := by
  unfold executeTx
  rw [insert_claimed h]
  simp only [hvalid, hscope, Bool.not_true, Bool.false_eq_true, if_false]
  cases replay svc db inv.request <;> rfl

theorem executeTx_guards (h : executeTx svc db inv = .ok (db', result)) :
    inv.request.validate = true ∧ svc.scopeExists db.business inv.request.scopeID = true := by
  unfold executeTx at h
  rw [ite_error_eq_ok_iff, ite_error_eq_ok_iff] at h
  simpa using And.intro h.1 h.2.1

theorem executeTx_cases (h : executeTx svc db inv = .ok (db', result)) :
    (db' = db ∧ replay svc db inv.request = .ok result) ∨
      ∃ receipt, result = ⟨receipt, false⟩ ∧ Commits svc db inv receipt db' := by
  obtain ⟨hvalid, hscope⟩ := executeTx_guards h
  cases hfind : db.keys.find? inv.request.slot with
  | some row =>
    rw [execute_claimed hvalid hscope hfind, map_eq_ok_iff] at h
    obtain ⟨result', hreplay, heq⟩ := h
    obtain ⟨rfl, rfl⟩ := Prod.mk.inj heq
    exact .inl ⟨rfl, hreplay⟩
  | none =>
    obtain ⟨keys, hkeys⟩ : ∃ keys, db.keys.insert? (claim svc inv.request) = some keys :=
      exists_claim hfind
    rw [execute_unclaimed hvalid hscope hkeys] at h
    obtain ⟨receipt, hreturned, h⟩ := of_bind h
    obtain ⟨hclean, hreceipt, rfl, rfl⟩ := finalize_ok h
    have hlookup := Table.find?_insert? hkeys
    refine .inr ⟨receipt, rfl, hreceipt, hfind, ?_, ?_, ?_, hclean, hreturned⟩
    · dsimp only
      rw [Table.find?_modify, if_pos rfl, hlookup, claim_slot, if_pos rfl]
      rfl
    · intro slot hslot
      dsimp only
      rw [Table.find?_modify, if_neg hslot, hlookup, claim_slot, if_neg hslot]
    · intro id hid
      dsimp only
      split_ifs
      · exact svc.advance_scope _ _ _ (callback_scopes hid)
      · exact callback_scopes hid

theorem replay_replayed {request : IdempotencyRequest} (h : replay svc db request = .ok result) :
    result.replayed = true := by
  unfold replay at h
  split at h
  · cases h
  · rw [ite_error_eq_ok_iff, ite_error_eq_ok_iff] at h
    cases h.2.2
    rfl

end

/-! ## Runs -/

/-- What happens to the store: an invocation, or other writes, which leave the keys alone. -/
inductive Label (σ ι ρ : Type) where
  | invoke (inv : Invocation ι ρ)
  | write (business : σ)

/-- The store from the time when no key was claimed. Transactions are atomic. -/
def store (svc : Service σ ι ρ δ) : Machine (Database σ δ) (Label σ ι ρ) where
  init db := db.keys = Table.empty
  step db label db' :=
    match label with
    | .invoke inv => db' = (executeIdempotent svc db inv).1
    | .write business =>
      (∀ id, svc.scopeExists db.business id = true → svc.scopeExists business id = true) ∧
        db' = { db with business }

section

variable {svc : Service σ ι ρ δ} {db db' : Database σ δ} {a b inv : Invocation ι ρ}
  {result : IdempotencyResult} {receipt : Receipt}

theorem execute_cases (svc : Service σ ι ρ δ) (db : Database σ δ) (inv : Invocation ι ρ) :
    (executeIdempotent svc db inv).1 = db ∨
      ∃ receipt, Commits svc db inv receipt (executeIdempotent svc db inv).1 := by
  cases hresult : (executeIdempotent svc db inv).2 with
  | error e => exact .inl (execute_error hresult)
  | ok result =>
    obtain ⟨hdb, -⟩ | ⟨receipt, -, hcommits⟩ := executeTx_cases (execute_ok.mp hresult)
    · exact .inl hdb
    · exact .inr ⟨receipt, hcommits⟩

theorem execute_commits (h : (executeIdempotent svc db inv).2 = .ok ⟨receipt, false⟩) :
    Commits svc db inv receipt (executeIdempotent svc db inv).1 := by
  obtain ⟨-, hreplay⟩ | ⟨receipt', heq, hcommits⟩ := executeTx_cases (execute_ok.mp h)
  · cases replay_replayed hreplay
  · cases heq
    exact hcommits

theorem step_kept {label : Label σ ι ρ} (h : (store svc).step db label db') : Kept svc db db' := by
  cases label with
  | invoke inv =>
    subst h
    obtain hsame | ⟨receipt, hcommits⟩ := execute_cases svc db inv
    · rw [hsame]
      exact Kept.refl db
    · exact hcommits.kept
  | write business =>
    obtain ⟨hscopes, rfl⟩ := h
    exact ⟨fun _ _ hfind => hfind, hscopes⟩

theorem Run.kept (h : (store svc).Run db db') : Kept svc db db' := by
  induction h with
  | refl => exact Kept.refl _
  | step _ hstep ih => exact ih.trans (step_kept hstep)

theorem replay_row {request : IdempotencyRequest}
    (hfind : db.keys.find? request.slot = some ⟨request.slot, a.request.scopeID,
      svc.digest a.request.frame, some receipt.store⟩) (hvalid : receipt.validate = true) :
    replay svc db request =
      if request.scopeID = a.request.scopeID ∧ svc.digest request.frame = svc.digest a.request.frame
      then .ok ⟨receipt, true⟩ else .error (.catalog .idempotencyConflict) := by
  have hread : (KeyRow.mk request.slot a.request.scopeID (svc.digest a.request.frame)
      (some receipt.store)).read = receipt := Receipt.read_store hvalid
  unfold replay
  rw [hfind]
  dsimp only
  rw [hread, hvalid]
  by_cases hsame : request.scopeID = a.request.scopeID ∧
      svc.digest request.frame = svc.digest a.request.frame
  · rw [if_pos hsame, if_neg (by simp [hsame.1, hsame.2])]
    rfl
  · rw [if_neg hsame, if_pos (by
      by_contra hboth
      push Not at hboth
      exact hsame ⟨hboth.1.symm, hboth.2.symm⟩)]

theorem execute_after (hkey : db.keys.find? a.request.slot = some ⟨a.request.slot,
      a.request.scopeID, svc.digest a.request.frame, some receipt.store⟩)
    (hvalid : receipt.validate = true) (hslot : b.request.slot = a.request.slot) :
    (executeIdempotent svc db b).1 = db ∧
      (b.request.validate = true → svc.scopeExists db.business b.request.scopeID = true →
        (executeIdempotent svc db b).2 = if b.request.scopeID = a.request.scopeID ∧
            svc.digest b.request.frame = svc.digest a.request.frame
          then .ok ⟨receipt, true⟩ else .error (.catalog .idempotencyConflict)) := by
  rw [← hslot] at hkey
  constructor
  · obtain hsame | ⟨receipt', hcommits⟩ := execute_cases svc db b
    · exact hsame
    · rw [hcommits.unclaimed] at hkey
      cases hkey
  · intro hrequest hscope
    unfold executeIdempotent
    rw [execute_claimed hrequest hscope hkey, replay_row hkey hvalid]
    split_ifs <;> rfl

/-- A callback that returns an error, has a write that failed, or returns an invalid receipt makes
its invocation fail. -/
theorem execute_fails (hunclaimed : db.keys.find? inv.request.slot = none)
    (h : (∃ e, (callback svc db.business inv).2.2 = .error e) ∨
      (∃ e, .error e ∈ (callback svc db.business inv).2.1) ∨
      ∃ receipt, (callback svc db.business inv).2.2 = .ok receipt ∧ receipt.validate = false) :
    ∃ e, (executeIdempotent svc db inv).2 = .error e := by
  cases hresult : (executeIdempotent svc db inv).2 with
  | error e => exact ⟨e, rfl⟩
  | ok result =>
    exfalso
    obtain ⟨-, hreplay⟩ | ⟨receipt, -, hcommits⟩ := executeTx_cases (execute_ok.mp hresult)
    · unfold replay at hreplay
      rw [hunclaimed] at hreplay
      cases hreplay
    · obtain ⟨e, he⟩ | ⟨e, he⟩ | ⟨receipt', hreturned, hinvalid⟩ := h
      · rw [hcommits.returned] at he
        cases he
      · have hclean := hcommits.clean
        rw [callback_fst] at hclean
        exact Latch.run_latches inv.fn rfl he hclean
      · rw [hcommits.returned] at hreturned
        cases hreturned
        rw [hcommits.valid] at hinvalid
        cases hinvalid

end

/-- **Exactly once.** After an invocation committed, no other one for its key ever commits: the same
scope and request get the same receipt back, another scope or request is refused unless the two
requests collide under the digest, and neither writes anything. An invocation that fails leaves the
database, and with it the key, as it was; one for a scope that does not exist is not found; while
the key is unclaimed, an invocation runs its callback, and fails if the callback fails, swallows a
failed write or returns an invalid receipt. -/
theorem exactly_once (svc : Service σ ι ρ δ) :
    (∀ db a receipt, (executeIdempotent svc db a).2 = .ok ⟨receipt, false⟩ →
      ∀ later, (store svc).Run (executeIdempotent svc db a).1 later →
      ∀ b, b.request.slot = a.request.slot →
        (executeIdempotent svc later b).1 = later ∧
        (b.request.scopeID = a.request.scopeID ∧
            b.request.canonicalRequest = a.request.canonicalRequest →
          (executeIdempotent svc later b).2 = .ok ⟨receipt, true⟩) ∧
        (b.request.validate = true → svc.scopeExists later.business b.request.scopeID = true →
          ¬(b.request.scopeID = a.request.scopeID ∧
            b.request.canonicalRequest = a.request.canonicalRequest) →
          (svc.digest b.request.frame = svc.digest a.request.frame →
            b.request.frame = a.request.frame) →
          (executeIdempotent svc later b).2 = .error (.catalog .idempotencyConflict))) ∧
    (∀ db b e, (executeIdempotent svc db b).2 = .error e → (executeIdempotent svc db b).1 = db) ∧
    (∀ db b, b.request.validate = true → svc.scopeExists db.business b.request.scopeID = false →
      (executeIdempotent svc db b).2 = .error (.catalog .notFound)) ∧
    (∀ db b, db.keys.find? b.request.slot = none →
      ((∃ e, (callback svc db.business b).2.2 = .error e) ∨
        (∃ e, .error e ∈ (callback svc db.business b).2.1) ∨
        (∃ receipt, (callback svc db.business b).2.2 = .ok receipt ∧ receipt.validate = false) →
          ∃ e, (executeIdempotent svc db b).2 = .error e) ∧
      (b.request.validate = true → svc.scopeExists db.business b.request.scopeID = true →
        ∃ keys, db.keys.insert? (claim svc b.request) = some keys ∧
          executeTx svc db b = (callback svc db.business b).2.2 >>=
            finalize svc keys b.request (callback svc db.business b).1)) := by
  refine ⟨?_, fun db b e h => execute_error h, fun db b => execute_missing, ?_⟩
  · intro db a receipt hcommitted later hrun b hslot
    obtain ⟨hvalid, hscope⟩ := executeTx_guards (execute_ok.mp hcommitted)
    have hcommits := execute_commits hcommitted
    have hkept := Run.kept hrun
    have hkey := hkept.keys _ _ hcommits.own
    obtain ⟨hsame, hanswer⟩ := execute_after hkey hcommits.valid hslot
    refine ⟨hsame, fun hrequest => ?_, fun hb hbscope hdiffer hapart => ?_⟩
    · have hframe := (frame_eq_iff hslot).mpr hrequest
      have hbvalid : b.request.validate = true := by
        rw [request_eq hslot hrequest]
        exact hvalid
      have hbscope : svc.scopeExists later.business b.request.scopeID = true := by
        rw [hrequest.1]
        exact hkept.scopes _ (hcommits.scopes _ hscope)
      rw [hanswer hbvalid hbscope, if_pos ⟨hrequest.1, by rw [hframe]⟩]
    · rw [hanswer hb hbscope, if_neg]
      rintro ⟨-, hequal⟩
      exact hdiffer ((frame_eq_iff hslot).mp (hapart hequal))
  · intro db b hunclaimed
    refine ⟨fun h => execute_fails hunclaimed h, fun hvalid hscope => ?_⟩
    obtain ⟨keys, hkeys⟩ : ∃ keys, db.keys.insert? (claim svc b.request) = some keys :=
      exists_claim hunclaimed
    exact ⟨keys, hkeys, execute_unclaimed hvalid hscope hkeys⟩

/-! ## The catalog -/

def mutationID : Mutation → ID
  | .create id _ | .update id _ _ | .delete id _ | .revoke id _ => id

/-- A write through the handle, with the resource it leaves. -/
def catalogExec (schema : Schema) (checks : Checks) (scope : ID) (m : Mutation) (t : Tables) :
    Except StoreError (Tables × Resource) :=
  match mutate schema checks scope t m with
  | .error e => .error (.catalog e)
  | .ok t' =>
    match t'.row? scope (mutationID m) with
    | none => .error (.catalog .unavailable)
    | some row => .ok (t', row.resource)

/-- The catalog behind the store. -/
def catalogService (schema : Schema) (checks : Checks) (digest : Frame → δ) :
    Service Tables Mutation Resource δ where
  digest := digest
  exec := catalogExec schema checks
  scopeExists t id := (t.scopes.find? id).isSome
  hasRevision t scope id revision :=
    (t.row? scope id).any fun row => 1 ≤ revision ∧ revision ≤ row.resource.metadata.revision
  advanceCatalog t scope := t.advanceCatalog scope
  exec_scope scope op s s' r h id hid := by
    unfold catalogExec at h
    split at h
    · cases h
    · next hmutate =>
      split at h
      · cases h
      · cases h
        rwa [(mutate_follows hmutate).2]
  advance_scope s scope id hid := by
    show ((s.scopes.modify scope Scope.advance Scope.advance_id).find? id).isSome = true
    rw [Table.find?_modify]
    split_ifs with heq
    · subst heq
      rwa [Option.isSome_map]
    · exact hid

/-! ## A request that is sent three times -/

def someScope : ID := "00000000-0000-4000-8000-00000000000a"

def openChecks : Checks :=
  ⟨fun _ => ⟨100, 10, 100, 100, 100⟩, fun _ _ => .ok (), fun _ _ => .ok ()⟩

/-- The catalog under a digest without collisions. -/
def plainService : Service Tables Mutation Resource Frame :=
  catalogService hostnameSchema openChecks id

def emptyStore : Database Tables Frame :=
  ⟨⟨⟨[⟨someScope, 1, 1⟩], by decide⟩, .empty⟩, .empty⟩

def createRouting (scope : ID) (request : List UInt8) : Invocation Mutation Resource where
  request := ⟨scope, "00000000-0000-4000-8000-00000000000b", "POST:/routing", "key", request⟩
  fn := .call (.create "00000000-0000-4000-8000-000000000001"
    ⟨"routing", [], true, .routingProfile ⟨1, [], .builtin .direct, .preserveDomain⟩⟩) fun
    | .error e => .ret (.error e)
    | .ok r => .ret (.ok ⟨201, r.id, r.metadata.revision, "", .created⟩)
  escaped := []

def createdReceipt : Receipt := ⟨201, "00000000-0000-4000-8000-000000000001", 1, "", .created⟩

/-- The first invocation commits, the second one gets its receipt back, and one with another request
is refused. -/
theorem exactly_once_created :
    (executeIdempotent plainService emptyStore (createRouting someScope [1])).2 =
        .ok ⟨createdReceipt, false⟩ ∧
      (executeIdempotent plainService
        (executeIdempotent plainService emptyStore (createRouting someScope [1])).1
        (createRouting someScope [1])).2 = .ok ⟨createdReceipt, true⟩ ∧
      (executeIdempotent plainService
        (executeIdempotent plainService emptyStore (createRouting someScope [1])).1
        (createRouting someScope [2])).2 = .error (.catalog .idempotencyConflict) := by
  have hcommitted : (executeIdempotent plainService emptyStore (createRouting someScope [1])).2 =
      .ok ⟨createdReceipt, false⟩ := by decide
  have hafter := (exactly_once plainService).1 emptyStore (createRouting someScope [1])
    createdReceipt hcommitted _ (.refl _)
  exact ⟨hcommitted, (hafter (createRouting someScope [1]) rfl).2.1 ⟨rfl, rfl⟩,
    (hafter (createRouting someScope [2]) rfl).2.2 (by decide) (by decide) (by decide) fun h => h⟩

/-- For a scope that does not exist the answer is that it is not found, whatever the key holds. -/
theorem unknown_scope_not_found :
    (executeIdempotent plainService emptyStore (createRouting someScope [1])).2 =
        .ok ⟨createdReceipt, false⟩ ∧
      (createRouting "00000000-0000-4000-8000-00000000000c" [1]).request.slot =
        (createRouting someScope [1]).request.slot ∧
      (createRouting "00000000-0000-4000-8000-00000000000c" [1]).request.validate = true ∧
      (executeIdempotent plainService
        (executeIdempotent plainService emptyStore (createRouting someScope [1])).1
        (createRouting "00000000-0000-4000-8000-00000000000c" [1])).2 =
          .error (.catalog .notFound) :=
  ⟨by decide, by decide, by decide, by decide⟩

end ProxyLoom.Storage
