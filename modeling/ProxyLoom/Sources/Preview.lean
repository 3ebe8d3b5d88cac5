import ProxyLoom.Catalog.Transaction
import ProxyLoom.Override.Compose
import ProxyLoom.Sources.Items

/-!
# Source previews

A refresh that was parsed is turned into a preview: an entry for the first candidate of every
identity, with the item that it claims, the node it is matched to and the changes it would make, and
an entry for every item that no candidate claimed. The items are written on the way, and where the
source allows safe updates the nodes and their bindings are too.

The encryption of the records, the audit events and the batch that stores the entries are left out.
-/

namespace ProxyLoom.Previews

open IR Override Catalog

/-! ## Field changes -/

inductive FieldValue where
  | text (s : String)
  | num (n : ℕ)
  | bool (b : Bool)
  | texts (l : List String)
deriving DecidableEq, Repr

/-- A field of a node as the preview shows it. -/
structure SourceField where
  path : String
  value : FieldValue
  secret : Bool
deriving DecidableEq, Repr

/-- The values of a secret are not shown. -/
structure SourceFieldChange where
  fieldPath : String
  before : Option FieldValue := none
  after : Option FieldValue := none
  secretChanged : Bool := false
deriving DecidableEq, Repr

def authKindText : AuthKind → String
  | .methodPassword => "method_password"
  | .vmessAEAD => "vmess_aead"
  | .uuid => "uuid"
  | .password => "password"
  | .usernamePassword => "username_password"
  | .none => "none"

def securityModeText : SecurityMode → String
  | .none => "none"
  | .tls => "tls"
  | .reality => "reality"

def plain (path : String) (value : FieldValue) : SourceField := ⟨path, value, false⟩

/-- A secret is compared, and not shown. -/
def hidden (path : String) (secret : Secret) : SourceField := ⟨path, .text secret, true⟩

def optional (path : String) (value : Option FieldValue) : List SourceField :=
  value.toList.map (plain path)

def authSourceFields (a : Authentication) : List SourceField :=
  plain "/node/auth/kind" (.text (authKindText a.kind)) ::
    match a with
    | .methodPassword method password =>
      [plain "/node/auth/method" (.text method.text), hidden "/node/auth/password" password]
    | .vmess uuid cipher =>
      [hidden "/node/auth/uuid" uuid, plain "/node/auth/cipher" (.text cipher.text)]
    | .uuid uuid => [hidden "/node/auth/uuid" uuid]
    | .password password => [hidden "/node/auth/password" password]
    | .usernamePassword username password =>
      [hidden "/node/auth/username" username, hidden "/node/auth/password" password]
    | .noAuth => []

def transportSourceFields : Transport → List SourceField
  | .nativeTCP => [plain "/node/transport/kind" (.text "native_tcp")]
  | .webSocket path host =>
    [plain "/node/transport/kind" (.text "websocket"), plain "/node/transport/path" (.text path)] ++
      optional "/node/transport/host" (host.map .text)

/-- No protocols to negotiate are the same as none given. -/
def alpnSourceFields (alpn : List String) : List SourceField :=
  optional "/node/security/alpn" (if alpn = [] then none else some (.texts alpn))

def securitySourceFields (s : Security) : List SourceField :=
  plain "/node/security/mode" (.text (securityModeText s.mode)) ::
    match s with
    | .noSecurity => []
    | .tls t =>
      [plain "/node/security/server_name" (.text t.serverName)] ++
        optional "/node/security/verify_certificate" (t.verifyCertificate.map .bool) ++
        alpnSourceFields t.alpn ++
        optional "/node/security/client_fingerprint" (t.clientFingerprint.map .text)
    | .reality r =>
      [plain "/node/security/server_name" (.text r.serverName),
        hidden "/node/security/public_key" r.publicKey,
        hidden "/node/security/short_id" r.shortID,
        plain "/node/security/client_fingerprint" (.text r.clientFingerprint)] ++
        alpnSourceFields r.alpn

def nodeSourceFields (n : Node) : List SourceField :=
  [plain "/node/protocol" (.text n.protocol.text),
    plain "/node/endpoint/host" (.text n.endpoint.host),
    plain "/node/endpoint/port" (.num n.endpoint.port)] ++ authSourceFields n.auth ++
    transportSourceFields n.transport ++ securitySourceFields n.security ++
    optional "/node/features/udp" (n.features.udp.map .bool) ++
    optional "/node/features/multiplex" (n.features.multiplex.map .bool) ++
    optional "/node/features/protocol_variant"
      (n.features.protocolVariant.map fun v => .text v.text)

/-- The fields of an item in the order of the preview. -/
def sourceFields (name : String) : Option Node → List SourceField
  | none => []
  | some n => plain "/name" (.text name) :: nodeSourceFields n

/-- The fields that were added, removed or changed. -/
def sourceFieldChanges (beforeName : String) (before : Option Node) (afterName : String)
    (after : Option Node) : List SourceFieldChange :=
  let a := sourceFields beforeName before
  let b := sourceFields afterName after
  let paths := ((a ++ b).map SourceField.path).dedup.insertionSort (· ≤ ·)
  paths.filterMap fun path =>
    let old := a.find? fun f => f.path = path
    let next := b.find? fun f => f.path = path
    if old.map SourceField.value = next.map SourceField.value then none
    else if old.any SourceField.secret || next.any SourceField.secret then
      some { fieldPath := path, secretChanged := true }
    else some
      { fieldPath := path
        before := old.map SourceField.value
        after := next.map SourceField.value }

/-! ## Tables -/

/-- What is known of an upstream item. -/
structure ItemRecord where
  name : String
  externalKey : String
  fingerprint : String
  suggestedNodeID : ID
  node : Option Node
deriving DecidableEq, Repr

/-- A row of `source_items`, with the record that was applied to the bound node. -/
structure ItemRow where
  id : ID
  sourceID : ID
  externalKey : Option String
  record : ItemRecord
  baseRevision : ℕ
  state : ItemState
  applied : Option (ItemRecord × ℕ)
deriving DecidableEq, Repr

inductive BindingState where
  | active | stale | conflict
deriving DecidableEq, Repr

/-- A row of `node_bindings`. -/
structure BindingRow where
  nodeID : ID
  sourceItemID : ID
  revision : ℕ
  method : MatchMethod
  state : BindingState
  patch : Document
deriving DecidableEq, Repr

/-- A node of the catalog that follows an item. -/
structure Binding extends BindingRow where
  sourceResourceID : ID
deriving DecidableEq, Repr

/-- The tables that a refresh writes, and the random IDs that it will draw. An item is bound to one
node at most. -/
structure Store where
  catalog : Tables
  items : Table ItemRow.id
  bindings : Table BindingRow.nodeID
  boundOnce : (bindings.rows.map BindingRow.sourceItemID).Nodup
  fresh : List ID

/-- Whether a refresh may write nodes. -/
inductive CommitMode where
  | manual | safeUpdates
deriving DecidableEq, Repr

/-- What happens to the node of a missing item. -/
inductive MissingPolicy where
  | retain | disable
deriving DecidableEq, Repr

/-- The settings of the source that is refreshed. -/
structure SourceDocument where
  resourceID : ID
  revision : ℕ
  commitMode : CommitMode
  missingPolicy : MissingPolicy
deriving DecidableEq, Repr

inductive PreviewError where
  | catalog (e : CatalogError)
  | override (e : OverrideError)
  | invalidInput
deriving DecidableEq, Repr

/-- The catalog that the nodes are written to, and the fingerprint of a connection. -/
structure Env where
  schema : Schema
  checks : Checks
  scope : ID
  fingerprint : Node → String

def noPatchDocument : Document := ⟨0, none, none⟩

def ItemRow.stored (row : ItemRow) : StoredSourceItem where
  id := row.id
  externalKey := row.externalKey.getD row.record.externalKey
  fingerprint := row.record.fingerprint
  name := row.record.name
  suggestedNodeID := row.record.suggestedNodeID
  node := row.record.node
  state := row.state
  revision := row.baseRevision

section
variable (env : Env) (doc : SourceDocument) (s : Store)

/-- The items of the source, by ID. -/
def loadItems : List StoredSourceItem :=
  ((s.items.rows.filter fun row => row.sourceID = doc.resourceID).insertionSort
    fun a b => a.id ≤ b.id).map ItemRow.stored

def bindingOf (row : BindingRow) : Option Binding :=
  (s.items.find? row.sourceItemID).map fun item => ⟨row, item.sourceID⟩

/-- The binding of a node. -/
def loadBindingByNode (nodeID : ID) : Option Binding :=
  (s.bindings.find? nodeID).bind (bindingOf s)

/-- The binding to an item. -/
def loadBindingByItem (itemID : ID) : Option Binding :=
  (s.bindings.rows.find? fun row => row.sourceItemID = itemID).bind (bindingOf s)

/-- The head of a resource of the scope. -/
def probe (id : ID) : Except PreviewError Resource :=
  if !ID.validate id then .error (.catalog .invalidInput)
  else
    match s.catalog.head? env.scope id with
    | some r => .ok r
    | none => .error (.catalog .notFound)

/-- The nodes that an item may be matched with. -/
def nodeRecords (items : List StoredSourceItem) : List Origin.Record :=
  s.catalog.resources.rows.filterMap fun row =>
    match row.resource.payload with
    | .node n =>
      if row.scopeID = env.scope ∧ row.deleted = false then
        let bound := (loadBindingByNode s row.id).bind fun b =>
          items.find? fun item => item.id = b.sourceItemID
        some
          { nodeID := row.id
            revision := row.resource.metadata.revision
            boundSourceItemID := (bound.map StoredSourceItem.id).getD ""
            externalKey := (bound.map StoredSourceItem.externalKey).getD ""
            fingerprint := env.fingerprint n
            name := row.resource.metadata.name
            protocol := n.protocol
            host := n.endpoint.host
            port := n.endpoint.port }
      else none
    | _ => none

/-! ## Items -/

def itemRecord (c : ParsedCandidate) (suggested : ID) : ItemRecord :=
  ⟨c.name, c.externalKey, c.fingerprint, suggested, some c.node⟩

def newItem (id : ID) (c : ParsedCandidate) : ItemRow :=
  ⟨id, doc.resourceID, if c.externalKey = "" then none else some c.externalKey, itemRecord c "",
    doc.revision, .active, none⟩

/-- The keys of a source are unique, as are the IDs of all items. -/
def insertItem (id : ID) (c : ParsedCandidate) : Except PreviewError Store :=
  let row := newItem doc id c
  if row.externalKey.isSome && s.items.rows.any fun r =>
      r.sourceID = doc.resourceID && r.externalKey = row.externalKey then
    .error (.catalog .unavailable)
  else
    match s.items.insert? row with
    | some items => .ok { s with items }
    | none => .error (.catalog .unavailable)

/-- The record of a bound item is kept as the one that was applied, if none was yet. -/
def updateItem (id : ID) (c : ParsedCandidate) : Store :=
  let bound := s.bindings.rows.any fun row => row.sourceItemID = id
  { s with
    items := s.items.modify id (fun row =>
      { row with
        applied := if bound && row.applied.isNone then some (row.record, row.baseRevision)
          else row.applied
        record := itemRecord c ""
        baseRevision := doc.revision
        state := .active }) fun _ => rfl }

/-- Write the record of an item. -/
def setItem (id : ID) (record : ItemRecord) (revision : ℕ) (state : ItemState) : Store :=
  { s with
    items := s.items.modify id (fun row =>
      { row with record, baseRevision := revision, state }) fun _ => rfl }

/-- The record of the item becomes its baseline. -/
def applySourceItemBaseline (id : ID) : Store :=
  { s with
    items := s.items.modify id (fun row =>
      { row with applied := some (row.record, row.baseRevision), state := .active }) fun _ => rfl }

/-! ## Bindings -/

/-- No item is bound twice. -/
def putBindings (bindings : Table BindingRow.nodeID) : Except PreviewError Store :=
  if h : (bindings.rows.map BindingRow.sourceItemID).Nodup then
    .ok { s with bindings, boundOnce := h }
  else .error (.catalog .unavailable)

/-- An item has one node, and a binding is written with the next revision. -/
def saveBinding (b : Binding) : Except PreviewError Store :=
  if !ID.validate b.nodeID || !ID.validate b.sourceItemID || b.revision < 1 then
    .error (.catalog .invalidInput)
  else if !b.patch.empty && (b.patch.node.bind fun p => p.protocol).isSome then
    .error (.catalog .invalidInput)
  else
    match s.items.find? b.sourceItemID with
    | none => .error (.catalog .notFound)
    | some item =>
      if b.sourceResourceID ≠ item.sourceID then .error (.catalog .invalidInput)
      else if (loadBindingByItem s b.sourceItemID).any fun owner => owner.nodeID ≠ b.nodeID then
        .error (.catalog .revisionConflict)
      else
        match loadBindingByNode s b.nodeID with
        | none =>
          match s.bindings.insert? b.toBindingRow with
          | some bindings => putBindings s bindings
          | none => .error (.catalog .unavailable)
        | some old =>
          if old.sourceResourceID ≠ b.sourceResourceID then .error (.catalog .invalidInput)
          else if old.revision + 1 ≠ b.revision then .error (.catalog .revisionConflict)
          else putBindings s (s.bindings.upsert b.toBindingRow)

def bumpBinding (b : Binding) (state : BindingState) : Except PreviewError Store :=
  saveBinding s { b with state, revision := b.revision + 1 }

/-- The item and its binding wait for a decision. -/
def markConflict (id : ID) (c : ParsedCandidate) (suggested : ID) : Except PreviewError Store :=
  let s := setItem s id (itemRecord c suggested) doc.revision .conflict
  match loadBindingByItem s id with
  | none => .ok s
  | some b => bumpBinding s b .conflict

/-! ## Nodes -/

def lift {α : Type} : Except CatalogError α → Except PreviewError α
  | .ok a => .ok a
  | .error e => .error (.catalog e)

def writeNode (id : ID) (revision : ℕ) (input : Input) : Except PreviewError Store :=
  (lift (update env.schema env.checks env.scope s.catalog id revision input)).map fun catalog =>
    { s with catalog }

/-- A binding turns stale once. -/
def markStale (b : Binding) : Except PreviewError Store :=
  if b.state = .stale then .ok s else bumpBinding s b .stale

/-- Disable the node of a missing item, where the source says so. -/
def disableMissing (nodeID : ID) : Except PreviewError Store :=
  if doc.missingPolicy ≠ .disable ∨ doc.commitMode ≠ .safeUpdates then .ok s
  else
    match probe env s nodeID with
    | .error (.catalog .notFound) => .ok s
    | .error e => .error e
    | .ok r =>
      if r.metadata.enabled then
        writeNode env s r.id r.metadata.revision
          ⟨r.metadata.name, r.metadata.tags, false, r.payload⟩
      else .ok s

/-- The item is missing; its binding is stale. -/
def markMissing (item : StoredSourceItem) : Except PreviewError Store :=
  let s := setItem s item.id
    ⟨item.name, item.externalKey, item.fingerprint, "", item.node⟩ item.revision .missing
  match loadBindingByItem s item.id with
  | none => .ok s
  | some b => do
    let s ← markStale s b
    disableMissing env doc s b.nodeID

def originItem (id : ID) (c : ParsedCandidate) : Origin.Item :=
  ⟨id, c.externalKey, c.fingerprint, c.name, c.node.protocol, c.node.endpoint.host,
    c.node.endpoint.port⟩

/-- How a node was found, as its origin records it. Only an identity is recorded, so a suggestion
does not get here. -/
def originMethod : Origin.Method → MatchMethod
  | .stableExternalKey => .stableExternalKey
  | .manualBinding | .suggestion => .manualBinding
  | .exactFingerprint => .exactFingerprint

/-- Write the new upstream values under the overrides of the node. -/
def updateBoundNode (id : ID) (c : ParsedCandidate) (d : Origin.Decision) :
    Except PreviewError Store := do
  let r ← probe env s d.nodeID
  match r.payload with
  | .node _ =>
    let binding := loadBindingByNode s r.id
    let patch := (binding.map fun b => b.patch).getD noPatchDocument
    let baseName := if patch.name.isSome then r.metadata.name else c.name
    match merge env.schema.toFormats c.node baseName patch with
    | .error _ => .error (.catalog .invalidInput)
    | .ok (next, name, _) =>
      let method := originMethod d.method
      let next := { next with origin := some ⟨doc.resourceID, id, method⟩ }
      let s ← writeNode env s r.id r.metadata.revision
        ⟨name, r.metadata.tags, r.metadata.enabled, .node next⟩
      let revision := (binding.map fun b => b.revision).getD 0
      saveBinding s ⟨⟨r.id, id, revision + 1, method, .active, patch⟩, doc.resourceID⟩
  | _ => .error (.catalog .invalidInput)

/-- A node for an item that has none. -/
def createBoundNode (id : ID) (c : ParsedCandidate) : Except PreviewError Store :=
  match s.fresh with
  | [] => .error (.catalog .unavailable)
  | nodeID :: fresh => do
    let method : MatchMethod := if c.externalKey = "" then .exactFingerprint else .stableExternalKey
    let node := { c.node with origin := some ⟨doc.resourceID, id, method⟩ }
    let catalog ← lift (create env.schema env.checks env.scope s.catalog nodeID
      ⟨c.name, [], true, .node node⟩)
    saveBinding { s with catalog, fresh }
      ⟨⟨nodeID, id, 1, method, .active, noPatchDocument⟩, doc.resourceID⟩

/-- Write the node of an item, as far as the mode allows. -/
def commitNode (records : List Origin.Record) (id : ID) (c : ParsedCandidate) :
    Except PreviewError Store :=
  if doc.commitMode ≠ .safeUpdates ∨ c.node.validate env.schema.toFormats = false then .ok s
  else
    match Origin.matchRecords (originItem id c) records with
    | none => createBoundNode env doc s id c
    | some d =>
      if d.unsure then markConflict doc s id c d.nodeID else updateBoundNode env doc s id c d

end

/-! ## Entries -/

/-- How an entry stands to the catalog. -/
inductive EntryState where
  | new | matched | conflict
deriving DecidableEq, Repr

/-- How an item differs from its baseline. -/
inductive ChangeKind where
  | new | modified | unchanged | conflict | missing
deriving DecidableEq, Repr

/-- What a conflict is reported with, besides the diagnostics of the parser. -/
inductive Notice where
  | confirmationRequired | duplicateIdentity
deriving DecidableEq, Repr

def Notice.code : Notice → String
  | .confirmationRequired => "SOURCE_CONFIRMATION_REQUIRED"
  | .duplicateIdentity => "SOURCE_DUPLICATE_IDENTITY"

def Notice.fieldPath : Notice → String
  | .confirmationRequired => "/node"
  | .duplicateIdentity => "/source_item_id"

def Notice.message : Notice → String
  | .confirmationRequired =>
    "The upstream item has a duplicate or suggested identity. Confirm a target, create a separate node, or skip it."
  | .duplicateIdentity =>
    "Several upstream entries share this identity. The first entry is shown for explicit confirmation."

/-- One line of the preview. The empty ID stands for no node. -/
structure Entry where
  index : ℕ
  name : String
  state : EntryState
  node : Option Node
  diagnostics : List Diagnostic
  notices : List Notice := []
  existingID : ID := ""
  existingRevision : ℕ := 0
  matchMethod : Option Origin.Method := none
  sourceItemID : ID
  changeKind : ChangeKind
  autoApplied : Bool := false
  bindingRevision : ℕ := 0
  boundItemID : ID := ""
  boundSourceID : ID := ""
  upstreamChanges : List SourceFieldChange
  effectiveChanges : List SourceFieldChange := []
  missingDisable : Bool := false
deriving DecidableEq, Repr

def bindingMethod : MatchMethod → Origin.Method
  | .stableExternalKey => .stableExternalKey
  | .manualBinding => .manualBinding
  | .exactFingerprint => .exactFingerprint

def Entry.withBinding (e : Entry) (b : Binding) : Entry :=
  { e with
    bindingRevision := b.revision
    boundItemID := b.sourceItemID
    boundSourceID := b.sourceResourceID }

def Entry.withDecision (e : Entry) (d : Origin.Decision) : Entry :=
  { e with existingID := d.nodeID, existingRevision := d.revision, matchMethod := some d.method }

def conflictNotices (duplicate : Bool) : List Notice :=
  .confirmationRequired :: if duplicate then [.duplicateIdentity] else []

section
variable (env : Env) (doc : SourceDocument) (s : Store)

/-- The binding of the item of an entry, or else of the node it was matched to. -/
def entryBinding (e : Entry) : Option Binding :=
  (loadBindingByItem s e.sourceItemID).or
    (if e.existingID = "" then none else loadBindingByNode s e.existingID)

/-- The binding of the entry as it is now. -/
def refreshPreviewBinding (e : Entry) : Except PreviewError Entry :=
  match entryBinding s e with
  | some b => do
    let node ← probe env s b.nodeID
    pure { e.withBinding b with
      existingID := b.nodeID
      existingRevision := node.metadata.revision
      matchMethod := if b.sourceItemID = e.sourceItemID then some (bindingMethod b.method)
        else e.matchMethod }
  | none =>
    if e.existingID = "" then .ok e
    else do
      let node ← probe env s e.existingID
      pure { e with existingRevision := node.metadata.revision }

/-- An entry before it is matched. -/
def newEntry (old : Option StoredSourceItem) (id : ID) (c : ParsedCandidate) (index : ℕ) :
    Entry where
  index := index
  name := c.name
  state := .new
  node := some c.node
  diagnostics := c.diagnostics
  sourceItemID := id
  changeKind := .new
  upstreamChanges := sourceFieldChanges ((old.map StoredSourceItem.name).getD "")
    (old.bind StoredSourceItem.node) c.name (some c.node)
  effectiveChanges := sourceFieldChanges "" none c.name (some c.node)

/-- The node that is there and what the candidate would make of it. -/
def matchedEntry (e : Entry) (c : ParsedCandidate) (nodeID : ID) (conflict : Bool) :
    Except PreviewError Entry := do
  let r ← probe env s nodeID
  let binding := loadBindingByNode s nodeID
  let e := (binding.map e.withBinding).getD e
  let patch := ((binding.filter fun b => b.sourceResourceID = doc.resourceID).map
    fun b => b.patch).getD noPatchDocument
  match merge env.schema.toFormats c.node c.name patch, r.payload with
  | .error err, _ => .error (.override err)
  | .ok (next, name, _), .node n =>
    let effective := sourceFieldChanges r.metadata.name (some n) name (some next)
    let unchanged := e.upstreamChanges.isEmpty && effective.isEmpty &&
      (binding.any fun b => b.state = .active) && !conflict
    pure { e with
      effectiveChanges := effective
      state := .matched
      changeKind := if unchanged then .unchanged else .modified }
  | .ok _, _ => .error (.catalog .invalidInput)

/-- The entry of a candidate, and whether it has to be confirmed. -/
def describe (records : List Origin.Record) (old : Option StoredSourceItem) (id : ID)
    (c : ParsedCandidate) (index : ℕ) (duplicate : Bool) : Except PreviewError (Entry × Bool) :=
  let e := newEntry old id c index
  match Origin.matchRecords (originItem id c) records with
  | none => .ok (e, duplicate)
  | some d =>
    let conflict := duplicate || d.unsure
    let e := e.withDecision d
    if d.nodeID = "" then .ok (e, conflict)
    else (matchedEntry env doc s e c d.nodeID conflict).map fun e => (e, conflict)

/-! ## The preview -/

/-- The state of the loop over the candidates. -/
structure Progress where
  store : Store
  preview : List Entry
  seen : List ID
  processed : List String

/-- The item that a candidate is written to: the match, or a new one. -/
def claimItem (existing : List StoredSourceItem) (c : ParsedCandidate) :
    Except PreviewError (ID × Store) :=
  match matchStoredItem existing c with
  | some item => .ok (item.id, updateItem doc s item.id c)
  | none =>
    match s.fresh with
    | [] => .error (.catalog .unavailable)
    | id :: fresh => do
      let s ← insertItem doc { s with fresh } id c
      pure (id, s)

/-- What is written for an entry: the conflict, or the node and the baseline of the item. -/
def settle (records : List Origin.Record) (id : ID) (c : ParsedCandidate) (e : Entry)
    (conflict duplicate : Bool) : Except PreviewError (Entry × Store) :=
  if conflict then do
    let suggested := ((Origin.matchRecords (originItem id c) records).map
      Origin.Decision.nodeID).getD ""
    let s ← markConflict doc s id c suggested
    pure ({ e with
      state := .conflict
      changeKind := .conflict
      notices := conflictNotices duplicate }, s)
  else if doc.commitMode = .safeUpdates ∧ e.changeKind ≠ .unchanged then do
    let s ← commitNode env doc s records id c
    pure ({ e with autoApplied := true }, applySourceItemBaseline s id)
  else .ok (e, s)

/-- Record one candidate and its entry. -/
def enter (existing : List StoredSourceItem) (records : List Origin.Record)
    (parsed : List ParsedCandidate) (p : Progress) (c : ParsedCandidate) :
    Except PreviewError Progress := do
  let duplicate : Bool := 1 < parsed.countP fun c' => sourceCandidateKey c' = sourceCandidateKey c
  let (id, s) ← claimItem doc p.store existing c
  let (e, conflict) ← describe env doc s records (matchStoredItem existing c) id c p.preview.length
    duplicate
  let (e, s) ← settle env doc s records id c e conflict duplicate
  let e ← refreshPreviewBinding env s e
  pure { p with store := s, preview := p.preview ++ [e], seen := id :: p.seen }

/-- One round of the loop over the candidates: those with a known identity are skipped. -/
def candidateRound (existing : List StoredSourceItem) (records : List Origin.Record)
    (parsed : List ParsedCandidate) (p : Progress) (c : ParsedCandidate) :
    Except PreviewError Progress :=
  let key := sourceCandidateKey c
  if key ∈ p.processed then .ok p
  else enter env doc existing records parsed { p with processed := key :: p.processed } c

/-- The entry of an item that is gone upstream. -/
def missingEntry (item : StoredSourceItem) (index : ℕ) : Except PreviewError Entry := do
  let e : Entry :=
    { index, name := item.name, state := .matched, node := item.node, diagnostics := []
      sourceItemID := item.id, changeKind := .missing
      upstreamChanges := sourceFieldChanges item.name item.node "" none
      missingDisable := doc.missingPolicy = .disable }
  match loadBindingByItem s item.id with
  | none => pure e
  | some b =>
    let r ← probe env s b.nodeID
    pure { e with
      effectiveChanges := if e.missingDisable && r.metadata.enabled then
        [{ fieldPath := "/enabled", before := some (.bool true), after := some (.bool false) }]
      else [] }

/-- One round of the loop over the items: those that no candidate claimed are missing. -/
def missingRound (p : Progress) (item : StoredSourceItem) : Except PreviewError Progress :=
  if item.id ∈ p.seen then .ok p
  else do
    let e ← missingEntry env doc p.store item p.preview.length
    let s ← markMissing env doc p.store item
    let e ← refreshPreviewBinding env s { e with autoApplied := doc.commitMode = .safeUpdates }
    pure { p with store := s, preview := p.preview ++ [e] }

/-- The candidates in their order, then the items that are missing. -/
def buildPreview (parsed : List ParsedCandidate) : Except PreviewError (Store × List Entry) := do
  let existing := loadItems doc s
  let records := nodeRecords env s existing
  let p ← parsed.foldlM (candidateRound env doc existing records parsed) ⟨s, [], [], []⟩
  let p ← existing.foldlM (missingRound env doc) p
  pure (p.store, p.preview)

def maxCandidates : ℕ := 5000

/-- A preview of at most 5000 entries. -/
def createSourcePreview (parsed : List ParsedCandidate) :
    Except PreviewError (Store × List Entry) := do
  let (s, preview) ← buildPreview env doc s parsed
  if maxCandidates < preview.length then .error .invalidInput
  else do
    let preview ← preview.mapM (refreshPreviewBinding env s)
    pure (s, preview)

end

end ProxyLoom.Previews
