import ProxyLoom.IR.Node
import ProxyLoom.Lib.Aead

/-!
# Sealed records

A record is encrypted under a data key of its own, and the data key under the active master key.
Both encryptions are bound to the record's context, the second one also to the encrypted record.
The randomness and the cipher's answers are inputs of the operations, and the operations give back
the encryptions they made; opening reads the log of all encryptions.
-/

namespace ProxyLoom.Secretbox

open IR Frame

def keySize : ℕ := 32
def maxKeys : ℕ := 16
def maxKeyIDBytes : ℕ := 64
def maxPlaintextBytes : ℕ := 16 * 2 ^ 20
def payloadVersion : ℤ := 1
def wrappingVersion : ℤ := 1
def nonceSize : ℕ := 12
def tagSize : ℕ := 16

/-- The errors tell nothing about their causes. -/
inductive Failure where
  | keyring | encryption | authentication
deriving DecidableEq, Repr

def Failure.text : Failure → String
  | .keyring => "secretbox: invalid_keyring"
  | .encryption => "secretbox: encryption_failed"
  | .authentication => "secretbox: authentication_failed"

/-- The tables that hold sealed records. -/
def tables : List String :=
  ["resource_revisions", "source_snapshots", "source_items", "node_bindings", "import_batches",
    "import_items", "import_candidates", "system_settings", "test_targets",
    "compatibility_evidence", "compile_batches", "compile_outputs", "jobs"]

/-- Where a record is stored. -/
@[ext]
structure Context where
  scopeID : ID
  table : String
  objectID : ID
  revision : Int64
  schemaVersion : ℤ
deriving DecidableEq

/-- The sealed plaintext. -/
@[ext]
structure Payload where
  version : ℤ
  nonce : Bytes
  ciphertext : Bytes
deriving DecidableEq

/-- The data key of a record, sealed under a key of the ring. -/
@[ext]
structure Wrapping where
  version : ℤ
  keyID : String
  nonce : Bytes
  ciphertext : Bytes
deriving DecidableEq

/-! ## Checks -/

def validKeyID (id : String) : Bool :=
  !((utf8 id).length == 0 || maxKeyIDBytes < (utf8 id).length) && id.toList.all Text.isBase64Url

/-- `ValidateContext`. -/
def validContext (ctx : Context) : Bool :=
  !((utf8 ctx.scopeID).length ≠ 36 || (utf8 ctx.objectID).length ≠ 36 || ctx.revision ≤ 0 ||
    ctx.schemaVersion ≤ 0 || 2 ^ 31 - 1 < ctx.schemaVersion) &&
  decide (ctx.table ∈ tables) && ctx.scopeID.validate && ctx.objectID.validate

/-- AES takes keys of these lengths. -/
def newCipher (key : Bytes) : Bool := key.length = 16 || key.length = 24 || key.length = 32

/-! ## Keyrings -/

abbrev Key := {k : Bytes // k.length = keySize}

abbrev Nonce := {n : Bytes // n.length = nonceSize}

/-- A keyring: its active key is one of its keys. -/
structure Box where
  activeKeyID : String
  keys : List (String × Key)
  contentKey : Key
  active_valid : validKeyID activeKeyID = true
  active_mem : (keys.lookup activeKeyID).isSome = true

def sized : List (String × Bytes) → Option (List (String × Key))
  | [] => some []
  | (id, key) :: keys =>
    if h : key.length = keySize then (sized keys).map ((id, ⟨key, h⟩) :: ·) else none

def sharesKey (keys : List (String × Bytes)) : Bool :=
  keys.any fun k => keys.any fun other => k.1 ≠ other.1 && k.2 = other.2

/-- `New`, the checks of a keyring. -/
def Box.new (activeKeyID : String) (keys : List (String × Bytes)) (contentHMACKey : Bytes) :
    Except Failure Box :=
  if hactive : validKeyID activeKeyID = true then
    if keys.length = 0 || maxKeys < keys.length then .error .keyring
    else if keys.any (fun k => !validKeyID k.1 || k.2 = contentHMACKey) || sharesKey keys then
      .error .keyring
    else if hcontent : contentHMACKey.length = keySize then
      match sized keys with
      | none => .error .keyring
      | some keys =>
        if hmem : (keys.lookup activeKeyID).isSome = true then
          .ok ⟨activeKeyID, keys, ⟨contentHMACKey, hcontent⟩, hactive, hmem⟩
        else .error .keyring
    else .error .keyring
  else .error .keyring

def Box.ready (b : Box) : Bool := (b.keys.lookup b.activeKeyID).isSome

def Box.activeKey (b : Box) : Key := (b.keys.lookup b.activeKeyID).get b.active_mem

/-! ## What the encryptions are bound to -/

/-- The conversion of Go, modulo 2^32. -/
def uint32 (v : ℤ) : ℕ := (v % 2 ^ 32).toNat

/-- The associated data of a record: every part has a length or a fixed size. -/
def contextAAD (ctx : Context) (purpose : String) (version : ℤ) : Bytes :=
  utf8 "proxyloom.secretbox.aad\x00" ++ (field (utf8 purpose) ++ (bigEndian 4 (uint32 version) ++
    (field (utf8 ctx.scopeID) ++ (field (utf8 ctx.table) ++ (field (utf8 ctx.objectID) ++
      (bigEndian 8 ctx.revision.toUInt64.toNat ++ bigEndian 4 (uint32 ctx.schemaVersion)))))))

/-- The bytes of the payload that a wrapping is bound to. -/
def Payload.hashed (p : Payload) : Bytes :=
  bigEndian 4 (uint32 p.version) ++ (p.nonce ++ p.ciphertext)

/-- The associated data of a wrapping: it names its payload. -/
def wrappingAAD (hash : Bytes → Bytes) (ctx : Context) (p : Payload) (w : Wrapping) : Bytes :=
  contextAAD ctx "dek" w.version ++ (field (utf8 w.keyID) ++ hash p.hashed)

/-! ## Operations -/

/-- What one encryption draws: a nonce, unless the reader fails, and the cipher's answer. -/
structure Draw where
  nonce : Option Nonce
  answer : Bytes

/-- Seal the data key under the active key. -/
def wrap (hash : Bytes → Bytes) (b : Box) (ctx : Context) (p : Payload) (dek : Bytes) (d : Draw) :
    Option (Wrapping × Aead.Entry) :=
  d.nonce.map fun (nonce : Nonce) =>
    let w : Wrapping := ⟨wrappingVersion, b.activeKeyID, nonce, d.answer⟩
    (w, ⟨b.activeKey, nonce, dek, wrappingAAD hash ctx p w, d.answer⟩)

/-- The payload that `sealRecord` makes, with its encryption. -/
def encryptPayload (ctx : Context) (plaintext : Bytes) (dek : Key) (nonce : Nonce)
    (answer : Bytes) : Payload × Aead.Entry :=
  (⟨payloadVersion, nonce, answer⟩,
    ⟨dek, nonce, plaintext, contextAAD ctx "payload" payloadVersion, answer⟩)

/-- `Seal`: a fresh data key for the record, wrapped. -/
def sealRecord (hash : Bytes → Bytes) (b : Box) (ctx : Context) (plaintext : Bytes)
    (dek : Option Key) (d d' : Draw) : Except Failure (Payload × Wrapping) × Aead.Log :=
  if !b.ready || !validContext ctx || maxPlaintextBytes < plaintext.length then
    (.error .encryption, [])
  else match dek, d.nonce with
    | some dek, some nonce =>
      let (p, e) := encryptPayload ctx plaintext dek nonce d.answer
      match wrap hash b ctx p dek d' with
      | some (w, e') => (.ok (p, w), [e, e'])
      | none => (.error .encryption, [e])
    | _, _ => (.error .encryption, [])

/-- The form that `unwrap` demands of what it is given. -/
def wellFormed (b : Box) (ctx : Context) (p : Payload) (w : Wrapping) : Bool :=
  !(!b.ready || !validContext ctx || p.version ≠ payloadVersion || w.version ≠ wrappingVersion ||
    p.nonce.length ≠ nonceSize || p.ciphertext.length < tagSize ||
    maxPlaintextBytes + tagSize < p.ciphertext.length || !validKeyID w.keyID ||
    w.nonce.length ≠ nonceSize || w.ciphertext.length ≠ keySize + tagSize)

/-- The data key, if the wrapping was made for this payload. -/
def unwrap (hash : Bytes → Bytes) (log : Aead.Log) (b : Box) (ctx : Context) (p : Payload)
    (w : Wrapping) : Option Bytes :=
  if !wellFormed b ctx p w then none
  else (b.keys.lookup w.keyID).bind fun key =>
    log.lookup key w.nonce w.ciphertext (wrappingAAD hash ctx p w)

/-- The plaintext under the data key. -/
def openPayload (log : Aead.Log) (ctx : Context) (p : Payload) (dek : Bytes) : Option Bytes :=
  if !newCipher dek then none
  else log.lookup dek p.nonce p.ciphertext (contextAAD ctx "payload" payloadVersion)

/-- The data key and the plaintext, once both layers are authenticated. -/
def authenticate (hash : Bytes → Bytes) (log : Aead.Log) (b : Box) (ctx : Context) (p : Payload)
    (w : Wrapping) : Option (Bytes × Bytes) :=
  (unwrap hash log b ctx p w).bind fun dek => (openPayload log ctx p dek).map fun pt => (dek, pt)

/-- `Open`. -/
def openRecord (hash : Bytes → Bytes) (log : Aead.Log) (b : Box) (ctx : Context) (p : Payload)
    (w : Wrapping) : Except Failure Bytes :=
  match authenticate hash log b ctx p w with
  | some (_, plaintext) => .ok plaintext
  | none => .error .authentication

/-- `Rewrap`: a new wrapping of the same data key. -/
def rewrap (hash : Bytes → Bytes) (log : Aead.Log) (b : Box) (ctx : Context) (p : Payload)
    (w : Wrapping) (d : Draw) : Except Failure Wrapping × Aead.Log :=
  match authenticate hash log b ctx p w with
  | none => (.error .authentication, [])
  | some (dek, _) =>
    match wrap hash b ctx p dek d with
    | some (next, e) => (.ok next, [e])
    | none => (.error .authentication, [])

/-! ## Reading back what an encryption is bound to -/

/-- The strings and the version fit the widths of their frames. -/
structure Context.Fits (ctx : Context) : Prop where
  scopeID : (utf8 ctx.scopeID).length < 256 ^ 4
  table : (utf8 ctx.table).length < 256 ^ 4
  objectID : (utf8 ctx.objectID).length < 256 ^ 4
  schemaVersion : 0 ≤ ctx.schemaVersion ∧ ctx.schemaVersion < 2 ^ 32

/-- The version and the nonce have the widths that the hash relies on. -/
structure Payload.Fits (p : Payload) : Prop where
  version : 0 ≤ p.version ∧ p.version < 2 ^ 32
  nonce : p.nonce.length = nonceSize

structure Wrapping.Fits (w : Wrapping) : Prop where
  version : 0 ≤ w.version ∧ w.version < 2 ^ 32
  keyID : (utf8 w.keyID).length < 256 ^ 4

theorem uint32_lt (v : ℤ) : uint32 v < 256 ^ 4 := by
  unfold uint32
  omega

theorem uint32_inj {v v' : ℤ} (hv : 0 ≤ v ∧ v < 2 ^ 32) (hv' : 0 ≤ v' ∧ v' < 2 ^ 32)
    (h : uint32 v = uint32 v') : v = v' := by
  unfold uint32 at h
  omega

theorem uint64_lt (n : UInt64) : n.toNat < 256 ^ 8 := n.toNat_lt

/-- **A context can be read back**, with the purpose and the version before it and whatever stands
behind it. -/
theorem contextAAD_append_inj {ctx ctx' : Context} {purpose purpose' : String}
    {version version' : ℤ} {r r' : Bytes} (hctx : ctx.Fits) (hctx' : ctx'.Fits)
    (hpurpose : (utf8 purpose).length < 256 ^ 4) (hpurpose' : (utf8 purpose').length < 256 ^ 4)
    (hversion : 0 ≤ version ∧ version < 2 ^ 32) (hversion' : 0 ≤ version' ∧ version' < 2 ^ 32)
    (h : contextAAD ctx purpose version ++ r = contextAAD ctx' purpose' version' ++ r') :
    ctx = ctx' ∧ purpose = purpose' ∧ version = version' ∧ r = r' := by
  simp only [contextAAD, List.append_assoc] at h
  have h := List.append_cancel_left h
  obtain ⟨h₁, h⟩ := field_append_inj hpurpose hpurpose' h
  obtain ⟨h₂, h⟩ := bigEndian_append_inj (uint32_lt _) (uint32_lt _) h
  obtain ⟨h₃, h⟩ := field_append_inj hctx.scopeID hctx'.scopeID h
  obtain ⟨h₄, h⟩ := field_append_inj hctx.table hctx'.table h
  obtain ⟨h₅, h⟩ := field_append_inj hctx.objectID hctx'.objectID h
  obtain ⟨h₆, h⟩ := bigEndian_append_inj (uint64_lt _) (uint64_lt _) h
  obtain ⟨h₇, h⟩ := bigEndian_append_inj (uint32_lt _) (uint32_lt _) h
  have hrevision : ctx.revision = ctx'.revision :=
    congrArg Int64.ofUInt64 (UInt64.toNat_inj.mp h₆)
  have hcontext : ctx = ctx' :=
    Context.ext (utf8_injective h₃) (utf8_injective h₄) (utf8_injective h₅) hrevision
      (uint32_inj hctx.schemaVersion hctx'.schemaVersion h₇)
  exact ⟨hcontext, utf8_injective h₁, uint32_inj hversion hversion' h₂, h⟩

theorem hashed_inj {p p' : Payload} (hp : p.Fits) (hp' : p'.Fits) (h : p.hashed = p'.hashed) :
    p = p' := by
  obtain ⟨hversion, h⟩ := bigEndian_append_inj (uint32_lt _) (uint32_lt _) h
  obtain ⟨hnonce, hciphertext⟩ := List.append_inj h (hp.nonce.trans hp'.nonce.symm)
  exact Payload.ext (uint32_inj hp.version hp'.version hversion) hnonce hciphertext

section Binding

variable {hash : Bytes → Bytes} {ctx ctx' : Context} {p p' : Payload} {w w' : Wrapping}

theorem length_dek_lt : (utf8 "dek").length < 256 ^ 4 := by decide

theorem length_payload_lt : (utf8 "payload").length < 256 ^ 4 := by decide

/-- **A wrapping's data can be read back**: the context, the payload, the version and the key. -/
theorem wrappingAAD_inj (hhash : Function.Injective hash) (hctx : ctx.Fits) (hctx' : ctx'.Fits)
    (hp : p.Fits) (hp' : p'.Fits) (hw : w.Fits) (hw' : w'.Fits)
    (h : wrappingAAD hash ctx p w = wrappingAAD hash ctx' p' w') :
    ctx = ctx' ∧ p = p' ∧ w.version = w'.version ∧ w.keyID = w'.keyID := by
  obtain ⟨hc, -, hversion, h⟩ := contextAAD_append_inj hctx hctx' length_dek_lt length_dek_lt
    hw.version hw'.version h
  obtain ⟨hkey, hpayload⟩ := field_append_inj hw.keyID hw'.keyID h
  exact ⟨hc, hashed_inj hp hp' (hhash hpayload), hversion, utf8_injective hkey⟩

/-- The data of a payload are never those of a wrapping, which go on behind the context. -/
theorem contextAAD_ne_wrappingAAD {purpose : String} {version : ℤ} (hctx : ctx.Fits)
    (hctx' : ctx'.Fits) (hpurpose : (utf8 purpose).length < 256 ^ 4)
    (hversion : 0 ≤ version ∧ version < 2 ^ 32) (hw : w.Fits) :
    contextAAD ctx purpose version ≠ wrappingAAD hash ctx' p w := by
  intro h
  rw [← List.append_nil (contextAAD ctx purpose version)] at h
  obtain ⟨-, -, -, hrest⟩ := contextAAD_append_inj hctx hctx' hpurpose length_dek_lt hversion
    hw.version h
  have hlength := congrArg List.length hrest
  rw [List.length_nil, List.length_append, length_field] at hlength
  omega

end Binding

/-! ## What the checks give -/

theorem validKeyID_length {id : String} (h : validKeyID id = true) :
    (utf8 id).length ≤ maxKeyIDBytes := by
  simp only [validKeyID, Bool.and_eq_true, Bool.not_eq_true', Bool.or_eq_false_iff,
    decide_eq_false_iff_not, not_lt] at h
  exact h.1.2

theorem length_tables : ∀ t ∈ tables, (utf8 t).length < 256 ^ 4 := by decide

theorem fits_of_validContext {ctx : Context} (h : validContext ctx = true) : ctx.Fits := by
  simp only [validContext, Bool.and_eq_true, Bool.not_eq_true', Bool.or_eq_false_iff,
    decide_eq_false_iff_not, decide_eq_true_eq, not_lt, not_le, ne_eq, not_not] at h
  obtain ⟨⟨⟨⟨⟨⟨⟨hscope, hobject⟩, -⟩, hpos⟩, hmax⟩, htable⟩, -⟩, -⟩ := h
  refine ⟨by omega, length_tables _ htable, by omega, by omega⟩

theorem ready_eq_true (b : Box) : b.ready = true := b.active_mem

theorem lookup_active (b : Box) : b.keys.lookup b.activeKeyID = some b.activeKey :=
  (Option.some_get b.active_mem).symm

end ProxyLoom.Secretbox
