import ProxyLoom.IR.Node

/-!
# Node patches

The typed merge of the node editing API. Endpoint, transport and features are replaced as a whole.
Credentials and security are merged field by field: an absent field is preserved, `null` clears it
and a value replaces it, and a changed kind or mode starts from an empty value.
-/

namespace ProxyLoom.APIContract

open IR

/-! ## Fields -/

/-- Leave a field, clear it or replace it. -/
inductive FieldPatch (α : Type) where
  | absent
  | clear
  | replace (value : α)
deriving DecidableEq, Repr

abbrev SecretPatch := FieldPatch Secret

abbrev OptionalStringPatch := FieldPatch String

def FieldPatch.present {α : Type} : FieldPatch α → Bool
  | .absent => false
  | _ => true

def FieldPatch.isNull {α : Type} : FieldPatch α → Bool
  | .clear => true
  | _ => false

/-- The secret a patch assigns; clearing assigns the empty one. -/
def SecretPatch.assigned : SecretPatch → Option Secret
  | .absent => none
  | .clear => some ""
  | .replace value => some value

def SecretPatch.apply (s : SecretPatch) (old : Secret) : Secret := (SecretPatch.assigned s).getD old

def OptionalStringPatch.assigned : OptionalStringPatch → Option (Option String)
  | .absent => none
  | .clear => some none
  | .replace value => some (some value)

def OptionalStringPatch.apply (p : OptionalStringPatch) (old : Option String) : Option String :=
  (OptionalStringPatch.assigned p).getD old

/-! ## Groups -/

/-- A patch of the credentials, of the kind they will have. -/
structure AuthPatch where
  kind : AuthKind
  method : Option ShadowsocksMethod
  cipher : Option VMessCipher
  password : SecretPatch
  uuid : SecretPatch
  username : SecretPatch
deriving DecidableEq, Repr

/-- A patch of the security, of the mode it will have. -/
structure SecurityPatch where
  mode : SecurityMode
  serverName : Option String
  verifyCertificate : Option Bool
  alpn : Option (List String)
  clientFingerprint : OptionalStringPatch
  publicKey : SecretPatch
  shortID : SecretPatch
deriving DecidableEq, Repr

inductive TransportKind where
  | nativeTCP | webSocket
deriving DecidableEq, Repr

structure TransportInput where
  kind : TransportKind
  path : Option String
  host : Option String
deriving DecidableEq, Repr

structure NodePatch where
  protocol : Option Protocol
  endpoint : Option Endpoint
  auth : Option AuthPatch
  transport : Option TransportInput
  security : Option SecurityPatch
  features : Option Features
deriving DecidableEq, Repr

/-- The method and password of a Shadowsocks credential, zero for any other kind. -/
def priorMethodPassword : Authentication → ShadowsocksMethod × Secret
  | .methodPassword method secret => (method, secret)
  | _ => (.unset, "")

def priorVMess : Authentication → Secret × VMessCipher
  | .vmess id cipher => (id, cipher)
  | _ => ("", .unset)

def priorUUID : Authentication → Secret
  | .uuid id => id
  | _ => ""

def priorPassword : Authentication → Secret
  | .password secret => secret
  | _ => ""

def priorUsernamePassword : Authentication → Secret × Secret
  | .usernamePassword name secret => (name, secret)
  | _ => ("", "")

/-- Credentials of another kind start out empty. -/
def AuthPatch.apply (patch : AuthPatch) (old : Authentication) : Authentication :=
  match patch.kind with
  | .none => .noAuth
  | .password => .password (SecretPatch.apply patch.password (priorPassword old))
  | .uuid => .uuid (SecretPatch.apply patch.uuid (priorUUID old))
  | .vmessAEAD =>
    .vmess (SecretPatch.apply patch.uuid (priorVMess old).1)
      (patch.cipher.getD (priorVMess old).2)
  | .methodPassword =>
    .methodPassword (patch.method.getD (priorMethodPassword old).1)
      (SecretPatch.apply patch.password (priorMethodPassword old).2)
  | .usernamePassword =>
    .usernamePassword (SecretPatch.apply patch.username (priorUsernamePassword old).1)
      (SecretPatch.apply patch.password (priorUsernamePassword old).2)

/-- The TLS settings of a node, empty for any other mode. -/
def priorTLS : Security → TLSSecurity
  | .tls t => t
  | _ => ⟨"", none, [], none⟩

def priorReality : Security → RealitySecurity
  | .reality r => r
  | _ => ⟨"", "", "", "", []⟩

/-- Security of another mode starts out empty. -/
def SecurityPatch.apply (patch : SecurityPatch) (old : Security) : Security :=
  match patch.mode with
  | .none => .noSecurity
  | .tls =>
    let next := priorTLS old
    .tls
      { serverName := patch.serverName.getD next.serverName
        verifyCertificate := patch.verifyCertificate.or next.verifyCertificate
        alpn := patch.alpn.getD next.alpn
        clientFingerprint := OptionalStringPatch.apply patch.clientFingerprint
          next.clientFingerprint }
  | .reality =>
    let next := priorReality old
    .reality
      { serverName := patch.serverName.getD next.serverName
        alpn := patch.alpn.getD next.alpn
        -- a cleared fingerprint is the empty one
        clientFingerprint := (OptionalStringPatch.apply patch.clientFingerprint
          (some next.clientFingerprint)).getD ""
        publicKey := SecretPatch.apply patch.publicKey next.publicKey
        shortID := SecretPatch.apply patch.shortID next.shortID }

def TransportInput.toTransport (t : TransportInput) : Transport :=
  match t.kind with
  | .nativeTCP => .nativeTCP
  | .webSocket => .webSocket (t.path.getD "") t.host

/-! ## The request schema -/

section
variable (formats : Formats)

def validSecretPatch (s : SecretPatch) : Bool :=
  match s with
  | .replace value => value.length ≤ 4096
  | _ => true

def validShortText (s : String) : Bool := validText s && s.length ≤ 200

/-- The `NodeAuthPatch` schema: a kind admits its own fields only. -/
def AuthPatch.validDTO (p : AuthPatch) : Bool :=
  let noMethod := p.method = none
  let noCipher := p.cipher = none
  match p.kind with
  | .methodPassword =>
    p.method ≠ some .unset && validSecretPatch p.password && noCipher && !p.uuid.present &&
      !p.username.present
  | .vmessAEAD =>
    p.cipher ≠ some .unset && validSecretPatch p.uuid && noMethod && !p.password.present &&
      !p.username.present
  | .uuid =>
    validSecretPatch p.uuid && noMethod && noCipher && !p.password.present && !p.username.present
  | .password =>
    validSecretPatch p.password && noMethod && noCipher && !p.uuid.present && !p.username.present
  | .usernamePassword =>
    validSecretPatch p.username && validSecretPatch p.password && noMethod && noCipher &&
      !p.uuid.present
  | .none => noMethod && noCipher && !p.password.present && !p.uuid.present && !p.username.present

def validFingerprintPatch (p : OptionalStringPatch) : Bool :=
  match p with
  | .replace value => validFingerprint value
  | _ => true

def validALPNPatch (alpn : List String) : Bool := alpn.length ≤ 16 && alpn.all validShortText

/-- The `NodeSecurityPatch` schema. -/
def SecurityPatch.validDTO (p : SecurityPatch) : Bool :=
  match p.mode with
  | .none =>
    p.serverName = none && p.verifyCertificate = none && p.alpn = none &&
      !p.clientFingerprint.present && !p.publicKey.present && !p.shortID.present
  | .tls =>
    p.serverName.all (validHost formats) && p.alpn.all validALPNPatch &&
      validFingerprintPatch p.clientFingerprint && !p.publicKey.present && !p.shortID.present
  | .reality =>
    p.serverName.all (validHost formats) && p.alpn.all validALPNPatch &&
      validFingerprintPatch p.clientFingerprint && p.verifyCertificate = none &&
      validSecretPatch p.publicKey && validSecretPatch p.shortID

def TransportInput.validDTO (t : TransportInput) : Bool :=
  match t.kind with
  | .nativeTCP => t.path = none && t.host = none
  | .webSocket =>
    t.path.any (fun p => validPath p && p.length ≤ 2048) && t.host.all (validHost formats)

def NodePatch.isEmpty (p : NodePatch) : Bool :=
  p.protocol.isNone && p.endpoint.isNone && p.auth.isNone && p.transport.isNone &&
    p.security.isNone && p.features.isNone

/-- `ValidateDTO("NodePatch", ·)`: at least one property, and each one well formed. -/
def NodePatch.validDTO (p : NodePatch) : Bool :=
  !p.isEmpty && p.endpoint.all (Endpoint.validate formats) && p.auth.all AuthPatch.validDTO &&
    p.transport.all (TransportInput.validDTO formats) &&
    p.security.all (SecurityPatch.validDTO formats)

/-! ## Applying a patch -/

inductive PatchError where
  /-- The patch does not match the request schema. -/
  | malformed
  /-- The node to be patched is not valid. -/
  | internalError
  | validationFailed (fieldPath : String)
  /-- The patched node is not valid. -/
  | invalidNode
deriving DecidableEq, Repr

/-- The fields that REALITY requires may not be cleared. -/
def SecurityPatch.clearsRequired (p : SecurityPatch) : Option String :=
  if p.mode = .reality ∧ p.shortID.isNull then some "/security/short_id"
  else if p.mode = .reality ∧ p.clientFingerprint.isNull then some "/security/client_fingerprint"
  else none

def NodePatch.patched (p : NodePatch) (old : Node) : Node :=
  { old with
    protocol := p.protocol.getD old.protocol
    endpoint := p.endpoint.getD old.endpoint
    auth := (p.auth.map (·.apply old.auth)).getD old.auth
    transport := (p.transport.map TransportInput.toTransport).getD old.transport
    security := (p.security.map (·.apply old.security)).getD old.security
    features := p.features.getD old.features }

/-- Patch a valid node into a valid node. -/
def NodePatch.apply (p : NodePatch) (old : Node) : Except PatchError Node :=
  if p.validDTO formats = false then .error .malformed
  else if old.validate formats = false then .error .internalError
  else
    match p.security.bind SecurityPatch.clearsRequired with
    | some path => .error (.validationFailed path)
    | none =>
      if (p.patched old).validate formats then .ok (p.patched old) else .error .invalidNode

theorem NodePatch.apply_eq_ok_iff (p : NodePatch) (old next : Node) :
    p.apply formats old = .ok next ↔
      p.validDTO formats = true ∧ old.validate formats = true ∧
        p.security.bind SecurityPatch.clearsRequired = none ∧
        next.validate formats = true ∧ p.patched old = next := by
  unfold NodePatch.apply
  by_cases hdto : p.validDTO formats = false
  · simp [hdto]
  by_cases hold : old.validate formats = false
  · simp [hdto, hold]
  rw [if_neg hdto, if_neg hold]
  cases hclear : p.security.bind SecurityPatch.clearsRequired with
  | some path => simp
  | none =>
    simp only [Bool.not_eq_false] at hdto hold
    split_ifs with hnext
    · simp only [hdto, hold, true_and, Except.ok.injEq]
      constructor
      · rintro rfl
        exact ⟨hnext, rfl⟩
      · exact fun h => h.2
    · simp only [hdto, hold, true_and, false_iff, not_and]
      rintro h rfl
      exact hnext h

end

end ProxyLoom.APIContract
