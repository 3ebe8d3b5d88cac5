import ProxyLoom.APIContract.NodePatch

/-!
# What a patch touches

The fields of a node that a patch can name, read out of a node one by one.

1. A patch is idempotent: on a node it has already been applied to it changes nothing.
2. A field that the patch does not name keeps its value, as long as the kind of the credentials or
   the mode of the security it belongs to stays the same.
-/

namespace ProxyLoom.APIContract

open IR Option

/-! ## The patchable fields -/

/-- A field of a node, or a group of fields, that a patch may name. -/
inductive Path where
  | protocol | endpoint
  | auth | password | uuid | username | method | cipher
  | transport
  | security | serverName | verifyCertificate | alpn | clientFingerprint | publicKey | shortID
  | features
deriving DecidableEq, Repr

namespace Path

def inAuth : Path → Bool
  | .password | .uuid | .username | .method | .cipher => true
  | _ => false

def inSecurity : Path → Bool
  | .serverName | .verifyCertificate | .alpn | .clientFingerprint | .publicKey | .shortID => true
  | _ => false

end Path

inductive FieldContent where
  | protocol (p : Protocol)
  | endpoint (e : Endpoint)
  | auth (a : Authentication)
  | transport (t : Transport)
  | security (s : Security)
  | features (f : Features)
  | text (s : String)
  | texts (l : List String)
  | flag (b : Bool)
  | method (m : ShadowsocksMethod)
  | cipher (c : VMessCipher)
deriving DecidableEq, Repr

/-- A field of the credentials; `none` where the kind has no such field. -/
def authContent (a : Authentication) (path : Path) : Option FieldContent :=
  match a, path with
  | .methodPassword m _, .method => some (.method m)
  | .methodPassword _ s, .password => some (.text s)
  | .vmess id _, .uuid => some (.text id)
  | .vmess _ c, .cipher => some (.cipher c)
  | .uuid id, .uuid => some (.text id)
  | .password s, .password => some (.text s)
  | .usernamePassword name _, .username => some (.text name)
  | .usernamePassword _ s, .password => some (.text s)
  | _, _ => none

/-- A field of the security settings; `none` where the mode has no such field or it is unset. -/
def securityContent (s : Security) (path : Path) : Option FieldContent :=
  match s, path with
  | .tls t, .serverName => some (.text t.serverName)
  | .tls t, .verifyCertificate => t.verifyCertificate.map .flag
  | .tls t, .alpn => some (.texts t.alpn)
  | .tls t, .clientFingerprint => t.clientFingerprint.map .text
  | .reality r, .serverName => some (.text r.serverName)
  | .reality r, .alpn => some (.texts r.alpn)
  | .reality r, .clientFingerprint => some (.text r.clientFingerprint)
  | .reality r, .publicKey => some (.text r.publicKey)
  | .reality r, .shortID => some (.text r.shortID)
  | _, _ => none

def content (n : Node) (path : Path) : Option FieldContent :=
  match path with
  | .protocol => some (.protocol n.protocol)
  | .endpoint => some (.endpoint n.endpoint)
  | .auth => some (.auth n.auth)
  | .transport => some (.transport n.transport)
  | .security => some (.security n.security)
  | .features => some (.features n.features)
  | path => if path.inAuth then authContent n.auth path else securityContent n.security path

def AuthPatch.mentions (a : AuthPatch) : Path → Bool
  | .password => a.password.present
  | .uuid => a.uuid.present
  | .username => a.username.present
  | .method => a.method.isSome
  | .cipher => a.cipher.isSome
  | _ => false

def SecurityPatch.mentions (s : SecurityPatch) : Path → Bool
  | .serverName => s.serverName.isSome
  | .verifyCertificate => s.verifyCertificate.isSome
  | .alpn => s.alpn.isSome
  | .clientFingerprint => s.clientFingerprint.present
  | .publicKey => s.publicKey.present
  | .shortID => s.shortID.present
  | _ => false

def NodePatch.mentions (p : NodePatch) (path : Path) : Bool :=
  match path with
  | .protocol => p.protocol.isSome
  | .endpoint => p.endpoint.isSome
  | .auth => p.auth.isSome
  | .transport => p.transport.isSome
  | .security => p.security.isSome
  | .features => p.features.isSome
  | path => p.auth.any (·.mentions path) || p.security.any (·.mentions path)

/-! ## Applying a patch twice -/

theorem getD_getD_self {α : Type} (x : Option α) (y : α) : x.getD (x.getD y) = x.getD y := by
  cases x <;> rfl

theorem or_or_self {α : Type} (x y : Option α) : x.or (x.or y) = x.or y := by
  cases x <;> rfl

theorem SecretPatch.apply_apply (s : SecretPatch) (old : Secret) :
    SecretPatch.apply s (SecretPatch.apply s old) = SecretPatch.apply s old :=
  getD_getD_self _ old

theorem OptionalStringPatch.apply_apply (p : OptionalStringPatch) (old : Option String) :
    OptionalStringPatch.apply p (OptionalStringPatch.apply p old) =
      OptionalStringPatch.apply p old :=
  getD_getD_self _ old

/-- The REALITY fingerprint is mandatory, so a cleared one becomes empty and stays so. -/
theorem fingerprint_apply_apply (p : OptionalStringPatch) (old : String) :
    (OptionalStringPatch.apply p (some ((OptionalStringPatch.apply p (some old)).getD ""))).getD ""
      = (OptionalStringPatch.apply p (some old)).getD "" := by
  cases p <;> rfl

theorem AuthPatch.apply_apply (p : AuthPatch) (old : Authentication) :
    p.apply (p.apply old) = p.apply old := by
  cases hkind : p.kind <;>
    simp only [AuthPatch.apply, hkind, priorPassword, priorUUID, priorVMess, priorMethodPassword,
      priorUsernamePassword, SecretPatch.apply_apply, getD_getD_self]

theorem SecurityPatch.apply_apply (p : SecurityPatch) (old : Security) :
    p.apply (p.apply old) = p.apply old := by
  cases hmode : p.mode <;>
    simp only [SecurityPatch.apply, hmode, priorTLS, priorReality, SecretPatch.apply_apply,
      OptionalStringPatch.apply_apply, fingerprint_apply_apply, getD_getD_self, or_or_self]

theorem NodePatch.patched_patched (p : NodePatch) (n : Node) :
    p.patched (p.patched n) = p.patched n := by
  obtain ⟨protocol, endpoint, auth, transport, security, features⟩ := p
  have hauth : (auth.map (·.apply ((auth.map (·.apply n.auth)).getD n.auth))).getD
      ((auth.map (·.apply n.auth)).getD n.auth) = (auth.map (·.apply n.auth)).getD n.auth := by
    cases auth with
    | none => rfl
    | some a => exact a.apply_apply n.auth
  have hsecurity : (security.map (·.apply ((security.map (·.apply n.security)).getD
      n.security))).getD ((security.map (·.apply n.security)).getD n.security) =
      (security.map (·.apply n.security)).getD n.security := by
    cases security with
    | none => rfl
    | some s => exact s.apply_apply n.security
  simp only [NodePatch.patched, getD_getD_self, hauth, hsecurity]

/-! ## Fields that a patch leaves alone -/

theorem AuthPatch.apply_kind (p : AuthPatch) (old : Authentication) :
    (p.apply old).kind = p.kind := by
  cases hkind : p.kind <;> simp only [AuthPatch.apply, hkind, Authentication.kind]

theorem SecurityPatch.apply_mode (p : SecurityPatch) (old : Security) :
    (p.apply old).mode = p.mode := by
  cases hmode : p.mode <;> simp only [SecurityPatch.apply, hmode, Security.mode]

theorem SecretPatch.apply_of_absent {s : SecretPatch} (h : s.present = false) (old : Secret) :
    SecretPatch.apply s old = old := by
  cases s with
  | absent => rfl
  | clear => cases h
  | replace value => cases h

theorem OptionalStringPatch.apply_of_absent {p : OptionalStringPatch} (h : p.present = false)
    (old : Option String) : OptionalStringPatch.apply p old = old := by
  cases p with
  | absent => rfl
  | clear => cases h
  | replace value => cases h

variable {path : Path}

theorem authContent_apply {p : AuthPatch} {old : Authentication}
    (hkind : p.kind = old.kind) (h : p.mentions path = false) :
    authContent (p.apply old) path = authContent old path := by
  cases old <;> simp only [Authentication.kind] at hkind <;>
    simp only [AuthPatch.apply, hkind, priorPassword, priorUUID, priorVMess, priorMethodPassword,
      priorUsernamePassword] <;>
    cases path <;> simp_all [authContent, AuthPatch.mentions, SecretPatch.apply_of_absent]

theorem securityContent_apply {p : SecurityPatch} {old : Security}
    (hmode : p.mode = old.mode) (h : p.mentions path = false) :
    securityContent (p.apply old) path = securityContent old path := by
  cases old <;> simp only [Security.mode] at hmode <;>
    simp only [SecurityPatch.apply, hmode, priorTLS, priorReality] <;>
    cases path <;>
    simp_all [securityContent, SecurityPatch.mentions, SecretPatch.apply_of_absent,
      OptionalStringPatch.apply_of_absent]

/-- **Locality.** A path that the patch does not name holds what it held, provided that the kind or
the mode of the group it belongs to is unchanged. -/
theorem content_patched {p : NodePatch} {n : Node} (h : p.mentions path = false)
    (hkind : path.inAuth = true → (p.patched n).auth.kind = n.auth.kind)
    (hmode : path.inSecurity = true → (p.patched n).security.mode = n.security.mode) :
    content (p.patched n) path = content n path := by
  have hgroups : p.auth.any (·.mentions path) = false → p.security.any (·.mentions path) = false →
      (path.inAuth = true → authContent (p.patched n).auth path = authContent n.auth path) ∧
        (path.inSecurity = true →
          securityContent (p.patched n).security path = securityContent n.security path) := by
    intro ha hs
    constructor
    · intro hin
      specialize hkind hin
      cases hauth : p.auth with
      | none => simp only [NodePatch.patched, hauth, map_none, getD_none]
      | some a =>
        simp only [NodePatch.patched, hauth, map_some, getD_some,
          AuthPatch.apply_kind] at hkind ⊢
        exact authContent_apply hkind (by simpa [hauth] using ha)
    · intro hin
      specialize hmode hin
      cases hsecurity : p.security with
      | none => simp only [NodePatch.patched, hsecurity, map_none, getD_none]
      | some s =>
        simp only [NodePatch.patched, hsecurity, map_some, getD_some,
          SecurityPatch.apply_mode] at hmode ⊢
        exact securityContent_apply hmode (by simpa [hsecurity] using hs)
  cases path with
  | protocol | endpoint | auth | transport | security | features =>
    simp_all [content, NodePatch.patched, NodePatch.mentions]
  | password | uuid | username | method | cipher =>
    simp only [NodePatch.mentions, Bool.or_eq_false_iff] at h
    exact (hgroups h.1 h.2).1 rfl
  | serverName | verifyCertificate | alpn | clientFingerprint | publicKey | shortID =>
    simp only [NodePatch.mentions, Bool.or_eq_false_iff] at h
    exact (hgroups h.1 h.2).2 rfl

section
variable (formats : Formats)

theorem NodePatch.apply_again {p : NodePatch} {n next : Node}
    (h : p.apply formats n = .ok next) : p.apply formats next = .ok next := by
  obtain ⟨hdto, -, hclear, hvalid, rfl⟩ := (p.apply_eq_ok_iff formats n next).mp h
  exact (p.apply_eq_ok_iff formats _ _).mpr ⟨hdto, hvalid, hclear, hvalid, p.patched_patched n⟩

end

end ProxyLoom.APIContract
