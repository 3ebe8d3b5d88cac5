import ProxyLoom.APIContract.NodePatch

/-!
# Stored overrides and their composition

A bound node is the source's node with a stored patch on top (`merge`). A further edit is first
combined with the stored patch (`combine`) and the result applied to the source's node again. The
edit's effect should be the one the node editing API gives it on the effective node.
-/

namespace ProxyLoom.Override

open IR APIContract Option

inductive OverrideError where
  | invalid
  | protocol
  | restore
  | patch (e : PatchError)
deriving DecidableEq, Repr

def schemaVersion : ℕ := 1

/-- The overrides of a node. -/
structure Document where
  schemaVersion : ℕ
  name : Option String
  node : Option NodePatch
deriving DecidableEq, Repr

def nodePatchEmpty (patch : Option NodePatch) : Bool := patch.all NodePatch.isEmpty

def Document.empty (d : Document) : Bool := d.name.isNone && nodePatchEmpty d.node

/-! ## The overridden fields -/

def authFields (a : AuthPatch) : List String :=
  ["/auth"] ++ (if a.password.present then ["/auth/password"] else []) ++
    (if a.uuid.present then ["/auth/uuid"] else []) ++
    (if a.username.present then ["/auth/username"] else []) ++
    (if a.method.isSome then ["/auth/method"] else []) ++
    (if a.cipher.isSome then ["/auth/cipher"] else [])

def securityFields (s : SecurityPatch) : List String :=
  ["/security"] ++ (if s.serverName.isSome then ["/security/server_name"] else []) ++
    (if s.verifyCertificate.isSome then ["/security/verify_certificate"] else []) ++
    (if s.alpn.isSome then ["/security/alpn"] else []) ++
    (if s.clientFingerprint.present then ["/security/client_fingerprint"] else []) ++
    (if s.publicKey.present then ["/security/public_key"] else []) ++
    (if s.shortID.present then ["/security/short_id"] else [])

def nodeFields (n : NodePatch) : List String :=
  (if n.protocol.isSome then ["/protocol"] else []) ++
    (if n.endpoint.isSome then ["/endpoint"] else []) ++ (n.auth.map authFields).getD [] ++
    (if n.transport.isSome then ["/transport"] else []) ++
    (n.security.map securityFields).getD [] ++ (if n.features.isSome then ["/features"] else [])

/-- The paths that are overridden, sorted. -/
def Document.fields (d : Document) : List String :=
  ((if d.name.isSome then ["/name"] else []) ++
    (d.node.map nodeFields).getD []).insertionSort (· ≤ ·)

/-! ## Merging, combining and restoring -/

section
variable (formats : Formats)

/-- The node of the source under its overrides. -/
def merge (base : Node) (baseName : String) (patch : Document) :
    Except OverrideError (Node × String × List String) :=
  if base.validate formats = false then .error .invalid
  else if (patch.node.bind NodePatch.protocol).isSome then .error .protocol
  else
    let next : Except OverrideError Node :=
      match patch.node with
      | some p =>
        if p.isEmpty then .ok base
        else
          match p.apply formats base with
          | .error e => .error (.patch e)
          | .ok merged => .ok { merged with origin := base.origin }
      | none => .ok base
    match next with
    | .error e => .error e
    | .ok next =>
      if next.validate formats then .ok (next, patch.name.getD baseName, patch.fields)
      else .error .invalid

end

/-- The patch that sets nothing. -/
def noPatch : NodePatch := ⟨none, none, none, none, none, none⟩

/-- The groups of the further patch, and those of the old one where it has none. -/
def combined (old add : NodePatch) : NodePatch :=
  { old with
    endpoint := add.endpoint.or old.endpoint
    auth := add.auth.or old.auth
    transport := add.transport.or old.transport
    security := add.security.or old.security
    features := add.features.or old.features }

/-- The stored patch with a further patch on top, group by group. -/
def mergeNodePatch (old : Option NodePatch) (add : NodePatch) :
    Except OverrideError (Option NodePatch) :=
  if add.protocol.isSome then .error .protocol
  else
    let next := combined (old.getD noPatch) add
    if next.isEmpty then .ok none else .ok (some next)

def Document.onNode (d : Document) (f : NodePatch → NodePatch) : Document :=
  { d with node := d.node.map f }

def Document.onAuth (d : Document) (f : AuthPatch → AuthPatch) : Document :=
  d.onNode fun n => { n with auth := n.auth.map f }

def Document.onSecurity (d : Document) (f : SecurityPatch → SecurityPatch) : Document :=
  d.onNode fun n => { n with security := n.security.map f }

/-- Drop an override. -/
def Document.restorePath (d : Document) (path : String) : Except OverrideError Document :=
  match path with
  | "/name" => .ok { d with name := none }
  | "/protocol" => .ok (d.onNode fun n => { n with protocol := none })
  | "/endpoint" => .ok (d.onNode fun n => { n with endpoint := none })
  | "/auth" => .ok (d.onNode fun n => { n with auth := none })
  | "/auth/password" => .ok (d.onAuth fun a => { a with password := .absent })
  | "/auth/uuid" => .ok (d.onAuth fun a => { a with uuid := .absent })
  | "/auth/username" => .ok (d.onAuth fun a => { a with username := .absent })
  | "/auth/method" => .ok (d.onAuth fun a => { a with method := none })
  | "/auth/cipher" => .ok (d.onAuth fun a => { a with cipher := none })
  | "/transport" => .ok (d.onNode fun n => { n with transport := none })
  | "/security" => .ok (d.onNode fun n => { n with security := none })
  | "/security/server_name" => .ok (d.onSecurity fun s => { s with serverName := none })
  | "/security/verify_certificate" =>
    .ok (d.onSecurity fun s => { s with verifyCertificate := none })
  | "/security/alpn" => .ok (d.onSecurity fun s => { s with alpn := none })
  | "/security/client_fingerprint" =>
    .ok (d.onSecurity fun s => { s with clientFingerprint := .absent })
  | "/security/public_key" => .ok (d.onSecurity fun s => { s with publicKey := .absent })
  | "/security/short_id" => .ok (d.onSecurity fun s => { s with shortID := .absent })
  | "/features" => .ok (d.onNode fun n => { n with features := none })
  | _ => .error .restore

def Document.restoreFrom : Document → List String → List String → Except OverrideError Document
  | d, _, [] => .ok (if nodePatchEmpty d.node then { d with node := none } else d)
  | d, seen, path :: paths =>
    if path = "" ∨ path ∈ seen then .error .restore
    else
      match d.restorePath path with
      | .error e => .error e
      | .ok d => d.restoreFrom (path :: seen) paths

def Document.restore (d : Document) (paths : List String) : Except OverrideError Document :=
  if paths = [] then .ok d else d.restoreFrom [] paths

/-- An edit on top of the stored overrides. -/
def combine (old : Document) (name : Option String) (node : Option NodePatch)
    (restore : List String) : Except OverrideError Document :=
  let next : Document :=
    { old with schemaVersion := Override.schemaVersion, name := name.or old.name }
  match node with
  | none => next.restore restore
  | some add =>
    match mergeNodePatch next.node add with
    | .error e => .error e
    | .ok merged => { next with node := merged }.restore restore

/-! ## Patches compose group by group -/

theorem eq_noPatch_of_isEmpty {p : NodePatch} (h : p.isEmpty = true) : p = noPatch := by
  obtain ⟨protocol, endpoint, auth, transport, security, features⟩ := p
  simpa [NodePatch.isEmpty, noPatch, and_assoc] using h

theorem patched_noPatch (n : Node) : noPatch.patched n = n := rfl

theorem combined_isEmpty (old : NodePatch) {add : NodePatch} (hadd : add.isEmpty = false)
    (hproto : add.protocol = none) : (combined old add).isEmpty = false := by
  obtain ⟨protocol, endpoint, auth, transport, security, features⟩ := add
  subst hproto
  cases endpoint <;> cases auth <;> cases transport <;> cases security <;> cases features <;>
    simp_all [NodePatch.isEmpty, combined]

theorem mergeNodePatch_eq {old : Option NodePatch} {add : NodePatch}
    (hadd : add.isEmpty = false) (hproto : add.protocol = none) :
    mergeNodePatch old add = .ok (some (combined (old.getD noPatch) add)) := by
  unfold mergeNodePatch
  simp only [hproto, isSome_none, Bool.false_eq_true, if_false,
    combined_isEmpty _ hadd hproto]

/-- A credential group that the second patch touches after the first one. -/
def AuthAgrees (base : Node) (old add : NodePatch) : Prop :=
  ∀ first second, old.auth = some first → add.auth = some second →
    second.apply base.auth = second.apply (first.apply base.auth)

def SecurityAgrees (base : Node) (old add : NodePatch) : Prop :=
  ∀ first second, old.security = some first → add.security = some second →
    second.apply base.security = second.apply (first.apply base.security)

/-- Applying the combined patch is applying one after the other, up to the two merged groups. -/
theorem patched_combined_iff (base : Node) (old add : NodePatch) (hproto : add.protocol = none) :
    (combined old add).patched base = add.patched (old.patched base) ↔
      AuthAgrees base old add ∧ SecurityAgrees base old add := by
  obtain ⟨protocol, endpoint, auth, transport, security, features⟩ := add
  obtain ⟨protocol', endpoint', auth', transport', security', features'⟩ := old
  subst hproto
  have hor : ∀ {α : Type} (x y : Option α) (z : α), (x.or y).getD z = x.getD (y.getD z) := by
    intro α x y z
    cases x <;> rfl
  have htransport : ((transport.or transport').map TransportInput.toTransport).getD base.transport =
      (transport.map TransportInput.toTransport).getD
        ((transport'.map TransportInput.toTransport).getD base.transport) := by
    cases transport <;> rfl
  simp only [NodePatch.patched, combined, hor, htransport, Node.mk.injEq, true_and, and_true,
    getD_none, AuthAgrees, SecurityAgrees]
  refine and_congr ?_ ?_
  · cases auth <;> cases auth' <;> simp
  · cases security <;> cases security' <;> simp

/-! ## When merging succeeds -/

section
variable (formats : Formats)

theorem apply_origin {p : NodePatch} {old next : Node} (h : p.apply formats old = .ok next) :
    next.origin = old.origin := by
  obtain ⟨-, -, -, -, rfl⟩ := (p.apply_eq_ok_iff formats old next).mp h
  rfl

theorem merge_eq_ok_iff (base : Node) (baseName : String) (d : Document) (node : Node)
    (name : String) (fields : List String) :
    merge formats base baseName d = .ok (node, name, fields) ↔
      base.validate formats = true ∧ d.node.bind NodePatch.protocol = none ∧
        ((nodePatchEmpty d.node = true ∧ node = base) ∨
          ∃ p, d.node = some p ∧ p.isEmpty = false ∧ p.apply formats base = .ok node) ∧
        name = d.name.getD baseName ∧ fields = d.fields := by
  unfold merge
  by_cases hbase : base.validate formats = false
  · simp [hbase]
  rw [if_neg hbase]
  rw [Bool.not_eq_false] at hbase
  cases hproto : d.node.bind NodePatch.protocol with
  | some protocol => simp
  | none =>
    simp only [isSome_none, Bool.false_eq_true, if_false, hbase, true_and]
    cases hnode : d.node with
    | none =>
      simp only [hbase, if_true, nodePatchEmpty, all_none, true_and, reduceCtorEq,
        false_and, exists_false, or_false, Except.ok.injEq, Prod.mk.injEq]
      tauto
    | some p =>
      cases hempty : p.isEmpty with
      | true =>
        simp only [if_true, hbase, nodePatchEmpty, all_some, hempty, true_and,
          Option.some.injEq, exists_eq_left', Bool.true_eq_false, false_and, or_false,
          Except.ok.injEq, Prod.mk.injEq]
        tauto
      | false =>
        simp only [Bool.false_eq_true, if_false, nodePatchEmpty, all_some, hempty,
          false_and, false_or, Option.some.injEq, exists_eq_left', true_and]
        cases happly : p.apply formats base with
        | error e => simp
        | ok merged =>
          have horigin := apply_origin formats happly
          have hvalid := ((p.apply_eq_ok_iff formats base merged).mp happly).2.2.2.1
          rw [← horigin]
          simp only [hvalid, if_true, Except.ok.injEq, Prod.mk.injEq]
          tauto

end

/-! ## Fields that an edit leaves alone -/

/-- A field of a group that both patches touch. `base` is the source's value of the field for the
edit's kind, `stored` and `new` are what the stored patch and the edit assign to it, and `same`
says that the stored patch has the edit's kind. If the edit leaves the field alone then the stored
patch has not changed it. -/
def Kept {α : Type} (same : Bool) (zero base : α) (stored new : Option α) : Prop :=
  new = none → (if same then stored.getD base else zero) = base

theorem getD_eq_iff_kept {α : Type} (same : Bool) (zero base : α) (stored new : Option α) :
    new.getD base = new.getD (if same then stored.getD base else zero) ↔
      Kept same zero base stored new := by
  unfold Kept
  cases new with
  | none =>
    simp only [getD_none, forall_const]
    exact eq_comm
  | some v => simp

/-- No credential field that `add` leaves alone was changed by `old`. -/
def AuthKept (base : Authentication) (old add : AuthPatch) : Prop :=
  let same := old.kind = add.kind
  match add.kind with
  | .none => True
  | .password =>
    Kept same "" (priorPassword base) (SecretPatch.assigned old.password)
      (SecretPatch.assigned add.password)
  | .uuid =>
    Kept same "" (priorUUID base) (SecretPatch.assigned old.uuid) (SecretPatch.assigned add.uuid)
  | .vmessAEAD =>
    Kept same "" (priorVMess base).1 (SecretPatch.assigned old.uuid)
        (SecretPatch.assigned add.uuid) ∧
      Kept same .unset (priorVMess base).2 old.cipher add.cipher
  | .methodPassword =>
    Kept same .unset (priorMethodPassword base).1 old.method add.method ∧
      Kept same "" (priorMethodPassword base).2 (SecretPatch.assigned old.password)
        (SecretPatch.assigned add.password)
  | .usernamePassword =>
    Kept same "" (priorUsernamePassword base).1 (SecretPatch.assigned old.username)
        (SecretPatch.assigned add.username) ∧
      Kept same "" (priorUsernamePassword base).2 (SecretPatch.assigned old.password)
        (SecretPatch.assigned add.password)

theorem apply_apply_auth_iff (base : Authentication) (old add : AuthPatch) :
    add.apply base = add.apply (old.apply base) ↔ AuthKept base old add := by
  unfold AuthKept
  cases hadd : add.kind with
  | none => simp [AuthPatch.apply, hadd]
  | password =>
    have hprior : priorPassword (old.apply base) =
        if (decide (old.kind = .password)) = true then
          (SecretPatch.assigned old.password).getD (priorPassword base) else "" := by
      cases hold : old.kind <;> simp [AuthPatch.apply, hold, priorPassword, SecretPatch.apply]
    generalize old.apply base = after at hprior ⊢
    simp only [AuthPatch.apply, hadd, SecretPatch.apply, Authentication.password.injEq, hprior,
      getD_eq_iff_kept]
  | uuid =>
    have hprior : priorUUID (old.apply base) =
        if (decide (old.kind = .uuid)) = true then
          (SecretPatch.assigned old.uuid).getD (priorUUID base) else "" := by
      cases hold : old.kind <;> simp [AuthPatch.apply, hold, priorUUID, SecretPatch.apply]
    generalize old.apply base = after at hprior ⊢
    simp only [AuthPatch.apply, hadd, SecretPatch.apply, Authentication.uuid.injEq, hprior,
      getD_eq_iff_kept]
  | vmessAEAD =>
    have hprior : priorVMess (old.apply base) =
        (if (decide (old.kind = .vmessAEAD)) = true then
          (SecretPatch.assigned old.uuid).getD (priorVMess base).1 else "",
        if (decide (old.kind = .vmessAEAD)) = true then
          old.cipher.getD (priorVMess base).2 else .unset) := by
      cases hold : old.kind <;> simp [AuthPatch.apply, hold, priorVMess, SecretPatch.apply]
    generalize old.apply base = after at hprior ⊢
    simp only [AuthPatch.apply, hadd, SecretPatch.apply, Authentication.vmess.injEq, hprior,
      getD_eq_iff_kept]
  | methodPassword =>
    have hprior : priorMethodPassword (old.apply base) =
        (if (decide (old.kind = .methodPassword)) = true then
          old.method.getD (priorMethodPassword base).1 else .unset,
        if (decide (old.kind = .methodPassword)) = true then
          (SecretPatch.assigned old.password).getD (priorMethodPassword base).2 else "") := by
      cases hold : old.kind <;>
        simp [AuthPatch.apply, hold, priorMethodPassword, SecretPatch.apply]
    generalize old.apply base = after at hprior ⊢
    simp only [AuthPatch.apply, hadd, SecretPatch.apply, Authentication.methodPassword.injEq,
      hprior, getD_eq_iff_kept]
  | usernamePassword =>
    have hprior : priorUsernamePassword (old.apply base) =
        (if (decide (old.kind = .usernamePassword)) = true then
          (SecretPatch.assigned old.username).getD (priorUsernamePassword base).1 else "",
        if (decide (old.kind = .usernamePassword)) = true then
          (SecretPatch.assigned old.password).getD (priorUsernamePassword base).2 else "") := by
      cases hold : old.kind <;>
        simp [AuthPatch.apply, hold, priorUsernamePassword, SecretPatch.apply]
    generalize old.apply base = after at hprior ⊢
    simp only [AuthPatch.apply, hadd, SecretPatch.apply, Authentication.usernamePassword.injEq,
      hprior, getD_eq_iff_kept]

/-- No security field that `add` leaves alone was changed by `old`. -/
def SecurityKept (base : Security) (old add : SecurityPatch) : Prop :=
  let same := old.mode = add.mode
  match add.mode with
  | .none => True
  | .tls =>
    Kept same "" (priorTLS base).serverName old.serverName add.serverName ∧
      Kept same none (priorTLS base).verifyCertificate (old.verifyCertificate.map some)
        (add.verifyCertificate.map some) ∧
      Kept same [] (priorTLS base).alpn old.alpn add.alpn ∧
      Kept same none (priorTLS base).clientFingerprint
        (OptionalStringPatch.assigned old.clientFingerprint)
        (OptionalStringPatch.assigned add.clientFingerprint)
  | .reality =>
    Kept same "" (priorReality base).serverName old.serverName add.serverName ∧
      Kept same "" (priorReality base).publicKey (SecretPatch.assigned old.publicKey)
        (SecretPatch.assigned add.publicKey) ∧
      Kept same "" (priorReality base).shortID (SecretPatch.assigned old.shortID)
        (SecretPatch.assigned add.shortID) ∧
      Kept same "" (priorReality base).clientFingerprint
        (SecretPatch.assigned old.clientFingerprint)
        (SecretPatch.assigned add.clientFingerprint) ∧
      Kept same [] (priorReality base).alpn old.alpn add.alpn

theorem or_eq_getD_map_some {α : Type} (x y : Option α) : x.or y = (x.map some).getD y := by
  cases x <;> rfl

theorem fingerprint_eq_secret (p : OptionalStringPatch) (old : String) :
    (OptionalStringPatch.apply p (some old)).getD "" = (SecretPatch.assigned p).getD old := by
  cases p <;> rfl

theorem apply_apply_security_iff (base : Security) (old add : SecurityPatch) :
    add.apply base = add.apply (old.apply base) ↔ SecurityKept base old add := by
  unfold SecurityKept
  cases hadd : add.mode with
  | none => simp [SecurityPatch.apply, hadd]
  | tls =>
    have hprior : priorTLS (old.apply base) =
        ⟨if (decide (old.mode = .tls)) = true then
            old.serverName.getD (priorTLS base).serverName else "",
          if (decide (old.mode = .tls)) = true then
            (old.verifyCertificate.map some).getD (priorTLS base).verifyCertificate else none,
          if (decide (old.mode = .tls)) = true then
            old.alpn.getD (priorTLS base).alpn else [],
          if (decide (old.mode = .tls)) = true then
            (OptionalStringPatch.assigned old.clientFingerprint).getD
              (priorTLS base).clientFingerprint else none⟩ := by
      cases hold : old.mode <;>
        simp [SecurityPatch.apply, hold, priorTLS, OptionalStringPatch.apply, or_eq_getD_map_some]
    generalize old.apply base = after at hprior ⊢
    simp only [SecurityPatch.apply, hadd, OptionalStringPatch.apply, Security.tls.injEq,
      TLSSecurity.mk.injEq, or_eq_getD_map_some, hprior, getD_eq_iff_kept]
  | reality =>
    have hprior : priorReality (old.apply base) =
        ⟨if (decide (old.mode = .reality)) = true then
            old.serverName.getD (priorReality base).serverName else "",
          if (decide (old.mode = .reality)) = true then
            (SecretPatch.assigned old.publicKey).getD (priorReality base).publicKey else "",
          if (decide (old.mode = .reality)) = true then
            (SecretPatch.assigned old.shortID).getD (priorReality base).shortID else "",
          if (decide (old.mode = .reality)) = true then
            (SecretPatch.assigned old.clientFingerprint).getD
              (priorReality base).clientFingerprint else "",
          if (decide (old.mode = .reality)) = true then
            old.alpn.getD (priorReality base).alpn else []⟩ := by
      cases hold : old.mode <;>
        simp [SecurityPatch.apply, hold, priorReality, SecretPatch.apply, fingerprint_eq_secret]
    generalize old.apply base = after at hprior ⊢
    simp only [SecurityPatch.apply, hadd, SecretPatch.apply, fingerprint_eq_secret,
      Security.reality.injEq, RealitySecurity.mk.injEq, hprior, getD_eq_iff_kept]

/-! ## Combining is applying one edit after the other -/

/-- In each group that both the stored document and the edit touch, the stored patch has not
changed a field that the edit leaves alone. -/
def OverridesKept (base : Node) (old : Document) (add : NodePatch) : Prop :=
  ∀ stored, old.node = some stored →
    (∀ first second, stored.auth = some first → add.auth = some second →
      AuthKept base.auth first second) ∧
    ∀ first second, stored.security = some first → add.security = some second →
      SecurityKept base.security first second

theorem overridesKept_iff (base : Node) (old : Document) (add : NodePatch) :
    OverridesKept base old add ↔
      AuthAgrees base (old.node.getD noPatch) add ∧
        SecurityAgrees base (old.node.getD noPatch) add := by
  unfold OverridesKept AuthAgrees SecurityAgrees
  cases old.node with
  | none => simp [noPatch]
  | some stored =>
    simp only [Option.some.injEq, forall_eq', getD_some, apply_apply_auth_iff,
      apply_apply_security_iff]

section
variable (formats : Formats)

/-- Whether or not the stored patch is empty, the effective node is the patched one, and every
group of the stored patch passed its checks. -/
theorem patched_of_merge {base merged : Node} {baseName name : String} {d : Document}
    {fields : List String} (h : merge formats base baseName d = .ok (merged, name, fields)) :
    (d.node.getD noPatch).patched base = merged ∧ (d.node.getD noPatch).protocol = none ∧
      (d.node.getD noPatch = noPatch ∨ (d.node.getD noPatch).validDTO formats = true) ∧
      (d.node.getD noPatch).security.bind SecurityPatch.clearsRequired = none := by
  obtain ⟨-, hproto, hnode, -, -⟩ := (merge_eq_ok_iff formats _ _ _ _ _ _).mp h
  rcases hnode with ⟨hempty, rfl⟩ | ⟨p, hp, -, happly⟩
  · have hno : d.node.getD noPatch = noPatch := by
      cases hn : d.node with
      | none => rfl
      | some p =>
        rw [hn] at hempty
        exact eq_noPatch_of_isEmpty hempty
    rw [hno]
    exact ⟨patched_noPatch _, rfl, Or.inl rfl, rfl⟩
  · obtain ⟨hdto, -, hclear, -, hpatched⟩ := (p.apply_eq_ok_iff formats _ _).mp happly
    rw [hp] at hproto ⊢
    exact ⟨hpatched, hproto, Or.inr hdto, hclear⟩

theorem combined_validDTO {old add : NodePatch} (hproto : add.protocol = none)
    (hold : old = noPatch ∨ old.validDTO formats = true)
    (hadd : add.validDTO formats = true) : (combined old add).validDTO formats = true := by
  have hor : ∀ {α : Type} (f : α → Bool) (x y : Option α), x.all f = true → y.all f = true →
      (x.or y).all f = true := by
    intro α f x y hx hy
    cases x with
    | none => exact hy
    | some v => exact hx
  have hparts : old.endpoint.all (Endpoint.validate formats) = true ∧
      old.auth.all AuthPatch.validDTO = true ∧
      old.transport.all (TransportInput.validDTO formats) = true ∧
      old.security.all (SecurityPatch.validDTO formats) = true := by
    rcases hold with rfl | hold
    · exact ⟨rfl, rfl, rfl, rfl⟩
    · simp only [NodePatch.validDTO, Bool.and_eq_true] at hold
      exact ⟨hold.1.1.1.2, hold.1.1.2, hold.1.2, hold.2⟩
  obtain ⟨he, ha, ht, hs⟩ := hparts
  simp only [NodePatch.validDTO, Bool.and_eq_true, Bool.not_eq_true'] at hadd ⊢
  obtain ⟨⟨⟨⟨hne, he'⟩, ha'⟩, ht'⟩, hs'⟩ := hadd
  exact ⟨⟨⟨⟨combined_isEmpty _ hne hproto, hor _ _ _ he' he⟩, hor _ _ _ ha' ha⟩,
    hor _ _ _ ht' ht⟩, hor _ _ _ hs' hs⟩

theorem combined_clearsRequired {old add : NodePatch}
    (hold : old.security.bind SecurityPatch.clearsRequired = none)
    (hadd : add.security.bind SecurityPatch.clearsRequired = none) :
    (combined old add).security.bind SecurityPatch.clearsRequired = none := by
  unfold combined
  cases h : add.security with
  | none => simpa using hold
  | some s => simpa [h] using hadd

/-- **Composition of overrides.** Suppose the stored document merges and the edit applies to the
effective node. Then combining the two and merging again gives the edited node, under the new name
if there is one, if and only if no field that the edit leaves alone, in a group it touches, was
changed by the stored document. -/
theorem combine_composes_iff {base merged next : Node} {baseName mergedName : String}
    {old : Document} {fields : List String} {name : Option String} {add : NodePatch}
    (hold : merge formats base baseName old = .ok (merged, mergedName, fields))
    (hproto : add.protocol = none) (hadd : add.apply formats merged = .ok next) :
    (∃ doc fields', combine old name (some add) [] = .ok doc ∧
      merge formats base baseName doc = .ok (next, name.getD mergedName, fields')) ↔
      OverridesKept base old add := by
  obtain ⟨hpatched, hproto', hdto', hclear'⟩ := patched_of_merge formats hold
  obtain ⟨hbase, -, -, hname, -⟩ := (merge_eq_ok_iff formats _ _ _ _ _ _).mp hold
  obtain ⟨hdto, -, hclear, hvalid, hnext⟩ := (add.apply_eq_ok_iff formats _ _).mp hadd
  have hne : add.isEmpty = false := by
    simp only [NodePatch.validDTO, Bool.and_eq_true, Bool.not_eq_true'] at hdto
    exact hdto.1.1.1.1
  set stored := old.node.getD noPatch with hstored
  have hcombine : combine old name (some add) [] =
      .ok ⟨Override.schemaVersion, name.or old.name, some (combined stored add)⟩ := by
    simp only [combine, mergeNodePatch_eq hne hproto, Document.restore, if_true, hstored]
  have hname' : (name.or old.name).getD baseName = name.getD mergedName := by
    rw [hname]
    cases name <;> rfl
  rw [overridesKept_iff, ← hstored, ← patched_combined_iff base stored add hproto, hpatched, hnext]
  constructor
  · rintro ⟨doc, fields', hdoc, hmerge⟩
    rw [hcombine] at hdoc
    cases hdoc
    obtain ⟨-, -, hnode, -, -⟩ := (merge_eq_ok_iff formats _ _ _ _ _ _).mp hmerge
    rcases hnode with ⟨hempty, -⟩ | ⟨p, hp, -, happly⟩
    · -- the combined patch is never empty
      have := combined_isEmpty stored hne hproto
      simp only [nodePatchEmpty, all_some, this, Bool.false_eq_true] at hempty
    · cases hp
      exact ((combined stored add).apply_eq_ok_iff formats _ _ |>.mp happly).2.2.2.2
  · intro heq
    refine ⟨_, _, hcombine, (merge_eq_ok_iff formats _ _ _ _ _ _).mpr
      ⟨hbase, hproto', Or.inr ⟨_, rfl, combined_isEmpty _ hne hproto, ?_⟩, hname'.symm, rfl⟩⟩
    exact ((combined stored add).apply_eq_ok_iff formats _ _).mpr
      ⟨combined_validDTO formats hproto hdto' hdto, hbase,
        combined_clearsRequired hclear' hclear, hvalid, heq⟩

end

/-! ## A stored username that an edit undoes -/

def plainFormats : Formats where
  hostname s := s.toList.all fun c => Text.isLower c || Text.isDigit c || c == '.' || c == '-'
  ipv4 _ := false
  ipv6 _ := false

def socksNode : Node :=
  ⟨1, .socks5, ⟨"proxy.example", 1080⟩, .usernamePassword "source-user" "source-pass", .nativeTCP,
    .noSecurity, ⟨none, none, none⟩, none⟩

def usernameOverride : Document :=
  ⟨1, none, some { noPatch with
    auth := some ⟨.usernamePassword, none, none, .absent, .absent, .replace "own-user"⟩ }⟩

def endpointOverride : Document :=
  ⟨1, none, some { noPatch with endpoint := some ⟨"own.example", 1081⟩ }⟩

def passwordEdit : NodePatch :=
  { noPatch with
    auth := some ⟨.usernamePassword, none, none, .replace "own-pass", .absent, .absent⟩ }

/-- The edit of the password alone does not give the edited node: it brings the source's username
back. -/
theorem combine_drops_username :
    merge plainFormats socksNode "proxy" usernameOverride = .ok
        ({ socksNode with auth := .usernamePassword "own-user" "source-pass" }, "proxy",
          ["/auth", "/auth/username"]) ∧
      passwordEdit.apply plainFormats
          { socksNode with auth := .usernamePassword "own-user" "source-pass" } =
        .ok { socksNode with auth := .usernamePassword "own-user" "own-pass" } ∧
      ¬ ∃ doc fields, combine usernameOverride none (some passwordEdit) [] = .ok doc ∧
        merge plainFormats socksNode "proxy" doc = .ok
          ({ socksNode with auth := .usernamePassword "own-user" "own-pass" }, "proxy",
            fields) := by
  refine ⟨by decide, by decide, ?_⟩
  rintro ⟨doc, fields, hdoc, hmerge⟩
  have hcombine : combine usernameOverride none (some passwordEdit) [] =
      .ok ⟨1, none, some passwordEdit⟩ := by decide
  have hsource : merge plainFormats socksNode "proxy" ⟨1, none, some passwordEdit⟩ = .ok
      ({ socksNode with auth := .usernamePassword "source-user" "own-pass" }, "proxy",
        ["/auth", "/auth/password"]) := by decide
  rw [hcombine] at hdoc
  cases hdoc
  rw [hsource] at hmerge
  simp at hmerge

theorem combine_keeps_endpoint :
    ∃ doc fields, combine endpointOverride none (some passwordEdit) [] = .ok doc ∧
      merge plainFormats socksNode "proxy" doc = .ok
        ({ socksNode with
            endpoint := ⟨"own.example", 1081⟩
            auth := .usernamePassword "source-user" "own-pass" }, "proxy", fields) := by
  have hold : merge plainFormats socksNode "proxy" endpointOverride = .ok
      ({ socksNode with endpoint := ⟨"own.example", 1081⟩ }, "proxy", ["/endpoint"]) := by
    decide
  refine (combine_composes_iff plainFormats hold rfl (by decide)).mpr ?_
  intro stored hstored
  cases hstored
  constructor
  · intro first second h
    cases h
  · intro first second h
    cases h

end ProxyLoom.Override
