import ProxyLoom.APIContract.PatchLaws
import ProxyLoom.Lib.Memory

/-!
# Patching a node in memory

A node is a record whose credentials, transport, security and optional values lie behind pointers.
`applyIn` is `Apply` with its allocations and the pointers it copies: a clone of the node, and one
new object for each group that the patch replaces or merges.

1. `applyIn` computes what `apply` computes, error or node.
2. It never writes to an object that existed before, so the patched node keeps its value.
-/

namespace ProxyLoom.APIContract

open IR Memory Option

/-! ## Layout -/

inductive Cell where
  | auth (a : Authentication)
  | nativeTCP
  | webSocket (path : String) (host : Option Addr)
  | noSecurity
  | tls (serverName : String) (verifyCertificate alpn clientFingerprint : Option Addr)
  | reality (serverName publicKey shortID clientFingerprint : String) (alpn : Option Addr)
  | text (s : String)
  | texts (l : List String)
  | flag (b : Bool)
  | variant (v : ProtocolVariant)
  | origin (o : Origin)
deriving DecidableEq, Repr

namespace Cell

def auth? : Cell → Option Authentication
  | .auth a => some a
  | _ => none

def text? : Cell → Option String
  | .text s => some s
  | _ => none

def texts? : Cell → Option (List String)
  | .texts l => some l
  | _ => none

def flag? : Cell → Option Bool
  | .flag b => some b
  | _ => none

def variant? : Cell → Option ProtocolVariant
  | .variant v => some v
  | _ => none

def origin? : Cell → Option Origin
  | .origin o => some o
  | _ => none

end Cell

structure FeaturesRef where
  udp : Option Addr
  multiplex : Option Addr
  protocolVariant : Option Addr
deriving DecidableEq, Repr

structure NodeRef where
  schemaVersion : ℕ
  protocol : Protocol
  endpoint : Endpoint
  auth : Addr
  transport : Addr
  security : Addr
  features : FeaturesRef
  origin : Option Addr
deriving DecidableEq, Repr

/-! ## Reading -/

/-- A slice; nil reads as the empty list. -/
def loadTexts (alpn : Option Addr) (m : Heap Cell) : Option (List String) :=
  (derefPointer Cell.texts? alpn m).map (·.getD [])

def loadTransport (a : Addr) (m : Heap Cell) : Option Transport :=
  m[a]?.bind fun
    | .nativeTCP => some .nativeTCP
    | .webSocket path host => (derefPointer Cell.text? host m).map (.webSocket path)
    | _ => none

def loadSecurity (a : Addr) (m : Heap Cell) : Option Security :=
  m[a]?.bind fun
    | .noSecurity => some .noSecurity
    | .tls serverName verify alpn fingerprint =>
      (derefPointer Cell.flag? verify m).bind fun verify =>
        (loadTexts alpn m).bind fun alpn =>
          (derefPointer Cell.text? fingerprint m).map fun fingerprint =>
            .tls ⟨serverName, verify, alpn, fingerprint⟩
    | .reality serverName publicKey shortID fingerprint alpn =>
      (loadTexts alpn m).map fun alpn =>
        .reality ⟨serverName, publicKey, shortID, fingerprint, alpn⟩
    | _ => none

def loadFeatures (f : FeaturesRef) (m : Heap Cell) : Option Features :=
  (derefPointer Cell.flag? f.udp m).bind fun udp =>
    (derefPointer Cell.flag? f.multiplex m).bind fun multiplex =>
      (derefPointer Cell.variant? f.protocolVariant m).map fun variant =>
        ⟨udp, multiplex, variant⟩

def loadNode (r : NodeRef) (m : Heap Cell) : Option Node :=
  (deref Cell.auth? r.auth m).bind fun auth =>
    (loadTransport r.transport m).bind fun transport =>
      (loadSecurity r.security m).bind fun security =>
        (loadFeatures r.features m).bind fun features =>
          (derefPointer Cell.origin? r.origin m).map fun origin =>
            ⟨r.schemaVersion, r.protocol, r.endpoint, auth, transport, security, features, origin⟩

theorem reads_loadTexts (alpn : Option Addr) : Reads (loadTexts alpn) :=
  (Reads.derefPointer _ alpn).map _

theorem reads_loadTransport (a : Addr) : Reads (loadTransport a) := by
  refine (Reads.cell a).bind fun c => ?_
  cases c with
  | webSocket path host => exact (Reads.derefPointer _ host).map _
  | _ => exact Reads.const _

theorem reads_loadSecurity (a : Addr) : Reads (loadSecurity a) := by
  refine (Reads.cell a).bind fun c => ?_
  cases c with
  | tls serverName verify alpn fingerprint =>
    exact (Reads.derefPointer _ verify).bind fun _ => (reads_loadTexts alpn).bind fun _ =>
      (Reads.derefPointer _ fingerprint).map _
  | reality serverName publicKey shortID fingerprint alpn => exact (reads_loadTexts alpn).map _
  | _ => exact Reads.const _

theorem reads_loadFeatures (f : FeaturesRef) : Reads (loadFeatures f) :=
  (Reads.derefPointer _ _).bind fun _ => (Reads.derefPointer _ _).bind fun _ =>
    (Reads.derefPointer _ _).map _

theorem reads_loadNode (r : NodeRef) : Reads (loadNode r) :=
  (Reads.deref _ _).bind fun _ => (reads_loadTransport _).bind fun _ =>
    (reads_loadSecurity _).bind fun _ => (reads_loadFeatures _).bind fun _ =>
      (Reads.derefPointer _ _).map _

theorem loadNode_eq_some_iff (r : NodeRef) (m : Heap Cell) (n : Node) :
    loadNode r m = some n ↔
      (r.schemaVersion = n.schemaVersion ∧ r.protocol = n.protocol ∧ r.endpoint = n.endpoint) ∧
        deref Cell.auth? r.auth m = some n.auth ∧ loadTransport r.transport m = some n.transport ∧
        loadSecurity r.security m = some n.security ∧
        loadFeatures r.features m = some n.features ∧
        derefPointer Cell.origin? r.origin m = some n.origin := by
  obtain ⟨version, protocol, endpoint, auth, transport, security, features, origin⟩ := n
  simp only [loadNode, bind_eq_some_iff, map_eq_some_iff, Node.mk.injEq]
  constructor
  · rintro ⟨a, ha, t, ht, s, hs, f, hf, o, ho, h1, h2, h3, rfl, rfl, rfl, rfl, rfl⟩
    exact ⟨⟨h1, h2, h3⟩, ha, ht, hs, hf, ho⟩
  · rintro ⟨⟨h1, h2, h3⟩, ha, ht, hs, hf, ho⟩
    exact ⟨_, ha, _, ht, _, hs, _, hf, _, ho, h1, h2, h3, rfl, rfl, rfl, rfl, rfl⟩

/-! ## The clone -/

/-- A decoded slice; an absent list stays nil. -/
def storeTexts : List String → Prog Cell (Option Addr)
  | [] => pure none
  | l => some <$> alloc (.texts l)

def storeTransport : Transport → Prog Cell Addr
  | .nativeTCP => alloc .nativeTCP
  | .webSocket path host => do
    let host ← clonePointer .text host
    alloc (.webSocket path host)

def storeSecurity : Security → Prog Cell Addr
  | .noSecurity => alloc .noSecurity
  | .tls t => do
    let verify ← clonePointer .flag t.verifyCertificate
    let alpn ← storeTexts t.alpn
    let fingerprint ← clonePointer .text t.clientFingerprint
    alloc (.tls t.serverName verify alpn fingerprint)
  | .reality r => do
    let alpn ← storeTexts r.alpn
    alloc (.reality r.serverName r.publicKey r.shortID r.clientFingerprint alpn)

def storeFeatures (f : Features) : Prog Cell FeaturesRef := do
  let udp ← clonePointer .flag f.udp
  let multiplex ← clonePointer .flag f.multiplex
  let variant ← clonePointer .variant f.protocolVariant
  pure ⟨udp, multiplex, variant⟩

def storeNode (n : Node) : Prog Cell NodeRef := do
  let auth ← alloc (.auth n.auth)
  let transport ← storeTransport n.transport
  let security ← storeSecurity n.security
  let features ← storeFeatures n.features
  let origin ← clonePointer .origin n.origin
  pure ⟨n.schemaVersion, n.protocol, n.endpoint, auth, transport, security, features, origin⟩

theorem storeTexts_load (l : List String) :
    Grows (fun _ => True) (storeTexts l) fun p m => loadTexts p m = some l := by
  cases l with
  | nil => exact Grows.pure fun _ _ => rfl
  | cons s l =>
    refine Grows.bind (alloc_deref Cell.texts? rfl) fun a => Grows.pure fun m h => ?_
    simp only [loadTexts, derefPointer, h, map_some, getD_some]

theorem storeTransport_load (t : Transport) :
    Grows (fun _ => True) (storeTransport t) fun a m => loadTransport a m = some t := by
  cases t with
  | nativeTCP =>
    refine (alloc_cell _).mono (fun _ h => h) fun a m h => ?_
    simp only [loadTransport, h, bind_some]
  | webSocket path host =>
    refine Grows.bind (clonePointer_deref Cell.text? .text (fun _ => rfl) host) fun p => ?_
    refine ((alloc_cell _).frame ((Reads.derefPointer Cell.text? p).stable host)).mono
      (fun _ h => ⟨trivial, h⟩) fun a m h => ?_
    simp only [loadTransport, h.1, h.2, bind_some, map_some]

theorem alloc_tls (t : TLSSecurity) {serverName : String} {verify alpn fingerprint : Option Addr}
    (hname : t.serverName = serverName) :
    Grows (fun m => derefPointer Cell.text? fingerprint m = some t.clientFingerprint ∧
        loadTexts alpn m = some t.alpn ∧
        derefPointer Cell.flag? verify m = some t.verifyCertificate)
      (alloc (.tls serverName verify alpn fingerprint))
      fun a m => loadSecurity a m = some (.tls t) := by
  have hstable := ((Reads.derefPointer Cell.text? fingerprint).stable t.clientFingerprint).and
    (((reads_loadTexts alpn).stable t.alpn).and
      ((Reads.derefPointer Cell.flag? verify).stable t.verifyCertificate))
  refine ((alloc_cell _).frame hstable).mono (fun _ h => ⟨trivial, h⟩) fun a m h => ?_
  obtain ⟨hcell, hfingerprint, halpn, hverify⟩ := h
  subst hname
  simp only [loadSecurity, hcell, hfingerprint, halpn, hverify, bind_some, map_some]

theorem alloc_reality (r : RealitySecurity) {alpn : Option Addr} :
    Grows (fun m => loadTexts alpn m = some r.alpn)
      (alloc (.reality r.serverName r.publicKey r.shortID r.clientFingerprint alpn))
      fun a m => loadSecurity a m = some (.reality r) := by
  refine ((alloc_cell _).frame ((reads_loadTexts alpn).stable r.alpn)).mono
    (fun _ h => ⟨trivial, h⟩) fun a m h => ?_
  simp only [loadSecurity, h.1, h.2, bind_some, map_some]

theorem alloc_noSecurity :
    Grows (fun _ => True) (alloc Cell.noSecurity) fun a m =>
      loadSecurity a m = some .noSecurity := by
  refine (alloc_cell _).mono (fun _ h => h) fun a m h => ?_
  simp only [loadSecurity, h, bind_some]

theorem storeSecurity_load (s : Security) :
    Grows (fun _ => True) (storeSecurity s) fun a m => loadSecurity a m = some s := by
  cases s with
  | noSecurity => exact alloc_noSecurity
  | tls t =>
    refine Grows.bind (clonePointer_deref Cell.flag? .flag (fun _ => rfl) t.verifyCertificate)
      fun verify => ?_
    refine Grows.seq ((Reads.derefPointer Cell.flag? verify).stable _) (storeTexts_load t.alpn)
      fun alpn => ?_
    refine Grows.seq (((reads_loadTexts alpn).stable _).and
      ((Reads.derefPointer Cell.flag? verify).stable _))
      (clonePointer_deref Cell.text? .text (fun _ => rfl) t.clientFingerprint) fun fingerprint => ?_
    exact alloc_tls t rfl
  | reality r =>
    exact Grows.bind (storeTexts_load r.alpn) fun alpn => alloc_reality r

theorem storeFeatures_load (f : Features) :
    Grows (fun _ => True) (storeFeatures f) fun a m => loadFeatures a m = some f := by
  refine Grows.bind (clonePointer_deref Cell.flag? .flag (fun _ => rfl) f.udp) fun udp => ?_
  have hudp := (Reads.derefPointer Cell.flag? udp).stable f.udp
  refine Grows.seq hudp (clonePointer_deref Cell.flag? .flag (fun _ => rfl) f.multiplex)
    fun multiplex => ?_
  have hboth := ((Reads.derefPointer Cell.flag? multiplex).stable f.multiplex).and hudp
  refine Grows.seq hboth (clonePointer_deref Cell.variant? .variant (fun _ => rfl)
    f.protocolVariant) fun variant => ?_
  refine Grows.pure fun m h => ?_
  simp only [loadFeatures, h.1, h.2.1, h.2.2, bind_some, map_some]

theorem storeNode_load (n : Node) :
    Grows (fun _ => True) (storeNode n) fun r m => loadNode r m = some n := by
  refine Grows.bind (alloc_deref Cell.auth? rfl) fun auth => ?_
  have h1 := (Reads.deref Cell.auth? auth).stable n.auth
  refine Grows.seq h1 (storeTransport_load n.transport) fun transport => ?_
  have h2 := ((reads_loadTransport transport).stable n.transport).and h1
  refine Grows.seq h2 (storeSecurity_load n.security) fun security => ?_
  have h3 := ((reads_loadSecurity security).stable n.security).and h2
  refine Grows.seq h3 (storeFeatures_load n.features) fun features => ?_
  have h4 := ((reads_loadFeatures features).stable n.features).and h3
  refine Grows.seq h4 (clonePointer_deref Cell.origin? .origin (fun _ => rfl) n.origin)
    fun origin => ?_
  refine Grows.pure fun m h => ?_
  obtain ⟨horigin, hfeatures, hsecurity, htransport, hauth⟩ := h
  exact (loadNode_eq_some_iff _ m n).mpr ⟨⟨rfl, rfl, rfl⟩, hauth, htransport, hsecurity,
    hfeatures, horigin⟩

/-! ## The patch -/

def AuthPatch.applyIn (p : AuthPatch) (old : Addr) : Prog Cell Addr := do
  match deref Cell.auth? old (← get) with
  | some prior => alloc (.auth (p.apply prior))
  | none => pure old

def OptionalStringPatch.applyIn (p : OptionalStringPatch) (old : Option Addr) :
    Prog Cell (Option Addr) := do
  match p with
  | .absent =>
    match derefPointer Cell.text? old (← get) with
    | some prior => clonePointer .text prior
    | none => pure none
  | .clear => pure none
  | .replace value => clonePointer .text (some value)

/-- The pointers of the TLS object at an address, all nil for any other object. -/
def priorTLSCell : Option Cell → String × Option Addr × Option Addr × Option Addr
  | some (.tls serverName verify alpn fingerprint) => (serverName, verify, alpn, fingerprint)
  | _ => ("", none, none, none)

def priorRealityCell : Option Cell → (String × String × String × String) × Option Addr
  | some (.reality serverName publicKey shortID fingerprint alpn) =>
    ((serverName, publicKey, shortID, fingerprint), alpn)
  | _ => (("", "", "", ""), none)

/-- A replaced flag is copied, a flag left alone is shared with the prior object. -/
def verifyIn (patch : Option Bool) (prior : Option Addr) : Prog Cell (Option Addr) :=
  match patch with
  | some verify => clonePointer .flag (some verify)
  | none => pure prior

def alpnIn (patch : Option (List String)) (prior : Option Addr) : Prog Cell (Option Addr) :=
  match patch with
  | some alpn => some <$> alloc (.texts alpn)
  | none => pure prior

def SecurityPatch.applyIn (p : SecurityPatch) (old : Addr) : Prog Cell Addr := do
  let cell := (← get)[old]?
  match p.mode with
  | .none => alloc .noSecurity
  | .tls =>
    let (serverName, verify, alpn, fingerprint) := priorTLSCell cell
    let verify ← verifyIn p.verifyCertificate verify
    let alpn ← alpnIn p.alpn alpn
    let fingerprint ← OptionalStringPatch.applyIn p.clientFingerprint fingerprint
    alloc (.tls (p.serverName.getD serverName) verify alpn fingerprint)
  | .reality =>
    let ((serverName, publicKey, shortID, fingerprint), alpn) := priorRealityCell cell
    let alpn ← alpnIn p.alpn alpn
    alloc (.reality (p.serverName.getD serverName) (SecretPatch.apply p.publicKey publicKey)
      (SecretPatch.apply p.shortID shortID)
      ((OptionalStringPatch.apply p.clientFingerprint (some fingerprint)).getD "") alpn)

/-! ## What the patched groups hold -/

theorem AuthPatch.applyIn_load (p : AuthPatch) (old : Addr) (prior : Authentication) :
    Grows (fun m => deref Cell.auth? old m = some prior) (p.applyIn old)
      fun a m => deref Cell.auth? a m = some (p.apply prior) := by
  refine Grows.get fun m hm => ?_
  simp only [hm]
  exact (alloc_deref Cell.auth? rfl).mono (fun _ _ => trivial) fun _ _ h => h

theorem OptionalStringPatch.applyIn_load (p : OptionalStringPatch) (old : Option Addr)
    (prior : Option String) :
    Grows (fun m => derefPointer Cell.text? old m = some prior)
      (OptionalStringPatch.applyIn p old)
      fun a m => derefPointer Cell.text? a m = some (OptionalStringPatch.apply p prior) := by
  cases p with
  | absent =>
    refine Grows.get fun m hm => ?_
    simp only [hm]
    exact (clonePointer_deref Cell.text? .text (fun _ => rfl) prior).mono (fun _ _ => trivial)
      fun _ _ h => h
  | clear => exact Grows.pure fun _ _ => rfl
  | replace value =>
    exact (clonePointer_deref Cell.text? .text (fun _ => rfl) (some value)).mono
      (fun _ _ => trivial) fun _ _ h => h

theorem alpnIn_load (patch : Option (List String)) (old : Option Addr) (prior : List String) :
    Grows (fun m => loadTexts old m = some prior) (alpnIn patch old)
      fun a m => loadTexts a m = some (patch.getD prior) := by
  cases patch with
  | none => exact Grows.pure fun _ h => h
  | some alpn =>
    refine Grows.bind ((alloc_deref Cell.texts? rfl).mono (fun _ _ => trivial) fun _ _ h => h)
      fun a => Grows.pure fun m h => ?_
    simp only [loadTexts, derefPointer, h, map_some, getD_some]

theorem verifyIn_load (patch : Option Bool) (old : Option Addr) (prior : Option Bool) :
    Grows (fun m => derefPointer Cell.flag? old m = some prior) (verifyIn patch old)
      fun a m => derefPointer Cell.flag? a m = some (patch.or prior) := by
  cases patch with
  | none => exact Grows.pure fun _ h => h
  | some verify =>
    exact (clonePointer_deref Cell.flag? .flag (fun _ => rfl) (some verify)).mono
      (fun _ _ => trivial) fun _ _ h => h

theorem priorTLSCell_load {old : Addr} {prior : Security} {m : Heap Cell}
    (h : loadSecurity old m = some prior) :
    (priorTLSCell m[old]?).1 = (priorTLS prior).serverName ∧
      derefPointer Cell.flag? (priorTLSCell m[old]?).2.1 m =
        some (priorTLS prior).verifyCertificate ∧
      loadTexts (priorTLSCell m[old]?).2.2.1 m = some (priorTLS prior).alpn ∧
      derefPointer Cell.text? (priorTLSCell m[old]?).2.2.2 m =
        some (priorTLS prior).clientFingerprint := by
  obtain ⟨c, hc, h⟩ := bind_eq_some_iff.mp h
  rw [hc]
  cases c with
  | tls serverName verify alpn fingerprint =>
    simp only [bind_eq_some_iff, map_eq_some_iff] at h
    obtain ⟨v, hv, l, hl, f, hf, rfl⟩ := h
    exact ⟨rfl, hv, hl, hf⟩
  | noSecurity =>
    cases h
    exact ⟨rfl, rfl, rfl, rfl⟩
  | reality serverName publicKey shortID fingerprint alpn =>
    obtain ⟨l, -, rfl⟩ := map_eq_some_iff.mp h
    exact ⟨rfl, rfl, rfl, rfl⟩
  | _ => cases h

theorem priorRealityCell_load {old : Addr} {prior : Security} {m : Heap Cell}
    (h : loadSecurity old m = some prior) :
    (priorRealityCell m[old]?).1 = ((priorReality prior).serverName, (priorReality prior).publicKey,
        (priorReality prior).shortID, (priorReality prior).clientFingerprint) ∧
      loadTexts (priorRealityCell m[old]?).2 m = some (priorReality prior).alpn := by
  obtain ⟨c, hc, h⟩ := bind_eq_some_iff.mp h
  rw [hc]
  cases c with
  | reality serverName publicKey shortID fingerprint alpn =>
    obtain ⟨l, hl, rfl⟩ := map_eq_some_iff.mp h
    exact ⟨rfl, hl⟩
  | noSecurity =>
    cases h
    exact ⟨rfl, rfl⟩
  | tls serverName verify alpn fingerprint =>
    simp only [bind_eq_some_iff, map_eq_some_iff] at h
    obtain ⟨v, -, l, -, f, -, rfl⟩ := h
    exact ⟨rfl, rfl⟩
  | _ => cases h

theorem SecurityPatch.applyIn_load (p : SecurityPatch) (old : Addr) (prior : Security) :
    Grows (fun m => loadSecurity old m = some prior) (p.applyIn old)
      fun a m => loadSecurity a m = some (p.apply prior) := by
  refine Grows.get fun m hm => ?_
  cases hmode : p.mode with
  | none =>
    simp only [SecurityPatch.apply, hmode]
    exact alloc_noSecurity.mono (fun _ _ => trivial) fun _ _ h => h
  | tls =>
    obtain ⟨hname, hverify, halpn, hfingerprint⟩ := priorTLSCell_load hm
    simp only [SecurityPatch.apply, hmode]
    generalize priorTLSCell m[old]? = cell at hname hverify halpn hfingerprint
    obtain ⟨serverName, verify, alpn, fingerprint⟩ := cell
    have hshared := ((reads_loadTexts alpn).stable (priorTLS prior).alpn).and
      ((Reads.derefPointer Cell.text? fingerprint).stable (priorTLS prior).clientFingerprint)
    have hverifyIn := verifyIn_load p.verifyCertificate verify (priorTLS prior).verifyCertificate
    refine Grows.bind ((hverifyIn.frame hshared).mono ?_ fun _ _ h => h) fun verify' => ?_
    · rintro _ rfl
      exact ⟨hverify, halpn, hfingerprint⟩
    have hdone := ((Reads.derefPointer Cell.flag? verify').stable
      (p.verifyCertificate.or (priorTLS prior).verifyCertificate)).and
      ((Reads.derefPointer Cell.text? fingerprint).stable (priorTLS prior).clientFingerprint)
    refine Grows.bind (((alpnIn_load p.alpn alpn (priorTLS prior).alpn).frame hdone).mono
      (fun _ h => ⟨h.2.1, h.1, h.2.2⟩) fun _ _ h => h) fun alpn' => ?_
    have hdone := ((reads_loadTexts alpn').stable (p.alpn.getD (priorTLS prior).alpn)).and
      ((Reads.derefPointer Cell.flag? verify').stable
        (p.verifyCertificate.or (priorTLS prior).verifyCertificate))
    have hfingerprintIn := OptionalStringPatch.applyIn_load p.clientFingerprint fingerprint
      (priorTLS prior).clientFingerprint
    refine Grows.bind ((hfingerprintIn.frame hdone).mono (fun _ h => ⟨h.2.2, h.1, h.2.1⟩)
      fun _ _ h => h) fun fingerprint' => ?_
    exact alloc_tls ⟨_, _, _, _⟩ (congrArg p.serverName.getD hname.symm)
  | reality =>
    obtain ⟨hfields, halpn⟩ := priorRealityCell_load hm
    simp only [SecurityPatch.apply, hmode]
    generalize priorRealityCell m[old]? = cell at hfields halpn
    obtain ⟨fields, alpn⟩ := cell
    subst hfields
    refine Grows.bind ((alpnIn_load p.alpn alpn (priorReality prior).alpn).mono ?_ fun _ _ h => h)
      fun alpn' => ?_
    · rintro _ rfl
      exact halpn
    exact alloc_reality ⟨_, _, _, _, _⟩

section
variable (formats : Formats)

def cloneNode (r : NodeRef) : Prog Cell (Except PatchError NodeRef) := do
  match loadNode r (← get) with
  | some n => if n.validate formats then .ok <$> storeNode n else pure (.error .internalError)
  | none => pure (.error .internalError)

/-- Run `f` on the patch of a group, if there is one. -/
def onPatch {γ α : Type} (patch : Option γ) (f : γ → Prog Cell α) (old : α) : Prog Cell α :=
  match patch with
  | some p => f p
  | none => pure old

def NodePatch.patchedIn (p : NodePatch) (next : NodeRef) : Prog Cell NodeRef := do
  let auth ← onPatch p.auth (·.applyIn next.auth) next.auth
  let transport ← onPatch p.transport (fun t => storeTransport t.toTransport) next.transport
  let security ← onPatch p.security (·.applyIn next.security) next.security
  let features ← onPatch p.features storeFeatures next.features
  pure
    { next with
      protocol := p.protocol.getD next.protocol
      endpoint := p.endpoint.getD next.endpoint
      auth := auth
      transport := transport
      security := security
      features := features }

def NodePatch.applyIn (p : NodePatch) (old : NodeRef) : Prog Cell (Except PatchError NodeRef) := do
  if p.validDTO formats = false then return .error .malformed
  match ← cloneNode formats old with
  | .error e => return .error e
  | .ok next =>
    match p.security.bind SecurityPatch.clearsRequired with
    | some path => return .error (.validationFailed path)
    | none =>
      let next ← p.patchedIn next
      match loadNode next (← get) with
      | some n => return if n.validate formats then .ok next else .error .invalidNode
      | none => return .error .invalidNode

/-! ## Patching in memory is patching -/

theorem onPatch_load {γ α β : Type} (read : α → Heap Cell → Option β) (patch : Option γ)
    {f : γ → Prog Cell α} {old : α} {prior : β} {apply : γ → β}
    (h : ∀ p, Grows (fun m => read old m = some prior) (f p)
      fun a m => read a m = some (apply p)) :
    Grows (fun m => read old m = some prior) (onPatch patch f old)
      fun a m => read a m = some ((patch.map apply).getD prior) := by
  cases patch with
  | none => exact Grows.pure fun _ h => h
  | some p => exact h p

theorem NodePatch.patchedIn_load (p : NodePatch) (next : NodeRef) (n : Node) :
    Grows (fun m => loadNode next m = some n) (p.patchedIn next)
      fun r m => loadNode r m = some (p.patched n) := by
  have hauth := onPatch_load (deref Cell.auth?) p.auth fun a => a.applyIn_load next.auth n.auth
  have htransport := onPatch_load loadTransport p.transport fun t =>
    (storeTransport_load t.toTransport).mono
      (fun _ (_ : loadTransport next.transport _ = some n.transport) => trivial) fun _ _ h => h
  have hsecurity := onPatch_load loadSecurity p.security fun s =>
    s.applyIn_load next.security n.security
  have hfeatures := onPatch_load loadFeatures p.features fun f =>
    (storeFeatures_load f).mono
      (fun _ (_ : loadFeatures next.features _ = some n.features) => trivial) fun _ _ h => h
  have htransport' := (reads_loadTransport next.transport).stable n.transport
  have hsecurity' := (reads_loadSecurity next.security).stable n.security
  have hfeatures' := (reads_loadFeatures next.features).stable n.features
  have horigin' := (Reads.derefPointer Cell.origin? next.origin).stable n.origin
  refine Grows.from_heap fun m hm => ?_
  obtain ⟨⟨hversion, hprotocol, hendpoint⟩, ha, ht, hs, hf, ho⟩ :=
    (loadNode_eq_some_iff next m n).mp hm
  have hframe := hauth.frame (htransport'.and (hsecurity'.and (hfeatures'.and horigin')))
  refine Grows.bind (hframe.mono ?_ fun _ _ h => h) fun auth => ?_
  · rintro _ rfl
    exact ⟨ha, ht, hs, hf, ho⟩
  have hauth' := (Reads.deref Cell.auth? auth).stable ((p.auth.map (·.apply n.auth)).getD n.auth)
  refine Grows.bind ((htransport.frame (hauth'.and (hsecurity'.and (hfeatures'.and horigin')))).mono
    (fun _ h => ⟨h.2.1, h.1, h.2.2⟩) fun _ _ h => h) fun transport => ?_
  have htransport' := (reads_loadTransport transport).stable
    ((p.transport.map TransportInput.toTransport).getD n.transport)
  refine Grows.bind ((hsecurity.frame (hauth'.and (htransport'.and (hfeatures'.and horigin')))).mono
    (fun _ h => ⟨h.2.2.1, h.2.1, h.1, h.2.2.2⟩) fun _ _ h => h) fun security => ?_
  have hsecurity' := (reads_loadSecurity security).stable
    ((p.security.map (·.apply n.security)).getD n.security)
  refine Grows.bind ((hfeatures.frame (hauth'.and (htransport'.and (hsecurity'.and horigin')))).mono
    (fun _ h => ⟨h.2.2.2.1, h.2.1, h.2.2.1, h.1, h.2.2.2.2⟩) fun _ _ h => h) fun features => ?_
  refine Grows.pure fun m h => ?_
  obtain ⟨hfeatures, hauth, htransport, hsecurity, horigin⟩ := h
  rw [map_id'] at hfeatures
  exact (loadNode_eq_some_iff _ m _).mpr ⟨⟨hversion, congrArg p.protocol.getD hprotocol,
    congrArg p.endpoint.getD hendpoint⟩, hauth, htransport, hsecurity, hfeatures, horigin⟩

theorem cloneNode_load (r : NodeRef) (n : Node) :
    Grows (fun m => loadNode r m = some n) (cloneNode formats r) fun result m =>
      match result with
      | .ok next => n.validate formats = true ∧ loadNode next m = some n
      | .error e => n.validate formats = false ∧ e = .internalError := by
  refine Grows.get fun m hm => ?_
  simp only [hm]
  cases hvalid : n.validate formats with
  | false => exact Grows.pure fun _ _ => ⟨rfl, rfl⟩
  | true =>
    simp only [if_true]
    exact Grows.bind ((storeNode_load n).mono (fun _ _ => trivial) fun _ _ h => h) fun next =>
      Grows.pure fun m h => ⟨trivial, h⟩

/-- **Patching in memory.** Where `old` holds the node `n`, the patch fails as `apply` fails on `n`,
or returns a node that holds what `apply` returns. It only adds objects to the heap. -/
theorem NodePatch.applyIn_load (p : NodePatch) (old : NodeRef) (n : Node) :
    Grows (fun m => loadNode old m = some n) (p.applyIn formats old) fun result m =>
      match result with
      | .ok r => ∃ next, p.apply formats n = .ok next ∧ loadNode r m = some next
      | .error e => p.apply formats n = .error e := by
  unfold NodePatch.applyIn NodePatch.apply
  by_cases hdto : p.validDTO formats = false
  · simp only [hdto, if_true]
    exact Grows.pure fun _ _ => rfl
  simp only [if_neg hdto]
  refine Grows.bind (cloneNode_load formats old n) fun result => ?_
  cases result with
  | error e =>
    refine Grows.pure fun m h => ?_
    obtain ⟨hvalid, rfl⟩ := h
    simp only [hvalid, if_true]
  | ok next =>
    cases hclear : p.security.bind SecurityPatch.clearsRequired with
    | some path =>
      refine Grows.pure fun m h => ?_
      simp only [h.1, Bool.true_eq_false, if_false]
    | none =>
      by_cases hvalid : n.validate formats = true
      · simp only [hvalid, true_and, Bool.true_eq_false, if_false]
        refine Grows.bind (p.patchedIn_load next n) fun r => ?_
        refine Grows.get fun m hm => ?_
        simp only [hm]
        refine Grows.pure fun m' hm' => ?_
        rw [hm']
        cases hnext : (p.patched n).validate formats with
        | true => exact ⟨_, rfl, hm⟩
        | false => rfl
      · exact fun m h => absurd h.1 hvalid

/-- **Patches are idempotent and local.** A patch that applies to a node can be applied again
without effect. A path that it does not name keeps what the node holds there, within an unchanged
credential kind and security mode. The schema version and the origin are kept, the result is valid,
and the patched node is the same in memory after the call as before it. -/
theorem apply_idempotent_local {p : NodePatch} {n next : Node}
    (h : p.apply formats n = .ok next) :
    p.apply formats next = .ok next ∧
      (∀ path, p.mentions path = false → (path.inAuth = true → next.auth.kind = n.auth.kind) →
        (path.inSecurity = true → next.security.mode = n.security.mode) →
        content next path = content n path) ∧
      next.schemaVersion = n.schemaVersion ∧ next.origin = n.origin ∧
      next.validate formats = true ∧
      ∀ (old : NodeRef) (m : Heap Cell), loadNode old m = some n →
        ∃ r m', p.applyIn formats old m = (.ok r, m') ∧ loadNode r m' = some next ∧
          loadNode old m' = some n ∧ m <+: m' := by
  refine ⟨NodePatch.apply_again formats h, ?_⟩
  obtain ⟨-, -, -, hvalid, hpatched⟩ := (p.apply_eq_ok_iff formats n next).mp h
  subst hpatched
  refine ⟨fun path => content_patched, rfl, rfl, hvalid, ?_⟩
  intro old m hold
  obtain ⟨hle, hresult⟩ := p.applyIn_load formats old n m hold
  rcases hrun : p.applyIn formats old m with ⟨result, m'⟩
  simp only [StateT.run, hrun] at hle hresult
  cases result with
  | error e =>
    rw [h] at hresult
    cases hresult
  | ok r =>
    obtain ⟨next, hnext, hload⟩ := hresult
    rw [h] at hnext
    cases hnext
    exact ⟨r, m', rfl, hload, reads_loadNode old hle n hold, hle⟩

end

def trojanNode : Node :=
  ⟨1, .trojan, ⟨"proxy.example", 443⟩, .password "secret", .nativeTCP,
    .tls ⟨"proxy.example", some true, ["h2"], some "chrome"⟩, ⟨none, none, none⟩, none⟩

def alpnPatch : NodePatch :=
  ⟨none, none, none, none,
    some ⟨.tls, none, none, some ["http/1.1"], .clear, .absent, .absent⟩, none⟩

theorem apply_idempotent_local_alpn :
    alpnPatch.apply ⟨fun _ => true, fun _ => false, fun _ => false⟩ trojanNode =
        .ok { trojanNode with security := .tls ⟨"proxy.example", some true, ["http/1.1"], none⟩ } ∧
      content { trojanNode with security := .tls ⟨"proxy.example", some true, ["http/1.1"], none⟩ }
        .serverName = content trojanNode .serverName := by
  have h : alpnPatch.apply ⟨fun _ => true, fun _ => false, fun _ => false⟩ trojanNode =
      .ok { trojanNode with
        security := .tls ⟨"proxy.example", some true, ["http/1.1"], none⟩ } := by
    decide
  exact ⟨h, (apply_idempotent_local _ h).2.1 .serverName rfl nofun fun _ => rfl⟩

end ProxyLoom.APIContract
