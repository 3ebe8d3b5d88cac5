import ProxyLoom.Adapter.SingBox.Emit
import ProxyLoom.Adapter.Mihomo.Emit
import ProxyLoom.Adapter.Xray.Emit

/-!
# Reading native objects back

Every family writes a node under its own names and leaves out what is empty. A reader for each of
them gets back what a client executes of the node, so no two nodes that differ in it are written as
the same object.
-/

namespace ProxyLoom.Adapter

open IR Json Except Option

structure Executable where
  protocol : Protocol
  endpoint : Endpoint
  auth : Authentication
  transport : Transport
  security : Security
  variant : Option ProtocolVariant
deriving DecidableEq, Repr

def executable (n : Node) : Executable :=
  ⟨n.protocol, n.endpoint, n.auth, n.transport, n.security, n.features.protocolVariant⟩

/-! ## Words -/

def protocols : List Protocol := [.shadowsocks, .vmess, .vless, .trojan, .socks5, .http]

def protocolOf (name : Protocol → String) (text : String) : Protocol :=
  (protocols.find? fun p => name p = text).getD .http

def methodOf (text : String) : ShadowsocksMethod :=
  ([.aes128GCM, .aes256GCM, .chaCha20IETFPoly1305].find? fun m : ShadowsocksMethod =>
    m.text = text).getD .unset

def cipherOf (text : String) : VMessCipher :=
  ([.auto, .aes128GCM, .chaCha20Poly1305, .none, .zero].find? fun c : VMessCipher =>
    c.text = text).getD .unset

def variantOf (text : String) : Option ProtocolVariant :=
  if text = "" then none else some .xtlsVision

theorem methodOf_text (m : ShadowsocksMethod) : methodOf m.text = m := by
  cases m <;> decide

theorem cipherOf_text (c : VMessCipher) : cipherOf c.text = c := by
  cases c <;> decide

theorem variantOf_text (v : Option ProtocolVariant) :
    variantOf ((v.map ProtocolVariant.text).getD "") = v := by
  cases v with
  | none => rfl
  | some v => cases v; decide

/-! ## Valid nodes -/

section
variable {formats : Formats} {n : Node}

theorem secret_ne_empty {s : Secret} (h : validSecret s = true) : s ≠ "" := by
  unfold validSecret at h
  simp only [Bool.and_eq_true, decide_eq_true_eq] at h
  exact h.1.1

theorem fingerprint_ne_empty {s : String} (h : validFingerprint s = true) : s ≠ "" := by
  rintro rfl
  exact absurd h (by decide)

structure Readable (n : Node) : Prop where
  version : n.schemaVersion = IR.schemaVersion
  protocol : n.protocolOk = true
  features : n.featuresOk = true
  username : ∀ name secret, n.auth = .usernamePassword name secret → name ≠ ""
  certificate : ∀ t, n.security = .tls t → t.verifyCertificate.isSome = true
  fingerprint : ∀ t, n.security = .tls t → t.clientFingerprint ≠ some ""

theorem readable_of_valid (h : n.validate formats = true) : Readable n := by
  unfold Node.validate at h
  simp only [Bool.and_eq_true, decide_eq_true_eq] at h
  obtain ⟨⟨⟨⟨⟨⟨⟨hversion, -⟩, hauth⟩, -⟩, hsecurity⟩, -⟩, hprotocol⟩, hfeatures⟩ := h
  refine ⟨hversion, hprotocol, hfeatures, ?_, ?_, ?_⟩
  · intro name secret heq
    rw [heq, Authentication.validate, Bool.and_eq_true] at hauth
    exact secret_ne_empty hauth.1
  · intro t heq
    rw [heq, Security.validate] at hsecurity
    simp only [Bool.and_eq_true] at hsecurity
    exact hsecurity.1.1.2
  · intro t heq hempty
    rw [heq, Security.validate, hempty] at hsecurity
    simp only [Bool.and_eq_true, all_some] at hsecurity
    exact fingerprint_ne_empty hsecurity.2 rfl

/-! ## Credentials and transport -/

def readAuth (protocol : Protocol) (password username uuid cipher : String) : Authentication :=
  match protocol with
  | .trojan => .password password
  | .shadowsocks => .methodPassword (methodOf cipher) password
  | .vmess => .vmess uuid (cipherOf cipher)
  | .vless => .uuid uuid
  | .socks5 | .http =>
    if username = "" then .noAuth else .usernamePassword username password

def readTransport : Option Value → Transport
  | some t => .webSocket (textOf (t.get? "path"))
      ((t.get? "headers").map fun headers => textOf (headers.get? "Host"))
  | none => .nativeTCP

theorem mappedNode_node : (mappedNode n).node = n := by
  unfold mappedNode
  cases n.auth <;> cases n.transport <;> cases n.security <;> rfl

theorem mappedNode_flow :
    (mappedNode n).flow = (n.features.protocolVariant.map ProtocolVariant.text).getD "" := rfl

theorem mappedNode_ws : (mappedNode n).ws =
    match n.transport with
    | .nativeTCP => none
    | .webSocket path host => some (path, host) := by
  unfold mappedNode
  cases n.auth <;> cases n.transport <;> cases n.security <;> rfl

theorem mappedNode_tls : (mappedNode n).tls =
    match n.security with
    | .tls t => some t
    | _ => none := by
  unfold mappedNode
  cases n.auth <;> cases n.transport <;> cases n.security <;> rfl

theorem mappedNode_reality : (mappedNode n).reality =
    match n.security with
    | .reality r => some r
    | _ => none := by
  unfold mappedNode
  cases n.auth <;> cases n.transport <;> cases n.security <;> rfl

theorem mappedNode_password : (mappedNode n).password =
    match n.auth with
    | .methodPassword _ secret | .password secret | .usernamePassword _ secret => secret
    | _ => "" := by
  unfold mappedNode
  cases n.auth <;> cases n.transport <;> cases n.security <;> rfl

theorem mappedNode_username : (mappedNode n).username =
    match n.auth with
    | .usernamePassword name _ => name
    | _ => "" := by
  unfold mappedNode
  cases n.auth <;> cases n.transport <;> cases n.security <;> rfl

theorem mappedNode_uuid : (mappedNode n).uuid =
    match n.auth with
    | .vmess id _ | .uuid id => id
    | _ => "" := by
  unfold mappedNode
  cases n.auth <;> cases n.transport <;> cases n.security <;> rfl

theorem mappedNode_cipher : (mappedNode n).cipher =
    match n.auth with
    | .methodPassword method _ => method.text
    | .vmess _ cipher => cipher.text
    | _ => "" := by
  unfold mappedNode
  cases n.auth <;> cases n.transport <;> cases n.security <;> rfl

/-- **Credentials are read back.** -/
theorem readAuth_mapped (h : Readable n) :
    readAuth n.protocol (mappedNode n).password (mappedNode n).username (mappedNode n).uuid
      (mappedNode n).cipher = n.auth := by
  have hprotocol := h.protocol
  have husername := h.username
  rw [mappedNode_password, mappedNode_username, mappedNode_uuid, mappedNode_cipher]
  unfold Node.protocolOk at hprotocol
  cases hp : n.protocol <;> cases ha : n.auth <;>
    simp_all [readAuth, Authentication.kind, methodOf_text, cipherOf_text]

/-- So are transports. -/
theorem readTransport_mapped {write : String × Option String → Value}
    (hpath : ∀ w, textOf ((write w).get? "path") = w.1)
    (hhost : ∀ w, ((write w).get? "headers").map (fun headers => textOf (headers.get? "Host")) =
      w.2) : readTransport ((mappedNode n).ws.map write) = n.transport := by
  rw [mappedNode_ws]
  cases n.transport with
  | nativeTCP => rfl
  | webSocket path host =>
    rw [map_some, readTransport, hpath, hhost]

theorem readVariant_mapped : variantOf (mappedNode n).flow = n.features.protocolVariant :=
  variantOf_text _

theorem flow_eq (h : Readable n) (hp : n.protocol ≠ .vless) : (mappedNode n).flow = "" := by
  have hfeatures := h.features
  unfold Node.featuresOk at hfeatures
  simp only [Bool.and_eq_true, Bool.or_eq_true, decide_eq_true_eq] at hfeatures
  rw [mappedNode_flow, hfeatures.2.resolve_right fun hv => hp hv.1.1]
  rfl

end

/-! ## sing-box -/

namespace SingBox

def protocolName (p : Protocol) : String := (OutboundType.node p).text

def readSecurity : Option Value → Security
  | none => .noSecurity
  | some t =>
    match t.get? "reality" with
    | some r => .reality
      { serverName := textOf (t.get? "server_name")
        publicKey := textOf (r.get? "public_key")
        shortID := textOf (r.get? "short_id")
        clientFingerprint := textOf ((t.get? "utls").bind fun u => u.get? "fingerprint")
        alpn := textsOf (t.get? "alpn") }
    | none => .tls
      { serverName := textOf (t.get? "server_name")
        verifyCertificate := some (!boolOf (t.get? "insecure"))
        alpn := textsOf (t.get? "alpn")
        clientFingerprint := (t.get? "utls").map fun u => textOf (u.get? "fingerprint") }

def readNode (v : Value) : Executable :=
  let protocol := protocolOf protocolName (textOf (v.get? "type"))
  let text := fun key => textOf (v.get? key)
  { protocol
    endpoint := ⟨text "server", numOf (v.get? "server_port")⟩
    auth := readAuth protocol (text "password") (text "username") (text "uuid")
      (if protocol = .vmess then text "security" else text "method")
    transport := readTransport (v.get? "transport")
    security := readSecurity (v.get? "tls")
    variant := variantOf (text "flow") }

section
variable {n : Node} {tag dialer : String}

theorem readProtocol (p : Protocol) : protocolOf protocolName (protocolName p) = p := by
  cases p <;> decide

theorem readSecurity_mapped (h : Readable n) :
    readSecurity ((tlsOf (mappedNode n)).map TLS.value) = n.security := by
  unfold tlsOf
  rw [mappedNode_tls, mappedNode_reality]
  cases hs : n.security with
  | noSecurity => rfl
  | tls t =>
    obtain ⟨b, hb⟩ := isSome_iff_exists.mp (h.certificate t hs)
    cases t with
    | mk serverName verify alpn fingerprint =>
      simp only at hb
      cases fingerprint <;> simp [readSecurity, TLS.value, hb]
  | reality r => simp [readSecurity, TLS.value]

theorem readNode_fields (o : Outbound) : readNode (.obj o.fields) =
    let protocol := protocolOf protocolName o.type.text
    { protocol
      endpoint := ⟨o.server, o.serverPort⟩
      auth := readAuth protocol o.password o.username o.uuid
        (if protocol = .vmess then o.security else o.method)
      transport := readTransport (o.transport.map WSTransport.value)
      security := readSecurity (o.tls.map TLS.value)
      variant := variantOf o.flow } := by
  simp [readNode, Outbound.fields]

/-- **What sing-box writes is read back.** -/
theorem readNode_eq (h : Readable n) (resolver : String) :
    readNode (.obj ({ nodeOutbound tag (mappedNode n) dialer with
      domainResolver := resolver } : Outbound).fields) = executable n := by
  have hauth := readAuth_mapped h
  have htransport : readTransport
      ((nodeOutbound tag (mappedNode n) dialer).transport.map WSTransport.value) = n.transport := by
    show readTransport (((mappedNode n).ws.map fun w =>
      (⟨w.1, w.2⟩ : WSTransport)).map WSTransport.value) = n.transport
    rw [map_map]
    refine readTransport_mapped ?_ ?_
    · simp [WSTransport.value]
    · simp [WSTransport.value, Function.comp_def]
  have hprotocol : protocolOf protocolName (OutboundType.node n.protocol).text = n.protocol :=
    readProtocol n.protocol
  have hvariant := @readVariant_mapped n
  have hflow := @flow_eq n h
  rw [readNode_fields, htransport, nodeOutbound, mappedNode_node, readSecurity_mapped h]
  unfold credentials executable
  rw [mappedNode_node]
  cases hp : n.protocol <;> simp_all [readAuth]

end

end SingBox

/-! ## Mihomo -/

namespace Mihomo

def readSecurity (protocol : Protocol) (v : Value) : Security :=
  let text := fun key => textOf (v.get? key)
  match v.get? "reality-opts" with
  | some r => .reality
    { serverName := text "servername"
      publicKey := textOf (r.get? "public-key")
      shortID := textOf (r.get? "short-id")
      clientFingerprint := text "client-fingerprint"
      alpn := textsOf (v.get? "alpn") }
  | none =>
    if protocol = .trojan ∨ boolOf (v.get? "tls") = true then .tls
      { serverName :=
          if protocol = .vmess ∨ protocol = .vless then text "servername" else text "sni"
        verifyCertificate := some (!boolOf (v.get? "skip-cert-verify"))
        alpn := textsOf (v.get? "alpn")
        clientFingerprint := if text "client-fingerprint" = "" then none
          else some (text "client-fingerprint") }
    else .noSecurity

def readNode (v : Value) : Executable :=
  let protocol := protocolOf typeText (textOf (v.get? "type"))
  let text := fun key => textOf (v.get? key)
  { protocol
    endpoint := ⟨text "server", numOf (v.get? "port")⟩
    auth := readAuth protocol (text "password") (text "username") (text "uuid") (text "cipher")
    transport := readTransport (v.get? "ws-opts")
    security := readSecurity protocol v
    variant := variantOf (text "flow") }

def proxySecurity (protocol : Protocol) (p : Proxy) : Security :=
  match p.reality with
  | some r => .reality ⟨p.serverName, r.publicKey, r.shortID, p.clientFingerprint, p.alpn⟩
  | none =>
    if protocol = .trojan ∨ p.tls = some true then .tls
      ⟨if protocol = .vmess ∨ protocol = .vless then p.serverName else p.sni,
        some (!p.skipCertVerify), p.alpn,
        if p.clientFingerprint = "" then none else some p.clientFingerprint⟩
    else .noSecurity

section
variable {n : Node} {tag dialer : String}

theorem readProtocol (p : Protocol) : protocolOf typeText (typeText p) = p := by
  cases p <;> decide

theorem readNode_value (p : Proxy) : readNode p.value =
    let protocol := protocolOf typeText p.type
    { protocol
      endpoint := ⟨p.server, p.port⟩
      auth := readAuth protocol p.password p.username p.uuid p.cipher
      transport := readTransport (p.ws.map WSOptions.value)
      security := proxySecurity protocol p
      variant := variantOf p.flow } := by
  have htls : boolOf (p.tls.map Value.bool) = true ↔ p.tls = some true := by
    cases p.tls <;> simp [boolOf]
  cases hr : p.reality <;>
    simp [readNode, readSecurity, proxySecurity, Proxy.value, Reality.value, hr, htls]

/-- **Security is read back** where no security was written before. -/
theorem proxySecurity_mapped (h : Readable n) {p : Proxy} (htls : p.tls = none)
    (hreality : p.reality = none) (hprint : p.clientFingerprint = "") :
    proxySecurity n.protocol (withReality (mappedNode n) (withTLS (mappedNode n) p)) =
      n.security := by
  have hprotocol := h.protocol
  unfold Node.protocolOk at hprotocol
  unfold withReality withTLS
  rw [mappedNode_tls, mappedNode_reality, mappedNode_node]
  cases hs : n.security with
  | noSecurity =>
    have hne : n.protocol ≠ .trojan := by
      intro hp
      simp [hp, hs, Security.mode] at hprotocol
    simp [proxySecurity, htls, hreality, hne]
  | tls t =>
    obtain ⟨serverName, verify, alpn, fingerprint⟩ := t
    obtain ⟨b, rfl⟩ := isSome_iff_exists.mp (h.certificate _ hs)
    have hread : (if fingerprint.getD "" = "" then none else some (fingerprint.getD "")) =
        fingerprint := by
      cases fingerprint with
      | none => rfl
      | some s => exact if_neg fun heq => h.fingerprint _ hs (congrArg some heq)
    by_cases htrojan : n.protocol = .trojan
    · simp [proxySecurity, hreality, hprint, htrojan, hread]
    · simp only [proxySecurity, hreality, hprint, htrojan, hread, if_false, false_or]
      split_ifs <;> simp
  | reality r => simp [proxySecurity]

theorem written_rest (m : MappedNode) (p : Proxy) :
    let q := withReality m (withTLS m (withWS m p))
    q.type = p.type ∧ q.server = p.server ∧ q.port = p.port ∧ q.password = p.password ∧
      q.username = p.username ∧ q.uuid = p.uuid ∧ q.cipher = p.cipher ∧ q.flow = p.flow := by
  unfold withReality withTLS withWS
  cases m.reality <;> cases m.tls <;> cases m.ws <;>
    exact ⟨rfl, rfl, rfl, rfl, rfl, rfl, rfl, rfl⟩

theorem written_ws (m : MappedNode) (p : Proxy) (h : p.ws = none) :
    (withReality m (withTLS m (withWS m p))).ws = m.ws.map fun w => ⟨w.1, w.2⟩ := by
  unfold withReality withTLS withWS
  cases m.reality <;> cases m.tls <;> cases m.ws <;> first | exact h | rfl

theorem withWS_security (m : MappedNode) (p : Proxy) :
    (withWS m p).tls = p.tls ∧ (withWS m p).reality = p.reality ∧
      (withWS m p).clientFingerprint = p.clientFingerprint := by
  unfold withWS
  cases m.ws <;> exact ⟨rfl, rfl, rfl⟩

theorem credentials_rest (m : MappedNode) (p : Proxy) :
    let q := credentials m p
    q.type = p.type ∧ q.server = p.server ∧ q.port = p.port ∧ q.ws = p.ws ∧ q.tls = p.tls ∧
      q.reality = p.reality ∧ q.clientFingerprint = p.clientFingerprint := by
  unfold credentials
  cases m.node.protocol <;> exact ⟨rfl, rfl, rfl, rfl, rfl, rfl, rfl⟩

/-- **What Mihomo writes is read back.** -/
theorem readNode_eq (h : Readable n) :
    readNode (nodeProxy tag (mappedNode n) dialer).value = executable n := by
  have htransport : readTransport (((mappedNode n).ws.map fun w =>
      (⟨w.1, w.2⟩ : WSOptions)).map WSOptions.value) = n.transport := by
    rw [map_map]
    refine readTransport_mapped ?_ ?_
    · simp [WSOptions.value]
    · simp [WSOptions.value, Function.comp_def]
  let start : Proxy :=
    { name := tag, type := typeText n.protocol, server := n.endpoint.host
      port := n.endpoint.port, dialerProxy := dialer, udp := n.features.udp }
  have hproxy : nodeProxy tag (mappedNode n) dialer = withReality (mappedNode n) (withTLS
      (mappedNode n) (withWS (mappedNode n) (credentials (mappedNode n) start))) := by
    unfold nodeProxy
    rw [mappedNode_node]
  obtain ⟨htype, hserver, hport, hpassword, husername, huuid, hcipher, hflow⟩ :=
    written_rest (mappedNode n) (credentials (mappedNode n) start)
  obtain ⟨htype', hserver', hport', hws, htls, hreality, hprint⟩ :=
    credentials_rest (mappedNode n) start
  obtain ⟨htls', hreality', hprint'⟩ :=
    withWS_security (mappedNode n) (credentials (mappedNode n) start)
  have hsecurity := proxySecurity_mapped h (htls'.trans htls) (hreality'.trans hreality)
    (hprint'.trans hprint)
  rw [readNode_value, hproxy, htype, hserver, hport, hpassword, husername, huuid, hcipher, hflow,
    written_ws _ _ hws, htransport, htype', hserver', hport']
  have hprotocol : protocolOf typeText start.type = n.protocol := readProtocol n.protocol
  have hauth := readAuth_mapped h
  have hvariant := @readVariant_mapped n
  have hnone := @flow_eq n h
  simp only [hprotocol, hsecurity]
  unfold credentials executable
  rw [mappedNode_node]
  cases hp : n.protocol <;> simp_all [readAuth, start]

end

end Mihomo

/-! ## Xray -/

namespace Xray

def protocolName (p : Protocol) : String := (OutboundProtocol.node p).text

def readSecurity (stream : Value) : Security :=
  match stream.get? "realitySettings", stream.get? "tlsSettings" with
  | some r, _ => .reality
    { serverName := textOf (r.get? "serverName")
      publicKey := textOf (r.get? "publicKey")
      shortID := textOf (r.get? "shortId")
      clientFingerprint := textOf (r.get? "fingerprint")
      alpn := [] }
  | none, some t => .tls
    { serverName := textOf (t.get? "serverName")
      verifyCertificate := some (!boolOf (t.get? "allowInsecure"))
      alpn := textsOf (t.get? "alpn")
      clientFingerprint := (t.get? "fingerprint").map fun s => textOf (some s) }
  | none, none => .noSecurity

def readServer (protocol : Protocol) (settings : Value) : Value :=
  firstOf (settings.get? (if protocol = .vmess ∨ protocol = .vless then "vnext" else "servers"))

def readCredentials (protocol : Protocol) (server : Value) : Authentication :=
  let user := firstOf (server.get? "users")
  readAuth protocol
    (if protocol = .socks5 ∨ protocol = .http then textOf (user.get? "pass")
      else textOf (server.get? "password"))
    (textOf (user.get? "user")) (textOf (user.get? "id"))
    (if protocol = .vmess then textOf (user.get? "security") else textOf (server.get? "method"))

def readNode (v : Value) : Executable :=
  let protocol := protocolOf protocolName (textOf (v.get? "protocol"))
  let server := readServer protocol ((v.get? "settings").getD .null)
  let stream := (v.get? "streamSettings").getD .null
  { protocol
    endpoint := ⟨textOf (server.get? "address"), numOf (server.get? "port")⟩
    auth := readCredentials protocol server
    transport := readTransport (stream.get? "wsSettings")
    security := readSecurity stream
    variant := variantOf (textOf ((firstOf (server.get? "users")).get? "flow")) }

section
variable {n : Node} {tag dialer : String} {stream : Stream}

theorem readProtocol (p : Protocol) : protocolOf protocolName (protocolName p) = p := by
  cases p <;> decide

theorem readNode_value {o : Outbound} {settings : Settings}
    (hsettings : o.settings = some settings) (hstream : o.streamSettings = some stream) :
    readNode o.value =
      let protocol := protocolOf protocolName o.protocol.text
      let server := readServer protocol settings.value
      { protocol
        endpoint := ⟨textOf (server.get? "address"), numOf (server.get? "port")⟩
        auth := readCredentials protocol server
        transport := readTransport (stream.value.get? "wsSettings")
        security := readSecurity stream.value
        variant := variantOf (textOf ((firstOf (server.get? "users")).get? "flow")) } := by
  simp [readNode, Outbound.value, hsettings, hstream]

theorem readUsers_mapped (h : Readable n) (hp : n.protocol = .socks5 ∨ n.protocol = .http) :
    (n.auth.kind = .usernamePassword ∨ n.auth = .noAuth) ∧
      n.features.protocolVariant = none := by
  have hprotocol := h.protocol
  have hflow := flow_eq h (by obtain hp | hp := hp <;> simp [hp])
  have hvariant := @readVariant_mapped n
  rw [hflow] at hvariant
  refine ⟨?_, hvariant.symm⟩
  unfold Node.protocolOk at hprotocol
  obtain hp | hp := hp <;> cases ha : n.auth <;> simp_all [Authentication.kind]

theorem readServer_mapped (h : Readable n) :
    let server := readServer n.protocol (settingsOf (mappedNode n)).value
    (⟨textOf (server.get? "address"), numOf (server.get? "port")⟩ : Endpoint) = n.endpoint ∧
      readCredentials n.protocol server = n.auth ∧
      variantOf (textOf ((firstOf (server.get? "users")).get? "flow")) =
        n.features.protocolVariant := by
  have hauth := readAuth_mapped h
  have hvariant := @readVariant_mapped n
  have hflow := @flow_eq n h
  have husers := @readUsers_mapped n h
  unfold settingsOf
  rw [mappedNode_node]
  cases hp : n.protocol with
  | shadowsocks | trojan | vmess | vless =>
    simp_all [readServer, readCredentials, readAuth, Settings.value, RemoteServer.value,
      CredentialUser.value]
  | socks5 | http =>
    rw [hp] at hauth husers
    obtain ⟨hkind | hnone, hplain⟩ := husers (by simp)
    · simp_all [readServer, readCredentials, readAuth, Settings.value, RemoteServer.value,
        CredentialUser.value]
    · simp_all [readServer, readCredentials, readAuth, Settings.value, RemoteServer.value,
        Authentication.kind]

theorem streamOf_eq : (streamOf (mappedNode n) dialer).ws =
      ((mappedNode n).ws.map fun w => ⟨w.1, w.2⟩) ∧
    (streamOf (mappedNode n) dialer).tls = ((mappedNode n).tls.map fun t =>
      ⟨t.serverName, !(t.verifyCertificate.getD false), t.alpn, t.clientFingerprint.getD ""⟩) ∧
    (streamOf (mappedNode n) dialer).reality = ((mappedNode n).reality.map fun r =>
      ⟨r.serverName, r.clientFingerprint, r.publicKey, r.shortID⟩) := by
  unfold streamOf withReality withTLS withWS
  cases (mappedNode n).reality <;> cases (mappedNode n).tls <;> cases (mappedNode n).ws <;>
    exact ⟨rfl, rfl, rfl⟩

theorem readSecurity_mapped (h : Readable n)
    (htls : stream.tls = (streamOf (mappedNode n) dialer).tls)
    (hreality : stream.reality = (streamOf (mappedNode n) dialer).reality)
    (halpn : ∀ r, n.security = .reality r → r.alpn = []) :
    readSecurity stream.value = n.security := by
  rw [streamOf_eq.2.1, mappedNode_tls] at htls
  rw [streamOf_eq.2.2, mappedNode_reality] at hreality
  cases hs : n.security with
  | noSecurity =>
    rw [hs] at htls hreality
    simp [readSecurity, Stream.value, htls, hreality]
  | tls t =>
    obtain ⟨serverName, verify, alpn, fingerprint⟩ := t
    obtain ⟨b, rfl⟩ := isSome_iff_exists.mp (h.certificate _ hs)
    have hread : (if fingerprint.getD "" = "" then none
        else some (Value.str (fingerprint.getD ""))).map (fun s => textOf (some s)) =
          fingerprint := by
      cases fingerprint with
      | none => rfl
      | some s =>
        have hne : s ≠ "" := fun heq => h.fingerprint _ hs (congrArg some heq)
        simp [hne]
    rw [hs] at htls hreality
    simp [readSecurity, Stream.value, TLSConf.value, htls, hreality, hread]
  | reality r =>
    have hnone := halpn r hs
    rw [hs] at htls hreality
    obtain ⟨serverName, publicKey, shortID, fingerprint, alpn⟩ := r
    obtain rfl : alpn = [] := hnone
    simp [readSecurity, Stream.value, RealityConf.value, htls, hreality]

/-- **What Xray writes is read back**, where a REALITY node has no protocols to negotiate. -/
theorem readNode_eq (h : Readable n) (halpn : ∀ r, n.security = .reality r → r.alpn = [])
    {o : Outbound} (hprotocol : o.protocol = .node n.protocol)
    (hsettings : o.settings = some (settingsOf (mappedNode n)))
    (hstream : o.streamSettings = some stream)
    (hws : stream.ws = (streamOf (mappedNode n) dialer).ws)
    (htls : stream.tls = (streamOf (mappedNode n) dialer).tls)
    (hreality : stream.reality = (streamOf (mappedNode n) dialer).reality) :
    readNode o.value = executable n := by
  have htransport : readTransport (stream.value.get? "wsSettings") = n.transport := by
    have hget : stream.value.get? "wsSettings" = stream.ws.map WSConf.value := by
      simp [Stream.value]
    rw [hget, hws, streamOf_eq.1, map_map]
    refine readTransport_mapped ?_ ?_
    · simp [WSConf.value]
    · simp [WSConf.value, Function.comp_def]
  have hname : protocolOf protocolName (OutboundProtocol.node n.protocol).text = n.protocol :=
    readProtocol n.protocol
  obtain ⟨hendpoint, hauth, hvariant⟩ := readServer_mapped h
  rw [readNode_value hsettings hstream, hprotocol, hname, htransport,
    readSecurity_mapped h htls hreality halpn]
  simp only [hendpoint, hauth, hvariant]
  rfl

end

end Xray

/-! ## The emitters -/

section
variable {lib : Libraries} {input : EmitInput} {ref : OutboundRef}

theorem mapNode_eq_ok {resource : Option Resource} {path target : String} {m : MappedNode}
    (h : mapNode lib resource path target = .ok m) :
    ∃ r n, resource = some r ∧ r.payload = .node n ∧ n.validate lib.formats = true ∧
      n.features.udp ≠ some true ∧ n.features.multiplex ≠ some true ∧ m = mappedNode n := by
  unfold mapNode at h
  split at h
  · next n hn =>
    obtain ⟨r, rfl, hp⟩ := map_eq_some_iff.mp hn
    obtain ⟨hvalid, h⟩ := of_ite h
    obtain ⟨hudp, h⟩ := of_ite h
    obtain ⟨hmultiplex, h⟩ := of_ite h
    exact ⟨r, n, rfl, hp, by simpa using hvalid, hudp, hmultiplex, (Except.ok.inj h).symm⟩
  · cases h

/-- The native object of an outbound, as the emitter of the family makes it. -/
def nativeObject (lib : Libraries) (input : EmitInput) (ref : OutboundRef) :
    CoreFamily → Except (List Diagnostic) Value
  | .xray => (Xray.refOutbound lib input ref).map Xray.Outbound.value
  | .singBox => (SingBox.refOutbound lib input ref).map fun o => .obj o.fields
  | .mihomo => (Mihomo.refProxy lib input ref).map Mihomo.Proxy.value

def readObject : CoreFamily → Value → Executable
  | .xray => Xray.readNode
  | .singBox => SingBox.readNode
  | .mihomo => Mihomo.readNode

theorem SingBox.refOutbound_reads {o : SingBox.Outbound}
    (h : SingBox.refOutbound lib input ref = .ok o) :
    ∃ m resolver, mapNode lib ref.resource ref.fieldPath input.targetKey = .ok m ∧
      o = { SingBox.nodeOutbound ref.tag m ref.dialerTag with domainResolver := resolver } := by
  unfold SingBox.refOutbound at h
  obtain ⟨m, hm, h⟩ := of_bind h
  obtain ⟨item, hitem, h⟩ := of_bind h
  have ho : item = o := by
    split at h
    · cases h
    · exact Except.ok.inj h
  subst ho
  have hplain : SingBox.nodeOutbound ref.tag m ref.dialerTag =
      { SingBox.nodeOutbound ref.tag m ref.dialerTag with
        domainResolver := (SingBox.nodeOutbound ref.tag m ref.dialerTag).domainResolver } := rfl
  unfold SingBox.withBootstrap at hitem
  split at hitem
  · exact ⟨m, _, hm, (Except.ok.inj hitem).symm.trans hplain⟩
  · split_ifs at hitem
    · split at hitem
      · cases hitem
      · next b rest hb => exact ⟨m, b.resolverID, hm, (Except.ok.inj hitem).symm⟩
    · exact ⟨m, _, hm, (Except.ok.inj hitem).symm.trans hplain⟩

theorem Xray.refOutbound_reads {o : Xray.Outbound} (h : Xray.refOutbound lib input ref = .ok o) :
    ∃ m stream, mapNode lib ref.resource ref.fieldPath input.targetKey = .ok m ∧
      (∀ r, m.reality = some r → r.alpn = []) ∧ o.protocol = .node m.node.protocol ∧
      o.settings = some (Xray.settingsOf m) ∧ o.streamSettings = some stream ∧
      stream.ws = (Xray.streamOf m ref.dialerTag).ws ∧
      stream.tls = (Xray.streamOf m ref.dialerTag).tls ∧
      stream.reality = (Xray.streamOf m ref.dialerTag).reality := by
  unfold Xray.refOutbound at h
  obtain ⟨m, hm, h⟩ := of_bind h
  obtain ⟨halpn, h⟩ := of_ite h
  obtain ⟨item, hitem, h⟩ := of_bind h
  have ho : item = o := by
    split at h
    · cases h
    · exact Except.ok.inj h
  subst ho
  have hempty : ∀ r, m.reality = some r → r.alpn = [] := by
    intro r hr
    simpa [hr] using halpn
  unfold Xray.withBootstrap at hitem
  split at hitem
  · obtain rfl := Except.ok.inj hitem
    exact ⟨m, _, hm, hempty, rfl, rfl, rfl, rfl, rfl, rfl⟩
  · split_ifs at hitem
    · obtain rfl := Except.ok.inj hitem
      exact ⟨m, _, hm, hempty, rfl, rfl, rfl, rfl, rfl, rfl⟩
    · obtain rfl := Except.ok.inj hitem
      exact ⟨m, _, hm, hempty, rfl, rfl, rfl, rfl, rfl, rfl⟩

/-- **The object of a node reads back.** -/
theorem readObject_eq {family : CoreFamily} {v : Value}
    (h : nativeObject lib input ref family = .ok v) :
    ∃ r n, ref.resource = some r ∧ r.payload = .node n ∧ Readable n ∧
      n.features.udp ≠ some true ∧ n.features.multiplex ≠ some true ∧
      readObject family v = executable n := by
  cases family with
  | xray =>
    obtain ⟨o, ho, rfl⟩ := of_map h
    obtain ⟨m, stream, hm, halpn, hprotocol, hsettings, hstream, hws, htls, hreality⟩ :=
      Xray.refOutbound_reads ho
    obtain ⟨r, n, hr, hp, hvalid, hudp, hmultiplex, rfl⟩ := mapNode_eq_ok hm
    have hread := readable_of_valid hvalid
    rw [mappedNode_node] at hprotocol
    refine ⟨r, n, hr, hp, hread, hudp, hmultiplex,
      Xray.readNode_eq hread (fun s hs => halpn s ?_) hprotocol hsettings hstream hws htls hreality⟩
    rw [mappedNode_reality, hs]
  | singBox =>
    obtain ⟨o, ho, rfl⟩ := of_map h
    obtain ⟨m, resolver, hm, rfl⟩ := SingBox.refOutbound_reads ho
    obtain ⟨r, n, hr, hp, hvalid, hudp, hmultiplex, rfl⟩ := mapNode_eq_ok hm
    have hread := readable_of_valid hvalid
    exact ⟨r, n, hr, hp, hread, hudp, hmultiplex, SingBox.readNode_eq hread resolver⟩
  | mihomo =>
    obtain ⟨p, hproxy, rfl⟩ := of_map h
    unfold Mihomo.refProxy at hproxy
    obtain ⟨m, hm, hproxy⟩ := of_bind hproxy
    obtain rfl := Except.ok.inj hproxy
    obtain ⟨r, n, hr, hp, hvalid, hudp, hmultiplex, rfl⟩ := mapNode_eq_ok hm
    have hread := readable_of_valid hvalid
    exact ⟨r, n, hr, hp, hread, hudp, hmultiplex, Mihomo.readNode_eq hread⟩

/-- The nodes differ in nothing but their origin and in whether a feature is absent or off. -/
structure SameExecution (n n' : Node) : Prop where
  fields : n' = { n with
    features := { n.features with udp := n'.features.udp, multiplex := n'.features.multiplex }
    origin := n'.origin }
  udp : n.features.udp.getD false = n'.features.udp.getD false
  multiplex : n.features.multiplex.getD false = n'.features.multiplex.getD false

theorem sameExecution_of_executable {n n' : Node} (hn : Readable n) (hn' : Readable n')
    (hudp : n.features.udp ≠ some true) (hudp' : n'.features.udp ≠ some true)
    (hmultiplex : n.features.multiplex ≠ some true)
    (hmultiplex' : n'.features.multiplex ≠ some true) (h : executable n = executable n') :
    SameExecution n n' := by
  have hoff : ∀ b : Option Bool, b ≠ some true → b.getD false = false := by decide
  refine ⟨?_, ?_, ?_⟩
  · have hversion := hn.version.trans hn'.version.symm
    obtain ⟨version, protocol, endpoint, auth, transport, security, ⟨udp, multiplex, variant⟩,
      origin⟩ := n
    obtain ⟨version', protocol', endpoint', auth', transport', security',
      ⟨udp', multiplex', variant'⟩, origin'⟩ := n'
    simp_all [executable]
  · rw [hoff _ hudp, hoff _ hudp']
  · rw [hoff _ hmultiplex, hoff _ hmultiplex']

/-- **Mapping loses nothing.** In every family, two nodes that are written as the same object
execute in the same way. -/
theorem native_mapping_injective (lib : Libraries) (input input' : EmitInput)
    (family : CoreFamily) (tag dialer path path' : String) (kind kind' : OutboundKind)
    (r r' : Resource) (n n' : Node) (v : Value) (hn : r.payload = .node n)
    (hn' : r'.payload = .node n')
    (h : nativeObject lib input ⟨tag, kind, some r, dialer, path⟩ family = .ok v)
    (h' : nativeObject lib input' ⟨tag, kind', some r', dialer, path'⟩ family = .ok v) :
    SameExecution n n' := by
  obtain ⟨s, m, hs, hp, hread, hudp, hmultiplex, hexec⟩ := readObject_eq h
  obtain ⟨s', m', hs', hp', hread', hudp', hmultiplex', hexec'⟩ := readObject_eq h'
  obtain rfl := Option.some.inj hs
  obtain rfl := Option.some.inj hs'
  obtain rfl := Payload.node.inj (hn.symm.trans hp)
  obtain rfl := Payload.node.inj (hn'.symm.trans hp')
  exact sameExecution_of_executable hread hread' hudp hudp' hmultiplex hmultiplex'
    (hexec.symm.trans hexec')

/-- The node with an origin and a feature that is switched off. -/
def importedNode : Resource :=
  { plainNode with
    payload := .node ⟨1, .shadowsocks, ⟨"example.org", 443⟩, .methodPassword .aes128GCM "secret",
      .nativeTCP, .noSecurity, ⟨none, some false, none⟩,
      some ⟨plainNode.id, plainNode.id, .stableExternalKey⟩⟩ }

def aloneInput : EmitInput := ⟨"", "main", [], [], [], "", none, none, none⟩

def aloneRef (r : Resource) : OutboundRef := ⟨"n_1", .independent, some r, "", ""⟩

theorem native_mapping_injective_plain :
    ∃ n n' v, plainNode.payload = .node n ∧ importedNode.payload = .node n' ∧ n ≠ n' ∧
      nativeObject hostnameLibraries aloneInput (aloneRef plainNode) .xray = .ok v ∧
      nativeObject hostnameLibraries aloneInput (aloneRef importedNode) .xray = .ok v ∧
      SameExecution n n' := by
  have hplain : (Xray.refOutbound hostnameLibraries aloneInput
      (aloneRef plainNode)).toOption.isSome = true := by decide
  have himported : (Xray.refOutbound hostnameLibraries aloneInput
      (aloneRef importedNode)).toOption =
        (Xray.refOutbound hostnameLibraries aloneInput (aloneRef plainNode)).toOption := by
    decide
  obtain ⟨o, ho⟩ := isSome_iff_exists.mp hplain
  rw [ho] at himported
  have hobject : ∀ r, (Xray.refOutbound hostnameLibraries aloneInput (aloneRef r)).toOption =
      some o → nativeObject hostnameLibraries aloneInput (aloneRef r) .xray = .ok o.value := by
    intro r hr
    rw [nativeObject, eq_ok_of_toOption hr]
    rfl
  exact ⟨_, _, o.value, rfl, rfl, by decide, hobject _ ho, hobject _ himported,
    native_mapping_injective _ _ _ .xray "n_1" "" "" "" .independent .independent plainNode
      importedNode _ _ o.value rfl rfl (hobject _ ho) (hobject _ himported)⟩

end

end ProxyLoom.Adapter
