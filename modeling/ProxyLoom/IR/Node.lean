import ProxyLoom.Lib.Text

/-!
# Nodes

The typed compile input for one proxy server: protocol, endpoint, credentials, transport and
security, with the validity check that every node passes before it is stored, merged or compiled.
Go's zero values that no valid node holds (an empty cipher name, a missing certificate flag) stay
representable, because a patch may produce them before the check.
-/

namespace ProxyLoom.IR

abbrev ID := String

abbrev Secret := String

def ID.validate (id : ID) : Bool := Text.isUUID id

def schemaVersion : ℕ := 1

inductive Protocol where
  | shadowsocks | vmess | vless | trojan | socks5 | http
deriving DecidableEq, Repr

inductive AuthKind where
  | methodPassword | vmessAEAD | uuid | password | usernamePassword | none
deriving DecidableEq, Repr

/-- `unset` is the empty string. -/
inductive ShadowsocksMethod where
  | unset | aes128GCM | aes256GCM | chaCha20IETFPoly1305
deriving DecidableEq, Repr

/-- `unset` is the empty string. -/
inductive VMessCipher where
  | unset | auto | aes128GCM | chaCha20Poly1305 | none | zero
deriving DecidableEq, Repr

inductive ProtocolVariant where
  | xtlsVision
deriving DecidableEq, Repr

def Protocol.text : Protocol → String
  | .shadowsocks => "shadowsocks"
  | .vmess => "vmess"
  | .vless => "vless"
  | .trojan => "trojan"
  | .socks5 => "socks5"
  | .http => "http"

def ShadowsocksMethod.text : ShadowsocksMethod → String
  | .unset => ""
  | .aes128GCM => "aes-128-gcm"
  | .aes256GCM => "aes-256-gcm"
  | .chaCha20IETFPoly1305 => "chacha20-ietf-poly1305"

def VMessCipher.text : VMessCipher → String
  | .unset => ""
  | .auto => "auto"
  | .aes128GCM => "aes-128-gcm"
  | .chaCha20Poly1305 => "chacha20-poly1305"
  | .none => "none"
  | .zero => "zero"

def ProtocolVariant.text : ProtocolVariant → String
  | .xtlsVision => "xtls-rprx-vision"

structure Endpoint where
  host : String
  port : ℕ
deriving DecidableEq, Repr

/-- The credentials, by kind. -/
inductive Authentication where
  | methodPassword (method : ShadowsocksMethod) (password : Secret)
  | vmess (uuid : Secret) (cipher : VMessCipher)
  | uuid (uuid : Secret)
  | password (password : Secret)
  | usernamePassword (username password : Secret)
  | noAuth
deriving DecidableEq, Repr

def Authentication.kind : Authentication → AuthKind
  | .methodPassword .. => .methodPassword
  | .vmess .. => .vmessAEAD
  | .uuid .. => .uuid
  | .password .. => .password
  | .usernamePassword .. => .usernamePassword
  | .noAuth => .none

inductive Transport where
  | nativeTCP
  | webSocket (path : String) (host : Option String)
deriving DecidableEq, Repr

inductive SecurityMode where
  | none | tls | reality
deriving DecidableEq, Repr

structure TLSSecurity where
  serverName : String
  verifyCertificate : Option Bool
  alpn : List String
  clientFingerprint : Option String
deriving DecidableEq, Repr

structure RealitySecurity where
  serverName : String
  publicKey : Secret
  shortID : Secret
  clientFingerprint : String
  alpn : List String
deriving DecidableEq, Repr

inductive Security where
  | noSecurity
  | tls (t : TLSSecurity)
  | reality (r : RealitySecurity)
deriving DecidableEq, Repr

def Security.mode : Security → SecurityMode
  | .noSecurity => .none
  | .tls _ => .tls
  | .reality _ => .reality

structure Features where
  udp : Option Bool
  multiplex : Option Bool
  protocolVariant : Option ProtocolVariant
deriving DecidableEq, Repr

inductive MatchMethod where
  | stableExternalKey | manualBinding | exactFingerprint
deriving DecidableEq, Repr

structure Origin where
  sourceResourceID : ID
  sourceItemID : ID
  matchMethod : MatchMethod
deriving DecidableEq, Repr

/-- A proxy server. -/
structure Node where
  schemaVersion : ℕ
  protocol : Protocol
  endpoint : Endpoint
  auth : Authentication
  transport : Transport
  security : Security
  features : Features
  origin : Option Origin
deriving DecidableEq, Repr

/-! ## Validity -/

/-- The string formats that the schema validator asserts for hosts. -/
structure Formats where
  hostname : String → Bool
  ipv4 : String → Bool
  ipv6 : String → Bool

section
variable (formats : Formats)

def validHost (s : String) : Bool :=
  1 ≤ s.length && s.length ≤ 253 && s.toList.all (fun c => !Text.isUpper c) &&
    (formats.hostname s || formats.ipv4 s || formats.ipv6 s)

/-- A non-empty value without the zero byte that is not a display mask. -/
def validSecret (s : Secret) : Bool :=
  s ≠ "" && !s.toList.contains '\x00' &&
    !(["********", "REDACTED", "<redacted>", "[REDACTED]"].contains s)

def validText (s : String) : Bool := s ≠ "" && s.toList.all (fun c => !Text.isControl c)

def validFingerprint (s : String) : Bool :=
  match s.toList with
  | [] => false
  | c :: cs =>
    Text.isLower c && cs.length ≤ 63 &&
      cs.all (fun c => Text.isLower c || Text.isDigit c || c == '_' || c == '-')

def validPublicKey (s : Secret) : Bool :=
  Text.matchesClasses
    (List.replicate 42 Text.isBase64Url ++ ["AEIMQUYcgkosw048".toList.contains]) s.toList

def validShortID (s : Secret) : Bool :=
  s.length ≤ 16 && s.length % 2 == 0 && s.toList.all Text.isLowerHex

def validPath (s : String) : Bool :=
  match s.toList with
  | '/' :: cs => cs.all (fun c => !(c ≤ ' ') && c != '\x7f' && c != '#')
  | _ => false

def Endpoint.validate (e : Endpoint) : Bool :=
  validHost formats e.host && 1 ≤ e.port && e.port ≤ 65535

def Authentication.validate : Authentication → Bool
  | .methodPassword method secret => method ≠ .unset && validSecret secret
  | .vmess id cipher => Text.isUUID id && cipher ≠ .unset
  | .uuid id => Text.isUUID id
  | .password secret => validSecret secret
  | .usernamePassword name secret => validSecret name && validSecret secret
  | .noAuth => true

def Transport.validate : Transport → Bool
  | .nativeTCP => true
  | .webSocket path host => validPath path && host.all (validHost formats)

/-- An empty list is encoded as an absent one, so only the entries are checked. -/
def validALPN (alpn : List String) : Bool := alpn.all validText

def Security.validate : Security → Bool
  | .noSecurity => true
  | .tls t =>
    validHost formats t.serverName && t.verifyCertificate.isSome && validALPN t.alpn &&
      t.clientFingerprint.all validFingerprint
  | .reality r =>
    validHost formats r.serverName && validPublicKey r.publicKey && validShortID r.shortID &&
      validFingerprint r.clientFingerprint && validALPN r.alpn

def Origin.validate (o : Origin) : Bool :=
  ID.validate o.sourceResourceID && ID.validate o.sourceItemID

/-- The credentials, transport and security that a protocol allows. -/
def Node.protocolOk (n : Node) : Bool :=
  match n.protocol with
  | .shadowsocks =>
    n.auth.kind = .methodPassword && n.transport = .nativeTCP && n.security.mode = .none
  | .vmess => n.auth.kind = .vmessAEAD && n.security.mode ≠ .reality
  | .vless => n.auth.kind = .uuid
  | .trojan => n.auth.kind = .password && n.security.mode = .tls
  | .socks5 | .http =>
    (n.auth.kind = .none || n.auth.kind = .usernamePassword) && n.transport = .nativeTCP &&
      n.security.mode ≠ .reality

/-- What REALITY and a protocol variant require of the rest of the node. -/
def Node.featuresOk (n : Node) : Bool :=
  (n.security.mode ≠ .reality || (n.protocol = .vless && n.transport = .nativeTCP)) &&
    (n.features.protocolVariant = none ||
      (n.protocol = .vless && n.transport = .nativeTCP && n.security.mode ≠ .none))

/-- `Node.Validate`. -/
def Node.validate (n : Node) : Bool :=
  n.schemaVersion = IR.schemaVersion && n.endpoint.validate formats && n.auth.validate &&
    n.transport.validate formats && n.security.validate formats && n.origin.all Origin.validate &&
    n.protocolOk && n.featuresOk

end

end ProxyLoom.IR
