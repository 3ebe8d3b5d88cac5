import ProxyLoom.Adapter.Outbound
import ProxyLoom.Adapter.DNSDomains

/-!
# The Xray emitter

The document that an Xray core is configured with, and the emitter that writes it: outbounds for the
nodes and chains, balancers for round-robin groups, the routing rules with every condition written
as a disjunction of flat rules, and the DNS servers with a route for each resolver.
-/

namespace ProxyLoom.Adapter.Xray

open IR Domain

def listenPort : ℕ := 17801

/-! ## The document -/

inductive OutboundProtocol where
  | node (protocol : Protocol)
  | blackhole
  | freedom
deriving DecidableEq, Repr

def OutboundProtocol.text : OutboundProtocol → String
  | .node .socks5 => "socks"
  | .node protocol => protocol.text
  | .blackhole => "blackhole"
  | .freedom => "freedom"

structure CredentialUser where
  id : String := ""
  encryption : String := ""
  security : String := ""
  flow : String := ""
  user : String := ""
  pass : String := ""
deriving DecidableEq, Repr

structure RemoteServer where
  address : String
  port : ℕ
  method : String := ""
  password : String := ""
  users : List CredentialUser := []
deriving DecidableEq, Repr

inductive Settings where
  | trojan (address : String) (port : ℕ) (password : String)
  | servers (server : RemoteServer)
  | vnext (server : RemoteServer)
  | freedom (domainStrategy : String)
deriving DecidableEq, Repr

structure WSConf where
  path : String
  host : Option String
deriving DecidableEq, Repr

structure RealityConf where
  serverName : String
  fingerprint : String
  publicKey : String
  shortID : String
deriving DecidableEq, Repr

structure TLSConf where
  serverName : String
  allowInsecure : Bool
  alpn : List String
  fingerprint : String
deriving DecidableEq, Repr

structure Sockopt where
  dialerProxy : String
  domainStrategy : String := ""
deriving DecidableEq, Repr

structure Stream where
  network : String
  security : String
  tls : Option TLSConf := none
  ws : Option WSConf := none
  reality : Option RealityConf := none
  sockopt : Option Sockopt := none
deriving DecidableEq, Repr

structure Outbound where
  protocol : OutboundProtocol
  settings : Option Settings := none
  streamSettings : Option Stream := none
  tag : String
deriving DecidableEq, Repr

/-- The populated fields have to hold together; the domains are one union of patterns. -/
structure RoutingRule where
  inboundTag : List String
  outboundTag : String := ""
  balancerTag : String := ""
  domain : List Pattern := []
  ip : List String := []
  port : String := ""
  network : String := ""
deriving DecidableEq, Repr

structure Balancer where
  tag : String
  selector : List String
  fallbackTag : String
deriving DecidableEq, Repr

structure Inbound where
  listen : String
  port : ℕ
  protocol : String
  tag : String
deriving DecidableEq, Repr

structure Routing where
  domainStrategy : String
  rules : List RoutingRule
  balancers : List Balancer := []
deriving DecidableEq, Repr

structure DNSServer where
  address : String
  port : ℕ
  domains : List Pattern := []
  tag : String
  skipFallback : Bool
deriving DecidableEq, Repr

/-- An empty observatory is written beside balancers, which probe nothing. -/
structure Document where
  inbounds : List Inbound
  outbounds : List Outbound
  routing : Routing
  dns : Option (List DNSServer) := none
  observatory : Bool := false
deriving DecidableEq, Repr

def patternText : PatternText := ⟨"full:", "domain:"⟩

/-! ## Nodes -/

def settingsOf (m : MappedNode) : Settings :=
  let endpoint := m.node.endpoint
  let server : RemoteServer := { address := endpoint.host, port := endpoint.port }
  match m.node.protocol with
  | .trojan => .trojan endpoint.host endpoint.port m.password
  | .shadowsocks => .servers { server with method := m.cipher, password := m.password }
  | .vmess => .vnext
    { server with users := [{ id := m.uuid, flow := m.flow, security := m.cipher }] }
  | .vless =>
    .vnext { server with users := [{ id := m.uuid, flow := m.flow, encryption := "none" }] }
  | .socks5 | .http =>
    .servers { server with
      users := if m.node.auth.kind = .usernamePassword then
        [{ user := m.username, pass := m.password }] else [] }

def withWS (m : MappedNode) (s : Stream) : Stream :=
  match m.ws with
  | some (path, host) => { s with network := "ws", ws := some ⟨path, host⟩ }
  | none => s

def withTLS (m : MappedNode) (s : Stream) : Stream :=
  match m.tls with
  | some t =>
    { s with
      security := "tls"
      tls := some ⟨t.serverName, !(t.verifyCertificate.getD false), t.alpn,
        t.clientFingerprint.getD ""⟩ }
  | none => s

def withReality (m : MappedNode) (s : Stream) : Stream :=
  match m.reality with
  | some r =>
    { s with
      security := "reality"
      reality := some ⟨r.serverName, r.clientFingerprint, r.publicKey, r.shortID⟩ }
  | none => s

def streamOf (m : MappedNode) (dialer : String) : Stream :=
  { withReality m (withTLS m (withWS m { network := "tcp", security := "none" })) with
    sockopt := if dialer = "" then none else some { dialerProxy := dialer } }

def nodeOutbound (tag : String) (m : MappedNode) (dialer : String) : Outbound where
  protocol := .node m.node.protocol
  settings := some (settingsOf m)
  streamSettings := some (streamOf m dialer)
  tag := tag

/-! ## Encoding -/

section
open Json

def CredentialUser.value (u : CredentialUser) : Value :=
  .obj (omitStr "id" u.id ++ omitStr "encryption" u.encryption ++ omitStr "security" u.security ++
    omitStr "flow" u.flow ++ omitStr "user" u.user ++ omitStr "pass" u.pass)

def RemoteServer.value (s : RemoteServer) : Value :=
  .obj ([("address", .str s.address), ("port", .num s.port)] ++ omitStr "method" s.method ++
    omitStr "password" s.password ++ omitList "users" (s.users.map CredentialUser.value))

def Settings.value : Settings → Value
  | .trojan address port password =>
    .obj [("servers", .list [.obj [("address", .str address), ("port", .num port),
      ("password", .str password)]])]
  | .servers server => .obj [("servers", .list [server.value])]
  | .vnext server => .obj [("vnext", .list [server.value])]
  | .freedom domainStrategy => .obj [("domainStrategy", .str domainStrategy)]

def TLSConf.value (t : TLSConf) : Value :=
  .obj ([("serverName", .str t.serverName), ("allowInsecure", .bool t.allowInsecure)] ++
    omitStrs "alpn" t.alpn ++ omitStr "fingerprint" t.fingerprint)

def WSConf.value (w : WSConf) : Value :=
  .obj ([("path", .str w.path)] ++
    omitNone "headers" (w.host.map fun host => .obj [("Host", .str host)]))

def RealityConf.value (r : RealityConf) : Value :=
  .obj [("serverName", .str r.serverName), ("fingerprint", .str r.fingerprint),
    ("publicKey", .str r.publicKey), ("shortId", .str r.shortID)]

def Sockopt.value (s : Sockopt) : Value :=
  .obj ([("dialerProxy", .str s.dialerProxy)] ++ omitStr "domainStrategy" s.domainStrategy)

def Stream.value (s : Stream) : Value :=
  .obj ([("network", .str s.network), ("security", .str s.security)] ++
    omitNone "tlsSettings" (s.tls.map TLSConf.value) ++
    omitNone "wsSettings" (s.ws.map WSConf.value) ++
    omitNone "realitySettings" (s.reality.map RealityConf.value) ++
    omitNone "sockopt" (s.sockopt.map Sockopt.value))

def Outbound.value (o : Outbound) : Value :=
  .obj ([("protocol", .str o.protocol.text)] ++
    omitNone "settings" (o.settings.map Settings.value) ++
    omitNone "streamSettings" (o.streamSettings.map Stream.value) ++ [("tag", .str o.tag)])

def patternValues (l : List Pattern) : List String := l.map patternText.text

def RoutingRule.value (r : RoutingRule) : Value :=
  .obj ([("type", .str "field"), ("inboundTag", strs r.inboundTag)] ++
    omitStr "outboundTag" r.outboundTag ++ omitStr "balancerTag" r.balancerTag ++
    omitStrs "domain" (patternValues r.domain) ++ omitStrs "ip" r.ip ++ omitStr "port" r.port ++
    omitStr "network" r.network)

def Balancer.value (b : Balancer) : Value :=
  .obj [("tag", .str b.tag), ("selector", strs b.selector), ("fallbackTag", .str b.fallbackTag),
    ("strategy", .obj [("type", .str "roundRobin")])]

def Inbound.value (i : Inbound) : Value :=
  .obj [("listen", .str i.listen), ("port", .num i.port), ("protocol", .str i.protocol),
    ("settings", .obj [("auth", .str "noauth"), ("udp", .bool false)]), ("tag", .str i.tag)]

def Routing.value (r : Routing) : Value :=
  .obj ([("domainStrategy", .str r.domainStrategy),
      ("rules", .list (r.rules.map RoutingRule.value))] ++
    omitList "balancers" (r.balancers.map Balancer.value))

def DNSServer.value (s : DNSServer) : Value :=
  .obj ([("address", .str s.address)] ++ omitNum "port" s.port ++
    omitStrs "domains" (patternValues s.domains) ++ omitStr "tag" s.tag ++
    [("skipFallback", .bool s.skipFallback), ("finalQuery", .bool true)])

def dnsValue (servers : List DNSServer) : Value :=
  .obj [("servers", .list (servers.map DNSServer.value)), ("disableFallback", .bool false),
    ("disableFallbackIfMatch", .bool true), ("enableParallelQuery", .bool false),
    ("useSystemHosts", .bool false)]

def Document.value (doc : Document) : Value :=
  .obj ([("log", .obj [("loglevel", .str "warning")]),
      ("inbounds", .list (doc.inbounds.map Inbound.value)),
      ("outbounds", .list (doc.outbounds.map Outbound.value)),
      ("routing", doc.routing.value)] ++ omitNone "dns" (doc.dns.map dnsValue) ++
    omitNone "observatory" (if doc.observatory then some (.obj [("subjectSelector", .list [])])
      else none))

end

/-! ## Conditions -/

abbrev Leaf := LeafKind × List String

mutual

/-- The alternatives of a condition, each a conjunction of leaves. -/
def distribute : Condition → List (List Leaf)
  | .leaf kind values => [[(kind, values)]]
  | .node .or terms => distributeAny terms
  | .node .and terms => distributeAll [[]] terms

def distributeAny : List Condition → List (List Leaf)
  | [] => []
  | c :: terms => distribute c ++ distributeAny terms

/-- The loop of an AND: every alternative so far with every alternative of the next term. -/
def distributeAll (result : List (List Leaf)) : List Condition → List (List Leaf)
  | [] => result
  | c :: terms =>
    distributeAll (result.flatMap fun a => (distribute c).map fun b => a ++ b) terms

end

def joinValues (values : List String) : List Char := Scan.join ',' (values.map String.toList)

/-- Networks are nested or disjoint. A text that is no network includes nothing. -/
def networks (schema : Schema) : Laminar String Netip.Addr where
  Ok text := (schema.parsePrefix text).isSome = true
  holds text a := (schema.parsePrefix text).any fun p => p.contains a
  includes a b := (schema.parsePrefix a).any fun p => (schema.parsePrefix b).any p.includes
  sound {a b x} ha hb hab hx := by
    obtain ⟨p, hp⟩ := Option.isSome_iff_exists.mp ha
    obtain ⟨q, hq⟩ := Option.isSome_iff_exists.mp hb
    rw [hp, hq] at hab
    rw [hq] at hx
    rw [hp]
    exact Netip.Prefix.contains_of_includes hab hx
  overlap {a b x} ha hb hax hbx := by
    obtain ⟨p, hp⟩ := Option.isSome_iff_exists.mp ha
    obtain ⟨q, hq⟩ := Option.isSome_iff_exists.mp hb
    rw [hp] at hax
    rw [hq] at hbx
    rw [hp, hq]
    exact Netip.Prefix.includes_or_includes hax hbx

section
variable (schema : Schema)

def addDomains (rule : RoutingRule) (incoming : List Pattern) : Option RoutingRule :=
  if rule.domain = [] then some { rule with domain := incoming }
  else
    let intersection := sortPatterns patternText (patterns.meet rule.domain incoming)
    if intersection = [] then none else some { rule with domain := intersection }

def addNetworks (rule : RoutingRule) (incoming : List String) : Option RoutingRule :=
  if rule.ip = [] then some { rule with ip := incoming }
  else
    let intersection := Slices.canonical ((networks schema).meet rule.ip incoming)
    if intersection = [] then none else some { rule with ip := intersection }

/-- The rule with one more leaf, or nothing if the leaf contradicts it. -/
def addCondition (rule : RoutingRule) : Leaf → Option RoutingRule
  | (.domain, values) => addDomains rule (values.map fun v => .full v.toList)
  | (.domainSuffix, values) => addDomains rule (values.map fun v => .tree v.toList)
  | (.ipCIDR, values) => addNetworks schema rule values
  | (.port, values) =>
    some { rule with port := String.ofList (Scan.replace ':' '-' (joinValues values)) }
  | (.network, values) => some { rule with network := String.ofList (joinValues values) }

end

/-! ## DNS -/

section
variable (lib : Libraries) (input : EmitInput)

def ruleTo (balancers : List Balancer) (inbound tag : String) : RoutingRule :=
  if balancers.any fun b => b.tag = tag then { inboundTag := [inbound], balancerTag := tag }
  else { inboundTag := [inbound], outboundTag := tag }

def dnsFail (d : DNSInput) (path : String) : List Diagnostic :=
  [compileIssue .compileUnmappedField path input.targetKey d.resourceID]

def dnsLimit (d : DNSInput) (path : String) : List Diagnostic :=
  [compileIssue .inputLimitExceeded path input.targetKey d.resourceID]

/-- The names of the nodes are resolved by the system, the first bootstrap resolver then. -/
def localBootstrap (p : DNSProfile) : Bool :=
  p.bootstrap.head?.any fun b => b.kind = .localDNS

/-- The last entry of a map that is filled in order. -/
def findBootstrap (p : DNSProfile) (resolverID : String) : Option BootstrapResolver :=
  p.bootstrap.reverse.find? fun b => b.resolverID = resolverID

structure Resolver where
  resolverID : String
  kind : DNSResolverKind
  index : ℕ
  server : DNSServer
deriving DecidableEq, Repr

def findResolver (resolvers : List Resolver) (resolverID : String) : Option Resolver :=
  resolvers.reverse.find? fun r => r.resolverID = resolverID

/-- A remote server by name is asked with the system's resolver, and only directly. -/
def httpsServer (d : DNSInput) (r : DNSResolver) (path tag : String) (server : DNSServer) :
    Except (List Diagnostic) DNSServer :=
  match lib.parseURL r.url with
  | none => .error (dnsFail input d (path ++ "/url"))
  | some u =>
    if lib.isAddr u.hostname then .ok { server with address := lib.urlText u }
    else if ((findBootstrap d.profile r.bootstrapResolverID).any fun b => b.kind = .localDNS) ∧
        tag = directTag then
      .ok { server with address := lib.urlText { u with scheme := "https+local" }, tag := "" }
    else .error (dnsFail input d (path ++ "/bootstrap_resolver_id"))

def dnsServer (d : DNSInput) (entry : DNSResolver × ℕ) : Except (List Diagnostic) DNSServer :=
  let (r, i) := entry
  let path := "/payload/resolvers/" ++ toString i
  let tag := input.resolvePolicyTag (d.tagOf r.resolverID)
  let server : DNSServer :=
    { address := r.address, port := r.port, tag := "dns_resolver_" ++ toString i
      skipFallback := true }
  match r.kind with
  | .localDNS => .ok { server with address := "localhost", tag := "" }
  | .udp => if tag = "" then .error (dnsFail input d (path ++ "/outbound")) else .ok server
  | .https =>
    if tag = "" then .error (dnsFail input d (path ++ "/outbound"))
    else httpsServer lib input d r path tag server

def resolver (d : DNSInput) (entry : DNSResolver × ℕ) : Except (List Diagnostic) Resolver :=
  (dnsServer lib input d entry).map fun server =>
    ⟨entry.1.resolverID, entry.1.kind, entry.2, server⟩

/-- The routes of the queries to servers that have a tag. -/
def dnsRoutes (balancers : List Balancer) (d : DNSInput) (resolvers : List Resolver) :
    List RoutingRule :=
  (resolvers.filter fun r => r.server.tag ≠ "").map fun r =>
    ruleTo balancers r.server.tag (input.resolvePolicyTag (d.tagOf r.resolverID))

/-- The names that the system's resolver claims for itself. -/
def privateSuffixes : List String :=
  ["local", "localdomain", "localhost", "lan", "home.arpa", "example", "invalid", "test"]

def matchesPrivate (p : Pattern) : Bool :=
  !p.name.contains '.' || privateSuffixes.any fun suffix =>
    under suffix.toList p.name ||
      match p with
      | .full _ => false
      | .tree name => ('.' :: name).isSuffixOf suffix.toList

def dnsMatchesPrivate (domains : List Pattern) : Bool := domains.any matchesPrivate

/-- The loop over the DNS rules: the patterns so far, the last rule with a local server, and the
servers. -/
structure RuleState where
  count : ℕ
  localRule : String
  servers : List DNSServer
deriving DecidableEq, Repr

/-- One DNS rule. A rule whose names contradict each other is left out. The system's resolver claims
names of its own, so it cannot serve a rule unless it is the final resolver, and no later rule for a
remote resolver may ask for such names. -/
def addRule (d : DNSInput) (resolvers : List Resolver) (final : Resolver) (st : RuleState)
    (rule : RouteRule) : Except (List Diagnostic) RuleState :=
  match findResolver resolvers rule.target with
  | none => .error (dnsFail input d (rule.fieldPath ++ "/resolver_id"))
  | some r =>
    match dnsDomains patternText rule.condition with
    | .error code =>
      .error [compileIssue code (rule.fieldPath ++ "/match") input.targetKey d.resourceID]
    | .ok domains =>
      let count := st.count + domains.length
      let servers := st.servers ++ [{ r.server with domains }]
      if maxRules < count then .error (dnsLimit input d (rule.fieldPath ++ "/match"))
      else if domains = [] then .ok { st with count }
      else if r.kind = .localDNS then
        if final.kind ≠ .localDNS then
          .error (dnsFail input d ("/payload/resolvers/" ++ toString r.index ++ "/kind"))
        else .ok { count, localRule := rule.fieldPath, servers }
      else if st.localRule ≠ "" ∧ dnsMatchesPrivate domains = true then
        .error (dnsFail input d (st.localRule ++ "/resolver_id"))
      else .ok { st with count, servers }

def dnsConfig (balancers : List Balancer) (d : DNSInput) :
    Except (List Diagnostic) (List DNSServer × List RoutingRule) := do
  let refs ← input.outboundRefs
  if refs.any (refNeedsBootstrap lib) = true ∧ localBootstrap d.profile = false then
    .error (dnsFail input d "/payload/bootstrap")
  else
    let resolvers ← d.profile.resolvers.zipIdx.mapM (resolver lib input d)
    match findResolver resolvers d.profile.finalResolver with
    | none => .error (dnsFail input d "/payload/final_resolver")
    | some final =>
      if maxRules < d.rules.length then .error (dnsLimit input d "/payload/rules")
      else
        let st ← d.rules.foldlM (addRule input d resolvers final) ⟨0, "", []⟩
        .ok (st.servers ++ [{ final.server with skipFallback := false }],
          dnsRoutes input balancers d resolvers)

def applyDNS (doc : Document) : Except (List Diagnostic) Document :=
  match input.dns with
  | none => .ok doc
  | some d => (dnsConfig lib input doc.routing.balancers d).map fun (servers, routes) =>
    { doc with
      dns := some servers
      routing := { doc.routing with rules := routes ++ doc.routing.rules } }

/-! ## Orchestration -/

/-- A balancer selects by the beginning of a tag, so no other outbound may begin with it. -/
def balancer (outbounds : List Outbound) (p : PolicyInstance) :
    Except (List Diagnostic) (Option Balancer) :=
  if p.strategy = .fixed then .ok none
  else if p.strategy ≠ .roundRobin then
    .error [compileIssue .capabilityUnsupported "/payload/strategy" input.targetKey p.resourceID]
  else if p.members.any fun tag => outbounds.any fun o =>
      o.tag ≠ tag && tag.toList.isPrefixOf o.tag.toList then
    .error [compileIssue .compileLabelCollision "/payload/members" input.targetKey p.resourceID]
  else .ok (some ⟨p.tag, p.members, blockTag⟩)

def directOutbound : Outbound where
  protocol := .freedom
  settings := if input.dns.isSome then some (.freedom "ForceIP") else none
  tag := directTag

def targetRule (balancers : List Balancer) (tag : String) : RoutingRule :=
  ruleTo balancers inboundTag (input.resolvePolicyTag tag)

/-- The alternatives of a rule, without those that contradict themselves. -/
def routeRules (schema : Schema) (balancers : List Balancer) (rule : RouteRule) :
    List RoutingRule :=
  (distribute rule.condition).filterMap fun terms =>
    terms.foldlM (addCondition schema) (targetRule input balancers rule.target)

def profileRules (schema : Schema) (balancers : List Balancer) : List RoutingRule :=
  (input.routing.toList.flatMap RoutingInput.rules).flatMap (routeRules input schema balancers)

def domainStrategy : String :=
  if input.routing.any fun r => r.mode = .resolveForIPRules then "IPOnDemand" else "AsIs"

/-- The mixed listener has no counterpart. -/
def listenerText : ListenerProtocol → Option String
  | .socks5 => some "socks"
  | .http => some "http"
  | .mixed => none

def applyOrchestration (schema : Schema) (doc : Document) :
    Except (List Diagnostic) Document := do
  let listener := input.listener .socks5 listenPort
  match listenerText listener.protocol with
  | none => .error [compileIssue .compileUnmappedField "/payload/local_listener/protocol"
      input.targetKey ""]
  | some protocol =>
    let inbounds := doc.inbounds.modifyHead fun i =>
      { i with protocol, listen := listener.listen, port := listener.port }
    let groups ← input.policies.mapM (balancer input doc.outbounds)
    let balancers := groups.flatMap Option.toList
    let direct := if input.usesTag directTag then [directOutbound input] else []
    applyDNS lib input
      { doc with
        inbounds
        outbounds := doc.outbounds ++ direct
        routing := ⟨domainStrategy input, profileRules input schema balancers ++
          [targetRule input balancers input.exit], balancers⟩
        observatory := balancers ≠ [] }

/-! ## Emission -/

/-- The encoding of a document contains the word in quotation marks: one of its texts is the word,
or ends in a quotation mark and the word. -/
def mentions (word : String) (v : Json.Value) : Bool :=
  v.texts.any fun text => ('"' :: word.toList).isSuffixOf ('"' :: text.toList)

def xrayDialConflict (item : Outbound) : Option String :=
  if ((item.streamSettings.bind Stream.sockopt).any fun s => s.dialerProxy ≠ "") &&
      mentions "proxySettings" item.value then
    some "proxySettings"
  else none

/-- The sockets of the core ask its DNS servers, which is the bootstrap only if all are local. -/
def withBootstrap (ref : OutboundRef) (m : MappedNode) (item : Outbound) :
    Except (List Diagnostic) Outbound :=
  match input.dns with
  | none => .ok item
  | some d =>
    if ref.dialerTag ≠ "" ∧ needsBootstrap lib m.node = true then
      if localBootstrap d.profile && d.profile.resolvers.all fun r => r.kind = .localDNS then
        .ok { item with
          streamSettings := item.streamSettings.map fun s =>
            { s with sockopt := s.sockopt.map fun o => { o with domainStrategy := "ForceIP" } } }
      else .error [compileIssue .compileUnmappedField (ref.fieldPath ++ "/endpoint/host")
        input.targetKey (resourceID ref.resource)]
    else .ok item

def refOutbound (ref : OutboundRef) : Except (List Diagnostic) Outbound := do
  let m ← mapNode lib ref.resource ref.fieldPath input.targetKey
  if m.reality.any fun r => r.alpn ≠ [] then
    .error [compileIssue .compileUnmappedField (ref.fieldPath ++ "/security/alpn") input.targetKey
      (resourceID ref.resource)]
  else
    let item ← withBootstrap lib input ref m (nodeOutbound ref.tag m ref.dialerTag)
    match if ref.dialerTag = "" then none else xrayDialConflict item with
    | some conflict => .error [compileIssue .compileDialConflict
        (ref.fieldPath ++ "/streamSettings/" ++ conflict) input.targetKey (resourceID ref.resource)]
    | none => .ok item

def initialDocument (exit : String) (outbounds : List Outbound) : Document :=
  { inbounds := [⟨loopbackAddr, listenPort, "socks", inboundTag⟩]
    outbounds := outbounds ++ [{ protocol := .blackhole, tag := blockTag }]
    routing := ⟨"AsIs", [{ inboundTag := [inboundTag], outboundTag := exit }], []⟩ }

def ruleCount (doc : Document) : ℕ :=
  doc.routing.rules.length + (doc.dns.map List.length).getD 0

/-- A field of the document with the given key and, if one is given, that text as its value. -/
def hasField (v : Json.Value) (key : String) (text : Option String) : Bool :=
  (v.entries "").any fun e => e.key = key &&
    match e.value with
    | .str s => text.all fun t => s = t
    | _ => text.isNone

/-- The document dials through another outbound by the wrong means, or directly unasked. -/
def forbidden (doc : Document) : Bool :=
  hasField doc.value "proxySettings" none ||
    (!input.usesTag directTag && hasField doc.value "protocol" (some "freedom"))

def emit (schema : Schema) : Except (List Diagnostic) Document := do
  let (exit, refs) ← input.orderedOutboundRefs
  let outbounds ← refs.mapM (refOutbound lib input)
  let doc ← applyOrchestration lib input schema (initialDocument exit outbounds)
  input.checkNativeCounts (doc.outbounds.length + doc.routing.balancers.length) (ruleCount doc)
  if forbidden input doc then
    .error [compileIssue .compileDialConflict "/outbounds" input.targetKey ""]
  else .ok doc

end

/-! ## Tags of the outbounds -/

section
variable {lib : Libraries} {input : EmitInput} {ref : OutboundRef} {item o : Outbound}

theorem withBootstrap_tag {m : MappedNode} (h : withBootstrap lib input ref m item = .ok o) :
    o.tag = item.tag := by
  unfold withBootstrap at h
  split at h
  · cases h
    rfl
  · split_ifs at h <;> cases h <;> rfl

theorem refOutbound_tag (h : refOutbound lib input ref = .ok o) : o.tag = ref.tag := by
  unfold refOutbound at h
  obtain ⟨m, -, h⟩ := Except.of_bind h
  obtain ⟨-, h⟩ := Except.of_ite h
  obtain ⟨item, hitem, h⟩ := Except.of_bind h
  split at h
  · cases h
  · cases h
    exact withBootstrap_tag hitem

end

end ProxyLoom.Adapter.Xray
