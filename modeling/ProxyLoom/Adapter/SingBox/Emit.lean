import ProxyLoom.Adapter.Outbound

/-!
# The sing-box emitter

The document that a sing-box core is configured with, and the emitter that writes it: outbounds for
the nodes and chains, selectors for manual groups, the routing rules with a resolve rule before each
direct target, and the DNS servers and rules.
-/

namespace ProxyLoom.Adapter.SingBox

open IR

def listenPort : ℕ := 17802

/-! ## The document -/

structure UTLS where
  enabled : Bool
  fingerprint : String
deriving DecidableEq, Repr

structure Reality where
  enabled : Bool
  publicKey : String
  shortID : String
deriving DecidableEq, Repr

structure TLS where
  enabled : Bool
  serverName : String
  insecure : Bool
  alpn : List String
  utls : Option UTLS
  reality : Option Reality
deriving DecidableEq, Repr

structure WSTransport where
  path : String
  host : Option String
deriving DecidableEq, Repr

inductive OutboundType where
  | node (protocol : Protocol)
  | selector
  | direct
deriving DecidableEq, Repr

def OutboundType.text : OutboundType → String
  | .node .socks5 => "socks"
  | .node protocol => protocol.text
  | .selector => "selector"
  | .direct => "direct"

structure Outbound where
  type : OutboundType
  tag : String
  server : String := ""
  serverPort : ℕ := 0
  password : String := ""
  network : Option Network := none
  tls : Option TLS := none
  detour : String := ""
  method : String := ""
  uuid : String := ""
  security : String := ""
  flow : String := ""
  username : String := ""
  version : String := ""
  transport : Option WSTransport := none
  domainResolver : String := ""
  outbounds : List String := []
  default : String := ""
deriving DecidableEq, Repr

inductive Action where
  | route | reject | resolve
deriving DecidableEq, Repr

/-- A logical rule combines its sub-rules; any other rule has one populated field. -/
structure RouteRule where
  inbound : List String := []
  outbound : String := ""
  logical : Option Connective := none
  rules : List RouteRule := []
  domain : List String := []
  domainSuffix : List String := []
  ipCIDR : List String := []
  portRange : List String := []
  network : List String := []
  action : Action := .route
deriving Repr

structure Inbound where
  type : String
  tag : String
  listen : String
  listenPort : ℕ
deriving DecidableEq, Repr

structure Route where
  rules : List RouteRule
  final : String
deriving Repr

structure DNSServer where
  kind : DNSResolverKind
  tag : String
  server : String
  serverPort : ℕ
  path : String := ""
  tls : Option TLS := none
  domainResolver : String := ""
  detour : String := ""
deriving DecidableEq, Repr

structure DNSRule where
  rule : RouteRule
  server : String
deriving Repr

structure DNSConfig where
  servers : List DNSServer
  rules : List DNSRule
  final : String
deriving Repr

structure ClashAPI where
  externalController : String
  accessControlAllowOrigin : List String
  accessControlAllowPrivateNetwork : Bool
deriving DecidableEq, Repr

structure Document where
  inbounds : List Inbound
  outbounds : List Outbound
  route : Route
  dns : Option DNSConfig
  experimental : Option ClashAPI
deriving Repr

/-! ## Nodes -/

def credentials (m : MappedNode) (item : Outbound) : Outbound :=
  match m.node.protocol with
  | .trojan => { item with password := m.password }
  | .shadowsocks => { item with method := m.cipher, password := m.password }
  | .vmess => { item with uuid := m.uuid, security := m.cipher }
  | .vless => { item with uuid := m.uuid, flow := m.flow }
  | .socks5 => { item with version := "5", username := m.username, password := m.password }
  | .http => { item with username := m.username, password := m.password }

def tlsOf (m : MappedNode) : Option TLS :=
  match m.reality, m.tls with
  | some r, _ => some
    { enabled := true, serverName := r.serverName, insecure := false, alpn := r.alpn
      utls := some ⟨true, r.clientFingerprint⟩
      reality := some ⟨true, r.publicKey, r.shortID⟩ }
  | none, some t => some
    { enabled := true, serverName := t.serverName
      insecure := !(t.verifyCertificate.getD false), alpn := t.alpn
      utls := t.clientFingerprint.map fun fp => ⟨true, fp⟩, reality := none }
  | none, none => none

def nodeOutbound (tag : String) (m : MappedNode) (dialer : String) : Outbound :=
  let n := m.node
  { credentials m
      { type := .node n.protocol, tag, server := n.endpoint.host, serverPort := n.endpoint.port
        detour := dialer
        network := if n.features.udp = some false ∧ n.protocol ≠ .http then some .tcp else none }
    with
    transport := m.ws.map fun (path, host) => ⟨path, host⟩
    tls := tlsOf m }

/-! ## Conditions -/

/-- `strconv.Atoi` accepts the text. -/
def isInt (cs : List Char) : Bool :=
  match cs with
  | '+' :: cs | '-' :: cs => (Scan.number cs).isSome
  | cs => (Scan.number cs).isSome

def portRange (value : String) : String :=
  if isInt value.toList then value ++ ":" ++ value else value

mutual

def nativeCondition : Condition → RouteRule
  | .leaf .domain values => { domain := values }
  | .leaf .domainSuffix values => { domainSuffix := values }
  | .leaf .ipCIDR values => { ipCIDR := values }
  | .leaf .port values => { portRange := values.map portRange }
  | .leaf .network values => { network := values }
  | .node op terms => { logical := some op, rules := nativeConditions terms }

def nativeConditions : List Condition → List RouteRule
  | [] => []
  | t :: terms => nativeCondition t :: nativeConditions terms

end

mutual

def conditionUsesIP : Condition → Bool
  | .leaf kind _ => kind = .ipCIDR
  | .node _ terms => conditionsUseIP terms

def conditionsUseIP : List Condition → Bool
  | [] => false
  | t :: terms => conditionUsesIP t || conditionsUseIP terms

end

mutual

/-- A condition over names only, without empty parts. -/
def dnsDomainCondition : Condition → Bool
  | .leaf .domain values | .leaf .domainSuffix values => values ≠ []
  | .leaf _ _ => false
  | .node _ terms => terms.length ≠ 0 && dnsDomainConditions terms

def dnsDomainConditions : List Condition → Bool
  | [] => true
  | t :: terms => dnsDomainCondition t && dnsDomainConditions terms

end

/-! ## DNS -/

section
variable (lib : Libraries) (input : EmitInput)

def dnsFail (d : DNSInput) (path : String) : List Diagnostic :=
  [compileIssue .compileUnmappedField path input.targetKey d.resourceID]

/-- The HTTPS part of a resolver: only a path is kept of its URL. -/
def httpsServer (r : DNSResolver) (u : URL) (server : DNSServer) : DNSServer :=
  { server with
    server := u.hostname
    serverPort := if u.port = "" then 443 else (Scan.number u.port.toList).getD 0
    path := if u.escapedPath = "" then "/" else u.escapedPath
    tls := some
      { enabled := true, serverName := u.hostname, insecure := false, alpn := [], utls := none
        reality := none }
    domainResolver := if lib.isAddr u.hostname then "" else r.bootstrapResolverID }

def dnsServer (d : DNSInput) (entry : DNSResolver × ℕ) : Except (List Diagnostic) DNSServer :=
  let (r, i) := entry
  let path := "/payload/resolvers/" ++ toString i
  let tag := input.resolvePolicyTag (d.tagOf r.resolverID)
  let server : DNSServer :=
    { kind := r.kind, tag := r.resolverID, server := r.address, serverPort := r.port
      detour := if r.kind ≠ .localDNS ∧ tag ≠ directTag then tag else "" }
  if r.kind ≠ .localDNS ∧ (tag = "" ∨ tag = blockTag) then
    .error (dnsFail input d (path ++ "/outbound"))
  else
    match r.kind with
    | .https =>
      match lib.parseURL r.url with
      | none => .error (dnsFail input d (path ++ "/url"))
      | some u =>
        if u.rawQuery ≠ "" ∨ u.forceQuery = true then
          .error (dnsFail input d (path ++ "/url"))
        else .ok (httpsServer lib r u server)
    | _ => .ok server

def dnsRule (d : DNSInput) (rule : Adapter.RouteRule) : Except (List Diagnostic) DNSRule :=
  if rule.target ∉ d.profile.resolvers.map DNSResolver.resolverID then
    .error (dnsFail input d (rule.fieldPath ++ "/resolver_id"))
  else if dnsDomainCondition rule.condition = false then
    .error (dnsFail input d (rule.fieldPath ++ "/match"))
  else .ok ⟨nativeCondition rule.condition, rule.target⟩

def bootstrapServer (b : BootstrapResolver) : DNSServer :=
  { kind := b.kind, tag := b.resolverID, server := b.address, serverPort := b.port }

def dnsConfig (d : DNSInput) : Except (List Diagnostic) DNSConfig := do
  if maxRules < d.rules.length then
    .error [compileIssue .inputLimitExceeded "/payload/rules" input.targetKey d.resourceID]
  else
    let servers ← d.profile.resolvers.zipIdx.mapM (dnsServer lib input d)
    if d.profile.finalResolver ∉ d.profile.resolvers.map DNSResolver.resolverID then
      .error (dnsFail input d "/payload/final_resolver")
    else
      let rules ← d.rules.mapM (dnsRule input d)
      .ok ⟨d.profile.bootstrap.map bootstrapServer ++ servers, rules, d.profile.finalResolver⟩

def applyDNS (doc : Document) : Except (List Diagnostic) Document :=
  match input.dns with
  | none => .ok doc
  | some d => (dnsConfig lib input d).map fun dns => { doc with dns := some dns }

/-! ## Orchestration -/

def listenerText : ListenerProtocol → String
  | .socks5 => "socks"
  | .http => "http"
  | .mixed => "mixed"

def controlled : Bool := input.preset.any fun p => p.controlAPI.enabled

def clashAPI : Option ClashAPI :=
  (input.preset.filter fun p => p.controlAPI.enabled).map fun p =>
    let address := HostPort.joinHostPort p.controlAPI.listen (toString p.controlAPI.port)
    ⟨address, ["http://" ++ address], false⟩

/-- A manual group is a selector if there is a controller; a fixed one needs no outbound. -/
def selector (p : PolicyInstance) : Except (List Diagnostic) (Option Outbound) :=
  if p.strategy = .manualSelect ∧ controlled input = true then
    .ok (some { type := .selector, tag := p.tag, outbounds := p.members, default := p.default })
  else if p.strategy ≠ .fixed then
    .error [compileIssue .capabilityUnsupported "/payload/strategy" input.targetKey p.resourceID]
  else .ok none

def directOutbound : Outbound :=
  { type := .direct, tag := directTag
    domainResolver := (input.dns.map fun d => d.profile.finalResolver).getD "" }

def targetRule (rule : RouteRule) (tag : String) : RouteRule :=
  let tag := input.resolvePolicyTag tag
  if tag = blockTag then { rule with action := .reject } else { rule with outbound := tag }

/-- A direct target is resolved first. -/
def targetRules (rule : RouteRule) (tag : String) : List RouteRule :=
  (if input.dns.isSome ∧ input.resolvePolicyTag tag = directTag then
    [{ rule with action := .resolve }] else []) ++ [targetRule input rule tag]

/-- Resolving ends the routing when it fails, so a rule on addresses cannot ask for it. -/
def routeRules (r : RoutingInput) (rule : Adapter.RouteRule) :
    Except (List Diagnostic) (List RouteRule) :=
  if r.mode = .resolveForIPRules ∧ conditionUsesIP rule.condition = true then
    .error [compileIssue .compileUnmappedField "/payload/domain_resolution_mode" input.targetKey
      r.resourceID]
  else .ok (targetRules input (nativeCondition rule.condition) rule.target)

def profileRules : Except (List Diagnostic) (List (List RouteRule)) :=
  match input.routing with
  | none => .ok []
  | some r => r.rules.mapM (routeRules input r)

def exitRules : List RouteRule :=
  targetRules input { inbound := [inboundTag] } (input.resolvePolicyTag input.exit)

def applyOrchestration (doc : Document) : Except (List Diagnostic) Document := do
  let listener := input.listener .socks5 listenPort
  let inbounds := doc.inbounds.modifyHead fun i =>
    { i with type := listenerText listener.protocol, listen := listener.listen
             listenPort := listener.port }
  let selectors ← input.policies.mapM (selector input)
  let direct := if input.usesTag directTag then [directOutbound input] else []
  let rules ← profileRules input
  let exit := input.resolvePolicyTag input.exit
  applyDNS lib input
    { doc with
      inbounds
      outbounds := doc.outbounds ++ selectors.flatMap Option.toList ++ direct
      route := ⟨rules.flatten ++ exitRules input, if exit = blockTag then "" else exit⟩
      experimental := clashAPI input }

/-! ## Encoding -/

open Json

def TLS.value (t : TLS) : Value :=
  .obj ([("enabled", .bool t.enabled), ("server_name", .str t.serverName),
      ("insecure", .bool t.insecure)] ++ omitStrs "alpn" t.alpn ++
    omitNone "utls" (t.utls.map fun u =>
      .obj [("enabled", .bool u.enabled), ("fingerprint", .str u.fingerprint)]) ++
    omitNone "reality" (t.reality.map fun r =>
      .obj [("enabled", .bool r.enabled), ("public_key", .str r.publicKey),
        ("short_id", .str r.shortID)]))

def WSTransport.value (t : WSTransport) : Value :=
  .obj ([("type", .str "ws"), ("path", .str t.path)] ++
    omitNone "headers" (t.host.map fun host => .obj [("Host", .str host)]))

def Outbound.fields (o : Outbound) : List Field :=
  [("type", .str o.type.text), ("tag", .str o.tag)] ++ omitStr "server" o.server ++
    omitNum "server_port" o.serverPort ++ omitStr "password" o.password ++
    omitNone "network" (o.network.map fun n => .str n.text) ++
    omitNone "tls" (o.tls.map TLS.value) ++ omitStr "detour" o.detour ++
    omitStr "method" o.method ++ omitStr "uuid" o.uuid ++ omitStr "security" o.security ++
    omitStr "flow" o.flow ++ omitStr "username" o.username ++ omitStr "version" o.version ++
    omitNone "transport" (o.transport.map WSTransport.value) ++
    omitStr "domain_resolver" o.domainResolver ++ omitStrs "outbounds" o.outbounds ++
    omitStr "default" o.default

/-! ## Emission -/

def dialConflictFields : List String :=
  ["bind_interface", "inet4_bind_address", "inet6_bind_address", "routing_mark", "reuse_addr",
    "netns", "connect_timeout", "tcp_fast_open", "tcp_multi_path", "udp_fragment",
    "domain_strategy", "network_strategy", "network_type", "fallback_network_type",
    "fallback_delay"]

def dialFieldConflict (item : Outbound) : Option String :=
  if item.detour = "" then none
  else dialConflictFields.find? fun field => (item.fields.map Prod.fst).contains field

def withBootstrap (ref : OutboundRef) (m : MappedNode) (item : Outbound) :
    Except (List Diagnostic) Outbound :=
  match input.dns with
  | none => .ok item
  | some d =>
    if needsBootstrap lib m.node then
      match d.profile.bootstrap with
      | [] => .error [compileIssue .compileDialConflict (ref.fieldPath ++ "/endpoint/host")
          input.targetKey (resourceID ref.resource)]
      | b :: _ => .ok { item with domainResolver := b.resolverID }
    else .ok item

def refOutbound (ref : OutboundRef) : Except (List Diagnostic) Outbound := do
  let m ← mapNode lib ref.resource ref.fieldPath input.targetKey
  let item ← withBootstrap lib input ref m (nodeOutbound ref.tag m ref.dialerTag)
  match dialFieldConflict item with
  | some conflict => .error [compileIssue .compileDialConflict (ref.fieldPath ++ "/" ++ conflict)
      input.targetKey (resourceID ref.resource)]
  | none => .ok item

def initialDocument (exit : String) (outbounds : List Outbound) : Document :=
  { inbounds := [⟨"socks", inboundTag, loopbackAddr, listenPort⟩]
    outbounds
    route := ⟨[{ inbound := [inboundTag], outbound := exit }], exit⟩
    dns := none
    experimental := none }

def ruleCount (doc : Document) : ℕ :=
  doc.route.rules.length + (doc.dns.map fun d => d.rules.length).getD 0

def emit : Except (List Diagnostic) Document := do
  let (exit, refs) ← input.orderedOutboundRefs
  let outbounds ← refs.mapM (refOutbound lib input)
  let doc ← applyOrchestration lib input (initialDocument exit outbounds)
  input.checkNativeCounts doc.outbounds.length (ruleCount doc)
  .ok doc

end

end ProxyLoom.Adapter.SingBox
