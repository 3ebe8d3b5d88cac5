import ProxyLoom.Adapter.Outbound
import ProxyLoom.Adapter.DNSDomains

/-!
# The Mihomo emitter

The document that a Mihomo core is configured with, and the emitter that writes it: proxies for the
nodes and chains, groups for the policies that are not fixed, the routing rules as text, and the DNS
servers with a rule provider for each DNS rule.
-/

namespace ProxyLoom.Adapter.Mihomo

open IR Domain

def mixedPort : ℕ := 17803

/-! ## The document -/

structure Reality where
  publicKey : String
  shortID : String
deriving DecidableEq, Repr

structure WSOptions where
  path : String
  host : Option String
deriving DecidableEq, Repr

structure Proxy where
  name : String
  type : String
  server : String
  port : ℕ
  password : String := ""
  network : String := ""
  sni : String := ""
  alpn : List String := []
  skipCertVerify : Bool := false
  udp : Option Bool := none
  clientFingerprint : String := ""
  dialerProxy : String := ""
  cipher : String := ""
  uuid : String := ""
  alterID : Option ℕ := none
  flow : String := ""
  username : String := ""
  tls : Option Bool := none
  serverName : String := ""
  ws : Option WSOptions := none
  reality : Option Reality := none
deriving DecidableEq, Repr

inductive GroupType where
  | select | urlTest | loadBalance
deriving DecidableEq, Repr

structure PolicyGroup where
  name : String
  type : GroupType
  proxies : List String
  url : String := ""
  interval : ℕ := 0
  timeout : Option ℕ := none
  tolerance : Option ℕ := none
deriving DecidableEq, Repr

structure DNSRuleProvider where
  name : String
  payload : List String
deriving DecidableEq, Repr

structure DNSPolicy where
  key : String
  server : String
deriving DecidableEq, Repr

structure DNSConfig where
  nameServer : List String
  defaultNameServer : List String
  proxyServerNameServer : List String
  nameServerPolicy : List DNSPolicy
deriving DecidableEq, Repr

structure Document where
  mixedPort : ℕ
  socksPort : ℕ := 0
  httpPort : ℕ := 0
  bindAddress : String
  externalController : String := ""
  controllerCORS : Option (List String) := none
  ipv6 : Bool := false
  proxies : List Proxy
  rules : List String
  groups : List PolicyGroup := []
  dns : Option DNSConfig := none
  ruleProviders : List DNSRuleProvider := []
deriving DecidableEq, Repr

/-! ## Nodes -/

def typeText : Protocol → String
  | .shadowsocks => "ss"
  | protocol => protocol.text

def credentials (m : MappedNode) (item : Proxy) : Proxy :=
  match m.node.protocol with
  | .trojan =>
    { item with
      password := m.password
      network := if m.node.features.udp = some false then "tcp" else "" }
  | .shadowsocks => { item with cipher := m.cipher, password := m.password }
  | .vmess => { item with uuid := m.uuid, cipher := m.cipher, alterID := some 0 }
  | .vless => { item with uuid := m.uuid, flow := m.flow }
  | .socks5 | .http => { item with username := m.username, password := m.password }

def withWS (m : MappedNode) (item : Proxy) : Proxy :=
  match m.ws with
  | some (path, host) => { item with network := "ws", ws := some ⟨path, host⟩ }
  | none => item

def withTLS (m : MappedNode) (item : Proxy) : Proxy :=
  match m.tls with
  | none => item
  | some t =>
    let named := m.node.protocol = .vmess ∨ m.node.protocol = .vless
    { item with
      alpn := t.alpn
      skipCertVerify := !(t.verifyCertificate.getD false)
      serverName := if named then t.serverName else item.serverName
      sni := if named then item.sni else t.serverName
      tls := if m.node.protocol = .trojan then item.tls else some true
      clientFingerprint := t.clientFingerprint.getD item.clientFingerprint }

def withReality (m : MappedNode) (item : Proxy) : Proxy :=
  match m.reality with
  | none => item
  | some r =>
    { item with
      tls := some true
      serverName := r.serverName
      alpn := r.alpn
      clientFingerprint := r.clientFingerprint
      reality := some ⟨r.publicKey, r.shortID⟩ }

def nodeProxy (tag : String) (m : MappedNode) (dialer : String) : Proxy :=
  let n := m.node
  withReality m (withTLS m (withWS m (credentials m
    { name := tag, type := typeText n.protocol, server := n.endpoint.host, port := n.endpoint.port
      dialerProxy := dialer, udp := n.features.udp })))

section
open Json

def WSOptions.value (w : WSOptions) : Value :=
  .obj ([("path", .str w.path)] ++
    omitNone "headers" (w.host.map fun host => .obj [("Host", .str host)]))

def Reality.value (r : Reality) : Value :=
  .obj [("public-key", .str r.publicKey), ("short-id", .str r.shortID)]

def Proxy.value (p : Proxy) : Value :=
  .obj ([("name", .str p.name), ("type", .str p.type), ("server", .str p.server),
      ("port", .num p.port)] ++
    omitStr "password" p.password ++ omitStr "network" p.network ++ omitStr "sni" p.sni ++
    omitStrs "alpn" p.alpn ++ [("skip-cert-verify", .bool p.skipCertVerify)] ++
    omitNone "udp" (p.udp.map .bool) ++ omitStr "client-fingerprint" p.clientFingerprint ++
    omitStr "dialer-proxy" p.dialerProxy ++ omitStr "cipher" p.cipher ++ omitStr "uuid" p.uuid ++
    omitNone "alterId" (p.alterID.map .num) ++ omitStr "flow" p.flow ++
    omitStr "username" p.username ++ omitNone "tls" (p.tls.map .bool) ++
    omitStr "servername" p.serverName ++ omitNone "ws-opts" (p.ws.map WSOptions.value) ++
    omitNone "reality-opts" (p.reality.map Reality.value))

end

/-! ## Conditions -/

def joinTexts (sep : String) : List String → String
  | [] => ""
  | [s] => s
  | s :: next :: rest => s ++ sep ++ joinTexts sep (next :: rest)

def upperChar (c : Char) : Char :=
  if Text.isLower c then Char.ofNat (c.toNat - 32) else c

def toUpper (s : String) : String := String.ofList (s.toList.map upperChar)

def opText : Connective → String
  | .and => "AND"
  | .or => "OR"

def noResolveText : String := ",no-resolve"

def leafKind (kind : LeafKind) (value : String) : String :=
  match kind with
  | .domain => "DOMAIN"
  | .domainSuffix => "DOMAIN-SUFFIX"
  | .ipCIDR => if value.toList.contains ':' then "IP-CIDR6" else "IP-CIDR"
  | .port => "DST-PORT"
  | .network => "NETWORK"

def leafValue (kind : LeafKind) (value : String) : String :=
  match kind with
  | .domain | .domainSuffix | .ipCIDR => value
  | .port => String.ofList (Scan.replace ':' '-' value.toList)
  | .network => toUpper value

def leafText (noResolve : Bool) (kind : LeafKind) (value : String) : String :=
  leafKind kind value ++ "," ++ leafValue kind value ++
    if kind = .ipCIDR ∧ noResolve = true then noResolveText else ""

mutual

/-- A node of one term and a leaf of one value stand for that term and that value. -/
def nativeCondition (noResolve : Bool) : Condition → String
  | .leaf kind [value] => leafText noResolve kind value
  | .leaf kind values => "OR,((" ++ joinTexts "),(" (values.map (leafText noResolve kind)) ++ "))"
  | .node _ [c] => nativeCondition noResolve c
  | .node op terms => opText op ++ ",(" ++ joinTexts "," (nativeTerms noResolve terms) ++ ")"

def nativeTerms (noResolve : Bool) : List Condition → List String
  | [] => []
  | c :: terms => ("(" ++ nativeCondition noResolve c ++ ")") :: nativeTerms noResolve terms

end

/-- The condition with its target. A `no-resolve` at the end moves behind the target. -/
def ruleText (condition tag : String) : String :=
  if noResolveText.toList.isSuffixOf condition.toList then
    String.ofList (condition.toList.take
      (condition.toList.length - noResolveText.toList.length)) ++ "," ++ tag ++ noResolveText
  else condition ++ "," ++ tag

/-! ## Orchestration -/

section
variable (lib : Libraries) (input : EmitInput)

def controlled : Bool := input.preset.any fun p => p.controlAPI.enabled

def groupFail (p : PolicyInstance) (code : DiagnosticCode) (path : String) :
    Except (List Diagnostic) (Option PolicyGroup) :=
  .error [compileIssue code path input.targetKey p.resourceID]

/-- The group with its health check, whose interval has to be in whole seconds. -/
def withHealth (p : PolicyInstance) (group : PolicyGroup) :
    Except (List Diagnostic) (Option PolicyGroup) :=
  if p.health.enabled then
    let interval := p.health.intervalMS.getD 0
    if interval % 1000 ≠ 0 then
      groupFail input p .compileUnmappedField "/payload/health_check/interval_ms"
    else .ok (some
      { group with
        url := p.health.url, interval := interval / 1000, timeout := p.health.timeoutMS })
  else .ok (some group)

/-- A fixed policy needs no group. -/
def policyGroup (p : PolicyInstance) : Except (List Diagnostic) (Option PolicyGroup) :=
  match p.strategy with
  | .fixed => .ok none
  | .manualSelect =>
    if controlled input = false then
      groupFail input p .capabilityUnsupported "/payload/strategy"
    else withHealth input p { name := p.tag, type := .select, proxies := p.members }
  | .latencyBest => withHealth input p
      { name := p.tag, type := .urlTest, proxies := p.members, tolerance := p.health.toleranceMS }
  | .roundRobin =>
    if p.health.enabled = false then
      groupFail input p .compileUnmappedField "/payload/health_check/enabled"
    else if p.health.toleranceMS.getD 0 ≠ 0 then
      groupFail input p .compileUnmappedField "/payload/health_check/tolerance_ms"
    else withHealth input p { name := p.tag, type := .loadBalance, proxies := p.members }

def nativeTag (tag : String) : String :=
  let tag := input.resolvePolicyTag tag
  if tag = blockTag then "REJECT" else if tag = directTag then "DIRECT" else tag

def routeRules : List String :=
  (input.routing.map fun r => r.rules.map fun rule =>
    ruleText (nativeCondition (r.mode = .preserveDomain) rule.condition)
      (nativeTag input rule.target)).getD []

def withListener (l : LocalListener) (doc : Document) : Document :=
  let doc := { doc with mixedPort := 0, bindAddress := l.listen }
  match l.protocol with
  | .socks5 => { doc with socksPort := l.port }
  | .http => { doc with httpPort := l.port }
  | .mixed => { doc with mixedPort := l.port }

def withController (doc : Document) : Document :=
  match input.preset.filter fun p => p.controlAPI.enabled with
  | none => doc
  | some p =>
    let address := HostPort.joinHostPort p.controlAPI.listen (toString p.controlAPI.port)
    { doc with externalController := address, controllerCORS := some ["http://" ++ address] }

/-! ## DNS -/

def patternText : PatternText := ⟨"exact:", "suffix:"⟩

def dnsFail (d : DNSInput) (path : String) : List Diagnostic :=
  [compileIssue .compileUnmappedField path input.targetKey d.resourceID]

def dnsLimit (d : DNSInput) (path : String) : List Diagnostic :=
  [compileIssue .inputLimitExceeded path input.targetKey d.resourceID]

def bootstrapText (b : BootstrapResolver) : String :=
  match b.kind with
  | .localDNS => "system"
  | _ => "udp://" ++ HostPort.joinHostPort b.address (toString b.port)

def bootstrapMap (p : DNSProfile) : List (String × String) :=
  p.bootstrap.foldl (fun m b => setKey m b.resolverID (bootstrapText b)) []

def firstBootstrap (d : DNSInput) : Except (List Diagnostic) String :=
  match d.profile.bootstrap with
  | [] => .error (dnsFail input d "/payload/bootstrap")
  | b :: _ => .ok ((lookup (bootstrapMap d.profile) b.resolverID).getD "")

/-- The bootstrap resolver that the names of the nodes select, empty if there are none. -/
def nodeBootstrap (d : DNSInput) (refs : List OutboundRef) : Except (List Diagnostic) String :=
  if refs.any (refNeedsBootstrap lib) then firstBootstrap input d else .ok ""

/-- The core has one bootstrap resolver for every remote transport. -/
def selectBootstrap (d : DNSInput) (r : DNSResolver) (path tag selected : String) :
    Except (List Diagnostic) String :=
  let fail := Except.error (dnsFail input d (path ++ "/bootstrap_resolver_id"))
  if tag ≠ "DIRECT" then fail
  else
    match lookup (bootstrapMap d.profile) r.bootstrapResolverID with
    | none => fail
    | some b => if selected ≠ "" ∧ selected ≠ b then fail else .ok b

/-- The server of a resolver, with the bootstrap resolver selected so far. -/
def dnsServer (d : DNSInput) (selected : String) (entry : DNSResolver × ℕ) :
    Except (List Diagnostic) (String × String) :=
  let (r, i) := entry
  let path := "/payload/resolvers/" ++ toString i
  let tag := nativeTag input (d.tagOf r.resolverID)
  match r.kind with
  | .localDNS => .ok (selected, "system")
  | .udp =>
    if tag = "" then .error (dnsFail input d (path ++ "/outbound"))
    else .ok (selected, "udp://" ++ HostPort.joinHostPort r.address (toString r.port) ++ "#" ++ tag)
  | .https =>
    if tag = "" then .error (dnsFail input d (path ++ "/outbound"))
    else
      match lib.parseURL r.url with
      | none => .error (dnsFail input d (path ++ "/url"))
      | some u =>
        if u.rawQuery ≠ "" ∨ u.forceQuery = true ∨ u.rawPath ≠ "" then
          .error (dnsFail input d (path ++ "/url"))
        else do
          let selected ←
            if lib.isAddr u.hostname then .ok selected
            else selectBootstrap input d r path tag selected
          .ok (selected, lib.urlText { u with fragment := tag })

/-- One resolver: the selected bootstrap resolver and the servers by resolver. -/
def addServer (d : DNSInput) (st : String × List (String × String)) (entry : DNSResolver × ℕ) :
    Except (List Diagnostic) (String × List (String × String)) := do
  let (selected, server) ← dnsServer lib input d st.1 entry
  .ok (selected, setKey st.2 entry.1.resolverID server)

/-- `dns_rule_` and the index in at least four digits. -/
def providerName (i : ℕ) : String :=
  let digits := toString i
  "dns_rule_" ++ String.ofList (List.replicate (4 - digits.length) '0') ++ digits

def payloadText : Pattern → String
  | .full name => String.ofList name
  | .tree name => "+." ++ String.ofList name

structure RuleState where
  count : ℕ
  providers : List DNSRuleProvider
  policies : List DNSPolicy
deriving DecidableEq, Repr

/-- One DNS rule. A rule whose names contradict each other is left out. -/
def addRule (d : DNSInput) (servers : List (String × String)) (st : RuleState)
    (entry : RouteRule × ℕ) : Except (List Diagnostic) RuleState :=
  let (rule, i) := entry
  match lookup servers rule.target with
  | none => .error (dnsFail input d (rule.fieldPath ++ "/resolver_id"))
  | some server =>
    match dnsDomains patternText rule.condition with
    | .error code =>
      .error [compileIssue code (rule.fieldPath ++ "/match") input.targetKey d.resourceID]
    | .ok domains =>
      let count := st.count + domains.length
      if maxRules < count then .error (dnsLimit input d (rule.fieldPath ++ "/match"))
      else if domains = [] then .ok { st with count }
      else if providerName i ∈ st.providers.map DNSRuleProvider.name then
        .error (dnsFail input d rule.fieldPath)
      else .ok
        { count
          providers := st.providers ++ [⟨providerName i, domains.map payloadText⟩]
          policies := st.policies ++ [⟨"rule-set:" ++ providerName i, server⟩] }

def dnsConfig (d : DNSInput) : Except (List Diagnostic) (DNSConfig × List DNSRuleProvider) := do
  let refs ← input.outboundRefs
  let selected ← nodeBootstrap lib input d refs
  let (selected, servers) ← d.profile.resolvers.zipIdx.foldlM (addServer lib input d) (selected, [])
  let selected ← if selected = "" then firstBootstrap input d else .ok selected
  match lookup servers d.profile.finalResolver with
  | none => .error (dnsFail input d "/payload/final_resolver")
  | some final =>
    if maxRules < d.rules.length then .error (dnsLimit input d "/payload/rules")
    else
      let st ← d.rules.zipIdx.foldlM (addRule input d servers) ⟨0, [], []⟩
      .ok (⟨[final], [selected], [selected], st.policies⟩, st.providers)

def applyDNS (doc : Document) : Except (List Diagnostic) Document :=
  match input.dns with
  | none => .ok doc
  | some d => (dnsConfig lib input d).map fun (dns, providers) =>
    { doc with dns := some dns, ipv6 := true, ruleProviders := doc.ruleProviders ++ providers }

def applyOrchestration (doc : Document) : Except (List Diagnostic) Document := do
  let groups ← input.policies.mapM (policyGroup input)
  let doc := withListener (input.listener .mixed mixedPort) (withController input doc)
  applyDNS lib input
    { doc with
      groups := doc.groups ++ groups.flatMap Option.toList
      rules := routeRules input ++ ["MATCH," ++ nativeTag input input.exit] }

/-! ## Emission -/

def refProxy (ref : OutboundRef) : Except (List Diagnostic) Proxy := do
  let m ← mapNode lib ref.resource ref.fieldPath input.targetKey
  .ok (nodeProxy ref.tag m ref.dialerTag)

def initialDocument (exit : String) (proxies : List Proxy) : Document :=
  { mixedPort, bindAddress := loopbackAddr, proxies, rules := ["MATCH," ++ exit] }

def ruleCount (doc : Document) : ℕ :=
  doc.rules.length + (doc.dns.map fun d => d.nameServerPolicy.length).getD 0 +
    (doc.ruleProviders.map fun p => p.payload.length).sum

/-- A rule without a target of its own could go to the direct outbound of the core. -/
def implicitDirect (doc : Document) : Bool :=
  doc.rules = [] || doc.rules.any fun rule =>
    let upper := rule.toList.map upperChar
    upper.tails.any (fun tail => ",DIRECT".toList.isPrefixOf tail) || upper = "DIRECT".toList

def emit : Except (List Diagnostic) Document := do
  let (exit, refs) ← input.orderedOutboundRefs
  let proxies ← refs.mapM (refProxy lib input)
  let doc ← applyOrchestration lib input (initialDocument exit proxies)
  input.checkNativeCounts (doc.proxies.length + doc.groups.length) (ruleCount doc)
  if implicitDirect doc = true ∧ input.usesTag directTag = false then
    .error [compileIssue .compileDialConflict "/rules" input.targetKey ""]
  else .ok doc

end

end ProxyLoom.Adapter.Mihomo
