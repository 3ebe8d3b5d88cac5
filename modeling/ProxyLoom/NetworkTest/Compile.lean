import ProxyLoom.Adapter.ReadBack
import ProxyLoom.Lib.IPAddr

/-!
# The artifact of a network test

A node or a chain of two nodes is compiled alone: the nodes are copied, bound to the addresses that
were approved for them, and written by the emitter of the family with `test_out` as the exit. No
routing, no policy and no direct outbound is added.
-/

namespace ProxyLoom.NetworkTest

open IR Adapter Netip List Except

/-! ## Binding a node to its address -/

/-- How addresses are read and written: an unmapped address reads back. -/
structure AddrText where
  parseAddr : String → Option IP
  format : IP → String
  parse_format : ∀ ip : IP, ip.isValid = true → parseAddr (format ip.unmap) = some ip.unmap

/-- The libraries of the emitters and the checks of the catalog. -/
structure Env where
  lib : Libraries
  schema : Schema
  text : AddrText

/-- An address that the core will dial. -/
structure ApprovedEndpoint where
  ip : String
  port : ℕ
  privateAuthorized : Bool := false
deriving DecidableEq, Repr

/-- The failures of the compilation of a test. -/
inductive CompileError where
  | target
  | address
  | decode
  | emit (diagnostics : List Diagnostic)
deriving DecidableEq, Repr

/-- A certificate is still checked against the host that was configured. -/
def bindSecurity (original : String) : Security → Security
  | .tls t => .tls (if t.serverName = "" then { t with serverName := original } else t)
  | s => s

/-- The host with its port, unless that is a default one. -/
def hostHeader (original : String) (port : ℕ) : String :=
  if port ≠ 80 ∧ port ≠ 443 then HostPort.joinHostPort original (toString port) else original

/-- A WebSocket without a host header keeps the name of the node. -/
def bindTransport (original : String) (port : ℕ) : Transport → Transport
  | .webSocket path none => .webSocket path (some (hostHeader original port))
  | t => t

/-- The node at its address, with the name kept for TLS and HTTP. -/
def bindNode (text : AddrText) (ip : IP) (n : Node) : Node :=
  { n with
    endpoint := ⟨text.format ip, n.endpoint.port⟩
    security := bindSecurity n.endpoint.host n.security
    transport := bindTransport n.endpoint.host n.endpoint.port n.transport }

/-- The resources of the request, and the addresses that were approved for its nodes. -/
abbrev Resources := ID → Option Resource

/-- The addresses of the nodes; none offline. -/
abbrev Addresses := Option (ID → String)

section
variable (env : Env) (resources : Resources) (addresses : Addresses)

/-- The copy of a node, with its endpoint. Without addresses it stays as it is. -/
def prepareNode (id : ID) : Except CompileError (Resource × List ApprovedEndpoint) :=
  match resources id with
  | none => .error .target
  | some r =>
    if r.metadata.kind ≠ .node then .error .target
    else if r.validate env.schema = false then .error .decode
    else
      match r.payload, addresses with
      | .node _, none => .ok (r, [])
      | .node n, some address =>
        match env.text.parseAddr (address id) with
        | none => .error .address
        | some ip =>
          .ok ({ r with payload := .node (bindNode env.text ip n) },
            [{ ip := env.text.format ip, port := n.endpoint.port }])
      | _, _ => .error .decode

/-! ## Emission -/

/-- The document of one of the cores. -/
inductive Artifact where
  | xray (doc : Xray.Document)
  | singBox (doc : SingBox.Document)
  | mihomo (doc : Mihomo.Document)

def emitFamily (input : EmitInput) : CoreFamily → Except (List Diagnostic) Artifact
  | .xray => (Xray.emit env.lib input env.schema).map .xray
  | .singBox => (SingBox.emit env.lib input).map .singBox
  | .mihomo => (Mihomo.emit env.lib input).map .mihomo

/-- The input of the emitters: one inbound, one outbound, no rules. -/
def testInput (snapshot : ID) (independents : List IndependentOutbound)
    (chains : List ChainInstance) : EmitInput where
  snapshotID := snapshot
  targetKey := "network-test"
  independents := independents
  chains := chains
  policies := []
  finalTag := "test_out"
  routing := none
  dns := none
  preset := none

def nodeInput (snapshot : ID) (r : Resource) : EmitInput := testInput snapshot [⟨"test_out", r⟩] []

def chainInput (snapshot : ID) (subject h1 h2 : Resource) : EmitInput :=
  testInput snapshot []
    [⟨subject.id, subject.metadata.revision, "test_h1", "test_out", some h1, some h2⟩]

/-- The input of the emitter for a subject, with the endpoints of its hops. -/
def subjectInput (snapshot : ID) (subject : Resource) :
    Except CompileError (EmitInput × List ApprovedEndpoint) :=
  match subject.metadata.kind, subject.payload with
  | .node, _ => (prepareNode env resources addresses subject.id).map fun (r, endpoints) =>
      (nodeInput snapshot r, endpoints)
  | .chain, .chain c =>
    match c.validate, c.hops with
    | true, [id1, id2] => do
      let (h1, first) ← prepareNode env resources addresses id1
      let (h2, second) ← prepareNode env resources addresses id2
      pure (chainInput snapshot subject h1 h2, first ++ second)
    | _, _ => .error .target
  | _, _ => .error .target

/-- The artifact of a test, and the endpoints it dials. -/
def compile (family : CoreFamily) (snapshot : ID) (subject : Resource) :
    Except CompileError (Artifact × List ApprovedEndpoint) := do
  let (input, endpoints) ← subjectInput env resources addresses snapshot subject
  match emitFamily env input family with
  | .error ds => .error (.emit ds)
  | .ok artifact => .ok (artifact, endpoints)

end

/-! ## The servers of an artifact -/

/-- An outbound that connects to a server, through another one if it names a dialer. -/
structure Server where
  tag : String
  address : String
  port : ℕ
  dialer : String
deriving DecidableEq, Repr

def xrayServer (o : Xray.Outbound) : Option Server :=
  let dialer := (((o.streamSettings.bind Xray.Stream.sockopt).map Xray.Sockopt.dialerProxy)).getD ""
  match o.settings with
  | some (.trojan address port _) => some ⟨o.tag, address, port, dialer⟩
  | some (.servers s) | some (.vnext s) => some ⟨o.tag, s.address, s.port, dialer⟩
  | some (.freedom _) | none => none

def singBoxServer (o : SingBox.Outbound) : Option Server :=
  match o.type with
  | .node _ => some ⟨o.tag, o.server, o.serverPort, o.detour⟩
  | .selector | .direct => none

def mihomoServer (p : Mihomo.Proxy) : Server := ⟨p.name, p.server, p.port, p.dialerProxy⟩

/-- The servers that the artifact names. -/
def Artifact.servers : Artifact → List Server
  | .xray doc => doc.outbounds.filterMap xrayServer
  | .singBox doc => doc.outbounds.filterMap singBoxServer
  | .mihomo doc => doc.proxies.map mihomoServer

/-- The servers on the way of a connection that leaves through `tag`, the first hop first. -/
def hopsTo (servers : List Server) : ℕ → String → List Server
  | 0, _ => []
  | fuel + 1, tag =>
    match servers.find? fun s => s.tag = tag with
    | none => []
    | some s => (if s.dialer = "" then [] else hopsTo servers fuel s.dialer) ++ [s]

/-- The servers on the way of a test, the last first. -/
def Artifact.hops (a : Artifact) : List Server := hopsTo a.servers a.servers.length "test_out"

/-! ## The outbounds -/

def nodeRefs (r : Resource) : List OutboundRef :=
  [⟨"test_out", .independent, some r, "", "/independents/0"⟩]

def chainRefs (h1 h2 : Resource) : List OutboundRef :=
  [⟨"test_out", .chainH2, some h2, "test_h1", "/chains/0/h2"⟩,
    ⟨"test_h1", .chainH1, some h1, "", "/chains/0/h1"⟩]

theorem allRefs_node (snapshot : ID) (r : Resource) :
    (nodeInput snapshot r).allRefs = nodeRefs r := by
  rfl

theorem allRefs_chain (snapshot : ID) (subject h1 h2 : Resource) :
    (chainInput snapshot subject h1 h2).allRefs = (chainRefs h1 h2).reverse := by
  rfl

theorem checkTags_node (key : String) (r : Resource) : checkTags key [] (nodeRefs r) = .ok () := by
  have hout : isReservedTag "test_out" = false := by decide
  simp [checkTags, nodeRefs, hout]

theorem checkTags_chain (key : String) (h1 h2 : Resource) :
    checkTags key [] (chainRefs h1 h2).reverse = .ok () := by
  have hout : isReservedTag "test_out" = false := by decide
  have hfirst : isReservedTag "test_h1" = false := by decide
  simp [checkTags, chainRefs, hout, hfirst]

theorem testRefs_node (snapshot : ID) (r : Resource) :
    (nodeInput snapshot r).orderedOutboundRefs = .ok ("test_out", nodeRefs r) := by
  unfold EmitInput.orderedOutboundRefs EmitInput.outboundRefs
  rw [allRefs_node, checkTags_node]
  rfl

theorem testRefs_chain (snapshot : ID) (subject h1 h2 : Resource) :
    (chainInput snapshot subject h1 h2).orderedOutboundRefs =
      .ok ("test_out", chainRefs h1 h2) := by
  unfold EmitInput.orderedOutboundRefs EmitInput.outboundRefs
  rw [allRefs_chain, checkTags_chain]
  rfl

/-! ## Documents -/

section
variable {env : Env} {snapshot : ID} {independents : List IndependentOutbound}
  {chains : List ChainInstance} {refs : List OutboundRef} {ref : OutboundRef}

theorem length_of_mapM {α β ε : Type} {f : α → Except ε β} {l : List α} {r : List β}
    (h : l.mapM f = .ok r) : r.length = l.length :=
  (List.Forall₂.length_eq (mapM_eq_ok_iff.mp h)).symm

theorem checkNativeCounts_ok (input : EmitInput) {outbounds rules : ℕ} (ho : outbounds ≤ 3)
    (hr : rules ≤ 3) : input.checkNativeCounts outbounds rules = .ok () := by
  have hmaxO : maxOutbounds = 2000 := rfl
  have hmaxR : maxRules = 20000 := rfl
  unfold EmitInput.checkNativeCounts
  rw [if_neg (by omega), if_neg (by omega)]

theorem singBox_emit_iff {doc : SingBox.Document}
    (horder : (testInput snapshot independents chains).orderedOutboundRefs = .ok ("test_out", refs))
    (hrefs : refs.length ≤ 2) :
    SingBox.emit env.lib (testInput snapshot independents chains) = .ok doc ↔
      ∃ outs, refs.mapM (SingBox.refOutbound env.lib (testInput snapshot independents chains)) =
        .ok outs ∧ doc = SingBox.initialDocument "test_out" outs := by
  have horch : ∀ outs, SingBox.applyOrchestration env.lib (testInput snapshot independents chains)
      (SingBox.initialDocument "test_out" outs) =
        .ok (SingBox.initialDocument "test_out" outs) := by
    intro outs
    have h : SingBox.applyOrchestration env.lib (testInput snapshot independents chains)
        (SingBox.initialDocument "test_out" outs) =
          .ok (SingBox.initialDocument "test_out" (outs ++ [] ++ [])) := rfl
    rw [h, append_nil, append_nil]
  have hcounts : ∀ {outs}, refs.mapM (SingBox.refOutbound env.lib
      (testInput snapshot independents chains)) = .ok outs →
      (testInput snapshot independents chains).checkNativeCounts
        (SingBox.initialDocument "test_out" outs).outbounds.length
        (SingBox.ruleCount (SingBox.initialDocument "test_out" outs)) = .ok () := by
    intro outs houts
    refine checkNativeCounts_ok _ ?_ (show 1 ≤ 3 by decide)
    show outs.length ≤ 3
    rw [length_of_mapM houts]
    omega
  unfold SingBox.emit
  rw [horder]
  simp only [bind_eq_ok_iff, Except.ok.injEq]
  constructor
  · rintro ⟨x, rfl, outs, houts, doc', hdoc, _, -, rfl⟩
    exact ⟨outs, houts, (Except.ok.inj ((horch outs).symm.trans hdoc)).symm⟩
  · rintro ⟨outs, houts, rfl⟩
    exact ⟨_, rfl, outs, houts, _, horch outs, (), hcounts houts, rfl⟩

theorem mihomo_emit_iff {doc : Mihomo.Document}
    (horder : (testInput snapshot independents chains).orderedOutboundRefs = .ok ("test_out", refs))
    (hrefs : refs.length ≤ 2) :
    Mihomo.emit env.lib (testInput snapshot independents chains) = .ok doc ↔
      ∃ proxies, refs.mapM (Mihomo.refProxy env.lib (testInput snapshot independents chains)) =
        .ok proxies ∧ doc = Mihomo.initialDocument "test_out" proxies := by
  have horch : ∀ proxies, Mihomo.applyOrchestration env.lib
      (testInput snapshot independents chains) (Mihomo.initialDocument "test_out" proxies) =
        .ok (Mihomo.initialDocument "test_out" proxies) := fun _ => rfl
  have hcounts : ∀ {proxies}, refs.mapM (Mihomo.refProxy env.lib
      (testInput snapshot independents chains)) = .ok proxies →
      (testInput snapshot independents chains).checkNativeCounts
        ((Mihomo.initialDocument "test_out" proxies).proxies.length +
          (Mihomo.initialDocument "test_out" proxies).groups.length)
        (Mihomo.ruleCount (Mihomo.initialDocument "test_out" proxies)) = .ok () := by
    intro proxies hproxies
    refine checkNativeCounts_ok _ ?_ (show 1 ≤ 3 by decide)
    show proxies.length + 0 ≤ 3
    rw [length_of_mapM hproxies]
    omega
  have hdirect : ∀ proxies,
      Mihomo.implicitDirect (Mihomo.initialDocument "test_out" proxies) = false := by
    intro proxies
    have hrules : Mihomo.implicitDirect (Mihomo.initialDocument "test_out" proxies) =
        Mihomo.implicitDirect (Mihomo.initialDocument "test_out" []) := rfl
    rw [hrules]
    decide
  unfold Mihomo.emit
  rw [horder]
  simp only [bind_eq_ok_iff, Except.ok.injEq, ite_error_eq_ok_iff]
  constructor
  · rintro ⟨x, rfl, proxies, hproxies, doc', hdoc, _, -, -, rfl⟩
    exact ⟨proxies, hproxies, (Except.ok.inj ((horch proxies).symm.trans hdoc)).symm⟩
  · rintro ⟨proxies, hproxies, rfl⟩
    refine ⟨_, rfl, proxies, hproxies, _, horch proxies, (), hcounts hproxies, ?_, rfl⟩
    rw [hdirect]
    exact fun h => Bool.false_ne_true h.1

theorem xray_emit_iff {doc : Xray.Document}
    (horder : (testInput snapshot independents chains).orderedOutboundRefs = .ok ("test_out", refs))
    (hrefs : refs.length ≤ 2) :
    Xray.emit env.lib (testInput snapshot independents chains) env.schema = .ok doc ↔
      ∃ outs, refs.mapM (Xray.refOutbound env.lib (testInput snapshot independents chains)) =
        .ok outs ∧ doc = Xray.initialDocument "test_out" outs ∧
        Xray.forbidden (testInput snapshot independents chains)
          (Xray.initialDocument "test_out" outs) = false := by
  have horch : ∀ outs, Xray.applyOrchestration env.lib (testInput snapshot independents chains)
      env.schema (Xray.initialDocument "test_out" outs) =
        .ok (Xray.initialDocument "test_out" outs) := by
    intro outs
    have h : Xray.applyOrchestration env.lib (testInput snapshot independents chains) env.schema
        (Xray.initialDocument "test_out" outs) =
          .ok { Xray.initialDocument "test_out" outs with
            outbounds := (Xray.initialDocument "test_out" outs).outbounds ++ [] } := rfl
    rw [h, append_nil]
  have hcounts : ∀ {outs}, refs.mapM (Xray.refOutbound env.lib
      (testInput snapshot independents chains)) = .ok outs →
      (testInput snapshot independents chains).checkNativeCounts
        ((Xray.initialDocument "test_out" outs).outbounds.length +
          (Xray.initialDocument "test_out" outs).routing.balancers.length)
        (Xray.ruleCount (Xray.initialDocument "test_out" outs)) = .ok () := by
    intro outs houts
    refine checkNativeCounts_ok _ ?_ (show 1 ≤ 3 by decide)
    show (outs ++ [_]).length + 0 ≤ 3
    rw [length_append, length_of_mapM houts, length_singleton]
    omega
  unfold Xray.emit
  rw [horder]
  simp only [bind_eq_ok_iff, Except.ok.injEq, ite_error_eq_ok_iff]
  constructor
  · rintro ⟨x, rfl, outs, houts, doc', hdoc, _, -, hforbidden, rfl⟩
    obtain rfl := Except.ok.inj ((horch outs).symm.trans hdoc)
    exact ⟨outs, houts, rfl, Bool.not_eq_true _ ▸ hforbidden⟩
  · rintro ⟨outs, houts, rfl, hforbidden⟩
    refine ⟨_, rfl, outs, houts, _, horch outs, (), hcounts houts, ?_, rfl⟩
    rw [hforbidden]
    exact Bool.false_ne_true

/-! ## Servers of the outbounds -/

def refServer (ref : OutboundRef) : Option Server :=
  match ref.resource.map Resource.payload with
  | some (.node n) => some ⟨ref.tag, n.endpoint.host, n.endpoint.port, ref.dialerTag⟩
  | _ => none

theorem refServer_of_mapNode {lib : Libraries} {target : String}
    {m : MappedNode} (h : mapNode lib ref.resource ref.fieldPath target = .ok m) :
    refServer ref = some ⟨ref.tag, m.node.endpoint.host, m.node.endpoint.port, ref.dialerTag⟩ := by
  obtain ⟨r, n, hr, hn, -, -, -, rfl⟩ := mapNode_eq_ok h
  rw [mappedNode_node, refServer, hr, Option.map_some, hn]

theorem singBox_refOutbound_ok {o : SingBox.Outbound}
    (h : SingBox.refOutbound env.lib (testInput snapshot independents chains) ref = .ok o) :
    ∃ m, mapNode env.lib ref.resource ref.fieldPath "network-test" = .ok m ∧
      o = SingBox.nodeOutbound ref.tag m ref.dialerTag := by
  unfold SingBox.refOutbound at h
  obtain ⟨m, hm, h⟩ := of_bind h
  obtain ⟨item, hitem, h⟩ := of_bind h
  obtain rfl := Except.ok.inj hitem
  refine ⟨m, hm, ?_⟩
  split at h
  · cases h
  · exact (Except.ok.inj h).symm

theorem xray_refOutbound_ok {o : Xray.Outbound}
    (h : Xray.refOutbound env.lib (testInput snapshot independents chains) ref = .ok o) :
    ∃ m, mapNode env.lib ref.resource ref.fieldPath "network-test" = .ok m ∧
      o = Xray.nodeOutbound ref.tag m ref.dialerTag := by
  unfold Xray.refOutbound at h
  obtain ⟨m, hm, h⟩ := of_bind h
  obtain ⟨-, h⟩ := of_ite h
  obtain ⟨item, hitem, h⟩ := of_bind h
  obtain rfl := Except.ok.inj hitem
  refine ⟨m, hm, ?_⟩
  split at h
  · cases h
  · exact (Except.ok.inj h).symm

theorem singBoxServer_eq (tag : String) (m : MappedNode) (dialer : String) :
    singBoxServer (SingBox.nodeOutbound tag m dialer) =
      some ⟨tag, m.node.endpoint.host, m.node.endpoint.port, dialer⟩ := by
  unfold SingBox.nodeOutbound SingBox.credentials singBoxServer
  cases m.node.protocol <;> rfl

theorem xrayServer_eq (tag : String) (m : MappedNode) (dialer : String) :
    xrayServer (Xray.nodeOutbound tag m dialer) =
      some ⟨tag, m.node.endpoint.host, m.node.endpoint.port, dialer⟩ := by
  have hdialer : (((some (Xray.streamOf m dialer)).bind Xray.Stream.sockopt).map
      Xray.Sockopt.dialerProxy).getD "" = dialer := by
    show (Option.map Xray.Sockopt.dialerProxy
      (if dialer = "" then none else some ⟨dialer, ""⟩)).getD "" = dialer
    split_ifs with hd
    · exact hd.symm
    · rfl
  unfold xrayServer Xray.nodeOutbound
  simp only [hdialer, Xray.settingsOf]
  cases m.node.protocol <;> rfl

theorem mihomoServer_written (m : MappedNode) (p : Mihomo.Proxy) :
    mihomoServer (Mihomo.withReality m (Mihomo.withTLS m (Mihomo.withWS m p))) =
      mihomoServer p := by
  unfold Mihomo.withReality Mihomo.withTLS Mihomo.withWS
  cases m.reality <;> cases m.tls <;> cases m.ws <;> rfl

theorem mihomoServer_eq (tag : String) (m : MappedNode) (dialer : String) :
    mihomoServer (Mihomo.nodeProxy tag m dialer) =
      ⟨tag, m.node.endpoint.host, m.node.endpoint.port, dialer⟩ := by
  rw [Mihomo.nodeProxy, mihomoServer_written]
  unfold Mihomo.credentials
  cases m.node.protocol <;> rfl

/-! ## Servers of an artifact -/

theorem filterMap_of_forall₂ {α β γ : Type} {f : β → Option γ} {g : α → Option γ} {as : List α}
    {bs : List β} (h : List.Forall₂ (fun a b => f b = g a) as bs) :
    bs.filterMap f = as.filterMap g := by
  induction h with
  | nil => rfl
  | cons hab _ ih => rw [filterMap_cons, filterMap_cons, hab, ih]

/-- **Servers of an artifact.** They are those of its outbounds, and no more. -/
theorem emitted_servers {family : CoreFamily} {artifact : Artifact}
    (horder : (testInput snapshot independents chains).orderedOutboundRefs = .ok ("test_out", refs))
    (hrefs : refs.length ≤ 2)
    (h : emitFamily env (testInput snapshot independents chains) family = .ok artifact) :
    artifact.servers = refs.filterMap refServer := by
  cases family with
  | xray =>
    obtain ⟨doc, hdoc, rfl⟩ := of_map h
    obtain ⟨outs, houts, rfl, -⟩ := (xray_emit_iff horder hrefs).mp hdoc
    have hservers : (Artifact.xray (Xray.initialDocument "test_out" outs)).servers =
        outs.filterMap xrayServer := by
      show (outs ++ [_]).filterMap xrayServer = _
      rw [filterMap_append]
      exact append_nil _
    rw [hservers]
    refine filterMap_of_forall₂ ((mapM_eq_ok_iff.mp houts).imp ?_)
    intro ref o ho
    obtain ⟨m, hm, rfl⟩ := xray_refOutbound_ok ho
    rw [xrayServer_eq, refServer_of_mapNode hm]
  | singBox =>
    obtain ⟨doc, hdoc, rfl⟩ := of_map h
    obtain ⟨outs, houts, rfl⟩ := (singBox_emit_iff horder hrefs).mp hdoc
    refine filterMap_of_forall₂ ((mapM_eq_ok_iff.mp houts).imp ?_)
    intro ref o ho
    obtain ⟨m, hm, rfl⟩ := singBox_refOutbound_ok ho
    rw [singBoxServer_eq, refServer_of_mapNode hm]
  | mihomo =>
    obtain ⟨doc, hdoc, rfl⟩ := of_map h
    obtain ⟨proxies, hproxies, rfl⟩ := (mihomo_emit_iff horder hrefs).mp hdoc
    have hservers : (Artifact.mihomo (Mihomo.initialDocument "test_out" proxies)).servers =
        proxies.filterMap fun p => some (mihomoServer p) :=
      (congrFun filterMap_eq_map proxies).symm
    rw [hservers]
    refine filterMap_of_forall₂ ((mapM_eq_ok_iff.mp hproxies).imp ?_)
    intro ref p hp
    obtain ⟨m, hm, h⟩ := of_bind hp
    rw [← Except.ok.inj h, mihomoServer_eq, refServer_of_mapNode hm]

end

/-! ## The artifact of a subject -/

/-- The nodes on the way of a subject, the first hop first. -/
def subjectNodes (subject : Resource) : List ID :=
  match subject.metadata.kind, subject.payload with
  | .node, _ => [subject.id]
  | .chain, .chain c => c.hops
  | _, _ => []

section
variable {env : Env} {resources : Resources} {address : ID → String} {snapshot : ID}
  {artifact : Artifact}

/-- The endpoint of a node: the address of the map, with the port of the node. -/
def Bound (env : Env) (resources : Resources) (address : ID → String) (id : ID)
    (e : ApprovedEndpoint) : Prop :=
  ∃ r n ip, resources id = some r ∧ r.payload = .node n ∧
    env.text.parseAddr (address id) = some ip ∧ e = ⟨env.text.format ip, n.endpoint.port, false⟩

theorem prepareNode_spec {id : ID} {r : Resource} {endpoints : List ApprovedEndpoint}
    (h : prepareNode env resources (some address) id = .ok (r, endpoints)) :
    ∃ n e, r.payload = .node n ∧ n.endpoint = ⟨e.ip, e.port⟩ ∧ endpoints = [e] ∧
      Bound env resources address id e := by
  unfold prepareNode at h
  split at h
  · cases h
  · next r₀ hr₀ =>
    split_ifs at h
    split at h
    · next n haddr => cases haddr
    · next n address' hn haddr =>
      obtain rfl := Option.some.inj haddr
      split at h
      · cases h
      · next ip hip =>
        cases h
        exact ⟨_, _, rfl, rfl, rfl, r₀, n, ip, hr₀, hn, hip, rfl⟩
    · cases h

theorem refServer_of_node {r : Resource} {n : Node} {tag dialer path : String}
    {kind : OutboundKind} {e : ApprovedEndpoint} (hr : r.payload = .node n)
    (he : n.endpoint = ⟨e.ip, e.port⟩) :
    refServer ⟨tag, kind, some r, dialer, path⟩ = some ⟨tag, e.ip, e.port, dialer⟩ := by
  simp only [refServer, Option.map_some, hr, he]

/-- The way through an artifact passes its servers, each once. -/
structure Routed (artifact : Artifact) (endpoints : List ApprovedEndpoint) : Prop where
  hops : artifact.hops.map (fun s => (s.address, s.port)) = endpoints.map fun e => (e.ip, e.port)
  servers : artifact.servers = artifact.hops.reverse

theorem routed_node {e : ApprovedEndpoint}
    (h : artifact.servers = [⟨"test_out", e.ip, e.port, ""⟩]) : Routed artifact [e] := by
  have hhops : artifact.hops = [⟨"test_out", e.ip, e.port, ""⟩] := by
    rw [Artifact.hops, h]
    simp [hopsTo]
  exact ⟨by rw [hhops]; rfl, by rw [hhops, h]; rfl⟩

theorem routed_chain {e1 e2 : ApprovedEndpoint}
    (h : artifact.servers = [⟨"test_out", e2.ip, e2.port, "test_h1"⟩,
      ⟨"test_h1", e1.ip, e1.port, ""⟩]) : Routed artifact [e1, e2] := by
  have hhops : artifact.hops = [⟨"test_h1", e1.ip, e1.port, ""⟩,
      ⟨"test_out", e2.ip, e2.port, "test_h1"⟩] := by
    rw [Artifact.hops, h]
    simp [hopsTo]
  exact ⟨by rw [hhops]; rfl, by rw [hhops, h]; rfl⟩

/-- **Servers of a compiled subject.** In the order of the hops they are the endpoints that are
returned with the artifact, and these are bound to the addresses of the nodes. -/
theorem compile_servers {family : CoreFamily} {subject : Resource}
    {endpoints : List ApprovedEndpoint}
    (h : compile env resources (some address) family snapshot subject = .ok (artifact, endpoints)) :
    Routed artifact endpoints ∧
      List.Forall₂ (Bound env resources address) (subjectNodes subject) endpoints := by
  obtain ⟨⟨input, endpoints'⟩, hinput, h⟩ := of_bind h
  have hemit : emitFamily env input family = .ok artifact ∧ endpoints' = endpoints := by
    simp only at h
    split at h
    · cases h
    · next a ha =>
      cases h
      exact ⟨ha, rfl⟩
  obtain ⟨hemit, rfl⟩ := hemit
  unfold subjectInput at hinput
  unfold subjectNodes
  split at hinput
  · next hkind =>
    obtain ⟨⟨r, es⟩, hr, heq⟩ := of_map hinput
    obtain ⟨n, e, hn, he, rfl, hbound⟩ := prepareNode_spec hr
    cases heq
    have hservers := emitted_servers (testRefs_node snapshot r) (show 1 ≤ 2 by decide) hemit
    rw [nodeRefs, filterMap_cons, refServer_of_node hn he] at hservers
    exact ⟨routed_node hservers, .cons hbound .nil⟩
  · next c hkind hpayload =>
    split at hinput
    · next id1 id2 hvalid hhops =>
      obtain ⟨⟨r1, es1⟩, hr1, hinput⟩ := of_bind hinput
      obtain ⟨⟨r2, es2⟩, hr2, hinput⟩ := of_bind hinput
      obtain ⟨n1, e1, hn1, he1, rfl, hbound1⟩ := prepareNode_spec hr1
      obtain ⟨n2, e2, hn2, he2, rfl, hbound2⟩ := prepareNode_spec hr2
      cases hinput
      have hservers := emitted_servers (testRefs_chain snapshot subject r1 r2) le_rfl hemit
      rw [chainRefs, filterMap_cons, refServer_of_node hn2 he2, filterMap_cons,
        refServer_of_node hn1 he1] at hservers
      rw [hhops]
      exact ⟨routed_chain hservers, .cons hbound1 (.cons hbound2 .nil)⟩
    · cases hinput
  · cases hinput

end

end ProxyLoom.NetworkTest
