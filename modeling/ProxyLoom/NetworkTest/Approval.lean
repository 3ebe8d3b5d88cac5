import ProxyLoom.Lib.Firsts
import ProxyLoom.NetworkTest.Compile
import ProxyLoom.SafeFetch.Dial

/-!
# The addresses that a network test may dial

An address is judged three times: when the host of a node is resolved, when the endpoint of the
artifact is marked as private, and by the runner before it starts the core.
-/

namespace ProxyLoom.NetworkTest

open IR Netip List Except

/-! ## Checks of an address -/

/-- The answers of the DNS may change from one lookup to the next: they are taken by the resource
that is looked up. -/
structure Resolver where
  dns : ID → String → Option (List IP)
  allowNets : List Prefix
  proxyAllowNets : List Prefix := []

namespace Resolver

/-- A test may reach the address: it is allowed, or public. -/
def approved (r : Resolver) (ip : IP) : Bool :=
  if ip.zone ≠ "" then false
  else if r.allowNets.any fun p => p.containsIP ip.unmap then true
  else !SafeFetch.blocked ip

/-- A proxy may be at the private address. -/
def privateEndpointAuthorized (r : Resolver) (ip : IP) : Bool :=
  r.proxyAllowNets.any fun p => p.containsIP ip.unmap

/-- A proxy may be at the address. -/
def approvedEndpoint (r : Resolver) (ip : IP) : Bool :=
  if r.approved ip then true else r.proxyAllowNets.any fun p => p.containsIP ip.unmap

end Resolver

/-- The ranges of RFC 1918. -/
def privateRanges : List Prefix := [net4 10 0 0 0 8, net4 172 16 0 0 12, net4 192 168 0 0 16]

def privateProxyAddress (ip : IP) : Bool := privateRanges.any fun p => p.containsIP ip.unmap

/-! ## Resolution -/

section
variable (text : AddrText) (r : Resolver) (approve : IP → Bool)

/-- A literal address answers itself. -/
def answers (id : ID) (host : String) : Option (List IP) :=
  match text.parseAddr host with
  | some ip => some [ip]
  | none => r.dns id host

/-- One refused answer refuses them all. -/
def addAnswer (values : List String) (ip : IP) : Except CompileError (List String) :=
  if approve ip = false then .error .address
  else
    let value := text.format ip.unmap
    .ok (if value ∈ values then values else values ++ [value])

/-- The approved addresses of a host, sorted, without repetitions. -/
def resolve (id : ID) (host : String) : Except CompileError (List String) :=
  match answers text r id host with
  | none => .error .address
  | some ips =>
    if ips.length < 1 ∨ 16 < ips.length then .error .address
    else (ips.foldlM (addAnswer text approve) []).map fun values => values.insertionSort (· ≤ ·)

end

/-! ## Settings -/

/-- Why a test is not created. -/
inductive CreateError where
  | unavailable
  | prepare (e : CompileError)
deriving DecidableEq, Repr

/-- The network lies in a private range. -/
def privateProxyPrefix (p : Prefix) : Bool :=
  privateRanges.any fun parent => parent.bits ≤ p.bits && parent.contains p.addr

/-- One network of the setting: canonical, private, and not listed before. -/
def addPrefix (schema : Schema) (values : List Prefix) (value : String) :
    Except CreateError (List Prefix) :=
  match schema.parsePrefix value with
  | none => .error .unavailable
  | some p =>
    if p ≠ p.masked ∨ privateProxyPrefix p = false ∨ p ∈ values then .error .unavailable
    else .ok (values ++ [p])

/-- The networks of the settings; the same check accepts the settings. -/
def privateProxyPrefixes (schema : Schema) (cidrs : List String) :
    Except CreateError (List Prefix) :=
  if 16 < cidrs.length then .error .unavailable
  else (cidrs.foldlM (addPrefix schema) []).map fun values =>
    values.insertionSort fun p q => schema.formatPrefix p ≤ schema.formatPrefix q

/-! ## Creation of a test -/

/-- The resources a test may refer to. -/
structure Collected where
  ids : List ID
  get : Resources
  complete : ∀ id, (get id).isSome = true → id ∈ ids

/-- A test as it is stored for the runner. -/
structure Prepared where
  subject : Resource
  artifact : Artifact
  endpoints : List ApprovedEndpoint
  targetIPs : List String

section
variable (env : Env) (r : Resolver)

/-- The address of a resource: the first one of a node. -/
def addressOf (collected : Collected) (id : ID) : Except CompileError String :=
  match (collected.get id).map Resource.payload with
  | some (.node n) =>
    (resolve env.text r r.approvedEndpoint id n.endpoint.host).map fun ips => ips.headD ""
  | _ => .ok ""

/-- Every node is resolved once, before any test is compiled. -/
def prepareAddresses (collected : Collected) : Except CompileError (ID → String) := do
  let _ ← collected.ids.mapM (addressOf env r collected)
  pure fun id => (addressOf env r collected id).toOption.getD ""

/-- Mark the endpoint that is at a private address. -/
def flagEndpoint (e : ApprovedEndpoint) : Except CreateError ApprovedEndpoint :=
  match env.text.parseAddr e.ip with
  | none => .error .unavailable
  | some ip => .ok { e with privateAuthorized := r.privateEndpointAuthorized ip }

/-- Compile one subject and mark its endpoints. -/
def createTest (collected : Collected) (address : ID → String) (targetIPs : List String)
    (family : CoreFamily) (snapshot id : ID) : Except CreateError Prepared :=
  match collected.get id with
  | none => .error (.prepare .target)
  | some subject => do
    let (artifact, endpoints) ←
      (compile env collected.get (some address) family snapshot subject).mapError .prepare
    let endpoints ← endpoints.mapM (flagEndpoint env r)
    pure ⟨subject, artifact, endpoints, targetIPs⟩

/-- The tests of a request, from the settings and the resources that were collected for it. -/
def createOnline (cidrs : List String) (collected : Collected) (targetID : ID)
    (targetHost : String) (family : CoreFamily) (subjects : List (ID × ID)) :
    Except CreateError (List Prepared) := do
  let prefixes ← privateProxyPrefixes env.schema cidrs
  let resolver := { r with proxyAllowNets := prefixes }
  let address ← (prepareAddresses env resolver collected).mapError .prepare
  let targetIPs ←
    (resolve env.text resolver resolver.approved targetID targetHost).mapError .prepare
  subjects.mapM fun s => createTest env resolver collected address targetIPs family s.1 s.2

end

/-! ## The check of the runner -/

section
variable (text : AddrText) (policy : Resolver)

/-- The check of the runner before it dials an endpoint. -/
def acceptsEndpoint (e : ApprovedEndpoint) : Bool :=
  match text.parseAddr e.ip with
  | none => false
  | some ip => if e.privateAuthorized then privateProxyAddress ip else policy.approved ip

/-- The check of the runner for an address of the target. -/
def acceptsTarget (value : String) : Bool :=
  match text.parseAddr value with
  | none => false
  | some ip => policy.approved ip

/-- The runner accepts all the addresses of a test. -/
def runNetworkAccepts (p : Prepared) : Bool :=
  p.endpoints.all (acceptsEndpoint text policy) && p.targetIPs.all (acceptsTarget text policy)

end

/-! ## What the checks say -/

section
variable {r : Resolver} {ip : IP}

/-- Public, in the networks of a test harness, or in the networks of the settings. -/
def Granted (r : Resolver) (ip : IP) : Prop :=
  SafeFetch.blocked ip = false ∨ (∃ p ∈ r.allowNets, p.containsIP ip.unmap = true) ∨
    ∃ p ∈ r.proxyAllowNets, p.containsIP ip.unmap = true

theorem approved_iff : r.approved ip = true ↔ ip.zone = "" ∧
    ((∃ p ∈ r.allowNets, p.containsIP ip.unmap = true) ∨ SafeFetch.blocked ip = false) := by
  unfold Resolver.approved
  by_cases hzone : ip.zone = ""
  · rw [if_neg (not_not_intro hzone), ← any_eq_true]
    by_cases hnets : (r.allowNets.any fun p => p.containsIP ip.unmap) = true
    · simp [hzone, hnets]
    · simp [hzone, hnets]
  · rw [if_pos hzone]
    simp [hzone]

theorem approvedEndpoint_iff : r.approvedEndpoint ip = true ↔
    r.approved ip = true ∨ r.privateEndpointAuthorized ip = true := by
  unfold Resolver.approvedEndpoint Resolver.privateEndpointAuthorized
  by_cases h : r.approved ip = true
  · simp [h]
  · simp [h]

theorem granted_of_approvedEndpoint (h : r.approvedEndpoint ip = true) : Granted r ip := by
  rcases approvedEndpoint_iff.mp h with h | h
  · rcases (approved_iff.mp h).2 with h | h
    · exact .inr (.inl h)
    · exact .inl h
  · exact .inr (.inr (any_eq_true.mp h))

theorem isValid_of_contains {p : Prefix} (h : p.containsIP ip.unmap = true) :
    ip.isValid = true := by
  cases ip with
  | invalid => cases h
  | v4 a => rfl
  | v6 a z => rfl

theorem isValid_of_granted (h : Granted r ip) : ip.isValid = true := by
  rcases h with h | ⟨p, -, h⟩ | ⟨p, -, h⟩
  · cases ip with
    | invalid => cases h
    | v4 a => rfl
    | v6 a z => rfl
  · exact isValid_of_contains h
  · exact isValid_of_contains h

theorem approved_unmap (h : r.approved ip = true) : r.approved ip.unmap = true := by
  rw [approved_iff] at h ⊢
  rw [IP.unmap_unmap, SafeFetch.blocked_unmap]
  exact ⟨IP.zone_unmap h.1, h.2⟩

theorem approved_congr {policy : Resolver} (h : policy.allowNets = r.allowNets) :
    policy.approved = r.approved := by
  funext ip
  unfold Resolver.approved
  rw [h]

end

/-! ## What is resolved -/

section
variable {text : AddrText} {r : Resolver} {approve : IP → Bool}

/-- The texts of the answers so far, which were all approved. -/
structure Kept (text : AddrText) (approve : IP → Bool) (ips : List IP) (values : List String) :
    Prop where
  approved : ∀ ip ∈ ips, approve ip = true
  answer : ∀ value ∈ values, ∃ ip ∈ ips, value = text.format ip.unmap
  found : ips ≠ [] → values ≠ []

theorem Kept.addAnswer {ips : List IP} {values values' : List String} {ip : IP}
    (h : Kept text approve ips values) (hadd : addAnswer text approve values ip = .ok values') :
    Kept text approve (ips ++ [ip]) values' := by
  obtain ⟨happrove, hvalues⟩ := of_ite hadd
  obtain rfl := Except.ok.inj hvalues
  refine ⟨?_, ?_, ?_⟩
  · intro x hx
    rcases mem_append.mp hx with hx | hx
    · exact h.approved x hx
    · rw [mem_singleton.mp hx]
      exact Bool.not_eq_false _ ▸ happrove
  · intro value hvalue
    have hcases : value ∈ values ∨ value = text.format ip.unmap := by
      split_ifs at hvalue
      · exact .inl hvalue
      · exact (mem_append.mp hvalue).imp_right mem_singleton.mp
    rcases hcases with hv | hv
    · obtain ⟨x, hx, hxv⟩ := h.answer value hv
      exact ⟨x, mem_append_left _ hx, hxv⟩
    · exact ⟨ip, mem_append_right _ mem_cons_self, hv⟩
  · intro _ hnil
    split_ifs at hnil with hmem
    · rw [hnil] at hmem
      cases hmem
    · exact append_ne_nil_of_right_ne_nil _ (cons_ne_nil _ _) hnil

/-- **Resolution of a host.** -/
theorem resolve_spec {id : ID} {host : String} {values : List String}
    (h : resolve text r approve id host = .ok values) :
    ∃ ips, answers text r id host = some ips ∧ values ≠ [] ∧ Kept text approve ips values := by
  unfold resolve at h
  split at h
  · cases h
  · next ips hips =>
    obtain ⟨hlength, h⟩ := of_ite h
    obtain ⟨found, hfold, rfl⟩ := of_map h
    have hkept : Kept text approve ([] ++ ips) found :=
      List.foldlM_invariant (Kept text approve) (fun _ _ _ _ hk hstep => hk.addAnswer hstep)
        ⟨forall_mem_nil _, forall_mem_nil _, fun hne => absurd rfl hne⟩ hfold
    have hips' : ips ≠ [] := by
      rintro rfl
      exact hlength (.inl Nat.zero_lt_one)
    have hfound : found.insertionSort (· ≤ ·) ≠ [] := by
      intro hnil
      have hperm := perm_insertionSort (· ≤ ·) found
      rw [hnil] at hperm
      exact hkept.found hips' hperm.nil_eq.symm
    refine ⟨ips, hips, hfound, hkept.approved, ?_, fun _ => hfound⟩
    intro value hvalue
    exact hkept.answer value ((mem_insertionSort _).mp hvalue)

end

/-! ## What the settings allow -/

theorem addPrefix_spec {schema : Schema} {values values' : List Prefix} {value : String}
    (h : addPrefix schema values value = .ok values') :
    ∃ p, values' = values ++ [p] ∧ privateProxyPrefix p = true := by
  unfold addPrefix at h
  split at h
  · cases h
  · next p hp =>
    obtain ⟨hok, h⟩ := of_ite h
    push Not at hok
    exact ⟨p, (Except.ok.inj h).symm, Bool.not_eq_false _ ▸ hok.2.1⟩

/-- Every network of the settings lies in one of the private ones. -/
theorem privateProxyPrefixes_spec {schema : Schema} {cidrs : List String} {prefixes : List Prefix}
    (h : privateProxyPrefixes schema cidrs = .ok prefixes) :
    ∀ p ∈ prefixes, privateProxyPrefix p = true := by
  obtain ⟨-, h⟩ := of_ite h
  obtain ⟨values, hfold, rfl⟩ := of_map h
  have hstep : ∀ (done : List String) values value values',
      (∀ p ∈ values, privateProxyPrefix p = true) → addPrefix schema values value = .ok values' →
        ∀ p ∈ values', privateProxyPrefix p = true := by
    intro _ values value values' hprev hadd
    obtain ⟨q, rfl, hq⟩ := addPrefix_spec hadd
    exact forall_mem_append.mpr ⟨hprev, forall_mem_singleton.mpr hq⟩
  intro p hp
  exact @List.foldlM_invariant _ _ _ _ (fun _ values => ∀ p ∈ values, privateProxyPrefix p = true)
    hstep _ [] _ _ (forall_mem_nil _) hfold p ((mem_insertionSort _).mp hp)

theorem privateProxyAddress_of_contains {p : Prefix} {ip : IP} (hp : privateProxyPrefix p = true)
    (h : p.containsIP ip.unmap = true) : privateProxyAddress ip = true := by
  obtain ⟨parent, hparent, hincludes⟩ := any_eq_true.mp hp
  obtain ⟨hbits, hcontains⟩ := Bool.and_eq_true_iff.mp hincludes
  obtain ⟨hzone, hwithin⟩ := Bool.and_eq_true_iff.mp h
  obtain ⟨a, ha, hpa⟩ := (Option.any_eq_true _ _).mp hwithin
  refine any_eq_true.mpr ⟨parent, hparent, Bool.and_eq_true_iff.mpr ⟨hzone, ?_⟩⟩
  refine (Option.any_eq_true _ _).mpr ⟨a, ha, ?_⟩
  exact Prefix.contains_of_includes (Bool.and_eq_true_iff.mpr ⟨hcontains, hbits⟩) hpa

/-! ## What the runner accepts -/

section
variable {env : Env} {r policy : Resolver} {ip : IP}

theorem privateEndpointAuthorized_unmap :
    r.privateEndpointAuthorized ip.unmap = r.privateEndpointAuthorized ip := by
  unfold Resolver.privateEndpointAuthorized
  rw [IP.unmap_unmap]

theorem parse_of_approvedEndpoint (h : r.approvedEndpoint ip = true) :
    env.text.parseAddr (env.text.format ip.unmap) = some ip.unmap :=
  env.text.parse_format ip (isValid_of_granted (granted_of_approvedEndpoint h))

/-- **The mark and the runner.** An endpoint that was approved passes the check of the runner with
the mark that it is given. -/
theorem flag_accepted (hprefixes : ∀ p ∈ r.proxyAllowNets, privateProxyPrefix p = true)
    (h : r.approvedEndpoint ip = true) (hpolicy : policy.allowNets = r.allowNets) (port : ℕ) :
    acceptsEndpoint env.text policy
      ⟨env.text.format ip.unmap, port, r.privateEndpointAuthorized ip⟩ = true := by
  unfold acceptsEndpoint
  rw [parse_of_approvedEndpoint h]
  show (if r.privateEndpointAuthorized ip then privateProxyAddress ip.unmap
    else policy.approved ip.unmap) = true
  split_ifs with hprivate
  · obtain ⟨p, hp, hcontains⟩ := any_eq_true.mp hprivate
    refine privateProxyAddress_of_contains (hprefixes p hp) ?_
    rwa [IP.unmap_unmap]
  · have happroved := (approvedEndpoint_iff.mp h).resolve_right hprivate
    rw [approved_congr hpolicy]
    exact approved_unmap happroved

theorem target_accepted (h : r.approved ip = true) (hpolicy : policy.allowNets = r.allowNets) :
    acceptsTarget env.text policy (env.text.format ip.unmap) = true := by
  unfold acceptsTarget
  rw [parse_of_approvedEndpoint (approvedEndpoint_iff.mpr (.inl h)), approved_congr hpolicy]
  exact approved_unmap h

end

/-! ## What is created -/

section
variable {env : Env} {r : Resolver} {collected : Collected} {address : ID → String} {id : ID}

/-- The endpoint of a node: an answer for its host that was approved, with its port. -/
def Answered (env : Env) (r : Resolver) (resources : Resources) (id : ID)
    (e : ApprovedEndpoint) : Prop :=
  ∃ res n ips ip, resources id = some res ∧ res.payload = .node n ∧
    answers env.text r id n.endpoint.host = some ips ∧ ip ∈ ips ∧ r.approvedEndpoint ip = true ∧
    e = ⟨env.text.format ip.unmap, n.endpoint.port, r.privateEndpointAuthorized ip⟩

/-- The address of a node is one that its host resolves to, and every answer was approved. -/
theorem prepareAddresses_spec
    (h : prepareAddresses env r collected = .ok address) {res : Resource} {n : Node}
    (hres : collected.get id = some res) (hn : res.payload = .node n) :
    ∃ ips ip, answers env.text r id n.endpoint.host = some ips ∧ ip ∈ ips ∧
      r.approvedEndpoint ip = true ∧ address id = env.text.format ip.unmap := by
  obtain ⟨found, hfound, haddress⟩ := of_bind h
  obtain rfl := pure_eq_ok_iff.mp haddress
  have hid : id ∈ collected.ids := collected.complete id (by rw [hres]; rfl)
  obtain ⟨value, -, hvalue⟩ := (mapM_eq_ok_iff.mp hfound).exists_right hid
  have hhead : (addressOf env r collected id).toOption.getD "" = value := by
    rw [hvalue]
    rfl
  simp only [hhead]
  unfold addressOf at hvalue
  rw [hres, Option.map_some, hn] at hvalue
  obtain ⟨values, hvalues, rfl⟩ := of_map hvalue
  obtain ⟨ips, hips, hne, hkept⟩ := resolve_spec hvalues
  obtain ⟨v, rest, rfl⟩ := exists_cons_of_ne_nil hne
  obtain ⟨ip, hip, hv⟩ := hkept.answer v mem_cons_self
  exact ⟨ips, ip, hips, hip, hkept.approved ip hip, hv⟩

theorem Routed.congr {artifact : Artifact} {endpoints endpoints' : List ApprovedEndpoint}
    (h : Routed artifact endpoints)
    (hsame : endpoints'.map (fun e => (e.ip, e.port)) = endpoints.map fun e => (e.ip, e.port)) :
    Routed artifact endpoints' := ⟨h.hops.trans hsame.symm, h.servers⟩

theorem flagEndpoint_spec {e e' : ApprovedEndpoint} (h : flagEndpoint env r e = .ok e') :
    ∃ ip, env.text.parseAddr e.ip = some ip ∧
      e' = ⟨e.ip, e.port, r.privateEndpointAuthorized ip⟩ := by
  unfold flagEndpoint at h
  split at h
  · cases h
  · next ip hip => exact ⟨ip, hip, (Except.ok.inj h).symm⟩

theorem flagEndpoint_same {endpoints endpoints' : List ApprovedEndpoint}
    (h : List.Forall₂ (fun e e' => flagEndpoint env r e = .ok e') endpoints endpoints') :
    endpoints'.map (fun e => (e.ip, e.port)) = endpoints.map fun e => (e.ip, e.port) := by
  induction h with
  | nil => rfl
  | cons he _ ih =>
    obtain ⟨ip, -, rfl⟩ := flagEndpoint_spec he
    rw [map_cons, map_cons, ih]

theorem answered_of_bound
    (haddress : prepareAddresses env r collected = .ok address) {e e' : ApprovedEndpoint}
    (hbound : Bound env collected.get address id e) (hflag : flagEndpoint env r e = .ok e') :
    Answered env r collected.get id e' := by
  obtain ⟨res, n, x, hres, hn, hx, rfl⟩ := hbound
  obtain ⟨ips, ip, hips, hip, happroved, htext⟩ := prepareAddresses_spec haddress hres hn
  have hparse := @parse_of_approvedEndpoint env r ip happroved
  obtain rfl : x = ip.unmap := by
    rw [htext, hparse] at hx
    exact (Option.some.inj hx).symm
  obtain ⟨y, hy, rfl⟩ := flagEndpoint_spec hflag
  obtain rfl : y = ip.unmap := (Option.some.inj (hparse.symm.trans hy)).symm
  rw [privateEndpointAuthorized_unmap]
  exact ⟨res, n, ips, ip, hres, hn, hips, hip, happroved, rfl⟩

theorem createTest_spec {targetIPs : List String} {family : CoreFamily}
    {snapshot : ID} {p : Prepared} (haddress : prepareAddresses env r collected = .ok address)
    (h : createTest env r collected address targetIPs family snapshot id = .ok p) :
    collected.get id = some p.subject ∧ Routed p.artifact p.endpoints ∧
      List.Forall₂ (Answered env r collected.get) (subjectNodes p.subject) p.endpoints ∧
      p.targetIPs = targetIPs := by
  unfold createTest at h
  split at h
  · cases h
  · next subject hsubject =>
    obtain ⟨⟨artifact, endpoints⟩, hcompile, h⟩ := of_bind h
    obtain ⟨endpoints', hflags, h⟩ := of_bind h
    obtain rfl := pure_eq_ok_iff.mp h
    obtain ⟨hrouted, hbound⟩ := compile_servers (mapError_eq_ok_iff.mp hcompile)
    have hflagged := mapM_eq_ok_iff.mp hflags
    refine ⟨hsubject, hrouted.congr (flagEndpoint_same hflagged), ?_, rfl⟩
    exact hbound.compose hflagged fun _ _ _ hb hf => answered_of_bound haddress hb hf

end

/-- **Network tests dial approved addresses only.** The servers of an artifact are, hop by hop, the
endpoints that are given to the runner. Each is an answer for the host of its node that is public,
excepted for a harness or in a network of the settings, and a runner with the same exceptions
accepts all of them. -/
theorem tests_dial_approved (env : Env) (r : Resolver) (cidrs : List String) (collected : Collected)
    (targetID : ID) (targetHost : String) (family : CoreFamily) (subjects : List (ID × ID))
    (prepared : List Prepared)
    (h : createOnline env r cidrs collected targetID targetHost family subjects = .ok prepared) :
    ∃ prefixes, privateProxyPrefixes env.schema cidrs = .ok prefixes ∧ ∀ p ∈ prepared,
      Routed p.artifact p.endpoints ∧
      List.Forall₂ (Answered env { r with proxyAllowNets := prefixes } collected.get)
        (subjectNodes p.subject) p.endpoints ∧
      (∀ e ∈ p.endpoints, ∃ ip, e.ip = env.text.format ip.unmap ∧
        Granted { r with proxyAllowNets := prefixes } ip) ∧
      ∀ policy : Resolver, policy.allowNets = r.allowNets →
        runNetworkAccepts env.text policy p = true := by
  obtain ⟨prefixes, hprefixes, h⟩ := of_bind h
  obtain ⟨address, haddress, h⟩ := of_bind h
  obtain ⟨targetIPs, htarget, h⟩ := of_bind h
  refine ⟨prefixes, hprefixes, ?_⟩
  intro p hp
  obtain ⟨s, -, htest⟩ := (mapM_eq_ok_iff.mp h).exists_left hp
  obtain ⟨-, hrouted, hanswered, hips⟩ :=
    createTest_spec (mapError_eq_ok_iff.mp haddress) htest
  refine ⟨hrouted, hanswered, ?_, ?_⟩
  · intro e he
    obtain ⟨id, -, res, n, ips, ip, -, -, -, -, happroved, rfl⟩ := hanswered.exists_left he
    exact ⟨ip, rfl, granted_of_approvedEndpoint happroved⟩
  · intro policy hpolicy
    refine Bool.and_eq_true_iff.mpr ⟨all_eq_true.mpr ?_, all_eq_true.mpr ?_⟩
    · intro e he
      obtain ⟨id, -, res, n, ips, ip, -, -, -, -, happroved, rfl⟩ := hanswered.exists_left he
      exact flag_accepted (privateProxyPrefixes_spec hprefixes) happroved hpolicy _
    · intro value hvalue
      rw [hips] at hvalue
      obtain ⟨ips, -, -, hkept⟩ := resolve_spec (mapError_eq_ok_iff.mp htarget)
      obtain ⟨ip, hip, rfl⟩ := hkept.answer value hvalue
      exact target_accepted (hkept.approved ip hip) hpolicy

/-! ## A chain with a private exit -/

/-- Dotted decimals for version 4; for version 6 the number, between a colon and the zone. -/
def addrText : IP → List Char
  | .invalid => []
  | .v4 a => Scan.join '.' ([0, 1, 2, 3].map fun i => Scan.digits (IP.octet a i))
  | .v6 a zone => ':' :: (Scan.digits a.toNat ++ '%' :: zone.toList)

def readAddr (cs : List Char) : Option IP :=
  match (Scan.split '.' cs).mapM Scan.number with
  | some [a, b, c, d] => some (.v4 (BitVec.ofNat 32 (((a * 256 + b) * 256 + c) * 256 + d)))
  | _ => do
    let (number, zone) := Scan.cut '%' cs.tail
    let n ← Scan.number number
    return .v6 (BitVec.ofNat 128 n) (String.ofList (zone.getD []))

theorem numbers_colon (cs : List Char) : (Scan.split '.' (':' :: cs)).mapM Scan.number = none := by
  have hnone : ∀ field, Scan.number (':' :: field) = none := fun field =>
    Scan.number_of_mem mem_cons_self rfl
  rw [Scan.split, if_neg (by decide)]
  cases Scan.split '.' cs <;> simp [hnone]

theorem readAddr_addrText {ip : IP} (h : ip.isValid = true) :
    readAddr (addrText ip) = some ip := by
  cases ip with
  | invalid => cases h
  | v4 a =>
    have hsplit : Scan.split '.' (addrText (.v4 a)) =
        [0, 1, 2, 3].map fun i => Scan.digits (IP.octet a i) := by
      refine Scan.split_join (by simp) fun field hfield => ?_
      obtain ⟨i, -, rfl⟩ := mem_map.mp hfield
      exact Scan.not_mem_digits rfl
    have hsum : ((IP.octet a 0 * 256 + IP.octet a 1) * 256 + IP.octet a 2) * 256 + IP.octet a 3 =
        a.toNat := by
      have ha := a.isLt
      unfold IP.octet
      omega
    simp [readAddr, hsplit, Scan.number_digits, hsum]
  | v6 a zone =>
    have hcut : Scan.cut '%' (Scan.digits a.toNat ++ '%' :: zone.toList) =
        (Scan.digits a.toNat, some zone.toList) := Scan.cut_append (Scan.not_mem_digits rfl)
    simp [readAddr, addrText, numbers_colon, hcut, Scan.number_digits]

def dottedAddrs : AddrText where
  parseAddr s := readAddr s.toList
  format ip := String.ofList (addrText ip)
  parse_format ip h := by
    have hvalid : ip.unmap.isValid = true := IP.isValid_unmap ip ▸ h
    rw [String.toList_ofList]
    exact readAddr_addrText hvalid

def privateSchema : Schema :=
  { hostnameSchema with parsePrefix := fun _ => some (net4 10 0 0 0 8) }

/-- The entry resolves to 8.8.8.8, in its mapped form, and the exit to 10.0.0.5. -/
def exitResolver : Resolver where
  dns id _ := if id = exitNode.id then some [.v4 (BitVec.ofNat 32 (10 * 2 ^ 24 + 5))]
    else some [IP.mapped (BitVec.ofNat 32 0x08080808) ""]
  allowNets := []

def exitResources : List Resource := [plainNode, exitNode, twoHops]

def exitCollected : Collected where
  ids := exitResources.map Resource.id
  get id := exitResources.find? fun r => r.id = id
  complete id h := by
    obtain ⟨r, hr⟩ := Option.isSome_iff_exists.mp h
    have hid : r.id = id :=
      of_decide_eq_true (List.find?_some (p := fun r : Resource => decide (r.id = id)) hr)
    exact hid ▸ mem_map_of_mem (mem_of_find?_eq_some hr)

def exitEnv : Env := ⟨Adapter.hostnameLibraries, privateSchema, dottedAddrs⟩

def exitTests : Except CreateError (List Prepared) :=
  createOnline exitEnv exitResolver ["10.0.0.0/8"] exitCollected plainNode.id "target.example"
    .singBox [("", twoHops.id)]

/-- The chain is tested through both addresses, and the exit is marked as private. -/
theorem tests_dial_approved_chain :
    ∃ p, exitTests = .ok [p] ∧ p.endpoints.map (fun e => e.privateAuthorized) = [false, true] ∧
      Routed p.artifact p.endpoints ∧ runNetworkAccepts dottedAddrs exitResolver p = true := by
  have hone : (exitTests.toOption.map fun ps => ps.map fun p =>
      p.endpoints.map fun e => e.privateAuthorized) = some [[false, true]] := by decide
  obtain ⟨ps, hps, hmarks⟩ := toOption_map_eq_some_iff.mp hone
  obtain ⟨p, rest, rfl, hp, hrest⟩ := map_eq_cons_iff.mp hmarks
  obtain rfl := map_eq_nil_iff.mp hrest
  obtain ⟨prefixes, -, hall⟩ := tests_dial_approved _ _ _ _ _ _ _ _ _ hps
  obtain ⟨hrouted, -, -, haccepts⟩ := hall p mem_cons_self
  exact ⟨p, hps, hp, hrouted, haccepts exitResolver rfl⟩

end ProxyLoom.NetworkTest
