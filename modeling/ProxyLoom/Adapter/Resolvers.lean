import ProxyLoom.Adapter.Mihomo.Routing
import ProxyLoom.Adapter.SingBox.Routing
import ProxyLoom.Adapter.Xray.Routing
import ProxyLoom.Lib.Firsts

/-!
# Resolvers of the cores

Which server each core asks for a name, and that it is the one of the resolver that the DNS profile
selects. Xray and Mihomo leave out rules that hold of no name, and the system's resolver of Xray
answers for more names than its rule asks for.
-/

namespace ProxyLoom.Adapter

open IR Compiler Domain List Except

variable {schema : Schema} {lib : Libraries} {input : EmitInput} {d : DNSInput} {name : String}

theorem firstTarget_cons {f : Flow} {rule : RouteRule} {rules : List RouteRule}
    {otherwise : String} :
    firstTarget schema f (rule :: rules) otherwise =
      if rule.condition.holds schema f then rule.target
      else firstTarget schema f rules otherwise := by
  unfold firstTarget
  cases hc : rule.condition.holds schema f with
  | true => rw [List.find?_cons_of_pos (by exact hc)]; rfl
  | false => rw [List.find?_cons_of_neg (by simp [hc])]; rfl

/-! ## sing-box -/

namespace SingBox

/-- The first rule that holds of the name has it. -/
def DNSConfig.select (schema : Schema) (dns : DNSConfig) (name : String) : String :=
  ((dns.rules.find? fun r => r.rule.holds schema (Flow.query name)).map DNSRule.server).getD
    dns.final

theorem dnsConfig_select {dns : DNSConfig}
    (hvalid : ∀ rule ∈ d.rules, ValidCondition schema rule.condition)
    (h : dnsConfig lib input d = .ok dns) : dns.select schema name = d.select schema name := by
  unfold dnsConfig at h
  obtain ⟨-, h⟩ := of_ite h
  obtain ⟨servers, -, h⟩ := of_bind h
  obtain ⟨-, h⟩ := of_ite h
  obtain ⟨rules, hrules, h⟩ := of_bind h
  cases h
  have hsame : List.Forall₂ (fun (rule : Adapter.RouteRule) (out : DNSRule) =>
      rule.condition.holds schema (Flow.query name) = out.rule.holds schema (Flow.query name) ∧
        rule.target = out.server) d.rules rules := by
    refine ((forall₂_and_left _ _).mpr ⟨hvalid, mapM_eq_ok_iff.mp hrules⟩).imp
      fun rule out hrule => ?_
    obtain ⟨-, hout⟩ := of_ite hrule.2
    obtain ⟨-, hout⟩ := of_ite hout
    cases hout
    exact ⟨(nativeCondition_holds hrule.1).symm, rfl⟩
  rw [DNSConfig.select, DNSInput.select, firstTarget, hsame.find?_map_eq]

end SingBox

/-! ## Mihomo -/

namespace Mihomo

/-- A name after a plus sign and a dot stands for everything under it. -/
def payloadHolds (n : List Char) (text : String) : Bool :=
  match text.toList with
  | '+' :: '.' :: rest => under rest n
  | cs => n = cs

def DNSPolicy.holds (providers : List DNSRuleProvider) (n : List Char) (policy : DNSPolicy) :
    Bool :=
  (providers.find? fun p => "rule-set:" ++ p.name = policy.key).any fun p =>
    p.payload.any (payloadHolds n)

/-- The first policy whose rule set contains the name has it. -/
def Document.server (doc : Document) (name : String) : Option String :=
  doc.dns.bind fun dns => ((dns.nameServerPolicy.find?
    (DNSPolicy.holds doc.ruleProviders name.toList)).map DNSPolicy.server).or dns.nameServer.head?

/-- The server is the one written for a resolver, whatever bootstrap resolver is selected. -/
def Written (lib : Libraries) (input : EmitInput) (d : DNSInput) (entries : List (DNSResolver × ℕ))
    (id server : String) : Prop :=
  ∃ entry ∈ entries, entry.1.resolverID = id ∧
    ∃ boot boot', dnsServer lib input d boot entry = .ok (boot', server)

/-- Mihomo reads the patterns of a rule provider back. -/
theorem payloadHolds_text {p : Pattern} {n : List Char}
    (h : validDomainName schema (String.ofList p.name) = true) :
    payloadHolds n (payloadText p) = p.holds n := by
  cases p with
  | full a =>
    unfold payloadHolds
    split
    next rest heq =>
      have hchars := domainChars h
      rw [show String.ofList (Pattern.full a).name = payloadText (.full a) from rfl, heq] at hchars
      exact absurd (hchars '+' mem_cons_self) (by decide)
    next => rw [payloadText, String.toList_ofList, Pattern.holds]
  | tree a =>
    have htext : (payloadText (.tree a)).toList = '+' :: '.' :: a := by simp [payloadText]
    rw [payloadHolds, htext]
    rfl

variable {servers : List (String × String)} {st st' : RuleState}

theorem addRule_ok {entry : RouteRule × ℕ} (h : addRule input d servers st entry = .ok st') :
    ∃ server domains, lookup servers entry.1.target = some server ∧
      dnsDomains patternText entry.1.condition = .ok domains ∧
      (domains = [] ∧ st'.providers = st.providers ∧ st'.policies = st.policies ∨
        providerName entry.2 ∉ st.providers.map DNSRuleProvider.name ∧
        st'.providers = st.providers ++ [⟨providerName entry.2, domains.map payloadText⟩] ∧
        st'.policies = st.policies ++ [⟨"rule-set:" ++ providerName entry.2, server⟩]) := by
  unfold addRule at h
  dsimp only at h
  split at h
  · cases h
  next server hserver =>
  split at h
  · cases h
  next domains hdomains =>
  obtain ⟨-, h⟩ := of_ite h
  refine ⟨server, domains, hserver, hdomains, ?_⟩
  by_cases hempty : domains = []
  · rw [if_pos hempty] at h
    cases h
    exact .inl ⟨hempty, rfl, rfl⟩
  · rw [if_neg hempty] at h
    obtain ⟨hname, h⟩ := of_ite h
    cases h
    exact .inr ⟨hname, rfl, rfl⟩

/-- The policy of a provider asks it if no earlier one has its name. -/
theorem holds_provider {before after : List DNSRuleProvider} {p : DNSRuleProvider} {server : String}
    {n : List Char} (h : p.name ∉ before.map DNSRuleProvider.name) :
    DNSPolicy.holds (before ++ p :: after) n ⟨"rule-set:" ++ p.name, server⟩ =
      p.payload.any (payloadHolds n) := by
  have hnone : before.find? (fun q => "rule-set:" ++ q.name = "rule-set:" ++ p.name) = none :=
    List.find?_eq_none.mpr fun q hq heq => h (mem_map.mpr ⟨q, hq, by simpa using heq⟩)
  rw [DNSPolicy.holds, List.find?_append, hnone, Option.none_or, List.find?_cons_of_pos (by simp),
    Option.any_some]

/-- The policies that the loop adds, with the providers at its end, select the server of the first
rule that holds of the name. -/
theorem addRule_run (name : String) {rules : List (RouteRule × ℕ)} {otherwise final : String}
    (hfinal : lookup servers otherwise = some final)
    (hvalid : ∀ entry ∈ rules, ValidCondition schema entry.1.condition)
    (h : rules.foldlM (addRule input d servers) st = .ok st') :
    ∃ policies providers, st'.policies = st.policies ++ policies ∧
      st'.providers = st.providers ++ providers ∧
      lookup servers (firstTarget schema (Flow.query name) (rules.map Prod.fst) otherwise) =
        some (((policies.find? (DNSPolicy.holds st'.providers name.toList)).map
          DNSPolicy.server).getD final) := by
  induction rules generalizing st with
  | nil =>
    rw [foldlM_nil] at h
    cases h
    exact ⟨[], [], by simp, by simp, hfinal⟩
  | cons entry rules ih =>
    rw [foldlM_cons] at h
    obtain ⟨next, hnext, h⟩ := of_bind h
    obtain ⟨policies, providers, hpolicies, hproviders, hselect⟩ :=
      ih (fun e he => hvalid e (mem_cons_of_mem _ he)) h
    obtain ⟨server, domains, hserver, hdomains, hcases⟩ := addRule_ok hnext
    obtain ⟨hholds, hnames⟩ := dnsDomains_spec _ name (hvalid entry mem_cons_self) _ hdomains
    obtain ⟨rfl, hprov, hpol⟩ | ⟨hname, hprov, hpol⟩ := hcases
    · refine ⟨policies, providers, hpol ▸ hpolicies, hprov ▸ hproviders, ?_⟩
      rw [map_cons, firstTarget_cons, if_neg (by rw [← hholds]; simp)]
      exact hselect
    · have hall : st'.providers = st.providers ++
          ⟨providerName entry.2, domains.map payloadText⟩ :: providers := by
        rw [hproviders, hprov, append_assoc]
        rfl
      have hpolicy : DNSPolicy.holds st'.providers name.toList
          ⟨"rule-set:" ++ providerName entry.2, server⟩ =
            entry.1.condition.holds schema (Flow.query name) := by
        rw [hall, ← hholds]
        refine (holds_provider hname).trans ?_
        rw [any_map]
        exact Slices.any_congr fun p hp => payloadHolds_text (hnames p hp)
      refine ⟨⟨"rule-set:" ++ providerName entry.2, server⟩ :: policies, _, ?_, hall, ?_⟩
      · rw [hpolicies, hpol, append_assoc]
        rfl
      · rw [map_cons, firstTarget_cons]
        cases hc : entry.1.condition.holds schema (Flow.query name) with
        | true =>
          rw [List.find?_cons_of_pos (hpolicy.trans hc)]
          exact hserver
        | false =>
          rw [List.find?_cons_of_neg (by simp [hpolicy, hc])]
          exact hselect

theorem addServer_run {entries : List (DNSResolver × ℕ)} {start boot id server : String}
    (h : entries.foldlM (addServer lib input d) (start, []) = .ok (boot, servers))
    (hid : lookup servers id = some server) : Written lib input d entries id server := by
  have hinv : ∀ e ∈ servers, Written lib input d ([] ++ entries) e.1 e.2 := by
    refine List.foldlM_invariant (fun done st => ∀ e ∈ st.2, Written lib input d done e.1 e.2)
      (fun done st entry st' hdone hstep e he => ?_) (by simp) h
    obtain ⟨⟨boot, server⟩, hserver, hstep⟩ := of_bind hstep
    cases hstep
    obtain he | he := mem_append.mp he
    · obtain ⟨entry', hmem, hentry'⟩ := hdone e (mem_of_mem_filter he)
      exact ⟨entry', mem_append_left _ hmem, hentry'⟩
    · rw [mem_singleton.mp he]
      exact ⟨entry, by simp, rfl, _, _, hserver⟩
  obtain ⟨e, hfind, rfl⟩ := Option.map_eq_some_iff.mp hid
  obtain rfl : e.1 = id := by simpa using List.find?_some hfind
  exact hinv e (mem_of_find?_eq_some hfind)

/-- The server for a name is that of the resolver that the input asks. -/
theorem applyDNS_server {doc doc' : Document} (hd : input.dns = some d)
    (hvalid : ∀ rule ∈ d.rules, ValidCondition schema rule.condition)
    (hdoc : doc.ruleProviders = []) (h : applyDNS lib input doc = .ok doc') :
    ∃ server, doc'.server name = some server ∧
      Written lib input d d.profile.resolvers.zipIdx (d.select schema name) server := by
  unfold applyDNS at h
  rw [hd] at h
  obtain ⟨⟨dns, providers⟩, hconfig, rfl⟩ := of_map h
  unfold dnsConfig at hconfig
  obtain ⟨refs, -, hconfig⟩ := of_bind hconfig
  obtain ⟨start, -, hconfig⟩ := of_bind hconfig
  obtain ⟨⟨boot, servers⟩, hservers, hconfig⟩ := of_bind hconfig
  dsimp only at hconfig
  split at hconfig
  all_goals
    obtain ⟨bootstrap, -, hconfig⟩ := of_bind hconfig
    split at hconfig
    · cases hconfig
    next final hfinal =>
    obtain ⟨-, hconfig⟩ := of_ite hconfig
    obtain ⟨st, hst, hconfig⟩ := of_bind hconfig
    cases hconfig
    obtain ⟨policies, providers, hpolicies, hproviders, hselect⟩ := addRule_run name hfinal
      (fun entry he => hvalid _ (fst_mem_of_mem_zipIdx he)) hst
    rw [zipIdx_map_fst] at hselect
    refine ⟨_, ?_, addServer_run hservers hselect⟩
    unfold Document.server
    rw [hdoc]
    dsimp only [Option.bind_some, nil_append]
    rw [show st.policies = policies from hpolicies]
    cases policies.find? (DNSPolicy.holds st.providers name.toList) with
    | none => rfl
    | some policy => rfl

end Mihomo

/-! ## Xray -/

namespace Xray

/-- The names that the system's resolver answers for. -/
def isPrivate (n : List Char) : Bool :=
  !n.contains '.' || privateSuffixes.any fun suffix => under suffix.toList n

/-- A server with a list of names has those, and the system's resolver the private ones too. -/
def DNSServer.claims (n : List Char) (s : DNSServer) : Bool :=
  s.domains.any (Pattern.holds · n) ||
    s.address = "localhost" && s.domains ≠ [] && isPrivate n

/-- The first server that claims the name has it, and the last one if there is none. -/
def Document.server (doc : Document) (name : String) : Option DNSServer :=
  doc.dns.bind fun servers => (servers.find? (DNSServer.claims name.toList)).or servers.getLast?

/-- The guard of Xray sees every pattern that holds of a private name. -/
theorem matchesPrivate_of_holds {p : Pattern} {n : List Char} (hp : p.holds n = true)
    (hn : isPrivate n = true) : matchesPrivate p = true := by
  unfold isPrivate at hn
  unfold matchesPrivate
  simp only [Bool.or_eq_true, Bool.not_eq_true', any_eq_true] at hn ⊢
  cases p with
  | full a =>
    obtain rfl : n = a := of_decide_eq_true hp
    exact hn.imp_right fun ⟨s, hs, h⟩ => ⟨s, hs, .inl h⟩
  | tree a =>
    obtain hdot | ⟨s, hs, h⟩ := hn
    · obtain rfl | hsuffix := under_iff.mp hp
      · exact .inl hdot
      · have hmem : '.' ∈ n := hsuffix.mem mem_cons_self
        simp [hmem] at hdot
    · obtain h | h := under_total h hp
      · exact .inr ⟨s, hs, .inl h⟩
      · obtain heq | hsuffix := under_iff.mp h
        · exact .inr ⟨s, hs, .inl (heq ▸ under_refl)⟩
        · exact .inr ⟨s, hs, .inr (isSuffixOf_iff_suffix.mpr hsuffix)⟩

/-- What a rule takes over of a server: everything but its names. -/
def DNSServer.Same (s r : DNSServer) : Prop :=
  s = { r with domains := s.domains, skipFallback := s.skipFallback }

/-- The server is the one that is written for a resolver. -/
def Written (lib : Libraries) (input : EmitInput) (d : DNSInput) (id : String)
    (server : DNSServer) : Prop :=
  ∃ entry ∈ d.profile.resolvers.zipIdx, entry.1.resolverID = id ∧
    ∃ written, dnsServer lib input d entry = .ok written ∧ server.Same written

/-- The system's resolvers have one server, and nothing else has its address. -/
def Resolver.System (r : Resolver) : Prop :=
  (r.kind = .localDNS → r.server = ⟨"localhost", 0, [], "", true⟩) ∧
    (r.server.address = "localhost" → r.kind = .localDNS)

variable {resolvers : List Resolver} {final : Resolver} {st st' : RuleState}

theorem addRule_ok {rule : RouteRule} (h : addRule input d resolvers final st rule = .ok st') :
    ∃ r domains, findResolver resolvers rule.target = some r ∧
      dnsDomains patternText rule.condition = .ok domains ∧
      (domains = [] ∧ st'.servers = st.servers ∧ st'.localRule = st.localRule ∨
        domains ≠ [] ∧ st'.servers = st.servers ++ [{ r.server with domains }] ∧
        (r.kind = .localDNS ∧ final.kind = .localDNS ∧ st'.localRule = rule.fieldPath ∨
          r.kind ≠ .localDNS ∧ st'.localRule = st.localRule ∧
          (st.localRule ≠ "" → dnsMatchesPrivate domains = false))) := by
  unfold addRule at h
  split at h
  · cases h
  next r hr =>
  split at h
  · cases h
  next domains hdomains =>
  obtain ⟨-, h⟩ := of_ite h
  refine ⟨r, domains, hr, hdomains, ?_⟩
  by_cases hempty : domains = []
  · rw [if_pos hempty] at h
    cases h
    exact .inl ⟨hempty, rfl, rfl⟩
  · rw [if_neg hempty] at h
    refine .inr ⟨hempty, ?_⟩
    by_cases hlocal : r.kind = .localDNS
    · rw [if_pos hlocal] at h
      obtain ⟨hfinal, h⟩ := of_ite h
      cases h
      exact ⟨rfl, .inl ⟨hlocal, not_not.mp hfinal, rfl⟩⟩
    · rw [if_neg hlocal] at h
      obtain ⟨hguard, h⟩ := of_ite h
      cases h
      exact ⟨rfl, .inr ⟨hlocal, rfl, fun hne => by simpa [hne] using hguard⟩⟩

/-- The servers that the loop adds select the server of the first rule that holds of the name. After
a rule with the system's resolver, a private name is one of that resolver. -/
theorem addRule_run (name : String) (hsystem : ∀ r ∈ resolvers, r.System) {otherwise : String}
    (hfinal : findResolver resolvers otherwise = some final) {last : DNSServer}
    (hlast : last.Same final.server) {rules : List RouteRule}
    (hvalid : ∀ rule ∈ rules, ValidCondition schema rule.condition ∧ rule.fieldPath ≠ "")
    (hst : st.localRule ≠ "" → final.kind = .localDNS)
    (h : rules.foldlM (addRule input d resolvers final) st = .ok st') :
    ∃ servers r, st'.servers = st.servers ++ servers ∧
      findResolver resolvers (firstTarget schema (Flow.query name) rules otherwise) = some r ∧
      (st.localRule ≠ "" → isPrivate name.toList = true → r.kind = .localDNS) ∧
      ((servers.find? (DNSServer.claims name.toList)).getD last).Same r.server := by
  induction rules generalizing st with
  | nil =>
    rw [foldlM_nil] at h
    cases h
    exact ⟨[], final, by simp, hfinal, fun hne _ => hst hne, hlast⟩
  | cons rule rules ih =>
    rw [foldlM_cons] at h
    obtain ⟨next, hnext, h⟩ := of_bind h
    obtain ⟨r, domains, hr, hdomains, hcases⟩ := addRule_ok hnext
    obtain ⟨hrule, hpath⟩ := hvalid rule mem_cons_self
    have hholds := (dnsDomains_spec _ name hrule _ hdomains).1
    have hnextst : next.localRule ≠ "" → final.kind = .localDNS := by
      obtain ⟨-, -, heq⟩ | ⟨-, -, ⟨-, hkind, -⟩ | ⟨-, heq, -⟩⟩ := hcases
      · exact heq ▸ hst
      · exact fun _ => hkind
      · exact heq ▸ hst
    obtain ⟨servers, r', hservers, hr', hprivate, hselect⟩ :=
      ih (fun rule hrule => hvalid rule (mem_cons_of_mem _ hrule)) hnextst h
    rw [firstTarget_cons, ← hholds]
    obtain ⟨rfl, hsame, heq⟩ | ⟨hne, hadd, hcases⟩ := hcases
    · rw [hsame] at hservers
      rw [heq] at hprivate
      exact ⟨servers, r', hservers, hr', hprivate, hselect⟩
    · have hkeep : st.localRule ≠ "" → next.localRule ≠ "" := by
        obtain ⟨-, -, heq⟩ | ⟨-, heq, -⟩ := hcases
        · exact fun _ => heq ▸ hpath
        · exact heq ▸ id
      rw [hadd, append_assoc] at hservers
      have hmem : r ∈ resolvers := mem_reverse.mp (mem_of_find?_eq_some hr)
      by_cases hany : domains.any (Pattern.holds · name.toList) = true
      · refine ⟨_, r, hservers, by rwa [if_pos hany], fun hne' hn => ?_, ?_⟩
        · obtain ⟨hkind, -⟩ | ⟨-, -, hguard⟩ := hcases
          · exact hkind
          · obtain ⟨p, hp, hpn⟩ := any_eq_true.mp hany
            have := any_eq_true.mpr ⟨p, hp, matchesPrivate_of_holds hpn hn⟩
            exact absurd (hguard hne') (by simpa [dnsMatchesPrivate] using this)
        · rw [singleton_append, List.find?_cons_of_pos (by simp [DNSServer.claims, hany])]
          rfl
      · refine ⟨_, r', hservers, by rwa [if_neg hany], fun hne' => hprivate (hkeep hne'), ?_⟩
        rw [singleton_append]
        by_cases hclaims : DNSServer.claims name.toList { r.server with domains } = true
        · rw [List.find?_cons_of_pos hclaims]
          simp only [DNSServer.claims, hany, Bool.false_or, Bool.and_eq_true,
            decide_eq_true_eq] at hclaims
          obtain ⟨⟨haddress, -⟩, hn⟩ := hclaims
          have hkind := (hsystem r hmem).2 haddress
          obtain ⟨-, -, heq⟩ | ⟨hkind', -⟩ := hcases
          · have hlocal := hprivate (heq ▸ hpath) hn
            have hmem' : r' ∈ resolvers := mem_reverse.mp (mem_of_find?_eq_some hr')
            rw [(hsystem r hmem).1 hkind, (hsystem r' hmem').1 hlocal]
            rfl
          · exact absurd hkind hkind'
        · rw [List.find?_cons_of_neg hclaims]
          exact hselect

/-- The libraries take the word for neither an address nor a URL. -/
structure LocalhostText (schema : Schema) (lib : Libraries) : Prop where
  address : validAddress schema "localhost" = false
  url : ∀ text u, schema.httpsURL text = true → lib.parseURL text = some u →
    ∀ scheme ∈ [u.scheme, "https+local"], lib.urlText { u with scheme } ≠ "localhost"

theorem dnsServer_system (hlib : LocalhostText schema lib) {entry : DNSResolver × ℕ}
    (hvalid : entry.1.validate schema = true) {server : DNSServer}
    (h : dnsServer lib input d entry = .ok server) :
    (Resolver.mk entry.1.resolverID entry.1.kind entry.2 server).System := by
  unfold Resolver.System
  dsimp only
  unfold DNSResolver.validate at hvalid
  unfold dnsServer at h
  dsimp only at h
  cases hkind : entry.1.kind with
  | localDNS =>
    simp only [hkind, Bool.and_eq_true, decide_eq_true_eq] at hvalid h
    cases h
    exact ⟨fun _ => by rw [hvalid.2.1.1.1.2], fun _ => rfl⟩
  | udp =>
    simp only [hkind, Bool.and_eq_true] at hvalid h
    obtain ⟨-, h⟩ := of_ite h
    cases h
    refine ⟨nofun, fun heq => ?_⟩
    have haddress := hvalid.2.1.1.1.1
    rw [show entry.1.address = "localhost" from heq, hlib.address] at haddress
    cases haddress
  | https =>
    simp only [hkind, Bool.and_eq_true] at hvalid h
    obtain ⟨-, h⟩ := of_ite h
    unfold httpsServer at h
    split at h
    · cases h
    next u hu =>
    have hurl := hlib.url _ u hvalid.2.1.1.2 hu
    refine ⟨nofun, fun heq => ?_⟩
    split_ifs at h
    · cases h
      exact absurd heq (hurl u.scheme (by simp))
    · cases h
      exact absurd heq (hurl "https+local" (by simp))

/-- The server for a name is that of the resolver that the input asks. -/
theorem applyDNS_server (hlib : LocalhostText schema lib) {doc doc' : Document}
    (hd : input.dns = some d) (hvalid : d.profile.validate schema = true)
    (hrules : ∀ rule ∈ d.rules, ValidCondition schema rule.condition ∧ rule.fieldPath ≠ "")
    (h : applyDNS lib input doc = .ok doc') :
    ∃ server, doc'.server name = some server ∧
      Written lib input d (d.select schema name) server := by
  unfold applyDNS at h
  rw [hd] at h
  obtain ⟨⟨all, routes⟩, hconfig, rfl⟩ := of_map h
  unfold dnsConfig at hconfig
  obtain ⟨refs, -, hconfig⟩ := of_bind hconfig
  obtain ⟨-, hconfig⟩ := of_ite hconfig
  obtain ⟨resolvers, hresolvers, hconfig⟩ := of_bind hconfig
  split at hconfig
  · cases hconfig
  next final hfinal =>
  obtain ⟨-, hconfig⟩ := of_ite hconfig
  obtain ⟨st, hst, hconfig⟩ := of_bind hconfig
  cases hconfig
  have hall : d.profile.resolvers.all (DNSResolver.validate schema) = true := by
    unfold DNSProfile.validate at hvalid
    simp only [Bool.and_eq_true] at hvalid
    tauto
  have hentry : ∀ r ∈ resolvers, r.System ∧ ∃ entry ∈ d.profile.resolvers.zipIdx,
      entry.1.resolverID = r.resolverID ∧ dnsServer lib input d entry = .ok r.server := by
    intro r hr
    obtain ⟨entry, hmem, hok⟩ := (mapM_eq_ok_iff.mp hresolvers).exists_left hr
    obtain ⟨server, hserver, rfl⟩ := of_map hok
    have hentry := all_eq_true.mp hall _ (fst_mem_of_mem_zipIdx hmem)
    exact ⟨dnsServer_system hlib hentry hserver, entry, hmem, rfl, hserver⟩
  obtain ⟨servers, r, hservers, hr, -, hsame⟩ := addRule_run name (fun r hr => (hentry r hr).1)
    hfinal (show DNSServer.Same { final.server with skipFallback := false } final.server from rfl)
    hrules (fun hne => absurd rfl hne) hst
  obtain ⟨-, entry, hmem, hid, hserver⟩ :=
    hentry r (mem_reverse.mp (mem_of_find?_eq_some hr))
  have hrid : r.resolverID = d.select schema name := by
    simpa [DNSInput.select] using List.find?_some hr
  refine ⟨_, ?_, entry, hmem, hid.trans hrid, _, hserver, hsame⟩
  unfold Document.server
  dsimp only [Option.bind_some]
  rw [show st.servers = servers from hservers, List.find?_append, List.getLast?_concat]
  cases servers.find? (DNSServer.claims name.toList) with
  | none => cases hc : DNSServer.claims name.toList { final.server with skipFallback := false } <;>
      simp [hc]
  | some server => rfl

end Xray

/-! ## The three cores -/

/-- **Resolver selection is kept.** Whatever the name, sing-box asks the resolver of the first
enabled rule of the profile that holds of it, and the final resolver if there is none; Mihomo and
Xray ask the server that is written for it. -/
theorem resolvers_preserved {c : Compiler} {lib : Libraries} {spec : FrozenInputSpec}
    {target : Target} {graph : Graph} {diags : List Diagnostic} {ref : FrozenRef} {r : Resource}
    {p : DNSProfile} (hlib : Xray.LocalhostText c.schema lib)
    (hprepare : c.prepare spec target = .ok (graph, diags)) (href : spec.dnsProfile = some ref)
    (hr : spec.byID ref.resourceID = some r) (hp : r.payload = .dnsProfile p) (name : String) :
    let selected := p.select c.schema (Resources.ruleSet spec.byID) name
    ∃ d, graph.emitInput.dns = some d ∧ d.profile = p ∧
      (∀ doc doc', SingBox.applyDNS lib graph.emitInput doc = .ok doc' →
        doc'.dns.map (fun dns => dns.select c.schema name) = some selected) ∧
      (∀ doc doc', doc.ruleProviders = [] → Mihomo.applyDNS lib graph.emitInput doc = .ok doc' →
        ∃ server, doc'.server name = some server ∧
          Mihomo.Written lib graph.emitInput d p.resolvers.zipIdx selected server) ∧
      ∀ doc doc', Xray.applyDNS lib graph.emitInput doc = .ok doc' →
        ∃ server, doc'.server name = some server ∧
          Xray.Written lib graph.emitInput d selected server := by
  intro selected
  obtain ⟨b, -, -, -, hb, -⟩ := prepare_eq_ok hprepare
  have hprepared := prepare_prepared hb hprepare
  have hprofile := dnsProfile_of_spec hb href hr hp
  obtain ⟨rules, tags, hcompiled, -, hdns⟩ := hprepared.dns_eq hprofile
  have hpvalid : p.validate c.schema = true := by
    simpa [hp, Payload.validate] using payload_valid hb hr
  have hvalid := valid_compiled hb (valid_dnsRules hpvalid) hcompiled
  have hrules : ∀ rule ∈ rules, ValidCondition c.schema rule.condition ∧ rule.fieldPath ≠ "" := by
    intro rule hrule
    obtain ⟨entry, -, hentry⟩ := hcompiled.exists_left hrule
    exact ⟨hvalid rule hrule, by simp [hentry.fieldPath]⟩
  have hselect : DNSInput.select c.schema ⟨r.id, p, tags, rules⟩ name = selected := by
    rw [dns_select_eq hprepared hprofile hdns, base_ruleSet hb]
  have hinput : graph.emitInput.dns = some ⟨r.id, p, tags, rules⟩ := hdns
  refine ⟨_, hinput, rfl, fun doc doc' h => ?_, fun doc doc' hdoc h => ?_, fun doc doc' h => ?_⟩
  · unfold SingBox.applyDNS at h
    rw [hinput] at h
    obtain ⟨dns, hconfig, rfl⟩ := of_map h
    exact congrArg some ((SingBox.dnsConfig_select hvalid hconfig).trans hselect)
  · rw [← hselect]
    exact Mihomo.applyDNS_server hinput hvalid hdoc h
  · rw [← hselect]
    exact Xray.applyDNS_server hlib hinput hpvalid hrules h

/-- A resolver for the names of one domain beside the final one. -/
def officeDNS : DNSProfile :=
  { smallDNS with
    resolvers := ["system", "office"].map fun name => ⟨name, .localDNS, "", 0, "", "", none⟩
    rules := [⟨⟨[], ["example.org"], []⟩, "office", true, ""⟩] }

/-- sing-box asks the one for a name of its domain, and the final one for another name. -/
theorem resolvers_preserved_office :
    ∃ graph diags doc' dns,
      (smallCompiler .singBox).prepare (smallSnapshot .singBox smallRouting officeDNS)
        (smallTarget .singBox) = .ok (graph, diags) ∧
      SingBox.applyDNS hostnameLibraries graph.emitInput (SingBox.initialDocument "" []) =
        .ok doc' ∧ doc'.dns = some dns ∧
      dns.select hostnameSchema "www.example.org" = "office" ∧
      dns.select hostnameSchema "example.net" = "system" := by
  have hsome : ((smallCompiler .singBox).prepare (smallSnapshot .singBox smallRouting officeDNS)
      (smallTarget .singBox) >>= fun (graph, _) => SingBox.applyDNS hostnameLibraries
        graph.emitInput (SingBox.initialDocument "" [])).toOption.isSome = true := by
    decide +kernel
  obtain ⟨doc', hdoc⟩ := Option.isSome_iff_exists.mp hsome
  obtain ⟨⟨graph, diags⟩, hprepare, happly⟩ := of_bind (eq_ok_of_toOption hdoc)
  have hlib : Xray.LocalhostText hostnameSchema hostnameLibraries := ⟨by decide, nofun⟩
  have hselected : ∀ name, doc'.dns.map (fun dns => dns.select hostnameSchema name) =
      some (officeDNS.select hostnameSchema
        (Resources.ruleSet (smallSnapshot .singBox smallRouting officeDNS).byID) name) := by
    intro name
    obtain ⟨d, -, -, hsingBox, -⟩ := resolvers_preserved hlib hprepare rfl rfl rfl name
    exact hsingBox _ _ happly
  obtain ⟨dns, hdns, hoffice⟩ := Option.map_eq_some_iff.mp (hselected "www.example.org")
  obtain ⟨dns', hdns', hsystem⟩ := Option.map_eq_some_iff.mp (hselected "example.net")
  obtain rfl : dns = dns' := Option.some.inj (hdns.symm.trans hdns')
  exact ⟨graph, diags, doc', dns, hprepare, happly, hdns, hoffice.trans (by decide +kernel),
    hsystem.trans (by decide +kernel)⟩

end ProxyLoom.Adapter
