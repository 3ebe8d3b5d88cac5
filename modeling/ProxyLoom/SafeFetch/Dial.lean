import ProxyLoom.Lib.IPAddr
import ProxyLoom.Source.Limits

/-!
# Where the fetch of a source connects to

Names are resolved when a connection is dialled, and only the addresses that pass the check are
dialled, as the addresses that they are. A redirect is dialled again, with the answers of its time.
-/

namespace ProxyLoom.SafeFetch

open NetHttp Netip List

/-! ## The check of an address -/

def documentation6 : Prefix := net6 (0x20010db8 * 2 ^ 96) 32

def awsMetadata6 : IP := .v6 (BitVec.ofNat 128 (0xfd000ec2 * 2 ^ 96 + 0x254)) ""

/-- Further networks of version 4: this network, those set aside, shared and protocol addresses. -/
def blocked4 (a : BitVec 32) : Bool :=
  IP.octet a 0 = 0 || 240 ≤ IP.octet a 0 ||
    (IP.octet a 0 = 100 && 64 ≤ IP.octet a 1 && IP.octet a 1 ≤ 127) ||
    (IP.octet a 0 = 192 && IP.octet a 1 = 0 && IP.octet a 2 = 0)

def blocked (ip : IP) : Bool :=
  let ip := ip.unmap
  !ip.isValid || ip.isUnspecified || ip.isLoopback || ip.isPrivate || ip.isMulticast ||
    ip.isLinkLocalUnicast || ip.isLinkLocalMulticast || ip.isInterfaceLocalMulticast ||
    match ip with
    | .v4 a => blocked4 a
    | .v6 _ _ => documentation6.containsIP ip || ip = awsMetadata6
    | .invalid => false

structure FetchClient where
  allowNets : List Prefix

def FetchClient.permitted (c : FetchClient) (ip : IP) : Bool :=
  !blocked ip.unmap || c.allowNets.any fun network => network.containsIP ip.unmap

/-! ## Dialling -/

/-- The outside as one dial meets it: what names resolve to, and which addresses answer. -/
structure Outside where
  lookupNetIP : String → Except FetchError (List IP)
  connects : IP → String → Bool

/-- A connection that was tried, with the host that was looked up for it. -/
structure Attempt where
  host : String
  ip : IP
  port : String
deriving DecidableEq, Repr

section
variable (parseAddr : String → Option IP) (c : FetchClient) (out : Outside)

def lookup (host : String) : Except FetchError (List IP) :=
  match parseAddr host with
  | some ip => .ok [ip]
  | none =>
    match out.lookupNetIP host with
    | .error e => .error e
    | .ok [] => .error .blockedAddress
    | .ok ips => .ok ips

/-- The connections that are tried in turn, and the one that is made. -/
def dialFirst (host port : String) : List IP → List Attempt × Option Attempt
  | [] => ([], none)
  | ip :: ips =>
    if out.connects ip port then ([⟨host, ip, port⟩], some ⟨host, ip, port⟩)
    else
      let (tried, made) := dialFirst host port ips
      (⟨host, ip, port⟩ :: tried, made)

/-- The dialler takes an address for the address that it is. -/
def dialContext (address : String) : List Attempt × Except FetchError Attempt :=
  match HostPort.split? address.toList with
  | none => ([], .error .invalidURL)
  | some (h, p) =>
    let host := String.ofList h
    let port := String.ofList p
    if host = "" ∨ port = "" then ([], .error .invalidURL)
    else
      match lookup parseAddr out host with
      | .error e => ([], .error e)
      | .ok ips =>
        let allowed := (ips.filter c.permitted).map IP.unmap
        if allowed = [] then ([], .error .blockedAddress)
        else
          let (tried, made) := dialFirst out host port allowed
          (tried, made.elim (.error .fetch) .ok)

end

/-! ## The requests of a source -/

def portMap (scheme : String) : String :=
  if scheme = "http" then "80" else if scheme = "https" then "443"
  else if scheme = "socks5" ∨ scheme = "socks5h" then "1080" else ""

def dialPort (u : URL) : String := if u.port ≠ "" then u.port else portMap u.scheme

/-- What the transport of the HTTP client dials for a request. -/
def canonicalAddr (std : Std) (u : URL) : String :=
  HostPort.joinHostPort (std.idnaASCII u.hostname) (dialPort u)

def hopHost (std : Std) (u : URL) : String :=
  String.ofList (HostPort.unbracket (std.idnaASCII u.hostname).toList)

section
variable (std : Std) (codec : Codec) (base64 : String → String) (source : Source.Config)

/-- The requests of the fetch of a source whose servers answer with `redirects`. -/
def sourceRequests (redirects : List URL) : List Request :=
  match Source.parseURL std codec source.url with
  | .error _ => []
  | .ok parsed => fetchRequests std source.url (source.request base64 parsed) redirects

/-- The connections that are tried for the requests, each at its own time. -/
def dials (parseAddr : String → Option IP) (c : FetchClient) (outside : ℕ → Outside)
    (requests : List Request) : List (Request × ℕ × Attempt) :=
  requests.zipIdx.flatMap fun rk =>
    (dialContext parseAddr c (outside rk.2) (canonicalAddr std rk.1.url)).1.map fun x =>
      (rk.1, rk.2, x)

end

/-! ## Addresses -/

/-- The addresses that no fetch may reach, in whatever zone. -/
def protectedNets : List Prefix :=
  IP.loopbackNets ++ IP.privateNets ++ IP.linkLocalNets ++ IP.multicastNets ++ IP.unspecifiedNets

def IsProtected (ip : IP) : Prop := ip.inside protectedNets = true

theorem blocked_unmap (ip : IP) : blocked ip.unmap = blocked ip := by
  unfold blocked
  rw [IP.unmap_unmap]

theorem blocked_mapped (a : BitVec 32) (z : String) :
    blocked (IP.mapped a z) = blocked (.v4 a) := by
  rw [← blocked_unmap, IP.unmap_mapped]

theorem isProtected_iff (ip : IP) :
    IsProtected ip ↔ ip.inside IP.loopbackNets = true ∨ ip.inside IP.privateNets = true ∨
      ip.inside IP.linkLocalNets = true ∨ ip.inside IP.multicastNets = true ∨
      ip.inside IP.unspecifiedNets = true := by
  simp only [IsProtected, protectedNets, IP.inside_append, Bool.or_eq_true, or_assoc]

/-- A protected address is refused unless it is the unspecified one in a zone. -/
theorem blocked_of_protected {ip : IP} (h : IsProtected ip) (hzone : ip.zonedUnspecified = false) :
    blocked ip = true := by
  have hclasses := (isProtected_iff ip).mp h
  unfold blocked
  simp only [IP.isLoopback_eq, IP.isPrivate_eq, IP.isLinkLocalUnicast_eq, IP.isMulticast_eq,
    IP.isUnspecified_eq, IP.inside_unmap, hzone]
  rcases hclasses with h | h | h | h | h <;> simp [h]

theorem zonedUnspecified_passes {ip : IP} (h : ip.zonedUnspecified = true) :
    IsProtected ip ∧ blocked ip = false := by
  cases ip with
  | invalid => cases h
  | v4 a => cases h
  | v6 a z =>
    simp only [IP.zonedUnspecified, Bool.and_eq_true, decide_eq_true_eq] at h
    obtain ⟨rfl, hz⟩ := h
    have hunmap : (IP.v6 0 z).unmap = .v6 0 z := rfl
    refine ⟨(isProtected_iff _).mpr ?_, ?_⟩
    · refine .inr (.inr (.inr (.inr ?_)))
      rw [IP.inside, hunmap]
      simp [IP.unspecifiedNets]
    · -- No class but the unspecified addresses has it, and those compare the zone.
      have hloopback : (IP.v6 0 z).isLoopback = false := rfl
      have hprivate : (IP.v6 0 z).isPrivate = false := rfl
      have hmulticast : (IP.v6 0 z).isMulticast = false := rfl
      have hlink : (IP.v6 0 z).isLinkLocalUnicast = false := rfl
      have hlink' : (IP.v6 0 z).isLinkLocalMulticast = false := rfl
      have hinterface : (IP.v6 0 z).isInterfaceLocalMulticast = false := rfl
      have hunspecified : (IP.v6 0 z).isUnspecified = false := by simp [IP.isUnspecified, hz]
      have hdocumentation : documentation6.containsIP (.v6 0 z) = false := by
        simp [Prefix.containsIP, IP.zone, hz]
      have haws : IP.v6 0 z ≠ awsMetadata6 := fun heq => hz (IP.v6.inj heq).2
      unfold blocked
      simp only [hunmap, hloopback, hprivate, hmulticast, hlink, hlink', hinterface, hunspecified,
        hdocumentation, decide_eq_false haws]
      rfl

/-! ## Dials -/

section
variable {parseAddr : String → Option IP} {c : FetchClient} {out : Outside} {x : Attempt}

theorem mem_dialFirst {host port : String} {ips : List IP}
    (h : x ∈ (dialFirst out host port ips).1) : x.host = host ∧ x.port = port ∧ x.ip ∈ ips := by
  induction ips with
  | nil => cases h
  | cons ip ips ih =>
    rw [dialFirst] at h
    split_ifs at h
    · rw [mem_singleton.mp h]
      exact ⟨rfl, rfl, mem_cons_self⟩
    · rcases mem_cons.mp h with rfl | h
      · exact ⟨rfl, rfl, mem_cons_self⟩
      · obtain ⟨hhost, hport, hip⟩ := ih h
        exact ⟨hhost, hport, mem_cons_of_mem _ hip⟩

def Checked (parseAddr : String → Option IP) (c : FetchClient) (out : Outside) (x : Attempt) :
    Prop :=
  ∃ ips, lookup parseAddr out x.host = .ok ips ∧
    ∃ ip ∈ ips, x.ip = ip.unmap ∧ c.permitted ip = true

/-- Every address that is tried was an answer for the host of the request and passed the check. -/
theorem dialContext_tried {address : String}
    (h : x ∈ (dialContext parseAddr c out address).1) :
    Checked parseAddr c out x ∧
      HostPort.split? address.toList = some (x.host.toList, x.port.toList) := by
  unfold dialContext at h
  split at h
  · cases h
  · next host port hsplit =>
    simp only at h
    split_ifs at h
    · cases h
    · split at h
      · cases h
      · next ips hlookup =>
        split_ifs at h
        · cases h
        · obtain ⟨hhost, hport, hip⟩ := mem_dialFirst h
          obtain ⟨ip, hmem, hunmap⟩ := mem_map.mp hip
          obtain ⟨hips, hpermitted⟩ := mem_filter.mp hmem
          refine ⟨⟨ips, hhost ▸ hlookup, ip, hips, hunmap.symm, hpermitted⟩, ?_⟩
          rw [hsplit, hhost, hport, String.toList_ofList, String.toList_ofList]

theorem not_mem_dialPort (u : URL) : ':' ∉ (dialPort u).toList := by
  unfold dialPort
  split_ifs
  · exact HostPort.not_mem_splitHostPort u.host
  · unfold portMap
    split_ifs <;> decide

theorem dialled_host {std : Std} {u : URL}
    (h : x ∈ (dialContext parseAddr c out (canonicalAddr std u)).1) : x.host = hopHost std u := by
  have hsplit := (dialContext_tried h).2
  rw [canonicalAddr, HostPort.toList_joinHostPort] at hsplit
  have hhost := (HostPort.split?_join (not_mem_dialPort u) hsplit).1
  rw [hopHost, ← hhost, String.ofList_toList]

end

/-! ## Schemes -/

def SchemeAllowed (allowHTTP : Bool) (scheme : String) : Prop :=
  scheme = "https" ∨ scheme = "http" ∧ allowHTTP = true

section
variable {std : Std} {raw : String} {request : FetchRequest}

theorem parseFetchURL_scheme {allowHTTP : Bool} {u : URL}
    (h : parseFetchURL std raw allowHTTP = .ok u) : SchemeAllowed allowHTTP u.scheme := by
  unfold parseFetchURL at h
  split_ifs at h
  split at h
  · cases h
  · next parsed hparsed =>
    dsimp only at h
    split_ifs at h with hshape hdisabled hother <;> cases h
    all_goals
      by_cases hs : u.scheme = "https"
      · exact .inl hs
      · have hhttp : u.scheme = "http" := by
          by_contra hne
          exact hother ⟨hs, hne⟩
        refine .inr ⟨hhttp, ?_⟩
        rw [← Bool.not_eq_false]
        exact fun hfalse => hdisabled ⟨hhttp, hfalse⟩

theorem checkRedirect_ok {req req' : Request} {via : List Request}
    (h : (httpClient std request).checkRedirect req via = .ok req') :
    req'.url = req.url ∧ ∃ v, parseFetchURL std (std.render req.url) request.allowHTTP = .ok v := by
  have hallow : request.withDefaults.allowHTTP = request.allowHTTP := rfl
  unfold httpClient checkRedirect at h
  simp only [hallow] at h
  split_ifs at h
  split at h
  · cases h
  · cases h
  · next v hv =>
    refine ⟨?_, v, hv⟩
    split at h
    · split_ifs at h <;> cases h <;> rfl
    · cases h
      rfl

theorem firstRequest_parsed {first : Request} (h : firstRequest std raw request = .ok first) :
    ∃ p, parseFetchURL std raw request.allowHTTP = .ok p := by
  unfold firstRequest at h
  split_ifs at h
  split at h
  · cases h
  · next p hp => exact ⟨p, hp⟩

theorem hops_checked (first : Request) {us : List URL} :
    ∀ {strip : Bool} {via : List Request}, ∀ r ∈ (httpClient std request).hops first strip via us,
      r.url ∈ us ∧ ∃ v, parseFetchURL std (std.render r.url) request.allowHTTP = .ok v := by
  induction us with
  | nil =>
    intro strip via r hr
    cases hr
  | cons u us ih =>
    intro strip via r hr
    rw [Client.hops] at hr
    split at hr
    · cases hr
    · next req hreq =>
      rcases mem_cons.mp hr with rfl | hr
      · obtain ⟨hurl, hok⟩ := checkRedirect_ok hreq
        exact ⟨hurl ▸ mem_cons_self, hurl ▸ hok⟩
      · obtain ⟨hmem, hok⟩ := ih r hr
        exact ⟨mem_cons_of_mem _ hmem, hok⟩

/-- **Schemes.** A request goes over `http` only if the caller allows it. -/
theorem requests_scheme {redirects : List URL}
    (hredirects : ∀ u ∈ redirects, ∀ v, std.parse (std.render u) = some v → v.scheme = u.scheme) :
    ∀ r ∈ fetchRequests std raw request redirects,
      SchemeAllowed request.allowHTTP r.url.scheme := by
  intro r hr
  unfold fetchRequests at hr
  split at hr
  · cases hr
  · next first hfirst =>
    rcases mem_cons.mp hr with rfl | hr
    · obtain ⟨p, hp⟩ := firstRequest_parsed hfirst
      rw [(parse_firstRequest std hfirst (parse_of_parseFetchURL std hp)).1]
      exact parseFetchURL_scheme hp
    · obtain ⟨hmem, v, hv⟩ := hops_checked first r hr
      rw [← hredirects r.url hmem v (parse_of_parseFetchURL std hv)]
      exact parseFetchURL_scheme hv

end

/-! ## The envelope -/

section
variable (std : Std) (codec : Codec) (base64 : String → String) (source : Source.Config)
  (redirects : List URL)

/-- A connection of a run, without exceptions from the check. -/
structure Enveloped (parseAddr : String → Option IP) (outside : ℕ → Outside)
    (d : Request × ℕ × Attempt) : Prop where
  request : (sourceRequests std codec base64 source redirects)[d.2.1]? = some d.1
  host : d.2.2.host = hopHost std d.1.url
  answer : ∃ ips, lookup parseAddr (outside d.2.1) d.2.2.host = .ok ips ∧
    ∃ ip ∈ ips, d.2.2.ip = ip.unmap ∧ blocked ip = false ∧ blocked d.2.2.ip = false

theorem permitted_nil {ip : IP} (h : FetchClient.permitted ⟨[]⟩ ip = true) :
    blocked ip = false := by
  have hnot : (!blocked ip.unmap) = true := by simpa [FetchClient.permitted] using h
  rw [← blocked_unmap]
  simpa using hnot

theorem dials_enveloped (parseAddr : String → Option IP) (outside : ℕ → Outside) :
    ∀ d ∈ dials std parseAddr ⟨[]⟩ outside (sourceRequests std codec base64 source redirects),
      Enveloped std codec base64 source redirects parseAddr outside d := by
  intro d hd
  obtain ⟨⟨r, k⟩, hrk, hd⟩ := mem_flatMap.mp hd
  obtain ⟨x, hx, rfl⟩ := mem_map.mp hd
  obtain ⟨ips, hlookup, ip, hip, hunmap, hpermitted⟩ := (dialContext_tried hx).1
  have hblocked := permitted_nil hpermitted
  refine ⟨mem_zipIdx_iff_getElem?.mp hrk, dialled_host hx, ips, hlookup, ip, hip, hunmap,
    hblocked, ?_⟩
  show blocked x.ip = false
  rw [hunmap, blocked_unmap, hblocked]

theorem sourceRequests_scheme {p : URL} (hp : std.parse source.url = some p)
    (hredirects : ∀ u ∈ redirects, ∀ v, std.parse (std.render u) = some v → v.scheme = u.scheme) :
    ∀ r ∈ sourceRequests std codec base64 source redirects,
      r.url.scheme = "https" ∨ r.url.scheme = "http" ∧ p.scheme = "http" := by
  intro r hr
  unfold sourceRequests at hr
  split at hr
  · cases hr
  · next parsed hparsed =>
    have heq : parsed = p := by
      unfold Source.parseURL at hparsed
      rw [hp] at hparsed
      dsimp only at hparsed
      split_ifs at hparsed
      exact (Except.ok.inj hparsed).symm
    have hallow : (source.request base64 parsed).allowHTTP = (p.scheme == "http") := by
      rw [heq]
      rfl
    have hscheme := requests_scheme hredirects r hr
    rwa [SchemeAllowed, hallow, beq_iff_eq] at hscheme

/-- **The envelope of the fetch.** For every source, redirects and answers of the resolver, without
excepted networks: a connection goes to an answer for the host of its request that passes the check;
the check does not see whether an address is mapped, and refuses a protected address exactly if it
is not the unspecified one in a zone; and a source over `https` causes no request over `http`. -/
theorem fetch_envelope_iff (parseAddr : String → Option IP) (outside : ℕ → Outside)
    (hredirects : ∀ u ∈ redirects, ∀ v, std.parse (std.render u) = some v → v.scheme = u.scheme) :
    (∀ d ∈ dials std parseAddr ⟨[]⟩ outside (sourceRequests std codec base64 source redirects),
      Enveloped std codec base64 source redirects parseAddr outside d) ∧
    (∀ ip, blocked ip.unmap = blocked ip) ∧
    (∀ a z, blocked (IP.mapped a z) = blocked (.v4 a)) ∧
    (∀ ip, (IsProtected ip → blocked ip = true) ↔ ip.zonedUnspecified = false) ∧
    (∀ p, std.parse source.url = some p → ∀ r ∈ sourceRequests std codec base64 source redirects,
      r.url.scheme = "https" ∨ r.url.scheme = "http" ∧ p.scheme = "http") := by
  refine ⟨dials_enveloped std codec base64 source redirects parseAddr outside, blocked_unmap,
    blocked_mapped, fun ip => ⟨fun h => ?_, fun hzone h => blocked_of_protected h hzone⟩,
    fun p hp => sourceRequests_scheme std codec base64 source redirects hp hredirects⟩
  by_contra hzone
  obtain ⟨hprotected, hpasses⟩ := zonedUnspecified_passes (Bool.not_eq_false _ ▸ hzone)
  rw [h hprotected] at hpasses
  cases hpasses

end

/-! ## A source at the unspecified address -/

/-- The host `[::%lo]`, whose percent sign is escaped in the URL. -/
def zonedURL : URL := ⟨"https", "", none, "[::%lo]", "/", "", ""⟩

def zonedStd : Std where
  parse s := if s = "https://[::%25lo]/" then some zonedURL else none
  render _ := "https://[::%25lo]/"
  lookupPort _ := true
  foldRune := id
  idnaASCII := id
  parse_render := by
    intro s u v hu hv
    have huv : v = u := by
      rw [Option.ite_none_right_eq_some] at hu
      rw [if_pos rfl] at hv
      rw [← Option.some.inj hu.2, ← Option.some.inj hv]
    rw [huv]
    exact ⟨rfl, rfl⟩

def zonedSource : Source.Config :=
  ⟨1, "https://[::%25lo]/", .auto, ⟨.none, "", "", ""⟩, ⟨true, 3600, .manual, .retain⟩,
    ⟨1000, 1, 1, 1⟩, 1⟩

/-- Only the one literal is read, and no name has an answer. -/
def zonedAddr (s : String) : Option IP := if s = "::%lo" then some (.v6 0 "lo") else none

def silentOutside : Outside := ⟨fun _ => .error .fetch, fun _ _ => true⟩

theorem zonedRequests_urls :
    (sourceRequests zonedStd Source.plainCodec id zonedSource []).map Request.url = [zonedURL] := by
  decide

theorem zoned_dials :
    (dialContext zonedAddr ⟨[]⟩ silentOutside (canonicalAddr zonedStd zonedURL)).1 =
      [⟨"::%lo", .v6 0 "lo", "443"⟩] := by
  decide

/-- The fetch connects to the unspecified address, which is the machine itself. -/
theorem zoned_unspecified_dialled :
    IsProtected (.v6 0 "lo") ∧ blocked (.v6 0 "lo") = false ∧
      ∃ r, (r, 0, (⟨"::%lo", .v6 0 "lo", "443"⟩ : Attempt)) ∈
        dials zonedStd zonedAddr ⟨[]⟩ (fun _ => silentOutside)
          (sourceRequests zonedStd Source.plainCodec id zonedSource []) := by
  have hzoned : (IP.v6 0 "lo").zonedUnspecified = true := by decide
  obtain ⟨hprotected, hpasses⟩ := zonedUnspecified_passes hzoned
  obtain ⟨r, hr, hurl⟩ := map_eq_singleton_iff.mp zonedRequests_urls
  refine ⟨hprotected, hpasses, r, mem_flatMap.mpr ⟨(r, 0), ?_, mem_map.mpr ⟨_, ?_, rfl⟩⟩⟩
  · rw [hr]
    exact mem_singleton.mpr rfl
  · show _ ∈ (dialContext zonedAddr ⟨[]⟩ silentOutside (canonicalAddr zonedStd r.url)).1
    rw [hurl, zoned_dials]
    exact mem_singleton.mpr rfl

/-- A feed that redirects twice is fetched over `https` throughout. -/
theorem fetch_envelope_redirected :
    (sourceRequests feedStd Source.plainCodec id (Source.feedSource 100 100 3)
      [mirrorURL, mirrorURL2]).map Request.url = [feedURL, mirrorURL, mirrorURL2] ∧
      ∀ r ∈ sourceRequests feedStd Source.plainCodec id (Source.feedSource 100 100 3)
          [mirrorURL, mirrorURL2],
        r.url.scheme = "https" ∨ r.url.scheme = "http" ∧ feedURL.scheme = "http" := by
  have hredirects : ∀ u ∈ [mirrorURL, mirrorURL2], ∀ v,
      feedStd.parse (feedStd.render u) = some v → v.scheme = u.scheme := by
    intro u hu v hv
    have hsame : ∀ u ∈ [mirrorURL, mirrorURL2], feedStd.parse (feedStd.render u) = some u := by
      decide
    rw [hsame u hu] at hv
    cases hv
    rfl
  exact ⟨by decide, (fetch_envelope_iff feedStd Source.plainCodec id (Source.feedSource 100 100 3)
    [mirrorURL, mirrorURL2] zonedAddr (fun _ => silentOutside) hredirects).2.2.2.2 feedURL
      (by decide)⟩

end ProxyLoom.SafeFetch
