import ProxyLoom.Lib.NetHttp

/-!
# Where a fetched source's credentials travel

`Client.Fetch` retrieves a source URL with the caller's headers and follows redirects. Its
`CheckRedirect` hook deletes the `Authorization` header of a redirected request when the request
leaves the origin *of the request before it*, while the HTTP client copies the header from the
*first* request on every hop.
-/

namespace ProxyLoom.SafeFetch

open NetHttp List

/-! ## The fetch -/

inductive FetchError where
  | invalidURL | httpDisabled | blockedAddress | redirect | tooLarge | timeout | fetch
deriving DecidableEq, Repr

def defaultMaxRedirects : ℤ := 3
def maxRedirects : ℤ := 5
def defaultMaxCompressedBytes : ℤ := 10 * 2 ^ 20
def defaultMaxDecodedBytes : ℤ := 10 * 2 ^ 20
def maxURLBytes : ℕ := 4096

/-- The standard library under the fetch. `foldRune` picks the representative of a rune's
case-folding class. -/
structure Std where
  parse : String → Option URL
  render : URL → String
  lookupPort : String → Bool
  foldRune : Char → Char
  idnaASCII : String → String
  /-- A URL printed and parsed again keeps its scheme and host. -/
  parse_render : ∀ {s u v}, parse s = some u → parse (render u) = some v →
    v.scheme = u.scheme ∧ v.host = u.host

/-- A fetch with its limits; zero asks for a default. -/
structure FetchRequest where
  header : Option Header
  allowHTTP : Bool
  maxRedirects : ℤ
  maxCompressedBytes : ℤ
  maxDecodedBytes : ℤ

section
variable (std : Std)

/-- An absolute URL without user data, of an allowed scheme. -/
def parseFetchURL (raw : String) (allowHTTP : Bool) : Except FetchError URL :=
  if raw = "" ∨ maxURLBytes < raw.utf8ByteSize ∨
      raw.toList.any (fun c => c == ' ' || c == '\t' || c == '\r' || c == '\n') then
    .error .invalidURL
  else
    match std.parse raw with
    | none => .error .invalidURL
    | some parsed =>
      if parsed.opaqueData ≠ "" ∨ parsed.user ≠ none ∨ parsed.fragment ≠ "" ∨
          parsed.host = "" then
        .error .invalidURL
      else if parsed.scheme = "http" ∧ allowHTTP = false then .error .httpDisabled
      else if parsed.scheme ≠ "https" ∧ parsed.scheme ≠ "http" then .error .invalidURL
      else if parsed.hostname = "" then .error .invalidURL
      else
        let port :=
          if parsed.port = "" then (if parsed.scheme = "https" then "443" else "80")
          else parsed.port
        if std.lookupPort port then .ok parsed else .error .invalidURL

def effectivePort (value : URL) : String :=
  if value.port ≠ "" then value.port
  else if value.scheme = "https" then "443" else "80"

def equalFold (s t : String) : Bool :=
  s.toList.map std.foldRune == t.toList.map std.foldRune

/-- Scheme, host and port agree. -/
def sameOrigin (a b : URL) : Bool :=
  equalFold std a.scheme b.scheme && equalFold std a.hostname b.hostname &&
    effectivePort a == effectivePort b

/-- The hook of `Fetch`: refuse too many or unacceptable redirects, and take the credentials off
a request that leaves the origin of the request before it. -/
def checkRedirect (request : FetchRequest) (req : Request) (via : List Request) :
    Except FetchError Request :=
  if request.maxRedirects < via.length then .error .redirect
  else
    match parseFetchURL std (std.render req.url) request.allowHTTP with
    | .error .httpDisabled => .error .httpDisabled
    | .error _ => .error .redirect
    | .ok _ =>
      match via.getLast? with
      | some prev =>
        if sameOrigin std prev.url req.url then .ok req
        else .ok { req with header := req.header.del "Authorization" }
      | none => .ok req

def FetchRequest.withDefaults (r : FetchRequest) : FetchRequest :=
  { r with
    maxRedirects := if r.maxRedirects = 0 then defaultMaxRedirects else r.maxRedirects
    maxCompressedBytes :=
      if r.maxCompressedBytes = 0 then defaultMaxCompressedBytes else r.maxCompressedBytes
    maxDecodedBytes :=
      if r.maxDecodedBytes = 0 then defaultMaxDecodedBytes else r.maxDecodedBytes }

def FetchRequest.limitsOk (r : FetchRequest) : Bool :=
  0 ≤ r.maxRedirects && r.maxRedirects ≤ SafeFetch.maxRedirects &&
    1 ≤ r.maxCompressedBytes && r.maxCompressedBytes ≤ defaultMaxCompressedBytes &&
    1 ≤ r.maxDecodedBytes && r.maxDecodedBytes ≤ defaultMaxDecodedBytes

/-- `Fetch` up to the call of `client.Do`: the first request. -/
def firstRequest (raw : String) (request : FetchRequest) : Except FetchError Request :=
  if request.withDefaults.limitsOk then
    match parseFetchURL std raw request.allowHTTP with
    | .error e => .error e
    | .ok parsed =>
      -- `http.NewRequest` parses the printed URL once more
      match std.parse (std.render parsed) with
      | none => .error .invalidURL
      | some url => .ok ⟨url, request.header.getD Header.empty⟩
  else .error .invalidURL

def httpClient (request : FetchRequest) : Client FetchError where
  idnaASCII := std.idnaASCII
  checkRedirect := checkRedirect std request.withDefaults

/-- Every request that `Fetch` issues when the servers answer with redirects to `redirects`. -/
def fetchRequests (raw : String) (request : FetchRequest) (redirects : List URL) :
    List Request :=
  match firstRequest std raw request with
  | .error _ => []
  | .ok first => (httpClient std request).issued first redirects

/-! ## Origins -/

/-- The origin of a URL: its scheme and host up to case, and its effective port. -/
def origin (u : URL) : List Char × List Char × String :=
  (u.scheme.toList.map std.foldRune, u.hostname.toList.map std.foldRune, effectivePort u)

theorem sameOrigin_iff (a b : URL) : sameOrigin std a b = true ↔ origin std a = origin std b := by
  simp only [sameOrigin, equalFold, origin, Bool.and_eq_true, beq_iff_eq, Prod.mk.injEq,
    and_assoc]

theorem origin_congr {a b : URL} (hs : a.scheme = b.scheme) (hh : a.host = b.host) :
    origin std a = origin std b := by
  unfold origin effectivePort URL.hostname URL.port
  rw [hs, hh]

theorem parse_of_parseFetchURL {raw : String} {allowHTTP : Bool} {u : URL}
    (h : parseFetchURL std raw allowHTTP = .ok u) : std.parse raw = some u := by
  unfold parseFetchURL at h
  split at h
  · cases h
  · split at h
    · cases h
    · next parsed hparsed =>
      dsimp only at h
      split_ifs at h <;> cases h <;> exact hparsed

theorem parse_firstRequest {raw : String} {request : FetchRequest} {first : Request} {p : URL}
    (h : firstRequest std raw request = .ok first) (hp : std.parse raw = some p) :
    first.url.scheme = p.scheme ∧ first.url.host = p.host ∧
      first.header = request.header.getD Header.empty := by
  unfold firstRequest at h
  split_ifs at h
  split at h
  · cases h
  · next parsed hparsed =>
    have hraw := parse_of_parseFetchURL std hparsed
    split at h
    · cases h
    · next url hurl =>
      obtain ⟨hs, hh⟩ := std.parse_render hraw hurl
      rw [hraw] at hp
      cases hp
      cases h
      exact ⟨hs, hh, rfl⟩

/-! ## The redirects that are followed -/

/-- `CheckRedirect` lets the client go to `u` after `n` requests. -/
def acceptable (request : FetchRequest) (n : ℕ) (u : URL) : Bool :=
  (n : ℤ) ≤ request.withDefaults.maxRedirects &&
    (parseFetchURL std (std.render u) request.allowHTTP).isOk

/-- The redirects that are followed after `n` requests. -/
def followed (request : FetchRequest) : ℕ → List URL → List URL
  | _, [] => []
  | n, u :: us =>
    if acceptable std request n u then u :: followed request (n + 1) us else []

/-- A redirect target outside the configured host and its subdomains. -/
def leavesHost (first u : URL) : Bool :=
  first.host != u.host &&
    !isDomainOrSubdomain (std.idnaASCII u.hostname) (std.idnaASCII first.hostname)

def redirected (first : Request) (strip : Bool) (prev u : URL) : Request :=
  ⟨u, if sameOrigin std prev u then copyHeaders first.header strip
    else (copyHeaders first.header strip).del "Authorization"⟩

theorem checkRedirect_spec (request : FetchRequest) (first prev : Request) (strip : Bool)
    (u : URL) {via : List Request} (hvia : via.getLast? = some prev) :
    (acceptable std request via.length u = true →
      checkRedirect std request.withDefaults ⟨u, copyHeaders first.header strip⟩ via =
        .ok (redirected std first strip prev.url u)) ∧
    (acceptable std request via.length u = false → ∃ e,
      checkRedirect std request.withDefaults ⟨u, copyHeaders first.header strip⟩ via =
        .error e) := by
  have hallow : request.withDefaults.allowHTTP = request.allowHTTP := rfl
  by_cases hn : request.withDefaults.maxRedirects < via.length
  · have hacc : acceptable std request via.length u = false := by
      simp only [acceptable, not_le.mpr hn, decide_false, Bool.false_and]
    refine ⟨fun h => ?_, fun _ => ⟨.redirect, ?_⟩⟩
    · rw [hacc] at h
      cases h
    · simp only [checkRedirect, hn, if_true]
  · have hle : (via.length : ℤ) ≤ request.withDefaults.maxRedirects := not_lt.mp hn
    cases hparse : parseFetchURL std (std.render u) request.allowHTTP with
    | error e =>
      refine ⟨fun h => ?_, fun _ => ?_⟩
      · simp only [acceptable, hparse, Except.isOk, Except.toBool, Bool.and_false] at h
        cases h
      · cases e <;> simp [checkRedirect, hn, hallow, hparse]
    | ok v =>
      refine ⟨fun _ => ?_, fun h => ?_⟩
      · simp only [checkRedirect, hn, if_false, hallow, hparse, hvia, redirected]
        split_ifs <;> rfl
      · simp [acceptable, hle, hparse, Except.isOk, Except.toBool] at h

/-! ## When the credentials stay -/

/-- A redirected request carries the credentials exactly when the first one did, the client has
not stripped them, and the request stays at the origin of the one before it. -/
theorem authorization_redirected (first : Request) (strip : Bool) (prev u : URL) :
    (redirected std first strip prev u).header "Authorization" ≠ [] ↔
      first.header "Authorization" ≠ [] ∧ strip = false ∧ sameOrigin std prev u = true := by
  have hs : sensitiveHeaders.contains "Authorization" = true := by decide
  unfold redirected
  cases hsame : sameOrigin std prev u with
  | false => simp
  | true => cases strip <;> simp [copyHeaders_sensitive hs]

/-- Along the followed redirects `us` of a fetch from `first`, a redirect that stays at the origin
of the request before it, which is not the configured one, comes only after some redirect has left
the configured host and its subdomains. -/
def Guarded (first : URL) (us : List URL) : Prop :=
  ∀ pre u suf prev, us = pre ++ u :: suf → (first :: pre).getLast? = some prev →
    origin std prev = origin std u → origin std u ≠ origin std first →
    ∃ v ∈ pre ++ [u], leavesHost std first v = true

/-- The same, for a fetch that has already issued requests to `seen`. -/
def GuardedAfter (first : URL) (seen us : List URL) : Prop :=
  ∀ pre u suf prev, us = pre ++ u :: suf → (seen ++ pre).getLast? = some prev →
    origin std prev = origin std u → origin std u ≠ origin std first →
    ∃ v ∈ seen ++ pre ++ [u], leavesHost std first v = true

theorem guardedAfter_nil (first : URL) (seen : List URL) : GuardedAfter std first seen [] := by
  intro pre u suf prev h
  simp at h

theorem guardedAfter_cons (first prev u : URL) (seen us : List URL)
    (hlast : seen.getLast? = some prev) :
    GuardedAfter std first seen (u :: us) ↔
      (origin std prev = origin std u → origin std u ≠ origin std first →
        ∃ v ∈ seen ++ [u], leavesHost std first v = true) ∧
      GuardedAfter std first (seen ++ [u]) us := by
  constructor
  · intro h
    refine ⟨fun hp hu => ?_, ?_⟩
    · simpa using h [] u us prev rfl (by simpa using hlast) hp hu
    · intro pre w suf q hus hq hqw hw
      have := h (u :: pre) w suf q (by rw [hus]; rfl) (by simpa using hq) hqw hw
      simpa using this
  · rintro ⟨hhead, htail⟩ pre w suf q hus hq hqw hw
    cases pre with
    | nil =>
      obtain ⟨rfl, rfl⟩ : u = w ∧ us = suf := by simpa using hus
      rw [append_nil, hlast] at hq
      cases hq
      simpa using hhead hqw hw
    | cons x pre =>
      obtain ⟨rfl, rfl⟩ : u = x ∧ us = pre ++ w :: suf := by simpa using hus
      simpa using htail pre w suf q rfl (by simpa using hq) hqw hw

/-- The first URL never leaves its own host, so `Guarded` is the case of one issued request. -/
theorem guarded_iff_after (first : URL) (us : List URL) :
    Guarded std first us ↔ GuardedAfter std first [first] us := by
  have hself : leavesHost std first first = false := by simp [leavesHost]
  constructor
  · intro h pre u suf prev hus hlast hp hu
    obtain ⟨v, hv, hleave⟩ := h pre u suf prev hus (by simpa using hlast) hp hu
    exact ⟨v, by simpa using Or.inr hv, hleave⟩
  · intro h pre u suf prev hus hlast hp hu
    obtain ⟨v, hv, hleave⟩ := h pre u suf prev hus (by simpa using hlast) hp hu
    rcases (by simpa using hv : v = first ∨ v ∈ pre ∨ v = u) with rfl | hv | rfl
    · rw [hself] at hleave
      cases hleave
    · exact ⟨v, by simp [hv], hleave⟩
    · exact ⟨v, by simp, hleave⟩

/-- The requests issued after those to `seen` keep the credentials at the configured origin exactly
when the redirects still followed are guarded. -/
theorem hops_confined_iff (request : FetchRequest) (first : Request) (us : List URL) :
    ∀ (strip : Bool) (via : List Request) (prev : Request), via.getLast? = some prev →
      (strip = true ↔ ∃ v ∈ via.map Request.url, leavesHost std first.url v = true) →
      ((∀ r ∈ (httpClient std request).hops first strip via us,
          r.header "Authorization" ≠ [] → origin std r.url = origin std first.url) ↔
        (first.header "Authorization" ≠ [] →
          GuardedAfter std first.url (via.map Request.url)
            (followed std request via.length us))) := by
  induction us with
  | nil =>
    intro strip via prev hlast hstrip
    simp [Client.hops, followed, guardedAfter_nil]
  | cons u us ih =>
    intro strip via prev hlast hstrip
    obtain ⟨hok, herr⟩ := checkRedirect_spec std request first prev
      (strip || leavesHost std first.url u) u hlast
    have hforeign : (httpClient std request).foreign first.url u = leavesHost std first.url u :=
      rfl
    have hhook : (httpClient std request).checkRedirect =
        checkRedirect std request.withDefaults := rfl
    cases hacc : acceptable std request via.length u with
    | false =>
      obtain ⟨e, he⟩ := herr hacc
      simp [Client.hops, followed, hforeign, hhook, he, hacc, guardedAfter_nil]
    | true =>
      have hlast' : (via.map Request.url).getLast? = some prev.url := by
        rw [List.getLast?_map, hlast]
        rfl
      -- the flag after this hop records every host left so far
      have hstrip' : (strip || leavesHost std first.url u) = true ↔
          ∃ v ∈ via.map Request.url ++ [u], leavesHost std first.url v = true := by
        rw [Bool.or_eq_true, hstrip]
        simp [or_and_right, exists_or]
      set strip' := strip || leavesHost std first.url u with hs'
      set req := redirected std first strip' prev.url u with hreq
      have hrequrl : req.url = u := rfl
      have hrest := ih strip' (via ++ [req]) req (by simp) (by simpa [hrequrl] using hstrip')
      rw [map_append, map_singleton, hrequrl, length_append, length_singleton]
        at hrest
      simp only [Client.hops, followed, hforeign, hhook, ← hs', hok hacc, hacc, if_true,
        forall_mem_cons, guardedAfter_cons std first.url prev.url u _ _ hlast', hrest]
      rw [imp_and]
      refine and_congr ?_ Iff.rfl
      -- this hop: it carries the credentials iff it lingers and nothing was left before
      rw [authorization_redirected, hrequrl, ← hstrip', sameOrigin_iff]
      constructor
      · intro h hauth hp hu
        by_contra hns
        exact hu (h ⟨hauth, by simpa using hns, hp⟩)
      · rintro h ⟨hauth, hns, hp⟩
        by_contra hu
        have := h hauth hp hu
        rw [hns] at this
        cases this

/-- No request that `Fetch` issues to another origin than the configured one carries the
`Authorization` header. -/
def AuthorizationConfined (raw : String) (request : FetchRequest) (redirects : List URL) : Prop :=
  ∀ p, std.parse raw = some p → ∀ r ∈ fetchRequests std raw request redirects,
    r.header "Authorization" ≠ [] → origin std r.url = origin std p

theorem guarded_congr {p q : URL} (hs : p.scheme = q.scheme) (hh : p.host = q.host)
    (us : List URL) : Guarded std p us ↔ Guarded std q us := by
  have hleave : leavesHost std p = leavesHost std q := by
    funext v
    simp only [leavesHost, URL.hostname, hh]
  have horigin := origin_congr std hs hh
  constructor
  · intro h pre u suf prev hus hlast hpu hu
    rw [← hleave]
    cases pre with
    | nil =>
      cases hlast
      exact h [] u suf p hus rfl (horigin.trans hpu) (by rwa [horigin])
    | cons x pre => exact h (x :: pre) u suf prev hus (by simpa using hlast) hpu (by rwa [horigin])
  · intro h pre u suf prev hus hlast hpu hu
    rw [hleave]
    cases pre with
    | nil =>
      cases hlast
      exact h [] u suf q hus rfl (horigin.symm.trans hpu) (by rwa [← horigin])
    | cons x pre =>
      exact h (x :: pre) u suf prev hus (by simpa using hlast) hpu (by rwa [← horigin])

/-- **Where the credentials travel.** For every source URL, every header and every sequence of
redirects, the `Authorization` header stays at the configured origin if and only if the fetch is
refused, carries no such header, or follows only a guarded chain of redirects. -/
theorem authorization_confined_iff (raw : String) (request : FetchRequest)
    (redirects : List URL) :
    AuthorizationConfined std raw request redirects ↔
      ∀ p, std.parse raw = some p → (firstRequest std raw request).isOk = true →
        request.header.getD Header.empty "Authorization" ≠ [] →
        Guarded std p (followed std request 1 redirects) := by
  unfold AuthorizationConfined fetchRequests
  refine forall_congr' fun p => forall_congr' fun hp => ?_
  cases hfirst : firstRequest std raw request with
  | error e => simp [Except.isOk, Except.toBool]
  | ok first =>
    obtain ⟨hs, hh, hheader⟩ := parse_firstRequest std hfirst hp
    have horigin := origin_congr std hs hh
    simp only [Except.isOk, Except.toBool, forall_const, Client.issued, forall_mem_cons,
      ← hheader, ← horigin, implies_true, true_and]
    rw [hops_confined_iff std request first redirects false [first] first rfl
      (by simp [leavesHost]), ← guarded_congr std hs hh, guarded_iff_after]
    rfl

end

/-! ## A chain that leaks -/

/-- A feed, and a mirror of it on a subdomain that answers with a redirect to itself. -/
def feedURL : URL := ⟨"https", "", none, "feed.example", "/list", "", ""⟩
def mirrorURL : URL := ⟨"https", "", none, "mirror.feed.example", "/list", "", ""⟩
def mirrorURL2 : URL := ⟨"https", "", none, "mirror.feed.example", "/list2", "", ""⟩

def feedStd : Std where
  parse s := [feedURL, mirrorURL, mirrorURL2].find? fun u =>
    u.scheme ++ "://" ++ u.host ++ u.path == s
  render u := u.scheme ++ "://" ++ u.host ++ u.path
  lookupPort p := p.toList.all Char.isDigit
  foldRune := Char.toLower
  idnaASCII s := String.ofList (s.toList.map Char.toLower)
  parse_render := by
    intro s u v hu hv
    have hu' := mem_of_find?_eq_some hu
    have hv' := List.find?_some hv
    have hvmem := mem_of_find?_eq_some hv
    simp only [mem_cons, not_mem_nil, or_false] at hu' hvmem
    rcases hu' with rfl | rfl | rfl <;> rcases hvmem with rfl | rfl | rfl <;>
      first
        | exact ⟨rfl, rfl⟩
        | exact absurd hv' (by decide)

def feedRequest : FetchRequest :=
  ⟨some (Function.update Header.empty "Authorization" ["Bearer token"]), false, 0, 0, 0⟩

/-- The mirror receives the feed's credentials with the third request. -/
theorem authorization_leaks :
    ¬ AuthorizationConfined feedStd "https://feed.example/list" feedRequest
      [mirrorURL, mirrorURL2] := by
  intro h
  have hthird : ((fetchRequests feedStd "https://feed.example/list" feedRequest
      [mirrorURL, mirrorURL2])[2]?.map fun r => (r.url, r.header "Authorization")) =
        some (mirrorURL2, ["Bearer token"]) := by
    decide
  obtain ⟨r, hr, hval⟩ := Option.map_eq_some_iff.mp hthird
  obtain ⟨hurl, hauth⟩ := Prod.mk.inj hval
  have hsame := h feedURL (by decide) r (mem_of_getElem? hr) (by simp [hauth])
  rw [hurl] at hsame
  exact absurd hsame (by decide)

end ProxyLoom.SafeFetch
