import ProxyLoom.IR.Node
import ProxyLoom.SafeFetch.Body

/-!
# The fetch limits of a source

A source stores how many redirects its fetch may follow, how many bytes it may read and how many it
may return. A refresh passes these limits on to `Fetch`, the last one cut to what an import may
hold. `Fetch` takes a zero for its own default, and checks the decoded length of compressed bodies
only. -/

namespace ProxyLoom.Source

open IR NetHttp SafeFetch

/-! ## Configurations -/

/-- A name that is none of the known ones is kept as it is. -/
inductive AuthKind where
  | none | bearer | basic | other (name : String)
deriving DecidableEq

inductive CommitMode where
  | manual | safeUpdates | other (name : String)
deriving DecidableEq

inductive MissingPolicy where
  | retain | disable | other (name : String)
deriving DecidableEq

inductive Format where
  | auto | uriList | base64URIList | other (name : String)
deriving DecidableEq

structure Auth where
  kind : AuthKind
  token : Secret
  username : Secret
  password : Secret

structure RefreshPolicy where
  enabled : Bool
  intervalSeconds : ℤ
  commitMode : CommitMode
  missingPolicy : MissingPolicy

structure FetchLimits where
  timeoutMS : ℤ
  maxCompressedBytes : ℤ
  maxDecodedBytes : ℤ
  maxRedirects : ℤ

structure Config where
  schemaVersion : ℤ
  url : Secret
  format : Format
  auth : Auth
  refreshPolicy : RefreshPolicy
  fetchLimits : FetchLimits
  bindingRevision : ℤ

inductive ConfigError where
  | documentInvalid | urlInvalid | formatInvalid | authInvalid | refreshInvalid | limitsInvalid
deriving DecidableEq

def ConfigError.text : ConfigError → String
  | .documentInvalid => "source_document_invalid"
  | .urlInvalid => "source_url_invalid"
  | .formatInvalid => "source_format_invalid"
  | .authInvalid => "source_auth_invalid"
  | .refreshInvalid => "source_refresh_invalid"
  | .limitsInvalid => "source_limits_invalid"

section
variable (std : Std) (codec : Codec)

def parseURL (raw : String) : Except ConfigError URL :=
  if codec.trimSpace raw = "" ∨ 4096 < raw.utf8ByteSize then .error .urlInvalid
  else
    match std.parse raw with
    | none => .error .urlInvalid
    | some parsed =>
      if parsed.opaqueData ≠ "" ∨ parsed.fragment ≠ "" ∨ parsed.host = "" then .error .urlInvalid
      else if parsed.scheme ≠ "https" ∧ parsed.scheme ≠ "http" then .error .urlInvalid
      else .ok parsed

def Auth.wellFormed (a : Auth) : Bool :=
  match a.kind with
  | .none => a.token = "" && a.username = "" && a.password = ""
  | .bearer => a.token ≠ "" && a.username = "" && a.password = ""
  | .basic => a.username ≠ "" && a.password ≠ "" && a.token = ""
  | .other _ => false

def RefreshPolicy.wellFormed (p : RefreshPolicy) : Bool :=
  60 ≤ p.intervalSeconds && p.intervalSeconds ≤ 2592000 &&
    (p.commitMode = .manual || p.commitMode = .safeUpdates) &&
    (p.missingPolicy = .retain || p.missingPolicy = .disable)

def FetchLimits.wellFormed (l : FetchLimits) : Bool :=
  1000 ≤ l.timeoutMS && l.timeoutMS ≤ 60000 &&
    1 ≤ l.maxCompressedBytes && l.maxCompressedBytes ≤ 10 * 2 ^ 20 &&
    1 ≤ l.maxDecodedBytes && l.maxDecodedBytes ≤ 10 * 2 ^ 20 &&
    0 ≤ l.maxRedirects && l.maxRedirects ≤ 5

def Config.validate (c : Config) : Except ConfigError Unit := do
  if c.schemaVersion ≠ 1 then .error .documentInvalid
  let _ ← parseURL std codec c.url
  if c.format ≠ .auto ∧ c.format ≠ .uriList ∧ c.format ≠ .base64URIList then
    .error .formatInvalid
  if c.auth.wellFormed = false then .error .authInvalid
  if c.refreshPolicy.wellFormed = false then .error .refreshInvalid
  if c.fetchLimits.wellFormed = false then .error .limitsInvalid
  if c.bindingRevision < 1 then .error .documentInvalid

/-! ## The refresh's fetch -/

/-- The workspace limit that a refresh job was created with, within the bounds of the settings. -/
structure CatalogLimits where
  maxImportBytes : ℤ
  one_le : 1 ≤ maxImportBytes
  le_max : maxImportBytes ≤ 10 * 2 ^ 20

/-- Two layers of base64 around so many bytes. -/
def encodedLimit (decoded : ℤ) : ℤ := (((decoded + 2).tdiv 3 * 4 + 2).tdiv 3) * 4

/-- The headers of a source's requests. The encoding of the credentials is a parameter. -/
def Auth.header (base64 : String → String) (a : Auth) : Header :=
  match a.kind with
  | .bearer => Function.update Header.empty "Authorization" ["Bearer " ++ a.token]
  | .basic => Function.update Header.empty "Authorization"
      ["Basic " ++ base64 (a.username ++ ":" ++ a.password)]
  | _ => Header.empty

/-- What a source asks of `Fetch`. The timeout is left to the servers' behaviour. -/
def Config.request (base64 : String → String) (c : Config) (parsed : URL) : FetchRequest where
  header := some (c.auth.header base64)
  allowHTTP := parsed.scheme == "http"
  maxRedirects := c.fetchLimits.maxRedirects
  maxCompressedBytes := c.fetchLimits.maxCompressedBytes
  maxDecodedBytes := c.fetchLimits.maxDecodedBytes

def fetchSource (base64 : String → String) (c : Config) (server : Server) : Fetched :=
  match parseURL std codec c.url with
  | .error _ => ⟨0, 0, .error .invalidURL⟩
  | .ok parsed => fetch std codec c.url (c.request base64 parsed) server

/-- The document that is fetched: not more is decoded than an import may hold. -/
def Config.bounded (limits : CatalogLimits) (c : Config) : Config :=
  { c with fetchLimits := { c.fetchLimits with
      maxDecodedBytes := min c.fetchLimits.maxDecodedBytes (encodedLimit limits.maxImportBytes) } }

def refreshFetch (base64 : String → String) (limits : CatalogLimits) (c : Config)
    (server : Server) : Fetched :=
  fetchSource std codec base64 (c.bounded limits) server

end

structure Config.LimitsHold (c : Config) (f : Fetched) : Prop where
  redirects : (f.followed : ℤ) ≤ c.fetchLimits.maxRedirects
  compressed : (f.read : ℤ) ≤ c.fetchLimits.maxCompressedBytes + 1
  decoded : ∀ r, f.result = .ok r → (r.body.length : ℤ) ≤ c.fetchLimits.maxDecodedBytes

/-! ## When the limits hold -/

section Limits

variable {std : Std} {codec : Codec} {base64 : String → String} {limits : CatalogLimits}
  {c : Config}

theorem limits_of_validate (h : c.validate std codec = .ok ()) :
    c.fetchLimits.wellFormed = true := by
  by_contra hlimits
  rw [Bool.not_eq_true] at hlimits
  unfold Config.validate at h
  cases hurl : parseURL std codec c.url with
  | error e =>
    rw [hurl] at h
    split_ifs at h <;> cases h
  | ok parsed =>
    rw [hurl] at h
    split_ifs at h <;> contradiction

theorem FetchLimits.bounds {l : FetchLimits} (h : l.wellFormed = true) :
    1 ≤ l.maxCompressedBytes ∧ 1 ≤ l.maxDecodedBytes ∧ 0 ≤ l.maxRedirects := by
  simp only [FetchLimits.wellFormed, Bool.and_eq_true, decide_eq_true_eq] at h
  omega

theorem one_le_encodedLimit (limits : CatalogLimits) : 1 ≤ encodedLimit limits.maxImportBytes := by
  have hone := limits.one_le
  have hinner : (limits.maxImportBytes + 2).tdiv 3 = (limits.maxImportBytes + 2) / 3 :=
    Int.tdiv_eq_ediv_of_nonneg (by omega)
  unfold encodedLimit
  rw [hinner, Int.tdiv_eq_ediv_of_nonneg (by omega)]
  omega

/-- The request of a refresh, with the defaults filled in: only the redirects may be a zero. -/
theorem request_withDefaults (hlimits : c.fetchLimits.wellFormed = true) (parsed : URL) :
    let r := ((c.bounded limits).request base64 parsed).withDefaults
    r.maxRedirects =
      (if c.fetchLimits.maxRedirects = 0 then defaultMaxRedirects else c.fetchLimits.maxRedirects) ∧
    r.maxCompressedBytes = c.fetchLimits.maxCompressedBytes ∧
    r.maxDecodedBytes ≤ c.fetchLimits.maxDecodedBytes := by
  obtain ⟨hcompressed, hdecoded, -⟩ := FetchLimits.bounds hlimits
  have hencoded := one_le_encodedLimit limits
  refine ⟨rfl, ?_, ?_⟩
  · have hne : c.fetchLimits.maxCompressedBytes ≠ 0 := by omega
    exact if_neg hne
  · have hne : min c.fetchLimits.maxDecodedBytes (encodedLimit limits.maxImportBytes) ≠ 0 := by
      omega
    exact (if_neg hne).trans_le (min_le_left _ _)

theorem refreshFetch_eq {parsed : URL} (h : parseURL std codec c.url = .ok parsed)
    (server : Server) : refreshFetch std codec base64 limits c server =
      fetch std codec c.url ((c.bounded limits).request base64 parsed) server := by
  unfold refreshFetch fetchSource
  rw [show (c.bounded limits).url = c.url from rfl, h]

theorem limitsHold_of_error (hlimits : c.fetchLimits.wellFormed = true) {f : Fetched}
    {e : FetchError} (h : f = ⟨0, 0, .error e⟩) : c.LimitsHold f := by
  obtain ⟨hcompressed, -, hredirects⟩ := FetchLimits.bounds hlimits
  subst h
  refine ⟨hredirects, ?_, fun r hr => by cases hr⟩
  show (0 : ℤ) ≤ _
  omega

/-- The source's URL is fetched, and either some redirect can be followed although none is allowed,
or more may be read than returned. -/
def Config.Escapes (std : Std) (codec : Codec) (base64 : String → String)
    (limits : CatalogLimits) (c : Config) : Prop :=
  ∃ parsed, parseURL std codec c.url = .ok parsed ∧
    (firstRequest std c.url ((c.bounded limits).request base64 parsed)).isOk = true ∧
    ((c.fetchLimits.maxRedirects = 0 ∧
        ∃ u, (parseFetchURL std (std.render u) (parsed.scheme == "http")).isOk = true) ∨
      c.fetchLimits.maxDecodedBytes < c.fetchLimits.maxCompressedBytes)

theorem limitsHold_of_not_escapes (hlimits : c.fetchLimits.wellFormed = true)
    (h : ¬ c.Escapes std codec base64 limits) (server : Server) :
    c.LimitsHold (refreshFetch std codec base64 limits c server) := by
  cases hurl : parseURL std codec c.url with
  | error e =>
    refine limitsHold_of_error hlimits (e := .invalidURL) ?_
    unfold refreshFetch fetchSource
    rw [show (c.bounded limits).url = c.url from rfl, hurl]
  | ok parsed =>
    rw [refreshFetch_eq hurl]
    cases hfirst : firstRequest std c.url ((c.bounded limits).request base64 parsed) with
    | error e =>
      refine limitsHold_of_error hlimits (e := e) ?_
      unfold fetch
      rw [hfirst]
    | ok first =>
      obtain ⟨hcompressed, -, hredirects⟩ := FetchLimits.bounds hlimits
      obtain ⟨hr, hc, hd⟩ := @request_withDefaults base64 limits c hlimits parsed
      have hnot : ¬((c.fetchLimits.maxRedirects = 0 ∧
            ∃ u, (parseFetchURL std (std.render u) (parsed.scheme == "http")).isOk = true) ∨
          c.fetchLimits.maxDecodedBytes < c.fetchLimits.maxCompressedBytes) := by
        intro hcase
        exact h ⟨parsed, hurl, by rw [hfirst]; rfl, hcase⟩
      obtain ⟨hredirect, hle⟩ := not_or.mp hnot
      refine ⟨?_, ?_, ?_⟩
      · by_cases hzero : c.fetchLimits.maxRedirects = 0
        · have hnone : ∀ u, (parseFetchURL std (std.render u)
              ((c.bounded limits).request base64 parsed).allowHTTP).isOk = false := by
            intro u
            by_contra hu
            exact hredirect ⟨hzero, u, eq_true_of_ne_false hu⟩
          rw [fetch_followed_eq_zero c.url server hnone]
          exact hredirects
        · rw [if_neg hzero] at hr
          rw [← hr]
          exact fetch_followed_le c.url server (by omega)
      · rw [← hc]
        exact fetch_read_le c.url server (by omega)
      · intro r hresult
        have hbody := fetch_body_le hresult
        omega

/-- **Limits.** A valid source's limits hold whatever the servers do if and only if its URL is
refused, or it allows a redirect wherever one can be followed and may not read more than it
returns. -/
theorem limits_hold_iff (hvalid : c.validate std codec = .ok ()) :
    (∀ server, c.LimitsHold (refreshFetch std codec base64 limits c server)) ↔
      ¬ c.Escapes std codec base64 limits := by
  have hlimits := limits_of_validate hvalid
  refine ⟨?_, fun h server => limitsHold_of_not_escapes hlimits h server⟩
  rintro h ⟨parsed, hurl, hok, hcase⟩
  obtain ⟨hcompressed, -, -⟩ := FetchLimits.bounds hlimits
  obtain ⟨hr, hc, -⟩ := @request_withDefaults base64 limits c hlimits parsed
  cases hfirst : firstRequest std c.url ((c.bounded limits).request base64 parsed) with
  | error e =>
    rw [hfirst] at hok
    cases hok
  | ok first =>
    rcases hcase with ⟨hzero, u, hu⟩ | hlt
    · -- one redirect, where none is allowed
      have hacc : acceptable std ((c.bounded limits).request base64 parsed) 1 u = true := by
        rw [if_pos hzero] at hr
        rw [acceptable, hr, Bool.and_eq_true]
        exact ⟨by decide, hu⟩
      have hredirects := (h ⟨[u], .error .fetch⟩).redirects
      rw [refreshFetch_eq hurl, fetch_followed_eq_one hfirst hacc, hzero] at hredirects
      exact absurd hredirects (by decide)
    · -- an uncompressed body, as long as may be read
      have hlength : ((List.replicate c.fetchLimits.maxCompressedBytes.toNat
          (0 : UInt8)).length : ℤ) = c.fetchLimits.maxCompressedBytes := by
        rw [List.length_replicate]
        omega
      obtain ⟨r, hresult, hbody⟩ := @fetch_identity std codec _ _ _ hfirst
        (List.replicate c.fetchLimits.maxCompressedBytes.toNat 0) (by rw [hlength, hc])
      have hdecoded := (h _).decoded r ((congrArg Fetched.result (refreshFetch_eq hurl _)).trans
        hresult)
      rw [hbody, hlength] at hdecoded
      omega

end Limits

/-! ## Sources that escape -/

/-- Text functions that change nothing, and no compressed bodies. -/
def plainCodec : Codec := ⟨id, id, fun _ => none, rfl, rfl⟩

def feedSource (maxCompressedBytes maxDecodedBytes maxRedirects : ℤ) : Config where
  schemaVersion := 1
  url := "https://feed.example/list"
  format := .auto
  auth := ⟨.none, "", "", ""⟩
  refreshPolicy := ⟨true, 3600, .manual, .retain⟩
  fetchLimits := ⟨15000, maxCompressedBytes, maxDecodedBytes, maxRedirects⟩
  bindingRevision := 1

def feedLimits : CatalogLimits := ⟨10 * 2 ^ 20, by norm_num, le_refl _⟩

/-- A source that allows three redirects and returns as much as it may read keeps its limits. -/
theorem limits_hold_feed :
    (feedSource 100 100 3).validate feedStd plainCodec = .ok () ∧
      ∀ server, (feedSource 100 100 3).LimitsHold
        (refreshFetch feedStd plainCodec id feedLimits (feedSource 100 100 3) server) := by
  have hvalid : (feedSource 100 100 3).validate feedStd plainCodec = .ok () := by decide
  refine ⟨hvalid, (limits_hold_iff hvalid).mpr ?_⟩
  rintro ⟨parsed, -, -, ⟨hzero, -⟩ | hlt⟩
  · exact absurd hzero (by decide)
  · exact absurd hlt (by decide)

/-- A source without redirects is redirected once; a source that allows ten bytes gets twelve. -/
theorem limits_exceeded :
    (feedSource 100 100 0).validate feedStd plainCodec = .ok () ∧
    ¬ (feedSource 100 100 0).LimitsHold (refreshFetch feedStd plainCodec id feedLimits
      (feedSource 100 100 0) ⟨[mirrorURL], .error .fetch⟩) ∧
    (feedSource 100 10 3).validate feedStd plainCodec = .ok () ∧
    ¬ (feedSource 100 10 3).LimitsHold (refreshFetch feedStd plainCodec id feedLimits
      (feedSource 100 10 3)
      ⟨[], .ok ⟨200, Header.empty, ⟨List.replicate 12 0, none⟩⟩⟩) := by
  have hfollowed : (refreshFetch feedStd plainCodec id feedLimits (feedSource 100 100 0)
      ⟨[mirrorURL], .error .fetch⟩).followed = 1 := by decide
  have hresult : (refreshFetch feedStd plainCodec id feedLimits (feedSource 100 10 3)
      ⟨[], .ok ⟨200, Header.empty, ⟨List.replicate 12 0, none⟩⟩⟩).result =
        .ok ⟨200, List.replicate 12 0, "", "https://feed.example"⟩ := by decide
  refine ⟨by decide, ?_, by decide, ?_⟩
  · intro h
    have hredirects := h.redirects
    rw [hfollowed] at hredirects
    exact absurd hredirects (by decide)
  · intro h
    exact absurd (h.decoded _ hresult) (by decide)

end ProxyLoom.Source
