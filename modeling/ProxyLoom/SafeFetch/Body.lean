import ProxyLoom.Lib.HostPort
import ProxyLoom.Lib.Result
import ProxyLoom.SafeFetch.Redirect

/-!
# How much a fetch follows, reads and returns

`Client.Fetch` from the first request to the result. The servers answer with redirects, and then
fail or respond with a body, which may break off. The fetch counts the redirects it follows and the
body bytes it reads.
-/

namespace ProxyLoom.SafeFetch

open NetHttp

/-! ## Bodies -/

/-- What a reader gives: some bytes, and an error behind them unless they end there. -/
structure Stream where
  bytes : List UInt8
  broken : Option FetchError

/-- `io.ReadAll` of an `io.LimitReader`: the error is met only before the limit. -/
def Stream.readAll (s : Stream) (limit : ℕ) : List UInt8 × Option FetchError :=
  (s.bytes.take limit, if limit ≤ s.bytes.length then none else s.broken)

structure Response where
  status : ℤ
  header : Header
  body : Stream

/-- `Header.Get`. -/
def Response.get (r : Response) (name : String) : String := (r.header name).headD ""

/-- The text functions and the decompression that the fetch uses. `gunzip` fails on a bad header. -/
structure Codec where
  trimSpace : String → String
  toLower : String → String
  gunzip : List UInt8 → Option Stream
  trimSpace_empty : trimSpace "" = ""
  toLower_empty : toLower "" = ""

structure Result where
  status : ℤ
  body : List UInt8
  contentType : String
  urlDisplay : String
deriving DecidableEq

def displayURL (u : URL) : String :=
  if u.port = "" then u.scheme ++ "://" ++ u.hostname
  else u.scheme ++ "://" ++ HostPort.joinHostPort u.hostname u.port

/-- The body without its content encoding. -/
def decode (codec : Codec) (request : FetchRequest) (encoding : String)
    (compressed : List UInt8) : Except FetchError (List UInt8) :=
  if encoding = "gzip" then
    match codec.gunzip compressed with
    | none => .error .fetch
    | some reader =>
      match reader.readAll (request.maxDecodedBytes + 1).toNat with
      | (_, some _) => .error .fetch
      | (decoded, none) =>
        if request.maxDecodedBytes < decoded.length then .error .tooLarge else .ok decoded
  else if encoding ≠ "" ∧ encoding ≠ "identity" then .error .fetch
  else .ok compressed

/-- Read and decode a response within the limits. -/
def receive (codec : Codec) (request : FetchRequest) (final : URL) (response : Response) :
    Except FetchError Result :=
  match response.body.readAll (request.maxCompressedBytes + 1).toNat with
  | (_, some e) => .error e
  | (compressed, none) =>
    if request.maxCompressedBytes < compressed.length then .error .tooLarge
    else
      let encoding := codec.toLower (codec.trimSpace (response.get "Content-Encoding"))
      (decode codec request encoding compressed).map fun body =>
        ⟨response.status, body, response.get "Content-Type", displayURL final⟩

/-! ## The fetch -/

/-- How the servers behave: the redirects they answer with in turn, and what comes then. -/
structure Server where
  redirects : List URL
  answer : Except FetchError Response

/-- What a fetch has followed, and how much it has read of the response that `Fetch` reads itself;
what the HTTP client discards of the bodies of redirects is not counted. -/
structure Fetched where
  followed : ℕ
  read : ℕ
  result : Except FetchError Result

/-- `Client.Fetch`, with what it followed and read. -/
def fetch (std : Std) (codec : Codec) (raw : String) (request : FetchRequest) (server : Server) :
    Fetched :=
  match firstRequest std raw request with
  | .error e => ⟨0, 0, .error e⟩
  | .ok first =>
    let client := httpClient std request
    let hops := client.hops first false [first] server.redirects
    match client.refusal first false [first] server.redirects, server.answer with
    | some e, _ => ⟨hops.length, 0, .error e⟩
    | none, .error e => ⟨hops.length, 0, .error e⟩
    | none, .ok response =>
      let limit := (request.withDefaults.maxCompressedBytes + 1).toNat
      ⟨hops.length, (response.body.readAll limit).1.length,
        receive codec request.withDefaults (hops.getLastD first).url response⟩

/-! ## Bounds -/

section Bounds

variable {std : Std} {codec : Codec} {request : FetchRequest} {raw : String}

/-- The hook refuses the redirect after the last one allowed. -/
theorem length_hops_le (first : Request) (us : List URL) : ∀ (strip : Bool) (via : List Request),
    ((httpClient std request).hops first strip via us).length ≤
      (request.withDefaults.maxRedirects + 1 - via.length).toNat := by
  induction us with
  | nil =>
    intro strip via
    exact Nat.zero_le _
  | cons u us ih =>
    intro strip via
    rw [Client.hops]
    split
    · exact Nat.zero_le _
    · next req hreq =>
      have hvia : ¬ request.withDefaults.maxRedirects < via.length := by
        intro hlt
        simp only [httpClient, checkRedirect, hlt, if_true] at hreq
        cases hreq
      have hrest := ih (strip || (httpClient std request).foreign first.url u) (via ++ [req])
      rw [List.length_append, List.length_singleton] at hrest
      rw [List.length_cons]
      omega

theorem length_readAll_le (s : Stream) (limit : ℕ) : (s.readAll limit).1.length ≤ limit :=
  List.length_take_le limit s.bytes

/-- What is decoded is within the limit; what is not decoded is as long as it was read. -/
theorem length_decode_le {encoding : String} {compressed body : List UInt8}
    (h : decode codec request encoding compressed = .ok body) :
    (body.length : ℤ) ≤ request.maxDecodedBytes ∨ body = compressed := by
  unfold decode at h
  split_ifs at h
  · split at h
    · cases h
    · split at h
      · cases h
      · split_ifs at h with hlarge
        cases h
        exact .inl (not_lt.mp hlarge)
  · cases h
    exact .inr rfl

theorem length_receive_le {final : URL} {response : Response} {r : Result}
    (h : receive codec request final response = .ok r) :
    (r.body.length : ℤ) ≤ max request.maxDecodedBytes request.maxCompressedBytes := by
  unfold receive at h
  split at h
  · cases h
  · next compressed _ =>
    split_ifs at h with hlarge
    obtain ⟨body, hbody, rfl⟩ := Except.of_map h
    rcases length_decode_le hbody with hle | rfl
    · exact le_max_of_le_left hle
    · exact le_max_of_le_right (not_lt.mp hlarge)

theorem fetch_followed_le (raw : String) (server : Server)
    (h : 0 ≤ request.withDefaults.maxRedirects) :
    ((fetch std codec raw request server).followed : ℤ) ≤ request.withDefaults.maxRedirects := by
  unfold fetch
  split
  · exact h
  · next first _ =>
    have hhops := @length_hops_le std request first server.redirects false [first]
    rw [List.length_singleton] at hhops
    dsimp only
    split <;> dsimp only <;> omega

theorem fetch_read_le (raw : String) (server : Server)
    (h : 0 ≤ request.withDefaults.maxCompressedBytes) :
    ((fetch std codec raw request server).read : ℤ) ≤
      request.withDefaults.maxCompressedBytes + 1 := by
  have hzero : ((0 : ℕ) : ℤ) ≤ request.withDefaults.maxCompressedBytes + 1 := by omega
  unfold fetch
  split
  · exact hzero
  · dsimp only
    split
    · exact hzero
    · exact hzero
    · next response _ _ =>
      have hread := length_readAll_le response.body
        (request.withDefaults.maxCompressedBytes + 1).toNat
      dsimp only
      omega

/-- An uncompressed body is bounded by what may be read, a compressed one also by what may be
decoded. -/
theorem fetch_body_le {server : Server} {r : Result}
    (h : (fetch std codec raw request server).result = .ok r) :
    (r.body.length : ℤ) ≤
      max request.withDefaults.maxDecodedBytes request.withDefaults.maxCompressedBytes := by
  unfold fetch at h
  split at h
  · cases h
  · dsimp only at h
    split at h
    · cases h
    · cases h
    · exact length_receive_le h

/-! ## Servers that use a limit up -/

theorem fetch_followed_eq_zero (raw : String) (server : Server)
    (h : ∀ u, (parseFetchURL std (std.render u) request.allowHTTP).isOk = false) :
    (fetch std codec raw request server).followed = 0 := by
  have hhops : ∀ first,
      (httpClient std request).hops first false [first] server.redirects = [] := by
    intro first
    cases server.redirects with
    | nil => rfl
    | cons u us =>
      have hacc : acceptable std request [first].length u = false := by
        rw [acceptable, h u, Bool.and_false]
      obtain ⟨e, he⟩ := (checkRedirect_spec std request first first
        (false || (httpClient std request).foreign first.url u) u rfl).2 hacc
      rw [Client.hops]
      simp only [httpClient] at he ⊢
      rw [he]
  unfold fetch
  split
  · rfl
  · next first _ =>
    dsimp only
    split <;> exact congrArg List.length (hhops first)

theorem fetch_followed_eq_one {first : Request} {u : URL}
    (hfirst : firstRequest std raw request = .ok first)
    (hacc : acceptable std request 1 u = true) (answer : Except FetchError Response) :
    (fetch std codec raw request ⟨[u], answer⟩).followed = 1 := by
  have hok := (@checkRedirect_spec std request first first
    (false || (httpClient std request).foreign first.url u) u [first] rfl).1 hacc
  have hhops : ((httpClient std request).hops first false [first] [u]).length = 1 := by
    rw [Client.hops]
    simp only [httpClient] at hok ⊢
    rw [hok]
    rfl
  unfold fetch
  rw [hfirst]
  dsimp only
  split <;> exact hhops

theorem fetch_identity {first : Request}
    (hfirst : firstRequest std raw request = .ok first) {body : List UInt8}
    (hbody : (body.length : ℤ) ≤ request.withDefaults.maxCompressedBytes) :
    ∃ r, (fetch std codec raw request
      ⟨[], .ok ⟨200, Header.empty, ⟨body, none⟩⟩⟩).result = .ok r ∧ r.body = body := by
  have htake : body.take (request.withDefaults.maxCompressedBytes + 1).toNat = body :=
    List.take_of_length_le (by omega)
  have hencoding : codec.toLower (codec.trimSpace ((Header.empty "Content-Encoding").headD "")) =
      "" := by
    rw [show (Header.empty "Content-Encoding").headD "" = "" from rfl, codec.trimSpace_empty,
      codec.toLower_empty]
  have hreceive : receive codec request.withDefaults first.url
      ⟨200, Header.empty, ⟨body, none⟩⟩ = .ok ⟨200, body, "", displayURL first.url⟩ := by
    simp only [receive, Stream.readAll, htake, ite_self, not_lt.mpr hbody, if_false, Response.get,
      hencoding, decode]
    rfl
  unfold fetch
  rw [hfirst]
  exact ⟨_, hreceive, rfl⟩

end Bounds

end ProxyLoom.SafeFetch
