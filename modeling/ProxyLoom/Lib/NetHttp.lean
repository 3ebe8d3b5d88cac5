import Mathlib.Data.Int.Notation
import Mathlib.Data.List.Basic
import Mathlib.Logic.Function.Basic
import Mathlib.Tactic

/-!
# A redirect-following HTTP client

The parts of Go's `net/url` and `net/http` that decide where a request goes and which headers it
carries. A client follows the redirects it is answered with: every further request gets the
headers of the *first* request, less the sensitive ones once some destination was neither the
first host nor a subdomain of it, and is then shown to the caller's `CheckRedirect` hook together
with all requests before it.
-/

namespace NetHttp

/-! ## URLs -/

/-- A parsed URL (`net/url.URL`). -/
structure URL where
  scheme : String
  opaqueData : String
  user : Option String
  host : String
  path : String
  rawQuery : String
  fragment : String
deriving DecidableEq, Repr

/-- A colon and digits only, or nothing at all. -/
def validOptionalPort : List Char → Bool
  | [] => true
  | c :: cs => c == ':' && cs.all Char.isDigit

/-- The text before and after the last colon, the colon kept with the second part. -/
def splitLastColon (s : List Char) : List Char × List Char :=
  let tail := (s.reverse.takeWhile (· != ':')).reverse
  if tail.length < s.length then
    (s.take (s.length - tail.length - 1), ':' :: tail)
  else (s, [])

/-- `net/url.splitHostPort`: the host without brackets, and the port without its colon. -/
def splitHostPort (hostPort : String) : String × String :=
  let (host, port) := splitLastColon hostPort.toList
  let (host, port) :=
    if !port.isEmpty && validOptionalPort port then (host, port.drop 1)
    else (hostPort.toList, [])
  let host :=
    if host.head? == some '[' && host.getLast? == some ']' then (host.drop 1).dropLast else host
  (String.ofList host, String.ofList port)

def URL.hostname (u : URL) : String := (splitHostPort u.host).1

def URL.port (u : URL) : String := (splitHostPort u.host).2

/-! ## Requests and their headers -/

abbrev Header := String → List String

def Header.empty : Header := fun _ => []

/-- `Header.Del`. -/
def Header.del (h : Header) (name : String) : Header := Function.update h name []

@[simp] theorem Header.del_self (h : Header) (name : String) : h.del name name = [] := by
  simp [Header.del]

structure Request where
  url : URL
  header : Header

/-- The headers a client keeps from a host it does not trust with them. -/
def sensitiveHeaders : List String :=
  ["Authorization", "Www-Authenticate", "Cookie", "Cookie2", "Proxy-Authorization",
    "Proxy-Authenticate"]

/-- The headers of the first request, without the sensitive ones when `strip` is set. -/
def copyHeaders (h : Header) (strip : Bool) : Header :=
  fun name => if strip && sensitiveHeaders.contains name then [] else h name

theorem copyHeaders_sensitive {h : Header} {strip : Bool} {name : String}
    (hn : sensitiveHeaders.contains name = true) :
    copyHeaders h strip name = if strip then [] else h name := by
  simp only [copyHeaders, hn, Bool.and_true]

/-! ## Which hosts keep the sensitive headers -/

/-- `sub` is `parent`, or ends in a dot and `parent`; an address is no subdomain of anything. -/
def isDomainOrSubdomain (sub parent : String) : Bool :=
  sub == parent ||
    (!(sub.toList.contains ':' || sub.toList.contains '%') &&
      ('.' :: parent.toList).isSuffixOf sub.toList)

/-- A client: how hosts are brought to ASCII before they are compared, and the caller's hook. -/
structure Client (ε : Type) where
  idnaASCII : String → String
  checkRedirect : Request → List Request → Except ε Request

variable {ε : Type}

/-- `shouldCopyHeaderOnRedirect`. -/
def Client.shouldCopyHeader (c : Client ε) (initial dest : URL) : Bool :=
  isDomainOrSubdomain (c.idnaASCII dest.hostname) (c.idnaASCII initial.hostname)

/-- The redirect to `dest` leaves the first host and its subdomains. -/
def Client.foreign (c : Client ε) (initial dest : URL) : Bool :=
  initial.host != dest.host && !c.shouldCopyHeader initial dest

/-! ## The redirect loop -/

/-- The requests issued after those of `via`, when the servers answer with redirects to `us` in
turn. The loop ends where the hook refuses a request. -/
def Client.hops (c : Client ε) (first : Request) :
    Bool → List Request → List URL → List Request
  | _, _, [] => []
  | strip, via, u :: us =>
    let strip := strip || c.foreign first.url u
    match c.checkRedirect ⟨u, copyHeaders first.header strip⟩ via with
    | .error _ => []
    | .ok req => req :: c.hops first strip (via ++ [req]) us

/-- The error of the hook that ends the loop of `hops`, if one does. -/
def Client.refusal (c : Client ε) (first : Request) :
    Bool → List Request → List URL → Option ε
  | _, _, [] => none
  | strip, via, u :: us =>
    let strip := strip || c.foreign first.url u
    match c.checkRedirect ⟨u, copyHeaders first.header strip⟩ via with
    | .error e => some e
    | .ok req => c.refusal first strip (via ++ [req]) us

/-- Every request `Client.Do` hands to the transport. -/
def Client.issued (c : Client ε) (first : Request) (us : List URL) : List Request :=
  first :: c.hops first false [first] us

end NetHttp
