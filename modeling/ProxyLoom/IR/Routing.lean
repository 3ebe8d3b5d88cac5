import ProxyLoom.IR.Node
import ProxyLoom.Lib.Netip

/-!
# Targets, rule sets and routing profiles

References to what traffic may be sent to, the match fields of a routing rule, and the checks a
routing profile and a rule set pass before they are stored or compiled.
-/

namespace ProxyLoom.IR

inductive ResourceKind where
  | node | chain | policyGroup | routingProfile | dnsProfile | ruleSet | clientPreset
  | subscriptionProfile | source
deriving DecidableEq, Repr

inductive BuiltinTarget where
  | direct | reject
deriving DecidableEq, Repr

/-- Where a rule sends its flows. -/
inductive TargetRef where
  | resource (kind : ResourceKind) (resourceID : ID)
  | builtin (target : BuiltinTarget)
deriving DecidableEq, Repr

inductive Network where
  | tcp | udp
deriving DecidableEq, Repr

def Network.text : Network → String
  | .tcp => "tcp"
  | .udp => "udp"

inductive DomainResolutionMode where
  | preserveDomain | resolveForIPRules
deriving DecidableEq, Repr

structure PortRange where
  fromPort : ℕ
  toPort : ℕ
deriving DecidableEq, Repr

/-- Different populated fields are ANDed, entries within each field are ORed. -/
structure DomainMatch where
  domainExact : List String
  domainSuffix : List String
  ruleSetIDs : List ID
deriving DecidableEq, Repr

/-- The fields that a flow is matched by. -/
structure RouteMatch where
  domainExact : List String
  domainSuffix : List String
  ruleSetIDs : List ID
  ipCIDRs : List String
  destinationPorts : List PortRange
  network : List Network
deriving DecidableEq, Repr

structure RoutingRule where
  routeMatch : RouteMatch
  action : TargetRef
  enabled : Bool
  comment : String
deriving DecidableEq, Repr

/-- The order of the rules matters: the first enabled rule that matches wins, then `final`. -/
structure RoutingProfile where
  schemaVersion : ℕ
  rules : List RoutingRule
  final : TargetRef
  domainResolutionMode : DomainResolutionMode
deriving DecidableEq, Repr

inductive DomainMatchKind where
  | exact | suffix
deriving DecidableEq, Repr

inductive RuleSetEntry where
  | domain (name : String) (kind : DomainMatchKind)
  | cidr (network : String)
deriving DecidableEq, Repr

/-- Entries that rules share. -/
structure RuleSet where
  schemaVersion : ℕ
  entries : List RuleSetEntry
  contentHash : String
deriving DecidableEq, Repr

/-! ## Validity -/

/-- What the checks take from the libraries: the asserted formats, the parser and printer of
networks, the syntax of HTTPS URLs and the hash of a rule set. -/
structure Schema extends Formats where
  parsePrefix : String → Option Netip.Prefix
  formatPrefix : Netip.Prefix → String
  httpsURL : String → Bool
  ruleSetHash : ℕ → List RuleSetEntry → String

/-- Checks that accept every host name and no address. -/
def hostnameSchema : Schema where
  hostname _ := true
  ipv4 _ := false
  ipv6 _ := false
  parsePrefix _ := none
  formatPrefix _ := ""
  httpsURL _ := false
  ruleSetHash _ _ := ""

section
variable (schema : Schema)

/-- `^[a-z][a-z0-9_-]{0,63}$`. -/
def validKey (s : String) : Bool := validFingerprint s

def validDomainName (s : String) : Bool :=
  schema.hostname s && s.length ≤ 253 &&
    match s.toList with
    | [] => false
    | c :: cs => (Text.isLower c || Text.isDigit c) &&
      cs.all fun c => Text.isLower c || Text.isDigit c || c == '.' || c == '-'

/-- The network is written in its one canonical form, without host bits. The pattern that the schema
has for it besides is implied: what `netip` writes is of hexadecimal digits, dots, colons and a
slash. -/
def canonicalCIDR (value : String) : Bool :=
  value.length ≤ 64 && (schema.parsePrefix value).any fun p =>
    p.bits ≤ p.addr.family.width && p = p.masked && schema.formatPrefix p = value

def validComment (s : String) : Bool :=
  s.length ≤ 500 && s.toList.all fun c => !Text.isControl c

def validPort (n : ℕ) : Bool := 1 ≤ n && n ≤ 65535

/-- A set written as a list of at most `n` entries. -/
def validSet {α : Type} [DecidableEq α] (n : ℕ) (entry : α → Bool) (l : List α) : Bool :=
  l.length ≤ n && decide l.Nodup && l.all entry

def TargetRef.validate : TargetRef → Bool
  | .resource kind id =>
    (kind = .node || kind = .chain || kind = .policyGroup) && ID.validate id
  | .builtin _ => true

def PortRange.validate (p : PortRange) : Bool :=
  validPort p.fromPort && validPort p.toPort && p.fromPort ≤ p.toPort

/-- Empty lists are encoded as absent fields, and one field has to be present. -/
def DomainMatch.validate (m : DomainMatch) : Bool :=
  (m.domainExact ≠ [] || m.domainSuffix ≠ [] || m.ruleSetIDs ≠ []) &&
    validSet 1000 (validDomainName schema) m.domainExact &&
    validSet 1000 (validDomainName schema) m.domainSuffix &&
    validSet 100 ID.validate m.ruleSetIDs

def RouteMatch.validate (m : RouteMatch) : Bool :=
  (m.domainExact ≠ [] || m.domainSuffix ≠ [] || m.ruleSetIDs ≠ [] || m.ipCIDRs ≠ [] ||
      m.destinationPorts ≠ [] || m.network ≠ []) &&
    validSet 1000 (validDomainName schema) m.domainExact &&
    validSet 1000 (validDomainName schema) m.domainSuffix &&
    validSet 100 ID.validate m.ruleSetIDs &&
    validSet 1000 (canonicalCIDR schema) m.ipCIDRs &&
    m.destinationPorts.length ≤ 100 && m.destinationPorts.all PortRange.validate &&
    decide m.network.Nodup

def RoutingRule.validate (r : RoutingRule) : Bool :=
  r.routeMatch.validate schema && r.action.validate && validComment r.comment

def RoutingProfile.validate (p : RoutingProfile) : Bool :=
  p.schemaVersion = IR.schemaVersion && p.rules.length ≤ 10000 &&
    p.rules.all (RoutingRule.validate schema) && p.final.validate

def RuleSetEntry.validate : RuleSetEntry → Bool
  | .domain name _ => validDomainName schema name
  | .cidr network => canonicalCIDR schema network

def RuleSet.validate (s : RuleSet) : Bool :=
  s.schemaVersion = IR.schemaVersion && s.entries ≠ [] && s.entries.length ≤ 50000 &&
    s.entries.all (RuleSetEntry.validate schema) &&
    s.contentHash = schema.ruleSetHash s.schemaVersion s.entries

end

end ProxyLoom.IR
