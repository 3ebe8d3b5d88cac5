import ProxyLoom.IR.Frozen
import ProxyLoom.Lib.Domain

/-!
# What routing and DNS profiles mean

A flow is a connection as the rules see it. A match holds of a flow if each of its populated fields
does, and a field holds if one of its entries does. A routing profile sends a flow where its first
enabled matching rule says, and a DNS profile asks the resolver of its first enabled matching rule.
-/

namespace ProxyLoom.IR

/-- The name a connection asks for and the addresses its destination is known by: none for a domain
that is not resolved. -/
structure Flow where
  domain : Option String
  addrs : List Netip.Addr
  port : ℕ
  network : Network
deriving DecidableEq, Repr

def DomainMatchKind.holds : DomainMatchKind → String → String → Bool
  | .exact, name, query => query = name
  | .suffix, name, query => Domain.under name.toList query.toList

namespace Flow

def named (f : Flow) (kind : DomainMatchKind) (name : String) : Bool :=
  f.domain.any (kind.holds name)

def within (schema : Schema) (f : Flow) (network : String) : Bool :=
  f.addrs.any fun a => (schema.parsePrefix network).any fun p => p.contains a

/-- The query for a name, which the domain fields of a match see. -/
def query (name : String) : Flow := ⟨some name, [], 0, .tcp⟩

end Flow

def RuleSetEntry.holds (schema : Schema) (f : Flow) : RuleSetEntry → Bool
  | .domain name kind => f.named kind name
  | .cidr network => f.within schema network

def PortRange.holds (f : Flow) (r : PortRange) : Bool := r.fromPort ≤ f.port && f.port ≤ r.toPort

/-- A field without entries asks for nothing; otherwise one entry has to hold. -/
def fieldHolds {α : Type} (entries : List α) (holds : α → Bool) : Bool :=
  entries.isEmpty || entries.any holds

section
variable (schema : Schema) (sets : ID → Option RuleSet)

def ruleSetHolds (f : Flow) (id : ID) : Bool :=
  (sets id).any fun s => s.entries.any (RuleSetEntry.holds schema f)

def RouteMatch.holds (f : Flow) (m : RouteMatch) : Bool :=
  fieldHolds m.domainExact (f.named .exact) && fieldHolds m.domainSuffix (f.named .suffix) &&
    fieldHolds m.ipCIDRs (f.within schema) && fieldHolds m.destinationPorts (PortRange.holds f) &&
    fieldHolds m.network (fun n => n = f.network) &&
    fieldHolds m.ruleSetIDs (ruleSetHolds schema sets f)

def RoutingProfile.select (p : RoutingProfile) (f : Flow) : TargetRef :=
  ((p.rules.find? fun r => r.enabled && r.routeMatch.holds schema sets f).map
    RoutingRule.action).getD p.final

def DomainMatch.route (m : DomainMatch) : RouteMatch :=
  ⟨m.domainExact, m.domainSuffix, m.ruleSetIDs, [], [], []⟩

def DNSProfile.select (p : DNSProfile) (name : String) : String :=
  ((p.rules.find? fun r =>
    r.enabled && r.domainMatch.route.holds schema sets (Flow.query name)).map
      DNSRule.resolverID).getD p.finalResolver

end

end ProxyLoom.IR
