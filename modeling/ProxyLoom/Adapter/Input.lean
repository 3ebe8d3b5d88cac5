import ProxyLoom.IR.Closure
import ProxyLoom.IR.Meaning

/-!
# The input of the emitters

The expanded graph that each family's emitter gets: outbounds, chains, policy groups, and the
conditions of the routing and DNS rules as trees over texts. `Condition.holds` is what such a tree
says of a flow.
-/

namespace ProxyLoom.Adapter

open IR

def maxOutbounds : ℕ := 2000

def maxRules : ℕ := 20000

def inboundTag : String := "in"

def blockTag : String := "block"

def directTag : String := "direct"

def loopbackAddr : String := "127.0.0.1"

/-! ## Conditions -/

inductive LeafKind where
  | domain | domainSuffix | ipCIDR | port | network
deriving DecidableEq, Repr

inductive Connective where
  | and | or
deriving DecidableEq, Repr

/-- A leaf is an OR over its values; a rule set is an OR whose entries may mix domains and
networks. -/
inductive Condition where
  | leaf (kind : LeafKind) (values : List String)
  | node (op : Connective) (terms : List Condition)
deriving Repr

namespace Condition

@[elab_as_elim, induction_eliminator]
theorem ind {P : Condition → Prop} (leaf : ∀ kind values, P (.leaf kind values))
    (node : ∀ op terms, (∀ t ∈ terms, P t) → P (.node op terms)) (c : Condition) : P c := by
  refine @Condition.rec P (fun terms => ∀ t ∈ terms, P t) leaf node ?_ ?_ c
  · intro t ht
    cases ht
  · intro t terms ht hterms s hs
    obtain rfl | hs := List.mem_cons.mp hs
    · exact ht
    · exact hterms s hs

end Condition

section
variable (schema : Schema) (f : Flow)

/-- What one value of a leaf says. A port is `a` or `a:b`. -/
def LeafKind.holds : LeafKind → String → Bool
  | .domain, value => f.named .exact value
  | .domainSuffix, value => f.named .suffix value
  | .ipCIDR, value => f.within schema value
  | .port, value => (Scan.range ':' value.toList).any fun (a, b) => a ≤ f.port && f.port ≤ b
  | .network, value => value = f.network.text

mutual

def Condition.holds : Condition → Bool
  | .leaf kind values => values.any (kind.holds schema f)
  | .node .and terms => Condition.allHold terms
  | .node .or terms => Condition.anyHold terms

def Condition.allHold : List Condition → Bool
  | [] => true
  | t :: terms => t.holds && Condition.allHold terms

def Condition.anyHold : List Condition → Bool
  | [] => false
  | t :: terms => t.holds || Condition.anyHold terms

end

end

namespace Condition

variable {schema : Schema} {f : Flow} {terms : List Condition}

theorem allHold_eq : allHold schema f terms = terms.all (holds schema f) := by
  induction terms with
  | nil => simp [allHold]
  | cons t terms ih => rw [allHold, ih, List.all_cons]

theorem anyHold_eq : anyHold schema f terms = terms.any (holds schema f) := by
  induction terms with
  | nil => simp [anyHold]
  | cons t terms ih => rw [anyHold, ih, List.any_cons]

theorem holds_leaf {kind : LeafKind} {values : List String} :
    holds schema f (.leaf kind values) = values.any (kind.holds schema f) := by
  rw [holds]

theorem holds_and : holds schema f (.node .and terms) = terms.all (holds schema f) := by
  rw [holds, allHold_eq]

theorem holds_or : holds schema f (.node .or terms) = terms.any (holds schema f) := by
  rw [holds, anyHold_eq]

end Condition

def learn (f : Flow) (addrs : List Netip.Addr) : Flow := { f with addrs := f.addrs ++ addrs }

/-! ## The input -/

structure IndependentOutbound where
  tag : String
  resource : Resource
deriving DecidableEq, Repr

/-- A hop that is not in the snapshot is `none`. -/
structure ChainInstance where
  resourceID : ID
  revision : ℕ
  tagH1 : String
  tagH2 : String
  hop1 : Option Resource
  hop2 : Option Resource
deriving DecidableEq, Repr

/-- A policy group over tags. -/
structure PolicyInstance where
  tag : String
  resourceID : ID
  strategy : PolicyStrategy
  members : List String
  default : String
  health : PolicyHealthCheck
deriving DecidableEq, Repr

/-- A compiled rule. -/
structure RouteRule where
  condition : Condition
  target : String
  fieldPath : String
deriving Repr

structure RoutingInput where
  resourceID : ID
  mode : DomainResolutionMode
  rules : List RouteRule
deriving Repr

structure DNSInput where
  resourceID : ID
  profile : DNSProfile
  outboundTags : List (String × String)
  rules : List RouteRule
deriving Repr

/-- The input of an emitter. -/
structure EmitInput where
  snapshotID : ID
  targetKey : String
  independents : List IndependentOutbound
  chains : List ChainInstance
  policies : List PolicyInstance
  finalTag : String
  routing : Option RoutingInput
  dns : Option DNSInput
  preset : Option ClientPreset
deriving Repr

def compileIssue (code : DiagnosticCode) (path targetKey : String) (resource : ID) : Diagnostic :=
  ⟨code, .error, resource, path, targetKey, code.message, ""⟩

def setKey {α β : Type} [DecidableEq α] (m : List (α × β)) (key : α) (value : β) : List (α × β) :=
  m.filter (fun entry => entry.1 ≠ key) ++ [(key, value)]

def lookup {α β : Type} [DecidableEq α] (m : List (α × β)) (key : α) : Option β :=
  (m.find? fun entry => entry.1 = key).map Prod.snd

/-- The tag of a resolver's outbound, empty if it has none. -/
def DNSInput.tagOf (d : DNSInput) (resolverID : String) : String :=
  (lookup d.outboundTags resolverID).getD ""

def lowerChar (c : Char) : Char :=
  if Text.isUpper c then Char.ofNat (c.toNat + 32) else c

def toLower (s : String) : String := String.ofList (s.toList.map lowerChar)

/-- Tags that the cores use themselves. -/
def isReservedTag (tag : String) : Bool :=
  ["in", "block", "direct", "reject", "global", "compatible", "pass", "dns-out"].contains
    (toLower tag)

namespace EmitInput

variable (input : EmitInput)

/-- Where the traffic goes that no rule matches. -/
def exitTag : Except (List Diagnostic) String :=
  if input.finalTag ≠ "" then .ok input.finalTag
  else
    match input.policies, input.chains, input.independents with
    | p :: _, _, _ => .ok p.tag
    | [], c :: _, _ => .ok c.tagH2
    | [], [], o :: _ => .ok o.tag
    | [], [], [] => .error [compileIssue .invalidSnapshot "/members" input.targetKey ""]

/-- The exit with the empty tag in place of an error. -/
def exit : String :=
  match input.exitTag with
  | .ok tag => tag
  | .error _ => ""

def usesTag (tag : String) : Bool :=
  input.exit = tag ||
    input.policies.any (fun p => p.members.contains tag) ||
    input.routing.any (fun r => r.rules.any fun rule => rule.target = tag) ||
    input.dns.any fun d => d.outboundTags.any fun entry => entry.2 = tag

/-- A fixed policy group stands for its default member. -/
def resolvePolicyTag (tag : String) : String :=
  match input.policies.find? fun p => p.tag = tag && p.strategy = .fixed with
  | some p => p.default
  | none => tag

def listener (protocol : ListenerProtocol) (port : ℕ) : LocalListener :=
  match input.preset with
  | some p => p.localListener
  | none => ⟨protocol, loopbackAddr, port⟩

/-- The limits on the emitted document. -/
def checkNativeCounts (outbounds rules : ℕ) : Except (List Diagnostic) Unit :=
  if maxOutbounds < outbounds then
    .error [compileIssue .inputLimitExceeded "/outbounds" input.targetKey ""]
  else if maxRules < rules then
    .error [compileIssue .inputLimitExceeded "/rules" input.targetKey ""]
  else .ok ()

end EmitInput

end ProxyLoom.Adapter
