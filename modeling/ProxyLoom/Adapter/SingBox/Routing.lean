import ProxyLoom.Adapter.SingBox.Emit
import ProxyLoom.Compiler.Tags

/-!
# Routing by sing-box

How a sing-box core runs the route rules of a document, and that the emitted rules send every flow
where the routing profile of the snapshot sends it.
-/

namespace ProxyLoom.Adapter

open IR Compiler List Except

/-! ## More addresses -/

section
variable {schema : Schema} {f : Flow} {addrs : List Netip.Addr}

theorem leaf_learn {kind : LeafKind} {value : String} (h : kind.holds schema f value = true) :
    kind.holds schema (learn f addrs) value = true := by
  cases kind with
  | ipCIDR =>
    have hany : (f.addrs ++ addrs).any (fun a =>
        (schema.parsePrefix value).any fun p => p.contains a) = true := by
      rw [any_append, Bool.or_eq_true]
      exact .inl h
    exact hany
  | domain | domainSuffix | port | network => exact h

theorem condition_learn {c : Condition} (h : c.holds schema f = true) :
    c.holds schema (learn f addrs) = true := by
  induction c with
  | leaf kind values =>
    rw [Condition.holds_leaf, any_eq_true] at h ⊢
    obtain ⟨value, hvalue, hholds⟩ := h
    exact ⟨value, hvalue, leaf_learn hholds⟩
  | node op terms ih =>
    cases op with
    | and =>
      rw [Condition.holds_and, all_eq_true] at h ⊢
      exact fun t ht => ih t ht (h t ht)
    | or =>
      rw [Condition.holds_or, any_eq_true] at h ⊢
      obtain ⟨t, ht, hholds⟩ := h
      exact ⟨t, ht, ih t ht hholds⟩

end

namespace SingBox

/-! ## Running rules -/

section
variable (schema : Schema) (f : Flow)

mutual

/-- A logical rule combines its sub-rules; of any other rule every populated field holds. -/
def RouteRule.holds : RouteRule → Bool
  | ⟨inbound, _, logical, rules, domain, domainSuffix, ipCIDR, portRange, network, _⟩ =>
    match logical with
    | some .and => allHold rules
    | some .or => anyHold rules
    | none =>
      fieldHolds inbound (fun tag => tag = inboundTag) && fieldHolds domain (f.named .exact) &&
        fieldHolds domainSuffix (f.named .suffix) && fieldHolds ipCIDR (f.within schema) &&
        fieldHolds portRange (fun value =>
          (Scan.range ':' value.toList).any fun (a, b) => a ≤ f.port && f.port ≤ b) &&
        fieldHolds network (fun value => value = f.network.text)

def allHold : List RouteRule → Bool
  | [] => true
  | r :: rules => r.holds && allHold rules

def anyHold : List RouteRule → Bool
  | [] => false
  | r :: rules => r.holds || anyHold rules

end

end

inductive Verdict where
  | outbound (tag : String)
  | reject
deriving DecidableEq, Repr

/-- The rules in order, where `resolved` are the addresses that resolving a flow adds. -/
def run (schema : Schema) (resolved : Flow → List Netip.Addr) :
    List RouteRule → Flow → Option Verdict
  | [], _ => none
  | r :: rules, f =>
    if r.holds schema f then
      match r.action with
      | .reject => some .reject
      | .route => some (.outbound r.outbound)
      | .resolve => run schema resolved rules (learn f (resolved f))
    else run schema resolved rules f

def Route.select (schema : Schema) (resolved : Flow → List Netip.Addr) (r : Route) (f : Flow) :
    Verdict :=
  (run schema resolved r.rules f).getD (.outbound r.final)

def verdict (tag : String) : Verdict := if tag = blockTag then .reject else .outbound tag

/-! ## Conditions -/

section
variable {schema : Schema} {f : Flow}

theorem allHold_eq {rules : List RouteRule} :
    allHold schema f rules = rules.all (RouteRule.holds schema f) := by
  induction rules with
  | nil => simp [allHold]
  | cons r rules ih => rw [allHold, ih, all_cons]

theorem anyHold_eq {rules : List RouteRule} :
    anyHold schema f rules = rules.any (RouteRule.holds schema f) := by
  induction rules with
  | nil => simp [anyHold]
  | cons r rules ih => rw [anyHold, ih, any_cons]

theorem nativeConditions_eq {terms : List Condition} :
    nativeConditions terms = terms.map nativeCondition := by
  induction terms with
  | nil => simp [nativeConditions]
  | cons t terms ih => rw [nativeConditions, ih, map_cons]

theorem holds_target (rule : RouteRule) (outbound : String) (action : Action) :
    RouteRule.holds schema f { rule with outbound, action } = rule.holds schema f := by
  obtain ⟨inbound, out, logical, rules, domain, domainSuffix, ipCIDR, portRange, network, act⟩ :=
    rule
  simp only [RouteRule.holds]

theorem not_mem_of_isInt {cs : List Char} (h : isInt cs = true) : ':' ∉ cs := by
  have hnumber : ∀ l : List Char, (Scan.number l).isSome = true → ':' ∉ l := by
    intro l hl hmem
    rw [Scan.number_of_mem hmem (by decide)] at hl
    cases hl
  unfold isInt at h
  split at h
  · simpa using hnumber _ h
  · simpa using hnumber _ h
  · exact hnumber _ h

theorem range_portRange (value : String) :
    Scan.range ':' (portRange value).toList = Scan.range ':' value.toList := by
  unfold portRange
  by_cases hint : isInt value.toList = true
  · have hcolon := not_mem_of_isInt hint
    have htext : (value ++ ":" ++ value).toList = value.toList ++ ':' :: value.toList := by simp
    rw [if_pos hint, htext]
    unfold Scan.range
    rw [Scan.cut_append hcolon, Scan.cut_of_not_mem hcolon]
    dsimp only
    cases Scan.number value.toList with
    | none => rfl
    | some n => rfl
  · rw [if_neg hint]

/-- A leaf without values holds of nothing, but a field without values is not populated. -/
theorem fieldHolds_eq_any {α : Type} {l : List α} {p : α → Bool} (h : l ≠ []) :
    fieldHolds l p = l.any p := by
  simp [fieldHolds, h]

theorem fieldHolds_nil {α : Type} {p : α → Bool} : fieldHolds [] p = true := rfl

theorem nativeLeaf_holds {kind : LeafKind} {values : List String} (h : values ≠ []) :
    (nativeCondition (.leaf kind values)).holds schema f = values.any (kind.holds schema f) := by
  cases kind with
  | domain | domainSuffix | ipCIDR | network =>
    simp only [nativeCondition, RouteRule.holds, fieldHolds_nil, fieldHolds_eq_any h,
      Bool.and_true, Bool.true_and]
    rfl
  | port =>
    have hmap : values.map portRange ≠ [] := by simpa using h
    simp only [nativeCondition, RouteRule.holds, fieldHolds_nil, fieldHolds_eq_any hmap,
      Bool.and_true, Bool.true_and, any_map, Function.comp_def, range_portRange]
    rfl

/-- **Conditions are kept.** -/
theorem nativeCondition_holds {c : Condition} (h : ValidCondition schema c) :
    (nativeCondition c).holds schema f = c.holds schema f := by
  induction h with
  | leaf hne _ => rw [nativeLeaf_holds hne, Condition.holds_leaf]
  | @node op terms hne _ ih =>
    cases op with
    | and =>
      rw [nativeCondition, RouteRule.holds, allHold_eq, nativeConditions_eq, all_map,
        Condition.holds_and]
      exact Slices.all_congr ih
    | or =>
      rw [nativeCondition, RouteRule.holds, anyHold_eq, nativeConditions_eq, any_map,
        Condition.holds_or]
      exact Slices.any_congr ih

theorem nativeCondition_action (c : Condition) : (nativeCondition c).action = .route := by
  cases c with
  | leaf kind values => cases kind <;> simp only [nativeCondition]
  | node op terms => simp only [nativeCondition]

end

/-! ## Rules -/

section
variable {schema : Schema} {resolved : Flow → List Netip.Addr} {input : EmitInput} {f : Flow}
  {rest : List RouteRule}

theorem run_targetRule {rule : RouteRule} {tag : String}
    (haction : rule.action = .route) (h : rule.holds schema f = true) :
    run schema resolved (targetRule input rule tag :: rest) f =
      some (verdict (input.resolvePolicyTag tag)) := by
  unfold targetRule verdict
  by_cases hblock : input.resolvePolicyTag tag = blockTag
  · rw [if_pos hblock, if_pos hblock, run, holds_target rule rule.outbound .reject, if_pos h]
  · rw [if_neg hblock, if_neg hblock, run, holds_target rule _ rule.action, if_pos h]
    simp only [haction]

/-- The rules of a target end in it if they match at all: what the resolve rule adds to the flow
cannot make the rule after it fail. -/
theorem run_targetRules {rule : RouteRule} {tag : String}
    (haction : rule.action = .route)
    (hmono : ∀ addrs, rule.holds schema f = true → rule.holds schema (learn f addrs) = true) :
    run schema resolved (targetRules input rule tag ++ rest) f =
      if rule.holds schema f then some (verdict (input.resolvePolicyTag tag))
      else run schema resolved rest f := by
  have htarget : ∀ rest, rule.holds schema f = false →
      run schema resolved (targetRule input rule tag :: rest) f = run schema resolved rest f := by
    intro rest h
    unfold targetRule
    dsimp only
    split_ifs
    · rw [run, holds_target rule rule.outbound .reject, h]
      rfl
    · rw [run, holds_target rule _ rule.action, h]
      rfl
  unfold targetRules
  rw [append_assoc, singleton_append]
  by_cases h : rule.holds schema f = true
  · rw [if_pos h]
    split_ifs
    · rw [singleton_append, run, holds_target rule rule.outbound .resolve, if_pos h]
      exact run_targetRule haction (hmono _ h)
    · rw [nil_append]
      exact run_targetRule haction h
  · rw [if_neg h, Bool.not_eq_true] at *
    split_ifs
    · rw [singleton_append, run, holds_target rule rule.outbound .resolve, h]
      exact htarget rest h
    · rw [nil_append]
      exact htarget rest h

theorem run_routeRules {r : RoutingInput} {rules : List Adapter.RouteRule}
    {blocks : List (List RouteRule)}
    (hvalid : ∀ rule ∈ rules, ValidCondition schema rule.condition)
    (h : List.Forall₂ (fun rule block => routeRules input r rule = .ok block) rules blocks) :
    run schema resolved (blocks.flatten ++ rest) f =
      ((rules.find? fun rule => rule.condition.holds schema f).map fun rule =>
        verdict (input.resolvePolicyTag rule.target)).or (run schema resolved rest f) := by
  induction h with
  | nil => rfl
  | @cons rule block rules blocks hrule _ ih =>
    obtain ⟨-, hblock⟩ := of_ite hrule
    obtain rfl := Except.ok.inj hblock
    have hholds := fun f => nativeCondition_holds (f := f) (hvalid rule mem_cons_self)
    rw [flatten_cons, append_assoc,
      run_targetRules (nativeCondition_action _) fun addrs h => by
        rw [hholds] at h ⊢
        exact condition_learn h,
      hholds, ih fun rule hmem => hvalid rule (mem_cons_of_mem _ hmem)]
    cases hc : rule.condition.holds schema f with
    | true => rw [List.find?_cons_of_pos (by simpa using hc)]; rfl
    | false => rw [List.find?_cons_of_neg (by simp [hc])]; rfl

theorem run_exitRules :
    run schema resolved (exitRules input) f =
      some (verdict (input.resolvePolicyTag (input.resolvePolicyTag input.exit))) := by
  have hall : ∀ f, RouteRule.holds schema f { inbound := [inboundTag] } = true := by
    intro f
    simp [RouteRule.holds, fieldHolds]
  have h := @run_targetRules schema resolved input f [] { inbound := [inboundTag] }
    (input.resolvePolicyTag input.exit) rfl fun addrs _ => hall (learn f addrs)
  rw [append_nil, if_pos (hall f)] at h
  exact h

theorem applyOrchestration_route {lib : Libraries} {doc doc' : Document}
    (h : applyOrchestration lib input doc = .ok doc') :
    ∃ blocks, profileRules input = .ok blocks ∧
      doc'.route.rules = blocks.flatten ++ exitRules input := by
  unfold applyOrchestration at h
  obtain ⟨selectors, -, h⟩ := of_bind h
  obtain ⟨blocks, hblocks, h⟩ := of_bind h
  refine ⟨blocks, hblocks, ?_⟩
  unfold applyDNS at h
  cases hdns : input.dns with
  | none =>
    rw [hdns] at h
    cases h
    rfl
  | some d =>
    rw [hdns] at h
    obtain ⟨dns, -, rfl⟩ := of_map h
    rfl

/-- **Routing is kept by sing-box.** A flow with any addresses that the core may resolve on the way
goes where the first enabled rule of the profile that holds of it sends it, and to the final target
if there is none. -/
theorem routing_preserved {c : Compiler} {lib : Libraries} {spec : FrozenInputSpec}
    {target : Target} {b : Base} {graph : Graph} {diags : List Diagnostic} {ref : FrozenRef}
    {r : Resource} {p : RoutingProfile} {doc doc' : Document}
    (hb : c.base spec target = .ok b) (hprepare : c.prepare spec target = .ok (graph, diags))
    (href : spec.routingProfile = some ref) (hr : spec.byID ref.resourceID = some r)
    (hp : r.payload = .routingProfile p)
    (happly : applyOrchestration lib graph.emitInput doc = .ok doc')
    (resolved : Flow → List Netip.Addr) (f : Flow) :
    doc'.route.select c.schema resolved f =
      verdict (graph.emitInput.resolvePolicyTag
        (b.resolve (p.select c.schema (Resources.ruleSet spec.byID) f))) := by
  have hprepared := prepare_prepared hb hprepare
  have hprofile := routingProfile_of_spec hb href hr hp
  obtain ⟨x, hx, -, -⟩ := base_expanded hb
  obtain ⟨rules, hcompiled, hrouting, -⟩ := hprepared.routing_eq hprofile
  have hvalid := valid_compiled hb
    (valid_routingRules (by simpa [hp, Payload.validate] using payload_valid hb hr)) hcompiled
  obtain ⟨blocks, hblocks, hroute⟩ := applyOrchestration_route happly
  unfold profileRules at hblocks
  rw [show graph.emitInput.routing = _ from hrouting] at hblocks
  have hselect := @select_eq_resolve b c.schema f c.digest x graph hx hprepared r p hprofile
  rw [base_ruleSet hb] at hselect
  rw [← hselect, Route.select, hroute, run_routeRules hvalid (mapM_eq_ok_iff.mp hblocks),
    run_exitRules, resolvePolicyTag_idem hx hprepared]
  unfold EmitInput.select firstTarget
  rw [show graph.emitInput.routing = _ from hrouting]
  simp only [Option.toList_some, flatMap_cons, flatMap_nil, append_nil]
  cases rules.find? fun rule => rule.condition.holds c.schema f with
  | none => rfl
  | some rule => rfl

/-- The rule of a small snapshot refuses its domain. -/
theorem routing_preserved_small :
    ∃ graph diags doc',
      (smallCompiler .singBox).prepare (smallSnapshot .singBox smallRouting smallDNS)
        (smallTarget .singBox) = .ok (graph, diags) ∧
      applyOrchestration hostnameLibraries graph.emitInput (initialDocument "" []) = .ok doc' ∧
      doc'.route.select hostnameSchema (fun _ => []) ⟨some "www.example.org", [], 443, .tcp⟩ =
        verdict (graph.emitInput.resolvePolicyTag blockTag) := by
  have hsome : ((smallCompiler .singBox).prepare (smallSnapshot .singBox smallRouting smallDNS)
      (smallTarget .singBox) >>= fun (graph, _) => applyOrchestration hostnameLibraries
        graph.emitInput (initialDocument "" [])).toOption.isSome = true := by decide
  obtain ⟨doc', hdoc⟩ := Option.isSome_iff_exists.mp hsome
  obtain ⟨⟨graph, diags⟩, hprepare, happly⟩ :=
    of_bind (eq_ok_of_toOption hdoc)
  obtain ⟨b, -, -, -, hb, -⟩ := prepare_eq_ok hprepare
  obtain ⟨ref, r, href, hr, hp⟩ := smallSnapshot_routing .singBox smallRouting smallDNS
  exact ⟨graph, diags, doc', hprepare, happly,
    routing_preserved hb hprepare href hr hp happly (fun _ => [])
      ⟨some "www.example.org", [], 443, .tcp⟩⟩

end

end SingBox

end ProxyLoom.Adapter
