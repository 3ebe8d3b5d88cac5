import ProxyLoom.Adapter.Xray.Emit
import ProxyLoom.Compiler.Tags

/-!
# Routing by Xray

How an Xray core runs the routing rules of a document, and that the emitted rules send every flow
where the routing profile of the snapshot sends it.
-/

namespace ProxyLoom.Adapter.Xray

open IR Compiler Domain List Except Option

/-! ## Running rules -/

section
variable (schema : Schema) (f : Flow)

def fieldTexts (text : String) : List (List Char) :=
  if text = "" then [] else Scan.split ',' text.toList

def portHolds (text : List Char) : Bool :=
  (Scan.range '-' text).any fun (a, b) => a ≤ f.port && f.port ≤ b

/-- A rule is for some of the inbounds, and every populated field of it holds. -/
def RoutingRule.holds (inbound : String) (r : RoutingRule) : Bool :=
  r.inboundTag.contains inbound &&
    fieldHolds r.domain (fun p => f.domain.any fun name => p.holds name.toList) &&
    fieldHolds r.ip (f.within schema) &&
    fieldHolds (fieldTexts r.port) (portHolds f) &&
    fieldHolds (fieldTexts r.network) (fun text => text = f.network.text.toList)

def RoutingRule.target (r : RoutingRule) : String :=
  if r.balancerTag = "" then r.outboundTag else r.balancerTag

/-- Where the first matching rule sends what comes in at an inbound. -/
def Routing.select (inbound : String) (r : Routing) : Option String :=
  (r.rules.find? (RoutingRule.holds schema f inbound)).map RoutingRule.target

def leafHolds (leaf : Leaf) : Bool := leaf.2.any (leaf.1.holds schema f)

end

theorem target_ruleTo (balancers : List Balancer) (inbound tag : String) :
    (ruleTo balancers inbound tag).target = tag := by
  unfold ruleTo RoutingRule.target
  by_cases hbalancer : (balancers.any fun b => b.tag = tag) = true
  · rw [if_pos hbalancer]
    dsimp only
    split_ifs with hempty
    · exact hempty.symm
    · rfl
  · rw [if_neg hbalancer]
    rfl

/-! ## Alternatives -/

variable {terms : List Condition} {values : List String}

section
variable {schema : Schema} {f : Flow}

def anyAlternative (schema : Schema) (f : Flow) (alternatives : List (List Leaf)) : Bool :=
  alternatives.any fun terms => terms.all (leafHolds schema f)

theorem anyAlternative_product (result branches : List (List Leaf)) :
    anyAlternative schema f (result.flatMap fun a => branches.map fun b => a ++ b) =
      (anyAlternative schema f result && anyAlternative schema f branches) := by
  unfold anyAlternative
  rw [Bool.eq_iff_iff, Bool.and_eq_true]
  simp only [List.any_eq_true, mem_flatMap, List.mem_map]
  constructor
  · rintro ⟨-, ⟨a, ha, b, hb, rfl⟩, hall⟩
    rw [all_append, Bool.and_eq_true] at hall
    exact ⟨⟨a, ha, hall.1⟩, b, hb, hall.2⟩
  · rintro ⟨⟨a, ha, halla⟩, b, hb, hallb⟩
    exact ⟨a ++ b, ⟨a, ha, b, hb, rfl⟩, by rw [all_append, halla, hallb]; rfl⟩

theorem distributeAny_holds
    (h : ∀ c ∈ terms, anyAlternative schema f (distribute c) = c.holds schema f) :
    anyAlternative schema f (distributeAny terms) = terms.any (Condition.holds schema f) := by
  induction terms with
  | nil => rw [distributeAny]; rfl
  | cons c terms ih =>
    have hsplit : anyAlternative schema f (distribute c ++ distributeAny terms) =
        (anyAlternative schema f (distribute c) ||
          anyAlternative schema f (distributeAny terms)) := any_append
    rw [distributeAny, hsplit, h c mem_cons_self,
      ih fun c' hc' => h c' (mem_cons_of_mem _ hc'), any_cons]

theorem distributeAll_holds {result : List (List Leaf)}
    (h : ∀ c ∈ terms, anyAlternative schema f (distribute c) = c.holds schema f) :
    anyAlternative schema f (distributeAll result terms) =
      (anyAlternative schema f result && terms.all (Condition.holds schema f)) := by
  induction terms generalizing result with
  | nil => rw [distributeAll, all_nil, Bool.and_true]
  | cons c terms ih =>
    rw [distributeAll, ih fun c' hc' => h c' (mem_cons_of_mem _ hc'),
      anyAlternative_product, h c mem_cons_self, all_cons, Bool.and_assoc]

/-- **Alternatives of a condition.** -/
theorem distribute_holds (c : Condition) :
    anyAlternative schema f (distribute c) = c.holds schema f := by
  induction c with
  | leaf kind values =>
    rw [distribute, Condition.holds_leaf]
    simp [anyAlternative, leafHolds]
  | node op terms ih =>
    cases op with
    | or => rw [distribute, distributeAny_holds ih, Condition.holds_or]
    | and =>
      rw [distribute, distributeAll_holds ih, Condition.holds_and]
      rfl

end

/-! ## Leaves of the alternatives -/

/-- What is asked of every leaf holds of the leaves of every alternative. -/
def EveryLeaf (P : Leaf → Prop) (alternatives : List (List Leaf)) : Prop :=
  ∀ terms ∈ alternatives, ∀ leaf ∈ terms, P leaf

/-- No alternative has more than `n` leaves of a kind. -/
def AtMost (kind : LeafKind) (n : ℕ) (alternatives : List (List Leaf)) : Prop :=
  ∀ terms ∈ alternatives, (terms.map Prod.fst).count kind ≤ n

theorem mem_distributeAny {branch : List Leaf} :
    branch ∈ distributeAny terms ↔ ∃ c ∈ terms, branch ∈ distribute c := by
  induction terms with
  | nil => simp [distributeAny]
  | cons c terms ih => rw [distributeAny, mem_append, ih, exists_mem_cons_iff]

section
variable {P : Leaf → Prop} {result branches : List (List Leaf)}

theorem EveryLeaf.product (ha : EveryLeaf P result) (hb : EveryLeaf P branches) :
    EveryLeaf P (result.flatMap fun a => branches.map fun b => a ++ b) := by
  intro terms hterms leaf hleaf
  obtain ⟨a, hmema, hterms⟩ := mem_flatMap.mp hterms
  obtain ⟨b, hmemb, rfl⟩ := List.mem_map.mp hterms
  obtain hleaf | hleaf := mem_append.mp hleaf
  · exact ha a hmema leaf hleaf
  · exact hb b hmemb leaf hleaf

theorem EveryLeaf.distributeAny (h : ∀ c ∈ terms, EveryLeaf P (distribute c)) :
    EveryLeaf P (distributeAny terms) := by
  intro branch hbranch
  obtain ⟨c, hc, hbranch⟩ := mem_distributeAny.mp hbranch
  exact h c hc branch hbranch

theorem EveryLeaf.distributeAll (hresult : EveryLeaf P result)
    (h : ∀ c ∈ terms, EveryLeaf P (distribute c)) : EveryLeaf P (distributeAll result terms) := by
  induction terms generalizing result with
  | nil => rwa [Xray.distributeAll]
  | cons c terms ih =>
    rw [Xray.distributeAll]
    exact ih (hresult.product (h c mem_cons_self))
      fun c' hc' => h c' (mem_cons_of_mem _ hc')

/-- A leaf with something in it, and values that have passed their checks. -/
def ValidLeaf (schema : Schema) (leaf : Leaf) : Prop :=
  leaf.2 ≠ [] ∧ ∀ value ∈ leaf.2, ValidValue schema leaf.1 value

theorem validLeaf_distribute {schema : Schema} {c : Condition} (h : ValidCondition schema c) :
    EveryLeaf (ValidLeaf schema) (distribute c) := by
  induction h with
  | @leaf kind values hne hvalues =>
    rw [distribute]
    intro terms hterms leaf hleaf
    obtain rfl := mem_singleton.mp hterms
    obtain rfl := mem_singleton.mp hleaf
    exact ⟨hne, hvalues⟩
  | @node op terms _ _ ih =>
    cases op with
    | or =>
      rw [distribute]
      exact .distributeAny ih
    | and =>
      rw [distribute]
      refine .distributeAll (fun terms hterms leaf hleaf => ?_) ih
      rw [mem_singleton.mp hterms] at hleaf
      cases hleaf

end

section
variable {kind : LeafKind} {n m : ℕ} {result branches : List (List Leaf)}

theorem AtMost.product (ha : AtMost kind n result) (hb : AtMost kind m branches) :
    AtMost kind (n + m) (result.flatMap fun a => branches.map fun b => a ++ b) := by
  intro terms hterms
  obtain ⟨a, hmema, hterms⟩ := mem_flatMap.mp hterms
  obtain ⟨b, hmemb, rfl⟩ := List.mem_map.mp hterms
  rw [map_append, count_append]
  exact Nat.add_le_add (ha a hmema) (hb b hmemb)

theorem distributeAll_append (result : List (List Leaf)) (a b : List Condition) :
    distributeAll result (a ++ b) = distributeAll (distributeAll result a) b := by
  induction a generalizing result with
  | nil => rw [nil_append, distributeAll]
  | cons c a ih => rw [cons_append, distributeAll, distributeAll, ih]

theorem distribute_conjunction (terms : List Condition) :
    distribute (conjunction terms) = distributeAll [[]] terms := by
  unfold conjunction
  split
  · simp [distributeAll]
  · rw [distribute]

theorem AtMost.leafTerm (h : AtMost kind n result) (kind' : LeafKind) (values : List String) :
    AtMost kind (n + if kind' = kind then 1 else 0)
      (distributeAll result (leafTerm kind' values)) := by
  unfold Compiler.leafTerm
  by_cases hvalues : values = []
  · rw [if_pos hvalues, distributeAll]
    exact fun terms hterms => (h terms hterms).trans (Nat.le_add_right _ _)
  · rw [if_neg hvalues, distributeAll, distributeAll, distribute]
    refine h.product fun terms hterms => ?_
    rw [mem_singleton.mp hterms, map_singleton, count_singleton]
    simp only [beq_iff_eq]
    exact le_rfl

theorem AtMost.distributeAny (h : ∀ c ∈ terms, AtMost kind n (distribute c)) :
    AtMost kind n (distributeAny terms) := by
  intro branch hbranch
  obtain ⟨c, hc, hbranch⟩ := mem_distributeAny.mp hbranch
  exact h c hc branch hbranch

theorem AtMost.setTerms {route : RouteMatch} {resources : Resources} {dns : Bool}
    {sets : List Condition} (hports : kind = .port ∨ kind = .network)
    (hsets : setTerms route resources dns = .ok sets) (h : AtMost kind n result) :
    AtMost kind n (distributeAll result sets) := by
  unfold Compiler.setTerms at hsets
  split_ifs at hsets
  · cases hsets
    rwa [distributeAll]
  · obtain ⟨lists, hlists, rfl⟩ := of_map hsets
    have hleaf : ∀ c ∈ lists.flatten, AtMost kind 0 (distribute c) := by
      intro c hc
      obtain ⟨terms, hterms, hc⟩ := mem_flatten.mp hc
      obtain ⟨id, -, hid⟩ := (mapM_eq_ok_iff.mp hlists).exists_left hterms
      unfold setConditions at hid
      split at hid
      · obtain ⟨entry, -, hentry⟩ := (mapM_eq_ok_iff.mp hid).exists_left hc
        have hshape : ∃ k v, c = .leaf k [v] ∧ k ≠ kind := by
          cases entry with
          | domain name kind =>
            cases kind with
            | exact | suffix =>
              cases hentry
              exact ⟨_, _, rfl, by obtain rfl | rfl := hports <;> decide⟩
          | cidr network =>
            obtain ⟨-, hok⟩ := of_ite hentry
            cases hok
            exact ⟨_, _, rfl, by obtain rfl | rfl := hports <;> decide⟩
        obtain ⟨k, v, rfl, hk⟩ := hshape
        rw [distribute]
        intro terms hterms
        rw [mem_singleton.mp hterms, map_singleton,
          count_eq_zero.mpr (by simpa using Ne.symm hk)]
      · cases hid
    rw [distributeAll, distributeAll, distribute]
    exact h.product (.distributeAny hleaf)

theorem atMost_one {route : RouteMatch} {resources : Resources} {dns : Bool} {c : Condition}
    (hkind : kind = .port ∨ kind = .network) (h : routeCondition route resources dns = .ok c) :
    AtMost kind 1 (distribute c) := by
  obtain ⟨sets, hsets, rfl⟩ := of_map h
  have hnil : AtMost kind 0 [[]] := by
    intro terms hterms
    rw [mem_singleton.mp hterms]
    exact le_rfl
  have hfields : AtMost kind 1 (distributeAll [[]] (fieldTerms route)) := by
    have hall := hnil.leafTerm .domain route.domainExact
      |>.leafTerm .domainSuffix route.domainSuffix
      |>.leafTerm .ipCIDR route.ipCIDRs
      |>.leafTerm .port (route.destinationPorts.map portText)
      |>.leafTerm .network (route.network.map Network.text)
    unfold fieldTerms
    simp only [distributeAll_append]
    obtain rfl | rfl := hkind
    · exact hall
    · exact hall
  rw [distribute_conjunction, distributeAll_append]
  exact hfields.setTerms hkind hsets

end

/-! ## Rules of the alternatives -/

theorem fieldHolds_eq_any {α : Type} {l : List α} {p : α → Bool} (h : l ≠ []) :
    fieldHolds l p = l.any p := by
  simp [fieldHolds, h]

theorem any_false {α : Type} (l : List α) : (l.any fun _ => false) = false := by
  rw [List.any_eq_false]
  exact fun _ _ => Bool.false_ne_true

def asksFor (f : Flow) (p : Pattern) : Bool := f.domain.any fun name => p.holds name.toList

section
variable {schema : Schema} {f : Flow} {inbound : String} {rule : RoutingRule}

theorem meet_asksFor (a b : List Pattern) :
    (patterns.meet a b).any (asksFor f) = (a.any (asksFor f) && b.any (asksFor f)) := by
  unfold asksFor
  cases f.domain with
  | none => simp only [any_none, any_false, Bool.and_false]
  | some name =>
    simp only [any_some]
    exact Laminar.any_meet (fun _ _ => trivial) fun _ _ => trivial

theorem meet_within (hf : f.addrs.length ≤ 1) {a b : List String}
    (ha : ∀ v ∈ a, (schema.parsePrefix v).isSome = true)
    (hb : ∀ v ∈ b, (schema.parsePrefix v).isSome = true) :
    ((networks schema).meet a b).any (f.within schema) =
      (a.any (f.within schema) && b.any (f.within schema)) := by
  unfold Flow.within
  match haddrs : f.addrs, hf with
  | [], _ => simp only [any_nil, any_false, Bool.and_false]
  | [x], _ =>
    simp only [any_cons, any_nil, Bool.or_false]
    exact Laminar.any_meet ha hb

/-- A field of a rule against the values that come in: the field keeps holding exactly of what both
hold of. -/
theorem fieldHolds_meet {α : Type} {field incoming out : List α} {p : α → Bool}
    (hfield : field ≠ []) (h : out.any p = (field.any p && incoming.any p)) (hout : out ≠ []) :
    fieldHolds out p = (fieldHolds field p && incoming.any p) := by
  rw [fieldHolds_eq_any hout, fieldHolds_eq_any hfield, h]

theorem addDomains_holds {incoming : List Pattern} (hne : incoming ≠ []) :
    (addDomains rule incoming).any (RoutingRule.holds schema f inbound) =
      (rule.holds schema f inbound && incoming.any (asksFor f)) := by
  have hmeet : (sortPatterns patternText (patterns.meet rule.domain incoming)).any (asksFor f) =
      (rule.domain.any (asksFor f) && incoming.any (asksFor f)) :=
    any_sortPatterns.trans (meet_asksFor _ _)
  unfold addDomains
  by_cases hdomain : rule.domain = []
  · rw [if_pos hdomain, any_some]
    unfold RoutingRule.holds
    rw [hdomain, fieldHolds_eq_any hne]
    simp only [fieldHolds, isEmpty_nil, Bool.true_or, Bool.and_true]
    change (_ && incoming.any (asksFor f) && _ && _ && _) = _
    ac_rfl
  · rw [if_neg hdomain]
    dsimp only
    split_ifs with hempty
    · rw [hempty, any_nil] at hmeet
      rw [any_none]
      unfold RoutingRule.holds
      rw [fieldHolds_eq_any hdomain]
      change false = (_ && rule.domain.any (asksFor f) && _ && _ && _ && incoming.any (asksFor f))
      cases hd : rule.domain.any (asksFor f) with
      | false => simp
      | true =>
        rw [hd, Bool.true_and] at hmeet
        rw [← hmeet, Bool.and_false]
    · have hfield := fieldHolds_meet hdomain hmeet hempty
      rw [any_some]
      unfold RoutingRule.holds
      change (_ && fieldHolds _ (asksFor f) && _ && _ && _) =
        (_ && fieldHolds _ (asksFor f) && _ && _ && _ && _)
      rw [hfield]
      ac_rfl

theorem addNetworks_holds (hf : f.addrs.length ≤ 1) {incoming : List String} (hne : incoming ≠ [])
    (hrule : ∀ v ∈ rule.ip, (schema.parsePrefix v).isSome = true)
    (hincoming : ∀ v ∈ incoming, (schema.parsePrefix v).isSome = true) :
    (addNetworks schema rule incoming).any (RoutingRule.holds schema f inbound) =
      (rule.holds schema f inbound && incoming.any (f.within schema)) := by
  have hmeet : (Slices.canonical ((networks schema).meet rule.ip incoming)).any (f.within schema) =
      (rule.ip.any (f.within schema) && incoming.any (f.within schema)) :=
    Slices.any_canonical.trans (meet_within hf hrule hincoming)
  unfold addNetworks
  by_cases hip : rule.ip = []
  · rw [if_pos hip, any_some]
    unfold RoutingRule.holds
    rw [hip, fieldHolds_eq_any hne]
    simp only [fieldHolds, isEmpty_nil, Bool.true_or, Bool.and_true]
    ac_rfl
  · rw [if_neg hip]
    dsimp only
    split_ifs with hempty
    · rw [hempty, any_nil] at hmeet
      rw [any_none]
      unfold RoutingRule.holds
      rw [fieldHolds_eq_any hip]
      cases hi : rule.ip.any (f.within schema) with
      | false => simp
      | true =>
        rw [hi, Bool.true_and] at hmeet
        rw [← hmeet, Bool.and_false]
    · have hfield := fieldHolds_meet hip hmeet hempty
      rw [any_some]
      unfold RoutingRule.holds
      rw [hfield]
      ac_rfl

end

/-! ## Ports and networks -/

theorem joinValues_ne_nil (hne : values ≠ []) (h : ∀ v ∈ values, v.toList ≠ []) :
    joinValues values ≠ [] := by
  unfold joinValues
  cases values with
  | nil => exact absurd rfl hne
  | cons v values =>
    have hv := h v mem_cons_self
    cases values with
    | nil => exact hv
    | cons next values =>
      rw [map_cons, map_cons, Scan.join]
      exact append_ne_nil_of_left_ne_nil hv _

theorem fieldTexts_join {values : List (List Char)} (hne : values ≠ [])
    (hempty : Scan.join ',' values ≠ []) (h : ∀ v ∈ values, ',' ∉ v) :
    fieldTexts (String.ofList (Scan.join ',' values)) = values := by
  have htext : String.ofList (Scan.join ',' values) ≠ "" := by
    intro heq
    exact hempty (by simpa using congrArg String.toList heq)
  rw [fieldTexts, if_neg htext, String.toList_ofList, Scan.split_join hne h]

section
variable {schema : Schema} {f : Flow} {inbound : String} {rule : RoutingRule}

theorem portText_ne_nil (r : PortRange) : (portText r).toList ≠ [] := by
  intro hnil
  have hrange := range_portText r
  rw [hnil] at hrange
  cases hrange

theorem fieldTexts_ports (hne : values ≠ []) (h : ∀ v ∈ values, ∃ r : PortRange, v = portText r) :
    fieldTexts (String.ofList (Scan.replace ':' '-' (joinValues values))) =
      values.map fun v => Scan.replace ':' '-' v.toList := by
  have hjoin : Scan.replace ':' '-' (joinValues values) =
      Scan.join ',' (values.map fun v => Scan.replace ':' '-' v.toList) := by
    rw [joinValues, Scan.replace_join (by decide), List.map_map]
    rfl
  have hnonempty : joinValues values ≠ [] := by
    refine joinValues_ne_nil hne fun v hv => ?_
    obtain ⟨r, rfl⟩ := h v hv
    exact portText_ne_nil r
  have hreplaced : Scan.join ',' (values.map fun v => Scan.replace ':' '-' v.toList) ≠ [] := by
    rw [← hjoin, Scan.replace, Ne, map_eq_nil_iff]
    exact hnonempty
  rw [hjoin]
  refine fieldTexts_join (by simpa using hne) hreplaced fun text htext hcomma => ?_
  obtain ⟨v, hv, rfl⟩ := List.mem_map.mp htext
  obtain ⟨r, rfl⟩ := h v hv
  obtain hdigit | hhyphen := portChars r ',' hcomma
  · exact absurd hdigit (by decide)
  · exact absurd hhyphen (by decide)

theorem fieldTexts_networks (hne : values ≠ []) (h : ∀ v ∈ values, ∃ n : Network, v = n.text) :
    fieldTexts (String.ofList (joinValues values)) = values.map String.toList := by
  refine fieldTexts_join (by simpa using hne) (joinValues_ne_nil hne fun v hv => ?_) ?_
  · obtain ⟨n, rfl⟩ := h v hv
    cases n <;> decide +kernel
  · intro text htext
    obtain ⟨v, hv, rfl⟩ := List.mem_map.mp htext
    obtain ⟨n, rfl⟩ := h v hv
    cases n <;> decide +kernel

theorem addPorts_holds (hne : values ≠ []) (h : ∀ v ∈ values, ∃ r : PortRange, v = portText r)
    (hport : rule.port = "") :
    RoutingRule.holds schema f inbound
        { rule with port := String.ofList (Scan.replace ':' '-' (joinValues values)) } =
      (rule.holds schema f inbound && values.any (LeafKind.holds schema f .port)) := by
  have hfield : fieldHolds (values.map fun v => Scan.replace ':' '-' v.toList) (portHolds f) =
      values.any (LeafKind.holds schema f .port) := by
    rw [fieldHolds_eq_any (by simpa using hne), List.any_map]
    refine Slices.any_congr fun v hv => ?_
    obtain ⟨r, rfl⟩ := h v hv
    simp only [Function.comp_apply, portHolds, range_replace, LeafKind.holds, range_portText]
  unfold RoutingRule.holds
  dsimp only
  rw [fieldTexts_ports hne h, hfield, hport]
  simp only [fieldTexts, if_true, fieldHolds, isEmpty_nil, Bool.true_or, Bool.and_true]
  ac_rfl

theorem addNetwork_holds (hne : values ≠ []) (h : ∀ v ∈ values, ∃ n : Network, v = n.text)
    (hnetwork : rule.network = "") :
    RoutingRule.holds schema f inbound
        { rule with network := String.ofList (joinValues values) } =
      (rule.holds schema f inbound && values.any (LeafKind.holds schema f .network)) := by
  have hfield : fieldHolds (values.map String.toList) (fun text => text = f.network.text.toList) =
      values.any (LeafKind.holds schema f .network) := by
    rw [fieldHolds_eq_any (by simpa using hne), List.any_map]
    refine Slices.any_congr fun v _ => ?_
    simp only [Function.comp_apply, LeafKind.holds, String.toList_inj]
  unfold RoutingRule.holds
  dsimp only
  rw [fieldTexts_networks hne h, hfield, hnetwork]
  simp only [fieldTexts, if_true, fieldHolds, isEmpty_nil, Bool.true_or, Bool.and_true]

/-! ## One alternative -/

/-- The fields of a rule that an alternative fills only once are still free. -/
structure Room (schema : Schema) (rule : RoutingRule) (terms : List Leaf) : Prop where
  leaves : ∀ leaf ∈ terms, ValidLeaf schema leaf
  ip : ∀ v ∈ rule.ip, (schema.parsePrefix v).isSome = true
  port : (rule.port = "" ∧ (terms.map Prod.fst).count .port ≤ 1) ∨
    (terms.map Prod.fst).count .port = 0
  network : (rule.network = "" ∧ (terms.map Prod.fst).count .network ≤ 1) ∨
    (terms.map Prod.fst).count .network = 0

theorem parsePrefix_of_canonical {value : String} (h : canonicalCIDR schema value = true) :
    (schema.parsePrefix value).isSome = true := by
  unfold canonicalCIDR at h
  obtain ⟨p, hp, -⟩ := (Option.any_eq_true _ _).mp (Bool.and_eq_true_iff.mp h).2
  rw [hp]
  rfl

theorem count_tail {field : String} {kind kind' : LeafKind} {kinds : List LeafKind}
    (h : (field = "" ∧ (kind' :: kinds).count kind ≤ 1) ∨ (kind' :: kinds).count kind = 0) :
    (field = "" ∧ kinds.count kind ≤ 1) ∨ kinds.count kind = 0 := by
  have hle : kinds.count kind ≤ (kind' :: kinds).count kind :=
    (sublist_cons_self _ _).count_le _
  obtain ⟨hfield, hcount⟩ | hcount := h
  · exact .inl ⟨hfield, hle.trans hcount⟩
  · exact .inr (Nat.le_zero.mp (hle.trans hcount.le))

theorem count_self {field : String} {kind : LeafKind} {kinds : List LeafKind}
    (h : (field = "" ∧ (kind :: kinds).count kind ≤ 1) ∨ (kind :: kinds).count kind = 0) :
    field = "" ∧ kinds.count kind = 0 := by
  rw [count_cons_self] at h
  obtain ⟨hfield, hcount⟩ | hcount := h
  · exact ⟨hfield, by omega⟩
  · omega

variable {leaf : Leaf} {terms : List Leaf} {rule' : RoutingRule}

/-- **One leaf.** The rule with the leaf holds where both hold; there is none if that is nowhere. -/
theorem addCondition_holds (hf : f.addrs.length ≤ 1) (h : Room schema rule (leaf :: terms)) :
    (addCondition schema rule leaf).any (RoutingRule.holds schema f inbound) =
      (rule.holds schema f inbound && leafHolds schema f leaf) := by
  obtain ⟨hne, hvalues⟩ := h.leaves leaf mem_cons_self
  obtain ⟨kind, values⟩ := leaf
  have hport := h.port
  have hnetwork := h.network
  simp only [map_cons] at hport hnetwork
  cases kind with
  | domain =>
    rw [addCondition, addDomains_holds (by simpa using hne), List.any_map]
    refine congrArg _ (Slices.any_congr fun v _ => ?_)
    simp only [Function.comp_apply, asksFor, Pattern.holds, String.toList_inj]
    rfl
  | domainSuffix =>
    rw [addCondition, addDomains_holds (by simpa using hne), List.any_map]
    refine congrArg _ (Slices.any_congr fun v _ => ?_)
    rfl
  | ipCIDR =>
    rw [addCondition,
      addNetworks_holds hf hne h.ip fun v hv => parsePrefix_of_canonical (hvalues v hv)]
    rfl
  | port => exact addPorts_holds hne hvalues (count_self hport).1
  | network => exact addNetwork_holds hne hvalues (count_self hnetwork).1

theorem addDomains_eq_some {incoming : List Pattern} (h : addDomains rule incoming = some rule') :
    ∃ domain, rule' = { rule with domain } := by
  unfold addDomains at h
  dsimp only at h
  split_ifs at h
  · exact ⟨_, (Option.some.inj h).symm⟩
  · exact ⟨_, (Option.some.inj h).symm⟩

theorem addNetworks_eq_some {incoming : List String}
    (hrule : ∀ v ∈ rule.ip, (schema.parsePrefix v).isSome = true)
    (hincoming : ∀ v ∈ incoming, (schema.parsePrefix v).isSome = true)
    (h : addNetworks schema rule incoming = some rule') :
    ∃ ip, rule' = { rule with ip } ∧ ∀ v ∈ ip, (schema.parsePrefix v).isSome = true := by
  unfold addNetworks at h
  dsimp only at h
  split_ifs at h
  · exact ⟨_, (Option.some.inj h).symm, hincoming⟩
  · refine ⟨_, (Option.some.inj h).symm, fun v hv => ?_⟩
    obtain hv | hv := Laminar.mem_of_mem_meet (Slices.mem_canonical.mp hv)
    · exact hrule v hv
    · exact hincoming v hv

theorem addCondition_room (h : Room schema rule (leaf :: terms))
    (hadd : addCondition schema rule leaf = some rule') :
    Room schema rule' terms ∧ rule'.target = rule.target := by
  obtain ⟨hne, hvalues⟩ := h.leaves leaf mem_cons_self
  have hleaves : ∀ leaf ∈ terms, ValidLeaf schema leaf :=
    fun leaf hleaf => h.leaves leaf (mem_cons_of_mem _ hleaf)
  obtain ⟨kind, values⟩ := leaf
  have hport := h.port
  have hnetwork := h.network
  simp only [map_cons] at hport hnetwork
  cases kind with
  | domain | domainSuffix =>
    obtain ⟨domain, rfl⟩ := addDomains_eq_some hadd
    exact ⟨⟨hleaves, h.ip, count_tail hport, count_tail hnetwork⟩, rfl⟩
  | ipCIDR =>
    obtain ⟨ip, rfl, hip⟩ := addNetworks_eq_some h.ip
      (fun v hv => parsePrefix_of_canonical (hvalues v hv)) hadd
    exact ⟨⟨hleaves, hip, count_tail hport, count_tail hnetwork⟩, rfl⟩
  | port =>
    cases hadd
    exact ⟨⟨hleaves, h.ip, .inr (count_self hport).2, count_tail hnetwork⟩, rfl⟩
  | network =>
    cases hadd
    exact ⟨⟨hleaves, h.ip, count_tail hport, .inr (count_self hnetwork).2⟩, rfl⟩

/-- **One alternative.** -/
theorem addConditions_holds (hf : f.addrs.length ≤ 1) (h : Room schema rule terms) :
    (terms.foldlM (addCondition schema) rule).any (RoutingRule.holds schema f inbound) =
      (rule.holds schema f inbound && terms.all (leafHolds schema f)) := by
  induction terms generalizing rule with
  | nil =>
    rw [foldlM_nil, all_nil, Bool.and_true]
    rfl
  | cons leaf terms ih =>
    have hstep : (addCondition schema rule leaf).any (RoutingRule.holds schema f inbound) = _ :=
      addCondition_holds hf h
    rw [foldlM_cons, all_cons, ← Bool.and_assoc, ← hstep]
    cases hadd : addCondition schema rule leaf with
    | none => rfl
    | some next => exact ih (addCondition_room h hadd).1

theorem target_addConditions (h : Room schema rule terms)
    (hadd : terms.foldlM (addCondition schema) rule = some rule') : rule'.target = rule.target := by
  induction terms generalizing rule with
  | nil =>
    cases hadd
    rfl
  | cons leaf terms ih =>
    rw [foldlM_cons] at hadd
    obtain ⟨next, hnext, hadd⟩ := bind_eq_some_iff.mp hadd
    obtain ⟨hroom, htarget⟩ := addCondition_room h hnext
    exact (ih hroom hadd).trans htarget

end

/-! ## Rules of a document -/

section
variable {schema : Schema} {f : Flow} {input : EmitInput} {balancers : List Balancer}
  {rule : RouteRule} {lib : Libraries}

theorem holds_ruleTo {inbound inbound' tag : String} :
    (ruleTo balancers inbound' tag).holds schema f inbound = decide (inbound = inbound') := by
  have hcontains : [inbound'].contains inbound = decide (inbound = inbound') := by simp
  unfold ruleTo
  split_ifs
  · simp only [RoutingRule.holds, fieldTexts, fieldHolds, if_true, isEmpty_nil, Bool.true_or,
      Bool.and_true, hcontains]
  · simp only [RoutingRule.holds, fieldTexts, fieldHolds, if_true, isEmpty_nil, Bool.true_or,
      Bool.and_true, hcontains]

structure Flat (schema : Schema) (rule : RouteRule) : Prop where
  valid : ValidCondition schema rule.condition
  port : AtMost .port 1 (distribute rule.condition)
  network : AtMost .network 1 (distribute rule.condition)

theorem room_targetRule {tag : String} (h : Flat schema rule)
    {terms : List Leaf} (hterms : terms ∈ distribute rule.condition) :
    Room schema (targetRule input balancers tag) terms := by
  have hfields : (targetRule input balancers tag).ip = [] ∧
      (targetRule input balancers tag).port = "" ∧
      (targetRule input balancers tag).network = "" := by
    unfold targetRule ruleTo
    split_ifs <;> exact ⟨rfl, rfl, rfl⟩
  obtain ⟨hip, hp, hn⟩ := hfields
  refine ⟨validLeaf_distribute h.valid terms hterms, ?_, .inl ⟨hp, h.port terms hterms⟩,
    .inl ⟨hn, h.network terms hterms⟩⟩
  rw [hip]
  exact fun v hv => nomatch hv

theorem any_routeRules (hf : f.addrs.length ≤ 1) (h : Flat schema rule) :
    (routeRules input schema balancers rule).any (RoutingRule.holds schema f inboundTag) =
      rule.condition.holds schema f := by
  rw [← distribute_holds rule.condition]
  unfold routeRules anyAlternative
  rw [Bool.eq_iff_iff]
  simp only [List.any_eq_true, mem_filterMap]
  have halternative : ∀ terms ∈ distribute rule.condition,
      (terms.foldlM (addCondition schema) (targetRule input balancers rule.target)).any
        (RoutingRule.holds schema f inboundTag) = terms.all (leafHolds schema f) := by
    intro terms hterms
    rw [addConditions_holds hf (room_targetRule h hterms), targetRule,
      holds_ruleTo, decide_eq_true rfl, Bool.true_and]
  constructor
  · rintro ⟨r, ⟨terms, hterms, hr⟩, hholds⟩
    refine ⟨terms, hterms, ?_⟩
    rw [← halternative terms hterms, hr, any_some, hholds]
  · rintro ⟨terms, hterms, hall⟩
    rw [← halternative terms hterms] at hall
    obtain ⟨r, hr, hholds⟩ := (Option.any_eq_true _ _).mp hall
    exact ⟨r, ⟨terms, hterms, hr⟩, hholds⟩

theorem target_routeRules (h : Flat schema rule)
    {r : RoutingRule} (hr : r ∈ routeRules input schema balancers rule) :
    r.target = input.resolvePolicyTag rule.target := by
  obtain ⟨terms, hterms, hr⟩ := mem_filterMap.mp hr
  rw [target_addConditions (room_targetRule h hterms) hr]
  exact target_ruleTo _ _ _

/-- The rules of a document select the first matching target. -/
theorem find_profileRules (hf : f.addrs.length ≤ 1) {rules : List RouteRule}
    {rest : List RoutingRule} (h : ∀ rule ∈ rules, Flat schema rule) :
    ((rules.flatMap (routeRules input schema balancers) ++ rest).find?
        (RoutingRule.holds schema f inboundTag)).map RoutingRule.target =
      ((rules.find? fun rule => rule.condition.holds schema f).map fun rule =>
        input.resolvePolicyTag rule.target).or
        ((rest.find? (RoutingRule.holds schema f inboundTag)).map RoutingRule.target) := by
  induction rules with
  | nil => rfl
  | cons rule rules ih =>
    have hrule := h rule mem_cons_self
    have hany : (routeRules input schema balancers rule).any
        (RoutingRule.holds schema f inboundTag) = rule.condition.holds schema f :=
      any_routeRules hf hrule
    rw [flatMap_cons, append_assoc, List.find?_append]
    cases hc : rule.condition.holds schema f with
    | true =>
      rw [hc] at hany
      obtain ⟨r, hr⟩ :=
        isSome_iff_exists.mp (List.find?_isSome.mpr (List.any_eq_true.mp hany))
      rw [hr, List.find?_cons_of_pos (by simpa using hc)]
      exact congrArg some (target_routeRules hrule (mem_of_find?_eq_some hr))
    | false =>
      rw [hc] at hany
      have hnone : (routeRules input schema balancers rule).find?
          (RoutingRule.holds schema f inboundTag) = none := by
        rw [List.find?_eq_none]
        exact List.any_eq_false.mp hany
      rw [hnone, none_or, ih fun r hr => h r (mem_cons_of_mem _ hr),
        List.find?_cons_of_neg (by simp [hc])]

theorem dnsServer_tag {d : DNSInput} {entry : DNSResolver × ℕ} {server : DNSServer}
    (h : dnsServer lib input d entry = .ok server) :
    server.tag = "" ∨ server.tag = "dns_resolver_" ++ toString entry.2 := by
  unfold dnsServer at h
  dsimp only at h
  split at h
  · cases h
    exact .inl rfl
  · obtain ⟨-, h⟩ := of_ite h
    cases h
    exact .inr rfl
  · obtain ⟨-, h⟩ := of_ite h
    unfold httpsServer at h
    split at h
    · cases h
    · split_ifs at h
      · cases h
        exact .inr rfl
      · cases h
        exact .inl rfl

theorem resolver_ne_inbound (i : ℕ) : inboundTag ≠ "dns_resolver_" ++ toString i := by
  intro heq
  have hlists := congrArg String.toList heq
  rw [String.toList_append] at hlists
  have hhead : 'i' = 'd' := congrArg (fun l => l.headD 'd') hlists
  exact absurd hhead (by decide)

theorem holds_dnsRoutes {d : DNSInput} {entries : List (DNSResolver × ℕ)}
    {resolvers : List Resolver} (h : entries.mapM (resolver lib input d) = .ok resolvers)
    {r : RoutingRule} (hr : r ∈ dnsRoutes input balancers d resolvers) :
    r.holds schema f inboundTag = false := by
  obtain ⟨res, hres, rfl⟩ := List.mem_map.mp hr
  obtain ⟨hres, htag⟩ := mem_filter.mp hres
  obtain ⟨entry, -, hentry⟩ := (mapM_eq_ok_iff.mp h).exists_left hres
  obtain ⟨server, hserver, rfl⟩ := of_map hentry
  rw [holds_ruleTo, decide_eq_false_iff_not]
  intro heq
  obtain hempty | hdns := dnsServer_tag hserver
  · rw [hempty] at htag
    exact absurd htag (by decide)
  · exact resolver_ne_inbound _ (heq.trans hdns)

/-- The rules that orchestration leaves in a document: some for other inbounds, then those of the
profile and of the exit. -/
theorem applyOrchestration_routing {doc doc' : Document}
    (h : applyOrchestration lib input schema doc = .ok doc') :
    ∃ balancers routes, (∀ r ∈ routes, ∀ f, r.holds schema f inboundTag = false) ∧
      doc'.routing.rules = routes ++ (profileRules input schema balancers ++
        [targetRule input balancers input.exit]) := by
  unfold applyOrchestration at h
  dsimp only at h
  split at h
  · cases h
  · obtain ⟨groups, -, h⟩ := of_bind h
    refine ⟨groups.flatMap Option.toList, ?_⟩
    unfold applyDNS at h
    cases hdns : input.dns with
    | none =>
      rw [hdns] at h
      cases h
      exact ⟨[], fun r hr => (nomatch hr), rfl⟩
    | some d =>
      rw [hdns] at h
      obtain ⟨⟨servers, routes⟩, hconfig, rfl⟩ := of_map h
      refine ⟨routes, ?_, rfl⟩
      unfold dnsConfig at hconfig
      obtain ⟨refs, -, hconfig⟩ := of_bind hconfig
      obtain ⟨-, hconfig⟩ := of_ite hconfig
      obtain ⟨resolvers, hresolvers, hconfig⟩ := of_bind hconfig
      split at hconfig
      · cases hconfig
      · obtain ⟨-, hconfig⟩ := of_ite hconfig
        obtain ⟨st, -, hconfig⟩ := of_bind hconfig
        cases hconfig
        exact fun r hr f => holds_dnsRoutes hresolvers hr

/-- **Routing is kept by Xray.** A flow with at most one address goes where the first enabled rule
of the profile that holds of it sends it, and to the final target if there is none. -/
theorem xray_routing_preserved {c : Compiler} {lib : Libraries} {spec : FrozenInputSpec}
    {target : Target} {b : Base} {graph : Graph} {diags : List Diagnostic} {ref : FrozenRef}
    {r : Resource} {p : RoutingProfile} {doc doc' : Document}
    (hb : c.base spec target = .ok b) (hprepare : c.prepare spec target = .ok (graph, diags))
    (href : spec.routingProfile = some ref) (hr : spec.byID ref.resourceID = some r)
    (hp : r.payload = .routingProfile p)
    (happly : applyOrchestration lib graph.emitInput c.schema doc = .ok doc')
    {f : Flow} (hf : f.addrs.length ≤ 1) :
    doc'.routing.select c.schema f inboundTag =
      some (graph.emitInput.resolvePolicyTag
        (b.resolve (p.select c.schema (Resources.ruleSet spec.byID) f))) := by
  have hprepared := prepare_prepared hb hprepare
  have hprofile := routingProfile_of_spec hb href hr hp
  obtain ⟨x, hx, -, -⟩ := base_expanded hb
  obtain ⟨rules, hcompiled, hrouting, -⟩ := hprepared.routing_eq hprofile
  have hvalid := valid_compiled hb
    (valid_routingRules (by simpa [hp, Payload.validate] using payload_valid hb hr)) hcompiled
  have hflat : ∀ rule ∈ rules, Flat c.schema rule := by
    intro rule hrule
    obtain ⟨entry, -, hentry⟩ := hcompiled.exists_left hrule
    exact ⟨hvalid rule hrule, atMost_one (.inl rfl) hentry.condition,
      atMost_one (.inr rfl) hentry.condition⟩
  obtain ⟨balancers, routes, hroutes, hdoc⟩ := applyOrchestration_routing happly
  have hselect := @select_eq_resolve b c.schema f c.digest x graph hx hprepared r p hprofile
  rw [base_ruleSet hb] at hselect
  have hskip : routes.find? (RoutingRule.holds c.schema f inboundTag) = none :=
    List.find?_eq_none.mpr fun r hr hholds => by
      rw [hroutes r hr f] at hholds
      cases hholds
  have hexit : (targetRule graph.emitInput balancers graph.emitInput.exit).holds c.schema f
      inboundTag = true := by
    rw [targetRule, holds_ruleTo, decide_eq_true rfl]
  have hrules : profileRules graph.emitInput c.schema balancers =
      rules.flatMap (routeRules graph.emitInput c.schema balancers) := by
    unfold profileRules
    rw [show graph.emitInput.routing = _ from hrouting]
    simp only [toList_some, flatMap_cons, flatMap_nil, append_nil]
  rw [← hselect, Routing.select, hdoc, List.find?_append, hskip, none_or, hrules,
    find_profileRules hf hflat, List.find?_cons_of_pos hexit, map_some, targetRule,
    target_ruleTo]
  unfold EmitInput.select firstTarget
  rw [show graph.emitInput.routing = _ from hrouting]
  simp only [toList_some, flatMap_cons, flatMap_nil, append_nil]
  cases rules.find? fun rule => rule.condition.holds c.schema f with
  | none => rfl
  | some rule => rfl

/-- The rule of a small snapshot refuses its domain. -/
theorem xray_routing_preserved_small :
    ∃ graph diags doc',
      (smallCompiler .xray).prepare (smallSnapshot .xray smallRouting smallDNS)
        (smallTarget .xray) = .ok (graph, diags) ∧
      applyOrchestration hostnameLibraries graph.emitInput hostnameSchema
        (initialDocument "" []) = .ok doc' ∧
      doc'.routing.select hostnameSchema ⟨some "www.example.org", [], 443, .tcp⟩ inboundTag =
        some (graph.emitInput.resolvePolicyTag blockTag) := by
  have hsome : ((smallCompiler .xray).prepare (smallSnapshot .xray smallRouting smallDNS)
      (smallTarget .xray) >>= fun (graph, _) => applyOrchestration hostnameLibraries
        graph.emitInput hostnameSchema (initialDocument "" [])).toOption.isSome = true := by
    decide +kernel
  obtain ⟨doc', hdoc⟩ := isSome_iff_exists.mp hsome
  obtain ⟨⟨graph, diags⟩, hprepare, happly⟩ :=
    of_bind (eq_ok_of_toOption hdoc)
  obtain ⟨b, -, -, -, hb, -⟩ := prepare_eq_ok hprepare
  obtain ⟨ref, r, href, hr, hp⟩ := smallSnapshot_routing .xray smallRouting smallDNS
  exact ⟨graph, diags, doc', hprepare, happly,
    xray_routing_preserved hb hprepare href hr hp happly (Nat.zero_le _)⟩

end

end ProxyLoom.Adapter.Xray
