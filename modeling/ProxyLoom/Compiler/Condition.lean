import ProxyLoom.Adapter.Input

/-!
# Rules as conditions

The compiler turns the match of a rule into one condition: an AND of one leaf for each populated
field and of one OR over the entries of all its rule sets. `routeCondition_holds`: the condition
holds of the flows that the match holds of. `routeCondition_valid`: the condition of a valid match
has no empty part, and its values have passed the checks of their fields.
-/

namespace ProxyLoom.Compiler

open IR Adapter List Except

/-- The resources of a snapshot by ID, as one target sees them. -/
abbrev Resources := ID → Option Resource

def Resources.ruleSet (resources : Resources) (id : ID) : Option RuleSet :=
  match (resources id).map Resource.payload with
  | some (.ruleSet s) => some s
  | _ => none

/-- A field without entries adds no term. -/
def leafTerm (kind : LeafKind) (values : List String) : List Condition :=
  if values = [] then [] else [.leaf kind values]

def portText (r : PortRange) : String :=
  if r.toPort ≠ r.fromPort then toString r.fromPort ++ ":" ++ toString r.toPort
  else toString r.fromPort

/-- The leaf of a rule set entry. A DNS rule has no addresses to match. -/
def entryCondition (dns : Bool) (id : ID) : RuleSetEntry → Except (List Diagnostic) Condition
  | .domain name .exact => .ok (.leaf .domain [name])
  | .domain name .suffix => .ok (.leaf .domainSuffix [name])
  | .cidr network =>
    if dns then .error [compileIssue .compileUnmappedField "" "" id]
    else .ok (.leaf .ipCIDR [network])

def setConditions (resources : Resources) (dns : Bool) (id : ID) :
    Except (List Diagnostic) (List Condition) :=
  match resources.ruleSet id with
  | some s => s.entries.mapM (entryCondition dns id)
  | none => .error [compileIssue .referenceMissing "" "" id]

def fieldTerms (m : RouteMatch) : List Condition :=
  leafTerm .domain m.domainExact ++ leafTerm .domainSuffix m.domainSuffix ++
    leafTerm .ipCIDR m.ipCIDRs ++ leafTerm .port (m.destinationPorts.map portText) ++
    leafTerm .network (m.network.map Network.text)

def setTerms (m : RouteMatch) (resources : Resources) (dns : Bool) :
    Except (List Diagnostic) (List Condition) :=
  if m.ruleSetIDs = [] then .ok []
  else (m.ruleSetIDs.mapM (setConditions resources dns)).map fun sets => [.node .or sets.flatten]

def conjunction : List Condition → Condition
  | [term] => term
  | terms => .node .and terms

def routeCondition (m : RouteMatch) (resources : Resources) (dns : Bool) :
    Except (List Diagnostic) Condition :=
  (setTerms m resources dns).map fun sets => conjunction (fieldTerms m ++ sets)

/-! ## Texts -/

theorem range_portText (r : PortRange) :
    Scan.range ':' (portText r).toList = some (r.fromPort, r.toPort) := by
  unfold portText
  by_cases h : r.toPort = r.fromPort
  · rw [if_neg (not_not.mpr h), h]
    exact Scan.range_single rfl r.fromPort
  · rw [if_pos h]
    have htext : (toString r.fromPort ++ ":" ++ toString r.toPort).toList =
        Scan.digits r.fromPort ++ ':' :: Scan.digits r.toPort := by
      simp [Scan.digits]
    rw [htext]
    exact Scan.range_pair rfl _ _

theorem range_replace (r : PortRange) :
    Scan.range '-' (Scan.replace ':' '-' (portText r).toList) = some (r.fromPort, r.toPort) := by
  have hdigits : ∀ n, ':' ∉ Scan.digits n := fun n => Scan.not_mem_digits (by decide)
  unfold portText
  by_cases h : r.toPort = r.fromPort
  · rw [if_neg (not_not.mpr h), h]
    show Scan.range '-' (Scan.replace ':' '-' (Scan.digits r.fromPort)) = _
    rw [Scan.replace_of_not_mem (hdigits _)]
    exact Scan.range_single rfl r.fromPort
  · have htext : (toString r.fromPort ++ ":" ++ toString r.toPort).toList =
        Scan.digits r.fromPort ++ ([':'] ++ Scan.digits r.toPort) := by
      simp [Scan.digits]
    rw [if_pos h, htext, Scan.replace_append, Scan.replace_append,
      Scan.replace_of_not_mem (hdigits _), Scan.replace_of_not_mem (hdigits _)]
    exact Scan.range_pair rfl _ _

theorem portChars (r : PortRange) :
    ∀ ch ∈ Scan.replace ':' '-' (portText r).toList, ch.isDigit = true ∨ ch = '-' := by
  intro ch hch
  obtain ⟨ch', hch', rfl⟩ := mem_map.mp hch
  have hport : ch'.isDigit = true ∨ ch' = ':' := by
    unfold portText at hch'
    split_ifs at hch'
    · simp only [String.toList_append, mem_append] at hch'
      obtain (hch' | hch') | hch' := hch'
      · exact .inl (Scan.isDigit_of_mem_digits hch')
      · exact .inr (by simpa using hch')
      · exact .inl (Scan.isDigit_of_mem_digits hch')
    · exact .inl (Scan.isDigit_of_mem_digits hch')
  split_ifs with hcolon
  · exact .inr rfl
  · exact .inl (hport.resolve_right hcolon)

theorem network_text_inj {a b : Network} : a.text = b.text ↔ a = b := by
  cases a <;> cases b <;> decide

/-! ## Meaning -/

variable {values : List String} {m : RouteMatch} {dns : Bool} {c : Condition}
  {terms : List Condition}

section
variable {schema : Schema} {f : Flow}

theorem all_leafTerm {kind : LeafKind} :
    (leafTerm kind values).all (Condition.holds schema f) =
      fieldHolds values (kind.holds schema f) := by
  unfold leafTerm fieldHolds
  by_cases h : values = []
  · simp [h]
  · simp [h, Condition.holds_leaf]

theorem fieldHolds_map {α β : Type} {l : List α} {g : α → β} {p : β → Bool} :
    fieldHolds (l.map g) p = fieldHolds l (p ∘ g) := by
  simp [fieldHolds]

theorem portText_holds (r : PortRange) :
    LeafKind.holds schema f .port (portText r) = r.holds f := by
  rw [LeafKind.holds, range_portText]
  rfl

theorem networkText_holds (n : Network) :
    LeafKind.holds schema f .network n.text = decide (n = f.network) := by
  rw [LeafKind.holds]
  exact decide_eq_decide.mpr network_text_inj

theorem all_fieldTerms :
    (fieldTerms m).all (Condition.holds schema f) =
      (fieldHolds m.domainExact (f.named .exact) && fieldHolds m.domainSuffix (f.named .suffix) &&
        fieldHolds m.ipCIDRs (f.within schema) &&
        fieldHolds m.destinationPorts (PortRange.holds f) &&
        fieldHolds m.network (fun n => n = f.network)) := by
  have hports : (LeafKind.holds schema f .port) ∘ portText = PortRange.holds f :=
    funext portText_holds
  have hnetworks : (LeafKind.holds schema f .network) ∘ Network.text =
      fun n => decide (n = f.network) := funext networkText_holds
  unfold fieldTerms
  simp only [all_append, all_leafTerm, fieldHolds_map, hports, hnetworks]
  rfl

theorem entryCondition_holds {id : ID} {entry : RuleSetEntry}
    (h : entryCondition dns id entry = .ok c) : c.holds schema f = entry.holds schema f := by
  cases entry with
  | domain name kind =>
    cases kind with
    | exact =>
      cases h
      simp [Condition.holds_leaf, LeafKind.holds, RuleSetEntry.holds]
    | suffix =>
      cases h
      simp [Condition.holds_leaf, LeafKind.holds, RuleSetEntry.holds]
  | cidr network =>
    obtain ⟨-, hok⟩ := of_ite h
    cases hok
    simp [Condition.holds_leaf, LeafKind.holds, RuleSetEntry.holds]

variable {resources : Resources}

theorem setConditions_holds {id : ID} (h : setConditions resources dns id = .ok terms) :
    terms.any (Condition.holds schema f) = ruleSetHolds schema resources.ruleSet f id := by
  unfold setConditions at h
  unfold ruleSetHolds
  cases hset : resources.ruleSet id with
  | none =>
    rw [hset] at h
    cases h
  | some s =>
    rw [hset] at h
    refine (List.Forall₂.any_eq ?_).symm
    exact (mapM_eq_ok_iff.mp h).imp fun entry c hc => (entryCondition_holds hc).symm

theorem setTerms_holds {sets : List Condition} (h : setTerms m resources dns = .ok sets) :
    sets.all (Condition.holds schema f) =
      fieldHolds m.ruleSetIDs (ruleSetHolds schema resources.ruleSet f) := by
  unfold setTerms at h
  unfold fieldHolds
  by_cases hids : m.ruleSetIDs = []
  · rw [if_pos hids] at h
    cases h
    simp [hids]
  · rw [if_neg hids] at h
    obtain ⟨lists, hlists, rfl⟩ := of_map h
    have hany : m.ruleSetIDs.any (ruleSetHolds schema resources.ruleSet f) =
        lists.any (fun terms => terms.any (Condition.holds schema f)) := by
      refine List.Forall₂.any_eq ?_
      exact (mapM_eq_ok_iff.mp hlists).imp fun id terms hid => (setConditions_holds hid).symm
    simp [hids, hany, Condition.holds_or, any_flatten]

theorem conjunction_holds :
    (conjunction terms).holds schema f = terms.all (Condition.holds schema f) := by
  unfold conjunction
  split
  · simp
  · exact Condition.holds_and

/-- **Conditions mean their matches.** -/
theorem routeCondition_holds (h : routeCondition m resources dns = .ok c) :
    c.holds schema f = m.holds schema resources.ruleSet f := by
  obtain ⟨sets, hsets, rfl⟩ := of_map h
  rw [conjunction_holds, all_append, all_fieldTerms, setTerms_holds hsets]
  rfl

end

/-! ## Validity -/

def ValidValue (schema : Schema) : LeafKind → String → Prop
  | .domain, value | .domainSuffix, value => validDomainName schema value = true
  | .ipCIDR, value => canonicalCIDR schema value = true
  | .port, value => ∃ r : PortRange, value = portText r
  | .network, value => ∃ n : Network, value = n.text

inductive ValidCondition (schema : Schema) : Condition → Prop where
  | leaf {kind : LeafKind} {values : List String} : values ≠ [] →
    (∀ value ∈ values, ValidValue schema kind value) → ValidCondition schema (.leaf kind values)
  | node {op : Connective} {terms : List Condition} : terms ≠ [] →
    (∀ t ∈ terms, ValidCondition schema t) → ValidCondition schema (.node op terms)

section
variable {schema : Schema} {resources : Resources}

theorem all_of_validSet {α : Type} [DecidableEq α] {n : ℕ} {entry : α → Bool} {l : List α}
    (h : validSet n entry l = true) : ∀ a ∈ l, entry a = true := by
  unfold validSet at h
  simp only [Bool.and_eq_true] at h
  exact all_eq_true.mp h.2

structure ValidFields (schema : Schema) (m : RouteMatch) : Prop where
  populated : m.domainExact ≠ [] ∨ m.domainSuffix ≠ [] ∨ m.ruleSetIDs ≠ [] ∨ m.ipCIDRs ≠ [] ∨
    m.destinationPorts ≠ [] ∨ m.network ≠ []
  domainExact : ∀ value ∈ m.domainExact, validDomainName schema value = true
  domainSuffix : ∀ value ∈ m.domainSuffix, validDomainName schema value = true
  ipCIDRs : ∀ value ∈ m.ipCIDRs, canonicalCIDR schema value = true

theorem validFields_of_validate (h : m.validate schema = true) :
    ValidFields schema m := by
  unfold RouteMatch.validate at h
  simp only [Bool.and_eq_true, Bool.or_eq_true, decide_eq_true_eq] at h
  obtain ⟨⟨⟨⟨⟨⟨⟨hne, hexact⟩, hsuffix⟩, -⟩, hcidrs⟩, -⟩, -⟩, -⟩ := h
  exact ⟨by tauto, all_of_validSet hexact, all_of_validSet hsuffix, all_of_validSet hcidrs⟩

theorem validFields_route {m : DomainMatch} (h : m.validate schema = true) :
    ValidFields schema m.route := by
  unfold DomainMatch.validate at h
  simp only [Bool.and_eq_true, Bool.or_eq_true, decide_eq_true_eq] at h
  obtain ⟨⟨⟨hne, hexact⟩, hsuffix⟩, -⟩ := h
  refine ⟨?_, all_of_validSet hexact, all_of_validSet hsuffix, fun value hvalue => nomatch hvalue⟩
  simp only [DomainMatch.route]
  tauto

theorem valid_leafTerm {kind : LeafKind} (h : ∀ value ∈ values, ValidValue schema kind value) :
    ∀ t ∈ leafTerm kind values, ValidCondition schema t := by
  unfold leafTerm
  intro t ht
  by_cases hne : values = []
  · rw [if_pos hne] at ht
    cases ht
  · rw [if_neg hne] at ht
    obtain rfl := mem_singleton.mp ht
    exact .leaf hne h

theorem leafTerm_eq_nil_iff {kind : LeafKind} :
    leafTerm kind values = [] ↔ values = [] := by
  unfold leafTerm
  split_ifs with h <;> simp [h]

theorem valid_fieldTerms (hm : ValidFields schema m) :
    ∀ t ∈ fieldTerms m, ValidCondition schema t := by
  intro t ht
  unfold fieldTerms at ht
  simp only [mem_append] at ht
  obtain (((ht | ht) | ht) | ht) | ht := ht
  · refine valid_leafTerm ?_ t ht
    exact hm.domainExact
  · refine valid_leafTerm ?_ t ht
    exact hm.domainSuffix
  · refine valid_leafTerm ?_ t ht
    exact hm.ipCIDRs
  · refine valid_leafTerm (fun value hvalue => ?_) t ht
    obtain ⟨r, -, rfl⟩ := mem_map.mp hvalue
    exact ⟨r, rfl⟩
  · refine valid_leafTerm (fun value hvalue => ?_) t ht
    obtain ⟨n, -, rfl⟩ := mem_map.mp hvalue
    exact ⟨n, rfl⟩

theorem valid_entryCondition {id : ID} {entry : RuleSetEntry}
    (hentry : entry.validate schema = true) (h : entryCondition dns id entry = .ok c) :
    ValidCondition schema c := by
  have hleaf : ∀ {kind : LeafKind} {value : String}, ValidValue schema kind value →
      ValidCondition schema (.leaf kind [value]) := by
    intro kind value hvalue
    refine .leaf (cons_ne_nil _ _) fun v hv => ?_
    rwa [mem_singleton.mp hv]
  cases entry with
  | domain name kind =>
    cases kind with
    | exact =>
      cases h
      exact hleaf hentry
    | suffix =>
      cases h
      exact hleaf hentry
  | cidr network =>
    obtain ⟨-, hok⟩ := of_ite h
    cases hok
    exact hleaf hentry

theorem valid_setConditions {id : ID}
    (hsets : ∀ id s, resources.ruleSet id = some s → s.validate schema = true)
    (h : setConditions resources dns id = .ok terms) :
    terms ≠ [] ∧ ∀ t ∈ terms, ValidCondition schema t := by
  unfold setConditions at h
  cases hset : resources.ruleSet id with
  | none =>
    rw [hset] at h
    cases h
  | some s =>
    rw [hset] at h
    have hs := hsets id s hset
    unfold RuleSet.validate at hs
    simp only [Bool.and_eq_true, decide_eq_true_eq] at hs
    obtain ⟨⟨⟨⟨-, hne⟩, -⟩, hentries⟩, -⟩ := hs
    have hrel := mapM_eq_ok_iff.mp h
    refine ⟨?_, ?_⟩
    · rintro rfl
      exact hne (forall₂_nil_right_iff.mp hrel)
    · intro t ht
      obtain ⟨entry, hentry, hok⟩ := hrel.exists_left ht
      exact valid_entryCondition (all_eq_true.mp hentries entry hentry) hok

theorem valid_setTerms {sets : List Condition}
    (hsets : ∀ id s, resources.ruleSet id = some s → s.validate schema = true)
    (h : setTerms m resources dns = .ok sets) :
    (sets = [] ↔ m.ruleSetIDs = []) ∧ ∀ t ∈ sets, ValidCondition schema t := by
  unfold setTerms at h
  by_cases hids : m.ruleSetIDs = []
  · rw [if_pos hids] at h
    cases h
    exact ⟨⟨fun _ => hids, fun _ => rfl⟩, fun t ht => nomatch ht⟩
  · rw [if_neg hids] at h
    obtain ⟨lists, hlists, rfl⟩ := of_map h
    have hrel := mapM_eq_ok_iff.mp hlists
    refine ⟨⟨fun hnil => (nomatch hnil), fun hnil => absurd hnil hids⟩, ?_⟩
    intro t ht
    obtain rfl := mem_singleton.mp ht
    have hvalid : ∀ terms ∈ lists, terms ≠ [] ∧ ∀ t ∈ terms, ValidCondition schema t := by
      intro terms hterms
      obtain ⟨id, -, hid⟩ := hrel.exists_left hterms
      exact valid_setConditions hsets hid
    refine .node ?_ ?_
    · obtain ⟨id, hid⟩ := exists_mem_of_ne_nil _ hids
      obtain ⟨terms, hterms, -⟩ := hrel.exists_right hid
      obtain ⟨t, ht⟩ := exists_mem_of_ne_nil _ (hvalid terms hterms).1
      exact ne_nil_of_mem (mem_flatten.mpr ⟨terms, hterms, ht⟩)
    · intro t ht
      obtain ⟨terms, hterms, ht⟩ := mem_flatten.mp ht
      exact (hvalid terms hterms).2 t ht

theorem valid_conjunction (hne : terms ≠ []) (h : ∀ t ∈ terms, ValidCondition schema t) :
    ValidCondition schema (conjunction terms) := by
  unfold conjunction
  split
  · exact h _ mem_cons_self
  · exact .node hne h

theorem routeCondition_valid (hm : ValidFields schema m)
    (hsets : ∀ id s, resources.ruleSet id = some s → s.validate schema = true)
    (h : routeCondition m resources dns = .ok c) : ValidCondition schema c := by
  obtain ⟨sets, hok, rfl⟩ := of_map h
  obtain ⟨hnil, hvalid⟩ := valid_setTerms hsets hok
  refine valid_conjunction ?_ ?_
  · intro hempty
    rw [append_eq_nil_iff, hnil] at hempty
    unfold fieldTerms at hempty
    simp only [append_eq_nil_iff, leafTerm_eq_nil_iff, map_eq_nil_iff] at hempty
    have hpopulated := hm.populated
    tauto
  · intro t ht
    obtain ht | ht := mem_append.mp ht
    · exact valid_fieldTerms hm t ht
    · exact hvalid t ht

end

end ProxyLoom.Compiler
