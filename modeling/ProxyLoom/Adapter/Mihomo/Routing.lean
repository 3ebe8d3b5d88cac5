import ProxyLoom.Adapter.Mihomo.Emit
import ProxyLoom.Adapter.Mihomo.Grammar
import ProxyLoom.Compiler.Tags

/-!
# Routing by Mihomo

How a Mihomo core reads and runs the rules of a document, and when the emitted rules send every flow
where the routing profile of the snapshot sends it.
-/

namespace ProxyLoom.Adapter.Mihomo

open IR Compiler Nested List Except

/-! ## Running lines -/

section
variable (schema : Schema) (resolved : List Netip.Addr) (f : Flow)

/-- Without `no-resolve` a rule on addresses sees what the name resolves to. -/
def seen (noResolve : Bool) : Flow := if noResolve then f else learn f resolved

def leafHolds (kind : Kind) (value : List Char) (noResolve : Bool) : Bool :=
  match kind with
  | .domain => f.named .exact (String.ofList value)
  | .domainSuffix => f.named .suffix (String.ofList value)
  | .ipCIDR | .ipCIDR6 => (seen resolved f noResolve).within schema (String.ofList value)
  | .dstPort => (Scan.range '-' value).any fun (a, b) => a ≤ f.port && f.port ≤ b
  | .network => value = (toUpper f.network.text).toList

mutual

def Rule.holds : Rule → Bool
  | .leaf kind value noResolve => leafHolds schema resolved f kind value noResolve
  | .node .and terms => allHold terms
  | .node .or terms => anyHold terms

def allHold : List Rule → Bool
  | [] => true
  | r :: rules => r.holds && allHold rules

def anyHold : List Rule → Bool
  | [] => false
  | r :: rules => r.holds || anyHold rules

end

def Line.holds : Line → Bool
  | .rule r _ => r.holds schema resolved f
  | .final _ => true

/-- The target of the first line that holds. A document with a line that cannot be read is
refused. -/
def Document.select (doc : Document) : Option String :=
  (doc.rules.mapM fun text => parseLine text.toList).bind fun lines =>
    (lines.find? fun l => l.holds schema resolved f).map fun l => String.ofList l.target

end

mutual

def Rule.flags : Rule → List (Kind × Bool)
  | .leaf kind _ noResolve => [(kind, noResolve)]
  | .node _ terms => termFlags terms

def termFlags : List Rule → List (Kind × Bool)
  | [] => []
  | r :: rules => r.flags ++ termFlags rules

end

/-! ## Rules of conditions -/

def leafRule (noResolve : Bool) (kind : LeafKind) (value : String) : Rule :=
  match kind with
  | .domain => .leaf .domain value.toList false
  | .domainSuffix => .leaf .domainSuffix value.toList false
  | .ipCIDR =>
    .leaf (if value.toList.contains ':' then .ipCIDR6 else .ipCIDR) value.toList noResolve
  | .port => .leaf .dstPort (Scan.replace ':' '-' value.toList) false
  | .network => .leaf .network (toUpper value).toList false

mutual

def ruleTree (noResolve : Bool) : Condition → Rule
  | .leaf kind [value] => leafRule noResolve kind value
  | .leaf kind values => .node .or (values.map (leafRule noResolve kind))
  | .node _ [c] => ruleTree noResolve c
  | .node op terms => .node op (ruleTrees noResolve terms)

def ruleTrees (noResolve : Bool) : List Condition → List Rule
  | [] => []
  | c :: terms => ruleTree noResolve c :: ruleTrees noResolve terms

end

/-- The characters of the networks that `netip.ParsePrefix` accepts. -/
def isPrefixChar (ch : Char) : Bool := Text.isHex ch || ch == '.' || ch == ':' || ch == '/'

/-- Networks are written with hexadecimal digits of either case, dots, colons and a slash. -/
def PrefixText (schema : Schema) : Prop :=
  ∀ value, (schema.parsePrefix value).isSome = true → ∀ ch ∈ value.toList, isPrefixChar ch = true

variable {m : RouteMatch}

section
variable {schema : Schema} {resolved : List Netip.Addr} {f : Flow} {nr : Bool}
  {terms : List Condition} {kind : LeafKind} {values : List String} {c : Condition}
  {value tag name : String} {dns : Bool} {resources : Resources} {input : EmitInput}
  {op : Connective} {condition : String}

theorem ruleTrees_eq (terms : List Condition) :
    ruleTrees nr terms = terms.map (ruleTree nr) := by
  induction terms with
  | nil => simp [ruleTrees]
  | cons c terms ih => rw [ruleTrees, ih, map_cons]

theorem nativeTerms_eq (terms : List Condition) :
    nativeTerms nr terms = terms.map fun c => "(" ++ nativeCondition nr c ++ ")" := by
  induction terms with
  | nil => simp [nativeTerms]
  | cons c terms ih => rw [nativeTerms, ih, map_cons]

theorem allHold_eq (rules : List Rule) :
    allHold schema resolved f rules = rules.all (Rule.holds schema resolved f) := by
  induction rules with
  | nil => simp [allHold]
  | cons r rules ih => rw [allHold, ih, all_cons]

theorem anyHold_eq (rules : List Rule) :
    anyHold schema resolved f rules = rules.any (Rule.holds schema resolved f) := by
  induction rules with
  | nil => simp [anyHold]
  | cons r rules ih => rw [anyHold, ih, any_cons]

theorem termFlags_eq (rules : List Rule) : termFlags rules = rules.flatMap Rule.flags := by
  induction rules with
  | nil => simp [termFlags]
  | cons r rules ih => rw [termFlags, ih, flatMap_cons]

theorem ruleTree_node (h : ∀ c, terms ≠ [c]) :
    ruleTree nr (.node op terms) = .node op (terms.map (ruleTree nr)) := by
  rw [ruleTree.eq_def]
  split
  · next heq => cases heq
  · next heq => cases heq
  · next c heq =>
    cases heq
    exact absurd rfl (h c)
  · next heq =>
    cases heq
    rw [ruleTrees_eq]

theorem nativeCondition_node (h : ∀ c, terms ≠ [c]) :
    nativeCondition nr (.node op terms) =
      opText op ++ ",(" ++ joinTexts "," (nativeTerms nr terms) ++ ")" := by
  rw [nativeCondition.eq_def]
  split
  · next heq => cases heq
  · next heq => cases heq
  · next c heq =>
    cases heq
    exact absurd rfl (h c)
  · next heq =>
    cases heq
    rfl

theorem ruleTree_leaf (h : ∀ v, values ≠ [v]) :
    ruleTree nr (.leaf kind values) = .node .or (values.map (leafRule nr kind)) := by
  rw [ruleTree.eq_def]
  split
  · next value heq =>
    cases heq
    exact absurd rfl (h value)
  · next heq =>
    cases heq
    rfl
  · next heq => cases heq
  · next heq => cases heq

theorem nativeCondition_leaf (h : ∀ v, values ≠ [v]) :
    nativeCondition nr (.leaf kind values) =
      "OR,((" ++ joinTexts "),(" (values.map (leafText nr kind)) ++ "))" := by
  rw [nativeCondition.eq_def]
  split
  · next value heq =>
    cases heq
    exact absurd rfl (h value)
  · next heq =>
    cases heq
    rfl
  · next heq => cases heq
  · next heq => cases heq

@[elab_as_elim]
theorem shape_ind {motive : Condition → Prop}
    (value : ∀ kind v, ValidValue schema kind v → motive (.leaf kind [v]))
    (values : ∀ kind l, l ≠ [] → (∀ v, l ≠ [v]) → (∀ v ∈ l, ValidValue schema kind v) →
      motive (.leaf kind l))
    (term : ∀ op c, motive c → motive (.node op [c]))
    (terms : ∀ op l, l ≠ [] → (∀ c, l ≠ [c]) → (∀ c ∈ l, motive c) → motive (.node op l))
    (h : ValidCondition schema c) : motive c := by
  induction h with
  | @leaf kind l hne hvalid =>
    by_cases hone : ∃ v, l = [v]
    · obtain ⟨v, rfl⟩ := hone
      exact value kind v (hvalid v mem_cons_self)
    · exact values kind l hne (not_exists.mp hone) hvalid
  | @node op l hne _ ih =>
    by_cases hone : ∃ c, l = [c]
    · obtain ⟨c, rfl⟩ := hone
      exact term op c (ih c mem_cons_self)
    · exact terms op l hne (not_exists.mp hone) ih

/-! ## Texts -/

theorem joinTexts_comma (texts : List String) :
    (joinTexts "," texts).toList = Scan.join ',' (texts.map String.toList) := by
  induction texts with
  | nil => rfl
  | cons s texts ih =>
    cases texts with
    | nil => rfl
    | cons next texts =>
      rw [joinTexts, String.toList_append, String.toList_append, ih]
      simp [Scan.join]

theorem joinTexts_groups {texts : List String} (h : texts ≠ []) :
    group (joinTexts "),(" texts).toList =
      Scan.join ',' (texts.map fun text => group text.toList) := by
  induction texts with
  | nil => exact absurd rfl h
  | cons s texts ih =>
    cases texts with
    | nil => rfl
    | cons next texts =>
      have htail := ih (cons_ne_nil _ _)
      rw [joinTexts, String.toList_append, String.toList_append, map_cons, map_cons,
        Scan.join]
      rw [map_cons] at htail
      rw [← htail, show "),(".toList = [')', ',', '('] by decide +kernel]
      simp [group]

theorem noResolveText_toList : noResolveText.toList = ',' :: flag := by decide +kernel

theorem leafText_toList (kind : LeafKind) (value : String) :
    (leafText nr kind value).toList = (leafRule nr kind value).text := by
  have hcomma : ",".toList = [','] := by decide +kernel
  unfold leafText
  rw [String.toList_append, String.toList_append, String.toList_append, hcomma]
  cases kind with
  | domain | domainSuffix | network =>
    rw [if_neg (by simp), append_assoc, append_assoc]
    exact congrArg _ (congrArg _ (append_nil _))
  | port =>
    rw [if_neg (by simp), append_assoc, append_assoc, leafValue, String.toList_ofList]
    exact congrArg _ (congrArg _ (append_nil _))
  | ipCIDR =>
    have hkind : (leafKind .ipCIDR value).toList =
        Kind.text (if value.toList.contains ':' then .ipCIDR6 else .ipCIDR) := by
      unfold leafKind
      split_ifs <;> rfl
    rw [hkind, leafRule, Rule.text, Rule.parts]
    generalize (if value.toList.contains ':' then Kind.ipCIDR6 else Kind.ipCIDR) = k
    cases nr with
    | true =>
      rw [if_pos ⟨rfl, rfl⟩, noResolveText_toList, if_pos rfl, append_assoc,
        append_assoc]
      rfl
    | false =>
      rw [if_neg (by simp), if_neg (by simp), append_assoc, append_assoc]
      exact congrArg _ (congrArg _ (append_nil _))

theorem node_text (op : Connective) (rules : List Rule) :
    (Rule.node op rules).text =
      opWord op ++ ',' :: group (Scan.join ',' (rules.map fun r => group r.text)) := by
  rw [Rule.text, Rule.parts, groupTexts_eq]
  rfl

/-- **The text of a condition.** -/
theorem nativeCondition_text {c : Condition} (h : ValidCondition schema c) :
    (nativeCondition nr c).toList = (ruleTree nr c).text := by
  refine shape_ind ?_ ?_ ?_ ?_ h
  · intro kind v _
    rw [nativeCondition, ruleTree, leafText_toList]
  · intro kind values hne hone _
    have hgroups := @joinTexts_groups (values.map (leafText nr kind)) (by simpa using hne)
    rw [map_map] at hgroups
    rw [nativeCondition_leaf hone, ruleTree_leaf hone, node_text, map_map]
    simp only [Function.comp_def, leafText_toList] at hgroups ⊢
    rw [← hgroups]
    simp [group, opWord]
  · intro op c ih
    rw [nativeCondition, ruleTree, ih]
  · intro op terms _ hone ih
    have hterms : (nativeTerms nr terms).map String.toList =
        (terms.map (ruleTree nr)).map fun r => group r.text := by
      rw [nativeTerms_eq, map_map, map_map]
      refine map_congr_left fun c hc => ?_
      simp [group, ih c hc]
    rw [nativeCondition_node hone, ruleTree_node hone, node_text, ← hterms,
      String.toList_append, String.toList_append, String.toList_append, joinTexts_comma]
    cases op <;> simp [group, opWord, opText]

/-! ## Values -/

theorem plain_of_class (p : Char → Bool) {ch : Char} (h : p ch = true) (hcomma : p ',' = false)
    (hopen : p '(' = false) (hclose : p ')' = false) : Plain ch := by
  refine ⟨?_, ?_, ?_⟩
  · rintro rfl
    rw [hcomma] at h
    cases h
  · rintro rfl
    rw [hopen] at h
    cases h
  · rintro rfl
    rw [hclose] at h
    cases h

def isDomainChar (ch : Char) : Bool :=
  Text.isLower ch || Text.isDigit ch || ch == '.' || ch == '-'

theorem domainChars (h : validDomainName schema value = true) :
    ∀ ch ∈ value.toList, isDomainChar ch = true := by
  unfold validDomainName at h
  cases hvalue : value.toList with
  | nil => exact fun ch hch => nomatch hch
  | cons first rest =>
    rw [hvalue] at h
    simp only [Bool.and_eq_true] at h
    obtain ⟨-, hfirst, hrest⟩ := h
    intro ch hch
    obtain rfl | hch := mem_cons.mp hch
    · simp only [isDomainChar, Bool.or_eq_true] at hfirst ⊢
      exact .inl (.inl hfirst)
    · exact all_eq_true.mp hrest ch hch

theorem domainValue_plain (h : validDomainName schema value = true) :
    ∀ ch ∈ value.toList, Plain ch := fun ch hch =>
  plain_of_class isDomainChar (domainChars h ch hch) (by decide) (by decide) (by decide)

theorem prefixChars (hnetworks : PrefixText schema) (h : canonicalCIDR schema value = true) :
    ∀ ch ∈ value.toList, isPrefixChar ch = true := by
  unfold canonicalCIDR at h
  obtain ⟨p, hp, -⟩ := (Option.any_eq_true _ _).mp (Bool.and_eq_true_iff.mp h).2
  exact hnetworks value (by rw [hp]; rfl)

theorem leafRule_value (hnetworks : PrefixText schema) {kind : LeafKind} {value : String}
    (h : ValidValue schema kind value) : ∃ k v, leafRule nr kind value =
      .leaf k v (decide (kind = .ipCIDR) && nr) ∧ (∀ ch ∈ v, Plain ch) ∧
      (v = flag ↔ (kind = .domain ∨ kind = .domainSuffix) ∧ value = "no-resolve") := by
  have hname : value.toList = flag ↔ value = "no-resolve" := String.toList_inj
  cases kind with
  | domain => exact ⟨.domain, value.toList, rfl, domainValue_plain h, by simp [hname]⟩
  | domainSuffix => exact ⟨.domainSuffix, value.toList, rfl, domainValue_plain h, by simp [hname]⟩
  | ipCIDR =>
    have hchars := prefixChars hnetworks h
    refine ⟨_, value.toList, rfl, fun ch hch => ?_, ?_⟩
    · exact plain_of_class isPrefixChar (hchars ch hch) (by decide) (by decide) (by decide)
    · refine iff_of_false (fun hflag => ?_) (by simp)
      have hn := hchars 'n' (by rw [hflag]; decide +kernel)
      exact absurd hn (by decide)
  | port =>
    obtain ⟨r, rfl⟩ := h
    have hchars := portChars r
    refine ⟨.dstPort, _, rfl, fun ch hch => ?_, ?_⟩
    · refine plain_of_class (fun ch => ch.isDigit || ch == '-') ?_ (by decide) (by decide)
        (by decide)
      simpa using hchars ch hch
    · refine iff_of_false (fun hflag => ?_) (by simp)
      have hn := hchars 'n' (by rw [hflag]; decide +kernel)
      exact absurd hn (by decide)
  | network =>
    obtain ⟨n, rfl⟩ := h
    refine ⟨.network, _, rfl, forall_of_all ?_, ?_⟩
    · cases n <;> decide +kernel
    · refine iff_of_false ?_ (by simp)
      cases n <;> decide +kernel

/-! ## Meaning -/

theorem leafRule_holds (h : ValidValue schema kind value) :
    (leafRule nr kind value).holds schema resolved f =
      kind.holds schema (seen resolved f nr) value := by
  have hfields : (seen resolved f nr).domain = f.domain ∧ (seen resolved f nr).port = f.port ∧
      (seen resolved f nr).network = f.network := by
    unfold seen
    split_ifs <;> exact ⟨rfl, rfl, rfl⟩
  cases kind with
  | domain | domainSuffix =>
    simp [leafRule, Rule.holds, leafHolds, LeafKind.holds, Flow.named, hfields.1]
  | ipCIDR =>
    rw [leafRule, Rule.holds, leafHolds.eq_def]
    split_ifs <;> simp [LeafKind.holds]
  | port =>
    obtain ⟨r, rfl⟩ := h
    simp only [leafRule, Rule.holds, leafHolds, LeafKind.holds, range_replace, range_portText,
      hfields.2.1]
  | network =>
    obtain ⟨n, rfl⟩ := h
    rw [LeafKind.holds, hfields.2.2, leafRule, Rule.holds, leafHolds]
    cases n <;> cases f.network <;> decide +kernel

/-- **Conditions are kept.** -/
theorem ruleTree_holds (h : ValidCondition schema c) :
    (ruleTree nr c).holds schema resolved f = c.holds schema (seen resolved f nr) := by
  refine shape_ind ?_ ?_ ?_ ?_ h
  · intro kind v hv
    rw [ruleTree, leafRule_holds hv, Condition.holds_leaf]
    simp
  · intro kind values _ hone hvalues
    rw [ruleTree_leaf hone, Rule.holds, anyHold_eq, any_map, Condition.holds_leaf]
    exact Slices.any_congr fun v hv => leafRule_holds (hvalues v hv)
  · intro op c ih
    rw [ruleTree, ih]
    cases op with
    | and => simp [Condition.holds_and]
    | or => simp [Condition.holds_or]
  · intro op terms _ hone ih
    rw [ruleTree_node hone]
    cases op with
    | and =>
      rw [Rule.holds, allHold_eq, all_map, Condition.holds_and]
      exact Slices.all_congr ih
    | or =>
      rw [Rule.holds, anyHold_eq, any_map, Condition.holds_or]
      exact Slices.any_congr ih

theorem leafRule_good (hnetworks : PrefixText schema) (h : ValidValue schema kind value) :
    (leafRule nr kind value).Good := by
  obtain ⟨k, v, heq, hplain, -⟩ := @leafRule_value schema nr hnetworks kind value h
  rw [heq]
  exact .leaf hplain

theorem ruleTree_good (hnetworks : PrefixText schema) (h : ValidCondition schema c) :
    (ruleTree nr c).Good := by
  refine shape_ind ?_ ?_ ?_ ?_ h
  · intro kind v hv
    rw [ruleTree]
    exact leafRule_good hnetworks hv
  · intro kind values hne hone hvalues
    rw [ruleTree_leaf hone]
    refine .node (by simpa using hne) fun r hr => ?_
    obtain ⟨v, hv, rfl⟩ := mem_map.mp hr
    exact leafRule_good hnetworks (hvalues v hv)
  · intro op c ih
    rwa [ruleTree]
  · intro op terms hne hone ih
    rw [ruleTree_node hone]
    refine .node (by simpa using hne) fun r hr => ?_
    obtain ⟨c, hc, rfl⟩ := mem_map.mp hr
    exact ih c hc

theorem leafRule_flags (kind : LeafKind) (value : String) :
    ∀ entry ∈ (leafRule nr kind value).flags,
      entry.1 = .ipCIDR ∨ entry.1 = .ipCIDR6 → entry.2 = nr := by
  cases kind with
  | domain | domainSuffix | port | network => simp [leafRule, Rule.flags]
  | ipCIDR =>
    intro entry hentry _
    rw [leafRule, Rule.flags] at hentry
    rw [mem_singleton.mp hentry]

theorem ruleTree_flags (h : ValidCondition schema c) :
    ∀ entry ∈ (ruleTree nr c).flags,
      entry.1 = .ipCIDR ∨ entry.1 = .ipCIDR6 → entry.2 = nr := by
  refine shape_ind ?_ ?_ ?_ ?_ h
  · intro kind v _
    rw [ruleTree]
    exact leafRule_flags kind v
  · intro kind values _ hone _ entry hentry
    rw [ruleTree_leaf hone, Rule.flags, termFlags_eq, flatMap_map] at hentry
    obtain ⟨v, -, hentry⟩ := mem_flatMap.mp hentry
    exact leafRule_flags kind v entry hentry
  · intro op c ih
    rwa [ruleTree]
  · intro op terms _ hone ih entry hentry
    rw [ruleTree_node hone, Rule.flags, termFlags_eq, flatMap_map] at hentry
    obtain ⟨c, hc, hentry⟩ := mem_flatMap.mp hentry
    exact ih c hc entry hentry

/-! ## Rules with their targets -/

theorem eq_of_comma_suffix {a p v : List Char} (ha : ',' ∉ a) (hv : ',' ∉ v)
    (h : ',' :: a <:+ p ++ ',' :: v) : a = v := by
  obtain ⟨q, hq⟩ := h
  have hcut := congrArg (fun l => Scan.cut ',' l.reverse) hq
  simp only [reverse_append, reverse_cons, append_assoc, singleton_append]
    at hcut
  rw [Scan.cut_append (by simpa using ha), Scan.cut_append (by simpa using hv)] at hcut
  exact reverse_injective (Prod.mk.inj hcut).1

theorem comma_not_mem {v : List Char} (h : ∀ ch ∈ v, Plain ch) : ',' ∉ v :=
  fun hmem => (h ',' hmem).1 rfl

theorem leaf_text (k : Kind) (v : List Char) : (Rule.leaf k v false).text = k.text ++ ',' :: v := by
  simp [Rule.text, Rule.parts, Scan.join]

theorem leaf_text_flag (k : Kind) (v : List Char) :
    (Rule.leaf k v true).text = (k.text ++ ',' :: v) ++ ',' :: flag := by
  simp [Rule.text, Rule.parts, Scan.join]

theorem suffix_iff {r : Rule} (h : r.Good) : ',' :: flag <:+ r.text ↔
    (∃ k v, r = .leaf k v true) ∨ ∃ k, r = .leaf k flag false := by
  cases h with
  | @leaf kind value noResolve hplain =>
    cases noResolve with
    | true =>
      rw [leaf_text_flag]
      exact iff_of_true (suffix_append _ _) (.inl ⟨kind, value, rfl⟩)
    | false =>
      rw [leaf_text]
      constructor
      · intro hsuffix
        have heq := eq_of_comma_suffix (by decide +kernel) (comma_not_mem hplain) hsuffix
        exact .inr ⟨kind, by rw [heq]⟩
      · rintro (⟨k, v, heq⟩ | ⟨k, heq⟩)
        · cases heq
        · cases heq
          exact suffix_append _ _
  | @node op terms hne hterms =>
    refine iff_of_false ?_ (by simp)
    -- the text of a node ends in a parenthesis
    rw [node_text, group, ← cons_append, ← append_assoc]
    rintro ⟨q, hq⟩
    have hlast := congrArg List.getLast? hq
    rw [List.getLast?_append_of_ne_nil _ (by simp), List.getLast?_append_of_ne_nil _ (by simp)]
      at hlast
    exact absurd hlast (by decide +kernel)

theorem ruleText_of_suffix {p : List Char}
    (h : condition.toList = p ++ ',' :: flag) :
    (ruleText condition tag).toList = p ++ ',' :: (tag.toList ++ ',' :: flag) := by
  unfold ruleText
  rw [if_pos (by rw [noResolveText_toList, h, isSuffixOf_iff_suffix]
                 exact suffix_append _ _)]
  rw [String.toList_append, String.toList_append, String.toList_append, String.toList_ofList,
    noResolveText_toList, h, length_append, Nat.add_sub_cancel, take_left]
  simp

theorem ruleText_of_not_suffix (h : ¬(',' :: flag <:+ condition.toList)) :
    (ruleText condition tag).toList = condition.toList ++ ',' :: tag.toList := by
  unfold ruleText
  rw [if_neg (by rw [noResolveText_toList, isSuffixOf_iff_suffix]; exact h)]
  simp

theorem join_append_singleton {l : List (List Char)} (h : l ≠ []) (t : List Char) :
    Scan.join ',' (l ++ [t]) = Scan.join ',' l ++ ',' :: t := by
  induction l with
  | nil => exact absurd rfl h
  | cons s l ih =>
    cases l with
    | nil => rfl
    | cons next l =>
      have htail := ih (cons_ne_nil _ _)
      rw [cons_append] at htail
      rw [cons_append, cons_append, Scan.join, htail, Scan.join, append_assoc,
        cons_append]

/-- **The text of a rule with its target.** -/
theorem ruleText_eq {tag : String} {r : Rule} (hr : r.Good)
    (htext : condition.toList = r.text) (hbare : ∀ k, r ≠ .leaf k flag false) :
    (ruleText condition tag).toList = (Line.rule r tag.toList).text := by
  by_cases hflag : ∃ k v, r = .leaf k v true
  · obtain ⟨k, v, rfl⟩ := hflag
    rw [leaf_text_flag] at htext
    rw [ruleText_of_suffix htext]
    simp [Line.text, Line.parts, Scan.join]
  · have hsuffix : ¬(',' :: flag <:+ condition.toList) := by
      rw [htext, suffix_iff hr]
      exact not_or.mpr ⟨hflag, not_exists.mpr hbare⟩
    have hparts : (Line.rule r tag.toList).parts = r.parts ++ [tag.toList] := by
      cases r with
      | node op terms => rfl
      | leaf k v noResolve =>
        cases noResolve with
        | false => rfl
        | true => exact absurd ⟨k, v, rfl⟩ hflag
    rw [ruleText_of_not_suffix hsuffix, Line.text, hparts,
      join_append_singleton (parts_ne_nil r), htext]
    rfl

theorem ruleText_bare {tag : String} {k : Kind}
    (htext : condition.toList = (Rule.leaf k flag false).text) :
    (ruleText condition tag).toList = (Line.rule (.leaf k tag.toList false) flag).text := by
  rw [leaf_text] at htext
  rw [ruleText_of_suffix htext]
  simp [Line.text, Line.parts, Rule.parts, Scan.join]

/-! ## Bare names -/

/-- The condition is one name once the nodes around it are gone. -/
inductive Sole (name : String) : Condition → Prop where
  | leaf {kind : LeafKind} : kind = .domain ∨ kind = .domainSuffix → Sole name (.leaf kind [name])
  | node {op : Connective} {c : Condition} : Sole name c → Sole name (.node op [c])

theorem sole_leaf_iff :
    Sole name (.leaf kind values) ↔
      values = [name] ∧ (kind = .domain ∨ kind = .domainSuffix) := by
  constructor
  · intro h
    cases h with
    | leaf hkind => exact ⟨rfl, hkind⟩
  · rintro ⟨rfl, hkind⟩
    exact .leaf hkind

def SoleIn (name : String) (terms : List Condition) : Prop := ∃ c, terms = [c] ∧ Sole name c

theorem sole_node_iff {name : String} {terms : List Condition} :
    Sole name (.node op terms) ↔ SoleIn name terms := by
  constructor
  · intro h
    cases h with
    | node h => exact ⟨_, rfl, h⟩
  · rintro ⟨c, rfl, h⟩
    exact .node h

theorem sole_conjunction_iff :
    Sole name (conjunction terms) ↔ SoleIn name terms := by
  unfold conjunction
  split
  · next c => simp [SoleIn]
  · exact sole_node_iff

theorem soleIn_append {a b : List Condition} :
    SoleIn name (a ++ b) ↔ (a = [] ∧ SoleIn name b) ∨ (SoleIn name a ∧ b = []) := by
  unfold SoleIn
  simp only [append_eq_singleton_iff]
  constructor
  · rintro ⟨c, ⟨ha, hb⟩ | ⟨ha, hb⟩, hc⟩
    · exact .inl ⟨ha, c, hb, hc⟩
    · exact .inr ⟨⟨c, ha, hc⟩, hb⟩
  · rintro (⟨ha, c, hb, hc⟩ | ⟨⟨c, ha, hc⟩, hb⟩)
    · exact ⟨c, .inl ⟨ha, hb⟩, hc⟩
    · exact ⟨c, .inr ⟨ha, hb⟩, hc⟩

theorem soleIn_leafTerm :
    SoleIn name (leafTerm kind values) ↔
      values = [name] ∧ (kind = .domain ∨ kind = .domainSuffix) := by
  unfold SoleIn leafTerm
  by_cases h : values = []
  · simp [h]
  · rw [if_neg h]
    simp [sole_leaf_iff]

theorem ruleTree_bare_iff (hnetworks : PrefixText schema) (h : ValidCondition schema c) :
    (∃ k, ruleTree nr c = .leaf k flag false) ↔ Sole "no-resolve" c := by
  refine shape_ind ?_ ?_ ?_ ?_ h
  · intro kind v hv
    obtain ⟨k, t, heq, -, hflag⟩ := @leafRule_value schema nr hnetworks kind v hv
    rw [ruleTree, heq, sole_leaf_iff]
    constructor
    · rintro ⟨k', heq'⟩
      obtain ⟨-, ht, -⟩ := Rule.leaf.injEq .. ▸ heq'
      obtain ⟨hkind, rfl⟩ := hflag.mp ht
      exact ⟨rfl, hkind⟩
    · rintro ⟨hname, hkind⟩
      refine ⟨k, ?_⟩
      rw [hflag.mpr ⟨hkind, by simpa using hname⟩]
      obtain rfl | rfl := hkind <;> rfl
  · intro kind values _ hone _
    rw [ruleTree_leaf hone, sole_leaf_iff]
    exact iff_of_false (fun ⟨k, heq⟩ => nomatch heq) fun hsole => hone _ hsole.1
  · intro op c ih
    rw [ruleTree, ih, sole_node_iff]
    simp [SoleIn]
  · intro op terms _ hone _
    rw [ruleTree_node hone, sole_node_iff]
    exact iff_of_false (fun ⟨k, heq⟩ => nomatch heq) fun ⟨c, hc, _⟩ => hone c hc

def setEntries (sets : ID → Option RuleSet) (m : RouteMatch) : List RuleSetEntry :=
  m.ruleSetIDs.flatMap fun id => ((sets id).map RuleSet.entries).getD []

/-- The match is one name: in one of its own fields, or as the one entry of its rule sets. -/
def bareName (sets : ID → Option RuleSet) (name : String) (m : RouteMatch) : Prop :=
  m.ipCIDRs = [] ∧ m.destinationPorts = [] ∧ m.network = [] ∧
    (m.domainExact = [name] ∧ m.domainSuffix = [] ∧ m.ruleSetIDs = [] ∨
      m.domainExact = [] ∧ m.domainSuffix = [name] ∧ m.ruleSetIDs = [] ∨
      m.domainExact = [] ∧ m.domainSuffix = [] ∧
        (setEntries sets m = [.domain name .exact] ∨ setEntries sets m = [.domain name .suffix]))

theorem sole_entry_iff {id : ID} {entry : RuleSetEntry} (h : entryCondition dns id entry = .ok c) :
    Sole name c ↔ entry = .domain name .exact ∨ entry = .domain name .suffix := by
  cases entry with
  | domain n kind =>
    cases kind with
    | exact =>
      cases h
      simp [sole_leaf_iff]
    | suffix =>
      cases h
      simp [sole_leaf_iff]
  | cidr network =>
    obtain ⟨-, hok⟩ := of_ite h
    cases hok
    simp [sole_leaf_iff]

theorem setEntries_rel {ids : List ID} {lists : List (List Condition)}
    (h : List.Forall₂ (fun id l => setConditions resources dns id = .ok l) ids lists) :
    List.Forall₂ (fun entry c => ∃ id, entryCondition dns id entry = .ok c)
      (ids.flatMap fun id => ((resources.ruleSet id).map RuleSet.entries).getD [])
      lists.flatten := by
  induction h with
  | nil => exact .nil
  | @cons id l ids lists hid _ ih =>
    rw [flatMap_cons, flatten_cons]
    refine rel_append ?_ ih
    unfold setConditions at hid
    cases hset : resources.ruleSet id with
    | none =>
      rw [hset] at hid
      cases hid
    | some set =>
      rw [hset] at hid
      exact (mapM_eq_ok_iff.mp hid).imp fun _ _ hentry => ⟨id, hentry⟩

theorem soleIn_of_rel {entries : List RuleSetEntry}
    (h : List.Forall₂ (fun entry c => ∃ id, entryCondition dns id entry = .ok c) entries terms) :
    SoleIn name terms ↔ entries = [.domain name .exact] ∨ entries = [.domain name .suffix] := by
  cases h with
  | nil => simp [SoleIn]
  | @cons entry c entries terms hentry hrest =>
    obtain ⟨id, hid⟩ := hentry
    cases hrest with
    | nil => simp [SoleIn, sole_entry_iff hid]
    | cons _ _ => simp [SoleIn]

theorem soleIn_setTerms {sets : List Condition} (h : setTerms m resources dns = .ok sets) :
    SoleIn name sets ↔ setEntries resources.ruleSet m = [.domain name .exact] ∨
      setEntries resources.ruleSet m = [.domain name .suffix] := by
  unfold setTerms at h
  by_cases hids : m.ruleSetIDs = []
  · rw [if_pos hids] at h
    cases h
    simp [SoleIn, setEntries, hids]
  · rw [if_neg hids] at h
    obtain ⟨lists, hlists, rfl⟩ := of_map h
    have hrel := setEntries_rel (mapM_eq_ok_iff.mp hlists)
    have hone : SoleIn name [Condition.node .or lists.flatten] ↔ SoleIn name lists.flatten := by
      rw [← @sole_node_iff .or name lists.flatten]
      simp [SoleIn]
    rw [hone, soleIn_of_rel hrel]
    rfl

theorem sole_routeCondition_iff
    (hsets : ∀ id s, resources.ruleSet id = some s → s.validate schema = true)
    (h : routeCondition m resources dns = .ok c) :
    Sole name c ↔ bareName resources.ruleSet name m := by
  obtain ⟨sets, hok, rfl⟩ := of_map h
  obtain ⟨hnil, -⟩ := valid_setTerms hsets hok
  have hempty : setEntries resources.ruleSet m = [.domain name .exact] ∨
      setEntries resources.ruleSet m = [.domain name .suffix] → m.ruleSetIDs ≠ [] := by
    intro hentries hids
    simp [setEntries, hids] at hentries
  rw [sole_conjunction_iff]
  unfold fieldTerms bareName
  simp only [soleIn_append, soleIn_leafTerm, leafTerm_eq_nil_iff, append_eq_nil_iff,
    soleIn_setTerms hok, hnil, map_eq_nil_iff, reduceCtorEq, or_false, or_true, and_true,
    and_false, false_or, or_self]
  tauto

/-! ## The profile -/

/-- The text reads as a rule with the given match and target. -/
def ReadsAs (schema : Schema) (sets : ID → Option RuleSet) (mode : DomainResolutionMode)
    (target : String) (m : RouteMatch) (text : String) : Prop :=
  ∃ r, parseLine text.toList = some (.rule r target.toList) ∧
    (∀ entry ∈ r.flags, entry.1 = .ipCIDR ∨ entry.1 = .ipCIDR6 →
      entry.2 = decide (mode = .preserveDomain)) ∧
    ∀ resolved f, r.holds schema resolved f =
      m.holds schema sets (seen resolved f (mode = .preserveDomain))

/-- The rules of the document are the enabled rules of the profile, in their order, and its final
target; each is a line of the grammar in one way; and the first that holds decides as the profile
does. -/
structure MeansProfile (schema : Schema) (sets : ID → Option RuleSet) (tag : TargetRef → String)
    (p : RoutingProfile) (doc : Document) : Prop where
  lines : ∃ texts last, doc.rules = texts ++ [last] ∧
    List.Forall₂ (fun (rule : RoutingRule) text =>
      ReadsAs schema sets p.domainResolutionMode (tag rule.action) rule.routeMatch text)
      (p.rules.filter RoutingRule.enabled) texts ∧
    parseLine last.toList = some (.final (tag p.final).toList)
  unambiguous : ∀ text ∈ doc.rules, ∃! l : Line, l.Good ∧ l.text = text.toList
  select : ∀ resolved f, doc.select schema resolved f = some (tag
    (p.select schema sets (seen resolved f (p.domainResolutionMode = .preserveDomain))))

theorem applyOrchestration_rules {lib : Libraries} {doc doc' : Document}
    (h : applyOrchestration lib input doc = .ok doc') :
    doc'.rules = routeRules input ++ ["MATCH," ++ nativeTag input input.exit] := by
  unfold applyOrchestration at h
  obtain ⟨groups, -, h⟩ := of_bind h
  unfold applyDNS at h
  cases hdns : input.dns with
  | none =>
    rw [hdns] at h
    cases h
    rfl
  | some d =>
    rw [hdns] at h
    obtain ⟨dns, -, rfl⟩ := of_map h
    rfl

theorem nativeTag_chars (h : IsWord (input.resolvePolicyTag tag)) :
    ∀ ch ∈ (nativeTag input tag).toList, Plain ch ∧ ch ≠ '-' := by
  unfold nativeTag
  dsimp only
  split_ifs
  · exact forall_of_all (by decide +kernel)
  · exact forall_of_all (by decide +kernel)
  · intro ch hch
    refine ⟨plain_of_class isWordChar (h ch hch) (by decide) (by decide) (by decide), ?_⟩
    rintro rfl
    exact absurd (h '-' hch) (by decide)

def lineOf (nr : Bool) (input : EmitInput) (rule : RouteRule) : Line :=
  .rule (ruleTree nr rule.condition) (nativeTag input rule.target).toList

def finalLine (input : EmitInput) (tag : String) : Line := .final (nativeTag input tag).toList

theorem lineOf_good (hnetworks : PrefixText schema) {rule : RouteRule}
    (hvalid : ValidCondition schema rule.condition)
    (hword : IsWord (input.resolvePolicyTag rule.target)) : (lineOf nr input rule).Good where
  rule r target heq := by
    cases heq
    exact ruleTree_good hnetworks hvalid
  target ch hch := (nativeTag_chars hword ch hch).1

theorem finalLine_good (hword : IsWord (input.resolvePolicyTag tag)) :
    (finalLine input tag).Good where
  rule _ _ heq := nomatch heq
  target ch hch := (nativeTag_chars hword ch hch).1

theorem finalLine_text :
    ("MATCH," ++ nativeTag input tag).toList = (finalLine input tag).text := by
  rw [String.toList_append, show "MATCH,".toList = matchWord ++ [','] by decide +kernel]
  simp [finalLine, Line.text, Line.parts, Scan.join]

theorem find?_lines {input : EmitInput} {rules : List RouteRule} {exit : String}
    (hvalid : ∀ rule ∈ rules, ValidCondition schema rule.condition) :
    ((rules.map (lineOf nr input) ++ [finalLine input exit]).find? fun l =>
        l.holds schema resolved f).map Line.target =
      some (nativeTag input (firstTarget schema (seen resolved f nr) rules exit)).toList := by
  unfold firstTarget
  induction rules with
  | nil => rfl
  | cons rule rules ih =>
    have hholds : (lineOf nr input rule).holds schema resolved f =
        rule.condition.holds schema (seen resolved f nr) :=
      ruleTree_holds (hvalid rule mem_cons_self)
    rw [map_cons, cons_append]
    cases hc : rule.condition.holds schema (seen resolved f nr) with
    | true =>
      rw [List.find?_cons_of_pos (by rw [hholds, hc]), List.find?_cons_of_pos (by simpa using hc)]
      rfl
    | false =>
      rw [List.find?_cons_of_neg (by simp [hholds, hc]), List.find?_cons_of_neg (by simp [hc])]
      exact ih fun r hr => hvalid r (mem_cons_of_mem _ hr)

end

/-! ## The emitted lines -/

/-- The compiled rules of a profile and the document that they were written to. -/
structure Emitted (schema : Schema) (b : Base) (input : EmitInput) (p : RoutingProfile)
    (rules : List RouteRule) (doc : Document) : Prop where
  enabled : List.Forall₂ (fun (rule : RoutingRule) (r : RouteRule) =>
    routeCondition rule.routeMatch b.resources false = .ok r.condition ∧
      r.target = b.resolve rule.action) (p.rules.filter RoutingRule.enabled) rules
  valid : ∀ rule ∈ rules, ValidCondition schema rule.condition
  sets : ∀ id s, b.resources.ruleSet id = some s → s.validate schema = true
  words : ∀ ref, IsWord (input.resolvePolicyTag (b.resolve ref))
  rules_eq : doc.rules = rules.map (fun rule =>
    ruleText (nativeCondition (p.domainResolutionMode = .preserveDomain) rule.condition)
      (nativeTag input rule.target)) ++ ["MATCH," ++ nativeTag input (b.resolve p.final)]
  select : ∀ f, firstTarget schema f rules (b.resolve p.final) =
    b.resolve (p.select schema b.resources.ruleSet f)

theorem exists_emitted {c : Compiler} {lib : Libraries} {spec : FrozenInputSpec}
    {target : Target} {b : Base} {graph : Graph} {diags : List Diagnostic} {ref : FrozenRef}
    {r : Resource} {p : RoutingProfile} {doc doc' : Document}
    (hb : c.base spec target = .ok b) (hprepare : c.prepare spec target = .ok (graph, diags))
    (href : spec.routingProfile = some ref) (hr : spec.byID ref.resourceID = some r)
    (hp : r.payload = .routingProfile p)
    (happly : applyOrchestration lib graph.emitInput doc = .ok doc') :
    ∃ rules, Emitted c.schema b graph.emitInput p rules doc' := by
  have hprepared := prepare_prepared hb hprepare
  have hprofile := routingProfile_of_spec hb href hr hp
  obtain ⟨x, hx, -, -⟩ := base_expanded hb
  obtain ⟨rules, hcompiled, hrouting, -⟩ := hprepared.routing_eq hprofile
  have hexit := exit_eq hx hprepared hprofile
  refine ⟨rules, compiled_enabled hcompiled, ?_, ruleSet_valid hb, fun ref => ?_, ?_, fun f => ?_⟩
  · refine valid_compiled hb (valid_routingRules ?_) hcompiled
    simpa [hp, Payload.validate] using payload_valid hb hr
  · exact isWord_resolved hx hprepared (isWord_resolve hx ref)
  · rw [applyOrchestration_rules happly, routeRules,
      show graph.emitInput.routing = _ from hrouting, hexit]
    rfl
  · have hselect := @select_eq_resolve b c.schema f c.digest x graph hx hprepared r p hprofile
    unfold EmitInput.select at hselect
    rw [hexit, show graph.emitInput.routing = _ from hrouting] at hselect
    simpa using hselect

namespace Emitted

variable {schema : Schema} {b : Base} {input : EmitInput} {p : RoutingProfile}
  {rules : List RouteRule} {doc : Document} {r : RouteRule} {nr : Bool}

theorem exists_rule (h : Emitted schema b input p rules doc) (hr : r ∈ rules) :
    ∃ rule ∈ p.rules, rule.enabled = true ∧
      routeCondition rule.routeMatch b.resources false = .ok r.condition ∧
      r.target = b.resolve rule.action := by
  obtain ⟨rule, hmem, hcond, htarget⟩ := h.enabled.exists_left hr
  obtain ⟨hrule, hen⟩ := mem_filter.mp hmem
  exact ⟨rule, hrule, hen, hcond, htarget⟩

theorem bare_iff (h : Emitted schema b input p rules doc) (hnetworks : PrefixText schema)
    (hr : r ∈ rules) (hcond : routeCondition m b.resources false = .ok r.condition) :
    (∃ k, ruleTree nr r.condition = .leaf k flag false) ↔
      bareName b.resources.ruleSet "no-resolve" m := by
  rw [ruleTree_bare_iff hnetworks (h.valid r hr), sole_routeCondition_iff h.sets hcond]

theorem target_chars (h : Emitted schema b input p rules doc) (hr : r ∈ rules) :
    ∀ ch ∈ (nativeTag input r.target).toList, Plain ch ∧ ch ≠ '-' := by
  obtain ⟨rule, -, -, -, htarget⟩ := h.exists_rule hr
  rw [htarget]
  exact nativeTag_chars (h.words rule.action)

theorem not_readsAs (h : Emitted schema b input p rules doc) (hnetworks : PrefixText schema)
    (hr : r ∈ rules) (hcond : routeCondition m b.resources false = .ok r.condition)
    (hname : bareName b.resources.ruleSet "no-resolve" m) {sets : ID → Option RuleSet}
    {mode : DomainResolutionMode} : ¬ReadsAs schema sets mode (nativeTag input r.target) m
      (ruleText (nativeCondition nr r.condition) (nativeTag input r.target)) := by
  rintro ⟨tree, hparse, -, -⟩
  obtain ⟨k, htree⟩ := (h.bare_iff hnetworks hr hcond).mpr hname
  have htext := @nativeCondition_text schema nr r.condition (h.valid r hr)
  rw [htree] at htext
  have hchars := h.target_chars hr
  have hgood : (Line.rule (.leaf k (nativeTag input r.target).toList false) flag).Good := by
    refine ⟨fun r' t heq => ?_, plain_flag⟩
    cases heq
    exact .leaf fun ch hch => (hchars ch hch).1
  rw [ruleText_bare htext, parseLine_text hgood] at hparse
  have hflag := congrArg (Option.map Line.target) hparse
  simp only [Option.map_some, Line.target, Option.some.injEq] at hflag
  exact (hchars '-' (hflag ▸ by decide +kernel)).2 rfl

theorem not_bare (h : Emitted schema b input p rules doc) (hnetworks : PrefixText schema)
    (hmeans : MeansProfile schema b.resources.ruleSet
      (fun ref => nativeTag input (b.resolve ref)) p doc) :
    ∀ rule ∈ p.rules, rule.enabled = true →
      ¬bareName b.resources.ruleSet "no-resolve" rule.routeMatch := by
  intro rule hrule hen hname
  obtain ⟨texts, last, htexts, hreads, -⟩ := hmeans.lines
  obtain ⟨rfl, -⟩ := append_inj' (htexts.symm.trans h.rules_eq) rfl
  rw [forall₂_map_right_iff] at hreads
  have hmem : rule ∈ p.rules.filter RoutingRule.enabled := mem_filter.mpr ⟨hrule, hen⟩
  obtain ⟨i, hi, rfl⟩ := getElem_of_mem hmem
  have hi' : i < rules.length := h.enabled.length_eq ▸ hi
  obtain ⟨hcond, htarget⟩ := (forall₂_iff_get.mp h.enabled).2 i hi hi'
  have hread := (forall₂_iff_get.mp hreads).2 i hi hi'
  rw [← htarget] at hread
  exact h.not_readsAs hnetworks (get_mem rules ⟨i, hi'⟩) hcond hname hread

def lines (input : EmitInput) (b : Base) (p : RoutingProfile) (rules : List RouteRule) :
    List Line :=
  rules.map (lineOf (p.domainResolutionMode = .preserveDomain) input) ++
    [finalLine input (b.resolve p.final)]

theorem lines_good (h : Emitted schema b input p rules doc) (hnetworks : PrefixText schema) :
    ∀ l ∈ lines input b p rules, l.Good := by
  intro l hl
  obtain hl | hl := mem_append.mp hl
  · obtain ⟨r, hr, rfl⟩ := mem_map.mp hl
    obtain ⟨rule, -, -, -, htarget⟩ := h.exists_rule hr
    exact lineOf_good hnetworks (h.valid r hr) (htarget ▸ h.words rule.action)
  · rw [mem_singleton.mp hl]
    exact finalLine_good (h.words p.final)

variable (hnames : ∀ rule ∈ p.rules, rule.enabled = true →
  ¬bareName b.resources.ruleSet "no-resolve" rule.routeMatch)

include hnames

theorem line_text (h : Emitted schema b input p rules doc) (hnetworks : PrefixText schema)
    (hr : r ∈ rules) :
    (ruleText (nativeCondition nr r.condition) (nativeTag input r.target)).toList =
      (lineOf nr input r).text := by
  obtain ⟨rule, hrule, hen, hcond, -⟩ := h.exists_rule hr
  refine ruleText_eq (ruleTree_good hnetworks (h.valid r hr)) (nativeCondition_text (h.valid r hr))
    fun k htree => ?_
  exact hnames rule hrule hen ((h.bare_iff hnetworks hr hcond).mp ⟨k, htree⟩)

theorem rules_eq_lines (h : Emitted schema b input p rules doc) (hnetworks : PrefixText schema) :
    doc.rules = (lines input b p rules).map fun l => String.ofList l.text := by
  rw [h.rules_eq, lines, map_append, map_map]
  congr 1
  · refine map_congr_left fun r hr => ?_
    rw [← String.toList_inj, h.line_text hnames hnetworks hr]
    simp
  · rw [map_singleton, ← finalLine_text, String.ofList_toList]

theorem readsAs (h : Emitted schema b input p rules doc) (hnetworks : PrefixText schema)
    (hr : r ∈ rules) (hcond : routeCondition m b.resources false = .ok r.condition) :
    ReadsAs schema b.resources.ruleSet p.domainResolutionMode (nativeTag input r.target) m
      (ruleText (nativeCondition (p.domainResolutionMode = .preserveDomain) r.condition)
        (nativeTag input r.target)) := by
  have hgood : (lineOf (p.domainResolutionMode = .preserveDomain) input r).Good :=
    h.lines_good hnetworks _ (mem_append_left _ (mem_map.mpr ⟨r, hr, rfl⟩))
  refine ⟨ruleTree _ r.condition, ?_, ruleTree_flags (h.valid r hr), fun resolved f => ?_⟩
  · rw [h.line_text hnames hnetworks hr, parseLine_text hgood]
    rfl
  · rw [ruleTree_holds (h.valid r hr), routeCondition_holds hcond]

theorem select_eq (h : Emitted schema b input p rules doc) (hnetworks : PrefixText schema)
    (resolved : List Netip.Addr) (f : Flow) :
    doc.select schema resolved f = some (nativeTag input (b.resolve (p.select schema
      b.resources.ruleSet (seen resolved f (p.domainResolutionMode = .preserveDomain))))) := by
  have hread : (doc.rules.mapM fun text => parseLine text.toList) =
      some (lines input b p rules) := by
    rw [h.rules_eq_lines hnames hnetworks]
    refine mapM_map fun l hl => ?_
    rw [String.toList_ofList]
    exact parseLine_text (h.lines_good hnetworks l hl)
  have hfind := @find?_lines schema resolved f (p.domainResolutionMode = .preserveDomain) input
    rules (b.resolve p.final) h.valid
  rw [h.select] at hfind
  rw [Document.select, hread, Option.bind_some, ← Function.comp_def String.ofList,
    ← Option.map_map]
  unfold lines
  rw [hfind, Option.map_some, String.ofList_toList]

theorem meansProfile (h : Emitted schema b input p rules doc) (hnetworks : PrefixText schema) :
    MeansProfile schema b.resources.ruleSet (fun ref => nativeTag input (b.resolve ref)) p doc where
  lines := by
    refine ⟨_, _, h.rules_eq, ?_, ?_⟩
    · rw [forall₂_map_right_iff]
      refine forall₂_iff_get.mpr ⟨h.enabled.length_eq, fun i hi hi' => ?_⟩
      obtain ⟨hcond, htarget⟩ := (forall₂_iff_get.mp h.enabled).2 i hi hi'
      rw [← htarget]
      exact h.readsAs hnames hnetworks (get_mem rules ⟨i, hi'⟩) hcond
    · rw [finalLine_text, parseLine_text (finalLine_good (h.words p.final))]
      rfl
  unambiguous text htext := by
    rw [h.rules_eq_lines hnames hnetworks] at htext
    obtain ⟨l, hl, rfl⟩ := mem_map.mp htext
    have hgood := h.lines_good hnetworks l hl
    refine ⟨l, ⟨hgood, by simp⟩, fun l' hl' => ?_⟩
    exact lines_unambiguous hl'.1 hgood (by simpa using hl'.2)
  select := h.select_eq hnames hnetworks

end Emitted

/-- **The rules mean the profile**, unless an enabled rule is the bare name `no-resolve`: its text
ends like the flag, and the target is put in the place of the name. -/
theorem rules_mean_profile_iff {c : Compiler} {lib : Libraries} {spec : FrozenInputSpec}
    {target : Target} {b : Base} {graph : Graph} {diags : List Diagnostic} {ref : FrozenRef}
    {r : Resource} {p : RoutingProfile} {doc doc' : Document} (hnetworks : PrefixText c.schema)
    (hb : c.base spec target = .ok b) (hprepare : c.prepare spec target = .ok (graph, diags))
    (href : spec.routingProfile = some ref) (hr : spec.byID ref.resourceID = some r)
    (hp : r.payload = .routingProfile p)
    (happly : applyOrchestration lib graph.emitInput doc = .ok doc') :
    MeansProfile c.schema (Resources.ruleSet spec.byID)
        (fun ref => nativeTag graph.emitInput (b.resolve ref)) p doc' ↔
      ∀ rule ∈ p.rules, rule.enabled = true →
        ¬bareName (Resources.ruleSet spec.byID) "no-resolve" rule.routeMatch := by
  obtain ⟨rules, h⟩ := exists_emitted hb hprepare href hr hp happly
  rw [← base_ruleSet hb]
  exact ⟨h.not_bare hnetworks, fun hnames => h.meansProfile hnames hnetworks⟩

/-! ## Two profiles -/

theorem hostnameSchema_prefixText : PrefixText hostnameSchema := fun _ h => nomatch h

theorem rules_mean_profile_small :
    ∃ b graph diags doc',
      (smallCompiler .mihomo).base (smallSnapshot .mihomo smallRouting smallDNS)
        (smallTarget .mihomo) = .ok b ∧
      (smallCompiler .mihomo).prepare (smallSnapshot .mihomo smallRouting smallDNS)
        (smallTarget .mihomo) = .ok (graph, diags) ∧
      applyOrchestration hostnameLibraries graph.emitInput (initialDocument "" []) = .ok doc' ∧
      MeansProfile hostnameSchema
        (Resources.ruleSet (smallSnapshot .mihomo smallRouting smallDNS).byID)
        (fun ref => nativeTag graph.emitInput (b.resolve ref)) smallRouting doc' := by
  have hsome : ((smallCompiler .mihomo).prepare (smallSnapshot .mihomo smallRouting smallDNS)
      (smallTarget .mihomo) >>= fun (graph, _) => applyOrchestration hostnameLibraries
        graph.emitInput (initialDocument "" [])).toOption.isSome = true := by decide +kernel
  obtain ⟨doc', hdoc⟩ := Option.isSome_iff_exists.mp hsome
  obtain ⟨⟨graph, diags⟩, hprepare, happly⟩ :=
    of_bind (eq_ok_of_toOption hdoc)
  obtain ⟨b, -, -, -, hb, -⟩ := prepare_eq_ok hprepare
  obtain ⟨ref, r, href, hr, hp⟩ := smallSnapshot_routing .mihomo smallRouting smallDNS
  refine ⟨b, graph, diags, doc', hb, hprepare, happly,
    (rules_mean_profile_iff hostnameSchema_prefixText hb hprepare href hr hp happly).mpr ?_⟩
  intro rule hrule _ hname
  rw [mem_singleton.mp hrule] at hname
  obtain ⟨-, -, -, hname | hname | ⟨-, hname, -⟩⟩ := hname
  · cases hname.1
  · exact absurd hname.2.1 (by decide)
  · cases hname

/-- A rule that refuses the host `no-resolve`. -/
def flagRouting : RoutingProfile :=
  { smallRouting with
    rules := [⟨⟨["no-resolve"], [], [], [], [], []⟩, .builtin .reject, true, ""⟩] }

/-- Its line reads as a rule on the name `REJECT` with the target `no-resolve`. -/
theorem flag_name_misread :
    ∃ b graph diags doc',
      (smallCompiler .mihomo).base (smallSnapshot .mihomo flagRouting smallDNS)
        (smallTarget .mihomo) = .ok b ∧
      (smallCompiler .mihomo).prepare (smallSnapshot .mihomo flagRouting smallDNS)
        (smallTarget .mihomo) = .ok (graph, diags) ∧
      applyOrchestration hostnameLibraries graph.emitInput (initialDocument "" []) = .ok doc' ∧
      doc'.rules = ["DOMAIN,REJECT,no-resolve", "MATCH,n_aaaaaaaa"] ∧
      ¬MeansProfile hostnameSchema
        (Resources.ruleSet (smallSnapshot .mihomo flagRouting smallDNS).byID)
        (fun ref => nativeTag graph.emitInput (b.resolve ref)) flagRouting doc' := by
  have hrules : ((smallCompiler .mihomo).prepare (smallSnapshot .mihomo flagRouting smallDNS)
      (smallTarget .mihomo) >>= fun (graph, _) => applyOrchestration hostnameLibraries
        graph.emitInput (initialDocument "" [])).toOption.map Document.rules =
      some ["DOMAIN,REJECT,no-resolve", "MATCH,n_aaaaaaaa"] := by decide +kernel
  obtain ⟨doc', hdoc, heq⟩ := Option.map_eq_some_iff.mp hrules
  obtain ⟨⟨graph, diags⟩, hprepare, happly⟩ :=
    of_bind (eq_ok_of_toOption hdoc)
  obtain ⟨b, -, -, -, hb, -⟩ := prepare_eq_ok hprepare
  obtain ⟨ref, r, href, hr, hp⟩ := smallSnapshot_routing .mihomo flagRouting smallDNS
  obtain ⟨rules, hemitted⟩ := exists_emitted hb hprepare href hr hp happly
  refine ⟨b, graph, diags, doc', hb, hprepare, happly, heq, fun hmeans => ?_⟩
  rw [← base_ruleSet hb] at hmeans
  exact hemitted.not_bare hostnameSchema_prefixText hmeans _ mem_cons_self rfl
    ⟨rfl, rfl, rfl, .inl ⟨rfl, rfl, rfl⟩⟩

end ProxyLoom.Adapter.Mihomo
