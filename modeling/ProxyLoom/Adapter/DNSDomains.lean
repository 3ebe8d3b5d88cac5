import ProxyLoom.Compiler.Condition

/-!
# Names of a DNS rule

Xray and Mihomo have no conjunctions of name patterns, so a condition over names is reduced to one
union of patterns: an OR to the patterns of all its terms, an AND to an intersection. The two cores
write the patterns differently, and sort them as they write them.
-/

namespace ProxyLoom.Adapter

open IR Compiler Domain List Except

/-- What a core writes before a name, and before a name that stands for its tree. -/
structure PatternText where
  full : String
  tree : String

def PatternText.text (t : PatternText) : Pattern → String
  | .full name => t.full ++ String.ofList name
  | .tree name => t.tree ++ String.ofList name

section
variable (t : PatternText)

/-- Sorted by their texts, without repetitions. -/
def sortPatterns (l : List Pattern) : List Pattern :=
  Slices.compact (l.insertionSort fun p q => t.text p ≤ t.text q)

/-- The set has the pattern or a tree that it lies in. -/
def containsPattern (set : List Pattern) (p : Pattern) : Bool :=
  set.contains p || (ancestors p.name).any fun name => set.contains (.tree name)

/-- Of two patterns that overlap one lies in the other, so the common ones are kept. -/
def dnsDomainIntersection (a b : List Pattern) : List Pattern :=
  sortPatterns t (a.filter (containsPattern b) ++ b.filter (containsPattern a))

/-- The limit on the patterns, checked after every step. -/
def checkCount (out : List Pattern) : Except DiagnosticCode (List Pattern) :=
  if maxRules < out.length then .error .inputLimitExceeded else .ok out

mutual

/-- The union of patterns a condition is reduced to. -/
def dnsDomains : Condition → Except DiagnosticCode (List Pattern)
  | .leaf .domain values => checkCount (values.map fun v => .full v.toList)
  | .leaf .domainSuffix values => checkCount (values.map fun v => .tree v.toList)
  | .leaf _ _ => .error .compileUnmappedField
  | .node _ [] => .error .compileUnmappedField
  | .node .or (c :: terms) => (anyDomains [] (c :: terms)).map (sortPatterns t)
  | .node .and (c :: terms) => do
    let first ← dnsDomains c
    let out ← checkCount first
    (allDomains out terms).map (sortPatterns t)

def anyDomains (out : List Pattern) : List Condition → Except DiagnosticCode (List Pattern)
  | [] => .ok out
  | c :: terms => do
    let next ← dnsDomains c
    let out ← checkCount (out ++ next)
    anyDomains out terms

def allDomains (out : List Pattern) : List Condition → Except DiagnosticCode (List Pattern)
  | [] => .ok out
  | c :: terms => do
    let next ← dnsDomains c
    let out ← checkCount (dnsDomainIntersection t out next)
    allDomains out terms

end

end

/-! ## Meaning -/

/-- Two patterns are nested or apart. -/
def patterns : Laminar Pattern (List Char) where
  Ok _ := True
  holds := Pattern.holds
  includes := Pattern.includes
  sound _ _ := Pattern.holds_of_includes
  overlap _ _ := Pattern.includes_or_includes

section
variable {t : PatternText} {n : List Char} {l : List Pattern}

theorem containsPattern_eq {set : List Pattern} {p : Pattern} :
    containsPattern set p = set.any fun q => q.includes p := by
  rw [Bool.eq_iff_iff]
  simp only [containsPattern, Bool.or_eq_true, contains_iff_mem, any_eq_true]
  constructor
  · rintro (h | ⟨name, hname, h⟩)
    · refine ⟨p, h, ?_⟩
      cases p with
      | full a => simp [Pattern.includes]
      | tree a => exact under_refl
    · exact ⟨.tree name, h, mem_ancestors.mp hname⟩
  · rintro ⟨q, hq, h⟩
    cases q with
    | full a =>
      cases p with
      | full b =>
        have hab : a = b := of_decide_eq_true h
        exact .inl (hab ▸ hq)
      | tree b => cases h
    | tree a => exact .inr ⟨a, mem_ancestors.mpr h, hq⟩

theorem mem_sortPatterns {p : Pattern} : p ∈ sortPatterns t l ↔ p ∈ l := by
  rw [sortPatterns, Slices.mem_compact, mem_insertionSort]

theorem any_sortPatterns {p : Pattern → Bool} :
    (sortPatterns t l).any p = l.any p := by
  rw [Bool.eq_iff_iff, any_eq_true, any_eq_true]
  exact exists_congr fun q => and_congr_left fun _ => mem_sortPatterns

theorem any_intersection {a b : List Pattern} :
    (dnsDomainIntersection t a b).any (Pattern.holds · n) =
      (a.any (Pattern.holds · n) && b.any (Pattern.holds · n)) := by
  have hcommon : a.filter (containsPattern b) ++ b.filter (containsPattern a) =
      patterns.common a b := by
    simp only [Laminar.common, funext fun p => @containsPattern_eq b p,
      funext fun p => @containsPattern_eq a p]
    rfl
  rw [dnsDomainIntersection, any_sortPatterns, hcommon]
  exact Laminar.any_common (fun _ _ => trivial) fun _ _ => trivial

theorem checkCount_eq_ok {out : List Pattern} (h : checkCount l = .ok out) : l = out :=
  Except.ok.inj (of_ite h).2

end

section
variable {t : PatternText} {schema : Schema} {name : String} {out : List Pattern}

def NamesValid (schema : Schema) (out : List Pattern) : Prop :=
  ∀ p ∈ out, validDomainName schema (String.ofList p.name) = true

/-- The patterns hold of the names the condition holds of. -/
def Reduces (t : PatternText) (schema : Schema) (name : String) (c : Condition) : Prop :=
  ∀ out, dnsDomains t c = .ok out →
    out.any (Pattern.holds · name.toList) = c.holds schema (Flow.query name) ∧ NamesValid schema out

theorem anyDomains_holds {terms : List Condition} {out' : List Pattern}
    (hterms : ∀ c ∈ terms, Reduces t schema name c) (hout : NamesValid schema out)
    (h : anyDomains t out terms = .ok out') :
    out'.any (Pattern.holds · name.toList) =
      (out.any (Pattern.holds · name.toList) ||
        terms.any fun c => c.holds schema (Flow.query name)) ∧ NamesValid schema out' := by
  induction terms generalizing out with
  | nil =>
    rw [anyDomains] at h
    cases h
    exact ⟨by simp, hout⟩
  | cons c terms ih =>
    rw [anyDomains] at h
    obtain ⟨next, hnext, h⟩ := of_bind h
    obtain ⟨joined, hjoined, h⟩ := of_bind h
    obtain rfl := checkCount_eq_ok hjoined
    obtain ⟨hholds, hnames⟩ := hterms c mem_cons_self next hnext
    obtain ⟨hrest, hvalid⟩ := ih (fun c' hc' => hterms c' (mem_cons_of_mem _ hc'))
      (fun p hp => (mem_append.mp hp).elim (hout p) (hnames p)) h
    exact ⟨by rw [hrest, any_append, hholds, any_cons, Bool.or_assoc], hvalid⟩

theorem allDomains_holds {terms : List Condition} {out' : List Pattern}
    (hterms : ∀ c ∈ terms, Reduces t schema name c) (hout : NamesValid schema out)
    (h : allDomains t out terms = .ok out') :
    out'.any (Pattern.holds · name.toList) =
      (out.any (Pattern.holds · name.toList) &&
        terms.all fun c => c.holds schema (Flow.query name)) ∧ NamesValid schema out' := by
  induction terms generalizing out with
  | nil =>
    rw [allDomains] at h
    cases h
    exact ⟨by simp, hout⟩
  | cons c terms ih =>
    rw [allDomains] at h
    obtain ⟨next, hnext, h⟩ := of_bind h
    obtain ⟨joined, hjoined, h⟩ := of_bind h
    obtain rfl := checkCount_eq_ok hjoined
    obtain ⟨hholds, hnames⟩ := hterms c mem_cons_self next hnext
    have hmeet : NamesValid schema (dnsDomainIntersection t out next) := fun p hp =>
      (mem_append.mp (mem_sortPatterns.mp hp)).elim
        (fun hp => hout p (mem_of_mem_filter hp))
        fun hp => hnames p (mem_of_mem_filter hp)
    obtain ⟨hrest, hvalid⟩ := ih (fun c' hc' => hterms c' (mem_cons_of_mem _ hc')) hmeet h
    exact ⟨by rw [hrest, any_intersection, hholds, all_cons, Bool.and_assoc], hvalid⟩

theorem leaf_holds (kind : LeafKind) (pattern : List Char → Pattern)
    (hname : ∀ v, (pattern v).name = v)
    (h : ∀ v : String, (pattern v.toList).holds name.toList = kind.holds schema (Flow.query name) v)
    {values : List String} (hvalues : ∀ v ∈ values, validDomainName schema v = true)
    (hok : checkCount (values.map fun v => pattern v.toList) = .ok out) :
    out.any (Pattern.holds · name.toList) =
      Condition.holds schema (Flow.query name) (.leaf kind values) ∧ NamesValid schema out := by
  obtain rfl := checkCount_eq_ok hok
  refine ⟨?_, fun p hp => ?_⟩
  · rw [any_map, Condition.holds_leaf]
    exact Slices.any_congr fun v _ => h v
  · obtain ⟨v, hv, rfl⟩ := mem_map.mp hp
    rw [hname, String.ofList_toList]
    exact hvalues v hv

/-- **A condition over names as a union of patterns.** -/
theorem dnsDomains_spec (t : PatternText) (name : String) {c : Condition}
    (hc : ValidCondition schema c) : Reduces t schema name c := by
  induction hc with
  | @leaf kind values _ hvalues =>
    intro out h
    cases kind with
    | domain =>
      rw [dnsDomains] at h
      refine leaf_holds .domain .full (fun _ => rfl) (fun v => ?_) hvalues h
      simp [Pattern.holds, LeafKind.holds, Flow.named, Flow.query, DomainMatchKind.holds,
        String.toList_inj]
    | domainSuffix =>
      rw [dnsDomains] at h
      refine leaf_holds .domainSuffix .tree (fun _ => rfl) (fun v => ?_) hvalues h
      simp [Pattern.holds, LeafKind.holds, Flow.named, Flow.query, DomainMatchKind.holds]
    | ipCIDR | port | network =>
      simp only [dnsDomains] at h
      cases h
  | @node op terms hne _ ih =>
    intro out h
    cases terms with
    | nil => exact absurd rfl hne
    | cons c terms =>
      cases op with
      | or =>
        rw [dnsDomains] at h
        obtain ⟨out', hout, rfl⟩ := of_map h
        obtain ⟨hholds, hnames⟩ := anyDomains_holds ih (fun p hp => absurd hp not_mem_nil) hout
        refine ⟨?_, fun p hp => hnames p (mem_sortPatterns.mp hp)⟩
        rw [any_sortPatterns, hholds, Condition.holds_or]
        rfl
      | and =>
        rw [dnsDomains] at h
        obtain ⟨first, hfirst, h⟩ := of_bind h
        obtain ⟨checked, hchecked, h⟩ := of_bind h
        obtain ⟨out', hout, rfl⟩ := of_map h
        obtain rfl := checkCount_eq_ok hchecked
        obtain ⟨hsame, hvalid⟩ := ih c mem_cons_self _ hfirst
        obtain ⟨hholds, hnames⟩ :=
          allDomains_holds (fun c' hc' => ih c' (mem_cons_of_mem _ hc')) hvalid hout
        refine ⟨?_, fun p hp => hnames p (mem_sortPatterns.mp hp)⟩
        rw [any_sortPatterns, hholds, hsame, Condition.holds_and, all_cons]

end

end ProxyLoom.Adapter
