import Mathlib.Data.List.Infix
import ProxyLoom.Compiler.Unique
import ProxyLoom.Adapter.Mihomo.Routing

/-!
# The guard against the direct outbound

Where nothing uses the direct outbound, the emitter refuses a document whose rules mention `DIRECT`
behind a comma. It looks at the text of the rules, in any case of the letters.
-/

namespace ProxyLoom.Adapter.Mihomo

open IR Compiler Nested List Except

def directWord : List Char := "DIRECT".toList

/-- The text is `DIRECT`, or goes on behind it. -/
def StartsDirect (t : List Char) : Prop := directWord <+: t.map upperChar

instance : DecidablePred StartsDirect := fun t =>
  inferInstanceAs (Decidable (directWord <+: t.map upperChar))

def Mentions (t : List Char) : Prop := Behind upperChar directWord t

/-! ## Lines that mention the word -/

theorem upperChar_comma {c : Char} : upperChar c = ',' ↔ c = ',' := by
  unfold upperChar
  split_ifs with h
  · refine iff_of_false (fun heq => ?_) (by rintro rfl; exact absurd h (by decide))
    have hn : (Char.ofNat (c.toNat - 32)).toNat = 44 := by rw [heq]; rfl
    simp only [Text.isLower, Bool.and_eq_true, decide_eq_true_eq] at h
    have hlow : 97 ≤ c.toNat := h.1
    have hhigh : c.toNat ≤ 122 := h.2
    rw [Char.ofNat, dif_pos (.inl (by omega))] at hn
    have hsub : c.toNat - 32 = 44 := hn
    omega
  · rfl

theorem delimiter_not_mem (c : Char) (h : ¬Plain c) : upperChar c ∉ directWord := by
  have hcases : c = ',' ∨ c = '(' ∨ c = ')' := by
    unfold Plain at h
    tauto
  obtain rfl | rfl | rfl := hcases <;> decide +kernel

variable {t rest : List Char} {tag : String} {input : EmitInput}

theorem startsDirect_append {v : List Char} (h : Ends t) :
    StartsDirect (v ++ t) ↔ StartsDirect v := starts_append delimiter_not_mem h

theorem mentions_iff (t : List Char) : Mentions t ↔
    (t.map upperChar).tails.any (fun tail => ",DIRECT".toList.isPrefixOf tail) = true := by
  rw [show ",DIRECT".toList = ',' :: directWord by decide +kernel, any_eq_true]
  constructor
  · rintro ⟨s, hs, hword⟩
    refine ⟨(',' :: s).map upperChar, (List.mem_tails _ _).mpr (hs.map _), ?_⟩
    rw [List.isPrefixOf_iff_prefix, map_cons, upperChar_comma.mpr rfl]
    exact cons_prefix_cons.mpr ⟨rfl, hword⟩
  · rintro ⟨u, hu, hword⟩
    obtain ⟨p, hp⟩ := (List.mem_tails _ _).mp hu
    obtain ⟨a, s, rfl, -, rfl⟩ := map_eq_append_iff.mp hp.symm
    rw [List.isPrefixOf_iff_prefix] at hword
    cases s with
    | nil => exact absurd (prefix_nil.mp hword) (cons_ne_nil _ _)
    | cons c s =>
      obtain ⟨hc, hrest⟩ := cons_prefix_cons.mp hword
      obtain rfl := upperChar_comma.mp hc.symm
      exact ⟨s, suffix_append _ _, hrest⟩

inductive Rule.NamesDirect : Rule → Prop where
  | leaf {kind : Kind} {value : List Char} {noResolve : Bool} : StartsDirect value →
    NamesDirect (.leaf kind value noResolve)
  | node {op : Connective} {terms : List Rule} {r : Rule} : r ∈ terms → NamesDirect r →
    NamesDirect (.node op terms)

theorem namesDirect_leaf_iff {kind : Kind} {value : List Char} {noResolve : Bool} :
    (Rule.leaf kind value noResolve).NamesDirect ↔ StartsDirect value := by
  refine ⟨fun h => ?_, .leaf⟩
  cases h with
  | leaf h => exact h

theorem namesDirect_node_iff {op : Connective} {terms : List Rule} :
    (Rule.node op terms).NamesDirect ↔ ∃ r ∈ terms, r.NamesDirect := by
  refine ⟨fun h => ?_, fun ⟨r, hr, h⟩ => .node hr h⟩
  cases h with
  | node hr h => exact ⟨_, hr, h⟩

theorem mentions_field {v rest : List Char} (hv : ∀ c ∈ v, Plain c) (hrest : Ends rest) :
    Mentions (',' :: (v ++ rest)) ↔ StartsDirect v ∨ Mentions rest := by
  unfold Mentions
  rw [behind_comma, behind_append (comma_not_mem hv)]
  exact or_congr (startsDirect_append hrest) Iff.rfl

theorem mentions_flag (hrest : Ends rest) :
    Mentions (',' :: (flag ++ rest)) ↔ Mentions rest := by
  rw [mentions_field plain_flag hrest]
  exact or_iff_right (by decide +kernel)

theorem mentions_group :
    Mentions (group t ++ rest) ↔ Mentions (t ++ ')' :: rest) := by
  have htext : group t ++ rest = '(' :: (t ++ ')' :: rest) := by simp [group]
  rw [htext]
  exact behind_cons (by decide)

theorem mentions_comma_group :
    Mentions (',' :: (group t ++ rest)) ↔ Mentions (group t ++ rest) := by
  unfold Mentions
  rw [behind_comma]
  refine or_iff_right ?_
  rw [show group t ++ rest = '(' :: (t ++ ')' :: rest) by simp [group]]
  exact not_starts delimiter_not_mem (by decide +kernel) (by decide)

theorem mentions_close : Mentions (')' :: rest) ↔ Mentions rest :=
  behind_cons (by decide)

theorem mentions_leaf {kind : Kind} {value : List Char} {noResolve : Bool}
    (hvalue : ∀ c ∈ value, Plain c) (hrest : Ends rest) :
    Mentions ((Rule.leaf kind value noResolve).text ++ rest) ↔
      StartsDirect value ∨ Mentions rest := by
  have hkind := comma_not_mem (plain_text kind)
  cases noResolve with
  | false =>
    rw [leaf_text, append_assoc, cons_append, ← mentions_field hvalue hrest]
    exact behind_append hkind
  | true =>
    rw [leaf_text_flag, append_assoc, append_assoc, cons_append, cons_append,
      ← mentions_flag hrest, ← mentions_field hvalue ends_comma]
    exact behind_append hkind

theorem mentions_terms {terms : List Rule} (hne : terms ≠ [])
    (h : ∀ r ∈ terms, ∀ rest, Ends rest →
      (Mentions (r.text ++ rest) ↔ r.NamesDirect ∨ Mentions rest)) :
    Mentions (Scan.join ',' (groupTexts terms) ++ rest) ↔
      (∃ r ∈ terms, r.NamesDirect) ∨ Mentions rest := by
  induction terms with
  | nil => exact absurd rfl hne
  | cons r terms ih =>
    have hr := h r mem_cons_self
    have htail : ∀ r' ∈ terms, ∀ rest, Ends rest →
        (Mentions (r'.text ++ rest) ↔ r'.NamesDirect ∨ Mentions rest) :=
      fun r' hr' => h r' (mem_cons_of_mem _ hr')
    cases terms with
    | nil =>
      have htext : Scan.join ',' (groupTexts [r]) = group r.text := rfl
      rw [htext, mentions_group, hr _ ends_close, mentions_close]
      simp
    | cons next terms =>
      have htext : Scan.join ',' (groupTexts (r :: next :: terms)) ++ rest =
          group r.text ++ (',' :: (Scan.join ',' (groupTexts (next :: terms)) ++ rest)) := by
        simp [groupTexts_eq, Scan.join]
      have hopen : ∃ t u, Scan.join ',' (groupTexts (next :: terms)) ++ rest = group t ++ u := by
        cases terms with
        | nil => exact ⟨next.text, rest, rfl⟩
        | cons last terms =>
          exact ⟨next.text, ',' :: (Scan.join ',' (groupTexts (last :: terms)) ++ rest), by
            simp [groupTexts_eq, Scan.join]⟩
      have hnext := ih (cons_ne_nil _ _) htail
      obtain ⟨t, u, htu⟩ := hopen
      rw [htext, mentions_group, hr _ ends_close, mentions_close]
      rw [htu] at hnext ⊢
      rw [mentions_comma_group, hnext, @List.exists_mem_cons_iff _ _ r, or_assoc]

/-- **A rule in its text.** -/
theorem mentions_rule {r : Rule} (h : r.Good) : ∀ rest, Ends rest →
    (Mentions (r.text ++ rest) ↔ r.NamesDirect ∨ Mentions rest) := by
  induction h with
  | leaf hvalue =>
    intro rest hrest
    rw [namesDirect_leaf_iff]
    exact mentions_leaf hvalue hrest
  | @node op terms hne _ ih =>
    intro rest hrest
    have htext : (Rule.node op terms).text ++ rest =
        opWord op ++ (',' :: (group (Scan.join ',' (groupTexts terms)) ++ rest)) := by
      simp [Rule.text, Rule.parts, Scan.join]
    rw [htext, namesDirect_node_iff]
    refine (behind_append (comma_not_mem (plain_opWord op))).trans ?_
    refine mentions_comma_group.trans ?_
    rw [mentions_group, mentions_terms hne ih, mentions_close]

/-- **A line in its text.** -/
theorem mentions_line {l : Line} (h : l.Good) : Mentions l.text ↔
    (∃ r target, l = .rule r target ∧ r.NamesDirect) ∨ StartsDirect l.target := by
  cases l with
  | final target =>
    have htarget : ∀ c ∈ target, Plain c := h.target
    have htext : (Line.final target).text = matchWord ++ ',' :: (target ++ []) := by
      simp [Line.text, Line.parts, Scan.join]
    have hplain := @mentions_field target [] htarget ends_nil
    rw [htext]
    refine (behind_append (comma_not_mem plain_matchWord)).trans (hplain.trans ?_)
    simp [Mentions, not_behind_nil, Line.target]
  | rule r target =>
    have hgood := h.rule r target rfl
    have htarget : ∀ c ∈ target, Plain c := h.target
    have hplain : Mentions (',' :: target) ↔ StartsDirect target := by
      rw [← append_nil target, mentions_field htarget ends_nil, append_nil]
      exact or_iff_left not_behind_nil
    have hrule : (∃ r' t, Line.rule r target = .rule r' t ∧ r'.NamesDirect) ↔ r.NamesDirect := by
      simp
    rw [hrule]
    by_cases hflag : ∃ k v, r = .leaf k v true
    · obtain ⟨k, v, rfl⟩ := hflag
      cases hgood with
      | leaf hv =>
        have htext : (Line.rule (.leaf k v true) target).text =
            (Rule.leaf k v false).text ++ (',' :: (target ++ ',' :: (flag ++ []))) := by
          simp [Line.text, Line.parts, Rule.text, Rule.parts, Scan.join]
        rw [htext, mentions_leaf hv ends_comma, mentions_field htarget ends_comma,
          mentions_flag ends_nil, namesDirect_leaf_iff]
        exact or_congr Iff.rfl (or_iff_left not_behind_nil)
    · have hparts : (Line.rule r target).parts = r.parts ++ [target] := by
        cases r with
        | node op terms => rfl
        | leaf k v noResolve =>
          cases noResolve with
          | false => rfl
          | true => exact absurd ⟨k, v, rfl⟩ hflag
      rw [Line.text, hparts, join_append_singleton (parts_ne_nil r)]
      exact (mentions_rule hgood _ ends_comma).trans (or_congr Iff.rfl hplain)

/-! ## Names -/

section
variable {schema : Schema} {nr : Bool} {name : String} {kind : LeafKind} {c : Condition}
  {dns : Bool}

theorem not_startsDirect (h : ∀ ch ∈ t, upperChar ch ≠ 'I') : ¬StartsDirect t := by
  intro hstart
  have hmem : 'I' ∈ t.map upperChar := hstart.subset (by decide +kernel)
  obtain ⟨ch, hch, heq⟩ := mem_map.mp hmem
  exact h ch hch heq

theorem upperChar_ne {p : Char → Bool} (hlower : p 'i' = false) (hupper : p 'I' = false)
    {ch : Char} (h : p ch = true) : upperChar ch ≠ 'I' := by
  intro heq
  unfold upperChar at heq
  split_ifs at heq with hcase
  · have hn : (Char.ofNat (ch.toNat - 32)).toNat = 73 := by rw [heq]; rfl
    simp only [Text.isLower, Bool.and_eq_true, decide_eq_true_eq] at hcase
    have hlow : 97 ≤ ch.toNat := hcase.1
    have hhigh : ch.toNat ≤ 122 := hcase.2
    rw [Char.ofNat, dif_pos (.inl (by omega))] at hn
    have hsub : ch.toNat - 32 = 73 := hn
    have hi : ch = 'i' := Char.toNat_inj.mp (show ch.toNat = 105 by omega)
    rw [hi, hlower] at h
    cases h
  · rw [heq, hupper] at h
    cases h

theorem leafRule_namesDirect (hnetworks : PrefixText schema) {value : String}
    (h : ValidValue schema kind value) : (leafRule nr kind value).NamesDirect ↔
      (kind = .domain ∨ kind = .domainSuffix) ∧ StartsDirect value.toList := by
  cases kind with
  | domain | domainSuffix => simp [leafRule, namesDirect_leaf_iff]
  | ipCIDR =>
    rw [leafRule, namesDirect_leaf_iff]
    refine iff_of_false (not_startsDirect fun ch hch => ?_) (by simp)
    exact upperChar_ne (by decide) (by decide) (prefixChars hnetworks h ch hch)
  | port =>
    obtain ⟨r, rfl⟩ := h
    rw [leafRule, namesDirect_leaf_iff]
    refine iff_of_false (not_startsDirect fun ch hch => ?_) (by simp)
    have hclass : (ch.isDigit || ch == '-') = true := by simpa using portChars r ch hch
    exact @upperChar_ne (fun ch => ch.isDigit || ch == '-') (by decide) (by decide) ch hclass
  | network =>
    obtain ⟨n, rfl⟩ := h
    rw [leafRule, namesDirect_leaf_iff]
    refine iff_of_false ?_ (by simp)
    cases n <;> decide +kernel

inductive Named (name : String) : Condition → Prop where
  | leaf {kind : LeafKind} {values : List String} : kind = .domain ∨ kind = .domainSuffix →
    name ∈ values → Named name (.leaf kind values)
  | node {op : Connective} {terms : List Condition} {c : Condition} : c ∈ terms → Named name c →
    Named name (.node op terms)

theorem named_leaf_iff {values : List String} :
    Named name (.leaf kind values) ↔ (kind = .domain ∨ kind = .domainSuffix) ∧ name ∈ values := by
  refine ⟨fun h => ?_, fun ⟨hkind, h⟩ => .leaf hkind h⟩
  cases h with
  | leaf hkind h => exact ⟨hkind, h⟩

theorem named_node_iff {op : Connective} {terms : List Condition} :
    Named name (.node op terms) ↔ ∃ c ∈ terms, Named name c := by
  refine ⟨fun h => ?_, fun ⟨c, hc, h⟩ => .node hc h⟩
  cases h with
  | node hc h => exact ⟨_, hc, h⟩

/-- **The values that count are the names.** -/
theorem ruleTree_namesDirect (hnetworks : PrefixText schema)
    (h : ValidCondition schema c) : (ruleTree nr c).NamesDirect ↔
      ∃ name, Named name c ∧ StartsDirect name.toList := by
  refine shape_ind ?_ ?_ ?_ ?_ h
  · intro kind v hv
    rw [ruleTree, leafRule_namesDirect hnetworks hv]
    simp only [named_leaf_iff, mem_singleton]
    constructor
    · rintro ⟨hkind, hstart⟩
      exact ⟨v, ⟨hkind, rfl⟩, hstart⟩
    · rintro ⟨name, ⟨hkind, rfl⟩, hstart⟩
      exact ⟨hkind, hstart⟩
  · intro kind values _ hone hvalues
    rw [ruleTree_leaf hone, namesDirect_node_iff]
    simp only [named_leaf_iff]
    constructor
    · rintro ⟨r, hr, hnames⟩
      obtain ⟨v, hv, rfl⟩ := mem_map.mp hr
      obtain ⟨hkind, hstart⟩ := (leafRule_namesDirect hnetworks (hvalues v hv)).mp hnames
      exact ⟨v, ⟨hkind, hv⟩, hstart⟩
    · rintro ⟨name, ⟨hkind, hname⟩, hstart⟩
      exact ⟨_, mem_map.mpr ⟨name, hname, rfl⟩,
        (leafRule_namesDirect hnetworks (hvalues name hname)).mpr ⟨hkind, hstart⟩⟩
  · intro op c ih
    rw [ruleTree, ih]
    simp [named_node_iff]
  · intro op terms _ hone ih
    rw [ruleTree_node hone, namesDirect_node_iff]
    simp only [named_node_iff]
    constructor
    · rintro ⟨r, hr, hnames⟩
      obtain ⟨c, hc, rfl⟩ := mem_map.mp hr
      obtain ⟨name, hname, hstart⟩ := (ih c hc).mp hnames
      exact ⟨name, ⟨c, hc, hname⟩, hstart⟩
    · rintro ⟨name, ⟨c, hc, hname⟩, hstart⟩
      exact ⟨_, mem_map.mpr ⟨c, hc, rfl⟩, (ih c hc).mpr ⟨name, hname, hstart⟩⟩

def MatchName (sets : ID → Option RuleSet) (name : String) (m : RouteMatch) : Prop :=
  name ∈ m.domainExact ∨ name ∈ m.domainSuffix ∨ ∃ kind, .domain name kind ∈ setEntries sets m

theorem named_conjunction_iff {terms : List Condition} :
    Named name (conjunction terms) ↔ ∃ c ∈ terms, Named name c := by
  unfold conjunction
  split
  · simp
  · exact named_node_iff

theorem named_leafTerm_iff {values : List String} :
    (∃ c ∈ leafTerm kind values, Named name c) ↔
      (kind = .domain ∨ kind = .domainSuffix) ∧ name ∈ values := by
  unfold leafTerm
  by_cases h : values = []
  · simp [h]
  · rw [if_neg h]
    simp [named_leaf_iff]

theorem named_entry_iff {id : ID} {entry : RuleSetEntry}
    (h : entryCondition dns id entry = .ok c) :
    Named name c ↔ ∃ kind, entry = .domain name kind := by
  cases entry with
  | domain n kind =>
    cases kind with
    | exact | suffix =>
      cases h
      simp [named_leaf_iff, eq_comm]
  | cidr network =>
    obtain ⟨-, hok⟩ := of_ite h
    cases hok
    simp [named_leaf_iff]

theorem named_setTerms_iff {resources : Resources} {m : RouteMatch}
    {sets : List Condition} (h : setTerms m resources dns = .ok sets) :
    (∃ c ∈ sets, Named name c) ↔ ∃ kind, .domain name kind ∈ setEntries resources.ruleSet m := by
  unfold setTerms at h
  by_cases hids : m.ruleSetIDs = []
  · rw [if_pos hids] at h
    cases h
    simp [setEntries, hids]
  · rw [if_neg hids] at h
    obtain ⟨lists, hlists, rfl⟩ := of_map h
    have hrel : List.Forall₂ (fun entry c => ∃ id, entryCondition dns id entry = .ok c)
        (setEntries resources.ruleSet m) lists.flatten :=
      setEntries_rel (mapM_eq_ok_iff.mp hlists)
    have hone : (∃ c ∈ [Condition.node .or lists.flatten], Named name c) ↔
        ∃ c ∈ lists.flatten, Named name c := by
      simp only [mem_singleton, exists_eq_left, named_node_iff]
    rw [hone]
    constructor
    · rintro ⟨c, hc, hname⟩
      obtain ⟨entry, hentry, id, hid⟩ := hrel.exists_left hc
      obtain ⟨kind, rfl⟩ := (named_entry_iff hid).mp hname
      exact ⟨kind, hentry⟩
    · rintro ⟨kind, hentry⟩
      obtain ⟨c, hc, id, hid⟩ := hrel.exists_right hentry
      exact ⟨c, hc, (named_entry_iff hid).mpr ⟨kind, rfl⟩⟩

theorem named_routeCondition_iff {resources : Resources} {m : RouteMatch}
    (h : routeCondition m resources dns = .ok c) :
    Named name c ↔ MatchName resources.ruleSet name m := by
  obtain ⟨sets, hok, rfl⟩ := of_map h
  rw [named_conjunction_iff]
  unfold fieldTerms MatchName
  simp only [mem_append, or_and_right, exists_or, named_leafTerm_iff, named_setTerms_iff hok]
  simp [or_assoc]

end

/-! ## Tags -/

/-- The second character of the tag, if there is one, is the underscore behind its kind. -/
def Labelled (tag : String) : Prop := ∀ ch, tag.toList[1]? = some ch → ch = '_'

theorem labelled_of_form (h : tag.toList[1]? = some '_') : Labelled tag :=
  fun _ hch => (Option.some.inj (h.symm.trans hch)).symm

theorem Labelled.not_startsDirect (h : Labelled tag) :
    ¬StartsDirect tag.toList := by
  rintro ⟨rest, hrest⟩
  have hsecond := congrArg (fun l => l[1]?) hrest
  simp only [List.getElem?_map] at hsecond
  have hI : (directWord ++ rest)[1]? = some 'I' := rfl
  rw [hI, eq_comm, Option.map_eq_some_iff] at hsecond
  obtain ⟨ch, hch, heq⟩ := hsecond
  rw [h ch hch] at heq
  exact absurd heq (by decide)

section
variable {c : Compiler} {spec : FrozenInputSpec} {target : Target} {b : Base} {x : Expansion}
  {g : Graph} {diags : List Diagnostic}

theorem labelled_baseTag (hx : b.Expanded c.digest x) (h : tag ∈ baseTags b) :
    Labelled tag := by
  refine labelled_of_form ?_
  obtain ⟨stem, -, rfl | rfl | rfl | ⟨rfl, -⟩⟩ := mem_baseTags hx h <;> simp

theorem labelled_tags (hx : b.Expanded c.digest x) (id : ID) : Labelled (b.tags id) := by
  unfold Base.tags
  split
  · next r hr =>
    exact labelled_baseTag hx
      (mem_append_right _ (mem_map.mpr ⟨r, mem_of_find?_eq_some hr, rfl⟩))
  · split
    · next ch hch =>
      refine labelled_baseTag hx (mem_append_left _ (mem_append_right _ ?_))
      exact mem_flatMap.mpr ⟨ch, mem_of_find?_eq_some hch, by simp⟩
    · split
      · next o ho =>
        refine labelled_baseTag hx (mem_append_left _ (mem_append_left _ ?_))
        exact mem_map.mpr ⟨o, mem_of_find?_eq_some ho, rfl⟩
      · intro ch hch
        cases hch

theorem resolvePolicyTag_cases (hx : b.Expanded c.digest x) (h : Prepared b g) (tag : String) :
    g.emitInput.resolvePolicyTag tag = tag ∨ Labelled (g.emitInput.resolvePolicyTag tag) := by
  unfold EmitInput.resolvePolicyTag
  cases hfind : g.emitInput.policies.find? fun p => p.tag = tag && p.strategy = .fixed with
  | none => exact .inl rfl
  | some p =>
    obtain ⟨entry, hentry, rfl⟩ := h.mem_policies.mp (mem_of_find?_eq_some hfind)
    obtain ⟨stem, -, hpolicy⟩ := policyTag_eq hx (mem_groups.mp hentry).1
    refine .inr (show Labelled (b.memberTag (b.policyTag entry.1) entry.2.members
      entry.2.defaultMember) from ?_)
    obtain hempty | ⟨index, hmember | hmember⟩ := @memberTag_eq b (b.policyTag entry.1)
      entry.2.members entry.2.defaultMember
    · rw [hempty]
      intro ch hch
      cases hch
    · rw [hmember, hpolicy]
      exact labelled_of_form (by simp [Base.memberPrefix])
    · rw [hmember, hpolicy]
      exact labelled_of_form (by simp [Base.memberPrefix])

/-- **Only the direct outbound is called so.** -/
theorem nativeTag_not_direct (hx : b.Expanded c.digest x) (h : Prepared b g)
    (htag : tag = directTag ∨ tag = blockTag ∨ Labelled tag) (hne : tag ≠ directTag) :
    ¬StartsDirect (nativeTag g.emitInput tag).toList := by
  have hresolved : g.emitInput.resolvePolicyTag tag = blockTag ∨
      Labelled (g.emitInput.resolvePolicyTag tag) := by
    obtain hself | hlabel := resolvePolicyTag_cases hx h tag
    · rw [hself]
      exact htag.resolve_left hne
    · exact .inr hlabel
  unfold nativeTag
  dsimp only
  split_ifs with hblock hdirect
  · decide +kernel
  · rw [hdirect] at hresolved
    obtain hblock' | hlabel := hresolved
    · exact absurd hblock' (by decide)
    · exact absurd (hlabel 'i' (by decide +kernel)) (by decide)
  · exact (hresolved.resolve_left hblock).not_startsDirect

theorem resolve_cases (hx : b.Expanded c.digest x) (ref : TargetRef) :
    b.resolve ref = directTag ∨ b.resolve ref = blockTag ∨ Labelled (b.resolve ref) := by
  cases ref with
  | builtin t =>
    cases t with
    | direct => exact .inl rfl
    | reject => exact .inr (.inl rfl)
  | resource kind id => exact .inr (.inr (labelled_tags hx id))

theorem isWord_graphTag (hb : c.base spec target = .ok b) (hx : b.Expanded c.digest x)
    (h : c.prepare spec target = .ok (g, diags)) (htag : tag ∈ graphTags g) :
    IsWord tag := by
  obtain hbase | hmember := mem_append.mp ((graphTags_perm hb hx h).subset htag)
  · obtain ⟨stem, hstem, rfl | rfl | rfl | ⟨rfl, -⟩⟩ := mem_baseTags hx hbase
    · exact isWord_append (by decide) (isWord_stem hstem)
    · exact isWord_append (isWord_append (by decide) (isWord_stem hstem)) (by decide)
    · exact isWord_append (isWord_append (by decide) (isWord_stem hstem)) (by decide)
    · exact isWord_append (by decide) (isWord_stem hstem)
  · obtain ⟨entry, hentry, hmem⟩ := mem_flatMap.mp hmember
    obtain ⟨stem, index, role, hstem, -, rfl⟩ := mem_groupTags hx hentry hmem
    unfold memberText Base.memberPrefix
    refine isWord_append (isWord_append (isWord_append (isWord_append (by decide)
      (isWord_stem hstem)) (by decide)) (isWord_number _)) ?_
    cases role <;> decide

theorem exit_labelled (hb : c.base spec target = .ok b) (hx : b.Expanded c.digest x)
    (h : c.prepare spec target = .ok (g, diags)) (hfinal : g.finalTag = "") :
    Labelled g.emitInput.exit ∧ IsWord g.emitInput.exit := by
  have hform : ∀ tag ∈ graphTags g, Labelled tag ∧ IsWord tag := fun tag htag =>
    ⟨labelled_of_form (graphTags_form hb hx h htag), isWord_graphTag hb hx h htag⟩
  unfold EmitInput.exit EmitInput.exitTag
  rw [show g.emitInput.finalTag = "" from hfinal, if_neg (not_not.mpr rfl)]
  cases hp : g.emitInput.policies with
  | cons p rest =>
    have hmem : p ∈ g.policies := show p ∈ g.emitInput.policies by rw [hp]; simp
    exact hform _ (mem_append_right _ (mem_map.mpr ⟨p, hmem, rfl⟩))
  | nil =>
    cases hch : g.emitInput.chains with
    | cons ch rest =>
      have hmem : ch ∈ g.chains := show ch ∈ g.emitInput.chains by rw [hch]; simp
      refine hform _ (mem_append_left _ (mem_append_right _ ?_))
      exact mem_flatMap.mpr ⟨ch, hmem, by simp⟩
    | nil =>
      cases ho : g.emitInput.independents with
      | cons o rest =>
        have hmem : o ∈ g.independents := show o ∈ g.emitInput.independents by rw [ho]; simp
        refine hform _ (mem_append_left _ (mem_append_left _ ?_))
        exact mem_map.mpr ⟨o, hmem, rfl⟩
      | nil => exact ⟨fun ch hch => (nomatch hch), show IsWord "" by decide⟩

end

/-! ## The guard -/

/-- The target of the rule is the direct outbound of the core. -/
def TargetsDirect (text : String) : Prop :=
  ∃ l, parseLine text.toList = some l ∧ l.target = directWord

theorem not_targetsDirect {text : String} {l : Line} (hl : l.Good) (htext : text.toList = l.text)
    (h : ¬StartsDirect l.target) : ¬TargetsDirect text := by
  rintro ⟨l', hparse, htarget⟩
  rw [htext, parseLine_text hl] at hparse
  obtain rfl := Option.some.inj hparse
  refine h ?_
  rw [htarget]
  decide +kernel

theorem mentions_ruleText {condition : String} {r : Rule} (hr : r.Good)
    (htext : condition.toList = r.text) (htag : ∀ ch ∈ tag.toList, Plain ch)
    (hnot : ¬StartsDirect tag.toList) :
    (Mentions (ruleText condition tag).toList ↔ r.NamesDirect) ∧
      ¬TargetsDirect (ruleText condition tag) := by
  have hflag : ¬StartsDirect flag := by decide +kernel
  by_cases hbare : ∃ k, r = .leaf k flag false
  · obtain ⟨k, rfl⟩ := hbare
    have hline := @ruleText_bare condition tag k htext
    have hgood : (Line.rule (.leaf k tag.toList false) flag).Good := by
      refine ⟨fun r' t heq => ?_, plain_flag⟩
      cases heq
      exact .leaf htag
    refine ⟨?_, not_targetsDirect hgood hline hflag⟩
    rw [hline, mentions_line hgood, namesDirect_leaf_iff]
    refine iff_of_false ?_ hflag
    rintro (⟨r, t, heq, hnames⟩ | htarget)
    · cases heq
      exact hnot (namesDirect_leaf_iff.mp hnames)
    · exact hflag htarget
  · have hline := @ruleText_eq condition tag r hr htext (not_exists.mp hbare)
    have hgood : (Line.rule r tag.toList).Good := by
      refine ⟨fun r' t heq => ?_, htag⟩
      cases heq
      exact hr
    refine ⟨?_, not_targetsDirect hgood hline hnot⟩
    rw [hline, mentions_line hgood]
    constructor
    · rintro (⟨r', t, heq, hnames⟩ | htarget)
      · cases heq
        exact hnames
      · exact absurd htarget hnot
    · exact fun hnames => .inl ⟨r, _, rfl, hnames⟩

theorem mentions_final (hword : IsWord (input.resolvePolicyTag tag))
    (hnot : ¬StartsDirect (nativeTag input tag).toList) :
    ¬Mentions ("MATCH," ++ nativeTag input tag).toList ∧
      ¬TargetsDirect ("MATCH," ++ nativeTag input tag) := by
  have hgood := finalLine_good hword
  refine ⟨?_, not_targetsDirect hgood finalLine_text hnot⟩
  rw [finalLine_text, mentions_line hgood]
  rintro (⟨r, t, heq, -⟩ | htarget)
  · cases heq
  · exact hnot htarget

theorem comma_mem_ruleText (condition tag : String) : ',' ∈ (ruleText condition tag).toList := by
  unfold ruleText
  split_ifs <;> simp

theorem upper_ne_directWord (h : ',' ∈ t) : t.map upperChar ≠ directWord := by
  intro heq
  have hmem : ',' ∈ t.map upperChar := mem_map.mpr ⟨',', h, upperChar_comma.mpr rfl⟩
  rw [heq] at hmem
  exact absurd hmem (by decide +kernel)

theorem implicitDirect_iff {doc : Document} (hne : doc.rules ≠ [])
    (h : ∀ text ∈ doc.rules, ',' ∈ text.toList) :
    implicitDirect doc = true ↔ ∃ text ∈ doc.rules, Mentions text.toList := by
  unfold implicitDirect
  rw [decide_eq_false hne, Bool.false_or, any_eq_true]
  refine exists_congr fun text => and_congr_right fun htext => ?_
  have hword := upper_ne_directWord (h text htext)
  rw [mentions_iff, Bool.or_eq_true, decide_eq_true_eq]
  exact or_iff_left hword

def document (lib : Libraries) (input : EmitInput) : Except (List Diagnostic) Document := do
  let (exit, refs) ← input.orderedOutboundRefs
  let proxies ← refs.mapM (refProxy lib input)
  let doc ← applyOrchestration lib input (initialDocument exit proxies)
  input.checkNativeCounts (doc.proxies.length + doc.groups.length) (ruleCount doc)
  .ok doc

theorem emit_of_document {lib : Libraries} {doc : Document} (h : document lib input = .ok doc) :
    emit lib input =
      if implicitDirect doc = true ∧ input.usesTag directTag = false then
        .error [compileIssue .compileDialConflict "/rules" input.targetKey ""]
      else .ok doc := by
  unfold document at h
  obtain ⟨⟨exit, refs⟩, hrefs, h⟩ := of_bind h
  obtain ⟨proxies, hproxies, h⟩ := of_bind h
  obtain ⟨doc', hdoc, h⟩ := of_bind h
  obtain ⟨⟨⟩, hcounts, h⟩ := of_bind h
  obtain rfl := Except.ok.inj h
  unfold emit
  rw [hrefs]
  show (refs.mapM (refProxy lib input) >>= _) = _
  rw [hproxies]
  show (applyOrchestration lib input (initialDocument exit proxies) >>= _) = _
  rw [hdoc]
  show (input.checkNativeCounts _ _ >>= _) = _
  rw [hcounts]
  rfl

theorem document_rules {lib : Libraries} {doc : Document} (h : document lib input = .ok doc) :
    ∃ start, applyOrchestration lib input start = .ok doc := by
  unfold document at h
  obtain ⟨⟨exit, refs⟩, -, h⟩ := of_bind h
  obtain ⟨proxies, -, h⟩ := of_bind h
  obtain ⟨doc', hdoc, h⟩ := of_bind h
  obtain ⟨⟨⟩, -, h⟩ := of_bind h
  obtain rfl := Except.ok.inj h
  exact ⟨_, hdoc⟩

/-- A name of an enabled rule of the routing profile of a snapshot. -/
def RuleName (spec : FrozenInputSpec) (name : String) : Prop :=
  ∃ ref r p rule, spec.routingProfile = some ref ∧ spec.byID ref.resourceID = some r ∧
    r.payload = .routingProfile p ∧ rule ∈ p.rules ∧ rule.enabled = true ∧
    MatchName (Resources.ruleSet spec.byID) name rule.routeMatch

section
variable {c : Compiler} {lib : Libraries} {spec : FrozenInputSpec} {target : Target} {b : Base}
  {x : Expansion} {g : Graph} {diags : List Diagnostic} {doc : Document}

theorem routingProfile_spec (hb : c.base spec target = .ok b) {r : Resource} {p : RoutingProfile}
    (h : b.routingProfile = some (r, p)) :
    ∃ ref r', spec.routingProfile = some ref ∧ spec.byID ref.resourceID = some r' ∧
      r'.payload = .routingProfile p := by
  obtain ⟨x, -, hspec, -⟩ := base_expanded hb
  obtain ⟨ref, href, hres, hp⟩ := routingProfile_eq_some h
  rw [hspec] at href
  have hrel := base_byID hb ref.resourceID
  rw [hres] at hrel
  cases hr : spec.byID ref.resourceID with
  | none =>
    rw [hr] at hrel
    cases hrel
  | some r' =>
    have hr' := hr
    rw [hr] at hrel
    cases hrel with
    | some hsame =>
      refine ⟨ref, r', href, hr', ?_⟩
      obtain heq | ⟨-, hpolicy⟩ := hsame.2
      · rw [← heq, hp]
      · rw [hp] at hpolicy
        cases hpolicy

/-- **What the guard sees** of a document for a graph that does not use the direct outbound. -/
theorem rules_seen (hnetworks : PrefixText c.schema) (hb : c.base spec target = .ok b)
    (hprepare : c.prepare spec target = .ok (g, diags))
    (hdoc : document lib g.emitInput = .ok doc) (hunused : g.emitInput.usesTag directTag = false) :
    (∀ text ∈ doc.rules, ',' ∈ text.toList ∧ ¬TargetsDirect text) ∧
      ((∃ text ∈ doc.rules, Mentions text.toList) ↔
        ∃ name, RuleName spec name ∧ StartsDirect name.toList) := by
  obtain ⟨x, hx, -, -⟩ := base_expanded hb
  have hprepared := prepare_prepared hb hprepare
  obtain ⟨start, happly⟩ := document_rules hdoc
  unfold EmitInput.usesTag at hunused
  simp only [Bool.or_eq_false_iff, decide_eq_false_iff_not] at hunused
  obtain ⟨⟨⟨hexit, -⟩, hrouted⟩, -⟩ := hunused
  have hcomma : ∀ tag : String, ',' ∈ ("MATCH," ++ tag).toList := by simp
  cases hprofile : b.routingProfile with
  | none =>
    have hnone : ∀ name, ¬RuleName spec name := by
      rintro name ⟨ref, r, p, rule, href, hr, hp, -⟩
      rw [routingProfile_of_spec hb href hr hp] at hprofile
      cases hprofile
    obtain ⟨st, st', hrouting⟩ := hprepared.routing
    unfold Base.routingInput at hrouting
    rw [hprofile] at hrouting
    simp only [Except.ok.injEq, Prod.mk.injEq] at hrouting
    obtain ⟨-, hrouting, hfinal⟩ := hrouting
    obtain ⟨hlabel, hword⟩ := exit_labelled hb hx hprepare hfinal.symm
    have hrules : doc.rules = ["MATCH," ++ nativeTag g.emitInput g.emitInput.exit] := by
      rw [applyOrchestration_rules happly, routeRules,
        show g.emitInput.routing = none from hrouting.symm]
      rfl
    obtain ⟨hmentions, htargets⟩ := mentions_final (isWord_resolved hx hprepared hword)
      (nativeTag_not_direct hx hprepared (.inr (.inr hlabel)) hexit)
    rw [hrules]
    refine ⟨fun text htext => ?_, iff_of_false ?_ ?_⟩
    · rw [mem_singleton.mp htext]
      exact ⟨hcomma _, htargets⟩
    · rintro ⟨text, htext, hmention⟩
      rw [mem_singleton.mp htext] at hmention
      exact hmentions hmention
    · rintro ⟨name, hname, -⟩
      exact hnone name hname
  | some entry =>
    obtain ⟨r, p⟩ := entry
    obtain ⟨ref, r', href, hr, hp⟩ := routingProfile_spec hb hprofile
    obtain ⟨rules, h⟩ := exists_emitted hb hprepare href hr hp happly
    have hexit' : b.resolve p.final ≠ directTag := by
      rwa [exit_eq hx hprepared hprofile] at hexit
    obtain ⟨hmentions, htargets⟩ := mentions_final (h.words p.final)
      (nativeTag_not_direct hx hprepared (resolve_cases hx p.final) hexit')
    have hunused : ∀ rule ∈ rules, rule.target ≠ directTag := by
      intro rule hrule hdirect
      obtain ⟨rule', hmem, -, htarget⟩ := h.enabled.exists_left hrule
      obtain ⟨rules', hcompiled, hrouting, -⟩ := hprepared.routing_eq hprofile
      obtain ⟨rule'', hrule'', -, htarget'⟩ := (compiled_enabled hcompiled).exists_right hmem
      rw [show g.emitInput.routing = _ from hrouting, Option.any_some, any_eq_false] at hrouted
      refine hrouted rule'' hrule'' ?_
      rw [htarget', ← htarget, hdirect]
      exact decide_eq_true rfl
    have hseen : ∀ rule ∈ rules, (Mentions (ruleText (nativeCondition
          (p.domainResolutionMode = .preserveDomain) rule.condition)
          (nativeTag g.emitInput rule.target)).toList ↔
          ∃ name, Named name rule.condition ∧ StartsDirect name.toList) ∧
        ¬TargetsDirect (ruleText (nativeCondition
          (p.domainResolutionMode = .preserveDomain) rule.condition)
          (nativeTag g.emitInput rule.target)) := by
      intro rule hrule
      obtain ⟨rule', -, -, -, htarget⟩ := h.exists_rule hrule
      have hnot := nativeTag_not_direct hx hprepared (htarget ▸ resolve_cases hx rule'.action)
        (hunused rule hrule)
      rw [← ruleTree_namesDirect hnetworks (h.valid rule hrule)]
      exact mentions_ruleText (ruleTree_good hnetworks (h.valid rule hrule))
        (nativeCondition_text (h.valid rule hrule)) (fun ch hch => (h.target_chars hrule ch hch).1)
        hnot
    rw [h.rules_eq]
    refine ⟨fun text htext => ?_, ?_⟩
    · obtain htext | htext := mem_append.mp htext
      · obtain ⟨rule, hrule, rfl⟩ := mem_map.mp htext
        exact ⟨comma_mem_ruleText _ _, (hseen rule hrule).2⟩
      · rw [mem_singleton.mp htext]
        exact ⟨hcomma _, htargets⟩
    · constructor
      · rintro ⟨text, htext, hmention⟩
        obtain htext | htext := mem_append.mp htext
        · obtain ⟨rule, hrule, rfl⟩ := mem_map.mp htext
          obtain ⟨name, hname, hstart⟩ := (hseen rule hrule).1.mp hmention
          obtain ⟨rule', hmem, hen, hcond, -⟩ := h.exists_rule hrule
          refine ⟨name, ⟨ref, r', p, rule', href, hr, hp, hmem, hen, ?_⟩, hstart⟩
          rw [← base_ruleSet hb]
          exact (named_routeCondition_iff hcond).mp hname
        · rw [mem_singleton.mp htext] at hmention
          exact absurd hmention hmentions
      · rintro ⟨name, ⟨ref', r'', p', rule', href', hr', hp', hmem, hen, hname⟩, hstart⟩
        obtain rfl := Option.some.inj (href.symm.trans href')
        obtain rfl := Option.some.inj (hr.symm.trans hr')
        obtain rfl := Payload.routingProfile.inj (hp.symm.trans hp')
        obtain ⟨rule, hrule, hcond, -⟩ :=
          h.enabled.exists_right (mem_filter.mpr ⟨hmem, hen⟩)
        rw [← base_ruleSet hb] at hname
        exact ⟨_, mem_append_left _ (mem_map.mpr ⟨rule, hrule, rfl⟩),
          (hseen rule hrule).1.mpr ⟨name, (named_routeCondition_iff hcond).mpr hname, hstart⟩⟩

def Refused (lib : Libraries) (input : EmitInput) : Prop :=
  emit lib input = .error [compileIssue .compileDialConflict "/rules" input.targetKey ""]

theorem refused_iff (h : document lib input = .ok doc) :
    Refused lib input ↔ implicitDirect doc = true ∧ input.usesTag directTag = false := by
  unfold Refused
  rw [emit_of_document h]
  split_ifs with hguard <;> simp [hguard]

/-- **The guard is exact** if the direct outbound is used, or no name of an enabled rule begins
with `direct`. -/
theorem guard_exact_iff (hnetworks : PrefixText c.schema)
    (hprepare : c.prepare spec target = .ok (g, diags))
    (hdoc : document lib g.emitInput = .ok doc) :
    (Refused lib g.emitInput → ∃ text ∈ doc.rules, TargetsDirect text) ↔
      (g.emitInput.usesTag directTag = true ∨
        ∀ name, RuleName spec name → ¬StartsDirect name.toList) := by
  obtain ⟨b, -, -, -, hb, -⟩ := prepare_eq_ok hprepare
  rw [refused_iff hdoc]
  cases hused : g.emitInput.usesTag directTag with
  | true => simp
  | false =>
    obtain ⟨htexts, hmentions⟩ := rules_seen hnetworks hb hprepare hdoc hused
    obtain ⟨start, happly⟩ := document_rules hdoc
    have hne : doc.rules ≠ [] := by
      rw [applyOrchestration_rules happly]
      simp
    rw [implicitDirect_iff hne fun text htext => (htexts text htext).1, hmentions]
    constructor
    · refine fun h => .inr fun name hname hstart => ?_
      obtain ⟨text, htext, htarget⟩ := h ⟨⟨name, hname, hstart⟩, rfl⟩
      exact (htexts text htext).2 htarget
    · rintro (hused | hnames) ⟨⟨name, hname, hstart⟩, -⟩
      · cases hused
      · exact absurd hstart (hnames name hname)

end

/-! ## Two profiles -/

theorem guard_exact_small :
    ∃ graph diags doc,
      (smallCompiler .mihomo).prepare (smallSnapshot .mihomo smallRouting smallDNS)
        (smallTarget .mihomo) = .ok (graph, diags) ∧
      document hostnameLibraries graph.emitInput = .ok doc ∧
      (Refused hostnameLibraries graph.emitInput → ∃ text ∈ doc.rules, TargetsDirect text) := by
  have hsome : ((smallCompiler .mihomo).prepare (smallSnapshot .mihomo smallRouting smallDNS)
      (smallTarget .mihomo) >>= fun (graph, _) =>
        document hostnameLibraries graph.emitInput).toOption.isSome = true := by decide +kernel
  obtain ⟨doc, hdoc⟩ := Option.isSome_iff_exists.mp hsome
  obtain ⟨⟨graph, diags⟩, hprepare, hdocument⟩ :=
    of_bind (eq_ok_of_toOption hdoc)
  refine ⟨graph, diags, doc, hprepare, hdocument,
    (guard_exact_iff hostnameSchema_prefixText hprepare hdocument).mpr (.inr ?_)⟩
  rintro name ⟨ref, r, p, rule, href, hr, hp, hrule, -, hname⟩
  obtain ⟨ref', r', href', hr', hp'⟩ := smallSnapshot_routing .mihomo smallRouting smallDNS
  obtain rfl := Option.some.inj (href.symm.trans href')
  obtain rfl := Option.some.inj (hr.symm.trans hr')
  obtain rfl := Payload.routingProfile.inj (hp.symm.trans hp')
  rw [mem_singleton.mp hrule] at hname
  obtain hname | hname | ⟨kind, hname⟩ := hname
  · cases hname
  · rw [mem_singleton.mp hname]
    decide +kernel
  · cases hname

/-- A rule that refuses the host `direct.example.org`. -/
def directNameRouting : RoutingProfile :=
  { smallRouting with
    rules := [⟨⟨["direct.example.org"], [], [], [], [], []⟩, .builtin .reject, true, ""⟩] }

/-- Its document is refused, though none of its rules goes to the direct outbound. -/
theorem direct_name_refused :
    ∃ graph diags doc,
      (smallCompiler .mihomo).prepare (smallSnapshot .mihomo directNameRouting smallDNS)
        (smallTarget .mihomo) = .ok (graph, diags) ∧
      document hostnameLibraries graph.emitInput = .ok doc ∧
      doc.rules = ["DOMAIN,direct.example.org,REJECT", "MATCH,n_aaaaaaaa"] ∧
      graph.emitInput.usesTag directTag = false ∧ Refused hostnameLibraries graph.emitInput ∧
      ¬∃ text ∈ doc.rules, TargetsDirect text := by
  have hrules : ((smallCompiler .mihomo).prepare (smallSnapshot .mihomo directNameRouting smallDNS)
      (smallTarget .mihomo) >>= fun (graph, _) =>
        (document hostnameLibraries graph.emitInput).map fun doc =>
          (doc.rules, graph.emitInput.usesTag directTag)).toOption =
      some (["DOMAIN,direct.example.org,REJECT", "MATCH,n_aaaaaaaa"], false) := by decide +kernel
  obtain ⟨⟨graph, diags⟩, hprepare, hmap⟩ :=
    of_bind (eq_ok_of_toOption hrules)
  obtain ⟨doc, hdoc, heq⟩ := of_map hmap
  obtain ⟨hlist, hunused⟩ := Prod.mk.inj heq
  obtain ⟨b, -, -, -, hb, -⟩ := prepare_eq_ok hprepare
  have hguard : implicitDirect doc = true := by
    unfold implicitDirect
    rw [hlist]
    decide +kernel
  obtain ⟨htexts, -⟩ := rules_seen hostnameSchema_prefixText hb hprepare hdoc hunused
  refine ⟨graph, diags, doc, hprepare, hdoc, hlist, hunused,
    (refused_iff hdoc).mpr ⟨hguard, hunused⟩, ?_⟩
  rintro ⟨text, htext, htarget⟩
  exact (htexts text htext).2 htarget

end ProxyLoom.Adapter.Mihomo
