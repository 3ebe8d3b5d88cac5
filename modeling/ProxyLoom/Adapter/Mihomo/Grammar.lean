import ProxyLoom.Lib.Nested
import ProxyLoom.Adapter.Input

/-!
# The text of Mihomo rules

A rule is a kind with a value, which `no-resolve` may follow, or `AND` or `OR` with a list of rules,
each in parentheses. A line of a configuration is a rule with its target, where `no-resolve` stands
behind the target, or `MATCH` with a target.
-/

namespace ProxyLoom.Adapter.Mihomo

open IR Nested List

/-! ## Rules -/

inductive Kind where
  | domain | domainSuffix | ipCIDR | ipCIDR6 | dstPort | network
deriving DecidableEq, Repr

def Kind.text : Kind → List Char
  | .domain => "DOMAIN".toList
  | .domainSuffix => "DOMAIN-SUFFIX".toList
  | .ipCIDR => "IP-CIDR".toList
  | .ipCIDR6 => "IP-CIDR6".toList
  | .dstPort => "DST-PORT".toList
  | .network => "NETWORK".toList

def opWord : Connective → List Char
  | .and => "AND".toList
  | .or => "OR".toList

/-- The field that keeps a rule from resolving the name. -/
def flag : List Char := "no-resolve".toList

def matchWord : List Char := "MATCH".toList

/-- A rule without its target. -/
inductive Rule where
  | leaf (kind : Kind) (value : List Char) (noResolve : Bool)
  | node (op : Connective) (terms : List Rule)
deriving Repr

mutual

def Rule.parts : Rule → List (List Char)
  | .leaf kind value noResolve => [kind.text, value] ++ if noResolve then [flag] else []
  | .node op terms => [opWord op, group (Scan.join ',' (groupTexts terms))]

def groupTexts : List Rule → List (List Char)
  | [] => []
  | r :: rules => group (Scan.join ',' r.parts) :: groupTexts rules

end

def Rule.text (r : Rule) : List Char := Scan.join ',' r.parts

theorem groupTexts_eq (rules : List Rule) :
    groupTexts rules = rules.map fun r => group r.text := by
  induction rules with
  | nil => simp [groupTexts]
  | cons r rules ih => rw [groupTexts, ih, map_cons, Rule.text]

/-- Values without commas and parentheses, and no empty lists. -/
inductive Rule.Good : Rule → Prop where
  | leaf {kind : Kind} {value : List Char} {noResolve : Bool} : (∀ c ∈ value, Plain c) →
    Good (.leaf kind value noResolve)
  | node {op : Connective} {terms : List Rule} : terms ≠ [] → (∀ r ∈ terms, Good r) →
    Good (.node op terms)

/-! ## Reading rules -/

def kind? (t : List Char) : Option Kind :=
  [Kind.domain, .domainSuffix, .ipCIDR, .ipCIDR6, .dstPort, .network].find? fun k => k.text = t

def op? (t : List Char) : Option Connective :=
  [Connective.and, .or].find? fun op => opWord op = t

/-- The fields of a rule; the terms of a logical one are read by `parse`. -/
def parseParts (parse : List Char → Option Rule) : List (List Char) → Option Rule
  | [word, value] =>
    match op? word with
    | some op => (ungroup value).bind fun inner =>
      ((fields 0 inner).mapM fun t => (ungroup t).bind parse).map (.node op)
    | none => (kind? word).map fun kind => .leaf kind value false
  | [word, value, last] =>
    if last = flag then (kind? word).map fun kind => .leaf kind value true else none
  | _ => none

/-- The fuel bounds the depth of the logical rules. -/
def parseFuel : ℕ → List Char → Option Rule
  | 0, _ => none
  | n + 1, t => parseParts (parseFuel n) (fields 0 t)

theorem kind?_text (k : Kind) : kind? k.text = some k := by
  cases k <;> decide

theorem op?_text (k : Kind) : op? k.text = none := by
  cases k <;> decide

theorem op?_opWord (op : Connective) : op? (opWord op) = some op := by
  cases op <;> decide

theorem plain_text (k : Kind) : ∀ c ∈ k.text, Plain c := by
  refine forall_of_all ?_
  cases k <;> decide

theorem plain_opWord (op : Connective) : ∀ c ∈ opWord op, Plain c := by
  refine forall_of_all ?_
  cases op <;> decide

theorem plain_flag : ∀ c ∈ flag, Plain c := forall_of_all (by decide)

theorem plain_matchWord : ∀ c ∈ matchWord, Plain c := forall_of_all (by decide)

theorem passes_leaf {kind : Kind} {value : List Char} {noResolve : Bool} {d : ℕ}
    (h : ∀ c ∈ value, Plain c) :
    ∀ part ∈ (Rule.leaf kind value noResolve).parts, Passes d part := by
  intro part hpart
  rw [Rule.parts] at hpart
  obtain hpart | hpart := mem_append.mp hpart
  · obtain rfl | hpart := mem_cons.mp hpart
    · exact passes_plain (plain_text kind)
    · rw [mem_singleton.mp hpart]
      exact passes_plain h
  · cases noResolve with
    | false => cases hpart
    | true =>
      rw [if_pos rfl] at hpart
      rw [mem_singleton.mp hpart]
      exact passes_plain plain_flag

variable {r : Rule} {l : Line}

theorem passes_parts (h : r.Good) : ∀ d, ∀ part ∈ r.parts, Passes d part := by
  induction h with
  | leaf hvalue => exact fun d => passes_leaf hvalue
  | @node op terms _ _ ih =>
    intro d part hpart
    rw [Rule.parts, groupTexts_eq] at hpart
    obtain rfl | hpart := mem_cons.mp hpart
    · exact passes_plain (plain_opWord op)
    · rw [mem_singleton.mp hpart]
      refine passes_group (passes_join fun t ht => ?_)
      obtain ⟨r, hr, rfl⟩ := mem_map.mp ht
      exact passes_group (passes_join (ih r hr (d + 2)))

theorem passes_text (h : r.Good) (d : ℕ) : Passes (d + 1) r.text :=
  passes_join (passes_parts h (d + 1))

theorem parts_ne_nil (r : Rule) : r.parts ≠ [] := by
  cases r <;> simp [Rule.parts]

theorem mapM_map {α β : Type} {l : List α} {print : α → β} {read : β → Option α}
    (h : ∀ a ∈ l, read (print a) = some a) : (l.map print).mapM read = some l := by
  induction l with
  | nil => rfl
  | cons a l ih =>
    rw [map_cons, mapM_cons, h a mem_cons_self,
      ih fun a' ha' => h a' (mem_cons_of_mem _ ha')]
    rfl

theorem length_le_join {l : List (List Char)} {t : List Char} (h : t ∈ l) :
    t.length ≤ (Scan.join ',' l).length := by
  induction l with
  | nil => cases h
  | cons s l ih =>
    cases l with
    | nil =>
      rw [mem_singleton.mp h]
      rfl
    | cons next l =>
      rw [Scan.join, length_append, length_cons]
      obtain rfl | h := mem_cons.mp h
      · omega
      · have := ih h
        omega

theorem length_term {op : Connective} {terms : List Rule} (h : r ∈ terms) :
    r.text.length < (Rule.node op terms).text.length := by
  have hgroup : group r.text ∈ groupTexts terms := by
    rw [groupTexts_eq]
    exact mem_map.mpr ⟨r, h, rfl⟩
  have hinner := length_le_join hgroup
  have houter : (group (Scan.join ',' (groupTexts terms))).length ≤
      (Rule.node op terms).text.length := by
    refine length_le_join ?_
    rw [Rule.parts]
    simp
  simp only [group, length_append, length_cons, length_nil] at hinner houter
  omega

theorem parseParts_parts (h : r.Good) {parse : List Char → Option Rule}
    (hparse : ∀ op terms, r = .node op terms → ∀ t ∈ terms, parse t.text = some t) :
    parseParts parse r.parts = some r := by
  cases h with
  | @leaf kind value noResolve hvalue =>
    cases noResolve with
    | false =>
      rw [Rule.parts]
      simp [parseParts, op?_text, kind?_text]
    | true =>
      rw [Rule.parts]
      simp [parseParts, kind?_text]
  | @node op terms hne hterms =>
    have hfields : fields 0 (Scan.join ',' (groupTexts terms)) = groupTexts terms := by
      rw [groupTexts_eq]
      refine fields_join (by simpa using hne) fun t ht => ?_
      obtain ⟨r, hr, rfl⟩ := mem_map.mp ht
      exact passes_group (passes_text (hterms r hr) 0)
    have hread : (groupTexts terms).mapM (fun t => (ungroup t).bind parse) = some terms := by
      rw [groupTexts_eq]
      refine mapM_map fun r hr => ?_
      rw [ungroup_group, Option.bind_some]
      exact hparse op terms rfl r hr
    rw [Rule.parts, parseParts, op?_opWord]
    simp only [ungroup_group, Option.bind_some, hfields, hread, Option.map_some]

/-- **Rules are read back.** -/
theorem parseFuel_text (h : r.Good) :
    ∀ n, r.text.length < n → parseFuel n r.text = some r := by
  induction h with
  | @leaf kind value noResolve hvalue =>
    intro n hn
    obtain ⟨n, rfl⟩ := Nat.exists_eq_succ_of_ne_zero (Nat.ne_zero_of_lt hn)
    have hgood : (Rule.leaf kind value noResolve).Good := .leaf hvalue
    rw [parseFuel, Rule.text, fields_join (parts_ne_nil _) (passes_parts hgood 0)]
    exact parseParts_parts hgood fun op terms heq => nomatch heq
  | @node op terms hne hterms ih =>
    intro n hn
    obtain ⟨n, rfl⟩ := Nat.exists_eq_succ_of_ne_zero (Nat.ne_zero_of_lt hn)
    have hgood : (Rule.node op terms).Good := .node hne hterms
    have hfields : fields 0 (Rule.node op terms).text = (Rule.node op terms).parts :=
      fields_join (parts_ne_nil _) (passes_parts hgood 0)
    rw [parseFuel, hfields]
    refine parseParts_parts hgood fun op' terms' heq t ht => ?_
    cases heq
    refine ih t ht n ?_
    have hlt : t.text.length < (Rule.node op terms).text.length := length_term ht
    omega

/-! ## Lines -/

/-- A rule with its target, or the last line. -/
inductive Line where
  | rule (condition : Rule) (target : List Char)
  | final (target : List Char)
deriving Repr

/-- The `no-resolve` of a rule stands behind the target. -/
def Line.parts : Line → List (List Char)
  | .rule (.leaf kind value true) target => [kind.text, value, target, flag]
  | .rule r target => r.parts ++ [target]
  | .final target => [matchWord, target]

def Line.text (l : Line) : List Char := Scan.join ',' l.parts

def Line.target : Line → List Char
  | .rule _ target | .final target => target

structure Line.Good (l : Line) : Prop where
  rule : ∀ r target, l = .rule r target → r.Good
  target : ∀ c ∈ l.target, Plain c

/-- The last field is the target, where `no-resolve` may follow it. -/
def parseLine (t : List Char) : Option Line :=
  match fields 0 t with
  | [word, target] => if word = matchWord then some (.final target) else none
  | [word, value, target] => (parseParts (parseFuel t.length) [word, value]).map (.rule · target)
  | [word, value, target, last] =>
    if last = flag then
      (parseParts (parseFuel t.length) [word, value, last]).map (.rule · target)
    else none
  | _ => none

theorem line_parts_ne_nil (l : Line) : l.parts ≠ [] := by
  cases l with
  | rule r target =>
    cases r with
    | leaf kind value noResolve => cases noResolve <;> simp [Line.parts, Rule.parts]
    | node op terms => simp [Line.parts]
  | final target => simp [Line.parts]

theorem fields_line (h : l.Good) : fields 0 l.text = l.parts := by
  have htarget : Passes 0 l.target := passes_plain h.target
  refine fields_join (line_parts_ne_nil l) fun part hpart => ?_
  cases l with
  | rule r target =>
    have hgood := h.rule r target rfl
    have hparts := passes_parts hgood 0
    cases r with
    | leaf kind value noResolve =>
      cases noResolve with
      | true =>
        rw [Line.parts] at hpart
        simp only [mem_cons, not_mem_nil, or_false] at hpart
        obtain rfl | rfl | rfl | rfl := hpart
        · exact passes_plain (plain_text kind)
        · exact hparts part (by simp [Rule.parts])
        · exact htarget
        · exact passes_plain plain_flag
      | false =>
        obtain hpart | hpart := mem_append.mp hpart
        · exact hparts part hpart
        · exact mem_singleton.mp hpart ▸ htarget
    | node op terms =>
      obtain hpart | hpart := mem_append.mp hpart
      · exact hparts part hpart
      · exact mem_singleton.mp hpart ▸ htarget
  | final target =>
    rw [Line.parts] at hpart
    obtain rfl | hpart := mem_cons.mp hpart
    · exact passes_plain plain_matchWord
    · exact mem_singleton.mp hpart ▸ htarget

/-- **Lines are read back.** -/
theorem parseLine_text (h : l.Good) : parseLine l.text = some l := by
  unfold parseLine
  rw [fields_line h]
  cases l with
  | rule r target =>
    have hgood := h.rule r target rfl
    cases r with
    | leaf kind value noResolve =>
      have hread := @parseParts_parts _ hgood (parseFuel (Line.rule (.leaf kind value noResolve)
        target).text.length) fun op terms heq => nomatch heq
      cases noResolve with
      | true =>
        simp only [Rule.parts, if_true, cons_append, nil_append] at hread
        simp only [Line.parts, if_true, hread, Option.map_some]
      | false =>
        simp only [Rule.parts, Bool.false_eq_true, if_false, append_nil] at hread
        simp only [Line.parts, Rule.parts, Bool.false_eq_true, if_false, append_nil,
          cons_append, nil_append, hread, Option.map_some]
    | node op terms =>
      have hlength : (Rule.node op terms).text.length ≤
          (Line.rule (.node op terms) target).text.length := by
        simp [Line.text, Line.parts, Rule.text, Rule.parts, Scan.join]
      have hread := @parseParts_parts _ hgood (parseFuel (Line.rule (.node op terms)
        target).text.length) fun op' terms' heq t ht => by
          cases heq
          cases hgood with
          | node _ hterms =>
            exact parseFuel_text (hterms t ht) _ ((length_term ht).trans_le hlength)
      rw [Rule.parts] at hread
      simp only [Line.parts, Rule.parts, cons_append, nil_append, hread, Option.map_some]
  | final target => simp [Line.parts]

/-- **The grammar is unambiguous.** -/
theorem lines_unambiguous {l' : Line} (h : l.Good) (h' : l'.Good) (htext : l.text = l'.text) :
    l = l' := by
  have hread := parseLine_text h
  rw [htext, parseLine_text h'] at hread
  exact (Option.some.inj hread).symm

end ProxyLoom.Adapter.Mihomo
