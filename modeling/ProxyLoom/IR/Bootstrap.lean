import ProxyLoom.IR.Closure
import ProxyLoom.Lib.Scan
import ProxyLoom.Lib.Successor

/-!
# The references of a DNS profile

What the validation of a profile reports behind its schema: repeated names, references to resolvers
that are missing or of the wrong kind, and every resolver on a cycle of bootstrap references.
-/

namespace ProxyLoom.IR.DNSProfile

open Successor List

/-- The position of a resolver. A later one takes the place of an earlier one of the same name. -/
def indices (p : DNSProfile) (id : String) : Option ℕ :=
  (p.resolvers.zipIdx.reverse.find? fun r => r.1.resolverID = id).map Prod.snd

/-- The resolver that the resolver at a position is bootstrapped by. -/
def bootstrapNext (p : DNSProfile) (i : ℕ) : Option ℕ :=
  match p.resolvers[i]? with
  | none => none
  | some r => if r.kind = .https then p.indices r.bootstrapResolverID else none

def bootstrapPath (i : ℕ) : String :=
  "/resolvers/" ++ toString i ++ "/bootstrap_resolver_id"

def cycleIssues (p : DNSProfile) : Option (List Diagnostic) :=
  (search p.bootstrapNext p.resolvers.length (List.range p.resolvers.length) .start).map fun s =>
    s.found.map fun i => issue .referenceCycle (bootstrapPath i)

section
variable (p : DNSProfile)

def hasBootstrap (id : String) : Bool := p.bootstrap.any fun r => r.resolverID = id

def hasResolver (id : String) : Bool := p.resolvers.any fun r => r.resolverID = id

def bootstrapIssues : List Diagnostic :=
  Loop.reports (fun before r =>
    if before.any (fun b => b.resolverID = r.resolverID) then
      [issue .duplicateResource ("/bootstrap/" ++ toString before.length ++ "/resolver_id")]
    else []) p.bootstrap

def duplicateIssues : List Diagnostic :=
  Loop.reports (fun before r =>
    if before.any (fun b => b.resolverID = r.resolverID) || p.hasBootstrap r.resolverID then
      [issue .duplicateResource ("/resolvers/" ++ toString before.length ++ "/resolver_id")]
    else []) p.resolvers

/-- With what the validation of a resolver by itself reports. -/
def resolverIssues (validate : DNSResolver → List Diagnostic) : List Diagnostic :=
  Loop.reports (fun before r =>
    prefixDiagnostics (validate r) ("/resolvers/" ++ toString before.length) "" ++
    if r.kind = .https && !p.hasBootstrap r.bootstrapResolverID then
      [issue (if p.hasResolver r.bootstrapResolverID then .referenceKind else .referenceMissing)
        (bootstrapPath before.length)]
    else []) p.resolvers

def finalIssues : List Diagnostic :=
  if p.hasResolver p.finalResolver then [] else [issue .referenceMissing "/final_resolver"]

def ruleIssues : List Diagnostic :=
  Loop.reports (fun before r =>
    if p.hasResolver r.resolverID then []
    else [issue .referenceMissing ("/rules/" ++ toString before.length ++ "/resolver_id")]) p.rules

/-- What is reported of a profile that fits its schema; nothing if the search does not end. -/
def issues (validate : DNSResolver → List Diagnostic) : Option (List Diagnostic) :=
  p.cycleIssues.map fun cycles =>
    stableDiagnostics (p.bootstrapIssues ++ p.duplicateIssues ++ p.resolverIssues validate ++
      cycles ++ p.finalIssues ++ p.ruleIssues)

end

/-! ## The bootstrap relation -/

/-- The resolver at one position is bootstrapped by the resolver at another. -/
def Boots (p : DNSProfile) (i j : ℕ) : Prop :=
  ∃ r r', p.resolvers[i]? = some r ∧ p.resolvers[j]? = some r' ∧ r.kind = .https ∧
    r.bootstrapResolverID = r'.resolverID

/-- The resolver at a position is on a cycle of bootstrap references. -/
def BootstrapCycle (p : DNSProfile) (i : ℕ) : Prop := Relation.TransGen p.Boots i i

variable {p : DNSProfile} {d : Diagnostic}

theorem indices_eq_some_iff (hids : (p.resolvers.map DNSResolver.resolverID).Nodup) (id : String)
    (j : ℕ) : p.indices id = some j ↔ ∃ r, p.resolvers[j]? = some r ∧ r.resolverID = id := by
  have hkeys : (p.resolvers.zipIdx.reverse.map fun q => q.1.resolverID).Nodup := by
    rw [← zipIdx_map_fst 0 p.resolvers, map_map] at hids
    rw [map_reverse, nodup_reverse]
    exact hids
  have hfind := (⟨_, hkeys⟩ : Table fun q : DNSResolver × ℕ => q.1.resolverID).find?_eq_some_iff id
  unfold indices
  rw [Option.map_eq_some_iff]
  constructor
  · rintro ⟨⟨r, k⟩, h, rfl⟩
    obtain ⟨hmem, hid⟩ := (hfind _).mp h
    exact ⟨r, mk_mem_zipIdx_iff_getElem?.mp (mem_reverse.mp hmem), hid⟩
  · rintro ⟨r, hr, hid⟩
    have hmem : (r, j) ∈ p.resolvers.zipIdx := mk_mem_zipIdx_iff_getElem?.mpr hr
    exact ⟨(r, j), (hfind _).mpr ⟨mem_reverse.mpr hmem, hid⟩, rfl⟩

/-- The successors of the search are the bootstrap references. -/
theorem step_bootstrapNext_iff (hids : (p.resolvers.map DNSResolver.resolverID).Nodup) (i j : ℕ) :
    Step p.bootstrapNext i j ↔ p.Boots i j := by
  unfold Step bootstrapNext Boots
  cases hi : p.resolvers[i]? with
  | none => simp
  | some r =>
    by_cases hkind : r.kind = .https
    · simp only [if_pos hkind]
      rw [indices_eq_some_iff hids]
      constructor
      · rintro ⟨r', hj, hid⟩
        exact ⟨r, r', rfl, hj, hkind, hid.symm⟩
      · rintro ⟨_, r', heq, hj, -, hid⟩
        cases heq
        exact ⟨r', hj, hid.symm⟩
    · simp only [if_neg hkind]
      refine iff_of_false (by simp) ?_
      rintro ⟨_, r', heq, -, hhttps, -⟩
      cases heq
      exact hkind hhttps

theorem onCycle_iff (hids : (p.resolvers.map DNSResolver.resolverID).Nodup) (i : ℕ) :
    OnCycle p.bootstrapNext i ↔ p.BootstrapCycle i := by
  have heq : Step p.bootstrapNext = p.Boots := by
    funext i j
    exact propext (step_bootstrapNext_iff hids i j)
  unfold OnCycle BootstrapCycle
  rw [heq]

theorem cycleIssues_eq (hids : (p.resolvers.map DNSResolver.resolverID).Nodup) :
    ∃ found : List ℕ,
      p.cycleIssues = some (found.map fun i => issue .referenceCycle (bootstrapPath i)) ∧
      found.Nodup ∧ ∀ i, i ∈ found ↔ i < p.resolvers.length ∧ p.BootstrapCycle i := by
  have hinside : ∀ i ∈ List.range p.resolvers.length, ∀ j, Step p.bootstrapNext i j →
      j ∈ List.range p.resolvers.length := by
    intro i _ j hstep
    obtain ⟨-, r', -, hj, -⟩ := (step_bootstrapNext_iff hids i j).mp hstep
    exact mem_range.mpr (List.getElem?_eq_some_iff.mp hj).1
  obtain ⟨s, hsearch, hnodup, hfound⟩ := search_exact hinside
  refine ⟨s.found, ?_, hnodup, fun i => ?_⟩
  · rw [length_range] at hsearch
    rw [cycleIssues, hsearch, Option.map_some]
  · rw [hfound i, mem_range, onCycle_iff hids]

/-! ## Reports -/

theorem bootstrapPath_injective : Function.Injective bootstrapPath := by
  intro i j h
  have hmiddle : toString i = toString j :=
    String.append_right_inj _ |>.mp (String.append_left_inj _ |>.mp h)
  have hnumber := Scan.number_digits i
  rw [Scan.digits, hmiddle, ← Scan.digits, Scan.number_digits] at hnumber
  exact (Option.some.inj hnumber).symm

/-- A report that stands once among the diagnostics, or not at all, does so in order. -/
theorem count_stableDiagnostics {l : List Diagnostic} (h : l.count d ≤ 1) :
    (stableDiagnostics l).count d = l.count d := by
  refine le_antisymm ?_ ?_
  · refine ((destutter_sublist _ _).count_le d).trans ?_
    rw [(perm_insertionSort _ l).count_eq]
  · rcases Nat.le_one_iff_eq_zero_or_eq_one.mp h with h0 | h1
    · exact h0.le.trans (Nat.zero_le _)
    · have hmem : d ∈ l := count_pos_iff.mp (by omega)
      rw [h1]
      exact count_pos_iff.mpr (mem_stableDiagnostics_iff.mpr hmem)

theorem code_of_reports {α : Type} {body : List α → α → List Diagnostic} {l : List α}
    (hbody : ∀ before a, ∀ d ∈ body before a, d.code ≠ .referenceCycle)
    (h : d ∈ Loop.reports body l) : d.code ≠ .referenceCycle := by
  obtain ⟨before, a, -, -, hd⟩ := Loop.mem_reports h
  exact hbody before a d hd

theorem code_ne_cycle {validate : DNSResolver → List Diagnostic}
    (hvalidate : ∀ r, ∀ d ∈ validate r, d.code ≠ .referenceCycle)
    (h : d ∈ (p.bootstrapIssues ++ p.duplicateIssues ++ p.resolverIssues validate) ++
      (p.finalIssues ++ p.ruleIssues)) : d.code ≠ .referenceCycle := by
  simp only [mem_append] at h
  rcases h with ((h | h) | h) | h | h
  · refine code_of_reports (fun before r d hd => ?_) h
    split_ifs at hd
    · rw [mem_singleton.mp hd]
      exact DiagnosticCode.noConfusion
    · cases hd
  · refine code_of_reports (fun before r d hd => ?_) h
    split_ifs at hd
    · rw [mem_singleton.mp hd]
      exact DiagnosticCode.noConfusion
    · cases hd
  · refine code_of_reports (fun before r d hd => ?_) h
    rcases mem_append.mp hd with hd | hd
    · obtain ⟨x, hx, rfl⟩ := mem_map.mp hd
      exact hvalidate r x hx
    · split_ifs at hd
      · rw [mem_singleton.mp hd]
        exact DiagnosticCode.noConfusion
      · rw [mem_singleton.mp hd]
        exact DiagnosticCode.noConfusion
      · cases hd
  · unfold finalIssues at h
    split_ifs at h
    · cases h
    · rw [mem_singleton.mp h]
      exact DiagnosticCode.noConfusion
  · refine code_of_reports (fun before r d hd => ?_) h
    split_ifs at hd
    · cases hd
    · rw [mem_singleton.mp hd]
      exact DiagnosticCode.noConfusion

theorem count_cycle {validate : DNSResolver → List Diagnostic}
    (hvalidate : ∀ r, ∀ d ∈ validate r, d.code ≠ .referenceCycle) (found : List ℕ) (i : ℕ) :
    (p.bootstrapIssues ++ p.duplicateIssues ++ p.resolverIssues validate ++
      (found.map fun i => issue .referenceCycle (bootstrapPath i)) ++ p.finalIssues ++
      p.ruleIssues).count (issue .referenceCycle (bootstrapPath i)) = found.count i := by
  have hinj : Function.Injective fun i => issue .referenceCycle (bootstrapPath i) :=
    fun i j h => bootstrapPath_injective (congrArg Diagnostic.fieldPath h)
  have hother := count_eq_zero.mpr fun h =>
    code_ne_cycle (p := p) (d := issue .referenceCycle (bootstrapPath i)) hvalidate h rfl
  have hfound := count_map_of_injective found _ hinj i
  simp only [count_append] at hother ⊢
  omega

/-- **Bootstrap cycles.** For every profile whose resolvers have different names the validation of
the references ends. It reports a cycle once for each resolver that is on a cycle of bootstrap
references, and for nothing else. -/
theorem bootstrap_cycles (p : DNSProfile) (validate : DNSResolver → List Diagnostic)
    (hids : (p.resolvers.map DNSResolver.resolverID).Nodup)
    (hvalidate : ∀ r, ∀ d ∈ validate r, d.code ≠ .referenceCycle) :
    ∃ reported, p.issues validate = some reported ∧
      (∀ i < p.resolvers.length,
        (p.BootstrapCycle i → reported.count (issue .referenceCycle (bootstrapPath i)) = 1) ∧
        (¬ p.BootstrapCycle i → reported.count (issue .referenceCycle (bootstrapPath i)) = 0)) ∧
      ∀ d ∈ reported, d.code = .referenceCycle →
        ∃ i < p.resolvers.length, d = issue .referenceCycle (bootstrapPath i) := by
  obtain ⟨found, hcycles, hnodup, hfound⟩ := cycleIssues_eq hids
  refine ⟨_, by rw [issues, hcycles, Option.map_some], fun i hi => ?_, fun d hd hcode => ?_⟩
  · have hcount := count_cycle (p := p) hvalidate found i
    rw [count_stableDiagnostics (hcount.le.trans (nodup_iff_count_le_one.mp hnodup i)), hcount]
    exact ⟨fun h => count_eq_one_of_mem hnodup ((hfound i).mpr ⟨hi, h⟩),
      fun h => count_eq_zero.mpr fun hin => h ((hfound i).mp hin).2⟩
  · have hd := mem_stableDiagnostics_iff.mp hd
    have hother := mt (code_ne_cycle (p := p) (d := d) hvalidate) (not_not.mpr hcode)
    simp only [mem_append, not_or] at hd hother
    have hcycle : d ∈ found.map fun i => issue .referenceCycle (bootstrapPath i) := by tauto
    obtain ⟨i, hin, rfl⟩ := mem_map.mp hcycle
    exact ⟨i, ((hfound i).mp hin).1, rfl⟩

def resolverNamed (id bootstrap : String) : DNSResolver :=
  ⟨id, .https, "", 0, "https://dns.example/dns-query", bootstrap, none⟩

def loopedProfile : DNSProfile :=
  ⟨1, [], [resolverNamed "tail" "a", resolverNamed "a" "b", resolverNamed "b" "a"], [], "a"⟩

/-- Two resolvers that bootstrap each other, and one that leads to them. -/
theorem bootstrap_cycles_looped : ∃ reported,
    loopedProfile.issues (fun _ => []) = some reported ∧
      reported.count (issue .referenceCycle (bootstrapPath 1)) = 1 := by
  obtain ⟨reported, hissues, hreported, -⟩ := bootstrap_cycles loopedProfile (fun _ => [])
    (by decide) (fun _ _ h => absurd h not_mem_nil)
  refine ⟨reported, hissues, (hreported 1 (by decide)).1 ?_⟩
  have hab : loopedProfile.Boots 1 2 := ⟨_, _, rfl, rfl, rfl, rfl⟩
  have hba : loopedProfile.Boots 2 1 := ⟨_, _, rfl, rfl, rfl, rfl⟩
  exact .head hab (.single hba)

end ProxyLoom.IR.DNSProfile
