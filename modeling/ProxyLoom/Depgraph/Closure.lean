import ProxyLoom.Depgraph.Expand

/-!
# The closure under references

What an expansion emits, and when it reports something, over any resources and any references.
-/

namespace ProxyLoom.Depgraph

open IR Catalog Relation List

/-! ## The graph -/

/-- What is expanded: the resources and their references, the options and the roots. -/
structure Graph where
  refs : Resource → Except CatalogError (List Reference)
  find : ID → Option Resource
  options : Options
  roots : List ID

section
variable (g : Graph)

/-- The references of the resource under an ID, if there is one and they can be extracted. -/
def refsOf (id : ID) : List Reference := ((g.find id).bind fun r => (g.refs r).toOption).getD []

def Follows (a b : ID) : Prop := ∃ ref ∈ refsOf g a, ref.targetID = b

def Leads (id : ID) : Prop := ∃ root ∈ g.roots, ReflTransGen (Follows g) root id

def Acyclic : Prop := ∀ id, Leads g id → ¬TransGen (Follows g) id id

/-- The reference does not name a resource of another kind. -/
def Fits (ref : Reference) : Prop :=
  ∀ target, g.find ref.targetID = some target → target.metadata.kind = ref.expectedKind

/-- The resource is there, wanted and enabled, and its references can be extracted. -/
def Usable (id : ID) : Prop := id ∉ g.options.exclude ∧
  ∃ r rs, g.find id = some r ∧ r.metadata.enabled = true ∧ g.refs r = .ok rs

/-- Nothing stands in the way of the closure of the roots. -/
structure Sound : Prop where
  usable : ∀ id, Leads g id → Usable g id
  kinds : ∀ id, Leads g id → ∀ ref ∈ refsOf g id, Fits g ref
  scope : ∃ scope, (g.options.scopeID ≠ "" → scope = g.options.scopeID) ∧
    ∀ id r, Leads g id → g.find id = some r → r.metadata.scopeID = scope
  acyclic : Acyclic g
  limit : ∀ l : List ID, l.Nodup → (∀ id ∈ l, Leads g id) →
    l.length ≤ g.options.maxResources

/-! ## What holds of every walk -/

/-- The resource is not emitted and will not be. -/
def Shut (out : Expansion) (id : ID) : Prop := id ∉ out.order ∧ id ∉ out.visiting ∧
  (¬Usable g id ∨
    (∃ r, g.find id = some r ∧ out.scopeID ≠ "" ∧ r.metadata.scopeID ≠ out.scopeID) ∨
    g.options.maxResources ≤ out.order.length + out.visiting.length)

/-- The target of a reference of `a` is emitted before `a`, or there is a reason why not. -/
def Settled (out : Expansion) (a : ID) (ref : Reference) : Prop :=
  (Fits g ref ∧ out.order.idxOf ref.targetID < out.order.idxOf a) ∨
    (out.diagnostics ≠ [] ∧ (¬Fits g ref ∨ Shut g out ref.targetID ∨
      TransGen (Follows g) ref.targetID a))

/-- What holds of every walk. -/
structure Inv (out : Expansion) : Prop where
  nodup : (out.order ++ out.visiting).Nodup
  limit : out.order.length + out.visiting.length ≤ g.options.maxResources
  leads : ∀ id ∈ out.order ++ out.visiting, Leads g id
  emitted : ∀ id ∈ out.order, id ∈ out.done
  done : ∀ id ∈ out.done,
    id ∈ out.order ∨ (out.diagnostics ≠ [] ∧ Shut g out id)
  resources : out.resources.map some = out.order.map g.find
  scope : g.options.scopeID ≠ "" → out.scopeID = g.options.scopeID
  origin : out.scopeID ≠ "" → out.scopeID = g.options.scopeID ∨
    ∃ id r, Leads g id ∧ g.find id = some r ∧ r.metadata.scopeID = out.scopeID
  usable : ∀ id ∈ out.order, Usable g id
  scopes : ∀ id ∈ out.order, ∀ r, g.find id = some r → r.metadata.scopeID = out.scopeID ∨
    (r.metadata.scopeID = "" ∧ g.options.scopeID = "")
  settled : ∀ a ∈ out.order, ∀ ref ∈ refsOf g a, Settled g out a ref
  cause : out.diagnostics ≠ [] → ¬Sound g

structure Post (out out' : Expansion) : Prop where
  inv : Inv g out'
  visiting : out'.visiting = out.visiting
  order : out.order <+: out'.order
  scope : out.scopeID ≠ "" → out'.scopeID = out.scopeID
  shut : ∀ id, Shut g out id → id ∉ out'.order
  silent : out'.diagnostics = [] → out.diagnostics = []

/-- What was walked to along a reference, while `visiting` was. -/
def Reached (visiting : List ID) (fits : Prop) (id : ID) (out : Expansion) : Prop :=
  (fits ∧ id ∈ out.order) ∨ (out.diagnostics ≠ [] ∧
    (¬fits ∨ Shut g out id ∨ id ∈ visiting))

end

variable {g : Graph} {out out' : Expansion} {id : ID} {r : Resource} {rs : List Reference}
  {mid : Expansion} {visiting : List ID}

theorem refsOf_eq (hr : g.find id = some r) (hrs : g.refs r = .ok rs) :
    refsOf g id = rs := by
  simp [refsOf, hr, hrs, Except.toOption]

theorem Leads.follow {a b : ID} (h : Leads g a) (hab : Follows g a b) :
    Leads g b := by
  obtain ⟨root, hroot, hpath⟩ := h
  exact ⟨root, hroot, hpath.tail hab⟩

theorem Post.refl (h : Inv g out) : Post g out out :=
  ⟨h, rfl, prefix_rfl, fun _ => rfl, fun _ hshut => hshut.1, fun hnil => hnil⟩

theorem Shut.later (h : Shut g out id) (hpost : Post g out out') :
    Shut g out' id := by
  refine ⟨hpost.shut id h, hpost.visiting ▸ h.2.1, ?_⟩
  obtain husable | ⟨r, hr, hne, hscope⟩ | hfull := h.2.2
  · exact .inl husable
  · exact .inr (.inl ⟨r, hr, by rwa [hpost.scope hne], by rwa [hpost.scope hne]⟩)
  · refine .inr (.inr (hfull.trans ?_))
    rw [hpost.visiting]
    exact Nat.add_le_add_right hpost.order.length_le _

theorem Post.trans (h₁ : Post g out mid)
    (h₂ : Post g mid out') : Post g out out' where
  inv := h₂.inv
  visiting := h₂.visiting.trans h₁.visiting
  order := h₁.order.trans h₂.order
  scope hne := by
    have hmid := h₁.scope hne
    rw [h₂.scope (hmid ▸ hne), hmid]
  shut id hshut := h₂.shut id (hshut.later h₁)
  silent hnil := h₁.silent (h₂.silent hnil)

theorem Reached.later {fits : Prop}
    (h : Reached g visiting fits id out)
    (hpost : Post g out out') :
    Reached g visiting fits id out' := by
  obtain ⟨hfits, hid⟩ | ⟨hdiag, hreason⟩ := h
  · exact .inl ⟨hfits, hpost.order.subset hid⟩
  · refine .inr ⟨fun hnil => hdiag (hpost.silent hnil), ?_⟩
    exact hreason.imp_right (Or.imp_left fun hshut => hshut.later hpost)

/-! ## Reports -/

theorem report_ne_nil (out : Expansion) (code : DiagnosticCode) (id : ID) (via message : String) :
    (out.report code id via message).diagnostics ≠ [] := by
  simp [Expansion.report]

theorem Inv.report (h : Inv g out) (hcause : ¬Sound g)
    (code : DiagnosticCode) (k : ID) (via message : String) :
    Post g out (out.report code k via message) := by
  have hdiag := report_ne_nil out code k via message
  refine ⟨?_, rfl, prefix_rfl, fun _ => rfl, fun _ hshut => hshut.1,
    fun hnil => absurd hnil hdiag⟩
  exact { h with
    done := fun id hid => (h.done id hid).imp_right fun hdone => ⟨hdiag, hdone.2⟩
    settled := fun a ha ref href => (h.settled a ha ref href).imp_right fun hset => ⟨hdiag, hset.2⟩
    cause := fun _ => hcause }

theorem Inv.enter (h : Inv g out) (hid : Leads g id)
    (hr : g.find id = some r) : Post g out (out.enter r) := by
  by_cases hempty : out.scopeID = ""
  · have hgiven : g.options.scopeID = "" := by
      by_contra hne
      exact hne ((h.scope hne).symm.trans hempty)
    have hshut : ∀ k, Shut g out k → Shut g (out.enter r) k := by
      rintro k ⟨horder, hvisiting, husable | ⟨r', hr', hne, -⟩ | hfull⟩
      · exact ⟨horder, hvisiting, .inl husable⟩
      · exact absurd hempty hne
      · exact ⟨horder, hvisiting, .inr (.inr hfull)⟩
    refine ⟨?_, rfl, prefix_rfl, fun hne => absurd hempty hne, fun k hk => hk.1,
      fun hnil => hnil⟩
    exact { h with
      done := fun k hk => (h.done k hk).imp_right fun hdone => ⟨hdone.1, hshut k hdone.2⟩
      scope := fun hne => absurd hgiven hne
      origin := fun _ => .inr ⟨id, r, hid, hr, by rw [Expansion.enter, hempty]; rfl⟩
      scopes := fun k hk r' hr' => .inr ⟨(h.scopes k hk r' hr').elim (·.trans hempty) (·.1), hgiven⟩
      settled := fun a ha ref href => (h.settled a ha ref href).imp_right fun hset =>
        ⟨hset.1, hset.2.imp_right (Or.imp_left (hshut _))⟩ }
  · have hsame : out.enter r = out := by
      rw [Expansion.enter, if_neg hempty]
    rw [hsame]
    exact .refl h

/-! ## Visits -/

theorem Inv.visit (h : Inv g out) (hid : Leads g id)
    (horder : id ∉ out.order) (hvisiting : id ∉ out.visiting)
    (hroom : out.order.length + out.visiting.length < g.options.maxResources)
    (hopen : ¬Shut g out id) :
    Inv g (out.visit id) ∧
      ∀ k, Shut g out k → Shut g (out.visit id) k := by
  have hshut : ∀ k, Shut g out k → Shut g (out.visit id) k := by
    intro k hk
    have hne : k ≠ id := fun heq => hopen (heq ▸ hk)
    obtain ⟨hk₁, hk₂, hreason⟩ := hk
    refine ⟨hk₁, fun hmem => (mem_cons.mp hmem).elim hne hk₂,
      hreason.imp_right (Or.imp_right fun hfull => ?_)⟩
    exact hfull.trans (Nat.add_le_add_left (Nat.le_succ _) _)
  refine ⟨{ h with
    nodup := nodup_middle.mpr (nodup_cons.mpr ⟨?_, h.nodup⟩)
    limit := hroom
    leads := fun k hk => ?_
    done := fun k hk => (h.done k hk).imp_right fun hdone => ⟨hdone.1, hshut k hdone.2⟩
    settled := fun a ha ref href => (h.settled a ha ref href).imp_right fun hset =>
      ⟨hset.1, hset.2.imp_right (Or.imp_left (hshut _))⟩ }, hshut⟩
  · rw [mem_append, not_or]
    exact ⟨horder, hvisiting⟩
  · obtain rfl | hk := mem_cons.mp (perm_middle.mem_iff.mp hk)
    · exact hid
    · exact h.leads k hk

theorem Inv.emit (h : Inv g out)
    (hvisiting : out.visiting = id :: visiting) (hr : g.find id = some r) (hrs : g.refs r = .ok rs)
    (husable : Usable g id)
    (hscope : r.metadata.scopeID = out.scopeID ∨
      (r.metadata.scopeID = "" ∧ g.options.scopeID = ""))
    (hpath : ∀ v ∈ visiting, TransGen (Follows g) v id)
    (hrefs : ∀ ref ∈ rs, Reached g out.visiting (Fits g ref) ref.targetID out) :
    Inv g (out.emit id r) ∧ (out.emit id r).visiting = visiting ∧
      ∀ k, Shut g out k → k ∉ (out.emit id r).order := by
  have hvisited : (out.emit id r).visiting = visiting := by
    rw [Expansion.emit, hvisiting]
    exact erase_cons_head id visiting
  have hnodup := h.nodup
  rw [hvisiting] at hnodup
  have hid : id ∉ out.order := fun hmem =>
    (nodup_append.mp hnodup).2.2 id hmem id mem_cons_self rfl
  have horder : ∀ k, k ∈ (out.emit id r).order ↔ k ∈ out.order ∨ k = id := fun k => by
    rw [Expansion.emit, mem_append, mem_singleton]
  have hlength : (out.emit id r).order.length + (out.emit id r).visiting.length =
      out.order.length + out.visiting.length := by
    rw [hvisited, hvisiting, Expansion.emit]
    simp only [length_append, length_cons, length_nil]
    omega
  have hshut : ∀ k, Shut g out k → Shut g (out.emit id r) k := by
    rintro k ⟨hk₁, hk₂, hreason⟩
    rw [hvisiting, mem_cons, not_or] at hk₂
    refine ⟨fun hmem => ((horder k).mp hmem).elim hk₁ hk₂.1, hvisited ▸ hk₂.2, ?_⟩
    rw [hlength]
    exact hreason
  -- what was emitted keeps its place, and the resource comes after it
  have hplace : ∀ k ∈ out.order, (out.emit id r).order.idxOf k = out.order.idxOf k :=
    fun k hk => idxOf_append_of_mem hk
  have hlast : (out.emit id r).order.idxOf id = out.order.length := by
    rw [Expansion.emit, idxOf_append_of_notMem hid]
    simp
  have hedge : ∀ ref ∈ rs, Follows g id ref.targetID := fun ref href =>
    ⟨ref, (refsOf_eq hr hrs).symm ▸ href, rfl⟩
  refine ⟨{ h with
    nodup := ?_
    limit := hlength ▸ h.limit
    leads := fun k hk => h.leads k ?_
    emitted := fun k hk => ?_
    done := fun k hk => ?_
    resources := ?_
    usable := fun k hk => ((horder k).mp hk).elim (h.usable k) fun heq => heq ▸ husable
    scopes := fun k hk r' hr' => ?_
    settled := fun a ha ref href => ?_ }, hvisited, fun k hk => (hshut k hk).1⟩
  · rw [hvisited]
    change ((out.order ++ [id]) ++ visiting).Nodup
    rwa [append_assoc]
  · rw [hvisiting]
    rw [hvisited] at hk
    change k ∈ (out.order ++ [id]) ++ visiting at hk
    rwa [append_assoc] at hk
  · exact ((horder k).mp hk).elim (fun hk => mem_cons_of_mem _ (h.emitted k hk))
      fun heq => heq ▸ mem_cons_self
  · obtain rfl | hk := mem_cons.mp hk
    · exact .inl ((horder k).mpr (.inr rfl))
    · exact (h.done k hk).imp (fun hk => (horder k).mpr (.inl hk))
        fun hdone => ⟨hdone.1, hshut k hdone.2⟩
  · change (out.resources ++ [r]).map some = (out.order ++ [id]).map g.find
    rw [map_append, map_append, h.resources]
    simp [hr]
  · obtain hk | rfl := (horder k).mp hk
    · exact h.scopes k hk r' hr'
    · rw [hr] at hr'
      cases hr'
      exact hscope
  · obtain ha | rfl := (horder a).mp ha
    · obtain ⟨hfits, hlt⟩ | ⟨hdiag, hreason⟩ := h.settled a ha ref href
      · have hmem : ref.targetID ∈ out.order :=
          idxOf_lt_length_iff.mp (hlt.trans (idxOf_lt_length_iff.mpr ha))
        refine .inl ⟨hfits, ?_⟩
        rwa [hplace _ hmem, hplace _ ha]
      · exact .inr ⟨hdiag, hreason.imp_right (Or.imp_left (hshut _))⟩
    · rw [refsOf_eq hr hrs] at href
      obtain ⟨hfits, hmem⟩ | ⟨hdiag, hfits | hk | hmem⟩ := hrefs ref href
      · refine .inl ⟨hfits, ?_⟩
        rw [hplace _ hmem, hlast]
        exact idxOf_lt_length_iff.mpr hmem
      · exact .inr ⟨hdiag, .inl hfits⟩
      · exact .inr ⟨hdiag, .inr (.inl (hshut _ hk))⟩
      · refine .inr ⟨hdiag, .inr (.inr ?_)⟩
        rw [hvisiting] at hmem
        obtain heq | hmem := mem_cons.mp hmem
        · have hloop := hedge ref href
          rw [heq] at hloop ⊢
          exact .single hloop
        · exact hpath _ hmem

/-! ## Steps -/

theorem foldl_post {α : Type} {f : Expansion → α → Expansion}
    {fits : α → Prop} {target : α → ID} (l : List α)
    (hf : ∀ a ∈ l, ∀ out, Inv g out → out.visiting = visiting →
      Post g out (f out a) ∧
        Reached g visiting (fits a) (target a) (f out a)) :
    ∀ out, Inv g out → out.visiting = visiting →
      Post g out (l.foldl f out) ∧
        ∀ a ∈ l, Reached g visiting (fits a) (target a) (l.foldl f out) := by
  induction l with
  | nil => exact fun out hout _ => ⟨.refl hout, fun a ha => by cases ha⟩
  | cons a l ih =>
    intro out hout hvisiting
    obtain ⟨hpost, hreached⟩ := hf a mem_cons_self out hout hvisiting
    obtain ⟨hrest, hall⟩ := ih (fun b hb => hf b (mem_cons_of_mem _ hb)) (f out a) hpost.inv
      (hpost.visiting.trans hvisiting)
    refine ⟨hpost.trans hrest, fun b hb => ?_⟩
    obtain rfl | hb := mem_cons.mp hb
    · exact hreached.later hrest
    · exact hall b hb

/-- Walk along one reference, unless it names a resource of another kind. -/
def follow (g : Graph) (fuel : ℕ) (path : List ID) (out : Expansion) (ref : Reference) :
    Expansion :=
  if (g.find ref.targetID).any (fun target => target.metadata.kind ≠ ref.expectedKind) then
    out.report .referenceKind ref.targetID ref.path "The referenced resource has the wrong kind."
  else walk g.refs g.find g.options fuel path ref.targetID ref.path out

theorem fits_iff {ref : Reference} : Fits g ref ↔
    ¬(g.find ref.targetID).any (fun target => target.metadata.kind ≠ ref.expectedKind) = true := by
  cases htarget : g.find ref.targetID with
  | none => simp [Fits, htarget]
  | some target => simp [Fits, htarget]

theorem Post.report (h : Post g out mid)
    (hcause : ¬Sound g)
    (hwhy : Shut g mid id ∨ id ∈ out.visiting) (code : DiagnosticCode) (k : ID)
    (via message : String) :
    Post g out (mid.report code k via message) ∧
      Reached g out.visiting True id (mid.report code k via message) :=
  ⟨h.trans (h.inv.report hcause code k via message),
    .inr ⟨report_ne_nil _ _ _ _ _, .inr (hwhy.imp_left fun hshut => hshut)⟩⟩

theorem Inv.shut (h : Inv g out) (hnot : ¬Usable g id)
    (hvisiting : id ∉ out.visiting) : Shut g out id :=
  ⟨fun hmem => hnot (h.usable id hmem), hvisiting, .inl hnot⟩

theorem Inv.mismatch (h : Inv g out) (hid : Leads g id)
    (hr : g.find id = some r) (hne : out.scopeID ≠ "") (hscope : r.metadata.scopeID ≠ out.scopeID) :
    ¬Sound g := by
  intro hsound
  obtain ⟨scope, hgiven, hall⟩ := hsound.scope
  refine hscope ((hall id r hid hr).trans ?_)
  obtain heq | ⟨k, r', hk, hr', heq⟩ := h.origin hne
  · rw [hgiven (heq ▸ hne), heq]
  · rw [← hall k r' hk hr', heq]

theorem follow_post {fuel : ℕ} {path : List ID} {ref : Reference} (h : Inv g out)
    (hid : Leads g id) (href : ref ∈ refsOf g id)
    (hwalk : Post g out (walk g.refs g.find g.options fuel path ref.targetID ref.path out) ∧
      Reached g out.visiting True ref.targetID
        (walk g.refs g.find g.options fuel path ref.targetID ref.path out)) :
    Post g out (follow g fuel path out ref) ∧
      Reached g out.visiting (Fits g ref) ref.targetID (follow g fuel path out ref) := by
  unfold follow
  split_ifs with hkind
  · have hmisfit : ¬Fits g ref := fun hfits => fits_iff.mp hfits hkind
    exact ⟨h.report (fun hsound => hmisfit (hsound.kinds id hid ref href)) _ _ _ _,
      .inr ⟨report_ne_nil _ _ _ _ _, .inl hmisfit⟩⟩
  · refine ⟨hwalk.1, ?_⟩
    obtain ⟨-, hmem⟩ | ⟨hdiag, hno | hreason⟩ := hwalk.2
    · exact .inl ⟨fits_iff.mpr hkind, hmem⟩
    · exact absurd trivial hno
    · exact .inr ⟨hdiag, .inr hreason⟩

theorem Post.emit
    {f : Expansion → Reference → Expansion} (h : Post g out mid) (hid : Leads g id)
    (hr : g.find id = some r) (hrs : g.refs r = .ok rs) (husable : Usable g id)
    (horder : id ∉ mid.order) (hvisiting : id ∉ mid.visiting)
    (hscope : r.metadata.scopeID = mid.scopeID)
    (hroom : mid.order.length + mid.visiting.length < g.options.maxResources)
    (hpath : ∀ v ∈ out.visiting, TransGen (Follows g) v id)
    (hf : ∀ ref ∈ rs, ∀ out', Inv g out' → out'.visiting = id :: out.visiting →
      Post g out' (f out' ref) ∧
        Reached g (id :: out.visiting) (Fits g ref) ref.targetID (f out' ref)) :
    Post g out ((rs.foldl f (mid.visit id)).emit id r) ∧
      Reached g out.visiting True id ((rs.foldl f (mid.visit id)).emit id r) := by
  have hopen : ¬Shut g mid id := by
    rintro ⟨-, -, hnot | ⟨r', hr', -, hne⟩ | hfull⟩
    · exact hnot husable
    · rw [hr] at hr'
      cases hr'
      exact hne hscope
    · exact absurd hroom (Nat.not_lt.mpr hfull)
  obtain ⟨hvisit, hshut⟩ := h.inv.visit hid horder hvisiting hroom hopen
  have hvisited : (mid.visit id).visiting = id :: out.visiting := congrArg (id :: ·) h.visiting
  obtain ⟨hfold, hrefs⟩ := foldl_post rs hf (mid.visit id) hvisit hvisited
  have hleft := hfold.visiting.trans hvisited
  have hkept : r.metadata.scopeID = (rs.foldl f (mid.visit id)).scopeID ∨
      (r.metadata.scopeID = "" ∧ g.options.scopeID = "") := by
    by_cases hempty : mid.scopeID = ""
    · refine .inr ⟨hscope.trans hempty, by_contra fun hne => hne ?_⟩
      exact (h.inv.scope hne).symm.trans hempty
    · exact .inl (hscope.trans (hfold.scope hempty).symm)
  obtain ⟨hemit, hvisiting', hnot⟩ := hfold.inv.emit hleft hr hrs husable hkept hpath
    (fun ref href => hleft.symm ▸ hrefs ref href)
  refine ⟨⟨hemit, hvisiting', h.order.trans (hfold.order.trans (prefix_append _ _)), ?_,
    fun k hk => hnot k ((hshut k (hk.later h)).later hfold),
    fun hnil => h.silent (hfold.silent hnil)⟩,
    .inl ⟨trivial, mem_append_right _ (mem_singleton.mpr rfl)⟩⟩
  intro hne
  have hmid := h.scope hne
  exact (hfold.scope (hmid ▸ hne)).trans hmid

/-- **Step.** A walk to a resource that the roots lead to, with fuel for the depth that is left. -/
theorem walk_post (fuel : ℕ) : ∀ (path : List ID) (id : ID) (via : String) (out : Expansion),
    Inv g out → out.visiting.length = path.length →
    (∀ v ∈ out.visiting, TransGen (Follows g) v id) → Leads g id →
    g.options.maxResources < fuel + path.length →
    Post g out (walk g.refs g.find g.options fuel path id via out) ∧
      Reached g out.visiting True id
        (walk g.refs g.find g.options fuel path id via out) := by
  induction fuel with
  | zero =>
    intro path id via out hout hlength _ _ hfuel
    have hlimit := hout.limit
    omega
  | succ fuel ih =>
    intro path id via out hout hlength hpath hid hfuel
    have hunusable : ¬Usable g id → ¬Sound g :=
      fun hnot hsound => hnot (hsound.usable id hid)
    unfold walk
    split_ifs with hexclude hvisiting hdone
    · have hnot : ¬Usable g id := fun husable =>
        husable.1 (contains_iff_mem.mp hexclude)
      refine (Post.refl hout).report (hunusable hnot) ?_ _ _ _ _
      by_cases hmem : id ∈ out.visiting
      · exact .inr hmem
      · exact .inl (hout.shut hnot hmem)
    · have hmem := contains_iff_mem.mp hvisiting
      exact (Post.refl hout).report (fun hsound => hsound.acyclic id hid (hpath id hmem))
        (.inr hmem) _ _ _ _
    · refine ⟨.refl hout, (hout.done id (contains_iff_mem.mp hdone)).imp ?_ ?_⟩
      · exact fun hmem => ⟨trivial, hmem⟩
      · exact fun hshut => ⟨hshut.1, .inr (.inl hshut.2)⟩
    · have hunvisited : id ∉ out.visiting := fun hmem => hvisiting (contains_iff_mem.mpr hmem)
      have hnew : id ∉ out.order := fun hmem =>
        hdone (contains_iff_mem.mpr (hout.emitted id hmem))
      cases hr : g.find id with
      | none =>
        have hnot : ¬Usable g id := by
          rintro ⟨-, r, rs, hfind, -⟩
          rw [hr] at hfind
          cases hfind
        exact (Post.refl hout).report (hunusable hnot) (.inl (hout.shut hnot hunvisited)) _ _ _ _
      | some r =>
        have henter := hout.enter hid hr
        dsimp only
        split_ifs with hscope henabled hlimit
        · have hne : (out.enter r).scopeID ≠ "" := by
            intro hempty
            unfold Expansion.enter at hscope hempty
            split_ifs at hscope hempty with hnone
            · exact hscope rfl
            · exact hnone hempty
          exact henter.report (henter.inv.mismatch hid hr hne hscope)
            (.inl ⟨hnew, hunvisited, .inr (.inl ⟨r, hr, hne, hscope⟩)⟩) _ _ _ _
        · have hnot : ¬Usable g id := by
            rintro ⟨-, r', rs, hfind, hyes, -⟩
            rw [hr] at hfind
            cases hfind
            rw [hyes] at henabled
            cases henabled
          exact henter.report (hunusable hnot) (.inl (henter.inv.shut hnot hunvisited)) _ _ _ _
        · have hfull : g.options.maxResources ≤ (out.enter r).order.length +
              (out.enter r).visiting.length := by
            change _ ≤ _ + out.visiting.length
            rw [hlength]
            exact hlimit
          refine henter.report (fun hsound => ?_)
            (.inl ⟨hnew, hunvisited, .inr (.inr hfull)⟩) _ _ _ _
          have hle := hsound.limit (id :: (out.order ++ out.visiting))
            (nodup_cons.mpr ⟨fun hmem => (mem_append.mp hmem).elim hnew hunvisited,
              hout.nodup⟩)
            (fun k hk => (mem_cons.mp hk).elim (fun heq => heq ▸ hid) (hout.leads k))
          rw [length_cons, length_append] at hle
          exact absurd hfull (Nat.not_le.mpr hle)
        · rw [not_not] at hscope
          cases hrs : g.refs r with
          | error e =>
            have hnot : ¬Usable g id := by
              rintro ⟨-, r', rs, hfind, -, hok⟩
              rw [hr] at hfind
              cases hfind
              rw [hrs] at hok
              cases hok
            obtain ⟨hpost, hreached⟩ := henter.report (hunusable hnot)
              (.inl (henter.inv.shut hnot hunvisited)) .invalidValue id via
              "The resource references could not be expanded."
            have hshut := hpost.inv.shut hnot hunvisited
            refine ⟨{ hpost with inv := { hpost.inv with
              emitted := fun k hk => mem_cons_of_mem _ (hpost.inv.emitted k hk)
              done := fun k hk => ?_ } }, hreached⟩
            obtain rfl | hk := mem_cons.mp hk
            · exact .inr ⟨report_ne_nil _ _ _ _ _, hshut⟩
            · exact hpost.inv.done k hk
          | ok rs =>
            rw [Bool.not_eq_true', Bool.not_eq_false] at henabled
            have husable : Usable g id :=
              ⟨fun hmem => hexclude (contains_iff_mem.mpr hmem), r, rs, hr, henabled, hrs⟩
            have hroom : (out.enter r).order.length + (out.enter r).visiting.length <
                g.options.maxResources := by
              change _ + out.visiting.length < _
              rw [hlength]
              exact Nat.not_le.mp hlimit
            have hrefs := refsOf_eq hr hrs
            have hdepth : (path ++ [id]).length = path.length + 1 := length_append
            refine henter.emit (f := follow g fuel (path ++ [id])) hid hr hrs husable hnew
              hunvisited hscope hroom hpath fun ref href out₁ hout₁ hvisiting₁ => ?_
            rw [← hvisiting₁]
            rw [← hrefs] at href
            -- along the reference, one deeper
            have hedge : Follows g id ref.targetID := ⟨ref, href, rfl⟩
            refine follow_post hout₁ hid href (ih (path ++ [id]) _ _ out₁ hout₁ ?_ ?_
              (hid.follow hedge) (by omega))
            · rw [hvisiting₁, hdepth, length_cons, hlength]
            · intro v hv
              rw [hvisiting₁] at hv
              obtain rfl | hv := mem_cons.mp hv
              · exact .single hedge
              · exact (hpath v hv).tail hedge

/-! ## The expansion -/

theorem map_snd_indexed {α : Type} (base : String) (l : List α) :
    (indexed base l).map Prod.snd = l := by
  unfold indexed
  rw [List.map_map]
  exact zipIdx_map_fst 0 l

section
variable (refs : Resource → Except CatalogError (List Reference)) (find : ID → Option Resource)
  (options : Options) (roots : List ID)

/-- What `expand` walks over. -/
def graph : Graph := ⟨refs, find, options.withDefaults, roots⟩

/-- **Run.** What the walks from the roots leave. -/
theorem expand_post : Inv (graph refs find options roots) (expand refs find options roots) ∧
    (expand refs find options roots).order.Nodup ∧
    (expand refs find options roots).order.length ≤ options.withDefaults.maxResources ∧
    ∀ root ∈ roots, Reached (graph refs find options roots) [] True root
      (expand refs find options roots) := by
  have hnil : Inv (graph refs find options roots) ⟨options.scopeID, [], [], [], [], []⟩ := by
    constructor <;> simp [graph, Options.withDefaults]
  have hstep : ∀ root ∈ indexed "/roots" roots, ∀ out, Inv (graph refs find options roots) out →
      out.visiting = [] → Post (graph refs find options roots) out
        (walk refs find options.withDefaults (options.withDefaults.maxResources + 1) [] root.2
          root.1 out) ∧ Reached (graph refs find options roots) [] True root.2
        (walk refs find options.withDefaults (options.withDefaults.maxResources + 1) [] root.2
          root.1 out) := by
    intro root hroot out hout hvisiting
    have hmem := mem_map_of_mem (f := Prod.snd) hroot
    rw [map_snd_indexed] at hmem
    have hwalk := walk_post (options.withDefaults.maxResources + 1) [] root.2 root.1 out hout
      (by rw [hvisiting]) (by simp [hvisiting]) ⟨root.2, hmem, .refl⟩ (Nat.lt_succ_self _)
    rwa [hvisiting] at hwalk
  obtain ⟨hpost, hroots⟩ := foldl_post _ hstep _ hnil rfl
  have hnodup := hpost.inv.nodup
  have hlimit := hpost.inv.limit
  rw [hpost.visiting, append_nil] at hnodup
  rw [hpost.visiting] at hlimit
  refine ⟨hpost.inv, hnodup, hlimit, fun root hroot => ?_⟩
  rw [← map_snd_indexed "/roots" roots] at hroot
  obtain ⟨p, hp, rfl⟩ := mem_map.mp hroot
  exact hroots p hp

variable {refs find options roots}

theorem Inv.before {a b : ID} (h : Inv g out) (hsilent : out.diagnostics = []) (ha : a ∈ out.order)
    (hab : Follows g a b) : b ∈ out.order ∧ out.order.idxOf b < out.order.idxOf a := by
  obtain ⟨ref, href, rfl⟩ := hab
  obtain ⟨-, hlt⟩ | ⟨hdiag, -⟩ := h.settled a ha ref href
  · exact ⟨idxOf_lt_length_iff.mp (hlt.trans (idxOf_lt_length_iff.mpr ha)), hlt⟩
  · exact absurd hsilent hdiag

theorem Inv.before_trans {a b : ID} (h : Inv g out) (hsilent : out.diagnostics = [])
    (ha : a ∈ out.order) (hab : TransGen (Follows g) a b) :
    b ∈ out.order ∧ out.order.idxOf b < out.order.idxOf a := by
  induction hab with
  | single hab => exact h.before hsilent ha hab
  | tail _ hbc ih =>
    have hc := h.before hsilent ih.1 hbc
    exact ⟨hc.1, hc.2.trans ih.2⟩

theorem expand_root {root : ID} (hsilent : (expand refs find options roots).diagnostics = [])
    (hroot : root ∈ roots) : root ∈ (expand refs find options roots).order := by
  obtain ⟨-, hmem⟩ | ⟨hdiag, -⟩ := (expand_post refs find options roots).2.2.2 root hroot
  · exact hmem
  · exact absurd hsilent hdiag

theorem expand_leads (hsilent : (expand refs find options roots).diagnostics = []) :
    id ∈ (expand refs find options roots).order ↔ Leads (graph refs find options roots) id := by
  have hinv := (expand_post refs find options roots).1
  refine ⟨fun hid => hinv.leads id (mem_append_left _ hid), ?_⟩
  rintro ⟨root, hroot, hpath⟩
  induction hpath with
  | refl => exact expand_root hsilent hroot
  | tail _ hab ih => exact (hinv.before hsilent ih hab).1

variable (refs find options roots)

/-- **Expansions.** More fuel changes nothing. Each resource is emitted once, within the limit and,
if there is no cycle, after what it refers to by its kind. The expansion reports nothing if and only
if nothing stands in the way, and then emits what the roots lead to. -/
theorem expand_exact : (expand refs find options roots).order.Nodup ∧
    let limit := options.withDefaults.maxResources
    let g := graph refs find options roots
    let out := expand refs find options roots
    (∀ fuel > limit, ∀ id via out, walk refs find g.options fuel [] id via out =
      walk refs find g.options (limit + 1) [] id via out) ∧
    out.order.length ≤ limit ∧
    (Acyclic g → ∀ a ∈ out.order, ∀ ref ∈ refsOf g a, Fits g ref → ref.targetID ∈ out.order →
      out.order.idxOf ref.targetID < out.order.idxOf a) ∧
    ((options.scopeID ≠ "" ∨ ∀ id r, Leads g id → find id = some r → r.metadata.scopeID ≠ "") →
      (out.diagnostics = [] ↔ Sound g)) ∧
    (out.diagnostics = [] → ∀ id, id ∈ out.order ↔ Leads g id) := by
  obtain ⟨hinv, hnodup, hlimit, -⟩ := expand_post refs find options roots
  refine ⟨hnodup, ?_⟩
  intro limit g out
  refine ⟨fun fuel hfuel id via out => ?_, hlimit, ?_, fun hscoped => ⟨fun hsilent => ?_,
    fun hsound => by_contra fun hdiag => hinv.cause hdiag hsound⟩, fun hsilent id =>
      expand_leads hsilent⟩
  · induction fuel, hfuel using Nat.le_induction with
    | base => rfl
    | succ fuel hle ih => exact (walk_fuel fuel [] id via out (Nat.zero_le _) hle).trans ih
  · intro hacyclic a ha ref href hfits hmem
    obtain ⟨-, hlt⟩ | ⟨-, hno | hshut | hback⟩ := hinv.settled a ha ref href
    · exact hlt
    · exact absurd hfits hno
    · exact absurd hmem hshut.1
    · exact absurd (.head ⟨ref, href, rfl⟩ hback)
        (hacyclic a (hinv.leads a (mem_append_left _ ha)))
  · have hleads : ∀ id, Leads g id → id ∈ out.order := fun id => (expand_leads hsilent).mpr
    refine ⟨fun id hid => hinv.usable id (hleads id hid), fun id hid ref href => ?_,
      ⟨out.scopeID, hinv.scope, fun id r hid hr => ?_⟩,
      fun id hid hcycle => ?_, fun l hl hids => ?_⟩
    · obtain ⟨hfits, -⟩ | ⟨hdiag, -⟩ := hinv.settled id (hleads id hid) ref href
      · exact hfits
      · exact absurd hsilent hdiag
    · obtain hscope | ⟨hempty, hnone⟩ := hinv.scopes id (hleads id hid) r hr
      · exact hscope
      · exact hscoped.elim (absurd hnone) fun hall => absurd hempty (hall id r hid hr)
    · exact absurd (hinv.before_trans hsilent (hleads id hid) hcycle).2 (lt_irrefl _)
    · exact (subperm_of_subset hl fun id hid => hleads id (hids id hid)).length_le.trans hlimit

end

/-- Two chains. The one refers to the other as if that were a node. -/
def misfit : Graph where
  refs r := .ok (if r.id = "b" then [⟨"a", .node, "/hop"⟩] else [])
  find id := if id = "a" ∨ id = "b" then
    some ⟨⟨id, "s", .chain, 1, 1, id, [], true, 1⟩, .chain ⟨1, []⟩⟩ else none
  options := ⟨"s", [], 2⟩
  roots := ["b", "a"]

theorem misfit_order : Acyclic misfit ∧ Follows misfit "b" "a" ∧
    (expand misfit.refs misfit.find misfit.options misfit.roots).order = ["b", "a"] := by
  have hedge : ∀ {a b}, Follows misfit a b → a = "b" ∧ b = "a" := by
    rintro a b ⟨ref, href, rfl⟩
    by_cases ha : a = "b"
    · subst ha
      rw [show refsOf misfit "b" = [⟨"a", .node, "/hop"⟩] by decide, mem_singleton] at href
      exact ⟨rfl, href ▸ rfl⟩
    · have hnil : refsOf misfit a = [] := by
        by_cases h : a = "a" <;> simp [refsOf, misfit, Resource.id, ha, h, Except.toOption]
      rw [hnil] at href
      cases href
  refine ⟨fun id _ hcycle => ?_, ⟨⟨"a", .node, "/hop"⟩, by decide, rfl⟩, by decide⟩
  obtain ⟨b, hfirst, -⟩ := TransGen.head'_iff.mp hcycle
  obtain ⟨c, -, hlast⟩ := TransGen.tail'_iff.mp hcycle
  exact absurd ((hedge hfirst).1.symm.trans (hedge hlast).2) (by decide)

/-! ## The closure of the references -/

section
variable {schema : Schema} {find : ID → Option Resource} {options : Options} {roots : List ID}

inductive Reaches (find : ID → Option Resource) (roots : List ID) : ID → Prop where
  | root {id : ID} : id ∈ roots → Reaches find roots id
  | ref {id : ID} {r : Resource} {ref : Reference} : Reaches find roots id → find id = some r →
    ref ∈ payloadReferences r.payload → Reaches find roots ref.targetID

theorem Reaches.mono {roots' : List ID} (hroots : roots ⊆ roots') (h : Reaches find roots id) :
    Reaches find roots' id := by
  induction h with
  | root hid => exact .root (hroots hid)
  | ref _ hr href ih => exact ih.ref hr href

structure Admissible (schema : Schema) (scope : ID) (r : Resource) : Prop where
  scope : r.metadata.scopeID = scope
  enabled : r.metadata.enabled = true
  valid : r.validate schema = true

/-- The walk so far: what is emitted may be part of the closure, and refers to what is emitted. -/
structure Walked (schema : Schema) (find : ID → Option Resource) (options : Options)
    (out : Expansion) : Prop where
  done : ∀ id, id ∈ out.done ↔ id ∈ out.order
  resources : out.resources.map some = out.order.map find
  nodup : out.order.Nodup
  kept : ∀ id ∈ out.order, id ∉ options.exclude
  scope : options.scopeID ≠ "" → out.scopeID = options.scopeID
  admissible : ∀ id ∈ out.order, ∀ r, find id = some r →
    ∃ scope, (options.scopeID ≠ "" → scope = options.scopeID) ∧ Admissible schema scope r
  closed : ∀ id ∈ out.order, ∀ r, find id = some r → ∀ ref ∈ payloadReferences r.payload,
    ref.targetID ∈ out.order ∧
      ∀ target, find ref.targetID = some target → target.metadata.kind = ref.expectedKind

/-- An expansion that has emitted the closure of the roots. -/
structure Closure (schema : Schema) (find : ID → Option Resource) (options : Options)
    (roots : List ID) (out : Expansion) : Prop where
  walked : Walked schema find options out
  reaches : ∀ id, id ∈ out.order ↔ Reaches find roots id
  limit : out.order.length ≤ options.withDefaults.maxResources

theorem extractReferences_ok {rs : List Reference} (h : extractReferences schema r = .ok rs) :
    r.validate schema = true ∧ payloadReferences r.payload = rs := by
  unfold extractReferences at h
  split_ifs at h with hvalid
  cases h
  exact ⟨hvalid, rfl⟩

theorem Leads.reaches (h : Leads (graph (extractReferences schema) find options roots) id) :
    Reaches find roots id := by
  obtain ⟨root, hroot, hpath⟩ := h
  induction hpath with
  | refl => exact .root hroot
  | @tail a b _ hab ih =>
    obtain ⟨ref, href, rfl⟩ := hab
    cases hr : find a with
    | none => simp [refsOf, graph, hr] at href
    | some r =>
      cases hrs : extractReferences schema r with
      | error e => simp [refsOf, graph, hr, hrs, Except.toOption] at href
      | ok rs =>
        rw [refsOf_eq (g := graph (extractReferences schema) find options roots) hr hrs] at href
        exact ih.ref hr ((extractReferences_ok hrs).2 ▸ href)

theorem expand_resources {refs : Resource → Except CatalogError (List Reference)}
    (h : r ∈ (expand refs find options roots).resources) : ∃ id, find id = some r := by
  have hmem := mem_map_of_mem (f := some) h
  rw [(expand_post refs find options roots).1.resources] at hmem
  obtain ⟨id, -, hid⟩ := mem_map.mp hmem
  exact ⟨id, hid⟩

/-- **The closure.** An expansion that reports nothing emits what the roots lead to, and nothing
else. -/
theorem expand_closure
    (h : (expand (extractReferences schema) find options roots).diagnostics = []) :
    Closure schema find options roots (expand (extractReferences schema) find options roots) := by
  obtain ⟨hinv, hnodup, hlimit, -⟩ := expand_post (extractReferences schema) find options roots
  have hvalid : ∀ k ∈ (expand (extractReferences schema) find options roots).order,
      ∀ r, find k = some r → r.metadata.enabled = true ∧ r.validate schema = true ∧
        refsOf (graph (extractReferences schema) find options roots) k =
          payloadReferences r.payload := by
    intro k hk r hr
    obtain ⟨-, r', rs, hr', henabled, hrs⟩ := hinv.usable k hk
    cases hr.symm.trans hr'
    obtain ⟨hvalid, heq⟩ := extractReferences_ok hrs
    exact ⟨henabled, hvalid, heq ▸ refsOf_eq hr' hrs⟩
  have hclosed : ∀ k ∈ (expand (extractReferences schema) find options roots).order,
      ∀ r, find k = some r → ∀ ref ∈ payloadReferences r.payload,
      ref.targetID ∈ (expand (extractReferences schema) find options roots).order ∧
        Fits (graph (extractReferences schema) find options roots) ref := by
    intro k hk r hr ref href
    rw [← (hvalid k hk r hr).2.2] at href
    obtain ⟨hfits, -⟩ | ⟨hdiag, -⟩ := hinv.settled k hk ref href
    · exact ⟨(hinv.before h hk ⟨ref, href, rfl⟩).1, hfits⟩
    · exact absurd h hdiag
  refine ⟨⟨fun k => ⟨fun hk => ?_, hinv.emitted k⟩, hinv.resources, hnodup,
    fun k hk => (hinv.usable k hk).1, hinv.scope, fun k hk r hr => ?_, hclosed⟩,
    fun id => ⟨fun hid => ((expand_leads h).mp hid).reaches, fun hid => ?_⟩, hlimit⟩
  · exact (hinv.done k hk).resolve_right fun hdiag => hdiag.1 h
  · obtain ⟨henabled, hok, -⟩ := hvalid k hk r hr
    obtain hscope | ⟨hempty, hnone⟩ := hinv.scopes k hk r hr
    · exact ⟨_, hinv.scope, hscope, henabled, hok⟩
    · exact ⟨"", fun hne => absurd hnone hne, hempty, henabled, hok⟩
  · induction hid with
    | root hroot => exact expand_root h hroot
    | ref _ hr href ih => exact (hclosed _ ih _ hr _ href).1

end

end ProxyLoom.Depgraph
