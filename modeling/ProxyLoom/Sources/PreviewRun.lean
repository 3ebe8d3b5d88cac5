import ProxyLoom.Lib.Firsts
import ProxyLoom.Sources.Preview

/-!
# What a preview run builds

The loop over the candidates runs over the first candidate of every identity. Its entry names the
item that the candidate was matched to, or a new one, and no write of the run drops an item, so a
new item is none of those that were claimed before. Two entries therefore meet only at an item that
was stored before the run, where two identities were matched to it: a keyless item answers for every
candidate with its fingerprint.
-/

namespace ProxyLoom.Previews

open IR Override Catalog List Except

/-! ## No write drops an item -/

def Keeps (s s' : Store) : Prop := ∀ id, s.items.find? id ≠ none → s'.items.find? id ≠ none

theorem Keeps.refl (s : Store) : Keeps s s := fun _ h => h

theorem Keeps.trans {s s' s'' : Store} (h : Keeps s s') (h' : Keeps s' s'') : Keeps s s'' :=
  fun id hid => h' id (h id hid)

theorem keeps_of_items {s s' : Store} (h : s'.items = s.items) : Keeps s s' := by
  intro id hid
  rwa [h]

theorem keeps_modify (s : Store) (id : ID) (f : ItemRow → ItemRow) (hf : ∀ r, (f r).id = r.id) :
    Keeps s { s with items := s.items.modify id f hf } := by
  intro id' hid
  show (s.items.modify id f hf).find? id' ≠ none
  rw [Table.find?_modify]
  split_ifs with heq
  · subst heq
    cases hr : s.items.find? id' with
    | none => exact absurd hr hid
    | some row => exact Option.some_ne_none _
  · exact hid

section
variable {env : Env} {doc : SourceDocument} {s s' : Store} {id : ID} {c : ParsedCandidate}
  {records : List Origin.Record} {e : Entry} {parsed : List ParsedCandidate} {e' : Entry}
  {conflict : Bool}

theorem putBindings_items {bindings : Table BindingRow.nodeID}
    (h : putBindings s bindings = .ok s') : s'.items = s.items := by
  unfold putBindings at h
  split_ifs at h
  cases h
  rfl

theorem saveBinding_items {b : Binding} (h : saveBinding s b = .ok s') : s'.items = s.items := by
  unfold saveBinding at h
  rw [ite_error_eq_ok_iff, ite_error_eq_ok_iff] at h
  obtain ⟨-, -, h⟩ := h
  cases hitem : s.items.find? b.sourceItemID with
  | none =>
    rw [hitem] at h
    cases h
  | some item =>
    rw [hitem] at h
    simp only [ite_error_eq_ok_iff] at h
    obtain ⟨-, -, h⟩ := h
    cases hold : loadBindingByNode s b.nodeID with
    | none =>
      rw [hold] at h
      simp only at h
      split at h
      · exact putBindings_items h
      · cases h
    | some old =>
      rw [hold] at h
      simp only [ite_error_eq_ok_iff] at h
      exact putBindings_items h.2.2

theorem writeNode_items {revision : ℕ} {input : Input}
    (h : writeNode env s id revision input = .ok s') : s'.items = s.items := by
  obtain ⟨tables, -, rfl⟩ := of_map h
  rfl

theorem markConflict_keeps {suggested : ID} (h : markConflict doc s id c suggested = .ok s') :
    Keeps s s' := by
  have hset : Keeps s (setItem s id (itemRecord c suggested) doc.revision .conflict) :=
    keeps_modify s id _ _
  unfold markConflict at h
  simp only at h
  split at h
  · cases h
    exact hset
  · exact hset.trans (keeps_of_items (saveBinding_items h))

theorem updateBoundNode_items {d : Origin.Decision}
    (h : updateBoundNode env doc s id c d = .ok s') : s'.items = s.items := by
  obtain ⟨r, -, h⟩ := of_bind h
  simp only at h
  split at h
  · split at h
    · cases h
    · obtain ⟨t, ht, h⟩ := of_bind h
      exact (saveBinding_items h).trans (writeNode_items ht)
  · cases h

theorem createBoundNode_items (h : createBoundNode env doc s id c = .ok s') :
    s'.items = s.items := by
  unfold createBoundNode at h
  split at h
  · cases h
  · obtain ⟨catalog, -, h⟩ := of_bind h
    have hitems := saveBinding_items h
    exact hitems

theorem commitNode_keeps (h : commitNode env doc s records id c = .ok s') : Keeps s s' := by
  unfold commitNode at h
  split_ifs at h
  · cases h
    exact Keeps.refl s
  · split at h
    · exact keeps_of_items (createBoundNode_items h)
    · split_ifs at h
      · exact markConflict_keeps h
      · exact keeps_of_items (updateBoundNode_items h)

theorem claimItem_spec {existing : List StoredSourceItem}
    (h : claimItem doc s existing c = .ok (id, s')) :
    Keeps s s' ∧
      match matchStoredItem existing c with
      | some item => id = item.id
      | none => s.items.find? id = none ∧ s'.items.find? id ≠ none := by
  unfold claimItem at h
  cases hmatch : matchStoredItem existing c with
  | some item =>
    rw [hmatch] at h
    cases h
    exact ⟨keeps_modify s item.id _ _, rfl⟩
  | none =>
    rw [hmatch] at h
    dsimp only at h
    split at h
    · cases h
    · next id' fresh hfresh =>
      obtain ⟨t, ht, h⟩ := of_bind h
      cases h
      unfold insertItem at ht
      simp only [ite_error_eq_ok_iff] at ht
      obtain ⟨-, ht⟩ := ht
      split at ht
      · next items hitems =>
        cases ht
        obtain ⟨hfree, -⟩ := Table.insert?_eq_some_iff.mp hitems
        refine ⟨fun id' hid => ?_, hfree, ?_⟩
        · show items.find? id' ≠ none
          rw [Table.find?_insert? hitems]
          split_ifs
          · exact Option.some_ne_none _
          · exact hid
        · show items.find? id ≠ none
          have hkey : id = (newItem doc id c).id := rfl
          rw [Table.find?_insert? hitems, if_pos hkey]
          exact Option.some_ne_none _
      · cases ht

/-! ## One entry -/

/-- A candidate that shares its identity, or that was not matched to one node for certain. -/
def unsure (parsed : List ParsedCandidate) (records : List Origin.Record) (id : ID)
    (c : ParsedCandidate) : Bool :=
  1 < parsed.countP (fun c' => sourceCandidateKey c' = sourceCandidateKey c) ||
    (Origin.matchRecords (originItem id c) records).any Origin.Decision.unsure

/-- What stays of an entry when its binding is refreshed. -/
def Entry.face (e : Entry) : ID × EntryState × ChangeKind := (e.sourceItemID, e.state, e.changeKind)

theorem refreshPreviewBinding_face (h : refreshPreviewBinding env s e = .ok e') :
    e'.face = e.face := by
  unfold refreshPreviewBinding at h
  split at h
  · obtain ⟨r, -, h⟩ := of_bind h
    cases h
    rfl
  · split_ifs at h
    · cases h
      rfl
    · obtain ⟨r, -, h⟩ := of_bind h
      cases h
      rfl

/-- An entry of a candidate that is not a conflict yet. -/
structure Open (id : ID) (e : Entry) : Prop where
  item : e.sourceItemID = id
  state : e.state ≠ .conflict
  kind : e.changeKind ≠ .missing

theorem matchedEntry_open {nodeID : ID} (he : e.sourceItemID = id)
    (h : matchedEntry env doc s e c nodeID conflict = .ok e') : Open id e' := by
  obtain ⟨r, -, h⟩ := of_bind h
  simp only at h
  split at h
  · cases h
  · cases h
    refine ⟨?_, nofun, ?_⟩
    · show ((loadBindingByNode s nodeID).map e.withBinding |>.getD e).sourceItemID = id
      cases loadBindingByNode s nodeID with
      | none => exact he
      | some b => exact he
    · show (if _ then ChangeKind.unchanged else .modified) ≠ .missing
      split_ifs <;> nofun
  · cases h

theorem describe_spec {old : Option StoredSourceItem} {index : ℕ} {duplicate : Bool}
    (h : describe env doc s records old id c index duplicate = .ok (e, conflict)) :
    Open id e ∧ conflict = (duplicate ||
      (Origin.matchRecords (originItem id c) records).any Origin.Decision.unsure) := by
  unfold describe at h
  simp only at h
  split at h
  · next hnone =>
    cases h
    rw [hnone]
    exact ⟨⟨rfl, nofun, nofun⟩, (Bool.or_false _).symm⟩
  · next d hd =>
    rw [hd]
    split_ifs at h
    · cases h
      exact ⟨⟨rfl, nofun, nofun⟩, rfl⟩
    · obtain ⟨e', he', h⟩ := of_map h
      cases h
      exact ⟨matchedEntry_open rfl he', rfl⟩

theorem settle_spec {duplicate : Bool} (he : Open id e)
    (h : settle env doc s records id c e conflict duplicate = .ok (e', s')) :
    Keeps s s' ∧ e'.sourceItemID = id ∧ (e'.state = .conflict ↔ conflict = true) ∧
      e'.changeKind ≠ .missing := by
  unfold settle at h
  split_ifs at h with hconflict hsafe
  · obtain ⟨t, ht, h⟩ := of_bind h
    cases h
    exact ⟨markConflict_keeps ht, he.item, iff_of_true rfl hconflict, nofun⟩
  · obtain ⟨t, ht, h⟩ := of_bind h
    cases h
    exact ⟨(commitNode_keeps ht).trans (keeps_modify t id _ _), he.item,
      iff_of_false he.state hconflict, he.kind⟩
  · cases h
    exact ⟨Keeps.refl s, he.item, iff_of_false he.state hconflict, he.kind⟩

/-- The entry of a candidate: a conflict exactly if the candidate is unsure. -/
structure EntryOf (parsed : List ParsedCandidate) (records : List Origin.Record)
    (c : ParsedCandidate) (e : Entry) : Prop where
  state : e.state = .conflict ↔ unsure parsed records e.sourceItemID c = true
  kind : e.changeKind ≠ .missing

/-- What one candidate adds. -/
theorem enter_spec {existing : List StoredSourceItem} {p p' : Progress}
    (h : enter env doc existing records parsed p c = .ok p') :
    ∃ e, p'.preview = p.preview ++ [e] ∧ p'.seen = e.sourceItemID :: p.seen ∧
      p'.processed = p.processed ∧ EntryOf parsed records c e ∧ Keeps p.store p'.store ∧
      match matchStoredItem existing c with
      | some item => e.sourceItemID = item.id
      | none => p.store.items.find? e.sourceItemID = none ∧
          p'.store.items.find? e.sourceItemID ≠ none := by
  obtain ⟨⟨id, s₁⟩, hclaim, h⟩ := of_bind h
  obtain ⟨⟨e₁, conflict⟩, hdescribe, h⟩ := of_bind h
  obtain ⟨⟨e₂, s₂⟩, hsettle, h⟩ := of_bind h
  obtain ⟨e, hrefresh, h⟩ := of_bind h
  cases h
  obtain ⟨hkeeps, hitem⟩ := claimItem_spec hclaim
  obtain ⟨hopen, hconflict⟩ := describe_spec hdescribe
  obtain ⟨hkeeps', hid, hstate, hkind⟩ := settle_spec hopen hsettle
  obtain ⟨hitem', hstate', hkind'⟩ : e.sourceItemID = e₂.sourceItemID ∧ e.state = e₂.state ∧
      e.changeKind = e₂.changeKind := by
    simpa only [Entry.face, Prod.mk.injEq] using refreshPreviewBinding_face hrefresh
  have hsame : e.sourceItemID = id := hitem'.trans hid
  refine ⟨e, rfl, by rw [hsame], rfl, ⟨?_, ?_⟩, hkeeps.trans hkeeps', ?_⟩
  · rw [hstate', hstate, hconflict, hsame]
    rfl
  · rw [hkind']
    exact hkind
  · rw [hsame]
    split at hitem
    · exact hitem
    · exact ⟨hitem.1, hkeeps' id hitem.2⟩

/-! ## The run -/

/-- The candidates that were entered, each with its entry. Entries meet only at items that were
stored before the run. -/
structure Built (existing : List StoredSourceItem) (records : List Origin.Record)
    (parsed : List ParsedCandidate) (pairs : List (ParsedCandidate × Entry)) (p : Progress) :
    Prop where
  preview : p.preview = pairs.map Prod.snd
  seen : p.seen = ((pairs.map Prod.snd).map Entry.sourceItemID).reverse
  entry : ∀ q ∈ pairs, EntryOf parsed records q.1 q.2
  claimed : ∀ q ∈ pairs, ∀ item, matchStoredItem existing q.1 = some item →
    q.2.sourceItemID = item.id
  fresh : ∀ q ∈ pairs, matchStoredItem existing q.1 = none →
    ∀ item ∈ existing, q.2.sourceItemID ≠ item.id
  apart : pairs.Pairwise fun q r => q.2.sourceItemID = r.2.sourceItemID →
    ∃ item ∈ existing, q.2.sourceItemID = item.id
  stored : ∀ item ∈ existing, p.store.items.find? item.id ≠ none
  kept : ∀ q ∈ pairs, p.store.items.find? q.2.sourceItemID ≠ none

section
variable {existing : List StoredSourceItem} {records : List Origin.Record}
  {parsed : List ParsedCandidate} {pairs : List (ParsedCandidate × Entry)} {p p' : Progress}

theorem Built.enter (hb : Built existing records parsed pairs p)
    (h : enter env doc existing records parsed p c = .ok p') :
    ∃ e, Built existing records parsed (pairs ++ [(c, e)]) p' := by
  obtain ⟨e, hpreview, hseen, -, hentry, hkeeps, hitem⟩ := enter_spec h
  have hstored : ∀ item ∈ existing, p'.store.items.find? item.id ≠ none :=
    fun item hmem => hkeeps _ (hb.stored item hmem)
  have hclaimed : ∀ item, matchStoredItem existing c = some item → e.sourceItemID = item.id := by
    intro item hmatch
    rw [hmatch] at hitem
    exact hitem
  have hfresh : matchStoredItem existing c = none →
      p.store.items.find? e.sourceItemID = none ∧ p'.store.items.find? e.sourceItemID ≠ none := by
    intro hnone
    rw [hnone] at hitem
    exact hitem
  refine ⟨e, ?_, ?_, ?_, ?_, ?_, ?_, hstored, ?_⟩
  · rw [hpreview, hb.preview, map_append]
    rfl
  · rw [hseen, hb.seen]
    simp
  · rw [forall_mem_append]
    exact ⟨hb.entry, by simpa using hentry⟩
  · rw [forall_mem_append]
    exact ⟨hb.claimed, by simpa using hclaimed⟩
  · rw [forall_mem_append]
    refine ⟨hb.fresh, ?_⟩
    intro q hq hnone item hmem heq
    rw [mem_singleton.mp hq] at hnone heq
    have habsent := (hfresh hnone).1
    rw [show e.sourceItemID = item.id from heq] at habsent
    exact hb.stored item hmem habsent
  · -- A new item is none of those that are there, so a meeting is at the match.
    rw [pairwise_append]
    refine ⟨hb.apart, pairwise_singleton _ _, ?_⟩
    intro q hq r hr heq
    rw [mem_singleton.mp hr] at heq
    cases hmatch : matchStoredItem existing c with
    | some item => exact ⟨item, (matchStoredItem_mem hmatch).1, heq.trans (hclaimed item hmatch)⟩
    | none => exact absurd (heq ▸ (hfresh hmatch).1) (hb.kept q hq)
  · rw [forall_mem_append]
    refine ⟨fun q hq => hkeeps _ (hb.kept q hq), ?_⟩
    intro q hq
    rw [mem_singleton.mp hq]
    cases hmatch : matchStoredItem existing c with
    | some item =>
      show p'.store.items.find? e.sourceItemID ≠ none
      rw [hclaimed item hmatch]
      exact hstored item (matchStoredItem_mem hmatch).1
    | none => exact (hfresh hmatch).2

theorem candidates_built (hb : Built existing records parsed [] p) (hp : p.processed = [])
    {l : List ParsedCandidate}
    (h : l.foldlM (candidateRound env doc existing records parsed) p = .ok p') :
    ∃ pairs, pairs.map Prod.fst = List.firsts sourceCandidateKey [] l ∧
      Built existing records parsed pairs p' := by
  let P : List ParsedCandidate → Progress → Prop := fun done q =>
    ∃ pairs, pairs.map Prod.fst = done ∧ Built existing records parsed pairs q
  have hstart : P [] p := ⟨[], rfl, hb⟩
  have hrun := List.foldlM_firsts sourceCandidateKey Progress.processed P ?_ ?_ ?_ hstart h
  · rw [hp] at hrun
    exact hrun
  · intro q c q' hmet hround
    unfold candidateRound at hround
    simp only at hround
    rw [if_pos hmet] at hround
    cases hround
    rfl
  · intro q c q' hmet hround
    unfold candidateRound at hround
    simp only at hround
    rw [if_neg hmet] at hround
    obtain ⟨e, -, -, hprocessed, -⟩ := enter_spec hround
    exact hprocessed
  · rintro done q c q' hmet ⟨pairs, hdone, hq⟩ hround
    unfold candidateRound at hround
    simp only at hround
    rw [if_neg hmet] at hround
    have hq' : Built existing records parsed pairs
        { q with processed := sourceCandidateKey c :: q.processed } :=
      ⟨hq.preview, hq.seen, hq.entry, hq.claimed, hq.fresh, hq.apart, hq.stored, hq.kept⟩
    obtain ⟨e, he⟩ := hq'.enter hround
    exact ⟨pairs ++ [(c, e)], by rw [map_append, hdone]; rfl, he⟩

theorem missingEntry_kind {item : StoredSourceItem} {index : ℕ}
    (h : missingEntry env doc s item index = .ok e) : e.changeKind = .missing := by
  unfold missingEntry at h
  simp only at h
  split at h
  · cases h
    rfl
  · obtain ⟨r, -, h⟩ := of_bind h
    cases h
    rfl

theorem missing_built {items : List StoredSourceItem}
    (h : items.foldlM (missingRound env doc) p = .ok p') :
    ∃ missing, p'.preview = p.preview ++ missing ∧
      missing.length = (items.filter fun item => item.id ∉ p.seen).length ∧
      ∀ e ∈ missing, e.changeKind = .missing := by
  let P : List StoredSourceItem → Progress → Prop := fun done q =>
    q.seen = p.seen ∧ ∃ missing, q.preview = p.preview ++ missing ∧
      missing.length = (done.filter fun item => item.id ∉ p.seen).length ∧
      ∀ e ∈ missing, e.changeKind = .missing
  have hstart : P [] p := ⟨rfl, [], (append_nil _).symm, rfl, forall_mem_nil _⟩
  have hrun := List.foldlM_invariant P ?_ hstart h
  · exact hrun.2
  · rintro done q item q' ⟨hseen, missing, hpreview, hlength, hkind⟩ hround
    unfold missingRound at hround
    split_ifs at hround with hmem
    · cases hround
      refine ⟨hseen, missing, hpreview, ?_, hkind⟩
      rw [hseen] at hmem
      simpa [hmem] using hlength
    · obtain ⟨e, he, hround⟩ := of_bind hround
      obtain ⟨t, ht, hround⟩ := of_bind hround
      obtain ⟨e', he', hround⟩ := of_bind hround
      cases hround
      have hface : e'.changeKind = e.changeKind :=
        congrArg (fun f => f.2.2) (refreshPreviewBinding_face he')
      refine ⟨hseen, missing ++ [e'], ?_, ?_, ?_⟩
      · show q.preview ++ [e'] = p.preview ++ (missing ++ [e'])
        rw [hpreview, append_assoc]
      · rw [hseen] at hmem
        simpa [hmem] using hlength
      · rw [forall_mem_append]
        refine ⟨hkind, fun x hx => ?_⟩
        rw [mem_singleton.mp hx, hface]
        exact missingEntry_kind he

end

theorem loadItems_nodup (doc : SourceDocument) (s : Store) :
    ((loadItems doc s).map StoredSourceItem.id).Nodup := by
  unfold loadItems
  rw [map_map]
  have hids : StoredSourceItem.id ∘ ItemRow.stored = ItemRow.id := rfl
  rw [hids]
  have hperm := (perm_insertionSort (fun a b : ItemRow => a.id ≤ b.id)
    (s.items.rows.filter fun row => row.sourceID = doc.resourceID)).map ItemRow.id
  exact hperm.nodup_iff.mpr (s.items.nodup.sublist (filter_sublist.map _))

theorem loadItems_stored {item : StoredSourceItem} (h : item ∈ loadItems doc s) :
    s.items.find? item.id ≠ none := by
  obtain ⟨row, hrow, rfl⟩ := mem_map.mp h
  rw [mem_insertionSort] at hrow
  have hfound := Table.find?_of_mem (mem_filter.mp hrow).1
  show s.items.find? row.id ≠ none
  rw [hfound]
  exact Option.some_ne_none _

/-- **The entries of a run**: one for the first candidate of every identity and one for every item
that none of them claimed. -/
theorem buildPreview_spec {entries : List Entry}
    (h : buildPreview env doc s parsed = .ok (s', entries)) :
    ∃ pairs missing p, pairs.map Prod.fst = List.firsts sourceCandidateKey [] parsed ∧
      Built (loadItems doc s) (nodeRecords env s (loadItems doc s)) parsed pairs p ∧
      entries = pairs.map Prod.snd ++ missing ∧
      missing.length = ((loadItems doc s).filter fun item => item.id ∉ p.seen).length ∧
      ∀ e ∈ missing, e.changeKind = .missing := by
  obtain ⟨p, hp, h⟩ := of_bind h
  obtain ⟨p', hp', h⟩ := of_bind h
  cases h
  have hstart : Built (loadItems doc s) (nodeRecords env s (loadItems doc s)) parsed []
      ⟨s, [], [], []⟩ :=
    ⟨rfl, rfl, forall_mem_nil _, forall_mem_nil _, forall_mem_nil _,
      List.Pairwise.nil, fun _ => loadItems_stored, forall_mem_nil _⟩
  obtain ⟨pairs, hfirsts, hbuilt⟩ := candidates_built hstart rfl hp
  obtain ⟨missing, hpreview, hlength, hkind⟩ := missing_built hp'
  refine ⟨pairs, missing, p, hfirsts, hbuilt, ?_, hlength, hkind⟩
  rw [hpreview, hbuilt.preview]

theorem refreshed_faces {entries refreshed : List Entry}
    (h : List.Forall₂ (fun e e' => refreshPreviewBinding env s e = .ok e') entries refreshed) :
    refreshed.map Entry.face = entries.map Entry.face := by
  induction h with
  | nil => rfl
  | cons hhead _ ih => rw [map_cons, map_cons, ih, refreshPreviewBinding_face hhead]

/-- What the last pass over the entries leaves as it is. -/
theorem createSourcePreview_spec {entries' : List Entry}
    (h : createSourcePreview env doc s parsed = .ok (s', entries')) :
    ∃ entries, buildPreview env doc s parsed = .ok (s', entries) ∧
      entries.length ≤ maxCandidates ∧ entries'.map Entry.face = entries.map Entry.face := by
  obtain ⟨⟨t, entries⟩, hbuild, h⟩ := of_bind h
  simp only [ite_error_eq_ok_iff] at h
  obtain ⟨hlimit, h⟩ := h
  obtain ⟨refreshed, hmap, h⟩ := of_bind h
  cases h
  exact ⟨entries, hbuild, not_lt.mp hlimit, refreshed_faces (mapM_eq_ok_iff.mp hmap)⟩

end

end ProxyLoom.Previews
