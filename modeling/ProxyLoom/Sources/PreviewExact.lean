import ProxyLoom.Sources.PreviewRun

/-!
# Claims and size of a preview

Candidates are grouped by key or fingerprint, but matched by key with the fingerprint as fallback.
Two candidates of different groups can therefore meet at one stored item, and a candidate that the
loop skips can match an item that no first candidate of a group does.
-/

namespace ProxyLoom.Previews

open IR Catalog List

/-! ## Meeting at an item -/

/-- A candidate entry that is not marked as a conflict. -/
def Entry.Settled (e : Entry) : Prop := e.changeKind ≠ .missing ∧ e.state ≠ .conflict

def ClaimsOnce (entries : List Entry) : Prop :=
  entries.Pairwise fun a b => a.Settled → b.Settled → a.sourceItemID ≠ b.sourceItemID

def ContentOnce (entries : List Entry) : Prop :=
  entries.Pairwise fun a b => a.changeKind ≠ .missing → b.changeKind ≠ .missing →
    a.sourceItemID ≠ b.sourceItemID

/-- The first candidates of two identities are matched to one stored item. -/
structure Meets (existing : List StoredSourceItem) (parsed : List ParsedCandidate)
    (item : StoredSourceItem) (c d : ParsedCandidate) : Prop where
  left : c ∈ List.firsts sourceCandidateKey [] parsed
  right : d ∈ List.firsts sourceCandidateKey [] parsed
  ne : sourceCandidateKey c ≠ sourceCandidateKey d
  matchLeft : matchStoredItem existing c = some item
  matchRight : matchStoredItem existing d = some item

section
variable {existing : List StoredSourceItem} {records : List Origin.Record}
  {parsed : List ParsedCandidate} {pairs : List (ParsedCandidate × Entry)} {p : Progress}

theorem item_eq_of_id (hids : (existing.map StoredSourceItem.id).Nodup)
    {i j : StoredSourceItem} (hi : i ∈ existing) (hj : j ∈ existing) (h : i.id = j.id) : i = j :=
  inj_on_of_nodup_map hids hi hj h

theorem Built.meet (hb : Built existing records parsed pairs p)
    (hids : (existing.map StoredSourceItem.id).Nodup)
    (hfirsts : pairs.map Prod.fst = List.firsts sourceCandidateKey [] parsed)
    {q r : ParsedCandidate × Entry} (hq : q ∈ pairs) (hr : r ∈ pairs)
    (hne : sourceCandidateKey q.1 ≠ sourceCandidateKey r.1)
    (heq : q.2.sourceItemID = r.2.sourceItemID) :
    ∃ item, item.id = q.2.sourceItemID ∧ Meets existing parsed item q.1 r.1 := by
  have hstored : ∃ item ∈ existing, q.2.sourceItemID = item.id := by
    have hsymm : Std.Symm fun q r : ParsedCandidate × Entry =>
        q.2.sourceItemID = r.2.sourceItemID → ∃ item ∈ existing, q.2.sourceItemID = item.id := by
      refine ⟨fun a b h hba => ?_⟩
      obtain ⟨item, hitem, hid⟩ := h hba.symm
      exact ⟨item, hitem, hba.trans hid⟩
    exact hb.apart.forall hq hr (fun h => hne (h ▸ rfl)) heq
  obtain ⟨item, hitem, hid⟩ := hstored
  -- Either candidate has a match, since the item of one that has none is new.
  have hmatch : ∀ x ∈ pairs, x.2.sourceItemID = item.id →
      matchStoredItem existing x.1 = some item := by
    intro x hx hxid
    cases hm : matchStoredItem existing x.1 with
    | none => exact absurd hxid (hb.fresh x hx hm item hitem)
    | some found =>
      have hsame : found.id = item.id := (hb.claimed x hx found hm).symm.trans hxid
      rw [item_eq_of_id hids (matchStoredItem_mem hm).1 hitem hsame]
  have hmem : ∀ x ∈ pairs, x.1 ∈ List.firsts sourceCandidateKey [] parsed := by
    intro x hx
    rw [← hfirsts]
    exact mem_map_of_mem hx
  exact ⟨item, hid.symm, hmem q hq, hmem r hr, hne, hmatch q hq hid, hmatch r hr (heq ▸ hid)⟩

theorem Built.apart_iff (hb : Built existing records parsed pairs p)
    (hids : (existing.map StoredSourceItem.id).Nodup)
    (hfirsts : pairs.map Prod.fst = List.firsts sourceCandidateKey [] parsed)
    {missing : List Entry} (Q : Entry → Prop) (mark : ID → ParsedCandidate → Prop)
    (hmark : ∀ q ∈ pairs, Q q.2 ↔ mark q.2.sourceItemID q.1) (hmissing : ∀ e ∈ missing, ¬Q e) :
    (pairs.map Prod.snd ++ missing).Pairwise
        (fun a b => Q a → Q b → a.sourceItemID ≠ b.sourceItemID) ↔
      ∀ item c d, Meets existing parsed item c d → ¬(mark item.id c ∧ mark item.id d) := by
  have hkeys : (pairs.map fun q => sourceCandidateKey q.1).Nodup := by
    have hmap : (pairs.map fun q => sourceCandidateKey q.1) =
        (pairs.map Prod.fst).map sourceCandidateKey := by
      rw [map_map]
      rfl
    rw [hmap, hfirsts]
    exact List.firsts_keys_nodup sourceCandidateKey [] parsed
  have hall : (pairs.map Prod.snd ++ missing).Pairwise
        (fun a b => Q a → Q b → a.sourceItemID ≠ b.sourceItemID) ↔
      ∀ q ∈ pairs, ∀ r ∈ pairs, sourceCandidateKey q.1 ≠ sourceCandidateKey r.1 →
        Q q.2 → Q r.2 → q.2.sourceItemID ≠ r.2.sourceItemID := by
    rw [pairwise_append, pairwise_map, List.pairwise_iff_of_keys _ hkeys]
    · refine and_iff_left ⟨?_, fun a _ b hb _ hQ => absurd hQ (hmissing b hb)⟩
      exact pairwise_of_forall_mem_list fun a ha _ _ hQ => absurd hQ (hmissing a ha)
    · intro a b h hQb hQa heq
      exact h hQa hQb heq.symm
  rw [hall]
  constructor
  · rintro h item c d hmeet ⟨hc, hd⟩
    have hpair : ∀ x ∈ List.firsts sourceCandidateKey [] parsed, ∃ e, (x, e) ∈ pairs := by
      intro x hx
      rw [← hfirsts] at hx
      obtain ⟨⟨x', e⟩, hmem, rfl⟩ := mem_map.mp hx
      exact ⟨e, hmem⟩
    obtain ⟨e, he⟩ := hpair c hmeet.left
    obtain ⟨f, hf⟩ := hpair d hmeet.right
    have heid : e.sourceItemID = item.id := hb.claimed _ he item hmeet.matchLeft
    have hfid : f.sourceItemID = item.id := hb.claimed _ hf item hmeet.matchRight
    refine h _ he _ hf hmeet.ne ((hmark _ he).mpr ?_) ((hmark _ hf).mpr ?_) (heid.trans hfid.symm)
    · show mark e.sourceItemID c
      rw [heid]
      exact hc
    · show mark f.sourceItemID d
      rw [hfid]
      exact hd
  · intro h q hq r hr hne hQq hQr heq
    obtain ⟨item, hid, hmeet⟩ := hb.meet hids hfirsts hq hr hne heq
    refine h item q.1 r.1 hmeet ⟨?_, ?_⟩
    · rw [hid]
      exact (hmark q hq).mp hQq
    · rw [hid, heq]
      exact (hmark r hr).mp hQr

end

section
variable {env : Env} {doc : SourceDocument} {s s' : Store} {parsed : List ParsedCandidate}
  {entries : List Entry}

theorem pairwise_congr_face {entries' : List Entry}
    {R : ID × EntryState × ChangeKind → ID × EntryState × ChangeKind → Prop}
    (h : entries'.map Entry.face = entries.map Entry.face) :
    entries'.Pairwise (fun a b => R a.face b.face) ↔
      entries.Pairwise fun a b => R a.face b.face := by
  rw [← pairwise_map, h, pairwise_map]

/-- **Claims.** No two settled entries name one item exactly if, of any two candidates that meet,
one has to be confirmed; no item receives two contents exactly if no two candidates meet; and no
item is bound to two nodes. -/
theorem claims_once_iff (h : createSourcePreview env doc s parsed = .ok (s', entries)) :
    (ClaimsOnce entries ↔ ∀ item c d, Meets (loadItems doc s) parsed item c d →
      unsure parsed (nodeRecords env s (loadItems doc s)) item.id c = true ∨
        unsure parsed (nodeRecords env s (loadItems doc s)) item.id d = true) ∧
    (ContentOnce entries ↔ ∀ item c d, ¬Meets (loadItems doc s) parsed item c d) ∧
    (s'.bindings.rows.map BindingRow.sourceItemID).Nodup := by
  obtain ⟨built, hbuild, -, hfaces⟩ := createSourcePreview_spec h
  obtain ⟨pairs, missing, p, hfirsts, hb, rfl, -, hmissing⟩ := buildPreview_spec hbuild
  have hids := loadItems_nodup doc s
  refine ⟨?_, ?_, s'.boundOnce⟩
  · have hcongr := pairwise_congr_face hfaces (R := fun x y =>
      (x.2.2 ≠ .missing ∧ x.2.1 ≠ .conflict) → (y.2.2 ≠ .missing ∧ y.2.1 ≠ .conflict) → x.1 ≠ y.1)
    have hiff := hb.apart_iff hids hfirsts Entry.Settled
      (fun id c => unsure parsed (nodeRecords env s (loadItems doc s)) id c = false)
      (fun q hq => ?_) (fun e he hQ => hQ.1 (hmissing e he))
    · refine (hcongr.trans hiff).trans ?_
      refine forall_congr' fun item => forall_congr' fun c => forall_congr' fun d =>
        imp_congr_right fun _ => ?_
      rw [not_and_or, Bool.not_eq_false, Bool.not_eq_false]
    · have hentry := hb.entry q hq
      rw [Entry.Settled, and_iff_right hentry.kind, Ne, hentry.state, Bool.not_eq_true]
  · have hcongr := pairwise_congr_face hfaces (R := fun x y =>
      x.2.2 ≠ .missing → y.2.2 ≠ .missing → x.1 ≠ y.1)
    have hiff := hb.apart_iff hids hfirsts (fun e => e.changeKind ≠ .missing) (fun _ _ => True)
      (fun q hq => iff_of_true (hb.entry q hq).kind trivial) (fun e he hQ => hQ (hmissing e he))
    refine (hcongr.trans hiff).trans ?_
    refine forall_congr' fun item => forall_congr' fun c => forall_congr' fun d => ?_
    exact ⟨fun h hmeet => h hmeet ⟨trivial, trivial⟩, fun h hmeet => absurd hmeet h⟩

/-! ## The size -/

def matchedIDs (existing : List StoredSourceItem) (l : List ParsedCandidate) : Finset ID :=
  (l.filterMap fun c => (matchStoredItem existing c).map StoredSourceItem.id).toFinset

theorem mem_matchedIDs {existing : List StoredSourceItem} {l : List ParsedCandidate} {id : ID} :
    id ∈ matchedIDs existing l ↔
      ∃ c ∈ l, ∃ item, matchStoredItem existing c = some item ∧ item.id = id := by
  simp only [matchedIDs, mem_toFinset, mem_filterMap, Option.map_eq_some_iff]

theorem sourcePreviewCount_eq (existing : List StoredSourceItem) (parsed : List ParsedCandidate) :
    sourcePreviewCount existing parsed =
      (List.firsts sourceCandidateKey [] parsed).length + existing.length -
        (matchedIDs existing parsed).card := by
  rw [matchedIDs, card_toFinset, List.length_firsts]
  rfl

/-- Of the stored items, those that the run has seen are the matches of the first candidates. -/
theorem Built.seen_card {existing : List StoredSourceItem} {records : List Origin.Record}
    {pairs : List (ParsedCandidate × Entry)} {p : Progress}
    (hb : Built existing records parsed pairs p)
    (hids : (existing.map StoredSourceItem.id).Nodup) :
    (existing.filter fun item => item.id ∈ p.seen).length =
      (matchedIDs existing (pairs.map Prod.fst)).card := by
  have hseen : ∀ id, id ∈ p.seen ↔ ∃ q ∈ pairs, q.2.sourceItemID = id := by
    intro id
    rw [hb.seen]
    simp
  have hset : ((existing.filter fun item => item.id ∈ p.seen).map StoredSourceItem.id).toFinset =
      matchedIDs existing (pairs.map Prod.fst) := by
    ext id
    simp only [mem_toFinset, mem_map, mem_filter, decide_eq_true_eq, hseen,
      mem_matchedIDs]
    constructor
    · rintro ⟨item, ⟨hitem, q, hq, hid⟩, rfl⟩
      cases hm : matchStoredItem existing q.1 with
      | none => exact absurd hid (hb.fresh q hq hm item hitem)
      | some found =>
        exact ⟨q.1, ⟨q, hq, rfl⟩, found, hm, (hb.claimed q hq found hm).symm.trans hid⟩
    · rintro ⟨c, ⟨q, hq, rfl⟩, item, hm, rfl⟩
      exact ⟨item, ⟨(matchStoredItem_mem hm).1, q, hq, hb.claimed q hq item hm⟩, rfl⟩
  rw [← hset, toFinset_card_of_nodup (hids.sublist (filter_sublist.map _)),
    length_map]

theorem matchedIDs_firsts_subset (existing : List StoredSourceItem)
    (parsed : List ParsedCandidate) :
    matchedIDs existing (List.firsts sourceCandidateKey [] parsed) ⊆
      matchedIDs existing parsed := by
  intro id hid
  obtain ⟨c, hc, hrest⟩ := mem_matchedIDs.mp hid
  exact mem_matchedIDs.mpr ⟨c, (List.mem_of_mem_firsts sourceCandidateKey hc).1, hrest⟩

/-- A run has as many entries as there are identities and items that no first candidate matches. -/
theorem buildPreview_length (h : buildPreview env doc s parsed = .ok (s', entries)) :
    entries.length + (matchedIDs (loadItems doc s)
        (List.firsts sourceCandidateKey [] parsed)).card =
      (List.firsts sourceCandidateKey [] parsed).length + (loadItems doc s).length := by
  obtain ⟨pairs, missing, p, hfirsts, hb, rfl, hlength, -⟩ := buildPreview_spec h
  have hseen := hb.seen_card (loadItems_nodup doc s)
  have hsplit : (loadItems doc s).length =
      ((loadItems doc s).filter fun item => item.id ∈ p.seen).length +
        ((loadItems doc s).filter fun item => item.id ∉ p.seen).length := by
    simpa using length_eq_length_filter_add
      (l := loadItems doc s) (fun item : StoredSourceItem => decide (item.id ∈ p.seen))
  have hpairs : pairs.length = (List.firsts sourceCandidateKey [] parsed).length := by
    rw [← hfirsts, length_map]
  rw [hfirsts] at hseen
  rw [length_append, length_map]
  omega

/-- **Size.** The predicted size is that of the run exactly if every item that some candidate
matches is matched by the first candidate of an identity. -/
theorem preview_size_iff (h : buildPreview env doc s parsed = .ok (s', entries)) :
    (entries.length : ℤ) = sourcePreviewCount (loadItems doc s) parsed ↔
      ∀ c ∈ parsed, ∀ item, matchStoredItem (loadItems doc s) c = some item →
        ∃ d ∈ List.firsts sourceCandidateKey [] parsed,
          matchStoredItem (loadItems doc s) d = some item := by
  have hlength := buildPreview_length h
  have hsub := matchedIDs_firsts_subset (loadItems doc s) parsed
  have hcard : (entries.length : ℤ) = sourcePreviewCount (loadItems doc s) parsed ↔
      (matchedIDs (loadItems doc s) parsed).card ≤
        (matchedIDs (loadItems doc s) (List.firsts sourceCandidateKey [] parsed)).card := by
    have hle := Finset.card_le_card hsub
    rw [sourcePreviewCount_eq]
    omega
  rw [hcard]
  constructor
  · intro hle c hc item hm
    have heq := Finset.eq_of_subset_of_card_le hsub hle
    have hmem : item.id ∈ matchedIDs (loadItems doc s) parsed :=
      mem_matchedIDs.mpr ⟨c, hc, item, hm, rfl⟩
    rw [← heq] at hmem
    obtain ⟨d, hd, found, hfound, hid⟩ := mem_matchedIDs.mp hmem
    have hsame := item_eq_of_id (loadItems_nodup doc s) (matchStoredItem_mem hfound).1
      (matchStoredItem_mem hm).1 hid
    exact ⟨d, hd, hsame ▸ hfound⟩
  · intro hfirst
    refine Finset.card_le_card fun id hid => ?_
    obtain ⟨c, hc, item, hm, rfl⟩ := mem_matchedIDs.mp hid
    obtain ⟨d, hd, hdm⟩ := hfirst c hc item hm
    exact mem_matchedIDs.mpr ⟨d, hd, item, hdm, rfl⟩

end

/-! ## Two runs -/

def manualSource : SourceDocument := ⟨"00000000-0000-4000-8000-000000000021", 1, .manual, .retain⟩

def plainEnv : Env where
  schema := hostnameSchema
  checks := ⟨fun _ => ⟨100, 10, 100, 100, 100⟩, fun _ _ => .ok (), fun _ _ => .ok ()⟩
  scope := "00000000-0000-4000-8000-000000000022"
  fingerprint := fun n => n.endpoint.host

def keylessStore (fingerprint : String) : Store where
  catalog := ⟨.empty, .empty⟩
  items := ⟨[⟨"00000000-0000-4000-8000-000000000011", manualSource.resourceID, none,
    ⟨"first", "", fingerprint, "", some entryNode⟩, 1, .active, none⟩], by simp⟩
  bindings := .empty
  boundOnce := nodup_nil
  fresh := ["00000000-0000-4000-8000-000000000031", "00000000-0000-4000-8000-000000000032"]

def candidate (key fingerprint : String) : ParsedCandidate :=
  ⟨"entry", key, fingerprint, entryNode, []⟩

def runFaces (s : Store) (parsed : List ParsedCandidate) :
    Option (List (ID × EntryState × ChangeKind)) :=
  (createSourcePreview plainEnv manualSource s parsed).toOption.map fun r => r.2.map Entry.face

theorem exists_run {s : Store} {parsed : List ParsedCandidate}
    {faces : List (ID × EntryState × ChangeKind)} (h : runFaces s parsed = some faces) :
    ∃ s' entries, createSourcePreview plainEnv manualSource s parsed = .ok (s', entries) ∧
      entries.map Entry.face = faces := by
  obtain ⟨⟨s', entries⟩, hrun, hfaces⟩ := Option.map_eq_some_iff.mp h
  exact ⟨s', entries, Except.eq_ok_of_toOption hrun, hfaces⟩

/-- A candidate with a key and one without, both with the fingerprint of the stored item. -/
theorem two_entries_one_item :
    ∃ s' entries, createSourcePreview plainEnv manualSource (keylessStore "f")
        [candidate "k" "f", candidate "" "f"] = .ok (s', entries) ∧ ¬ClaimsOnce entries := by
  have hfaces : runFaces (keylessStore "f") [candidate "k" "f", candidate "" "f"] =
      some [("00000000-0000-4000-8000-000000000011", .new, .new),
        ("00000000-0000-4000-8000-000000000011", .new, .new)] := by
    decide
  obtain ⟨s', entries, hrun, hfaces⟩ := exists_run hfaces
  refine ⟨s', entries, hrun, fun honce => ?_⟩
  have hpairs : (entries.map Entry.face).Pairwise fun x y =>
      (x.2.2 ≠ .missing ∧ x.2.1 ≠ .conflict) → (y.2.2 ≠ .missing ∧ y.2.1 ≠ .conflict) →
        x.1 ≠ y.1 := pairwise_map.mpr honce
  rw [hfaces] at hpairs
  revert hpairs
  decide

/-- Two candidates with one key, of which only the second has the fingerprint of the item. -/
theorem size_underestimated :
    ∃ s' entries, buildPreview plainEnv manualSource (keylessStore "f2")
        [candidate "k" "f1", candidate "k" "f2"] = .ok (s', entries) ∧
      (entries.length : ℤ) = 2 ∧
      sourcePreviewCount (loadItems manualSource (keylessStore "f2"))
        [candidate "k" "f1", candidate "k" "f2"] = 1 := by
  have hfaces : runFaces (keylessStore "f2") [candidate "k" "f1", candidate "k" "f2"] =
      some [("00000000-0000-4000-8000-000000000031", .conflict, .conflict),
        ("00000000-0000-4000-8000-000000000011", .matched, .missing)] := by
    decide
  obtain ⟨s', entries, hrun, hfaces⟩ := exists_run hfaces
  obtain ⟨built, hbuild, -, hsame⟩ := createSourcePreview_spec hrun
  refine ⟨s', built, hbuild, ?_, by decide⟩
  have hlength : built.length = 2 := by
    rw [← length_map Entry.face, ← hsame, hfaces]
    rfl
  rw [hlength]
  rfl

/-- The item of the store is met by the fingerprint "f" and by no other one. -/
theorem matchStoredItem_other : ∀ c ∈ [candidate "k" "g", candidate "" "g", candidate "" "h"],
    matchStoredItem (loadItems manualSource (keylessStore "f")) c = none := by
  decide

/-- Two identities of which one meets the stored item stay apart. -/
theorem claims_once_apart :
    ∃ s' entries, createSourcePreview plainEnv manualSource (keylessStore "f")
        [candidate "k" "f", candidate "" "g"] = .ok (s', entries) ∧
      entries.length = 2 ∧ ClaimsOnce entries ∧ ContentOnce entries := by
  have hfaces : runFaces (keylessStore "f") [candidate "k" "f", candidate "" "g"] =
      some [("00000000-0000-4000-8000-000000000011", .new, .new),
        ("00000000-0000-4000-8000-000000000031", .new, .new)] := by
    decide
  obtain ⟨s', entries, hrun, hfaces⟩ := exists_run hfaces
  have hapart : ∀ item c d, ¬Meets (loadItems manualSource (keylessStore "f"))
      [candidate "k" "f", candidate "" "g"] item c d := by
    intro item c d hmeet
    have hfirst : ∀ x ∈ List.firsts sourceCandidateKey [] [candidate "k" "f", candidate "" "g"],
        matchStoredItem (loadItems manualSource (keylessStore "f")) x = some item →
          x = candidate "k" "f" := by
      intro x hx hmatch
      rcases mem_pair.mp (List.mem_of_mem_firsts sourceCandidateKey hx).1 with rfl | rfl
      · rfl
      · rw [matchStoredItem_other _ (by decide)] at hmatch
        cases hmatch
    refine hmeet.ne ?_
    rw [hfirst c hmeet.left hmeet.matchLeft, hfirst d hmeet.right hmeet.matchRight]
  obtain ⟨honce, hcontent, -⟩ := claims_once_iff hrun
  refine ⟨s', entries, hrun, ?_, honce.mpr fun item c d hmeet => absurd hmeet (hapart item c d),
    hcontent.mpr hapart⟩
  rw [← length_map Entry.face, hfaces]
  rfl

/-- A second candidate of an identity that meets no item is not counted. -/
theorem preview_size_three :
    ∃ s' entries, buildPreview plainEnv manualSource (keylessStore "f")
        [candidate "k" "f", candidate "k" "g", candidate "" "h"] = .ok (s', entries) ∧
      (entries.length : ℤ) = sourcePreviewCount (loadItems manualSource (keylessStore "f"))
        [candidate "k" "f", candidate "k" "g", candidate "" "h"] ∧
      sourcePreviewCount (loadItems manualSource (keylessStore "f"))
        [candidate "k" "f", candidate "k" "g", candidate "" "h"] = 2 := by
  have hrun : (runFaces (keylessStore "f")
      [candidate "k" "f", candidate "k" "g", candidate "" "h"]).isSome = true := by decide
  obtain ⟨faces, hfaces⟩ := Option.isSome_iff_exists.mp hrun
  obtain ⟨s', entries, hrun, -⟩ := exists_run hfaces
  obtain ⟨built, hbuild, -, -⟩ := createSourcePreview_spec hrun
  refine ⟨s', built, hbuild, (preview_size_iff hbuild).mpr fun c hc item hm => ?_, by decide⟩
  simp only [mem_cons, not_mem_nil, or_false] at hc
  rcases hc with rfl | rfl | rfl
  · exact ⟨candidate "k" "f", by decide, hm⟩
  · rw [matchStoredItem_other _ (by decide)] at hm
    cases hm
  · rw [matchStoredItem_other _ (by decide)] at hm
    cases hm

end ProxyLoom.Previews
