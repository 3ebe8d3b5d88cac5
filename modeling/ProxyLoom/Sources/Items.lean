import ProxyLoom.Sources.Origin
import ProxyLoom.IR.Diagnostic

/-!
# Upstream entries and the items they are matched to

Where both sides have an external key the keys decide, otherwise the fingerprints of the connections
do, and the first item in the list that agrees is taken. A keyless item therefore answers for every
entry with its fingerprint, and comes before the item with the key of the entry if it stands first.
-/

namespace ProxyLoom.Previews

open IR

inductive ItemState where
  | active | missing | conflict
deriving DecidableEq, Repr

structure StoredSourceItem where
  id : ID
  externalKey : String
  fingerprint : String
  name : String
  suggestedNodeID : ID
  node : Option Node
  state : ItemState
  revision : ℕ
deriving DecidableEq, Repr

structure ParsedCandidate where
  name : String
  externalKey : String
  fingerprint : String
  node : Node
  diagnostics : List Diagnostic
deriving DecidableEq, Repr

def sameItem (item : StoredSourceItem) (candidate : ParsedCandidate) : Bool :=
  if item.externalKey ≠ "" ∧ candidate.externalKey ≠ "" then
    item.externalKey = candidate.externalKey
  else item.fingerprint ≠ "" && item.fingerprint = candidate.fingerprint

def matchStoredItem (items : List StoredSourceItem) (candidate : ParsedCandidate) :
    Option StoredSourceItem :=
  items.find? fun item => sameItem item candidate

/-- The identity of an entry among the entries of one document. -/
def sourceCandidateKey (candidate : ParsedCandidate) : String :=
  if candidate.externalKey ≠ "" then "key:" ++ candidate.externalKey
  else "fingerprint:" ++ candidate.fingerprint

def sourcePreviewCount (existing : List StoredSourceItem) (parsed : List ParsedCandidate) : ℤ :=
  let keys := (parsed.map sourceCandidateKey).dedup
  let seen := (parsed.filterMap fun candidate =>
    (matchStoredItem existing candidate).map StoredSourceItem.id).dedup
  (keys.length : ℤ) + existing.length - seen.length

/-! ## Precedence and order -/

section
variable {items : List StoredSourceItem} {candidate : ParsedCandidate} {item : StoredSourceItem}

theorem sameItem_of_key (hkey : candidate.externalKey ≠ "")
    (h : item.externalKey = candidate.externalKey) : sameItem item candidate = true := by
  unfold sameItem
  rw [if_pos ⟨h ▸ hkey, hkey⟩, h]
  exact decide_eq_true rfl

theorem matchStoredItem_mem (h : matchStoredItem items candidate = some item) :
    item ∈ items ∧ sameItem item candidate = true :=
  ⟨List.mem_of_find?_eq_some h, List.find?_some (p := fun item => sameItem item candidate) h⟩

theorem matchStoredItem_isSome (hmem : item ∈ items) (h : sameItem item candidate = true) :
    ∃ found, matchStoredItem items candidate = some found := by
  have hsome : (matchStoredItem items candidate).isSome = true :=
    List.find?_isSome.mpr ⟨item, hmem, h⟩
  exact Option.isSome_iff_exists.mp hsome

theorem matchStoredItem_cons (h : sameItem item candidate = true) :
    matchStoredItem (item :: items) candidate = some item :=
  List.find?_cons_of_pos h

/-- External keys take precedence, and the order of the items does not count. -/
structure MatchExact (items : List StoredSourceItem) (candidate : ParsedCandidate) : Prop where
  precedence : candidate.externalKey ≠ "" → ∀ item ∈ items,
    item.externalKey = candidate.externalKey → matchStoredItem items candidate = some item
  order : ∀ items', items'.Perm items →
    matchStoredItem items' candidate = matchStoredItem items candidate

/-- **Matching is exact** if at most one item agrees with the entry. -/
theorem matchStoredItem_iff (items : List StoredSourceItem) (candidate : ParsedCandidate) :
    MatchExact items candidate ↔
      ∀ i ∈ items, ∀ j ∈ items, sameItem i candidate = true → sameItem j candidate = true →
        i = j := by
  constructor
  · intro h i hi j hj hsame hsame'
    have hfirst : ∀ k ∈ items, sameItem k candidate = true →
        matchStoredItem items candidate = some k := by
      intro k hk hagree
      rw [← h.order _ (List.perm_cons_erase hk).symm]
      exact matchStoredItem_cons hagree
    exact Option.some.inj ((hfirst i hi hsame).symm.trans (hfirst j hj hsame'))
  · intro h
    have hfound : ∀ items' : List StoredSourceItem, items'.Perm items → ∀ k ∈ items,
        sameItem k candidate = true → matchStoredItem items' candidate = some k := by
      intro items' hperm k hk hagree
      obtain ⟨found, hfound⟩ := matchStoredItem_isSome (hperm.symm.subset hk) hagree
      obtain ⟨hmem, hsame⟩ := matchStoredItem_mem hfound
      rw [hfound, h found (hperm.subset hmem) k hk hsame hagree]
    refine ⟨fun hkey item hitem heq => ?_, fun items' hperm => ?_⟩
    · exact hfound items (List.Perm.refl _) item hitem (sameItem_of_key hkey heq)
    · cases hmatch : matchStoredItem items candidate with
      | some k =>
        obtain ⟨hk, hagree⟩ := matchStoredItem_mem hmatch
        exact hfound items' hperm k hk hagree
      | none =>
        unfold matchStoredItem at hmatch ⊢
        rw [List.find?_eq_none] at hmatch ⊢
        exact fun k hk => hmatch k (hperm.subset hk)

end

/-! ## A keyless item in front of the item with the key -/

def entryNode : Node :=
  ⟨1, .trojan, ⟨"example.org", 443⟩, .password "secret", .nativeTCP,
    .tls ⟨"example.org", some true, [], none⟩, ⟨none, none, none⟩, none⟩

def keylessItem : StoredSourceItem :=
  ⟨"00000000-0000-4000-8000-000000000011", "", "f1", "first", "", some entryNode, .active, 1⟩

def keyedItem : StoredSourceItem :=
  ⟨"00000000-0000-4000-8000-000000000012", "k", "f2", "second", "", some entryNode, .active, 1⟩

def keyedEntry : ParsedCandidate := ⟨"second", "k", "f1", entryNode, []⟩

/-- The entry with the key of one item and the fingerprint of another goes to whichever stands
first. -/
theorem keyless_item_shadows :
    keyedItem.externalKey = keyedEntry.externalKey ∧
      matchStoredItem [keylessItem, keyedItem] keyedEntry = some keylessItem ∧
      matchStoredItem [keyedItem, keylessItem] keyedEntry = some keyedItem ∧
      ¬MatchExact [keylessItem, keyedItem] keyedEntry := by
  have hfirst : matchStoredItem [keylessItem, keyedItem] keyedEntry = some keylessItem := by
    decide
  refine ⟨rfl, hfirst, by decide, fun h => ?_⟩
  have hkey := h.precedence (by decide) keyedItem (by simp) rfl
  rw [hfirst] at hkey
  exact absurd hkey (by decide)

end ProxyLoom.Previews
