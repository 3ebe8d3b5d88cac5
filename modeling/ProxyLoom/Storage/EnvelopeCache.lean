import Mathlib.Data.List.AList
import ProxyLoom.Lib.Recency
import ProxyLoom.Secretbox.Box

/-!
# The cache of decoded envelopes

Decoded ciphertexts by the hashes of their encodings: a map from keys to the elements of a list in
order of use, and a counter of the bytes. The calls hold a lock, so they are made one after another.
-/

namespace ProxyLoom.Storage.Envelopes

open Secretbox Frame List
open IR (ID)

def artifactEnvelopeCacheBytes : ℕ := 32 * 2 ^ 20

def artifactEnvelopeCacheEntries : ℕ := 32

/-- What a decoded envelope is cached under. -/
structure EnvelopeKey where
  scope : ID
  artifact : ID
  payload : Bytes
  wrapping : Bytes
deriving DecidableEq

structure DecodedEnvelope where
  key : EnvelopeKey
  payload : Payload
  wrapping : Wrapping
  bytes : ℕ
deriving DecidableEq

/-- An element of a linked list: its address and what is stored there. -/
structure Element where
  address : ℕ
  value : DecodedEnvelope
deriving DecidableEq

def Element.key (e : Element) : EnvelopeKey := e.value.key

/-- The map and the list, the latest use first. -/
structure ArtifactEnvelopeCache where
  items : AList fun _ : EnvelopeKey => Element
  order : List Element
  bytes : ℤ
  /-- The first address that was not allocated. -/
  next : ℕ

def ArtifactEnvelopeCache.empty : ArtifactEnvelopeCache := ⟨∅, [], 0, 0⟩

/-- An element that is not in the list is left alone. -/
def moveToFront (e : Element) (l : List Element) : List Element :=
  if l.any (fun x => x.address = e.address) then e :: l.filter (fun x => x.address ≠ e.address)
  else l

def remove (e : Element) (l : List Element) : List Element :=
  l.filter fun x => x.address ≠ e.address

def envelopeSize (payload : Payload) (wrapping : Wrapping) : ℕ :=
  payload.ciphertext.length + payload.nonce.length + wrapping.ciphertext.length +
    wrapping.nonce.length + (utf8 wrapping.keyID).length

namespace ArtifactEnvelopeCache

/-- A hit moves to the front. -/
def get (c : ArtifactEnvelopeCache) (key : EnvelopeKey) :
    ArtifactEnvelopeCache × Option (Payload × Wrapping) :=
  match c.items.lookup key with
  | some entry =>
    ({ c with order := moveToFront entry c.order },
      some (entry.value.payload, entry.value.wrapping))
  | none => (c, none)

/-- There is no room for so many bytes, or for one more entry. -/
def full (c : ArtifactEnvelopeCache) (size : ℕ) : Bool :=
  (artifactEnvelopeCacheBytes : ℤ) < c.bytes + size ||
    artifactEnvelopeCacheEntries ≤ c.items.keys.length

def drop (c : ArtifactEnvelopeCache) (old : Element) : ArtifactEnvelopeCache :=
  { c with
    items := c.items.erase old.key
    order := remove old c.order
    bytes := c.bytes - old.value.bytes }

def pushFront (c : ArtifactEnvelopeCache) (value : DecodedEnvelope) : ArtifactEnvelopeCache :=
  { items := c.items.insert value.key ⟨c.next, value⟩
    order := ⟨c.next, value⟩ :: c.order
    bytes := c.bytes + value.bytes
    next := c.next + 1 }

end ArtifactEnvelopeCache

inductive Fault where
  /-- The list has no last element to look at. -/
  | nilElement
  /-- The loop does not end. -/
  | endless
deriving DecidableEq, Repr

def evictOldest (c : ArtifactEnvelopeCache) : Except Fault ArtifactEnvelopeCache :=
  match c.order.getLast? with
  | none => .error .nilElement
  | some old => .ok (c.drop old)

/-- Drop the oldest until the value fits. -/
def evict (size : ℕ) : ℕ → ArtifactEnvelopeCache → Except Fault ArtifactEnvelopeCache
  | 0, _ => .error .endless
  | rounds + 1, c =>
    if c.full size then do
      let c ← evictOldest c
      evict size rounds c
    else .ok c

/-- Add a value that fits at all. -/
def put (c : ArtifactEnvelopeCache) (key : EnvelopeKey) (payload : Payload) (wrapping : Wrapping) :
    Except Fault ArtifactEnvelopeCache :=
  let size := envelopeSize payload wrapping
  if artifactEnvelopeCacheBytes < size then .ok c
  else
    match c.items.lookup key with
    | some entry => .ok { c with order := moveToFront entry c.order }
    | none => do
      let c ← evict size (c.order.length + 1) c
      pure (c.pushFront ⟨key, payload, wrapping, size⟩)

/-! ## The invariant -/

/-- The map and the list hold the same elements, and the counter is the sum of their sizes. Every
call keeps it (`put_ok`, `Lru.touch`), and so does every round of the eviction loop. -/
structure Ok (c : ArtifactEnvelopeCache) : Prop where
  addresses : (c.order.map Element.address).Nodup
  allocated : ∀ e ∈ c.order, e.address < c.next
  items : ∀ k e, c.items.lookup k = some e ↔ e ∈ c.order ∧ e.key = k
  bytes : c.bytes = ((c.order.map fun e => e.value.bytes).sum : ℕ)
  bytes_le : c.bytes ≤ artifactEnvelopeCacheBytes
  entries_le : c.order.length ≤ artifactEnvelopeCacheEntries

theorem ok_empty : Ok .empty where
  addresses := nodup_nil
  allocated := forall_mem_nil _
  items k e := by simp [ArtifactEnvelopeCache.empty]
  bytes := rfl
  bytes_le := by decide
  entries_le := by decide

variable {c c' : ArtifactEnvelopeCache} {e : Element} {l : List Element} {size : ℕ}
  {key : EnvelopeKey} {payload : Payload} {wrapping : Wrapping}

theorem Ok.eq_of_key (h : Ok c) {e' : Element} (he : e ∈ c.order) (he' : e' ∈ c.order)
    (heq : e.key = e'.key) : e = e' := by
  have hfound := (h.items e'.key e).mpr ⟨he, heq⟩
  rw [(h.items e'.key e').mpr ⟨he', rfl⟩] at hfound
  exact (Option.some.inj hfound).symm

theorem Ok.nodup (h : Ok c) : c.order.Nodup := List.Nodup.of_map _ h.addresses

theorem Ok.keys_nodup (h : Ok c) : (c.order.map Element.key).Nodup :=
  h.nodup.map_on fun _ ha _ hb hab => h.eq_of_key ha hb hab

theorem Ok.keys_perm (h : Ok c) : c.items.keys.Perm (c.order.map Element.key) := by
  refine (perm_ext_iff_of_nodup c.items.keys_nodup h.keys_nodup).mpr fun k => ?_
  rw [← AList.mem_keys, ← AList.lookup_isSome, Option.isSome_iff_exists, mem_map]
  exact exists_congr fun e => h.items k e

theorem Ok.length_keys (h : Ok c) : c.items.keys.length = c.order.length := by
  rw [h.keys_perm.length_eq, length_map]

/-! ## Moving an element to the front -/

theorem remove_append {r : List Element} (h : ((l ++ e :: r).map Element.address).Nodup) :
    remove e (l ++ e :: r) = l ++ r := by
  rw [map_append, map_cons, nodup_append, nodup_cons] at h
  obtain ⟨-, ⟨hr, -⟩, hl⟩ := h
  have hleft : ∀ x ∈ l, decide (x.address ≠ e.address) = true := by
    intro x hx
    exact decide_eq_true (hl _ (mem_map_of_mem hx) _ (mem_cons_self))
  have hright : ∀ x ∈ r, decide (x.address ≠ e.address) = true := by
    intro x hx
    refine decide_eq_true fun heq => hr ?_
    rw [← heq]
    exact mem_map_of_mem hx
  unfold remove
  rw [filter_append, filter_eq_self.mpr hleft, filter_cons_of_neg (by simp),
    filter_eq_self.mpr hright]

theorem moveToFront_eq (he : e ∈ c.order) :
    moveToFront e c.order = e :: remove e c.order := by
  refine if_pos ?_
  exact any_eq_true.mpr ⟨e, he, decide_eq_true rfl⟩

theorem Ok.perm_moveToFront (h : Ok c) (he : e ∈ c.order) :
    (moveToFront e c.order).Perm c.order := by
  obtain ⟨l, r, hsplit⟩ := append_of_mem he
  have haddresses := h.addresses
  rw [moveToFront_eq he]
  rw [hsplit] at haddresses ⊢
  rw [remove_append haddresses]
  exact perm_middle.symm

theorem Ok.reorder (h : Ok c) (hl : l.Perm c.order) :
    Ok { c with order := l } where
  addresses := (hl.map _).nodup_iff.mpr h.addresses
  allocated e he := h.allocated e (hl.mem_iff.mp he)
  items k e := by
    rw [h.items k e]
    exact and_congr_left fun _ => hl.mem_iff.symm
  bytes := by
    rw [h.bytes]
    exact congrArg Nat.cast (hl.map _).sum_eq.symm
  bytes_le := h.bytes_le
  entries_le := hl.length_eq.le.trans h.entries_le

/-! ## Eviction -/

theorem Ok.order_drop (h : Ok c) {old : Element} (hsplit : c.order = l ++ [old]) :
    (c.drop old).order = l := by
  have haddresses := h.addresses
  show remove old c.order = l
  rw [hsplit] at haddresses ⊢
  rw [remove_append haddresses, append_nil]

theorem Ok.drop (h : Ok c) {old : Element} (hsplit : c.order = l ++ [old]) :
    Ok (c.drop old) := by
  have horder := h.order_drop hsplit
  have hmem : ∀ e, e ∈ c.order ↔ e ∈ l ∨ e = old := by
    intro e
    rw [hsplit, mem_append, mem_singleton]
  have hbytes : c.bytes - old.value.bytes = ((l.map fun e => e.value.bytes).sum : ℕ) := by
    rw [h.bytes, hsplit, map_append, sum_append, map_singleton, sum_singleton]
    omega
  have hold : old ∉ l := by
    have hnodup := h.nodup
    rw [hsplit, nodup_append] at hnodup
    exact fun hin => hnodup.2.2 old hin old (mem_singleton.mpr rfl) rfl
  refine ⟨?_, ?_, ?_, ?_, ?_, ?_⟩
  · rw [horder]
    have haddresses := h.addresses
    rw [hsplit, map_append] at haddresses
    exact haddresses.of_append_left
  · rw [horder]
    exact fun e he => h.allocated e ((hmem e).mpr (.inl he))
  · intro k e
    rw [horder]
    show (c.items.erase old.key).lookup k = some e ↔ _
    by_cases hk : k = old.key
    · subst hk
      rw [AList.lookup_erase]
      refine iff_of_false (by simp) fun ⟨he, hkey⟩ => hold ?_
      have hin := (hmem e).mpr (.inl he)
      rw [← h.eq_of_key hin ((hmem old).mpr (.inr rfl)) hkey]
      exact he
    · rw [AList.lookup_erase_ne hk, h.items k e, hmem e]
      constructor
      · rintro ⟨he | rfl, hkey⟩
        · exact ⟨he, hkey⟩
        · exact absurd hkey.symm hk
      · exact fun ⟨he, hkey⟩ => ⟨.inl he, hkey⟩
  · rw [horder]
    exact hbytes
  · show c.bytes - old.value.bytes ≤ _
    have := h.bytes_le
    omega
  · rw [horder]
    have := h.entries_le
    rw [hsplit, length_append] at this
    omega

inductive Evicting (size : ℕ) : ArtifactEnvelopeCache → ArtifactEnvelopeCache → Prop where
  | refl (c : ArtifactEnvelopeCache) : Evicting size c c
  | round {c d e : ArtifactEnvelopeCache} :
    c.full size = true → evictOldest c = .ok d → Evicting size d e → Evicting size c e

theorem Ok.not_full (h : Ok c) (hsize : size ≤ artifactEnvelopeCacheBytes) (hempty : c.order = []) :
    c.full size = false := by
  have hbytes : c.bytes = 0 := by
    rw [h.bytes, hempty]
    rfl
  have hlength : c.items.keys.length = 0 := by
    rw [h.length_keys, hempty]
    rfl
  unfold ArtifactEnvelopeCache.full
  rw [hbytes, hlength, Bool.or_eq_false_iff]
  exact ⟨decide_eq_false (by omega), by decide⟩

theorem Ok.evictOldest (h : Ok c) (hsize : size ≤ artifactEnvelopeCacheBytes)
    (hfull : c.full size = true) :
    ∃ rest old, c.order = rest ++ [old] ∧ evictOldest c = .ok (c.drop old) := by
  rcases eq_nil_or_concat' c.order with hempty | ⟨rest, old, hsplit⟩
  · rw [h.not_full hsize hempty] at hfull
    exact absurd hfull Bool.false_ne_true
  · refine ⟨rest, old, hsplit, ?_⟩
    unfold Envelopes.evictOldest
    rw [hsplit, List.getLast?_append, List.getLast?_singleton]
    rfl

theorem Evicting.ok (hsize : size ≤ artifactEnvelopeCacheBytes) (hloop : Evicting size c c')
    (h : Ok c) : Ok c' ∧ c'.order <+: c.order := by
  induction hloop with
  | refl c => exact ⟨h, prefix_refl _⟩
  | @round c d e hfull hround _ ih =>
    obtain ⟨rest, old, hsplit, heq⟩ := h.evictOldest hsize hfull
    rw [heq] at hround
    cases hround
    obtain ⟨hok, hsub⟩ := ih (h.drop hsplit)
    rw [h.order_drop hsplit] at hsub
    rw [hsplit]
    exact ⟨hok, hsub.trans (prefix_append _ _)⟩

/-- The loop ends, and never asks an empty list for its last element. -/
theorem evict_ok (hsize : size ≤ artifactEnvelopeCacheBytes) {rounds : ℕ} (h : Ok c)
    (hrounds : c.order.length < rounds) :
    ∃ d, evict size rounds c = .ok d ∧ Evicting size c d ∧ d.full size = false := by
  induction rounds generalizing c with
  | zero => exact absurd hrounds (Nat.not_lt_zero _)
  | succ rounds ih =>
    unfold evict
    split
    · next hfull =>
      obtain ⟨rest, old, hsplit, heq⟩ := h.evictOldest hsize hfull
      have hlength : (c.drop old).order.length < rounds := by
        rw [h.order_drop hsplit]
        rw [hsplit, length_append, length_singleton] at hrounds
        omega
      obtain ⟨d, hd, hloop, hroom⟩ := ih (h.drop hsplit) hlength
      refine ⟨d, ?_, .round hfull heq hloop, hroom⟩
      rw [heq]
      exact hd
    · next hfull => exact ⟨c, rfl, .refl c, Bool.eq_false_iff.mpr hfull⟩

/-! ## Putting an entry -/

theorem Ok.pushFront (h : Ok c) {value : DecodedEnvelope} (hroom : c.full value.bytes = false)
    (hmiss : c.items.lookup value.key = none) : Ok (c.pushFront value) := by
  have hnew : ∀ e ∈ c.order, e.key ≠ value.key := by
    intro e he hkey
    have hfound := (h.items value.key e).mpr ⟨he, hkey⟩
    rw [hmiss] at hfound
    cases hfound
  obtain ⟨hbytes, hentries⟩ := Bool.or_eq_false_iff.mp hroom
  have hbytes := of_decide_eq_false hbytes
  have hentries := of_decide_eq_false hentries
  rw [h.length_keys] at hentries
  refine ⟨?_, ?_, ?_, ?_, by show c.bytes + _ ≤ _; omega, by show _ + 1 ≤ _; omega⟩
  · refine nodup_cons.mpr ⟨fun hin => ?_, h.addresses⟩
    obtain ⟨e, he, haddress⟩ := mem_map.mp hin
    exact absurd haddress (h.allocated e he).ne
  · intro e he
    rcases mem_cons.mp he with rfl | he
    · exact Nat.lt_succ_self _
    · exact Nat.lt_succ_of_lt (h.allocated e he)
  · intro k e
    show (c.items.insert value.key ⟨c.next, value⟩).lookup k = some e ↔ e ∈ _ :: c.order ∧ e.key = k
    by_cases hk : k = value.key
    · subst hk
      rw [AList.lookup_insert, Option.some_inj]
      constructor
      · rintro rfl
        exact ⟨mem_cons_self, rfl⟩
      · rintro ⟨he, hkey⟩
        exact ((mem_cons.mp he).resolve_right fun he => hnew e he hkey).symm
    · rw [AList.lookup_insert_ne hk, h.items k e, mem_cons]
      refine and_congr_left fun hkey => ⟨.inr, fun he => he.resolve_left ?_⟩
      rintro rfl
      exact hk hkey.symm
  · show c.bytes + value.bytes = ((value.bytes + (c.order.map fun e => e.value.bytes).sum : ℕ) : ℤ)
    rw [h.bytes]
    omega

/-- What a put returns: the cache itself if the value is too large, the cache with the entry that is
there already at the front, and otherwise what the loop leaves with a new entry at the front. -/
inductive Puts (c : ArtifactEnvelopeCache) (key : EnvelopeKey) (payload : Payload)
    (wrapping : Wrapping) : ArtifactEnvelopeCache → Prop where
  | large : artifactEnvelopeCacheBytes < envelopeSize payload wrapping →
    Puts c key payload wrapping c
  | present {e : Element} : envelopeSize payload wrapping ≤ artifactEnvelopeCacheBytes →
    c.items.lookup key = some e →
    Puts c key payload wrapping { c with order := moveToFront e c.order }
  | inserted {d : ArtifactEnvelopeCache} :
    envelopeSize payload wrapping ≤ artifactEnvelopeCacheBytes → c.items.lookup key = none →
    Evicting (envelopeSize payload wrapping) c d →
    d.full (envelopeSize payload wrapping) = false →
    Puts c key payload wrapping
      (d.pushFront ⟨key, payload, wrapping, envelopeSize payload wrapping⟩)

theorem put_cases (h : Ok c) (key : EnvelopeKey) (payload : Payload) (wrapping : Wrapping) :
    ∃ c', put c key payload wrapping = .ok c' ∧ Puts c key payload wrapping c' := by
  unfold put
  by_cases hsize : artifactEnvelopeCacheBytes < envelopeSize payload wrapping
  · exact ⟨c, if_pos hsize, .large hsize⟩
  · have hle := Nat.le_of_not_lt hsize
    simp only [if_neg hsize]
    cases hlookup : c.items.lookup key with
    | some e => exact ⟨_, rfl, .present hle hlookup⟩
    | none =>
      obtain ⟨d, hd, hloop, hroom⟩ := evict_ok hle h (Nat.lt_succ_self _)
      refine ⟨_, ?_, .inserted hle hlookup hloop hroom⟩
      rw [hd]
      rfl

theorem Evicting.lookup (hsize : size ≤ artifactEnvelopeCacheBytes) (hloop : Evicting size c c')
    (h : Ok c) {k : EnvelopeKey} (he : c'.items.lookup k = some e) : c.items.lookup k = some e := by
  obtain ⟨hok, hsub⟩ := hloop.ok hsize h
  obtain ⟨hin, hkey⟩ := (hok.items k e).mp he
  exact (h.items k e).mpr ⟨hsub.subset hin, hkey⟩

theorem Evicting.lookup_eq_none (hsize : size ≤ artifactEnvelopeCacheBytes)
    (hloop : Evicting size c c') (h : Ok c) {k : EnvelopeKey} (hmiss : c.items.lookup k = none) :
    c'.items.lookup k = none := by
  cases hfound : c'.items.lookup k with
  | none => rfl
  | some e =>
    rw [hloop.lookup hsize h hfound] at hmiss
    cases hmiss

theorem put_ok (h : Ok c)
    (hput : put c key payload wrapping = .ok c') : Ok c' := by
  obtain ⟨_, heq, hcases⟩ := put_cases h key payload wrapping
  rw [heq] at hput
  cases hput
  cases hcases with
  | large => exact h
  | present _ he => exact h.reorder (h.perm_moveToFront ((h.items _ _).mp he).1)
  | inserted hle hmiss hloop hroom =>
    exact (hloop.ok hle h).1.pushFront hroom (hloop.lookup_eq_none hle h hmiss)

/-! ## Histories -/

inductive Op where
  | put (key : EnvelopeKey) (payload : Payload) (wrapping : Wrapping)
  | get (key : EnvelopeKey)

def Op.run : Op → ArtifactEnvelopeCache → Except Fault ArtifactEnvelopeCache
  | .put key payload wrapping, c => Envelopes.put c key payload wrapping
  | .get key, c => .ok (c.get key).1

/-- The operations that put or read the entry of a key. A value that is too large is not put. -/
def Op.uses : Op → EnvelopeKey → Bool
  | .put key payload wrapping, k =>
    key = k && decide (envelopeSize payload wrapping ≤ artifactEnvelopeCacheBytes)
  | .get key, k => key = k

/-- The cache after a history of calls, the newest first. -/
def after : List Op → Except Fault ArtifactEnvelopeCache
  | [] => .ok .empty
  | op :: earlier => do
    let c ← after earlier
    op.run c

/-- The element is there since the put of its value: its key was missing before that call, and after
every later one the element is found under it. -/
def Since (history : List Op) (e : Element) : Prop :=
  ∃ newer older,
    history = newer ++ Op.put e.key e.value.payload e.value.wrapping :: older ∧
    (∃ d, after older = .ok d ∧ d.items.lookup e.key = none) ∧
    ∀ later, later <:+ newer →
      ∃ d, after (later ++ Op.put e.key e.value.payload e.value.wrapping :: older) = .ok d ∧
        d.items.lookup e.key = some e

/-- The cache holds what a bounded cache with eviction of the least recently used entry holds. -/
structure Lru (history : List Op) (c : ArtifactEnvelopeCache) : Prop where
  ok : Ok c
  recent : Recent Op.uses Element.key history c.order
  sizes : ∀ e ∈ c.order, e.value.bytes = envelopeSize e.value.payload e.value.wrapping
  since : ∀ e ∈ c.order, Since history e

theorem after_cons {op : Op} {earlier : List Op} (hearlier : after earlier = .ok c) :
    after (op :: earlier) = op.run c := by
  rw [after, hearlier]
  rfl

theorem Since.stay {op : Op} {history : List Op} (h : Since history e)
    (hafter : after (op :: history) = .ok c) (hfound : c.items.lookup e.key = some e) :
    Since (op :: history) e := by
  obtain ⟨newer, older, rfl, hmiss, hstay⟩ := h
  refine ⟨op :: newer, older, rfl, hmiss, fun later hlater => ?_⟩
  rcases suffix_cons_iff.mp hlater with rfl | hlater
  · exact ⟨c, hafter, hfound⟩
  · exact hstay later hlater

theorem Since.inserted {history : List Op} (hafter : after history = .ok c)
    (hmiss : c.items.lookup e.key = none)
    (hput : after (Op.put e.key e.value.payload e.value.wrapping :: history) = .ok c')
    (hfound : c'.items.lookup e.key = some e) :
    Since (Op.put e.key e.value.payload e.value.wrapping :: history) e := by
  refine ⟨[], history, rfl, ⟨c, hafter, hmiss⟩, fun later hlater => ?_⟩
  rw [suffix_nil.mp hlater]
  exact ⟨c', hput, hfound⟩

variable {history : List Op} {op : Op}

theorem Lru.touch (h : Lru history c) (he : e ∈ c.order)
    (huses : ∀ k, op.uses k = decide (e.key = k))
    (hrun : op.run c = .ok { c with order := moveToFront e c.order })
    (hafter : after history = .ok c) :
    Lru (op :: history) { c with order := moveToFront e c.order } := by
  have hperm := h.ok.perm_moveToFront he
  have hok := h.ok.reorder hperm
  refine ⟨hok, ?_, fun x hx => h.sizes x (hperm.mem_iff.mp hx), fun x hx => ?_⟩
  · show Recent Op.uses Element.key (op :: history) (moveToFront e c.order)
    rw [moveToFront_eq he]
    refine (h.recent.sublist filter_sublist).front (by rw [huses]; exact decide_eq_true rfl) ?_
    intro x hx
    obtain ⟨hin, haddress⟩ := mem_filter.mp hx
    rw [huses]
    refine decide_eq_false fun hkey => of_decide_eq_true haddress ?_
    rw [h.ok.eq_of_key he hin hkey]
  · refine (h.since x (hperm.mem_iff.mp hx)).stay ((after_cons hafter).trans hrun) ?_
    exact (hok.items x.key x).mpr ⟨hx, rfl⟩

theorem Lru.idle (h : Lru history c) (hunused : ∀ e ∈ c.order, op.uses e.key = false)
    (hrun : op.run c = .ok c) (hafter : after history = .ok c) : Lru (op :: history) c := by
  refine ⟨h.ok, h.recent.unused hunused, h.sizes, fun e he => ?_⟩
  refine (h.since e he).stay ((after_cons hafter).trans hrun) ?_
  exact (h.ok.items e.key e).mpr ⟨he, rfl⟩

theorem Lru.insert (h : Lru history c)
    (hafter : after history = .ok c) (hput : put c key payload wrapping = .ok c')
    (hmiss : c.items.lookup key = none)
    (hsize : envelopeSize payload wrapping ≤ artifactEnvelopeCacheBytes)
    {d : ArtifactEnvelopeCache} (hloop : Evicting (envelopeSize payload wrapping) c d)
    (hc' : c' = d.pushFront ⟨key, payload, wrapping, envelopeSize payload wrapping⟩) :
    Lru (.put key payload wrapping :: history) c' := by
  obtain ⟨-, hsub⟩ := hloop.ok hsize h.ok
  have hok := put_ok h.ok hput
  have hlater : after (.put key payload wrapping :: history) = .ok c' :=
    (after_cons hafter).trans hput
  have horder : c'.order =
      ⟨d.next, ⟨key, payload, wrapping, envelopeSize payload wrapping⟩⟩ :: d.order := by
    rw [hc']
    rfl
  have hfound : ∀ e ∈ c'.order, c'.items.lookup e.key = some e := fun e he =>
    (hok.items e.key e).mpr ⟨he, rfl⟩
  have hother : ∀ e ∈ d.order, key ≠ e.key := by
    rintro e he rfl
    have hin := (h.ok.items e.key e).mpr ⟨hsub.subset he, rfl⟩
    rw [hmiss] at hin
    cases hin
  refine ⟨hok, ?_, ?_, ?_⟩
  · rw [horder]
    refine (h.recent.sublist hsub.sublist).front ?_ fun e he => ?_
    · exact Bool.and_eq_true_iff.mpr ⟨decide_eq_true rfl, decide_eq_true hsize⟩
    · exact Bool.and_eq_false_iff.mpr (.inl (decide_eq_false (hother e he)))
  · rw [horder]
    intro e he
    rcases mem_cons.mp he with rfl | he
    · rfl
    · exact h.sizes e (hsub.subset he)
  · intro e he
    have hin := hfound e he
    rw [horder] at he
    rcases mem_cons.mp he with rfl | he
    · exact Since.inserted (e := ⟨d.next, ⟨key, payload, wrapping, _⟩⟩) hafter hmiss hlater hin
    · exact (h.since e (hsub.subset he)).stay hlater hin

theorem Lru.run (h : Lru history c) (hafter : after history = .ok c) (op : Op) :
    ∃ c', op.run c = .ok c' ∧ Lru (op :: history) c' := by
  cases op with
  | get key =>
    refine ⟨_, rfl, ?_⟩
    cases hlookup : c.items.lookup key with
    | none =>
      have hget : (c.get key).1 = c := by
        unfold ArtifactEnvelopeCache.get
        rw [hlookup]
      rw [hget]
      refine h.idle (fun e he => decide_eq_false ?_) (congrArg Except.ok hget) hafter
      rintro rfl
      rw [(h.ok.items e.key e).mpr ⟨he, rfl⟩] at hlookup
      cases hlookup
    | some e =>
      obtain ⟨he, rfl⟩ := (h.ok.items key e).mp hlookup
      have hget : (c.get e.key).1 = { c with order := moveToFront e c.order } := by
        unfold ArtifactEnvelopeCache.get
        rw [hlookup]
      rw [hget]
      exact h.touch he (fun _ => rfl) (congrArg Except.ok hget) hafter
  | put key payload wrapping =>
    obtain ⟨c', hput, hcases⟩ := put_cases h.ok key payload wrapping
    refine ⟨c', hput, ?_⟩
    cases hcases with
    | large hsize =>
      refine h.idle (fun e _ => Bool.and_eq_false_iff.mpr (.inr ?_)) hput hafter
      exact decide_eq_false (Nat.not_le.mpr hsize)
    | present hle he =>
      obtain ⟨hin, rfl⟩ := (h.ok.items key _).mp he
      refine h.touch hin (fun k => ?_) hput hafter
      rw [Op.uses, decide_eq_true hle, Bool.and_true]
    | inserted hle hmiss hloop => exact h.insert hafter hput hmiss hle hloop rfl

theorem after_lru (history : List Op) : ∃ c, after history = .ok c ∧ Lru history c := by
  induction history with
  | nil =>
    exact ⟨.empty, rfl, ok_empty, List.Pairwise.nil, forall_mem_nil _, forall_mem_nil _⟩
  | cons op earlier ih =>
    obtain ⟨c, hafter, hlru⟩ := ih
    obtain ⟨c', hrun, hlru'⟩ := hlru.run hafter op
    exact ⟨c', (after_cons hafter).trans hrun, hlru'⟩

theorem Lru.evicted (h : Lru history c) (hsize : size ≤ artifactEnvelopeCacheBytes)
    (hloop : Evicting size c c') (hfull : c'.full size = true) :
    ∃ rest old, c'.order = rest ++ [old] ∧ evictOldest c' = .ok (c'.drop old) ∧
      (c'.drop old).order = rest ∧
      ∀ e ∈ rest, lastUse Op.uses history old.key < lastUse Op.uses history e.key := by
  obtain ⟨hok, hsub⟩ := hloop.ok hsize h.ok
  obtain ⟨rest, old, hsplit, heq⟩ := hok.evictOldest hsize hfull
  have hrecent := h.recent.sublist hsub.sublist
  rw [hsplit] at hrecent
  exact ⟨rest, old, hsplit, heq, hok.order_drop hsplit, hrecent.oldest⟩

theorem Lru.get (h : Lru history c)
    (hget : (c.get key).2 = some (payload, wrapping)) :
    ∃ e, e.key = key ∧ e.value.payload = payload ∧ e.value.wrapping = wrapping ∧
      Since history e := by
  unfold ArtifactEnvelopeCache.get at hget
  cases hlookup : c.items.lookup key with
  | none =>
    rw [hlookup] at hget
    cases hget
  | some e =>
    rw [hlookup] at hget
    cases hget
    obtain ⟨he, hkey⟩ := (h.ok.items key e).mp hlookup
    exact ⟨e, hkey, rfl, rfl, h.since e he⟩

/-- **The envelope cache.** After every history of calls the counter is the sum of the sizes of the
entries and within the bound, there are no more entries than allowed, and the map and the list hold
the same ones. A put ends and returns what `Puts` says; its loop ends too, while it runs there is an
entry to drop, and it is the one that was put or read the longest ago. What a get returns is the
value of the put that made the entry which is there. -/
theorem envelope_cache (history : List Op) :
    ∃ c, after history = .ok c ∧
      (c.bytes = ((c.order.map fun e => envelopeSize e.value.payload e.value.wrapping).sum : ℕ) ∧
        c.bytes ≤ (32 * 2 ^ 20 : ℕ)) ∧
      (c.items.keys.length = c.order.length ∧ c.order.length ≤ 32) ∧
      (c.order.Nodup ∧ ∀ k e, c.items.lookup k = some e ↔ e ∈ c.order ∧ e.key = k) ∧
      (∀ key payload wrapping,
        ∃ c', put c key payload wrapping = .ok c' ∧ Puts c key payload wrapping c') ∧
      (∀ size ≤ artifactEnvelopeCacheBytes,
        (∃ d, evict size (c.order.length + 1) c = .ok d ∧ Evicting size c d ∧ d.full size = false) ∧
        ∀ d, Evicting size c d → d.full size = true →
          ∃ rest old, d.order = rest ++ [old] ∧ evictOldest d = .ok (d.drop old) ∧
            (d.drop old).order = rest ∧
            ∀ e ∈ rest, lastUse Op.uses history old.key < lastUse Op.uses history e.key) ∧
      ∀ key payload wrapping, (c.get key).2 = some (payload, wrapping) →
        ∃ e, e.key = key ∧ e.value.payload = payload ∧ e.value.wrapping = wrapping ∧
          Since history e := by
  obtain ⟨c, hafter, hlru⟩ := after_lru history
  have hok := hlru.ok
  refine ⟨c, hafter, ⟨?_, hok.bytes_le⟩, ⟨hok.length_keys, hok.entries_le⟩, ⟨hok.nodup, hok.items⟩,
    put_cases hok,
    fun size hsize => ⟨evict_ok hsize hok (Nat.lt_succ_self _), fun d => hlru.evicted hsize⟩,
    fun key payload wrapping => hlru.get⟩
  rw [hok.bytes, map_congr_left hlru.sizes]

end ProxyLoom.Storage.Envelopes
