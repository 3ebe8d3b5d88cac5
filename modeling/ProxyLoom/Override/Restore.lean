import ProxyLoom.Override.Compose
import ProxyLoom.APIContract.PatchLaws

/-!
# Restoring overridden fields

Restoring a list of paths drops them, with what lies below them, from a document.

1. The result does not depend on the order of the paths: it is `Document.without`, a function of the
   set of dropped paths.
2. Its overridden fields are those of the document without the restored ones.
3. Once merged again, a restored field has the value of the source and every other field the value
   it had, as long as the document keeps the credential kind and the security mode of the source.
-/

namespace ProxyLoom.Override

open IR APIContract List Option

/-! ## Paths -/

/-- A path of a document: its name, or a field of its node. -/
inductive DocPath where
  | name
  | node (path : Path)
deriving DecidableEq, Repr

namespace DocPath

def text : DocPath → String
  | .name => "/name"
  | .node .protocol => "/protocol"
  | .node .endpoint => "/endpoint"
  | .node .auth => "/auth"
  | .node .password => "/auth/password"
  | .node .uuid => "/auth/uuid"
  | .node .username => "/auth/username"
  | .node .method => "/auth/method"
  | .node .cipher => "/auth/cipher"
  | .node .transport => "/transport"
  | .node .security => "/security"
  | .node .serverName => "/security/server_name"
  | .node .verifyCertificate => "/security/verify_certificate"
  | .node .alpn => "/security/alpn"
  | .node .clientFingerprint => "/security/client_fingerprint"
  | .node .publicKey => "/security/public_key"
  | .node .shortID => "/security/short_id"
  | .node .features => "/features"

/-- Every path, in the order in which `fields` looks at them. -/
def all : List DocPath :=
  [.name, .node .protocol, .node .endpoint, .node .auth, .node .password, .node .uuid,
    .node .username, .node .method, .node .cipher, .node .transport, .node .security,
    .node .serverName, .node .verifyCertificate, .node .alpn, .node .clientFingerprint,
    .node .publicKey, .node .shortID, .node .features]

theorem mem_all (q : DocPath) : q ∈ all := by
  cases q with
  | name => decide
  | node path => cases path <;> decide

def covers (p q : DocPath) : Bool :=
  p = q ||
    match p, q with
    | .node .auth, .node path => path.inAuth
    | .node .security, .node path => path.inSecurity
    | _, _ => false

theorem text_injective : Function.Injective text := by
  intro p q h
  have hall : ∀ p ∈ all, ∀ q ∈ all, p.text = q.text → p = q := by decide
  exact hall p (mem_all p) q (mem_all q) h

end DocPath

def covers (p q : String) : Bool := p = q || (p ++ "/").toList.isPrefixOf q.toList

theorem covers_text (p q : DocPath) : covers p.text q.text = p.covers q := by
  have hall : ∀ p ∈ DocPath.all, ∀ q ∈ DocPath.all, covers p.text q.text = p.covers q := by
    decide
  exact hall p (DocPath.mem_all p) q (DocPath.mem_all q)

def knownPaths : List String := DocPath.all.map DocPath.text

/-! ## The overridden fields as a set -/

def Document.mentions (d : Document) : DocPath → Bool
  | .name => d.name.isSome
  | .node path => d.node.any (·.mentions path)

variable {α : Type} {path : Path}

theorem map_filter_eq_flatMap {β : Type} (p : α → Bool) (f : α → β) (l : List α) :
    (l.filter p).map f = l.flatMap fun a => if p a then [f a] else [] := by
  induction l with
  | nil => rfl
  | cons a l ih =>
    rw [flatMap_cons, ← ih, filter_cons]
    split <;> rfl

theorem fields_eq (d : Document) :
    d.fields = ((DocPath.all.filter d.mentions).map DocPath.text).insertionSort (· ≤ ·) := by
  rw [map_filter_eq_flatMap]
  unfold Document.fields
  congr 1
  obtain ⟨version, name, node⟩ := d
  cases node with
  | none => cases name <;> rfl
  | some n =>
    obtain ⟨protocol, endpoint, auth, transport, security, features⟩ := n
    cases auth <;> cases security <;>
      simp [DocPath.all, Document.mentions, NodePatch.mentions, AuthPatch.mentions,
        SecurityPatch.mentions, nodeFields, authFields, securityFields, DocPath.text]
    rfl

theorem insertionSort_filter (p : String → Bool) (l : List String) :
    (l.filter p).insertionSort (· ≤ ·) = (l.insertionSort (· ≤ ·)).filter p := by
  refine List.Perm.eq_of_pairwise' (pairwise_insertionSort (· ≤ ·) _)
    ((pairwise_insertionSort (· ≤ ·) _).filter _) ?_
  exact (perm_insertionSort _ _).trans ((perm_insertionSort _ _).symm.filter p)

/-! ## Dropping a set of paths -/

section
variable (dropped : Path → Bool)

def AuthPatch.without (a : AuthPatch) : AuthPatch :=
  { a with
    method := if dropped .method then none else a.method
    cipher := if dropped .cipher then none else a.cipher
    password := if dropped .password then .absent else a.password
    uuid := if dropped .uuid then .absent else a.uuid
    username := if dropped .username then .absent else a.username }

def SecurityPatch.without (s : SecurityPatch) : SecurityPatch :=
  { s with
    serverName := if dropped .serverName then none else s.serverName
    verifyCertificate := if dropped .verifyCertificate then none else s.verifyCertificate
    alpn := if dropped .alpn then none else s.alpn
    clientFingerprint := if dropped .clientFingerprint then .absent else s.clientFingerprint
    publicKey := if dropped .publicKey then .absent else s.publicKey
    shortID := if dropped .shortID then .absent else s.shortID }

def NodePatch.without (n : NodePatch) : NodePatch :=
  { protocol := if dropped .protocol then none else n.protocol
    endpoint := if dropped .endpoint then none else n.endpoint
    auth := if dropped .auth then none else n.auth.map (AuthPatch.without dropped)
    transport := if dropped .transport then none else n.transport
    security := if dropped .security then none else n.security.map (SecurityPatch.without dropped)
    features := if dropped .features then none else n.features }

end

def Document.without (d : Document) (dropped : DocPath → Bool) : Document :=
  { d with
    name := if dropped .name then none else d.name
    node := d.node.map (NodePatch.without fun path => dropped (.node path)) }

def DocPath.drop (q : DocPath) (d : Document) : Document := (d.restorePath q.text).toOption.getD d

theorem restorePath_text (d : Document) (q : DocPath) :
    d.restorePath q.text = .ok (q.drop d) := by
  cases q with
  | name => rfl
  | node path => cases path <;> rfl

variable {d : Document} {paths : List DocPath} {p : NodePatch} {base : Node} {f : Path → Bool}

theorem restorePath_unknown {s : String} (h : s ∉ knownPaths) :
    d.restorePath s = .error .restore := by
  unfold Document.restorePath
  split <;> first | rfl | (exact absurd (by decide) h)

theorem ite_ite_or (f g : Bool) (x y : α) :
    (if g then x else if f then x else y) = if f || g then x else y := by
  cases f <;> cases g <;> rfl

theorem auth_without_without (f g : Path → Bool) (a : AuthPatch) :
    AuthPatch.without g (AuthPatch.without f a) = AuthPatch.without (fun p => f p || g p) a := by
  simp only [AuthPatch.without, ite_ite_or]

theorem security_without_without (f g : Path → Bool) (s : SecurityPatch) :
    SecurityPatch.without g (SecurityPatch.without f s) =
      SecurityPatch.without (fun p => f p || g p) s := by
  simp only [SecurityPatch.without, ite_ite_or]

theorem node_without_without (f g : Path → Bool) (n : NodePatch) :
    NodePatch.without g (NodePatch.without f n) = NodePatch.without (fun p => f p || g p) n := by
  have hgroup {γ : Type} (x : Option γ) (b c : Bool) (u v w : γ → γ) (h : ∀ y, v (u y) = w y) :
      (if c then none else (if b then none else x.map u).map v) =
        if b || c then none else x.map w := by
    cases b <;> cases c <;> simp [Function.comp_def, h]
  simp only [NodePatch.without, ite_ite_or, hgroup _ _ _ _ _ _ (auth_without_without f g),
    hgroup _ _ _ _ _ _ (security_without_without f g)]

theorem without_without (d : Document) (f g : DocPath → Bool) :
    (d.without f).without g = d.without fun p => f p || g p := by
  simp only [Document.without, ite_ite_or, Option.map_map, Function.comp_def,
    node_without_without]

theorem drop_eq_without (d : Document) (q : DocPath) : q.drop d = d.without fun p => p = q := by
  obtain ⟨version, name, node⟩ := d
  cases node with
  | none =>
    cases q with
    | name => rfl
    | node path => cases path <;> rfl
  | some n =>
    obtain ⟨protocol, endpoint, auth, transport, security, features⟩ := n
    cases q with
    | name => cases auth <;> cases security <;> rfl
    | node path => cases auth <;> cases security <;> cases path <;> rfl

theorem without_nothing (d : Document) : d.without (fun _ => false) = d := by
  obtain ⟨version, name, node⟩ := d
  cases node with
  | none => rfl
  | some n =>
    obtain ⟨protocol, endpoint, auth, transport, security, features⟩ := n
    cases auth <;> cases security <;> rfl

/-! ## Restoring a list of paths -/

/-- An empty node patch is not stored. -/
def Document.normalized (d : Document) : Document :=
  if nodePatchEmpty d.node then { d with node := none } else d

/-- The paths restored so far are dropped, and the rest of the list is still to come. -/
theorem restoreFrom_eq (d : Document) (paths : List DocPath) (hpaths : paths.Nodup)
    (seen : List DocPath) (hseen : ∀ q ∈ paths, q ∉ seen) (f : DocPath → Bool) :
    (d.without f).restoreFrom (seen.map DocPath.text) (paths.map DocPath.text) =
      .ok (d.without fun p => f p || p ∈ paths).normalized := by
  induction paths generalizing seen f with
  | nil =>
    simp only [map_nil, Document.restoreFrom, not_mem_nil, decide_false, Bool.or_false]
    rfl
  | cons q paths ih =>
    have hnew : ¬ (q.text = "" ∨ q.text ∈ seen.map DocPath.text) := by
      rintro (h | h)
      · have hall : ∀ q ∈ DocPath.all, q.text ≠ "" := by decide
        exact hall q (DocPath.mem_all q) h
      · exact hseen q mem_cons_self
          ((List.mem_map_of_injective DocPath.text_injective).mp h)
    obtain ⟨hq, hpaths⟩ := nodup_cons.mp hpaths
    rw [map_cons, Document.restoreFrom, if_neg hnew, restorePath_text, drop_eq_without,
      without_without]
    have hseen' : ∀ p ∈ paths, p ∉ q :: seen := by
      intro p hp hmem
      rcases mem_cons.mp hmem with rfl | hmem
      · exact hq hp
      · exact hseen p (mem_cons_of_mem _ hp) hmem
    have hrest := ih hpaths (q :: seen) hseen' fun p => f p || decide (p = q)
    simp only [mem_cons, Bool.decide_or, ← Bool.or_assoc]
    exact hrest

theorem exists_docPaths {P : List String} (hknown : ∀ s ∈ P, s ∈ knownPaths) :
    ∃ paths : List DocPath, paths.map DocPath.text = P := by
  induction P with
  | nil => exact ⟨[], rfl⟩
  | cons s P ih =>
    obtain ⟨paths, rfl⟩ := ih fun t ht => hknown t (mem_cons_of_mem _ ht)
    obtain ⟨q, -, rfl⟩ := List.mem_map.mp (hknown s mem_cons_self)
    exact ⟨q :: paths, rfl⟩

/-- The document that restoring a list of distinct paths leaves. -/
def Document.restored (d : Document) (paths : List DocPath) : Document :=
  if paths = [] then d else (d.without fun p => p ∈ paths).normalized

theorem restore_eq (d : Document) (hpaths : paths.Nodup) :
    d.restore (paths.map DocPath.text) = .ok (d.restored paths) := by
  cases paths with
  | nil => rfl
  | cons q paths =>
    have h := restoreFrom_eq d (q :: paths) hpaths [] (fun _ _ => not_mem_nil)
      fun _ => false
    rw [without_nothing] at h
    simp only [Bool.false_or, map_nil] at h
    exact h

theorem restored_perm (d : Document) {paths' : List DocPath} (h : paths'.Perm paths) :
    d.restored paths' = d.restored paths := by
  have hmem : ∀ p, p ∈ paths' ↔ p ∈ paths := fun p => h.mem_iff
  simp only [Document.restored, hmem]
  by_cases hnil : paths = []
  · subst hnil
    rw [perm_nil.mp h]
  · have hnil' : paths' ≠ [] := by
      rintro rfl
      exact hnil (nil_perm.mp h)
    rw [if_neg hnil, if_neg hnil']

theorem restoreFrom_error (d : Document) (P seen : List String)
    (h : ¬ ((∀ s ∈ P, s ∈ knownPaths ∧ s ∉ seen) ∧ P.Nodup)) :
    d.restoreFrom seen P = .error .restore := by
  induction P generalizing d seen with
  | nil => exact absurd ⟨forall_mem_nil _, nodup_nil⟩ h
  | cons s P ih =>
    rw [Document.restoreFrom]
    split_ifs with hbad
    · rfl
    by_cases hknown : s ∈ knownPaths
    · obtain ⟨q, -, rfl⟩ := List.mem_map.mp hknown
      rw [restorePath_text]
      refine ih (q.drop d) (q.text :: seen) ?_
      rintro ⟨hrest, hnodup⟩
      refine h ⟨?_, nodup_cons.mpr ⟨fun hmem => (hrest _ hmem).2 mem_cons_self, hnodup⟩⟩
      intro t ht
      rcases mem_cons.mp ht with rfl | ht
      · exact ⟨hknown, fun hmem => hbad (Or.inr hmem)⟩
      · exact ⟨(hrest t ht).1, fun hmem => (hrest t ht).2 (mem_cons_of_mem _ hmem)⟩
    · rw [restorePath_unknown hknown]

theorem restore_error (d : Document) {P : List String}
    (h : ¬ ((∀ s ∈ P, s ∈ knownPaths) ∧ P.Nodup)) : d.restore P = .error .restore := by
  unfold Document.restore
  split_ifs with hnil
  · subst hnil
    exact absurd ⟨forall_mem_nil _, nodup_nil⟩ h
  · refine restoreFrom_error d P [] ?_
    rintro ⟨hknown, hnodup⟩
    exact h ⟨fun s hs => (hknown s hs).1, hnodup⟩

/-! ## Normalising changes nothing that can be observed -/

theorem node_eq_noPatch (h : nodePatchEmpty d.node = true) :
    d.node.getD noPatch = noPatch := by
  cases hnode : d.node with
  | none => rfl
  | some n =>
    rw [hnode] at h
    exact eq_noPatch_of_isEmpty h

theorem normalized_node (d : Document) :
    d.normalized.node.getD noPatch = d.node.getD noPatch := by
  unfold Document.normalized
  split_ifs with h
  · exact (node_eq_noPatch h).symm
  · rfl

theorem normalized_name (d : Document) : d.normalized.name = d.name := by
  unfold Document.normalized
  split_ifs <;> rfl

theorem mentions_node (d : Document) (path : Path) :
    d.mentions (.node path) = (d.node.getD noPatch).mentions path := by
  cases h : d.node with
  | none =>
    simp only [Document.mentions, h, any_none, getD_none]
    cases path <;> rfl
  | some n => simp only [Document.mentions, h, any_some, getD_some]

theorem mentions_normalized (d : Document) (q : DocPath) :
    d.normalized.mentions q = d.mentions q := by
  cases q with
  | name => rw [Document.mentions, Document.mentions, normalized_name]
  | node path => rw [mentions_node, mentions_node, normalized_node]

/-! ## The fields that are left -/

theorem isSome_ite (b : Bool) (x : Option α) :
    (if b then none else x).isSome = (x.isSome && !b) := by
  cases b <;> simp

theorem present_ite (b : Bool) (x : FieldPatch α) :
    (if b then FieldPatch.absent else x).present = (x.present && !b) := by
  cases b
  · rw [if_neg Bool.false_ne_true, Bool.not_false, Bool.and_true]
  · rw [if_pos rfl, Bool.not_true, Bool.and_false]
    rfl

theorem auth_mentions_without (f : Path → Bool) (a : AuthPatch) (path : Path) :
    (AuthPatch.without f a).mentions path = (a.mentions path && !f path) := by
  cases path <;> simp [AuthPatch.mentions, AuthPatch.without, isSome_ite, present_ite]

theorem security_mentions_without (f : Path → Bool) (s : SecurityPatch) (path : Path) :
    (SecurityPatch.without f s).mentions path = (s.mentions path && !f path) := by
  cases path <;> simp [SecurityPatch.mentions, SecurityPatch.without, isSome_ite, present_ite]

/-- The path was dropped, or the group it belongs to was. -/
def Path.gone (f : Path → Bool) (path : Path) : Bool :=
  f path || (path.inAuth && f .auth) || (path.inSecurity && f .security)

theorem node_mentions_without (f : Path → Bool) (n : NodePatch) (path : Path) :
    (NodePatch.without f n).mentions path = (n.mentions path && !Path.gone f path) := by
  obtain ⟨protocol, endpoint, auth, transport, security, features⟩ := n
  cases path with
  | protocol | endpoint | transport | features | auth | security =>
    simp [NodePatch.mentions, NodePatch.without, isSome_ite, Path.gone, Path.inAuth,
      Path.inSecurity]
  | password | uuid | username | method | cipher =>
    cases hf : f .auth <;> cases auth <;> cases f .security <;> cases security <;>
      simp [NodePatch.mentions, NodePatch.without, Path.gone, Path.inAuth, Path.inSecurity, hf,
        auth_mentions_without, SecurityPatch.mentions]
  | serverName | verifyCertificate | alpn | clientFingerprint | publicKey | shortID =>
    cases hf : f .security <;> cases security <;> cases f .auth <;> cases auth <;>
      simp [NodePatch.mentions, NodePatch.without, Path.gone, Path.inAuth, Path.inSecurity, hf,
        security_mentions_without, AuthPatch.mentions]

theorem any_covers (f : DocPath → Bool) (path : Path) :
    (DocPath.all.any fun p => f p && p.covers (.node path)) =
      Path.gone (fun path => f (.node path)) path := by
  cases path <;> simp [DocPath.all, DocPath.covers, Path.gone, Path.inAuth, Path.inSecurity] <;>
    exact Bool.or_comm _ _

theorem mentions_without (d : Document) (f : DocPath → Bool) (q : DocPath) :
    (d.without f).mentions q =
      (d.mentions q && !DocPath.all.any fun p => f p && p.covers q) := by
  cases q with
  | name =>
    simp [Document.mentions, Document.without, isSome_ite, DocPath.all, DocPath.covers]
  | node path =>
    rw [any_covers]
    cases h : d.node with
    | none => simp only [Document.mentions, Document.without, h, map_none, any_none,
        Bool.false_and]
    | some n => simp only [Document.mentions, Document.without, h, map_some,
        any_some, node_mentions_without]

theorem mentions_restored (d : Document) (paths : List DocPath) (q : DocPath) :
    (d.restored paths).mentions q = (d.mentions q && !paths.any (·.covers q)) := by
  unfold Document.restored
  split_ifs with hnil
  · subst hnil
    simp only [any_nil, Bool.not_false, Bool.and_true]
  · have hany : (DocPath.all.any fun p => decide (p ∈ paths) && p.covers q) =
        paths.any (·.covers q) := by
      rw [Bool.eq_iff_iff, List.any_eq_true, List.any_eq_true]
      constructor
      · rintro ⟨p, -, hp⟩
        rw [Bool.and_eq_true, decide_eq_true_eq] at hp
        exact ⟨p, hp⟩
      · rintro ⟨p, hp, hcovers⟩
        exact ⟨p, p.mem_all, by simp only [hp, hcovers, decide_true, Bool.and_self]⟩
    rw [mentions_normalized, mentions_without, hany]

theorem any_covers_text (paths : List DocPath) (q : DocPath) :
    (paths.map DocPath.text).any (covers · q.text) = paths.any (·.covers q) := by
  rw [List.any_map]
  exact congrArg paths.any (funext fun p => covers_text p q)

theorem fields_restored (d : Document) (paths : List DocPath) :
    (d.restored paths).fields =
      d.fields.filter fun s => !(paths.map DocPath.text).any (covers · s) := by
  rw [fields_eq, fields_eq, ← insertionSort_filter, List.filter_map, List.filter_filter]
  congr 2
  refine filter_congr fun q _ => ?_
  rw [mentions_restored, Function.comp_apply, any_covers_text, Bool.and_comm]

theorem mem_fields (d : Document) (q : DocPath) : q.text ∈ d.fields ↔ d.mentions q = true := by
  rw [fields_eq, mem_insertionSort, List.mem_map_of_injective DocPath.text_injective,
    mem_filter]
  exact ⟨fun h => h.2, fun h => ⟨q.mem_all, h⟩⟩

theorem fields_known (d : Document) : ∀ s ∈ d.fields, s ∈ knownPaths := by
  intro s hs
  rw [fields_eq, mem_insertionSort] at hs
  obtain ⟨q, -, rfl⟩ := List.mem_map.mp hs
  exact List.mem_map_of_mem q.mem_all

theorem fields_nodup (d : Document) : d.fields.Nodup := by
  have hall : DocPath.all.Nodup := by decide
  rw [fields_eq]
  exact (perm_insertionSort _ _).nodup_iff.mpr
    ((hall.filter _).map DocPath.text_injective)

theorem empty_of_mentions (h : ∀ q, d.mentions q = false) : d.empty = true := by
  have hname : d.name = none := not_isSome_iff_eq_none.mp (by
    rw [Bool.not_eq_true]
    exact h .name)
  have hnode : nodePatchEmpty d.node = true := by
    cases hn : d.node with
    | none => rfl
    | some n =>
      have hpath (path : Path) : n.mentions path = false := by
        simpa only [Document.mentions, hn, any_some] using h (.node path)
      have hgroup {γ : Type} {x : Option γ} (hx : x.isSome = false) : x.isNone = true := by
        rw [isNone_iff_eq_none, ← not_isSome_iff_eq_none, hx]
        exact Bool.false_ne_true
      simp only [nodePatchEmpty, all_some, NodePatch.isEmpty, Bool.and_eq_true]
      exact ⟨⟨⟨⟨⟨hgroup (hpath .protocol), hgroup (hpath .endpoint)⟩, hgroup (hpath .auth)⟩,
        hgroup (hpath .transport)⟩, hgroup (hpath .security)⟩, hgroup (hpath .features)⟩
  rw [Document.empty, hname, hnode]
  rfl

theorem restore_fields (d : Document) :
    ∃ d', d.restore d.fields = .ok d' ∧ d'.empty = true := by
  obtain ⟨paths, hpaths⟩ := exists_docPaths (fields_known d)
  have hnodup : paths.Nodup := by
    have h := fields_nodup d
    rw [← hpaths] at h
    exact h.of_map DocPath.text
  refine ⟨d.restored paths, ?_, empty_of_mentions fun q => ?_⟩
  · rw [← hpaths]
    exact restore_eq d hnodup
  rw [mentions_restored, Bool.and_eq_false_iff]
  cases hq : d.mentions q with
  | false => exact Or.inl rfl
  | true =>
    have hmem : q ∈ paths := by
      rw [← List.mem_map_of_injective DocPath.text_injective, hpaths]
      exact (mem_fields d q).mpr hq
    have hself : q.covers q = true := by simp only [DocPath.covers, decide_true, Bool.true_or]
    refine Or.inr ?_
    rw [Bool.not_eq_false', List.any_eq_true]
    exact ⟨q, hmem, hself⟩

/-! ## The merged node -/

/-- The patch keeps the credential kind and the security mode of the node. -/
def KeepsVariants (p : NodePatch) (base : Node) : Prop :=
  (∀ a, p.auth = some a → a.kind = base.auth.kind) ∧
    ∀ s, p.security = some s → s.mode = base.security.mode

theorem KeepsVariants.kind (h : KeepsVariants p base) :
    (p.patched base).auth.kind = base.auth.kind := by
  cases ha : p.auth with
  | none => simp only [NodePatch.patched, ha, map_none, getD_none]
  | some a =>
    simp only [NodePatch.patched, ha, map_some, getD_some, AuthPatch.apply_kind]
    exact h.1 a ha

theorem KeepsVariants.mode (h : KeepsVariants p base) :
    (p.patched base).security.mode = base.security.mode := by
  cases hs : p.security with
  | none => simp only [NodePatch.patched, hs, map_none, getD_none]
  | some s =>
    simp only [NodePatch.patched, hs, map_some, getD_some, SecurityPatch.apply_mode]
    exact h.2 s hs

theorem content_gone (h : KeepsVariants (NodePatch.without f p) base)
    (hgone : Path.gone f path = true) :
    content ((NodePatch.without f p).patched base) path = content base path := by
  refine content_patched ?_ (fun _ => h.kind) fun _ => h.mode
  rw [node_mentions_without, hgone, Bool.not_true, Bool.and_false]

theorem authContent_without (hf : f path = false) (a : AuthPatch)
    (old : Authentication) :
    authContent ((AuthPatch.without f a).apply old) path = authContent (a.apply old) path := by
  cases hkind : a.kind <;> cases path <;>
    simp [AuthPatch.apply, AuthPatch.without, hkind, authContent, hf]

theorem securityContent_without (hf : f path = false) (s : SecurityPatch)
    (old : Security) :
    securityContent ((SecurityPatch.without f s).apply old) path =
      securityContent (s.apply old) path := by
  cases hmode : s.mode <;> cases path <;>
    simp [SecurityPatch.apply, SecurityPatch.without, hmode, securityContent, hf]

/-- A field that is not dropped keeps its value; a whole group does, if nothing below it is
dropped. -/
theorem content_kept (hgone : Path.gone f path = false)
    (hauth : path = .auth → ∀ q : Path, q.inAuth = true → f q = false)
    (hsecurity : path = .security → ∀ q : Path, q.inSecurity = true → f q = false) :
    content ((NodePatch.without f p).patched base) path = content (p.patched base) path := by
  obtain ⟨protocol, endpoint, auth, transport, security, features⟩ := p
  have hpath : f path = false := by
    simp only [Path.gone, Bool.or_eq_false_iff] at hgone
    exact hgone.1.1
  cases path with
  | protocol | endpoint | transport | features =>
    simp only [content, NodePatch.without, NodePatch.patched, hpath, Bool.false_eq_true, if_false]
  | auth =>
    have hsub := hauth rfl
    have hid (a : AuthPatch) : AuthPatch.without f a = a := by
      simp only [AuthPatch.without, hsub .method rfl, hsub .cipher rfl, hsub .password rfl,
        hsub .uuid rfl, hsub .username rfl, Bool.false_eq_true, if_false]
    simp only [content, NodePatch.without, NodePatch.patched, hpath, Bool.false_eq_true, if_false,
      Option.map_map, Function.comp_def, hid]
  | security =>
    have hsub := hsecurity rfl
    have hid (s : SecurityPatch) : SecurityPatch.without f s = s := by
      simp only [SecurityPatch.without, hsub .serverName rfl, hsub .verifyCertificate rfl,
        hsub .alpn rfl, hsub .clientFingerprint rfl, hsub .publicKey rfl, hsub .shortID rfl,
        Bool.false_eq_true, if_false]
    simp only [content, NodePatch.without, NodePatch.patched, hpath, Bool.false_eq_true, if_false,
      Option.map_map, Function.comp_def, hid]
  | password | uuid | username | method | cipher =>
    have hgroup : f .auth = false := by
      simp only [Path.gone, Path.inAuth, Bool.true_and, Bool.or_eq_false_iff] at hgone
      exact hgone.1.2
    cases auth with
    | none => simp only [content, Path.inAuth, if_true, NodePatch.without, NodePatch.patched,
        hgroup, Bool.false_eq_true, if_false, map_none, getD_none]
    | some a =>
      simp only [content, Path.inAuth, if_true, NodePatch.without, NodePatch.patched,
        hgroup, Bool.false_eq_true, if_false, map_some, getD_some]
      exact authContent_without hpath a base.auth
  | serverName | verifyCertificate | alpn | clientFingerprint | publicKey | shortID =>
    have hgroup : f .security = false := by
      simp only [Path.gone, Path.inSecurity, Bool.true_and, Bool.or_eq_false_iff] at hgone
      exact hgone.2
    cases security with
    | none => simp only [content, Path.inAuth, NodePatch.without, NodePatch.patched,
        hgroup, Bool.false_eq_true, if_false, map_none, getD_none]
    | some s =>
      simp only [content, Path.inAuth, NodePatch.without, NodePatch.patched,
        hgroup, Bool.false_eq_true, if_false, map_some, getD_some]
      exact securityContent_without hpath s base.security

theorem kind_kept (h : f .auth = false) :
    ((NodePatch.without f p).patched base).auth.kind = (p.patched base).auth.kind := by
  cases ha : p.auth with
  | none => simp only [NodePatch.patched, NodePatch.without, ha, h, Bool.false_eq_true, if_false,
      map_none, getD_none]
  | some a =>
    simp only [NodePatch.patched, NodePatch.without, ha, h, Bool.false_eq_true, if_false,
      map_some, getD_some, AuthPatch.apply_kind]
    rfl

theorem mode_kept (h : f .security = false) :
    ((NodePatch.without f p).patched base).security.mode = (p.patched base).security.mode := by
  cases hs : p.security with
  | none => simp only [NodePatch.patched, NodePatch.without, hs, h, Bool.false_eq_true, if_false,
      map_none, getD_none]
  | some s =>
    simp only [NodePatch.patched, NodePatch.without, hs, h, Bool.false_eq_true, if_false,
      map_some, getD_some, SecurityPatch.apply_mode]
    rfl

theorem node_without_nothing (n : NodePatch) : NodePatch.without (fun _ => false) n = n := by
  obtain ⟨protocol, endpoint, auth, transport, security, features⟩ := n
  cases auth <;> cases security <;> rfl

theorem noPatch_without (f : Path → Bool) : NodePatch.without f noPatch = noPatch := by
  simp [NodePatch.without, noPatch]

theorem restored_node (d : Document) (paths : List DocPath) :
    (d.restored paths).node.getD noPatch =
      NodePatch.without (fun path => DocPath.node path ∈ paths) (d.node.getD noPatch) := by
  unfold Document.restored
  split_ifs with hnil
  · subst hnil
    simp only [not_mem_nil, decide_false, node_without_nothing]
  · rw [normalized_node]
    cases h : d.node with
    | none => simp only [Document.without, h, map_none, getD_none, noPatch_without]
    | some n => simp only [Document.without, h, map_some, getD_some]

theorem restored_name (d : Document) (paths : List DocPath) :
    (d.restored paths).name = if DocPath.name ∈ paths then none else d.name := by
  unfold Document.restored
  split_ifs with hnil hname hname
  · simp [hnil] at hname
  · rfl
  · simp only [normalized_name, Document.without, hname, decide_true, if_true]
  · simp only [normalized_name, Document.without, hname, decide_false, Bool.false_eq_true,
      if_false]

def Restored (P : List String) (path : Path) : Prop :=
  P.any (covers · (DocPath.node path).text) = true

theorem restored_iff_gone (paths : List DocPath) (path : Path) :
    Restored (paths.map DocPath.text) path ↔
      Path.gone (fun path => DocPath.node path ∈ paths) path = true := by
  rw [Restored, any_covers_text, ← any_covers fun p => decide (p ∈ paths), List.any_eq_true,
    List.any_eq_true]
  constructor
  · rintro ⟨p, hp, hcovers⟩
    exact ⟨p, p.mem_all, by simp only [hp, hcovers, decide_true, Bool.and_self]⟩
  · rintro ⟨p, -, hp⟩
    rw [Bool.and_eq_true, decide_eq_true_eq] at hp
    exact ⟨p, hp⟩

section
variable (formats : Formats)

theorem merge_restored {node' : Node} {baseName name' : String} {fields' : List String}
    (h : merge formats base baseName (d.restored paths) = .ok (node', name', fields')) :
    (KeepsVariants ((d.restored paths).node.getD noPatch) base →
        ∀ path, Restored (paths.map DocPath.text) path → content node' path = content base path) ∧
      ("/name" ∈ paths.map DocPath.text → name' = baseName) ∧
      ∀ node name fields, merge formats base baseName d = .ok (node, name, fields) →
        (∀ path, ¬ Restored (paths.map DocPath.text) path →
          (∀ q ∈ paths.map DocPath.text, covers (DocPath.node path).text q = false) →
          content node' path = content node path) ∧
        (¬ Restored (paths.map DocPath.text) .auth → node'.auth.kind = node.auth.kind) ∧
        (¬ Restored (paths.map DocPath.text) .security →
          node'.security.mode = node.security.mode) ∧
        ("/name" ∉ paths.map DocPath.text → name' = name) := by
  obtain ⟨hpatched, -⟩ := patched_of_merge formats h
  obtain ⟨-, -, -, hname, -⟩ := (merge_eq_ok_iff formats _ _ _ _ _ _).mp h
  have hmem : "/name" ∈ paths.map DocPath.text ↔ DocPath.name ∈ paths :=
    List.mem_map_of_injective DocPath.text_injective (a := .name)
  rw [restored_node] at hpatched ⊢
  rw [restored_name] at hname
  subst hpatched
  refine ⟨fun hkeeps path hpath => content_gone hkeeps ((restored_iff_gone _ _).mp hpath), ?_, ?_⟩
  · intro hin
    rw [hname, if_pos (hmem.mp hin), getD_none]
  intro node name fields hmerge
  obtain ⟨rfl, -⟩ := patched_of_merge formats hmerge
  obtain ⟨-, -, -, hname', -⟩ := (merge_eq_ok_iff formats _ _ _ _ _ _).mp hmerge
  -- a dropped field of a group lies below the group
  have hbelow (path q : Path) (hcovers : (DocPath.node path).covers (.node q) = true)
      (hnone : ∀ s ∈ paths.map DocPath.text, covers (DocPath.node path).text s = false) :
      decide (DocPath.node q ∈ paths) = false := by
    rw [decide_eq_false_iff_not]
    intro hq
    have h := hnone _ (List.mem_map_of_mem hq)
    rw [covers_text, hcovers] at h
    cases h
  have hgone (path : Path) (hpath : ¬ Restored (paths.map DocPath.text) path) :
      Path.gone (fun path => DocPath.node path ∈ paths) path = false := by
    rw [restored_iff_gone, Bool.not_eq_true] at hpath
    exact hpath
  have hself (path : Path) (hpath : ¬ Restored (paths.map DocPath.text) path) :
      decide (DocPath.node path ∈ paths) = false := by
    have h := hgone path hpath
    simp only [Path.gone, Bool.or_eq_false_iff] at h
    exact h.1.1
  refine ⟨?_, fun hauth => kind_kept (hself _ hauth), fun hmode => mode_kept (hself _ hmode), ?_⟩
  · intro path hpath hnone
    refine content_kept (hgone path hpath) ?_ ?_
    · rintro rfl q hq
      exact hbelow .auth q (by simp only [DocPath.covers, hq, Bool.or_true]) hnone
    · rintro rfl q hq
      exact hbelow .security q (by simp only [DocPath.covers, hq, Bool.or_true]) hnone
  · intro hout
    rw [hname, if_neg (fun hin => hout (hmem.mpr hin)), hname']

/-- **Restoring gives the source back.** A list of distinct known paths is restored, in whatever
order, and leaves the other overridden fields. If the restored document merges and keeps the
credential kind and the security mode of the source, then each restored field has the source's
value; every other field has the value it has when the document itself is merged, and a group of
which only some fields are restored keeps its kind or mode. Restoring every overridden field leaves
an empty document. Any other list of paths is refused. -/
theorem restore_laws (d : Document) :
    (∀ P : List String, (∀ s ∈ P, s ∈ knownPaths) → P.Nodup →
      ∃ d', d.restore P = .ok d' ∧ (∀ P', P'.Perm P → d.restore P' = .ok d') ∧
        d'.fields = d.fields.filter (fun s => !P.any (covers · s)) ∧
        ∀ base baseName node' name' fields',
          merge formats base baseName d' = .ok (node', name', fields') →
          (KeepsVariants (d'.node.getD noPatch) base →
            ∀ path, Restored P path → content node' path = content base path) ∧
          ("/name" ∈ P → name' = baseName) ∧
          ∀ node name fields, merge formats base baseName d = .ok (node, name, fields) →
            (∀ path, ¬ Restored P path → (∀ q ∈ P, covers (DocPath.node path).text q = false) →
              content node' path = content node path) ∧
            (¬ Restored P .auth → node'.auth.kind = node.auth.kind) ∧
            (¬ Restored P .security → node'.security.mode = node.security.mode) ∧
            ("/name" ∉ P → name' = name)) ∧
      (∃ d', d.restore d.fields = .ok d' ∧ d'.empty = true) ∧
      ∀ P : List String, ¬ ((∀ s ∈ P, s ∈ knownPaths) ∧ P.Nodup) →
        d.restore P = .error .restore := by
  refine ⟨?_, restore_fields d, fun P => restore_error d⟩
  intro P hknown hnodup
  obtain ⟨paths, rfl⟩ := exists_docPaths hknown
  have hpaths : paths.Nodup := hnodup.of_map DocPath.text
  refine ⟨d.restored paths, restore_eq d hpaths, ?_, fields_restored d paths, ?_⟩
  · intro P' hperm
    obtain ⟨paths', rfl⟩ := exists_docPaths fun s hs => hknown s (hperm.mem_iff.mp hs)
    have hperm' := (map_perm_map_iff DocPath.text_injective).mp hperm
    rw [restore_eq d (hperm'.nodup_iff.mpr hpaths), restored_perm d hperm']
  · intro base baseName node' name' fields' hmerge
    exact merge_restored formats hmerge

end

/-- Restoring the username alone brings the source's username back. -/
theorem restore_laws_username :
    ∃ d' node' name' fields', usernameOverride.restore ["/auth/username"] = .ok d' ∧
      merge plainFormats socksNode "proxy" d' = .ok (node', name', fields') ∧
      content node' .username = some (.text "source-user") := by
  obtain ⟨d', hd', -, -, hmerge⟩ := (restore_laws plainFormats usernameOverride).1
    ["/auth/username"] (by decide) (by decide)
  have hrestored : usernameOverride.restore ["/auth/username"] =
      .ok ⟨1, none, some { noPatch with
        auth := some ⟨.usernamePassword, none, none, .absent, .absent, .absent⟩ }⟩ := by
    decide
  rw [hrestored] at hd'
  cases hd'
  have hmerged : merge plainFormats socksNode "proxy" ⟨1, none, some { noPatch with
      auth := some ⟨.usernamePassword, none, none, .absent, .absent, .absent⟩ }⟩ =
      .ok (socksNode, "proxy", ["/auth"]) := by
    decide
  refine ⟨_, _, _, _, hrestored, hmerged, ?_⟩
  refine (hmerge _ _ _ _ _ hmerged).1 ⟨?_, ?_⟩ .username rfl
  · rintro a ⟨⟩
    rfl
  · rintro s ⟨⟩

end ProxyLoom.Override
