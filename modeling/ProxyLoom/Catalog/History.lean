import ProxyLoom.Catalog.Transaction
import ProxyLoom.Lib.Machine

/-!
# Histories of a resource

A resource is created once and then edited, revoked and deleted in any order. A publication keeps
the security epoch of a resource and not its credentials, so the epoch has to tell them apart over
the whole history.
-/

namespace ProxyLoom.Catalog

open IR Except

inductive Operation where
  | apply (input : Input)
  | revoke
  | delete
deriving DecidableEq, Repr

namespace Operation

def exec (schema : Schema) (old : Resource) : Operation → Except CatalogError Resource
  | .apply input => Catalog.apply schema old input
  | .revoke => invalidate schema old false
  | .delete => invalidate schema old true

/-- The operation would raise the security epoch of the resource. -/
def raises (old : Resource) : Operation → Bool
  | .apply input => revokes old input
  | .revoke | .delete => true

end Operation

/-- The histories of the resources of a catalog, each from its creation. -/
def histories (schema : Schema) : Machine Resource Operation where
  init r := ∃ id scope input, newResource schema id scope input = .ok r
  step old op next := op.exec schema old = .ok next

/-! ## One operation -/

section

variable {schema : Schema} {old next r : Resource} {op : Operation} {input : Input}

theorem apply_bounds (h : apply schema old input = .ok next) :
    old.metadata.revision ≠ maxInt64 ∧
      (revokes old input = true → old.metadata.securityEpoch ≠ maxInt64) := by
  rw [apply, ite_error_eq_ok_iff] at h
  obtain ⟨_, -, h⟩ := of_bind h.2
  rw [ite_error_eq_ok_iff, Bool.or_eq_true, not_or, decide_eq_true_eq] at h
  obtain ⟨_, -, hnext⟩ := of_bind h.2
  obtain ⟨_, hepoch, -⟩ := of_bind hnext
  refine ⟨h.1.1, fun hrevokes => ?_⟩
  rw [withEpoch, if_pos hrevokes, ite_error_eq_ok_iff] at hepoch
  exact hepoch.1

theorem invalidate_eq {disable : Bool} (h : invalidate schema old disable = .ok next) :
    old.metadata.revision ≠ maxInt64 ∧ old.metadata.securityEpoch ≠ maxInt64 ∧
      next.metadata.revision = old.metadata.revision + 1 ∧
      next.metadata.securityEpoch = old.metadata.securityEpoch + 1 := by
  obtain ⟨-, -, hrevision, hepoch, -⟩ := invalidate_ok h
  rw [invalidate, ite_error_eq_ok_iff, ite_error_eq_ok_iff, Bool.or_eq_true, not_or,
    decide_eq_true_eq, decide_eq_true_eq] at h
  exact ⟨h.2.1.1, h.2.1.2, hrevision, hepoch⟩

/-- An operation that leaves the epoch is an edit that disables nothing. -/
structure Quiet (old : Resource) (op : Operation) (next : Resource) : Prop where
  edit : ∃ input, op = .apply input
  enabled : old.metadata.enabled = true → next.metadata.enabled = true

/-- What one operation does to revision and epoch, and when it is quiet. -/
structure Advances (old : Resource) (op : Operation) (next : Resource) : Prop where
  revision : next.metadata.revision = old.metadata.revision + 1
  epoch : next.metadata.securityEpoch = old.metadata.securityEpoch + if op.raises old then 1 else 0
  revision_ne : old.metadata.revision ≠ maxInt64
  epoch_ne : op.raises old = true → old.metadata.securityEpoch ≠ maxInt64
  quiet : op.raises old = false → Quiet old op next

theorem apply_advances (h : apply schema old input = .ok next) :
    Advances old (.apply input) next := by
  obtain ⟨-, rfl⟩ := apply_ok h
  obtain ⟨hrevision, hepoch⟩ := apply_bounds h
  have hraises : (Operation.apply input).raises old = revokes old input := rfl
  by_cases hrevokes : revokes old input = true
  · rw [if_pos hrevokes]
    refine ⟨rfl, ?_, hrevision, hepoch, fun hquiet => ?_⟩
    · rw [hraises, if_pos hrevokes]
      rfl
    · rw [hraises, hrevokes] at hquiet
      cases hquiet
  · rw [if_neg hrevokes]
    refine ⟨rfl, ?_, hrevision, hepoch, fun _ => ⟨⟨input, rfl⟩, fun henabled => ?_⟩⟩
    · rw [hraises, if_neg hrevokes]
      rfl
    · show input.enabled = true
      unfold revokes at hrevokes
      rw [henabled, Bool.or_eq_true, not_or, Bool.true_and, Bool.not_eq_true', Bool.not_eq_false]
        at hrevokes
      exact hrevokes.2

theorem invalidate_advances {disable : Bool} (hraises : op.raises old = true)
    (h : invalidate schema old disable = .ok next) : Advances old op next := by
  obtain ⟨hrevision, hepoch, hnext, hraised⟩ := invalidate_eq h
  refine ⟨hnext, ?_, hrevision, fun _ => hepoch, fun hquiet => ?_⟩
  · rw [if_pos hraises, hraised]
  · rw [hraises] at hquiet
    cases hquiet

/-- What one operation does to the revision, the epoch and the credentials. -/
theorem Operation.exec_ok (h : op.exec schema old = .ok next) :
    Advances old op next ∧ Succeeds next old := by
  cases op with
  | apply input => exact ⟨apply_advances h, apply_succeeds h⟩
  | revoke => exact ⟨invalidate_advances rfl h, invalidate_succeeds h⟩
  | delete => exact ⟨invalidate_advances rfl h, invalidate_succeeds h⟩

theorem Operation.exec_max
    (h : old.metadata.revision = maxInt64 ∨
      (old.metadata.securityEpoch = maxInt64 ∧ op.raises old = true)) :
    op.exec schema old ≠ .ok next := by
  intro hok
  have hadvances := (Operation.exec_ok hok).1
  obtain hrevision | ⟨hepoch, hraises⟩ := h
  · exact hadvances.revision_ne hrevision
  · exact hadvances.epoch_ne hraises hepoch

/-! ## Whole histories -/

theorem newResource_first {id scope : ID}
    (h : newResource schema id scope input = .ok r) :
    r.metadata.revision = 1 ∧ r.metadata.securityEpoch = 1 := by
  rw [newResource, ite_error_eq_ok_iff] at h
  rw [(canonical_eq_ok h.2).1]
  exact ⟨rfl, rfl⟩

/-- **No number wraps.** -/
theorem Reach.withinInt64 (h : (histories schema).Reach r) :
    r.metadata.revision ≤ maxInt64 ∧ r.metadata.securityEpoch ≤ maxInt64 := by
  refine Machine.Reach.invariant
    (P := fun r => r.metadata.revision ≤ maxInt64 ∧ r.metadata.securityEpoch ≤ maxInt64)
    ?_ ?_ h
  · rintro s ⟨id, scope, input, hnew⟩
    obtain ⟨hrevision, hepoch⟩ := newResource_first hnew
    rw [hrevision, hepoch]
    exact ⟨by decide, by decide⟩
  · intro s op t _ hs hstep
    have hadvances := (Operation.exec_ok hstep).1
    have hrevision := hadvances.revision_ne
    have hepoch := hadvances.epoch_ne
    rw [hadvances.revision, hadvances.epoch]
    split_ifs with hraises
    · have := hepoch hraises
      omega
    · omega

theorem Run.succeeds (h : (histories schema).Run old next) : Succeeds next old := by
  induction h with
  | refl => exact Succeeds.refl _
  | step _ hstep ih => exact ih.trans (Operation.exec_ok hstep).2

theorem quiet_between {x y : Resource} (hbefore : (histories schema).Run old x)
    (hstep : (histories schema).step x op y) (hafter : (histories schema).Run y next)
    (hepoch : old.metadata.securityEpoch = next.metadata.securityEpoch) : Quiet x op y := by
  have hadvances := (Operation.exec_ok hstep).1
  have hx : old.metadata.securityEpoch ≤ x.metadata.securityEpoch := (Run.succeeds hbefore).stamp.1
  have hy : y.metadata.securityEpoch ≤ next.metadata.securityEpoch := (Run.succeeds hafter).stamp.1
  apply hadvances.quiet
  by_contra hraises
  have hxy := hadvances.epoch
  rw [if_pos (by simpa using hraises)] at hxy
  omega

end

/-- **Security epochs over whole histories.** Every operation makes the next revision; the epoch
never decreases; two points with the same epoch have the same credentials and nothing was disabled,
revoked or deleted between them; and an operation that would raise the largest revision or epoch
fails. -/
theorem history_epoch (schema : Schema) :
    (∀ r, (histories schema).init r → r.metadata.revision = 1 ∧ r.metadata.securityEpoch = 1) ∧
    (∀ old op next, (histories schema).step old op next →
      next.metadata.revision = old.metadata.revision + 1) ∧
    (∀ r₁ r₂, (histories schema).Reach r₁ → (histories schema).Run r₁ r₂ →
      r₁.metadata.securityEpoch ≤ r₂.metadata.securityEpoch ∧
      (r₁.metadata.securityEpoch = r₂.metadata.securityEpoch →
        credentials r₁.payload = credentials r₂.payload ∧
        ∀ x op y, (histories schema).Run r₁ x → (histories schema).step x op y →
          (histories schema).Run y r₂ →
          op ≠ .revoke ∧ op ≠ .delete ∧
            ¬(x.metadata.enabled = true ∧ y.metadata.enabled = false))) ∧
    (∀ r, (histories schema).Reach r →
      r.metadata.revision ≤ maxInt64 ∧ r.metadata.securityEpoch ≤ maxInt64) ∧
    (∀ old op next, (old.metadata.revision = maxInt64 ∨
        (old.metadata.securityEpoch = maxInt64 ∧ op.raises old = true)) →
      ¬(histories schema).step old op next) := by
  refine ⟨?_, fun old op next h => (Operation.exec_ok h).1.revision, ?_,
    fun r h => Reach.withinInt64 h, fun old op next h => Operation.exec_max h⟩
  · rintro r ⟨id, scope, input, hnew⟩
    exact newResource_first hnew
  · intro r₁ r₂ _ hrun
    have hsucceeds := Run.succeeds hrun
    refine ⟨hsucceeds.stamp.1, fun hepoch => ⟨Stamped.secret_eq hsucceeds.stamp hepoch, ?_⟩⟩
    intro x op y hbefore hstep hafter
    have hquiet := quiet_between hbefore hstep hafter hepoch
    obtain ⟨input, rfl⟩ := hquiet.edit
    refine ⟨nofun, nofun, fun ⟨hon, hoff⟩ => ?_⟩
    rw [hquiet.enabled hon] at hoff
    cases hoff

/-! ## A history -/

def passwordNode (password : Secret) : Node where
  schemaVersion := 1
  protocol := .shadowsocks
  endpoint := ⟨"example.org", 443⟩
  auth := .methodPassword .aes128GCM password
  transport := .nativeTCP
  security := .noSecurity
  features := ⟨none, none, none⟩
  origin := none

def nodeRevision (revision epoch : ℕ) (name password : String) : Resource where
  metadata := ⟨"00000000-0000-4000-8000-000000000001", "00000000-0000-4000-8000-00000000000a",
    .node, revision, 1, name, [], true, epoch⟩
  payload := .node (passwordNode password)

/-- A node is created, renamed and given a new password: only the password raises the epoch. -/
theorem history_epoch_rotation :
    ∃ created renamed rotated : Resource,
      (histories hostnameSchema).Reach created ∧ (histories hostnameSchema).Run created renamed ∧
      (histories hostnameSchema).Run renamed rotated ∧
      created.metadata.securityEpoch = renamed.metadata.securityEpoch ∧
      credentials created.payload = credentials renamed.payload ∧
      renamed.metadata.securityEpoch < rotated.metadata.securityEpoch ∧
      rotated.metadata.revision = 3 := by
  have hcreated : (histories hostnameSchema).Reach (nodeRevision 1 1 "created" "old") :=
    .init ⟨"00000000-0000-4000-8000-000000000001", "00000000-0000-4000-8000-00000000000a",
      ⟨"created", [], true, .node (passwordNode "old")⟩, by decide⟩
  have hrenamed : (histories hostnameSchema).step (nodeRevision 1 1 "created" "old")
      (.apply ⟨"renamed", [], true, .node (passwordNode "old")⟩)
      (nodeRevision 2 1 "renamed" "old") := by
    show Catalog.apply _ _ _ = _
    decide
  have hrotated : (histories hostnameSchema).step (nodeRevision 2 1 "renamed" "old")
      (.apply ⟨"renamed", [], true, .node (passwordNode "new")⟩)
      (nodeRevision 3 2 "renamed" "new") := by
    show Catalog.apply _ _ _ = _
    decide
  have hfirst := (.step (.refl _) hrenamed :
    (histories hostnameSchema).Run _ (nodeRevision 2 1 "renamed" "old"))
  obtain ⟨-, hnext, hepochs, -, -⟩ := history_epoch hostnameSchema
  exact ⟨_, _, _, hcreated, hfirst, .step (.refl _) hrotated, rfl,
    ((hepochs _ _ hcreated hfirst).2 rfl).1, by decide, hnext _ _ _ hrotated⟩

end ProxyLoom.Catalog
