import Mathlib.Data.List.Infix

/-!
# Programs that only allocate

A heap is the list of its cells and an address is a position in it. A program that never writes
through a pointer extends the heap it starts from, so whatever could be read before can still be
read, with the same result. `Grows P x Q` is the triple of such a program, `Reads` says that a
partial reader of the heap is not disturbed by growth, and a reader's result is what the triples
are mostly about.
-/

namespace ProxyLoom.Memory

abbrev Addr := ℕ

abbrev Heap (κ : Type) := List κ

abbrev Prog (κ α : Type) := StateM (Heap κ) α

section
variable {κ α β : Type}

/-! ## Readers -/

/-- What `read` finds in a heap it also finds in every larger one. -/
def Reads (read : Heap κ → Option β) : Prop :=
  ∀ ⦃h h' : Heap κ⦄, h <+: h' → ∀ v, read h = some v → read h' = some v

/-- The cell at an address, seen through `view`. -/
def deref (view : κ → Option β) (a : Addr) (h : Heap κ) : Option β := h[a]?.bind view

/-- The cell behind a pointer that may be nil. -/
def derefPointer (view : κ → Option β) (p : Option Addr) (h : Heap κ) : Option (Option β) :=
  match p with
  | none => some none
  | some a => (deref view a h).map some

theorem Reads.const (v : Option β) : Reads fun _ : Heap κ => v := by
  intro h h' _ w hw
  exact hw

theorem Reads.bind {read : Heap κ → Option α} {next : α → Heap κ → Option β}
    (hread : Reads read) (hnext : ∀ a, Reads (next a)) :
    Reads fun h => (read h).bind fun a => next a h := by
  intro h h' hle v hv
  obtain ⟨a, ha, hv⟩ := Option.bind_eq_some_iff.mp hv
  exact Option.bind_eq_some_iff.mpr ⟨a, hread hle a ha, hnext a hle v hv⟩

theorem Reads.map {read : Heap κ → Option α} (f : α → β) (hread : Reads read) :
    Reads fun h => (read h).map f := by
  intro h h' hle v hv
  obtain ⟨a, ha, rfl⟩ := Option.map_eq_some_iff.mp hv
  exact Option.map_eq_some_iff.mpr ⟨a, hread hle a ha, rfl⟩

theorem Reads.cell (a : Addr) : Reads fun h : Heap κ => h[a]? := by
  rintro h h' ⟨more, rfl⟩ v hv
  obtain ⟨hlt, -⟩ := List.getElem?_eq_some_iff.mp hv
  exact (List.getElem?_append_left hlt).trans hv

theorem Reads.deref (view : κ → Option β) (a : Addr) : Reads (deref view a) :=
  (Reads.cell a).bind fun c => Reads.const (view c)

theorem Reads.derefPointer (view : κ → Option β) (p : Option Addr) :
    Reads (derefPointer view p) := by
  cases p with
  | none => exact Reads.const _
  | some a => exact (Reads.deref view a).map some

/-! ## Triples -/

def Stable (R : Heap κ → Prop) : Prop := ∀ ⦃h h' : Heap κ⦄, h <+: h' → R h → R h'

theorem Stable.and {R S : Heap κ → Prop} (hR : Stable R) (hS : Stable S) :
    Stable fun h => R h ∧ S h :=
  fun _ _ hle h => ⟨hR hle h.1, hS hle h.2⟩

theorem Reads.stable {read : Heap κ → Option β} (hread : Reads read) (v : β) :
    Stable fun h => read h = some v :=
  fun _ _ hle h => hread hle v h

/-- From a heap that meets `P` the program only adds cells, and its result and final heap meet
`Q`. -/
def Grows (P : Heap κ → Prop) (x : Prog κ α) (Q : α → Heap κ → Prop) : Prop :=
  ∀ h, P h → h <+: (x.run h).2 ∧ Q (x.run h).1 (x.run h).2

namespace Grows

variable {P P' R : Heap κ → Prop} {x : Prog κ α} {f : α → Prog κ β} {Q Q' : α → Heap κ → Prop}
  {S : β → Heap κ → Prop}

protected theorem pure {a : α} (h : ∀ m, P m → Q a m) : Grows P (pure a) Q :=
  fun m hm => ⟨List.prefix_rfl, h m hm⟩

protected theorem bind (hx : Grows P x Q) (hf : ∀ a, Grows (Q a) (f a) S) :
    Grows P (x >>= f) S := by
  intro m hm
  obtain ⟨hle, hq⟩ := hx m hm
  obtain ⟨hle', hs⟩ := hf _ _ hq
  exact ⟨hle.trans hle', hs⟩

theorem mono (hx : Grows P x Q) (hp : ∀ m, P' m → P m) (hq : ∀ a m, Q a m → Q' a m) :
    Grows P' x Q' := by
  intro m hm
  obtain ⟨hle, h⟩ := hx m (hp m hm)
  exact ⟨hle, hq _ _ h⟩

theorem frame (hR : Stable R) (hx : Grows P x Q) :
    Grows (fun m => P m ∧ R m) x fun a m => Q a m ∧ R m := by
  intro m hm
  obtain ⟨hle, h⟩ := hx m hm.1
  exact ⟨hle, h, hR hle hm.2⟩

/-- A program without precondition, run where `R` holds, followed by one that uses both. -/
theorem seq (hR : Stable R) (hx : Grows (fun _ => True) x Q)
    (hf : ∀ a, Grows (fun m => Q a m ∧ R m) (f a) S) : Grows R (x >>= f) S :=
  ((hx.frame hR).bind hf).mono (fun _ h => ⟨trivial, h⟩) fun _ _ h => h

theorem from_heap (h : ∀ m, P m → Grows (fun m' => m' = m) x Q) : Grows P x Q :=
  fun m hm => h m hm m rfl

theorem get {g : Heap κ → Prog κ β} (h : ∀ m, P m → Grows (fun m' => m' = m) (g m) S) :
    Grows P (MonadState.get >>= g) S :=
  fun m hm => h m hm m rfl

end Grows

/-! ## Allocation -/

def alloc (c : κ) : Prog κ Addr := fun h => (h.length, h ++ [c])

theorem alloc_cell (c : κ) : Grows (fun _ => True) (alloc c) fun a m => m[a]? = some c :=
  fun m _ => ⟨List.prefix_append m [c], List.getElem?_concat_length⟩

theorem alloc_deref (view : κ → Option β) {c : κ} {v : β} (hc : view c = some v) :
    Grows (fun _ => True) (alloc c) fun a m => deref view a m = some v := by
  refine (alloc_cell c).mono (fun _ h => h) fun a m h => ?_
  rw [deref, h]
  exact hc

def clonePointer (cell : β → κ) : Option β → Prog κ (Option Addr)
  | none => pure none
  | some v => some <$> alloc (cell v)

theorem clonePointer_deref (view : κ → Option β) (cell : β → κ)
    (hview : ∀ v, view (cell v) = some v) (v : Option β) :
    Grows (fun _ => True) (clonePointer cell v) fun p m => derefPointer view p m = some v := by
  cases v with
  | none => exact Grows.pure fun _ _ => rfl
  | some v =>
    refine Grows.bind (alloc_deref view (hview v)) fun a => Grows.pure fun m h => ?_
    simp only [derefPointer, h, Option.map_some]

end

end ProxyLoom.Memory
