import Mathlib.Data.List.Chain
import Mathlib.Data.List.Nodup
import Mathlib.Data.List.Perm.Subperm
import Mathlib.Logic.Function.Basic
import Mathlib.Logic.Relation

/-!
# Cycles of a partial function

A search with three colours over nodes that have at most one successor each. The nodes it has
entered and not left are on a stack; when a successor is among them, the part of the stack from
there on is a cycle. -/

namespace ProxyLoom.Successor

open List

variable {α : Type} {next : α → Option α} {before behind : List α} {a b : α}

def Step (next : α → Option α) (a b : α) : Prop := next a = some b

def OnCycle (next : α → Option α) (a : α) : Prop := Relation.TransGen (Step next) a a

/-! ## Paths -/

theorem mem_of_transGen {S : α → Prop} (hclosed : ∀ a b, S a → Step next a b → S b)
    (hfirst : ∀ c, Step next a c → S c) (h : Relation.TransGen (Step next) a b) : S b := by
  induction h with
  | single h => exact hfirst _ h
  | tail _ h ih => exact hclosed _ _ ih h

theorem step_of_path (hpath : (before ++ a :: behind).IsChain (Step next))
    (h : Step next a b) :
    (∃ rest, behind = b :: rest) ∨ behind = [] := by
  cases behind with
  | nil => exact .inr rfl
  | cons c rest =>
    have hc : Step next a c := (isChain_append.mp hpath).2.1.rel
    rw [Step, h] at hc
    cases hc
    exact .inl ⟨rest, rfl⟩

/-- A path that ends, or leads to nodes off the path that never come back, has no node on a cycle
before the point where it ends. -/
theorem not_onCycle_of_path {S : α → Prop}
    (hpath : (before ++ a :: behind).IsChain (Step next)) (hnodup : (before ++ a :: behind).Nodup)
    (hclosed : ∀ x y, S x → Step next x y → S y) (hoff : ¬ S a)
    (hlast : ∀ x y, (a :: behind).getLast? = some x → Step next x y → y ∈ behind ∨ S y) :
    ¬ OnCycle next a := by
  intro hcycle
  have ha : a ∉ behind := (nodup_cons.mp (nodup_append.mp hnodup).2.1).1
  have hmem : a ∈ behind ∨ S a := by
    refine mem_of_transGen (S := fun x => x ∈ behind ∨ S x) ?_ ?_ hcycle
    · rintro x y (hx | hx) hstep
      · obtain ⟨l, r, rfl⟩ := append_of_mem hx
        have hpath' : ((before ++ a :: l) ++ x :: r).IsChain (Step next) := by
          rw [append_assoc]
          exact hpath
        rcases step_of_path hpath' hstep with ⟨rest, rfl⟩ | rfl
        · exact .inl (mem_append_right _ (mem_cons_of_mem _ mem_cons_self))
        · refine hlast x y ?_ hstep
          rw [← cons_append, List.getLast?_append, List.getLast?_singleton]
          rfl
      · exact .inr (hclosed x y hx hstep)
    · intro y hstep
      rcases step_of_path hpath hstep with ⟨rest, rfl⟩ | rfl
      · exact .inl mem_cons_self
      · exact hlast a y rfl hstep
  exact hmem.elim ha hoff

theorem reach_of_path (hpath : (a :: behind).IsChain (Step next)) (hb : b ∈ behind) :
    Relation.TransGen (Step next) a b := by
  induction behind generalizing a with
  | nil => cases hb
  | cons c rest ih =>
    have hstep : Step next a c := hpath.rel
    rcases mem_cons.mp hb with rfl | hb
    · exact .single hstep
    · exact .head hstep (ih hpath.tail hb)

/-- If the end of a path leads back to one of its nodes, the nodes from there on are on a cycle. -/
theorem onCycle_of_loop {loop : List α} {x : α} (hpath : (before ++ loop).IsChain (Step next))
    (hhead : loop.head? = some a) (hlast : loop.getLast? = some b) (hback : Step next b a)
    (hx : x ∈ loop) : OnCycle next x := by
  have hloop : loop.IsChain (Step next) := (isChain_append.mp hpath).2.1
  obtain ⟨l, r, rfl⟩ := append_of_mem hx
  -- from `x` to the end of the loop, back to its head, and on to `x`
  have hend : Relation.ReflTransGen (Step next) x b := by
    rw [List.getLast?_append_of_ne_nil _ (cons_ne_nil x r)] at hlast
    cases r with
    | nil =>
      cases hlast
      exact .refl
    | cons c r =>
      refine (reach_of_path (isChain_append.mp hloop).2.1 ?_).to_reflTransGen
      rw [List.getLast?_cons_cons] at hlast
      exact mem_of_getLast? hlast
  have hstart : Relation.ReflTransGen (Step next) a x := by
    cases l with
    | nil =>
      cases hhead
      exact .refl
    | cons c l =>
      cases hhead
      exact (reach_of_path hloop (by simp)).to_reflTransGen
  exact Relation.TransGen.trans_left (Relation.TransGen.tail' hend hback) hstart

/-! ## The search -/

inductive Color where
  | white | grey | black
deriving DecidableEq, Repr

structure Search (α : Type) where
  color : α → Color
  /-- The nodes that were entered and not left, in this order. -/
  stack : List α
  found : List α

section
variable [DecidableEq α] {nodes : List α} {s : Search α} {i j : α} {new : List α}

def Search.enter (s : Search α) (i : α) : Search α :=
  { s with color := Function.update s.color i .grey, stack := s.stack ++ [i] }

theorem Search.enter_color (s : Search α) (i x : α) :
    (s.enter i).color x = if x = i then .grey else s.color x := Function.update_apply _ _ _ _

theorem Search.enter_stack (s : Search α) (i : α) : (s.enter i).stack = s.stack ++ [i] := rfl

def Search.leave (s : Search α) (i : α) : Search α :=
  { s with color := Function.update s.color i .black, stack := s.stack.dropLast }

def Search.report (s : Search α) (i : α) : Search α :=
  { s with found := s.found ++ s.stack.drop (s.stack.idxOf i) }

/-- Visit a white node, with so many nested visits at most. -/
def visit (next : α → Option α) : ℕ → α → Search α → Option (Search α)
  | 0, _, _ => none
  | depth + 1, i, s =>
    match next i with
    | none => some ((s.enter i).leave i)
    | some j =>
      match (s.enter i).color j with
      | .white => (visit next depth j (s.enter i)).map fun s => s.leave i
      | .grey => some (((s.enter i).report j).leave i)
      | .black => some ((s.enter i).leave i)

def search (next : α → Option α) (depth : ℕ) (nodes : List α) (s : Search α) :
    Option (Search α) :=
  nodes.foldlM (fun s i => if s.color i = .white then visit next depth i s else some s) s

def Search.start : Search α := ⟨fun _ => .white, [], []⟩

def loopOf (next : α → Option α) (path : List α) : List α :=
  match path.getLast?.bind next with
  | none => []
  | some j => if j ∈ path then path.drop (path.idxOf j) else []

/-- A search that is about to enter a white node: what is grey is on the stack, and the stack is a
path to the node. -/
structure Enters (next : α → Option α) (nodes : List α) (s : Search α) (i : α) : Prop where
  grey : ∀ x, s.color x = .grey ↔ x ∈ s.stack
  white : s.color i = .white
  path : (s.stack ++ [i]).IsChain (Step next)
  nodup : (s.stack ++ [i]).Nodup
  inside : ∀ x ∈ s.stack ++ [i], x ∈ nodes

/-- What a visit has done: it followed a path of white nodes from the given one on. -/
structure Visited (next : α → Option α) (s : Search α) (i : α) (s' : Search α) (new : List α) :
    Prop where
  head : new.head? = some i
  path : (s.stack ++ new).IsChain (Step next)
  nodup : (s.stack ++ new).Nodup
  white : ∀ x ∈ new, s.color x = .white
  ends : ∀ x y, new.getLast? = some x → Step next x y → y ∈ s.stack ++ new ∨ s.color y = .black
  stack : s'.stack = s.stack
  color : ∀ x, s'.color x = if x ∈ new then .black else s.color x
  found : s'.found = s.found ++ loopOf next (s.stack ++ new)

theorem Enters.enter (h : Enters next nodes s i) (hstep : Step next i j) (hj : j ∈ nodes)
    (hwhite : (s.enter i).color j = .white) :
    Enters next nodes (s.enter i) j := by
  have hgrey : ∀ x, (s.enter i).color x = .grey ↔ x ∈ (s.enter i).stack := by
    intro x
    show Function.update s.color i .grey x = .grey ↔ x ∈ s.stack ++ [i]
    rw [mem_append, mem_singleton]
    by_cases hx : x = i
    · subst hx
      simp
    · rw [Function.update_of_ne hx, h.grey x]
      simp [hx]
  have hnew : j ∉ s.stack ++ [i] := by
    intro hin
    have := (hgrey j).mpr hin
    rw [hwhite] at this
    cases this
  refine ⟨hgrey, hwhite, ?_, ?_, ?_⟩
  · show ((s.stack ++ [i]) ++ [j]).IsChain (Step next)
    refine isChain_append.mpr ⟨h.path, isChain_singleton _, ?_⟩
    intro x hx y hy
    simp at hx hy
    rw [← hx, ← hy]
    exact hstep
  · show ((s.stack ++ [i]) ++ [j]).Nodup
    refine nodup_append.mpr ⟨h.nodup, nodup_singleton j, ?_⟩
    rintro x hx y hy rfl
    rw [mem_singleton.mp hy] at hx
    exact hnew hx
  · intro x hx
    rcases mem_append.mp hx with hx | hx
    · exact h.inside x hx
    · rw [mem_singleton.mp hx]
      exact hj

theorem Enters.leaf {nodes : List α} {s : Search α} (h : Enters next nodes s i) {f : List α}
    (hfound : f = s.found ++ loopOf next (s.stack ++ [i]))
    (hends : ∀ y, Step next i y → y ∈ s.stack ++ [i] ∨ s.color y = .black) :
    Visited next s i (Search.leave { s.enter i with found := f } i) [i] where
  head := rfl
  path := h.path
  nodup := h.nodup
  white x hx := by
    rw [mem_singleton.mp hx]
    exact h.white
  ends x y hx hstep := by
    cases hx
    exact hends y hstep
  stack := dropLast_concat
  color x := by
    show Function.update (Function.update s.color i .grey) i .black x = _
    rw [Function.update_idem, Function.update_apply]
    simp only [mem_singleton]
  found := hfound

theorem Visited.leave {s' : Search α}
    (h : Visited next (s.enter i) j s' new) (hwhite : s.color i = .white) :
    Visited next s i (s'.leave i) (i :: new) where
  head := rfl
  path := by
    have := h.path
    rwa [Search.enter_stack, append_assoc] at this
  nodup := by
    have := h.nodup
    rwa [Search.enter_stack, append_assoc] at this
  white x hx := by
    rcases mem_cons.mp hx with rfl | hx
    · exact hwhite
    · have hcolor := h.white x hx
      rw [Search.enter_color] at hcolor
      split_ifs at hcolor
      exact hcolor
  ends x y hx hstep := by
    have hnew : new.getLast? = some x := by
      cases new with
      | nil => exact absurd h.head (by simp)
      | cons a new =>
        rw [List.getLast?_cons_cons] at hx
        exact hx
    rcases h.ends x y hnew hstep with hy | hy
    · rw [Search.enter_stack, append_assoc] at hy
      exact .inl hy
    · rw [Search.enter_color] at hy
      split_ifs at hy
      exact .inr hy
  stack := by
    show s'.stack.dropLast = s.stack
    rw [h.stack]
    exact dropLast_concat
  color x := by
    show Function.update s'.color i .black x = _
    rw [Function.update_apply, h.color x, Search.enter_color]
    by_cases hi : x = i
    · simp [hi]
    · simp [hi]
  found := by
    have := h.found
    rwa [Search.enter_stack, append_assoc] at this

/-- A visit follows a path until it cannot go on, and finds the loop at its end. -/
theorem visit_spec (hnodes : ∀ x ∈ nodes, ∀ y, Step next x y → y ∈ nodes) {depth : ℕ}
    (h : Enters next nodes s i) (hdepth : nodes.length ≤ depth + s.stack.length) :
    ∃ s' new, visit next depth i s = some s' ∧ Visited next s i s' new ∧ ∀ x ∈ new, x ∈ nodes := by
  have hi : i ∈ nodes := h.inside i (mem_append_right _ (mem_singleton.mpr rfl))
  have hone : ∀ x ∈ [i], x ∈ nodes := fun x hx => mem_singleton.mp hx ▸ hi
  have hlast : (s.stack ++ [i]).getLast?.bind next = next i := by
    rw [List.getLast?_concat, Option.bind_some]
  induction depth generalizing s i with
  | zero =>
    have hlength := (List.Nodup.subperm h.nodup h.inside).length_le
    rw [length_append, length_singleton] at hlength
    omega
  | succ depth ih =>
    rw [visit]
    cases hnext : next i with
    | none =>
      refine ⟨_, [i], rfl, h.leaf ?_ fun y hy => ?_, hone⟩
      · rw [loopOf, hlast, hnext, append_nil]
      · rw [Step, hnext] at hy
        cases hy
    | some j =>
      have hstep : ∀ y, Step next i y → y = j := by
        intro y hy
        rw [Step, hnext] at hy
        exact (Option.some.inj hy).symm
      have hj := hnodes i hi j hnext
      cases hcolor : (s.enter i).color j with
      | white =>
        have henters := h.enter hnext hj hcolor
        have hdepth' : nodes.length ≤ depth + (s.enter i).stack.length := by
          rw [Search.enter_stack, length_append, length_singleton]
          omega
        obtain ⟨s', new, hvisit, hvisited, hinside⟩ := ih henters hdepth' hj
          (fun x hx => mem_singleton.mp hx ▸ hj)
          (by rw [List.getLast?_concat, Option.bind_some])
        refine ⟨_, i :: new, ?_, hvisited.leave h.white, ?_⟩
        · simp only [hcolor, hvisit, Option.map_some]
        · exact forall_mem_cons.mpr ⟨hi, hinside⟩
      | grey =>
        have hin : j ∈ s.stack ++ [i] := by
          rw [Search.enter_color] at hcolor
          rw [mem_append, mem_singleton]
          split_ifs at hcolor with hji
          · exact .inr hji
          · exact .inl ((h.grey j).mp hcolor)
        refine ⟨_, [i], by simp only [hcolor]; rfl, h.leaf ?_ fun y hy => ?_, hone⟩
        · rw [loopOf, hlast, hnext]
          show _ = s.found ++ if j ∈ s.stack ++ [i] then _ else []
          rw [if_pos hin]
          rfl
        · exact .inl (hstep y hy ▸ hin)
      | black =>
        have hblack : s.color j = .black := by
          rw [Search.enter_color] at hcolor
          split_ifs at hcolor
          exact hcolor
        have hout : j ∉ s.stack ++ [i] := by
          intro hin
          rcases mem_append.mp hin with hin | hin
          · rw [(h.grey j).mpr hin] at hblack
            cases hblack
          · rw [mem_singleton.mp hin, h.white] at hblack
            cases hblack
        refine ⟨_, [i], by simp only [hcolor]; rfl, h.leaf ?_ fun y hy => ?_, hone⟩
        · rw [loopOf, hlast, hnext]
          show _ = s.found ++ if j ∈ s.stack ++ [i] then _ else []
          rw [if_neg hout, append_nil]
        · exact .inr (hstep y hy ▸ hblack)

theorem loopOf_append {b : α} (hnodup : (before ++ j :: behind).Nodup)
    (hlast : (j :: behind).getLast? = some b) (hback : Step next b j) :
    loopOf next (before ++ j :: behind) = j :: behind := by
  have hj : j ∉ before := fun hin =>
    (nodup_append.mp hnodup).2.2 j hin j mem_cons_self rfl
  have hend : (before ++ j :: behind).getLast?.bind next = some j := by
    rw [List.getLast?_append_of_ne_nil _ (cons_ne_nil j behind), hlast]
    exact hback
  rw [loopOf, hend]
  show (if j ∈ before ++ j :: behind then _ else []) = _
  rw [if_pos (by simp), idxOf_append_of_notMem hj, idxOf_cons_self, Nat.add_zero,
    drop_left]

/-- The loop at the end of a path holds its nodes that are on a cycle, if nothing comes back from
where else the path may lead. -/
theorem mem_loopOf_iff {S : α → Prop} (hpath : new.IsChain (Step next))
    (hnodup : new.Nodup) (hclosed : ∀ x y, S x → Step next x y → S y) (hoff : ∀ x ∈ new, ¬ S x)
    (hends : ∀ x y, new.getLast? = some x → Step next x y → y ∈ new ∨ S y) {x : α} (hx : x ∈ new) :
    x ∈ loopOf next new ↔ OnCycle next x := by
  by_cases hback : ∃ b j, new.getLast? = some b ∧ Step next b j ∧ j ∈ new
  · obtain ⟨b, j, hlast, hstep, hj⟩ := hback
    obtain ⟨before, behind, rfl⟩ := append_of_mem hj
    have hlast' : (j :: behind).getLast? = some b := by
      rwa [List.getLast?_append_of_ne_nil _ (cons_ne_nil j behind)] at hlast
    rw [loopOf_append hnodup hlast' hstep]
    refine ⟨onCycle_of_loop hpath rfl hlast' hstep, fun hcycle => ?_⟩
    refine (mem_append.mp hx).resolve_left fun hin => ?_
    obtain ⟨l, r, rfl⟩ := append_of_mem hin
    rw [append_assoc, cons_append] at hpath hnodup hlast
    refine not_onCycle_of_path hpath hnodup hclosed (hoff x hx) (fun y z hy hz => .inl ?_) hcycle
    rw [List.getLast?_append_of_ne_nil _ (cons_ne_nil x _), hy] at hlast
    cases hlast
    rw [Step, hstep] at hz
    cases hz
    exact mem_append_right _ mem_cons_self
  · have hloop : loopOf next new = [] := by
      unfold loopOf
      cases hend : new.getLast?.bind next with
      | none => rfl
      | some j =>
        obtain ⟨b, hlast, hstep⟩ := Option.bind_eq_some_iff.mp hend
        exact if_neg fun hj => hback ⟨b, j, hlast, hstep, hj⟩
    rw [hloop]
    refine iff_of_false not_mem_nil ?_
    obtain ⟨l, r, rfl⟩ := append_of_mem hx
    refine not_onCycle_of_path hpath hnodup hclosed (hoff x hx) fun y z hy hz => .inr ?_
    rw [← List.getLast?_append_of_ne_nil l (cons_ne_nil x r)] at hy
    exact (hends y z hy hz).resolve_left fun hz' => hback ⟨y, z, hy, hz, hz'⟩

/-- Between two visits: nothing is on the stack, and the nodes on a cycle that were visited have
been found. -/
structure Searched (next : α → Option α) (nodes : List α) (s : Search α) : Prop where
  stack : s.stack = []
  grey : ∀ x, s.color x ≠ .grey
  closed : ∀ x y, s.color x = .black → Step next x y → s.color y = .black
  inside : ∀ x, s.color x = .black → x ∈ nodes
  nodup : s.found.Nodup
  found : ∀ x, x ∈ s.found ↔ s.color x = .black ∧ OnCycle next x

omit [DecidableEq α] in
theorem Searched.start (nodes : List α) : Searched next nodes .start where
  stack := rfl
  grey _ := nofun
  closed _ _ := nofun
  inside _ := nofun
  nodup := nodup_nil
  found _ := iff_of_false not_mem_nil nofun

omit [DecidableEq α] in
theorem Searched.enters (h : Searched next nodes s) (hi : i ∈ nodes)
    (hwhite : s.color i = .white) : Enters next nodes s i := by
  refine ⟨fun x => ?_, hwhite, ?_, ?_, ?_⟩
  · rw [h.stack]
    exact iff_of_false (h.grey x) not_mem_nil
  · rw [h.stack]
    exact isChain_singleton i
  · rw [h.stack]
    exact nodup_singleton i
  · rw [h.stack]
    exact fun x hx => mem_singleton.mp hx ▸ hi

theorem Searched.visited {s' : Search α} (h : Searched next nodes s)
    (hv : Visited next s i s' new) (hinside : ∀ x ∈ new, x ∈ nodes) :
    Searched next nodes s' := by
  obtain ⟨hhead, hpath, hnodup, hwhite, hends, hstack, hcolor, hfound⟩ := hv
  rw [h.stack, nil_append] at hpath hnodup hfound
  simp only [h.stack, nil_append] at hends
  have hoff : ∀ x ∈ new, ¬ s.color x = .black := by
    intro x hx hblack
    rw [hwhite x hx] at hblack
    cases hblack
  have hblack : ∀ x, s'.color x = .black ↔ x ∈ new ∨ s.color x = .black := by
    intro x
    rw [hcolor x]
    by_cases hx : x ∈ new
    · simp [hx]
    · simp [hx]
  have hloop : ∀ x ∈ new, (x ∈ loopOf next new ↔ OnCycle next x) := fun x hx =>
    mem_loopOf_iff hpath hnodup h.closed hoff hends hx
  have hsub : (loopOf next new).Sublist new := by
    unfold loopOf
    split
    · exact nil_sublist _
    · split_ifs
      · exact drop_sublist _ _
      · exact nil_sublist _
  refine ⟨hstack.trans h.stack, fun x => ?_, fun x y hx hstep => ?_, fun x hx => ?_,
    ?_, fun x => ?_⟩
  · rw [hcolor x]
    split_ifs
    · exact Color.noConfusion
    · exact h.grey x
  · rw [hblack] at hx ⊢
    rcases hx with hx | hx
    · obtain ⟨l, r, rfl⟩ := append_of_mem hx
      rcases step_of_path hpath hstep with ⟨rest, rfl⟩ | rfl
      · exact .inl (mem_append_right _ (mem_cons_of_mem _ mem_cons_self))
      · exact hends x y List.getLast?_concat hstep
    · exact .inr (h.closed x y hx hstep)
  · exact ((hblack x).mp hx).elim (hinside x) (h.inside x)
  · rw [hfound]
    refine nodup_append.mpr ⟨h.nodup, hnodup.sublist hsub, ?_⟩
    rintro x hx _ hx' rfl
    exact hoff x (hsub.subset hx') ((h.found x).mp hx).1
  · rw [hfound, mem_append, h.found x, hblack x]
    by_cases hx : x ∈ new
    · rw [hloop x hx]
      simp [hx, hoff x hx]
    · have hx' : x ∉ loopOf next new := fun hin => hx (hsub.subset hin)
      simp [hx, hx']

theorem search_spec (hnodes : ∀ x ∈ nodes, ∀ y, Step next x y → y ∈ nodes) {depth : ℕ}
    (hdepth : nodes.length ≤ depth) {l : List α} (hl : ∀ x ∈ l, x ∈ nodes)
    (h : Searched next nodes s) :
    ∃ s', search next depth l s = some s' ∧ Searched next nodes s' ∧
      ∀ x, x ∈ l ∨ s.color x = .black → s'.color x = .black := by
  induction l generalizing s with
  | nil => exact ⟨s, rfl, h, fun x hx => hx.resolve_left not_mem_nil⟩
  | cons i l ih =>
    obtain ⟨hi, hl⟩ := forall_mem_cons.mp hl
    -- what the loop does at one node
    have hvisit : ∃ s', (if s.color i = .white then visit next depth i s else some s) = some s' ∧
        Searched next nodes s' ∧ ∀ x, x = i ∨ s.color x = .black → s'.color x = .black := by
      by_cases hwhite : s.color i = .white
      · obtain ⟨s', new, heq, hv, hinside⟩ := visit_spec hnodes (h.enters hi hwhite)
          (hdepth.trans (Nat.le_add_right _ _))
        refine ⟨s', (if_pos hwhite).trans heq, h.visited hv hinside, fun x hx => ?_⟩
        rw [hv.color x]
        rcases hx with rfl | hx
        · exact if_pos (mem_of_mem_head? hv.head)
        · rw [hx, ite_self]
      · refine ⟨s, if_neg hwhite, h, fun x hx => ?_⟩
        rcases hx with rfl | hx
        · cases hcolor : s.color x with
          | white => exact absurd hcolor hwhite
          | grey => exact absurd hcolor (h.grey x)
          | black => rfl
        · exact hx
    obtain ⟨s₁, heq, hsearched, hblack⟩ := hvisit
    obtain ⟨s', hsearch, hsearched', hblack'⟩ := ih hl hsearched
    refine ⟨s', ?_, hsearched', fun x hx => hblack' x ?_⟩
    · rw [search, foldlM_cons, heq]
      exact hsearch
    · rw [mem_cons, or_assoc] at hx
      rcases hx with hx | hx | hx
      · exact .inr (hblack x (.inl hx))
      · exact .inl hx
      · exact .inr (hblack x (.inr hx))

/-- **The search is exact.** -/
theorem search_exact (hnodes : ∀ x ∈ nodes, ∀ y, Step next x y → y ∈ nodes) :
    ∃ s, search next nodes.length nodes .start = some s ∧ s.found.Nodup ∧
      ∀ x, x ∈ s.found ↔ x ∈ nodes ∧ OnCycle next x := by
  obtain ⟨s, hsearch, h, hblack⟩ :=
    search_spec hnodes (Nat.le_refl _) (fun _ hx => hx) (Searched.start nodes)
  refine ⟨s, hsearch, h.nodup, fun x => ?_⟩
  rw [h.found x]
  exact and_congr_left fun _ => ⟨h.inside x, fun hx => hblack x (.inl hx)⟩

end

end ProxyLoom.Successor
