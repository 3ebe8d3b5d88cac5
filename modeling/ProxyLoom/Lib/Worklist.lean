import Mathlib.Tactic

/-!
# Worklists and loops with a history

A search that marks nodes and queues each node it marks visits exactly what the marked nodes reach
(`mem_walk_iff`), if it may take as many steps as there are nodes to take.

A loop that reports on each element, with the elements before it in sight, reports nothing iff every
element passes (`reports_eq_nil_iff`).
-/

open List

namespace Worklist

variable {α : Type} [DecidableEq α] {univ : Finset α} {b : α} {n : ℕ}

/-- Mark a node and queue it, unless it is marked. -/
def push (s : List α × List α) (a : α) : List α × List α :=
  if a ∈ s.1 then s else (a :: s.1, s.2 ++ [a])

/-- Take nodes off the queue, at most `n`, and push what follows them. -/
def walk (next : α → List α) : ℕ → List α → List α → List α
  | 0, _, seen => seen
  | _ + 1, [], seen => seen
  | n + 1, a :: queue, seen =>
    let s := (next a).foldl push (seen, queue)
    walk next n s.2 s.1

/-! ## Pushing -/

theorem mem_seen_foldl_push (l : List α) (s : List α × List α) :
    b ∈ (l.foldl push s).1 ↔ b ∈ s.1 ∨ b ∈ l := by
  induction l generalizing s with
  | nil => simp
  | cons a l ih =>
    rw [foldl_cons, ih, mem_cons]
    unfold push
    split_ifs with ha
    · constructor
      · rintro (h | h)
        · exact .inl h
        · exact .inr (.inr h)
      · rintro (h | rfl | h)
        · exact .inl h
        · exact .inl ha
        · exact .inr h
    · rw [mem_cons, or_assoc]
      tauto

theorem mem_queue_foldl_push (l : List α) (s : List α × List α) :
    b ∈ (l.foldl push s).2 ↔ b ∈ s.2 ∨ (b ∈ l ∧ b ∉ s.1) := by
  induction l generalizing s with
  | nil => simp
  | cons a l ih =>
    rw [foldl_cons, ih, mem_cons]
    unfold push
    split_ifs with ha
    · constructor
      · rintro (h | h)
        · exact .inl h
        · exact .inr ⟨.inr h.1, h.2⟩
      · rintro (h | ⟨rfl | h, hb⟩)
        · exact .inl h
        · exact absurd ha hb
        · exact .inr ⟨h, hb⟩
    · by_cases hba : b = a
      · subst hba
        simp [ha]
      · simp [hba]

/-- What is left to do: the queue and the nodes without a mark. -/
def left (univ : Finset α) (s : List α × List α) : ℕ :=
  s.2.length + (univ \ s.1.toFinset).card

theorem left_push {s : List α × List α} {a : α} (ha : a ∈ univ) :
    left univ (push s a) = left univ s := by
  unfold push
  split_ifs with hseen
  · rfl
  · have hmem : a ∈ univ \ s.1.toFinset := by simp [ha, hseen]
    have hset : univ \ (a :: s.1).toFinset = (univ \ s.1.toFinset).erase a := by
      ext b
      simp only [Finset.mem_sdiff, toFinset_cons, Finset.mem_insert, Finset.mem_erase]
      tauto
    have hcard := Finset.card_erase_add_one hmem
    unfold left
    dsimp only
    rw [hset, length_append, length_singleton]
    omega

theorem left_foldl_push {l : List α} {s : List α × List α} (hl : ∀ a ∈ l, a ∈ univ) :
    left univ (l.foldl push s) = left univ s := by
  induction l generalizing s with
  | nil => rfl
  | cons a l ih =>
    rw [foldl_cons, ih fun b hb => hl b (mem_cons_of_mem _ hb),
      left_push (hl a mem_cons_self)]

/-! ## Walking -/

variable {next : α → List α} {queue seen : List α}

/-- Queued nodes are marked, and what follows a marked node is marked or the node is queued. -/
structure Marked (next : α → List α) (queue seen : List α) : Prop where
  queued : ∀ a ∈ queue, a ∈ seen
  done : ∀ a ∈ seen, a ∉ queue → ∀ b ∈ next a, b ∈ seen

theorem Marked.step {a : α} (h : Marked next (a :: queue) seen) :
    Marked next ((next a).foldl push (seen, queue)).2 ((next a).foldl push (seen, queue)).1 := by
  constructor
  · intro b hb
    rw [mem_queue_foldl_push] at hb
    rw [mem_seen_foldl_push]
    obtain hb | hb := hb
    · exact .inl (h.queued b (mem_cons_of_mem _ hb))
    · exact .inr hb.1
  · intro b hb hqueue c hc
    rw [mem_seen_foldl_push] at hb ⊢
    rw [mem_queue_foldl_push, not_or, not_and, not_not] at hqueue
    have hseen : b ∈ seen := hb.elim id hqueue.2
    by_cases hba : b = a
    · subst hba
      exact .inr hc
    · refine .inl (h.done b hseen ?_ c hc)
      rw [mem_cons, not_or]
      exact ⟨hba, hqueue.1⟩

theorem subset_walk (n : ℕ) (queue seen : List α) : ∀ a ∈ seen, a ∈ walk next n queue seen := by
  induction n generalizing queue seen with
  | zero => exact fun a ha => ha
  | succ n ih =>
    cases queue with
    | nil => exact fun a ha => ha
    | cons q queue => exact fun a ha => ih _ _ a ((mem_seen_foldl_push _ _).mpr (.inl ha))

theorem walk_sound {P : α → Prop} (hP : ∀ a, P a → ∀ b ∈ next a, P b)
    (hqueue : ∀ a ∈ queue, a ∈ seen) (hseen : ∀ a ∈ seen, P a) :
    ∀ a ∈ walk next n queue seen, P a := by
  induction n generalizing queue seen with
  | zero => exact hseen
  | succ n ih =>
    cases queue with
    | nil => exact hseen
    | cons q queue =>
      refine ih ?_ ?_
      · intro a ha
        rw [mem_queue_foldl_push] at ha
        rw [mem_seen_foldl_push]
        exact ha.imp (fun h => hqueue a (mem_cons_of_mem _ h)) And.left
      · intro a ha
        obtain ha | ha := (mem_seen_foldl_push _ _).mp ha
        · exact hseen a ha
        · exact hP q (hseen q (hqueue q mem_cons_self)) a ha

theorem walk_closed (hnext : ∀ a, ∀ b ∈ next a, b ∈ univ) (hmarked : Marked next queue seen)
    (hn : left univ (seen, queue) ≤ n) :
    ∀ a ∈ walk next n queue seen, ∀ b ∈ next a, b ∈ walk next n queue seen := by
  induction n generalizing queue seen with
  | zero =>
    have hnil : queue = [] := by
      rw [← length_eq_zero_iff]
      unfold left at hn
      dsimp only at hn
      omega
    exact fun a ha => hmarked.done a ha (by simp [hnil])
  | succ n ih =>
    cases queue with
    | nil => exact fun a ha => hmarked.done a ha not_mem_nil
    | cons q queue =>
      refine ih hmarked.step ?_
      have hleft : left univ (seen, queue) + 1 = left univ (seen, q :: queue) := by
        unfold left
        dsimp only
        rw [length_cons]
        omega
      rw [show (((next q).foldl push (seen, queue)).1, ((next q).foldl push (seen, queue)).2) =
        (next q).foldl push (seen, queue) from rfl, left_foldl_push (hnext q)]
      omega

/-- **The walk marks what the marked nodes reach.** -/
theorem mem_walk_iff (hnext : ∀ a, ∀ b ∈ next a, b ∈ univ)
    (hmarked : Marked next queue seen) (hn : left univ (seen, queue) ≤ n) :
    b ∈ walk next n queue seen ↔
      ∃ a ∈ seen, Relation.ReflTransGen (fun x y => y ∈ next x) a b := by
  constructor
  · intro hb
    refine walk_sound (P := fun b => ∃ a ∈ seen,
      Relation.ReflTransGen (fun x y => y ∈ next x) a b) ?_ hmarked.queued ?_ b hb
    · rintro x ⟨a, ha, hax⟩ y hy
      exact ⟨a, ha, hax.tail hy⟩
    · exact fun a ha => ⟨a, ha, .refl⟩
  · rintro ⟨a, ha, hab⟩
    induction hab with
    | refl => exact subset_walk n queue seen a ha
    | tail _ hbc ih => exact walk_closed hnext hmarked hn _ ih _ hbc

/-! ## Rounds -/

def rounds (next : α → List α) : ℕ → List α → List α
  | 0, seen => seen
  | n + 1, seen => rounds next n (seen ∪ seen.flatMap next)

theorem mem_round :
    b ∈ seen ∪ seen.flatMap next ↔ b ∈ seen ∨ ∃ a ∈ seen, b ∈ next a := by
  rw [mem_union_iff, mem_flatMap]

theorem subset_rounds (n : ℕ) (seen : List α) : ∀ a ∈ seen, a ∈ rounds next n seen := by
  induction n generalizing seen with
  | zero => exact fun a ha => ha
  | succ n ih => exact fun a ha => ih _ a (mem_round.mpr (.inl ha))

theorem rounds_sound {P : α → Prop} (hP : ∀ a, P a → ∀ b ∈ next a, P b)
    (hseen : ∀ a ∈ seen, P a) : ∀ a ∈ rounds next n seen, P a := by
  induction n generalizing seen with
  | zero => exact hseen
  | succ n ih =>
    refine ih fun b hb => ?_
    obtain hb | ⟨a, ha, hb⟩ := mem_round.mp hb
    · exact hseen b hb
    · exact hP a (hseen a ha) b hb

theorem rounds_closed {univ : Finset α} (hnext : ∀ a, ∀ b ∈ next a, b ∈ univ)
    {seen : List α} (hn : (univ \ seen.toFinset).card ≤ n) :
    ∀ a ∈ rounds next n seen, ∀ b ∈ next a, b ∈ rounds next n seen := by
  induction n generalizing seen with
  | zero =>
    intro a _ b hb
    have hempty : univ \ seen.toFinset = ∅ := by
      rw [← Finset.card_eq_zero]
      omega
    have hsub := Finset.sdiff_eq_empty_iff_subset.mp hempty (hnext a b hb)
    exact mem_toFinset.mp hsub
  | succ n ih =>
    by_cases hclosed : ∀ a ∈ seen, ∀ b ∈ next a, b ∈ seen
    · have hsound := rounds_sound (P := (· ∈ seen)) hclosed (n := n + 1) fun a ha => ha
      exact fun a ha b hb =>
        subset_rounds (n + 1) seen b (hclosed a (hsound a ha) b hb)
    · push Not at hclosed
      obtain ⟨a, ha, b, hb, hnot⟩ := hclosed
      refine ih ?_
      have hlt : univ \ (seen ∪ seen.flatMap next).toFinset ⊂ univ \ seen.toFinset := by
        refine Finset.ssubset_iff_subset_ne.mpr ⟨fun c hc => ?_, fun heq => ?_⟩
        · rw [Finset.mem_sdiff, mem_toFinset] at hc ⊢
          exact ⟨hc.1, fun hseen => hc.2 (mem_round.mpr (.inl hseen))⟩
        · have hmem : b ∈ univ \ seen.toFinset := by
            rw [Finset.mem_sdiff, mem_toFinset]
            exact ⟨hnext a b hb, hnot⟩
          rw [← heq, Finset.mem_sdiff, mem_toFinset] at hmem
          exact hmem.2 (mem_round.mpr (.inr ⟨a, ha, hb⟩))
      have := Finset.card_lt_card hlt
      omega

end Worklist

namespace Loop

variable {α δ : Type} {l : List α} {body : List α → α → List δ}

/-- The reports of a loop whose body sees the elements before the one it is at. -/
def reportsFrom (body : List α → α → List δ) : List α → List α → List δ
  | _, [] => []
  | before, a :: after => body before a ++ reportsFrom body (before ++ [a]) after

def reports (body : List α → α → List δ) (l : List α) : List δ := reportsFrom body [] l

theorem reportsFrom_eq_nil_iff (body : List α → α → List δ) (before l : List α) :
    reportsFrom body before l = [] ↔
      ∀ mid a after, l = mid ++ a :: after → body (before ++ mid) a = [] := by
  induction l generalizing before with
  | nil => simp [reportsFrom]
  | cons a l ih =>
    rw [reportsFrom, append_eq_nil_iff, ih]
    constructor
    · rintro ⟨ha, hl⟩ mid b after heq
      cases mid with
      | nil =>
        obtain ⟨rfl, -⟩ := List.cons.inj heq
        rwa [append_nil]
      | cons c mid =>
        rw [cons_append] at heq
        obtain ⟨rfl, htail⟩ := List.cons.inj heq
        rw [append_cons]
        exact hl mid b after htail
    · intro h
      refine ⟨?_, fun mid b after heq => ?_⟩
      · simpa using h [] a l rfl
      · rw [← append_cons]
        exact h (a :: mid) b after (by rw [heq, cons_append])

theorem mem_reportsFrom {d : δ} :
    ∀ {before : List α}, d ∈ reportsFrom body before l →
      ∃ mid a after, l = mid ++ a :: after ∧ d ∈ body (before ++ mid) a := by
  induction l with
  | nil =>
    intro before h
    cases h
  | cons a l ih =>
    intro before h
    rcases mem_append.mp h with h | h
    · exact ⟨[], a, l, rfl, by rwa [append_nil]⟩
    · obtain ⟨mid, b, after, rfl, hd⟩ := ih h
      exact ⟨a :: mid, b, after, rfl, by rwa [append_cons]⟩

theorem mem_reports {d : δ} (h : d ∈ reports body l) :
    ∃ before a after, l = before ++ a :: after ∧ d ∈ body before a := by
  obtain ⟨before, a, after, heq, hd⟩ := mem_reportsFrom h
  exact ⟨before, a, after, heq, hd⟩

/-- **A loop reports nothing iff every element passes after the ones before it.** -/
theorem reports_eq_nil_iff :
    reports body l = [] ↔ ∀ before a after, l = before ++ a :: after → body before a = [] := by
  rw [reports, reportsFrom_eq_nil_iff]
  rfl

theorem reports_eq_nil_iff_forall {P : α → Prop}
    (h : ∀ before a, a ∈ l → (body before a = [] ↔ P a)) :
    reports body l = [] ↔ ∀ a ∈ l, P a := by
  rw [reports_eq_nil_iff]
  constructor
  · intro hall a ha
    obtain ⟨before, after, heq⟩ := append_of_mem ha
    exact (h before a ha).mp (hall before a after heq)
  · intro hall before a after heq
    have ha : a ∈ l := by simp [heq]
    exact (h before a ha).mpr (hall a ha)

theorem flatMap_zipIdx_eq_nil_iff {f : α × ℕ → List δ} {P : α → Prop}
    (h : ∀ a ∈ l, ∀ k, f (a, k) = [] ↔ P a) : l.zipIdx.flatMap f = [] ↔ ∀ a ∈ l, P a := by
  rw [flatMap_eq_nil_iff]
  constructor
  · intro hall a ha
    obtain ⟨k, hk⟩ := mem_iff_getElem?.mp ha
    exact (h a ha k).mp (hall _ (mk_mem_zipIdx_iff_getElem?.mpr hk))
  · rintro hall ⟨a, k⟩ hak
    have ha : a ∈ l := mem_of_getElem? (mk_mem_zipIdx_iff_getElem?.mp hak)
    exact (h a ha k).mpr (hall a ha)

theorem nodup_iff_split {κ : Type} (key : α → κ) (l : List α) :
    (l.map key).Nodup ↔
      ∀ before a after, l = before ++ a :: after → key a ∉ before.map key := by
  constructor
  · rintro h before a after rfl hmem
    rw [map_append, nodup_append] at h
    exact h.2.2 _ hmem _ (by simp) rfl
  · intro h
    induction l using List.reverseRecOn with
    | nil => exact nodup_nil
    | append_singleton l a ih =>
      rw [map_append, map_singleton, nodup_append]
      refine ⟨ih fun before b after heq => ?_, nodup_singleton _, ?_⟩
      · exact h before b (after ++ [a]) (by rw [heq]; simp)
      · rintro x hx y hy rfl
        rw [mem_singleton] at hy
        exact h l a [] (by simp) (hy ▸ hx)

end Loop
