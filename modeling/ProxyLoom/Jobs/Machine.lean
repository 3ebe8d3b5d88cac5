import ProxyLoom.Lib.Machine
import ProxyLoom.Jobs.Actions

/-!
# The job queue as a transition system

Any number of workers, users and reapers call the queue in any order. A call that fails changes
nothing but the clock. Calls read a clock that never goes back, when they start and when they
finish.

The two rules at the end reduce a statement about all runs to one about actions.
-/

namespace ProxyLoom.Jobs

open IR Relation

variable {β : Type}

/-- The transactions of the queue. -/
inductive Call (β : Type) where
  | enqueue (input : EnqueueInput)
  | createBatch (input : BatchInput)
  | claim (input : ClaimInput)
  | reapExpired
  | heartbeat (id : LeaseIdentity)
  | event (id : LeaseIdentity) (input : EventInput)
  | complete (id : LeaseIdentity) (input : Result) (callback : Option (Callback β))
  | cancel (scope id : ID) (expectedRevision : ℤ) (actor : Option ID)

/-- The tables a call commits, and the job whose business callback it commits. -/
def exec (wire : Wire) (env : Env) (s : Store β) :
    Call β → Except JobError (Store β × Option ID)
  | .enqueue input => (enqueueTx wire env 0 s input).map fun s => (s, none)
  | .createBatch input => (createBatchTx wire env s input).map fun s => (s, none)
  | .claim input => (claim wire env s input).map fun out => (out.1, none)
  | .reapExpired => (reapExpired wire env s).map fun s => (s, none)
  | .heartbeat id => (heartbeat env s id).map fun out => (out.1, none)
  | .event id input => (event wire env s id input).map fun out => (out.1, none)
  | .complete id input callback =>
    (completeTx wire env s id input callback).map fun out =>
      (out.1, if out.2.2 then some id.jobID else none)
  | .cancel scope id revision actor =>
    (cancel wire env s scope id revision actor).map fun s => (s, none)

/-- The clock, the tables, and the jobs whose callbacks were committed, oldest first. -/
structure World (β : Type) where
  clock : Time
  store : Store β
  callbacks : List ID

def Store.empty (business : β) : Store β :=
  ⟨.empty, .empty, .empty, .empty, .empty, .empty, business⟩

/-- A call that fails leaves the tables. -/
def World.after (w : World β) (finish : Time) : Except JobError (Store β × Option ID) → World β
  | .error _ => { w with clock := finish }
  | .ok (s, ran) => ⟨finish, s, w.callbacks ++ ran.toList⟩

structure Label (β : Type) where
  env : Env
  call : Call β

/-- Calls one at a time, in the order of the clock. -/
def queue (wire : Wire) : Machine (World β) (Label β) where
  init w := ∃ business, w.store = Store.empty business ∧ w.callbacks = []
  step w l w' := w.clock ≤ l.env.start ∧ l.env.start ≤ l.env.finish ∧
    w' = w.after l.env.finish (exec wire l.env w.store l.call)

/-- Every job that a call may add meets the condition. -/
def Call.Adds (P : EnqueueInput → Prop) (business : β) : Call β → Prop
  | .enqueue input => P input
  | .createBatch input =>
    ∀ c ∈ input.children, ∀ id, P { c with scopeID := input.scopeID, batchID := some id }
  | .complete _ _ callback => ∀ c, callback = some c → ∀ input ∈ c.enqueues business, P input
  | _ => True

theorem Call.adds_true (business : β) (call : Call β) : call.Adds (fun _ => True) business := by
  cases call <;> simp [Call.Adds]

theorem exec_actions {wire : Wire} {env : Env} {P : EnqueueInput → Prop}
    (hclock : env.start ≤ env.finish) {s s' : Store β} {ran : Option ID} {call : Call β}
    (hadds : call.Adds P s.business) (h : exec wire env s call = .ok (s', ran)) :
    Actions wire env P s s' := by
  cases call <;> obtain ⟨out, hout, heq⟩ := Except.of_map h <;> cases heq
  case enqueue => exact ReflTransGen.single (.queue (.enqueue hadds hout))
  case createBatch => exact (createBatchTx_actions hadds hout).actions
  case claim => exact (claim_actions hout).actions
  case reapExpired => exact (reapExpired_actions hclock hout).actions
  case heartbeat => exact ReflTransGen.single (.queue (.beat hout))
  case event => exact ReflTransGen.single (.queue (.event hout))
  case complete => exact completeTx_actions hadds hout
  case cancel => exact (cancel_actions hout).actions

variable {wire : Wire} {w : World β}

theorem step_actions {P : EnqueueInput → Prop} {w' : World β} {l : Label β}
    (hadds : l.call.Adds P w.store.business) (h : (queue wire).step w l w') :
    Actions wire l.env P w.store w'.store := by
  obtain ⟨-, hclock, rfl⟩ := h
  cases hexec : exec wire l.env w.store l.call with
  | error e => exact .refl
  | ok out => exact exec_actions hclock hadds hexec

/-- **Invariants by actions.** -/
theorem Reach.store_invariant {P : Store β → Prop} (hempty : ∀ business, P (Store.empty business))
    (haction : ∀ env s s', P s → Action wire env (fun _ => True) s s' → P s')
    (h : (queue wire).Reach w) : P w.store := by
  refine h.invariant (P := fun w => P w.store) ?_ ?_
  · rintro w ⟨business, hstore, -⟩
    rw [hstore]
    exact hempty business
  · intro w l w' _ hP hstep
    have hacts := step_actions (l.call.adds_true _) hstep
    generalize w'.store = s' at hacts ⊢
    induction hacts with
    | refl => exact hP
    | tail _ hact ih => exact haction _ _ _ ih hact

/-- **Relations by actions.** -/
theorem Run.store_relation {R : Store β → Store β → Prop} (hrefl : ∀ s, R s s)
    (htrans : ∀ s t u, R s t → R t u → R s u)
    (haction : ∀ env s s', Action wire env (fun _ => True) s s' → R s s') {w' : World β}
    (hw : (queue wire).Reach w) (h : (queue wire).Run w w') : R w.store w'.store := by
  refine h.relation (R := fun w w' => R w.store w'.store) (fun w => hrefl _)
    (fun w w' w'' => htrans _ _ _) ?_ hw
  intro w l w' _ hstep
  have hacts := step_actions (l.call.adds_true _) hstep
  generalize w'.store = s' at hacts ⊢
  induction hacts with
  | refl => exact hrefl _
  | tail _ hact ih => exact htrans _ _ _ ih (haction _ _ _ hact)

/-! ## A small run

One source refresh is enqueued and claimed. -/

def instantEnv (now : Time) (fresh : ID) : Env where
  start := now
  finish := now
  quota _ := .ok defaultQuota
  testRevoked _ := false
  locked _ := false
  newID _ := fresh

def plainWire : Wire where
  decodeFrozenPayload _ := none
  encodeFrozenPayload _ := []
  eventDigest _ := "event"
  resultDigest r := if r.state = .succeeded then "succeeded" else "other"
  parseAddr _ := false

def refreshJob : ID := "00000000-0000-4000-8000-000000000001"

def refreshWorker : ID := "00000000-0000-4000-8000-000000000002"

def refreshScope : ID := "00000000-0000-4000-8000-000000000003"

def refreshSource : ID := "00000000-0000-4000-8000-000000000004"

def refreshLease (attempt : ℕ) : LeaseIdentity := ⟨refreshJob, refreshWorker, attempt, attempt⟩

def emptyWorld (business : β) : World β := ⟨0, Store.empty business, []⟩

def enqueueRefresh : Label β where
  env := instantEnv 1 "00000000-0000-4000-8000-000000000011"
  call := .enqueue ⟨some refreshJob, refreshScope, some refreshSource, .apiWorker, .sourceRefresh,
    [0], none⟩

def claimRefresh (now : Time) (fresh : ID) : Label β where
  env := instantEnv now fresh
  call := .claim ⟨.apiWorker, refreshWorker, [.sourceRefresh], [], noSlots, noSlots⟩

def World.next (wire : Wire) (w : World β) (l : Label β) : World β :=
  w.after l.env.finish (exec wire l.env w.store l.call)

theorem Reach.next (hw : (queue wire).Reach w) (l : Label β)
    (hstart : w.clock ≤ l.env.start) (hfinish : l.env.start ≤ l.env.finish) :
    (queue wire).Reach (w.next wire l) :=
  .step (l := l) hw ⟨hstart, hfinish, rfl⟩

theorem reach_emptyWorld (business : β) : (queue wire).Reach (emptyWorld business) :=
  .init ⟨business, rfl, rfl⟩

end ProxyLoom.Jobs
