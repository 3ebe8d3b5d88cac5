import ProxyLoom.Jobs.Fencing

/-!
# The business state behind the queue
-/

namespace ProxyLoom.Jobs

open IR RunnerProtocol Relation

variable {β : Type} {wire : Wire} {env : Env} {s s' : Store β} {ran : Option ID} {call : Call β}

def Call.callback : Call β → Option (Callback β)
  | .complete _ _ callback => callback
  | _ => none

theorem exec_queueActions (hclock : env.start ≤ env.finish)
    (hnone : call.callback = none) (h : exec wire env s call = .ok (s', ran)) :
    QueueActions wire env (fun _ => True) s s' := by
  cases call <;> obtain ⟨out, hout, heq⟩ := Except.of_map h <;> cases heq
  case enqueue => exact ReflTransGen.single (.enqueue trivial hout)
  case createBatch => exact createBatchTx_actions (fun _ _ _ => trivial) hout
  case claim => exact claim_actions hout
  case reapExpired => exact reapExpired_actions hclock hout
  case heartbeat => exact ReflTransGen.single (.beat hout)
  case event => exact ReflTransGen.single (.event hout)
  case complete id input callback =>
    rw [Call.callback] at hnone
    subst hnone
    rcases completeTx_ok hout with ⟨hsame, -⟩ |
      ⟨job, result, hash, s₁, -, hlock, hacc, -, -, hcallback, hrecord⟩
    · rw [hsame]
    · cases hcallback
      exact ReflTransGen.single (.finish hlock hacc hrecord)
  case cancel => exact cancel_actions hout

/-- A call without a callback leaves the business state alone. -/
theorem exec_business (hclock : env.start ≤ env.finish)
    (hnone : call.callback = none) (h : exec wire env s call = .ok (s', ran)) :
    s'.business = s.business :=
  queueActions_business (exec_queueActions hclock hnone h)

/-- **No call loses a job.** -/
theorem exec_kept (hclock : env.start ≤ env.finish)
    (h : exec wire env s call = .ok (s', ran)) {k : ID} {j : Job} (hj : s.jobs.find? k = some j) :
    ∃ j', s'.jobs.find? k = some j' := by
  obtain ⟨j', hj', -⟩ := (actions_evolves (exec_actions hclock (call.adds_true _) h)).kept k j hj
  exact ⟨j', hj'⟩

/-! ## Enqueueing -/

theorem enqueueTx_inserts {n : ℕ} {input : EnqueueInput}
    (h : enqueueTx wire env n s input = .ok s') :
    ∃ j, s'.jobs.find? (newJob env n input).id = some j := by
  obtain ⟨jobs, s₁, receipt, hins, hfirst, hevent⟩ := enqueueTx_ok h
  have hnew : jobs.find? (newJob env n input).id = some (newJob env n input) := by
    rw [Table.find?_insert? hins, if_pos rfl]
  obtain ⟨j₁, hj₁, -⟩ := (reserveFirst_evolves (P := fun _ => True) hfirst).kept _ _ hnew
  obtain ⟨j₂, hj₂, -⟩ := (appendJobEvent_evolves (P := fun _ => True) hevent).kept _ _ hj₁
  exact ⟨j₂, hj₂⟩

theorem enqueueTx_business {n : ℕ} {input : EnqueueInput}
    (h : enqueueTx wire env n s input = .ok s') : s'.business = s.business :=
  (queueAction_frame (P := fun _ => True) (.enqueue trivial h)).1

theorem enqueueAll_inserts {inputs : List EnqueueInput} :
    ∀ {n : ℕ} {s : Store β}, enqueueAll wire env n s inputs = .ok s' →
      ∀ input ∈ inputs, ∀ id, input.id = some id → ∃ j, s'.jobs.find? id = some j := by
  induction inputs with
  | nil =>
    intro n s _ input hinput
    cases hinput
  | cons first inputs ih =>
    intro n s h input hinput id hid
    unfold enqueueAll at h
    split at h
    · cases h
    · next s₁ hone =>
      rcases List.mem_cons.mp hinput with rfl | hinput
      · obtain ⟨j, hj⟩ := enqueueTx_inserts hone
        have hnew : (newJob env n input).id = id := by
          unfold newJob
          rw [hid, Option.getD_some]
        exact ⟨j, enqueueAll_find? h (hnew ▸ hj)⟩
      · exact ih h input hinput id hid

/-! ## Completions -/

/-- **Completions.** The business state is as before or as the callback leaves it. -/
theorem completeTx_business {id : LeaseIdentity} {input : Result} {c : Callback β}
    {receipt : ResultReceipt} {ran : Bool}
    (h : completeTx wire env s id input (some c) = .ok (s', receipt, ran)) :
    s'.business = s.business ∨
      c.effect s.business = some s'.business ∧
        ∀ e ∈ c.enqueues s.business, ∀ k, e.id = some k → ∃ j, s'.jobs.find? k = some j := by
  rcases completeTx_ok h with ⟨hsame, -⟩ |
    ⟨job, result, hash, s₁, -, hlock, hacc, -, -, hcallback, hrecord⟩
  · rw [hsame]
    exact Or.inl rfl
  · have hlocked := callbackTx_lockLease hcallback hlock
    have hfinish : QueueAction wire env (fun _ => True) s₁ s' := .finish hlocked hacc hrecord
    simp only [callbackTx] at hcallback
    split_ifs at hcallback
    unfold runCallback at hcallback
    split at hcallback
    · cases hcallback
    · next business heffect =>
      have hsame := queueActions_business (enqueueAll_actions (fun _ _ => trivial) hcallback)
      refine Or.inr ⟨?_, fun e he k hk => ?_⟩
      · rw [heffect, (queueAction_frame hfinish).1, hsame]
      · obtain ⟨j, hj⟩ := enqueueAll_inserts hcallback e he k hk
        obtain ⟨j', hj', -⟩ := (queueAction_evolves hfinish).kept k j hj
        exact ⟨j', hj'⟩

/-- **Calls on the business state.** It is as before, or as the callback of the call leaves it. -/
theorem exec_effect (hclock : env.start ≤ env.finish)
    (h : exec wire env s call = .ok (s', ran)) :
    s'.business = s.business ∨
      ∃ c, call.callback = some c ∧ c.effect s.business = some s'.business := by
  cases hc : call.callback with
  | none => exact .inl (exec_business hclock hc h)
  | some c =>
    cases call <;> cases hc
    obtain ⟨out, hout, heq⟩ := Except.of_map h
    cases heq
    rcases completeTx_business hout with hsame | ⟨heffect, -⟩
    · exact .inl hsame
    · exact .inr ⟨c, rfl, heffect⟩

end ProxyLoom.Jobs
