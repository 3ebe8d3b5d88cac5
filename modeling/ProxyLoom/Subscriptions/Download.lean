import ProxyLoom.Subscriptions.Invariants

/-!
# Downloads serve live credentials

A download reads the head publication of a profile and its pins. `download_ok` and
`safePublished_ok` say what it has checked; with the sources of rows it follows that every node the
published batch was frozen from is still there, enabled, and under the credentials it was frozen
with.

The run at the end compiles, validates, publishes and downloads one target.
-/

namespace ProxyLoom.Subscriptions

open IR Catalog Except

variable {svc : Service} {t : Tables} {scope : ID}

/-! ## What a download has checked -/

theorem dependencyOk_row {id : ID} {epoch : ℕ} (h : dependencyOk t scope id epoch = true) :
    ∃ row, t.row? scope id = some row ∧ row.resource.metadata.enabled = true ∧
      row.deleted = false ∧ row.resource.metadata.securityEpoch = epoch := by
  unfold dependencyOk at h
  obtain ⟨row, hrow, hok⟩ := (Option.any_eq_true _ _).mp h
  simp only [Bool.and_eq_true, Bool.not_eq_true', decide_eq_true_eq] at hok
  exact ⟨row, hrow, hok.1.1, hok.1.2, hok.2⟩

theorem safePublished_ok {p : PublicationRow} {current : Resource × SubscriptionProfile}
    (h : safePublished t p current = .ok ()) {d : DependencyRow}
    (hd : d ∈ t.dependencies.rows) (hp : d.publicationID = p.id) :
    dependencyOk t d.scopeID d.resourceID d.securityEpoch = true := by
  unfold safePublished at h
  obtain ⟨-, h⟩ := of_ite h
  obtain ⟨scope, -, h⟩ := of_bind h
  obtain ⟨b, -, h⟩ := of_bind h
  obtain ⟨hsafe, -⟩ := of_ite h
  simp only [Bool.or_eq_true, not_or, Bool.not_eq_true', Bool.not_eq_false] at hsafe
  have hall := List.all_eq_true.mp hsafe.1.1.2 d (List.mem_filter.mpr ⟨hd, by simp [hp]⟩)
  exact hall

theorem findPublication_some {id : ID} {p : PublicationRow} :
    findPublication t scope id = some p ↔
      t.publications.find? id = some p ∧ p.scopeID = scope := by
  unfold findPublication
  rw [Option.filter_eq_some_iff]
  simp

theorem download_ok {now : Jobs.Time} {token key : String} {d : Download}
    (h : download svc t now token key = .ok d) :
    ∃ row secret current p generation o, parseToken svc token key = some (row.publicID, secret) ∧
      t.tokens.find? row.publicID = some row ∧
      profile t row.scopeID row.profileID = .ok current ∧
      headID t row.scopeID row.profileID = some (p.id, generation) ∧
      p ∈ t.publications.rows ∧ p.scopeID = row.scopeID ∧ safePublished t p current = .ok () ∧
      t.outputs.find? (row.scopeID, p.batchID, key) = some o ∧
      d = ⟨o.bytes, contentType o.descriptor.format⟩ := by
  unfold download at h
  split at h
  · cases h
  · next publicID secret htoken =>
    split at h
    · cases h
    · next row hrow =>
      have hid : row.publicID = publicID := Table.key_of_find? hrow
      obtain ⟨-, h⟩ := of_ite h
      split at h
      · cases h
      · next current hcurrent =>
        obtain ⟨-, h⟩ := of_ite h
        split at h
        · cases h
        · next id generation hhead =>
          split at h
          · cases h
          · next p hp =>
            obtain ⟨hfound, hscope⟩ := findPublication_some.mp hp
            have hpid : p.id = id := Table.key_of_find? hfound
            obtain ⟨_, hsafe, h⟩ := of_bind h
            split at h
            · cases h
            · next o ho =>
              cases pure_eq_ok_iff.mp h
              refine ⟨row, secret, current, p, generation, o, ?_, ?_, hcurrent, ?_,
                Table.mem_of_find? hfound, hscope, hsafe, ho, rfl⟩
              · rw [hid]
                exact htoken
              · rw [hid]
                exact hrow
              · rw [hpid]
                exact hhead

/-! ## Live credentials -/

/-- The node is there, enabled, and under the credentials it was frozen with. -/
def Live (t : Tables) (scope id : ID) (n : Node) : Prop :=
  ∃ row current, t.row? scope id = some row ∧ row.deleted = false ∧
    row.resource.metadata.enabled = true ∧ row.resource.payload = .node current ∧
    current.auth = n.auth ∧ realityCredentials current = realityCredentials n

theorem node_of_credentials {payload : Payload} {n : Node}
    (h : credentials payload = credentials (.node n)) :
    ∃ current, payload = .node current ∧ current.auth = n.auth ∧
      realityCredentials current = realityCredentials n := by
  cases payload with
  | node current =>
    simp only [credentials, Option.some.injEq, Prod.mk.injEq] at h
    exact ⟨current, rfl, h.1, h.2⟩
  | _ => cases h

theorem live_of_pin {s : Store} {r : Resource} {n : Node}
    (hfollows : Follows s scope r) (hnode : r.payload = .node n)
    (hpin : dependencyOk s.business scope r.id r.metadata.securityEpoch = true) :
    Live s.business scope r.id n := by
  obtain ⟨row, hrow, henabled, hdeleted, hepoch⟩ := dependencyOk_row hpin
  obtain ⟨row', hrow', -, hsucceeds⟩ := hfollows
  have hsame : row' = row := by
    have hfound : s.business.resources.find? r.id = some row :=
      (Option.filter_eq_some_iff.mp hrow).1
    rw [hrow'] at hfound
    exact Option.some.inj hfound
  subst hsame
  have hsecret := Stamped.secret_eq hsucceeds.stamp hepoch.symm
  have hcredentials : credentials row'.resource.payload = credentials (.node n) := by
    rw [← hnode]
    exact hsecret.symm
  obtain ⟨current, hpayload, hauth, hreality⟩ := node_of_credentials hcredentials
  exact ⟨row', current, hrow, hdeleted, henabled, hpayload, hauth, hreality⟩

/-- **Downloads serve live credentials.** In every reachable state a download returns what the
compiler made of the batch of the head publication of the token's profile, and every node that the
batch was frozen from is live. -/
theorem download_live {w : World} (hw : (subscriptions svc).Reach w) {now : Jobs.Time}
    {token key : String} {d : Download}
    (h : download svc w.store.business now token key = .ok d) :
    ∃ row ∈ w.store.business.tokens.rows, ∃ p ∈ w.store.business.publications.rows,
      ∃ b ∈ w.store.business.batches.rows, ∃ o ∈ w.store.business.outputs.rows,
      (parseToken svc token key).map Prod.fst = some row.publicID ∧
      (headID w.store.business row.scopeID row.profileID).map Prod.fst = some p.id ∧
      p.batchID = b.id ∧ o.batchID = b.id ∧ o.targetKey = key ∧ d.bytes = o.bytes ∧
      CompiledFrom svc b o ∧
      ∀ r ∈ b.frozen.input.resources, ∀ n, r.payload = .node n →
        Live w.store.business b.scopeID r.id n := by
  have hsourced := Reach.sourced hw
  obtain ⟨row, secret, current, p, generation, o, htoken, hrow, -, hhead, hp, -, hsafe, ho, rfl⟩ :=
    download_ok h
  obtain ⟨b, hb, hscope, -, hpins⟩ := hsourced.pinned p hp
  have hbatch : b.id = p.batchID := Table.key_of_find? hb
  have hkey : o.key = (row.scopeID, p.batchID, key) := Table.key_of_find? ho
  simp only [OutputRow.key, Prod.mk.injEq] at hkey
  obtain ⟨⟨b', hb', -, hcompiled⟩, -⟩ := hsourced.attributed o (Table.mem_of_find? ho)
  rw [hkey.2.1, hb] at hb'
  cases hb'
  refine ⟨row, Table.mem_of_find? hrow, p, hp, b, Table.mem_of_find? hb, o, Table.mem_of_find? ho,
    by rw [htoken]; rfl, by rw [hhead]; rfl, hbatch.symm, hkey.2.1.trans hbatch.symm, hkey.2.2,
    rfl, hcompiled,
    fun r hr n hnode => ?_⟩
  obtain ⟨dep, hdep, hid, hepoch⟩ := b.frozen.pinned r hr
  have hpin := safePublished_ok hsafe (hpins dep hdep) rfl
  refine live_of_pin (hsourced.frozen _ b hb r hr) hnode ?_
  rw [hscope, ← hid, ← hepoch]
  exact hpin

/-! ## A small run

One node, one target. The batch is compiled, validated, looked at, published and downloaded. -/

theorem Reach.next {w : World} (hw : (subscriptions svc).Reach w) (env : Env) (call : Call)
    (hstart : w.clock ≤ env.jobs.start) (hfinish : env.jobs.start ≤ env.jobs.finish)
    (hallowed : call.Allowed w) : (subscriptions svc).Reach (w.next svc env call) :=
  .step (l := ⟨env, call⟩) hw ⟨hstart, hfinish, hallowed, rfl⟩

def sampleID (last : Char) : ID :=
  String.ofList ("00000000-0000-4000-8000-00000000000".toList ++ [last])

def sampleLimits : CatalogLimits := ⟨100, 10, 100, 100, 100⟩

def sampleBuild : Build where
  id := sampleID '6'
  family := .xray
  version := "1"
  os := "linux"
  arch := "amd64"
  binarySHA256 := String.ofList (List.replicate 64 'a')

/-- A compiler that writes the passwords of the snapshot's nodes, and digests that name what they
cover. -/
def sampleService : Service where
  wire := { Jobs.plainWire with
    decodeFrozenPayload := fun _ => some ⟨"config_validate", sampleID '6', 0, ""⟩ }
  schema := hostnameSchema
  checks := ⟨fun _ => sampleLimits, fun _ _ => .ok (), fun _ _ => .ok ()⟩
  cores := ⟨"1", [sampleBuild]⟩
  compile input _ := .ok (⟨input.resources.flatMap fun r =>
    match r.payload with
    | .node ⟨_, _, _, .methodPassword _ password, _, _, _, _⟩ =>
      password.toList.map fun c => c.toNat.toUInt8
    | _ => [], 1, 0⟩, [])
  publicationEvidence _ _ := .ok ()
  checkPublication _ _ _ := .ok ()
  redactedNative _ _ := .ok "preview"
  encodeBatchID id := id.toList.map fun c => c.toNat.toUInt8
  decodeBatchID bytes := some (String.ofList (bytes.map fun b => Char.ofNat b.toNat))
  encodeValidation _ _ _ bytes := bytes
  requestDigest _ _ request := match request with
    | .compile .. => "compile"
    | .publish .. => "publish"
    | .rollback .. => "rollback"
  inputDigest _ := "input"
  outputDigest _ := "output"
  previewDigest batch _ _ _ := batch
  tokenDigest publicID _ := publicID
  decodeSecret _ := some (List.replicate 32 0)

def sampleResource (id : ID) (payload : Payload) : Resource where
  metadata := ⟨id, sampleID 'a', payload.kind, 1, 1, "sample", [], true, 1⟩
  payload := payload

def sampleNode : Node where
  schemaVersion := 1
  protocol := .shadowsocks
  endpoint := ⟨"example.org", 443⟩
  auth := .methodPassword .aes128GCM "secret"
  transport := .nativeTCP
  security := .noSecurity
  features := ⟨none, none, none⟩
  origin := none

def sampleTarget : SubscriptionTarget :=
  ⟨"main", sampleID '6', sampleID '4', .xrayJSON, [], none, none⟩

def sampleProfile : SubscriptionProfile :=
  ⟨1, ⟨[sampleID '1'], [], ⟨[], [], []⟩⟩, sampleID '2', sampleID '3', [sampleTarget]⟩

def sampleRows : List Row :=
  [⟨sampleResource (sampleID '1') (.node sampleNode), false, nofun⟩,
    ⟨sampleResource (sampleID '2') (.routingProfile ⟨1, [], .builtin .direct, .preserveDomain⟩),
      false, nofun⟩,
    ⟨sampleResource (sampleID '3') (.dnsProfile ⟨1, [⟨"boot", .localDNS, "", 0⟩],
      [⟨"local", .localDNS, "", 0, "", "", none⟩], [], "local"⟩), false, nofun⟩,
    ⟨sampleResource (sampleID '4') (.clientPreset ⟨1, .xray, .xrayJSON,
      ⟨.socks5, "127.0.0.1", 1080⟩, ⟨false, "", 0⟩⟩), false, nofun⟩,
    ⟨sampleResource (sampleID '5') (.subscriptionProfile sampleProfile), false, nofun⟩]

def sampleCatalog : Catalog.Tables where
  scopes := ⟨[⟨sampleID 'a', 1, 1⟩], by decide⟩
  resources := ⟨sampleRows, by decide⟩

def sampleInitial : World :=
  initialWorld sampleCatalog ⟨[⟨sampleID '6', true⟩], by decide⟩
    ⟨[⟨"token", sampleID 'a', sampleID '5', "token", ["main"], 1, none, false⟩], by decide⟩

def sampleEnv (now : Jobs.Time) (fresh newID : ID) : Env :=
  ⟨Jobs.instantEnv now fresh, newID, fun _ => false, sampleLimits⟩

def sampleActor : Actor := ⟨sampleID 'a', sampleID 'b', "key"⟩

def compileSample : Call := .compile sampleActor (sampleID '5') 1 ["main"]

def sampleCompiled : World :=
  sampleInitial.next sampleService (sampleEnv 1 (sampleID '8') (sampleID '7')) compileSample

def claimSample (executor : Jobs.Executor) (worker : ID) (type : Jobs.JobType) : Call :=
  .queue (.claim ⟨executor, worker, [type], [sampleID '6'], ⟨1, 1, 1⟩, ⟨1, 1, 1⟩⟩)

def sampleClaimed : World :=
  sampleCompiled.next sampleService (sampleEnv 2 (sampleID '0') "")
    (claimSample .apiWorker (sampleID 'e') .compile)

/-- The worker compiles the batch of the job it has leased. -/
def handleSample (w : World) : Call :=
  match w.store.jobs.find? (sampleID '8') with
  | none => .setTokens w.store.business.tokens
  | some j => .handle ⟨j, ⟨j.id, sampleID 'e', j.attempt, j.leaseSeq⟩, j.payload, 0⟩

theorem handleSample_allowed (w : World) : (handleSample w).Allowed w := by
  unfold handleSample
  split <;> trivial

def sampleHandled : World :=
  sampleClaimed.next sampleService (sampleEnv 3 (sampleID '0') "") (handleSample sampleClaimed)

def completeSample (w : World) : Call :=
  match w.handling with
  | [] => .setTokens w.store.business.tokens
  | p :: _ => .complete ⟨sampleID '8', sampleID 'e', 1, 1⟩ p fun _ => (sampleID '9', sampleID 'c')

theorem completeSample_allowed (w : World) : (completeSample w).Allowed w := by
  unfold completeSample
  split
  · trivial
  · next p rest hhandling =>
    show p ∈ w.handling
    rw [hhandling]
    exact List.mem_cons_self

def sampleCommitted : World :=
  sampleHandled.next sampleService (sampleEnv 4 (sampleID '1') "") (completeSample sampleHandled)

def sampleRunning : World :=
  sampleCommitted.next sampleService (sampleEnv 5 (sampleID '2') "")
    (claimSample .runner (sampleID 'f') .configValidate)

def sampleValidated : World :=
  sampleRunning.next sampleService (sampleEnv 6 (sampleID '3') "")
    (.queue (.complete ⟨sampleID 'c', sampleID 'f', 1, 1⟩
      ⟨.succeeded, some .pass, .none, none, none, none⟩ none))

def sampleViewed : World :=
  sampleValidated.next sampleService (sampleEnv 7 (sampleID '4') "")
    (.getBatch sampleActor (sampleID '7'))

def publishSample : Call :=
  .publish sampleActor (sampleID '5') 1 ⟨sampleID '7', 0, sampleID '7', true⟩

def samplePublished : World :=
  sampleViewed.next sampleService (sampleEnv 8 (sampleID '5') (sampleID 'd')) publishSample

theorem reach_sampleCompiled : (subscriptions sampleService).Reach sampleCompiled :=
  Reach.next (.init ⟨_, _, _, rfl⟩) _ _ (by decide) (by decide) trivial

theorem reach_sampleHandled : (subscriptions sampleService).Reach sampleHandled := by
  have hclaimed : (subscriptions sampleService).Reach sampleClaimed :=
    Reach.next reach_sampleCompiled _ _ (by decide) (by decide) rfl
  exact Reach.next hclaimed _ _ (by decide) (by decide) (handleSample_allowed _)

theorem reach_sampleViewed : (subscriptions sampleService).Reach sampleViewed := by
  have hcommitted : (subscriptions sampleService).Reach sampleCommitted :=
    Reach.next reach_sampleHandled _ _ (by decide) (by decide) (completeSample_allowed _)
  have hrunning : (subscriptions sampleService).Reach sampleRunning :=
    Reach.next hcommitted _ _ (by decide) (by decide) rfl
  have hvalidated : (subscriptions sampleService).Reach sampleValidated :=
    Reach.next hrunning _ _ (by decide) (by decide) rfl
  exact Reach.next hvalidated _ _ (by decide) (by decide) trivial

theorem reach_samplePublished : (subscriptions sampleService).Reach samplePublished :=
  Reach.next reach_sampleViewed _ _ (by decide) (by decide) trivial

def samplePassword : List UInt8 := [115, 101, 99, 114, 101, 116]

theorem download_sample : download sampleService samplePublished.store.business 9
    "sub_token.secret" "main" = .ok ⟨samplePassword, "application/json"⟩ := by
  exact eq_ok_of_toOption (by decide +kernel)

theorem download_sample_live :
    ∃ b ∈ samplePublished.store.business.batches.rows,
      ∃ o ∈ samplePublished.store.business.outputs.rows, o.batchID = b.id ∧
        samplePassword = o.bytes ∧ ∀ r ∈ b.frozen.input.resources, ∀ n, r.payload = .node n →
          Live samplePublished.store.business b.scopeID r.id n := by
  obtain ⟨row, -, p, -, b, hb, o, ho, -, -, -, hbatch, -, hbytes, -, hlive⟩ :=
    download_live reach_samplePublished download_sample
  exact ⟨b, hb, o, ho, hbatch, hbytes, hlive⟩

end ProxyLoom.Subscriptions
