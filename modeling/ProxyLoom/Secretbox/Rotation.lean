import ProxyLoom.Lib.Machine
import ProxyLoom.Secretbox.Box

/-!
# Records through key rotations

The world is the log of all encryptions, with the records that were sealed and the wrappings that
were handed out. Boxes seal and rewrap in any order, with any keyrings.
-/

namespace ProxyLoom.Secretbox

open IR Frame List Option

/-! ## Worlds -/

structure Sealed where
  ctx : Context
  plaintext : Bytes
  payload : Payload
  dek : Key

/-- A wrapping that was handed out, with the keys it is made of. -/
structure Wrapped where
  ctx : Context
  payload : Payload
  wrapping : Wrapping
  key : Key
  dek : Bytes

def Sealed.entry (e : Sealed) : Aead.Entry :=
  ⟨e.dek, e.payload.nonce, e.plaintext, contextAAD e.ctx "payload" payloadVersion,
    e.payload.ciphertext⟩

def Wrapped.entry (hash : Bytes → Bytes) (v : Wrapped) : Aead.Entry :=
  ⟨v.key, v.wrapping.nonce, v.dek, wrappingAAD hash v.ctx v.payload v.wrapping,
    v.wrapping.ciphertext⟩

structure World where
  log : Aead.Log
  seals : List Sealed
  wraps : List Wrapped

inductive Op where
  | sealing (b : Box) (ctx : Context) (plaintext : Bytes) (dek : Option Key) (d d' : Draw)
  | rewrapping (b : Box) (ctx : Context) (p : Payload) (w : Wrapping) (d : Draw)

/-- What an operation does to the world. A failed one may leave an encryption behind. -/
inductive Step (hash : Bytes → Bytes) : World → Op → World → Prop where
  | sealed {s : World} {b : Box} {ctx : Context} {plaintext : Bytes} {dek : Key} {d d' : Draw}
      {p : Payload} {w : Wrapping} {made : Aead.Log} :
      sealRecord hash b ctx plaintext (some dek) d d' = (.ok (p, w), made) →
      Step hash s (.sealing b ctx plaintext (some dek) d d')
        ⟨s.log ++ made, s.seals ++ [⟨ctx, plaintext, p, dek⟩],
          s.wraps ++ [⟨ctx, p, w, b.activeKey, dek⟩]⟩
  | unsealed {s : World} {b : Box} {ctx : Context} {plaintext : Bytes} {dek : Option Key}
      {d d' : Draw} {f : Failure} {made : Aead.Log} :
      sealRecord hash b ctx plaintext dek d d' = (.error f, made) →
      Step hash s (.sealing b ctx plaintext dek d d') ⟨s.log ++ made, s.seals, s.wraps⟩
  | rewrapped {s : World} {b : Box} {ctx : Context} {p : Payload} {w w' : Wrapping} {d : Draw}
      {dek plaintext : Bytes} {made : Aead.Log} :
      authenticate hash s.log b ctx p w = some (dek, plaintext) →
      rewrap hash s.log b ctx p w d = (.ok w', made) →
      Step hash s (.rewrapping b ctx p w d)
        ⟨s.log ++ made, s.seals, s.wraps ++ [⟨ctx, p, w', b.activeKey, dek⟩]⟩
  | unwrapped {s : World} {b : Box} {ctx : Context} {p : Payload} {w : Wrapping} {d : Draw}
      {f : Failure} {made : Aead.Log} :
      rewrap hash s.log b ctx p w d = (.error f, made) →
      Step hash s (.rewrapping b ctx p w d) ⟨s.log ++ made, s.seals, s.wraps⟩

def machine (hash : Bytes → Bytes) : Machine World Op where
  init s := s = ⟨[], [], []⟩
  step s l t := Step hash s l t ∧ Aead.Ideal tagSize t.log

/-! ## What one operation makes -/

variable {log : Aead.Log} {ctx : Context} {w : Wrapping} {p : Payload} {plaintext : Bytes}

section Operations

variable {hash : Bytes → Bytes} {b : Box} {ctx : Context} {p : Payload} {w w' : Wrapping}
  {d d' : Draw} {plaintext dek : Bytes} {made : Aead.Log} {e : Aead.Entry}

structure Wrapping.Made (w : Wrapping) : Prop where
  version : w.version = wrappingVersion
  keyID : validKeyID w.keyID = true
  nonce : w.nonce.length = nonceSize

structure Payload.Made (p : Payload) : Prop where
  version : p.version = payloadVersion
  nonce : p.nonce.length = nonceSize

theorem wrap_eq_some (h : wrap hash b ctx p dek d = some (w, e)) :
    w.Made ∧ w.keyID = b.activeKeyID ∧ e = Wrapped.entry hash ⟨ctx, p, w, b.activeKey, dek⟩ := by
  unfold wrap at h
  obtain ⟨nonce, -, hpair⟩ := map_eq_some_iff.mp h
  obtain ⟨rfl, rfl⟩ := Prod.mk.inj hpair
  exact ⟨⟨rfl, b.active_valid, nonce.property⟩, rfl, rfl⟩

theorem sealRecord_eq_ok {key : Key}
    (h : sealRecord hash b ctx plaintext (some key) d d' = (.ok (p, w), made)) :
    validContext ctx = true ∧ plaintext.length ≤ maxPlaintextBytes ∧ p.Made ∧ w.Made ∧
      w.keyID = b.activeKeyID ∧ made = [Sealed.entry ⟨ctx, plaintext, p, key⟩,
        Wrapped.entry hash ⟨ctx, p, w, b.activeKey, key⟩] := by
  unfold sealRecord at h
  split at h
  · cases h
  · next hchecks =>
    simp only [Bool.or_eq_true, Bool.not_eq_true', decide_eq_true_eq, not_or, not_lt,
      Bool.not_eq_false] at hchecks
    split at h
    · next nonce hkey hnonce =>
      cases hkey
      simp only [encryptPayload] at h
      split at h
      · next w' e' hwrap =>
        obtain ⟨hmade, hkeyID, he'⟩ := wrap_eq_some hwrap
        cases h
        exact ⟨hchecks.1.2, hchecks.2, ⟨rfl, nonce.2⟩, hmade, hkeyID, by rw [he']; rfl⟩
      · cases h
    · cases h

theorem sealRecord_eq_error {key : Option Key} {f : Failure}
    (h : sealRecord hash b ctx plaintext key d d' = (.error f, made)) :
    ∀ e ∈ made, validContext ctx = true ∧ e.aad = contextAAD ctx "payload" payloadVersion := by
  unfold sealRecord at h
  split at h
  · cases h
    exact fun e he => absurd he not_mem_nil
  · next hchecks =>
    simp only [Bool.or_eq_true, Bool.not_eq_true', decide_eq_true_eq, not_or, not_lt,
      Bool.not_eq_false] at hchecks
    split at h
    · simp only [encryptPayload] at h
      split at h
      · cases h
      · cases h
        intro e he
        rw [mem_singleton.mp he]
        exact ⟨hchecks.1.2, rfl⟩
    · cases h
      exact fun e he => absurd he not_mem_nil

theorem rewrap_eq_ok {dek' plaintext' : Bytes}
    (hauth : authenticate hash log b ctx p w = some (dek', plaintext'))
    (h : rewrap hash log b ctx p w d = (.ok w', made)) :
    w'.Made ∧ w'.keyID = b.activeKeyID ∧
      made = [Wrapped.entry hash ⟨ctx, p, w', b.activeKey, dek'⟩] := by
  unfold rewrap at h
  rw [hauth] at h
  dsimp only at h
  split at h
  · next w₁ e₁ hwrap =>
    obtain ⟨hmade, hkeyID, he₁⟩ := wrap_eq_some hwrap
    obtain ⟨hok, rfl⟩ := Prod.mk.inj h
    obtain rfl := Except.ok.inj hok
    rw [he₁]
    exact ⟨hmade, hkeyID, rfl⟩
  · cases h

theorem rewrap_eq_error {f : Failure} (h : rewrap hash log b ctx p w d = (.error f, made)) :
    made = [] := by
  unfold rewrap at h
  split at h
  · cases h
    rfl
  · split at h
    · cases h
    · cases h
      rfl

end Operations

/-! ## The invariant -/

/-- The wrapping holds the data key of the sealed record, for that record. -/
structure Sealed.Backs (e : Sealed) (v : Wrapped) : Prop where
  ctx : e.ctx = v.ctx
  payload : e.payload = v.payload
  dek : (e.dek : Bytes) = v.dek

structure Sealed.In (s : World) (e : Sealed) : Prop where
  valid : validContext e.ctx = true
  made : e.payload.Made
  short : e.plaintext.length ≤ maxPlaintextBytes
  logged : e.entry ∈ s.log

structure Wrapped.In (hash : Bytes → Bytes) (s : World) (v : Wrapped) : Prop where
  made : v.wrapping.Made
  logged : v.entry hash ∈ s.log
  backed : ∃ e ∈ s.seals, e.Backs v

/-- Every encryption is one of a record's or the one of a wrapping that was handed out, and every
wrapping that was handed out is backed by a sealed record. -/
structure Bound (hash : Bytes → Bytes) (s : World) : Prop where
  entries : ∀ e ∈ s.log,
    (∃ ctx, validContext ctx = true ∧ e.aad = contextAAD ctx "payload" payloadVersion) ∨
      ∃ v ∈ s.wraps, e = v.entry hash
  seals : ∀ e ∈ s.seals, e.In s
  wraps : ∀ v ∈ s.wraps, v.In hash s

section Invariant

variable {hash : Bytes → Bytes} {s t : World} {e : Sealed} {v : Wrapped}

theorem Sealed.In.mono (h : e.In s) (hlog : s.log ⊆ t.log) : e.In t :=
  ⟨h.valid, h.made, h.short, hlog h.logged⟩

theorem Wrapped.In.mono (h : v.In hash s) (hlog : s.log ⊆ t.log)
    (hseals : s.seals ⊆ t.seals) : v.In hash t := by
  obtain ⟨e, he, hbacks⟩ := h.backed
  exact ⟨h.made, hlog h.logged, e, hseals he, hbacks⟩

theorem Bound.empty : Bound hash ⟨[], [], []⟩ :=
  ⟨fun _ he => absurd he not_mem_nil, fun _ he => absurd he not_mem_nil,
    fun _ hv => absurd hv not_mem_nil⟩

theorem Bound.add_entries (h : Bound hash s) {made : Aead.Log}
    (hmade : ∀ e ∈ made, validContext ctx = true ∧
      e.aad = contextAAD ctx "payload" payloadVersion) :
    Bound hash ⟨s.log ++ made, s.seals, s.wraps⟩ := by
  have hlog : s.log ⊆ s.log ++ made := subset_append_left _ _
  refine ⟨?_, fun e he => (h.seals e he).mono hlog,
    fun v hv => (h.wraps v hv).mono hlog (List.Subset.refl _)⟩
  intro e he
  rcases mem_append.mp he with he | he
  · exact h.entries e he
  · exact .inl ⟨ctx, hmade e he⟩

theorem Bound.add_sealed (h : Bound hash s) (hvalid : validContext e.ctx = true)
    (hmade : e.payload.Made) (hshort : e.plaintext.length ≤ maxPlaintextBytes) :
    Bound hash ⟨s.log ++ [e.entry], s.seals ++ [e], s.wraps⟩ := by
  have hentries : ∀ e' ∈ [e.entry], validContext e.ctx = true ∧
      e'.aad = contextAAD e.ctx "payload" payloadVersion := by
    intro e' he'
    rw [mem_singleton.mp he']
    exact ⟨hvalid, rfl⟩
  have hbase := h.add_entries hentries
  refine ⟨hbase.entries, ?_, fun v hv => (hbase.wraps v hv).mono (List.Subset.refl _)
    (subset_append_left _ _)⟩
  intro e' he'
  rcases mem_append.mp he' with he' | he'
  · exact (hbase.seals e' he').mono (List.Subset.refl _)
  · rw [mem_singleton.mp he']
    exact ⟨hvalid, hmade, hshort, mem_append_right _ (mem_singleton_self _)⟩

theorem Bound.add_wrapped (h : Bound hash s) (hmade : v.wrapping.Made)
    (hbacked : ∃ e ∈ s.seals, e.Backs v) :
    Bound hash ⟨s.log ++ [v.entry hash], s.seals, s.wraps ++ [v]⟩ := by
  have hlog : s.log ⊆ s.log ++ [v.entry hash] := subset_append_left _ _
  refine ⟨?_, fun e he => (h.seals e he).mono hlog, ?_⟩
  · intro e he
    rcases mem_append.mp he with he | he
    · rcases h.entries e he with hpayload | ⟨v', hv', heq⟩
      · exact .inl hpayload
      · exact .inr ⟨v', mem_append_left _ hv', heq⟩
    · exact .inr ⟨v, mem_append_right _ (mem_singleton_self v),
        mem_singleton.mp he⟩
  · intro v' hv'
    rcases mem_append.mp hv' with hv' | hv'
    · exact (h.wraps v' hv').mono hlog (List.Subset.refl _)
    · rw [mem_singleton.mp hv']
      exact ⟨hmade, mem_append_right _ (mem_singleton_self _), hbacked⟩

/-! ## What opens -/

theorem Wrapping.Made.fits (h : w.Made) : w.Fits := by
  have hlength := validKeyID_length h.keyID
  unfold maxKeyIDBytes at hlength
  exact ⟨by rw [h.version]; decide, by omega⟩

theorem Payload.Made.fits (h : p.Made) : p.Fits :=
  ⟨by rw [h.version]; decide, h.nonce⟩

variable {b : Box} {ctx : Context} {p : Payload} {w : Wrapping} {dek plaintext : Bytes}

theorem made_of_wellFormed (h : wellFormed b ctx p w = true) :
    validContext ctx = true ∧ p.Made ∧ w.Made := by
  simp only [wellFormed, Bool.not_eq_true', Bool.or_eq_false_iff, Bool.not_eq_false',
    decide_eq_false_iff_not, ne_eq, not_not] at h
  obtain ⟨⟨⟨⟨⟨⟨⟨⟨⟨-, hctx⟩, hpv⟩, hwv⟩, hpn⟩, -⟩, -⟩, hkey⟩, hwn⟩, -⟩ := h
  exact ⟨hctx, ⟨hpv, hpn⟩, ⟨hwv, hkey, hwn⟩⟩

theorem unwrap_eq_some (h : unwrap hash s.log b ctx p w = some dek) :
    wellFormed b ctx p w = true ∧ ∃ key, b.keys.lookup w.keyID = some key ∧
      s.log.lookup key w.nonce w.ciphertext (wrappingAAD hash ctx p w) = some dek := by
  unfold unwrap at h
  split at h
  · cases h
  · next hformed =>
    obtain ⟨key, hkey, hlookup⟩ := bind_eq_some_iff.mp h
    exact ⟨by simpa using hformed, key, hkey, hlookup⟩

/-- An encryption bound to a wrapping's data is that of a wrapping that was handed out. -/
theorem Bound.wrapped_of_mem (hhash : Function.Injective hash) (h : Bound hash s) {key : Bytes}
    (hctx : validContext ctx = true) (hp : p.Made) (hw : w.Made)
    (hmem : ⟨key, w.nonce, dek, wrappingAAD hash ctx p w, w.ciphertext⟩ ∈ s.log) :
    ∃ v ∈ s.wraps, v.ctx = ctx ∧ v.payload = p ∧ v.wrapping = w ∧ (v.key : Bytes) = key ∧
      v.dek = dek := by
  have hfits := fits_of_validContext hctx
  rcases h.entries _ hmem with ⟨ctx', hctx', haad⟩ | ⟨v, hv, hentry⟩
  · exact absurd haad.symm (contextAAD_ne_wrappingAAD (fits_of_validContext hctx') hfits
      length_payload_lt (by decide) hw.fits)
  · obtain ⟨hkey, hnonce, hdek, haad, hciphertext⟩ := Aead.Entry.mk.inj hentry
    have hin := h.wraps v hv
    obtain ⟨e, he, hbacks⟩ := hin.backed
    have hvalid : validContext v.ctx = true := hbacks.ctx ▸ (h.seals e he).valid
    have hmade : v.payload.Made := hbacks.payload ▸ (h.seals e he).made
    obtain ⟨hctx', hp', hversion, hkeyID⟩ := wrappingAAD_inj hhash hfits
      (fits_of_validContext hvalid) hp.fits hmade.fits hw.fits hin.made.fits haad
    have hwrapping : v.wrapping = w :=
      Wrapping.ext hversion.symm hkeyID.symm hnonce.symm hciphertext.symm
    exact ⟨v, hv, hctx'.symm, hp'.symm, hwrapping, hkey.symm, hdek.symm⟩

/-- **What opens was sealed.** -/
theorem authenticate_sound (hhash : Function.Injective hash) (hlog : Aead.Ideal tagSize s.log)
    (h : Bound hash s) (hauth : authenticate hash s.log b ctx p w = some (dek, plaintext)) :
    ∃ v ∈ s.wraps, v.ctx = ctx ∧ v.payload = p ∧ v.wrapping = w ∧ v.dek = dek ∧
      b.keys.lookup w.keyID = some v.key ∧ ∃ e ∈ s.seals, e.Backs v ∧ e.plaintext = plaintext := by
  obtain ⟨dek', hunwrap, hmap⟩ := bind_eq_some_iff.mp hauth
  obtain ⟨plaintext', hopen, hpair⟩ := map_eq_some_iff.mp hmap
  obtain ⟨rfl, rfl⟩ := Prod.mk.inj hpair
  obtain ⟨hformed, key, hkey, hlookup⟩ := unwrap_eq_some hunwrap
  obtain ⟨hctx, hp, hw⟩ := made_of_wellFormed hformed
  obtain ⟨v, hv, rfl, rfl, rfl, hvkey, rfl⟩ :=
    h.wrapped_of_mem hhash hctx hp hw (Aead.mem_of_lookup hlookup)
  obtain ⟨e, he, hbacks⟩ := (h.wraps v hv).backed
  refine ⟨v, hv, rfl, rfl, rfl, rfl, by rw [hkey, Subtype.ext hvkey], e, he, hbacks, ?_⟩
  -- the payload's ciphertext was answered once, for the record that was sealed
  unfold openPayload at hopen
  split at hopen
  · cases hopen
  · have hmem := Aead.mem_of_lookup hopen
    have heq := hlog.unique _ (h.seals e he).logged _ hmem
      (congrArg Payload.ciphertext hbacks.payload)
    exact congrArg Aead.Entry.plaintext heq

/-- **What was sealed and wrapped opens**, wherever the wrapping's key is at hand. -/
theorem authenticate_of_wrapped (hlog : Aead.Ideal tagSize s.log) (h : Bound hash s)
    (hv : v ∈ s.wraps) (he : e ∈ s.seals) (hbacks : e.Backs v)
    (hkey : b.keys.lookup v.wrapping.keyID = some v.key) :
    authenticate hash s.log b v.ctx v.payload v.wrapping = some (v.dek, e.plaintext) := by
  have hin := h.wraps v hv
  have hsealed := h.seals e he
  have hdek : v.dek.length = keySize := hbacks.dek ▸ e.dek.property
  have hwrap := hlog.length _ hin.logged
  have hpayload := hlog.length _ hsealed.logged
  have hshort := hsealed.short
  simp only [Wrapped.entry, Sealed.entry, hbacks.payload, hdek] at hwrap hpayload
  have hformed : wellFormed b v.ctx v.payload v.wrapping = true := by
    have hctx : validContext v.ctx = true := hbacks.ctx ▸ hsealed.valid
    have hp : v.payload.Made := hbacks.payload ▸ hsealed.made
    simp only [wellFormed, ready_eq_true, hctx, hp.version, hp.nonce, hin.made.version,
      hin.made.keyID, hin.made.nonce, hwrap, hpayload]
    simp
    omega
  have hunwrap : unwrap hash s.log b v.ctx v.payload v.wrapping = some v.dek := by
    simp only [unwrap, hformed, hkey, bind_some]
    exact Aead.lookup_of_mem hlog hin.logged
  have hopen : openPayload s.log v.ctx v.payload v.dek = some e.plaintext := by
    have hcipher : newCipher v.dek = true := by
      simp [newCipher, hdek, keySize]
    simp only [openPayload, hcipher]
    have hmem := hsealed.logged
    rw [Sealed.entry, hbacks.ctx, hbacks.payload, hbacks.dek] at hmem
    exact Aead.lookup_of_mem hlog hmem
  rw [authenticate, hunwrap, bind_some, hopen]
  rfl

end Invariant

/-! ## Runs -/

section Runs

variable {hash : Bytes → Bytes} {s t : World} {l : Op}

/-- **Step.** -/
theorem Bound.step (hhash : Function.Injective hash) (hlog : Aead.Ideal tagSize s.log)
    (h : Bound hash s) (hstep : Step hash s l t) : Bound hash t := by
  cases hstep with
  | @sealed b ctx plaintext dek _ _ p w _ hseal =>
    obtain ⟨hctx, hshort, hp, hw, -, rfl⟩ := sealRecord_eq_ok hseal
    have hsealed := h.add_sealed (e := ⟨ctx, plaintext, p, dek⟩) hctx hp hshort
    have hwrapped := hsealed.add_wrapped (v := ⟨ctx, p, w, b.activeKey, dek⟩) hw
      ⟨_, mem_append_right _ (mem_singleton_self _), rfl, rfl, rfl⟩
    rw [append_assoc] at hwrapped
    exact hwrapped
  | unsealed hseal => exact h.add_entries (sealRecord_eq_error hseal)
  | @rewrapped b ctx p w w' _ dek plaintext _ hauth hrewrap =>
    obtain ⟨hw', -, rfl⟩ := rewrap_eq_ok hauth hrewrap
    obtain ⟨v, -, rfl, rfl, -, rfl, -, e, he, hbacks, -⟩ := authenticate_sound hhash hlog h hauth
    exact h.add_wrapped hw' ⟨e, he, hbacks.ctx, hbacks.payload, hbacks.dek⟩
  | unwrapped hrewrap =>
    obtain rfl := rewrap_eq_error hrewrap
    rw [append_nil]
    exact h

/-- **Run.** -/
theorem bound_of_reach (hhash : Function.Injective hash) (h : (machine hash).Reach s) :
    Aead.Ideal tagSize s.log ∧ Bound hash s := by
  refine h.invariant (P := fun s => Aead.Ideal tagSize s.log ∧ Bound hash s) ?_ ?_
  · rintro s rfl
    exact ⟨⟨fun _ he => absurd he not_mem_nil, fun _ he => absurd he not_mem_nil⟩,
      Bound.empty⟩
  · intro s l t _ ih hstep
    exact ⟨hstep.2, ih.2.step hhash ih.1 hstep.1⟩

theorem Step.subset (h : Step hash s l t) : s.seals ⊆ t.seals ∧ s.wraps ⊆ t.wraps := by
  cases h with
  | sealed _ => exact ⟨subset_append_left _ _, subset_append_left _ _⟩
  | unsealed _ => exact ⟨List.Subset.refl _, List.Subset.refl _⟩
  | rewrapped _ _ => exact ⟨List.Subset.refl _, subset_append_left _ _⟩
  | unwrapped _ => exact ⟨List.Subset.refl _, List.Subset.refl _⟩

theorem openRecord_eq_ok {b : Box} (h : openRecord hash log b ctx p w = .ok plaintext) :
    ∃ dek, authenticate hash log b ctx p w = some (dek, plaintext) := by
  unfold openRecord at h
  split at h
  · next dek plaintext' hauth =>
    obtain rfl := Except.ok.inj h
    exact ⟨dek, hauth⟩
  · cases h

theorem openRecord_of_authenticate {b : Box} {dek : Bytes}
    (h : authenticate hash log b ctx p w = some (dek, plaintext)) :
    openRecord hash log b ctx p w = .ok plaintext := by
  unfold openRecord
  rw [h]

theorem rewrap_of_authenticate {b : Box} {dek : Bytes} (nonce : Nonce) (answer : Bytes)
    (h : authenticate hash log b ctx p w = some (dek, plaintext)) :
    (rewrap hash log b ctx p w ⟨some nonce, answer⟩).1 =
      .ok ⟨wrappingVersion, b.activeKeyID, nonce, answer⟩ := by
  unfold rewrap
  rw [h]
  rfl

/-- The wrappings that a record gets, with the box of the last one: the record is sealed, and then
rewrapped by boxes that each have the active key of the one before. In between anything may
happen. -/
inductive Rotation (hash : Bytes → Bytes) (ctx : Context) (plaintext : Bytes) (p : Payload) :
    World → Box → Wrapping → Prop where
  | sealed {s t : World} {b : Box} {w : Wrapping} {dek : Option Key} {d d' : Draw} :
      (machine hash).Reach s → (machine hash).step s (.sealing b ctx plaintext dek d d') t →
      (sealRecord hash b ctx plaintext dek d d').1 = .ok (p, w) →
      Rotation hash ctx plaintext p t b w
  | rewrapped {s t : World} {b b' : Box} {w w' : Wrapping} {d : Draw} :
      Rotation hash ctx plaintext p s b w →
      b'.keys.lookup b.activeKeyID = b.keys.lookup b.activeKeyID →
      (machine hash).step s (.rewrapping b' ctx p w d) t →
      (rewrap hash s.log b' ctx p w d).1 = .ok w' → Rotation hash ctx plaintext p t b' w'
  | other {s t : World} {b : Box} {w : Wrapping} {l : Op} :
      Rotation hash ctx plaintext p s b w → (machine hash).step s l t →
      Rotation hash ctx plaintext p t b w

/-- The wrapping is one of the record's, under the active key of the box. -/
def Current (ctx : Context) (plaintext : Bytes) (p : Payload) (s : World) (b : Box)
    (w : Wrapping) : Prop :=
  w.keyID = b.activeKeyID ∧ ∃ v ∈ s.wraps, v.ctx = ctx ∧ v.payload = p ∧ v.wrapping = w ∧
    v.key = b.activeKey ∧ ∃ e ∈ s.seals, e.Backs v ∧ e.plaintext = plaintext

variable {ctx : Context} {plaintext : Bytes} {p : Payload} {b b' : Box} {w : Wrapping}

theorem Current.authenticate (hlog : Aead.Ideal tagSize s.log) (hbound : Bound hash s)
    (h : Current ctx plaintext p s b w)
    (hkey : b'.keys.lookup b.activeKeyID = b.keys.lookup b.activeKeyID) :
    ∃ dek, authenticate hash s.log b' ctx p w = some (dek, plaintext) := by
  obtain ⟨hkeyID, v, hv, rfl, rfl, rfl, hvkey, e, he, hbacks, rfl⟩ := h
  refine ⟨v.dek, authenticate_of_wrapped hlog hbound hv he hbacks ?_⟩
  rw [hkeyID, hkey, lookup_active, hvkey]

/-- **Rotation.** The last wrapping of a record is one of the record's. -/
theorem Rotation.current (hhash : Function.Injective hash)
    (h : Rotation hash ctx plaintext p s b w) :
    (machine hash).Reach s ∧ Current ctx plaintext p s b w := by
  induction h with
  | sealed hreach hstep hok =>
    refine ⟨hreach.step hstep, ?_⟩
    cases hstep.1 with
    | sealed hseal =>
      rw [hseal] at hok
      obtain ⟨rfl, rfl⟩ := Prod.mk.inj (Except.ok.inj hok)
      obtain ⟨-, -, -, -, hkeyID, -⟩ := sealRecord_eq_ok hseal
      exact ⟨hkeyID, _, mem_append_right _ (mem_singleton_self _), rfl, rfl, rfl, rfl,
        _, mem_append_right _ (mem_singleton_self _), ⟨rfl, rfl, rfl⟩, rfl⟩
    | unsealed hseal =>
      rw [hseal] at hok
      cases hok
  | rewrapped _ hkey hstep hok ih =>
    obtain ⟨hreach, hcurrent⟩ := ih
    refine ⟨hreach.step hstep, ?_⟩
    cases hstep.1 with
    | rewrapped hauth hrewrap =>
      rw [hrewrap] at hok
      obtain rfl := Except.ok.inj hok
      obtain ⟨hlog, hbound⟩ := bound_of_reach hhash hreach
      obtain ⟨-, hkeyID, -⟩ := rewrap_eq_ok hauth hrewrap
      -- the data key that was authenticated is the record's
      obtain ⟨dek, hdek⟩ := hcurrent.authenticate hlog hbound hkey
      obtain ⟨v, -, rfl, rfl, -, rfl, -, e, he, hbacks, rfl⟩ :=
        authenticate_sound hhash hlog hbound hauth
      obtain ⟨-, rfl⟩ := Prod.mk.inj (Option.some.inj (hdek.symm.trans hauth))
      exact ⟨hkeyID, _, mem_append_right _ (mem_singleton_self _), rfl, rfl, rfl, rfl,
        e, he, ⟨hbacks.ctx, hbacks.payload, hbacks.dek⟩, rfl⟩
    | unwrapped hrewrap =>
      rw [hrewrap] at hok
      cases hok
  | other _ hstep ih =>
    obtain ⟨hreach, hkeyID, v, hv, hctx, hp, hw, hkey, e, he, hbacks⟩ := ih
    obtain ⟨hseals, hwraps⟩ := hstep.1.subset
    exact ⟨hreach.step hstep, hkeyID, v, hwraps hv, hctx, hp, hw, hkey, e, hseals he, hbacks⟩

end Runs

/-! ## Records -/

/-- What the encryptions are bound to tells the purpose, the version, the context, the key and the
payload, wherever these fit the widths of the frames. -/
structure AADInjective (hash : Bytes → Bytes) : Prop where
  context : ∀ (ctx ctx' : Context) (purpose purpose' : String) (version version' : ℤ),
    ctx.Fits → ctx'.Fits → (utf8 purpose).length < 256 ^ 4 → (utf8 purpose').length < 256 ^ 4 →
    0 ≤ version ∧ version < 2 ^ 32 → 0 ≤ version' ∧ version' < 2 ^ 32 →
    contextAAD ctx purpose version = contextAAD ctx' purpose' version' →
    ctx = ctx' ∧ purpose = purpose' ∧ version = version'
  wrapping : ∀ (ctx ctx' : Context) (p p' : Payload) (w w' : Wrapping), ctx.Fits → ctx'.Fits →
    p.Fits → p'.Fits → w.Fits → w'.Fits →
    wrappingAAD hash ctx p w = wrappingAAD hash ctx' p' w' →
    ctx = ctx' ∧ p = p' ∧ w.version = w'.version ∧ w.keyID = w'.keyID
  apart : ∀ (ctx ctx' : Context) (purpose : String) (version : ℤ) (p : Payload) (w : Wrapping),
    ctx.Fits → ctx'.Fits → (utf8 purpose).length < 256 ^ 4 → 0 ≤ version ∧ version < 2 ^ 32 →
    w.Fits → contextAAD ctx purpose version ≠ wrappingAAD hash ctx' p w

theorem aadInjective {hash : Bytes → Bytes} (hhash : Function.Injective hash) :
    AADInjective hash where
  context := by
    intro ctx ctx' purpose purpose' version version' hctx hctx' hp hp' hv hv' h
    obtain ⟨hcontext, hpurpose, hversion, -⟩ := contextAAD_append_inj hctx hctx' hp hp' hv hv'
      (congrArg (· ++ []) h)
    exact ⟨hcontext, hpurpose, hversion⟩
  wrapping := fun _ _ _ _ _ _ => wrappingAAD_inj hhash
  apart := fun _ _ _ _ _ _ => contextAAD_ne_wrappingAAD

theorem record_of_authenticate {hash : Bytes → Bytes} (hhash : Function.Injective hash) {s : World}
    (hlog : Aead.Ideal tagSize s.log) (hbound : Bound hash s) {v : Wrapped} (hv : v ∈ s.wraps)
    {b : Box} {dek : Bytes} (h : authenticate hash s.log b ctx p v.wrapping =
      some (dek, plaintext)) :
    ctx = v.ctx ∧ p = v.payload := by
  obtain ⟨v', hv', rfl, rfl, hwrapping, -⟩ := authenticate_sound hhash hlog hbound h
  have hfits : ∀ u ∈ s.wraps, u.ctx.Fits ∧ u.payload.Fits ∧ u.wrapping.Fits := by
    intro u hu
    obtain ⟨e, he, hbacks⟩ := (hbound.wraps u hu).backed
    have hsealed := hbound.seals e he
    exact ⟨hbacks.ctx ▸ fits_of_validContext hsealed.valid, hbacks.payload ▸ hsealed.made.fits,
      (hbound.wraps u hu).made.fits⟩
  -- the ciphertext was answered once, so both wrappings are bound to the same data
  have hentry := hlog.unique _ (hbound.wraps v' hv').logged _ (hbound.wraps v hv).logged
    (congrArg Wrapping.ciphertext hwrapping)
  obtain ⟨hc', hp', hw'⟩ := hfits v' hv'
  obtain ⟨hc, hp, hw⟩ := hfits v hv
  obtain ⟨hctx, hpayload, -⟩ := wrappingAAD_inj hhash hc' hc hp' hp hw' hw
    (congrArg Aead.Entry.aad hentry)
  exact ⟨hctx, hpayload⟩

/-- **Records.** The data of both encryptions can be read back. What opens was sealed, under its
context, and its wrapping was made for it. Through any chain of rewraps the record opens, and can be
rewrapped again. No wrapping opens another record. -/
theorem records_bound_through_rotation {hash : Bytes → Bytes} (hhash : Function.Injective hash) :
    AADInjective hash ∧
    (∀ b ctx p w, wellFormed b ctx p w = true → ctx.Fits ∧ p.Fits ∧ w.Fits) ∧
    (∀ s, (machine hash).Reach s → ∀ b ctx p w plaintext,
      openRecord hash s.log b ctx p w = .ok plaintext →
      ∃ v ∈ s.wraps, v.ctx = ctx ∧ v.payload = p ∧ v.wrapping = w ∧
        b.keys.lookup w.keyID = some v.key ∧ ∃ e ∈ s.seals, e.Backs v ∧ e.plaintext = plaintext) ∧
    (∀ ctx plaintext p s b w, Rotation hash ctx plaintext p s b w →
      openRecord hash s.log b ctx p w = .ok plaintext ∧
      ∀ b' : Box, b'.keys.lookup b.activeKeyID = b.keys.lookup b.activeKeyID →
        ∀ nonce answer, (rewrap hash s.log b' ctx p w ⟨some nonce, answer⟩).1 =
          .ok ⟨wrappingVersion, b'.activeKeyID, nonce, answer⟩) ∧
    (∀ s, (machine hash).Reach s → ∀ v ∈ s.wraps, ∀ b ctx p plaintext,
      openRecord hash s.log b ctx p v.wrapping = .ok plaintext →
      ctx = v.ctx ∧ p = v.payload) := by
  refine ⟨aadInjective hhash, ?_, ?_, ?_, ?_⟩
  · intro b ctx p w h
    obtain ⟨hctx, hp, hw⟩ := made_of_wellFormed h
    exact ⟨fits_of_validContext hctx, hp.fits, hw.fits⟩
  · intro s hreach b ctx p w plaintext h
    obtain ⟨hlog, hbound⟩ := bound_of_reach hhash hreach
    obtain ⟨dek, hauth⟩ := openRecord_eq_ok h
    obtain ⟨v, hv, hctx, hp, hw, -, hkey, hseal⟩ := authenticate_sound hhash hlog hbound hauth
    exact ⟨v, hv, hctx, hp, hw, hkey, hseal⟩
  · intro ctx plaintext p s b w hrotation
    obtain ⟨hreach, hcurrent⟩ := hrotation.current hhash
    obtain ⟨hlog, hbound⟩ := bound_of_reach hhash hreach
    refine ⟨?_, ?_⟩
    · obtain ⟨dek, hauth⟩ := hcurrent.authenticate hlog hbound rfl
      exact openRecord_of_authenticate hauth
    · intro b' hkey nonce answer
      obtain ⟨dek, hauth⟩ := hcurrent.authenticate hlog hbound hkey
      exact rewrap_of_authenticate nonce answer hauth
  · intro s hreach v hv b ctx p plaintext h
    obtain ⟨hlog, hbound⟩ := bound_of_reach hhash hreach
    obtain ⟨dek, hauth⟩ := openRecord_eq_ok h
    exact record_of_authenticate hhash hlog hbound hv hauth

/-! ## A rotation -/

def sampleContext : Context :=
  ⟨"11111111-1111-4111-8111-111111111111", "resource_revisions",
    "22222222-2222-4222-8222-222222222222", 1, 1⟩

def sampleKey (x : UInt8) : Key := ⟨List.replicate 32 x, length_replicate⟩

def sampleNonce (x : UInt8) : Nonce := ⟨List.replicate 12 x, length_replicate⟩

def oldBox : Box := ⟨"old", [("old", sampleKey 1)], sampleKey 9, by decide, by decide⟩

def newBox : Box :=
  ⟨"new", [("old", sampleKey 1), ("new", sampleKey 2)], sampleKey 9, by decide, by decide⟩

def samplePayload : Payload := ⟨1, sampleNonce 3, List.replicate 17 4⟩

def oldWrapping : Wrapping := ⟨1, "old", sampleNonce 5, List.replicate 48 5⟩

def newWrapping : Wrapping := ⟨1, "new", sampleNonce 6, List.replicate 48 6⟩

def sampleSealed : Sealed := ⟨sampleContext, [7], samplePayload, sampleKey 8⟩

def oldWrapped : Wrapped :=
  ⟨sampleContext, samplePayload, oldWrapping, oldBox.activeKey, sampleKey 8⟩

def newWrapped : Wrapped :=
  ⟨sampleContext, samplePayload, newWrapping, newBox.activeKey, sampleKey 8⟩

def sealedWorld : World := ⟨[sampleSealed.entry, oldWrapped.entry id], [sampleSealed], [oldWrapped]⟩

def rotatedWorld : World :=
  ⟨[sampleSealed.entry, oldWrapped.entry id, newWrapped.entry id], [sampleSealed],
    [oldWrapped, newWrapped]⟩

theorem sealRecord_sample : sealRecord id oldBox sampleContext [7] (some (sampleKey 8))
    ⟨some (sampleNonce 3), List.replicate 17 4⟩ ⟨some (sampleNonce 5), List.replicate 48 5⟩ =
      (.ok (samplePayload, oldWrapping), [sampleSealed.entry, oldWrapped.entry id]) := by
  decide +kernel

theorem authenticate_sample : authenticate id sealedWorld.log newBox sampleContext samplePayload
    oldWrapping = some ((sampleKey 8).val, [7]) := by
  decide +kernel

theorem rewrap_sample : rewrap id sealedWorld.log newBox sampleContext samplePayload oldWrapping
    ⟨some (sampleNonce 6), List.replicate 48 6⟩ = (.ok newWrapping, [newWrapped.entry id]) := by
  decide +kernel

theorem ideal_rotated : Aead.Ideal tagSize rotatedWorld.log :=
  ⟨by decide +kernel, by decide +kernel⟩

theorem ideal_sealed : Aead.Ideal tagSize sealedWorld.log :=
  ⟨by decide +kernel, by decide +kernel⟩

theorem rotation_sample :
    Rotation id sampleContext [7] samplePayload rotatedWorld newBox newWrapping := by
  refine Rotation.rewrapped (Rotation.sealed (Machine.Reach.init rfl)
    ⟨Step.sealed sealRecord_sample, ideal_sealed⟩ (congrArg Prod.fst sealRecord_sample)) ?_
    ⟨Step.rewrapped authenticate_sample rewrap_sample, ideal_rotated⟩
    (congrArg Prod.fst rewrap_sample)
  rfl

theorem records_bound_through_rotation_sample :
    Rotation id sampleContext [7] samplePayload rotatedWorld newBox newWrapping ∧
      openRecord id rotatedWorld.log newBox sampleContext samplePayload newWrapping = .ok [7] :=
  ⟨rotation_sample,
    ((records_bound_through_rotation Function.injective_id).2.2.2.1 _ _ _ _ _ _
      rotation_sample).1⟩

end ProxyLoom.Secretbox
