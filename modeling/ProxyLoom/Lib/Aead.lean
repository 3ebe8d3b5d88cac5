import ProxyLoom.Lib.Frame

/-!
# Ideal authenticated encryption

An encryption is an entry of a log: a key, a nonce, a plaintext, the data it is bound to and the
ciphertext that was answered. Opening looks the ciphertext up, so nothing opens that was not
encrypted. The answers are ideal if a ciphertext is never answered twice for different entries.
-/

namespace Aead

open Frame

structure Entry where
  key : Bytes
  nonce : Bytes
  plaintext : Bytes
  aad : Bytes
  ciphertext : Bytes
deriving DecidableEq, Repr

abbrev Log := List Entry

/-- The entry was made under the key and the nonce, for the data, with the given answer. -/
def Entry.fits (key nonce ciphertext aad : Bytes) (e : Entry) : Bool :=
  e.key = key && e.nonce = nonce && e.ciphertext = ciphertext && e.aad = aad

def Log.lookup (log : Log) (key nonce ciphertext aad : Bytes) : Option Bytes :=
  (log.find? (Entry.fits key nonce ciphertext aad)).map Entry.plaintext

/-- What an ideal encryption may have answered, with tags of the given size. -/
structure Ideal (tagSize : ℕ) (log : Log) : Prop where
  length : ∀ e ∈ log, e.ciphertext.length = e.plaintext.length + tagSize
  unique : ∀ e ∈ log, ∀ e' ∈ log, e.ciphertext = e'.ciphertext → e = e'

variable {log : Log} {key nonce ciphertext aad plaintext : Bytes} {tagSize : ℕ}

theorem fits_iff {e : Entry} : e.fits key nonce ciphertext aad = true ↔
    e.key = key ∧ e.nonce = nonce ∧ e.ciphertext = ciphertext ∧ e.aad = aad := by
  simp [Entry.fits, and_assoc]

theorem mem_of_lookup (h : log.lookup key nonce ciphertext aad = some plaintext) :
    ⟨key, nonce, plaintext, aad, ciphertext⟩ ∈ log := by
  obtain ⟨e, he, rfl⟩ := Option.map_eq_some_iff.mp h
  obtain ⟨rfl, rfl, rfl, rfl⟩ := fits_iff.mp (List.find?_some he)
  exact List.mem_of_find?_eq_some he

theorem lookup_of_mem (hlog : Ideal tagSize log)
    (h : ⟨key, nonce, plaintext, aad, ciphertext⟩ ∈ log) :
    log.lookup key nonce ciphertext aad = some plaintext := by
  have hsome : (log.find? (Entry.fits key nonce ciphertext aad)).isSome = true := by
    rw [List.find?_isSome]
    exact ⟨_, h, fits_iff.mpr ⟨rfl, rfl, rfl, rfl⟩⟩
  obtain ⟨e, he⟩ := Option.isSome_iff_exists.mp hsome
  obtain ⟨-, -, hciphertext, -⟩ := fits_iff.mp (List.find?_some he)
  have heq := hlog.unique e (List.mem_of_find?_eq_some he) _ h hciphertext
  rw [Log.lookup, he, heq]
  rfl

end Aead
