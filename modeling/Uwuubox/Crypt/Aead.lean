import Uwuubox.Bytes.Encoding

/-!
# Authenticated encryption as a parameter

The cipher itself is a third-party crate, so it enters as a pair of functions.
Two things are ever assumed of it, and never together with its definition:

* `Aead.Sound` — the functional contract: decrypting under the same key and
  nonce undoes encryption, and a ciphertext is 16 bytes (the Poly1305 tag)
  longer than its plaintext.
* `Aead.Ideal log` — the security idealisation: a ciphertext decrypts exactly if it
  was produced by one of the encryptions recorded in `log`, under that key and
  nonce, and then to what was encrypted.

`Aead.tagged` and `Aead.recorded` are concrete pairs with these properties, so
neither assumption is empty.
-/

/-- The two operations of an AEAD with keys `K` and nonces `N`. -/
structure Aead (K N : Type) where
  /-- Encrypt and tag. -/
  encrypt : K → N → Bytes → Bytes
  /-- Check the tag and decrypt. -/
  decrypt : K → N → Bytes → Option Bytes

namespace Aead

/-- Length of the authentication tag. -/
def tagLen : ℕ := 16

variable {K N : Type}

/-- Opening undoes sealing under the same key and nonce, and sealing adds a tag. -/
structure Sound (A : Aead K N) : Prop where
  decrypt_encrypt : ∀ k n p, A.decrypt k n (A.encrypt k n p) = some p
  length_encrypt : ∀ k n p, (A.encrypt k n p).length = p.length + tagLen

/-- Only what a recorded encryption produced decrypts, and to its plaintext. -/
structure Ideal (A : Aead K N) (log : List (K × N × Bytes)) : Prop where
  opens : ∀ k n p, (k, n, p) ∈ log → A.decrypt k n (A.encrypt k n p) = some p
  produced : ∀ k n c p, A.decrypt k n c = some p → (k, n, p) ∈ log ∧ c = A.encrypt k n p
  length_encrypt : ∀ k n p, (A.encrypt k n p).length = p.length + tagLen

/-- A stand-in cipher: the plaintext followed by a tag of zeros. -/
def tagged : Aead K N where
  encrypt _ _ p := p ++ List.replicate tagLen 0
  decrypt _ _ c :=
    if c.drop (c.length - tagLen) = List.replicate tagLen 0 ∧ tagLen ≤ c.length
    then some (c.take (c.length - tagLen)) else none

theorem tagged_sound : (tagged : Aead K N).Sound where
  decrypt_encrypt k n p := by simp [tagged]
  length_encrypt k n p := by simp [tagged]

/-- The stand-in cipher that accepts exactly the recorded encryptions. -/
def recorded [DecidableEq K] [DecidableEq N] (log : List (K × N × Bytes)) : Aead K N where
  encrypt _ _ p := p ++ List.replicate tagLen 0
  decrypt k n c :=
    (log.find? fun e => e.1 = k ∧ e.2.1 = n ∧ e.2.2 ++ List.replicate tagLen 0 = c).map (·.2.2)

theorem recorded_ideal [DecidableEq K] [DecidableEq N] (log : List (K × N × Bytes)) :
    (recorded log).Ideal log where
  opens k n p hmem := by
    obtain ⟨e, hfind⟩ : ∃ e, (log.find? fun e => e.1 = k ∧ e.2.1 = n ∧
        e.2.2 ++ List.replicate tagLen 0 = p ++ List.replicate tagLen 0) = some e := by
      rw [← Option.isSome_iff_exists, List.find?_isSome]
      exact ⟨_, hmem, by simp⟩
    have hpred := List.find?_some hfind
    simp only [decide_eq_true_eq] at hpred
    simp only [recorded, hfind, Option.map_some, List.append_cancel_right hpred.2.2]
  produced k n c p h := by
    simp only [recorded, Option.map_eq_some_iff] at h
    obtain ⟨⟨k', n', p'⟩, hfind, rfl⟩ := h
    have hmem := List.mem_of_find?_eq_some hfind
    have hpred := List.find?_some hfind
    simp only [decide_eq_true_eq] at hpred
    obtain ⟨rfl, rfl, rfl⟩ := hpred
    exact ⟨hmem, rfl⟩
  length_encrypt k n p := by simp [recorded]

end Aead
