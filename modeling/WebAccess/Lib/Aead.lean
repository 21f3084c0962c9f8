/-
Ideal authenticated encryption, over arbitrary keys and plaintexts: a ciphertext is what was
sealed, the associated data it was sealed with and the key, and nothing but that key and that
associated data opens it. A password based cipher is the same with the passphrase for the key.
-/
import WebAccess.Lib.Bytes

namespace WebAccess

open Codec

/-- A ciphertext. -/
structure Sealed (κ α : Type) where
  key : κ
  aad : Bytes
  plain : α
  deriving DecidableEq

namespace Sealed

variable {κ α : Type} [DecidableEq κ]

/-- What a key and associated data make of a ciphertext. -/
def openWith (c : Sealed κ α) (key : κ) (aad : Bytes) : Option α :=
  if c.key = key ∧ c.aad = aad then some c.plain else none

theorem openWith_eq_some {c : Sealed κ α} {key : κ} {aad : Bytes} {plain : α} :
    c.openWith key aad = some plain ↔ c = ⟨key, aad, plain⟩ := by
  obtain ⟨key', aad', plain'⟩ := c
  unfold openWith
  split
  · rename_i h
    obtain ⟨rfl, rfl⟩ := h
    simp
  · rename_i h
    simpa using fun hk ha => absurd ⟨hk, ha⟩ h

@[simp]
theorem openWith_self (key : κ) (aad : Bytes) (plain : α) :
    (⟨key, aad, plain⟩ : Sealed κ α).openWith key aad = some plain :=
  openWith_eq_some.2 rfl

end Sealed

end WebAccess
