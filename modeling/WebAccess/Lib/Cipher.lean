/-
Authenticated encryption of byte strings, over arbitrary keys. What is ideal about a cipher is said of the calls that
were made of it: what they made opens, nothing else does, and no two of them shared a key and a nonce.
-/
import WebAccess.Lib.Bytes

namespace WebAccess

open Codec

/-- A cipher: key, nonce, associated data and plaintext to ciphertext, and back. -/
structure Cipher (κ : Type) where
  encrypt : κ → Bytes → Bytes → Bytes → Option Bytes
  decrypt : κ → Bytes → Bytes → Bytes → Option Bytes

/-- A call of `encrypt`, and what it made. -/
structure Sealing (κ : Type) where
  key : κ
  nonce : Bytes
  aad : Bytes
  plain : Bytes
  made : Bytes

namespace Cipher

variable {κ : Type} {c : Cipher κ} {made : Sealing κ → Prop} {x : Sealing κ}

/-- Nothing opens but what was made, with the key, the nonce and the associated data it was made with. -/
structure Ideal (c : Cipher κ) (made : Sealing κ → Prop) : Prop where
  opens : ∀ x, made x → c.decrypt x.key x.nonce x.aad x.made = some x.plain
  authentic : ∀ key nonce aad ciphertext plain, c.decrypt key nonce aad ciphertext = some plain →
    made ⟨key, nonce, aad, plain, ciphertext⟩
  fresh : ∀ x y, made x → made y → x.key = y.key → x.nonce = y.nonce → x = y

/-- Under the key and the nonce of a sealing, only that sealing opens. -/
theorem Ideal.decrypt_eq_none (h : c.Ideal made) (hx : made x) {aad ciphertext : Bytes}
    (hother : aad ≠ x.aad ∨ ciphertext ≠ x.made) : c.decrypt x.key x.nonce aad ciphertext = none := by
  cases hopened : c.decrypt x.key x.nonce aad ciphertext with
  | none => rfl
  | some plain =>
    have heq := h.fresh _ _ hx (h.authentic _ _ _ _ _ hopened) rfl rfl
    rw [heq] at hother
    simp at hother

end Cipher

end WebAccess
