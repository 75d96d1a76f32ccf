/-
# Vmac.Theory.Stream -- stream ciphers with a check value

A generator of key stream bytes, a text masked with them, and a text that is masked together
with a check value of it.

* `crypt_crypt`: masking again from the same state gives the text back.
* `decrypt_encrypt`, `encrypt_of_decrypt`: what is decrypted is what was encrypted.
-/
import Mathlib.Data.List.Basic

namespace Vmac.Theory.Stream

set_option autoImplicit false

section Generator

variable {σ : Type} (next : σ → σ × UInt8)

/-- The state behind a text, and the masked text. -/
def crypt : σ → List UInt8 → σ × List UInt8
  | s, [] => (s, [])
  | s, b :: bs => ((crypt (next s).1 bs).1, (b ^^^ (next s).2) :: (crypt (next s).1 bs).2)

@[simp] theorem length_crypt (s : σ) (text : List UInt8) : (crypt next s text).2.length = text.length := by
  induction text generalizing s with
  | nil => rfl
  | cons b bs ih => simp [crypt, ih]

theorem crypt_append (s : σ) (front back : List UInt8) :
    crypt next s (front ++ back) =
      ((crypt next (crypt next s front).1 back).1,
        (crypt next s front).2 ++ (crypt next (crypt next s front).1 back).2) := by
  induction front generalizing s with
  | nil => rfl
  | cons b bs ih => simp [crypt, ih]

@[simp] theorem crypt_crypt (s : σ) (text : List UInt8) : (crypt next s (crypt next s text).2).2 = text := by
  induction text generalizing s with
  | nil => rfl
  | cons b bs ih => simp [crypt, ih, UInt8.xor_assoc]

variable (width : Nat) (check : List UInt8 → List UInt8)

/-- A text with its check value, masked. -/
def encrypt (s : σ) (text : List UInt8) : List UInt8 := (crypt next s (text ++ check text)).2

/-- The text of what is sealed that way, if the check value behind it is right. -/
def decrypt (s : σ) (sealed : List UInt8) : Option (List UInt8) :=
  let plain := (crypt next s sealed).2
  let text := plain.take (plain.length - width)
  if width ≤ plain.length ∧ plain.drop (plain.length - width) = check text then some text else none

variable {width check} (sized : ∀ text, (check text).length = width)

include sized

theorem length_encrypt (s : σ) (text : List UInt8) : (encrypt next check s text).length = text.length + width := by
  simp [encrypt, sized]

theorem decrypt_encrypt (s : σ) (text : List UInt8) :
    decrypt next width check s (encrypt next check s text) = some text := by
  have front : (text ++ check text).length - width = text.length := by simp [sized]
  have enough : width ≤ (text ++ check text).length := by simp [sized]
  unfold decrypt encrypt
  rw [crypt_crypt]
  dsimp only
  rw [front, List.take_left, List.drop_left, if_pos ⟨enough, rfl⟩]

omit sized in
theorem encrypt_of_decrypt {s : σ} {sealed text : List UInt8}
    (opened : decrypt next width check s sealed = some text) : sealed = encrypt next check s text := by
  unfold decrypt at opened
  dsimp only at opened
  split at opened
  · rename_i right
    obtain rfl := Option.some.inj opened
    rw [encrypt, ← right.2, List.take_append_drop, crypt_crypt]
  · cases opened

end Generator

end Vmac.Theory.Stream
