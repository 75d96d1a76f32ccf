/-
# Vmac.Theory.OnesSum -- sums of sixteen-bit words in one's complement

The checksum of the internet protocols: words are added, carries are added at the other end, and a string with its
checksum sums up to all ones.

* `wordSum`: the sum of the words of a string, in either byte order; a word at an even place is one of its terms.
* `foldWhile`: the loop that adds the carries; `foldWhile_eq_iff`: when it leaves all ones.
-/
import Mathlib.Data.List.Basic

namespace Vmac.Theory.OnesSum

set_option autoImplicit false

/-- The byte order of a host. -/
inductive ByteOrder where
  | little
  | big
deriving DecidableEq

/-- Two bytes, read as an integer of sixteen bits. -/
def ByteOrder.word (o : ByteOrder) (a b : UInt8) : Nat :=
  match o with
  | .little => a.toNat + 256 * b.toNat
  | .big => 256 * a.toNat + b.toNat

/-- The bytes of an integer of sixteen bits. -/
def ByteOrder.bytes (o : ByteOrder) (w : UInt16) : List UInt8 :=
  match o with
  | .little => [w.toUInt8, (w >>> 8).toUInt8]
  | .big => [(w >>> 8).toUInt8, w.toUInt8]

/-- The sum of the words; half a word is filled with zero. -/
def wordSum (o : ByteOrder) : List UInt8 → Nat
  | [] => 0
  | [a] => o.word a 0
  | a :: b :: s => o.word a b + wordSum o s

variable {o : ByteOrder}

theorem word_lt (o : ByteOrder) (a b : UInt8) : o.word a b < 65536 := by
  have := a.toNat_lt
  have := b.toNat_lt
  cases o <;> simp only [ByteOrder.word] <;> omega

theorem length_bytes (o : ByteOrder) (w : UInt16) : (o.bytes w).length = 2 := by
  cases o <;> rfl

/-- What was written is read. -/
theorem wordSum_bytes (o : ByteOrder) (w : UInt16) : wordSum o (o.bytes w) = w.toNat := by
  have small := w.toNat_lt
  cases o <;>
  · simp only [ByteOrder.bytes, wordSum, ByteOrder.word, UInt16.toNat_toUInt8, UInt16.toNat_shiftRight]
    rw [show (8 : UInt16).toNat % 16 = 8 from rfl, Nat.shiftRight_eq_div_pow]
    omega

/-- Behind an even number of bytes the words are those of the rest. -/
theorem wordSum_append {s t : List UInt8} (even : s.length % 2 = 0) :
    wordSum o (s ++ t) = wordSum o s + wordSum o t := by
  induction s using wordSum.induct with
  | case1 => rw [List.nil_append, wordSum, Nat.zero_add]
  | case2 a => exact absurd even (by simp)
  | case3 a b s ih =>
      rw [List.cons_append, List.cons_append, wordSum, wordSum, ih, Nat.add_assoc]
      rw [List.length_cons, List.length_cons] at even
      omega

/-- A word at an even place. -/
theorem wordSum_at {x y z : List UInt8} (even : x.length % 2 = 0) (two : y.length = 2) :
    wordSum o (x ++ (y ++ z)) = wordSum o x + (wordSum o y + wordSum o z) := by
  rw [wordSum_append even, wordSum_append (by omega)]

/-! ## Carries -/

/-- `while (sum >> 16) sum = (sum & 0xffff) + (sum >> 16)`. -/
def foldWhile (sum : Nat) : Nat :=
  if 65536 ≤ sum then foldWhile (sum % 65536 + sum / 65536) else sum
termination_by sum
decreasing_by omega

/-- The sum keeps its residue, and stays positive. -/
theorem foldWhile_spec (sum : Nat) :
    foldWhile sum < 65536 ∧ foldWhile sum % 65535 = sum % 65535 ∧ (foldWhile sum = 0 ↔ sum = 0) := by
  induction sum using foldWhile.induct with
  | case1 sum large ih =>
      rw [foldWhile, if_pos large]
      obtain ⟨below, residue, zero⟩ := ih
      refine ⟨below, by omega, zero.trans (by omega)⟩
  | case2 sum small =>
      rw [foldWhile, if_neg small]
      exact ⟨by omega, rfl, Iff.rfl⟩

/-- The sum is all ones. -/
theorem foldWhile_eq_iff {sum : Nat} (positive : 0 < sum) : foldWhile sum = 65535 ↔ sum % 65535 = 0 := by
  obtain ⟨below, residue, zero⟩ := foldWhile_spec sum
  omega

end Vmac.Theory.OnesSum
