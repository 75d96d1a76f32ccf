/-
# Vmac.Theory.Cmac -- CMAC over any block function

A text of whole blocks is chained with the first subkey added to its last block; any other
text is padded with a bit and zeros, and the second subkey is added.  The subkeys are the
image of zero, doubled once and twice in the field of `2^128` elements.

* `double_eq`: doubling goes byte by byte.
* `tagFrom_block`, `tagFrom_last`: the tag block by block.
-/
import Vmac.Theory.Ccm

namespace Vmac.Theory.Cmac

open Ccm Bytes

set_option autoImplicit false

/-! ## Subkeys -/

/-- A block as a number, its first byte the highest. -/
def value (b : Block) : Nat := ofLe (List.ofFn b).reverse

def ofValue (n : Nat) : Block := fun i => UInt8.ofNat (n / 256 ^ (15 - i.val))

/-- Multiplication by `x` modulo `x^128 + x^7 + x^2 + x + 1`. -/
def double (b : Block) : Block :=
  ofValue (if value b < 2 ^ 127 then 2 * value b else 2 * value b ^^^ (2 ^ 128 + 0x87))

theorem ofLe_testBit (l : List UInt8) (k : Nat) {j : Nat} (inside : j < 8) :
    (ofLe l).testBit (8 * k + j) = (l.getD k 0).toNat.testBit j := by
  induction l generalizing k with
  | nil => simp [ofLe]
  | cons b rest ih =>
      have low : b.toNat < 2 ^ 8 := b.toNat_lt
      have split : ofLe (b :: rest) = 2 ^ 8 * ofLe rest + b.toNat := by rw [ofLe]; omega
      cases k with
      | zero =>
          rw [split, Nat.testBit_two_pow_mul_add _ low, Nat.mul_zero, Nat.zero_add, if_pos inside]
          rfl
      | succ k =>
          rw [split, Nat.testBit_two_pow_mul_add _ low, if_neg (by omega), show 8 * (k + 1) + j - 8 = 8 * k + j by omega, ih]
          rfl

/-- Bit `j` of byte `i`. -/
theorem value_testBit (b : Block) (i : Fin 16) {j : Nat} (inside : j < 8) :
    (value b).testBit (8 * (15 - i) + j) = (b i).toNat.testBit j := by
  rw [value, ofLe_testBit _ _ inside]
  congr 2
  have there : 15 - i.val < (List.ofFn b).reverse.length := by simp; omega
  rw [List.getD_eq_getElem _ _ there, List.getElem_reverse, List.getElem_ofFn]
  congr 1
  apply Fin.ext
  simp
  omega

theorem ofValue_testBit (n : Nat) (i : Fin 16) {j : Nat} (inside : j < 8) :
    (ofValue n i).toNat.testBit j = n.testBit (8 * (15 - i) + j) := by
  have power : 256 ^ (15 - i.val) = 2 ^ (8 * (15 - i.val)) := by rw [Nat.pow_mul]
  have low : (ofValue n i).toNat = n / 2 ^ (8 * (15 - i.val)) % 2 ^ 8 := by
    rw [ofValue, power]
    exact UInt8.toNat_ofNat'
  rw [low, Nat.testBit_mod_two_pow, decide_eq_true inside, Bool.true_and, Nat.testBit_div_two_pow, Nat.add_comm]

theorem block_ext {a b : Block} (same : ∀ i, ∀ j < 8, (a i).toNat.testBit j = (b i).toNat.testBit j) : a = b := by
  funext i
  apply UInt8.toNat_inj.mp
  apply Nat.eq_of_testBit_eq
  intro j
  by_cases inside : j < 8
  · exact same i j inside
  · have above (c : UInt8) : c.toNat.testBit j = false :=
      Nat.testBit_lt_two_pow (Nat.lt_of_lt_of_le c.toNat_lt (Nat.pow_le_pow_right (by decide) (by omega)))
    rw [above, above]

theorem value_lt (b : Block) : value b < 2 ^ 128 := by
  have bound := ofLe_lt (List.ofFn b).reverse
  rw [List.length_reverse, List.length_ofFn] at bound
  exact bound

theorem value_low_iff (b : Block) : value b < 2 ^ 127 ↔ (b 0).toNat.testBit 7 = false := by
  rw [← value_testBit b 0 (by decide)]
  constructor
  · intro low
    exact Nat.testBit_lt_two_pow low
  · intro clear
    refine Nat.lt_pow_two_of_testBit _ fun i above => ?_
    rcases Nat.eq_or_lt_of_le above with top | beyond
    · rw [← top]
      exact clear
    · exact Nat.testBit_lt_two_pow (Nat.lt_of_lt_of_le (value_lt b) (Nat.pow_le_pow_right (by decide) beyond))

/-- The bit below bit `j` of byte `i`. -/
def below (b : Block) (i : Fin 16) : Nat → Bool
  | 0 => if i = 15 then false else (b (i + 1)).toNat.testBit 7
  | j + 1 => (b i).toNat.testBit j

theorem twice_testBit (b : Block) (i : Fin 16) {j : Nat} (inside : j < 8) :
    (2 * value b).testBit (8 * (15 - i) + j) = below b i j := by
  have shift (q : Nat) : (2 * value b).testBit (q + 1) = (value b).testBit q := by
    rw [Nat.testBit_succ, Nat.mul_div_cancel_left _ (by decide)]
  cases j with
  | zero =>
      by_cases last : i = 15
      · subst last
        rw [below, if_pos rfl]
        show (2 * value b).testBit 0 = false
        rw [Nat.testBit_zero, Nat.mul_mod_right]
        rfl
      · have next : (i + 1 : Fin 16).val = i.val + 1 := by
          have small : i.val < 15 := by omega
          rw [Fin.val_add]
          exact Nat.mod_eq_of_lt (by omega)
        rw [below, if_neg last, ← value_testBit b (i + 1) (by decide), ← shift, next]
        congr 1
        omega
  | succ j => rw [below, ← Nat.add_assoc, shift, value_testBit b i (by omega)]

/-- Doubling, byte by byte from the first on. -/
def doubleBytes (b : Block) : Block := fun i =>
  if i = 15 then (b 15 <<< 1) ^^^ (if b 0 &&& 0x80 = 0 then 0 else 0x87) else (b i <<< 1) ||| (b (i + 1) >>> 7)

/-- The bits of a byte that is shifted to the left, or out of which the carry is taken. -/
theorem shifted_testBit (a : UInt8) : (∀ j < 8,
      ((a <<< 1).toNat.testBit j = match j with
        | 0 => false
        | j + 1 => a.toNat.testBit j) ∧
      (a >>> 7).toNat.testBit j = match j with
        | 0 => a.toNat.testBit 7
        | _ + 1 => false) ∧
    (a.toNat.testBit 7 = false ↔ a &&& 0x80 = 0) := by
  revert a
  exact forall_byte (by decide +kernel)

theorem shiftLeft_testBit (a : UInt8) : ∀ j < 8, (a <<< 1).toNat.testBit j = match j with
    | 0 => false
    | j + 1 => a.toNat.testBit j := fun j inside => ((shifted_testBit a).1 j inside).1

theorem carry_testBit (a : UInt8) : ∀ j < 8, (a >>> 7).toNat.testBit j = match j with
    | 0 => a.toNat.testBit 7
    | _ + 1 => false := fun j inside => ((shifted_testBit a).1 j inside).2

theorem high_iff (a : UInt8) : a.toNat.testBit 7 = false ↔ a &&& 0x80 = 0 := (shifted_testBit a).2

/-- The reduction touches the last byte only. -/
theorem reduction_testBit : ∀ i : Fin 16, ∀ j < 8,
    (2 ^ 128 + 0x87).testBit (8 * (15 - i.val) + j) = if i = 15 then (0x87 : UInt8).toNat.testBit j else false := by
  decide +kernel

theorem double_testBit (b : Block) (i : Fin 16) {j : Nat} (inside : j < 8) :
    (double b i).toNat.testBit j =
      (below b i j ^^ if b 0 &&& 0x80 = 0 then false else if i = 15 then (0x87 : UInt8).toNat.testBit j else false) := by
  have low : value b < 2 ^ 127 ↔ b 0 &&& 0x80 = 0 := (value_low_iff b).trans (high_iff _)
  rw [double, ofValue_testBit _ _ inside]
  by_cases clear : b 0 &&& 0x80 = 0
  · rw [if_pos (low.mpr clear), if_pos clear, twice_testBit _ _ inside, Bool.xor_false]
  · rw [if_neg fun small => clear (low.mp small), if_neg clear, Nat.testBit_xor, twice_testBit _ _ inside,
      reduction_testBit i j inside]

theorem double_eq (b : Block) : double b = doubleBytes b := by
  refine block_ext fun i j inside => ?_
  rw [double_testBit _ _ inside, doubleBytes]
  by_cases last : i = 15
  · subst last
    rw [if_pos rfl, if_pos rfl, UInt8.toNat_xor, Nat.testBit_xor, shiftLeft_testBit _ _ inside]
    congr 1
    by_cases clear : b 0 &&& 0x80 = 0
    · rw [if_pos clear, if_pos clear]
      exact (Nat.zero_testBit j).symm
    · rw [if_neg clear, if_neg clear]
  · rw [if_neg last, if_neg last, ite_self, Bool.xor_false, UInt8.toNat_or, Nat.testBit_or,
      shiftLeft_testBit _ _ inside, carry_testBit _ _ inside]
    cases j with
    | zero => rw [below, if_neg last, Bool.false_or]
    | succ j => rw [below, Bool.or_false]

/-! ## The tag -/

section Tag

variable (E : Block → Block)

def subkey₁ : Block := double (E fun _ => 0)

def subkey₂ : Block := double (subkey₁ E)

/-- How many blocks come before the last one. -/
def front (text : List UInt8) : Nat := (text.length + 15) / 16 - 1

/-- The last block, with the subkey for its length. -/
def lastBlock (last : List UInt8) : Block :=
  if last.length = 16 then (blockOf last).xor (subkey₁ E) else (blockOf (last ++ [0x80])).xor (subkey₂ E)

/-- The tag of a text behind a chain that has come to `start`. -/
def tagFrom (start : Block) (text : List UInt8) : Block :=
  let n := front text
  E ((cbcMac E start (blocks (text.take (16 * n)))).xor (lastBlock E (text.drop (16 * n))))

def cmac (text : List UInt8) : Block := tagFrom E (fun _ => 0) text

theorem tagFrom_last (start : Block) {text : List UInt8} (short : text.length ≤ 16) :
    tagFrom E start text = E (start.xor (lastBlock E text)) := by
  have zero : front text = 0 := by
    rw [front]
    omega
  rw [tagFrom, zero, Nat.mul_zero, List.take_zero, List.drop_zero]
  rfl

theorem blocks_append {head : List UInt8} (sixteen : head.length = 16) (tail : List UInt8) :
    blocks (head ++ tail) = blockOf head :: blocks tail := by
  have count : ((head ++ tail).length + 15) / 16 = (tail.length + 15) / 16 + 1 := by
    rw [List.length_append, sixteen]
    omega
  rw [blocks, blocks, count, List.range_succ_eq_map, List.map_cons, List.map_map, blockAt_zero_append sixteen]
  congr 1
  refine List.map_congr_left fun b _ => ?_
  funext i
  rw [Function.comp_apply, blockAt, blockAt, List.getD_append_right _ _ _ _ (by omega), sixteen]
  congr 1
  omega

/-- The chain goes on behind a block that is not the last one. -/
theorem tagFrom_block (start : Block) {text : List UInt8} (long : 16 < text.length) :
    tagFrom E start text = tagFrom E (E (start.xor (blockOf (text.take 16)))) (text.drop 16) := by
  have sixteen : (text.take 16).length = 16 := List.length_take_of_le (Nat.le_of_lt long)
  have next : front text = front (text.drop 16) + 1 := by
    rw [front, front, List.length_drop]
    omega
  have taken : text.take (16 * (front (text.drop 16) + 1)) =
      text.take 16 ++ (text.drop 16).take (16 * front (text.drop 16)) := by
    rw [show 16 * (front (text.drop 16) + 1) = 16 + 16 * front (text.drop 16) by omega, List.take_add]
  have dropped : text.drop (16 * (front (text.drop 16) + 1)) =
      (text.drop 16).drop (16 * front (text.drop 16)) := by
    rw [List.drop_drop]
    congr 1
    omega
  rw [tagFrom, tagFrom, next, taken, dropped, blocks_append sixteen]
  rfl

end Tag

end Vmac.Theory.Cmac
