/-
# Vmac.Theory.Aes -- the block cipher AES with a key of 128 bits

The cipher of FIPS 197 on sixteen bytes, column by column: byte `4 c + r` is row `r` of
column `c`.  Bytes are polynomials over two elements modulo `x^8 + x^4 + x^3 + x + 1`.

* `mixColumn_eq`: a column is mixed with doubling and addition only.
-/
import Vmac.Theory.Ccm

namespace Vmac.Theory.Aes

open Ccm Bytes

set_option autoImplicit false

/-- A column has a first row. -/
instance neZero_four : NeZero 4 := ⟨by decide⟩

/-! ## Bytes as polynomials -/

/-- Multiplication by `x`; bit `i` of the number is the coefficient of `x^i`. -/
def xtime (b : Nat) : Nat := if b < 0x80 then 2 * b else 2 * b ^^^ 0x11b

/-- The sum of `a x^i` over the lowest `n` coefficients of `b`. -/
def timesBits : Nat → Nat → Nat → Nat
  | 0, _, _ => 0
  | n + 1, a, b => (if b % 2 = 1 then a else 0) ^^^ timesBits n (xtime a) (b / 2)

def times (a b : Nat) : Nat := timesBits 8 a b

/-- `b` to the power of `2 ^ (n + 1) - 1`. -/
def powOnes (b : Nat) : Nat → Nat
  | 0 => b
  | n + 1 => times b (times (powOnes b n) (powOnes b n))

/-- `b` to the power of 254: the inverse, and zero for zero, since there are 256 elements. -/
def inverse (b : Nat) : Nat := times (powOnes b 6) (powOnes b 6)

def mul (a b : UInt8) : UInt8 := UInt8.ofNat (times a.toNat b.toNat)

/-- The factors of `mixColumn`: doubling is a shift, and the reduction of a carry. -/
theorem mul_left (b : UInt8) : mul 1 b = b ∧ (mul 2 b = (b <<< 1) ^^^ if b &&& 0x80 = 0x80 then 0x1b else 0) ∧
    mul 3 b = mul 2 b ^^^ b := by
  revert b
  exact forall_byte (by decide +kernel)

theorem mul_one_left (b : UInt8) : mul 1 b = b := (mul_left b).1

theorem mul_two_left (b : UInt8) : mul 2 b = (b <<< 1) ^^^ if b &&& 0x80 = 0x80 then 0x1b else 0 := (mul_left b).2.1

theorem mul_three_left (b : UInt8) : mul 3 b = mul 2 b ^^^ b := (mul_left b).2.2

/-! ## Rounds -/

/-- The byte rotated left by `k` bits. -/
def rotl (b : UInt8) (k : UInt8) : UInt8 := (b <<< k) ||| (b >>> (8 - k))

/-- The affine transformation of the inverse. -/
def subByte (b : UInt8) : UInt8 :=
  let i := UInt8.ofNat (inverse b.toNat)
  i ^^^ rotl i 1 ^^^ rotl i 2 ^^^ rotl i 3 ^^^ rotl i 4 ^^^ 0x63

def subBytes (s : Block) : Block := fun i => subByte (s i)

/-- Row `r` is rotated by `r` columns. -/
def shiftRows (s : Block) : Block := fun i => s (Fin.ofNat 16 (i + 4 * (i % 4)))

abbrev Column := Fin 4 → UInt8

/-- Column `c` of a state, and word `c` of a round key. -/
def column (s : Block) (c : Nat) : Column := fun r => s (Fin.ofNat 16 (4 * c + r))

/-- A state of four columns. -/
def ofColumns (columns : Nat → Column) : Block := fun i => columns (i / 4) (Fin.ofNat 4 i)

/-- The product with `3 x^3 + x^2 + x + 2` modulo `x^4 + 1`. -/
def mixColumn (s : Column) : Column := fun r =>
  mul 2 (s r) ^^^ mul 3 (s (r + 1)) ^^^ mul 1 (s (r + 2)) ^^^ mul 1 (s (r + 3))

def mixColumns (s : Block) : Block := ofColumns fun c => mixColumn (column s c)

/-- The round constant `x^i`. -/
def rcon : Nat → UInt8
  | 0 => 1
  | i + 1 => mul 2 (rcon i)

def Column.xor (a b : Column) : Column := fun r => a r ^^^ b r

/-- `SubWord` of `RotWord`. -/
def subRotWord (w : Column) : Column := fun r => subByte (w (r + 1))

/-- Four words of the key schedule from the four before them. -/
def nextWords (k : Block) (i : Nat) : Nat → Column
  | 0 => ((column k 0).xor (subRotWord (column k 3))).xor fun r => if r = 0 then rcon i else 0
  | j + 1 => (column k (j + 1)).xor (nextWords k i j)

def nextRoundKey (k : Block) (i : Nat) : Block := ofColumns (nextWords k i)

def roundKey (key : Block) : Nat → Block
  | 0 => key
  | i + 1 => nextRoundKey (roundKey key i) i

/-- The state after the rounds `1` to `n` that mix columns. -/
def fullRounds (key data : Block) : Nat → Block
  | 0 => data.xor (roundKey key 0)
  | n + 1 => (mixColumns (shiftRows (subBytes (fullRounds key data n)))).xor (roundKey key (n + 1))

def cipher (key data : Block) : Block :=
  (shiftRows (subBytes (fullRounds key data 9))).xor (roundKey key 10)

/-- A column is mixed with doubling and addition only. -/
theorem mixColumn_eq (s : Column) (r : Fin 4) :
    mixColumn s r = mul 2 (s r) ^^^ (mul 2 (s (r + 1)) ^^^ s (r + 1)) ^^^ s (r + 2) ^^^ s (r + 3) := by
  rw [mixColumn, mul_three_left, mul_one_left, mul_one_left]

end Vmac.Theory.Aes
