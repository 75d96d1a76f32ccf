/-
# Vmac.Theory.Michael -- the Michael message integrity code

A key of 8 bytes and a message give a code of 8 bytes.  The message is padded with `0x5a` and
four to seven zeros to whole words; every word is added to the left half of the state, which
then passes through `round`.

* `append_padded`: a state that takes the message byte by byte ends in the state that takes it
  word by word.
-/
import Mathlib.Data.List.Basic
import Vmac.Theory.Bytes

namespace Vmac.Theory.Michael

open Bytes

set_option autoImplicit false

/-! ## Word by word -/

structure State where
  left : UInt32
  right : UInt32
  deriving DecidableEq, Repr

def rol (x n : UInt32) : UInt32 := x <<< n ||| x >>> (32 - n)

def ror (x n : UInt32) : UInt32 := x >>> n ||| x <<< (32 - n)

/-- Exchange the bytes of both halves. -/
def xswap (x : UInt32) : UInt32 := (x &&& 0xff00ff00) >>> 8 ||| (x &&& 0x00ff00ff) <<< 8

def round (s : State) : State :=
  let r := s.right ^^^ rol s.left 17
  let l := s.left + r
  let r := r ^^^ xswap l
  let l := l + r
  let r := r ^^^ rol l 3
  let l := l + r
  let r := r ^^^ ror l 2
  ⟨l + r, r⟩

def absorb (s : State) (word : UInt32) : State := round { s with left := s.left ^^^ word }

/-- Four bytes, the lowest first. -/
def word (a b c d : UInt8) : UInt32 :=
  a.toUInt32 ||| b.toUInt32 <<< 8 ||| c.toUInt32 <<< 16 ||| d.toUInt32 <<< 24

def words : List UInt8 → List UInt32
  | a :: b :: c :: d :: rest => word a b c d :: words rest
  | _ => []

def pad (message : List UInt8) : List UInt8 :=
  message ++ 0x5a :: List.replicate (7 - message.length % 4) 0

def start (key : List UInt8) : State :=
  ⟨word (key.getD 0 0) (key.getD 1 0) (key.getD 2 0) (key.getD 3 0),
    word (key.getD 4 0) (key.getD 5 0) (key.getD 6 0) (key.getD 7 0)⟩

def michael (key message : List UInt8) : List UInt8 :=
  let s := (words (pad message)).foldl absorb (start key)
  toLe 4 s.left.toNat ++ toLe 4 s.right.toNat

theorem length_michael (key message : List UInt8) : (michael key message).length = 8 := by
  simp [michael]

/-! ## Byte by byte -/

/-- A state with up to three bytes of the next word. -/
structure Buffered where
  state : State
  partialWord : UInt32
  count : Nat
  deriving DecidableEq, Repr

def appendByte (s : Buffered) (b : UInt8) : Buffered :=
  let w := s.partialWord ||| b.toUInt32 <<< UInt32.ofNat (8 * s.count)
  if 4 ≤ s.count + 1 then ⟨absorb s.state w, 0, 0⟩ else ⟨s.state, w, s.count + 1⟩

theorem appendByte_four (s : State) (a b c d : UInt8) :
    [a, b, c, d].foldl appendByte ⟨s, 0, 0⟩ = ⟨absorb s (word a b c d), 0, 0⟩ := by
  simp [appendByte, word]

/-- Whole words, byte by byte. -/
theorem append_words (s : State) {bytes : List UInt8} (whole : 4 ∣ bytes.length) :
    bytes.foldl appendByte ⟨s, 0, 0⟩ = ⟨(words bytes).foldl absorb s, 0, 0⟩ := by
  induction bytes using words.induct generalizing s with
  | case1 a b c d rest ih =>
      have later : 4 ∣ rest.length := by
        have split : (a :: b :: c :: d :: rest).length = rest.length + 4 := rfl
        omega
      have four : (a :: b :: c :: d :: rest) = [a, b, c, d] ++ rest := rfl
      rw [four, List.foldl_append, appendByte_four, ih _ later]
      rfl
  | case2 bytes short =>
      match bytes, short with
      | [], _ => rfl
      | [_], _ | [_, _], _ | [_, _, _], _ =>
          simp only [List.length_cons, List.length_nil] at whole
          omega
      | a :: b :: c :: d :: rest, short => exact absurd rfl (short a b c d rest)

theorem length_pad (message : List UInt8) : 4 ∣ (pad message).length := by
  have length : (pad message).length = message.length + 1 + (7 - message.length % 4) := by
    simp [pad]
    omega
  omega

theorem count_appendByte {s : Buffered} (below : s.count < 4) (b : UInt8) :
    (appendByte s b).count = (s.count + 1) % 4 := by
  unfold appendByte
  dsimp only
  split
  · show 0 = _
    omega
  · show s.count + 1 = _
    omega

theorem count_append (bytes : List UInt8) {s : Buffered} (below : s.count < 4) :
    (bytes.foldl appendByte s).count = (s.count + bytes.length) % 4 := by
  induction bytes generalizing s with
  | nil => exact (Nat.mod_eq_of_lt below).symm
  | cons b rest ih =>
      have next := count_appendByte below b
      rw [List.foldl_cons, ih (by omega), next, List.length_cons]
      omega

/-- Append zeros until the word is whole. -/
def fill : Nat → Buffered → Buffered
  | 0, s => s
  | n + 1, s => if s.count = 0 then s else fill n (appendByte s 0)

theorem fill_eq {n : Nat} {s : Buffered} (below : s.count < 4) (enough : (4 - s.count) % 4 ≤ n) :
    fill n s = (List.replicate ((4 - s.count) % 4) 0).foldl appendByte s := by
  induction n generalizing s with
  | zero =>
      have none_left : (4 - s.count) % 4 = 0 := by omega
      rw [none_left]
      rfl
  | succ n ih =>
      rw [fill]
      split
      · rename_i whole
        rw [whole]
        rfl
      · have next := count_appendByte below 0
        have zeros : (4 - s.count) % 4 = (4 - (appendByte s 0).count) % 4 + 1 := by omega
        rw [ih (by omega) (by omega), zeros, List.replicate_succ, List.foldl_cons]

/-- Message, padding and the zeros to a whole word, byte by byte. -/
theorem append_padded (key message : List UInt8) :
    fill 3 ([0x5a, 0, 0, 0, 0].foldl appendByte (message.foldl appendByte ⟨start key, 0, 0⟩)) =
      ⟨(words (pad message)).foldl absorb (start key), 0, 0⟩ := by
  have clear : (⟨start key, 0, 0⟩ : Buffered).count < 4 := Nat.succ_pos 3
  have count := count_append (message ++ [0x5a, 0, 0, 0, 0]) clear
  have zeros : 7 - message.length % 4 =
      4 + (4 - (message ++ [0x5a, 0, 0, 0, 0]).length % 4) % 4 := by
    simp only [List.length_append, List.length_cons, List.length_nil]
    omega
  have padded : pad message = (message ++ [0x5a, 0, 0, 0, 0]) ++
      List.replicate ((4 - (message ++ [0x5a, 0, 0, 0, 0]).length % 4) % 4) 0 := by
    rw [pad, zeros, List.replicate_add, List.append_assoc]
    rfl
  have filled := fill_eq (n := 3) (s := (message ++ [0x5a, 0, 0, 0, 0]).foldl appendByte ⟨start key, 0, 0⟩)
    (by omega) (by omega)
  rw [Nat.zero_add] at count
  rw [count, ← List.foldl_append, ← padded] at filled
  rw [← List.foldl_append, filled, append_words _ (length_pad message)]

end Vmac.Theory.Michael
