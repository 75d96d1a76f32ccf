/-
# Vmac.Theory.Bytes -- little-endian fields of a byte string

The vocabulary every packed header is built from: a field of `w` bytes is
written by `toLe w` and read back by `ofLe`, least significant byte first.

* `toLe w n` -- the low `w` bytes of `n`; `ofLe_toLe` reads them back modulo
  `256 ^ w`, and `toLe_ofLe` writes back what was read.
* `pull n` -- drop `n` bytes from the front when there are that many, and
  leave a shorter string alone.
* `byteAt` -- read a byte of a string that lies in a longer memory, `past`
  being what follows its end; `field` reads a little-endian field that way.
-/
import Mathlib.Data.List.Basic
import Mathlib.Tactic.Ring

namespace Vmac.Theory.Bytes

set_option autoImplicit false

/-- Sixteen bytes have a first. -/
instance neZero_sixteen : NeZero 16 := ⟨by decide⟩

/-- A property of a byte holds if it holds of the 256 bytes. -/
theorem forall_byte {P : UInt8 → Prop} (all : ∀ n : Fin 256, P (UInt8.ofNat n)) (b : UInt8) : P b := by
  have eq : UInt8.ofNat b.toNat = b := UInt8.ofNat_toNat
  exact eq ▸ all ⟨b.toNat, b.toNat_lt⟩

/-! ## Fields -/

/-- The low `w` bytes of `n`, least significant first. -/
def toLe : Nat → Nat → List UInt8
  | 0, _ => []
  | w + 1, n => UInt8.ofNat (n % 256) :: toLe w (n / 256)

/-- Little-endian bytes read as a natural. -/
def ofLe : List UInt8 → Nat
  | [] => 0
  | b :: bs => b.toNat + 256 * ofLe bs

@[simp] theorem length_toLe (w n : Nat) : (toLe w n).length = w := by
  induction w generalizing n with
  | zero => rfl
  | succ w ih => simp [toLe, ih]

theorem ofLe_toLe (w n : Nat) : ofLe (toLe w n) = n % 256 ^ w := by
  induction w generalizing n with
  | zero => simp [toLe, ofLe, Nat.mod_one]
  | succ w ih =>
      have byte : (UInt8.ofNat (n % 256)).toNat = n % 256 := by simp
      rw [toLe, ofLe, byte, ih, Nat.pow_succ, Nat.mul_comm (256 ^ w), Nat.mod_mul]

/-- A field that fits its width is read back exactly. -/
theorem ofLe_toLe_of_lt {w n : Nat} (fits : n < 256 ^ w) : ofLe (toLe w n) = n := by
  rw [ofLe_toLe, Nat.mod_eq_of_lt fits]

theorem ofLe_lt (bs : List UInt8) : ofLe bs < 256 ^ bs.length := by
  induction bs with
  | nil => simp [ofLe]
  | cons b bs ih =>
      have hb : b.toNat < 256 := b.toNat_lt
      rw [ofLe, List.length_cons, Nat.pow_succ]
      omega

/-- Writing back the value of a byte string gives the byte string. -/
theorem toLe_ofLe (bs : List UInt8) : toLe bs.length (ofLe bs) = bs := by
  induction bs with
  | nil => rfl
  | cons b bs ih =>
      have hb : b.toNat < 256 := b.toNat_lt
      have hm : (b.toNat + 256 * ofLe bs) % 256 = b.toNat := by omega
      have hd : (b.toNat + 256 * ofLe bs) / 256 = ofLe bs := by omega
      simp [toLe, ofLe, hm, hd, ih]

/-- Fields are equal when the numbers agree as far as the width goes. -/
theorem toLe_eq_iff (w a b : Nat) : toLe w a = toLe w b ↔ a % 256 ^ w = b % 256 ^ w := by
  constructor
  · intro same
    rw [← ofLe_toLe, same, ofLe_toLe]
  · intro same
    rw [← ofLe_toLe, ← ofLe_toLe w b] at same
    have left := toLe_ofLe (toLe w a)
    have right := toLe_ofLe (toLe w b)
    rw [length_toLe] at left right
    rw [← left, same, right]

/-! ## Reading at the front of a string that lies in memory -/

/-- Drop the first `n` bytes; a string shorter than `n` is left as it is. -/
def pull (n : Nat) (data : List UInt8) : List UInt8 :=
  if n ≤ data.length then data.drop n else data

@[simp] theorem pull_append {a b : List UInt8} : pull a.length (a ++ b) = b := by
  simp [pull]

theorem pull_of_length {n : Nat} {a b : List UInt8} (h : a.length = n) :
    pull n (a ++ b) = b := by
  subst h; exact pull_append

/-- Byte `i` counted from the front of `data`; from its end on, memory is `past`. -/
def byteAt (past : Nat → UInt8) (data : List UInt8) (i : Nat) : UInt8 :=
  (data[i]?).getD (past (i - data.length))

/-- The `w`-byte field at offset `o`. -/
def field (past : Nat → UInt8) (data : List UInt8) (o w : Nat) : Nat :=
  ofLe ((List.range w).map fun k => byteAt past data (o + k))

theorem field_lt (past : Nat → UInt8) (data : List UInt8) (o w : Nat) :
    field past data o w < 256 ^ w := by
  have := ofLe_lt ((List.range w).map fun k => byteAt past data (o + k))
  simpa [field] using this

/-- What lies inside the string does not depend on the memory behind it. -/
theorem byteAt_inside {past past' : Nat → UInt8} {data : List UInt8} {i : Nat} (inside : i < data.length) :
    byteAt past' data i = byteAt past data i := by
  rw [byteAt, byteAt, List.getElem?_eq_getElem inside, Option.getD_some, Option.getD_some]

theorem field_inside {past past' : Nat → UInt8} {data : List UInt8} {o w : Nat} (inside : o + w ≤ data.length) :
    field past' data o w = field past data o w := by
  rw [field, field]
  congr 1
  refine List.map_congr_left fun k member => byteAt_inside ?_
  have := List.mem_range.mp member
  omega

theorem byteAt_append_right (past : Nat → UInt8) {a : List UInt8} {n : Nat} (h : a.length = n)
    (b : List UInt8) (i : Nat) : byteAt past (a ++ b) (n + i) = byteAt past b i := by
  subst h
  have index : a.length + i - a.length = i := by omega
  have behind : a.length + i - (a.length + b.length) = i - b.length := by omega
  rw [byteAt, byteAt, List.getElem?_append_right (by omega), List.length_append, index, behind]

/-- Bytes that lie inside the string are read from it. -/
theorem map_byteAt_append (past : Nat → UInt8) (pre mid post : List UInt8) :
    (List.range mid.length).map (fun k => byteAt past (pre ++ mid ++ post) (pre.length + k)) =
      mid := by
  apply List.ext_getElem
  · simp
  · intro k hk hk'
    have inside : (pre ++ mid ++ post)[pre.length + k]? = some (mid[k]) := by
      rw [List.append_assoc, List.getElem?_append_right (by omega)]
      rw [List.getElem?_append_left (by omega)]
      simp
    rw [List.getElem_map, List.getElem_range, byteAt, inside, Option.getD_some]

/-- A field that lies inside the string is read from it. -/
theorem field_of_split (past : Nat → UInt8) {data pre mid post : List UInt8} {o w : Nat}
    (split : data = pre ++ mid ++ post) (offset : pre.length = o) (width : mid.length = w) :
    field past data o w = ofLe mid := by
  subst split offset width
  rw [field, map_byteAt_append]

/-- Reading the field `toLe w n` laid at offset `o`. -/
theorem field_toLe (past : Nat → UInt8) {data : List UInt8} (pre post : List UInt8) {o w n : Nat}
    (split : data = pre ++ toLe w n ++ post) (offset : pre.length = o) (fits : n < 256 ^ w) :
    field past data o w = n := by
  rw [field_of_split past split offset (length_toLe w n), ofLe_toLe_of_lt fits]

end Vmac.Theory.Bytes
