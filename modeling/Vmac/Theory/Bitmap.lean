/-
# Vmac.Theory.Bitmap -- small sets in a machine word

A word stands for the set of the places of its bits.
-/
import Mathlib.Data.BitVec

namespace Vmac.Theory.Bitmap

set_option autoImplicit false

variable {w : Nat}

theorem or_and (a b m : BitVec w) : (a ||| b) &&& m = (a &&& m) ||| (b &&& m) := by
  ext i bound
  simp [Bool.and_or_distrib_right]

/-- What is put into the set is in it. -/
theorem or_and_self (a b : BitVec w) : (a ||| b) &&& b = b := by
  ext i bound
  simp only [BitVec.getElem_and, BitVec.getElem_or]
  cases b[i] <;> simp

/-- What is in the set stays in it. -/
theorem or_and_ne_zero {a m : BitVec w} (b : BitVec w) (inside : a &&& m ≠ 0) : (a ||| b) &&& m ≠ 0 := by
  intro outside
  rw [or_and] at outside
  exact inside (BitVec.or_eq_zero_iff.mp outside).1

/-- What is taken out of the set is apart from the rest of it. -/
theorem clear_and {a b m : BitVec w} (apart : b &&& m = 0) : (a &&& ~~~b) &&& m = a &&& m := by
  ext i bound
  have out := congrArg (fun v => v[i]) apart
  simp only [BitVec.getElem_and, BitVec.getElem_not] at out ⊢
  cases there : m[i]
  · simp
  · have none_ : b[i] = false := by simpa [there] using out
    simp [none_]

end Vmac.Theory.Bitmap
