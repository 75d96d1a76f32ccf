/-
# Vmac.Theory.Serial -- serial numbers

Numbers on a circle of `2 * h` places.  `ahead h base x` is the way from `base` to
`x`, going up, and `Less h a b` the half-space comparison: `a` lies in the half
circle behind `b`.

* `less_iff`: between numbers less than half a circle apart, seen from a common
  base, `Less` is the order of the ways.
* `ahead_rebase`: what moving the base does to a way.
-/
import Mathlib.Data.Int.ModEq
import Mathlib.Tactic.Linarith

namespace Vmac.Theory.Serial

set_option autoImplicit false

/-- The way from `base` up to `x`. -/
def ahead (h base x : Int) : Int := (x - base) % (2 * h)

/-- `a` lies less than half a circle behind `b`, or opposite to it. -/
def Less (h a b : Int) : Prop := h ≤ ahead h b a

instance (h a b : Int) : Decidable (Less h a b) := inferInstanceAs (Decidable (_ ≤ _))

section Circle

variable {h : Int} (base : Int) {a b x : Int}

theorem ahead_nonneg (pos : 0 < h) (x : Int) : 0 ≤ ahead h base x := Int.emod_nonneg _ (by omega)

theorem ahead_lt (pos : 0 < h) (x : Int) : ahead h base x < 2 * h := Int.emod_lt_of_pos _ (by omega)

@[simp] theorem ahead_self : ahead h base base = 0 := by simp [ahead]

/-- A way is determined by its length modulo the circle. -/
theorem ahead_eq {d : Int} (nonneg : 0 ≤ d) (short : d < 2 * h)
    (way : (x - base - d) % (2 * h) = 0) : ahead h base x = d := by
  have same : (x - base) % (2 * h) = d % (2 * h) :=
    Int.emod_eq_emod_iff_emod_sub_eq_zero.mpr way
  rw [ahead, same, Int.emod_eq_of_lt nonneg short]

/-- Ways from a common base add up. -/
theorem ahead_sub : (ahead h base x - ahead h base a) % (2 * h) = ahead h a x := by
  unfold ahead
  rw [← Int.sub_emod]
  congr 1
  omega

theorem ahead_rebase (pos : 0 < h) (below : ahead h base a ≤ ahead h base x) :
    ahead h a x = ahead h base x - ahead h base a := by
  have low := ahead_nonneg base pos a
  have high := ahead_lt base pos x
  rw [← ahead_sub base, Int.emod_eq_of_lt (by omega) (by omega)]

theorem ahead_add (pos : 0 < h) (short : ahead h base a + ahead h a x < 2 * h) :
    ahead h base x = ahead h base a + ahead h a x := by
  have first := ahead_nonneg base pos a
  have second := ahead_nonneg a pos x
  apply ahead_eq base (by omega) short
  have around : x - base - (ahead h base a + ahead h a x) =
      (a - base - ahead h base a) + (x - a - ahead h a x) := by omega
  rw [around]
  apply Int.emod_eq_zero_of_dvd
  exact Int.dvd_add Int.dvd_self_sub_emod Int.dvd_self_sub_emod

/-- Behind the base the way goes once around. -/
theorem ahead_wrap (pos : 0 < h) (above : ahead h base x < ahead h base a) :
    ahead h a x = 2 * h + ahead h base x - ahead h base a := by
  have low := ahead_nonneg base pos x
  have high := ahead_lt base pos a
  rw [← ahead_sub base, ← Int.add_emod_right, Int.emod_eq_of_lt (by omega) (by omega)]
  omega

theorem less_iff (pos : 0 < h) (near : ahead h base a - ahead h base b < h)
    (near' : ahead h base b - ahead h base a ≤ h) :
    Less h a b ↔ ahead h base a < ahead h base b := by
  unfold Less
  by_cases below : ahead h base b ≤ ahead h base a
  · rw [ahead_rebase base pos below]
    omega
  · rw [ahead_wrap base pos (by omega)]
    omega

/-- `Less` in terms of the way from the smaller number. -/
theorem less_of_ahead (pos : 0 < h) (way : 0 < ahead h a b) (near : ahead h a b ≤ h) :
    Less h a b := by
  apply (less_iff a pos _ _).mpr <;> rw [ahead_self] <;> omega

end Circle

end Vmac.Theory.Serial
