/-
# Vmac.Theory.Marks -- a counter and the marks it counts

Each member of a set may carry a mark, and a counter says how many do.  Whoever marks a member
counts it; a member that goes with its mark on leaves the counter one too high.

* `Tallied m S lost`: the marked members are those of `S`, and the counter is `lost` too high.
* `Tallied.exchange`: one member's mark and the counter change together.
* `Tallied.forget`: one member loses its mark, and the counter stays.
-/
import Mathlib.Data.Finset.Card
import Mathlib.Logic.Function.Basic

namespace Vmac.Theory.Marks

set_option autoImplicit false

structure Tally (ι : Type) where
  count : Int
  marked : ι → Bool

structure Tallied {ι : Type} (m : Tally ι) (S : Finset ι) (lost : Nat) : Prop where
  marked : ∀ i, m.marked i = true ↔ i ∈ S
  count : m.count = S.card + lost

namespace Tallied

variable {ι : Type} [DecidableEq ι] {m : Tally ι} {S : Finset ι} {lost : Nat}

theorem weight (tallied : Tallied m S lost) (a : ι) (b : Bool) :
    ((if b then insert a S else S.erase a).card : Int) = S.card - (m.marked a).toInt + b.toInt := by
  by_cases inside : a ∈ S
  · have positive : 0 < S.card := Finset.card_pos.mpr ⟨a, inside⟩
    rw [(tallied.marked a).mpr inside]
    cases b with
    | false =>
        simp only [Bool.false_eq_true, if_false, Finset.card_erase_of_mem inside, Bool.toInt, cond_true, cond_false]
        omega
    | true => simp [Finset.insert_eq_of_mem inside, Bool.toInt]
  · have unmarked : m.marked a = false := Bool.eq_false_iff.mpr (mt (tallied.marked a).mp inside)
    rw [unmarked]
    cases b with
    | false => simp [Finset.erase_eq_of_notMem inside, Bool.toInt]
    | true => simp [Finset.card_insert_of_notMem inside, Bool.toInt]

theorem marked_update (tallied : Tallied m S lost) (a : ι) (b : Bool) (i : ι) :
    Function.update m.marked a b i = true ↔ i ∈ (if b then insert a S else S.erase a) := by
  by_cases at_ : i = a
  · subst at_
    cases b <;> simp
  · rw [Function.update_of_ne at_, tallied.marked i]
    cases b <;> simp [at_]

/-- One member's mark is exchanged, and the counter counts the others as before. -/
theorem exchange (tallied : Tallied m S lost) {a : ι} {b : Bool} {count : Int}
    (others : count - b.toInt = m.count - (m.marked a).toInt) :
    Tallied ⟨count, Function.update m.marked a b⟩ (if b then insert a S else S.erase a) lost := by
  refine ⟨tallied.marked_update a b, ?_⟩
  have size := tallied.weight a b
  have before := tallied.count
  show count = _
  omega

/-- One member's mark is taken off without the counter; a mark that was on is lost. -/
theorem forget (tallied : Tallied m S lost) (a : ι) :
    Tallied ⟨m.count, Function.update m.marked a false⟩ (S.erase a) (lost + (m.marked a).toNat) := by
  refine ⟨fun i => ?_, ?_⟩
  · simpa using tallied.marked_update a false i
  · have size := tallied.weight a false
    have before := tallied.count
    show m.count = _
    cases mark : m.marked a with
    | false =>
        simp only [mark, Bool.false_eq_true, if_false, Bool.toInt, cond_false, Bool.toNat_false] at size ⊢
        omega
    | true =>
        simp only [mark, Bool.false_eq_true, if_false, Bool.toInt, cond_true, cond_false, Bool.toNat_true] at size ⊢
        omega

omit [DecidableEq ι] in
theorem nonneg (tallied : Tallied m S lost) : 0 ≤ m.count := by
  have count := tallied.count
  omega

end Tallied

end Vmac.Theory.Marks
