/-
# Vmac.Theory.Ring -- a ring of `w` marks under a stream of numbers

A receiver that remembers the last `w` numbers of a stream keeps one mark per
number in a ring: number `s` has slot `s % w`.  `Marks` is such a ring with the
latest number it follows; `slide` moves it forward one number at a time, clearing
the slot each new number takes over; `setMark` marks a number.

`Exact` says the ring is what it is for: inside the window of the last `w`
numbers, a slot carries the mark exactly when its number has been received.

* `eq_of_slot_eq`: inside one window, a slot belongs to one number.
* `slide_exact`, `setMark_exact`, `exact_insert_old`: sliding, marking a number of
  the window and ignoring a number below it keep the ring exact.
* `setMark_owner`, `owner_not_mem`: marking a number below the window in a slot that
  is clear records another number, the `owner` of the slot, that was not received.
-/
import Mathlib.Data.Nat.ModEq
import Mathlib.Data.Set.Insert
import Mathlib.Logic.Function.Basic

namespace Vmac.Theory.Ring

set_option autoImplicit false
set_option linter.unusedVariables false

universe u

/-! ## Slots -/

/-- `s` is one of the last `w` numbers up to `latest`. -/
def InWindow (w latest s : Nat) : Prop := s ≤ latest ∧ latest < s + w

instance (w latest s : Nat) : Decidable (InWindow w latest s) :=
  inferInstanceAs (Decidable (_ ∧ _))

theorem sub_eq_zero_of_mod_eq {w a b : Nat} (le : a ≤ b) (near : b < a + w)
    (slot : a % w = b % w) : b - a = 0 := by
  have dvd : w ∣ b - a := (Nat.modEq_iff_dvd' le).mp slot
  exact Nat.eq_zero_of_dvd_of_lt dvd (by omega)

/-- Inside one window, a slot belongs to one number. -/
theorem eq_of_slot_eq {w latest a b : Nat} (ha : InWindow w latest a) (hb : InWindow w latest b)
    (slot : a % w = b % w) : a = b := by
  obtain ⟨ha, ha'⟩ := ha
  obtain ⟨hb, hb'⟩ := hb
  rcases Nat.le_total a b with le | le
  · have := sub_eq_zero_of_mod_eq le (by omega) slot
    omega
  · have := sub_eq_zero_of_mod_eq le (by omega) slot.symm
    omega

/-- The number of the window whose slot an older number `s` maps to. -/
def owner (w latest s : Nat) : Nat := latest - (latest - s) % w

theorem owner_slot {w latest s : Nat} (old : s ≤ latest) : owner w latest s % w = s % w := by
  have split := Nat.div_add_mod (latest - s) w
  have shift : owner w latest s = s + w * ((latest - s) / w) := by
    have := Nat.mod_le (latest - s) w
    have := Nat.sub_add_cancel old
    unfold owner
    omega
  rw [shift, Nat.add_mul_mod_self_left]

theorem owner_inWindow {w latest s : Nat} (pos : 0 < w) (old : s + w ≤ latest) :
    InWindow w latest (owner w latest s) := by
  have small := Nat.mod_lt (latest - s) pos
  constructor
  · exact Nat.sub_le ..
  · unfold owner
    omega

/-! ## Sliding and marking -/

/-- A ring of marks and the latest number it follows. -/
structure Marks (α : Type u) where
  latest : Nat
  slot : Nat → α

section Marks

variable {α : Type u} (w : Nat) (clear mark : α)

/-- Follow the stream `n` numbers further, clearing the slot of each. -/
def slide : Nat → Marks α → Marks α
  | 0, r => r
  | n + 1, r =>
      slide n ⟨r.latest + 1, Function.update r.slot ((r.latest + 1) % w) clear⟩

/-- Mark the slot of `s`. -/
def setMark (r : Marks α) (s : Nat) : Marks α :=
  ⟨r.latest, Function.update r.slot (s % w) mark⟩

/-- In the window of the ring, exactly the received numbers are marked. -/
def Exact (r : Marks α) (received : Set Nat) : Prop :=
  ∀ s, InWindow w r.latest s →
    (s ∈ received → r.slot (s % w) = mark) ∧ (s ∉ received → r.slot (s % w) = clear)

variable {w clear mark}

@[simp] theorem slide_latest (n : Nat) (r : Marks α) :
    (slide w clear n r).latest = r.latest + n := by
  induction n generalizing r with
  | zero => rfl
  | succ n ih => simp only [slide, ih]; omega

/-- Sliding clears the slots of the numbers passed over and no others. -/
theorem slide_slot (clear : α) (n : Nat) (r : Marks α) (x : Nat) :
    (slide w clear n r).slot x = clear ∧ (∃ s, r.latest < s ∧ s ≤ r.latest + n ∧ s % w = x) ∨
      (slide w clear n r).slot x = r.slot x ∧
        ∀ s, r.latest < s → s ≤ r.latest + n → s % w ≠ x := by
  induction n generalizing r with
  | zero => right; exact ⟨rfl, fun s _ _ => by omega⟩
  | succ n ih =>
      rcases ih ⟨r.latest + 1, Function.update r.slot ((r.latest + 1) % w) clear⟩ with
        ⟨cleared, s, above, below, slot⟩ | ⟨kept, others⟩
      · left
        simp only at above below
        exact ⟨cleared, s, by omega, by omega, slot⟩
      · by_cases here : (r.latest + 1) % w = x
        · left
          refine ⟨?_, r.latest + 1, by omega, by omega, here⟩
          rw [slide, kept]; simp only [here, Function.update_self]
        · right
          refine ⟨?_, fun s above below => ?_⟩
          · rw [slide, kept]; exact Function.update_of_ne (Ne.symm here) ..
          · by_cases first : s = r.latest + 1
            · rw [first]; exact here
            · exact others s (by simp only; omega) (by simp only; omega)

/-- Sliding past numbers not yet received keeps the ring exact. -/
theorem slide_exact {r : Marks α} {received : Set Nat} (exact : Exact w clear mark r received)
    (n : Nat) (ahead : ∀ s ∈ received, s ≤ r.latest) :
    Exact w clear mark (slide w clear n r) received := by
  intro s inside
  rw [slide_latest] at inside
  by_cases passed : r.latest < s
  · refine ⟨fun got => absurd (ahead s got) (by omega), fun _ => ?_⟩
    rcases slide_slot clear n r (s % w) with ⟨cleared, -⟩ | ⟨-, others⟩
    · exact cleared
    · exact absurd rfl (others s passed inside.1)
  · have before : InWindow w r.latest s := ⟨by omega, by have := inside.2; omega⟩
    rcases slide_slot clear n r (s % w) with ⟨-, t, above, below, slot⟩ | ⟨kept, -⟩
    · have inside' : InWindow w (r.latest + n) t := ⟨below, by have := inside.2; omega⟩
      have same : t = s := eq_of_slot_eq inside' inside slot
      omega
    · rw [kept]; exact exact s before

/-- Marking a number of the window records its reception. -/
theorem setMark_exact {r : Marks α} {received : Set Nat} (exact : Exact w clear mark r received)
    {s : Nat} (inside : InWindow w r.latest s) :
    Exact w clear mark (setMark w mark r s) (insert s received) := by
  intro t inside'
  by_cases same : t = s
  · subst same
    exact ⟨fun _ => Function.update_self .., fun no => absurd (Set.mem_insert t received) no⟩
  · have apart : t % w ≠ s % w := fun slot => same (eq_of_slot_eq inside' inside slot)
    have kept : (setMark w mark r s).slot (t % w) = r.slot (t % w) :=
      Function.update_of_ne apart ..
    rw [kept, Set.mem_insert_iff, or_iff_right same]
    exact exact t inside'

/-- A number below the window can be forgotten. -/
theorem exact_insert_old {r : Marks α} {received : Set Nat} {s : Nat} (old : s + w ≤ r.latest) :
    Exact w clear mark r (insert s received) ↔ Exact w clear mark r received := by
  have apart : ∀ t, InWindow w r.latest t → t ≠ s := by
    rintro t ⟨-, near⟩ rfl
    omega
  constructor <;> intro exact t inside
  · simpa only [Set.mem_insert_iff, or_iff_right (apart t inside)] using exact t inside
  · simpa only [Set.mem_insert_iff, or_iff_right (apart t inside)] using exact t inside

/-- A received number of the window is already recorded. -/
theorem exact_insert_mem {r : Marks α} {received : Set Nat} {s : Nat} (got : s ∈ received) :
    Exact w clear mark r (insert s received) ↔ Exact w clear mark r received := by
  rw [Set.insert_eq_of_mem got]

/-- Marking a number below the window marks the owner of its slot. -/
theorem setMark_owner {r : Marks α} {s : Nat} (old : s + w ≤ r.latest) :
    setMark w mark r s = setMark w mark r (owner w r.latest s) := by
  have slot : owner w r.latest s % w = s % w := owner_slot (by omega)
  rw [setMark, setMark, slot]

/-- The owner of a slot without the mark has not been received, and is not the
number that maps there from below. -/
theorem owner_not_mem (pos : 0 < w) {r : Marks α} {received : Set Nat}
    (marked : ∀ t ∈ received, InWindow w r.latest t → r.slot (t % w) = mark) {s : Nat}
    (old : s + w ≤ r.latest) (unmarked : r.slot (s % w) ≠ mark) :
    owner w r.latest s ∉ insert s received := by
  have inside := owner_inWindow pos old
  have slot : owner w r.latest s % w = s % w := owner_slot (by omega)
  rintro (same | got)
  · have := inside.2
    omega
  · exact unmarked (slot ▸ marked _ got inside)

end Marks

end Vmac.Theory.Ring
