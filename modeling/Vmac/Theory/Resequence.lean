/-
# Vmac.Theory.Resequence -- putting items back in order

Items with integer keys.  `insert` puts an item into a list sorted by key unless its
key is there; `drain` takes the items that are due off the front of the list: those
whose key is at most the next one expected, which each exact hit moves up by one.

* `insert_sorted`, `insert_perm`, `insert_none`: what `insert` does.
* `drain_split`, `drain_handed`, `drain_rest`, `drain_empty`: what `drain` does.
-/
import Mathlib.Data.List.Chain
import Mathlib.Data.List.Perm.Basic
import Mathlib.Tactic.Linarith

namespace Vmac.Theory.Resequence

set_option autoImplicit false

section

variable {α : Type} (key : α → Int)

def Sorted (xs : List α) : Prop := xs.Pairwise fun x y => key x < key y

def insert (x : α) : List α → Option (List α)
  | [] => some [x]
  | y :: ys =>
      if key y < key x then (insert x ys).map (y :: ·)
      else if key y = key x then none
      else some (x :: y :: ys)

/-- What `drain` leaves: the next key expected, the items that were due, the others. -/
structure Drained (α : Type) where
  next : Int
  handed : List α
  rest : List α

def drain (next : Int) : List α → Drained α
  | [] => ⟨next, [], []⟩
  | x :: xs =>
      if next < key x then ⟨next, [], x :: xs⟩
      else
        let r := drain (if next = key x then next + 1 else next) xs
        { r with handed := x :: r.handed }

/-- No key of a sorted list is above its last one. -/
theorem Sorted.le_last {key : α → Int} {xs : List α} {x last : α} (sorted : Sorted key xs)
    (ends : xs.getLast? = some last) (member : x ∈ xs) : key x ≤ key last := by
  obtain ⟨before, rfl⟩ := List.getLast?_eq_some_iff.mp ends
  rcases List.mem_append.mp member with early | only
  · exact le_of_lt ((List.pairwise_append.mp sorted).2.2 x early last List.mem_cons_self)
  · rw [List.mem_singleton.mp only]

/-! ## Insertion -/

section Insert

variable {key} {x : α} {xs ys : List α}

theorem insert_perm (done : insert key x xs = some ys) : ys.Perm (x :: xs) := by
  induction xs generalizing ys with
  | nil => cases done; exact .refl _
  | cons y xs ih =>
      rw [insert] at done
      split at done
      · obtain ⟨zs, inserted, rfl⟩ := Option.map_eq_some_iff.mp done
        exact ((ih inserted).cons y).trans (.swap x y xs)
      · split at done
        · cases done
        · cases done; exact .refl _

theorem insert_sorted (sorted : Sorted key xs) (done : insert key x xs = some ys) :
    Sorted key ys := by
  induction xs generalizing ys with
  | nil => cases done; exact List.pairwise_singleton _ _
  | cons y xs ih =>
      obtain ⟨first, others⟩ := List.pairwise_cons.mp sorted
      rw [insert] at done
      split at done
      · rename_i below
        obtain ⟨zs, inserted, rfl⟩ := Option.map_eq_some_iff.mp done
        refine List.pairwise_cons.mpr ⟨fun z member => ?_, ih others inserted⟩
        rcases List.mem_cons.mp ((insert_perm inserted).mem_iff.mp member) with rfl | old
        · exact below
        · exact first z old
      · split at done
        · cases done
        · cases done
          refine List.pairwise_cons.mpr ⟨fun z member => ?_, sorted⟩
          rcases List.mem_cons.mp member with rfl | old
          · omega
          · have := first z old
            omega

/-- An item is refused only if its key is there. -/
theorem insert_none (refused : insert key x xs = none) : ∃ y ∈ xs, key y = key x := by
  induction xs with
  | nil => cases refused
  | cons y xs ih =>
      rw [insert] at refused
      split at refused
      · obtain ⟨z, member, same⟩ := ih (Option.map_eq_none_iff.mp refused)
        exact ⟨z, List.mem_cons_of_mem y member, same⟩
      · split at refused
        · rename_i same
          exact ⟨y, List.mem_cons_self, same⟩
        · cases refused

/-- The first item is the new one or the old first one. -/
theorem insert_head (done : insert key x xs = some ys) :
    ys.head? = some x ∨ ys.head? = xs.head? ∧ xs ≠ [] := by
  cases xs with
  | nil => cases done; exact .inl rfl
  | cons y xs =>
      rw [insert] at done
      split at done
      · obtain ⟨zs, -, rfl⟩ := Option.map_eq_some_iff.mp done
        exact .inr ⟨rfl, List.cons_ne_nil _ _⟩
      · split at done
        · cases done
        · cases done; exact .inl rfl

end Insert

/-! ## Draining -/

section Drain

variable {key} {next : Int} {xs : List α}

theorem drain_split : (drain key next xs).handed ++ (drain key next xs).rest = xs := by
  induction xs generalizing next with
  | nil => rfl
  | cons x xs ih =>
      rw [drain]
      split
      · rfl
      · exact congrArg (x :: ·) ih

theorem drain_next (key : α → Int) (next : Int) (xs : List α) :
    next ≤ (drain key next xs).next := by
  induction xs generalizing next with
  | nil => exact le_refl _
  | cons x xs ih =>
      rw [drain]
      split
      · exact le_refl _
      · apply le_trans _ (ih _)
        split <;> omega

theorem drain_le {b : Int} (near : next ≤ b) (below : ∀ x ∈ xs, key x < b) :
    (drain key next xs).next ≤ b := by
  induction xs generalizing next with
  | nil => exact near
  | cons x xs ih =>
      have first := below x List.mem_cons_self
      rw [drain]
      split
      · exact near
      · exact ih (by split <;> omega) fun y member => below y (List.mem_cons_of_mem x member)

/-- What is handed on is behind the next key expected. -/
theorem drain_handed : ∀ x ∈ (drain key next xs).handed, key x < (drain key next xs).next := by
  induction xs generalizing next with
  | nil => exact fun _ member => absurd member List.not_mem_nil
  | cons x xs ih =>
      rw [drain]
      split
      · exact fun _ member => absurd member List.not_mem_nil
      · rename_i due
        intro y member
        rcases List.mem_cons.mp member with rfl | later
        · apply lt_of_lt_of_le _ (drain_next key _ xs)
          split <;> omega
        · exact ih y later

/-- What is kept is not due. -/
theorem drain_rest (sorted : Sorted key xs) :
    ∀ x ∈ (drain key next xs).rest, (drain key next xs).next < key x := by
  induction xs generalizing next with
  | nil => exact fun _ member => absurd member List.not_mem_nil
  | cons x xs ih =>
      obtain ⟨first, others⟩ := List.pairwise_cons.mp sorted
      rw [drain]
      split
      · rename_i early
        intro y member
        rcases List.mem_cons.mp member with rfl | later
        · exact early
        · exact lt_trans early (first y later)
      · exact ih others

/-- When nothing is handed on, the next key expected stays. -/
theorem drain_idle (none : (drain key next xs).handed = []) : (drain key next xs).next = next := by
  cases xs with
  | nil => rfl
  | cons x xs =>
      rw [drain] at none ⊢
      split at none
      · rename_i early
        rw [if_pos early]
      · cases none

/-- When everything is handed on, the next key expected follows the last one handed on, unless
it was beyond it from the start. -/
theorem drain_empty {last : α} (ends : xs.getLast? = some last) (near : next ≤ key last + 1)
    (sorted : Sorted key xs) (all : (drain key next xs).rest = []) :
    (drain key next xs).next = key last + 1 := by
  induction xs generalizing next with
  | nil => cases ends
  | cons x xs ih =>
      obtain ⟨first, others⟩ := List.pairwise_cons.mp sorted
      rw [drain] at all ⊢
      split at all
      · cases all
      · rename_i due
        rw [if_neg due]
        show (drain key _ xs).next = key last + 1
        cases xs with
        | nil =>
            obtain rfl : x = last := Option.some.inj ends
            show (if next = key x then next + 1 else next) = key x + 1
            split <;> omega
        | cons y xs =>
            have ends' : (y :: xs).getLast? = some last := by rw [← ends]; rfl
            have later := first last (List.mem_of_getLast? ends')
            exact ih ends' (by split <;> omega) others all

end Drain

end

end Vmac.Theory.Resequence
