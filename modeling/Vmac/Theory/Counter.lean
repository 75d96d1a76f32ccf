/-
# Vmac.Theory.Counter -- counters with owners

Every item of a run draws from the counter of its owner, or from none.  An item that draws is
given the value of the counter; the counter goes up by one.

* `draws_pairwise`: two draws from one counter differ, and by less than the length of the run.
-/
import Mathlib.Data.List.Pairwise
import Mathlib.Logic.Function.Basic

namespace Vmac.Theory.Counter

set_option autoImplicit false

variable {ι κ : Type} [DecidableEq κ] (owner : ι → Option κ)

/-- The items that draw, with the values they are given. -/
def draws (start : κ → Nat) : List ι → List (ι × Nat)
  | [] => []
  | x :: xs =>
      match owner x with
      | none => draws start xs
      | some k => (x, start k) :: draws (Function.update start k (start k + 1)) xs

variable {owner}

theorem draws_none {start : κ → Nat} {x : ι} (xs : List ι) (idle : owner x = none) :
    draws owner start (x :: xs) = draws owner start xs := by
  rw [draws, idle]

theorem draws_some {start : κ → Nat} {x : ι} {k : κ} (xs : List ι) (owned : owner x = some k) :
    draws owner start (x :: xs) =
      (x, start k) :: draws owner (Function.update start k (start k + 1)) xs := by
  rw [draws, owned]

theorem mem_of_draws {start : κ → Nat} {xs : List ι} {d : ι × Nat} (drawn : d ∈ draws owner start xs) :
    d.1 ∈ xs ∧ ∃ k, owner d.1 = some k := by
  induction xs generalizing start with
  | nil => cases drawn
  | cons x xs ih =>
      cases owned : owner x with
      | none =>
          rw [draws_none xs owned] at drawn
          exact ⟨List.mem_cons_of_mem _ (ih drawn).1, (ih drawn).2⟩
      | some k =>
          rw [draws_some xs owned] at drawn
          rcases List.mem_cons.mp drawn with rfl | later
          · exact ⟨List.mem_cons_self, k, owned⟩
          · exact ⟨List.mem_cons_of_mem _ (ih later).1, (ih later).2⟩

theorem exists_draw (start : κ → Nat) {xs : List ι} {x : ι} {k : κ} (inside : x ∈ xs)
    (owned : owner x = some k) : ∃ v, (x, v) ∈ draws owner start xs := by
  induction xs generalizing start with
  | nil => cases inside
  | cons y ys ih =>
      rcases List.mem_cons.mp inside with rfl | later
      · rw [draws_some ys owned]
        exact ⟨_, List.mem_cons_self⟩
      · cases other : owner y with
        | none =>
            rw [draws_none ys other]
            exact ih start later
        | some k' =>
            rw [draws_some ys other]
            obtain ⟨v, drawn⟩ := ih (Function.update start k' (start k' + 1)) later
            exact ⟨v, List.mem_cons_of_mem _ drawn⟩

theorem draws_bounds {start : κ → Nat} {xs : List ι} {d : ι × Nat} {k : κ}
    (drawn : d ∈ draws owner start xs) (owned : owner d.1 = some k) :
    start k ≤ d.2 ∧ d.2 < start k + xs.length := by
  induction xs generalizing start with
  | nil => cases drawn
  | cons x xs ih =>
      have length : (x :: xs).length = xs.length + 1 := rfl
      cases other : owner x with
      | none =>
          rw [draws_none xs other] at drawn
          have := ih drawn
          omega
      | some k' =>
          rw [draws_some xs other] at drawn
          rcases List.mem_cons.mp drawn with rfl | later
          · obtain rfl := Option.some.inj (other.symm.trans owned)
            dsimp only
            omega
          · have bounds := ih later
            by_cases same : k = k'
            · subst same
              rw [Function.update_self] at bounds
              omega
            · rw [Function.update_of_ne same] at bounds
              omega

variable (owner) in
theorem draws_pairwise (start : κ → Nat) (xs : List ι) :
    (draws owner start xs).Pairwise fun a b =>
      owner a.1 = owner b.1 → a.2 < b.2 ∧ b.2 < a.2 + xs.length := by
  induction xs generalizing start with
  | nil => exact List.Pairwise.nil
  | cons x xs ih =>
      have length : (x :: xs).length = xs.length + 1 := rfl
      cases owned : owner x with
      | none =>
          rw [draws_none xs owned]
          exact (ih start).imp fun both same => ⟨(both same).1, by have := (both same).2; omega⟩
      | some k =>
          rw [draws_some xs owned]
          refine List.Pairwise.cons (fun d drawn same => ?_)
            ((ih _).imp fun both same => ⟨(both same).1, by have := (both same).2; omega⟩)
          have bounds := draws_bounds drawn (same.symm.trans owned)
          rw [Function.update_self] at bounds
          dsimp only
          omega

end Vmac.Theory.Counter
