/-
# Vmac.Theory.Service -- queues that are served in turn

A server has a queue for each of its clients, a ring of the clients that wait, a count for
each queue and a total over all of them.  The ring and the counts say again what the queues
say; `Server.Kept` is that they say the same.

* `Kept.push`: something is put into a queue.
* `Kept.shrink`: some of a queue is taken out, and an empty queue leaves the ring.
* `Kept.turn`: the ring is served in another order.
-/
import Mathlib.Algebra.BigOperators.Group.Finset.Basic
import Mathlib.Data.Fintype.BigOperators
import Mathlib.Data.List.Nodup
import Mathlib.Logic.Function.Basic

namespace Vmac.Theory.Service

set_option autoImplicit false

/-! ## Sums -/

section Sum

variable {K M : Type} [Fintype K] [DecidableEq K] [AddCommMonoid M]

/-- One summand is exchanged. -/
theorem sum_update (f : K → M) (k : K) (v : M) :
    ∑ j, Function.update f k v j + f k = ∑ j, f j + v := by
  rw [Finset.sum_update_of_mem (Finset.mem_univ k), add_assoc, add_comm]
  congr 1
  rw [← Finset.sum_sdiff (Finset.subset_univ {k}), Finset.sum_singleton]

end Sum

/-! ## The queues -/

@[ext] structure Server (K F : Type) where
  queue : K → List F
  count : K → Int
  ring : List K
  total : Int

namespace Server

variable {K F : Type} [DecidableEq K]

/-- Put something into a queue; its client gets into the ring. -/
def push (v : Server K F) (k : K) (f : F) : Server K F where
  queue := Function.update v.queue k (v.queue k ++ [f])
  count := Function.update v.count k (v.count k + 1)
  ring := if k ∈ v.ring then v.ring else v.ring ++ [k]
  total := v.total + 1

/-- Replace a queue by what is left of it; `n` is how many were taken. -/
def shrink (v : Server K F) (k : K) (left : List F) (n : Nat) : Server K F where
  queue := Function.update v.queue k left
  count := Function.update v.count k (v.count k - n)
  ring := if left = [] then v.ring.erase k else v.ring
  total := v.total - n

/-- The counts, the ring and the total are those of the queues. -/
structure Kept [Fintype K] (v : Server K F) : Prop where
  count : ∀ k, v.count k = (v.queue k).length
  ring : ∀ k, k ∈ v.ring ↔ v.queue k ≠ []
  once : v.ring.Nodup
  total : v.total = ∑ k, v.count k

namespace Kept

variable [Fintype K] {v : Server K F}

theorem push (kept : v.Kept) (k : K) (f : F) : (v.push k f).Kept := by
  refine ⟨fun j => ?_, fun j => ?_, ?_, ?_⟩
  · by_cases at_ : j = k
    · subst at_
      simp [Server.push, kept.count]
    · simp only [Server.push, Function.update_of_ne at_]
      exact kept.count j
  · have member : j ∈ (v.push k f).ring ↔ j ∈ v.ring ∨ j = k := by
      simp only [Server.push]
      split
      · rename_i inside
        exact ⟨.inl, fun either => either.elim id fun same => same ▸ inside⟩
      · rw [List.mem_append, List.mem_singleton]
    rw [member, kept.ring]
    by_cases at_ : j = k
    · subst at_
      simp [Server.push]
    · simp [Server.push, at_]
  · simp only [Server.push]
    split
    · exact kept.once
    · rename_i outside
      exact List.nodup_append.mpr ⟨kept.once, List.nodup_singleton k, by
        rintro a inside b last rfl
        exact outside (List.mem_singleton.mp last ▸ inside)⟩
  · have exchanged := sum_update v.count k (v.count k + 1)
    have total := kept.total
    simp only [Server.push]
    omega

theorem shrink (kept : v.Kept) (k : K) {left : List F} {n : Nat}
    (taken : n + left.length = (v.queue k).length) : (v.shrink k left n).Kept := by
  have waits (some : left ≠ []) : v.queue k ≠ [] := by
    have positive := List.length_pos_iff.mpr some
    exact List.length_pos_iff.mp (by omega)
  refine ⟨fun j => ?_, fun j => ?_, ?_, ?_⟩
  · by_cases at_ : j = k
    · subst at_
      have count := kept.count j
      simp only [Server.shrink, Function.update_self]
      omega
    · simp only [Server.shrink, Function.update_of_ne at_]
      exact kept.count j
  · by_cases at_ : j = k
    · subst at_
      by_cases empty : left = []
      · simp [Server.shrink, empty, kept.once.mem_erase_iff]
      · simp [Server.shrink, empty, kept.ring, waits empty]
    · by_cases empty : left = []
      · simp [Server.shrink, at_, empty, kept.once.mem_erase_iff, kept.ring]
      · simp [Server.shrink, at_, empty, kept.ring]
  · simp only [Server.shrink]
    split
    · exact kept.once.erase k
    · exact kept.once
  · have exchanged := sum_update v.count k (v.count k - n)
    have total := kept.total
    simp only [Server.shrink]
    omega

omit [DecidableEq K] in
theorem turn (kept : v.Kept) {ring : List K} (same : ring.Perm v.ring) : ({ v with ring := ring }).Kept :=
  ⟨kept.count, fun k => same.mem_iff.trans (kept.ring k), same.nodup_iff.mpr kept.once, kept.total⟩

omit [DecidableEq K] in
/-- A client that waits has something in its queue. -/
theorem waiting (kept : v.Kept) {k : K} (inside : k ∈ v.ring) : v.queue k ≠ [] := (kept.ring k).mp inside

end Kept

end Server

end Vmac.Theory.Service
