/-
# Vmac.Theory.Placement -- list nodes in queues

An intrusive list node is linked into at most one queue at a time.  A program takes a
node out (`unlink`), has it in hand while it works on it, and links it in again
(`append`).  `Placed all held queues` says that each node of `all` is in hand or in one
queue, once.

* `Placed.rearrange`: a queue and the nodes in hand may exchange nodes at will.
* `Placed.sweep`: all nodes with a property come into the hand.
* `Placed.exactly_one`: with none in hand, each node is in exactly one queue.
-/
import Mathlib.Data.List.Count
import Mathlib.Data.List.Nodup
import Mathlib.Data.List.Perm.Basic
import Mathlib.Logic.Function.Basic

namespace Vmac.Theory.Placement

set_option autoImplicit false

variable {Q D : Type} [DecidableEq D]

abbrev Queues (Q D : Type) := Q → List D

/-- `list_del_init`: out of whatever queue it is in. -/
def unlink (d : D) (queues : Queues Q D) : Queues Q D := fun p => (queues p).filter (· ≠ d)

/-- `list_add_tail`. -/
def append [DecidableEq Q] (p : Q) (d : D) (queues : Queues Q D) : Queues Q D :=
  Function.update queues p (queues p ++ [d])

structure Placed (all : D → Prop) (held : List D) (queues : Queues Q D) : Prop where
  once : ∀ d p, held.count d + (queues p).count d ≤ 1
  apart : ∀ d p p', p ≠ p' → d ∈ queues p → d ∉ queues p'
  all_iff : ∀ d, all d ↔ d ∈ held ∨ ∃ p, d ∈ queues p

namespace Placed

variable {all : D → Prop} {held held' : List D} {queues : Queues Q D} {d : D} {p : Q}

theorem perm (placed : Placed all held queues) (same : held.Perm held') :
    Placed all held' queues := by
  refine ⟨fun d p => ?_, placed.apart, fun d => ?_⟩
  · rw [← same.count_eq]
    exact placed.once d p
  · rw [← same.mem_iff]
    exact placed.all_iff d

/-- The nodes `xs` in hand and those of queue `p` become `ys` in hand and a new queue. -/
theorem rearrange [DecidableEq Q] (xs ys : List D) {l : List D} (placed : Placed all (xs ++ held) queues)
    (same : (ys ++ l).Perm (xs ++ queues p)) :
    Placed all (ys ++ held) (Function.update queues p l) := by
  have counts (d : D) : ys.count d + l.count d = xs.count d + (queues p).count d := by
    rw [← List.count_append, ← List.count_append, same.count_eq]
  have mem (d : D) : d ∈ ys ∨ d ∈ l ↔ d ∈ xs ∨ d ∈ queues p := by
    rw [← List.mem_append, ← List.mem_append, same.mem_iff]
  have once (d : D) (p' : Q) : xs.count d + held.count d + (queues p').count d ≤ 1 := by
    rw [← List.count_append]
    exact placed.once d p'
  refine ⟨fun d p' => ?_, fun d p₁ p₂ other inside => ?_, fun d => ?_⟩
  · rw [List.count_append]
    have here := once d p
    have there := once d p'
    have count := counts d
    by_cases at_ : p' = p
    · rw [at_, Function.update_self]
      omega
    · rw [Function.update_of_ne at_]
      by_cases inside : d ∈ queues p'
      · have absent := List.count_eq_zero.mpr (placed.apart d p' p at_ inside)
        omega
      · have absent := List.count_eq_zero.mpr inside
        omega
  · by_cases at₁ : p₁ = p
    · have at₂ : p₂ ≠ p := fun at₂ => other (at₁.trans at₂.symm)
      rw [at₁, Function.update_self] at inside
      rw [Function.update_of_ne at₂]
      intro inside'
      have there := once d p₂
      have present := List.count_pos_iff.mpr inside'
      rcases (mem d).mp (.inr inside) with hand | queue
      · have present' := List.count_pos_iff.mpr hand
        omega
      · exact placed.apart d p₂ p at₂ inside' queue
    · rw [Function.update_of_ne at₁] at inside
      by_cases at₂ : p₂ = p
      · rw [at₂, Function.update_self]
        intro inside'
        have there := once d p₁
        have present := List.count_pos_iff.mpr inside
        rcases (mem d).mp (.inr inside') with hand | queue
        · have present' := List.count_pos_iff.mpr hand
          omega
        · exact placed.apart d p₁ p at₁ inside queue
      · rw [Function.update_of_ne at₂]
        exact placed.apart d p₁ p₂ other inside
  · have elsewhere : (∃ p', d ∈ Function.update queues p l p') ↔
        d ∈ l ∨ ∃ p', p' ≠ p ∧ d ∈ queues p' := by
      constructor
      · rintro ⟨p', inside⟩
        by_cases at_ : p' = p
        · rw [at_, Function.update_self] at inside
          exact .inl inside
        · rw [Function.update_of_ne at_] at inside
          exact .inr ⟨p', at_, inside⟩
      · rintro (inside | ⟨p', at_, inside⟩)
        · exact ⟨p, by rwa [Function.update_self]⟩
        · exact ⟨p', by rwa [Function.update_of_ne at_]⟩
    have before : (∃ p', d ∈ queues p') ↔ d ∈ queues p ∨ ∃ p', p' ≠ p ∧ d ∈ queues p' := by
      constructor
      · rintro ⟨p', inside⟩
        by_cases at_ : p' = p
        · exact .inl (at_ ▸ inside)
        · exact .inr ⟨p', at_, inside⟩
      · rintro (inside | ⟨p', -, inside⟩)
        · exact ⟨p, inside⟩
        · exact ⟨p', inside⟩
    rw [placed.all_iff, elsewhere, before, List.mem_append, List.mem_append]
    constructor
    · rintro ((hand | hand) | inside | away)
      · exact ((mem d).mpr (.inl hand)).imp .inl .inl
      · exact .inl (.inr hand)
      · exact ((mem d).mpr (.inr inside)).imp .inl .inl
      · exact .inr (.inr away)
    · rintro ((hand | hand) | inside | away)
      · exact ((mem d).mp (.inl hand)).imp .inl .inl
      · exact .inl (.inr hand)
      · exact ((mem d).mp (.inr inside)).imp .inl .inl
      · exact .inr (.inr away)

/-- A node in hand is in no queue, so taking it out changes nothing. -/
theorem unlink_held (placed : Placed all held queues) (hand : d ∈ held) :
    unlink d queues = queues := by
  funext p
  apply List.filter_eq_self.mpr
  intro x inside
  apply decide_eq_true
  rintro rfl
  have once := placed.once x p
  have here := List.count_pos_iff.mpr hand
  have there := List.count_pos_iff.mpr inside
  omega

theorem nodup (placed : Placed all held queues) (p : Q) : (queues p).Nodup :=
  List.nodup_iff_count_le_one.mpr fun d => by
    have := placed.once d p
    omega

variable [DecidableEq Q]

theorem unlink_eq (placed : Placed all held queues) (inside : d ∈ queues p) :
    unlink d queues = Function.update queues p ((queues p).erase d) := by
  funext p'
  by_cases at_ : p' = p
  · rw [at_, Function.update_self, (placed.nodup p).erase_eq_filter, unlink]
    exact List.filter_congr fun x _ => by simp [bne, decide_not, beq_eq_decide]
  · rw [Function.update_of_ne at_]
    apply List.filter_eq_self.mpr
    intro x inside'
    apply decide_eq_true
    rintro rfl
    exact placed.apart x p p' (Ne.symm at_) inside inside'

/-- Take a node out of its queue. -/
theorem take (placed : Placed all held queues) (inside : d ∈ queues p) :
    Placed all (d :: held) (unlink d queues) := by
  rw [placed.unlink_eq inside]
  exact placed.rearrange [] [d] (List.perm_cons_erase inside).symm

/-- Link a node in hand into a queue. -/
theorem put (placed : Placed all (d :: held) queues) (p : Q) :
    Placed all held (append p d queues) :=
  placed.rearrange [d] [] (List.perm_append_singleton d (queues p))

omit [DecidableEq Q] in
/-- Take all the nodes out that have a property. -/
theorem sweep {P : D → Prop} [DecidablePred P] {xs : List D} (placed : Placed all held queues) (nodup : xs.Nodup)
    (swept : ∀ d, d ∈ xs ↔ P d ∧ ∃ p, d ∈ queues p) :
    Placed all (xs ++ held) fun p => (queues p).filter fun d => ¬P d := by
  refine ⟨fun d p => ?_, fun d p p' other inside inside' => ?_, fun d => ?_⟩
  · have once := placed.once d p
    have single := List.nodup_iff_count_le_one.mp nodup d
    rw [List.count_append]
    by_cases out : d ∈ xs
    · obtain ⟨has, p', inside⟩ := (swept d).mp out
      have gone : ((queues p).filter fun d => ¬P d).count d = 0 :=
        List.count_eq_zero.mpr fun kept => by simp [has] at kept
      have once' := placed.once d p'
      have there := List.count_pos_iff.mpr inside
      omega
    · have none_ := List.count_eq_zero.mpr out
      have fewer := ((queues p).filter_sublist (p := fun d => ¬P d)).count_le d
      omega
  · exact placed.apart d p p' other (List.mem_of_mem_filter inside) (List.mem_of_mem_filter inside')
  · rw [placed.all_iff, List.mem_append, swept]
    simp only [List.mem_filter, decide_eq_true_eq]
    by_cases has : P d <;> simp [has, or_comm]

omit [DecidableEq Q] in
theorem exactly_one (placed : Placed all [] queues) (node : all d) : ∃! p, d ∈ queues p := by
  obtain ⟨p, inside⟩ := ((placed.all_iff d).mp node).resolve_left List.not_mem_nil
  refine ⟨p, inside, fun p' inside' => ?_⟩
  by_contra other
  exact placed.apart d p' p other inside' inside

end Placed

end Vmac.Theory.Placement
