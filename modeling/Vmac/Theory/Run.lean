/-
# Vmac.Theory.Run -- the states a machine runs through

A machine is a function from a state and an operation to the next state; `allowed` says which
operations may come in which state.

* `Runs.keeps`: what holds at the start and is kept by every allowed operation holds of every
  state of a run.
* `forall_prefix_cons`: what holds along a list, one element at a time.
* `good_along_iff`: the runs along which something holds, by a condition on each step.
* `steps_along_iff`: the runs whose every step does what it should, by a condition on each step.
* `nodup_emitted`: what is fresh when it is emitted, and used from then on, is emitted once.
-/
import Mathlib.Data.List.Nodup

namespace Vmac.Theory.Run

set_option autoImplicit false

variable {σ ι : Type} {apply : σ → ι → σ} {allowed allowed' : σ → ι → Prop} {start s : σ}

/-- The states that come from `start` by allowed operations. -/
inductive Runs (apply : σ → ι → σ) (allowed : σ → ι → Prop) (start : σ) : σ → Prop
  | start : Runs apply allowed start start
  | step {s : σ} (before : Runs apply allowed start s) (op : ι) (may : allowed s op) :
      Runs apply allowed start (apply s op)

/-- An invariant. -/
theorem Runs.keeps {P : σ → Prop} (run : Runs apply allowed start s) (first : P start)
    (next : ∀ s op, P s → allowed s op → P (apply s op)) : P s := by
  induction run with
  | start => exact first
  | step _ op may ih => exact next _ op ih may

/-- Fewer operations allowed, fewer states. -/
theorem Runs.mono (run : Runs apply allowed start s) (wider : ∀ s op, allowed s op → allowed' s op) :
    Runs apply allowed' start s := by
  induction run with
  | start => exact .start
  | step _ op may ih => exact .step ih op (wider _ op may)

/-! ## Prefixes -/

/-- What holds of every element and the elements before it, for a list with a first element. -/
theorem forall_prefix_cons {P : List ι → ι → Prop} {first : ι} {rest : List ι} :
    (∀ done op, done ++ [op] <+: first :: rest → P done op) ↔
      P [] first ∧ ∀ done op, done ++ [op] <+: rest → P (first :: done) op := by
  constructor
  · intro all
    refine ⟨all [] first ⟨rest, rfl⟩, fun done op before => all (first :: done) op ?_⟩
    exact (List.prefix_cons_inj first).mpr before
  · rintro ⟨here, later⟩ done op before
    cases done with
    | nil =>
        obtain ⟨rfl, -⟩ := List.cons_prefix_cons.mp before
        exact here
    | cons other done =>
        obtain ⟨rfl, inside⟩ := List.cons_prefix_cons.mp before
        exact later done op inside

section Along

variable {apply : σ → ι → σ} {Inv Good : σ → Prop} {Meets : σ → ι → Prop}

/-- The state behind some operations. -/
def along (apply : σ → ι → σ) (s : σ) (ops : List ι) : σ := ops.foldl apply s

@[simp] theorem along_nil (s : σ) : along apply s [] = s := rfl

@[simp] theorem along_cons (s : σ) (op : ι) (ops : List ι) :
    along apply s (op :: ops) = along apply (apply s op) ops := rfl

/-- What an invariant gives is there along a whole run exactly if every step meets the condition under which it keeps
the invariant and without which it loses what the invariant gives. -/
theorem good_along_iff (good : ∀ s, Inv s → Good s) (keeps : ∀ s op, Inv s → Meets s op → Inv (apply s op))
    (loses : ∀ s op, Inv s → ¬Meets s op → ¬Good (apply s op)) {s : σ} (first : Inv s) (ops : List ι) :
    (∀ done, done <+: ops → Good (along apply s done)) ↔
      ∀ done op, done ++ [op] <+: ops → Meets (along apply s done) op := by
  induction ops generalizing s with
  | nil =>
      refine iff_of_true (fun done before => ?_) (fun done op before => ?_)
      · rw [List.prefix_nil.mp before]
        exact good s first
      · exact absurd (List.prefix_nil.mp before) (by simp)
  | cons op ops ih =>
      rw [forall_prefix_cons]
      by_cases meets : Meets s op
      · have rest := ih (keeps s op first meets)
        constructor
        · intro all
          refine ⟨meets, rest.mp fun done before => ?_⟩
          exact all (op :: done) ((List.prefix_cons_inj op).mpr before)
        · rintro ⟨-, later⟩ done before
          rcases List.prefix_cons_iff.mp before with rfl | ⟨done, rfl, inside⟩
          · exact good s first
          · exact rest.mpr later done inside
      · refine iff_of_false (fun all => ?_) (fun both => meets both.1)
        exact loses s op first meets (all [op] ⟨ops, rfl⟩)

/-- Every step of a run does what it should exactly if every step meets the condition, when a step from a state that
satisfies the invariant does so exactly under the condition and then keeps the invariant. -/
theorem steps_along_iff {Does : σ → ι → Prop} (exact_ : ∀ s op, Inv s → (Does s op ↔ Meets s op))
    (keeps : ∀ s op, Inv s → Does s op → Inv (apply s op)) {s : σ} (first : Inv s) (ops : List ι) :
    (∀ done op, done ++ [op] <+: ops → Does (along apply s done) op) ↔
      ∀ done op, done ++ [op] <+: ops → Meets (along apply s done) op := by
  induction ops generalizing s with
  | nil =>
      refine iff_of_true (fun done op before => ?_) (fun done op before => ?_)
      · exact absurd (List.prefix_nil.mp before) (by simp)
      · exact absurd (List.prefix_nil.mp before) (by simp)
  | cons op ops ih =>
      rw [forall_prefix_cons, forall_prefix_cons]
      constructor
      · rintro ⟨here, later⟩
        exact ⟨(exact_ s op first).mp here, (ih (keeps s op first here)).mp later⟩
      · rintro ⟨here, later⟩
        have does := (exact_ s op first).mpr here
        exact ⟨does, (ih (keeps s op first does)).mpr later⟩

end Along

/-! ## Emitted values -/

section Emitted

variable {κ : Type} (step : σ → ι → σ × Option κ)

/-- The state behind a list of inputs. -/
def after (s : σ) (ops : List ι) : σ := ops.foldl (fun s op => (step s op).1) s

/-- What is emitted along a list of inputs. -/
def emitted : σ → List ι → List κ
  | _, [] => []
  | s, op :: ops => (step s op).2.toList ++ emitted (step s op).1 ops

theorem nodup_emitted {used : σ → κ → Prop} {s : σ} {ops : List ι}
    (keeps : ∀ done op, done ++ [op] <+: ops →
      ∀ x, used (after step s done) x → used (step (after step s done) op).1 x)
    (fresh : ∀ done op, done ++ [op] <+: ops → ∀ x, (step (after step s done) op).2 = some x →
      ¬used (after step s done) x ∧ used (step (after step s done) op).1 x) :
    (emitted step s ops).Nodup ∧ ∀ x ∈ emitted step s ops, ¬used s x := by
  induction ops generalizing s with
  | nil => exact ⟨List.nodup_nil, nofun⟩
  | cons op ops ih =>
      obtain ⟨keepsFirst, keepsRest⟩ := forall_prefix_cons.mp keeps
      obtain ⟨freshFirst, freshRest⟩ := forall_prefix_cons.mp fresh
      obtain ⟨once, unused⟩ := ih keepsRest freshRest
      have rest : ∀ x ∈ emitted step (step s op).1 ops, ¬used s x := fun x member before =>
        unused x member (keepsFirst x before)
      unfold emitted
      cases out : (step s op).2 with
      | none => exact ⟨once, rest⟩
      | some x =>
          obtain ⟨new, now⟩ := freshFirst x out
          refine ⟨List.nodup_cons.mpr ⟨fun member => unused x member now, once⟩, ?_⟩
          exact List.forall_mem_cons.mpr ⟨new, rest⟩

end Emitted

end Vmac.Theory.Run
