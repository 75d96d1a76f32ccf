/-
# Vmac.Theory.Walk -- loops, and what they look at on the way

A loop is given by its round: the places a round looks at, and whether it is done or goes on.

* `run`: the loop with a bound on its rounds; `trace`: the places the same rounds look at.
* `Ends`: the loop gets to its end, and every place it looks at until then is good.
* `ends_iff_run`: that is a run with enough rounds whose trace is good.
* `shift`: a loop whose places are counted from elsewhere.
* `nest`: a loop each of whose rounds waits for the end of another.
-/
import Mathlib.Data.List.Basic

namespace Vmac.Theory.Walk

set_option autoImplicit false

variable {σ α ρ : Type}

/-- One round of a loop: what it looks at, and the result or the state of the next round. -/
structure Loop (σ α ρ : Type) where
  looks : σ → List α
  round : σ → ρ ⊕ σ

namespace Loop

variable (l : Loop σ α ρ)

/-- The result, if it is there within the bound. -/
def run : Nat → σ → Option ρ
  | 0, _ => none
  | n + 1, s =>
    match l.round s with
    | .inl r => some r
    | .inr s' => run n s'

/-- What the rounds within the bound look at. -/
def trace : Nat → σ → List α
  | 0, _ => []
  | n + 1, s =>
    l.looks s ++
      match l.round s with
      | .inl _ => []
      | .inr s' => trace n s'

/-- The loop ends with the result, and looks at good places only. -/
inductive Ends (good : α → Prop) : σ → ρ → Prop where
  | done {s : σ} {r : ρ} (here : ∀ a ∈ l.looks s, good a) (done : l.round s = .inl r) : Ends good s r
  | again {s s' : σ} {r : ρ} (here : ∀ a ∈ l.looks s, good a) (next : l.round s = .inr s') (rest : Ends good s' r) :
      Ends good s r

variable {l} {good : α → Prop} {s s' : σ} {r r' : ρ}

theorem ends_of_done (done : l.round s = .inl r') : l.Ends good s r ↔ (∀ a ∈ l.looks s, good a) ∧ r = r' := by
  constructor
  · intro ends
    cases ends with
    | done here done' =>
        rw [done] at done'
        exact ⟨here, (Sum.inl.inj done').symm⟩
    | again _ next _ => exact absurd (done.symm.trans next) (by simp)
  · rintro ⟨here, rfl⟩
    exact .done here done

theorem ends_of_again (next : l.round s = .inr s') :
    l.Ends good s r ↔ (∀ a ∈ l.looks s, good a) ∧ l.Ends good s' r := by
  constructor
  · intro ends
    cases ends with
    | done _ done => exact absurd (next.symm.trans done) (by simp)
    | again here next' rest =>
        rw [next] at next'
        exact ⟨here, (Sum.inr.inj next').symm ▸ rest⟩
  · rintro ⟨here, rest⟩
    exact .again here next rest

theorem Ends.here (ends : l.Ends good s r) : ∀ a ∈ l.looks s, good a := by
  cases ends with
  | done here _ => exact here
  | again here _ _ => exact here

theorem Ends.mono {wider : α → Prop} (ends : l.Ends good s r) (le : ∀ a, good a → wider a) : l.Ends wider s r := by
  induction ends with
  | done here done => exact .done (fun a member => le a (here a member)) done
  | again here next _ ih => exact .again (fun a member => le a (here a member)) next ih

theorem Ends.unique (ends : l.Ends good s r) {good' : α → Prop} (ends' : l.Ends good' s r') : r' = r := by
  induction ends with
  | done _ done => exact ((ends_of_done done).mp ends').2
  | again _ next _ ih => exact ih ((ends_of_again next).mp ends').2

/-- A loop that comes back to where it is never ends. -/
theorem not_ends_of_cycle (next : l.round s = .inr s) : ¬l.Ends good s r := by
  intro ends
  induction ends with
  | done _ done => exact absurd (next.symm.trans done) (by simp)
  | again _ next' _ ih =>
      rw [next] at next'
      cases next'
      exact ih next

/-- The end, as a run with enough rounds. -/
theorem ends_iff_run : l.Ends good s r ↔ ∃ n, l.run n s = some r ∧ ∀ a ∈ l.trace n s, good a := by
  constructor
  · intro ends
    induction ends with
    | done here done => exact ⟨1, by rw [run, done], by simpa [trace, done] using here⟩
    | again here next _ ih =>
        obtain ⟨n, result, places⟩ := ih
        refine ⟨n + 1, by rw [run, next]; exact result, fun a member => ?_⟩
        rw [trace, next, List.mem_append] at member
        exact member.elim (here a) (places a)
  · rintro ⟨n, result, places⟩
    induction n generalizing s with
    | zero => exact absurd result (by simp [run])
    | succ n ih =>
        have here : ∀ a ∈ l.looks s, good a := fun a member => places a (List.mem_append_left _ member)
        cases round : l.round s with
        | inl r' =>
            rw [run, round] at result
            cases result
            exact .done here round
        | inr s' =>
            rw [run, round] at result
            refine .again here round (ih result fun a member => places a ?_)
            rw [trace, round]
            exact List.mem_append_right _ member

/-- A loop whose rounds make something smaller has its result after as many. -/
theorem run_of_size (size : σ → Nat) (Inv : σ → Prop)
    (shrinks : ∀ s s', Inv s → l.round s = .inr s' → Inv s' ∧ size s' < size s) (start : Inv s) {n : Nat}
    (enough : size s < n) : ∃ r, l.run n s = some r := by
  induction n generalizing s with
  | zero => exact absurd enough (by omega)
  | succ n ih =>
      rw [run]
      cases round : l.round s with
      | inl r => exact ⟨r, rfl⟩
      | inr s' =>
          obtain ⟨keeps, smaller⟩ := shrinks s s' start round
          exact ih keeps (by omega)

/-- A result of a run is that of the loop. -/
theorem Ends.of_run (ends : l.Ends good s r) {n : Nat} (result : l.run n s = some r') : r' = r :=
  ends.unique (ends_iff_run.mpr ⟨n, result, fun _ _ => trivial⟩)

/-- The same loop, its places counted from elsewhere. -/
def shift {β : Type} (l : Loop σ α ρ) (f : α → β) : Loop σ β ρ where
  looks s := (l.looks s).map f
  round := l.round

theorem shift_ends_iff {β : Type} {f : α → β} {good : β → Prop} :
    (l.shift f).Ends good s r ↔ l.Ends (fun a => good (f a)) s r := by
  constructor
  · intro ends
    induction ends with
    | done here done => exact .done (List.forall_mem_map.mp here) done
    | again here next _ ih => exact .again (List.forall_mem_map.mp here) next ih
  · intro ends
    induction ends with
    | done here done => exact .done (List.forall_mem_map.mpr here) done
    | again here next _ ih => exact .again (List.forall_mem_map.mpr here) next ih

section Nest

variable {τ υ : Type} (inner : σ → Loop τ α ρ) (start : σ → τ) (looksAfter : σ → ρ → List α) (after : σ → ρ → υ ⊕ σ)

/-- In a state another loop runs from its start; with its result the state is left or the next one is come to. -/
def nest : Loop (σ × τ) α υ where
  looks s :=
    (inner s.1).looks s.2 ++
      match (inner s.1).round s.2 with
      | .inl r => looksAfter s.1 r
      | .inr _ => []
  round s :=
    match (inner s.1).round s.2 with
    | .inl r =>
      match after s.1 r with
      | .inl result => .inl result
      | .inr next => .inr (next, start next)
    | .inr t => .inr (s.1, t)

/-- What the state comes to when the other loop has ended with `r`. -/
def NestThen (good : α → Prop) (s : σ) (r : ρ) (result : υ) : Prop :=
  (∀ a ∈ looksAfter s r, good a) ∧
    match after s r with
    | .inl result' => result = result'
    | .inr next => (nest inner start looksAfter after).Ends good (next, start next) result

variable {inner start looksAfter after} {t : τ} {result : υ}

theorem nest_ends_iff : (nest inner start looksAfter after).Ends good (s, t) result ↔
    ∃ r, (inner s).Ends good t r ∧ NestThen inner start looksAfter after good s r result := by
  constructor
  · intro ends
    generalize at_ : (s, t) = state at ends
    induction ends generalizing s t with
    | @done state result here done =>
        subst at_
        simp only [nest] at here done
        cases round : (inner s).round t with
        | inr t' => exact absurd done (by simp [round])
        | inl r =>
            rw [round] at here done
            obtain ⟨places, later⟩ := List.forall_mem_append.mp here
            refine ⟨r, .done places round, later, ?_⟩
            cases next : after s r with
            | inl result' =>
                simp only [next] at done
                exact (Sum.inl.inj done).symm
            | inr s' => exact absurd done (by simp [next])
    | @again state state' result here next rest ih =>
        subst at_
        simp only [nest] at here next
        cases round : (inner s).round t with
        | inr t' =>
            rw [round] at here next
            simp only [List.append_nil] at here
            obtain ⟨r, ends, behind⟩ := ih (Sum.inr.inj next)
            exact ⟨r, .again here round ends, behind⟩
        | inl r =>
            rw [round] at here next
            obtain ⟨places, later⟩ := List.forall_mem_append.mp here
            refine ⟨r, .done places round, later, ?_⟩
            cases step : after s r with
            | inl result' => exact absurd next (by simp [step])
            | inr s' =>
                simp only [step] at next
                cases Sum.inr.inj next
                exact rest
  · rintro ⟨r, ends, behind⟩
    induction ends with
    | @done t r here done =>
        obtain ⟨later, next⟩ := behind
        have places : ∀ a ∈ (nest inner start looksAfter after).looks (s, t), good a := by
          simp only [nest, done]
          exact List.forall_mem_append.mpr ⟨here, later⟩
        cases step : after s r with
        | inl result' =>
            rw [step] at next
            subst next
            exact .done places (by simp only [nest, done, step])
        | inr s' =>
            rw [step] at next
            exact .again places (by simp only [nest, done, step]) next
    | @again t t' r here next rest ih =>
        refine .again ?_ ?_ (ih behind)
        · simp only [nest, next, List.append_nil]
          exact here
        · simp only [nest, next]

end Nest

end Loop

end Vmac.Theory.Walk
