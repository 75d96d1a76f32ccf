/-
# Vmac.Theory.Action -- computations, and what they touch on the way

A computation is given within a bound on the rounds of its loops: what it has touched, and its result once that is
there.  A larger bound has touched as much or more, and no more once the result is there.

* `Act`: such a computation; `touch` touches, `ofLoop` is a loop, `walk` repeats a computation from state to state.
* `Safe`: within every bound the places touched are good.  The computation need not come to an end.
* `safe_bind`, `safe_walk_iff`: what comes later is asked for the results that are there, and for the states met.
* `ofLoop_then_iff`: a loop that ends is safe, and its result is in order, exactly if it ends well.
-/
import Vmac.Theory.Walk

namespace Vmac.Theory.Action

open Walk

set_option autoImplicit false

variable {ε α β σ ρ : Type}

structure Act (ε α : Type) where
  trace : Nat → List ε
  result : Nat → Option α
  longer : ∀ n, trace n <+: trace (n + 1)
  settled : ∀ n r, result n = some r → result (n + 1) = some r ∧ trace (n + 1) = trace n

namespace Act

/-! ## Larger bounds -/

theorem result_mono {a : Act ε α} {r : α} {n m : Nat} (le : n ≤ m) (there : a.result n = some r) :
    a.result m = some r ∧ a.trace m = a.trace n := by
  induction le with
  | refl => exact ⟨there, rfl⟩
  | @step m _ ih =>
      obtain ⟨same, places⟩ := a.settled m r ih.1
      exact ⟨same, places.trans ih.2⟩

theorem trace_mono (a : Act ε α) {n m : Nat} (le : n ≤ m) : a.trace n <+: a.trace m := by
  induction le with
  | refl => exact List.prefix_refl _
  | @step m _ ih => exact ih.trans (a.longer m)

/-! ## Making them -/

def ret (r : α) : Act ε α where
  trace _ := []
  result _ := some r
  longer _ := List.prefix_refl _
  settled _ _ there := ⟨there, rfl⟩

def touch (places : List ε) : Act ε Unit where
  trace _ := places
  result _ := some ()
  longer _ := List.prefix_refl _
  settled _ _ there := ⟨there, rfl⟩

/-- What is touched with a result, if it is there. -/
def after (there : Option α) (next : α → List ε) : List ε := (there.map next).getD []

def andThen (a : Act ε α) (k : α → Act ε β) : Act ε β where
  trace n := a.trace n ++ after (a.result n) fun x => (k x).trace n
  result n := (a.result n).bind fun x => (k x).result n
  longer n := by
    cases there : a.result n with
    | none => simpa [after] using (a.longer n).trans (List.prefix_append _ _)
    | some x =>
        obtain ⟨same, places⟩ := a.settled n x there
        simpa [after, same, places] using (k x).longer n
  settled n r there := by
    obtain ⟨x, result, rest⟩ := Option.bind_eq_some_iff.mp there
    obtain ⟨same, places⟩ := a.settled n x result
    obtain ⟨same', places'⟩ := (k x).settled n r rest
    simp [after, same, places, same', places', result]

instance : Monad (Act ε) where
  pure := ret
  bind := andThen

/-- A loop; a place it looks at is touched. -/
def ofLoop (l : Loop σ ε ρ) (s : σ) : Act ε ρ where
  trace n := l.trace n s
  result n := l.run n s
  longer n := by
    induction n generalizing s with
    | zero => exact List.nil_prefix
    | succ n ih =>
        rw [Loop.trace, Loop.trace]
        refine (List.prefix_append_right_inj _).mpr ?_
        cases l.round s with
        | inl r => exact List.prefix_refl _
        | inr s' => exact ih s'
  settled n r there := by
    induction n generalizing s with
    | zero => exact absurd there (by simp [Loop.run])
    | succ n ih =>
        rw [Loop.run] at there
        rw [Loop.run, Loop.trace, Loop.trace]
        cases round : l.round s with
        | inl r' =>
            rw [round] at there
            exact ⟨there, rfl⟩
        | inr s' =>
            rw [round] at there
            obtain ⟨same, places⟩ := ih s' there
            exact ⟨same, congrArg _ places⟩

/-- What the rounds of a walk touch, within a bound on them and one on what they are made of. -/
def walkTrace (body : σ → Act ε (ρ ⊕ σ)) (bound : Nat) : Nat → σ → List ε
  | 0, _ => []
  | n + 1, s =>
    (body s).trace bound ++
      match (body s).result bound with
      | some (.inr s') => walkTrace body bound n s'
      | _ => []

def walkResult (body : σ → Act ε (ρ ⊕ σ)) (bound : Nat) : Nat → σ → Option ρ
  | 0, _ => none
  | n + 1, s =>
    match (body s).result bound with
    | some (.inr s') => walkResult body bound n s'
    | some (.inl r) => some r
    | none => none

theorem walkTrace_longer (body : σ → Act ε (ρ ⊕ σ)) (b n : Nat) (s : σ) :
    walkTrace body b n s <+: walkTrace body (b + 1) (n + 1) s := by
  induction n generalizing s with
  | zero => exact List.nil_prefix
  | succ n ih =>
      rw [walkTrace, walkTrace]
      cases there : (body s).result b with
      | none => simpa using ((body s).longer b).trans (List.prefix_append _ _)
      | some x =>
          obtain ⟨same, places⟩ := (body s).settled b x there
          rw [same, places]
          refine (List.prefix_append_right_inj _).mpr ?_
          cases x with
          | inl r => exact List.prefix_refl _
          | inr s' => exact ih s'

theorem walk_settled (body : σ → Act ε (ρ ⊕ σ)) {b b' n n' : Nat} (bounds : b ≤ b') (rounds : n ≤ n') {s : σ} {r : ρ}
    (result : walkResult body b n s = some r) :
    walkResult body b' n' s = some r ∧ walkTrace body b' n' s = walkTrace body b n s := by
  induction n generalizing s n' with
  | zero => exact absurd result (by simp [walkResult])
  | succ n ih =>
      obtain ⟨k, rfl⟩ : ∃ k, n' = k + 1 := ⟨n' - 1, by omega⟩
      rw [walkResult] at result
      rw [walkResult, walkTrace, walkTrace]
      cases there : (body s).result b with
      | none => exact absurd result (by simp [there])
      | some x =>
          obtain ⟨same, places⟩ := result_mono bounds there
          rw [there] at result
          rw [same, places]
          cases x with
          | inl r' => exact ⟨result, rfl⟩
          | inr s' =>
              obtain ⟨same, places⟩ := ih (Nat.le_of_succ_le_succ rounds) result
              exact ⟨same, congrArg _ places⟩

/-- The computation again and again, until it says that the walk is done. -/
def walk (body : σ → Act ε (ρ ⊕ σ)) (s : σ) : Act ε ρ where
  trace n := walkTrace body n n s
  result n := walkResult body n n s
  longer n := walkTrace_longer body n n s
  settled n _ there := walk_settled body (Nat.le_succ n) (Nat.le_succ n) there

/-! ## What they return -/

variable {a : Act ε α} {k : α → Act ε β} {r r' : α}

/-- The result is there within some bound. -/
def Returns (a : Act ε α) (r : α) : Prop := ∃ n, a.result n = some r

theorem Returns.unique (one : a.Returns r) (other : a.Returns r') : r = r' := by
  obtain ⟨n, one⟩ := one
  obtain ⟨m, other⟩ := other
  have one := (result_mono (Nat.le_max_left n m) one).1
  have other := (result_mono (Nat.le_max_right n m) other).1
  exact Option.some.inj (one.symm.trans other)

@[simp] theorem returns_pure {x : α} : (pure x : Act ε α).Returns r ↔ r = x := by
  constructor
  · rintro ⟨_, there⟩
    exact (Option.some.inj there).symm
  · rintro rfl
    exact ⟨0, rfl⟩

@[simp] theorem returns_touch {places : List ε} {u : Unit} : (touch places).Returns u := ⟨0, rfl⟩

@[simp] theorem returns_bind {y : β} : (a >>= k).Returns y ↔ ∃ x, a.Returns x ∧ (k x).Returns y := by
  constructor
  · rintro ⟨n, there⟩
    obtain ⟨x, result, rest⟩ := Option.bind_eq_some_iff.mp there
    exact ⟨x, ⟨n, result⟩, n, rest⟩
  · rintro ⟨x, ⟨n, result⟩, m, rest⟩
    refine ⟨max n m, Option.bind_eq_some_iff.mpr ⟨x, ?_, ?_⟩⟩
    · exact (result_mono (Nat.le_max_left n m) result).1
    · exact (result_mono (Nat.le_max_right n m) rest).1

theorem forall_returns_bind {P : β → Prop} :
    (∀ y, (a >>= k).Returns y → P y) ↔ ∀ x, a.Returns x → ∀ y, (k x).Returns y → P y := by
  simp only [returns_bind]
  constructor
  · intro all x returns y there
    exact all y ⟨x, returns, there⟩
  · rintro all y ⟨x, returns, there⟩
    exact all x returns y there

/-! ## Good places -/

variable {good : ε → Prop}

/-- Whatever the bound, what is touched is good. -/
def Safe (good : ε → Prop) (a : Act ε α) : Prop := ∀ n, ∀ e ∈ a.trace n, good e

@[simp] theorem safe_pure {x : α} : (pure x : Act ε α).Safe good := fun _ _ member => absurd member List.not_mem_nil

@[simp] theorem safe_touch {places : List ε} : (touch places).Safe good ↔ ∀ e ∈ places, good e :=
  ⟨fun safe => safe 0, fun safe _ => safe⟩

/-- What comes later is asked for the result that is there. -/
@[simp] theorem safe_bind : (a >>= k).Safe good ↔ a.Safe good ∧ ∀ x, a.Returns x → (k x).Safe good := by
  constructor
  · intro safe
    refine ⟨fun n e member => safe n e (List.mem_append_left _ member), ?_⟩
    rintro x ⟨m, there⟩ n e member
    refine safe (max m n) e (List.mem_append_right _ ?_)
    rw [(result_mono (Nat.le_max_left m n) there).1]
    exact ((k x).trace_mono (Nat.le_max_right m n)).subset member
  · rintro ⟨first, later⟩ n e member
    rcases List.mem_append.mp member with member | member
    · exact first n e member
    · cases there : a.result n with
      | none => exact absurd member (by simp [there, after])
      | some x =>
          rw [there] at member
          exact later x ⟨n, there⟩ n e member

theorem safe_ite {c : Prop} [Decidable c] {a b : Act ε α} :
    (if c then a else b).Safe good ↔ (c → a.Safe good) ∧ (¬c → b.Safe good) := by
  split <;> simp_all

/-! ## Walks -/

variable {body : σ → Act ε (ρ ⊕ σ)} {s s' : σ}

/-- The states that the walk meets. -/
inductive Met (body : σ → Act ε (ρ ⊕ σ)) (s : σ) : σ → Prop where
  | start : Met body s s
  | next {s' s'' : σ} (met : Met body s s') (goes : (body s').Returns (.inr s'')) : Met body s s''

theorem Met.head (goes : (body s).Returns (.inr s')) {t : σ} (met : Met body s' t) : Met body s t := by
  induction met with
  | start => exact .next .start goes
  | next _ goes' ih => exact .next ih goes'

theorem walkTrace_met {b n : Nat} {e : ε} (member : e ∈ walkTrace body b n s) :
    ∃ s', Met body s s' ∧ e ∈ (body s').trace b := by
  induction n generalizing s with
  | zero => exact absurd member List.not_mem_nil
  | succ n ih =>
      rw [walkTrace, List.mem_append] at member
      rcases member with here | later
      · exact ⟨s, .start, here⟩
      · split at later
        · rename_i s' there
          obtain ⟨t, met, touched⟩ := ih later
          exact ⟨t, met.head ⟨b, there⟩, touched⟩
        · exact absurd later List.not_mem_nil

/-- A state that is met is come to within some bound, and within every larger one. -/
theorem walkTrace_of_met (met : Met body s s') :
    ∃ m, ∀ b ≥ m, ∀ n, walkTrace body b n s' ⊆ walkTrace body b (n + m) s := by
  induction met with
  | start => exact ⟨0, fun b _ n => List.Subset.refl _⟩
  | @next t u _ goes ih =>
      obtain ⟨m, within⟩ := ih
      obtain ⟨k, there⟩ := goes
      refine ⟨max m k + 1, fun b ge n => ?_⟩
      have there := (result_mono (show k ≤ b by omega) there).1
      have through : walkTrace body b n u ⊆ walkTrace body b (n + 1) t := by
        rw [walkTrace, there]
        exact List.subset_append_right _ _
      have grows (rounds more : Nat) : walkTrace body b rounds s ⊆ walkTrace body b (rounds + more) s := by
        generalize s = state
        induction rounds generalizing state with
        | zero => exact List.nil_subset _
        | succ rounds ih =>
            rw [Nat.add_right_comm, walkTrace, walkTrace]
            refine List.append_subset.mpr ⟨List.subset_append_left _ _, List.Subset.trans ?_ (List.subset_append_right _ _)⟩
            split
            · exact ih _
            · exact List.nil_subset _
      have sizes : n + (max m k + 1) = n + 1 + m + (max m k - m) := by omega
      rw [sizes]
      exact List.Subset.trans through (List.Subset.trans (within b (by omega) (n + 1)) (grows _ _))

/-- A walk is safe exactly if each round in a state that it meets is. -/
theorem safe_walk_iff : (walk body s).Safe good ↔ ∀ s', Met body s s' → (body s').Safe good := by
  constructor
  · intro safe s' met n e member
    obtain ⟨m, within⟩ := walkTrace_of_met met
    let b := n + 1 + m
    have touched : e ∈ walkTrace body b (n + 1) s' := by
      rw [walkTrace]
      exact List.mem_append_left _ (((body s').trace_mono (by omega)).subset member)
    exact safe b e (within b (by omega) (n + 1) touched)
  · intro safe n e member
    obtain ⟨s', met, touched⟩ := walkTrace_met member
    exact safe s' met n e touched

theorem met_iff_head {t : σ} : Met body s t ↔ t = s ∨ ∃ s', (body s).Returns (.inr s') ∧ Met body s' t := by
  constructor
  · intro met
    induction met with
    | start => exact .inl rfl
    | @next t u _ goes ih =>
        rcases ih with rfl | ⟨s', first, met⟩
        · exact .inr ⟨u, goes, .start⟩
        · exact .inr ⟨s', first, .next met goes⟩
  · rintro (rfl | ⟨s', goes, met⟩)
    · exact .start
    · exact met.head goes

/-- The first round of a walk, and the others. -/
theorem safe_walk_head : (walk body s).Safe good ↔
    (body s).Safe good ∧ ∀ s', (body s).Returns (.inr s') → (walk body s').Safe good := by
  simp only [safe_walk_iff, met_iff_head (s := s)]
  constructor
  · intro safe
    exact ⟨safe s (.inl rfl), fun s' goes t met => safe t (.inr ⟨s', goes, met⟩)⟩
  · rintro ⟨first, later⟩ t (rfl | ⟨s', goes, met⟩)
    · exact first
    · exact later s' goes t met

theorem returns_walk_head {r : ρ} : (walk body s).Returns r ↔
    (body s).Returns (.inl r) ∨ ∃ s', (body s).Returns (.inr s') ∧ (walk body s').Returns r := by
  constructor
  · rintro ⟨n, there⟩
    cases n with
    | zero => exact absurd there (by simp [walk, walkResult])
    | succ n =>
        simp only [walk, walkResult] at there
        split at there
        · rename_i s' goes
          exact .inr ⟨s', ⟨_, goes⟩, n + 1, (walk_settled body (Nat.le_refl _) (Nat.le_succ n) there).1⟩
        · rename_i r' goes
          cases Option.some.inj there
          exact .inl ⟨_, goes⟩
        · exact absurd there (by simp)
  · rintro (⟨n, there⟩ | ⟨s', ⟨n, goes⟩, k, there⟩)
    · refine ⟨n + 1, ?_⟩
      simp only [walk, walkResult, (result_mono (Nat.le_succ n) there).1]
    · let b := max n k
      refine ⟨b + 1, ?_⟩
      have goes := (result_mono (show n ≤ b + 1 by omega) goes).1
      simp only [walk, walkResult, goes]
      exact (walk_settled body (show k ≤ b + 1 by omega) (show k ≤ b by omega) there).1

/-! ## Loops -/

variable {l : Loop σ ε ρ}

theorem returns_ofLoop {r : ρ} : (ofLoop l s).Returns r ↔ l.Ends (fun _ => True) s r := by
  rw [Loop.ends_iff_run]
  simp [Returns, ofLoop]

/-- The states that a loop passes. -/
inductive Passes (l : Loop σ ε ρ) (s : σ) : σ → Prop where
  | start : Passes l s s
  | next {s' s'' : σ} (passes : Passes l s s') (goes : l.round s' = .inr s'') : Passes l s s''

theorem Passes.head (goes : l.round s = .inr s') {t : σ} (passes : Passes l s' t) : Passes l s t := by
  induction passes with
  | start => exact .next .start goes
  | next _ goes' ih => exact .next ih goes'

theorem trace_of_passes (passes : Passes l s s') : ∃ m, ∀ n, l.trace n s' ⊆ l.trace (n + m) s := by
  induction passes with
  | start => exact ⟨0, fun n => List.Subset.refl _⟩
  | @next t u _ goes ih =>
      obtain ⟨m, within⟩ := ih
      refine ⟨m + 1, fun n => List.Subset.trans ?_ (Nat.add_right_comm n 1 m ▸ within (n + 1))⟩
      rw [Loop.trace, goes]
      exact List.subset_append_right _ _

theorem safe_ofLoop_iff : (ofLoop l s).Safe good ↔ ∀ s', Passes l s s' → ∀ a ∈ l.looks s', good a := by
  constructor
  · intro safe s' passes a member
    obtain ⟨m, within⟩ := trace_of_passes passes
    exact safe (1 + m) a (within 1 (List.mem_append_left _ member))
  · intro safe n
    show ∀ a ∈ l.trace n s, good a
    induction n generalizing s with
    | zero => exact fun a member => absurd member List.not_mem_nil
    | succ n ih =>
        rw [Loop.trace, List.forall_mem_append]
        refine ⟨safe s .start, ?_⟩
        cases round : l.round s with
        | inl r => exact fun a member => absurd member List.not_mem_nil
        | inr s' => exact ih fun t passes => safe t (passes.head round)

theorem ends_of_passes (passes : Passes l s s') {r : ρ} (rest : l.Ends (fun _ => True) s' r) :
    l.Ends (fun _ => True) s r := by
  induction passes with
  | start => exact rest
  | next _ goes ih => exact ih (.again (fun _ _ => trivial) goes rest)

/-- What a loop returns, it returns in a state that it passes. -/
theorem returns_ofLoop_iff_passes {r : ρ} : (ofLoop l s).Returns r ↔ ∃ s', Passes l s s' ∧ l.round s' = .inl r := by
  rw [returns_ofLoop]
  constructor
  · intro ends
    induction ends with
    | done _ done => exact ⟨_, .start, done⟩
    | again _ next _ ih =>
        obtain ⟨t, passes, done⟩ := ih
        exact ⟨t, passes.head next, done⟩
  · rintro ⟨t, passes, done⟩
    exact ends_of_passes passes (.done (fun _ _ => trivial) done)

/-- A loop that ends: its places are good, and its result is as wanted. -/
theorem ofLoop_then_iff {P : ρ → Prop} (ends : ∃ r, l.Ends (fun _ => True) s r) :
    ((ofLoop l s).Safe good ∧ ∀ r, (ofLoop l s).Returns r → P r) ↔ ∃ r, l.Ends good s r ∧ P r := by
  constructor
  · rintro ⟨safe, result⟩
    obtain ⟨r, ends⟩ := ends
    obtain ⟨n, there, -⟩ := Loop.ends_iff_run.mp ends
    exact ⟨r, Loop.ends_iff_run.mpr ⟨n, there, safe n⟩, result r ⟨n, there⟩⟩
  · rintro ⟨r, ends, wanted⟩
    have same := returns_ofLoop.mpr (ends.mono fun _ _ => trivial)
    obtain ⟨n, there, places⟩ := Loop.ends_iff_run.mp ends
    refine ⟨fun m e member => ?_, fun r' returns => same.unique returns ▸ wanted⟩
    have settled : (ofLoop l s).trace (max n m) = _ := (result_mono (Nat.le_max_left n m) there).2
    have within := ((ofLoop l s).trace_mono (Nat.le_max_right n m)).subset member
    rw [settled] at within
    exact places e within

end Act

end Vmac.Theory.Action
