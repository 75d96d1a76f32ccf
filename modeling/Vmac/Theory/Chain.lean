/-
# Vmac.Theory.Chain -- a chained hash table whose lookup does not compare keys

`Buckets` is a table of chains.  `lookup` is what a table is for: the entry of the
chain that has the key.  `lastIn` is the loop that keeps the last entry it visits
and compares nothing.  The two agree on a key exactly when the last entry of its
chain has that key or the chain has no entry with it and none at all
(`lastIn_eq_lookup_iff` on tables with at most one entry a chain).

A table filled through `lastIn` -- an entry is added only where `lastIn` finds none
-- never has two entries in a chain (`Single`).  On a key that is `Alone` in its
chain the operations are those of a map: `lookup_replace`, `lookup_insert`,
`lookup_remove`.
-/
import Mathlib.Logic.Function.Basic
import Mathlib.Data.List.Basic

namespace Vmac.Theory.Chain

set_option autoImplicit false
set_option linter.unusedSectionVars false

universe u v w

/-- Chains of entries, one for each hash value. -/
abbrev Buckets (ι : Type u) (ε : Type v) := ι → List ε

section

variable {ι : Type u} {ε : Type v} {κ : Type w} [DecidableEq ι] [DecidableEq κ]
variable (hash : κ → ι) (key : ε → κ)

def empty : Buckets ι ε := fun _ => []

/-- The last entry of the chain of `k`, whatever its key. -/
def lastIn (b : Buckets ι ε) (k : κ) : Option ε := (b (hash k)).getLast?

/-- The entry of the chain of `k` that has the key. -/
def lookup (b : Buckets ι ε) (k : κ) : Option ε := (b (hash k)).find? fun e => key e = k

/-- Add an entry at the head of its chain. -/
def insert (b : Buckets ι ε) (e : ε) : Buckets ι ε :=
  Function.update b (hash (key e)) (e :: b (hash (key e)))

/-- Write the entry that `lastIn` returns for `k`. -/
def replace (b : Buckets ι ε) (k : κ) (e : ε) : Buckets ι ε :=
  Function.update b (hash k) ((b (hash k)).dropLast ++ [e])

/-- Unlink the entry that `lastIn` returns for `k`. -/
def remove (b : Buckets ι ε) (k : κ) : Buckets ι ε :=
  Function.update b (hash k) (b (hash k)).dropLast

/-- What is left of the table when the entry `lastIn` found for `k` has become `result`:
an entry is added, written, unlinked, or nothing happens. -/
def write (b : Buckets ι ε) (k : κ) (found result : Option ε) : Buckets ι ε :=
  match found, result with
  | none, none => b
  | none, some e => insert hash key b e
  | some _, some e => replace hash b k e
  | some _, none => remove hash b k

/-- No chain has two entries, and every entry is in the chain of its key. -/
structure Single (b : Buckets ι ε) : Prop where
  short : ∀ i, (b i).length ≤ 1
  placed : ∀ i, ∀ e ∈ b i, hash (key e) = i

/-- Every entry in the chain of `k` has key `k`. -/
def Alone (b : Buckets ι ε) (k : κ) : Prop := ∀ e ∈ b (hash k), key e = k

variable {hash key}

omit [DecidableEq ι] [DecidableEq κ] in
theorem lastIn_none {b : Buckets ι ε} {k : κ} : lastIn hash b k = none ↔ b (hash k) = [] := by
  simp [lastIn]

omit [DecidableEq ι] [DecidableEq κ] in
theorem lastIn_mem {b : Buckets ι ε} {k : κ} {e : ε} (found : lastIn hash b k = some e) :
    e ∈ b (hash k) := List.mem_of_getLast? found

omit [DecidableEq κ] in
@[simp] theorem lastIn_replace (b : Buckets ι ε) (k : κ) (e : ε) :
    lastIn hash (replace hash b k e) k = some e := by
  simp [lastIn, replace]

omit [DecidableEq κ] in
theorem lastIn_write (b : Buckets ι ε) {k : κ} {result : Option ε}
    (short : (b (hash k)).length ≤ 1) (keyed : ∀ e', result = some e' → hash (key e') = hash k) :
    lastIn hash (write hash key b k (lastIn hash b k) result) k = result := by
  cases found : lastIn hash b k with
  | none =>
      have chain := lastIn_none.mp found
      cases result with
      | none => exact found
      | some e' => simp [write, insert, lastIn, keyed e' rfl, chain]
  | some e =>
      cases result with
      | none =>
          have gone : (b (hash k)).dropLast = [] := by
            rw [← List.length_eq_zero_iff, List.length_dropLast]
            omega
          simp [write, remove, lastIn, gone]
      | some e' => exact lastIn_replace b k e'

omit [DecidableEq κ] in
/-- A write leaves the other chains. -/
theorem lastIn_write_other (b : Buckets ι ε) {k k' : κ} {found result : Option ε} (other : hash k' ≠ hash k)
    (keyed : ∀ e', result = some e' → hash (key e') = hash k) :
    lastIn hash (write hash key b k found result) k' = lastIn hash b k' := by
  cases found with
  | none =>
      cases result with
      | none => rfl
      | some e' => simp [write, insert, lastIn, keyed e' rfl, other]
  | some e =>
      cases result with
      | none => simp [write, remove, lastIn, other]
      | some e' => simp [write, replace, lastIn, other]

omit [DecidableEq κ] in
/-- Writing back what was found changes nothing. -/
theorem write_same (b : Buckets ι ε) (k : κ) :
    write hash key b k (lastIn hash b k) (lastIn hash b k) = b := by
  cases found : lastIn hash b k with
  | none => rfl
  | some e =>
      have chain : (b (hash k)).dropLast ++ [e] = b (hash k) :=
        List.dropLast_append_getLast? e found
      rw [write, replace, chain, Function.update_eq_self]

omit [DecidableEq κ] in
theorem mem_write {b : Buckets ι ε} {k : κ} {found result : Option ε} {i : ι} {e : ε}
    (member : e ∈ write hash key b k found result i) : e ∈ b i ∨ result = some e := by
  cases found with
  | none =>
      cases result with
      | none => exact .inl member
      | some e' =>
          by_cases here : i = hash (key e')
          · subst here
            simp only [write, insert, Function.update_self, List.mem_cons] at member
            rcases member with rfl | old
            · exact .inr rfl
            · exact .inl old
          · simp only [write, insert, Function.update_of_ne here] at member
            exact .inl member
  | some e₀ =>
      by_cases here : i = hash k
      · subst here
        cases result with
        | none =>
            simp only [write, remove, Function.update_self] at member
            exact .inl ((List.dropLast_sublist _).subset member)
        | some e' =>
            simp only [write, replace, Function.update_self, List.mem_append,
              List.mem_singleton] at member
            rcases member with old | rfl
            · exact .inl ((List.dropLast_sublist _).subset old)
            · exact .inr rfl
      · cases result <;> simp only [write, remove, replace, Function.update_of_ne here] at member
        · exact .inl member
        · exact .inl member

namespace Single

omit [DecidableEq ι] [DecidableEq κ]

theorem empty : Single hash key (Chain.empty : Buckets ι ε) :=
  ⟨fun _ => Nat.zero_le 1, fun _ _ h => nomatch h⟩

/-- On a table with short chains, what `lastIn` returns is the whole chain. -/
theorem chain {b : Buckets ι ε} (single : Single hash key b) {k : κ} {e : ε}
    (found : lastIn hash b k = some e) : b (hash k) = [e] := by
  have short := single.short (hash k)
  unfold lastIn at found
  match chain : b (hash k) with
  | [] => rw [chain] at found; cases found
  | [x] => rw [chain] at found; cases found; rfl
  | x :: y :: rest => rw [chain] at short; simp at short

variable [DecidableEq ι]

theorem insert {b : Buckets ι ε} (single : Single hash key b) {e : ε}
    (free : lastIn hash b (key e) = none) : Single hash key (insert hash key b e) := by
  rw [lastIn_none] at free
  constructor
  · intro i
    by_cases here : i = hash (key e)
    · subst here; simp [Chain.insert, free]
    · simpa [Chain.insert, here] using single.short i
  · intro i x member
    by_cases here : i = hash (key e)
    · subst here
      simp only [Chain.insert, free, Function.update_self, List.mem_singleton] at member
      rw [member]
    · simp only [Chain.insert, Function.update_of_ne here] at member
      exact single.placed i x member

theorem replace {b : Buckets ι ε} (single : Single hash key b) {k : κ} {e e' : ε}
    (found : lastIn hash b k = some e) (same : key e' = key e) :
    Single hash key (replace hash b k e') := by
  have chain := single.chain found
  constructor
  · intro i
    by_cases here : i = hash k
    · subst here; simp [Chain.replace, chain]
    · simpa [Chain.replace, here] using single.short i
  · intro i x member
    by_cases here : i = hash k
    · subst here
      simp only [Chain.replace, chain, Function.update_self, List.dropLast_singleton,
        List.nil_append, List.mem_singleton] at member
      rw [member, same]
      exact single.placed _ e (lastIn_mem found)
    · simp only [Chain.replace, Function.update_of_ne here] at member
      exact single.placed i x member

theorem remove {b : Buckets ι ε} (single : Single hash key b) (k : κ) :
    Single hash key (remove hash b k) := by
  constructor
  · intro i
    by_cases here : i = hash k
    · subst here
      have := single.short (hash k)
      simp only [Chain.remove, Function.update_self, List.length_dropLast]
      omega
    · simpa [Chain.remove, here] using single.short i
  · intro i x member
    by_cases here : i = hash k
    · subst here
      simp only [Chain.remove, Function.update_self] at member
      exact single.placed _ x ((List.dropLast_sublist _).subset member)
    · simp only [Chain.remove, Function.update_of_ne here] at member
      exact single.placed i x member

theorem write {b : Buckets ι ε} (single : Single hash key b) {k : κ} {result : Option ε}
    (kept : ∀ e', result = some e' → key e' = ((lastIn hash b k).elim k key)) :
    Single hash key (Chain.write hash key b k (lastIn hash b k) result) := by
  cases found : lastIn hash b k with
  | none =>
      cases result with
      | none => exact single
      | some e' =>
          have keyE : key e' = k := by simpa [found] using kept e' rfl
          exact single.insert (by rw [keyE]; exact found)
  | some e =>
      cases result with
      | none => exact single.remove k
      | some e' => exact single.replace found (by simpa [found] using kept e' rfl)

end Single

omit [DecidableEq ι] in
/-- The loop that compares nothing finds the entry of `k`, or that there is none,
exactly when no other key has an entry in the chain of `k`. -/
theorem lastIn_eq_lookup_iff {b : Buckets ι ε} (single : Single hash key b) (k : κ) :
    lastIn hash b k = lookup hash key b k ↔ Alone hash key b k := by
  cases found : lastIn hash b k with
  | none =>
      have chain := lastIn_none.mp found
      simp [lookup, Alone, chain]
  | some e =>
      have chain := single.chain found
      by_cases same : key e = k <;> simp [lookup, Alone, chain, same]

/-- An entry of a short chain is what both lookups return for its key. -/
theorem lastIn_of_mem {b : Buckets ι ε} (single : Single hash key b) {i : ι} {e : ε}
    (member : e ∈ b i) : lastIn hash b (key e) = some e ∧ Alone hash key b (key e) := by
  have place := single.placed i e member
  subst place
  have short := single.short (hash (key e))
  obtain ⟨x, chain⟩ : ∃ x, b (hash (key e)) = [x] := by
    match rest : b (hash (key e)) with
    | [] => rw [rest] at member; cases member
    | [x] => exact ⟨x, rfl⟩
    | x :: y :: more => rw [rest] at short; simp at short
  rw [chain, List.mem_singleton] at member
  subst member
  refine ⟨by simp [lastIn, chain], fun y inside => ?_⟩
  rw [chain, List.mem_singleton] at inside
  rw [inside]

section Alone

variable {b : Buckets ι ε} {k : κ}

omit [DecidableEq ι] in
theorem lastIn_of_alone (single : Single hash key b) (alone : Alone hash key b k) :
    lastIn hash b k = lookup hash key b k := (lastIn_eq_lookup_iff single k).mpr alone

theorem lookup_replace (single : Single hash key b) (alone : Alone hash key b k) {e e' : ε}
    (found : lastIn hash b k = some e) (same : key e' = key e) :
    lookup hash key (replace hash b k e') = Function.update (lookup hash key b) k (some e') := by
  have chain := single.chain found
  have keyE : key e = k := alone e (lastIn_mem found)
  funext k'
  by_cases here : k' = k
  · subst here
    simp [lookup, replace, chain, same, keyE]
  · rw [Function.update_of_ne here]
    by_cases collide : hash k' = hash k
    · simp [lookup, replace, collide, chain, same, keyE, Ne.symm here]
    · simp [lookup, replace, collide]

theorem lookup_insert {e : ε} (free : lastIn hash b (key e) = none) :
    lookup hash key (insert hash key b e) =
      Function.update (lookup hash key b) (key e) (some e) := by
  rw [lastIn_none] at free
  funext k'
  by_cases here : k' = key e
  · subst here
    simp [lookup, insert]
  · rw [Function.update_of_ne here]
    by_cases collide : hash k' = hash (key e)
    · simp [lookup, insert, collide, free, Ne.symm here]
    · simp [lookup, insert, collide]

theorem lookup_remove (single : Single hash key b) (alone : Alone hash key b k) :
    lookup hash key (remove hash b k) = Function.update (lookup hash key b) k none := by
  funext k'
  cases found : lastIn hash b k with
  | none =>
      have chain := lastIn_none.mp found
      by_cases here : k' = k
      · subst here; simp [lookup, remove, chain]
      · rw [Function.update_of_ne here]
        by_cases collide : hash k' = hash k <;> simp [lookup, remove, collide, chain]
  | some e =>
      have chain := single.chain found
      have keyE : key e = k := alone e (lastIn_mem found)
      by_cases here : k' = k
      · subst here; simp [lookup, remove, chain]
      · rw [Function.update_of_ne here]
        by_cases collide : hash k' = hash k
        · simp [lookup, remove, collide, chain, keyE, Ne.symm here]
        · simp [lookup, remove, collide]

/-- On a key that is alone in its chain, writing back is a map update. -/
theorem lookup_write (single : Single hash key b) (alone : Alone hash key b k)
    {result : Option ε} (keyed : ∀ e', result = some e' → key e' = k) :
    lookup hash key (write hash key b k (lastIn hash b k) result) =
      Function.update (lookup hash key b) k result := by
  cases found : lastIn hash b k with
  | none =>
      cases result with
      | none =>
          have gone : lookup hash key b k = none := by
            rw [← lastIn_of_alone single alone, found]
          rw [write, ← gone, Function.update_eq_self]
      | some e' =>
          have keyE := keyed e' rfl
          subst keyE
          exact lookup_insert found
  | some e =>
      cases result with
      | none => exact lookup_remove single alone
      | some e' =>
          exact lookup_replace single alone found
            ((keyed e' rfl).trans (alone e (lastIn_mem found)).symm)

end Alone

end

end Vmac.Theory.Chain
