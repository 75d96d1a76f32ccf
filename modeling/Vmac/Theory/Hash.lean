/-
# Vmac.Theory.Hash -- a hash table of chains

The elements whose keys have one hash value are in one chain.  A search takes the first element with the key.

* `Sound`: every element is in the chain of its key, and no key is there twice.
* `find_link`, `find_update`, `find_sweep`: what a search finds in the table that an operation leaves.
-/
import Mathlib.Data.List.Nodup

namespace Vmac.Theory.Hash

set_option autoImplicit false

/-- The chains. -/
abbrev Table (ε : Type) := Nat → List ε

variable {κ ε : Type} [DecidableEq κ] (hash : κ → Nat) (key : ε → κ)

/-- The first element with a key. -/
def find (t : Table ε) (k : κ) : Option ε := (t (hash k)).find? fun e => key e = k

/-- A new element at the head of its chain. -/
def link (t : Table ε) (e : ε) : Table ε := Function.update t (hash (key e)) (e :: t (hash (key e)))

/-- The first element of a chain with a key is changed. -/
def updateFirst (k : κ) (f : ε → ε) : List ε → List ε
  | [] => []
  | e :: rest => if key e = k then f e :: rest else e :: updateFirst k f rest

/-- The element with a key is changed. -/
def update (t : Table ε) (k : κ) (f : ε → ε) : Table ε :=
  Function.update t (hash k) (updateFirst key k f (t (hash k)))

/-- Every element is changed or taken out. -/
def sweep (t : Table ε) (f : ε → Option ε) : Table ε := fun b => (t b).filterMap f

/-- Every element is in the chain of its key, and no key is there twice. -/
structure Sound (t : Table ε) : Prop where
  placed : ∀ b, ∀ e ∈ t b, hash (key e) = b
  nodup : ∀ b, ((t b).map key).Nodup

variable {hash key} {t : Table ε} {k : κ} {e : ε}

omit [DecidableEq κ] in
theorem sound_empty : Sound hash key fun _ => [] where
  placed _ _ inside := absurd inside List.not_mem_nil
  nodup _ := List.nodup_nil

/-! ## Searching -/

theorem key_of_find (found : find hash key t k = some e) : key e = k := by
  simpa using List.find?_some found

theorem mem_of_find (found : find hash key t k = some e) : e ∈ t (hash k) := List.mem_of_find?_eq_some found

theorem find_eq_none : find hash key t k = none ↔ ∀ e ∈ t (hash k), key e ≠ k := by
  simp [find]

/-- A key of which there is no second finds its element. -/
theorem Sound.find_eq_some (sound : Sound hash key t) :
    find hash key t k = some e ↔ e ∈ t (hash k) ∧ key e = k := by
  constructor
  · intro found
    exact ⟨mem_of_find found, key_of_find found⟩
  · rintro ⟨inside, rfl⟩
    cases found : find hash key t (key e) with
    | none => exact absurd rfl (find_eq_none.mp found e inside)
    | some e' =>
        have same : e' = e :=
          List.inj_on_of_nodup_map (sound.nodup _) (mem_of_find found) inside (key_of_find found)
        rw [same]

/-! ## A new element -/

theorem Sound.link (sound : Sound hash key t) (new : find hash key t (key e) = none) :
    Sound hash key (link hash key t e) := by
  have absent := find_eq_none.mp new
  refine ⟨fun b e' inside => ?_, fun b => ?_⟩
  · by_cases here : b = hash (key e)
    · subst here
      rw [Hash.link, Function.update_self] at inside
      rcases List.mem_cons.mp inside with rfl | old
      · rfl
      · exact sound.placed _ e' old
    · rw [Hash.link, Function.update_of_ne here] at inside
      exact sound.placed b e' inside
  · by_cases here : b = hash (key e)
    · subst here
      rw [Hash.link, Function.update_self, List.map_cons, List.nodup_cons]
      refine ⟨fun inside => ?_, sound.nodup _⟩
      obtain ⟨e', old, same⟩ := List.mem_map.mp inside
      exact absent e' old same
    · rw [Hash.link, Function.update_of_ne here]
      exact sound.nodup b

theorem find_link (t : Table ε) (e : ε) (k : κ) :
    find hash key (link hash key t e) k = if k = key e then some e else find hash key t k := by
  by_cases same : k = key e
  · simp [find, link, same]
  · by_cases chain : hash k = hash (key e)
    · simp [find, link, chain, same, Ne.symm same]
    · simp [find, link, chain, same]

/-! ## A changed element -/

section Update

variable {f : ε → ε} (keeps : ∀ e, key (f e) = key e)
include keeps

theorem map_updateFirst (k : κ) (l : List ε) : (updateFirst key k f l).map key = l.map key := by
  induction l with
  | nil => rfl
  | cons e rest ih =>
      rw [updateFirst]
      split
      · simp [keeps]
      · simp [ih]

theorem find_updateFirst (k k' : κ) (l : List ε) :
    (updateFirst key k f l).find? (fun e => key e = k') =
      if k' = k then (l.find? fun e => key e = k').map f else l.find? fun e => key e = k' := by
  induction l with
  | nil => simp [updateFirst]
  | cons e rest ih =>
      rw [updateFirst]
      by_cases first : key e = k
      · by_cases same : k' = k
        · simp [first, same, keeps]
        · simp [first, same, Ne.symm same, keeps]
      · by_cases here : key e = k'
        · have other : k' ≠ k := fun same => first (here.trans same)
          simp [here, other]
        · simp [first, here, ih]

theorem Sound.update (sound : Sound hash key t) (k : κ) : Sound hash key (update hash key t k f) := by
  have keys (b : Nat) : ((Hash.update hash key t k f) b).map key = (t b).map key := by
    by_cases here : b = hash k
    · rw [here, Hash.update, Function.update_self, map_updateFirst keeps]
    · rw [Hash.update, Function.update_of_ne here]
  refine ⟨fun b e inside => ?_, fun b => ?_⟩
  · have member : key e ∈ (t b).map key := keys b ▸ List.mem_map_of_mem inside
    obtain ⟨e', old, same⟩ := List.mem_map.mp member
    rw [← same]
    exact sound.placed b e' old
  · rw [keys]
    exact sound.nodup b

theorem find_update (t : Table ε) (k k' : κ) :
    find hash key (update hash key t k f) k' =
      if k' = k then (find hash key t k).map f else find hash key t k' := by
  by_cases chain : hash k' = hash k
  · rw [find, update, chain, Function.update_self, find_updateFirst keeps]
    split
    next same => rw [same, find]
    next => rw [find, chain]
  · have other : k' ≠ k := fun same => chain (congrArg hash same)
    rw [find, update, Function.update_of_ne chain, if_neg other, find]

end Update

/-! ## All elements -/

section Sweep

variable {f : ε → Option ε} (keeps : ∀ e e', f e = some e' → key e' = key e)
include keeps

omit [DecidableEq κ] in
theorem Sound.sweep (sound : Sound hash key t) : Sound hash key (sweep t f) := by
  refine ⟨fun b e inside => ?_, fun b => ?_⟩
  · obtain ⟨e', old, kept⟩ := List.mem_filterMap.mp inside
    rw [keeps e' e kept]
    exact sound.placed b e' old
  · have nodup := sound.nodup b
    rw [Hash.sweep]
    rw [List.Nodup, List.pairwise_map] at nodup ⊢
    refine nodup.filterMap f fun a a' apart b kept b' kept' same => apart ?_
    rw [← keeps a b kept, ← keeps a' b' kept', same]

theorem find_sweep (sound : Sound hash key t) (k : κ) :
    find hash key (sweep t f) k = (find hash key t k).bind f := by
  apply Option.ext
  intro e
  rw [(sound.sweep keeps).find_eq_some, Hash.sweep, List.mem_filterMap, Option.bind_eq_some_iff]
  constructor
  · rintro ⟨⟨e', old, kept⟩, rfl⟩
    exact ⟨e', sound.find_eq_some.mpr ⟨old, (keeps e' e kept).symm⟩, kept⟩
  · rintro ⟨e', found, kept⟩
    exact ⟨⟨e', mem_of_find found, kept⟩, (keeps e' e kept).trans (key_of_find found)⟩

end Sweep

end Vmac.Theory.Hash
