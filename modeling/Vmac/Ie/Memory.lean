/-
# Vmac.Ie.Memory -- elements that stand in memory

* `Stands`: a byte string stands at an address; what is in it is read byte for byte.
* `Stands.element`: an element is read by its id, its length byte and its data.
* `framed`: the whole elements of some bytes of a memory, and the remainder.
-/
import Vmac.Ap.BeaconEdits
import Vmac.Theory.Framing

namespace Vmac.Ie

open Theory.Elements Security

set_option autoImplicit false

/-- The bytes from `p` on are these. -/
def Stands (m : Mem) (p : Nat) (s : List UInt8) : Prop := bytesAt m p s.length = s

namespace Stands

variable {m : Mem} {p n : Nat} {s t : List UInt8} {e : Element}

theorem append_iff : Stands m p (s ++ t) ↔ Stands m p s ∧ Stands m (p + s.length) t := Ap.bytesAt_append_iff

theorem left (stands : Stands m p (s ++ t)) : Stands m p s := (append_iff.mp stands).1

theorem right (stands : Stands m p (s ++ t)) : Stands m (p + s.length) t := (append_iff.mp stands).2

theorem bytesAt_prefix (stands : Stands m p s) (k : Nat) (inside : k ≤ s.length) : bytesAt m p k = s.take k := by
  conv_rhs => rw [← stands]
  rw [bytesAt, bytesAt, ← List.map_take, List.take_range, Nat.min_eq_left inside]

/-- What the string begins with is read, if it is long enough. -/
theorem prefix_iff (stands : Stands m p s) (opening : List UInt8) :
    opening <+: s ↔ opening.length ≤ s.length ∧ bytesAt m p opening.length = opening := by
  constructor
  · intro front
    refine ⟨front.length_le, ?_⟩
    rw [stands.bytesAt_prefix _ front.length_le]
    exact (List.prefix_iff_eq_take.mp front).symm
  · rintro ⟨inside, same⟩
    rw [stands.bytesAt_prefix _ inside] at same
    exact List.prefix_iff_eq_take.mpr same.symm

theorem byte (stands : Stands m p s) {k : Nat} (inside : k < s.length) : m (p + k) = s[k] := by
  have there := congrArg (fun s => s[k]?) stands
  simpa [bytesAt, inside] using there

theorem header (stands : Stands m p (e.bytes ++ s)) : m p = e.id ∧ (m (p + 1)).toNat = e.data.length := by
  obtain ⟨id, length, -⟩ := Ap.element_at stands
  exact ⟨id, length⟩

theorem behind (stands : Stands m p (e.bytes ++ s)) : Stands m (p + (e.data.length + 2)) s :=
  (Ap.element_at stands).2.2

/-- From behind the header on: the data, and what follows. -/
theorem body (stands : Stands m p (e.bytes ++ s)) : Stands m (p + 2) (e.data ++ s) :=
  right (show Stands m p ([e.id, UInt8.ofNat e.data.length] ++ (e.data ++ s)) from stands)

theorem data (stands : Stands m p (e.bytes ++ s)) : bytesAt m (p + 2) e.data.length = e.data := stands.body.left

/-- Bytes that are overwritten by as many. -/
theorem splice {x y z : List UInt8} (stands : Stands m p (x ++ (y ++ z))) (y' : List UInt8) (same : y'.length = y.length) :
    Stands (splice m (p + x.length) y') p (x ++ (y' ++ z)) := by
  rw [append_iff, append_iff]
  refine ⟨?_, bytesAt_splice .., ?_⟩
  · rw [Stands, bytesAt_of_below (splice_below m (p + x.length) y') (Nat.le_refl _)]
    exact stands.left
  · have behind := stands.right.right
    rw [← same] at behind
    rw [Stands, bytesAt_splice_behind _ _ _ _ _ (Nat.le_refl _)]
    exact behind

end Stands

/-- The memory from a pointer on. -/
def fromPtr (m : Mem) (p : Nat) : Mem := fun k => m (p + k)

theorem stands_fromPtr {m : Mem} {p q : Nat} {s : List UInt8} : Stands (fromPtr m p) q s ↔ Stands m (p + q) s := by
  simp only [Stands, bytesAt, fromPtr, Nat.add_assoc]

theorem stands_bytesAt (m : Mem) (p n : Nat) : Stands m p (bytesAt m p n) := by
  rw [Stands, length_bytesAt]

/-- The whole elements of `n` bytes from `p` on, and what is left of them. -/
def framed (m : Mem) (p n : Nat) : List Element × List UInt8 := whole (bytesAt m p n)

section Framed

variable {m : Mem} {p n : Nat}

theorem framed_stands (m : Mem) (p n : Nat) : Stands m p (bytesOf (framed m p n).1 ++ (framed m p n).2) := by
  rw [framed, (whole_spec _).1]
  exact stands_bytesAt m p n

theorem framed_length (m : Mem) (p n : Nat) :
    (bytesOf (framed m p n).1).length + (framed m p n).2.length = n := by
  rw [framed, ← List.length_append, (whole_spec _).1, length_bytesAt]

theorem framed_cut (m : Mem) (p n : Nat) : Cut (framed m p n).2 := (whole_spec _).2

theorem framed_of_bytesOf {es : List Element} (list : bytesAt m p n = bytesOf es) : framed m p n = (es, []) := by
  rw [framed, list, whole_of_bytesOf]

/-- A list of elements, if nothing is left. -/
theorem bytesOf_framed (none_ : (framed m p n).2 = []) : bytesAt m p n = bytesOf (framed m p n).1 := by
  have bytes := (whole_spec (bytesAt m p n)).1
  rw [show (whole (bytesAt m p n)).2 = [] from none_, List.append_nil] at bytes
  exact bytes.symm

theorem framed_all (m : Mem) (n : Nat) : 0 + (bytesOf (framed m 0 n).1 ++ (framed m 0 n).2).length = n := by
  rw [List.length_append, Nat.zero_add, framed_length]

theorem framed_zero (m : Mem) (p : Nat) : framed m p 0 = ([], []) := @framed_of_bytesOf m p 0 [] rfl

end Framed

end Vmac.Ie
