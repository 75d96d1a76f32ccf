/-
# Vmac.Theory.Framing -- the whole elements at the front of a byte string

Every byte string is a list of whole elements and a remainder in which none begins whole, in one
way (`whole_eq_iff`).

* `Cut`: no whole element is at the front; a header is missing, or data.
* `whole`: the elements and the remainder; `whole_of_bytesOf`: of a list of elements, all and none.
* `placeOf`: where in a list of elements the first of a kind begins.
-/
import Vmac.Theory.Elements

namespace Vmac.Theory.Elements

set_option autoImplicit false

/-! ## Remainders -/

/-- No whole element is at the front. -/
def Cut (rest : List UInt8) : Prop := ∀ (e : Element) (s : List UInt8), rest ≠ e.bytes ++ s

theorem cut_nil : Cut [] := fun e _ same => e.bytes_ne_nil (List.append_eq_nil_iff.mp same.symm).1

theorem cut_single (b : UInt8) : Cut [b] := by
  intro e s same
  have lengths := congrArg List.length same
  rw [List.length_append, Element.length_bytes, List.length_singleton] at lengths
  omega

theorem cut_cons_iff {id length : UInt8} {s : List UInt8} : Cut (id :: length :: s) ↔ s.length < length.toNat := by
  constructor
  · intro cut
    by_contra whole
    have data : (s.take length.toNat).length = length.toNat :=
      List.length_take_of_le (Nat.le_of_not_lt whole)
    have short : (s.take length.toNat).length < 256 := by
      rw [data]
      exact length.toNat_lt
    have same : UInt8.ofNat (s.take length.toNat).length = length := by rw [data, UInt8.ofNat_toNat]
    exact cut ⟨id, s.take length.toNat, short⟩ (s.drop length.toNat) (by
      rw [Element.bytes, List.cons_append, List.cons_append, same, List.take_append_drop])
  · intro short e s' same
    simp only [Element.bytes, List.cons_append, List.cons.injEq] at same
    obtain ⟨-, rfl, rfl⟩ := same
    rw [List.length_append, e.lengthByte] at short
    omega

/-- A remainder is empty, half a header, or a header with less data than it says. -/
theorem Cut.cases {rest : List UInt8} (cut : Cut rest) : rest = [] ∨ (∃ b, rest = [b]) ∨
    ∃ id length s, rest = id :: length :: s ∧ s.length < length.toNat := by
  match rest, cut with
  | [], _ => exact .inl rfl
  | [b], _ => exact .inr (.inl ⟨b, rfl⟩)
  | id :: length :: s, cut => exact .inr (.inr ⟨id, length, s, rfl, cut_cons_iff.mp cut⟩)

/-- A list of elements has one remainder, and it is one list. -/
theorem framed_unique {es es' : List Element} {rest rest' : List UInt8} (cut : Cut rest) (cut' : Cut rest')
    (same : bytesOf es ++ rest = bytesOf es' ++ rest') : es = es' ∧ rest = rest' := by
  induction es generalizing es' with
  | nil =>
      cases es' with
      | nil => exact ⟨rfl, same⟩
      | cons e' es' =>
          rw [bytesOf_cons, List.append_assoc] at same
          exact absurd same (cut e' _)
  | cons e es ih =>
      rw [bytesOf_cons, List.append_assoc] at same
      cases es' with
      | nil => exact absurd same.symm (cut' e _)
      | cons e' es' =>
          rw [bytesOf_cons, List.append_assoc] at same
          obtain ⟨rfl, rest⟩ := Element.bytes_append_cancel same
          obtain ⟨rfl, rfl⟩ := ih rest
          exact ⟨rfl, rfl⟩

/-! ## The whole elements -/

/-- The element of a header and the bytes behind it. -/
def frameOf (id : UInt8) (length : Nat) (s : List UInt8) (short : (s.take length).length < 256) : Element :=
  ⟨id, s.take length, short⟩

theorem length_take_lt (length : UInt8) (s : List UInt8) : (s.take length.toNat).length < 256 :=
  Nat.lt_of_le_of_lt (List.length_take_le _ _) length.toNat_lt

def wholeLoop : Nat → List UInt8 → List Element × List UInt8
  | turns + 1, id :: length :: s =>
    if length.toNat ≤ s.length then
      let later := wholeLoop turns (s.drop length.toNat)
      (frameOf id length.toNat s (length_take_lt length s) :: later.1, later.2)
    else ([], id :: length :: s)
  | _, s => ([], s)

/-- The whole elements at the front, and what is behind them. -/
def whole (s : List UInt8) : List Element × List UInt8 := wholeLoop s.length s

theorem wholeLoop_spec (turns : Nat) (s : List UInt8) (enough : s.length ≤ turns) :
    bytesOf (wholeLoop turns s).1 ++ (wholeLoop turns s).2 = s ∧ Cut (wholeLoop turns s).2 := by
  induction turns generalizing s with
  | zero =>
      cases s with
      | nil => exact ⟨rfl, cut_nil⟩
      | cons b s => exact absurd enough (by simp)
  | succ turns ih =>
      match s with
      | [] => exact ⟨rfl, cut_nil⟩
      | [b] => exact ⟨rfl, cut_single b⟩
      | id :: length :: s =>
          rw [wholeLoop]
          split
          · rename_i there
            obtain ⟨bytes, cut⟩ := ih (s.drop length.toNat) (by
              rw [List.length_drop]
              simp only [List.length_cons] at enough
              omega)
            refine ⟨?_, cut⟩
            rw [bytesOf_cons, List.append_assoc, bytes]
            simp [frameOf, Element.bytes, there]
          · rename_i missing
            exact ⟨rfl, cut_cons_iff.mpr (Nat.lt_of_not_le missing)⟩

theorem whole_spec (s : List UInt8) : bytesOf (whole s).1 ++ (whole s).2 = s ∧ Cut (whole s).2 :=
  wholeLoop_spec s.length s (Nat.le_refl _)

theorem whole_eq_iff {s : List UInt8} {es : List Element} {rest : List UInt8} :
    whole s = (es, rest) ↔ bytesOf es ++ rest = s ∧ Cut rest := by
  obtain ⟨bytes, cut⟩ := whole_spec s
  constructor
  · intro same
    rw [same] at bytes cut
    exact ⟨bytes, cut⟩
  · rintro ⟨bytes', cut'⟩
    obtain ⟨elements, remainder⟩ := framed_unique cut cut' (bytes.trans bytes'.symm)
    exact Prod.ext elements remainder

theorem whole_of_bytesOf (es : List Element) : whole (bytesOf es) = (es, []) :=
  whole_eq_iff.mpr ⟨List.append_nil _, cut_nil⟩

/-- A byte string is a list of elements if nothing is behind the whole ones. -/
theorem eq_bytesOf_iff {s : List UInt8} : (∃ es, s = bytesOf es) ↔ (whole s).2 = [] := by
  constructor
  · rintro ⟨es, rfl⟩
    rw [whole_of_bytesOf]
  · intro none_
    refine ⟨(whole s).1, ?_⟩
    conv_lhs => rw [← (whole_spec s).1, none_, List.append_nil]

/-! ## Where elements are -/

/-- Where the first element of a kind begins, if the list begins at `at_`. -/
def placeFrom (p : Element → Bool) (at_ : Nat) : List Element → Option Nat
  | [] => none
  | e :: es => if p e then some at_ else placeFrom p (at_ + e.bytes.length) es

theorem placeFrom_ge {p : Element → Bool} {at_ o : Nat} {es : List Element} (found : placeFrom p at_ es = some o) :
    at_ ≤ o := by
  induction es generalizing at_ with
  | nil => exact absurd found (by simp [placeFrom])
  | cons e es ih =>
      rw [placeFrom] at found
      split at found
      · exact Nat.le_of_eq (Option.some.inj found)
      · exact Nat.le_trans (Nat.le_add_right _ _) (ih found)

def placeOf (p : Element → Bool) (es : List Element) : Option Nat := placeFrom p 0 es

end Vmac.Theory.Elements
