/-
# Vmac.Theory.Layout -- fields laid one after another, each at its alignment

A field of kind `i` takes `(kind i).size` bytes from the next place `(kind i).align` divides.
`place` says where a list of fields lies, `scan` what a reader with a bound sees of it.  A writer
pads by hand: `Fits` says that its padding is what the alignments ask for.
-/
import Vmac.Theory.Bytes

namespace Vmac.Theory.Layout

open Theory.Bytes

set_option autoImplicit false

structure Kind where
  align : Nat
  size : Nat

/-- The first place from `at_` on that `align` divides. -/
def alignUp (align at_ : Nat) : Nat := if at_ % align = 0 then at_ else at_ + (align - at_ % align)

theorem le_alignUp (align at_ : Nat) : at_ ≤ alignUp align at_ := by
  unfold alignUp
  split <;> omega

theorem alignUp_of_dvd {align at_ : Nat} (aligned : at_ % align = 0) : alignUp align at_ = at_ := if_pos aligned

theorem alignUp_one (at_ : Nat) : alignUp 1 at_ = at_ := alignUp_of_dvd (Nat.mod_one at_)

theorem alignUp_two (at_ : Nat) : alignUp 2 at_ = at_ + at_ % 2 := by
  rw [alignUp]
  split <;> omega

section Reader

variable {ι : Type} (kind : ι → Kind)

/-- Where each of the fields begins. -/
def place : Nat → List ι → List (ι × Nat)
  | _, [] => []
  | at_, i :: is =>
    (i, alignUp (kind i).align at_) :: place (alignUp (kind i).align at_ + (kind i).size) is

/-- Where the last field ends. -/
def stop : Nat → List ι → Nat
  | at_, [] => at_
  | at_, i :: is => stop (alignUp (kind i).align at_ + (kind i).size) is

/-- The fields up to the first that ends behind `bound`, and whether that is all of them. -/
def scan (bound : Nat) : Nat → List ι → List (ι × Nat) × Bool
  | _, [] => ([], true)
  | at_, i :: is =>
    let start := alignUp (kind i).align at_
    if bound < start + (kind i).size then ([], false)
    else ((i, start) :: (scan bound (start + (kind i).size) is).1, (scan bound (start + (kind i).size) is).2)

variable {kind}

theorem le_stop (is : List ι) (at_ : Nat) : at_ ≤ stop kind at_ is := by
  induction is generalizing at_ with
  | nil => exact Nat.le_refl _
  | cons i is ih =>
    have here := le_alignUp (kind i).align at_
    have there := ih (alignUp (kind i).align at_ + (kind i).size)
    rw [stop]
    omega

@[simp] theorem place_map_fst (is : List ι) (at_ : Nat) : (place kind at_ is).map Prod.fst = is := by
  induction is generalizing at_ with
  | nil => rfl
  | cons i is ih => simp [place, ih]

theorem place_getLast (is : List ι) (at_ : Nat) (nonempty : is ≠ []) :
    (place kind at_ is).getLast?.map (fun v => v.2 + (kind v.1).size) = some (stop kind at_ is) := by
  induction is generalizing at_ with
  | nil => exact absurd rfl nonempty
  | cons i is ih =>
    cases is with
    | nil => simp [place, stop]
    | cons j is =>
      have rest := ih (alignUp (kind i).align at_ + (kind i).size) (List.cons_ne_nil _ _)
      rw [place, place, List.getLast?_cons_cons, ← place, stop]
      exact rest

/-- A reader whose bound the fields keep sees them all, -/
theorem scan_of_stop_le {bound : Nat} (is : List ι) (at_ : Nat) (fits : stop kind at_ is ≤ bound) :
    scan kind bound at_ is = (place kind at_ is, true) := by
  induction is generalizing at_ with
  | nil => rfl
  | cons i is ih =>
    have inside := @le_stop _ kind is (alignUp (kind i).align at_ + (kind i).size)
    rw [stop] at fits
    rw [scan, if_neg (by omega), ih _ fits, place]

/-- and otherwise it stops short. -/
theorem scan_of_lt_stop {bound : Nat} (is : List ι) (at_ : Nat) (start : at_ ≤ bound) (beyond : bound < stop kind at_ is) :
    (scan kind bound at_ is).2 = false := by
  induction is generalizing at_ with
  | nil => exact absurd beyond (by simpa [stop] using start)
  | cons i is ih =>
    simp only [scan]
    split
    · rfl
    · exact ih _ (by omega) beyond

theorem scan_append {bound : Nat} (is js : List ι) (at_ : Nat) :
    scan kind bound at_ (is ++ js) =
      if (scan kind bound at_ is).2 then
        ((scan kind bound at_ is).1 ++ (scan kind bound (stop kind at_ is) js).1,
          (scan kind bound (stop kind at_ is) js).2)
      else scan kind bound at_ is := by
  induction is generalizing at_ with
  | nil => simp [scan, stop]
  | cons i is ih =>
    by_cases beyond : bound < alignUp (kind i).align at_ + (kind i).size
    · simp [scan, beyond]
    · simp only [List.cons_append, scan, beyond, if_false, ih, stop]
      split <;> rfl

end Reader

section Writer

variable {ι : Type}

/-- A field as a writer puts it down. -/
structure Piece (ι : Type) where
  pad : List UInt8
  field : ι
  bytes : List UInt8

def Piece.all (p : Piece ι) : List UInt8 := p.pad ++ p.bytes

def written (ps : List (Piece ι)) : List UInt8 := ps.flatMap Piece.all

@[simp] theorem written_nil : written ([] : List (Piece ι)) = [] := rfl

@[simp] theorem written_cons (p : Piece ι) (ps : List (Piece ι)) : written (p :: ps) = p.all ++ written ps := rfl

@[simp] theorem written_append (ps qs : List (Piece ι)) : written (ps ++ qs) = written ps ++ written qs :=
  List.flatMap_append

variable (kind : ι → Kind)

/-- The padding ends where the field may begin, and the field has its size. -/
def Fits : Nat → List (Piece ι) → Prop
  | _, [] => True
  | at_, p :: ps =>
    at_ + p.pad.length = alignUp (kind p.field).align at_ ∧ p.bytes.length = (kind p.field).size ∧
      Fits (at_ + p.all.length) ps

variable {kind}

theorem Fits.append {ps qs : List (Piece ι)} {at_ : Nat} (first : Fits kind at_ ps)
    (second : Fits kind (at_ + (written ps).length) qs) : Fits kind at_ (ps ++ qs) := by
  induction ps generalizing at_ with
  | nil => simpa using second
  | cons p ps ih =>
    obtain ⟨padded, sized, rest⟩ := first
    refine ⟨padded, sized, ih rest ?_⟩
    rwa [written_cons, List.length_append, ← Nat.add_assoc] at second

theorem fits_of_align_one {ps : List (Piece ι)} (at_ : Nat)
    (plain : ∀ p ∈ ps, p.pad = [] ∧ (kind p.field).align = 1 ∧ p.bytes.length = (kind p.field).size) :
    Fits kind at_ ps := by
  induction ps generalizing at_ with
  | nil => trivial
  | cons p ps ih =>
    obtain ⟨pad, one, sized⟩ := plain p (List.mem_cons_self ..)
    refine ⟨?_, sized, ih _ fun q inside => plain q (List.mem_cons_of_mem _ inside)⟩
    rw [pad, one, alignUp_one]
    rfl

theorem Fits.stop_eq {ps : List (Piece ι)} {at_ : Nat} (fits : Fits kind at_ ps) :
    stop kind at_ (ps.map Piece.field) = at_ + (written ps).length := by
  induction ps generalizing at_ with
  | nil => rfl
  | cons p ps ih =>
    obtain ⟨padded, sized, rest⟩ := fits
    have here : alignUp (kind p.field).align at_ + (kind p.field).size = at_ + p.all.length := by
      rw [Piece.all, List.length_append, ← padded, ← sized, Nat.add_assoc]
    rw [List.map_cons, stop, here, ih rest, written_cons, List.length_append, Nat.add_assoc]

/-- Behind what precedes them, the fields are read as they were written. -/
theorem Fits.read {ps : List (Piece ι)} {at_ : Nat} (fits : Fits kind at_ ps) (past : Nat → UInt8)
    {pre post data : List UInt8} (split : data = pre ++ written ps ++ post) (offset : pre.length = at_) :
    (place kind at_ (ps.map Piece.field)).map
        (fun v => (v.1, (List.range (kind v.1).size).map fun k => byteAt past data (v.2 + k))) =
      ps.map fun p => (p.field, p.bytes) := by
  induction ps generalizing at_ pre with
  | nil => rfl
  | cons p ps ih =>
    obtain ⟨padded, sized, rest⟩ := fits
    have here : alignUp (kind p.field).align at_ + (kind p.field).size = at_ + p.all.length := by
      rw [Piece.all, List.length_append, ← padded, ← sized, Nat.add_assoc]
    have there := @ih _ rest (pre ++ p.all) (by simp [split, List.append_assoc])
      (by rw [List.length_append, offset])
    have parts : data = (pre ++ p.pad) ++ p.bytes ++ (written ps ++ post) := by
      simp [split, Piece.all, List.append_assoc]
    have bytes := map_byteAt_append past (pre ++ p.pad) p.bytes (written ps ++ post)
    rw [← parts, List.length_append, offset, padded, sized] at bytes
    rw [List.map_cons, place, List.map_cons, List.map_cons, here, there]
    exact congrArg (fun bs => (p.field, bs) :: _) bytes

end Writer

end Vmac.Theory.Layout
