/-
# Vmac.Core.Window -- the receive window: the DATA branch of `vmac_rx`

A data frame moves `latest` forward, clearing the slots it passes, or is compared
with its slot and dropped as a duplicate when the slot holds 1.  Then its slot is
set to 1 -- if its number is at least `latest % WINDOW`.

That last test is meant to keep the window (its comment says "within window"), but
it compares with `latest % WINDOW`, not with `latest - WINDOW`: a straggler from
below the window can pass it and mark the slot of another frame.  `receive_cases`
lists what a frame can do to the ring of marks.
-/
import Vmac.Core.Encoding
import Vmac.Theory.Ring

namespace Vmac.Core

open Theory.Ring

set_option autoImplicit false
set_option linter.unusedVariables false

/-! ## The code -/

/-- `seq >= WINDOW ? seq % WINDOW : seq`. -/
def windowIndex (seq : Nat) : Nat := if seq ≥ windowSize then seq % windowSize else seq

namespace EncodingRx

/-- `n` turns of `while (vmacr->latest < vdr->seq)`. -/
def followLatest : Nat → EncodingRx → EncodingRx
  | 0, e => e
  | n + 1, e =>
      followLatest n { e with
        latest := e.latest + 1
        window := Function.update e.window (windowIndex (e.latest + 1)) 0 }

/-- Set the slot of `seq` if `seq` passes the test against `latest % WINDOW`. -/
def markReceived (e : EncodingRx) (seq : Nat) : EncodingRx :=
  { e with window :=
      if seq ≥ (if e.latest ≥ windowSize then e.latest % windowSize else 0) then
        Function.update e.window (windowIndex seq) 1
      else e.window }

/-- The window part of the DATA branch; `none` when the frame is dropped as a duplicate. -/
def receive (e : EncodingRx) (seq : Nat) : Option EncodingRx :=
  if e.latest < seq then some ((followLatest (seq - e.latest) e).markReceived seq)
  else if e.window (windowIndex seq) = 1 then none
  else some (e.markReceived seq)

/-- `(jiffies - firstFrame) / (vdr->seq - lastin)` as a `u32`: the divisor is an
`int` made `unsigned long`. -/
def frameGap (e : EncodingRx) (seq jiffies : Nat) : Nat :=
  ((UInt64.ofNat jiffies - UInt64.ofNat e.firstFrame) /
    (UInt64.ofNat seq - UInt64.ofNat e.lastin)).toUInt32.toNat

/-- Record the first or the second arrival, and `alpha` from both. -/
def timeFrame (e : EncodingRx) (seq jiffies : Nat) : EncodingRx :=
  if e.firstFrame = 0 then { e with firstFrame := jiffies % 2 ^ 32 }
  else if e.secondFrame = 0 then
    { e with secondFrame := jiffies % 2 ^ 32, alpha := e.frameGap seq jiffies, firstFrame := 0 }
  else e

/-- The second arrival divides by `vdr->seq - lastin`, which is zero: the kernel traps. -/
def timeTraps (e : EncodingRx) (seq : Nat) : Bool :=
  decide (e.firstFrame ≠ 0 ∧ e.secondFrame = 0 ∧ seq = e.lastin)

/-- `vmacr->round <= vdr->seq - 5`, on `int`s: this frame requests a DACK. -/
def dackDue (e : EncodingRx) (seq : Nat) : Bool := decide (e.round + 5 ≤ seq)

end EncodingRx

/-! ## The window as a ring -/

theorem windowIndex_eq (seq : Nat) : windowIndex seq = seq % windowSize := by
  unfold windowIndex
  split
  · rfl
  · exact (Nat.mod_eq_of_lt (by omega)).symm

theorem windowSize_pos : 0 < windowSize := by decide

namespace EncodingRx

/-- The ring of marks of an entry. -/
def marks (e : EncodingRx) : Marks Nat := ⟨e.latest, e.window⟩

@[simp] theorem marks_latest (e : EncodingRx) : e.marks.latest = e.latest := rfl
@[simp] theorem marks_slot (e : EncodingRx) : e.marks.slot = e.window := rfl

theorem followLatest_marks (n : Nat) (e : EncodingRx) :
    (followLatest n e).marks = slide windowSize 0 n e.marks := by
  induction n generalizing e with
  | zero => rfl
  | succ n ih => rw [followLatest, ih, slide, marks, windowIndex_eq]; rfl

@[simp] theorem followLatest_latest (n : Nat) (e : EncodingRx) :
    (followLatest n e).latest = e.latest + n := by
  rw [← marks_latest, followLatest_marks, slide_latest]; rfl

@[simp] theorem markReceived_latest (e : EncodingRx) (seq : Nat) :
    (e.markReceived seq).latest = e.latest := rfl

@[simp] theorem timeFrame_marks (e : EncodingRx) (seq jiffies : Nat) :
    (e.timeFrame seq jiffies).marks = e.marks := by
  unfold timeFrame; split
  · rfl
  · split <;> rfl

/-- A number of the window passes the test of `markReceived`. -/
theorem markReceived_inWindow {e : EncodingRx} {seq : Nat}
    (inside : InWindow windowSize e.latest seq) :
    (e.markReceived seq).marks = setMark windowSize 1 e.marks seq := by
  obtain ⟨below, near⟩ := inside
  have passes : seq ≥ (if e.latest ≥ windowSize then e.latest % windowSize else 0) := by
    have split := Nat.div_add_mod e.latest windowSize
    have small := Nat.mod_lt e.latest windowSize_pos
    split
    · have block : windowSize * 1 ≤ windowSize * (e.latest / windowSize) :=
        Nat.mul_le_mul_left _ (Nat.div_pos ‹_› windowSize_pos)
      omega
    · omega
  rw [markReceived, if_pos passes, marks, windowIndex_eq]
  rfl

/-- What the window part does with a frame: a new latest, a duplicate, a frame of
the window, a refused straggler, or a straggler that is marked. -/
theorem receive_cases (e : EncodingRx) (seq : Nat) :
    (e.latest < seq ∧ ∃ e', e.receive seq = some e' ∧
      e'.marks = setMark windowSize 1 (slide windowSize 0 (seq - e.latest) e.marks) seq) ∨
    (seq ≤ e.latest ∧ e.window (seq % windowSize) = 1 ∧ e.receive seq = none) ∨
    (InWindow windowSize e.latest seq ∧ e.window (seq % windowSize) ≠ 1 ∧ ∃ e',
      e.receive seq = some e' ∧ e'.marks = setMark windowSize 1 e.marks seq) ∨
    (seq + windowSize ≤ e.latest ∧ seq < e.latest % windowSize ∧
      e.window (seq % windowSize) ≠ 1 ∧ e.receive seq = some e) ∨
    (seq + windowSize ≤ e.latest ∧ e.latest % windowSize ≤ seq ∧
      e.window (seq % windowSize) ≠ 1 ∧ ∃ e', e.receive seq = some e' ∧
        e'.marks = setMark windowSize 1 e.marks seq) := by
  by_cases fresh : e.latest < seq
  · left
    refine ⟨fresh, _, by rw [receive, if_pos fresh], ?_⟩
    have top : InWindow windowSize (followLatest (seq - e.latest) e).latest seq := by
      rw [followLatest_latest]
      have := windowSize_pos
      exact ⟨by omega, by omega⟩
    rw [markReceived_inWindow top, followLatest_marks]
  · right
    by_cases dup : e.window (seq % windowSize) = 1
    · left
      exact ⟨by omega, dup, by rw [receive, if_neg fresh, windowIndex_eq, if_pos dup]⟩
    · right
      have got : e.receive seq = some (e.markReceived seq) := by
        rw [receive, if_neg fresh, windowIndex_eq, if_neg dup]
      by_cases near : e.latest < seq + windowSize
      · left
        exact ⟨⟨by omega, near⟩, dup, _, got, markReceived_inWindow ⟨by omega, near⟩⟩
      · right
        have wrapped : e.latest ≥ windowSize := by omega
        by_cases low : seq < e.latest % windowSize
        · left
          refine ⟨by omega, low, dup, ?_⟩
          rw [got, markReceived, if_pos wrapped, if_neg (by omega)]
        · right
          refine ⟨by omega, by omega, dup, _, got, ?_⟩
          rw [markReceived, if_pos wrapped, if_pos (by omega), marks, windowIndex_eq]
          rfl

end EncodingRx

end Vmac.Core
