/-
# Vmac.Core.Retransmit -- answering a DACK: the DACK branch of `vmac_rx`

The producer walks the holes of a DACK and sends again each frame of `[le, re)`
that is below its sequence counter, not paced (`timer`) and not older than the
retransmission buffer.  Three habits of the loop matter later:

* a slot is tested at `le > WINDOW_TX ? le % WINDOW_TX : le` and copied from
  `le >= WINDOW_TX ? le % WINDOW_TX : le`: for frame 500 the test reads past the
  buffer, into the first eight pacing timers (`slotTest`);
* `skb2` keeps its value when a slot is empty, so the frame sent last is sent again;
* `break` at the twentieth copy leaves the inner loop only.

The branch drops its receiver entry (`vmacr = NULL`) before it would use it, so
the part on heard DACKs has no behaviour and is not modelled.
-/
import Vmac.Core.LowTx

namespace Vmac.Core

open Theory.Bytes

set_option autoImplicit false
set_option linter.unusedVariables false

/-! ## The code -/

/-- `maxretx`: copies one DACK can cause. -/
def maxretx : Nat := 20

/-- `le >= WINDOW_TX ? le % WINDOW_TX : le`. -/
def slotIndex (le : Nat) : Nat := if le ≥ windowTx then le % windowTx else le

namespace EncodingTx

/-- Whether `retransmission_buffer[le > WINDOW_TX ? le % WINDOW_TX : le]` is a pointer. -/
def slotTest (t : EncodingTx) (le : Nat) : Bool :=
  if le = windowTx then
    -- index 500 is the word behind the buffer: `timer[0]` to `timer[7]`
    (List.range 8).any fun k => t.timer k ≠ 0
  else (t.retransmissionBuffer (if le > windowTx then le % windowTx else le)).isSome

def setTimer (t : EncodingTx) (le round : Nat) : EncodingTx :=
  { t with timer := Function.update t.timer (le % windowTx) ((round + 6) % 256) }

/-- The frame is sendable for this round: not paced, and not older than the buffer. -/
def answers (t : EncodingTx) (seq round le : Nat) : Bool :=
  decide (t.timer (slotIndex le) ≤ round ∧ (if seq < windowTx then 0 else seq - windowTx) ≤ le)

end EncodingTx

/-- The variables of the branch. `sends` counts the calls of `vmac_send_hack`. -/
structure DackLoop where
  vmact : EncodingTx
  counter : Nat
  skb2 : Option Skb
  sends : Nat
  outs : List Out

namespace DackLoop

variable (env : Env)

/-- `skb2 = skb_copy(..)` and `counter++`, if the slot test passes. -/
def copySlot (le : Nat) (s : DackLoop) : DackLoop :=
  if s.vmact.slotTest le then
    match s.vmact.retransmissionBuffer (slotIndex le) with
    | some held =>
        if env.copyOk s.counter then
          { s with
            counter := s.counter + 1
            skb2 := some ⟨env.base + s.counter, held.data⟩
            outs := s.outs ++ [.alloc (env.base + s.counter)] }
        else { s with counter := s.counter + 1, skb2 := none }
    -- `skb_copy(NULL)`
    | none => { s with counter := s.counter + 1, skb2 := none, outs := s.outs ++ [.oops] }
  else s

/-- `if (skb2)`: send it; the buffer now starts with the 802.11 header. -/
def sendCopy (s : DackLoop) : DackLoop :=
  match s.skb2 with
  | some skb =>
      { s with
        vmact := { s.vmact with framecount := (s.vmact.framecount + 1) % 65536 }
        skb2 := some (skb.push (ieee80211Hdr (env.junk s.sends)))
        sends := s.sends + 1
        outs := s.outs ++ vmacSendHack env s.sends (some skb) }
  | none => s

/-- The inner loop body for a frame that is to be answered. -/
def answer (round le : Nat) (s : DackLoop) : DackLoop :=
  let s := s.copySlot env le
  sendCopy env { s with vmact := s.vmact.setTimer le round }

/-- At most `n` turns of the inner loop from `le`. -/
def holeLoop (seq round re : Nat) : Nat → Nat → DackLoop → DackLoop
  | 0, _, s => s
  | n + 1, le, s =>
      if le < re ∧ le < seq then
        if s.vmact.answers seq round le then
          if maxretx ≤ s.counter then s
          else holeLoop seq round re n (le + 1) (s.answer env round le)
        else holeLoop seq round re n (le + 1) s
      else s

/-- The outer loop. -/
def holesLoop (seq round : Nat) (holes : List VmacHole) (s : DackLoop) : DackLoop :=
  holes.foldl (fun s hole => s.holeLoop env seq round hole.re (hole.re - hole.le) hole.le) s

end DackLoop

/-- The variables before the loops; `dackcounter++` is done. -/
def DackLoop.start (t : EncodingTx) : DackLoop :=
  ⟨{ t with dackcounter := (t.dackcounter + 1) % 65536 }, 0, none, 0, []⟩

/-- The DACK branch on the entry that `find_tx` returns; `data` starts at the DACK header. -/
def answerDack (env : Env) (t : EncodingTx) (data : List UInt8) : DackLoop :=
  let ddr := readDack env.past data
  DackLoop.holesLoop env t.seq ddr.round ddr.holes (.start t)

/-! ## What the branch leaves alone -/

theorem slotIndex_eq (le : Nat) : slotIndex le = le % windowTx := by
  unfold slotIndex
  split
  · rfl
  · exact (Nat.mod_eq_of_lt (by omega)).symm

theorem slotIndex_lt (le : Nat) : slotIndex le < windowTx := by
  rw [slotIndex_eq]
  exact Nat.mod_lt _ (by decide)

/-- The branch writes only pacing timers and the two counters of its entry. -/
structure EncodingTx.SameFrames (t t' : EncodingTx) : Prop where
  key : t'.key = t.key
  clean : t'.clean = t.clean
  retransmissionBuffer : t'.retransmissionBuffer = t.retransmissionBuffer
  seq : t'.seq = t.seq
  encTimeout : t'.encTimeout = t.encTimeout

namespace EncodingTx.SameFrames

theorem refl (t : EncodingTx) : t.SameFrames t := ⟨rfl, rfl, rfl, rfl, rfl⟩

theorem trans {a b c : EncodingTx} (ab : a.SameFrames b) (bc : b.SameFrames c) :
    a.SameFrames c :=
  ⟨bc.key.trans ab.key, bc.clean.trans ab.clean,
    bc.retransmissionBuffer.trans ab.retransmissionBuffer, bc.seq.trans ab.seq,
    bc.encTimeout.trans ab.encTimeout⟩

end EncodingTx.SameFrames

namespace DackLoop

variable (env : Env)

theorem copySlot_vmact (le : Nat) (s : DackLoop) : (s.copySlot env le).vmact = s.vmact := by
  unfold copySlot
  split
  · split
    · split <;> rfl
    · rfl
  · rfl

theorem sendCopy_sameFrames (s : DackLoop) : s.vmact.SameFrames (s.sendCopy env).vmact := by
  unfold sendCopy
  split
  · exact ⟨rfl, rfl, rfl, rfl, rfl⟩
  · exact .refl _

theorem answer_sameFrames (round le : Nat) (s : DackLoop) :
    s.vmact.SameFrames (s.answer env round le).vmact := by
  have timer : s.vmact.SameFrames ((s.copySlot env le).vmact.setTimer le round) := by
    rw [copySlot_vmact]
    exact ⟨rfl, rfl, rfl, rfl, rfl⟩
  exact timer.trans
    (sendCopy_sameFrames env { s.copySlot env le with
      vmact := (s.copySlot env le).vmact.setTimer le round })

theorem holeLoop_sameFrames (seq round re n le : Nat) (s : DackLoop) :
    s.vmact.SameFrames (s.holeLoop env seq round re n le).vmact := by
  induction n generalizing le s with
  | zero => exact .refl _
  | succ n ih =>
      unfold holeLoop
      split
      · split
        · split
          · exact .refl _
          · exact (answer_sameFrames env round le s).trans (ih ..)
        · exact ih ..
      · exact .refl _

theorem holesLoop_sameFrames (seq round : Nat) (holes : List VmacHole) (s : DackLoop) :
    s.vmact.SameFrames (s.holesLoop env seq round holes).vmact := by
  induction holes generalizing s with
  | nil => exact .refl _
  | cons hole holes ih => exact (holeLoop_sameFrames env _ _ _ _ _ s).trans (ih _)

end DackLoop

theorem answerDack_sameFrames (env : Env) (t : EncodingTx) (data : List UInt8) :
    t.SameFrames (answerDack env t data).vmact := by
  have counted : t.SameFrames (DackLoop.start t).vmact := ⟨rfl, rfl, rfl, rfl, rfl⟩
  exact counted.trans (DackLoop.holesLoop_sameFrames env _ _ _ (.start t))

end Vmac.Core
