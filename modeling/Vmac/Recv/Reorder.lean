/-
# Vmac.Recv.Reorder -- the receive reorder buffer: rtw_recv.c

One station and TID.  An MPDU moves the window (`checkIndicateSeq`), is put into the
pending queue by sequence number (`enqueueReorderRecvframe`), and what is due is
handed to `recv_process_mpdu` (`recvIndicatepktsInOrder`); a timeout hands on from
the first pending MPDU.  The counters of `recv_priv` are left out: nothing here reads
them.
-/
import Mathlib.Data.Nat.Bitwise

namespace Vmac.Recv

set_option autoImplicit false

/-- What the reorder code reads of a `recv_frame`. -/
structure RecvFrame where
  /-- The descriptor. -/
  desc : Nat
  qos : Bool
  seqNum : Nat
  deriving DecidableEq, Repr

structure ReorderCtrl where
  enable : Bool
  indicateSeq : Nat
  wsizeB : Nat
  pendingRecvframeQueue : List RecvFrame
  reorderingCtrlTimer : Bool
  bReorderWaiting : Bool
  deriving DecidableEq, Repr

/-- `SN_LESS`: bit 11 of the difference, an `int`. -/
def snLess (a b : Nat) : Bool := (BitVec.ofInt 32 ((a : Int) - b)).getLsbD 11

/-- `SN_EQUAL`. -/
def snEqual (a b : Nat) : Bool := a == b

/-- `check_indicate_seq`: the window after the MPDU, and whether the MPDU is kept. -/
def checkIndicateSeq (c : ReorderCtrl) (seqNum : Nat) : ReorderCtrl × Bool :=
  let wend := (c.indicateSeq + c.wsizeB + 4095) % 4096
  let indicateSeq := if c.indicateSeq = 0xFFFF then seqNum else c.indicateSeq
  if snLess seqNum indicateSeq then ({ c with indicateSeq := indicateSeq }, false)
  else if snEqual seqNum indicateSeq then
    ({ c with indicateSeq := (indicateSeq + 1) % 4096 }, true)
  else if snLess wend seqNum then
    -- the window ends at the MPDU
    ({ c with indicateSeq :=
        if c.wsizeB ≤ seqNum + 1 then seqNum + 1 - c.wsizeB
        else 0xFFF - (c.wsizeB - (seqNum + 1)) + 1 }, true)
  else ({ c with indicateSeq := indicateSeq }, true)

/-- `enqueue_reorder_recvframe`: `none` for a duplicate. -/
def enqueueReorderRecvframe (frame : RecvFrame) : List RecvFrame → Option (List RecvFrame)
  | [] => some [frame]
  | next :: rest =>
      if snLess next.seqNum frame.seqNum then
        (enqueueReorderRecvframe frame rest).map (next :: ·)
      else if snEqual next.seqNum frame.seqNum then none
      else some (frame :: next :: rest)

/-- What a loop of `recv_indicatepkts_in_order` leaves. -/
structure Indicated where
  indicateSeq : Nat
  /-- The MPDUs given to `recv_process_mpdu`, in order. -/
  handed : List RecvFrame
  pending : List RecvFrame

/-- The loop of `recv_indicatepkts_in_order`. -/
def indicateLoop (indicateSeq : Nat) : List RecvFrame → Indicated
  | [] => ⟨indicateSeq, [], []⟩
  | frame :: rest =>
      if snLess indicateSeq frame.seqNum then ⟨indicateSeq, [], frame :: rest⟩
      else
        let next := if snEqual indicateSeq frame.seqNum then (indicateSeq + 1) % 4096 else indicateSeq
        let r := indicateLoop next rest
        { r with handed := frame :: r.handed }

/-- `recv_indicatepkts_in_order`: the MPDUs handed on, and whether MPDUs wait. -/
def recvIndicatepktsInOrder (c : ReorderCtrl) (forced : Bool) :
    ReorderCtrl × List RecvFrame × Bool :=
  match forced, c.pendingRecvframeQueue with
  | true, [] => (c, [], true)
  | _, queue =>
      let start := if forced then (queue.head?.map RecvFrame.seqNum).getD c.indicateSeq
        else c.indicateSeq
      let r := indicateLoop start queue
      ({ c with indicateSeq := r.indicateSeq, pendingRecvframeQueue := r.pending },
        r.handed, !r.pending.isEmpty)

inductive Ret where
  | success
  | fail
  | handled
  deriving DecidableEq, Repr

/-- The timer after `recv_indicatepkt_reorder`: it runs while MPDUs wait. -/
def awaitReorder (c : ReorderCtrl) (bPktInBuf : Bool) : ReorderCtrl :=
  if bPktInBuf then
    if c.bReorderWaiting then c
    else { c with bReorderWaiting := true, reorderingCtrlTimer := true }
  else { c with bReorderWaiting := false, reorderingCtrlTimer := false }

/-- `recv_indicatepkt_reorder`. -/
def recvIndicatepktReorder (c : ReorderCtrl) (frame : RecvFrame) :
    ReorderCtrl × List RecvFrame × Ret :=
  if !frame.qos || !c.enable then (c, [], .success)
  else
    match checkIndicateSeq c frame.seqNum with
    | (c, false) => (c, [], .fail)
    | (c, true) =>
        match enqueueReorderRecvframe frame c.pendingRecvframeQueue with
        | none => (c, [], .fail)
        | some queue =>
            let r := recvIndicatepktsInOrder { c with pendingRecvframeQueue := queue } false
            (awaitReorder r.1 r.2.2, r.2.1, .handled)

/-- `rtw_reordering_ctrl_timeout_handler`, when the timer has expired. -/
def rtwReorderingCtrlTimeoutHandler (cannotRun : Bool) (c : ReorderCtrl) :
    ReorderCtrl × List RecvFrame :=
  let c := { c with reorderingCtrlTimer := false }
  if cannotRun then (c, [])
  else
    let r := recvIndicatepktsInOrder { c with bReorderWaiting := false } true
    (if r.2.2 then { r.1 with reorderingCtrlTimer := true } else r.1, r.2.1)

end Vmac.Recv
