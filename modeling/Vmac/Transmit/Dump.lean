/-
# Vmac.Transmit.Dump -- the fragments of a frame to USB: rtl8812au_xmit.c, usb_ops_linux.c

`rtw_dump_xframe` hands the fragments of a frame, which are all in one transmit buffer, to
`usb_write_port`, which has one URB for the buffer.  Completion runs at any time, also between two
fragments; it and a failed submission both return the buffer to its pool.  Other frames take
buffers from the pools and return them meanwhile.

* `returned_length`: the buffer is returned once for every fragment.
* `submitted_eq`: where the submitted bytes are the fragments'.
* `whole_once_iff`: which frames are sent whole and once.
* `two_fragments_returned_twice`: a run with two fragments.
-/
import Vmac.Theory.Placement
import Vmac.Theory.Run
import Vmac.Transmit.Coalesce

namespace Vmac.Transmit

open Theory.Placement Theory.Run

set_option autoImplicit false

/-! ## Data -/

/-- `buf_tag`. -/
inductive XmitbufTag
  | data | mgnt | cmd
  deriving DecidableEq

inductive UsbSpeed
  | superSpeed | highSpeed | fullSpeed
  deriving DecidableEq

/-- The frame, its buffer and the adapter, as `rtw_dump_xframe` and `update_txdesc` read them. -/
structure DumpFrame where
  nrFrags : Nat
  /-- `pxmitframe->buf_addr`. -/
  bufAddr : Nat
  fragLen : Int
  swEncrypt : Bool
  icvLen : Int
  lastTxcmdsz : Int
  mpMode : Bool
  speed : UsbSpeed
  /-- `rtw_get_ff_hwaddr`. -/
  ffHwaddr : Nat
  pxmitbuf : Nat
  /-- The tags of all buffers. -/
  bufTag : Nat → XmitbufTag

def bcnQueueInx : Nat := 4

/-- `USB_SUPER_SPEED_BULK_SIZE` and its siblings. -/
def UsbSpeed.bulkSize : UsbSpeed → Int
  | superSpeed => 1024
  | highSpeed => 512
  | fullSpeed => 64

namespace DumpFrame

variable (x : DumpFrame)

/-- `sz` of fragment `t`. -/
def sz (t : Nat) : Int :=
  if t ≠ x.nrFrags - 1 then x.fragLen - 4 - (if x.swEncrypt = true then 0 else x.icvLen) else x.lastTxcmdsz

/-- The result of `update_txdesc`: the descriptor is pulled unless the transfer ends at a bulk size boundary. -/
def pull (t : Nat) : Bool := !x.mpMode && decide ((txdescSize + x.sz t) % x.speed.bulkSize ≠ 0)

/-- `w_sz`. -/
def wSz (t : Nat) : Int := if x.pull t = true then x.sz t + txdescSize else x.sz t + txdescSize + packetOffsetSz

/-- `mem_addr` where the descriptor of fragment `t` begins. -/
def pulled (t memAddr : Nat) : Nat := if x.pull t = true then memAddr + packetOffsetSz else memAddr

/-- `mem_addr` behind fragment `t`. -/
def behind (t memAddr : Nat) : Nat := rnd4 ((x.pulled t memAddr : Int) + x.wSz t).toNat

/-- The beacon queue at full speed is written by `upload_txpktbuf_8812au`. -/
def uploads : Bool := decide (x.speed = .fullSpeed ∧ x.ffHwaddr = bcnQueueInx)

end DumpFrame

/-- The loop of `rtw_dump_xframe` and the URB. -/
structure DumpWalk where
  t : Nat
  memAddr : Nat
  /-- `pxmitframe->buf_addr`. -/
  bufAddr : Nat
  /-- The URB of the buffer is with the host controller. -/
  inFlight : Bool
  /-- Address and length of what was given to `usb_submit_urb` or uploaded. -/
  submitted : List (Nat × Int)
  /-- The fragments done and whether the URB was in flight, at each return of the buffer. -/
  returned : List (Nat × Bool)

structure XmitPools where
  /-- `free_xmitbuf_queue` and `free_xmit_extbuf_queue`. -/
  queues : Queues XmitbufTag Nat
  cnt : XmitbufTag → Int
  /-- The buffers that other frames have. -/
  others : List Nat

structure DumpState extends DumpWalk, XmitPools

/-! ## The steps -/

namespace XmitPools

/-- `rtw_free_xmitbuf`. -/
def freeXmitbuf (x : DumpFrame) (b : Nat) (s : XmitPools) : XmitPools :=
  if x.bufTag b = .cmd then s
  else
    { s with
      queues := append (x.bufTag b) b (unlink b s.queues)
      cnt := Function.update s.cnt (x.bufTag b) (s.cnt (x.bufTag b) + 1) }

/-- `rtw_alloc_xmitbuf` and `rtw_alloc_xmitbuf_ext` for another frame. -/
def alloc (tag : XmitbufTag) (s : XmitPools) : XmitPools :=
  match s.queues tag with
  | [] => s
  | b :: _ =>
      { s with
        queues := unlink b s.queues
        cnt := Function.update s.cnt tag (s.cnt tag - 1)
        others := b :: s.others }

/-- Another frame returns a buffer. -/
def free (x : DumpFrame) (b : Nat) (s : XmitPools) : XmitPools :=
  if x.bufTag b = .cmd then s else { s with others := s.others.erase b }.freeXmitbuf x b

end XmitPools

namespace DumpState

/-- The frame's buffer is returned when `done` fragments are done. -/
def giveBack (x : DumpFrame) (done : Nat) (s : DumpState) : DumpState :=
  { s with
    returned := s.returned ++ [(done, s.inFlight)]
    toXmitPools := s.toXmitPools.freeXmitbuf x x.pxmitbuf }

/-- `usb_write_port` for fragment `t`: `cannotTx` is `RTW_CANNOT_TX`, and `accepts` says that `usb_submit_urb` does not
fail.  An URB in flight is refused. -/
def usbWritePort (x : DumpFrame) (cannotTx accepts : Nat → Bool) (s : DumpState) : DumpState :=
  if cannotTx s.t = true then s.giveBack x (s.t + 1)
  else
    let s := { s with submitted := s.submitted ++ [(s.bufAddr, x.wSz s.t)] }
    if s.inFlight = false ∧ accepts s.t = true then { s with inFlight := true } else s.giveBack x (s.t + 1)

/-- One round of `rtw_dump_xframe`. -/
def fragment (x : DumpFrame) (cannotTx accepts : Nat → Bool) (s : DumpState) : DumpState :=
  let memAddr := x.pulled s.t s.memAddr
  let s := { s with bufAddr := if x.pull s.t = true then memAddr else s.bufAddr }
  let after :=
    if x.uploads = true then
      { s with submitted := s.submitted ++ [(memAddr, x.wSz s.t)] }.giveBack x (s.t + 1)
    else s.usbWritePort x cannotTx accepts
  { after with t := s.t + 1, memAddr := x.behind s.t s.memAddr }

/-- `usb_write_port_complete`. -/
def complete (x : DumpFrame) (s : DumpState) : DumpState := { s with inFlight := false }.giveBack x s.t

end DumpState

inductive DumpOp
  | fragment
  | complete
  | alloc (tag : XmitbufTag)
  | free (b : Nat)

section Runs

variable (x : DumpFrame) (cannotTx accepts : Nat → Bool)

def DumpOp.apply (s : DumpState) : DumpOp → DumpState
  | fragment => s.fragment x cannotTx accepts
  | complete => s.complete x
  | alloc tag => { s with toXmitPools := s.toXmitPools.alloc tag }
  | free b => { s with toXmitPools := s.toXmitPools.free x b }

def DumpOp.allowed (s : DumpState) : DumpOp → Prop
  | fragment => s.t < x.nrFrags
  | complete => s.inFlight = true
  | alloc _ => True
  | free b => b ∈ s.others

/-- The call of `rtw_dump_xframe`. -/
def DumpFrame.start (queues : Queues XmitbufTag Nat) (cnt : XmitbufTag → Int) (others : List Nat) : DumpState :=
  { t := 0, memAddr := x.bufAddr, bufAddr := x.bufAddr, inFlight := false, submitted := [], returned := []
    queues := queues, cnt := cnt, others := others }

/-- The loop has ended and no URB is out. -/
def DumpState.Finished (s : DumpState) : Prop := s.t = x.nrFrags ∧ s.inFlight = false

/-- `mem_addr` when the loop comes to fragment `t`. -/
def DumpFrame.place : Nat → Nat
  | 0 => x.bufAddr
  | t + 1 => x.behind t (place t)

/-- Descriptor and MPDU of fragment `t`: address and length. -/
def DumpFrame.frag (t : Nat) : Nat × Int := (x.pulled t (x.place t), x.wSz t)

/-- Fragment `t` gets as far as a submission. -/
def sends (t : Nat) : Bool := x.uploads || !cannotTx t

/-- Every fragment is submitted once, the buffer is returned once, behind all of them, and the counters are right. -/
structure WholeOnce (s : DumpState) : Prop where
  whole : s.submitted = (List.range x.nrFrags).map x.frag
  once : s.returned = [(x.nrFrags, false)]
  counted : ∀ tag, s.cnt tag = (s.queues tag).length

end Runs

/-! ## The loop -/

section Walk

variable {x : DumpFrame} {cannotTx accepts : Nat → Bool} {s : DumpState}

/-- What a round does: the fragment is submitted from `buf_addr` or uploaded from its own place, unless `usb_write_port`
refuses, and then the URB is in flight or the buffer is returned. -/
theorem fragment_walk (x : DumpFrame) (cannotTx accepts : Nat → Bool) (s : DumpState) :
    ∃ w : DumpWalk, (s.fragment x cannotTx accepts).toDumpWalk = w ∧ w.t = s.t + 1 ∧ w.memAddr = x.behind s.t s.memAddr ∧
      w.bufAddr = (if x.pull s.t = true then x.pulled s.t s.memAddr else s.bufAddr) ∧
      w.submitted = s.submitted ++
        (if sends x cannotTx s.t = true then
          [(if x.uploads = true then x.pulled s.t s.memAddr else w.bufAddr, x.wSz s.t)] else []) ∧
      ((w.inFlight = true ∧ s.inFlight = false ∧ w.returned = s.returned ∧
          (s.fragment x cannotTx accepts).toXmitPools = s.toXmitPools) ∨
        (w.inFlight = s.inFlight ∧ w.returned = s.returned ++ [(s.t + 1, s.inFlight)] ∧
          (s.fragment x cannotTx accepts).toXmitPools = s.toXmitPools.freeXmitbuf x x.pxmitbuf)) := by
  refine ⟨_, rfl, ?_⟩
  by_cases up : x.uploads = true
  · simp [DumpState.fragment, DumpState.giveBack, sends, up]
  · by_cases denied : cannotTx s.t = true
    · simp [DumpState.fragment, DumpState.usbWritePort, DumpState.giveBack, sends, up, denied]
    · by_cases free : s.inFlight = false ∧ accepts s.t = true
      · simp [DumpState.fragment, DumpState.usbWritePort, sends, up, denied, free]
      · simp only [DumpState.fragment, DumpState.usbWritePort, sends, up, denied, free]
        simp [DumpState.giveBack]

variable {queues : Queues XmitbufTag Nat} {cnt : XmitbufTag → Int} {others : List Nat}

/-- The loop is at its fragment, and every fragment done has returned the buffer or is in flight. -/
structure Walked (x : DumpFrame) (s : DumpState) : Prop where
  inside : s.t ≤ x.nrFrags
  memAddr : s.memAddr = x.place s.t
  returned : s.returned.length + (if s.inFlight = true then 1 else 0) = s.t

theorem Walked.step (walked : Walked x s) (op : DumpOp) (may : op.allowed x s) : Walked x (op.apply x cannotTx accepts s) := by
  cases op with
  | fragment =>
      obtain ⟨w, eq, t, memAddr, -, -, fate⟩ := fragment_walk x cannotTx accepts s
      have before := walked.returned
      show Walked x (s.fragment x cannotTx accepts)
      refine ⟨?_, ?_, ?_⟩
      · rw [eq, t]
        exact may
      · rw [eq, t, memAddr, walked.memAddr]
        rfl
      · rw [eq, t]
        rcases fate with ⟨now, was, same, -⟩ | ⟨same, more, -⟩
        · rw [now, same, if_pos rfl, ← before, was]
          simp
        · rw [same, more, List.length_append, List.length_singleton, ← before]
          omega
  | complete =>
      have before := walked.returned
      have flying : s.inFlight = true := may
      rw [if_pos flying] at before
      exact ⟨walked.inside, walked.memAddr, by simpa [DumpOp.apply, DumpState.complete, DumpState.giveBack] using before⟩
  | alloc tag => exact ⟨walked.inside, walked.memAddr, walked.returned⟩
  | free b => exact ⟨walked.inside, walked.memAddr, walked.returned⟩

theorem walked_run (run : Runs (DumpOp.apply x cannotTx accepts) (DumpOp.allowed x) (x.start queues cnt others) s) :
    Walked x s :=
  run.keeps ⟨Nat.zero_le _, rfl, rfl⟩ fun _ op walked may => walked.step op may

/-- Every run can be brought to its end. -/
theorem run_finishes (run : Runs (DumpOp.apply x cannotTx accepts) (DumpOp.allowed x) (x.start queues cnt others) s) :
    ∃ s', Runs (DumpOp.apply x cannotTx accepts) (DumpOp.allowed x) (x.start queues cnt others) s' ∧ s'.Finished x := by
  have inside := (walked_run run).inside
  obtain ⟨left, eq⟩ := Nat.exists_eq_add_of_le inside
  induction left generalizing s with
  | zero =>
      by_cases flying : s.inFlight = true
      · exact ⟨_, run.step .complete flying, eq.symm, rfl⟩
      · exact ⟨s, run, eq.symm, Bool.eq_false_of_not_eq_true flying⟩
  | succ left ih =>
      have may : DumpOp.allowed x s .fragment := by
        show s.t < x.nrFrags
        omega
      have run' := run.step .fragment may
      have t : (DumpOp.apply x cannotTx accepts s .fragment).t = s.t + 1 := rfl
      exact ih run' (walked_run run').inside (by omega)

/-- In the end the buffer has been returned once for every fragment. -/
theorem returned_length (run : Runs (DumpOp.apply x cannotTx accepts) (DumpOp.allowed x) (x.start queues cnt others) s)
    (finished : s.Finished x) : s.returned.length = x.nrFrags := by
  have walked := (walked_run run).returned
  rw [finished.1, finished.2] at walked
  simpa using walked

/-- The fragments that get as far as a submission are submitted from their own places, if `buf_addr` follows
`mem_addr` behind the first. -/
theorem submitted_eq (follows : ∀ t, 0 < t → t < x.nrFrags → x.pull t = true ∨ x.uploads = true)
    (run : Runs (DumpOp.apply x cannotTx accepts) (DumpOp.allowed x) (x.start queues cnt others) s) :
    s.submitted = ((List.range s.t).filter (sends x cannotTx)).map x.frag := by
  let P (s : DumpState) : Prop := Walked x s ∧ (s.t = 0 → s.bufAddr = x.bufAddr) ∧
    s.submitted = ((List.range s.t).filter (sends x cannotTx)).map x.frag
  suffices all : P s from all.2.2
  refine run.keeps ⟨⟨Nat.zero_le _, rfl, rfl⟩, fun _ => rfl, rfl⟩ fun s op before may => ?_
  obtain ⟨walked, first, submitted⟩ := before
  refine ⟨walked.step op may, ?_⟩
  cases op with
  | fragment =>
      have inside : s.t < x.nrFrags := may
      obtain ⟨w, eq, t, -, bufAddr, more, -⟩ := fragment_walk x cannotTx accepts s
      show ((s.fragment x cannotTx accepts).t = 0 → (s.fragment x cannotTx accepts).bufAddr = _) ∧
        (s.fragment x cannotTx accepts).submitted =
          ((List.range (s.fragment x cannotTx accepts).t).filter (sends x cannotTx)).map x.frag
      rw [eq, t]
      refine ⟨nofun, ?_⟩
      have own : (if x.uploads = true then x.pulled s.t s.memAddr else w.bufAddr, x.wSz s.t) = x.frag s.t := by
        rw [DumpFrame.frag, ← walked.memAddr, bufAddr]
        by_cases up : x.uploads = true
        · rw [if_pos up]
        · rw [if_neg up]
          by_cases pull : x.pull s.t = true
          · rw [if_pos pull]
          · have zero : s.t = 0 := by
              by_contra positive
              rcases follows s.t (Nat.pos_of_ne_zero positive) inside with pulled | uploads
              · exact pull pulled
              · exact up uploads
            rw [if_neg pull, DumpFrame.pulled, if_neg pull, first zero, walked.memAddr, zero]
            rfl
      rw [more, own, submitted, List.range_succ, List.filter_append, List.map_append, List.filter_singleton]
      split <;> simp_all
  | complete => exact ⟨first, submitted⟩
  | alloc tag => exact ⟨first, submitted⟩
  | free b => exact ⟨first, submitted⟩

end Walk

/-! ## The pools -/

/-- Each buffer is held or in one queue, and the counters are the lengths. -/
structure Counted (all : Nat → Prop) (held : List Nat) (s : XmitPools) : Prop where
  placed : Placed all (held ++ s.others) s.queues
  counted : ∀ tag, s.cnt tag = (s.queues tag).length

section Pools

variable {x : DumpFrame} {all : Nat → Prop} {held : List Nat} {s : XmitPools} {b : Nat} {tag : XmitbufTag}

theorem counted_append {queues : Queues XmitbufTag Nat} {cnt : XmitbufTag → Int}
    (counted : ∀ tag, cnt tag = (queues tag).length) (p tag : XmitbufTag) :
    Function.update cnt p (cnt p + 1) tag = ((append p b queues) tag).length := by
  by_cases at_ : tag = p
  · rw [at_, append, Function.update_self, Function.update_self, counted, List.length_append]
    rfl
  · rw [append, Function.update_of_ne at_, Function.update_of_ne at_, counted]

/-- The frame returns its buffer. -/
theorem Counted.giveBack (counted : Counted all (b :: held) s) (pooled : x.bufTag b ≠ .cmd) :
    Counted all held (s.freeXmitbuf x b) := by
  rw [XmitPools.freeXmitbuf, if_neg pooled, counted.placed.unlink_held List.mem_cons_self]
  exact ⟨counted.placed.put _, counted_append counted.counted _⟩

theorem Counted.alloc (counted : Counted all held s) (tag : XmitbufTag) : Counted all held (s.alloc tag) := by
  rw [XmitPools.alloc]
  split
  · exact counted
  · rename_i b rest first
    have inside : b ∈ s.queues tag := first ▸ List.mem_cons_self
    refine ⟨(counted.placed.take inside).perm List.perm_middle.symm, fun other => ?_⟩
    rw [counted.placed.unlink_eq inside]
    show Function.update s.cnt tag (s.cnt tag - 1) other =
      (Function.update s.queues tag ((s.queues tag).erase b) other).length
    by_cases at_ : other = tag
    · rw [at_, Function.update_self, Function.update_self, counted.counted, first]
      simp
    · rw [Function.update_of_ne at_, Function.update_of_ne at_, counted.counted]

theorem Counted.free (counted : Counted all held s) (theirs : b ∈ s.others) : Counted all held (s.free x b) := by
  rw [XmitPools.free]
  split
  · exact counted
  · rename_i pooled
    have perm : (held ++ s.others).Perm (b :: (held ++ s.others.erase b)) :=
      ((List.perm_cons_erase theirs).append_left held).trans List.perm_middle
    have placed := counted.placed.perm perm
    rw [XmitPools.freeXmitbuf, if_neg pooled, placed.unlink_held List.mem_cons_self]
    exact ⟨placed.put _, counted_append counted.counted _⟩

end Pools

/-! ## One fragment -/

section Once

variable {x : DumpFrame} {cannotTx accepts : Nat → Bool} {s : DumpState} {queues : Queues XmitbufTag Nat}
  {cnt : XmitbufTag → Int} {others : List Nat} {all : Nat → Prop}

/-- What the frame holds of its buffer; one without a pool is never given back. -/
def heldBy (x : DumpFrame) (w : DumpWalk) : List Nat :=
  if w.returned = [] ∨ x.bufTag x.pxmitbuf = .cmd then [x.pxmitbuf] else []

/-- The buffer of a frame with one fragment is given back behind it, and the pools are in order. -/
structure Tidy (x : DumpFrame) (all : Nat → Prop) (s : DumpState) : Prop where
  walked : Walked x s
  once : s.returned = [] ∨ s.returned = [(1, false)]
  counted : Counted all (heldBy x s.toDumpWalk) s.toXmitPools

/-- The first return of the buffer. -/
theorem first_giveBack {w : DumpWalk} (counted : Counted all (heldBy x s.toDumpWalk) s.toXmitPools)
    (before : s.returned = []) (after : w.returned ≠ []) :
    Counted all (heldBy x w) (s.toXmitPools.freeXmitbuf x x.pxmitbuf) := by
  rw [heldBy, if_pos (.inl before)] at counted
  by_cases unpooled : x.bufTag x.pxmitbuf = .cmd
  · rw [heldBy, if_pos (.inr unpooled), XmitPools.freeXmitbuf, if_pos unpooled]
    exact counted
  · rw [heldBy, if_neg (not_or.mpr ⟨after, unpooled⟩)]
    exact counted.giveBack unpooled

theorem Tidy.step (single : x.nrFrags = 1) (tidy : Tidy x all s) (op : DumpOp) (may : op.allowed x s) :
    Tidy x all (op.apply x cannotTx accepts s) := by
  have walked : Walked x (op.apply x cannotTx accepts s) := tidy.walked.step op may
  have count := tidy.walked.returned
  cases op with
  | fragment =>
      have inside : s.t < x.nrFrags := may
      have first : s.t = 0 := by omega
      rw [first] at count
      have grounded : s.inFlight = false := by
        by_contra flying
        rw [if_pos (Bool.not_eq_false _ ▸ flying)] at count
        omega
      have before : s.returned = [] := List.eq_nil_of_length_eq_zero (by omega)
      obtain ⟨w, eq, -, -, -, -, fate⟩ := fragment_walk x cannotTx accepts s
      show Tidy x all (s.fragment x cannotTx accepts)
      rcases fate with ⟨-, -, same, pools⟩ | ⟨-, more, pools⟩
      · refine ⟨walked, .inl (by rw [eq, same, before]), ?_⟩
        rw [heldBy, eq, same, pools]
        exact tidy.counted
      · rw [before, first, grounded] at more
        refine ⟨walked, .inr (by rw [eq, more]; rfl), ?_⟩
        rw [eq, pools]
        exact first_giveBack tidy.counted before (by rw [more]; nofun)
  | complete =>
      have flying : s.inFlight = true := may
      have inside := tidy.walked.inside
      rw [if_pos flying] at count
      have before : s.returned = [] := List.eq_nil_of_length_eq_zero (by omega)
      have last : s.t = 1 := by
        rw [before, List.length_nil] at count
        omega
      have after : (s.complete x).returned = [(1, false)] := by
        simp [DumpState.complete, DumpState.giveBack, before, last]
      have some_ : (s.complete x).returned ≠ [] := by
        rw [after]
        nofun
      exact ⟨walked, .inr after, first_giveBack tidy.counted before some_⟩
  | alloc tag => exact ⟨walked, tidy.once, tidy.counted.alloc tag⟩
  | free b => exact ⟨walked, tidy.once, tidy.counted.free may⟩

theorem tidy_run (single : x.nrFrags = 1) (ready : Counted all [x.pxmitbuf] ⟨queues, cnt, others⟩)
    (run : Runs (DumpOp.apply x cannotTx accepts) (DumpOp.allowed x) (x.start queues cnt others) s) : Tidy x all s := by
  refine run.keeps ⟨⟨Nat.zero_le _, rfl, rfl⟩, .inl rfl, ?_⟩ fun _ op tidy may => tidy.step single op may
  rw [heldBy, if_pos (.inl rfl)]
  exact ready

end Once

/-- In every run of a frame with its buffer in hand, whatever becomes of the submissions, the frame is sent whole and
once exactly if it has one fragment and `usb_write_port` does not refuse that. -/
theorem whole_once_iff (x : DumpFrame) (cannotTx accepts : Nat → Bool) (queues : Queues XmitbufTag Nat)
    (cnt : XmitbufTag → Int) (others : List Nat) (all : Nat → Prop)
    (ready : Counted all [x.pxmitbuf] ⟨queues, cnt, others⟩) (s : DumpState)
    (run : Runs (DumpOp.apply x cannotTx accepts) (DumpOp.allowed x) (x.start queues cnt others) s)
    (finished : s.Finished x) : WholeOnce x s ↔ x.nrFrags = 1 ∧ sends x cannotTx 0 = true := by
  have length := returned_length run finished
  have submitted (single : x.nrFrags = 1) : s.submitted = if sends x cannotTx 0 = true then [x.frag 0] else [] := by
    have follows : ∀ t, 0 < t → t < x.nrFrags → x.pull t = true ∨ x.uploads = true := by
      intro t behind inside
      omega
    rw [submitted_eq follows run, finished.1, single]
    show ([0].filter (sends x cannotTx)).map x.frag = _
    rw [List.filter_singleton]
    cases sends x cannotTx 0 <;> rfl
  constructor
  · intro whole
    have single : x.nrFrags = 1 := by
      rw [← length, whole.once]
      rfl
    refine ⟨single, ?_⟩
    by_contra denied
    have sent := whole.whole
    rw [submitted single, if_neg denied, single] at sent
    exact absurd sent nofun
  · rintro ⟨single, sent⟩
    have tidy := tidy_run single ready run
    refine ⟨?_, ?_, tidy.counted.counted⟩
    · rw [submitted single, if_pos sent, single]
      rfl
    · rcases tidy.once with none_ | once
      · rw [none_, single] at length
        exact absurd length nofun
      · rw [once, single]

/-! ## Two frames -/

/-- A frame at high speed in buffer 0, the only one. -/
def dumpFrame (nrFrags : Nat) : DumpFrame :=
  { nrFrags := nrFrags, bufAddr := 0, fragLen := 512, swEncrypt := false, icvLen := 8, lastTxcmdsz := 300, mpMode := false
    speed := .highSpeed, ffHwaddr := 2, pxmitbuf := 0, bufTag := fun _ => .data }

theorem buffer_in_hand : Counted (fun b => b = 0) [0] ⟨fun _ => [], fun _ => 0, []⟩ := by
  refine ⟨⟨fun d _ => ?_, nofun, fun d => ?_⟩, fun _ => rfl⟩
  · exact List.nodup_iff_count_le_one.mp (List.nodup_singleton 0) d
  · simp

/-- The calls of `rtw_dump_xframe` for them. -/
def dumpStart (nrFrags : Nat) : DumpState := (dumpFrame nrFrags).start (fun _ => []) (fun _ => 0) []

/-- A fragment is accepted and completes. -/
def dumpRound (nrFrags : Nat) (s : DumpState) : DumpState :=
  DumpOp.apply (dumpFrame nrFrags) (fun _ => false) (fun _ => true)
    (DumpOp.apply (dumpFrame nrFrags) (fun _ => false) (fun _ => true) s .fragment) .complete

theorem dumpRound_runs {nrFrags : Nat} {s : DumpState}
    (run : Runs (DumpOp.apply (dumpFrame nrFrags) (fun _ => false) (fun _ => true)) (DumpOp.allowed (dumpFrame nrFrags))
      (dumpStart nrFrags) s) (inside : s.t < nrFrags) (grounded : s.inFlight = false) :
    Runs (DumpOp.apply (dumpFrame nrFrags) (fun _ => false) (fun _ => true)) (DumpOp.allowed (dumpFrame nrFrags))
      (dumpStart nrFrags) (dumpRound nrFrags s) := by
  have flying : (DumpOp.apply (dumpFrame nrFrags) (fun _ => false) (fun _ => true) s .fragment).inFlight = true := by
    simp [DumpOp.apply, DumpState.fragment, DumpState.usbWritePort, DumpFrame.uploads, dumpFrame, grounded]
  exact (run.step DumpOp.fragment inside).step DumpOp.complete flying

theorem one_fragment_sent : WholeOnce (dumpFrame 1) (dumpRound 1 (dumpStart 1)) :=
  (whole_once_iff (dumpFrame 1) (fun _ => false) (fun _ => true) _ _ _ _ buffer_in_hand _
    (dumpRound_runs .start (show 0 < 1 by decide) rfl) ⟨rfl, rfl⟩).mpr ⟨rfl, rfl⟩

/-- The one buffer is in the pool once, and the counter says two. -/
theorem two_fragments_returned_twice :
    Runs (DumpOp.apply (dumpFrame 2) (fun _ => false) (fun _ => true)) (DumpOp.allowed (dumpFrame 2)) (dumpStart 2)
        (dumpRound 2 (dumpRound 2 (dumpStart 2))) ∧
      (dumpRound 2 (dumpRound 2 (dumpStart 2))).Finished (dumpFrame 2) ∧
      ¬WholeOnce (dumpFrame 2) (dumpRound 2 (dumpRound 2 (dumpStart 2))) ∧
      (dumpRound 2 (dumpRound 2 (dumpStart 2))).queues .data = [0] ∧
      (dumpRound 2 (dumpRound 2 (dumpStart 2))).cnt .data = 2 := by
  refine ⟨?_, ⟨rfl, rfl⟩, fun whole => absurd whole.once (by decide), rfl, rfl⟩
  exact dumpRound_runs (dumpRound_runs .start (show 0 < 2 by decide) rfl) (show 1 < 2 by decide) rfl

end Vmac.Transmit
