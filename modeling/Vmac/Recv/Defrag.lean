/-
# Vmac.Recv.Defrag -- fragments are put together: rtw_recv.c, rtw_recv.h, recv_linux.c

`rtw_os_alloc_recvframe` makes a buffer for a received frame, a large one for a first fragment.
`recvframe_defrag` copies the payloads of the other fragments behind that of the first, and
leaves off the ICV there.  It copies first; `recvframe_put` compares with `rx_end` behind, and
nobody looks at what it returns.

* `StaysInside`: what is written lies in the buffer of the first fragment, and fragments that do
  not fit are dropped.
* `stays_inside_iff`: this is so exactly if they fit.
* `written_behind`: two fragments that do not.
* `returned_iff_inOrder`: a frame comes back exactly if the fragment numbers count up from 0, as
  in `Pool.recvframeDefrag`.
-/
import Vmac.Recv.Decap
import Vmac.Recv.Pool

namespace Vmac.Recv.Defrag

open Security Transmit

set_option autoImplicit false

/-! ## Buffers -/

/-- The buffer of a `recv_frame`; `rx_tail` is `len` bytes behind `rx_data`. -/
structure RxBuf where
  mem : Mem
  rxHead : Nat
  rxData : Nat
  len : Nat
  rxEnd : Nat
  head_le : rxHead ≤ rxData
  fits : rxData + len ≤ rxEnd

namespace RxBuf

def rxTail (b : RxBuf) : Nat := b.rxData + b.len

/-- The bytes of the frame. -/
def bytes (b : RxBuf) : List UInt8 := bytesAt b.mem b.rxData b.len

/-- What there is from `rx_data` to `rx_end`. -/
def room (b : RxBuf) : Nat := b.rxEnd - b.rxData

/-- `recvframe_pull`. -/
def pull (b : RxBuf) (sz : Nat) : RxBuf :=
  if inside : sz ≤ b.len then
    { b with
      rxData := b.rxData + sz
      len := b.len - sz
      head_le := Nat.le_add_right_of_le b.head_le
      fits := by have := b.fits; omega }
  else b

/-- `recvframe_pull_tail`. -/
def pullTail (b : RxBuf) (sz : Nat) : RxBuf :=
  if sz ≤ b.len then
    { b with
      len := b.len - sz
      fits := by have := b.fits; omega }
  else b

/-- `recvframe_put`. -/
def put (b : RxBuf) (sz : Nat) : RxBuf :=
  if inside : b.rxTail + sz ≤ b.rxEnd then
    { b with
      len := b.len + sz
      fits := by unfold rxTail at inside; omega }
  else b

/-- `_rtw_memcpy` to `rx_tail`. -/
def copy (b : RxBuf) (bytes : List UInt8) : RxBuf := { b with mem := splice b.mem b.rxTail bytes }

variable (b : RxBuf) (sz : Nat) (bytes_ : List UInt8)

/-! ### What stays -/

@[simp] theorem pullTail_mem : (b.pullTail sz).mem = b.mem := by
  unfold pullTail
  split <;> rfl

@[simp] theorem pullTail_rxHead : (b.pullTail sz).rxHead = b.rxHead := by
  unfold pullTail
  split <;> rfl

@[simp] theorem pullTail_rxData : (b.pullTail sz).rxData = b.rxData := by
  unfold pullTail
  split <;> rfl

@[simp] theorem pullTail_rxEnd : (b.pullTail sz).rxEnd = b.rxEnd := by
  unfold pullTail
  split <;> rfl

theorem pullTail_len : (b.pullTail sz).len = if sz ≤ b.len then b.len - sz else b.len := by
  unfold pullTail
  split <;> rfl

@[simp] theorem put_mem : (b.put sz).mem = b.mem := by
  unfold put
  split <;> rfl

@[simp] theorem put_rxHead : (b.put sz).rxHead = b.rxHead := by
  unfold put
  split <;> rfl

@[simp] theorem put_rxData : (b.put sz).rxData = b.rxData := by
  unfold put
  split <;> rfl

@[simp] theorem put_rxEnd : (b.put sz).rxEnd = b.rxEnd := by
  unfold put
  split <;> rfl

theorem put_len {b : RxBuf} {sz : Nat} (inside : b.rxTail + sz ≤ b.rxEnd) : (b.put sz).len = b.len + sz := by
  unfold put
  rw [dif_pos inside]

@[simp] theorem copy_rxTail : (b.copy bytes_).rxTail = b.rxTail := rfl

@[simp] theorem length_bytes : b.bytes.length = b.len := length_bytesAt ..

end RxBuf

/-! ## rtw_os_alloc_recvframe -/

/-- The descriptor of a received packet. -/
structure RxDesc where
  pktLen : Nat
  qos : Bool
  mfrag : Bool
  fragNum : Fin 16

/-- `alloc_sz`. -/
def allocSz (d : RxDesc) : Nat :=
  if d.mfrag = true ∧ d.fragNum = 0 then if d.pktLen ≤ 1650 then 1664 else d.pktLen + 14
  else d.pktLen + 14

theorem le_allocSz (d : RxDesc) : d.pktLen + 14 ≤ allocSz d := by
  unfold allocSz
  split_ifs <;> omega

/-- What `rtw_skb_alloc` returns, or, when there is no memory, whether `rtw_skb_clone` does. -/
inductive RxAlloc
  | skb (head data : Nat) (ordered : head ≤ data)
  | clone
  | fail

/-- `rtw_os_alloc_recvframe` and the `recvframe_put` behind it, for the packet at `pdata` of the USB buffer. -/
def rtwOsAllocRecvframe (d : RxDesc) (usb : Mem) (pdata : Nat) : RxAlloc → Option RxBuf
  | .skb head data ordered =>
      let shiftSz := if d.qos then 6 else 0
      let rxData := data + (8 - data % 8) + shiftSz
      some (RxBuf.put
        { mem := splice (fun _ => 0) rxData (bytesAt usb pdata d.pktLen)
          rxHead := head
          rxData := rxData
          len := 0
          rxEnd := data + allocSz d
          head_le := by omega
          fits := by
            have := le_allocSz d
            have : shiftSz ≤ 6 := by unfold shiftSz; split <;> omega
            omega }
        d.pktLen)
  | .clone =>
      if d.mfrag = true ∧ d.fragNum = 0 then none
      else
        some (RxBuf.put
          { mem := usb
            rxHead := pdata
            rxData := pdata
            len := 0
            rxEnd := pdata + allocSz d
            head_le := Nat.le_refl _
            fits := Nat.le_add_right .. }
          d.pktLen)
  | .fail => none

/-- The packet is in the buffer as a whole. -/
theorem rtwOsAllocRecvframe_bytes {d : RxDesc} {usb : Mem} {pdata : Nat} {alloc : RxAlloc} {b : RxBuf}
    (made : rtwOsAllocRecvframe d usb pdata alloc = some b) :
    b.len = d.pktLen ∧ b.bytes = bytesAt usb pdata d.pktLen := by
  have large := le_allocSz d
  have filled {b : RxBuf} (blank : b.len = 0) (room : b.rxData + d.pktLen ≤ b.rxEnd)
      (there : bytesAt b.mem b.rxData d.pktLen = bytesAt usb pdata d.pktLen) :
      (b.put d.pktLen).len = d.pktLen ∧ (b.put d.pktLen).bytes = bytesAt usb pdata d.pktLen := by
    have len : (b.put d.pktLen).len = d.pktLen := by
      rw [RxBuf.put_len (by unfold RxBuf.rxTail; omega), blank, Nat.zero_add]
    refine ⟨len, ?_⟩
    rw [RxBuf.bytes, len, RxBuf.put_mem, RxBuf.put_rxData, there]
  cases alloc with
  | skb head data ordered =>
      rw [rtwOsAllocRecvframe, Option.some.injEq] at made
      have shift : (if d.qos = true then 6 else 0) ≤ 6 := by split <;> omega
      rw [← made]
      refine filled rfl (by dsimp only; omega) ?_
      have written := bytesAt_splice (fun _ => 0) (data + (8 - data % 8) + if d.qos = true then 6 else 0)
        (bytesAt usb pdata d.pktLen)
      rwa [length_bytesAt] at written
  | clone =>
      rw [rtwOsAllocRecvframe] at made
      split at made
      · cases made
      · rw [Option.some.injEq] at made
        rw [← made]
        exact filled rfl (by dsimp only; omega) rfl
  | fail => cases made

/-! ## recvframe_defrag -/

/-- What defragmentation reads of a `recv_frame`. -/
structure Fragment where
  ta : MacAddr
  /-- `WIFI_DATA_TYPE`. -/
  data : Bool
  mfrag : Bool
  fragNum : Fin 16
  seqNum : Nat
  privacy : Bool
  hdrlen : Nat
  ivLen : Nat
  icvLen : Nat
  /-- `wlanhdr_offset` is a `u8`. -/
  small : hdrlen + ivLen < 256
  buf : RxBuf

namespace Fragment

/-- The frame without header and IV: `recvframe_pull` in `recvframe_defrag`. -/
def payload (f : Fragment) : RxBuf := f.buf.pull (f.hdrlen + f.ivLen)

/-- Where the payload of the next fragment is copied to: the ICV is taken off. -/
def tail (prframe : Fragment) : RxBuf := prframe.buf.pullTail prframe.icvLen

/-- One round of the loop of `recvframe_defrag`. -/
def append (prframe next : Fragment) : Fragment :=
  { prframe with
    buf := (prframe.tail.copy next.payload.bytes).put next.payload.len
    icvLen := next.icvLen }

end Fragment

/-- The loop of `recvframe_defrag`: the frame if the fragments are in order, and what was written. -/
def defragLoop (prframe : Fragment) (curfragnum : Nat) : List Fragment → Option Fragment × List (Nat × Nat)
  | [] => (some prframe, [])
  | next :: rest =>
      if curfragnum ≠ next.fragNum then (none, [])
      else
        let r := defragLoop (prframe.append next) (curfragnum + 1) rest
        (r.1, (prframe.tail.rxTail, next.payload.len) :: r.2)

structure Defragged where
  returned : Option Fragment
  /-- The frames given to `rtw_free_recvframe`. -/
  freed : List Fragment
  /-- What was written: addresses in the buffer of the first fragment, and lengths. -/
  writes : List (Nat × Nat)

/-- `recvframe_defrag`; `recvframe_chk_defrag` has put a fragment into the queue. -/
def recvframeDefrag : List Fragment → Defragged
  | [] => ⟨none, [], []⟩
  | first :: rest =>
      if first.fragNum ≠ 0 then ⟨none, first :: rest, []⟩
      else
        match defragLoop first 1 rest with
        | (none, writes) => ⟨none, first :: rest, writes⟩
        | (some frame, writes) => ⟨some frame, rest, writes⟩

/-! ## What fits -/

/-- From `curfragnum` on, up to a fragment out of order, each payload fits behind what is there: `len` bytes of `room`,
of which the last `icvLen` are overwritten. -/
def fitsFrom (room len icvLen curfragnum : Nat) : List Fragment → Bool
  | [] => true
  | next :: rest =>
      curfragnum != next.fragNum.val ||
        let left := if icvLen ≤ len then len - icvLen else len
        decide (left + next.payload.len ≤ room) &&
          fitsFrom room (left + next.payload.len) next.icvLen (curfragnum + 1) rest

/-- The fragments fit into the buffer of the first. -/
def Fits (first : Fragment) (rest : List Fragment) : Prop :=
  first.fragNum = 0 → fitsFrom first.buf.room first.buf.len first.icvLen 1 rest = true

/-- Writes lie between `rx_head` and `rx_end`, the returned frame does too, and fragments that do not fit are freed. -/
structure StaysInside (first : Fragment) (rest : List Fragment) : Prop where
  writes : ∀ w ∈ (recvframeDefrag (first :: rest)).writes, first.buf.rxHead ≤ w.1 ∧ w.1 + w.2 ≤ first.buf.rxEnd
  length : ∀ frame ∈ (recvframeDefrag (first :: rest)).returned, frame.buf.len ≤ first.buf.rxEnd - first.buf.rxData
  dropped : ¬Fits first rest →
    (recvframeDefrag (first :: rest)).returned = none ∧ (recvframeDefrag (first :: rest)).freed = first :: rest

/-! ## One round -/

section Round

variable {prframe next first : Fragment} {rest : List Fragment}

/-- What a frame has left when its ICV is taken off. -/
theorem tail_len (prframe : Fragment) : prframe.tail.len =
    if prframe.icvLen ≤ prframe.buf.len then prframe.buf.len - prframe.icvLen else prframe.buf.len :=
  RxBuf.pullTail_len ..

@[simp] theorem append_rxHead (prframe next : Fragment) : (prframe.append next).buf.rxHead = prframe.buf.rxHead := by
  simp [Fragment.append, RxBuf.copy, Fragment.tail]

@[simp] theorem append_rxData (prframe next : Fragment) : (prframe.append next).buf.rxData = prframe.buf.rxData := by
  simp [Fragment.append, RxBuf.copy, Fragment.tail]

@[simp] theorem append_rxEnd (prframe next : Fragment) : (prframe.append next).buf.rxEnd = prframe.buf.rxEnd := by
  simp [Fragment.append, RxBuf.copy, Fragment.tail]

@[simp] theorem append_room (prframe next : Fragment) : (prframe.append next).buf.room = prframe.buf.room := by
  simp [RxBuf.room]

/-- The payload ends at `rx_end` at the latest. -/
theorem tail_room_iff : prframe.tail.rxTail + next.payload.len ≤ prframe.buf.rxEnd ↔
    prframe.tail.len + next.payload.len ≤ prframe.buf.room := by
  have inside := prframe.buf.fits
  have tail : prframe.tail.rxTail = prframe.buf.rxData + prframe.tail.len := by
    simp [RxBuf.rxTail, Fragment.tail]
  rw [tail, RxBuf.room]
  omega

theorem append_len (room : prframe.tail.rxTail + next.payload.len ≤ prframe.buf.rxEnd) :
    (prframe.append next).buf.len = prframe.tail.len + next.payload.len := by
  have bound : (prframe.tail.copy next.payload.bytes).rxTail + next.payload.len ≤
      (prframe.tail.copy next.payload.bytes).rxEnd := room.trans_eq (RxBuf.pullTail_rxEnd ..).symm
  exact RxBuf.put_len bound

theorem fitsFrom_cons {cur : Nat} (order : cur = next.fragNum.val) :
    fitsFrom prframe.buf.room prframe.buf.len prframe.icvLen cur (next :: rest) = true ↔
      prframe.tail.rxTail + next.payload.len ≤ prframe.buf.rxEnd ∧
        fitsFrom prframe.buf.room (prframe.tail.len + next.payload.len) next.icvLen (cur + 1) rest = true := by
  rw [tail_room_iff, tail_len]
  simp [fitsFrom, order]

theorem defragLoop_order {cur : Nat} (order : cur = next.fragNum.val) : defragLoop prframe cur (next :: rest) =
    ((defragLoop (prframe.append next) (cur + 1) rest).1,
      (prframe.tail.rxTail, next.payload.len) :: (defragLoop (prframe.append next) (cur + 1) rest).2) := by
  rw [defragLoop, if_neg (by omega)]

theorem defragLoop_disorder {cur : Nat} (order : cur ≠ next.fragNum.val) :
    defragLoop prframe cur (next :: rest) = (none, []) := by
  rw [defragLoop, if_pos order]

/-! ## The loop -/

/-- The loop writes inside the buffer exactly if what it copies fits. -/
theorem defragLoop_writes (prframe : Fragment) (cur : Nat) (rest : List Fragment) :
    (∀ w ∈ (defragLoop prframe cur rest).2, prframe.buf.rxHead ≤ w.1 ∧ w.1 + w.2 ≤ prframe.buf.rxEnd) ↔
      fitsFrom prframe.buf.room prframe.buf.len prframe.icvLen cur rest = true := by
  induction rest generalizing prframe cur with
  | nil => exact iff_of_true nofun rfl
  | cons next rest ih =>
      by_cases order : cur = next.fragNum.val
      · have low : prframe.buf.rxHead ≤ prframe.tail.rxTail := by
          have head := prframe.buf.head_le
          simp only [RxBuf.rxTail, Fragment.tail, RxBuf.pullTail_rxData]
          omega
        rw [defragLoop_order order, fitsFrom_cons order, List.forall_mem_cons]
        dsimp only
        rw [and_iff_right low]
        refine and_congr_right fun room => ?_
        have later := ih (prframe.append next) (cur + 1)
        rw [append_len room, append_room, append_rxHead, append_rxEnd] at later
        exact later
      · rw [defragLoop_disorder order]
        refine iff_of_true nofun ?_
        simp [fitsFrom, order]

/-- What the loop returns begins where it began, and has the same buffer. -/
theorem defragLoop_returned {prframe frame : Fragment} {cur : Nat} {rest : List Fragment}
    (returned : (defragLoop prframe cur rest).1 = some frame) :
    frame.buf.rxData = prframe.buf.rxData ∧ frame.buf.rxEnd = prframe.buf.rxEnd := by
  induction rest generalizing prframe cur with
  | nil =>
      rw [← Option.some.inj returned]
      exact ⟨rfl, rfl⟩
  | cons next rest ih =>
      by_cases order : cur = next.fragNum.val
      · rw [defragLoop_order order] at returned
        simpa using ih returned
      · rw [defragLoop_disorder order] at returned
        cases returned

end Round

theorem recvframeDefrag_late {first : Fragment} (late : first.fragNum ≠ 0) (rest : List Fragment) :
    recvframeDefrag (first :: rest) = ⟨none, first :: rest, []⟩ := if_pos late

theorem recvframeDefrag_start {first : Fragment} (start : first.fragNum = 0) (rest : List Fragment) :
    recvframeDefrag (first :: rest) =
      match defragLoop first 1 rest with
      | (none, writes) => ⟨none, first :: rest, writes⟩
      | (some frame, writes) => ⟨some frame, rest, writes⟩ := if_neg (not_not.mpr start)

theorem recvframeDefrag_loop {first : Fragment} (start : first.fragNum = 0) (rest : List Fragment) :
    (recvframeDefrag (first :: rest)).returned = (defragLoop first 1 rest).1 ∧
      (recvframeDefrag (first :: rest)).writes = (defragLoop first 1 rest).2 := by
  rw [recvframeDefrag_start start]
  rcases defragLoop first 1 rest with ⟨returned, writes⟩
  cases returned <;> exact ⟨rfl, rfl⟩

/-! ## In order -/

/-- The fragment numbers count up from `curfragnum`. -/
def inOrder (curfragnum : Nat) : List Fragment → Bool
  | [] => true
  | f :: rest => f.fragNum.val == curfragnum && inOrder (curfragnum + 1) rest

theorem defragLoop_isSome (prframe : Fragment) (cur : Nat) (rest : List Fragment) :
    (defragLoop prframe cur rest).1.isSome = inOrder cur rest := by
  induction rest generalizing prframe cur with
  | nil => rfl
  | cons next rest ih =>
      by_cases order : cur = next.fragNum.val
      · rw [defragLoop_order order, ih]
        simp [inOrder, order]
      · rw [defragLoop_disorder order]
        simp [inOrder, Ne.symm order]

/-- A frame comes back exactly if the fragment numbers count up from 0; then the others are freed, else all are. -/
theorem returned_iff_inOrder (first : Fragment) (rest : List Fragment) :
    (recvframeDefrag (first :: rest)).returned.isSome = inOrder 0 (first :: rest) ∧
      (recvframeDefrag (first :: rest)).freed = if inOrder 0 (first :: rest) then rest else first :: rest := by
  have loop := defragLoop_isSome first 1 rest
  by_cases start : first.fragNum = 0
  · have order : inOrder 0 (first :: rest) = inOrder 1 rest := by simp [inOrder, start]
    rw [recvframeDefrag_start start, order, ← loop]
    rcases defragLoop first 1 rest with ⟨returned, writes⟩
    cases returned with
    | none => exact ⟨rfl, rfl⟩
    | some frame => exact ⟨rfl, rfl⟩
  · have order : inOrder 0 (first :: rest) = false := by simp [inOrder, start]
    rw [recvframeDefrag_late start, order]
    exact ⟨rfl, rfl⟩

/-- The descriptors of the pool are treated as their frames are. -/
theorem pool_returns {frag : Desc → Fragment} {s : Pool} (view : ∀ d, (frag d).fragNum = (s.hdr d).attrib.fragNum)
    {p : Place} {first : Desc} {rest : List Desc} (queue : s.queue p = first :: rest) :
    (s.recvframeDefrag p).1.isSome = (recvframeDefrag ((first :: rest).map frag)).returned.isSome := by
  have same (cur : Nat) (l : List Desc) : Pool.fragsInOrder s.hdr cur l = inOrder cur (l.map frag) := by
    induction l generalizing cur with
    | nil => rfl
    | cons d l ih => simp [Pool.fragsInOrder, inOrder, view, ih]
  rw [List.map_cons, (returned_iff_inOrder _ _).1, ← List.map_cons, ← same]
  unfold Pool.recvframeDefrag
  rw [queue]
  dsimp only
  split
  · rename_i order
    exact order.symm
  · rename_i disorder
    exact (Bool.eq_false_iff.mpr disorder).symm

/-! ## Inside the buffer -/

/-- Defragmentation stays in the buffer of the first fragment exactly if the fragments fit. -/
theorem stays_inside_iff (first : Fragment) (rest : List Fragment) : StaysInside first rest ↔ Fits first rest := by
  have loop := defragLoop_writes first 1 rest
  constructor
  · intro stays start
    rw [← loop, ← (recvframeDefrag_loop start rest).2]
    exact stays.writes
  · intro fits
    by_cases start : first.fragNum = 0
    · obtain ⟨returns, writes⟩ := recvframeDefrag_loop start rest
      refine ⟨writes ▸ loop.mpr (fits start), fun frame returned => ?_, fun not => absurd fits not⟩
      rw [returns] at returned
      obtain ⟨data, last⟩ := defragLoop_returned returned
      have inside := frame.buf.fits
      omega
    · have late := recvframeDefrag_late start rest
      refine ⟨?_, ?_, fun not => absurd fits not⟩
      · rw [late]
        exact nofun
      · rw [late]
        exact nofun

/-! ## Two fragments -/

/-- A fragment without protection, with a header of 24 bytes, in the buffer that it gets at 64. -/
def plainFragment (ta : MacAddr) (data mfrag : Bool) (fragNum : Fin 16) (seqNum pktLen : Nat) (usb : Mem) : Fragment :=
  ⟨ta, data, mfrag, fragNum, seqNum, false, 24, 0, 0, by decide,
    (rtwOsAllocRecvframe ⟨pktLen, false, mfrag, fragNum⟩ usb 0 (.skb 0 64 (by decide))).get rfl⟩

/-- Fragment `fragNum` of a frame, `pktLen` bytes long. -/
def received (mfrag : Bool) (fragNum : Fin 16) (pktLen : Nat) : Fragment :=
  plainFragment (fun _ => 1) true mfrag fragNum 5 pktLen fun _ => 0

/-- A first fragment of 100 bytes lies at 72, and its buffer ends at 1728; 1576 bytes of the next one are written to 172,
and the frame comes back without them. -/
theorem written_behind :
    ¬StaysInside (received true 0 100) [received false 1 1600] ∧ (received true 0 100).buf.rxEnd = 1728 ∧
      (172, 1576) ∈ (recvframeDefrag [received true 0 100, received false 1 1600]).writes ∧
      (recvframeDefrag [received true 0 100, received false 1 1600]).returned.map (·.buf.len) = some 100 := by
  have last : (received true 0 100).buf.rxEnd = 1728 := by decide +kernel
  have written : (172, 1576) ∈ (recvframeDefrag [received true 0 100, received false 1 1600]).writes := by decide +kernel
  refine ⟨fun stays => ?_, last, written, by decide +kernel⟩
  have inside := (stays.writes _ written).2
  rw [last] at inside
  exact absurd inside (by decide)

end Vmac.Recv.Defrag
