/-
# Vmac.Transmit.Aggregate -- several frames in one USB transfer: rtl8812au_xmit.c

`rtl8812au_xmitframe_complete` takes a frame out of the queues, coalesces it into a transmit
buffer, and goes on with frames of the same station and access category as long as they fit.
How much room a frame needs is computed before it is written.
-/
import Mathlib.Algebra.BigOperators.Group.Finset.Basic
import Vmac.Transmit.Mic
import Vmac.Transmit.Queues

namespace Vmac.Transmit

open Security

set_option autoImplicit false

/-! ## Sizes -/

/-- `MAX_XMITBUF_SZ`. -/
def maxXmitbufSz : Nat := 20480

/-- `MAX_TX_AGG_PACKET_NUMBER`. -/
def maxTxAggPacketNumber : Nat := 0xff

/-- `_RND8`. -/
def rnd8 (x : Nat) : Nat := (x / 8 + if x % 8 = 0 then 0 else 1) * 8

/-- `rtw_calculate_wlan_pkt_size_by_attribue`. -/
def wlanPktSize (pattrib : PktAttrib) : Nat :=
  pattrib.hdrlen + pattrib.ivLen + 8 + pattrib.pktlen + (if pattrib.encrypt = .tkip then 8 else 0) +
    if pattrib.bswenc then pattrib.icvLen else 0

/-- `QSLT_HIGH`. -/
def qsltHigh : UInt8 := 0x11

/-- `rtw_hal_busagg_qsel_check`. -/
def busaggQselCheck (isAp : Bool) (preQsel nextQsel : UInt8) : Bool :=
  !(isAp && (preQsel = qsltHigh || nextQsel = qsltHigh) && preQsel != nextQsel)

/-! ## The descriptor -/

/-- `update_txdesc` for an aggregated frame: forty bytes.  `fill` are the fields that say nothing about
lengths. -/
def txdesc (fill : Nat → UInt8) (sz pktOffset aggNum : Nat) : List UInt8 :=
  (List.range txdescSize).map fun k =>
    if k = 0 then UInt8.ofNat sz
    else if k = 1 then UInt8.ofNat (sz / 256)
    else if k = 2 then UInt8.ofNat txdescSize
    else if k = 7 then (fill 7 &&& 0xe0) ||| UInt8.ofNat (pktOffset % 32)
    else if k = 31 then (if 1 < aggNum then UInt8.ofNat aggNum else 0)
    else fill k

/-! ## rtl8812au_xmitframe_complete -/

/-- What the function finds: the USB endpoint, the order of the categories, and `rtw_xmitframe_coalesce`
with the encryption behind it, which leaves `last_txcmdsz` unless it fails. -/
structure UsbEnv (S : Type) where
  isAp : Bool
  inx : List Ac
  bulkSize : Nat
  usbTxAggDescNum : Nat
  fill : XmitFrame S → Nat → UInt8
  coalesce : XmitFrame S → Nat → Mem → Option Nat × Mem

/-- A frame in the transmit buffer: where its descriptor is, counted from the start of the buffer, and
`last_txcmdsz`. -/
structure Block (S : Type) where
  frame : XmitFrame S
  pos : Nat
  sz : Nat

/-- The variables of the aggregation. -/
structure Agg (S : Type) where
  s : TxState S
  mem : Mem
  blocks : List (Block S)
  pbuf : Nat
  pbufTail : Nat
  aggNum : Nat
  descCount : Nat
  bulkPtr : Nat

/-- What is written to the USB port: `len` bytes from `start` on. -/
structure UsbWrite (S : Type) where
  mem : Mem
  start : Nat
  len : Nat
  aggNum : Nat
  blocks : List (Block S)

variable {S : Type} [DecidableEq S]

namespace UsbEnv

variable (env : UsbEnv S) (buf : XmitBuf)

/-- The first loop: frames are taken until one can be coalesced.  The fuel bounds their number. -/
def firstFrame : Nat → TxState S → Mem → TxState S × Option (XmitFrame S × Nat × Mem)
  | 0, s, _ => (s, none)
  | fuel + 1, s, mem =>
      match s.dequeueXframe env.inx with
      | none => (s, none)
      | some (f, s) =>
          let f := { f with aggNum := 1, pktOffset := 1 }
          match env.coalesce f buf.bufAddr mem with
          | (some sz, mem) => (s, some (f, sz, mem))
          | (none, mem) => firstFrame fuel (s.leave f) mem

/-- The second loop, over what is pending for the station of the first frame. -/
def aggregateLoop (psta : S) (ac : Ac) (preQsel : UInt8) : List (XmitFrame S) → Agg S → Agg S
  | [], a => a
  | f :: left, a =>
      if busaggQselCheck env.isAp preQsel f.qsel = false then a
      else
        let f := { f with aggNum := 0, pktOffset := 0 }
        let len := wlanPktSize f.attrib + txdescSize + f.pktOffset * packetOffsetSz
        if maxXmitbufSz < rnd8 (a.pbuf + len) then
          -- the frame is not taken, and is as it was
          let f := { f with aggNum := 1, pktOffset := 1 }
          { a with s := a.s.setServq psta ac ⟨(a.s.servq psta ac).qcnt, f :: left⟩ }
        else
          let s := (a.s.takePending psta ac left 1).leave f
          match env.coalesce f (buf.bufAddr + a.pbuf) a.mem with
          | (none, mem) => aggregateLoop psta ac preQsel left { a with s := s, mem := mem }
          | (some sz, mem) =>
              let pbuf := rnd8 (a.pbuf + len)
              let a := { a with
                s := s
                mem := splice mem (buf.bufAddr + a.pbuf) (txdesc (env.fill f) sz f.pktOffset f.aggNum)
                blocks := a.blocks ++ [⟨f, a.pbuf, sz⟩]
                pbuf := pbuf
                pbufTail := a.pbuf + len
                aggNum := a.aggNum + 1 }
              if a.aggNum = maxTxAggPacketNumber then a
              else if pbuf < a.bulkPtr then
                let a := { a with descCount := a.descCount + 1 }
                if a.descCount = env.usbTxAggDescNum then a
                else aggregateLoop psta ac preQsel left a
              else
                aggregateLoop psta ac preQsel left
                  { a with descCount := 0, bulkPtr := (pbuf / env.bulkSize + 1) * env.bulkSize }

/-- The station leaves the ring when nothing is pending, or goes to its end when it is not alone. -/
def rearrange (s : TxState S) (psta : S) (ac : Ac) (singleSta : Bool) : TxState S :=
  if s.pending psta ac = [] then s.deleteTxPending psta ac
  else if singleSta then s
  else { s with staQueue := Function.update s.staQueue ac ((s.staQueue ac).erase psta ++ [psta]) }

/-- From the first frame on: what else gets into the buffer. -/
def aggregate (first : XmitFrame S) (sz : Nat) (s : TxState S) (mem : Mem) : Agg S :=
  let len := wlanPktSize first.attrib + txdescSize + first.pktOffset * packetOffsetSz
  let pbuf := rnd8 len
  let descCount := if pbuf < env.bulkSize then 1 else 0
  let a : Agg S := ⟨s, mem, [⟨first, 0, sz⟩], pbuf, len, first.aggNum, 0, (pbuf / env.bulkSize + 1) * env.bulkSize⟩
  if descCount = env.usbTxAggDescNum then a
  else
    match first.psta with
    -- a frame in a queue has a station
    | none => a
    | some psta =>
        let singleSta : Bool := (s.staQueue first.ac).length ≤ 1
        let a := env.aggregateLoop buf psta first.ac first.qsel (s.pending psta first.ac) a
        { a with s := rearrange a.s psta first.ac singleSta }

/-- The frames that wait for the dequeuer. -/
def queuedCount [Fintype S] (s : TxState S) : Nat := ∑ psta, ∑ ac, (s.pending psta ac).length

/-- `rtl8812au_xmitframe_complete` with a transmit buffer: the queues, and what is written to USB if it
returns `_TRUE`. -/
def xmitframeComplete [Fintype S] (s : TxState S) (mem : Mem) : TxState S × Option (UsbWrite S) :=
  match env.firstFrame buf (queuedCount s + 1) s mem with
  | (s, none) => (s, none)
  | (s, some (first, sz, mem)) =>
      let a := env.aggregate buf first sz (s.leave first) mem
      -- the packet offset of the first frame goes if the total is a multiple of the bulk size
      let start := if a.pbufTail % env.bulkSize = 0 then packetOffsetSz else 0
      let pktOffset := if a.pbufTail % env.bulkSize = 0 then first.pktOffset - 1 else first.pktOffset
      (a.s, some {
        mem := splice a.mem (buf.bufAddr + start) (txdesc (env.fill first) sz pktOffset a.aggNum)
        start := start
        len := a.pbufTail - start
        aggNum := a.aggNum
        blocks := a.blocks })

end UsbEnv

end Vmac.Transmit
