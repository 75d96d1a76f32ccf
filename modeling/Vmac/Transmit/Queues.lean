/-
# Vmac.Transmit.Queues -- the transmit queues of an access point: rtw_xmit.c, rtw_recv.c, rtw_sta_mgt.c

Every station has a queue for each access category and one for the time it sleeps.  A station
with something in a queue hangs, with `tx_pending`, in the ring of the category; counters say
again how long the queues are.  Two bitmaps of sixteen bits say who sleeps and for whom
something is buffered.

Stations are pointers into the table of station records.  `arrived` and `gone` are kept for the
statements: the frames that came into the queues, and those that went to the device or were freed.
-/
import Vmac.Transmit.Attrib

namespace Vmac.Transmit

set_option autoImplicit false

/-! ## Data -/

/-- The access categories, in the order of `hwxmits`. -/
inductive Ac
  | vo
  | vi
  | be
  | bk
  deriving DecidableEq, Repr

instance : Fintype Ac := ⟨{.vo, .vi, .be, .bk}, fun ac => by cases ac <;> decide⟩

/-- `rtw_get_sta_pending`: the category of a priority. -/
def acOf (priority : UInt8) : Ac :=
  if priority = 1 ∨ priority = 2 then .bk
  else if priority = 4 ∨ priority = 5 then .vi
  else if priority = 6 ∨ priority = 7 then .vo
  else .be

/-- The fields of `struct xmit_frame` that the queues read and write; `psta` is `attrib.psta`. -/
structure XmitFrame (S : Type) where
  id : Nat
  attrib : PktAttrib
  psta : Option S
  qsel : UInt8
  seqnum : Nat
  triggered : Bool
  aggNum : Nat
  pktOffset : Nat
  pkt : List UInt8

/-- The category of a frame. -/
def XmitFrame.ac {S : Type} (f : XmitFrame S) : Ac := acOf f.attrib.priority

/-- A buffered frame is handed on. -/
def XmitFrame.trigger {S : Type} (f : XmitFrame S) (mdata eosp : Bool) : XmitFrame S :=
  { f with attrib := { f.attrib with mdata := mdata, eosp := eosp }, triggered := true }

/-- `struct tx_servq`. -/
structure TxServq (S : Type) where
  qcnt : Int
  staPending : List (XmitFrame S)

/-- The fields of `struct sta_info` that the queues read and write. -/
structure Sta (S : Type) where
  /-- `state & _FW_LINKED`. -/
  linked : Bool
  /-- `state & WIFI_SLEEP_STATE`. -/
  sleeping : Bool
  aid : Nat
  servq : Ac → TxServq S
  sleepQ : List (XmitFrame S)
  sleepqLen : UInt32
  sleepqAcLen : UInt32
  qosOption : Bool
  qosInfo : UInt8
  hasLegacyAc : Bool
  uapsd : Ac → UInt8

/-- The queues. -/
@[ext] structure TxState (S : Type) where
  hash : MacAddr → Option S
  sta : S → Sta S
  staQueue : Ac → List S
  accnt : Ac → Int
  staDzBitmap : UInt16
  timBitmap : UInt16
  /-- What the machine gives for `1 << aid` where C does not define it. -/
  overshift : Nat → UInt16
  arrived : List Nat
  gone : List Nat

variable {S : Type} [DecidableEq S]

namespace TxState

/-- `rtw_get_stainfo`. -/
def getStainfo (s : TxState S) (hwaddr : MacAddr) : Option S := s.hash (staAddr hwaddr)

/-- `rtw_get_bcmc_stainfo`. -/
def getBcmcStainfo (s : TxState S) : Option S := s.hash bcAddr

/-- `BIT`, of which a bitmap keeps sixteen bits. -/
def bit (s : TxState S) (aid : Nat) : UInt16 := if aid < 32 then UInt16.ofNat (2 ^ aid) else s.overshift aid

def servq (s : TxState S) (psta : S) (ac : Ac) : TxServq S := (s.sta psta).servq ac

def pending (s : TxState S) (psta : S) (ac : Ac) : List (XmitFrame S) := (s.servq psta ac).staPending

def setSta (s : TxState S) (psta : S) (sta : Sta S) : TxState S :=
  { s with sta := Function.update s.sta psta sta }

def setServq (s : TxState S) (psta : S) (ac : Ac) (servq : TxServq S) : TxState S :=
  s.setSta psta { s.sta psta with servq := Function.update (s.sta psta).servq ac servq }

/-- A frame leaves the queues. -/
def leave (s : TxState S) (f : XmitFrame S) : TxState S := { s with gone := f.id :: s.gone }

/-- `rtw_list_delete(&ptxservq->tx_pending)`. -/
def deleteTxPending (s : TxState S) (psta : S) (ac : Ac) : TxState S :=
  { s with staQueue := Function.update s.staQueue ac ((s.staQueue ac).erase psta) }

/-! ## rtw_xmit_classifier and rtw_dequeue_xframe -/

/-- A frame goes to the tail of a queue. -/
def insertTail (s : TxState S) (psta : S) (f : XmitFrame S) : TxState S :=
  let ring := s.staQueue f.ac
  let servq := s.servq psta f.ac
  let s := { s with
    staQueue := Function.update s.staQueue f.ac (if psta ∈ ring then ring else ring ++ [psta])
    accnt := Function.update s.accnt f.ac (s.accnt f.ac + 1) }
  s.setServq psta f.ac ⟨servq.qcnt + 1, servq.staPending ++ [f]⟩

/-- `rtw_xmit_classifier`, if it returns `_SUCCESS`. -/
def xmitClassifier (s : TxState S) (f : XmitFrame S) : Option (TxState S) :=
  let psta := s.getStainfo f.attrib.ra
  if f.psta ≠ psta then none
  else
    match psta with
    | none => none
    | some psta => if (s.sta psta).linked then some (s.insertTail psta f) else none

/-- `rtl8812au_hal_xmitframe_enqueue`: a frame that is not taken is freed. -/
def halXmitframeEnqueue (s : TxState S) (f : XmitFrame S) : TxState S := (s.xmitClassifier f).getD (s.leave f)

/-- Some frames are taken out of a queue, `left` are left. -/
def takePending (s : TxState S) (psta : S) (ac : Ac) (left : List (XmitFrame S)) (n : Nat) : TxState S :=
  let s := { s with accnt := Function.update s.accnt ac (s.accnt ac - n) }
  s.setServq psta ac ⟨(s.servq psta ac).qcnt - n, left⟩

/-- The inner loop of `rtw_dequeue_xframe`, over a ring. -/
def dequeueFrom (s : TxState S) (ac : Ac) : List S → Option (XmitFrame S × TxState S)
  | [] => none
  | psta :: ring =>
      match s.pending psta ac with
      | [] => dequeueFrom s ac ring
      | f :: left =>
          let s := s.takePending psta ac left 1
          some (f, if left = [] then s.deleteTxPending psta ac else s)

/-- `rtw_dequeue_xframe`; `inx` is the order of the categories, which `wmm_para_seq` may change. -/
def dequeueXframe (inx : List Ac) (s : TxState S) : Option (XmitFrame S × TxState S) :=
  inx.findSome? fun ac => s.dequeueFrom ac (s.staQueue ac)

/-! ## Sleep -/

/-- `xmitframe_enqueue_for_sleeping_sta`, if it returns `_TRUE`. -/
def enqueueForSleepingSta (s : TxState S) (f : XmitFrame S) : Option (TxState S) :=
  let psta := s.getStainfo f.attrib.ra
  if f.psta ≠ psta then none
  else
    match psta with
    | none => none
    | some psta =>
        let sta := s.sta psta
        if sta.linked = false then none
        else if f.triggered then none
        else if isMcast f.attrib.ra then
          if s.staDzBitmap = 0 then none
          else
            let s := s.setSta psta { sta with sleepQ := sta.sleepQ ++ [f], sleepqLen := sta.sleepqLen + 1 }
            some { s with timBitmap := s.timBitmap ||| s.bit 0, staDzBitmap := s.staDzBitmap ||| s.bit 0 }
        else if sta.sleeping = false then none
        else if s.staDzBitmap &&& s.bit sta.aid = 0 then none
        else
          let wmmpsAc := sta.uapsd f.ac &&& 1 != 0
          let s := s.setSta psta { sta with
            sleepQ := sta.sleepQ ++ [f]
            sleepqLen := sta.sleepqLen + 1
            sleepqAcLen := if wmmpsAc then sta.sleepqAcLen + 1 else sta.sleepqAcLen }
          some (if (sta.hasLegacyAc && !wmmpsAc) || (!sta.hasLegacyAc && wmmpsAc)
            then { s with timBitmap := s.timBitmap ||| s.bit sta.aid } else s)

/-- The loop of `dequeue_xmitframes_to_sleeping_queue`: the frames that stay where they are. -/
def toSleepingLoop (s : TxState S) (psta : S) : List (XmitFrame S) → TxState S × List (XmitFrame S)
  | [] => (s, [])
  | f :: later =>
      let f := { f with triggered := false }
      match s.enqueueForSleepingSta f with
      | some s =>
          let servq := s.servq psta f.ac
          let s := { s with accnt := Function.update s.accnt f.ac (s.accnt f.ac - 1) }
          toSleepingLoop (s.setServq psta f.ac ⟨servq.qcnt - 1, servq.staPending⟩) psta later
      | none =>
          let (s, stay) := toSleepingLoop s psta later
          (s, f :: stay)

/-- `dequeue_xmitframes_to_sleeping_queue`. -/
def dequeueToSleepingQueue (s : TxState S) (psta : S) (ac : Ac) : TxState S :=
  let (s, stay) := s.toSleepingLoop psta (s.pending psta ac)
  s.setServq psta ac ⟨(s.servq psta ac).qcnt, stay⟩

/-- `stop_sta_xmit`. -/
def stopStaXmit (s : TxState S) (psta : S) : TxState S :=
  let s := s.setSta psta { s.sta psta with sleeping := true }
  let s := { s with staDzBitmap := s.staDzBitmap ||| s.bit (s.sta psta).aid }
  let s := (s.dequeueToSleepingQueue psta .vo).deleteTxPending psta .vo
  let s := (s.dequeueToSleepingQueue psta .vi).deleteTxPending psta .vi
  let s := (s.dequeueToSleepingQueue psta .be).deleteTxPending psta .be
  let s := (s.dequeueToSleepingQueue psta .bk).deleteTxPending psta .bk
  match s.getBcmcStainfo with
  | some bmc => (s.dequeueToSleepingQueue bmc .be).deleteTxPending bmc .be
  -- an access point always has the record for groups
  | none => s

/-! ## Delivery -/

/-- The loop of `wakeup_sta_to_xmit` over `sleep_q`; the group's record has no U-APSD flags. -/
def wakeupLoop (s : TxState S) (psta : S) : List (XmitFrame S) → TxState S
  | [] => s
  | f :: later =>
      let sta := s.sta psta
      let wmmpsAc := sta.uapsd f.ac &&& 2 != 0
      let len := sta.sleepqLen - 1
      let acLen := if wmmpsAc then sta.sleepqAcLen - 1 else sta.sleepqAcLen
      let f := if wmmpsAc then f.trigger (0 < acLen) (acLen = 0) else f.trigger (0 < len) f.attrib.eosp
      let s := s.setSta psta { sta with sleepQ := later, sleepqLen := len, sleepqAcLen := acLen }
      wakeupLoop (s.halXmitframeEnqueue f) psta later

/-- The loop of `wakeup_sta_to_xmit` over the group's `sleep_q`. -/
def wakeupBmcLoop (s : TxState S) (bmc : S) : List (XmitFrame S) → TxState S
  | [] => s
  | f :: later =>
      let len := (s.sta bmc).sleepqLen - 1
      let s := s.setSta bmc { s.sta bmc with sleepQ := later, sleepqLen := len }
      wakeupBmcLoop (s.halXmitframeEnqueue (f.trigger (0 < len) f.attrib.eosp)) bmc later

/-- `wakeup_sta_to_xmit` for the frames of the station. -/
def wakeupSta (s : TxState S) (psta : S) : TxState S :=
  let s := s.wakeupLoop psta (s.sta psta).sleepQ
  let sta := s.sta psta
  if sta.sleepqLen = 0 then
    let s := s.setSta psta { sta with sleeping := false }
    { s with
      timBitmap := s.timBitmap &&& ~~~s.bit sta.aid
      staDzBitmap := s.staDzBitmap &&& ~~~s.bit sta.aid }
  else s

/-- `wakeup_sta_to_xmit` for groups. -/
def wakeupBmc (s : TxState S) : TxState S :=
  match s.getBcmcStainfo with
  | none => s
  | some bmc =>
      -- nobody is in power save
      if s.staDzBitmap &&& 0xfffe = 0 then
        let s := s.wakeupBmcLoop bmc (s.sta bmc).sleepQ
        if (s.sta bmc).sleepqLen = 0 then
          { s with timBitmap := s.timBitmap &&& ~~~s.bit 0, staDzBitmap := s.staDzBitmap &&& ~~~s.bit 0 }
        else s
      else s

/-- `wakeup_sta_to_xmit`. -/
def wakeupStaToXmit (s : TxState S) (psta : S) : TxState S := (s.wakeupSta psta).wakeupBmc

/-- The loop of `xmit_delivery_enabled_frames`; `stay` are the frames it has passed by. -/
def deliveryLoop (s : TxState S) (psta : S) (stay : List (XmitFrame S)) : List (XmitFrame S) → TxState S
  | [] => s
  | f :: later =>
      let sta := s.sta psta
      if sta.uapsd f.ac &&& 2 = 0 then deliveryLoop s psta (stay ++ [f]) later
      else
        let acLen := sta.sleepqAcLen - 1
        let s := s.setSta psta { sta with
          sleepQ := stay ++ later, sleepqLen := sta.sleepqLen - 1, sleepqAcLen := acLen }
        let s := s.halXmitframeEnqueue (f.trigger (0 < acLen) (acLen = 0))
        let s :=
          if acLen = 0 ∧ sta.hasLegacyAc = false then { s with timBitmap := s.timBitmap &&& ~~~s.bit sta.aid }
          else s
        deliveryLoop s psta stay later

/-- `xmit_delivery_enabled_frames`. -/
def xmitDeliveryEnabledFrames (s : TxState S) (psta : S) : TxState S :=
  s.deliveryLoop psta [] (s.sta psta).sleepQ

/-- `process_wmmps_data`: a received frame of some priority may be a trigger. -/
def processWmmpsData (s : TxState S) (psta : S) (priority : UInt8) : TxState S :=
  let sta := s.sta psta
  if sta.qosOption ∧ sta.qosInfo &&& 0xf ≠ 0 ∧ sta.sleeping ∧ sta.uapsd (acOf priority) &&& 2 ≠ 0 ∧
      0 < sta.sleepqAcLen
    then s.xmitDeliveryEnabledFrames psta else s

/-- `validate_recv_ctrl_frame` for a PS-Poll. -/
def validateRecvPspoll (s : TxState S) (psta : S) (priority : UInt8) (aid : Nat) : TxState S :=
  let sta := s.sta psta
  if sta.aid ≠ aid then s
  else if sta.uapsd (acOf priority) &&& 1 ≠ 0 then s
  else if sta.sleeping ∧ s.staDzBitmap &&& s.bit sta.aid ≠ 0 then
    match sta.sleepQ with
    | f :: later =>
        let len := sta.sleepqLen - 1
        let s := s.setSta psta { sta with sleepQ := later, sleepqLen := len }
        let s := s.halXmitframeEnqueue (f.trigger (0 < len) f.attrib.eosp)
        if len = 0 then { s with timBitmap := s.timBitmap &&& ~~~s.bit sta.aid } else s
    | [] =>
        if s.timBitmap &&& s.bit sta.aid = 0 then s
        else
          let s := s.setSta psta { sta with sleepqLen := 0 }
          { s with timBitmap := s.timBitmap &&& ~~~s.bit sta.aid }
  else s

/-! ## Stations come and go -/

/-- `rtw_ap_parse_sta_wmm_ie`; `wmm` is the QoS info of the WMM element, if there is one and the access
point has QoS. -/
def parseStaWmmIe (sta : Sta S) (wmm : Option UInt8) : Sta S :=
  match wmm with
  | none => { sta with qosOption := false, qosInfo := 0, hasLegacyAc := true, uapsd := fun _ => 0 }
  | some info =>
      let flag (b : UInt8) : UInt8 := if info &&& b ≠ 0 then 3 else 0
      { sta with
        qosOption := true
        qosInfo := info
        hasLegacyAc := info &&& 0xf != 0xf
        uapsd := fun
          | .vo => flag 1
          | .vi => flag 2
          | .bk => flag 4
          | .be => flag 8 }

/-- `rtw_free_stainfo`. -/
def freeStainfo (s : TxState S) (psta : S) : TxState S :=
  let sta := s.sta psta
  let dropped := sta.sleepQ ++ s.pending psta .vo ++ s.pending psta .vi ++ s.pending psta .be ++ s.pending psta .bk
  let s := { s with
    hash := fun a => if s.hash a = some psta then none else s.hash a
    staQueue := fun ac => (s.staQueue ac).erase psta
    accnt := fun ac => s.accnt ac - (s.servq psta ac).qcnt
    gone := dropped.map XmitFrame.id ++ s.gone }
  let sta := { sta with
    linked := false, sleepQ := [], sleepqLen := 0, servq := fun _ => ⟨0, []⟩, sleepqAcLen := 0, qosInfo := 0,
    uapsd := fun _ => 0, hasLegacyAc := false }
  -- an association id out of bounds keeps its bits
  if 31 < sta.aid then s.setSta psta sta
  else
    let s := { s with
      staDzBitmap := s.staDzBitmap &&& ~~~s.bit sta.aid
      timBitmap := s.timBitmap &&& ~~~s.bit sta.aid }
    -- the table of association ids has the station
    s.setSta psta { sta with aid := 0 }

/-- `rtw_xmit` for a frame with its attributes: it is buffered, or goes to the device at once, or into a
queue. -/
def xmit (s : TxState S) (f : XmitFrame S) (direct : Bool) : TxState S :=
  match s.enqueueForSleepingSta f with
  | some s => s
  | none => if direct then s.leave f else s.halXmitframeEnqueue f

end TxState

end Vmac.Transmit
