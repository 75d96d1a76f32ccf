/-
# Vmac.Recv.Pool -- receive-frame descriptors: rtw_recv.c, rtw_sta_mgt.c

The 256 descriptors of `recv_priv` are intrusive list nodes.  A received frame takes one
from the free queue and carries it through validation, defragmentation, reordering and
indication; each of these frees, queues or hands on what it is given.  `Outcomes` holds
what the frame's bytes and the rest of the driver decide.

Left out: MP mode, concurrent mode and 802.11w (not built), the bodies of frames, the
counters of `recv_priv`, the subframes of an A-MSDU, and `mgt_dispatcher`, which reads
the frame only.
-/
import Vmac.Recv.Reorder
import Vmac.Theory.Bytes
import Vmac.Theory.Placement

namespace Vmac.Recv

open Theory.Placement

set_option autoImplicit false

/-- A `union recv_frame`, by its index in `precv_frame_buf`. -/
abbrev Desc := Nat

/-- `NR_RECVFRAME`. -/
def nrRecvframe : Nat := 256

/-- A `_queue` of receive frames. -/
inductive Place where
  | free
  /-- `uc_swdec_pending_queue`: unicast frames that wait for the pairwise key. -/
  | ucSwdec
  /-- `sta_recvpriv.defrag_q` of a `sta_info` record. -/
  | defrag (sta : Nat)
  /-- `recvreorder_ctrl[tid].pending_recvframe_queue`. -/
  | pending (sta : Nat) (tid : Fin 16)
  deriving DecidableEq, Repr

inductive FrameType where
  | mgnt
  | ctrl
  | data
  | other
  deriving DecidableEq, Repr

/-- `rx_pkt_attrib`: what the pool code reads of a frame's header. -/
structure RxPktAttrib where
  ver : Nat
  type : FrameType
  mfrag : Bool
  fragNum : Fin 16
  seqNum : Nat
  privacy : Bool
  qos : Bool
  priority : Fin 16
  amsdu : Bool
  /-- `IS_MCAST(ra)`. -/
  mcast : Bool
  deriving DecidableEq, Repr

/-- `recv_frame_hdr`. -/
structure RecvFrameHdr where
  /-- The `sk_buff`, by the order of allocation. -/
  pkt : Option Nat
  attrib : RxPktAttrib
  preorderCtrl : Option (Nat × Fin 16)
  deriving DecidableEq, Repr

/-- What is counted. -/
inductive PoolEvent where
  | take (d : Desc)
  | put (d : Desc)
  | skbFree (k : Nat)
  | skbUp (k : Nat)
  deriving DecidableEq, Repr

structure Pool where
  queue : Queues Place Desc
  freeRecvframeCnt : Nat
  hdr : Desc → RecvFrameHdr
  /-- The rest of `recvreorder_ctrl`; its queue is in `queue`. -/
  reorderCtrl : Nat → Fin 16 → ReorderCtrl
  /-- The `sta_info` records in `sta_hash`. -/
  hashed : Nat → Bool
  nextSkb : Nat
  log : List PoolEvent

/-- What `validate_recv_data_frame` makes of a frame. -/
inductive DataCheck where
  | fail
  | handled
  | success (sta : Nat)
  deriving DecidableEq, Repr

/-- What is decided outside the pool, for one step. -/
structure Outcomes where
  /-- `WIFI_MONITOR_STATE`. -/
  monitor : Bool
  /-- `WIFI_STATION_STATE`. -/
  station : Bool
  busetkipkey : Bool
  /-- `ndisauthtype == Ndis802_11AuthModeWPAPSK`. -/
  wpaPsk : Bool
  /-- `skb_headroom` is not below the length of the radiotap header. -/
  headroom : Bool
  /-- `skb_realloc_headroom` returns a buffer. -/
  realloc : Bool
  isVmac : Bool
  /-- `RTW_CANNOT_RUN`. -/
  cannotRun : Desc → Bool
  /-- The record under the transmitter's address. -/
  stainfo : Desc → Option Nat
  dataCheck : Desc → DataCheck
  /-- The frame is encrypted and software has to decrypt it. -/
  swdec : Desc → Bool
  decrypt : Desc → Bool
  chkmic : Desc → Bool
  portctrl : Desc → Bool
  wlanhdrToEthhdr : Desc → Bool
  indicatepktCheck : Desc → Bool

namespace Pool

/-! ## Queues -/

def setHdr (s : Pool) (d : Desc) (hdr : RecvFrameHdr) : Pool :=
  { s with hdr := Function.update s.hdr d hdr }

/-- `rtw_os_free_recvframe` frees the `sk_buff`, indication hands it up. -/
def settle (event : Nat → PoolEvent) (s : Pool) (d : Desc) : Pool :=
  match (s.hdr d).pkt with
  | none => s
  | some k =>
      let s := s.setHdr d { s.hdr d with pkt := none }
      { s with log := event k :: s.log }

/-- `rtw_os_free_recvframe`. -/
def rtwOsFreeRecvframe (s : Pool) (d : Desc) : Pool := s.settle .skbFree d

/-- `rtw_list_delete`. -/
def rtwListDelete (s : Pool) (d : Desc) : Pool := { s with queue := unlink d s.queue }

/-- `rtw_list_insert_tail`. -/
def rtwListInsertTail (s : Pool) (p : Place) (d : Desc) : Pool :=
  { s with queue := append p d s.queue }

/-- `rtw_free_recvframe`. -/
def rtwFreeRecvframe (s : Pool) (d : Desc) : Pool :=
  let s := ((s.rtwOsFreeRecvframe d).rtwListDelete d).rtwListInsertTail .free d
  { s with freeRecvframeCnt := s.freeRecvframeCnt + 1, log := .put d :: s.log }

/-- `rtw_alloc_recvframe`. -/
def rtwAllocRecvframe (s : Pool) (p : Place) : Option Desc × Pool :=
  match s.queue p with
  | [] => (none, s)
  | d :: _ =>
      let s := s.rtwListDelete d
      if p = .free then
        (some d, { s with freeRecvframeCnt := s.freeRecvframeCnt - 1, log := .take d :: s.log })
      else (some d, s)

/-- `rtw_enqueue_recvframe`, into another queue than the free queue. -/
def rtwEnqueueRecvframe (s : Pool) (d : Desc) (p : Place) : Pool :=
  (s.rtwListDelete d).rtwListInsertTail p d

/-- `rtw_free_recvframe_queue`. -/
def rtwFreeRecvframeQueue (s : Pool) (p : Place) : Pool :=
  (s.queue p).foldl rtwFreeRecvframe s

/-! ## Defragmentation -/

/-- The fragment numbers count up from `curfragnum`. -/
def fragsInOrder (hdr : Desc → RecvFrameHdr) (curfragnum : Nat) : List Desc → Bool
  | [] => true
  | d :: rest => (hdr d).attrib.fragNum.val == curfragnum && fragsInOrder hdr (curfragnum + 1) rest

/-- `recvframe_defrag`. -/
def recvframeDefrag (s : Pool) (p : Place) : Option Desc × Pool :=
  match s.queue p with
  | [] => (none, s)
  | first :: rest =>
      let t := s.rtwListDelete first
      if fragsInOrder s.hdr 0 (first :: rest) then (some first, t.rtwFreeRecvframeQueue p)
      else (none, (t.rtwFreeRecvframe first).rtwFreeRecvframeQueue p)

/-- The record of the broadcast address: it is always in the hash. -/
def bcmcSta : Nat := 0

/-- `rtw_get_stainfo`. -/
def rtwGetStainfo (o : Outcomes) (s : Pool) (d : Desc) : Option Nat :=
  (o.stainfo d).filter s.hashed

/-- `pdefrag_q` of `recvframe_chk_defrag`. -/
def defragQ (o : Outcomes) (s : Pool) (d : Desc) : Option Place :=
  match rtwGetStainfo o s d with
  | some sta => some (.defrag sta)
  | none => if (s.hdr d).attrib.type = .data then none else some (.defrag bcmcSta)

/-- The end of `recvframe_chk_defrag`: the MIC of what is returned. -/
def checkMic (o : Outcomes) : Option Desc × Pool → Option Desc × Pool
  | (some d, s) =>
      if (s.hdr d).attrib.privacy && !o.chkmic d then (none, s.rtwFreeRecvframe d) else (some d, s)
  | (none, s) => (none, s)

/-- `recvframe_chk_defrag`. -/
def recvframeChkDefrag (o : Outcomes) (s : Pool) (d : Desc) : Option Desc × Pool :=
  let a := (s.hdr d).attrib
  if a.mfrag then
    match defragQ o s d with
    | some p =>
        let s := if a.fragNum = 0 then s.rtwFreeRecvframeQueue p else s
        (none, s.rtwListInsertTail p d)
    | none => (none, s.rtwFreeRecvframe d)
  else if a.fragNum = 0 then checkMic o (some d, s)
  else
    match defragQ o s d with
    | some p => checkMic o ((s.rtwListInsertTail p d).recvframeDefrag p)
    | none => (none, s.rtwFreeRecvframe d)

/-! ## Indication -/

/-- `rtw_recv_indicatepkt`. -/
def rtwRecvIndicatepkt (s : Pool) (d : Desc) : Pool × Ret :=
  match (s.hdr d).pkt with
  | none => (s.rtwFreeRecvframe d, .fail)
  | some _ => ((s.settle .skbUp d).rtwFreeRecvframe d, .success)

/-- `recv_process_mpdu`; `amsdu_to_msdu` copies the subframes and frees the frame. -/
def recvProcessMpdu (o : Outcomes) (s : Pool) (d : Desc) : Pool × Ret :=
  if (s.hdr d).attrib.amsdu then (s.rtwFreeRecvframe d, .success)
  else if !o.wlanhdrToEthhdr d then (s.rtwFreeRecvframe d, .fail)
  else if o.cannotRun d then (s.rtwFreeRecvframe d, .success)
  else if !o.indicatepktCheck d then (s.rtwFreeRecvframe d, .fail)
  else s.rtwRecvIndicatepkt d

/-- What the reorder code reads of a descriptor. -/
def recvFrame (s : Pool) (d : Desc) : RecvFrame :=
  ⟨d, (s.hdr d).attrib.qos, (s.hdr d).attrib.seqNum⟩

/-- `recvreorder_ctrl[tid]`, with its queue. -/
def recvreorderCtrl (s : Pool) (sta : Nat) (tid : Fin 16) : ReorderCtrl :=
  { s.reorderCtrl sta tid with
    pendingRecvframeQueue := (s.queue (.pending sta tid)).map s.recvFrame }

def setReorderCtrl (s : Pool) (sta : Nat) (tid : Fin 16) (c : ReorderCtrl) : Pool :=
  { s with
    queue := Function.update s.queue (.pending sta tid) (c.pendingRecvframeQueue.map RecvFrame.desc)
    reorderCtrl := fun sta' tid' => if sta' = sta ∧ tid' = tid then c else s.reorderCtrl sta' tid' }

/-- `recv_process_mpdu` on the frames that the reorder buffer hands on; each has left the
queue, and processing it touches no pending queue. -/
def processHanded (o : Outcomes) (s : Pool) (handed : List RecvFrame) : Pool :=
  handed.foldl (fun s frame => (recvProcessMpdu o s frame.desc).1) s


/-- `recv_indicatepkt_reorder`. -/
def recvIndicatepktReorder (o : Outcomes) (s : Pool) (d : Desc) : Pool × Ret :=
  match (s.hdr d).preorderCtrl with
  | none => (s, .success)
  | some (sta, tid) =>
      match Recv.recvIndicatepktReorder (s.recvreorderCtrl sta tid) (s.recvFrame d) with
      | (c, handed, .handled) =>
          (processHanded o ((s.rtwListDelete d).setReorderCtrl sta tid c) handed, .handled)
      | (c, _, ret) => (s.setReorderCtrl sta tid c, ret)

/-- `recv_set_iseq_before_mpdu_process` and `recv_set_iseq_after_mpdu_process`. -/
def recvSetIseq (s : Pool) (d : Desc) (iseq : Nat → Nat) : Pool :=
  match (s.hdr d).preorderCtrl with
  | none => s
  | some (sta, tid) =>
      let c := s.recvreorderCtrl sta tid
      s.setReorderCtrl sta tid { c with indicateSeq := iseq c.indicateSeq }

/-! ## recv_func -/

/-- `recv_func_posthandle`. -/
def recvFuncPosthandle (o : Outcomes) (s : Pool) (orig : Desc) : Pool :=
  if !o.decrypt orig then s.rtwFreeRecvframe orig
  else
    match recvframeChkDefrag o s orig with
    | (none, s) => s
    | (some d, s) =>
        if !o.portctrl d then s.rtwFreeRecvframe d
        else
          match recvIndicatepktReorder o s d with
          | (s, .fail) => s.rtwFreeRecvframe orig
          | (s, .handled) => s
          | (s, .success) =>
              let seqNum := (s.hdr orig).attrib.seqNum
              let s := s.recvSetIseq d (fun _ => seqNum)
              let s := (recvProcessMpdu o s d).1
              s.recvSetIseq d (fun i => (i + 1) % 4096)

/-- `validate_recv_data_frame`. -/
def validateRecvDataFrame (o : Outcomes) (s : Pool) (d : Desc) : Pool × Ret :=
  match o.dataCheck d with
  | .fail => (s, .fail)
  | .handled => (s, .handled)
  | .success sta =>
      let a := (s.hdr d).attrib
      let a := { a with
        amsdu := a.qos && a.amsdu
        priority := if a.qos then a.priority else 0 }
      let preorderCtrl := if a.mcast then none else some (sta, a.priority)
      (s.setHdr d { s.hdr d with attrib := a, preorderCtrl := preorderCtrl }, .success)

/-- `validate_recv_frame`. -/
def validateRecvFrame (o : Outcomes) (s : Pool) (d : Desc) (frame : RxPktAttrib) : Pool × Ret :=
  if frame.ver ≠ 0 then (s, .fail)
  else
    let s := s.setHdr d { s.hdr d with attrib := frame }
    match frame.type with
    -- only data frames return success
    | .mgnt => ((recvframeChkDefrag o s d).2, .fail)
    | .ctrl => (s, .fail)
    | .data => validateRecvDataFrame o s d
    | .other => (s, .fail)

/-- `recv_func_prehandle`. -/
def recvFuncPrehandle (o : Outcomes) (s : Pool) (d : Desc) (frame : RxPktAttrib) : Pool × Ret :=
  match validateRecvFrame o s d frame with
  | (s, .success) => (s, .success)
  | (s, ret) => (s.rtwFreeRecvframe d, ret)

/-- A new `sk_buff` in the frame. -/
def newSkb (s : Pool) (d : Desc) : Pool :=
  let t := s.setHdr d { s.hdr d with pkt := some s.nextSkb }
  { t with nextSkb := s.nextSkb + 1 }

/-- `fill_radiotap_hdr`: whether the header is there. -/
def fillRadiotapHdr (o : Outcomes) (s : Pool) (d : Desc) : Pool × Bool :=
  if o.headroom then (s, true)
  else if o.realloc then (s.newSkb d, true)
  else (s, false)

/-- `vmac_override`; a V-MAC frame goes up to `vmac_rx`. -/
def vmacOverride (o : Outcomes) (s : Pool) (d : Desc) : Pool × Ret :=
  match (s.hdr d).pkt with
  | none => (s.rtwFreeRecvframe d, .fail)
  | some _ => ((s.settle (if o.isVmac then .skbUp else .skbFree) d).rtwFreeRecvframe d, .success)

/-- `recv_frame_monitor`. -/
def recvFrameMonitor (o : Outcomes) (s : Pool) (d : Desc) : Pool :=
  match fillRadiotapHdr o s d with
  | (s, false) => s.rtwFreeRecvframe d
  | (s, true) =>
      if o.cannotRun d then s.rtwFreeRecvframe d
      else
        match vmacOverride o s d with
        | (s, .success) => s
        | (s, _) => s.rtwFreeRecvframe d

/-- The loop of `recv_func` over `uc_swdec_pending_queue`; nothing in it queues a frame there. -/
def drainUcSwdec (o : Outcomes) (s : Pool) (frames : List Desc) : Pool :=
  frames.foldl (fun s d => recvFuncPosthandle o (s.rtwListDelete d) d) s

/-- `recv_func` from the validated frame on. -/
def recvFuncValidated (o : Outcomes) (s : Pool) (d : Desc) : Pool :=
  if o.station && o.swdec d && o.wpaPsk && !o.busetkipkey then
    let s := s.rtwEnqueueRecvframe d .ucSwdec
    if s.freeRecvframeCnt < nrRecvframe / 4 then
      match s.rtwAllocRecvframe .ucSwdec with
      | (some d, s) => recvFuncPosthandle o s d
      | (none, s) => s
    else s
  else recvFuncPosthandle o s d

/-- `recv_func` outside monitor mode, up to the new frame. -/
def recvFuncPending (o : Outcomes) (s : Pool) : Pool :=
  if o.station && o.busetkipkey then drainUcSwdec o s (s.queue .ucSwdec) else s

/-- `recv_func`. -/
def recvFunc (o : Outcomes) (s : Pool) (d : Desc) (frame : RxPktAttrib) : Pool :=
  if o.monitor then recvFrameMonitor o s d
  else
    match recvFuncPrehandle o (recvFuncPending o s) d frame with
    | (s, .success) => recvFuncValidated o s d
    | (s, _) => s

end Pool

/-! ## Steps -/

/-- A packet from the USB buffer. -/
structure Arrival where
  frame : RxPktAttrib
  /-- `crc_err`, `icv_err`, or a length that does not fit the transfer. -/
  bad : Bool
  /-- `rtw_os_alloc_recvframe` has a buffer. -/
  skb : Bool
  /-- `NORMAL_RX`; other packets are reports. -/
  normalRx : Bool
  /-- A group data frame that the adapter does not take. -/
  bmcSkip : Bool
  deriving DecidableEq, Repr

namespace Pool

/-- `recvbuf2recvframe`, one packet. -/
def recvbuf2recvframe (o : Outcomes) (s : Pool) (packet : Arrival) : Pool :=
  match s.rtwAllocRecvframe .free with
  | (none, s) => s
  | (some d, s) =>
      if packet.bad || !packet.skb then s.rtwFreeRecvframe d
      else
        let s := s.newSkb d
        if !packet.normalRx || packet.bmcSkip then s.rtwFreeRecvframe d
        else recvFunc o s d packet.frame

/-- `rtw_free_stainfo`: `defrag_q` is left as it is. -/
def rtwFreeStainfo (s : Pool) (sta : Nat) : Pool :=
  let s := { s with
    hashed := Function.update s.hashed sta false
    reorderCtrl := fun sta' tid =>
      if sta' = sta then { s.reorderCtrl sta' tid with reorderingCtrlTimer := false }
      else s.reorderCtrl sta' tid }
  (List.finRange 16).foldl (fun s tid => s.rtwFreeRecvframeQueue (.pending sta tid)) s

/-- The `recvreorder_ctrl` of a new station. -/
def newReorderCtrl : ReorderCtrl :=
  { enable := false, indicateSeq := 0xffff, wsizeB := 64, pendingRecvframeQueue := [],
    reorderingCtrlTimer := false, bReorderWaiting := false }

/-- The queues in a `sta_info` record. -/
def ofSta (sta : Nat) : Place → Bool
  | .defrag sta' => sta' == sta
  | .pending sta' _ => sta' == sta
  | _ => false

/-- `rtw_alloc_stainfo`: the record is initialised, its queues with it. -/
def rtwAllocStainfo (s : Pool) (sta : Nat) : Pool :=
  if s.hashed sta then s
  else
    { s with
      queue := fun p => if ofSta sta p then [] else s.queue p
      reorderCtrl := fun sta' tid => if sta' = sta then newReorderCtrl else s.reorderCtrl sta' tid
      hashed := Function.update s.hashed sta true }

/-- `rtw_reordering_ctrl_timeout_handler`. -/
def rtwReorderingCtrlTimeoutHandler (o : Outcomes) (cannotRun : Bool) (s : Pool) (sta : Nat)
    (tid : Fin 16) : Pool :=
  if (s.reorderCtrl sta tid).reorderingCtrlTimer then
    let r := Recv.rtwReorderingCtrlTimeoutHandler cannotRun (s.recvreorderCtrl sta tid)
    processHanded o (s.setReorderCtrl sta tid r.1) r.2
  else s

end Pool

inductive PoolStep where
  | recv (o : Outcomes) (packet : Arrival)
  | freeStainfo (sta : Nat)
  | allocStainfo (sta : Nat)
  /-- A block-ack agreement begins or ends. -/
  | agreement (sta : Nat) (tid : Fin 16) (enable : Bool) (indicateSeq wsizeB : Nat)
  | reorderTimeout (o : Outcomes) (cannotRun : Bool) (sta : Nat) (tid : Fin 16)
  /-- `rtw_free_uc_swdec_pending_queue`. -/
  | freeUcSwdec

namespace Pool

def step (s : Pool) : PoolStep → Pool
  | .recv o packet => recvbuf2recvframe o s packet
  | .freeStainfo sta => s.rtwFreeStainfo sta
  | .allocStainfo sta => s.rtwAllocStainfo sta
  | .agreement sta tid enable indicateSeq wsizeB =>
      { s with reorderCtrl := fun sta' tid' =>
          let c := s.reorderCtrl sta' tid'
          if sta' = sta ∧ tid' = tid then
            { c with enable := enable, indicateSeq := indicateSeq, wsizeB := wsizeB }
          else c }
  | .reorderTimeout o cannotRun sta tid => rtwReorderingCtrlTimeoutHandler o cannotRun s sta tid
  | .freeUcSwdec => s.rtwFreeRecvframeQueue .ucSwdec

/-- `_rtw_init_recv_priv` and `_rtw_init_sta_priv`. -/
def init : Pool where
  queue := fun p => if p = .free then List.range nrRecvframe else []
  freeRecvframeCnt := nrRecvframe
  hdr := fun _ => ⟨none, ⟨0, .other, false, 0, 0, false, false, 0, false, false⟩, none⟩
  reorderCtrl := fun _ _ => newReorderCtrl
  hashed := fun sta => sta == bcmcSta
  nextSkb := 0
  log := []

def run (s : Pool) (steps : List PoolStep) : Pool := steps.foldl step s

end Pool

end Vmac.Recv
