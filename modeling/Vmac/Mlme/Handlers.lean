/-
# Vmac.Mlme.Handlers -- what the handlers of management frames read and copy: rtw_mlme_ext.c, rtw_wlan_util.c, rtw_vht.c

`OnAuth`, `OnAuthClient`, `OnAssocRsp` and `OnBeacon`, each as the bytes that it reads of the received frame and that it
writes to a buffer of fixed size, in the order of the source.  What else the handlers do is left out where it decides
about none of them; `OnAuth` itself is in `Vmac.Ap.Association`.
-/
import Vmac.Theory.Action
import Vmac.Ie.Attr
import Vmac.Ie.Search

namespace Vmac.Mlme

open Theory.Bytes Theory.Walk Theory.Action Security Ie
open Ap (AuthFrame ApConfig AccessPoint StaInfo authMode badAlg isOpen wifiFwAuthState wifiFwAuthSuccess
  wifiFwAssocState wifiFwAssocSuccess wifiFwAuthNull)
open Transmit (MacAddr)

set_option autoImplicit false

/-! ## Frames and accesses -/

/-- A received management frame from `rx_data` on; it lies in one receive buffer. -/
structure MgntFrame where
  mem : Mem
  len : Nat
  small : len ≤ maxRecvbufSz

namespace MgntFrame

variable (f : MgntFrame)

def auth : AuthFrame := ⟨f.mem, f.len⟩

/-- Where `get_da` points to. -/
def da : Nat := if f.mem 1 &&& 0x01 ≠ 0 then 16 else 4

def addr (p : Nat) : MacAddr := fun i => f.mem (p + i)

def le16 (p : Nat) : Nat := ofLe (bytesAt f.mem p 2)

/-- `offset`: what the IV takes up. -/
def offset : Nat := if f.auth.privacy then 4 else 0

end MgntFrame

/-- The buffers that elements are copied to: `pmlmeinfo->chg_txt`, `rate_set` and `psta->bssrateset`. -/
inductive Target
  | chgTxt
  | rateSet
  | bssrateset
  deriving DecidableEq, Repr

def Target.size : Target → Nat
  | .chgTxt => 128
  | .rateSet | .bssrateset => 16

/-- A byte of the frame that is read, one of a buffer that is written, or what `rtw_wep_decrypt` touches. -/
inductive Access
  | read (index : Nat)
  | write (target : Target) (index : Nat)
  | decrypt (t : Touch)
  deriving DecidableEq, Repr

/-- For a frame of `len` bytes. -/
def Access.Inside (len : Nat) : Access → Prop
  | .read index => index < len
  | .write target index => index < target.size
  | .decrypt t => t.Inside len

abbrev Handler : Type → Type := Act Access

/-- `n` bytes of the frame are read. -/
def look (start n : Nat) : Handler Unit := .touch ((List.range n).map fun k => .read (start + k))

def lookIf (c : Bool) (start n : Nat) : Handler Unit := if c then look start n else pure ()

/-- `n` bytes of a buffer are written. -/
def store (target : Target) (start n : Nat) : Handler Unit := .touch ((List.range n).map fun k => .write target (start + k))

/-- `_rtw_memcpy` from the frame. -/
def memcpy (target : Target) (start src n : Nat) : Handler Unit := do
  look src n
  store target start n

/-- `rtw_get_ie`; the pointer that is returned counts from `rx_data`. -/
def rtwGetIe (m : Mem) (pbuf : Nat) (index : UInt8) (limit : Int) : Handler (Option Nat) :=
  if limit < 1 then pure none
  else do
    let p ← .ofLoop ((getIeLoop (fromPtr m pbuf) index.toNat limit).shift fun a => .read (pbuf + a)) (0, 0)
    pure (p.map (pbuf + ·))

/-! ## `OnAuth` -/

/-- The record of the sender: it is found, or allocated with `auth_seq` 0. -/
def authRecord (cfg : ApConfig) (a : AccessPoint) (sa : MacAddr) : Option StaInfo :=
  match a.stapriv.getStainfo sa with
  | some r => some (a.sta r)
  | none =>
    match a.stapriv.allocStainfo cfg.pnetdev sa with
    | (stapriv, some r) => some { stapriv.stainfo r with authSeq := 0 }
    | (_, none) => none

/-- The checks before "checking for challenging txt..." let the frame through. -/
def challenged (cfg : ApConfig) (a : AccessPoint) (g : AuthFrame) : Bool :=
  !badAlg (authMode cfg) g && cfg.accessCtrl g.sa &&
    match authRecord cfg a g.sa with
    | none => false
    | some pstat => pstat.authSeq + 1 == g.seq && !isOpen (authMode cfg) g && g.seq == 3

def onAuth (cfg : ApConfig) (a : AccessPoint) (f : MgntFrame) : Handler Unit :=
  if a.isAp then do
    look 0 2
    if f.auth.privacy then do
      look (24 + 3) 1
      .touch ((wepTouches f.auth.rx).map .decrypt)
    else pure ()
    look (24 + f.offset) 4
    look 10 6
    let g := f.auth.opened cfg.keys
    if challenged cfg a g then do
      -- the IV is skipped whether or not there is one
      let p ← rtwGetIe g.mem (24 + 4 + 6) 16 (f.len - 24 - 6 - 4)
      match p with
      | none => pure ()
      | some p => if g.mem (p + 1) = 0 then pure () else look (p + 2) 128
    else pure ()
  else pure ()

/-! ## `OnAuthClient` -/

/-- What the handlers read of the state of a station. -/
structure Client where
  macAddr : MacAddr
  /-- `pmlmeinfo->state`. -/
  state : UInt32
  /-- `auth_algo` is `dot11AuthAlgrthm_Shared`. -/
  shared : Bool
  qosOption : Bool
  htOption : Bool
  vhtOption : Bool
  /-- `WIFI_AP_STATE` of the interface. -/
  apState : Bool
  /-- `hal_chk_wl_func(adapter, WL_FUNC_MIRACAST)`. -/
  miracast : Bool

def onAuthClient (c : Client) (f : MgntFrame) : Handler Unit := do
  look 0 2
  look f.da 6
  if f.addr f.da ≠ c.macAddr then pure ()
  else if c.state &&& wifiFwAuthState = 0 then pure ()
  else do
    look (24 + f.offset) 6
    if f.le16 (24 + f.offset + 4) ≠ 0 then pure ()
    else if f.le16 (24 + f.offset + 2) = 2 ∧ c.shared then do
      let p ← rtwGetIe f.mem (24 + 6) 16 (f.len - 24 - 6)
      match p with
      | none => pure ()
      | some p => memcpy .chgTxt 0 (p + 2) (f.mem (p + 1)).toNat
    else pure ()

/-! ## Elements -/

section Elements

variable (m : Mem) (p : Nat)

/-- `pIE->Length` of the element at `p`. -/
def ieLength : Nat := (m (p + 1)).toNat

/-- `LE_BITS_TO_…BYTE` of the `n` bytes from `pIE->data + start` on. -/
def dataBits (start n offset width : Nat) : Nat := ofLe (bytesAt m (p + 2 + start) n) >>> offset % 2 ^ width

/-- `WMM_PARA_OUI`. -/
def wmmParaOui : List UInt8 := [0x00, 0x50, 0xf2, 0x02, 0x01, 0x01]

/-- `WMM_param_handler`; it compares and copies `sizeof(struct WMM_para_element)` bytes. -/
def wmmParamHandler (qosOption : Bool) : Handler Unit := lookIf qosOption (p + 2 + 6) 18

/-- `rtw_get_wfd_attr(wfd_ie, wfd_ielen, WFD_ATTR_DEVICE_INFO, NULL, …)`. -/
def wfdDeviceInfo (ielen : Nat) : Handler Found :=
  let s : AttrSearch := .wfd ielen.toUInt32 0 false
  if s.tooShort then pure none
  else do
    look p 1
    lookIf (m p = 221) (p + 2) 4
    if s.opens (fromPtr m p) then .ofLoop ((s.loop (fromPtr m p)).shift fun a => .read (p + a)) 6
    else pure none

/-- `RTW_GET_BE16(attr_content + 2)`. -/
def wfdPort (attr : Found) : Handler Unit :=
  match attrContent 3 attr with
  | some (content, contentlen) => lookIf (contentlen != 0) (p + content + 2) 2
  | none => pure ()

/-- `rtw_process_wfd_ie`. -/
def rtwProcessWfdIe (miracast : Bool) : Handler Unit :=
  if miracast then do
    let attr ← wfdDeviceInfo m p (ieLength m p)
    wfdPort p attr
  else pure ()

/-- `ldpc_cap`, `stbc_cap` and `beamform_cap` of `htpriv` and `vhtpriv`. -/
structure Caps where
  htLdpc : UInt8
  htStbc : UInt8
  htBeamform : UInt8
  vhtLdpc : UInt8
  vhtStbc : UInt8
  vhtBeamform : UInt16
  deriving DecidableEq, Repr

def enableTx : UInt8 := 0x02
def capTx : UInt8 := 0x08
def beamformerEnable : UInt8 := 0x01
def beamformeeEnable : UInt8 := 0x02

/-- `HT_caps_handler`. -/
def htCapsHandler (c : Client) (caps : Caps) : Handler Unit :=
  if c.htOption then do
    look (p + 2) (ieLength m p)
    lookIf (!c.apState && caps.htLdpc &&& enableTx != 0) (p + 2) 1
    lookIf (caps.htStbc &&& enableTx != 0) (p + 2 + 1) 1
    lookIf (caps.htBeamform &&& beamformeeEnable != 0) (p + 2 + 21) 4
    lookIf (caps.htBeamform &&& beamformerEnable != 0) (p + 2 + 21) 4
  else pure ()

/-- The beamforming capabilities of an element: what is set if the sender takes part as beamformer and as beamformee. -/
def htBeamform (steering feedback : UInt8) (asked : UInt8 × UInt8) (caps : Caps) : UInt8 :=
  (if caps.htBeamform &&& asked.1 ≠ 0 ∧ dataBits m p 21 4 10 1 ≠ 0 then
      steering ||| UInt8.ofNat (dataBits m p 21 4 27 2) <<< 6 else 0) |||
    if caps.htBeamform &&& asked.2 ≠ 0 ∧ dataBits m p 21 4 15 2 ≠ 0 then
      feedback ||| UInt8.ofNat (dataBits m p 21 4 23 2) <<< 4 else 0

/-- What `HT_caps_handler` leaves. -/
def htCaps (c : Client) (caps : Caps) : Caps :=
  if c.htOption then
    if c.apState then
      { caps with
        htStbc := if caps.htStbc &&& enableTx ≠ 0 ∧ dataBits m p 1 1 0 2 ≠ 0 then enableTx else 0
        htBeamform :=
          htBeamform m p beamformerEnable beamformeeEnable (beamformerEnable, beamformeeEnable) caps }
    else
      { caps with
        htLdpc := if caps.htLdpc &&& enableTx ≠ 0 ∧ dataBits m p 0 1 0 1 ≠ 0 then enableTx ||| capTx else 0
        htStbc := if caps.htStbc &&& enableTx ≠ 0 ∧ dataBits m p 1 1 0 2 ≠ 0 then enableTx ||| capTx else 0
        htBeamform :=
          htBeamform m p beamformerEnable beamformeeEnable (beamformeeEnable, beamformerEnable) caps }
  else caps

/-- `HT_info_handler`. -/
def htInfoHandler (htOption : Bool) : Handler Unit :=
  lookIf (htOption && decide (ieLength m p ≤ 22)) (p + 2) (ieLength m p)

/-- The sender is a beamformee, and we are its beamformer. -/
def vhtBfee (caps : Caps) : Bool := caps.vhtBeamform &&& 0x01 != 0 && dataBits m p 1 1 4 1 != 0

/-- The sender is a beamformer, and we are its beamformee. -/
def vhtBfer (caps : Caps) : Bool := caps.vhtBeamform &&& 0x02 != 0 && dataBits m p 1 1 3 1 != 0

/-- `VHT_caps_handler`. -/
def vhtCapsHandler (vhtOption : Bool) (caps : Caps) : Handler Unit :=
  if vhtOption then do
    lookIf (caps.vhtLdpc &&& enableTx != 0) (p + 2) 1
    look (p + 2) 1
    lookIf (caps.vhtStbc &&& enableTx != 0) (p + 2 + 1) 1
    lookIf (caps.vhtBeamform &&& 0x01 != 0) (p + 2 + 1) 1
    lookIf (vhtBfee m p caps) (p + 2 + 1) 2
    lookIf (caps.vhtBeamform &&& 0x02 != 0) (p + 2 + 1) 1
    lookIf (vhtBfer m p caps) (p + 2 + 2) 2
    look (p + 2 + 2) 2
    look (p + 2 + 4) 2
  else pure ()

/-- What `VHT_caps_handler` leaves. -/
def vhtCaps (vhtOption : Bool) (caps : Caps) : Caps :=
  if vhtOption then
    { caps with
      vhtLdpc := if caps.vhtLdpc &&& enableTx ≠ 0 ∧ dataBits m p 0 1 4 1 ≠ 0 then enableTx ||| capTx else 0
      vhtStbc := if caps.vhtStbc &&& enableTx ≠ 0 ∧ dataBits m p 1 1 0 3 ≠ 0 then enableTx ||| capTx else 0
      vhtBeamform :=
        (if vhtBfee m p caps then (0x02 : UInt16) ||| UInt16.ofNat (dataBits m p 1 2 5 3) <<< 8 else 0) |||
          if vhtBfer m p caps then (0x01 : UInt16) ||| UInt16.ofNat (dataBits m p 2 2 0 3) <<< 12 else 0 }
  else caps

/-- `ERP_IE_handler`. -/
def erpIeHandler : Handler Unit := lookIf (decide (ieLength m p ≤ 1)) (p + 2) (ieLength m p)

/-- A loop over elements: `each` is what a round does beside looking at the header, and `next` what it leaves. -/
def elements {κ : Type} (len : Nat) (each : κ → Nat → Handler Unit) (next : κ → Nat → κ) (s : Nat × κ) :
    Handler (Unit ⊕ Nat × κ) :=
  if s.1 < len then do
    look s.1 2
    each s.2 s.1
    pure (.inr (s.1 + ieLength m s.1 + 2, next s.2 s.1))
  else pure (.inl ())

end Elements

/-! ## `OnAssocRsp` -/

/-- The element at `p`. -/
def assocRspElement (c : Client) (m : Mem) (caps : Caps) (p : Nat) : Handler Unit :=
  if m p = 221 then do
    look (p + 2) 6
    if bytesAt m (p + 2) 6 = wmmParaOui then wmmParamHandler p c.qosOption
    else do
      look (p + 2) 4
      if bytesAt m (p + 2) 4 = [0x50, 0x6f, 0x9a, 0x0a] then rtwProcessWfdIe m p c.miracast else pure ()
  else if m p = 45 then htCapsHandler m p c caps
  else if m p = 61 then htInfoHandler m p c.htOption
  else if m p = 191 then vhtCapsHandler m p c.vhtOption caps
  -- `VHT_operation_handler` reads nothing
  else if m p = 42 then erpIeHandler m p
  else pure ()

/-- What it leaves. -/
def assocRspCaps (c : Client) (m : Mem) (caps : Caps) (p : Nat) : Caps :=
  if m p = 45 then htCaps m p c caps
  else if m p = 191 then vhtCaps m p c.vhtOption caps
  else caps

def onAssocRsp (c : Client) (caps : Caps) (f : MgntFrame) : Handler Unit := do
  look 0 2
  look f.da 6
  if f.addr f.da ≠ c.macAddr then pure ()
  else if c.state &&& (wifiFwAuthSuccess ||| wifiFwAssocState) = 0 then pure ()
  else if c.state &&& wifiFwAssocSuccess ≠ 0 then pure ()
  else do
    look (24 + 2) 2
    if 0 < f.le16 (24 + 2) then pure ()
    else do
      look 24 2
      look (24 + 4) 2
      .walk (elements f.mem f.len (assocRspElement c f.mem) (assocRspCaps c f.mem)) (6 + 24, caps)
      -- `rtw_buf_update(…, pframe, pkt_len)`, if there is an association id
      lookIf (decide (0 < f.le16 (24 + 4) % 2 ^ 14)) 0 f.len

/-! ## `OnBeacon` -/

/-- What `OnBeacon` reads of the state of a station in an ad-hoc network. -/
structure AdHoc where
  /-- `get_my_bssid`. -/
  bssid : MacAddr
  /-- `SCAN_PROCESS`: the frame is passed on to the survey. -/
  scanning : Bool
  /-- `sta_rx_pkts` of a station that `rtw_get_stainfo` finds. -/
  rxPkts : MacAddr → Option Nat
  /-- `rtw_alloc_stainfo` returns a record. -/
  allocates : Bool
  qosOption : Bool
  htOption : Bool
  vhtOption : Bool
  /-- `cbw40_enable`. -/
  cbw40Enable : Bool
  /-- `cur_bwmode`. -/
  curBwmode : Nat

/-- The loop of `check_ielen`, over `pos`, the bytes up to `stop`. -/
def checkIelenRound (m : Mem) (stop : Nat) (pos : Nat) : Handler (Bool ⊕ Nat) :=
  if pos + 2 ≤ stop then do
    look pos 2
    if stop < pos + 2 + ieLength m pos then pure (.inl false)
    else if m pos = 221 ∧ ieLength m pos < 4 then pure (.inl false)
    else pure (.inr (pos + ieLength m pos + 2))
  else pure (.inl (pos = stop))

/-- `validate_beacon_len`. -/
def validateBeaconLen (f : MgntFrame) : Handler Bool :=
  if f.len < 36 then pure false else .walk (checkIelenRound f.mem f.len) 36

/-- "Invalid value 0x2D is detected in Extended Supported Rates (ESR) IE": the memory after the attempt to fix it. -/
def fixBeacon (f : MgntFrame) : Handler Mem := do
  let p ← rtwGetIe f.mem 36 50 (f.len - 24 - 12)
  match p with
  | none => pure f.mem
  | some p =>
    let ielen := ieLength f.mem p
    if 0 < ielen then do
      look (p + 1 + ielen) 1
      if f.mem (p + 1 + ielen) = 0x2d then do
        look (p + 2 + ielen) 1
        if f.mem (p + 2 + ielen) ≠ 0x2d then pure (splice f.mem (p + 1) [UInt8.ofNat (ielen - 1)])
        else pure f.mem
      else pure f.mem
    else pure f.mem

/-- `new_bwmode` of `bwmode_update_check`: 1 is `CHANNEL_WIDTH_40`. -/
def newBwmode (s : AdHoc) (m : Mem) (p : Nat) : Nat :=
  if dataBits m p 1 1 2 1 ≠ 0 ∧ s.cbw40Enable ∧ (dataBits m p 1 1 0 2 = 1 ∨ dataBits m p 1 1 0 2 = 3) then 1 else 0

/-- `bwmode_update_check` gets to the secondary channel offset. -/
def checksBwmode (s : AdHoc) (m : Mem) (bwmode p : Nat) : Bool :=
  s.htOption && decide (bwmode < 2 ∧ ieLength m p ≤ 22)

/-- `bwmode_update_check`. -/
def bwmodeUpdateCheck (s : AdHoc) (m : Mem) (bwmode p : Nat) : Handler Unit :=
  if checksBwmode s m bwmode p then do
    look (p + 2 + 1) 1
    if newBwmode s m p < bwmode then htInfoHandler m p s.htOption else pure ()
  else pure ()

/-- The element at `p`, in `update_beacon_info`. -/
def beaconElement (s : AdHoc) (m : Mem) (bwmode p : Nat) : Handler Unit :=
  if m p = 221 then do
    look (p + 2) 6
    if bytesAt m (p + 2) 6 = wmmParaOui ∧ ieLength m p = 24 then wmmParamHandler p s.qosOption else pure ()
  else if m p = 61 then bwmodeUpdateCheck s m bwmode p
  else if m p = 199 then lookIf s.vhtOption (p + 2) 1
  else if m p = 42 then erpIeHandler m p
  else pure ()

/-- `cur_bwmode` after it. -/
def beaconBwmode (s : AdHoc) (m : Mem) (bwmode p : Nat) : Nat :=
  if m p = 61 ∧ checksBwmode s m bwmode p then min (newBwmode s m p) bwmode else bwmode

/-- `update_beacon_info`. -/
def updateBeaconInfo (s : AdHoc) (m : Mem) (len : Nat) : Handler Unit :=
  .walk (elements m len (beaconElement s m) (beaconBwmode s m)) (36, s.curBwmode)

/-- `rtw_ies_get_supported_rate`: `rate_num`. -/
def rtwIesGetSupportedRate (m : Mem) (ies : Nat) (iesLen : Int) : Handler Nat := do
  let ie ← rtwGetIe m ies 1 iesLen
  let rateNum ← match ie with
    | none => pure 0
    | some p => do
      memcpy .rateSet 0 (p + 2) (ieLength m p)
      pure (ieLength m p)
  let ie ← rtwGetIe m ies 50 iesLen
  match ie with
  | none => pure rateNum
  | some p => do
    memcpy .rateSet rateNum (p + 2) (ieLength m p)
    -- a `u8`
    pure ((rateNum + ieLength m p) % 2 ^ 8)

/-- `OnBeacon` in ad-hoc mode, for which `WIFI_FW_AUTH_NULL` is never set. -/
def onBeacon (s : AdHoc) (f : MgntFrame) : Handler Unit := do
  let valid ← validateBeaconLen f
  if valid then do
    let m ← fixBeacon f
    if s.scanning then pure ()
    else do
      look 16 6
      if f.addr 16 ≠ s.bssid then pure ()
      else do
        look 10 6
        match s.rxPkts (f.addr 10) with
        | some pkts => if pkts % 16 = 0 then updateBeaconInfo s m f.len else pure ()
        | none => do
          let rateNum ← rtwIesGetSupportedRate m 36 (f.len - 24 - 12)
          if rateNum = 0 then pure ()
          else if s.allocates then do
            store .bssrateset 0 rateNum
            look 24 8
            look 10 6
          else pure ()
  else pure ()

/-! ## Received frames -/

/-- A management frame and the handler it is handed to, with the state that the handler finds. -/
inductive Received where
  | onAuth (cfg : ApConfig) (a : AccessPoint) (f : MgntFrame)
  | onAuthClient (c : Client) (f : MgntFrame)
  | onAssocRsp (c : Client) (caps : Caps) (f : MgntFrame)
  | onBeacon (s : AdHoc) (f : MgntFrame)

namespace Received

def frame : Received → MgntFrame
  | onAuth _ _ f | onAuthClient _ f | onAssocRsp _ _ f | onBeacon _ f => f

def handler : Received → Handler Unit
  | onAuth cfg a f => Mlme.onAuth cfg a f
  | onAuthClient c f => Mlme.onAuthClient c f
  | onAssocRsp c caps f => Mlme.onAssocRsp c caps f
  | onBeacon s f => Mlme.onBeacon s f

/-- All that is read lies in the frame, and all that is copied in its buffer. -/
def Bounded (r : Received) : Prop := r.handler.Safe (Access.Inside r.frame.len)

end Received

end Vmac.Mlme
