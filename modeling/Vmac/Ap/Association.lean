/-
# Vmac.Ap.Association -- authentication and association at an access point: rtw_mlme_ext.c

`OnAuth` and `OnAssocReq` take a station from its first frame to association, `OnDeAuth` and
`OnDisassoc` let it go.  A station is on `auth_list` or on `asoc_list`, it has an association id
once it is associated, and the BSS counters count what it cannot do.

The elements of an association request are taken apart by functions that no claim is about; a
request is what they make of it.
-/
import Vmac.Ap.StaTable
import Vmac.Security.Wep

namespace Vmac.Ap

open Theory Theory.Bytes Theory.Placement Theory.Run
open Transmit (MacAddr bcAddr staAddr isMcast AuthAlgrthm Privacy)
open Security (Mem bytesAt SecurityKeys RxFrame rtwWepDecrypt icv)

set_option autoImplicit false

/-! ## Data -/

def wifiFwAuthNull : UInt32 := 0x100
def wifiFwAuthState : UInt32 := 0x200
def wifiFwAuthSuccess : UInt32 := 0x400
def wifiFwAssocState : UInt32 := 0x2000
def wifiFwAssocSuccess : UInt32 := 0x4000

/-- What does not change while the access point runs. -/
structure ApConfig where
  dot11AuthAlgrthm : AuthAlgrthm
  dot11PrivacyAlgrthm : Privacy
  keys : SecurityKeys
  pnetdev : Bool
  /-- `rtw_access_ctrl`. -/
  accessCtrl : MacAddr → Bool
  maxNumSta : Nat
  bssid : MacAddr

structure AccessPoint where
  stapriv : StaPriv
  bss : BssProt
  /-- `pmlmeinfo->state`. -/
  state : UInt32

namespace AccessPoint

variable (a : AccessPoint)

def sta (r : Offset) : StaInfo := a.stapriv.stainfo r

def setSta (r : Offset) (psta : StaInfo) : AccessPoint := { a with stapriv := a.stapriv.setStainfo r psta }

def isAp : Bool := a.state &&& 0x03 == hwStateAp

/-- `rtw_free_stainfo`. -/
def freeStainfo (r : Offset) : AccessPoint := { a with stapriv := a.stapriv.freeStainfo a.state (some r) }

/-- `rtw_list_delete(&psta->asoc_list)`, for a record that is on the list. -/
def leaveAsocList (r : Offset) : AccessPoint :=
  if r ∈ a.stapriv.asocList then
    { a with stapriv := { a.stapriv with
        asocList := a.stapriv.asocList.filter (· ≠ r), asocListCnt := a.stapriv.asocListCnt - 1 } }
  else a

def enterAsocList (r : Offset) : AccessPoint :=
  if r ∈ a.stapriv.asocList then a
  else
    { a with stapriv := { a.stapriv with
        asocList := a.stapriv.asocList ++ [r], asocListCnt := a.stapriv.asocListCnt + 1 } }

def leaveAuthList (r : Offset) : AccessPoint := { a with stapriv := a.stapriv.leaveAuthList r }

def enterAuthList (r : Offset) : AccessPoint :=
  if r ∈ a.stapriv.authList then a
  else
    { a with stapriv := { a.stapriv with
        authList := a.stapriv.authList ++ [r], authListCnt := a.stapriv.authListCnt + 1 } }

/-- An update of a record together with the counters. -/
def setCell (r : Offset) (c : Cell) : AccessPoint :=
  { (a.setSta r { a.sta r with toStaProt := c.psta }) with bss := c.bss }

def cell (r : Offset) : Cell := ⟨a.bss, (a.sta r).toStaProt⟩

end AccessPoint

/-! ## Authentication -/

/-- A received frame from `rx_data` on. -/
structure AuthFrame where
  mem : Mem
  len : Nat

/-- `_STATS_…`. -/
inductive Status
  | successful
  | noSuppAlg
  | outOfAuthSeq
  | challengeFail
  | unableHandleSta
  deriving DecidableEq, Repr

/-- `rtw_get_ie`, from place `p` on: `i` of the `limit` bytes are behind.  `n` bounds the turns. -/
def rtwGetIeLoop (m : Mem) (index : UInt8) (limit : Int) : Nat → Nat → Nat → Option Nat
  | 0, _, _ => none
  | n + 1, p, i =>
      if m p = index then some p
      else
        let tmp := (m (p + 1)).toNat
        if limit ≤ (i + (tmp + 2) : Nat) then none else rtwGetIeLoop m index limit n (p + (tmp + 2)) (i + (tmp + 2))

/-- `rtw_get_ie`: where the element is. -/
def rtwGetIe (m : Mem) (pbuf : Nat) (index : UInt8) (limit : Int) : Option Nat :=
  if limit < 1 then none else rtwGetIeLoop m index limit limit.toNat pbuf 0

namespace AuthFrame

variable (f : AuthFrame)

/-- `get_addr2_ptr`. -/
def sa : MacAddr := fun i => f.mem (10 + i)

/-- `GetPrivacy`. -/
def privacy : Bool := f.mem 1 &&& 0x40 != 0

/-- The frame with the attributes that `OnAuth` gives it for `rtw_wep_decrypt`. -/
def rx : RxFrame where
  mem := f.mem
  len := f.len
  hdrlen := 24
  ivLen := 4
  encrypt := .wep40
  bdecrypted := false
  keyIndex := ((f.mem 27 >>> 6) &&& 0x3).toNat
  ra := fun i => f.mem (4 + i)
  ta := f.sa

/-- The frame in which `OnAuth` reads the fields. -/
def opened (keys : SecurityKeys) : AuthFrame :=
  if f.privacy then { f with mem := (rtwWepDecrypt keys f.rx).mem } else f

/-- `offset`. -/
def offset : Nat := if f.privacy then 4 else 0

def le16 (start : Nat) : UInt32 := UInt32.ofNat (ofLe (bytesAt f.mem start 2))

def algorithm : UInt32 := f.le16 (24 + f.offset)

def seq : UInt32 := f.le16 (24 + f.offset + 2)

/-- The challenge element, where `OnAuth` looks for it. -/
def challenge : Option Nat := rtwGetIe f.mem (24 + 4 + 6) 16 (f.len - 24 - 6 - 4)

/-- The third frame has the text. -/
def answers (chgTxt : List UInt8) : Bool :=
  match f.challenge with
  | none => false
  | some p => f.mem (p + 1) != 0 && bytesAt f.mem (p + 2) 128 == chgTxt

end AuthFrame

/-- `auth_mode`. -/
def authMode (cfg : ApConfig) : AuthAlgrthm :=
  if cfg.dot11AuthAlgrthm = .x8021 ∧ cfg.dot11PrivacyAlgrthm ≠ .wep40 ∧ cfg.dot11PrivacyAlgrthm ≠ .wep104 then .openSystem
  else cfg.dot11AuthAlgrthm

/-- The algorithm of the frame is not the one of the access point. -/
def badAlg (mode : AuthAlgrthm) (f : AuthFrame) : Bool :=
  decide (0 < f.algorithm ∧ mode = .openSystem ∨ f.algorithm = 0 ∧ mode = .shared)

/-- Open system authentication, not that with a challenge. -/
def isOpen (mode : AuthAlgrthm) (f : AuthFrame) : Bool :=
  decide (f.algorithm = 0 ∧ (mode = .openSystem ∨ mode = .x8021 ∨ mode = .auto))

/-- The checks of `OnAuth` on a frame of the station `pstat`. -/
def authStatus (mode : AuthAlgrthm) (pstat : StaInfo) (f : AuthFrame) : Status :=
  if pstat.authSeq + 1 ≠ f.seq then .outOfAuthSeq
  else if isOpen mode f then if f.seq = 1 then .successful else .outOfAuthSeq
  else if f.seq = 1 then .successful
  else if f.seq = 3 then if f.answers pstat.chgTxt then .successful else .challengeFail
  else .outOfAuthSeq

/-- The record of a station whose frame has passed. -/
def authPassed (mode : AuthAlgrthm) (pstat : StaInfo) (f : AuthFrame) : StaInfo :=
  if isOpen mode f then
    { pstat with state := (pstat.state &&& ~~~wifiFwAuthNull) ||| wifiFwAuthSuccess, authalg := f.algorithm }
  else if f.seq = 1 then
    { pstat with
      chgTxt := List.replicate 128 78
      state := (pstat.state &&& ~~~wifiFwAuthNull) ||| wifiFwAuthState
      authalg := f.algorithm
      authSeq := 2 }
  else { pstat with state := (pstat.state &&& ~~~wifiFwAuthState) ||| wifiFwAuthSuccess }

/-- What `issue_auth` sends. -/
structure AuthReply where
  addr1 : MacAddr
  authalg : UInt32
  authSeq : UInt32
  status : Status
  challenge : Option (List UInt8)

def issueAuth (psta : StaInfo) (status : Status) : AuthReply where
  addr1 := psta.macAddr
  authalg := psta.authalg &&& 0xffff
  authSeq := psta.authSeq &&& 0xffff
  status := status
  challenge :=
    if psta.authSeq = 2 ∧ psta.state &&& wifiFwAuthState ≠ 0 ∧ psta.authalg &&& 0xffff ≠ 0 then some psta.chgTxt else none

/-- `auth_fail`, for the record of the station, if there is one. -/
def authFail (a : AccessPoint) (pstat : Option Offset) (sa : MacAddr) (status : Status) : AccessPoint × AuthReply :=
  let a := { a with stapriv := a.stapriv.freeStainfo a.state pstat }
  (a, issueAuth { StaInfo.init with authSeq := 2, macAddr := sa } status)

/-- The state bits of a station that is authenticated or associated. -/
def StaInfo.trusted (psta : StaInfo) : Bool :=
  psta.state &&& wifiFwAuthSuccess != 0 || psta.state &&& wifiFwAssocSuccess != 0

/-- `OnAuth`, from the check of the sequence number on. -/
def authSta (mode : AuthAlgrthm) (a : AccessPoint) (f : AuthFrame) (r : Offset) : AccessPoint × AuthReply :=
  let a := a.enterAuthList r
  match authStatus mode (a.sta r) f with
  | .successful =>
      let pstat := { authPassed mode (a.sta r) f with authSeq := f.seq + 1 }
      let reply := issueAuth pstat .successful
      (a.setSta r (if pstat.trusted then { pstat with authSeq := 0 } else pstat), reply)
  | status => authFail a (some r) f.sa status

/-- `OnAuth`: the state after it, and the reply. -/
def onAuth (cfg : ApConfig) (a : AccessPoint) (received : AuthFrame) : AccessPoint × Option AuthReply :=
  if a.isAp then
    let f := received.opened cfg.keys
    let mode := authMode cfg
    let (a, reply) :=
      if badAlg mode f then authFail a none f.sa .noSuppAlg
      else if cfg.accessCtrl f.sa = false then authFail a none f.sa .unableHandleSta
      else
        match a.stapriv.getStainfo f.sa with
        | none =>
            match a.stapriv.allocStainfo cfg.pnetdev f.sa with
            | (stapriv, none) => authFail { a with stapriv } none f.sa .unableHandleSta
            | (stapriv, some r) =>
                let a := { a with stapriv }
                authSta mode (a.setSta r { a.sta r with state := wifiFwAuthNull, authSeq := 0 }) f r
        | some r => authSta mode (a.leaveAsocList r) f r
    (a, some reply)
  else (a, none)

/-! ## Association -/

/-- A (re)association request: its sender, that it is long enough, and what the functions that take it
apart say of it. -/
structure AssocReq where
  addr2 : MacAddr
  long : Bool
  elemsParsed : Bool
  ssidMatches : Bool
  ratesStatus : Bool
  securityStatus : Bool
  p2pStatus : Bool
  /-- What they leave in the record. -/
  cap : StaCap

/-- No check before that for an association id rejects it. -/
def AssocReq.wellFormed (q : AssocReq) : Bool :=
  q.elemsParsed && q.ssidMatches && q.ratesStatus && q.securityStatus && q.p2pStatus

/-- "get a unique AID"; `none` is that there is no room. -/
def getAid (maxNumSta : Nat) (s : StaPriv) (r : Offset) : Option StaPriv :=
  if 0 < (s.stainfo r).aid then some s
  else
    match (List.range' 1 numSta).find? fun aid => (s.staAid (aid - 1)).isNone with
    | some aid => if maxNumSta < aid then none else some (s.assignAid r aid)
    -- the loop runs to its end
    | none => some (s.setStainfo r { s.stainfo r with aid := numSta + 1 })

/-- `OnAssocReqFail`. -/
def onAssocReqFail (a : AccessPoint) (r : Offset) : AccessPoint := a.setSta r { a.sta r with aid := 0 }

/-- From the association id on; `sta_info_update` sets `_FW_LINKED`. -/
def assocSta (a : AccessPoint) (r : Offset) : AccessPoint :=
  let a := a.setSta r { a.sta r with state := ((a.sta r).state &&& ~~~wifiFwAssocState) ||| wifiFwAssocSuccess }
  let a := (a.leaveAuthList r).enterAsocList r
  let a := a.setCell r (bssCapUpdateOnStaJoin (a.cell r))
  a.setSta r { a.sta r with state := (a.sta r).state ||| fwLinked }

/-- `OnAssocReq`. -/
def onAssocReq (cfg : ApConfig) (a : AccessPoint) (q : AssocReq) : AccessPoint :=
  if a.isAp && q.long then
    match a.stapriv.getStainfo q.addr2 with
    | none => a
    | some r =>
        let state := (a.sta r).state
        if state &&& wifiFwAuthSuccess = 0 ∧ state &&& wifiFwAssocSuccess = 0 then a
        else
          let before := if state &&& wifiFwAuthSuccess = 0 then wifiFwAssocSuccess else wifiFwAuthSuccess
          let a := a.setSta r { a.sta r with state := (state &&& ~~~before) ||| wifiFwAssocState, cap := q.cap }
          if q.wellFormed then
            match getAid cfg.maxNumSta a.stapriv r with
            | none => onAssocReqFail a r
            | some stapriv => assocSta { a with stapriv } r
          else onAssocReqFail a r
  else a

/-! ## Leaving -/

/-- A deauthentication or disassociation frame. -/
structure LeaveFrame where
  addr2 : MacAddr
  addr3 : MacAddr

/-- `ap_free_sta`, for a station that leaves by itself. -/
def apFreeSta (a : AccessPoint) (r : Offset) : AccessPoint :=
  let a := a.setSta r { a.sta r with state := (a.sta r).state &&& ~~~fwLinked }
  let a := a.setCell r (bssCapUpdateOnStaLeave (a.cell r)).1
  a.freeStainfo r

/-- What `OnDeAuth` and `OnDisassoc` do at an access point. -/
def staLeaves (cfg : ApConfig) (a : AccessPoint) (f : LeaveFrame) : AccessPoint :=
  if f.addr3 = cfg.bssid then
    match a.stapriv.getStainfo f.addr2 with
    | none => a
    | some r => if r ∈ a.stapriv.asocList then apFreeSta (a.leaveAsocList r) r else a
  else a

def onDeAuth (cfg : ApConfig) (a : AccessPoint) (f : LeaveFrame) : AccessPoint := staLeaves cfg a f

def onDisassoc (cfg : ApConfig) (a : AccessPoint) (f : LeaveFrame) : AccessPoint := staLeaves cfg a f

/-! ## start_ap_mode -/

/-- `start_ap_mode`; the counters start at zero. -/
def startApMode (pnetdev : Bool) (a : AccessPoint) : AccessPoint :=
  let stapriv := { a.stapriv with staAid := fun _ => none }
  let stapriv := stapriv.freeStainfo a.state (stapriv.getStainfo bcAddr)
  let stapriv := (stapriv.allocStainfo pnetdev bcAddr).1
  { a with stapriv, bss := { a.bss with
      numSta := fun _ => 0, htOpMode := 0, olbcHt := false, ht20mhzWidthReq := false, htIntolerantChReported := false } }

/-! ## Runs -/

inductive ApEvent
  | auth (f : AuthFrame)
  | assocReq (q : AssocReq)
  | deAuth (f : LeaveFrame)
  | disassoc (f : LeaveFrame)

/-- A received frame. -/
def receiveMgnt (cfg : ApConfig) (a : AccessPoint) : ApEvent → AccessPoint
  | .auth f => (onAuth cfg a f).1
  | .assocReq q => onAssocReq cfg a q
  | .deAuth f => onDeAuth cfg a f
  | .disassoc f => onDisassoc cfg a f

end Vmac.Ap
