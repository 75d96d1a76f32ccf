/-
# Vmac.Transmit.Attrib -- the security attributes of a frame: rtw_xmit.c

`update_attrib_sec_info` chooses the cipher of an MSDU, draws the IV from the packet number
of the station record and copies the keys of the record.  The packet number is a counter in
the record; the key may belong to the record, to the group or to the whole BSS.
-/
import Mathlib.Data.List.Basic
import Mathlib.Data.Fintype.Basic
import Mathlib.Logic.Function.Basic
import Mathlib.Tactic.Ring

namespace Vmac.Transmit

set_option autoImplicit false

abbrev MacAddr := Fin 6 → UInt8

instance neZero_six : NeZero 6 := ⟨by decide⟩

/-- `IS_MCAST`. -/
def isMcast (da : MacAddr) : Bool := da 0 &&& 0x01 != 0

/-- `ETH_HLEN`. -/
def ethHlen : Nat := 14

/-! ## Data -/

/-- What `check_fwstate` is asked for. -/
inductive FwState
  | station
  | ap
  | adhoc
  | other
  deriving DecidableEq, Repr

/-- The state of the interface that the transmit path reads. -/
structure Mlme where
  fwState : FwState
  bssid : MacAddr
  /-- `adapter_mac_addr`. -/
  adapterMacAddr : MacAddr
  /-- `qospriv.qos_option`. -/
  qosOption : Bool

/-- The values of the privacy algorithms. -/
inductive Privacy
  | noPrivacy
  | wep40
  | tkip
  | tkipWtmic
  | aes
  | wep104
  | sms4
  | wepWpaMixed
  deriving DecidableEq, Repr

/-- `dot11AuthAlgrthm`. -/
inductive AuthAlgrthm
  | openSystem
  | shared
  | x8021
  | auto
  | wapi
  deriving DecidableEq, Repr

/-- The fields of `struct security_priv` that the transmit path reads. -/
structure SecurityPriv where
  dot11AuthAlgrthm : AuthAlgrthm
  dot11PrivacyAlgrthm : Privacy
  dot11PrivacyKeyIndex : Nat
  dot118021XGrpPrivacy : Privacy
  dot118021XGrpKeyid : Nat
  dot118021XGrptxmickey : Nat → List UInt8
  busetkipkey : Bool
  swEncrypt : Bool
  hwDecrypted : Bool
  /-- `SEC_STATUS_STA_PK_GK_CONFLICT_DIS_BMC_SEARCH` is set in the flags of the key CAM. -/
  disBmcSearch : Bool

/-- The fields of `struct sta_info` that make the attributes of a frame. -/
structure StaInfo where
  /-- `state & _FW_LINKED`. -/
  linked : Bool
  qosOption : Bool
  ieee8021xBlocked : Bool
  dot118021XPrivacy : Privacy
  dot118021xUncstKey : List UInt8
  dot11tkiptxmickey : List UInt8
  dot11txpn : UInt64

/-- The fields of `struct pkt_attrib` that say how an MSDU becomes MPDUs. -/
structure PktAttrib where
  subtype : UInt8
  etherType : UInt16
  pktHdrlen : Nat
  hdrlen : Nat
  pktlen : Nat
  dst : MacAddr
  src : MacAddr
  ta : MacAddr
  ra : MacAddr
  priority : UInt8
  ackPolicy : UInt8
  qosEn : Bool
  mdata : Bool
  eosp : Bool
  amsdu : Bool
  encrypt : Privacy
  keyIdx : UInt8
  ivLen : Nat
  icvLen : Nat
  iv : List UInt8
  icv : List UInt8
  bswenc : Bool
  dot11tkiptxmickey : List UInt8
  dot118021xUncstKey : List UInt8

/-- Sixteen zeros. -/
def nullKey : List UInt8 := List.replicate 16 0

/-! ## Initialization vectors -/

/-- `TSC0` to `TSC7` of `union pn48`. -/
def tsc (dot11txpn : UInt64) (k : Nat) : UInt8 := UInt8.ofNat (dot11txpn.toNat / 256 ^ k)

/-- The packet number after an IV is drawn. -/
def nextPn (last dot11txpn : UInt64) : UInt64 := if dot11txpn = last then 0 else dot11txpn + 1

/-- `WEP_IV`. -/
def wepIv (dot11txpn : UInt64) (keyidx : UInt8) : List UInt8 :=
  [tsc dot11txpn 0, tsc dot11txpn 1, tsc dot11txpn 2, (keyidx &&& 0x3) <<< 6]

/-- `TKIP_IV`. -/
def tkipIv (dot11txpn : UInt64) (keyidx : UInt8) : List UInt8 :=
  [tsc dot11txpn 1, (tsc dot11txpn 1 ||| 0x20) &&& 0x7f, tsc dot11txpn 0,
    (0x20 : UInt8) ||| (keyidx &&& 0x3) <<< 6,
    tsc dot11txpn 2, tsc dot11txpn 3, tsc dot11txpn 4, tsc dot11txpn 5]

/-- `AES_IV`. -/
def aesIv (dot11txpn : UInt64) (keyidx : UInt8) : List UInt8 :=
  [tsc dot11txpn 0, tsc dot11txpn 1, 0, (0x20 : UInt8) ||| (keyidx &&& 0x3) <<< 6,
    tsc dot11txpn 2, tsc dot11txpn 3, tsc dot11txpn 4, tsc dot11txpn 5]

/-! ## update_attrib_sec_info -/

/-- `GET_ENCRY_ALGO`. -/
def getEncryAlgo (psecuritypriv : SecurityPriv) (psta : StaInfo) (bmcst : Bool) : Privacy :=
  match psecuritypriv.dot11AuthAlgrthm with
  | .openSystem | .shared | .auto => psecuritypriv.dot11PrivacyAlgrthm
  | .x8021 => if bmcst then psecuritypriv.dot118021XGrpPrivacy else psta.dot118021XPrivacy
  | .wapi => psecuritypriv.dot11PrivacyAlgrthm

def getKeyIdx (psecuritypriv : SecurityPriv) (bmcst : Bool) : UInt8 :=
  match psecuritypriv.dot11AuthAlgrthm with
  | .openSystem | .shared | .auto => UInt8.ofNat psecuritypriv.dot11PrivacyKeyIndex
  | .x8021 => if bmcst then UInt8.ofNat psecuritypriv.dot118021XGrpKeyid else 0
  | .wapi => 0

/-- The cipher for an MSDU, and the key index. -/
def chooseEncrypt (psecuritypriv : SecurityPriv) (pattrib : PktAttrib) (psta : StaInfo) :
    Privacy × UInt8 :=
  if psta.ieee8021xBlocked then (.noPrivacy, pattrib.keyIdx)
  else
    let encrypt := getEncryAlgo psecuritypriv psta (isMcast pattrib.ra)
    -- for WPS 1.0 WEP, EAPOL is not encrypted
    if (encrypt = .wep40 ∨ encrypt = .wep104) ∧ pattrib.etherType = 0x888e
      then (.noPrivacy, getKeyIdx psecuritypriv (isMcast pattrib.ra))
      else (encrypt, getKeyIdx psecuritypriv (isMcast pattrib.ra))

/-- `update_attrib_sec_info`: whether it returns `_SUCCESS`, and the attributes and the station
record after it. -/
def updateAttribSecInfo (psecuritypriv : SecurityPriv) (pattrib : PktAttrib) (psta : StaInfo) :
    Bool × PktAttrib × StaInfo :=
  let bmcast := isMcast pattrib.ra
  let (encrypt, keyIdx) := chooseEncrypt psecuritypriv pattrib psta
  let pattrib := { pattrib with
    dot118021xUncstKey := nullKey, dot11tkiptxmickey := nullKey, encrypt := encrypt, keyIdx := keyIdx }
  if psta.ieee8021xBlocked ∧ pattrib.etherType ≠ 0x888e then (false, pattrib, psta)
  else if encrypt = .tkip ∧ psecuritypriv.busetkipkey = false
    then (false, { pattrib with ivLen := 8, icvLen := 4 }, psta)
  else
    let (pattrib, psta) : PktAttrib × StaInfo :=
      match encrypt with
      | .wep40 | .wep104 =>
          ({ pattrib with ivLen := 4, icvLen := 4, iv := wepIv psta.dot11txpn keyIdx },
            { psta with dot11txpn := nextPn 0xffffff psta.dot11txpn })
      | .tkip =>
          ({ pattrib with
              ivLen := 8, icvLen := 4, iv := tkipIv psta.dot11txpn (if bmcast then keyIdx else 0),
              dot11tkiptxmickey := psta.dot11tkiptxmickey },
            { psta with dot11txpn := nextPn 0xffffffffffff psta.dot11txpn })
      | .aes =>
          ({ pattrib with
              ivLen := 8, icvLen := 8, iv := aesIv psta.dot11txpn (if bmcast then keyIdx else 0) },
            { psta with dot11txpn := nextPn 0xffffffffffff psta.dot11txpn })
      | .noPrivacy | .tkipWtmic | .sms4 | .wepWpaMixed => ({ pattrib with ivLen := 0, icvLen := 0 }, psta)
    let uncst := if encrypt ≠ .noPrivacy then psta.dot118021xUncstKey else pattrib.dot118021xUncstKey
    let bswenc := decide (encrypt ≠ .noPrivacy) &&
      (psecuritypriv.swEncrypt || !psecuritypriv.hwDecrypted || (bmcast && psecuritypriv.disBmcSearch))
    (true, { pattrib with dot118021xUncstKey := uncst, bswenc := bswenc }, psta)

/-! ## What the attributes say -/

def Privacy.ivLen : Privacy → Nat
  | .wep40 | .wep104 => 4
  | .tkip | .aes => 8
  | .noPrivacy | .tkipWtmic | .sms4 | .wepWpaMixed => 0

def Privacy.icvLen : Privacy → Nat
  | .wep40 | .wep104 | .tkip => 4
  | .aes => 8
  | .noPrivacy | .tkipWtmic | .sms4 | .wepWpaMixed => 0

def Privacy.isWep : Privacy → Bool
  | .wep40 | .wep104 => true
  | _ => false

/-- There is an encryption function for the algorithm. -/
def Privacy.isCipher : Privacy → Bool
  | .wep40 | .wep104 | .tkip | .aes => true
  | .noPrivacy | .tkipWtmic | .sms4 | .wepWpaMixed => false

/-- The IV that is drawn for a packet number. -/
def Privacy.drawIv (encrypt : Privacy) (dot11txpn : UInt64) (keyidx : UInt8) : List UInt8 :=
  match encrypt with
  | .wep40 | .wep104 => wepIv dot11txpn keyidx
  | .tkip => tkipIv dot11txpn keyidx
  | .aes => aesIv dot11txpn keyidx
  | .noPrivacy | .tkipWtmic | .sms4 | .wepWpaMixed => []

/-- The packet number after the draw. -/
def Privacy.drawnPn (encrypt : Privacy) (dot11txpn : UInt64) : UInt64 :=
  match encrypt with
  | .wep40 | .wep104 => nextPn 0xffffff dot11txpn
  | .tkip | .aes => nextPn 0xffffffffffff dot11txpn
  | .noPrivacy | .tkipWtmic | .sms4 | .wepWpaMixed => dot11txpn

section SecInfo

variable (psecuritypriv : SecurityPriv) (pattrib : PktAttrib) (psta : StaInfo)

/-- The cipher for an MSDU. -/
def cipherOf : Privacy := (chooseEncrypt psecuritypriv pattrib psta).1

/-- `bswenc` for an encrypted frame. -/
def softwareEncrypts : Bool :=
  psecuritypriv.swEncrypt || !psecuritypriv.hwDecrypted || (isMcast pattrib.ra && psecuritypriv.disBmcSearch)

/-- `update_attrib_sec_info` returns `_SUCCESS`. -/
def secInfoOk : Bool :=
  !(psta.ieee8021xBlocked && pattrib.etherType != 0x888e) &&
    !(cipherOf psecuritypriv pattrib psta == .tkip && !psecuritypriv.busetkipkey)

/-- What `update_attrib_sec_info` leaves, for every cipher. -/
structure SecAttrib (sent : PktAttrib) : Prop where
  encrypt : sent.encrypt = cipherOf psecuritypriv pattrib psta
  ivLen : sent.ivLen = sent.encrypt.ivLen
  icvLen : sent.icvLen = sent.encrypt.icvLen
  bswenc : sent.bswenc = (sent.encrypt != .noPrivacy && softwareEncrypts psecuritypriv pattrib)
  iv : sent.encrypt.isCipher = true → ∃ keyidx, sent.iv = sent.encrypt.drawIv psta.dot11txpn keyidx
  tkiptxmickey : sent.encrypt = .tkip → sent.dot11tkiptxmickey = psta.dot11tkiptxmickey
  etherType : sent.etherType = pattrib.etherType
  ra : sent.ra = pattrib.ra
  dst : sent.dst = pattrib.dst
  src : sent.src = pattrib.src
  ta : sent.ta = pattrib.ta
  pktlen : sent.pktlen = pattrib.pktlen

theorem updateAttribSecInfo_ok (ok : secInfoOk psecuritypriv pattrib psta = true) :
    ∃ sent, updateAttribSecInfo psecuritypriv pattrib psta =
        (true, sent,
          { psta with dot11txpn := (cipherOf psecuritypriv pattrib psta).drawnPn psta.dot11txpn }) ∧
      SecAttrib psecuritypriv pattrib psta sent := by
  unfold secInfoOk cipherOf at ok
  unfold updateAttribSecInfo cipherOf
  rcases chosen : chooseEncrypt psecuritypriv pattrib psta with ⟨encrypt, keyIdx⟩
  have cipher : cipherOf psecuritypriv pattrib psta = encrypt := by rw [cipherOf, chosen]
  rw [chosen] at ok
  simp only [Bool.and_eq_true, Bool.not_eq_true', Bool.and_eq_false_iff] at ok
  have passes : ¬(psta.ieee8021xBlocked = true ∧ pattrib.etherType ≠ 0x888e) := by
    rintro ⟨blocked, other⟩
    simp [blocked, other] at ok
  have keyed : ¬(encrypt = .tkip ∧ psecuritypriv.busetkipkey = false) := by
    rintro ⟨rfl, unset⟩
    simp [unset] at ok
  dsimp only
  rw [if_neg passes, if_neg keyed]
  have drawn : encrypt.isCipher = true → ∃ keyidx,
      (match encrypt with
        | .wep40 | .wep104 => wepIv psta.dot11txpn keyIdx
        | .tkip => tkipIv psta.dot11txpn (if isMcast pattrib.ra = true then keyIdx else 0)
        | .aes => aesIv psta.dot11txpn (if isMcast pattrib.ra = true then keyIdx else 0)
        | .noPrivacy | .tkipWtmic | .sms4 | .wepWpaMixed => pattrib.iv) =
        encrypt.drawIv psta.dot11txpn keyidx := by
    cases encrypt with
    | wep40 | wep104 | tkip | aes => exact fun _ => ⟨_, rfl⟩
    | noPrivacy | tkipWtmic | sms4 | wepWpaMixed => nofun
  cases encrypt with
  | tkip =>
      refine ⟨_, rfl, ?_⟩
      exact ⟨cipher.symm, rfl, rfl, rfl, drawn, fun _ => rfl, rfl, rfl, rfl, rfl, rfl, rfl⟩
  | noPrivacy | wep40 | tkipWtmic | aes | wep104 | sms4 | wepWpaMixed =>
      refine ⟨_, rfl, ?_⟩
      exact ⟨cipher.symm, rfl, rfl, rfl, drawn, nofun, rfl, rfl, rfl, rfl, rfl, rfl⟩

theorem updateAttribSecInfo_fail (fails : secInfoOk psecuritypriv pattrib psta = false) :
    ∃ sent, updateAttribSecInfo psecuritypriv pattrib psta = (false, sent, psta) ∧ sent.ra = pattrib.ra := by
  unfold secInfoOk cipherOf at fails
  unfold updateAttribSecInfo
  rcases chosen : chooseEncrypt psecuritypriv pattrib psta with ⟨encrypt, keyIdx⟩
  rw [chosen] at fails
  dsimp only
  split
  · exact ⟨_, rfl, rfl⟩
  · rename_i passes
    split
    · exact ⟨_, rfl, rfl⟩
    · rename_i keyed
      simp_all

end SecInfo

/-! ## update_attrib -/

/-- The station records by address. -/
abbrev StaTable := MacAddr → Option StaInfo

/-- The broadcast address, under which the record for groups is kept. -/
def bcAddr : MacAddr := fun _ => 0xff

/-- The address under which `rtw_get_stainfo` looks a receiver up. -/
def staAddr (hwaddr : MacAddr) : MacAddr := if isMcast hwaddr then bcAddr else hwaddr

/-- Six bytes of a packet. -/
def addrAt (pkt : List UInt8) (start : Nat) : MacAddr := fun i => pkt.getD (start + i) 0

/-- `update_attrib` up to the look-up of the station. -/
def etherAttrib (pmlmepriv : Mlme) (pattrib : PktAttrib) (pkt : List UInt8) : PktAttrib :=
  let dst := addrAt pkt 0
  let etherType := UInt16.ofNat ((pkt.getD 12 0).toNat * 256 + (pkt.getD 13 0).toNat)
  let pattrib := { pattrib with etherType := etherType, dst := dst, src := addrAt pkt 6 }
  match pmlmepriv.fwState with
  | .adhoc => { pattrib with ra := dst, ta := pmlmepriv.adapterMacAddr }
  | .station => { pattrib with ra := pmlmepriv.bssid, ta := pmlmepriv.adapterMacAddr }
  | .ap => { pattrib with ra := dst, ta := pmlmepriv.bssid }
  | .other => pattrib

/-- `update_attrib` behind `update_attrib_sec_info`; `priority` is what `set_qos` and `qos_acm`
choose for a QoS frame. -/
def phyAttrib (pmlmepriv : Mlme) (psta : StaInfo) (priority : UInt8) (pattrib : PktAttrib) : PktAttrib :=
  let qos := if pmlmepriv.fwState = .station then pmlmepriv.qosOption else psta.qosOption
  { pattrib with
    mdata := false, eosp := false, qosEn := psta.qosOption, ackPolicy := 0, pktHdrlen := ethHlen,
    hdrlen := if qos then 26 else 24,
    subtype := if qos then 0x88 else 0x08,
    priority := if qos then priority else 0 }

/-- A QoS frame has two bytes more in its header, and says so. -/
theorem phyAttrib_shape (pmlmepriv : Mlme) (psta : StaInfo) (priority : UInt8) (pattrib : PktAttrib) :
    (phyAttrib pmlmepriv psta priority pattrib).hdrlen = 24 ∧
        (phyAttrib pmlmepriv psta priority pattrib).subtype = 0x08 ∨
      (phyAttrib pmlmepriv psta priority pattrib).hdrlen = 26 ∧
        (phyAttrib pmlmepriv psta priority pattrib).subtype = 0x88 := by
  by_cases qos : (if pmlmepriv.fwState = .station then pmlmepriv.qosOption else psta.qosOption) = true
  · exact Or.inr ⟨if_pos qos, if_pos qos⟩
  · exact Or.inl ⟨if_neg qos, if_neg qos⟩

/-- `update_attrib`: the attributes, if it returns `_SUCCESS`, and the station records. -/
def updateAttrib (pmlmepriv : Mlme) (psecuritypriv : SecurityPriv) (stas : StaTable) (pattrib : PktAttrib)
    (pkt : List UInt8) (priority : UInt8) : Option PktAttrib × StaTable :=
  let pattrib := etherAttrib pmlmepriv pattrib pkt
  match stas (staAddr pattrib.ra) with
  | none => (none, stas)
  | some psta =>
      if psta.linked = false then (none, stas)
      else
        let pattrib := { pattrib with pktlen := pkt.length - ethHlen }
        let (ok, pattrib, psta') := updateAttribSecInfo psecuritypriv pattrib psta
        let stas := Function.update stas (staAddr pattrib.ra) (some psta')
        if ok then (some (phyAttrib pmlmepriv psta priority pattrib), stas) else (none, stas)

end Vmac.Transmit
