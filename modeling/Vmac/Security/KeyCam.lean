/-
# Vmac.Security.KeyCam -- the key table of the chip: rtw_wlan_util.c

The driver keeps a bitmap of the entries in use and a cache of their contents.
`rtw_camid_alloc` looks for an entry with the address and the key id among all the cached ones,
used or not, and takes a free one behind the default entries when there is none; a group key of
an AP or of an ad hoc station has the default entry of its key id.

* `Kept`: every installed key is in its entry, and no entry is that of two keys.
* `allocation_exclusive`: what an allocation and a swap do in any state of a run.
* `shared_or_lost`: where group and pairwise keys are not told apart, and what is not found again.
-/
import Vmac.Theory.Run
import Vmac.Transmit.Attrib

namespace Vmac.Security.KeyCam

open Theory.Run
open Transmit (MacAddr)

set_option autoImplicit false

/-! ## Data -/

/-- An entry: `SEC_CAM_ENT_NUM_SW_LIMIT` of them are used. -/
abbrev Entry := Fin 32

/-- `struct sec_cam_ent`. -/
structure SecCamEnt where
  ctrl : UInt16
  mac : MacAddr
  key : Fin 16 → UInt8
  deriving DecidableEq

def nullAddr : MacAddr := fun _ => 0

/-- What `clear_cam_cache` leaves. -/
def nullEnt : SecCamEnt := ⟨0, nullAddr, fun _ => 0⟩

/-- `struct cam_ctl_t` with `SEC_CAP_CHK_BMC`, and `cam_cache`. -/
structure CamCtl where
  chkBmc : Bool
  used : BitVec 32
  camCache : Entry → SecCamEnt

/-- The fields of `mlme_ext_info` and `mlme_priv` that the allocation reads. -/
structure MlmeInfo where
  state : UInt32
  bssid : MacAddr

def wifiFwApState : UInt32 := 0x03
def wifiFwAdhocState : UInt32 := 0x01
def wifiFwStationState : UInt32 := 0x02
def wifiFwAssocSuccess : UInt32 := 0x4000

/-- `dot11PrivacyAlgrthm`. -/
inductive Algorithm
  | wep40
  | tkip
  | tkipWtmic
  | aes
  | wep104
  | sms4
  deriving DecidableEq, Repr

def Algorithm.code : Algorithm → UInt16
  | wep40 => 1
  | tkip => 2
  | tkipWtmic => 3
  | aes => 4
  | wep104 => 5
  | sms4 => 6

namespace CamCtl

/-! ## The table -/

/-- `_rtw_sec_camid_is_used`. -/
def isUsed (s : CamCtl) (id : Entry) : Bool := s.used &&& BitVec.twoPow 32 id != 0

/-- `rtw_camid_set`. -/
def camidSet (s : CamCtl) (id : Entry) : CamCtl := { s with used := s.used ||| BitVec.twoPow 32 id }

/-- `rtw_camid_free`. -/
def camidFree (s : CamCtl) (id : Entry) : CamCtl := { s with used := s.used &&& ~~~BitVec.twoPow 32 id }

/-- `write_cam`. -/
def writeCam (s : CamCtl) (id : Entry) (ent : SecCamEnt) : CamCtl :=
  { s with camCache := Function.update s.camCache id ent }

/-- `clear_cam_entry`. -/
def clearCamEntry (s : CamCtl) (id : Entry) : CamCtl := s.writeCam id nullEnt

/-- `_rtw_camid_is_gk`. -/
def camidIsGk (s : CamCtl) (id : Entry) : Bool := s.isUsed id && (s.camCache id).ctrl &&& 0x40 != 0

/-- `cam_cache_chk`; a null address and the numbers -1 are `none`. -/
def camCacheChk (s : CamCtl) (id : Entry) (addr : Option MacAddr) (kid : Option UInt8) (gk : Option Bool) : Bool :=
  addr.all (fun a => (s.camCache id).mac == a) && kid.all (fun k => (s.camCache id).ctrl &&& 0x03 == k.toUInt16) &&
    gk.all fun g => s.camidIsGk id == g

/-- `_rtw_camid_search`. -/
def camidSearch (s : CamCtl) (addr : Option MacAddr) (kid : Option UInt8) (gk : Option Bool) : Option Entry :=
  (List.finRange 32).find? fun id => s.camCacheChk id addr kid gk

/-- `rtw_get_camid` with `start_id` 0. -/
def getCamid (s : CamCtl) (sta : Bool) (addr : MacAddr) (kid : UInt8) : Option Entry :=
  match s.camidSearch (some addr) (some kid) (if s.chkBmc then some !sta else none) with
  | some i => some i
  | none => (List.finRange 32).find? fun i => decide (4 ≤ i.val) && !s.isUsed i

/-- AP or ad hoc mode. -/
def staticGroup (info : MlmeInfo) : Bool :=
  info.state &&& 0x03 == wifiFwApState || info.state &&& 0x03 == wifiFwAdhocState

/-- What `rtw_camid_alloc` has before `bitmap_handle`; a group key has no `sta`. -/
def camidChoose (s : CamCtl) (info : MlmeInfo) (sta : Option MacAddr) (kid : UInt8) : Option Entry :=
  match sta with
  | some addr => s.getCamid true addr kid
  | none =>
      if staticGroup info then
        if 3 < kid then none else some (Fin.ofNat 32 kid.toNat)
      else if info.state &&& wifiFwAssocSuccess = 0 then none
      else s.getCamid false info.bssid kid

/-- `rtw_camid_alloc`: the entry, and `*used`. -/
def camidAlloc (s : CamCtl) (info : MlmeInfo) (sta : Option MacAddr) (kid : UInt8) : CamCtl × Option Entry × Bool :=
  match s.camidChoose info sta kid with
  | none => (s, none, false)
  | some id => (s.camidSet id, some id, s.isUsed id)

/-- `rtw_sec_cam_swap`. -/
def secCamSwap (s : CamCtl) (a b : Entry) : CamCtl :=
  if a = b then s
  else
    let aUsed := s.isUsed a
    let bUsed := s.isUsed b
    let cacheA := s.camCache a
    let cacheB := s.camCache b
    let s := if aUsed then (s.camidFree a).clearCamEntry a else s
    let s := if bUsed then (s.camidFree b).clearCamEntry b else s
    let s := if aUsed then (s.writeCam b cacheA).camidSet b else s
    if bUsed then (s.writeCam a cacheB).camidSet a else s

/-- `rtw_get_empty_cam_entry`. -/
def getEmptyCamEntry (s : CamCtl) (start : Nat) : Option Entry :=
  (List.finRange 32).find? fun i => decide (start ≤ i.val) && !s.isUsed i

/-- Where `rtw_clean_dk_section` moves a default entry to. -/
def cleanTarget (s : CamCtl) (i : Entry) : Option Entry :=
  if s.isUsed i then (s.getEmptyCamEntry 4).filter fun e => decide (0 < e.val) else none

end CamCtl

/-! ## Keys -/

structure CamKey where
  addr : MacAddr
  kid : UInt8
  group : Bool
  deriving DecidableEq

/-- A key to be installed: `setkey_parm` without a station, `set_stakey_parm` with one. -/
structure KeyReq where
  info : MlmeInfo
  sta : Option MacAddr
  kid : UInt8
  algorithm : Algorithm
  key : Fin 16 → UInt8

/-- The word that is written with a key. -/
def ctrlOf (group : Bool) (algorithm : Algorithm) (kid : UInt8) : UInt16 :=
  let gk : UInt16 := if group then 0x40 else 0
  let algorithm : UInt16 := algorithm.code <<< 2
  0x8000 ||| gk ||| algorithm ||| kid.toUInt16

namespace KeyReq

/-- A group key of an AP, with a default entry. -/
def isStatic (r : KeyReq) : Bool := r.sta.isNone && CamCtl.staticGroup r.info

/-- The address that is written with the key: none for a default entry, the BSSID for another group key. -/
def addr (r : KeyReq) : MacAddr :=
  match r.sta with
  | some a => a
  | none => if r.isStatic then nullAddr else r.info.bssid

def camKey (r : KeyReq) : CamKey := ⟨r.addr, r.kid, r.sta.isNone⟩

/-- `ctrl`. -/
def ctrl (r : KeyReq) : UInt16 := ctrlOf r.sta.isNone r.algorithm r.kid

/-- Not refused: a default entry exists, or the station is connected. -/
def Served (r : KeyReq) : Prop :=
  r.sta = none → if r.isStatic then r.kid ≤ 3 else r.info.state &&& wifiFwAssocSuccess ≠ 0

end KeyReq

/-! ## Runs -/

/-- The table, and where each key has been installed. -/
structure Cam where
  ctl : CamCtl
  installed : CamKey → Option Entry

namespace Cam

/-- `invalidate_cam_all`. -/
def initial (chkBmc : Bool) : Cam := ⟨⟨chkBmc, 0, fun _ => nullEnt⟩, fun _ => none⟩

def install (c : Cam) (r : KeyReq) : Cam :=
  match c.ctl.camidAlloc r.info r.sta r.kid with
  | (_, none, _) => c
  | (ctl, some id, _) =>
      ⟨ctl.writeCam id ⟨r.ctrl, r.addr, r.key⟩, Function.update c.installed r.camKey (some id)⟩

def free (c : Cam) (id : Entry) : Cam :=
  ⟨(c.ctl.clearCamEntry id).camidFree id, fun k => if c.installed k = some id then none else c.installed k⟩

def swap (c : Cam) (a b : Entry) : Cam := ⟨c.ctl.secCamSwap a b, fun k => (c.installed k).map (Equiv.swap a b)⟩

def cleanTurn (c : Cam) (i : Entry) : Cam :=
  match c.ctl.cleanTarget i with
  | some e => c.swap i e
  | none => c

/-- `rtw_clean_dk_section`. -/
def cleanDkSection (c : Cam) : Cam := [0, 1, 2, 3].foldl cleanTurn c

inductive Op
  | install (r : KeyReq)
  | free (id : Entry)
  | swap (a b : Entry)
  | cleanDkSection

def apply (c : Cam) : Op → Cam
  | .install r => c.install r
  | .free id => c.free id
  | .swap a b => c.swap a b
  | .cleanDkSection => c.cleanDkSection

/-- Not a key of a default entry. -/
def Movable (c : Cam) (id : Entry) : Prop := c.ctl.isUsed id = true → (c.ctl.camCache id).mac ≠ nullAddr

/-- A key id that `ctrl` can hold and an address; or a default entry that no other key has been moved into. -/
def Installable (c : Cam) (r : KeyReq) : Prop :=
  if r.isStatic then
    ∀ e : Entry, e.val = r.kid.toNat → c.ctl.isUsed e = true → (c.ctl.camCache e).mac = nullAddr
  else r.addr ≠ nullAddr ∧ r.kid ≤ 3

/-- What may be done: the keys of default entries stay where they are. -/
def allowed (c : Cam) : Op → Prop
  | .install r => r.Served → c.Installable r
  | .free _ => True
  | .swap a b => c.Movable a ∧ c.Movable b
  | .cleanDkSection => ∀ i : Entry, i.val < 4 → c.Movable i

end Cam

/-! ## The bitmap -/

namespace CamCtl

variable (s : CamCtl)

theorem isUsed_eq (id : Entry) : s.isUsed id = s.used.getLsbD id := by
  have bound := id.isLt
  rw [isUsed, Bool.eq_iff_iff, bne_iff_ne]
  refine ⟨fun some_ => ?_, fun on none_ => ?_⟩
  · by_contra off
    refine some_ (BitVec.eq_of_getLsbD_eq fun i inside => ?_)
    by_cases here : id.val = i
    · rw [BitVec.getLsbD_and, ← here, Bool.eq_false_iff.mpr off]
      simp
    · simp [here]
  · have own : (s.used &&& BitVec.twoPow 32 id).getLsbD id = (0 : BitVec 32).getLsbD id := by rw [none_]
    rw [BitVec.getLsbD_and, on, BitVec.getLsbD_twoPow] at own
    simp [bound] at own

@[simp] theorem isUsed_camidSet (id x : Entry) : (s.camidSet id).isUsed x = (decide (x = id) || s.isUsed x) := by
  have bound := x.isLt
  rw [isUsed_eq, isUsed_eq, camidSet, BitVec.getLsbD_or, BitVec.getLsbD_twoPow, Bool.or_comm]
  simp [bound, Fin.ext_iff, eq_comm]

@[simp] theorem isUsed_camidFree (id x : Entry) : (s.camidFree id).isUsed x = (!decide (x = id) && s.isUsed x) := by
  have bound := x.isLt
  rw [isUsed_eq, isUsed_eq, camidFree, BitVec.getLsbD_and, BitVec.getLsbD_not, BitVec.getLsbD_twoPow, Bool.and_comm]
  simp [bound, Fin.ext_iff, eq_comm]

@[simp] theorem isUsed_writeCam (id x : Entry) (ent : SecCamEnt) : (s.writeCam id ent).isUsed x = s.isUsed x := rfl

@[simp] theorem isUsed_clearCamEntry (id x : Entry) : (s.clearCamEntry id).isUsed x = s.isUsed x := rfl

@[simp] theorem camCache_camidSet (id : Entry) : (s.camidSet id).camCache = s.camCache := rfl

@[simp] theorem camCache_camidFree (id : Entry) : (s.camidFree id).camCache = s.camCache := rfl

@[simp] theorem camCache_writeCam (id : Entry) (ent : SecCamEnt) :
    (s.writeCam id ent).camCache = Function.update s.camCache id ent := rfl

@[simp] theorem camCache_clearCamEntry (id : Entry) :
    (s.clearCamEntry id).camCache = Function.update s.camCache id nullEnt := rfl

/-! ## A swap -/

/-- The entries that are not in use are cleared. -/
def Cleared : Prop := ∀ x, s.isUsed x = false → s.camCache x = nullEnt

variable {s}

theorem Cleared.swap_camCache (cleared : s.Cleared) (a b x : Entry) :
    (s.secCamSwap a b).camCache x = s.camCache (Equiv.swap a b x) := by
  rw [secCamSwap]
  split
  · rename_i same
    rw [same, Equiv.swap_self, Equiv.refl_apply]
  · rename_i other
    have ua := cleared a
    have ub := cleared b
    dsimp only
    cases hA : s.isUsed a <;> cases hB : s.isUsed b <;>
      rcases eq_or_ne x a with rfl | na <;> rcases eq_or_ne x b with rfl | nb <;>
      simp_all [Equiv.swap_apply_of_ne_of_ne]

theorem swap_isUsed (a b x : Entry) : (s.secCamSwap a b).isUsed x = s.isUsed (Equiv.swap a b x) := by
  rw [secCamSwap]
  split
  · rename_i same
    rw [same, Equiv.swap_self, Equiv.refl_apply]
  · rename_i other
    dsimp only
    cases hA : s.isUsed a <;> cases hB : s.isUsed b <;>
      rcases eq_or_ne x a with rfl | na <;> rcases eq_or_ne x b with rfl | nb <;>
      simp_all [Equiv.swap_apply_of_ne_of_ne]

@[simp] theorem secCamSwap_chkBmc (a b : Entry) : (s.secCamSwap a b).chkBmc = s.chkBmc := by
  rw [secCamSwap]
  split
  · rfl
  · dsimp only
    split <;> split <;> rfl

end CamCtl

/-! ## What an entry says -/

/-- `ctrl & BIT(6)`. -/
def SecCamEnt.isGk (ent : SecCamEnt) : Bool := ent.ctrl &&& 0x40 != 0

/-- An entry is that of a key, as far as the chip tells keys apart. -/
def IsOf (chkBmc : Bool) (ent : SecCamEnt) (k : CamKey) : Prop :=
  ent.mac = k.addr ∧ ent.ctrl &&& 0x03 = k.kid.toUInt16 ∧ (chkBmc = true → ent.isGk = k.group)

/-- Two keys are one for the chip. -/
def Same (chkBmc : Bool) (k k' : CamKey) : Prop := k.addr = k'.addr ∧ k.kid = k'.kid ∧ (chkBmc = true → k = k')

theorem IsOf.same {chkBmc : Bool} {ent : SecCamEnt} {k k' : CamKey} (is_of : IsOf chkBmc ent k)
    (also : IsOf chkBmc ent k') : Same chkBmc k k' := by
  obtain ⟨mac, kid, gk⟩ := is_of
  obtain ⟨mac', kid', gk'⟩ := also
  have addr : k.addr = k'.addr := mac.symm.trans mac'
  have id : k.kid = k'.kid := UInt8.toUInt16_inj.mp (kid.symm.trans kid')
  refine ⟨addr, id, fun cap => ?_⟩
  have group : k.group = k'.group := (gk cap).symm.trans (gk' cap)
  cases k
  cases k'
  simp only at addr id group
  rw [addr, id, group]

theorem ctrlOf_bits (group : Bool) (algorithm : Algorithm) (k : Fin 4) :
    ctrlOf group algorithm (UInt8.ofNat k) &&& 0x03 = (UInt8.ofNat k).toUInt16 ∧
      (ctrlOf group algorithm (UInt8.ofNat k) &&& 0x40 != 0) = group := by
  cases algorithm <;> revert group k <;> decide

/-- What is written is the key. -/
theorem KeyReq.isOf (r : KeyReq) (low : r.kid ≤ 3) (chkBmc : Bool) : IsOf chkBmc ⟨r.ctrl, r.addr, r.key⟩ r.camKey := by
  have value : UInt8.ofNat r.kid.toNat = r.kid := UInt8.ofNat_toNat
  obtain ⟨kid, gk⟩ := ctrlOf_bits r.sta.isNone r.algorithm
    ⟨r.kid.toNat, Nat.lt_succ_of_le (UInt8.le_iff_toNat_le.mp low)⟩
  rw [value] at kid gk
  exact ⟨rfl, kid, fun _ => gk⟩

/-! ## The invariant -/

structure Kept (c : Cam) : Prop where
  /-- An entry that is not in use is cleared. -/
  cleared : c.ctl.Cleared
  /-- An installed key is in its entry. -/
  inside : ∀ k e, c.installed k = some e → c.ctl.isUsed e = true ∧ IsOf c.ctl.chkBmc (c.ctl.camCache e) k
  /-- An entry in use is that of an installed key, -/
  owned : ∀ e, c.ctl.isUsed e = true → ∃ k, c.installed k = some e
  /-- and of no key that is in another entry. -/
  apart : ∀ k e e', c.ctl.isUsed e = true → c.ctl.isUsed e' = true → IsOf c.ctl.chkBmc (c.ctl.camCache e) k →
    IsOf c.ctl.chkBmc (c.ctl.camCache e') k → e = e'
  /-- A key without an address is a group key in the default entry of its key id. -/
  default : ∀ k e, c.installed k = some e → k.addr = nullAddr → e.val = k.kid.toNat ∧ k.group = true

namespace Kept

variable {c : Cam} {k : CamKey} {r : KeyReq} {e : Entry}

theorem initial (chkBmc : Bool) : Kept (Cam.initial chkBmc) := by
  have off : ∀ e, (Cam.initial chkBmc).ctl.isUsed e = false := by
    intro e
    rw [CamCtl.isUsed_eq]
    simp [Cam.initial]
  refine ⟨fun _ _ => rfl, fun k e some_ => ?_, fun e on => ?_, fun k e e' on => ?_, fun k e some_ => ?_⟩
  · cases some_
  · exact absurd on (by rw [off]; decide)
  · exact absurd on (by rw [off]; decide)
  · cases some_

/-- The search finds the entry of a key, and only that. -/
theorem search_iff (kept : Kept c) (k : CamKey) (some_ : k.addr ≠ nullAddr) (e : Entry) :
    c.ctl.camidSearch (some k.addr) (some k.kid) (if c.ctl.chkBmc then some k.group else none) = some e ↔
      c.ctl.isUsed e = true ∧ IsOf c.ctl.chkBmc (c.ctl.camCache e) k := by
  have check : ∀ x,
      c.ctl.camCacheChk x (some k.addr) (some k.kid) (if c.ctl.chkBmc then some k.group else none) = true ↔
        c.ctl.isUsed x = true ∧ IsOf c.ctl.chkBmc (c.ctl.camCache x) k := by
    intro x
    by_cases on : c.ctl.isUsed x = true
    · cases cap : c.ctl.chkBmc <;>
        simp [CamCtl.camCacheChk, CamCtl.camidIsGk, IsOf, SecCamEnt.isGk, on, and_assoc]
    · have blank := kept.cleared x (Bool.not_eq_true _ ▸ on)
      simp [CamCtl.camCacheChk, on, blank, nullEnt, Ne.symm some_]
  refine ⟨fun found => (check e).mp ?_, fun own => ?_⟩
  · exact @List.find?_some _ _ e (List.finRange 32) found
  · cases found : c.ctl.camidSearch (some k.addr) (some k.kid) (if c.ctl.chkBmc then some k.group else none) with
    | none => exact absurd ((check e).mpr own) (List.find?_eq_none.mp found e (List.mem_finRange e))
    | some e' =>
        obtain ⟨on, is_of⟩ := (check e').mp (@List.find?_some _ _ e' (List.finRange 32) found)
        rw [kept.apart k e' e on own.1 is_of own.2]

/-- An entry without an address is a default entry. -/
theorem of_default (kept : Kept c) (on : c.ctl.isUsed e = true) (mac : (c.ctl.camCache e).mac = nullAddr) :
    ∃ k, c.installed k = some e ∧ k.addr = nullAddr ∧ e.val = k.kid.toNat ∧ k.group = true := by
  obtain ⟨k, own⟩ := kept.owned e on
  have addr : k.addr = nullAddr := (kept.inside k e own).2.1.symm.trans mac
  exact ⟨k, own, addr, kept.default k e own addr⟩

end Kept

theorem camidChoose_static {s : CamCtl} {r : KeyReq} (isStatic : r.isStatic = true) (low : r.kid ≤ 3) :
    s.camidChoose r.info r.sta r.kid = some (Fin.ofNat 32 r.kid.toNat) := by
  obtain ⟨none_, mode⟩ := (Bool.and_eq_true ..).mp isStatic
  rw [Option.isNone_iff_eq_none] at none_
  simp [CamCtl.camidChoose, none_, mode, UInt8.not_lt.mpr low]

theorem camidChoose_searched {s : CamCtl} {r : KeyReq} (other : r.isStatic = false) (served : r.Served) :
    s.camidChoose r.info r.sta r.kid = s.getCamid (!r.camKey.group) r.addr r.kid := by
  rw [KeyReq.addr, KeyReq.camKey]
  cases sta : r.sta with
  | some a => rfl
  | none =>
      have mode : CamCtl.staticGroup r.info = false := by simpa [KeyReq.isStatic, sta] using other
      have connected := served sta
      rw [other, if_neg Bool.false_ne_true] at connected
      simp [CamCtl.camidChoose, mode, other, connected]

/-- The entry for a key is its own, or one that is not in use while the key is in no entry. -/
structure Chosen (c : Cam) (r : KeyReq) (e : Entry) : Prop where
  low : r.kid ≤ 3
  own_or_free : c.ctl.isUsed e = true ∧ IsOf c.ctl.chkBmc (c.ctl.camCache e) r.camKey ∨
    c.ctl.isUsed e = false ∧ ∀ e', c.ctl.isUsed e' = true → ¬IsOf c.ctl.chkBmc (c.ctl.camCache e') r.camKey
  default : r.addr = nullAddr → e.val = r.kid.toNat ∧ r.sta.isNone = true

theorem Kept.chosen {c : Cam} {r : KeyReq} {e : Entry} (kept : Kept c) (served : r.Served) (may : c.Installable r)
    (choose : c.ctl.camidChoose r.info r.sta r.kid = some e) : Chosen c r e := by
  rw [Cam.Installable] at may
  cases mode : r.isStatic with
  | true =>
      have none_ : r.sta = none := Option.isNone_iff_eq_none.mp ((Bool.and_eq_true ..).mp mode).1
      have low : r.kid ≤ 3 := by simpa [mode] using served none_
      rw [mode, if_pos rfl] at may
      rw [camidChoose_static mode low] at choose
      have place : e.val = r.kid.toNat := by
        have bound : r.kid.toNat < 32 := (UInt8.le_iff_toNat_le.mp low).trans_lt (by decide)
        rw [← Option.some.inj choose, Fin.val_ofNat, Nat.mod_eq_of_lt bound]
      have addr : r.addr = nullAddr := by simp [KeyReq.addr, none_, mode]
      refine ⟨low, ?_, fun _ => ⟨place, by rw [none_]; rfl⟩⟩
      cases on : c.ctl.isUsed e with
      | true =>
          obtain ⟨k, own, null, default, group⟩ := kept.of_default on (may e place on)
          have kid : k.kid = r.kid := UInt8.toNat_inj.mp (default.symm.trans place)
          have same : k = r.camKey := by
            rw [KeyReq.camKey, addr, ← kid, none_, ← null]
            exact congrArg (CamKey.mk k.addr k.kid) group
          exact .inl ⟨rfl, same ▸ (kept.inside k e own).2⟩
      | false =>
          refine .inr ⟨rfl, fun e' on' is_of => ?_⟩
          obtain ⟨k, own, -, default, -⟩ := kept.of_default on' (is_of.1.trans addr)
          have kid : k.kid = r.kid := ((kept.inside k e' own).2.same is_of).2.1
          have here : e' = e := Fin.ext (by rw [default, kid, place])
          rw [here, on] at on'
          exact Bool.false_ne_true on'
  | false =>
      rw [mode, if_neg Bool.false_ne_true] at may
      rw [camidChoose_searched mode served, CamCtl.getCamid, Bool.not_not] at choose
      refine ⟨may.2, ?_, fun null => absurd null may.1⟩
      have search := kept.search_iff r.camKey may.1
      split at choose
      · rename_i found
        exact .inl ((search e).mp (Option.some.inj choose ▸ found))
      · rename_i missing
        have free := List.find?_some choose
        rw [Bool.and_eq_true, Bool.not_eq_true'] at free
        refine .inr ⟨free.2, fun e' on is_of => ?_⟩
        have found := (search e').mpr ⟨on, is_of⟩
        rw [show c.ctl.camidSearch (some r.camKey.addr) (some r.camKey.kid) _ = none from missing] at found
        cases found

/-! ## What each operation keeps -/

section Steps

variable {c : Cam}

theorem IsOf.of_same {chkBmc : Bool} {ent : SecCamEnt} {k k' : CamKey} (is_of : IsOf chkBmc ent k)
    (same : Same chkBmc k k') : IsOf chkBmc ent k' := by
  obtain ⟨mac, kid, gk⟩ := is_of
  obtain ⟨addr, id, equal⟩ := same
  exact ⟨mac.trans addr, id ▸ kid, fun cap => equal cap ▸ gk cap⟩

/-- The write of a key. -/
theorem Kept.write {c' : Cam} {r : KeyReq} {e : Entry} (kept : Kept c) (chosen : Chosen c r e)
    (eq : c' = ⟨(c.ctl.camidSet e).writeCam e ⟨r.ctrl, r.addr, r.key⟩,
      Function.update c.installed r.camKey (some e)⟩) : Kept c' := by
  have on_iff : ∀ x, c'.ctl.isUsed x = true ↔ x = e ∨ c.ctl.isUsed x = true := by
    intro x
    simp [eq]
  have ent_self : c'.ctl.camCache e = ⟨r.ctrl, r.addr, r.key⟩ := by simp [eq]
  have ent_other : ∀ x, x ≠ e → c'.ctl.camCache x = c.ctl.camCache x := by
    intro x other
    simp [eq, other]
  have at_self : c'.installed r.camKey = some e := by simp [eq]
  have at_other : ∀ k, k ≠ r.camKey → c'.installed k = c.installed k := by
    intro k other
    simp [eq, other]
  have cap : c'.ctl.chkBmc = c.ctl.chkBmc := by rw [eq]; rfl
  have written : IsOf c.ctl.chkBmc (c'.ctl.camCache e) r.camKey := ent_self ▸ r.isOf chosen.low c.ctl.chkBmc
  have ours : ∀ x, x ≠ e → c.ctl.isUsed x = true → ¬IsOf c.ctl.chkBmc (c.ctl.camCache x) r.camKey := by
    intro x other on is_of
    rcases chosen.own_or_free with ⟨on', own⟩ | ⟨-, missing⟩
    · exact other (kept.apart r.camKey x e on on' is_of own)
    · exact missing x on is_of
  refine ⟨fun x off => ?_, fun k x at_ => ?_, fun x on => ?_, fun k x y on on' is_of is_of' => ?_,
    fun k x at_ null => ?_⟩
  · rw [Bool.eq_false_iff, ne_eq, on_iff, not_or] at off
    rw [ent_other x off.1, kept.cleared x (Bool.eq_false_iff.mpr off.2)]
  · rw [cap]
    by_cases own : k = r.camKey
    · rw [own, at_self] at at_
      rw [← Option.some.inj at_, own]
      exact ⟨(on_iff e).mpr (.inl rfl), written⟩
    · rw [at_other k own] at at_
      obtain ⟨on, is_of⟩ := kept.inside k x at_
      refine ⟨(on_iff x).mpr (.inr on), ?_⟩
      by_cases here : x = e
      · rw [here] at on is_of ⊢
        rcases chosen.own_or_free with ⟨-, mine⟩ | ⟨off, -⟩
        · exact written.of_same (mine.same is_of)
        · rw [off] at on
          exact absurd on Bool.false_ne_true
      · rw [ent_other x here]
        exact is_of
  · by_cases here : x = e
    · exact ⟨r.camKey, here ▸ at_self⟩
    · have before := ((on_iff x).mp on).resolve_left here
      obtain ⟨k, at_⟩ := kept.owned x before
      have other : k ≠ r.camKey := fun own => ours x here before (own ▸ (kept.inside k x at_).2)
      exact ⟨k, (at_other k other).trans at_⟩
  · rw [cap] at is_of is_of'
    by_cases hx : x = e <;> by_cases hy : y = e
    · rw [hx, hy]
    · rw [hx] at is_of
      rw [ent_other y hy] at is_of'
      exact absurd (is_of'.of_same (is_of.same written)) (ours y hy (((on_iff y).mp on').resolve_left hy))
    · rw [hy] at is_of'
      rw [ent_other x hx] at is_of
      exact absurd (is_of.of_same (is_of'.same written)) (ours x hx (((on_iff x).mp on).resolve_left hx))
    · rw [ent_other x hx] at is_of
      rw [ent_other y hy] at is_of'
      exact kept.apart k x y (((on_iff x).mp on).resolve_left hx) (((on_iff y).mp on').resolve_left hy) is_of is_of'
  · by_cases own : k = r.camKey
    · rw [own, at_self] at at_
      rw [own] at null ⊢
      rw [← Option.some.inj at_]
      exact chosen.default null
    · exact kept.default k x ((at_other k own).symm.trans at_) null

theorem Kept.install {r : KeyReq} (kept : Kept c) (may : r.Served → c.Installable r) (served : r.Served) :
    Kept (c.install r) := by
  rw [Cam.install, CamCtl.camidAlloc]
  cases choose : c.ctl.camidChoose r.info r.sta r.kid with
  | none => exact kept
  | some e => exact kept.write (kept.chosen served (may served) choose) rfl

/-- A request that is refused changes nothing. -/
theorem install_refused {r : KeyReq} (refused : ¬r.Served) : c.install r = c := by
  have sta : r.sta = none := by
    by_contra other
    exact refused fun none_ => absurd none_ other
  have nothing : c.ctl.camidChoose r.info r.sta r.kid = none := by
    rw [KeyReq.Served, not_forall] at refused
    obtain ⟨-, refused⟩ := refused
    cases mode : CamCtl.staticGroup r.info <;>
      simp [KeyReq.isStatic, sta, mode] at refused <;> simp [CamCtl.camidChoose, sta, mode, refused]
  rw [Cam.install, CamCtl.camidAlloc, nothing]

theorem Kept.free (kept : Kept c) (id : Entry) : Kept (c.free id) := by
  have at_iff : ∀ k x, (c.free id).installed k = some x ↔ c.installed k = some x ∧ x ≠ id := by
    intro k x
    simp only [Cam.free]
    split
    · rename_i here
      simp [here, eq_comm]
    · rename_i other
      exact ⟨fun at_ => ⟨at_, fun here => other (here ▸ at_)⟩, And.left⟩
  have on_iff : ∀ x, (c.free id).ctl.isUsed x = true ↔ c.ctl.isUsed x = true ∧ x ≠ id := by
    intro x
    simp [Cam.free, and_comm]
  have ent : ∀ x, x ≠ id → (c.free id).ctl.camCache x = c.ctl.camCache x :=
    fun x other => Function.update_of_ne other ..
  refine ⟨fun x off => ?_, fun k x at_ => ?_, fun x on => ?_, fun k x y on on' is_of is_of' => ?_, fun k x at_ => ?_⟩
  · by_cases here : x = id
    · rw [here]
      exact Function.update_self ..
    · rw [ent x here]
      refine kept.cleared x (Bool.eq_false_iff.mpr fun on => ?_)
      rw [(on_iff x).mpr ⟨on, here⟩] at off
      cases off
  · obtain ⟨at_, other⟩ := (at_iff k x).mp at_
    obtain ⟨on, is_of⟩ := kept.inside k x at_
    exact ⟨(on_iff x).mpr ⟨on, other⟩, (ent x other).symm ▸ is_of⟩
  · obtain ⟨on, other⟩ := (on_iff x).mp on
    obtain ⟨k, at_⟩ := kept.owned x on
    exact ⟨k, (at_iff k x).mpr ⟨at_, other⟩⟩
  · obtain ⟨on, other⟩ := (on_iff x).mp on
    obtain ⟨on', other'⟩ := (on_iff y).mp on'
    rw [ent x other] at is_of
    rw [ent y other'] at is_of'
    exact kept.apart k x y on on' is_of is_of'
  · exact kept.default k x ((at_iff k x).mp at_).1

theorem Kept.swap {a b : Entry} (kept : Kept c) (first : c.Movable a) (second : c.Movable b) : Kept (c.swap a b) := by
  have ent : ∀ x, (c.swap a b).ctl.camCache x = c.ctl.camCache (Equiv.swap a b x) := kept.cleared.swap_camCache a b
  have on : ∀ x, (c.swap a b).ctl.isUsed x = c.ctl.isUsed (Equiv.swap a b x) := CamCtl.swap_isUsed a b
  have cap : (c.swap a b).ctl.chkBmc = c.ctl.chkBmc := CamCtl.secCamSwap_chkBmc a b
  have at_iff : ∀ k x, (c.swap a b).installed k = some x ↔ c.installed k = some (Equiv.swap a b x) := by
    intro k x
    rw [Cam.swap, Option.map_eq_some_iff]
    refine ⟨fun ⟨y, at_, moved⟩ => ?_, fun at_ => ⟨_, at_, Equiv.swap_apply_self ..⟩⟩
    rw [← moved, Equiv.swap_apply_self, at_]
  refine ⟨fun x off => ?_, fun k x at_ => ?_, fun x used => ?_, fun k x y used used' is_of is_of' => ?_,
    fun k x at_ null => ?_⟩
  · rw [ent]
    exact kept.cleared _ (on x ▸ off)
  · rw [on, cap, ent]
    exact kept.inside k _ ((at_iff k x).mp at_)
  · obtain ⟨k, at_⟩ := kept.owned _ (on x ▸ used)
    exact ⟨k, (at_iff k x).mpr at_⟩
  · rw [cap, ent] at is_of is_of'
    exact (Equiv.swap a b).injective (kept.apart k _ _ (on x ▸ used) (on y ▸ used') is_of is_of')
  · have before := (at_iff k x).mp at_
    obtain ⟨used, mac, -⟩ := kept.inside k _ before
    have unmoved : Equiv.swap a b x = x := by
      refine Equiv.swap_apply_of_ne_of_ne (fun here => ?_) fun here => ?_
      · rw [here, Equiv.swap_apply_left] at used mac
        exact second used (mac.trans null)
      · rw [here, Equiv.swap_apply_right] at used mac
        exact first used (mac.trans null)
    rw [unmoved] at before
    exact kept.default k x before null

/-- Where a default entry is moved to: a free entry behind the default entries. -/
theorem cleanTarget_some {s : CamCtl} {i e : Entry} (target : s.cleanTarget i = some e) :
    4 ≤ e.val ∧ s.isUsed e = false := by
  rw [CamCtl.cleanTarget] at target
  split at target
  · have free := List.find?_some (Option.filter_eq_some_iff.mp target).1
    simpa using free
  · cases target

/-- A default entry is moved behind the default entries, and the others stay. -/
theorem Kept.cleanTurn {i : Entry} (kept : Kept c) (movable : ∀ i : Entry, i.val < 4 → c.Movable i) (low : i.val < 4) :
    Kept (c.cleanTurn i) ∧ ∀ j : Entry, j.val < 4 → (c.cleanTurn i).Movable j := by
  rw [Cam.cleanTurn]
  cases target : c.ctl.cleanTarget i with
  | none => exact ⟨kept, movable⟩
  | some e =>
      obtain ⟨behind, off⟩ := cleanTarget_some target
      have free : c.Movable e := fun on => absurd on (by rw [off]; decide)
      refine ⟨kept.swap (movable i low) free, fun j below => ?_⟩
      have swapped : ∀ x, (c.swap i e).Movable x ↔ c.Movable (Equiv.swap i e x) := by
        intro x
        rw [Cam.Movable, Cam.Movable, Cam.swap, CamCtl.swap_isUsed, kept.cleared.swap_camCache]
      rw [swapped]
      by_cases here : j = i
      · rw [here, Equiv.swap_apply_left]
        exact free
      · have other : j ≠ e := fun same => by rw [same] at below; omega
        rw [Equiv.swap_apply_of_ne_of_ne here other]
        exact movable j below

theorem Kept.cleanDkSection (kept : Kept c) (movable : ∀ i : Entry, i.val < 4 → c.Movable i) :
    Kept c.cleanDkSection := by
  obtain ⟨kept, movable⟩ := @Kept.cleanTurn c 0 kept movable (by decide)
  obtain ⟨kept, movable⟩ := @Kept.cleanTurn _ 1 kept movable (by decide)
  obtain ⟨kept, movable⟩ := @Kept.cleanTurn _ 2 kept movable (by decide)
  exact (@Kept.cleanTurn _ 3 kept movable (by decide)).1

theorem Kept.apply {op : Cam.Op} (kept : Kept c) (may : c.allowed op) : Kept (c.apply op) := by
  cases op with
  | install r =>
      by_cases served : r.Served
      · exact kept.install may served
      · rw [Cam.apply, install_refused served]
        exact kept
  | free id => exact kept.free id
  | swap a b => exact kept.swap may.1 may.2
  | cleanDkSection => exact kept.cleanDkSection may

/-- Every state of a run. -/
theorem kept_of_run {chkBmc : Bool} (run : Runs Cam.apply Cam.allowed (Cam.initial chkBmc) c) : Kept c :=
  run.keeps (.initial chkBmc) fun _ _ kept may => kept.apply may

end Steps

/-! ## Exclusiveness -/

theorem camidAlloc_snd {s : CamCtl} {r : KeyReq} {e : Entry} {used : Bool} :
    (s.camidAlloc r.info r.sta r.kid).2 = (some e, used) ↔
      s.camidChoose r.info r.sta r.kid = some e ∧ used = s.isUsed e := by
  rw [CamCtl.camidAlloc]
  cases s.camidChoose r.info r.sta r.kid with
  | none => simp
  | some i =>
      simp only [Prod.mk.injEq, Option.some.injEq]
      exact and_congr_right fun same => by rw [same, eq_comm]

/-- The entry of an installed key is found. -/
theorem Kept.camidChoose {c : Cam} {r : KeyReq} {e : Entry} (kept : Kept c) (served : r.Served) (may : c.Installable r)
    (at_ : c.installed r.camKey = some e) : c.ctl.camidChoose r.info r.sta r.kid = some e := by
  rw [Cam.Installable] at may
  cases mode : r.isStatic with
  | true =>
      have none_ : r.sta = none := Option.isNone_iff_eq_none.mp ((Bool.and_eq_true ..).mp mode).1
      have addr : r.addr = nullAddr := by simp [KeyReq.addr, none_, mode]
      have place : e.val = r.kid.toNat := (kept.default r.camKey e at_ addr).1
      have bound := e.isLt
      rw [camidChoose_static mode (by simpa [mode] using served none_)]
      exact congrArg some (Fin.ext (by rw [Fin.val_ofNat, ← place, Nat.mod_eq_of_lt bound]))
  | false =>
      rw [mode, if_neg Bool.false_ne_true] at may
      have found := (kept.search_iff r.camKey may.1 e).mpr (kept.inside r.camKey e at_)
      rw [camidChoose_searched mode served, CamCtl.getCamid, Bool.not_not,
        show c.ctl.camidSearch (some r.addr) (some r.kid) _ = some e from found]

/-- The other key that the chip does not tell from a key. -/
def CamKey.other (k : CamKey) : CamKey := { k with group := !k.group }

theorem Same.eq_or_other {chkBmc : Bool} {k k' : CamKey} (same : Same chkBmc k k') :
    k = k' ∨ chkBmc = false ∧ k = k'.other := by
  obtain ⟨addr, kid, equal⟩ := same
  cases cap : chkBmc with
  | true => exact .inl (equal cap)
  | false =>
      cases k
      cases k'
      rename_i group _ _ group'
      simp only at addr kid
      cases group <;> cases group' <;> simp [CamKey.other, addr, kid]

/-- In every state of a run: two installed keys in one entry have one address and one key id, and are equal if the chip
tells group and pairwise keys apart; a request for an installed key gets its entry; a request for another key gets an
entry that is not in use, or that of the group or pairwise key that is not told apart from it; a swap exchanges two
entries. -/
theorem allocation_exclusive {chkBmc : Bool} {c : Cam} (run : Runs Cam.apply Cam.allowed (Cam.initial chkBmc) c) :
    (∀ k k' e, c.installed k = some e → c.installed k' = some e → Same c.ctl.chkBmc k k') ∧
      (∀ r : KeyReq, r.Served → c.Installable r → ∀ e, c.installed r.camKey = some e →
        (c.ctl.camidAlloc r.info r.sta r.kid).2 = (some e, true)) ∧
      (∀ r : KeyReq, r.Served → c.Installable r → c.installed r.camKey = none → ∀ e used,
        (c.ctl.camidAlloc r.info r.sta r.kid).2 = (some e, used) →
          c.ctl.isUsed e = false ∧ used = false ∨
            c.ctl.chkBmc = false ∧ used = true ∧ c.installed r.camKey.other = some e) ∧
      ∀ a b x, (c.ctl.secCamSwap a b).camCache x = c.ctl.camCache (Equiv.swap a b x) ∧
        (c.ctl.secCamSwap a b).isUsed x = c.ctl.isUsed (Equiv.swap a b x) := by
  have kept := kept_of_run run
  refine ⟨fun k k' e at_ at' => ?_, fun r served may e at_ => ?_, fun r served may missing e used alloc => ?_,
    fun a b x => ⟨kept.cleared.swap_camCache a b x, CamCtl.swap_isUsed a b x⟩⟩
  · exact (kept.inside k e at_).2.same (kept.inside k' e at').2
  · rw [camidAlloc_snd]
    exact ⟨kept.camidChoose served may at_, (kept.inside r.camKey e at_).1.symm⟩
  · obtain ⟨choose, value⟩ := camidAlloc_snd.mp alloc
    rcases (kept.chosen served may choose).own_or_free with ⟨on, is_of⟩ | ⟨off, -⟩
    · obtain ⟨k, at_⟩ := kept.owned e on
      rcases ((kept.inside k e at_).2.same is_of).eq_or_other with own | ⟨cap, other⟩
      · rw [own, missing] at at_
        cases at_
      · exact .inr ⟨cap, value.trans on, other ▸ at_⟩
    · exact .inl ⟨off, value.trans off⟩

/-! ## Four sequences -/

def someAddr : MacAddr := fun _ => 2

/-- Connected to the BSS of the address. -/
def asStation : MlmeInfo := ⟨wifiFwStationState ||| wifiFwAssocSuccess, someAddr⟩

def pairwiseReq (addr : MacAddr) (kid : UInt8) : KeyReq := ⟨asStation, some addr, kid, .aes, fun _ => 1⟩

def groupReq (info : MlmeInfo) (kid : UInt8) : KeyReq := ⟨info, none, kid, .aes, fun _ => 2⟩

def asAp : MlmeInfo := ⟨wifiFwApState, nullAddr⟩

theorem allocation_exclusive_pairwise :
    (((Cam.initial false).install (pairwiseReq someAddr 0)).ctl.camidAlloc asStation (some someAddr) 0).2 =
      (some 4, true) :=
  have served : (pairwiseReq someAddr 0).Served := fun none_ => absurd none_ (by decide)
  have may : (Cam.initial false).Installable (pairwiseReq someAddr 0) := ⟨by decide, by decide⟩
  have once : Runs Cam.apply Cam.allowed (Cam.initial false) ((Cam.initial false).install (pairwiseReq someAddr 0)) :=
    .step .start (Cam.Op.install (pairwiseReq someAddr 0)) fun _ => may
  (allocation_exclusive once).2.1 (pairwiseReq someAddr 0) served ⟨by decide, by decide⟩ 4 (by decide +kernel)

/-- A group key gets the entry of the pairwise key with its address and key id.  A key with the key id 4, a group key of
an AP that has been moved and a key without an address are in an entry and get another one. -/
theorem shared_or_lost :
    (let c := (Cam.initial false).install (pairwiseReq someAddr 0)
     c.installed (groupReq asStation 0).camKey = none ∧ (c.ctl.camidAlloc asStation none 0).2 = (some 4, true) ∧
      (c.install (groupReq asStation 0)).installed (pairwiseReq someAddr 0).camKey = some 4 ∧
      (c.install (groupReq asStation 0)).installed (groupReq asStation 0).camKey = some 4) ∧
    (let c := (Cam.initial false).install (pairwiseReq someAddr 4)
     c.installed (pairwiseReq someAddr 4).camKey = some 4 ∧
      (c.ctl.camidAlloc asStation (some someAddr) 4).2 = (some 5, false)) ∧
    (let c := ((Cam.initial false).install (groupReq asAp 1)).cleanDkSection
     c.installed (groupReq asAp 1).camKey = some 4 ∧ (c.ctl.camidAlloc asAp none 1).2 = (some 1, false)) ∧
    (let c := ((Cam.initial false).install (pairwiseReq nullAddr 0)).swap 0 5
     c.installed (pairwiseReq nullAddr 0).camKey = some 5 ∧
      (c.ctl.camidAlloc asStation (some nullAddr) 0).2 = (some 0, false)) := by
  decide +kernel

end Vmac.Security.KeyCam
