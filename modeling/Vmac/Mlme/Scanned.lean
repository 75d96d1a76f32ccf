/-
# Vmac.Mlme.Scanned -- the table of scanned networks: rtw_mlme.c, wlan_bssdef.h

The `MAX_BSS_CNT` records of `free_bss_buf` are intrusive list nodes, each linked into `free_bss_pool` or into
`scanned_queue`.  A survey result updates its record in place, takes a free record, or takes over the record that was
scanned longest ago.

Left out: P2P (`feature` is 0), the locks, `BcnInfo`, and the options that autoconf.h leaves undefined
(`CONFIG_RSSI_PRIORITY`, `CONFIG_ANTENNA_DIVERSITY`).  `unsigned long` has 64 bits.
-/
import Vmac.Theory.Placement
import Vmac.Theory.Run
import Vmac.Transmit.Attrib

namespace Vmac.Mlme.Scanned

open Theory.Placement Theory.Run
open Transmit (MacAddr)

set_option autoImplicit false

/-! ## Records -/

/-- `MAX_BSS_CNT`. -/
def maxBssCnt : Nat := 128

/-- `MAX_IE_SZ`. -/
def maxIeSz : Nat := 768

/-- `SCANQUEUE_LIFETIME`, in ms. -/
def scanqueueLifetime : BitVec 32 := 20000

/-- `BSS_TYPE_PROB_REQ`. -/
def bssTypeProbReq : UInt8 := 2

/-- `WLAN_CAPABILITY_BSS` and `WLAN_CAPABILITY_IBSS`. -/
def wlanCapabilityBss : BitVec 16 := 1

def wlanCapabilityIbss : BitVec 16 := 2

/-- `NDIS_802_11_SSID`. -/
structure Ssid where
  ssidLength : Nat
  ssid : Fin 32 → UInt8
  fits : ssidLength ≤ 32

/-- `NDIS_802_11_CONFIGURATION`. -/
structure Configuration where
  length : BitVec 32
  beaconPeriod : BitVec 32
  atimWindow : BitVec 32
  dsConfig : BitVec 32
  fhConfig : Fin 4 → BitVec 32

/-- `WLAN_PHY_INFO`. -/
structure PhyInfo where
  signalStrength : UInt8
  signalQuality : UInt8
  optimumAntenna : UInt8
  reserved0 : UInt8

/-- `WLAN_BSSID_EX`. -/
structure WlanBssidEx where
  length : Nat
  macAddress : MacAddr
  reserved : Fin 2 → UInt8
  ssid : Ssid
  privacy : BitVec 32
  rssi : Int
  networkTypeInUse : Nat
  configuration : Configuration
  infrastructureMode : Nat
  supportedRates : Fin 16 → UInt8
  phyInfo : PhyInfo
  ieLength : Nat
  ies : Fin 768 → UInt8
  fits : ieLength ≤ maxIeSz

/-- `struct wlan_network`; the list node is in `Table.queue`. -/
structure WlanNetwork where
  networkType : Int
  fixed : Bool
  lastScanned : BitVec 64
  aid : Int
  joinRes : Int
  network : WlanBssidEx

namespace WlanBssidEx

variable (bss : WlanBssidEx)

/-- `get_WLAN_BSSID_EX_sz`: all but `IEs` takes 124 bytes. -/
def size : Nat := 124 + bss.ieLength

/-- `rtw_get_capability`. -/
def rtwGetCapability : BitVec 16 := (bss.ies 11).toBitVec ++ (bss.ies 10).toBitVec

/-- `_rtw_memcpy(dst, src, get_WLAN_BSSID_EX_sz(src))`: the record up to the end of the elements in use. -/
def memcpy (dst src : WlanBssidEx) : WlanBssidEx :=
  { src with ies := fun i => if (i : Nat) < src.ieLength then src.ies i else dst.ies i }

end WlanBssidEx

/-- `is_same_network`. -/
def isSameNetwork (src dst : WlanBssidEx) : Bool :=
  src.ssid.ssidLength == dst.ssid.ssidLength && decide (src.macAddress = dst.macAddress) &&
    decide (∀ i : Fin 32, (i : Nat) < src.ssid.ssidLength → src.ssid.ssid i = dst.ssid.ssid i) &&
    src.rtwGetCapability &&& wlanCapabilityIbss == dst.rtwGetCapability &&& wlanCapabilityIbss &&
    src.rtwGetCapability &&& wlanCapabilityBss == dst.rtwGetCapability &&& wlanCapabilityBss

/-- What `is_same_network` compares. -/
@[ext]
structure Identity where
  macAddress : MacAddr
  ssidLength : Nat
  ssid : Fin 32 → Option UInt8
  /-- The IBSS and the ESS bit of the capabilities. -/
  capability : BitVec 8

def WlanBssidEx.identity (bss : WlanBssidEx) : Identity where
  macAddress := bss.macAddress
  ssidLength := bss.ssid.ssidLength
  ssid i := if (i : Nat) < bss.ssid.ssidLength then some (bss.ssid.ssid i) else none
  capability := (bss.ies 10).toBitVec &&& 3

theorem append_and_low (hi lo m : BitVec 8) : (hi ++ lo) &&& (0#8 ++ m) = 0#8 ++ (lo &&& m) := by
  rw [BitVec.and_append, BitVec.and_zero]

theorem append_low_inj {a b : BitVec 8} : 0#8 ++ a = 0#8 ++ b ↔ a = b := by
  constructor
  · intro same
    have low := congrArg BitVec.toNat same
    rw [BitVec.toNat_append, BitVec.toNat_append] at low
    exact BitVec.eq_of_toNat_eq (by simpa using low)
  · exact congrArg _

theorem capability_iff (a b : WlanBssidEx) :
    (a.rtwGetCapability &&& wlanCapabilityIbss = b.rtwGetCapability &&& wlanCapabilityIbss ∧
      a.rtwGetCapability &&& wlanCapabilityBss = b.rtwGetCapability &&& wlanCapabilityBss) ↔
      (a.ies 10).toBitVec &&& 3 = (b.ies 10).toBitVec &&& 3 := by
  have ibss : wlanCapabilityIbss = 0#8 ++ 2#8 := by decide
  have ess : wlanCapabilityBss = 0#8 ++ 1#8 := by decide
  have both : (3 : BitVec 8) = 2#8 ||| 1#8 := by decide
  simp only [WlanBssidEx.rtwGetCapability, ibss, ess, append_and_low, append_low_inj]
  constructor
  · rintro ⟨second, first⟩
    rw [both, BitVec.and_or_distrib_left, BitVec.and_or_distrib_left, second, first]
  · intro same
    have masked (m : BitVec 8) (inside : 3 &&& m = m) :
        (a.ies 10).toBitVec &&& m = (b.ies 10).toBitVec &&& m := by
      rw [← inside, ← BitVec.and_assoc, same, BitVec.and_assoc]
    exact ⟨masked 2 (by decide), masked 1 (by decide)⟩

theorem isSameNetwork_iff {a b : WlanBssidEx} : isSameNetwork a b = true ↔ a.identity = b.identity := by
  have ssid (length : a.ssid.ssidLength = b.ssid.ssidLength) :
      (∀ i : Fin 32, (i : Nat) < a.ssid.ssidLength → a.ssid.ssid i = b.ssid.ssid i) ↔
        a.identity.ssid = b.identity.ssid := by
    simp only [WlanBssidEx.identity, funext_iff, ← length]
    refine forall_congr' fun i => ?_
    by_cases inside : (i : Nat) < a.ssid.ssidLength <;> simp [inside]
  have caps := capability_iff a b
  rw [isSameNetwork]
  simp only [Bool.and_eq_true, beq_iff_eq, decide_eq_true_eq]
  constructor
  · rintro ⟨⟨⟨⟨length, mac⟩, bytes⟩, ibss⟩, ess⟩
    exact Identity.ext mac length ((ssid length).mp bytes) (caps.mp ⟨ibss, ess⟩)
  · intro same
    have length : a.ssid.ssidLength = b.ssid.ssidLength := congrArg Identity.ssidLength same
    have bytes := (ssid length).mpr (congrArg Identity.ssid same)
    obtain ⟨ibss, ess⟩ := caps.mpr (congrArg Identity.capability same)
    exact ⟨⟨⟨⟨length, congrArg Identity.macAddress same⟩, bytes⟩, ibss⟩, ess⟩

/-- `memcpy` hands the capability bits on: they are among the elements in use, or the record has them already. -/
def WlanBssidEx.Carries (dst src : WlanBssidEx) : Prop :=
  10 < src.ieLength ∨ (dst.ies 10).toBitVec &&& 3 = (src.ies 10).toBitVec &&& 3

theorem identity_memcpy_iff {dst src : WlanBssidEx} :
    (dst.memcpy src).identity = src.identity ↔ dst.Carries src := by
  have capability : (dst.memcpy src).identity = src.identity ↔
      ((dst.memcpy src).ies 10).toBitVec &&& 3 = (src.ies 10).toBitVec &&& 3 :=
    ⟨congrArg Identity.capability, fun capability => Identity.ext rfl rfl rfl capability⟩
  rw [capability, WlanBssidEx.Carries]
  by_cases inside : 10 < src.ieLength <;> simp [WlanBssidEx.memcpy, inside]

theorem carries_of_same {dst src : WlanBssidEx} (same : dst.identity = src.identity) : dst.Carries src :=
  .inr (congrArg Identity.capability same)

/-- `time_after`. -/
def timeAfter (a b : BitVec 64) : Bool := (b - a).slt 0

/-- What `update_network` reads of the adapter. -/
structure Adapter where
  /-- `_FW_LINKED`. -/
  linked : Bool
  /-- `mlmepriv.cur_network.network`. -/
  curNetwork : WlanBssidEx
  /-- `recvpriv.signal_strength` and `recvpriv.signal_qual`. -/
  signalStrength : UInt8
  signalQual : UInt8

/-- One part of a new sample, four of the value so far. -/
def fifth (sample history : UInt8) : UInt8 := UInt8.ofNat ((sample.toNat + history.toNat * 4) / 5)

/-- `update_network`. -/
def updateNetwork (dst src : WlanBssidEx) (padapter : Adapter) (updateIe : Bool) : WlanBssidEx :=
  let rightChannel := src.phyInfo.signalQuality ≠ 101
  let connected := padapter.linked && isSameNetwork padapter.curNetwork src
  let ssFinal :=
    if connected then padapter.signalStrength
    else if rightChannel then fifth src.phyInfo.signalStrength dst.phyInfo.signalStrength
    else dst.phyInfo.signalStrength
  let sqFinal :=
    if connected then padapter.signalQual
    else if rightChannel then fifth src.phyInfo.signalQuality dst.phyInfo.signalQuality
    else dst.phyInfo.signalQuality
  let rssiFinal := if rightChannel then (src.rssi + dst.rssi * 4).tdiv 5 else dst.rssi
  let dst := if updateIe then dst.memcpy src else dst
  { dst with
    phyInfo := { dst.phyInfo with signalStrength := ssFinal, signalQuality := sqFinal }
    rssi := rssiFinal }

theorem identity_updateNetwork {dst src : WlanBssidEx} (same : dst.identity = src.identity) (padapter : Adapter)
    (updateIe : Bool) : (updateNetwork dst src padapter updateIe).identity = src.identity := by
  cases updateIe with
  | false => exact same
  | true => exact identity_memcpy_iff.mpr (carries_of_same same)

/-! ## What becomes of a record -/

/-- `bss info not receving from the right channel`. -/
def rightChannelOnly (bss : WlanBssidEx) : WlanBssidEx :=
  if bss.phyInfo.signalQuality = 101 then { bss with phyInfo := { bss.phyInfo with signalQuality := 0 } } else bss

namespace WlanNetwork

variable (pnetwork : WlanNetwork) (target : WlanBssidEx) (jiffies : BitVec 64)

/-- `_rtw_alloc_network`. -/
def alloc : WlanNetwork :=
  { pnetwork with networkType := 0, fixed := false, lastScanned := jiffies, aid := 0, joinRes := 0 }

/-- `rtw_update_scanned_network`, where a free record becomes a new network's. -/
def pull : WlanNetwork :=
  { pnetwork with network := rightChannelOnly (pnetwork.network.memcpy target), lastScanned := jiffies }

/-- `rtw_update_scanned_network`, where the oldest record becomes a new network's. -/
def expire : WlanNetwork where
  network := rightChannelOnly (pnetwork.network.memcpy target)
  fixed := false
  lastScanned := jiffies
  networkType := 0
  aid := 0
  joinRes := 0

/-- `rtw_update_scanned_network`, where the record is this network's. -/
def update (adapter : Adapter) : WlanNetwork :=
  -- `update_ie` is set twice; the second time decides
  let updateIe := decide (target.reserved 0 ≠ bssTypeProbReq ∧ pnetwork.network.reserved 0 ≤ target.reserved 0)
  { pnetwork with lastScanned := jiffies, network := updateNetwork pnetwork.network target adapter updateIe }

@[simp] theorem identity_rightChannelOnly (bss : WlanBssidEx) : (rightChannelOnly bss).identity = bss.identity := by
  unfold rightChannelOnly
  split <;> rfl

theorem identity_pull_iff :
    ((pnetwork.alloc jiffies).pull target jiffies).network.identity = target.identity ↔
      pnetwork.network.Carries target := by
  rw [← identity_memcpy_iff, pull, identity_rightChannelOnly, alloc]

theorem identity_expire_iff :
    (pnetwork.expire target jiffies).network.identity = target.identity ↔ pnetwork.network.Carries target := by
  rw [← identity_memcpy_iff, expire, identity_rightChannelOnly]

theorem identity_update (adapter : Adapter) (same : pnetwork.network.identity = target.identity) :
    (pnetwork.update target jiffies adapter).network.identity = target.identity :=
  identity_updateNetwork same adapter _

end WlanNetwork

/-! ## The table -/

/-- A record, by its index in `free_bss_buf`. -/
abbrev Record := Fin maxBssCnt

inductive Place where
  /-- `free_bss_pool`. -/
  | free
  /-- `scanned_queue`. -/
  | scanned
  deriving DecidableEq, Repr

/-- What `struct mlme_priv` has of the scanned networks. -/
structure Table where
  network : Record → WlanNetwork
  queue : Queues Place Record
  numOfScanned : BitVec 32
  jiffies : BitVec 64

namespace Table

def setNetwork (s : Table) (p : Record) (pnetwork : WlanNetwork) : Table :=
  { s with network := Function.update s.network p pnetwork }

@[simp] theorem setNetwork_queue (s : Table) (p : Record) (r : WlanNetwork) : (s.setNetwork p r).queue = s.queue := rfl

@[simp] theorem setNetwork_self (s : Table) (p : Record) (r : WlanNetwork) : (s.setNetwork p r).network p = r := by
  simp [setNetwork]

@[simp] theorem setNetwork_of_ne (s : Table) {p q : Record} (r : WlanNetwork) (other : q ≠ p) :
    (s.setNetwork p r).network q = s.network q := by
  simp [setNetwork, other]

/-- `_rtw_alloc_network`. -/
def rtwAllocNetwork (s : Table) : Option (Record × Table) :=
  match s.queue .free with
  | [] => none
  | p :: _ =>
      let s := s.setNetwork p ((s.network p).alloc s.jiffies)
      some (p, { s with queue := unlink p s.queue, numOfScanned := s.numOfScanned + 1 })

/-- The end of `_rtw_free_network` and of `_rtw_free_network_nolock`. -/
def release (s : Table) (p : Record) : Table :=
  { s with queue := append .free p (unlink p s.queue), numOfScanned := s.numOfScanned - 1 }

/-- `_rtw_free_network_nolock`. -/
def rtwFreeNetworkNolock (pnetwork : Option Record) (s : Table) : Table :=
  match pnetwork with
  | none => s
  | some p =>
      if (s.network p).fixed then s
      else s.release p

/-- The record was scanned less than a `lifetime` ago; `adhoc` is one of `WIFI_ADHOC_MASTER_STATE` and
`WIFI_ADHOC_STATE`. -/
def young (jiffiesToMsecs : BitVec 64 → BitVec 32) (adhoc : Bool) (s : Table) (p : Record) : Bool :=
  let lifetime := if adhoc then 1 else scanqueueLifetime
  decide (jiffiesToMsecs (s.jiffies - (s.network p).lastScanned) < lifetime)

/-- `_rtw_free_network`. -/
def rtwFreeNetwork (jiffiesToMsecs : BitVec 64 → BitVec 32) (adhoc : Bool) (pnetwork : Option Record)
    (isfreeall : Bool) (s : Table) : Table :=
  match pnetwork with
  | none => s
  | some p =>
      if (s.network p).fixed then s
      else if !isfreeall && s.young jiffiesToMsecs adhoc p then s
      else s.release p

/-- The older of two records in `rtw_update_scanned_network`. -/
def older (s : Table) (oldest : Option Record) (p : Record) : Option Record :=
  match oldest with
  | none => some p
  | some q => if timeAfter (s.network q).lastScanned (s.network p).lastScanned then some p else some q

/-- The loop of `rtw_update_scanned_network`: the record that it breaks at, or `oldest` at the end of the queue. -/
def search (s : Table) (target : WlanBssidEx) : List Record → Option Record → Record ⊕ Option Record
  | [], oldest => .inr oldest
  | p :: rest, oldest =>
      if isSameNetwork (s.network p).network target then .inl p else s.search target rest (s.older oldest p)

/-- `rtw_update_scanned_network`. -/
def rtwUpdateScannedNetwork (adapter : Adapter) (target : WlanBssidEx) (s : Table) : Table :=
  match s.search target (s.queue .scanned) none with
  | .inr oldest =>
      if s.queue .free = [] then
        match oldest with
        | none => s
        | some p => s.setNetwork p ((s.network p).expire target s.jiffies)
      else
        match s.rtwAllocNetwork with
        | none => s
        | some (p, s) =>
            let target := { target with length := target.size }
            let s := s.setNetwork p ((s.network p).pull target s.jiffies)
            { s with queue := append .scanned p s.queue }
  | .inl p => s.setNetwork p ((s.network p).update target s.jiffies adapter)

/-- The loop of `rtw_get_oldest_wlan_network`. -/
def getOldest (s : Table) : List Record → Option Record → Option Record
  | [], oldest => oldest
  | p :: rest, oldest => s.getOldest rest (if (s.network p).fixed then oldest else s.older oldest p)

/-- `rtw_get_oldest_wlan_network`. -/
def rtwGetOldestWlanNetwork (s : Table) : Option Record := s.getOldest (s.queue .scanned) none

/-- `_rtw_find_same_network`. -/
def rtwFindSameNetwork (s : Table) (network : WlanBssidEx) : Option Record :=
  (s.queue .scanned).find? fun p => isSameNetwork network (s.network p).network

end Table

/-- `rtw_zvmalloc`: a record of zeros. -/
def zeroed : WlanNetwork where
  networkType := 0
  fixed := false
  lastScanned := 0
  aid := 0
  joinRes := 0
  network :=
    { length := 0
      macAddress := fun _ => 0
      reserved := fun _ => 0
      ssid := ⟨0, fun _ => 0, Nat.zero_le _⟩
      privacy := 0
      rssi := 0
      networkTypeInUse := 0
      configuration := ⟨0, 0, 0, 0, fun _ => 0⟩
      infrastructureMode := 0
      supportedRates := fun _ => 0
      phyInfo := ⟨0, 0, 0, 0⟩
      ieLength := 0
      ies := fun _ => 0
      fits := Nat.zero_le _ }

/-- `_rtw_init_mlme_priv`. -/
def initMlmePriv : Table where
  network _ := zeroed
  queue
    | .free => List.finRange maxBssCnt
    | .scanned => []
  numOfScanned := 0
  jiffies := 0

/-! ## Steps -/

inductive Event where
  /-- `rtw_update_scanned_network`. -/
  | survey (adapter : Adapter) (target : WlanBssidEx)
  /-- `_rtw_free_network`. -/
  | free (adhoc : Bool) (pnetwork : Option Record) (isfreeall : Bool)
  /-- `_rtw_free_network_nolock`. -/
  | freeNolock (pnetwork : Option Record)
  /-- A join sets the mark of a record, the end of a connection clears it. -/
  | setFixed (p : Record) (fixed : Bool)
  /-- Time passes. -/
  | pass (jiffies : BitVec 64)

/-- One step. -/
def apply (jiffiesToMsecs : BitVec 64 → BitVec 32) (s : Table) : Event → Table
  | .survey adapter target => s.rtwUpdateScannedNetwork adapter target
  | .free adhoc pnetwork isfreeall => s.rtwFreeNetwork jiffiesToMsecs adhoc pnetwork isfreeall
  | .freeNolock pnetwork => s.rtwFreeNetworkNolock pnetwork
  | .setFixed p fixed => s.setNetwork p { s.network p with fixed := fixed }
  | .pass jiffies => { s with jiffies := s.jiffies + jiffies }

end Vmac.Mlme.Scanned
