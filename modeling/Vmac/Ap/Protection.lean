/-
# Vmac.Ap.Protection -- the protection counters of a BSS: rtw_ap.c

`bss_cap_update_on_sta_join` counts an associated station under each of the things that it
cannot do, with a flag in its record for each counter it is in, and
`bss_cap_update_on_sta_leave` takes it out.  A station that joins again is counted anew.

* `Cell.others`: each update changes a counter as it changes the record's flag.
* `counters_exact`: in which runs the counters are those of the associated stations.
* `greenfield_stuck`, `intolerant_stuck`: two runs in which they are not.
-/
import Vmac.Theory.Marks
import Vmac.Theory.Run
import Vmac.Transmit.Attrib

namespace Vmac.Ap

open Theory.Marks Theory.Run
open Transmit (MacAddr)

set_option autoImplicit false

/-! ## Data -/

/-- A counter of `mlme_priv`, together with the flag of a record that is counted in it. -/
inductive Prot
  /-- `num_sta_non_erp`, `nonerp_set`. -/
  | nonErp
  /-- `num_sta_no_short_slot_time`, `no_short_slot_time_set`. -/
  | noShortSlotTime
  /-- `num_sta_no_short_preamble`, `no_short_preamble_set`. -/
  | noShortPreamble
  /-- `num_sta_ht_no_gf`, `no_ht_gf_set`. -/
  | htNoGf
  /-- `num_sta_no_ht`, `no_ht_set`. -/
  | noHt
  /-- `num_sta_ht_20mhz`, `ht_20mhz_set`. -/
  | ht20mhz
  /-- `num_sta_40mhz_intolerant`, `ht_40mhz_intolerant`. -/
  | fortyMhzIntolerant
  deriving DecidableEq, Repr

/-- What a station says of itself when it associates: `flags`, `capability` and
`htpriv.ht_cap.cap_info` of `sta_info`. -/
structure StaCap where
  flags : UInt32
  capability : UInt16
  htCapInfo : UInt16
  deriving DecidableEq, Repr

def staShortPreamble : UInt32 := 0x80
def staHt : UInt32 := 0x800
def staNonerp : UInt32 := 0x80000000
def capabilityShortSlot : UInt16 := 0x400
def htCapSupWidth : UInt16 := 0x2
def htCapGrnFld : UInt16 := 0x10

/-- The rest of `sta_info` that the updates use. -/
structure StaProt where
  cap : StaCap
  aid : Nat
  marked : Prot → Bool

/-- `_rtw_init_stainfo`. -/
def initStainfo : StaProt := ⟨⟨0, 0, 0⟩, 0, fun _ => false⟩

/-- What `update_beacon` is called for. -/
inductive BeaconIe
  | erpinfo
  | tim
  | htCapability
  | htAddInfo
  | other
  deriving DecidableEq, Repr

/-- The fields of `mlme_priv`, `mlme_ext_priv` and `sta_priv` that the updates use. -/
structure BssProt where
  numSta : Prot → Int
  curWirelessMode : UInt8
  htOption : Bool
  /-- `htpriv.ht_cap.cap_info` of the access point. -/
  htCapInfo : UInt16
  htOpMode : UInt16
  olbcHt : Bool
  ht20mhzWidthReq : Bool
  htIntolerantChReported : Bool
  timBitmap : UInt16
  /-- What the machine gives for `1 << aid` where C does not define it. -/
  overshift : Nat → UInt16
  /-- The calls of `update_beacon`, the last one first. -/
  beacons : List BeaconIe

namespace BssProt

def bit (m : BssProt) (aid : Nat) : UInt16 := if aid < 32 then UInt16.ofNat (2 ^ aid) else m.overshift aid

def updateBeacon (m : BssProt) (ie : BeaconIe) : BssProt := { m with beacons := ie :: m.beacons }

/-! ## rtw_ht_operation_update -/

def nonGfDevsPresent : UInt16 := 0x4
def nonHtStaPresent : UInt16 := 0x10
def opModeMask : UInt16 := 0x3

/-- One of the two bits of `ht_op_mode` that follow a counter. -/
def opModeBit (mode bit : UInt16) (present : Bool) : UInt16 × Nat :=
  if mode &&& bit = 0 && present then (mode ||| bit, 1)
  else if mode &&& bit != 0 && !present then (mode &&& ~~~bit, 1)
  else (mode, 0)

/-- `rtw_ht_operation_update`: the new state and `op_mode_changes`. -/
def htOperationUpdate (m : BssProt) : BssProt × Nat :=
  if m.htOption = false then (m, 0)
  else
    let (mode, gf) := opModeBit m.htOpMode nonGfDevsPresent (m.numSta .htNoGf != 0)
    let (mode, ht) := opModeBit mode nonHtStaPresent (m.numSta .noHt != 0 || m.olbcHt)
    let newOpMode : UInt16 :=
      if m.numSta .noHt ≠ 0 then 3
      else if m.htCapInfo &&& htCapSupWidth ≠ 0 ∧ m.numSta .ht20mhz ≠ 0 then 2
      else if m.olbcHt then 1
      else 0
    let (mode, op) := if mode &&& opModeMask ≠ newOpMode then (mode &&& ~~~opModeMask ||| newOpMode, 1) else (mode, 0)
    ({ m with htOpMode := mode }, gf + ht + op)

end BssProt

/-! ## One counter and one flag -/

/-- What an update works on: `pmlmepriv` and `psta`. -/
structure Cell where
  bss : BssProt
  psta : StaProt

namespace Cell

/-- `if (!psta->…_set) { psta->…_set = 1; pmlmepriv->num_sta_…++; }` -/
def mark (c : Cell) (k : Prot) : Cell :=
  if c.psta.marked k then c
  else
    ⟨{ c.bss with numSta := Function.update c.bss.numSta k (c.bss.numSta k + 1) },
      { c.psta with marked := Function.update c.psta.marked k true }⟩

/-- `if (psta->…_set) { psta->…_set = 0; pmlmepriv->num_sta_…--; }` -/
def unmark (c : Cell) (k : Prot) : Cell :=
  if c.psta.marked k then
    ⟨{ c.bss with numSta := Function.update c.bss.numSta k (c.bss.numSta k - 1) },
      { c.psta with marked := Function.update c.psta.marked k false }⟩
  else c

def assign (c : Cell) (k : Prot) (present : Bool) : Cell := if present then c.mark k else c.unmark k

/-- Whether a change of a flag is the first station's or the last one's. -/
def edge (c c' : Cell) (k : Prot) : Bool :=
  (!c.psta.marked k && c'.psta.marked k && c'.bss.numSta k == 1) ||
    (c.psta.marked k && !c'.psta.marked k && c'.bss.numSta k == 0)

/-- `if (needed) update_beacon(padapter, ie, …)` -/
def updateBeacon (c : Cell) (needed : Bool) (ie : BeaconIe) : Cell :=
  if needed then { c with bss := c.bss.updateBeacon ie } else c

end Cell

/-- What a station cannot do. -/
def StaCap.has (cap : StaCap) : Prot → Bool
  | .nonErp => cap.flags &&& staNonerp != 0
  | .noShortSlotTime => cap.capability &&& capabilityShortSlot == 0
  | .noShortPreamble => cap.flags &&& staShortPreamble == 0
  | .htNoGf => cap.flags &&& staHt != 0 && cap.htCapInfo &&& htCapGrnFld == 0
  | .noHt => cap.flags &&& staHt == 0
  | .ht20mhz => cap.flags &&& staHt != 0 && cap.htCapInfo &&& htCapSupWidth == 0
  | .fortyMhzIntolerant => false

/-! ## bss_cap_update_on_sta_join and bss_cap_update_on_sta_leave -/

/-- `WIRELESS_11B`. -/
def wireless11b : UInt8 := 1

/-- The calls of `rtw_ht_operation_update` and `update_beacon` at the end of both functions. -/
def Cell.htUpdate (c : Cell) : Cell × Bool :=
  let changed := decide (0 < c.bss.htOperationUpdate.2)
  ((Cell.updateBeacon ⟨c.bss.htOperationUpdate.1, c.psta⟩ changed .htCapability).updateBeacon changed .htAddInfo, changed)

/-- `bss_cap_update_on_sta_join`. -/
def bssCapUpdateOnStaJoin (c : Cell) : Cell :=
  let cap := c.psta.cap
  let c₁ := c.assign .noShortPreamble (cap.flags &&& staShortPreamble == 0)
  let preamble := decide (wireless11b < c.bss.curWirelessMode) && c.edge c₁ .noShortPreamble
  let c₂ := c₁.assign .nonErp (cap.flags &&& staNonerp != 0)
  let erp := c₁.edge c₂ .nonErp
  let c₂ := c₂.updateBeacon erp .erpinfo
  let c₃ := c₂.assign .noShortSlotTime (cap.capability &&& capabilityShortSlot == 0)
  let slot := decide (wireless11b < c.bss.curWirelessMode) && c₂.edge c₃ .noShortSlotTime
  let c₄ :=
    if cap.flags &&& staHt != 0 then
      let c := c₃.unmark .noHt
      let c := if cap.htCapInfo &&& htCapGrnFld == 0 then c.mark .htNoGf else c
      if cap.htCapInfo &&& htCapSupWidth == 0 then c.mark .ht20mhz else c
    else c₃.mark .noHt
  let (c₅, ht) := c₄.htUpdate
  c₅.updateBeacon (preamble || erp || slot || ht) .other

/-- `bss_cap_update_on_sta_leave`, with its result `beacon_updated`. -/
def bssCapUpdateOnStaLeave (c : Cell) : Cell × Bool :=
  let tim := c.bss.timBitmap &&& c.bss.bit c.psta.aid != 0
  let timBitmap := if tim then c.bss.timBitmap &&& ~~~c.bss.bit c.psta.aid else c.bss.timBitmap
  let c := Cell.updateBeacon { c with bss := { c.bss with timBitmap } } tim .tim
  let c₁ := c.unmark .noShortPreamble
  let preamble := decide (wireless11b < c.bss.curWirelessMode) && c.edge c₁ .noShortPreamble
  let c₂ := c₁.unmark .nonErp
  let erp := c₁.edge c₂ .nonErp
  let c₂ := c₂.updateBeacon erp .erpinfo
  let c₃ := c₂.unmark .noShortSlotTime
  let slot := decide (wireless11b < c.bss.curWirelessMode) && c₂.edge c₃ .noShortSlotTime
  let c₄ := ((c₃.unmark .htNoGf).unmark .noHt).unmark .ht20mhz
  let c₅ := c₄.htUpdate.1
  let updated := tim || preamble || erp || slot
  (c₅.updateBeacon updated .other, updated)

/-! ## rtw_process_public_act_bsscoex -/

/-- A 20/40 BSS coexistence frame: what lies behind its header, and `frame_body_len`. -/
structure CoexFrame where
  body : Nat → UInt8
  len : Nat

/-- The frame has the element with the station's information. -/
def CoexFrame.informs (f : CoexFrame) : Bool := 0 < f.len && f.body 2 == 72 && 0 < f.body 3

def CoexFrame.intolerant (f : CoexFrame) : Bool := f.body 4 &&& 0x2 != 0

/-- `rtw_process_public_act_bsscoex` for the station it finds. -/
def processPublicActBsscoex (c : Cell) (f : CoexFrame) : Cell :=
  let (c, updated) :=
    if f.informs then
      if f.intolerant then (c.mark .fortyMhzIntolerant, !c.psta.marked .fortyMhzIntolerant)
      else if f.body 4 &&& 0x4 != 0 && !c.bss.ht20mhzWidthReq then
        ({ c with bss := { c.bss with ht20mhzWidthReq := true } }, true)
      else (c, false)
    else (c, false)
  let (c, updated) :=
    if 8 < f.len && f.body 5 == 73 && 0 < f.body 6 && !c.bss.htIntolerantChReported then
      ({ c with bss := { c.bss with htIntolerantChReported := true } }, true)
    else (c, updated)
  c.updateBeacon updated .htAddInfo

/-! ## What one update does -/

namespace Cell

/-- How many other stations a counter counts. -/
def others (c : Cell) (k : Prot) : Int := c.bss.numSta k - (c.psta.marked k).toInt

variable (c : Cell) (j k : Prot) (present needed : Bool) (ie : BeaconIe)

@[simp] theorem mark_marked : (c.mark k).psta.marked = Function.update c.psta.marked k true := by
  rw [mark]
  split
  · rename_i already
    rw [← already, Function.update_eq_self]
  · rfl

@[simp] theorem unmark_marked : (c.unmark k).psta.marked = Function.update c.psta.marked k false := by
  rw [unmark]
  split
  · rfl
  · rename_i never
    rw [← Bool.eq_false_iff.mpr never, Function.update_eq_self]

@[simp] theorem assign_marked : (c.assign k present).psta.marked = Function.update c.psta.marked k present := by
  cases present <;> simp [assign]

@[simp] theorem mark_others : (c.mark k).others j = c.others j := by
  rw [mark]
  split
  · rfl
  · rename_i fresh
    rcases eq_or_ne j k with rfl | ne
    · simp [others, fresh, Bool.toInt]
    · simp [others, ne]

@[simp] theorem unmark_others : (c.unmark k).others j = c.others j := by
  rw [unmark]
  split
  · rename_i counted
    rcases eq_or_ne j k with rfl | ne
    · simp [others, counted, Bool.toInt]
    · simp [others, ne]
  · rfl

@[simp] theorem assign_others : (c.assign k present).others j = c.others j := by
  cases present <;> simp [assign]

@[simp] theorem mark_cap : (c.mark k).psta.cap = c.psta.cap := by
  rw [mark]
  split <;> rfl

@[simp] theorem unmark_cap : (c.unmark k).psta.cap = c.psta.cap := by
  rw [unmark]
  split <;> rfl

@[simp] theorem assign_cap : (c.assign k present).psta.cap = c.psta.cap := by
  cases present <;> simp [assign]

@[simp] theorem mark_aid : (c.mark k).psta.aid = c.psta.aid := by
  rw [mark]
  split <;> rfl

@[simp] theorem unmark_aid : (c.unmark k).psta.aid = c.psta.aid := by
  rw [unmark]
  split <;> rfl

@[simp] theorem assign_aid : (c.assign k present).psta.aid = c.psta.aid := by
  cases present <;> simp [assign]

@[simp] theorem updateBeacon_psta : (c.updateBeacon needed ie).psta = c.psta := by
  cases needed <;> rfl

@[simp] theorem updateBeacon_others : (c.updateBeacon needed ie).others j = c.others j := by
  cases needed <;> rfl

@[simp] theorem htUpdate_psta : c.htUpdate.1.psta = c.psta := by simp [htUpdate]

@[simp] theorem htUpdate_others : c.htUpdate.1.others j = c.others j := by
  have counters : c.bss.htOperationUpdate.1.numSta = c.bss.numSta := by
    rw [BssProt.htOperationUpdate]
    split <;> rfl
  simp only [htUpdate, updateBeacon_others]
  rw [others, counters, others]

end Cell

theorem join_others (c : Cell) (k : Prot) : (bssCapUpdateOnStaJoin c).others k = c.others k := by
  simp only [bssCapUpdateOnStaJoin, apply_ite (Cell.others · k), Cell.updateBeacon_others, Cell.htUpdate_others,
    Cell.mark_others, Cell.unmark_others, Cell.assign_others, ite_self]

theorem leave_others (c : Cell) (k : Prot) : (bssCapUpdateOnStaLeave c).1.others k = c.others k := by
  simp only [bssCapUpdateOnStaLeave, Cell.updateBeacon_others, Cell.htUpdate_others, Cell.unmark_others]
  rfl

theorem join_cap (c : Cell) : (bssCapUpdateOnStaJoin c).psta.cap = c.psta.cap := by
  simp only [bssCapUpdateOnStaJoin, apply_ite (fun c : Cell => c.psta.cap), Cell.updateBeacon_psta, Cell.htUpdate_psta,
    Cell.mark_cap, Cell.unmark_cap, Cell.assign_cap, ite_self]

theorem join_aid (c : Cell) : (bssCapUpdateOnStaJoin c).psta.aid = c.psta.aid := by
  simp only [bssCapUpdateOnStaJoin, apply_ite (fun c : Cell => c.psta.aid), Cell.updateBeacon_psta, Cell.htUpdate_psta,
    Cell.mark_aid, Cell.unmark_aid, Cell.assign_aid, ite_self]

theorem leave_aid (c : Cell) : (bssCapUpdateOnStaLeave c).1.psta.aid = c.psta.aid := by
  simp only [bssCapUpdateOnStaLeave, Cell.updateBeacon_psta, Cell.htUpdate_psta, Cell.unmark_aid]

/-- The flags of a station that has joined: the flags for no greenfield and for 20 MHz stay from an earlier time. -/
theorem join_marked (c : Cell) (k : Prot) :
    (bssCapUpdateOnStaJoin c).psta.marked k =
      (c.psta.cap.has k || (c.psta.marked k && (k == .htNoGf || k == .ht20mhz || k == .fortyMhzIntolerant))) := by
  simp only [bssCapUpdateOnStaJoin, apply_ite (fun c : Cell => c.psta.marked k), Cell.updateBeacon_psta,
    Cell.htUpdate_psta, Cell.mark_marked, Cell.unmark_marked, Cell.assign_marked]
  cases ht : (c.psta.cap.flags &&& staHt != 0) <;>
    cases gf : (c.psta.cap.htCapInfo &&& htCapGrnFld == 0) <;>
    cases width : (c.psta.cap.htCapInfo &&& htCapSupWidth == 0) <;>
    cases k <;> simp_all [StaCap.has, bne]

theorem leave_marked (c : Cell) (k : Prot) :
    (bssCapUpdateOnStaLeave c).1.psta.marked k = (c.psta.marked k && k == .fortyMhzIntolerant) := by
  simp only [bssCapUpdateOnStaLeave, Cell.updateBeacon_psta, Cell.htUpdate_psta, Cell.unmark_marked]
  cases k <;> simp

theorem coex_others (c : Cell) (f : CoexFrame) (k : Prot) : (processPublicActBsscoex c f).others k = c.others k := by
  simp only [processPublicActBsscoex, Cell.updateBeacon_others]
  repeat' split
  all_goals first | rfl | exact Cell.mark_others c k .fortyMhzIntolerant

theorem coex_psta (c : Cell) (f : CoexFrame) :
    (processPublicActBsscoex c f).psta =
      if f.informs && f.intolerant then (c.mark .fortyMhzIntolerant).psta else c.psta := by
  simp only [processPublicActBsscoex, Cell.updateBeacon_psta]
  repeat' split
  all_goals simp_all

/-! ## The stations of a BSS -/

/-- The state of the access point. -/
structure Bss where
  prot : BssProt
  /-- The records that are allocated. -/
  sta : MacAddr → Option StaProt
  /-- `asoc_list`. -/
  asoc : Finset MacAddr
  /-- Whether a station's last coexistence report said that it is intolerant; the code does not keep it. -/
  reports : MacAddr → Bool

inductive ProtOp
  /-- `rtw_alloc_stainfo`. -/
  | alloc (a : MacAddr)
  /-- A (re)association: the record takes the station's capabilities before it is counted. -/
  | join (a : MacAddr) (cap : StaCap) (aid : Nat)
  /-- A coexistence frame. -/
  | coex (a : MacAddr) (f : CoexFrame)
  | leave (a : MacAddr)
  /-- `rtw_free_stainfo`, for a station that is not associated or has left. -/
  | free (a : MacAddr)

namespace Bss

def put (s : Bss) (a : MacAddr) (c : Cell) : Bss :=
  { s with prot := c.bss, sta := Function.update s.sta a (some c.psta) }

def apply (s : Bss) : ProtOp → Bss
  | .alloc a =>
      match s.sta a with
      | some _ => s
      | none => { s with sta := Function.update s.sta a (some initStainfo), reports := Function.update s.reports a false }
  | .join a cap aid =>
      match s.sta a with
      | some psta =>
          { s.put a (bssCapUpdateOnStaJoin ⟨s.prot, { psta with cap, aid }⟩) with asoc := insert a s.asoc }
      | none => s
  | .coex a f =>
      match s.sta a with
      | some psta =>
          { s.put a (processPublicActBsscoex ⟨s.prot, psta⟩ f) with
            reports := if f.informs then Function.update s.reports a f.intolerant else s.reports }
      | none => s
  | .leave a =>
      match s.sta a with
      | some psta => { s.put a (bssCapUpdateOnStaLeave ⟨s.prot, psta⟩).1 with asoc := s.asoc.erase a }
      | none => s
  | .free a =>
      if a ∈ s.asoc then s
      else { s with sta := Function.update s.sta a none, reports := Function.update s.reports a false }

/-- A station has a property now. -/
def has (s : Bss) (k : Prot) (a : MacAddr) : Bool :=
  (s.sta a).any fun psta => if k = .fortyMhzIntolerant then s.reports a else psta.cap.has k

theorem has_of_found (s : Bss) {a : MacAddr} {psta : StaProt} (found : s.sta a = some psta) (k : Prot) :
    s.has k a = if k = .fortyMhzIntolerant then s.reports a else psta.cap.has k := by
  rw [has, found, Option.any_some]

/-- A counter and the stations counted in it. -/
def tally (s : Bss) (k : Prot) : Tally MacAddr := ⟨s.prot.numSta k, fun a => (s.sta a).any (·.marked k)⟩

/-- After `init_mlme_ap_info`. -/
structure Fresh (s : Bss) : Prop where
  numSta : ∀ k, s.prot.numSta k = 0
  sta : ∀ a, s.sta a = none
  asoc : s.asoc = ∅
  reports : ∀ a, s.reports a = false

/-- A station that joins again is not counted as one without greenfield or with 20 MHz unless it still is one;
a report that a station is intolerant comes from an associated station, and it neither withdraws it nor leaves. -/
def Faithful (s : Bss) : ProtOp → Prop
  | .join a cap _ => ∀ psta, s.sta a = some psta →
      (psta.marked .htNoGf → cap.has .htNoGf) ∧ (psta.marked .ht20mhz → cap.has .ht20mhz)
  | .coex a f => ∀ psta, s.sta a = some psta → f.informs →
      if f.intolerant then a ∈ s.asoc else psta.marked .fortyMhzIntolerant = false
  | .leave a => ∀ psta, s.sta a = some psta → psta.marked .fortyMhzIntolerant = false
  | _ => True

/-! ## Every run -/

section

variable {s start : Bss} {a : MacAddr} {psta : StaProt} {k : Prot} {S : Finset MacAddr} {lost : Nat}

theorem tally_put (s : Bss) (a : MacAddr) (c : Cell) (k : Prot) :
    (s.put a c).tally k = ⟨c.bss.numSta k, Function.update (s.tally k).marked a (c.psta.marked k)⟩ := by
  simp only [tally, put, Tally.mk.injEq, true_and]
  funext b
  rcases eq_or_ne b a with rfl | ne
  · simp
  · simp [ne]

/-- An update of one record keeps the count of the others. -/
theorem tallied_put (tallied : Tallied (s.tally k) S lost) (found : s.sta a = some psta) {c : Cell} {cap : StaCap}
    {aid : Nat} (others : c.others k = Cell.others ⟨s.prot, { psta with cap, aid }⟩ k) :
    Tallied ((s.put a c).tally k) (if c.psta.marked k then insert a S else S.erase a) lost := by
  rw [tally_put]
  apply tallied.exchange
  have before : (s.tally k).marked a = psta.marked k := by simp [tally, found]
  rw [before]
  exact others

theorem tally_alloc (fresh : s.sta a = none) :
    (fun b => (Function.update s.sta a (some initStainfo) b).any (·.marked k)) = (s.tally k).marked := by
  funext b
  rcases eq_or_ne b a with rfl | ne
  · simp [tally, fresh, initStainfo]
  · simp [tally, ne]

theorem tally_free :
    (fun b => (Function.update s.sta a none b).any (·.marked k)) = Function.update (s.tally k).marked a false := by
  funext b
  rcases eq_or_ne b a with rfl | ne
  · simp
  · simp [tally, ne]

/-- In any run a counter counts the marked records, and perhaps some that are gone. -/
theorem apply_tallied (tallied : ∃ S lost, Tallied (s.tally k) S lost) (op : ProtOp) :
    ∃ S lost, Tallied ((s.apply op).tally k) S lost := by
  obtain ⟨S, lost, tallied⟩ := tallied
  cases op with
  | alloc a =>
      rw [apply]
      split
      · exact ⟨S, lost, tallied⟩
      · rename_i fresh
        exact ⟨S, lost, fun b => by rw [← tallied.marked b, ← tally_alloc fresh]; rfl, tallied.count⟩
  | join a cap aid =>
      rw [apply]
      split
      · rename_i found
        exact ⟨_, lost, tallied_put tallied found (join_others _ k)⟩
      · exact ⟨S, lost, tallied⟩
  | coex a f =>
      rw [apply]
      split
      · rename_i psta found
        exact ⟨_, lost, @tallied_put s a psta k S lost tallied found _ psta.cap psta.aid (coex_others _ f k)⟩
      · exact ⟨S, lost, tallied⟩
  | leave a =>
      rw [apply]
      split
      · rename_i psta found
        exact ⟨_, lost, @tallied_put s a psta k S lost tallied found _ psta.cap psta.aid (leave_others _ k)⟩
      · exact ⟨S, lost, tallied⟩
  | free a =>
      rw [apply]
      split
      · exact ⟨S, lost, tallied⟩
      · have without := tallied.forget a
        exact ⟨_, _, fun b => by rw [← without.marked b, ← tally_free]; rfl, without.count⟩

theorem Fresh.tallied (fresh : start.Fresh) (k : Prot) : Tallied (start.tally k) ∅ 0 :=
  ⟨fun a => by simp [tally, fresh.sta], by simp [tally, fresh.numSta]⟩

/-! ## Faithful runs -/

/-- The counters count the associated stations, and only these have flags. -/
structure Counted (s : Bss) : Prop where
  tallied : ∀ k, Tallied (s.tally k) (s.asoc.filter fun a => s.has k a) 0
  allocated : ∀ a ∈ s.asoc, s.sta a ≠ none
  reports : ∀ a ∉ s.asoc, s.reports a = false

theorem Counted.marked (counted : s.Counted) (found : s.sta a = some psta) (k : Prot) :
    psta.marked k = true ↔ a ∈ s.asoc ∧ s.has k a = true := by
  have marked := (counted.tallied k).marked a
  rw [Finset.mem_filter] at marked
  rw [← marked]
  simp [tally, found]

theorem Counted.unmarked (counted : s.Counted) (found : s.sta a = some psta) (outside : a ∉ s.asoc) (k : Prot) :
    psta.marked k = false :=
  Bool.eq_false_iff.mpr fun marked => outside ((counted.marked found k).mp marked).1

/-- One record is updated and stays counted under what its station has. -/
theorem Counted.put (counted : s.Counted) (found : s.sta a = some psta) {c : Cell} {cap : StaCap} {aid : Nat}
    {asoc : Finset MacAddr} {reports : MacAddr → Bool}
    (others : ∀ k, c.others k = Cell.others ⟨s.prot, { psta with cap, aid }⟩ k)
    (members : ∀ b ≠ a, (b ∈ asoc ↔ b ∈ s.asoc) ∧ reports b = s.reports b)
    (silent : a ∉ asoc → reports a = false)
    (own : ∀ k, c.psta.marked k = true ↔
      a ∈ asoc ∧ (if k = .fortyMhzIntolerant then reports a else c.psta.cap.has k) = true) :
    Counted { s.put a c with asoc, reports } := by
  refine ⟨fun k => ?_, fun b inside => ?_, fun b outside => ?_⟩
  · have tallied := tallied_put (counted.tallied k) found (others k)
    refine ⟨fun b => (tallied.marked b).trans ?_, tallied.count.trans ?_⟩
    all_goals
      have same : (if c.psta.marked k then insert a (s.asoc.filter fun b => s.has k b)
          else (s.asoc.filter fun b => s.has k b).erase a) =
          asoc.filter fun b => Bss.has { s.put a c with asoc, reports } k b := by
        ext b
        rcases eq_or_ne b a with rfl | ne
        · rw [Finset.mem_filter]
          have has : Bss.has { s.put b c with asoc, reports } k b =
              (if k = .fortyMhzIntolerant then reports b else c.psta.cap.has k) := by simp [Bss.has, Bss.put]
          rw [has, ← own k]
          cases c.psta.marked k <;> simp
        · have kept := members b ne
          have has : Bss.has { s.put a c with asoc, reports } k b = s.has k b := by
            simp [Bss.has, Bss.put, ne, kept.2]
          rw [Finset.mem_filter, has, kept.1]
          cases c.psta.marked k <;> simp [ne]
      rw [same]
  · rcases eq_or_ne b a with rfl | ne
    · simp [Bss.put]
    · simpa [Bss.put, ne] using counted.allocated b (((members b ne).1).mp inside)
  · rcases eq_or_ne b a with rfl | ne
    · exact silent outside
    · exact (members b ne).2.trans (counted.reports b (mt ((members b ne).1).mpr outside))

theorem Counted.join (counted : s.Counted) {cap : StaCap} {aid : Nat} (faithful : s.Faithful (.join a cap aid)) :
    (s.apply (.join a cap aid)).Counted := by
  rw [Bss.apply]
  split
  · rename_i psta found
    refine counted.put found (fun k => join_others _ k) (fun b ne => ⟨by simp [ne], rfl⟩) (fun outside => ?_) fun k => ?_
    · exact absurd (Finset.mem_insert_self a s.asoc) outside
    · obtain ⟨gf, width⟩ := faithful psta found
      have forty : psta.marked .fortyMhzIntolerant = s.reports a := by
        rw [Bool.eq_iff_iff, counted.marked found, s.has_of_found found, if_pos rfl]
        refine ⟨And.right, fun told => ⟨by_contra fun outside => ?_, told⟩⟩
        simp [counted.reports a outside] at told
      rw [join_marked, join_cap]
      cases k with
      | htNoGf => simpa using gf
      | ht20mhz => simpa using width
      | fortyMhzIntolerant => simp [forty, StaCap.has, Bss.put]
      | _ => simp
  · exact counted

theorem Counted.coex (counted : s.Counted) {f : CoexFrame} (faithful : s.Faithful (.coex a f)) :
    (s.apply (.coex a f)).Counted := by
  rw [Bss.apply]
  split
  · rename_i psta found
    refine @Counted.put s a psta counted found _ psta.cap psta.aid s.asoc _ (fun k => coex_others _ f k)
      (fun b ne => ⟨Iff.rfl, by split <;> simp [ne]⟩) (fun outside => ?_) fun k => ?_
    · split
      · rename_i informs
        have source := faithful psta found informs
        rw [Function.update_self]
        cases told : f.intolerant with
        | false => rfl
        | true =>
            rw [told, if_pos rfl] at source
            exact absurd source outside
      · exact counted.reports a outside
    · have before := counted.marked found k
      have source := faithful psta found
      rw [s.has_of_found found] at before
      rw [coex_psta]
      cases informs : f.informs with
      | false => simpa using before
      | true =>
          have source := source informs
          cases told : f.intolerant with
          | false =>
              -- nothing was counted that the report could withdraw
              rw [told, if_neg Bool.false_ne_true] at source
              by_cases forty : k = .fortyMhzIntolerant
              · subst forty
                simp [source]
              · simpa [forty] using before
          | true =>
              rw [told, if_pos rfl] at source
              by_cases forty : k = .fortyMhzIntolerant
              · subst forty
                simpa using source
              · simpa [forty] using before
  · exact counted

theorem Counted.leave (counted : s.Counted) (faithful : s.Faithful (.leave a)) : (s.apply (.leave a)).Counted := by
  rw [Bss.apply]
  split
  · rename_i psta found
    have quiet := faithful psta found
    refine @Counted.put s a psta counted found _ psta.cap psta.aid _ _ (fun k => leave_others _ k)
      (fun b ne => ⟨by simp [ne], rfl⟩) (fun _ => ?_) fun k => ?_
    · have before := counted.marked found .fortyMhzIntolerant
      rw [s.has_of_found found, if_pos rfl, quiet] at before
      by_contra told
      have told : s.reports a = true := Bool.not_eq_false _ ▸ told
      exact Bool.false_ne_true (before.mpr ⟨by_contra fun outside => by simp [counted.reports a outside] at told, told⟩)
    · rw [leave_marked]
      by_cases forty : k = .fortyMhzIntolerant
      · subst forty
        simp [quiet]
      · simp [forty]
  · exact counted

/-- The record of a station that is not associated is exchanged for one without flags. -/
theorem Counted.beside (counted : s.Counted) (outside : a ∉ s.asoc) {r : Option StaProt}
    (bare : ∀ k, r.any (·.marked k) = false) :
    Counted { s with sta := Function.update s.sta a r, reports := Function.update s.reports a false } := by
  refine ⟨fun k => ?_, fun b inside => ?_, fun b beyond => ?_⟩
  · have flags : (fun b => (Function.update s.sta a r b).any (·.marked k)) = (s.tally k).marked := by
      funext b
      rcases eq_or_ne b a with rfl | ne
      · have never : (s.tally k).marked b = false :=
          Bool.eq_false_iff.mpr fun marked => outside (Finset.mem_filter.mp (((counted.tallied k).marked b).mp marked)).1
        rw [never, Function.update_self, bare]
      · simp [tally, ne]
    have members : (s.asoc.filter fun b => Bss.has { s with
          sta := Function.update s.sta a r, reports := Function.update s.reports a false } k b) =
        s.asoc.filter fun b => s.has k b := by
      refine Finset.filter_congr fun b inside => ?_
      have ne : b ≠ a := fun same => outside (same ▸ inside)
      simp [Bss.has, ne]
    rw [members]
    exact ⟨fun b => by rw [← (counted.tallied k).marked b, ← flags]; rfl, (counted.tallied k).count⟩
  · have ne : b ≠ a := fun same => outside (same ▸ inside)
    simpa [ne] using counted.allocated b inside
  · rcases eq_or_ne b a with rfl | ne
    · exact Function.update_self ..
    · rw [← counted.reports b beyond]
      exact Function.update_of_ne ne ..

theorem Counted.apply (counted : s.Counted) {op : ProtOp} (faithful : s.Faithful op) : (s.apply op).Counted := by
  cases op with
  | alloc a =>
      rw [Bss.apply]
      split
      · exact counted
      · rename_i fresh
        exact counted.beside (fun inside => counted.allocated a inside fresh) fun k => rfl
  | join a cap aid => exact counted.join faithful
  | coex a f => exact counted.coex faithful
  | leave a => exact counted.leave faithful
  | free a =>
      rw [Bss.apply]
      split
      · exact counted
      · rename_i outside
        exact counted.beside outside fun k => rfl

theorem Fresh.counted (fresh : start.Fresh) : start.Counted := by
  refine ⟨fun k => ?_, fun a inside => ?_, fun a _ => fresh.reports a⟩
  · simpa [fresh.asoc] using fresh.tallied k
  · simp [fresh.asoc] at inside

/-- No counter is ever negative.  When every step is faithful each counter is the number of associated stations
that have its property, and with no station left it is zero. -/
theorem counters_exact (fresh : start.Fresh) :
    (∀ s, Runs apply (fun _ _ => True) start s → ∀ k, 0 ≤ s.prot.numSta k) ∧
      ∀ s, Runs apply Faithful start s → ∀ k,
        s.prot.numSta k = (s.asoc.filter fun a => s.has k a).card ∧ (s.asoc = ∅ → s.prot.numSta k = 0) := by
  refine ⟨fun s run k => ?_, fun s run k => ?_⟩
  · have first : ∃ S lost, Tallied (start.tally k) S lost := ⟨∅, 0, fresh.tallied k⟩
    obtain ⟨_, _, tallied⟩ := @Runs.keeps _ _ _ _ _ _ (fun s : Bss => ∃ S lost, Tallied (s.tally k) S lost) run first
      fun _ op tallied _ => apply_tallied tallied op
    exact tallied.nonneg
  · have counted : s.Counted := run.keeps fresh.counted fun _ _ counted faithful => counted.apply faithful
    have exact_ : s.prot.numSta k = (s.asoc.filter fun a => s.has k a).card :=
      (counted.tallied k).count.trans (Int.add_zero _)
    exact ⟨exact_, fun left => by simp [exact_, left]⟩

end

end Bss

/-! ## One station -/

/-- An access point for 802.11n without stations. -/
def quietBss : Bss where
  prot := ⟨fun _ => 0, 0x8, true, htCapSupWidth, 0, false, false, false, 0, fun _ => 0, []⟩
  sta _ := none
  asoc := ∅
  reports _ := false

theorem quietBss_fresh : quietBss.Fresh := ⟨fun _ => rfl, fun _ => rfl, rfl, fun _ => rfl⟩

/-- A station with short preambles and slots, HT and 40 MHz, with greenfield or without. -/
def htCap (greenfield : Bool) : StaCap :=
  ⟨staHt ||| staShortPreamble, capabilityShortSlot, htCapSupWidth ||| if greenfield then htCapGrnFld else 0⟩

/-- Its address. -/
def staTwo : MacAddr := fun _ => 2

/-- A station that associates again with greenfield is still counted among those without it. -/
theorem greenfield_stuck : ∃ s, Runs Bss.apply (fun _ _ => True) quietBss s ∧ s.asoc = {staTwo} ∧
    s.has .htNoGf staTwo = false ∧ s.prot.numSta .htNoGf = 1 :=
  ⟨_, .step (.step (.step .start (.alloc staTwo) trivial) (.join staTwo (htCap false) 1) trivial)
    (.join staTwo (htCap true) 1) trivial, by decide +kernel, by decide +kernel, by decide +kernel⟩

/-- A frame that says that its sender is intolerant. -/
def intolerantFrame : CoexFrame := ⟨fun i => [4, 0, 72, 1, 2].getD i 0, 5⟩

/-- A station that has told its intolerance is counted after it has left. -/
theorem intolerant_stuck : ∃ s, Runs Bss.apply (fun _ _ => True) quietBss s ∧ s.asoc = ∅ ∧
    s.prot.numSta .fortyMhzIntolerant = 1 :=
  ⟨_, .step (.step (.step (.step .start (.alloc staTwo) trivial) (.join staTwo (htCap true) 1) trivial)
    (.coex staTwo intolerantFrame) trivial) (.leave staTwo) trivial, by decide +kernel, by decide +kernel⟩

theorem quietBss_alloc : (quietBss.apply (.alloc staTwo)).sta staTwo = some initStainfo := by
  simp [Bss.apply, quietBss]

theorem counters_exact_quiet :
    ((quietBss.apply (.alloc staTwo)).apply (.join staTwo (htCap false) 1)).prot.numSta .htNoGf = 1 := by
  have faithful : (quietBss.apply (.alloc staTwo)).Faithful (.join staTwo (htCap false) 1) := by
    intro psta found
    obtain rfl : initStainfo = psta := Option.some.inj (quietBss_alloc.symm.trans found)
    exact ⟨nofun, nofun⟩
  have holds := (Bss.counters_exact quietBss_fresh).2 _
    (.step (.step .start (.alloc staTwo) trivial) (.join staTwo (htCap false) 1) faithful) .htNoGf
  rw [holds.1]
  decide +kernel

end Vmac.Ap
