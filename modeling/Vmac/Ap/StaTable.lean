/-
# Vmac.Ap.StaTable -- the station records: rtw_sta_mgt.c

The driver has `NUM_STA` station records.  A record is in the free queue or, from
`rtw_alloc_stainfo` to `rtw_free_stainfo`, in the hash chain of its address; an association id
refers to it through `sta_aid[]`.

* `Kept`: where the records are, in any state of a run and between the two passes of
  `rtw_free_all_stainfo`.
* `stations_tabled`: in which runs no record is lost and no association id is left behind.
* `last_aid_leaks`: a run that loses a record.
-/
import Mathlib.Data.Fintype.Card
import Mathlib.Data.List.FinRange
import Vmac.Ap.Protection
import Vmac.Theory.Placement
import Vmac.Theory.Run

namespace Vmac.Ap

open Theory.Placement Theory.Run
open Transmit (MacAddr bcAddr staAddr isMcast)

set_option autoImplicit false

/-! ## Data -/

/-- A record, by its place in `pstainfo_buf` (`rtw_stainfo_offset`). -/
abbrev Offset := Fin 32

instance : LawfulBEq Offset := inferInstance

/-- `NUM_STA`. -/
def numSta : Nat := 32

structure StaInfo extends StaProt where
  macAddr : MacAddr
  state : UInt32
  authSeq : UInt32
  authalg : UInt32
  chgTxt : List UInt8

/-- `_rtw_init_stainfo`, for the whole record. -/
def StaInfo.init : StaInfo :=
  { initStainfo with macAddr := fun _ => 0, state := 0, authSeq := 0, authalg := 0, chgTxt := List.replicate 128 0 }

def fwLinked : UInt32 := 0x1
def hwStateAp : UInt32 := 0x3

/-- `sta_priv`. -/
structure StaPriv where
  stainfo : Offset → StaInfo
  freeStaQueue : List Offset
  staHash : Nat → List Offset
  asocStaCount : Int
  staAid : Nat → Option Offset
  authList : List Offset
  authListCnt : Int
  asocList : List Offset
  asocListCnt : Int

/-- `_rtw_init_sta_priv`. -/
def initStaPriv : StaPriv where
  stainfo _ := StaInfo.init
  freeStaQueue := List.finRange 32
  staHash _ := []
  asocStaCount := 0
  staAid _ := none
  authList := []
  authListCnt := 0
  asocList := []
  asocListCnt := 0

def wifiMacHash (mac : MacAddr) : UInt32 :=
  let x := (mac 0).toUInt32
  let x := x <<< 2 ^^^ (mac 1).toUInt32
  let x := x <<< 2 ^^^ (mac 2).toUInt32
  let x := x <<< 2 ^^^ (mac 3).toUInt32
  let x := x <<< 2 ^^^ (mac 4).toUInt32
  let x := x <<< 2 ^^^ (mac 5).toUInt32
  let x := x ^^^ x >>> 8
  x &&& 31

/-- The chain of an address. -/
def chainOf (mac : MacAddr) : Nat := (wifiMacHash mac).toNat

namespace StaPriv

variable (s : StaPriv)

def setStainfo (r : Offset) (psta : StaInfo) : StaPriv := { s with stainfo := Function.update s.stainfo r psta }

/-- `rtw_get_stainfo`. -/
def getStainfo (hwaddr : MacAddr) : Option Offset :=
  (s.staHash (chainOf (staAddr hwaddr))).find? fun r => (s.stainfo r).macAddr = staAddr hwaddr

/-- `rtw_alloc_stainfo`; `pnetdev` is that the adapter has a net device. -/
def allocStainfo (pnetdev : Bool) (hwaddr : MacAddr) : StaPriv × Option Offset :=
  if pnetdev then
    match s.freeStaQueue with
    | [] => (s, none)
    | r :: rest =>
        let s := { s with freeStaQueue := rest }.setStainfo r { StaInfo.init with macAddr := hwaddr }
        let index := chainOf hwaddr
        if numSta ≤ index then (s, none)
        else
          ({ s with
              staHash := Function.update s.staHash index (s.staHash index ++ [r])
              asocStaCount := s.asocStaCount + 1 }, some r)
  else (s, none)

/-- `rtw_list_delete(&psta->hash_list)`. -/
def unhash (r : Offset) : StaPriv := { s with staHash := fun index => (s.staHash index).filter (· ≠ r) }

/-- `rtw_list_delete(&psta->auth_list)`, for a record that is on the list. -/
def leaveAuthList (r : Offset) : StaPriv :=
  if r ∈ s.authList then { s with authList := s.authList.filter (· ≠ r), authListCnt := s.authListCnt - 1 } else s

/-- The association id goes, if `sta_aid[]` says it is the record's. -/
def dropAid (r : Offset) : StaPriv :=
  let psta := s.stainfo r
  if 0 < psta.aid ∧ s.staAid (psta.aid - 1) = some r then
    { s with staAid := Function.update s.staAid (psta.aid - 1) none }.setStainfo r { psta with aid := 0 }
  else s

/-- `rtw_free_stainfo`, where `pmlmeinfo->state` is `mode`. -/
def freeStainfo (mode : UInt32) : Option Offset → StaPriv
  | none => s
  | some r =>
      let s := s.unhash r
      let s := { s with asocStaCount := s.asocStaCount - 1 }
      let s := s.setStainfo r { s.stainfo r with state := (s.stainfo r).state &&& ~~~fwLinked }
      let s := s.leaveAuthList r
      -- the record is then in no queue
      if 31 < (s.stainfo r).aid then s
      else
        let s := if mode = hwStateAp then s.dropAid r else s
        { s with freeStaQueue := s.freeStaQueue ++ [r] }

/-- The records that `rtw_free_all_stainfo` takes out of the chains: all but the broadcast record. -/
def freeStaList : List Offset :=
  (List.range numSta).flatMap fun index => (s.staHash index).filter fun r => s.getStainfo bcAddr ≠ some r

/-- `rtw_free_all_stainfo`. -/
def freeAllStainfo (mode : UInt32) : StaPriv :=
  if s.asocStaCount = 1 then s
  else
    let pbcmcStainfo := s.getStainfo bcAddr
    let unhashed := { s with staHash := fun index => (s.staHash index).filter fun r => pbcmcStainfo = some r }
    s.freeStaList.foldl (fun s r => s.freeStainfo mode (some r)) unhashed

/-- The association id `aid` for a record. -/
def assignAid (r : Offset) (aid : Nat) : StaPriv :=
  { s with staAid := Function.update s.staAid (aid - 1) (some r) }.setStainfo r { s.stainfo r with aid }

/-! ## Runs -/

inductive TableOp
  | alloc (pnetdev : Bool) (hwaddr : MacAddr)
  | free (mode : UInt32) (psta : Option Offset)
  | freeAll (mode : UInt32)
  | assignAid (r : Offset) (aid : Nat)

def applyTable : TableOp → StaPriv
  | .alloc pnetdev hwaddr => (s.allocStainfo pnetdev hwaddr).1
  | .free mode psta => s.freeStainfo mode psta
  | .freeAll mode => s.freeAllStainfo mode
  | .assignAid r aid => s.assignAid r aid

def Hashed (r : Offset) : Prop := ∃ index, r ∈ s.staHash index

/-- What callers do: an address is allocated once, what is freed was allocated, and an association
id goes to an allocated record without one if `sta_aid[]` has it free. -/
def allowedTable : TableOp → Prop
  | .alloc _ hwaddr => ∀ r, s.Hashed r → (s.stainfo r).macAddr ≠ hwaddr
  | .free _ psta => ∀ r, psta = some r → s.Hashed r
  | .freeAll _ => True
  | .assignAid r aid =>
      s.Hashed r ∧ (s.stainfo r).aid = 0 ∧ 1 ≤ aid ∧ aid ≤ numSta ∧ s.staAid (aid - 1) = none

/-- The record is freed whole: its association id is within the bitmaps, and `sta_aid[]` does not
keep it. -/
def Releases (mode : UInt32) (r : Offset) : Prop :=
  (s.stainfo r).aid ≤ 31 ∧ (mode = hwStateAp ∨ ∀ i, s.staAid i ≠ some r)

/-- Every record that the operation frees is freed whole. -/
def releasesAll : TableOp → Prop
  | .free mode psta => ∀ r, psta = some r → s.Releases mode r
  | .freeAll mode => s.asocStaCount = 1 ∨ ∀ r, s.Hashed r → s.getStainfo bcAddr ≠ some r → s.Releases mode r
  | _ => True

def meetsTable (op : TableOp) : Prop := s.allowedTable op ∧ s.releasesAll op

/-! ## Where the records are -/

/-- The queues that a record may be in. -/
inductive Place
  | free
  | chain (index : Nat)
  deriving DecidableEq

def places : Queues Place Offset
  | .free => s.freeStaQueue
  | .chain index => s.staHash index

/-- What is said of the station table. -/
structure Tabled : Prop where
  /-- Each record is in one queue, once. -/
  once : ∀ r, (∃! p, r ∈ s.places p) ∧ ∀ p, (s.places p).count r ≤ 1
  /-- The queue is the free queue or the chain of the record's address. -/
  chained : ∀ index r, r ∈ s.staHash index → index = chainOf (s.stainfo r).macAddr
  counted : s.asocStaCount = ((List.range numSta).flatMap s.staHash).length
  /-- A look-up finds the hashed record with the address, if there is one. -/
  found : ∀ hwaddr r, s.getStainfo hwaddr = some r ↔ s.Hashed r ∧ (s.stainfo r).macAddr = staAddr hwaddr
  aids : ∀ i r, s.staAid i = some r → r ∉ s.freeStaQueue

/-- The table, while the records of `held` are in no queue. -/
structure Kept (held : List Offset) : Prop where
  placed : Placed (fun _ => True) held s.places
  chained : ∀ index r, r ∈ s.staHash index → index = chainOf (s.stainfo r).macAddr
  /-- One record for each address that a look-up searches. -/
  unique : ∀ r r', s.Hashed r → s.Hashed r' → (s.stainfo r).macAddr = (s.stainfo r').macAddr →
    staAddr (s.stainfo r).macAddr = (s.stainfo r).macAddr → r = r'
  counted : s.asocStaCount = numSta - s.freeStaQueue.length
  aids : ∀ i r, s.staAid i = some r → r ∉ s.freeStaQueue ∧ (s.stainfo r).aid = i + 1

end StaPriv

theorem chainOf_lt (mac : MacAddr) : chainOf mac < numSta := by
  have masked : chainOf mac ≤ (31 : UInt32).toNat := by
    rw [chainOf, wifiMacHash, UInt32.toNat_and]
    exact Nat.and_le_right
  exact Nat.lt_succ_of_le masked

namespace StaPriv

variable {s : StaPriv} {held : List Offset} {r : Offset}

theorem staAddr_staAddr (hwaddr : MacAddr) : staAddr (staAddr hwaddr) = staAddr hwaddr := by
  by_cases group : isMcast hwaddr
  · have broadcast : staAddr hwaddr = bcAddr := if_pos group
    rw [broadcast]
    exact if_pos (by decide)
  · have own : staAddr hwaddr = hwaddr := if_neg group
    rw [own, own]

theorem hashed_iff (kept : s.Kept []) : s.Hashed r ↔ r ∉ s.freeStaQueue := by
  constructor
  · rintro ⟨index, inside⟩ free
    exact kept.placed.apart r (.chain index) .free nofun inside free
  · intro away
    obtain ⟨p, inside⟩ := ((kept.placed.all_iff r).mp trivial).resolve_left List.not_mem_nil
    cases p with
    | free => exact absurd inside away
    | chain index => exact ⟨index, inside⟩

theorem find_iff {chain : List Offset} {P : Offset → Bool} (one : ∀ a ∈ chain, ∀ b ∈ chain, P a → P b → a = b) :
    chain.find? P = some r ↔ r ∈ chain ∧ P r := by
  constructor
  · intro found
    exact ⟨List.mem_of_find?_eq_some found, List.find?_some found⟩
  · rintro ⟨inside, fits⟩
    cases found : chain.find? P with
    | none => exact absurd fits (List.find?_eq_none.mp found r inside)
    | some r' =>
        have same := one r' (List.mem_of_find?_eq_some found) r inside (List.find?_some found) fits
        rw [same]

theorem Kept.getStainfo_iff (kept : s.Kept []) (hwaddr : MacAddr) :
    s.getStainfo hwaddr = some r ↔ s.Hashed r ∧ (s.stainfo r).macAddr = staAddr hwaddr := by
  have one : ∀ a ∈ s.staHash (chainOf (staAddr hwaddr)), ∀ b ∈ s.staHash (chainOf (staAddr hwaddr)),
      decide ((s.stainfo a).macAddr = staAddr hwaddr) → decide ((s.stainfo b).macAddr = staAddr hwaddr) → a = b := by
    intro a insideA b insideB ofA ofB
    have addressA := of_decide_eq_true ofA
    have same := addressA.trans (of_decide_eq_true ofB).symm
    exact kept.unique a b ⟨_, insideA⟩ ⟨_, insideB⟩ same (by rw [addressA, staAddr_staAddr])
  rw [getStainfo, find_iff one, decide_eq_true_eq]
  constructor
  · rintro ⟨inside, address⟩
    exact ⟨⟨_, inside⟩, address⟩
  · rintro ⟨⟨index, inside⟩, address⟩
    refine ⟨?_, address⟩
    rwa [← address, ← kept.chained index r inside]

/-- The chains and the free queue together are the records. -/
theorem Kept.length_chains (kept : s.Kept []) :
    (s.freeStaQueue ++ (List.range numSta).flatMap s.staHash).length = numSta := by
  have nodup : (s.freeStaQueue ++ (List.range numSta).flatMap s.staHash).Nodup := by
    refine List.nodup_append'.mpr ⟨kept.placed.nodup .free, ?_, ?_⟩
    · refine List.nodup_flatMap.mpr ⟨fun index _ => kept.placed.nodup (.chain index), ?_⟩
      refine (List.nodup_range (n := numSta)).imp fun {a b} other r insideA insideB => ?_
      exact kept.placed.apart r (.chain a) (.chain b) (fun same => other (Place.chain.inj same)) insideA insideB
    · intro r free hashed
      obtain ⟨index, -, inside⟩ := List.mem_flatMap.mp hashed
      exact kept.placed.apart r .free (.chain index) nofun free inside
  have all : ∀ r : Offset, r ∈ s.freeStaQueue ++ (List.range numSta).flatMap s.staHash := by
    intro r
    by_cases free : r ∈ s.freeStaQueue
    · exact List.mem_append_left _ free
    · obtain ⟨index, inside⟩ := (hashed_iff kept).mpr free
      refine List.mem_append_right _ (List.mem_flatMap.mpr ⟨index, ?_, inside⟩)
      rw [kept.chained index r inside]
      exact List.mem_range.mpr (chainOf_lt _)
  have same : (s.freeStaQueue ++ (List.range numSta).flatMap s.staHash).Perm (List.finRange 32) :=
    (List.perm_ext_iff_of_nodup nodup (List.nodup_finRange 32)).mpr fun r =>
      ⟨fun _ => List.mem_finRange r, fun _ => all r⟩
  rw [same.length_eq, List.length_finRange]
  rfl

theorem Kept.tabled (kept : s.Kept []) : s.Tabled where
  once r := by
    refine ⟨kept.placed.exactly_one trivial, fun p => ?_⟩
    simpa using kept.placed.once r p
  chained := kept.chained
  counted := by
    have size := kept.length_chains
    rw [List.length_append] at size
    have counted := kept.counted
    omega
  found hwaddr r := kept.getStainfo_iff hwaddr
  aids i r refers := (kept.aids i r refers).1

/-! ## Allocation and association ids -/

theorem kept_init : initStaPriv.Kept [] where
  placed := by
    refine ⟨fun r p => ?_, fun r p p' other inside inside' => ?_, fun r => ?_⟩
    · cases p with
      | free => simp [places, initStaPriv]
      | chain index => simp [places, initStaPriv]
    · cases p <;> cases p' <;> simp_all [places, initStaPriv]
    · exact iff_of_true trivial (.inr ⟨.free, List.mem_finRange r⟩)
  chained := nofun
  unique r := nofun
  counted := by simp [initStaPriv, numSta]
  aids := nofun

/-- The table with record `r`, the first one in the free queue, in the chain of `hwaddr`. -/
def allocated (s : StaPriv) (r : Offset) (rest : List Offset) (hwaddr : MacAddr) : StaPriv :=
  let s := { s with freeStaQueue := rest }.setStainfo r { StaInfo.init with macAddr := hwaddr }
  { s with
    staHash := Function.update s.staHash (chainOf hwaddr) (s.staHash (chainOf hwaddr) ++ [r])
    asocStaCount := s.asocStaCount + 1 }

/-- What an allocation may do; the index is always within the table. -/
theorem allocStainfo_cases (s : StaPriv) (pnetdev : Bool) (hwaddr : MacAddr) :
    s.allocStainfo pnetdev hwaddr = (s, none) ∨ ∃ r rest, s.freeStaQueue = r :: rest ∧
      s.allocStainfo pnetdev hwaddr = (s.allocated r rest hwaddr, some r) := by
  rw [allocStainfo]
  cases pnetdev with
  | false => exact .inl rfl
  | true =>
      rw [if_pos rfl]
      split
      · exact .inl rfl
      · rename_i r rest queue
        exact .inr ⟨r, rest, queue, if_neg (Nat.not_le.mpr (chainOf_lt hwaddr))⟩

theorem Kept.allocated (kept : s.Kept []) {rest : List Offset} (queue : s.freeStaQueue = r :: rest) {hwaddr : MacAddr}
    (fresh : staAddr hwaddr = hwaddr → ∀ r, s.Hashed r → (s.stainfo r).macAddr ≠ hwaddr) :
    (s.allocated r rest hwaddr).Kept [] := by
  rw [StaPriv.allocated]
  have nodup : (r :: rest).Nodup := queue ▸ kept.placed.nodup .free
  have free : r ∈ s.freeStaQueue := queue ▸ List.mem_cons_self ..
  have off : ∀ index, r ∉ s.staHash index := fun index inside =>
    kept.placed.apart r .free (.chain index) nofun free inside
  have same {r' : Offset} (other : r' ≠ r) :
      Function.update s.stainfo r { StaInfo.init with macAddr := hwaddr } r' = s.stainfo r' :=
    Function.update_of_ne other ..
  have hashed (r' : Offset) (inside : ∃ index, r' ∈
      Function.update s.staHash (chainOf hwaddr) (s.staHash (chainOf hwaddr) ++ [r]) index) : s.Hashed r' ∨ r' = r := by
    obtain ⟨index, inside⟩ := inside
    rcases eq_or_ne index (chainOf hwaddr) with rfl | other
    · rw [Function.update_self, List.mem_append, List.mem_singleton] at inside
      exact inside.imp_left fun old => ⟨_, old⟩
    · rw [Function.update_of_ne other] at inside
      exact .inl ⟨_, inside⟩
  have ne {r' : Offset} (old : s.Hashed r') : r' ≠ r := by
    rintro rfl
    obtain ⟨index, inside⟩ := old
    exact off index inside
  refine ⟨?_, fun index r' inside => ?_, fun a b insideA insideB address own => ?_, ?_, fun i r' refers => ?_⟩
  · have taken : Placed (fun _ => True) [r] (Function.update s.places .free rest) :=
      kept.placed.rearrange [] [r] (by simp [places, queue])
    have put := taken.put (.chain (chainOf hwaddr))
    convert put using 1
    funext p
    cases p with
    | free => simp [places, setStainfo, append]
    | chain index =>
        rcases eq_or_ne index (chainOf hwaddr) with rfl | other
        · simp [places, setStainfo, append]
        · simp [places, setStainfo, append, other]
  · show index = chainOf (Function.update s.stainfo r _ r').macAddr
    simp only [setStainfo] at inside
    rcases eq_or_ne index (chainOf hwaddr) with rfl | other
    · rw [Function.update_self, List.mem_append, List.mem_singleton] at inside
      rcases inside with old | rfl
      · rw [same (ne ⟨_, old⟩)]
        exact kept.chained _ r' old
      · rw [Function.update_self]
    · rw [Function.update_of_ne other] at inside
      rw [same (ne ⟨_, inside⟩)]
      exact kept.chained index r' inside
  · simp only [setStainfo] at address own
    rcases hashed a insideA with oldA | rfl <;> rcases hashed b insideB with oldB | rfl
    · rw [same (ne oldA), same (ne oldB)] at address
      rw [same (ne oldA)] at own
      exact kept.unique a b oldA oldB address own
    · rw [same (ne oldA), Function.update_self] at address
      rw [same (ne oldA), address] at own
      exact absurd address (fresh own a oldA)
    · rw [same (ne oldB), Function.update_self] at address
      rw [Function.update_self] at own
      exact absurd address.symm (fresh own b oldB)
    · rfl
  · have counted := kept.counted
    rw [queue, List.length_cons] at counted
    show s.asocStaCount + 1 = numSta - rest.length
    push_cast at counted
    omega
  · obtain ⟨away, aid⟩ := kept.aids i r' refers
    rw [queue, List.mem_cons, not_or] at away
    refine ⟨away.2, ?_⟩
    show (Function.update s.stainfo r _ r').aid = i + 1
    rw [same away.1]
    exact aid

theorem Kept.alloc (kept : s.Kept []) (pnetdev : Bool) {hwaddr : MacAddr}
    (fresh : staAddr hwaddr = hwaddr → ∀ r, s.Hashed r → (s.stainfo r).macAddr ≠ hwaddr) :
    (s.allocStainfo pnetdev hwaddr).1.Kept [] := by
  obtain nothing | ⟨r, rest, queue, taken⟩ := allocStainfo_cases s pnetdev hwaddr
  · rw [nothing]
    exact kept
  · rw [taken]
    exact kept.allocated queue fresh

/-- A record's other fields. -/
theorem Kept.setStainfo (kept : s.Kept held) {psta : StaInfo} (address : psta.macAddr = (s.stainfo r).macAddr)
    (aid : psta.aid = (s.stainfo r).aid) : (s.setStainfo r psta).Kept held := by
  have same (r' : Offset) : ((s.setStainfo r psta).stainfo r').macAddr = (s.stainfo r').macAddr ∧
      ((s.setStainfo r psta).stainfo r').aid = (s.stainfo r').aid := by
    rcases eq_or_ne r' r with rfl | other
    · simpa [StaPriv.setStainfo] using ⟨address, aid⟩
    · simp [StaPriv.setStainfo, other]
  refine ⟨kept.placed, fun index r' inside => ?_, fun a b insideA insideB => ?_, kept.counted, fun i r' refers => ?_⟩
  · rw [(same r').1]
    exact kept.chained index r' inside
  · simp only [same]
    exact kept.unique a b insideA insideB
  · rw [(same r').2]
    exact kept.aids i r' refers

theorem Kept.assignAid (kept : s.Kept []) {aid : Nat} (may : s.allowedTable (.assignAid r aid)) :
    (s.assignAid r aid).Kept [] := by
  obtain ⟨hashed, none_, positive, -, -⟩ := may
  have address (r' : Offset) : ((s.assignAid r aid).stainfo r').macAddr = (s.stainfo r').macAddr := by
    rcases eq_or_ne r' r with rfl | other
    · simp [StaPriv.assignAid, StaPriv.setStainfo]
    · simp [StaPriv.assignAid, StaPriv.setStainfo, other]
  refine ⟨kept.placed, fun index r' inside => ?_, fun a b insideA insideB => ?_, kept.counted,
    fun i r' refers => ?_⟩
  · rw [address]
    exact kept.chained index r' inside
  · rw [address, address]
    exact kept.unique a b insideA insideB
  · show r' ∉ s.freeStaQueue ∧ (Function.update s.stainfo r _ r').aid = i + 1
    have refers : Function.update s.staAid (aid - 1) (some r) i = some r' := refers
    rcases eq_or_ne i (aid - 1) with rfl | other
    · rw [Function.update_self] at refers
      cases refers
      refine ⟨(hashed_iff kept).mp hashed, ?_⟩
      rw [Function.update_self]
      exact (Nat.sub_add_cancel positive).symm
    · rw [Function.update_of_ne other] at refers
      obtain ⟨away, old⟩ := kept.aids i r' refers
      -- the record has no association id, so that none refers to it
      have apart : r' ≠ r := by
        rintro rfl
        omega
      rw [Function.update_of_ne apart]
      exact ⟨away, old⟩

/-! ## Freeing -/

section Fields

variable (s : StaPriv) (r : Offset)

@[simp] theorem leaveAuthList_stainfo : (s.leaveAuthList r).stainfo = s.stainfo := by
  rw [leaveAuthList]
  split <;> rfl

@[simp] theorem leaveAuthList_freeStaQueue : (s.leaveAuthList r).freeStaQueue = s.freeStaQueue := by
  rw [leaveAuthList]
  split <;> rfl

@[simp] theorem leaveAuthList_staHash : (s.leaveAuthList r).staHash = s.staHash := by
  rw [leaveAuthList]
  split <;> rfl

@[simp] theorem leaveAuthList_asocStaCount : (s.leaveAuthList r).asocStaCount = s.asocStaCount := by
  rw [leaveAuthList]
  split <;> rfl

@[simp] theorem leaveAuthList_staAid : (s.leaveAuthList r).staAid = s.staAid := by
  rw [leaveAuthList]
  split <;> rfl

@[simp] theorem dropAid_freeStaQueue : (s.dropAid r).freeStaQueue = s.freeStaQueue := by
  rw [dropAid]
  split <;> rfl

@[simp] theorem dropAid_staHash : (s.dropAid r).staHash = s.staHash := by
  rw [dropAid]
  split <;> rfl

@[simp] theorem dropAid_asocStaCount : (s.dropAid r).asocStaCount = s.asocStaCount := by
  rw [dropAid]
  split <;> rfl

theorem dropAid_macAddr (r' : Offset) : ((s.dropAid r).stainfo r').macAddr = (s.stainfo r').macAddr := by
  rw [dropAid]
  split
  · rcases eq_or_ne r' r with rfl | other
    · simp [setStainfo]
    · simp [setStainfo, other]
  · rfl

theorem dropAid_stainfo {r' : Offset} (other : r' ≠ r) : (s.dropAid r).stainfo r' = s.stainfo r' := by
  rw [dropAid]
  split
  · simp [setStainfo, other]
  · rfl

theorem dropAid_staAid {i : Nat} {r' : Offset} (refers : (s.dropAid r).staAid i = some r') : s.staAid i = some r' := by
  rw [dropAid] at refers
  split at refers
  · simp only [setStainfo, Function.update_apply] at refers
    split at refers
    · cases refers
    · exact refers
  · exact refers

theorem dropAid_staAid_other {i : Nat} {r' : Offset} (other : r' ≠ r) (refers : s.staAid i = some r') :
    (s.dropAid r).staAid i = some r' := by
  rw [dropAid]
  split
  · rename_i own
    have apart : i ≠ (s.stainfo r).aid - 1 := by
      rintro rfl
      exact other (Option.some.inj (refers.symm.trans own.2))
    simpa [setStainfo, apart] using refers
  · exact refers

@[simp] theorem leaveAuthList_asocList : (s.leaveAuthList r).asocList = s.asocList := by
  rw [leaveAuthList]
  split <;> rfl

@[simp] theorem leaveAuthList_asocListCnt : (s.leaveAuthList r).asocListCnt = s.asocListCnt := by
  rw [leaveAuthList]
  split <;> rfl

@[simp] theorem dropAid_authList : (s.dropAid r).authList = s.authList := by
  rw [dropAid]
  split <;> rfl

@[simp] theorem dropAid_authListCnt : (s.dropAid r).authListCnt = s.authListCnt := by
  rw [dropAid]
  split <;> rfl

@[simp] theorem dropAid_asocList : (s.dropAid r).asocList = s.asocList := by
  rw [dropAid]
  split <;> rfl

@[simp] theorem dropAid_asocListCnt : (s.dropAid r).asocListCnt = s.asocListCnt := by
  rw [dropAid]
  split <;> rfl

end Fields

/-- What is freed while `sta_aid[]` may refer to it. -/
def unhashed (s : StaPriv) (r : Offset) : StaPriv :=
  let s := s.unhash r
  let s := { s with asocStaCount := s.asocStaCount - 1 }
  let s := s.setStainfo r { s.stainfo r with state := (s.stainfo r).state &&& ~~~fwLinked }
  s.leaveAuthList r

theorem unhashed_macAddr (s : StaPriv) (r r' : Offset) :
    ((s.unhashed r).stainfo r').macAddr = (s.stainfo r').macAddr := by
  rcases eq_or_ne r' r with rfl | other
  · simp [unhashed, setStainfo, unhash]
  · simp [unhashed, setStainfo, unhash, other]

theorem unhashed_aid (s : StaPriv) (r r' : Offset) : ((s.unhashed r).stainfo r').aid = (s.stainfo r').aid := by
  rcases eq_or_ne r' r with rfl | other
  · simp [unhashed, setStainfo, unhash]
  · simp [unhashed, setStainfo, unhash, other]

theorem freeStainfo_low (mode : UInt32) (low : (s.stainfo r).aid ≤ 31) :
    s.freeStainfo mode (some r) =
      let s := if mode = hwStateAp then (s.unhashed r).dropAid r else s.unhashed r
      { s with freeStaQueue := s.freeStaQueue ++ [r] } :=
  if_neg (by
    rw [← unhashed_aid s r r] at low
    exact Nat.not_lt.mpr low)

theorem freeStainfo_macAddr (mode : UInt32) (low : (s.stainfo r).aid ≤ 31) (r' : Offset) :
    ((s.freeStainfo mode (some r)).stainfo r').macAddr = (s.stainfo r').macAddr := by
  rw [freeStainfo_low mode low, ← unhashed_macAddr s r r']
  by_cases ap : mode = hwStateAp
  · simp [ap, dropAid_macAddr]
  · simp [ap]

theorem unhashed_stainfo (s : StaPriv) {r r' : Offset} (other : r' ≠ r) :
    (s.unhashed r).stainfo r' = s.stainfo r' := by
  simp [unhashed, setStainfo, unhash, other]

theorem freeStainfo_stainfo (mode : UInt32) (low : (s.stainfo r).aid ≤ 31) {r' : Offset} (other : r' ≠ r) :
    (s.freeStainfo mode (some r)).stainfo r' = s.stainfo r' := by
  rw [freeStainfo_low mode low, ← unhashed_stainfo s other]
  by_cases ap : mode = hwStateAp
  · simp [ap, dropAid_stainfo _ _ other]
  · simp [ap]

theorem freeStainfo_staHash (mode : UInt32) (low : (s.stainfo r).aid ≤ 31) :
    (s.freeStainfo mode (some r)).staHash = fun index => (s.staHash index).filter (· ≠ r) := by
  rw [freeStainfo_low mode low]
  by_cases ap : mode = hwStateAp <;> simp [ap, unhashed, setStainfo, unhash]

theorem freeStainfo_freeStaQueue (mode : UInt32) (low : (s.stainfo r).aid ≤ 31) :
    (s.freeStainfo mode (some r)).freeStaQueue = s.freeStaQueue ++ [r] := by
  rw [freeStainfo_low mode low]
  by_cases ap : mode = hwStateAp <;> simp [ap, unhashed, setStainfo, unhash]

theorem freeStainfo_asocStaCount (mode : UInt32) (low : (s.stainfo r).aid ≤ 31) :
    (s.freeStainfo mode (some r)).asocStaCount = s.asocStaCount - 1 := by
  rw [freeStainfo_low mode low]
  by_cases ap : mode = hwStateAp <;> simp [ap, unhashed, setStainfo, unhash]

theorem freeStainfo_authList (mode : UInt32) (low : (s.stainfo r).aid ≤ 31) :
    (s.freeStainfo mode (some r)).authList = (s.leaveAuthList r).authList ∧
      (s.freeStainfo mode (some r)).authListCnt = (s.leaveAuthList r).authListCnt := by
  rw [freeStainfo_low mode low]
  by_cases ap : mode = hwStateAp <;> by_cases on : r ∈ s.authList <;>
    simp [ap, on, unhashed, setStainfo, unhash, leaveAuthList]

theorem freeStainfo_asocList (mode : UInt32) (low : (s.stainfo r).aid ≤ 31) :
    (s.freeStainfo mode (some r)).asocList = s.asocList ∧
      (s.freeStainfo mode (some r)).asocListCnt = s.asocListCnt := by
  rw [freeStainfo_low mode low]
  by_cases ap : mode = hwStateAp <;> simp [ap, unhashed, setStainfo, unhash]

/-- The other records keep their association ids. -/
theorem freeStainfo_staAid_other (mode : UInt32) (low : (s.stainfo r).aid ≤ 31) {i : Nat} {r' : Offset}
    (other : r' ≠ r) (refers : s.staAid i = some r') : (s.freeStainfo mode (some r)).staAid i = some r' := by
  have before : (s.unhashed r).staAid i = some r' := by simpa [unhashed, setStainfo, unhash] using refers
  rw [freeStainfo_low mode low]
  by_cases ap : mode = hwStateAp
  · simp only [ap, if_true]
    exact dropAid_staAid_other _ _ other before
  · simpa only [ap, if_false] using before

/-- A free only takes association ids away. -/
theorem freeStainfo_staAid (mode : UInt32) (low : (s.stainfo r).aid ≤ 31) {i : Nat} {r' : Offset}
    (refers : (s.freeStainfo mode (some r)).staAid i = some r') : s.staAid i = some r' := by
  rw [freeStainfo_low mode low] at refers
  by_cases ap : mode = hwStateAp
  · simp only [ap, if_true] at refers
    simpa [unhashed, setStainfo, unhash] using dropAid_staAid _ _ refers
  · simpa [ap, unhashed, setStainfo, unhash] using refers

/-- The record's own is among them. -/
theorem freeStainfo_forgets {mode : UInt32} (releases : s.Releases mode r)
    (own : ∀ i, s.staAid i = some r → (s.stainfo r).aid = i + 1) (i : Nat) :
    (s.freeStainfo mode (some r)).staAid i ≠ some r := by
  intro refers
  obtain ⟨low, cleared⟩ := releases
  have before := freeStainfo_staAid mode low refers
  have aid := own i before
  rcases cleared with ap | never
  · have refers' : ((s.unhashed r).dropAid r).staAid i = some r := by
      rw [freeStainfo_low mode low] at refers
      simpa [ap] using refers
    have here : 0 < ((s.unhashed r).stainfo r).aid ∧
        (s.unhashed r).staAid (((s.unhashed r).stainfo r).aid - 1) = some r := by
      rw [unhashed_aid, aid]
      exact ⟨Nat.succ_pos i, by simpa [unhashed, setStainfo, unhash] using before⟩
    rw [dropAid, if_pos here] at refers'
    simp [setStainfo, unhashed_aid, aid] at refers'
  · exact never i before

/-- A record in no queue comes into the free queue. -/
theorem Kept.freeHeld (kept : s.Kept (r :: held)) {mode : UInt32} (releases : s.Releases mode r) :
    (s.freeStainfo mode (some r)).Kept held := by
  have low := releases.1
  have off : ∀ index, r ∉ s.staHash index := by
    intro index inside
    have once := kept.placed.once r (.chain index)
    rw [List.count_cons_self] at once
    have there : 0 < (s.places (.chain index)).count r := List.count_pos_iff.mpr inside
    omega
  have chains : (s.freeStainfo mode (some r)).staHash = s.staHash := by
    rw [freeStainfo_staHash mode low]
    funext index
    refine List.filter_eq_self.mpr fun r' inside => decide_eq_true ?_
    rintro rfl
    exact off index inside
  refine ⟨?_, fun index r' inside => ?_, fun a b insideA insideB => ?_, ?_, fun i r' refers => ?_⟩
  · convert kept.placed.put .free using 1
    funext p
    cases p with
    | free => simp [places, append, freeStainfo_freeStaQueue mode low]
    | chain index => simp [places, append, chains]
  · rw [chains] at inside
    rw [freeStainfo_macAddr mode low]
    exact kept.chained index r' inside
  · rw [freeStainfo_macAddr mode low, freeStainfo_macAddr mode low]
    simp only [Hashed, chains] at insideA insideB
    exact kept.unique a b insideA insideB
  · rw [freeStainfo_asocStaCount mode low, freeStainfo_freeStaQueue mode low, kept.counted, List.length_append,
      List.length_singleton]
    omega
  · obtain ⟨away, aid⟩ := kept.aids i r' (freeStainfo_staAid mode low refers)
    have other : r' ≠ r := by
      rintro rfl
      exact freeStainfo_forgets releases (fun i refers => (kept.aids i r' refers).2) i refers
    rw [freeStainfo_freeStaQueue mode low, freeStainfo_stainfo mode low other, List.mem_append, List.mem_singleton, not_or]
    exact ⟨⟨away, other⟩, aid⟩

theorem releases_freeStainfo {mode : UInt32} {r' : Offset} (low : (s.stainfo r).aid ≤ 31) (other : r' ≠ r)
    (releases : s.Releases mode r') : (s.freeStainfo mode (some r)).Releases mode r' := by
  obtain ⟨low', cleared⟩ := releases
  refine ⟨?_, cleared.imp_right fun never i refers => never i (freeStainfo_staAid mode low refers)⟩
  rwa [freeStainfo_stainfo mode low other]

theorem Kept.freeList {mode : UInt32} {list : List Offset} (kept : s.Kept (list ++ held)) (nodup : list.Nodup)
    (releases : ∀ r ∈ list, s.Releases mode r) :
    (list.foldl (fun s r => s.freeStainfo mode (some r)) s).Kept held := by
  induction list generalizing s with
  | nil => exact kept
  | cons r rest ih =>
      obtain ⟨apart, nodup⟩ := List.nodup_cons.mp nodup
      have here := releases r (List.mem_cons_self ..)
      refine ih (kept.freeHeld here) nodup fun r' inside => ?_
      have other : r' ≠ r := by
        rintro rfl
        exact apart inside
      exact releases_freeStainfo here.1 other (releases r' (List.mem_cons_of_mem _ inside))

/-- Hashed records with a property leave their chains. -/
theorem Kept.unlink (kept : s.Kept []) {P : Offset → Prop} [DecidablePred P] {xs : List Offset} (nodup : xs.Nodup)
    (swept : ∀ r, r ∈ xs ↔ P r ∧ s.Hashed r) :
    { s with staHash := fun index => (s.staHash index).filter fun r => ¬P r }.Kept xs := by
  have inside' {index : Nat} {r : Offset} (inside : r ∈ (s.staHash index).filter fun r => ¬P r) :
      r ∈ s.staHash index := List.mem_of_mem_filter inside
  refine ⟨?_, fun index r inside => kept.chained index r (inside' inside), fun a b insideA insideB => ?_, kept.counted,
    kept.aids⟩
  · have swept' : ∀ r, r ∈ xs ↔ (P r ∧ r ∉ s.freeStaQueue) ∧ ∃ p, r ∈ s.places p := by
      intro r
      rw [swept, hashed_iff kept]
      exact ⟨fun both => ⟨both, (kept.placed.exactly_one trivial).exists⟩, And.left⟩
    have placed := kept.placed.sweep nodup swept'
    rw [List.append_nil] at placed
    convert placed using 1
    funext p
    cases p with
    | free => exact (List.filter_eq_self.mpr fun r inside => by simp [show r ∈ s.freeStaQueue from inside]).symm
    | chain index =>
        refine List.filter_congr fun r inside => ?_
        have away := (hashed_iff kept).mp ⟨index, inside⟩
        simp [away]
  · obtain ⟨indexA, insideA⟩ := insideA
    obtain ⟨indexB, insideB⟩ := insideB
    exact kept.unique a b ⟨indexA, inside' insideA⟩ ⟨indexB, inside' insideB⟩

theorem Kept.freeStainfo (kept : s.Kept []) {mode : UInt32} (hashed : s.Hashed r) (releases : s.Releases mode r) :
    (s.freeStainfo mode (some r)).Kept [] := by
  have swept : ∀ r', r' ∈ [r] ↔ r' = r ∧ s.Hashed r' := by
    intro r'
    rw [List.mem_singleton]
    exact ⟨fun same => ⟨same, same ▸ hashed⟩, And.left⟩
  have out : (s.unhash r).Kept [r] := by
    simpa [unhash] using kept.unlink (List.nodup_singleton r) swept
  have twice : s.freeStainfo mode (some r) = (s.unhash r).freeStainfo mode (some r) := by
    rw [StaPriv.freeStainfo, StaPriv.freeStainfo]
    simp [unhash]
  rw [twice]
  exact out.freeHeld releases

theorem mem_freeStaList (kept : s.Kept []) : r ∈ s.freeStaList ↔ s.getStainfo bcAddr ≠ some r ∧ s.Hashed r := by
  rw [freeStaList, List.mem_flatMap]
  constructor
  · rintro ⟨index, -, inside⟩
    obtain ⟨inside, other⟩ := List.mem_filter.mp inside
    exact ⟨of_decide_eq_true other, index, inside⟩
  · rintro ⟨other, index, inside⟩
    refine ⟨index, List.mem_range.mpr ?_, List.mem_filter.mpr ⟨inside, decide_eq_true other⟩⟩
    rw [kept.chained index r inside]
    exact chainOf_lt _

theorem nodup_freeStaList (kept : s.Kept []) : s.freeStaList.Nodup := by
  refine List.nodup_flatMap.mpr ⟨fun index _ => (kept.placed.nodup (.chain index)).filter _, ?_⟩
  refine (List.nodup_range (n := numSta)).imp fun {a b} other r insideA insideB => ?_
  exact kept.placed.apart r (.chain a) (.chain b) (fun same => other (Place.chain.inj same))
    (List.mem_of_mem_filter insideA) (List.mem_of_mem_filter insideB)

/-- `free_sta_list` has room for them. -/
theorem length_freeStaList (kept : s.Kept []) : s.freeStaList.length ≤ numSta := by
  have fits := List.Nodup.length_le_card (nodup_freeStaList kept)
  rwa [Fintype.card_fin] at fits

theorem Kept.freeAllStainfo (kept : s.Kept []) {mode : UInt32} (releases : s.releasesAll (.freeAll mode)) :
    (s.freeAllStainfo mode).Kept [] := by
  rw [StaPriv.freeAllStainfo]
  split
  · exact kept
  rename_i several
  have out := kept.unlink (nodup_freeStaList kept) fun r => mem_freeStaList kept
  have released := releases.resolve_left several
  refine Kept.freeList ?_ (nodup_freeStaList kept) fun r inside => ?_
  · simpa using out
  · obtain ⟨other, hashed⟩ := (mem_freeStaList kept).mp inside
    exact released r hashed other

/-- One operation. -/
theorem Kept.step (kept : s.Kept []) {op : TableOp} (meets : s.meetsTable op) : (s.applyTable op).Kept [] := by
  obtain ⟨may, releases⟩ := meets
  cases op with
  | alloc pnetdev hwaddr => exact kept.alloc pnetdev fun _ => may
  | free mode psta =>
      cases psta with
      | none => exact kept
      | some r => exact kept.freeStainfo (may r rfl) (releases r rfl)
  | freeAll mode => exact kept.freeAllStainfo releases
  | assignAid r aid => exact kept.assignAid may

end StaPriv

open StaPriv

/-- In every run in which what is freed is freed whole, the table is as it should be. -/
theorem stations_tabled {s : StaPriv} (run : Runs applyTable meetsTable initStaPriv s) : s.Tabled :=
  (run.keeps (P := fun s : StaPriv => s.Kept []) kept_init fun _ _ kept meets => kept.step meets).tabled

/-- The first record. -/
theorem numSta_pos : 0 < numSta := by decide

def firstOffset : Offset := ⟨0, numSta_pos⟩

def oneAddr : MacAddr := fun _ => 2

theorem no_station (hwaddr : MacAddr) : initStaPriv.allowedTable (.alloc true hwaddr) := by
  rintro r ⟨index, inside⟩
  cases inside

/-- A station comes and goes. -/
theorem stations_tabled_one :
    ((initStaPriv.applyTable (.alloc true oneAddr)).applyTable (.free hwStateAp (some firstOffset))).Tabled := by
  let joined := initStaPriv.applyTable (.alloc true oneAddr)
  have hashed : joined.Hashed firstOffset := ⟨chainOf oneAddr, by decide⟩
  have low : (joined.stainfo firstOffset).aid ≤ 31 := by decide
  refine stations_tabled (.step (.step .start (TableOp.alloc true oneAddr) ⟨no_station oneAddr, trivial⟩) _ ⟨?_, ?_⟩)
  · rintro r same
    cases same
    exact hashed
  · rintro r same
    cases same
    exact ⟨low, .inl rfl⟩

/-- The station with the last association id is in no queue after it is freed. -/
theorem last_aid_leaks : ∃ s, Runs applyTable allowedTable initStaPriv s ∧ ¬s.Tabled := by
  let joined := initStaPriv.applyTable (.alloc true oneAddr)
  let associated := joined.applyTable (.assignAid firstOffset 32)
  have hashed : joined.Hashed firstOffset := ⟨chainOf oneAddr, by decide⟩
  have assigned : joined.allowedTable (.assignAid firstOffset 32) := ⟨hashed, by decide, by decide, by decide, rfl⟩
  have freed : associated.allowedTable (.free hwStateAp (some firstOffset)) := by
    rintro r same
    cases same
    exact hashed
  have run : Runs applyTable allowedTable initStaPriv (associated.applyTable (.free hwStateAp (some firstOffset))) :=
    .step (.step (.step .start (TableOp.alloc true oneAddr) (no_station oneAddr)) _ assigned) _ freed
  refine ⟨_, run, fun tabled => ?_⟩
  obtain ⟨⟨p, inside, -⟩, -⟩ := tabled.once firstOffset
  cases p with
  | free => exact absurd inside (by decide)
  | chain index =>
      have chains : (associated.applyTable (.free hwStateAp (some firstOffset))).staHash index =
          (associated.staHash index).filter (· ≠ firstOffset) := rfl
      simp [places, chains] at inside

end Vmac.Ap
