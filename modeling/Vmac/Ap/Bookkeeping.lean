/-
# Vmac.Ap.Bookkeeping -- the lists, association ids and counters of an access point

Each handler of `Association` moves a record in small steps: on or off a list, a new association
id, an update together with the BSS counters, a free.  `Booked` is kept by each of these.

* `association_booked`: in which runs lists, association ids and counters stay right.
* `rejected_request_strands`: a run that takes a station's association id away and leaves its
  place in `sta_aid[]`.
-/
import Mathlib.Data.Fintype.EquivFin
import Vmac.Ap.Association

namespace Vmac.Ap

open Theory Theory.Bytes Theory.Placement Theory.Run Theory.Marks
open Transmit (MacAddr bcAddr staAddr isMcast AuthAlgrthm Privacy)
open Security (Mem bytesAt SecurityKeys RxFrame rtwWepDecrypt icv)
open StaPriv

set_option autoImplicit false

/-! ## What is kept -/

/-- `auth_list` and `asoc_list`. -/
structure Listed (s : StaPriv) : Prop where
  allocatedAuth : ∀ r ∈ s.authList, r ∉ s.freeStaQueue
  allocatedAsoc : ∀ r ∈ s.asocList, r ∉ s.freeStaQueue
  apart : ∀ r ∈ s.authList, r ∉ s.asocList
  nodupAuth : s.authList.Nodup
  nodupAsoc : s.asocList.Nodup
  authListCnt : s.authListCnt = s.authList.length
  asocListCnt : s.asocListCnt = s.asocList.length

/-- An association id of an allocated record is within bounds and in `sta_aid[]`. -/
def AidsKnown (maxNumSta : Nat) (s : StaPriv) : Prop :=
  ∀ r, r ∉ s.freeStaQueue → 0 < (s.stainfo r).aid →
    (s.stainfo r).aid ≤ maxNumSta ∧ (s.stainfo r).aid ≤ numSta ∧ s.staAid ((s.stainfo r).aid - 1) = some r

namespace AccessPoint

/-- A counter and the allocated records counted in it. -/
def tally (a : AccessPoint) (k : Prot) : Tally Offset :=
  ⟨a.bss.numSta k, fun r => decide (r ∉ a.stapriv.freeStaQueue) && (a.sta r).marked k⟩

structure Booked (maxNumSta : Nat) (a : AccessPoint) : Prop where
  mode : a.state = hwStateAp
  kept : a.stapriv.Kept []
  listed : Listed a.stapriv
  known : AidsKnown maxNumSta a.stapriv
  counted : ∀ k, ∃ S, Tallied (a.tally k) S 0
  /-- No frame of these reports it. -/
  tolerant : ∀ r, r ∉ a.stapriv.freeStaQueue → (a.sta r).marked .fortyMhzIntolerant = false

end AccessPoint

section Steps

variable {a : AccessPoint} {s : StaPriv} {r : Offset} {n : Nat}

/-! ## Lists -/

theorem length_filter_ne {list : List Offset} (nodup : list.Nodup) (on : r ∈ list) :
    ((list.filter (· ≠ r)).length : Int) = list.length - 1 := by
  have erased := List.length_erase_of_mem on
  rw [nodup.erase_eq_filter] at erased
  have same : list.filter (· ≠ r) = list.filter (· != r) := List.filter_congr fun x _ => by simp [bne, beq_eq_decide]
  have positive := List.length_pos_of_mem on
  rw [same, erased]
  omega

theorem nodup_append_new {list : List Offset} (nodup : list.Nodup) (off : r ∉ list) : (list ++ [r]).Nodup := by
  simpa [List.nodup_append] using ⟨nodup, fun x inside same => off (same ▸ inside)⟩

theorem Listed.leaveAuthList (listed : Listed s) (r : Offset) : Listed (s.leaveAuthList r) := by
  rw [StaPriv.leaveAuthList]
  split
  · rename_i on
    exact {
      listed with
      allocatedAuth := fun r' inside => listed.allocatedAuth r' (List.mem_of_mem_filter inside)
      apart := fun r' inside => listed.apart r' (List.mem_of_mem_filter inside)
      nodupAuth := listed.nodupAuth.filter _
      authListCnt := by rw [listed.authListCnt, length_filter_ne listed.nodupAuth on] }
  · exact listed

theorem not_mem_leaveAuthList (s : StaPriv) (r : Offset) : r ∉ (s.leaveAuthList r).authList := by
  rw [StaPriv.leaveAuthList]
  split
  · simp
  · assumption

theorem Listed.leaveAsocList (listed : Listed a.stapriv) (r : Offset) : Listed (a.leaveAsocList r).stapriv := by
  rw [AccessPoint.leaveAsocList]
  split
  · rename_i on
    exact {
      listed with
      allocatedAsoc := fun r' inside => listed.allocatedAsoc r' (List.mem_of_mem_filter inside)
      apart := fun r' inside on' => listed.apart r' inside (List.mem_of_mem_filter on')
      nodupAsoc := listed.nodupAsoc.filter _
      asocListCnt := by rw [listed.asocListCnt, length_filter_ne listed.nodupAsoc on] }
  · exact listed

theorem not_mem_leaveAsocList (a : AccessPoint) (r : Offset) : r ∉ (a.leaveAsocList r).stapriv.asocList := by
  rw [AccessPoint.leaveAsocList]
  split
  · simp
  · assumption

theorem Listed.enterAuthList (listed : Listed a.stapriv) (allocated : r ∉ a.stapriv.freeStaQueue)
    (off : r ∉ a.stapriv.asocList) : Listed (a.enterAuthList r).stapriv := by
  rw [AccessPoint.enterAuthList]
  split
  · exact listed
  · rename_i fresh
    exact {
      listed with
      allocatedAuth := by simpa [or_imp, forall_and] using ⟨listed.allocatedAuth, allocated⟩
      apart := by simpa [or_imp, forall_and] using ⟨listed.apart, off⟩
      nodupAuth := nodup_append_new listed.nodupAuth fresh
      authListCnt := by simp [listed.authListCnt] }

theorem Listed.enterAsocList (listed : Listed a.stapriv) (allocated : r ∉ a.stapriv.freeStaQueue)
    (off : r ∉ a.stapriv.authList) : Listed (a.enterAsocList r).stapriv := by
  rw [AccessPoint.enterAsocList]
  split
  · exact listed
  · rename_i fresh
    have apart : ∀ r' ∈ a.stapriv.authList, r' ∉ a.stapriv.asocList ++ [r] := by
      intro r' inside on
      rcases List.mem_append.mp on with old | new
      · exact listed.apart r' inside old
      · exact off (List.mem_singleton.mp new ▸ inside)
    exact {
      listed with
      allocatedAsoc := by simpa [or_imp, forall_and] using ⟨listed.allocatedAsoc, allocated⟩
      apart := apart
      nodupAsoc := nodup_append_new listed.nodupAsoc fresh
      asocListCnt := by simp [listed.asocListCnt] }

namespace AccessPoint

/-- What is not on the lists does not change with them. -/
structure Relisted (a a' : AccessPoint) : Prop where
  stainfo : a'.stapriv.stainfo = a.stapriv.stainfo
  freeStaQueue : a'.stapriv.freeStaQueue = a.stapriv.freeStaQueue
  staHash : a'.stapriv.staHash = a.stapriv.staHash
  asocStaCount : a'.stapriv.asocStaCount = a.stapriv.asocStaCount
  staAid : a'.stapriv.staAid = a.stapriv.staAid
  bss : a'.bss = a.bss
  state : a'.state = a.state

theorem relisted_leaveAuthList (a : AccessPoint) (r : Offset) : Relisted a (a.leaveAuthList r) := by
  constructor <;> simp [leaveAuthList]

theorem relisted_leaveAsocList (a : AccessPoint) (r : Offset) : Relisted a (a.leaveAsocList r) := by
  rw [leaveAsocList]
  split <;> exact ⟨rfl, rfl, rfl, rfl, rfl, rfl, rfl⟩

theorem relisted_enterAuthList (a : AccessPoint) (r : Offset) : Relisted a (a.enterAuthList r) := by
  rw [enterAuthList]
  split <;> exact ⟨rfl, rfl, rfl, rfl, rfl, rfl, rfl⟩

theorem relisted_enterAsocList (a : AccessPoint) (r : Offset) : Relisted a (a.enterAsocList r) := by
  rw [enterAsocList]
  split <;> exact ⟨rfl, rfl, rfl, rfl, rfl, rfl, rfl⟩

theorem Booked.relist {a' : AccessPoint} (booked : a.Booked n) (same : Relisted a a') (listed : Listed a'.stapriv) :
    a'.Booked n := by
  obtain ⟨stainfo, queue, hash, count, aids, bss, state⟩ := same
  have places : a'.stapriv.places = a.stapriv.places := by
    funext p
    cases p <;> simp [places, queue, hash]
  have tally (k : Prot) : a'.tally k = a.tally k := by simp [tally, sta, bss, queue, stainfo]
  refine ⟨state.trans booked.mode, ?_, listed, ?_, fun k => ?_, ?_⟩
  · have kept := booked.kept
    refine ⟨places ▸ kept.placed, ?_, ?_, ?_, ?_⟩
    · simpa only [hash, stainfo] using kept.chained
    · simpa only [Hashed, hash, stainfo] using kept.unique
    · simpa only [count, queue] using kept.counted
    · simpa only [aids, queue, stainfo] using kept.aids
  · simpa only [AidsKnown, queue, stainfo, aids] using booked.known
  · rw [tally]
    exact booked.counted k
  · simpa only [queue, sta, stainfo] using booked.tolerant

/-! ## Records -/

@[simp] theorem sta_setSta_self (psta : StaInfo) : (a.setSta r psta).sta r = psta := Function.update_self ..

theorem sta_setSta_other {r' : Offset} (other : r' ≠ r) (psta : StaInfo) : (a.setSta r psta).sta r' = a.sta r' :=
  Function.update_of_ne other ..

/-- A record is updated together with the counters. -/
theorem Booked.update (booked : a.Booked n) (allocated : r ∉ a.stapriv.freeStaQueue) {psta : StaInfo} {bss : BssProt}
    (address : psta.macAddr = (a.sta r).macAddr) (aid : psta.aid = (a.sta r).aid)
    (others : ∀ k, bss.numSta k - (psta.marked k).toInt = a.bss.numSta k - ((a.sta r).marked k).toInt)
    (tolerant : psta.marked .fortyMhzIntolerant = false) : Booked n { (a.setSta r psta) with bss } := by
  refine ⟨booked.mode, booked.kept.setStainfo address aid, ?_, fun r' away positive => ?_, fun k => ?_,
    fun r' away => ?_⟩
  · have listed := booked.listed
    exact ⟨listed.allocatedAuth, listed.allocatedAsoc, listed.apart, listed.nodupAuth, listed.nodupAsoc,
      listed.authListCnt, listed.asocListCnt⟩
  · have known := booked.known r' away
    rcases eq_or_ne r' r with rfl | other
    · have same : ((a.setSta r' psta).stapriv.stainfo r').aid = (a.stapriv.stainfo r').aid := by
        rw [← AccessPoint.sta, sta_setSta_self]
        exact aid
      simp only [same] at positive ⊢
      exact known positive
    · have same : (a.setSta r psta).stapriv.stainfo r' = a.stapriv.stainfo r' := sta_setSta_other other psta
      simp only [same] at positive ⊢
      exact known positive
  · obtain ⟨S, tallied⟩ := booked.counted k
    have marked : (a.tally k).marked r = (a.sta r).marked k := by simp [tally, allocated]
    have tally : tally { (a.setSta r psta) with bss } k =
        ⟨bss.numSta k, Function.update (a.tally k).marked r (psta.marked k)⟩ := by
      simp only [AccessPoint.tally, Tally.mk.injEq, true_and]
      funext r'
      rcases eq_or_ne r' r with rfl | other
      · show (decide (r' ∉ a.stapriv.freeStaQueue) && ((a.setSta r' psta).sta r').marked k) = _
        simp [allocated]
      · show (decide (r' ∉ a.stapriv.freeStaQueue) && ((a.setSta r psta).sta r').marked k) = _
        rw [sta_setSta_other other, Function.update_of_ne other]
    rw [tally]
    exact ⟨_, tallied.exchange (by
      rw [marked]
      exact others k)⟩
  · rcases eq_or_ne r' r with rfl | other
    · show ((a.setSta r' psta).sta r').marked _ = false
      rw [sta_setSta_self]
      exact tolerant
    · show ((a.setSta r psta).sta r').marked _ = false
      rw [sta_setSta_other other]
      exact booked.tolerant r' away

/-- The fields that neither the table nor the counters use. -/
theorem Booked.setSta (booked : a.Booked n) (allocated : r ∉ a.stapriv.freeStaQueue) (psta : StaInfo)
    (address : psta.macAddr = (a.sta r).macAddr) (aid : psta.aid = (a.sta r).aid)
    (marked : psta.marked = (a.sta r).marked) : (a.setSta r psta).Booked n :=
  booked.update allocated address aid (fun k => by rw [marked]) (by rw [marked, booked.tolerant r allocated])

theorem Booked.setCell (booked : a.Booked n) (allocated : r ∉ a.stapriv.freeStaQueue) {c : Cell}
    (aid : c.psta.aid = (a.sta r).aid) (others : ∀ k, c.others k = (a.cell r).others k)
    (tolerant : c.psta.marked .fortyMhzIntolerant = false) : (a.setCell r c).Booked n :=
  booked.update allocated rfl aid others tolerant

/-! ## Allocation, association ids, frees -/

theorem Booked.allocated (booked : a.Booked n) {rest : List Offset} (queue : a.stapriv.freeStaQueue = r :: rest)
    {sa : MacAddr} (absent : a.stapriv.getStainfo sa = none) :
    Booked n { a with stapriv := a.stapriv.allocated r rest sa } := by
  have nodup : (r :: rest).Nodup := queue ▸ booked.kept.placed.nodup .free
  have away (r' : Offset) (other : r' ≠ r) : r' ∉ rest ↔ r' ∉ a.stapriv.freeStaQueue := by
    rw [queue, List.mem_cons, not_or]
    exact ⟨fun out => ⟨other, out⟩, And.right⟩
  have stainfo (r' : Offset) (other : r' ≠ r) : (a.stapriv.allocated r rest sa).stainfo r' = a.stapriv.stainfo r' :=
    Function.update_of_ne other ..
  have own : (a.stapriv.allocated r rest sa).stainfo r = { StaInfo.init with macAddr := sa } := Function.update_self ..
  have listed := booked.listed
  refine ⟨booked.mode, booked.kept.allocated queue fun own r' hashed address => ?_, ?_, fun r' out positive => ?_,
    fun k => ?_, fun r' out => ?_⟩
  · have found := (booked.kept.getStainfo_iff sa).mpr ⟨hashed, address.trans own.symm⟩
    rw [absent] at found
    cases found
  · have later (r' : Offset) (out : r' ∉ a.stapriv.freeStaQueue) : r' ∉ rest := fun inside =>
      out (queue ▸ List.mem_cons_of_mem _ inside)
    exact ⟨fun r' on => later r' (listed.allocatedAuth r' on), fun r' on => later r' (listed.allocatedAsoc r' on),
      listed.apart, listed.nodupAuth, listed.nodupAsoc, listed.authListCnt, listed.asocListCnt⟩
  · rcases eq_or_ne r' r with rfl | other
    · simp only [own] at positive
      cases positive
    · simp only [stainfo r' other] at positive ⊢
      exact booked.known r' ((away r' other).mp out) positive
  · obtain ⟨S, tallied⟩ := booked.counted k
    refine ⟨S, fun r' => ?_, tallied.count⟩
    rw [← tallied.marked r']
    rcases eq_or_ne r' r with rfl | other
    · have before : (a.tally k).marked r' = false := by simp [tally, queue]
      rw [before]
      show (decide (r' ∉ rest) && ((a.stapriv.allocated r' rest sa).stainfo r').marked k) = true ↔ _
      rw [own]
      simp [StaInfo.init, initStainfo]
    · show (decide (r' ∉ rest) && ((a.stapriv.allocated r rest sa).stainfo r').marked k) = true ↔
        (decide (r' ∉ a.stapriv.freeStaQueue) && (a.stapriv.stainfo r').marked k) = true
      rw [stainfo r' other, decide_eq_decide.mpr (away r' other)]
  · show ((a.stapriv.allocated r rest sa).stainfo r').marked _ = false
    rcases eq_or_ne r' r with rfl | other
    · rw [own]
      rfl
    · rw [stainfo r' other]
      exact booked.tolerant r' ((away r' other).mp out)

/-- A record on no list that no counter counts. -/
theorem Booked.free (booked : a.Booked n) (allocated : r ∉ a.stapriv.freeStaQueue) (low : (a.sta r).aid ≤ 31)
    (off : r ∉ a.stapriv.asocList) (unmarked : ∀ k, (a.sta r).marked k = false) : (a.freeStainfo r).Booked n := by
  have hashed := (hashed_iff booked.kept).mpr allocated
  have queue := freeStainfo_freeStaQueue a.state low
  have away (r' : Offset) : r' ∉ (a.stapriv.freeStainfo a.state (some r)).freeStaQueue ↔
      r' ∉ a.stapriv.freeStaQueue ∧ r' ≠ r := by
    rw [queue, List.mem_append, List.mem_singleton, not_or]
  have listed := booked.listed.leaveAuthList r
  refine ⟨booked.mode, booked.kept.freeStainfo hashed ⟨low, .inl booked.mode⟩, ?_, fun r' out positive => ?_,
    fun k => ?_, fun r' out => ?_⟩
  · obtain ⟨authList, authListCnt⟩ := freeStainfo_authList a.state low
    obtain ⟨asocList, asocListCnt⟩ := freeStainfo_asocList a.state low
    have out (r' : Offset) (on : r' ∉ a.stapriv.freeStaQueue) (other : r' ≠ r) :
        r' ∉ (a.freeStainfo r).stapriv.freeStaQueue := (away r').mpr ⟨on, other⟩
    constructor <;> simp only [AccessPoint.freeStainfo, authList, authListCnt, asocList, asocListCnt]
    · intro r' on
      have allocated := listed.allocatedAuth r' on
      rw [leaveAuthList_freeStaQueue] at allocated
      exact out r' allocated fun same => not_mem_leaveAuthList a.stapriv r (same ▸ on)
    · exact fun r' on => out r' (booked.listed.allocatedAsoc r' on) fun same => off (same ▸ on)
    · simpa using listed.apart
    · exact listed.nodupAuth
    · exact booked.listed.nodupAsoc
    · exact listed.authListCnt
    · exact booked.listed.asocListCnt
  · obtain ⟨out, other⟩ := (away r').mp out
    have same := freeStainfo_stainfo a.state low other
    simp only [AccessPoint.freeStainfo, same] at positive ⊢
    obtain ⟨most, table, refers⟩ := booked.known r' out positive
    exact ⟨most, table, freeStainfo_staAid_other a.state low other refers⟩
  · obtain ⟨S, tallied⟩ := booked.counted k
    refine ⟨S, fun r' => ?_, tallied.count⟩
    rw [← tallied.marked r']
    show (decide (r' ∉ (a.stapriv.freeStainfo a.state (some r)).freeStaQueue) &&
      ((a.stapriv.freeStainfo a.state (some r)).stainfo r').marked k) = true ↔
        (decide (r' ∉ a.stapriv.freeStaQueue) && (a.sta r').marked k) = true
    rcases eq_or_ne r' r with rfl | other
    · simp [queue, unmarked k]
    · rw [freeStainfo_stainfo a.state low other, decide_eq_decide.mpr ((away r').trans (and_iff_left other))]
      rfl
  · obtain ⟨out, other⟩ := (away r').mp out
    show ((a.stapriv.freeStainfo a.state (some r)).stainfo r').marked _ = false
    rw [freeStainfo_stainfo a.state low other]
    exact booked.tolerant r' out

theorem Booked.assignAid (booked : a.Booked n) (allocated : r ∉ a.stapriv.freeStaQueue) {aid : Nat}
    (none_ : (a.sta r).aid = 0) (positive : 1 ≤ aid) (table : aid ≤ numSta) (most : aid ≤ n)
    (vacant : a.stapriv.staAid (aid - 1) = none) : Booked n { a with stapriv := a.stapriv.assignAid r aid } := by
  have hashed := (hashed_iff booked.kept).mpr allocated
  have stainfo (r' : Offset) (other : r' ≠ r) : (a.stapriv.assignAid r aid).stainfo r' = a.stapriv.stainfo r' :=
    Function.update_of_ne other ..
  have own : (a.stapriv.assignAid r aid).stainfo r = { a.sta r with aid } := Function.update_self ..
  have marked (r' : Offset) : ((a.stapriv.assignAid r aid).stainfo r').marked = (a.sta r').marked := by
    rcases eq_or_ne r' r with rfl | other
    · rw [own]
    · rw [stainfo r' other]
      rfl
  have listed := booked.listed
  refine ⟨booked.mode, booked.kept.assignAid ⟨hashed, none_, positive, table, vacant⟩, ?_, fun r' out some_ => ?_,
    fun k => ?_, fun r' out => ?_⟩
  · exact ⟨listed.allocatedAuth, listed.allocatedAsoc, listed.apart, listed.nodupAuth, listed.nodupAsoc,
      listed.authListCnt, listed.asocListCnt⟩
  · rcases eq_or_ne r' r with rfl | other
    · simp only [own]
      exact ⟨most, table, Function.update_self ..⟩
    · simp only [stainfo r' other] at some_ ⊢
      obtain ⟨most, table, refers⟩ := booked.known r' out some_
      refine ⟨most, table, ?_⟩
      have apart : (a.stapriv.stainfo r').aid - 1 ≠ aid - 1 := by
        intro same
        rw [same, vacant] at refers
        cases refers
      exact (Function.update_of_ne apart ..).trans refers
  · obtain ⟨S, tallied⟩ := booked.counted k
    refine ⟨S, fun r' => ?_, tallied.count⟩
    rw [← tallied.marked r']
    show (decide (r' ∉ a.stapriv.freeStaQueue) && ((a.stapriv.assignAid r aid).stainfo r').marked k) = true ↔ _
    rw [marked]
    rfl
  · show ((a.stapriv.assignAid r aid).stainfo r').marked _ = false
    rw [marked]
    exact booked.tolerant r' out

/-- A station without an association id finds a free place: the other stations are fewer than the places. -/
theorem Booked.vacant (booked : a.Booked n) (none_ : (a.sta r).aid = 0) :
    ∃ aid ∈ List.range' 1 numSta, a.stapriv.staAid (aid - 1) = none := by
  by_contra full
  have taken (i : Fin 32) : ∃ r', a.stapriv.staAid i = some r' := by
    have inside : i.val + 1 ∈ List.range' 1 numSta := by
      rw [List.mem_range'_1, numSta]
      omega
    refine Option.ne_none_iff_exists'.mp fun vacant => full ⟨i.val + 1, inside, ?_⟩
    rwa [Nat.add_sub_cancel]
  choose holder holds using taken
  have aid (i : Fin 32) : (a.sta (holder i)).aid = i.val + 1 := (booked.kept.aids i _ (holds i)).2
  have injective : Function.Injective holder := by
    intro i j same
    have aids := aid i
    rw [same, aid j] at aids
    exact Fin.ext (Nat.succ.inj aids.symm)
  obtain ⟨i, at_⟩ := Finite.injective_iff_surjective.mp injective r
  have aids := aid i
  rw [at_, none_] at aids
  cases aids

theorem Booked.getAid (booked : a.Booked n) (allocated : r ∉ a.stapriv.freeStaQueue) {s' : StaPriv}
    (room : getAid n a.stapriv r = some s') :
    Booked n { a with stapriv := s' } ∧ s'.freeStaQueue = a.stapriv.freeStaQueue := by
  rw [Ap.getAid] at room
  split at room
  · cases room
    exact ⟨booked, rfl⟩
  rename_i none_
  have none_ : (a.sta r).aid = 0 := Nat.eq_zero_of_not_pos none_
  split at room
  · rename_i aid found
    split at room
    · cases room
    · rename_i most
      cases room
      have inside := List.mem_range'_1.mp (List.mem_of_find?_eq_some found)
      have vacant : a.stapriv.staAid (aid - 1) = none := by simpa using List.find?_some found
      have table : aid ≤ numSta := by omega
      exact ⟨booked.assignAid allocated none_ inside.1 table (Nat.not_lt.mp most) vacant, rfl⟩
  · rename_i full
    obtain ⟨aid, inside, vacant⟩ := booked.vacant none_
    have taken := List.find?_eq_none.mp full aid inside
    rw [vacant] at taken
    exact absurd rfl taken

/-! ## The handlers -/

theorem authPassed_toStaProt (mode : AuthAlgrthm) (pstat : StaInfo) (f : AuthFrame) :
    (authPassed mode pstat f).toStaProt = pstat.toStaProt ∧ (authPassed mode pstat f).macAddr = pstat.macAddr := by
  rw [authPassed]
  split
  · exact ⟨rfl, rfl⟩
  · split <;> exact ⟨rfl, rfl⟩

/-- What a rejected frame must not find in the record: it would be freed uncounted. -/
def Discardable (psta : StaInfo) : Prop := (∀ k, psta.marked k = false) ∧ psta.aid ≤ 31

theorem Booked.authSta (booked : a.Booked n) (allocated : r ∉ a.stapriv.freeStaQueue) (off : r ∉ a.stapriv.asocList)
    {mode : AuthAlgrthm} {f : AuthFrame}
    (rejected : authStatus mode (a.sta r) f ≠ .successful → Discardable (a.sta r)) :
    (Ap.authSta mode a f r).1.Booked n := by
  have same := relisted_enterAuthList a r
  have entered := booked.relist same (booked.listed.enterAuthList allocated off)
  have sta : (a.enterAuthList r).sta r = a.sta r := congrFun same.stainfo r
  have allocated : r ∉ (a.enterAuthList r).stapriv.freeStaQueue := same.freeStaQueue.symm ▸ allocated
  have off : r ∉ (a.enterAuthList r).stapriv.asocList := by
    rw [AccessPoint.enterAuthList]
    split <;> exact off
  rw [Ap.authSta]
  simp only [sta]
  split
  · obtain ⟨prot, address⟩ := authPassed_toStaProt mode (a.sta r) f
    refine entered.setSta allocated _ ?_ ?_ ?_ <;> rw [sta] <;> split
    · exact address
    · exact address
    · exact congrArg StaProt.aid prot
    · exact congrArg StaProt.aid prot
    · exact congrArg StaProt.marked prot
    · exact congrArg StaProt.marked prot
  · rename_i failed
    obtain ⟨unmarked, low⟩ := rejected failed
    exact entered.free allocated (sta.symm ▸ low) off (sta.symm ▸ unmarked)

theorem Booked.onAuth (booked : a.Booked n) {cfg : ApConfig} {received : AuthFrame}
    (rejected : ∀ r, a.stapriv.getStainfo (received.opened cfg.keys).sa = some r →
      badAlg (authMode cfg) (received.opened cfg.keys) = false → cfg.accessCtrl (received.opened cfg.keys).sa = true →
        authStatus (authMode cfg) (a.sta r) (received.opened cfg.keys) ≠ .successful → Discardable (a.sta r)) :
    (Ap.onAuth cfg a received).1.Booked n := by
  rw [Ap.onAuth]
  split
  swap
  · exact booked
  dsimp only
  split
  · exact booked
  rename_i goodAlg
  split
  · exact booked
  rename_i admitted
  split
  · rename_i absent
    obtain nothing | ⟨r, rest, queue, taken⟩ :=
      allocStainfo_cases a.stapriv cfg.pnetdev (received.opened cfg.keys).sa
    · rw [nothing]
      exact booked
    · rw [taken]
      let a' : AccessPoint := { a with stapriv := a.stapriv.allocated r rest (received.opened cfg.keys).sa }
      have new : a'.Booked n := booked.allocated queue absent
      have nodup : (r :: rest).Nodup := queue ▸ booked.kept.placed.nodup .free
      have out : r ∉ rest := (List.nodup_cons.mp nodup).1
      have off : r ∉ a.stapriv.asocList := fun on => booked.listed.allocatedAsoc r on (by simp [queue])
      have own : a'.sta r = { StaInfo.init with macAddr := (received.opened cfg.keys).sa } := Function.update_self ..
      have set := new.setSta out { a'.sta r with state := wifiFwAuthNull, authSeq := 0 } rfl rfl rfl
      refine set.authSta out off fun _ => ?_
      rw [sta_setSta_self, own]
      exact ⟨fun _ => rfl, Nat.zero_le 31⟩
  · rename_i r found
    have allocated := (hashed_iff booked.kept).mp ((booked.kept.getStainfo_iff _).mp found).1
    have same := relisted_leaveAsocList a r
    have sta : (a.leaveAsocList r).sta r = a.sta r := congrFun same.stainfo r
    refine (booked.relist same (booked.listed.leaveAsocList r)).authSta (same.freeStaQueue.symm ▸ allocated)
      (not_mem_leaveAsocList a r) ?_
    rw [sta]
    exact rejected r found (Bool.eq_false_iff.mpr goodAlg) (Bool.eq_true_of_not_eq_false admitted)

theorem Booked.assocSta (booked : a.Booked n) (allocated : r ∉ a.stapriv.freeStaQueue) :
    (Ap.assocSta a r).Booked n := by
  let a₁ := a.setSta r { a.sta r with state := ((a.sta r).state &&& ~~~wifiFwAssocState) ||| wifiFwAssocSuccess }
  have set : a₁.Booked n := booked.setSta allocated _ rfl rfl rfl
  let a₂ := a₁.leaveAuthList r
  have left : a₂.Booked n := set.relist (relisted_leaveAuthList a₁ r) (set.listed.leaveAuthList r)
  have out₂ : r ∉ a₂.stapriv.freeStaQueue := (relisted_leaveAuthList a₁ r).freeStaQueue.symm ▸ allocated
  let a₃ := a₂.enterAsocList r
  have entered : a₃.Booked n := left.relist (relisted_enterAsocList a₂ r)
    (left.listed.enterAsocList out₂ (not_mem_leaveAuthList a₁.stapriv r))
  have out₃ : r ∉ a₃.stapriv.freeStaQueue := (relisted_enterAsocList a₂ r).freeStaQueue.symm ▸ out₂
  have joined : (a₃.setCell r (bssCapUpdateOnStaJoin (a₃.cell r))).Booked n := by
    refine entered.setCell out₃ (join_aid _) (join_others _) ?_
    have before : (a₃.cell r).psta.marked .fortyMhzIntolerant = false := entered.tolerant r out₃
    simp [join_marked, StaCap.has, before]
  exact joined.setSta out₃ _ rfl rfl rfl

theorem Booked.onAssocReq (booked : a.Booked n) {cfg : ApConfig} (most : cfg.maxNumSta = n) {q : AssocReq}
    (rejected : ∀ r, a.stapriv.getStainfo q.addr2 = some r → (a.sta r).trusted = true → q.wellFormed = false →
      (a.sta r).aid = 0) : (Ap.onAssocReq cfg a q).Booked n := by
  rw [Ap.onAssocReq]
  split
  swap
  · exact booked
  split
  · exact booked
  rename_i r found
  have allocated := (hashed_iff booked.kept).mp ((booked.kept.getStainfo_iff _).mp found).1
  dsimp only
  split
  · exact booked
  rename_i known
  have trusted : (a.sta r).trusted = true := by
    rw [StaInfo.trusted, Bool.or_eq_true, bne_iff_ne, bne_iff_ne]
    exact not_and_or.mp known
  let a₁ := a.setSta r { a.sta r with
    state := ((a.sta r).state &&& ~~~if (a.sta r).state &&& wifiFwAuthSuccess = 0 then wifiFwAssocSuccess
      else wifiFwAuthSuccess) ||| wifiFwAssocState
    cap := q.cap }
  have set : a₁.Booked n := booked.setSta allocated _ rfl rfl rfl
  have aid : (a₁.sta r).aid = (a.sta r).aid := by rw [show a₁.sta r = _ from sta_setSta_self _]
  -- without an association id there is none to lose
  have fail (none_ : (a.sta r).aid = 0) : (onAssocReqFail a₁ r).Booked n :=
    set.setSta allocated { a₁.sta r with aid := 0 } rfl (none_.symm.trans aid.symm) rfl
  split
  · split
    · rename_i full
      refine fail (Nat.eq_zero_of_not_pos fun some_ => ?_)
      have some_ : 0 < (a₁.stapriv.stainfo r).aid := some_.trans_eq aid.symm
      have full : Ap.getAid cfg.maxNumSta a₁.stapriv r = none := full
      rw [Ap.getAid, if_pos some_] at full
      cases full
    · rename_i stapriv room
      obtain ⟨numbered, queue⟩ := set.getAid allocated (most ▸ room)
      exact numbered.assocSta (queue.symm ▸ allocated)
  · rename_i malformed
    exact fail (rejected r found trusted (Bool.eq_false_iff.mpr malformed))

theorem Booked.apFreeSta (booked : a.Booked n) (allocated : r ∉ a.stapriv.freeStaQueue)
    (off : r ∉ a.stapriv.asocList) (low : (a.sta r).aid ≤ 31) : (Ap.apFreeSta a r).Booked n := by
  let a₁ := a.setSta r { a.sta r with state := (a.sta r).state &&& ~~~fwLinked }
  have set : a₁.Booked n := booked.setSta allocated _ rfl rfl rfl
  have own : a₁.sta r = { a.sta r with state := (a.sta r).state &&& ~~~fwLinked } := sta_setSta_self _
  let c := (bssCapUpdateOnStaLeave (a₁.cell r)).1
  have unmarked (k : Prot) : c.psta.marked k = false := by
    have tolerant := set.tolerant r allocated
    rw [show c = (bssCapUpdateOnStaLeave (a₁.cell r)).1 from rfl, leave_marked]
    cases k <;> simp
    exact tolerant
  have left : (a₁.setCell r c).Booked n :=
    set.setCell allocated (leave_aid _) (leave_others _) (unmarked .fortyMhzIntolerant)
  have after : (a₁.setCell r c).sta r = { a₁.sta r with toStaProt := c.psta } := Function.update_self ..
  refine left.free allocated ?_ off fun k => ?_
  · rw [after]
    exact ((leave_aid (a₁.cell r)).trans (congrArg (fun p : StaInfo => p.aid) own)).trans_le low
  · rw [after]
    exact unmarked k

theorem Booked.staLeaves (booked : a.Booked n) {cfg : ApConfig} {f : LeaveFrame}
    (low : ∀ r, a.stapriv.getStainfo f.addr2 = some r → f.addr3 = cfg.bssid → r ∈ a.stapriv.asocList →
      (a.sta r).aid ≤ 31) : (Ap.staLeaves cfg a f).Booked n := by
  rw [Ap.staLeaves]
  split
  swap
  · exact booked
  rename_i ours
  split
  · exact booked
  rename_i r found
  split
  swap
  · exact booked
  rename_i on
  have allocated := (hashed_iff booked.kept).mp ((booked.kept.getStainfo_iff _).mp found).1
  have same := relisted_leaveAsocList a r
  have sta : (a.leaveAsocList r).sta r = a.sta r := congrFun same.stainfo r
  refine (booked.relist same (booked.listed.leaveAsocList r)).apFreeSta (same.freeStaQueue.symm ▸ allocated)
    (not_mem_leaveAsocList a r) ?_
  rw [sta]
  exact low r found ours on

/-! ## start_ap_mode -/

/-- An adapter in AP state without stations, as `rtw_free_all_stainfo` leaves it: the broadcast record at most. -/
structure Idle (a : AccessPoint) : Prop where
  mode : a.state = hwStateAp
  kept : a.stapriv.Kept []
  alone : ∀ r, a.stapriv.Hashed r → a.stapriv.getStainfo bcAddr = some r
  aid : ∀ r, a.stapriv.Hashed r → (a.sta r).aid = 0
  authList : a.stapriv.authList = [] ∧ a.stapriv.authListCnt = 0
  asocList : a.stapriv.asocList = [] ∧ a.stapriv.asocListCnt = 0

/-- No record is allocated and nothing is counted. -/
theorem booked_of_empty (mode : a.state = hwStateAp) (kept : a.stapriv.Kept [])
    (empty : ∀ r, r ∈ a.stapriv.freeStaQueue) (authList : a.stapriv.authList = [] ∧ a.stapriv.authListCnt = 0)
    (asocList : a.stapriv.asocList = [] ∧ a.stapriv.asocListCnt = 0) (numSta : ∀ k, a.bss.numSta k = 0) :
    a.Booked n := by
  refine ⟨mode, kept, ?_, fun r out => absurd (empty r) out, fun k => ⟨∅, fun r => ?_, ?_⟩,
    fun r out => absurd (empty r) out⟩
  · constructor <;> simp [authList, asocList]
  · simp [tally, empty]
  · simp [tally, numSta]

/-- `start_ap_mode` frees the broadcast record and allocates it again. -/
theorem Idle.freed (idle : Idle a) (pnetdev : Bool) : ∃ a₂ : AccessPoint,
    startApMode pnetdev a = { a₂ with stapriv := (a₂.stapriv.allocStainfo pnetdev bcAddr).1 } ∧
      a₂.state = hwStateAp ∧ a₂.stapriv.Kept [] ∧ (∀ r, r ∈ a₂.stapriv.freeStaQueue) ∧
      (a₂.stapriv.authList = [] ∧ a₂.stapriv.authListCnt = 0) ∧
      (a₂.stapriv.asocList = [] ∧ a₂.stapriv.asocListCnt = 0) ∧ ∀ k, a₂.bss.numSta k = 0 := by
  let s₁ : StaPriv := { a.stapriv with staAid := fun _ => none }
  have kept₁ : s₁.Kept [] := { idle.kept with aids := nofun }
  let s₂ := s₁.freeStainfo a.state (s₁.getStainfo bcAddr)
  refine ⟨{ a with stapriv := s₂, bss := (startApMode pnetdev a).bss }, rfl, idle.mode, ?_⟩
  suffices freed : s₂.Kept [] ∧ (∀ r, r ∈ s₂.freeStaQueue) ∧ (s₂.authList = [] ∧ s₂.authListCnt = 0) ∧
      s₂.asocList = [] ∧ s₂.asocListCnt = 0 from
    ⟨freed.1, freed.2.1, freed.2.2.1, freed.2.2.2, fun _ => rfl⟩
  cases found : s₁.getStainfo bcAddr with
  | none =>
      have same : s₂ = s₁ := by
        rw [show s₂ = s₁.freeStainfo a.state (s₁.getStainfo bcAddr) from rfl, found]
        rfl
      rw [same]
      refine ⟨kept₁, fun r => by_contra fun out => ?_, idle.authList, idle.asocList⟩
      have here : s₁.getStainfo bcAddr = some r := idle.alone r ((hashed_iff kept₁).mpr out)
      rw [found] at here
      cases here
  | some r =>
      have same : s₂ = s₁.freeStainfo a.state (some r) := by
        rw [show s₂ = s₁.freeStainfo a.state (s₁.getStainfo bcAddr) from rfl, found]
      have hashed : s₁.Hashed r := ((kept₁.getStainfo_iff bcAddr).mp found).1
      have low : (s₁.stainfo r).aid ≤ 31 := (idle.aid r hashed).trans_le (Nat.zero_le 31)
      obtain ⟨authList, authListCnt⟩ := freeStainfo_authList a.state low
      obtain ⟨asocList, asocListCnt⟩ := freeStainfo_asocList a.state low
      have off : r ∉ s₁.authList := by simp [s₁, idle.authList]
      rw [same]
      refine ⟨kept₁.freeStainfo hashed ⟨low, .inl idle.mode⟩, fun r' => ?_, ?_, ?_⟩
      · rw [freeStainfo_freeStaQueue a.state low, List.mem_append, List.mem_singleton]
        by_contra out
        obtain ⟨out, other⟩ := not_or.mp out
        have here : s₁.getStainfo bcAddr = some r' := idle.alone r' ((hashed_iff kept₁).mpr out)
        exact other (Option.some.inj (here.symm.trans found))
      · rw [authList, authListCnt, StaPriv.leaveAuthList, if_neg off]
        exact idle.authList
      · rw [asocList, asocListCnt]
        exact idle.asocList

theorem Idle.booked (idle : Idle a) (pnetdev : Bool) : (startApMode pnetdev a).Booked n := by
  obtain ⟨a₂, same, mode, kept, empty, authList, asocList, numSta⟩ := idle.freed pnetdev
  have booked : a₂.Booked n := booked_of_empty mode kept empty authList asocList numSta
  rw [same]
  obtain nothing | ⟨r, rest, queue, taken⟩ := allocStainfo_cases a₂.stapriv pnetdev bcAddr
  · rw [nothing]
    exact booked
  · rw [taken]
    refine booked.allocated queue (Option.eq_none_iff_forall_ne_some.mpr fun r' found => ?_)
    exact (hashed_iff kept).mp ((kept.getStainfo_iff bcAddr).mp found).1 (empty r')

/-- The broadcast record is the only one, and it is new. -/
theorem Idle.fresh (idle : Idle a) (pnetdev : Bool) {r : Offset}
    (out : r ∉ (startApMode pnetdev a).stapriv.freeStaQueue) :
    (startApMode pnetdev a).sta r = { StaInfo.init with macAddr := bcAddr } := by
  obtain ⟨a₂, same, -, -, empty, -⟩ := idle.freed pnetdev
  rw [same] at out ⊢
  obtain nothing | ⟨r', rest, queue, taken⟩ := allocStainfo_cases a₂.stapriv pnetdev bcAddr
  · rw [nothing] at out
    exact absurd (empty r) out
  · rw [taken] at out ⊢
    have other : r ∉ rest := out
    have first : r = r' := by
      have here := empty r
      rw [queue, List.mem_cons] at here
      exact here.resolve_right other
    subst first
    exact Function.update_self ..

end AccessPoint

end Steps

/-! ## Every run -/

open AccessPoint

/-- What is said of the books. -/
structure Correct (maxNumSta : Nat) (a : AccessPoint) : Prop where
  /-- What is on a list is allocated, and on one list once. -/
  lists : ∀ r, r ∈ a.stapriv.authList ∨ r ∈ a.stapriv.asocList → a.stapriv.Hashed r
  once : (a.stapriv.authList ++ a.stapriv.asocList).Nodup
  counts : a.stapriv.authListCnt = a.stapriv.authList.length ∧ a.stapriv.asocListCnt = a.stapriv.asocList.length
  /-- An association id is within bounds, is no other station's, and `sta_aid[]` has it. -/
  aids : ∀ r, a.stapriv.Hashed r → 0 < (a.sta r).aid →
    (a.sta r).aid ≤ maxNumSta ∧ a.stapriv.staAid ((a.sta r).aid - 1) = some r ∧
      ∀ r', a.stapriv.Hashed r' → (a.sta r').aid = (a.sta r).aid → r' = r
  refers : ∀ i r, a.stapriv.staAid i = some r → a.stapriv.Hashed r ∧ (a.sta r).aid = i + 1
  /-- Each counter counts allocated stations, those with its flag. -/
  counters : ∀ k, ∃ S : Finset Offset, (∀ r, r ∈ S ↔ a.stapriv.Hashed r ∧ (a.sta r).marked k = true) ∧
    a.bss.numSta k = S.card

theorem AccessPoint.Booked.correct {n : Nat} {a : AccessPoint} (booked : a.Booked n) : Correct n a where
  lists r on := (hashed_iff booked.kept).mpr (on.elim (booked.listed.allocatedAuth r) (booked.listed.allocatedAsoc r))
  once := List.nodup_append'.mpr ⟨booked.listed.nodupAuth, booked.listed.nodupAsoc, booked.listed.apart⟩
  counts := ⟨booked.listed.authListCnt, booked.listed.asocListCnt⟩
  aids r hashed positive := by
    obtain ⟨most, -, refers⟩ := booked.known r ((hashed_iff booked.kept).mp hashed) positive
    refine ⟨most, refers, fun r' hashed' same => ?_⟩
    have positive' : 0 < (a.sta r').aid := positive.trans_eq same.symm
    obtain ⟨-, -, refers'⟩ := booked.known r' ((hashed_iff booked.kept).mp hashed') positive'
    have same : (a.stapriv.stainfo r').aid = (a.stapriv.stainfo r).aid := same
    rw [same, refers] at refers'
    exact (Option.some.inj refers').symm
  refers i r refers := by
    obtain ⟨allocated, aid⟩ := booked.kept.aids i r refers
    exact ⟨(hashed_iff booked.kept).mpr allocated, aid⟩
  counters k := by
    obtain ⟨S, tallied⟩ := booked.counted k
    refine ⟨S, fun r => ?_, tallied.count.trans (Int.add_zero _)⟩
    rw [← tallied.marked r, hashed_iff booked.kept]
    simp [tally]

/-- A rejected authentication frame is not from a station that a counter counts or that has the last association
id; a rejected request is not from one with an association id; a station with the last association id stays. -/
def meetsFrame (cfg : ApConfig) (a : AccessPoint) : ApEvent → Prop
  | .auth received => ∀ r, a.stapriv.getStainfo (received.opened cfg.keys).sa = some r →
      badAlg (authMode cfg) (received.opened cfg.keys) = false → cfg.accessCtrl (received.opened cfg.keys).sa = true →
        authStatus (authMode cfg) (a.sta r) (received.opened cfg.keys) ≠ .successful → Discardable (a.sta r)
  | .assocReq q => ∀ r, a.stapriv.getStainfo q.addr2 = some r → (a.sta r).trusted = true → q.wellFormed = false →
      (a.sta r).aid = 0
  | .deAuth f | .disassoc f => ∀ r, a.stapriv.getStainfo f.addr2 = some r → f.addr3 = cfg.bssid →
      r ∈ a.stapriv.asocList → (a.sta r).aid ≤ 31

theorem AccessPoint.Booked.step {cfg : ApConfig} {a : AccessPoint} (booked : a.Booked cfg.maxNumSta) {ev : ApEvent}
    (meets : meetsFrame cfg a ev) : (receiveMgnt cfg a ev).Booked cfg.maxNumSta := by
  cases ev with
  | auth f => exact booked.onAuth meets
  | assocReq q => exact booked.onAssocReq rfl meets
  | deAuth f => exact booked.staLeaves meets
  | disassoc f => exact booked.staLeaves meets

/-- From `start_ap_mode` on the books are right, as long as no frame is rejected, and no station leaves, that
the handlers do not take out of them. -/
theorem association_booked {cfg : ApConfig} {start a : AccessPoint} (idle : Idle start)
    (run : Runs (receiveMgnt cfg) (meetsFrame cfg) (startApMode cfg.pnetdev start) a) : Correct cfg.maxNumSta a :=
  (run.keeps (P := fun a : AccessPoint => a.Booked cfg.maxNumSta) (idle.booked cfg.pnetdev)
    fun _ _ booked meets => booked.step meets).correct

/-! ## One station -/

/-- An open access point. -/
def openAp : ApConfig where
  dot11AuthAlgrthm := .openSystem
  dot11PrivacyAlgrthm := .noPrivacy
  keys := ⟨0, fun _ => [], fun _ => 0, 0, fun _ => [], false⟩
  pnetdev := true
  accessCtrl _ := true
  maxNumSta := 32
  bssid _ := 0

def idleAp : AccessPoint := ⟨initStaPriv, quietBss.prot, hwStateAp⟩

theorem idleAp_idle : Idle idleAp where
  mode := rfl
  kept := kept_init
  alone := by
    rintro r ⟨index, inside⟩
    cases inside
  aid r _ := rfl
  authList := ⟨rfl, rfl⟩
  asocList := ⟨rfl, rfl⟩

/-- Open system authentication of station `oneAddr`. -/
def openFrame : AuthFrame := ⟨fun i => if i = 26 then 1 else if 10 ≤ i ∧ i < 16 then 2 else 0, 30⟩

/-- An association request with the SSID of the access point, or another one. -/
def request (ssidMatches : Bool) : AssocReq := ⟨oneAddr, true, true, ssidMatches, true, true, true, htCap true⟩

theorem association_booked_one :
    Correct openAp.maxNumSta
      (receiveMgnt openAp (receiveMgnt openAp (startApMode openAp.pnetdev idleAp) (.auth openFrame))
        (.assocReq (request true))) := by
  refine association_booked idleAp_idle (.step (.step .start (ApEvent.auth openFrame) ?_) (.assocReq (request true)) ?_)
  · intro r found
    have absent : (startApMode openAp.pnetdev idleAp).stapriv.getStainfo (openFrame.opened openAp.keys).sa = none := by
      decide +kernel
    rw [absent] at found
    cases found
  · intro r _ _ malformed
    cases malformed

/-- The association ids after a station has associated, and has then sent a request with another SSID: the
place of the first one is that of a station without an association id. -/
theorem rejected_request_strands :
    ∃ a, Runs (receiveMgnt openAp) (fun _ _ => True) (startApMode openAp.pnetdev idleAp) a ∧
      ¬Correct openAp.maxNumSta a := by
  let r : Offset := ⟨1, by decide⟩
  refine ⟨_, .step (.step (.step .start (.auth openFrame) trivial) (.assocReq (request true)) trivial)
    (.assocReq (request false)) trivial, fun correct => ?_⟩
  have stranded := (correct.refers 0 r (by decide +kernel)).2
  exact absurd stranded (by decide +kernel)

end Vmac.Ap
