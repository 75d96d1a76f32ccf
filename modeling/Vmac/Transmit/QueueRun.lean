/-
# Vmac.Transmit.QueueRun -- the transmit queues along a run

Frames arrive, are sent one by one or several in a transfer, stations fall asleep, wake up, poll
and go, in any order.

* `transmit_queues_agree`: as long as `stop_sta_xmit` is called for stations whose bit fits the
  bitmap, or that have nothing to move, queues, rings and counters agree, and no frame is lost.
* `stopped_station_stranded`: the first station whose bit does not fit strands its frames.
-/
import Vmac.Transmit.PacketNumber
import Vmac.Transmit.QueueSound

namespace Vmac.Transmit

open Security Theory.Service

set_option autoImplicit false

variable {S : Type} [DecidableEq S]

theorem sum_ac {M : Type} [AddCommMonoid M] (count : Ac → M) :
    ∑ ac, count ac = count .vo + count .vi + count .be + count .bk := by
  show ∑ ac ∈ {.vo, .vi, .be, .bk}, count ac = _
  rw [Finset.sum_insert (by decide), Finset.sum_insert (by decide), Finset.sum_insert (by decide),
    Finset.sum_singleton, ← add_assoc, ← add_assoc]

/-- A station whose queues are empty. -/
structure Sta.Bare (sta : Sta S) : Prop where
  servq : sta.servq = fun _ => ⟨0, []⟩
  sleepQ : sta.sleepQ = []

namespace TxState

variable [Fintype S] {s s' : TxState S} {hand : Multiset Nat} {f : XmitFrame S} {psta : S} {ac : Ac}

/-! ## A station goes -/

/-- The frames of a station, in the order in which they are freed. -/
def dropped (s : TxState S) (psta : S) : List (XmitFrame S) :=
  (s.sta psta).sleepQ ++ s.pending psta .vo ++ s.pending psta .vi ++ s.pending psta .be ++ s.pending psta .bk

omit [DecidableEq S] [Fintype S] in
theorem ids_dropped (s : TxState S) (psta : S) : ids (s.dropped psta) = (s.sta psta).held := by
  simp only [dropped, ids_append, Sta.held, sum_ac, ← add_assoc]
  rfl

/-- The station is out of the table, the rings and the counts. -/
def unhook (s : TxState S) (psta : S) : TxState S :=
  { s with
    hash := fun a => if s.hash a = some psta then none else s.hash a
    staQueue := fun ac => (s.staQueue ac).erase psta
    accnt := fun ac => s.accnt ac - (s.servq psta ac).qcnt
    gone := (s.dropped psta).map XmitFrame.id ++ s.gone }

theorem service_unhook (sound : Sound hand s) {sta : Sta S} (bare : sta.Bare) (ac : Ac) :
    ((s.unhook psta).setSta psta sta).service ac =
      (s.service ac).shrink psta [] (s.pending psta ac).length := by
  have count : (s.servq psta ac).qcnt = (s.pending psta ac).length := (sound.kept ac).count psta
  refine Server.ext ?_ ?_ ?_ ?_
  · funext p
    by_cases at_ : p = psta
    · subst at_
      simp [service, pending, servq, bare.servq, Server.shrink]
    · simp [service, pending, servq, setSta_of_ne _ _ _ at_, unhook, Server.shrink, at_]
  · funext p
    by_cases at_ : p = psta
    · subst at_
      simp [service, servq, bare.servq, Server.shrink, ← count]
    · simp [service, servq, setSta_of_ne _ _ _ at_, unhook, Server.shrink, at_]
  · simp [service, setSta, unhook, Server.shrink]
  · simp [service, setSta, unhook, Server.shrink, count]

omit [Fintype S] in
theorem hash_unhook {a : MacAddr} {p : S} : (s.unhook psta).hash a = some p ↔ s.hash a = some p ∧ p ≠ psta := by
  simp only [unhook]
  split
  · rename_i gone
    simp [gone, eq_comm]
  · rename_i stays
    refine ⟨fun found => ⟨found, ?_⟩, And.left⟩
    rintro rfl
    exact stays found

theorem Sound.unhook (sound : Sound hand s) {sta : Sta S} (bare : sta.Bare) :
    Sound hand ((s.unhook psta).setSta psta sta) := by
  have owns {p : S} (other : p ≠ psta) {f : XmitFrame S} (before : s.Owns p f) :
      ((s.unhook psta).setSta psta sta).Owns p f := by
    refine ⟨before.owner, hash_unhook.mpr ⟨before.found, other⟩, ?_⟩
    rw [setSta_of_ne _ _ _ other]
    exact before.linked
  refine ⟨fun ac => ?_, fun p ac f inside => ?_, fun p f inside => ?_, ?_, fun a b p first second => ?_⟩
  · rw [service_unhook sound bare]
    exact (sound.kept ac).shrink psta (by simp [service])
  · by_cases at_ : p = psta
    · subst at_
      simp [pending, servq, bare.servq] at inside
    · have inside : f ∈ s.pending p ac := by
        rwa [pending, servq, setSta_of_ne _ _ _ at_] at inside
      obtain ⟨category, before⟩ := sound.filed p ac f inside
      exact ⟨category, owns at_ before⟩
  · by_cases at_ : p = psta
    · subst at_
      simp [bare.sleepQ] at inside
    · rw [setSta_of_ne _ _ _ at_] at inside
      exact owns at_ (sound.asleep p f inside)
  · have stations := held_setSta (s.unhook psta) psta sta
    have nothing : sta.held = 0 := by simp [Sta.held, bare.servq, bare.sleepQ]
    rw [nothing, add_zero] at stations
    calc
      _ = ((s.unhook psta).setSta psta sta).held + ids (s.dropped psta) + hand + ↑s.gone := by
        show _ + hand + (↑((s.dropped psta).map XmitFrame.id ++ s.gone) : Multiset Nat) = _
        rw [← Multiset.coe_add]
        show _ + hand + (ids (s.dropped psta) + _) = _
        abel
      _ = s.held + hand + ↑s.gone := by
        rw [ids_dropped]
        exact congrArg (· + hand + ↑s.gone) stations
      _ = _ := sound.placed
  · exact sound.apart a b p (hash_unhook.mp first).1 (hash_unhook.mp second).1

theorem Sound.freeStainfo (sound : Sound hand s) (psta : S) : Sound hand (s.freeStainfo psta) := by
  simp only [TxState.freeStainfo]
  split
  · exact sound.unhook ⟨rfl, rfl⟩
  · exact (sound.unhook ⟨rfl, rfl⟩).bitmaps ..

/-! ## A frame comes -/

/-- The frame is there. -/
def arrive (s : TxState S) (f : XmitFrame S) : TxState S := { s with arrived := f.id :: s.arrived }

omit [DecidableEq S] in
theorem Sound.arrive (sound : Sound hand s) (f : XmitFrame S) : Sound ({f.id} + hand) (s.arrive f) := by
  refine ⟨sound.kept, fun p ac g inside => ?_, fun p g inside => ?_, ?_, sound.apart⟩
  · obtain ⟨category, owns⟩ := sound.filed p ac g inside
    exact ⟨category, owns.congr rfl rfl rfl rfl⟩
  · exact (sound.asleep p g inside).congr rfl rfl rfl rfl
  · calc
      _ = {f.id} + (s.held + hand + ↑s.gone) := by
        show s.held + ({f.id} + hand) + ↑s.gone = _
        abel
      _ = _ := by
        rw [sound.placed]
        rfl

theorem Sound.xmit (sound : Sound ({f.id} + hand) s) (direct : Bool) : Sound hand (s.xmit f direct) := by
  unfold TxState.xmit
  split
  · rename_i buffered
    exact sound.enqueueForSleepingSta buffered
  · split
    · exact sound.leave
    · exact sound.halXmitframeEnqueue

/-! ## Frames of one transfer -/

omit [Fintype S] in
theorem settle_leave (s : TxState S) (f : XmitFrame S) :
    (s.leave f).settle psta ac = (s.settle psta ac).leave f := by
  simp only [TxState.settle]
  split <;> rename_i nothing
  · rw [if_pos (show s.pending psta ac = [] from nothing)]
    rfl
  · rw [if_neg (show s.pending psta ac ≠ [] from nothing)]

/-- The head of a queue is another frame with the same attributes. -/
theorem Sound.reset (sound : Sound hand s) {left : List (XmitFrame S)} (head : s.pending psta ac = f :: left)
    {f' : XmitFrame S} (id : f'.id = f.id) (attrib : f'.attrib = f.attrib) (owner : f'.psta = f.psta) :
    Sound hand (s.setServq psta ac ⟨(s.servq psta ac).qcnt, f' :: left⟩) := by
  refine sound.step rfl (fun p => ?_) (fun ac' => ?_) (fun p ac' g inside => ?_) (fun p g inside => .inl ?_) ?_ rfl
  · simp
  · have kept := sound.kept ac'
    refine ⟨fun p => ?_, fun p => ?_, kept.once, ?_⟩
    · have count := kept.count p
      simp only [service, pending_setServq, servq_setServq] at count ⊢
      split
      · rename_i at_
        obtain ⟨rfl, rfl⟩ := at_
        simpa [head] using count
      · exact count
    · have ring := kept.ring p
      simp only [service, pending_setServq] at ring ⊢
      refine ring.trans ?_
      split
      · rename_i at_
        obtain ⟨rfl, rfl⟩ := at_
        simp [head]
      · rfl
    · refine kept.total.trans (Finset.sum_congr rfl fun p _ => ?_)
      simp only [service, servq_setServq]
      split
      · rename_i at_
        rw [at_.1, at_.2]
      · rfl
  · rw [pending_setServq] at inside
    split at inside
    · rename_i at_
      obtain ⟨rfl, rfl⟩ := at_
      rcases List.mem_cons.mp inside with rfl | behind
      · obtain ⟨category, owns⟩ := sound.filed p ac' f (by simp [head])
        refine .inr ⟨?_, owns.congr rfl rfl owner (by rw [attrib])⟩
        rw [XmitFrame.ac, attrib]
        exact category
      · exact .inl (by simp [head, behind])
    · exact .inl inside
  · simpa using inside
  · have queue := held_setServq s psta ac ⟨(s.servq psta ac).qcnt, f' :: left⟩
    have same : ids (f' :: left) = ids (f :: left) := by simp [id]
    rw [head, same] at queue
    rw [add_right_cancel queue]
    rfl

section Aggregate

variable (env : UsbEnv S) (buf : XmitBuf)

/-- The frame that the first loop has ended with. -/
def inHand (found : Option (XmitFrame S × Nat × Mem)) : Multiset Nat := (found.map fun x => {x.1.id}).getD 0

theorem Sound.firstFrame (sound : Sound hand s) (fuel : Nat) (mem : Mem) :
    Sound (inHand (env.firstFrame buf fuel s mem).2 + hand) (env.firstFrame buf fuel s mem).1 := by
  have nothing : Sound (inHand (none : Option (XmitFrame S × Nat × Mem)) + hand) s := by
    rwa [inHand, Option.map_none, Option.getD_none, zero_add]
  induction fuel generalizing s mem with
  | zero => exact nothing
  | succ fuel ih =>
      simp only [UsbEnv.firstFrame]
      split
      · exact nothing
      rename_i f s' dequeued
      have taken := sound.dequeueXframe dequeued
      split
      · exact taken
      · refine ih taken.leave _ ?_
        rw [inHand, Option.map_none, Option.getD_none, zero_add]
        exact taken.leave

theorem Sound.aggregateLoop (psta : S) (ac : Ac) (preQsel : UInt8) {frames : List (XmitFrame S)} {a : Agg S}
    (sound : Sound hand (a.s.settle psta ac)) (all : a.s.pending psta ac = frames) :
    Sound hand ((env.aggregateLoop buf psta ac preQsel frames a).s.settle psta ac) := by
  induction frames generalizing a with
  | nil => exact sound
  | cons f left ih =>
      have settled : a.s.settle psta ac = a.s := if_neg (by simp [all])
      have taken := sound.takePending all
      have left_ : ((a.s.takePending psta ac left 1).leave f).pending psta ac = left := by
        show (a.s.takePending psta ac left 1).pending psta ac = left
        simp [TxState.takePending, pending_setServq]
      have gone : Sound hand (((a.s.takePending psta ac left 1).leave f).settle psta ac) := by
        rw [settle_leave]
        exact taken.leave
      simp only [UsbEnv.aggregateLoop]
      split
      · exact sound
      split
      · refine Sound.settle ?_ ..
        rw [settled] at sound
        exact sound.reset all rfl rfl rfl
      split
      · exact ih gone left_
      split
      · exact gone
      split
      · split
        · exact gone
        · exact ih gone left_
      · exact ih gone left_

theorem Sound.rearrange {s : TxState S} (sound : Sound hand (s.settle psta ac)) (singleSta : Bool) :
    Sound hand (UsbEnv.rearrange s psta ac singleSta) := by
  unfold UsbEnv.rearrange
  unfold TxState.settle at sound
  split
  · rename_i nothing
    rwa [if_pos nothing] at sound
  rename_i waits
  rw [if_neg waits] at sound
  split
  · exact sound
  have inside : psta ∈ s.staQueue ac := ((sound.kept ac).ring psta).mpr waits
  refine sound.step rfl (fun _ => rfl) (fun ac' => ?_) (fun _ _ _ => .inl) (fun _ _ => .inl) rfl rfl
  have turned : ((Function.update s.staQueue ac ((s.staQueue ac).erase psta ++ [psta])) ac').Perm (s.staQueue ac') := by
    by_cases at_ : ac' = ac
    · subst at_
      rw [Function.update_self]
      exact (List.perm_append_singleton psta _).trans (List.perm_cons_erase inside).symm
    · rw [Function.update_of_ne at_]
  exact (sound.kept ac').turn turned

theorem Sound.aggregate (sound : Sound hand s) (first : XmitFrame S) (sz : Nat) (mem : Mem) :
    Sound hand (env.aggregate buf first sz s mem).s := by
  simp only [UsbEnv.aggregate]
  generalize wlanPktSize first.attrib + txdescSize + first.pktOffset * packetOffsetSz = len
  generalize (if rnd8 len < env.bulkSize then 1 else 0) = descCount
  split
  · exact sound
  split
  · exact sound
  · refine Sound.rearrange ?_ _
    exact Sound.aggregateLoop env buf _ _ _ (sound.settle ..) rfl

theorem Sound.xmitframeComplete (sound : Sound hand s) (mem : Mem) :
    Sound hand (env.xmitframeComplete buf s mem).1 := by
  have first := sound.firstFrame env buf (UsbEnv.queuedCount s + 1) mem
  simp only [UsbEnv.xmitframeComplete]
  split <;> rename_i found <;> rw [found] at first
  · simpa [inHand] using first
  · exact Sound.aggregate env buf first.leave ..

end Aggregate

end TxState

/-! ## Runs -/

/-- What happens to the queues.  Stations are looked up by their addresses. -/
inductive TxOp (S : Type)
  | classify (f : XmitFrame S)
  | xmit (f : XmitFrame S) (direct : Bool)
  | dequeue (inx : List Ac)
  | complete (env : UsbEnv S) (buf : XmitBuf) (mem : Mem)
  | stop (hwaddr : MacAddr)
  | wakeup (hwaddr : MacAddr)
  | pspoll (hwaddr : MacAddr) (priority : UInt8) (aid : Nat)
  | wmmps (hwaddr : MacAddr) (priority : UInt8)
  | free (hwaddr : MacAddr)

namespace TxState

variable [Fintype S]

/-- Something is done for the station with an address, if there is one. -/
def forStation (s : TxState S) (hwaddr : MacAddr) (work : S → TxState S) : TxState S :=
  match s.getStainfo hwaddr with
  | some psta => work psta
  | none => s

def apply (s : TxState S) : TxOp S → TxState S
  | .classify f => (s.arrive f).halXmitframeEnqueue f
  | .xmit f direct => (s.arrive f).xmit f direct
  | .dequeue inx =>
      match s.dequeueXframe inx with
      | some (f, s) => s.leave f
      | none => s
  | .complete env buf mem => (env.xmitframeComplete buf s mem).1
  | .stop hwaddr => s.forStation hwaddr s.stopStaXmit
  | .wakeup hwaddr => s.forStation hwaddr s.wakeupStaToXmit
  | .pspoll hwaddr priority aid => s.forStation hwaddr fun psta => s.validateRecvPspoll psta priority aid
  | .wmmps hwaddr priority => s.forStation hwaddr fun psta => s.processWmmpsData psta priority
  | .free hwaddr => s.forStation hwaddr s.freeStainfo

/-- When a station falls asleep, its bit fits the bitmap or there is nothing to move. -/
def QueueStep (s : TxState S) : TxOp S → Prop
  | .stop hwaddr => ∀ psta, s.getStainfo hwaddr = some psta → s.StopKeeps psta
  | _ => True

/-- The states that come from a state by steps of a kind. -/
inductive Reaches (step : TxState S → TxOp S → Prop) (start : TxState S) : TxState S → Prop
  | start : Reaches step start start
  | step {s : TxState S} (reached : Reaches step start s) (op : TxOp S) (kind : step s op) :
      Reaches step start (s.apply op)

/-- Before the first frame. -/
structure Idle (s : TxState S) : Prop where
  servq : ∀ psta ac, s.servq psta ac = ⟨0, []⟩
  sleepQ : ∀ psta, (s.sta psta).sleepQ = []
  staQueue : ∀ ac, s.staQueue ac = []
  accnt : ∀ ac, s.accnt ac = 0
  arrived : s.arrived = []
  gone : s.gone = []
  apart : ∀ a b psta, s.hash a = some psta → s.hash b = some psta → a = b

/-- The queues, the rings and the counters agree. -/
structure QueuesAgree (s : TxState S) : Prop where
  qcnt : ∀ psta ac, (s.servq psta ac).qcnt = (s.pending psta ac).length
  ring : ∀ psta ac, psta ∈ s.staQueue ac ↔ s.pending psta ac ≠ []
  accnt : ∀ ac, s.accnt ac = ∑ psta, (s.servq psta ac).qcnt
  /-- Every frame that came is in one queue or has left. -/
  placed : s.held + ↑s.gone = (↑s.arrived : Multiset Nat)
  once : s.arrived.Nodup → s.held.Nodup
  /-- The dequeuer gets to every queue. -/
  visited : ∀ inx psta, ∀ ac ∈ inx, s.pending psta ac ≠ [] → (s.dequeueXframe inx).isSome

variable {s start : TxState S}

omit [DecidableEq S] in
theorem Idle.sound (idle : start.Idle) : Sound 0 start := by
  have pending (psta : S) (ac : Ac) : start.pending psta ac = [] := by rw [pending, idle.servq]
  refine ⟨fun ac => ?_, fun psta ac f inside => ?_, fun psta f inside => ?_, ?_, idle.apart⟩
  · refine ⟨fun psta => ?_, fun psta => ?_, ?_, ?_⟩
    · simp [service, pending, idle.servq]
    · simp [service, pending, idle.staQueue]
    · simp [service, idle.staQueue]
    · simp [service, idle.servq, idle.accnt]
  · simp [pending] at inside
  · simp [idle.sleepQ] at inside
  · have nothing (psta : S) : (start.sta psta).held = 0 := by
      simp only [Sta.held, idle.sleepQ, ids_nil, zero_add]
      exact Finset.sum_eq_zero fun ac _ => congrArg ids (pending psta ac)
    simp [held, nothing, idle.arrived, idle.gone]

omit [Fintype S] in
theorem dequeueFrom_isSome {ac : Ac} {psta : S} {ring : List S} (inside : psta ∈ ring)
    (waits : s.pending psta ac ≠ []) : (s.dequeueFrom ac ring).isSome := by
  induction ring with
  | nil => exact nomatch inside
  | cons first ring ih =>
      simp only [dequeueFrom]
      split
      · rename_i nothing
        refine ih ((List.mem_cons.mp inside).resolve_left ?_)
        rintro rfl
        exact waits nothing
      · rfl

theorem Sound.agree (sound : Sound 0 s) : s.QueuesAgree where
  qcnt psta ac := (sound.kept ac).count psta
  ring psta ac := (sound.kept ac).ring psta
  accnt ac := (sound.kept ac).total
  placed := by simpa using sound.placed
  once distinct := by
    have placed := sound.placed
    rw [add_zero] at placed
    have all : (s.held + ↑s.gone).Nodup := by
      rw [placed]
      exact Multiset.coe_nodup.mpr distinct
    exact Multiset.nodup_of_le (Multiset.le_add_right ..) all
  visited inx psta ac inside waits := by
    have ring := ((sound.kept ac).ring psta).mpr waits
    obtain ⟨found, dequeued⟩ := Option.isSome_iff_exists.mp (dequeueFrom_isSome ring waits)
    rw [TxState.dequeueXframe, List.isSome_findSome?]
    exact List.any_eq_true.mpr ⟨ac, inside, Option.isSome_iff_exists.mpr ⟨found, dequeued⟩⟩

omit [DecidableEq S] in
theorem Sound.forStation (sound : Sound 0 s) {hwaddr : MacAddr} {work : S → TxState S}
    (each : ∀ psta, s.getStainfo hwaddr = some psta → Sound 0 (work psta)) : Sound 0 (s.forStation hwaddr work) := by
  unfold TxState.forStation
  split
  · rename_i psta found
    exact each psta found
  · exact sound

/-- One step. -/
theorem Sound.apply (sound : Sound 0 s) (op : TxOp S) (kind : s.QueueStep op) : Sound 0 (s.apply op) := by
  cases op with
  | classify f => exact (sound.arrive f).halXmitframeEnqueue
  | xmit f direct => exact (sound.arrive f).xmit direct
  | dequeue inx =>
      simp only [TxState.apply]
      split
      · rename_i f s' dequeued
        exact (sound.dequeueXframe dequeued).leave
      · exact sound
  | complete env buf mem => exact sound.xmitframeComplete env buf mem
  | stop hwaddr => exact sound.forStation fun psta found => sound.stopStaXmit (kind psta found)
  | wakeup hwaddr => exact sound.forStation fun psta _ => sound.wakeupStaToXmit psta
  | pspoll hwaddr priority aid => exact sound.forStation fun psta _ => sound.validateRecvPspoll psta priority aid
  | wmmps hwaddr priority => exact sound.forStation fun psta _ => sound.processWmmpsData psta priority
  | free hwaddr => exact sound.forStation fun psta _ => sound.freeStainfo psta

/-- A run. -/
theorem Sound.reaches (sound : Sound 0 start) (reached : Reaches QueueStep start s) : Sound 0 s := by
  induction reached with
  | start => exact sound
  | step _ op kind ih => exact ih.apply op kind

/-- Queues, rings and counters agree, and no frame is lost, as long as the stations that fall asleep have
a bit in the bitmap, or nothing to move. -/
theorem transmit_queues_agree (idle : start.Idle) (reached : Reaches QueueStep start s) : s.QueuesAgree :=
  (idle.sound.reaches reached).agree

end TxState

/-! ## One station -/

/-- An access point with the group's record, `true`, and one station. -/
def oneStation (aid : Nat) : TxState Bool where
  hash a := if a = bcAddr then some true else if a = stationAddr 2 then some false else none
  sta psta := {
    linked := true, sleeping := false, aid := if psta then 0 else aid, servq := fun _ => ⟨0, []⟩, sleepQ := [],
    sleepqLen := 0, sleepqAcLen := 0, qosOption := false, qosInfo := 0, hasLegacyAc := true, uapsd := fun _ => 0 }
  staQueue _ := []
  accnt _ := 0
  staDzBitmap := 0
  timBitmap := 0
  overshift _ := 0
  arrived := []
  gone := []

/-- A frame for the station. -/
def oneFrame : XmitFrame Bool where
  id := 0
  attrib := { blankAttrib with ra := stationAddr 2 }
  psta := some false
  qsel := 0
  seqnum := 0
  triggered := false
  aggNum := 0
  pktOffset := 0
  pkt := []

theorem oneStation_idle (aid : Nat) : (oneStation aid).Idle := by
  refine ⟨fun _ _ => rfl, fun _ => rfl, fun _ => rfl, fun _ => rfl, rfl, rfl, fun a b psta first second => ?_⟩
  simp only [oneStation] at first second
  grind

/-- A frame waits, and the station falls asleep. -/
def oneStop (aid : Nat) : TxState Bool := ((oneStation aid).apply (.classify oneFrame)).apply (.stop (stationAddr 2))

/-- The station whose bit does not fit leaves the ring and its frame in the queue. -/
theorem stopped_station_stranded : (oneStation 16).Idle ∧
    TxState.Reaches (fun _ _ => True) (oneStation 16) (oneStop 16) ∧ ¬(oneStop 16).QueuesAgree := by
  refine ⟨oneStation_idle 16, .step (.step .start _ trivial) _ trivial, fun agree => ?_⟩
  have waits : (oneStop 16).pending false .be ≠ [] := List.ne_nil_of_length_pos (by decide +kernel)
  have outside : false ∉ (oneStop 16).staQueue .be := by decide +kernel
  exact outside ((agree.ring false .be).mpr waits)

theorem transmit_queues_agree_five : (oneStop 5).QueuesAgree :=
  TxState.transmit_queues_agree (oneStation_idle 5)
    (.step (.step .start (.classify oneFrame) trivial) (.stop (stationAddr 2)) fun psta found => .inl (by
      obtain rfl : false = psta := Option.some.inj ((by decide +kernel : _ = some false).symm.trans found)
      decide +kernel))

end Vmac.Transmit
