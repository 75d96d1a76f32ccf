/-
# Vmac.Recv.NonQos -- frames without QoS and the reorder buffer: rtw_recv.c

`validate_recv_data_frame` files a unicast data frame without QoS under priority 0, which is also
TID 0.  `recv_indicatepkt_reorder` lets such a frame pass, but `recv_func_posthandle` sets
`indicate_seq` before it delivers a frame and counts it on behind: to the number of the frame that
has come in last, plus one.

* `Undisturbed`: what the frame leaves as it is.
* `undisturbed_iff`: which frames without QoS do.
* `moves_window`: a frame that does not, and what comes of it.
-/
import Vmac.Recv.PoolRun
import Vmac.Recv.InOrder

namespace Vmac.Recv

open Theory.Placement

set_option autoImplicit false

/-! ## An MPDU that leaves `indicate_seq` where it is -/

section Window

variable {c : ReorderCtrl} {frame : RecvFrame}

/-- `indicate_seq` of `check_indicate_seq`, started if it was not. -/
def startedSeq (c : ReorderCtrl) (seqNum : Nat) : Nat :=
  if c.indicateSeq = 0xFFFF then seqNum else c.indicateSeq

/-- `wend` of `check_indicate_seq`. -/
def wend (c : ReorderCtrl) : Nat := (c.indicateSeq + c.wsizeB + 4095) % 4096

/-- The window whose end is the MPDU. -/
def movedSeq (c : ReorderCtrl) (seqNum : Nat) : Nat :=
  if c.wsizeB ≤ seqNum + 1 then seqNum + 1 - c.wsizeB else 0xFFF - (c.wsizeB - (seqNum + 1)) + 1

theorem checkIndicateSeq_cases (c : ReorderCtrl) (seqNum : Nat) :
    (snLess seqNum (startedSeq c seqNum) = true ∧
      checkIndicateSeq c seqNum = ({ c with indicateSeq := startedSeq c seqNum }, false)) ∨
    (seqNum = startedSeq c seqNum ∧
      checkIndicateSeq c seqNum = ({ c with indicateSeq := (startedSeq c seqNum + 1) % 4096 }, true)) ∨
    (snLess seqNum (startedSeq c seqNum) = false ∧ seqNum ≠ startedSeq c seqNum ∧ snLess (wend c) seqNum = true ∧
      checkIndicateSeq c seqNum = ({ c with indicateSeq := movedSeq c seqNum }, true)) ∨
    (snLess seqNum (startedSeq c seqNum) = false ∧ seqNum ≠ startedSeq c seqNum ∧ snLess (wend c) seqNum = false ∧
      checkIndicateSeq c seqNum = ({ c with indicateSeq := startedSeq c seqNum }, true)) := by
  have eq : checkIndicateSeq c seqNum =
      if snLess seqNum (startedSeq c seqNum) then ({ c with indicateSeq := startedSeq c seqNum }, false)
      else if snEqual seqNum (startedSeq c seqNum) then
        ({ c with indicateSeq := (startedSeq c seqNum + 1) % 4096 }, true)
      else if snLess (wend c) seqNum then ({ c with indicateSeq := movedSeq c seqNum }, true)
      else ({ c with indicateSeq := startedSeq c seqNum }, true) := rfl
  rw [eq]
  by_cases old : snLess seqNum (startedSeq c seqNum) = true
  · exact .inl ⟨old, if_pos old⟩
  rw [if_neg old]
  by_cases next : snEqual seqNum (startedSeq c seqNum) = true
  · exact .inr (.inl ⟨beq_iff_eq.mp next, if_pos next⟩)
  rw [if_neg next]
  have old := Bool.eq_false_iff.mpr old
  have next : seqNum ≠ startedSeq c seqNum := fun same => next (beq_iff_eq.mpr same)
  by_cases beyond : snLess (wend c) seqNum = true
  · exact .inr (.inr (.inl ⟨old, next, beyond, if_pos beyond⟩))
  · exact .inr (.inr (.inr ⟨old, next, Bool.eq_false_iff.mpr beyond, if_neg beyond⟩))

/-- Sequence numbers have 12 bits, or are not known yet; `wsize_b` is a `u8`. -/
structure ReorderCtrl.InRange (c : ReorderCtrl) : Prop where
  indicateSeq : c.indicateSeq < 4096 ∨ c.indicateSeq = 0xFFFF
  wsizeB : c.wsizeB < 256

theorem not_snLess {a b : Nat} (less : snLess a b = false) : ((a : Int) - b) % 4096 < 2048 := by
  by_contra far
  rw [(snLess_eq a b).mpr (by omega)] at less
  cases less

/-- A window that moves moves to another place. -/
theorem movedSeq_ne (range : c.InRange) (small : frame.seqNum < 4096) (started : c.indicateSeq ≠ 0xFFFF)
    (beyond : snLess (wend c) frame.seqNum = true) : movedSeq c frame.seqNum ≠ c.indicateSeq := by
  have known := range.indicateSeq.resolve_right started
  have width := range.wsizeB
  have beyond := (snLess_eq _ _).mp beyond
  unfold wend at beyond
  unfold movedSeq
  split <;> omega

/-- The MPDU is refused, and the window stays: it is too old, or it is in the window and is there already. -/
def ReorderCtrl.RefusedInPlace (c : ReorderCtrl) (frame : RecvFrame) : Prop :=
  c.indicateSeq ≠ 0xFFFF ∧
    (snLess frame.seqNum c.indicateSeq = true ∨
      frame.seqNum ≠ c.indicateSeq ∧ snLess (wend c) frame.seqNum = false ∧
        enqueueReorderRecvframe frame c.pendingRecvframeQueue = none)

theorem refusedInPlace_fails (refused : c.RefusedInPlace frame) (qos : frame.qos = true) (enable : c.enable = true) :
    recvIndicatepktReorder c frame = (c, [], .fail) := by
  obtain ⟨started, refused⟩ := refused
  have start : startedSeq c frame.seqNum = c.indicateSeq := if_neg started
  unfold recvIndicatepktReorder
  rw [qos, enable]
  rcases checkIndicateSeq_cases c frame.seqNum with ⟨-, check⟩ | ⟨next, check⟩ | ⟨old, -, beyond, check⟩ |
    ⟨old, -, -, check⟩ <;> rw [start] at *
  · rw [check]
    rfl
  · have same : snLess frame.seqNum c.indicateSeq = false := by
      rw [← next, Bool.eq_false_iff, Ne, snLess_eq]
      omega
    rcases refused with old | ⟨differ, -⟩
    · rw [same] at old
      cases old
    · exact absurd next differ
  · rcases refused with old' | ⟨-, inside, -⟩
    · rw [old] at old'
      cases old'
    · rw [beyond] at inside
      cases inside
  · rcases refused with old' | ⟨-, -, duplicate⟩
    · rw [old] at old'
      cases old'
    · rw [check]
      simp [duplicate]

@[simp] theorem awaitReorder_indicateSeq (c : ReorderCtrl) (bPktInBuf : Bool) :
    (awaitReorder c bPktInBuf).indicateSeq = c.indicateSeq := by
  unfold awaitReorder
  split_ifs <;> rfl

theorem indicateLoop_nil {i : Nat} {queue : List RecvFrame} (handed : (indicateLoop i queue).handed = []) :
    (indicateLoop i queue).indicateSeq = i := by
  cases queue with
  | nil => rfl
  | cons first rest =>
      unfold indicateLoop at handed ⊢
      split at handed
      · rename_i waits
        rw [if_pos waits]
      · cases handed

/-- The loop hands on one MPDU only. -/
theorem indicateLoop_singleton {i : Nat} {queue : List RecvFrame} (handed : (indicateLoop i queue).handed = [frame]) :
    snLess i frame.seqNum = false ∧
      (indicateLoop i queue).indicateSeq = if i = frame.seqNum then (i + 1) % 4096 else i := by
  cases queue with
  | nil => cases handed
  | cons first rest =>
      unfold indicateLoop at handed ⊢
      split at handed
      · cases handed
      · rename_i due
        obtain ⟨rfl, last⟩ := List.cons.inj handed
        rw [if_neg due]
        refine ⟨Bool.eq_false_iff.mpr due, (indicateLoop_nil last).trans ?_⟩
        simp [snEqual]

/-- An MPDU that goes up alone and at once moves `indicate_seq`. -/
theorem handed_moves (range : c.InRange) (small : frame.seqNum < 4096) {queue : List RecvFrame}
    (check : (checkIndicateSeq c frame.seqNum).2 = true)
    (handed : (indicateLoop (checkIndicateSeq c frame.seqNum).1.indicateSeq queue).handed = [frame]) :
    (indicateLoop (checkIndicateSeq c frame.seqNum).1.indicateSeq queue).indicateSeq ≠ c.indicateSeq := by
  obtain ⟨due, last⟩ := indicateLoop_singleton handed
  have due := not_snLess due
  rw [last]
  clear last handed
  have width := range.wsizeB
  have known := range.indicateSeq
  rcases checkIndicateSeq_cases c frame.seqNum with ⟨-, eq⟩ | ⟨next, eq⟩ | ⟨old, differ, beyond, eq⟩ |
    ⟨old, differ, -, eq⟩ <;> rw [eq] at check due ⊢ <;> dsimp only at due ⊢
  · cases check
  · rw [← next] at due ⊢
    unfold startedSeq at next
    split at next <;> split <;> omega
  · have started : c.indicateSeq ≠ 0xFFFF := by
      intro fresh
      exact differ (if_pos fresh).symm
    have moves := movedSeq_ne range small started beyond
    rw [startedSeq, if_neg started] at old differ
    have old := not_snLess old
    split
    · rename_i same
      rw [same]
      omega
    · exact moves
  · have started : c.indicateSeq ≠ 0xFFFF := by
      intro fresh
      exact differ (if_pos fresh).symm
    rw [startedSeq, if_neg started] at old differ due
    have old := not_snLess old
    omega

/-- An MPDU with QoS that leaves `indicate_seq`, and does not stay in the queue, is refused in place. -/
theorem refusedInPlace_of_stays (range : c.InRange) (small : frame.seqNum < 4096) (qos : frame.qos = true)
    (enable : c.enable = true) (stays : (recvIndicatepktReorder c frame).1.indicateSeq = c.indicateSeq)
    (handed : (recvIndicatepktReorder c frame).2.2 = .handled → (recvIndicatepktReorder c frame).2.1 = [frame]) :
    c.RefusedInPlace frame := by
  have started (same : startedSeq c frame.seqNum = c.indicateSeq) : c.indicateSeq ≠ 0xFFFF := by
    intro fresh
    rw [startedSeq, if_pos fresh] at same
    omega
  have keeps := checkIndicateSeq_pending c frame.seqNum
  unfold recvIndicatepktReorder at stays handed
  simp only [qos, enable, Bool.not_true, Bool.or_self, Bool.false_eq_true, if_false] at stays handed
  rcases check : checkIndicateSeq c frame.seqNum with ⟨c', kept⟩
  rw [check] at keeps stays handed
  cases kept with
  | false =>
      rcases checkIndicateSeq_cases c frame.seqNum with ⟨old, eq⟩ | ⟨-, eq⟩ | ⟨-, -, -, eq⟩ | ⟨-, -, -, eq⟩ <;>
        obtain ⟨rfl, kept⟩ := Prod.mk.inj (check.symm.trans eq) <;> try cases kept
      have same : startedSeq c frame.seqNum = c.indicateSeq := stays
      exact ⟨started same, .inl (same ▸ old)⟩
  | true =>
      cases queued : enqueueReorderRecvframe frame c'.pendingRecvframeQueue with
      | some queue =>
          -- it goes up alone
          simp only [queued, forall_const] at stays handed
          have alone : (indicateLoop c'.indicateSeq queue).handed = [frame] := handed
          have moves := @handed_moves c frame range small queue
          rw [check] at moves
          rw [awaitReorder_indicateSeq] at stays
          exact absurd stays (moves rfl alone)
      | none =>
          simp only [queued] at stays
          rcases checkIndicateSeq_cases c frame.seqNum with ⟨-, eq⟩ | ⟨next, eq⟩ | ⟨-, differ, beyond, eq⟩ |
            ⟨-, differ, inside, eq⟩ <;> obtain ⟨rfl, kept⟩ := Prod.mk.inj (check.symm.trans eq)
          · cases kept
          · have same : (startedSeq c frame.seqNum + 1) % 4096 = c.indicateSeq := stays
            rw [← next] at same
            unfold startedSeq at next
            split at next <;> omega
          · have fresh : c.indicateSeq ≠ 0xFFFF := by
              intro fresh
              exact differ (if_pos fresh).symm
            exact absurd stays (movedSeq_ne range small fresh beyond)
          · have same : startedSeq c frame.seqNum = c.indicateSeq := stays
            rw [same] at differ
            exact ⟨started same, .inr ⟨differ, inside, queued⟩⟩

end Window

/-! ## What reaches the reorder buffer -/

namespace Pool

/-- The frame that the fragment or the whole frame `orig` makes ready: itself, or the first one of its set. -/
def completes (o : Outcomes) (s : Pool) (orig : Desc) : Option Desc :=
  let a := (s.hdr orig).attrib
  if a.mfrag then none
  else if a.fragNum = 0 then some orig
  else
    match (defragQ o s orig).map s.queue with
    | some (first :: rest) => if fragsInOrder s.hdr 0 (first :: rest ++ [orig]) then some first else none
    | _ => none

/-- The frame that `recv_indicatepkt_reorder` is given, if nothing before it drops or keeps `orig`. -/
def delivered (o : Outcomes) (s : Pool) (orig : Desc) : Option Desc :=
  if o.decrypt orig then (completes o s orig).filter fun d => micPasses o s d && o.portctrl d else none

/-- A list node is on one list: neither the frame in hand nor a fragment is in a reorder buffer. -/
structure Separate (s : Pool) (orig : Desc) : Prop where
  hand : ∀ sta tid, orig ∉ s.queue (.pending sta tid)
  fragments : ∀ sta, ∀ d ∈ s.queue (.defrag sta), ∀ sta' tid, d ∉ s.queue (.pending sta' tid)

theorem separate_of_conserving {waiting held : List Desc} {s : Pool} {orig : Desc}
    (conserving : Conserving waiting (orig :: held) s) : s.Separate orig where
  hand sta tid inside := by
    have once := conserving.placed.once orig (.pending sta tid)
    have there := List.count_pos_iff.mpr inside
    rw [List.count_cons_self] at once
    omega
  fragments sta d inside sta' tid := conserving.placed.apart d (.defrag sta) (.pending sta' tid) nofun inside

section Effects

variable {o : Outcomes} {s t : Pool} {orig d first : Desc}

theorem free_queue (s : Pool) (d : Desc) {p : Place} (other : p ≠ .free) :
    (s.rtwFreeRecvframe d).queue p = (s.queue p).filter (· ≠ d) := by
  show append .free d (unlink d (s.rtwOsFreeRecvframe d).queue) p = _
  rw [append, Function.update_of_ne other, rtwOsFreeRecvframe, settle_queue]
  rfl

theorem freeQueue_sameFrames {sta : Nat}
    (absent : ∀ d ∈ s.queue (.defrag sta), ∀ sta' tid, d ∉ s.queue (.pending sta' tid)) :
    SameFrames s (s.rtwFreeRecvframeQueue (.defrag sta)) :=
  SameFrames.freeEach absent

theorem Separate.insertTail (separate : s.Separate orig) (sta : Nat) :
    (s.rtwListInsertTail (.defrag sta) orig).Separate orig := by
  have same := SameFrames.insertTail (p := .defrag sta) nofun s orig
  refine ⟨fun sta' tid => ?_, fun sta' d inside sta'' tid => ?_⟩
  · rw [same.pending]
    exact separate.hand sta' tid
  · rw [same.pending]
    by_cases there : sta' = sta
    · rw [there] at inside
      have inside : d ∈ s.queue (.defrag sta) ++ [orig] := by
        rwa [show (s.rtwListInsertTail (.defrag sta) orig).queue (.defrag sta) = s.queue (.defrag sta) ++ [orig] from
          Function.update_self ..] at inside
      rcases List.mem_append.mp inside with inside | inside
      · exact separate.fragments sta d inside sta'' tid
      · rw [List.mem_singleton.mp inside]
        exact separate.hand sta'' tid
    · refine separate.fragments sta' d ?_ sta'' tid
      rwa [show (s.rtwListInsertTail (.defrag sta) orig).queue (.defrag sta') = s.queue (.defrag sta') from
        Function.update_of_ne (by simpa using there) ..] at inside

theorem defrag_sameFrames {sta : Nat} (separate : s.Separate orig) :
    SameFrames s (s.recvframeDefrag (.defrag sta)).2 := by
  unfold recvframeDefrag
  split
  · exact .refl s
  · rename_i first rest queue
    have inside : first ∈ s.queue (.defrag sta) := by
      rw [queue]
      exact List.mem_cons_self
    have taken := SameFrames.listDelete (separate.fragments sta first inside)
    have rest_ {t : Pool} (same : SameFrames s t) (fewer : ∀ d ∈ t.queue (.defrag sta), d ∈ s.queue (.defrag sta)) :
        SameFrames s (t.rtwFreeRecvframeQueue (.defrag sta)) := by
      refine same.trans (freeQueue_sameFrames fun d there sta' tid => ?_)
      rw [same.pending]
      exact separate.fragments sta d (fewer d there) sta' tid
    dsimp only
    split
    · exact rest_ taken fun d there => List.mem_of_mem_filter there
    · have absent (sta' : Nat) (tid : Fin 16) : first ∉ (s.rtwListDelete first).queue (.pending sta' tid) := by
        rw [taken.pending]
        exact separate.fragments sta first inside sta' tid
      refine rest_ (taken.trans (.free absent)) fun d there => ?_
      rw [free_queue _ _ (show Place.defrag sta ≠ .free from nofun)] at there
      exact List.mem_of_mem_filter (List.mem_of_mem_filter there)

theorem defrag_fst (s : Pool) (p : Place) : (s.recvframeDefrag p).1 =
    match s.queue p with
    | [] => none
    | first :: rest => if fragsInOrder s.hdr 0 (first :: rest) then some first else none := by
  unfold recvframeDefrag
  cases s.queue p with
  | nil => rfl
  | cons first rest => by_cases inOrder : fragsInOrder s.hdr 0 (first :: rest) = true <;> simp [inOrder]

theorem checkMic_fst (r : Option Desc × Pool) : (checkMic o r).1 = r.1.filter (micPasses o r.2) := by
  obtain ⟨_ | d, t⟩ := r
  · rfl
  · unfold checkMic micPasses
    cases privacy : (t.hdr d).attrib.privacy <;> cases mic : o.chkmic d <;> simp [Option.filter, privacy, mic]

theorem checkMic_sameFrames (r : Option Desc × Pool) (same : SameFrames s r.2)
    (absent : ∀ d ∈ r.1, ∀ sta tid, d ∉ s.queue (.pending sta tid)) : SameFrames s (checkMic o r).2 := by
  unfold checkMic
  split
  · rename_i d t
    split
    · refine same.trans (.free fun sta tid => ?_)
      rw [same.pending]
      exact absent d rfl sta tid
    · exact same
  · exact same

theorem micPasses_congr (same : SameFrames s t) : micPasses o t = micPasses o s := by
  funext d
  unfold micPasses
  rw [same.attrib]

/-- The fragment that ends a set is put behind the others. -/
theorem ended_fst (p : Place) (later : (s.hdr orig).attrib.fragNum ≠ 0) :
    ((s.rtwListInsertTail p orig).recvframeDefrag p).1 =
      match some (s.queue p) with
      | some (first :: rest) => if fragsInOrder s.hdr 0 (first :: rest ++ [orig]) then some first else none
      | _ => none := by
  have queue : (s.rtwListInsertTail p orig).queue p = s.queue p ++ [orig] := Function.update_self ..
  rw [defrag_fst, queue]
  cases s.queue p with
  | nil =>
      have alone : fragsInOrder (s.rtwListInsertTail p orig).hdr 0 [orig] = false := by
        have later : (s.hdr orig).attrib.fragNum.val ≠ 0 := fun zero => later (Fin.ext zero)
        exact Bool.and_eq_false_iff.mpr (.inl (beq_false_of_ne later))
      simp [alone]
  | cons first rest => rfl

/-- `recvframe_chk_defrag` returns the frame that is ready, if its MIC is right, and touches no reorder buffer. -/
theorem chkDefrag_returns (separate : s.Separate orig) :
    (recvframeChkDefrag o s orig).1 = (completes o s orig).filter (micPasses o s) ∧
      SameFrames s (recvframeChkDefrag o s orig).2 := by
  unfold recvframeChkDefrag completes
  dsimp only
  split
  · refine ⟨by split <;> rfl, ?_⟩
    split
    · rename_i p place
      obtain ⟨sta, rfl⟩ := Conserving.defragQ_defrag o place
      have freed : SameFrames s (if (s.hdr orig).attrib.fragNum = 0 then s.rtwFreeRecvframeQueue (.defrag sta) else s) := by
        split
        · exact freeQueue_sameFrames (separate.fragments sta)
        · exact .refl s
      exact freed.trans (SameFrames.insertTail (p := .defrag sta) nofun _ orig)
    · exact .free separate.hand
  split
  · refine ⟨checkMic_fst (some orig, s), checkMic_sameFrames (some orig, s) (.refl s) ?_⟩
    intro d returned
    rw [← Option.some.inj returned]
    exact separate.hand
  rename_i later
  cases place : defragQ o s orig with
  | none => exact ⟨rfl, .free separate.hand⟩
  | some p =>
      obtain ⟨sta, rfl⟩ := Conserving.defragQ_defrag o place
      have inserted := SameFrames.insertTail (p := .defrag sta) nofun s orig
      have separate' := separate.insertTail sta
      have defragged := @defrag_sameFrames _ _ sta separate'
      have same := inserted.trans defragged
      refine ⟨?_, checkMic_sameFrames _ same fun d returned sta' tid => ?_⟩
      · dsimp only
        rw [checkMic_fst, micPasses_congr same, ended_fst _ later]
        rfl
      · -- what is returned was first in the queue
        rw [← inserted.pending]
        rcases step : (s.rtwListInsertTail (.defrag sta) orig).recvframeDefrag (.defrag sta) with ⟨first, t⟩
        rw [step] at returned
        obtain rfl : first = some d := returned
        obtain ⟨rest, queue, -, -⟩ := Conserving.defrag_some step
        refine separate'.fragments sta d ?_ sta' tid
        rw [queue]
        exact List.mem_cons_self

/-! ### Behind the reorder buffer -/

theorem process_sameFrames (absent : ∀ sta tid, d ∉ s.queue (.pending sta tid)) :
    SameFrames s (recvProcessMpdu o s d).1 := by
  unfold recvProcessMpdu
  split_ifs
  · exact .free absent
  · exact .free absent
  · exact .free absent
  · exact .free absent
  · unfold rtwRecvIndicatepkt
    split
    · exact .free absent
    · refine (SameFrames.settle .skbUp s d).trans (.free fun sta tid => ?_)
      rw [settle_queue]
      exact absent sta tid

theorem recvreorderCtrl_congr (same : SameFrames s t) (sta : Nat) (tid : Fin 16) :
    t.recvreorderCtrl sta tid = s.recvreorderCtrl sta tid := by
  unfold recvreorderCtrl
  rw [same.reorderCtrl, same.pending, same.recvFrame]

/-- The reorder buffers are as they were, but for one. -/
structure Reset (sta : Nat) (tid : Fin 16) (c : ReorderCtrl) (s t : Pool) : Prop where
  this : t.recvreorderCtrl sta tid = c
  others : ∀ sta' tid', ¬(sta' = sta ∧ tid' = tid) → t.recvreorderCtrl sta' tid' = s.recvreorderCtrl sta' tid'
  preorderCtrl : ∀ d, (t.hdr d).preorderCtrl = (s.hdr d).preorderCtrl
  pending : ∀ sta' tid', t.queue (.pending sta' tid') = s.queue (.pending sta' tid')

variable {sta : Nat} {tid : Fin 16} {c : ReorderCtrl}

theorem Reset.trans {c' : ReorderCtrl} {u : Pool} (first : Reset sta tid c s t) (second : Reset sta tid c' t u) :
    Reset sta tid c' s u where
  this := second.this
  others sta' tid' other := (second.others sta' tid' other).trans (first.others sta' tid' other)
  preorderCtrl d := (second.preorderCtrl d).trans (first.preorderCtrl d)
  pending sta' tid' := (second.pending sta' tid').trans (first.pending sta' tid')

theorem reset_of_sameFrames (same : SameFrames s t) (sta : Nat) (tid : Fin 16) :
    Reset sta tid (s.recvreorderCtrl sta tid) s t :=
  ⟨recvreorderCtrl_congr same sta tid, fun sta' tid' _ => recvreorderCtrl_congr same sta' tid', same.preorderCtrl,
    same.pending⟩

theorem setReorderCtrl_reset (keeps : c.pendingRecvframeQueue = (s.recvreorderCtrl sta tid).pendingRecvframeQueue) :
    Reset sta tid c s (s.setReorderCtrl sta tid c) := by
  have pending (sta' : Nat) (tid' : Fin 16) :
      (s.setReorderCtrl sta tid c).queue (.pending sta' tid') = s.queue (.pending sta' tid') := by
    by_cases same : sta' = sta ∧ tid' = tid
    · rw [same.1, same.2]
      refine (Function.update_self ..).trans ?_
      rw [keeps]
      exact Conserving.map_desc_recvFrame s _
    · refine Function.update_of_ne ?_ ..
      rintro ⟨⟩
      exact same ⟨rfl, rfl⟩
  refine ⟨?_, fun sta' tid' other => ?_, fun _ => rfl, pending⟩
  · have this : (s.setReorderCtrl sta tid c).reorderCtrl sta tid = c := if_pos ⟨rfl, rfl⟩
    rw [recvreorderCtrl, pending, this]
    exact congrArg (fun queue => { c with pendingRecvframeQueue := queue }) keeps.symm
  · have other : (s.setReorderCtrl sta tid c).reorderCtrl sta' tid' = s.reorderCtrl sta' tid' := if_neg other
    rw [recvreorderCtrl, pending, other]
    rfl

theorem recvSetIseq_reset (iseq : Nat → Nat) (filed : (s.hdr d).preorderCtrl = some (sta, tid)) :
    Reset sta tid { s.recvreorderCtrl sta tid with indicateSeq := iseq (s.recvreorderCtrl sta tid).indicateSeq } s
      (s.recvSetIseq d iseq) := by
  unfold recvSetIseq
  rw [filed]
  exact setReorderCtrl_reset rfl

theorem recvSetIseq_none (iseq : Nat → Nat) (unfiled : (s.hdr d).preorderCtrl = none) : s.recvSetIseq d iseq = s := by
  unfold recvSetIseq
  rw [unfiled]

theorem completes_absent (separate : s.Separate orig) (ready : completes o s orig = some d) (sta : Nat)
    (tid : Fin 16) : d ∉ s.queue (.pending sta tid) := by
  unfold completes at ready
  dsimp only at ready
  split at ready
  · cases ready
  split at ready
  · rw [← Option.some.inj ready]
    exact separate.hand sta tid
  split at ready
  · rename_i first rest set
    split at ready
    · obtain ⟨p, place, queue⟩ := Option.map_eq_some_iff.mp set
      obtain ⟨sta', rfl⟩ := Conserving.defragQ_defrag o place
      rw [← Option.some.inj ready]
      refine separate.fragments sta' first ?_ sta tid
      rw [queue]
      exact List.mem_cons_self
    · cases ready
  · cases ready

/-- The end of `recv_func_posthandle`, from `recv_indicatepkt_reorder` on. -/
def deliver (o : Outcomes) (s : Pool) (orig d : Desc) : Pool :=
  match recvIndicatepktReorder o s d with
  | (s, .fail) => s.rtwFreeRecvframe orig
  | (s, .handled) => s
  | (s, .success) =>
      let seqNum := (s.hdr orig).attrib.seqNum
      let s := s.recvSetIseq d (fun _ => seqNum)
      let s := (recvProcessMpdu o s d).1
      s.recvSetIseq d (fun i => (i + 1) % 4096)

theorem posthandle_cases (o : Outcomes) (separate : s.Separate orig) :
    match delivered o s orig with
    | none => SameFrames s (recvFuncPosthandle o s orig)
    | some d => ∃ t, SameFrames s t ∧ (∀ sta tid, d ∉ s.queue (.pending sta tid)) ∧
        recvFuncPosthandle o s orig = deliver o t orig d := by
  unfold delivered recvFuncPosthandle
  by_cases decrypts : o.decrypt orig = true
  · rw [decrypts]
    simp only [Bool.not_true, Bool.false_eq_true, if_false, if_true]
    obtain ⟨returns, same⟩ := @chkDefrag_returns o s orig separate
    rcases step : recvframeChkDefrag o s orig with ⟨r, t⟩
    rw [step] at returns same
    cases ready : completes o s orig with
    | none =>
        rw [ready] at returns
        obtain rfl : r = none := returns
        exact same
    | some d =>
        rw [ready] at returns
        have absent := completes_absent separate ready
        by_cases mic : micPasses o s d = true
        · obtain rfl : r = some d := by simpa [Option.filter, mic] using returns
          cases port : o.portctrl d with
          | false =>
              simp only [Option.filter, mic, port, Bool.and_false, Bool.not_false, Bool.false_eq_true, if_false, if_true]
              refine same.trans (.free fun sta tid => ?_)
              rw [same.pending]
              exact absent sta tid
          | true =>
              simp only [Option.filter, mic, port, Bool.and_true, Bool.not_true, Bool.false_eq_true, if_false, if_true]
              exact ⟨t, same, absent, rfl⟩
        · obtain rfl : r = none := by simpa [Option.filter, mic] using returns
          simpa [Option.filter, mic] using same
  · simp only [Bool.not_eq_true] at decrypts
    simp only [decrypts, Bool.not_false, Bool.false_eq_true, if_false, if_true]
    exact .free separate.hand

theorem deliver_unfiled (unfiled : (s.hdr d).preorderCtrl = none) (absent : ∀ sta tid, d ∉ s.queue (.pending sta tid)) :
    SameFrames s (deliver o s orig d) := by
  have passes : recvIndicatepktReorder o s d = (s, .success) := by
    unfold recvIndicatepktReorder
    rw [unfiled]
  have processed := process_sameFrames (o := o) absent
  unfold deliver
  rw [passes]
  dsimp only
  rw [recvSetIseq_none _ unfiled, recvSetIseq_none]
  · exact processed
  · rw [processed.preorderCtrl, unfiled]

/-- The frame passes the reorder buffer, and its number is counted on. -/
theorem deliver_passing (filed : (s.hdr d).preorderCtrl = some (sta, tid))
    (passing : (s.hdr d).attrib.qos = false ∨ (s.reorderCtrl sta tid).enable = false)
    (absent : ∀ sta tid, d ∉ s.queue (.pending sta tid)) :
    Reset sta tid { s.recvreorderCtrl sta tid with indicateSeq := ((s.hdr orig).attrib.seqNum + 1) % 4096 } s
      (deliver o s orig d) := by
  have passes : recvIndicatepktReorder o s d = (s.setReorderCtrl sta tid (s.recvreorderCtrl sta tid), .success) := by
    have bypass : (!(s.recvFrame d).qos || !(s.recvreorderCtrl sta tid).enable) = true := by
      show (!(s.hdr d).attrib.qos || !(s.reorderCtrl sta tid).enable) = true
      rcases passing with none_ | off
      · rw [none_]
        rfl
      · rw [off, Bool.not_false, Bool.or_true]
    unfold recvIndicatepktReorder
    rw [filed]
    simp only [Recv.recvIndicatepktReorder, bypass, if_true]
  have before : Reset sta tid (s.recvreorderCtrl sta tid) s (s.setReorderCtrl sta tid (s.recvreorderCtrl sta tid)) :=
    setReorderCtrl_reset rfl
  unfold deliver
  rw [passes]
  dsimp only
  generalize eq : s.setReorderCtrl sta tid (s.recvreorderCtrl sta tid) = t at before
  have seqNum : (t.hdr orig).attrib.seqNum = (s.hdr orig).attrib.seqNum := by
    rw [← eq]
    rfl
  rw [seqNum]
  have set := before.trans (recvSetIseq_reset (fun _ => (s.hdr orig).attrib.seqNum) ((before.preorderCtrl d).trans filed))
  have processed : SameFrames (t.recvSetIseq d fun _ => (s.hdr orig).attrib.seqNum) _ := process_sameFrames (o := o)
    fun sta' tid' => (set.pending sta' tid').symm ▸ absent sta' tid'
  have after := set.trans (reset_of_sameFrames processed sta tid)
  have counted := after.trans (recvSetIseq_reset (fun i => (i + 1) % 4096) ((after.preorderCtrl d).trans filed))
  rw [after.this, set.this, before.this] at counted
  exact counted

/-- The reorder buffer refuses the frame, and the frame that came last is freed. -/
theorem deliver_refused (filed : (s.hdr d).preorderCtrl = some (sta, tid)) (qos : (s.hdr d).attrib.qos = true)
    (enable : (s.reorderCtrl sta tid).enable = true) (absent : ∀ sta tid, orig ∉ s.queue (.pending sta tid))
    (refused : (s.recvreorderCtrl sta tid).RefusedInPlace (s.recvFrame d)) :
    Reset sta tid (s.recvreorderCtrl sta tid) s (deliver o s orig d) := by
  have fails : recvIndicatepktReorder o s d = (s.setReorderCtrl sta tid (s.recvreorderCtrl sta tid), .fail) := by
    unfold recvIndicatepktReorder
    rw [filed]
    simp only [refusedInPlace_fails refused qos enable]
  have before : Reset sta tid (s.recvreorderCtrl sta tid) s (s.setReorderCtrl sta tid (s.recvreorderCtrl sta tid)) :=
    setReorderCtrl_reset rfl
  unfold deliver
  rw [fails]
  have freed : SameFrames (s.setReorderCtrl sta tid (s.recvreorderCtrl sta tid)) _ := .free
    fun sta' tid' => (before.pending sta' tid').symm ▸ absent sta' tid'
  have after := before.trans (reset_of_sameFrames freed sta tid)
  rw [before.this] at after
  exact after

/-- Frames that go up are taken out of queues, and put into none but the free queue. -/
theorem process_fewer (o : Outcomes) (s : Pool) (d : Desc) :
    (recvProcessMpdu o s d).1.reorderCtrl = s.reorderCtrl ∧
      ∀ p ≠ .free, ((recvProcessMpdu o s d).1.queue p).Sublist (s.queue p) := by
  have freed (s : Pool) : (s.rtwFreeRecvframe d).reorderCtrl = s.reorderCtrl ∧
      ∀ p ≠ .free, ((s.rtwFreeRecvframe d).queue p).Sublist (s.queue p) := by
    refine ⟨(SameFrames.settle .skbFree s d).reorderCtrl, fun p other => ?_⟩
    rw [free_queue s d other]
    exact List.filter_sublist
  unfold recvProcessMpdu
  split_ifs
  · exact freed s
  · exact freed s
  · exact freed s
  · exact freed s
  · unfold rtwRecvIndicatepkt
    split
    · exact freed s
    · have up := SameFrames.settle .skbUp s d
      have freed := freed (s.settle .skbUp d)
      rw [up.reorderCtrl, settle_queue] at freed
      exact freed

theorem processHanded_fewer (o : Outcomes) (handed : List RecvFrame) (s : Pool) :
    (processHanded o s handed).reorderCtrl = s.reorderCtrl ∧
      ∀ p ≠ .free, ((processHanded o s handed).queue p).Sublist (s.queue p) := by
  induction handed generalizing s with
  | nil => exact ⟨rfl, fun _ _ => .refl _⟩
  | cons frame rest ih =>
      have first := process_fewer o s frame.desc
      have others := ih (recvProcessMpdu o s frame.desc).1
      exact ⟨others.1.trans first.1, fun p other => (others.2 p other).trans (first.2 p other)⟩

/-- Frames go up, and as many wait as before: only this one has gone up. -/
theorem handed_alone {handed pending : List RecvFrame} {queue : List Desc}
    (perm : (handed ++ pending).Perm (s.recvFrame d :: queue.map s.recvFrame))
    (fewer : queue.Sublist (pending.map RecvFrame.desc)) (some_ : handed ≠ []) : handed = [s.recvFrame d] := by
  have count := perm.length_eq
  have most := fewer.length_le
  simp only [List.length_append, List.length_cons, List.length_map] at count most
  match handed with
  | [] => exact absurd rfl some_
  | frame :: _ :: _ =>
      simp only [List.length_cons] at count
      omega
  | [frame] =>
      have waiting : queue = pending.map RecvFrame.desc := by
        refine fewer.eq_of_length_le ?_
        simp only [List.length_cons, List.length_nil, List.length_map] at count ⊢
        omega
      have descs := perm.map RecvFrame.desc
      simp only [List.map_append, List.map_cons, List.map_nil, Conserving.map_desc_recvFrame, ← waiting] at descs
      have desc : frame.desc = d := by
        by_contra differ
        have counts : List.count frame.desc (frame.desc :: queue) = List.count frame.desc (d :: queue) :=
          descs.count_eq frame.desc
        rw [List.count_cons_self, List.count_cons_of_ne (Ne.symm differ)] at counts
        omega
      have inside : frame ∈ s.recvFrame d :: queue.map s.recvFrame := perm.subset List.mem_cons_self
      rcases List.mem_cons.mp inside with same | inside
      · rw [same]
      · obtain ⟨d', -, eq⟩ := List.mem_map.mp inside
        have same : d' = d := (congrArg RecvFrame.desc eq).trans desc
        rw [← eq, same]

theorem reorder_looks {frame : RecvFrame} (qos : frame.qos = true) (enable : c.enable = true) :
    (Recv.recvIndicatepktReorder c frame).2.2 ≠ .success := by
  unfold Recv.recvIndicatepktReorder
  rw [qos, enable]
  split
  · rename_i bypass
    cases bypass
  · split
    · nofun
    · split <;> nofun

/-- A frame that the reorder buffer looks at, and that leaves its queue and `indicate_seq`, is refused in place. -/
theorem refusedInPlace_of_deliver (filed : (s.hdr d).preorderCtrl = some (sta, tid)) (qos : (s.hdr d).attrib.qos = true)
    (enable : (s.reorderCtrl sta tid).enable = true) (range : (s.reorderCtrl sta tid).InRange)
    (small : (s.hdr d).attrib.seqNum < 4096)
    (indicateSeq : ((deliver o s orig d).reorderCtrl sta tid).indicateSeq = (s.reorderCtrl sta tid).indicateSeq)
    (pending : (deliver o s orig d).queue (.pending sta tid) = s.queue (.pending sta tid)) :
    (s.recvreorderCtrl sta tid).RefusedInPlace (s.recvFrame d) := by
  have taken := recvIndicatepktReorder_perm (s.recvreorderCtrl sta tid) (s.recvFrame d)
  have stays := @refusedInPlace_of_stays (s.recvreorderCtrl sta tid) (s.recvFrame d) ⟨range.1, range.2⟩ small qos enable
  have looked := @reorder_looks (s.recvreorderCtrl sta tid) (s.recvFrame d) qos enable
  rcases step : Recv.recvIndicatepktReorder (s.recvreorderCtrl sta tid) (s.recvFrame d) with ⟨c, handed, ret⟩
  rw [step] at taken stays looked
  have this (t : Pool) : (t.setReorderCtrl sta tid c).reorderCtrl sta tid = c := if_pos ⟨rfl, rfl⟩
  cases ret with
  | success => exact absurd rfl looked
  | fail =>
      have reordered : recvIndicatepktReorder o s d = (s.setReorderCtrl sta tid c, .fail) := by
        unfold recvIndicatepktReorder
        rw [filed]
        simp only [step]
      rw [deliver, reordered] at indicateSeq
      have freed := (SameFrames.settle .skbFree (s.setReorderCtrl sta tid c) orig).reorderCtrl
      have same : ((s.setReorderCtrl sta tid c).rtwFreeRecvframe orig).reorderCtrl sta tid = c := by
        refine Eq.trans ?_ (this s)
        rw [← freed]
        rfl
      exact stays ((congrArg ReorderCtrl.indicateSeq same).symm.trans indicateSeq) nofun
  | handled =>
      have reordered : recvIndicatepktReorder o s d =
          (processHanded o ((s.rtwListDelete d).setReorderCtrl sta tid c) handed, .handled) := by
        unfold recvIndicatepktReorder
        rw [filed]
        simp only [step]
      rw [deliver, reordered] at indicateSeq pending
      obtain ⟨ctrl, fewer⟩ := processHanded_fewer o handed ((s.rtwListDelete d).setReorderCtrl sta tid c)
      have fewer := fewer (.pending sta tid) nofun
      have left : ((s.rtwListDelete d).setReorderCtrl sta tid c).queue (.pending sta tid) =
          c.pendingRecvframeQueue.map RecvFrame.desc := Function.update_self ..
      dsimp only at indicateSeq pending
      rw [ctrl, this] at indicateSeq
      rw [pending, left] at fewer
      refine stays indicateSeq fun _ => handed_alone ((if_pos rfl).mp taken) fewer ?_
      rintro rfl
      have count := ((if_pos rfl).mp taken).length_eq
      have same := congrArg List.length (left.symm.trans pending)
      rw [List.length_map] at same
      rw [List.nil_append, List.length_cons, same] at count
      have before : (s.recvreorderCtrl sta tid).pendingRecvframeQueue.length = (s.queue (.pending sta tid)).length :=
        List.length_map ..
      omega

end Effects

end Pool

/-! ## Frames without QoS -/

/-- What `recv_indicatepkt_reorder` returns for MPDUs that come one behind the other. -/
def reorderRets (c : ReorderCtrl) : List RecvFrame → List Ret
  | [] => []
  | frame :: later =>
      let r := recvIndicatepktReorder c frame
      r.2.2 :: reorderRets r.1 later

/-- The reorder buffers that are enabled are as they were, and refuse no later MPDU that they would have taken. -/
structure Undisturbed (s t : Pool) : Prop where
  indicateSeq : ∀ sta tid, (s.reorderCtrl sta tid).enable = true →
    (t.reorderCtrl sta tid).indicateSeq = (s.reorderCtrl sta tid).indicateSeq
  pending : ∀ sta tid, (s.reorderCtrl sta tid).enable = true → t.queue (.pending sta tid) = s.queue (.pending sta tid)
  delivers : ∀ sta tid later, (s.reorderCtrl sta tid).enable = true →
    List.Forall₂ (fun before after => before ≠ .fail → after ≠ .fail)
      (reorderRets (s.recvreorderCtrl sta tid) later) (reorderRets (t.recvreorderCtrl sta tid) later)

/-- The frame that comes to an enabled reorder buffer is one without QoS, and its number is the one before the expected
one; or it is a set of fragments that began with QoS, and is refused in place. -/
def Pool.Harmless (o : Outcomes) (s : Pool) (orig : Desc) : Prop :=
  ∀ d ∈ Pool.delivered o s orig, ∀ sta tid, (s.hdr d).preorderCtrl = some (sta, tid) →
    (s.reorderCtrl sta tid).enable = true →
    if (s.hdr d).attrib.qos = true then (s.recvreorderCtrl sta tid).RefusedInPlace (s.recvFrame d)
    else (s.reorderCtrl sta tid).indicateSeq = ((s.hdr orig).attrib.seqNum + 1) % 4096

/-- Sequence numbers have 12 bits, `wsize_b` has 8. -/
structure Pool.InRange (s : Pool) : Prop where
  seqNum : ∀ d, (s.hdr d).attrib.seqNum < 4096
  reorderCtrl : ∀ sta tid, (s.reorderCtrl sta tid).InRange

/-- A unicast data frame without QoS, as `validate_recv_data_frame` has filed it. -/
structure Pool.NonQos (s : Pool) (orig : Desc) (sta : Nat) : Prop where
  qos : (s.hdr orig).attrib.qos = false
  filed : (s.hdr orig).preorderCtrl = some (sta, 0)

namespace Pool

variable {o : Outcomes} {s t : Pool} {orig : Desc} {sta : Nat}

/-- It files each of them so. -/
theorem validated_nonQos (qos : (s.hdr orig).attrib.qos = false) (unicast : (s.hdr orig).attrib.mcast = false)
    (checked : o.dataCheck orig = .success sta) : (validateRecvDataFrame o s orig).1.NonQos orig sta := by
  unfold validateRecvDataFrame
  rw [checked]
  constructor
  · simp [qos]
  · simp [qos, unicast]

theorem undisturbed_of_ctrl
    (same : ∀ sta tid, (s.reorderCtrl sta tid).enable = true → t.recvreorderCtrl sta tid = s.recvreorderCtrl sta tid)
    (pending : ∀ sta tid, t.queue (.pending sta tid) = s.queue (.pending sta tid)) : Undisturbed s t where
  indicateSeq sta tid enable := by
    show (t.recvreorderCtrl sta tid).indicateSeq = (s.recvreorderCtrl sta tid).indicateSeq
    rw [same sta tid enable]
  pending sta tid _ := pending sta tid
  delivers sta tid later enable := by
    rw [same sta tid enable, List.forall₂_same]
    exact fun _ _ kept => kept

theorem undisturbed_of_sameFrames (same : SameFrames s t) : Undisturbed s t :=
  undisturbed_of_ctrl (fun sta tid _ => recvreorderCtrl_congr same sta tid) same.pending

theorem undisturbed_of_reset {u : Pool} {tid : Fin 16} {c : ReorderCtrl} (same : SameFrames s t)
    (reset : Reset sta tid c t u) (kept : (s.reorderCtrl sta tid).enable = true → c = s.recvreorderCtrl sta tid) :
    Undisturbed s u := by
  refine undisturbed_of_ctrl (fun sta' tid' enable => ?_) fun sta' tid' => ?_
  · by_cases this : sta' = sta ∧ tid' = tid
    · obtain ⟨rfl, rfl⟩ := this
      exact reset.this.trans (kept enable)
    · exact (reset.others sta' tid' this).trans (recvreorderCtrl_congr same sta' tid')
  · rw [reset.pending, same.pending]

section Deliver

variable {d : Desc} {tid : Fin 16}

/-- A frame without QoS must have the number before the expected one. -/
theorem undisturbed_nonQos_iff (same : SameFrames s t) (absent : ∀ sta tid, d ∉ s.queue (.pending sta tid))
    (filed : (s.hdr d).preorderCtrl = some (sta, tid)) (enable : (s.reorderCtrl sta tid).enable = true)
    (qos : (s.hdr d).attrib.qos = false) :
    Undisturbed s (deliver o t orig d) ↔ (s.reorderCtrl sta tid).indicateSeq = ((s.hdr orig).attrib.seqNum + 1) % 4096 := by
  have passing := @deliver_passing o t orig d sta tid ((same.preorderCtrl d).trans filed)
    (.inl (by rw [same.attrib, qos])) fun sta tid => same.pending sta tid ▸ absent sta tid
  rw [same.attrib, recvreorderCtrl_congr same] at passing
  constructor
  · intro undisturbed
    have stays := undisturbed.indicateSeq sta tid enable
    have counted := congrArg ReorderCtrl.indicateSeq passing.this
    exact stays.symm.trans counted
  · intro expected
    refine undisturbed_of_reset same passing fun _ => ?_
    rw [← expected]
    rfl

/-- A frame with QoS must be refused. -/
theorem undisturbed_qos_iff (same : SameFrames s t) (separate : s.Separate orig) (range : s.InRange)
    (filed : (s.hdr d).preorderCtrl = some (sta, tid)) (enable : (s.reorderCtrl sta tid).enable = true)
    (qos : (s.hdr d).attrib.qos = true) :
    Undisturbed s (deliver o t orig d) ↔ (s.recvreorderCtrl sta tid).RefusedInPlace (s.recvFrame d) := by
  have ctrl := congrFun (congrFun same.reorderCtrl sta) tid
  have frame : t.recvFrame d = s.recvFrame d := congrFun same.recvFrame d
  have filed' : (t.hdr d).preorderCtrl = some (sta, tid) := (same.preorderCtrl d).trans filed
  have qos' : (t.hdr d).attrib.qos = true := by rw [same.attrib, qos]
  have enable' : (t.reorderCtrl sta tid).enable = true := ctrl ▸ enable
  constructor
  · intro undisturbed
    have refused := @refusedInPlace_of_deliver o t orig d sta tid filed' qos' enable'
      (ctrl ▸ range.reorderCtrl sta tid) (by rw [same.attrib]; exact range.seqNum d)
      (by rw [undisturbed.indicateSeq sta tid enable, ctrl])
      (by rw [undisturbed.pending sta tid enable, same.pending])
    rwa [recvreorderCtrl_congr same, frame] at refused
  · intro refused
    rw [← recvreorderCtrl_congr same, ← frame] at refused
    have kept := @deliver_refused o t orig d sta tid filed' qos' enable'
      (fun sta tid => same.pending sta tid ▸ separate.hand sta tid) refused
    exact undisturbed_of_reset same kept fun _ => recvreorderCtrl_congr same sta tid

end Deliver

/-- Which frames leave the enabled reorder buffers as they are; among them those without QoS. -/
theorem undisturbed_iff (o : Outcomes) (s : Pool) (orig : Desc) (separate : s.Separate orig) (range : s.InRange) :
    Undisturbed s (recvFuncPosthandle o s orig) ↔ s.Harmless o orig := by
  have post := posthandle_cases o separate
  unfold Harmless
  cases comes : delivered o s orig with
  | none =>
      rw [comes] at post
      exact iff_of_true (undisturbed_of_sameFrames post) nofun
  | some d =>
      rw [comes] at post
      obtain ⟨t, same, absent, post⟩ := post
      have absent' (sta : Nat) (tid : Fin 16) : d ∉ t.queue (.pending sta tid) := same.pending sta tid ▸ absent sta tid
      rw [post]
      simp only [Option.mem_some, forall_eq']
      cases filed : (s.hdr d).preorderCtrl with
      | none =>
          have unfiled : (t.hdr d).preorderCtrl = none := (same.preorderCtrl d).trans filed
          exact iff_of_true (undisturbed_of_sameFrames (same.trans (deliver_unfiled unfiled absent'))) nofun
      | some ctrl =>
          obtain ⟨sta, tid⟩ := ctrl
          have only_ (P : Nat → Fin 16 → Prop) :
              P sta tid ↔ ∀ sta' tid', some (sta, tid) = some (sta', tid') → P sta' tid' := by
            refine ⟨fun this sta' tid' eq => ?_, fun all => all sta tid rfl⟩
            obtain ⟨rfl, rfl⟩ := Prod.mk.inj (Option.some.inj eq)
            exact this
          refine Iff.trans ?_ (only_ _)
          cases enable : (s.reorderCtrl sta tid).enable with
          | false =>
              have off : (t.reorderCtrl sta tid).enable = false := by rw [same.reorderCtrl, enable]
              have passing := @deliver_passing o t orig d sta tid ((same.preorderCtrl d).trans filed) (.inr off) absent'
              refine iff_of_true (undisturbed_of_reset same passing fun on => ?_) fun on => by cases on
              rw [enable] at on
              cases on
          | true =>
              simp only [forall_const]
              cases qos : (s.hdr d).attrib.qos with
              | false =>
                  simp only [Bool.false_eq_true, if_false]
                  exact undisturbed_nonQos_iff same absent filed enable qos
              | true =>
                  simp only [if_true]
                  exact undisturbed_qos_iff same separate range filed enable qos

/-- For a whole frame without QoS: TID 0 is not enabled, or its number is the one before the expected one. -/
theorem harmless_whole_iff (nonQos : s.NonQos orig sta) (whole : (s.hdr orig).attrib.mfrag = false)
    (first : (s.hdr orig).attrib.fragNum = 0) :
    s.Harmless o orig ↔
      (o.decrypt orig = true → micPasses o s orig = true → o.portctrl orig = true →
        (s.reorderCtrl sta 0).enable = true →
        (s.reorderCtrl sta 0).indicateSeq = ((s.hdr orig).attrib.seqNum + 1) % 4096) := by
  have ready : completes o s orig = some orig := by
    unfold completes
    simp [whole, first]
  unfold Harmless delivered
  rw [ready]
  constructor
  · intro harmless decrypts mic port enable
    have this := harmless orig (by simp [Option.filter, decrypts, mic, port]) sta 0 nonQos.filed enable
    rwa [if_neg (by rw [nonQos.qos]; nofun)] at this
  · intro expected d comes sta' tid filed enable
    cases decrypts : o.decrypt orig with
    | false => simp [decrypts] at comes
    | true =>
        obtain ⟨rfl, checks⟩ : orig = d ∧ (micPasses o s d && o.portctrl d) = true := by
          simpa [decrypts, Option.filter_eq_some_iff] using comes
        obtain ⟨mic, port⟩ := Bool.and_eq_true_iff.mp checks
        obtain ⟨rfl, rfl⟩ := Prod.mk.inj (Option.some.inj (nonQos.filed.symm.trans filed))
        rw [if_neg (by rw [nonQos.qos]; nofun)]
        exact expected decrypts mic port enable

end Pool

/-! ## A window that moves -/

/-- A station whose TID 0 expects an MPDU, with a frame without QoS in descriptor 0. -/
def Pool.mixed (indicateSeq : Nat) : Pool :=
  { Pool.init with
    queue := fun p => if p = .free then List.range' 1 255 else []
    freeRecvframeCnt := 255
    hdr := fun d => ⟨if d = 0 then some 0 else none, ⟨0, .data, false, 0, 100, false, false, 0, false, false⟩, some (1, 0)⟩
    reorderCtrl := fun sta tid =>
      if sta = 1 ∧ tid = 0 then { Pool.newReorderCtrl with enable := true, indicateSeq := indicateSeq }
      else Pool.newReorderCtrl
    nextSkb := 1 }

theorem separate_mixed (indicateSeq : Nat) : (Pool.mixed indicateSeq).Separate 0 :=
  ⟨fun _ _ => List.not_mem_nil, fun _ _ inside => absurd inside List.not_mem_nil⟩

theorem inRange_mixed {indicateSeq : Nat} (small : indicateSeq < 4096) : (Pool.mixed indicateSeq).InRange where
  seqNum _ := show 100 < 4096 by decide
  reorderCtrl sta tid := by
    unfold Pool.mixed
    dsimp only
    split
    · exact ⟨.inl small, show 64 < 256 by decide⟩
    · exact ⟨.inr rfl, by decide⟩

/-- The frame before the expected one. -/
theorem undisturbed_mixed : Undisturbed (Pool.mixed 101) (Pool.recvFuncPosthandle keyless (Pool.mixed 101) 0) := by
  refine (Pool.undisturbed_iff keyless (Pool.mixed 101) 0 (separate_mixed 101) (inRange_mixed (by decide))).mpr ?_
  refine (Pool.harmless_whole_iff ⟨rfl, rfl⟩ rfl rfl).mpr ?_
  decide

/-- MPDU 5 is expected, and frame 100 has no QoS: 101 is expected from now on, and MPDU 5 is refused. -/
theorem moves_window :
    (Pool.mixed 5).NonQos 0 1 ∧ (Pool.mixed 5).Separate 0 ∧ (Pool.mixed 5).InRange ∧
    ((Pool.mixed 5).reorderCtrl 1 0).enable = true ∧
    ¬Undisturbed (Pool.mixed 5) (Pool.recvFuncPosthandle keyless (Pool.mixed 5) 0) ∧
    ((Pool.recvFuncPosthandle keyless (Pool.mixed 5) 0).reorderCtrl 1 0).indicateSeq = 101 ∧
    reorderRets ((Pool.mixed 5).recvreorderCtrl 1 0) [⟨1, true, 5⟩] = [.handled] ∧
    reorderRets ((Pool.recvFuncPosthandle keyless (Pool.mixed 5) 0).recvreorderCtrl 1 0) [⟨1, true, 5⟩] = [.fail] := by
  have moved : ((Pool.recvFuncPosthandle keyless (Pool.mixed 5) 0).reorderCtrl 1 0).indicateSeq = 101 := by decide +kernel
  refine ⟨⟨rfl, rfl⟩, separate_mixed 5, inRange_mixed (by decide), rfl, fun undisturbed => ?_, moved,
    by decide +kernel, by decide +kernel⟩
  have stays := undisturbed.indicateSeq 1 0 rfl
  rw [moved] at stays
  exact absurd stays (by decide)

end Vmac.Recv
