/-
# Vmac.Recv.ReorderTimer -- the reorder timer, step by step: rtw_recv.c

The timer expires, and its handler waits for the lock of the pending queue; an MPDU that empties
the queue cancels the timer behind the lock (`del_timer_sync`, which waits for the handler).  In
between the other side takes its turn.

* `arrival_undisturbed`, `expiry_undisturbed`: with nothing in between these are the functions of
  `Vmac.Recv.Reorder`.
* `timer_armed_iff`: in which runs the timer is armed exactly while MPDUs wait.
* `rearms`: an armed timer of an empty queue arms itself again.
* `armed_for_nothing`: a run that comes there.
-/
import Vmac.Recv.Reorder
import Vmac.Theory.Run

namespace Vmac.Recv

open Theory.Run

set_option autoImplicit false

/-- One station and TID, with what is in progress. -/
structure ReorderTimer where
  /-- `reorderingCtrlTimer` is that the timer is pending. -/
  ctrl : ReorderCtrl
  /-- The timer has expired, and the handler waits for the lock. -/
  handler : Bool
  /-- `recv_indicatepkt_reorder` has released the lock and will cancel the timer. -/
  cancels : Bool
  deriving DecidableEq

namespace ReorderTimer

/-- No step is in progress. -/
def Quiet (s : ReorderTimer) : Prop := s.handler = false ∧ s.cancels = false

/-- `recv_indicatepkt_reorder` up to the release of the lock. -/
def arrival (s : ReorderTimer) (frame : RecvFrame) : ReorderTimer :=
  if !frame.qos || !s.ctrl.enable then s
  else
    match checkIndicateSeq s.ctrl frame.seqNum with
    | (c, false) => { s with ctrl := c }
    | (c, true) =>
        match enqueueReorderRecvframe frame c.pendingRecvframeQueue with
        | none => { s with ctrl := c }
        | some queue =>
            let r := recvIndicatepktsInOrder { c with pendingRecvframeQueue := queue } false
            if r.2.2 = true then
              if r.1.bReorderWaiting = true then { s with ctrl := r.1 }
              else { s with ctrl := { r.1 with bReorderWaiting := true, reorderingCtrlTimer := true } }
            else { s with ctrl := { r.1 with bReorderWaiting := false }, cancels := true }

/-- `_cancel_timer_ex` behind the lock. -/
def cancel (s : ReorderTimer) : ReorderTimer :=
  { s with ctrl := { s.ctrl with reorderingCtrlTimer := false }, cancels := false }

/-- The timer expires; `cannotRun` is `RTW_CANNOT_RUN` at the start of the handler. -/
def expire (s : ReorderTimer) (cannotRun : Bool) : ReorderTimer :=
  { s with ctrl := { s.ctrl with reorderingCtrlTimer := false }, handler := !cannotRun }

/-- `rtw_reordering_ctrl_timeout_handler` from the lock on. -/
def handle (s : ReorderTimer) : ReorderTimer :=
  let r := recvIndicatepktsInOrder { s.ctrl with bReorderWaiting := false } true
  { s with ctrl := if r.2.2 = true then { r.1 with reorderingCtrlTimer := true } else r.1, handler := false }

end ReorderTimer

inductive ReorderStep
  | arrival (frame : RecvFrame)
  | cancel
  | expire (cannotRun : Bool)
  | handle
  deriving DecidableEq

/-- A step that cannot be taken now is not taken: MPDUs come one behind the other, a timer expires once while its handler
waits, and the handler is waited for before the timer is cancelled. -/
def ReorderTimer.step (s : ReorderTimer) : ReorderStep → ReorderTimer
  | .arrival frame => if s.cancels = true then s else s.arrival frame
  | .cancel => if s.cancels = true ∧ s.handler = false then s.cancel else s
  | .expire cannotRun => if s.ctrl.reorderingCtrlTimer = true ∧ s.handler = false then s.expire cannotRun else s
  | .handle => if s.handler = true then s.handle else s

/-- A TID before its first MPDU. -/
def ReorderTimer.start (enable : Bool) (indicateSeq wsizeB : Nat) : ReorderTimer :=
  ⟨⟨enable, indicateSeq, wsizeB, [], false, false⟩, false, false⟩

/-! ## Undisturbed -/

section Undisturbed

variable (s : ReorderTimer)

/-- An MPDU whose cancel comes at once. -/
theorem arrival_undisturbed (frame : RecvFrame) (quiet : s.Quiet) :
    ((s.step (.arrival frame)).step .cancel).ctrl = (recvIndicatepktReorder s.ctrl frame).1 := by
  obtain ⟨ctrl, handler, cancels⟩ := s
  obtain ⟨rfl, rfl⟩ : handler = false ∧ cancels = false := quiet
  simp only [ReorderTimer.step, Bool.false_eq_true, if_false, ReorderTimer.arrival, recvIndicatepktReorder]
  by_cases bypass : (!frame.qos || !ctrl.enable) = true
  · simp [bypass]
  · rw [if_neg bypass, if_neg bypass]
    obtain ⟨c, kept⟩ := checkIndicateSeq ctrl frame.seqNum
    cases kept with
    | false => rfl
    | true =>
        cases queued : enqueueReorderRecvframe frame c.pendingRecvframeQueue with
        | none => simp [queued]
        | some queue =>
            simp only [queued]
            obtain ⟨c', -, waits⟩ := recvIndicatepktsInOrder { c with pendingRecvframeQueue := queue } false
            cases waits with
            | false => rfl
            | true =>
                cases waiting : c'.bReorderWaiting <;> simp [awaitReorder, waiting]

/-- An expiry whose handler has the lock at once. -/
theorem expiry_undisturbed (cannotRun : Bool) (quiet : s.Quiet) (armed : s.ctrl.reorderingCtrlTimer = true) :
    ((s.step (.expire cannotRun)).step .handle).ctrl = (rtwReorderingCtrlTimeoutHandler cannotRun s.ctrl).1 := by
  obtain ⟨ctrl, handler, cancels⟩ := s
  obtain ⟨rfl, rfl⟩ : handler = false ∧ cancels = false := quiet
  have armed' : ctrl.reorderingCtrlTimer = true := armed
  cases cannotRun with
  | true => simp [ReorderTimer.step, ReorderTimer.expire, rtwReorderingCtrlTimeoutHandler, armed']
  | false => simp [ReorderTimer.step, ReorderTimer.expire, ReorderTimer.handle, rtwReorderingCtrlTimeoutHandler, armed']

end Undisturbed

/-! ## What the steps do to queue, timer and flag -/

section Steps

variable (c : ReorderCtrl) (s : ReorderTimer)

theorem checkIndicateSeq_keeps (seqNum : Nat) : ∃ i, (checkIndicateSeq c seqNum).1 = { c with indicateSeq := i } := by
  simp only [checkIndicateSeq]
  split_ifs
  all_goals exact ⟨_, rfl⟩

theorem recvIndicatepktsInOrder_unforced : ∃ i pending,
    recvIndicatepktsInOrder c false = ({ c with indicateSeq := i, pendingRecvframeQueue := pending },
      (recvIndicatepktsInOrder c false).2.1, !pending.isEmpty) := ⟨_, _, rfl⟩

/-- An MPDU changes none of the three, or it waits and the flag is set, or it leaves an empty queue and no flag. -/
theorem arrival_cases (frame : RecvFrame) :
    (s.arrival frame).handler = s.handler ∧
      (((s.arrival frame).cancels = s.cancels ∧
          (s.arrival frame).ctrl.pendingRecvframeQueue = s.ctrl.pendingRecvframeQueue ∧
          (s.arrival frame).ctrl.reorderingCtrlTimer = s.ctrl.reorderingCtrlTimer ∧
          (s.arrival frame).ctrl.bReorderWaiting = s.ctrl.bReorderWaiting) ∨
        ((s.arrival frame).cancels = s.cancels ∧ (s.arrival frame).ctrl.pendingRecvframeQueue ≠ [] ∧
          (s.arrival frame).ctrl.reorderingCtrlTimer = (s.ctrl.reorderingCtrlTimer || !s.ctrl.bReorderWaiting) ∧
          (s.arrival frame).ctrl.bReorderWaiting = true) ∨
        ((s.arrival frame).cancels = true ∧ (s.arrival frame).ctrl.pendingRecvframeQueue = [] ∧
          (s.arrival frame).ctrl.bReorderWaiting = false)) := by
  rw [ReorderTimer.arrival]
  split
  · exact ⟨rfl, .inl ⟨rfl, rfl, rfl, rfl⟩⟩
  · obtain ⟨i, moved⟩ := checkIndicateSeq_keeps s.ctrl frame.seqNum
    generalize checkIndicateSeq s.ctrl frame.seqNum = checked at moved ⊢
    obtain ⟨c, kept⟩ := checked
    obtain rfl : c = _ := moved
    cases kept with
    | false => exact ⟨rfl, .inl ⟨rfl, rfl, rfl, rfl⟩⟩
    | true =>
        dsimp only
        cases enqueueReorderRecvframe frame s.ctrl.pendingRecvframeQueue with
        | none => exact ⟨rfl, .inl ⟨rfl, rfl, rfl, rfl⟩⟩
        | some queue =>
            dsimp only
            obtain ⟨j, pending, out⟩ :=
              recvIndicatepktsInOrder_unforced { s.ctrl with indicateSeq := i, pendingRecvframeQueue := queue }
            rw [out]
            cases pending with
            | nil => exact ⟨rfl, .inr (.inr ⟨rfl, rfl, rfl⟩)⟩
            | cons f rest =>
                cases waiting : s.ctrl.bReorderWaiting <;> simp

/-- The numbers of the MPDUs follow one another from `i` on. -/
def gapless (i : Nat) : List RecvFrame → Bool
  | [] => true
  | frame :: rest => !snLess i frame.seqNum && gapless (if snEqual i frame.seqNum then (i + 1) % 4096 else i) rest

theorem indicateLoop_pending_eq_nil (i : Nat) (queue : List RecvFrame) :
    (indicateLoop i queue).pending = [] ↔ gapless i queue = true := by
  induction queue generalizing i with
  | nil => simp [indicateLoop, gapless]
  | cons frame rest ih =>
      cases later : snLess i frame.seqNum with
      | true => simp [indicateLoop, gapless, later]
      | false => simp [indicateLoop, gapless, later, ih]

/-- The handler finds the next MPDUs without a gap. -/
def ReorderCtrl.drains (c : ReorderCtrl) : Bool :=
  gapless ((c.pendingRecvframeQueue.head?.map RecvFrame.seqNum).getD c.indicateSeq) c.pendingRecvframeQueue

/-- The handler clears the flag; it arms the timer for an empty queue and for MPDUs that it leaves. -/
theorem handle_cases :
    s.handle.handler = false ∧ s.handle.cancels = s.cancels ∧ s.handle.ctrl.bReorderWaiting = false ∧
      (s.ctrl.pendingRecvframeQueue = [] ∧ s.handle.ctrl.pendingRecvframeQueue = [] ∧
          s.handle.ctrl.reorderingCtrlTimer = true ∨
        s.ctrl.pendingRecvframeQueue ≠ [] ∧ s.ctrl.drains = false ∧ s.handle.ctrl.pendingRecvframeQueue ≠ [] ∧
          s.handle.ctrl.reorderingCtrlTimer = true ∨
        s.ctrl.pendingRecvframeQueue ≠ [] ∧ s.ctrl.drains = true ∧ s.handle.ctrl.pendingRecvframeQueue = [] ∧
          s.handle.ctrl.reorderingCtrlTimer = s.ctrl.reorderingCtrlTimer) := by
  obtain ⟨⟨enable, i, w, queue, timer, waiting⟩, handler, cancels⟩ := s
  cases queue with
  | nil => exact ⟨rfl, rfl, rfl, .inl ⟨rfl, rfl, rfl⟩⟩
  | cons f rest =>
      have drained := indicateLoop_pending_eq_nil f.seqNum (f :: rest)
      cases gap : gapless f.seqNum (f :: rest) with
      | true =>
          have none_ := drained.mpr gap
          simp [ReorderTimer.handle, recvIndicatepktsInOrder, ReorderCtrl.drains, gap, none_]
      | false =>
          have some_ : (indicateLoop f.seqNum (f :: rest)).pending ≠ [] := fun none_ => by
            rw [drained.mp none_] at gap
            exact absurd gap nofun
          simp [ReorderTimer.handle, recvIndicatepktsInOrder, ReorderCtrl.drains, gap, some_]

end Steps

/-! ## The invariant -/

/-- While a cancel is to come the queue is empty and the flag clear; else the timer is armed, or its handler waits,
exactly while MPDUs wait.  With the flag the timer is armed or its handler waits. -/
structure ReorderTimer.Watched (s : ReorderTimer) : Prop where
  cancelling : s.cancels = true → s.ctrl.pendingRecvframeQueue = [] ∧ s.ctrl.bReorderWaiting = false
  watched : s.cancels = false →
    ((s.ctrl.reorderingCtrlTimer = true ∨ s.handler = true) ↔ s.ctrl.pendingRecvframeQueue ≠ [])
  flag : s.ctrl.bReorderWaiting = true → s.ctrl.reorderingCtrlTimer = true ∨ s.handler = true

/-- With no step in progress, the timer is armed exactly while MPDUs wait. -/
def ReorderTimer.Armed (s : ReorderTimer) : Prop :=
  s.Quiet → (s.ctrl.reorderingCtrlTimer = true ↔ s.ctrl.pendingRecvframeQueue ≠ [])

/-- A handler that may not run finds the queue empty; one that finds the timer armed again leaves MPDUs, or finds none. -/
def ReorderStep.Meets (s : ReorderTimer) : ReorderStep → Prop
  | .expire cannotRun =>
      s.ctrl.reorderingCtrlTimer = true → s.handler = false → cannotRun = true → s.ctrl.pendingRecvframeQueue = []
  | .handle =>
      s.handler = true → s.ctrl.reorderingCtrlTimer = true → s.ctrl.pendingRecvframeQueue = [] ∨ s.ctrl.drains = false
  | _ => True

namespace ReorderTimer

variable {s : ReorderTimer}

theorem Watched.armed (watched : s.Watched) : s.Armed := by
  rintro ⟨resting, settled⟩
  rw [← watched.watched settled, resting]
  simp

theorem Watched.arrival (watched : s.Watched) (settled : s.cancels = false) (frame : RecvFrame) :
    (s.arrival frame).Watched := by
  obtain ⟨handler, fate⟩ := arrival_cases s frame
  have before := watched.watched settled
  rcases fate with ⟨cancels, queue, timer, waiting⟩ | ⟨cancels, some_, timer, waiting⟩ | ⟨cancels, none_, waiting⟩
  · refine ⟨fun cancelling => ?_, fun _ => ?_, fun flag => ?_⟩
    · rw [cancels, settled] at cancelling
      exact absurd cancelling nofun
    · rw [timer, handler, queue]
      exact before
    · rw [waiting] at flag
      rw [timer, handler]
      exact watched.flag flag
  · -- the MPDU waits: the flag says that somebody watches already
    have guarded : (s.arrival frame).ctrl.reorderingCtrlTimer = true ∨ (s.arrival frame).handler = true := by
      rw [timer, handler]
      cases flag : s.ctrl.bReorderWaiting with
      | true => simpa using watched.flag flag
      | false => simp
    refine ⟨fun cancelling => ?_, fun _ => iff_of_true guarded some_, fun _ => guarded⟩
    rw [cancels, settled] at cancelling
    exact absurd cancelling nofun
  · refine ⟨fun _ => ⟨none_, waiting⟩, fun settled' => ?_, fun flag => ?_⟩
    · rw [cancels] at settled'
      exact absurd settled' nofun
    · rw [waiting] at flag
      exact absurd flag nofun

theorem Watched.handle (watched : s.Watched) (handler : s.handler = true)
    (meets : s.ctrl.reorderingCtrlTimer = true → s.ctrl.pendingRecvframeQueue = [] ∨ s.ctrl.drains = false) :
    s.handle.Watched := by
  obtain ⟨done, cancels, waiting, fate⟩ := handle_cases s
  have flag (set : s.handle.ctrl.bReorderWaiting = true) : False := by
    rw [waiting] at set
    exact absurd set nofun
  refine ⟨fun cancelling => ?_, fun settled => ?_, fun set => (flag set).elim⟩
  · rw [cancels] at cancelling
    have empty := (watched.cancelling cancelling).1
    rcases fate with ⟨-, none_, -⟩ | ⟨some_, -⟩ | ⟨some_, -⟩
    · exact ⟨none_, waiting⟩
    · exact absurd empty some_
    · exact absurd empty some_
  · rw [cancels] at settled
    have nonempty := (watched.watched settled).mp (.inr handler)
    rcases fate with ⟨none_, -⟩ | ⟨-, -, left, timer⟩ | ⟨-, drains, none_, timer⟩
    · exact absurd none_ nonempty
    · exact iff_of_true (.inl timer) left
    · refine iff_of_false ?_ (not_not.mpr none_)
      rintro (armed | waits)
      · rw [timer] at armed
        rcases meets armed with empty | leaves
        · exact nonempty empty
        · rw [drains] at leaves
          exact absurd leaves nofun
      · rw [done] at waits
        exact absurd waits nofun

/-- A step that meets its condition keeps the invariant. -/
theorem Watched.step (op : ReorderStep) (watched : s.Watched) (meets : op.Meets s) : (s.step op).Watched := by
  cases op with
  | arrival frame =>
      rw [ReorderTimer.step]
      split
      · exact watched
      · rename_i settled
        exact watched.arrival (Bool.eq_false_of_not_eq_true settled) frame
  | cancel =>
      rw [ReorderTimer.step]
      split
      · rename_i both
        obtain ⟨empty, clear⟩ := watched.cancelling both.1
        refine ⟨nofun, fun _ => iff_of_false ?_ (not_not.mpr empty), fun flag => ?_⟩
        · rintro (armed | waits)
          · exact absurd armed nofun
          · exact absurd (both.2.symm.trans waits) nofun
        · exact absurd (clear.symm.trans flag) nofun
      · exact watched
  | expire cannotRun =>
      rw [ReorderTimer.step]
      split
      · rename_i both
        cases cannotRun with
        | false =>
            refine ⟨watched.cancelling, fun settled => ?_, fun _ => .inr rfl⟩
            exact iff_of_true (.inr rfl) ((watched.watched settled).mp (.inl both.1))
        | true =>
            -- the queue is empty, so a cancel is to come
            have empty := meets both.1 both.2 rfl
            have cancelling : s.cancels = true := by
              by_contra settled
              exact (watched.watched (Bool.eq_false_of_not_eq_true settled)).mp (.inl both.1) empty
            obtain ⟨-, clear⟩ := watched.cancelling cancelling
            refine ⟨fun _ => ⟨empty, clear⟩, fun settled => ?_, fun flag => ?_⟩
            · exact absurd (cancelling.symm.trans settled) nofun
            · exact absurd (clear.symm.trans flag) nofun
      · exact watched
  | handle =>
      rw [ReorderTimer.step]
      split
      · rename_i handler
        exact watched.handle handler (meets handler)
      · exact watched

/-- A step that does not meet it leaves the timer armed for nothing, or MPDUs without a timer. -/
theorem Watched.not_armed (op : ReorderStep) (watched : s.Watched) (fails : ¬op.Meets s) : ¬(s.step op).Armed := by
  cases op with
  | arrival frame => exact absurd trivial fails
  | cancel => exact absurd trivial fails
  | expire cannotRun =>
      simp only [ReorderStep.Meets, Classical.not_imp] at fails
      obtain ⟨armed, resting, rfl, some_⟩ := fails
      have settled : s.cancels = false := by
        by_contra cancelling
        exact some_ (watched.cancelling (Bool.eq_true_of_not_eq_false cancelling)).1
      intro still
      rw [ReorderTimer.step, if_pos ⟨armed, resting⟩] at still
      exact absurd ((still ⟨rfl, settled⟩).mpr some_) nofun
  | handle =>
      simp only [ReorderStep.Meets, Classical.not_imp, not_or, Bool.not_eq_false] at fails
      obtain ⟨handler, armed, some_, drains⟩ := fails
      have settled : s.cancels = false := by
        by_contra cancelling
        exact some_ (watched.cancelling (Bool.eq_true_of_not_eq_false cancelling)).1
      obtain ⟨done, cancels, -, fate⟩ := handle_cases s
      rcases fate with ⟨none_, -⟩ | ⟨-, leaves, -⟩ | ⟨-, -, empty, timer⟩
      · exact absurd none_ some_
      · exact absurd (drains.symm.trans leaves) nofun
      · intro still
        rw [ReorderTimer.step, if_pos handler] at still
        exact (still ⟨done, cancels.trans settled⟩).mp (timer.trans armed) empty

end ReorderTimer

/-- Along a run from the first MPDU on, the timer is armed exactly while MPDUs wait, if and only if no handler that may
not run finds MPDUs, and none that finds the timer armed again hands on all of them. -/
theorem timer_armed_iff (enable : Bool) (indicateSeq wsizeB : Nat) (ops : List ReorderStep) :
    (∀ done, done <+: ops → (along ReorderTimer.step (.start enable indicateSeq wsizeB) done).Armed) ↔
      ∀ done op, done ++ [op] <+: ops → op.Meets (along ReorderTimer.step (.start enable indicateSeq wsizeB) done) := by
  have first : (ReorderTimer.start enable indicateSeq wsizeB).Watched :=
    ⟨nofun, fun _ => by simp [ReorderTimer.start], nofun⟩
  have good (s : ReorderTimer) (watched : s.Watched) := watched.armed
  have keeps (s : ReorderTimer) (op : ReorderStep) (watched : s.Watched) := watched.step op
  have loses (s : ReorderTimer) (op : ReorderStep) (watched : s.Watched) := watched.not_armed op
  exact good_along_iff good keeps loses first ops

/-! ## Armed for nothing -/

/-- A timer that is armed for an empty queue arms itself again whenever it expires. -/
theorem rearms {s : ReorderTimer} (empty : s.ctrl.pendingRecvframeQueue = []) (armed : s.ctrl.reorderingCtrlTimer = true)
    (resting : s.handler = false) :
    ((s.step (.expire false)).step .handle).ctrl.reorderingCtrlTimer = true ∧
      ((s.step (.expire false)).step .handle).ctrl.pendingRecvframeQueue = [] := by
  rw [ReorderTimer.step, if_pos ⟨armed, resting⟩]
  obtain ⟨-, -, -, fate⟩ := handle_cases (s.expire false)
  rcases fate with ⟨-, none_, timer⟩ | ⟨some_, -⟩ | ⟨some_, -⟩
  · exact ⟨timer, none_⟩
  · exact absurd empty some_
  · exact absurd empty some_

/-- An MPDU with this number. -/
def mpdu (seqNum : Nat) : RecvFrame := ⟨seqNum, true, seqNum⟩

/-- A handler leaves 4 and arms the timer without the flag.  The timer expires, 5 comes before the next handler has the
lock and arms the timer again, and the handler hands on both. -/
theorem armed_for_nothing :
    ¬∀ done, done <+: [.arrival (mpdu 2), .arrival (mpdu 4), .expire false, .handle, .expire false, .arrival (mpdu 5), .handle] →
      (along ReorderTimer.step (.start true 0 64) done).Armed := by
  intro all
  exact absurd (all _ (List.prefix_refl _) ⟨by decide, by decide⟩) (by decide)

end Vmac.Recv
