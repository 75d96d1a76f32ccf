/-
# Vmac.Recv.PoolRun -- receive-frame descriptors are conserved

Each function of the pool that is given a descriptor puts it into a queue or frees it, on
every path (`Conserving (d :: held)` before, `Conserving held` after), with four
exceptions, which `PoolStep.spared` leaves out:

* a management frame that ends a set of fragments, or whose MIC is wrong, is freed by
  `recvframe_chk_defrag` and again by `recv_func_prehandle`;
* a frame put together from fragments that the reorder buffer refuses is lost, and its
  last fragment, freed already, is freed again;
* `fill_radiotap_hdr` drops the old `sk_buff` when it makes room;
* a `sta_info` record is used again while frames are in its queues: `rtw_free_stainfo`
  does not empty `defrag_q`.

`pool_conserved`: after every other run each descriptor is in one place.
-/
import Vmac.Recv.Conserve

namespace Vmac.Recv

open Theory.Placement

set_option autoImplicit false

/-! ## The reorder buffer keeps its frames -/

theorem enqueueReorderRecvframe_perm {frame : RecvFrame} {queue queue' : List RecvFrame}
    (enqueued : enqueueReorderRecvframe frame queue = some queue') :
    queue'.Perm (frame :: queue) := by
  induction queue generalizing queue' with
  | nil =>
      cases enqueued
      exact .refl _
  | cons next rest ih =>
      unfold enqueueReorderRecvframe at enqueued
      split at enqueued
      · obtain ⟨rest', inner, rfl⟩ := Option.map_eq_some_iff.mp enqueued
        exact ((ih inner).cons next).trans (.swap ..)
      · split at enqueued
        · cases enqueued
        · cases enqueued
          exact .refl _

theorem indicateLoop_append (indicateSeq : Nat) (queue : List RecvFrame) :
    (indicateLoop indicateSeq queue).handed ++ (indicateLoop indicateSeq queue).pending = queue := by
  induction queue generalizing indicateSeq with
  | nil => rfl
  | cons frame rest ih =>
      unfold indicateLoop
      split
      · rfl
      · exact congrArg (frame :: ·) (ih _)

theorem recvIndicatepktsInOrder_append (c : ReorderCtrl) (forced : Bool) :
    (recvIndicatepktsInOrder c forced).2.1 ++ (recvIndicatepktsInOrder c forced).1.pendingRecvframeQueue =
      c.pendingRecvframeQueue := by
  unfold recvIndicatepktsInOrder
  split
  · rfl
  · exact indicateLoop_append ..

@[simp] theorem checkIndicateSeq_pending (c : ReorderCtrl) (seqNum : Nat) :
    (checkIndicateSeq c seqNum).1.pendingRecvframeQueue = c.pendingRecvframeQueue := by
  unfold checkIndicateSeq
  dsimp only
  split_ifs <;> rfl

@[simp] theorem awaitReorder_pending (c : ReorderCtrl) (bPktInBuf : Bool) :
    (awaitReorder c bPktInBuf).pendingRecvframeQueue = c.pendingRecvframeQueue := by
  unfold awaitReorder
  split_ifs <;> rfl

/-- The frame is taken when it is handled, and else nothing moves. -/
theorem recvIndicatepktReorder_perm (c : ReorderCtrl) (frame : RecvFrame) :
    let r := recvIndicatepktReorder c frame
    if r.2.2 = .handled then (r.2.1 ++ r.1.pendingRecvframeQueue).Perm (frame :: c.pendingRecvframeQueue)
    else r.1.pendingRecvframeQueue = c.pendingRecvframeQueue := by
  intro r
  have moved := checkIndicateSeq_pending c frame.seqNum
  unfold r recvIndicatepktReorder
  split
  · simp
  split
  · rename_i c' checked
    rw [checked] at moved
    simpa using moved
  rename_i c' checked
  rw [checked] at moved
  split
  · simpa using moved
  rename_i queue enqueued
  have append := recvIndicatepktsInOrder_append { c' with pendingRecvframeQueue := queue } false
  simp only [if_true, awaitReorder_pending, append]
  exact moved ▸ enqueueReorderRecvframe_perm enqueued

theorem rtwReorderingCtrlTimeoutHandler_append (cannotRun : Bool) (c : ReorderCtrl) :
    (rtwReorderingCtrlTimeoutHandler cannotRun c).2 ++
      (rtwReorderingCtrlTimeoutHandler cannotRun c).1.pendingRecvframeQueue = c.pendingRecvframeQueue := by
  unfold rtwReorderingCtrlTimeoutHandler
  dsimp only
  split
  · rfl
  · split <;> exact recvIndicatepktsInOrder_append ..

/-! ## What is spared -/

namespace Pool

/-- The reorder buffer of the frame refuses it: too old, or there already. -/
def reorderRefuses (s : Pool) (d : Desc) : Bool :=
  match (s.hdr d).preorderCtrl with
  | none => false
  | some (sta, tid) =>
      (Recv.recvIndicatepktReorder (s.recvreorderCtrl sta tid) (s.recvFrame d)).2.2 == .fail

/-- The MIC of the frame is right, or it has none. -/
def micPasses (o : Outcomes) (s : Pool) (d : Desc) : Bool := !(s.hdr d).attrib.privacy || o.chkmic d

/-- Frame `d` ends a set of fragments, which is put together and then refused. -/
def refusedSet (o : Outcomes) (s : Pool) (d : Desc) : Bool :=
  let a := (s.hdr d).attrib
  o.decrypt d && !a.mfrag && a.fragNum != 0 &&
    match (defragQ o s d).map s.queue with
    | some (first :: rest) =>
        fragsInOrder s.hdr 0 (first :: rest ++ [d]) && micPasses o s first && o.portctrl first &&
          s.reorderRefuses first
    | _ => false

/-- No frame that waits for the key ends a set that is refused. -/
def drainSpared (o : Outcomes) (s : Pool) : List Desc → Bool
  | [] => true
  | d :: rest =>
      let s := s.rtwListDelete d
      !refusedSet o s d && drainSpared o (recvFuncPosthandle o s d) rest

/-- A management frame is not fragmented, or not the end of the set, and its MIC is right. -/
def mgntSpared (o : Outcomes) (d : Desc) (frame : RxPktAttrib) : Bool :=
  frame.ver != 0 || frame.type != .mgnt || frame.mfrag ||
    frame.fragNum == 0 && (!frame.privacy || o.chkmic d)

/-- The frame that `recv_func` gives to `recv_func_posthandle`. -/
def validatedSpared (o : Outcomes) (s : Pool) (d : Desc) : Bool :=
  if o.station && o.swdec d && o.wpaPsk && !o.busetkipkey then
    let s := s.rtwEnqueueRecvframe d .ucSwdec
    if s.freeRecvframeCnt < nrRecvframe / 4 then
      match s.rtwAllocRecvframe .ucSwdec with
      | (some d, s) => !refusedSet o s d
      | (none, _) => true
    else true
  else !refusedSet o s d

def recvFuncSpared (o : Outcomes) (s : Pool) (d : Desc) (frame : RxPktAttrib) : Bool :=
  if o.monitor then o.headroom || !o.realloc
  else
    (!(o.station && o.busetkipkey) || drainSpared o s (s.queue .ucSwdec)) && mgntSpared o d frame &&
      match recvFuncPrehandle o (recvFuncPending o s) d frame with
      | (s, .success) => validatedSpared o s d
      | _ => true

/-- The queues of a `sta_info` record are empty. -/
def staEmpty (s : Pool) (sta : Nat) : Bool :=
  (s.queue (.defrag sta)).isEmpty &&
    (List.finRange 16).all fun tid => (s.queue (.pending sta tid)).isEmpty

end Pool

/-- The step takes none of the four paths. -/
def PoolStep.spared (s : Pool) : PoolStep → Bool
  | .recv o packet =>
      match s.rtwAllocRecvframe .free with
      | (some d, s) =>
          packet.bad || !packet.skb || !packet.normalRx || packet.bmcSkip ||
            Pool.recvFuncSpared o (s.newSkb d) d packet.frame
      | (none, _) => true
  | .allocStainfo sta => s.hashed sta || s.staEmpty sta
  | _ => true

/-- The state after a run that spares the four paths. -/
inductive SparedRun : Pool → Prop where
  | init : SparedRun Pool.init
  | step {s : Pool} (run : SparedRun s) (step : PoolStep) (spared : step.spared s = true) :
      SparedRun (s.step step)

def PoolStep.allSpared (s : Pool) : List PoolStep → Bool
  | [] => true
  | step :: rest => step.spared s && allSpared (s.step step) rest

theorem SparedRun.run {s : Pool} (before : SparedRun s) {steps : List PoolStep}
    (spared : PoolStep.allSpared s steps = true) : SparedRun (s.run steps) := by
  induction steps generalizing s with
  | nil => exact before
  | cons step rest ih =>
      obtain ⟨first, others⟩ := Bool.and_eq_true_iff.mp spared
      exact ih (before.step step first) others

/-! ## Headers and pending queues stay -/

/-- What the reorder buffer reads is the same. -/
structure SameFrames (s t : Pool) : Prop where
  attrib : ∀ d, (t.hdr d).attrib = (s.hdr d).attrib
  preorderCtrl : ∀ d, (t.hdr d).preorderCtrl = (s.hdr d).preorderCtrl
  reorderCtrl : t.reorderCtrl = s.reorderCtrl
  pending : ∀ sta tid, t.queue (.pending sta tid) = s.queue (.pending sta tid)

namespace SameFrames

open Pool

variable {s t u : Pool} {d : Desc} {p : Place}

theorem refl (s : Pool) : SameFrames s s := ⟨fun _ => rfl, fun _ => rfl, rfl, fun _ _ => rfl⟩

theorem trans (first : SameFrames s t) (second : SameFrames t u) : SameFrames s u where
  attrib d := (second.attrib d).trans (first.attrib d)
  preorderCtrl d := (second.preorderCtrl d).trans (first.preorderCtrl d)
  reorderCtrl := second.reorderCtrl.trans first.reorderCtrl
  pending sta tid := (second.pending sta tid).trans (first.pending sta tid)

theorem settle (event : Nat → PoolEvent) (s : Pool) (d : Desc) : SameFrames s (s.settle event d) := by
  unfold Pool.settle
  split
  · exact .refl s
  · refine ⟨fun d' => ?_, fun d' => ?_, rfl, fun _ _ => rfl⟩ <;>
      by_cases same : d' = d <;> simp [same, Pool.setHdr]

theorem listDelete (absent : ∀ sta tid, d ∉ s.queue (.pending sta tid)) :
    SameFrames s (s.rtwListDelete d) where
  attrib _ := rfl
  preorderCtrl _ := rfl
  reorderCtrl := rfl
  pending sta tid := List.filter_eq_self.mpr fun _ inside =>
    decide_eq_true fun same => absent sta tid (same ▸ inside)

theorem insertTail (other : ∀ sta tid, p ≠ .pending sta tid) (s : Pool) (d : Desc) :
    SameFrames s (s.rtwListInsertTail p d) where
  attrib _ := rfl
  preorderCtrl _ := rfl
  reorderCtrl := rfl
  pending sta tid := Function.update_of_ne (other sta tid).symm ..

theorem free (absent : ∀ sta tid, d ∉ s.queue (.pending sta tid)) :
    SameFrames s (s.rtwFreeRecvframe d) := by
  have settled := SameFrames.settle .skbFree s d
  have absent' (sta : Nat) (tid : Fin 16) : d ∉ (s.settle .skbFree d).queue (.pending sta tid) := by
    rw [settle_queue]
    exact absent sta tid
  have inserted := SameFrames.insertTail (p := .free) nofun ((s.settle .skbFree d).rtwListDelete d) d
  obtain ⟨attrib, preorderCtrl, reorderCtrl, pending⟩ := (settled.trans (.listDelete absent')).trans inserted
  exact ⟨attrib, preorderCtrl, reorderCtrl, pending⟩

theorem freeEach {frames : List Desc}
    (absent : ∀ d ∈ frames, ∀ sta tid, d ∉ s.queue (.pending sta tid)) :
    SameFrames s (frames.foldl rtwFreeRecvframe s) := by
  induction frames generalizing s with
  | nil => exact .refl s
  | cons d rest ih =>
      have freed := SameFrames.free (absent d List.mem_cons_self)
      refine freed.trans (ih fun d' inside sta tid => ?_)
      rw [freed.pending]
      exact absent d' (List.mem_cons_of_mem d inside) sta tid

theorem recvFrame (same : SameFrames s t) : t.recvFrame = s.recvFrame := by
  funext d
  unfold Pool.recvFrame
  rw [same.attrib]

theorem reorderRefuses (same : SameFrames s t) (d : Desc) :
    t.reorderRefuses d = s.reorderRefuses d := by
  unfold Pool.reorderRefuses recvreorderCtrl
  simp only [same.preorderCtrl, same.reorderCtrl, same.pending, same.recvFrame]

end SameFrames

namespace Conserving

open Pool

variable {waiting held : List Desc} {s t : Pool} {d : Desc} {p : Place} (o : Outcomes)

/-! ## Queues of frames -/

theorem mem_free_of_ne {d' : Desc} (inside : d' ∈ s.queue p) (differ : d' ≠ d) (other : p ≠ .free) :
    d' ∈ (s.rtwFreeRecvframe d).queue p := by
  show d' ∈ append .free d (unlink d (s.rtwOsFreeRecvframe d).queue) p
  unfold append
  rw [Function.update_of_ne other, rtwOsFreeRecvframe, settle_queue]
  exact List.mem_filter.mpr ⟨inside, decide_eq_true differ⟩

theorem freeEach (inSta : p.InSta) {frames : List Desc} (nodup : frames.Nodup)
    (conserving : Conserving waiting held s) (inside : ∀ d ∈ frames, d ∈ s.queue p) :
    Conserving waiting held (frames.foldl rtwFreeRecvframe s) := by
  induction frames generalizing s with
  | nil => exact conserving
  | cons d rest ih =>
      have gone : d ∉ rest := (List.nodup_cons.mp nodup).1
      refine ih (List.nodup_cons.mp nodup).2
        (conserving.freeQueuedSta (inside d List.mem_cons_self) inSta) fun d' member => ?_
      refine mem_free_of_ne (inside d' (List.mem_cons_of_mem d member)) ?_ inSta.1
      rintro rfl
      exact gone member

/-- `rtw_free_recvframe_queue`. -/
theorem freeQueue (conserving : Conserving waiting held s) (inSta : p.InSta) :
    Conserving waiting held (s.rtwFreeRecvframeQueue p) :=
  freeEach inSta (conserving.placed.nodup p) conserving fun _ inside => inside

/-- `rtw_free_uc_swdec_pending_queue`. -/
theorem freeUc (conserving : Conserving waiting held s) :
    Conserving [] held (s.rtwFreeRecvframeQueue .ucSwdec) := by
  unfold rtwFreeRecvframeQueue
  rw [conserving.uc]
  induction waiting generalizing s with
  | nil => exact conserving
  | cons d rest ih =>
      refine ih ?_
      have inside : d ∈ s.queue .ucSwdec := conserving.uc ▸ List.mem_cons_self
      exact conserving.filter_cons ▸ conserving.freeQueued inside nofun

/-! ## Indication -/

theorem indicatepkt (conserving : Conserving waiting (d :: held) s) :
    Conserving waiting held (s.rtwRecvIndicatepkt d).1 := by
  unfold rtwRecvIndicatepkt
  split
  · exact conserving.freeHeld
  · exact (conserving.settle isEnd_skbUp d).freeHeld

theorem processMpdu (conserving : Conserving waiting (d :: held) s) :
    Conserving waiting held (recvProcessMpdu o s d).1 := by
  unfold recvProcessMpdu
  split_ifs
  · exact conserving.freeHeld
  · exact conserving.freeHeld
  · exact conserving.freeHeld
  · exact conserving.freeHeld
  · exact conserving.indicatepkt

theorem processHanded {handed : List RecvFrame}
    (conserving : Conserving waiting (handed.map RecvFrame.desc ++ held) s) :
    Conserving waiting held (processHanded o s handed) := by
  induction handed generalizing s with
  | nil => exact conserving
  | cons frame rest ih => exact ih (conserving.processMpdu o)

/-! ## The reorder buffer -/

@[simp] theorem map_desc_recvFrame (s : Pool) (queue : List Desc) :
    (queue.map s.recvFrame).map RecvFrame.desc = queue := by
  rw [List.map_map]
  exact List.map_id queue

theorem setReorderCtrl (xs ys : List Desc) {sta : Nat} {tid : Fin 16} {c : ReorderCtrl}
    (conserving : Conserving waiting (xs ++ held) s)
    (same : (ys ++ c.pendingRecvframeQueue.map RecvFrame.desc).Perm (xs ++ s.queue (.pending sta tid))) :
    Conserving waiting (ys ++ held) (s.setReorderCtrl sta tid c) :=
  (conserving.exchange xs ys (inSta_pending sta tid) same).congr rfl rfl rfl rfl fun _ => rfl

/-- The queue stays as it is. -/
theorem setReorderCtrl_same {sta : Nat} {tid : Fin 16} {c : ReorderCtrl} (conserving : Conserving waiting held s)
    (same : c.pendingRecvframeQueue = (s.queue (.pending sta tid)).map s.recvFrame) :
    Conserving waiting held (s.setReorderCtrl sta tid c) := by
  refine conserving.setReorderCtrl [] [] ?_
  rw [same, map_desc_recvFrame]

theorem setIseq (conserving : Conserving waiting held s) (d : Desc) (iseq : Nat → Nat) :
    Conserving waiting held (s.recvSetIseq d iseq) := by
  unfold recvSetIseq
  split
  · exact conserving
  · exact conserving.setReorderCtrl_same rfl

/-- `recv_indicatepkt_reorder` takes the frame when it is handled, and else leaves it in hand. -/
theorem reorder (conserving : Conserving waiting (d :: held) s) {ret : Ret}
    (step : Pool.recvIndicatepktReorder o s d = (t, ret)) :
    Conserving waiting (if ret = .handled then held else d :: held) t := by
  unfold Pool.recvIndicatepktReorder at step
  split at step
  · cases step
    exact conserving
  rename_i sta tid _
  have perm := recvIndicatepktReorder_perm (s.recvreorderCtrl sta tid) (s.recvFrame d)
  rcases moved : Recv.recvIndicatepktReorder (s.recvreorderCtrl sta tid) (s.recvFrame d)
    with ⟨c, handed, ret'⟩
  rw [moved] at perm step
  cases ret' with
  | handled =>
      cases step
      rw [conserving.listDelete_held List.mem_cons_self, if_pos rfl]
      refine Conserving.processHanded o (conserving.setReorderCtrl [d] (handed.map RecvFrame.desc) ?_)
      have desc := ((if_pos rfl).mp perm).map RecvFrame.desc
      rw [List.map_append, List.map_cons, recvreorderCtrl, map_desc_recvFrame] at desc
      exact desc
  | success =>
      cases step
      exact conserving.setReorderCtrl_same perm
  | fail =>
      cases step
      exact conserving.setReorderCtrl_same perm

theorem reorderRefuses_of_fail (fail : (Pool.recvIndicatepktReorder o s d).2 = .fail) :
    s.reorderRefuses d = true := by
  cases preorder : (s.hdr d).preorderCtrl with
  | none =>
      simp only [Pool.recvIndicatepktReorder, preorder] at fail
      cases fail
  | some ctrl =>
      obtain ⟨sta, tid⟩ := ctrl
      simp only [Pool.recvIndicatepktReorder, preorder] at fail
      simp only [Pool.reorderRefuses, preorder]
      split at fail
      · cases fail
      · rename_i c handed ret _ step
        obtain rfl : ret = .fail := fail
        simp [step]

/-! ## Defragmentation -/

theorem defragQ_defrag (defragQ_ : defragQ o s d = some p) : ∃ sta, p = .defrag sta := by
  unfold defragQ at defragQ_
  split at defragQ_
  · exact ⟨_, (Option.some.inj defragQ_).symm⟩
  · split at defragQ_
    · cases defragQ_
    · exact ⟨_, (Option.some.inj defragQ_).symm⟩

theorem checkMic {r : Option Desc × Pool} (conserving : Conserving waiting (r.1.toList ++ held) r.2) :
    Conserving waiting ((checkMic o r).1.toList ++ held) (checkMic o r).2 := by
  unfold Pool.checkMic
  split
  · split
    · exact conserving.freeHeld
    · exact conserving
  · exact conserving

theorem defrag (conserving : Conserving waiting held s) (inSta : p.InSta) :
    Conserving waiting ((s.recvframeDefrag p).1.toList ++ held) (s.recvframeDefrag p).2 := by
  unfold recvframeDefrag
  split
  · exact conserving
  · rename_i first rest queue
    have inside : first ∈ s.queue p := by
      rw [queue]
      exact List.mem_cons_self
    have taken := conserving.listDeleteSta inside inSta
    dsimp only
    split
    · exact taken.freeQueue inSta
    · exact taken.freeHeld.freeQueue inSta

/-- `recvframe_chk_defrag` frees or queues the frame, and has in hand what it returns. -/
theorem chkDefrag (conserving : Conserving waiting (d :: held) s) :
    Conserving waiting ((recvframeChkDefrag o s d).1.toList ++ held) (recvframeChkDefrag o s d).2 := by
  unfold recvframeChkDefrag
  dsimp only
  split
  · split
    · rename_i p defragQ_
      obtain ⟨sta, rfl⟩ := defragQ_defrag o defragQ_
      split
      · exact (conserving.freeQueue (inSta_defrag sta)).insertTail (inSta_defrag sta)
      · exact conserving.insertTail (inSta_defrag sta)
    · exact conserving.freeHeld
  · split
    · exact Conserving.checkMic o (r := (some d, s)) conserving
    · split
      · rename_i p defragQ_
        obtain ⟨sta, rfl⟩ := defragQ_defrag o defragQ_
        exact ((conserving.insertTail (inSta_defrag sta)).defrag (inSta_defrag sta)).checkMic o
      · exact conserving.freeHeld

theorem defrag_some {first : Desc} (step : s.recvframeDefrag p = (some first, t)) :
    ∃ rest, s.queue p = first :: rest ∧ fragsInOrder s.hdr 0 (first :: rest) = true ∧
      t = (s.rtwListDelete first).rtwFreeRecvframeQueue p := by
  unfold recvframeDefrag at step
  split at step
  · cases step
  · rename_i first' rest queue
    dsimp only at step
    split at step
    · rename_i inOrder
      cases step
      exact ⟨rest, queue, inOrder, rfl⟩
    · cases step

theorem checkMic_some {r : Option Desc × Pool} {first : Desc}
    (step : Pool.checkMic o r = (some first, t)) : r = (some first, t) ∧ micPasses o t first = true := by
  unfold Pool.checkMic at step
  split at step
  · split at step
    · cases step
    · rename_i passes
      cases step
      refine ⟨rfl, ?_⟩
      unfold micPasses
      revert passes
      cases (t.hdr first).attrib.privacy <;> cases o.chkmic first <;> decide
  · cases step

/-- Putting a set together touches no frame of a reorder buffer. -/
theorem defrag_sameFrames {first sta : Nat} (conserving : Conserving waiting held s)
    (inside : first ∈ s.queue (.defrag sta)) :
    SameFrames s ((s.rtwListDelete first).rtwFreeRecvframeQueue (.defrag sta)) := by
  have absent (d : Desc) (inside : d ∈ s.queue (.defrag sta)) (sta' : Nat) (tid : Fin 16) :
      d ∉ s.queue (.pending sta' tid) := conserving.placed.apart d (.defrag sta) (.pending sta' tid) nofun inside
  have taken := SameFrames.listDelete (absent first inside)
  refine taken.trans (SameFrames.freeEach fun d member sta' tid => ?_)
  rw [taken.pending]
  exact absent d (List.mem_of_mem_filter member) sta' tid

/-- A frame other than the one given ends a set of fragments. -/
theorem chkDefrag_other {first : Desc} (conserving : Conserving waiting (d :: held) s)
    (step : recvframeChkDefrag o s d = (some first, t)) (other : first ≠ d) :
    (s.hdr d).attrib.mfrag = false ∧ (s.hdr d).attrib.fragNum ≠ 0 ∧ SameFrames s t ∧
      ∃ rest, (defragQ o s d).map s.queue = some (first :: rest) ∧
        fragsInOrder s.hdr 0 (first :: rest ++ [d]) = true ∧ micPasses o s first = true := by
  unfold recvframeChkDefrag at step
  dsimp only at step
  split at step
  · split at step <;> cases step
  rename_i whole
  split at step
  · have same := (checkMic_some o step).1
    cases same
    exact absurd rfl other
  rename_i ending
  split at step
  · rename_i p defragQ_
    obtain ⟨sta, rfl⟩ := defragQ_defrag o defragQ_
    obtain ⟨step, passes⟩ := checkMic_some o step
    obtain ⟨rest, queue, inOrder, rfl⟩ := defrag_some step
    have queued := conserving.insertTail (inSta_defrag sta)
    have inside : first ∈ (s.rtwListInsertTail (.defrag sta) d).queue (.defrag sta) := by
      rw [queue]
      exact List.mem_cons_self
    have same := (SameFrames.insertTail (p := .defrag sta) nofun s d).trans (queued.defrag_sameFrames inside)
    refine ⟨by simpa using whole, ending, same, ?_⟩
    have passes' : micPasses o s first = true := by
      unfold micPasses at passes ⊢
      rwa [same.attrib] at passes
    have tail : s.queue (.defrag sta) ++ [d] = first :: rest := by
      rw [← queue]
      exact (Function.update_self (Place.defrag sta) _ s.queue).symm
    rw [defragQ_, Option.map_some]
    cases before : s.queue (.defrag sta) with
    | nil =>
        rw [before] at tail
        cases tail
        exact absurd rfl other
    | cons first' rest' =>
        rw [before] at tail
        obtain ⟨rfl, rfl⟩ := List.cons.inj tail
        exact ⟨rest', rfl, inOrder, passes'⟩
  · cases step

/-! ## recv_func -/

/-- `recv_func_posthandle`. -/
theorem posthandle (conserving : Conserving waiting (d :: held) s) (spared : refusedSet o s d = false) :
    Conserving waiting held (recvFuncPosthandle o s d) := by
  unfold recvFuncPosthandle
  split
  · exact conserving.freeHeld
  rename_i decrypted
  have checked := conserving.chkDefrag o
  rcases step : recvframeChkDefrag o s d with ⟨first, t⟩
  rw [step] at checked
  cases first with
  | none => exact checked
  | some first =>
      dsimp only at checked ⊢
      split
      · exact checked.freeHeld
      rename_i passed
      rcases reordered : Pool.recvIndicatepktReorder o t first with ⟨u, ret⟩
      have moved := checked.reorder o reordered
      cases ret with
      | success => exact ((moved.setIseq first _).processMpdu o).setIseq first _
      | handled => exact moved
      | fail =>
          by_cases same : first = d
          · rw [same] at moved
            exact moved.freeHeld
          · -- the last fragment, `d`, is free already
            obtain ⟨whole, ending, frames, rest, queue, inOrder, passes⟩ :=
              conserving.chkDefrag_other o step same
            have refuses := reorderRefuses_of_fail o (congrArg Prod.snd reordered)
            rw [frames.reorderRefuses] at refuses
            unfold refusedSet at spared
            rw [queue] at spared
            simp only [Bool.not_eq_true', Bool.not_eq_false] at decrypted passed
            rw [List.cons_append] at inOrder
            simp [whole, ending, inOrder, passes, refuses, decrypted, passed] at spared

/-- The frames that wait for the key. -/
theorem drain {frames : List Desc} (conserving : Conserving frames held s)
    (spared : drainSpared o s frames = true) : Conserving [] held (drainUcSwdec o s frames) := by
  induction frames generalizing s with
  | nil => exact conserving
  | cons d rest ih =>
      simp only [drainSpared, Bool.and_eq_true, Bool.not_eq_true'] at spared
      exact ih (conserving.takeUc.posthandle o spared.1) spared.2

theorem pendingFrames (conserving : Conserving waiting held s)
    (spared : (!(o.station && o.busetkipkey) || drainSpared o s (s.queue .ucSwdec)) = true) :
    ∃ waiting', Conserving waiting' held (recvFuncPending o s) := by
  unfold recvFuncPending
  split
  · rename_i keyed
    rw [keyed, Bool.not_true, Bool.false_or, conserving.uc] at spared
    rw [conserving.uc]
    exact ⟨[], conserving.drain o spared⟩
  · exact ⟨waiting, conserving⟩

/-- A management frame is in hand, or in the queue of a station, when it is freed. -/
theorem mgntFreed (conserving : Conserving waiting (d :: held) s)
    (type : (s.hdr d).attrib.type = .mgnt)
    (spared : ((s.hdr d).attrib.mfrag ||
      (s.hdr d).attrib.fragNum == 0 && (!(s.hdr d).attrib.privacy || o.chkmic d)) = true) :
    Conserving waiting held ((recvframeChkDefrag o s d).2.rtwFreeRecvframe d) := by
  have place : ∃ sta, defragQ o s d = some (.defrag sta) := by
    unfold defragQ
    split
    · exact ⟨_, rfl⟩
    · exact ⟨_, by rw [type]; rfl⟩
  obtain ⟨sta, place⟩ := place
  have queued {t : Pool} (conserving : Conserving waiting (d :: held) t) :
      Conserving waiting held ((t.rtwListInsertTail (.defrag sta) d).rtwFreeRecvframe d) := by
    refine (conserving.insertTail (inSta_defrag sta)).freeQueuedSta ?_ (inSta_defrag sta)
    show d ∈ append (Place.defrag sta) d t.queue (.defrag sta)
    unfold append
    rw [Function.update_self]
    exact List.mem_append_right _ List.mem_cons_self
  unfold recvframeChkDefrag
  dsimp only
  rw [place]
  split
  · dsimp only
    split
    · exact queued (conserving.freeQueue (inSta_defrag sta))
    · exact queued conserving
  · rename_i whole
    simp only [whole, Bool.false_or, Bool.and_eq_true, beq_iff_eq] at spared
    have passes : ((s.hdr d).attrib.privacy && !o.chkmic d) = false := by
      rcases spared with ⟨-, passes⟩
      revert passes
      cases (s.hdr d).attrib.privacy <;> cases o.chkmic d <;> decide
    rw [if_pos spared.1]
    simp only [Pool.checkMic, passes]
    exact conserving.freeHeld

/-- `validate_recv_frame`: what it does not return is in order to be freed. -/
theorem validate (conserving : Conserving waiting (d :: held) s) {frame : RxPktAttrib} {ret : Ret}
    (spared : mgntSpared o d frame = true) (step : validateRecvFrame o s d frame = (t, ret)) :
    if ret = .success then Conserving waiting (d :: held) t
    else Conserving waiting held (t.rtwFreeRecvframe d) := by
  unfold validateRecvFrame at step
  split at step
  · cases step
    exact conserving.freeHeld
  rename_i ver
  have parsed : Conserving waiting (d :: held) (s.setHdr d { s.hdr d with attrib := frame }) :=
    conserving.setHdr rfl
  dsimp only at step
  split at step
  · rename_i type
    cases step
    refine parsed.mgntFreed o ?_ ?_
    · simpa using type
    · have ver : frame.ver = 0 := by simpa using ver
      simpa [mgntSpared, ver, type] using spared
  · cases step
    exact parsed.freeHeld
  · unfold validateRecvDataFrame at step
    split at step
    · cases step
      exact parsed.freeHeld
    · cases step
      exact parsed.freeHeld
    · cases step
      exact parsed.setHdr rfl
  · cases step
    exact parsed.freeHeld

/-- `recv_func_prehandle`. -/
theorem prehandle (conserving : Conserving waiting (d :: held) s) {frame : RxPktAttrib} {ret : Ret}
    (spared : mgntSpared o d frame = true) (step : recvFuncPrehandle o s d frame = (t, ret)) :
    Conserving waiting (if ret = .success then d :: held else held) t := by
  unfold recvFuncPrehandle at step
  rcases validated : validateRecvFrame o s d frame with ⟨u, ret'⟩
  have left := conserving.validate o spared validated
  rw [validated] at step
  cases ret' with
  | success =>
      cases step
      exact left
  | fail =>
      cases step
      exact left
  | handled =>
      cases step
      exact left

/-- The validated frame waits for the key, or is handled. -/
theorem validated (conserving : Conserving waiting (d :: held) s) (spared : validatedSpared o s d = true) :
    ∃ waiting', Conserving waiting' held (recvFuncValidated o s d) := by
  unfold recvFuncValidated
  unfold validatedSpared at spared
  split
  · rename_i waits
    rw [if_pos waits] at spared
    have enqueued : Conserving (waiting ++ [d]) held (s.rtwEnqueueRecvframe d .ucSwdec) := by
      unfold rtwEnqueueRecvframe
      rw [conserving.listDelete_held List.mem_cons_self]
      exact conserving.insertTailUc
    dsimp only at spared ⊢
    split
    · rename_i few
      rw [if_pos few] at spared
      split
      · rename_i first t alloc
        rw [alloc] at spared
        obtain ⟨waiting', taken⟩ := enqueued.allocUc alloc
        exact ⟨waiting', taken.posthandle o (by simpa using spared)⟩
      · rename_i t alloc
        rw [alloc_none alloc]
        exact ⟨_, enqueued⟩
    · exact ⟨_, enqueued⟩
  · rename_i ready
    rw [if_neg ready] at spared
    exact ⟨waiting, conserving.posthandle o (by simpa using spared)⟩

/-- `recv_frame_monitor`, when no `sk_buff` is replaced. -/
theorem monitor (conserving : Conserving waiting (d :: held) s) (skb : (s.hdr d).pkt ≠ none)
    (spared : (o.headroom || !o.realloc) = true) : Conserving waiting held (recvFrameMonitor o s d) := by
  have isEnd : IsEnd (if o.isVmac then .skbUp else .skbFree) := by
    split
    · exact isEnd_skbUp
    · exact isEnd_skbFree
  have override : vmacOverride o s d =
      ((s.settle (if o.isVmac then .skbUp else .skbFree) d).rtwFreeRecvframe d, .success) := by
    unfold vmacOverride
    cases pkt : (s.hdr d).pkt with
    | none => exact absurd pkt skb
    | some k => rfl
  unfold recvFrameMonitor fillRadiotapHdr
  by_cases room : o.headroom = true
  · rw [if_pos room]
    dsimp only
    split
    · exact conserving.freeHeld
    · rw [override]
      exact (conserving.settle isEnd d).freeHeld
  · have room : o.headroom = false := by simpa using room
    have realloc : o.realloc = false := by simpa [room] using spared
    simp only [room, realloc]
    exact conserving.freeHeld

/-- `recv_func`. -/
theorem recvFrame (conserving : Conserving waiting (d :: held) s) (skb : (s.hdr d).pkt ≠ none)
    {frame : RxPktAttrib} (spared : recvFuncSpared o s d frame = true) :
    ∃ waiting', Conserving waiting' held (recvFunc o s d frame) := by
  unfold recvFunc
  unfold recvFuncSpared at spared
  split
  · rename_i monitor
    rw [if_pos monitor] at spared
    exact ⟨waiting, conserving.monitor o skb spared⟩
  rename_i managed
  rw [if_neg managed, Bool.and_eq_true, Bool.and_eq_true] at spared
  obtain ⟨⟨drained, mgnt⟩, validated⟩ := spared
  obtain ⟨waiting', pendings⟩ := conserving.pendingFrames o drained
  rcases step : recvFuncPrehandle o (recvFuncPending o s) d frame with ⟨t, ret⟩
  have checked := pendings.prehandle o mgnt step
  rw [step] at validated
  cases ret with
  | success => exact checked.validated o validated
  | fail => exact ⟨waiting', checked⟩
  | handled => exact ⟨waiting', checked⟩

/-! ## Steps -/

/-- `recvbuf2recvframe`. -/
theorem recvbuf (conserving : Conserving waiting held s) {packet : Arrival}
    (spared : (PoolStep.recv o packet).spared s = true) :
    ∃ waiting', Conserving waiting' held (recvbuf2recvframe o s packet) := by
  unfold recvbuf2recvframe
  simp only [PoolStep.spared] at spared
  split
  · rename_i t alloc
    rw [alloc_none alloc]
    exact ⟨waiting, conserving⟩
  rename_i d t alloc
  rw [alloc] at spared
  obtain ⟨taken, pkt⟩ := conserving.allocFree alloc
  split
  · exact ⟨waiting, taken.freeHeld⟩
  rename_i intact
  have filled := taken.newSkb pkt
  dsimp only
  split
  · exact ⟨waiting, filled.freeHeld⟩
  rename_i normal
  have skb : ((t.newSkb d).hdr d).pkt ≠ none := by simp [Pool.newSkb, Pool.setHdr]
  refine filled.recvFrame o skb ?_
  simp only [Bool.or_eq_true, not_or, Bool.not_eq_true, Bool.not_eq_false'] at intact normal
  simpa [intact, normal] using spared

theorem freeStainfo (conserving : Conserving waiting held s) (sta : Nat) :
    Conserving waiting held (s.rtwFreeStainfo sta) := by
  have each (tids : List (Fin 16)) {s : Pool} (conserving : Conserving waiting held s) :
      Conserving waiting held
        (tids.foldl (fun s tid => s.rtwFreeRecvframeQueue (.pending sta tid)) s) := by
    induction tids generalizing s with
    | nil => exact conserving
    | cons tid rest ih => exact ih (conserving.freeQueue (inSta_pending sta tid))
  exact each _ (conserving.congr rfl rfl rfl rfl fun _ => rfl)

theorem allocStainfo (conserving : Conserving waiting held s) {sta : Nat}
    (spared : (s.hashed sta || s.staEmpty sta) = true) :
    Conserving waiting held (s.rtwAllocStainfo sta) := by
  unfold rtwAllocStainfo
  split
  · exact conserving
  rename_i new
  have new : s.hashed sta = false := by simpa using new
  rw [new, Bool.false_or, staEmpty, Bool.and_eq_true, List.all_eq_true] at spared
  refine conserving.congr (funext fun p => ?_) rfl rfl rfl fun _ => rfl
  show (if ofSta sta p = true then [] else s.queue p) = s.queue p
  split
  · rename_i inside
    cases p with
    | free => cases inside
    | ucSwdec => cases inside
    | defrag sta' =>
        obtain rfl : sta' = sta := by simpa [ofSta] using inside
        exact (List.isEmpty_iff.mp spared.1).symm
    | pending sta' tid =>
        obtain rfl : sta' = sta := by simpa [ofSta] using inside
        exact (List.isEmpty_iff.mp (spared.2 tid (List.mem_finRange tid))).symm
  · rfl

theorem reorderTimeout (conserving : Conserving waiting held s) (cannotRun : Bool) (sta : Nat)
    (tid : Fin 16) :
    Conserving waiting held (Pool.rtwReorderingCtrlTimeoutHandler o cannotRun s sta tid) := by
  unfold Pool.rtwReorderingCtrlTimeoutHandler
  split
  · refine Conserving.processHanded o (conserving.setReorderCtrl [] _ ?_)
    have append := rtwReorderingCtrlTimeoutHandler_append cannotRun (s.recvreorderCtrl sta tid)
    have desc := congrArg (List.map RecvFrame.desc) append
    rw [List.map_append, recvreorderCtrl, map_desc_recvFrame] at desc
    exact .of_eq desc
  · exact conserving

/-- One step. -/
theorem poolStep (conserving : Conserving waiting [] s) {step : PoolStep}
    (spared : step.spared s = true) : ∃ waiting', Conserving waiting' [] (s.step step) := by
  cases step with
  | recv o packet => exact conserving.recvbuf o spared
  | freeStainfo sta => exact ⟨waiting, conserving.freeStainfo sta⟩
  | allocStainfo sta => exact ⟨waiting, conserving.allocStainfo spared⟩
  | agreement sta tid enable indicateSeq wsizeB =>
      exact ⟨waiting, conserving.congr rfl rfl rfl rfl fun _ => rfl⟩
  | reorderTimeout o cannotRun sta tid => exact ⟨waiting, conserving.reorderTimeout o cannotRun sta tid⟩
  | freeUcSwdec => exact ⟨[], conserving.freeUc⟩

end Conserving

/-! ## Runs -/

theorem init_free : Pool.init.queue .free = List.range nrRecvframe := by simp [Pool.init]

theorem init_queue {p : Place} (other : p ≠ .free) : Pool.init.queue p = [] := by
  simp [Pool.init, other]

theorem conserving_init : Conserving [] [] Pool.init where
  placed := by
    refine ⟨fun d p => ?_, fun d p p' other inside => ?_, fun d => ?_⟩
    · rw [List.count_nil, Nat.zero_add]
      apply List.nodup_iff_count_le_one.mp
      by_cases free : p = .free
      · rw [free, init_free]
        exact List.nodup_range
      · rw [init_queue free]
        exact List.nodup_nil
    · by_cases free : p = .free
      · rw [init_queue (free ▸ other.symm)]
        exact List.not_mem_nil
      · rw [init_queue free] at inside
        cases inside
    · constructor
      · intro small
        refine .inr ⟨.free, ?_⟩
        rw [init_free, List.mem_range]
        exact small
      · rintro (none_ | ⟨p, inside⟩)
        · cases none_
        · by_cases free : p = .free
          · rw [free, init_free, List.mem_range] at inside
            exact inside
          · rw [init_queue free] at inside
            cases inside
  uc := init_queue free_ne_ucSwdec.symm
  cnt := by
    rw [init_free, List.length_range]
    rfl
  balance d small := by
    have inside : d ∈ Pool.init.queue .free := by
      rw [init_free, List.mem_range]
      exact small
    rw [if_pos inside]
    rfl
  idle _ _ := rfl
  owned _ _ pkt := by cases pkt
  ended _ small := absurd small (Nat.not_lt_zero _)
  fresh _ _ := rfl

theorem SparedRun.conserving {s : Pool} (run : SparedRun s) : ∃ waiting, Conserving waiting [] s := by
  induction run with
  | init => exact ⟨[], conserving_init⟩
  | step run step spared ih =>
      obtain ⟨waiting, conserving⟩ := ih
      exact conserving.poolStep spared

/-- What is conserved: one place for each descriptor of the pool, the count of the free
queue, as many puts as takes, and one end for each `sk_buff` that left its descriptor. -/
structure Conserved (s : Pool) : Prop where
  place : ∀ d < nrRecvframe, ∃! p, d ∈ s.queue p
  once : ∀ p, (s.queue p).Nodup
  cnt : s.freeRecvframeCnt = (s.queue .free).length
  taken : ∀ d < nrRecvframe,
    s.log.count (.take d) = s.log.count (.put d) + if d ∈ s.queue .free then 0 else 1
  idle : ∀ d ∈ s.queue .free, (s.hdr d).pkt = none
  owned : ∀ d k, (s.hdr d).pkt = some k → ends s.log k = 0 ∧ ∀ d', (s.hdr d').pkt = some k → d' = d
  ended : ∀ k < s.nextSkb, (∀ d, (s.hdr d).pkt ≠ some k) → ends s.log k = 1

/-- After every run that spares the four paths, each descriptor is free, in one `defrag_q`,
in one reorder buffer, or waits for the key. -/
theorem pool_conserved {s : Pool} (run : SparedRun s) : Conserved s := by
  obtain ⟨waiting, conserving⟩ := run.conserving
  refine ⟨fun d small => conserving.placed.exactly_one small, conserving.placed.nodup, conserving.cnt,
    conserving.balance, conserving.idle, fun d k pkt => (conserving.owned d k pkt).2,
    fun k small left => ?_⟩
  exact (conserving.ended k small).resolve_right fun ⟨d, pkt⟩ => left d pkt

/-- A station that knows no key yet, and passes every check. -/
def keyless : Outcomes where
  monitor := false
  station := true
  busetkipkey := false
  wpaPsk := true
  headroom := true
  realloc := true
  isVmac := false
  cannotRun _ := false
  stainfo _ := some Pool.bcmcSta
  dataCheck _ := .success Pool.bcmcSta
  swdec _ := true
  decrypt _ := true
  chkmic _ := true
  portctrl _ := true
  wlanhdrToEthhdr _ := true
  indicatepktCheck _ := true

/-- A frame as the radio delivers it. -/
def arrival (type : FrameType) (mfrag : Bool) (fragNum : Fin 16) : Arrival :=
  ⟨⟨0, type, mfrag, fragNum, 7, true, true, 0, false, false⟩, false, true, true, false⟩

/-- A frame waits for the key; once it is there the frame, a first fragment, is queued,
and the last fragment ends the set. -/
theorem pool_conserved_fragments : Conserved (Pool.init.run
    [.recv keyless (arrival .data true 0),
     .recv { keyless with busetkipkey := true } (arrival .data false 1)]) :=
  pool_conserved (SparedRun.init.run (by decide +kernel))

/-- A frame that waits for the key is in none of the other queues.  The last fragment of a
management frame is freed twice: the free queue has 256 descriptors, and its count is 257. -/
theorem pool_not_conserved :
    (∀ p, p ≠ .ucSwdec →
      0 ∉ (Pool.init.run [.recv keyless (arrival .data false 0)]).queue p) ∧
    (Pool.init.run [.recv keyless (arrival .mgnt false 1)]).freeRecvframeCnt ≠
      ((Pool.init.run [.recv keyless (arrival .mgnt false 1)]).queue .free).length := by
  constructor
  · intro p other
    have run : SparedRun (Pool.init.run [.recv keyless (arrival .data false 0)]) :=
      SparedRun.init.run (by decide +kernel)
    obtain ⟨waiting, conserving⟩ := run.conserving
    exact conserving.placed.apart 0 .ucSwdec p other.symm (by decide +kernel)
  · decide +kernel

end Vmac.Recv
