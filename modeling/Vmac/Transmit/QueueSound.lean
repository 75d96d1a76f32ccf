/-
# Vmac.Transmit.QueueSound -- what the transmit queues agree on

What the queues, the rings, the counters and the frames have to do with each other, and that
every operation keeps it.

* `Sound`: the counts are the lengths, a ring has the stations with something pending, and every
  frame that came is in one queue or has left.
-/
import Mathlib.Tactic.Abel
import Vmac.Theory.Bitmap
import Vmac.Theory.Service
import Vmac.Transmit.Aggregate

namespace Vmac.Transmit

open Security Theory Theory.Service

set_option autoImplicit false

variable {S : Type} [DecidableEq S]

/-! ## Updates -/

namespace TxState

variable (s : TxState S) (psta : S)

@[simp] theorem setSta_self (sta : Sta S) : (s.setSta psta sta).sta psta = sta := Function.update_self ..

theorem setSta_of_ne {p : S} (sta : Sta S) (ne : p ≠ psta) : (s.setSta psta sta).sta p = s.sta p :=
  Function.update_of_ne ne ..

theorem servq_setSta {sta : Sta S} (same : sta.servq = (s.sta psta).servq) (p : S) (ac : Ac) :
    (s.setSta psta sta).servq p ac = s.servq p ac := by
  by_cases at_ : p = psta
  · subst at_
    simp [servq, same]
  · simp [servq, setSta_of_ne _ _ _ at_]

theorem servq_setServq (ac : Ac) (q : TxServq S) (p : S) (ac' : Ac) :
    (s.setServq psta ac q).servq p ac' = if p = psta ∧ ac' = ac then q else s.servq p ac' := by
  by_cases at_ : p = psta
  · subst at_
    by_cases same : ac' = ac
    · subst same
      simp [servq, setServq]
    · simp [servq, setServq, same]
  · simp [servq, setServq, setSta_of_ne _ _ _ at_, at_]

/-- The categories are served like this. -/
def service (ac : Ac) : Server S (XmitFrame S) where
  queue psta := s.pending psta ac
  count psta := (s.servq psta ac).qcnt
  ring := s.staQueue ac
  total := s.accnt ac

/-- A queue whose last frame was taken leaves the ring. -/
def settle (ac : Ac) : TxState S := if s.pending psta ac = [] then s.deleteTxPending psta ac else s

@[simp] theorem settle_sta (ac : Ac) : (s.settle psta ac).sta = s.sta := by
  simp only [settle]
  split <;> rfl

@[simp] theorem settle_hash (ac : Ac) : (s.settle psta ac).hash = s.hash := by
  simp only [settle]
  split <;> rfl

@[simp] theorem settle_arrived (ac : Ac) : (s.settle psta ac).arrived = s.arrived := by
  simp only [settle]
  split <;> rfl

@[simp] theorem settle_gone (ac : Ac) : (s.settle psta ac).gone = s.gone := by
  simp only [settle]
  split <;> rfl

@[simp] theorem pending_settle (ac : Ac) (p : S) (ac' : Ac) :
    (s.settle psta ac).pending p ac' = s.pending p ac' := by
  simp [pending, servq]

@[simp] theorem linked_setServq (ac : Ac) (q : TxServq S) (p : S) :
    ((s.setServq psta ac q).sta p).linked = (s.sta p).linked := by
  by_cases at_ : p = psta
  · simp [at_, setServq]
  · simp [setServq, setSta_of_ne _ _ _ at_]

@[simp] theorem sleepQ_setServq (ac : Ac) (q : TxServq S) (p : S) :
    ((s.setServq psta ac q).sta p).sleepQ = (s.sta p).sleepQ := by
  by_cases at_ : p = psta
  · simp [at_, setServq]
  · simp [setServq, setSta_of_ne _ _ _ at_]

theorem pending_setServq (ac : Ac) (q : TxServq S) (p : S) (ac' : Ac) :
    (s.setServq psta ac q).pending p ac' = if p = psta ∧ ac' = ac then q.staPending else s.pending p ac' := by
  simp only [pending, servq_setServq]
  split <;> rfl

/-- A frame comes to the category of its priority. -/
theorem service_insertTail (f : XmitFrame S) :
    (s.insertTail psta f).service f.ac = (s.service f.ac).push psta f := by
  refine Server.ext ?_ ?_ ?_ ?_
  · funext p
    by_cases at_ : p = psta
    · subst at_
      simp [service, insertTail, pending_setServq, Server.push]
      rfl
    · simp [service, insertTail, pending_setServq, Server.push, at_]
      rfl
  · funext p
    by_cases at_ : p = psta
    · subst at_
      simp [service, insertTail, servq_setServq, Server.push]
    · simp [service, insertTail, servq_setServq, Server.push, at_]
      rfl
  · simp [service, insertTail, Server.push, setServq, setSta]
    congr
  · simp [service, insertTail, Server.push, setServq, setSta]

/-- The other categories are as they were. -/
theorem service_insertTail_of_ne (f : XmitFrame S) {ac : Ac} (ne : ac ≠ f.ac) :
    (s.insertTail psta f).service ac = s.service ac := by
  refine Server.ext ?_ ?_ ?_ ?_
  · funext p
    simp [service, insertTail, pending_setServq, ne]
    rfl
  · funext p
    simp [service, insertTail, servq_setServq, ne]
    rfl
  · simp [service, insertTail, setServq, setSta, ne]
  · simp [service, insertTail, setServq, setSta, ne]

/-- Frames are taken out of a queue, and it leaves the ring when it is empty. -/
theorem service_takePending (ac : Ac) (left : List (XmitFrame S)) (n : Nat) :
    ((s.takePending psta ac left n).settle psta ac).service ac = (s.service ac).shrink psta left n := by
  have after : (s.takePending psta ac left n).pending psta ac = left := by
    simp [takePending, pending_setServq]
  refine Server.ext ?_ ?_ ?_ ?_
  · funext p
    by_cases at_ : p = psta
    · subst at_
      simp [service, after, Server.shrink]
    · simp [service, takePending, pending_setServq, Server.shrink, at_]
      rfl
  · funext p
    by_cases at_ : p = psta
    · subst at_
      simp [service, servq, takePending, setServq, Server.shrink]
    · simp [service, servq, takePending, setServq, setSta_of_ne _ _ _ at_, Server.shrink, at_]
  · simp only [service, settle, after, Server.shrink]
    split
    · simp [deleteTxPending, takePending, setServq, setSta]
    · simp [takePending, setServq, setSta]
  · simp only [service, settle, after, Server.shrink]
    split
    · simp [deleteTxPending, takePending, setServq, setSta]
    · simp [takePending, setServq, setSta]

theorem service_takePending_of_ne {ac ac' : Ac} (left : List (XmitFrame S)) (n : Nat) (ne : ac' ≠ ac) :
    ((s.takePending psta ac left n).settle psta ac).service ac' = s.service ac' := by
  have ring : ((s.takePending psta ac left n).settle psta ac).staQueue ac' = s.staQueue ac' := by
    simp only [settle]
    split
    · simp [deleteTxPending, takePending, setServq, setSta, ne]
    · simp [takePending, setServq, setSta]
  have total : ((s.takePending psta ac left n).settle psta ac).accnt ac' = s.accnt ac' := by
    simp only [settle]
    split
    · simp [deleteTxPending, takePending, setServq, setSta, ne]
    · simp [takePending, setServq, setSta, ne]
  refine Server.ext ?_ ?_ ring total
  · funext p
    simp [service, takePending, pending_setServq, ne]
    rfl
  · funext p
    have same : (s.takePending psta ac left n).servq p ac' = s.servq p ac' := by
      simp [takePending, servq_setServq, ne]
      rfl
    simpa [service, servq] using congrArg TxServq.qcnt same

/-- The station of a frame. -/
structure Owns (f : XmitFrame S) : Prop where
  owner : f.psta = some psta
  found : s.getStainfo f.attrib.ra = some psta
  linked : (s.sta psta).linked = true

omit [DecidableEq S] in
theorem Owns.congr {s s' : TxState S} {psta : S} {f f' : XmitFrame S} (owns : s.Owns psta f)
    (hash : s'.hash = s.hash) (linked : (s'.sta psta).linked = (s.sta psta).linked) (owner : f'.psta = f.psta)
    (ra : f'.attrib.ra = f.attrib.ra) : s'.Owns psta f' where
  owner := owner.trans owns.owner
  found := by
    rw [getStainfo, hash, ra]
    exact owns.found
  linked := linked.trans owns.linked

end TxState

/-! ## Frames -/

/-- The frames of a list, by their number. -/
def ids (frames : List (XmitFrame S)) : Multiset Nat := ↑(frames.map XmitFrame.id)

omit [DecidableEq S] in
@[simp] theorem ids_nil : ids ([] : List (XmitFrame S)) = 0 := rfl

omit [DecidableEq S] in
@[simp] theorem ids_cons (f : XmitFrame S) (frames : List (XmitFrame S)) :
    ids (f :: frames) = {f.id} + ids frames := rfl

omit [DecidableEq S] in
@[simp] theorem ids_append (frames frames' : List (XmitFrame S)) :
    ids (frames ++ frames') = ids frames + ids frames' := by
  simp [ids]

/-- The frames that a station has. -/
def Sta.held (sta : Sta S) : Multiset Nat := ids sta.sleepQ + ∑ ac, ids (sta.servq ac).staPending

omit [DecidableEq S] in
/-- A queue of the station is exchanged. -/
theorem Sta.held_update (sta : Sta S) (ac : Ac) (q : TxServq S) :
    Sta.held { sta with servq := Function.update sta.servq ac q } + ids (sta.servq ac).staPending =
      sta.held + ids q.staPending := by
  have updated (ac' : Ac) : ids (Function.update sta.servq ac q ac').staPending =
      Function.update (fun ac => ids (sta.servq ac).staPending) ac (ids q.staPending) ac' := by
    by_cases at_ : ac' = ac
    · subst at_
      simp
    · simp [at_]
  have categories := sum_update (fun ac => ids (sta.servq ac).staPending) ac (ids q.staPending)
  simp only [Sta.held, updated]
  rw [add_assoc, categories, add_assoc]

/-- The station's bit is set for a buffered frame of the category. -/
def Sta.told (sta : Sta S) (ac : Ac) : Bool :=
  (sta.hasLegacyAc && !(sta.uapsd ac &&& 1 != 0)) || (!sta.hasLegacyAc && sta.uapsd ac &&& 1 != 0)

namespace TxState

variable [Fintype S] (s : TxState S)

/-- The frames in the queues. -/
def held : Multiset Nat := ∑ psta, (s.sta psta).held

theorem held_setSta (psta : S) (sta : Sta S) : (s.setSta psta sta).held + (s.sta psta).held = s.held + sta.held := by
  have updated (p : S) : ((s.setSta psta sta).sta p).held =
      Function.update (fun p => (s.sta p).held) psta sta.held p := by
    by_cases at_ : p = psta
    · subst at_
      simp
    · simp [setSta_of_ne _ _ _ at_, at_]
  simp only [held, updated]
  exact sum_update (fun p => (s.sta p).held) psta sta.held

theorem held_setServq (psta : S) (ac : Ac) (q : TxServq S) :
    (s.setServq psta ac q).held + ids (s.pending psta ac) = s.held + ids q.staPending := by
  have stations := held_setSta s psta { s.sta psta with servq := Function.update (s.sta psta).servq ac q }
  have station := (s.sta psta).held_update ac q
  apply add_right_cancel (b := (s.sta psta).held)
  calc
    _ = (s.setServq psta ac q).held + (s.sta psta).held + ids (s.pending psta ac) := add_right_comm ..
    _ = s.held + (Sta.held { s.sta psta with servq := Function.update (s.sta psta).servq ac q } +
          ids (s.pending psta ac)) := by
      rw [setServq, stations, add_assoc]
    _ = s.held + ((s.sta psta).held + ids q.staPending) := congrArg (s.held + ·) station
    _ = _ := by abel

@[simp] theorem held_settle (psta : S) (ac : Ac) : (s.settle psta ac).held = s.held := by
  simp [held]

theorem held_insertTail (psta : S) (f : XmitFrame S) : (s.insertTail psta f).held = s.held + {f.id} := by
  have queue := held_setServq { s with
    staQueue := Function.update s.staQueue f.ac
      (if psta ∈ s.staQueue f.ac then s.staQueue f.ac else s.staQueue f.ac ++ [psta])
    accnt := Function.update s.accnt f.ac (s.accnt f.ac + 1) } psta f.ac
    ⟨(s.servq psta f.ac).qcnt + 1, (s.servq psta f.ac).staPending ++ [f]⟩
  rw [ids_append, ids_cons, ids_nil, add_zero, ← add_assoc, add_right_comm] at queue
  exact add_right_cancel queue

theorem held_takePending (psta : S) (ac : Ac) {taken left : List (XmitFrame S)} (n : Nat)
    (split : s.pending psta ac = taken ++ left) :
    (s.takePending psta ac left n).held + ids taken = s.held := by
  have queue := held_setServq { s with accnt := Function.update s.accnt ac (s.accnt ac - n) } psta ac
    ⟨(s.servq psta ac).qcnt - n, left⟩
  have before : TxState.pending { s with accnt := Function.update s.accnt ac (s.accnt ac - n) } psta ac =
      taken ++ left := split
  rw [before, ids_append, ← add_assoc] at queue
  exact add_right_cancel queue

/-! ## The invariant -/

/-- The counts are the lengths, the rings have who waits, every frame is where it belongs, and those
that came are in a queue, in hand or gone. -/
structure Sound (hand : Multiset Nat) (s : TxState S) : Prop where
  kept : ∀ ac, (s.service ac).Kept
  filed : ∀ psta ac, ∀ f ∈ s.pending psta ac, f.ac = ac ∧ s.Owns psta f
  asleep : ∀ psta, ∀ f ∈ (s.sta psta).sleepQ, s.Owns psta f
  placed : s.held + hand + ↑s.gone = (↑s.arrived : Multiset Nat)
  /-- A station has one address. -/
  apart : ∀ a b psta, s.hash a = some psta → s.hash b = some psta → a = b

namespace Sound

variable {s s' : TxState S} {hand hand' : Multiset Nat} {f : XmitFrame S} {psta : S} {ac : Ac}

omit [DecidableEq S] in
/-- What a step has to show when no station comes or goes. -/
theorem step (sound : Sound hand s) (hash : s'.hash = s.hash)
    (linked : ∀ p, (s'.sta p).linked = (s.sta p).linked) (kept : ∀ ac, (s'.service ac).Kept)
    (filed : ∀ p ac, ∀ f ∈ s'.pending p ac, f ∈ s.pending p ac ∨ f.ac = ac ∧ s.Owns p f)
    (asleep : ∀ p, ∀ f ∈ (s'.sta p).sleepQ, f ∈ (s.sta p).sleepQ ∨ s.Owns p f)
    (placed : s'.held + hand' + ↑s'.gone = s.held + hand + ↑s.gone) (arrived : s'.arrived = s.arrived) :
    Sound hand' s' := by
  refine ⟨kept, fun p ac f inside => ?_, fun p f inside => ?_, ?_, fun a b p => ?_⟩
  · rcases filed p ac f inside with before | ⟨category, owns⟩
    · obtain ⟨category, owns⟩ := sound.filed p ac f before
      exact ⟨category, owns.congr hash (linked p) rfl rfl⟩
    · exact ⟨category, owns.congr hash (linked p) rfl rfl⟩
  · rcases asleep p f inside with before | owns
    · exact (sound.asleep p f before).congr hash (linked p) rfl rfl
    · exact owns.congr hash (linked p) rfl rfl
  · rw [placed, arrived]
    exact sound.placed
  · rw [hash]
    exact sound.apart a b p

omit [DecidableEq S] in
/-- The bitmaps do not matter. -/
theorem bitmaps (sound : Sound hand s) (tim dz : UInt16) :
    Sound hand { s with timBitmap := tim, staDzBitmap := dz } :=
  sound.step rfl (fun _ => rfl) sound.kept (fun _ _ _ => .inl) (fun _ _ => .inl) rfl rfl

omit [DecidableEq S] in
/-- A frame in hand leaves. -/
theorem leave (sound : Sound ({f.id} + hand) s) : Sound hand (s.leave f) := by
  refine sound.step rfl (fun _ => rfl) sound.kept (fun _ _ _ => .inl) (fun _ _ => .inl) ?_ rfl
  show s.held + hand + ({f.id} + ↑s.gone) = _
  abel

/-- A station's sleep queue and its counters change; what is taken out is in hand. -/
theorem setSta (sound : Sound hand s) {sta : Sta S} (servq : sta.servq = (s.sta psta).servq)
    (linked : sta.linked = (s.sta psta).linked) (moved : ids sta.sleepQ + hand' = ids (s.sta psta).sleepQ + hand)
    (owned : ∀ f ∈ sta.sleepQ, s.Owns psta f) : Sound hand' (s.setSta psta sta) := by
  have queues (p : S) (ac : Ac) := servq_setSta s psta servq p ac
  refine sound.step rfl (fun p => ?_) (fun ac => ?_) (fun p ac f inside => .inl ?_) (fun p f inside => ?_) ?_ rfl
  · by_cases at_ : p = psta
    · rw [at_, setSta_self, linked]
    · rw [setSta_of_ne _ _ _ at_]
  · have same : (s.setSta psta sta).service ac = s.service ac := by
      simp only [service, pending, queues]
      rfl
    rw [same]
    exact sound.kept ac
  · simpa only [pending, queues] using inside
  · by_cases at_ : p = psta
    · subst at_
      rw [setSta_self] at inside
      exact .inr (owned f inside)
    · rw [setSta_of_ne _ _ _ at_] at inside
      exact .inl inside
  · have stations := held_setSta s psta sta
    have station : sta.held + hand' = (s.sta psta).held + hand := by
      rw [Sta.held, Sta.held, servq, add_right_comm, moved, add_right_comm]
    apply add_right_cancel (b := (s.sta psta).held)
    calc
      _ = (s.setSta psta sta).held + (s.sta psta).held + hand' + ↑s.gone := by
        show (s.setSta psta sta).held + hand' + ↑s.gone + _ = _
        abel
      _ = s.held + (sta.held + hand') + ↑s.gone := by rw [stations, add_assoc s.held]
      _ = _ := by
        rw [station]
        abel

/-- A station's sleep queue stays. -/
theorem retain (sound : Sound hand s) {sta : Sta S} (servq : sta.servq = (s.sta psta).servq)
    (linked : sta.linked = (s.sta psta).linked) (sleepQ : sta.sleepQ = (s.sta psta).sleepQ) :
    Sound hand (s.setSta psta sta) :=
  sound.setSta servq linked (by rw [sleepQ]) fun g inside => sound.asleep psta g (sleepQ ▸ inside)

/-- A frame in hand goes to the tail of its queue. -/
theorem insertTail (sound : Sound ({f.id} + hand) s) (owns : s.Owns psta f) : Sound hand (s.insertTail psta f) := by
  refine sound.step rfl (fun p => ?_) (fun ac => ?_) (fun p ac f' inside => ?_) (fun p f' inside => ?_) ?_ rfl
  · simp [TxState.insertTail]
  · by_cases at_ : ac = f.ac
    · rw [at_, service_insertTail]
      exact (sound.kept f.ac).push psta f
    · rw [service_insertTail_of_ne _ _ _ at_]
      exact sound.kept ac
  · simp only [TxState.insertTail, pending_setServq] at inside
    split at inside
    · rename_i here
      rcases List.mem_append.mp inside with before | last
      · exact .inl (here.1 ▸ here.2 ▸ before)
      · rw [List.mem_singleton.mp last]
        exact .inr ⟨here.2.symm, here.1 ▸ owns⟩
    · exact .inl inside
  · exact .inl (by simpa [TxState.insertTail] using inside)
  · rw [held_insertTail, add_assoc s.held]
    rfl

/-- A queue with nothing in it is not in the ring. -/
theorem settle (sound : Sound hand s) (psta : S) (ac : Ac) : Sound hand (s.settle psta ac) := by
  have same : s.settle psta ac = s := by
    unfold TxState.settle
    split
    · rename_i nothing
      have outside : psta ∉ s.staQueue ac := fun inside => (sound.kept ac).waiting inside nothing
      rw [deleteTxPending, List.erase_of_not_mem outside, Function.update_eq_self]
    · rfl
  rwa [same]

/-- The head of a queue is taken. -/
theorem takePending (sound : Sound hand (s.settle psta ac)) {left : List (XmitFrame S)}
    (head : s.pending psta ac = f :: left) :
    Sound ({f.id} + hand) ((s.takePending psta ac left 1).settle psta ac) := by
  have settled : s.settle psta ac = s := if_neg (by simp [head])
  rw [settled] at sound
  refine sound.step (by simp [TxState.takePending, setServq, TxState.setSta]) (fun p => ?_) (fun ac' => ?_)
    (fun p ac' f' inside => .inl ?_) (fun p f' inside => .inl ?_) ?_ ?_
  · simp [TxState.takePending]
  · by_cases at_ : ac' = ac
    · rw [at_, service_takePending]
      exact (sound.kept ac).shrink psta (by simp [service, head, Nat.add_comm])
    · rw [service_takePending_of_ne _ _ _ _ at_]
      exact sound.kept ac'
  · simp only [pending_settle, TxState.takePending, pending_setServq] at inside
    split at inside
    · rename_i here
      rw [here.1, here.2, head]
      exact List.mem_cons_of_mem _ inside
    · exact inside
  · simpa [TxState.takePending] using inside
  · have queue : (s.takePending psta ac left 1).held + ids [f] = s.held := held_takePending s psta ac 1 head
    rw [held_settle, settle_gone, ← queue, ids_cons, ids_nil, add_zero, ← add_assoc]
    rfl
  · simp [TxState.takePending, setServq, TxState.setSta]

end Sound

variable {s s' : TxState S} {hand : Multiset Nat} {f : XmitFrame S} {psta : S} {ac : Ac}

/-! ## Classifier and dequeuer -/

omit [Fintype S] in
theorem xmitClassifier_some (classified : s.xmitClassifier f = some s') :
    ∃ psta, s.Owns psta f ∧ s' = s.insertTail psta f := by
  simp only [xmitClassifier] at classified
  split at classified
  · exact nomatch classified
  · rename_i owner
    split at classified
    · exact nomatch classified
    · rename_i psta found
      split at classified
      · rename_i linked
        exact ⟨psta, ⟨(not_not.mp owner).trans found, found, linked⟩, (Option.some.inj classified).symm⟩
      · exact nomatch classified

/-- A frame in hand is queued or freed. -/
theorem Sound.halXmitframeEnqueue (sound : Sound ({f.id} + hand) s) : Sound hand (s.halXmitframeEnqueue f) := by
  unfold TxState.halXmitframeEnqueue
  cases classified : s.xmitClassifier f with
  | none => exact sound.leave
  | some s' =>
      obtain ⟨psta, owns, rfl⟩ := xmitClassifier_some classified
      exact sound.insertTail owns

omit [Fintype S] in
/-- Queueing a frame changes nothing at a station but its queues. -/
theorem sta_halXmitframeEnqueue (p : S) :
    (s.halXmitframeEnqueue f).sta p = { s.sta p with servq := ((s.halXmitframeEnqueue f).sta p).servq } := by
  unfold halXmitframeEnqueue
  cases classified : s.xmitClassifier f with
  | none => rfl
  | some s' =>
      obtain ⟨psta, -, rfl⟩ := xmitClassifier_some classified
      by_cases at_ : p = psta
      · simp [at_, insertTail, setServq]
      · simp [insertTail, setServq, setSta_of_ne _ _ _ at_]

omit [Fintype S] in
@[simp] theorem sleepQ_halXmitframeEnqueue (p : S) :
    ((s.halXmitframeEnqueue f).sta p).sleepQ = (s.sta p).sleepQ :=
  by
  rw [sta_halXmitframeEnqueue]

omit [Fintype S] in
/-- What is left of a queue says whether it is in the ring. -/
theorem settle_takePending (left : List (XmitFrame S)) :
    (if left = [] then (s.takePending psta ac left 1).deleteTxPending psta ac else s.takePending psta ac left 1) =
      (s.takePending psta ac left 1).settle psta ac := by
  simp [TxState.settle, TxState.takePending, pending_setServq]

omit [Fintype S] in
theorem dequeueFrom_some {ring : List S} (dequeued : s.dequeueFrom ac ring = some (f, s')) :
    ∃ psta ∈ ring, ∃ left, s.pending psta ac = f :: left ∧ s' = (s.takePending psta ac left 1).settle psta ac := by
  induction ring with
  | nil => exact nomatch dequeued
  | cons psta ring ih =>
      simp only [dequeueFrom] at dequeued
      split at dequeued
      · obtain ⟨psta, inside, found⟩ := ih dequeued
        exact ⟨psta, List.mem_cons_of_mem _ inside, found⟩
      · rename_i f left head
        rw [settle_takePending] at dequeued
        obtain ⟨rfl, rfl⟩ := Prod.mk.inj (Option.some.inj dequeued)
        exact ⟨psta, List.mem_cons_self .., left, head, rfl⟩

omit [Fintype S] in
theorem dequeueXframe_some {inx : List Ac} (dequeued : s.dequeueXframe inx = some (f, s')) :
    ∃ ac ∈ inx, ∃ psta left, s.pending psta ac = f :: left ∧ s' = (s.takePending psta ac left 1).settle psta ac := by
  obtain ⟨ac, inside, dequeued⟩ := List.exists_of_findSome?_eq_some dequeued
  obtain ⟨psta, -, left, taken⟩ := dequeueFrom_some dequeued
  exact ⟨ac, inside, psta, left, taken⟩

/-- The frame that is dequeued is in hand. -/
theorem Sound.dequeueXframe (sound : Sound hand s) {inx : List Ac}
    (dequeued : s.dequeueXframe inx = some (f, s')) : Sound ({f.id} + hand) s' := by
  obtain ⟨ac, -, psta, left, head, rfl⟩ := dequeueXframe_some dequeued
  exact (sound.settle psta ac).takePending head

/-! ## Sleep queues -/

/-- A frame for a group is buffered. -/
def bufferGroup (s : TxState S) (psta : S) (f : XmitFrame S) : TxState S :=
  { s.setSta psta { s.sta psta with
      sleepQ := (s.sta psta).sleepQ ++ [f]
      sleepqLen := (s.sta psta).sleepqLen + 1 } with
    timBitmap := s.timBitmap ||| s.bit 0
    staDzBitmap := s.staDzBitmap ||| s.bit 0 }

/-- A frame for one station is buffered. -/
def bufferFrame (s : TxState S) (psta : S) (f : XmitFrame S) : TxState S :=
  { s.setSta psta { s.sta psta with
      sleepQ := (s.sta psta).sleepQ ++ [f]
      sleepqLen := (s.sta psta).sleepqLen + 1
      sleepqAcLen :=
        if (s.sta psta).uapsd f.ac &&& 1 != 0 then (s.sta psta).sleepqAcLen + 1 else (s.sta psta).sleepqAcLen } with
    timBitmap := if (s.sta psta).told f.ac then s.timBitmap ||| s.bit (s.sta psta).aid else s.timBitmap }

omit [Fintype S] in
/-- All that buffering a frame may do. -/
theorem enqueueForSleepingSta_some (buffered : s.enqueueForSleepingSta f = some s') :
    ∃ psta, s.Owns psta f ∧ f.triggered = false ∧
      ((isMcast f.attrib.ra ∧ s.staDzBitmap ≠ 0 ∧ s' = s.bufferGroup psta f) ∨
        (isMcast f.attrib.ra = false ∧ (s.sta psta).sleeping ∧ s.staDzBitmap &&& s.bit (s.sta psta).aid ≠ 0 ∧
          s' = s.bufferFrame psta f)) := by
  simp only [enqueueForSleepingSta] at buffered
  split at buffered
  · exact nomatch buffered
  rename_i owner
  split at buffered
  · exact nomatch buffered
  rename_i psta found
  split at buffered
  · exact nomatch buffered
  rename_i linked
  split at buffered
  · exact nomatch buffered
  rename_i fresh
  refine ⟨psta, ⟨(not_not.mp owner).trans found, found, by simpa using linked⟩, by simpa using fresh, ?_⟩
  split at buffered
  · rename_i group
    split at buffered
    · exact nomatch buffered
    · rename_i asleep
      exact .inl ⟨group, asleep, (Option.some.inj buffered).symm⟩
  · rename_i single
    split at buffered
    · exact nomatch buffered
    rename_i sleeping
    split at buffered
    · exact nomatch buffered
    rename_i marked
    refine .inr ⟨by simpa using single, by simpa using sleeping, marked, ?_⟩
    rw [← Option.some.inj buffered, bufferFrame, Sta.told]
    split <;> rfl

omit [DecidableEq S] [Fintype S] in
theorem Owns.trigger (owns : s.Owns psta f) (mdata eosp : Bool) : s.Owns psta (f.trigger mdata eosp) :=
  owns.congr rfl rfl rfl rfl

namespace Sound

/-- A frame in hand is buffered. -/
theorem enqueueForSleepingSta (sound : Sound ({f.id} + hand) s) (buffered : s.enqueueForSleepingSta f = some s') :
    Sound hand s' := by
  obtain ⟨psta, owns, -, which⟩ := enqueueForSleepingSta_some buffered
  have owned : ∀ g ∈ (s.sta psta).sleepQ ++ [f], s.Owns psta g := by
    intro g inside
    rcases List.mem_append.mp inside with before | last
    · exact sound.asleep psta g before
    · rwa [List.mem_singleton.mp last]
  have moved : ids ((s.sta psta).sleepQ ++ [f]) + hand = ids (s.sta psta).sleepQ + ({f.id} + hand) := by
    simp [add_assoc]
  rcases which with ⟨-, -, rfl⟩ | ⟨-, -, -, rfl⟩
  · refine (sound.setSta ?_ ?_ moved owned).bitmaps .. <;> rfl
  · refine (sound.setSta ?_ ?_ moved owned).bitmaps .. <;> rfl

/-- The head of a sleep queue, or another frame of it, is taken. -/
theorem wake (sound : Sound hand s) (stay : List (XmitFrame S)) {later : List (XmitFrame S)}
    (inside : (s.sta psta).sleepQ = stay ++ f :: later) {sta : Sta S} (servq : sta.servq = (s.sta psta).servq)
    (linked : sta.linked = (s.sta psta).linked) (left : sta.sleepQ = stay ++ later) :
    Sound ({f.id} + hand) (s.setSta psta sta) := by
  refine sound.setSta servq linked ?_ fun g member => sound.asleep psta g ?_
  · rw [left, inside, ids_append, ids_append, ids_cons]
    abel
  · rw [left] at member
    rw [inside]
    rcases List.mem_append.mp member with before | after
    · exact List.mem_append_left _ before
    · exact List.mem_append_right _ (List.mem_cons_of_mem _ after)

/-- A frame of a sleep queue is handed on. -/
theorem deliver (sound : Sound hand s) (stay : List (XmitFrame S)) {later : List (XmitFrame S)}
    (inside : (s.sta psta).sleepQ = stay ++ f :: later) {sta : Sta S} (servq : sta.servq = (s.sta psta).servq)
    (linked : sta.linked = (s.sta psta).linked) (left : sta.sleepQ = stay ++ later) (mdata eosp : Bool) :
    Sound hand ((s.setSta psta sta).halXmitframeEnqueue (f.trigger mdata eosp)) :=
  Sound.halXmitframeEnqueue (f := f.trigger mdata eosp) (sound.wake stay inside servq linked left)

theorem wakeupLoop (sound : Sound hand s) {frames : List (XmitFrame S)} (all : (s.sta psta).sleepQ = frames) :
    Sound hand (s.wakeupLoop psta frames) := by
  induction frames generalizing s with
  | nil => exact sound
  | cons f later ih =>
      simp only [TxState.wakeupLoop]
      refine ih ?_ (by simp)
      split
      · refine sound.deliver [] all ?_ ?_ ?_ .. <;> rfl
      · refine sound.deliver [] all ?_ ?_ ?_ .. <;> rfl

theorem wakeupBmcLoop (sound : Sound hand s) {frames : List (XmitFrame S)} (all : (s.sta psta).sleepQ = frames) :
    Sound hand (s.wakeupBmcLoop psta frames) := by
  induction frames generalizing s with
  | nil => exact sound
  | cons f later ih =>
      simp only [TxState.wakeupBmcLoop]
      refine ih ?_ (by simp)
      refine sound.deliver [] all ?_ ?_ ?_ .. <;> rfl

theorem wakeupSta (sound : Sound hand s) (psta : S) : Sound hand (s.wakeupSta psta) := by
  have woken := @wakeupLoop S _ _ s hand psta sound _ rfl
  simp only [TxState.wakeupSta]
  split
  · refine (woken.retain ?_ ?_ ?_).bitmaps .. <;> rfl
  · exact woken

theorem wakeupBmc (sound : Sound hand s) : Sound hand s.wakeupBmc := by
  simp only [TxState.wakeupBmc]
  split
  · exact sound
  rename_i bmc _
  have woken := @wakeupBmcLoop S _ _ s hand bmc sound _ rfl
  split
  · split
    · exact woken.bitmaps ..
    · exact woken
  · exact sound

theorem wakeupStaToXmit (sound : Sound hand s) (psta : S) : Sound hand (s.wakeupStaToXmit psta) :=
  (sound.wakeupSta psta).wakeupBmc

theorem deliveryLoop (sound : Sound hand s) {stay frames : List (XmitFrame S)}
    (all : (s.sta psta).sleepQ = stay ++ frames) : Sound hand (s.deliveryLoop psta stay frames) := by
  induction frames generalizing s stay with
  | nil => exact sound
  | cons f later ih =>
      simp only [TxState.deliveryLoop]
      split
      · exact ih sound (by simpa using all)
      · refine ih ?_ ?_
        · split
          · refine (sound.deliver stay all ?_ ?_ ?_ ..).bitmaps .. <;> rfl
          · refine sound.deliver stay all ?_ ?_ ?_ .. <;> rfl
        · split <;> simp

theorem processWmmpsData (sound : Sound hand s) (psta : S) (priority : UInt8) :
    Sound hand (s.processWmmpsData psta priority) := by
  simp only [TxState.processWmmpsData]
  split
  · exact sound.deliveryLoop rfl
  · exact sound

theorem validateRecvPspoll (sound : Sound hand s) (psta : S) (priority : UInt8) (aid : Nat) :
    Sound hand (s.validateRecvPspoll psta priority aid) := by
  simp only [TxState.validateRecvPspoll]
  split
  · exact sound
  split
  · exact sound
  split
  · split
    · rename_i f later head
      have delivered := @deliver S _ _ s hand f psta sound [] later head
        { s.sta psta with sleepQ := later, sleepqLen := (s.sta psta).sleepqLen - 1 } rfl rfl rfl
        (0 < (s.sta psta).sleepqLen - 1) f.attrib.eosp
      split
      · exact delivered.bitmaps ..
      · exact delivered
    · split
      · exact sound
      · refine (sound.retain ?_ ?_ ?_).bitmaps .. <;> rfl
  · exact sound

end Sound

/-! ## Falling asleep -/

/-- Nobody wakes up, and nobody gets another number. -/
structure Lasting (s s' : TxState S) : Prop where
  hash : s'.hash = s.hash
  overshift : s'.overshift = s.overshift
  sleeping : ∀ psta, (s'.sta psta).sleeping = (s.sta psta).sleeping
  aid : ∀ psta, (s'.sta psta).aid = (s.sta psta).aid
  asleep : ∀ m, s.staDzBitmap &&& m ≠ 0 → s'.staDzBitmap &&& m ≠ 0

omit [DecidableEq S] [Fintype S] in
theorem Lasting.refl (s : TxState S) : s.Lasting s := ⟨rfl, rfl, fun _ => rfl, fun _ => rfl, fun _ => id⟩

omit [DecidableEq S] [Fintype S] in
theorem Lasting.trans {s₁ : TxState S} (lasting : s.Lasting s₁) (lasting' : s₁.Lasting s') : s.Lasting s' where
  hash := lasting'.hash.trans lasting.hash
  overshift := lasting'.overshift.trans lasting.overshift
  sleeping p := (lasting'.sleeping p).trans (lasting.sleeping p)
  aid p := (lasting'.aid p).trans (lasting.aid p)
  asleep m := lasting'.asleep m ∘ lasting.asleep m

omit [Fintype S] in
theorem Lasting.setSta {sta : Sta S} (sleeping : sta.sleeping = (s.sta psta).sleeping)
    (aid : sta.aid = (s.sta psta).aid) (tim b : UInt16) :
    s.Lasting { s.setSta psta sta with timBitmap := tim, staDzBitmap := s.staDzBitmap ||| b } where
  hash := rfl
  overshift := rfl
  sleeping p := by
    by_cases at_ : p = psta
    · simp [at_, sleeping]
    · simp [setSta_of_ne _ _ _ at_]
  aid p := by
    by_cases at_ : p = psta
    · simp [at_, aid]
    · simp [setSta_of_ne _ _ _ at_]
  asleep m inside outside := by
    refine Bitmap.or_and_ne_zero b.toBitVec (fun none_ => inside ?_) (congrArg UInt16.toBitVec outside)
    exact UInt16.toBitVec_inj.mp none_

omit [Fintype S] in
theorem Lasting.setServq (s : TxState S) (psta : S) (ac : Ac) (q : TxServq S) : s.Lasting (s.setServq psta ac q) := by
  have lasting := @Lasting.setSta S _ s psta { s.sta psta with servq := Function.update (s.sta psta).servq ac q }
    rfl rfl s.timBitmap 0
  rwa [UInt16.or_zero] at lasting

omit [DecidableEq S] [Fintype S] in
/-- Rings and counts do not matter. -/
theorem Lasting.rings (lasting : s.Lasting s') (staQueue : Ac → List S) (accnt : Ac → Int) :
    s.Lasting { s' with staQueue := staQueue, accnt := accnt } :=
  ⟨lasting.hash, lasting.overshift, lasting.sleeping, lasting.aid, lasting.asleep⟩

/-- Whatever comes for the station is buffered. -/
def Buffers (s : TxState S) (psta : S) : Prop :=
  (s.getBcmcStainfo = some psta ∧ s.staDzBitmap ≠ 0) ∨
    (s.getBcmcStainfo ≠ some psta ∧ (s.sta psta).sleeping = true ∧ s.staDzBitmap &&& s.bit (s.sta psta).aid ≠ 0)

omit [DecidableEq S] [Fintype S] in
/-- A group's frames are those of the group's record. -/
theorem Owns.group_iff (owns : s.Owns psta f) (apart : ∀ a b p, s.hash a = some p → s.hash b = some p → a = b) :
    isMcast f.attrib.ra = true ↔ s.getBcmcStainfo = some psta := by
  have found := owns.found
  unfold getStainfo staAddr at found
  constructor
  · intro group
    rwa [if_pos group] at found
  · intro record
    by_contra single
    rw [if_neg single] at found
    have same : f.attrib.ra = bcAddr := apart _ _ psta found record
    rw [same] at single
    exact single (by decide)

omit [DecidableEq S] [Fintype S] in
theorem Buffers.lasting (buffers : s.Buffers psta) (lasting : s.Lasting s') : s'.Buffers psta := by
  have record : s'.getBcmcStainfo = s.getBcmcStainfo := by rw [getBcmcStainfo, lasting.hash, getBcmcStainfo]
  rcases buffers with ⟨group, marked⟩ | ⟨other, sleeping, marked⟩
  · refine .inl ⟨record.trans group, fun none_ => lasting.asleep s.staDzBitmap (by simpa using marked) ?_⟩
    rw [none_, UInt16.zero_and]
  · refine .inr ⟨record ▸ other, (lasting.sleeping psta).trans sleeping, ?_⟩
    rw [lasting.aid, bit, lasting.overshift]
    exact lasting.asleep _ marked

omit [Fintype S] in
/-- Whatever comes is buffered. -/
theorem Buffers.enqueue (buffers : s.Buffers psta) (owns : s.Owns psta f) (fresh : f.triggered = false)
    (group : isMcast f.attrib.ra = true ↔ s.getBcmcStainfo = some psta) :
    ∃ s', s.enqueueForSleepingSta f = some s' := by
  rcases buffers with ⟨record, marked⟩ | ⟨other, sleeping, marked⟩
  · simp [enqueueForSleepingSta, owns.owner, owns.found, owns.linked, fresh, group.mpr record, marked]
  · have single : isMcast f.attrib.ra = false := by
      rw [← Bool.not_eq_true, group]
      exact other
    simp [enqueueForSleepingSta, owns.owner, owns.found, owns.linked, fresh, single, sleeping, marked]

/-- The state while the queue is gone through, as if the frames that have moved were out of it. -/
def during (s : TxState S) (psta : S) (ac : Ac) (frames : List (XmitFrame S)) : TxState S :=
  (s.setServq psta ac ⟨(s.servq psta ac).qcnt, frames⟩).settle psta ac

/-- A frame has moved. -/
def moved (s : TxState S) (psta : S) (ac : Ac) : TxState S :=
  { s with accnt := Function.update s.accnt ac (s.accnt ac - 1) }.setServq psta ac
    ⟨(s.servq psta ac).qcnt - 1, (s.servq psta ac).staPending⟩

omit [Fintype S] in
theorem during_moved (f : XmitFrame S) {later : List (XmitFrame S)} {sta : Sta S} (servq : sta.servq = (s.sta psta).servq)
    (tim dz : UInt16) :
    ({ s.setSta psta sta with timBitmap := tim, staDzBitmap := dz }.moved psta ac).during psta ac later =
      { (((s.setServq psta ac ⟨(s.servq psta ac).qcnt, f :: later⟩).takePending psta ac later 1).settle psta ac).setSta
          psta { sta with servq := Function.update sta.servq ac ⟨(s.servq psta ac).qcnt - 1, later⟩ } with
        timBitmap := tim
        staDzBitmap := dz } := by
  have queues : sta.servq ac = s.servq psta ac := congrFun servq ac
  refine TxState.ext ?_ ?_ ?_ ?_ ?_ ?_ ?_ ?_ ?_
  · simp [during, moved, setServq, setSta, TxState.takePending]
  · simp [during, moved, setServq, setSta, TxState.servq, TxState.takePending, queues]
  · simp [during, moved, TxState.settle, pending_setServq, TxState.takePending]
    split <;> simp [deleteTxPending, setServq, setSta]
  · simp [during, moved, TxState.settle, pending_setServq, TxState.takePending]
    split <;> simp [deleteTxPending, setServq, setSta]
  · simp [during, moved, TxState.settle, pending_setServq]
    split <;> rfl
  · simp [during, moved, TxState.settle, pending_setServq]
    split <;> rfl
  · simp [during, moved, TxState.settle, pending_setServq, TxState.takePending]
    split <;> rfl
  · simp [during, moved, setServq, setSta, TxState.takePending]
  · simp [during, moved, setServq, setSta, TxState.takePending]

omit [Fintype S] in
/-- Buffering a frame changes its station's sleep queue, and the bitmaps only grow. -/
theorem enqueueForSleepingSta_setSta (owns : s.Owns psta f) (buffered : s.enqueueForSleepingSta f = some s') :
    ∃ sta tim b, s' = { s.setSta psta sta with timBitmap := tim, staDzBitmap := s.staDzBitmap ||| b } ∧
      sta.servq = (s.sta psta).servq ∧ sta.linked = (s.sta psta).linked ∧
      sta.sleeping = (s.sta psta).sleeping ∧ sta.aid = (s.sta psta).aid ∧
      sta.sleepQ = (s.sta psta).sleepQ ++ [f] := by
  obtain ⟨psta', owns', -, which⟩ := enqueueForSleepingSta_some buffered
  obtain rfl : psta = psta' := Option.some.inj (owns.owner.symm.trans owns'.owner)
  rcases which with ⟨-, -, rfl⟩ | ⟨-, -, -, rfl⟩
  · exact ⟨_, _, s.bit 0, rfl, rfl, rfl, rfl, rfl, rfl⟩
  · refine ⟨(s.bufferFrame psta f).sta psta, (s.bufferFrame psta f).timBitmap, 0, ?_, ?_⟩
    · simp [bufferFrame]
      rfl
    · simp [bufferFrame]

omit [Fintype S] in
theorem enqueueForSleepingSta_lasting (owns : s.Owns psta f) (buffered : s.enqueueForSleepingSta f = some s')
    (ac : Ac) : s.Lasting (s'.moved psta ac) := by
  obtain ⟨sta, tim, b, rfl, -, -, sleeping, aid, -⟩ := enqueueForSleepingSta_setSta owns buffered
  exact ((Lasting.setSta sleeping aid tim b).rings _ _).trans (.setServq ..)

/-- The loop has still to move these frames. -/
structure Parking (hand : Multiset Nat) (s : TxState S) (psta : S) (ac : Ac) (frames : List (XmitFrame S)) : Prop where
  sound : Sound hand (s.during psta ac frames)
  buffers : s.Buffers psta

namespace Parking

variable {later : List (XmitFrame S)}

theorem head (parking : Parking hand s psta ac (f :: later)) : f.ac = ac ∧ s.Owns psta { f with triggered := false } := by
  obtain ⟨category, queued⟩ := parking.sound.filed psta ac f (by simp [during, pending_setServq])
  exact ⟨category, queued.congr (by simp [during]; rfl) (by simp [during]) rfl rfl⟩

theorem enqueue (parking : Parking hand s psta ac (f :: later)) :
    ∃ s', s.enqueueForSleepingSta { f with triggered := false } = some s' := by
  have apart : ∀ a b p, s.hash a = some p → s.hash b = some p → a = b := by
    have apart := parking.sound.apart
    rwa [during, settle_hash] at apart
  exact parking.buffers.enqueue parking.head.2 rfl (parking.head.2.group_iff apart)

/-- One turn. -/
theorem move (parking : Parking hand s psta ac (f :: later))
    (buffered : s.enqueueForSleepingSta { f with triggered := false } = some s') :
    Parking hand (s'.moved psta ac) psta ac later := by
  obtain ⟨category, owns⟩ := parking.head
  have sound := parking.sound
  have lasting := enqueueForSleepingSta_lasting owns buffered ac
  obtain ⟨sta, tim, b, rfl, servq, linked, -, -, sleepQ⟩ := enqueueForSleepingSta_setSta owns buffered
  obtain rfl : f.ac = ac := category
  have first : (s.setServq psta f.ac ⟨(s.servq psta f.ac).qcnt, f :: later⟩).pending psta f.ac = f :: later := by
    simp [pending_setServq]
  have taken := sound.takePending first
  refine ⟨?_, parking.buffers.lasting lasting⟩
  rw [during_moved f servq]
  refine (taken.setSta ?_ ?_ ?_ ?_).bitmaps ..
  · simp [TxState.takePending, TxState.setServq, TxState.servq, servq]
  · simp [TxState.takePending, linked]
  · simp [TxState.takePending, sleepQ, add_assoc]
  · intro g inside
    have owned : s.Owns psta g := by
      rw [sleepQ] at inside
      rcases List.mem_append.mp inside with before | last
      · exact (sound.asleep psta g (by simpa [during] using before)).congr (by simp [during]; rfl)
          (by simp [during]) rfl rfl
      · rwa [List.mem_singleton.mp last]
    exact owned.congr (by simp [TxState.takePending]; rfl) (by simp [TxState.takePending]) rfl rfl

/-- The loop moves every frame; what each turn keeps is kept. -/
theorem loop {kept : TxState S → Prop} {frames : List (XmitFrame S)} (parking : Parking hand s psta ac frames)
    (start : kept s)
    (turn : ∀ t f later t', Parking hand t psta ac (f :: later) → kept t →
      t.enqueueForSleepingSta { f with triggered := false } = some t' → kept (t'.moved psta ac)) :
    (s.toSleepingLoop psta frames).2 = [] ∧ Parking hand (s.toSleepingLoop psta frames).1 psta ac [] ∧
      kept (s.toSleepingLoop psta frames).1 := by
  induction frames generalizing s with
  | nil => exact ⟨rfl, parking, start⟩
  | cons f later ih =>
      obtain ⟨s', buffered⟩ := parking.enqueue
      obtain ⟨category, -⟩ := parking.head
      have rest := ih (parking.move buffered) (turn s f later s' parking start buffered)
      simp only [TxState.toSleepingLoop, buffered]
      subst category
      exact rest

end Parking

omit [Fintype S] in
theorem setServq_self (s : TxState S) (psta : S) (ac : Ac) : s.setServq psta ac (s.servq psta ac) = s := by
  simp only [setServq, servq, Function.update_eq_self]
  simp [TxState.setSta]

/-- A queue is emptied for the time its station sleeps, and leaves the ring. -/
def park (s : TxState S) (psta : S) (ac : Ac) : TxState S :=
  (s.dequeueToSleepingQueue psta ac).deleteTxPending psta ac

/-- An empty queue is parked already. -/
theorem Sound.park_nil (sound : Sound hand s) (nothing : s.pending psta ac = []) : s.park psta ac = s := by
  have outside : psta ∉ s.staQueue ac := fun inside => (sound.kept ac).waiting inside nothing
  have queue : (⟨(s.servq psta ac).qcnt, []⟩ : TxServq S) = s.servq psta ac := by rw [← nothing]; rfl
  simp only [TxState.park, dequeueToSleepingQueue, nothing, TxState.toSleepingLoop, queue, setServq_self]
  rw [deleteTxPending, List.erase_of_not_mem outside, Function.update_eq_self]

/-- Parking a queue of a station that buffers; what each turn of the loop keeps is kept by the loop. -/
theorem Sound.park_keeps (sound : Sound hand s) (buffers : s.Buffers psta) (ac : Ac) {kept : TxState S → Prop}
    (start : kept s)
    (turn : ∀ t f later t', Parking hand t psta ac (f :: later) → kept t →
      t.enqueueForSleepingSta { f with triggered := false } = some t' → kept (t'.moved psta ac)) :
    ∃ t, kept t ∧ Parking hand t psta ac [] ∧ t.during psta ac [] = s.park psta ac := by
  have begun : s.during psta ac (s.pending psta ac) = s.settle psta ac :=
    congrArg (TxState.settle · psta ac) (s.setServq_self psta ac)
  obtain ⟨none_, parked, done⟩ := Parking.loop ⟨begun ▸ sound.settle psta ac, buffers⟩ start turn
  refine ⟨_, done, parked, ?_⟩
  simp [during, TxState.settle, pending_setServq, TxState.park, dequeueToSleepingQueue, none_]

omit [Fintype S] in
theorem Lasting.during (s : TxState S) (psta : S) (ac : Ac) : s.Lasting (s.during psta ac []) := by
  rw [TxState.during, TxState.settle, if_pos (by simp [pending_setServq])]
  exact (Lasting.setServq ..).rings _ _

theorem Sound.park (sound : Sound hand s) (buffers : s.Buffers psta) (ac : Ac) :
    Sound hand (s.park psta ac) ∧ s.Lasting (s.park psta ac) := by
  obtain ⟨t, lasting, parked, same⟩ := sound.park_keeps buffers ac (Lasting.refl s)
    fun t f later t' parking kept buffered => kept.trans (enqueueForSleepingSta_lasting parking.head.2 buffered ac)
  exact ⟨same ▸ parked.sound, same ▸ lasting.trans (.during t psta ac)⟩

/-- The station's queues and the group's can be parked. -/
def StopKeeps (s : TxState S) (psta : S) : Prop :=
  s.bit (s.sta psta).aid ≠ 0 ∨
    (∀ ac, s.pending psta ac = []) ∧
      ∀ bmc, s.getBcmcStainfo = some bmc → s.pending bmc .be ≠ [] → s.staDzBitmap ≠ 0

/-- The station is marked as asleep. -/
def lull (s : TxState S) (psta : S) : TxState S :=
  { s.setSta psta { s.sta psta with sleeping := true } with
    staDzBitmap := s.staDzBitmap ||| s.bit (s.sta psta).aid }

omit [Fintype S] in
theorem pending_lull (s : TxState S) (psta p : S) (ac : Ac) : (s.lull psta).pending p ac = s.pending p ac :=
  congrArg TxServq.staPending (@servq_setSta S _ s psta { s.sta psta with sleeping := true } rfl p ac)

/-- The group's queue is parked. -/
def parkGroup (s : TxState S) : TxState S :=
  match s.getBcmcStainfo with
  | some bmc => s.park bmc .be
  | none => s

omit [Fintype S] in
theorem stopStaXmit_eq (s : TxState S) (psta : S) :
    s.stopStaXmit psta =
      (((((s.lull psta).park psta .vo).park psta .vi).park psta .be).park psta .bk).parkGroup := by
  simp only [TxState.stopStaXmit, parkGroup, TxState.park, lull, setSta_self]
  rfl

theorem Sound.parkGroup (sound : Sound hand s)
    (marked : ∀ bmc, s.getBcmcStainfo = some bmc → s.pending bmc .be ≠ [] → s.staDzBitmap ≠ 0) :
    Sound hand s.parkGroup := by
  unfold TxState.parkGroup
  split
  · rename_i bmc record
    by_cases nothing : s.pending bmc .be = []
    · rwa [sound.park_nil nothing]
    · exact (sound.park (.inl ⟨record, marked bmc record nothing⟩) .be).1
  · exact sound

theorem Sound.stopStaXmit (sound : Sound hand s) (keeps : s.StopKeeps psta) : Sound hand (s.stopStaXmit psta) := by
  have lulled : Sound hand (s.lull psta) := by
    refine (sound.retain ?_ ?_ ?_).bitmaps .. <;> rfl
  have aid : ((s.lull psta).sta psta).aid = (s.sta psta).aid := by simp [lull]
  rw [stopStaXmit_eq]
  rcases keeps with bit | ⟨nothing, marked⟩
  · have marked : (s.lull psta).staDzBitmap &&& s.bit (s.sta psta).aid ≠ 0 := by
      refine fun none_ => bit ?_
      rw [← UInt16.toBitVec_inj] at none_ ⊢
      exact (Bitmap.or_and_self ..).symm.trans none_
    have someone {s' : TxState S} (lasting : (s.lull psta).Lasting s') : s'.staDzBitmap ≠ 0 := fun none_ =>
      lasting.asleep _ marked (by rw [none_, UInt16.zero_and])
    have buffers : (s.lull psta).Buffers psta := by
      by_cases group : (s.lull psta).getBcmcStainfo = some psta
      · exact .inl ⟨group, someone (.refl _)⟩
      · exact .inr ⟨group, by simp [lull], aid ▸ marked⟩
    obtain ⟨sound, lasting⟩ := lulled.park buffers .vo
    obtain ⟨sound, lasting'⟩ := sound.park (buffers.lasting lasting) .vi
    have lasting := lasting.trans lasting'
    obtain ⟨sound, lasting'⟩ := sound.park (buffers.lasting lasting) .be
    have lasting := lasting.trans lasting'
    obtain ⟨sound, lasting'⟩ := sound.park (buffers.lasting lasting) .bk
    exact sound.parkGroup fun _ _ _ => someone (lasting.trans lasting')
  · have nothing (ac : Ac) : (s.lull psta).pending psta ac = [] := (pending_lull ..).trans (nothing ac)
    rw [lulled.park_nil (nothing _), lulled.park_nil (nothing _), lulled.park_nil (nothing _),
      lulled.park_nil (nothing _)]
    refine lulled.parkGroup fun bmc record waits => ?_
    rw [pending_lull] at waits
    intro none_
    exact marked bmc record waits (UInt16.or_eq_zero_iff.mp none_).1

end TxState

end Vmac.Transmit
