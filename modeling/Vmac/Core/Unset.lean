/-
# Vmac.Core.Unset -- what `vmac_tx` leaves unset in a new entry

`vmalloc` does not clear its memory.  A new receiver entry keeps the window, the padding in front
of it and the DACK slot as they were, a new producer entry its buffer and its pacing timers.

Two runs of an encoding differ in that memory only.  A slot of the window is set when its
number is passed, which happens to slot 0 with frame 700; a slot of the buffer when a copy is
stored into it; a pacing timer with its frame.

* `RxRest.Agrees`, `TxRest.Agrees`: two entries that differ in unset memory only.
* `same_outs`: the runs in which nothing unset is read do the same.
-/
import Vmac.Core.Feedback
import Vmac.Core.Indices
import Vmac.Core.Isolation
import Vmac.Theory.Run
import Mathlib.Data.List.Basic

namespace Vmac.Core

open Theory

set_option autoImplicit false

/-! ## Receiver entries -/

/-- The part of a receiver entry that `vmac_tx` leaves unset. -/
structure RxRest where
  pad : Nat
  window : Nat → Nat
  info : DackInfo

def EncodingRx.withRest (e : EncodingRx) (r : RxRest) : EncodingRx :=
  { e with pad := r.pad, window := r.window, dacInfo := r.info }

/-- The slot has been cleared or marked: a number of it has been passed. -/
def Written (latest x : Nat) : Prop := ∃ s, 0 < s ∧ s ≤ latest ∧ s % windowSize = x

/-- The rest is that of the entry, as far as it has been set. -/
structure RxRest.Agrees (r : RxRest) (e : EncodingRx) : Prop where
  window : ∀ x, Written e.latest x → r.window x = e.window x
  send : r.info.send = e.dacInfo.send
  dack : e.dacInfo.send = 1 → r.info.dack = e.dacInfo.dack

theorem Written.all {latest x : Nat} (far : windowSize ≤ latest) (inRing : x < windowSize) : Written latest x := by
  by_cases zero : x = 0
  · exact ⟨windowSize, windowSize_pos, far, by rw [zero, Nat.mod_self]⟩
  · exact ⟨x, Nat.pos_of_ne_zero zero, by omega, Nat.mod_eq_of_lt inRing⟩

/-! ### The window -/

section Window

variable {e : EncodingRx} {r : RxRest}

theorem update_agrees {α : Type} {f g : Nat → α} {i x : Nat} {v : α} (same : x ≠ i → f x = g x) :
    Function.update f i v x = Function.update g i v x := by
  by_cases here : x = i
  · rw [here, Function.update_self, Function.update_self]
  · rw [Function.update_of_ne here, Function.update_of_ne here, same here]

theorem followLatest_agrees (agrees : r.Agrees e) (n : Nat) :
    ∃ r', EncodingRx.followLatest n (e.withRest r) = (EncodingRx.followLatest n e).withRest r' ∧
      r'.Agrees (EncodingRx.followLatest n e) := by
  induction n generalizing e r with
  | zero => exact ⟨r, rfl, agrees⟩
  | succ n ih =>
      have next : RxRest.Agrees { r with window := Function.update r.window (windowIndex (e.latest + 1)) 0 }
          { e with
            latest := e.latest + 1
            window := Function.update e.window (windowIndex (e.latest + 1)) 0 } := by
        refine ⟨fun x ⟨s, pos, le, slot⟩ => update_agrees fun other => ?_, agrees.send, agrees.dack⟩
        have old : s ≠ e.latest + 1 := by
          rintro rfl
          exact other (slot.symm.trans (windowIndex_eq _).symm)
        have le : s ≤ e.latest + 1 := le
        exact agrees.window x ⟨s, pos, by omega, slot⟩
      exact ih next

theorem markReceived_agrees (agrees : r.Agrees e) (seq : Nat) :
    ∃ r', (e.withRest r).markReceived seq = (e.markReceived seq).withRest r' ∧ r'.Agrees (e.markReceived seq) := by
  by_cases inside : seq ≥ (if e.latest ≥ windowSize then e.latest % windowSize else 0)
  · refine ⟨{ r with window := Function.update r.window (windowIndex seq) 1 }, ?_, fun x written => ?_, agrees.send,
      agrees.dack⟩
    · have inside' : seq ≥ (if (e.withRest r).latest ≥ windowSize then (e.withRest r).latest % windowSize else 0) :=
        inside
      rw [EncodingRx.markReceived, EncodingRx.markReceived, if_pos inside, if_pos inside']
      rfl
    · rw [EncodingRx.markReceived, if_pos inside]
      exact update_agrees fun _ => agrees.window x written
  · have inside' : ¬seq ≥ (if (e.withRest r).latest ≥ windowSize then (e.withRest r).latest % windowSize else 0) :=
      inside
    rw [EncodingRx.markReceived, EncodingRx.markReceived, if_neg inside, if_neg inside']
    exact ⟨r, rfl, agrees.window, agrees.send, agrees.dack⟩

/-- The window part does the same, but for frame 0 while slot 0 is unset. -/
theorem receive_agrees (agrees : r.Agrees e) {seq : Nat} (known : seq = 0 → windowSize ≤ e.latest) :
    e.receive seq = none ∧ (e.withRest r).receive seq = none ∨
      ∃ f r', e.receive seq = some f ∧ (e.withRest r).receive seq = some (f.withRest r') ∧ r'.Agrees f := by
  by_cases above : e.latest < seq
  · obtain ⟨r₁, followed, agrees₁⟩ := followLatest_agrees agrees (seq - e.latest)
    obtain ⟨r₂, marked, agrees₂⟩ := markReceived_agrees agrees₁ seq
    refine .inr ⟨_, r₂, if_pos above, ?_, agrees₂⟩
    have moves : (e.withRest r).receive seq =
        some ((EncodingRx.followLatest (seq - e.latest) (e.withRest r)).markReceived seq) := if_pos above
    rw [moves, followed, marked]
  · have written : Written e.latest (windowIndex seq) := by
      rw [windowIndex_eq]
      by_cases zero : seq = 0
      · exact .all (known zero) (Nat.mod_lt _ windowSize_pos)
      · exact ⟨seq, Nat.pos_of_ne_zero zero, by omega, rfl⟩
    have slot : (e.withRest r).window (windowIndex seq) = e.window (windowIndex seq) := agrees.window _ written
    have above' : ¬(e.withRest r).latest < seq := above
    by_cases marked : e.window (windowIndex seq) = 1
    · refine .inl ⟨?_, ?_⟩
      · rw [EncodingRx.receive, if_neg above, if_pos marked]
      · rw [EncodingRx.receive, if_neg above', if_pos (slot.trans marked)]
    · obtain ⟨r', same, agrees'⟩ := markReceived_agrees agrees seq
      refine .inr ⟨e.markReceived seq, r', ?_, ?_, agrees'⟩
      · rw [EncodingRx.receive, if_neg above, if_neg marked]
      · rw [EncodingRx.receive, if_neg above', if_neg fun again => marked (slot.symm.trans again), same]

theorem timeFrame_withRest (seq jiffies : Nat) :
    (e.withRest r).timeFrame seq jiffies = (e.timeFrame seq jiffies).withRest r := by
  by_cases first : e.firstFrame = 0
  · have first' : (e.withRest r).firstFrame = 0 := first
    rw [EncodingRx.timeFrame, EncodingRx.timeFrame, if_pos first, if_pos first']
    rfl
  · have first' : ¬(e.withRest r).firstFrame = 0 := first
    rw [EncodingRx.timeFrame, EncodingRx.timeFrame, if_neg first, if_neg first']
    by_cases second : e.secondFrame = 0
    · have second' : (e.withRest r).secondFrame = 0 := second
      rw [if_pos second, if_pos second']
      rfl
    · have second' : ¬(e.withRest r).secondFrame = 0 := second
      rw [if_neg second, if_neg second']

/-- The clock goes into three fields. -/
theorem timeFrame_frame (e : EncodingRx) (seq jiffies : Nat) : ∃ first second alpha,
    e.timeFrame seq jiffies = { e with firstFrame := first, secondFrame := second, alpha := alpha } := by
  unfold EncodingRx.timeFrame
  split
  · exact ⟨_, _, _, rfl⟩
  · split
    · exact ⟨_, _, _, rfl⟩
    · exact ⟨e.firstFrame, e.secondFrame, e.alpha, rfl⟩

end Window

/-! ### The DACK -/

section Dack

variable {e : EncodingRx} {r : RxRest} {start stop : Nat}

/-- The windows are the same in all slots. -/
def RxRest.Full (r : RxRest) (e : EncodingRx) : Prop := ∀ x, x < windowSize → r.window x = e.window x

theorem RxRest.Full.slot (full : r.Full e) (i : Nat) :
    (e.withRest r).window (i % windowSize) = e.window (i % windowSize) := full _ (Nat.mod_lt _ windowSize_pos)

/-- A run that begins at the second number or later begins with a window slot below it. -/
theorem absorbBack_withRest (full : r.Full e) {i loss : Nat} (first : i = start ∨ e.lost (i - 1) = false)
    (apart : start + 2 ≤ i → i % windowSize ≠ 0) :
    (e.withRest r).absorbBack start i loss = e.absorbBack start i loss := by
  by_cases low : i ≤ start + 1
  · rw [EncodingRx.absorbBack_stop (.inl low), EncodingRx.absorbBack_stop (.inl low)]
  · have inside := apart (by omega)
    have received := of_decide_eq_false (first.resolve_left (by omega))
    have below : (i - 1) % windowSize = i % windowSize - 1 := by
      rw [show windowSize = 700 from rfl] at inside ⊢
      omega
    have ends : e.windowBelow i ≠ 0 := by
      rw [EncodingRx.windowBelow, if_neg inside, ← below]
      exact received
    have ends' : (e.withRest r).windowBelow i ≠ 0 := by
      rw [EncodingRx.windowBelow, if_neg inside, ← below, full.slot]
      exact received
    rw [EncodingRx.absorbBack_stop (.inr ends), EncodingRx.absorbBack_stop (.inr ends')]

theorem absorbForward_withRest (full : r.Full e) (n i loss : Nat) :
    (e.withRest r).absorbForward stop n i loss = e.absorbForward stop n i loss := by
  induction n generalizing i loss with
  | zero => rfl
  | succ n ih => simp only [EncodingRx.absorbForward, full.slot, ih]

theorem scanTurn_withRest (full : r.Full e) {s : EncodingRx.Scan} (between : e.Between start stop s) (more : s.i < stop)
    (apart : e.RunsApart start stop (start + 2)) (few : s.holes.length < holesMax) :
    (e.withRest r).scanTurn start stop s = e.scanTurn start stop s := by
  simp only [EncodingRx.scanTurn, full.slot]
  split
  · rename_i empty
    have first : s.i = start ∨ e.lost (s.i - 1) = false :=
      between.first.imp_right fun rest => rest.resolve_left (by omega)
    have inside : start + 2 ≤ s.i → s.i % windowSize ≠ 0 := fun far =>
      apart s.i far more (between.starts more (decide_eq_true empty)) (between.holes ▸ few)
    rw [absorbBack_withRest full first inside, absorbForward_withRest full]
  · rfl

theorem scanLoop_withRest (full : r.Full e) (apart : e.RunsApart start stop (start + 2)) (n : Nat) {s : EncodingRx.Scan}
    (between : e.Between start stop s) : (e.withRest r).scanLoop start stop n s = e.scanLoop start stop n s := by
  induction n generalizing s with
  | zero => rfl
  | succ n ih =>
      rw [EncodingRx.scanLoop, EncodingRx.scanLoop]
      by_cases more : s.i < stop ∧ s.holes.length < holesMax
      · rw [if_pos more, if_pos more, scanTurn_withRest full between more.1 apart more.2]
        cases empty : e.lost s.i with
        | true =>
            obtain ⟨_, -, -, -, -, -, after⟩ := between.hole more.1 empty
            exact ih after
        | false =>
            obtain ⟨turn, after⟩ := between.skip more.1 empty
            rw [turn]
            exact ih after
      · rw [if_neg more, if_neg more]

/-- The window of a round is set: no slot is unset, and the padding in front of it is not looked at. -/
structure EncodingRx.RoundSet (e : EncodingRx) (round : Nat) : Prop where
  far : windowSize ≤ e.latest
  apart : e.RunsApart (scanStart (lattmp round)) (lattmp round) (scanStart (lattmp round) + 2)

theorem scan_withRest (agrees : r.Agrees e) {round : Nat} (known : e.RoundSet round) :
    (e.withRest r).scan round = e.scan round :=
  scanLoop_withRest (fun x inRing => agrees.window x (.all known.far inRing)) known.apart _
    (.begin (EncodingRx.scanStart_le _))

/-- The DACK slots are the same after a DACK has been stored. -/
theorem storeDack_agrees (agrees : r.Agrees e) (skb : Skb) (round : Nat) (duration rndm : Int) :
    storeDack r.info skb round duration rndm = storeDack e.dacInfo skb round duration rndm := by
  unfold storeDack
  rw [agrees.send]
  split
  · rename_i send
    rw [agrees.dack send]
  · rfl

/-- `prepDACK` stores a DACK. -/
def Env.stores (env : Env) : Prop := env.dackOk = true ∧ env.lockFree = true

theorem prepDack_agrees (agrees : r.Agrees e) {env : Env} (enc : Enc) {round : Nat}
    (known : env.stores → e.RoundSet round) :
    ∃ r', prepDack env (e.withRest r) enc round =
      ((prepDack env e enc round).1.withRest r', (prepDack env e enc round).2) ∧
        r'.Agrees (prepDack env e enc round).1 := by
  unfold prepDack
  by_cases allocated : env.dackOk = true
  · rw [if_pos allocated, if_pos allocated]
    by_cases free : env.lockFree = true
    · have scan := scan_withRest agrees (known ⟨allocated, free⟩)
      have frame : (e.withRest r).dackFrame enc round = e.dackFrame enc round := by
        rw [EncodingRx.dackFrame, scan, EncodingRx.dackFrame]
      have alpha : (e.withRest r).clampAlpha.alpha = e.clampAlpha.alpha := rfl
      have stored := storeDack_agrees agrees ⟨env.base, e.dackFrame enc round⟩ round
        (dackDuration e.clampAlpha.alpha (e.scan round).loss env.rndm) (rndmBit env.rndm)
      have info : (e.withRest r).dacInfo = r.info := rfl
      simp only [if_pos free, frame, alpha, scan, info, stored]
      exact ⟨{ r with info := _ }, rfl, agrees.window, rfl, fun _ => rfl⟩
    · simp only [if_neg free]
      exact ⟨r, rfl, agrees.window, agrees.send, agrees.dack⟩
  · rw [if_neg allocated, if_neg allocated]
    exact ⟨r, rfl, agrees⟩

theorem requestRound_agrees (agrees : r.Agrees e) {env : Env} (enc : Enc) {seq : Nat}
    (known : e.dackDue seq = true → env.stores → e.RoundSet (seq / 5)) :
    ∃ r', requestRound env (e.withRest r) enc seq =
      ((requestRound env e enc seq).1.withRest r', (requestRound env e enc seq).2) ∧
        r'.Agrees (requestRound env e enc seq).1 := by
  have due : (e.withRest r).dackDue seq = e.dackDue seq := rfl
  unfold requestRound requestDack
  rw [due]
  split
  · rename_i asks
    have before : r.Agrees { e with round := seq / 5 } := ⟨agrees.window, agrees.send, agrees.dack⟩
    have set_ : env.stores → EncodingRx.RoundSet { e with round := seq / 5 } (seq / 5) := fun stores =>
      ⟨(known asks stores).far, (known asks stores).apart⟩
    obtain ⟨r', same, agrees'⟩ := prepDack_agrees before enc set_
    have record : ({ e.withRest r with round := seq / 5 } : EncodingRx) =
        EncodingRx.withRest { e with round := seq / 5 } r := rfl
    refine ⟨r', ?_, agrees'.window, agrees'.send, agrees'.dack⟩
    dsimp only
    rw [record, same]
    rfl
  · exact ⟨r, rfl, agrees⟩

/-- Nothing unset decides about the data frame: it is not frame 0 while slot 0 is unset, and a DACK it asks for is of a
round whose window is set. -/
structure EncodingRx.DataSet (e : EncodingRx) (env : Env) (seq : Nat) : Prop where
  zero : seq = 0 → windowSize ≤ e.latest
  round : ∀ f, e.receive seq = some f → f.timeTraps seq = false → f.dackDue seq = true → env.stores →
    f.RoundSet (seq / 5)

theorem rxData_agrees (agrees : r.Agrees e) {env : Env} (pidt : Int) (enc : Enc) {skb : Skb}
    (known : (e.refresh env).DataSet env (readSeq env.past skb.data)) :
    ∃ r', rxData env pidt (e.withRest r) enc skb =
      ((rxData env pidt e enc skb).1.withRest r', (rxData env pidt e enc skb).2) ∧
        r'.Agrees (rxData env pidt e enc skb).1 := by
  have before : r.Agrees (e.refresh env) := ⟨agrees.window, agrees.send, agrees.dack⟩
  have record : (e.withRest r).refresh env = (e.refresh env).withRest r := rfl
  unfold rxData
  simp only [record]
  rcases receive_agrees before known.zero with ⟨drop, drop'⟩ | ⟨f, r', got, got', agrees'⟩
  · simp only [drop, drop']
    exact ⟨r, rfl, before⟩
  · simp only [got, got']
    have traps : (f.withRest r').timeTraps (readSeq env.past skb.data) = f.timeTraps (readSeq env.past skb.data) := rfl
    rw [traps]
    cases trap : f.timeTraps (readSeq env.past skb.data) with
    | true => exact ⟨r', rfl, agrees'⟩
    | false =>
        obtain ⟨first, second, alpha, timed⟩ := timeFrame_frame f (readSeq env.past skb.data) env.jiffies
        have timed' : ({ (f.withRest r').timeFrame (readSeq env.past skb.data) env.jiffies with
            lastin := readSeq env.past skb.data } : EncodingRx) = EncodingRx.withRest
              { f with
                firstFrame := first
                secondFrame := second
                alpha := alpha
                lastin := readSeq env.past skb.data } r' := by
          rw [timeFrame_withRest, timed]
          rfl
        obtain ⟨r'', same, agrees''⟩ := @requestRound_agrees
          { f with
            firstFrame := first
            secondFrame := second
            alpha := alpha
            lastin := readSeq env.past skb.data } r' ⟨agrees'.window, agrees'.send, agrees'.dack⟩ env enc
          (readSeq env.past skb.data) fun due stores =>
            ⟨(known.round f got trap due stores).far, (known.round f got trap due stores).apart⟩
        simp only [Bool.false_eq_true, if_false]
        rw [timed', same, timed]
        exact ⟨r'', rfl, agrees''⟩

/-- Sending the DACK of the slot. -/
theorem sendDack_agrees (agrees : r.Agrees e) (env : Env) :
    ∃ r', sendDack env (e.withRest r) = ((sendDack env e).1.withRest r', (sendDack env e).2) ∧
      r'.Agrees (sendDack env e).1 := by
  have info : (e.withRest r).dacInfo = r.info := rfl
  unfold sendDack takeDack
  rw [info, agrees.send]
  split
  · rename_i send
    rw [agrees.dack send]
    exact ⟨{ r with info := _ }, rfl, agrees.window, rfl, fun _ => rfl⟩
  · exact ⟨r, rfl, agrees.window, agrees.send, agrees.dack⟩

end Dack

/-! ## Producer entries -/

/-- The part of a producer entry that `vmac_tx` leaves unset. -/
structure TxRest where
  buffer : Nat → Option Skb
  timer : Nat → Nat

def EncodingTx.withRest (t : EncodingTx) (r : TxRest) : EncodingTx :=
  { t with retransmissionBuffer := r.buffer, timer := r.timer }

/-- The rest is that of the entry, as far as it has been set: the slots `stored` of the buffer, and the timers of the
frames that the buffer is for. -/
structure TxRest.Agrees (r : TxRest) (stored : Set Nat) (t : EncodingTx) : Prop where
  buffer : ∀ x ∈ stored, r.buffer x = t.retransmissionBuffer x
  timer : ∀ le, le < t.seq → t.seq ≤ le + windowTx → r.timer (slotIndex le) = t.timer (slotIndex le)
  seq : t.seq < 65536

section Producer

variable {t : EncodingTx} {r : TxRest} {stored : Set Nat}

/-- The slots that are set after a data frame. -/
def EncodingTx.storedAfter (t : EncodingTx) (stored : Set Nat) (env : Env) : Set Nat :=
  if env.copyOk 0 then insert (t.seq % windowTx) stored else stored

theorem keepCopy_agrees (agrees : r.Agrees stored t) (env : Env) (skb : Skb) :
    ∃ r', (t.withRest r).keepCopy (dataCopy env skb) = (t.keepCopy (dataCopy env skb)).withRest r' ∧
      r'.Agrees (t.storedAfter stored env) (t.keepCopy (dataCopy env skb)) := by
  have timer : ∀ le, le < (t.seq + 1) % 65536 → (t.seq + 1) % 65536 ≤ le + windowTx →
      Function.update r.timer (t.seq % windowTx) 0 (slotIndex le) =
        Function.update t.timer (t.seq % windowTx) 0 (slotIndex le) := by
    intro le below kept
    refine update_agrees fun other => ?_
    have low := agrees.seq
    have old : le ≠ t.seq := by
      rintro rfl
      exact other (slotIndex_eq _)
    exact agrees.timer le (by omega) (by omega)
  have next : (t.seq + 1) % 65536 < 65536 := Nat.mod_lt _ (by decide)
  by_cases copied : env.copyOk 0 = true
  · have copy : dataCopy env skb = some ⟨env.base, skb.data⟩ := if_pos copied
    have after : t.storedAfter stored env = insert (t.seq % windowTx) stored := if_pos copied
    rw [copy, after]
    refine ⟨⟨Function.update r.buffer (t.seq % windowTx) (some ⟨env.base, skb.data⟩), _⟩, rfl,
      fun x member => update_agrees fun other => ?_, timer, next⟩
    exact agrees.buffer x (member.resolve_left other)
  · have copy : dataCopy env skb = none := if_neg copied
    have after : t.storedAfter stored env = stored := if_neg copied
    rw [copy, after]
    exact ⟨⟨r.buffer, _⟩, rfl, agrees.buffer, timer, next⟩

/-- Nothing unset is released by a data frame: the slot it takes is set, if the code thinks so. -/
def EncodingTx.SlotSet (t : EncodingTx) (stored : Set Nat) : Prop := windowTx ≤ t.seq → t.seq % windowTx ∈ stored

theorem txData_agrees (agrees : r.Agrees stored t) (env : Env) (enc : Enc) (skb : Skb) (known : t.SlotSet stored) :
    ∃ r', txData env (t.withRest r) enc skb = ((txData env t enc skb).1.withRest r', (txData env t enc skb).2) ∧
      r'.Agrees (t.storedAfter stored env) (txData env t enc skb).1 := by
  have before : r.Agrees stored (t.refresh env) := ⟨agrees.buffer, agrees.timer, agrees.seq⟩
  have seq : (t.withRest r).seq = t.seq := rfl
  have record : (t.withRest r).refresh env = (t.refresh env).withRest r := rfl
  have old : (t.withRest r).oldCopy = t.oldCopy := by
    unfold EncodingTx.oldCopy
    rw [seq]
    split
    · rename_i full
      exact agrees.buffer _ (known full)
    · rfl
  obtain ⟨r', kept, agrees'⟩ := keepCopy_agrees before env (dataFrame enc t.seq skb)
  unfold txData
  simp only [seq, record, old, kept]
  exact ⟨r', rfl, agrees'⟩

/-! ### Answering a DACK -/

namespace DackLoop

def withRest (s : DackLoop) (r : TxRest) : DackLoop := { s with vmact := s.vmact.withRest r }

/-- The slot that a number is copied from is set, where the loop looks at it. -/
def SlotSet (seq round : Nat) (stored : Set Nat) (s : DackLoop) (le : Nat) : Prop :=
  s.Asked seq round le → (le = windowTx → s.vmact.slotTest le = true) → slotIndex le ∈ stored

variable {env : Env} {s : DackLoop} {seq round : Nat}

theorem asked_withRest (agrees : r.Agrees stored s.vmact) (le : Nat) :
    (s.withRest r).Asked s.vmact.seq round le ↔ s.Asked s.vmact.seq round le := by
  have counter : (s.withRest r).counter = s.counter := rfl
  have timers : (s.withRest r).vmact.timer = r.timer := rfl
  rw [Asked, Asked, answers_iff, answers_iff, counter, timers]
  constructor
  · rintro ⟨below, ⟨paced, kept⟩, few⟩
    exact ⟨below, ⟨agrees.timer le below kept ▸ paced, kept⟩, few⟩
  · rintro ⟨below, ⟨paced, kept⟩, few⟩
    exact ⟨below, ⟨(agrees.timer le below kept).symm ▸ paced, kept⟩, few⟩

/-- From frame `WINDOW_TX` on all pacing timers are set. -/
theorem slotTest_withRest (agrees : r.Agrees stored s.vmact) {le : Nat} (asked : s.Asked s.vmact.seq round le)
    (known : s.SlotSet s.vmact.seq round stored le) : (s.withRest r).vmact.slotTest le = s.vmact.slotTest le := by
  by_cases top : le = windowTx
  · obtain ⟨below, answers, -⟩ := asked
    have kept := (answers_iff.mp answers).2
    have size : windowTx = 500 := rfl
    have timers : ∀ k, k < 8 → r.timer k = s.vmact.timer k := by
      intro k low
      by_cases wrapped : k + windowTx < s.vmact.seq
      · have slot : slotIndex (k + windowTx) = k := by
          rw [slotIndex_eq, Nat.add_mod_right, Nat.mod_eq_of_lt (by omega)]
        exact slot ▸ agrees.timer (k + windowTx) wrapped (by omega)
      · have slot : slotIndex k = k := by
          rw [slotIndex_eq, Nat.mod_eq_of_lt (by omega)]
        exact slot ▸ agrees.timer k (by omega) (by omega)
    rw [EncodingTx.slotTest, EncodingTx.slotTest, if_pos top, if_pos top, Bool.eq_iff_iff, List.any_eq_true,
      List.any_eq_true]
    refine exists_congr fun k => and_congr_right fun member => ?_
    show decide (r.timer k ≠ 0) = true ↔ decide (s.vmact.timer k ≠ 0) = true
    rw [timers k (List.mem_range.mp member)]
  · have buffer : (s.withRest r).vmact.retransmissionBuffer = r.buffer := rfl
    rw [slotTest_other top, slotTest_other top, buffer, agrees.buffer _ (known asked fun here => absurd here top)]

theorem sendCopy_withRest (s : DackLoop) : (s.withRest r).sendCopy env = (s.sendCopy env).withRest r := by
  have skb2 : (s.withRest r).skb2 = s.skb2 := rfl
  unfold sendCopy
  rw [skb2]
  split <;> rfl

theorem copySlot_withRest (s : DackLoop) {le : Nat} (tested : (s.withRest r).vmact.slotTest le = s.vmact.slotTest le)
    (held : s.vmact.slotTest le = true → r.buffer (slotIndex le) = s.vmact.retransmissionBuffer (slotIndex le)) :
    (s.withRest r).copySlot env le = (s.copySlot env le).withRest r := by
  have buffer : (s.withRest r).vmact.retransmissionBuffer = r.buffer := rfl
  have counter : (s.withRest r).counter = s.counter := rfl
  unfold copySlot
  rw [tested, buffer, counter]
  split
  · rename_i test
    rw [held test]
    split
    · split <;> rfl
    · rfl
  · rfl

/-- One number. -/
theorem turn_agrees (agrees : r.Agrees stored s.vmact) {le : Nat} (known : s.SlotSet s.vmact.seq round stored le) :
    ∃ r', turn env s.vmact.seq round (s.withRest r) le = (turn env s.vmact.seq round s le).withRest r' ∧
      r'.Agrees stored (turn env s.vmact.seq round s le).vmact := by
  have frames := @turn_sameFrames env s.vmact.seq round s le
  by_cases asked : s.Asked s.vmact.seq round le
  · have goes : turn env s.vmact.seq round s le = s.answer env round le := if_pos asked
    have goes' : turn env s.vmact.seq round (s.withRest r) le = (s.withRest r).answer env round le :=
      if_pos ((asked_withRest agrees le).mpr asked)
    have tested := slotTest_withRest agrees asked known
    have copied := @copySlot_withRest r env s le tested fun test => agrees.buffer _ (known asked fun _ => test)
    let r' : TxRest := { r with timer := Function.update r.timer (le % windowTx) ((round + 6) % 256) }
    refine ⟨r', ?_, ?_⟩
    · rw [goes, goes', answer, answer, copied]
      exact @sendCopy_withRest r' env { s.copySlot env le with vmact := (s.copySlot env le).vmact.setTimer le round }
    · refine ⟨fun x member => ?_, fun x below kept => ?_, ?_⟩
      · rw [frames.retransmissionBuffer]
        exact agrees.buffer x member
      · rw [frames.seq] at below kept
        rw [turn_timer_asked]
        by_cases here : slotIndex x = slotIndex le
        · rw [if_pos ⟨asked, here⟩]
          refine (congrArg (Function.update r.timer _ _) (here.trans (slotIndex_eq le))).trans ?_
          exact Function.update_self ..
        · rw [if_neg fun both => here both.2]
          refine (Function.update_of_ne (fun same => here (same.trans (slotIndex_eq le).symm)) ..).trans ?_
          exact agrees.timer x below kept
      · rw [frames.seq]
        exact agrees.seq
  · have stays' : turn env s.vmact.seq round (s.withRest r) le = s.withRest r :=
      if_neg fun again => asked ((asked_withRest agrees le).mp again)
    rw [turn_quiet asked, stays']
    exact ⟨r, rfl, agrees⟩

theorem turns_agree {les : List Nat} (agrees : r.Agrees stored s.vmact)
    (known : ∀ done le, done ++ [le] <+: les →
      (done.foldl (turn env s.vmact.seq round) s).SlotSet s.vmact.seq round stored le) :
    ∃ r', les.foldl (turn env s.vmact.seq round) (s.withRest r) =
      (les.foldl (turn env s.vmact.seq round) s).withRest r' ∧
        r'.Agrees stored (les.foldl (turn env s.vmact.seq round) s).vmact := by
  induction les generalizing s r with
  | nil => exact ⟨r, rfl, agrees⟩
  | cons le les ih =>
      rw [Run.forall_prefix_cons] at known
      obtain ⟨r', same, agrees'⟩ := @turn_agrees r stored env s round agrees le known.1
      have seq : (turn env s.vmact.seq round s le).vmact.seq = s.vmact.seq := (turn_sameFrames s le).seq
      have rest := ih agrees'
      rw [seq] at rest
      rw [List.foldl_cons, List.foldl_cons, same]
      exact rest known.2

end DackLoop

end Producer

/-- The slots of the numbers that a DACK has answered are set. -/
def EncodingTx.DackSet (t : EncodingTx) (stored : Set Nat) (env : Env) (data : List UInt8) : Prop :=
  ∀ done le, done ++ [le] <+: covered (readDack env.past data).holes →
    DackLoop.SlotSet t.seq (readDack env.past data).round stored
      (done.foldl (DackLoop.turn env t.seq (readDack env.past data).round) (.start t)) le

theorem answerDack_agrees {t : EncodingTx} {r : TxRest} {stored : Set Nat} (agrees : r.Agrees stored t) {env : Env}
    {data : List UInt8} (known : t.DackSet stored env data) :
    ∃ r', answerDack env (t.withRest r) data = (answerDack env t data).withRest r' ∧
      r'.Agrees stored (answerDack env t data).vmact := by
  have before : r.Agrees stored (DackLoop.start t).vmact := ⟨agrees.buffer, agrees.timer, agrees.seq⟩
  rw [answerDack_eq, answerDack_eq]
  exact DackLoop.turns_agree before known

/-! ## Runs of an encoding -/

/-- What happens to the entries of an encoding: a call, a timeout, or the DACK timer. -/
inductive Happening
  | op (call : Op)
  | dackTimer (env : Env)

/-- What `vmalloc` returns for the two kinds of entries. -/
structure Memory where
  rx : EncodingRx
  tx : EncodingTx

def Env.withMemory (env : Env) (m : Memory) : Env := { env with rxMem := m.rx, txMem := m.tx }

/-- The entries differ in unset memory only. -/
structure Entries.Agree (stored : Set Nat) (n n' : Entries) : Prop where
  rx : n.rx = none ∧ n'.rx = none ∨ ∃ e r, n.rx = some e ∧ n'.rx = some (e.withRest r) ∧ r.Agrees e
  tx : (n.tx = none ∧ n'.tx = none) ∧ stored = ∅ ∨
    ∃ t r, n.tx = some t ∧ n'.tx = some (t.withRest r) ∧ r.Agrees stored t

namespace Happening

/-- The same in other memory. -/
def withMemory (m : Memory) : Happening → Happening
  | .op (.tx env skb enc type seqtmp) => .op (.tx (env.withMemory m) skb enc type seqtmp)
  | other => other

def run (pidt : Int) (n : Entries) : Happening → Entries × List Out
  | .op call => call.own pidt n
  | .dackTimer env =>
      match n.rx with
      | none => (n, [])
      | some e => ({ n with rx := some (sendDack env e).1 }, (sendDack env e).2)

/-- The slots of the buffer that are set after it. -/
def stored (n : Entries) (before : Set Nat) : Happening → Set Nat
  | .op (.tx env _ enc type _) =>
      if type = vmacHdrData then
        match n.tx with
        | some t => t.storedAfter before env
        | none => if env.vmallocOk then (freshTx env enc).storedAfter before env else before
      else before
  | .op (.timeoutTx _) => ∅
  | _ => before

/-- Nothing unset is read. -/
def Known (n : Entries) (before : Set Nat) : Happening → Prop
  | .op (.tx _ _ _ type _) => type = vmacHdrData → ∀ t, n.tx = some t → t.SlotSet before
  | .op (.rx env skb) =>
      ((readHdr env.past skb.data).type = vmacHdrData → ∀ e, n.rx = some e →
        (e.refresh env).DataSet env (readSeq env.past (skb.pull 9).data)) ∧
      ((readHdr env.past skb.data).type = vmacHdrDack → ∀ t, n.tx = some t → t.DackSet before env (skb.pull 9).data)
  | .op (.timeoutTx _) => ∀ t, n.tx = some t → ∀ i, i < t.held → i ∈ before
  | _ => True

end Happening

section Step

variable {stored : Set Nat} {n n' : Entries} {env : Env}

/-- What `vmac_tx` does. -/
theorem txFrame_agree (agree : n.Agree stored n') (m : Memory) (skb : Skb) (enc : Enc) (type : UInt8) (seqtmp : Nat)
    (known : Happening.Known n stored (.op (.tx env skb enc type seqtmp))) :
    (txFrame (env.withMemory m) n' skb enc type seqtmp).2 = (txFrame env n skb enc type seqtmp).2 ∧
      Entries.Agree (Happening.stored n stored (.op (.tx env skb enc type seqtmp)))
        (txFrame env n skb enc type seqtmp).1 (txFrame (env.withMemory m) n' skb enc type seqtmp).1 := by
  unfold txFrame
  by_cases interest : type = vmacHdrInterest
  · have other : type ≠ vmacHdrData := interest ▸ by decide
    have after : Happening.stored n stored (.op (.tx env skb enc type seqtmp)) = stored := if_neg other
    rw [if_pos interest, if_pos interest, after]
    rcases agree.rx with ⟨none_, none_'⟩ | ⟨e, r, some_, some_', agrees⟩
    · rw [none_, none_']
      by_cases memory : env.vmallocOk = true
      · have memory' : (env.withMemory m).vmallocOk = true := memory
        dsimp only
        rw [if_pos memory, if_pos memory']
        let r : RxRest := ⟨m.rx.pad, m.rx.window, { m.rx.dacInfo with send := 0 }⟩
        refine ⟨rfl, .inr ⟨_, r, rfl, rfl, ?_, rfl, ?_⟩, agree.tx⟩
        · rintro x ⟨s, pos, le, -⟩
          exact absurd (pos.trans_le le) (Nat.lt_irrefl 0)
        · exact fun send => absurd send (show (0 : Nat) ≠ 1 by decide)
      · have memory' : ¬(env.withMemory m).vmallocOk = true := memory
        dsimp only
        rw [if_neg memory, if_neg memory']
        exact ⟨rfl, agree⟩
    · rw [some_, some_']
      exact ⟨rfl, .inr ⟨_, r, rfl, rfl, agrees.window, agrees.send, agrees.dack⟩, agree.tx⟩
  · rw [if_neg interest, if_neg interest]
    by_cases data : type = vmacHdrData
    · rw [if_pos data, if_pos data, Happening.stored, if_pos data]
      rcases agree.tx with ⟨⟨none_, none_'⟩, empty⟩ | ⟨t, r, some_, some_', agrees⟩
      · rw [none_, none_']
        by_cases memory : env.vmallocOk = true
        · have memory' : (env.withMemory m).vmallocOk = true := memory
          dsimp only
          rw [if_pos memory, if_pos memory', if_pos memory]
          have fresh : TxRest.Agrees ⟨m.tx.retransmissionBuffer, m.tx.timer⟩ stored (freshTx env enc) := by
            refine ⟨fun x member => ?_, fun le below => absurd below (Nat.not_lt_zero le),
              show 0 < 65536 by decide⟩
            rw [empty] at member
            cases member
          have early : (freshTx env enc).SlotSet stored := fun full =>
            absurd full (show ¬windowTx ≤ 0 by decide)
          obtain ⟨r', same, agrees'⟩ := txData_agrees fresh env enc skb early
          have record : txData (env.withMemory m) (freshTx (env.withMemory m) enc) enc skb =
              txData env ((freshTx env enc).withRest ⟨m.tx.retransmissionBuffer, m.tx.timer⟩) enc skb := rfl
          rw [record, same]
          exact ⟨rfl, agree.rx, .inr ⟨_, r', rfl, rfl, agrees'⟩⟩
        · have memory' : ¬(env.withMemory m).vmallocOk = true := memory
          dsimp only
          rw [if_neg memory, if_neg memory', if_neg memory]
          exact ⟨rfl, agree⟩
      · obtain ⟨r', same, agrees'⟩ := txData_agrees agrees env enc skb (known data t some_)
        have record : txData (env.withMemory m) (t.withRest r) enc skb = txData env (t.withRest r) enc skb := rfl
        rw [some_, some_']
        dsimp only
        rw [record, same]
        exact ⟨rfl, agree.rx, .inr ⟨_, r', rfl, rfl, agrees'⟩⟩
    · rw [if_neg data, if_neg data, Happening.stored, if_neg data]
      split
      · exact ⟨rfl, agree⟩
      · split
        · exact ⟨rfl, agree⟩
        · exact ⟨rfl, agree⟩

/-- What `vmac_rx` does. -/
theorem rxFrame_agree (agree : n.Agree stored n') (pidt : Int) (skb : Skb)
    (known : Happening.Known n stored (.op (.rx env skb))) :
    (rxFrame env pidt n' (readHdr env.past skb.data) (skb.pull 9)).2 =
        (rxFrame env pidt n (readHdr env.past skb.data) (skb.pull 9)).2 ∧
      Entries.Agree stored (rxFrame env pidt n (readHdr env.past skb.data) (skb.pull 9)).1
        (rxFrame env pidt n' (readHdr env.past skb.data) (skb.pull 9)).1 := by
  obtain ⟨knownData, knownDack⟩ := known
  unfold rxFrame
  by_cases interest : (readHdr env.past skb.data).type = vmacHdrInterest
  · rw [if_pos interest, if_pos interest]
    exact ⟨rfl, agree⟩
  · rw [if_neg interest, if_neg interest]
    by_cases data : (readHdr env.past skb.data).type = vmacHdrData
    · rw [if_pos data, if_pos data]
      rcases agree.rx with ⟨none_, none_'⟩ | ⟨e, r, some_, some_', agrees⟩
      · rw [none_, none_']
        exact ⟨rfl, agree⟩
      · obtain ⟨r', same, agrees'⟩ := rxData_agrees agrees pidt (readHdr env.past skb.data).enc
          (knownData data e some_)
        rw [some_, some_']
        dsimp only
        rw [same]
        exact ⟨rfl, .inr ⟨_, r', rfl, rfl, agrees'⟩, agree.tx⟩
    · rw [if_neg data, if_neg data]
      by_cases dack : (readHdr env.past skb.data).type = vmacHdrDack
      · rw [if_pos dack, if_pos dack]
        rcases agree.tx with ⟨⟨none_, none_'⟩, empty⟩ | ⟨t, r, some_, some_', agrees⟩
        · rw [none_, none_']
          exact ⟨rfl, agree⟩
        · obtain ⟨r', same, agrees'⟩ := answerDack_agrees agrees (knownDack dack t some_)
          rw [some_, some_']
          dsimp only
          rw [same]
          exact ⟨rfl, agree.rx, .inr ⟨_, r', rfl, rfl, agrees'⟩⟩
      · rw [if_neg dack, if_neg dack]
        split
        · exact ⟨rfl, agree⟩
        · split
          · exact ⟨rfl, agree⟩
          · exact ⟨rfl, agree⟩

/-- One step. -/
theorem Happening.step {h : Happening} (agree : n.Agree stored n') (pidt : Int) (m : Memory)
    (known : h.Known n stored) :
    (Happening.run pidt n' (h.withMemory m)).2 = (h.run pidt n).2 ∧
      Entries.Agree (h.stored n stored) (h.run pidt n).1 (Happening.run pidt n' (h.withMemory m)).1 := by
  cases h with
  | op call =>
      cases call with
      | tx env skb enc type seqtmp => exact txFrame_agree agree m skb enc type seqtmp known
      | rx env skb => exact rxFrame_agree agree pidt skb known
      | timeoutRx e => exact ⟨rfl, .inl ⟨rfl, rfl⟩, agree.tx⟩
      | timeoutTx owner =>
          simp only [Happening.run, Happening.withMemory, Op.own, processEntries]
          rcases agree.tx with ⟨⟨none_, none_'⟩, -⟩ | ⟨t, r, some_, some_', agrees⟩
          · simp only [none_, none_']
            exact ⟨trivial, agree.rx, .inl ⟨⟨none_, none_'⟩, rfl⟩⟩
          · have held : (t.withRest r).releaseCopies = t.releaseCopies := by
              refine List.flatMap_congr fun i member => ?_
              exact congrArg kfreeSkb (agrees.buffer i (known t some_ i (List.mem_range.mp member)))
            simp only [some_, some_', held]
            exact ⟨trivial, agree.rx, .inl ⟨⟨rfl, rfl⟩, rfl⟩⟩
  | dackTimer env =>
      rcases agree.rx with ⟨none_, none_'⟩ | ⟨e, r, some_, some_', agrees⟩
      · simp only [Happening.run, Happening.withMemory, none_, none_']
        exact ⟨trivial, agree⟩
      · obtain ⟨r', same, agrees'⟩ := sendDack_agrees agrees env
        simp only [Happening.run, Happening.withMemory, some_, some_', same]
        exact ⟨trivial, .inr ⟨_, r', rfl, rfl, agrees'⟩, agree.tx⟩

end Step

/-! ## Independence -/

/-- What is done to the outside, step by step. -/
def outsOf (pidt : Int) : Entries → List Happening → List (List Out)
  | _, [] => []
  | n, h :: hs => (h.run pidt n).2 :: outsOf pidt (h.run pidt n).1 hs

/-- No step of the run reads what is unset. -/
def AllKnown (pidt : Int) : Entries → Set Nat → List Happening → Prop
  | _, _, [] => True
  | n, stored, h :: hs => h.Known n stored ∧ AllKnown pidt (h.run pidt n).1 (h.stored n stored) hs

/-- The second run is the first one in other memory, at each `vmalloc`. -/
def OtherMemory (hs hs' : List Happening) : Prop := List.Forall₂ (fun h h' => ∃ m, h' = h.withMemory m) hs hs'

theorem outsOf_agree {pidt : Int} {n n' : Entries} {stored : Set Nat} {hs hs' : List Happening}
    (agree : n.Agree stored n') (known : AllKnown pidt n stored hs) (other : OtherMemory hs hs') :
    outsOf pidt n' hs' = outsOf pidt n hs := by
  induction other generalizing n n' stored with
  | nil => rfl
  | cons first _ ih =>
      obtain ⟨m, rfl⟩ := first
      obtain ⟨outs, next⟩ := Happening.step agree pidt m known.1
      rw [outsOf, outsOf, outs, ih next known.2]

/-- An encoding without entries. -/
def Entries.empty : Entries := ⟨none, none⟩

/-- If nothing unset is read, the runs of an encoding do the same in all memories. -/
theorem same_outs {pidt : Int} {hs hs' : List Happening} (known : AllKnown pidt .empty ∅ hs)
    (other : OtherMemory hs hs') : outsOf pidt .empty hs' = outsOf pidt .empty hs :=
  outsOf_agree ⟨.inl ⟨rfl, rfl⟩, .inl ⟨⟨rfl, rfl⟩, rfl⟩⟩ known other

/-- An interest creates the entry in the given memory, and a data frame comes. -/
def firstFrame (m : Memory) (seq : Nat) : List Happening :=
  [.op (.tx (Env.quiet.withMemory m) ⟨0, []⟩ 7 vmacHdrInterest 0),
    .op (.rx (dataArrival .quiet 7 seq).1 (dataArrival .quiet 7 seq).2)]

/-- Memory that was cleared, and memory that has ones where the window will be. -/
def clearedMemory : Memory := ⟨.zero 0, .zero 0⟩

def usedMemory : Memory := ⟨{ EncodingRx.zero 0 with window := fun _ => 1 }, .zero 0⟩

theorem firstFrame_other (seq : Nat) : OtherMemory (firstFrame clearedMemory seq) (firstFrame usedMemory seq) :=
  .cons ⟨usedMemory, rfl⟩ (.cons ⟨usedMemory, rfl⟩ .nil)

theorem same_outs_one : outsOf 5 .empty (firstFrame usedMemory 1) = outsOf 5 .empty (firstFrame clearedMemory 1) := by
  have other := firstFrame_other 1
  refine same_outs ⟨fun data => absurd data (by decide), ⟨fun _ e _ => ?_, fun dack => ?_⟩, trivial⟩ other
  · have seq : readSeq (dataArrival .quiet 7 1).1.past ((dataArrival .quiet 7 1).2.pull 9).data = 1 :=
      seqOf_dataArrival .quiet 7 (by decide)
    rw [seq]
    refine ⟨fun zero => absurd zero (by decide), fun f _ _ due => ?_⟩
    have due : f.round + 5 ≤ 1 := of_decide_eq_true due
    omega
  · have hdr : readHdr (dataArrival .quiet 7 1).1.past (dataArrival .quiet 7 1).2.data = ⟨7, vmacHdrData⟩ :=
      isData_dataArrival .quiet 7 1
    rw [hdr] at dack
    exact absurd dack (by decide)

/-- Frame 0 is told to the process in one run and dropped as a duplicate in the other. -/
theorem outs_differ : OtherMemory (firstFrame clearedMemory 0) (firstFrame usedMemory 0) ∧
    outsOf 5 .empty (firstFrame usedMemory 0) ≠ outsOf 5 .empty (firstFrame clearedMemory 0) := by
  refine ⟨firstFrame_other 0, ?_⟩
  decide +kernel

end Vmac.Core
