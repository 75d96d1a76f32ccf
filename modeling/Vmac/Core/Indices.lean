/-
# Vmac.Core.Indices -- the elements that the loops of a DACK touch

`prepDACK` looks below a lost slot at `window[tmp % WINDOW - 1]`, which is in front of the array
when `tmp` is a multiple of `WINDOW`.  The producer tests a slot at `le > WINDOW_TX ? ..`, which
is behind the array when `le` is `WINDOW_TX`; everywhere else it reduces the number.

* `absorbBackReads`, `absorbForwardReads`, `prepReads`: the indices of `window[]`, loop by loop.
* `holeAccesses`, `holesAccesses`: those of `retransmission_buffer[]` and `timer[]`.
* `indices_iff`: the rounds and the hole lists for which all of them are in range.
-/
import Vmac.Core.Runs
import Vmac.Core.Pacing
import Mathlib.Data.Finset.Card

namespace Vmac.Core

open Theory

set_option autoImplicit false

/-! ## The window of the consumer -/

/-- `tmp % WINDOW - 1`. -/
def belowIndex (tmp : Nat) : Int := (tmp % windowSize : Nat) - 1

/-- An index of `window[]`. -/
def InRing (index : Int) : Prop := 0 ≤ index ∧ index < windowSize

instance (index : Int) : Decidable (InRing index) := inferInstanceAs (Decidable (_ ∧ _))

namespace EncodingRx

variable (e : EncodingRx)

/-- What `absorbBack` reads: the slot comes first in the condition, also at 0. -/
def absorbBackReads (start : Nat) : Nat → List Int
  | 0 => [belowIndex 0]
  | tmp + 1 =>
      belowIndex (tmp + 1) :: if e.windowBelow (tmp + 1) = 0 ∧ start < tmp then absorbBackReads start tmp else []

/-- What `absorbForward` reads. -/
def absorbForwardReads (lattmp : Nat) : Nat → Nat → List Int
  | 0, i => [(i % windowSize : Nat)]
  | n + 1, i =>
      (i % windowSize : Nat) ::
        if e.window (i % windowSize) = 0 ∧ i + 1 < lattmp then absorbForwardReads lattmp n (i + 1) else []

/-- What a turn of the scan reads. -/
def turnReads (start lattmp i : Nat) : List Int :=
  (i % windowSize : Nat) ::
    if e.window (i % windowSize) = 0 then
      e.absorbBackReads start i ++ e.absorbForwardReads lattmp (lattmp - i) i
    else []

/-- What `scanLoop` reads. -/
def scanReads (start lattmp : Nat) : Nat → Scan → List Int
  | 0, _ => []
  | n + 1, s =>
      if s.i < lattmp ∧ s.holes.length < holesMax then
        e.turnReads start lattmp s.i ++ scanReads start lattmp n (e.scanTurn start lattmp s)
      else []

/-- The indices of `window[]` that `prepDACK` reads for a round. -/
def prepReads (round : Nat) : List Int :=
  e.scanReads (scanStart (lattmp round)) (lattmp round) (lattmp round) ⟨scanStart (lattmp round), [], 0⟩

variable {e} {start stop : Nat}

theorem inRing_slot (i : Nat) : InRing (i % windowSize : Nat) :=
  ⟨Int.natCast_nonneg _, Int.ofNat_lt.mpr (Nat.mod_lt _ windowSize_pos)⟩

theorem inRing_belowIndex (tmp : Nat) : InRing (belowIndex tmp) ↔ tmp % windowSize ≠ 0 := by
  have := Nat.mod_lt tmp windowSize_pos
  rw [InRing, belowIndex]
  omega

theorem absorbForwardReads_inRing (n i : Nat) : ∀ x ∈ e.absorbForwardReads stop n i, InRing x := by
  induction n generalizing i with
  | zero => simpa [absorbForwardReads] using inRing_slot i
  | succ n ih =>
      rw [absorbForwardReads, List.forall_mem_cons]
      refine ⟨inRing_slot i, ?_⟩
      split
      · exact ih (i + 1)
      · simp

/-- At the first number of a run the backward loop reads one slot; what is below it is not lost. -/
theorem absorbBackReads_first {i : Nat} (first : i = start ∨ e.lost (i - 1) = false) :
    (∀ x ∈ e.absorbBackReads start i, InRing x) ↔ i % windowSize ≠ 0 := by
  rw [← inRing_belowIndex]
  cases i with
  | zero => simp [absorbBackReads]
  | succ tmp =>
      rw [absorbBackReads, List.forall_mem_cons]
      refine and_iff_left_of_imp fun inside => ?_
      have stops : ¬(e.windowBelow (tmp + 1) = 0 ∧ start < tmp) := by
        rintro ⟨below, after⟩
        rcases first with here | received
        · omega
        · have step : (tmp + 1) % windowSize - 1 = tmp % windowSize := by
            have apart := (inRing_belowIndex _).mp inside
            rw [show windowSize = 700 from rfl] at apart ⊢
            omega
          rw [windowBelow, if_neg ((inRing_belowIndex _).mp inside), step] at below
          simp [lost, below] at received
      simp [stops]

/-- The turn at a lost number. -/
theorem turnReads_hole {s : Scan} (between : e.Between start stop s) (more : s.i < stop) (empty : e.lost s.i = true) :
    (∀ x ∈ e.turnReads start stop s.i, InRing x) ↔ s.i % windowSize ≠ 0 := by
  have first : s.i = start ∨ e.lost (s.i - 1) = false := by
    have := between.first
    rcases this with here | behind | received
    · exact .inl here
    · omega
    · exact .inr received
  rw [turnReads, if_pos (of_decide_eq_true empty), List.forall_mem_cons, List.forall_mem_append,
    absorbBackReads_first first]
  exact ⟨fun all => all.2.1, fun apart => ⟨inRing_slot _, apart, absorbForwardReads_inRing _ _⟩⟩

theorem turnReads_skip {i : Nat} (full : e.lost i = false) : ∀ x ∈ e.turnReads start stop i, InRing x := by
  rw [turnReads, if_neg (of_decide_eq_false full)]
  simpa using inRing_slot i

/-- No run that gets a hole begins at a multiple of `WINDOW`. -/
def RunsApart (e : EncodingRx) (start stop from_ : Nat) : Prop :=
  ∀ i, from_ ≤ i → i < stop → e.startsRun start i = true → e.runsBelow start i < holesMax → i % windowSize ≠ 0

/-- The loop reads inside the ring if no run that it makes a hole of begins at a multiple of `WINDOW`. -/
theorem scanReads_inRing {n : Nat} {s : Scan} (between : e.Between start stop s) (fuel : stop ≤ s.i + n) :
    (∀ x ∈ e.scanReads start stop n s, InRing x) ↔ e.RunsApart start stop s.i := by
  induction n generalizing s with
  | zero =>
      refine iff_of_true (by simp [scanReads]) fun i low high => ?_
      omega
  | succ n ih =>
      rw [scanReads]
      by_cases more : s.i < stop ∧ s.holes.length < holesMax
      · rw [if_pos more, List.forall_mem_append]
        cases empty : e.lost s.i with
        | true =>
            obtain ⟨re, low, high, run, next, -, after⟩ := between.hole more.1 empty
            rw [turnReads_hole between more.1 empty, ih after (by omega), next]
            constructor
            · rintro ⟨apart, rest⟩ i low' high' starts few
              by_cases here : i = s.i
              · exact here ▸ apart
              · by_cases inside : i ≤ re
                · rw [startsRun_inside between.above run (by omega) inside] at starts
                  cases starts
                · exact rest i (by omega) high' starts few
            · intro apart
              refine ⟨apart s.i le_rfl more.1 (between.starts more.1 empty) ?_, fun i low' => apart i (by omega)⟩
              exact between.holes ▸ more.2
        | false =>
            obtain ⟨turn, after⟩ := between.skip more.1 empty
            rw [turn, ih after (show stop ≤ s.i + 1 + n by omega), and_iff_right (turnReads_skip empty)]
            constructor
            · intro rest i low' high' starts few
              by_cases here : i = s.i
              · have lost := startsRun_lost starts
                rw [here, empty] at lost
                cases lost
              · exact rest i (show s.i + 1 ≤ i by omega) high' starts few
            · exact fun apart i low' => apart i (show s.i ≤ i from Nat.le_of_succ_le low')
      · rw [if_neg more]
        refine iff_of_true (by simp) fun i low high starts few => ?_
        have := runsBelow_mono (e := e) between.above low
        have := between.holes
        omega

/-- The same of the runs of a round. -/
def BoundaryKept (e : EncodingRx) (round : Nat) : Prop :=
  e.RunsApart (scanStart (lattmp round)) (lattmp round) (scanStart (lattmp round))

theorem prepReads_inRing (e : EncodingRx) (round : Nat) :
    (∀ x ∈ e.prepReads round, InRing x) ↔ e.BoundaryKept round :=
  scanReads_inRing (.begin (scanStart_le _)) (Nat.le_add_left ..)

end EncodingRx

/-! ## The buffer and the timers of the producer -/

/-- An access to one of the two arrays. -/
inductive TxAccess
  | buffer (index : Nat)
  | timer (index : Nat)
  deriving DecidableEq, Repr

def TxAccess.index : TxAccess → Nat
  | .buffer index | .timer index => index

/-- `le > WINDOW_TX ? le % WINDOW_TX : le`. -/
def testIndex (le : Nat) : Nat := if le > windowTx then le % windowTx else le

theorem testIndex_lt (le : Nat) : testIndex le < windowTx ↔ le ≠ windowTx := by
  have := Nat.mod_lt le (show 0 < windowTx by decide)
  rw [testIndex]
  split <;> omega

namespace DackLoop

variable (env : Env) (seq round : Nat)

/-- What `answer` accesses. -/
def answerAccesses (s : DackLoop) (le : Nat) : List TxAccess :=
  .buffer (testIndex le) :: (if s.vmact.slotTest le then [.buffer (slotIndex le)] else []) ++ [.timer (le % windowTx)]

/-- What `holeLoop` accesses. -/
def holeAccesses (re : Nat) : Nat → Nat → DackLoop → List TxAccess
  | 0, _, _ => []
  | n + 1, le, s =>
      if le < re ∧ le < seq then
        .timer (slotIndex le) ::
          if s.vmact.answers seq round le then
            if maxretx ≤ s.counter then []
            else s.answerAccesses le ++ holeAccesses re n (le + 1) (s.answer env round le)
          else holeAccesses re n (le + 1) s
      else []

/-- What `holesLoop` accesses. -/
def holesAccesses : List VmacHole → DackLoop → List TxAccess
  | [], _ => []
  | hole :: holes, s =>
      holeAccesses env seq round hole.re (hole.re - hole.le) hole.le s ++
        holesAccesses holes (s.holeLoop env seq round hole.re (hole.re - hole.le) hole.le)

/-- `le` is answered. -/
def Asked (s : DackLoop) (le : Nat) : Prop :=
  le < seq ∧ s.vmact.answers seq round le = true ∧ s.counter < maxretx

instance (s : DackLoop) (le : Nat) : Decidable (s.Asked seq round le) := inferInstanceAs (Decidable (_ ∧ _ ∧ _))

/-- Frame `WINDOW_TX` is answered at some point of the list. -/
def ReachesTop : DackLoop → List Nat → Prop
  | _, [] => False
  | s, le :: les => (le = windowTx ∧ s.Asked seq round le) ∨ ReachesTop (turn env seq round s le) les

variable {env seq round} {s : DackLoop}

theorem reachesTop_append (les rest : List Nat) :
    ReachesTop env seq round s (les ++ rest) ↔
      ReachesTop env seq round s les ∨ ReachesTop env seq round (les.foldl (turn env seq round) s) rest := by
  induction les generalizing s with
  | nil => simp [ReachesTop]
  | cons le les ih => simp only [List.cons_append, ReachesTop, ih, List.foldl_cons, or_assoc]

/-- Where nothing is answered, frame `WINDOW_TX` is not. -/
theorem not_reachesTop {les : List Nat} (quiet : ∀ le ∈ les, ¬s.Asked seq round le) :
    ¬ReachesTop env seq round s les := by
  induction les with
  | nil => exact id
  | cons le les ih =>
      rw [List.forall_mem_cons] at quiet
      have stays : turn env seq round s le = s := if_neg quiet.1
      rw [ReachesTop, stays]
      rintro (here | later)
      · exact quiet.1 here.2
      · exact ih quiet.2 later

theorem answerAccesses_inRange (le : Nat) : (∀ a ∈ s.answerAccesses le, a.index < windowTx) ↔ le ≠ windowTx := by
  have slot := slotIndex_lt le
  have written : le % windowTx < windowTx := Nat.mod_lt _ (by decide)
  rw [← testIndex_lt]
  cases tested : s.vmact.slotTest le <;> simp [answerAccesses, tested, TxAccess.index, slot, written]

theorem holeAccesses_inRange {re n le : Nat} (inside : n ≤ re - le) :
    (∀ a ∈ holeAccesses env seq round re n le s, a.index < windowTx) ↔
      ¬ReachesTop env seq round s (List.range' le n) := by
  induction n generalizing le s with
  | zero => simp [holeAccesses, ReachesTop]
  | succ n ih =>
      rw [holeAccesses, List.range'_succ]
      by_cases below : le < seq
      · rw [if_pos ⟨by omega, below⟩, List.forall_mem_cons,
          and_iff_right (show TxAccess.index _ < _ from slotIndex_lt le)]
        by_cases asked : s.vmact.answers seq round le = true
        · rw [if_pos asked]
          by_cases full : maxretx ≤ s.counter
          · rw [if_pos full]
            refine iff_of_true (by simp) (not_reachesTop fun _ _ answered => ?_)
            exact absurd answered.2.2 (Nat.not_lt.mpr full)
          · have answered : s.Asked seq round le := ⟨below, asked, by omega⟩
            have goes : turn env seq round s le = s.answer env round le := if_pos answered
            rw [if_neg full, List.forall_mem_append, answerAccesses_inRange, ih (by omega), ReachesTop, goes, not_or]
            simp [answered]
        · have stays : turn env seq round s le = s := if_neg fun answered => asked answered.2.1
          rw [if_neg asked, ih (by omega), ReachesTop, stays, not_or,
            and_iff_right fun here => asked here.2.2.1]
      · rw [if_neg fun both => below both.2]
        refine iff_of_true (by simp) (@not_reachesTop env seq round s (le :: _) fun x member answered => ?_)
        rw [← List.range'_succ, List.mem_range'_1] at member
        exact absurd answered.1 (by omega)

theorem holesAccesses_inRange (holes : List VmacHole) :
    (∀ a ∈ holesAccesses env seq round holes s, a.index < windowTx) ↔
      ¬ReachesTop env seq round s (covered holes) := by
  induction holes generalizing s with
  | nil => simp [holesAccesses, covered, ReachesTop]
  | cons hole holes ih =>
      have first : covered (hole :: holes) = List.range' hole.le (hole.re - hole.le) ++ covered holes :=
        List.flatMap_cons
      rw [holesAccesses, List.forall_mem_append, holeAccesses_inRange le_rfl, ih, first, reachesTop_append, not_or,
        holeLoop_eq env seq round _ _ _ le_rfl]

/-! ## The copies before frame `WINDOW_TX` -/

end DackLoop

namespace EncodingTx

variable (t : EncodingTx) (round : Nat)

/-- The number is answered with a copy. -/
def copyable (le : Nat) : Bool :=
  decide (le < t.seq ∧ t.answers t.seq round le = true) && (t.retransmissionBuffer (slotIndex le)).isSome

/-- The copies for a list of numbers: below round 250 a pacing timer stops the second one of a number. -/
def copiesFor (les : List Nat) : Nat :=
  if round < 250 then (les.filter (t.copyable round)).toFinset.card else (les.filter (t.copyable round)).length

variable {t round}

theorem copiesFor_append (les : List Nat) (le : Nat) :
    t.copiesFor round (les ++ [le]) =
      t.copiesFor round les + if t.copyable round le = true ∧ (round < 250 → le ∉ les) then 1 else 0 := by
  cases copied : t.copyable round le with
  | false => simp [copiesFor, List.filter_append, copied]
  | true =>
      by_cases low : round < 250
      · by_cases again : le ∈ les
        · simp [copiesFor, low, List.filter_append, copied, again, Finset.union_eq_left.mpr]
        · simp [copiesFor, low, List.filter_append, copied, again]
      · simp [copiesFor, low, List.filter_append, copied]

end EncodingTx

namespace DackLoop

variable {env : Env} {seq round : Nat} {s : DackLoop}

theorem sendCopy_counter (s : DackLoop) : (s.sendCopy env).counter = s.counter := by
  unfold sendCopy
  split <;> rfl

theorem copySlot_counter (s : DackLoop) (le : Nat) :
    (s.copySlot env le).counter = s.counter + if s.vmact.slotTest le then 1 else 0 := by
  unfold copySlot
  split
  · split
    · split <;> rfl
    · rfl
  · rfl

theorem turn_counter (s : DackLoop) (le : Nat) (asked : s.Asked seq round le) :
    (turn env seq round s le).counter = s.counter + if s.vmact.slotTest le then 1 else 0 := by
  have goes : turn env seq round s le = s.answer env round le := if_pos asked
  rw [goes, answer, sendCopy_counter]
  exact copySlot_counter s le

theorem turn_quiet {le : Nat} (quiet : ¬s.Asked seq round le) : turn env seq round s le = s := if_neg quiet

theorem turn_timer_asked (s : DackLoop) (le k : Nat) :
    (turn env seq round s le).vmact.timer k =
      if s.Asked seq round le ∧ k = slotIndex le then (round + 6) % 256 else s.vmact.timer k := by
  rw [slotIndex_eq]
  exact turn_timer s le k

theorem turns_counter_le (les : List Nat) : s.counter ≤ (les.foldl (turn env seq round) s).counter := by
  induction les generalizing s with
  | nil => exact le_rfl
  | cons le les ih =>
      refine le_trans ?_ ih
      by_cases asked : s.Asked seq round le
      · rw [turn_counter s le asked]
        exact Nat.le_add_right ..
      · rw [turn_quiet asked]

/-- The slot test of another frame is right. -/
theorem slotTest_other {t : EncodingTx} {le : Nat} (other : le ≠ windowTx) :
    t.slotTest le = (t.retransmissionBuffer (slotIndex le)).isSome := by
  have index : (if le > windowTx then le % windowTx else le) = slotIndex le := by
    rw [slotIndex]
    split <;> split <;> omega
  rw [EncodingTx.slotTest, if_neg other, index]

/-- Two numbers of the buffer have two slots. -/
theorem slotIndex_inj {a b : Nat} (inA : a < seq) (keptA : seq ≤ a + windowTx) (inB : b < seq)
    (keptB : seq ≤ b + windowTx) (same : slotIndex a = slotIndex b) : a = b := by
  rw [slotIndex_eq, slotIndex_eq] at same
  rcases Nat.lt_trichotomy a b with lt | eq | gt
  · exact absurd same (slot_apart lt (decide_eq_true keptA) inB)
  · exact eq
  · exact absurd same.symm (slot_apart gt (decide_eq_true keptB) inA)

theorem answers_iff {t : EncodingTx} {le : Nat} :
    t.answers seq round le = true ↔ t.timer (slotIndex le) ≤ round ∧ seq ≤ le + windowTx := by
  rw [EncodingTx.answers, decide_eq_true_iff]
  refine and_congr_right fun _ => ?_
  split <;> omega

/-- The loops after some numbers, frame `WINDOW_TX` not among them. -/
structure Counted (t : EncodingTx) (round : Nat) (les : List Nat) (s : DackLoop) : Prop where
  buffer : s.vmact.retransmissionBuffer = t.retransmissionBuffer
  counter : s.counter = min maxretx (t.copiesFor round les)
  timer : s.counter < maxretx → ∀ le, le < t.seq → t.seq ≤ le + windowTx →
    (s.vmact.timer (slotIndex le) ≤ round ↔ t.timer (slotIndex le) ≤ round ∧ (round < 250 → le ∉ les))

theorem Counted.step {t : EncodingTx} {les : List Nat} (counted : Counted t round les s) {le : Nat}
    (other : le ≠ windowTx) : Counted t round (les ++ [le]) (turn env t.seq round s le) := by
  have tested : s.vmact.slotTest le = (t.retransmissionBuffer (slotIndex le)).isSome := by
    rw [slotTest_other other, counted.buffer]
  have buffer : (turn env t.seq round s le).vmact.retransmissionBuffer = t.retransmissionBuffer :=
    (turn_sameFrames s le).retransmissionBuffer.trans counted.buffer
  have count := counted.counter
  have more := @EncodingTx.copiesFor_append t round les le
  by_cases full : maxretx ≤ s.counter
  · have stays : turn env t.seq round s le = s := turn_quiet fun asked => absurd asked.2.2 (Nat.not_lt.mpr full)
    refine ⟨buffer, ?_, fun room => ?_⟩
    · rw [stays]
      omega
    · rw [stays] at room
      omega
  · have room : s.counter < maxretx := Nat.lt_of_not_le full
    have answered : s.Asked t.seq round le ↔
        (le < t.seq ∧ t.answers t.seq round le = true) ∧ (round < 250 → le ∉ les) := by
      rw [Asked, answers_iff, answers_iff]
      constructor
      · rintro ⟨below, ⟨timer, kept⟩, -⟩
        obtain ⟨paced, fresh⟩ := (counted.timer room le below kept).mp timer
        exact ⟨⟨below, paced, kept⟩, fresh⟩
      · rintro ⟨⟨below, paced, kept⟩, fresh⟩
        exact ⟨below, ⟨(counted.timer room le below kept).mpr ⟨paced, fresh⟩, kept⟩, room⟩
    have copied : (t.copyable round le = true ∧ (round < 250 → le ∉ les)) ↔
        s.Asked t.seq round le ∧ s.vmact.slotTest le = true := by
      rw [answered, tested, EncodingTx.copyable, Bool.and_eq_true, decide_eq_true_iff]
      exact and_right_comm
    refine ⟨buffer, ?_, fun _ x below kept => ?_⟩
    · by_cases asked : s.Asked t.seq round le
      · rw [turn_counter s le asked, more]
        simp only [copied, asked, true_and]
        split <;> omega
      · rw [turn_quiet asked, more, if_neg fun both => asked (copied.mp both).1, count, Nat.add_zero]
    · rw [turn_timer_asked, List.mem_append, List.mem_singleton, not_or]
      by_cases here : s.Asked t.seq round le ∧ slotIndex x = slotIndex le
      · obtain ⟨⟨belowLe, asked⟩, -⟩ := answered.mp here.1
        obtain ⟨paced, keptLe⟩ := answers_iff.mp asked
        obtain rfl : x = le := slotIndex_inj below kept belowLe keptLe here.2
        rw [if_pos here]
        simp only [paced, not_true_eq_false, and_false, imp_false, true_and]
        omega
      · rw [if_neg here, counted.timer room x below kept]
        refine and_congr_right fun paced => ?_
        constructor
        · refine fun fresh low => ⟨fresh low, ?_⟩
          rintro rfl
          exact here ⟨answered.mpr ⟨⟨below, answers_iff.mpr ⟨paced, kept⟩⟩, fresh⟩, rfl⟩
        · exact fun fresh low => (fresh low).1

theorem Counted.start (t : EncodingTx) : Counted t round [] (.start t) := by
  refine ⟨rfl, ?_, fun _ le _ _ => ?_⟩
  · simp [DackLoop.start, EncodingTx.copiesFor]
  · simp [DackLoop.start]

theorem Counted.run {t : EncodingTx} {les : List Nat} (others : windowTx ∉ les) :
    Counted t round les (les.foldl (turn env t.seq round) (.start t)) := by
  induction les using List.reverseRecOn with
  | nil => exact .start t
  | append_singleton les le ih =>
      rw [List.mem_append, List.mem_singleton, not_or] at others
      rw [List.foldl_append]
      exact (ih others.1).step (Ne.symm others.2)

/-- The timer of frame `WINDOW_TX` is that of frame 0, which is out of the buffer when it is in. -/
theorem turn_answersTop {le : Nat} (below : windowTx < seq) (other : le ≠ windowTx) :
    (turn env seq round s le).vmact.answers seq round windowTx = s.vmact.answers seq round windowTx := by
  rw [Bool.eq_iff_iff, answers_iff, answers_iff]
  refine and_congr_left fun kept => ?_
  rw [turn_timer_asked, if_neg]
  rintro ⟨⟨belowLe, asked, -⟩, slot⟩
  exact other (slotIndex_inj belowLe (answers_iff.mp asked).2 below kept slot.symm)

/-- Frame `WINDOW_TX` is answered if it is where it comes first. -/
theorem reachesTop_iff (les : List Nat) :
    ReachesTop env seq round s les ↔
      windowTx ∈ les ∧ windowTx < seq ∧ s.vmact.answers seq round windowTx = true ∧
        ((les.takeWhile (· ≠ windowTx)).foldl (turn env seq round) s).counter < maxretx := by
  induction les generalizing s with
  | nil => simp [ReachesTop]
  | cons le les ih =>
      rw [ReachesTop, ih]
      by_cases here : le = windowTx
      · subst here
        by_cases asked : s.Asked seq round windowTx
        · exact iff_of_true (.inl ⟨rfl, asked⟩) ⟨List.mem_cons_self, asked.1, asked.2.1, by simpa using asked.2.2⟩
        · rw [turn_quiet asked]
          refine iff_of_false ?_ ?_
          · rintro (now | ⟨-, below, answers, few⟩)
            · exact asked now.2
            · exact asked ⟨below, answers, (turns_counter_le _).trans_lt few⟩
          · rintro ⟨-, below, answers, few⟩
            exact asked ⟨below, answers, by simpa using few⟩
      · have member : windowTx ∈ le :: les ↔ windowTx ∈ les := by
          rw [List.mem_cons, or_iff_right (Ne.symm here)]
        have before : (le :: les).takeWhile (· ≠ windowTx) = le :: les.takeWhile (· ≠ windowTx) :=
          List.takeWhile_cons_of_pos (decide_eq_true here)
        rw [or_iff_right fun now => here now.1, member, before, List.foldl_cons]
        refine and_congr_right fun _ => and_congr_right fun below => ?_
        rw [turn_answersTop below here]

end DackLoop

/-- Frame `WINDOW_TX` is not asked for while it is answered, or the twenty copies are made before it. -/
def EncodingTx.TopSpared (t : EncodingTx) (round : Nat) (holes : List VmacHole) : Prop :=
  windowTx ∈ covered holes → windowTx < t.seq → t.answers t.seq round windowTx = true →
    maxretx ≤ t.copiesFor round ((covered holes).takeWhile (· ≠ windowTx))

/-- Which rounds, holes, windows and buffers keep all indices in range. -/
theorem indices_iff (e : EncodingRx) (env : Env) (t : EncodingTx) (round : Nat) (holes : List VmacHole) :
    ((∀ x ∈ e.prepReads round, InRing x) ↔ e.BoundaryKept round) ∧
    ((∀ a ∈ DackLoop.holesAccesses env t.seq round holes (.start t), a.index < windowTx) ↔
      t.TopSpared round holes) := by
  refine ⟨e.prepReads_inRing round, ?_⟩
  have others : windowTx ∉ (covered holes).takeWhile (· ≠ windowTx) := fun member => by
    simpa using List.all_eq_true.mp List.all_takeWhile windowTx member
  rw [DackLoop.holesAccesses_inRange, DackLoop.reachesTop_iff, (DackLoop.Counted.run others).counter,
    EncodingTx.TopSpared]
  have same : (DackLoop.start t).vmact.answers t.seq round windowTx = t.answers t.seq round windowTx := rfl
  rw [same]
  constructor
  · intro spared member below answers
    by_contra few
    exact spared ⟨member, below, answers, by omega⟩
  · rintro spared ⟨member, below, answers, few⟩
    have := spared member below answers
    omega

/-- A consumer that has received nothing, and a producer that is asked for frame 500. -/
theorem indices_outside :
    (¬∀ x ∈ (EncodingRx.zero 7).prepReads 1, InRing x) ∧
    ¬∀ a ∈ DackLoop.holesAccesses .quiet 501 1 [⟨500, 501⟩] (.start { EncodingTx.zero 7 with seq := 501 }),
      a.index < windowTx := by
  decide +kernel

end Vmac.Core
