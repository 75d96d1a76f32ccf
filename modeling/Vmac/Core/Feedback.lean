/-
# Vmac.Core.Feedback -- when a DACK is asked for, and how long it waits

`vmac_rx` asks for a DACK when a number is five above that of the frame that asked last.  The
numbers have 16 bits and the comparison is made on `int`s, so that behind the last number
of a cycle none is asked for again.

`prepDACK` waits twice `alpha` for each missing frame, with a random number in -1, 0 and 1.

* `feedback_iff`: which ten frames of a stream in order ask for a DACK.
* `backoff_bounds`: which DACKs wait between 1 and 100 jiffies.
-/
import Vmac.Core.Link
import Vmac.Core.Runs

namespace Vmac.Core

open Theory

set_option autoImplicit false

/-! ## Requests -/

/-- The round that `vmac_rx` passes to `request_DACK` for a data frame, if it calls it. -/
def EncodingRx.requested (env : Env) (e : EncodingRx) (seq : Nat) : Option Nat :=
  if (e.refresh env).passes seq && e.dackDue seq then some (seq / 5) else none

/-- The request that a data frame makes of the tables. -/
def askedRound (hash : Enc → Bucket) (enc : Enc) (w : World) (a : Arrival) : Option Nat :=
  (findRx hash w enc).bind fun e => e.requested a.1 (seqOf a)

section Data

variable (env : Env) (pidt : Int) {e : EncodingRx} (enc : Enc) {skb : Skb}

/-- What a request does: `prepDACK` is called with the round. -/
theorem rxData_requested {round : Nat} (asks : e.requested env (readSeq env.past skb.data) = some round) :
    ∃ e', (rxData env pidt e enc skb).2 = (requestDack env e' enc round).2 ++
      nlSend env pidt (skb.pull 2) enc vmacHdrData (readSeq env.past skb.data) := by
  rw [EncodingRx.requested] at asks
  split at asks
  · rename_i both
    obtain ⟨passes, due⟩ := (Bool.and_eq_true ..).mp both
    obtain ⟨e', got, runs, -⟩ := rxData_passes env pidt e enc skb passes
    have round' : e'.round = e.round := by
      obtain ⟨_, _, rfl⟩ := receive_frame got
      rfl
    have due' : ({ e'.timeFrame (readSeq env.past skb.data) env.jiffies with
        lastin := readSeq env.past skb.data } : EncodingRx).dackDue (readSeq env.past skb.data) = true := by
      rw [EncodingRx.dackDue] at due ⊢
      rw [show ({ e'.timeFrame _ env.jiffies with lastin := _ } : EncodingRx).round = _ from
        (timeFrame_round e' _ env.jiffies).trans round']
      exact due
    rw [rxData_run_outs env pidt e enc got runs, requestRound, if_pos due', ← Option.some.inj asks]
    exact ⟨_, rfl⟩
  · cases asks

/-- The number of the last request is kept in `round`. -/
theorem rxData_round : (rxData env pidt e enc skb).1.round =
    if (e.requested env (readSeq env.past skb.data)).isSome then readSeq env.past skb.data else e.round := by
  rw [EncodingRx.requested]
  cases passes : (e.refresh env).passes (readSeq env.past skb.data) with
  | false =>
      have same : (rxData env pidt e enc skb).1.round = e.round := by
        cases got : (e.refresh env).receive (readSeq env.past skb.data) with
        | none => rw [rxData_drop env pidt e enc got]; rfl
        | some e' =>
            have traps : e'.timeTraps (readSeq env.past skb.data) = true := by
              simpa [EncodingRx.passes, got] using passes
            rw [rxData_trap env pidt e enc got traps]
            obtain ⟨_, _, rfl⟩ := receive_frame got
            rfl
      simpa using same
  | true =>
      obtain ⟨e', got, runs, -⟩ := rxData_passes env pidt e enc skb passes
      have round' : e'.round = e.round := by
        obtain ⟨_, _, rfl⟩ := receive_frame got
        rfl
      rw [rxData_run env pidt e enc got runs, requestRound_round,
        show ({ e'.timeFrame _ env.jiffies with lastin := _ } : EncodingRx).round = _ from
          (timeFrame_round e' _ env.jiffies).trans round', Bool.true_and, EncodingRx.dackDue]
      by_cases due : e.round + 5 ≤ readSeq env.past skb.data <;> simp [due]

end Data

/-! ## A stream in order -/

/-- The first number of a stream that asks for a DACK. -/
def firstAsking (first : Nat) : Nat := max first 5

/-- The last number of the cycle that asks. -/
def lastAsking (first : Nat) : Nat := 65535 - (65535 - firstAsking first) % 5

/-- The frames of a producer from the number `first` on, without loss; the number has 16 bits. -/
def InOrder (enc : Enc) (first : Nat) (frames : List Arrival) : Prop :=
  ∀ k (inside : k < frames.length), IsData enc frames[k] ∧ seqOf frames[k] = (first + k) % 65536

/-- An entry that has followed a stream up to the number `x`. -/
structure Tracks (first x : Nat) (e : EncodingRx) : Prop where
  round : e.round = if x ≤ firstAsking first then 0 else firstAsking first + 5 * ((x - 1 - firstAsking first) / 5)
  latest : e.latest < x ∨ e.latest = 0 ∧ x = 0
  lastin : e.firstFrame = 0 ∨ x ≠ 0 ∧ e.lastin = e.latest

namespace Tracks

variable {first x : Nat} {e : EncodingRx}

theorem passes (tracks : Tracks first x e) (env : Env) (some_ : x ≠ 0) : (e.refresh env).passes x = true :=
  passes_above (tracks.latest.resolve_right fun none_ => some_ none_.2) (tracks.lastin.imp_right And.right)

/-- Every fifth number asks. -/
theorem requested (tracks : Tracks first x e) (env : Env) (from_ : first ≤ x) :
    e.requested env x = if firstAsking first ≤ x ∧ (x - firstAsking first) % 5 = 0 then some (x / 5) else none := by
  have due : e.dackDue x = decide (firstAsking first ≤ x ∧ (x - firstAsking first) % 5 = 0) := by
    rw [EncodingRx.dackDue, tracks.round, firstAsking]
    refine decide_eq_decide.mpr ?_
    split <;> omega
  rw [EncodingRx.requested, due]
  by_cases none_ : x = 0
  · rw [if_neg, if_neg]
    · rw [none_, firstAsking]
      omega
    · rw [none_, firstAsking]
      simp
  · rw [tracks.passes env none_, Bool.true_and]
    simp only [decide_eq_true_eq]

/-- The entry after the number. -/
theorem next (tracks : Tracks first x e) {a : Arrival} (number : seqOf a = x) (from_ : first ≤ x) (pidt : Int)
    (enc : Enc) : Tracks first (x + 1) (rxData a.1 pidt e enc (a.2.pull 9)).1 := by
  have seq : readSeq a.1.past (a.2.pull 9).data = x := number
  have latest := rxData_latest pidt enc e a
  rw [number] at latest
  refine ⟨?_, .inl ?_, ?_⟩
  · rw [rxData_round, seq, tracks.requested a.1 from_, tracks.round]
    by_cases asks : firstAsking first ≤ x ∧ (x - firstAsking first) % 5 = 0
    · rw [if_pos asks, Option.isSome_some, if_pos rfl]
      split <;> omega
    · rw [if_neg asks, Option.isSome_none, if_neg Bool.false_ne_true]
      rw [firstAsking] at asks ⊢
      split <;> split <;> omega
  · rcases tracks.latest with below | ⟨none_, -⟩ <;> omega
  · cases passes : (e.refresh a.1).passes x with
    | true =>
        refine .inr ⟨Nat.succ_ne_zero x, ?_⟩
        rw [rxData_lastin a.1 pidt e enc (a.2.pull 9) (seq.symm ▸ passes), latest, seq]
        rcases tracks.latest with below | ⟨none_, zero⟩ <;> omega
    | false =>
        -- only the number 0 is dropped, as the first of a stream
        have zero : x = 0 := by
          by_contra some_
          rw [tracks.passes a.1 some_] at passes
          cases passes
        have first : e.firstFrame = 0 := tracks.lastin.resolve_right fun both => both.1 zero
        left
        cases got : (e.refresh a.1).receive x with
        | none => rw [rxData_drop a.1 pidt e enc (seq.symm ▸ got)]; exact first
        | some e' =>
            have traps : e'.timeTraps x = true := by simpa [EncodingRx.passes, got] using passes
            obtain ⟨_, _, rfl⟩ := receive_frame got
            exact absurd first (of_decide_eq_true traps).1

/-- At the end of the cycle the last number that asked is one of the last five. -/
theorem done (tracks : Tracks first x e) (low : first ≤ 65535) (cycle : 65536 ≤ x) : 65531 ≤ e.round := by
  have kept := tracks.round
  rw [firstAsking] at kept
  rw [kept]
  split <;> omega

end Tracks

/-- Behind the last number of the cycle: no number is five above the round. -/
theorem requested_done {e : EncodingRx} (done : 65531 ≤ e.round) (a : Arrival) : e.requested a.1 (seqOf a) = none := by
  have small := seqOf_lt a
  have due : e.dackDue (seqOf a) = false := decide_eq_false (by omega)
  rw [EncodingRx.requested, due, Bool.and_false, if_neg Bool.false_ne_true]

section Stream

variable {enc : Enc} {first : Nat} {frames : List Arrival} {e : EncodingRx} (pidt : Int)

/-- The entry before a frame of the stream. -/
theorem stream_state (start : Tracks first first e) (low : first ≤ 65535) (order : InOrder enc first frames) {k : Nat}
    (inside : k ≤ frames.length) :
    if first + k ≤ 65536 then Tracks first (first + k) (dataRun pidt enc e (frames.take k))
    else 65531 ≤ (dataRun pidt enc e (frames.take k)).round := by
  induction k with
  | zero =>
      rw [if_pos (by omega), List.take_zero]
      exact start
  | succ k ih =>
      have before := ih (by omega)
      obtain ⟨-, number⟩ := order k inside
      rw [List.take_succ_eq_append_getElem inside, dataRun_concat]
      by_cases cycle : first + k < 65536
      · rw [if_pos (by omega)] at before
        rw [if_pos (by omega), ← Nat.add_assoc]
        exact before.next (number.trans (Nat.mod_eq_of_lt cycle)) (Nat.le_add_right ..) pidt enc
      · have done : 65531 ≤ (dataRun pidt enc e (frames.take k)).round := by
          by_cases last : first + k ≤ 65536
          · rw [if_pos last] at before
            exact before.done low (by omega)
          · rw [if_neg last] at before
            exact before
        rw [if_neg (by omega), rxData_round]
        have none_ := requested_done done frames[k]
        rw [show (dataRun pidt enc e (frames.take k)).requested frames[k].1 (readSeq _ _) = none from none_]
        exact done

/-- Which frames of a stream ask for a DACK, and for which round. -/
theorem stream_requested (start : Tracks first first e) (low : first ≤ 65535) (order : InOrder enc first frames)
    {k : Nat} (inside : k < frames.length) :
    (dataRun pidt enc e (frames.take k)).requested frames[k].1 (seqOf frames[k]) =
      if firstAsking first ≤ first + k ∧ first + k ≤ 65535 ∧ (first + k - firstAsking first) % 5 = 0 then
        some (seqOf frames[k] / 5)
      else none := by
  have before := stream_state pidt start low order inside.le
  obtain ⟨-, number⟩ := order k inside
  by_cases cycle : first + k < 65536
  · rw [if_pos cycle.le] at before
    rw [Nat.mod_eq_of_lt cycle] at number
    rw [number, before.requested _ (Nat.le_add_right ..)]
    simp only [show first + k ≤ 65535 by omega, true_and]
  · have done : 65531 ≤ (dataRun pidt enc e (frames.take k)).round := by
      by_cases last : first + k ≤ 65536
      · rw [if_pos last] at before
        exact before.done low (by omega)
      · rw [if_neg last] at before
        exact before
    rw [requested_done done, if_neg (by omega)]

end Stream

/-- A stream in order from a new entry on: each request is for the round of its frame, and ten frames ask for a DACK
exactly if they begin no later than the last number that asks before the number wraps. -/
theorem feedback_iff {hash : Enc → Bucket} {w : World} {enc : Enc} {e : EncodingRx} (found : findRx hash w enc = some e)
    (new : e.latest = 0 ∧ e.firstFrame = 0 ∧ e.round = 0) {first : Nat} (low : first < 65536) {frames : List Arrival}
    (order : InOrder enc first frames) :
    (∀ k, ∀ _ : k < frames.length, ∀ round, askedRound hash enc (rxRun hash w (frames.take k)) frames[k] = some round →
      round = seqOf frames[k] / 5) ∧
      ∀ n, n + 10 ≤ frames.length →
        ((∃ k, ∃ inside : n + k < frames.length, k < 10 ∧
          (askedRound hash enc (rxRun hash w (frames.take (n + k))) frames[n + k]).isSome) ↔
          first + n ≤ lastAsking first) := by
  have start : Tracks first first e :=
    ⟨by rw [if_pos (show first ≤ firstAsking first from Nat.le_max_left ..)]; exact new.2.2, by omega, .inl new.2.1⟩
  have asked : ∀ k (inside : k < frames.length), askedRound hash enc (rxRun hash w (frames.take k)) frames[k] =
      if firstAsking first ≤ first + k ∧ first + k ≤ 65535 ∧ (first + k - firstAsking first) % 5 = 0 then
        some (seqOf frames[k] / 5)
      else none := by
    intro k inside
    have data : ∀ a ∈ frames.take k, IsData enc a := by
      intro a member
      obtain ⟨j, bound, rfl⟩ := List.getElem_of_mem (List.mem_of_mem_take member)
      exact (order j bound).1
    rw [askedRound, findRx_rxRun found data]
    exact stream_requested w.pidt start (by omega) order inside
  refine ⟨fun k inside round asks => ?_, fun n inside => ⟨fun ⟨k, within, ten, asks⟩ => ?_, fun early => ?_⟩⟩
  · rw [asked k inside] at asks
    split at asks
    · exact (Option.some.inj asks).symm
    · cases asks
  · rw [asked (n + k) within] at asks
    split at asks
    · rw [lastAsking]
      omega
    · cases asks
  · -- the next number that asks
    rw [lastAsking, firstAsking] at early
    have place : ∃ k < 10, firstAsking first ≤ first + (n + k) ∧ first + (n + k) ≤ 65535 ∧
        (first + (n + k) - firstAsking first) % 5 = 0 := by
      rw [firstAsking]
      by_cases begun : max first 5 ≤ first + n
      · exact ⟨(5 - (first + n - max first 5) % 5) % 5, by omega, by omega, by omega, by omega⟩
      · exact ⟨max first 5 - (first + n), by omega, by omega, by omega, by omega⟩
    obtain ⟨k, ten, asks⟩ := place
    refine ⟨k, by omega, ten, ?_⟩
    rw [asked (n + k) (by omega), if_pos asks]
    rfl

/-- A stream of frames without payload. -/
def streamFrom (first n : Nat) : List Arrival :=
  (List.range n).map fun k => dataArrival .quiet 7 ((first + k) % 65536)

theorem streamFrom_inOrder (first n : Nat) : InOrder 7 first (streamFrom first n) := by
  intro k inside
  have frame : (streamFrom first n)[k] = dataArrival .quiet 7 ((first + k) % 65536) := by simp [streamFrom]
  rw [frame]
  exact ⟨isData_dataArrival .quiet 7 _, seqOf_dataArrival .quiet 7 (Nat.mod_lt _ (by decide))⟩

theorem feedback_iff_five : ∃ k, ∃ inside : 1 + k < (streamFrom 0 12).length, k < 10 ∧
    (askedRound oneBucket 7 (rxRun oneBucket (.subscribed (.zero 7)) ((streamFrom 0 12).take (1 + k)))
      (streamFrom 0 12)[1 + k]).isSome :=
  ((feedback_iff (findRx_subscribed (.zero 7)) ⟨rfl, rfl, rfl⟩ (show 0 < 65536 by decide)
    (streamFrom_inOrder 0 12)).2 1 (by decide)).mpr (by decide)

/-- Six frames before the wrap and ten behind it: the ten ask for no DACK. -/
theorem no_feedback_after_wrap : InOrder 7 65530 (streamFrom 65530 16) ∧
    ∀ k (inside : 6 + k < (streamFrom 65530 16).length),
      askedRound oneBucket 7 (rxRun oneBucket (.subscribed (.zero 7)) ((streamFrom 65530 16).take (6 + k)))
        (streamFrom 65530 16)[6 + k] = none := by
  refine ⟨streamFrom_inOrder 65530 16, fun k inside => ?_⟩
  have start : Tracks 65530 65530 (EncodingRx.zero 7) := ⟨rfl, .inl (by decide), .inl rfl⟩
  have data : ∀ a ∈ (streamFrom 65530 16).take (6 + k), IsData 7 a := by
    intro a member
    obtain ⟨j, bound, rfl⟩ := List.getElem_of_mem (List.mem_of_mem_take member)
    exact (streamFrom_inOrder 65530 16 j bound).1
  have found : findRx oneBucket (.subscribed (.zero 7)) 7 = some (.zero 7) := findRx_subscribed (.zero 7)
  rw [askedRound, findRx_rxRun found data]
  refine (stream_requested (-1) start (by decide) (streamFrom_inOrder 65530 16) inside).trans (if_neg ?_)
  omega

/-! ## The back-off -/

/-- The delay that `prepDACK` adds to `jiffies`, if it arms the DACK timer. -/
def armedDelay (env : Env) (e : EncodingRx) (enc : Enc) (round : Nat) : Option Int :=
  if env.dackOk && env.lockFree then
    (storeDack e.dacInfo ⟨env.base, e.dackFrame enc round⟩ round
      (dackDuration e.clampAlpha.alpha (e.scan round).loss env.rndm) (rndmBit env.rndm)).armed
  else none

theorem prepDack_dackTimer (env : Env) (e : EncodingRx) (enc : Enc) (round : Nat) :
    (prepDack env e enc round).1.dackTimer =
      match armedDelay env e enc round with
      | some delay => some ((env.jiffies : Int) + delay).toNat
      | none => e.dackTimer := by
  rw [prepDack, armedDelay]
  cases env.dackOk with
  | false => rfl
  | true => cases env.lockFree <;> rfl

theorem rndmBit_cases (rndm : Int) : rndmBit rndm = -1 ∨ rndmBit rndm = 0 ∨ rndmBit rndm = 1 := by
  have low := Int.lt_tmod_of_pos rndm (show (0 : Int) < 2 by decide)
  have high := Int.tmod_lt_of_pos rndm (show (0 : Int) < 2 by decide)
  rw [rndmBit]
  omega

/-- A factor that is negative only when five frames are missing and the random number is. -/
theorem backoff_factor (loss : Nat) (rndm : Int) :
    0 ≤ ((if loss ≤ 5 then 5 - loss else loss : Nat) : Int) + rndmBit rndm ↔ ¬(loss = 5 ∧ rndmBit rndm = -1) := by
  rcases rndmBit_cases rndm with bit | bit | bit <;> rw [bit] <;> split <;> omega

/-- The clamps keep every delay that is not negative in bounds. -/
theorem dackDuration_bounds (alpha loss : Nat) (rndm : Int) :
    (1 ≤ (if dackDuration alpha loss rndm > 100 then 10 else dackDuration alpha loss rndm) ∧
      (if dackDuration alpha loss rndm > 100 then 10 else dackDuration alpha loss rndm) ≤ 100) ↔
      ¬(0 < alpha ∧ loss = 5 ∧ rndmBit rndm = -1) := by
  have factor := backoff_factor loss rndm
  by_cases defect : 0 < alpha ∧ loss = 5 ∧ rndmBit rndm = -1
  · obtain ⟨some_, five, negative⟩ := defect
    have value : dackDuration alpha loss rndm = -(2 * alpha) := by
      have product : (2 * (alpha : Int) * (((5 - 5 : Nat) : Int) + -1)) = -(2 * alpha) := by omega
      rw [dackDuration, five, negative, if_pos le_rfl, product]
      exact if_neg (by omega)
    rw [value]
    have small : ¬(-(2 * (alpha : Int)) > 100) := by omega
    rw [if_neg small]
    omega
  · have positive : 1 ≤ dackDuration alpha loss rndm := by
      have product : 0 ≤ 2 * (alpha : Int) * (((if loss ≤ 5 then 5 - loss else loss : Nat) : Int) + rndmBit rndm) := by
        rcases Nat.eq_zero_or_pos alpha with none_ | some_
        · rw [none_]
          simp
        · refine Int.mul_nonneg (by omega) (factor.mpr fun both => defect ⟨some_, both⟩)
      rw [dackDuration]
      generalize 2 * (alpha : Int) * (((if loss ≤ 5 then 5 - loss else loss : Nat) : Int) + rndmBit rndm) = d
        at product ⊢
      split <;> omega
    split <;> simp only [defect, not_false_eq_true, iff_true] <;> omega

/-- When `prepDACK` arms the timer, the delay is between 1 and 100, unless `alpha` is known, the missing frames are 5
modulo 256, and the remainder of the random number is -1. -/
theorem backoff_bounds (env : Env) (e : EncodingRx) (enc : Enc) (round : Nat) {delay : Int}
    (armed : armedDelay env e enc round = some delay) :
    (1 ≤ delay ∧ delay ≤ 100) ↔ ¬(0 < e.alpha ∧ e.missing round % 256 = 5 ∧ env.rndm.tmod 2 = -1) := by
  rw [armedDelay] at armed
  split at armed
  · rw [storeDack] at armed
    split at armed
    · cases armed
    · have alpha : 0 < e.clampAlpha.alpha ↔ 0 < e.alpha := by
        rw [EncodingRx.clampAlpha]
        dsimp only
        split <;> omega
      rw [← Option.some.inj armed, dackDuration_bounds, alpha, EncodingRx.scan_loss, rndmBit]
  · cases armed

/-- Five of the first six frames are missing. -/
def fiveMissing : EncodingRx :=
  { EncodingRx.zero 7 with window := fun i => if i < 5 then 0 else 1, latest := 10, alpha := 50 }

theorem backoff_bounds_even : (1 : Int) ≤ 1 ∧ (1 : Int) ≤ 100 :=
  (backoff_bounds .quiet fiveMissing 7 2 (by decide +kernel)).mpr fun defect => absurd defect.2.2 (by decide)

/-- With a negative random number the timer is armed for 100 jiffies ago. -/
theorem backoff_in_the_past : armedDelay { Env.quiet with rndm := -1 } fiveMissing 7 2 = some (-100) := by
  decide +kernel

end Vmac.Core
