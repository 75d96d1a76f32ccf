/-
# Vmac.Core.Runs -- every scan, turn by turn

`scan_covered` is about scans without a boundary case.  Here the scan of `prepDACK` is followed
through any window: it opens a hole wherever a run of empty slots begins, until it has
`HOLES_MAX` of them, and counts in `loss` what its two absorb loops pass.

* `Between`: the state of the scan between two turns.
* `scan_end`: where the scan ends.
* `scan_loss`: the missing frames it counts.
-/
import Vmac.Core.Scan

namespace Vmac.Core

set_option autoImplicit false

namespace EncodingRx

variable (e : EncodingRx)

/-! ## Runs -/

/-- A run of empty slots begins at `i`. -/
def startsRun (start i : Nat) : Bool := e.lost i && (decide (i = start) || !e.lost (i - 1))

/-- How many runs begin below `i`. -/
def runsBelow (start i : Nat) : Nat := (List.range' start (i - start)).countP (e.startsRun start)

/-- How far the backward loop goes below `i`. -/
def absorbed (start i : Nat) : Nat := i - (e.absorbBack start i 0).1

/-- What a number adds to `loss`: itself, unless it is the last one, and what is absorbed at the begin of a run. -/
def missingAt (start stop i : Nat) : Nat :=
  (if e.lost i = true ∧ i + 1 < stop then 1 else 0) + if e.startsRun start i then e.absorbed start i else 0

/-- What the numbers below `i` add to `loss`. -/
def missingBelow (start stop i : Nat) : Nat := ((List.range' start (i - start)).map (e.missingAt start stop)).sum

/-- The missing frames of the first `HOLES_MAX` runs of a round. -/
def missing (round : Nat) : Nat :=
  ((List.range' (scanStart (lattmp round)) (lattmp round - scanStart (lattmp round))).map fun i =>
    if e.runsBelow (scanStart (lattmp round)) (i + 1) ≤ holesMax then
      e.missingAt (scanStart (lattmp round)) (lattmp round) i
    else 0).sum

variable {e} {start stop : Nat}

theorem runsBelow_start : e.runsBelow start start = 0 := by simp [runsBelow]

theorem runsBelow_succ {i : Nat} (above : start ≤ i) :
    e.runsBelow start (i + 1) = e.runsBelow start i + (e.startsRun start i).toNat := by
  have split : i + 1 - start = (i - start) + 1 := by omega
  have last : start + 1 * (i - start) = i := by omega
  rw [runsBelow, split, List.range'_concat, List.countP_append, last, ← runsBelow, List.countP_singleton]
  cases e.startsRun start i <;> rfl

theorem runsBelow_mono {i j : Nat} (above : start ≤ i) (le : i ≤ j) : e.runsBelow start i ≤ e.runsBelow start j := by
  induction j, le using Nat.le_induction with
  | base => exact le_rfl
  | succ j far ih =>
      rw [runsBelow_succ (above.trans far)]
      omega

theorem missingBelow_start : e.missingBelow start stop start = 0 := by simp [missingBelow]

theorem missingBelow_succ {i : Nat} (above : start ≤ i) :
    e.missingBelow start stop (i + 1) = e.missingBelow start stop i + e.missingAt start stop i := by
  have split : i + 1 - start = (i - start) + 1 := by omega
  have last : start + 1 * (i - start) = i := by omega
  rw [missingBelow, split, List.range'_concat, List.map_append, List.sum_append, last, ← missingBelow]
  simp

theorem startsRun_lost {i : Nat} (starts : e.startsRun start i = true) : e.lost i = true :=
  ((Bool.and_eq_true ..).mp starts).1

/-- Inside a run of empty slots no run begins. -/
theorem startsRun_inside {i x re : Nat} (above : start ≤ i) (run : ∀ x, i ≤ x → x < re → e.lost x = true) (lt : i < x)
    (le : x ≤ re) : e.startsRun start x = false := by
  have before := run (x - 1) (by omega) (by omega)
  have other : x ≠ start := by omega
  simp [startsRun, before, other]

/-- Behind a number that is not lost, a lost number is in a run that begins there. -/
theorem runsBelow_lt {i x : Nat} (above : start ≤ i) (first : i = start ∨ e.lost (i - 1) = false) (le : i ≤ x)
    (empty : e.lost x = true) : e.runsBelow start i < e.runsBelow start (x + 1) := by
  induction x, le using Nat.le_induction with
  | base =>
      have starts : e.startsRun start i = true := by
        rcases first with here | received
        · simp [startsRun, here, here ▸ empty]
        · simp [startsRun, empty, received]
      rw [runsBelow_succ above, starts]
      exact Nat.lt_succ_self _
  | succ x far ih =>
      cases before : e.lost x with
      | true => exact (ih before).trans_le (runsBelow_mono (by omega) (Nat.le_succ _))
      | false =>
          have starts : e.startsRun start (x + 1) = true := by simp [startsRun, empty, before]
          rw [runsBelow_succ (by omega : start ≤ x + 1), starts]
          exact Nat.lt_succ_of_le (runsBelow_mono above (by omega))

/-! ## The two absorb loops -/

/-- The backward loop counts what it passes. -/
theorem absorbBack_eq {i loss : Nat} (byte : loss < 256) :
    e.absorbBack start i loss = (i - e.absorbed start i, (loss + e.absorbed start i) % 256) := by
  induction i generalizing loss with
  | zero =>
      have none_ : e.absorbed start 0 = 0 := Nat.zero_sub _
      rw [absorbBack, none_, Nat.add_zero, Nat.mod_eq_of_lt byte]
  | succ tmp ih =>
      by_cases more : e.windowBelow (tmp + 1) = 0 ∧ start < tmp
      · have further : e.absorbed start (tmp + 1) = e.absorbed start tmp + 1 := by
          have le : e.absorbed start tmp ≤ tmp := Nat.sub_le ..
          have first := congrArg Prod.fst (@ih 1 (by decide))
          rw [absorbed, absorbBack, if_pos more, Nat.zero_add, show 1 % 256 = 1 from rfl, first]
          omega
        rw [absorbBack, if_pos more, ih (Nat.mod_lt _ (by decide)), further, Prod.mk.injEq, Nat.mod_add_mod]
        exact ⟨by omega, by congr 1; omega⟩
      · have none_ : e.absorbed start (tmp + 1) = 0 := by rw [absorbed, absorbBack, if_neg more, Nat.sub_self]
        rw [absorbBack, if_neg more, none_]
        exact Prod.ext rfl (Nat.mod_eq_of_lt byte).symm

/-- The forward loop counts the run, up to the last number of the range. -/
theorem absorbForward_eq {n i loss : Nat} (fuel : stop ≤ i + n) (inside : i < stop) (byte : loss < 256) :
    ∃ re, e.absorbForward stop n i loss = (re, (loss + (re - i)) % 256) ∧ i ≤ re ∧ re < stop ∧
      (∀ x, i ≤ x → x < re → e.lost x = true) ∧ (e.lost re = false ∨ re + 1 = stop) := by
  induction n generalizing i loss with
  | zero => omega
  | succ n ih =>
      rw [absorbForward]
      by_cases more : e.window (i % windowSize) = 0 ∧ i + 1 < stop
      · obtain ⟨re, eq, above, below, run, ends⟩ :=
          ih (i := i + 1) (by omega) more.2 (Nat.mod_lt (loss + 1) (by decide))
        rw [if_pos more, eq]
        refine ⟨re, ?_, by omega, below, fun x low high => ?_, ends⟩
        · rw [Nat.mod_add_mod]
          congr 2
          omega
        · by_cases here : x = i
          · rw [here]
            exact decide_eq_true more.1
          · exact run x (by omega) high
      · rw [if_neg more]
        refine ⟨i, ?_, le_rfl, inside, fun x low high => absurd high (by omega), ?_⟩
        · rw [Nat.sub_self, Nat.add_zero, Nat.mod_eq_of_lt byte]
        · by_cases last : i + 1 = stop
          · exact .inr last
          · exact .inl (decide_eq_false fun empty => more ⟨empty, by omega⟩)

/-! ## The turns -/

/-- The scan between two turns: a hole for each run so far, and in front of `i` no number that is lost. -/
structure Between (e : EncodingRx) (start stop : Nat) (s : Scan) : Prop where
  above : start ≤ s.i
  inside : s.i ≤ stop
  first : s.i = start ∨ stop ≤ s.i ∨ e.lost (s.i - 1) = false
  holes : s.holes.length = e.runsBelow start s.i
  loss : s.loss = e.missingBelow start stop s.i % 256

theorem Between.begin (order : start ≤ stop) : e.Between start stop ⟨start, [], 0⟩ :=
  ⟨le_rfl, order, .inl rfl, runsBelow_start.symm, by rw [missingBelow_start]⟩

namespace Between

variable {s : Scan}

theorem starts (between : e.Between start stop s) (more : s.i < stop) (empty : e.lost s.i = true) :
    e.startsRun start s.i = true := by
  rcases between.first with here | behind | received
  · simp [startsRun, here, here ▸ empty]
  · omega
  · simp [startsRun, empty, received]

/-- A turn at a number that is not lost. -/
theorem skip (between : e.Between start stop s) (more : s.i < stop) (full : e.lost s.i = false) :
    e.scanTurn start stop s = { s with i := s.i + 1 } ∧ e.Between start stop { s with i := s.i + 1 } := by
  have none_ : e.startsRun start s.i = false := by simp [startsRun, full]
  have turn : e.scanTurn start stop s = { s with i := s.i + 1 } := by
    rw [scanTurn, if_neg (of_decide_eq_false full)]
  refine ⟨turn, Nat.le_succ_of_le between.above, more, .inr (.inr full), ?_, ?_⟩
  · rw [runsBelow_succ between.above, none_]
    exact between.holes
  · have nothing : e.missingAt start stop s.i = 0 := by simp [missingAt, full, none_]
    rw [missingBelow_succ between.above, nothing]
    exact between.loss

/-- A turn at a lost number: it is the first of a run, and the scan goes on behind the run. -/
theorem hole (between : e.Between start stop s) (more : s.i < stop) (empty : e.lost s.i = true) :
    ∃ re, s.i ≤ re ∧ re < stop ∧ (∀ x, s.i ≤ x → x < re → e.lost x = true) ∧
      (e.scanTurn start stop s).i = re + 1 ∧ (e.scanTurn start stop s).holes.length = s.holes.length + 1 ∧
      e.Between start stop (e.scanTurn start stop s) := by
  have above := between.above
  have byte : s.loss < 256 := between.loss ▸ Nat.mod_lt _ (by decide)
  obtain ⟨re, forward, low, high, run, ends⟩ :=
    absorbForward_eq (e := e) (show stop ≤ s.i + (stop - s.i) by omega) more
      (Nat.mod_lt (s.loss + e.absorbed start s.i) (by decide))
  have turn : e.scanTurn start stop s = ⟨re + 1, s.holes ++ [⟨s.i - e.absorbed start s.i, re⟩],
      (s.loss + e.absorbed start s.i + (re - s.i)) % 256⟩ := by
    rw [scanTurn, if_pos (of_decide_eq_true empty), absorbBack_eq byte]
    dsimp only
    rw [forward, Nat.mod_add_mod]
  have runs : ∀ x, s.i < x → x ≤ re + 1 → e.runsBelow start x = e.runsBelow start s.i + 1 ∧
      e.missingBelow start stop x =
        e.missingBelow start stop s.i + e.absorbed start s.i + (min x re - s.i) := by
    intro x
    induction x with
    | zero => intro lt; omega
    | succ x ih =>
        intro lt le
        rw [runsBelow_succ (by omega), missingBelow_succ (by omega)]
        by_cases here : x = s.i
        · rw [here, between.starts more empty]
          refine ⟨rfl, ?_⟩
          rw [missingAt, between.starts more empty, if_pos rfl]
          by_cases single : re = s.i
          · have last : ¬(e.lost s.i = true ∧ s.i + 1 < stop) := by
              rcases ends with full | last
              · rw [single, empty] at full
                cases full
              · omega
            rw [if_neg last]
            omega
          · rw [if_pos ⟨empty, by omega⟩]
            omega
        · obtain ⟨count, sum⟩ := ih (by omega) (by omega)
          have inside := startsRun_inside above run (show s.i < x by omega) (show x ≤ re by omega)
          rw [count, sum, inside]
          refine ⟨rfl, ?_⟩
          rw [missingAt, inside, if_neg Bool.false_ne_true]
          by_cases last : x = re
          · have end_ : ¬(e.lost x = true ∧ x + 1 < stop) := by
              rcases ends with full | end_
              · rw [last, full]
                exact fun both => Bool.false_ne_true both.1
              · omega
            rw [if_neg end_]
            omega
          · rw [if_pos ⟨run x (by omega) (by omega), by omega⟩]
            omega
  obtain ⟨count, sum⟩ := runs (re + 1) (by omega) le_rfl
  refine ⟨re, low, high, run, by rw [turn], by rw [turn, List.length_append]; rfl, ?_⟩
  rw [turn]
  refine ⟨by dsimp only; omega, high, ?_, ?_, ?_⟩
  · rcases ends with full | last
    · exact .inr (.inr full)
    · exact .inr (.inl (by dsimp only; omega))
  · rw [List.length_append, between.holes, count]
    rfl
  · dsimp only
    rw [sum, between.loss, Nat.add_assoc, Nat.mod_add_mod]
    congr 1
    omega

end Between

/-- The scan goes on to the end of the range, or to its last hole. -/
theorem scanLoop_end {n : Nat} {s : Scan} (between : e.Between start stop s) (fuel : stop ≤ s.i + n)
    (room : s.holes.length ≤ holesMax) :
    e.Between start stop (e.scanLoop start stop n s) ∧ (e.scanLoop start stop n s).holes.length ≤ holesMax ∧
      (stop ≤ (e.scanLoop start stop n s).i ∨ (e.scanLoop start stop n s).holes.length = holesMax) := by
  induction n generalizing s with
  | zero => exact ⟨between, room, .inl fuel⟩
  | succ n ih =>
      rw [scanLoop]
      by_cases more : s.i < stop ∧ s.holes.length < holesMax
      · rw [if_pos more]
        cases empty : e.lost s.i with
        | true =>
            obtain ⟨re, low, -, -, next, grown, after⟩ := between.hole more.1 empty
            exact ih after (by omega) (by omega)
        | false =>
            obtain ⟨turn, after⟩ := between.skip more.1 empty
            rw [turn]
            exact ih after (show stop ≤ s.i + 1 + n by omega) room
      · rw [if_neg more]
        exact ⟨between, room, by omega⟩

theorem Between.sum_missing {s : Scan} (between : e.Between start stop s) (room : s.holes.length ≤ holesMax)
    (ended : stop ≤ s.i ∨ s.holes.length = holesMax) :
    ((List.range' start (stop - start)).map fun i =>
      if e.runsBelow start (i + 1) ≤ holesMax then e.missingAt start stop i else 0).sum =
      e.missingBelow start stop s.i := by
  have above := between.above
  have inside := between.inside
  have split : stop - start = (s.i - start) + (stop - s.i) := by omega
  have middle : start + (s.i - start) = s.i := by omega
  have low : ((List.range' start (s.i - start)).map fun i =>
      if e.runsBelow start (i + 1) ≤ holesMax then e.missingAt start stop i else 0) =
      (List.range' start (s.i - start)).map (e.missingAt start stop) := by
    refine List.map_congr_left fun i member => if_pos ?_
    rw [List.mem_range'_1] at member
    have mono : e.runsBelow start (i + 1) ≤ e.runsBelow start s.i := runsBelow_mono (by omega) (by omega)
    rw [← between.holes] at mono
    omega
  have high : ∀ v ∈ (List.range' s.i (stop - s.i)).map fun i =>
      if e.runsBelow start (i + 1) ≤ holesMax then e.missingAt start stop i else 0, v = 0 := by
    intro v member
    obtain ⟨i, place, value⟩ := List.mem_map.mp member
    rw [List.mem_range'_1] at place
    rw [← value]
    split
    · rename_i few
      have full := ended.resolve_left (by omega)
      have received : e.lost i = false := by
        by_contra empty
        have first := between.first.imp_right fun rest => rest.resolve_left (by omega)
        have more := runsBelow_lt above first place.1 (Bool.not_eq_false _ ▸ empty)
        rw [← between.holes] at more
        omega
      simp [missingAt, startsRun, received]
    · rfl
  rw [split, ← List.range'_append_1, middle, List.map_append, List.sum_append, low, ← missingBelow,
    List.sum_eq_zero_iff_forall_eq_nat.mpr high, Nat.add_zero]

theorem scanStart_le (stop : Nat) : scanStart stop ≤ stop := by
  unfold scanStart
  split <;> omega

/-- Where the scan of a round ends. -/
theorem scan_end (e : EncodingRx) (round : Nat) :
    e.Between (scanStart (lattmp round)) (lattmp round) (e.scan round) ∧ (e.scan round).holes.length ≤ holesMax ∧
      (lattmp round ≤ (e.scan round).i ∨ (e.scan round).holes.length = holesMax) :=
  scanLoop_end (.begin (scanStart_le _)) (Nat.le_add_left ..) (Nat.zero_le _)

/-- `loss` is the number of missing frames, as far as a byte goes. -/
theorem scan_loss (e : EncodingRx) (round : Nat) : (e.scan round).loss = e.missing round % 256 := by
  obtain ⟨between, room, ended⟩ := scan_end e round
  rw [between.loss, missing, between.sum_missing room ended]

end EncodingRx

end Vmac.Core
