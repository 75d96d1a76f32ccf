/-
# Vmac.Core.Scan -- which numbers the holes of a DACK cover

The scan of `prepDACK` is written with two absorb loops.  Where the last number of
the round is not lost (so that the forward loop stops at a number that was
received) and no hole is extended backwards over a number that was received
(`Plain`), its holes are the maximal runs of empty slots: laid end to end they are
the empty slots of the scanned range, in order (`scan_covered`).
-/
import Vmac.Core.Dack

namespace Vmac.Core

set_option autoImplicit false
set_option linter.unusedVariables false

/-- The numbers a hole asks for. -/
def VmacHole.numbers (h : VmacHole) : List Nat := List.range' h.le (h.re - h.le)

/-- The numbers a list of holes asks for, in the order they are asked for. -/
def covered (holes : List VmacHole) : List Nat := holes.flatMap VmacHole.numbers

theorem covered_concat (holes : List VmacHole) (h : VmacHole) :
    covered (holes ++ [h]) = covered holes ++ h.numbers := by
  simp [covered]

namespace EncodingRx

variable (e : EncodingRx)

/-- The slot of `i` is empty. -/
def lost (i : Nat) : Bool := decide (e.window (i % windowSize) = 0)

/-- The numbers from `i` up to `stop` whose slot is empty. -/
def lostFrom (stop i : Nat) : List Nat := (List.range' i (stop - i)).filter e.lost

/-- A scan without its two boundary cases. -/
structure Plain (start stop : Nat) : Prop where
  last : e.lost (stop - 1) = false
  noBack : ∀ i, start + 1 < i → i < stop → e.lost i = true → e.lost (i - 1) = false →
    e.windowBelow i ≠ 0

variable {e} {start stop : Nat}

/-! ## The two loops -/

theorem absorbBack_stop {i loss : Nat} (stays : i ≤ start + 1 ∨ e.windowBelow i ≠ 0) :
    e.absorbBack start i loss = (i, loss) := by
  cases i with
  | zero => rfl
  | succ tmp =>
      rw [absorbBack, if_neg]
      rintro ⟨empty, above⟩
      rcases stays with low | full
      · omega
      · exact full empty

/-- The forward loop stops at the first number that is not lost. -/
theorem absorbForward_stop {last : Nat} (n i loss : Nat) (fuel : stop ≤ i + n) (above : i ≤ last)
    (inside : last < stop) (received : e.lost last = false) :
    ∃ re loss', e.absorbForward stop n i loss = (re, loss') ∧ i ≤ re ∧ re ≤ last ∧
      e.lost re = false ∧ ∀ x, i ≤ x → x < re → e.lost x = true := by
  induction n generalizing i loss with
  | zero => omega
  | succ n ih =>
      by_cases empty : e.lost i = true
      · have window : e.window (i % windowSize) = 0 := of_decide_eq_true empty
        have apart : i ≠ last := by
          rintro rfl
          rw [received] at empty
          cases empty
        obtain ⟨re, loss', eq, above', below, full, run⟩ :=
          ih (i + 1) ((loss + 1) % 256) (by omega) (by omega)
        refine ⟨re, loss', ?_, by omega, below, full, fun x hx hx' => ?_⟩
        · rw [absorbForward, if_pos ⟨window, by omega⟩, eq]
        · by_cases here : x = i
          · rw [here]; exact empty
          · exact run x (by omega) hx'
      · have full : e.lost i = false := by simpa using empty
        refine ⟨i, loss, ?_, Nat.le_refl i, above, full, fun x hx hx' => by omega⟩
        rw [absorbForward, if_neg]
        rintro ⟨window, -⟩
        exact of_decide_eq_false full window

/-! ## Runs of empty slots -/

theorem lostFrom_done {i : Nat} (done : stop ≤ i) : e.lostFrom stop i = [] := by
  rw [lostFrom, Nat.sub_eq_zero_of_le done]
  rfl

theorem lostFrom_sorted (i : Nat) : (e.lostFrom stop i).Pairwise (· < ·) := by
  have range : (List.range' i (stop - i)).Pairwise (· < ·) := List.pairwise_lt_range'
  exact range.filter _

theorem mem_lostFrom {i m : Nat} :
    m ∈ e.lostFrom stop i ↔ i ≤ m ∧ m < stop ∧ e.lost m = true := by
  rw [lostFrom, List.mem_filter, List.mem_range'_1]
  constructor
  · rintro ⟨⟨above, below⟩, lost⟩
    exact ⟨above, by omega, lost⟩
  · rintro ⟨above, below, lost⟩
    exact ⟨⟨above, by omega⟩, lost⟩

theorem lostFrom_skip {i : Nat} (inside : i < stop) (full : e.lost i = false) :
    e.lostFrom stop i = e.lostFrom stop (i + 1) := by
  have split : stop - i = (stop - (i + 1)) + 1 := by omega
  rw [lostFrom, split, List.range'_succ, List.filter_cons_of_neg (by simp [full])]
  rfl

theorem lostFrom_run {i re : Nat} (above : i ≤ re) (inside : re < stop)
    (run : ∀ x, i ≤ x → x < re → e.lost x = true) :
    e.lostFrom stop i = List.range' i (re - i) ++ e.lostFrom stop re := by
  have split : stop - i = (re - i) + (stop - re) := by omega
  have all : (List.range' i (re - i)).filter e.lost = List.range' i (re - i) := by
    rw [List.filter_eq_self]
    intro x member
    rw [List.mem_range'_1] at member
    exact run x member.1 (by omega)
  have rest : i + (re - i) = re := by omega
  rw [lostFrom, split, ← List.range'_append_1, List.filter_append, all, rest]
  rfl

/-! ## The scan -/

/-- A hole of the scanned range, with its edges in order. -/
def InRange (stop : Nat) (h : VmacHole) : Prop := h.le < h.re ∧ h.re < stop

/-- A turn at an empty slot that is not behind an empty slot adds one maximal run. -/
theorem scanTurn_hole (plain : e.Plain start stop) {s : Scan} (above : start ≤ s.i)
    (between : s.i = start ∨ e.lost (s.i - 1) = false) (more : s.i < stop)
    (empty : e.lost s.i = true) :
    ∃ re loss, e.scanTurn start stop s = ⟨re + 1, s.holes ++ [⟨s.i, re⟩], loss⟩ ∧ s.i < re ∧
      re < stop ∧ e.lost re = false ∧
      e.lostFrom stop s.i = List.range' s.i (re - s.i) ++ e.lostFrom stop (re + 1) := by
  have window : e.window (s.i % windowSize) = 0 := of_decide_eq_true empty
  have back : e.absorbBack start s.i s.loss = (s.i, s.loss) := by
    apply absorbBack_stop
    by_cases low : s.i ≤ start + 1
    · exact .inl low
    · refine .inr (plain.noBack s.i (by omega) more empty ?_)
      rcases between with first | received
      · omega
      · exact received
  obtain ⟨re, loss, forward, first, below, full, run⟩ :=
    absorbForward_stop (stop - s.i) s.i s.loss (by omega) (by omega)
      (by omega : stop - 1 < stop) plain.last
  have apart : s.i ≠ re := by
    intro same
    rw [← same, empty] at full
    cases full
  refine ⟨re, loss, ?_, by omega, by omega, full, ?_⟩
  · simp only [scanTurn, if_pos window, back, forward]
  · rw [lostFrom_run first (by omega) run, lostFrom_skip (by omega) full]

/-- The scan from a state between two holes: what it adds is what is lost. -/
theorem scanLoop_covered (plain : e.Plain start stop) (inside : start < stop) (n : Nat)
    (s : Scan) (fuel : stop ≤ s.i + n) (above : start ≤ s.i)
    (between : s.i = start ∨ e.lost (s.i - 1) = false)
    (room : s.holes.length + (e.lostFrom stop s.i).length < holesMax) :
    covered (e.scanLoop start stop n s).holes = covered s.holes ++ e.lostFrom stop s.i ∧
      (e.scanLoop start stop n s).holes.length ≤ s.holes.length + (e.lostFrom stop s.i).length ∧
      ∀ h ∈ (e.scanLoop start stop n s).holes, h ∈ s.holes ∨ InRange stop h := by
  induction n generalizing s with
  | zero =>
      have nothing : e.lostFrom stop s.i = [] := lostFrom_done (by omega)
      rw [scanLoop, nothing]
      exact ⟨by simp, by simp, fun h member => .inl member⟩
  | succ n ih =>
      by_cases more : s.i < stop
      · have turn : e.scanLoop start stop (n + 1) s =
            e.scanLoop start stop n (e.scanTurn start stop s) := by
          rw [scanLoop, if_pos ⟨more, by omega⟩]
        rw [turn]
        by_cases empty : e.lost s.i = true
        · obtain ⟨re, loss, next, left, right, full, split⟩ :=
            scanTurn_hole plain above between more empty
          have size : (e.lostFrom stop s.i).length =
              (re - s.i) + (e.lostFrom stop (re + 1)).length := by
            rw [split, List.length_append, List.length_range']
          have grown : (s.holes ++ [(⟨s.i, re⟩ : VmacHole)]).length = s.holes.length + 1 := by
            rw [List.length_append, List.length_singleton]
          obtain ⟨cover, count, holes⟩ := ih ⟨re + 1, s.holes ++ [⟨s.i, re⟩], loss⟩
            (show stop ≤ re + 1 + n by omega) (show start ≤ re + 1 by omega) (.inr full)
            (show (s.holes ++ [_]).length + (e.lostFrom stop (re + 1)).length < holesMax by omega)
          rw [next]
          refine ⟨?_, ?_, fun h member => ?_⟩
          · rw [cover, covered_concat, split, List.append_assoc]
            rfl
          · have count' : _ ≤ (s.holes ++ [(⟨s.i, re⟩ : VmacHole)]).length +
                (e.lostFrom stop (re + 1)).length := count
            omega
          · rcases holes h member with old | new
            · rcases List.mem_append.mp old with older | this
              · exact .inl older
              · rw [List.mem_singleton.mp this]
                exact .inr ⟨left, right⟩
            · exact .inr new
        · have full : e.lost s.i = false := by simpa using empty
          have next : e.scanTurn start stop s = { s with i := s.i + 1 } := by
            rw [scanTurn, if_neg (of_decide_eq_false full)]
          have skip : e.lostFrom stop s.i = e.lostFrom stop (s.i + 1) := lostFrom_skip more full
          rw [next, skip]
          exact ih { s with i := s.i + 1 } (show stop ≤ s.i + 1 + n by omega)
            (show start ≤ s.i + 1 by omega) (.inr full) (skip ▸ room)
      · have stopped : e.scanLoop start stop (n + 1) s = s := by
          rw [scanLoop, if_neg (fun h => more h.1)]
        have nothing : e.lostFrom stop s.i = [] := lostFrom_done (by omega)
        rw [stopped, nothing]
        exact ⟨by simp, by simp, fun h member => .inl member⟩

/-- The holes of a plain scan ask for the lost numbers of the range. -/
theorem scan_covered {round : Nat} (plain : e.Plain (scanStart (lattmp round)) (lattmp round))
    (inside : 0 < lattmp round)
    (room : (e.lostFrom (lattmp round) (scanStart (lattmp round))).length < holesMax) :
    covered (e.scan round).holes = e.lostFrom (lattmp round) (scanStart (lattmp round)) ∧
      (e.scan round).holes.length < holesMax ∧
      ∀ h ∈ (e.scan round).holes, InRange (lattmp round) h := by
  have below : scanStart (lattmp round) < lattmp round := by
    unfold scanStart
    split
    · exact inside
    · have := show 0 < windowSize by decide
      omega
  obtain ⟨cover, count, holes⟩ := scanLoop_covered plain below (lattmp round)
    ⟨scanStart (lattmp round), [], 0⟩ (Nat.le_add_left ..) (Nat.le_refl _) (.inl rfl)
    (by simpa using room)
  refine ⟨cover, ?_, fun h member => ?_⟩
  · have := show (e.scan round).holes.length ≤ _ from count
    simp only [List.length_nil, Nat.zero_add] at this
    omega
  · rcases holes h member with none | inRange
    · cases none
    · exact inRange

end EncodingRx

end Vmac.Core
