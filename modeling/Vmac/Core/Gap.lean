/-
# Vmac.Core.Gap -- the divisor of the inter-frame gap

`vmac_rx` keeps the clock of one accepted frame in `firstFrame` and divides by the distance of
the next accepted frame to `lastin`.  The window drops the second of two equal numbers, unless
the first one was not marked: a straggler below `latest % WINDOW`.

A new entry measures with its first two frames, and its first frame is marked.  But a clock whose
low 32 bits are 0 looks like no measurement at all, and a later frame measures again.

* `Measured`: what a measuring entry keeps of the frame it accepted last.
* `divisor_iff`: the runs in which no divisor is 0.
-/
import Vmac.Core.WindowExact
import Vmac.Theory.Run

namespace Vmac.Core

open Theory

set_option autoImplicit false

/-- A number that `vmac_rx` accepts below the window without marking it. -/
def Unmarked (latest seq : Nat) : Prop := windowSize ≤ latest ∧ seq < latest % windowSize

namespace EncodingRx

/-- `vdr->seq - lastin`, if the frame has `alpha` computed. -/
def divisor (e : EncodingRx) (seq : Nat) : Option Int :=
  (e.receive seq).bind fun e' =>
    if e'.firstFrame ≠ 0 ∧ e'.secondFrame = 0 then some ((seq : Int) - e'.lastin) else none

/-- While the gap is measured, a frame with the number of `lastin` is below the window only if its slot is marked. -/
def Spared (e : EncodingRx) (seq : Nat) : Prop :=
  e.firstFrame ≠ 0 → e.secondFrame = 0 → seq = e.lastin → Unmarked e.latest seq → e.window (seq % windowSize) = 1

/-- The frame accepted last is marked, or was below the window. -/
structure Placed (e : EncodingRx) : Prop where
  below : e.lastin ≤ e.latest
  marked : e.window (e.lastin % windowSize) = 1 ∨ Unmarked e.latest e.lastin

variable {e e' : EncodingRx} {seq : Nat}

/-- An accepted frame is marked, or is below the window. -/
theorem receive_marked (got : e.receive seq = some e') :
    seq ≤ e'.latest ∧ (e'.window (seq % windowSize) = 1 ∨ Unmarked e'.latest seq) := by
  have marks (f : EncodingRx) : (f.markReceived seq).window (seq % windowSize) = 1 ∨ Unmarked f.latest seq := by
    by_cases inside : seq ≥ (if f.latest ≥ windowSize then f.latest % windowSize else 0)
    · refine .inl ?_
      rw [markReceived, if_pos inside, windowIndex_eq]
      exact Function.update_self ..
    · refine .inr ?_
      split at inside
      · exact ⟨‹_›, by omega⟩
      · omega
  rw [receive] at got
  split at got
  · cases got
    refine ⟨?_, marks _⟩
    rw [markReceived_latest, followLatest_latest]
    omega
  · split at got
    · cases got
    · cases got
      exact ⟨by rw [markReceived_latest]; omega, marks e⟩

theorem divisor_zero_iff : e.divisor seq = some 0 ↔ ∃ e', e.receive seq = some e' ∧ e'.timeTraps seq = true := by
  cases got : e.receive seq with
  | none => simp [divisor, got]
  | some e' =>
      simp only [divisor, got, Option.bind_some, Option.some.injEq, exists_eq_left', timeTraps, decide_eq_true_iff]
      split
      · rename_i measures
        simp only [Option.some.injEq, measures, ne_eq, not_false_eq_true, true_and]
        omega
      · rename_i measures
        simp only [reduceCtorEq, false_iff]
        exact fun both => measures ⟨both.1, both.2.1⟩

/-- The frame that would divide by 0. -/
theorem divisor_zero (placed : e.firstFrame ≠ 0 → e.secondFrame = 0 → e.Placed) :
    e.divisor seq = some 0 ↔ ¬e.Spared seq := by
  rw [divisor_zero_iff]
  constructor
  · rintro ⟨e', got, traps⟩ spared
    obtain ⟨first, second, same⟩ := of_decide_eq_true traps
    obtain ⟨_, _, rfl⟩ := receive_frame got
    obtain ⟨below, marked⟩ := placed first second
    have same : seq = e.lastin := same
    rw [receive, if_neg (by omega), windowIndex_eq] at got
    split at got
    · cases got
    · rename_i open_
      rw [same] at open_ spared
      exact open_ (spared first second rfl (marked.resolve_left open_))
  · intro risk
    simp only [Spared, Classical.not_imp] at risk
    obtain ⟨first, second, same, -, open_⟩ := risk
    have below := (placed first second).below
    refine ⟨e.markReceived seq, ?_, decide_eq_true ⟨first, second, same⟩⟩
    rw [receive, if_neg (by omega), windowIndex_eq, if_neg open_]

end EncodingRx

/-! ## One frame -/

section Frame

variable (env : Env) (pidt : Int) (e : EncodingRx) (enc : Enc) (skb : Skb)

theorem requestRound_entry (seq : Nat) : ∃ alpha info timer round, (requestRound env e enc seq).1 =
    { e with alpha := alpha, dacInfo := info, dackTimer := timer, round := round } := by
  unfold requestRound requestDack
  split
  · obtain ⟨alpha, info, timer, same⟩ := prepDack_entry env { e with round := seq / 5 } enc (seq / 5)
    refine ⟨alpha, info, timer, seq, ?_⟩
    dsimp only
    rw [same]
  · exact ⟨e.alpha, e.dacInfo, e.dackTimer, e.round, rfl⟩

variable {e skb}

/-- The entry after a frame that is accepted. -/
theorem rxData_accepted {e' : EncodingRx} (got : (e.refresh env).receive (readSeq env.past skb.data) = some e')
    (calm : (e.refresh env).divisor (readSeq env.past skb.data) ≠ some 0) :
    ∃ alpha info timer round, (rxData env pidt e enc skb).1 =
      { e'.timeFrame (readSeq env.past skb.data) env.jiffies with
        lastin := readSeq env.past skb.data, alpha := alpha, dacInfo := info, dackTimer := timer, round := round } := by
  have runs : e'.timeTraps (readSeq env.past skb.data) = false := by
    by_contra traps
    exact calm (EncodingRx.divisor_zero_iff.mpr ⟨e', got, Bool.not_eq_false _ ▸ traps⟩)
  rw [rxData_run env pidt e enc got runs]
  exact requestRound_entry ..

/-- A frame that does not divide by 0 is dropped, or the entry is placed after it. -/
theorem rxData_placed (calm : (e.refresh env).divisor (readSeq env.past skb.data) ≠ some 0) :
    (rxData env pidt e enc skb).1 = e.refresh env ∨ (rxData env pidt e enc skb).1.Placed := by
  cases got : (e.refresh env).receive (readSeq env.past skb.data) with
  | none => exact .inl (rxData_drop env pidt e enc got)
  | some e' =>
      obtain ⟨below, marked⟩ := EncodingRx.receive_marked got
      obtain ⟨_, _, _, _, same⟩ := rxData_accepted env pidt enc got calm
      have marks := EncodingRx.timeFrame_marks e' (readSeq env.past skb.data) env.jiffies
      have latest := congrArg Ring.Marks.latest marks
      have window := congrArg Ring.Marks.slot marks
      simp only [EncodingRx.marks_latest, EncodingRx.marks_slot] at latest window
      rw [← latest] at below marked
      rw [← window] at marked
      rw [same]
      exact .inr ⟨below, marked⟩

end Frame

/-! ## Runs -/

/-- The divisor that a data frame computes with. -/
def gapDivisor (hash : Enc → Bucket) (enc : Enc) (w : World) (a : Arrival) : Option Int :=
  (findRx hash w enc).bind fun e => (e.refresh a.1).divisor (seqOf a)

/-- An entry that measures is placed. -/
def Measured (e : EncodingRx) : Prop := e.firstFrame ≠ 0 → e.secondFrame = 0 → e.Placed

theorem Measured.refresh {e : EncodingRx} (measured : Measured e) (env : Env) : Measured (e.refresh env) := by
  intro first second
  obtain ⟨below, marked⟩ := measured first second
  exact ⟨below, marked⟩

theorem Measured.step {e : EncodingRx} (measured : Measured e) (pidt : Int) (enc : Enc) (a : Arrival)
    (calm : (e.refresh a.1).divisor (seqOf a) ≠ some 0) : Measured (rxData a.1 pidt e enc (a.2.pull 9)).1 := by
  rcases rxData_placed a.1 pidt enc calm with same | placed
  · rw [same]
    exact measured.refresh a.1
  · exact fun _ _ => placed

/-- The frames of a run are spared if and only if none of them divides by 0. -/
theorem Measured.run {e : EncodingRx} (measured : Measured e) (pidt : Int) (enc : Enc) (frames : List Arrival) :
    (∀ done a, done ++ [a] <+: frames → ((dataRun pidt enc e done).refresh a.1).divisor (seqOf a) ≠ some 0) ↔
      ∀ done a, done ++ [a] <+: frames → (dataRun pidt enc e done).Spared (seqOf a) := by
  induction frames generalizing e with
  | nil => simp
  | cons a frames ih =>
      have first : (e.refresh a.1).divisor (seqOf a) ≠ some 0 ↔ e.Spared (seqOf a) :=
        (not_congr (EncodingRx.divisor_zero (measured.refresh a.1))).trans not_not
      rw [Run.forall_prefix_cons, Run.forall_prefix_cons]
      constructor
      · rintro ⟨calm, rest⟩
        exact ⟨first.mp calm, (ih (measured.step pidt enc a calm)).mp rest⟩
      · rintro ⟨spared, rest⟩
        have calm := first.mpr spared
        exact ⟨calm, (ih (measured.step pidt enc a calm)).mpr rest⟩

/-- An entry whose clock never reads 0: it has not begun to measure, measures from a marked frame, or is done. -/
def Clocked (e : EncodingRx) : Prop :=
  (e.firstFrame = 0 ∧ e.latest = 0) ∨
    (e.firstFrame ≠ 0 ∧ e.lastin ≤ e.latest ∧ e.window (e.lastin % windowSize) = 1) ∨ e.secondFrame ≠ 0

theorem Clocked.spared {e : EncodingRx} (clocked : Clocked e) (seq : Nat) : e.Spared seq := by
  intro first second same _
  rcases clocked with ⟨none_, -⟩ | ⟨-, -, marked⟩ | done
  · exact absurd none_ first
  · exact same ▸ marked
  · exact absurd second done

theorem Clocked.measured {e : EncodingRx} (clocked : Clocked e) : Measured e := by
  intro first second
  rcases clocked with ⟨none_, -⟩ | ⟨-, below, marked⟩ | done
  · exact absurd none_ first
  · exact ⟨below, .inl marked⟩
  · exact absurd second done

/-- A frame of a clock that does not read 0. -/
theorem Clocked.step {e : EncodingRx} (clocked : Clocked e) (pidt : Int) (enc : Enc) (a : Arrival)
    (ticks : a.1.jiffies % 2 ^ 32 ≠ 0) : Clocked (rxData a.1 pidt e enc (a.2.pull 9)).1 := by
  have fresh : Clocked (e.refresh a.1) := clocked
  cases got : (e.refresh a.1).receive (readSeq a.1.past (a.2.pull 9).data) with
  | none =>
      rw [rxData_drop a.1 pidt e enc got]
      exact fresh
  | some e' =>
      have calm : (e.refresh a.1).divisor (readSeq a.1.past (a.2.pull 9).data) ≠ some 0 := fun zero =>
        (EncodingRx.divisor_zero fresh.measured).mp zero (fresh.spared _)
      obtain ⟨alpha, info, timer, round, after⟩ := rxData_accepted a.1 pidt enc got calm
      obtain ⟨below, marked⟩ := EncodingRx.receive_marked got
      have latest : e'.latest = max e.latest (readSeq a.1.past (a.2.pull 9).data) :=
        receive_latest (e := e.refresh a.1) got
      obtain ⟨_, _, frame⟩ := receive_frame got
      have first : e'.firstFrame = e.firstFrame := by rw [frame]; rfl
      have second : e'.secondFrame = e.secondFrame := by rw [frame]; rfl
      rw [after]
      rcases clocked with ⟨none_, zero⟩ | ⟨begun, -⟩ | done
      · refine .inr (.inl ?_)
        have here : e'.latest = readSeq a.1.past (a.2.pull 9).data := by
          rw [latest, zero, Nat.zero_max]
        have top : ¬Unmarked e'.latest (readSeq a.1.past (a.2.pull 9).data) := fun unmarked =>
          absurd unmarked.2 (Nat.not_lt.mpr (here ▸ Nat.mod_le ..))
        rw [EncodingRx.timeFrame, if_pos (first.trans none_)]
        exact ⟨ticks, below, marked.resolve_right top⟩
      · refine .inr (.inr ?_)
        rw [EncodingRx.timeFrame, if_neg (first ▸ begun)]
        split
        · exact ticks
        · assumption
      · refine .inr (.inr ?_)
        rw [EncodingRx.timeFrame]
        split
        · exact second ▸ done
        · rw [if_neg (second ▸ done)]
          exact second ▸ done

theorem Clocked.run {e : EncodingRx} (clocked : Clocked e) (pidt : Int) (enc : Enc) {frames : List Arrival}
    (ticks : ∀ a ∈ frames, a.1.jiffies % 2 ^ 32 ≠ 0) : Clocked (dataRun pidt enc e frames) := by
  induction frames generalizing e with
  | nil => exact clocked
  | cons a frames ih =>
      rw [List.forall_mem_cons] at ticks
      exact ih (clocked.step pidt enc a ticks.1) ticks.2

/-- From a new entry on: no frame divides by 0 exactly if, while the gap is measured, no frame below the window whose
slot is open repeats the number of the frame before it; and none does if the clock does not read 0. -/
theorem divisor_iff {hash : Enc → Bucket} {w : World} {enc : Enc} {e : EncodingRx} (found : findRx hash w enc = some e)
    (new : e.latest = 0 ∧ e.firstFrame = 0 ∧ e.secondFrame = 0) {frames : List Arrival}
    (data : ∀ a ∈ frames, IsData enc a) :
    ((∀ done a, done ++ [a] <+: frames → gapDivisor hash enc (rxRun hash w done) a ≠ some 0) ↔
      ∀ done a e', done ++ [a] <+: frames → findRx hash (rxRun hash w done) enc = some e' → e'.Spared (seqOf a)) ∧
    ((∀ a ∈ frames, a.1.jiffies % 2 ^ 32 ≠ 0) →
      ∀ done a, done ++ [a] <+: frames → gapDivisor hash enc (rxRun hash w done) a ≠ some 0) := by
  have entry : ∀ done a, done ++ [a] <+: frames →
      findRx hash (rxRun hash w done) enc = some (dataRun w.pidt enc e done) := by
    intro done a before
    exact findRx_rxRun found fun b member => data b (before.subset (List.mem_append_left _ member))
  have divides : ∀ done a, done ++ [a] <+: frames →
      gapDivisor hash enc (rxRun hash w done) a = ((dataRun w.pidt enc e done).refresh a.1).divisor (seqOf a) := by
    intro done a before
    rw [gapDivisor, entry done a before, Option.bind_some]
  have start : Measured e := fun first => absurd new.2.1 first
  have run := start.run w.pidt enc frames
  have spared : (∀ done a, done ++ [a] <+: frames → gapDivisor hash enc (rxRun hash w done) a ≠ some 0) ↔
      ∀ done a, done ++ [a] <+: frames → (dataRun w.pidt enc e done).Spared (seqOf a) := by
    rw [← run]
    refine forall_congr' fun done => forall_congr' fun a => forall_congr' fun before => ?_
    rw [divides done a before]
  refine ⟨spared.trans ⟨fun all done a e' before found' => ?_, fun all done a before => ?_⟩, fun ticks => ?_⟩
  · rw [entry done a before] at found'
    exact Option.some.inj found' ▸ all done a before
  · exact all done a _ before (entry done a before)
  · rw [spared]
    intro done a before
    have clocked : Clocked e := .inl ⟨new.2.1, new.1⟩
    refine (clocked.run w.pidt enc fun b member => ticks b ?_).spared _
    exact before.subset (List.mem_append_left _ member)

theorem divisor_iff_two :
    gapDivisor oneBucket 7 (rxRun oneBucket (.subscribed (.zero 7)) [dataArrival .quiet 7 0]) (dataArrival .quiet 7 1) ≠
      some 0 := by
  have found : findRx oneBucket (.subscribed (.zero 7)) 7 = some (.zero 7) := rfl
  have data : ∀ a ∈ [dataArrival .quiet 7 0, dataArrival .quiet 7 1], IsData 7 a := by simp [isData_dataArrival]
  refine (divisor_iff found ⟨rfl, rfl, rfl⟩ data).2 ?_ [dataArrival .quiet 7 0] _ List.prefix_rfl
  simp [dataArrival, Env.quiet]

/-! ## A straggler that comes twice -/

section Straggler

variable {e : EncodingRx} (pidt : Int) (enc : Enc) {a : Arrival} {x : Nat}

/-- A first frame far ahead clears all slots but its own; a clock that reads 0 leaves no measurement of it. -/
theorem rxData_far (new : e.latest = 0 ∧ e.firstFrame = 0 ∧ e.secondFrame = 0) (zero : a.1.jiffies % 2 ^ 32 = 0)
    (far : windowSize ≤ seqOf a) (low : x < seqOf a % windowSize) :
    let e' := (rxData a.1 pidt e enc (a.2.pull 9)).1
    (e'.latest = seqOf a ∧ e'.window x = 0) ∧ e'.firstFrame = 0 ∧ e'.secondFrame = 0 := by
  have pos := windowSize_pos
  have inRing := Nat.mod_lt (seqOf a) pos
  obtain ⟨e', got, marks⟩ : ∃ e', (e.refresh a.1).receive (seqOf a) = some e' ∧
      e'.marks = Ring.setMark windowSize 1 (Ring.slide windowSize 0 (seqOf a - e.latest) e.marks) (seqOf a) := by
    rcases EncodingRx.receive_cases (e.refresh a.1) (seqOf a) with ⟨-, rest⟩ | ⟨below, -⟩ | ⟨⟨below, -⟩, -⟩ | ⟨old, -⟩ |
      ⟨old, -⟩
    · exact rest
    · exact absurd (below.trans_eq new.1) (by omega)
    · exact absurd (below.trans_eq new.1) (by omega)
    · exact absurd (old.trans_eq new.1) (by omega)
    · exact absurd (old.trans_eq new.1) (by omega)
  have start : Clocked (e.refresh a.1) := .inl ⟨new.2.1, new.1⟩
  have calm : (e.refresh a.1).divisor (seqOf a) ≠ some 0 := fun by_zero =>
    (EncodingRx.divisor_zero start.measured).mp by_zero (start.spared _)
  obtain ⟨_, _, _, _, after⟩ := rxData_accepted a.1 pidt enc got calm
  obtain ⟨_, _, frame⟩ := receive_frame got
  have first : e'.firstFrame = 0 := by
    rw [frame]
    exact new.2.1
  have second : e'.secondFrame = 0 := by
    rw [frame]
    exact new.2.2
  have latest : e'.latest = seqOf a := by
    rw [receive_latest got]
    exact (congrArg (max · (seqOf a)) new.1).trans (Nat.zero_max _)
  have window : e'.window x = 0 := by
    rw [← EncodingRx.marks_slot, marks]
    refine (Function.update_of_ne (Nat.ne_of_lt low) ..).trans ?_
    rcases Ring.slide_slot 0 (seqOf a - e.latest) e.marks x with ⟨cleared, -⟩ | ⟨-, others⟩
    · exact cleared
    · have none_ : e.marks.latest = 0 := new.1
      by_cases here : x = 0
      · exact absurd (here ▸ Nat.mod_self _) (others windowSize (by omega) (by omega))
      · exact absurd (Nat.mod_eq_of_lt (by omega)) (others x (by omega) (by omega))
  rw [after, EncodingRx.timeFrame, if_pos first]
  exact ⟨⟨latest, window⟩, zero, second⟩

/-- The straggler is accepted, measured and not marked, and its second copy divides by 0. -/
theorem divides_again (new : e.latest = 0 ∧ e.firstFrame = 0 ∧ e.secondFrame = 0) {b c : Arrival}
    (zero : a.1.jiffies % 2 ^ 32 = 0) (far : windowSize ≤ seqOf a) (low : seqOf b < seqOf a % windowSize)
    (ticks : b.1.jiffies % 2 ^ 32 ≠ 0) (same : seqOf c = seqOf b) :
    ((dataRun pidt enc e [a, b]).refresh c.1).divisor (seqOf c) = some 0 := by
  have pos := windowSize_pos
  have inRing := Nat.mod_lt (seqOf a) pos
  obtain ⟨⟨latest, window⟩, first, second⟩ := rxData_far pidt enc new zero far low
  generalize e₁_eq : (rxData a.1 pidt e enc (a.2.pull 9)).1 = e₁ at latest window first second
  have slot : seqOf b % windowSize = seqOf b := Nat.mod_eq_of_lt (by omega)
  have unmarked : Unmarked e₁.latest (seqOf b) := ⟨latest ▸ far, latest ▸ low⟩
  have got : (e₁.refresh b.1).receive (seqOf b) = some (e₁.refresh b.1) := by
    have window : e₁.window (seqOf b % windowSize) = 0 := slot.symm ▸ window
    rcases EncodingRx.receive_cases (e₁.refresh b.1) (seqOf b) with ⟨above, -⟩ | ⟨-, marked, -⟩ | ⟨⟨-, near⟩, -⟩ |
      ⟨-, -, -, got⟩ | ⟨-, high, -⟩
    · have above : e₁.latest < seqOf b := above
      have := Nat.mod_le (seqOf a) windowSize
      omega
    · exact absurd (marked.symm.trans window) (by decide)
    · have near : e₁.latest < seqOf b + windowSize := near
      have := Nat.div_add_mod (seqOf a) windowSize
      have := Nat.mul_le_mul_left windowSize (Nat.div_pos far pos)
      omega
    · exact got
    · exact absurd unmarked.2 (Nat.not_lt.mpr high)
  have start : Measured (e₁.refresh b.1) := fun begun => absurd first begun
  have calm : (e₁.refresh b.1).divisor (seqOf b) ≠ some 0 := fun by_zero =>
    (EncodingRx.divisor_zero start).mp by_zero fun begun => absurd first begun
  obtain ⟨_, _, _, _, after⟩ := rxData_accepted b.1 pidt enc got calm
  have run : dataRun pidt enc e [a, b] = (rxData b.1 pidt e₁ enc (b.2.pull 9)).1 := by
    rw [← e₁_eq]
    rfl
  have measured : Measured (dataRun pidt enc e [a, b]) := run ▸ start.step pidt enc b calm
  rw [EncodingRx.divisor_zero (measured.refresh c.1), same, run, after, EncodingRx.timeFrame,
    if_pos (show (e₁.refresh b.1).firstFrame = 0 from first)]
  intro spared
  have marked := spared ticks second rfl unmarked
  rw [slot] at marked
  exact absurd (marked.symm.trans window) (by decide)

end Straggler

/-- The environment at a reading of the clock. -/
def clockAt (jiffies : Nat) : Env := { Env.quiet with jiffies := jiffies }

/-- The clock reads 0 when frame 1000 comes; frame 100 is below the window, and comes twice. -/
theorem divides_by_zero :
    gapDivisor oneBucket 7
      (rxRun oneBucket (.subscribed (.zero 7))
        [dataArrival (clockAt 4294967296) 7 1000, dataArrival (clockAt 4294967301) 7 100])
      (dataArrival (clockAt 4294967302) 7 100) = some 0 := by
  have frame (jiffies : Nat) {seq : Nat} (fits : seq < 65536) :
      IsData 7 (dataArrival (clockAt jiffies) 7 seq) ∧ seqOf (dataArrival (clockAt jiffies) 7 seq) = seq :=
    ⟨isData_dataArrival .., seqOf_dataArrival _ _ fits⟩
  have data : ∀ a ∈ [dataArrival (clockAt 4294967296) 7 1000, dataArrival (clockAt 4294967301) 7 100], IsData 7 a := by
    simp only [List.forall_mem_cons, List.not_mem_nil, false_imp_iff, implies_true, and_true]
    exact ⟨(frame _ (by decide)).1, (frame _ (by decide)).1⟩
  have found : findRx oneBucket (.subscribed (.zero 7)) 7 = some (.zero 7) := rfl
  rw [gapDivisor, findRx_rxRun found data, Option.bind_some]
  have far := (frame 4294967296 (show 1000 < 65536 by decide)).2
  have low (jiffies : Nat) := (frame jiffies (show 100 < 65536 by decide)).2
  refine divides_again _ 7 ⟨rfl, rfl, rfl⟩ (by decide) ?_ ?_ (by decide) ?_
  · rw [far]
    decide
  · rw [far, low]
    decide
  · rw [low, low]

end Vmac.Core
