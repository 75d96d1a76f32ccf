/-
# Vmac.Core.AtMostOnce -- how often a frame is handed to userspace

A data frame reaches `nl_send` unless its slot of the window holds 1 or the gap between
two arrivals is divided by zero.  A slot is cleared for the number that takes it over, so a
repeated frame that comes a whole window late finds the mark of another number, or none.

* `passedOn_nodup`: as long as no repeated frame comes so late and finds no mark, no number
  is handed on twice.
* `late_repeat_passed_on`: three frames are enough for the other case.
-/
import Mathlib.Data.List.Nodup
import Vmac.Core.Link

namespace Vmac.Core

open Theory Theory.Ring

set_option autoImplicit false

/-! ## Handing on -/

/-- The numbers that a run hands on, in order. -/
def passedOn (hash : Enc → Bucket) (enc : Enc) : World → List Arrival → List Nat
  | _, [] => []
  | w, a :: frames =>
      (if (findRx hash w enc).any fun e => (e.refresh a.1).passes (seqOf a) then [seqOf a] else []) ++
        passedOn hash enc (vmacRx hash a.1 w a.2).1 frames

/-- The same on the entry. -/
def passedFrom (pidt : Int) (enc : Enc) : EncodingRx → List Arrival → List Nat
  | _, [] => []
  | e, a :: frames =>
      (if (e.refresh a.1).passes (seqOf a) then [seqOf a] else []) ++
        passedFrom pidt enc (rxData a.1 pidt e enc (a.2.pull 9)).1 frames

section Run

variable {hash : Enc → Bucket} {w : World} {enc : Enc} {e : EncodingRx} {frames : List Arrival} {pidt : Int}

theorem passedOn_eq (found : findRx hash w enc = some e) (data : ∀ a ∈ frames, IsData enc a) :
    passedOn hash enc w frames = passedFrom w.pidt enc e frames := by
  induction frames generalizing w e with
  | nil => rfl
  | cons a frames ih =>
      rw [List.forall_mem_cons] at data
      have rest := ih (findRx_vmacRx_data found data.1) data.2
      rw [passedOn, found, rest, vmacRx_pidt, passedFrom]
      rfl

theorem passedFrom_concat (e : EncodingRx) (done : List Arrival) (a : Arrival) :
    passedFrom pidt enc e (done ++ [a]) =
      passedFrom pidt enc e done ++ if ((dataRun pidt enc e done).refresh a.1).passes (seqOf a) then [seqOf a] else [] := by
  induction done generalizing e with
  | nil =>
      simp [passedFrom, dataRun]
      rfl
  | cons b done ih =>
      rw [List.cons_append, passedFrom, ih, passedFrom, List.append_assoc]
      rfl

theorem passedFrom_sub (e : EncodingRx) (frames : List Arrival) :
    ∀ s ∈ passedFrom pidt enc e frames, s ∈ numbers frames := by
  induction frames using List.reverseRecOn with
  | nil => exact nofun
  | append_singleton done a ih =>
      intro s inside
      rw [passedFrom_concat] at inside
      rw [numbers_concat]
      rcases List.mem_append.mp inside with before | last
      · exact .inr (ih s before)
      · split at last
        · exact .inl (List.mem_singleton.mp last)
        · exact nomatch last

/-- A frame that has come before is handed on only if it comes a window late and finds no mark. -/
theorem passes_repeat (fresh : e.Fresh) {done : List Arrival} {a : Arrival}
    (passes : ((dataRun pidt enc e done).refresh a.1).passes (seqOf a) = true) (again : seqOf a ∈ numbers done) :
    seqOf a + windowSize ≤ (dataRun pidt enc e done).latest ∧
      (dataRun pidt enc e done).window (seqOf a % windowSize) ≠ 1 := by
  have exact := dataRun_exact pidt enc fresh done
  have behind : seqOf a ≤ (dataRun pidt enc e done).latest := dataRun_behind e done (seqOf a) (.inl again)
  rcases ((dataRun pidt enc e done).refresh a.1).receive_cases (seqOf a) with
    ⟨newer, -⟩ | ⟨-, -, got⟩ | ⟨inside, unmarked, -⟩ | ⟨old, -, unmarked, -⟩ | ⟨old, -, unmarked, -⟩
  · exact absurd newer (Nat.not_lt.mpr behind)
  · rw [EncodingRx.passes, got] at passes
    cases passes
  · -- in the window a number that has come is marked
    exact absurd ((exact _ inside).1 (.inl again)) unmarked
  · exact ⟨old, unmarked⟩
  · exact ⟨old, unmarked⟩

end Run

/-! ## At most once -/

section Once

variable (hash : Enc → Bucket) (w : World) (enc : Enc) (frames : List Arrival)

/-- No frame of the run that has come before comes again a whole window late, to a slot without mark. -/
def NoLateRepeat : Prop :=
  ∀ done a e, done ++ [a] <+: frames → findRx hash (rxRun hash w done) enc = some e →
    seqOf a ∈ numbers done → seqOf a + windowSize ≤ e.latest → e.window (seqOf a % windowSize) = 1

end Once

theorem passedOn_nodup {hash : Enc → Bucket} {w : World} {enc : Enc} {e : EncodingRx}
    (found : findRx hash w enc = some e) (fresh : e.Fresh) {frames : List Arrival}
    (data : ∀ a ∈ frames, IsData enc a) (prompt : NoLateRepeat hash w enc frames) :
    (passedOn hash enc w frames).Nodup := by
  rw [passedOn_eq found data]
  induction frames using List.reverseRecOn with
  | nil => exact List.nodup_nil
  | append_singleton done a ih =>
      have data' : ∀ a ∈ done, IsData enc a := fun b member => data b (List.mem_append_left _ member)
      have before := ih data' fun done' b e' pre => prompt done' b e' (pre.trans (List.prefix_append ..))
      rw [passedFrom_concat]
      split
      · rename_i passes
        refine List.nodup_append.mpr ⟨before, List.nodup_singleton _, ?_⟩
        rintro s inside t last rfl
        obtain rfl : s = seqOf a := List.mem_singleton.mp last
        have again := passedFrom_sub e done _ inside
        obtain ⟨old, unmarked⟩ := passes_repeat fresh passes again
        exact unmarked (prompt done a _ List.prefix_rfl (findRx_rxRun found data') again old)
      · rwa [List.append_nil]

/-! ## A late repeat -/

/-- Frame 0, frame 701 and frame 0 again: slot 0 was cleared for frame 700. -/
def lateRepeat : List Arrival :=
  [dataArrival .quiet 7 0, dataArrival .quiet 7 701, dataArrival .quiet 7 0]

theorem lateRepeat_data : ∀ a ∈ lateRepeat, IsData 7 a := by
  intro a member
  simp only [lateRepeat, List.mem_cons, List.not_mem_nil, or_false] at member
  rcases member with rfl | rfl | rfl <;> exact isData_dataArrival ..

theorem late_repeat_passed_on : ¬(passedOn oneBucket 7 (.subscribed (.zero 7)) lateRepeat).Nodup := by
  have counts : passedOn oneBucket 7 (.subscribed (.zero 7)) lateRepeat = passedFrom (-1) 7 (.zero 7) lateRepeat :=
    passedOn_eq (findRx_subscribed (.zero 7)) lateRepeat_data
  rw [counts]
  decide +kernel

/-- Frame 3 twice. -/
def promptRepeat : List Arrival := [dataArrival .quiet 7 3, dataArrival .quiet 7 3]

theorem passedOn_nodup_prompt : (passedOn oneBucket 7 (.subscribed (.zero 7)) promptRepeat).Nodup := by
  have data : ∀ a ∈ promptRepeat, IsData 7 a := by
    intro a member
    simp only [promptRepeat, List.mem_cons, List.not_mem_nil, or_false] at member
    rcases member with rfl | rfl <;> exact isData_dataArrival ..
  refine passedOn_nodup (findRx_subscribed (.zero 7)) (zero_fresh 7) data ?_
  intro done a e pre found again old
  have whole : done <+: promptRepeat := (List.prefix_append done [a]).trans pre
  have now := findRx_rxRun (findRx_subscribed (.zero 7)) fun b member => data b (whole.subset member)
  have short : (dataRun (-1) 7 (.zero 7) done).latest < windowSize := by
    refine dataRun_latest_lt (by decide) fun b member => ?_
    have inside := whole.subset member
    simp only [promptRepeat, List.mem_cons, List.not_mem_nil, or_false, or_self] at inside
    rw [inside, seqOf_dataArrival _ _ (by decide)]
    decide
  obtain rfl : dataRun (-1) 7 (.zero 7) done = e := Option.some.inj (now.symm.trans found)
  omega

end Vmac.Core
