/-
# Vmac.Core.WindowExact -- what the receive window says

After a run of data frames the window should say which of the last 700 numbers
have been received (`WindowExact`).  A straggler from below the window can pass
the test of `markReceived` and mark the slot of another number
(`MarksForeignSlot`); `smeared` collects these numbers.

* `dataRun_exact`: after every run the marked numbers are those received and
  those smeared.
* `window_exact_iff`: the window is exact after every frame of a run if and only
  if no frame of the run marks a foreign slot.
-/
import Vmac.Core.Rx
import Mathlib.Data.List.Induction

namespace Vmac.Core

open Theory Theory.Ring

set_option autoImplicit false

/-! ## Exact windows and stragglers -/

namespace EncodingRx

/-- A new entry in memory that was zero: no frame, an empty window. -/
structure Fresh (e : EncodingRx) : Prop where
  latest : e.latest = 0
  lastin : e.lastin = 0
  round : e.round = 0
  window : ∀ i, e.window i = 0

/-- A slot of the window holds 1 exactly when its number has been received. -/
def WindowExact (e : EncodingRx) (received : Set Nat) : Prop :=
  ∀ s, e.latest < s + windowSize → s ≤ e.latest →
    (e.window (s % windowSize) = 1 ↔ s ∈ received)

/-- A straggler that is not in the window any more, passes the test against
`latest % WINDOW` and finds a slot that does not hold 1. -/
def MarksForeignSlot (e : EncodingRx) (seq : Nat) : Prop :=
  seq + windowSize ≤ e.latest ∧ e.latest % windowSize ≤ seq ∧ e.window (seq % windowSize) ≠ 1

instance (e : EncodingRx) (seq : Nat) : Decidable (e.MarksForeignSlot seq) :=
  inferInstanceAs (Decidable (_ ∧ _ ∧ _))

end EncodingRx

section Run

variable (pidt : Int) (enc : Enc)

/-- The numbers of the frames of a run. -/
def numbers (frames : List Arrival) : Set Nat := {s | s ∈ frames.map seqOf}

/-- The numbers whose slot a straggler of the run has marked. -/
def smeared (e : EncodingRx) (frames : List Arrival) : Set Nat :=
  {s | ∃ done a, done ++ [a] <+: frames ∧ (dataRun pidt enc e done).MarksForeignSlot (seqOf a) ∧
    s = owner windowSize (dataRun pidt enc e done).latest (seqOf a)}

variable {pidt enc}

theorem dataRun_concat (e : EncodingRx) (done : List Arrival) (a : Arrival) :
    dataRun pidt enc e (done ++ [a]) =
      (rxData a.1 pidt (dataRun pidt enc e done) enc (a.2.pull 9)).1 := by
  rw [dataRun, List.foldl_concat]
  rfl

theorem numbers_concat (done : List Arrival) (a : Arrival) :
    numbers (done ++ [a]) = insert (seqOf a) (numbers done) := by
  ext s
  simp [numbers, or_comm]

theorem prefix_concat {α : Type} {xs ys : List α} {y : α} (pre : xs <+: ys ++ [y]) :
    xs <+: ys ∨ xs = ys ++ [y] := by
  rcases List.prefix_concat_iff.mp pre with same | inside
  · exact .inr same
  · exact .inl inside

theorem smeared_concat (e : EncodingRx) (done : List Arrival) (a : Arrival) (s : Nat) :
    s ∈ smeared pidt enc e (done ++ [a]) ↔ s ∈ smeared pidt enc e done ∨
      (dataRun pidt enc e done).MarksForeignSlot (seqOf a) ∧
        s = owner windowSize (dataRun pidt enc e done).latest (seqOf a) := by
  constructor
  · rintro ⟨done', a', pre, foreign, same⟩
    rcases prefix_concat pre with inside | whole
    · exact .inl ⟨done', a', inside, foreign, same⟩
    · obtain ⟨rfl, last⟩ := List.append_inj' whole rfl
      cases last
      exact .inr ⟨foreign, same⟩
  · rintro (⟨done', a', pre, foreign, same⟩ | ⟨foreign, same⟩)
    · exact ⟨done', a', pre.trans (List.prefix_append ..), foreign, same⟩
    · exact ⟨done, a, List.prefix_rfl, foreign, same⟩

/-! ## One frame -/

/-- What a data frame does to a ring that is exact for `received`. -/
theorem rxData_exact (pidt : Int) (enc : Enc) {e : EncodingRx} {received : Set Nat}
    (exact : Exact windowSize 0 1 e.marks received) (behind : ∀ s ∈ received, s ≤ e.latest)
    (a : Arrival) :
    Exact windowSize 0 1 (rxData a.1 pidt e enc (a.2.pull 9)).1.marks
      (if e.MarksForeignSlot (seqOf a) then
        insert (owner windowSize e.latest (seqOf a)) (insert (seqOf a) received)
      else insert (seqOf a) received) := by
  rw [rxData_marks]
  have cases := (e.refresh a.1).receive_cases (seqOf a)
  rw [show readSeq a.1.past (a.2.pull 9).data = seqOf a from rfl]
  have noForeign : e.latest < seqOf a + windowSize ∨ seqOf a < e.latest % windowSize ∨
      e.window (seqOf a % windowSize) = 1 → ¬ e.MarksForeignSlot (seqOf a) := by
    rintro (near | low | dup) ⟨below, high, unmarked⟩
    · omega
    · omega
    · exact unmarked dup
  rcases cases with ⟨fresh, e', got, marks⟩ | ⟨below, dup, got⟩ | ⟨inside, unmarked, e', got, marks⟩ |
    ⟨old, low, unmarked, got⟩ | ⟨old, high, unmarked, e', got, marks⟩
  · -- a new latest: the window slides up to it
    rw [got, Option.getD_some, marks,
      if_neg (noForeign (.inl (Nat.lt_add_right windowSize fresh)))]
    apply setMark_exact (slide_exact exact _ behind)
    rw [slide_latest]
    have fresh' : e.latest < seqOf a := fresh
    have pos := windowSize_pos
    show InWindow windowSize (e.latest + (seqOf a - e.latest)) (seqOf a)
    exact ⟨by omega, by omega⟩
  · -- a duplicate, or a number whose slot belongs to another by now
    rw [got, Option.getD_none, if_neg (noForeign (.inr (.inr dup)))]
    by_cases near : e.latest < seqOf a + windowSize
    · have received : seqOf a ∈ received := by
        by_contra absent
        have clear : e.window (seqOf a % windowSize) = 0 := (exact _ ⟨below, near⟩).2 absent
        have marked : e.window (seqOf a % windowSize) = 1 := dup
        rw [clear] at marked
        cases marked
      exact (exact_insert_mem received).mpr exact
    · exact (exact_insert_old (Nat.le_of_not_lt near)).mpr exact
  · -- a late frame of the window
    rw [got, Option.getD_some, marks, if_neg (noForeign (.inl inside.2))]
    exact setMark_exact exact inside
  · -- a straggler that fails the test
    rw [got, Option.getD_some, if_neg (noForeign (.inr (.inl low)))]
    exact (exact_insert_old old).mpr exact
  · -- a straggler that passes it
    rw [got, Option.getD_some, marks, if_pos ⟨old, high, unmarked⟩, setMark_owner old]
    have inside := owner_inWindow windowSize_pos (show seqOf a + windowSize ≤ e.latest from old)
    exact setMark_exact ((exact_insert_old old).mpr exact) inside

theorem receive_latest {e e' : EncodingRx} {seq : Nat} (got : e.receive seq = some e') :
    e'.latest = max e.latest seq := by
  unfold EncodingRx.receive at got
  split at got
  · cases got
    rw [EncodingRx.markReceived_latest, EncodingRx.followLatest_latest]
    omega
  · split at got
    · cases got
    · cases got
      rw [EncodingRx.markReceived_latest]
      omega

theorem rxData_latest (pidt : Int) (enc : Enc) (e : EncodingRx) (a : Arrival) :
    (rxData a.1 pidt e enc (a.2.pull 9)).1.latest = max e.latest (seqOf a) := by
  have marks := rxData_marks a.1 pidt e enc (a.2.pull 9)
  rw [← EncodingRx.marks_latest, marks]
  show (((e.refresh a.1).receive (seqOf a)).getD e).latest = max e.latest (seqOf a)
  cases got : (e.refresh a.1).receive (seqOf a) with
  | some e' => exact receive_latest (e := e.refresh a.1) got
  | none =>
      have old : ¬ (e.refresh a.1).latest < seqOf a := by
        intro fresh
        rw [EncodingRx.receive, if_pos fresh] at got
        cases got
      have old' : ¬ e.latest < seqOf a := old
      show e.latest = max e.latest (seqOf a)
      omega

/-! ## Runs -/

theorem dataRun_behind (e : EncodingRx) (frames : List Arrival) :
    ∀ s ∈ numbers frames ∪ smeared pidt enc e frames, s ≤ (dataRun pidt enc e frames).latest := by
  induction frames using List.reverseRecOn with
  | nil =>
      rintro s (none | ⟨done, a, pre, -⟩)
      · simp [numbers] at none
      · simp at pre
  | append_singleton done a ih =>
      rw [dataRun_concat, rxData_latest, numbers_concat]
      rintro s ((same | old) | smear)
      · omega
      · have := ih s (.inl old)
        omega
      · rw [smeared_concat] at smear
        rcases smear with smear | ⟨-, same⟩
        · have := ih s (.inr smear)
          omega
        · have := Nat.sub_le (dataRun pidt enc e done).latest
            (((dataRun pidt enc e done).latest - seqOf a) % windowSize)
          unfold owner at same
          omega

/-- After every run the marked numbers of the window are those received and those smeared. -/
theorem dataRun_exact (pidt : Int) (enc : Enc) {e : EncodingRx} (fresh : e.Fresh) (frames : List Arrival) :
    Exact windowSize 0 1 (dataRun pidt enc e frames).marks
      (numbers frames ∪ smeared pidt enc e frames) := by
  induction frames using List.reverseRecOn with
  | nil =>
      intro s _
      refine ⟨?_, fun _ => fresh.window _⟩
      rintro (none | ⟨done, a, pre, -⟩)
      · simp [numbers] at none
      · simp at pre
  | append_singleton done a ih =>
      have step := rxData_exact pidt enc ih (dataRun_behind e done) a
      rw [dataRun_concat]
      convert step using 1
      ext s
      rw [Set.mem_union, smeared_concat, numbers_concat]
      split
      · rename_i foreign
        simp only [Set.mem_insert_iff, Set.mem_union, foreign, true_and]
        tauto
      · rename_i kept
        simp only [Set.mem_insert_iff, Set.mem_union, kept, false_and, or_false]
        tauto

theorem mem_smeared {e : EncodingRx} {frames done : List Arrival} {a : Arrival}
    (pre : done ++ [a] <+: frames)
    (foreign : (dataRun pidt enc e done).MarksForeignSlot (seqOf a)) :
    owner windowSize (dataRun pidt enc e done).latest (seqOf a) ∈ smeared pidt enc e frames :=
  ⟨done, a, pre, foreign, rfl⟩

theorem dataRun_windowExact {e : EncodingRx} (fresh : e.Fresh) {frames : List Arrival}
    (clean : smeared pidt enc e frames = ∅) :
    (dataRun pidt enc e frames).WindowExact (numbers frames) := by
  have exact := dataRun_exact pidt enc fresh frames
  rw [clean, Set.union_empty] at exact
  intro s near below
  obtain ⟨got, absent⟩ := exact s ⟨below, near⟩
  refine ⟨fun marked => ?_, got⟩
  by_contra missing
  have cleared : (dataRun pidt enc e frames).window (s % windowSize) = 0 := absent missing
  rw [cleared] at marked
  cases marked

theorem dataRun_latest_lt {e : EncodingRx} {b : Nat} (start : e.latest < b)
    {frames : List Arrival} (low : ∀ a ∈ frames, seqOf a < b) :
    (dataRun pidt enc e frames).latest < b := by
  induction frames using List.reverseRecOn with
  | nil => exact start
  | append_singleton done a ih =>
      have below := ih fun x member => low x (List.mem_append_left _ member)
      have last := low a (List.mem_append_right _ (List.mem_singleton_self a))
      rw [dataRun_concat, rxData_latest]
      omega

/-- Before the ring is full no slot belongs to two numbers. -/
theorem smeared_of_low {e : EncodingRx} (fresh : e.Fresh) {frames : List Arrival}
    (low : ∀ a ∈ frames, seqOf a < windowSize) : smeared pidt enc e frames = ∅ := by
  rw [Set.eq_empty_iff_forall_notMem]
  rintro s ⟨done, a, pre, ⟨old, -⟩, -⟩
  have start : e.latest < windowSize := by
    rw [fresh.latest]
    exact windowSize_pos
  have short : (dataRun pidt enc e done).latest < windowSize :=
    dataRun_latest_lt start fun x member => low x (pre.subset (List.mem_append_left _ member))
  omega

/-- A frame that marks a foreign slot leaves the window inexact. -/
theorem not_windowExact_of_foreign {e : EncodingRx} (fresh : e.Fresh) {done : List Arrival}
    {a : Arrival} (before : (dataRun pidt enc e done).WindowExact (numbers done))
    (foreign : (dataRun pidt enc e done).MarksForeignSlot (seqOf a)) :
    ¬ (dataRun pidt enc e (done ++ [a])).WindowExact (numbers (done ++ [a])) := by
  intro after
  obtain ⟨old, high, unmarked⟩ := foreign
  have inside := owner_inWindow windowSize_pos old
  have latest : (dataRun pidt enc e (done ++ [a])).latest = (dataRun pidt enc e done).latest := by
    rw [dataRun_concat, rxData_latest]
    omega
  have member := mem_smeared (e := e) (List.prefix_refl (done ++ [a])) ⟨old, high, unmarked⟩
  rw [← latest] at inside member
  have marked := ((dataRun_exact pidt enc fresh (done ++ [a])) _ inside).1 (.inr member)
  have received := (after _ inside.2 inside.1).mp marked
  rw [latest, numbers_concat] at received
  refine owner_not_mem (r := (dataRun pidt enc e done).marks) windowSize_pos ?_ old unmarked
    received
  intro t got near
  exact (before t near.2 near.1).mpr got

/-- Two frames are enough: one far ahead, then one below the window whose number is
not below the latest one modulo the window and has another slot. -/
theorem foreign_of_two {e : EncodingRx} (fresh : e.Fresh) {a b : Arrival}
    (before : (dataRun pidt enc e [a]).WindowExact (numbers [a]))
    (old : seqOf b + windowSize ≤ seqOf a) (high : seqOf a % windowSize ≤ seqOf b)
    (apart : seqOf b % windowSize ≠ seqOf a % windowSize) :
    (dataRun pidt enc e [a]).MarksForeignSlot (seqOf b) := by
  have latest : (dataRun pidt enc e [a]).latest = seqOf a := by
    show (rxData a.1 pidt e enc (a.2.pull 9)).1.latest = seqOf a
    rw [rxData_latest, fresh.latest, Nat.zero_max]
  refine ⟨by omega, by rw [latest]; exact high, fun marked => ?_⟩
  have slot : owner windowSize (seqOf a) (seqOf b) % windowSize = seqOf b % windowSize :=
    owner_slot (by omega)
  have inside := owner_inWindow windowSize_pos old
  have received := (before _ (by rw [latest]; exact inside.2) (by rw [latest]; exact inside.1)).mp
    (by rw [slot]; exact marked)
  have same : owner windowSize (seqOf a) (seqOf b) = seqOf a := by simpa [numbers] using received
  rw [same] at slot
  exact apart slot.symm

end Run

/-! ## When the window is exact -/

section Exact

variable (hash : Enc → Bucket) (w : World) (enc : Enc) (frames : List Arrival)

/-- After every frame of the run the window says exactly what has been received. -/
def AlwaysExact : Prop :=
  ∀ done, done <+: frames →
    ∃ e, findRx hash (rxRun hash w done) enc = some e ∧ e.WindowExact (numbers done)

/-- No frame of the run is a straggler that marks the slot of another number. -/
def NoForeignMark : Prop :=
  ∀ done a e, done ++ [a] <+: frames → findRx hash (rxRun hash w done) enc = some e →
    ¬ e.MarksForeignSlot (seqOf a)

end Exact

theorem window_exact_iff (hash : Enc → Bucket) {w : World} {enc : Enc} {e : EncodingRx}
    (found : findRx hash w enc = some e) (fresh : e.Fresh) {frames : List Arrival}
    (data : ∀ a ∈ frames, IsData enc a) :
    AlwaysExact hash w enc frames ↔ NoForeignMark hash w enc frames := by
  have run : ∀ done, done <+: frames →
      findRx hash (rxRun hash w done) enc = some (dataRun w.pidt enc e done) := by
    intro done pre
    exact findRx_rxRun found fun a member => data a (pre.subset member)
  constructor
  · intro exact done a e' pre now foreign
    have pre' : done <+: frames := (List.prefix_append done [a]).trans pre
    obtain ⟨e₀, found₀, before⟩ := exact done pre'
    obtain ⟨e₁, found₁, after⟩ := exact (done ++ [a]) pre
    rw [run done pre'] at now found₀
    rw [run _ pre] at found₁
    cases now
    cases found₀
    cases found₁
    exact not_windowExact_of_foreign fresh before foreign after
  · intro clean done pre
    refine ⟨_, run done pre, dataRun_windowExact fresh ?_⟩
    rw [Set.eq_empty_iff_forall_notMem]
    rintro s ⟨done', a, pre', foreign, -⟩
    have pre'' : done' <+: frames := ((List.prefix_append done' [a]).trans pre').trans pre
    exact clean done' a _ (pre'.trans pre) (run done' pre'') foreign

theorem zero_fresh (enc : Enc) : (EncodingRx.zero enc).Fresh :=
  ⟨rfl, rfl, rfl, fun _ => rfl⟩

/-- Frame 1400, then the straggler 5: it marks the slot of 705. -/
def stragglerRun : List Arrival := [dataArrival .quiet 7 1400, dataArrival .quiet 7 5]

theorem stragglerRun_data : ∀ a ∈ stragglerRun, IsData 7 a := by
  intro a member
  simp only [stragglerRun, List.mem_cons, List.not_mem_nil, or_false] at member
  rcases member with rfl | rfl <;> exact isData_dataArrival ..

theorem window_exact_iff_straggler :
    AlwaysExact oneBucket (.subscribed (.zero 7)) 7 stragglerRun ↔
      NoForeignMark oneBucket (.subscribed (.zero 7)) 7 stragglerRun :=
  window_exact_iff oneBucket (findRx_subscribed _) (zero_fresh 7) stragglerRun_data

theorem straggler_not_exact : ¬ AlwaysExact oneBucket (.subscribed (.zero 7)) 7 stragglerRun := by
  intro exact
  have found : findRx oneBucket (.subscribed (.zero 7)) 7 = some (.zero 7) := rfl
  have first : seqOf (dataArrival .quiet 7 1400) = 1400 := seqOf_dataArrival _ _ (by decide)
  have second : seqOf (dataArrival .quiet 7 5) = 5 := seqOf_dataArrival _ _ (by decide)
  have data : ∀ a ∈ [dataArrival .quiet 7 1400], IsData 7 a := by
    intro a member
    exact stragglerRun_data a (List.mem_cons.mpr (.inl (List.mem_singleton.mp member)))
  obtain ⟨e₀, found₀, before⟩ := exact [dataArrival .quiet 7 1400] ⟨_, rfl⟩
  obtain ⟨e₁, found₁, after⟩ := exact stragglerRun List.prefix_rfl
  rw [findRx_rxRun found data] at found₀
  rw [findRx_rxRun found stragglerRun_data] at found₁
  rw [← Option.some.inj found₀] at before
  rw [← Option.some.inj found₁] at after
  have foreign := foreign_of_two (b := dataArrival .quiet 7 5) (zero_fresh 7) before
    (by rw [first, second]; decide) (by rw [first, second]; decide) (by rw [first, second]; decide)
  exact not_windowExact_of_foreign (zero_fresh 7) before foreign after

end Vmac.Core
