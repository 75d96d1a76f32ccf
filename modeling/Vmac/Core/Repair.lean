/-
# Vmac.Core.Repair -- what a DACK makes the producer send again

A data frame that is five numbers past the last round asks for a DACK of round
`seq / 5` (`Requests`).  `missing` lists what of the round's window was never
received; the DACK should make the producer send again exactly these frames.

`dack_repair_exact`: it does, where the request is `Repairable` -- the last frame
of the round was received, no hole starts in slot 0 of the ring with zero padding
below it, no straggler has marked the slot of a missing frame, and frame 500 is
missing only together with one of the frames 1 to 7.
-/
import Vmac.Core.Resend
import Vmac.Core.WindowExact
import Mathlib.Data.List.Sort

namespace Vmac.Core

open Theory Theory.Ring Theory.Bytes

set_option autoImplicit false
set_option linter.unusedVariables false

/-! ## Requests -/

namespace EncodingRx

/-- The window follows the rounds: no frame is five numbers ahead of the last request. -/
structure Paced (e : EncodingRx) : Prop where
  lastin : e.lastin ≤ e.latest
  round : e.latest ≤ e.round + 4

/-- The data frame gets as far as `request_DACK`. -/
def Requests (e : EncodingRx) (a : Arrival) : Prop :=
  ∃ e', (e.refresh a.1).receive (seqOf a) = some e' ∧ e'.timeTraps (seqOf a) = false ∧
    e'.dackDue (seqOf a) = true

end EncodingRx

section Requests

variable {pidt : Int} {enc : Enc}

theorem rxData_paced {e : EncodingRx} (paced : e.Paced) (a : Arrival) :
    (rxData a.1 pidt e enc (a.2.pull 9)).1.Paced := by
  obtain ⟨lastin, round⟩ := paced
  have latest := rxData_latest pidt enc e a
  cases got : (e.refresh a.1).receive (seqOf a) with
  | none =>
      rw [rxData_drop a.1 pidt e enc got]
      exact ⟨lastin, round⟩
  | some e' =>
      have top : e'.latest = max e.latest (seqOf a) := receive_latest (e := e.refresh a.1) got
      obtain ⟨l, w, frame⟩ := receive_frame got
      have sameLastin : e'.lastin = e.lastin := by rw [frame]; rfl
      have sameRound : e'.round = e.round := by rw [frame]; rfl
      cases traps : e'.timeTraps (seqOf a) with
      | true =>
          -- the number is not above `lastin`
          have stuck : seqOf a = e'.lastin := (of_decide_eq_true traps).2.2
          rw [rxData_trap a.1 pidt e enc got traps]
          constructor <;> omega
      | false =>
          rw [rxData_run a.1 pidt e enc got traps] at latest ⊢
          refine ⟨?_, ?_⟩
          · rw [latest, requestRound_lastin]
            exact Nat.le_max_right ..
          · rw [latest]
            have asked : ∀ e₁ : EncodingRx, e₁.round = e.round →
                max e.latest (seqOf a) ≤ (requestRound a.1 e₁ enc (seqOf a)).1.round + 4 := by
              intro e₁ same
              rw [requestRound_round, same]
              split <;> omega
            exact asked _ ((timeFrame_round e' _ _).trans sameRound)

theorem dataRun_paced {e : EncodingRx} (fresh : e.Fresh) (frames : List Arrival) :
    (dataRun pidt enc e frames).Paced := by
  induction frames using List.reverseRecOn with
  | nil =>
      constructor
      · exact Nat.le_of_eq (fresh.lastin.trans fresh.latest.symm)
      · show e.latest ≤ e.round + 4
        rw [fresh.latest]
        exact Nat.zero_le _
  | append_singleton done a ih =>
      rw [dataRun_concat]
      exact rxData_paced ih a

theorem dataRun_fixed (e : EncodingRx) (frames : List Arrival) :
    (dataRun pidt enc e frames).fixed = e.fixed := by
  induction frames using List.reverseRecOn with
  | nil => rfl
  | append_singleton done a ih => rw [dataRun_concat, rxData_fixed, ih]

/-- A frame that requests a DACK is the latest one. -/
theorem requests_latest {e : EncodingRx} (paced : e.Paced) {a : Arrival} (asked : e.Requests a) :
    e.latest < seqOf a ∧ 5 ≤ seqOf a := by
  obtain ⟨e', got, -, due⟩ := asked
  obtain ⟨l, w, frame⟩ := receive_frame got
  have sameRound : e'.round = e.round := by rw [frame]; rfl
  have due' : e'.round + 5 ≤ seqOf a := of_decide_eq_true due
  have := paced.round
  omega

/-- The DACK a request leaves pending is built from an entry with the new marks. -/
theorem requests_dack (pidt : Int) (enc : Enc) {e : EncodingRx} {a : Arrival} (asked : e.Requests a)
    (built : a.1.dackOk = true ∧ a.1.lockFree = true) :
    ∃ e₁ : EncodingRx, e₁.marks = (rxData a.1 pidt e enc (a.2.pull 9)).1.marks ∧
      e₁.fixed = e.fixed ∧
      (rxData a.1 pidt e enc (a.2.pull 9)).1.dacInfo.dack =
        some ⟨a.1.base, e₁.dackFrame enc (seqOf a / 5)⟩ := by
  obtain ⟨e', got, runs, due⟩ := asked
  have here : readSeq a.1.past (a.2.pull 9).data = seqOf a := rfl
  refine ⟨{ e'.timeFrame (seqOf a) a.1.jiffies with
    lastin := seqOf a, round := seqOf a / 5 }, ?_, ?_, ?_⟩
  · rw [rxData_marks, here, got]
    exact EncodingRx.timeFrame_marks e' _ _
  · exact (timeFrame_fixed e' _ _).trans (receive_fixed (e := e.refresh a.1) got)
  · have due' : ({ e'.timeFrame (seqOf a) a.1.jiffies with
        lastin := seqOf a } : EncodingRx).dackDue (seqOf a) = true := by
      show decide ((e'.timeFrame (seqOf a) a.1.jiffies).round + 5 ≤ seqOf a) = true
      rw [timeFrame_round]
      exact due
    simp only [rxData, here, got, runs, requestRound, due', if_true, requestDack, prepDack,
      built.1, built.2, Bool.false_eq_true, if_false]
    simp only [EncodingRx.setStored, storeDack]
    split <;> rfl

end Requests

/-! ## What is missing -/

/-- The numbers of the window below `5 * round` that are not in `got`. -/
def missing (got : List Nat) (round : Nat) : List Nat :=
  (List.range (5 * round)).filter fun m => decide (5 * round < m + windowSize ∧ m ∉ got)

theorem mem_missing {got : List Nat} {round m : Nat} :
    m ∈ missing got round ↔ m < 5 * round ∧ 5 * round < m + windowSize ∧ m ∉ got := by
  simp [missing]

theorem missing_sorted (got : List Nat) (round : Nat) :
    (missing got round).Pairwise (· < ·) := List.pairwise_lt_range.filter _

/-- The requests that a DACK answers exactly. -/
structure Repairable (pad : Nat) (got : List Nat) (smear : Set Nat) (round : Nat) : Prop where
  -- the right edge of a hole stops at the last number of the round
  last : 5 * round - 1 ∈ got
  -- a hole that starts in slot 0 is extended backwards when the padding is 0
  slotZero : ∀ k, windowSize * k ∈ missing got round → windowSize * k - 1 ∈ got → pad ≠ 0
  -- no straggler has marked the slot of a missing frame
  unmarked : ∀ m ∈ missing got round, m ∉ smear
  -- the slot of frame 500 is tested in the pacing timers of the frames 0 to 7
  frame500 : windowTx ∈ missing got round → ∃ m ∈ missing got round, 1 ≤ m ∧ m ≤ 7

/-- The producer still has every frame of `ms`, and none of its frames is paced. -/
structure HoldsFrames (t : EncodingTx) (copy : Nat → List UInt8) (ms : List Nat) : Prop where
  within : ∀ m ∈ ms, t.seq ≤ m + windowTx
  slots : ∀ m ∈ ms, ∃ skb, t.retransmissionBuffer (m % windowTx) = some skb ∧ skb.data = copy m
  timers : ∀ i, t.timer i = 0

section Lost

variable {e : EncodingRx} {got : List Nat} {smear : Set Nat} {q : Nat}

/-- The window says what was received or smeared, for a request at `q`. -/
structure Marked (e : EncodingRx) (got : List Nat) (smear : Set Nat) (q : Nat) : Prop where
  exact : Exact windowSize 0 1 e.marks ({s | s ∈ got} ∪ smear)
  latest : e.latest = q
  first : 5 ≤ q
  small : q < 65536

theorem lost_iff (marked : Marked e got smear q) {i : Nat} (above : q < i + windowSize)
    (below : i ≤ q) : e.lost i = true ↔ i ∉ got ∧ i ∉ smear := by
  have inside : InWindow windowSize e.marks.latest i := by
    rw [EncodingRx.marks_latest, marked.latest]
    exact ⟨below, above⟩
  obtain ⟨yes, no⟩ := marked.exact i inside
  rw [EncodingRx.lost, decide_eq_true_iff]
  constructor
  · intro empty
    by_contra received
    have full : e.window (i % windowSize) = 1 := yes (by
      by_contra absent
      simp only [Set.mem_union, Set.mem_ofPred_eq, not_or] at absent
      exact received absent)
    rw [empty] at full
    cases full
  · rintro ⟨lost, clean⟩
    apply no
    simp only [Set.mem_union, Set.mem_ofPred_eq, not_or]
    exact ⟨lost, clean⟩

theorem lattmp_eq (small : q < 65536) : EncodingRx.lattmp (q / 5) = 5 * (q / 5) := by
  unfold EncodingRx.lattmp
  omega

variable (marked : Marked e got smear q) (repair : Repairable e.pad got smear (q / 5))
  (near : ∀ m ∈ missing got (q / 5), q < m + windowTx)

include marked repair in
theorem lost_iff_missing {i : Nat} (above : q < i + windowSize) (below : i < 5 * (q / 5)) :
    e.lost i = true ↔ i ∈ missing got (q / 5) := by
  rw [lost_iff marked above (by omega), mem_missing]
  constructor
  · rintro ⟨lost, -⟩
    exact ⟨below, by omega, lost⟩
  · rintro ⟨-, range, lost⟩
    exact ⟨lost, repair.unmarked i (mem_missing.mpr ⟨below, range, lost⟩)⟩

include marked repair near in
theorem plain_of_repairable :
    e.Plain (EncodingRx.scanStart (5 * (q / 5))) (5 * (q / 5)) := by
  have size : windowSize = 700 := rfl
  have first := marked.first
  constructor
  · have received := mt (lost_iff_missing marked repair (i := 5 * (q / 5) - 1)
      (by omega) (by omega)).mp fun lost => (mem_missing.mp lost).2.2 repair.last
    simpa using received
  · intro i low high lost before
    by_cases zero : i % windowSize = 0
    · -- only here does the backward loop look at the padding
      rw [EncodingRx.windowBelow, if_pos zero]
      obtain ⟨k, block⟩ : ∃ k, i = 700 * k := Nat.dvd_of_mod_eq_zero zero
      have wide : 5 * (q / 5) ≤ i + 695 := by
        unfold EncodingRx.scanStart at low
        split at low <;> omega
      have miss := (lost_iff_missing marked repair (by omega) high).mp lost
      have close := near i miss
      have short : windowTx = 500 := rfl
      have received : i - 1 ∈ got := by
        by_contra absent
        have member : i - 1 ∈ missing got (q / 5) := mem_missing.mpr ⟨by omega, by omega, absent⟩
        rw [(lost_iff_missing marked repair (by omega) (by omega)).mpr member] at before
        cases before
      subst block
      exact repair.slotZero k miss received
    · have below : i % windowSize - 1 = (i - 1) % windowSize := by
        have zero' : ¬ i % 700 = 0 := zero
        show i % 700 - 1 = (i - 1) % 700
        omega
      rw [EncodingRx.windowBelow, if_neg zero, below]
      exact of_decide_eq_false before

include marked repair near in
/-- Of the lost numbers of the scan, those the producer still has are the missing ones. -/
theorem kept_lostFrom {seq : Nat} (ahead : q < seq)
    (within : ∀ m ∈ missing got (q / 5), seq ≤ m + windowTx) :
    (e.lostFrom (5 * (q / 5)) (EncodingRx.scanStart (5 * (q / 5)))).filter (DackLoop.kept seq) =
      missing got (q / 5) := by
  have size : windowSize = 700 := rfl
  have short : windowTx = 500 := rfl
  refine ((EncodingRx.lostFrom_sorted _).filter _).eq_of_mem_iff (missing_sorted ..) fun m => ?_
  rw [List.mem_filter, EncodingRx.mem_lostFrom]
  constructor
  · rintro ⟨⟨low, high, lost⟩, keeps⟩
    have close : seq ≤ m + windowTx := of_decide_eq_true keeps
    exact (lost_iff_missing marked repair (by omega) (by omega)).mp lost
  · intro miss
    obtain ⟨below, range, -⟩ := mem_missing.mp miss
    have close := within m miss
    refine ⟨⟨?_, below, (lost_iff_missing marked repair (by omega) below).mpr miss⟩,
      decide_eq_true close⟩
    unfold EncodingRx.scanStart
    split <;> omega

include marked repair near in
/-- At most five numbers of the scan lie below the window. -/
theorem length_lostFrom :
    (e.lostFrom (5 * (q / 5)) (EncodingRx.scanStart (5 * (q / 5)))).length ≤
      (missing got (q / 5)).length + 5 := by
  have size : windowSize = 700 := rfl
  have first := marked.first
  have start : EncodingRx.scanStart (5 * (q / 5)) + 5 ≤ 5 * (q / 5) ∧
      5 * (q / 5) ≤ EncodingRx.scanStart (5 * (q / 5)) + 700 := by
    unfold EncodingRx.scanStart
    split <;> omega
  generalize EncodingRx.scanStart (5 * (q / 5)) = s at start
  have split : 5 * (q / 5) - s = 5 + (5 * (q / 5) - (s + 5)) := by omega
  have low : ((List.range' s 5).filter e.lost).length ≤ 5 := by
    simpa using List.length_filter_le e.lost (List.range' s 5)
  have high : ((List.range' (s + 5) (5 * (q / 5) - (s + 5))).filter e.lost).length ≤
      (missing got (q / 5)).length := by
    apply List.Subperm.length_le
    have distinct : (List.range' (s + 5) (5 * (q / 5) - (s + 5))).Nodup := List.nodup_range'
    apply List.subperm_of_subset (distinct.filter _)
    intro m member
    rw [List.mem_filter, List.mem_range'_1] at member
    obtain ⟨⟨above, below⟩, lost⟩ := member
    exact (lost_iff_missing marked repair (by omega) (by omega)).mp lost
  rw [EncodingRx.lostFrom, split, ← List.range'_append_1, List.filter_append, List.length_append]
  omega

end Lost

/-! ## The repair -/

section Repair

variable {e : EncodingRx} {got : List Nat} {smear : Set Nat} {q : Nat}

/-- The DACK of a repairable request, answered by a producer that holds what is missing. -/
theorem answerDack_resent (marked : Marked e got smear q)
    (repair : Repairable e.pad got smear (q / 5)) {t : EncodingTx} (ahead : q < t.seq)
    {copy : Nat → List UInt8} (holds : HoldsFrames t copy (missing got (q / 5)))
    (few : (missing got (q / 5)).length ≤ maxretx) {env : Env}
    (copies : ∀ k, env.copyOk k = true) (rest : List UInt8) :
    (answerDack env t (VmacDack.bytes ⟨q / 5, (e.scan (q / 5)).holes⟩ ++ rest)).outs =
      DackLoop.resent env copy 0 (missing got (q / 5)) := by
  have near : ∀ m ∈ missing got (q / 5), q < m + windowTx := by
    intro m miss
    have := holds.within m miss
    omega
  have first := marked.first
  have small := marked.small
  have plain := plain_of_repairable marked repair near
  have count := length_lostFrom marked repair near
  have keeps := kept_lostFrom marked repair near ahead holds.within
  have lattmp := lattmp_eq small
  have limit : maxretx = 20 := rfl
  have most : holesMax = 40 := rfl
  rw [← lattmp] at plain count keeps
  obtain ⟨cover, number, edges⟩ := EncodingRx.scan_covered plain (by omega) (by omega)
  have fits : ∀ h ∈ (e.scan (q / 5)).holes, h.Fits := by
    intro h member
    obtain ⟨left, right⟩ := edges h member
    constructor <;> omega
  have read : readDack env.past (VmacDack.bytes ⟨q / 5, (e.scan (q / 5)).holes⟩ ++ rest) =
      ⟨q / 5, (e.scan (q / 5)).holes⟩ :=
    readDack_bytes env.past (by show q / 5 < 65536; omega)
      (by show (e.scan (q / 5)).holes.length < 65536; omega) fits rest
  generalize asked : e.lostFrom (EncodingRx.lattmp (q / 5))
    (EncodingRx.scanStart (EncodingRx.lattmp (q / 5))) = les at cover keeps count
  have sorted : les.Pairwise (· < ·) := asked ▸ EncodingRx.lostFrom_sorted _
  have below : ∀ m ∈ les, m < t.seq := by
    intro m member
    rw [← asked, EncodingRx.mem_lostFrom] at member
    omega
  have miss : ∀ m ∈ les, DackLoop.kept t.seq m = true → m ∈ missing got (q / 5) := by
    intro m member keptM
    rw [← keeps]
    exact List.mem_filter.mpr ⟨member, keptM⟩
  have ready : DackLoop.Ready t.seq (q / 5) copy les (.start t) := by
    refine ⟨rfl, ?_, fun m _ _ => holds.timers _, fun m member keptM => ?_, ?_⟩
    · rw [keeps]
      show 0 + _ ≤ maxretx
      rw [Nat.zero_add]
      exact few
    · exact holds.slots m (miss m member keptM)
    · intro member kept500
      have miss500 := miss windowTx member kept500
      have window := holds.within _ miss500
      have short : windowTx = 500 := rfl
      refine ⟨by omega, .inr ?_⟩
      obtain ⟨m, missM, -, small⟩ := repair.frame500 miss500
      have keptM : DackLoop.kept t.seq m = true := decide_eq_true (holds.within m missM)
      refine ⟨m, ?_, keptM, by omega⟩
      rw [← keeps] at missM
      exact (List.mem_filter.mp missM).1
  have answer := DackLoop.turns_resent copies ready sorted below
  rw [keeps] at answer
  simp only [answerDack, read]
  rw [DackLoop.holesLoop_eq, cover, answer]
  rfl

/-- A DACK frame at the producer: what it sends is what the DACK branch sends. -/
theorem vmacRx_dack {hash : Enc → Bucket} {w : World} {enc : Enc} {t : EncodingTx}
    (found : findTx hash w enc = some t) (env : Env) (id : Nat) (body : List UInt8) :
    (vmacRx hash env w ⟨id, VmacHdr.bytes ⟨enc, vmacHdrDack⟩ ++ body⟩).2 =
      (answerDack env t body).outs ++ [.free id] := by
  have hdr : readHdr env.past (VmacHdr.bytes ⟨enc, vmacHdrDack⟩ ++ body) = ⟨enc, vmacHdrDack⟩ :=
    readHdr_bytes ..
  have rest : Skb.pull ⟨id, VmacHdr.bytes ⟨enc, vmacHdrDack⟩ ++ body⟩ 9 = ⟨id, body⟩ := by
    rw [Skb.pull, pull_of_length (VmacHdr.length_bytes _)]
  simp only [vmacRx, hdr, rest, rxFrame, World.found, found]
  rw [if_neg (by decide), if_neg (by decide), if_pos trivial]

theorem dataRun_marked {pidt : Int} {enc : Enc} {e : EncodingRx} (fresh : e.Fresh)
    {frames : List Arrival} {a : Arrival} (asked : (dataRun pidt enc e frames).Requests a)
    {e₁ : EncodingRx} (marks : e₁.marks = (dataRun pidt enc e (frames ++ [a])).marks) :
    Marked e₁ ((frames ++ [a]).map seqOf) (smeared pidt enc e (frames ++ [a])) (seqOf a) := by
  obtain ⟨ahead, first⟩ := requests_latest (dataRun_paced fresh frames) asked
  refine ⟨?_, ?_, first, seqOf_lt a⟩
  · rw [marks]
    exact dataRun_exact pidt enc fresh (frames ++ [a])
  · rw [← EncodingRx.marks_latest, marks, EncodingRx.marks_latest, dataRun_concat, rxData_latest]
    omega

/-- After any run of data frames: a frame that asks for a DACK leaves pending a DACK
which, where the request is repairable, makes a producer that holds what is missing
send again each missing frame once, in order, and nothing else. -/
theorem dack_repair_exact (hash : Enc → Bucket) {w : World} {enc : Enc} {e : EncodingRx}
    (found : findRx hash w enc = some e) (fresh : e.Fresh) {frames : List Arrival} {a : Arrival}
    (data : ∀ b ∈ frames ++ [a], IsData enc b)
    (asked : (dataRun w.pidt enc e frames).Requests a)
    (built : a.1.dackOk = true ∧ a.1.lockFree = true)
    (repair : Repairable e.pad ((frames ++ [a]).map seqOf) (smeared w.pidt enc e (frames ++ [a]))
      (seqOf a / 5)) :
    ∃ e' dack, findRx hash (rxRun hash w (frames ++ [a])) enc = some e' ∧
      e'.dacInfo.dack = some dack ∧ dack.id = a.1.base ∧
      ∀ (hash' : Enc → Bucket) (w' : World) (t : EncodingTx) (env : Env) (id : Nat)
        (copy : Nat → List UInt8) (fcs : List UInt8), findTx hash' w' enc = some t →
        seqOf a < t.seq → HoldsFrames t copy (missing ((frames ++ [a]).map seqOf) (seqOf a / 5)) →
        (missing ((frames ++ [a]).map seqOf) (seqOf a / 5)).length ≤ maxretx →
        (∀ k, env.copyOk k = true) →
        (vmacRx hash' env w' ⟨id, dack.data ++ fcs⟩).2 =
          DackLoop.resent env copy 0 (missing ((frames ++ [a]).map seqOf) (seqOf a / 5)) ++
            [.free id] := by
  obtain ⟨e₁, marks, fixed, pending⟩ := requests_dack w.pidt enc asked built
  have pad : e₁.pad = e.pad := congrArg (·.2.2) (fixed.trans (dataRun_fixed e frames))
  rw [← dataRun_concat] at marks pending
  refine ⟨_, _, findRx_rxRun found data, pending, rfl, ?_⟩
  intro hash' w' t env id copy fcs foundTx ahead holds few copies
  rw [← pad] at repair
  have answer := answerDack_resent (dataRun_marked fresh asked marks) repair ahead holds few copies
    fcs
  rw [EncodingRx.dackFrame, List.append_assoc, vmacRx_dack foundTx, answer]

end Repair

/-! ## Two requests -/

/-- A producer that has sent the frames 0 to 5 and kept a copy of each. -/
def sentSix : EncodingTx :=
  { EncodingTx.zero 7 with
    seq := 6
    retransmissionBuffer := fun i => some ⟨100 + i, [UInt8.ofNat i]⟩ }

theorem sentSix_holds (got : List Nat) :
    HoldsFrames sentSix (fun m => [UInt8.ofNat m]) (missing got 1) := by
  refine ⟨fun m member => ?_, fun m member => ?_, fun _ => rfl⟩
  · show 6 ≤ m + 500
    omega
  · have small : m % windowTx = m := by
      obtain ⟨below, -⟩ := mem_missing.mp member
      exact Nat.mod_eq_of_lt (Nat.lt_trans below (by decide))
    rw [small]
    exact ⟨_, rfl, rfl⟩

/-- Frames 4 and 5 arrive, 0 to 3 are missing: all four are sent again. -/
theorem dack_repair_exact_four : ∃ e' dack,
    findRx oneBucket (rxRun oneBucket (.subscribed (.zero 7))
      ([dataArrival .quiet 7 4] ++ [dataArrival .quiet 7 5])) 7 = some e' ∧
    e'.dacInfo.dack = some dack ∧
    (vmacRx oneBucket .quiet (.publishing sentSix) ⟨9, dack.data ++ [0, 0, 0, 0]⟩).2 =
      DackLoop.resent .quiet (fun m => [UInt8.ofNat m]) 0 [0, 1, 2, 3] ++ [.free 9] := by
  have data : ∀ b ∈ [dataArrival .quiet 7 4] ++ [dataArrival .quiet 7 5], IsData 7 b := by
    intro b member
    simp only [List.cons_append, List.nil_append, List.mem_cons, List.not_mem_nil, or_false]
      at member
    rcases member with rfl | rfl <;> exact isData_dataArrival ..
  have got : ([dataArrival .quiet 7 4] ++ [dataArrival .quiet 7 5]).map seqOf = [4, 5] := by decide
  have last : seqOf (dataArrival .quiet 7 5) / 5 = 1 := by decide
  have miss : missing [4, 5] 1 = [0, 1, 2, 3] := by decide
  have asked : (dataRun (-1) 7 (.zero 7) [dataArrival .quiet 7 4]).Requests
      (dataArrival .quiet 7 5) := ⟨_, rfl, by decide, by decide⟩
  have clean : smeared (-1) 7 (.zero 7) ([dataArrival .quiet 7 4] ++ [dataArrival .quiet 7 5]) = ∅ :=
    smeared_of_low (zero_fresh 7) (by decide)
  have repair : Repairable 0 [4, 5] ∅ 1 := by
    refine ⟨by decide, fun k low received => ?_, fun m _ smear => smear, by rw [miss]; decide⟩
    have below : windowSize * k < 5 := (mem_missing.mp low).1
    simp only [List.mem_cons, List.not_mem_nil, or_false] at received
    omega
  rw [← got, ← clean, ← last] at repair
  obtain ⟨e', dack, found, pending, -, answer⟩ := dack_repair_exact oneBucket
    (findRx_subscribed (.zero 7)) (zero_fresh 7) data asked ⟨rfl, rfl⟩ repair
  refine ⟨e', dack, found, pending, ?_⟩
  have sent := answer oneBucket (.publishing sentSix) sentSix .quiet 9 (fun m => [UInt8.ofNat m])
    [0, 0, 0, 0] rfl (by decide) (last ▸ sentSix_holds _) (by decide) fun _ => rfl
  rw [got, last, miss] at sent
  exact sent

/-- Frame 5 arrives first: the last frame of the round, 4, is missing and is not sent again. -/
theorem last_of_round_not_sent : ∃ e' dack,
    (dataRun (-1) 7 (.zero 7) []).Requests (dataArrival .quiet 7 5) ∧
    findRx oneBucket (rxRun oneBucket (.subscribed (.zero 7)) [dataArrival .quiet 7 5]) 7 =
      some e' ∧
    e'.dacInfo.dack = some dack ∧
    HoldsFrames sentSix (fun m => [UInt8.ofNat m]) (missing [5] 1) ∧
    (vmacRx oneBucket .quiet (.publishing sentSix) ⟨9, dack.data ++ [0, 0, 0, 0]⟩).2 =
      DackLoop.resent .quiet (fun m => [UInt8.ofNat m]) 0 [0, 1, 2, 3] ++ [.free 9] ∧
    (vmacRx oneBucket .quiet (.publishing sentSix) ⟨9, dack.data ++ [0, 0, 0, 0]⟩).2 ≠
      DackLoop.resent .quiet (fun m => [UInt8.ofNat m]) 0 (missing [5] 1) ++ [.free 9] :=
  ⟨_, _, ⟨_, rfl, by decide, by decide⟩, rfl, rfl, sentSix_holds _, by decide, by decide⟩

end Vmac.Core
