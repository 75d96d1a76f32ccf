/-
# Vmac.Core.Resend -- what a producer sends for a list of holes

`break` at the twentieth copy leaves the inner loop only, but no later number is
answered either: the two loops are one fold of `turn` over the numbers the holes
cover (`holesLoop_eq`).

`resent` is the wanted effect, one fresh copy for each number of a list.  From a
buffer that holds these frames with all pacing timers at 0, at most twenty numbers
in ascending order are answered exactly so (`turns_resent`), but for frame 500:
its slot test reads the timers of the frames 0 to 7, and passes only after one of
them has been answered.
-/
import Vmac.Core.Retransmit
import Vmac.Core.Scan
import Vmac.Theory.Ring

namespace Vmac.Core

open Theory Theory.Ring

set_option autoImplicit false
set_option linter.unusedVariables false

namespace DackLoop

variable (env : Env) (seq round : Nat)

/-! ## One fold -/

/-- What the loops do at `le`. -/
def turn (s : DackLoop) (le : Nat) : DackLoop :=
  if le < seq ∧ s.vmact.answers seq round le = true ∧ s.counter < maxretx then
    s.answer env round le
  else s

/-- After twenty copies nothing changes. -/
theorem turns_full {s : DackLoop} (full : maxretx ≤ s.counter) (les : List Nat) :
    les.foldl (turn env seq round) s = s := by
  induction les with
  | nil => rfl
  | cons le les ih =>
      have stays : turn env seq round s le = s := by
        rw [turn, if_neg]
        rintro ⟨-, -, more⟩
        omega
      rw [List.foldl_cons, stays, ih]

/-- From the sequence counter on nothing changes. -/
theorem turns_above {s : DackLoop} {les : List Nat} (above : ∀ le ∈ les, seq ≤ le) :
    les.foldl (turn env seq round) s = s := by
  induction les with
  | nil => rfl
  | cons le les ih =>
      rw [List.forall_mem_cons] at above
      have stays : turn env seq round s le = s := by
        rw [turn, if_neg]
        rintro ⟨below, -⟩
        omega
      rw [List.foldl_cons, stays, ih above.2]

theorem holeLoop_eq (re n le : Nat) (inside : n ≤ re - le) (s : DackLoop) :
    s.holeLoop env seq round re n le = (List.range' le n).foldl (turn env seq round) s := by
  induction n generalizing le s with
  | zero => rfl
  | succ n ih =>
      rw [List.range'_succ, List.foldl_cons, holeLoop]
      by_cases below : le < seq
      · rw [if_pos ⟨by omega, below⟩]
        by_cases asked : s.vmact.answers seq round le = true
        · rw [if_pos asked]
          by_cases full : maxretx ≤ s.counter
          · have stays : turn env seq round s le = s := by
              rw [turn, if_neg]
              rintro ⟨-, -, more⟩
              omega
            rw [if_pos full, stays, turns_full env seq round full]
          · have goes : turn env seq round s le = s.answer env round le := by
              rw [turn, if_pos ⟨below, asked, by omega⟩]
            rw [if_neg full, goes, ih (le + 1) (by omega)]
        · have stays : turn env seq round s le = s := by
            rw [turn, if_neg fun h => asked h.2.1]
          rw [if_neg asked, stays, ih (le + 1) (by omega)]
      · have above : ∀ x ∈ List.range' (le + 1) n, seq ≤ x := by
          intro x member
          rw [List.mem_range'_1] at member
          omega
        have stays : turn env seq round s le = s := by
          rw [turn, if_neg fun h => below h.1]
        rw [if_neg fun h => below h.2, stays, turns_above env seq round above]

theorem holesLoop_eq (holes : List VmacHole) (s : DackLoop) :
    s.holesLoop env seq round holes = (covered holes).foldl (turn env seq round) s := by
  induction holes generalizing s with
  | nil => rfl
  | cons h holes ih =>
      have first := holeLoop_eq env seq round h.re (h.re - h.le) h.le (Nat.le_refl _) s
      rw [holesLoop, List.foldl_cons, first, covered, List.flatMap_cons, List.foldl_append]
      exact ih _

/-! ## Exact answers -/

/-- One fresh copy of each frame, sent in order; `k` copies went before. -/
def resent (copy : Nat → List UInt8) : Nat → List Nat → List Out
  | _, [] => []
  | k, m :: ms =>
      .alloc (env.base + k) :: vmacSendHack env k (some ⟨env.base + k, copy m⟩) ++
        resent copy (k + 1) ms

/-- The buffer still has the slot of `m`. -/
def kept (m : Nat) : Bool := decide (seq ≤ m + windowTx)

/-- The state in which the numbers `les` are about to be answered. -/
structure Ready (copy : Nat → List UInt8) (les : List Nat) (s : DackLoop) : Prop where
  sends : s.sends = s.counter
  room : s.counter + (les.filter (kept seq)).length ≤ maxretx
  timers : ∀ m ∈ les, kept seq m = true → s.vmact.timer (m % windowTx) = 0
  slots : ∀ m ∈ les, kept seq m = true →
    ∃ skb, s.vmact.retransmissionBuffer (m % windowTx) = some skb ∧ skb.data = copy m
  -- frame 500 needs a pacing timer of the frames 0 to 7 that is not 0
  frame500 : windowTx ∈ les → kept seq windowTx = true → (round + 6) % 256 ≠ 0 ∧
    ((∃ k, k < 8 ∧ s.vmact.timer k ≠ 0) ∨ ∃ m ∈ les, kept seq m = true ∧ m < 8)

variable {env seq round} {copy : Nat → List UInt8} {le : Nat} {les : List Nat} {s : DackLoop}

theorem slot_apart {a b : Nat} (below : a < b) (keptA : kept seq a = true) (inside : b < seq) :
    a % windowTx ≠ b % windowTx := by
  intro slot
  have keptA : seq ≤ a + windowTx := of_decide_eq_true keptA
  have ha : InWindow windowTx (seq - 1) a := ⟨by omega, by omega⟩
  have hb : InWindow windowTx (seq - 1) b := ⟨by omega, by omega⟩
  have := eq_of_slot_eq ha hb slot
  omega

theorem slotTest_ready (ready : Ready seq round copy (le :: les) s)
    (sorted : (le :: les).Pairwise (· < ·)) (keeps : kept seq le = true) :
    s.vmact.slotTest le = true := by
  have first : le ∈ le :: les := List.mem_cons_self
  unfold EncodingTx.slotTest
  split
  · rename_i is500
    subst is500
    obtain ⟨-, timer | ⟨m, member, -, small⟩⟩ := ready.frame500 first keeps
    · obtain ⟨k, low, nonzero⟩ := timer
      rw [List.any_eq_true]
      exact ⟨k, List.mem_range.mpr low, by simpa using nonzero⟩
    · rcases List.mem_cons.mp member with same | later
      · rw [same] at small
        exact absurd small (by decide)
      · have := List.rel_of_pairwise_cons sorted later
        have := show windowTx = 500 from rfl
        omega
  · rename_i not500
    obtain ⟨skb, slot, -⟩ := ready.slots le first keeps
    have index : (if le > windowTx then le % windowTx else le) = le % windowTx := by
      split
      · rfl
      · exact (Nat.mod_eq_of_lt (by omega)).symm
    rw [index, slot]
    rfl

/-- A number that is kept is answered with a fresh copy, and the rest stays ready. -/
theorem answer_ready (copies : ∀ k, env.copyOk k = true)
    (ready : Ready seq round copy (le :: les) s) (sorted : (le :: les).Pairwise (· < ·))
    (below : ∀ m ∈ le :: les, m < seq) (keeps : kept seq le = true) :
    (turn env seq round s le).outs = s.outs ++ (.alloc (env.base + s.counter) ::
        vmacSendHack env s.counter (some ⟨env.base + s.counter, copy le⟩)) ∧
      (turn env seq round s le).counter = s.counter + 1 ∧
      Ready seq round copy les (turn env seq round s le) := by
  have first : le ∈ le :: les := List.mem_cons_self
  have keptLe : seq ≤ le + windowTx := of_decide_eq_true keeps
  have room := ready.room
  rw [List.filter_cons_of_pos keeps, List.length_cons] at room
  have asked : s.vmact.answers seq round le = true := by
    rw [EncodingTx.answers, slotIndex_eq, ready.timers le first keeps, decide_eq_true_iff]
    refine ⟨Nat.zero_le _, ?_⟩
    split <;> omega
  obtain ⟨skb, slot, data⟩ := ready.slots le first keeps
  have copied : s.copySlot env le =
      { s with
        counter := s.counter + 1
        skb2 := some ⟨env.base + s.counter, copy le⟩
        outs := s.outs ++ [.alloc (env.base + s.counter)] } := by
    rw [copySlot, if_pos (slotTest_ready ready sorted keeps), slotIndex_eq, slot]
    simp only [copies, if_true, data]
  have goes : turn env seq round s le =
      { vmact := { s.vmact.setTimer le round with
          framecount := (s.vmact.framecount + 1) % 65536 }
        counter := s.counter + 1
        skb2 := some (Skb.push ⟨env.base + s.counter, copy le⟩ (ieee80211Hdr (env.junk s.sends)))
        sends := s.sends + 1
        outs := s.outs ++ [.alloc (env.base + s.counter)] ++
          vmacSendHack env s.sends (some ⟨env.base + s.counter, copy le⟩) } := by
    rw [turn, if_pos ⟨below le first, asked, by omega⟩, answer, copied]
    rfl
  rw [goes]
  refine ⟨?_, rfl, ⟨?_, ?_, ?_, ?_, ?_⟩⟩
  · simp only [ready.sends, List.append_assoc, List.singleton_append]
  · exact congrArg (· + 1) ready.sends
  · show s.counter + 1 + (les.filter (kept seq)).length ≤ maxretx
    omega
  · intro m member keepsM
    have above : le < m := List.rel_of_pairwise_cons sorted member
    have apart := slot_apart above keeps (below m (List.mem_cons_of_mem _ member))
    show Function.update s.vmact.timer (le % windowTx) _ (m % windowTx) = 0
    rw [Function.update_of_ne apart.symm]
    exact ready.timers m (List.mem_cons_of_mem _ member) keepsM
  · intro m member keepsM
    exact ready.slots m (List.mem_cons_of_mem _ member) keepsM
  · intro member keeps500
    obtain ⟨pace, early⟩ := ready.frame500 (List.mem_cons_of_mem _ member) keeps500
    refine ⟨pace, ?_⟩
    -- the timer of the number just answered is not 0 any more
    have paced : ∀ k, Function.update s.vmact.timer (le % windowTx) ((round + 6) % 256) k ≠ 0 ↔
        k = le % windowTx ∨ s.vmact.timer k ≠ 0 ∧ k ≠ le % windowTx := by
      intro k
      by_cases here : k = le % windowTx
      · rw [here, Function.update_self]
        simp [pace]
      · rw [Function.update_of_ne here]
        simp [here]
    rcases early with ⟨k, low, nonzero⟩ | ⟨m, later, keepsM, small⟩
    · refine .inl ⟨k, low, (paced k).mpr ?_⟩
      by_cases here : k = le % windowTx
      · exact .inl here
      · exact .inr ⟨nonzero, here⟩
    · rcases List.mem_cons.mp later with rfl | later
      · refine .inl ⟨m, small, (paced m).mpr (.inl ?_)⟩
        exact (Nat.mod_eq_of_lt (by have := show windowTx = 500 from rfl; omega)).symm
      · exact .inr ⟨m, later, keepsM, small⟩

theorem turns_resent (copies : ∀ k, env.copyOk k = true)
    (ready : Ready seq round copy les s) (sorted : les.Pairwise (· < ·))
    (below : ∀ m ∈ les, m < seq) :
    (les.foldl (turn env seq round) s).outs =
      s.outs ++ resent env copy s.counter (les.filter (kept seq)) := by
  induction les generalizing s with
  | nil => simp [resent]
  | cons le les ih =>
      have below' : ∀ m ∈ les, m < seq := fun m member => below m (List.mem_cons_of_mem _ member)
      have sorted' := List.Pairwise.of_cons sorted
      rw [List.foldl_cons]
      by_cases keeps : kept seq le = true
      · obtain ⟨outs, counter, next⟩ := answer_ready copies ready sorted below keeps
        rw [ih next sorted' below', outs, counter, List.filter_cons_of_pos keeps, resent,
          List.append_assoc]
      · have stays : turn env seq round s le = s := by
          rw [turn, if_neg]
          rintro ⟨-, asked, -⟩
          have old : ¬ seq ≤ le + windowTx := fun h => keeps (decide_eq_true h)
          have low := (of_decide_eq_true asked).2
          split at low <;> omega
        have rest : (le :: les).filter (kept seq) = les.filter (kept seq) :=
          List.filter_cons_of_neg keeps
        have room := ready.room
        rw [rest] at room
        rw [stays, rest]
        refine ih ⟨ready.sends, room, ?_, ?_, ?_⟩ sorted' below'
        · intro m member
          exact ready.timers m (List.mem_cons_of_mem _ member)
        · intro m member
          exact ready.slots m (List.mem_cons_of_mem _ member)
        · intro member keeps500
          obtain ⟨pace, early⟩ := ready.frame500 (List.mem_cons_of_mem _ member) keeps500
          refine ⟨pace, early.imp id ?_⟩
          rintro ⟨m, later, keepsM, small⟩
          rcases List.mem_cons.mp later with rfl | later
          · exact absurd keepsM keeps
          · exact ⟨m, later, keepsM, small⟩

end DackLoop

end Vmac.Core
