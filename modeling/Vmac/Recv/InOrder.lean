/-
# Vmac.Recv.InOrder -- the receive reorder buffer keeps the order

Seen from the start of the window, the numbers of the pending MPDUs and of the MPDU
that arrives lie on half a circle, so `SN_LESS` is an order there (`snLess_iff`):
the queue is a sorted list and handing on is `drain`.

* `reorder_buffer`: in every run the pending queue is sorted and inside the window,
  MPDUs are handed on in order, none is lost or handed on twice, and an MPDU that is
  refused changes nothing.
-/
import Vmac.Recv.Reorder
import Vmac.Theory.Serial
import Vmac.Theory.Resequence

namespace Vmac.Recv

open Vmac.Theory

set_option autoImplicit false

/-! ## Numbers modulo 4096 -/

/-- The way from `base` up to the number of an MPDU. -/
def way (base : Nat) (f : RecvFrame) : Int := Serial.ahead 2048 base f.seqNum

/-- A sequence number. -/
def wrap (x : Int) : Nat := (x % 4096).toNat

theorem snLess_eq (a b : Nat) : snLess a b = true ↔ 2048 ≤ ((a : Int) - b) % 4096 := by
  unfold snLess
  rw [BitVec.getLsbD, BitVec.toNat_ofInt, Nat.testBit_eq_decide_div_mod_eq, decide_eq_true_iff]
  omega

theorem snLess_less (a b : Nat) : snLess a b = true ↔ Serial.Less 2048 a b := snLess_eq a b

theorem way_eq (base : Nat) (f : RecvFrame) : way base f = ((f.seqNum : Int) - base) % 4096 := rfl

theorem way_nonneg (base : Nat) (f : RecvFrame) : 0 ≤ way base f := Serial.ahead_nonneg _ (by decide) _

theorem ahead_wrap (base : Nat) {n : Int} (nonneg : 0 ≤ n) (small : n < 4096) :
    Serial.ahead 2048 base (wrap (base + n)) = n := by
  apply Serial.ahead_eq _ nonneg small
  unfold wrap
  omega

/-- Seen from a common base, `SN_LESS` compares the ways. -/
theorem snLess_iff (base : Nat) {f g : RecvFrame} (near : way base f < 2048) (near' : way base g < 2048) :
    snLess f.seqNum g.seqNum = true ↔ way base f < way base g := by
  have low := way_nonneg base f
  have low' := way_nonneg base g
  rw [snLess_less]
  exact Serial.less_iff (base : Int) (by decide) (by unfold way at *; omega) (by unfold way at *; omega)

/-! ## The functions, seen from the start of the window -/

/-- How far an MPDU that is kept moves the window. -/
def shift (wsize : Nat) (d : Int) : Int :=
  if d = 0 then 1 else if wsize ≤ d then d - wsize + 1 else 0

section Window

variable {c : ReorderCtrl} {f : RecvFrame}

theorem checkIndicateSeq_eq (start : c.indicateSeq < 4096) (low : 1 ≤ c.wsizeB)
    (high : c.wsizeB ≤ 255) (number : f.seqNum < 4096) :
    checkIndicateSeq c f.seqNum =
      if 2048 ≤ way c.indicateSeq f then (c, false)
      else
        let d := shift c.wsizeB (way c.indicateSeq f)
        ({ c with indicateSeq := wrap (c.indicateSeq + d) }, true) := by
  obtain ⟨enable, i, w, pending, timer, waiting⟩ := c
  have started : ¬i = 0xFFFF := by
    show i ≠ 65535
    have : i < 4096 := start
    omega
  dsimp only at start low high
  have eq := way_eq i f
  simp only [checkIndicateSeq, if_neg started, snLess_eq, snEqual, beq_iff_eq]
  by_cases behind : 2048 ≤ way i f
  · rw [if_pos behind, if_pos (by omega)]
  · rw [if_neg behind, if_neg (by omega)]
    unfold shift wrap
    by_cases first : way i f = 0
    · have next : (i + 1) % 4096 = (((i : Int) + 1) % 4096).toNat := by omega
      rw [if_pos (by omega : f.seqNum = i), if_pos first, next]
    · rw [if_neg (by omega : ¬f.seqNum = i), if_neg first]
      by_cases beyond : (w : Int) ≤ way i f
      · rw [if_pos (by omega), if_pos beyond]
        congr 2
        split <;> omega
      · rw [if_neg (by omega), if_neg beyond]
        congr 2
        omega

end Window

section Queue

variable {i : Nat} {xs : List RecvFrame}

theorem enqueue_eq {f : RecvFrame} (number : f.seqNum < 4096) (near : way i f < 2048)
    (numbers : ∀ x ∈ xs, x.seqNum < 4096) (inside : ∀ x ∈ xs, way i x < 2048) :
    enqueueReorderRecvframe f xs = Resequence.insert (way i) f xs := by
  induction xs with
  | nil => rfl
  | cons x xs ih =>
      have number' := numbers x List.mem_cons_self
      have same : snEqual x.seqNum f.seqNum = true ↔ way i x = way i f := by
        rw [snEqual, beq_iff_eq, way_eq, way_eq]
        omega
      rw [enqueueReorderRecvframe, Resequence.insert,
        ih (fun y member => numbers y (List.mem_cons_of_mem x member))
          (fun y member => inside y (List.mem_cons_of_mem x member))]
      simp only [snLess_iff i (inside x List.mem_cons_self) near, same]

theorem indicateLoop_eq {n : Int} (nonneg : 0 ≤ n) (near : xs ≠ [] → n < 2048)
    (numbers : ∀ x ∈ xs, x.seqNum < 4096) (inside : ∀ x ∈ xs, way i x < 2048)
    (sorted : Resequence.Sorted (way i) xs) :
    indicateLoop (wrap (i + n)) xs =
      ⟨wrap (i + (Resequence.drain (way i) n xs).next),
        (Resequence.drain (way i) n xs).handed, (Resequence.drain (way i) n xs).rest⟩ := by
  induction xs generalizing n with
  | nil => rfl
  | cons x xs ih =>
      obtain ⟨first, others⟩ := List.pairwise_cons.mp sorted
      have number := numbers x List.mem_cons_self
      have due := inside x List.mem_cons_self
      have small := near (List.cons_ne_nil x xs)
      have less : snLess (wrap (i + n)) x.seqNum = true ↔ n < way i x := by
        rw [snLess_eq, way_eq] at *
        unfold wrap
        omega
      have equal : snEqual (wrap (i + n)) x.seqNum = true ↔ n = way i x := by
        rw [snEqual, beq_iff_eq, way_eq] at *
        unfold wrap
        omega
      have up : (wrap (i + n) + 1) % 4096 = wrap (i + (n + 1)) := by
        unfold wrap
        omega
      rw [indicateLoop, Resequence.drain]
      simp only [less, equal, up]
      split
      · rfl
      · have next : (if n = way i x then wrap (i + (n + 1)) else wrap (i + n)) =
            wrap (i + if n = way i x then n + 1 else n) := by split <;> rfl
        rw [next, ih (by split <;> omega) _
          (fun y member => numbers y (List.mem_cons_of_mem x member))
          (fun y member => inside y (List.mem_cons_of_mem x member)) others]
        intro more
        obtain ⟨y, member⟩ := List.exists_mem_of_ne_nil xs more
        have above := first y member
        have under := inside y (List.mem_cons_of_mem x member)
        split <;> omega

end Queue

/-! ## What holds between two steps -/

/-- The buffer after the first MPDU, with the MPDUs handed on so far. -/
structure Started (c : ReorderCtrl) (handed : List RecvFrame) : Prop where
  start : c.indicateSeq < 4096
  numbers : ∀ f ∈ c.pendingRecvframeQueue, f.seqNum < 4096
  sorted : Resequence.Sorted (way c.indicateSeq) c.pendingRecvframeQueue
  inside : ∀ f ∈ c.pendingRecvframeQueue,
    0 < way c.indicateSeq f ∧ way c.indicateSeq f < c.wsizeB
  -- the window starts right behind the last MPDU handed on unless a gap is left open for
  -- the first pending one
  behind : ∀ l, handed.getLast? = some l →
    0 < Serial.ahead 2048 l.seqNum c.indicateSeq ∧
    (c.pendingRecvframeQueue = [] → Serial.ahead 2048 l.seqNum c.indicateSeq = 1) ∧
    ∀ f, c.pendingRecvframeQueue.head? = some f →
      Serial.ahead 2048 l.seqNum c.indicateSeq + way c.indicateSeq f ≤ 2048
  order : handed.IsChain fun f g => snLess f.seqNum g.seqNum = true

section Indicate

variable {c : ReorderCtrl} {handed xs : List RecvFrame} {n : Int}

/-- Handing on from a sorted queue, the window moved by `n`. -/
theorem indicate_started (nonneg : 0 ≤ n) (near : n < 2048)
    (numbers : ∀ x ∈ xs, x.seqNum < 4096) (close : ∀ x ∈ xs, way c.indicateSeq x < 2048)
    (sorted : Resequence.Sorted (way c.indicateSeq) xs) (some_ : xs ≠ [])
    (inside : ∀ x ∈ xs, way c.indicateSeq x < n + c.wsizeB)
    (reached : ∀ l, xs.getLast? = some l → n ≤ way c.indicateSeq l + 1)
    (behind : ∀ l, handed.getLast? = some l →
      0 < Serial.ahead 2048 l.seqNum c.indicateSeq ∧
      ∀ f, xs.head? = some f →
        Serial.ahead 2048 l.seqNum c.indicateSeq + way c.indicateSeq f ≤ 2048)
    (order : handed.IsChain fun f g => snLess f.seqNum g.seqNum = true) :
    let r := Resequence.drain (way c.indicateSeq) n xs
    Started { c with
      indicateSeq := wrap (c.indicateSeq + r.next), pendingRecvframeQueue := r.rest }
      (handed ++ r.handed) := by
  intro r
  have split : r.handed ++ r.rest = xs := Resequence.drain_split
  have up : n ≤ r.next := Resequence.drain_next _ _ _
  have kept : ∀ x ∈ r.rest, r.next < way c.indicateSeq x := Resequence.drain_rest sorted
  have due : ∀ x ∈ r.handed, way c.indicateSeq x < r.next := Resequence.drain_handed
  have ofRest : ∀ x ∈ r.rest, x ∈ xs := fun x member => split ▸ List.mem_append_right _ member
  have ofHanded : ∀ x ∈ r.handed, x ∈ xs := fun x member => split ▸ List.mem_append_left _ member
  have top : r.next ≤ 2048 := Resequence.drain_le (by omega) close
  have moved : Serial.ahead 2048 c.indicateSeq (wrap (c.indicateSeq + r.next)) = r.next :=
    ahead_wrap _ (by omega) (by omega)
  have rebase : ∀ x ∈ r.rest, way (wrap (c.indicateSeq + r.next)) x =
      way c.indicateSeq x - r.next := by
    intro x member
    have above := kept x member
    rw [way, Serial.ahead_rebase (c.indicateSeq : Int) (by decide), moved]
    · rfl
    · rw [moved]
      exact le_of_lt above
  refine ⟨?_, fun f member => numbers f (ofRest f member), ?_, fun f member => ?_, ?_, ?_⟩
  · show wrap (c.indicateSeq + r.next) < 4096
    unfold wrap
    omega
  · have sub : Resequence.Sorted (way c.indicateSeq) r.rest :=
      List.Pairwise.sublist (split ▸ List.sublist_append_right _ _) sorted
    refine List.Pairwise.imp_of_mem (fun {f g} first second less => ?_) sub
    show way (wrap (c.indicateSeq + r.next)) f < way (wrap (c.indicateSeq + r.next)) g
    rw [rebase f first, rebase g second]
    omega
  · show 0 < way (wrap (c.indicateSeq + r.next)) f ∧
      way (wrap (c.indicateSeq + r.next)) f < c.wsizeB
    rw [rebase f member]
    have above := kept f member
    have below := inside f (ofRest f member)
    omega
  · intro l last
    show 0 < Serial.ahead 2048 l.seqNum (wrap (c.indicateSeq + r.next)) ∧
      (r.rest = [] → Serial.ahead 2048 l.seqNum (wrap (c.indicateSeq + r.next)) = 1) ∧
      ∀ f, r.rest.head? = some f → Serial.ahead 2048 l.seqNum (wrap (c.indicateSeq + r.next)) +
        way (wrap (c.indicateSeq + r.next)) f ≤ 2048
    by_cases idle : r.handed = []
    · -- nothing new was handed on
      have stays : r.next = n := Resequence.drain_idle idle
      have same : r.rest = xs := by rw [← split, idle, List.nil_append]
      rw [idle, List.append_nil] at last
      obtain ⟨gap, first⟩ := behind l last
      obtain ⟨x, head⟩ : ∃ x, xs.head? = some x := ⟨_, List.head?_eq_some_head some_⟩
      have reach := first x head
      have low := way_nonneg c.indicateSeq x
      have sum : Serial.ahead 2048 l.seqNum (wrap (c.indicateSeq + r.next)) =
          Serial.ahead 2048 l.seqNum c.indicateSeq + r.next := by
        rw [Serial.ahead_add (l.seqNum : Int) (a := c.indicateSeq) (by decide), moved]
        rw [moved]
        omega
      rw [sum]
      refine ⟨by omega, fun none => absurd (same ▸ none) some_, fun f head' => ?_⟩
      rw [rebase f (List.mem_of_head? head')]
      have reach' := first f (same ▸ head')
      omega
    · -- the last one is one of these
      rw [List.getLast?_append_of_ne_nil _ idle] at last
      have member := List.mem_of_getLast? last
      have below := due l member
      have gap : Serial.ahead 2048 l.seqNum (wrap (c.indicateSeq + r.next)) =
          r.next - way c.indicateSeq l := by
        rw [Serial.ahead_rebase (c.indicateSeq : Int) (by decide), moved]
        · rfl
        · rw [moved]
          exact le_of_lt below
      rw [gap]
      refine ⟨by omega, fun none => ?_, fun f head => ?_⟩
      · have all : xs = r.handed := by rw [← split, none, List.append_nil]
        have ends : xs.getLast? = some l := all ▸ last
        have next : r.next = way c.indicateSeq l + 1 :=
          Resequence.drain_empty ends (reached l ends) sorted none
        show r.next - way c.indicateSeq l = 1
        omega
      · have member' := List.mem_of_head? head
        rw [rebase f member']
        have close' := close f (ofRest f member')
        have low := way_nonneg c.indicateSeq l
        omega
  · have ordered : r.handed.IsChain fun f g => snLess f.seqNum g.seqNum = true := by
      apply List.Pairwise.isChain
      have sub : Resequence.Sorted (way c.indicateSeq) r.handed :=
        List.Pairwise.sublist (split ▸ List.sublist_append_left _ _) sorted
      refine List.Pairwise.imp_of_mem (fun {f g} first second less => ?_) sub
      exact (snLess_iff _ (close f (ofHanded f first)) (close g (ofHanded g second))).mpr less
    refine List.isChain_append.mpr ⟨order, ordered, fun l last f head => ?_⟩
    have head' : xs.head? = some f := by
      rw [← split, List.head?_append, Option.mem_def.mp head]
      rfl
    obtain ⟨gap, first⟩ := behind l last
    have reach := first f head'
    have low := way_nonneg c.indicateSeq f
    have sum : Serial.ahead 2048 l.seqNum f.seqNum =
        Serial.ahead 2048 l.seqNum c.indicateSeq + way c.indicateSeq f :=
      Serial.ahead_add (l.seqNum : Int) (by decide) (show _ + way c.indicateSeq f < _ by omega)
    exact (snLess_less _ _).mpr (Serial.less_of_ahead (by decide) (by omega) (by omega))

end Indicate

section Step

variable {c : ReorderCtrl} {handed : List RecvFrame} {f : RecvFrame}

/-- The timer flags do not matter. -/
theorem Started.flags (started : Started c handed) (timer waiting : Bool) :
    Started { c with reorderingCtrlTimer := timer, bReorderWaiting := waiting } handed :=
  ⟨started.start, started.numbers, started.sorted, started.inside, started.behind, started.order⟩

theorem Started.await (started : Started c handed) (b : Bool) : Started (awaitReorder c b) handed := by
  unfold awaitReorder
  split <;> [split; skip]
  · exact started
  · exact started.flags true true
  · exact started.flags false false

theorem awaitReorder_eq (c : ReorderCtrl) (b : Bool) : (awaitReorder c b).enable = c.enable ∧
    (awaitReorder c b).wsizeB = c.wsizeB ∧
    (awaitReorder c b).pendingRecvframeQueue = c.pendingRecvframeQueue := by
  unfold awaitReorder
  split <;> [split; skip] <;> exact ⟨rfl, rfl, rfl⟩

/-- What becomes of the buffer and the MPDU when `recv_indicatepkt_reorder` has run. -/
structure Arrived (c c' : ReorderCtrl) (handed now : List RecvFrame) (f : RecvFrame)
    (ret : Ret) : Prop where
  started : Started c' (handed ++ now)
  enable : c'.enable = c.enable
  wsizeB : c'.wsizeB = c.wsizeB
  kept : ret = .handled → (now ++ c'.pendingRecvframeQueue).Perm (f :: c.pendingRecvframeQueue)
  refused : ret ≠ .handled → c' = c ∧ now = []

theorem Started.refuse (started : Started c handed) : Arrived c c handed [] f .fail :=
  ⟨by rwa [List.append_nil], rfl, rfl, (fun no => nomatch no), fun _ => ⟨rfl, rfl⟩⟩

/-- The MPDU is in the queue: what is due is handed on. -/
theorem Started.accept (started : Started c handed) (low : 1 ≤ c.wsizeB)
    (number : f.seqNum < 4096) (high : c.wsizeB ≤ 255) (near : way c.indicateSeq f < 2048)
    {queue : List RecvFrame}
    (inserted : Resequence.insert (way c.indicateSeq) f c.pendingRecvframeQueue = some queue) :
    let n := shift c.wsizeB (way c.indicateSeq f)
    let r := Resequence.drain (way c.indicateSeq) n queue
    indicateLoop (wrap (c.indicateSeq + n)) queue =
      ⟨wrap (c.indicateSeq + r.next), r.handed, r.rest⟩ ∧
    Started { c with
      indicateSeq := wrap (c.indicateSeq + r.next), pendingRecvframeQueue := r.rest }
      (handed ++ r.handed) := by
  intro n r
  have d := way_nonneg c.indicateSeq f
  have range : 0 ≤ n ∧ n < 2048 ∧ n ≤ way c.indicateSeq f + 1 ∧
      way c.indicateSeq f < n + c.wsizeB := by
    show 0 ≤ shift _ _ ∧ shift _ _ < 2048 ∧ shift _ _ ≤ _ ∧ _ < shift _ _ + _
    unfold shift
    split <;> [skip; split] <;> omega
  obtain ⟨nonneg, small, reach, beyond⟩ := range
  have perm := Resequence.insert_perm inserted
  have sorted := Resequence.insert_sorted started.sorted inserted
  have member : ∀ x ∈ queue, x = f ∨ x ∈ c.pendingRecvframeQueue :=
    fun x inQueue => List.mem_cons.mp (perm.mem_iff.mp inQueue)
  have numbers : ∀ x ∈ queue, x.seqNum < 4096 := by
    intro x inQueue
    rcases member x inQueue with rfl | old
    · exact number
    · exact started.numbers x old
  have close : ∀ x ∈ queue, way c.indicateSeq x < 2048 := by
    intro x inQueue
    rcases member x inQueue with rfl | old
    · exact near
    · have inside := started.inside x old
      omega
  refine ⟨indicateLoop_eq nonneg (fun _ => small) numbers close sorted, ?_⟩
  have new : f ∈ queue := perm.mem_iff.mpr List.mem_cons_self
  refine indicate_started nonneg small numbers close sorted (List.ne_nil_of_mem new)
    (fun x inQueue => ?_) (fun l last => ?_) (fun l last => ?_) started.order
  · rcases member x inQueue with rfl | old
    · exact beyond
    · have inside := started.inside x old
      omega
  · have top := sorted.le_last last new
    omega
  · obtain ⟨gap, alone, first⟩ := started.behind l last
    refine ⟨gap, fun x head => ?_⟩
    rcases Resequence.insert_head inserted with isNew | ⟨isOld, -⟩
    · obtain rfl : f = x := Option.some.inj (isNew.symm.trans head)
      cases pending : c.pendingRecvframeQueue with
      | nil =>
          have one := alone pending
          omega
      | cons y ys =>
          have before := first y (by rw [pending]; rfl)
          have inQueue : y ∈ queue :=
            perm.mem_iff.mpr (List.mem_cons_of_mem f (pending ▸ List.mem_cons_self))
          -- the new MPDU stands before the old first one
          obtain ⟨rest, rfl⟩ := List.head?_eq_some_iff.mp head
          rcases List.mem_cons.mp inQueue with rfl | later
          · exact before
          · have less := (List.pairwise_cons.mp sorted).1 y later
            omega
    · exact first x (isOld ▸ head)

theorem Started.arrive (started : Started c handed) (low : 1 ≤ c.wsizeB) (high : c.wsizeB ≤ 255)
    (enable : c.enable = true) (qos : f.qos = true) (number : f.seqNum < 4096) :
    let r := recvIndicatepktReorder c f
    Arrived c r.1 handed r.2.1 f r.2.2 := by
  unfold recvIndicatepktReorder
  rw [if_neg (by rw [qos, enable]; decide), checkIndicateSeq_eq started.start low high number]
  by_cases behind : 2048 ≤ way c.indicateSeq f
  · rw [if_pos behind]
    exact started.refuse
  · rw [if_neg behind]
    dsimp only
    have near : way c.indicateSeq f < 2048 := by omega
    rw [enqueue_eq number near started.numbers fun x member => by
      have inside := started.inside x member
      omega]
    cases inserted : Resequence.insert (way c.indicateSeq) f c.pendingRecvframeQueue with
    | none =>
        -- a duplicate lies inside the window and does not move it
        obtain ⟨y, member, same⟩ := Resequence.insert_none inserted
        have inside := started.inside y member
        have still : shift c.wsizeB (way c.indicateSeq f) = 0 := by
          unfold shift
          rw [if_neg (by omega), if_neg (by omega)]
        have back : wrap (c.indicateSeq + shift c.wsizeB (way c.indicateSeq f)) = c.indicateSeq := by
          have start := started.start
          rw [still]
          unfold wrap
          omega
        rw [back]
        exact started.refuse
    | some queue =>
        obtain ⟨loop, started'⟩ := started.accept low number high near inserted
        simp only [recvIndicatepktsInOrder, Bool.false_eq_true, if_false, loop]
        refine ⟨started'.await _, (awaitReorder_eq _ _).1, (awaitReorder_eq _ _).2.1, fun _ => ?_,
          fun no => absurd rfl no⟩
        rw [(awaitReorder_eq _ _).2.2, Resequence.drain_split]
        exact Resequence.insert_perm inserted

/-- The first MPDU opens the window. -/
theorem arrive_first (fresh : c.indicateSeq = 0xFFFF) (enable : c.enable = true)
    (qos : f.qos = true) (number : f.seqNum < 4096) :
    recvIndicatepktReorder c f = recvIndicatepktReorder { c with indicateSeq := f.seqNum } f := by
  have other : ¬f.seqNum = 0xFFFF := by omega
  have least : snLess f.seqNum f.seqNum = false := by
    rw [Bool.eq_false_iff, ne_eq, snLess_eq]
    omega
  unfold recvIndicatepktReorder checkIndicateSeq
  simp only [fresh, enable, qos, if_true, if_neg other, least, snEqual, beq_self_eq_true,
    Bool.false_eq_true, if_false, Bool.not_true, Bool.or_self]

theorem started_first (empty : c.pendingRecvframeQueue = []) (number : f.seqNum < 4096) :
    Started { c with indicateSeq := f.seqNum } [] := by
  refine ⟨number, ?_, ?_, ?_, (fun l last => nomatch last), List.isChain_nil⟩
  · intro g member
    rw [empty] at member
    exact absurd member List.not_mem_nil
  · show Resequence.Sorted _ c.pendingRecvframeQueue
    rw [empty]
    exact List.Pairwise.nil
  · intro g member
    rw [empty] at member
    exact absurd member List.not_mem_nil

/-- With an empty queue a timeout moves the timer flags only. -/
theorem timeout_empty (empty : c.pendingRecvframeQueue = []) (cannotRun : Bool) :
    ∃ timer waiting, rtwReorderingCtrlTimeoutHandler cannotRun c =
      ({ c with reorderingCtrlTimer := timer, bReorderWaiting := waiting }, []) := by
  unfold rtwReorderingCtrlTimeoutHandler recvIndicatepktsInOrder
  cases cannotRun with
  | true => exact ⟨false, c.bReorderWaiting, rfl⟩
  | false =>
      simp only [empty, Bool.false_eq_true, if_false, if_true]
      exact ⟨true, false, rfl⟩

theorem Started.timeout (started : Started c handed) (low : 1 ≤ c.wsizeB) (high : c.wsizeB ≤ 255)
    (cannotRun : Bool) :
    let r := rtwReorderingCtrlTimeoutHandler cannotRun c
    Started r.1 (handed ++ r.2) ∧ r.1.enable = c.enable ∧ r.1.wsizeB = c.wsizeB ∧
      r.2 ++ r.1.pendingRecvframeQueue = c.pendingRecvframeQueue := by
  cases pending : c.pendingRecvframeQueue with
  | nil =>
      obtain ⟨timer, waiting, moved⟩ := timeout_empty pending cannotRun
      simp only [moved, List.append_nil]
      exact ⟨started.flags timer waiting, trivial, trivial, pending⟩
  | cons x xs =>
      unfold rtwReorderingCtrlTimeoutHandler
      cases cannotRun with
      | true =>
          refine ⟨?_, rfl, rfl, pending⟩
          show Started _ (handed ++ [])
          rw [List.append_nil]
          exact started.flags false c.bReorderWaiting
      | false =>
          have member : x ∈ c.pendingRecvframeQueue := pending ▸ List.mem_cons_self
          have inside := started.inside x member
          have first : wrap (c.indicateSeq + way c.indicateSeq x) = x.seqNum := by
            have number := started.numbers x member
            have start := started.start
            rw [way_eq]
            unfold wrap
            omega
          have close : ∀ y ∈ c.pendingRecvframeQueue, way c.indicateSeq y < 2048 := by
            intro y member
            have := started.inside y member
            omega
          have loop := indicateLoop_eq (i := c.indicateSeq) (by omega : 0 ≤ way c.indicateSeq x)
            (fun _ => by omega) started.numbers close started.sorted
          have started' := indicate_started (c := c) (by omega : 0 ≤ way c.indicateSeq x) (by omega)
            started.numbers close started.sorted (by rw [pending]; exact List.cons_ne_nil x xs)
            (fun y member => by have := started.inside y member; omega)
            (fun l last => by have := started.sorted.le_last last member; omega)
            (fun l last => ⟨(started.behind l last).1, (started.behind l last).2.2⟩) started.order
          rw [first, pending] at loop
          rw [pending] at started'
          simp only [recvIndicatepktsInOrder, pending, Bool.false_eq_true, if_false, if_true,
            List.head?_cons, Option.map_some, Option.getD_some, loop]
          split
          · exact ⟨started'.flags true false, rfl, rfl, Resequence.drain_split⟩
          · exact ⟨started'.flags false false, rfl, rfl, Resequence.drain_split⟩

theorem handled_first (fresh : c.indicateSeq = 0xFFFF) (enable : c.enable = true)
    (qos : f.qos = true) (empty : c.pendingRecvframeQueue = []) :
    (recvIndicatepktReorder c f).2.2 = .handled := by
  have least : snLess f.seqNum f.seqNum = false := by
    rw [Bool.eq_false_iff, ne_eq, snLess_eq]
    omega
  unfold recvIndicatepktReorder checkIndicateSeq
  simp only [fresh, enable, qos, empty, if_true, least, snEqual, beq_self_eq_true,
    Bool.false_eq_true, if_false, Bool.not_true, Bool.or_self, enqueueReorderRecvframe]

end Step

/-! ## Runs -/

/-- The buffer, what it has handed on, and the MPDUs it has taken. -/
structure Buffer where
  ctrl : ReorderCtrl
  handed : List RecvFrame
  taken : List RecvFrame

/-- A buffer with window size `wsize` before its first MPDU. -/
def Buffer.start (wsize : Nat) : Buffer :=
  { ctrl :=
      { enable := true
        indicateSeq := 0xFFFF
        wsizeB := wsize
        pendingRecvframeQueue := []
        reorderingCtrlTimer := false
        bReorderWaiting := false }
    handed := []
    taken := [] }

inductive Step where
  | arrive (f : RecvFrame)
  | timeout (cannotRun : Bool)

def Buffer.step (b : Buffer) : Step → Buffer
  | .arrive f =>
      let r := recvIndicatepktReorder b.ctrl f
      { ctrl := r.1
        handed := b.handed ++ r.2.1
        taken := if r.2.2 = .handled then b.taken ++ [f] else b.taken }
  | .timeout cannotRun =>
      let r := rtwReorderingCtrlTimeoutHandler cannotRun b.ctrl
      { b with ctrl := r.1, handed := b.handed ++ r.2 }

def Buffer.run (b : Buffer) (steps : List Step) : Buffer := steps.foldl Buffer.step b

/-- A QoS MPDU with a number of 12 bits. -/
structure Mpdu (f : RecvFrame) : Prop where
  qos : f.qos = true
  number : f.seqNum < 4096

/-- What holds of a buffer with window size `wsize` between two steps. -/
structure Sound (wsize : Nat) (b : Buffer) : Prop where
  enable : b.ctrl.enable = true
  wsizeB : b.ctrl.wsizeB = wsize
  begun : (b.ctrl.indicateSeq = 0xFFFF ∧ b.ctrl.pendingRecvframeQueue = [] ∧ b.handed = []) ∨
    Started b.ctrl b.handed
  once : b.taken.Perm (b.handed ++ b.ctrl.pendingRecvframeQueue)

section Run

variable {wsize : Nat} {b : Buffer}

/-- An MPDU that is taken is handed on or pending from now on. -/
theorem once_arrive {c c' : ReorderCtrl} {handed now taken : List RecvFrame} {f : RecvFrame} {ret : Ret}
    (arrived : Arrived c c' handed now f ret)
    (once : taken.Perm (handed ++ c.pendingRecvframeQueue)) :
    (if ret = .handled then taken ++ [f] else taken).Perm
      ((handed ++ now) ++ c'.pendingRecvframeQueue) := by
  split
  · rename_i kept
    calc (taken ++ [f]).Perm ((handed ++ c.pendingRecvframeQueue) ++ [f]) := once.append_right [f]
      _ = handed ++ (c.pendingRecvframeQueue ++ [f]) := List.append_assoc ..
      List.Perm _ (handed ++ (f :: c.pendingRecvframeQueue)) :=
        (List.perm_append_singleton f _).append_left handed
      List.Perm _ (handed ++ (now ++ c'.pendingRecvframeQueue)) :=
        (arrived.kept kept).symm.append_left handed
      _ = (handed ++ now) ++ c'.pendingRecvframeQueue := (List.append_assoc ..).symm
  · rename_i refused
    obtain ⟨rfl, rfl⟩ := arrived.refused refused
    rwa [List.append_nil]

theorem Sound.arrive (sound : Sound wsize b) (low : 1 ≤ wsize) (high : wsize ≤ 255) {f : RecvFrame}
    (mpdu : Mpdu f) : Sound wsize (b.step (.arrive f)) := by
  have low' : 1 ≤ b.ctrl.wsizeB := sound.wsizeB ▸ low
  have high' : b.ctrl.wsizeB ≤ 255 := sound.wsizeB ▸ high
  rcases sound.begun with ⟨fresh, empty, none⟩ | started
  · have first := arrive_first fresh sound.enable mpdu.qos mpdu.number
    have arrived := (started_first (f := f) empty mpdu.number).arrive low' high' sound.enable
      mpdu.qos mpdu.number
    have once := sound.once
    rw [none] at once
    simp only [← first] at arrived
    refine ⟨arrived.enable.trans sound.enable, arrived.wsizeB.trans sound.wsizeB, .inr ?_, ?_⟩
    · show Started _ (b.handed ++ _)
      rw [none]
      exact arrived.started
    · show List.Perm _ (b.handed ++ _ ++ _)
      rw [none]
      exact once_arrive arrived once
  · have arrived := started.arrive low' high' sound.enable mpdu.qos mpdu.number
    exact ⟨arrived.enable.trans sound.enable, arrived.wsizeB.trans sound.wsizeB,
      .inr arrived.started, once_arrive arrived sound.once⟩

theorem Sound.timeout (sound : Sound wsize b) (low : 1 ≤ wsize) (high : wsize ≤ 255)
    (cannotRun : Bool) : Sound wsize (b.step (.timeout cannotRun)) := by
  rcases sound.begun with ⟨fresh, empty, none⟩ | started
  · obtain ⟨timer, waiting, moved⟩ := timeout_empty empty cannotRun
    unfold Buffer.step
    simp only [moved, List.append_nil]
    exact ⟨sound.enable, sound.wsizeB, .inl ⟨fresh, empty, none⟩, sound.once⟩
  · obtain ⟨started', enable, wsizeB, split⟩ := started.timeout (sound.wsizeB ▸ low)
      (sound.wsizeB ▸ high) cannotRun
    refine ⟨enable.trans sound.enable, wsizeB.trans sound.wsizeB, .inr started', ?_⟩
    have once := sound.once
    rw [← split, ← List.append_assoc] at once
    exact once

theorem sound_start (wsize : Nat) : Sound wsize (Buffer.start wsize) :=
  ⟨rfl, rfl, .inl ⟨rfl, rfl, rfl⟩, .refl _⟩

theorem sound_run (low : 1 ≤ wsize) (high : wsize ≤ 255) (sound : Sound wsize b) (steps : List Step)
    (mpdus : ∀ f, .arrive f ∈ steps → Mpdu f) : Sound wsize (b.run steps) := by
  induction steps generalizing b with
  | nil => exact sound
  | cons s steps ih =>
      have later : ∀ f, .arrive f ∈ steps → Mpdu f :=
        fun f member => mpdus f (List.mem_cons_of_mem s member)
      cases s with
      | arrive f => exact ih (sound.arrive low high (mpdus f List.mem_cons_self)) later
      | timeout cannotRun => exact ih (sound.timeout low high cannotRun) later

end Run

/-- What the buffer promises with window size `wsize`. -/
structure InOrder (wsize : Nat) (b : Buffer) : Prop where
  sorted : b.ctrl.pendingRecvframeQueue.Pairwise fun f g => snLess f.seqNum g.seqNum = true
  window : ∀ f ∈ b.ctrl.pendingRecvframeQueue,
    0 < ((f.seqNum : Int) - b.ctrl.indicateSeq) % 4096 ∧
    ((f.seqNum : Int) - b.ctrl.indicateSeq) % 4096 < wsize
  order : b.handed.IsChain fun f g => snLess f.seqNum g.seqNum = true
  once : b.taken.Perm (b.handed ++ b.ctrl.pendingRecvframeQueue)
  refused : ∀ f, Mpdu f → (recvIndicatepktReorder b.ctrl f).2.2 = .fail →
    recvIndicatepktReorder b.ctrl f = (b.ctrl, [], .fail)

theorem Sound.inOrder {wsize : Nat} {b : Buffer} (low : 1 ≤ wsize) (high : wsize ≤ 255)
    (sound : Sound wsize b) : InOrder wsize b := by
  have wsizeB := sound.wsizeB
  rcases sound.begun with ⟨fresh, empty, none⟩ | started
  · refine ⟨empty ▸ List.Pairwise.nil, fun f member => ?_, none ▸ List.isChain_nil, sound.once,
      fun f mpdu fails => ?_⟩
    · rw [empty] at member
      exact absurd member List.not_mem_nil
    · rw [handled_first fresh sound.enable mpdu.qos empty] at fails
      cases fails
  · refine ⟨?_, fun f member => wsizeB ▸ started.inside f member, started.order, sound.once,
      fun f mpdu fails => ?_⟩
    · refine List.Pairwise.imp_of_mem (fun {f g} first second less => ?_) started.sorted
      have near := started.inside f first
      have near' := started.inside g second
      exact (snLess_iff b.ctrl.indicateSeq (by omega) (by omega)).mpr less
    · obtain ⟨same, idle⟩ := (started.arrive (wsizeB ▸ low) (wsizeB ▸ high) sound.enable mpdu.qos
        mpdu.number).refused (by rw [fails]; decide)
      exact Prod.ext same (Prod.ext idle fails)

/-- Every run of arrivals and timeouts hands MPDUs on in order and loses or repeats none. -/
theorem reorder_buffer (wsize : Nat) (low : 1 ≤ wsize) (high : wsize ≤ 255) (steps : List Step)
    (mpdus : ∀ f, .arrive f ∈ steps → Mpdu f) :
    InOrder wsize ((Buffer.start wsize).run steps) :=
  (sound_run low high (sound_start wsize) steps mpdus).inOrder low high

/-- Across the wrap: 4094 and 1 are handed on, 2 is a gap, 3 waits. -/
def acrossWrap : List Step :=
  [.arrive ⟨0, true, 4094⟩, .arrive ⟨1, true, 1⟩, .arrive ⟨2, true, 3⟩, .arrive ⟨3, true, 1⟩,
    .timeout false]

theorem reorder_buffer_acrossWrap : InOrder 64 ((Buffer.start 64).run acrossWrap) :=
  reorder_buffer 64 (by decide) (by decide) acrossWrap (by
    intro f member
    simp only [acrossWrap, List.mem_cons, Step.arrive.injEq, reduceCtorEq, List.not_mem_nil,
      or_false] at member
    rcases member with rfl | rfl | rfl | rfl <;> exact ⟨rfl, by decide⟩)

end Vmac.Recv
