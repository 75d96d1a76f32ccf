/-
# Vmac.Recv.Conserve -- descriptors in hand and in the queues

`Conserving waiting held s`: each descriptor is in `held` or in one queue, `waiting` is
`uc_swdec_pending_queue`, the count of the free queue is right, a descriptor was put back
as often as it was taken unless it is out, and each `sk_buff` is in one descriptor or was
freed or handed up once.

* `Conserving.freeHeld`, `Conserving.freeQueued`: freeing a descriptor that is in hand,
  or in a queue, keeps this; freeing one that is free already does not.
-/
import Vmac.Recv.Pool

namespace Vmac.Recv

open Theory.Placement

set_option autoImplicit false

/-- How often an `sk_buff` was freed or handed up. -/
def ends (log : List PoolEvent) (k : Nat) : Nat := log.count (.skbFree k) + log.count (.skbUp k)

structure Conserving (waiting held : List Desc) (s : Pool) : Prop where
  placed : Placed (· < nrRecvframe) held s.queue
  uc : s.queue .ucSwdec = waiting
  cnt : s.freeRecvframeCnt = (s.queue .free).length
  balance : ∀ d < nrRecvframe,
    s.log.count (.take d) = s.log.count (.put d) + if d ∈ s.queue .free then 0 else 1
  idle : ∀ d ∈ s.queue .free, (s.hdr d).pkt = none
  owned : ∀ d k, (s.hdr d).pkt = some k →
    k < s.nextSkb ∧ ends s.log k = 0 ∧ ∀ d', (s.hdr d').pkt = some k → d' = d
  ended : ∀ k < s.nextSkb, ends s.log k = 1 ∨ ∃ d, (s.hdr d).pkt = some k
  fresh : ∀ k, s.nextSkb ≤ k → ends s.log k = 0

/-- `rtw_os_free_recvframe` or indication: what an `sk_buff` may end by. -/
structure IsEnd (event : Nat → PoolEvent) : Prop where
  ends_cons : ∀ log k k', ends (event k :: log) k' = ends log k' + if k' = k then 1 else 0
  take : ∀ log k d, (event k :: log).count (.take d) = log.count (.take d)
  put : ∀ log k d, (event k :: log).count (.put d) = log.count (.put d)

theorem isEnd_skbFree : IsEnd .skbFree where
  ends_cons log k k' := by
    simp only [ends, List.count_cons]
    by_cases same : k' = k
    · simp [same]
      omega
    · simp [same, Ne.symm same]
  take log k d := by simp
  put log k d := by simp

theorem isEnd_skbUp : IsEnd .skbUp where
  ends_cons log k k' := by
    simp only [ends, List.count_cons]
    by_cases same : k' = k
    · simp [same]
      omega
    · simp [same, Ne.symm same]
  take log k d := by simp
  put log k d := by simp

@[simp] theorem ends_put (d : Desc) (log : List PoolEvent) (k : Nat) :
    ends (.put d :: log) k = ends log k := by simp [ends]

@[simp] theorem ends_take (d : Desc) (log : List PoolEvent) (k : Nat) :
    ends (.take d :: log) k = ends log k := by simp [ends]

namespace Pool

variable {s : Pool} {d : Desc}

@[simp] theorem setHdr_hdr_self (s : Pool) (d : Desc) (hdr : RecvFrameHdr) :
    (s.setHdr d hdr).hdr d = hdr := Function.update_self ..

theorem setHdr_hdr_of_ne (s : Pool) {d d' : Desc} (hdr : RecvFrameHdr) (other : d' ≠ d) :
    (s.setHdr d hdr).hdr d' = s.hdr d' := Function.update_of_ne other ..

theorem settle_pkt (event : Nat → PoolEvent) (s : Pool) (d : Desc) :
    ((s.settle event d).hdr d).pkt = none := by
  unfold settle
  split
  · assumption
  · simp [setHdr]

@[simp] theorem settle_queue (event : Nat → PoolEvent) (s : Pool) (d : Desc) :
    (s.settle event d).queue = s.queue := by
  unfold settle
  split <;> rfl

@[simp] theorem settle_cnt (event : Nat → PoolEvent) (s : Pool) (d : Desc) :
    (s.settle event d).freeRecvframeCnt = s.freeRecvframeCnt := by
  unfold settle
  split <;> rfl

theorem alloc_none {t : Pool} {p : Place} (alloc : s.rtwAllocRecvframe p = (none, t)) : t = s := by
  unfold rtwAllocRecvframe at alloc
  split at alloc
  · cases alloc
    rfl
  · dsimp only at alloc
    split at alloc <;> cases alloc

end Pool

theorem free_ne_ucSwdec : Place.free ≠ .ucSwdec := nofun

/-- A queue in a `sta_info` record. -/
def Place.InSta (p : Place) : Prop := p ≠ .free ∧ p ≠ .ucSwdec

theorem inSta_defrag (sta : Nat) : (Place.defrag sta).InSta := ⟨nofun, nofun⟩

theorem inSta_pending (sta : Nat) (tid : Fin 16) : (Place.pending sta tid).InSta :=
  ⟨nofun, nofun⟩

namespace Conserving

open Pool

variable {waiting held : List Desc} {s t : Pool} {d : Desc} {p : Place}

/-! ## Queues -/

theorem perm (conserving : Conserving waiting held s) {held' : List Desc} (same : held.Perm held') :
    Conserving waiting held' s :=
  { conserving with placed := conserving.placed.perm same }

/-- Only the headers, and there not the `sk_buff`s. -/
theorem congr (conserving : Conserving waiting held s) (queue : t.queue = s.queue)
    (cnt : t.freeRecvframeCnt = s.freeRecvframeCnt) (log : t.log = s.log)
    (nextSkb : t.nextSkb = s.nextSkb) (pkt : ∀ d, (t.hdr d).pkt = (s.hdr d).pkt) :
    Conserving waiting held t where
  placed := queue ▸ conserving.placed
  uc := queue ▸ conserving.uc
  cnt := by rw [cnt, queue, conserving.cnt]
  balance := by rw [log, queue]; exact conserving.balance
  idle d inside := by rw [pkt]; exact conserving.idle d (queue ▸ inside)
  owned := by simp only [pkt, nextSkb, log]; exact conserving.owned
  ended := by simp only [pkt, nextSkb, log]; exact conserving.ended
  fresh := by rw [nextSkb, log]; exact conserving.fresh

theorem setHdr (conserving : Conserving waiting held s) {hdr : RecvFrameHdr}
    (pkt : hdr.pkt = (s.hdr d).pkt) : Conserving waiting held (s.setHdr d hdr) := by
  refine conserving.congr rfl rfl rfl rfl fun d' => ?_
  by_cases same : d' = d
  · rw [same, setHdr_hdr_self, pkt]
  · rw [setHdr_hdr_of_ne _ _ same]

/-- Other queues than the free queue. -/
theorem ofQueue (conserving : Conserving waiting held s) {waiting' held' : List Desc}
    {queue : Queues Place Desc} (placed : Placed (· < nrRecvframe) held' queue)
    (free : queue .free = s.queue .free) (uc : queue .ucSwdec = waiting') :
    Conserving waiting' held' { s with queue := queue } where
  placed := placed
  uc := uc
  cnt := conserving.cnt.trans (congrArg List.length free.symm)
  balance d small := by
    show _ = _ + if d ∈ queue .free then 0 else 1
    rw [free]
    exact conserving.balance d small
  idle d inside := conserving.idle d (free ▸ inside)
  owned := conserving.owned
  ended := conserving.ended
  fresh := conserving.fresh

/-- A queue and the descriptors in hand exchange descriptors. -/
theorem exchange (xs ys : List Desc) {l : List Desc} (conserving : Conserving waiting (xs ++ held) s)
    (inSta : p.InSta) (same : (ys ++ l).Perm (xs ++ s.queue p)) :
    Conserving waiting (ys ++ held) { s with queue := Function.update s.queue p l } :=
  conserving.ofQueue (conserving.placed.rearrange xs ys same)
    (Function.update_of_ne inSta.1.symm ..) ((Function.update_of_ne inSta.2.symm ..).trans conserving.uc)

theorem listDelete_held (conserving : Conserving waiting held s) (hand : d ∈ held) :
    s.rtwListDelete d = s := by
  unfold rtwListDelete
  rw [conserving.placed.unlink_held hand]

theorem listDelete (conserving : Conserving waiting held s) (inside : d ∈ s.queue p) (other : p ≠ .free) :
    Conserving (waiting.filter (· ≠ d)) (d :: held) (s.rtwListDelete d) := by
  refine conserving.ofQueue (conserving.placed.take inside) ?_ ?_
  · rw [conserving.placed.unlink_eq inside, Function.update_of_ne other.symm]
  · exact congrArg (List.filter _) conserving.uc

/-- A queue of a station: no frame of it waits for the key. -/
theorem filter_waiting (conserving : Conserving waiting held s) (inside : d ∈ s.queue p)
    (inSta : p.InSta) : waiting.filter (· ≠ d) = waiting := by
  apply List.filter_eq_self.mpr
  intro x there
  apply decide_eq_true
  rintro rfl
  exact conserving.placed.apart x p .ucSwdec inSta.2 inside (conserving.uc ▸ there)

theorem listDeleteSta (conserving : Conserving waiting held s) (inside : d ∈ s.queue p)
    (inSta : p.InSta) : Conserving waiting (d :: held) (s.rtwListDelete d) :=
  conserving.filter_waiting inside inSta ▸ conserving.listDelete inside inSta.1

theorem insertTail (conserving : Conserving waiting (d :: held) s) (inSta : p.InSta) :
    Conserving waiting held (s.rtwListInsertTail p d) :=
  conserving.ofQueue (conserving.placed.put p) (Function.update_of_ne inSta.1.symm ..)
    ((Function.update_of_ne inSta.2.symm ..).trans conserving.uc)

/-- The frame waits for the key. -/
theorem insertTailUc (conserving : Conserving waiting (d :: held) s) :
    Conserving (waiting ++ [d]) held (s.rtwListInsertTail .ucSwdec d) :=
  conserving.ofQueue (conserving.placed.put _) (Function.update_of_ne free_ne_ucSwdec ..)
    ((Function.update_self ..).trans (congrArg (· ++ [d]) conserving.uc))

theorem not_mem_free (conserving : Conserving waiting (d :: held) s) : d ∉ s.queue .free := by
  intro inside
  have once := conserving.placed.once d .free
  have here := List.count_pos_iff.mpr inside
  rw [List.count_cons_self] at once
  omega

theorem lt (conserving : Conserving waiting (d :: held) s) : d < nrRecvframe :=
  (conserving.placed.all_iff d).mpr (.inl List.mem_cons_self)

/-! ## The `sk_buff` -/

theorem settle (conserving : Conserving waiting held s) {event : Nat → PoolEvent} (isEnd : IsEnd event)
    (d : Desc) : Conserving waiting held (s.settle event d) := by
  unfold Pool.settle
  split
  · exact conserving
  rename_i k pkt
  obtain ⟨old, unended, sole⟩ := conserving.owned d k pkt
  have pkt_eq (d' : Desc) : ((s.setHdr d { s.hdr d with pkt := none }).hdr d').pkt =
      if d' = d then none else (s.hdr d').pkt := by
    by_cases same : d' = d
    · simp [same]
    · simp [same, setHdr_hdr_of_ne]
  refine ⟨conserving.placed, conserving.uc, conserving.cnt, fun d' inside => ?_, fun d' inside => ?_,
    fun d' k' pktNew => ?_, fun k' small => ?_, fun k' large => ?_⟩
  · show List.count _ (event k :: s.log) = _
    rw [isEnd.take, isEnd.put]
    exact conserving.balance d' inside
  · show ((s.setHdr d _).hdr d').pkt = none
    rw [pkt_eq, conserving.idle d' inside, ite_self]
  · have pkt' := (pkt_eq d').symm.trans pktNew
    split at pkt'
    · cases pkt'
    rename_i other
    obtain ⟨old', unended', sole'⟩ := conserving.owned d' k' pkt'
    have differ : k' ≠ k := by
      rintro rfl
      exact other (sole d' pkt')
    refine ⟨old', ?_, fun d'' pktNew' => sole' d'' ?_⟩
    · show ends (event k :: s.log) k' = 0
      rw [isEnd.ends_cons, unended', if_neg differ]
    · have pkt'' := (pkt_eq d'').symm.trans pktNew'
      split at pkt''
      · cases pkt''
      · exact pkt''
  · show ends (event k :: s.log) k' = 1 ∨ ∃ d', ((s.setHdr d _).hdr d').pkt = some k'
    rw [isEnd.ends_cons]
    by_cases same : k' = k
    · left
      rw [same, unended, if_pos rfl]
    · rw [if_neg same, Nat.add_zero]
      refine (conserving.ended k' small).imp_right fun ⟨d', pkt'⟩ => ⟨d', ?_⟩
      rw [pkt_eq, if_neg, pkt']
      rintro rfl
      rw [pkt] at pkt'
      exact same (Option.some.inj pkt').symm
  · show ends (event k :: s.log) k' = 0
    have large : s.nextSkb ≤ k' := large
    rw [isEnd.ends_cons, conserving.fresh k' large, if_neg (by omega)]

theorem newSkb (conserving : Conserving waiting (d :: held) s) (none_ : (s.hdr d).pkt = none) :
    Conserving waiting (d :: held) (s.newSkb d) := by
  have pkt_eq (d' : Desc) : ((s.newSkb d).hdr d').pkt =
      if d' = d then some s.nextSkb else (s.hdr d').pkt := by
    unfold Pool.newSkb
    by_cases same : d' = d
    · simp [same]
    · simp [same, setHdr_hdr_of_ne]
  have old (d' k : Nat) (pkt : (s.hdr d').pkt = some k) : k ≠ s.nextSkb :=
    (conserving.owned d' k pkt).1.ne
  refine ⟨conserving.placed, conserving.uc, conserving.cnt, conserving.balance, fun d' inside => ?_,
    fun d' k pkt => ?_, fun k small => ?_, fun k large => conserving.fresh k (Nat.le_of_succ_le large)⟩
  · rw [pkt_eq, if_neg, conserving.idle d' inside]
    rintro rfl
    exact conserving.not_mem_free inside
  · rw [pkt_eq] at pkt
    show k < s.nextSkb + 1 ∧ ends s.log k = 0 ∧ _
    split at pkt
    · rename_i same
      obtain rfl := Option.some.inj pkt
      refine ⟨Nat.lt_succ_self _, conserving.fresh _ (Nat.le_refl _), fun d'' pkt' => ?_⟩
      rw [pkt_eq] at pkt'
      split at pkt'
      · rename_i same'
        exact same'.trans same.symm
      · exact absurd rfl (old d'' _ pkt')
    · obtain ⟨small, unended, sole⟩ := conserving.owned d' k pkt
      refine ⟨Nat.lt_succ_of_lt small, unended, fun d'' pkt' => ?_⟩
      rw [pkt_eq] at pkt'
      split at pkt'
      · exact absurd (Option.some.inj pkt').symm small.ne
      · exact sole d'' pkt'
  · show ends s.log k = 1 ∨ _
    by_cases last : k = s.nextSkb
    · exact .inr ⟨d, by rw [pkt_eq, if_pos rfl, last]⟩
    · have small : k < s.nextSkb + 1 := small
      refine (conserving.ended k (by omega)).imp_right fun ⟨d', pkt⟩ => ⟨d', ?_⟩
      rw [pkt_eq, if_neg, pkt]
      rintro rfl
      rw [none_] at pkt
      cases pkt

/-! ## The free queue -/

/-- A descriptor in hand, without an `sk_buff`, goes back to the free queue. -/
theorem putBack (conserving : Conserving waiting (d :: held) s) (pkt : (s.hdr d).pkt = none) :
    Conserving waiting held
      { s with
        queue := append .free d s.queue
        freeRecvframeCnt := s.freeRecvframeCnt + 1
        log := .put d :: s.log } := by
  have queue : append Place.free d s.queue .free = s.queue .free ++ [d] := Function.update_self ..
  refine ⟨conserving.placed.put .free, ?_, ?_, fun d' small => ?_, fun d' inside => ?_, fun d' k pkt' => ?_,
    fun k small => ?_, fun k large => ?_⟩
  · show append Place.free d s.queue .ucSwdec = waiting
    exact (Function.update_of_ne free_ne_ucSwdec.symm ..).trans conserving.uc
  · show s.freeRecvframeCnt + 1 = (append Place.free d s.queue .free).length
    rw [queue, List.length_append, conserving.cnt]
    rfl
  · show List.count _ (PoolEvent.put d :: s.log) = List.count _ (PoolEvent.put d :: s.log) +
      if d' ∈ append Place.free d s.queue .free then 0 else 1
    rw [queue]
    have before := conserving.balance d' small
    by_cases same : d' = d
    · rw [same, if_neg conserving.not_mem_free] at before
      simp [same, before]
    · simp [same, Ne.symm same, before]
  · have inside : d' ∈ append Place.free d s.queue .free := inside
    rw [queue, List.mem_append, List.mem_singleton] at inside
    rcases inside with inside | rfl
    · exact conserving.idle d' inside
    · exact pkt
  · show _ ∧ ends (.put d :: s.log) k = 0 ∧ _
    rw [ends_put]
    exact conserving.owned d' k pkt'
  · show ends (.put d :: s.log) k = 1 ∨ _
    rw [ends_put]
    exact conserving.ended k small
  · show ends (.put d :: s.log) k = 0
    rw [ends_put]
    exact conserving.fresh k large

/-- `rtw_free_recvframe` on a descriptor in hand. -/
theorem freeHeld (conserving : Conserving waiting (d :: held) s) : Conserving waiting held (s.rtwFreeRecvframe d) := by
  have settled := conserving.settle isEnd_skbFree d
  have putBack := settled.putBack (settle_pkt ..)
  unfold rtwFreeRecvframe rtwOsFreeRecvframe
  dsimp only
  rw [settled.listDelete_held List.mem_cons_self]
  exact putBack

/-- `rtw_free_recvframe` on a descriptor in a queue: it is taken out. -/
theorem freeQueued (conserving : Conserving waiting held s) (inside : d ∈ s.queue p) (other : p ≠ .free) :
    Conserving (waiting.filter (· ≠ d)) held (s.rtwFreeRecvframe d) := by
  have same : (s.rtwListDelete d).rtwFreeRecvframe d = s.rtwFreeRecvframe d := by
    have twice : unlink d (unlink d s.queue) = unlink d s.queue := by
      funext p
      exact List.filter_filter.trans (List.filter_congr fun x _ => Bool.and_self _)
    unfold rtwFreeRecvframe rtwOsFreeRecvframe Pool.settle rtwListDelete
    dsimp only
    split <;> simp only [Pool.setHdr, rtwListInsertTail, twice]
  rw [← same]
  exact (conserving.listDelete inside other).freeHeld

theorem freeQueuedSta (conserving : Conserving waiting held s) (inside : d ∈ s.queue p)
    (inSta : p.InSta) : Conserving waiting held (s.rtwFreeRecvframe d) :=
  conserving.filter_waiting inside inSta ▸ conserving.freeQueued inside inSta.1

theorem allocFree (conserving : Conserving waiting held s) {t : Pool}
    (alloc : s.rtwAllocRecvframe .free = (some d, t)) :
    Conserving waiting (d :: held) t ∧ (t.hdr d).pkt = none := by
  unfold rtwAllocRecvframe at alloc
  split at alloc
  · cases alloc
  rename_i d' rest queue
  simp only [if_true, Prod.mk.injEq, Option.some.injEq] at alloc
  obtain ⟨rfl, rfl⟩ := alloc
  have inside : d' ∈ s.queue .free := by
    rw [queue]
    exact List.mem_cons_self
  have placed := conserving.placed.take inside
  have erased : unlink d' s.queue .free = rest := by
    rw [conserving.placed.unlink_eq inside, Function.update_self, queue, List.erase_cons_head]
  have absent : d' ∉ waiting := conserving.uc ▸ conserving.placed.apart d' .free .ucSwdec free_ne_ucSwdec inside
  have uc : unlink d' s.queue .ucSwdec = waiting := by
    show (s.queue .ucSwdec).filter _ = waiting
    rw [conserving.uc]
    exact List.filter_eq_self.mpr fun x there => decide_eq_true fun same => absent (same ▸ there)
  refine ⟨⟨placed, uc, ?_, fun d small => ?_, fun d free => ?_, fun d k pkt => ?_, fun k small => ?_,
    fun k large => ?_⟩, conserving.idle d' inside⟩
  · show s.freeRecvframeCnt - 1 = (unlink d' s.queue .free).length
    rw [erased, conserving.cnt, queue, List.length_cons, Nat.add_sub_cancel]
  · show List.count _ (PoolEvent.take d' :: s.log) = List.count _ (PoolEvent.take d' :: s.log) +
      if d ∈ unlink d' s.queue .free then 0 else 1
    have before := conserving.balance d small
    have nodup := conserving.placed.nodup .free
    rw [queue] at before nodup
    rw [erased]
    by_cases same : d = d'
    · have gone : d' ∉ rest := (List.nodup_cons.mp nodup).1
      simp [same, gone] at before ⊢
      omega
    · simp [same, Ne.symm same] at before ⊢
      exact before
  · apply conserving.idle d
    have free : d ∈ unlink d' s.queue .free := free
    rw [erased] at free
    rw [queue]
    exact List.mem_cons_of_mem _ free
  · show _ ∧ ends (.take d' :: s.log) k = 0 ∧ _
    rw [ends_take]
    exact conserving.owned d k pkt
  · show ends (.take d' :: s.log) k = 1 ∨ _
    rw [ends_take]
    exact conserving.ended k small
  · show ends (.take d' :: s.log) k = 0
    rw [ends_take]
    exact conserving.fresh k large

theorem filter_cons {rest : List Desc} (conserving : Conserving (d :: rest) held s) :
    (d :: rest).filter (· ≠ d) = rest := by
  have nodup := conserving.placed.nodup .ucSwdec
  rw [conserving.uc, List.nodup_cons] at nodup
  rw [List.filter_cons_of_neg (by simp)]
  exact List.filter_eq_self.mpr fun x there => decide_eq_true fun same => nodup.1 (same ▸ there)

/-- The first of the waiting frames is taken. -/
theorem takeUc {rest : List Desc} (conserving : Conserving (d :: rest) held s) :
    Conserving rest (d :: held) (s.rtwListDelete d) := by
  have inside : d ∈ s.queue .ucSwdec := conserving.uc ▸ List.mem_cons_self
  exact conserving.filter_cons ▸ conserving.listDelete inside nofun

theorem allocUc (conserving : Conserving waiting held s) {t : Pool}
    (alloc : s.rtwAllocRecvframe .ucSwdec = (some d, t)) :
    ∃ waiting', Conserving waiting' (d :: held) t := by
  unfold rtwAllocRecvframe at alloc
  split at alloc
  · cases alloc
  rename_i d' rest queue
  simp only [reduceCtorEq, if_false, Prod.mk.injEq, Option.some.injEq] at alloc
  obtain ⟨rfl, rfl⟩ := alloc
  have waits : waiting = d' :: rest := conserving.uc.symm.trans queue
  exact ⟨rest, (waits ▸ conserving).takeUc⟩

end Conserving

end Vmac.Recv
