/-
# Vmac.Core.Ownership -- who releases a buffer in `vmac_rx`

`Owned` is what a call should do with buffers: the received one is released once,
each one it allocates is released once or becomes the pending DACK, and nothing
else is released but a pending DACK that was replaced.

* `dataOwned`, `userOwned`: a frame on its way to userspace is never owned right
  while a process is registered -- `nl_send` releases the message it has handed
  over a second time, or, without a message, forgets the frame.
* `dackOwned`: a DACK is, if each copy finds a transmit frame (`Served`) and no
  copy is sent a second time for an empty slot.
* `skb_ownership`: the two together, for every frame and every state.
-/
import Vmac.Core.Ledger
import Vmac.Core.Resend
import Vmac.Core.Rx

namespace Vmac.Core

open Theory

set_option autoImplicit false
set_option linter.unusedVariables false

/-! ## Pending DACKs -/

/-- The identity of the DACK that waits at an encoding. -/
def pendingId (n : Option EncodingRx) : Option Nat :=
  (n.bind fun e => e.dacInfo.pending).map Skb.id

/-- `request_DACK` stores a new DACK and releases the one it replaces, releases the
new one, or builds none. -/
theorem requestRound_cases (env : Env) (e : EncodingRx) (enc : Enc) (seq : Nat) :
    (∃ skb : Skb, skb.id = env.base ∧ (requestRound env e enc seq).1.dacInfo.pending = some skb ∧
      (requestRound env e enc seq).2 = .alloc env.base :: kfreeSkb e.dacInfo.pending) ∨
    ((requestRound env e enc seq).1.dacInfo = e.dacInfo ∧
      ((requestRound env e enc seq).2 = [.alloc env.base, .free env.base] ∨
        (requestRound env e enc seq).2 = [])) := by
  unfold requestRound
  split
  · simp only [requestDack, prepDack]
    split
    · split
      · left
        refine ⟨_, ?_, storeDack_pending _ _ _ _ _, ?_⟩
        · rfl
        · rw [storeDack_released]
      · exact .inr ⟨rfl, .inl rfl⟩
    · exact .inr ⟨rfl, .inr rfl⟩
  · exact .inr ⟨rfl, .inr rfl⟩

theorem receive_dacInfo {e e' : EncodingRx} {seq : Nat} (got : e.receive seq = some e') :
    e'.dacInfo = e.dacInfo := by
  obtain ⟨_, _, rfl⟩ := receive_frame got
  rfl

theorem timeFrame_dacInfo (e : EncodingRx) (seq jiffies : Nat) :
    (e.timeFrame seq jiffies).dacInfo = e.dacInfo := by
  unfold EncodingRx.timeFrame
  split
  · rfl
  · split <;> rfl

/-! ## What a call owes -/

/-- The buffers of a call: `before` and `after` are the DACKs that wait. -/
structure Settled (frame : Nat) (before after : Option Nat) (outs : List Out) : Prop where
  received : freed frame outs = 1
  -- a new buffer is released once or waits
  made : ∀ id, 0 < allocated id outs →
    (freed id outs = 1 ∧ after ≠ some id) ∨ (freed id outs = 0 ∧ after = some id)
  -- a DACK that waited is released once or still waits
  waited : ∀ id, before = some id →
    (freed id outs = 1 ∧ after ≠ some id) ∨ (freed id outs = 0 ∧ after = some id)
  -- nothing else is released
  only : ∀ id, 0 < freed id outs → id = frame ∨ 0 < allocated id outs ∨ before = some id
  tame : ∀ pointer, .freeWild pointer ∉ outs
  runs : .oops ∉ outs

/-- Buffers get new identities, and the received one does not wait. -/
structure FreshBuffers (env : Env) (frame : Nat) (before : Option Nat) : Prop where
  received : frame < env.base
  waiting : ∀ id, before = some id → id < env.base ∧ id ≠ frame

/-- No process is registered, and the pointer that was never set is NULL. -/
def Silent (env : Env) (pidt : Int) : Prop := pidt = -1 ∧ env.skbOut = none

section User

variable {env : Env} {pidt : Int} {skb : Skb} {enc : Enc} {type : UInt8} {seq : Nat}

theorem nlSend_silent (silent : Silent env pidt) :
    nlSend env pidt skb enc type seq = [.free skb.id] := by
  obtain ⟨rfl, unset⟩ := silent
  simp [nlSend, unset]

theorem settled_free {before : Option Nat} (fresh : FreshBuffers env skb.id before) :
    Settled skb.id before before [.free skb.id] := by
  refine ⟨by simp, fun id made => by simp at made, fun id same => .inr ⟨?_, same⟩, fun id gone => ?_,
    by simp, by simp⟩
  · rw [freed_free, if_neg (fresh.waiting id same).2.symm]
  · rw [freed_free] at gone
    split at gone
    · rename_i same; exact .inl same.symm
    · omega

variable (skb) in
/-- A call that ends in `nl_send` settles its buffers only if `nl_send` is silent:
what comes before does not concern the frame or the message. -/
theorem not_settled_nlSend {before after : Option Nat} {outs : List Out}
    (fresh : FreshBuffers env skb.id before) (quiet : freed skb.id outs = 0)
    (loud : ¬ Silent env pidt) :
    ¬ Settled skb.id before after (outs ++ nlSend env pidt skb enc type seq) := by
  intro settled
  by_cases registered : pidt = -1
  · subst registered
    cases unset : env.skbOut with
    | none => exact loud ⟨rfl, unset⟩
    | some pointer =>
        apply settled.tame pointer
        simp [nlSend, unset]
  · cases ok : env.nlmsgOk with
    | false =>
        have released := settled.received
        have nothing : nlSend env pidt skb enc type seq = [] := by simp [nlSend, registered, ok]
        rw [freed_append, quiet, nothing] at released
        cases released
    | true =>
        by_cases short : skb.data.length < 4
        · apply settled.runs
          simp [nlSend, registered, ok, short]
        · -- the message is released by `nlmsg_unicast` and again by `nlmsg_free`
          have sent : nlSend env pidt skb enc type seq = [.alloc (env.base + 1),
              .user pidt (max (skb.data.length - 4 + 100) 100) (nlBody env skb enc type seq),
              .free (env.base + 1), .free skb.id, .free (env.base + 1)] := by
            simp [nlSend, registered, ok, short]
          have twice : 2 ≤ freed (env.base + 1) (nlSend env pidt skb enc type seq) := by
            rw [sent, freed, List.count_cons, List.count_cons, List.count_cons, List.count_cons,
              List.count_cons]
            simp
          have made : 0 < allocated (env.base + 1) (outs ++ nlSend env pidt skb enc type seq) := by
            rw [allocated_append, sent, allocated_cons]
            simp
          rcases settled.made _ made with ⟨once, -⟩ | ⟨none, -⟩
          · rw [freed_append] at once
            omega
          · rw [freed_append] at none
            omega

end User

/-! ## Frames that are not DACKs -/

/-- The request of an accepted data frame settles its buffers. -/
theorem settled_request (env : Env) (e : EncodingRx) (enc : Enc) (seq : Nat) {skb : Skb}
    (fresh : FreshBuffers env skb.id (e.dacInfo.pending.map Skb.id)) :
    Settled skb.id (e.dacInfo.pending.map Skb.id)
      ((requestRound env e enc seq).1.dacInfo.pending.map Skb.id)
      ((requestRound env e enc seq).2 ++ [.free skb.id]) := by
  have below := fresh.received
  rcases requestRound_cases env e enc seq with ⟨dack, new, pending, outs⟩ | ⟨same, outs | outs⟩
  · -- a new DACK waits, the old one is released
    rw [pending, outs]
    have count : ∀ id, freed id (.alloc env.base :: kfreeSkb e.dacInfo.pending ++ [.free skb.id]) =
        (if e.dacInfo.pending.map Skb.id = some id then 1 else 0) +
          if skb.id = id then 1 else 0 := by
      intro id
      rw [List.cons_append, freed_cons, freed_alloc, Nat.zero_add, freed_append, freed_kfreeSkb,
        freed_free]
    have made : ∀ id,
        allocated id (.alloc env.base :: kfreeSkb e.dacInfo.pending ++ [.free skb.id]) =
          if env.base = id then 1 else 0 := by
      intro id
      rw [List.cons_append, allocated_cons, allocated_alloc, allocated_append, allocated_kfreeSkb,
        allocated_free]
      rfl
    refine ⟨?_, ?_, ?_, ?_, ?_, ?_⟩
    · rw [count, if_pos rfl, if_neg fun waits => (fresh.waiting _ waits).2 rfl]
    · intro id pos
      rw [made] at pos
      split at pos
      · rename_i here
        subst here
        right
        rw [count, if_neg fun waits => Nat.lt_irrefl _ (fresh.waiting _ waits).1,
          if_neg (Nat.ne_of_lt below), Option.map_some, new]
        exact ⟨rfl, rfl⟩
      · omega
    · intro id waits
      obtain ⟨older, other⟩ := fresh.waiting id waits
      left
      rw [count, if_pos waits, if_neg other.symm, Option.map_some, new]
      exact ⟨rfl, fun same => Nat.ne_of_gt older (Option.some.inj same)⟩
    · intro id pos
      rw [count] at pos
      by_cases waits : e.dacInfo.pending.map Skb.id = some id
      · exact .inr (.inr waits)
      · rw [if_neg waits] at pos
        split at pos
        · rename_i same; exact .inl same.symm
        · omega
    · intro pointer
      cases e.dacInfo.pending <;> simp [kfreeSkb]
    · cases e.dacInfo.pending <;> simp [kfreeSkb]
  · -- the new DACK is given up
    rw [same, outs]
    have count : ∀ id, freed id ([.alloc env.base, .free env.base] ++ [.free skb.id]) =
        (if env.base = id then 1 else 0) + if skb.id = id then 1 else 0 := by
      intro id
      rw [freed_append, freed_cons, freed_alloc, freed_free, freed_free, Nat.zero_add]
    have made : ∀ id, allocated id ([.alloc env.base, .free env.base] ++ [.free skb.id]) =
        if env.base = id then 1 else 0 := by
      intro id
      rw [allocated_append, allocated_cons, allocated_alloc, allocated_free, allocated_free]
      rfl
    refine ⟨?_, ?_, ?_, ?_, by simp, by simp⟩
    · rw [count, if_pos rfl, if_neg (Nat.ne_of_gt below)]
    · intro id pos
      rw [made] at pos
      split at pos
      · rename_i here
        subst here
        left
        rw [count, if_pos rfl, if_neg (Nat.ne_of_lt below)]
        exact ⟨rfl, fun waits => Nat.lt_irrefl _ (fresh.waiting _ waits).1⟩
      · omega
    · intro id waits
      obtain ⟨older, other⟩ := fresh.waiting id waits
      right
      rw [count, if_neg (Nat.ne_of_gt older), if_neg other.symm]
      exact ⟨rfl, waits⟩
    · intro id pos
      rw [count] at pos
      by_cases new : env.base = id
      · right; left
        rw [made, if_pos new]
        exact Nat.one_pos
      · rw [if_neg new] at pos
        split at pos
        · rename_i same; exact .inl same.symm
        · omega
  · rw [same, outs]
    exact settled_free fresh

/-- The entry a data frame leaves behind the window part, if it gets that far. -/
def accepted (env : Env) (n : Entries) (skb : Skb) : Option EncodingRx :=
  n.rx.bind fun e => (e.refresh env).receive (readSeq env.past skb.data)

/-- The frame is on its way to userspace. -/
def ToUser (env : Env) (n : Entries) (h : VmacHdr) (skb : Skb) : Prop :=
  h.type = vmacHdrInterest ∨ h.type = vmacHdrAnouncment ∨ h.type = vmacHdrInjected ∨
    (h.type = vmacHdrData ∧ (accepted env n skb).isSome)

/-- The frame stops at the division by zero. -/
def Traps (env : Env) (n : Entries) (h : VmacHdr) (skb : Skb) : Prop :=
  h.type = vmacHdrData ∧
    ∃ e, accepted env n skb = some e ∧ e.timeTraps (readSeq env.past skb.data) = true

section Frames

variable {env : Env} (pidt : Int) {n : Entries} {h : VmacHdr} {skb : Skb}

/-- A frame `nl_send` gets right away. -/
theorem settled_nlSend_iff {frame : Skb} {seq : Nat} (same : frame.id = skb.id)
    (fresh : FreshBuffers env skb.id (pendingId n.rx)) :
    Settled skb.id (pendingId n.rx) (pendingId n.rx) (nlSend env pidt frame h.enc h.type seq) ↔
      Silent env pidt := by
  rw [← same] at fresh ⊢
  constructor
  · intro settled
    by_contra loud
    exact not_settled_nlSend frame fresh (freed_nil frame.id) loud settled
  · intro silent
    rw [nlSend_silent silent]
    exact settled_free fresh

theorem settled_rxData_iff {e : EncodingRx} (found : n.rx = some e)
    (fresh : FreshBuffers env skb.id (pendingId n.rx)) :
    Settled skb.id (pendingId n.rx) ((rxData env pidt e h.enc skb).1.dacInfo.pending.map Skb.id)
        (rxData env pidt e h.enc skb).2 ↔
      accepted env n skb = none ∨ Silent env pidt ∧
        ∀ e', accepted env n skb = some e' →
          e'.timeTraps (readSeq env.past skb.data) = false := by
  have before : pendingId n.rx = e.dacInfo.pending.map Skb.id := by
    rw [found]
    rfl
  have accept : accepted env n skb = (e.refresh env).receive (readSeq env.past skb.data) := by
    rw [accepted, found]
    rfl
  rw [accept]
  cases got : (e.refresh env).receive (readSeq env.past skb.data) with
  | none =>
      rw [rxData_drop env pidt e h.enc got, rxData_drop_outs env pidt e h.enc got]
      refine ⟨fun _ => .inl rfl, fun _ => ?_⟩
      rw [before] at fresh ⊢
      exact settled_free fresh
  | some e' =>
      have info : e'.dacInfo = e.dacInfo := receive_dacInfo (e := e.refresh env) got
      cases traps : e'.timeTraps (readSeq env.past skb.data) with
      | true =>
          rw [rxData_trap_outs env pidt e h.enc got traps]
          refine ⟨fun settled => absurd (List.mem_singleton_self _) settled.runs, ?_⟩
          rintro (none | ⟨-, runs⟩)
          · cases none
          · rw [runs e' rfl] at traps
            cases traps
      | false =>
          rw [rxData_run env pidt e h.enc got traps, rxData_run_outs env pidt e h.enc got traps]
          have dacInfo : EncodingRx.dacInfo { e'.timeFrame (readSeq env.past skb.data) env.jiffies
              with lastin := readSeq env.past skb.data } = e.dacInfo :=
            (timeFrame_dacInfo e' _ _).trans info
          generalize ({ e'.timeFrame (readSeq env.past skb.data) env.jiffies with
            lastin := readSeq env.past skb.data } : EncodingRx) = e₁ at dacInfo
          rw [before, ← dacInfo] at fresh ⊢
          have asked := settled_request env e₁ h.enc (readSeq env.past skb.data) fresh
          constructor
          · intro settled
            refine .inr ⟨?_, ?_⟩
            · by_contra loud
              have quiet : freed skb.id (requestRound env e₁ h.enc (readSeq env.past skb.data)).2 =
                  0 := by
                have once := asked.received
                rw [freed_append, freed_free, if_pos rfl] at once
                omega
              exact not_settled_nlSend (skb.pull 2) fresh quiet loud settled
            · intro e'' same
              cases same
              exact traps
          · rintro (none | ⟨silent, -⟩)
            · cases none
            · rw [nlSend_silent silent]
              exact asked

variable (n skb) in
theorem rxFrame_settled_iff (notDack : h.type ≠ vmacHdrDack)
    (fresh : FreshBuffers env skb.id (pendingId n.rx)) :
    Settled skb.id (pendingId n.rx) (pendingId (rxFrame env pidt n h skb).1.rx)
        (rxFrame env pidt n h skb).2 ↔
      ¬ ToUser env n h skb ∨ Silent env pidt ∧ ¬ Traps env n h skb := by
  by_cases interest : h.type = vmacHdrInterest
  · have user : ToUser env n h skb := .inl interest
    have runs : ¬ Traps env n h skb := by
      rintro ⟨data, -⟩
      rw [interest] at data
      exact absurd data (by decide)
    rw [rxFrame, if_pos interest]
    simp only [user, runs, not_true_eq_false, false_or, not_false_eq_true, and_true]
    exact settled_nlSend_iff pidt rfl fresh
  by_cases data : h.type = vmacHdrData
  · have user : ToUser env n h skb ↔ (accepted env n skb).isSome := by
      simp [ToUser, data, vmacHdrData, vmacHdrInterest, vmacHdrAnouncment, vmacHdrInjected]
    rw [rxFrame, if_neg interest, if_pos data, user]
    cases found : n.rx with
    | none =>
        have none : accepted env n skb = none := by rw [accepted, found]; rfl
        refine ⟨fun _ => .inl (by rw [none]; decide), fun _ => ?_⟩
        rw [found] at fresh
        dsimp only
        rw [found]
        exact settled_free fresh
    | some e =>
        have step := settled_rxData_iff pidt (h := h) found fresh
        rw [found] at step
        refine step.trans ?_
        simp only [Traps, data, true_and]
        cases accepted env n skb with
        | none => simp
        | some e' => simp
  by_cases announced : h.type = vmacHdrAnouncment
  · have user : ToUser env n h skb := .inr (.inl announced)
    have runs : ¬ Traps env n h skb := fun t => data t.1
    rw [rxFrame, if_neg interest, if_neg data, if_neg notDack, if_pos announced]
    simp only [user, runs, not_true_eq_false, false_or, not_false_eq_true, and_true]
    exact settled_nlSend_iff pidt rfl fresh
  by_cases injected : h.type = vmacHdrInjected
  · have user : ToUser env n h skb := .inr (.inr (.inl injected))
    have runs : ¬ Traps env n h skb := fun t => data t.1
    rw [rxFrame, if_neg interest, if_neg data, if_neg notDack, if_neg announced, if_pos injected]
    simp only [user, runs, not_true_eq_false, false_or, not_false_eq_true, and_true]
    exact settled_nlSend_iff pidt (skb.pull_id 2) fresh
  · have unknown : ¬ ToUser env n h skb := by
      rintro (h | h | h | ⟨h, -⟩)
      exacts [interest h, announced h, injected h, data h]
    rw [rxFrame, if_neg interest, if_neg data, if_neg notDack, if_neg announced, if_neg injected]
    exact ⟨fun _ => .inl unknown, fun _ => settled_free fresh⟩

end Frames

/-! ## DACKs -/

namespace DackLoop

variable (env : Env) (seq round : Nat)

/-- If `le` is answered: a slot that passes the test holds a copy, and there is a
transmit frame for the new copy; a slot that fails it comes before any copy, or
after one that failed. -/
structure Served (s : DackLoop) (le : Nat) : Prop where
  copy : le < seq → s.vmact.answers seq round le = true → s.counter < maxretx →
    s.vmact.slotTest le = true → (s.vmact.retransmissionBuffer (slotIndex le)).isSome ∧
      (env.copyOk s.counter = true → env.xmitOk s.sends = true)
  empty : le < seq → s.vmact.answers seq round le = true → s.counter < maxretx →
    s.vmact.slotTest le = false → s.skb2 = none

/-- Each copy made so far has been released once, and nothing else has. -/
structure Even (s : DackLoop) : Prop where
  once : ∀ id, freed id s.outs = allocated id s.outs
  new : ∀ id, allocated id s.outs ≤ 1
  range : ∀ id, 0 < allocated id s.outs → env.base ≤ id ∧ id < env.base + s.counter
  tame : ∀ pointer, .freeWild pointer ∉ s.outs
  runs : .oops ∉ s.outs

variable {env seq round} {s : DackLoop} {le : Nat}

theorem turn_even (even : Even env s) (served : Served env seq round s le) :
    Even env (turn env seq round s le) := by
  unfold turn
  split
  · rename_i asked
    obtain ⟨below, asked, more⟩ := asked
    cases test : s.vmact.slotTest le with
    | false =>
        -- nothing was copied that could be sent
        have none := served.empty below asked more test
        have same : (s.answer env round le).outs = s.outs ∧
            (s.answer env round le).counter = s.counter := by
          simp [answer, copySlot, test, sendCopy, none]
        obtain ⟨outs, counter⟩ := same
        refine ⟨?_, ?_, ?_, ?_, ?_⟩ <;> simp only [outs, counter]
        exacts [even.once, even.new, even.range, even.tame, even.runs]
    | true =>
        obtain ⟨held, sent⟩ := served.copy below asked more test
        obtain ⟨skb, slot⟩ := Option.isSome_iff_exists.mp held
        cases copied : env.copyOk s.counter with
        | false =>
            have same : (s.answer env round le).outs = s.outs ∧
                (s.answer env round le).counter = s.counter + 1 := by
              simp [answer, copySlot, test, slot, copied, sendCopy]
            obtain ⟨outs, counter⟩ := same
            refine ⟨?_, ?_, ?_, ?_, ?_⟩ <;> simp only [outs, counter]
            · exact even.once
            · exact even.new
            · intro id pos
              have := even.range id pos
              omega
            · exact even.tame
            · exact even.runs
        | true =>
            have xmit := sent copied
            have same : (s.answer env round le).outs = s.outs ++ ([.alloc (env.base + s.counter)] ++
                  vmacLowTx env s.sends ⟨env.base + s.counter, skb.data⟩) ∧
                (s.answer env round le).counter = s.counter + 1 := by
              simp [answer, copySlot, test, slot, copied, sendCopy, vmacSendHack]
            obtain ⟨outs, counter⟩ := same
            have unused : allocated (env.base + s.counter) s.outs = 0 := by
              by_contra used
              have := even.range _ (Nat.pos_of_ne_zero used)
              omega
            refine ⟨?_, ?_, ?_, ?_, ?_⟩ <;> simp only [outs, counter]
            · intro id
              simp only [freed_append, allocated_append, freed_alloc, allocated_alloc,
                freed_vmacLowTx, allocated_vmacLowTx, xmit, true_and, even.once id]
              omega
            · intro id
              simp only [allocated_append, allocated_alloc, allocated_vmacLowTx]
              have := even.new id
              split
              · rename_i here
                subst here
                omega
              · omega
            · intro id pos
              simp only [allocated_append, allocated_alloc, allocated_vmacLowTx] at pos
              by_cases here : env.base + s.counter = id
              · omega
              · rw [if_neg here] at pos
                have := even.range id (by omega)
                omega
            · intro pointer member
              simp only [vmacLowTx, xmitMo, xmit, if_true, List.mem_append, List.mem_cons,
                List.not_mem_nil, or_false, reduceCtorEq] at member
              exact even.tame pointer member
            · intro member
              simp only [vmacLowTx, xmitMo, xmit, if_true, List.mem_append, List.mem_cons,
                List.not_mem_nil, or_false, reduceCtorEq] at member
              exact even.runs member
  · exact even

theorem turns_even {les : List Nat} (even : Even env s)
    (served : ∀ done le, done ++ [le] <+: les →
      Served env seq round (done.foldl (turn env seq round) s) le) :
    Even env (les.foldl (turn env seq round) s) := by
  induction les generalizing s with
  | nil => exact even
  | cons le les ih =>
      have first := served [] le (List.prefix_append [le] les)
      exact ih (turn_even even first) fun done le' pre =>
        served (le :: done) le' ((List.prefix_cons_inj le).mpr pre)

end DackLoop

/-- Every number the DACK covers is served. -/
def DackServed (env : Env) (t : EncodingTx) (data : List UInt8) : Prop :=
  ∀ done le, done ++ [le] <+: covered (readDack env.past data).holes →
    DackLoop.Served env t.seq (readDack env.past data).round
      (done.foldl (DackLoop.turn env t.seq (readDack env.past data).round) (.start t)) le

theorem answerDack_even {env : Env} {t : EncodingTx} {data : List UInt8}
    (served : DackServed env t data) : DackLoop.Even env (answerDack env t data) := by
  rw [answerDack, DackLoop.holesLoop_eq]
  refine DackLoop.turns_even ⟨fun _ => rfl, fun _ => Nat.zero_le 1, fun id pos => ?_, ?_, ?_⟩ served
  · exact absurd pos (Nat.lt_irrefl 0)
  · exact fun _ => List.not_mem_nil
  · exact List.not_mem_nil

theorem rxFrame_settled_dack {env : Env} (pidt : Int) (n : Entries) {h : VmacHdr} (skb : Skb)
    (dack : h.type = vmacHdrDack) (fresh : FreshBuffers env skb.id (pendingId n.rx))
    (served : ∀ t, n.tx = some t → DackServed env t skb.data) :
    Settled skb.id (pendingId n.rx) (pendingId (rxFrame env pidt n h skb).1.rx)
      (rxFrame env pidt n h skb).2 := by
  rw [rxFrame, if_neg (by rw [dack]; decide), if_neg (by rw [dack]; decide), if_pos dack]
  cases found : n.tx with
  | none => exact settled_free fresh
  | some t =>
      have even := answerDack_even (served t found)
      have unused : ∀ id, id < env.base → allocated id (answerDack env t skb.data).outs = 0 := by
        intro id older
        by_contra used
        have := even.range id (Nat.pos_of_ne_zero used)
        omega
      have count : ∀ id, freed id ((answerDack env t skb.data).outs ++ [.free skb.id]) =
          allocated id (answerDack env t skb.data).outs + if skb.id = id then 1 else 0 := by
        intro id
        rw [freed_append, freed_free, even.once]
      have made : ∀ id, allocated id ((answerDack env t skb.data).outs ++ [.free skb.id]) =
          allocated id (answerDack env t skb.data).outs := by
        intro id
        rw [allocated_append, allocated_free, Nat.add_zero]
      have below := fresh.received
      refine ⟨?_, ?_, ?_, ?_, ?_, ?_⟩
      · rw [count, unused _ below, if_pos rfl]
      · intro id pos
        rw [made] at pos
        have new := even.range id pos
        have one := even.new id
        left
        rw [count, if_neg (by omega)]
        refine ⟨by omega, fun waits => ?_⟩
        have := (fresh.waiting id waits).1
        omega
      · intro id waits
        obtain ⟨older, other⟩ := fresh.waiting id waits
        right
        rw [count, unused id older, if_neg other.symm]
        exact ⟨rfl, waits⟩
      · intro id pos
        rw [count] at pos
        by_cases here : skb.id = id
        · exact .inl here.symm
        · rw [if_neg here] at pos
          right; left
          rw [made]
          exact pos
      · intro pointer member
        rcases List.mem_append.mp member with old | last
        · exact even.tame pointer old
        · simp at last
      · intro member
        rcases List.mem_append.mp member with old | last
        · exact even.runs old
        · simp at last

/-! ## Every frame -/

theorem rxFrame_rx (env : Env) (pidt : Int) (n : Entries) (h : VmacHdr) (skb : Skb) :
    (rxFrame env pidt n h skb).1.rx.isSome = n.rx.isSome := by
  unfold rxFrame
  split
  · rfl
  split
  · split
    · rfl
    · rename_i e found
      rw [found]
      rfl
  split
  · split <;> rfl
  split
  · rfl
  split
  · rfl
  · rfl

/-- The entry of the frame's encoding after the call. -/
theorem findRx_vmacRx (hash : Enc → Bucket) (env : Env) (w : World) (skb : Skb) :
    findRx hash (vmacRx hash env w skb).1 (readHdr env.past skb.data).enc =
      (rxFrame env w.pidt (w.found hash (readHdr env.past skb.data).enc)
        (readHdr env.past skb.data) (skb.pull 9)).1.rx := by
  have present := rxFrame_rx env w.pidt (w.found hash (readHdr env.past skb.data).enc)
    (readHdr env.past skb.data) (skb.pull 9)
  show Chain.lastIn hash (Chain.write hash EncodingRx.key w.rxEnc _ (findRx hash w _) _) _ = _
  cases found : findRx hash w (readHdr env.past skb.data).enc with
  | none =>
      rw [World.found, found] at present
      have none := Option.isSome_eq_false_iff.mp present
      rw [World.found, found, Option.isNone_iff_eq_none.mp none]
      exact found
  | some e =>
      rw [World.found, found] at present
      obtain ⟨e', after⟩ := Option.isSome_iff_exists.mp present
      rw [World.found, found, after]
      exact Chain.lastIn_replace ..

/-- For every frame and every state with fresh buffers: a frame that is not a DACK
settles its buffers exactly when it does not go to userspace, or goes there with no
process registered and an unset pointer that is NULL; a DACK settles its buffers
when each number it covers is served. -/
theorem skb_ownership (hash : Enc → Bucket) (env : Env) (w : World) (skb : Skb)
    (fresh : FreshBuffers env skb.id
      (pendingId (findRx hash w (readHdr env.past skb.data).enc))) :
    ((readHdr env.past skb.data).type ≠ vmacHdrDack →
      (Settled skb.id (pendingId (findRx hash w (readHdr env.past skb.data).enc))
          (pendingId (findRx hash (vmacRx hash env w skb).1 (readHdr env.past skb.data).enc))
          (vmacRx hash env w skb).2 ↔
        ¬ ToUser env (w.found hash (readHdr env.past skb.data).enc) (readHdr env.past skb.data)
            (skb.pull 9) ∨
          Silent env w.pidt ∧ ¬ Traps env (w.found hash (readHdr env.past skb.data).enc)
            (readHdr env.past skb.data) (skb.pull 9))) ∧
    ((readHdr env.past skb.data).type = vmacHdrDack →
      (∀ t, findTx hash w (readHdr env.past skb.data).enc = some t →
        DackServed env t (skb.pull 9).data) →
      Settled skb.id (pendingId (findRx hash w (readHdr env.past skb.data).enc))
        (pendingId (findRx hash (vmacRx hash env w skb).1 (readHdr env.past skb.data).enc))
        (vmacRx hash env w skb).2) := by
  rw [findRx_vmacRx]
  constructor
  · intro notDack
    exact rxFrame_settled_iff w.pidt (w.found hash _) (skb.pull 9) notDack fresh
  · intro dack served
    exact rxFrame_settled_dack w.pidt (w.found hash _) (skb.pull 9) dack fresh served

/-- An interest frame of four bytes, and a DACK that asks for frame 0. -/
def interestFrame : Skb := ⟨0, VmacHdr.bytes ⟨7, vmacHdrInterest⟩ ++ [1, 2, 3, 4]⟩

def dackFrameZero : Skb :=
  ⟨0, VmacHdr.bytes ⟨7, vmacHdrDack⟩ ++ VmacDack.bytes ⟨1, [⟨0, 1⟩]⟩⟩

/-- A producer that has sent frame 0 and kept its copy. -/
def sentOne : EncodingTx :=
  { EncodingTx.zero 7 with
    seq := 1
    retransmissionBuffer := fun i => if i = 0 then some ⟨0, []⟩ else none }

theorem sentOne_served : DackServed .quiet sentOne (dackFrameZero.pull 9).data := by
  intro done le pre
  have covers : covered (readDack Env.quiet.past (dackFrameZero.pull 9).data).holes = [0] := by
    decide
  rw [covers] at pre
  have length := pre.length_le
  rw [List.length_append, List.length_singleton, List.length_singleton] at length
  have first : done = [] := List.eq_nil_of_length_eq_zero (by omega)
  subst first
  have zero : le = 0 := List.mem_singleton.mp (pre.subset (List.mem_singleton_self le))
  subst zero
  exact ⟨fun _ _ _ _ => ⟨rfl, fun _ => rfl⟩, by decide⟩

/-- Without a process an interest frame is settled, and so is a DACK that is answered. -/
theorem skb_ownership_two :
    Settled 0 none none (vmacRx oneBucket .quiet .init interestFrame).2 ∧
      Settled 0 none none (vmacRx oneBucket .quiet (.publishing sentOne) dackFrameZero).2 := by
  have nothing : ∀ id, (none : Option Nat) = some id → id < Env.quiet.base ∧ id ≠ 0 :=
    fun id waits => nomatch waits
  constructor
  · refine ((skb_ownership oneBucket .quiet .init interestFrame ⟨by decide, nothing⟩).1
      (by decide)).mpr (.inr ⟨⟨rfl, rfl⟩, ?_⟩)
    rintro ⟨data, -⟩
    exact absurd data (by decide)
  · refine (skb_ownership oneBucket .quiet (.publishing sentOne) dackFrameZero
      ⟨by decide, nothing⟩).2 (by decide) fun t found => ?_
    have same : sentOne = t := Option.some.inj found
    exact same ▸ sentOne_served

/-- With process 100 registered the message of an interest frame, buffer 2, is
released twice. -/
theorem message_released_twice :
    freed 2 (vmacRx oneBucket .quiet { World.init with pidt := 100 } interestFrame).2 = 2 ∧
      ¬ Settled 0 none none
        (vmacRx oneBucket .quiet { World.init with pidt := 100 } interestFrame).2 := by
  have twice : freed 2 (vmacRx oneBucket .quiet { World.init with pidt := 100 } interestFrame).2 =
    2 := by decide
  refine ⟨twice, fun settled => ?_⟩
  rcases settled.made 2 (by decide) with ⟨once, -⟩ | ⟨never, -⟩ <;> omega

end Vmac.Core
