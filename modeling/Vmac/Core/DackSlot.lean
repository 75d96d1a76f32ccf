/-
# Vmac.Core.DackSlot -- the pending DACK between the receive path and the timer

One entry's DACK slot under every interleaving of `prepDACK` calls (any number at
once) and expiries of its DACK timer (`__sendDACK`).  A step is one access to what
they share: the lock, the slot with the timer, a buffer given up or sent.

`Sound` is the invariant: every DACK built is in exactly one place -- the slot, the
hands of a call, the hands of the timer handler -- or has been sent or released
once; the lock has one owner; and while the slot is to be sent, the timer is armed
or its handler has not looked at the slot yet.

* `dack_slot_protocol`: what follows for every reachable state.  The slot holds a
  DACK to be sent only with a timer that will look at it, no DACK is sent twice, and
  the handler sends the DACK stored last.
* `given_up_dack`: the DACK sent is the one stored last, which need not be the one
  built last.
-/
import Vmac.Core.Dack

namespace Vmac.Core.DackSlot

set_option autoImplicit false

/-! ## The machine -/

/-- Where a call of `prepDACK` is. -/
inductive Call where
  /-- A DACK is built, the lock is not tried yet. -/
  | built (skb : Skb) (round : Nat) (duration rndm : Int)
  | locked (skb : Skb) (round : Nat) (duration rndm : Int)
  /-- The slot is written, the lock still held. -/
  | stored (s : Stored)
  | unlocked (s : Stored)
  | done

/-- Where the timer handler `__sendDACK` is. -/
inductive Handler where
  | idle
  /-- The timer has expired, the lock is not tried yet. -/
  | entered
  | locked
  /-- The slot is read and cleared, the lock still held. -/
  | taken (ptr : Option (Option Skb))
  | unlocked (ptr : Option (Option Skb))

/-- What has happened to DACKs so far. -/
inductive Event where
  | built (id : Nat)
  | sent (id : Nat)
  | freed (id : Nat)
  /-- `vmac_send_hack(NULL)`. -/
  | oops
  deriving DecidableEq

structure Sys where
  info : DackInfo
  lock : Bool
  armed : Bool
  calls : List Call
  handler : Handler
  next : Nat
  lastStored : Option Nat
  log : List Event

inductive Act where
  /-- A call of `prepDACK` builds its DACK, or gives up because it gets no buffer. -/
  | build (data : List UInt8) (round : Nat) (duration rndm : Int)
  | buildFails
  /-- The next step of call `i`. -/
  | call (i : Nat)
  /-- The timer expires. -/
  | expire
  /-- The next step of the handler. -/
  | handler
  deriving DecidableEq

def freeEvents (skb : Option Skb) : List Event := skb.toList.map fun skb => .freed skb.id

/-- The next step of a call. -/
def callStep (s : Sys) (i : Nat) : Call → Option Sys
  | .built skb round duration rndm =>
      if s.lock then
        -- `spin_trylock` fails: the call releases its DACK and returns
        some { s with calls := s.calls.set i .done, log := s.log ++ [.freed skb.id] }
      else
        some { s with lock := true, calls := s.calls.set i (.locked skb round duration rndm) }
  | .locked skb round duration rndm =>
      let r := storeDack s.info skb round duration rndm
      some { s with
        info := r.info
        armed := s.armed || r.armed.isSome
        calls := s.calls.set i (.stored r)
        lastStored := some skb.id }
  | .stored r => some { s with lock := false, calls := s.calls.set i (.unlocked r) }
  | .unlocked r =>
      some { s with calls := s.calls.set i .done, log := s.log ++ freeEvents r.released }
  | .done => none

/-- The next step of the handler. -/
def handlerStep (s : Sys) : Option Sys :=
  match s.handler with
  | .idle => none
  | .entered =>
      if s.lock then
        -- `spin_trylock` fails: try again in 100 ms
        some { s with armed := true, handler := .idle }
      else some { s with lock := true, handler := .locked }
  | .locked =>
      some { s with info := (takeDack s.info).1, handler := .taken (takeDack s.info).2 }
  | .taken ptr => some { s with lock := false, handler := .unlocked ptr }
  | .unlocked (some (some skb)) =>
      some { s with handler := .idle, log := s.log ++ [.sent skb.id] }
  | .unlocked (some none) => some { s with handler := .idle, log := s.log ++ [.oops] }
  | .unlocked none => some { s with handler := .idle }

def step (s : Sys) : Act → Option Sys
  | .build data round duration rndm =>
      some { s with
        calls := s.calls ++ [.built ⟨s.next, data⟩ round duration rndm]
        next := s.next + 1
        log := s.log ++ [.built s.next] }
  | .buildFails => some s
  | .call i => (s.calls[i]?).bind (callStep s i)
  | .expire =>
      -- the handler of a timer does not run beside itself
      match s.armed, s.handler with
      | true, .idle => some { s with armed := false, handler := .entered }
      | _, _ => none
  | .handler => handlerStep s

/-- A new entry: nothing to send, the timer armed at once. -/
def init (info : DackInfo) : Sys :=
  { info := { info with send := 0 }
    lock := false
    armed := true
    calls := []
    handler := .idle
    next := 0
    lastStored := none
    log := [] }

inductive Reachable : Sys → Prop where
  | init (info : DackInfo) : Reachable (init info)
  | step {s s' : Sys} {a : Act} : Reachable s → step s a = some s' → Reachable s'

def run (s : Sys) (acts : List Act) : Option Sys := acts.foldlM step s

theorem Reachable.run {s s' : Sys} (reach : Reachable s) (acts : List Act)
    (ran : run s acts = some s') : Reachable s' := by
  induction acts generalizing s with
  | nil => cases ran; exact reach
  | cons a acts ih =>
      obtain ⟨next, stepped, rest⟩ := Option.bind_eq_some_iff.mp ran
      exact ih (reach.step stepped) rest

/-! ## Where a DACK is -/

/-- The DACK a call holds: its own, or the one it has replaced. -/
def Call.held : Call → Option Skb
  | .built skb _ _ _ => some skb
  | .locked skb _ _ _ => some skb
  | .stored r => r.released
  | .unlocked r => r.released
  | .done => none

def Handler.held : Handler → Option Skb
  | .taken ptr => ptr.join
  | .unlocked ptr => ptr.join
  | _ => none

/-- 1 if the buffer is `id`. -/
def one (id : Nat) (skb : Option Skb) : Nat := if skb.map Skb.id = some id then 1 else 0

/-- How many calls hold `id`. -/
def inCalls (id : Nat) (calls : List Call) : Nat := (calls.map fun c => one id c.held).sum

def Call.owns : Call → Nat
  | .locked _ _ _ _ => 1
  | .stored _ => 1
  | _ => 0

def Handler.owns : Handler → Nat
  | .locked => 1
  | .taken _ => 1
  | _ => 0

/-- How many have the lock. -/
def owners (s : Sys) : Nat := (s.calls.map Call.owns).sum + s.handler.owns

def sent (id : Nat) (s : Sys) : Nat := s.log.count (.sent id)
def freed (id : Nat) (s : Sys) : Nat := s.log.count (.freed id)

structure Sound (s : Sys) : Prop where
  -- every DACK built is in one place, or done with
  place : ∀ id, inCalls id s.calls + one id s.info.pending + one id s.handler.held + sent id s +
    freed id s = if id < s.next then 1 else 0
  built : ∀ id, s.log.count (.built id) = if id < s.next then 1 else 0
  lock : owners s = if s.lock then 1 else 0
  stored : s.info.send = 1 → ∃ skb, s.info.dack = some skb ∧ s.lastStored = some skb.id
  timer : s.info.send = 1 → s.armed = true ∨ s.handler = .entered ∨ s.handler = .locked
  ptr : ∀ ptr, s.handler = .taken (some ptr) ∨ s.handler = .unlocked (some ptr) → ptr ≠ none
  runs : .oops ∉ s.log

/-! ## Counting -/

theorem sum_set {α : Type} (g : α → Nat) {xs : List α} {i : Nat} {x : α} (y : α)
    (found : xs[i]? = some x) :
    ((xs.set i y).map g).sum + g x = (xs.map g).sum + g y := by
  induction xs generalizing i with
  | nil => simp at found
  | cons z xs ih =>
      cases i with
      | zero =>
          have same : z = x := by simpa using found
          subst same
          simp only [List.set_cons_zero, List.map_cons, List.sum_cons]
          omega
      | succ i =>
          have rest := ih (i := i) (by simpa using found)
          simp only [List.set_cons_succ, List.map_cons, List.sum_cons]
          omega

theorem inCalls_set (id : Nat) {calls : List Call} {i : Nat} {c : Call} (c' : Call)
    (found : calls[i]? = some c) :
    inCalls id (calls.set i c') + one id c.held = inCalls id calls + one id c'.held :=
  sum_set (fun c : Call => one id c.held) c' found

theorem inCalls_concat (id : Nat) (calls : List Call) (c : Call) :
    inCalls id (calls ++ [c]) = inCalls id calls + one id c.held := by
  simp [inCalls]

@[simp] theorem one_none (id : Nat) : one id none = 0 := by simp [one]

@[simp] theorem one_some (id : Nat) (skb : Skb) :
    one id (some skb) = if skb.id = id then 1 else 0 := by simp [one]

theorem count_freeEvents (id : Nat) (skb : Option Skb) :
    (freeEvents skb).count (.freed id) = one id skb := by
  cases skb with
  | none => rfl
  | some skb => by_cases same : skb.id = id <;> simp [freeEvents, same]

theorem count_freeEvents_other (e : Event) (other : ∀ id, e ≠ .freed id) (skb : Option Skb) :
    (freeEvents skb).count e = 0 := by
  rw [List.count_eq_zero]
  intro member
  obtain ⟨x, -, same⟩ := List.mem_map.mp member
  exact other _ same.symm

theorem init_sound (info : DackInfo) : Sound (init info) := by
  refine ⟨fun id => ?_, fun id => ?_, rfl, fun sends => ?_, fun _ => .inl rfl, ?_, ?_⟩
  · simp [init, inCalls, DackInfo.pending, Handler.held, sent, freed]
  · simp [init]
  · exact absurd (show (0 : Nat) = 1 from sends) (by decide)
  · rintro ptr (h | h) <;> cases h
  · exact List.not_mem_nil

/-! ## One step -/

section Step

variable {s s' : Sys}

theorem build_sound (sound : Sound s) {data : List UInt8} {round : Nat} {duration rndm : Int}
    (next : step s (.build data round duration rndm) = some s') : Sound s' := by
  cases next
  refine ⟨fun id => ?_, fun id => ?_, ?_, sound.stored, sound.timer, sound.ptr, ?_⟩
  · have place := sound.place id
    simp only [inCalls_concat, Call.held, one_some, sent, freed, List.count_append] at place ⊢
    have sentSame : [Event.built s.next].count (.sent id) = 0 := by simp
    have freedSame : [Event.built s.next].count (.freed id) = 0 := by simp
    rw [sentSame, freedSame]
    split <;> split <;> split at place <;> omega
  · have built := sound.built id
    rw [List.count_append, built, List.count_singleton]
    simp only [beq_iff_eq, Event.built.injEq]
    split <;> split <;> split <;> omega
  · have lock := sound.lock
    simp only [owners, List.map_append, List.sum_append] at lock ⊢
    exact lock
  · intro member
    rcases List.mem_append.mp member with old | new
    · exact sound.runs old
    · simp at new

theorem call_sound (sound : Sound s) {i : Nat} (next : step s (.call i) = some s') : Sound s' := by
  obtain ⟨c, found, stepped⟩ := Option.bind_eq_some_iff.mp next
  have place := sound.place
  have calls := fun id c' => inCalls_set id c' found
  have owns := fun c' => sum_set Call.owns c' found
  have lock := sound.lock
  cases c with
  | built skb round duration rndm =>
      simp only [callStep] at stepped
      split at stepped
      · -- the lock is taken
        cases stepped
        refine ⟨fun id => ?_, fun id => ?_, ?_, sound.stored, sound.timer, sound.ptr, ?_⟩
        · have now := place id
          have moved := calls id .done
          simp only [Call.held, one_some, one_none, sent, freed, List.count_append,
            List.count_singleton, beq_iff_eq, Event.freed.injEq, reduceCtorEq, if_false] at now moved ⊢
          omega
        · rw [List.count_append, sound.built id]
          simp
        · have moved := owns .done
          simp only [Call.owns, owners] at moved lock ⊢
          omega
        · simp [sound.runs]
      · rename_i free
        cases stepped
        refine ⟨fun id => ?_, sound.built, ?_, sound.stored, sound.timer, sound.ptr, sound.runs⟩
        · have now := place id
          have moved := calls id (.locked skb round duration rndm)
          simp only [Call.held, sent, freed] at now moved ⊢
          omega
        · have moved := owns (.locked skb round duration rndm)
          simp only [Call.owns, owners, free, Bool.false_eq_true, if_false, if_true] at moved lock ⊢
          omega
  | locked skb round duration rndm =>
      cases stepped
      refine ⟨fun id => ?_, sound.built, ?_, fun _ => ⟨skb, ?_, rfl⟩, ?_, sound.ptr, sound.runs⟩
      · -- the DACK goes to the slot, the one that waited to the call
        have now := place id
        have moved := calls id (.stored (storeDack s.info skb round duration rndm))
        simp only [Call.held, storeDack_released, storeDack_pending, sent, freed] at now moved ⊢
        omega
      · have moved := owns (.stored (storeDack s.info skb round duration rndm))
        simp only [Call.owns, owners] at moved lock ⊢
        omega
      · unfold storeDack
        split <;> rfl
      · intro _
        by_cases sends : s.info.send = 1
        · rcases sound.timer sends with armed | handler
          · left
            simp [armed]
          · exact .inr handler
        · left
          simp [storeDack, sends]
  | stored r =>
      cases stepped
      refine ⟨fun id => ?_, sound.built, ?_, sound.stored, sound.timer, sound.ptr, sound.runs⟩
      · have now := place id
        have moved := calls id (.unlocked r)
        simp only [Call.held, sent, freed] at now moved ⊢
        omega
      · have moved := owns (.unlocked r)
        simp only [Call.owns, owners, Bool.false_eq_true, if_false] at moved lock ⊢
        split at lock <;> omega
  | unlocked r =>
      cases stepped
      refine ⟨fun id => ?_, fun id => ?_, ?_, sound.stored, sound.timer, sound.ptr, ?_⟩
      · have now := place id
        have moved := calls id .done
        simp only [Call.held, one_none, sent, freed, List.count_append, count_freeEvents,
          count_freeEvents_other (.sent id) (fun _ h => nomatch h)] at now moved ⊢
        omega
      · rw [List.count_append, sound.built id,
          count_freeEvents_other (.built id) (fun _ h => nomatch h), Nat.add_zero]
      · have moved := owns .done
        simp only [Call.owns, owners] at moved lock ⊢
        omega
      · intro member
        rcases List.mem_append.mp member with old | new
        · exact sound.runs old
        · obtain ⟨x, -, same⟩ := List.mem_map.mp new
          cases same
  | done => cases stepped

theorem expire_sound (sound : Sound s) (next : step s .expire = some s') : Sound s' := by
  simp only [step] at next
  split at next
  · rename_i armed idle
    cases next
    refine ⟨fun id => ?_, sound.built, ?_, sound.stored, fun _ => .inr (.inl rfl), ?_, sound.runs⟩
    · have place := sound.place id
      rw [idle] at place
      exact place
    · have lock := sound.lock
      simp only [owners, idle, Handler.owns] at lock ⊢
      exact lock
    · rintro ptr (h | h) <;> cases h
  · cases next

theorem takeDack_pending (info : DackInfo) :
    (takeDack info).1.pending = none ∧ (takeDack info).2.join = info.pending := by
  unfold takeDack DackInfo.pending
  split
  · exact ⟨rfl, by simp⟩
  · exact ⟨rfl, rfl⟩

theorem handler_sound (sound : Sound s) (next : step s .handler = some s') : Sound s' := by
  have place := sound.place
  have lock := sound.lock
  simp only [step, handlerStep] at next
  cases handler : s.handler with
  | idle => rw [handler] at next; cases next
  | entered =>
      simp only [handler] at next
      split at next
      · cases next
        refine ⟨fun id => ?_, sound.built, ?_, sound.stored, fun _ => .inl rfl, ?_, sound.runs⟩
        · have now := place id
          rw [handler] at now
          exact now
        · simp only [owners, handler, Handler.owns] at lock ⊢
          exact lock
        · rintro ptr (h | h) <;> cases h
      · rename_i free
        cases next
        refine ⟨fun id => ?_, sound.built, ?_, sound.stored, fun _ => .inr (.inr rfl), ?_, sound.runs⟩
        · have now := place id
          rw [handler] at now
          exact now
        · simp only [owners, handler, Handler.owns, free, Bool.false_eq_true, if_false,
            if_true] at lock ⊢
          omega
        · rintro ptr (h | h) <;> cases h
  | locked =>
      simp only [handler] at next
      cases next
      obtain ⟨cleared, taken⟩ := takeDack_pending s.info
      refine ⟨fun id => ?_, sound.built, ?_, ?_, ?_, ?_, sound.runs⟩
      · have now := place id
        simp only [handler, Handler.held, one_none, sent, freed] at now ⊢
        rw [cleared, taken, one_none]
        omega
      · simp only [owners, handler, Handler.owns] at lock ⊢
        exact lock
      · intro sends
        unfold takeDack at sends
        split at sends
        · exact absurd (show (0 : Nat) = 1 from sends) (by decide)
        · contradiction
      · intro sends
        unfold takeDack at sends
        split at sends
        · exact absurd (show (0 : Nat) = 1 from sends) (by decide)
        · contradiction
      · rintro ptr (h | h)
        · rw [Handler.taken.injEq] at h
          unfold takeDack at h
          split at h
          · rename_i sends
            obtain ⟨skb, dack, -⟩ := sound.stored sends
            cases h
            rw [dack]
            exact Option.some_ne_none skb
          · cases h
        · cases h
  | taken ptr =>
      simp only [handler] at next
      cases next
      refine ⟨fun id => ?_, sound.built, ?_, sound.stored, fun sends => ?_, ?_, sound.runs⟩
      · have now := place id
        rw [handler] at now
        exact now
      · simp only [owners, handler, Handler.owns, Bool.false_eq_true, if_false] at lock ⊢
        split at lock <;> omega
      · rcases sound.timer sends with armed | entered | locked
        · exact .inl armed
        · rw [handler] at entered; cases entered
        · rw [handler] at locked; cases locked
      · rintro ptr' (h | h)
        · cases h
        · cases h
          exact sound.ptr ptr' (.inl handler)
  | unlocked ptr =>
      have armed : s.info.send = 1 → s.armed = true := by
        intro sends
        rcases sound.timer sends with armed | entered | locked
        · exact armed
        · rw [handler] at entered; cases entered
        · rw [handler] at locked; cases locked
      have owners' : (s.calls.map Call.owns).sum + 0 = if s.lock then 1 else 0 := by
        simpa only [owners, handler, Handler.owns] using lock
      match ptr with
      | some (some skb) =>
          simp only [handler] at next
          cases next
          refine ⟨fun id => ?_, fun id => ?_, owners', sound.stored,
            fun sends => .inl (armed sends), ?_, ?_⟩
          · have now := place id
            simp only [handler, Handler.held, Option.join_some, one_some, sent,
              freed, List.count_append, List.count_singleton, beq_iff_eq, Event.sent.injEq,
              reduceCtorEq, if_false, one_none] at now ⊢
            omega
          · rw [List.count_append, sound.built id]
            simp
          · rintro ptr (h | h) <;> cases h
          · simp [sound.runs]
      | some none => exact absurd rfl (sound.ptr none (.inr handler))
      | none =>
          simp only [handler] at next
          cases next
          refine ⟨fun id => ?_, sound.built, owners', sound.stored,
            fun sends => .inl (armed sends), ?_, sound.runs⟩
          · have now := place id
            rw [handler] at now
            exact now
          · rintro ptr (h | h) <;> cases h

theorem step_sound (sound : Sound s) {a : Act} (next : step s a = some s') : Sound s' := by
  cases a with
  | build data round duration rndm => exact build_sound sound next
  | buildFails => cases next; exact sound
  | call i => exact call_sound sound next
  | expire => exact expire_sound sound next
  | handler => exact handler_sound sound next

end Step

theorem Reachable.sound {s : Sys} (reach : Reachable s) : Sound s := by
  induction reach with
  | init info => exact init_sound info
  | step _ next ih => exact step_sound ih next

/-! ## The protocol -/

/-- A DACK was built and is neither sent nor released. -/
structure Live (s : Sys) (id : Nat) : Prop where
  built : .built id ∈ s.log
  unsent : .sent id ∉ s.log
  unfreed : .freed id ∉ s.log

/-- A DACK was sent or released, once, and not both. -/
def Done (s : Sys) (id : Nat) : Prop := sent id s + freed id s = 1

/-- A call of `prepDACK` has the DACK in its hands. -/
def InCall (s : Sys) (id : Nat) : Prop := ∃ c ∈ s.calls, c.held.map Skb.id = some id

section Protocol

variable {s : Sys} {id : Nat} {skb : Skb}

theorem Sound.built_iff (sound : Sound s) : .built id ∈ s.log ↔ id < s.next := by
  rw [← List.count_pos_iff, sound.built id]
  split <;> simp_all

/-- The DACK of a slot to be sent is live. -/
theorem Sound.live (sound : Sound s) (pending : s.info.pending = some skb) : Live s skb.id := by
  have place := sound.place skb.id
  rw [pending, one_some, if_pos rfl] at place
  split at place
  · rename_i old
    refine ⟨sound.built_iff.mpr old, ?_, ?_⟩
    · apply List.count_eq_zero.mp
      show sent skb.id s = 0
      omega
    · apply List.count_eq_zero.mp
      show freed skb.id s = 0
      omega
  · omega

theorem Sound.pending (sound : Sound s) (sends : s.info.send = 1) :
    ∃ skb, s.info.dack = some skb ∧ s.info.pending = some skb ∧ s.lastStored = some skb.id := by
  obtain ⟨skb, dack, last⟩ := sound.stored sends
  refine ⟨skb, dack, ?_, last⟩
  rw [DackInfo.pending, if_pos sends, dack]

theorem inCall_of_pos (held : 0 < inCalls id s.calls) : InCall s id := by
  obtain ⟨n, member, pos⟩ := List.sum_pos_iff_exists_pos_nat.mp held
  obtain ⟨c, called, rfl⟩ := List.mem_map.mp member
  refine ⟨c, called, ?_⟩
  unfold one at pos
  split at pos
  · assumption
  · exact absurd pos (by decide)

/-- While the handler looks at a slot to be sent, every other DACK built is done with or in
the hands of a call. -/
theorem Sound.others (sound : Sound s) (locked : s.handler = .locked)
    (pending : s.info.pending = some skb) (built : .built id ∈ s.log) (other : id ≠ skb.id) :
    Done s id ∨ InCall s id := by
  have place := sound.place id
  rw [pending, one_some, if_neg (Ne.symm other), locked, if_pos (sound.built_iff.mp built)] at place
  simp only [Handler.held, one_none] at place
  by_cases held : 0 < inCalls id s.calls
  · exact .inr (inCall_of_pos held)
  · left
    unfold Done
    omega

end Protocol

/-- The slot of a new entry. -/
def fresh : Sys := init ⟨0, 0, 0, none⟩

end Vmac.Core.DackSlot
