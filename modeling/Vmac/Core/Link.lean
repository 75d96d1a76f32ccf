/-
# Vmac.Core.Link -- a producer, a receiver and a lossless channel

Two nodes with tables of their own, one name, and the frames in the air between
them.  The producer sends data frames, the receiver's process sends interests, the
first frame in the air arrives, time passes, and an entry whose deadline has passed
may expire.  `lap` counts how often the producer has begun numbering at 0 -- with a
new entry, or after 65536 frames -- and `taken` is the lap of the frames the receiver
entry has taken.

* `Link.Inv`: the receiver entry is behind the frames in the air, and these are behind
  the next one (`Flying.mark`).
* `first_transmissions_pass`: as long as each frame finds the receiver entry and no
  frame of an earlier lap in it, all frames sent have been passed to `nl_send`, once
  and in order, or are still in the air.
* `restart_is_dropped`: a producer that begins again at 0 while the receiver entry
  lives loses its first frame.
-/
import Vmac.Core.Isolation
import Vmac.Core.Netlink
import Vmac.Core.WindowExact
import Mathlib.Data.Prod.Lex

namespace Vmac.Core

open Theory Theory.Bytes

set_option autoImplicit false

/-! ## The link -/

/-- A data frame in the air: its bytes, the lap it belongs to and its number. -/
structure Flying where
  frame : List UInt8
  lap : Nat
  seq : Nat
  deriving DecidableEq

structure Link where
  producer : World
  receiver : World
  air : List Flying
  now : Nat
  lap : Nat
  taken : Option Nat
  /-- All frames sent, and all frames `vmac_rx` has passed to `nl_send`. -/
  sent : List Flying
  passed : List Flying

inductive Act where
  | wait (n : Nat)
  /-- The receiver's process sends an interest. -/
  | interest (env : Env) (skb : Skb)
  /-- The producer's process sends a data frame. -/
  | data (env : Env) (skb : Skb)
  /-- The first frame in the air arrives, in buffer `id`, with its FCS. -/
  | arrive (env : Env) (id : Nat) (fcs : List UInt8)
  | expireRx
  | expireTx

/-- The frame as `vmac_rx` gets it: without the 802.11 header, with the FCS. -/
def delivered (id : Nat) (f : Flying) (fcs : List UInt8) : Skb := ⟨id, f.frame.drop 30 ++ fcs⟩

/-- Whether the DATA branch gets to `nl_send` with the entry. -/
def EncodingRx.passes (e : EncodingRx) (seq : Nat) : Bool :=
  match e.receive seq with
  | none => false
  | some e => !e.timeTraps seq

section

variable (hash : Enc → Bucket) (enc : Enc)

/-- What a call meets now. -/
def Link.env (s : Link) (env : Env) : Env := { env with jiffies := s.now }

/-- `vmact->seq` for the next data frame. -/
def Link.seq (s : Link) : Nat := (findTx hash s.producer enc).elim 0 EncodingTx.seq

/-- The lap of the next data frame. -/
def Link.lapNow (s : Link) : Nat := if s.seq hash enc = 0 then s.lap + 1 else s.lap

/-- The frame `f` reaches `vmac_rx`; `rest` stays in the air. -/
def Link.deliver (s : Link) (env : Env) (id : Nat) (fcs : List UInt8) (f : Flying)
    (rest : List Flying) : Link :=
  let entry := findRx hash s.receiver enc
  let skb := delivered id f fcs
  let env := s.env env
  let passes := entry.any fun e => (e.refresh env).passes (seqOf (env, skb))
  { s with
    receiver := (vmacRx hash env s.receiver skb).1
    air := rest
    taken := entry.map fun _ => f.lap
    passed := if passes then s.passed ++ [f] else s.passed }

def Link.step (s : Link) : Act → Option Link
  | .wait n => some { s with now := s.now + n }
  | .interest env skb =>
      some { s with
        receiver := (vmacTx hash (s.env env) s.receiver skb enc vmacHdrInterest 0).1 }
  | .data env skb =>
      let r := vmacTx hash (s.env env) s.producer skb enc vmacHdrData 0
      let new := (radios r.2).map fun frame => ⟨frame, s.lapNow hash enc, s.seq hash enc⟩
      some { s with
        producer := r.1
        air := s.air ++ new
        lap := s.lapNow hash enc
        sent := s.sent ++ new }
  | .arrive env id fcs =>
      match s.air with
      | [] => none
      | f :: rest => if fcs.length = 4 then some (s.deliver hash enc env id fcs f rest) else none
  | .expireRx =>
      match findRx hash s.receiver enc with
      | some e =>
          if e.encTimeout ≤ s.now then
            some { s with receiver := (cleanupRx hash s.receiver e).1, taken := none }
          else none
      | none => none
  | .expireTx =>
      match findTx hash s.producer enc with
      | some t =>
          if t.encTimeout ≤ s.now then
            some { s with producer := (cleanupTx hash s.producer t).1 }
          else none
      | none => none

/-- Two nodes with empty tables; a process is registered at the receiver. -/
def Link.start (pidt : Int) : Link :=
  { producer := World.init
    receiver := { World.init with pidt := pidt }
    air := []
    now := 0
    lap := 0
    taken := none
    sent := []
    passed := [] }

inductive Link.Run : Link → Prop where
  | start (pidt : Int) : Run (Link.start pidt)
  | step {s s' : Link} {a : Act} : Run s → s.step hash enc a = some s' → Run s'

/-- The frame that arrives finds the receiver entry, and in it only frames of its own
lap; and if it is the first one there and has number 0, slot 0 does not hold 1. -/
def Link.Meets (s : Link) : Act → Prop
  | .arrive _ _ _ => ∀ f ∈ s.air.head?, ∃ e, findRx hash s.receiver enc = some e ∧
      (s.taken = none ∨ s.taken = some f.lap) ∧
      (s.taken = none → f.seq = 0 → e.window 0 ≠ 1)
  | _ => True

/-- A run in which every step meets the condition. -/
inductive Link.Met : Link → Prop where
  | start (pidt : Int) : Met (Link.start pidt)
  | step {s s' : Link} {a : Act} : Met s → s.Meets hash enc a → s.step hash enc a = some s' → Met s'

end

/-! ## What the DATA branch does -/

section Data

variable (env : Env) (pidt : Int) (e : EncodingRx) (enc : Enc) (skb : Skb)

/-- `passes` is the branch of `rxData` that ends in `nl_send` ... -/
theorem rxData_passes (passes : (e.refresh env).passes (readSeq env.past skb.data) = true) :
    ∃ e', (e.refresh env).receive (readSeq env.past skb.data) = some e' ∧
      e'.timeTraps (readSeq env.past skb.data) = false ∧ ∃ asked, (rxData env pidt e enc skb).2 =
        asked ++ nlSend env pidt (skb.pull 2) enc vmacHdrData (readSeq env.past skb.data) := by
  unfold EncodingRx.passes at passes
  split at passes
  · cases passes
  · rename_i e' got
    have runs : e'.timeTraps (readSeq env.past skb.data) = false := by simpa using passes
    exact ⟨e', got, runs, _, rxData_run_outs env pidt e enc got runs⟩

/-- ... and the others drop the frame or trap. -/
theorem rxData_stops (stops : (e.refresh env).passes (readSeq env.past skb.data) = false) :
    (rxData env pidt e enc skb).2 = [.free skb.id] ∨ (rxData env pidt e enc skb).2 = [.oops] := by
  unfold EncodingRx.passes at stops
  split at stops
  · rename_i got
    exact .inl (rxData_drop_outs env pidt e enc got)
  · rename_i e' got
    have traps : e'.timeTraps (readSeq env.past skb.data) = true := by simpa using stops
    exact .inr (rxData_trap_outs env pidt e enc got traps)

theorem rxData_lastin (passes : (e.refresh env).passes (readSeq env.past skb.data) = true) :
    (rxData env pidt e enc skb).1.lastin = readSeq env.past skb.data := by
  obtain ⟨e', got, runs, -⟩ := rxData_passes env pidt e enc skb passes
  rw [rxData_run env pidt e enc got runs, requestRound_lastin]

/-- A frame above all the entry has seen is passed. -/
theorem passes_above {e : EncodingRx} {seq : Nat} (above : e.latest < seq)
    (once : e.firstFrame = 0 ∨ e.lastin = e.latest) : e.passes seq = true := by
  obtain ⟨e', got⟩ : ∃ e', e.receive seq = some e' := ⟨_, by rw [EncodingRx.receive, if_pos above]⟩
  have calm : e'.timeTraps seq = false := by
    obtain ⟨latest, window, rfl⟩ := receive_frame got
    apply decide_eq_false
    rintro ⟨first, -, last⟩
    rcases once with fresh | same
    · exact first fresh
    · have last' : seq = e.lastin := last
      omega
  simp only [EncodingRx.passes, got, calm, Bool.not_false]

/-- Frame 0 is passed by an entry that has seen none, unless its slot holds 1 by chance. -/
theorem passes_first {e : EncodingRx} (latest : e.latest = 0) (first : e.firstFrame = 0)
    (clear : e.window 0 ≠ 1) : e.passes 0 = true := by
  have got : e.receive 0 = some (e.markReceived 0) := by
    rw [EncodingRx.receive, if_neg (by omega), windowIndex_eq, Nat.zero_mod, if_neg clear]
  have calm : (e.markReceived 0).timeTraps 0 = false :=
    decide_eq_false fun traps => traps.1 first
  simp only [EncodingRx.passes, got, calm, Bool.not_false]

end Data

/-! ## Tables with one name -/

/-- Tables that hold entries of `enc` only. -/
structure Only (hash : Enc → Bucket) (enc : Enc) (w : World) : Prop where
  good : WellFormed hash w
  rx : ∀ i, ∀ e ∈ w.rxEnc i, e.key = enc
  tx : ∀ i, ∀ t ∈ w.txEnc i, t.key = enc

section Only

variable {hash : Enc → Bucket} {enc : Enc} {w : World}

theorem Only.init (pidt : Int) : Only hash enc { World.init with pidt := pidt } :=
  ⟨(Reachable.init pidt).wellFormed, fun _ _ h => (nomatch h), fun _ _ h => (nomatch h)⟩

/-- A call on the name leaves of the entries what it does to them. -/
theorem Only.step (only : Only hash enc w) {op : Op} (possible : Possible w op) (same : op.enc = enc) :
    Only hash enc (step hash w op).1 ∧
      (Core.step hash w op).1.found hash enc = (op.own w.pidt (w.found hash enc)).1 ∧
      (Core.step hash w op).2 = (op.own w.pidt (w.found hash enc)).2 := by
  have good := only.good.step possible
  have follows := op.own_follows w.pidt (w.found hash enc)
  rw [same] at follows
  have keyRx : ∀ e, (op.own w.pidt (w.found hash enc)).1.rx = some e → e.key = enc := by
    intro e left
    rw [(follows.rx e left).1]
    cases now : (w.found hash enc).rx with
    | none => rfl
    | some e₀ => exact only.rx _ e₀ (Chain.lastIn_mem now)
  have keyTx : ∀ t, (op.own w.pidt (w.found hash enc)).1.tx = some t → t.key = enc := by
    intro t left
    rw [(follows.tx t left).1]
    cases now : (w.found hash enc).tx with
    | none => rfl
    | some t₀ => exact only.tx _ t₀ (Chain.lastIn_mem now)
  rw [step_eq only.good possible, same] at good ⊢
  refine ⟨⟨good, fun i e member => ?_, fun i t member => ?_⟩, ?_, rfl⟩
  · rcases Chain.mem_write member with old | new
    · exact only.rx i e old
    · exact keyRx e new
  · rcases Chain.mem_write member with old | new
    · exact only.tx i t old
    · exact keyTx t new
  · apply congrArg₂ Entries.mk
    · exact Chain.lastIn_write w.rxEnc (only.good.rx.short _) fun e left =>
        congrArg hash (keyRx e left)
    · exact Chain.lastIn_write w.txEnc (only.good.tx.short _) fun t left =>
        congrArg hash (keyTx t left)

theorem Only.vmacTx (only : Only hash enc w) (env : Env) (skb : Skb) (type : UInt8) (seqtmp : Nat) :
    Only hash enc (Core.vmacTx hash env w skb enc type seqtmp).1 ∧
      (Core.vmacTx hash env w skb enc type seqtmp).1.found hash enc =
        (txFrame env (w.found hash enc) skb enc type seqtmp).1 ∧
      (Core.vmacTx hash env w skb enc type seqtmp).2 =
        (txFrame env (w.found hash enc) skb enc type seqtmp).2 :=
  only.step (show Possible w (.tx env skb enc type seqtmp) from trivial) rfl

theorem Only.cleanupRx (only : Only hash enc w) {e : EncodingRx} (found : findRx hash w enc = some e) :
    Only hash enc (cleanupRx hash w e).1 ∧ findRx hash (Core.cleanupRx hash w e).1 enc = none := by
  have member := Chain.lastIn_mem found
  obtain ⟨only', left, -⟩ := only.step (show Possible w (.timeoutRx e) from ⟨_, member⟩)
    (only.rx _ e member)
  exact ⟨only', congrArg Entries.rx left⟩

theorem Only.cleanupTx (only : Only hash enc w) {t : EncodingTx} (found : findTx hash w enc = some t) :
    Only hash enc (cleanupTx hash w t).1 ∧ findTx hash (Core.cleanupTx hash w t).1 enc = none := by
  have member := Chain.lastIn_mem found
  obtain ⟨only', left, -⟩ := only.step (show Possible w (.timeoutTx t) from ⟨_, member⟩)
    (only.tx _ t member)
  refine ⟨only', (congrArg Entries.tx left).trans ?_⟩
  simp only [Op.own, processEntries, World.found, found]

end Only

/-! ## The invariant -/

/-- Where a frame stands among all frames of the producer. -/
def Flying.mark (f : Flying) : Nat ×ₗ Nat := toLex (f.lap, f.seq)

section

variable (hash : Enc → Bucket) (enc : Enc)

/-- Where the next data frame will stand. -/
def Link.next (s : Link) : Nat ×ₗ Nat := toLex (s.lapNow hash enc, s.seq hash enc)

structure Link.Inv (s : Link) : Prop where
  producer : Only hash enc s.producer
  receiver : Only hash enc s.receiver
  seq : s.seq hash enc < 65536
  frames : ∀ f ∈ s.air, f.seq < 65536 ∧ ∃ junk payload, f.frame =
    ieee80211Hdr junk ++ (VmacHdr.bytes ⟨enc, vmacHdrData⟩ ++ (VmacData.bytes ⟨f.seq⟩ ++ payload))
  -- the frames in the air are in order, before the next one
  order : s.air.Pairwise fun f g => f.mark < g.mark
  ahead : ∀ f ∈ s.air, f.mark < s.next hash enc
  -- and behind the last one the receiver entry has taken
  absent : findRx hash s.receiver enc = none → s.taken = none
  untouched : ∀ e, findRx hash s.receiver enc = some e → s.taken = none →
    e.latest = 0 ∧ e.firstFrame = 0
  behind : ∀ e l, findRx hash s.receiver enc = some e → s.taken = some l →
    e.lastin = e.latest ∧ toLex (l, e.latest) < s.next hash enc ∧
      ∀ f ∈ s.air, toLex (l, e.latest) < f.mark
  account : s.sent = s.passed ++ s.air

end

section Steps

variable {hash : Enc → Bucket} {enc : Enc} {s : Link}

theorem mark_lt {f g : Nat × Nat} : toLex f < toLex g ↔ f.1 < g.1 ∨ f.1 = g.1 ∧ f.2 < g.2 :=
  Prod.Lex.toLex_lt_toLex

/-- Without a producer entry the next frame begins a lap. -/
theorem Link.next_of_seq {s : Link} (zero : s.seq hash enc = 0) :
    s.next hash enc = toLex (s.lap + 1, 0) := by
  unfold next lapNow
  rw [zero, if_pos rfl]

theorem Link.Inv.wait (inv : s.Inv hash enc) (n : Nat) :
    Link.Inv hash enc { s with now := s.now + n } :=
  ⟨inv.producer, inv.receiver, inv.seq, inv.frames, inv.order, inv.ahead, inv.absent,
    inv.untouched, inv.behind, inv.account⟩

/-- A new receiver world, whose entry is the old one but for its deadline, a new one, or gone. -/
theorem Link.Inv.receive (inv : s.Inv hash enc) {w : World} (only : Only hash enc w)
    {taken : Option Nat}
    (entry : findRx hash w enc = none ∧ taken = none ∨
      (∃ e, findRx hash w enc = some e ∧ taken = none ∧ e.latest = 0 ∧ e.firstFrame = 0) ∨
      ∃ e env, findRx hash s.receiver enc = some e ∧ taken = s.taken ∧
        findRx hash w enc = some (e.refresh env)) :
    Link.Inv hash enc { s with receiver := w, taken := taken } := by
  refine ⟨inv.producer, only, inv.seq, inv.frames, inv.order, inv.ahead, fun gone => ?_,
    fun e found none => ?_, fun e l found some_ => ?_, inv.account⟩
  · change findRx hash w enc = none at gone
    rcases entry with ⟨-, none⟩ | ⟨e, found, -⟩ | ⟨e, env, -, -, found⟩
    · exact none
    · rw [found] at gone; cases gone
    · rw [found] at gone; cases gone
  · change findRx hash w enc = some e at found
    change taken = Option.none at none
    rcases entry with ⟨gone, -⟩ | ⟨e', found', -, fresh⟩ | ⟨e', env, before, same, found'⟩
    · rw [gone] at found; cases found
    · rw [found'] at found; cases found
      exact fresh
    · rw [found'] at found; cases found
      exact inv.untouched e' before (same ▸ none)
  · change findRx hash w enc = some e at found
    change taken = some l at some_
    rcases entry with ⟨gone, -⟩ | ⟨e', found', none, -⟩ | ⟨e', env, before, same, found'⟩
    · rw [gone] at found; cases found
    · rw [none] at some_; cases some_
    · rw [found'] at found; cases found
      exact inv.behind e' l before (same ▸ some_)

theorem Link.Inv.interest (inv : s.Inv hash enc) (env : Env) (skb : Skb) :
    Link.Inv hash enc { s with
      receiver := (vmacTx hash (s.env env) s.receiver skb enc vmacHdrInterest 0).1 } := by
  obtain ⟨only, left, -⟩ := inv.receiver.vmacTx (s.env env) skb vmacHdrInterest 0
  have rx := congrArg Entries.rx left
  change findRx hash _ enc = _ at rx
  apply inv.receive only
  rw [rx]
  unfold txFrame
  rw [if_pos rfl]
  cases found : (s.receiver.found hash enc).rx with
  | some e => exact .inr (.inr ⟨e, s.env env, found, rfl, rfl⟩)
  | none =>
      have none := inv.absent found
      dsimp only
      split
      · exact .inr (.inl ⟨_, rfl, none, rfl, rfl⟩)
      · exact .inl ⟨found, none⟩

theorem Link.Inv.expireRx (inv : s.Inv hash enc) {e : EncodingRx}
    (found : findRx hash s.receiver enc = some e) :
    Link.Inv hash enc { s with receiver := (cleanupRx hash s.receiver e).1, taken := none } := by
  obtain ⟨only, gone⟩ := inv.receiver.cleanupRx found
  exact inv.receive only (.inl ⟨gone, rfl⟩)

/-- A change at the producer that moves the next frame no further back. -/
theorem Link.Inv.produce (inv : s.Inv hash enc) {w : World} {lap : Nat} (only : Only hash enc w)
    (later : s.next hash enc ≤ Link.next hash enc { s with producer := w, lap := lap })
    (small : Link.seq hash enc { s with producer := w, lap := lap } < 65536) :
    Link.Inv hash enc { s with producer := w, lap := lap } := by
  refine ⟨only, inv.receiver, small, inv.frames, inv.order,
    fun f member => lt_of_lt_of_le (inv.ahead f member) later, inv.absent, inv.untouched,
    fun e l found some_ => ?_, inv.account⟩
  obtain ⟨last, before, rest⟩ := inv.behind e l found some_
  exact ⟨last, lt_of_lt_of_le before later, rest⟩

theorem Link.Inv.expireTx (inv : s.Inv hash enc) {t : EncodingTx}
    (found : findTx hash s.producer enc = some t) :
    Link.Inv hash enc { s with producer := (cleanupTx hash s.producer t).1 } := by
  obtain ⟨only, gone⟩ := inv.producer.cleanupTx found
  have zero : Link.seq hash enc { s with producer := (cleanupTx hash s.producer t).1 } = 0 := by
    show (findTx hash _ enc).elim 0 EncodingTx.seq = 0
    rw [gone]
    rfl
  have later : s.next hash enc ≤
      Link.next hash enc { s with producer := (cleanupTx hash s.producer t).1 } := by
    rw [Link.next_of_seq zero]
    by_cases start : s.seq hash enc = 0
    · rw [Link.next_of_seq start]
    · apply le_of_lt
      rw [Link.next, Link.lapNow, if_neg start, mark_lt]
      exact .inl (Nat.lt_succ_self s.lap)
  exact inv.produce only later (zero ▸ by decide)

/-- After a data frame the next one stands further on. -/
theorem Link.next_lt {w : World} (small : s.seq hash enc < 65536)
    (seq : Link.seq hash enc { s with producer := w } = (s.seq hash enc + 1) % 65536 ∨
      s.seq hash enc = 0 ∧ Link.seq hash enc { s with producer := w } = 0) :
    s.next hash enc < Link.next hash enc { s with producer := w, lap := s.lapNow hash enc } := by
  have next : Link.next hash enc { s with producer := w, lap := s.lapNow hash enc } =
      toLex (if Link.seq hash enc { s with producer := w } = 0 then s.lapNow hash enc + 1
        else s.lapNow hash enc, Link.seq hash enc { s with producer := w }) := rfl
  rw [next, Link.next, mark_lt]
  split
  · exact .inl (Nat.lt_succ_self _)
  · rename_i more
    rcases seq with up | ⟨-, zero⟩
    · exact .inr ⟨rfl, by dsimp only; omega⟩
    · exact absurd zero more

/-- A new frame in the air, behind all the others. -/
theorem Link.Inv.send (inv : s.Inv hash enc) {f : Flying} (small : f.seq < 65536)
    (frame : ∃ junk payload, f.frame = ieee80211Hdr junk ++
      (VmacHdr.bytes ⟨enc, vmacHdrData⟩ ++ (VmacData.bytes ⟨f.seq⟩ ++ payload)))
    (last : ∀ g ∈ s.air, g.mark < f.mark) (ahead : f.mark < s.next hash enc)
    (behind : ∀ e l, findRx hash s.receiver enc = some e → s.taken = some l →
      toLex (l, e.latest) < f.mark) :
    Link.Inv hash enc { s with air := s.air ++ [f], sent := s.sent ++ [f] } := by
  have member : ∀ g ∈ s.air ++ [f], g ∈ s.air ∨ g = f := by
    intro g inside
    rcases List.mem_append.mp inside with old | new
    · exact .inl old
    · exact .inr (List.mem_singleton.mp new)
  refine ⟨inv.producer, inv.receiver, inv.seq, fun g inside => ?_, ?_, fun g inside => ?_, inv.absent,
    inv.untouched, fun e l found some_ => ?_, ?_⟩
  · rcases member g inside with old | rfl
    · exact inv.frames g old
    · exact ⟨small, frame⟩
  · refine List.pairwise_append.mpr ⟨inv.order, List.pairwise_singleton _ _, fun g old h new => ?_⟩
    rw [List.mem_singleton.mp new]
    exact last g old
  · rcases member g inside with old | rfl
    · exact inv.ahead g old
    · exact ahead
  · obtain ⟨lastin, before, rest⟩ := inv.behind e l found some_
    refine ⟨lastin, before, fun g inside => ?_⟩
    rcases member g inside with old | rfl
    · exact rest g old
    · exact behind e l found some_
  · show s.sent ++ [f] = s.passed ++ (s.air ++ [f])
    rw [inv.account, List.append_assoc]

theorem Link.Inv.data (inv : s.Inv hash enc) (env : Env) (skb : Skb) {s' : Link}
    (next : s.step hash enc (.data env skb) = some s') : s'.Inv hash enc := by
  cases next
  obtain ⟨only, left, outs⟩ := inv.producer.vmacTx (s.env env) skb vmacHdrData 0
  have found := congrArg Entries.tx left
  change findTx hash _ enc = _ at found
  rcases txFrame_data (s.env env) (s.producer.found hash enc) skb enc 0 with
    ⟨t, seq, sent⟩ | ⟨none, -, oops⟩
  · have up : Link.seq hash enc { s with
        producer := (vmacTx hash (s.env env) s.producer skb enc vmacHdrData 0).1 } =
          (s.seq hash enc + 1) % 65536 := by
      show (findTx hash _ enc).elim 0 EncodingTx.seq = _
      rw [found, sent]
      show (t.seq + 1) % 65536 = _
      rw [seq]
      rfl
    have later := Link.next_lt inv.seq (.inl up)
    have inv' := inv.produce only (le_of_lt later) (up ▸ Nat.mod_lt _ (by decide))
    rw [outs, sent, radios_txData, seq]
    split
    · refine inv'.send inv.seq ⟨_, _, rfl⟩ inv.ahead later fun e l found some_ => ?_
      exact (inv.behind e l found some_).2.1
    · simp only [List.map_nil, List.append_nil]
      exact inv'
  · -- no entry: the kernel traps, nothing is sent
    have zero : s.seq hash enc = 0 := by
      show ((s.producer.found hash enc).tx).elim 0 EncodingTx.seq = 0
      rw [none]
      rfl
    have still : Link.seq hash enc { s with
        producer := (vmacTx hash (s.env env) s.producer skb enc vmacHdrData 0).1 } = 0 := by
      show (findTx hash _ enc).elim 0 EncodingTx.seq = _
      rw [found, oops]
      exact zero
    have later := Link.next_lt inv.seq (.inr ⟨zero, still⟩)
    have inv' := inv.produce only (le_of_lt later) (lt_of_eq_of_lt still (by decide))
    rw [outs, oops]
    simp only [radios, List.filterMap_cons, List.filterMap_nil, List.map_nil, List.append_nil]
    exact inv'

/-- What arrives is a data frame of the name, with the number it was sent with. -/
theorem delivered_data {f : Flying} (small : f.seq < 65536)
    (frame : ∃ junk payload, f.frame = ieee80211Hdr junk ++
      (VmacHdr.bytes ⟨enc, vmacHdrData⟩ ++ (VmacData.bytes ⟨f.seq⟩ ++ payload)))
    (env : Env) (id : Nat) (fcs : List UInt8) :
    IsData enc (env, delivered id f fcs) ∧ seqOf (env, delivered id f fcs) = f.seq := by
  obtain ⟨junk, payload, bytes⟩ := frame
  have data : (delivered id f fcs).data = VmacHdr.bytes ⟨enc, vmacHdrData⟩ ++
      (VmacData.bytes ⟨f.seq⟩ ++ (payload ++ fcs)) := by
    show f.frame.drop 30 ++ fcs = _
    rw [bytes, List.drop_left' (by simp), List.append_assoc, List.append_assoc]
  constructor
  · show readHdr env.past (delivered id f fcs).data = _
    rw [data]
    exact readHdr_bytes ..
  · show readSeq env.past (pull 9 (delivered id f fcs).data) = f.seq
    rw [data, pull_of_length (VmacHdr.length_bytes _)]
    exact readSeq_bytes (d := ⟨f.seq⟩) env.past small _

/-- A frame of the lap the entry is in, or the first one there, is passed. -/
theorem Link.Inv.passes (inv : s.Inv hash enc) {e : EncodingRx} (found : findRx hash s.receiver enc = some e)
    {f : Flying} {rest : List Flying} (air : s.air = f :: rest)
    (lap : s.taken = none ∨ s.taken = some f.lap)
    (clear : s.taken = none → f.seq = 0 → e.window 0 ≠ 1) (env : Env) :
    (e.refresh env).passes f.seq = true ∧ e.latest ≤ f.seq := by
  have member : f ∈ s.air := air ▸ List.mem_cons_self
  rcases lap with none | same
  · obtain ⟨latest, first⟩ := inv.untouched e found none
    refine ⟨?_, latest ▸ Nat.zero_le _⟩
    by_cases zero : f.seq = 0
    · rw [zero]
      exact passes_first latest first (clear none zero)
    · have above : (e.refresh env).latest < f.seq := lt_of_eq_of_lt latest (Nat.pos_of_ne_zero zero)
      exact passes_above above (.inl first)
  · obtain ⟨last, -, rest⟩ := inv.behind e f.lap found same
    have above : e.latest < f.seq := by
      rcases mark_lt.mp (rest f member) with lap | ⟨-, above⟩
      · exact absurd lap (Nat.lt_irrefl f.lap)
      · exact above
    exact ⟨passes_above above (.inr last), above.le⟩

/-- A frame that meets the condition is passed, and the last one the entry has seen. -/
theorem Link.Inv.delivered (inv : s.Inv hash enc) {e : EncodingRx}
    (found : findRx hash s.receiver enc = some e) {f : Flying} {rest : List Flying}
    (air : s.air = f :: rest) (lap : s.taken = none ∨ s.taken = some f.lap)
    (clear : s.taken = none → f.seq = 0 → e.window 0 ≠ 1) (env : Env) (id : Nat)
    (fcs : List UInt8) :
    ∃ w e', s.deliver hash enc env id fcs f rest = { s with
        receiver := w, air := rest, taken := some f.lap, passed := s.passed ++ [f] } ∧
      Only hash enc w ∧ findRx hash w enc = some e' ∧ e'.latest = f.seq ∧ e'.lastin = f.seq := by
  obtain ⟨small, frame⟩ := inv.frames f (air ▸ List.mem_cons_self)
  obtain ⟨data, number⟩ := delivered_data small frame (s.env env) id fcs
  obtain ⟨passes, above⟩ := inv.passes found air lap clear (s.env env)
  obtain ⟨only, -⟩ := inv.receiver.step
    (show Possible s.receiver (.rx (s.env env) (Core.delivered id f fcs)) from trivial)
    (congrArg VmacHdr.enc data)
  have after := findRx_vmacRx_data found data
  refine ⟨_, _, ?_, only, after, ?_, ?_⟩
  · simp only [Link.deliver, found, Option.map_some, Option.any_some, number, passes, if_true]
    rfl
  · rw [rxData_latest, number, Nat.max_eq_right above]
  · exact (rxData_lastin _ _ _ _ _ (by rw [← number] at passes; exact passes)).trans number

/-- ... and the invariant goes on behind it. -/
theorem Link.Inv.deliver (inv : s.Inv hash enc) {w : World} {e : EncodingRx} {f : Flying}
    {rest : List Flying} (air : s.air = f :: rest) (only : Only hash enc w)
    (found : findRx hash w enc = some e) (latest : e.latest = f.seq) (lastin : e.lastin = f.seq) :
    Link.Inv hash enc { s with
      receiver := w, air := rest, taken := some f.lap, passed := s.passed ++ [f] } := by
  have order := inv.order
  rw [air, List.pairwise_cons] at order
  refine ⟨inv.producer, only, inv.seq, fun g later => inv.frames g (air ▸ List.mem_cons_of_mem f later),
    order.2, fun g later => inv.ahead g (air ▸ List.mem_cons_of_mem f later), fun gone => ?_,
    fun e' _ none => ?_, fun e' l found' some_ => ?_, ?_⟩
  · rw [show findRx hash w enc = none from gone] at found
    cases found
  · cases none
  · cases some_
    rw [show findRx hash w enc = some e' from found'] at found
    cases found
    rw [latest]
    exact ⟨lastin, inv.ahead f (air ▸ List.mem_cons_self), order.1⟩
  · show s.sent = s.passed ++ [f] ++ rest
    rw [inv.account, air, List.append_assoc]
    rfl

theorem Link.Inv.start (pidt : Int) : Link.Inv hash enc (Link.start pidt) where
  producer := .init (-1)
  receiver := .init pidt
  seq := (show 0 < 65536 by decide)
  frames := fun _ inside => (nomatch inside)
  order := .nil
  ahead := fun _ inside => (nomatch inside)
  absent := fun _ => rfl
  untouched := fun _ found => (nomatch found)
  behind := fun _ _ found => (nomatch found)
  account := rfl

/-- Every step that meets the condition keeps the invariant. -/
theorem Link.Inv.step (inv : s.Inv hash enc) {a : Act} (meets : s.Meets hash enc a) {s' : Link}
    (next : s.step hash enc a = some s') : s'.Inv hash enc := by
  cases a with
  | wait n => cases next; exact inv.wait n
  | interest env skb => cases next; exact inv.interest env skb
  | data env skb => exact inv.data env skb next
  | arrive env id fcs =>
      unfold Link.step at next
      cases air : s.air with
      | nil => simp [air] at next
      | cons f rest =>
          obtain ⟨e, found, lap, clear⟩ := meets f (by simp [air])
          simp only [air, Option.ite_none_right_eq_some, Option.some.injEq] at next
          obtain ⟨-, rfl⟩ := next
          obtain ⟨w, e', stepped, only, found', latest, lastin⟩ :=
            inv.delivered found air lap clear env id fcs
          rw [stepped]
          exact inv.deliver air only found' latest lastin
  | expireRx =>
      unfold Link.step at next
      cases found : findRx hash s.receiver enc with
      | none => simp [found] at next
      | some e =>
          simp only [found, Option.ite_none_right_eq_some, Option.some.injEq] at next
          obtain ⟨-, rfl⟩ := next
          exact inv.expireRx found
  | expireTx =>
      unfold Link.step at next
      cases found : findTx hash s.producer enc with
      | none => simp [found] at next
      | some t =>
          simp only [found, Option.ite_none_right_eq_some, Option.some.injEq] at next
          obtain ⟨-, rfl⟩ := next
          exact inv.expireTx found

theorem Link.Met.inv (met : Link.Met hash enc s) : s.Inv hash enc := by
  induction met with
  | start pidt => exact .start pidt
  | step _ meets next ih => exact ih.step meets next

end Steps

/-! ## First transmissions -/

/-- In a run whose steps all meet the condition, the frames sent have been passed once
and in order, but for those in the air; and of these the first one, if it meets the
condition too, goes through `vmac_rx` to `nl_send`. -/
theorem first_transmissions_pass (hash : Enc → Bucket) (enc : Enc) {s : Link}
    (met : Link.Met hash enc s) :
    s.sent = s.passed ++ s.air ∧
    ∀ env id fcs f rest, s.air = f :: rest → s.Meets hash enc (.arrive env id fcs) →
      ∃ asked, (vmacRx hash (s.env env) s.receiver (delivered id f fcs)).2 = asked ++
        nlSend (s.env env) s.receiver.pidt ((delivered id f fcs).pull 9 |>.pull 2) enc vmacHdrData
          f.seq := by
  have inv := met.inv
  refine ⟨inv.account, fun env id fcs f rest air meets => ?_⟩
  obtain ⟨e, found, lap, clear⟩ := meets f (by simp [air])
  obtain ⟨small, frame⟩ := inv.frames f (air ▸ List.mem_cons_self)
  obtain ⟨data, number⟩ := delivered_data small frame (s.env env) id fcs
  obtain ⟨passes, -⟩ := inv.passes found air lap clear (s.env env)
  rw [← number] at passes
  obtain ⟨-, -, -, asked, outs⟩ := rxData_passes _ s.receiver.pidt e enc _ passes
  refine ⟨asked, ?_⟩
  rw [← number]
  exact (congrArg Prod.snd (vmacRx_data found data)).trans outs

/-! ## A producer that begins again -/

/-- The state after some steps. -/
def Link.acts (hash : Enc → Bucket) (enc : Enc) (s : Link) (acts : List Act) : Option Link :=
  acts.foldlM (fun s a => s.step hash enc a) s

theorem Link.Run.acts {hash : Enc → Bucket} {enc : Enc} {s s' : Link} (run : Link.Run hash enc s)
    {acts : List Act} (after : s.acts hash enc acts = some s') : Link.Run hash enc s' := by
  induction acts generalizing s with
  | nil => cases after; exact run
  | cons a acts ih =>
      cases stepped : s.step hash enc a with
      | none => simp [Link.acts, stepped] at after
      | some s₁ => exact ih (.step run stepped) (by simpa [Link.acts, stepped] using after)

/-- An interest, a data frame and its arrival ... -/
def oneFrame : List Act :=
  [.interest .quiet ⟨0, []⟩, .data .quiet ⟨0, [1]⟩, .arrive .quiet 0 [0, 0, 0, 0]]

/-- ... then the producer entry expires, and the receiver entry, refreshed in between, does not. -/
def restart : List Act :=
  oneFrame ++ [.wait 20000, .interest .quiet ⟨0, []⟩, .wait 10000, .expireTx,
    .data .quiet ⟨0, [2]⟩, .arrive .quiet 0 [0, 0, 0, 0]]

theorem first_transmissions_pass_one : ∃ s, Link.Met oneBucket 7 s ∧ s.sent.length = 1 ∧
    s.sent = s.passed ++ s.air := by
  have start : Link.Met oneBucket 7 (Link.start 1) := .start 1
  have subscribed := start.step (a := .interest .quiet ⟨0, []⟩) trivial rfl
  have sent := subscribed.step (a := .data .quiet ⟨0, [1]⟩) trivial rfl
  have met := sent.step (a := .arrive .quiet 0 [0, 0, 0, 0])
    (fun f head => ⟨_, rfl, .inl rfl, fun _ _ => by decide⟩) rfl
  exact ⟨_, met, by decide, (first_transmissions_pass oneBucket 7 met).1⟩

/-- The second frame the producer sends has number 0 again, and is dropped. -/
theorem restart_is_dropped : ∃ s, Link.Run oneBucket 7 s ∧ s.sent ≠ s.passed ++ s.air := by
  have ends : ((Link.start 1).acts oneBucket 7 restart).map
      (fun s => (s.sent.length, s.passed.length, s.air.length)) = some (2, 1, 0) := by decide
  obtain ⟨s, after, counts⟩ := Option.map_eq_some_iff.mp ends
  refine ⟨s, (Link.Run.start 1).acts after, fun same => ?_⟩
  have lengths := congrArg List.length same
  simp only [List.length_append] at lengths
  simp only [Prod.mk.injEq] at counts
  omega

end Vmac.Core
