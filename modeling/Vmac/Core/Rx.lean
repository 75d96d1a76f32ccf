/-
# Vmac.Core.Rx -- receiving a frame: `vmac_rx` and `nl_send`

`vmacRx` reads the V-MAC header, looks up the entries of the encoding and treats
the frame by its type (`rxFrame`): data goes through the window of the receiver
entry (`rxData`), a DACK is answered from the producer entry, and what is for
userspace ends in `nlSend`.  In one call `prepDACK` allocates buffer `base`,
`nl_send` buffer `base + 1`, and the copies a DACK causes are numbered from `base`.
-/
import Vmac.Core.Dack
import Vmac.Core.Retransmit
import Vmac.Core.Tables
import Vmac.Core.Window

namespace Vmac.Core

open Theory Theory.Bytes

set_option autoImplicit false

/-! ## To userspace -/

/-- The message body: the control block, then the frame without its last four bytes. -/
def nlBody (env : Env) (skb : Skb) (enc : Enc) (type : UInt8) (seq : Nat) : List UInt8 :=
  Control.bytes { env.txc with type := type, enc := enc, seq := seq } ++
    skb.data.take (skb.data.length - 4)

def nlSend (env : Env) (pidt : Int) (skb : Skb) (enc : Enc) (type : UInt8) (seq : Nat) :
    List Out :=
  if pidt ≠ -1 then
    if env.nlmsgOk then
      let skbOut := env.base + 1
      if skb.data.length < 4 then [.alloc skbOut, .oops]
      else
        [.alloc skbOut,
          .user pidt (max (skb.data.length - 4 + 100) 100) (nlBody env skb enc type seq),
          -- consumed by `nlmsg_unicast`
          .free skbOut,
          .free skb.id,
          .free skbOut]
    else []
  else
    -- `skb_out` was never set
    .free skb.id :: (match env.skbOut with | some pointer => [.freeWild pointer] | none => [])

/-! ## Data -/

/-- `request_DACK` and the round around it, if this frame requests a DACK. -/
def requestRound (env : Env) (e : EncodingRx) (enc : Enc) (seq : Nat) : EncodingRx × List Out :=
  if e.dackDue seq then
    let asked := requestDack env { e with round := seq / 5 } enc (seq / 5)
    ({ asked.1 with round := seq }, asked.2)
  else (e, [])

/-- The DATA branch on the entry that `find_rx` returns; `skb` starts at the data header. -/
def rxData (env : Env) (pidt : Int) (e : EncodingRx) (enc : Enc) (skb : Skb) :
    EncodingRx × List Out :=
  let seq := readSeq env.past skb.data
  let e := e.refresh env
  match e.receive seq with
  | none => (e, [.free skb.id])
  | some e =>
      if e.timeTraps seq then (e, [.oops])
      else
        let asked := requestRound env { e.timeFrame seq env.jiffies with lastin := seq } enc seq
        (asked.1, asked.2 ++ nlSend env pidt (skb.pull 2) enc vmacHdrData seq)

/-! ## The frame types -/

/-- `vmac_rx` behind the header, on the entries of the encoding. -/
def rxFrame (env : Env) (pidt : Int) (n : Entries) (h : VmacHdr) (skb : Skb) :
    Entries × List Out :=
  if h.type = vmacHdrInterest then (n, nlSend env pidt skb h.enc h.type 0)
  else if h.type = vmacHdrData then
    match n.rx with
    | none => (n, [.free skb.id])
    | some e =>
        let r := rxData env pidt e h.enc skb
        ({ n with rx := some r.1 }, r.2)
  else if h.type = vmacHdrDack then
    match n.tx with
    | none => (n, [.free skb.id])
    | some t =>
        let s := answerDack env t skb.data
        ({ n with tx := some s.vmact }, s.outs ++ [.free skb.id])
  else if h.type = vmacHdrAnouncment then (n, nlSend env pidt skb h.enc h.type 0)
  else if h.type = vmacHdrInjected then
    (n, nlSend env pidt (skb.pull 2) h.enc h.type (readSeq env.past skb.data))
  else (n, [.free skb.id])

def vmacRx (hash : Enc → Bucket) (env : Env) (w : World) (skb : Skb) : World × List Out :=
  let h := readHdr env.past skb.data
  let r := rxFrame env w.pidt (w.found hash h.enc) h (skb.pull 9)
  (w.put hash h.enc r.1, r.2)

/-! ## What each step leaves in the entry -/

section Entry

variable (env : Env) (pidt : Int) (e : EncodingRx) (enc : Enc)

theorem requestRound_marks (seq : Nat) : (requestRound env e enc seq).1.marks = e.marks := by
  unfold requestRound requestDack
  split
  · simp only [EncodingRx.marks, prepDack_latest, prepDack_window]
  · rfl

theorem requestRound_fixed (seq : Nat) : (requestRound env e enc seq).1.fixed = e.fixed := by
  unfold requestRound requestDack
  split
  · exact prepDack_fixed env { e with round := seq / 5 } enc (seq / 5)
  · rfl

theorem followLatest_frame (n : Nat) : ∃ latest window,
    EncodingRx.followLatest n e = { e with latest := latest, window := window } := by
  induction n generalizing e with
  | zero => exact ⟨_, _, rfl⟩
  | succ n ih =>
      obtain ⟨latest, window, same⟩ := ih { e with
        latest := e.latest + 1
        window := Function.update e.window (windowIndex (e.latest + 1)) 0 }
      exact ⟨latest, window, by rw [EncodingRx.followLatest, same]⟩

/-- The window part of a data frame writes `latest` and the window, and nothing else. -/
theorem receive_frame {e e' : EncodingRx} {seq : Nat} (got : e.receive seq = some e') :
    ∃ latest window, e' = { e with latest := latest, window := window } := by
  unfold EncodingRx.receive at got
  split at got
  · obtain ⟨latest, window, same⟩ := followLatest_frame e (seq - e.latest)
    rw [same] at got
    cases got
    exact ⟨_, _, rfl⟩
  · split at got
    · cases got
    · cases got
      exact ⟨_, _, rfl⟩

theorem receive_fixed {e e' : EncodingRx} {seq : Nat} (got : e.receive seq = some e') :
    e'.fixed = e.fixed := by
  obtain ⟨_, _, rfl⟩ := receive_frame got
  rfl

theorem timeFrame_fixed (seq jiffies : Nat) : (e.timeFrame seq jiffies).fixed = e.fixed := by
  unfold EncodingRx.timeFrame
  split
  · rfl
  · split <;> rfl

/-- The entry after a data frame that is dropped, one that traps, and any other. -/
theorem rxData_drop {skb : Skb} (got : (e.refresh env).receive (readSeq env.past skb.data) = none) :
    (rxData env pidt e enc skb).1 = e.refresh env := by
  simp only [rxData, got]

theorem rxData_trap {skb : Skb} {e' : EncodingRx}
    (got : (e.refresh env).receive (readSeq env.past skb.data) = some e')
    (traps : e'.timeTraps (readSeq env.past skb.data) = true) :
    (rxData env pidt e enc skb).1 = e' := by
  simp only [rxData, got, if_pos traps]

theorem rxData_run {skb : Skb} {e' : EncodingRx}
    (got : (e.refresh env).receive (readSeq env.past skb.data) = some e')
    (runs : e'.timeTraps (readSeq env.past skb.data) = false) :
    (rxData env pidt e enc skb).1 = (requestRound env
      { e'.timeFrame (readSeq env.past skb.data) env.jiffies with
        lastin := readSeq env.past skb.data } enc (readSeq env.past skb.data)).1 := by
  simp only [rxData, got, runs, Bool.false_eq_true, if_false]

theorem rxData_drop_outs {skb : Skb}
    (got : (e.refresh env).receive (readSeq env.past skb.data) = none) :
    (rxData env pidt e enc skb).2 = [.free skb.id] := by
  simp only [rxData, got]

theorem rxData_trap_outs {skb : Skb} {e' : EncodingRx}
    (got : (e.refresh env).receive (readSeq env.past skb.data) = some e')
    (traps : e'.timeTraps (readSeq env.past skb.data) = true) :
    (rxData env pidt e enc skb).2 = [.oops] := by
  simp only [rxData, got, if_pos traps]

theorem rxData_run_outs {skb : Skb} {e' : EncodingRx}
    (got : (e.refresh env).receive (readSeq env.past skb.data) = some e')
    (runs : e'.timeTraps (readSeq env.past skb.data) = false) :
    (rxData env pidt e enc skb).2 = (requestRound env
      { e'.timeFrame (readSeq env.past skb.data) env.jiffies with
        lastin := readSeq env.past skb.data } enc (readSeq env.past skb.data)).2 ++
      nlSend env pidt (skb.pull 2) enc vmacHdrData (readSeq env.past skb.data) := by
  simp only [rxData, got, runs, Bool.false_eq_true, if_false]

theorem rxData_fixed (skb : Skb) : (rxData env pidt e enc skb).1.fixed = e.fixed := by
  cases got : (e.refresh env).receive (readSeq env.past skb.data) with
  | none => rw [rxData_drop env pidt e enc got]; rfl
  | some e' =>
      have same : e'.fixed = (e.refresh env).fixed := receive_fixed got
      cases traps : e'.timeTraps (readSeq env.past skb.data) with
      | true => rw [rxData_trap env pidt e enc got traps]; exact same
      | false =>
          rw [rxData_run env pidt e enc got traps, requestRound_fixed]
          exact (timeFrame_fixed e' _ _).trans same

theorem requestRound_lastin (seq : Nat) : (requestRound env e enc seq).1.lastin = e.lastin := by
  unfold requestRound requestDack
  split
  · exact prepDack_lastin env { e with round := seq / 5 } enc (seq / 5)
  · rfl

theorem requestRound_round (seq : Nat) :
    (requestRound env e enc seq).1.round = if e.round + 5 ≤ seq then seq else e.round := by
  unfold requestRound EncodingRx.dackDue
  by_cases due : e.round + 5 ≤ seq <;> simp [due]

theorem timeFrame_round (seq jiffies : Nat) : (e.timeFrame seq jiffies).round = e.round := by
  unfold EncodingRx.timeFrame
  split
  · rfl
  · split <;> rfl

/-- The marks after a data frame are those the window part leaves. -/
theorem rxData_marks (skb : Skb) : (rxData env pidt e enc skb).1.marks =
    (((e.refresh env).receive (readSeq env.past skb.data)).getD e).marks := by
  cases got : (e.refresh env).receive (readSeq env.past skb.data) with
  | none => rw [rxData_drop env pidt e enc got]; rfl
  | some e' =>
      cases traps : e'.timeTraps (readSeq env.past skb.data) with
      | true => rw [rxData_trap env pidt e enc got traps]; rfl
      | false =>
          rw [rxData_run env pidt e enc got traps, requestRound_marks]
          exact EncodingRx.timeFrame_marks e' _ _

end Entry

/-! ## Data frames through `vmac_rx` -/

/-- A frame handed to `vmac_rx`, and what the call meets. -/
abbrev Arrival := Env × Skb

/-- The frame is a data frame of the encoding. -/
def IsData (enc : Enc) (a : Arrival) : Prop :=
  readHdr a.1.past a.2.data = ⟨enc, vmacHdrData⟩

/-- The sequence number a data frame carries. -/
def seqOf (a : Arrival) : Nat := readSeq a.1.past (a.2.pull 9).data

/-- The tables after a list of frames. -/
def rxRun (hash : Enc → Bucket) (w : World) (frames : List Arrival) : World :=
  frames.foldl (fun w a => (vmacRx hash a.1 w a.2).1) w

/-- The receiver entry after a list of data frames. -/
def dataRun (pidt : Int) (enc : Enc) (e : EncodingRx) (frames : List Arrival) : EncodingRx :=
  frames.foldl (fun e a => (rxData a.1 pidt e enc (a.2.pull 9)).1) e

theorem seqOf_lt (a : Arrival) : seqOf a < 65536 := field_lt ..

@[simp] theorem vmacRx_pidt (hash : Enc → Bucket) (env : Env) (w : World) (skb : Skb) :
    (vmacRx hash env w skb).1.pidt = w.pidt := rfl

/-- On a data frame whose entry exists, `vmac_rx` is the DATA branch. -/
theorem vmacRx_data {hash : Enc → Bucket} {w : World} {enc : Enc} {e : EncodingRx}
    (found : findRx hash w enc = some e) {a : Arrival} (data : IsData enc a) :
    vmacRx hash a.1 w a.2 =
      (w.put hash enc { w.found hash enc with rx := some (rxData a.1 w.pidt e enc (a.2.pull 9)).1 },
        (rxData a.1 w.pidt e enc (a.2.pull 9)).2) := by
  have frame : rxFrame a.1 w.pidt (w.found hash enc) ⟨enc, vmacHdrData⟩ (a.2.pull 9) =
      ({ w.found hash enc with rx := some (rxData a.1 w.pidt e enc (a.2.pull 9)).1 },
        (rxData a.1 w.pidt e enc (a.2.pull 9)).2) := by
    simp only [rxFrame, World.found, found]
    rw [if_neg (by decide), if_pos trivial]
  have hdr : readHdr a.1.past a.2.data = ⟨enc, vmacHdrData⟩ := data
  simp only [vmacRx, hdr, frame]

theorem findRx_vmacRx_data {hash : Enc → Bucket} {w : World} {enc : Enc} {e : EncodingRx}
    (found : findRx hash w enc = some e) {a : Arrival} (data : IsData enc a) :
    findRx hash (vmacRx hash a.1 w a.2).1 enc =
      some (rxData a.1 w.pidt e enc (a.2.pull 9)).1 := by
  rw [vmacRx_data found data]
  simp only [World.put, findRx]
  rw [show Chain.lastIn hash w.rxEnc enc = some e from found]
  exact Chain.lastIn_replace ..

/-- Among data frames of one encoding, `vmac_rx` works on the entry `find_rx` returned first. -/
theorem findRx_rxRun {hash : Enc → Bucket} {w : World} {enc : Enc} {e : EncodingRx}
    (found : findRx hash w enc = some e) {frames : List Arrival}
    (data : ∀ a ∈ frames, IsData enc a) :
    findRx hash (rxRun hash w frames) enc = some (dataRun w.pidt enc e frames) := by
  induction frames generalizing w e with
  | nil => exact found
  | cons a frames ih =>
      rw [List.forall_mem_cons] at data
      exact ih (findRx_vmacRx_data found data.1) data.2
/-- A data frame as the radio delivers it, without payload. -/
def dataArrival (env : Env) (enc : Enc) (seq : Nat) : Arrival :=
  (env, ⟨0, VmacHdr.bytes ⟨enc, vmacHdrData⟩ ++ (VmacData.bytes ⟨seq⟩ ++ [0, 0, 0, 0])⟩)

theorem isData_dataArrival (env : Env) (enc : Enc) (seq : Nat) :
    IsData enc (dataArrival env enc seq) := readHdr_bytes ..

theorem seqOf_dataArrival (env : Env) (enc : Enc) {seq : Nat} (fits : seq < 65536) :
    seqOf (dataArrival env enc seq) = seq := by
  show readSeq env.past (pull 9 (VmacHdr.bytes ⟨enc, vmacHdrData⟩ ++ _)) = seq
  rw [pull_of_length (VmacHdr.length_bytes _)]
  exact readSeq_bytes (d := ⟨seq⟩) env.past fits _

end Vmac.Core
