/-
# Vmac.Userspace.EndToEnd -- from `send_vmac` to the callback of `recvvmac`

One frame's way: `send_vmac` of process A, `nl_recv` and `vmac_tx` of its kernel, the
radio, `vmac_override`, `vmac_rx` and `nl_send` of the other kernel, `recvvmac` of
process B.  `Trip` collects what the calls on the way meet; `Trip.Travels` says that
none of them stops the frame.

* `end_to_end_iff`: the callback gets what A sent exactly when the frame is not
  injected or its number is the low half of the address `nl_recv` passes for it.
-/
import Vmac.Core.Link
import Vmac.Recv.Monitor
import Vmac.Userspace.Library

namespace Vmac.Userspace

open Core Recv Theory.Bytes

set_option autoImplicit false

/-! ## The way of a frame -/

structure Trip where
  -- process A
  privA : VmacPriv
  frame : VmacFrame
  md : MetaData
  -- its kernel
  envA : Env
  worldA : World
  skb2 : Option Nat
  rxcSeq : Nat
  -- the radio
  rtap : Radiotap
  fcs : List UInt8
  -- the other kernel
  envB : Env
  worldB : World
  skbB : Nat
  -- process B; `behind` is what the message has behind its payload
  privB : VmacPriv
  behind : List UInt8

namespace Trip

variable (hash : Enc → Bucket) (t : Trip)

/-- The encoding of the name. -/
def enc : Enc := siphash24 t.frame.interestName t.privA.key

/-- The frames A's kernel gives to the radio. -/
def sent : List (List UInt8) :=
  radios (nlRecv hash t.envA t.worldA t.skb2 t.rxcSeq (sendVmac t.privA t.frame t.md).2).2

/-- What the other kernel puts to userspace for a frame from the radio. -/
def delivered (frame : List UInt8) : List (Nat × List UInt8) :=
  users (vmacOverride hash t.envB t.worldB ⟨t.skbB, t.rtap.bytes ++ (frame ++ t.fcs)⟩).2

/-- The callbacks of process B. -/
def received : List Received :=
  ((t.sent hash).flatMap (t.delivered hash)).map fun m =>
    (recvvmac t.privB m.1 (m.2 ++ t.behind)).2

/-- The number A's kernel gives to the next data frame. -/
def dataSeq : Nat := (findTx hash t.worldA t.enc).elim 0 EncodingTx.seq

/-- No call stops the frame. -/
structure Travels : Prop where
  type : FromUser t.md.type
  fits : t.frame.buf.length + 100 ≤ maxPayload
  -- A's kernel has the memory and the transmit frame it needs
  skb2 : t.skb2.isSome
  interest : t.md.type = vmacHdrInterest →
    (findRx hash t.worldA t.enc).isSome ∨ t.envA.vmallocOk = true
  data : t.md.type = vmacHdrData →
    (findTx hash t.worldA t.enc).isSome ∨ t.envA.vmallocOk = true
  xmit : t.envA.xmitOk 0 = true
  fcs : t.fcs.length = 4
  -- B is registered, its kernel has a message, and data has a subscription that passes it
  registered : t.worldB.pidt ≠ -1
  nlmsg : t.envB.nlmsgOk = true
  subscribed : t.md.type = vmacHdrData → ∃ e, findRx hash t.worldB t.enc = some e ∧
    (e.refresh t.envB).passes (t.dataSeq hash % 65536) = true

/-- B's callback is called once, with what A sent. -/
def Transparent : Prop :=
  ∃ r, t.received hash = [r] ∧ r.type = t.md.type ∧ r.enc = t.enc ∧ r.buf = t.frame.buf ∧
    r.len = t.frame.buf.length ∧ (t.md.type = vmacHdrInjected → r.seq = t.md.seq.toNat)

end Trip

/-! ## Into the core -/

section Calls

variable (hash : Enc → Bucket)

/-- `nl_recv` calls `vmac_tx` with the payload, the encoding and the type that were sent. -/
theorem nlRecv_sendVmac (env : Env) (w : World) (id rxcSeq : Nat) (priv : VmacPriv)
    (frame : VmacFrame) (md : MetaData) (known : FromUser md.type) :
    (nlRecv hash env w (some id) rxcSeq (sendVmac priv frame md).2).2 =
      .alloc id :: (vmacTx hash env { w with pidt := priv.pid } ⟨id, frame.buf⟩
        (siphash24 frame.interestName priv.key) md.type (rxcSeq % 65536)).2 := by
  obtain ⟨stale, data⟩ := sendVmac_data priv frame md
  have type : UInt8.ofNat (sendVmac priv frame md).2.type = md.type := UInt8.ofNat_toNat
  exact nlRecv_frame hash env w id rxcSeq md.seq.toNat_lt data rfl type known

end Calls

/-! ## Out of the core -/

section Calls

variable (env : Env) (pidt : Int) (enc : Enc)

@[simp] theorem users_append (xs ys : List Out) : users (xs ++ ys) = users xs ++ users ys :=
  List.filterMap_append

/-- A DACK goes to the radio later, and nothing of it to userspace. -/
theorem users_requestRound (e : EncodingRx) (seq : Nat) :
    users (requestRound env e enc seq).2 = [] := by
  unfold requestRound requestDack prepDack
  split
  · dsimp only
    split
    · split
      · dsimp only
        cases Stored.released _ <;> rfl
      · rfl
    · rfl
  · rfl

/-- `nl_send` takes the FCS off and puts the control block in front. -/
theorem users_nlSend (registered : pidt ≠ -1) (nlmsg : env.nlmsgOk = true) (id : Nat)
    (payload : List UInt8) {fcs : List UInt8} (four : fcs.length = 4) (type : UInt8) (seq : Nat) :
    users (nlSend env pidt ⟨id, payload ++ fcs⟩ enc type seq) =
      [(payload.length + 100,
        Control.bytes { env.txc with type := type, enc := enc, seq := seq } ++ payload)] := by
  have length : (payload ++ fcs).length = payload.length + 4 := by rw [List.length_append, four]
  have body : nlBody env ⟨id, payload ++ fcs⟩ enc type seq =
      Control.bytes { env.txc with type := type, enc := enc, seq := seq } ++ payload := by
    unfold nlBody
    rw [length, Nat.add_sub_cancel, List.take_left]
  unfold nlSend
  rw [if_pos registered, if_pos nlmsg]
  dsimp only
  rw [length, body, if_neg (by omega), Nat.add_sub_cancel, Nat.max_eq_left (by omega)]
  rfl

/-- The number `vmac_rx` hands to `nl_send` for a frame of this type. -/
def userSeq (type : UInt8) (seq : Nat) : Nat :=
  if type = vmacHdrData ∨ type = vmacHdrInjected then seq % 65536 else 0

/-- Behind its header a frame is treated by its type. -/
theorem vmacRx_outs (hash : Enc → Bucket) (w : World) (h : VmacHdr) (id : Nat) (rest : List UInt8) :
    (vmacRx hash env w ⟨id, h.bytes ++ rest⟩).2 =
      (rxFrame env w.pidt (w.found hash h.enc) h ⟨id, rest⟩).2 := by
  have hdr : readHdr env.past (h.bytes ++ rest) = h := readHdr_bytes env.past h rest
  unfold vmacRx Skb.pull
  dsimp only
  rw [hdr, pull_of_length h.length_bytes]

/-- The DATA branch hands a frame that passes to `nl_send`, with the number it carries. -/
theorem users_rxData (registered : pidt ≠ -1) (nlmsg : env.nlmsgOk = true) (e : EncodingRx)
    (seq : Nat) (passes : (e.refresh env).passes (seq % 65536) = true) (id : Nat)
    (payload : List UInt8) {fcs : List UInt8} (four : fcs.length = 4) :
    users (rxData env pidt e enc ⟨id, VmacData.bytes ⟨seq⟩ ++ (payload ++ fcs)⟩).2 =
      [(payload.length + 100, Control.bytes
        { env.txc with type := vmacHdrData, enc := enc, seq := seq % 65536 } ++ payload)] := by
  have number : readSeq env.past (VmacData.bytes ⟨seq⟩ ++ (payload ++ fcs)) = seq % 65536 :=
    readSeq_bytes_mod env.past ⟨seq⟩ _
  have rest : Skb.pull ⟨id, VmacData.bytes ⟨seq⟩ ++ (payload ++ fcs)⟩ 2 = ⟨id, payload ++ fcs⟩ := by
    rw [Skb.pull, pull_of_length (VmacData.length_bytes _)]
  rw [← number] at passes
  obtain ⟨e', got, runs, -⟩ := rxData_passes env pidt e enc ⟨id, _⟩ passes
  rw [rxData_run_outs env pidt e enc got runs, users_append, users_requestRound, List.nil_append,
    rest, number]
  exact users_nlSend env pidt enc registered nlmsg id payload four vmacHdrData _

theorem users_vmacRx (hash : Enc → Bucket) (w : World) (registered : w.pidt ≠ -1)
    (nlmsg : env.nlmsgOk = true) {type : UInt8} (known : FromUser type) (seq : Nat)
    (subscribed : type = vmacHdrData → ∃ e, findRx hash w enc = some e ∧
      (e.refresh env).passes (seq % 65536) = true)
    (id : Nat) (payload : List UInt8) {fcs : List UInt8} (four : fcs.length = 4) :
    users (vmacRx hash env w ⟨id, frameHeaders enc type seq ++ (payload ++ fcs)⟩).2 =
      [(payload.length + 100, Control.bytes
        { env.txc with type := type, enc := enc, seq := userSeq type seq } ++ payload)] := by
  unfold frameHeaders
  rw [List.append_assoc, vmacRx_outs]
  rcases known with rfl | rfl | rfl | rfl
  · exact users_nlSend env w.pidt enc registered nlmsg id payload four vmacHdrInterest 0
  · obtain ⟨e, found, passes⟩ := subscribed rfl
    have branch (skb : Skb) : (rxFrame env w.pidt (w.found hash enc) ⟨enc, vmacHdrData⟩ skb).2 =
        (rxData env w.pidt e enc skb).2 := by
      simp only [rxFrame, World.found, found]
      rw [if_neg (by decide), if_pos trivial]
    rw [branch]
    exact users_rxData env w.pidt enc registered nlmsg e seq passes id payload four
  · exact users_nlSend env w.pidt enc registered nlmsg id payload four vmacHdrAnouncment 0
  · have number : readSeq env.past (VmacData.bytes ⟨seq⟩ ++ (payload ++ fcs)) = seq % 65536 :=
      readSeq_bytes_mod env.past ⟨seq⟩ _
    have branch : (rxFrame env w.pidt (w.found hash enc) ⟨enc, vmacHdrInjected⟩
        ⟨id, VmacData.bytes ⟨seq⟩ ++ (payload ++ fcs)⟩).2 =
          nlSend env w.pidt ⟨id, payload ++ fcs⟩ enc vmacHdrInjected (seq % 65536) := by
      unfold rxFrame Skb.pull
      dsimp only
      rw [if_neg (by decide), if_neg (by decide), if_neg (by decide), if_neg (by decide), if_pos rfl,
        pull_of_length (VmacData.length_bytes _), number]
    show users (rxFrame env w.pidt (w.found hash enc) ⟨enc, vmacHdrInjected⟩
        ⟨id, VmacData.bytes ⟨seq⟩ ++ (payload ++ fcs)⟩).2 = _
    rw [branch]
    exact users_nlSend env w.pidt enc registered nlmsg id payload four vmacHdrInjected _

end Calls

/-! ## The whole way -/

namespace Trip

variable {hash : Enc → Bucket} {t : Trip}

/-- The number the frame carries on the air. -/
def airSeq (hash : Enc → Bucket) (t : Trip) : Nat :=
  if t.md.type = vmacHdrData then t.dataSeq hash else t.rxcSeq % 65536

theorem Travels.sent (travels : t.Travels hash) : t.sent hash =
    [ieee80211Hdr (t.envA.junk 0) ++
      (frameHeaders t.enc t.md.type (t.airSeq hash) ++ t.frame.buf)] := by
  obtain ⟨id, alloc⟩ := Option.isSome_iff_exists.mp travels.skb2
  unfold Trip.sent
  rw [alloc, nlRecv_sendVmac hash t.envA t.worldA id t.rxcSeq t.privA t.frame t.md travels.type,
    radios_alloc]
  exact radios_txFrame t.envA _ ⟨id, t.frame.buf⟩ t.enc _ travels.type travels.interest travels.data
    travels.xmit

theorem Travels.delivered (travels : t.Travels hash) :
    t.delivered hash (ieee80211Hdr (t.envA.junk 0) ++
      (frameHeaders t.enc t.md.type (t.airSeq hash) ++ t.frame.buf)) =
    [(t.frame.buf.length + 100, Control.bytes { t.envB.txc with
      type := t.md.type, enc := t.enc, seq := userSeq t.md.type (t.airSeq hash) } ++ t.frame.buf)] := by
  unfold Trip.delivered
  rw [List.append_assoc, List.append_assoc, vmacOverride_ieee80211Hdr]
  refine users_vmacRx t.envB t.enc hash t.worldB travels.registered travels.nlmsg travels.type _
    (fun data => ?_) t.skbB t.frame.buf travels.fcs
  obtain ⟨e, found, passes⟩ := travels.subscribed data
  refine ⟨e, found, ?_⟩
  rw [airSeq, if_pos data]
  exact passes

/-- What B gets of any frame that travels. -/
theorem Travels.received (travels : t.Travels hash) : t.received hash =
    [⟨t.frame.buf, t.frame.buf.length, t.md.type, userSeq t.md.type (t.airSeq hash), t.enc⟩] := by
  have small : userSeq t.md.type (t.airSeq hash) < 65536 := by
    unfold userSeq
    split
    · exact Nat.mod_lt _ (by decide)
    · decide
  unfold Trip.received
  rw [travels.sent, List.flatMap_singleton, travels.delivered, List.map_singleton,
    List.append_assoc]
  exact congrArg (fun r => [r]) (recvvmac_bytes t.privB small travels.fits t.behind)

end Trip

/-- A frame that travels is received as it was sent, unless it is injected: then the
number is the low half of an address. -/
theorem end_to_end_iff (hash : Enc → Bucket) (t : Trip) (travels : t.Travels hash) :
    t.Transparent hash ↔ t.md.type ≠ vmacHdrInjected ∨ t.rxcSeq % 65536 = t.md.seq.toNat := by
  unfold Trip.Transparent
  rw [travels.received]
  have injected (type : t.md.type = vmacHdrInjected) :
      userSeq t.md.type (t.airSeq hash) = t.rxcSeq % 65536 := by
    have other : ¬ t.md.type = vmacHdrData := by
      rw [type]
      decide
    rw [userSeq, if_pos (.inr type), Trip.airSeq, if_neg other, Nat.mod_mod]
  constructor
  · rintro ⟨r, same, -, -, -, -, seq⟩
    cases same
    by_cases type : t.md.type = vmacHdrInjected
    · exact .inr ((injected type).symm.trans (seq type))
    · exact .inl type
  · intro cond
    refine ⟨_, rfl, rfl, rfl, rfl, rfl, fun type => ?_⟩
    rcases cond with other | same
    · exact absurd type other
    · exact (injected type).trans same

/-- An injected frame with number 7, on a kernel stack. -/
def injectedSeven : Trip where
  privA := ⟨[0, 1, 2, 3, 4, 5, 6, 7, 8, 9, 10, 11, 12, 13, 14, 15], 100, fun _ => 0, fun _ => 0⟩
  frame := ⟨[1, 2, 3], [0x61, 0x62]⟩
  md := ⟨vmacHdrInjected, 7, 0, 0, 0, 0⟩
  envA := .quiet
  worldA := World.init
  skb2 := some 5
  rxcSeq := 0xffffc90000a3fc5d
  rtap := ⟨0, 0, [0, 0, 0, 0], by decide⟩
  fcs := [0, 0, 0, 0]
  envB := .quiet
  worldB := { World.init with pidt := 200 }
  skbB := 6
  privB := ⟨[], 200, fun _ => 0, fun _ => 0⟩
  behind := []

theorem injectedSeven_travels : injectedSeven.Travels oneBucket where
  type := by decide
  fits := by decide
  skb2 := rfl
  interest := fun type => absurd type (by decide)
  data := fun type => absurd type (by decide)
  xmit := rfl
  fcs := rfl
  registered := by decide
  nlmsg := rfl
  subscribed := fun type => absurd type (by decide)

theorem end_to_end_iff_seven : injectedSeven.Transparent oneBucket ↔
    vmacHdrInjected ≠ vmacHdrInjected ∨ 0xffffc90000a3fc5d % 65536 = 7 :=
  end_to_end_iff oneBucket injectedSeven injectedSeven_travels

/-- Its number arrives as 0xfc5d. -/
theorem injected_number_lost : injectedSeven.Travels oneBucket ∧
    ¬ injectedSeven.Transparent oneBucket := by
  refine ⟨injectedSeven_travels, ?_⟩
  rintro ⟨r, received, -, -, -, -, seq⟩
  rw [injectedSeven_travels.received] at received
  cases received
  exact absurd (seq rfl) (by decide)

end Vmac.Userspace
