/-
# Vmac.Core.Netlink -- from userspace into the core: `nl_recv`

A netlink message is its header fields and the bytes behind the header: the control
block, then the frame.  Its length field is the frame's length and 100.
`nl_recv` registers the sender, copies the frame into a socket buffer and calls
`vmac_tx` -- with the address of the sequence number, not the number.
-/
import Vmac.Core.Tx

namespace Vmac.Core

open Theory.Bytes

set_option autoImplicit false

/-- What is read of `struct nlmsghdr`, and the bytes from `nlmsg_data` on. -/
structure Nlmsg where
  len : Nat
  type : Nat
  pid : Int
  data : List UInt8

/-- The frame types userspace can send. -/
abbrev FromUser (type : UInt8) : Prop :=
  type = vmacHdrInterest ∨ type = vmacHdrData ∨ type = vmacHdrAnouncment ∨ type = vmacHdrInjected

/-- `memcpy(skb_put(skb2, size), nlmsg_data(nlh) + sizeof(struct control), size)`. -/
def Nlmsg.frame (past : Nat → UInt8) (msg : Nlmsg) : List UInt8 :=
  (List.range (msg.len - 100)).map fun i => byteAt past msg.data (15 + i)

/-- `nl_recv`: `skb2` is the outcome of `dev_alloc_skb`, `rxcSeq` the address of `rxc.seq[0]`,
of which the `u16` parameter of `vmac_tx` keeps the low 16 bits. -/
def nlRecv (hash : Enc → Bucket) (env : Env) (w : World) (skb2 : Option Nat) (rxcSeq : Nat)
    (msg : Nlmsg) : World × List Out :=
  let type := UInt8.ofNat msg.type
  let w := { w with pidt := msg.pid }
  if FromUser type then
    let rxc := readControl env.past msg.data
    match skb2 with
    | none => (w, [])
    | some id =>
        -- `skb_put` of a negative size
        if msg.len < 100 then (w, [.alloc id, .oops])
        else
          let r := vmacTx hash env w ⟨id, msg.frame env.past⟩ rxc.enc type (rxcSeq % 65536)
          (r.1, .alloc id :: r.2)
  else (w, [])

/-- A message that carries a control block and a payload. -/
theorem nlRecv_frame (hash : Enc → Bucket) (env : Env) (w : World) (id rxcSeq : Nat) {msg : Nlmsg}
    {c : Control} (small : c.seq < 65536) {payload stale : List UInt8}
    (data : msg.data = c.bytes ++ payload ++ stale) (len : msg.len = payload.length + 100)
    (type : UInt8.ofNat msg.type = c.type) (known : FromUser c.type) :
    (nlRecv hash env w (some id) rxcSeq msg).2 = .alloc id ::
      (vmacTx hash env { w with pidt := msg.pid } ⟨id, payload⟩ c.enc c.type (rxcSeq % 65536)).2 := by
  have control : readControl env.past msg.data = c := by
    rw [data, List.append_assoc]
    exact readControl_bytes env.past small _
  have frame : msg.frame env.past = payload := by
    have slice := map_byteAt_append env.past c.bytes payload stale
    rw [Control.length_bytes] at slice
    rw [Nlmsg.frame, data, len, Nat.add_sub_cancel, slice]
  have long : ¬ msg.len < 100 := by omega
  simp only [nlRecv, type, if_pos known, control, if_neg long, frame]

/-! ## What goes on the air -/

/-- The header and, for data and injected frames, the number in front of a payload. -/
def frameHeaders (enc : Enc) (type : UInt8) (seq : Nat) : List UInt8 :=
  VmacHdr.bytes ⟨enc, type⟩ ++
    if type = vmacHdrData ∨ type = vmacHdrInjected then VmacData.bytes ⟨seq⟩ else []

/-- The messages a call has put to userspace: length field, and the bytes behind the header. -/
def users (outs : List Out) : List (Nat × List UInt8) :=
  outs.filterMap fun out => match out with | .user _ len body => some (len, body) | _ => none

/-- The frames a call has given to the radio. -/
def radios (outs : List Out) : List (List UInt8) :=
  outs.filterMap fun out => match out with | .radio frame => some frame | _ => none

@[simp] theorem radios_append (xs ys : List Out) : radios (xs ++ ys) = radios xs ++ radios ys :=
  List.filterMap_append

@[simp] theorem radios_kfreeSkb (skb : Option Skb) : radios (kfreeSkb skb) = [] := by
  cases skb <;> rfl

@[simp] theorem radios_alloc (id : Nat) (outs : List Out) :
    radios (.alloc id :: outs) = radios outs := rfl

theorem radios_vmacLowTx (env : Env) (k : Nat) (skb : Skb) : radios (vmacLowTx env k skb) =
    if env.xmitOk k then [ieee80211Hdr (env.junk k) ++ skb.data] else [] := by
  unfold vmacLowTx xmitMo
  cases env.xmitOk k <;> rfl

section Frames

variable (env : Env) (n : Entries) (skb : Skb) (enc : Enc)

/-- The number of the next data frame. -/
def Entries.seq (n : Entries) : Nat := n.tx.elim 0 EncodingTx.seq

/-- A data frame is sent with the next number, or the kernel is out of memory for the entry. -/
theorem txFrame_data (seqtmp : Nat) :
    (∃ t, t.seq = n.seq ∧ txFrame env n skb enc vmacHdrData seqtmp =
      ({ n with tx := some (txData env t enc skb).1 }, (txData env t enc skb).2)) ∨
    n.tx = none ∧ env.vmallocOk = false ∧
      txFrame env n skb enc vmacHdrData seqtmp = (n, [.oops]) := by
  unfold txFrame Entries.seq
  rw [if_neg (by decide), if_pos rfl]
  cases found : n.tx with
  | some t => exact .inl ⟨t, rfl, rfl⟩
  | none =>
      by_cases memory : env.vmallocOk = true
      · exact .inl ⟨freshTx env enc, rfl, if_pos memory⟩
      · exact .inr ⟨rfl, Bool.eq_false_iff.mpr memory, if_neg memory⟩

theorem radios_txData (t : EncodingTx) : radios (txData env t enc skb).2 =
    if env.xmitOk 0 then [ieee80211Hdr (env.junk 0) ++ (dataFrame enc t.seq skb).data] else [] := by
  unfold txData
  rw [radios_append, radios_append, radios_kfreeSkb, radios_vmacLowTx]
  cases dataCopy env (dataFrame enc t.seq skb) <;> rfl

/-- The frame `vmac_tx` gives to the radio: its headers and the payload. -/
theorem radios_txFrame {type : UInt8} (seqtmp : Nat) (known : FromUser type)
    (interest : type = vmacHdrInterest → n.rx.isSome ∨ env.vmallocOk = true)
    (data : type = vmacHdrData → n.tx.isSome ∨ env.vmallocOk = true)
    (xmit : env.xmitOk 0 = true) :
    radios (txFrame env n skb enc type seqtmp).2 = [ieee80211Hdr (env.junk 0) ++
      (frameHeaders enc type (if type = vmacHdrData then n.seq else seqtmp) ++ skb.data)] := by
  have sends (headers : List UInt8) : radios (vmacLowTx env 0 (skb.push headers)) =
      [ieee80211Hdr (env.junk 0) ++ (headers ++ skb.data)] := by
    rw [radios_vmacLowTx, if_pos xmit, Skb.push_data]
  rcases known with rfl | rfl | rfl | rfl
  · -- interest: the entry is there, or there is memory for it
    have bare : frameHeaders enc vmacHdrInterest seqtmp = VmacHdr.bytes ⟨enc, vmacHdrInterest⟩ :=
      List.append_nil _
    rw [if_neg (by decide), bare, ← sends]
    unfold txFrame
    rw [if_pos rfl]
    cases found : n.rx with
    | some e => rfl
    | none =>
        have memory : env.vmallocOk = true := by simpa [found] using interest rfl
        simp only [memory, if_true]
  · -- data: its number is the entry's
    have headers : frameHeaders enc vmacHdrData n.seq = VmacHdr.bytes ⟨enc, vmacHdrData⟩ ++
        VmacData.bytes ⟨n.seq⟩ := rfl
    rw [if_pos rfl, headers]
    rcases txFrame_data env n skb enc seqtmp with ⟨t, seq, sent⟩ | ⟨none, no, -⟩
    · rw [sent, radios_txData, if_pos xmit, seq, List.append_assoc]
      rfl
    · simp [none, no] at data
  · have bare : frameHeaders enc vmacHdrAnouncment seqtmp =
        VmacHdr.bytes ⟨enc, vmacHdrAnouncment⟩ := List.append_nil _
    rw [if_neg (by decide), bare, ← sends]
    rfl
  · have headers : frameHeaders enc vmacHdrInjected seqtmp =
        VmacHdr.bytes ⟨enc, vmacHdrInjected⟩ ++ VmacData.bytes ⟨seqtmp⟩ := rfl
    rw [if_neg (by decide), headers, ← sends]
    rfl

end Frames

end Vmac.Core
