/-
# Vmac.Core.Tx -- sending a frame: `vmac_tx`

An interest creates or refreshes the receiver entry of its encoding, a data frame
the producer entry.  A data frame takes the next sequence number and leaves a copy
of itself in slot `seq % WINDOW_TX` of the retransmission buffer (`keepCopy`).  From
frame `WINDOW_TX` on the pointer that was in the slot is released -- also when the
copy failed and the slot still holds it.
-/
import Vmac.Core.LowTx
import Vmac.Core.Tables

namespace Vmac.Core

open Theory

set_option autoImplicit false

/-! ## Data -/

/-- A data frame with both its headers. -/
def dataFrame (enc : Enc) (seq : Nat) (skb : Skb) : Skb :=
  (skb.push (VmacData.bytes ⟨seq⟩)).push (VmacHdr.bytes ⟨enc, vmacHdrData⟩)

/-- `tmp1`: the copy that goes into the retransmission buffer, if it can be had. -/
def dataCopy (env : Env) (skb : Skb) : Option Skb :=
  if env.copyOk 0 then some ⟨env.base, skb.data⟩ else none

/-- `tmp2`: what the slot of this frame held, from frame `WINDOW_TX` on. -/
def EncodingTx.oldCopy (t : EncodingTx) : Option Skb :=
  if t.seq ≥ windowTx then t.retransmissionBuffer (t.seq % windowTx) else none

/-- The producer entry after a data frame: `seq++`, the pacing timer and the slot. -/
def EncodingTx.keepCopy (t : EncodingTx) (copy : Option Skb) : EncodingTx :=
  { t with
    seq := (t.seq + 1) % 65536
    timer := Function.update t.timer (t.seq % windowTx) 0
    retransmissionBuffer :=
      match copy with
      | some skb => Function.update t.retransmissionBuffer (t.seq % windowTx) (some skb)
      | none => t.retransmissionBuffer }

/-- The DATA branch on the entry that `find_tx` returns or `vmac_tx` has just added. -/
def txData (env : Env) (t : EncodingTx) (enc : Enc) (skb : Skb) : EncodingTx × List Out :=
  let skb := dataFrame enc t.seq skb
  let tmp1 := dataCopy env skb
  ((t.refresh env).keepCopy tmp1,
    (match tmp1 with | some copy => [.alloc copy.id] | none => []) ++
      kfreeSkb t.oldCopy ++ vmacLowTx env 0 skb)

/-! ## The frame types -/

/-- `vmac_tx` on the entries of the encoding. -/
def txFrame (env : Env) (n : Entries) (skb : Skb) (enc : Enc) (type : UInt8) (seqtmp : Nat) :
    Entries × List Out :=
  if type = vmacHdrInterest then
    let send := vmacLowTx env 0 (skb.push (VmacHdr.bytes ⟨enc, vmacHdrInterest⟩))
    match n.rx with
    | some e => ({ n with rx := some (e.refresh env) }, send)
    | none =>
        if env.vmallocOk then ({ n with rx := some ((freshRx env enc).refresh env) }, send)
        else (n, [.oops])
  else if type = vmacHdrData then
    match n.tx with
    | some t =>
        let r := txData env t enc skb
        ({ n with tx := some r.1 }, r.2)
    | none =>
        if env.vmallocOk then
          let r := txData env (freshTx env enc) enc skb
          ({ n with tx := some r.1 }, r.2)
        else (n, [.oops])
  else if type = vmacHdrAnouncment then
    (n, vmacLowTx env 0 (skb.push (VmacHdr.bytes ⟨enc, type⟩)))
  else if type = vmacHdrInjected then
    (n, vmacLowTx env 0
      ((skb.push (VmacData.bytes ⟨seqtmp⟩)).push (VmacHdr.bytes ⟨enc, vmacHdrInjected⟩)))
  else (n, [.free skb.id])

def vmacTx (hash : Enc → Bucket) (env : Env) (w : World) (skb : Skb) (enc : Enc) (type : UInt8)
    (seqtmp : Nat) : World × List Out :=
  let r := txFrame env (w.found hash enc) skb enc type seqtmp
  (w.put hash enc r.1, r.2)

end Vmac.Core
