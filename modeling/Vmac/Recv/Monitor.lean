/-
# Vmac.Recv.Monitor -- from the monitor path into the core: `vmac_override`

In monitor mode a received frame has a radiotap header in front, of the length its
`it_len` says.  A frame whose third address begins with `fe:fe:fe` is a V-MAC frame:
the radiotap and the 802.11 header are taken off and the rest goes to `vmac_rx`.
-/
import Vmac.Core.LowTx
import Vmac.Core.Rx
import Mathlib.Tactic.IntervalCases

namespace Vmac.Recv

open Core Theory.Bytes

set_option autoImplicit false

/-- `rtap->it_len`. -/
def itLen (past : Nat → UInt8) (data : List UInt8) : Nat := field past data 2 2

/-- `hdr->addr3` begins with three bytes `0xfe`; `hdr` lies behind the radiotap header. -/
def isVmac (past : Nat → UInt8) (data : List UInt8) : Bool :=
  let addr3 := itLen past data + 16
  byteAt past data addr3 = 0xfe && byteAt past data (addr3 + 1) = 0xfe &&
    byteAt past data (addr3 + 2) = 0xfe

/-- `vmac_override` on the frame's buffer. -/
def vmacOverride (hash : Enc → Bucket) (env : Env) (w : World) (skb : Skb) : World × List Out :=
  if isVmac env.past skb.data then
    vmacRx hash env w ((skb.pull (itLen env.past skb.data)).pull 30)
  else (w, [.free skb.id])

/-! ## Frames from `vmac_low_tx` -/

/-- A radiotap header: version, padding, `it_len`, then the present words and the fields. -/
structure Radiotap where
  version : UInt8
  pad : UInt8
  fields : List UInt8
  short : 4 + fields.length < 65536

namespace Radiotap

def bytes (rtap : Radiotap) : List UInt8 :=
  [rtap.version, rtap.pad] ++ toLe 2 (4 + rtap.fields.length) ++ rtap.fields

@[simp] theorem length_bytes (rtap : Radiotap) : rtap.bytes.length = 4 + rtap.fields.length := by
  simp only [bytes, List.length_append, length_toLe, List.length_cons, List.length_nil]

theorem itLen_bytes (rtap : Radiotap) (past : Nat → UInt8) (rest : List UInt8) :
    itLen past (rtap.bytes ++ rest) = 4 + rtap.fields.length :=
  field_toLe past [rtap.version, rtap.pad] (rtap.fields ++ rest) (by simp [bytes]) rfl rtap.short

end Radiotap

/-- The third address of a frame from `vmac_low_tx`. -/
theorem byteAt_addr3 (past : Nat → UInt8) (junk : HdrJunk) (rest : List UInt8) {k : Nat}
    (inside : k < 6) : byteAt past (ieee80211Hdr junk ++ rest) (16 + k) = 0xfe := by
  interval_cases k <;> simp [byteAt, ieee80211Hdr, toLe]

theorem isVmac_ieee80211Hdr (rtap : Radiotap) (past : Nat → UInt8) (junk : HdrJunk)
    (rest : List UInt8) : isVmac past (rtap.bytes ++ (ieee80211Hdr junk ++ rest)) = true := by
  have addr3 (k : Nat) (inside : k < 6) : byteAt past (rtap.bytes ++ (ieee80211Hdr junk ++ rest))
      (4 + rtap.fields.length + 16 + k) = 0xfe := by
    rw [Nat.add_assoc _ 16 k, byteAt_append_right past rtap.length_bytes]
    exact byteAt_addr3 past junk rest inside
  have first := addr3 0 (by decide)
  rw [Nat.add_zero] at first
  unfold isVmac
  rw [rtap.itLen_bytes]
  simp [first, addr3 1 (by decide), addr3 2 (by decide)]

/-- Behind a radiotap header, a frame from `vmac_low_tx` reaches `vmac_rx` without its
802.11 header. -/
theorem vmacOverride_ieee80211Hdr (hash : Enc → Bucket) (env : Env) (w : World) (id : Nat)
    (rtap : Radiotap) (junk : HdrJunk) (rest : List UInt8) :
    vmacOverride hash env w ⟨id, rtap.bytes ++ (ieee80211Hdr junk ++ rest)⟩ =
      vmacRx hash env w ⟨id, rest⟩ := by
  unfold vmacOverride
  rw [if_pos (isVmac_ieee80211Hdr rtap env.past junk rest)]
  dsimp only
  rw [rtap.itLen_bytes]
  unfold Skb.pull
  rw [pull_of_length rtap.length_bytes, pull_of_length (length_ieee80211Hdr junk)]

end Vmac.Recv
