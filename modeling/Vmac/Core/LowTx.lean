/-
# Vmac.Core.LowTx -- to the radio: `vmac_low_tx`, `xmit_mo`, `vmac_send_hack`

A frame gets the spoofed 802.11 header in front and is copied into a management
transmit frame.  The buffer it came in is released when that frame was there to be
had, and is left to the caller (which never looks) when it was not.
-/
import Vmac.Core.Encoding

namespace Vmac.Core

open Theory.Bytes

set_option autoImplicit false

/-- `struct ieee80211_hdr` as `vmac_low_tx` fills it: a data frame from the fixed
source to everybody, the third address `fe:fe:fe:fe:fe:fe`. -/
def ieee80211Hdr (junk : HdrJunk) : List UInt8 :=
  [0x08, 0x00] ++ toLe 2 junk.durationId ++
    [0xff, 0xff, 0xff, 0xff, 0xff, 0xff] ++
    [0x00, 0xc0, 0xca, 0xa8, 0xf2, 0xa2] ++
    [0xfe, 0xfe, 0xfe, 0xfe, 0xfe, 0xfe] ++
    toLe 2 junk.seqCtrl ++ toLe 6 junk.addr4

@[simp] theorem length_ieee80211Hdr (junk : HdrJunk) : (ieee80211Hdr junk).length = 30 := by
  simp [ieee80211Hdr]

/-- `xmit_mo` for the `k`-th frame of the call: `NETDEV_TX_BUSY` without a transmit frame. -/
def xmitMo (env : Env) (k : Nat) (skb : Skb) : List Out :=
  if env.xmitOk k then [.radio skb.data, .free skb.id] else []

def vmacLowTx (env : Env) (k : Nat) (skb : Skb) : List Out :=
  xmitMo env k (skb.push (ieee80211Hdr (env.junk k)))

/-- `vmac_send_hack`: a DACK or a retransmission, at its fixed rate. -/
def vmacSendHack (env : Env) (k : Nat) : Option Skb → List Out
  | some skb => vmacLowTx env k skb
  | none => [.oops]

end Vmac.Core
