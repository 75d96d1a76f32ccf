/-
# Vmac.Core.Encoding -- the two entries of an encoding, and what a call can meet

`EncodingRx` and `EncodingTx` are `struct encoding_rx` and `struct encoding_tx`
of vmac.h, less the fields the core only initialises.  Arrays are functions of
their index; `EncodingRx.pad` is the half-word in front of `window[0]` (padding of
`clean`), which `prepDACK` can read.

A call of the core depends on more than its arguments: the clock, which
allocations succeed, what uninitialised memory holds, whether a lock is taken.
`Env` collects these; a theorem that quantifies over `Env` holds whatever they
turn out to be.  Allocations of one call are numbered from `base`.
-/
import Vmac.Core.Header

namespace Vmac.Core

set_option autoImplicit false

/-! ## Entries -/

/-- `enum clean_type`. -/
inductive CleanType where
  | cleanEncTx
  | cleanEncRx
  deriving DecidableEq, Repr

/-- `struct enc_cleanup`. -/
structure EncCleanup where
  enc : Enc
  type : CleanType
  deriving DecidableEq, Repr

/-- `struct dack_info`; `dack` is the pending DACK, `none` for NULL. -/
structure DackInfo where
  send : Nat
  round : Nat
  dacksheard : Nat
  dack : Option Skb
  deriving DecidableEq, Repr

/-- `struct encoding_rx`. -/
structure EncodingRx where
  key : Enc
  clean : EncCleanup
  pad : Nat
  window : Nat → Nat
  alpha : Nat
  firstFrame : Nat
  secondFrame : Nat
  lastin : Nat
  latest : Nat
  dacInfo : DackInfo
  round : Nat
  encTimeout : Nat
  dackTimer : Option Nat

/-- What no call changes in an entry. -/
def EncodingRx.fixed (e : EncodingRx) : Enc × EncCleanup × Nat := (e.key, e.clean, e.pad)

/-- `struct encoding_tx`. -/
structure EncodingTx where
  key : Enc
  clean : EncCleanup
  retransmissionBuffer : Nat → Option Skb
  timer : Nat → Nat
  seq : Nat
  dackcounter : Nat
  framecount : Nat
  encTimeout : Nat

/-! ## Effects and environment -/

/-- What a call does to the outside. -/
inductive Out where
  /-- A socket buffer is allocated (`dev_alloc_skb`, `skb_copy`, `nlmsg_new`). -/
  | alloc (skb : Nat)
  /-- A socket buffer is released (`kfree_skb`, `nlmsg_free`, `rtw_skb_free`, or consumed
  by `nlmsg_unicast`). -/
  | free (skb : Nat)
  /-- A release through a pointer that was never set. -/
  | freeWild (pointer : Nat)
  /-- A frame is copied into a transmit frame and given to `dump_mgntframe`. -/
  | radio (frame : List UInt8)
  /-- A netlink message for process `pid`: `nlmsg_len` and the bytes from `nlmsg_data` on. -/
  | user (pid : Int) (nlmsgLen : Nat) (body : List UInt8)
  /-- The kernel traps: a NULL pointer is dereferenced or a negative length copied. -/
  | oops
  deriving DecidableEq, Repr

/-- Release through a pointer: `kfree_skb(NULL)` does nothing. -/
def kfreeSkb : Option Skb → List Out
  | some skb => [.free skb.id]
  | none => []

/-- The fields of the 802.11 header on the stack of `vmac_low_tx` that it leaves unset. -/
structure HdrJunk where
  durationId : Nat
  seqCtrl : Nat
  addr4 : Nat
  deriving DecidableEq, Repr

/-- What a call of the core meets. -/
structure Env where
  /-- The clock. -/
  jiffies : Nat
  /-- The identity of the next socket buffer to be allocated. -/
  base : Nat
  /-- The bytes in memory behind the received frame. -/
  past : Nat → UInt8
  /-- Outcome of the `k`-th `skb_copy` of the call. -/
  copyOk : Nat → Bool
  /-- Outcome of the `k`-th allocation of a management transmit frame. -/
  xmitOk : Nat → Bool
  /-- Outcome of `dev_alloc_skb` in `prepDACK`. -/
  dackOk : Bool
  /-- Whether `prepDACK` finds the DACK lock free. -/
  lockFree : Bool
  /-- What `get_random_bytes` puts into `rndm`. -/
  rndm : Int
  /-- Outcome of `nlmsg_new`. -/
  nlmsgOk : Bool
  /-- What the unset local `skb_out` of `nl_send` holds. -/
  skbOut : Option Nat
  /-- What the unset local `txc` of `nl_send` holds. -/
  txc : Control
  /-- What the unset header fields of the `k`-th transmission hold. -/
  junk : Nat → HdrJunk
  /-- Outcome of `vmalloc`, and what the memory it returns holds. -/
  vmallocOk : Bool
  rxMem : EncodingRx
  txMem : EncodingTx

/-- `msecs_to_jiffies`, with one jiffy a millisecond. -/
def msecsToJiffies (ms : Nat) : Nat := ms

end Vmac.Core
