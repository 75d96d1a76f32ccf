/-
# Vmac.Userspace.Library -- the userspace library: `siphash24`, `send_vmac`, `recvvmac`

An interest name is hashed to its 64-bit encoding (csiphash.c).  `send_vmac` lays the
control block and the payload into the message buffer and sends `len + 100` bytes of
it; `recvvmac` takes them apart again and calls the process back.  Both message
buffers live as long as the process, so what lies behind a message is older bytes.
-/
import Vmac.Core.Netlink

namespace Vmac.Userspace

open Core Theory.Bytes

set_option autoImplicit false

/-! ## siphash24 -/

/-- `ROTATE(x, b)`. -/
def rotate (x b : UInt64) : UInt64 := x <<< b ||| x >>> (64 - b)

structure SipState where
  v0 : UInt64
  v1 : UInt64
  v2 : UInt64
  v3 : UInt64
  deriving DecidableEq, Repr

/-- `HALF_ROUND(a, b, c, d, s, t)`. -/
def halfRound (a b c d s t : UInt64) : UInt64 × UInt64 × UInt64 × UInt64 :=
  let a := a + b
  let c := c + d
  let b := rotate b s ^^^ a
  let d := rotate d t ^^^ c
  (rotate a 32, b, c, d)

namespace SipState

/-- Two half rounds, the half of `DOUBLE_ROUND`. -/
def round (v : SipState) : SipState :=
  let (v0, v1, v2, v3) := halfRound v.v0 v.v1 v.v2 v.v3 13 16
  let (v2, v1, v0, v3) := halfRound v2 v1 v0 v3 17 21
  ⟨v0, v1, v2, v3⟩

def doubleRound (v : SipState) : SipState := v.round.round

/-- One turn of the loop, on the word `mi`. -/
def absorb (v : SipState) (mi : UInt64) : SipState :=
  let v := { v with v3 := v.v3 ^^^ mi }.doubleRound
  { v with v0 := v.v0 ^^^ mi }

/-- `n` turns of `while (src_sz >= 8)`. -/
def absorbWords : Nat → List UInt8 → SipState → SipState
  | 0, _, v => v
  | n + 1, src, v => absorbWords n (src.drop 8) (v.absorb (UInt64.ofNat (ofLe (src.take 8))))

end SipState

def siphash24 (src key : List UInt8) : Enc :=
  let k0 := UInt64.ofNat (ofLe (key.take 8))
  let k1 := UInt64.ofNat (ofLe ((key.drop 8).take 8))
  let words := src.length / 8
  let v : SipState :=
    ⟨k0 ^^^ 0x736f6d6570736575, k1 ^^^ 0x646f72616e646f6d, k0 ^^^ 0x6c7967656e657261,
      k1 ^^^ 0x7465646279746573⟩
  let v := v.absorbWords words src
  -- the length, and the bytes after the last whole word
  let b := UInt64.ofNat src.length <<< 56 ||| UInt64.ofNat (ofLe (src.drop (8 * words)))
  let v := v.absorb b
  let v := { v with v2 := v.v2 ^^^ 0xff }.doubleRound.doubleRound
  (v.v0 ^^^ v.v1) ^^^ (v.v2 ^^^ v.v3)

/-- The reference value for the key and the 15 bytes 0, 1, 2, ... -/
example : siphash24 [0, 1, 2, 3, 4, 5, 6, 7, 8, 9, 10, 11, 12, 13, 14]
    [0, 1, 2, 3, 4, 5, 6, 7, 8, 9, 10, 11, 12, 13, 14, 15] = 0xa129ca6149be45e5 := by decide

/-! ## Sending -/

/-- `MAX_PAYLOAD`: bytes of a message buffer, its 16-byte header included. -/
def maxPayload : Nat := 2000

/-- `struct vmac_frame`: the lengths are those of the lists. -/
structure VmacFrame where
  buf : List UInt8
  interestName : List UInt8

/-- `struct meta_data`, less the encoding, which only the receiver fills. -/
structure MetaData where
  type : UInt8
  seq : UInt16
  rate : UInt8
  bw : UInt8
  sgi : UInt8
  stream : UInt8

/-- `struct vmac_lib_priv`: the key, the process, and the two message buffers from
`NLMSG_DATA` on. -/
structure VmacPriv where
  key : List UInt8
  pid : Int
  nlh : Nat → UInt8
  nlh2 : Nat → UInt8

/-- Memory after `memcpy` of `bytes` to its front. -/
def overwrite (memory : Nat → UInt8) (bytes : List UInt8) : Nat → UInt8 :=
  byteAt (fun k => memory (bytes.length + k)) bytes

def sendVmac (priv : VmacPriv) (frame : VmacFrame) (md : MetaData) : VmacPriv × Nlmsg :=
  let txc : Control :=
    { type := md.type
      enc := siphash24 frame.interestName priv.key
      seq := md.seq.toNat
      rate := md.rate
      bw := md.bw
      sgi := md.sgi
      stream := md.stream }
  let nlh := overwrite priv.nlh (txc.bytes ++ frame.buf)
  ({ priv with nlh := nlh },
    { len := frame.buf.length + 100
      type := md.type.toNat
      pid := priv.pid
      data := (List.range (frame.buf.length + 100 - 16)).map nlh })

/-! ## Receiving -/

/-- What the callback gets: of the frame its bytes and length, of the meta data the type,
the number and the encoding. -/
structure Received where
  buf : List UInt8
  len : Nat
  type : UInt8
  seq : Nat
  enc : Enc
  deriving DecidableEq, Repr

/-- `recvvmac` on a message of length `nlmsgLen`: `bytes` is what follows its header. -/
def recvvmac (priv : VmacPriv) (nlmsgLen : Nat) (bytes : List UInt8) : VmacPriv × Received :=
  let nlh2 := overwrite priv.nlh2 (bytes.take (maxPayload - 16))
  let bytes := (List.range 15).map nlh2
  let rxc := readControl (fun _ => 0) bytes
  ({ priv with nlh2 := nlh2 },
    { buf := (List.range (nlmsgLen - 100)).map fun i => nlh2 (15 + i)
      len := (nlmsgLen - 100) % 65536
      -- two bytes are read, the struct keeps one
      type := UInt8.ofNat (field (fun _ => 0) bytes 0 2)
      seq := rxc.seq
      enc := rxc.enc })

/-! ## What was written is read -/

theorem overwrite_slice (memory : Nat → UInt8) (pre mid post : List UInt8) :
    (List.range mid.length).map (fun i => overwrite memory (pre ++ mid ++ post) (pre.length + i)) =
      mid :=
  map_byteAt_append _ pre mid post

theorem overwrite_front (memory : Nat → UInt8) (front post : List UInt8) :
    (List.range front.length).map (overwrite memory (front ++ post)) = front := by
  have slice := overwrite_slice memory [] front post
  simpa using slice

/-- The message begins with the control block and the payload. -/
theorem sendVmac_data (priv : VmacPriv) (frame : VmacFrame) (md : MetaData) :
    ∃ stale, (sendVmac priv frame md).2.data = Control.bytes
      ⟨md.type, siphash24 frame.interestName priv.key, md.seq.toNat, md.rate, md.bw, md.sgi,
        md.stream⟩ ++ frame.buf ++ stale := by
  unfold sendVmac
  dsimp only
  generalize written : Control.bytes _ ++ frame.buf = front
  have room : frame.buf.length + 100 - 16 = front.length + 69 := by
    rw [← written, List.length_append, Control.length_bytes]
    omega
  have whole := overwrite_front priv.nlh front []
  rw [List.append_nil] at whole
  rw [room, List.range_add, List.map_append, whole, ← written]
  exact ⟨_, rfl⟩

theorem ofNat_low (b : UInt8) (n : Nat) : UInt8.ofNat (b.toNat + 256 * n) = b := by
  apply UInt8.toNat_inj.mp
  have small := b.toNat_lt
  rw [UInt8.toNat_ofNat']
  omega

/-- Of the two bytes at the type, the first one is kept. -/
theorem field_type (past : Nat → UInt8) (c : Control) : UInt8.ofNat (field past c.bytes 0 2) = c.type :=
  ofNat_low c.type _

/-- A message that fits the buffer is taken apart into what it was made of. -/
theorem recvvmac_bytes (priv : VmacPriv) {c : Control} (small : c.seq < 65536) {buf : List UInt8}
    (fits : buf.length + 100 ≤ maxPayload) (behind : List UInt8) :
    (recvvmac priv (buf.length + 100) (c.bytes ++ (buf ++ behind))).2 =
      ⟨buf, buf.length, c.type, c.seq, c.enc⟩ := by
  have short : buf.length ≤ 1900 := by
    unfold maxPayload at fits
    omega
  have taken : ∃ rest, (c.bytes ++ (buf ++ behind)).take (maxPayload - 16) =
      c.bytes ++ buf ++ rest := by
    refine ⟨behind.take (maxPayload - 16 - 15 - buf.length), ?_⟩
    rw [List.take_append, List.take_append, List.append_assoc, Control.length_bytes,
      List.take_of_length_le (by rw [Control.length_bytes]; decide),
      List.take_of_length_le (by unfold maxPayload; omega)]
  obtain ⟨rest, taken⟩ := taken
  have control := overwrite_front priv.nlh2 c.bytes (buf ++ rest)
  have payload := overwrite_slice priv.nlh2 c.bytes buf rest
  rw [Control.length_bytes, ← List.append_assoc] at control
  rw [Control.length_bytes] at payload
  have fields := readControl_bytes (fun _ => 0) small []
  rw [List.append_nil] at fields
  unfold recvvmac
  dsimp only
  rw [taken, control, Nat.add_sub_cancel, payload, field_type]
  rw [fields, Nat.mod_eq_of_lt (by omega)]

end Vmac.Userspace
