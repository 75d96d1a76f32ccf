/-
# Vmac.Core.Header -- constants, frames and records of vmac.h

The packed headers of a V-MAC frame are little-endian byte strings in front of
the payload: `VmacHdr` (encoding and type), then for data and injected frames
`VmacData` (sequence number), for DACK frames `VmacDack` (number of holes and
round) followed by the holes `[le, re)`.  Each has its `bytes` and a reader.

A socket buffer is its identity and the bytes from `data` to `tail`.  What the
core does with buffers and frames is a list of `Out`: buffers allocated and
released, frames copied to the radio, messages put to the userspace process.
-/
import Vmac.Theory.Bytes

namespace Vmac.Core

open Theory.Bytes

set_option autoImplicit false

/-! ## Constants -/

/-- `WINDOW`: slots of the receive window. -/
def windowSize : Nat := 700

/-- `WINDOW_TX`: slots of the retransmission buffer. -/
def windowTx : Nat := 500

/-- `HOLES_MAX`: holes a DACK can carry. -/
def holesMax : Nat := 40

/-- Life of an encoding entry after its last refresh, in milliseconds. -/
def encTimeoutMs : Nat := 30000

/-- `VMAC_HDR_*`: the frame types of the type byte. -/
def vmacHdrInterest : UInt8 := 0x00
def vmacHdrData : UInt8 := 0x01
def vmacHdrDack : UInt8 := 0x02
def vmacHdrAnouncment : UInt8 := 0x03
def vmacHdrInjected : UInt8 := 0x05

/-- The 64-bit encoding of an interest name. -/
abbrev Enc := UInt64

/-! ## Headers -/

/-- `struct vmac_hdr`. -/
structure VmacHdr where
  enc : Enc
  type : UInt8
  deriving DecidableEq, Repr

/-- `struct vmac_data`. -/
structure VmacData where
  seq : Nat
  deriving DecidableEq, Repr

/-- `struct vmac_hole`: the sequence numbers from `le` up to and without `re`. -/
structure VmacHole where
  le : Nat
  re : Nat
  deriving DecidableEq, Repr

/-- `struct vmac_DACK` and the holes that follow it. -/
structure VmacDack where
  round : Nat
  holes : List VmacHole
  deriving DecidableEq, Repr

def VmacHdr.bytes (h : VmacHdr) : List UInt8 := toLe 8 h.enc.toNat ++ [h.type]

def VmacData.bytes (d : VmacData) : List UInt8 := toLe 2 d.seq

def VmacHole.bytes (h : VmacHole) : List UInt8 := toLe 2 h.le ++ toLe 2 h.re

def VmacDack.bytes (d : VmacDack) : List UInt8 :=
  toLe 2 d.holes.length ++ toLe 2 d.round ++ d.holes.flatMap VmacHole.bytes

@[simp] theorem VmacHdr.length_bytes (h : VmacHdr) : h.bytes.length = 9 := by simp [VmacHdr.bytes]

@[simp] theorem VmacData.length_bytes (d : VmacData) : d.bytes.length = 2 := by
  simp [VmacData.bytes]

@[simp] theorem VmacHole.length_bytes (h : VmacHole) : h.bytes.length = 4 := by
  simp [VmacHole.bytes]

/-- The header a frame starts with, read as the cast `(struct vmac_hdr*)skb->data` reads it. -/
def readHdr (past : Nat → UInt8) (data : List UInt8) : VmacHdr :=
  ⟨UInt64.ofNat (field past data 0 8), byteAt past data 8⟩

def readSeq (past : Nat → UInt8) (data : List UInt8) : Nat := field past data 0 2

def readHole (past : Nat → UInt8) (data : List UInt8) : VmacHole :=
  ⟨field past data 0 2, field past data 2 2⟩

/-- The holes the DACK branch reads, one `skb_pull` after another. -/
def readHoles (past : Nat → UInt8) : Nat → List UInt8 → List VmacHole
  | 0, _ => []
  | n + 1, data => readHole past data :: readHoles past n (pull 4 data)

def readDack (past : Nat → UInt8) (data : List UInt8) : VmacDack :=
  ⟨field past data 2 2, readHoles past (field past data 0 2) (pull 4 data)⟩

theorem readHdr_bytes (past : Nat → UInt8) (h : VmacHdr) (rest : List UInt8) :
    readHdr past (h.bytes ++ rest) = h := by
  have enc : field past (h.bytes ++ rest) 0 8 = h.enc.toNat :=
    field_toLe past [] (h.type :: rest) (by simp [VmacHdr.bytes]) rfl h.enc.toNat_lt
  have type : byteAt past (h.bytes ++ rest) 8 = h.type := by
    simp [byteAt, VmacHdr.bytes]
  rw [readHdr, enc, type, UInt64.ofNat_toNat]

/-- A number is read back as far as its 16 bits go. -/
theorem readSeq_bytes_mod (past : Nat → UInt8) (d : VmacData) (rest : List UInt8) :
    readSeq past (d.bytes ++ rest) = d.seq % 65536 := by
  have front : d.bytes ++ rest = [] ++ toLe 2 d.seq ++ rest := by simp [VmacData.bytes]
  exact (field_of_split past front rfl (length_toLe 2 d.seq)).trans (ofLe_toLe 2 d.seq)

theorem readSeq_bytes (past : Nat → UInt8) {d : VmacData} (fits : d.seq < 65536)
    (rest : List UInt8) : readSeq past (d.bytes ++ rest) = d.seq := by
  rw [readSeq_bytes_mod, Nat.mod_eq_of_lt fits]

/-- Both edges of a hole fit their 16-bit fields. -/
def VmacHole.Fits (h : VmacHole) : Prop := h.le < 65536 ∧ h.re < 65536

theorem readHole_bytes (past : Nat → UInt8) {h : VmacHole} (fits : h.Fits) (rest : List UInt8) :
    readHole past (h.bytes ++ rest) = h := by
  have left : field past (h.bytes ++ rest) 0 2 = h.le :=
    field_toLe past [] (toLe 2 h.re ++ rest) (by simp [VmacHole.bytes]) rfl fits.1
  have right : field past (h.bytes ++ rest) 2 2 = h.re :=
    field_toLe past (toLe 2 h.le) rest (by simp [VmacHole.bytes]) (by simp) fits.2
  rw [readHole, left, right]

theorem readHoles_bytes (past : Nat → UInt8) {holes : List VmacHole}
    (fits : ∀ h ∈ holes, h.Fits) (rest : List UInt8) :
    readHoles past holes.length (holes.flatMap VmacHole.bytes ++ rest) = holes := by
  induction holes with
  | nil => rfl
  | cons h holes ih =>
      rw [List.forall_mem_cons] at fits
      rw [List.flatMap_cons, List.append_assoc, List.length_cons, readHoles,
        readHole_bytes past fits.1, pull_of_length h.length_bytes, ih fits.2]

/-- A DACK whose fields fit is read back from its bytes. -/
theorem readDack_bytes (past : Nat → UInt8) {d : VmacDack} (round : d.round < 65536)
    (count : d.holes.length < 65536) (fits : ∀ h ∈ d.holes, h.Fits) (rest : List UInt8) :
    readDack past (d.bytes ++ rest) = d := by
  have holes : field past (d.bytes ++ rest) 0 2 = d.holes.length :=
    field_toLe past [] (toLe 2 d.round ++ d.holes.flatMap VmacHole.bytes ++ rest)
      (by simp [VmacDack.bytes]) rfl count
  have rnd : field past (d.bytes ++ rest) 2 2 = d.round :=
    field_toLe past (toLe 2 d.holes.length) (d.holes.flatMap VmacHole.bytes ++ rest)
      (by simp [VmacDack.bytes]) (by simp) round
  have body : pull 4 (d.bytes ++ rest) = d.holes.flatMap VmacHole.bytes ++ rest := by
    rw [VmacDack.bytes, List.append_assoc]
    exact pull_of_length (by simp)
  rw [readDack, holes, rnd, body, readHoles_bytes past fits]

/-! ## The control block -/

/-- `struct control`, in front of every payload between the core and userspace. -/
structure Control where
  type : UInt8
  enc : Enc
  seq : Nat
  rate : UInt8
  bw : UInt8
  sgi : UInt8
  stream : UInt8
  deriving DecidableEq, Repr

def Control.bytes (c : Control) : List UInt8 :=
  [c.type] ++ toLe 8 c.enc.toNat ++ toLe 2 c.seq ++ [c.rate, c.bw, c.sgi, c.stream]

@[simp] theorem Control.length_bytes (c : Control) : c.bytes.length = 15 := by
  simp [Control.bytes]

def readControl (past : Nat → UInt8) (data : List UInt8) : Control :=
  { type := byteAt past data 0
    enc := UInt64.ofNat (field past data 1 8)
    seq := field past data 9 2
    rate := byteAt past data 11
    bw := byteAt past data 12
    sgi := byteAt past data 13
    stream := byteAt past data 14 }

theorem readControl_bytes (past : Nat → UInt8) {c : Control} (fits : c.seq < 65536)
    (rest : List UInt8) : readControl past (c.bytes ++ rest) = c := by
  have enc : field past (c.bytes ++ rest) 1 8 = c.enc.toNat :=
    field_toLe past [c.type] (toLe 2 c.seq ++ [c.rate, c.bw, c.sgi, c.stream] ++ rest)
      (by simp [Control.bytes]) rfl c.enc.toNat_lt
  have seq : field past (c.bytes ++ rest) 9 2 = c.seq :=
    field_toLe past ([c.type] ++ toLe 8 c.enc.toNat) ([c.rate, c.bw, c.sgi, c.stream] ++ rest)
      (by simp [Control.bytes]) (by simp) fits
  have type : byteAt past (c.bytes ++ rest) 0 = c.type := by simp [byteAt, Control.bytes]
  have tail (i : Nat) : byteAt past (c.bytes ++ rest) (11 + i) =
      byteAt past ([c.rate, c.bw, c.sgi, c.stream] ++ rest) i := by
    rw [Control.bytes, List.append_assoc _ _ rest]
    exact byteAt_append_right past (by simp) _ i
  have rate : byteAt past (c.bytes ++ rest) 11 = c.rate := tail 0
  have bw : byteAt past (c.bytes ++ rest) 12 = c.bw := tail 1
  have sgi : byteAt past (c.bytes ++ rest) 13 = c.sgi := tail 2
  have stream : byteAt past (c.bytes ++ rest) 14 = c.stream := tail 3
  rw [readControl, enc, seq, type, UInt64.ofNat_toNat, rate, bw, sgi, stream]

/-! ## Socket buffers -/

/-- A socket buffer: which allocation it is, and its bytes from `data` to `tail`. -/
structure Skb where
  id : Nat
  data : List UInt8
  deriving DecidableEq, Repr

def Skb.push (s : Skb) (header : List UInt8) : Skb := { s with data := header ++ s.data }

def Skb.pull (s : Skb) (n : Nat) : Skb := { s with data := Theory.Bytes.pull n s.data }

@[simp] theorem Skb.push_id (s : Skb) (header : List UInt8) : (s.push header).id = s.id := rfl
@[simp] theorem Skb.pull_id (s : Skb) (n : Nat) : (s.pull n).id = s.id := rfl
@[simp] theorem Skb.push_data (s : Skb) (header : List UInt8) :
    (s.push header).data = header ++ s.data := rfl

end Vmac.Core
