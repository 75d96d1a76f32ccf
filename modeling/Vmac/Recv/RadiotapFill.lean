/-
# Vmac.Recv.RadiotapFill -- the radiotap header of a monitored frame: rtw_recv.c

`fill_radiotap_hdr` writes the present words and the fields into `hdr_buf`, padding by hand, and
pushes the buffer in front of the frame.  The reader of rtw_radiotap.c goes by the present words
and its table of sizes.

* `reads_back_iff`: for which records what is read is what was received.
* `rate_48_misread`: a frame of 48 Mbit/s reads as 46.5.
-/
import Vmac.Recv.Monitor
import Vmac.Recv.RadiotapIterator
import Vmac.Theory.Bitmap

namespace Vmac.Recv.RadiotapFill

open Theory.Bytes Theory.Layout Iterator

set_option autoImplicit false

/-! ## Data -/

/-- What is read of `struct rx_pkt_attrib` and its `phy_info`. -/
structure RxPktAttrib where
  physt : Bool
  mfrag : Bool
  encrypt : UInt8
  crcErr : Bool
  dataRate : UInt8
  bw : UInt8
  stbc : UInt8
  ldpc : UInt8
  sgi : UInt8
  tsfl : UInt32
  signalQuality : UInt8
  recvSignalPower : Int8
  rxPwr : Nat → Int8

/-- `NumTotalRFPath`, the operating channel and `current_band_type`. -/
structure RfState where
  numTotalRFPath : Nat
  operCh : UInt8
  currentBandType : UInt8

/-- `data_rate`. -/
def dataRateTable : List UInt8 :=
  [2, 4, 11, 22, 12, 18, 24, 36, 48, 72, 93, 108] ++ (List.range 32).map UInt8.ofNat ++
    (List.replicate 4 ((List.range 10).map UInt8.ofNat)).flatten

/-- `hdr_buf` behind the fixed header, `it_present`, `rt_len`; `top` is one past the last byte written. -/
structure Scratch where
  itPresent : Nat
  hdrBuf : Nat → UInt8
  rtLen : Nat
  top : Nat

namespace Scratch

variable (s : Scratch)

/-- `it_present |= 1 << bit`. -/
def present (bit : Nat) : Scratch := { s with itPresent := s.itPresent ||| 1 <<< bit }

/-- `hdr_buf[rt_len + k] = b`. -/
def write (k : Nat) (b : UInt8) : Scratch :=
  { s with hdrBuf := Function.update s.hdrBuf (s.rtLen + k) b, top := max s.top (s.rtLen + k + 1) }

/-- `hdr_buf[rt_len + k] |= b`. -/
def orInto (k : Nat) (b : UInt8) : Scratch := s.write k (s.hdrBuf (s.rtLen + k) ||| b)

/-- `memcpy(&hdr_buf[rt_len + k], bs, ...)`. -/
def memcpy (s : Scratch) : Nat → List UInt8 → Scratch
  | _, [] => s
  | k, b :: bs => memcpy (s.write k b) (k + 1) bs

def advance (n : Nat) : Scratch := { s with rtLen := s.rtLen + n }

end Scratch

/-! ## `fill_radiotap_hdr` -/

/-- The bits set one after another. -/
def orBits (w : Nat) (bits : List Nat) : Nat := bits.foldl (fun w bit => w ||| 1 <<< bit) w

def bitsOf (bits : List Nat) : Nat := orBits 0 bits

section Fill

variable (rf : RfState) (a : RxPktAttrib)

/-- The present word of each RF path but the last. -/
def pathWord : Nat := bitsOf [RtapBit.antenna, RtapBit.dbmAntsignal, RtapBit.ext, RtapBit.radiotapNamespace]

def lastPathWord : Nat := bitsOf [RtapBit.antenna, RtapBit.dbmAntsignal]

def fillPresent (s : Scratch) : Scratch :=
  if 0 < rf.numTotalRFPath ∧ a.physt then
    let s := (s.present RtapBit.ext).present RtapBit.radiotapNamespace
    let s := if 1 < rf.numTotalRFPath then
        (List.range (rf.numTotalRFPath - 1)).foldl (fun s _ => (s.memcpy 0 (toLe 4 pathWord)).advance 4) s
      else s
    (s.memcpy 0 (toLe 4 lastPathWord)).advance 4
  else s

def fillTsft (s : Scratch) : Scratch :=
  if a.tsfl ≠ 0 then ((s.present RtapBit.tsft).memcpy 0 (toLe 8 a.tsfl.toNat)).advance 8 else s

def fillFlags (s : Scratch) : Scratch :=
  let s := s.present RtapBit.flags
  let s := if a.encrypt = 1 ∨ a.encrypt = 5 then s.orInto 0 0x04 else s
  let s := if a.mfrag then s.orInto 0 0x08 else s
  let s := s.orInto 0 0x10
  let s := if a.crcErr then s.orInto 0 0x40 else s
  let s := if a.sgi ≠ 0 then s.orInto 0 0x80 else s
  s.advance 1

/-- The byte is there also where the field is not. -/
def fillRate (s : Scratch) : Scratch :=
  let s := if a.dataRate < 12 then
      (s.present RtapBit.rate).write 0 (dataRateTable.getD a.dataRate.toNat 0)
    else s
  s.advance 1

/-- `CHAN2FREQ`. -/
def chan2Freq (ch : Nat) : Nat := if ch < 14 then 2407 + 5 * ch else 5000 + 5 * ch

def channelFlags : Nat :=
  (if rf.currentBandType = 0 then 0x80 else 0x100) |||
    (if a.dataRate < 12 then (if a.dataRate < 4 then 0x20 else 0x40) else 0x400)

def fillChannel (s : Scratch) : Scratch :=
  let s := ((s.present RtapBit.channel).memcpy 0 (toLe 2 (chan2Freq rf.operCh.toNat))).advance 2
  (s.memcpy 0 (toLe 2 (channelFlags rf a))).advance 2

/-- With a byte of alignment. -/
def fillAntSignal (s : Scratch) : Scratch :=
  if a.physt then (((s.present RtapBit.dbmAntsignal).write 0 a.recvSignalPower.toUInt8).advance 1).advance 1 else s

def fillSignalQuality (s : Scratch) : Scratch :=
  ((s.present RtapBit.lockQuality).memcpy 0 (toLe 2 a.signalQuality.toNat)).advance 2

def fillRxFlags (s : Scratch) : Scratch := (s.present RtapBit.rxFlags).advance 2

def fillMcs (s : Scratch) : Scratch :=
  if 12 ≤ a.dataRate ∧ a.dataRate < 44 then
    let s := (s.present RtapBit.mcs).orInto 0 0x02
    let s := (s.orInto 0 0x01).orInto 1 (a.bw &&& 0x03)
    let s := (s.orInto 0 0x04).orInto 1 ((a.sgi &&& 0x01) <<< 2)
    let s := ((s.orInto 0 0x20).orInto 1 ((a.stbc &&& 0x03) <<< 5)).advance 2
    (s.write 0 (dataRateTable.getD a.dataRate.toNat 0)).advance 1
  else s

/-- `known`, by the bits set one after another. -/
def vhtKnown : Nat := 0x40 ||| 0x80 ||| 0x100 ||| 0x01 ||| 0x04 ||| 0x10

def vhtBandwidth (bw : UInt8) : UInt8 := if bw = 0 then 0 else if bw = 1 then 1 else if bw = 2 then 4 else if bw = 3 then 11 else 0

/-- `mcs_nss`: each number of streams has its byte. -/
def fillMcsNss (s : Scratch) : Scratch :=
  let rate := dataRateTable.getD a.dataRate.toNat 0
  if 44 ≤ a.dataRate ∧ a.dataRate < 54 then (s.orInto 0 1).orInto 0 (rate <<< 4)
  else if 54 ≤ a.dataRate ∧ a.dataRate < 64 then (s.orInto 1 2).orInto 1 (rate <<< 4)
  else if 64 ≤ a.dataRate ∧ a.dataRate < 74 then (s.orInto 2 3).orInto 2 (rate <<< 4)
  else if 74 ≤ a.dataRate ∧ a.dataRate < 84 then (s.orInto 3 4).orInto 3 (rate <<< 4)
  else s

def fillVht (s : Scratch) : Scratch :=
  if 44 ≤ a.dataRate ∧ a.dataRate < 84 then
    let s := (s.present RtapBit.vht).orInto 2 (a.stbc &&& 0x01)
    let s := (s.orInto 2 ((a.sgi &&& 0x01) <<< 2)).orInto 2 ((a.ldpc &&& 0x01) <<< 4)
    let s := (s.memcpy 0 (toLe 2 vhtKnown)).advance 3
    let s := (s.orInto 0 (vhtBandwidth a.bw)).advance 1
    let s := (fillMcsNss a s).advance 4
    let s := (s.write 0 0).advance 1
    let s := (s.write 0 0).advance 1
    (s.memcpy 0 (toLe 2 0)).advance 2
  else s

def fillPaths (s : Scratch) : Scratch :=
  if a.physt then
    (List.range rf.numTotalRFPath).foldl
      (fun s i => (((s.write 0 (a.rxPwr i).toUInt8).advance 1).write 0 (UInt8.ofNat i)).advance 1) s
  else s

/-- `hdr_buf` when it is pushed. -/
def filled : Scratch :=
  let s : Scratch := { itPresent := 0, hdrBuf := fun _ => 0, rtLen := 8, top := 8 }
  let s := fillTsft a (fillPresent rf a s)
  let s := fillChannel rf a (fillRate a (fillFlags a s))
  let s := fillRxFlags (fillSignalQuality a (fillAntSignal a s))
  fillPaths rf a (fillVht a (fillMcs a s))

/-- `hdr_buf` up to `rt_len`: `it_version`, `it_pad`, `it_len`, `it_present` and what follows. -/
def hdrBytes (s : Scratch) : List UInt8 :=
  [0, 0] ++ toLe 2 s.rtLen ++ toLe 4 s.itPresent ++ (List.range (s.rtLen - 8)).map fun k => s.hdrBuf (8 + k)

/-- `fill_radiotap_hdr`; `realloc` says whether a buffer with more headroom is to be had. -/
def fillRadiotapHdr (headroom : Nat) (realloc : Bool) (frame : List UInt8) : Option (List UInt8) :=
  if headroom < (filled rf a).rtLen ∧ realloc = false then none else some (hdrBytes (filled rf a) ++ frame)

end Fill

/-! ## What is in the buffer -/

/-- `bs` is what stands behind the fixed header, and nothing behind that. -/
structure Scratch.Written (s : Scratch) (bs : List UInt8) : Prop where
  rtLen : s.rtLen = 8 + bs.length
  bytes : ∀ k, s.hdrBuf (8 + k) = bs.getD k 0
  top : s.top ≤ s.rtLen

namespace Scratch

variable {s : Scratch} {bs : List UInt8}

@[simp] theorem present_rtLen (s : Scratch) (bit : Nat) : (s.present bit).rtLen = s.rtLen := rfl
@[simp] theorem present_hdrBuf (s : Scratch) (bit : Nat) : (s.present bit).hdrBuf = s.hdrBuf := rfl
@[simp] theorem present_top (s : Scratch) (bit : Nat) : (s.present bit).top = s.top := rfl
@[simp] theorem present_itPresent (s : Scratch) (bit : Nat) :
    (s.present bit).itPresent = s.itPresent ||| 1 <<< bit := rfl

@[simp] theorem write_rtLen (s : Scratch) (k : Nat) (b : UInt8) : (s.write k b).rtLen = s.rtLen := rfl
@[simp] theorem write_itPresent (s : Scratch) (k : Nat) (b : UInt8) : (s.write k b).itPresent = s.itPresent := rfl
@[simp] theorem write_top (s : Scratch) (k : Nat) (b : UInt8) :
    (s.write k b).top = max s.top (s.rtLen + k + 1) := rfl

theorem write_hdrBuf (s : Scratch) (k : Nat) (b : UInt8) (i : Nat) :
    (s.write k b).hdrBuf i = if i = s.rtLen + k then b else s.hdrBuf i := Function.update_apply ..

@[simp] theorem advance_itPresent (s : Scratch) (n : Nat) : (s.advance n).itPresent = s.itPresent := rfl

@[simp] theorem memcpy_itPresent (s : Scratch) (k : Nat) (fs : List UInt8) :
    (s.memcpy k fs).itPresent = s.itPresent := by
  induction fs generalizing s k with
  | nil => rfl
  | cons b fs ih => rw [memcpy, ih, write_itPresent]

@[simp] theorem orInto_itPresent (s : Scratch) (k : Nat) (b : UInt8) : (s.orInto k b).itPresent = s.itPresent := rfl

/-- Nothing stands at `rt_len` yet, apart from what `fs` says. -/
structure Pending (s : Scratch) (bs fs : List UInt8) : Prop where
  rtLen : s.rtLen = 8 + bs.length
  bytes : ∀ k, s.hdrBuf (8 + k) = (bs ++ fs).getD k 0
  top : s.top ≤ s.rtLen + fs.length

theorem Written.pending (w : s.Written bs) (n : Nat) : s.Pending bs (List.replicate n 0) where
  rtLen := w.rtLen
  bytes k := by
    rw [w.bytes, List.getD_eq_getElem?_getD, List.getD_eq_getElem?_getD, List.getElem?_append]
    split
    · rfl
    · rename_i past
      rw [List.getElem?_eq_none (Nat.le_of_not_lt past), List.getElem?_replicate]
      split <;> rfl
  top := Nat.le_add_right_of_le w.top

theorem Pending.present {fs : List UInt8} (p : s.Pending bs fs) (bit : Nat) : (s.present bit).Pending bs fs :=
  ⟨p.rtLen, p.bytes, p.top⟩

theorem Pending.get {fs : List UInt8} (p : s.Pending bs fs) (k : Nat) : s.hdrBuf (s.rtLen + k) = fs.getD k 0 := by
  rw [p.rtLen, Nat.add_assoc, p.bytes, List.getD_eq_getElem?_getD, List.getD_eq_getElem?_getD,
    List.getElem?_append_right (Nat.le_add_right ..), Nat.add_sub_cancel_left]

theorem Pending.write {fs : List UInt8} (p : s.Pending bs fs) {k : Nat} (inside : k < fs.length) (b : UInt8) :
    (s.write k b).Pending bs (fs.set k b) where
  rtLen := p.rtLen
  bytes j := by
    have old := p.bytes j
    rw [List.getD_eq_getElem?_getD] at old ⊢
    rw [write_hdrBuf, p.rtLen, List.getElem?_append]
    rw [List.getElem?_append] at old
    by_cases here : j = bs.length + k
    · subst here
      rw [if_pos (Nat.add_assoc ..).symm, if_neg (by omega), Nat.add_sub_cancel_left, List.getElem?_set_self inside]
      rfl
    · rw [if_neg (by omega), old]
      split
      · rfl
      · rw [List.getElem?_set_ne (by omega)]
  top := by
    have before := p.top
    rw [write_top, write_rtLen, List.length_set]
    omega

theorem Pending.orInto {fs : List UInt8} (p : s.Pending bs fs) {k : Nat} (inside : k < fs.length) (b : UInt8) :
    (s.orInto k b).Pending bs (fs.set k (fs.getD k 0 ||| b)) := by
  rw [Scratch.orInto, p.get]
  exact p.write inside _

theorem Pending.memcpy (gs : List UInt8) :
    ∀ {s : Scratch} {fs : List UInt8} {k : Nat}, s.Pending bs fs → k + gs.length ≤ fs.length →
      (s.memcpy k gs).Pending bs (fs.take k ++ gs ++ fs.drop (k + gs.length)) := by
  induction gs with
  | nil =>
    intro s fs k p _
    simpa [Scratch.memcpy] using p
  | cons b gs ih =>
    intro s fs k p inside
    rw [List.length_cons] at inside
    have rest := ih (p.write (k := k) (by omega) b) (k := k + 1) (by rw [List.length_set]; omega)
    have taken : (fs.set k b).take (k + 1) = fs.take k ++ [b] := by
      rw [List.set_eq_take_append_cons_drop, if_pos (by omega), List.take_append, List.length_take,
        Nat.min_eq_left (by omega), List.take_of_length_le (by rw [List.length_take]; omega), Nat.add_sub_cancel_left]
      rfl
    rw [taken, List.drop_set_of_lt (by omega)] at rest
    simpa [Scratch.memcpy, Nat.add_assoc, Nat.add_comm 1] using rest

theorem Pending.advance {fs : List UInt8} (p : s.Pending bs fs) {n : Nat} (length : fs.length = n) :
    (s.advance n).Written (bs ++ fs) where
  rtLen := by
    show s.rtLen + n = _
    rw [p.rtLen, List.length_append, length, Nat.add_assoc]
  bytes := p.bytes
  top := length ▸ p.top

/-- A field copied in whole. -/
theorem Written.memcpy (w : s.Written bs) (fs : List UInt8) {n : Nat} (length : fs.length = n) :
    ((s.memcpy 0 fs).advance n).Written (bs ++ fs) := by
  have copied := Pending.memcpy fs (w.pending fs.length) (k := 0) (by simp)
  simp only [Nat.zero_add, List.take_zero, List.nil_append, List.drop_replicate, Nat.sub_self, List.replicate_zero,
    List.append_nil] at copied
  exact copied.advance length

theorem Written.write (w : s.Written bs) (b : UInt8) : ((s.write 0 b).advance 1).Written (bs ++ [b]) :=
  ((w.pending 1).write (by decide) b).advance rfl

/-- Bytes left as they are. -/
theorem Written.advance (w : s.Written bs) (n : Nat) : (s.advance n).Written (bs ++ List.replicate n 0) :=
  (w.pending n).advance (by simp)

theorem Written.present (w : s.Written bs) (bit : Nat) : (s.present bit).Written bs := ⟨w.rtLen, w.bytes, w.top⟩

end Scratch

/-! ## The fields, one by one -/

section Pieces

variable (rf : RfState) (a : RxPktAttrib)

/-- The present words behind `it_present`. -/
def pathWords : List Nat :=
  if 0 < rf.numTotalRFPath ∧ a.physt then List.replicate (rf.numTotalRFPath - 1) pathWord ++ [lastPathWord] else []

def flagsByte : UInt8 :=
  let b := if a.encrypt = 1 ∨ a.encrypt = 5 then 0 ||| 0x04 else (0 : UInt8)
  let b := if a.mfrag then b ||| 0x08 else b
  let b := b ||| 0x10
  let b := if a.crcErr then b ||| 0x40 else b
  if a.sgi ≠ 0 then b ||| 0x80 else b

def mcsFlags : UInt8 :=
  (a.bw &&& 0x03) ||| (a.sgi &&& (0x01 : UInt8)) <<< (2 : UInt8) ||| (a.stbc &&& (0x03 : UInt8)) <<< (5 : UInt8)

def mcsBytes : List UInt8 := [0x02 ||| 0x01 ||| 0x04 ||| 0x20, mcsFlags a, dataRateTable.getD a.dataRate.toNat 0]

def mcsNss : List UInt8 :=
  let rate : UInt8 := dataRateTable.getD a.dataRate.toNat 0 <<< 4
  if 44 ≤ a.dataRate ∧ a.dataRate < 54 then [1 ||| rate, 0, 0, 0]
  else if 54 ≤ a.dataRate ∧ a.dataRate < 64 then [0, 2 ||| rate, 0, 0]
  else if 64 ≤ a.dataRate ∧ a.dataRate < 74 then [0, 0, 3 ||| rate, 0]
  else if 74 ≤ a.dataRate ∧ a.dataRate < 84 then [0, 0, 0, 4 ||| rate]
  else [0, 0, 0, 0]

def vhtFlags : UInt8 :=
  (a.stbc &&& 0x01) ||| (a.sgi &&& (0x01 : UInt8)) <<< (2 : UInt8) ||| (a.ldpc &&& (0x01 : UInt8)) <<< (4 : UInt8)

def vhtBytes : List UInt8 :=
  toLe 2 vhtKnown ++ [vhtFlags a] ++ [vhtBandwidth a.bw] ++ mcsNss a ++ [0] ++ [0] ++ toLe 2 0

def tsftPieces : List (Piece Nat) := if a.tsfl ≠ 0 then [⟨[], RtapBit.tsft, toLe 8 a.tsfl.toNat⟩] else []

def ratePieces : List (Piece Nat) :=
  if a.dataRate < 12 then [⟨[], RtapBit.rate, [dataRateTable.getD a.dataRate.toNat 0]⟩] else []

def channelPiece : Piece Nat :=
  ⟨if a.dataRate < 12 then [] else [0], RtapBit.channel,
    toLe 2 (chan2Freq rf.operCh.toNat) ++ toLe 2 (channelFlags rf a)⟩

def signalPieces : List (Piece Nat) :=
  if a.physt then [⟨[], RtapBit.dbmAntsignal, [a.recvSignalPower.toUInt8]⟩] else []

def qualityPiece : Piece Nat :=
  ⟨if a.physt then [0] else [], RtapBit.lockQuality, toLe 2 a.signalQuality.toNat⟩

def mcsPieces : List (Piece Nat) :=
  if 12 ≤ a.dataRate ∧ a.dataRate < 44 then [⟨[], RtapBit.mcs, mcsBytes a⟩] else []

def vhtPieces : List (Piece Nat) :=
  if 44 ≤ a.dataRate ∧ a.dataRate < 84 then [⟨[], RtapBit.vht, vhtBytes a⟩] else []

def pathPieces : List (Piece Nat) :=
  if a.physt then
    (List.range rf.numTotalRFPath).flatMap fun i =>
      [⟨[], RtapBit.dbmAntsignal, [(a.rxPwr i).toUInt8]⟩, ⟨[], RtapBit.antenna, [UInt8.ofNat i]⟩]
  else []

/-- What stands behind the time stamp. -/
def restPieces : List (Piece Nat) :=
  [⟨[], RtapBit.flags, [flagsByte a]⟩] ++ ratePieces a ++ [channelPiece rf a] ++ signalPieces a ++
    [qualityPiece a, ⟨[], RtapBit.rxFlags, [0, 0]⟩] ++ mcsPieces a ++ vhtPieces a ++ pathPieces rf a

end Pieces

section Written

open Scratch

variable {rf : RfState} {a : RxPktAttrib} {s : Scratch} {bs : List UInt8}

namespace Scratch.Pending

variable {b c d e x : UInt8} {fs : List UInt8}

theorem or0 (p : s.Pending bs (b :: fs)) (x : UInt8) : (s.orInto 0 x).Pending bs ((b ||| x) :: fs) :=
  p.orInto (Nat.zero_lt_succ _) x

theorem or1 (p : s.Pending bs (b :: c :: fs)) (x : UInt8) : (s.orInto 1 x).Pending bs (b :: (c ||| x) :: fs) :=
  p.orInto (by simp) x

theorem or2 (p : s.Pending bs (b :: c :: d :: fs)) (x : UInt8) :
    (s.orInto 2 x).Pending bs (b :: c :: (d ||| x) :: fs) := p.orInto (by simp) x

theorem or3 (p : s.Pending bs (b :: c :: d :: e :: fs)) (x : UInt8) :
    (s.orInto 3 x).Pending bs (b :: c :: d :: (e ||| x) :: fs) := p.orInto (by simp) x

theorem orIf (p : s.Pending bs [b]) (c : Prop) [Decidable c] (x : UInt8) :
    (if c then s.orInto 0 x else s).Pending bs [if c then b ||| x else b] := by
  split
  · exact p.or0 x
  · exact p

end Scratch.Pending

theorem written_fillPresent (w : s.Written []) :
    (fillPresent rf a s).Written ((pathWords rf a).flatMap (toLe 4)) := by
  have words (n : Nat) {s : Scratch} (w : s.Written []) :
      ((List.range n).foldl (fun s _ => (s.memcpy 0 (toLe 4 pathWord)).advance 4) s).Written
        ((List.replicate n pathWord).flatMap (toLe 4)) := by
    induction n with
    | zero => exact w
    | succ n ih =>
      rw [List.range_succ, List.foldl_append, List.replicate_succ', List.flatMap_append]
      simpa using ih.memcpy (toLe 4 pathWord) (length_toLe 4 pathWord)
  rw [fillPresent, pathWords]
  split
  · have some_ := (w.present RtapBit.ext).present RtapBit.radiotapNamespace
    have all : (if 1 < rf.numTotalRFPath then
        (List.range (rf.numTotalRFPath - 1)).foldl (fun s _ => (s.memcpy 0 (toLe 4 pathWord)).advance 4)
          ((s.present RtapBit.ext).present RtapBit.radiotapNamespace)
        else (s.present RtapBit.ext).present RtapBit.radiotapNamespace).Written
          ((List.replicate (rf.numTotalRFPath - 1) pathWord).flatMap (toLe 4)) := by
      split
      · exact words _ some_
      · rename_i one
        rw [show rf.numTotalRFPath - 1 = 0 by omega]
        exact some_
    rw [List.flatMap_append]
    simpa using all.memcpy (toLe 4 lastPathWord) (length_toLe 4 lastPathWord)
  · exact w

theorem written_fillTsft (w : s.Written bs) : (fillTsft a s).Written (bs ++ written (tsftPieces a)) := by
  rw [fillTsft, tsftPieces]
  split
  · simpa [Piece.all] using (w.present RtapBit.tsft).memcpy (toLe 8 a.tsfl.toNat) (length_toLe 8 _)
  · simpa using w

theorem written_fillFlags (w : s.Written bs) : (fillFlags a s).Written (bs ++ [flagsByte a]) := by
  have start := (w.present RtapBit.flags).pending 1
  have fcs := ((start.orIf (a.encrypt = 1 ∨ a.encrypt = 5) 0x04).orIf (a.mfrag = true) 0x08).or0 0x10
  exact ((fcs.orIf (a.crcErr = true) 0x40).orIf (a.sgi ≠ 0) 0x80).advance rfl

theorem written_fillRate (w : s.Written bs) :
    (fillRate a s).Written (bs ++ (written (ratePieces a) ++ (channelPiece rf a).pad)) := by
  rw [fillRate, ratePieces, channelPiece]
  split
  · exact (w.present RtapBit.rate).write _
  · exact w.advance 1

theorem written_fillChannel (w : s.Written bs) :
    (fillChannel rf a s).Written (bs ++ (channelPiece rf a).bytes) := by
  rw [fillChannel, channelPiece, ← List.append_assoc]
  exact ((w.present RtapBit.channel).memcpy _ (length_toLe 2 _)).memcpy _ (length_toLe 2 _)

theorem written_fillAntSignal (w : s.Written bs) :
    (fillAntSignal a s).Written (bs ++ (written (signalPieces a) ++ (qualityPiece a).pad)) := by
  rw [fillAntSignal, signalPieces, qualityPiece]
  split
  · simpa [Piece.all] using ((w.present RtapBit.dbmAntsignal).write a.recvSignalPower.toUInt8).advance 1
  · simpa using w

theorem written_fillMcs (w : s.Written bs) : (fillMcs a s).Written (bs ++ written (mcsPieces a)) := by
  rw [fillMcs, mcsPieces]
  split
  · have start : (s.present RtapBit.mcs).Pending bs [0, 0] := (w.present RtapBit.mcs).pending 2
    have bandwidth := ((start.or0 0x02).or0 0x01).or1 (a.bw &&& 0x03)
    have guard := (bandwidth.or0 0x04).or1 ((a.sgi &&& 0x01) <<< 2)
    have stbc := (guard.or0 0x20).or1 ((a.stbc &&& 0x03) <<< 5)
    simpa [Piece.all, mcsBytes, mcsFlags] using (stbc.advance (n := 2) rfl).write (dataRateTable.getD a.dataRate.toNat 0)
  · simpa using w

theorem written_fillMcsNss (p : s.Pending bs [0, 0, 0, 0]) : (fillMcsNss a s).Pending bs (mcsNss a) := by
  simp only [fillMcsNss, mcsNss]
  split
  · simpa using (p.or0 1).or0 (dataRateTable.getD a.dataRate.toNat 0 <<< 4)
  split
  · simpa using (p.or1 2).or1 (dataRateTable.getD a.dataRate.toNat 0 <<< 4)
  split
  · simpa using (p.or2 3).or2 (dataRateTable.getD a.dataRate.toNat 0 <<< 4)
  split
  · simpa using (p.or3 4).or3 (dataRateTable.getD a.dataRate.toNat 0 <<< 4)
  · exact p

theorem length_mcsNss (a : RxPktAttrib) : (mcsNss a).length = 4 := by
  simp only [mcsNss]
  split_ifs <;> rfl

theorem written_fillVht (w : s.Written bs) : (fillVht a s).Written (bs ++ written (vhtPieces a)) := by
  rw [fillVht, vhtPieces]
  split
  · have start : (s.present RtapBit.vht).Pending bs [0, 0, 0] := (w.present RtapBit.vht).pending 3
    have flags := ((start.or2 (a.stbc &&& 0x01)).or2 ((a.sgi &&& 0x01) <<< 2)).or2 ((a.ldpc &&& 0x01) <<< 4)
    have known := (flags.memcpy (toLe 2 vhtKnown) (k := 0) (by simp)).advance (n := 3) rfl
    have blank := known.pending 1
    have width := (Scratch.Pending.or0 blank (vhtBandwidth a.bw)).advance (n := 1) rfl
    have nss := (written_fillMcsNss (a := a) (width.pending 4)).advance (length_mcsNss a)
    have written := ((nss.write 0).write 0).memcpy (toLe 2 0) (length_toLe 2 0)
    simpa [Piece.all, vhtBytes, vhtFlags, List.append_assoc, toLe] using written
  · simpa using w

theorem written_fillPaths (w : s.Written bs) : (fillPaths rf a s).Written (bs ++ written (pathPieces rf a)) := by
  rw [fillPaths, pathPieces]
  split
  · induction rf.numTotalRFPath with
    | zero => simpa using w
    | succ n ih =>
      rw [List.range_succ, List.foldl_append, List.flatMap_append, written_append]
      simpa [Piece.all] using (ih.write (a.rxPwr n).toUInt8).write (UInt8.ofNat n)
  · simpa using w

theorem written_filled (rf : RfState) (a : RxPktAttrib) :
    (filled rf a).Written ((pathWords rf a).flatMap (toLe 4) ++ written (tsftPieces a ++ restPieces rf a)) := by
  have empty : ({ itPresent := 0, hdrBuf := fun _ => 0, rtLen := 8, top := 8 } : Scratch).Written [] :=
    ⟨rfl, fun _ => rfl, Nat.le_refl _⟩
  have stamped := written_fillTsft (a := a) (@written_fillPresent rf a _ empty)
  have tuned := @written_fillChannel rf a _ _
    (@written_fillRate rf a _ _ (written_fillFlags (a := a) stamped))
  have heard := (written_fillAntSignal (a := a) tuned).present RtapBit.lockQuality
  have quality := (heard.memcpy (toLe 2 a.signalQuality.toNat) (length_toLe 2 _)).present RtapBit.rxFlags
  have all := @written_fillPaths rf a _ _
    (written_fillVht (a := a) (written_fillMcs (a := a) (quality.advance 2)))
  simpa [filled, fillSignalQuality, fillRxFlags, restPieces, Piece.all, qualityPiece, channelPiece,
    List.append_assoc] using all

end Written

/-! ## The present words -/

/-- `it_present` by what is there: PHY status, a time stamp, a legacy, HT or VHT rate. -/
def firstWord (physt stamped legacy ht vht : Bool) : Nat :=
  bitsOf ((if physt then [RtapBit.ext, RtapBit.radiotapNamespace] else []) ++
    (if stamped then [RtapBit.tsft] else []) ++ [RtapBit.flags] ++ (if legacy then [RtapBit.rate] else []) ++
    [RtapBit.channel] ++ (if physt then [RtapBit.dbmAntsignal] else []) ++
    [RtapBit.lockQuality, RtapBit.rxFlags] ++ (if ht then [RtapBit.mcs] else []) ++ if vht then [RtapBit.vht] else [])

theorem plain_firstWord (physt stamped legacy ht vht : Bool) :
    PlainWord physt (firstWord physt stamped legacy ht vht) := by
  refine ⟨?_, ?_, ?_, ?_⟩ <;> revert physt stamped legacy ht vht <;> decide +kernel

theorem firstWord_lt (physt stamped legacy ht vht : Bool) : firstWord physt stamped legacy ht vht < 256 ^ 4 := by
  revert physt stamped legacy ht vht
  decide +kernel

theorem fieldsOf_firstWord (physt stamped legacy ht vht : Bool) :
    fieldsOf (firstWord physt stamped legacy ht vht) =
      (if stamped then [RtapBit.tsft] else []) ++ [RtapBit.flags] ++ (if legacy then [RtapBit.rate] else []) ++
        [RtapBit.channel] ++ (if physt then [RtapBit.dbmAntsignal] else []) ++
        [RtapBit.lockQuality, RtapBit.rxFlags] ++ (if ht then [RtapBit.mcs] else []) ++
        if vht then [RtapBit.vht] else [] := by
  revert physt stamped legacy ht vht
  decide +kernel

section Words

variable {rf : RfState} {a : RxPktAttrib}

theorem foldl_itPresent {β : Type} (step : Scratch → β → Scratch)
    (same : ∀ s b, (step s b).itPresent = s.itPresent) (bs : List β) (s : Scratch) :
    (bs.foldl step s).itPresent = s.itPresent := by
  induction bs generalizing s with
  | nil => rfl
  | cons b bs ih => rw [List.foldl_cons, ih, same]

theorem orBits_append (w : Nat) (xs ys : List Nat) : orBits w (xs ++ ys) = orBits (orBits w xs) ys :=
  List.foldl_append

theorem fillPresent_itPresent (some_ : 0 < rf.numTotalRFPath) (s : Scratch) :
    (fillPresent rf a s).itPresent =
      orBits s.itPresent (if a.physt then [RtapBit.ext, RtapBit.radiotapNamespace] else []) := by
  have words (n : Nat) (s : Scratch) :
      ((List.range n).foldl (fun s _ => (s.memcpy 0 (toLe 4 pathWord)).advance 4) s).itPresent = s.itPresent :=
    foldl_itPresent _ (fun s _ => by simp) _ s
  rw [fillPresent]
  cases physt : a.physt with
  | false => simp [orBits]
  | true => by_cases more : 1 < rf.numTotalRFPath <;> simp [some_, more, words, orBits]

theorem fillTsft_itPresent (s : Scratch) :
    (fillTsft a s).itPresent = orBits s.itPresent (if decide (a.tsfl ≠ 0) then [RtapBit.tsft] else []) := by
  by_cases stamped : a.tsfl = 0 <;> simp [fillTsft, stamped, orBits]

theorem orIf_itPresent (s : Scratch) (c : Prop) [Decidable c] (x : UInt8) :
    (if c then s.orInto 0 x else s).itPresent = s.itPresent := by
  split <;> rfl

theorem fillFlags_itPresent (s : Scratch) :
    (fillFlags a s).itPresent = orBits s.itPresent [RtapBit.flags] := by
  simp only [fillFlags, Scratch.advance_itPresent, orIf_itPresent, Scratch.orInto_itPresent,
    Scratch.present_itPresent]
  rfl

theorem fillRate_itPresent (s : Scratch) :
    (fillRate a s).itPresent = orBits s.itPresent (if decide (a.dataRate < 12) then [RtapBit.rate] else []) := by
  by_cases legacy : a.dataRate < 12 <;> simp [fillRate, legacy, orBits]

theorem fillChannel_itPresent (s : Scratch) :
    (fillChannel rf a s).itPresent = orBits s.itPresent [RtapBit.channel] := by
  simp [fillChannel, orBits]

theorem fillAntSignal_itPresent (s : Scratch) :
    (fillAntSignal a s).itPresent = orBits s.itPresent (if a.physt then [RtapBit.dbmAntsignal] else []) := by
  cases physt : a.physt <;> simp [fillAntSignal, physt, orBits]

theorem fillQuality_itPresent (s : Scratch) :
    (fillRxFlags (fillSignalQuality a s)).itPresent = orBits s.itPresent [RtapBit.lockQuality, RtapBit.rxFlags] := by
  simp [fillRxFlags, fillSignalQuality, orBits]

theorem fillMcs_itPresent (s : Scratch) :
    (fillMcs a s).itPresent =
      orBits s.itPresent (if decide (12 ≤ a.dataRate ∧ a.dataRate < 44) then [RtapBit.mcs] else []) := by
  by_cases ht : 12 ≤ a.dataRate ∧ a.dataRate < 44 <;> simp [fillMcs, ht, orBits]

theorem fillVht_itPresent (s : Scratch) :
    (fillVht a s).itPresent =
      orBits s.itPresent (if decide (44 ≤ a.dataRate ∧ a.dataRate < 84) then [RtapBit.vht] else []) := by
  have nss (s : Scratch) : (fillMcsNss a s).itPresent = s.itPresent := by
    simp only [fillMcsNss]
    split_ifs <;> simp
  by_cases vht : 44 ≤ a.dataRate ∧ a.dataRate < 84 <;> simp [fillVht, vht, nss, orBits]

theorem fillPaths_itPresent (s : Scratch) : (fillPaths rf a s).itPresent = s.itPresent := by
  rw [fillPaths]
  split
  · exact foldl_itPresent _ (fun s i => by simp) _ s
  · rfl

theorem filled_itPresent (some_ : 0 < rf.numTotalRFPath) :
    (filled rf a).itPresent = firstWord a.physt (decide (a.tsfl ≠ 0)) (decide (a.dataRate < 12))
      (decide (12 ≤ a.dataRate ∧ a.dataRate < 44)) (decide (44 ≤ a.dataRate ∧ a.dataRate < 84)) := by
  simp only [filled, fillPaths_itPresent, fillVht_itPresent, fillMcs_itPresent, fillQuality_itPresent,
    fillAntSignal_itPresent, fillChannel_itPresent, fillRate_itPresent, fillFlags_itPresent, fillTsft_itPresent,
    fillPresent_itPresent some_, ← orBits_append]
  rfl

end Words

/-! ## Where the fields lie -/

section Layout

variable (rf : RfState) (a : RxPktAttrib)

/-- All present words. -/
def allWords : List Nat :=
  firstWord a.physt (decide (a.tsfl ≠ 0)) (decide (a.dataRate < 12))
      (decide (12 ≤ a.dataRate ∧ a.dataRate < 44)) (decide (44 ≤ a.dataRate ∧ a.dataRate < 84)) ::
    pathWords rf a

variable {rf a}

theorem hdrBytes_filled (some_ : 0 < rf.numTotalRFPath) :
    hdrBytes (filled rf a) = [0, 0] ++ toLe 2 (filled rf a).rtLen ++ (allWords rf a).flatMap (toLe 4) ++
      written (tsftPieces a ++ restPieces rf a) := by
  have w := written_filled rf a
  have body : ((List.range ((filled rf a).rtLen - 8)).map fun k => (filled rf a).hdrBuf (8 + k)) =
      (pathWords rf a).flatMap (toLe 4) ++ written (tsftPieces a ++ restPieces rf a) := by
    refine List.ext_getElem ?_ fun k inside inside' => ?_
    · rw [List.length_map, List.length_range, w.rtLen, Nat.add_sub_cancel_left]
    · rw [List.getElem_map, List.getElem_range, w.bytes, List.getD_eq_getElem?_getD, List.getElem?_eq_getElem inside']
      rfl
  rw [hdrBytes, body, filled_itPresent some_, allWords, List.flatMap_cons]
  simp only [List.append_assoc]

theorem fieldsOf_pathWords (some_ : 0 < rf.numTotalRFPath) :
    (pathWords rf a).flatMap fieldsOf = (pathPieces rf a).map Piece.field := by
  have path : fieldsOf pathWord = [RtapBit.dbmAntsignal, RtapBit.antenna] := by decide +kernel
  have last : fieldsOf lastPathWord = [RtapBit.dbmAntsignal, RtapBit.antenna] := by decide +kernel
  obtain ⟨n, more⟩ := Nat.exists_eq_add_of_le' some_
  cases physt : a.physt with
  | false => simp [pathWords, pathPieces, physt]
  | true =>
    have same (n : Nat) : (List.replicate n pathWord).flatMap fieldsOf =
        (List.range n).flatMap fun _ => [RtapBit.dbmAntsignal, RtapBit.antenna] := by
      induction n with
      | zero => rfl
      | succ n ih => rw [List.replicate_succ', List.range_succ, List.flatMap_append, List.flatMap_append, ih,
          List.flatMap_singleton, path, List.flatMap_singleton]
    simp [pathWords, pathPieces, physt, more, same, last, List.range_succ, List.map_flatMap]

theorem fieldsOf_allWords (some_ : 0 < rf.numTotalRFPath) :
    (allWords rf a).flatMap fieldsOf = (tsftPieces a ++ restPieces rf a).map Piece.field := by
  rw [allWords, List.flatMap_cons, fieldsOf_firstWord, fieldsOf_pathWords some_]
  simp only [tsftPieces, restPieces, ratePieces, signalPieces, mcsPieces, vhtPieces, channelPiece, qualityPiece,
    List.map_append, List.append_assoc, List.map_cons, List.map_nil, decide_eq_true_eq]
  split_ifs <;> rfl

/-- `toLe 4` of the present words, read back. -/
theorem presentWords_read (past : Nat → UInt8) {data post : List UInt8} (ws : List Nat) :
    ∀ {pre : List UInt8} {at_ : Nat}, data = pre ++ ws.flatMap (toLe 4) ++ post → pre.length = at_ →
      (∀ w ∈ ws, w < 256 ^ 4) → (∃ init last, ws = init ++ [last] ∧ (∀ w ∈ init, PlainWord true w) ∧ PlainWord false last) →
      PresentWords past data at_ ws := by
  induction ws with
  | nil =>
    intro pre at_ _ _ _ shape
    obtain ⟨init, last, no, -⟩ := shape
    simp at no
  | cons w ws ih =>
    intro pre at_ split offset small shape
    have word : getUnalignedLe32 past data at_ = w := by
      refine field_toLe past pre (ws.flatMap (toLe 4) ++ post) ?_ offset (small w (List.mem_cons_self ..))
      rw [split, List.flatMap_cons]
      simp only [List.append_assoc]
    obtain ⟨init, last, parts, plain, ends⟩ := shape
    cases init with
    | nil =>
      obtain ⟨rfl, rfl⟩ : w = last ∧ ws = [] := by simpa using parts
      exact ⟨word, ends⟩
    | cons w' init =>
      obtain ⟨rfl, rfl⟩ : w = w' ∧ ws = init ++ [last] := by simpa using parts
      have rest : PresentWords past data (at_ + 4) (init ++ [last]) := by
        refine @ih (pre ++ toLe 4 w) _ ?_ (by simp [offset])
          (fun v inside => small v (List.mem_cons_of_mem _ inside))
          ⟨init, last, rfl, fun v inside => plain v (List.mem_cons_of_mem _ inside), ends⟩
        rw [split, List.flatMap_cons]
        simp only [List.append_assoc]
      cases init with
      | nil => exact ⟨word, plain w (List.mem_cons_self ..), rest⟩
      | cons _ _ => exact ⟨word, plain w (List.mem_cons_self ..), rest⟩

theorem allWords_shape (some_ : 0 < rf.numTotalRFPath) :
    ∃ init last, allWords rf a = init ++ [last] ∧ (∀ w ∈ init, PlainWord true w) ∧ PlainWord false last := by
  have path : PlainWord true pathWord := ⟨by decide +kernel, by decide, by decide, by decide⟩
  have last : PlainWord false lastPathWord := ⟨by decide +kernel, by decide, by decide, by decide⟩
  have first := plain_firstWord a.physt (decide (a.tsfl ≠ 0)) (decide (a.dataRate < 12))
    (decide (12 ≤ a.dataRate ∧ a.dataRate < 44)) (decide (44 ≤ a.dataRate ∧ a.dataRate < 84))
  rw [allWords]
  generalize firstWord a.physt _ _ _ _ = word at first ⊢
  cases physt : a.physt with
  | false =>
    rw [physt] at first
    exact ⟨[], word, by simp [pathWords, physt], by simp, first⟩
  | true =>
    rw [physt] at first
    refine ⟨word :: List.replicate (rf.numTotalRFPath - 1) pathWord, lastPathWord,
      by simp only [pathWords, physt, some_, and_self, if_true, List.cons_append], fun w inside => ?_, last⟩
    rcases List.mem_cons.mp inside with rfl | repeated
    · exact first
    · rw [List.eq_of_mem_replicate repeated]
      exact path

theorem allWords_lt : ∀ w ∈ allWords rf a, w < 256 ^ 4 := by
  intro w inside
  rcases List.mem_cons.mp inside with rfl | path
  · exact firstWord_lt ..
  · rw [pathWords] at path
    split at path
    · rcases List.mem_append.mp path with repeated | last
      · rw [List.eq_of_mem_replicate repeated]
        decide
      · rw [List.mem_singleton.mp last]
        decide
    · simp at path

end Layout

/-! ## The alignments -/

section Fit

variable {rf : RfState} {a : RxPktAttrib}

theorem length_vhtBytes (a : RxPktAttrib) : (vhtBytes a).length = 12 := by
  simp [vhtBytes, length_mcsNss]

theorem mcs_vht_exclusive (a : RxPktAttrib) :
    ¬((12 ≤ a.dataRate ∧ a.dataRate < 44) ∧ 44 ≤ a.dataRate ∧ a.dataRate < 84) := by
  rintro ⟨⟨-, below⟩, above, -⟩
  exact absurd below (UInt8.not_lt.mpr above)

theorem fits_tsft {at_ : Nat} (aligned : a.tsfl ≠ 0 → at_ % 8 = 0) : Fits rtapKind at_ (tsftPieces a) := by
  rw [tsftPieces]
  split
  · rename_i stamped
    exact ⟨(alignUp_of_dvd (aligned stamped)).symm, length_toLe 8 _, trivial⟩
  · trivial

theorem fits_pathPieces (at_ : Nat) : Fits rtapKind at_ (pathPieces rf a) := by
  refine fits_of_align_one at_ fun p inside => ?_
  rw [pathPieces] at inside
  split at inside
  · obtain ⟨i, -, which⟩ := List.mem_flatMap.mp inside
    rcases List.mem_pair.mp which with rfl | rfl <;> exact ⟨rfl, rfl, rfl⟩
  · simp at inside

/-- Behind the time stamp every field lies where its alignment asks, if only the place is even. -/
theorem fits_rest {at_ : Nat} (even : at_ % 2 = 0) : Fits rtapKind at_ (restPieces rf a) := by
  refine Fits.append ?_ (fits_pathPieces _)
  have vht := length_vhtBytes a
  have single := mcs_vht_exclusive a
  simp only [ratePieces, channelPiece, signalPieces, qualityPiece, mcsPieces, vhtPieces]
  split_ifs <;>
    simp_all [Fits, Piece.all, alignUp_one, alignUp_two, rtapKind, rtapNamespaceSizes, RtapBit.flags, RtapBit.rate,
      RtapBit.channel, RtapBit.dbmAntsignal, RtapBit.lockQuality, RtapBit.rxFlags, RtapBit.mcs, RtapBit.vht,
      mcsBytes] <;>
    omega

theorem length_tsftPieces (a : RxPktAttrib) :
    (written (tsftPieces a)).length = if a.tsfl ≠ 0 then 8 else 0 := by
  rw [tsftPieces]
  split <;> simp [Piece.all]

theorem length_pathPieces (rf : RfState) (a : RxPktAttrib) :
    (written (pathPieces rf a)).length = if a.physt then 2 * rf.numTotalRFPath else 0 := by
  rw [pathPieces]
  split
  · induction rf.numTotalRFPath with
    | zero => rfl
    | succ n ih =>
      rw [List.range_succ, List.flatMap_append, written_append, List.length_append, ih]
      rfl
  · rfl

theorem length_restPieces_le (rf : RfState) (a : RxPktAttrib) :
    (written (restPieces rf a)).length ≤ 22 + if a.physt then 2 + 2 * rf.numTotalRFPath else 0 := by
  have vht := length_vhtBytes a
  have single := mcs_vht_exclusive a
  rw [restPieces, written_append, List.length_append, length_pathPieces]
  simp only [ratePieces, channelPiece, signalPieces, qualityPiece, mcsPieces, vhtPieces]
  split_ifs <;> simp_all [Piece.all, mcsBytes] <;> omega

theorem length_pathWords (rf : RfState) (a : RxPktAttrib) :
    (pathWords rf a).length = if a.physt then rf.numTotalRFPath else 0 := by
  rw [pathWords]
  by_cases some_ : 0 < rf.numTotalRFPath <;> cases a.physt <;> simp [some_] <;> omega

end Fit

/-! ## What is read back -/

/-- What a field says. -/
inductive FieldValue where
  | timeStamp (t : Nat)
  | rate (halfMbits : Nat)
  | mcs (index : Nat) (width : Option Nat)
  | vht (mcs streams : Nat) (width : Option Nat)
  | signal (dbm : Int8)
  | antenna (path : Nat)
  | other
deriving DecidableEq

/-- The bandwidth of the MCS field, with its sidebands. -/
def htWidth (known flags : UInt8) : Option Nat :=
  if known &&& 0x01 = 0 then none else if flags &&& 0x03 = 1 then some 40 else some 20

/-- The bandwidth of the VHT field, without sidebands. -/
def vhtWidth (known : Nat) (code : UInt8) : Option Nat :=
  if known &&& 0x40 = 0 then none
  else if code = 0 then some 20 else if code = 1 then some 40 else if code = 4 then some 80
  else if code = 11 then some 160 else none

/-- A field by its meaning; of the four users of the VHT field, the first. -/
def fieldValue (i : Nat) (bs : List UInt8) : FieldValue :=
  if i = RtapBit.tsft then .timeStamp (ofLe bs)
  else if i = RtapBit.rate then .rate (ofLe bs)
  else if i = RtapBit.dbmAntsignal then .signal (bs.getD 0 0).toInt8
  else if i = RtapBit.antenna then .antenna (bs.getD 0 0).toNat
  else if i = RtapBit.mcs then .mcs (bs.getD 2 0).toNat (htWidth (bs.getD 0 0) (bs.getD 1 0))
  else if i = RtapBit.vht then
    .vht (bs.getD 4 0 >>> 4).toNat (bs.getD 4 0 &&& 0x0f).toNat (vhtWidth (ofLe (bs.take 2)) (bs.getD 3 0))
  else .other

def visitValue (past : Nat → UInt8) (data : List UInt8) (v : Visit) : FieldValue :=
  fieldValue v.index ((List.range v.size).map fun k => byteAt past data (v.arg + k))

/-- The present words of a header, `n` at most. -/
def presentWords (past : Nat → UInt8) (data : List UInt8) : Nat → Nat → List Nat
  | 0, _ => []
  | n + 1, at_ =>
    let w := getUnalignedLe32 past data at_
    w :: if w.testBit RtapBit.ext then presentWords past data n (at_ + 4) else []

/-- `dot11_rate_table`, in units of 500 kbit/s. -/
def dot11RateTable : List Nat := [2, 4, 11, 22, 12, 18, 24, 36, 48, 72, 96, 108]

/-- `enum channel_width`, in MHz. -/
def channelWidth (bw : UInt8) : Option Nat :=
  if bw = 0 then some 20 else if bw = 1 then some 40 else if bw = 2 then some 80
  else if bw = 3 ∨ bw = 4 then some 160 else none

/-- What was received, in the order of the fields. -/
def received (rf : RfState) (a : RxPktAttrib) : List FieldValue :=
  (if a.tsfl ≠ 0 then [.timeStamp a.tsfl.toNat] else []) ++ [.other] ++
    (if a.dataRate < 12 then [.rate (dot11RateTable.getD a.dataRate.toNat 0)] else []) ++ [.other] ++
    (if a.physt then [.signal a.recvSignalPower] else []) ++ [.other, .other] ++
    (if 12 ≤ a.dataRate ∧ a.dataRate < 44 then [.mcs (a.dataRate.toNat - 12) (channelWidth a.bw)] else []) ++
    (if 44 ≤ a.dataRate ∧ a.dataRate < 84 then
      [.vht ((a.dataRate.toNat - 44) % 10) ((a.dataRate.toNat - 44) / 10 + 1) (channelWidth a.bw)] else []) ++
    if a.physt then (List.range rf.numTotalRFPath).flatMap fun i => [.signal (a.rxPwr i), .antenna i] else []

/-- The header fits `hdr_buf` and has the length it says; its reader visits the announced fields,
finds in each what was received, and ends with the header. -/
structure ReadsBack (rf : RfState) (a : RxPktAttrib) (frame : List UInt8) (past : Nat → UInt8) (data : List UInt8)
    (vns : List RadiotapNamespace) (junk : Iterator) : Prop where
  scratch : (filled rf a).top ≤ 64
  length : field past data 2 2 + frame.length = data.length
  visits : ∃ n, ∀ fuel ≥ n, ∃ vs, readRadiotap past data data.length vns junk fuel = (vs, some .enoent) ∧
    vs.map Visit.index = (presentWords past data (field past data 2 2) 4).flatMap fieldsOf ∧
    vs.map (visitValue past data) = received rf a ∧
    vs.getLast?.map (fun v => v.arg + v.size) = some (field past data 2 2)

/-- The time stamp lies at its alignment; the rate is not that of the wrong table entry; an HT frame
has an HT bandwidth; a VHT frame has one stream, so that it is in the place of the first user. -/
structure Legible (rf : RfState) (a : RxPktAttrib) : Prop where
  aligned : a.physt = true → a.tsfl ≠ 0 → rf.numTotalRFPath % 2 = 0
  rate : a.dataRate ≠ 10
  ht : 12 ≤ a.dataRate → a.dataRate < 44 → a.bw < 2
  vht : 44 ≤ a.dataRate → a.dataRate < 54 ∧ a.bw < 4

section Values

variable {rf : RfState} {a : RxPktAttrib}

theorem legacy_value (legacy : a.dataRate < 12) :
    fieldValue RtapBit.rate [dataRateTable.getD a.dataRate.toNat 0] =
      .rate (dot11RateTable.getD a.dataRate.toNat 0) ↔ a.dataRate ≠ 10 := by
  have all : ∀ r : UInt8, r < 12 → (fieldValue RtapBit.rate [dataRateTable.getD r.toNat 0] =
      .rate (dot11RateTable.getD r.toNat 0) ↔ r ≠ 10) :=
    forall_byte (by decide +kernel)
  exact all a.dataRate legacy

theorem ht_value (above : 12 ≤ a.dataRate) (below : a.dataRate < 44) :
    fieldValue RtapBit.mcs (mcsBytes a) = .mcs (a.dataRate.toNat - 12) (channelWidth a.bw) ↔ a.bw < 2 := by
  have index : ∀ r : UInt8, 12 ≤ r → r < 44 → (dataRateTable.getD r.toNat 0).toNat = r.toNat - 12 :=
    forall_byte (by decide +kernel)
  have sgi : ∀ b : UInt8, (b &&& (0x01 : UInt8)) <<< (2 : UInt8) &&& 0x03 = 0 := forall_byte (by decide +kernel)
  have stbc : ∀ b : UInt8, (b &&& (0x03 : UInt8)) <<< (5 : UInt8) &&& 0x03 = 0 := forall_byte (by decide +kernel)
  have distrib (x y m : UInt8) : (x ||| y) &&& m = (x &&& m) ||| (y &&& m) :=
    UInt8.toBitVec_inj.mp (Theory.Bitmap.or_and _ _ _)
  have flags : mcsFlags a &&& 0x03 = a.bw &&& 0x03 := by
    rw [mcsFlags, distrib, distrib, sgi, stbc, UInt8.or_zero, UInt8.or_zero, UInt8.and_assoc, UInt8.and_self]
  have width : ∀ bw : UInt8, (if bw &&& 0x03 = 1 then some 40 else some 20) = channelWidth bw ↔ bw < 2 :=
    forall_byte (by decide +kernel)
  have value : fieldValue RtapBit.mcs (mcsBytes a) =
      .mcs (a.dataRate.toNat - 12) (if a.bw &&& 0x03 = 1 then some 40 else some 20) := by
    have known : ((0x02 ||| 0x01 ||| 0x04 ||| 0x20 : UInt8) &&& 0x01 = 0) = False := by decide
    rw [← flags, ← index a.dataRate above below]
    simp [fieldValue, RtapBit.mcs, RtapBit.tsft, RtapBit.rate, RtapBit.dbmAntsignal, RtapBit.antenna, mcsBytes,
      htWidth, known]
  rw [value, FieldValue.mcs.injEq, width]
  exact and_iff_right rfl

/-- `mcs_nss` of the first user. -/
def firstUser (rate : UInt8) : UInt8 :=
  if rate < 54 then (1 : UInt8) ||| dataRateTable.getD rate.toNat 0 <<< (4 : UInt8) else 0

theorem vht_value (above : 44 ≤ a.dataRate) (below : a.dataRate < 84) :
    fieldValue RtapBit.vht (vhtBytes a) =
      .vht ((a.dataRate.toNat - 44) % 10) ((a.dataRate.toNat - 44) / 10 + 1) (channelWidth a.bw) ↔
    a.dataRate < 54 ∧ a.bw < 4 := by
  -- the byte of the first user
  have first : (mcsNss a).getD 0 0 = firstUser a.dataRate := by
    simp only [mcsNss, firstUser, above, true_and]
    split_ifs <;> rfl
  obtain ⟨user, users, parts⟩ : ∃ user users, mcsNss a = user :: users := by
    cases nss : mcsNss a with
    | nil => exact absurd (length_mcsNss a) (by simp [nss])
    | cons user users => exact ⟨user, users, rfl⟩
  rw [parts, List.getD_cons_zero] at first
  have value : fieldValue RtapBit.vht (vhtBytes a) =
      .vht (user >>> 4).toNat (user &&& 0x0f).toNat (vhtWidth vhtKnown (vhtBandwidth a.bw)) := by
    have known : ofLe ((vhtBytes a).take 2) = vhtKnown := by
      rw [show (vhtBytes a).take 2 = toLe 2 vhtKnown from rfl]
      exact ofLe_toLe_of_lt (by decide)
    have code : (vhtBytes a).getD 3 0 = vhtBandwidth a.bw := rfl
    have nss : (vhtBytes a).getD 4 0 = user := by
      rw [vhtBytes, parts]
      rfl
    simp only [fieldValue, known, code, nss]
    rfl
  have nss : ∀ r : UInt8, 44 ≤ r → r < 84 →
      ((firstUser r >>> 4).toNat = (r.toNat - 44) % 10 ∧ (firstUser r &&& 0x0f).toNat = (r.toNat - 44) / 10 + 1 ↔
        r < 54) := forall_byte (by decide +kernel)
  have width : ∀ bw : UInt8, vhtWidth vhtKnown (vhtBandwidth bw) = channelWidth bw ↔ bw < 4 :=
    forall_byte (by decide +kernel)
  rw [value, FieldValue.vht.injEq, width, first, ← and_assoc, nss a.dataRate above below]

theorem tsft_values (a : RxPktAttrib) :
    (tsftPieces a).map (fun p => fieldValue p.field p.bytes) =
      if a.tsfl ≠ 0 then [.timeStamp a.tsfl.toNat] else [] := by
  have small : a.tsfl.toNat < 256 ^ 8 := Nat.lt_of_lt_of_le a.tsfl.toNat_lt (by decide)
  rw [tsftPieces]
  split
  · simp only [List.map_cons, List.map_nil, fieldValue, if_true, ofLe_toLe_of_lt small]
  · rfl

theorem path_values (few : rf.numTotalRFPath ≤ 4) (a : RxPktAttrib) :
    (pathPieces rf a).map (fun p => fieldValue p.field p.bytes) =
      if a.physt then (List.range rf.numTotalRFPath).flatMap fun i => [.signal (a.rxPwr i), .antenna i] else [] := by
  rw [pathPieces]
  split
  · rw [List.map_flatMap]
    refine List.flatMap_congr fun i inside => ?_
    have small : i % 256 = i := Nat.mod_eq_of_lt (by have := List.mem_range.mp inside; omega)
    simp [fieldValue, RtapBit.dbmAntsignal, RtapBit.antenna, RtapBit.tsft, RtapBit.rate, small]
  · rfl

/-- The fields say what was received, or they do not. -/
theorem values_iff (few : rf.numTotalRFPath ≤ 4) (coded : a.dataRate < 84) :
    (tsftPieces a ++ restPieces rf a).map (fun p => fieldValue p.field p.bytes) = received rf a ↔
      a.dataRate ≠ 10 ∧ (12 ≤ a.dataRate → a.dataRate < 44 → a.bw < 2) ∧
        (44 ≤ a.dataRate → a.dataRate < 54 ∧ a.bw < 4) := by
  have signal : (signalPieces a).map (fun p => fieldValue p.field p.bytes) =
      if a.physt then [.signal a.recvSignalPower] else [] := by
    rw [signalPieces]
    split
    · simp [fieldValue, RtapBit.dbmAntsignal, RtapBit.tsft, RtapBit.rate]
    · rfl
  have flags : fieldValue RtapBit.flags [flagsByte a] = .other := rfl
  have channel : fieldValue (channelPiece rf a).field (channelPiece rf a).bytes = .other := rfl
  have quality : fieldValue (qualityPiece a).field (qualityPiece a).bytes = .other := rfl
  have rxFlags : fieldValue RtapBit.rxFlags [0, 0] = .other := rfl
  simp only [restPieces, received, List.map_append, tsft_values, signal, path_values few, List.map_cons, List.map_nil,
    flags, channel, quality, rxFlags, List.append_assoc, List.append_cancel_left_eq]
  have rate : (10 : UInt8) < 12 := by decide
  by_cases legacy : a.dataRate < 12
  · have ht : ¬12 ≤ a.dataRate := UInt8.not_le.mpr legacy
    have vht : ¬44 ≤ a.dataRate := fun above => ht (UInt8.le_trans (by decide) above)
    have value := legacy_value legacy
    simp [ratePieces, mcsPieces, vhtPieces, legacy, ht, vht, ← value]
  have notTen : a.dataRate ≠ 10 := fun ten => legacy (ten ▸ rate)
  have above : 12 ≤ a.dataRate := UInt8.not_lt.mp legacy
  by_cases ht : a.dataRate < 44
  · have vht : ¬44 ≤ a.dataRate := UInt8.not_le.mpr ht
    have value := ht_value above ht
    simp [ratePieces, mcsPieces, vhtPieces, legacy, above, ht, vht, notTen, ← value]
  · have vht : 44 ≤ a.dataRate := UInt8.not_lt.mp ht
    have value := vht_value vht coded
    simp [ratePieces, mcsPieces, vhtPieces, legacy, above, ht, vht, coded, notTen, ← value]

end Values

section Read

variable {rf : RfState} {a : RxPktAttrib} {frame data : List UInt8}

theorem presentWords_eq {past : Nat → UInt8} {ws : List Nat} :
    ∀ {at_ n : Nat}, PresentWords past data at_ ws → ws.length ≤ n → presentWords past data n at_ = ws := by
  induction ws with
  | nil => exact fun no => no.elim
  | cons w ws ih =>
    intro at_ n words enough
    obtain ⟨n, rfl⟩ := Nat.exists_eq_add_of_le' (Nat.le_of_add_left_le enough : 1 ≤ n)
    cases ws with
    | nil =>
      rw [presentWords, words.1, RtapBit.ext, words.2.ext]
      rfl
    | cons w' ws =>
      obtain ⟨first, plain, rest⟩ := words
      rw [presentWords, first, RtapBit.ext, plain.ext, ih rest (by simpa using enough)]
      rfl

/-- Where the first field may begin. -/
def fieldsAt (rf : RfState) (a : RxPktAttrib) : Nat := 4 + 4 * (allWords rf a).length

theorem fieldsAt_eq (rf : RfState) (a : RxPktAttrib) :
    fieldsAt rf a = 8 + if a.physt then 4 * rf.numTotalRFPath else 0 := by
  rw [fieldsAt, allWords, List.length_cons, length_pathWords]
  split <;> omega

theorem rtLen_eq (rf : RfState) (a : RxPktAttrib) :
    (filled rf a).rtLen = fieldsAt rf a + (written (tsftPieces a ++ restPieces rf a)).length := by
  have words : ((pathWords rf a).flatMap (toLe 4)).length = 4 * (pathWords rf a).length := by
    induction pathWords rf a with
    | nil => rfl
    | cons w ws ih => rw [List.flatMap_cons, List.length_append, ih, length_toLe, List.length_cons]; omega
  rw [(written_filled rf a).rtLen, List.length_append, words, fieldsAt, allWords, List.length_cons]
  omega

/-- `hdr_buf` has 64 bytes. -/
theorem rtLen_le (few : rf.numTotalRFPath ≤ 4) (a : RxPktAttrib) : (filled rf a).rtLen ≤ 64 := by
  have rest := length_restPieces_le rf a
  have stamp := length_tsftPieces a
  rw [rtLen_eq, fieldsAt_eq, written_append, List.length_append, stamp]
  split_ifs at rest ⊢ <;> omega

/-- A pushed header, read. -/
structure Pushed (rf : RfState) (a : RxPktAttrib) (frame : List UInt8) (past : Nat → UInt8) (data : List UInt8) :
    Prop where
  itLen : field past data 2 2 = (filled rf a).rtLen
  length : data.length = (filled rf a).rtLen + frame.length
  words : PresentWords past data 4 (allWords rf a)
  read : ∀ (vns : List RadiotapNamespace) (junk : Iterator),
    let s := scan rtapKind (filled rf a).rtLen (fieldsAt rf a) ((tsftPieces a ++ restPieces rf a).map Piece.field)
    ∃ n, ∀ fuel ≥ n, readRadiotap past data data.length vns junk fuel =
      (s.1.map visitAt, some (if s.2 then .enoent else .einval))

theorem pushed (some_ : 0 < rf.numTotalRFPath) (few : rf.numTotalRFPath ≤ 4) (past : Nat → UInt8)
    (split : data = hdrBytes (filled rf a) ++ frame) : Pushed rf a frame past data := by
  have small := rtLen_le few a
  rw [hdrBytes_filled some_] at split
  have itLen : field past data 2 2 = (filled rf a).rtLen := by
    refine field_toLe past [0, 0] ((allWords rf a).flatMap (toLe 4) ++ written (tsftPieces a ++ restPieces rf a) ++ frame)
      ?_ rfl (Nat.lt_of_le_of_lt small (by decide))
    simp only [split, List.append_assoc]
  have length : data.length = (filled rf a).rtLen + frame.length := by
    have words : ((allWords rf a).flatMap (toLe 4)).length = 4 * (allWords rf a).length := by
      simp [List.length_flatMap, Nat.mul_comm]
    rw [split, rtLen_eq, fieldsAt]
    simp only [List.length_append, words, length_toLe, List.length_cons, List.length_nil]
  have words : PresentWords past data 4 (allWords rf a) := by
    refine @presentWords_read past data (written (tsftPieces a ++ restPieces rf a) ++ frame) (allWords rf a)
      ([0, 0] ++ toLe 2 (filled rf a).rtLen) _ ?_ rfl allWords_lt (allWords_shape some_)
    simp only [split, List.append_assoc]
  refine ⟨itLen, length, words, fun vns junk => ?_⟩
  have version : byteAt past data 0 = 0 := by
    rw [split]
    rfl
  have inside : 4 + 4 * (allWords rf a).length ≤ field past data 2 2 := by
    rw [itLen, rtLen_eq, fieldsAt]
    exact Nat.le_add_right _ _
  have read := @readRadiotap_words past data data.length vns junk _ version words inside
    (by rw [itLen, length]; exact Nat.le_add_right _ _)
  rwa [itLen, fieldsOf_allWords some_] at read

theorem Pushed.value (past : Nat → UInt8) (some_ : 0 < rf.numTotalRFPath)
    (split : data = hdrBytes (filled rf a) ++ frame)
    (fits : Fits rtapKind (fieldsAt rf a) (tsftPieces a ++ restPieces rf a)) :
    ((place rtapKind (fieldsAt rf a) ((tsftPieces a ++ restPieces rf a).map Piece.field)).map visitAt).map
        (visitValue past data) =
      (tsftPieces a ++ restPieces rf a).map fun p => fieldValue p.field p.bytes := by
  have whole : data = ([0, 0] ++ toLe 2 (filled rf a).rtLen ++ (allWords rf a).flatMap (toLe 4)) ++
      written (tsftPieces a ++ restPieces rf a) ++ frame := by
    rw [split, hdrBytes_filled some_]
  have offset : ([0, 0] ++ toLe 2 (filled rf a).rtLen ++ (allWords rf a).flatMap (toLe 4)).length =
      fieldsAt rf a := by
    simp [fieldsAt, List.length_flatMap, Nat.mul_comm]
    omega
  have bytes := congrArg (List.map fun v => fieldValue v.1 v.2) (fits.read past whole offset)
  rw [List.map_map, List.map_map] at bytes
  rw [List.map_map]
  exact bytes

/-- A time stamp that is out of its alignment is read four bytes too far, and the header ends too soon. -/
theorem misaligned (physt : a.physt = true) (stamped : a.tsfl ≠ 0) (odd : rf.numTotalRFPath % 2 ≠ 0) :
    (scan rtapKind (filled rf a).rtLen (fieldsAt rf a)
      ((tsftPieces a ++ restPieces rf a).map Piece.field)).2 = false := by
  have start : fieldsAt rf a = 8 + 4 * rf.numTotalRFPath := by rw [fieldsAt_eq, physt, if_pos rfl]
  have late : alignUp 8 (fieldsAt rf a) = fieldsAt rf a + 4 := by
    rw [alignUp, if_neg (by omega)]
    omega
  have rest := (@fits_rest rf a (fieldsAt rf a + 12) (by omega)).stop_eq
  have stamp : tsftPieces a = [⟨[], RtapBit.tsft, toLe 8 a.tsfl.toNat⟩] := if_pos stamped
  refine scan_of_lt_stop _ _ (by rw [rtLen_eq]; exact Nat.le_add_right _ _) ?_
  have shifted : stop rtapKind (fieldsAt rf a) ((tsftPieces a ++ restPieces rf a).map Piece.field) =
      fieldsAt rf a + 12 + (written (restPieces rf a)).length := by
    rw [stamp, List.map_append, List.map_cons, List.map_nil, List.singleton_append, stop, ← rest]
    show stop rtapKind (alignUp 8 (fieldsAt rf a) + 8) _ = _
    rw [late]
  rw [shifted, rtLen_eq, written_append, List.length_append, length_tsftPieces, if_pos stamped]
  omega

end Read

/-! ## Which records read back -/

section Legible

variable {rf : RfState} {a : RxPktAttrib} {frame data : List UInt8} {past : Nat → UInt8}
  {vns : List RadiotapNamespace} {junk : Iterator}

theorem split_of_pushed {headroom : Nat} {realloc : Bool}
    (push : fillRadiotapHdr rf a headroom realloc frame = some data) : data = hdrBytes (filled rf a) ++ frame := by
  rw [fillRadiotapHdr] at push
  split at push
  · exact absurd push (by simp)
  · exact (Option.some.inj push).symm

/-- The alignment of the time stamp, and the fields behind it. -/
theorem fits_pieces (aligned : a.physt = true → a.tsfl ≠ 0 → rf.numTotalRFPath % 2 = 0) :
    Fits rtapKind (fieldsAt rf a) (tsftPieces a ++ restPieces rf a) := by
  refine (fits_tsft fun stamped => ?_).append (fits_rest ?_)
  · rw [fieldsAt_eq]
    split
    · rename_i physt
      have even := aligned physt stamped
      omega
    · rfl
  · rw [fieldsAt_eq, length_tsftPieces]
    split_ifs <;> omega

/-- All fields are visited where they were written. -/
theorem read_pieces (fits : Fits rtapKind (fieldsAt rf a) (tsftPieces a ++ restPieces rf a))
    (header : Pushed rf a frame past data) (vns : List RadiotapNamespace) (junk : Iterator) :
    ∃ n, ∀ fuel ≥ n, readRadiotap past data data.length vns junk fuel =
      ((place rtapKind (fieldsAt rf a) ((tsftPieces a ++ restPieces rf a).map Piece.field)).map visitAt,
        some .enoent) := by
  obtain ⟨n, read⟩ := header.read vns junk
  have stops := fits.stop_eq.trans (rtLen_eq rf a).symm
  rw [scan_of_stop_le _ _ (Nat.le_of_eq stops)] at read
  exact ⟨n, read⟩

theorem ReadsBack.aligned (back : ReadsBack rf a frame past data vns junk) (header : Pushed rf a frame past data)
    (physt : a.physt = true) (stamped : a.tsfl ≠ 0) : rf.numTotalRFPath % 2 = 0 := by
  by_contra odd
  obtain ⟨n, read⟩ := header.read vns junk
  obtain ⟨m, visits⟩ := back.visits
  obtain ⟨vs, whole, -⟩ := visits (n + m) (Nat.le_add_left ..)
  rw [misaligned physt stamped odd] at read
  rw [read (n + m) (Nat.le_add_right ..)] at whole
  exact absurd (congrArg Prod.snd whole) (by simp)

theorem ReadsBack.legible (back : ReadsBack rf a frame past data vns junk) (some_ : 0 < rf.numTotalRFPath)
    (few : rf.numTotalRFPath ≤ 4) (coded : a.dataRate < 84) (split : data = hdrBytes (filled rf a) ++ frame) :
    Legible rf a := by
  have header := pushed some_ few past split
  have fits := fits_pieces (back.aligned header)
  obtain ⟨n, read⟩ := read_pieces fits header vns junk
  obtain ⟨m, visits⟩ := back.visits
  obtain ⟨vs, whole, -, values, -⟩ := visits (n + m) (Nat.le_add_left ..)
  rw [read (n + m) (Nat.le_add_right ..)] at whole
  obtain rfl := congrArg Prod.fst whole
  rw [Pushed.value past some_ split fits] at values
  obtain ⟨rate, ht, vht⟩ := (values_iff few coded).mp values
  exact ⟨back.aligned header, rate, ht, vht⟩

theorem Legible.readsBack (legible : Legible rf a) (some_ : 0 < rf.numTotalRFPath) (few : rf.numTotalRFPath ≤ 4)
    (coded : a.dataRate < 84) (split : data = hdrBytes (filled rf a) ++ frame) :
    ReadsBack rf a frame past data vns junk := by
  have header := pushed some_ few past split
  have fits := fits_pieces legible.aligned
  obtain ⟨n, read⟩ := read_pieces fits header vns junk
  have values := (values_iff few coded).mpr ⟨legible.rate, legible.ht, legible.vht⟩
  refine ⟨(written_filled rf a).top.trans (rtLen_le few a), ?_, n, fun fuel enough =>
    ⟨_, read fuel enough, ?_, (Pushed.value past some_ split fits).trans values, ?_⟩⟩
  · rw [header.itLen, header.length]
  · have few : (allWords rf a).length ≤ field past data 2 2 := by
      rw [header.itLen, rtLen_eq, fieldsAt]
      omega
    rw [presentWords_eq header.words few, fieldsOf_allWords some_, List.map_map]
    exact place_map_fst _ _
  · have last := @place_getLast _ rtapKind ((tsftPieces a ++ restPieces rf a).map Piece.field)
      (fieldsAt rf a) (by simp [restPieces])
    rw [fits.stop_eq, ← rtLen_eq] at last
    rw [header.itLen, ← last, List.getLast?_map, Option.map_map]
    rfl

end Legible

/-- A record reads back exactly when it is legible. -/
theorem reads_back_iff {rf : RfState} (some_ : 0 < rf.numTotalRFPath) (few : rf.numTotalRFPath ≤ 4)
    {a : RxPktAttrib} (coded : a.dataRate < 84) {headroom : Nat} {realloc : Bool} {frame data : List UInt8}
    (push : fillRadiotapHdr rf a headroom realloc frame = some data) (past : Nat → UInt8)
    (vns : List RadiotapNamespace) (junk : Iterator) :
    ReadsBack rf a frame past data vns junk ↔ Legible rf a := by
  have split := split_of_pushed push
  exact ⟨fun back => back.legible some_ few coded split, fun legible => legible.readsBack some_ few coded split⟩

/-- Two paths on channel 36. -/
def twoPaths : RfState := ⟨2, 36, 1⟩

/-- A frame with PHY status, at the given rate. -/
def heardAt (rate : UInt8) : RxPktAttrib :=
  { physt := true, mfrag := false, encrypt := 0, crcErr := false, dataRate := rate, bw := 0, stbc := 0, ldpc := 0
    sgi := 0, tsfl := 0, signalQuality := 90, recvSignalPower := -40, rxPwr := fun i => if i = 0 then -40 else -43 }

/-- The structure as the caller's stack has it. -/
def unset : Iterator :=
  { maxLength := 0, argIndex := 0, bitmapShifter := 0, arg := 0, resetOnExt := false, nextBitmap := 0, vns := []
    currentNamespace := none, isRadiotapNs := false, nextNsData := 0, thisArg := 0, thisArgIndex := 0
    thisArgSize := 0 }

theorem reads_back_54 : ReadsBack twoPaths (heardAt 11) [0x88, 0] (fun _ => 0)
    (hdrBytes (filled twoPaths (heardAt 11)) ++ [0x88, 0]) [] unset :=
  (reads_back_iff (by decide) (by decide) (by decide)
      (rfl : fillRadiotapHdr twoPaths (heardAt 11) 64 true [0x88, 0] = some _) (fun _ => 0) [] unset).mpr
    ⟨fun _ _ => rfl, by decide, fun above => absurd above (by decide), fun above => absurd above (by decide)⟩

/-- 48 Mbit/s stands in the table as 93 half megabits. -/
theorem rate_48_misread : ¬ReadsBack twoPaths (heardAt 10) [0x88, 0] (fun _ => 0)
    (hdrBytes (filled twoPaths (heardAt 10)) ++ [0x88, 0]) [] unset := by
  intro back
  exact (back.legible (by decide) (by decide) (by decide) rfl).rate rfl

/-! ## The monitor path -/

/-- The pushed header is one whose length `vmac_override` goes by. -/
theorem hdrBytes_radiotap {rf : RfState} (few : rf.numTotalRFPath ≤ 4) (a : RxPktAttrib) :
    ∃ rtap : Radiotap, hdrBytes (filled rf a) = rtap.bytes := by
  have small := rtLen_le few a
  have long : 8 ≤ (filled rf a).rtLen := by
    rw [(written_filled rf a).rtLen]
    exact Nat.le_add_right _ _
  let fields := toLe 4 (filled rf a).itPresent ++
    (List.range ((filled rf a).rtLen - 8)).map fun k => (filled rf a).hdrBuf (8 + k)
  have length : 4 + fields.length = (filled rf a).rtLen := by
    simp only [fields, List.length_append, length_toLe, List.length_map, List.length_range]
    omega
  refine ⟨⟨0, 0, fields, by omega⟩, ?_⟩
  show _ = [0, 0] ++ toLe 2 (4 + fields.length) ++ fields
  rw [length, hdrBytes]
  simp only [fields, List.append_assoc]

/-- Whatever was received with it, a frame from `vmac_low_tx` reaches `vmac_rx`. -/
theorem vmacOverride_filled {rf : RfState} (few : rf.numTotalRFPath ≤ 4) (a : RxPktAttrib) (hash : Core.Enc → Core.Bucket)
    (env : Core.Env) (w : Core.World) (id : Nat) (junk : Core.HdrJunk) (rest : List UInt8) :
    vmacOverride hash env w ⟨id, hdrBytes (filled rf a) ++ (Core.ieee80211Hdr junk ++ rest)⟩ =
      Core.vmacRx hash env w ⟨id, rest⟩ := by
  obtain ⟨rtap, bytes⟩ := hdrBytes_radiotap few a
  rw [bytes]
  exact vmacOverride_ieee80211Hdr hash env w id rtap junk rest

end Vmac.Recv.RadiotapFill
