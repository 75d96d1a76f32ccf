/-
# Vmac.Recv.Decap -- from a data frame to an Ethernet frame: rtw_recv.c

`validate_recv_data_frame` reads the addresses and the length of the header;
`wlanhdr_to_ethhdr` takes the header off and puts an Ethernet header in front of the payload,
over what was in the buffer there.

* `wlanhdrToEthhdr_snap`: what becomes of a frame with the LLC header that `rtw_put_snap` writes.
-/
import Vmac.Transmit.Coalesce

namespace Vmac.Recv.Decap

open Security Transmit

set_option autoImplicit false

/-! ## The received frame -/

/-- `union recv_frame`: the data begins at `rx_data` and has `len` bytes, so that `rx_tail` is behind it. -/
structure RecvFrame where
  mem : Mem
  rxData : Nat
  len : Nat

/-- The bytes of the frame. -/
def RecvFrame.bytes (f : RecvFrame) : List UInt8 := bytesAt f.mem f.rxData f.len

/-- `recvframe_pull`, for a length that is not negative. -/
def RecvFrame.pull (f : RecvFrame) (sz : Nat) : Option RecvFrame :=
  if f.len < sz then none else some { f with rxData := f.rxData + sz, len := f.len - sz }

/-- `recvframe_pull_tail`; `wlanhdr_to_ethhdr` does not look at its result. -/
def RecvFrame.pullTail (f : RecvFrame) (sz : Nat) : RecvFrame :=
  if f.len < sz then f else { f with len := f.len - sz }

/-- The fields of `struct rx_pkt_attrib` that the conversion reads and writes. -/
structure RxPktAttrib where
  hdrlen : Nat
  ivLen : Nat
  icvLen : Nat
  encrypt : Privacy
  ethType : UInt16
  dst : MacAddr
  src : MacAddr

/-! ## validate_recv_data_frame -/

/-- `SET_ICE_IV_LEN`. -/
def setIceIvLen : Privacy → Nat × Nat
  | .wep40 | .wep104 => (4, 4)
  | .tkip => (8, 4)
  | .aes => (8, 8)
  | .sms4 => (18, 16)
  | .noPrivacy | .tkipWtmic | .wepWpaMixed => (0, 0)

/-- An address in the header. -/
def hdrAddr (mem : Mem) (start : Nat) : MacAddr := fun i => mem (start + i)

/-- `get_tofr_ds`, and the destination and source address for it. -/
def dataAddrs (mem : Mem) (ptr : Nat) : Option (MacAddr × MacAddr) :=
  match decide (mem (ptr + 1) &&& 1 ≠ 0), decide (mem (ptr + 1) &&& 2 ≠ 0) with
  | false, false => some (hdrAddr mem (ptr + 4), hdrAddr mem (ptr + 10))
  | false, true => some (hdrAddr mem (ptr + 4), hdrAddr mem (ptr + 16))
  | true, false => some (hdrAddr mem (ptr + 16), hdrAddr mem (ptr + 10))
  -- WDS is not supported
  | true, true => none

/-- What `validate_recv_data_frame` makes of the header; `encryAlgo` is the algorithm for a protected frame. -/
def validateRecvDataFrame (encryAlgo : Privacy) (f : RecvFrame) : Option RxPktAttrib :=
  (dataAddrs f.mem f.rxData).map fun (dst, src) =>
    let qos := f.mem f.rxData &&& 0x80 ≠ 0
    let order := f.mem (f.rxData + 1) &&& 0x80 ≠ 0
    let privacy := f.mem (f.rxData + 1) &&& 0x40 ≠ 0
    let encrypt := if privacy then encryAlgo else .noPrivacy
    { hdrlen := (if qos then 26 else 24) + (if order then 4 else 0)
      ivLen := (setIceIvLen encrypt).1
      icvLen := (setIceIvLen encrypt).2
      encrypt := encrypt
      ethType := 0
      dst := dst
      src := src }

/-! ## wlanhdr_to_ethhdr -/

/-- `rtw_rfc1042_header`. -/
def rfc1042Header : List UInt8 := [0xaa, 0xaa, 0x03, 0x00, 0x00, 0x00]

/-- `rtw_bridge_tunnel_header`. -/
def bridgeTunnelHeader : List UInt8 := [0xaa, 0xaa, 0x03, 0x00, 0x00, 0xf8]

/-- `SNAP_SIZE`. -/
def snapSize : Nat := 6

/-- `SNAP_ETH_TYPE_IPX` and `SNAP_ETH_TYPE_APPLETALK_AARP`. -/
def snapEthTypeIpx : List UInt8 := [0x81, 0x37]

def snapEthTypeAppletalkAarp : List UInt8 := [0x80, 0xf3]

/-- The LLC header is taken off: RFC 1042 or bridge tunnel encapsulation. -/
def bsnaphdr (psnap psnapType : List UInt8) : Bool :=
  (psnap = rfc1042Header && psnapType != snapEthTypeIpx && psnapType != snapEthTypeAppletalkAarp) ||
    psnap = bridgeTunnelHeader

/-- `wlanhdr_to_ethhdr`: the frame and its attributes if it returns `_SUCCESS`. -/
def wlanhdrToEthhdr (pattrib : RxPktAttrib) (f : RecvFrame) : Option (RecvFrame × RxPktAttrib) :=
  let ptr := f.rxData
  let f := if pattrib.encrypt ≠ .noPrivacy then f.pullTail pattrib.icvLen else f
  let snap := ptr + pattrib.hdrlen + pattrib.ivLen
  let strip := bsnaphdr (bytesAt f.mem snap snapSize) (bytesAt f.mem (snap + snapSize) 2)
  let rmvLen := pattrib.hdrlen + pattrib.ivLen + if strip then snapSize else 0
  -- `len`, a `u16`
  let len := (((f.len : Int) - rmvLen) % 65536).toNat
  let ethType := UInt16.ofNat ((f.mem (ptr + rmvLen)).toNat * 256 + (f.mem (ptr + rmvLen + 1)).toNat)
  (f.pull (rmvLen - ethHlen + if strip then 2 else 0)).map fun f =>
    let mem := splice f.mem f.rxData (List.ofFn pattrib.dst ++ List.ofFn pattrib.src)
    let mem :=
      if strip then mem
      else splice mem (f.rxData + 12) [UInt8.ofNat (len / 256), UInt8.ofNat (len % 256)]
    ({ f with mem := mem }, { pattrib with ethType := ethType })

/-! ## Encapsulation undone -/

/-- The two bytes of a type. -/
def typeBytes (hProto : UInt16) : List UInt8 :=
  [UInt8.ofNat (hProto.toNat / 256), UInt8.ofNat (hProto.toNat % 256)]

theorem typeBytes_injective {a b : UInt16} (same : typeBytes a = typeBytes b) : a = b := by
  have high : a.toNat / 256 % 256 = b.toNat / 256 % 256 := by
    simpa [typeBytes] using congrArg UInt8.toNat (List.cons.inj same).1
  have low : a.toNat % 256 % 256 = b.toNat % 256 % 256 := by
    simpa [typeBytes] using congrArg UInt8.toNat (List.cons.inj (List.cons.inj same).2).1
  have lt := a.toNat_lt
  have lt' := b.toNat_lt
  apply UInt16.toNat_inj.mp
  omega

theorem putSnap_eq (hProto : UInt16) :
    putSnap hProto =
      (if hProto = 0x8137 ∨ hProto = 0x80f3 then bridgeTunnelHeader else rfc1042Header) ++ typeBytes hProto := by
  unfold putSnap
  split <;> rfl

/-- The LLC header that `rtw_put_snap` writes is always taken off: for IPX and AppleTalk it is the bridge
tunnel's, otherwise RFC 1042's with another type. -/
theorem bsnaphdr_putSnap (hProto : UInt16) :
    bsnaphdr ((putSnap hProto).take snapSize) ((putSnap hProto).drop snapSize) = true := by
  rw [putSnap_eq]
  split
  · rfl
  · rename_i other
    rw [not_or] at other
    have notIpx : typeBytes hProto ≠ snapEthTypeIpx := fun same =>
      other.1 (typeBytes_injective (b := 0x8137) same)
    have notAarp : typeBytes hProto ≠ snapEthTypeAppletalkAarp := fun same =>
      other.2 (typeBytes_injective (b := 0x80f3) same)
    show bsnaphdr rfc1042Header (typeBytes hProto) = true
    simp [bsnaphdr, notIpx, notAarp]

theorem ofNat_typeBytes (hProto : UInt16) :
    UInt16.ofNat ((UInt8.ofNat (hProto.toNat / 256)).toNat * 256 + (UInt8.ofNat (hProto.toNat % 256)).toNat) =
      hProto := by
  have lt := hProto.toNat_lt
  have value : (UInt8.ofNat (hProto.toNat / 256)).toNat * 256 + (UInt8.ofNat (hProto.toNat % 256)).toNat =
      hProto.toNat := by
    rw [UInt8.toNat_ofNat', UInt8.toNat_ofNat']
    omega
  rw [value, UInt16.ofNat_toNat]

/-- A frame with that LLC header becomes an Ethernet frame with the addresses of the attributes. -/
theorem wlanhdrToEthhdr_snap {pattrib : RxPktAttrib} {f : RecvFrame} {hProto : UInt16} {payload : List UInt8}
    (plain : pattrib.encrypt = .noPrivacy) (low : 24 ≤ pattrib.hdrlen)
    (len : f.len = pattrib.hdrlen + pattrib.ivLen + 8 + payload.length)
    (body : bytesAt f.mem (f.rxData + pattrib.hdrlen + pattrib.ivLen) (8 + payload.length) =
      putSnap hProto ++ payload) :
    ∃ f' pattrib', wlanhdrToEthhdr pattrib f = some (f', pattrib') ∧ pattrib'.ethType = hProto ∧
      f'.bytes = List.ofFn pattrib.dst ++ List.ofFn pattrib.src ++ typeBytes hProto ++ payload := by
  generalize snap : f.rxData + pattrib.hdrlen + pattrib.ivLen = h at body
  have split : 8 + payload.length = 6 + (2 + payload.length) := by omega
  have halves : putSnap hProto = (putSnap hProto).take 6 ++ typeBytes hProto := by
    rw [putSnap_eq]
    split <;> rfl
  rw [split, bytesAt_add, halves, List.append_assoc] at body
  obtain ⟨llc, after⟩ := List.append_inj body (by simp)
  have type : bytesAt f.mem (h + 6) 2 = typeBytes hProto := by
    rw [bytesAt_add] at after
    exact (List.append_inj after (length_bytesAt ..)).1
  have strip : bsnaphdr (bytesAt f.mem h snapSize) (bytesAt f.mem (h + snapSize) 2) = true := by
    have stripped := bsnaphdr_putSnap hProto
    have tail : (putSnap hProto).drop snapSize = typeBytes hProto := by
      rw [putSnap_eq]
      split <;> rfl
    rw [tail] at stripped
    rw [snapSize, llc, type]
    exact stripped
  have bytes : f.mem (h + 6) = UInt8.ofNat (hProto.toNat / 256) ∧
      f.mem (h + 6 + 1) = UInt8.ofNat (hProto.toNat % 256) := by
    simpa [bytesAt, List.range_succ, typeBytes] using type
  have removed : f.rxData + (pattrib.hdrlen + pattrib.ivLen + 6) = h + 6 := by omega
  have pulled : f.pull (pattrib.hdrlen + pattrib.ivLen + 6 - ethHlen + 2) =
      some { f with rxData := h - 6, len := 14 + payload.length } := by
    have eth : ethHlen = 14 := rfl
    have offset : f.rxData + (pattrib.hdrlen + pattrib.ivLen + 6 - 14 + 2) = h - 6 := by omega
    have rest : f.len - (pattrib.hdrlen + pattrib.ivLen + 6 - 14 + 2) = 14 + payload.length := by omega
    rw [RecvFrame.pull, eth, if_neg (by omega), offset, rest]
  unfold wlanhdrToEthhdr
  dsimp only
  rw [if_neg (by rw [plain]; decide), snap, strip]
  simp only [if_true]
  rw [show snapSize = 6 from rfl, pulled, Option.map_some]
  refine ⟨_, _, rfl, ?_, ?_⟩
  · rw [removed, bytes.1, bytes.2]
    exact ofNat_typeBytes hProto
  · have length : (List.ofFn pattrib.dst ++ List.ofFn pattrib.src).length = 12 := by simp
    have front := bytesAt_splice f.mem (h - 6) (List.ofFn pattrib.dst ++ List.ofFn pattrib.src)
    rw [length] at front
    have behind := bytesAt_splice_behind f.mem (h - 6) (h + 6) (2 + payload.length)
      (List.ofFn pattrib.dst ++ List.ofFn pattrib.src) (by omega)
    have next : h - 6 + 12 = h + 6 := by omega
    have whole : 14 + payload.length = 12 + (2 + payload.length) := by omega
    simp only [RecvFrame.bytes]
    rw [whole, bytesAt_add, front, next, behind, after, List.append_assoc]
    simp only [List.append_assoc]

end Vmac.Recv.Decap
