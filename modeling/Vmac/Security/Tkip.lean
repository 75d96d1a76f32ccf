/-
# Vmac.Security.Tkip -- TKIP in software: rtw_security.c

The RC4 key of an MPDU is mixed from the temporal key, the transmitter address and the packet
number, which both sides read from the IV.

* `getTkipPn_tkipIv`: the packet number that is read is the one that `TKIP_IV` wrote.
* `wep_tkip_round_trip`: what `rtw_wep_encrypt` or `rtw_tkip_encrypt` does to an MPDU, the decryptor
  that has the key undoes.
-/
import Vmac.Security.Wep
import Vmac.Transmit.PacketNumber

namespace Vmac.Security

open Theory Theory.Bytes Transmit

set_option autoImplicit false

/-! ## The key mixing -/

/-- `RotR1`. -/
def rotR1 (v16 : UInt16) : UInt16 := (v16 >>> (1 : UInt16) &&& 0x7fff) ^^^ (v16 &&& 1) <<< (15 : UInt16)

/-- `Lo8` and `Hi8`. -/
def lo8 (v16 : UInt16) : UInt8 := v16.toUInt8

def hi8 (v16 : UInt16) : UInt8 := (v16 >>> (8 : UInt16)).toUInt8

/-- `Lo16` and `Hi16`. -/
def lo16 (v32 : UInt32) : UInt16 := v32.toUInt16

def hi16 (v32 : UInt32) : UInt16 := (v32 >>> (16 : UInt32)).toUInt16

/-- `Mk16`. -/
def mk16 (hi lo : UInt8) : UInt16 := lo.toUInt16 ^^^ hi.toUInt16 <<< (8 : UInt16)

/-- `TK16`. -/
def tk16 (tk : List UInt8) (n : Nat) : UInt16 := mk16 (tk.getD (2 * n + 1) 0) (tk.getD (2 * n) 0)

/-- `Sbox1[0]`. -/
def sbox1₀ : List UInt16 := [
  0xc6a5, 0xf884, 0xee99, 0xf68d, 0xff0d, 0xd6bd, 0xdeb1, 0x9154, 0x6050, 0x0203, 0xcea9, 0x567d,
  0xe719, 0xb562, 0x4de6, 0xec9a, 0x8f45, 0x1f9d, 0x8940, 0xfa87, 0xef15, 0xb2eb, 0x8ec9, 0xfb0b,
  0x41ec, 0xb367, 0x5ffd, 0x45ea, 0x23bf, 0x53f7, 0xe496, 0x9b5b, 0x75c2, 0xe11c, 0x3dae, 0x4c6a,
  0x6c5a, 0x7e41, 0xf502, 0x834f, 0x685c, 0x51f4, 0xd134, 0xf908, 0xe293, 0xab73, 0x6253, 0x2a3f,
  0x080c, 0x9552, 0x4665, 0x9d5e, 0x3028, 0x37a1, 0x0a0f, 0x2fb5, 0x0e09, 0x2436, 0x1b9b, 0xdf3d,
  0xcd26, 0x4e69, 0x7fcd, 0xea9f, 0x121b, 0x1d9e, 0x5874, 0x342e, 0x362d, 0xdcb2, 0xb4ee, 0x5bfb,
  0xa4f6, 0x764d, 0xb761, 0x7dce, 0x527b, 0xdd3e, 0x5e71, 0x1397, 0xa6f5, 0xb968, 0x0000, 0xc12c,
  0x4060, 0xe31f, 0x79c8, 0xb6ed, 0xd4be, 0x8d46, 0x67d9, 0x724b, 0x94de, 0x98d4, 0xb0e8, 0x854a,
  0xbb6b, 0xc52a, 0x4fe5, 0xed16, 0x86c5, 0x9ad7, 0x6655, 0x1194, 0x8acf, 0xe910, 0x0406, 0xfe81,
  0xa0f0, 0x7844, 0x25ba, 0x4be3, 0xa2f3, 0x5dfe, 0x80c0, 0x058a, 0x3fad, 0x21bc, 0x7048, 0xf104,
  0x63df, 0x77c1, 0xaf75, 0x4263, 0x2030, 0xe51a, 0xfd0e, 0xbf6d, 0x814c, 0x1814, 0x2635, 0xc32f,
  0xbee1, 0x35a2, 0x88cc, 0x2e39, 0x9357, 0x55f2, 0xfc82, 0x7a47, 0xc8ac, 0xbae7, 0x322b, 0xe695,
  0xc0a0, 0x1998, 0x9ed1, 0xa37f, 0x4466, 0x547e, 0x3bab, 0x0b83, 0x8cca, 0xc729, 0x6bd3, 0x283c,
  0xa779, 0xbce2, 0x161d, 0xad76, 0xdb3b, 0x6456, 0x744e, 0x141e, 0x92db, 0x0c0a, 0x486c, 0xb8e4,
  0x9f5d, 0xbd6e, 0x43ef, 0xc4a6, 0x39a8, 0x31a4, 0xd337, 0xf28b, 0xd532, 0x8b43, 0x6e59, 0xdab7,
  0x018c, 0xb164, 0x9cd2, 0x49e0, 0xd8b4, 0xacfa, 0xf307, 0xcf25, 0xcaaf, 0xf48e, 0x47e9, 0x1018,
  0x6fd5, 0xf088, 0x4a6f, 0x5c72, 0x3824, 0x57f1, 0x73c7, 0x9751, 0xcb23, 0xa17c, 0xe89c, 0x3e21,
  0x96dd, 0x61dc, 0x0d86, 0x0f85, 0xe090, 0x7c42, 0x71c4, 0xccaa, 0x90d8, 0x0605, 0xf701, 0x1c12,
  0xc2a3, 0x6a5f, 0xaef9, 0x69d0, 0x1791, 0x9958, 0x3a27, 0x27b9, 0xd938, 0xeb13, 0x2bb3, 0x2233,
  0xd2bb, 0xa970, 0x0789, 0x33a7, 0x2db6, 0x3c22, 0x1592, 0xc920, 0x8749, 0xaaff, 0x5078, 0xa57a,
  0x038f, 0x59f8, 0x0980, 0x1a17, 0x65da, 0xd731, 0x84c6, 0xd0b8, 0x82c3, 0x29b0, 0x5a77, 0x1e11,
  0x7bcb, 0xa8fc, 0x6dd6, 0x2c3a]

/-- `Sbox1[1]`, which has the bytes of `Sbox1[0]` reversed. -/
def sbox1₁ : List UInt16 := sbox1₀.map fun v16 => mk16 (lo8 v16) (hi8 v16)

/-- `_S_`. -/
def sbox (v16 : UInt16) : UInt16 := sbox1₀.getD (lo8 v16).toNat 0 ^^^ sbox1₁.getD (hi8 v16).toNat 0

/-- `p1k[5]`. -/
structure P1k where
  p0 : UInt16
  p1 : UInt16
  p2 : UInt16
  p3 : UInt16
  p4 : UInt16
  deriving DecidableEq, Repr

/-- A turn of the loop of `phase1`. -/
def phase1Turn (tk : List UInt8) (p1k : P1k) (i : Nat) : P1k :=
  let p0 := p1k.p0 + sbox (p1k.p4 ^^^ tk16 tk (i % 2))
  let p1 := p1k.p1 + sbox (p0 ^^^ tk16 tk (i % 2 + 2))
  let p2 := p1k.p2 + sbox (p1 ^^^ tk16 tk (i % 2 + 4))
  let p3 := p1k.p3 + sbox (p2 ^^^ tk16 tk (i % 2 + 6))
  let p4 := p1k.p4 + sbox (p3 ^^^ tk16 tk (i % 2))
  ⟨p0, p1, p2, p3, p4 + UInt16.ofNat i⟩

/-- `PHASE1_LOOP_CNT`. -/
def phase1LoopCnt : Nat := 8

/-- `phase1`. -/
def phase1 (tk : List UInt8) (ta : MacAddr) (iv32 : UInt32) : P1k :=
  (List.range phase1LoopCnt).foldl (phase1Turn tk)
    ⟨lo16 iv32, hi16 iv32, mk16 (ta 1) (ta 0), mk16 (ta 3) (ta 2), mk16 (ta 5) (ta 4)⟩

/-- `phase2`. -/
def phase2 (tk : List UInt8) (p1k : P1k) (iv16 : UInt16) : List UInt8 :=
  let k5 := p1k.p4 + iv16
  let k0 := p1k.p0 + sbox (k5 ^^^ tk16 tk 0)
  let k1 := p1k.p1 + sbox (k0 ^^^ tk16 tk 1)
  let k2 := p1k.p2 + sbox (k1 ^^^ tk16 tk 2)
  let k3 := p1k.p3 + sbox (k2 ^^^ tk16 tk 3)
  let k4 := p1k.p4 + sbox (k3 ^^^ tk16 tk 4)
  let k5 := k5 + sbox (k4 ^^^ tk16 tk 5)
  let k0 := k0 + rotR1 (k5 ^^^ tk16 tk 6)
  let k1 := k1 + rotR1 (k0 ^^^ tk16 tk 7)
  let k2 := k2 + rotR1 k1
  let k3 := k3 + rotR1 k2
  let k4 := k4 + rotR1 k3
  let k5 := k5 + rotR1 k4
  [hi8 iv16, (hi8 iv16 ||| 0x20) &&& 0x7f, lo8 iv16, lo8 ((k5 ^^^ tk16 tk 0) >>> (1 : UInt16)),
    lo8 k0, hi8 k0, lo8 k1, hi8 k1, lo8 k2, hi8 k2, lo8 k3, hi8 k3, lo8 k4, hi8 k4, lo8 k5, hi8 k5]

/-- `GET_TKIP_PN`; `TSC6` and `TSC7`, which it does not write, are in neither `pnl` nor `pnh`. -/
def getTkipPn (iv : List UInt8) : Nat :=
  ofLe [iv.getD 2 0, iv.getD 0 0, iv.getD 4 0, iv.getD 5 0, iv.getD 6 0, iv.getD 7 0]

/-- `rc4key[16]`, from the IV of a frame. -/
def tkipRc4key (prwskey : List UInt8) (ta : MacAddr) (m : Mem) (iv : Nat) : List UInt8 :=
  let dot11txpn := getTkipPn (bytesAt m iv 8)
  let pnl := UInt16.ofNat dot11txpn
  let pnh := UInt32.ofNat (dot11txpn / 2 ^ 16)
  phase2 prwskey (phase1 prwskey ta pnh) pnl

theorem tsc_toNat (dot11txpn : UInt64) (k : Nat) : (tsc dot11txpn k).toNat = dot11txpn.toNat / 256 ^ k % 256 := by
  simp [tsc]

/-- The packet number arrives. -/
theorem getTkipPn_tkipIv (dot11txpn : UInt64) (keyidx : UInt8) :
    getTkipPn (tkipIv dot11txpn keyidx) = dot11txpn.toNat % 2 ^ 48 := by
  show ofLe [tsc dot11txpn 0, tsc dot11txpn 1, tsc dot11txpn 2, tsc dot11txpn 3, tsc dot11txpn 4, tsc dot11txpn 5] = _
  simp only [ofLe, tsc_toNat]
  omega

/-! ## rtw_tkip_encrypt, rtw_tkip_decrypt -/

/-- The key of `rtw_tkip_encrypt`. -/
def tkipEncryptKey (psecuritypriv : SecurityKeys) (pattrib : PktAttrib) : List UInt8 :=
  if isMcast pattrib.ra then psecuritypriv.dot118021XGrpKey psecuritypriv.dot118021XGrpKeyid
  else pattrib.dot118021xUncstKey

/-- `rtw_tkip_encrypt`: the buffer after it. -/
def rtwTkipEncrypt (psecuritypriv : SecurityKeys) (pattrib : PktAttrib) (fragLen lastTxcmdsz nrFrags pframe : Nat)
    (m : Mem) : Mem :=
  if pattrib.encrypt = .tkip then
    encryptFragments pattrib fragLen lastTxcmdsz (tkipRc4key (tkipEncryptKey psecuritypriv pattrib) pattrib.ta) nrFrags
      pframe m
  else m

/-- The key of `rtw_tkip_decrypt`, if there are a station record and, for a group frame, a group key;
`stas` gives the key in a record. -/
def tkipDecryptKey (psecuritypriv : SecurityKeys) (stas : MacAddr → Option (List UInt8)) (f : RxFrame) :
    Option (List UInt8) :=
  match stas f.ta with
  | none => none
  | some dot118021xUncstKey =>
      if isMcast f.ra then
        if psecuritypriv.binstallGrpkey then some (psecuritypriv.dot118021XGrpKey f.keyIndex) else none
      else some dot118021xUncstKey

/-- The last four bytes of the frame are the CRC of what is before them. -/
def RxFrame.icvRight (f : RxFrame) : Bool :=
  bytesAt f.mem (f.payload + f.length - 4).toNat 4 == icv (bytesAt f.mem f.payload (f.length - 4).toNat)

/-- `rtw_tkip_decrypt`: the frame after it, and whether it returns `_SUCCESS`. -/
def rtwTkipDecrypt (psecuritypriv : SecurityKeys) (stas : MacAddr → Option (List UInt8)) (f : RxFrame) :
    RxFrame × Bool :=
  if f.encrypt = .tkip then
    match tkipDecryptKey psecuritypriv stas f with
    | none => (f, false)
    | some prwskey =>
        let f := f.arcfour (tkipRc4key prwskey f.ta f.mem f.hdrlen)
        (f, f.icvRight)
  else (f, true)

/-! ## From the sender to the receiver -/

/-- `key_index`, as `decryptor` reads it from the IV. -/
def RxFrame.ivKeyIndex (f : RxFrame) : Nat := ((f.mem (f.hdrlen + 3) >>> 6) &&& 0x3).toNat

def RxFrame.withKeyIndex (f : RxFrame) : RxFrame := { f with keyIndex := f.ivKeyIndex }

@[simp] theorem RxFrame.withKeyIndex_encrypt (f : RxFrame) : f.withKeyIndex.encrypt = f.encrypt := rfl

@[simp] theorem RxFrame.withKeyIndex_length (f : RxFrame) : f.withKeyIndex.length = f.length := rfl

/-- An MPDU with its IV and `n` bytes of payload lies in the buffer `m`, the encryption makes `sent` of
it, and `f` is what is received. -/
structure Delivered (pattrib : PktAttrib) (dot11txpn : UInt64) (keyidx : UInt8) (pframe n : Nat) (m sent : Mem)
    (f : RxFrame) : Prop where
  ivLen : pattrib.ivLen = pattrib.encrypt.ivLen
  icvLen : pattrib.icvLen = pattrib.encrypt.icvLen
  iv : bytesAt m (pframe + pattrib.hdrlen) pattrib.ivLen = pattrib.encrypt.drawIv dot11txpn keyidx
  sameHdrlen : f.hdrlen = pattrib.hdrlen
  sameIvLen : f.ivLen = pattrib.ivLen
  sameEncrypt : f.encrypt = pattrib.encrypt
  sameRa : f.ra = pattrib.ra
  sameTa : f.ta = pattrib.ta
  keyIndex : f.keyIndex = f.ivKeyIndex
  len : f.len = pattrib.hdrlen + pattrib.ivLen + n + pattrib.icvLen
  bytes : bytesAt f.mem 0 f.len = bytesAt sent pframe f.len

theorem bytesAt_eq_part {m m' : Mem} {start start' n : Nat} (same : bytesAt m start n = bytesAt m' start' n)
    {k w : Nat} (inside : k + w ≤ n) : bytesAt m (start + k) w = bytesAt m' (start' + k) w := by
  refine List.map_congr_left fun j member => ?_
  have below := List.mem_range.mp member
  have byte := congrArg (·.getD (k + j) 0) same
  simp only [getD_bytesAt, if_pos (show k + j < n by omega)] at byte
  rwa [Nat.add_assoc, Nat.add_assoc]

/-- The key index survives the IV. -/
theorem drawIv_keyIndex {encrypt : Privacy} (cipher : encrypt.isCipher = true) (dot11txpn : UInt64) (keyidx : UInt8) :
    (encrypt.drawIv dot11txpn keyidx).getD 3 0 >>> 6 &&& 0x3 = keyidx &&& 0x3 := by
  have plain : ∀ b : UInt8, ((b &&& 0x3) <<< 6) >>> 6 &&& 0x3 = b &&& 0x3 := forall_byte (by decide +kernel)
  have extended : ∀ b : UInt8, ((0x20 : UInt8) ||| (b &&& 0x3) <<< 6) >>> 6 &&& 0x3 = b &&& 0x3 :=
    forall_byte (by decide +kernel)
  cases encrypt with
  | wep40 | wep104 => exact plain keyidx
  | tkip | aes => exact extended keyidx
  | noPrivacy | tkipWtmic | sms4 | wepWpaMixed => cases cipher

namespace Delivered

variable {pattrib : PktAttrib} {dot11txpn : UInt64} {keyidx : UInt8} {pframe n : Nat} {m sent : Mem} {f : RxFrame}
  {rc4key : List UInt8}

/-- What the encryption of a single fragment makes of the buffer. -/
def Sent (pattrib : PktAttrib) (pframe n : Nat) (m : Mem) (rc4key : List UInt8) (sent : Mem) : Prop :=
  sent = splice m (pframe + pattrib.ivLen + pattrib.hdrlen)
    (sealed rc4key (bytesAt m (pframe + pattrib.ivLen + pattrib.hdrlen) n))

variable (there : Delivered pattrib dot11txpn keyidx pframe n m sent f)
  (alone : Sent pattrib pframe n m rc4key sent)

include there alone

/-- Header and IV are received as they are. -/
theorem front {k w : Nat} (inside : k + w ≤ f.hdrlen + f.ivLen) :
    bytesAt f.mem k w = bytesAt m (pframe + k) w := by
  have len := there.len
  have hdrlen := there.sameHdrlen
  have ivLen := there.sameIvLen
  have part := bytesAt_eq_part there.bytes (show k + w ≤ f.len by omega)
  rw [Nat.zero_add] at part
  rw [part, alone]
  exact bytesAt_of_below (splice_below _ _ _) (by omega)

theorem ivKeyIndex (cipher : pattrib.encrypt.isCipher = true) : f.keyIndex = (keyidx &&& 0x3).toNat := by
  have hdrlen := there.sameHdrlen
  have ivLen := there.sameIvLen
  have wide : 4 ≤ pattrib.ivLen := by
    rw [there.ivLen]
    revert cipher
    cases pattrib.encrypt <;> decide
  have read := there.front alone (show f.hdrlen + pattrib.ivLen ≤ f.hdrlen + f.ivLen by omega)
  rw [hdrlen, there.iv] at read
  have third := congrArg (·.getD 3 0) read
  simp only [getD_bytesAt, if_pos (show 3 < pattrib.ivLen by omega)] at third
  rw [there.keyIndex, RxFrame.ivKeyIndex, hdrlen, third, drawIv_keyIndex cipher]

/-- The decryptor that makes the same RC4 key gives header, IV and payload back, with the right ICV. -/
theorem restored (four : pattrib.icvLen = 4) :
    bytesAt (f.arcfour rc4key).mem 0 (f.hdrlen + f.ivLen + n) = bytesAt m pframe (f.hdrlen + f.ivLen + n) ∧
      (f.arcfour rc4key).icvRight = true := by
  have len := there.len
  have hdrlen := there.sameHdrlen
  have ivLen := there.sameIvLen
  have place : f.payload = f.hdrlen + f.ivLen := Nat.add_comm ..
  have start : pframe + pattrib.ivLen + pattrib.hdrlen = pframe + (f.hdrlen + f.ivLen) := by omega
  have text : (bytesAt m (pframe + (f.hdrlen + f.ivLen)) n).length = n := length_bytesAt ..
  have length : f.length = (n + 4 : Nat) := by
    rw [RxFrame.length]
    omega
  have received : bytesAt f.mem f.payload (n + 4) = sealed rc4key (bytesAt m (pframe + (f.hdrlen + f.ivLen)) n) := by
    have part := bytesAt_eq_part there.bytes (show f.payload + (n + 4) ≤ f.len by omega)
    have whole := bytesAt_splice m (pframe + (f.hdrlen + f.ivLen))
      (sealed rc4key (bytesAt m (pframe + (f.hdrlen + f.ivLen)) n))
    rw [length_sealed, text] at whole
    rw [Nat.zero_add] at part
    rw [part, alone, start, place, whole]
  have plain := RxFrame.arcfour_sealed rc4key (bytesAt m (pframe + (f.hdrlen + f.ivLen)) n) (by rw [text, length])
    (by rw [text, received])
  rw [text] at plain
  constructor
  · have header : bytesAt (f.arcfour rc4key).mem 0 (f.hdrlen + f.ivLen) = bytesAt m pframe (f.hdrlen + f.ivLen) := by
      rw [bytesAt_of_below (f.arcfour_below rc4key) (by omega)]
      exact there.front alone (by omega)
    rw [bytesAt_add _ 0 (f.hdrlen + f.ivLen), bytesAt_add _ pframe (f.hdrlen + f.ivLen), header, Nat.zero_add, ← place,
      plain.1, place]
  · have behind : (f.payload + f.length - 4 : Int).toNat = f.payload + n := by omega
    have count : (f.length - 4).toNat = n := by omega
    have same : bytesAt (f.arcfour rc4key).mem (f.payload + f.length - 4 : Int).toNat 4 =
        icv (bytesAt (f.arcfour rc4key).mem f.payload (f.length - 4).toNat) := by
      rw [behind, count, plain.1, plain.2]
    exact beq_iff_eq.mpr same

end Delivered

/-- Under the index in the IV, the receiver has the WEP key of the sender. -/
def SameWepKey (tx rx : SecurityKeys) (keyidx : UInt8) : Prop :=
  let index := (keyidx &&& 0x3).toNat
  (rx.dot11DefKey index).take (rx.dot11DefKeylen index) =
    (tx.dot11DefKey tx.dot11PrivacyKeyIndex).take (tx.dot11DefKeylen tx.dot11PrivacyKeyIndex)

/-- The receiver knows the transmitter, and has the group key of the sender under the index in the IV or the
pairwise key. -/
def SameTkipKey (tx rx : SecurityKeys) (stas : MacAddr → Option (List UInt8)) (pattrib : PktAttrib) (keyidx : UInt8) :
    Prop :=
  ∃ dot118021xUncstKey, stas pattrib.ta = some dot118021xUncstKey ∧
    if isMcast pattrib.ra then
      rx.binstallGrpkey = true ∧
        rx.dot118021XGrpKey (keyidx &&& 0x3).toNat = tx.dot118021XGrpKey tx.dot118021XGrpKeyid
    else dot118021xUncstKey = pattrib.dot118021xUncstKey

section RoundTrip

variable {tx rx : SecurityKeys} {stas : MacAddr → Option (List UInt8)} {pattrib : PktAttrib} {dot11txpn : UInt64}
  {keyidx : UInt8} {fragLen pframe n : Nat} {m : Mem} {f : RxFrame}

theorem wep_restored (wep : pattrib.encrypt = .wep40 ∨ pattrib.encrypt = .wep104) (same : SameWepKey tx rx keyidx)
    (there : Delivered pattrib dot11txpn keyidx pframe n m
      (rtwWepEncrypt tx pattrib fragLen (pattrib.hdrlen + pattrib.ivLen + n + pattrib.icvLen) 1 pframe m) f) :
    bytesAt (rtwWepDecrypt rx f).mem 0 (f.hdrlen + f.ivLen + n) = bytesAt m pframe (f.hdrlen + f.ivLen + n) := by
  have alone : Delivered.Sent pattrib pframe n m (wepkey tx tx.dot11PrivacyKeyIndex m (pframe + pattrib.hdrlen))
      (rtwWepEncrypt tx pattrib fragLen (pattrib.hdrlen + pattrib.ivLen + n + pattrib.icvLen) 1 pframe m) := by
    rw [rtwWepEncrypt, if_pos wep, encryptFragments_single]
    rfl
  have widths : pattrib.encrypt.isCipher = true ∧ pattrib.ivLen = 4 ∧ pattrib.icvLen = 4 := by
    rw [there.ivLen, there.icvLen]
    rcases wep with is | is <;> rw [is] <;> decide
  have sameIvLen := there.sameIvLen
  have key : wepkey rx f.keyIndex f.mem f.hdrlen =
      wepkey tx tx.dot11PrivacyKeyIndex m (pframe + pattrib.hdrlen) := by
    rw [wepkey, wepkey, there.front alone (by omega), there.ivKeyIndex alone widths.1, there.sameHdrlen]
    exact congrArg _ same
  rw [rtwWepDecrypt, if_pos (there.sameEncrypt ▸ wep), key]
  exact (there.restored alone widths.2.2).1

theorem tkip_restored (tkip : pattrib.encrypt = .tkip) (same : SameTkipKey tx rx stas pattrib keyidx)
    (there : Delivered pattrib dot11txpn keyidx pframe n m
      (rtwTkipEncrypt tx pattrib fragLen (pattrib.hdrlen + pattrib.ivLen + n + pattrib.icvLen) 1 pframe m) f) :
    bytesAt (rtwTkipDecrypt rx stas f).1.mem 0 (f.hdrlen + f.ivLen + n) = bytesAt m pframe (f.hdrlen + f.ivLen + n) ∧
      (rtwTkipDecrypt rx stas f).2 = true := by
  have alone : Delivered.Sent pattrib pframe n m
      (tkipRc4key (tkipEncryptKey tx pattrib) pattrib.ta m (pframe + pattrib.hdrlen))
      (rtwTkipEncrypt tx pattrib fragLen (pattrib.hdrlen + pattrib.ivLen + n + pattrib.icvLen) 1 pframe m) := by
    rw [rtwTkipEncrypt, if_pos tkip, encryptFragments_single]
    rfl
  have widths : pattrib.encrypt.isCipher = true ∧ pattrib.ivLen = 8 ∧ pattrib.icvLen = 4 := by
    rw [there.ivLen, there.icvLen, tkip]
    decide
  have sameIvLen := there.sameIvLen
  have prwskey : tkipDecryptKey rx stas f = some (tkipEncryptKey tx pattrib) := by
    obtain ⟨_, known, key⟩ := same
    rw [tkipDecryptKey, tkipEncryptKey, there.sameTa, known, there.sameRa, there.ivKeyIndex alone widths.1]
    dsimp only
    split at key
    · rename_i group
      rw [if_pos group, if_pos group, if_pos key.1, key.2]
    · rename_i pairwise
      rw [if_neg pairwise, if_neg pairwise, key]
  have rc4key : tkipRc4key (tkipEncryptKey tx pattrib) f.ta f.mem f.hdrlen =
      tkipRc4key (tkipEncryptKey tx pattrib) pattrib.ta m (pframe + pattrib.hdrlen) := by
    unfold tkipRc4key
    rw [there.front alone (by omega), there.sameHdrlen, there.sameTa]
  rw [rtwTkipDecrypt, if_pos (there.sameEncrypt.trans tkip), prwskey]
  dsimp only
  rw [rc4key]
  exact there.restored alone widths.2.2

/-- An MPDU that `rtw_wep_encrypt` or `rtw_tkip_encrypt` encrypted is restored, header, IV and payload, by the
decryptor that has the key; `rtw_tkip_decrypt` returns `_SUCCESS`. -/
theorem wep_tkip_round_trip (tx rx : SecurityKeys) (stas : MacAddr → Option (List UInt8)) (pattrib : PktAttrib)
    (dot11txpn : UInt64) (keyidx : UInt8) (fragLen pframe n : Nat) (m : Mem) (f : RxFrame) :
    (pattrib.encrypt = .wep40 ∨ pattrib.encrypt = .wep104 → SameWepKey tx rx keyidx →
      Delivered pattrib dot11txpn keyidx pframe n m
        (rtwWepEncrypt tx pattrib fragLen (pattrib.hdrlen + pattrib.ivLen + n + pattrib.icvLen) 1 pframe m) f →
      bytesAt (rtwWepDecrypt rx f).mem 0 (f.hdrlen + f.ivLen + n) = bytesAt m pframe (f.hdrlen + f.ivLen + n)) ∧
    (pattrib.encrypt = .tkip → SameTkipKey tx rx stas pattrib keyidx →
      Delivered pattrib dot11txpn keyidx pframe n m
        (rtwTkipEncrypt tx pattrib fragLen (pattrib.hdrlen + pattrib.ivLen + n + pattrib.icvLen) 1 pframe m) f →
      bytesAt (rtwTkipDecrypt rx stas f).1.mem 0 (f.hdrlen + f.ivLen + n) =
        bytesAt m pframe (f.hdrlen + f.ivLen + n) ∧
      (rtwTkipDecrypt rx stas f).2 = true) :=
  ⟨wep_restored, tkip_restored⟩

end RoundTrip

/-- One key of each kind. -/
def oneKey : SecurityKeys where
  dot11PrivacyKeyIndex := 2
  dot11DefKey := fun _ => nullKey
  dot11DefKeylen := fun _ => 5
  dot118021XGrpKeyid := 1
  dot118021XGrpKey := fun _ => nullKey
  binstallGrpkey := true

/-- A data frame with a header of 24 bytes. -/
def plainAttrib (encrypt : Privacy) : PktAttrib :=
  { blankAttrib with encrypt := encrypt, hdrlen := 24, ivLen := encrypt.ivLen, icvLen := encrypt.icvLen }

/-- A buffer with the IV of packet number 0x30201 and key index 2. -/
def plainBuffer (encrypt : Privacy) : Mem := splice (fun k => UInt8.ofNat k) 24 (encrypt.drawIv 0x30201 2)

/-- The MPDU with three bytes of payload that becomes of it. -/
def plainFrame (encrypt : Privacy) (sent : Mem) : RxFrame where
  mem := sent
  len := 24 + encrypt.ivLen + 3 + encrypt.icvLen
  hdrlen := 24
  ivLen := encrypt.ivLen
  encrypt := encrypt
  bdecrypted := false
  keyIndex := 2
  ra := stationAddr 0
  ta := stationAddr 0

theorem wep_tkip_round_trip_three :
    bytesAt (rtwWepDecrypt oneKey
        (plainFrame .wep40 (rtwWepEncrypt oneKey (plainAttrib .wep40) 2346 35 1 0 (plainBuffer .wep40)))).mem 0 31 =
      bytesAt (plainBuffer .wep40) 0 31 ∧
    (rtwTkipDecrypt oneKey (fun _ => some nullKey)
        (plainFrame .tkip (rtwTkipEncrypt oneKey (plainAttrib .tkip) 2346 39 1 0 (plainBuffer .tkip)))).2 = true :=
  ⟨(wep_tkip_round_trip oneKey oneKey (fun _ => some nullKey) (plainAttrib .wep40) 0x30201 2 2346 0 3
      (plainBuffer .wep40)
      (plainFrame .wep40 (rtwWepEncrypt oneKey (plainAttrib .wep40) 2346 35 1 0 (plainBuffer .wep40)))).1
      (.inl rfl) rfl ⟨rfl, rfl, by decide, rfl, rfl, rfl, rfl, rfl, rfl, rfl, rfl⟩,
    ((wep_tkip_round_trip oneKey oneKey (fun _ => some nullKey) (plainAttrib .tkip) 0x30201 2 2346 0 3
      (plainBuffer .tkip)
      (plainFrame .tkip (rtwTkipEncrypt oneKey (plainAttrib .tkip) 2346 39 1 0 (plainBuffer .tkip)))).2
      rfl ⟨nullKey, rfl, rfl⟩ ⟨rfl, rfl, by decide, rfl, rfl, rfl, rfl, rfl, rfl, rfl, rfl⟩).2⟩

end Vmac.Security
