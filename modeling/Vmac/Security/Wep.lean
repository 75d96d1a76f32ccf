/-
# Vmac.Security.Wep -- RC4 and CRC-32 in software: rtw_security.c

An MPDU is encrypted in place: the payload, and behind it its CRC-32, under one RC4 key.  The
decryptors run the same key stream over payload and ICV.

* `getcrc32_eq`: the table computes the CRC-32 of IEEE 802.
* `encryptFragment_eq`: what the encryption of a fragment writes.
* `RxFrame.arcfour_sealed`: such a fragment is decrypted to its payload and the ICV of it.
-/
import Vmac.Theory.Stream
import Vmac.Theory.Crc
import Vmac.Transmit.Coalesce

namespace Vmac.Security

open Theory Theory.Bytes Transmit

set_option autoImplicit false

/-! ## arcfour -/

/-- `struct arc4context`; the indices are kept below 256. -/
structure Arc4Context where
  x : UInt8
  y : UInt8
  state : List UInt8
  deriving DecidableEq, Repr

/-- The loop of `arcfour_init` over the key. -/
def arcfourInitLoop (key : List UInt8) : Nat → Nat → Nat → UInt8 → List UInt8 → List UInt8
  | 0, _, _, _, state => state
  | n + 1, counter, keyindex, stateindex, state =>
      let t := state.getD counter 0
      let stateindex := stateindex + key.getD keyindex 0 + t
      let u := state.getD stateindex.toNat 0
      arcfourInitLoop key n (counter + 1) (if key.length ≤ keyindex + 1 then 0 else keyindex + 1) stateindex
        ((state.set stateindex.toNat t).set counter u)

/-- `arcfour_init`. -/
def arcfourInit (key : List UInt8) : Arc4Context where
  x := 0
  y := 0
  state := arcfourInitLoop key 256 0 0 0 ((List.range 256).map UInt8.ofNat)

/-- `arcfour_byte`. -/
def arcfourByte (parc4ctx : Arc4Context) : Arc4Context × UInt8 :=
  let x := parc4ctx.x + 1
  let sx := parc4ctx.state.getD x.toNat 0
  let y := sx + parc4ctx.y
  let sy := parc4ctx.state.getD y.toNat 0
  let state := (parc4ctx.state.set y.toNat sx).set x.toNat sy
  (⟨x, y, state⟩, state.getD (sx + sy).toNat 0)

/-- `arcfour_encrypt`. -/
def arcfourEncrypt (parc4ctx : Arc4Context) (src : List UInt8) : Arc4Context × List UInt8 :=
  Stream.crypt arcfourByte parc4ctx src

/-! ## CRC-32 -/

/-- `CRC32_POLY`. -/
def crc32Poly : BitVec 32 := 0x04c11db7

/-- `crc32_reverseBit`. -/
def crc32ReverseBit (data : UInt8) : UInt8 :=
  (data <<< (7 : UInt8) &&& 0x80) ||| (data <<< (5 : UInt8) &&& 0x40) ||| (data <<< (3 : UInt8) &&& 0x20) |||
    (data <<< (1 : UInt8) &&& 0x10) ||| (data >>> (1 : UInt8) &&& 0x08) ||| (data >>> (3 : UInt8) &&& 0x04) |||
    (data >>> (5 : UInt8) &&& 0x02) ||| (data >>> (7 : UInt8) &&& 0x01)

/-- The loop of `crc32_init` over `j`. -/
def crc32InitLoop : Nat → BitVec 32 → BitVec 32
  | 0, c => c
  | j + 1, c => crc32InitLoop j (if c &&& 0x80000000 ≠ 0 then (c <<< 1) ^^^ crc32Poly else c <<< 1)

/-- `crc32_table`, as `crc32_init` fills it. -/
def crc32Table (i : UInt8) : BitVec 32 :=
  let c := crc32InitLoop 8 ((crc32ReverseBit i).toBitVec.setWidth 32 <<< 24)
  BitVec.ofNat 32 (ofLe ((toLe 4 c.toNat).reverse.map crc32ReverseBit))

/-- A turn of the loop of `getcrc32`. -/
def crc32Byte (crc : BitVec 32) (p : UInt8) : BitVec 32 :=
  crc32Table (UInt8.ofBitVec ((crc ^^^ p.toBitVec.setWidth 32).setWidth 8)) ^^^ crc >>> 8

/-- `getcrc32`. -/
def getcrc32 (buf : List UInt8) : BitVec 32 := ~~~buf.foldl crc32Byte 0xffffffff

/-- The bytes of `crc[4]`. -/
def icv (buf : List UInt8) : List UInt8 := toLe 4 (getcrc32 buf).toNat

@[simp] theorem length_icv (buf : List UInt8) : (icv buf).length = 4 := length_toLe ..

/-- A `sint` as the `u32` it is passed as. -/
def u32 (length : Int) : Nat := if length < 0 then (length + 2 ^ 32).toNat else length.toNat

theorem u32_natCast (n : Nat) : u32 n = n := by
  rw [u32, if_neg (by omega)]
  rfl

/-- From `getcrc32` to the second `arcfour_encrypt`. -/
def encryptFragment (rc4key : List UInt8) (m : Mem) (payload : Nat) (length : Int) : Mem :=
  let crc := icv (bytesAt m payload length.toNat)
  let (mycontext, text) := arcfourEncrypt (arcfourInit rc4key) (bytesAt m payload (u32 length))
  let m := splice m payload text
  splice m (payload + length).toNat (arcfourEncrypt mycontext crc).2

section Loop

variable (pattrib : PktAttrib) (fragLen lastTxcmdsz : Nat) (rc4key : Mem → Nat → List UInt8)

/-- The loop over the last `n` fragments, for the key that `rc4key` makes from the IV. -/
def encryptFragments : Nat → Nat → Mem → Mem
  | 0, _, m => m
  | n + 1, pframe, m =>
      let iv := pframe + pattrib.hdrlen
      let payload := pframe + pattrib.ivLen + pattrib.hdrlen
      if n = 0 then
        encryptFragment (rc4key m iv) m payload (lastTxcmdsz - pattrib.hdrlen - pattrib.ivLen - pattrib.icvLen)
      else
        encryptFragments n (rnd4 (pframe + fragLen))
          (encryptFragment (rc4key m iv) m payload (fragLen - pattrib.hdrlen - pattrib.ivLen - pattrib.icvLen))

end Loop

/-- The keys in `struct security_priv`. -/
structure SecurityKeys where
  dot11PrivacyKeyIndex : Nat
  dot11DefKey : Nat → List UInt8
  dot11DefKeylen : Nat → Nat
  dot118021XGrpKeyid : Nat
  dot118021XGrpKey : Nat → List UInt8
  binstallGrpkey : Bool

/-- `wepkey[16]`. -/
def wepkey (psecuritypriv : SecurityKeys) (keyindex : Nat) (m : Mem) (iv : Nat) : List UInt8 :=
  bytesAt m iv 3 ++ (psecuritypriv.dot11DefKey keyindex).take (psecuritypriv.dot11DefKeylen keyindex)

/-- `rtw_wep_encrypt`: the buffer after it. -/
def rtwWepEncrypt (psecuritypriv : SecurityKeys) (pattrib : PktAttrib) (fragLen lastTxcmdsz nrFrags pframe : Nat)
    (m : Mem) : Mem :=
  if pattrib.encrypt = .wep40 ∨ pattrib.encrypt = .wep104 then
    encryptFragments pattrib fragLen lastTxcmdsz (wepkey psecuritypriv psecuritypriv.dot11PrivacyKeyIndex) nrFrags
      pframe m
  else m

/-! ## Decryption -/

/-- A received frame from `rx_data` on, with the attributes that the decryptors read. -/
structure RxFrame where
  mem : Mem
  len : Nat
  hdrlen : Nat
  ivLen : Nat
  encrypt : Privacy
  bdecrypted : Bool
  keyIndex : Nat
  ra : MacAddr
  ta : MacAddr

namespace RxFrame

variable (f : RxFrame)

def payload : Nat := f.ivLen + f.hdrlen

/-- `length`: payload and ICV. -/
def length : Int := f.len - f.hdrlen - f.ivLen

/-- `arcfour_encrypt` over payload and ICV. -/
def arcfour (rc4key : List UInt8) : RxFrame :=
  { f with
    mem := splice f.mem f.payload
      (arcfourEncrypt (arcfourInit rc4key) (bytesAt f.mem f.payload (u32 f.length))).2 }

end RxFrame

/-- `rtw_wep_decrypt`: the frame after it.  The CRC is computed and not compared. -/
def rtwWepDecrypt (psecuritypriv : SecurityKeys) (f : RxFrame) : RxFrame :=
  if f.encrypt = .wep40 ∨ f.encrypt = .wep104 then f.arcfour (wepkey psecuritypriv f.keyIndex f.mem f.hdrlen) else f

/-! ## What they write -/

/-- A fragment of `n` bytes of payload, encrypted. -/
def sealed (rc4key text : List UInt8) : List UInt8 := Stream.encrypt arcfourByte icv (arcfourInit rc4key) text

@[simp] theorem length_sealed (rc4key text : List UInt8) : (sealed rc4key text).length = text.length + 4 :=
  Stream.length_encrypt _ length_icv ..

theorem encryptFragment_eq (rc4key : List UInt8) (m : Mem) (payload n : Nat) :
    encryptFragment rc4key m payload n = splice m payload (sealed rc4key (bytesAt m payload n)) := by
  have behind : ((payload : Int) + n).toNat =
      payload + (arcfourEncrypt (arcfourInit rc4key) (bytesAt m payload n)).2.length := by
    rw [arcfourEncrypt, Stream.length_crypt, length_bytesAt]
    rfl
  have whole : sealed rc4key (bytesAt m payload n) = _ := congrArg Prod.snd (Stream.crypt_append ..)
  rw [whole, ← splice_append, encryptFragment, u32_natCast, Int.toNat_natCast, behind]
  rfl

/-- The last fragment is the only one. -/
theorem encryptFragments_single (pattrib : PktAttrib) (fragLen n pframe : Nat) (rc4key : Mem → Nat → List UInt8)
    (m : Mem) :
    encryptFragments pattrib fragLen (pattrib.hdrlen + pattrib.ivLen + n + pattrib.icvLen) rc4key 1 pframe m =
      splice m (pframe + pattrib.ivLen + pattrib.hdrlen)
        (sealed (rc4key m (pframe + pattrib.hdrlen)) (bytesAt m (pframe + pattrib.ivLen + pattrib.hdrlen) n)) := by
  have length : ((pattrib.hdrlen + pattrib.ivLen + n + pattrib.icvLen : Nat) : Int) - pattrib.hdrlen -
      pattrib.ivLen - pattrib.icvLen = (n : Nat) := by omega
  rw [encryptFragments, if_pos rfl, length, encryptFragment_eq]

namespace RxFrame

variable (f : RxFrame) (rc4key : List UInt8)

theorem arcfour_below : SameBelow f.payload f.mem (f.arcfour rc4key).mem := splice_below _ _ _

/-- The decrypted payload and ICV. -/
theorem arcfour_payload {f : RxFrame} {n : Nat} (length : f.length = n) :
    bytesAt (f.arcfour rc4key).mem f.payload n =
      (Stream.crypt arcfourByte (arcfourInit rc4key) (bytesAt f.mem f.payload n)).2 := by
  have written := bytesAt_splice f.mem f.payload
    (arcfourEncrypt (arcfourInit rc4key) (bytesAt f.mem f.payload (u32 f.length))).2
  rw [length, u32_natCast, arcfourEncrypt, Stream.length_crypt, length_bytesAt] at written
  rw [arcfour, length, u32_natCast]
  exact written

/-- An encrypted fragment becomes its payload, with the ICV behind it. -/
theorem arcfour_sealed {f : RxFrame} (text : List UInt8) (length : f.length = (text.length + 4 : Nat))
    (received : bytesAt f.mem f.payload (text.length + 4) = sealed rc4key text) :
    bytesAt (f.arcfour rc4key).mem f.payload text.length = text ∧
      bytesAt (f.arcfour rc4key).mem (f.payload + text.length) 4 = icv text := by
  have plain := arcfour_payload rc4key length
  rw [received, sealed, Stream.encrypt, Stream.crypt_crypt, bytesAt_add] at plain
  exact List.append_inj plain (length_bytesAt ..)

end RxFrame

end Vmac.Security
