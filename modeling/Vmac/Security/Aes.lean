/-
# Vmac.Security.Aes -- software CCMP: rtw_security.c

`aes_cipher` and `aes_decipher` on a frame in memory, over any block function in place of
`aes128k128d` under one key.  The two share the code from `construct_mic_iv` on: the
decryptor runs it on a copy of the decrypted frame.
-/
import Vmac.Theory.Ccm

namespace Vmac.Security

open Theory.Ccm

set_option autoImplicit false

/-- The bytes from a pointer on. -/
abbrev Mem := Nat → UInt8

/-- `WLAN_HDR_A3_LEN`. -/
def wlanHdrA3Len : Nat := 24

/-- `WLAN_HDR_A3_QOS_LEN`. -/
def wlanHdrA3QosLen : Nat := 26

/-- `MAX_MSG_SIZE`. -/
def maxMsgSize : Nat := 2048

/-- `GetFrameType`. -/
def getFrameType (pbuf : Mem) : UInt8 := pbuf 0 &&& 0x0c

/-- `get_frame_sub_type`. -/
def getFrameSubType (pbuf : Mem) : UInt8 := pbuf 0 &&& 0xfc

/-! ## Blocks -/

/-- `n` bytes from an address on. -/
def bytesAt (m : Mem) (start n : Nat) : List UInt8 := (List.range n).map fun k => m (start + k)

/-- Sixteen bytes at an address. -/
def block (m : Mem) (start : Nat) : Block := fun i => m (start + i)

/-- `n` bytes at an address, and zeros. -/
def paddedBuffer (m : Mem) (start n : Nat) : Block := fun i => if i < n then m (start + i) else 0

/-- Copy the first `n` bytes of a block to an address. -/
def copyBlock (m : Mem) (start : Nat) (b : Block) (n : Nat) : Mem := fun k =>
  if start ≤ k ∧ k < start + n then b (Fin.ofNat 16 (k - start)) else m k

/-- The traffic class in `mic_iv` and `ctr_preload`. -/
def qosTc (qcExists a4Exists : Bool) (mpdu : Mem) : UInt8 :=
  if qcExists then (if a4Exists then mpdu 30 &&& 0x0f else mpdu 24 &&& 0x0f) else 0

/-- `construct_mic_iv`. -/
def constructMicIv (qcExists a4Exists : Bool) (mpdu : Mem) (payloadLength : Nat)
    (pnVector : List UInt8) : Block :=
  blockOf ([0x59, qosTc qcExists a4Exists mpdu] ++ bytesAt mpdu 10 6 ++ pnVector.reverse ++
    [UInt8.ofNat (payloadLength / 256), UInt8.ofNat (payloadLength % 256)])

/-- `construct_mic_header1`. -/
def constructMicHeader1 (headerLength : Nat) (mpdu : Mem) : Block :=
  blockOf ([UInt8.ofNat ((headerLength - 2) / 256), UInt8.ofNat ((headerLength - 2) % 256)] ++
    [mpdu 0 &&& 0xcf, mpdu 1 &&& 0xc7] ++ bytesAt mpdu 4 12)

/-- `construct_mic_header2`; the two zeros stand for the sequence control. -/
def constructMicHeader2 (mpdu : Mem) (a4Exists qcExists : Bool) : Block :=
  blockOf (bytesAt mpdu 16 6 ++ [0x00, 0x00] ++ (if a4Exists then bytesAt mpdu 24 6 else []) ++
    if qcExists then
      if a4Exists then [mpdu 30 &&& 0x0f, mpdu 31 &&& 0x00] else [mpdu 24 &&& 0x0f, mpdu 25 &&& 0x00]
    else [])

/-- `construct_ctr_preload`. -/
def constructCtrPreload (a4Exists qcExists : Bool) (mpdu : Mem) (pnVector : List UInt8)
    (c : Nat) : Block :=
  blockOf ([0x01, qosTc qcExists a4Exists mpdu] ++ bytesAt mpdu 10 6 ++ pnVector.reverse ++
    [UInt8.ofNat (c / 256), UInt8.ofNat (c % 256)])

/-! ## aes_cipher, aes_decipher -/

/-- The header of a frame, as both functions read it. -/
structure HdrShape where
  a4Exists : Bool
  qcExists : Bool
  /-- `hdrlen`, from the second use on. -/
  hdrlen : Nat
  deriving DecidableEq, Repr

/-- `qc_exists`: the first test is never true, for the sum of a type and a subtype is
below 16. -/
def qcExists (pframe : Mem) : Bool :=
  let frtype := getFrameType pframe
  let frsubtype := getFrameSubType pframe >>> 4
  if frtype ||| frsubtype == 0x18 || frtype ||| frsubtype == 0x28 || frtype ||| frsubtype == 0x38 then true
  else frtype == 0x08 &&
    (frsubtype == 0x08 || frsubtype == 0x09 || frsubtype == 0x0a || frsubtype == 0x0b)

def hdrShape (hdrlen : Nat) (pframe : Mem) : HdrShape where
  a4Exists := !(hdrlen == wlanHdrA3Len || hdrlen == wlanHdrA3QosLen)
  qcExists := qcExists pframe
  hdrlen := if qcExists pframe && hdrlen != wlanHdrA3QosLen then hdrlen + 2 else hdrlen

def pnVector (pframe : Mem) (hdrlen : Nat) : List UInt8 :=
  bytesAt pframe hdrlen 2 ++ bytesAt pframe (hdrlen + 4) 4

section Cipher

variable (aes128k128d : Block → Block)

/-- The loop over `num_blocks` of the MIC. -/
def micBlocks (pframe : Mem) : Nat → Nat → Block → Block
  | 0, _, aesOut => aesOut
  | n + 1, payloadIndex, aesOut =>
      micBlocks pframe n (payloadIndex + 16) (aes128k128d (aesOut.xor (block pframe payloadIndex)))

/-- `aes_out` after the MIC is calculated. -/
def calculateMic (shape : HdrShape) (pn : List UInt8) (pframe : Mem) (plen : Nat) : Block :=
  let micIv := constructMicIv shape.qcExists shape.a4Exists pframe plen pn
  let micHeader1 := constructMicHeader1 shape.hdrlen pframe
  let micHeader2 := constructMicHeader2 pframe shape.a4Exists shape.qcExists
  let aesOut := aes128k128d micIv
  let aesOut := aes128k128d (aesOut.xor micHeader1)
  let aesOut := aes128k128d (aesOut.xor micHeader2)
  let aesOut := micBlocks aes128k128d pframe (plen / 16) (shape.hdrlen + 8) aesOut
  if 0 < plen % 16 then
    aes128k128d (aesOut.xor (paddedBuffer pframe (shape.hdrlen + 8 + 16 * (plen / 16)) (plen % 16)))
  else aesOut

/-- The loop over `num_blocks` of the payload; block `i` has counter `i + 1`. -/
def cryptBlocks (shape : HdrShape) (pn : List UInt8) : Nat → Nat → Nat → Mem → Mem
  | 0, _, _, pframe => pframe
  | n + 1, i, payloadIndex, pframe =>
      let aesOut := aes128k128d (constructCtrPreload shape.a4Exists shape.qcExists pframe pn (i + 1))
      cryptBlocks shape pn n (i + 1) (payloadIndex + 16)
        (copyBlock pframe payloadIndex (aesOut.xor (block pframe payloadIndex)) 16)

/-- The payload, encrypted or decrypted in place. -/
def cryptPayload (shape : HdrShape) (pn : List UInt8) (pframe : Mem) (plen : Nat) : Mem :=
  let numBlocks := plen / 16
  let pframe := cryptBlocks aes128k128d shape pn numBlocks 0 (shape.hdrlen + 8) pframe
  if 0 < plen % 16 then
    let payloadIndex := shape.hdrlen + 8 + 16 * numBlocks
    let aesOut := aes128k128d
      (constructCtrPreload shape.a4Exists shape.qcExists pframe pn (numBlocks + 1))
    let paddedBuffer := paddedBuffer pframe payloadIndex (plen % 16)
    copyBlock pframe payloadIndex (aesOut.xor paddedBuffer) (plen % 16)
  else pframe

/-- From `construct_mic_iv` to the encrypted MIC. -/
def micAndEncrypt (shape : HdrShape) (pn : List UInt8) (pframe : Mem) (plen : Nat) : Mem :=
  let mic := calculateMic aes128k128d shape pn pframe plen
  let pframe := copyBlock pframe (shape.hdrlen + 8 + plen) mic 8
  let pframe := cryptPayload aes128k128d shape pn pframe plen
  let aesOut := aes128k128d (constructCtrPreload shape.a4Exists shape.qcExists pframe pn 0)
  let paddedBuffer := paddedBuffer pframe (shape.hdrlen + 8 + plen) 8
  copyBlock pframe (shape.hdrlen + 8 + plen) (aesOut.xor paddedBuffer) 8

/-- `aes_cipher`: the frame after it. -/
def aesCipher (hdrlen : Nat) (pframe : Mem) (plen : Nat) : Mem :=
  let shape := hdrShape hdrlen pframe
  micAndEncrypt aes128k128d shape (pnVector pframe shape.hdrlen) pframe plen

/-- `aes_decipher`: the frame after it, and whether it returns `_SUCCESS`.  `message` is the
static buffer as the call before left it. -/
def aesDecipher (message : Mem) (hdrlen : Nat) (pframe : Mem) (plen : Nat) : Mem × Bool :=
  -- the packet number is read before `hdrlen` is corrected
  let pn := pnVector pframe hdrlen
  let shape := hdrShape hdrlen pframe
  let pframe := cryptPayload aes128k128d shape pn pframe (plen - 8)
  let message := if shape.hdrlen + plen + 8 ≤ maxMsgSize
    then fun k => if k < shape.hdrlen + plen + 8 then pframe k else message k
    else message
  let message := micAndEncrypt aes128k128d shape (pnVector pframe shape.hdrlen) message (plen - 8)
  let mic := shape.hdrlen + 8 + plen - 8
  (pframe, (List.range 8).all fun i => pframe (mic + i) == message (mic + i))

end Cipher

end Vmac.Security
