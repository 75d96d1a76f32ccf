/-
# Vmac.Security.Extent -- what software decryption reads and writes: rtw_recv.c, rtw_security.c

The decryptors compute the length of the payload by subtraction and pass it on as an unsigned
number; `aes_decipher` subtracts the MIC in the same way, and copies the frame to its static
buffer only if it fits, but works on the buffer in any case.

* `decryptorTouches`: the bytes that are touched and the loops that run.
* `decryption_inside_iff`: the frames for which all of them are in their place.
-/
import Vmac.Security.Decryptor
import Vmac.Recv.Decap

namespace Vmac.Security

open Theory Theory.Bytes Transmit

set_option autoImplicit false

/-! ## Touches -/

/-- The received frame, and `message[]`. -/
inductive Place
  | frame
  | message
  deriving DecidableEq, Repr

/-- A byte that is read or written, or a loop over the payload with its number of turns. -/
inductive Touch
  | byte (place : Place) (index : Int)
  | loop (turns : Nat)
  deriving DecidableEq, Repr

/-- The size of a place, for a frame of `len` bytes. -/
def Place.size (len : Nat) : Place → Nat
  | .frame => len
  | .message => maxMsgSize

/-- The byte lies in its place; the loop has at most as many turns as the frame has bytes. -/
def Touch.Inside (len : Nat) : Touch → Prop
  | .byte place index => 0 ≤ index ∧ index < place.size len
  | .loop turns => turns ≤ len

/-- `n` bytes of the frame. -/
def frameBytes (start n : Nat) : List Touch := (List.range n).map fun k => .byte .frame (start + k : Nat)

/-- A `uint`. -/
def uint (n : Nat) : Nat := n % 2 ^ 32

/-- `n` bytes under an index that is a `uint`. -/
def span (place : Place) (start n : Nat) : List Touch := (List.range n).map fun k => .byte place (uint (start + k))

/-! ## WEP and TKIP -/

namespace RxFrame

variable (f : RxFrame)

/-- `arcfour_encrypt` and `getcrc32`. -/
def arcfourTouches : List Touch :=
  [.loop (u32 f.length)] ++ frameBytes f.payload (u32 f.length) ++
    [.loop (f.length - 4).toNat] ++ frameBytes f.payload (f.length - 4).toNat

/-- The comparison of the last `j` bytes of the ICV, from the last one down to the first that differs. -/
def icvTouches (crc : List UInt8) (mem : Mem) : Nat → List Touch
  | 0 => []
  | j + 1 =>
      let index : Int := f.payload + f.length - 4 + j
      .byte .frame index :: if crc.getD j 0 = mem index.toNat then icvTouches crc mem j else []

end RxFrame

/-- `rtw_wep_decrypt`. -/
def wepTouches (f : RxFrame) : List Touch := frameBytes f.hdrlen 3 ++ f.arcfourTouches

/-- `rtw_tkip_decrypt`. -/
def tkipTouches (psecuritypriv : SecurityKeys) (stas : MacAddr → Option (List UInt8)) (f : RxFrame) : List Touch :=
  match tkipDecryptKey psecuritypriv stas f with
  | none => []
  | some prwskey =>
      let plain := (f.arcfour (tkipRc4key prwskey f.ta f.mem f.hdrlen)).mem
      [2, 0, 4, 5, 6, 7].map (fun k => .byte .frame (f.hdrlen + k : Nat)) ++ f.arcfourTouches ++
        f.icvTouches (icv (bytesAt plain f.payload (f.length - 4).toNat)) plain 4

/-! ## AES -/

/-- `plen - 8`. -/
def withoutMic (plen : Nat) : Nat := if plen < 8 then plen + 2 ^ 32 - 8 else plen - 8

section Aes

variable (shape : HdrShape) (place : Place)

/-- `pn_vector`. -/
def pnTouches (hdrlen : Nat) : List Touch := span .frame hdrlen 2 ++ span .frame (hdrlen + 4) 4

/-- The traffic class and A2, for a nonce. -/
def nonceTouches : List Touch :=
  (if shape.qcExists then [.byte place (if shape.a4Exists then 30 else 24)] else []) ++ span place 10 6

/-- `construct_mic_header1` and `construct_mic_header2`. -/
def aadTouches : List Touch :=
  span place 0 2 ++ span place 4 12 ++ span place 16 6 ++ (if shape.a4Exists then span place 24 6 else []) ++
    if shape.qcExists then span place (if shape.a4Exists then 30 else 24) 2 else []

/-- The blocks of a payload of `n` bytes, with `each` beside every block. -/
def blockTouches (each : List Touch) (n : Nat) : List Touch :=
  let start := shape.hdrlen + 8
  [.loop (n / 16)] ++ (List.range (n / 16)).flatMap (fun i => each ++ span place (start + 16 * i) 16) ++
    if 0 < n % 16 then each ++ [.loop (n % 16)] ++ span place (start + 16 * (n / 16)) (n % 16) else []

/-- The payload, encrypted or decrypted. -/
def cryptTouches (n : Nat) : List Touch := blockTouches shape place (nonceTouches shape place) n

/-- From `construct_mic_iv` to the encrypted MIC, on `message`. -/
def micTouches (n : Nat) : List Touch :=
  nonceTouches shape .message ++ aadTouches shape .message ++ blockTouches shape .message [] n ++
    span .message (shape.hdrlen + 8 + n) 8 ++ cryptTouches shape .message n ++ nonceTouches shape .message ++
    span .message (shape.hdrlen + 8 + n) 8

end Aes

/-- `aes_decipher`. -/
def aesDecipherTouches (hdrlen : Nat) (pframe : Mem) (plen : Nat) : List Touch :=
  let shape := hdrShape hdrlen pframe
  let n := withoutMic plen
  let copied := uint (shape.hdrlen + plen + 8)
  [.byte .frame 0] ++ pnTouches hdrlen ++ cryptTouches shape .frame n ++
    (if copied ≤ maxMsgSize then span .frame 0 copied ++ span .message 0 copied else []) ++
    pnTouches shape.hdrlen ++ micTouches shape n ++
    span .frame (shape.hdrlen + plen) 8 ++ span .message (shape.hdrlen + plen) 8

/-- `rtw_aes_decrypt`. -/
def aesTouches (psecuritypriv : SecurityKeys) (stas : MacAddr → Option (List UInt8)) (f : RxFrame) : List Touch :=
  match aesDecryptKey psecuritypriv stas f with
  | none => []
  | some _ => aesDecipherTouches f.hdrlen f.mem (u32 f.length)

/-- `decryptor`, from the key index in the IV on. -/
def decryptorTouches (psecuritypriv : SecurityKeys) (stas : MacAddr → Option (List UInt8)) (f : RxFrame) :
    List Touch :=
  .byte .frame (f.hdrlen + 3 : Nat) ::
    match f.encrypt with
    | .wep40 | .wep104 => wepTouches f.withKeyIndex
    | .tkip => tkipTouches psecuritypriv stas f.withKeyIndex
    | .aes => aesTouches psecuritypriv stas f.withKeyIndex
    | .noPrivacy | .tkipWtmic | .sms4 | .wepWpaMixed => []

/-! ## The frames that are long enough and not too long -/

/-- `MAX_RECVBUF_SZ`. -/
def maxRecvbufSz : Nat := 32768

/-- The frame has passed `validate_recv_data_frame`, with the privacy bit and the algorithm `encryAlgo`. -/
structure Validated (encryAlgo : Privacy) (f : RxFrame) : Prop where
  cipher : encryAlgo.isCipher = true
  privacy : f.mem 1 &&& 0x40 ≠ 0
  attrib : ∃ pattrib, Recv.Decap.validateRecvDataFrame encryAlgo ⟨f.mem, 0, f.len⟩ = some pattrib ∧
    f.hdrlen = pattrib.hdrlen ∧ f.ivLen = pattrib.ivLen ∧ f.encrypt = pattrib.encrypt
  len : f.len ≤ maxRecvbufSz

/-- What the function for the cipher needs behind the IV header of four bytes. -/
def CipherRoom (psecuritypriv : SecurityKeys) (stas : MacAddr → Option (List UInt8)) (f : RxFrame) : Prop :=
  match f.encrypt with
  | .tkip => tkipDecryptKey psecuritypriv stas f.withKeyIndex ≠ none → f.hdrlen + 8 ≤ f.len
  | .aes =>
      aesDecryptKey psecuritypriv stas f.withKeyIndex ≠ none →
        f.hdrlen + 16 ≤ f.len ∧ f.len ≤ maxMsgSize ∧ (qcExists f.mem = true → f.hdrlen = wlanHdrA3QosLen)
  | .noPrivacy | .wep40 | .wep104 | .tkipWtmic | .sms4 | .wepWpaMixed => True

namespace Validated

variable {encryAlgo : Privacy} {f : RxFrame} (valid : Validated encryAlgo f)

include valid

theorem encrypt_eq : f.encrypt = encryAlgo := by
  obtain ⟨pattrib, found, -, -, encrypt⟩ := valid.attrib
  obtain ⟨addrs, -, made⟩ := Option.map_eq_some_iff.mp found
  have privacy : f.mem (0 + 1) &&& 0x40 ≠ 0 := valid.privacy
  rw [encrypt, ← made]
  exact if_pos privacy

theorem ivLen_eq : f.ivLen = f.encrypt.ivLen := by
  have encrypt := valid.encrypt_eq
  have cipher := valid.cipher
  obtain ⟨pattrib, found, -, ivLen, same⟩ := valid.attrib
  obtain ⟨addrs, -, made⟩ := Option.map_eq_some_iff.mp found
  have width : pattrib.ivLen = (Recv.Decap.setIceIvLen pattrib.encrypt).1 := by rw [← made]
  rw [ivLen, width, ← same, encrypt]
  revert cipher
  cases encryAlgo <;> decide

theorem hdrlen_mem : 24 ≤ f.hdrlen ∧ f.hdrlen ≤ 30 := by
  obtain ⟨pattrib, found, hdrlen, -, -⟩ := valid.attrib
  obtain ⟨addrs, -, made⟩ := Option.map_eq_some_iff.mp found
  rw [hdrlen, ← made]
  dsimp only
  split <;> split <;> decide

end Validated

/-! ## WEP and TKIP inside -/

section Inside

variable {len : Nat}

theorem frameBytes_inside {start n : Nat} (fits : n = 0 ∨ start + n ≤ len) :
    ∀ t ∈ frameBytes start n, t.Inside len := by
  intro t member
  obtain ⟨k, below, rfl⟩ := List.mem_map.mp member
  have below := List.mem_range.mp below
  show (0 : Int) ≤ (start + k : Nat) ∧ ((start + k : Nat) : Int) < len
  omega

theorem arcfourTouches_inside {f : RxFrame} (small : f.len ≤ maxRecvbufSz) (header : f.hdrlen + f.ivLen ≤ 2 ^ 16) :
    (∀ t ∈ f.arcfourTouches, t.Inside f.len) ↔ 0 ≤ f.length := by
  have few : f.len ≤ 32768 := small
  have length : f.length = f.len - f.hdrlen - f.ivLen := rfl
  have payload : f.payload = f.ivLen + f.hdrlen := rfl
  constructor
  · intro inside
    have turns : u32 f.length ≤ f.len := inside (.loop (u32 f.length)) (by simp [RxFrame.arcfourTouches])
    by_contra short
    rw [u32, if_pos (by omega)] at turns
    omega
  · intro enough
    have turns : u32 f.length = f.length.toNat := if_neg (by omega)
    unfold RxFrame.arcfourTouches
    rw [turns]
    simp only [List.forall_mem_append, List.forall_mem_singleton]
    refine ⟨⟨⟨?_, frameBytes_inside (by omega)⟩, ?_⟩, frameBytes_inside (by omega)⟩
    · show f.length.toNat ≤ f.len
      omega
    · show (f.length - 4).toNat ≤ f.len
      omega

theorem icvTouches_inside {f : RxFrame} (enough : 4 ≤ f.payload + f.length) (within : f.payload + f.length ≤ f.len)
    (crc : List UInt8) (mem : Mem) {j : Nat} (four : j ≤ 4) : ∀ t ∈ f.icvTouches crc mem j, t.Inside f.len := by
  induction j with
  | zero => simp [RxFrame.icvTouches]
  | succ j ih =>
      unfold RxFrame.icvTouches
      rw [List.forall_mem_cons]
      constructor
      · show 0 ≤ (f.payload : Int) + f.length - 4 + j ∧ (f.payload : Int) + f.length - 4 + j < f.len
        omega
      · split
        · exact ih (by omega)
        · simp

/-! ## AES inside -/

theorem span_inside {place : Place} (small : place.size len ≤ 2 ^ 32) {start n : Nat}
    (fits : start + n ≤ place.size len) : ∀ t ∈ span place start n, t.Inside len := by
  intro t member
  obtain ⟨k, below, rfl⟩ := List.mem_map.mp member
  have below := List.mem_range.mp below
  have same : uint (start + k) = start + k := Nat.mod_eq_of_lt (by omega)
  rw [same]
  show (0 : Int) ≤ (start + k : Nat) ∧ ((start + k : Nat) : Int) < place.size len
  omega

/-- A byte of a span. -/
theorem byte_mem_span (place : Place) (start : Nat) {n k : Nat} (below : k < n) :
    .byte place (uint (start + k)) ∈ span place start n :=
  List.mem_map.mpr ⟨k, List.mem_range.mpr below, rfl⟩

section Blocks

variable {shape : HdrShape} {place : Place} (small : place.size len ≤ 2 ^ 32)

include small

theorem nonceTouches_inside (header : 32 ≤ place.size len) : ∀ t ∈ nonceTouches shape place, t.Inside len := by
  unfold nonceTouches
  rw [List.forall_mem_append]
  refine ⟨?_, span_inside small (by omega)⟩
  split
  · rw [List.forall_mem_singleton]
    show (0 : Int) ≤ (if shape.a4Exists then 30 else 24) ∧ (if shape.a4Exists then 30 else 24) < (place.size len : Int)
    split <;> omega
  · simp

theorem blockTouches_inside {each : List Touch} (eachInside : ∀ t ∈ each, t.Inside len) {n : Nat}
    (fits : shape.hdrlen + 8 + n ≤ place.size len) (turns : n ≤ len) :
    ∀ t ∈ blockTouches shape place each n, t.Inside len := by
  unfold blockTouches
  simp only [List.forall_mem_append, List.forall_mem_singleton, List.mem_flatMap, forall_exists_index, and_imp]
  refine ⟨⟨show n / 16 ≤ len by omega, ?_⟩, ?_⟩
  · intro t i member inBlock
    have below := List.mem_range.mp member
    rcases List.mem_append.mp inBlock with beside | inSpan
    · exact eachInside t beside
    · exact span_inside small (by omega) t inSpan
  · split
    · simp only [List.forall_mem_append, List.forall_mem_singleton]
      exact ⟨⟨eachInside, show n % 16 ≤ len by omega⟩, span_inside small (by omega)⟩
    · simp

theorem cryptTouches_inside (header : 32 ≤ place.size len) {n : Nat} (fits : shape.hdrlen + 8 + n ≤ place.size len)
    (turns : n ≤ len) : ∀ t ∈ cryptTouches shape place n, t.Inside len :=
  blockTouches_inside small (nonceTouches_inside small header) fits turns

end Blocks

theorem aadTouches_inside (shape : HdrShape) : ∀ t ∈ aadTouches shape .message, t.Inside len := by
  have small : Place.message.size len ≤ 2 ^ 32 := (by decide : 2048 ≤ 2 ^ 32)
  have low {start n : Nat} (fits : start + n ≤ 32) : ∀ t ∈ span .message start n, t.Inside len :=
    span_inside small (fits.trans (by decide : 32 ≤ 2048))
  unfold aadTouches
  simp only [List.forall_mem_append]
  refine ⟨⟨⟨⟨low (by decide), low (by decide)⟩, low (by decide)⟩, ?_⟩, ?_⟩
  · split
    · exact low (by decide)
    · simp
  · split
    · exact low (by split <;> decide)
    · simp

theorem micTouches_inside (shape : HdrShape) {n : Nat} (fits : shape.hdrlen + 8 + n + 8 ≤ maxMsgSize)
    (turns : n ≤ len) : ∀ t ∈ micTouches shape n, t.Inside len := by
  have small : Place.message.size len ≤ 2 ^ 32 := (by decide : 2048 ≤ 2 ^ 32)
  have header : 32 ≤ Place.message.size len := (by decide : 32 ≤ 2048)
  have room : shape.hdrlen + 8 + n + 8 ≤ Place.message.size len := fits
  have nonce : ∀ t ∈ nonceTouches shape .message, t.Inside len := nonceTouches_inside small header
  have blocks : ∀ t ∈ blockTouches shape .message [] n, t.Inside len :=
    blockTouches_inside small (by simp) (by omega) turns
  have crypt : ∀ t ∈ cryptTouches shape .message n, t.Inside len := cryptTouches_inside small header (by omega) turns
  have mic : ∀ t ∈ span .message (shape.hdrlen + 8 + n) 8, t.Inside len := span_inside small room
  unfold micTouches
  simp only [List.forall_mem_append]
  exact ⟨⟨⟨⟨⟨⟨nonce, aadTouches_inside shape⟩, blocks⟩, mic⟩, crypt⟩, nonce⟩, mic⟩

/-- A payload with a MIC, in a frame that fits in the buffer and whose header is not taken for longer. -/
theorem aesDecipherTouches_inside {hdrlen plen : Nat} {pframe : Mem} (header : 24 ≤ hdrlen)
    (same : (hdrShape hdrlen pframe).hdrlen = hdrlen) (mic : 8 ≤ plen) (whole : hdrlen + plen + 8 = len)
    (room : len ≤ maxMsgSize) : ∀ t ∈ aesDecipherTouches hdrlen pframe plen, t.Inside len := by
  have few : len ≤ 2048 := room
  have small : Place.frame.size len ≤ 2 ^ 32 := by
    show len ≤ 2 ^ 32
    omega
  have smallMessage : Place.message.size len ≤ 2 ^ 32 := (by decide : 2048 ≤ 2 ^ 32)
  have size : Place.frame.size len = len := rfl
  have sizeMessage : Place.message.size len = 2048 := rfl
  have payload : withoutMic plen = plen - 8 := if_neg (by omega)
  have copied : uint (hdrlen + plen + 8) = hdrlen + plen + 8 := Nat.mod_eq_of_lt (by omega)
  have pn : ∀ t ∈ pnTouches hdrlen, t.Inside len :=
    List.forall_mem_append.mpr ⟨span_inside small (by omega), span_inside small (by omega)⟩
  have crypt : ∀ t ∈ cryptTouches (hdrShape hdrlen pframe) .frame (plen - 8), t.Inside len :=
    cryptTouches_inside small (by omega) (by omega) (by omega)
  have check : ∀ t ∈ micTouches (hdrShape hdrlen pframe) (plen - 8), t.Inside len :=
    micTouches_inside _ (show _ ≤ 2048 by omega) (by omega)
  unfold aesDecipherTouches
  dsimp only
  rw [same, payload, copied, if_pos (show hdrlen + plen + 8 ≤ maxMsgSize by omega)]
  simp only [List.forall_mem_append, List.forall_mem_singleton]
  refine ⟨⟨⟨⟨⟨⟨⟨?_, pn⟩, crypt⟩, ?_, ?_⟩, pn⟩, check⟩, ?_⟩, ?_⟩
  · show (0 : Int) ≤ 0 ∧ (0 : Int) < len
    omega
  · exact span_inside small (by omega)
  · exact span_inside smallMessage (by omega)
  · exact span_inside small (by omega)
  · exact span_inside smallMessage (by omega)

end Inside

theorem hdrShape_hdrlen (hdrlen : Nat) (pframe : Mem) :
    (hdrShape hdrlen pframe).hdrlen = hdrlen ↔ (qcExists pframe = true → hdrlen = wlanHdrA3QosLen) := by
  show (if qcExists pframe && hdrlen != wlanHdrA3QosLen then hdrlen + 2 else hdrlen) = hdrlen ↔ _
  cases qcExists pframe with
  | false => simp
  | true => simp

theorem aesDecipherTouches_iff {f : RxFrame} (low : 24 ≤ f.hdrlen) (high : f.hdrlen ≤ 30) (iv : f.ivLen = 8)
    (small : f.len ≤ maxRecvbufSz) :
    (∀ t ∈ aesDecipherTouches f.hdrlen f.mem (u32 f.length), t.Inside f.len) ↔
      f.hdrlen + 16 ≤ f.len ∧ f.len ≤ maxMsgSize ∧ (qcExists f.mem = true → f.hdrlen = wlanHdrA3QosLen) := by
  have few : f.len ≤ 32768 := small
  have length : f.length = f.len - f.hdrlen - f.ivLen := rfl
  rw [← hdrShape_hdrlen]
  constructor
  · intro inside
    have grows : f.hdrlen ≤ (hdrShape f.hdrlen f.mem).hdrlen ∧ (hdrShape f.hdrlen f.mem).hdrlen ≤ f.hdrlen + 2 := by
      unfold hdrShape
      dsimp only
      split <;> omega
    -- the subtraction of the MIC must not underflow
    have turns : withoutMic (u32 f.length) / 16 ≤ f.len :=
      inside (.loop _) (by simp [aesDecipherTouches, cryptTouches, blockTouches])
    have mic : 8 ≤ f.length := by
      by_contra short
      rw [withoutMic, u32] at turns
      split at turns <;> split at turns <;> omega
    have plen : u32 f.length = f.length.toNat := if_neg (by omega)
    rw [plen] at inside
    -- the last byte of the MIC, in the frame and in the copy
    have last (place : Place) : (Touch.byte place (uint ((hdrShape f.hdrlen f.mem).hdrlen + f.length.toNat + 7))) ∈
        aesDecipherTouches f.hdrlen f.mem f.length.toNat := by
      have member := byte_mem_span place ((hdrShape f.hdrlen f.mem).hdrlen + f.length.toNat) (show 7 < 8 by decide)
      cases place with
      | frame => simp [aesDecipherTouches, member]
      | message => simp [aesDecipherTouches, member]
    have index : uint ((hdrShape f.hdrlen f.mem).hdrlen + f.length.toNat + 7) =
        (hdrShape f.hdrlen f.mem).hdrlen + f.length.toNat + 7 := Nat.mod_eq_of_lt (by omega)
    have inFrame : ((uint ((hdrShape f.hdrlen f.mem).hdrlen + f.length.toNat + 7) : Nat) : Int) < f.len :=
      (inside _ (last .frame)).2
    have inMessage : ((uint ((hdrShape f.hdrlen f.mem).hdrlen + f.length.toNat + 7) : Nat) : Int) < maxMsgSize :=
      (inside _ (last .message)).2
    rw [index] at inFrame inMessage
    omega
  · rintro ⟨enough, room, same⟩
    have plen : u32 f.length = f.length.toNat := if_neg (by omega)
    rw [plen]
    exact aesDecipherTouches_inside low same (by omega) (by omega) room

/-! ## When decryption stays inside -/

section Ciphers

variable {psecuritypriv : SecurityKeys} {stas : MacAddr → Option (List UInt8)} {f : RxFrame} (low : 24 ≤ f.hdrlen)
  (high : f.hdrlen ≤ 30) (small : f.len ≤ maxRecvbufSz)

include low high small

theorem wepTouches_inside (iv : f.ivLen = 4) (enough : f.hdrlen + 4 ≤ f.len) :
    ∀ t ∈ wepTouches f, t.Inside f.len := by
  have length : f.length = f.len - f.hdrlen - f.ivLen := rfl
  rw [wepTouches, List.forall_mem_append]
  exact ⟨frameBytes_inside (by omega), (arcfourTouches_inside small (by omega)).mpr (by omega)⟩

theorem tkipTouches_iff (iv : f.ivLen = 8) :
    (∀ t ∈ tkipTouches psecuritypriv stas f, t.Inside f.len) ↔
      (tkipDecryptKey psecuritypriv stas f ≠ none → f.hdrlen + 8 ≤ f.len) := by
  have length : f.length = f.len - f.hdrlen - f.ivLen := rfl
  have payload : f.payload = f.ivLen + f.hdrlen := rfl
  rw [tkipTouches]
  cases tkipDecryptKey psecuritypriv stas f with
  | none => simp
  | some prwskey =>
      dsimp only
      rw [List.forall_mem_append, List.forall_mem_append, arcfourTouches_inside small (by omega)]
      constructor
      · rintro ⟨⟨-, enough⟩, -⟩ -
        omega
      · intro enough
        have enough := enough nofun
        refine ⟨⟨?_, by omega⟩, icvTouches_inside (by omega) (by omega) _ _ le_rfl⟩
        intro t member
        obtain ⟨k, inIv, rfl⟩ := List.mem_map.mp member
        have below : ∀ k ∈ [2, 0, 4, 5, 6, 7], k ≤ 7 := by decide
        have below := below k inIv
        show (0 : Int) ≤ (f.hdrlen + k : Nat) ∧ ((f.hdrlen + k : Nat) : Int) < f.len
        omega

theorem aesTouches_iff (iv : f.ivLen = 8) :
    (∀ t ∈ aesTouches psecuritypriv stas f, t.Inside f.len) ↔
      (aesDecryptKey psecuritypriv stas f ≠ none →
        f.hdrlen + 16 ≤ f.len ∧ f.len ≤ maxMsgSize ∧ (qcExists f.mem = true → f.hdrlen = wlanHdrA3QosLen)) := by
  have touches := aesDecipherTouches_iff low high iv small
  rw [aesTouches]
  cases aesDecryptKey psecuritypriv stas f with
  | none => simp
  | some prwskey => simpa using touches

end Ciphers

/-- What is touched lies in the frame or in the static buffer, and no loop runs longer than the frame, if and only if
the frame has an IV header of four bytes and what the function for its cipher needs. -/
theorem decryption_inside_iff (psecuritypriv : SecurityKeys) (stas : MacAddr → Option (List UInt8))
    {encryAlgo : Privacy} {f : RxFrame} (valid : Validated encryAlgo f) :
    (∀ t ∈ decryptorTouches psecuritypriv stas f, t.Inside f.len) ↔
      f.hdrlen + 4 ≤ f.len ∧ CipherRoom psecuritypriv stas f := by
  obtain ⟨low, high⟩ := valid.hdrlen_mem
  have ivLen := valid.ivLen_eq
  have cipher := valid.cipher
  rw [← valid.encrypt_eq] at cipher
  have iv : Touch.Inside f.len (.byte .frame (f.hdrlen + 3 : Nat)) ↔ f.hdrlen + 4 ≤ f.len := by
    show (0 : Int) ≤ (f.hdrlen + 3 : Nat) ∧ ((f.hdrlen + 3 : Nat) : Int) < f.len ↔ _
    omega
  rw [decryptorTouches, List.forall_mem_cons, iv, CipherRoom]
  refine and_congr_right fun four => ?_
  cases kind : f.encrypt with
  | wep40 | wep104 =>
      rw [kind] at ivLen
      exact iff_of_true (@wepTouches_inside f.withKeyIndex low high valid.len ivLen four) trivial
  | tkip =>
      rw [kind] at ivLen
      exact @tkipTouches_iff psecuritypriv stas f.withKeyIndex low high valid.len ivLen
  | aes =>
      rw [kind] at ivLen
      exact @aesTouches_iff psecuritypriv stas f.withKeyIndex low high valid.len ivLen
  | noPrivacy | tkipWtmic | sms4 | wepWpaMixed => simp [kind, Privacy.isCipher] at cipher

theorem validated_forgedFrame : Validated .aes (forgedFrame .aes) := by
  have read : (Recv.Decap.validateRecvDataFrame .aes ⟨(forgedFrame .aes).mem, 0, (forgedFrame .aes).len⟩).map
      (fun pattrib => (pattrib.hdrlen, pattrib.ivLen, pattrib.encrypt)) = some (24, 8, .aes) := by decide +kernel
  obtain ⟨pattrib, found, fields⟩ := Option.map_eq_some_iff.mp read
  obtain ⟨hdrlen, rest⟩ := Prod.mk.inj fields
  obtain ⟨ivLen, encrypt⟩ := Prod.mk.inj rest
  exact ⟨rfl, by decide, ⟨pattrib, found, hdrlen.symm, ivLen.symm, encrypt.symm⟩, by decide⟩

/-- An AES frame that ends behind its IV, and one of 2049 bytes. -/
theorem decryption_outside :
    (¬∀ t ∈ decryptorTouches oneKey (fun _ => some nullKey) { forgedFrame .aes with len := 32 }, t.Inside 32) ∧
    ¬∀ t ∈ decryptorTouches oneKey (fun _ => some nullKey) { forgedFrame .aes with len := 2049 }, t.Inside 2049 := by
  have touches (len : Nat) (few : len ≤ maxRecvbufSz)
      (inside : ∀ t ∈ decryptorTouches oneKey (fun _ => some nullKey) { forgedFrame .aes with len := len },
        t.Inside len) : 40 ≤ len ∧ len ≤ maxMsgSize := by
    rw [decryptorTouches, List.forall_mem_cons] at inside
    let f : RxFrame := { forgedFrame .aes with len := len }
    have known : aesDecryptKey oneKey (fun _ => some nullKey) f.withKeyIndex = some nullKey :=
      if_neg (by decide : ¬isMcast (stationAddr 0) = true)
    have rest := @aesTouches_iff oneKey (fun _ => some nullKey) f.withKeyIndex (show 24 ≤ 24 from le_rfl)
      (show 24 ≤ 30 by decide) few rfl
    rw [known] at rest
    have needed := rest.mp inside.2 (Option.some_ne_none _)
    exact ⟨needed.1, needed.2.1⟩
  constructor
  · intro inside
    exact absurd (touches 32 (by decide) inside).1 (by decide)
  · intro inside
    exact absurd (touches 2049 (by decide) inside).2 (by decide)

theorem decryption_inside_iff_aes :
    (∀ t ∈ decryptorTouches oneKey (fun _ => some nullKey) (forgedFrame .aes), t.Inside 41) ↔
      24 + 4 ≤ 41 ∧ CipherRoom oneKey (fun _ => some nullKey) (forgedFrame .aes) :=
  decryption_inside_iff oneKey (fun _ => some nullKey) validated_forgedFrame

end Vmac.Security
