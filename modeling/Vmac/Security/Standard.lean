/-
# Vmac.Security.Standard -- aes_cipher and the CCMP of IEEE 802.11

CCMP is CCM over a nonce and associated data that the standard takes from the header.
The code masks the whole sequence control, keeps bit 6 of the frame control and the order
bit of a QoS frame, and takes a header with four addresses and QoS control to be two bytes
longer than it is.

* `ccmp_iff`: `aes_cipher` is CCMP under every key exactly for the other frames.
-/
import Vmac.Security.Ccmp

namespace Vmac.Security

open Theory.Ccm Theory.Bytes

set_option autoImplicit false

/-! ## The standard -/

/-- ToDS and FromDS: there is a fourth address. -/
def hasA4 (m : Mem) : Bool := m 1 &&& 0x03 == 0x03

/-- There is QoS control. -/
def hasQc (m : Mem) : Bool := m 0 &&& 0x80 == 0x80

def headerLength (m : Mem) : Nat := 24 + (if hasA4 m then 6 else 0) + if hasQc m then 2 else 0

/-- The TID of QoS control. -/
def tid (m : Mem) : UInt8 := (if hasA4 m then m 30 else m 24) &&& 0x0f

/-- The packet number, the highest byte first. -/
def packetNumber (m : Mem) : List UInt8 :=
  let h := headerLength m
  [m (h + 7), m (h + 6), m (h + 5), m (h + 4), m (h + 1), m h]

/-- Priority, A2 and packet number. -/
def ccmpNonce (m : Mem) : List UInt8 :=
  (if hasQc m then tid m else 0) :: bytesAt m 10 6 ++ packetNumber m

/-- The masked frame control and the first two addresses. -/
def ccmpAad₁ (m : Mem) : List UInt8 :=
  -- without subtype bits 4 to 6, retry, power management, more data, and order in QoS frames
  [m 0 &&& 0x8f, m 1 &&& if hasQc m then 0x47 else 0xc7] ++ bytesAt m 4 12

/-- The third address, the fragment number, the fourth address and the TID. -/
def ccmpAad₂ (m : Mem) : List UInt8 :=
  bytesAt m 16 6 ++ [m 22 &&& 0x0f, 0] ++ (if hasA4 m then bytesAt m 24 6 else []) ++
    if hasQc m then [tid m, 0] else []

/-- Ciphertext and MIC of the payload of `n` bytes. -/
def ccmp (E : Block → Block) (m : Mem) (n : Nat) : List UInt8 :=
  encrypt E 8 2 (ccmpNonce m) (ccmpAad₁ m ++ ccmpAad₂ m) (bytesAt m (headerLength m + 8) n)

/-- The frames for which the code builds nonce and associated data of the standard. -/
structure Conforms (m : Mem) : Prop where
  /-- Not four addresses and QoS control. -/
  shape : (hasA4 m && hasQc m) = false
  subtype : m 0 &&& 0x40 = 0
  order : hasQc m = true → m 1 &&& 0x80 = 0
  fragment : m 22 &&& 0x0f = 0

/-! ## The frames that conform -/

section Frame

variable {m : Mem}

/-- Bit 7 of a data frame without bit 6 is what the code tests. -/
theorem qcExists_eq (data : getFrameType m = 0x08) :
    qcExists m = (hasQc m && m 0 &&& 0x40 == 0) := by
  have bytes : ∀ b : UInt8, b &&& 0x0c = 0x08 →
      qcExists (fun _ => b) = (b &&& 0x80 == 0x80 && b &&& 0x40 == 0) := forall_byte (by decide +kernel)
  exact bytes (m 0) data

theorem a4Exists_eq (m : Mem) : (hdrShape (headerLength m) m).a4Exists = hasA4 m := by
  unfold hdrShape headerLength
  cases hasA4 m <;> cases hasQc m <;> rfl

/-- The header length that the code works with. -/
theorem hdrlen_eq (data : getFrameType m = 0x08) :
    (hdrShape (headerLength m) m).hdrlen =
      if (hasA4 m && hasQc m && m 0 &&& 0x40 == 0) then headerLength m + 2 else headerLength m := by
  show (if qcExists m && headerLength m != wlanHdrA3QosLen then _ else _) = _
  rw [qcExists_eq data]
  unfold headerLength
  cases hasA4 m <;> cases hasQc m <;> cases (m 0 &&& 0x40 == 0) <;> rfl

theorem fits_of_shape (data : getFrameType m = 0x08)
    (right : (hasA4 m && hasQc m && m 0 &&& 0x40 == 0) = false) :
    (hdrShape (headerLength m) m).Fits m := by
  have length := hdrlen_eq data
  rw [right] at length
  have a4 := a4Exists_eq m
  have qc : (hdrShape (headerLength m) m).qcExists = _ := qcExists_eq data
  constructor
  · rw [length, micHeader2, a4, qc]
    unfold headerLength
    cases hasA4 m <;> cases hasQc m <;> cases (m 0 &&& 0x40 == 0) <;> simp
  · rw [length]
    unfold headerLength
    cases hasA4 m <;> cases hasQc m <;> simp

theorem length_ccmpAad₁ (m : Mem) : (ccmpAad₁ m).length = 14 := by simp [ccmpAad₁]

theorem length_ccmpAad₂ (m : Mem) : (ccmpAad₂ m).length = headerLength m - 16 := by
  unfold ccmpAad₂ headerLength
  cases hasA4 m <;> cases hasQc m <;> simp

theorem packetNumber_eq (m : Mem) : packetNumber m = (pnVector m (headerLength m)).reverse := rfl

theorem ccmpNonce_eq (data : getFrameType m = 0x08) (conforms : Conforms m) :
    nonce (hdrShape (headerLength m) m) (pnVector m (headerLength m)) m = ccmpNonce m := by
  have qc : (hdrShape (headerLength m) m).qcExists = hasQc m := by
    rw [show (hdrShape (headerLength m) m).qcExists = qcExists m from rfl, qcExists_eq data,
      conforms.subtype]
    simp
  rw [nonce, ccmpNonce, packetNumber_eq, a4Exists_eq, qc, qosTc, tid]
  cases hasA4 m <;> cases hasQc m <;> rfl

theorem ccmpAad_eq (data : getFrameType m = 0x08) (conforms : Conforms m) :
    aad (hdrShape (headerLength m) m) m = ccmpAad₁ m ++ ccmpAad₂ m := by
  have qc : (hdrShape (headerLength m) m).qcExists = hasQc m := by
    rw [show (hdrShape (headerLength m) m).qcExists = qcExists m from rfl, qcExists_eq data,
      conforms.subtype]
    simp
  have length := hdrlen_eq data
  rw [conforms.shape, Bool.false_and] at length
  have first : m 0 &&& 0xcf = m 0 &&& 0x8f := by
    have bytes : ∀ b : UInt8, b &&& 0x40 = 0 → b &&& 0xcf = b &&& 0x8f := forall_byte (by decide +kernel)
    exact bytes _ conforms.subtype
  have second : m 1 &&& 0xc7 = m 1 &&& if hasQc m then 0x47 else 0xc7 := by
    have bytes : ∀ b : UInt8, b &&& 0x80 = 0 → b &&& 0xc7 = b &&& 0x47 := forall_byte (by decide +kernel)
    split
    · rename_i qos
      exact bytes _ (conforms.order qos)
    · rfl
  have tail : micHeader2 (hdrShape (headerLength m) m) m = ccmpAad₂ m := by
    have shape := conforms.shape
    rw [micHeader2, ccmpAad₂, a4Exists_eq, qc, conforms.fragment, tid]
    revert shape
    cases hasA4 m <;> cases hasQc m <;> simp
  have none_left : headerLength m - (16 + (ccmpAad₂ m).length) = 0 := by
    rw [length_ccmpAad₂]
    omega
  rw [aad, tail, length, if_neg (by decide), none_left, List.replicate_zero, List.append_nil, first, second]
  exact List.append_assoc ..

theorem low_headerLength (m : Mem) : 24 ≤ headerLength m := by
  unfold headerLength
  omega

theorem headerLength_le (m : Mem) : headerLength m ≤ 32 := by
  unfold headerLength
  split <;> split <;> decide

theorem blocks_ccmpAad (m : Mem) :
    blocks (encodeAad (ccmpAad₁ m ++ ccmpAad₂ m)) =
      [blockOf (toBe 2 (ccmpAad₁ m ++ ccmpAad₂ m).length ++ ccmpAad₁ m), blockOf (ccmpAad₂ m)] := by
  have tail := length_ccmpAad₂ m
  have low := low_headerLength m
  have high := headerLength_le m
  exact blocks_encodeAad rfl (length_ccmpAad₁ m) (by omega) (by omega)

/-! ## With the identity as block function -/

/-- A byte of the MIC, for associated data of two blocks. -/
theorem getD_encrypt_id {nonce aad : List UInt8} {h₁ h₂ : Block} (two : blocks (encodeAad aad) = [h₁, h₂])
    (text : List UInt8) {k : Nat} (inside : k < 8) :
    (encrypt id 8 2 nonce aad text).getD (text.length + k) 0 =
      cbcMac id (((firstBlock 8 2 nonce aad text).xor h₁).xor h₂) (blocks text) (Fin.ofNat 16 k) ^^^
        counterBlock 2 nonce 0 (Fin.ofNat 16 k) := by
  have behind : (crypt id 2 nonce text).length = text.length := length_crypt ..
  rw [encrypt, List.getD_append_right _ _ _ _ (by omega), behind, Nat.add_sub_cancel_left,
    getD_tag _ _ _ _ _ (by decide) _ inside, mac, two]
  rfl

/-- Two MICs agree in a byte in which nonce and text agree, so the associated data do. -/
theorem aad_of_mic_id {nonce nonce' aad aad' : List UInt8} {h₁ h₂ h₁' h₂' : Block}
    (two : blocks (encodeAad aad) = [h₁, h₂]) (two' : blocks (encodeAad aad') = [h₁', h₂'])
    {text : List UInt8} {k : Nat} (inside : k < 8)
    (same : encrypt id 8 2 nonce aad text = encrypt id 8 2 nonce' aad' text)
    (first : firstBlock 8 2 nonce aad text (Fin.ofNat 16 k) =
      firstBlock 8 2 nonce' aad' text (Fin.ofNat 16 k))
    (counter : counterBlock 2 nonce 0 (Fin.ofNat 16 k) = counterBlock 2 nonce' 0 (Fin.ofNat 16 k)) :
    h₁ (Fin.ofNat 16 k) ^^^ h₂ (Fin.ofNat 16 k) = h₁' (Fin.ofNat 16 k) ^^^ h₂' (Fin.ofNat 16 k) := by
  have byte := congrArg (·.getD (text.length + k) 0) same
  simp only [getD_encrypt_id two text inside, getD_encrypt_id two' text inside] at byte
  rw [counter] at byte
  have sum := cbcMac_id _ _ _ ((UInt8.xor_left_inj _).mp byte)
  simp only [Block.xor, UInt8.xor_assoc] at sum
  rw [first] at sum
  exact (UInt8.xor_right_inj _).mp sum

/-! ## With a block function of one byte -/

/-- Every byte of the output is `g` of the first byte of the input. -/
def firstByte (g : UInt8 → UInt8) : Block → Block := fun b _ => g (b 0)

/-- The first byte of the MIC of an empty payload. -/
theorem ccmp_firstByte_zero (g : UInt8 → UInt8) (m : Mem) :
    (ccmp (firstByte g) m 0).getD 0 0 = g (g (g 0x59 ^^^ 0) ^^^ m 16) ^^^ g 1 := by
  have empty : bytesAt m (headerLength m + 8) 0 = [] := rfl
  have short : (ccmpAad₁ m ++ ccmpAad₂ m).length / 256 = 0 := by
    have high := headerLength_le m
    rw [List.length_append, length_ccmpAad₁, length_ccmpAad₂]
    omega
  rw [ccmp, empty, encrypt]
  show (tag (firstByte g) 8 2 _ _ _).getD 0 0 = _
  rw [getD_tag _ _ _ _ _ (by decide) _ (by decide), mac, blocks_ccmpAad, toBe_two, short]
  rfl

/-- The first byte of a payload under a constant key stream. -/
theorem ccmp_firstByte_succ (c : UInt8) (m : Mem) (n : Nat) :
    (ccmp (firstByte fun _ => c) m (n + 1)).getD 0 0 = m (headerLength m + 8) ^^^ c := by
  have inside : 0 < (bytesAt m (headerLength m + 8) (n + 1)).length := by simp
  rw [ccmp, encrypt, List.getD_append _ _ _ _ (by simp), getD_crypt _ _ _ inside, getD_bytesAt,
    if_pos (Nat.succ_pos n)]
  rfl

/-- No byte is the first of the CCMP output under every key. -/
theorem ccmp_first_varies (m : Mem) (n : Nat) (b : UInt8) :
    ∃ E, (ccmp E m n).getD 0 0 ≠ b := by
  by_contra fixed
  have all (g : UInt8 → UInt8) : (ccmp (firstByte g) m n).getD 0 0 = b := by
    by_contra differ
    exact fixed ⟨_, differ⟩
  cases n with
  | succ n =>
      have zero := all fun _ => 0
      have one := all fun _ => 1
      rw [ccmp_firstByte_succ] at zero one
      rw [← zero] at one
      exact absurd ((UInt8.xor_right_inj _).mp one) (by decide)
  | zero =>
      have zero := all fun _ => 0
      have same := all id
      have one := all fun x => if x = 1 then 1 else 0
      rw [ccmp_firstByte_zero] at zero same one
      subst zero
      have third : m 16 = 0x58 := by
        have bytes : ∀ a : UInt8, id (id (id 0x59 ^^^ 0) ^^^ a) ^^^ id 1 = 0 ^^^ 0 → a = 0x58 :=
          forall_byte (by decide +kernel)
        exact bytes _ same
      rw [third] at one
      exact absurd one (by decide)

/-! ## The code and the standard -/

/-- What lies before the payload is not written. -/
theorem micAndEncrypt_below (E : Block → Block) (shape : HdrShape) (pn : List UInt8) (m : Mem)
    (low : 24 ≤ shape.hdrlen) (n : Nat) :
    SameBelow (shape.hdrlen + 8) m (micAndEncrypt E shape pn m n) := by
  intro k below
  unfold micAndEncrypt
  rw [copyBlock_below _ (shape.hdrlen + 8 + n) _ 8 k (by omega), cryptPayload_eq E shape pn low,
    if_neg (by omega), copyBlock_below _ (shape.hdrlen + 8 + n) _ 8 k (by omega)]

/-- With four addresses and QoS control, the first two bytes behind the IV stay as they are. -/
theorem not_ccmp_of_shape (data : getFrameType m = 0x08) (n : Nat)
    (wrong : (hasA4 m && hasQc m && m 0 &&& 0x40 == 0) = true) :
    ∃ E, bytesAt (aesCipher E (headerLength m) m n) (headerLength m + 8) (n + 8) ≠ ccmp E m n := by
  have length : (hdrShape (headerLength m) m).hdrlen = headerLength m + 2 := by
    rw [hdrlen_eq data, if_pos wrong]
  have low := low_headerLength m
  obtain ⟨E, differ⟩ := ccmp_first_varies m n (m (headerLength m + 8))
  refine ⟨E, fun same => differ ?_⟩
  rw [← same, getD_bytesAt, if_pos (by omega), aesCipher]
  exact micAndEncrypt_below E _ _ m (by omega) n _ (by omega)

theorem ccmp_of_fits (data : getFrameType m = 0x08)
    (right : (hasA4 m && hasQc m && m 0 &&& 0x40 == 0) = false) (E : Block → Block) (n : Nat) :
    bytesAt (aesCipher E (headerLength m) m n) (headerLength m + 8) (n + 8) =
      encrypt E 8 2 (nonce (hdrShape (headerLength m) m) (pnVector m (headerLength m)) m)
        (aad (hdrShape (headerLength m) m) m) (bytesAt m (headerLength m + 8) n) := by
  have length : (hdrShape (headerLength m) m).hdrlen = headerLength m := by
    rw [hdrlen_eq data, right]
    rfl
  have written := micAndEncrypt_eq E (pnVector m (headerLength m)) (fits_of_shape data right) n
  have whole := bytesAt_splice m (headerLength m + 8)
    (encrypt E 8 2 (nonce (hdrShape (headerLength m) m) (pnVector m (headerLength m)) m)
      (aad (hdrShape (headerLength m) m) m) (bytesAt m (headerLength m + 8) n))
  rw [length_encrypt, length_bytesAt] at whole
  rw [aesCipher, length, written, length, whole]

/-- Bytes 2, 3 and 6 of the MIC show bit 6, the order bit and the fragment number. -/
theorem conforms_of_id (data : getFrameType m = 0x08)
    (right : (hasA4 m && hasQc m && m 0 &&& 0x40 == 0) = false) (n : Nat)
    (same : bytesAt (aesCipher id (headerLength m) m n) (headerLength m + 8) (n + 8) = ccmp id m n) :
    Conforms m := by
  rw [ccmp_of_fits data right, ccmp] at same
  have two := blocks_aad (fits_of_shape data right)
  have two' := blocks_ccmpAad m
  have second : m 0 &&& 0xcf ^^^ m 18 = m 0 &&& 0x8f ^^^ m 18 :=
    aad_of_mic_id two two' (k := 2) (by decide) same rfl rfl
  have third : m 1 &&& 0xc7 ^^^ m 19 = (m 1 &&& if hasQc m then 0x47 else 0xc7) ^^^ m 19 :=
    aad_of_mic_id two two' (k := 3) (by decide) same rfl rfl
  have sixth : m 6 ^^^ 0 = m 6 ^^^ (m 22 &&& 0x0f) :=
    aad_of_mic_id two two' (k := 6) (by decide) same rfl rfl
  have subtype : m 0 &&& 0x40 = 0 := by
    have bytes : ∀ b : UInt8, b &&& 0xcf = b &&& 0x8f → b &&& 0x40 = 0 := forall_byte (by decide +kernel)
    exact bytes _ ((UInt8.xor_left_inj _).mp second)
  refine ⟨?_, subtype, fun qos => ?_, ((UInt8.xor_right_inj _).mp sixth).symm⟩
  · rw [subtype] at right
    simpa using right
  · have bytes : ∀ b : UInt8, b &&& 0xc7 = b &&& 0x47 → b &&& 0x80 = 0 := forall_byte (by decide +kernel)
    rw [if_pos qos] at third
    exact bytes _ ((UInt8.xor_left_inj _).mp third)

/-- `aes_cipher` writes the CCMP of the standard, under every key, exactly for the frames
that conform. -/
theorem ccmp_iff (data : getFrameType m = 0x08) (n : Nat) :
    (∀ E, bytesAt (aesCipher E (headerLength m) m n) (headerLength m + 8) (n + 8) = ccmp E m n) ↔
      Conforms m := by
  constructor
  · intro same
    cases right : hasA4 m && hasQc m && m 0 &&& 0x40 == 0 with
    | true =>
        obtain ⟨E, differ⟩ := not_ccmp_of_shape data n right
        exact absurd (same E) differ
    | false => exact conforms_of_id data right n (same id)
  · intro conforms E
    have right : (hasA4 m && hasQc m && m 0 &&& 0x40 == 0) = false := by
      rw [conforms.shape, Bool.false_and]
    rw [ccmp_of_fits data right, ccmpNonce_eq data conforms, ccmpAad_eq data conforms, ccmp]

end Frame

/-- A data frame with three addresses and a sequence control. -/
def fragmentFrame (sequenceControl : UInt8) : Mem := fun k =>
  if k = 0 then 0x08 else if k = 1 then 0x41 else if k = 22 then sequenceControl else UInt8.ofNat (7 * k)

/-- The second fragment of an MSDU. -/
theorem second_fragment_not_ccmp :
    bytesAt (aesCipher id 24 (fragmentFrame 0x31) 5) 32 13 ≠ ccmp id (fragmentFrame 0x31) 5 := by
  decide +kernel

/-- Its first fragment. -/
theorem ccmp_iff_first_fragment :
    bytesAt (aesCipher id 24 (fragmentFrame 0x30) 5) 32 13 = ccmp id (fragmentFrame 0x30) 5 :=
  (ccmp_iff (m := fragmentFrame 0x30) (by decide) 5).mpr ⟨by decide, by decide, by decide, by decide⟩ id

end Vmac.Security
