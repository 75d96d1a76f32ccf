/-
# Vmac.Security.Ccmp -- aes_cipher is CCM

Both functions compute CCM with a tag of 8 bytes, over the nonce and the associated data
that the code builds from the header (`nonce`, `aad`).

* `micAndEncrypt_eq`: the payload and the 8 bytes behind it become the CCM ciphertext.
* `ccmp_accepts_exactly`: the decryptor accepts what the encryptor writes, gives the payload
  back, and accepts nothing else.
-/
import Vmac.Security.Aes

namespace Vmac.Security

open Theory.Ccm Theory.Bytes

set_option autoImplicit false

/-- A memory with a byte string at an address. -/
def splice (m : Mem) (start : Nat) (bytes : List UInt8) : Mem := fun k =>
  if start ≤ k ∧ k < start + bytes.length then bytes.getD (k - start) 0 else m k

@[simp] theorem length_bytesAt (m : Mem) (start n : Nat) : (bytesAt m start n).length = n := by
  simp [bytesAt]

theorem getD_bytesAt (m : Mem) (start n k : Nat) :
    (bytesAt m start n).getD k 0 = if k < n then m (start + k) else 0 := by
  rw [List.getD_eq_getElem?_getD, bytesAt, List.getElem?_map]
  by_cases inside : k < n
  · simp [inside]
  · simp [inside]

theorem bytesAt_congr {m m' : Mem} {start n : Nat} (same : ∀ k < n, m (start + k) = m' (start + k)) :
    bytesAt m start n = bytesAt m' start n :=
  List.map_congr_left fun k inside => same k (List.mem_range.mp inside)

/-! ## The header is read below the payload -/

/-- The bytes before the payload are the same. -/
def SameBelow (n : Nat) (m m' : Mem) : Prop := ∀ k < n, m' k = m k

section Congr

variable {m m' : Mem} (same : SameBelow 32 m m')

include same

theorem bytesAt_below {start n : Nat} (below : start + n ≤ 32) : bytesAt m' start n = bytesAt m start n :=
  bytesAt_congr fun k inside => same _ (by omega)

theorem qosTc_congr (qc a4 : Bool) : qosTc qc a4 m' = qosTc qc a4 m := by
  unfold qosTc
  rw [same 30 (by decide), same 24 (by decide)]

theorem constructCtrPreload_congr (a4 qc : Bool) (pn : List UInt8) (c : Nat) :
    constructCtrPreload a4 qc m' pn c = constructCtrPreload a4 qc m pn c := by
  unfold constructCtrPreload
  rw [qosTc_congr same, bytesAt_below same (by decide)]

end Congr

theorem copyBlock_below (m : Mem) (start : Nat) (b : Block) (n : Nat) : SameBelow start m (copyBlock m start b n) :=
  fun _ below => if_neg fun inside => absurd inside.1 (Nat.not_le.mpr below)

theorem SameBelow.mono {m m' : Mem} {n n' : Nat} (same : SameBelow n m m') (le : n' ≤ n) :
    SameBelow n' m m' := fun k below => same k (Nat.lt_of_lt_of_le below le)

/-! ## The payload -/

section Payload

variable (E : Block → Block) (shape : HdrShape) (pn : List UInt8)

/-- The key stream behind an address, from block `i` on. -/
def keyStream (m : Mem) (i k : Nat) : UInt8 :=
  E (constructCtrPreload shape.a4Exists shape.qcExists m pn (i + k / 16 + 1)) (Fin.ofNat 16 k)

theorem cryptBlocks_eq (n i start : Nat) (m : Mem) (low : 32 ≤ start) (k : Nat) :
    cryptBlocks E shape pn n i start m k =
      if start ≤ k ∧ k < start + 16 * n then keyStream E shape pn m i (k - start) ^^^ m k else m k := by
  induction n generalizing i start m with
  | zero =>
      rw [if_neg (by omega)]
      rfl
  | succ n ih =>
      rw [cryptBlocks, ih _ _ _ (by omega)]
      have ctr := constructCtrPreload_congr ((copyBlock_below m start
        ((E (constructCtrPreload shape.a4Exists shape.qcExists m pn (i + 1))).xor
          (block m start)) 16).mono low)
      have later (j : Nat) : keyStream E shape pn (copyBlock m start
          ((E (constructCtrPreload shape.a4Exists shape.qcExists m pn (i + 1))).xor (block m start)) 16)
          (i + 1) j = keyStream E shape pn m i (j + 16) := by
        have index : i + 1 + j / 16 + 1 = i + (j + 16) / 16 + 1 := by omega
        have byte : Fin.ofNat 16 j = Fin.ofNat 16 (j + 16) := by
          apply Fin.ext
          simp
        rw [keyStream, keyStream, ctr, index, byte]
      by_cases head : k < start + 16
      · rw [if_neg (by omega)]
        by_cases below : start ≤ k
        · have byte : start + (Fin.ofNat 16 (k - start)).val = k := by
            rw [Fin.val_ofNat, Nat.mod_eq_of_lt (by omega)]
            omega
          have first : i + (k - start) / 16 + 1 = i + 1 := by omega
          rw [if_pos (by omega), copyBlock, if_pos (by omega), Block.xor, block, byte, keyStream, first]
        · rw [if_neg (by omega), copyBlock, if_neg (by omega)]
      · have apart : k - (start + 16) + 16 = k - start := by omega
        have kept : copyBlock m start ((E (constructCtrPreload shape.a4Exists shape.qcExists m pn
            (i + 1))).xor (block m start)) 16 k = m k := if_neg (by omega)
        rw [later, apart, kept]
        by_cases inside : k < start + 16 * (n + 1)
        · rw [if_pos (by omega), if_pos (by omega)]
        · rw [if_neg (by omega), if_neg (by omega)]

theorem cryptPayload_eq (low : 24 ≤ shape.hdrlen) (m : Mem) (n k : Nat) :
    cryptPayload E shape pn m n k =
      if shape.hdrlen + 8 ≤ k ∧ k < shape.hdrlen + 8 + n
        then keyStream E shape pn m 0 (k - (shape.hdrlen + 8)) ^^^ m k else m k := by
  have blocks (k : Nat) := cryptBlocks_eq E shape pn (n / 16) 0 (shape.hdrlen + 8) m (by omega) k
  unfold cryptPayload
  dsimp only
  split
  · rename_i rest
    have same : SameBelow 32 m (cryptBlocks E shape pn (n / 16) 0 (shape.hdrlen + 8) m) := by
      intro k below
      rw [blocks, if_neg (by omega)]
    rw [constructCtrPreload_congr same]
    unfold copyBlock
    by_cases last : shape.hdrlen + 8 + 16 * (n / 16) ≤ k ∧ k < shape.hdrlen + 8 + 16 * (n / 16) + n % 16
    · have byte : Fin.ofNat 16 (k - (shape.hdrlen + 8 + 16 * (n / 16))) =
          Fin.ofNat 16 (k - (shape.hdrlen + 8)) := by
        apply Fin.ext
        rw [Fin.val_ofNat, Fin.val_ofNat]
        omega
      have value : (Fin.ofNat 16 (k - (shape.hdrlen + 8))).val =
          k - (shape.hdrlen + 8 + 16 * (n / 16)) := by
        rw [Fin.val_ofNat]
        omega
      have address : shape.hdrlen + 8 + 16 * (n / 16) + (k - (shape.hdrlen + 8 + 16 * (n / 16))) = k := by
        omega
      have index : 0 + (k - (shape.hdrlen + 8)) / 16 + 1 = n / 16 + 1 := by omega
      rw [if_pos last, if_pos (by omega), Block.xor, byte, keyStream, index, paddedBuffer, value,
        if_pos (by omega), address, blocks, if_neg (by omega)]
    · rw [if_neg last, blocks]
      by_cases inside : shape.hdrlen + 8 ≤ k ∧ k < shape.hdrlen + 8 + 16 * (n / 16)
      · rw [if_pos inside, if_pos (by omega)]
      · rw [if_neg inside, if_neg (by omega)]
  · rename_i whole
    have length : 16 * (n / 16) = n := by omega
    rw [blocks, length]

/-! ## Nonce and associated data -/

/-- The nonce that the code builds. -/
def nonce (m : Mem) : List UInt8 :=
  qosTc shape.qcExists shape.a4Exists m :: bytesAt m 10 6 ++ pn.reverse

/-- The bytes of the second header block. -/
def micHeader2 (m : Mem) : List UInt8 :=
  bytesAt m 16 6 ++ [0x00, 0x00] ++ (if shape.a4Exists then bytesAt m 24 6 else []) ++
    if shape.qcExists then
      if shape.a4Exists then [m 30 &&& 0x0f, m 31 &&& 0x00] else [m 24 &&& 0x0f, m 25 &&& 0x00]
    else []

/-- The associated data that the code builds, as long as its length field says. -/
def aad (m : Mem) : List UInt8 :=
  [m 0 &&& 0xcf, m 1 &&& 0xc7] ++ bytesAt m 4 12 ++ micHeader2 shape m ++
    List.replicate (shape.hdrlen - (16 + (micHeader2 shape m).length)) 0

/-- The header length covers the fields, and two blocks hold the associated data. -/
structure HdrShape.Fits (shape : HdrShape) (m : Mem) : Prop where
  fields : 16 + (micHeader2 shape m).length ≤ shape.hdrlen
  blocks : shape.hdrlen ≤ 32

variable {shape} {m : Mem}

theorem low_micHeader2 (shape : HdrShape) (m : Mem) : 8 ≤ (micHeader2 shape m).length := by
  unfold micHeader2
  simp only [List.length_append, length_bytesAt]
  exact Nat.le_trans (Nat.le_add_right 8 _) (Nat.le_add_right _ _)

theorem HdrShape.Fits.low (fits : shape.Fits m) : 24 ≤ shape.hdrlen := by
  have low := low_micHeader2 shape m
  have fields := fits.fields
  omega

theorem length_aad (fits : shape.Fits m) : (aad shape m).length = shape.hdrlen - 2 := by
  have low := low_micHeader2 shape m
  have fields := fits.fields
  simp only [aad, List.length_append, length_bytesAt, List.length_replicate, List.length_cons,
    List.length_nil]
  omega

theorem aad_isEmpty (m : Mem) : (aad shape m).isEmpty = false := rfl

theorem blockOf_append_replicate (bytes : List UInt8) (k : Nat) :
    blockOf (bytes ++ List.replicate k 0) = blockOf bytes := by
  funext i
  unfold blockOf
  by_cases inside : i.val < bytes.length
  · exact List.getD_append _ _ _ _ inside
  · rw [List.getD_append_right _ _ _ _ (by omega), List.getD_eq_default bytes _ (by omega)]
    simp [List.getD_eq_getElem?_getD, List.getElem?_replicate]
    split <;> rfl

theorem blocks_aad (fits : shape.Fits m) :
    blocks (encodeAad (aad shape m)) =
      [constructMicHeader1 shape.hdrlen m, constructMicHeader2 m shape.a4Exists shape.qcExists] := by
  have low := low_micHeader2 shape m
  have fields := fits.fields
  have high := fits.blocks
  have tail : (micHeader2 shape m ++
      List.replicate (shape.hdrlen - (16 + (micHeader2 shape m).length)) 0).length = shape.hdrlen - 16 := by
    rw [List.length_append, List.length_replicate]
    omega
  have split : aad shape m = ([m 0 &&& 0xcf, m 1 &&& 0xc7] ++ bytesAt m 4 12) ++ (micHeader2 shape m ++
      List.replicate (shape.hdrlen - (16 + (micHeader2 shape m).length)) 0) := List.append_assoc ..
  rw [blocks_encodeAad split (by simp) (by omega) (by omega), length_aad fits, toBe_two,
    blockOf_append_replicate]
  rfl

theorem counterBlock_nonce (m : Mem) (c : Nat) :
    counterBlock 2 (nonce shape pn m) c = constructCtrPreload shape.a4Exists shape.qcExists m pn c := by
  unfold counterBlock constructCtrPreload blockOf
  rw [blockAt_zero, toBe_two]
  rfl

theorem firstBlock_nonce (m : Mem) (text : List UInt8) :
    firstBlock 8 2 (nonce shape pn m) (aad shape m) text =
      constructMicIv shape.qcExists shape.a4Exists m text.length pn := by
  unfold firstBlock constructMicIv blockOf
  rw [blockAt_zero, toBe_two, aad_isEmpty]
  rfl

/-! ## The MIC -/

variable (m)

theorem micBlocks_eq (n start : Nat) (aesOut : Block) :
    micBlocks E m n start aesOut =
      cbcMac E aesOut ((List.range n).map fun b => block m (start + 16 * b)) := by
  induction n generalizing start aesOut with
  | zero => rfl
  | succ n ih =>
      rw [micBlocks, ih, List.range_succ_eq_map, List.map_cons, List.map_map]
      have next : ((fun b => block m (start + 16 * b)) ∘ Nat.succ) =
          fun b => block m (start + 16 + 16 * b) := by
        funext b
        have address : start + 16 * b.succ = start + 16 + 16 * b := by omega
        rw [Function.comp_apply, address]
      rw [next]
      rfl

theorem blockAt_bytesAt (start n b : Nat) :
    blockAt (bytesAt m start n) b = paddedBuffer m (start + 16 * b) (n - 16 * b) := by
  funext i
  have address : start + (16 * b + i) = start + 16 * b + i := by omega
  rw [blockAt, getD_bytesAt, paddedBuffer, address]
  by_cases inside : 16 * b + i < n
  · rw [if_pos inside, if_pos (by omega)]
  · rw [if_neg inside, if_neg (by omega)]

theorem paddedBuffer_whole {start n : Nat} (whole : 16 ≤ n) : paddedBuffer m start n = block m start := by
  funext i
  exact if_pos (by omega)

theorem blocks_bytesAt (start n : Nat) :
    blocks (bytesAt m start n) = ((List.range (n / 16)).map fun b => block m (start + 16 * b)) ++
      if 0 < n % 16 then [paddedBuffer m (start + 16 * (n / 16)) (n % 16)] else [] := by
  have whole : (List.range (n / 16)).map (blockAt (bytesAt m start n)) =
      (List.range (n / 16)).map fun b => block m (start + 16 * b) := by
    refine List.map_congr_left fun b inside => ?_
    have := List.mem_range.mp inside
    rw [blockAt_bytesAt, paddedBuffer_whole m (by omega)]
  unfold blocks
  rw [length_bytesAt]
  split
  · have count : (n + 15) / 16 = n / 16 + 1 := by omega
    have rest : n - 16 * (n / 16) = n % 16 := by omega
    rw [count, List.range_succ, List.map_append, whole, List.map_singleton, blockAt_bytesAt, rest]
  · have count : (n + 15) / 16 = n / 16 := by omega
    rw [count, whole, List.append_nil]

theorem calculateMic_eq {m : Mem} (fits : shape.Fits m) (n : Nat) :
    calculateMic E shape pn m n =
      mac E 8 2 (nonce shape pn m) (aad shape m) (bytesAt m (shape.hdrlen + 8) n) := by
  unfold calculateMic mac
  dsimp only
  rw [firstBlock_nonce, length_bytesAt, blocks_aad fits, micBlocks_eq, cbcMac_append, blocks_bytesAt,
    cbcMac_append]
  split
  · rfl
  · rfl

/-! ## Both functions -/

theorem length_encrypt (nonce aad text : List UInt8) :
    (encrypt E 8 2 nonce aad text).length = text.length + 8 := by
  rw [encrypt, List.length_append, length_crypt, length_tag _ _ _ _ _ (by decide)]

variable (shape) in
/-- The masked payload byte by byte. -/
theorem getD_encrypt_payload (text : List UInt8) {m : Mem} (aad : List UInt8) {k : Nat}
    (inside : k < text.length) :
    (encrypt E 8 2 (nonce shape pn m) aad text).getD k 0 = keyStream E shape pn m 0 k ^^^ text.getD k 0 := by
  rw [encrypt, List.getD_append _ _ _ _ (by rwa [length_crypt]), getD_crypt _ _ _ inside,
    counterBlock_nonce, keyStream, UInt8.xor_comm, Nat.zero_add]

variable (shape) in
/-- The masked MIC byte by byte. -/
theorem getD_encrypt_mic (text : List UInt8) {m : Mem} (aad : List UInt8) {k : Nat} (inside : k < 8) :
    (encrypt E 8 2 (nonce shape pn m) aad text).getD (text.length + k) 0 =
      E (constructCtrPreload shape.a4Exists shape.qcExists m pn 0) (Fin.ofNat 16 k) ^^^
        mac E 8 2 (nonce shape pn m) aad text (Fin.ofNat 16 k) := by
  have behind : (crypt E 2 (nonce shape pn m) text).length = text.length := length_crypt ..
  rw [encrypt, List.getD_append_right _ _ _ _ (by omega), behind, Nat.add_sub_cancel_left,
    getD_tag _ _ _ _ _ (by decide) _ inside, counterBlock_nonce, UInt8.xor_comm]

/-- What `aes_cipher` and the check of `aes_decipher` write. -/
theorem micAndEncrypt_eq {m : Mem} (fits : shape.Fits m) (n : Nat) :
    micAndEncrypt E shape pn m n = splice m (shape.hdrlen + 8)
      (encrypt E 8 2 (nonce shape pn m) (aad shape m) (bytesAt m (shape.hdrlen + 8) n)) := by
  have low := fits.low
  unfold micAndEncrypt
  rw [calculateMic_eq E pn fits]
  generalize mic : mac E 8 2 (nonce shape pn m) (aad shape m) (bytesAt m (shape.hdrlen + 8) n) = t
  have withMic : SameBelow (shape.hdrlen + 8 + n) m (copyBlock m (shape.hdrlen + 8 + n) t 8) :=
    copyBlock_below m _ t 8
  have stream (k : Nat) : keyStream E shape pn (copyBlock m (shape.hdrlen + 8 + n) t 8) 0 k =
      keyStream E shape pn m 0 k := by
    rw [keyStream, keyStream, constructCtrPreload_congr (withMic.mono (by omega))]
  have crypted (k : Nat) := cryptPayload_eq E shape pn low (copyBlock m (shape.hdrlen + 8 + n) t 8) n k
  have header : SameBelow 32 m
      (cryptPayload E shape pn (copyBlock m (shape.hdrlen + 8 + n) t 8) n) := by
    intro k below
    rw [crypted, if_neg (by omega)]
    exact withMic k (by omega)
  funext k
  rw [constructCtrPreload_congr header]
  unfold splice
  rw [length_encrypt, length_bytesAt]
  by_cases inMic : shape.hdrlen + 8 + n ≤ k ∧ k < shape.hdrlen + 8 + n + 8
  · obtain ⟨j, rfl⟩ : ∃ j, k = shape.hdrlen + 8 + n + j := ⟨k - (shape.hdrlen + 8 + n), by omega⟩
    have index : shape.hdrlen + 8 + n + j - (shape.hdrlen + 8) = n + j := by omega
    have byte : (Fin.ofNat 16 j).val = j := Nat.mod_eq_of_lt (by omega)
    have masked := getD_encrypt_mic E shape pn (bytesAt m (shape.hdrlen + 8) n) (m := m) (aad shape m)
      (k := j) (by omega)
    rw [length_bytesAt, mic] at masked
    rw [copyBlock, if_pos inMic, if_pos (by omega), index, masked, Block.xor, paddedBuffer,
      Nat.add_sub_cancel_left, byte, if_pos (by omega), crypted, if_neg (by omega), copyBlock, if_pos inMic,
      Nat.add_sub_cancel_left]
  · rw [copyBlock, if_neg inMic, crypted]
    by_cases inPayload : shape.hdrlen + 8 ≤ k ∧ k < shape.hdrlen + 8 + n
    · have address : shape.hdrlen + 8 + (k - (shape.hdrlen + 8)) = k := by omega
      have masked := getD_encrypt_payload E shape pn (bytesAt m (shape.hdrlen + 8) n) (m := m)
        (aad shape m) (k := k - (shape.hdrlen + 8)) (by rw [length_bytesAt]; omega)
      rw [if_pos inPayload, if_pos (by omega), masked, stream, withMic k (by omega), getD_bytesAt,
        if_pos (by omega), address]
    · rw [if_neg inPayload, if_neg (by omega), copyBlock, if_neg inMic]

end Payload

/-! ## Byte strings in memory -/

theorem bytesAt_add (m : Mem) (start n k : Nat) :
    bytesAt m start (n + k) = bytesAt m start n ++ bytesAt m (start + n) k := by
  unfold bytesAt
  rw [List.range_add, List.map_append, List.map_map]
  congr 1
  exact List.map_congr_left fun j _ => congrArg m (Nat.add_assoc start n j).symm

/-- A byte string from the front on, in two parts. -/
theorem bytesAt_front (m : Mem) (n k : Nat) : bytesAt m 0 (n + k) = bytesAt m 0 n ++ bytesAt m n k := by
  rw [bytesAt_add, Nat.zero_add]

theorem bytesAt_splice (m : Mem) (start : Nat) (bytes : List UInt8) :
    bytesAt (splice m start bytes) start bytes.length = bytes := by
  apply List.ext_getElem
  · simp
  · intro k inside inside'
    simp only [bytesAt, List.getElem_map, List.getElem_range, splice]
    rw [if_pos (by omega), Nat.add_sub_cancel_left, List.getD_eq_getElem _ _ inside']

theorem splice_below (m : Mem) (start : Nat) (bytes : List UInt8) :
    SameBelow start m (splice m start bytes) := fun _ below =>
  if_neg fun inside => absurd inside.1 (Nat.not_le.mpr below)

theorem bytesAt_of_below {m m' : Mem} {start n bound : Nat} (same : SameBelow bound m m')
    (below : start + n ≤ bound) : bytesAt m' start n = bytesAt m start n :=
  bytesAt_congr fun k inside => same _ (by omega)

theorem bytesAt_splice_behind (mem : Mem) (start start' n : Nat) (bytes : List UInt8)
    (behind : start + bytes.length ≤ start') :
    bytesAt (splice mem start bytes) start' n = bytesAt mem start' n :=
  bytesAt_congr fun _ _ => if_neg (by omega)

theorem splice_append (m : Mem) (start : Nat) (front back : List UInt8) :
    splice (splice m start front) (start + front.length) back = splice m start (front ++ back) := by
  funext k
  unfold splice
  rw [List.length_append]
  by_cases behind : start + front.length ≤ k
  · by_cases inside : k < start + front.length + back.length
    · have index : k - start - front.length = k - (start + front.length) := by omega
      rw [if_pos ⟨behind, inside⟩, if_pos (by omega), List.getD_append_right _ _ _ _ (by omega), index]
    · rw [if_neg (by omega), if_neg (by omega), if_neg (by omega)]
  · rw [if_neg (by omega)]
    by_cases inside : start ≤ k
    · rw [if_pos (by omega), if_pos (by omega), List.getD_append _ _ _ _ (by omega)]
    · rw [if_neg (by omega), if_neg (by omega)]

/-! ## Data frames with three addresses -/

/-- A data frame with three addresses, and with QoS control when bit 7 says so. -/
structure ThreeAddress (pframe : Mem) (hdrlen : Nat) : Prop where
  data : getFrameType pframe = 0x08
  length : hdrlen = if pframe 0 &&& 0x80 = 0x80 then wlanHdrA3QosLen else wlanHdrA3Len

theorem qos_of_qcExists (pframe : Mem) (qc : qcExists pframe = true) : pframe 0 &&& 0x80 = 0x80 := by
  have bytes : ∀ b : UInt8, qcExists (fun _ => b) = true → b &&& 0x80 = 0x80 :=
    forall_byte (by decide +kernel)
  exact bytes (pframe 0) qc

section ThreeAddress

variable {pframe : Mem} {hdrlen : Nat} (three : ThreeAddress pframe hdrlen)

include three

theorem ThreeAddress.shape_eq : hdrShape hdrlen pframe = ⟨false, qcExists pframe, hdrlen⟩ := by
  have a4 : (hdrlen == wlanHdrA3Len || hdrlen == wlanHdrA3QosLen) = true := by
    rw [three.length]
    split <;> rfl
  have same : (if qcExists pframe && hdrlen != wlanHdrA3QosLen then hdrlen + 2 else hdrlen) = hdrlen := by
    rw [if_neg]
    rintro adds
    obtain ⟨qc, other⟩ := Bool.and_eq_true_iff.mp adds
    rw [three.length, if_pos (qos_of_qcExists pframe qc)] at other
    cases other
  rw [hdrShape, same, a4]
  rfl

theorem ThreeAddress.fits : (hdrShape hdrlen pframe).Fits pframe := by
  rw [three.shape_eq]
  constructor
  · by_cases qc : qcExists pframe = true
    · have length : hdrlen = 26 := three.length.trans (if_pos (qos_of_qcExists pframe qc))
      simp [micHeader2, qc, length]
    · have low : 24 ≤ hdrlen := by
        rw [three.length]
        split <;> decide
      simp [micHeader2, qc, low]
  · show hdrlen ≤ 32
    rw [three.length]
    split <;> decide

theorem ThreeAddress.low : 24 ≤ hdrlen := by
  rw [three.length]
  split <;> decide

theorem ThreeAddress.congr {m' : Mem} (same : SameBelow 32 pframe m') : ThreeAddress m' hdrlen where
  data := by
    rw [getFrameType, same 0 (by decide)]
    exact three.data
  length := by
    rw [same 0 (by decide)]
    exact three.length

end ThreeAddress

section RoundTrip

variable (E : Block → Block) {pframe : Mem} {hdrlen : Nat}

/-- The nonce for a frame with three addresses. -/
def frameNonce (hdrlen : Nat) (pframe : Mem) : List UInt8 :=
  nonce (hdrShape hdrlen pframe) (pnVector pframe hdrlen) pframe

/-- The associated data for a frame with three addresses. -/
def frameAad (hdrlen : Nat) (pframe : Mem) : List UInt8 := aad (hdrShape hdrlen pframe) pframe

section Header

variable {m' : Mem} (same : SameBelow (hdrlen + 8) pframe m') (three : ThreeAddress pframe hdrlen)

include same three

omit three in
theorem hdrShape_congr : hdrShape hdrlen m' = hdrShape hdrlen pframe := by
  have first := same 0 (Nat.succ_pos _)
  unfold hdrShape qcExists getFrameType getFrameSubType
  rw [first]

theorem frameNonce_congr : frameNonce hdrlen m' = frameNonce hdrlen pframe := by
  have low := three.low
  have below : SameBelow 32 pframe m' := same.mono (by omega)
  unfold frameNonce nonce pnVector
  rw [hdrShape_congr same, qosTc_congr below, bytesAt_of_below below (by decide),
    bytesAt_of_below same (by omega), bytesAt_of_below same (by omega)]

theorem frameAad_congr : frameAad hdrlen m' = frameAad hdrlen pframe := by
  have low := three.low
  have below : SameBelow 32 pframe m' := same.mono (by omega)
  unfold frameAad aad micHeader2
  rw [hdrShape_congr same, below 0 (by decide), below 1 (by decide), below 24 (by decide),
    below 25 (by decide), below 30 (by decide), below 31 (by decide), bytesAt_of_below below (by decide),
    bytesAt_of_below below (by decide), bytesAt_of_below below (by decide)]

end Header

variable (three : ThreeAddress pframe hdrlen)

include three

theorem aesCipher_eq (n : Nat) :
    aesCipher E hdrlen pframe n = splice pframe (hdrlen + 8)
      (encrypt E 8 2 (frameNonce hdrlen pframe) (frameAad hdrlen pframe) (bytesAt pframe (hdrlen + 8) n)) := by
  have length : (hdrShape hdrlen pframe).hdrlen = hdrlen := by rw [three.shape_eq]
  have eq := micAndEncrypt_eq E (pnVector pframe hdrlen) three.fits n
  rw [length] at eq
  rw [aesCipher, length, eq]
  rfl

/-- The payload that `aes_decipher` leaves, and the header, which it does not touch. -/
theorem aesDecipher_frame (message : Mem) (n : Nat) :
    SameBelow (hdrlen + 8) pframe (aesDecipher E message hdrlen pframe (n + 8)).1 ∧
      bytesAt (aesDecipher E message hdrlen pframe (n + 8)).1 (hdrlen + 8) n =
        crypt E 2 (frameNonce hdrlen pframe) (bytesAt pframe (hdrlen + 8) n) ∧
      bytesAt (aesDecipher E message hdrlen pframe (n + 8)).1 (hdrlen + 8 + n) 8 =
        bytesAt pframe (hdrlen + 8 + n) 8 := by
  have low : 24 ≤ (hdrShape hdrlen pframe).hdrlen := three.fits.low
  have length : (hdrShape hdrlen pframe).hdrlen = hdrlen := by rw [three.shape_eq]
  have frame : (aesDecipher E message hdrlen pframe (n + 8)).1 =
      cryptPayload E (hdrShape hdrlen pframe) (pnVector pframe hdrlen) pframe n := rfl
  have eq (k : Nat) := cryptPayload_eq E (hdrShape hdrlen pframe) (pnVector pframe hdrlen) low pframe n k
  rw [length] at eq
  rw [frame]
  refine ⟨fun k below => ?_, ?_, bytesAt_congr fun k inside => ?_⟩
  · rw [eq, if_neg (by omega)]
  · apply List.ext_getElem
    · simp
    · intro k inside inside'
      have inside : k < n := by simpa using inside
      have stream : keyStream E (hdrShape hdrlen pframe) (pnVector pframe hdrlen) pframe 0 k =
          E (counterBlock 2 (frameNonce hdrlen pframe) (k / 16 + 1)) (Fin.ofNat 16 k) := by
        rw [keyStream, frameNonce, counterBlock_nonce, Nat.zero_add]
      simp only [crypt, bytesAt, List.getElem_map, List.getElem_range, List.getElem_mapIdx]
      rw [eq, if_pos (by omega), Nat.add_sub_cancel_left, stream, UInt8.xor_comm]
  · rw [eq, if_neg (by omega)]

/-- `aes_decipher` returns `_SUCCESS` when CCM decrypts. -/
theorem aesDecipher_success (message : Mem) {n : Nat} (fits : hdrlen + 8 + n + 8 ≤ maxMsgSize) :
    (aesDecipher E message hdrlen pframe (n + 8)).2 = true ↔
      decrypt E 8 2 (frameNonce hdrlen pframe) (frameAad hdrlen pframe) (bytesAt pframe (hdrlen + 8) (n + 8)) =
        some (bytesAt (aesDecipher E message hdrlen pframe (n + 8)).1 (hdrlen + 8) n) := by
  obtain ⟨header, payload, mic⟩ := aesDecipher_frame E three message n
  generalize left : (aesDecipher E message hdrlen pframe (n + 8)).1 = m' at header payload mic ⊢
  -- the static buffer holds the decrypted frame
  let copy : Mem := fun k => if k < hdrlen + (n + 8) + 8 then m' k else message k
  have copied (start k : Nat) (inside : start + k ≤ hdrlen + (n + 8) + 8) :
      bytesAt copy start k = bytesAt m' start k := bytesAt_congr fun j below => if_pos (by omega)
  have length : (hdrShape hdrlen pframe).hdrlen = hdrlen := by rw [three.shape_eq]
  have sameCopy : SameBelow (hdrlen + 8) pframe copy := fun k below => by
    rw [← header k below]
    exact if_pos (by omega)
  have again : micAndEncrypt E (hdrShape hdrlen pframe) (pnVector m' hdrlen) copy n =
      splice copy (hdrlen + 8) (encrypt E 8 2 (frameNonce hdrlen pframe) (frameAad hdrlen pframe)
        (bytesAt m' (hdrlen + 8) n)) := by
    have shape := hdrShape_congr sameCopy
    have low := three.low
    have fits : (hdrShape hdrlen pframe).Fits copy := shape ▸ (three.congr (sameCopy.mono (by omega))).fits
    have pn : pnVector m' hdrlen = pnVector copy hdrlen := by
      unfold pnVector
      rw [copied _ _ (by omega), copied _ _ (by omega)]
    have eq := micAndEncrypt_eq E (pnVector copy hdrlen) fits n
    rw [length, copied _ _ (by omega)] at eq
    rw [pn, eq, ← frameNonce_congr sameCopy three, ← frameAad_congr sameCopy three, frameNonce, frameAad,
      shape]
  have success : (aesDecipher E message hdrlen pframe (n + 8)).2 =
      (List.range 8).all fun i => m' (hdrlen + 8 + n + i) ==
        micAndEncrypt E (hdrShape hdrlen pframe) (pnVector m' hdrlen) copy n (hdrlen + 8 + n + i) := by
    have index : hdrlen + 8 + (n + 8) - 8 = hdrlen + 8 + n := by omega
    have room : hdrlen + (n + 8) + 8 ≤ maxMsgSize := by omega
    subst left
    unfold aesDecipher copy
    dsimp only
    rw [length, if_pos room, Nat.add_sub_cancel, index]
    rfl
  have written : bytesAt (splice copy (hdrlen + 8) (encrypt E 8 2 (frameNonce hdrlen pframe)
      (frameAad hdrlen pframe) (bytesAt m' (hdrlen + 8) n))) (hdrlen + 8 + n) 8 =
      tag E 8 2 (frameNonce hdrlen pframe) (frameAad hdrlen pframe) (bytesAt m' (hdrlen + 8) n) := by
    have whole := bytesAt_splice copy (hdrlen + 8) (encrypt E 8 2 (frameNonce hdrlen pframe)
      (frameAad hdrlen pframe) (bytesAt m' (hdrlen + 8) n))
    rw [length_encrypt, length_bytesAt, bytesAt_add] at whole
    exact (List.append_inj whole (by rw [length_bytesAt, length_crypt, length_bytesAt])).2
  have decrypted : decrypt E 8 2 (frameNonce hdrlen pframe) (frameAad hdrlen pframe)
      (bytesAt pframe (hdrlen + 8) (n + 8)) = some (bytesAt m' (hdrlen + 8) n) ↔
      bytesAt m' (hdrlen + 8 + n) 8 =
        tag E 8 2 (frameNonce hdrlen pframe) (frameAad hdrlen pframe) (bytesAt m' (hdrlen + 8) n) := by
    unfold decrypt
    rw [length_bytesAt, Nat.add_sub_cancel, bytesAt_add, List.take_left' (length_bytesAt ..),
      List.drop_left' (length_bytesAt ..), ← payload, mic]
    dsimp only
    split
    · rename_i same
      exact ⟨fun _ => same, fun _ => rfl⟩
    · rename_i differ
      exact ⟨nofun, fun same => absurd same differ⟩
  rw [decrypted, ← written, success, again, List.all_eq_true]
  constructor
  · intro each
    exact bytesAt_congr fun k inside => eq_of_beq (each k (List.mem_range.mpr inside))
  · intro same k inside
    have k_lt : k < 8 := List.mem_range.mp inside
    have byte := congrArg (·.getD k 0) same
    simp only [getD_bytesAt, if_pos k_lt] at byte
    exact beq_iff_eq.mpr byte

/-- For a frame with three addresses, `aes_decipher` accepts what `aes_cipher` writes and
gives the payload back; what it accepts is what `aes_cipher` writes for the payload it leaves. -/
theorem ccmp_accepts_exactly (message : Mem) {n : Nat} (fits : hdrlen + 8 + n + 8 ≤ maxMsgSize) :
    ((aesDecipher E message hdrlen (aesCipher E hdrlen pframe n) (n + 8)).2 = true ∧
      bytesAt (aesDecipher E message hdrlen (aesCipher E hdrlen pframe n) (n + 8)).1 0 (hdrlen + 8 + n) =
        bytesAt pframe 0 (hdrlen + 8 + n)) ∧
    ((aesDecipher E message hdrlen pframe (n + 8)).2 = true →
      bytesAt pframe 0 (hdrlen + 8 + n + 8) =
        bytesAt (aesCipher E hdrlen (aesDecipher E message hdrlen pframe (n + 8)).1 n) 0
          (hdrlen + 8 + n + 8)) := by
  have low := three.low
  constructor
  · have cipher := aesCipher_eq E three n
    generalize aesCipher E hdrlen pframe n = c at cipher ⊢
    have same : SameBelow (hdrlen + 8) pframe c := by
      rw [cipher]
      exact splice_below _ _ _
    have three' : ThreeAddress c hdrlen := three.congr (same.mono (by omega))
    have sealed : bytesAt c (hdrlen + 8) (n + 8) = encrypt E 8 2 (frameNonce hdrlen pframe)
        (frameAad hdrlen pframe) (bytesAt pframe (hdrlen + 8) n) := by
      have whole := bytesAt_splice pframe (hdrlen + 8) (encrypt E 8 2 (frameNonce hdrlen pframe)
        (frameAad hdrlen pframe) (bytesAt pframe (hdrlen + 8) n))
      rwa [length_encrypt, length_bytesAt, ← cipher] at whole
    obtain ⟨header, payload, -⟩ := aesDecipher_frame E three' message n
    have restored : bytesAt (aesDecipher E message hdrlen c (n + 8)).1 (hdrlen + 8) n =
        bytesAt pframe (hdrlen + 8) n := by
      have front : bytesAt c (hdrlen + 8) n =
          crypt E 2 (frameNonce hdrlen pframe) (bytesAt pframe (hdrlen + 8) n) := by
        rw [bytesAt_add, encrypt] at sealed
        exact (List.append_inj sealed (by rw [length_bytesAt, length_crypt, length_bytesAt])).1
      rw [payload, frameNonce_congr same three, front, crypt_crypt]
    refine ⟨(aesDecipher_success E three' message fits).mpr ?_, ?_⟩
    · rw [sealed, frameNonce_congr same three, frameAad_congr same three, restored,
        decrypt_encrypt _ _ _ _ _ (by decide)]
    · rw [bytesAt_front _ (hdrlen + 8), bytesAt_front _ (hdrlen + 8), restored,
        bytesAt_of_below header (by omega), bytesAt_of_below same (by omega)]
  · intro success
    obtain ⟨header, -, -⟩ := aesDecipher_frame E three message n
    have accepted := encrypt_of_decrypt _ _ _ _ _ ((aesDecipher_success E three message fits).mp success)
    generalize (aesDecipher E message hdrlen pframe (n + 8)).1 = m' at header accepted ⊢
    have three' : ThreeAddress m' hdrlen := three.congr (header.mono (by omega))
    rw [aesCipher_eq E three', frameNonce_congr header three, frameAad_congr header three, ← accepted]
    have below := splice_below m' (hdrlen + 8) (bytesAt pframe (hdrlen + 8) (n + 8))
    have whole := bytesAt_splice m' (hdrlen + 8) (bytesAt pframe (hdrlen + 8) (n + 8))
    rw [length_bytesAt] at whole
    rw [Nat.add_assoc _ n 8, bytesAt_front _ (hdrlen + 8), bytesAt_front _ (hdrlen + 8), whole,
      bytesAt_of_below below (by omega), bytesAt_of_below header (by omega)]

end RoundTrip

/-- A block function. -/
def flipBlock (b : Block) : Block := fun i => b (15 - i) ^^^ 0x5a

/-- A QoS data frame. -/
def qosFrame : Mem := fun k => if k = 0 then 0x88 else UInt8.ofNat k

theorem qosFrame_three : ThreeAddress qosFrame 26 := ⟨by decide, by decide⟩

theorem ccmp_accepts_exactly_qos :
    (aesDecipher flipBlock (fun _ => 0) 26 (aesCipher flipBlock 26 qosFrame 21) 29).2 = true ∧
      bytesAt (aesDecipher flipBlock (fun _ => 0) 26 (aesCipher flipBlock 26 qosFrame 21) 29).1 0 55 =
        bytesAt qosFrame 0 55 :=
  (ccmp_accepts_exactly flipBlock qosFrame_three (fun _ => 0) (n := 21) (by decide)).1

end Vmac.Security
