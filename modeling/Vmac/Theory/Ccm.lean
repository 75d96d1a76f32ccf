/-
# Vmac.Theory.Ccm -- counter mode with CBC-MAC

CCM over any block function, with a tag of `M` bytes and a length field of `L` bytes.  The
tag is the CBC-MAC of the first block, the associated data and the text; text and tag are
masked with the key stream.

* `decrypt_encrypt`: what was encrypted is decrypted again.
* `encrypt_of_decrypt`: what is decrypted was encrypted.
-/
import Mathlib.Data.List.GetD
import Vmac.Theory.Bytes

namespace Vmac.Theory.Ccm

open Bytes

set_option autoImplicit false

abbrev Block := Fin 16 → UInt8

namespace Block

def xor (a b : Block) : Block := fun i => a i ^^^ b i

end Block

/-- Bytes written to a block of zeros. -/
def blockOf (bytes : List UInt8) : Block := fun i => bytes.getD i 0

/-- Bytes `16 b` to `16 b + 15`, zero behind the end. -/
def blockAt (text : List UInt8) (b : Nat) : Block := fun i => text.getD (16 * b + i) 0

/-- A text as blocks, the last one padded with zeros. -/
def blocks (text : List UInt8) : List Block := (List.range ((text.length + 15) / 16)).map (blockAt text)

/-- `n` as `w` bytes, the highest first. -/
def toBe (w n : Nat) : List UInt8 := (toLe w n).reverse

theorem toBe_two (n : Nat) : toBe 2 n = [UInt8.ofNat (n / 256), UInt8.ofNat (n % 256)] := by
  have high : UInt8.ofNat (n / 256 % 256) = UInt8.ofNat (n / 256) :=
    UInt8.toNat_inj.mp (by simp)
  simp [toBe, toLe, high]

theorem blockAt_zero (text : List UInt8) : blockAt text 0 = blockOf text := by
  funext i
  rw [blockAt, blockOf, Nat.mul_zero, Nat.zero_add]

theorem blockAt_zero_append {head : List UInt8} (sixteen : head.length = 16) (tail : List UInt8) :
    blockAt (head ++ tail) 0 = blockOf head := by
  funext i
  rw [blockAt_zero]
  exact List.getD_append _ _ _ _ (by omega)

theorem blockAt_one_append {head : List UInt8} (sixteen : head.length = 16) (tail : List UInt8) :
    blockAt (head ++ tail) 1 = blockOf tail := by
  funext i
  have behind : head.length ≤ 16 * 1 + i := by omega
  rw [blockAt, blockOf, List.getD_append_right _ _ _ _ behind]
  congr 1
  omega

section Mode

variable (E : Block → Block)

def cbcMac (start : Block) (bs : List Block) : Block := bs.foldl (fun x b => E (x.xor b)) start

theorem cbcMac_append (start : Block) (as bs : List Block) :
    cbcMac E start (as ++ bs) = cbcMac E (cbcMac E start as) bs := List.foldl_append ..

variable (M L : Nat) (nonce aad : List UInt8)

def flags (adata : Bool) : UInt8 :=
  UInt8.ofNat ((if adata then 64 else 0) + 8 * ((M - 2) / 2) + (L - 1))

/-- `B_0`. -/
def firstBlock (text : List UInt8) : Block :=
  blockAt (flags M L (!aad.isEmpty) :: nonce ++ toBe L text.length) 0

/-- `A_i`. -/
def counterBlock (i : Nat) : Block := blockAt (UInt8.ofNat (L - 1) :: nonce ++ toBe L i) 0

/-- Associated data with its length, for fewer than `0xff00` bytes. -/
def encodeAad : List UInt8 := if aad.isEmpty then [] else toBe 2 aad.length ++ aad

/-- Associated data in two blocks, behind its length. -/
theorem blocks_encodeAad {aad head tail : List UInt8} (split : aad = head ++ tail)
    (fourteen : head.length = 14) (low : 1 ≤ tail.length) (high : tail.length ≤ 16) :
    blocks (encodeAad aad) = [blockOf (toBe 2 aad.length ++ head), blockOf tail] := by
  have length : aad.length = 14 + tail.length := by rw [split, List.length_append, fourteen]
  have occupied : aad.isEmpty = false := by
    rw [List.isEmpty_eq_false_iff_exists_mem]
    exact List.exists_mem_of_length_pos (by omega)
  have encoded : encodeAad aad = (toBe 2 aad.length ++ head) ++ tail := by
    rw [encodeAad, occupied, List.append_assoc, ← split]
    rfl
  have sixteen : (toBe 2 aad.length ++ head).length = 16 := by
    rw [toBe_two, List.length_append, fourteen]
    rfl
  have two : ((encodeAad aad).length + 15) / 16 = 2 := by
    rw [encoded, List.length_append, sixteen]
    omega
  unfold blocks
  rw [two, encoded]
  show [blockAt _ 0, blockAt _ 1] = _
  rw [blockAt_zero_append sixteen, blockAt_one_append sixteen]

/-- With the identity as block function, the CBC-MAC is a sum. -/
theorem cbcMac_id (start start' : Block) (bs : List Block) {i : Fin 16}
    (same : cbcMac id start bs i = cbcMac id start' bs i) : start i = start' i := by
  induction bs generalizing start start' with
  | nil => exact same
  | cons b rest ih => exact (UInt8.xor_left_inj _).mp (ih (start.xor b) (start'.xor b) same)

def mac (text : List UInt8) : Block :=
  cbcMac E (E (firstBlock M L nonce aad text)) (blocks (encodeAad aad) ++ blocks text)

/-- The text masked with the key stream; masking it again gives the text. -/
def crypt (text : List UInt8) : List UInt8 :=
  text.mapIdx fun k b => b ^^^ E (counterBlock L nonce (k / 16 + 1)) (Fin.ofNat 16 k)

/-- The masked tag. -/
def tag (text : List UInt8) : List UInt8 :=
  (List.ofFn ((mac E M L nonce aad text).xor (E (counterBlock L nonce 0)))).take M

def encrypt (text : List UInt8) : List UInt8 := crypt E L nonce text ++ tag E M L nonce aad text

def decrypt (sealed : List UInt8) : Option (List UInt8) :=
  let text := crypt E L nonce (sealed.take (sealed.length - M))
  if sealed.drop (sealed.length - M) = tag E M L nonce aad text then some text else none

@[simp] theorem length_crypt (text : List UInt8) : (crypt E L nonce text).length = text.length :=
  List.length_mapIdx

theorem crypt_crypt (text : List UInt8) : crypt E L nonce (crypt E L nonce text) = text := by
  apply List.ext_getElem
  · simp
  · intro k _ _
    simp [crypt, UInt8.xor_assoc]

theorem length_tag (short : M ≤ 16) (text : List UInt8) : (tag E M L nonce aad text).length = M := by
  simp [tag, short]

theorem getD_crypt {text : List UInt8} {k : Nat} (inside : k < text.length) :
    (crypt E L nonce text).getD k 0 =
      text.getD k 0 ^^^ E (counterBlock L nonce (k / 16 + 1)) (Fin.ofNat 16 k) := by
  simp [crypt, List.getD_eq_getElem?_getD, inside]

theorem getD_tag (short : M ≤ 16) (text : List UInt8) {k : Nat} (inside : k < M) :
    (tag E M L nonce aad text).getD k 0 =
      mac E M L nonce aad text (Fin.ofNat 16 k) ^^^ E (counterBlock L nonce 0) (Fin.ofNat 16 k) := by
  have index : k < 16 := by omega
  have byte : (⟨k, index⟩ : Fin 16) = Fin.ofNat 16 k := Fin.ext (Nat.mod_eq_of_lt index).symm
  rw [tag, List.getD_eq_getElem?_getD, List.getElem?_take, if_pos inside, List.getElem?_ofFn,
    dif_pos index, Option.getD_some, Block.xor, byte]

theorem decrypt_encrypt (short : M ≤ 16) (text : List UInt8) :
    decrypt E M L nonce aad (encrypt E M L nonce aad text) = some text := by
  have length : (encrypt E M L nonce aad text).length - M = (crypt E L nonce text).length := by
    simp [encrypt, length_tag E M L nonce aad short]
  unfold decrypt
  rw [length, encrypt, List.take_left, List.drop_left, crypt_crypt, if_pos rfl]

theorem encrypt_of_decrypt {sealed text : List UInt8} (opened : decrypt E M L nonce aad sealed = some text) :
    sealed = encrypt E M L nonce aad text := by
  unfold decrypt at opened
  dsimp only at opened
  split at opened
  · rename_i same
    obtain rfl := Option.some.inj opened
    rw [encrypt, crypt_crypt, ← same, List.take_append_drop]
  · cases opened

end Mode

end Vmac.Theory.Ccm
