/-
# Vmac.Security.Rijndael -- the two AES ciphers of rtw_security.c

`aes128k128d`, which CCMP calls, goes byte by byte and makes each round key when it is
needed.  `rijndaelEncrypt`, which CMAC calls, looks up four columns in `Te0` for each column,
behind a key schedule that `rijndaelKeySetupEnc` makes in advance.

* `aes128k128d_eq`, `rijndaelEncrypt_eq`: each is AES.
* `ciphers_agree`: both, for every key and every block.
-/
import Vmac.Theory.Aes

namespace Vmac.Security.Rijndael

open Theory.Ccm Theory.Aes Theory.Bytes

set_option autoImplicit false

/-! ## aes128k128d -/

/-- `sbox_table`. -/
def sboxTable : List UInt8 := [
    0x63, 0x7c, 0x77, 0x7b, 0xf2, 0x6b, 0x6f, 0xc5, 0x30, 0x01, 0x67, 0x2b, 0xfe, 0xd7, 0xab, 0x76,
    0xca, 0x82, 0xc9, 0x7d, 0xfa, 0x59, 0x47, 0xf0, 0xad, 0xd4, 0xa2, 0xaf, 0x9c, 0xa4, 0x72, 0xc0,
    0xb7, 0xfd, 0x93, 0x26, 0x36, 0x3f, 0xf7, 0xcc, 0x34, 0xa5, 0xe5, 0xf1, 0x71, 0xd8, 0x31, 0x15,
    0x04, 0xc7, 0x23, 0xc3, 0x18, 0x96, 0x05, 0x9a, 0x07, 0x12, 0x80, 0xe2, 0xeb, 0x27, 0xb2, 0x75,
    0x09, 0x83, 0x2c, 0x1a, 0x1b, 0x6e, 0x5a, 0xa0, 0x52, 0x3b, 0xd6, 0xb3, 0x29, 0xe3, 0x2f, 0x84,
    0x53, 0xd1, 0x00, 0xed, 0x20, 0xfc, 0xb1, 0x5b, 0x6a, 0xcb, 0xbe, 0x39, 0x4a, 0x4c, 0x58, 0xcf,
    0xd0, 0xef, 0xaa, 0xfb, 0x43, 0x4d, 0x33, 0x85, 0x45, 0xf9, 0x02, 0x7f, 0x50, 0x3c, 0x9f, 0xa8,
    0x51, 0xa3, 0x40, 0x8f, 0x92, 0x9d, 0x38, 0xf5, 0xbc, 0xb6, 0xda, 0x21, 0x10, 0xff, 0xf3, 0xd2,
    0xcd, 0x0c, 0x13, 0xec, 0x5f, 0x97, 0x44, 0x17, 0xc4, 0xa7, 0x7e, 0x3d, 0x64, 0x5d, 0x19, 0x73,
    0x60, 0x81, 0x4f, 0xdc, 0x22, 0x2a, 0x90, 0x88, 0x46, 0xee, 0xb8, 0x14, 0xde, 0x5e, 0x0b, 0xdb,
    0xe0, 0x32, 0x3a, 0x0a, 0x49, 0x06, 0x24, 0x5c, 0xc2, 0xd3, 0xac, 0x62, 0x91, 0x95, 0xe4, 0x79,
    0xe7, 0xc8, 0x37, 0x6d, 0x8d, 0xd5, 0x4e, 0xa9, 0x6c, 0x56, 0xf4, 0xea, 0x65, 0x7a, 0xae, 0x08,
    0xba, 0x78, 0x25, 0x2e, 0x1c, 0xa6, 0xb4, 0xc6, 0xe8, 0xdd, 0x74, 0x1f, 0x4b, 0xbd, 0x8b, 0x8a,
    0x70, 0x3e, 0xb5, 0x66, 0x48, 0x03, 0xf6, 0x0e, 0x61, 0x35, 0x57, 0xb9, 0x86, 0xc1, 0x1d, 0x9e,
    0xe1, 0xf8, 0x98, 0x11, 0x69, 0xd9, 0x8e, 0x94, 0x9b, 0x1e, 0x87, 0xe9, 0xce, 0x55, 0x28, 0xdf,
    0x8c, 0xa1, 0x89, 0x0d, 0xbf, 0xe6, 0x42, 0x68, 0x41, 0x99, 0x2d, 0x0f, 0xb0, 0x54, 0xbb, 0x16]

/-- `sbox`. -/
def sbox (a : UInt8) : UInt8 := sboxTable.getD a.toNat 0

/-- `rcon_table`. -/
def rconTable : List UInt8 :=
  [0x01, 0x02, 0x04, 0x08, 0x10, 0x20, 0x40, 0x80, 0x1b, 0x36, 0x36, 0x36]

/-- `xor_32` on the bytes from `out` on. -/
def xor32 (a b : Nat → UInt8) (out : Nat) (key : Block) : Block := fun i =>
  if out ≤ i.val ∧ i.val < out + 4 then a (i - out) ^^^ b (i - out) else key i

/-- Four bytes of a block, from `start` on. -/
def part (b : Block) (start : Nat) : Nat → UInt8 := fun k => b (Fin.ofNat 16 (start + k))

/-- `next_key`. -/
def nextKey (key : Block) (round : Nat) : Block :=
  let sboxKey : Nat → UInt8 := fun k => [sbox (key 13), sbox (key 14), sbox (key 15), sbox (key 12)].getD k 0
  let rcon := rconTable.getD round 0
  let key := xor32 (part key 0) sboxKey 0 key
  let key : Block := fun i => if i = 0 then key 0 ^^^ rcon else key i
  let key := xor32 (part key 4) (part key 0) 4 key
  let key := xor32 (part key 8) (part key 4) 8 key
  xor32 (part key 12) (part key 8) 12 key

/-- `byte_sub`. -/
def byteSub (in_ : Block) : Block := fun i => sbox (in_ i)

/-- `shift_row`. -/
def shiftRow (in_ : Block) : Block := fun i =>
  in_ (([0, 5, 10, 15, 4, 9, 14, 3, 8, 13, 2, 7, 12, 1, 6, 11] : List (Fin 16)).getD i 0)

/-- `andf7`, shifted left by one bit across the four bytes from byte 3 down. -/
def shiftAndf7 (andf7 : Column) : Column := fun i =>
  if i = 0 then (andf7 0 <<< 1) &&& 0xfe
  else if andf7 (i - 1) &&& 0x80 = 0x80 then (andf7 i <<< 1) ||| 0x01 else andf7 i <<< 1

/-- `mix_column`. -/
def mixColumn (in_ : Column) : Column :=
  let add1b : Column := fun i => if in_ i &&& 0x80 = 0x80 then 0x1b else 0x00
  let swapHalfs : Column := fun i => in_ (i + 2)
  let rotl : Column := fun i => in_ (i + 3)
  let andf7 : Column := shiftAndf7 fun i => in_ i &&& 0x7f
  let add1bf7 := add1b.xor andf7
  let rotr := in_.xor add1bf7
  let rotr : Column := fun i => rotr (i + 1)
  let temp := add1bf7.xor rotr
  let tempb := swapHalfs.xor rotl
  temp.xor tempb

/-- The four calls of `mix_column`. -/
def mixEach (in_ : Block) : Block := ofColumns fun c => mixColumn (column in_ c)

/-- The loop of `aes128k128d` over `n` rounds from `round` on. -/
def aesRounds : Nat → Nat → Block → Block → Block
  | 0, _, _, ciphertext => ciphertext
  | n + 1, round, roundKey, ciphertext =>
      if round = 0 then aesRounds n (round + 1) (nextKey roundKey round) (roundKey.xor ciphertext)
      else if round = 10 then
        aesRounds n (round + 1) roundKey ((shiftRow (byteSub ciphertext)).xor roundKey)
      else aesRounds n (round + 1) (nextKey roundKey round)
        ((mixEach (shiftRow (byteSub ciphertext))).xor roundKey)

/-- `aes128k128d`; the first round reads `data` instead of `ciphertext`. -/
def aes128k128d (key data : Block) : Block := aesRounds 11 0 key data

/-! ## rijndaelEncrypt -/

/-- `Te0`. -/
def te0Table : List UInt32 := [
    0xc66363a5, 0xf87c7c84, 0xee777799, 0xf67b7b8d, 0xfff2f20d, 0xd66b6bbd, 0xde6f6fb1, 0x91c5c554,
    0x60303050, 0x02010103, 0xce6767a9, 0x562b2b7d, 0xe7fefe19, 0xb5d7d762, 0x4dababe6, 0xec76769a,
    0x8fcaca45, 0x1f82829d, 0x89c9c940, 0xfa7d7d87, 0xeffafa15, 0xb25959eb, 0x8e4747c9, 0xfbf0f00b,
    0x41adadec, 0xb3d4d467, 0x5fa2a2fd, 0x45afafea, 0x239c9cbf, 0x53a4a4f7, 0xe4727296, 0x9bc0c05b,
    0x75b7b7c2, 0xe1fdfd1c, 0x3d9393ae, 0x4c26266a, 0x6c36365a, 0x7e3f3f41, 0xf5f7f702, 0x83cccc4f,
    0x6834345c, 0x51a5a5f4, 0xd1e5e534, 0xf9f1f108, 0xe2717193, 0xabd8d873, 0x62313153, 0x2a15153f,
    0x0804040c, 0x95c7c752, 0x46232365, 0x9dc3c35e, 0x30181828, 0x379696a1, 0x0a05050f, 0x2f9a9ab5,
    0x0e070709, 0x24121236, 0x1b80809b, 0xdfe2e23d, 0xcdebeb26, 0x4e272769, 0x7fb2b2cd, 0xea75759f,
    0x1209091b, 0x1d83839e, 0x582c2c74, 0x341a1a2e, 0x361b1b2d, 0xdc6e6eb2, 0xb45a5aee, 0x5ba0a0fb,
    0xa45252f6, 0x763b3b4d, 0xb7d6d661, 0x7db3b3ce, 0x5229297b, 0xdde3e33e, 0x5e2f2f71, 0x13848497,
    0xa65353f5, 0xb9d1d168, 0x00000000, 0xc1eded2c, 0x40202060, 0xe3fcfc1f, 0x79b1b1c8, 0xb65b5bed,
    0xd46a6abe, 0x8dcbcb46, 0x67bebed9, 0x7239394b, 0x944a4ade, 0x984c4cd4, 0xb05858e8, 0x85cfcf4a,
    0xbbd0d06b, 0xc5efef2a, 0x4faaaae5, 0xedfbfb16, 0x864343c5, 0x9a4d4dd7, 0x66333355, 0x11858594,
    0x8a4545cf, 0xe9f9f910, 0x04020206, 0xfe7f7f81, 0xa05050f0, 0x783c3c44, 0x259f9fba, 0x4ba8a8e3,
    0xa25151f3, 0x5da3a3fe, 0x804040c0, 0x058f8f8a, 0x3f9292ad, 0x219d9dbc, 0x70383848, 0xf1f5f504,
    0x63bcbcdf, 0x77b6b6c1, 0xafdada75, 0x42212163, 0x20101030, 0xe5ffff1a, 0xfdf3f30e, 0xbfd2d26d,
    0x81cdcd4c, 0x180c0c14, 0x26131335, 0xc3ecec2f, 0xbe5f5fe1, 0x359797a2, 0x884444cc, 0x2e171739,
    0x93c4c457, 0x55a7a7f2, 0xfc7e7e82, 0x7a3d3d47, 0xc86464ac, 0xba5d5de7, 0x3219192b, 0xe6737395,
    0xc06060a0, 0x19818198, 0x9e4f4fd1, 0xa3dcdc7f, 0x44222266, 0x542a2a7e, 0x3b9090ab, 0x0b888883,
    0x8c4646ca, 0xc7eeee29, 0x6bb8b8d3, 0x2814143c, 0xa7dede79, 0xbc5e5ee2, 0x160b0b1d, 0xaddbdb76,
    0xdbe0e03b, 0x64323256, 0x743a3a4e, 0x140a0a1e, 0x924949db, 0x0c06060a, 0x4824246c, 0xb85c5ce4,
    0x9fc2c25d, 0xbdd3d36e, 0x43acacef, 0xc46262a6, 0x399191a8, 0x319595a4, 0xd3e4e437, 0xf279798b,
    0xd5e7e732, 0x8bc8c843, 0x6e373759, 0xda6d6db7, 0x018d8d8c, 0xb1d5d564, 0x9c4e4ed2, 0x49a9a9e0,
    0xd86c6cb4, 0xac5656fa, 0xf3f4f407, 0xcfeaea25, 0xca6565af, 0xf47a7a8e, 0x47aeaee9, 0x10080818,
    0x6fbabad5, 0xf0787888, 0x4a25256f, 0x5c2e2e72, 0x381c1c24, 0x57a6a6f1, 0x73b4b4c7, 0x97c6c651,
    0xcbe8e823, 0xa1dddd7c, 0xe874749c, 0x3e1f1f21, 0x964b4bdd, 0x61bdbddc, 0x0d8b8b86, 0x0f8a8a85,
    0xe0707090, 0x7c3e3e42, 0x71b5b5c4, 0xcc6666aa, 0x904848d8, 0x06030305, 0xf7f6f601, 0x1c0e0e12,
    0xc26161a3, 0x6a35355f, 0xae5757f9, 0x69b9b9d0, 0x17868691, 0x99c1c158, 0x3a1d1d27, 0x279e9eb9,
    0xd9e1e138, 0xebf8f813, 0x2b9898b3, 0x22111133, 0xd26969bb, 0xa9d9d970, 0x078e8e89, 0x339494a7,
    0x2d9b9bb6, 0x3c1e1e22, 0x15878792, 0xc9e9e920, 0x87cece49, 0xaa5555ff, 0x50282878, 0xa5dfdf7a,
    0x038c8c8f, 0x59a1a1f8, 0x09898980, 0x1a0d0d17, 0x65bfbfda, 0xd7e6e631, 0x844242c6, 0xd06868b8,
    0x824141c3, 0x299999b0, 0x5a2d2d77, 0x1e0f0f11, 0x7bb0b0cb, 0xa85454fc, 0x6dbbbbd6, 0x2c16163a]

/-- `rcons`. -/
def rcons : List UInt8 := [0x01, 0x02, 0x04, 0x08, 0x10, 0x20, 0x40, 0x80, 0x1b, 0x36]

/-- `Te0[i]`. -/
def te0At (i : UInt32) : UInt32 := te0Table.getD i.toNat 0

/-- `rotr`. -/
def rotr (val bits : UInt32) : UInt32 := (val >>> bits) ||| (val <<< (32 - bits))

/-- `TE0`. -/
def te0 (i : UInt32) : UInt32 := te0At ((i >>> 24) &&& 0xff)
/-- `TE1`. -/
def te1 (i : UInt32) : UInt32 := rotr (te0At ((i >>> 16) &&& 0xff)) 8
/-- `TE2`. -/
def te2 (i : UInt32) : UInt32 := rotr (te0At ((i >>> 8) &&& 0xff)) 16
/-- `TE3`. -/
def te3 (i : UInt32) : UInt32 := rotr (te0At (i &&& 0xff)) 24
/-- `TE41`. -/
def te41 (i : UInt32) : UInt32 := (te0At ((i >>> 24) &&& 0xff) <<< 8) &&& 0xff000000
/-- `TE42`. -/
def te42 (i : UInt32) : UInt32 := te0At ((i >>> 16) &&& 0xff) &&& 0x00ff0000
/-- `TE43`. -/
def te43 (i : UInt32) : UInt32 := te0At ((i >>> 8) &&& 0xff) &&& 0x0000ff00
/-- `TE44`. -/
def te44 (i : UInt32) : UInt32 := (te0At (i &&& 0xff) >>> 8) &&& 0x000000ff
/-- `TE421`. -/
def te421 (i : UInt32) : UInt32 := (te0At ((i >>> 16) &&& 0xff) <<< 8) &&& 0xff000000
/-- `TE432`. -/
def te432 (i : UInt32) : UInt32 := te0At ((i >>> 8) &&& 0xff) &&& 0x00ff0000
/-- `TE443`. -/
def te443 (i : UInt32) : UInt32 := te0At (i &&& 0xff) &&& 0x0000ff00
/-- `TE414`. -/
def te414 (i : UInt32) : UInt32 := (te0At ((i >>> 24) &&& 0xff) >>> 8) &&& 0x000000ff

/-- `RCON`. -/
def rconWord (i : Nat) : UInt32 := (rcons.getD i 0).toUInt32 <<< 24

/-- `GETU32`. -/
def getU32 (pt : Block) (p : Nat) : UInt32 :=
  ((part pt p 0).toUInt32 <<< 24) ^^^ ((part pt p 1).toUInt32 <<< 16) ^^^ ((part pt p 2).toUInt32 <<< 8) ^^^
    (part pt p 3).toUInt32

/-- Byte `k` as `PUTU32` writes it. -/
def putU32 (st : UInt32) : Column := fun k =>
  [(st >>> 24).toUInt8, (st >>> 16).toUInt8, (st >>> 8).toUInt8, st.toUInt8].getD k 0

/-- The key schedule `rk`. -/
abbrev Schedule := Nat → UInt32

def Schedule.write (rk : Schedule) (k : Nat) (w : UInt32) : Schedule := fun i => if i = k then w else rk i

/-- The body of the loop of `rijndaelKeySetupEnc`; `rk` has moved by `p` words. -/
def expandWords (i p : Nat) (rk : Schedule) : Schedule :=
  let temp := rk (p + 3)
  let rk := rk.write (p + 4)
    (rk p ^^^ te421 temp ^^^ te432 temp ^^^ te443 temp ^^^ te414 temp ^^^ rconWord i)
  let rk := rk.write (p + 5) (rk (p + 1) ^^^ rk (p + 4))
  let rk := rk.write (p + 6) (rk (p + 2) ^^^ rk (p + 5))
  rk.write (p + 7) (rk (p + 3) ^^^ rk (p + 6))

/-- The loop of `rijndaelKeySetupEnc`, `n` times from `i` on. -/
def expandKey : Nat → Nat → Nat → Schedule → Schedule
  | 0, _, _, rk => rk
  | n + 1, i, p, rk => expandKey n (i + 1) (p + 4) (expandWords i p rk)

/-- `rijndaelKeySetupEnc`, on a schedule of whatever was allocated. -/
def rijndaelKeySetupEnc (rk : Schedule) (cipherKey : Block) : Schedule :=
  let rk := rk.write 0 (getU32 cipherKey 0)
  let rk := rk.write 1 (getU32 cipherKey 4)
  let rk := rk.write 2 (getU32 cipherKey 8)
  let rk := rk.write 3 (getU32 cipherKey 12)
  expandKey 10 0 0 rk

/-- `s0` to `s3`, and `t0` to `t3`. -/
abbrev Words := Fin 4 → UInt32

/-- `ROUND(i, d, s)`; `rk` has moved by `p` words. -/
def roundWords (rk : Schedule) (p i : Nat) (s : Words) : Words := fun j =>
  te0 (s j) ^^^ te1 (s (j + 1)) ^^^ te2 (s (j + 2)) ^^^ te3 (s (j + 3)) ^^^ rk (p + (4 * i + j))

/-- The full rounds, and how far `rk` has moved: `r` is above zero when the loop starts. -/
def fullWords (rk : Schedule) : Nat → Nat → Words → Words × Nat
  | 0, p, s => (s, p)
  | r + 1, p, s =>
      let t := roundWords rk p 1 s
      let p := p + 8
      if r = 0 then (t, p) else fullWords rk r p (roundWords rk p 0 t)

/-- The last round. -/
def lastWords (rk : Schedule) (p : Nat) (t : Words) : Words := fun j =>
  te41 (t j) ^^^ te42 (t (j + 1)) ^^^ te43 (t (j + 2)) ^^^ te44 (t (j + 3)) ^^^ rk (p + j)

/-- `rijndaelEncrypt`. -/
def rijndaelEncrypt (rk : Schedule) (pt : Block) : Block :=
  let s : Words := fun j => getU32 pt (4 * j) ^^^ rk j
  let (t, p) := fullWords rk (10 / 2) 0 s
  let s := lastWords rk p t
  ofColumns fun c => putU32 (s (Fin.ofNat 4 c))

/-! ## aes128k128d is AES -/

/-- The tables, and the shifts of one byte, for each of the 256 bytes. -/
theorem byte_checked (a : UInt8) : sbox a = subByte a ∧
    (∀ r : Fin 4, putU32 (te0At a.toUInt32) r = mul ([2, 1, 1, 3].getD r 0) (sbox a)) ∧
    ((a &&& (0x7f : UInt8)) &&& (0x80 : UInt8) ≠ 0x80 ∧
      ((a &&& (0x7f : UInt8)) <<< (1 : UInt8)) &&& (0xfe : UInt8) = a <<< 1 ∧ (a &&& 0x7f) <<< 1 = a <<< 1) ∧
    ∀ r : Fin 4, putU32 (a.toUInt32 <<< 24) r = (if r = 0 then a else 0) ∧
      putU32 (a.toUInt32 <<< 16) r = (if r = 1 then a else 0) ∧
      putU32 (a.toUInt32 <<< 8) r = (if r = 2 then a else 0) ∧ putU32 a.toUInt32 r = if r = 3 then a else 0 := by
  revert a
  exact forall_byte (by decide +kernel)

theorem sbox_eq (a : UInt8) : sbox a = subByte a := (byte_checked a).1

theorem byteSub_eq (s : Block) : byteSub s = subBytes s := by
  funext i
  exact sbox_eq (s i)

theorem shiftRow_eq (s : Block) : shiftRow s = shiftRows s := by
  funext i
  have moved : ∀ i : Fin 16,
      ([0, 5, 10, 15, 4, 9, 14, 3, 8, 13, 2, 7, 12, 1, 6, 11] : List (Fin 16)).getD i 0 =
        Fin.ofNat 16 (i + 4 * (i % 4)) := by decide
  rw [shiftRow, moved]
  rfl

/-- No bit crosses from one byte to the next. -/
theorem shiftAndf7_eq (s : Column) (i : Fin 4) : shiftAndf7 (fun i => s i &&& 0x7f) i = s i <<< 1 := by
  have shifts (b : UInt8) := (byte_checked b).2.2.1
  have low : ∀ b : UInt8, (b &&& (0x7f : UInt8)) &&& (0x80 : UInt8) ≠ 0x80 := fun b => (shifts b).1
  have even : ∀ b : UInt8, ((b &&& (0x7f : UInt8)) <<< (1 : UInt8)) &&& (0xfe : UInt8) = b <<< 1 :=
    fun b => (shifts b).2.1
  have shifted : ∀ b : UInt8, (b &&& 0x7f) <<< 1 = b <<< 1 := fun b => (shifts b).2.2
  unfold shiftAndf7
  by_cases first : i = 0
  · rw [if_pos first, even, first]
  · rw [if_neg first, if_neg (low _), shifted]

theorem mixColumn_eq (s : Column) : mixColumn s = Theory.Aes.mixColumn s := by
  have double (i : Fin 4) :
      (if s i &&& (0x80 : UInt8) = 0x80 then (0x1b : UInt8) else 0x00) ^^^ shiftAndf7 (fun i => s i &&& 0x7f) i =
        mul 2 (s i) := by
    rw [shiftAndf7_eq, mul_two_left, UInt8.xor_comm]
  funext r
  rw [Theory.Aes.mixColumn_eq]
  simp only [mixColumn, Column.xor, double]
  rw [UInt8.xor_comm (s (r + 1)), ← UInt8.xor_assoc, UInt8.xor_assoc (_ ^^^ (_ ^^^ _)), UInt8.xor_assoc]

theorem mixEach_eq (s : Block) : mixEach s = mixColumns s := by
  unfold mixEach mixColumns
  simp only [mixColumn_eq]

/-- The round constants of both ciphers. -/
theorem rcon_checked : ∀ round < 10, rconTable.getD round 0 = rcon round ∧
    ∀ r : Fin 4, putU32 (rconWord round) r = if r = 0 then rcon round else 0 := by
  decide +kernel

theorem rconTable_eq {round : Nat} (inside : round < 10) : rconTable.getD round 0 = rcon round :=
  (rcon_checked round inside).1

theorem column_ofColumns (columns : Nat → Column) {c : Nat} (four : c < 4) :
    column (ofColumns columns) c = columns c := by
  funext r
  have value : (Fin.ofNat 16 (4 * c + r)).val = 4 * c + r := Nat.mod_eq_of_lt (by omega)
  have row : Fin.ofNat 4 (4 * c + r) = r := Fin.ext (by simp only [Fin.ofNat]; omega)
  rw [column, ofColumns, value, row, show (4 * c + r) / 4 = c by omega]

theorem ofColumns_column (s : Block) : ofColumns (column s) = s := by
  funext i
  have place : Fin.ofNat 16 (4 * (i.val / 4) + (Fin.ofNat 4 i.val).val) = i :=
    Fin.ext (by simp only [Fin.ofNat]; omega)
  rw [ofColumns, column, place]

theorem ofColumns_congr {f g : Nat → Column} (same : ∀ c < 4, f c = g c) : ofColumns f = ofColumns g := by
  funext i
  rw [ofColumns, ofColumns, same _ (by omega)]

theorem block_ext {s t : Block} (same : ∀ c < 4, column s c = column t c) : s = t := by
  rw [← ofColumns_column s, ← ofColumns_column t, ofColumns_congr same]

theorem column_xor32 (a b : Nat → UInt8) (c : Nat) (key : Block) {c' : Nat} (four' : c' < 4) :
    column (xor32 a b (4 * c) key) c' = fun r : Fin 4 => if c' = c then a r ^^^ b r else column key c' r := by
  funext r
  have value : (Fin.ofNat 16 (4 * c' + r)).val = 4 * c' + r := Nat.mod_eq_of_lt (by omega)
  rw [column, xor32, value]
  by_cases there : c' = c
  · rw [if_pos there, if_pos (by omega), there, Nat.add_sub_cancel_left]
  · rw [if_neg there, if_neg (by omega)]
    rfl

/-- The words of a key up to word `n` are those of the next one. -/
def Made (key : Block) (round n : Nat) (key' : Block) : Prop :=
  ∀ c < 4, column key' c = if c ≤ n then nextWords key round c else column key c

theorem Made.next {key : Block} {round n : Nat} {key' : Block} (made : Made key round n key') (three : n < 3) :
    Made key round (n + 1) (xor32 (part key' (4 * (n + 1))) (part key' (4 * n)) (4 * (n + 1)) key') := by
  intro c four
  rw [column_xor32 _ _ _ _ four]
  by_cases there : c = n + 1
  · have above : column key' (n + 1) = column key (n + 1) := by rw [made _ (by omega), if_neg (by omega)]
    have below : column key' n = nextWords key round n := by rw [made _ (by omega), if_pos (Nat.le_refl n)]
    rw [if_pos (Nat.le_of_eq there), there, nextWords, ← above, ← below]
    funext r
    exact if_pos rfl
  · funext r
    rw [if_neg there, made c four]
    by_cases low : c ≤ n
    · rw [if_pos low, if_pos (by omega)]
    · rw [if_neg low, if_neg (by omega)]

theorem made_first (key : Block) {round : Nat} (inside : round < 10) (sboxKey : Nat → UInt8)
    (rotated : ∀ r : Fin 4, sboxKey r = subRotWord (column key 3) r) :
    Made key round 0 (fun i =>
      if i = 0 then xor32 (part key 0) sboxKey 0 key 0 ^^^ rconTable.getD round 0
      else xor32 (part key 0) sboxKey 0 key i) := by
  intro c four
  have word := column_xor32 (part key 0) sboxKey 0 key four
  funext r
  have byte := congrFun word r
  have value : (Fin.ofNat 16 (4 * c + r)).val = 4 * c + r := Nat.mod_eq_of_lt (by omega)
  rw [column] at byte ⊢
  by_cases first : c = 0
  · subst first
    rw [if_pos rfl, rotated] at byte
    rw [if_pos (Nat.le_refl 0), nextWords, Column.xor, Column.xor, rconTable_eq inside]
    by_cases top : r = 0
    · subst top
      rw [if_pos (by rfl), if_pos rfl]
      exact congrArg (· ^^^ rcon round) byte
    · have other : Fin.ofNat 16 (4 * 0 + r.val) ≠ 0 := fun same =>
        top (Fin.ext (by rw [same] at value; simpa using value.symm))
      rw [if_neg other, if_neg top, UInt8.xor_zero]
      exact byte
  · have other : Fin.ofNat 16 (4 * c + r.val) ≠ 0 := fun same => by
      rw [same] at value
      exact first (by simp at value; omega)
    rw [if_neg first] at byte
    rw [if_neg other, if_neg (by omega)]
    exact byte

theorem nextKey_eq (key : Block) {round : Nat} (inside : round < 10) :
    nextKey key round = nextRoundKey key round := by
  let sboxKey : Nat → UInt8 := fun k => [sbox (key 13), sbox (key 14), sbox (key 15), sbox (key 12)].getD k 0
  have rotated : ∀ r : Fin 4, sboxKey r = subRotWord (column key 3) r := by
    intro r
    rw [subRotWord, ← sbox_eq]
    match r with
    | 0 | 1 | 2 | 3 => rfl
  have made := (((made_first key inside sboxKey rotated).next (by decide)).next (by decide)).next (by decide)
  refine block_ext fun c four => ?_
  rw [nextRoundKey, column_ofColumns _ four]
  have last := made c four
  rw [if_pos (by omega)] at last
  exact last

/-- From round `n` on to the last one. -/
theorem aesRounds_eq (key data : Block) : ∀ left, left < 10 →
    aesRounds (left + 1) (10 - left) (roundKey key (10 - left)) (fullRounds key data (9 - left)) = cipher key data
  | 0, _ => by
      rw [aesRounds, if_neg (by decide), if_pos (by decide), byteSub_eq, shiftRow_eq]
      rfl
  | left + 1, inside => by
      have inner : 10 - (left + 1) < 10 := by omega
      have keyed := nextKey_eq (roundKey key (10 - (left + 1))) inner
      have below : 9 - left = 9 - (left + 1) + 1 := by omega
      have next : 10 - (left + 1) = 9 - (left + 1) + 1 := by omega
      have above : 10 - left = 10 - (left + 1) + 1 := by omega
      rw [aesRounds, if_neg (by omega), if_neg (by omega), keyed, byteSub_eq, shiftRow_eq, mixEach_eq,
        ← aesRounds_eq key data left (by omega), above, below, fullRounds, next]
      rfl

theorem aes128k128d_eq (key data : Block) : aes128k128d key data = cipher key data := by
  have rounds := aesRounds_eq key data 9 (by decide)
  have first : key.xor data = fullRounds key data 0 := by
    funext i
    exact UInt8.xor_comm ..
  rw [aes128k128d, aesRounds, if_pos rfl, nextKey_eq key (by decide), first]
  exact rounds

/-! ## rijndaelEncrypt is AES -/

/-- Bit `i` of byte `k`. -/
theorem putU32_bit (w : UInt32) (k : Fin 4) {i : Nat} (inside : i < 8) :
    (putU32 w k).toBitVec.getLsbD i = w.toBitVec.getLsbD (8 * (3 - k) + i) := by
  match k with
  | ⟨0, _⟩ | ⟨1, _⟩ | ⟨2, _⟩ | ⟨3, _⟩ => simp [putU32, inside]

theorem byte_ext {a b : UInt8} (same : ∀ i < 8, a.toBitVec.getLsbD i = b.toBitVec.getLsbD i) : a = b :=
  UInt8.toBitVec_inj.mp (BitVec.eq_of_getLsbD_eq same)

theorem putU32_xor (a b : UInt32) : putU32 (a ^^^ b) = (putU32 a).xor (putU32 b) := by
  funext k
  refine byte_ext fun i inside => ?_
  rw [putU32_bit _ _ inside, UInt32.toBitVec_xor, BitVec.getLsbD_xor, Column.xor, UInt8.toBitVec_xor,
    BitVec.getLsbD_xor, putU32_bit _ _ inside, putU32_bit _ _ inside]

/-- Rotating by whole bytes moves the bytes. -/
theorem putU32_rotate {w w' : UInt32} {n : Nat} (three : n < 4)
    (rotated : w'.toBitVec = w.toBitVec.rotateRight (8 * n)) {r k : Fin 4} (moved : (k.val + n) % 4 = r) : putU32 w' r = putU32 w k := by
  refine byte_ext fun i inside => ?_
  rw [putU32_bit _ _ inside, putU32_bit _ _ inside, rotated, BitVec.getLsbD_rotateRight, Nat.mod_eq_of_lt (by omega)]
  by_cases low : 8 * (3 - r.val) + i < 32 - 8 * n
  · rw [decide_eq_true low, cond_true]
    congr 1
    omega
  · rw [decide_eq_false low, cond_false, decide_eq_true (by omega), Bool.true_and]
    congr 1
    omega

theorem putU32_rotr (w : UInt32) (r : Fin 4) :
    putU32 (rotr w 8) r = putU32 w (r + 3) ∧ putU32 (rotr w 16) r = putU32 w (r + 2) ∧
      putU32 (rotr w 24) r = putU32 w (r + 1) := by
  refine ⟨putU32_rotate (n := 1) (by decide) rfl ?_, putU32_rotate (n := 2) (by decide) rfl ?_,
    putU32_rotate (n := 3) (by decide) rfl ?_⟩
  all_goals
    simp only [Fin.val_add]
    omega

/-- A mask of eight bits keeps byte `r`. -/
theorem putU32_mask (w : UInt32) {mask : UInt32} {r : Fin 4}
    (bits : ∀ k : Fin 4, ∀ i < 8, mask.toBitVec.getLsbD (8 * (3 - k) + i) = decide (k = r)) (k : Fin 4) :
    putU32 (w &&& mask) k = if k = r then putU32 w k else 0 := by
  refine byte_ext fun i inside => ?_
  rw [putU32_bit _ _ inside, UInt32.toBitVec_and, BitVec.getLsbD_and, bits k i inside]
  by_cases there : k = r
  · rw [if_pos there, decide_eq_true there, Bool.and_true, putU32_bit _ _ inside]
  · rw [if_neg there, decide_eq_false there, Bool.and_false]
    exact BitVec.getLsbD_zero.symm

theorem putU32_shiftLeft (w : UInt32) : putU32 (w <<< 8) 0 = putU32 w 1 := by
  refine byte_ext fun i inside => ?_
  rw [putU32_bit _ _ inside, putU32_bit _ _ inside, UInt32.toBitVec_shiftLeft]
  show (w.toBitVec <<< 8).getLsbD (24 + i) = w.toBitVec.getLsbD (16 + i)
  rw [BitVec.getLsbD_shiftLeft, decide_eq_true (by omega), decide_eq_false (by omega)]
  simp only [Bool.true_and, Bool.not_false]
  congr 1
  omega

theorem putU32_shiftRight (w : UInt32) : putU32 (w >>> 8) 3 = putU32 w 2 := by
  refine byte_ext fun i inside => ?_
  rw [putU32_bit _ _ inside, putU32_bit _ _ inside, UInt32.toBitVec_shiftRight]
  show (w.toBitVec >>> 8).getLsbD (0 + i) = w.toBitVec.getLsbD (8 + i)
  rw [BitVec.getLsbD_ushiftRight, Nat.zero_add]

/-- The index into `Te0`. -/
theorem byte_index (w : UInt32) : (w >>> 24) &&& 0xff = (putU32 w 0).toUInt32 ∧
    (w >>> 16) &&& 0xff = (putU32 w 1).toUInt32 ∧ (w >>> 8) &&& 0xff = (putU32 w 2).toUInt32 ∧
    w &&& 0xff = (putU32 w 3).toUInt32 := by
  have low (v : UInt32) : v &&& 0xff = v.toUInt8.toUInt32 := by
    apply UInt32.toNat_inj.mp
    rw [UInt32.toNat_and, UInt8.toNat_toUInt32, UInt32.toNat_toUInt8]
    exact Nat.and_two_pow_sub_one_eq_mod v.toNat 8
  exact ⟨low _, low _, low _, low _⟩

/-- A column of the table: what a byte of a column adds to the four bytes of the mixed column. -/
def te0Column (a : UInt8) : Column := fun r => mul ([2, 1, 1, 3].getD r 0) (subByte a)

theorem putU32_te0At (a : UInt8) : putU32 (te0At a.toUInt32) = te0Column a := by
  funext r
  rw [(byte_checked a).2.1, sbox_eq, te0Column]

/-- A byte that is shifted to its place. -/
theorem putU32_placed (a : UInt8) (r : Fin 4) :
    putU32 (a.toUInt32 <<< 24) r = (if r = 0 then a else 0) ∧
      putU32 (a.toUInt32 <<< 16) r = (if r = 1 then a else 0) ∧
      putU32 (a.toUInt32 <<< 8) r = (if r = 2 then a else 0) ∧ putU32 a.toUInt32 r = if r = 3 then a else 0 :=
  (byte_checked a).2.2.2 r

theorem putU32_getU32 (pt : Block) (c : Nat) : putU32 (getU32 pt (4 * c)) = column pt c := by
  funext r
  rw [getU32, putU32_xor, putU32_xor, putU32_xor]
  simp only [Column.xor, (putU32_placed _ r).1, (putU32_placed _ r).2.1, (putU32_placed _ r).2.2.1,
    (putU32_placed _ r).2.2.2]
  match r with
  | ⟨0, _⟩ | ⟨1, _⟩ | ⟨2, _⟩ | ⟨3, _⟩ => simp [part, column]

section Lookups

variable (i : UInt32) (r : Fin 4)

theorem putU32_te0 : putU32 (te0 i) r = te0Column (putU32 i 0) r := by
  rw [te0, (byte_index i).1, putU32_te0At]

theorem putU32_te1 : putU32 (te1 i) r = te0Column (putU32 i 1) (r + 3) := by
  rw [te1, (byte_index i).2.1, (putU32_rotr _ r).1, putU32_te0At]

theorem putU32_te2 : putU32 (te2 i) r = te0Column (putU32 i 2) (r + 2) := by
  rw [te2, (byte_index i).2.2.1, (putU32_rotr _ r).2.1, putU32_te0At]

theorem putU32_te3 : putU32 (te3 i) r = te0Column (putU32 i 3) (r + 1) := by
  rw [te3, (byte_index i).2.2.2, (putU32_rotr _ r).2.2, putU32_te0At]

variable (a : UInt8)

/-- The masked entries: the substituted byte at one of the four places. -/
theorem putU32_only (r : Fin 4) :
    putU32 ((te0At a.toUInt32 <<< 8) &&& 0xff000000) r = (if r = 0 then subByte a else 0) ∧
      putU32 (te0At a.toUInt32 &&& 0x00ff0000) r = (if r = 1 then subByte a else 0) ∧
      putU32 (te0At a.toUInt32 &&& 0x0000ff00) r = (if r = 2 then subByte a else 0) ∧
      putU32 ((te0At a.toUInt32 >>> 8) &&& 0x000000ff) r = if r = 3 then subByte a else 0 := by
  have middle : te0Column a 1 = subByte a ∧ te0Column a 2 = subByte a := ⟨mul_one_left _, mul_one_left _⟩
  refine ⟨?_, ?_, ?_, ?_⟩
  · rw [putU32_mask (r := 0) _ (by decide)]
    refine ite_congr rfl (fun there => ?_) fun _ => rfl
    rw [there, putU32_shiftLeft, putU32_te0At, middle.1]
  · rw [putU32_mask (r := 1) _ (by decide)]
    refine ite_congr rfl (fun there => ?_) fun _ => rfl
    rw [there, putU32_te0At, middle.1]
  · rw [putU32_mask (r := 2) _ (by decide)]
    refine ite_congr rfl (fun there => ?_) fun _ => rfl
    rw [there, putU32_te0At, middle.2]
  · rw [putU32_mask (r := 3) _ (by decide)]
    refine ite_congr rfl (fun there => ?_) fun _ => rfl
    rw [there, putU32_shiftRight, putU32_te0At, middle.2]

end Lookups

/-- The state of four words. -/
def ofWords (s : Words) : Block := ofColumns fun c => putU32 (s (Fin.ofNat 4 c))

theorem te0Column_eq (a : UInt8) : te0Column a 0 = mul 2 (subByte a) ∧ te0Column a 1 = subByte a ∧
    te0Column a 2 = subByte a ∧ te0Column a 3 = mul 3 (subByte a) :=
  ⟨rfl, mul_one_left _, mul_one_left _, rfl⟩

/-- The four rows, one by one. -/
theorem forall_row {P : Fin 4 → Prop} (zero : P 0) (one : P 1) (two : P 2) (three : P 3) (r : Fin 4) : P r := by
  obtain ⟨i, inside⟩ := r
  rcases i with _ | _ | _ | _ | i
  · exact zero
  · exact one
  · exact two
  · exact three
  · omega

/-- The columns of the table, each from its own row on, add up to the mixed column. -/
theorem te0Columns_mix (w : Column) (r : Fin 4) :
    te0Column (w 0) r ^^^ te0Column (w 1) (r + 3) ^^^ te0Column (w 2) (r + 2) ^^^ te0Column (w 3) (r + 1) =
      Theory.Aes.mixColumn (fun k => subByte (w k)) r := by
  have one (a : UInt8) : mul 1 a = a := mul_one_left a
  have rows (a : UInt8) := te0Column_eq a
  rw [Theory.Aes.mixColumn, one, one]
  revert r
  refine forall_row ?_ ?_ ?_ ?_
  · show te0Column _ 0 ^^^ te0Column _ 3 ^^^ te0Column _ 2 ^^^ te0Column _ 1 = _
    rw [(rows _).1, (rows _).2.1, (rows _).2.2.1, (rows _).2.2.2]
    rfl
  · show te0Column _ 1 ^^^ te0Column _ 0 ^^^ te0Column _ 3 ^^^ te0Column _ 2 =
      mul 2 (subByte (w 1)) ^^^ mul 3 (subByte (w 2)) ^^^ subByte (w 3) ^^^ subByte (w 0)
    rw [(rows _).1, (rows _).2.1, (rows _).2.2.1, (rows _).2.2.2]
    ac_rfl
  · show te0Column _ 2 ^^^ te0Column _ 1 ^^^ te0Column _ 0 ^^^ te0Column _ 3 =
      mul 2 (subByte (w 2)) ^^^ mul 3 (subByte (w 3)) ^^^ subByte (w 0) ^^^ subByte (w 1)
    rw [(rows _).1, (rows _).2.1, (rows _).2.2.1, (rows _).2.2.2]
    ac_rfl
  · show te0Column _ 3 ^^^ te0Column _ 2 ^^^ te0Column _ 1 ^^^ te0Column _ 0 =
      mul 2 (subByte (w 3)) ^^^ mul 3 (subByte (w 0)) ^^^ subByte (w 1) ^^^ subByte (w 2)
    rw [(rows _).1, (rows _).2.1, (rows _).2.2.1, (rows _).2.2.2]
    ac_rfl

theorem column_ofWords (s : Words) (j : Fin 4) : column (ofWords s) j = putU32 (s j) := by
  rw [ofWords, column_ofColumns _ j.isLt]
  congr 2
  exact Fin.ext (Nat.mod_eq_of_lt j.isLt)

theorem ofWords_ext {b : Block} {s : Words} (same : ∀ j : Fin 4, column b j = putU32 (s j)) : b = ofWords s := by
  refine block_ext fun c four => ?_
  have there := same ⟨c, four⟩
  rw [← column_ofWords] at there
  exact there

theorem column_xor (a b : Block) (c : Nat) : column (a.xor b) c = (column a c).xor (column b c) := rfl

/-- A column behind `subBytes` and `shiftRows`. -/
theorem shifted_column (s : Words) (j r : Fin 4) :
    column (shiftRows (subBytes (ofWords s))) j r = subByte (putU32 (s (j + r)) r) := by
  have moved : ∀ j r : Fin 4,
      let i := Fin.ofNat 16 (4 * j + r)
      Fin.ofNat 4 ((Fin.ofNat 16 (i + 4 * (i % 4))).val / 4) = j + r ∧
        Fin.ofNat 4 (Fin.ofNat 16 (i + 4 * (i % 4))).val = r := by decide
  rw [column, shiftRows, subBytes, ofWords, ofColumns, (moved j r).1, (moved j r).2]

/-- A round key in the schedule. -/
def keyWords (rk : Schedule) (p : Nat) : Words := fun j => rk (p + j)

theorem ofWords_round (rk : Schedule) (p i : Nat) (s : Words) :
    ofWords (roundWords rk p i s) =
      (mixColumns (shiftRows (subBytes (ofWords s)))).xor (ofWords (keyWords rk (p + 4 * i))) := by
  refine (ofWords_ext fun j => ?_).symm
  rw [column_xor, column_ofWords, mixColumns, column_ofColumns _ j.isLt, roundWords, putU32_xor, keyWords,
    Nat.add_assoc]
  congr 1
  funext r
  rw [funext (shifted_column s j), ← te0Columns_mix, Fin.add_zero]
  simp only [putU32_xor, Column.xor, putU32_te0, putU32_te1, putU32_te2, putU32_te3]

/-- The masked entries add up to the four substituted bytes. -/
theorem only_add (a : Column) :
    putU32 (((te0At (a 0).toUInt32 <<< (8 : UInt32)) &&& (0xff000000 : UInt32)) ^^^
      (te0At (a 1).toUInt32 &&& (0x00ff0000 : UInt32)) ^^^ (te0At (a 2).toUInt32 &&& (0x0000ff00 : UInt32)) ^^^
      ((te0At (a 3).toUInt32 >>> (8 : UInt32)) &&& (0x000000ff : UInt32))) = fun r => subByte (a r) := by
  funext r
  simp only [putU32_xor, Column.xor, (putU32_only _ r).1, (putU32_only _ r).2.1, (putU32_only _ r).2.2.1,
    (putU32_only _ r).2.2.2]
  match r with
  | ⟨0, _⟩ | ⟨1, _⟩ | ⟨2, _⟩ | ⟨3, _⟩ => simp

theorem ofWords_last (rk : Schedule) (p : Nat) (s : Words) :
    ofWords (lastWords rk p s) = (shiftRows (subBytes (ofWords s))).xor (ofWords (keyWords rk p)) := by
  refine (ofWords_ext fun j => ?_).symm
  have lookups := only_add fun r => putU32 (s (j + r)) r
  rw [column_xor, column_ofWords, lastWords, putU32_xor, keyWords, funext (shifted_column s j), ← lookups,
    te41, te42, te43, te44, (byte_index (s j)).1, (byte_index (s (j + 1))).2.1, (byte_index (s (j + 2))).2.2.1,
    (byte_index (s (j + 3))).2.2.2, Fin.add_zero]

/-! ## The key schedule -/

/-- The words that the loop has made. -/
def Expanded (key : Block) (n : Nat) (rk : Schedule) : Prop :=
  ∀ m ≤ n, ofWords (keyWords rk (4 * m)) = roundKey key m

theorem putU32_rconWord {i : Nat} (inside : i < 10) (r : Fin 4) : putU32 (rconWord i) r = if r = 0 then rcon i else 0 :=
  (rcon_checked i inside).2 r

/-- `SubWord` of `RotWord`, with the round constant. -/
theorem putU32_first (w temp : UInt32) {i : Nat} (inside : i < 10) :
    putU32 (w ^^^ te421 temp ^^^ te432 temp ^^^ te443 temp ^^^ te414 temp ^^^ rconWord i) =
      ((putU32 w).xor (subRotWord (putU32 temp))).xor fun r => if r = 0 then rcon i else 0 := by
  have lookups := only_add fun r => putU32 temp (r + 1)
  have regroup : w ^^^ te421 temp ^^^ te432 temp ^^^ te443 temp ^^^ te414 temp =
      w ^^^ (te421 temp ^^^ te432 temp ^^^ te443 temp ^^^ te414 temp) := by
    simp only [UInt32.xor_assoc]
  rw [regroup, putU32_xor, putU32_xor, funext (putU32_rconWord inside), te421, te432, te443, te414,
    (byte_index _).1, (byte_index _).2.1, (byte_index _).2.2.1, (byte_index _).2.2.2]
  exact congrArg (fun c => ((putU32 w).xor c).xor fun r : Fin 4 => if r = 0 then rcon i else 0) lookups

theorem expandWords_below (i p : Nat) (rk : Schedule) {k : Nat} (below : k < p + 4) :
    expandWords i p rk k = rk k := by
  unfold expandWords
  simp only [Schedule.write]
  rw [if_neg (by omega), if_neg (by omega), if_neg (by omega), if_neg (by omega)]

/-- The words of the next round key. -/
theorem expandWords_words (key : Block) {i : Nat} (inside : i < 10) (rk : Schedule)
    (made : ofWords (keyWords rk (4 * i)) = roundKey key i) (j : Nat) (four : j < 4) :
    putU32 (expandWords i (4 * i) rk (4 * i + 4 + j)) = nextWords (roundKey key i) i j := by
  have words (j : Fin 4) : putU32 (rk (4 * i + j)) = column (roundKey key i) j := by
    rw [← made, column_ofWords, keyWords]
  induction j with
  | zero =>
      have first : expandWords i (4 * i) rk (4 * i + 4 + 0) = rk (4 * i) ^^^ te421 (rk (4 * i + 3)) ^^^
          te432 (rk (4 * i + 3)) ^^^ te443 (rk (4 * i + 3)) ^^^ te414 (rk (4 * i + 3)) ^^^ rconWord i := by
        unfold expandWords
        simp only [Schedule.write]
        rw [if_neg (by omega), if_neg (by omega), if_neg (by omega), if_pos trivial]
      rw [first, putU32_first _ _ inside, nextWords]
      exact congrArg₂ (fun a b => (Column.xor a (subRotWord b)).xor _) (words 0) (words 3)
  | succ j ih =>
      have next : expandWords i (4 * i) rk (4 * i + 4 + (j + 1)) =
          rk (4 * i + (j + 1)) ^^^ expandWords i (4 * i) rk (4 * i + 4 + j) := by
        obtain rfl | rfl | rfl : j = 0 ∨ j = 1 ∨ j = 2 := by omega
        all_goals simp [expandWords, Schedule.write]
      rw [next, putU32_xor, ih (by omega), nextWords]
      exact congrArg (Column.xor · _) (words ⟨j + 1, four⟩)

theorem Expanded.next {key : Block} {i : Nat} {rk : Schedule} (expanded : Expanded key i rk) (inside : i < 10) :
    Expanded key (i + 1) (expandWords i (4 * i) rk) := by
  intro m le
  by_cases old : m ≤ i
  · rw [← expanded m old]
    congr 1
    funext j
    exact expandWords_below i (4 * i) rk (by omega)
  · have new : m = i + 1 := by omega
    subst new
    rw [roundKey, nextRoundKey]
    refine (ofWords_ext fun j => ?_).symm
    rw [column_ofColumns _ j.isLt, keyWords, ← expandWords_words key inside rk (expanded i (Nat.le_refl i)) j j.isLt]
    rfl

theorem expandKey_expanded (key : Block) : ∀ n i (rk : Schedule), i + n ≤ 10 → Expanded key i rk →
    Expanded key (i + n) (expandKey n i (4 * i) rk)
  | 0, _, _, _, expanded => expanded
  | n + 1, i, rk, le, expanded => by
      have further := expandKey_expanded key n (i + 1) _ (by omega) (expanded.next (by omega))
      rw [expandKey, show i + (n + 1) = i + 1 + n by omega]
      exact further

theorem keySetup_expanded (rk : Schedule) (key : Block) : Expanded key 10 (rijndaelKeySetupEnc rk key) := by
  refine expandKey_expanded key 10 0 _ (by decide) ?_
  intro m le
  obtain rfl : m = 0 := by omega
  refine (ofWords_ext fun j => ?_).symm
  rw [roundKey, ← putU32_getU32]
  match j with
  | 0 | 1 | 2 | 3 => rfl

/-! ## The rounds -/

theorem fullWords_eq {key : Block} {rk : Schedule} (expanded : Expanded key 10 rk) (data : Block) :
    ∀ left (s : Words), left < 5 → ofWords s = fullRounds key data (8 - 2 * left) →
      ofWords (fullWords rk (left + 1) (4 * (8 - 2 * left)) s).1 = fullRounds key data 9 ∧
        (fullWords rk (left + 1) (4 * (8 - 2 * left)) s).2 = 40
  | 0, s, _, state => by
      rw [fullWords, if_pos rfl]
      refine ⟨?_, rfl⟩
      rw [ofWords_round, state]
      exact congrArg (Block.xor (mixColumns (shiftRows (subBytes (fullRounds key data 8))))) (expanded 9 (by decide))
  | left + 1, s, inside, state => by
      rw [fullWords, if_neg (by omega)]
      have p : 4 * (8 - 2 * (left + 1)) + 8 = 4 * (8 - 2 * left) := by omega
      have step : 8 - 2 * left = 8 - 2 * (left + 1) + 1 + 1 := by omega
      rw [p]
      refine fullWords_eq expanded data left _ (by omega) ?_
      rw [ofWords_round, ofWords_round, state, Nat.mul_zero, Nat.add_zero, Nat.mul_one, step, fullRounds, fullRounds,
        ← expanded (8 - 2 * (left + 1) + 1) (by omega), ← expanded (8 - 2 * (left + 1) + 1 + 1) (by omega)]
      rfl

theorem rijndaelEncrypt_eq (rk : Schedule) (key data : Block) :
    rijndaelEncrypt (rijndaelKeySetupEnc rk key) data = cipher key data := by
  have expanded := keySetup_expanded rk key
  have first : ofWords (fun j => getU32 data (4 * j) ^^^ rijndaelKeySetupEnc rk key j) = fullRounds key data 0 := by
    refine (ofWords_ext fun j => ?_).symm
    rw [putU32_xor, putU32_getU32, fullRounds, column_xor, ← expanded 0 (by decide), column_ofWords, keyWords,
      Nat.mul_zero, Nat.zero_add]
  obtain ⟨state, moved⟩ := fullWords_eq expanded data 4 _ (by decide) first
  have last := ofWords_last (rijndaelKeySetupEnc rk key) 40
    (fullWords (rijndaelKeySetupEnc rk key) 5 0 fun j => getU32 data (4 * j) ^^^ rijndaelKeySetupEnc rk key j).1
  have key10 : ofWords (keyWords (rijndaelKeySetupEnc rk key) 40) = roundKey key 10 := expanded 10 (by decide)
  have state' : ofWords (fullWords (rijndaelKeySetupEnc rk key) 5 0 fun j =>
      getU32 data (4 * j) ^^^ rijndaelKeySetupEnc rk key j).1 = fullRounds key data 9 := state
  rw [state', key10] at last
  rw [cipher, ← last, ← moved]
  rfl

/-- Both ciphers are AES. -/
theorem ciphers_agree (rk : Schedule) (key data : Block) :
    aes128k128d key data = cipher key data ∧ rijndaelEncrypt (rijndaelKeySetupEnc rk key) data = cipher key data :=
  ⟨aes128k128d_eq key data, rijndaelEncrypt_eq rk key data⟩

end Vmac.Security.Rijndael
