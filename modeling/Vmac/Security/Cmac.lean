/-
# Vmac.Security.Cmac -- AES-CMAC over a vector of elements: rtw_security.c

`omac1_aes_128_vector` walks the bytes of several data areas as if they were one, and
chains them in place.

* `omac1Aes128Vector_eq`: the tag is that of the areas put together, if no area in front of
  another byte is empty.
-/
import Vmac.Theory.Cmac
import Vmac.Security.Rijndael
import Vmac.Security.Ccmp

namespace Vmac.Security.Cmac

open Theory.Ccm Theory.Cmac Rijndael

set_option autoImplicit false

/-- `gf_mulx`: byte `i` is written before byte `i + 1`. -/
def gfMulx (pad : Block) : Block :=
  let carry := pad 0 &&& 0x80
  let pad : Block := fun i => if i = 15 then pad 15 <<< 1 else (pad i <<< 1) ||| (pad (i + 1) >>> 7)
  fun i => if i = 15 ∧ carry ≠ 0 then pad 15 ^^^ 0x87 else pad i

/-- `e`, `pos` and `end`. -/
structure Cursor where
  e : Nat
  pos : Nat
  stop : Nat
  deriving DecidableEq, Repr

section Vector

variable (ctx : Schedule) (mem : Mem) (addr len : Nat → Nat)

/-- `pos` behind a byte. -/
def Cursor.next (c : Cursor) : Cursor :=
  if c.stop ≤ c.pos + 1 then
    let e := c.e + 1
    ⟨e, addr e, addr e + len e⟩
  else { c with pos := c.pos + 1 }

/-- The loop that adds `n` bytes to `cbc` from byte `i` on. -/
def xorBytes : Nat → Nat → Cursor → Block → Cursor × Block
  | 0, _, c, cbc => (c, cbc)
  | n + 1, i, c, cbc =>
      xorBytes n (i + 1) (c.next addr len) fun k => if k.val = i then cbc k ^^^ mem c.pos else cbc k

/-- The loop over whole blocks. -/
def wholeBlocks (left : Nat) (c : Cursor) (cbc : Block) : Nat × Cursor × Block :=
  if 16 ≤ left then
    let (c, cbc) := xorBytes mem addr len 16 0 c cbc
    let cbc := if 16 < left then rijndaelEncrypt ctx cbc else cbc
    wholeBlocks (left - 16) c cbc
  else (left, c, cbc)
termination_by left

/-- `omac1_aes_128_vector` behind that loop. -/
def lastPart (totalLen left : Nat) (c : Cursor) (cbc : Block) : Block :=
  let pad := gfMulx (rijndaelEncrypt ctx fun _ => 0)
  if left ≠ 0 ∨ totalLen = 0 then
    let (_, cbc) := xorBytes mem addr len left 0 c cbc
    let cbc : Block := fun k => if k.val = left then cbc k ^^^ 0x80 else cbc k
    let pad := gfMulx pad
    rijndaelEncrypt ctx (pad.xor cbc)
  else rijndaelEncrypt ctx (pad.xor cbc)

/-- `omac1_aes_128_vector`; `rk` is what `rtw_malloc` gives. -/
def omac1Aes128Vector (rk : Option Schedule) (key : Block) (numElem : Nat) : Option Block :=
  match rk with
  | none => none
  | some rk =>
      let ctx := rijndaelKeySetupEnc rk key
      let totalLen := (List.range numElem).foldl (fun totalLen e => totalLen + len e) 0
      let (left, c, cbc) := wholeBlocks ctx mem addr len totalLen ⟨0, addr 0, addr 0 + len 0⟩ fun _ => 0
      some (lastPart ctx mem addr len totalLen left c cbc)

/-- `omac1_aes_128`: one element; `addr` and `len` are what stands behind the two variables. -/
def omac1Aes128 (rk : Option Schedule) (key : Block) (data dataLen : Nat) : Option Block :=
  omac1Aes128Vector mem (fun e => if e = 0 then data else addr e) (fun e => if e = 0 then dataLen else len e) rk key 1

end Vector

theorem gfMulx_eq (pad : Block) : gfMulx pad = double pad := by
  rw [double_eq]
  funext i
  simp only [gfMulx, doubleBytes]
  by_cases last : i = 15
  · subst last
    rw [if_pos rfl, if_pos rfl]
    by_cases clear : pad 0 &&& 0x80 = 0
    · rw [if_neg fun no => no.2 clear, if_pos clear, UInt8.xor_zero]
    · rw [if_pos ⟨rfl, clear⟩, if_neg clear, if_pos trivial]
  · rw [if_neg fun no => last no.1, if_neg last, if_neg last]

/-! ## The areas as one text -/

section Text

variable (mem : Mem) (addr len : Nat → Nat)

/-- The bytes of `n` areas from area `e` on. -/
def textFrom : Nat → Nat → List UInt8
  | 0, _ => []
  | n + 1, e => bytesAt mem (addr e) (len e) ++ textFrom n (e + 1)

/-- An empty area has only empty ones behind it. -/
def Packed (numElem : Nat) : Prop := ∀ e e', e < e' → e' < numElem → len e = 0 → len e' = 0

variable (numElem : Nat)

/-- `rest` is what the cursor has before it. -/
def Reads (c : Cursor) (rest : List UInt8) : Prop :=
  rest = [] ∨ c.e < numElem ∧ c.pos < c.stop ∧
    rest = bytesAt mem c.pos (c.stop - c.pos) ++ textFrom mem addr len (numElem - (c.e + 1)) (c.e + 1)

variable {mem addr len numElem}

theorem length_textFrom (n e : Nat) :
    (textFrom mem addr len n e).length = (List.range' e n).foldl (fun totalLen e => totalLen + len e) 0 := by
  have start : ∀ n e t, (List.range' e n).foldl (fun totalLen e => totalLen + len e) t =
      t + (textFrom mem addr len n e).length := by
    intro n
    induction n with
    | zero => simp [textFrom]
    | succ n ih =>
        intro e t
        rw [List.range'_succ, List.foldl_cons, ih, textFrom, List.length_append, length_bytesAt, Nat.add_assoc]
  rw [start, Nat.zero_add]

theorem textFrom_empty (packed : Packed len numElem) {e : Nat} (empty : len e = 0) :
    ∀ n e', e ≤ e' → e' + n ≤ numElem → textFrom mem addr len n e' = []
  | 0, _, _, _ => rfl
  | n + 1, e', le, inside => by
      have none_ : len e' = 0 := by
        rcases Nat.eq_or_lt_of_le le with same | later
        · rw [← same]
          exact empty
        · exact packed e e' later (by omega) empty
      rw [textFrom, none_, textFrom_empty packed empty n (e' + 1) (by omega) (by omega)]
      rfl

/-- At the front of area `e`. -/
theorem reads_area (packed : Packed len numElem) (e : Nat) :
    Reads mem addr len numElem ⟨e, addr e, addr e + len e⟩ (textFrom mem addr len (numElem - e) e) := by
  by_cases inside : e < numElem
  · by_cases empty : len e = 0
    · exact Or.inl (textFrom_empty packed empty (numElem - e) e (Nat.le_refl e) (by omega))
    · refine Or.inr ⟨inside, Nat.lt_add_of_pos_right (Nat.pos_of_ne_zero empty), ?_⟩
      rw [show numElem - e = numElem - (e + 1) + 1 by omega, textFrom, Nat.add_sub_cancel_left]
  · rw [show numElem - e = 0 by omega]
    exact Or.inl rfl

theorem Reads.next (packed : Packed len numElem) {c : Cursor} {b : UInt8} {rest : List UInt8}
    (reads : Reads mem addr len numElem c (b :: rest)) :
    mem c.pos = b ∧ Reads mem addr len numElem (c.next addr len) rest := by
  obtain none_ | ⟨inside, before, text⟩ := reads
  · cases none_
  · have first : bytesAt mem c.pos (c.stop - c.pos) = mem c.pos :: bytesAt mem (c.pos + 1) (c.stop - (c.pos + 1)) := by
      rw [show c.stop - c.pos = 1 + (c.stop - (c.pos + 1)) by omega, bytesAt_add]
      rfl
    rw [first, List.cons_append, List.cons.injEq] at text
    obtain ⟨byte, text⟩ := text
    refine ⟨byte.symm, ?_⟩
    unfold Cursor.next
    by_cases last : c.stop ≤ c.pos + 1
    · rw [if_pos last, text, show c.stop - (c.pos + 1) = 0 by omega]
      exact reads_area packed (c.e + 1)
    · rw [if_neg last]
      exact Or.inr ⟨inside, Nat.lt_of_not_le last, text⟩

/-- What `n` bytes add to the chain. -/
theorem xorBytes_spec (packed : Packed len numElem) : ∀ (n i : Nat) (c : Cursor) (cbc : Block) (rest : List UInt8),
    Reads mem addr len numElem c rest → n ≤ rest.length →
    Reads mem addr len numElem (xorBytes mem addr len n i c cbc).1 (rest.drop n) ∧
      (xorBytes mem addr len n i c cbc).2 =
        fun k => if i ≤ k.val ∧ k.val < i + n then cbc k ^^^ rest.getD (k.val - i) 0 else cbc k
  | 0, i, c, cbc, rest, reads, _ => by
      refine ⟨reads, funext fun k => ?_⟩
      rw [if_neg (by omega)]
      rfl
  | n + 1, i, c, cbc, [], _, enough => by cases enough
  | n + 1, i, c, cbc, b :: rest, reads, enough => by
      obtain ⟨byte, onward⟩ := reads.next packed
      have enough' : n ≤ rest.length := Nat.le_of_succ_le_succ enough
      obtain ⟨behind, chain⟩ := xorBytes_spec packed n (i + 1) (c.next addr len)
        (fun k => if k.val = i then cbc k ^^^ mem c.pos else cbc k) rest onward enough'
      rw [xorBytes]
      refine ⟨behind, ?_⟩
      rw [chain]
      funext k
      rcases Nat.lt_trichotomy k.val i with low | here | high
      · rw [if_neg (by omega), if_neg (by omega), if_neg (by omega)]
      · rw [if_neg (by omega), if_pos here, if_pos (by omega), byte, here, Nat.sub_self]
        rfl
      · by_cases inside : k.val < i + (n + 1)
        · rw [if_pos (by omega), if_neg (by omega), if_pos (by omega), show k.val - i = k.val - (i + 1) + 1 by omega]
          rfl
        · rw [if_neg (by omega), if_neg (by omega), if_neg (by omega)]

theorem xorBytes_block (packed : Packed len numElem) {c : Cursor} (cbc : Block) {rest : List UInt8}
    (reads : Reads mem addr len numElem c rest) (sixteen : 16 ≤ rest.length) :
    Reads mem addr len numElem (xorBytes mem addr len 16 0 c cbc).1 (rest.drop 16) ∧
      (xorBytes mem addr len 16 0 c cbc).2 = cbc.xor (blockOf (rest.take 16)) := by
  obtain ⟨behind, chain⟩ := xorBytes_spec packed 16 0 c cbc rest reads sixteen
  refine ⟨behind, ?_⟩
  rw [chain]
  funext k
  have inside : k.val < (rest.take 16).length := by
    rw [List.length_take]
    omega
  rw [if_pos (by omega), Block.xor, blockOf, Nat.sub_zero, List.getD_eq_getElem _ _ inside,
    List.getElem_take, List.getD_eq_getElem]

end Text

/-! ## The tag -/

theorem xor_comm (a b : Block) : a.xor b = b.xor a := funext fun _ => UInt8.xor_comm ..

section Tag

variable {ctx : Schedule} {mem : Mem} {addr len : Nat → Nat} {numElem : Nat}

/-- A last block that is padded. -/
theorem lastPart_padded (packed : Packed len numElem) (totalLen : Nat) {c : Cursor} (cbc : Block) {rest : List UInt8}
    (reads : Reads mem addr len numElem c rest) (short : rest.length < 16) (some_ : rest.length ≠ 0 ∨ totalLen = 0) :
    lastPart ctx mem addr len totalLen rest.length c cbc =
      rijndaelEncrypt ctx (cbc.xor (lastBlock (rijndaelEncrypt ctx) rest)) := by
  have chain := (xorBytes_spec packed rest.length 0 c cbc rest reads (Nat.le_refl _)).2
  have padded (k : Fin 16) : blockOf (rest ++ [0x80]) k =
      if k.val < rest.length then rest.getD k 0 else if k.val = rest.length then 0x80 else 0 := by
    rw [blockOf]
    rcases Nat.lt_trichotomy k.val rest.length with low | here | high
    · rw [if_pos low, List.getD_append _ _ _ _ low]
    · rw [if_neg (by omega), if_pos here, List.getD_append_right _ _ _ _ (by omega), here, Nat.sub_self]
      rfl
    · rw [if_neg (by omega), if_neg (by omega), List.getD_eq_default _ _ (by simp; omega)]
  unfold lastPart
  rw [if_pos some_, lastBlock, if_neg (by omega), gfMulx_eq, gfMulx_eq]
  dsimp only
  rw [xor_comm]
  congr 1
  funext k
  rw [Block.xor, Block.xor, Block.xor, padded, ← UInt8.xor_assoc, congrFun chain k]
  congr 1
  rcases Nat.lt_trichotomy k.val rest.length with low | here | high
  · rw [if_neg (by omega), if_pos (by omega), if_pos low, Nat.sub_zero]
  · rw [if_pos here, if_neg (by omega), if_neg (by omega), if_pos here]
  · rw [if_neg (by omega), if_neg (by omega), if_neg (by omega), if_neg (by omega), UInt8.xor_zero]

/-- A last block that is whole. -/
theorem lastPart_whole (totalLen : Nat) (long : totalLen ≠ 0) (c : Cursor) (cbc : Block) {rest : List UInt8}
    (sixteen : rest.length = 16) :
    lastPart ctx mem addr len totalLen 0 c (cbc.xor (blockOf rest)) =
      rijndaelEncrypt ctx (cbc.xor (lastBlock (rijndaelEncrypt ctx) rest)) := by
  unfold lastPart
  rw [if_neg (by omega), lastBlock, if_pos sixteen, gfMulx_eq, xor_comm]
  congr 1
  exact funext fun _ => UInt8.xor_assoc ..

theorem wholeBlocks_lastPart (packed : Packed len numElem) (totalLen : Nat) :
    ∀ (n : Nat) (c : Cursor) (cbc : Block) (rest : List UInt8), rest.length = n → rest.length ≤ totalLen →
      Reads mem addr len numElem c rest → (rest.length ≠ 0 ∨ totalLen = 0) →
      (let s := wholeBlocks ctx mem addr len rest.length c cbc
       lastPart ctx mem addr len totalLen s.1 s.2.1 s.2.2) = tagFrom (rijndaelEncrypt ctx) cbc rest := by
  intro n
  induction n using Nat.strong_induction_on with
  | _ n ih =>
    intro c cbc rest length le reads some_
    rw [wholeBlocks]
    by_cases whole : 16 ≤ rest.length
    · obtain ⟨behind, chain⟩ := xorBytes_block packed cbc reads whole
      rw [if_pos whole]
      dsimp only
      rw [chain]
      by_cases more : 16 < rest.length
      · have left : rest.length - 16 = (rest.drop 16).length := (List.length_drop ..).symm
        rw [if_pos more, tagFrom_block _ _ more, left]
        exact ih (rest.drop 16).length (by omega) _ _ (rest.drop 16) rfl (by omega) behind (Or.inl (by omega))
      · have sixteen : rest.length = 16 := by omega
        rw [if_neg more, tagFrom_last _ _ (by omega), sixteen, wholeBlocks, if_neg (by decide),
          List.take_of_length_le (Nat.le_of_eq sixteen)]
        exact lastPart_whole totalLen (by omega) _ cbc sixteen
    · rw [if_neg whole, tagFrom_last _ _ (by omega)]
      exact lastPart_padded packed totalLen cbc reads (by omega) some_

/-- The tag of the areas put together. -/
theorem omac1Aes128Vector_eq (rk : Schedule) (key : Block) (packed : Packed len numElem) :
    omac1Aes128Vector mem addr len (some rk) key numElem =
      some (cmac (Theory.Aes.cipher key) (textFrom mem addr len numElem 0)) := by
  have aes : rijndaelEncrypt (rijndaelKeySetupEnc rk key) = Theory.Aes.cipher key :=
    funext fun data => rijndaelEncrypt_eq rk key data
  have total : (List.range numElem).foldl (fun totalLen e => totalLen + len e) 0 =
      (textFrom mem addr len numElem 0).length := by
    rw [length_textFrom, List.range_eq_range']
  have walked := @wholeBlocks_lastPart (rijndaelKeySetupEnc rk key) mem addr len numElem packed
    (textFrom mem addr len numElem 0).length _ _ (fun _ => 0) _ rfl (Nat.le_refl _) (reads_area packed 0) (by omega)
  rw [aes] at walked
  rw [cmac, ← walked]
  unfold omac1Aes128Vector
  rewrite [total]
  rfl

/-- Three areas of two, one and no bytes. -/
theorem omac1Aes128Vector_eq_three :
    omac1Aes128Vector (fun n => UInt8.ofNat n) (fun e => 32 * e) (fun e => 2 - e) (some fun _ => 0) (fun _ => 0) 3 =
      some (cmac (Theory.Aes.cipher fun _ => 0)
        (textFrom (fun n => UInt8.ofNat n) (fun e => 32 * e) (fun e => 2 - e) 3 0)) := by
  refine omac1Aes128Vector_eq _ _ fun e e' later inside empty => ?_
  have past : 2 ≤ e := Nat.sub_eq_zero_iff_le.mp empty
  exact Nat.sub_eq_zero_of_le (past.trans later.le)

end Tag

end Vmac.Security.Cmac
