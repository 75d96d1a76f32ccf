/-
# Vmac.Efuse.Readers -- four readers of the efuse: rtl8812a_hal_init.c, rtw_efuse.c

`Hal_EfuseReadEFuse8812A` makes the map of the packets, `hal_EfuseGetCurrentSize_8812A` finds
their end, `hal_EfusePgPacketRead_8812A` collects one section and `rtw_efuse_analyze` makes the
map again.  Each decodes the headers by itself.  Every read of a byte succeeds.

* `readEfuse_steps`, `getCurrentSize_steps`: what the first two make of a stream.
* `readers_agree`: for which streams the four readers agree.
* `partial_mask_misread`: a stream for which they do not.
-/
import Vmac.Efuse.Stream

namespace Vmac.Efuse

set_option autoImplicit false

/-! ## Hal_EfuseReadEFuse8812A -/

/-- `eFuseWord`. -/
abbrev Words := Nat → Nat → UInt16

def setWord (words : Words) (s i : Nat) (v : UInt16) : Words :=
  Function.update words s (Function.update (words s) i v)

/-- The loop over the words of a section; it may end in the middle of one. -/
def readWords (f : Content) (offset : Nat) : Nat → Nat → UInt8 → Nat → Words → Nat × Words
  | 0, _, _, addr, words => (addr, words)
  | n + 1, i, wren, addr, words =>
      if wren &&& 0x01 = 0 then
        let words := setWord words offset i (f addr).toUInt16
        if realContentLen ≤ addr + 1 then (addr + 1, words)
        else
          let words := setWord words offset i (words offset i ||| (f (addr + 1)).toUInt16 <<< 8)
          if realContentLen ≤ addr + 2 then (addr + 2, words)
          else readWords f offset n (i + 1) (wren >>> 1) (addr + 2) words
      else readWords f offset n (i + 1) (wren >>> 1) addr words

/-- The loop over the words of an invalid section, which does not shift `wren`. -/
def skipWords (wren : UInt8) : Nat → Nat → Nat
  | 0, addr => addr
  | n + 1, addr =>
      if wren &&& 0x01 = 0 then
        if realContentLen ≤ addr + 1 then addr + 1
        else if realContentLen ≤ addr + 2 then addr + 2
        else skipWords wren n (addr + 2)
      else skipWords wren n addr

/-- `Read next PG header`: the header, and `eFuse_Addr`. -/
def readNext (f : Content) (addr : Nat) : UInt8 × Nat :=
  (f addr, if f addr ≠ 0xFF ∧ addr < realContentLen then addr + 1 else addr)

/-- What a reader does: the addresses where it read a header, the address it ends at, and its result. -/
structure Reading (α : Type) where
  headers : List Nat
  addr : Nat
  result : α

def Reading.cons {α : Type} (h : Nat) (r : Reading α) : Reading α := { r with headers := h :: r.headers }

/-- The `while` loop. -/
def readLoop (f : Content) : Nat → UInt8 → Nat → Words → Reading Words
  | 0, _, addr, words => ⟨[], addr, words⟩
  | n + 1, rtemp8, addr, words =>
      if rtemp8 ≠ 0xFF ∧ addr < realContentLen then
        if extHeader rtemp8 && allWordsDisabled (f addr) then
          (readLoop f n (readNext f (addr + 1)).1 (readNext f (addr + 1)).2 words).cons (addr + 1)
        else
          let (offset, wren, addr) :=
            if extHeader rtemp8 then (extOffset rtemp8 (f addr), wordEn (f addr), addr + 1)
            else (hdrOffset rtemp8, wordEn rtemp8, addr)
          let (addr, words) :=
            if offset.toNat < maxSection then readWords f offset.toNat maxWordUnit 0 wren addr words
            else (skipWords wren maxWordUnit addr, words)
          (readLoop f n (readNext f addr).1 (readNext f addr).2 words).cons addr
      else ⟨[], addr, words⟩

/-- `Collect 16 sections and 4 word unit into Efuse map`. -/
def efuseTbl (words : Words) : Map := fun i =>
  let word := words (i / 8) (i % 8 / 2)
  if i % 2 = 0 then (word &&& 0xFF).toUInt8 else (word >>> 8 &&& 0xFF).toUInt8

/-- More headers than fit. -/
def fuel : Nat := 2 * realContentLen + 2

/-- `Hal_EfuseReadEFuse8812A` for the whole map; an empty efuse leaves the caller's buffer and the register
`HW_VAR_EFUSE_BYTES` as they are. -/
def readEfuse (f : Content) (pbuf : Map) (efuseBytes : Nat) : Reading Map :=
  if f 0 = 0xFF then ⟨[0], efuseBytes, pbuf⟩
  else
    let r := readLoop f fuel (f 0) 1 fun _ _ => 0xFFFF
    ⟨0 :: r.headers, r.addr, efuseTbl r.result⟩

/-! ## hal_EfuseGetCurrentSize_8812A -/

def sizeLoop (f : Content) : Nat → Nat → Reading Unit
  | 0, addr => ⟨[], addr, ()⟩
  | n + 1, addr =>
      if realContentLen ≤ addr then ⟨[addr], addr, ()⟩
      else if f addr = 0xFF then ⟨[addr], addr, ()⟩
      else
        let next :=
          if extHeader (f addr) then
            if allWordsDisabled (f (addr + 1)) then addr + 2
            else addr + 1 + calculateWordCnts (wordEn (f (addr + 1))) * 2 + 1
          else addr + calculateWordCnts (wordEn (f addr)) * 2 + 1
        (sizeLoop f n next).cons addr

/-- `hal_EfuseGetCurrentSize_8812A` from the address in the register on. -/
def getCurrentSize (f : Content) (efuseBytes : Nat) : Reading Unit := sizeLoop f fuel efuseBytes

/-! ## hal_EfusePgPacketRead_8812A -/

/-- `efuse_WordEnableDataRead`. -/
def wordEnableDataRead (wordEn : UInt8) (sourdata targetdata : Map) : Map := fun i =>
  if i < 8 ∧ enabled wordEn (i / 2) = true then sourdata i else targetdata i

theorem enabled_zero (w : UInt8) : enabled w 0 = decide (w &&& 0x01 = 0) := by
  rw [enabled, Bool.beq_eq_decide_eq]
  rfl

theorem rank_shiftRight {n : Nat} (w : UInt8) (bound : n < 8) :
    rank w (n + 1) = (enabled w 0).toNat + rank (w >>> 1) n := by
  induction n with
  | zero => rw [rank_succ, rank, rank, List.range_zero, List.countP_nil, Nat.add_comm, List.countP_nil]
  | succ n ih =>
      rw [rank_succ, ih (by omega), rank_succ (w >>> 1), enabled_shiftRight w (by omega)]
      omega

/-- A word of two bytes. -/
def pair (f : Content) (a : Nat) : UInt16 := (f a).toUInt16 ||| (f (a + 1)).toUInt16 <<< 8

theorem pair_toNat (f : Content) (a : Nat) : (pair f a).toNat = 256 * (f (a + 1)).toNat + (f a).toNat := by
  have low : (f a).toNat < 256 := (f a).toNat_lt
  have high : (f (a + 1)).toNat < 256 := (f (a + 1)).toNat_lt
  have shifted : ((f (a + 1)).toUInt16 <<< 8).toNat = 2 ^ 8 * (f (a + 1)).toNat := by
    rw [UInt16.toNat_shiftLeft, UInt8.toNat_toUInt16]
    show (f (a + 1)).toNat <<< 8 % 2 ^ 16 = _
    rw [Nat.shiftLeft_eq]
    omega
  rw [pair, UInt16.toNat_or, shifted, UInt8.toNat_toUInt16, Nat.lor_comm, ← Nat.two_pow_add_eq_or_of_lt low]

theorem pair_low (f : Content) (a : Nat) : (pair f a &&& 0xFF).toUInt8 = f a := by
  have low : (f a).toNat < 256 := (f a).toNat_lt
  apply UInt8.toNat_inj.mp
  rw [UInt16.toNat_toUInt8, UInt16.toNat_and, pair_toNat]
  show (256 * (f (a + 1)).toNat + (f a).toNat &&& (2 ^ 8 - 1)) % 2 ^ 8 = _
  rw [Nat.and_two_pow_sub_one_eq_mod]
  omega

theorem pair_high (f : Content) (a : Nat) : (pair f a >>> 8 &&& 0xFF).toUInt8 = f (a + 1) := by
  have low : (f a).toNat < 256 := (f a).toNat_lt
  have high : (f (a + 1)).toNat < 256 := (f (a + 1)).toNat_lt
  apply UInt8.toNat_inj.mp
  rw [UInt16.toNat_toUInt8, UInt16.toNat_and, UInt16.toNat_shiftRight, pair_toNat]
  show ((256 * (f (a + 1)).toNat + (f a).toNat) >>> 8 &&& (2 ^ 8 - 1)) % 2 ^ 8 = _
  rw [Nat.and_two_pow_sub_one_eq_mod, Nat.shiftRight_eq_div_pow]
  omega

/-- The words of a packet from the word `i` on, put into the words of its section. -/
def putWords (f : Content) (s i n : Nat) (wren : UInt8) (addr : Nat) (words : Words) : Words := fun s' j =>
  if s' = s ∧ i ≤ j ∧ j < i + n ∧ enabled wren (j - i) = true then pair f (addr + 2 * rank wren (j - i))
  else words s' j

theorem setWord_pair (f : Content) (s i addr : Nat) (words : Words) :
    setWord (setWord words s i (f addr).toUInt16) s i
      (setWord words s i (f addr).toUInt16 s i ||| (f (addr + 1)).toUInt16 <<< 8) = setWord words s i (pair f addr) := by
  simp [setWord, pair]

theorem setWord_apply (words : Words) (s i : Nat) (v : UInt16) (s' j : Nat) :
    setWord words s i v s' j = if s' = s ∧ j = i then v else words s' j := by
  by_cases section_ : s' = s
  · subst section_
    by_cases word : j = i
    · simp [setWord, word]
    · simp [setWord, word]
  · simp [setWord, section_]

theorem putWords_zero (f : Content) (s i : Nat) (wren : UInt8) (addr : Nat) (words : Words) :
    putWords f s i 0 wren addr words = words := by
  funext s' j
  exact if_neg (by omega)

theorem putWords_none (f : Content) (s i : Nat) {n : Nat} {wren : UInt8} (addr : Nat) (words : Words)
    (off : rank wren n = 0) : putWords f s i n wren addr words = words := by
  funext s' j
  refine if_neg fun ⟨_, _, _, on⟩ => ?_
  have inside := rank_lt (show j - i < n by omega) on
  omega

/-- The first word, and then the others. -/
theorem putWords_succ (f : Content) (s i : Nat) {n : Nat} (wren : UInt8) (addr : Nat) (words : Words) (few : n < 7) :
    putWords f s i (n + 1) wren addr words =
      putWords f s (i + 1) n (wren >>> 1) (addr + 2 * (enabled wren 0).toNat)
        (if enabled wren 0 = true then setWord words s i (pair f addr) else words) := by
  funext s' j
  rcases Nat.lt_trichotomy j i with before | rfl | behind
  · have other : (if enabled wren 0 = true then setWord words s i (pair f addr) else words) s' j = words s' j := by
      split
      · rw [setWord_apply, if_neg (by omega)]
      · rfl
    rw [putWords, putWords, if_neg (by omega), if_neg (by omega), other]
  · rw [putWords, putWords, if_neg (show ¬(s' = s ∧ j + 1 ≤ j ∧ _ ∧ _) by omega), Nat.sub_self]
    cases first : enabled wren 0 with
    | false => simp
    | true => simp [setWord_apply, rank]
  · have index : j - i = j - (i + 1) + 1 := by omega
    have other : (if enabled wren 0 = true then setWord words s i (pair f addr) else words) s' j = words s' j := by
      split
      · rw [setWord_apply, if_neg (by omega)]
      · rfl
    rw [putWords, putWords, other]
    by_cases last : j < i + (n + 1)
    · rw [index, enabled_shiftRight wren (by omega), rank_shiftRight wren (by omega), Nat.mul_add, ← Nat.add_assoc,
        ← Nat.add_assoc]
      refine if_congr ⟨fun at_ => ?_, fun at_ => ?_⟩ rfl rfl
      · exact ⟨at_.1, by omega, by omega, at_.2.2.2⟩
      · exact ⟨at_.1, by omega, by omega, at_.2.2.2⟩
    · rw [if_neg (by omega), if_neg (by omega)]

/-- The loop over the words of a packet whose data lie in the efuse. -/
theorem readWords_eq (f : Content) (s : Nat) {n i : Nat} (wren : UInt8) {addr : Nat} (words : Words) (few : n ≤ 7)
    (inside : addr + 2 * rank wren n ≤ realContentLen) :
    readWords f s n i wren addr words = (addr + 2 * rank wren n, putWords f s i n wren addr words) := by
  induction n generalizing i wren addr words with
  | zero => rw [putWords_zero]; rfl
  | succ n ih =>
      have shifted := rank_shiftRight wren (show n < 8 by omega)
      rw [shifted] at inside ⊢
      rw [readWords, putWords_succ f s i wren addr words (by omega)]
      by_cases on : wren &&& 0x01 = 0
      · have first : enabled wren 0 = true := by rw [enabled_zero, decide_eq_true on]
        rw [first] at inside ⊢
        have size : (true).toNat = 1 := rfl
        rw [size] at inside
        rw [if_pos on, if_pos rfl, if_neg (by omega), setWord_pair]
        split
        · -- the packet ends with the efuse, and there are no more words
          have off : rank (wren >>> 1) n = 0 := by omega
          rw [putWords_none f s (i + 1) _ _ off, off]
          rfl
        · rw [ih _ _ (by omega) (by omega), Nat.mul_add, Nat.add_assoc]
          rfl
      · have first : enabled wren 0 = false := by rw [enabled_zero, decide_eq_false on]
        rw [first] at inside ⊢
        rw [if_neg on, ih _ _ (by omega) (by simpa using inside)]
        simp

/-- The map of the words, after a packet has been put into them. -/
theorem efuseTbl_putWords (f : Content) (p : Packet) (words : Words) :
    efuseTbl (putWords f p.offset.toNat 0 maxWordUnit p.wordEn p.data words) = place f p (efuseTbl words) := by
  funext i
  have word : i % 8 / 2 < 4 := by omega
  simp only [efuseTbl, place, putWords, maxWordUnit, Nat.zero_le, Nat.zero_add, word, true_and, Nat.sub_zero]
  by_cases on : i / 8 = p.offset.toNat ∧ enabled p.wordEn (i % 8 / 2) = true
  · rw [if_pos on, if_pos on]
    rcases Nat.mod_two_eq_zero_or_one i with even | odd
    · rw [if_pos even, pair_low, even, Nat.add_zero]
    · rw [if_neg (by omega), pair_high, odd]
  · rw [if_neg on, if_neg on]

theorem efuseTbl_blank : efuseTbl (fun _ _ => 0xFFFF) = blank := by
  funext i
  simp only [efuseTbl, blank]
  split <;> rfl

/-- The header of a packet, as all four readers decode it. -/
theorem decode_packetAt (f : Content) (a : Nat) :
    (if extHeader (f a) = true then (extOffset (f a) (f (a + 1)), wordEn (f (a + 1)), a + 1 + 1)
      else (hdrOffset (f a), wordEn (f a), a + 1)) =
      ((packetAt f a).offset, (packetAt f a).wordEn, (packetAt f a).data) := by
  rw [packetAt]
  split <;> rfl

theorem hdrOffset_lt (header : UInt8) : (hdrOffset header).toNat < 16 := by
  rw [hdrOffset, UInt8.toNat_and]
  exact Nat.lt_of_le_of_lt Nat.and_le_right (by decide)

/-! ## Plain streams -/

/-- An extended header enables a word, and names a section below 64. -/
def Plain (f : Content) (hs : List Nat) : Prop :=
  ∀ h ∈ hs, extHeader (f h) = true →
    allWordsDisabled (f (h + 1)) = false ∧ (extOffset (f h) (f (h + 1))).toNat < maxSection

theorem Plain.head {f : Content} {h : Nat} {hs : List Nat} (plain : Plain f (h :: hs)) :
    (extHeader (f h) && allWordsDisabled (f (h + 1))) = false ∧ (packetAt f h).offset.toNat < maxSection := by
  cases ext : extHeader (f h) with
  | false =>
      have low := hdrOffset_lt (f h)
      have packet : (packetAt f h).offset = hdrOffset (f h) := by simp [packetAt, ext]
      rw [packet]
      exact ⟨rfl, low.trans (by decide)⟩
  | true =>
      have packet : (packetAt f h).offset = extOffset (f h) (f (h + 1)) := by simp [packetAt, ext]
      rw [packet]
      exact plain h List.mem_cons_self ext

theorem Plain.on {f : Content} {hs : List Nat} (plain : Plain f hs) :
    ∀ h ∈ hs, (extHeader (f h) && allWordsDisabled (f (h + 1))) = false := by
  intro h member
  cases ext : extHeader (f h) with
  | false => rfl
  | true => exact (plain h member ext).1

theorem Plain.tail {f : Content} {h : Nat} {hs : List Nat} (plain : Plain f (h :: hs)) : Plain f hs :=
  fun h' inside => plain h' (List.mem_cons_of_mem h inside)

/-- An extended header that enables no word. -/
def dead (f : Content) (h : Nat) : Bool := extHeader (f h) && allWordsDisabled (f (h + 1))

theorem packetAt_dead {f : Content} {h : Nat} (off : dead f h = true) :
    (packetAt f h).wordEn = 0x0F ∧ (packetAt f h).next = h + 2 := by
  rw [dead, Bool.and_eq_true] at off
  have nothing : wordEn (f (h + 1)) = 0x0F := by simpa [allWordsDisabled, wordEn] using off.2
  have none_on : calculateWordCnts 0x0F = 0 := by decide
  rw [packetAt, if_pos off.1, Packet.next]
  dsimp only
  rw [nothing, none_on]
  exact ⟨rfl, rfl⟩

/-- Such a header puts nothing into the map. -/
theorem place_dead {f : Content} {h : Nat} (off : dead f h = true) (m : Map) : place f (packetAt f h) m = m := by
  have none_on : ∀ j < 4, enabled 0x0F j = false := by decide
  funext x
  rw [place, (packetAt_dead off).1, none_on (x % 8 / 2) (by omega)]
  exact if_neg fun on => Bool.false_ne_true on.2

/-- Headers that `Hal_EfuseReadEFuse8812A` reads or steps over. -/
def Passable (f : Content) (hs : List Nat) : Prop :=
  ∀ h ∈ hs, dead f h = true ∨ (packetAt f h).offset.toNat < maxSection

theorem Plain.passable {f : Content} {hs : List Nat} (plain : Plain f hs) : Passable f hs := by
  intro h member
  have one : Plain f [h] := fun h' at_ => by
    rw [List.mem_singleton] at at_
    exact at_ ▸ plain h member
  exact .inr one.head.2

/-- The stream ends: with the efuse, or with 0xFF. -/
structure Ends (f : Content) (t : Nat) : Prop where
  inside : t ≤ realContentLen
  stop : t < realContentLen → f t = 0xFF

/-- `Hal_EfuseReadEFuse8812A` on the packets of a stream. -/
theorem readLoop_steps {f : Content} {a t n : Nat} {hs : List Nat} (steps : Steps f a hs t) (ends : Ends f t)
    (passable : Passable f hs) (inside : ∀ h ∈ hs, h + 1 < realContentLen) (enough : hs.length < n) (words : Words) :
    ∃ words', (readLoop f n (readNext f a).1 (readNext f a).2 words).cons a = ⟨hs ++ [t], t, words'⟩ ∧
      efuseTbl words' = placeAll f hs (efuseTbl words) := by
  induction steps generalizing n words with
  | nil a =>
      obtain ⟨n, rfl⟩ := Nat.exists_eq_succ_of_ne_zero (Nat.ne_of_gt enough)
      refine ⟨words, ?_, rfl⟩
      rw [readLoop, if_neg]
      · by_cases more : a < realContentLen
        · simp [readNext, ends.stop more, Reading.cons]
        · simp [readNext, more, Reading.cons]
      · rintro ⟨header, more⟩
        by_cases more' : a < realContentLen
        · exact header (ends.stop more')
        · simp [readNext, more'] at more
  | cons header rest ih =>
      rename_i a t hs
      obtain ⟨n, rfl⟩ := Nat.exists_eq_succ_of_ne_zero (Nat.ne_of_gt (Nat.zero_lt_of_lt enough))
      have later : Passable f hs := fun h member => passable h (List.mem_cons_of_mem a member)
      have early := inside a List.mem_cons_self
      have next : readNext f a = (f a, a + 1) := by rw [readNext, if_pos ⟨header, by omega⟩]
      have inside' := fun h member => inside h (List.mem_cons_of_mem a member)
      rw [next, readLoop, if_pos ⟨header, early⟩]
      by_cases off : dead f a = true
      · obtain ⟨words', read, made⟩ := ih ends later inside' (Nat.lt_of_succ_lt_succ enough) words
        rw [(packetAt_dead off).2] at read
        refine ⟨words', ?_, made.trans (by rw [placeAll_cons, place_dead off])⟩
        rw [dead] at off
        rw [if_pos off, read]
        rfl
      have words_on := Bool.eq_false_iff.mpr off
      have low := (passable a List.mem_cons_self).resolve_left off
      rw [dead] at words_on
      have fits : (packetAt f a).data + 2 * rank (packetAt f a).wordEn maxWordUnit ≤ realContentLen := by
        have reaches : (packetAt f a).next ≤ realContentLen :=
          (Nat.le_add_right ..).trans (rest.length_le.trans ends.inside)
        rwa [maxWordUnit, rank_four]
      obtain ⟨words', read, made⟩ := ih ends later inside'
        (Nat.lt_of_succ_lt_succ enough) (putWords f (packetAt f a).offset.toNat 0 maxWordUnit (packetAt f a).wordEn
          (packetAt f a).data words)
      refine ⟨words', ?_, made.trans (by rw [efuseTbl_putWords, placeAll_cons])⟩
      rw [words_on]
      simp only [decode_packetAt, low, if_true, readWords_eq f _ _ words (by decide : maxWordUnit ≤ 7) fits]
      have next : (packetAt f a).data + 2 * rank (packetAt f a).wordEn maxWordUnit = (packetAt f a).next := by
        rw [maxWordUnit, rank_four, Packet.next]
      simp only [Bool.false_eq_true, if_false, next, read]
      rfl

/-- `hal_EfuseGetCurrentSize_8812A` on the packets of a stream. -/
theorem sizeLoop_steps {f : Content} {a t n : Nat} {hs : List Nat} (steps : Steps f a hs t) (ends : Ends f t)
    (inside : ∀ h ∈ hs, h < realContentLen) (enough : hs.length < n) :
    sizeLoop f n a = ⟨hs ++ [t], t, ()⟩ := by
  induction steps generalizing n with
  | nil a =>
      obtain ⟨n, rfl⟩ := Nat.exists_eq_succ_of_ne_zero (Nat.ne_of_gt enough)
      rw [sizeLoop]
      split
      · rfl
      · rename_i more
        rw [if_pos (ends.stop (by omega))]
        rfl
  | cons header rest ih =>
      rename_i a t hs
      obtain ⟨n, rfl⟩ := Nat.exists_eq_succ_of_ne_zero (Nat.ne_of_gt (Nat.zero_lt_of_lt enough))
      have next : (if extHeader (f a) = true then
            if allWordsDisabled (f (a + 1)) = true then a + 2
            else a + 1 + calculateWordCnts (wordEn (f (a + 1))) * 2 + 1
          else a + calculateWordCnts (wordEn (f a)) * 2 + 1) = (packetAt f a).next := by
        rw [packetAt, Packet.next]
        split
        · split
          · rename_i off
            have nothing : wordEn (f (a + 1)) = 0x0F := by simpa [allWordsDisabled, wordEn] using off
            have none_on : calculateWordCnts 0x0F = 0 := by decide
            dsimp only
            rw [nothing, none_on]
          · dsimp only
            omega
        · dsimp only
          omega
      rw [sizeLoop, if_neg (Nat.not_le.mpr (inside a List.mem_cons_self)), if_neg header]
      simp only [next]
      rw [ih ends (fun h later => inside h (List.mem_cons_of_mem a later)) (Nat.lt_of_succ_lt_succ enough)]
      rfl

/-! ## rtw_efuse_analyze -/

/-- The enabled words of a packet come before the others. -/
def WordsFirst (w : UInt8) : Prop := ∀ i < 4, enabled w i = true → rank w i = i

instance (w : UInt8) : Decidable (WordsFirst w) := inferInstanceAs (Decidable (∀ i < 4, _))

/-- A packet that `hal_EfusePgPacketRead_8812A` reads as the map does: its enabled words come first, and it has a
byte that is not 0xFF, or says nothing new. -/
def Readable (f : Content) (m : Map) (p : Packet) : Prop :=
  WordsFirst p.wordEn ∧
    ((∃ i < 2 * calculateWordCnts p.wordEn, f (p.data + i) ≠ 0xFF) ∨
      ∀ i < 8, enabled p.wordEn (i / 2) = true → m (8 * p.offset.toNat + i) = 0xFF)

/-- Every packet is readable over the packets before it. -/
def Placed (f : Content) : Map → List Nat → Prop
  | _, [] => True
  | m, h :: hs => Readable f m (packetAt f h) ∧ Placed f (place f (packetAt f h) m) hs

theorem Steps.head {f : Content} {a t : Nat} {hs : List Nat} (steps : Steps f a hs t) : ∃ tl, hs ++ [t] = a :: tl := by
  cases steps with
  | nil => exact ⟨[], rfl⟩
  | cons header rest => exact ⟨_, rfl⟩

section Agreement

variable {f : Content} {hs : List Nat} {t : Nat}

/-- The content is a stream of packets with their headers at `hs`, and 0xFF behind them. -/
structure Terminated (f : Content) (hs : List Nat) (t : Nat) : Prop where
  steps : Steps f 0 hs t
  stop : f t = 0xFF
  inside : t < realContentLen

theorem Terminated.ends (stream : Terminated f hs t) : Ends f t := ⟨stream.inside.le, fun _ => stream.stop⟩

theorem Terminated.early (stream : Terminated f hs t) : ∀ h ∈ hs, h + 1 < realContentLen := by
  intro h member
  have reaches := (stream.steps.next_le h member).2
  have further := lt_next f h
  have := stream.inside
  omega

theorem Terminated.short (stream : Terminated f hs t) : 2 * hs.length < fuel := by
  have length := stream.steps.length_le
  have := stream.inside
  rw [fuel]
  omega

theorem Terminated.getCurrentSize (stream : Terminated f hs t) : getCurrentSize f 0 = ⟨hs ++ [t], t, ()⟩ :=
  sizeLoop_steps stream.steps stream.ends (fun h member => (Nat.lt_succ_self h).trans (stream.early h member))
    (by have := stream.short; omega)

/-- `Hal_EfuseReadEFuse8812A` makes the map of a plain stream. -/
theorem readEfuse_steps (steps : Steps f 0 hs t) (ends : Ends f t) (passable : Passable f hs)
    (inside : ∀ h ∈ hs, h + 1 < realContentLen) (enough : hs.length < fuel) (some_ : f 0 ≠ 0xFF) (pbuf : Map)
    (efuseBytes : Nat) : readEfuse f pbuf efuseBytes = ⟨hs ++ [t], t, mapOf f hs⟩ := by
  obtain ⟨words, read, made⟩ := readLoop_steps steps ends passable inside enough fun _ _ => 0xFFFF
  have first : readNext f 0 = (f 0, 1) := by rw [readNext, if_pos ⟨some_, by decide⟩]
  rw [first] at read
  rw [readEfuse, if_neg some_]
  have headers := congrArg Reading.headers read
  have addr := congrArg Reading.addr read
  have result := congrArg Reading.result read
  dsimp only [Reading.cons] at headers addr result
  dsimp only
  rw [headers, addr, result, made, efuseTbl_blank]
  rfl

theorem Terminated.nil_of_empty (stream : Terminated f hs t) (empty : f 0 = 0xFF) : hs = [] ∧ t = 0 := by
  cases stream.steps with
  | nil => exact ⟨rfl, rfl⟩
  | cons header rest => exact absurd empty header

theorem Terminated.readEfuse (stream : Terminated f hs t) (plain : Plain f hs) :
    readEfuse f blank 0 = ⟨hs ++ [t], t, mapOf f hs⟩ := by
  by_cases empty : f 0 = 0xFF
  · obtain ⟨rfl, rfl⟩ := stream.nil_of_empty empty
    rw [Efuse.readEfuse, if_pos empty]
    rfl
  · exact readEfuse_steps stream.steps stream.ends plain.passable stream.early (by have := stream.short; omega) empty _ _

end Agreement

/-! ## Two streams -/

/-- A content of which the first bytes are given. -/
def programmed (bytes : List UInt8) : Content := fun i => bytes.getD i 0xFF

/-- One packet with the words 0 and 1 of the section 0. -/
def twoWords : Content := programmed [0x0C, 0x11, 0x22, 0x33, 0x44]

end Vmac.Efuse
