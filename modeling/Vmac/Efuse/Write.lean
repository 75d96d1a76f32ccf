/-
# Vmac.Efuse.Write -- writing the efuse map: rtw_efuse.c, rtl8812a_hal_init.c

`rtw_efuse_map_write` compares the map with the data section by section and appends a packet
with the words that differ, behind the packets that are there.  A byte that is written has its
value at once, so that a header or a word that is read back is right.

* `pgPacketWrite_appends`: a packet is appended.
* `map_write_updates`: the whole write is an update of the map, or nothing.

Left out: `hal_EfuseFixHeaderProcess`, which is behind loops that end with the header written.
-/
import Vmac.Efuse.Readers

namespace Vmac.Efuse

set_option autoImplicit false

/-- The efuse, the register `HW_VAR_EFUSE_BYTES`, `MaxSecNum_WiFi`, and the addresses written. -/
structure Chip where
  content : Content
  efuseBytes : Nat
  maxSecNum : Nat
  written : List Nat

/-- `PGPKT_STRUCT`. -/
structure PgPkt where
  offset : UInt8
  wordEn : UInt8
  data : Map

/-- `TYPE_AVAILABLE_EFUSE_BYTES_TOTAL`: the length without `EFUSE_OOB_PROTECT_BYTES_JAGUAR`. -/
def availableLen : Nat := realContentLen - 18

/-- `EFUSE_MAX_SECTION_BASE`. -/
def maxSectionBase : Nat := 16

/-- `EFUSE_REPEAT_THRESHOLD_`. -/
def repeatThreshold : Nat := 3

def bit (i : Nat) : UInt8 := UInt8.ofNat (2 ^ i)

namespace Chip

/-- `efuse_OneByteWrite`, when the byte takes its value. -/
def oneByteWrite (s : Chip) (addr : Nat) (data : UInt8) : Chip :=
  { s with content := Function.update s.content addr data, written := addr :: s.written }

/-- `Efuse_GetCurrentSize`. -/
def currentSize (s : Chip) : Chip × Nat :=
  let size := (getCurrentSize s.content s.efuseBytes).addr
  ({ s with efuseBytes := size }, size)

/-- `rtw_efuse_map_read` of the whole map. -/
def mapRead (s : Chip) (pbuf : Map) : Chip × Map :=
  let r := readEfuse s.content pbuf s.efuseBytes
  ({ s with efuseBytes := r.addr }, r.result)

/-! ## A packet -/

/-- `Hal_EfuseWordEnableDataWrite8812A`, from the word `i` on. -/
def wordEnableDataWrite (wordEn : UInt8) (data : Map) : Nat → Nat → Nat → UInt8 → Chip → Chip × UInt8
  | 0, _, _, badworden, s => (s, badworden)
  | n + 1, i, addr, badworden, s =>
      if enabled wordEn i then
        let s := (s.oneByteWrite addr (data (i * 2))).oneByteWrite (addr + 1) (data (i * 2 + 1))
        let badworden :=
          if data (i * 2) ≠ s.content addr ∨ data (i * 2 + 1) ≠ s.content (addr + 1) then badworden &&& ~~~bit i
          else badworden
        wordEnableDataWrite wordEn data n (i + 1) (addr + 2) badworden s
      else wordEnableDataWrite wordEn data n (i + 1) addr badworden s

/-- Write a byte of a header until it is read back; `none` when `repeatcnt` is over the limit. -/
def writeHeaderByte (addr : Nat) (pgHeader : UInt8) : Nat → Nat → Chip → Chip × Option Nat
  | 0, _, s => (s, none)
  | n + 1, repeatcnt, s =>
      let s := s.oneByteWrite addr pgHeader
      if s.content addr = 0xFF ∨ pgHeader ≠ s.content addr then
        if repeatThreshold < repeatcnt then (s, none) else writeHeaderByte addr pgHeader n (repeatcnt + 1) s
      else (s, some repeatcnt)

/-- More repetitions than the limit allows. -/
def repeats : Nat := repeatThreshold + 3

/-- `hal_EfusePgPacketWrite1ByteHeader`: `none` is a failure. -/
def write1ByteHeader (s : Chip) (pkt : PgPkt) (addr : Nat) : Chip × Option Nat :=
  let (s, done) := writeHeaderByte addr (pkt.offset <<< 4 &&& 0xF0 ||| pkt.wordEn) repeats 0 s
  (s, done.map fun _ => addr)

/-- The loop of `hal_EfusePgPacketWrite2ByteHeader`. -/
def write2ByteLoop (pkt : PgPkt) : Nat → Nat → Nat → Chip → Chip × Option Nat
  | 0, _, addr, s => (s, some addr)
  | n + 1, repeatcnt, addr, s =>
      if availableLen ≤ addr then (s, some addr)
      else
        match writeHeaderByte addr ((pkt.offset &&& 0x07) <<< 5 ||| 0x0F) repeats repeatcnt s with
        | (s, none) => (s, none)
        | (s, some repeatcnt) =>
            match writeHeaderByte (addr + 1) ((pkt.offset &&& 0x78) <<< 1 ||| pkt.wordEn) repeats repeatcnt s with
            | (s, none) => (s, none)
            | (s, some repeatcnt) =>
                if s.content (addr + 1) &&& 0x0F = 0x0F then
                  if repeatThreshold < repeatcnt then (s, none) else write2ByteLoop pkt n (repeatcnt + 1) (addr + 2) s
                else (s, some (addr + 1))

/-- `hal_EfusePgPacketWrite2ByteHeader`. -/
def write2ByteHeader (s : Chip) (pkt : PgPkt) (addr : Nat) : Chip × Option Nat :=
  if availableLen ≤ addr then (s, none) else write2ByteLoop pkt repeats 0 addr s

/-- `efuse_PgPacketWriteHeader`. -/
def writeHeader (s : Chip) (pkt : PgPkt) (addr : Nat) : Chip × Option Nat :=
  if maxSectionBase ≤ pkt.offset.toNat then s.write2ByteHeader pkt addr else s.write1ByteHeader pkt addr

/-- `hal_EfusePgPacketWriteData`. -/
def writeData (s : Chip) (pkt : PgPkt) (addr : Nat) : Chip × Bool :=
  let (s, badworden) := wordEnableDataWrite pkt.wordEn pkt.data 4 0 (addr + 1) 0x0F s
  (s, badworden == 0x0F)

/-! ## efuse_PgPacketPartialWrite -/

/-- Three attempts to write a byte. -/
def tryWrite (s : Chip) (addr : Nat) (data : UInt8) : Nat → Chip
  | 0 => s
  | n + 1 =>
      let s := s.oneByteWrite addr data
      if s.content addr = data then s else s.tryWrite addr data n

/-- `Hal_EfusePgPacketExceptionHandle_8812A`, with its braces as they stand: what is meant for headers of one byte
is the `else` of the test of the two bytes behind an extended header, and only `case 0xE` moves the address. -/
def exceptionHandle (s : Chip) (errOffset : Nat) : Chip × Nat :=
  let header := s.content errOffset
  if extHeader header then
    let offset := errOffset + 1
    if s.content (offset + 1) = 0xFF ∧ s.content (offset + 2) = 0xFF then
      if header >>> 4 = 0x0E then
        let s := s.oneByteWrite offset 0x17
        ((s.oneByteWrite (offset + 1) 0xFF).oneByteWrite (offset + 2) 0xFF, offset + 3)
      else (s.tryWrite offset 0x27 3, errOffset)
    else if allWordsDisabled header ∧ s.content (offset + 1) = 0xFF then
      let s := s.tryWrite offset (header &&& 0xF0 ||| 0x07) 3
      ((s.oneByteWrite (offset + 1) 0xFF).oneByteWrite (offset + 2) 0xFF, offset + 2)
    else (s, errOffset)
  else (s, errOffset)

/-- `hal_EfuseCheckIfDatafollowed`. -/
def checkIfDatafollowed (s : Chip) (wordCnts startAddr : Nat) : Bool :=
  (List.range (wordCnts * 2)).any fun i => s.content (startAddr + i) != 0xFF

/-- `hal_EfuseWordEnMatched`: the words that both packets enable. -/
def matchedWden (target cur : UInt8) : UInt8 :=
  (List.range 4).foldl (fun w i => if enabled target i && enabled cur i then w &&& ~~~bit i else w) 0x0F

/-- The loop of `efuse_PgPacketPartialWrite`; `again` is `Efuse_PgPacketWrite` for the words that failed. -/
def partialWriteLoop (again : UInt8 → UInt8 → Map → Chip → Chip × Bool) :
    Nat → Nat → PgPkt → Chip → Chip × Option (Nat × PgPkt)
  | 0, _, _, s => (s, none)
  | n + 1, startAddr, target, s =>
      if availableLen ≤ startAddr then (s, none)
      else if s.content startAddr = 0xFF then (s, some (startAddr, target))
      else if extHeader (s.content startAddr) && allWordsDisabled (s.content (startAddr + 1)) then
        let (s, recovered) := s.exceptionHandle startAddr
        if recovered = startAddr then (s, none) else partialWriteLoop again n recovered target s
      else
        let s :=
          if !extHeader (s.content startAddr) && allWordsDisabled (s.content startAddr) then
            (s.exceptionHandle startAddr).1
          else s
        let (offset, word_en, startAddr) :=
          if extHeader (s.content startAddr) then
            (extOffset (s.content startAddr) (s.content (startAddr + 1)), wordEn (s.content (startAddr + 1)),
              startAddr + 1)
          else (hdrOffset (s.content startAddr), wordEn (s.content startAddr), startAddr)
        if s.maxSecNum < offset.toNat then (s, none)
        else
          let wordCnts := calculateWordCnts word_en
          let matched := matchedWden target.wordEn word_en
          if offset = target.offset ∧ s.checkIfDatafollowed wordCnts (startAddr + 1) = false ∧ matched ≠ 0x0F then
            let (s, badworden) := wordEnableDataWrite matched target.data 4 0 (startAddr + 1) 0x0F s
            let (s, ok) := if badworden ≠ 0x0F then again target.offset badworden target.data s else (s, true)
            if ok then
              partialWriteLoop again n (startAddr + wordCnts * 2 + 1)
                { target with wordEn := target.wordEn ||| (~~~matched &&& 0x0F) } s
            else (s, none)
          else partialWriteLoop again n (startAddr + wordCnts * 2 + 1) target s

/-- `hal_EfusePgPacketWrite_8812A`, which the partial write may call `again`. -/
def pgPacketWriteWith (again : UInt8 → UInt8 → Map → Chip → Chip × Bool) (offset word_en : UInt8) (pData : Map)
    (s : Chip) : Chip × Bool :=
  let (s, size) := s.currentSize
  if availableLen ≤ size then (s, false)
  else
    let target : PgPkt := ⟨offset, word_en, wordEnableDataRead word_en pData blank⟩
    match partialWriteLoop again fuel (s.efuseBytes % realContentLen) target s with
    | (s, none) => (s, false)
    | (s, some (startAddr, target)) =>
        match s.writeHeader target startAddr with
        | (s, none) => (s, false)
        | (s, some startAddr) => s.writeData target startAddr

/-- `hal_EfusePgPacketWrite_8812A`; the first argument bounds how often it calls itself. -/
def pgPacketWrite : Nat → UInt8 → UInt8 → Map → Chip → Chip × Bool
  | 0, _, _, _, s => (s, false)
  | n + 1, offset, word_en, pData, s => pgPacketWriteWith (pgPacketWrite n) offset word_en pData s

end Chip

/-! ## rtw_efuse_map_write -/

/-- The inner loop: the words of a section in which the data differ from the map, and the section's new data. -/
def diffLoop (efuse map : Map) (addr cnts : Nat) : Nat → Nat → Nat → UInt8 → Map → UInt8 × Map × Nat
  | 0, _, idx, word_en, newdata => (word_en, newdata, idx)
  | n + 1, i, idx, word_en, newdata =>
      if idx < cnts then
        if efuse (addr + idx) ≠ map (addr + idx) then
          diffLoop efuse map addr cnts n (i + 1) (idx + 1) (word_en &&& ~~~bit (i / 2))
            (Function.update newdata i (efuse (addr + idx)))
        else diffLoop efuse map addr cnts n (i + 1) (idx + 1) word_en newdata
      else (word_en, newdata, idx)

/-- One turn of the outer loop: `word_en`, `newdata` and the next `idx`. -/
def diffSection (efuse map : Map) (addr cnts offset idx : Nat) : UInt8 × Map × Nat :=
  let j := (addr + idx) % 8
  diffLoop efuse map addr cnts (8 - j) j idx 0x0F fun i => map (offset * 8 + i)

/-- The loop that counts the bytes to write. -/
def sizeSections (efuse map : Map) (addr cnts : Nat) : Nat → Nat → Nat → Nat → Nat
  | 0, _, _, total => total
  | n + 1, offset, idx, total =>
      if idx < cnts then
        let (word_en, _, idx) := diffSection efuse map addr cnts offset idx
        let total :=
          if word_en ≠ 0x0F then
            total + calculateWordCnts word_en * 2 + (if maxSectionBase ≤ offset then 2 else 1)
          else total
        sizeSections efuse map addr cnts n (offset + 1) idx total
      else total

/-- The loop that writes, with `ret`; `write` is `Efuse_PgPacketWrite`. -/
def writeSections (write : UInt8 → UInt8 → Map → Chip → Chip × Bool) (efuse map : Map) (addr cnts : Nat) :
    Nat → Nat → Nat → Bool → Chip → Chip × Bool
  | 0, _, _, ret, s => (s, ret)
  | n + 1, offset, idx, ret, s =>
      if idx < cnts then
        let (word_en, newdata, idx) := diffSection efuse map addr cnts offset idx
        if word_en ≠ 0x0F then
          match write (UInt8.ofNat offset) word_en newdata s with
          | (s, false) => (s, false)
          | (s, true) => writeSections write efuse map addr cnts n (offset + 1) idx true s
        else writeSections write efuse map addr cnts n (offset + 1) idx ret s
      else (s, ret)

/-- `rtw_efuse_map_write` with `boffefusemask` set. -/
def Chip.mapWrite (s : Chip) (addr cnts : Nat) (data : Nat → UInt8) : Chip × Bool :=
  if mapLen < addr + cnts then (s, false)
  else
    let (s, map) := s.mapRead blank
    let efuse : Map := fun i => if addr ≤ i ∧ i < addr + cnts then data (i - addr) else map i
    let total := sizeSections efuse map addr cnts cnts (addr / 8) 0 0
    let (s, startAddr) := if s.efuseBytes = 0 then s.currentSize else (s, s.efuseBytes)
    if availableLen ≤ startAddr + total then (s, false)
    else writeSections (Chip.pgPacketWrite Chip.repeats) efuse map addr cnts cnts (addr / 8) 0 true s

/-! ## Well-formed streams -/

/-- Packets of existing sections with at least one word each, and 0xFF behind them. -/
structure WellFormed (f : Content) (hs : List Nat) (t : Nat) : Prop where
  steps : Steps f 0 hs t
  inside : t ≤ realContentLen
  rest : ∀ x, t ≤ x → x < realContentLen → f x = 0xFF
  packets : ∀ h ∈ hs, (packetAt f h).offset.toNat < maxSection ∧ 0 < calculateWordCnts (packetAt f h).wordEn

/-- A stream that may also have headers without words, which an interrupted write leaves behind. -/
structure Legible (f : Content) (hs : List Nat) (t : Nat) : Prop where
  steps : Steps f 0 hs t
  inside : t ≤ realContentLen
  rest : ∀ x, t ≤ x → x < realContentLen → f x = 0xFF
  packets : ∀ h ∈ hs, dead f h = true ∨
    (packetAt f h).offset.toNat < maxSection ∧ 0 < calculateWordCnts (packetAt f h).wordEn

theorem WellFormed.legible {f : Content} {hs : List Nat} {t : Nat} (stream : WellFormed f hs t) : Legible f hs t :=
  ⟨stream.steps, stream.inside, stream.rest, fun h member => .inr (stream.packets h member)⟩

namespace Legible

variable {f f' : Content} {hs : List Nat} {t : Nat}

theorem ends (stream : Legible f hs t) : Ends f t := ⟨stream.inside, stream.rest t le_rfl⟩

theorem passable (stream : Legible f hs t) : Passable f hs :=
  fun h member => (stream.packets h member).imp_right And.left

theorem early (stream : Legible f hs t) : ∀ h ∈ hs, h + 1 < realContentLen := by
  intro h member
  have reaches := (stream.steps.next_le h member).2
  have first := lt_data f h
  have := stream.inside
  rcases stream.packets h member with off | ⟨-, words⟩
  · rw [(packetAt_dead off).2] at reaches
    omega
  · rw [Packet.next] at reaches
    omega

theorem short (stream : Legible f hs t) : hs.length < fuel := by
  have length := stream.steps.length_le
  have := stream.inside
  rw [fuel]
  omega

theorem nil_of_empty (stream : Legible f hs t) (empty : f 0 = 0xFF) : hs = [] ∧ t = 0 := by
  cases stream.steps with
  | nil => exact ⟨rfl, rfl⟩
  | cons header rest => exact absurd empty header

end Legible

theorem packetAt_within {f f' : Content} {a t h : Nat} {hs : List Nat} (steps : Steps f a hs t)
    (same : ∀ i < t, f' i = f i) (member : h ∈ hs) : packetAt f' h = packetAt f h := by
  induction steps with
  | nil a => cases member
  | cons header rest ih =>
      rcases List.mem_cons.mp member with rfl | later
      · exact (Steps.cons header rest).packetAt_congr same
      · exact ih same later

/-- The packet whose header is the same. -/
theorem packetAt_header {f f' : Content} {a : Nat} (same : ∀ x, a ≤ x → x < (packetAt f a).data → f' x = f x) :
    packetAt f' a = packetAt f a := by
  have first := same a le_rfl (lt_data f a)
  by_cases ext : extHeader (f a) = true
  · have data : (packetAt f a).data = a + 2 := by rw [packetAt, if_pos ext]
    rw [packetAt, packetAt, first, same (a + 1) (Nat.le_succ a) (by omega)]
  · rw [packetAt, packetAt, first, if_neg ext, if_neg ext]

theorem dead_within {f f' : Content} {a t h : Nat} {hs : List Nat} (steps : Steps f a hs t)
    (same : ∀ i < t, f' i = f i) (member : h ∈ hs) : dead f' h = dead f h := by
  have reaches := (steps.next_le h member).2
  have first := lt_data f h
  have next := data_le_next (packetAt f h)
  rw [dead, dead, same h (by omega)]
  by_cases ext : extHeader (f h) = true
  · have data : (packetAt f h).data = h + 2 := by rw [packetAt, if_pos ext]
    rw [same (h + 1) (by omega)]
  · rw [Bool.eq_false_iff.mpr ext, Bool.false_and, Bool.false_and]

/-- The packets make the same map in a content that agrees up to their end. -/
theorem placeAll_congr {f f' : Content} {a t : Nat} {hs : List Nat} (steps : Steps f a hs t)
    (same : ∀ i < t, f' i = f i) (m : Map) : placeAll f' hs m = placeAll f hs m := by
  induction steps generalizing m with
  | nil a => rfl
  | cons header rest ih =>
      rename_i a t hs
      have length := rest.length_le
      have packet : packetAt f' a = packetAt f a := (Steps.cons header rest).packetAt_congr same
      have placed : place f' (packetAt f a) m = place f (packetAt f a) m := by
        funext x
        simp only [place]
        split
        · rename_i on
          have below := rank_lt (show x % 8 / 2 < 4 by omega) on.2
          rw [rank_four] at below
          refine same _ ?_
          have next : (packetAt f a).next = (packetAt f a).data + 2 * calculateWordCnts (packetAt f a).wordEn := rfl
          omega
        · rfl
      rw [placeAll_cons, placeAll_cons, packet, placed]
      exact ih same _

theorem placeAll_concat (f : Content) (hs : List Nat) (h : Nat) (m : Map) :
    placeAll f (hs ++ [h]) m = place f (packetAt f h) (placeAll f hs m) := List.foldl_concat ..

/-! ## What is written where -/

/-- Only the bytes from `lo` to `hi` have been written. -/
structure Wrote (s s' : Chip) (lo hi : Nat) : Prop where
  content : ∀ x, x < lo ∨ hi ≤ x → s'.content x = s.content x
  written : ∀ x ∈ s'.written, x ∈ s.written ∨ lo ≤ x ∧ x < hi
  efuseBytes : s'.efuseBytes = s.efuseBytes

namespace Wrote

variable {s s' s'' : Chip} {lo mid hi : Nat}

theorem refl (s : Chip) (lo hi : Nat) : Wrote s s lo hi := ⟨fun _ _ => rfl, fun _ old => .inl old, rfl⟩

theorem mono {lo' hi' : Nat} (wrote : Wrote s s' lo hi) (low : lo' ≤ lo) (high : hi ≤ hi') : Wrote s s' lo' hi' := by
  refine ⟨fun x outside => wrote.content x (by omega), fun x inside => ?_, wrote.efuseBytes⟩
  exact (wrote.written x inside).imp_right fun here => ⟨low.trans here.1, here.2.trans_le high⟩

theorem join (first : Wrote s s' lo hi) (second : Wrote s' s'' lo hi) : Wrote s s'' lo hi := by
  refine ⟨fun x outside => ?_, fun x inside => ?_, second.efuseBytes.trans first.efuseBytes⟩
  · rw [second.content x outside, first.content x outside]
  · rcases second.written x inside with before | here
    · exact first.written x before
    · exact .inr here

theorem trans (first : Wrote s s' lo mid) (second : Wrote s' s'' mid hi) (low : lo ≤ mid) (high : mid ≤ hi) :
    Wrote s s'' lo hi := (first.mono le_rfl high).join (second.mono low le_rfl)

theorem oneByteWrite (s : Chip) (addr : Nat) (data : UInt8) : Wrote s (s.oneByteWrite addr data) addr (addr + 1) := by
  refine ⟨fun x outside => Function.update_of_ne (by omega) .., fun x inside => ?_, rfl⟩
  rcases List.mem_cons.mp inside with rfl | old
  · exact .inr ⟨le_rfl, Nat.lt_succ_self x⟩
  · exact .inl old

end Wrote

@[simp] theorem Chip.oneByteWrite_content (s : Chip) (addr : Nat) (data : UInt8) :
    (s.oneByteWrite addr data).content addr = data := Function.update_self ..

theorem Chip.oneByteWrite_other (s : Chip) {addr x : Nat} (data : UInt8) (other : x ≠ addr) :
    (s.oneByteWrite addr data).content x = s.content x := Function.update_of_ne other ..

/-- The data of a packet: the words are written one behind the other, and none of them is bad. -/
theorem wordEnableDataWrite_spec (w : UInt8) (data : Map) {n i base : Nat} (bad : UInt8) (s : Chip) :
    let r := Chip.wordEnableDataWrite w data n i (base + 2 * rank w i) bad s
    r.2 = bad ∧ Wrote s r.1 (base + 2 * rank w i) (base + 2 * rank w (i + n)) ∧
      ∀ j, i ≤ j → j < i + n → enabled w j = true →
        ∀ b < 2, r.1.content (base + 2 * rank w j + b) = data (j * 2 + b) := by
  induction n generalizing i s with
  | zero => exact ⟨rfl, .refl .., fun j low high => absurd low (by omega)⟩
  | succ n ih =>
      have index : i + (n + 1) = i + 1 + n := by omega
      have step := rank_succ w i
      have later := rank_mono w (show i + 1 ≤ i + 1 + n by omega)
      rw [index]
      dsimp only
      rw [Chip.wordEnableDataWrite]
      cases on : enabled w i with
      | true =>
          rw [on] at step
          have behind : base + 2 * rank w i + 2 = base + 2 * rank w (i + 1) := by
            rw [step]
            rfl
          have step : rank w (i + 1) = rank w i + 1 := step
          have word := (Wrote.oneByteWrite s (base + 2 * rank w i) (data (i * 2))).trans
            (Wrote.oneByteWrite _ (base + 2 * rank w i + 1) (data (i * 2 + 1))) (by omega) (by omega)
          have low : ((s.oneByteWrite (base + 2 * rank w i) (data (i * 2))).oneByteWrite (base + 2 * rank w i + 1)
              (data (i * 2 + 1))).content (base + 2 * rank w i) = data (i * 2) := by
            rw [Chip.oneByteWrite_other _ _ (by omega), Chip.oneByteWrite_content]
          rw [if_pos rfl]
          simp only [low, Chip.oneByteWrite_content, ne_eq, not_true, or_self, if_false, behind]
          obtain ⟨good, wrote, found⟩ := ih (i := i + 1) ((s.oneByteWrite (base + 2 * rank w i)
            (data (i * 2))).oneByteWrite (base + 2 * rank w i + 1) (data (i * 2 + 1)))
          refine ⟨good, word.trans (behind ▸ wrote) (by omega) (by omega), fun j above below on' b bound => ?_⟩
          by_cases here : j = i
          · subst here
            rw [wrote.content _ (by omega)]
            rcases (by omega : b = 0 ∨ b = 1) with rfl | rfl
            · exact low
            · exact Chip.oneByteWrite_content ..
          · exact found j (by omega) below on' b bound
      | false =>
          rw [on] at step
          have same : rank w (i + 1) = rank w i := step
          rw [if_neg Bool.false_ne_true, ← same]
          obtain ⟨good, wrote, found⟩ := ih (i := i + 1) s
          refine ⟨good, wrote, fun j above below on' b bound => ?_⟩
          have other : j ≠ i := fun here => by rw [here, on] at on'; exact Bool.false_ne_true on'
          exact found j (by omega) below on' b bound

/-! ## Headers that are written -/

/-- A header byte is there at once. -/
theorem writeHeaderByte_eq (addr : Nat) {pgHeader : UInt8} (header : pgHeader ≠ 0xFF) (n repeatcnt : Nat) (s : Chip) :
    Chip.writeHeaderByte addr pgHeader (n + 1) repeatcnt s = (s.oneByteWrite addr pgHeader, some repeatcnt) := by
  rw [Chip.writeHeaderByte]
  simp [header]

/-- A header of one byte. -/
theorem header_one : ∀ o < 16, ∀ w < 15,
    let h := UInt8.ofNat o <<< 4 &&& 0xF0 ||| UInt8.ofNat w
    h ≠ 0xFF ∧ extHeader h = false ∧ hdrOffset h = UInt8.ofNat o ∧ wordEn h = UInt8.ofNat w := by
  decide +kernel

/-- A header of two. -/
theorem header_two : ∀ o < 64, ∀ w < 15,
    let h := (UInt8.ofNat o &&& 0x07) <<< 5 ||| 0x0F
    let e := (UInt8.ofNat o &&& 0x78) <<< 1 ||| UInt8.ofNat w
    h ≠ 0xFF ∧ e ≠ 0xFF ∧ extHeader h = true ∧ e &&& 0x0F ≠ 0x0F ∧ extOffset h e = UInt8.ofNat o ∧
      wordEn e = UInt8.ofNat w := by
  decide +kernel

/-- The length of the header of a section. -/
def headerLen (offset : Nat) : Nat := if maxSectionBase ≤ offset then 2 else 1

/-- `efuse_PgPacketWriteHeader`: a header for the section and the words, behind what is there. -/
theorem writeHeader_spec {o w t : Nat} (low : o < maxSection) (words : w < 15) (room : t < availableLen) (data : Map)
    (s : Chip) :
    ∃ s', s.writeHeader ⟨UInt8.ofNat o, UInt8.ofNat w, data⟩ t = (s', some (t + headerLen o - 1)) ∧
      Wrote s s' t (t + headerLen o) ∧ s'.content t ≠ 0xFF ∧
      packetAt s'.content t = ⟨t + headerLen o, UInt8.ofNat o, UInt8.ofNat w⟩ := by
  have value : (UInt8.ofNat o).toNat = o := by
    rw [UInt8.toNat_ofNat', Nat.mod_eq_of_lt (low.trans (by decide))]
  rw [Chip.writeHeader, headerLen, value]
  by_cases two : maxSectionBase ≤ o
  · obtain ⟨first, second, ext, some_word, offset, word⟩ := header_two o low w words
    rw [if_pos two, if_pos two, Chip.write2ByteHeader, if_neg (by omega), show Chip.repeats = 5 + 1 from rfl,
      Chip.write2ByteLoop, if_neg (by omega), show Chip.repeats = 5 + 1 from rfl, writeHeaderByte_eq t first]
    dsimp only
    rw [writeHeaderByte_eq (t + 1) second]
    dsimp only
    rw [Chip.oneByteWrite_content, if_neg some_word]
    refine ⟨_, rfl, (Wrote.oneByteWrite ..).trans (Wrote.oneByteWrite ..) (by omega) (by omega), ?_, ?_⟩
    · rw [Chip.oneByteWrite_other _ _ (by omega), Chip.oneByteWrite_content]
      exact first
    · rw [packetAt, Chip.oneByteWrite_content]
      have here : ((s.oneByteWrite t ((UInt8.ofNat o &&& 0x07) <<< 5 ||| 0x0F)).oneByteWrite (t + 1)
          ((UInt8.ofNat o &&& 0x78) <<< 1 ||| UInt8.ofNat w)).content t = (UInt8.ofNat o &&& 0x07) <<< 5 ||| 0x0F := by
        rw [Chip.oneByteWrite_other _ _ (by omega), Chip.oneByteWrite_content]
      rw [here, if_pos ext, offset, word]
  · obtain ⟨header, ext, offset, word⟩ := header_one o (Nat.not_le.mp two) w words
    rw [if_neg two, if_neg two, Chip.write1ByteHeader, show Chip.repeats = 5 + 1 from rfl,
      writeHeaderByte_eq t header]
    refine ⟨_, rfl, .oneByteWrite .., ?_, ?_⟩
    · rw [Chip.oneByteWrite_content]
      exact header
    · rw [packetAt, Chip.oneByteWrite_content, if_neg (by rw [ext]; decide), offset, word]

/-! ## One packet -/

/-- The register holds the address of a header, or of the end. -/
def Cached (s : Chip) (t : Nat) : Prop := ∃ hs, Steps s.content s.efuseBytes hs t

theorem currentSize_spec {s : Chip} {hs : List Nat} {t : Nat} (stream : Legible s.content hs t)
    (cached : Cached s t) : s.currentSize = ({ s with efuseBytes := t }, t) := by
  obtain ⟨rest, steps⟩ := cached
  have length := steps.length_le
  have inside := stream.inside
  have size := sizeLoop_steps steps stream.ends (fun h member => by
    have reaches := (steps.next_le h member).2
    have further := lt_next s.content h
    omega) (show rest.length < fuel by rw [fuel]; omega)
  rw [Chip.currentSize, getCurrentSize, size]

theorem fuel_pos : 0 < fuel := Nat.succ_pos _

/-- Behind the packets there is nothing to complete. -/
theorem partialWriteLoop_end (again : UInt8 → UInt8 → Map → Chip → Chip × Bool) {n startAddr : Nat} (target : PgPkt)
    {s : Chip} (positive : 0 < n) (room : startAddr < availableLen) (free : s.content startAddr = 0xFF) :
    Chip.partialWriteLoop again n startAddr target s = (s, some (startAddr, target)) := by
  obtain ⟨n, rfl⟩ := Nat.exists_eq_succ_of_ne_zero (Nat.ne_of_gt positive)
  rw [Chip.partialWriteLoop, if_neg (Nat.not_le.mpr room), if_pos free]

/-- A packet is appended. -/
theorem pgPacketWrite_appends {s : Chip} {hs : List Nat} {t o w n : Nat} (stream : Legible s.content hs t)
    (cached : Cached s t) (low : o < maxSection) (words : w < 15)
    (room : t + headerLen o + 2 * calculateWordCnts (UInt8.ofNat w) < availableLen) (newdata : Map) :
    ∃ s', s.pgPacketWrite (n + 1) (UInt8.ofNat o) (UInt8.ofNat w) newdata = (s', true) ∧
      Wrote { s with efuseBytes := t } s' t (t + headerLen o + 2 * calculateWordCnts (UInt8.ofNat w)) ∧
      s'.content t ≠ 0xFF ∧ packetAt s'.content t = ⟨t + headerLen o, UInt8.ofNat o, UInt8.ofNat w⟩ ∧
      ∀ j < 4, enabled (UInt8.ofNat w) j = true → ∀ b < 2,
        s'.content (t + headerLen o + 2 * rank (UInt8.ofNat w) j + b) = newdata (j * 2 + b) := by
  have positive : 0 < headerLen o := by
    rw [headerLen]
    split <;> decide
  have free : s.content t = 0xFF := stream.rest t le_rfl (by rw [availableLen] at room; omega)
  have address : t % realContentLen = t := Nat.mod_eq_of_lt (by rw [availableLen] at room; omega)
  obtain ⟨s₁, header, wrote₁, some_, packet⟩ := writeHeader_spec low words (show t < availableLen by omega)
    (wordEnableDataRead (UInt8.ofNat w) newdata blank) { s with efuseBytes := t }
  have data := @wordEnableDataWrite_spec (UInt8.ofNat w) (wordEnableDataRead (UInt8.ofNat w) newdata blank) 4 0
    (t + headerLen o) 0x0F s₁
  have start : t + headerLen o + 2 * rank (UInt8.ofNat w) 0 = t + headerLen o := rfl
  have behind : t + headerLen o - 1 + 1 = t + headerLen o := by omega
  rw [start, Nat.zero_add, rank_four] at data
  obtain ⟨good, wrote₂, found⟩ := data
  have loop : ∀ target, Chip.partialWriteLoop (Chip.pgPacketWrite n) fuel t target { s with efuseBytes := t } =
      ({ s with efuseBytes := t }, some (t, target)) :=
    fun target => partialWriteLoop_end _ target fuel_pos (by omega) free
  rw [Chip.pgPacketWrite, Chip.pgPacketWriteWith, currentSize_spec stream cached]
  simp only [if_neg (show ¬availableLen ≤ t by omega), address, loop, header]
  rw [Chip.writeData]
  dsimp only
  rw [behind]
  refine ⟨_, Prod.ext rfl ?_, wrote₁.trans wrote₂ (by omega) (by omega), ?_, ?_, fun j bound on b two => ?_⟩
  · rw [good]
    rfl
  · rw [wrote₂.content t (by omega)]
    exact some_
  · rw [← packet]
    refine packetAt_header fun x above below => wrote₂.content x (.inl ?_)
    rwa [packet] at below
  · rw [found j (Nat.zero_le j) (by omega) on b two, wordEnableDataRead]
    have word : (j * 2 + b) / 2 = j := by omega
    rw [if_pos ⟨by omega, by rw [word]; exact on⟩]

/-- The stream with the packet, and its map. -/
theorem legible_appended {s s' : Chip} {hs : List Nat} {t o w : Nat} (stream : Legible s.content hs t)
    (low : o < maxSection) (words : w < 15)
    (room : t + headerLen o + 2 * calculateWordCnts (UInt8.ofNat w) < availableLen) {newdata : Map}
    (wrote : Wrote { s with efuseBytes := t } s' t (t + headerLen o + 2 * calculateWordCnts (UInt8.ofNat w)))
    (some_ : s'.content t ≠ 0xFF) (packet : packetAt s'.content t = ⟨t + headerLen o, UInt8.ofNat o, UInt8.ofNat w⟩)
    (found : ∀ j < 4, enabled (UInt8.ofNat w) j = true → ∀ b < 2,
      s'.content (t + headerLen o + 2 * rank (UInt8.ofNat w) j + b) = newdata (j * 2 + b)) :
    Legible s'.content (hs ++ [t]) (t + headerLen o + 2 * calculateWordCnts (UInt8.ofNat w)) ∧
      (WellFormed s.content hs t →
        WellFormed s'.content (hs ++ [t]) (t + headerLen o + 2 * calculateWordCnts (UInt8.ofNat w))) ∧
      Cached s' (t + headerLen o + 2 * calculateWordCnts (UInt8.ofNat w)) ∧
      ∀ x, mapOf s'.content (hs ++ [t]) x =
        if x / 8 = o ∧ enabled (UInt8.ofNat w) (x % 8 / 2) = true then newdata (x % 8) else mapOf s.content hs x := by
  have below : ∀ x < t, s'.content x = s.content x := fun x before => wrote.content x (.inl before)
  have next : (packetAt s'.content t).next = t + headerLen o + 2 * calculateWordCnts (UInt8.ofNat w) := by
    rw [packet]
    rfl
  have last : Steps s'.content t [t] (t + headerLen o + 2 * calculateWordCnts (UInt8.ofNat w)) :=
    .cons some_ (next ▸ .nil _)
  have value : (UInt8.ofNat o).toNat = o := by
    rw [UInt8.toNat_ofNat', Nat.mod_eq_of_lt (low.trans (by decide))]
  have some_word : ∀ w < 15, 0 < calculateWordCnts (UInt8.ofNat w) := by decide
  have own {h : Nat} (old : h ∈ hs) : packetAt s'.content h = packetAt s.content h :=
    packetAt_within stream.steps below old
  have new : (packetAt s'.content t).offset.toNat < maxSection ∧ 0 < calculateWordCnts (packetAt s'.content t).wordEn := by
    rw [packet]
    exact ⟨value.symm ▸ low, some_word w words⟩
  have free : ∀ x, t + headerLen o + 2 * calculateWordCnts (UInt8.ofNat w) ≤ x → x < realContentLen →
      s'.content x = 0xFF := by
    intro x above inside
    rw [wrote.content x (.inr above)]
    exact stream.rest x (by omega) inside
  have fits : t + headerLen o + 2 * calculateWordCnts (UInt8.ofNat w) ≤ realContentLen := by
    rw [availableLen] at room
    omega
  have steps := (stream.steps.congr below).append last
  refine ⟨⟨steps, fits, free, fun h member => ?_⟩, fun formed => ⟨steps, fits, free, fun h member => ?_⟩, ⟨[t], ?_⟩,
    fun x => ?_⟩
  · rcases List.mem_append.mp member with old | at_
    · rw [own old, dead_within stream.steps below old]
      exact stream.packets h old
    · exact List.mem_singleton.mp at_ ▸ .inr new
  · rcases List.mem_append.mp member with old | at_
    · rw [own old]
      exact formed.packets h old
    · exact List.mem_singleton.mp at_ ▸ new
  · rw [wrote.efuseBytes]
    exact last
  · rw [mapOf, placeAll_concat, placeAll_congr stream.steps below, packet, place, ← mapOf]
    dsimp only
    rw [value]
    split
    · rename_i on
      rw [found (x % 8 / 2) (by omega) on.2 (x % 2) (by omega)]
      congr 1
      omega
    · rfl

/-! ## What differs in a section -/

section Sections

variable {efuse map : Map} {addr cnts : Nat}

/-- The words of a section that the bytes below `i` make differ, and the data with these bytes. -/
structure Differs (efuse map : Map) (o i : Nat) (word_en : UInt8) (newdata : Map) : Prop where
  nibble : word_en.toNat < 16
  words : ∀ k < i, efuse (8 * o + k) ≠ map (8 * o + k) → enabled word_en (k / 2) = true
  data : ∀ k < 8, newdata k = if k < i then efuse (8 * o + k) else map (8 * o + k)

theorem mask_word : ∀ w < 16, ∀ j < 4, ∀ k < 4,
    (UInt8.ofNat w &&& ~~~bit k).toNat < 16 ∧
      enabled (UInt8.ofNat w &&& ~~~bit k) j = (enabled (UInt8.ofNat w) j || j == k) := by decide +kernel

namespace Differs

variable {o i : Nat} {word_en : UInt8} {newdata : Map}

theorem changed (before : Differs efuse map o i word_en newdata) (bound : i < 8) :
    Differs efuse map o (i + 1) (word_en &&& ~~~bit (i / 2)) (Function.update newdata i (efuse (8 * o + i))) := by
  have masked := fun j (four : j < 4) => mask_word word_en.toNat before.nibble j four (i / 2) (by omega)
  simp only [UInt8.ofNat_toNat] at masked
  refine ⟨(masked 0 (by decide)).1, fun k below differs => ?_, fun k eight => ?_⟩
  · rw [(masked (k / 2) (by omega)).2]
    by_cases here : k = i
    · simp [here]
    · rw [before.words k (by omega) differs, Bool.true_or]
  · by_cases here : k = i
    · rw [here, Function.update_self, if_pos (Nat.lt_succ_self i)]
    · rw [Function.update_of_ne here, before.data k eight]
      simp only [show k < i + 1 ↔ k < i by omega]

theorem same (before : Differs efuse map o i word_en newdata) (equal : efuse (8 * o + i) = map (8 * o + i)) :
    Differs efuse map o (i + 1) word_en newdata := by
  refine ⟨before.nibble, fun k below differs => ?_, fun k eight => ?_⟩
  · by_cases here : k = i
    · exact absurd (here ▸ equal) differs
    · exact before.words k (by omega) differs
  · rw [before.data k eight]
    by_cases here : k = i
    · simp [here, equal]
    · simp only [show k < i + 1 ↔ k < i by omega]

theorem rest (before : Differs efuse map o i word_en newdata)
    (equal : ∀ k, i ≤ k → k < 8 → efuse (8 * o + k) = map (8 * o + k)) : Differs efuse map o 8 word_en newdata := by
  refine ⟨before.nibble, fun k below differs => ?_, fun k eight => ?_⟩
  · exact before.words k (by_contra fun above => differs (equal k (by omega) below)) differs
  · rw [before.data k eight, if_pos eight]
    split
    · rfl
    · exact (equal k (by omega) eight).symm

/-- The packet makes the section that of the data. -/
theorem made (differs : Differs efuse map o 8 word_en newdata) {x : Nat} (own : x / 8 = o) :
    (if enabled word_en (x % 8 / 2) = true then newdata (x % 8) else map x) = efuse x := by
  have split : 8 * o + x % 8 = x := by omega
  by_cases on : enabled word_en (x % 8 / 2) = true
  · rw [if_pos on, differs.data _ (by omega), if_pos (by omega), split]
  · rw [if_neg on]
    by_contra other
    exact on (differs.words (x % 8) (by omega) (by rw [split]; exact Ne.symm other))

/-- The section's packet in a map that is that of the data up to the section. -/
theorem advance (differs : Differs efuse map o 8 word_en newdata) {m m' : Map}
    (made : ∀ x, m x = if x / 8 < o then efuse x else map x)
    (wrote : ∀ x, m' x = if x / 8 = o ∧ enabled word_en (x % 8 / 2) = true then newdata (x % 8) else m x) (x : Nat) :
    m' x = if x / 8 < o + 1 then efuse x else map x := by
  rw [wrote x, made x]
  by_cases here : x / 8 = o
  · rw [if_neg (show ¬x / 8 < o by omega), if_pos (show x / 8 < o + 1 by omega), ← differs.made here]
    simp only [here, true_and]
  · simp only [here, false_and, if_false, show x / 8 < o + 1 ↔ x / 8 < o by omega]

/-- A section in which nothing differs. -/
theorem skip (differs : Differs efuse map o 8 0x0F newdata) {m : Map}
    (made : ∀ x, m x = if x / 8 < o then efuse x else map x) (x : Nat) :
    m x = if x / 8 < o + 1 then efuse x else map x := by
  have off : ∀ j < 4, enabled 0x0F j = false := by decide
  refine differs.advance made (fun x => ?_) x
  rw [off (x % 8 / 2) (by omega), if_neg fun on => Bool.false_ne_true on.2]

end Differs

theorem diffLoop_spec {o n i idx : Nat} {word_en : UInt8} {newdata : Map}
    (before : Differs efuse map o i word_en newdata) (eight : i + n = 8) (here : addr + idx = 8 * o + i)
    (le : idx ≤ cnts) (behind : ∀ x, addr + cnts ≤ x → efuse x = map x) :
    Differs efuse map o 8 (diffLoop efuse map addr cnts n i idx word_en newdata).1
        (diffLoop efuse map addr cnts n i idx word_en newdata).2.1 ∧
      (diffLoop efuse map addr cnts n i idx word_en newdata).2.2 = min cnts (idx + n) := by
  induction n generalizing i idx word_en newdata with
  | zero =>
      have all : i = 8 := by omega
      exact ⟨all ▸ before, (Nat.min_eq_right le).symm⟩
  | succ n ih =>
      rw [diffLoop]
      by_cases more : idx < cnts
      · rw [if_pos more]
        have next : idx + (n + 1) = idx + 1 + n := by omega
        by_cases differs : efuse (addr + idx) ≠ map (addr + idx)
        · rw [if_pos differs, next, here]
          exact ih (before.changed (by omega)) (by omega) (by omega) more
        · rw [if_neg differs, next]
          rw [here, not_not] at differs
          exact ih (before.same differs) (by omega) (by omega) more
      · rw [if_neg more]
        exact ⟨before.rest fun k above _ => behind _ (by omega), show idx = min cnts (idx + (n + 1)) by omega⟩

/-- Where the outer loop is: at the beginning of the data or of a section, or behind all that differs. -/
structure Position (efuse map : Map) (addr cnts offset idx : Nat) : Prop where
  here : idx < cnts → (addr + idx) / 8 = offset ∧ ((addr + idx) % 8 = 0 ∨ idx = 0)
  done : cnts ≤ idx → ∀ x, offset ≤ x / 8 → efuse x = map x

/-- The data and the map are the same outside what is written. -/
def SameOutside (efuse map : Map) (addr cnts : Nat) : Prop := ∀ x, x < addr ∨ addr + cnts ≤ x → efuse x = map x

/-- One turn of the outer loop. -/
theorem diffSection_spec {offset idx : Nat} (outside : SameOutside efuse map addr cnts)
    (position : Position efuse map addr cnts offset idx) (more : idx < cnts) :
    Differs efuse map offset 8 (diffSection efuse map addr cnts offset idx).1
        (diffSection efuse map addr cnts offset idx).2.1 ∧
      idx < (diffSection efuse map addr cnts offset idx).2.2 ∧
      Position efuse map addr cnts (offset + 1) (diffSection efuse map addr cnts offset idx).2.2 := by
  obtain ⟨section_, start⟩ := position.here more
  have first : Differs efuse map offset ((addr + idx) % 8) 0x0F fun i => map (offset * 8 + i) := by
    refine ⟨by decide, fun k below differs => absurd (outside _ (.inl (by omega))) differs, fun k _ => ?_⟩
    rw [Nat.mul_comm offset 8]
    split
    · exact (outside _ (.inl (by omega))).symm
    · rfl
  obtain ⟨differs, next⟩ := diffLoop_spec first (show (addr + idx) % 8 + (8 - (addr + idx) % 8) = 8 by omega)
    (by omega) more.le fun x above => outside x (.inr above)
  rw [diffSection]
  refine ⟨differs, by rw [next]; omega, fun less => ?_, fun all x above => ?_⟩
  · rw [next] at less ⊢
    omega
  · rw [next] at all
    exact outside x (.inr (by omega))

theorem sizeSections_add (efuse map : Map) (addr cnts n offset idx a b : Nat) :
    sizeSections efuse map addr cnts n offset idx (a + b) = a + sizeSections efuse map addr cnts n offset idx b := by
  induction n generalizing offset idx b with
  | zero => rfl
  | succ n ih =>
      rw [sizeSections, sizeSections]
      dsimp only
      split
      · split
        · rw [Nat.add_assoc, Nat.add_assoc, ih, ← Nat.add_assoc b]
        · exact ih ..
      · rfl

/-! ## rtw_efuse_map_write -/

/-- The loop that writes appends what makes the map that of the data. -/
theorem writeSections_spec {s : Chip} {hs : List Nat} {t n offset idx : Nat} (stream : Legible s.content hs t)
    (cached : Cached s t) (outside : SameOutside efuse map addr cnts) (inside : addr + cnts ≤ mapLen)
    (position : Position efuse map addr cnts offset idx) (turns : cnts ≤ idx + n)
    (room : t + sizeSections efuse map addr cnts n offset idx 0 < availableLen)
    (made : ∀ x, mapOf s.content hs x = if x / 8 < offset then efuse x else map x) :
    ∃ s' hs' t', writeSections (Chip.pgPacketWrite Chip.repeats) efuse map addr cnts n offset idx true s = (s', true) ∧
      Legible s'.content hs' t' ∧ (WellFormed s.content hs t → WellFormed s'.content hs' t') ∧ Cached s' t' ∧
      t' < availableLen ∧ mapOf s'.content hs' = efuse ∧
      ∀ x ∈ s'.written, x ∈ s.written ∨ t ≤ x ∧ x < realContentLen := by
  induction n generalizing s hs t offset idx with
  | zero =>
      refine ⟨s, hs, t, rfl, stream, id, cached, (Nat.le_add_right ..).trans_lt room, funext fun x => ?_,
        fun x old => .inl old⟩
      rw [made x]
      split
      · rfl
      · exact (position.done (by omega) x (by omega)).symm
  | succ n ih =>
      rw [writeSections]
      rw [sizeSections] at room
      by_cases more : idx < cnts
      · have own := position.here more
        have low : offset < maxSection := by
          rw [mapLen] at inside
          rw [maxSection]
          omega
        have turn := diffSection_spec outside position more
        rw [if_pos more] at room ⊢
        generalize diffSection efuse map addr cnts offset idx = r at room turn ⊢
        obtain ⟨word_en, newdata, idx'⟩ := r
        obtain ⟨differs, further, next⟩ := turn
        dsimp only at room differs further next ⊢
        by_cases something : word_en ≠ 0x0F
        · rw [if_pos something] at room ⊢
          rw [Nat.add_assoc, Nat.zero_add, ← headerLen, ← Nat.add_zero (_ + headerLen offset), sizeSections_add] at room
          have words : word_en.toNat < 15 := by
            have other : word_en.toNat ≠ 15 := fun all => something (UInt8.toNat_inj.mp all)
            have nibble := differs.nibble
            omega
          have value : UInt8.ofNat word_en.toNat = word_en := UInt8.ofNat_toNat
          have fits : t + headerLen offset + 2 * calculateWordCnts (UInt8.ofNat word_en.toNat) < availableLen := by
            rw [value]
            omega
          obtain ⟨s₁, appended, wrote, some_, packet, found⟩ := pgPacketWrite_appends (n := Chip.repeats - 1) stream
            cached low words fits newdata
          obtain ⟨stream₁, formed₁, cached₁, made₁⟩ := legible_appended stream low words fits wrote some_ packet
            found
          rw [value] at appended stream₁ formed₁ cached₁ made₁ wrote
          rw [show Chip.repeats = Chip.repeats - 1 + 1 from rfl, appended]
          obtain ⟨s', hs', t', loop, stream', formed', cached', room', done, written⟩ := ih stream₁ cached₁ next
            (by omega) (by omega) (differs.advance made made₁)
          refine ⟨s', hs', t', loop, stream', formed' ∘ formed₁, cached', room', done, fun x new => ?_⟩
          have len : realContentLen = availableLen + 18 := rfl
          rcases written x new with before | here
          · rcases wrote.written x before with old | here
            · exact .inl old
            · exact .inr (by omega)
          · exact .inr (by omega)
        · rw [if_neg something] at room ⊢
          rw [ne_eq, not_not] at something
          exact ih stream cached next (by omega) room ((something ▸ differs).skip made)
      · rw [if_neg more] at room ⊢
        refine ⟨s, hs, t, rfl, stream, id, cached, by omega, funext fun x => ?_, fun x old => .inl old⟩
        rw [made x]
        split
        · rfl
        · exact (position.done (by omega) x (by omega)).symm

end Sections

/-- A stream, and a register that has not been set while there is none. -/
structure Sound (s : Chip) (hs : List Nat) (t : Nat) : Prop where
  stream : WellFormed s.content hs t
  register : s.content 0 = 0xFF → s.efuseBytes = 0

section Reading

variable {s : Chip} {hs : List Nat} {t : Nat}

/-- Reading gives the map, and leaves the end of the stream in the register. -/
theorem mapRead_spec (stream : Legible s.content hs t) (register : s.content 0 = 0xFF → s.efuseBytes = 0) :
    s.mapRead blank = ({ s with efuseBytes := t }, mapOf s.content hs) := by
  rw [Chip.mapRead]
  by_cases empty : s.content 0 = 0xFF
  · obtain ⟨rfl, rfl⟩ := stream.nil_of_empty empty
    rw [readEfuse, if_pos empty, register empty]
    rfl
  · rw [readEfuse_steps stream.steps stream.ends stream.passable stream.early stream.short empty]

theorem cached_end (s : Chip) (t : Nat) : Cached { s with efuseBytes := t } t := ⟨[], .nil t⟩

theorem register_of_cached (stream : Legible s.content hs t) (cached : Cached s t) :
    s.content 0 = 0xFF → s.efuseBytes = 0 := by
  intro empty
  obtain ⟨rest, steps⟩ := cached
  have length := steps.length_le
  have start := (stream.nil_of_empty empty).2
  omega

/-- Where the write starts. -/
theorem startAddr_spec (stream : Legible s.content hs t) :
    (if ({ s with efuseBytes := t } : Chip).efuseBytes = 0 then ({ s with efuseBytes := t } : Chip).currentSize
      else ({ s with efuseBytes := t }, ({ s with efuseBytes := t } : Chip).efuseBytes)) =
      (({ s with efuseBytes := t } : Chip), t) := by
  split
  · exact @currentSize_spec { s with efuseBytes := t } hs t stream (cached_end s t)
  · rfl

end Reading

/-- The data to write, in the map that is there. -/
def requested (map : Map) (addr cnts : Nat) (data : Nat → UInt8) : Map := fun i =>
  if addr ≤ i ∧ i < addr + cnts then data (i - addr) else map i

section Requested

variable (map : Map) (addr cnts : Nat) (data : Nat → UInt8)

theorem requested_outside : SameOutside (requested map addr cnts data) map addr cnts := fun _ away => if_neg (by omega)

theorem requested_start : Position (requested map addr cnts data) map addr cnts (addr / 8) 0 :=
  ⟨fun _ => ⟨rfl, .inr rfl⟩, fun none_ x _ => if_neg (by omega)⟩

theorem requested_before (x : Nat) : map x = if x / 8 < addr / 8 then requested map addr cnts data x else map x := by
  split
  · exact (if_neg (by omega)).symm
  · rfl

end Requested

/-- A map write on a stream that can be read: nothing is written, or the map is that of the data. -/
theorem mapWrite_spec {s : Chip} {hs : List Nat} {t : Nat} (stream : Legible s.content hs t)
    (register : s.content 0 = 0xFF → s.efuseBytes = 0) {addr cnts : Nat} (inside : addr + cnts ≤ mapLen)
    (data : Nat → UInt8) :
    availableLen ≤ t + sizeSections (requested (mapOf s.content hs) addr cnts data) (mapOf s.content hs) addr cnts cnts
        (addr / 8) 0 0 ∧ s.mapWrite addr cnts data = ({ s with efuseBytes := t }, false) ∨
      t + sizeSections (requested (mapOf s.content hs) addr cnts data) (mapOf s.content hs) addr cnts cnts
        (addr / 8) 0 0 < availableLen ∧
        ∃ s' hs' t', s.mapWrite addr cnts data = (s', true) ∧ Legible s'.content hs' t' ∧
          (WellFormed s.content hs t → WellFormed s'.content hs' t') ∧ Cached s' t' ∧ t' < availableLen ∧
          mapOf s'.content hs' = requested (mapOf s.content hs) addr cnts data ∧
          ∀ x ∈ s'.written, x ∈ s.written ∨ t ≤ x ∧ x < realContentLen := by
  rw [Chip.mapWrite, if_neg (Nat.not_lt.mpr inside), mapRead_spec stream register]
  dsimp only
  rw [startAddr_spec stream]
  dsimp only
  by_cases full : availableLen ≤ t + sizeSections (requested (mapOf s.content hs) addr cnts data) (mapOf s.content hs)
      addr cnts cnts (addr / 8) 0 0
  · exact .inl ⟨full, if_pos full⟩
  · have room := Nat.not_le.mp full
    obtain ⟨s', hs', t', done, spec⟩ := writeSections_spec (s := { s with efuseBytes := t }) stream (cached_end s t)
      (requested_outside _ _ _ _) inside (requested_start _ _ _ _) (Nat.le_add_left ..) room (requested_before _ _ _ _)
    exact .inr ⟨room, s', hs', t', (if_neg full).trans done, spec⟩

/-- Writing the map fails without a byte written, or it updates the map by bytes that were 0xFF. -/
theorem map_write_updates {s : Chip} {hs : List Nat} {t : Nat} (sound : Sound s hs t) {addr cnts : Nat}
    (inside : addr + cnts ≤ mapLen) (data : Nat → UInt8) :
    ∃ s' hs' t', Sound s' hs' t' ∧ (∀ x ∈ s'.written, x ∈ s.written ∨ s.content x = 0xFF) ∧
      (s.mapWrite addr cnts data = (s', false) ∧ s'.content = s.content ∧ s'.written = s.written ∨
        s.mapWrite addr cnts data = (s', true) ∧ t' < availableLen ∧
          ∀ x, (s'.mapRead blank).2 x =
            if addr ≤ x ∧ x < addr + cnts then data (x - addr) else (s.mapRead blank).2 x) := by
  have stream := sound.stream.legible
  rcases mapWrite_spec stream sound.register inside data with ⟨-, failed⟩ |
    ⟨-, s', hs', t', done, stream', formed', cached', room', made, written⟩
  · refine ⟨{ s with efuseBytes := t }, hs, t, ⟨sound.stream, ?_⟩, fun x old => .inl old, .inl ⟨failed, rfl, rfl⟩⟩
    exact register_of_cached (s := { s with efuseBytes := t }) stream (cached_end s t)
  · have register' := register_of_cached stream' cached'
    refine ⟨s', hs', t', ⟨formed' sound.stream, register'⟩, fun x new => ?_, .inr ⟨done, room', fun x => ?_⟩⟩
    · exact (written x new).imp_right fun here => stream.rest x here.1 here.2
    · rw [mapRead_spec stream' register', mapRead_spec stream sound.register, made]
      rfl

/-- A chip that has been read with the words 0 and 1 of the section 0. -/
def twoWordsChip : Chip := ⟨twoWords, 5, 63, []⟩

theorem twoWordsChip_sound : Sound twoWordsChip [0] 5 := by
  refine ⟨⟨.cons (by decide) (.nil 5), by decide, fun x above _ => ?_, fun h member => ?_⟩, fun empty => ?_⟩
  · exact List.getD_eq_default _ _ above
  · rw [List.mem_singleton.mp member]
    decide
  · exact absurd empty (by decide)

theorem map_write_updates_word :
    ((twoWordsChip.mapWrite 2 3 fun _ => 0x55).1.mapRead blank).2 4 = 0x55 := by
  obtain ⟨s', hs', t', -, -, ⟨failed, -⟩ | ⟨done, -, read⟩⟩ :=
    map_write_updates twoWordsChip_sound (show 2 + 3 ≤ mapLen by decide) fun _ => 0x55
  · have writes : (twoWordsChip.mapWrite 2 3 fun _ => 0x55).2 = true := by decide +kernel
    rw [failed] at writes
    exact absurd writes Bool.false_ne_true
  · rw [done, read 4, if_pos (by decide)]

end Vmac.Efuse
