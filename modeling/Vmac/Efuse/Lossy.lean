/-
# Vmac.Efuse.Lossy -- writing an efuse that may lose a byte: rtw_efuse.c, rtl8812a_hal_init.c

`efuse_OneByteWrite` reports a byte that was not burnt, and its callers ignore that: the byte reads 0xFF, and each
function finds out by what it reads back, or not at all.  Here the functions of `Vmac.Efuse.Write` have the write of a
byte as an argument.

* `mapWrite_keeps`: with a write that always succeeds they are those of `Vmac.Efuse.Write`.
* `loses`: a write that fails by a pattern.
-/
import Vmac.Efuse.Write

namespace Vmac.Efuse

set_option autoImplicit false

/-- `efuse_OneByteWrite`. -/
abbrev Writer := Nat → UInt8 → Chip → Chip

/-- Every byte takes its value. -/
def keeps : Writer := fun addr data s => s.oneByteWrite addr data

/-- The `k`th attempt to burn the byte at `addr` fails if `lost addr k`. -/
def loses (lost : Nat → Nat → Bool) : Writer := fun addr data s =>
  if lost addr (s.written.count addr) then { s with written := addr :: s.written } else s.oneByteWrite addr data

namespace Writer

variable (write : Writer)

/-- `Hal_EfuseWordEnableDataWrite8812A`, from the word `i` on. -/
def wordEnableDataWrite (wordEn : UInt8) (data : Map) : Nat → Nat → Nat → UInt8 → Chip → Chip × UInt8
  | 0, _, _, badworden, s => (s, badworden)
  | n + 1, i, addr, badworden, s =>
      if enabled wordEn i then
        let s := write (addr + 1) (data (i * 2 + 1)) (write addr (data (i * 2)) s)
        let badworden :=
          if data (i * 2) ≠ s.content addr ∨ data (i * 2 + 1) ≠ s.content (addr + 1) then badworden &&& ~~~bit i
          else badworden
        wordEnableDataWrite wordEn data n (i + 1) (addr + 2) badworden s
      else wordEnableDataWrite wordEn data n (i + 1) addr badworden s

/-- The attempts at a byte of a header. -/
def writeHeaderByte (addr : Nat) (pgHeader : UInt8) : Nat → Nat → Chip → Chip × Option Nat
  | 0, _, s => (s, none)
  | n + 1, repeatcnt, s =>
      let s := write addr pgHeader s
      if s.content addr = 0xFF ∨ pgHeader ≠ s.content addr then
        if repeatThreshold < repeatcnt then (s, none) else writeHeaderByte addr pgHeader n (repeatcnt + 1) s
      else (s, some repeatcnt)

/-- `hal_EfusePgPacketWrite1ByteHeader`. -/
def write1ByteHeader (s : Chip) (pkt : PgPkt) (addr : Nat) : Chip × Option Nat :=
  let (s, done) := writeHeaderByte write addr (pkt.offset <<< 4 &&& 0xF0 ||| pkt.wordEn) Chip.repeats 0 s
  (s, done.map fun _ => addr)

/-- The loop of `hal_EfusePgPacketWrite2ByteHeader`. -/
def write2ByteLoop (pkt : PgPkt) : Nat → Nat → Nat → Chip → Chip × Option Nat
  | 0, _, addr, s => (s, some addr)
  | n + 1, repeatcnt, addr, s =>
      if availableLen ≤ addr then (s, some addr)
      else
        match writeHeaderByte write addr ((pkt.offset &&& 0x07) <<< 5 ||| 0x0F) Chip.repeats repeatcnt s with
        | (s, none) => (s, none)
        | (s, some repeatcnt) =>
            match writeHeaderByte write (addr + 1) ((pkt.offset &&& 0x78) <<< 1 ||| pkt.wordEn) Chip.repeats repeatcnt
                s with
            | (s, none) => (s, none)
            | (s, some repeatcnt) =>
                if s.content (addr + 1) &&& 0x0F = 0x0F then
                  if repeatThreshold < repeatcnt then (s, none) else write2ByteLoop pkt n (repeatcnt + 1) (addr + 2) s
                else (s, some (addr + 1))

/-- `hal_EfusePgPacketWrite2ByteHeader`. -/
def write2ByteHeader (s : Chip) (pkt : PgPkt) (addr : Nat) : Chip × Option Nat :=
  if availableLen ≤ addr then (s, none) else write2ByteLoop write pkt Chip.repeats 0 addr s

/-- `efuse_PgPacketWriteHeader`. -/
def writeHeader (s : Chip) (pkt : PgPkt) (addr : Nat) : Chip × Option Nat :=
  if maxSectionBase ≤ pkt.offset.toNat then write2ByteHeader write s pkt addr else write1ByteHeader write s pkt addr

/-- `hal_EfusePgPacketWriteData`. -/
def writeData (s : Chip) (pkt : PgPkt) (addr : Nat) : Chip × Bool :=
  let (s, badworden) := wordEnableDataWrite write pkt.wordEn pkt.data 4 0 (addr + 1) 0x0F s
  (s, badworden == 0x0F)

/-- Three attempts to write a byte. -/
def tryWrite (s : Chip) (addr : Nat) (data : UInt8) : Nat → Chip
  | 0 => s
  | n + 1 =>
      let s := write addr data s
      if s.content addr = data then s else tryWrite s addr data n

/-- `Hal_EfusePgPacketExceptionHandle_8812A`. -/
def exceptionHandle (s : Chip) (errOffset : Nat) : Chip × Nat :=
  let header := s.content errOffset
  if extHeader header then
    let offset := errOffset + 1
    if s.content (offset + 1) = 0xFF ∧ s.content (offset + 2) = 0xFF then
      if header >>> 4 = 0x0E then
        let s := write offset 0x17 s
        (write (offset + 2) 0xFF (write (offset + 1) 0xFF s), offset + 3)
      else (tryWrite write s offset 0x27 3, errOffset)
    else if allWordsDisabled header ∧ s.content (offset + 1) = 0xFF then
      let s := tryWrite write s offset (header &&& 0xF0 ||| 0x07) 3
      (write (offset + 2) 0xFF (write (offset + 1) 0xFF s), offset + 2)
    else (s, errOffset)
  else (s, errOffset)

/-- The loop of `efuse_PgPacketPartialWrite`. -/
def partialWriteLoop (again : UInt8 → UInt8 → Map → Chip → Chip × Bool) :
    Nat → Nat → PgPkt → Chip → Chip × Option (Nat × PgPkt)
  | 0, _, _, s => (s, none)
  | n + 1, startAddr, target, s =>
      if availableLen ≤ startAddr then (s, none)
      else if s.content startAddr = 0xFF then (s, some (startAddr, target))
      else if extHeader (s.content startAddr) && allWordsDisabled (s.content (startAddr + 1)) then
        let (s, recovered) := exceptionHandle write s startAddr
        if recovered = startAddr then (s, none) else partialWriteLoop again n recovered target s
      else
        let s :=
          if !extHeader (s.content startAddr) && allWordsDisabled (s.content startAddr) then
            (exceptionHandle write s startAddr).1
          else s
        let (offset, word_en, startAddr) :=
          if extHeader (s.content startAddr) then
            (extOffset (s.content startAddr) (s.content (startAddr + 1)), wordEn (s.content (startAddr + 1)),
              startAddr + 1)
          else (hdrOffset (s.content startAddr), wordEn (s.content startAddr), startAddr)
        if s.maxSecNum < offset.toNat then (s, none)
        else
          let wordCnts := calculateWordCnts word_en
          let matched := Chip.matchedWden target.wordEn word_en
          if offset = target.offset ∧ s.checkIfDatafollowed wordCnts (startAddr + 1) = false ∧ matched ≠ 0x0F then
            let (s, badworden) := wordEnableDataWrite write matched target.data 4 0 (startAddr + 1) 0x0F s
            let (s, ok) := if badworden ≠ 0x0F then again target.offset badworden target.data s else (s, true)
            if ok then
              partialWriteLoop again n (startAddr + wordCnts * 2 + 1)
                { target with wordEn := target.wordEn ||| (~~~matched &&& 0x0F) } s
            else (s, none)
          else partialWriteLoop again n (startAddr + wordCnts * 2 + 1) target s

/-- `hal_EfusePgPacketWrite_8812A`, which the partial write may call `again`. -/
def pgPacketWriteWith (again : UInt8 → UInt8 → Map → Chip → Chip × Bool) (offset word_en : UInt8) (pData : Map)
    (s : Chip) : Chip × Bool :=
  let (s, size) := s.currentSize
  if availableLen ≤ size then (s, false)
  else
    let target : PgPkt := ⟨offset, word_en, wordEnableDataRead word_en pData blank⟩
    match partialWriteLoop write again fuel (s.efuseBytes % realContentLen) target s with
    | (s, none) => (s, false)
    | (s, some (startAddr, target)) =>
        match writeHeader write s target startAddr with
        | (s, none) => (s, false)
        | (s, some startAddr) => writeData write s target startAddr

/-- `hal_EfusePgPacketWrite_8812A`. -/
def pgPacketWrite : Nat → UInt8 → UInt8 → Map → Chip → Chip × Bool
  | 0, _, _, _, s => (s, false)
  | n + 1, offset, word_en, pData, s => pgPacketWriteWith write (pgPacketWrite n) offset word_en pData s

/-- `rtw_efuse_map_write` with `boffefusemask` set. -/
def mapWrite (s : Chip) (addr cnts : Nat) (data : Nat → UInt8) : Chip × Bool :=
  if mapLen < addr + cnts then (s, false)
  else
    let (s, map) := s.mapRead blank
    let efuse : Map := fun i => if addr ≤ i ∧ i < addr + cnts then data (i - addr) else map i
    let total := sizeSections efuse map addr cnts cnts (addr / 8) 0 0
    let (s, startAddr) := if s.efuseBytes = 0 then s.currentSize else (s, s.efuseBytes)
    if availableLen ≤ startAddr + total then (s, false)
    else writeSections (pgPacketWrite write Chip.repeats) efuse map addr cnts cnts (addr / 8) 0 true s

end Writer

/-! ## A write that always succeeds -/

section Keeps

theorem wordEnableDataWrite_keeps : Writer.wordEnableDataWrite keeps = Chip.wordEnableDataWrite := by
  funext w data n
  induction n with
  | zero => rfl
  | succ n ih =>
      funext i addr bad s
      rw [Writer.wordEnableDataWrite, Chip.wordEnableDataWrite, ih]
      rfl

theorem writeHeaderByte_keeps : Writer.writeHeaderByte keeps = Chip.writeHeaderByte := by
  funext addr header n
  induction n with
  | zero => rfl
  | succ n ih =>
      funext repeatcnt s
      rw [Writer.writeHeaderByte, Chip.writeHeaderByte, ih]
      rfl

theorem write2ByteLoop_keeps : Writer.write2ByteLoop keeps = Chip.write2ByteLoop := by
  funext pkt n
  induction n with
  | zero => rfl
  | succ n ih =>
      funext repeatcnt addr s
      rewrite [Writer.write2ByteLoop, Chip.write2ByteLoop, ih, writeHeaderByte_keeps]
      rfl

theorem writeHeader_keeps : Writer.writeHeader keeps = Chip.writeHeader := by
  funext s pkt addr
  simp only [Writer.writeHeader, Chip.writeHeader, Writer.write2ByteHeader, Chip.write2ByteHeader,
    Writer.write1ByteHeader, Chip.write1ByteHeader, write2ByteLoop_keeps, writeHeaderByte_keeps]

theorem tryWrite_keeps (s : Chip) (addr : Nat) (data : UInt8) (n : Nat) :
    Writer.tryWrite keeps s addr data n = s.tryWrite addr data n := by
  induction n generalizing s with
  | zero => rfl
  | succ n ih =>
      rw [Writer.tryWrite, Chip.tryWrite, ih]
      rfl

theorem exceptionHandle_keeps : Writer.exceptionHandle keeps = Chip.exceptionHandle := by
  funext s errOffset
  simp only [Writer.exceptionHandle, Chip.exceptionHandle, tryWrite_keeps, keeps]

theorem partialWriteLoop_keeps : Writer.partialWriteLoop keeps = Chip.partialWriteLoop := by
  funext again n
  induction n with
  | zero => rfl
  | succ n ih =>
      funext startAddr target s
      simp only [Writer.partialWriteLoop, Chip.partialWriteLoop, ih, exceptionHandle_keeps, wordEnableDataWrite_keeps]

theorem pgPacketWriteWith_keeps (again : UInt8 → UInt8 → Map → Chip → Chip × Bool) (offset word_en : UInt8)
    (pData : Map) (s : Chip) :
    Writer.pgPacketWriteWith keeps again offset word_en pData s = Chip.pgPacketWriteWith again offset word_en pData s := by
  unfold Writer.pgPacketWriteWith Chip.pgPacketWriteWith
  generalize s.currentSize = sized
  generalize fuel = n
  obtain ⟨s, size⟩ := sized
  simp only [partialWriteLoop_keeps, writeHeader_keeps]
  split
  · rfl
  · generalize Chip.partialWriteLoop again n _ _ s = recovered
    obtain ⟨s₁, _ | ⟨startAddr, target⟩⟩ := recovered
    · rfl
    · dsimp only
      generalize s₁.writeHeader target startAddr = header
      obtain ⟨s₂, _ | addr⟩ := header
      · rfl
      · simp only [Writer.writeData, Chip.writeData, wordEnableDataWrite_keeps]

theorem pgPacketWrite_keeps : Writer.pgPacketWrite keeps = Chip.pgPacketWrite := by
  funext n
  induction n with
  | zero => rfl
  | succ n ih =>
      funext offset word_en pData s
      rw [Writer.pgPacketWrite, Chip.pgPacketWrite, ih]
      exact pgPacketWriteWith_keeps _ offset word_en pData s

/-- With a write that always succeeds the functions are those of `Vmac.Efuse.Write`. -/
theorem mapWrite_keeps : Writer.mapWrite keeps = Chip.mapWrite := by
  funext s addr cnts data
  simp only [Writer.mapWrite, Chip.mapWrite, pgPacketWrite_keeps]

theorem loses_nothing : loses (fun _ _ => false) = keeps := rfl

end Keeps

end Vmac.Efuse
