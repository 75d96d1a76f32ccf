/-
# Vmac.Efuse.Stream -- packets in the efuse: rtw_efuse.h, rtw_efuse.c

The efuse holds a stream of packets from the address 0 on.  A packet has a header of one byte,
or of two when the first is an extended one, that names a section and the words of it that
follow, least significant bit first and enabled by a zero; 0xFF in the place of a header ends
the stream.  A later packet overrides an earlier one word by word.

* `Steps f a hs t`: packets with their headers at `hs` lead from `a` to `t`.
* `mapOf`: the map that packets make.
-/
import Mathlib.Data.List.Basic
import Mathlib.Data.Nat.Bitwise
import Mathlib.Tactic.Ring

namespace Vmac.Efuse

set_option autoImplicit false

/-- The physical efuse. -/
abbrev Content := Nat → UInt8

/-- The map of the sections. -/
abbrev Map := Nat → UInt8

/-- `EFUSE_REAL_CONTENT_LEN_JAGUAR`. -/
def realContentLen : Nat := 512

/-- `EFUSE_MAP_LEN_JAGUAR`. -/
def mapLen : Nat := 512

/-- `EFUSE_MAX_SECTION_JAGUAR`. -/
def maxSection : Nat := 64

/-- `EFUSE_MAX_WORD_UNIT`. -/
def maxWordUnit : Nat := 4

/-! ## Headers -/

/-- `EXT_HEADER`. -/
def extHeader (header : UInt8) : Bool := header &&& 0x1F == 0x0F

/-- `ALL_WORDS_DISABLED`. -/
def allWordsDisabled (wde : UInt8) : Bool := wde &&& 0x0F == 0x0F

/-- The section of an extended header. -/
def extOffset (header ext : UInt8) : UInt8 := (header &&& 0xE0) >>> 5 ||| (ext &&& 0xF0) >>> 1

/-- The section of a header of one byte. -/
def hdrOffset (header : UInt8) : UInt8 := header >>> 4 &&& 0x0F

def wordEn (header : UInt8) : UInt8 := header &&& 0x0F

/-- `!(word_en & BIT(i))`. -/
def enabled (wordEn : UInt8) (i : Nat) : Bool := wordEn &&& UInt8.ofNat (2 ^ i) == 0

/-- `Efuse_CalculateWordCnts`. -/
def calculateWordCnts (wordEn : UInt8) : Nat :=
  (enabled wordEn 0).toNat + (enabled wordEn 1).toNat + (enabled wordEn 2).toNat + (enabled wordEn 3).toNat

/-- How many words are enabled below the word `i`. -/
def rank (wordEn : UInt8) (i : Nat) : Nat := (List.range i).countP (enabled wordEn)

theorem rank_succ (w : UInt8) (i : Nat) : rank w (i + 1) = rank w i + (enabled w i).toNat := by
  rw [rank, List.range_succ, List.countP_append, ← rank, List.countP_singleton]
  cases enabled w i <;> rfl

theorem rank_four (w : UInt8) : rank w 4 = calculateWordCnts w := by
  rw [rank_succ, rank_succ, rank_succ, rank_succ, calculateWordCnts]
  simp [rank]

theorem rank_mono (w : UInt8) {i j : Nat} (le : i ≤ j) : rank w i ≤ rank w j := by
  induction j, le using Nat.le_induction with
  | base => exact le_rfl
  | succ j _ ih =>
      rw [rank_succ]
      omega

/-- An enabled word has its two bytes among the data. -/
theorem rank_lt {w : UInt8} {i j : Nat} (lt : i < j) (on : enabled w i = true) : rank w i < rank w j := by
  have next := rank_mono w lt
  rw [rank_succ, on] at next
  exact next

theorem enabled_eq_testBit {i : Nat} (w : UInt8) (bound : i < 8) : enabled w i = !w.toNat.testBit i := by
  have pow : 2 ^ i < 2 ^ 8 := Nat.pow_lt_pow_right (by omega) bound
  have value : (w &&& UInt8.ofNat (2 ^ i)).toNat = w.toNat &&& 2 ^ i := by
    rw [UInt8.toNat_and, UInt8.toNat_ofNat', Nat.mod_eq_of_lt pow]
  rw [enabled, Bool.eq_iff_iff, beq_iff_eq, ← UInt8.toNat_inj, value, UInt8.toNat_zero, Nat.and_two_pow]
  cases w.toNat.testBit i <;> simp

/-- `wren >>= 1`. -/
theorem enabled_shiftRight {i : Nat} (w : UInt8) (bound : i < 7) : enabled (w >>> 1) i = enabled w (i + 1) := by
  rw [enabled_eq_testBit _ (by omega), enabled_eq_testBit _ (by omega), UInt8.toNat_shiftRight, Nat.testBit_shiftRight]
  congr 2
  exact Nat.add_comm 1 i

/-! ## Packets -/

structure Packet where
  /-- The address of the first byte behind the header. -/
  data : Nat
  offset : UInt8
  wordEn : UInt8
  deriving DecidableEq, Repr

/-- The packet whose header is at an address. -/
def packetAt (f : Content) (a : Nat) : Packet :=
  if extHeader (f a) then ⟨a + 2, extOffset (f a) (f (a + 1)), wordEn (f (a + 1))⟩
  else ⟨a + 1, hdrOffset (f a), wordEn (f a)⟩

/-- The address of the next header. -/
def Packet.next (p : Packet) : Nat := p.data + 2 * calculateWordCnts p.wordEn

theorem lt_data (f : Content) (a : Nat) : a < (packetAt f a).data := by
  rw [packetAt]
  split
  · exact Nat.lt_add_of_pos_right (by omega)
  · exact Nat.lt_succ_self a

theorem data_le_next (p : Packet) : p.data ≤ p.next := Nat.le_add_right ..

theorem lt_next (f : Content) (a : Nat) : a < (packetAt f a).next := (lt_data f a).trans_le (data_le_next _)

/-- Packets with their headers at `hs` lead from an address to another. -/
inductive Steps (f : Content) : Nat → List Nat → Nat → Prop
  | nil (a : Nat) : Steps f a [] a
  | cons {a t : Nat} {hs : List Nat} (header : f a ≠ 0xFF) (rest : Steps f (packetAt f a).next hs t) :
      Steps f a (a :: hs) t

namespace Steps

variable {f f' : Content} {a b t : Nat} {hs hs' : List Nat}

theorem length_le (steps : Steps f a hs t) : a + hs.length ≤ t := by
  induction steps with
  | nil a => exact le_rfl
  | cons header rest ih =>
      rename_i a _ _
      have further := lt_next f a
      rw [List.length_cons]
      omega

theorem next_le (steps : Steps f a hs t) : ∀ h ∈ hs, a ≤ h ∧ (packetAt f h).next ≤ t := by
  induction steps with
  | nil a => exact nofun
  | cons header rest ih =>
      rename_i a _ _
      intro h inside
      rcases List.mem_cons.mp inside with rfl | later
      · exact ⟨le_rfl, (Nat.le_add_right ..).trans rest.length_le⟩
      · have further := lt_next f a
        exact ⟨by have := (ih h later).1; omega, (ih h later).2⟩

theorem append (steps : Steps f a hs b) (more : Steps f b hs' t) : Steps f a (hs ++ hs') t := by
  induction steps with
  | nil a => exact more
  | cons header rest ih => exact .cons header (ih more)

/-- The first packet is that of a content that agrees up to the end. -/
theorem packetAt_congr (steps : Steps f a (b :: hs) t) (same : ∀ i < t, f' i = f i) : packetAt f' a = packetAt f a := by
  cases steps with
  | cons header rest =>
      have first := lt_data f a
      have next := data_le_next (packetAt f a)
      have length := rest.length_le
      have second : a + 1 < t ∨ extHeader (f a) = false := by
        cases ext : extHeader (f a) with
        | false => exact .inr rfl
        | true =>
            have data : (packetAt f a).data = a + 2 := by rw [packetAt, if_pos ext]
            exact .inl (by omega)
      rw [packetAt, packetAt, same a (by omega)]
      rcases second with second | one
      · rw [same _ second]
      · rw [one]
        rfl

/-- The packets are those of a content that agrees up to their end. -/
theorem congr (steps : Steps f a hs t) (same : ∀ i < t, f' i = f i) : Steps f' a hs t := by
  induction steps with
  | nil a => exact .nil a
  | cons header rest ih =>
      rename_i a t hs
      have first : a < t := (lt_next f a).trans_le ((Nat.le_add_right ..).trans rest.length_le)
      have packet := (Steps.cons header rest).packetAt_congr same
      exact .cons (same a first ▸ header) (packet ▸ ih same)

end Steps

/-! ## The map -/

def blank : Map := fun _ => 0xFF

/-- A packet puts its words into the map. -/
def place (f : Content) (p : Packet) (m : Map) : Map := fun i =>
  if i / 8 = p.offset.toNat ∧ enabled p.wordEn (i % 8 / 2) = true then
    f (p.data + 2 * rank p.wordEn (i % 8 / 2) + i % 2)
  else m i

/-- The map that the packets with their headers at `hs` make of another. -/
def placeAll (f : Content) (hs : List Nat) (m : Map) : Map := hs.foldl (fun m h => place f (packetAt f h) m) m

/-- The map of a stream. -/
def mapOf (f : Content) (hs : List Nat) : Map := placeAll f hs blank

@[simp] theorem placeAll_cons (f : Content) (h : Nat) (hs : List Nat) (m : Map) :
    placeAll f (h :: hs) m = placeAll f hs (place f (packetAt f h) m) := rfl

end Vmac.Efuse
