/-
# Vmac.Efuse.FailedWrite -- what a map write leaves behind that fails

`rtw_efuse_map_write` burns the header of a packet and then its data.  A lost byte of a header ends the write before the
packet is there; at most an extended header without words stays behind, and the readers step over it.  A lost byte of the
data ends it behind a packet that overrides the map with 0xFF.

* `Spares`: no data byte is lost over a byte of the map that is not 0xFF.
* `failed_write_iff`: exactly then a failed write damages nothing.
-/
import Vmac.Efuse.Lossy

namespace Vmac.Efuse

set_option autoImplicit false

variable {lost : Nat → Nat → Bool} {s : Chip} {hs : List Nat} {t : Nat}

/-! ## One byte -/

theorem loses_wrote (addr : Nat) (data : UInt8) (s : Chip) : Wrote s (loses lost addr data s) addr (addr + 1) := by
  rw [loses]
  split
  · refine ⟨fun _ _ => rfl, fun x inside => ?_, rfl⟩
    rcases List.mem_cons.mp inside with rfl | old
    · exact .inr ⟨le_rfl, Nat.lt_succ_self x⟩
    · exact .inl old
  · exact .oneByteWrite s addr data

theorem loses_content (addr : Nat) (data : UInt8) (s : Chip) :
    (loses lost addr data s).content =
      if lost addr (s.written.count addr) = true then s.content else Function.update s.content addr data := by
  rw [loses]
  split <;> rfl

theorem loses_count (addr : Nat) (data : UInt8) (s : Chip) :
    (loses lost addr data s).written.count addr = s.written.count addr + 1 := by
  rw [loses]
  split <;> simp [Chip.oneByteWrite]

/-- No byte from `t` on has been written. -/
def Fresh (s : Chip) (t : Nat) : Prop := ∀ x ∈ s.written, x < t

theorem Fresh.count {x : Nat} (fresh : Fresh s t) (above : t ≤ x) : s.written.count x = 0 :=
  List.count_eq_zero.mpr fun inside => Nat.lt_irrefl x ((fresh x inside).trans_le above)

theorem Fresh.next {s' : Chip} {hi : Nat} (fresh : Fresh s t) (wrote : Wrote s s' t hi) (le : t ≤ hi) : Fresh s' hi := by
  intro x inside
  rcases wrote.written x inside with old | here
  · exact (fresh x old).trans_le le
  · exact here.2

/-! ## Headers -/

/-- The attempts at a byte of a header: one is kept within the limit, or all are lost. -/
theorem writeHeaderByte_loses (lost : Nat → Nat → Bool) {addr n repeatcnt : Nat} {pgHeader : UInt8}
    (header : pgHeader ≠ 0xFF) (s : Chip) (free : s.content addr = 0xFF) (enough : repeatThreshold + 2 ≤ n + repeatcnt)
    (low : repeatcnt ≤ repeatThreshold + 1) :
    (∃ k s', repeatcnt + k ≤ repeatThreshold + 1 ∧ lost addr (s.written.count addr + k) = false ∧
        (∀ j < k, lost addr (s.written.count addr + j) = true) ∧
        Writer.writeHeaderByte (loses lost) addr pgHeader n repeatcnt s = (s', some (repeatcnt + k)) ∧
        s'.content = Function.update s.content addr pgHeader ∧ Wrote s s' addr (addr + 1)) ∨
      (∀ k, repeatcnt + k ≤ repeatThreshold + 1 → lost addr (s.written.count addr + k) = true) ∧
        ∃ s', Writer.writeHeaderByte (loses lost) addr pgHeader n repeatcnt s = (s', none) ∧ s'.content = s.content ∧
          Wrote s s' addr (addr + 1) := by
  induction n generalizing repeatcnt s with
  | zero => omega
  | succ n ih =>
      have count := @loses_count lost addr pgHeader s
      have content := @loses_content lost addr pgHeader s
      have wrote := @loses_wrote lost addr pgHeader s
      rw [Writer.writeHeaderByte]
      cases first : lost addr (s.written.count addr) with
      | false =>
          rw [first, if_neg Bool.false_ne_true] at content
          have value : (loses lost addr pgHeader s).content addr = pgHeader := by rw [content, Function.update_self]
          refine .inl ⟨0, _, low, first, fun j less => absurd less (Nat.not_lt_zero j), ?_, content, wrote⟩
          rw [value, if_neg (by simp [header])]
          rfl
      | true =>
          rw [first, if_pos rfl] at content
          rw [content, if_pos (.inl free)]
          by_cases beyond : repeatThreshold < repeatcnt
          · rw [if_pos beyond]
            refine .inr ⟨fun k within => ?_, _, rfl, content, wrote⟩
            have zero : k = 0 := by omega
            rw [zero]
            exact first
          · rw [if_neg beyond]
            have free' : (loses lost addr pgHeader s).content addr = 0xFF := by rw [content, free]
            rcases @ih (repeatcnt + 1) (loses lost addr pgHeader s) free' (by omega) (by omega) with
              ⟨k, s', within, kept, before, done, content', wrote'⟩ | ⟨all, s', failed, content', wrote'⟩
            · rw [count] at kept before
              refine .inl ⟨k + 1, s', by omega, ?_, fun j less => ?_, ?_, ?_, wrote.join wrote'⟩
              · rwa [← Nat.add_assoc, Nat.add_right_comm]
              · cases j with
                | zero => exact first
                | succ j =>
                    have lost' := before j (Nat.lt_of_succ_lt_succ less)
                    rwa [← Nat.add_assoc, Nat.add_right_comm]
              · rw [done, Nat.add_right_comm, Nat.add_assoc]
              · rw [content', content]
            · rw [count] at all
              refine .inr ⟨fun k within => ?_, s', failed, content'.trans content, wrote.join wrote'⟩
              cases k with
              | zero => exact first
              | succ k =>
                  have lost' := all k (by omega)
                  rwa [← Nat.add_assoc, Nat.add_right_comm]

/-- Each byte of the header of section `o` at `t` is burnt in one of the attempts that are made. -/
def HeaderBurns (lost : Nat → Nat → Bool) (o t : Nat) : Prop :=
  if maxSectionBase ≤ o then
    ∃ j k, j + k ≤ repeatThreshold + 1 ∧ lost t j = false ∧ lost (t + 1) k = false
  else ∃ k ≤ repeatThreshold + 1, lost t k = false

/-- `efuse_PgPacketWriteHeader`: the header is there, or at most an extended header without words. -/
theorem writeHeader_loses {o w : Nat} (low : o < maxSection) (words : w < 15) (room : t < availableLen) (data : Map)
    (fresh : Fresh s t) (free : ∀ x, t ≤ x → x < realContentLen → s.content x = 0xFF) :
    (HeaderBurns lost o t ∧ ∃ s',
        Writer.writeHeader (loses lost) s ⟨UInt8.ofNat o, UInt8.ofNat w, data⟩ t = (s', some (t + headerLen o - 1)) ∧
        Wrote s s' t (t + headerLen o) ∧ s'.content t ≠ 0xFF ∧
        packetAt s'.content t = ⟨t + headerLen o, UInt8.ofNat o, UInt8.ofNat w⟩) ∨
      ¬HeaderBurns lost o t ∧ ∃ s',
        Writer.writeHeader (loses lost) s ⟨UInt8.ofNat o, UInt8.ofNat w, data⟩ t = (s', none) ∧
        Wrote s s' t (t + 2) ∧
        (s'.content = s.content ∨ s'.content t ≠ 0xFF ∧ dead s'.content t = true ∧
          ∀ x, x ≠ t → s'.content x = s.content x) := by
  have value : (UInt8.ofNat o).toNat = o := by
    rw [UInt8.toNat_ofNat', Nat.mod_eq_of_lt (low.trans (by decide))]
  have len : realContentLen = availableLen + 18 := rfl
  have here := free t le_rfl (by omega)
  have behind := free (t + 1) (Nat.le_succ t) (by omega)
  have count := fresh.count (le_refl t)
  rw [Writer.writeHeader, headerLen, HeaderBurns, value]
  by_cases two : maxSectionBase ≤ o
  · obtain ⟨first, second, ext, some_word, offset, word⟩ := header_two o low w words
    simp only [if_pos two]
    rw [Writer.write2ByteHeader, if_neg (by omega), show Chip.repeats = 5 + 1 from rfl, Writer.write2ByteLoop,
      if_neg (by omega), show Chip.repeats = 6 from rfl]
    dsimp only
    rcases @writeHeaderByte_loses lost t 6 0 _ first s here (by decide) (by decide) with
      ⟨j, s₁, within, kept, before, done, content, wrote⟩ | ⟨all, s₁, failed, content, wrote⟩
    · rw [count, Nat.zero_add] at kept
      simp only [count, Nat.zero_add] at before
      rw [done]
      dsimp only
      have value₁ : s₁.content t = (UInt8.ofNat o &&& 0x07) <<< 5 ||| 0x0F := by rw [content, Function.update_self]
      have free₁ : s₁.content (t + 1) = 0xFF := (wrote.content (t + 1) (.inr le_rfl)).trans behind
      have count₁ := (fresh.next wrote (Nat.le_succ t)).count (le_refl (t + 1))
      rcases @writeHeaderByte_loses lost (t + 1) 6 (0 + j) _ second s₁ free₁ (Nat.le_trans (by decide) (Nat.le_add_right 6 _)) within with
        ⟨k, s₂, within₂, kept₂, -, done₂, content₂, wrote₂⟩ | ⟨all, s₂, failed, content₂, wrote₂⟩
      · rw [count₁, Nat.zero_add] at kept₂
        have value₂ : s₂.content (t + 1) = (UInt8.ofNat o &&& 0x78) <<< 1 ||| UInt8.ofNat w := by
          rw [content₂, Function.update_self]
        have header : s₂.content t = s₁.content t := wrote₂.content t (by omega)
        rw [done₂]
        dsimp only
        rw [value₂, if_neg some_word]
        refine .inl ⟨⟨j, k, by omega, kept, kept₂⟩, s₂, rfl, wrote.trans wrote₂ (by omega) (by omega), ?_, ?_⟩
        · rw [header, value₁]
          exact first
        · rw [packetAt, header, value₁, value₂, if_pos ext, offset, word]
      · rw [failed]
        refine .inr ⟨?_, s₂, rfl, wrote.trans wrote₂ (by omega) (by omega), .inr ⟨?_, ?_, fun x other => ?_⟩⟩
        · rintro ⟨j', k', within', kept', kept₂'⟩
          have later : j ≤ j' := by
            by_contra sooner
            rw [before j' (by omega)] at kept'
            exact Bool.false_ne_true kept'.symm
          have gone := all k' (by omega)
          rw [count₁, Nat.zero_add, kept₂'] at gone
          exact Bool.false_ne_true gone
        · rw [content₂, value₁]
          exact first
        · rw [dead, content₂, value₁, free₁, ext]
          rfl
        · rw [content₂, content, Function.update_of_ne other]
    · rw [failed]
      refine .inr ⟨?_, s₁, rfl, wrote.mono le_rfl (by omega), .inl content⟩
      rintro ⟨j, k, within, kept, -⟩
      have gone := all j (by omega)
      rw [count, Nat.zero_add, kept] at gone
      exact Bool.false_ne_true gone
  · obtain ⟨header, ext, offset, word⟩ := header_one o (Nat.not_le.mp two) w words
    simp only [if_neg two]
    rw [Writer.write1ByteHeader, show Chip.repeats = 6 from rfl]
    dsimp only
    rcases @writeHeaderByte_loses lost t 6 0 _ header s here (by decide) (by decide) with
      ⟨k, s₁, within, kept, before, done, content, wrote⟩ | ⟨all, s₁, failed, content, wrote⟩
    · rw [done]
      have value : s₁.content t = UInt8.ofNat o <<< 4 &&& 0xF0 ||| UInt8.ofNat w := by
        rw [content, Function.update_self]
      refine .inl ⟨⟨k, by omega, ?_⟩, s₁, rfl, wrote, ?_, ?_⟩
      · rwa [count, Nat.zero_add] at kept
      · rw [value]
        exact header
      · rw [packetAt, value, if_neg (by rw [ext]; decide), offset, word]
    · rw [failed]
      refine .inr ⟨?_, s₁, rfl, wrote.mono le_rfl (by omega), .inl content⟩
      rintro ⟨k, within, kept⟩
      have gone := all k (by omega)
      rw [count, Nat.zero_add, kept] at gone
      exact Bool.false_ne_true gone

/-! ## Data -/

theorem clear_bit {i : Nat} (four : i < 4) (bad : UInt8) : bad &&& ~~~bit i ≠ 0x0F := by
  intro all
  have off : ∀ i < 4, ~~~bit i &&& bit i = 0 ∧ (0x0F : UInt8) &&& bit i ≠ 0 := by decide
  apply (off i four).2
  rw [← all, UInt8.and_assoc, (off i four).1, UInt8.and_zero]

/-- A byte that has not been written yet. -/
theorem loses_fresh (data : UInt8) {addr : Nat} (fresh : Fresh s addr) (free : s.content addr = 0xFF) :
    (loses lost addr data s).content addr = if lost addr 0 = true then 0xFF else data := by
  rw [loses_content, fresh.count le_rfl]
  split
  · exact free
  · exact Function.update_self ..

/-- The data of a packet: what is not lost is there, and the words are reported that are not. -/
theorem wordEnableDataWrite_loses (lost : Nat → Nat → Bool) (w : UInt8) (data : Map) {n i base : Nat} (bad : UInt8)
    (s : Chip) (four : i + n ≤ 4) (fresh : Fresh s (base + 2 * rank w i))
    (free : ∀ x, base + 2 * rank w i ≤ x → x < base + 2 * rank w (i + n) → s.content x = 0xFF) :
    let r := Writer.wordEnableDataWrite (loses lost) w data n i (base + 2 * rank w i) bad s
    Wrote s r.1 (base + 2 * rank w i) (base + 2 * rank w (i + n)) ∧
      (∀ j, i ≤ j → j < i + n → enabled w j = true → ∀ b < 2,
        r.1.content (base + 2 * rank w j + b) =
          if lost (base + 2 * rank w j + b) 0 = true then 0xFF else data (j * 2 + b)) ∧
      (r.2 = 0x0F ↔ bad = 0x0F ∧ ∀ j, i ≤ j → j < i + n → enabled w j = true → ∀ b < 2,
        r.1.content (base + 2 * rank w j + b) = data (j * 2 + b)) := by
  induction n generalizing i bad s with
  | zero =>
      refine ⟨.refl .., fun j low high => absurd low (by omega), ?_⟩
      exact ⟨fun good => ⟨good, fun j low high => absurd low (by omega)⟩, And.left⟩
  | succ n ih =>
      have index : i + (n + 1) = i + 1 + n := by omega
      have step := rank_succ w i
      have later := rank_mono w (show i + 1 ≤ i + 1 + n by omega)
      rw [index] at free ⊢
      dsimp only
      rw [Writer.wordEnableDataWrite]
      cases on : enabled w i with
      | true =>
          rw [on] at step
          have behind : base + 2 * rank w i + 2 = base + 2 * rank w (i + 1) := by
            rw [step]
            rfl
          have step : rank w (i + 1) = rank w i + 1 := step
          generalize first : loses lost (base + 2 * rank w i) (data (i * 2)) s = s₁
          generalize second : loses lost (base + 2 * rank w i + 1) (data (i * 2 + 1)) s₁ = s₂
          have wrote₁ : Wrote s s₁ (base + 2 * rank w i) (base + 2 * rank w i + 1) := first ▸ loses_wrote ..
          have wrote₂ : Wrote s₁ s₂ (base + 2 * rank w i + 1) (base + 2 * rank w i + 2) := second ▸ loses_wrote ..
          have fresh₁ := fresh.next wrote₁ (Nat.le_succ _)
          have fresh₂ := fresh₁.next wrote₂ (Nat.le_succ _)
          have low : s₂.content (base + 2 * rank w i) =
              if lost (base + 2 * rank w i) 0 = true then 0xFF else data (i * 2) := by
            rw [wrote₂.content _ (by omega), ← first, loses_fresh _ fresh (free _ le_rfl (by omega))]
          have high : s₂.content (base + 2 * rank w i + 1) =
              if lost (base + 2 * rank w i + 1) 0 = true then 0xFF else data (i * 2 + 1) := by
            have free₁ := (wrote₁.content (base + 2 * rank w i + 1) (.inr le_rfl)).trans
              (free _ (Nat.le_succ _) (by omega))
            rw [← second, loses_fresh _ fresh₁ free₁]
          rw [if_pos rfl]
          simp only [behind]
          generalize report : (if data (i * 2) ≠ s₂.content (base + 2 * rank w i) ∨
              data (i * 2 + 1) ≠ s₂.content (base + 2 * rank w i + 1) then bad &&& ~~~bit i else bad) = bad'
          have free₂ : ∀ x, base + 2 * rank w (i + 1) ≤ x → x < base + 2 * rank w (i + 1 + n) → s₂.content x = 0xFF := by
            intro x above below
            rw [wrote₂.content x (by omega), wrote₁.content x (by omega), free x (by omega) below]
          obtain ⟨wrote₃, found, good⟩ := ih (i := i + 1) bad' s₂ (by omega) (behind ▸ fresh₂) free₂
          have stays (b : Nat) (two : b < 2) :
              (Writer.wordEnableDataWrite (loses lost) w data n (i + 1) (base + 2 * rank w (i + 1)) bad' s₂).1.content
                (base + 2 * rank w i + b) = s₂.content (base + 2 * rank w i + b) := wrote₃.content _ (by omega)
          have word : bad' = 0x0F ↔ bad = 0x0F ∧ ∀ b < 2, s₂.content (base + 2 * rank w i + b) = data (i * 2 + b) := by
            rw [← report]
            split
            · rename_i bad_
              refine iff_of_false (clear_bit (by omega) bad) fun all => ?_
              rcases bad_ with first | second
              · exact first (all.2 0 (by decide)).symm
              · exact second (all.2 1 (by decide)).symm
            · rename_i fine
              rw [not_or, not_not, not_not] at fine
              refine ⟨fun good => ⟨good, fun b two => ?_⟩, And.left⟩
              rcases (by omega : b = 0 ∨ b = 1) with rfl | rfl
              · exact fine.1.symm
              · exact fine.2.symm
          refine ⟨(wrote₁.trans wrote₂ (by omega) (by omega)).trans (behind ▸ wrote₃) (by omega) (by omega),
            fun j above below on' b two => ?_, ?_⟩
          · by_cases here : j = i
            · subst here
              rw [stays b two]
              rcases (by omega : b = 0 ∨ b = 1) with rfl | rfl
              · exact low
              · exact high
            · exact found j (by omega) below on' b two
          · rw [good, word, and_assoc]
            refine and_congr_right' ⟨?_, fun all => ⟨fun b two => ?_, ?_⟩⟩
            · rintro ⟨here, rest⟩ j above below on' b two
              by_cases at_ : j = i
              · subst at_
                rw [stays b two]
                exact here b two
              · exact rest j (by omega) below on' b two
            · rw [← stays b two]
              exact all i le_rfl (by omega) on b two
            · intro j above below on' b two
              exact all j (by omega) below on' b two
      | false =>
          rw [on] at step
          have same : rank w (i + 1) = rank w i := step
          rw [if_neg Bool.false_ne_true, ← same]
          rw [← same] at fresh free
          obtain ⟨wrote, found, good⟩ := ih (i := i + 1) bad s (by omega) fresh free
          refine ⟨wrote, fun j above below on' b bound => ?_, good.trans (and_congr_right' ?_)⟩
          · have other : j ≠ i := fun here => by rw [here, on] at on'; exact Bool.false_ne_true on'
            exact found j (by omega) below on' b bound
          · constructor
            · intro all j above below on'
              have other : j ≠ i := fun here => by rw [here, on] at on'; exact Bool.false_ne_true on'
              exact all j (by omega) below on'
            · intro all j above below on'
              exact all j (by omega) below on'

/-! ## One packet -/

theorem writerLoop_end (write : Writer) (again : UInt8 → UInt8 → Map → Chip → Chip × Bool) {n startAddr : Nat}
    (target : PgPkt) (positive : 0 < n) (room : startAddr < availableLen) (free : s.content startAddr = 0xFF) :
    Writer.partialWriteLoop write again n startAddr target s = (s, some (startAddr, target)) := by
  obtain ⟨n, rfl⟩ := Nat.exists_eq_succ_of_ne_zero (Nat.ne_of_gt positive)
  rw [Writer.partialWriteLoop, if_neg (Nat.not_le.mpr room), if_pos free]

/-- Where the byte `b` of the word `j` is, in a packet of section `o` at `t`. -/
def dataAt (o : Nat) (w : UInt8) (t j b : Nat) : Nat := t + headerLen o + 2 * rank w j + b

theorem headerLen_pos (o : Nat) : 0 < headerLen o := by
  rw [headerLen]
  split <;> decide

/-- A packet is appended with the bytes that are not lost, or only a header that names no word. -/
theorem pgPacketWrite_loses {o w n : Nat} (stream : Legible s.content hs t) (cached : Cached s t) (fresh : Fresh s t)
    (low : o < maxSection) (words : w < 15)
    (room : t + headerLen o + 2 * calculateWordCnts (UInt8.ofNat w) < availableLen) (newdata : Map) :
    (HeaderBurns lost o t ∧ ∃ s' ok,
        Writer.pgPacketWrite (loses lost) (n + 1) (UInt8.ofNat o) (UInt8.ofNat w) newdata s = (s', ok) ∧
        Wrote { s with efuseBytes := t } s' t (t + headerLen o + 2 * calculateWordCnts (UInt8.ofNat w)) ∧
        s'.content t ≠ 0xFF ∧ packetAt s'.content t = ⟨t + headerLen o, UInt8.ofNat o, UInt8.ofNat w⟩ ∧
        (∀ j < 4, enabled (UInt8.ofNat w) j = true → ∀ b < 2, s'.content (dataAt o (UInt8.ofNat w) t j b) =
          if lost (dataAt o (UInt8.ofNat w) t j b) 0 = true then 0xFF else newdata (j * 2 + b)) ∧
        (ok = true ↔ ∀ j < 4, enabled (UInt8.ofNat w) j = true → ∀ b < 2,
          s'.content (dataAt o (UInt8.ofNat w) t j b) = newdata (j * 2 + b))) ∨
      ¬HeaderBurns lost o t ∧ ∃ s',
        Writer.pgPacketWrite (loses lost) (n + 1) (UInt8.ofNat o) (UInt8.ofNat w) newdata s = (s', false) ∧
        Wrote { s with efuseBytes := t } s' t (t + 2) ∧
        (s'.content = s.content ∨ s'.content t ≠ 0xFF ∧ dead s'.content t = true ∧
          ∀ x, x ≠ t → s'.content x = s.content x) := by
  have positive := headerLen_pos o
  have len : realContentLen = availableLen + 18 := rfl
  have free : s.content t = 0xFF := stream.rest t le_rfl (by omega)
  have address : t % realContentLen = t := Nat.mod_eq_of_lt (by omega)
  have loop : ∀ target, Writer.partialWriteLoop (loses lost) (Writer.pgPacketWrite (loses lost) n) fuel t target
      { s with efuseBytes := t } = ({ s with efuseBytes := t }, some (t, target)) :=
    fun target => writerLoop_end _ _ target fuel_pos (by omega) free
  have source (j b : Nat) (four : j < 4) (two : b < 2) (on : enabled (UInt8.ofNat w) j = true) :
      wordEnableDataRead (UInt8.ofNat w) newdata blank (j * 2 + b) = newdata (j * 2 + b) := by
    have word : (j * 2 + b) / 2 = j := by omega
    rw [wordEnableDataRead, if_pos ⟨by omega, by rw [word]; exact on⟩]
  rw [Writer.pgPacketWrite, Writer.pgPacketWriteWith, currentSize_spec stream cached]
  simp only [if_neg (show ¬availableLen ≤ t by omega), address, loop]
  rcases @writeHeader_loses lost { s with efuseBytes := t } t o w low words (by omega)
      (wordEnableDataRead (UInt8.ofNat w) newdata blank) fresh stream.rest with
    ⟨burns, s₁, header, wrote₁, some_, packet⟩ | ⟨fails, s₁, header, wrote₁, behind⟩
  · have back : t + headerLen o - 1 + 1 = t + headerLen o := by omega
    have start : t + headerLen o + 2 * rank (UInt8.ofNat w) 0 = t + headerLen o := rfl
    have fresh₁ : Fresh s₁ (t + headerLen o) := Fresh.next (s := { s with efuseBytes := t }) fresh wrote₁ (by omega)
    have data := @wordEnableDataWrite_loses lost (UInt8.ofNat w) (wordEnableDataRead (UInt8.ofNat w) newdata blank) 4 0
      (t + headerLen o) 0x0F s₁ le_rfl fresh₁ fun x above below => by
        rw [start] at above
        rw [Nat.zero_add, rank_four] at below
        exact (wrote₁.content x (by omega)).trans (stream.rest x (by omega) (by omega))
    rw [start, Nat.zero_add, rank_four] at data
    obtain ⟨wrote₂, found, good⟩ := data
    rw [header]
    dsimp only
    rw [Writer.writeData, back]
    dsimp only
    refine .inl ⟨burns, _, _, rfl, wrote₁.trans wrote₂ (by omega) (by omega), ?_, ?_, fun j four on b two => ?_, ?_⟩
    · rw [wrote₂.content t (by omega)]
      exact some_
    · rw [← packet]
      refine packetAt_header fun x above below => wrote₂.content x (.inl ?_)
      rwa [packet] at below
    · rw [dataAt, found j (Nat.zero_le j) four on b two, source j b four two on]
    · rw [beq_iff_eq, good]
      constructor
      · rintro ⟨-, all⟩ j four on b two
        rw [dataAt, all j (Nat.zero_le j) four on b two, source j b four two on]
      · intro all
        refine ⟨rfl, fun j _ four on b two => ?_⟩
        rw [source j b four two on]
        exact all j four on b two
  · rw [header]
    exact .inr ⟨fails, s₁, rfl, wrote₁, behind⟩

/-- A header that names no word leaves a stream with the same map. -/
theorem legible_dead {f f' : Content} (stream : Legible f hs t) (fits : t + 2 ≤ realContentLen)
    (some_ : f' t ≠ 0xFF) (off : dead f' t = true) (same : ∀ x, x ≠ t → f' x = f x) :
    Legible f' (hs ++ [t]) (t + 2) ∧ mapOf f' (hs ++ [t]) = mapOf f hs := by
  have below : ∀ x < t, f' x = f x := fun x before => same x (Nat.ne_of_lt before)
  have last : Steps f' t [t] (t + 2) := .cons some_ ((packetAt_dead off).2 ▸ .nil _)
  refine ⟨⟨(stream.steps.congr below).append last, fits, fun x above inside => ?_, fun h member => ?_⟩, ?_⟩
  · rw [same x (by omega)]
    exact stream.rest x (by omega) inside
  · rcases List.mem_append.mp member with old | at_
    · rw [packetAt_within stream.steps below old, dead_within stream.steps below old]
      exact stream.packets h old
    · exact .inl (List.mem_singleton.mp at_ ▸ off)
  · rw [mapOf, placeAll_concat, placeAll_congr stream.steps below, place_dead off, mapOf]

/-! ## The packets of a map write -/

structure Pending where
  offset : Nat
  wordEn : UInt8
  data : Map

/-- The packets that `rtw_efuse_map_write` has to write, from a section on. -/
def pending (efuse map : Map) (addr cnts : Nat) : Nat → Nat → Nat → List Pending
  | 0, _, _ => []
  | n + 1, offset, idx =>
      if idx < cnts then
        let (word_en, newdata, idx) := diffSection efuse map addr cnts offset idx
        if word_en ≠ 0x0F then ⟨offset, word_en, newdata⟩ :: pending efuse map addr cnts n (offset + 1) idx
        else pending efuse map addr cnts n (offset + 1) idx
      else []

namespace Pending

variable (p : Pending) (lost : Nat → Nat → Bool) (map : Map) (t : Nat)

/-- Every byte of the data is there behind one attempt, or is 0xFF anyway. -/
def Burns : Prop :=
  ∀ j < 4, enabled p.wordEn j = true → ∀ b < 2, p.data (j * 2 + b) ≠ 0xFF → lost (dataAt p.offset p.wordEn t j b) 0 = false

/-- The same of the bytes whose place in the map is not 0xFF. -/
def Harmless : Prop :=
  ∀ j < 4, enabled p.wordEn j = true → ∀ b < 2, p.data (j * 2 + b) ≠ 0xFF → map (8 * p.offset + (j * 2 + b)) ≠ 0xFF →
    lost (dataAt p.offset p.wordEn t j b) 0 = false

/-- The address behind the packet. -/
def next : Nat := t + headerLen p.offset + 2 * calculateWordCnts p.wordEn

end Pending

/-- No data byte is lost whose place in the map is not 0xFF, in the packets that the write comes to. -/
def Spares (lost : Nat → Nat → Bool) (map : Map) : List Pending → Nat → Prop
  | [], _ => True
  | p :: rest, t => HeaderBurns lost p.offset t → p.Harmless lost map t ∧ (p.Burns lost t → Spares lost map rest (p.next t))

section Sections

variable {efuse map : Map} {addr cnts : Nat}

/-- Each byte has its old value or the one to write. -/
def OldOrNew (efuse map : Map) (m : Map) : Prop := ∀ x < mapLen, m x = efuse x ∨ m x = map x

/-- A packet with lost bytes is harmless exactly if each byte has its old value or the one to write. -/
theorem oldOrNew_iff {p : Pending} {m m' : Map} (low : p.offset < maxSection)
    (differs : Differs efuse map p.offset 8 p.wordEn p.data) (before : OldOrNew efuse map m)
    (made : ∀ x, m' x = if x / 8 = p.offset ∧ enabled p.wordEn (x % 8 / 2) = true then
      if lost (dataAt p.offset p.wordEn t (x % 8 / 2) (x % 8 % 2)) 0 = true then 0xFF else p.data (x % 8) else m x) :
    OldOrNew efuse map m' ↔ p.Harmless lost map t := by
  have value (j b : Nat) (four : j < 4) (two : b < 2) :
      p.data (j * 2 + b) = efuse (8 * p.offset + (j * 2 + b)) := by
    rw [differs.data _ (by omega), if_pos (by omega)]
  constructor
  · intro all j four on b two some_ old
    by_contra gone
    rw [Bool.not_eq_false] at gone
    have inside : 8 * p.offset + (j * 2 + b) < mapLen := by
      rw [maxSection] at low
      rw [mapLen]
      omega
    have here := made (8 * p.offset + (j * 2 + b))
    have own : (8 * p.offset + (j * 2 + b)) / 8 = p.offset := by omega
    have word : (8 * p.offset + (j * 2 + b)) % 8 / 2 = j := by omega
    have byte : (8 * p.offset + (j * 2 + b)) % 8 % 2 = b := by omega
    rw [own, word, byte, if_pos ⟨rfl, on⟩, if_pos gone] at here
    rcases all _ inside with new | same
    · exact some_ ((value j b four two).trans (new.symm.trans here))
    · exact old (same.symm.trans here)
  · intro harmless x inside
    rw [made x]
    by_cases on : x / 8 = p.offset ∧ enabled p.wordEn (x % 8 / 2) = true
    · have index : x % 8 / 2 * 2 + x % 8 % 2 = x % 8 := by omega
      have place : 8 * p.offset + x % 8 = x := by omega
      have new : p.data (x % 8) = efuse x := by rw [differs.data _ (by omega), if_pos (by omega), place]
      rw [if_pos on]
      split
      · rename_i gone
        by_cases ff : p.data (x % 8) = 0xFF
        · exact .inl (ff.symm.trans new)
        · refine .inr ?_
          by_contra old
          have kept := harmless (x % 8 / 2) (by omega) on.2 (x % 8 % 2) (by omega)
          rw [index, place] at kept
          exact Bool.false_ne_true ((kept ff (Ne.symm old)).symm.trans gone)
      · exact .inl new
    · rw [if_neg on]
      exact before x inside

/-- What a section's packet leaves behind: the packet, a header, or nothing. -/
theorem pending_loses {p : Pending} (stream : Legible s.content hs t) (cached : Cached s t) (fresh : Fresh s t)
    (low : p.offset < maxSection) (words : p.wordEn.toNat < 15) (room : p.next t < availableLen)
    (differs : Differs efuse map p.offset 8 p.wordEn p.data) (before : OldOrNew efuse map (mapOf s.content hs)) :
    ∃ s' ok hs' t', Writer.pgPacketWrite (loses lost) Chip.repeats (UInt8.ofNat p.offset) p.wordEn p.data s = (s', ok) ∧
      Legible s'.content hs' t' ∧ Cached s' t' ∧
      (ok = true → HeaderBurns lost p.offset t ∧ p.Burns lost t ∧ t' = p.next t ∧ Fresh s' t' ∧
        ∀ x, mapOf s'.content hs' x =
          if x / 8 = p.offset ∧ enabled p.wordEn (x % 8 / 2) = true then p.data (x % 8) else mapOf s.content hs x) ∧
      (ok = false → ¬(HeaderBurns lost p.offset t ∧ p.Burns lost t) ∧
        (OldOrNew efuse map (mapOf s'.content hs') ↔ (HeaderBurns lost p.offset t → p.Harmless lost map t))) := by
  have value : UInt8.ofNat p.wordEn.toNat = p.wordEn := UInt8.ofNat_toNat
  have fits : t + headerLen p.offset + 2 * calculateWordCnts (UInt8.ofNat p.wordEn.toNat) < availableLen := by
    rwa [value]
  have packet := @pgPacketWrite_loses lost s hs t p.offset p.wordEn.toNat (Chip.repeats - 1) stream cached fresh low words
    fits p.data
  rw [value, show Chip.repeats - 1 + 1 = Chip.repeats from rfl] at packet
  rcases packet with ⟨burns, s', ok, wrote, region, some_, header, found, good⟩ | ⟨fails, s', wrote, region, behind⟩
  · -- the packet is there, with the bytes that were not lost
    have appended := @legible_appended s s' hs t p.offset p.wordEn.toNat stream low words fits
      (fun k => if lost (dataAt p.offset p.wordEn t (k / 2) (k % 2)) 0 = true then 0xFF else p.data k)
    rw [value] at appended
    obtain ⟨stream', -, cached', made⟩ := appended region some_ header fun j four on b two => by
      have word : (j * 2 + b) / 2 = j := by omega
      have byte : (j * 2 + b) % 2 = b := by omega
      rw [word, byte]
      exact found j four on b two
    have ok_iff : ok = true ↔ p.Burns lost t := by
      rw [good]
      constructor
      · intro all j four on b two some_
        by_contra gone
        rw [Bool.not_eq_false] at gone
        have byte := found j four on b two
        rw [if_pos gone, all j four on b two] at byte
        exact some_ byte
      · intro burns j four on b two
        rw [found j four on b two]
        split
        · rename_i gone
          by_contra other
          exact Bool.false_ne_true ((burns j four on b two (Ne.symm other)).symm.trans gone)
        · rfl
    refine ⟨s', ok, hs ++ [t], p.next t, wrote, stream', cached', fun done => ?_, fun failed => ⟨fun both => ?_, ?_⟩⟩
    · have burnt := ok_iff.mp done
      refine ⟨burns, burnt, rfl, ?_, fun x => ?_⟩
      · exact @Fresh.next { s with efuseBytes := t } t s' (p.next t) fresh region
          ((Nat.le_add_right t _).trans (Nat.le_add_right ..))
      · rw [made x]
        split
        · rename_i on
          split
          · rename_i gone
            have index : x % 8 / 2 * 2 + x % 8 % 2 = x % 8 := by omega
            have kept := burnt (x % 8 / 2) (by omega) on.2 (x % 8 % 2) (by omega)
            rw [index] at kept
            by_contra other
            exact Bool.false_ne_true ((kept (Ne.symm other)).symm.trans gone)
          · rfl
        · rfl
    · exact Bool.false_ne_true (failed.symm.trans (ok_iff.mpr both.2))
    · rw [oldOrNew_iff low differs before made]
      exact ⟨fun harmless _ => harmless, fun harmless => harmless burns⟩
  · -- at most a header without words
    have spared : HeaderBurns lost p.offset t → p.Harmless lost map t := fun burns => absurd burns fails
    have register : s'.efuseBytes = t := region.efuseBytes
    rcases behind with content | ⟨some_, off, same⟩
    · have cached' : Cached s' t := ⟨[], by rw [register]; exact .nil t⟩
      refine ⟨s', false, hs, t, wrote, content ▸ stream, cached', nofun, fun _ => ⟨fun both => ?_, ?_⟩⟩
      · exact fails both.1
      · rw [content]
        exact iff_of_true before spared
    · have positive := headerLen_pos p.offset
      have len : realContentLen = availableLen + 18 := rfl
      obtain ⟨stream', made⟩ := legible_dead stream (show t + 2 ≤ realContentLen by omega) some_ off same
      refine ⟨s', false, hs ++ [t], t + 2, wrote, stream', ⟨[t], ?_⟩, nofun, fun _ => ⟨fun both => ?_, ?_⟩⟩
      · rw [register]
        exact .cons some_ ((packetAt_dead off).2 ▸ .nil _)
      · exact fails both.1
      · rw [made]
        exact iff_of_true before spared

/-- The loop that writes: it comes to its end, or what it leaves behind is harmless, exactly if the lost bytes are. -/
theorem writeSections_loses {n offset idx : Nat} (stream : Legible s.content hs t) (cached : Cached s t)
    (fresh : Fresh s t) (outside : SameOutside efuse map addr cnts) (inside : addr + cnts ≤ mapLen)
    (position : Position efuse map addr cnts offset idx) (turns : cnts ≤ idx + n)
    (room : t + sizeSections efuse map addr cnts n offset idx 0 < availableLen)
    (made : ∀ x, mapOf s.content hs x = if x / 8 < offset then efuse x else map x) :
    ∃ s' ok hs' t', writeSections (Writer.pgPacketWrite (loses lost) Chip.repeats) efuse map addr cnts n offset idx true s
          = (s', ok) ∧
      Legible s'.content hs' t' ∧ Cached s' t' ∧
      ((ok = false → OldOrNew efuse map (mapOf s'.content hs')) ↔
        Spares lost map (pending efuse map addr cnts n offset idx) t) := by
  induction n generalizing s hs t offset idx with
  | zero => exact ⟨s, true, hs, t, rfl, stream, cached, iff_of_true nofun trivial⟩
  | succ n ih =>
      rw [writeSections, pending]
      rw [sizeSections] at room
      by_cases more : idx < cnts
      · have own := position.here more
        have low : offset < maxSection := by
          rw [mapLen] at inside
          rw [maxSection]
          omega
        have turn := diffSection_spec outside position more
        rw [if_pos more] at room ⊢
        generalize diffSection efuse map addr cnts offset idx = r at room turn ⊢
        obtain ⟨word_en, newdata, idx'⟩ := r
        obtain ⟨differs, further, next⟩ := turn
        dsimp only at room differs further next ⊢
        by_cases something : word_en ≠ 0x0F
        · rw [if_pos something] at room
          rw [if_pos something, if_pos more, if_pos something]
          rw [Nat.add_assoc, Nat.zero_add, ← headerLen, ← Nat.add_zero (_ + headerLen offset), sizeSections_add] at room
          have words : word_en.toNat < 15 := by
            have other : word_en.toNat ≠ 15 := fun all => something (UInt8.toNat_inj.mp all)
            have nibble := differs.nibble
            omega
          have behind : (Pending.mk offset word_en newdata).next t =
              t + headerLen offset + 2 * calculateWordCnts word_en := rfl
          have fits : (Pending.mk offset word_en newdata).next t < availableLen := by
            rw [behind]
            omega
          have before : OldOrNew efuse map (mapOf s.content hs) := by
            intro x _
            rw [made x]
            split
            · exact .inl rfl
            · exact .inr rfl
          obtain ⟨s₁, ok, hs₁, t₁, write, stream₁, cached₁, done, failed⟩ :=
            @pending_loses lost s hs t efuse map ⟨offset, word_en, newdata⟩ stream cached fresh low words fits differs
              before
          have value : UInt8.ofNat offset = UInt8.ofNat (Pending.mk offset word_en newdata).offset := rfl
          rw [value, write]
          cases ok with
          | true =>
              obtain ⟨header, data, rfl, fresh₁, made₁⟩ := done rfl
              obtain ⟨s', ok, hs', t', loop, stream', cached', harm⟩ := ih stream₁ cached₁ fresh₁ next (by omega)
                (by rw [behind]; omega) (differs.advance made made₁)
              refine ⟨s', ok, hs', t', loop, stream', cached', harm.trans ⟨fun rest _ => ⟨?_, fun _ => rest⟩, ?_⟩⟩
              · exact fun j four on b two some_ _ => data j four on b two some_
              · exact fun spares => (spares header).2 data
          | false =>
              obtain ⟨ends, harm⟩ := failed rfl
              refine ⟨s₁, false, hs₁, t₁, rfl, stream₁, cached₁, (forall_prop_of_true rfl).trans (harm.trans ?_)⟩
              exact ⟨fun harmless header => ⟨harmless header, fun data => absurd ⟨header, data⟩ ends⟩,
                fun spares header => (spares header).1⟩
        · rw [if_neg something] at room
          rw [if_neg something, if_pos more, if_neg something]
          rw [ne_eq, not_not] at something
          exact ih stream cached fresh next (by omega) room ((something ▸ differs).skip made)
      · rw [if_neg more, if_neg more]
        exact ⟨s, true, hs, t, rfl, stream, cached, iff_of_true nofun trivial⟩

end Sections

/-! ## The whole write -/

/-- The stream has room for what `rtw_efuse_map_write` has to write. -/
def EnoughRoom (s : Chip) (addr cnts : Nat) (data : Nat → UInt8) : Prop :=
  let (s, map) := s.mapRead blank
  s.efuseBytes + sizeSections (requested map addr cnts data) map addr cnts cnts (addr / 8) 0 0 < availableLen

/-- A write that fails leaves each byte old or as requested, and the same write makes the map right when it is repeated
and no byte is lost. -/
def DamagesNothing (lost : Nat → Nat → Bool) (s : Chip) (addr cnts : Nat) (data : Nat → UInt8) : Prop :=
  ∀ s', Writer.mapWrite (loses lost) s addr cnts data = (s', false) →
    (∀ x < mapLen, (s'.mapRead blank).2 x = (s.mapRead blank).2 x ∨
      (addr ≤ x ∧ x < addr + cnts) ∧ (s'.mapRead blank).2 x = data (x - addr)) ∧
    (EnoughRoom s' addr cnts data → ∃ s'', s'.mapWrite addr cnts data = (s'', true) ∧
      ∀ x < mapLen, (s''.mapRead blank).2 x = requested (s.mapRead blank).2 addr cnts data x)

/-- A map write in which bytes are lost: there is no room for it, or it goes as far as the bytes are kept. -/
theorem mapWrite_loses (lost : Nat → Nat → Bool) (stream : Legible s.content hs t)
    (register : s.content 0 = 0xFF → s.efuseBytes = 0) (fresh : Fresh s t) {addr cnts : Nat}
    (inside : addr + cnts ≤ mapLen) (data : Nat → UInt8) :
    (availableLen ≤ t + sizeSections (requested (mapOf s.content hs) addr cnts data) (mapOf s.content hs) addr cnts cnts
        (addr / 8) 0 0 ∧ Writer.mapWrite (loses lost) s addr cnts data = ({ s with efuseBytes := t }, false)) ∨
      t + sizeSections (requested (mapOf s.content hs) addr cnts data) (mapOf s.content hs) addr cnts cnts
        (addr / 8) 0 0 < availableLen ∧
        ∃ s' ok hs' t', Writer.mapWrite (loses lost) s addr cnts data = (s', ok) ∧ Legible s'.content hs' t' ∧
          Cached s' t' ∧
          ((ok = false → OldOrNew (requested (mapOf s.content hs) addr cnts data) (mapOf s.content hs)
              (mapOf s'.content hs')) ↔
            Spares lost (mapOf s.content hs)
              (pending (requested (mapOf s.content hs) addr cnts data) (mapOf s.content hs) addr cnts cnts (addr / 8) 0)
              t) := by
  rw [Writer.mapWrite, if_neg (Nat.not_lt.mpr inside), mapRead_spec stream register]
  dsimp only
  rw [startAddr_spec stream]
  dsimp only
  by_cases full : availableLen ≤ t + sizeSections (requested (mapOf s.content hs) addr cnts data) (mapOf s.content hs)
      addr cnts cnts (addr / 8) 0 0
  · exact .inl ⟨full, if_pos full⟩
  · have room := Nat.not_le.mp full
    obtain ⟨s', ok, hs', t', done, spec⟩ := @writeSections_loses lost { s with efuseBytes := t } hs t _ _ addr cnts cnts
      (addr / 8) 0 stream (cached_end s t) fresh (requested_outside _ _ _ _) inside (requested_start _ _ _ _)
      (Nat.le_add_left ..) room (requested_before _ _ _ _)
    exact .inr ⟨room, s', ok, hs', t', (if_neg full).trans done, spec⟩

section Retry

variable {map : Map} {addr cnts : Nat} {data : Nat → UInt8}

theorem oldOrNew_requested {m : Map} :
    OldOrNew (requested map addr cnts data) map m ↔
      ∀ x < mapLen, m x = map x ∨ (addr ≤ x ∧ x < addr + cnts) ∧ m x = data (x - addr) := by
  refine forall₂_congr fun x _ => ?_
  by_cases inside : addr ≤ x ∧ x < addr + cnts
  · simp [requested, inside, or_comm]
  · simp [requested, inside]

/-- The write that is repeated, on a map in which each byte is old or as requested. -/
theorem retry (stream : Legible s.content hs t) (register : s.content 0 = 0xFF → s.efuseBytes = 0)
    (inside : addr + cnts ≤ mapLen) (left : OldOrNew (requested map addr cnts data) map (mapOf s.content hs))
    (room : EnoughRoom s addr cnts data) :
    ∃ s', s.mapWrite addr cnts data = (s', true) ∧
      ∀ x < mapLen, (s'.mapRead blank).2 x = requested map addr cnts data x := by
  rw [EnoughRoom, mapRead_spec stream register] at room
  rcases mapWrite_spec stream register inside data with ⟨full, -⟩ |
    ⟨-, s', hs', t', done, stream', -, cached', -, made, -⟩
  · exact absurd room (Nat.not_lt.mpr full)
  · refine ⟨s', done, fun x low => ?_⟩
    rw [mapRead_spec stream' (register_of_cached stream' cached'), made]
    rcases oldOrNew_requested.mp left x low with old | ⟨here, -⟩
    · simp [requested, old]
    · simp [requested, here]

end Retry

/-- A write that fails damages nothing, exactly if no data byte is lost over a byte that is not 0xFF. -/
theorem failed_write_iff (lost : Nat → Nat → Bool) (sound : Sound s hs t) (log : s.written = []) {addr cnts : Nat}
    (inside : addr + cnts ≤ mapLen) (data : Nat → UInt8) :
    DamagesNothing lost s addr cnts data ↔ ¬EnoughRoom s addr cnts data ∨
      Spares lost (s.mapRead blank).2
        (pending (requested (s.mapRead blank).2 addr cnts data) (s.mapRead blank).2 addr cnts cnts (addr / 8) 0) t := by
  have stream := sound.stream.legible
  have fresh : Fresh s t := by
    intro x inside
    rw [log] at inside
    cases inside
  have read := mapRead_spec stream sound.register
  have same (s' : Chip) (hs' : List Nat) (t' : Nat) (stream' : Legible s'.content hs' t')
      (register' : s'.content 0 = 0xFF → s'.efuseBytes = 0)
      (left : OldOrNew (requested (mapOf s.content hs) addr cnts data) (mapOf s.content hs) (mapOf s'.content hs')) :
      (∀ x < mapLen, (s'.mapRead blank).2 x = (s.mapRead blank).2 x ∨
        (addr ≤ x ∧ x < addr + cnts) ∧ (s'.mapRead blank).2 x = data (x - addr)) ∧
      (EnoughRoom s' addr cnts data → ∃ s'', s'.mapWrite addr cnts data = (s'', true) ∧
        ∀ x < mapLen, (s''.mapRead blank).2 x = requested (s.mapRead blank).2 addr cnts data x) := by
    rw [read, mapRead_spec stream' register']
    exact ⟨oldOrNew_requested.mp left, retry stream' register' inside left⟩
  rw [EnoughRoom, read]
  rcases mapWrite_loses lost stream sound.register fresh inside data with ⟨full, failed⟩ |
    ⟨room, s₁, ok, hs₁, t₁, wrote, stream₁, cached₁, harm⟩
  · refine iff_of_true (fun s' run => ?_) (.inl (Nat.not_lt.mpr full))
    cases failed.symm.trans run
    exact same _ hs t stream (register_of_cached stream (cached_end s t)) fun x _ => .inr rfl
  · have register₁ := register_of_cached stream₁ cached₁
    rw [← harm]
    constructor
    · intro nothing
      refine .inr fun failed => ?_
      have bytes := (nothing s₁ (failed ▸ wrote)).1
      rw [read, mapRead_spec stream₁ register₁] at bytes
      exact oldOrNew_requested.mpr bytes
    · rintro (full | left) s' run
      · exact absurd room full
      · cases wrote.symm.trans run
        exact same s₁ hs₁ t₁ stream₁ register₁ (left rfl)

/-- The header at 5 cannot be burnt. -/
theorem failed_write_header : DamagesNothing (fun addr _ => addr == 5) twoWordsChip 0 1 fun _ => 0x55 := by
  refine (failed_write_iff _ twoWordsChip_sound rfl (by decide) _).mpr (.inr ?_)
  rw [pending, if_pos (by decide)]
  dsimp only
  split
  · intro burns
    obtain ⟨k, -, kept⟩ := burns
    cases kept
  · exact trivial

/-- The second byte of a word is lost: it is not in the range to write, and the next read of it gives 0xFF. -/
theorem failed_write_damages : ¬DamagesNothing (fun addr _ => addr == 7) twoWordsChip 0 1 fun _ => 0x55 := by
  intro nothing
  have failed : (Writer.mapWrite (loses fun addr _ => addr == 7) twoWordsChip 0 1 fun _ => 0x55).2 = false := by
    decide +kernel
  have now : ((Writer.mapWrite (loses fun addr _ => addr == 7) twoWordsChip 0 1 fun _ => 0x55).1.mapRead blank).2 1 =
      0xFF := by decide +kernel
  have before : (twoWordsChip.mapRead blank).2 1 ≠ 0xFF := by decide +kernel
  rcases (nothing _ (Prod.ext rfl failed)).1 1 (by decide) with old | ⟨inside, -⟩
  · exact before (old.symm.trans now)
  · exact absurd inside.2 (Nat.lt_irrefl 1)

end Vmac.Efuse
