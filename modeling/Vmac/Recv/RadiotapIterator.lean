/-
# Vmac.Recv.RadiotapIterator -- reading a radiotap header: rtw_radiotap.c

`rtw_ieee80211_radiotap_iterator_init` finds the first field behind the present words, each call
of `rtw_ieee80211_radiotap_iterator_next` the next one.  The bits of a present word say which
fields there are; their sizes and alignments say where.  Pointers are offsets from the header.
-/
import Vmac.Theory.Layout
import Mathlib.Data.Nat.Bitwise

namespace Vmac.Recv

open Theory.Bytes Theory.Layout

set_option autoImplicit false

/-! ## Namespaces -/

/-- `rtap_namespace_sizes`. -/
def rtapNamespaceSizes : List Kind :=
  [⟨8, 8⟩, ⟨1, 1⟩, ⟨1, 1⟩, ⟨2, 4⟩, ⟨2, 2⟩, ⟨1, 1⟩, ⟨1, 1⟩, ⟨2, 2⟩, ⟨2, 2⟩, ⟨2, 2⟩, ⟨1, 1⟩, ⟨1, 1⟩, ⟨1, 1⟩,
    ⟨1, 1⟩, ⟨2, 2⟩, ⟨2, 2⟩, ⟨1, 1⟩, ⟨1, 1⟩, ⟨0, 0⟩, ⟨1, 3⟩, ⟨4, 8⟩, ⟨2, 12⟩]

/-- The kind of a field of the radiotap namespace. -/
def rtapKind (i : Nat) : Kind := rtapNamespaceSizes.getD i ⟨0, 0⟩

namespace RtapBit

def tsft : Nat := 0
def flags : Nat := 1
def rate : Nat := 2
def channel : Nat := 3
def dbmAntsignal : Nat := 5
def lockQuality : Nat := 7
def antenna : Nat := 11
def rxFlags : Nat := 14
def mcs : Nat := 19
def vht : Nat := 21
def radiotapNamespace : Nat := 29
def vendorNamespace : Nat := 30
def ext : Nat := 31

end RtapBit

/-- `struct ieee80211_radiotap_namespace`. -/
structure RadiotapNamespace where
  alignSize : Nat → Kind
  nBits : Nat
  oui : Nat
  subns : Nat

/-- What `current_namespace` points to. -/
inductive Namespace where
  | radiotapNs
  | vendor (ns : RadiotapNamespace)

namespace Namespace

def nBits : Namespace → Nat
  | radiotapNs => rtapNamespaceSizes.length
  | vendor ns => ns.nBits

def alignSize : Namespace → Nat → Kind
  | radiotapNs => rtapKind
  | vendor ns => ns.alignSize

end Namespace

/-! ## The iterator -/

structure Iterator where
  maxLength : Nat
  argIndex : Nat
  bitmapShifter : Nat
  arg : Nat
  resetOnExt : Bool
  nextBitmap : Nat
  vns : List RadiotapNamespace
  currentNamespace : Option Namespace
  isRadiotapNs : Bool
  nextNsData : Nat
  thisArg : Nat
  thisArgIndex : Nat
  thisArgSize : Nat

inductive Errno where
  | einval
  | enoent
deriving DecidableEq

variable (past : Nat → UInt8) (data : List UInt8)

/-- `get_unaligned_le32`. -/
def getUnalignedLe32 (at_ : Nat) : Nat := field past data at_ 4

/-- The loop of `rtw_ieee80211_radiotap_iterator_init` over the present words; it ends within the
header's length. -/
def skipBitmaps (maxLength arg : Nat) : Except Errno Nat :=
  if maxLength < arg + 4 then .error .einval
  else if (getUnalignedLe32 past data arg).testBit RtapBit.ext then skipBitmaps maxLength (arg + 4)
  else .ok (arg + 4)
termination_by maxLength - arg

/-- `rtw_ieee80211_radiotap_iterator_init`; the caller does not initialise the structure. -/
def iteratorInit (maxLength : Nat) (vns : List RadiotapNamespace) (junk : Iterator) : Except Errno Iterator :=
  if maxLength < 8 then .error .einval
  else if byteAt past data 0 ≠ 0 then .error .einval
  else if maxLength < field past data 2 2 then .error .einval
  else
    let shifter := getUnalignedLe32 past data 4
    let bitmaps : Except Errno Nat :=
      if shifter.testBit RtapBit.ext then skipBitmaps past data (field past data 2 2) 8 else .ok 8
    bitmaps.map fun arg =>
      { junk with
        maxLength := field past data 2 2, argIndex := 0, bitmapShifter := shifter, arg, resetOnExt := false
        nextBitmap := 8, vns, currentNamespace := some .radiotapNs, isRadiotapNs := true, thisArg := arg }

def findNs (vns : List RadiotapNamespace) (oui subns : Nat) : Option Namespace :=
  (vns.find? fun ns => ns.oui = oui && ns.subns = subns).map .vendor

/-- One pass of the loop of `rtw_ieee80211_radiotap_iterator_next`. -/
inductive Pass where
  | again (it : Iterator)
  | hit (it : Iterator)
  | done (e : Errno)

namespace Iterator

variable (it : Iterator)

def nextEntry : Iterator := { it with bitmapShifter := it.bitmapShifter >>> 1, argIndex := it.argIndex + 1 }

/-- Alignment and size of the argument: `none` where the header is given up. -/
def alignSize : Option Kind :=
  if it.argIndex % 32 = RtapBit.radiotapNamespace ∨ it.argIndex % 32 = RtapBit.ext then some ⟨1, 0⟩
  else if it.argIndex % 32 = RtapBit.vendorNamespace then some ⟨2, 6⟩
  else
    match it.currentNamespace with
    | none => some ⟨0, 0⟩
    | some ns =>
      if it.argIndex < ns.nBits then some (ns.alignSize it.argIndex)
      else match ns with
        | .radiotapNs => none
        | .vendor _ => some ⟨0, 0⟩

/-- `pad` and what it does to `_arg`. -/
def padded (align : Nat) : Nat :=
  let pad := it.arg &&& (align - 1)
  if pad ≠ 0 then it.arg + (align - pad) else it.arg

/-- The argument is present: what is returned, and the move behind it. -/
def take (arg size : Nat) : Iterator :=
  { it with thisArgIndex := it.argIndex, thisArg := arg, thisArgSize := size, arg := arg + size }

/-- The vendor namespace at `_arg`. -/
def enterVendor (arg : Nat) : Iterator × Nat :=
  let oui := (byteAt past data arg).toNat <<< 16 ||| (byteAt past data (arg + 1)).toNat <<< 8 |||
    (byteAt past data (arg + 2)).toNat
  let ns := findNs it.vns oui (byteAt past data (arg + 3)).toNat
  let vnslen := field past data (arg + 4) 2
  ({ it with currentNamespace := ns, nextNsData := arg + 6 + vnslen }, if ns.isNone then 6 + vnslen else 6)

def pass : Pass :=
  if it.argIndex % 32 = RtapBit.ext ∧ it.bitmapShifter &&& 1 = 0 then .done .enoent
  else if it.bitmapShifter &&& 1 = 0 then .again it.nextEntry
  else
    match it.alignSize with
    | none => .done .enoent
    | some k =>
      if k.align = 0 then .again ({ it with arg := it.nextNsData, currentNamespace := none } : Iterator).nextEntry
      else
        let arg := it.padded k.align
        if it.argIndex % 32 = RtapBit.vendorNamespace then
          if it.maxLength < arg + k.size then .done .einval
          else
            let (it, size) := it.enterVendor past data arg
            let it := it.take arg size
            if it.maxLength < it.arg then .done .einval
            else
              let it := ({ it with
                resetOnExt := true, isRadiotapNs := false, thisArgIndex := RtapBit.vendorNamespace } : Iterator)
              if it.currentNamespace.isNone then .hit it.nextEntry else .again it.nextEntry
        else
          let it := it.take arg k.size
          if it.maxLength < it.arg then .done .einval
          else if it.argIndex % 32 = RtapBit.radiotapNamespace then
            .again ({ it with
              resetOnExt := true, currentNamespace := some .radiotapNs, isRadiotapNs := true } : Iterator).nextEntry
          else if it.argIndex % 32 = RtapBit.ext then
            .again { it with
              bitmapShifter := getUnalignedLe32 past data it.nextBitmap, nextBitmap := it.nextBitmap + 4
              argIndex := if it.resetOnExt then 0 else it.argIndex + 1, resetOnExt := false }
          else .hit it.nextEntry

/-- `rtw_ieee80211_radiotap_iterator_next`, with a bound on the passes of its loop. -/
def next : Nat → Iterator → Option (Except Errno Iterator)
  | 0, _ => none
  | fuel + 1, it =>
    match it.pass past data with
    | .again it => next fuel it
    | .hit it => some (.ok it)
    | .done e => some (.error e)

/-- What a call returns in `this_arg_index`, `this_arg` and `this_arg_size`. -/
structure Visit where
  index : Nat
  arg : Nat
  size : Nat
deriving DecidableEq

def visit : Visit := ⟨it.thisArgIndex, it.thisArg, it.thisArgSize⟩

/-- The calls of a caller that goes on until one of them fails. -/
def visitAll (fuel : Nat) : Nat → Iterator → List Visit × Option Errno
  | 0, _ => ([], none)
  | calls + 1, it =>
    match it.next past data fuel with
    | none => ([], none)
    | some (.error e) => ([], some e)
    | some (.ok it) => (it.visit :: (visitAll fuel calls it).1, (visitAll fuel calls it).2)

end Iterator

/-- `rtw_ieee80211_radiotap_iterator_init` and the calls after it. -/
def readRadiotap (maxLength : Nat) (vns : List RadiotapNamespace) (junk : Iterator) (fuel : Nat) :
    List Iterator.Visit × Option Errno :=
  match iteratorInit past data maxLength vns junk with
  | .error e => ([], some e)
  | .ok it => it.visitAll past data fuel fuel

/-! ## What the calls return -/

variable {past data}

namespace Iterator

/-- A call ends with `r`. -/
inductive Returns (past : Nat → UInt8) (data : List UInt8) : Iterator → Except Errno Iterator → Prop where
  | hit {it it' : Iterator} : it.pass past data = .hit it' → Returns past data it (.ok it')
  | done {it : Iterator} {e : Errno} : it.pass past data = .done e → Returns past data it (.error e)
  | again {it it' : Iterator} {r : Except Errno Iterator} :
    it.pass past data = .again it' → Returns past data it' r → Returns past data it r

/-- The calls return `vs` one after another, and then `e`. -/
inductive Visits (past : Nat → UInt8) (data : List UInt8) : Iterator → List Visit → Errno → Prop where
  | last {it : Iterator} {e : Errno} : Returns past data it (.error e) → Visits past data it [] e
  | visit {it it' : Iterator} {vs : List Visit} {e : Errno} :
    Returns past data it (.ok it') → Visits past data it' vs e → Visits past data it (it'.visit :: vs) e

theorem Visits.again {it it' : Iterator} {vs : List Visit} {e : Errno} (pass : it.pass past data = .again it')
    (visits : Visits past data it' vs e) : Visits past data it vs e := by
  cases visits with
  | last returns => exact .last (.again pass returns)
  | visit returns rest => exact .visit (.again pass returns) rest

theorem Returns.next {it : Iterator} {r : Except Errno Iterator} (returns : Returns past data it r) :
    ∃ n, ∀ fuel ≥ n, it.next past data fuel = some r := by
  induction returns with
  | hit pass =>
    refine ⟨1, fun fuel enough => ?_⟩
    obtain ⟨fuel, rfl⟩ := Nat.exists_eq_add_of_le' enough
    rw [Iterator.next, pass]
  | done pass =>
    refine ⟨1, fun fuel enough => ?_⟩
    obtain ⟨fuel, rfl⟩ := Nat.exists_eq_add_of_le' enough
    rw [Iterator.next, pass]
  | again pass _ ih =>
    obtain ⟨n, rest⟩ := ih
    refine ⟨n + 1, fun fuel enough => ?_⟩
    obtain ⟨fuel, rfl⟩ := Nat.exists_eq_add_of_le' (Nat.le_of_add_left_le enough)
    rw [Iterator.next, pass]
    exact rest fuel (by omega)

/-- A caller with enough passes and calls sees them. -/
theorem Visits.visitAll {it : Iterator} {vs : List Visit} {e : Errno} (visits : Visits past data it vs e) :
    ∃ n, ∀ fuel ≥ n, ∀ calls ≥ n, it.visitAll past data fuel calls = (vs, some e) := by
  induction visits with
  | last returns =>
    obtain ⟨n, first⟩ := returns.next
    refine ⟨n + 1, fun fuel enough calls more => ?_⟩
    obtain ⟨calls, rfl⟩ := Nat.exists_eq_add_of_le' (Nat.le_of_add_left_le more)
    rw [Iterator.visitAll, first fuel (by omega)]
  | visit returns _ ih =>
    obtain ⟨n, first⟩ := returns.next
    obtain ⟨m, rest⟩ := ih
    refine ⟨n + m + 1, fun fuel enough calls more => ?_⟩
    obtain ⟨calls, rfl⟩ := Nat.exists_eq_add_of_le' (Nat.le_of_add_left_le more)
    rw [Iterator.visitAll, first fuel (by omega)]
    simp only [rest fuel (by omega) calls (by omega)]

/-! ## The bits of a word -/

/-- A field whose kind is in the table. -/
def Known (i : Nat) : Prop := i < 22 ∧ i ≠ 18

instance (i : Nat) : Decidable (Known i) := inferInstanceAs (Decidable (_ ∧ _))

theorem Known.align {i : Nat} (known : Known i) :
    (rtapKind i).align = 1 ∨ (rtapKind i).align = 2 ∨ (rtapKind i).align = 4 ∨ (rtapKind i).align = 8 := by
  obtain ⟨low, other⟩ := known
  revert i
  decide

theorem padded_eq {it : Iterator} {align : Nat} (power : align = 1 ∨ align = 2 ∨ align = 4 ∨ align = 8) :
    it.padded align = alignUp align it.arg := by
  have pad : it.arg &&& (align - 1) = it.arg % align := by
    rcases power with rfl | rfl | rfl | rfl
    · exact Nat.and_two_pow_sub_one_eq_mod it.arg 0
    · exact Nat.and_two_pow_sub_one_eq_mod it.arg 1
    · exact Nat.and_two_pow_sub_one_eq_mod it.arg 2
    · exact Nat.and_two_pow_sub_one_eq_mod it.arg 3
  simp only [padded, alignUp, pad]
  split <;> simp_all

/-- The iterator looks at bit `i` of the present word `w`. -/
structure At (it : Iterator) (w i : Nat) : Prop where
  shifter : it.bitmapShifter = w >>> i
  index : it.argIndex = i
  namespaced : it.currentNamespace = some .radiotapNs

variable {it : Iterator} {w i : Nat}

theorem At.bit (here : At it w i) : it.bitmapShifter &&& 1 = (w.testBit i).toNat := by
  rw [here.shifter, Nat.testBit_eq_decide_div_mod_eq, Nat.and_one_is_mod, Nat.shiftRight_eq_div_pow]
  rcases Nat.mod_two_eq_zero_or_one (w / 2 ^ i) with clear | set_
  · simp [clear]
  · simp [set_]

theorem At.nextEntry (here : At it w i) : At it.nextEntry w (i + 1) where
  shifter := by simp only [Iterator.nextEntry, here.shifter, Nat.shiftRight_add]
  index := by simp only [Iterator.nextEntry, here.index]
  namespaced := here.namespaced

variable (past data)

theorem At.pass_absent (here : At it w i) (low : i < 31) (absent : w.testBit i = false) :
    it.pass past data = .again it.nextEntry := by
  have bit := here.bit
  rw [absent] at bit
  have other : ¬it.argIndex % 32 = RtapBit.ext := by
    rw [here.index, RtapBit.ext]
    omega
  simp [pass, other, bit]

/-- The end of the present words. -/
theorem At.pass_end (here : At it w 31) (absent : w.testBit 31 = false) : it.pass past data = .done .enoent := by
  have bit := here.bit
  rw [absent] at bit
  simp [pass, here.index, RtapBit.ext, bit]

theorem At.pass_field (here : At it w i) (known : Known i) (present : w.testBit i = true) :
    it.pass past data =
      if it.maxLength < alignUp (rtapKind i).align it.arg + (rtapKind i).size then .done .einval
      else .hit (it.take (alignUp (rtapKind i).align it.arg) (rtapKind i).size).nextEntry := by
  have bit := here.bit
  rw [present] at bit
  have power := known.align
  have low := known.1
  have inRange : i % 32 = i := Nat.mod_eq_of_lt (by omega)
  have kind : it.alignSize = some (rtapKind i) := by
    simp only [alignSize, here.index, here.namespaced, inRange, RtapBit.radiotapNamespace, RtapBit.ext,
      RtapBit.vendorNamespace, Namespace.nBits, Namespace.alignSize]
    rw [if_neg (by omega), if_neg (by omega), if_pos (by simpa [rtapNamespaceSizes] using low)]
  have aligned : (rtapKind i).align ≠ 0 := by omega
  have vendor : i ≠ RtapBit.vendorNamespace := by simp only [RtapBit.vendorNamespace]; omega
  have ns : i ≠ RtapBit.radiotapNamespace := by simp only [RtapBit.radiotapNamespace]; omega
  have ext : i ≠ RtapBit.ext := by simp only [RtapBit.ext]; omega
  simp [pass, bit, kind, aligned, here.index, inRange, vendor, ns, ext, padded_eq power, take]

/-- The special bits take no room; -/
theorem At.pass_namespace (here : At it w 29) (present : w.testBit 29 = true) (inside : it.arg ≤ it.maxLength) :
    ∃ it', it.pass past data = .again it' ∧ At it' w 30 ∧ it'.arg = it.arg ∧ it'.maxLength = it.maxLength ∧
      it'.nextBitmap = it.nextBitmap ∧ it'.resetOnExt = true := by
  have bit := here.bit
  rw [present] at bit
  refine ⟨({ it.take it.arg 0 with
    resetOnExt := true, currentNamespace := some .radiotapNs, isRadiotapNs := true } : Iterator).nextEntry,
    ?_, ⟨?_, ?_, rfl⟩, rfl, rfl, rfl, rfl⟩
  · simp [pass, bit, here.index, alignSize, RtapBit.radiotapNamespace, RtapBit.ext, RtapBit.vendorNamespace, take,
      padded_eq, alignUp_one, inside]
  · simp only [Iterator.nextEntry, take, here.shifter]
    exact (Nat.shiftRight_add w 29 1).symm
  · simp only [Iterator.nextEntry, take, here.index]

/-- behind the last begins the next word. -/
theorem At.pass_ext (here : At it w 31) (present : w.testBit 31 = true) (reset : it.resetOnExt = true)
    (inside : it.arg ≤ it.maxLength) :
    ∃ it', it.pass past data = .again it' ∧ At it' (getUnalignedLe32 past data it.nextBitmap) 0 ∧
      it'.arg = it.arg ∧ it'.maxLength = it.maxLength ∧ it'.nextBitmap = it.nextBitmap + 4 := by
  have bit := here.bit
  rw [present] at bit
  refine ⟨{ it.take it.arg 0 with
    bitmapShifter := getUnalignedLe32 past data it.nextBitmap, nextBitmap := it.nextBitmap + 4
    argIndex := if it.resetOnExt then 0 else it.argIndex + 1, resetOnExt := false },
    ?_, ⟨rfl, ?_, here.namespaced⟩, rfl, rfl, rfl⟩
  · simp [pass, bit, here.index, alignSize, RtapBit.radiotapNamespace, RtapBit.ext, RtapBit.vendorNamespace, take,
      padded_eq, alignUp_one, inside]
  · simp [reset]

/-- The fields a present word announces. -/
def fieldsOf (w : Nat) : List Nat := (List.range' 0 29).filter w.testBit

/-- A present word of the radiotap namespace; `more` says whether another follows. -/
structure PlainWord (more : Bool) (w : Nat) : Prop where
  known : ∀ i < 29, w.testBit i = true → Known i
  namespaced : w.testBit 29 = more
  vendorless : w.testBit 30 = false
  ext : w.testBit 31 = more

/-- A place of a field, as a call returns it. -/
def visitAt (v : Nat × Nat) : Visit := ⟨v.1, v.2, (rtapKind v.1).size⟩

/-- Through the fields of a word, by the number of bits still to come. -/
theorem Visits.fields (known : ∀ i < 29, w.testBit i = true → Known i) (n : Nat) :
    ∀ {it : Iterator} {i : Nat}, i + n = 29 → At it w i → it.arg ≤ it.maxLength →
      let is := (List.range' i n).filter w.testBit
      let s := scan rtapKind it.maxLength it.arg is
      (s.2 = false → Visits past data it (s.1.map visitAt) .einval) ∧
      (s.2 = true → ∃ it', At it' w 29 ∧ it'.arg = stop rtapKind it.arg is ∧ it'.arg ≤ it'.maxLength ∧
        it'.maxLength = it.maxLength ∧ it'.nextBitmap = it.nextBitmap ∧
        ∀ vs e, Visits past data it' vs e → Visits past data it (s.1.map visitAt ++ vs) e) := by
  induction n with
  | zero =>
    intro it i last here inside
    obtain rfl : i = 29 := last
    exact ⟨fun no => absurd no (by simp [scan]),
      fun _ => ⟨it, here, rfl, inside, rfl, rfl, fun vs e rest => by simpa [scan] using rest⟩⟩
  | succ n ih =>
    intro it i last here inside
    rw [List.range'_succ]
    by_cases present : w.testBit i = true
    · have pass := here.pass_field past data (known i (by omega) present) present
      simp only [List.filter_cons, present, if_true, scan, stop]
      split
      · rename_i beyond
        rw [if_pos beyond] at pass
        exact ⟨fun _ => .last (.done pass), fun no => absurd no (by decide)⟩
      · rename_i enough
        rw [if_neg enough] at pass
        have there : At (it.take (alignUp (rtapKind i).align it.arg) (rtapKind i).size) w i :=
          ⟨here.shifter, here.index, here.namespaced⟩
        obtain ⟨short, whole⟩ := ih (by omega) there.nextEntry (Nat.le_of_not_lt enough)
        have visit : (it.take (alignUp (rtapKind i).align it.arg) (rtapKind i).size).nextEntry.visit =
            visitAt (i, alignUp (rtapKind i).align it.arg) := by
          simp [Iterator.visit, Iterator.nextEntry, take, visitAt, here.index]
        refine ⟨fun no => ?_, fun yes => ?_⟩
        · have visits := Visits.visit (.hit pass) (short no)
          rwa [visit] at visits
        · obtain ⟨it', at_, arg, le, length, bitmap, rest⟩ := whole yes
          refine ⟨it', at_, arg, le, length, bitmap, fun vs e later => ?_⟩
          have visits := Visits.visit (.hit pass) (rest vs e later)
          rwa [visit] at visits
    · have absent : w.testBit i = false := by simpa using present
      have pass := here.pass_absent past data (by omega) absent
      simp only [List.filter_cons, present]
      obtain ⟨short, whole⟩ := ih (by omega) here.nextEntry inside
      refine ⟨fun no => (short no).again pass, fun yes => ?_⟩
      obtain ⟨it', at_, arg, le, length, bitmap, rest⟩ := whole yes
      exact ⟨it', at_, arg, le, length, bitmap, fun vs e later => (rest vs e later).again pass⟩

theorem Visits.last_word (plain : PlainWord false w) (here : At it w 29) : Visits past data it [] .enoent := by
  have first := here.pass_absent past data (by decide) plain.namespaced
  have second := here.nextEntry.pass_absent past data (by decide) plain.vendorless
  have third := here.nextEntry.nextEntry.pass_end past data plain.ext
  exact ((Visits.last (.done third)).again second).again first

theorem Visits.next_word (plain : PlainWord true w) (here : At it w 29) (inside : it.arg ≤ it.maxLength) :
    ∃ it', At it' (getUnalignedLe32 past data it.nextBitmap) 0 ∧ it'.arg = it.arg ∧
      it'.maxLength = it.maxLength ∧ it'.nextBitmap = it.nextBitmap + 4 ∧
      ∀ vs e, Visits past data it' vs e → Visits past data it vs e := by
  obtain ⟨it₁, first, at₁, arg₁, length₁, bitmap₁, reset₁⟩ :=
    here.pass_namespace past data plain.namespaced inside
  have second := at₁.pass_absent past data (by decide) plain.vendorless
  obtain ⟨it₂, third, at₂, arg₂, length₂, bitmap₂⟩ := at₁.nextEntry.pass_ext past data
    plain.ext reset₁ (by simpa [Iterator.nextEntry, arg₁, length₁] using inside)
  refine ⟨it₂, ?_, arg₂.trans arg₁, length₂.trans length₁, ?_, fun vs e rest => ?_⟩
  · simpa [Iterator.nextEntry, bitmap₁] using at₂
  · simpa [Iterator.nextEntry, bitmap₁] using bitmap₂
  · exact ((rest.again third).again second).again first

end Iterator

open Iterator

/-! ## The header -/

/-- Present words of the radiotap namespace, one behind another. -/
def PresentWords (past : Nat → UInt8) (data : List UInt8) : Nat → List Nat → Prop
  | _, [] => False
  | at_, [w] => getUnalignedLe32 past data at_ = w ∧ PlainWord false w
  | at_, w :: w' :: ws =>
    getUnalignedLe32 past data at_ = w ∧ PlainWord true w ∧ PresentWords past data (at_ + 4) (w' :: ws)

theorem Iterator.Visits.words (ws : List Nat) :
    ∀ {it : Iterator} {w at_ : Nat}, PresentWords past data at_ (w :: ws) → At it w 0 → it.nextBitmap = at_ + 4 →
      it.arg ≤ it.maxLength →
      let s := scan rtapKind it.maxLength it.arg ((w :: ws).flatMap fieldsOf)
      Visits past data it (s.1.map visitAt) (if s.2 then .enoent else .einval) := by
  induction ws with
  | nil =>
    intro it w at_ words here bitmap inside
    obtain ⟨short, whole⟩ := Visits.fields past data words.2.known 29 rfl here inside
    dsimp only
    rw [List.flatMap_cons, List.flatMap_nil, List.append_nil, fieldsOf]
    cases all : (scan rtapKind it.maxLength it.arg ((List.range' 0 29).filter w.testBit)).2 with
    | false => exact short all
    | true =>
      obtain ⟨it', at_', -, -, -, -, rest⟩ := whole all
      simpa using rest _ _ (Visits.last_word past data words.2 at_')
  | cons w' ws ih =>
    intro it w at_ words here bitmap inside
    obtain ⟨-, plain, later⟩ := words
    obtain ⟨short, whole⟩ := Visits.fields past data plain.known 29 rfl here inside
    dsimp only
    rw [List.flatMap_cons, scan_append, fieldsOf]
    cases all : (scan rtapKind it.maxLength it.arg ((List.range' 0 29).filter w.testBit)).2 with
    | false => simpa [all] using short all
    | true =>
      obtain ⟨it₁, at₁, arg₁, inside₁, length₁, bitmap₁, rest₁⟩ := whole all
      obtain ⟨it₂, at₂, arg₂, length₂, bitmap₂, rest₂⟩ :=
        Visits.next_word past data plain at₁ inside₁
      have word : getUnalignedLe32 past data it₁.nextBitmap = w' := by
        rw [bitmap₁, bitmap]
        cases ws with
        | nil => exact later.1
        | cons _ _ => exact later.1
      rw [word] at at₂
      have tail := ih later at₂ (by rw [bitmap₂, bitmap₁, bitmap]) (by rw [arg₂, length₂]; exact inside₁)
      have visits := rest₁ _ _ (rest₂ _ _ tail)
      rw [arg₂, length₂, arg₁, length₁] at visits
      simpa [all] using visits

theorem skipBitmaps_words {maxLength : Nat} (ws : List Nat) {at_ : Nat} (words : PresentWords past data at_ ws)
    (inside : at_ + 4 * ws.length ≤ maxLength) :
    skipBitmaps past data maxLength at_ = .ok (at_ + 4 * ws.length) := by
  induction ws generalizing at_ with
  | nil => exact words.elim
  | cons w ws ih =>
    rw [skipBitmaps, if_neg (by simp at inside; omega)]
    cases ws with
    | nil =>
      rw [words.1, RtapBit.ext, words.2.ext]
      rfl
    | cons w' ws =>
      obtain ⟨first, plain, rest⟩ := words
      rw [first, RtapBit.ext, plain.ext]
      simp only [List.length_cons] at inside ih ⊢
      rw [if_pos trivial, ih rest (by omega)]
      congr 1
      omega

/-- Reading a header of the radiotap namespace: its fields are visited where their alignments put
them, as far as the header's length goes. -/
theorem readRadiotap_words {maxLength : Nat} (vns : List RadiotapNamespace) (junk : Iterator) {ws : List Nat}
    (version : byteAt past data 0 = 0) (words : PresentWords past data 4 ws)
    (inside : 4 + 4 * ws.length ≤ field past data 2 2) (short : field past data 2 2 ≤ maxLength) :
    let s := scan rtapKind (field past data 2 2) (4 + 4 * ws.length) (ws.flatMap fieldsOf)
    ∃ n, ∀ fuel ≥ n, readRadiotap past data maxLength vns junk fuel =
      (s.1.map visitAt, some (if s.2 then .enoent else .einval)) := by
  obtain ⟨w, ws, rfl⟩ : ∃ w ws', ws = w :: ws' := by
    cases ws with
    | nil => exact words.elim
    | cons w ws => exact ⟨w, ws, rfl⟩
  have first : getUnalignedLe32 past data 4 = w := by
    cases ws with
    | nil => exact words.1
    | cons _ _ => exact words.1
  simp only [List.length_cons] at inside ⊢
  have bitmaps : (if w.testBit RtapBit.ext then skipBitmaps past data (field past data 2 2) 8 else .ok 8) =
      (.ok (4 + 4 * (ws.length + 1)) : Except Errno Nat) := by
    cases ws with
    | nil => rw [RtapBit.ext, words.2.ext]; rfl
    | cons w' ws =>
      obtain ⟨-, plain, rest⟩ := words
      have room : 4 + 4 + 4 * (w' :: ws).length ≤ field past data 2 2 := by
        simp only [List.length_cons] at inside ⊢
        omega
      have skipped := skipBitmaps_words (w' :: ws) rest room
      rw [RtapBit.ext, plain.ext, if_pos rfl, skipped]
      congr 1
      omega
  let it : Iterator := { junk with
    maxLength := field past data 2 2, argIndex := 0, bitmapShifter := w, arg := 4 + 4 * (ws.length + 1)
    resetOnExt := false, nextBitmap := 8, vns, currentNamespace := some .radiotapNs, isRadiotapNs := true
    thisArg := 4 + 4 * (ws.length + 1) }
  have started : iteratorInit past data maxLength vns junk = .ok it := by
    simp only [iteratorInit, version, first, bitmaps]
    rw [if_neg (by omega), if_neg (by simp), if_neg (by omega)]
    rfl
  have here : At it w 0 := ⟨rfl, rfl, rfl⟩
  obtain ⟨n, all⟩ := (Visits.words ws words here rfl inside).visitAll
  refine ⟨n, fun fuel enough => ?_⟩
  rw [readRadiotap, started]
  exact all fuel enough fuel enough

end Vmac.Recv
