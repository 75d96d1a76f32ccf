/-
# Vmac.Ie.Remove -- `rtw_ies_remove_ie` and `rtw_del_p2p_ie`

Both search, move what is behind the element they find over it, and search again: one from there on, the other from the
beginning.  What a search finds is the element that its searcher finds, whole or not.

* `removeAlong`, `DelFits`: the lists for which a removal is a filter and stays inside.
* `removal_sound`: it is and does for these, and of lists below 4 GiB for no others.
* `truncated_removed`: a truncated element, and a move of 2^32 bytes.
-/
import Vmac.Ie.Search

namespace Vmac.Ie

open Theory.Elements Theory.Walk Security

set_option autoImplicit false

/-! ## `rtw_ies_remove_ie` -/

/-- `_rtw_memmove`. -/
def memmove (m : Mem) (dst src len : Nat) : Mem := splice m dst (bytesAt m src len)

/-- What it reads and writes. -/
def memmoveLooks (dst src len : Nat) : List Nat :=
  (List.range len).map (src + ·) ++ (List.range len).map (dst + ·)

/-- A move of bytes beyond the end. -/
theorem not_moved_outside {dst src len n : Nat} (some_ : 0 < len) (beyond : n < src + len) :
    ¬∀ a ∈ memmoveLooks dst src len, a < n := by
  intro within
  have last : src + (n - src) ∈ memmoveLooks dst src len :=
    List.mem_append_left _ (List.mem_map.mpr ⟨n - src, List.mem_range.mpr (by omega), rfl⟩)
  have outside := within _ last
  omega

/-- A move inside. -/
theorem moved_inside {dst src len n : Nat} (read : src + len ≤ n) (written : dst + len ≤ n) :
    ∀ a ∈ memmoveLooks dst src len, a < n := by
  intro a member
  rcases List.mem_append.mp member with there | there <;>
  · obtain ⟨k, inside, rfl⟩ := List.mem_map.mp there
    have := List.mem_range.mp inside
    omega

theorem uintSub_underflow {a b : Nat} (less : a < b) : Ap.uintSub a b = a + 2 ^ 32 - b := by
  rw [Ap.uintSub, Nat.mod_eq_of_lt (by omega)]

/-- The variables of `rtw_ies_remove_ie`; `start` by its distance from `ies`. -/
structure Removing where
  ies : Mem
  iesLen : Nat
  start : Nat
  searchLen : Nat
  ret : Bool

namespace Removing

variable (s : Removing)

/-- The memory from `start` on. -/
def view : Mem := fun k => s.ies (s.start + k)

/-- `target_ielen` of the element found at `q`. -/
def targetIelen (q : Nat) : Nat := (s.view (uint (q + 1))).toNat + 2

def remainLen (q : Nat) : Nat := Ap.uintSub s.searchLen (q + s.targetIelen q)

def remove (q : Nat) : Removing where
  ies := memmove s.ies (s.start + q) (s.start + (q + s.targetIelen q)) (s.remainLen q)
  iesLen := Ap.uintSub s.iesLen (s.targetIelen q)
  start := s.start + q
  searchLen := s.remainLen q
  ret := true

def removeLooks (q : Nat) : List Nat :=
  memmoveLooks (s.start + q) (s.start + (q + s.targetIelen q)) (s.remainLen q)

/-- The search, which `ielen` is wanted of. -/
def search (eid : UInt8) (oui : Option (List UInt8)) : Loop Nat Nat (Option Nat) :=
  (getIeExLoop s.view s.searchLen eid oui ⟨false, true⟩).shift (s.start + ·)

end Removing

/-- The loop of `rtw_ies_remove_ie`, with that of each search. -/
def removeLoop (eid : UInt8) (oui : Option (List UInt8)) : Loop (Removing × Nat) Nat Removing :=
  Loop.nest (fun s => s.search eid oui) (fun _ => 0) (fun s found => found.elim [] s.removeLooks)
    fun s found => found.elim (.inl s) fun q => .inr (s.remove q)

def removeStart (m : Mem) (iesLen offset : Nat) : Removing := ⟨m, iesLen, offset, iesLen - offset, false⟩

/-- An element that is to be removed. -/
def isTarget (eid : UInt8) (key : List UInt8) (e : Element) : Bool := e.id = eid && key.isPrefixOf e.data

/-- From `cnt` on, with the bytes that former removals have left behind the end: what is compared lies in the list as it
was, what is taken is whole, and of a list what is taken is to be removed. -/
def removeAlong (list : Prop) (eid : UInt8) (key rest : List UInt8) : Nat → List UInt8 → List Element → Prop
  | cnt, stale, [] => rest = [] ∨ ∃ id len s, rest ++ stale = id :: len :: s ∧
      (id = eid → key.length ≤ s.length ∧ ¬key <+: s) ∧ cnt + (len.toNat + 2) < 2 ^ 32
  | cnt, stale, e :: es =>
    (e.id = eid → key.length ≤ (e.data ++ (bytesOf es ++ (rest ++ stale))).length) ∧
      if e.id = eid ∧ key <+: e.data ++ (bytesOf es ++ (rest ++ stale)) then
        (list → key <+: e.data) ∧
          removeAlong list eid key rest 0 ((e.bytes ++ (bytesOf es ++ (rest ++ stale))).drop (bytesOf es ++ rest).length) es
      else removeAlong list eid key rest (cnt + e.bytes.length) stale es

/-- Where the loop is: what is behind it and before it, in the `n` bytes of the list as it was. -/
structure Removing.At (s : Removing) (n cnt : Nat) (done : List UInt8) (es : List Element) (rest stale : List UInt8) :
    Prop where
  stands : Stands s.ies 0 (done ++ (bytesOf es ++ (rest ++ stale)))
  total : (done ++ (bytesOf es ++ (rest ++ stale))).length = n
  place : done.length = s.start + cnt
  searched : cnt + (bytesOf es ++ rest).length = s.searchLen
  length : s.iesLen = s.start + s.searchLen
  small : n < 2 ^ 32

section Remove

variable {s : Removing} {n cnt : Nat} {done rest stale : List UInt8} {e : Element} {es : List Element} {eid : UInt8}
  {oui : Option (List UInt8)} {r : Removing} {list : Prop}

/-- What is moved stands where it is moved to; the bytes behind it are those that stood there before. -/
theorem memmove_stands {m : Mem} {x after tail : List UInt8} (stands : Stands m 0 (done ++ (x ++ (after ++ tail)))) :
    Stands (memmove m done.length (done.length + x.length) after.length) 0
      (done ++ (after ++ (x ++ (after ++ tail)).drop after.length)) := by
  have here : Stands m (0 + done.length) (x ++ (after ++ tail)) := stands.right
  rw [Nat.zero_add] at here
  have source : bytesAt m (done.length + x.length) after.length = after := here.right.left
  have enough : after.length ≤ (x ++ (after ++ tail)).length := by
    simp only [List.length_append]
    omega
  rw [← List.take_append_drop after.length (x ++ (after ++ tail))] at stands
  rw [memmove, source]
  have moved := stands.splice after (List.length_take_of_le enough).symm
  rwa [Nat.zero_add] at moved

/-- What stands behind a gap is moved over it, and zeros are written over as many bytes behind. -/
theorem closed_stands {m : Mem} {gap after tail : List UInt8} (stands : Stands m 0 (done ++ (gap ++ (after ++ tail)))) :
    Stands (splice (memmove m done.length (done.length + gap.length) after.length) (done.length + after.length)
      (List.replicate gap.length 0)) 0 (done ++ (after ++ (List.replicate gap.length 0 ++ tail))) := by
  have moved := memmove_stands stands
  rw [← List.take_append_drop gap.length (List.drop _ (gap ++ _)), ← List.append_assoc] at moved
  have zeroed := moved.splice (List.replicate gap.length 0) (by
    rw [List.length_replicate, List.length_take_of_le]
    simp only [List.length_drop, List.length_append]
    omega)
  have behind : ((gap ++ (after ++ tail)).drop after.length).drop gap.length = tail := by
    rw [List.drop_drop, ← List.append_assoc, List.drop_left']
    rw [List.length_append]
    exact Nat.add_comm _ _
  rw [behind, Nat.zero_add, @List.length_append _ done] at zeroed
  simpa only [List.append_assoc] using zeroed

theorem Removing.At.view_stands (at_ : s.At n cnt done es rest stale) :
    Stands s.view cnt (bytesOf es ++ (rest ++ stale)) := by
  have there := at_.stands.right
  rw [Nat.zero_add, at_.place] at there
  exact stands_fromPtr.mpr there

/-- What the search reads, counted from `start`. -/
theorem Removing.At.search_ends (at_ : s.At n cnt done es rest stale) (eid : UInt8) (oui : Option (List UInt8)) (c : Nat)
    (found : Option Nat) : (s.search eid oui).Ends (· < n) c found ↔
      (getIeExLoop s.view s.searchLen eid oui ⟨false, true⟩).Ends (· < n - s.start) c found := by
  have total := at_.total
  have place := at_.place
  rw [List.length_append] at total
  have same : (fun a => s.start + a < n) = (· < n - s.start) := by
    funext a
    exact propext (by omega)
  rw [Removing.search, Loop.shift_ends_iff, same]

/-- The state behind a whole element that is removed. -/
theorem Removing.At.remove (at_ : s.At n cnt done (e :: es) rest stale) :
    (s.remove cnt).At n 0 done es rest
      ((e.bytes ++ (bytesOf es ++ (rest ++ stale))).drop (bytesOf es ++ rest).length) ∧
    (s.remove cnt).iesLen + e.bytes.length = s.iesLen ∧ ∀ a ∈ s.removeLooks cnt, a < n := by
  have view := at_.view_stands
  have total := at_.total
  have place := at_.place
  have searched := at_.searched
  have length := at_.length
  have small := at_.small
  have short := e.short
  rw [bytesOf_cons, List.append_assoc] at view
  simp only [bytesOf_cons, List.length_append, Element.length_bytes] at total searched
  have ielen : s.targetIelen cnt = e.data.length + 2 := by
    rw [Removing.targetIelen, uint_of_lt (by omega), view.header.2]
  have remain : s.remainLen cnt = (bytesOf es ++ rest).length := by
    rw [Removing.remainLen, ielen, Ap.uintSub_of_le (by omega) (by omega), List.length_append]
    omega
  have left : Ap.uintSub s.iesLen (s.targetIelen cnt) = s.iesLen - (e.data.length + 2) := by
    rw [ielen, Ap.uintSub_of_le (by omega) (by omega)]
  refine ⟨⟨?_, ?_, ?_, ?_, ?_, small⟩, ?_, ?_⟩
  · have stands := at_.stands
    rw [bytesOf_cons, List.append_assoc, ← List.append_assoc (bytesOf es) rest stale] at stands
    have moved := memmove_stands stands
    rw [Element.length_bytes, place] at moved
    rw [Removing.remove, ielen, remain, ← Nat.add_assoc, ← List.append_assoc (bytesOf es) rest,
      ← List.append_assoc (bytesOf es) rest stale]
    exact moved
  · simp only [List.length_append, List.length_drop, Element.length_bytes]
    omega
  · show done.length = s.start + cnt + 0
    omega
  · show 0 + _ = s.remainLen cnt
    rw [remain, Nat.zero_add]
  · show Ap.uintSub s.iesLen (s.targetIelen cnt) = s.start + cnt + s.remainLen cnt
    rw [left, remain, List.length_append]
    omega
  · show Ap.uintSub s.iesLen (s.targetIelen cnt) + _ = _
    rw [left, Element.length_bytes]
    omega
  · rw [Removing.removeLooks, ielen, remain, List.length_append]
    exact moved_inside (by omega) (by omega)

/-- The state behind a whole element that stays. -/
theorem Removing.At.skip (at_ : s.At n cnt done (e :: es) rest stale) :
    s.At n (cnt + e.bytes.length) (done ++ e.bytes) es rest stale := by
  obtain ⟨stands, total, place, searched, length, small⟩ := at_
  rw [bytesOf_cons, List.append_assoc, ← List.append_assoc done] at stands total
  rw [bytesOf_cons, List.append_assoc, List.length_append] at searched
  refine ⟨stands, total, ?_, by omega, length, small⟩
  rw [List.length_append, place, Nat.add_assoc]

/-- The search at a whole element. -/
theorem search_element (at_ : s.At n cnt done (e :: es) rest stale) (found : Option Nat) :
    (s.search eid oui).Ends (· < n) cnt found ↔
      (e.id = eid → (oui.getD []).length ≤ (e.data ++ (bytesOf es ++ (rest ++ stale))).length) ∧
        if e.id = eid ∧ oui.getD [] <+: e.data ++ (bytesOf es ++ (rest ++ stale)) then found = some cnt
        else (s.search eid oui).Ends (· < n) (cnt + e.bytes.length) found := by
  have view := at_.view_stands
  have total := at_.total
  have place := at_.place
  have searched := at_.searched
  have small := at_.small
  rw [bytesOf_cons, List.append_assoc] at view
  simp only [bytesOf_cons, List.length_append, Element.length_bytes] at total searched
  have reads : (getIeExLoop s.view s.searchLen eid oui ⟨false, true⟩).Ends (· < n - s.start) cnt found ↔ _ :=
    ex_reads (s := e.data ++ (bytesOf es ++ (rest ++ stale))) view (by omega)
      (by simp only [List.length_append]; omega) (by omega)
  rw [e.lengthByte, uint_of_lt (by omega), ← Element.length_bytes] at reads
  rw [at_.search_ends, at_.search_ends, reads]
  simp

theorem removeThen_some (q : Nat) : Loop.NestThen (fun s : Removing => s.search eid oui) (fun _ => 0)
    (fun s found => found.elim [] s.removeLooks) (fun s found => found.elim (.inl s) fun q => .inr (s.remove q))
    (· < n) s (some q) r ↔
    (∀ a ∈ s.removeLooks q, a < n) ∧ (removeLoop eid oui).Ends (· < n) (s.remove q, 0) r := by
  rw [Loop.NestThen, Option.elim_some, Option.elim_some]
  exact Iff.rfl

/-- A whole element is removed or passed. -/
theorem remove_element (at_ : s.At n cnt done (e :: es) rest stale) :
    (removeLoop eid oui).Ends (· < n) (s, cnt) r ↔
      (e.id = eid → (oui.getD []).length ≤ (e.data ++ (bytesOf es ++ (rest ++ stale))).length) ∧
        if e.id = eid ∧ oui.getD [] <+: e.data ++ (bytesOf es ++ (rest ++ stale)) then
          (removeLoop eid oui).Ends (· < n) (s.remove cnt, 0) r
        else (removeLoop eid oui).Ends (· < n) (s, cnt + e.bytes.length) r := by
  have inside := at_.remove.2.2
  have reads (found : Option Nat) : (s.search eid oui).Ends (· < n) cnt found ↔ _ := search_element at_ found
  rw [removeLoop, Loop.nest_ends_iff]
  by_cases taken : e.id = eid ∧ oui.getD [] <+: e.data ++ (bytesOf es ++ (rest ++ stale))
  · simp only [if_pos taken] at reads ⊢
    constructor
    · rintro ⟨found, ends, behind⟩
      obtain ⟨compared, rfl⟩ := (reads found).mp ends
      exact ⟨compared, ((removeThen_some cnt).mp behind).2⟩
    · rintro ⟨compared, ends⟩
      exact ⟨some cnt, (reads _).mpr ⟨compared, rfl⟩, (removeThen_some cnt).mpr ⟨inside, ends⟩⟩
  · simp only [if_neg taken] at reads ⊢
    rw [Loop.nest_ends_iff]
    constructor
    · rintro ⟨found, ends, behind⟩
      obtain ⟨compared, ends⟩ := (reads found).mp ends
      exact ⟨compared, found, ends, behind⟩
    · rintro ⟨compared, found, ends, behind⟩
      exact ⟨found, (reads found).mpr ⟨compared, ends⟩, behind⟩

/-- The search that has come to the end of what is searched. -/
theorem remove_end {c : Nat} (beyond : s.searchLen ≤ c) : (removeLoop eid oui).Ends (· < n) (s, c) r ↔ r = s := by
  have stops : ¬c < s.searchLen := Nat.not_lt.mpr beyond
  have round : (removeLoop eid oui).round (s, c) = .inl s := by
    simp only [removeLoop, Loop.nest, Removing.search, Loop.shift, getIeExLoop, if_neg stops]
    rfl
  have looks : ∀ a ∈ (removeLoop eid oui).looks (s, c), a < n := by
    simp [removeLoop, Loop.nest, Removing.search, Loop.shift, getIeExLoop, if_neg stops]
  exact (Loop.ends_of_done round).trans (and_iff_right looks)

/-- A remainder says that it is longer than it is. -/
theorem cut_longer {id len : UInt8} {t : List UInt8} (cut : Cut rest) (some_ : rest ≠ [])
    (split : rest ++ stale = id :: len :: t) : rest.length < len.toNat + 2 := by
  rcases cut.cases with none_ | ⟨b, rfl⟩ | ⟨id', len', t', rfl, short⟩
  · exact absurd none_ some_
  · rw [List.length_singleton]
    omega
  · simp only [List.cons_append, List.cons.injEq] at split
    obtain ⟨-, rfl, -⟩ := split
    simp only [List.length_cons]
    omega

/-- An element that is longer than what is left of the list is moved out of it. -/
theorem not_removed_longer {q : Nat} (small : n < 2 ^ 32) (inside : q + s.targetIelen q < 2 ^ 32)
    (longer : s.searchLen < q + s.targetIelen q) :
    ¬∀ a ∈ s.removeLooks q, a < n := by
  have remain : s.remainLen q = s.searchLen + 2 ^ 32 - (q + s.targetIelen q) := uintSub_underflow longer
  exact not_moved_outside (by omega) (by omega)

/-- The search at the remainder. -/
theorem search_cut {id len : UInt8} {t : List UInt8} (at_ : s.At n cnt done [] rest stale) (some_ : rest ≠ [])
    (split : rest ++ stale = id :: len :: t) (found : Option Nat) : (s.search eid oui).Ends (· < n) cnt found ↔
      (id = eid → (oui.getD []).length ≤ t.length) ∧
        if id = eid ∧ oui.getD [] <+: t then found = some cnt
        else (s.search eid oui).Ends (· < n) (uint (cnt + (len.toNat + 2))) found := by
  have view := at_.view_stands
  have total := at_.total
  have place := at_.place
  have searched := at_.searched
  have small := at_.small
  have positive := List.length_pos_of_ne_nil some_
  rw [bytesOf_nil, List.nil_append, split] at view total
  simp only [bytesOf_nil, List.nil_append] at searched
  simp only [List.length_append, List.length_cons] at total
  have reads : (getIeExLoop s.view s.searchLen eid oui ⟨false, true⟩).Ends (· < n - s.start) cnt found ↔ _ :=
    ex_reads view (by omega) (by omega) (by omega)
  rw [at_.search_ends, at_.search_ends, reads]
  simp

theorem targetIelen_cut {id len : UInt8} {t : List UInt8} (at_ : s.At n cnt done [] rest stale)
    (split : rest ++ stale = id :: len :: t) : s.targetIelen cnt = len.toNat + 2 := by
  have view := at_.view_stands
  have total := at_.total
  have place := at_.place
  have small := at_.small
  rw [bytesOf_nil, List.nil_append, split] at view total
  simp only [List.length_append, List.length_cons] at total
  have there : s.view (cnt + 1) = len := view.byte (k := 1) (by simp)
  rw [Removing.targetIelen, uint_of_lt (by omega), there]

/-- Half a header is read behind the end. -/
theorem not_remove_half (at_ : s.At n cnt done [] rest stale) (some_ : rest ≠ []) (half : (rest ++ stale).length < 2) :
    ¬(removeLoop eid oui).Ends (· < n) (s, cnt) r := by
  intro ends
  have total := at_.total
  have place := at_.place
  have searched := at_.searched
  have small := at_.small
  have positive := List.length_pos_of_ne_nil some_
  simp only [bytesOf_nil, List.nil_append, List.length_append] at total searched half
  obtain ⟨found, search, -⟩ := Loop.nest_ends_iff.mp ends
  have below : cnt < s.searchLen := by omega
  have reads : cnt + 1 ∈ (getIeExLoop s.view s.searchLen eid oui ⟨false, true⟩).looks cnt := by
    simp only [getIeExLoop, if_pos below, Wanted.looks]
    refine List.mem_append_right _ ?_
    split <;> simp [uint_of_lt (show cnt + 1 < 2 ^ 32 by omega)]
  have outside := search.here (s.start + (cnt + 1)) (List.mem_map.mpr ⟨_, reads, rfl⟩)
  omega

/-- The remainder is left as it is. -/
theorem remove_cut (at_ : s.At n cnt done [] rest stale) (cut : Cut rest)
    (along : removeAlong list eid (oui.getD []) rest cnt stale []) : (removeLoop eid oui).Ends (· < n) (s, cnt) s := by
  have searched := at_.searched
  simp only [bytesOf_nil, List.nil_append] at searched
  by_cases none_ : rest = []
  · rw [none_, List.length_nil] at searched
    exact (remove_end (by omega)).mpr rfl
  · rcases along with none_' | ⟨id, len, t, split, other, stays⟩
    · exact absurd none_' none_
    · have longer := cut_longer cut none_ split
      have stops : (removeLoop eid oui).Ends (· < n) (s, cnt + (len.toNat + 2)) s := (remove_end (by omega)).mpr rfl
      obtain ⟨found, search, behind⟩ := Loop.nest_ends_iff.mp stops
      refine Loop.nest_ends_iff.mpr ⟨found, (search_cut at_ none_ split found).mpr ?_, behind⟩
      rw [if_neg fun taken => (other taken.1).2 taken.2, uint_of_lt stays]
      exact ⟨fun same => (other same).1, search⟩

theorem removeAlong_of_cut (at_ : s.At n cnt done [] rest stale) (cut : Cut rest) (room : n + 257 ≤ 2 ^ 32)
    (ends : (removeLoop eid oui).Ends (· < n) (s, cnt) r) : removeAlong list eid (oui.getD []) rest cnt stale [] := by
  have total := at_.total
  have place := at_.place
  have searched := at_.searched
  have ielen (id len : UInt8) (t : List UInt8) (split : rest ++ stale = id :: len :: t) :=
    targetIelen_cut at_ split
  simp only [bytesOf_nil, List.nil_append, List.length_append] at total searched
  by_cases none_ : rest = []
  · exact .inl none_
  · match split : rest ++ stale with
    | [] => exact absurd (List.append_eq_nil_iff.mp split).1 none_
    | [b] => exact absurd ends (not_remove_half at_ none_ (by rw [split]; simp))
    | id :: len :: t =>
        have bound := len.toNat_lt
        have positive := List.length_pos_of_ne_nil none_
        have longer := cut_longer cut none_ split
        obtain ⟨found, search, behind⟩ := Loop.nest_ends_iff.mp ends
        obtain ⟨inside, stops⟩ := (search_cut at_ none_ split found).mp search
        refine .inr ⟨id, len, t, split, fun same => ⟨inside same, fun front => ?_⟩, by omega⟩
        rw [if_pos ⟨same, front⟩] at stops
        subst stops
        have size := ielen id len t split
        exact not_removed_longer at_.small (by omega) (by omega)
          ((removeThen_some cnt).mp behind).1

/-! ## Whole lists -/

/-- Before the place `done`, from there on the elements that are not to be removed. -/
def Filtered (eid : UInt8) (key done : List UInt8) (es : List Element) (r : Removing) : Prop :=
  r.iesLen = (done ++ bytesOf (es.filter fun e => !isTarget eid key e)).length ∧
    Stands r.ies 0 (done ++ bytesOf (es.filter fun e => !isTarget eid key e))

theorem isTarget_iff {key : List UInt8} : isTarget eid key e = true ↔ e.id = eid ∧ key <+: e.data := by
  simp [isTarget]

/-- Of a list some elements are left. -/
theorem remove_sublist (at_ : s.At n cnt done es [] stale) (ends : (removeLoop eid oui).Ends (· < n) (s, cnt) r) :
    ∃ left : List Element, left.Sublist es ∧ r.iesLen = (done ++ bytesOf left).length ∧
      Stands r.ies 0 (done ++ bytesOf left) := by
  induction es generalizing s cnt done stale with
  | nil =>
      have searched := at_.searched
      have place := at_.place
      have length := at_.length
      simp only [bytesOf_nil, List.append_nil, List.length_nil] at searched
      obtain rfl := (remove_end (by omega)).mp ends
      refine ⟨[], List.nil_sublist _, ?_, ?_⟩
      · rw [bytesOf_nil, List.append_nil]
        omega
      · rw [bytesOf_nil, List.append_nil]
        exact at_.stands.left
  | cons e es ih =>
      obtain ⟨-, rest⟩ := (remove_element at_).mp ends
      split at rest
      · obtain ⟨left, sub, holds⟩ := ih at_.remove.1 rest
        exact ⟨left, sub.cons e, holds⟩
      · obtain ⟨left, sub, holds⟩ := ih at_.skip rest
        refine ⟨e :: left, sub.cons_cons e, ?_⟩
        rwa [bytesOf_cons, ← List.append_assoc]

theorem Filtered.nil {key : List UInt8} (at_ : s.At n cnt done [] [] stale) : Filtered eid key done [] s := by
  have searched := at_.searched
  have place := at_.place
  have length := at_.length
  simp only [bytesOf_nil, List.append_nil, List.length_nil] at searched
  constructor
  · rw [List.filter_nil, bytesOf_nil, List.append_nil]
    omega
  · rw [List.filter_nil, bytesOf_nil, List.append_nil]
    exact at_.stands.left

theorem filtered_target {key : List UInt8} (target : isTarget eid key e = true) :
    Filtered eid key done (e :: es) r ↔ Filtered eid key done es r := by
  rw [Filtered, Filtered, List.filter_cons_of_neg (by simp [target])]

theorem filtered_other {key : List UInt8} (other : ¬isTarget eid key e = true) :
    Filtered eid key done (e :: es) r ↔ Filtered eid key (done ++ e.bytes) es r := by
  rw [Filtered, Filtered, List.filter_cons_of_pos (by simpa using other), bytesOf_cons, List.append_assoc]

/-- Along a list that fits: the run, and of a list of elements what it leaves. -/
theorem remove_along (at_ : s.At n cnt done es rest stale) (cut : Cut rest) (whole : list → rest = [])
    (along : removeAlong list eid (oui.getD []) rest cnt stale es) :
    ∃ r, (removeLoop eid oui).Ends (· < n) (s, cnt) r ∧ (list → Filtered eid (oui.getD []) done es r) := by
  induction es generalizing s cnt done stale with
  | nil =>
      refine ⟨s, remove_cut at_ cut along, fun yes => ?_⟩
      obtain rfl := whole yes
      exact Filtered.nil at_
  | cons e es ih =>
      obtain ⟨compared, later⟩ := along
      by_cases taken : e.id = eid ∧ oui.getD [] <+: e.data ++ (bytesOf es ++ (rest ++ stale))
      · rw [if_pos taken] at later
        obtain ⟨target, later⟩ := later
        obtain ⟨r, ends, filtered⟩ := ih at_.remove.1 later
        refine ⟨r, (remove_element at_).mpr ⟨compared, ?_⟩, fun yes => ?_⟩
        · rwa [if_pos taken]
        · exact (filtered_target (isTarget_iff.mpr ⟨taken.1, target yes⟩)).mpr (filtered yes)
      · rw [if_neg taken] at later
        obtain ⟨r, ends, filtered⟩ := ih at_.skip later
        refine ⟨r, (remove_element at_).mpr ⟨compared, ?_⟩, fun yes => ?_⟩
        · rwa [if_neg taken]
        · refine (filtered_other fun target => ?_).mpr (filtered yes)
          obtain ⟨same, front⟩ := isTarget_iff.mp target
          exact taken ⟨same, front.trans (List.prefix_append _ _)⟩

/-- A run that stays inside, and filters a list, is along one that fits. -/
theorem removeAlong_of_run (at_ : s.At n cnt done es rest stale) (cut : Cut rest) (whole : list → rest = [])
    (room : n + 257 ≤ 2 ^ 32) (ends : (removeLoop eid oui).Ends (· < n) (s, cnt) r)
    (filtered : list → Filtered eid (oui.getD []) done es r) :
    removeAlong list eid (oui.getD []) rest cnt stale es := by
  induction es generalizing s cnt done stale with
  | nil => exact removeAlong_of_cut at_ cut room ends
  | cons e es ih =>
      obtain ⟨compared, later⟩ := (remove_element at_).mp ends
      refine ⟨compared, ?_⟩
      by_cases taken : e.id = eid ∧ oui.getD [] <+: e.data ++ (bytesOf es ++ (rest ++ stale))
      · rw [if_pos taken] at later ⊢
        have target : list → oui.getD [] <+: e.data := by
          intro yes
          by_contra other
          -- an element that is to stay is gone, and the others are fewer than all that are to stay
          obtain rfl := whole yes
          obtain ⟨length, bytes⟩ := filtered yes
          obtain ⟨left, sub, length', bytes'⟩ := remove_sublist at_.remove.1 later
          have same : done ++ bytesOf left =
              done ++ bytesOf ((e :: es).filter fun e => !isTarget eid (oui.getD []) e) := by
            rw [← bytes', ← bytes, ← length', ← length]
          have lists := bytesOf_injective (List.append_cancel_left same)
          have stays : ¬isTarget eid (oui.getD []) e = true := fun target => other (isTarget_iff.mp target).2
          rw [List.filter_cons_of_pos (by simpa using stays)] at lists
          have fewer := (sub.filter fun e => !isTarget eid (oui.getD []) e).length_le
          rw [lists, List.filter_cons_of_pos (by simpa using stays), List.filter_filter] at fewer
          simp at fewer
        refine ⟨target, ih at_.remove.1 later fun yes => ?_⟩
        exact (filtered_target (isTarget_iff.mpr ⟨taken.1, target yes⟩)).mp (filtered yes)
      · rw [if_neg taken] at later ⊢
        refine ih at_.skip later fun yes => (filtered_other fun target => ?_).mp (filtered yes)
        obtain ⟨same, front⟩ := isTarget_iff.mp target
        exact taken ⟨same, front.trans (List.prefix_append _ _)⟩

end Remove

/-- The function, if it returns within some rounds of its loops. -/
def removeRun (m : Mem) (iesLen offset : Nat) (eid : UInt8) (oui : Option (List UInt8)) (turns : Nat) : Option Removing :=
  if iesLen ≤ offset then some (removeStart m iesLen offset)
  else (removeLoop eid oui).run turns (removeStart m iesLen offset, 0)

def removeTrace (m : Mem) (iesLen offset : Nat) (eid : UInt8) (oui : Option (List UInt8)) (turns : Nat) : List Nat :=
  if iesLen ≤ offset then [] else (removeLoop eid oui).trace turns (removeStart m iesLen offset, 0)

/-- It returns, has stayed inside the list, and of elements has left those before the offset and the others behind. -/
def RemoveSound (m : Mem) (iesLen offset : Nat) (eid : UInt8) (oui : Option (List UInt8)) : Prop :=
  ∃ turns r, removeRun m iesLen offset eid oui turns = some r ∧
    (∀ a ∈ removeTrace m iesLen offset eid oui turns, a < iesLen) ∧
    ∀ pre post, bytesAt m 0 iesLen = bytesOf (pre ++ post) → offset = (bytesOf pre).length →
      bytesAt r.ies 0 r.iesLen = bytesOf (pre ++ post.filter fun e => !isTarget eid (oui.getD []) e)

/-- The offset is on a boundary of a list of elements. -/
def OnBoundary (m : Mem) (iesLen offset : Nat) : Prop :=
  (framed m 0 offset).2 = [] ∧ (framed m offset (iesLen - offset)).2 = []

def RemoveFits (m : Mem) (iesLen offset : Nat) (eid : UInt8) (oui : Option (List UInt8)) : Prop :=
  offset < iesLen → removeAlong (OnBoundary m iesLen offset) eid (oui.getD [])
    (framed m offset (iesLen - offset)).2 0 [] (framed m offset (iesLen - offset)).1

section RemoveSound

variable {m : Mem} {iesLen offset : Nat} {eid : UInt8} {oui : Option (List UInt8)} {r : Removing}

theorem removeStart_at (below : offset < iesLen) (small : iesLen < 2 ^ 32) :
    (removeStart m iesLen offset).At iesLen 0 (bytesAt m 0 offset) (framed m offset (iesLen - offset)).1
      (framed m offset (iesLen - offset)).2 [] := by
  have length := framed_length m offset (iesLen - offset)
  have stands := framed_stands m offset (iesLen - offset)
  refine ⟨?_, ?_, ?_, ?_, ?_, small⟩
  · rw [List.append_nil, Stands.append_iff, length_bytesAt, Nat.zero_add]
    exact ⟨stands_bytesAt m 0 offset, stands⟩
  · rw [List.append_nil, List.length_append, List.length_append, length_bytesAt]
    omega
  · exact length_bytesAt ..
  · show 0 + _ = iesLen - offset
    rw [List.length_append]
    omega
  · show iesLen = offset + (iesLen - offset)
    omega

theorem filtered_iff {key done : List UInt8} {es : List Element} : Filtered eid key done es r ↔
    bytesAt r.ies 0 r.iesLen = done ++ bytesOf (es.filter fun e => !isTarget eid key e) := by
  constructor
  · rintro ⟨length, stands⟩
    rw [length]
    exact stands
  · intro same
    have length := congrArg List.length same
    rw [length_bytesAt] at length
    exact ⟨length, by rw [Stands, ← length]; exact same⟩

/-- Elements before the offset and behind it are the whole ones there. -/
theorem onBoundary_iff (inside : offset ≤ iesLen) {pre post : List Element} :
    bytesAt m 0 iesLen = bytesOf (pre ++ post) ∧ offset = (bytesOf pre).length ↔
      framed m 0 offset = (pre, []) ∧ framed m offset (iesLen - offset) = (post, []) := by
  have split : bytesAt m 0 iesLen = bytesAt m 0 offset ++ bytesAt m offset (iesLen - offset) := by
    rw [← bytesAt_front, Nat.add_sub_cancel' inside]
  constructor
  · rintro ⟨same, place⟩
    rw [split, bytesOf_append] at same
    obtain ⟨front, back⟩ := List.append_inj same (by rw [length_bytesAt, place])
    exact ⟨framed_of_bytesOf front, framed_of_bytesOf back⟩
  · rintro ⟨front, back⟩
    have frontBytes : bytesAt m 0 offset = bytesOf pre := by
      rw [bytesOf_framed (by rw [front]), front]
    have backBytes : bytesAt m offset (iesLen - offset) = bytesOf post := by
      rw [bytesOf_framed (by rw [back]), back]
    refine ⟨by rw [split, frontBytes, backBytes, bytesOf_append], ?_⟩
    rw [← frontBytes, length_bytesAt]

/-- A removal from an offset in the list that fits is sound. -/
theorem remove_sound (small : iesLen < 2 ^ 32) (fits : RemoveFits m iesLen offset eid oui) :
    RemoveSound m iesLen offset eid oui := by
  by_cases beyond : iesLen ≤ offset
  · refine ⟨0, removeStart m iesLen offset, if_pos beyond, ?_, fun pre post same place => ?_⟩
    · rw [removeTrace, if_pos beyond]
      exact nofun
    · have lengths := congrArg List.length same
      rw [length_bytesAt, bytesOf_append, List.length_append] at lengths
      obtain rfl : post = [] := bytesOf_eq_nil.mp (List.eq_nil_of_length_eq_zero (by omega))
      exact same
  · have below : offset < iesLen := Nat.lt_of_not_le beyond
    obtain ⟨r, ends, filtered⟩ := remove_along (removeStart_at below small) (framed_cut _ _ _) (fun yes => yes.2) (fits below)
    obtain ⟨turns, result, inside⟩ := Loop.ends_iff_run.mp ends
    refine ⟨turns, r, by rwa [removeRun, if_neg beyond], by rwa [removeTrace, if_neg beyond], fun pre post same place => ?_⟩
    obtain ⟨front, back⟩ := (onBoundary_iff (Nat.le_of_lt below)).mp ⟨same, place⟩
    have left := filtered_iff.mp (filtered ⟨by rw [front], by rw [back]⟩)
    rw [bytesOf_framed (m := m) (p := 0) (n := offset) (by rw [front]), front, back] at left
    rwa [bytesOf_append]

/-- A removal that is sound is from a list that fits. -/
theorem removeFits_of_sound (room : iesLen + 257 ≤ 2 ^ 32) (sound : RemoveSound m iesLen offset eid oui) :
    RemoveFits m iesLen offset eid oui := by
  intro below
  obtain ⟨turns, r, result, inside, left⟩ := sound
  rw [removeRun, if_neg (Nat.not_le.mpr below)] at result
  rw [removeTrace, if_neg (Nat.not_le.mpr below)] at inside
  refine removeAlong_of_run (removeStart_at below (by omega)) (framed_cut _ _ _) (fun yes => yes.2) room
    (Loop.ends_iff_run.mpr ⟨turns, result, inside⟩) fun yes => filtered_iff.mpr ?_
  obtain ⟨same, place⟩ := (onBoundary_iff (Nat.le_of_lt below)).mpr ⟨Prod.ext rfl yes.1, Prod.ext rfl yes.2⟩
  rw [left _ _ same place, bytesOf_append, bytesOf_framed yes.1]

end RemoveSound

/-! ## `rtw_del_p2p_ie` -/

/-- The variables of `rtw_del_p2p_ie`. -/
structure Deleting where
  ies : Mem
  iesLen : Nat

namespace Deleting

variable (s : Deleting)

/-- `target_ie_len` of the element found at `q`. -/
def targetIeLen (q : Nat) : Nat := (s.ies (uint (q + 1))).toNat + 2

def remainLen (q : Nat) : Nat := Ap.uintSub s.iesLen (q + s.targetIeLen q)

def delete (q : Nat) : Deleting where
  ies := splice (memmove s.ies q (q + s.targetIeLen q) (s.remainLen q)) (q + s.remainLen q)
    (List.replicate (s.targetIeLen q) 0)
  iesLen := Ap.uintSub s.iesLen (s.targetIeLen q)

def deleteLooks (q : Nat) : List Nat :=
  memmoveLooks q (q + s.targetIeLen q) (s.remainLen q) ++
    (List.range (s.targetIeLen q)).map (q + s.remainLen q + ·)

/-- The search, whose limit is an `int`. -/
def search : Loop Nat Nat (Option Nat) := getVendorIeLoop s.ies (sint s.iesLen).toNat p2pOui ⟨false, true⟩

end Deleting

/-- The loop of `rtw_del_p2p_ie`, with that of each search. -/
def deleteLoop : Loop (Deleting × Nat) Nat Deleting :=
  Loop.nest Deleting.search (fun _ => 0) (fun s found => found.elim [] s.deleteLooks)
    fun s found => found.elim (.inl s) fun q => .inr (s.delete q)

/-- What is found from the start on is whole, each time, and of a list a P2P element. -/
inductive DelFits (list : Prop) (rest : List UInt8) : List Element → Prop where
  | stop {es : List Element} (first : vendorFirst p2pOui rest 0 es = none)
      (clean : list → ∀ e ∈ es, ¬isP2p e = true) : DelFits list rest es
  | drop {pre post : List Element} {e : Element}
      (first : vendorFirst p2pOui rest 0 (pre ++ e :: post) = some (bytesOf pre).length)
      (target : list → isP2p e = true) (later : DelFits list rest (pre ++ post)) : DelFits list rest (pre ++ e :: post)

/-- The elements in the `n` bytes of the list as it was, and zeros behind them. -/
structure Deleting.At (s : Deleting) (n : Nat) (es : List Element) (rest : List UInt8) : Prop where
  stands : Stands s.ies 0 (bytesOf es ++ (rest ++ List.replicate (n - s.iesLen) 0))
  length : (bytesOf es ++ rest).length = s.iesLen
  inside : s.iesLen ≤ n
  small : n < 2 ^ 31

/-- Elements that are not P2P elements are left, with zeros behind them. -/
def Deleted (n : Nat) (es : List Element) (r : Deleting) : Prop :=
  (bytesOf (es.filter fun e => !isP2p e)).length = r.iesLen ∧ r.iesLen ≤ n ∧
    Stands r.ies 0 (bytesOf (es.filter fun e => !isP2p e) ++ List.replicate (n - r.iesLen) 0)

theorem filter_eq_self_iff {es : List Element} :
    es.filter (fun e => !isP2p e) = es ↔ ∀ e ∈ es, ¬isP2p e = true := by
  simp [List.filter_eq_self]

section Delete

variable {s r : Deleting} {n : Nat} {pre post es : List Element} {e : Element} {rest : List UInt8} {list : Prop}

/-- What the search finds. -/
theorem Deleting.At.search_ends (at_ : s.At n es rest) (cut : Cut rest) (found : Option Nat) :
    s.search.Ends (· < n) 0 found ↔ found = vendorFirst p2pOui rest 0 es := by
  have small := at_.small
  have inside := at_.inside
  have stands := at_.stands
  rw [← List.append_assoc] at stands
  have limit : (sint s.iesLen).toNat = s.iesLen := by rw [sint_of_lt (by omega), Int.toNat_natCast]
  have finds (r : Option Nat) : s.search.Ends (· < s.iesLen) 0 r ↔ r = vendorFirst p2pOui rest 0 es := by
    rw [Deleting.search, limit]
    exact vendor_finds rfl rfl (by omega) stands.left cut (by rw [at_.length, Nat.zero_add])
  have first := (finds _).mpr rfl
  constructor
  · intro ends
    exact first.unique ends
  · rintro rfl
    exact first.mono fun a below => by omega

/-- The state behind a whole element that is deleted. -/
theorem Deleting.At.delete (at_ : s.At n (pre ++ e :: post) rest) :
    (s.delete (bytesOf pre).length).At n (pre ++ post) rest ∧
      (s.delete (bytesOf pre).length).iesLen + e.bytes.length = s.iesLen ∧
      ∀ a ∈ s.deleteLooks (bytesOf pre).length, a < n := by
  obtain ⟨stands, length, inside, small⟩ := at_
  have short := e.short
  rw [bytesOf_append, bytesOf_cons, List.append_assoc, List.append_assoc] at stands
  simp only [bytesOf_append, bytesOf_cons, List.length_append, Element.length_bytes] at length
  have header := stands.right.header
  rw [Nat.zero_add] at header
  have ielen : s.targetIeLen (bytesOf pre).length = e.bytes.length := by
    rw [Deleting.targetIeLen, uint_of_lt (by omega), header.2, Element.length_bytes]
  have remain : s.remainLen (bytesOf pre).length = (bytesOf post ++ rest).length := by
    rw [Deleting.remainLen, ielen, Element.length_bytes, Ap.uintSub_of_le (by omega) (by omega), List.length_append]
    omega
  have left : (s.delete (bytesOf pre).length).iesLen = s.iesLen - e.bytes.length := by
    rw [Deleting.delete, ielen, Element.length_bytes, Ap.uintSub_of_le (by omega) (by omega)]
  have size := e.length_bytes
  refine ⟨⟨?_, ?_, ?_, small⟩, ?_, ?_⟩
  · -- the elements behind stand where it stood, and zeros over as many bytes as it had
    rw [← List.append_assoc (bytesOf post) rest] at stands
    have closed := closed_stands stands
    have zeros : List.replicate e.bytes.length (0 : UInt8) ++ List.replicate (n - s.iesLen) 0 =
        List.replicate (n - (s.iesLen - e.bytes.length)) 0 := by
      rw [List.replicate_append_replicate]
      congr 1
      omega
    rw [zeros] at closed
    rw [left, Deleting.delete, ielen, remain, bytesOf_append]
    simpa only [List.append_assoc] using closed
  · rw [left]
    simp only [bytesOf_append, List.length_append]
    omega
  · rw [left]
    omega
  · rw [left]
    omega
  · rw [Deleting.deleteLooks, ielen, remain, List.length_append]
    intro a member
    rcases List.mem_append.mp member with moved | zeroed
    · exact moved_inside (by omega) (by omega) a moved
    · obtain ⟨k, below, rfl⟩ := List.mem_map.mp zeroed
      have := List.mem_range.mp below
      omega

theorem deleteThen_some (q : Nat) : Loop.NestThen Deleting.search (fun _ => 0)
    (fun s found => found.elim [] s.deleteLooks) (fun s found => found.elim (.inl s) fun q => .inr (s.delete q))
    (· < n) s (some q) r ↔ (∀ a ∈ s.deleteLooks q, a < n) ∧ deleteLoop.Ends (· < n) (s.delete q, 0) r := by
  rw [Loop.NestThen, Option.elim_some, Option.elim_some]
  exact Iff.rfl

/-- One search, and what is done with what it finds. -/
theorem delete_ends (at_ : s.At n es rest) (cut : Cut rest) : deleteLoop.Ends (· < n) (s, 0) r ↔
    (vendorFirst p2pOui rest 0 es = none → r = s) ∧
      ∀ q, vendorFirst p2pOui rest 0 es = some q →
        (∀ a ∈ s.deleteLooks q, a < n) ∧ deleteLoop.Ends (· < n) (s.delete q, 0) r := by
  rw [deleteLoop, Loop.nest_ends_iff]
  simp only [at_.search_ends cut, exists_eq_left]
  cases vendorFirst p2pOui rest 0 es with
  | none => simp [Loop.NestThen]
  | some q =>
      rw [deleteThen_some]
      simp [deleteLoop]

/-- A remainder that is found is moved beyond the end. -/
theorem not_delete_cut {id len : UInt8} {t : List UInt8} (at_ : s.At n es (id :: len :: t)) (cut : Cut (id :: len :: t)) :
    ¬∀ a ∈ s.deleteLooks (bytesOf es).length, a < n := by
  obtain ⟨stands, length, inside, small⟩ := at_
  have bound := len.toNat_lt
  have short := cut_cons_iff.mp cut
  simp only [List.length_append, List.length_cons] at length
  have there := stands.right.byte (k := 1) (by simp)
  rw [Nat.zero_add] at there
  have ielen : s.targetIeLen (bytesOf es).length = len.toNat + 2 := by
    rw [Deleting.targetIeLen, uint_of_lt (by omega), there]
    rfl
  have remain : s.remainLen (bytesOf es).length = s.iesLen + 2 ^ 32 - ((bytesOf es).length + (len.toNat + 2)) := by
    rw [Deleting.remainLen, ielen, uintSub_underflow (by omega)]
  intro within
  refine not_moved_outside (n := n) ?_ ?_ fun a member => within a (List.mem_append_left _ member)
  · omega
  · omega

/-- Of a list some elements are left. -/
theorem delete_sublist (at_ : s.At n es []) (ends : deleteLoop.Ends (· < n) (s, 0) r) :
    ∃ left : List Element, left.Sublist es ∧ (bytesOf left).length = r.iesLen ∧ Stands r.ies 0 (bytesOf left) := by
  induction size : es.length using Nat.strongRecOn generalizing s es with
  | ind k ih =>
    obtain ⟨stops, goes⟩ := (delete_ends at_ cut_nil).mp ends
    cases first : vendorFirst p2pOui [] 0 es with
    | none =>
        obtain rfl := stops first
        have length := at_.length
        rw [List.append_nil] at length
        exact ⟨es, List.Sublist.refl _, length, at_.stands.left⟩
    | some q =>
        rcases vendorFirst_cases first with ⟨pre, e, post, rfl, rfl⟩ | ⟨-, id, len, t, same⟩
        · rw [Nat.zero_add] at first
          obtain ⟨left, sub, holds⟩ := ih (pre ++ post).length (by rw [← size]; simp) at_.delete.1 (goes _ first).2 rfl
          exact ⟨left, sub.trans ((List.Sublist.refl pre).append (List.sublist_cons_self e post)), holds⟩
        · exact absurd same (by simp)

theorem deleted_drop (target : isP2p e = true) : Deleted n (pre ++ e :: post) r ↔ Deleted n (pre ++ post) r := by
  rw [Deleted, Deleted, List.filter_append, List.filter_cons_of_neg (by simp [target]), ← List.filter_append]

/-- Where what is found fits, a run, and of a list of elements what it leaves. -/
theorem delete_along (fits : DelFits list rest es) (at_ : s.At n es rest) (cut : Cut rest) (whole : list → rest = []) :
    ∃ r, deleteLoop.Ends (· < n) (s, 0) r ∧ (list → Deleted n es r) := by
  induction fits generalizing s with
  | @stop es first clean =>
      refine ⟨s, (delete_ends at_ cut).mpr ⟨fun _ => rfl, fun q found => absurd (first.symm.trans found) (by simp)⟩, ?_⟩
      intro yes
      have stands := at_.stands
      have length := at_.length
      rw [whole yes, List.append_nil] at length
      rw [whole yes, List.nil_append] at stands
      rw [Deleted, filter_eq_self_iff.mpr (clean yes)]
      exact ⟨length, at_.inside, stands⟩
  | @drop pre post e first target later ih =>
      obtain ⟨next, -, inside⟩ := at_.delete
      obtain ⟨r, ends, deleted⟩ := ih next
      refine ⟨r, (delete_ends at_ cut).mpr ⟨fun none_ => absurd (first.symm.trans none_) (by simp), ?_⟩, ?_⟩
      · intro q found
        cases first.symm.trans found
        exact ⟨inside, ends⟩
      · exact fun yes => (deleted_drop (target yes)).mpr (deleted yes)

/-- A run that stays inside, and filters a list, finds what fits. -/
theorem delFits_of_run (at_ : s.At n es rest) (cut : Cut rest) (whole : list → rest = [])
    (ends : deleteLoop.Ends (· < n) (s, 0) r) (deleted : list → Deleted n es r) : DelFits list rest es := by
  induction size : es.length using Nat.strongRecOn generalizing s es with
  | ind k ih =>
    obtain ⟨stops, goes⟩ := (delete_ends at_ cut).mp ends
    cases first : vendorFirst p2pOui rest 0 es with
    | none =>
        obtain rfl := stops first
        refine .stop first fun yes => ?_
        obtain ⟨length, -, bytes⟩ := deleted yes
        have stands := at_.stands
        have length' := at_.length
        rw [whole yes, List.append_nil] at length'
        have same : bytesOf es = bytesOf (es.filter fun e => !isP2p e) := by
          rw [← bytes.left, ← stands.left, length, length']
        exact filter_eq_self_iff.mp (bytesOf_injective same).symm
    | some q =>
        rcases vendorFirst_cases first with ⟨pre, e, post, rfl, rfl⟩ | ⟨rfl, id, len, t, rfl⟩
        · rw [Nat.zero_add] at first
          obtain ⟨-, ends⟩ := goes _ first
          have target : list → isP2p e = true := by
            intro yes
            by_contra other
            -- an element that is to stay is gone, and the others are fewer than all that are to stay
            obtain rfl := whole yes
            obtain ⟨length, -, bytes⟩ := deleted yes
            obtain ⟨left, sub, length', bytes'⟩ := delete_sublist at_.delete.1 ends
            have same : bytesOf left = bytesOf ((pre ++ e :: post).filter fun e => !isP2p e) := by
              rw [← bytes', ← bytes.left, length, length']
            have fewer := (sub.filter fun e => !isP2p e).length_le
            rw [bytesOf_injective same, List.filter_filter] at fewer
            simp only [Bool.and_self, List.filter_append, List.length_append] at fewer
            rw [List.filter_cons_of_pos (by simpa using other), List.length_cons] at fewer
            omega
          refine .drop first target (ih (pre ++ post).length (by rw [← size]; simp) at_.delete.1 ends ?_ rfl)
          exact fun yes => (deleted_drop (target yes)).mp (deleted yes)
        · rw [Nat.zero_add] at first
          exact absurd (goes _ first).1 (not_delete_cut at_ cut)

end Delete

/-- The function, if it returns within some rounds of its loops. -/
def delRun (m : Mem) (iesLen turns : Nat) : Option Deleting := deleteLoop.run turns (⟨m, iesLen⟩, 0)

def delTrace (m : Mem) (iesLen turns : Nat) : List Nat := deleteLoop.trace turns (⟨m, iesLen⟩, 0)

/-- It returns, has stayed inside the list, and of elements has left those that are not P2P elements, and zeros. -/
def DelSound (m : Mem) (iesLen : Nat) : Prop :=
  ∃ turns r, delRun m iesLen turns = some r ∧ (∀ a ∈ delTrace m iesLen turns, a < iesLen) ∧
    ∀ es, bytesAt m 0 iesLen = bytesOf es → Deleted iesLen es r

/-- A list from 2^31 bytes on is left as it is. -/
def DelP2pFits (m : Mem) (iesLen : Nat) : Prop :=
  let list := (framed m 0 iesLen).2 = []
  if iesLen < 2 ^ 31 then DelFits list (framed m 0 iesLen).2 (framed m 0 iesLen).1
  else list → ∀ e ∈ (framed m 0 iesLen).1, ¬isP2p e = true

section DelSound

variable {m : Mem} {n : Nat} {r : Deleting}

/-- A length that is negative as an `int`. -/
theorem delete_large (large : 2 ^ 31 ≤ n) (small : n < 2 ^ 32) :
    deleteLoop.Ends (· < n) (⟨m, n⟩, 0) r ↔ r = ⟨m, n⟩ := by
  have negative := sint_wraps large small
  have none_ : (sint n).toNat = 0 := Int.toNat_of_nonpos (Int.le_of_lt negative)
  have search (found : Option Nat) : (Deleting.search ⟨m, n⟩).Ends (· < n) 0 found ↔ found = none := by
    have round : (Deleting.search ⟨m, n⟩).round 0 = .inl none := by simp [Deleting.search, none_, getVendorIeLoop]
    have looks : (Deleting.search ⟨m, n⟩).looks 0 = [] := by simp [Deleting.search, none_, getVendorIeLoop]
    rw [Loop.ends_of_done round, looks]
    simp
  rw [deleteLoop, Loop.nest_ends_iff]
  simp [search, Loop.NestThen]

theorem deleting_at (small : n < 2 ^ 31) : Deleting.At ⟨m, n⟩ n (framed m 0 n).1 (framed m 0 n).2 := by
  have length := framed_all m n
  rw [Nat.zero_add] at length
  refine ⟨?_, length, Nat.le_refl n, small⟩
  rw [Nat.sub_self, List.replicate_zero, List.append_nil]
  exact framed_stands m 0 n

theorem deleted_all {es : List Element} (same : bytesAt m 0 n = bytesOf es) :
    Deleted n es ⟨m, n⟩ ↔ ∀ e ∈ es, ¬isP2p e = true := by
  rw [← filter_eq_self_iff]
  constructor
  · rintro ⟨length, -, stands⟩
    have bytes := stands.left
    rw [Stands, length, same] at bytes
    exact (bytesOf_injective bytes).symm
  · intro all
    rw [Deleted, all, ← same, length_bytesAt, Nat.sub_self, List.replicate_zero, List.append_nil]
    exact ⟨rfl, Nat.le_refl n, stands_bytesAt m 0 n⟩

/-- A deletion is sound exactly from a list that fits. -/
theorem delSound_iff (small : n < 2 ^ 32) : DelSound m n ↔ DelP2pFits m n := by
  by_cases low : n < 2 ^ 31
  · rw [DelP2pFits, if_pos low]
    constructor
    · rintro ⟨turns, r, result, inside, deleted⟩
      exact delFits_of_run (deleting_at low) (framed_cut m 0 n) id (Loop.ends_iff_run.mpr ⟨turns, result, inside⟩)
        fun none_ => deleted _ (bytesOf_framed none_)
    · intro fits
      obtain ⟨r, ends, deleted⟩ := delete_along fits (deleting_at low) (framed_cut m 0 n) id
      obtain ⟨turns, result, inside⟩ := Loop.ends_iff_run.mp ends
      refine ⟨turns, r, result, inside, fun es same => ?_⟩
      have elements := framed_of_bytesOf same
      have left := deleted (by rw [elements])
      rwa [elements] at left
  · have large (r : Deleting) := delete_large (m := m) (r := r) (Nat.le_of_not_lt low) small
    rw [DelP2pFits, if_neg low]
    constructor
    · rintro ⟨turns, r, result, inside, deleted⟩ none_
      obtain rfl := (large _).mp (Loop.ends_iff_run.mpr ⟨turns, result, inside⟩)
      exact (deleted_all (bytesOf_framed none_)).mp (deleted _ (bytesOf_framed none_))
    · intro clean
      obtain ⟨turns, result, inside⟩ := Loop.ends_iff_run.mp ((large _).mpr rfl)
      refine ⟨turns, _, result, inside, fun es same => (deleted_all same).mpr ?_⟩
      have elements := framed_of_bytesOf same
      have left := clean (by rw [elements])
      rwa [elements] at left

end DelSound

/-! ## The theorem -/

/-- A removal and its arguments but the elements. -/
inductive Removal where
  | removeIe (iesLen offset : UInt32) (eid : UInt8) (oui : Option (List UInt8))
  | delP2pIe (iesLen : UInt32)

namespace Removal

variable (m : Mem)

def Sound : Removal → Prop
  | removeIe iesLen offset eid oui => RemoveSound m iesLen.toNat offset.toNat eid oui
  | delP2pIe iesLen => DelSound m iesLen.toNat

def Fits : Removal → Prop
  | removeIe iesLen offset eid oui => RemoveFits m iesLen.toNat offset.toNat eid oui
  | delP2pIe iesLen => DelP2pFits m iesLen.toNat

/-- `cnt` does not pass 2^32 behind the end. -/
def Near : Removal → Prop
  | removeIe iesLen _ _ _ => iesLen.toNat + 257 ≤ 2 ^ 32
  | delP2pIe _ => True

end Removal

/-- From a string that fits, a removal returns, stays inside the list and is a filter of its elements; and so it does, up
to 4 GiB, from no other. -/
theorem removal_sound (m : Mem) (x : Removal) : (x.Fits m → x.Sound m) ∧ (x.Near → x.Sound m → x.Fits m) := by
  cases x with
  | removeIe iesLen offset eid oui =>
      exact ⟨fun fits => remove_sound iesLen.toNat_lt fits, fun room sound => removeFits_of_sound room sound⟩
  | delP2pIe iesLen =>
      exact ⟨(delSound_iff iesLen.toNat_lt).mpr, fun _ => (delSound_iff iesLen.toNat_lt).mp⟩

/-- An element of 32 bytes in a list of three. -/
def cutElement : Mem := fun k => [0x05, 0x20, 0x61].getD k 0

/-- It is removed: what is moved over it lies 34 bytes from the start, and is 2^32 - 31 bytes long. -/
theorem truncated_removed : ¬(Removal.removeIe 3 0 5 none).Sound cutElement := by
  intro sound
  have along := removeFits_of_sound (by decide) (show RemoveSound cutElement 3 0 5 none from sound) (by decide)
  rw [show framed cutElement 0 (3 - 0) = ([], [0x05, 0x20, 0x61]) from rfl] at along
  rcases along with none_ | ⟨id, len, s, same, other, -⟩
  · exact absurd none_ (by simp)
  · cases same
    exact (other rfl).2 (List.nil_prefix)

end Vmac.Ie
