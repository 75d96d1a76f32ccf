/-
# Vmac.Ie.Search -- the four searches for an element

`rtw_get_ie`, `rtw_get_ie_ex`, `rtw_get_wps_ie` and `rtw_get_p2p_ie` go from element to element and look at the limit
at different places, and none of them looks whether the element it returns ends below it.

* `Search.Sound`: reads below the limit, an end, a whole element, and the first match in a list.
* `Search.Fits`: the bytes for which a search is sound, by their whole elements and the remainder.
* `search_sound_iff`: it is sound for no others.
* `truncated_returned`: a truncated SSID is returned.
-/
import Vmac.Ie.Memory
import Vmac.Security.Extent
import Vmac.Theory.Walk

namespace Vmac.Ie

open Theory.Elements Theory.Walk Security

set_option autoImplicit false

/-! ## The searches -/

/-- A sum of `sint`s. -/
def sint (i : Int) : Int := i.bmod (2 ^ 32)

/-- The loop of `rtw_get_ie`, over `p` and `i`. -/
def getIeLoop (m : Mem) (index limit : Int) : Loop (Nat × Int) Nat (Option Nat) where
  looks s := [s.1, s.1 + 1]
  round s :=
    if ((m s.1).toNat : Int) = index then .inl (some s.1)
    else
      let tmp := (m (s.1 + 1)).toNat
      let i := sint (s.2 + (tmp + 2 : Nat))
      if limit ≤ i then .inl none else .inr (s.1 + (tmp + 2), i)

/-- `&in_ie[cnt]` to the end of the element. -/
def copied (m : Mem) (cnt : Nat) : List Nat := (List.range ((m (uint (cnt + 1))).toNat + 2)).map (cnt + ·)

/-- What the search does with an element that it finds: `ie` and `ielen` are not NULL. -/
structure Wanted where
  ie : Bool
  ielen : Bool

def Wanted.looks (w : Wanted) (m : Mem) (cnt : Nat) : List Nat :=
  (if w.ie ∨ w.ielen then [uint (cnt + 1)] else []) ++ if w.ie then copied m cnt else []

/-- `&in_ie[cnt + 2]`, as far as `_rtw_memcmp` compares. -/
def compared (cnt len : Nat) : List Nat := (List.range len).map (uint (cnt + 2) + ·)

/-- The loop of `rtw_get_ie_ex`, over `cnt`. -/
def getIeExLoop (m : Mem) (inLen : Nat) (eid : UInt8) (oui : Option (List UInt8)) (w : Wanted) :
    Loop Nat Nat (Option Nat) where
  looks cnt :=
    if cnt < inLen then
      cnt :: (if m cnt = eid then compared cnt (oui.getD []).length else []) ++
        if m cnt = eid ∧ ∀ o ∈ oui, bytesAt m (uint (cnt + 2)) o.length = o then w.looks m cnt else [uint (cnt + 1)]
    else []
  round cnt :=
    if cnt < inLen then
      if m cnt = eid ∧ ∀ o ∈ oui, bytesAt m (uint (cnt + 2)) o.length = o then .inl (some cnt)
      else .inr (uint (cnt + ((m (uint (cnt + 1))).toNat + 2)))
    else .inl none

/-- The loop of `rtw_get_wps_ie` and of `rtw_get_p2p_ie`. -/
def getVendorIeLoop (m : Mem) (inLen : Nat) (oui : List UInt8) (w : Wanted) : Loop Nat Nat (Option Nat) where
  looks cnt :=
    if uint (cnt + 1 + 4) < inLen then
      cnt :: if Ap.maxIeSz ≤ uint (cnt + 1 + 4) then []
        else (if m cnt = 221 then compared cnt 4 else []) ++
          if m cnt = 221 ∧ bytesAt m (uint (cnt + 2)) 4 = oui then w.looks m cnt else [uint (cnt + 1)]
    else []
  round cnt :=
    if uint (cnt + 1 + 4) < inLen then
      if Ap.maxIeSz ≤ uint (cnt + 1 + 4) then .inl none
      else if m cnt = 221 ∧ bytesAt m (uint (cnt + 2)) 4 = oui then .inl (some cnt)
      else .inr (uint (cnt + ((m (uint (cnt + 1))).toNat + 2)))
    else .inl none

def wpsOui : List UInt8 := [0x00, 0x50, 0xf2, 0x04]
def p2pOui : List UInt8 := [0x50, 0x6f, 0x9a, 0x09]

def isP2p (e : Element) : Bool := e.id = 221 && p2pOui.isPrefixOf e.data

theorem isP2p_iff (e : Element) : isP2p e = true ↔ e.id = 221 ∧ p2pOui <+: e.data := by simp [isP2p]

/-- A search and its arguments but the elements. -/
inductive Search where
  | getIe (index limit : Int32)
  | getIeEx (inLen : UInt32) (eid : UInt8) (oui : Option (List UInt8)) (wanted : Wanted)
  | getWpsIe (inLen : UInt32) (wanted : Wanted)
  | getP2pIe (inLen : Int32) (wanted : Wanted)

namespace Search

variable (m : Mem)

/-- How many bytes the search may look at. -/
def limit : Search → Nat
  | getIe _ limit => limit.toInt.toNat
  | getIeEx inLen _ _ _ => inLen.toNat
  | getWpsIe inLen _ => inLen.toNat
  | getP2pIe inLen _ => inLen.toInt.toNat

/-- The elements that are searched for. -/
def is : Search → Element → Bool
  | getIe index _, e => (e.id.toNat : Int) = index.toInt
  | getIeEx _ eid oui _, e => e.id = eid && (oui.getD []).isPrefixOf e.data
  | getWpsIe _ _, e => e.id = 221 && wpsOui.isPrefixOf e.data
  | getP2pIe _ _, e => e.id = 221 && p2pOui.isPrefixOf e.data

/-- The result, if the function returns within some rounds of its loop. -/
def run (turns : Nat) : Search → Option (Option Nat)
  | getIe index limit =>
    if limit.toInt < 1 then some none else (getIeLoop m index.toInt limit.toInt).run turns (0, 0)
  | getIeEx inLen eid oui w => (getIeExLoop m inLen.toNat eid oui w).run turns 0
  | getWpsIe inLen w => (getVendorIeLoop m inLen.toNat wpsOui w).run turns 0
  | getP2pIe inLen w =>
    if inLen.toInt ≤ 0 then some none else (getVendorIeLoop m inLen.toInt.toNat p2pOui w).run turns 0

/-- The places it reads in them. -/
def trace (turns : Nat) : Search → List Nat
  | getIe index limit =>
    if limit.toInt < 1 then [] else (getIeLoop m index.toInt limit.toInt).trace turns (0, 0)
  | getIeEx inLen eid oui w => (getIeExLoop m inLen.toNat eid oui w).trace turns 0
  | getWpsIe inLen w => (getVendorIeLoop m inLen.toNat wpsOui w).trace turns 0
  | getP2pIe inLen w =>
    if inLen.toInt ≤ 0 then [] else (getVendorIeLoop m inLen.toInt.toNat p2pOui w).trace turns 0

/-- Header and body lie below the limit. -/
def Whole (n : Nat) (r : Option Nat) : Prop := ∀ o ∈ r, o + 2 + (m (o + 1)).toNat ≤ n

/-- It returns, has read below the limit only, and what it returns is whole, and the first match in a list. -/
def Sound (s : Search) : Prop :=
  ∃ turns r, s.run m turns = some r ∧ (∀ a ∈ s.trace m turns, a < s.limit) ∧ Whole m s.limit r ∧
    ∀ es, bytesAt m 0 s.limit = bytesOf es → r = placeOf s.is es

end Search

/-! ## `rtw_get_ie` -/

section GetIe

variable {m : Mem} {index : Int} {n p : Nat} {r : Option Nat}

theorem sint_of_lt {i : Nat} (small : i < 2 ^ 31) : sint i = i := by
  rw [sint, Int.bmod_eq_of_le] <;> omega

theorem sint_wraps {i : Nat} (large : 2 ^ 31 ≤ i) (below : i < 2 ^ 32) : sint i < 0 := by
  rw [sint, Int.bmod_def, Int.emod_eq_of_lt (by omega) (by omega), if_neg (by omega)]
  omega

/-- The search has stopped at the limit, or goes on. -/
def GetIeEnds (m : Mem) (index : Int) (n p : Nat) (r : Option Nat) : Prop :=
  if n ≤ p then r = none else (getIeLoop m index n).Ends (· < n) (p, p) r

theorem getIe_element {e : Element} {s : List UInt8} (stands : Stands m p (e.bytes ++ s))
    (length : p + (e.bytes ++ s).length = n) (small : n < 2 ^ 31) : GetIeEnds m index n p r ↔
      if (e.id.toNat : Int) = index then r = some p else GetIeEnds m index n (p + e.bytes.length) r := by
  obtain ⟨id, size⟩ := stands.header
  rw [List.length_append, Element.length_bytes] at length
  have inside : ∀ a ∈ (getIeLoop m index n).looks (p, p), a < n := by
    intro a member
    simp only [getIeLoop, List.mem_cons, List.not_mem_nil, or_false] at member
    omega
  have round : (getIeLoop m index n).round (p, p) = if (e.id.toNat : Int) = index then .inl (some p)
      else if n ≤ p + e.bytes.length then .inl none
      else .inr (p + e.bytes.length, ((p + e.bytes.length : Nat) : Int)) := by
    have next : sint ((p : Int) + ((e.data.length + 2 : Nat) : Int)) = ((p + e.bytes.length : Nat) : Int) :=
      sint_of_lt (i := p + e.bytes.length) (by rw [Element.length_bytes]; omega)
    simp only [getIeLoop, id, size, next, Nat.cast_le, Element.length_bytes]
    congr
  rw [GetIeEnds, if_neg (by omega)]
  by_cases found : (e.id.toNat : Int) = index
  · rw [if_pos found] at round ⊢
    exact (Loop.ends_of_done round).trans (and_iff_right inside)
  · rw [if_neg found] at round ⊢
    rw [GetIeEnds]
    split
    · rename_i last
      rw [if_pos last] at round
      exact (Loop.ends_of_done round).trans (and_iff_right inside)
    · rename_i more
      rw [if_neg more] at round
      exact (Loop.ends_of_again round).trans (and_iff_right inside)

/-- What is behind the whole elements is empty, or a header of something else whose length stays below 2^31. -/
def GetIeRemainder (index : Int) (p : Nat) (rest : List UInt8) : Prop :=
  rest = [] ∨ ∃ id length s, rest = id :: length :: s ∧ (id.toNat : Int) ≠ index ∧ p + length.toNat + 2 < 2 ^ 31

theorem getIe_cut {rest : List UInt8} (stands : Stands m p rest) (cut : Cut rest) (length : p + rest.length = n)
    (small : n < 2 ^ 31) :
    (∃ r, GetIeEnds m index n p r ∧ Search.Whole m n r) ↔ GetIeRemainder index p rest := by
  rcases cut.cases with rfl | ⟨b, rfl⟩ | ⟨id, len, s, rfl, short⟩
  · refine iff_of_true ⟨none, ?_, nofun⟩ (.inl rfl)
    rw [GetIeEnds, if_pos (by simpa using length.ge)]
  · rw [List.length_singleton] at length
    constructor
    · rintro ⟨r, ends, -⟩
      rw [GetIeEnds, if_neg (by omega)] at ends
      have outside := ends.here (p + 1) (by simp [getIeLoop])
      omega
    · rintro (none_ | ⟨id, len, s, same, -⟩)
      · exact absurd none_ (by simp)
      · exact absurd same (by simp)
  · have idThere : m p = id := stands.byte (k := 0) (by simp)
    have lenThere : m (p + 1) = len := stands.byte (k := 1) (by simp)
    rw [List.length_cons, List.length_cons] at length
    have inside : ∀ a ∈ (getIeLoop m index n).looks (p, p), a < n := by
      intro a member
      simp only [getIeLoop, List.mem_cons, List.not_mem_nil, or_false] at member
      omega
    have bound := len.toNat_lt
    have remainder : GetIeRemainder index p (id :: len :: s) ↔
        (id.toNat : Int) ≠ index ∧ p + len.toNat + 2 < 2 ^ 31 := by
      simp [GetIeRemainder]
    rw [remainder]
    simp only [GetIeEnds, if_neg (show ¬n ≤ p by omega)]
    by_cases found : (id.toNat : Int) = index
    · refine iff_of_false ?_ fun other => other.1 found
      rintro ⟨r, ends, whole⟩
      have round : (getIeLoop m index n).round (p, p) = .inl (some p) := by simp only [getIeLoop, idThere, if_pos found]
      obtain ⟨-, rfl⟩ := (Loop.ends_of_done round).mp ends
      have inside := whole p rfl
      rw [lenThere] at inside
      omega
    · rw [and_iff_right found]
      have next : (p : Int) + ((len.toNat + 2 : Nat) : Int) = ((p + len.toNat + 2 : Nat) : Int) := by omega
      by_cases fits : p + len.toNat + 2 < 2 ^ 31
      · refine iff_of_true ⟨none, .done inside ?_, nofun⟩ fits
        simp only [getIeLoop, idThere, lenThere, if_neg found, next, sint_of_lt fits]
        rw [if_pos (by omega)]
      · refine iff_of_false ?_ fits
        rintro ⟨r, ends, -⟩
        have wraps := sint_wraps (i := p + len.toNat + 2) (by omega) (by omega)
        have round : (getIeLoop m index n).round (p, p) =
            .inr (p + (len.toNat + 2), sint ((p + len.toNat + 2 : Nat) : Int)) := by
          simp only [getIeLoop, idThere, lenThere, if_neg found, next]
          rw [if_neg (by omega)]
        have beyond := (((Loop.ends_of_again round).mp ends).2).here (p + (len.toNat + 2)) (by simp [getIeLoop])
        omega

/-- Along the whole elements. -/
theorem getIe_along (index : Int) {es : List Element} {rest : List UInt8} (stands : Stands m p (bytesOf es ++ rest)) (cut : Cut rest)
    (length : p + (bytesOf es ++ rest).length = n) (small : n < 2 ^ 31) :
    ((∃ r, GetIeEnds m index n p r ∧ Search.Whole m n r) ↔
      (∃ e ∈ es, (e.id.toNat : Int) = index) ∨ GetIeRemainder index (p + (bytesOf es).length) rest) ∧
    (rest = [] → GetIeEnds m index n p (placeFrom (fun e => (e.id.toNat : Int) = index) p es)) := by
  induction es generalizing p with
  | nil =>
      refine ⟨by simpa using getIe_cut stands cut length small, fun none_ => ?_⟩
      subst none_
      rw [GetIeEnds, if_pos (by simpa using length.ge), placeFrom]
  | cons e es ih =>
      rw [bytesOf_cons, List.append_assoc] at stands length
      have element (r : Option Nat) : GetIeEnds m index n p r ↔ _ := getIe_element stands length small
      have sizes : p + e.bytes.length + (bytesOf es ++ rest).length = n := by
        rw [← length, @List.length_append _ e.bytes, Nat.add_assoc]
      simp only [element, placeFrom, List.exists_mem_cons_iff, bytesOf_cons, @List.length_append _ e.bytes,
        ← Nat.add_assoc]
      by_cases found : (e.id.toNat : Int) = index
      · simp only [found, if_true, true_or, iff_true, exists_eq_left, decide_true, implies_true, and_true]
        rintro o ⟨⟩
        rw [stands.header.2]
        rw [List.length_append, Element.length_bytes] at length
        omega
      · simp only [found, if_false, false_or, decide_false, Bool.false_eq_true]
        exact ih stands.right sizes

end GetIe

/-! ## `rtw_get_ie_ex` -/

section GetIeEx

variable {m : Mem} {n : Nat} {eid : UInt8} {oui : Option (List UInt8)} {w : Wanted} {p : Nat} {r : Option Nat}

/-- The search that is at `p` ends with `r`, reads below the limit, and what it returns is whole. -/
def ExEnds (m : Mem) (n : Nat) (eid : UInt8) (oui : Option (List UInt8)) (w : Wanted) (p : Nat) (r : Option Nat) : Prop :=
  (getIeExLoop m n eid oui w).Ends (· < n) p r ∧ Search.Whole m n r

theorem matches_iff (q : Nat) : (∀ o ∈ oui, bytesAt m q o.length = o) ↔
    bytesAt m q (oui.getD []).length = oui.getD [] := by
  cases oui with
  | none => simp [bytesAt]
  | some o => simp

theorem uint_of_lt {i : Nat} (small : i < 2 ^ 32) : uint i = i := Nat.mod_eq_of_lt small

theorem ex_beyond (beyond : n ≤ p) : ExEnds m n eid oui w p r ↔ r = none := by
  have looks : (getIeExLoop m n eid oui w).looks p = [] := if_neg (Nat.not_lt.mpr beyond)
  have round : (getIeExLoop m n eid oui w).round p = .inl none := if_neg (Nat.not_lt.mpr beyond)
  rw [ExEnds, Loop.ends_of_done round, looks]
  constructor
  · rintro ⟨⟨-, none_⟩, -⟩
    exact none_
  · rintro rfl
    exact ⟨⟨nofun, rfl⟩, nofun⟩

theorem ex_round {id len : UInt8} {s : List UInt8} (stands : Stands m p (id :: len :: s)) (below : p < n)
    (small : p + 2 < 2 ^ 32) : (getIeExLoop m n eid oui w).round p =
      if id = eid ∧ bytesAt m (p + 2) (oui.getD []).length = oui.getD [] then .inl (some p)
      else .inr (uint (p + (len.toNat + 2))) := by
  have idThere : m p = id := stands.byte (k := 0) (by simp)
  have lenThere : m (p + 1) = len := stands.byte (k := 1) (by simp)
  simp only [getIeExLoop, matches_iff, uint_of_lt (show p + 1 < 2 ^ 32 by omega), uint_of_lt small, idThere, lenThere]
  rw [if_pos below]

/-- An element that is taken is whole. -/
theorem taken_whole {len : UInt8} {s : List UInt8} (there : m (p + 1) = len) (length : p + (s.length + 2) = n) :
    ((w.ie = true → len.toNat ≤ s.length) ∧ r = some p) ∧ Search.Whole m n r ↔ r = some p ∧ len.toNat ≤ s.length := by
  constructor
  · rintro ⟨⟨-, rfl⟩, whole⟩
    have size := whole p rfl
    rw [there] at size
    exact ⟨rfl, by omega⟩
  · rintro ⟨rfl, size⟩
    refine ⟨⟨fun _ => size, rfl⟩, ?_⟩
    rintro o ⟨⟩
    rw [there]
    omega

/-- A header, of which all may be read up to `k`: what is compared has to lie there, and the copy of an element that is
taken. -/
theorem ex_reads {id len : UInt8} {s : List UInt8} {k : Nat} (stands : Stands m p (id :: len :: s)) (below : p < n)
    (length : p + (s.length + 2) = k) (small : p + 2 < 2 ^ 32) : (getIeExLoop m n eid oui w).Ends (· < k) p r ↔
      (id = eid → (oui.getD []).length ≤ s.length) ∧
        if id = eid ∧ oui.getD [] <+: s then (w.ie = true → len.toNat ≤ s.length) ∧ r = some p
        else (getIeExLoop m n eid oui w).Ends (· < k) (uint (p + (len.toNat + 2))) r := by
  have idThere : m p = id := stands.byte (k := 0) (by simp)
  have lenThere : m (p + 1) = len := stands.byte (k := 1) (by simp)
  have body : Stands m (p + 2) s := Stands.right (s := [id, len]) stands
  have one : uint (p + 1) = p + 1 := uint_of_lt (by omega)
  have two : uint (p + 2) = p + 2 := uint_of_lt small
  let taken : Prop := id = eid ∧ bytesAt m (p + 2) (oui.getD []).length = oui.getD []
  have places : ∀ a ∈ (getIeExLoop m n eid oui w).looks p, a = p ∨ a = p + 1 ∨
      (id = eid ∧ p + 2 ≤ a ∧ a < p + 2 + (oui.getD []).length) ∨
        (taken ∧ w.ie = true ∧ a < p + (len.toNat + 2)) := by
    intro a member
    simp only [getIeExLoop, matches_iff, one, two, idThere, Wanted.looks, copied, compared, lenThere] at member
    rw [if_pos below] at member
    simp only [List.mem_cons, List.mem_append] at member
    rcases member with (rfl | there) | there
    · exact .inl rfl
    · split at there
      · rename_i same
        obtain ⟨j, inside, rfl⟩ := List.mem_map.mp there
        exact .inr (.inr (.inl ⟨same, by omega, by have := List.mem_range.mp inside; omega⟩))
      · exact absurd there List.not_mem_nil
    · split at there
      · rename_i same
        rcases List.mem_append.mp there with header | copy
        · split at header
          · exact .inr (.inl (List.mem_singleton.mp header))
          · exact absurd header List.not_mem_nil
        · split at copy
          · rename_i wanted
            obtain ⟨j, inside, rfl⟩ := List.mem_map.mp copy
            exact .inr (.inr (.inr ⟨same, wanted, by have := List.mem_range.mp inside; omega⟩))
          · exact absurd copy List.not_mem_nil
      · exact .inr (.inl (List.mem_singleton.mp there))
  have round : (getIeExLoop m n eid oui w).round p =
      if taken then .inl (some p) else .inr (uint (p + (len.toNat + 2))) := ex_round stands below small
  have reads (j : Nat) (inside : j < (oui.getD []).length) (same : id = eid) :
      p + 2 + j ∈ (getIeExLoop m n eid oui w).looks p := by
    simp only [getIeExLoop, two, idThere, compared, if_pos same]
    rw [if_pos below]
    exact List.mem_cons_of_mem _ (List.mem_append_left _ (List.mem_map.mpr ⟨j, List.mem_range.mpr inside, rfl⟩))
  have copies (take : taken) (wanted : w.ie = true) : p + (len.toNat + 1) ∈ (getIeExLoop m n eid oui w).looks p := by
    simp only [getIeExLoop, matches_iff, two, idThere, Wanted.looks, copied, one, lenThere, wanted]
    rw [if_pos below, if_pos take]
    refine List.mem_append_right _ (List.mem_append_right _ (List.mem_map.mpr ⟨len.toNat + 1, ?_, rfl⟩))
    exact List.mem_range.mpr (Nat.lt_succ_self _)
  have taken_iff (inside : id = eid → (oui.getD []).length ≤ s.length) : taken ↔ id = eid ∧ oui.getD [] <+: s :=
    and_congr_right fun same => by rw [body.prefix_iff, and_iff_right (inside same)]
  constructor
  · intro ends
    have inside : id = eid → (oui.getD []).length ≤ s.length := by
      intro same
      by_contra longer
      have outside := ends.here _ (reads s.length (by omega) same)
      omega
    refine ⟨inside, ?_⟩
    by_cases take : taken
    · rw [if_pos ((taken_iff inside).mp take)]
      rw [if_pos take] at round
      refine ⟨fun wanted => ?_, ((Loop.ends_of_done round).mp ends).2⟩
      have within := ends.here _ (copies take wanted)
      omega
    · rw [if_neg (mt (taken_iff inside).mpr take)]
      rw [if_neg take] at round
      exact ((Loop.ends_of_again round).mp ends).2
  · rintro ⟨inside, rest⟩
    have good (copy : taken → w.ie = true → len.toNat ≤ s.length) :
        ∀ a ∈ (getIeExLoop m n eid oui w).looks p, a < k := by
      intro a member
      rcases places a member with rfl | rfl | ⟨same, -, below⟩ | ⟨take, wanted, below⟩
      · omega
      · omega
      · have := inside same
        omega
      · have := copy take wanted
        omega
    by_cases take : taken
    · rw [if_pos ((taken_iff inside).mp take)] at rest
      rw [if_pos take] at round
      obtain ⟨copy, rfl⟩ := rest
      exact .done (good fun _ => copy) round
    · rw [if_neg (mt (taken_iff inside).mpr take)] at rest
      rw [if_neg take] at round
      exact .again (good fun there => absurd there take) round rest

/-- A header that lies below the limit: what is compared has to lie there, and the element if it is taken. -/
theorem ex_header {id len : UInt8} {s : List UInt8} (stands : Stands m p (id :: len :: s))
    (length : p + (s.length + 2) = n) (small : n < 2 ^ 32) : ExEnds m n eid oui w p r ↔
      (id = eid → (oui.getD []).length ≤ s.length) ∧
        if id = eid ∧ oui.getD [] <+: s then r = some p ∧ len.toNat ≤ s.length
        else ExEnds m n eid oui w (uint (p + (len.toNat + 2))) r := by
  have lenThere : m (p + 1) = len := stands.byte (k := 1) (by simp)
  rw [ExEnds, ex_reads stands (by omega) length (by omega), and_assoc]
  refine and_congr_right fun _ => ?_
  split
  · exact taken_whole lenThere length
  · rfl

/-- Half a header: the length byte is not below the limit. -/
theorem not_ex_half (length : p + 1 = n) (small : n < 2 ^ 32) : ¬ExEnds m n eid oui w p r := by
  rintro ⟨ends, whole⟩
  by_cases taken : m p = eid ∧ ∀ o ∈ oui, bytesAt m (uint (p + 2)) o.length = o
  · have round : (getIeExLoop m n eid oui w).round p = .inl (some p) := by
      simp only [getIeExLoop, if_pos taken]
      rw [if_pos (by omega)]
    obtain ⟨-, rfl⟩ := (Loop.ends_of_done round).mp ends
    have beyond := whole p rfl
    omega
  · have outside := ends.here (p + 1) (by
      simp only [getIeExLoop, if_neg taken, uint_of_lt (show p + 1 < 2 ^ 32 by omega)]
      rw [if_pos (by omega)]
      exact List.mem_cons_of_mem _ (List.mem_append_right _ (List.mem_singleton_self _)))
    omega

/-- From `p` on up to the element taken, what is compared lies below the limit, and in the remainder nothing is taken;
where `cnt` passes 2^32 there, `wraps` is asked about the place it comes to. -/
def exAlong (eid : UInt8) (key rest : List UInt8) (wraps : Nat → Prop) : Nat → List Element → Prop
  | p, [] => rest = [] ∨ ∃ id len s, rest = id :: len :: s ∧ (id = eid → key.length ≤ s.length ∧ ¬key <+: s) ∧
      (p + (len.toNat + 2) < 2 ^ 32 ∨ wraps (p + (len.toNat + 2) - 2 ^ 32))
  | p, e :: es => (e.id = eid → key.length ≤ (e.data ++ (bytesOf es ++ rest)).length) ∧
      ((e.id = eid ∧ key <+: e.data ++ (bytesOf es ++ rest)) ∨ exAlong eid key rest wraps (p + e.bytes.length) es)

/-- The search from `p` on is safe, and `cnt` passes 2^32 fewer times than that. -/
def ExSafe (m : Mem) (n : Nat) (eid : UInt8) (key : List UInt8) : Nat → Nat → Prop
  | 0, _ => False
  | passes + 1, p => exAlong eid key (framed m p (n - p)).2 (ExSafe m n eid key passes) p (framed m p (n - p)).1

theorem exAlong_mono {key rest : List UInt8} {wraps wraps' : Nat → Prop} (wider : ∀ q, wraps q → wraps' q)
    {es : List Element} (along : exAlong eid key rest wraps p es) : exAlong eid key rest wraps' p es := by
  induction es generalizing p with
  | nil =>
      rcases along with none_ | ⟨id, len, s, same, other, step⟩
      · exact .inl none_
      · exact .inr ⟨id, len, s, same, other, step.imp_right (wider _)⟩
  | cons e es ih => exact ⟨along.1, along.2.imp_right ih⟩

/-- The place that is asked about is one. -/
theorem exAlong_exists {key rest : List UInt8} {wraps : Nat → Nat → Prop} {es : List Element}
    (along : exAlong eid key rest (fun q => ∃ k, wraps k q) p es) : ∃ k, exAlong eid key rest (wraps k) p es := by
  induction es generalizing p with
  | nil =>
      rcases along with none_ | ⟨id, len, s, same, other, stays | ⟨k, wraps⟩⟩
      · exact ⟨0, .inl none_⟩
      · exact ⟨0, .inr ⟨id, len, s, same, other, .inl stays⟩⟩
      · exact ⟨k, .inr ⟨id, len, s, same, other, .inr wraps⟩⟩
  | cons e es ih =>
      obtain ⟨inside, taken | rest⟩ := along
      · exact ⟨0, inside, .inl taken⟩
      · obtain ⟨k, rest⟩ := ih rest
        exact ⟨k, inside, .inr rest⟩

theorem uint_wraps {i : Nat} (large : 2 ^ 32 ≤ i) (below : i < 2 * 2 ^ 32) : uint i = i - 2 ^ 32 := by
  rw [uint, Nat.mod_eq_sub_mod large, Nat.mod_eq_of_lt (by omega)]

/-- A whole element. -/
theorem ex_element {e : Element} {s : List UInt8} (stands : Stands m p (e.bytes ++ s))
    (length : p + (e.bytes ++ s).length = n) (small : n < 2 ^ 32) : ExEnds m n eid oui w p r ↔
      (e.id = eid → (oui.getD []).length ≤ (e.data ++ s).length) ∧
        if e.id = eid ∧ oui.getD [] <+: e.data ++ s then r = some p
        else ExEnds m n eid oui w (p + e.bytes.length) r := by
  have sizes : p + ((e.data ++ s).length + 2) = n := by
    rw [← length, List.length_append, List.length_append, Element.length_bytes]
    omega
  rw [List.length_append] at length
  have size : e.data.length ≤ (e.data ++ s).length := by simp
  rw [ex_header (s := e.data ++ s) stands sizes small, e.lengthByte, ← Element.length_bytes, uint_of_lt (by omega)]
  simp only [size, and_true]

theorem ends_of_exAlong {es : List Element} {rest : List UInt8} {wraps : Nat → Prop}
    (later : ∀ q, wraps q → ∃ r, ExEnds m n eid oui w q r) (stands : Stands m p (bytesOf es ++ rest)) (cut : Cut rest)
    (length : p + (bytesOf es ++ rest).length = n) (small : n < 2 ^ 32)
    (along : exAlong eid (oui.getD []) rest wraps p es) : ∃ r, ExEnds m n eid oui w p r := by
  induction es generalizing p with
  | nil =>
      rcases along with rfl | ⟨id, len, s, rfl, other, step⟩
      · exact ⟨none, (ex_beyond (by simpa using length.ge)).mpr rfl⟩
      · have bound := len.toNat_lt
        have short := cut_cons_iff.mp cut
        have header (r : Option Nat) : ExEnds m n eid oui w p r ↔ _ := ex_header stands length small
        simp only [header, and_iff_right fun same => (other same).1, if_neg fun taken : id = eid ∧ _ => (other taken.1).2 taken.2]
        simp only [bytesOf_nil, List.nil_append, List.length_cons] at length
        rcases step with stays | wraps
        · exact ⟨none, (ex_beyond (by rw [uint_of_lt stays]; omega)).mpr rfl⟩
        · by_cases stays : p + (len.toNat + 2) < 2 ^ 32
          · exact ⟨none, (ex_beyond (by rw [uint_of_lt stays]; omega)).mpr rfl⟩
          · rw [uint_wraps (by omega) (by omega)]
            exact later _ wraps
  | cons e es ih =>
      rw [bytesOf_cons, List.append_assoc] at stands length
      have element (r : Option Nat) : ExEnds m n eid oui w p r ↔ _ := ex_element stands length small
      obtain ⟨inside, taken | behind⟩ := along
      · exact ⟨some p, (element _).mpr ⟨inside, by rw [if_pos taken]⟩⟩
      · by_cases taken : e.id = eid ∧ oui.getD [] <+: e.data ++ (bytesOf es ++ rest)
        · exact ⟨some p, (element _).mpr ⟨inside, by rw [if_pos taken]⟩⟩
        · obtain ⟨r, ends⟩ := ih stands.right (by rw [← length, @List.length_append _ e.bytes, Nat.add_assoc]) behind
          exact ⟨r, (element _).mpr ⟨inside, by rwa [if_neg taken]⟩⟩

/-- What is asked where `cnt` passes 2^32. -/
def ExWraps (m : Mem) (n : Nat) (eid : UInt8) (key : List UInt8) (q : Nat) : Prop := ∃ k, ExSafe m n eid key k q

/-- The search along every list of elements that stands at `p` is safe. -/
def ExAlongAll (m : Mem) (n : Nat) (eid : UInt8) (key : List UInt8) (p : Nat) : Prop :=
  ∀ es rest, Stands m p (bytesOf es ++ rest) → Cut rest → p + (bytesOf es ++ rest).length = n →
    exAlong eid key rest (ExWraps m n eid key) p es

theorem ExAlongAll.wraps {key : List UInt8} (inside : p ≤ n) (all : ExAlongAll m n eid key p) :
    ExWraps m n eid key p := by
  have length := framed_length m p (n - p)
  obtain ⟨k, along⟩ := exAlong_exists (all _ _ (framed_stands m p (n - p)) (framed_cut m p (n - p))
    (by rw [List.length_append]; omega))
  exact ⟨k + 1, along⟩

theorem exAlongAll_of_step (small : n < 2 ^ 32) (ends : ExEnds m n eid oui w p r)
    (later : ∀ q, (getIeExLoop m n eid oui w).round p = .inr q → ExAlongAll m n eid (oui.getD []) q) :
    ExAlongAll m n eid (oui.getD []) p := by
  intro es rest stands cut length
  cases es with
  | nil =>
      rcases cut.cases with rfl | ⟨b, rfl⟩ | ⟨id, len, s, rfl, short⟩
      · exact .inl rfl
      · exact absurd ends (not_ex_half length small)
      · have bound := len.toNat_lt
        have sizes : p + (s.length + 2) = n := length
        have body : Stands m (p + 2) s := Stands.right (s := [id, len]) stands
        obtain ⟨inside, stops⟩ := (ex_header stands length small).mp ends
        have other : ¬(id = eid ∧ oui.getD [] <+: s) := by
          intro taken
          rw [if_pos taken] at stops
          omega
        refine .inr ⟨id, len, s, rfl, fun same => ⟨inside same, fun front => other ⟨same, front⟩⟩, ?_⟩
        by_cases stays : p + (len.toNat + 2) < 2 ^ 32
        · exact .inl stays
        · have round : (getIeExLoop m n eid oui w).round p = _ := ex_round stands (by omega) (by omega)
          rw [if_neg fun taken => other ⟨taken.1, body.prefix_iff _ |>.mpr ⟨inside taken.1, taken.2⟩⟩,
            uint_wraps (by omega) (by omega)] at round
          exact .inr ((later _ round).wraps (by omega))
  | cons e es =>
      rw [bytesOf_cons, List.append_assoc] at stands length
      have sizes : p + ((e.data ++ (bytesOf es ++ rest)).length + 2) = n := by
        rw [← length, List.length_append, @List.length_append _ e.bytes, Element.length_bytes]
        omega
      have body : Stands m (p + 2) (e.data ++ (bytesOf es ++ rest)) := stands.body
      obtain ⟨inside, -⟩ := (ex_element stands length small).mp ends
      refine ⟨inside, ?_⟩
      by_cases taken : e.id = eid ∧ oui.getD [] <+: e.data ++ (bytesOf es ++ rest)
      · exact .inl taken
      · have round : (getIeExLoop m n eid oui w).round p = _ :=
          ex_round (s := e.data ++ (bytesOf es ++ rest)) stands (by omega) (by omega)
        rw [List.length_append] at length
        rw [if_neg fun taken' => taken ⟨taken'.1, body.prefix_iff _ |>.mpr ⟨inside taken'.1, taken'.2⟩⟩, e.lengthByte,
          ← Element.length_bytes, uint_of_lt (by omega)] at round
        exact .inr (later _ round es rest stands.right cut (by omega))

theorem exAlongAll_of_ends (small : n < 2 ^ 32) (ends : (getIeExLoop m n eid oui w).Ends (· < n) p r)
    (whole : Search.Whole m n r) : ExAlongAll m n eid (oui.getD []) p := by
  -- on the way of the search, also where it leaves one list of elements for another
  induction ends with
  | done here done =>
      exact exAlongAll_of_step small ⟨.done here done, whole⟩ fun q again => absurd (done.symm.trans again) (by simp)
  | again here next rest ih =>
      refine exAlongAll_of_step small ⟨.again here next rest, whole⟩ fun q again => ?_
      cases Sum.inr.inj (next.symm.trans again)
      exact ih whole

theorem ends_of_exSafe (small : n < 2 ^ 32) {k : Nat} (inside : p ≤ n) (safe : ExSafe m n eid (oui.getD []) k p) :
    ∃ r, ExEnds m n eid oui w p r := by
  induction k generalizing p with
  | zero => exact safe.elim
  | succ k ih =>
      have length := framed_length m p (n - p)
      refine ends_of_exAlong (fun q safe => ?_) (framed_stands m p (n - p)) (framed_cut m p (n - p))
        (by rw [List.length_append]; omega) small safe
      by_cases beyond : n ≤ q
      · exact ⟨none, (ex_beyond beyond).mpr rfl⟩
      · exact ih (by omega) safe

/-- The search returns soundly exactly if it is safe from the start. -/
theorem ex_ends_iff (small : n < 2 ^ 32) :
    (∃ r, ExEnds m n eid oui w 0 r) ↔ ExWraps m n eid (oui.getD []) 0 := by
  constructor
  · rintro ⟨r, ends, whole⟩
    exact (exAlongAll_of_ends small ends whole).wraps (Nat.zero_le n)
  · rintro ⟨k, safe⟩
    exact ends_of_exSafe small (Nat.zero_le n) safe

/-- Up to the first match in a list, what seems to be one is one. -/
def exProper (eid : UInt8) (key : List UInt8) : List Element → Prop
  | [] => True
  | e :: es => (e.id = eid ∧ key <+: e.data) ∨ (¬(e.id = eid ∧ key <+: e.data ++ bytesOf es) ∧ exProper eid key es)

/-- In a list the search returns the first match exactly if nothing before only seems to be one. -/
theorem ex_list {es : List Element} (stands : Stands m p (bytesOf es)) (length : p + (bytesOf es).length = n)
    (small : n < 2 ^ 32) (ends : ExEnds m n eid oui w p r) :
    r = placeFrom (fun e => e.id = eid && (oui.getD []).isPrefixOf e.data) p es ↔ exProper eid (oui.getD []) es := by
  induction es generalizing p with
  | nil => exact iff_of_true ((ex_beyond (by simpa using length.ge)).mp ends) trivial
  | cons e es ih =>
      rw [bytesOf_cons] at stands length
      obtain ⟨inside, stops⟩ := (ex_element stands length small).mp ends
      rw [List.length_append] at length
      rw [placeFrom, exProper]
      have matches_ : (e.id = eid && (oui.getD []).isPrefixOf e.data) = true ↔ e.id = eid ∧ oui.getD [] <+: e.data := by
        simp
      by_cases taken : e.id = eid ∧ oui.getD [] <+: e.data ++ bytesOf es
      · rw [if_pos taken] at stops
        subst stops
        by_cases found : e.id = eid ∧ oui.getD [] <+: e.data
        · rw [if_pos (matches_.mpr found)]
          exact iff_of_true rfl (.inl found)
        · rw [if_neg (mt matches_.mp found)]
          refine iff_of_false (fun place => ?_) (by tauto)
          have behind := placeFrom_ge place.symm
          rw [Element.length_bytes] at behind
          omega
      · rw [if_neg taken] at stops
        have other : ¬(e.id = eid ∧ oui.getD [] <+: e.data) := fun found =>
          taken ⟨found.1, found.2.trans (List.prefix_append _ _)⟩
        rw [if_neg (mt matches_.mp other), ih stands.right (by omega) stops]
        simp only [other, taken, false_or, not_false_eq_true, true_and]

end GetIeEx

/-! ## `rtw_get_wps_ie` and `rtw_get_p2p_ie` -/

section GetVendorIe

variable {m : Mem} {n p : Nat} {oui : List UInt8} {w : Wanted} {r : Option Nat}

/-- The search that is at `p` ends with `r`, reads below the limit, and what it returns is whole. -/
def VendorEnds (m : Mem) (n : Nat) (oui : List UInt8) (w : Wanted) (p : Nat) (r : Option Nat) : Prop :=
  (getVendorIeLoop m n oui w).Ends (· < n) p r ∧ Search.Whole m n r

/-- The search goes no further than this. -/
def VendorStops (n p : Nat) : Prop := n ≤ p + 5 ∨ Ap.maxIeSz ≤ p + 5

theorem vendor_done (near : p < 2048) (stops : VendorStops n p) :
    (getVendorIeLoop m n oui w).Ends (· < n) p r ↔ r = none := by
  have five : uint (p + 1 + 4) = p + 5 := uint_of_lt (by omega)
  have round : (getVendorIeLoop m n oui w).round p = .inl none := by
    simp only [getVendorIeLoop, five]
    rcases stops with beyond | large
    · rw [if_neg (by omega)]
    · rw [if_pos large, ite_self]
  have inside : ∀ a ∈ (getVendorIeLoop m n oui w).looks p, a < n := by
    intro a member
    simp only [getVendorIeLoop, five] at member
    split at member
    · rename_i below
      rcases stops with beyond | large
      · omega
      · rw [if_pos large, List.mem_singleton] at member
        omega
    · exact absurd member List.not_mem_nil
  rw [Loop.ends_of_done round, and_iff_right inside]

theorem vendor_stops (near : p < 2048) (stops : VendorStops n p) : VendorEnds m n oui w p r ↔ r = none := by
  rw [VendorEnds, vendor_done near stops]
  exact ⟨And.left, fun none_ => ⟨none_, by rw [none_]; exact nofun⟩⟩

/-- A header that the search looks at: the copy of an element that is taken has to lie below the limit. -/
theorem vendor_reads {id len : UInt8} {s : List UInt8} (four : oui.length = 4) (stands : Stands m p (id :: len :: s))
    (length : p + (s.length + 2) = n) (goes : ¬VendorStops n p) : (getVendorIeLoop m n oui w).Ends (· < n) p r ↔
      if id = 221 ∧ oui <+: s then (w.ie = true → len.toNat ≤ s.length) ∧ r = some p
      else (getVendorIeLoop m n oui w).Ends (· < n) (p + (len.toNat + 2)) r := by
  have idThere : m p = id := stands.byte (k := 0) (by simp)
  have lenThere : m (p + 1) = len := stands.byte (k := 1) (by simp)
  have body : Stands m (p + 2) s := Stands.right (s := [id, len]) stands
  obtain ⟨below, near⟩ := not_or.mp goes
  simp only [Ap.maxIeSz] at near
  have bound := len.toNat_lt
  have one : uint (p + 1) = p + 1 := uint_of_lt (by omega)
  have two : uint (p + 2) = p + 2 := uint_of_lt (by omega)
  have five : uint (p + 1 + 4) = p + 5 := uint_of_lt (by omega)
  have taken_iff : id = 221 ∧ bytesAt m (p + 2) 4 = oui ↔ id = 221 ∧ oui <+: s := by
    rw [body.prefix_iff, four, and_iff_right (a := 4 ≤ s.length) (by omega)]
  have places : ∀ a ∈ (getVendorIeLoop m n oui w).looks p,
      a < n ∨ ((id = 221 ∧ oui <+: s) ∧ w.ie = true ∧ a < p + (len.toNat + 2)) := by
    intro a member
    simp only [getVendorIeLoop, one, two, five, idThere, taken_iff, Wanted.looks, copied, compared, lenThere] at member
    rw [if_pos (by omega), if_neg (by simp only [Ap.maxIeSz]; omega)] at member
    simp only [List.mem_cons, List.mem_append] at member
    rcases member with rfl | there | there
    · exact .inl (by omega)
    · split at there
      · obtain ⟨k, inside, rfl⟩ := List.mem_map.mp there
        exact .inl (by have := List.mem_range.mp inside; omega)
      · exact absurd there List.not_mem_nil
    · split at there
      · rename_i same
        rcases List.mem_append.mp there with header | copy
        · split at header
          · exact .inl (by have := List.mem_singleton.mp header; omega)
          · exact absurd header List.not_mem_nil
        · split at copy
          · rename_i wanted
            obtain ⟨k, inside, rfl⟩ := List.mem_map.mp copy
            exact .inr ⟨same, wanted, by have := List.mem_range.mp inside; omega⟩
          · exact absurd copy List.not_mem_nil
      · exact .inl (by have := List.mem_singleton.mp there; omega)
  have round : (getVendorIeLoop m n oui w).round p =
      if id = 221 ∧ oui <+: s then .inl (some p) else .inr (p + (len.toNat + 2)) := by
    simp only [getVendorIeLoop, one, two, five, idThere, taken_iff, lenThere]
    rw [if_pos (by omega), if_neg (by simp only [Ap.maxIeSz]; omega), uint_of_lt (by omega)]
  by_cases take : id = 221 ∧ oui <+: s
  · rw [if_pos take]
    rw [if_pos take] at round
    rw [Loop.ends_of_done round]
    refine and_congr_left fun _ => ⟨fun inside wanted => ?_, fun copy a member => ?_⟩
    · have there : p + (len.toNat + 1) ∈ (getVendorIeLoop m n oui w).looks p := by
        simp only [getVendorIeLoop, one, two, five, idThere, taken_iff, Wanted.looks, copied, lenThere, wanted]
        rw [if_pos (by omega), if_neg (by simp only [Ap.maxIeSz]; omega), if_pos take]
        refine List.mem_cons_of_mem _ (List.mem_append_right _ (List.mem_append_right _ (List.mem_map.mpr ?_)))
        exact ⟨len.toNat + 1, List.mem_range.mpr (Nat.lt_succ_self _), rfl⟩
      have within := inside _ there
      omega
    · rcases places a member with inside | ⟨-, wanted, inside⟩
      · exact inside
      · have := copy wanted
        omega
  · rw [if_neg take]
    rw [if_neg take] at round
    have inside : ∀ a ∈ (getVendorIeLoop m n oui w).looks p, a < n := fun a member =>
      (places a member).resolve_right fun taken => take taken.1
    rw [Loop.ends_of_again round, and_iff_right inside]

/-- A header that the search looks at: the element has to be whole if it is taken. -/
theorem vendor_header {id len : UInt8} {s : List UInt8} (four : oui.length = 4) (stands : Stands m p (id :: len :: s))
    (length : p + (s.length + 2) = n) (goes : ¬VendorStops n p) : VendorEnds m n oui w p r ↔
      if id = 221 ∧ oui <+: s then r = some p ∧ len.toNat ≤ s.length
      else VendorEnds m n oui w (p + (len.toNat + 2)) r := by
  have lenThere : m (p + 1) = len := stands.byte (k := 1) (by simp)
  rw [VendorEnds, vendor_reads four stands length goes]
  split
  · exact taken_whole lenThere length
  · rfl

theorem vendor_element {e : Element} {s : List UInt8} (four : oui.length = 4) (stands : Stands m p (e.bytes ++ s))
    (length : p + (e.bytes ++ s).length = n) (goes : ¬VendorStops n p) : VendorEnds m n oui w p r ↔
      if e.id = 221 ∧ oui <+: e.data ++ s then r = some p else VendorEnds m n oui w (p + e.bytes.length) r := by
  have sizes : p + ((e.data ++ s).length + 2) = n := by
    rw [← length, List.length_append, List.length_append, Element.length_bytes]
    omega
  have size : e.data.length ≤ (e.data ++ s).length := by simp
  rw [vendor_header (s := e.data ++ s) four stands sizes goes, e.lengthByte, ← Element.length_bytes]
  simp only [size, and_true]

/-- From `p` on, the remainder is not taken for a whole element: one is taken before, the search stops before, or the
remainder does not begin like one. -/
def vendorSafe (oui rest : List UInt8) : Nat → List Element → Prop
  | p, [] => ∀ len s, rest = 221 :: len :: s → oui <+: s → Ap.maxIeSz ≤ p + 5
  | p, e :: es => (e.id = 221 ∧ oui <+: e.data ++ (bytesOf es ++ rest)) ∨ Ap.maxIeSz ≤ p + 5 ∨
      vendorSafe oui rest (p + e.bytes.length) es

/-- Up to the first match in a list, what seems to be one begins before the limit of the search exactly if it is. -/
def vendorProper (oui : List UInt8) : Nat → List Element → Prop
  | _, [] => True
  | p, e :: es =>
    if e.id = 221 ∧ oui <+: e.data ++ bytesOf es then
      (p + 5 < Ap.maxIeSz ↔ oui <+: e.data) ∧ (¬oui <+: e.data → vendorProper oui (p + e.bytes.length) es)
    else vendorProper oui (p + e.bytes.length) es

/-- Five bytes are too few. -/
theorem vendorSafe_of_short {es : List Element} {rest : List UInt8} (four : oui.length = 4)
    (short : (bytesOf es ++ rest).length ≤ 5) : vendorSafe oui rest p es := by
  induction es generalizing p with
  | nil =>
      rintro len s rfl front
      have enough := front.length_le
      simp only [bytesOf_nil, List.nil_append, List.length_cons] at short
      omega
  | cons e es ih =>
      rw [bytesOf_cons, List.append_assoc, List.length_append] at short
      exact .inr (.inr (ih (by omega)))

theorem goes_near (goes : ¬VendorStops n p) {size : Nat} (small : size < 512) : p + size < 2048 := by
  have near := (not_or.mp goes).2
  simp only [Ap.maxIeSz] at near
  omega

theorem vendor_along {es : List Element} {rest : List UInt8} (four : oui.length = 4) (near : p < 2048)
    (stands : Stands m p (bytesOf es ++ rest)) (cut : Cut rest) (length : p + (bytesOf es ++ rest).length = n) :
    (∃ r, VendorEnds m n oui w p r) ↔ vendorSafe oui rest p es := by
  induction es generalizing p with
  | nil =>
      by_cases stops : VendorStops n p
      · refine iff_of_true ⟨none, (vendor_stops near stops).mpr rfl⟩ ?_
        rintro len s rfl front
        have enough := front.length_le
        simp only [bytesOf_nil, List.nil_append, List.length_cons] at length
        exact stops.resolve_left (by omega)
      · rcases cut.cases with rfl | ⟨b, rfl⟩ | ⟨id, len, s, rfl, short⟩
        · exact absurd (.inl (by simpa using length.ge.trans (Nat.le_add_right p 5))) stops
        · exact absurd (.inl (by simp at length; omega)) stops
        · have bound := len.toNat_lt
          have header (r : Option Nat) := vendor_header (w := w) (r := r) four stands length stops
          simp only [header]
          simp only [bytesOf_nil, List.nil_append, List.length_cons] at length
          by_cases taken : id = 221 ∧ oui <+: s
          · simp only [if_pos taken]
            refine iff_of_false (fun ⟨r, _, whole⟩ => by omega) fun safe => ?_
            exact stops (.inr (safe len s (by rw [taken.1]) taken.2))
          · simp only [if_neg taken]
            refine iff_of_true ⟨none, (vendor_stops (goes_near stops (by omega)) (.inl (by omega))).mpr rfl⟩ ?_
            rintro len' s' ⟨⟩ front
            exact absurd ⟨rfl, front⟩ taken
  | cons e es ih =>
      rw [bytesOf_cons, List.append_assoc] at stands length
      have short := e.short
      by_cases stops : VendorStops n p
      · refine iff_of_true ⟨none, (vendor_stops near stops).mpr rfl⟩ ?_
        rcases stops with beyond | large
        · refine .inr (.inr (vendorSafe_of_short four ?_))
          rw [List.length_append] at length
          omega
        · exact .inr (.inl large)
      · have element (r : Option Nat) := vendor_element (w := w) (r := r) four stands length stops
        simp only [element, vendorSafe]
        by_cases taken : e.id = 221 ∧ oui <+: e.data ++ (bytesOf es ++ rest)
        · simp only [if_pos taken]
          exact iff_of_true ⟨some p, rfl⟩ (.inl taken)
        · simp only [if_neg taken]
          rw [List.length_append] at length
          rw [or_iff_right taken, or_iff_right fun large => stops (.inr large)]
          exact ih (goes_near stops (by rw [Element.length_bytes]; omega)) stands.right (by omega)

theorem vendorIs_iff (oui : List UInt8) (e : Element) :
    (e.id = 221 && oui.isPrefixOf e.data) = true ↔ e.id = 221 ∧ oui <+: e.data := by simp

/-- Where the search has stopped, nothing may match. -/
theorem vendorProper_stopped {es : List Element} (four : oui.length = 4) (length : p + (bytesOf es).length = n)
    (stops : VendorStops n p) :
    none = placeFrom (fun e => e.id = 221 && oui.isPrefixOf e.data) p es ↔ vendorProper oui p es := by
  induction es generalizing p with
  | nil => exact iff_of_true rfl trivial
  | cons e es ih =>
      rw [bytesOf_cons, List.length_append] at length
      have later := ih (p := p + e.bytes.length) (by omega) (stops.imp (by omega) (by omega))
      rw [placeFrom, vendorProper]
      by_cases seems : e.id = 221 ∧ oui <+: e.data ++ bytesOf es
      · have enough := seems.2.length_le
        rw [List.length_append] at enough
        rw [Element.length_bytes] at length
        have large : ¬p + 5 < Ap.maxIeSz := Nat.not_lt.mpr (stops.resolve_left (by omega))
        rw [if_pos seems]
        by_cases front : oui <+: e.data
        · rw [if_pos ((vendorIs_iff oui e).mpr ⟨seems.1, front⟩)]
          exact iff_of_false (by simp) fun proper => large (proper.1.mpr front)
        · rw [if_neg (mt (vendorIs_iff oui e).mp fun found => front found.2), later]
          simp only [large, front, not_false_eq_true, true_implies, iff_self, true_and]
      · have other : ¬(e.id = 221 ∧ oui <+: e.data) := fun found =>
          seems ⟨found.1, found.2.trans (List.prefix_append _ _)⟩
        rw [if_neg seems, if_neg (mt (vendorIs_iff oui e).mp other), later]

/-- In a list the search returns the first match exactly if no other seems to be one and it begins early enough. -/
theorem vendor_list {es : List Element} (four : oui.length = 4) (near : p < 2048) (stands : Stands m p (bytesOf es))
    (length : p + (bytesOf es).length = n) (ends : VendorEnds m n oui w p r) :
    r = placeFrom (fun e => e.id = 221 && oui.isPrefixOf e.data) p es ↔ vendorProper oui p es := by
  induction es generalizing p with
  | nil => exact iff_of_true ((vendor_stops near (.inl (by simp at length; omega))).mp ends) trivial
  | cons e es ih =>
      by_cases stops : VendorStops n p
      · obtain rfl := (vendor_stops near stops).mp ends
        exact vendorProper_stopped four length stops
      · rw [bytesOf_cons] at stands length
        have goes := (vendor_element four stands length stops).mp ends
        have early : p + 5 < Ap.maxIeSz := Nat.not_le.mp (not_or.mp stops).2
        rw [List.length_append] at length
        rw [placeFrom, vendorProper]
        by_cases seems : e.id = 221 ∧ oui <+: e.data ++ bytesOf es
        · rw [if_pos seems] at goes ⊢
          subst goes
          by_cases front : oui <+: e.data
          · rw [if_pos ((vendorIs_iff oui e).mpr ⟨seems.1, front⟩)]
            exact iff_of_true rfl ⟨iff_of_true early front, fun other => absurd front other⟩
          · rw [if_neg (mt (vendorIs_iff oui e).mp fun found => front found.2)]
            refine iff_of_false (fun place => ?_) fun proper => front (proper.1.mp early)
            have behind := placeFrom_ge place.symm
            rw [Element.length_bytes] at behind
            omega
        · have other : ¬(e.id = 221 ∧ oui <+: e.data) := fun found =>
            seems ⟨found.1, found.2.trans (List.prefix_append _ _)⟩
          have short := e.short
          rw [if_neg seems] at goes ⊢
          rw [if_neg (mt (vendorIs_iff oui e).mp other)]
          exact ih (goes_near stops (by rw [Element.length_bytes]; omega)) stands.right (by omega) goes

/-- What the search finds from `p` on: the place of the first header that seems to be one of those searched for. -/
def vendorFirst (oui rest : List UInt8) : Nat → List Element → Option Nat
  | p, [] =>
    match rest with
    | id :: _ :: s => if p + 5 < Ap.maxIeSz ∧ id = 221 ∧ oui <+: s then some p else none
    | _ => none
  | p, e :: es =>
    if p + 5 < Ap.maxIeSz ∧ e.id = 221 ∧ oui <+: e.data ++ (bytesOf es ++ rest) then some p
    else vendorFirst oui rest (p + e.bytes.length) es

theorem vendorFirst_stopped {es : List Element} {rest : List UInt8} (four : oui.length = 4)
    (stops : (bytesOf es ++ rest).length ≤ 5 ∨ Ap.maxIeSz ≤ p + 5) : vendorFirst oui rest p es = none := by
  induction es generalizing p with
  | nil =>
      match rest with
      | [] => rfl
      | [_] => rfl
      | id :: len :: s =>
          refine if_neg fun taken => ?_
          have enough := taken.2.2.length_le
          simp only [bytesOf_nil, List.nil_append, List.length_cons] at stops
          omega
  | cons e es ih =>
      rw [bytesOf_cons, List.append_assoc, List.length_append, Element.length_bytes] at stops
      rw [vendorFirst, if_neg, ih (by rw [Element.length_bytes]; omega)]
      intro taken
      have enough := taken.2.2.length_le
      rw [List.length_append] at enough
      omega

/-- The search ends, reads below the limit, and finds that. -/
theorem vendor_finds {es : List Element} {rest : List UInt8} (four : oui.length = 4) (copies : w.ie = false)
    (near : p < 2048) (stands : Stands m p (bytesOf es ++ rest)) (cut : Cut rest)
    (length : p + (bytesOf es ++ rest).length = n) :
    (getVendorIeLoop m n oui w).Ends (· < n) p r ↔ r = vendorFirst oui rest p es := by
  induction es generalizing p with
  | nil =>
      by_cases stops : VendorStops n p
      · rw [vendor_done near stops, vendorFirst_stopped four (stops.imp_left (by omega))]
      · rcases cut.cases with rfl | ⟨b, rfl⟩ | ⟨id, len, s, rfl, short⟩
        · exact absurd (.inl (by simpa using length.ge.trans (Nat.le_add_right p 5))) stops
        · exact absurd (.inl (by simp at length; omega)) stops
        · have bound := len.toNat_lt
          have early : p + 5 < Ap.maxIeSz := Nat.not_le.mp (not_or.mp stops).2
          rw [vendor_reads four stands length stops, vendorFirst]
          simp only [copies, early, Bool.false_eq_true, false_implies, true_and]
          simp only [bytesOf_nil, List.nil_append, List.length_cons] at length
          split
          · rfl
          · exact vendor_done (goes_near stops (by omega)) (.inl (by omega))
  | cons e es ih =>
      rw [bytesOf_cons, List.append_assoc] at stands length
      have short := e.short
      by_cases stops : VendorStops n p
      · rw [vendor_done near stops, vendorFirst_stopped four]
        rw [bytesOf_cons, List.append_assoc]
        exact stops.imp_left (by omega)
      · have early : p + 5 < Ap.maxIeSz := Nat.not_le.mp (not_or.mp stops).2
        have sizes : p + ((e.data ++ (bytesOf es ++ rest)).length + 2) = n := by
          rw [← length, List.length_append, @List.length_append _ e.bytes, Element.length_bytes]
          omega
        rw [vendor_reads (s := e.data ++ (bytesOf es ++ rest)) four stands sizes stops, vendorFirst, e.lengthByte,
          ← Element.length_bytes]
        simp only [copies, early, Bool.false_eq_true, false_implies, true_and]
        rw [List.length_append] at length
        split
        · rfl
        · exact ih (goes_near stops (by rw [Element.length_bytes]; omega)) stands.right (by omega)

/-- What is found is an element of the list, or the remainder. -/
theorem vendorFirst_cases {es : List Element} {rest : List UInt8} {q : Nat}
    (found : vendorFirst oui rest p es = some q) :
    (∃ pre e post, es = pre ++ e :: post ∧ q = p + (bytesOf pre).length) ∨
      (q = p + (bytesOf es).length ∧ ∃ id len s, rest = id :: len :: s) := by
  induction es generalizing p with
  | nil =>
      match rest with
      | [] => exact absurd found (by simp [vendorFirst])
      | [_] => exact absurd found (by simp [vendorFirst])
      | id :: len :: s =>
          rw [vendorFirst] at found
          split at found
          · cases found
            exact .inr ⟨rfl, id, len, s, rfl⟩
          · exact absurd found (by simp)
  | cons e es ih =>
      rw [vendorFirst] at found
      split at found
      · cases found
        exact .inl ⟨[], e, es, rfl, rfl⟩
      · rcases ih found with ⟨pre, e', post, rfl, rfl⟩ | ⟨rfl, remainder⟩
        · refine .inl ⟨e :: pre, e', post, rfl, ?_⟩
          rw [bytesOf_cons, List.length_append, Nat.add_assoc]
        · refine .inr ⟨?_, remainder⟩
          rw [bytesOf_cons, List.length_append, Nat.add_assoc]

end GetVendorIe

/-! ## The theorem -/

namespace Search

/-- The bytes, as whole elements and a remainder, for which the search is sound. -/
def Fits (m : Mem) (s : Search) : Prop :=
  let es := (framed m 0 s.limit).1
  let rest := (framed m 0 s.limit).2
  match s with
  | getIe index _ =>
    (∃ e ∈ es, (e.id.toNat : Int) = index.toInt) ∨ GetIeRemainder index.toInt (bytesOf es).length rest
  | getIeEx inLen eid oui _ =>
    (∃ passes, ExSafe m inLen.toNat eid (oui.getD []) passes 0) ∧ (rest = [] → exProper eid (oui.getD []) es)
  | getWpsIe _ _ => vendorSafe wpsOui rest 0 es ∧ (rest = [] → vendorProper wpsOui 0 es)
  | getP2pIe _ _ => vendorSafe p2pOui rest 0 es ∧ (rest = [] → vendorProper p2pOui 0 es)

end Search

section Sound

variable {m : Mem} {n : Nat} {is : Element → Bool} {ends : Option Nat → Prop}

/-- What is asked of a search that returns is asked of a list for its first match. -/
theorem sound_iff {safe proper : Prop} (returns : (∃ r, ends r) ↔ safe)
    (list : (framed m 0 n).2 = [] → ∀ r, ends r → (r = placeOf is (framed m 0 n).1 ↔ proper)) :
    (∃ r, ends r ∧ ∀ es, bytesAt m 0 n = bytesOf es → r = placeOf is es) ↔
      safe ∧ ((framed m 0 n).2 = [] → proper) := by
  constructor
  · rintro ⟨r, there, first⟩
    exact ⟨returns.mp ⟨r, there⟩, fun none_ => (list none_ r there).mp (first _ (bytesOf_framed none_))⟩
  · rintro ⟨safe, proper⟩
    obtain ⟨r, there⟩ := returns.mpr safe
    refine ⟨r, there, fun es whole => ?_⟩
    have same := framed_of_bytesOf whole
    have none_ : (framed m 0 n).2 = [] := by rw [same]
    have first := (list none_ r there).mpr (proper none_)
    rwa [same] at first

/-- A run that returns, as an end. -/
theorem returns_iff {σ : Type} {l : Loop σ Nat (Option Nat)} {start : σ} {P : Option Nat → Prop} :
    (∃ turns r, l.run turns start = some r ∧ (∀ a ∈ l.trace turns start, a < n) ∧ Search.Whole m n r ∧ P r) ↔
      ∃ r, (l.Ends (· < n) start r ∧ Search.Whole m n r) ∧ P r := by
  constructor
  · rintro ⟨turns, r, result, inside, whole, holds⟩
    exact ⟨r, ⟨Loop.ends_iff_run.mpr ⟨turns, result, inside⟩, whole⟩, holds⟩
  · rintro ⟨r, ⟨ends, whole⟩, holds⟩
    obtain ⟨turns, result, inside⟩ := Loop.ends_iff_run.mp ends
    exact ⟨turns, r, result, inside, whole, holds⟩

/-- A list without bytes. -/
theorem sound_zero (m : Mem) (is : Element → Bool) : ∀ es, bytesAt m 0 0 = bytesOf es → none = placeOf is es := by
  intro es whole
  rw [bytesOf_eq_nil.mp whole.symm]
  rfl

/-- `rtw_get_ie`, from the start on. -/
theorem getIe_sound {index : Int} (some_ : 0 < n) (small : n < 2 ^ 31) :
    (∃ r, ((getIeLoop m index n).Ends (· < n) (0, 0) r ∧ Search.Whole m n r) ∧
        ∀ es, bytesAt m 0 n = bytesOf es → r = placeOf (fun e => (e.id.toNat : Int) = index) es) ↔
      (∃ e ∈ (framed m 0 n).1, (e.id.toNat : Int) = index) ∨
        GetIeRemainder index (bytesOf (framed m 0 n).1).length (framed m 0 n).2 := by
  obtain ⟨returns, list⟩ := getIe_along index (framed_stands m 0 n) (framed_cut m 0 n) (framed_all m n) small
  simp only [GetIeEnds, if_neg (Nat.not_le.mpr some_), Nat.zero_add] at returns list
  refine (@sound_iff m n _ _ _ True returns fun none_ r ends => ?_).trans (and_iff_left fun _ => trivial)
  exact iff_of_true ((list none_).unique ends.1) trivial

/-- `rtw_get_wps_ie` and `rtw_get_p2p_ie`, from the start on. -/
theorem vendor_sound {oui : List UInt8} (four : oui.length = 4) (w : Wanted) :
    (∃ r, VendorEnds m n oui w 0 r ∧
        ∀ es, bytesAt m 0 n = bytesOf es → r = placeOf (fun e => e.id = 221 && oui.isPrefixOf e.data) es) ↔
      vendorSafe oui (framed m 0 n).2 0 (framed m 0 n).1 ∧
        ((framed m 0 n).2 = [] → vendorProper oui 0 (framed m 0 n).1) := by
  have stands := framed_stands m 0 n
  have all := framed_all m n
  refine sound_iff (vendor_along four (by omega) stands (framed_cut m 0 n) all) fun none_ r ends => ?_
  rw [none_, List.append_nil] at stands all
  exact vendor_list four (by omega) stands all ends

end Sound

/-- For every string and every limit, each of the four searches returns, reads below the limit, returns an element that
is whole, and of a list the first match, exactly if the string fits. -/
theorem search_sound_iff (m : Mem) (s : Search) : s.Sound m ↔ s.Fits m := by
  cases s with
  | getIe index limit =>
      have small := limit.toInt_lt
      rw [Search.Sound]
      simp only [Search.run, Search.trace, Search.limit]
      by_cases none_ : limit.toInt < 1
      · have zero : limit.toInt.toNat = 0 := by omega
        simp only [if_pos none_, Search.Fits, Search.limit, zero, framed_zero]
        exact iff_of_true ⟨0, none, rfl, nofun, nofun, sound_zero m _⟩ (.inr (.inl rfl))
      · have same : limit.toInt = (limit.toInt.toNat : Int) := by omega
        simp only [if_neg none_]
        rw [returns_iff]
        conv_lhs => rw [same]
        exact getIe_sound (by omega) (by omega)
  | getIeEx inLen eid oui w =>
      have small := inLen.toNat_lt
      rw [Search.Sound]
      simp only [Search.run, Search.trace, Search.limit]
      rw [returns_iff]
      refine (@sound_iff m _ _ (ExEnds m inLen.toNat eid oui w 0) _ _ (ex_ends_iff small) fun none_ r ends => ?_)
      have stands := framed_stands m 0 inLen.toNat
      have all := framed_all m inLen.toNat
      rw [none_, List.append_nil] at stands all
      exact ex_list stands all small ends
  | getWpsIe inLen w =>
      rw [Search.Sound]
      simp only [Search.run, Search.trace, Search.limit]
      rw [returns_iff]
      exact vendor_sound rfl w
  | getP2pIe inLen w =>
      rw [Search.Sound]
      simp only [Search.run, Search.trace, Search.limit]
      by_cases none_ : inLen.toInt ≤ 0
      · have zero : inLen.toInt.toNat = 0 := by omega
        simp only [if_pos none_, Search.Fits, Search.limit, zero, framed_zero]
        exact iff_of_true ⟨0, none, rfl, nofun, nofun, sound_zero m _⟩ ⟨nofun, fun _ => trivial⟩
      · simp only [if_neg none_]
        rw [returns_iff]
        exact vendor_sound rfl w

/-- A frame that ends behind the first byte of an SSID of 32. -/
def cutSsid : Mem := fun k => [0x00, 0x20, 0x61].getD k 0

/-- The SSID is returned, and its body is not below the limit. -/
theorem truncated_returned : ¬(Search.getIe 0 3).Sound cutSsid := by
  rintro ⟨turns, r, result, -, whole, -⟩
  cases turns with
  | zero => exact absurd ((show (none : Option (Option Nat)) = some r from result)) (by simp)
  | succ turns =>
      have first : (Search.getIe 0 3).run cutSsid (turns + 1) = some (some 0) := rfl
      cases first.symm.trans result
      exact absurd (whole 0 rfl) (by decide)

end Vmac.Ie
