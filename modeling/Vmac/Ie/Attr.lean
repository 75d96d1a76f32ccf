/-
# Vmac.Ie.Attr -- the three searches for an attribute, and the content wrappers

`rtw_get_wps_attr`, `rtw_get_p2p_attr` and `rtw_get_wfd_attr` step by the `u16` sum of a length of sixteen bits and the
size of the header.

* `WpsChain`, `TlvChain`: the attributes on the way, and what has to lie inside the element.
* `attr_sound_iff`: a search ends, stays inside and returns what lies inside exactly along such chains.
* `zero_step`: an attribute at which a search stands still.
-/
import Vmac.Ie.Memory
import Vmac.Theory.Walk

namespace Vmac.Ie

open Theory.Walk Security

set_option autoImplicit false

/-! ## The searches -/

def getBe16 (m : Mem) (a : Nat) : Nat := (m a).toNat * 256 + (m (a + 1)).toNat
def getLe16 (m : Mem) (a : Nat) : Nat := (m a).toNat + (m (a + 1)).toNat * 256

/-- A sum in a `u16`. -/
def u16 (n : Nat) : Nat := n % 2 ^ 16

/-- `_rtw_memcpy` of `len` bytes from `p` on. -/
def copies (p len : Nat) : List Nat := (List.range len).map (p + ·)

/-- An attribute that is found: where it begins, and `len_attr`. -/
abbrev Found : Type := Option (Nat × Nat)

/-- The loop of `rtw_get_wps_attr`, over `attr_ptr`; `buf`: `buf_attr` is not NULL. -/
def wpsAttrLoop (m : Mem) (wpsIelen target : Nat) (buf : Bool) : Loop Nat Nat Found where
  looks p :=
    if p < wpsIelen then
      [p, p + 1, p + 2, p + 3] ++
        if getBe16 m p = target ∧ buf then copies p (u16 (getBe16 m (p + 2) + 4)) else []
    else []
  round p :=
    if p < wpsIelen then
      let attrLen := u16 (getBe16 m (p + 2) + 4)
      if getBe16 m p = target then .inl (some (p, attrLen)) else .inr (p + attrLen)
    else .inl none

/-- The loop of `rtw_get_p2p_attr` and of `rtw_get_wfd_attr`, which read the length in different byte orders. -/
def tlvAttrLoop (dataLen : Nat → Nat) (m : Mem) (ielen target : Nat) (buf : Bool) : Loop Nat Nat Found where
  looks p :=
    if p + 3 ≤ ielen then
      [p, p + 1, p + 2] ++
        if p + u16 (dataLen (p + 1) + 3) ≤ ielen ∧ (m p).toNat = target ∧ buf then
          copies p (u16 (dataLen (p + 1) + 3))
        else []
    else []
  round p :=
    if p + 3 ≤ ielen then
      let attrLen := u16 (dataLen (p + 1) + 3)
      if ielen < p + attrLen then .inl none
      else if (m p).toNat = target then .inl (some (p, attrLen))
      else .inr (p + attrLen)
    else .inl none

def p2pAttrLoop (m : Mem) (p2pIelen target : Nat) (buf : Bool) : Loop Nat Nat Found :=
  tlvAttrLoop (getLe16 m) m p2pIelen target buf

def wfdAttrLoop (m : Mem) (wfdIelen target : Nat) (buf : Bool) : Loop Nat Nat Found :=
  tlvAttrLoop (getBe16 m) m wfdIelen target buf

/-- `rtw_get_wps_attr_content`, `rtw_get_p2p_attr_content` and `rtw_get_wfd_attr_content`: the pointer, and
`len_content` as a `uint`. -/
def attrContent (header : Nat) : Found → Found
  | some (p, attrLen) => if attrLen ≠ 0 then some (p + header, Ap.uintSub attrLen header) else none
  | none => none

/-- A search and its arguments but the element. -/
inductive AttrSearch where
  | wps (wpsIelen : UInt32) (target : UInt16) (buf : Bool)
  | p2p (p2pIelen : UInt32) (target : UInt8) (buf : Bool)
  | wfd (wfdIelen : UInt32) (target : UInt8) (buf : Bool)

namespace AttrSearch

variable (m : Mem)

def ielen : AttrSearch → Nat
  | wps n _ _ | p2p n _ _ | wfd n _ _ => n.toNat

def oui : AttrSearch → List UInt8
  | wps .. => [0x00, 0x50, 0xf2, 0x04]
  | p2p .. => [0x50, 0x6f, 0x9a, 0x09]
  | wfd .. => [0x50, 0x6f, 0x9a, 0x0a]

/-- The size of the header of an attribute. -/
def header : AttrSearch → Nat
  | wps .. => 4
  | p2p .. | wfd .. => 3

/-- The length that the attribute at `p` declares. -/
def declared (s : AttrSearch) (p : Nat) : Nat :=
  match s with
  | wps .. => getBe16 m (p + 2)
  | p2p .. => getLe16 m (p + 1)
  | wfd .. => getBe16 m (p + 1)

def loop : AttrSearch → Loop Nat Nat Found
  | wps n target buf => wpsAttrLoop m n.toNat target.toNat buf
  | p2p n target buf => p2pAttrLoop m n.toNat target.toNat buf
  | wfd n target buf => wfdAttrLoop m n.toNat target.toNat buf

/-- The length is not looked at before the first byte; only `rtw_get_wps_attr` leaves that out. -/
def tooShort : AttrSearch → Bool
  | wps .. => false
  | p2p n _ _ | wfd n _ _ => n.toNat ≤ 6

/-- The id and the OUI are those of the element. -/
def opens (s : AttrSearch) : Bool := m 0 = 221 ∧ bytesAt m 2 4 = s.oui

/-- The result, if the function returns within some rounds of its loop. -/
def run (s : AttrSearch) (turns : Nat) : Option Found :=
  if s.tooShort || !s.opens m then some none else (s.loop m).run turns 6

/-- The places it reads in them. -/
def trace (s : AttrSearch) (turns : Nat) : List Nat :=
  if s.tooShort then []
  else 0 :: (if m 0 = 221 then [2, 3, 4, 5] else []) ++ if s.opens m then (s.loop m).trace turns 6 else []

/-- Header and declared data lie in the element, and the content that the wrapper returns in the attribute. -/
def Inside (s : AttrSearch) (r : Found) : Prop :=
  ∀ p attrLen, r = some (p, attrLen) → p + s.header + s.declared m p ≤ s.ielen ∧
    ∀ q len, attrContent s.header r = some (q, len) → p ≤ q ∧ q + len ≤ p + s.header + s.declared m p

/-- It returns, has read inside the element only, and so lies what is returned. -/
def Sound (s : AttrSearch) : Prop :=
  ∃ turns r, s.run m turns = some r ∧ (∀ a ∈ s.trace m turns, a < s.ielen) ∧ s.Inside m r

end AttrSearch

/-! ## Chains of attributes -/

/-- From `p` on, up to the attribute that is searched for, every header lies in the element; that attribute lies in it
too, and the sum of its length and the header fits its `u16`, or is zero in it. -/
inductive WpsChain (m : Mem) (n target : Nat) : Nat → Prop where
  | behind {p : Nat} (behind : n ≤ p) : WpsChain m n target p
  | found {p : Nat} (whole : p + 4 + getBe16 m (p + 2) ≤ n) (id : getBe16 m p = target)
      (sum : getBe16 m (p + 2) + 4 ≤ 2 ^ 16) : WpsChain m n target p
  | next {p : Nat} (header : p + 4 ≤ n) (id : getBe16 m p ≠ target)
      (rest : WpsChain m n target (p + u16 (getBe16 m (p + 2) + 4))) : WpsChain m n target p

/-- The same for the searches that end at an attribute that is too long for the element. -/
inductive TlvChain (dataLen : Nat → Nat) (m : Mem) (n target : Nat) : Nat → Prop where
  | behind {p : Nat} (behind : n < p + 3) : TlvChain dataLen m n target p
  | beyond {p : Nat} (beyond : n < p + u16 (dataLen (p + 1) + 3)) : TlvChain dataLen m n target p
  | found {p : Nat} (whole : p + 3 + dataLen (p + 1) ≤ n) (id : (m p).toNat = target)
      (sum : dataLen (p + 1) + 3 ≤ 2 ^ 16) : TlvChain dataLen m n target p
  | next {p : Nat} (header : p + 3 ≤ n) (id : (m p).toNat ≠ target)
      (rest : TlvChain dataLen m n target (p + u16 (dataLen (p + 1) + 3))) : TlvChain dataLen m n target p

namespace AttrSearch

/-- The elements for which the search is sound. -/
def Fits (m : Mem) : AttrSearch → Prop
  | wps n target _ =>
    0 < n.toNat ∧ (m 0 = 221 → 6 ≤ n.toNat ∧ (bytesAt m 2 4 = [0x00, 0x50, 0xf2, 0x04] →
      WpsChain m n.toNat target.toNat 6))
  | p2p n target _ =>
    6 < n.toNat → m 0 = 221 → bytesAt m 2 4 = [0x50, 0x6f, 0x9a, 0x09] →
      TlvChain (getLe16 m) m n.toNat target.toNat 6
  | wfd n target _ =>
    6 < n.toNat → m 0 = 221 → bytesAt m 2 4 = [0x50, 0x6f, 0x9a, 0x0a] →
      TlvChain (getBe16 m) m n.toNat target.toNat 6

end AttrSearch

section Sums

variable {m : Mem} {p n : Nat}

theorem getBe16_lt (m : Mem) (a : Nat) : getBe16 m a < 2 ^ 16 := by
  have high := (m a).toNat_lt
  have low := (m (a + 1)).toNat_lt
  rw [getBe16]
  omega

theorem getLe16_lt (m : Mem) (a : Nat) : getLe16 m a < 2 ^ 16 := by
  have low := (m a).toNat_lt
  have high := (m (a + 1)).toNat_lt
  rw [getLe16]
  omega

/-- What the search returns lies inside exactly if the attribute does and the sum does not end up inside the header. -/
theorem inside_found_iff (s : AttrSearch) : s.Inside m (some (p, u16 (s.declared m p + s.header))) ↔
    p + s.header + s.declared m p ≤ s.ielen ∧ s.declared m p + s.header ≤ 2 ^ 16 := by
  have size : s.declared m p < 2 ^ 16 := by
    cases s
    · exact getBe16_lt m _
    · exact getLe16_lt m _
    · exact getBe16_lt m _
  have header : s.header = 4 ∨ s.header = 3 := by
    cases s
    · exact .inl rfl
    · exact .inr rfl
    · exact .inr rfl
  have content (q len : Nat) : attrContent s.header (some (p, u16 (s.declared m p + s.header))) = some (q, len) ↔
      u16 (s.declared m p + s.header) ≠ 0 ∧ q = p + s.header ∧
        len = Ap.uintSub (u16 (s.declared m p + s.header)) s.header := by
    simp only [attrContent]
    split <;> simp_all [eq_comm]
  constructor
  · intro inside
    obtain ⟨whole, within⟩ := inside p _ rfl
    refine ⟨whole, ?_⟩
    by_contra large
    obtain ⟨-, beyond⟩ := within _ _ ((content _ _).mpr ⟨by rw [u16]; omega, rfl, rfl⟩)
    rw [Ap.uintSub, u16] at beyond
    omega
  · rintro ⟨whole, sum⟩ q len same
    cases same
    refine ⟨whole, fun q len there => ?_⟩
    obtain ⟨nonzero, rfl, rfl⟩ := (content _ _).mp there
    rw [u16] at nonzero
    rw [Ap.uintSub, u16]
    omega

theorem inside_none (s : AttrSearch) : s.Inside m none := nofun

end Sums

/-! ## Runs -/

section Runs

variable {m : Mem} {n target p : Nat} {buf : Bool} {P : Found → Prop}

theorem mem_copies {a start len : Nat} (member : a ∈ copies start len) : a < start + len := by
  obtain ⟨k, inside, rfl⟩ := List.mem_map.mp member
  have := List.mem_range.mp inside
  omega

theorem u16_le (k : Nat) : u16 k ≤ k := Nat.mod_le _ _

theorem wpsChain_iff (none_ : P none)
    (found : ∀ p, P (some (p, u16 (getBe16 m (p + 2) + 4))) ↔
      p + 4 + getBe16 m (p + 2) ≤ n ∧ getBe16 m (p + 2) + 4 ≤ 2 ^ 16) :
    (∃ r, (wpsAttrLoop m n target buf).Ends (· < n) p r ∧ P r) ↔ WpsChain m n target p := by
  constructor
  · rintro ⟨r, ends, holds⟩
    induction ends with
    | @done p r here done =>
        simp only [wpsAttrLoop] at done
        split at done
        · split at done
          · rename_i id
            obtain rfl := Sum.inl.inj done
            obtain ⟨whole, sum⟩ := (found p).mp holds
            exact .found whole id sum
          · exact absurd done (by simp)
        · rename_i behind
          exact .behind (Nat.le_of_not_lt behind)
    | @again p q r here next rest ih =>
        simp only [wpsAttrLoop] at next
        split at next
        · rename_i below
          have header := here (p + 3) (by simp [wpsAttrLoop, below])
          split at next
          · exact absurd next (by simp)
          · rename_i id
            obtain rfl := Sum.inr.inj next
            exact .next header id (ih holds)
        · exact absurd next (by simp)
  · intro chain
    induction chain with
    | @behind p behind =>
        have stops : ¬p < n := Nat.not_lt.mpr behind
        exact ⟨none, .done (by simp [wpsAttrLoop, stops]) (by simp [wpsAttrLoop, stops]), none_⟩
    | @found p whole id sum =>
        have below : p < n := by omega
        refine ⟨_, .done (fun a member => ?_) (by simp only [wpsAttrLoop, if_pos below, if_pos id]),
          (found p).mpr ⟨whole, sum⟩⟩
        simp only [wpsAttrLoop, if_pos below, List.mem_append, List.mem_cons, List.not_mem_nil, or_false] at member
        rcases member with header | copy
        · omega
        · split at copy
          · have low := mem_copies copy
            have small := u16_le (getBe16 m (p + 2) + 4)
            omega
          · exact absurd copy List.not_mem_nil
    | @next p header id rest ih =>
        obtain ⟨r, ends, holds⟩ := ih
        have below : p < n := by omega
        refine ⟨r, .again (fun a member => ?_) (by simp only [wpsAttrLoop, if_pos below, if_neg id]) ends, holds⟩
        simp only [wpsAttrLoop, if_pos below, id, false_and, if_false, List.append_nil, List.mem_cons,
          List.not_mem_nil, or_false] at member
        omega

theorem tlvChain_iff {dataLen : Nat → Nat} (none_ : P none)
    (found : ∀ p, P (some (p, u16 (dataLen (p + 1) + 3))) ↔
      p + 3 + dataLen (p + 1) ≤ n ∧ dataLen (p + 1) + 3 ≤ 2 ^ 16) :
    (∃ r, (tlvAttrLoop dataLen m n target buf).Ends (· < n) p r ∧ P r) ↔ TlvChain dataLen m n target p := by
  constructor
  · rintro ⟨r, ends, holds⟩
    induction ends with
    | @done p r here done =>
        simp only [tlvAttrLoop] at done
        split at done
        · split at done
          · rename_i beyond
            exact .beyond beyond
          · split at done
            · rename_i id
              obtain rfl := Sum.inl.inj done
              obtain ⟨whole, sum⟩ := (found p).mp holds
              exact .found whole id sum
            · exact absurd done (by simp)
        · rename_i behind
          exact .behind (Nat.lt_of_not_le behind)
    | @again p q r here next rest ih =>
        simp only [tlvAttrLoop] at next
        split at next
        · rename_i header
          split at next
          · exact absurd next (by simp)
          · split at next
            · exact absurd next (by simp)
            · rename_i id
              obtain rfl := Sum.inr.inj next
              exact .next header id (ih holds)
        · exact absurd next (by simp)
  · intro chain
    have inside : ∀ p, ∀ a ∈ (tlvAttrLoop dataLen m n target buf).looks p, a < n := by
      intro p a member
      simp only [tlvAttrLoop] at member
      split at member
      · simp only [List.mem_append, List.mem_cons, List.not_mem_nil, or_false] at member
        rcases member with header | copy
        · omega
        · split at copy
          · rename_i whole
            have low := mem_copies copy
            omega
          · exact absurd copy List.not_mem_nil
      · exact absurd member List.not_mem_nil
    induction chain with
    | @behind p behind =>
        have stops : ¬p + 3 ≤ n := by omega
        exact ⟨none, .done (inside p) (by simp only [tlvAttrLoop, if_neg stops]), none_⟩
    | @beyond p beyond =>
        refine ⟨none, .done (inside p) ?_, none_⟩
        simp only [tlvAttrLoop, if_pos beyond, ite_self]
    | @found p whole id sum =>
        have small := u16_le (dataLen (p + 1) + 3)
        refine ⟨_, .done (inside p) ?_, (found p).mpr ⟨whole, sum⟩⟩
        simp only [tlvAttrLoop]
        rw [if_pos (by omega), if_neg (by omega), if_pos id]
    | @next p header id rest ih =>
        obtain ⟨r, ends, holds⟩ := ih
        by_cases beyond : n < p + u16 (dataLen (p + 1) + 3)
        · refine ⟨none, .done (inside p) ?_, none_⟩
          simp only [tlvAttrLoop, if_pos beyond, ite_self]
        · refine ⟨r, .again (inside p) ?_ ends, holds⟩
          simp only [tlvAttrLoop, if_pos header, if_neg beyond, if_neg id]

end Runs

/-! ## The theorem -/

theorem opens_iff {m : Mem} {s : AttrSearch} : s.opens m = true ↔ m 0 = 221 ∧ bytesAt m 2 4 = s.oui := by
  simp [AttrSearch.opens]

/-- What is asked of the element before its attributes are. -/
theorem attr_opened_iff {m : Mem} {s : AttrSearch} :
    s.Sound m ↔ (s.tooShort = false → 0 < s.ielen ∧ (m 0 = 221 → 6 ≤ s.ielen ∧ (bytesAt m 2 4 = s.oui →
      ∃ r, (s.loop m).Ends (· < s.ielen) 6 r ∧ s.Inside m r))) := by
  cases short : s.tooShort with
  | true =>
      refine iff_of_true ⟨0, none, ?_, ?_, inside_none s⟩ nofun
      · simp [AttrSearch.run, short]
      · simp [AttrSearch.trace, short]
  | false =>
      simp only [true_implies, AttrSearch.Sound, AttrSearch.run, AttrSearch.trace, short, Bool.false_or,
        Bool.false_eq_true, if_false]
      constructor
      · rintro ⟨turns, r, result, inside, holds⟩
        have first : 0 < s.ielen := inside 0 List.mem_cons_self
        refine ⟨first, fun id => ?_⟩
        have oui : 5 < s.ielen := inside 5 (by simp [id])
        refine ⟨by omega, fun same => ⟨r, ?_, holds⟩⟩
        have opened := opens_iff.mpr ⟨id, same⟩
        simp only [opened, Bool.not_true, Bool.false_eq_true, if_false, if_true] at result inside
        exact Loop.ends_iff_run.mpr ⟨turns, result, fun a member =>
          inside a (List.mem_cons_of_mem _ (List.mem_append_right _ member))⟩
      · rintro ⟨first, rest⟩
        have start (turns : Nat) (loop : s.opens m = true → ∀ a ∈ (s.loop m).trace turns 6, a < s.ielen) :
            ∀ a ∈ 0 :: (if m 0 = 221 then [2, 3, 4, 5] else []) ++
              if s.opens m = true then (s.loop m).trace turns 6 else [], a < s.ielen := by
          intro a member
          rw [List.cons_append, List.mem_cons, List.mem_append] at member
          rcases member with rfl | oui | later
          · exact first
          · split at oui
            · rename_i id
              have enough := (rest id).1
              simp only [List.mem_cons, List.not_mem_nil, or_false] at oui
              omega
            · exact absurd oui List.not_mem_nil
          · split at later
            · rename_i opened
              exact loop opened a later
            · exact absurd later List.not_mem_nil
        by_cases opened : s.opens m = true
        · obtain ⟨id, same⟩ := opens_iff.mp opened
          obtain ⟨r, ends, holds⟩ := (rest id).2 same
          obtain ⟨turns, result, inside⟩ := Loop.ends_iff_run.mp ends
          exact ⟨turns, r, by simpa [opened] using result, start turns fun _ => inside, holds⟩
        · exact ⟨0, none, by simp [opened], start 0 fun yes => absurd yes opened, inside_none s⟩

/-- Behind the test of the length nothing else is asked of it. -/
theorem longer_iff {n : Nat} {id oui chain : Prop} :
    (decide (n ≤ 6) = false → 0 < n ∧ (id → 6 ≤ n ∧ (oui → chain))) ↔ (6 < n → id → oui → chain) := by
  rw [decide_eq_false_iff_not, Nat.not_le]
  constructor
  · intro asked longer is same
    exact ((asked longer).2 is).2 same
  · intro asked longer
    exact ⟨by omega, fun is => ⟨by omega, asked longer is⟩⟩

/-- For every element, each of the three searches returns, reads inside it, returns an attribute that lies inside, and
its wrapper a content that lies inside the attribute, exactly if the element fits. -/
theorem attr_sound_iff (m : Mem) (s : AttrSearch) : s.Sound m ↔ s.Fits m := by
  rw [attr_opened_iff]
  cases s with
  | wps n target buf =>
      have chain : (∃ r, (wpsAttrLoop m n.toNat target.toNat buf).Ends (· < n.toNat) 6 r ∧ _) ↔ _ :=
        wpsChain_iff (inside_none (m := m) (.wps n target buf)) fun p => inside_found_iff (p := p) (.wps n target buf)
      simp only [AttrSearch.tooShort, true_implies, AttrSearch.Fits, AttrSearch.ielen, AttrSearch.oui,
        AttrSearch.loop, chain]
  | p2p n target buf =>
      have chain : (∃ r, (tlvAttrLoop (getLe16 m) m n.toNat target.toNat buf).Ends (· < n.toNat) 6 r ∧ _) ↔ _ :=
        tlvChain_iff (inside_none (m := m) (.p2p n target buf)) fun p => inside_found_iff (p := p) (.p2p n target buf)
      simp only [AttrSearch.tooShort, AttrSearch.Fits, AttrSearch.ielen, AttrSearch.oui, AttrSearch.loop,
        p2pAttrLoop, chain]
      exact longer_iff
  | wfd n target buf =>
      have chain : (∃ r, (tlvAttrLoop (getBe16 m) m n.toNat target.toNat buf).Ends (· < n.toNat) 6 r ∧ _) ↔ _ :=
        tlvChain_iff (inside_none (m := m) (.wfd n target buf)) fun p => inside_found_iff (p := p) (.wfd n target buf)
      simp only [AttrSearch.tooShort, AttrSearch.Fits, AttrSearch.ielen, AttrSearch.oui, AttrSearch.loop,
        wfdAttrLoop, chain]
      exact longer_iff

/-- A WPS element whose first attribute declares 65532 bytes. -/
def zeroStep : Mem := fun k => [221, 8, 0x00, 0x50, 0xf2, 0x04, 0x10, 0x4a, 0xff, 0xfc].getD k 0

/-- The search for another attribute stands still at it. -/
theorem zero_step : ¬(AttrSearch.wps 10 0x1041 false).Sound zeroStep := by
  rw [attr_opened_iff]
  intro asked
  obtain ⟨r, ends, -⟩ := (((asked rfl).2 rfl).2 (by decide))
  exact Loop.not_ends_of_cycle (by decide) ends

end Vmac.Ie
