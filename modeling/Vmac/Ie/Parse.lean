/-
# Vmac.Ie.Parse -- `rtw_ieee802_11_parse_elems`

* `eidCases`, `parseVendorSpecific`: the field of `struct rtw_ieee802_11_elems` an element is stored in.
* `parse`: the loop, over what is left, the position and the fields stored so far.
* `Element.IsKind`: what the elements of a field are, by id and by how their data begin.
* `parse_elems_correct`: each field has the last element of its kind, and the parser fails exactly for
  strings that are no lists of elements.
-/
import Vmac.Ie.Memory
import Vmac.Theory.Walk

namespace Vmac.Ie

open Theory.Elements Theory.Walk Security

set_option autoImplicit false

/-! ## The parser -/

/-- The fields of `struct rtw_ieee802_11_elems`. -/
inductive Field where
  | ssid | suppRates | fhParams | dsParams | cfParams | tim | ibssParams | challenge | erpInfo | extSuppRates
  | wpaIe | rsnIe | wme | wmeTspec | wpsIe | powerCap | suppChannels | mdie | ftie | timeoutInt | htCapabilities
  | htOperation | vendorHtCap | vhtCapabilities | vhtOperation | vhtOpModeNotify
deriving DecidableEq

/-- Each field is a pointer and a length in a byte; NULL is `none`. -/
structure Elems where
  ptr : Field → Option Nat
  len : Field → UInt8

namespace Elems

/-- `_rtw_memset(elems, 0, sizeof(*elems))`. -/
def cleared : Elems := ⟨fun _ => none, fun _ => 0⟩

def store (elems : Elems) (pos : Nat) (elen : UInt8) : Option Field → Elems
  | none => elems
  | some f =>
    { ptr := fun g => if g = f then some pos else elems.ptr g
      len := fun g => if g = f then elen else elems.len g }

end Elems

/-- The cases of `switch (id)` other than the vendor's. -/
def eidCases : List (UInt8 × Field) :=
  [(0, .ssid), (1, .suppRates), (2, .fhParams), (3, .dsParams), (4, .cfParams), (5, .tim), (6, .ibssParams),
    (16, .challenge), (42, .erpInfo), (50, .extSuppRates), (48, .rsnIe), (33, .powerCap), (36, .suppChannels),
    (54, .mdie), (55, .ftie), (56, .timeoutInt), (45, .htCapabilities), (61, .htOperation), (191, .vhtCapabilities),
    (192, .vhtOperation), (199, .vhtOpModeNotify)]

def widVendorSpecific : UInt8 := 221

def ouiMicrosoft : Nat := 0x0050f2
def ouiBroadcom : Nat := 0x00904c

def getBe24 (m : Mem) (a : Nat) : Nat := (m a).toNat * 65536 + (m (a + 1)).toNat * 256 + (m (a + 2)).toNat

/-- `rtw_ieee802_11_parse_vendor_specific`: the field the element is stored in, and none where it returns -1. -/
def parseVendorSpecific (m : Mem) (pos elen : Nat) : Option Field :=
  if elen < 4 then none
  else if getBe24 m pos = ouiMicrosoft then
    if m (pos + 3) = 1 then some .wpaIe
    else if m (pos + 3) = 2 then
      if elen < 5 then none
      else if m (pos + 4) = 0 ∨ m (pos + 4) = 1 then some .wme
      else if m (pos + 4) = 2 then some .wmeTspec
      else none
    else if m (pos + 3) = 4 then some .wpsIe
    else none
  else if getBe24 m pos = ouiBroadcom then
    if m (pos + 3) = 0x33 then some .vendorHtCap else none
  else none

/-- What it reads. -/
def vendorLooks (m : Mem) (pos elen : Nat) : List Nat :=
  if elen < 4 then []
  else [pos, pos + 1, pos + 2] ++
    if getBe24 m pos = ouiMicrosoft then
      if m (pos + 3) = 2 ∧ 5 ≤ elen then [pos + 3, pos + 4] else [pos + 3]
    else if getBe24 m pos = ouiBroadcom then [pos + 3]
    else []

inductive ParseRes where
  | parseOK
  | parseUnknown
  | parseFailed
deriving DecidableEq

/-- The variables of `rtw_ieee802_11_parse_elems`. -/
structure Parsing where
  left : Nat
  pos : Nat
  elems : Elems
  unknown : Nat

/-- The field of the element whose body is at `pos`. -/
def fieldAt (m : Mem) (id : UInt8) (pos elen : Nat) : Option Field :=
  if id = widVendorSpecific then parseVendorSpecific m pos elen else eidCases.lookup id

namespace Parsing

variable (m : Mem) (s : Parsing)

def id : UInt8 := m s.pos

def elen : UInt8 := m (s.pos + 1)

/-- `left` behind the header. -/
def behind : Nat := s.left - 2

def field : Option Field := fieldAt m (s.id m) (s.pos + 2) (s.elen m).toNat

/-- The element is stored or counted as unknown, and passed. -/
def next : Parsing where
  left := s.behind - (s.elen m).toNat
  pos := s.pos + 2 + (s.elen m).toNat
  elems := s.elems.store (s.pos + 2) (s.elen m) (s.field m)
  unknown := if s.field m = none then s.unknown + 1 else s.unknown

end Parsing

def parse (m : Mem) : Loop Parsing Nat (ParseRes × Elems) where
  looks s :=
    if 2 ≤ s.left then
      [s.pos, s.pos + 1] ++
        if s.behind < (s.elen m).toNat then []
        else if s.id m = widVendorSpecific then vendorLooks m (s.pos + 2) (s.elen m).toNat
        else []
    else []
  round s :=
    if 2 ≤ s.left then
      if s.behind < (s.elen m).toNat then .inl (.parseFailed, s.elems) else .inr (s.next m)
    else if s.left ≠ 0 then .inl (.parseFailed, s.elems)
    else if s.unknown ≠ 0 then .inl (.parseUnknown, s.elems)
    else .inl (.parseOK, s.elems)

/-- Before the loop. -/
def parseStart (len : Nat) : Parsing := ⟨len, 0, .cleared, 0⟩

/-! ## Kinds of elements -/

namespace Field

/-- The id of the elements of a field. -/
def eid : Field → UInt8
  | ssid => 0
  | suppRates => 1
  | fhParams => 2
  | dsParams => 3
  | cfParams => 4
  | tim => 5
  | ibssParams => 6
  | challenge => 16
  | erpInfo => 42
  | extSuppRates => 50
  | rsnIe => 48
  | powerCap => 33
  | suppChannels => 36
  | mdie => 54
  | ftie => 55
  | timeoutInt => 56
  | htCapabilities => 45
  | htOperation => 61
  | vhtCapabilities => 191
  | vhtOperation => 192
  | vhtOpModeNotify => 199
  | wpaIe | wme | wmeTspec | wpsIe | vendorHtCap => 221

/-- How their data begin: OUI, type and subtype of the vendors'. -/
def openings : Field → List (List UInt8)
  | wpaIe => [[0x00, 0x50, 0xf2, 1]]
  | wme => [[0x00, 0x50, 0xf2, 2, 0], [0x00, 0x50, 0xf2, 2, 1]]
  | wmeTspec => [[0x00, 0x50, 0xf2, 2, 2]]
  | wpsIe => [[0x00, 0x50, 0xf2, 4]]
  | vendorHtCap => [[0x00, 0x90, 0x4c, 0x33]]
  | _ => [[]]

end Field

/-- The element is one of a field. -/
def IsKind (f : Field) (e : Element) : Prop := e.id = f.eid ∧ ∃ opening ∈ f.openings, opening <+: e.data

/-- Where the data of the last element of a field begin, and the element. -/
def LastOf (f : Field) (es : List Element) (p : Nat) (e : Element) : Prop :=
  ∃ pre post, es = pre ++ e :: post ∧ IsKind f e ∧ (∀ g ∈ post, ¬IsKind f g) ∧ p = (bytesOf pre).length + 2

section Kinds

variable {m : Mem} {p : Nat} {e : Element} {s : List UInt8}

theorem getBe24_eq_iff (m : Mem) (a : Nat) (b₀ b₁ b₂ : UInt8) :
    getBe24 m a = b₀.toNat * 65536 + b₁.toNat * 256 + b₂.toNat ↔ m a = b₀ ∧ m (a + 1) = b₁ ∧ m (a + 2) = b₂ := by
  have bound₀ := (m a).toNat_lt
  have bound₁ := (m (a + 1)).toNat_lt
  have bound₂ := (m (a + 2)).toNat_lt
  have bound₁' := b₁.toNat_lt
  have bound₂' := b₂.toNat_lt
  rw [getBe24, ← UInt8.toNat_inj, ← UInt8.toNat_inj, ← UInt8.toNat_inj]
  omega

theorem microsoft_iff (m : Mem) (a : Nat) :
    getBe24 m a = ouiMicrosoft ↔ m a = 0x00 ∧ m (a + 1) = 0x50 ∧ m (a + 2) = 0xf2 :=
  getBe24_eq_iff m a 0x00 0x50 0xf2

theorem broadcom_iff (m : Mem) (a : Nat) :
    getBe24 m a = ouiBroadcom ↔ m a = 0x00 ∧ m (a + 1) = 0x90 ∧ m (a + 2) = 0x4c :=
  getBe24_eq_iff m a 0x00 0x90 0x4c

theorem four_iff (stands : Stands m p e.data) (b₀ b₁ b₂ b₃ : UInt8) : [b₀, b₁, b₂, b₃] <+: e.data ↔
    4 ≤ e.data.length ∧ (m p = b₀ ∧ m (p + 1) = b₁ ∧ m (p + 2) = b₂) ∧ m (p + 3) = b₃ := by
  rw [stands.prefix_iff]
  simp [bytesAt, List.range_succ, and_assoc]

theorem five_iff (stands : Stands m p e.data) (b₀ b₁ b₂ b₃ b₄ : UInt8) : [b₀, b₁, b₂, b₃, b₄] <+: e.data ↔
    5 ≤ e.data.length ∧ (m p = b₀ ∧ m (p + 1) = b₁ ∧ m (p + 2) = b₂) ∧ m (p + 3) = b₃ ∧ m (p + 4) = b₄ := by
  rw [stands.prefix_iff]
  simp [bytesAt, List.range_succ, and_assoc]

theorem parseVendorSpecific_kind (stands : Stands m p e.data) (vendor : e.id = widVendorSpecific) {f : Field}
    (stored : parseVendorSpecific m p e.data.length = some f) : IsKind f e := by
  have four := four_iff stands
  have five := five_iff stands
  simp only [parseVendorSpecific, microsoft_iff, broadcom_iff] at stored
  split at stored
  · exact absurd stored (by simp)
  rename_i enough
  rw [Nat.not_lt] at enough
  split at stored
  · rename_i oui
    split at stored
    · rename_i type
      cases stored
      exact ⟨vendor, _, List.mem_singleton_self _, (four ..).mpr ⟨enough, oui, type⟩⟩
    split at stored
    · rename_i type
      split at stored
      · exact absurd stored (by simp)
      rename_i subtyped
      rw [Nat.not_lt] at subtyped
      split at stored
      · rename_i subtype
        cases stored
        rcases subtype with info | param
        · exact ⟨vendor, _, List.mem_cons_self, (five ..).mpr ⟨subtyped, oui, type, info⟩⟩
        · exact ⟨vendor, _, List.mem_cons_of_mem _ List.mem_cons_self, (five ..).mpr ⟨subtyped, oui, type, param⟩⟩
      split at stored
      · rename_i subtype
        cases stored
        exact ⟨vendor, _, List.mem_singleton_self _, (five ..).mpr ⟨subtyped, oui, type, subtype⟩⟩
      · exact absurd stored (by simp)
    split at stored
    · rename_i type
      cases stored
      exact ⟨vendor, _, List.mem_singleton_self _, (four ..).mpr ⟨enough, oui, type⟩⟩
    · exact absurd stored (by simp)
  split at stored
  · rename_i oui
    split at stored
    · rename_i type
      cases stored
      exact ⟨vendor, _, List.mem_singleton_self _, (four ..).mpr ⟨enough, oui, type⟩⟩
    · exact absurd stored (by simp)
  · exact absurd stored (by simp)

theorem parseVendorSpecific_of_kind (stands : Stands m p e.data) (vendor : e.id = widVendorSpecific) {f : Field}
    (kind : IsKind f e) : parseVendorSpecific m p e.data.length = some f := by
  obtain ⟨id, opening, member, front⟩ := kind
  rw [vendor] at id
  rw [parseVendorSpecific]
  simp only [microsoft_iff, broadcom_iff]
  cases f <;> first
    | exact absurd id (by decide)
    | (simp only [Field.openings, List.mem_cons, List.not_mem_nil, or_false] at member)
  case wpaIe =>
    subst member
    obtain ⟨enough, oui, type⟩ := (four_iff stands ..).mp front
    rw [if_neg (by omega), if_pos oui, if_pos type]
  case wme =>
    rcases member with rfl | rfl
    · obtain ⟨enough, oui, type, subtype⟩ := (five_iff stands ..).mp front
      rw [if_neg (by omega), if_pos oui, type, if_neg (by decide), if_pos rfl, if_neg (by omega), if_pos (.inl subtype)]
    · obtain ⟨enough, oui, type, subtype⟩ := (five_iff stands ..).mp front
      rw [if_neg (by omega), if_pos oui, type, if_neg (by decide), if_pos rfl, if_neg (by omega), if_pos (.inr subtype)]
  case wmeTspec =>
    subst member
    obtain ⟨enough, oui, type, subtype⟩ := (five_iff stands ..).mp front
    rw [if_neg (by omega), if_pos oui, type, if_neg (by decide), if_pos rfl, if_neg (by omega), subtype,
      if_neg (by decide), if_pos rfl]
  case wpsIe =>
    subst member
    obtain ⟨enough, oui, type⟩ := (four_iff stands ..).mp front
    rw [if_neg (by omega), if_pos oui, type, if_neg (by decide), if_neg (by decide), if_pos rfl]
  case vendorHtCap =>
    subst member
    obtain ⟨enough, oui, type⟩ := (four_iff stands ..).mp front
    obtain ⟨first, second, third⟩ := oui
    rw [if_neg (by omega), first, second, third, if_neg (by decide), if_pos (by decide), if_pos type]

/-- Each case of the switch is one field, whose elements may begin with anything. -/
theorem lookup_iff (f : Field) (id : UInt8) : eidCases.lookup id = some f ↔ id = f.eid ∧ f.openings = [[]] := by
  constructor
  · intro found
    obtain ⟨pre, post, split, -⟩ := List.lookup_eq_some_iff.mp found
    have all : ∀ c ∈ eidCases, c.1 = c.2.eid ∧ c.2.openings = [[]] := by decide
    exact all (id, f) (split ▸ List.mem_append_right _ List.mem_cons_self)
  · rintro ⟨rfl, any⟩
    cases f <;> first
      | rfl
      | exact absurd any (by decide)

/-- The parser tells the elements of a field. -/
theorem fieldAt_iff (stands : Stands m p (e.bytes ++ s)) (f : Field) :
    fieldAt m e.id (p + 2) e.data.length = some f ↔ IsKind f e := by
  have data : Stands m (p + 2) e.data := stands.data
  rw [fieldAt]
  split
  · rename_i vendor
    exact ⟨parseVendorSpecific_kind data vendor, parseVendorSpecific_of_kind data vendor⟩
  · rename_i other
    rw [lookup_iff f e.id, IsKind]
    constructor
    · rintro ⟨id, any⟩
      exact ⟨id, [], by simp [any], List.nil_prefix⟩
    · rintro ⟨id, -⟩
      refine ⟨id, ?_⟩
      rw [id] at other
      cases f <;> first
        | rfl
        | exact absurd rfl other

theorem kind_unique {f g : Field} (one : IsKind f e) (two : IsKind g e) : g = f := by
  have stands : Stands (fun k => e.bytes.getD k 0) 0 (e.bytes ++ []) := by
    rw [List.append_nil]
    exact List.ext_getElem (length_bytesAt ..) fun k _ inside => by
      simp [bytesAt, List.getElem?_eq_getElem inside]
  exact Option.some.inj (((fieldAt_iff stands g).mpr two).symm.trans ((fieldAt_iff stands f).mpr one))

end Kinds

/-! ## Runs -/

section Run

variable {m : Mem} {good : Nat → Prop}

/-- The fields behind some elements that begin at `p`. -/
def stored (m : Mem) : Nat → Elems → List Element → Elems
  | _, elems, [] => elems
  | p, elems, e :: es =>
    stored m (p + e.bytes.length) (elems.store (p + 2) (m (p + 1)) (fieldAt m e.id (p + 2) e.data.length)) es

theorem vendorLooks_inside (m : Mem) (pos elen : Nat) : ∀ a ∈ vendorLooks m pos elen, pos ≤ a ∧ a < pos + elen := by
  intro a member
  unfold vendorLooks at member
  split at member
  · exact absurd member List.not_mem_nil
  rename_i enough
  rw [List.mem_append] at member
  rcases member with front | back
  · simp only [List.mem_cons, List.not_mem_nil, or_false] at front
    omega
  split at back
  · split at back <;> simp only [List.mem_cons, List.not_mem_nil, or_false] at back <;> omega
  · split at back
    · simp only [List.mem_cons, List.not_mem_nil, or_false] at back
      omega
    · exact absurd back List.not_mem_nil

/-- A whole element is stored and passed. -/
theorem parse_element {e : Element} {s : List UInt8} {p : Nat} (stands : Stands m p (e.bytes ++ s))
    (inside : ∀ a, p ≤ a → a < p + e.bytes.length → good a) (elems : Elems) (unknown : Nat) :
    ∃ unknown', ∀ r, (parse m).Ends good ⟨(e.bytes ++ s).length, p, elems, unknown⟩ r ↔
      (parse m).Ends good ⟨s.length, p + e.bytes.length,
        elems.store (p + 2) (m (p + 1)) (fieldAt m e.id (p + 2) e.data.length), unknown'⟩ r := by
  obtain ⟨id, length⟩ := stands.header
  have size : (e.bytes ++ s).length = e.data.length + 2 + s.length := by
    rw [List.length_append, Element.length_bytes]
  let before : Parsing := ⟨(e.bytes ++ s).length, p, elems, unknown⟩
  have round : (parse m).round before = .inr (before.next m) := by
    have enough : 2 ≤ before.left := by show 2 ≤ (e.bytes ++ s).length; omega
    have whole : ¬before.behind < (before.elen m).toNat := by
      show ¬(e.bytes ++ s).length - 2 < (m (p + 1)).toNat
      omega
    simp only [parse]
    rw [if_pos enough, if_neg whole]
  refine ⟨(before.next m).unknown, fun r => ?_⟩
  have next : before.next m = ⟨s.length, p + e.bytes.length,
      elems.store (p + 2) (m (p + 1)) (fieldAt m e.id (p + 2) e.data.length), (before.next m).unknown⟩ := by
    simp only [Parsing.next, Parsing.behind, Parsing.elen, Parsing.field, Parsing.id, before, id, length, size,
      Element.length_bytes]
    congr 1
    · omega
    · omega
  rw [← next]
  refine (Loop.ends_of_again round).trans (and_iff_right ?_)
  intro a member
  rw [Element.length_bytes] at inside
  simp only [parse] at member
  split at member
  · rw [List.mem_append] at member
    rcases member with header | body
    · simp only [List.mem_cons, List.not_mem_nil, or_false, before] at header
      exact inside a (by omega) (by omega)
    · split at body
      · exact absurd body List.not_mem_nil
      · split at body
        · obtain ⟨low, high⟩ := vendorLooks_inside _ _ _ a body
          simp only [before, Parsing.elen] at low high
          exact inside a (by omega) (by omega)
        · exact absurd body List.not_mem_nil
  · exact absurd member List.not_mem_nil

/-- All whole elements are. -/
theorem parse_elements {es : List Element} {s : List UInt8} {p : Nat} (stands : Stands m p (bytesOf es ++ s))
    (inside : ∀ a, p ≤ a → a < p + (bytesOf es).length → good a) (elems : Elems) (unknown : Nat) :
    ∃ unknown', ∀ r, (parse m).Ends good ⟨(bytesOf es ++ s).length, p, elems, unknown⟩ r ↔
      (parse m).Ends good ⟨s.length, p + (bytesOf es).length, stored m p elems es, unknown'⟩ r := by
  induction es generalizing p unknown elems with
  | nil => exact ⟨unknown, fun _ => Iff.rfl⟩
  | cons e es ih =>
      rw [bytesOf_cons, List.append_assoc] at stands
      rw [bytesOf_cons, List.length_append] at inside
      obtain ⟨unknown₁, first⟩ := parse_element stands (fun a low high => inside a low (by omega)) elems unknown
      obtain ⟨unknown₂, rest⟩ := ih stands.right (fun a low high => inside a (by omega) (by omega))
        (elems.store (p + 2) (m (p + 1)) (fieldAt m e.id (p + 2) e.data.length)) unknown₁
      refine ⟨unknown₂, fun r => ?_⟩
      rw [bytesOf_cons, List.append_assoc, @List.length_append _ e.bytes (bytesOf es), ← Nat.add_assoc]
      exact (first r).trans (rest r)

/-- The remainder: nothing is behind the last element, or the string ends too early. -/
theorem parse_cut {rest : List UInt8} {p : Nat} (stands : Stands m p rest) (cut : Cut rest)
    (inside : ∀ a, p ≤ a → a < p + rest.length → good a) (elems : Elems) (unknown : Nat) :
    ∃ res, (parse m).Ends good ⟨rest.length, p, elems, unknown⟩ (res, elems) ∧ (res = .parseFailed ↔ rest ≠ []) := by
  rcases cut.cases with rfl | ⟨b, rfl⟩ | ⟨id, length, s, rfl, short⟩
  · by_cases known : unknown = 0
    · refine ⟨.parseOK, .done nofun ?_, by simp⟩
      simp [parse, known]
    · refine ⟨.parseUnknown, .done nofun ?_, by simp⟩
      simp [parse, known]
  · exact ⟨.parseFailed, .done nofun (by simp [parse]), by simp⟩
  · have there : m (p + 1) = length := stands.byte (k := 1) (by simp)
    have missing : (⟨(id :: length :: s).length, p, elems, unknown⟩ : Parsing).behind <
        ((⟨(id :: length :: s).length, p, elems, unknown⟩ : Parsing).elen m).toNat := by
      show (id :: length :: s).length - 2 < (m (p + 1)).toNat
      rw [there, List.length_cons, List.length_cons]
      omega
    refine ⟨.parseFailed, .done ?_ ?_, by simp⟩
    · intro a member
      simp only [parse] at member
      rw [if_pos (by simp), if_pos missing, List.append_nil] at member
      simp only [List.mem_cons, List.not_mem_nil, or_false] at member
      exact inside a (by omega) (by simp; omega)
    · simp only [parse]
      rw [if_pos (by simp), if_pos missing]

theorem stored_append (m : Mem) (p : Nat) (elems : Elems) (es es' : List Element) :
    stored m p elems (es ++ es') = stored m (p + (bytesOf es).length) (stored m p elems es) es' := by
  induction es generalizing p elems with
  | nil => rfl
  | cons e es ih => rw [List.cons_append, stored, stored, ih, bytesOf_cons, List.length_append, Nat.add_assoc]

/-- A field has the last element of its kind. -/
theorem stored_field {es : List Element} {s : List UInt8} (stands : Stands m 0 (bytesOf es ++ s)) (f : Field) :
    ((stored m 0 .cleared es).ptr f = none ∧ ∀ e ∈ es, ¬IsKind f e) ∨
      ∃ p e, (stored m 0 .cleared es).ptr f = some p ∧ ((stored m 0 .cleared es).len f).toNat = e.data.length ∧
        LastOf f es p e := by
  induction es using List.reverseRecOn generalizing s with
  | nil => exact .inl ⟨rfl, nofun⟩
  | append_singleton es e ih =>
      rw [bytesOf_append, bytesOf_cons, bytesOf_nil, List.append_nil, List.append_assoc] at stands
      have here : Stands m (0 + (bytesOf es).length) (e.bytes ++ s) := stands.right
      have kind := fieldAt_iff here
      rw [stored_append, stored, stored]
      by_cases last : IsKind f e
      · right
        rw [(kind f).mpr last]
        refine ⟨(bytesOf es).length + 2, e, ?_, ?_, es, [], rfl, last, nofun, rfl⟩
        · simp [Elems.store]
        · simpa [Elems.store] using here.header.2
      · have stays : ∀ pos elen, ((stored m 0 .cleared es).store pos elen
            (fieldAt m e.id (0 + (bytesOf es).length + 2) e.data.length)).ptr f = (stored m 0 .cleared es).ptr f ∧
            ((stored m 0 .cleared es).store pos elen
              (fieldAt m e.id (0 + (bytesOf es).length + 2) e.data.length)).len f = (stored m 0 .cleared es).len f := by
          intro pos elen
          cases other : fieldAt m e.id (0 + (bytesOf es).length + 2) e.data.length with
          | none => exact ⟨rfl, rfl⟩
          | some g =>
              have apart : f ≠ g := by
                rintro rfl
                exact last ((kind f).mp other)
              simp [Elems.store, apart]
        rw [(stays _ _).1, (stays _ _).2]
        rcases ih stands with ⟨none_, lacks⟩ | ⟨p, e', some_, length, pre, post, rfl, is, behind, place⟩
        · refine .inl ⟨none_, fun e' member => ?_⟩
          rcases List.mem_append.mp member with before | this
          · exact lacks e' before
          · exact List.mem_singleton.mp this ▸ last
        · refine .inr ⟨p, e', some_, length, pre, post ++ [e], by simp, is, fun g member => ?_, place⟩
          rcases List.mem_append.mp member with before | this
          · exact behind g before
          · exact List.mem_singleton.mp this ▸ last

end Run

/-! ## The theorem -/

/-- For every string the parser ends and reads inside it; it fails exactly if the string is no list of elements, and of
a list it stores for each field the data of the last element of that kind, with their length, or NULL. -/
theorem parse_elems_correct (m : Mem) (len : Nat) : ∃ turns res elems,
    (parse m).run turns (parseStart len) = some (res, elems) ∧
    (∀ a ∈ (parse m).trace turns (parseStart len), a < len) ∧
    (res = .parseFailed ↔ ¬∃ es, bytesAt m 0 len = bytesOf es) ∧
    ∀ es, bytesAt m 0 len = bytesOf es → ∀ f,
      (elems.ptr f = none ↔ ∀ e ∈ es, ¬IsKind f e) ∧
      ∀ p, elems.ptr f = some p → ∃ e, LastOf f es p e ∧ (elems.len f).toNat = e.data.length ∧
        bytesAt m p e.data.length = e.data := by
  have stands := framed_stands m 0 len
  have length := framed_length m 0 len
  have inside : ∀ a, 0 ≤ a → a < 0 + (bytesOf (framed m 0 len).1).length → a < len := fun a _ high => by omega
  obtain ⟨unknown, elements⟩ := parse_elements stands inside .cleared 0
  have cut : ∀ a, 0 + (bytesOf (framed m 0 len).1).length ≤ a →
      a < 0 + (bytesOf (framed m 0 len).1).length + (framed m 0 len).2.length → a < len := fun a _ high => by omega
  obtain ⟨res, ends, failed⟩ := parse_cut stands.right (framed_cut m 0 len) cut
    (stored m 0 .cleared (framed m 0 len).1) unknown
  obtain ⟨turns, run, trace⟩ := Loop.ends_iff_run.mp ((elements _).mpr ends)
  rw [List.length_append, length] at run trace
  refine ⟨turns, res, stored m 0 .cleared (framed m 0 len).1, run, trace, ?_, fun es list f => ?_⟩
  · rw [failed, eq_bytesOf_iff]
    rfl
  · have same := framed_of_bytesOf list
    rw [same] at stands ⊢
    rcases stored_field stands f with ⟨none_, lacks⟩ | ⟨p, e, some_, size, last⟩
    · exact ⟨iff_of_true none_ lacks, fun p some_ => absurd (none_.symm.trans some_) (by simp)⟩
    · have found := last
      obtain ⟨pre, post, rfl, kind, -, place⟩ := found
      refine ⟨iff_of_false (by simp [some_]) fun lacks => lacks e (by simp) kind, fun q some' => ?_⟩
      cases some_.symm.trans some'
      refine ⟨e, last, size, ?_⟩
      have whole : Stands m 0 (bytesOf pre ++ (e.bytes ++ bytesOf post)) := by simpa using stands
      rw [place, ← Nat.zero_add (bytesOf pre).length]
      exact whole.right.data

end Vmac.Ie
