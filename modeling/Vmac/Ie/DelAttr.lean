/-
# Vmac.Ie.DelAttr -- `rtw_del_p2p_attr` and `rtw_bss_ex_del_p2p_attr`

The attributes of a kind are deleted from each P2P element of a network; the element shrinks in place, then what is
behind it is moved up.

* `Attribute`: an attribute and its bytes; `Without`: an element without the attributes of a kind.
* `delP2pAttr_filter`: of the attributes of an element the others are left.
* `del_p2p_attr_keeps_list`: of a network, the elements with their other attributes.
-/
import Vmac.Ie.Attr
import Vmac.Ie.Remove

namespace Vmac.Ie

open Theory.Elements Theory.Walk Security

set_option autoImplicit false

/-! ## The functions -/

/-- A `WLAN_BSSID_EX`. -/
structure Network extends Ap.BssidEx where
  /-- `Reserved[0]`. -/
  reserved : UInt8

/-- `BSS_TYPE_PROB_REQ`. -/
def bssTypeProbReq : UInt8 := 2

/-- `BSS_EX_FIXED_IE_OFFSET`. -/
def Network.fixedIeOffset (b : Network) : Nat := if b.reserved = bssTypeProbReq then 0 else 12

/-- `rtw_get_p2p_ie`, if it returns within `turns` rounds; `uint` as `int`. -/
def getP2pIe (turns : Nat) (m : Mem) (inLen : Nat) : Option (Option Nat) :=
  (Search.getP2pIe (Int32.ofNat inLen) ⟨false, true⟩).run m turns

/-- `rtw_get_p2p_attr`, if it returns within `turns` rounds. -/
def getP2pAttr (turns : Nat) (m : Mem) (p2pIelen : Nat) (attrId : UInt8) : Option Found :=
  (AttrSearch.p2p (UInt32.ofNat p2pIelen) attrId false).run m turns

/-- The loop of `rtw_del_p2p_attr` on the element at `ie`: the memory, and `ielen`. -/
def delP2pAttrLoop (turns : Nat) (attrId : UInt8) (ie : Nat) : Nat → Mem → Nat → Option (Mem × Nat)
  | 0, _, _ => none
  | rounds + 1, m, ielen =>
    match getP2pAttr turns (fromPtr m ie) ielen attrId with
    | none => none
    | some none => some (m, ielen)
    | some (some (target, attrLen)) =>
      if attrLen = 0 then some (m, ielen)
      else
        let remainLen := Ap.uintSub ielen (target + attrLen)
        let moved := memmove m (ie + target) (ie + target + attrLen) remainLen
        let zeroed := splice moved (ie + target + remainLen) (List.replicate attrLen 0)
        let shorter := splice zeroed (ie + 1) [zeroed (ie + 1) - UInt8.ofNat attrLen]
        delP2pAttrLoop turns attrId ie rounds shorter (Ap.uintSub ielen attrLen)

/-- `rtw_del_p2p_attr`. -/
def delP2pAttr (turns : Nat) (m : Mem) (ie ielenOri : Nat) (attrId : UInt8) : Option (Mem × Nat) :=
  delP2pAttrLoop turns attrId ie turns m ielenOri

/-- Behind the element at `ie`, now `ieLen` bytes long, what follows is moved up: the network, and `ies`. -/
def Network.shrink (b : Network) (m : Mem) (ie ieLenOri ieLen remainLen : Nat) : Network × Nat :=
  let nextIeOri := ie + ieLenOri
  if ieLen ≠ ieLenOri then
    let nextIe := ie + ieLen
    let deleted := Ap.uintSub ieLenOri ieLen
    let moved := memmove m nextIe nextIeOri remainLen
    let zeroed := splice moved (nextIe + remainLen) (List.replicate deleted 0)
    ({ b with ies := zeroed, ieLength := Ap.uintSub b.ieLength deleted }, nextIe)
  else ({ b with ies := m }, nextIeOri)

/-- The loop of `rtw_bss_ex_del_p2p_attr`; `ies` by its distance from `IEs`. -/
def bssExDelP2pAttrLoop (turns : Nat) (attrId : UInt8) : Nat → Network → Nat → Nat → Option Network
  | 0, _, _, _ => none
  | rounds + 1, b, ies, iesLen =>
    match getP2pIe turns (fromPtr b.ies ies) iesLen with
    | none => none
    | some none => some b
    | some (some found) =>
      let ie := ies + found
      let ieLenOri := (b.ies (ie + 1)).toNat + 2
      let remainLen := Ap.uintSub b.ieLength (ie + ieLenOri)
      match delP2pAttr turns b.ies ie ieLenOri attrId with
      | none => none
      | some (m, ieLen) =>
        let next := b.shrink m ie ieLenOri ieLen remainLen
        bssExDelP2pAttrLoop turns attrId rounds next.1 next.2 remainLen

/-- `rtw_bss_ex_del_p2p_attr`, if its loops end within `turns` rounds. -/
def rtwBssExDelP2pAttr (turns : Nat) (b : Network) (attrId : UInt8) : Option Network :=
  bssExDelP2pAttrLoop turns attrId turns b b.fixedIeOffset (Ap.uintSub b.ieLength b.fixedIeOffset)

/-! ## Attributes -/

/-- A P2P attribute. -/
structure Attribute where
  id : UInt8
  data : List UInt8
  short : data.length < 2 ^ 16

namespace Attribute

/-- The length in little endian. -/
def bytes (a : Attribute) : List UInt8 :=
  [a.id, UInt8.ofNat (a.data.length % 256), UInt8.ofNat (a.data.length / 256)] ++ a.data

@[simp] theorem length_bytes (a : Attribute) : a.bytes.length = a.data.length + 3 := by
  simp [bytes]

end Attribute

/-- The bytes of some attributes. -/
def attrBytes (as : List Attribute) : List UInt8 := as.flatMap Attribute.bytes

@[simp] theorem attrBytes_cons (a : Attribute) (as : List Attribute) : attrBytes (a :: as) = a.bytes ++ attrBytes as := rfl

@[simp] theorem attrBytes_append (as as' : List Attribute) : attrBytes (as ++ as') = attrBytes as ++ attrBytes as' :=
  List.flatMap_append

/-- The attributes with another id. -/
def others (attrId : UInt8) (as : List Attribute) : List Attribute := as.filter fun a => a.id ≠ attrId

/-- A P2P element keeps its attributes with another id, another element all it has. -/
def Without (attrId : UInt8) (e e' : Element) : Prop :=
  if isP2p e then
    e'.id = e.id ∧ ∀ as, e.data = p2pOui ++ attrBytes as → e'.data = p2pOui ++ attrBytes (others attrId as)
  else e' = e

/-- The elements of a network. -/
structure Network.Holds (b : Network) (es : List Element) : Prop where
  stands : Stands b.ies b.fixedIeOffset (bytesOf es)
  length : b.ieLength = b.fixedIeOffset + (bytesOf es).length
  room : b.ieLength ≤ Ap.maxIeSz

section Attributes

variable {m : Mem} {p n : Nat} {target : UInt8} {a : Attribute} {as : List Attribute} {tail : List UInt8}

theorem lengthBytes {k : Nat} (short : k < 2 ^ 16) :
    (UInt8.ofNat (k % 256)).toNat + (UInt8.ofNat (k / 256)).toNat * 256 = k := by
  simp only [UInt8.toNat_ofNat']
  omega

/-- The header of an attribute is read. -/
theorem attr_header (stands : Stands m p (a.bytes ++ tail)) : m p = a.id ∧ getLe16 m (p + 1) = a.data.length := by
  have id := stands.byte (k := 0) (by simp)
  have low := stands.byte (k := 1) (by simp [Attribute.bytes])
  have high := stands.byte (k := 2) (by simp [Attribute.bytes])
  refine ⟨id, ?_⟩
  rw [getLe16, Nat.add_assoc, low, high]
  exact lengthBytes a.short

theorem attr_bytes_cancel {b : Attribute} {s t : List UInt8} (same : a.bytes ++ s = b.bytes ++ t) : a = b ∧ s = t := by
  obtain ⟨idA, dataA, shortA⟩ := a
  obtain ⟨idB, dataB, shortB⟩ := b
  simp only [Attribute.bytes, List.cons_append, List.nil_append, List.cons.injEq] at same
  obtain ⟨rfl, low, high, rest⟩ := same
  have length : dataA.length = dataB.length := by
    rw [← lengthBytes shortA, ← lengthBytes shortB, low, high]
  obtain ⟨rfl, rfl⟩ := List.append_inj rest length
  exact ⟨rfl, rfl⟩

theorem attrBytes_eq_nil : attrBytes as = [] ↔ as = [] := by
  cases as with
  | nil => simp [attrBytes]
  | cons a as => simp [Attribute.bytes]

theorem length_le_attrBytes (as : List Attribute) : as.length ≤ (attrBytes as).length := by
  induction as with
  | nil => exact Nat.le_refl _
  | cons a as ih =>
      rw [List.length_cons, attrBytes_cons, List.length_append, Attribute.length_bytes]
      omega

/-- Bytes are those of one list of attributes. -/
theorem attrBytes_injective {as bs : List Attribute} (same : attrBytes as = attrBytes bs) : as = bs := by
  induction as generalizing bs with
  | nil => exact (attrBytes_eq_nil.mp same.symm).symm
  | cons a as ih =>
      cases bs with
      | nil => exact attrBytes_eq_nil.mp same
      | cons b bs =>
          obtain ⟨rfl, rest⟩ := attr_bytes_cancel same
          rw [ih rest]

/-- What the search finds from `p` on. -/
def attrFirst (target : UInt8) : Nat → List Attribute → Found
  | _, [] => none
  | p, a :: as => if a.id = target then some (p, a.bytes.length) else attrFirst target (p + a.bytes.length) as

/-- The loop of the search along the attributes up to the end of the element. -/
theorem attr_along (turns : Nat) (enough : as.length < turns) (stands : Stands m p (attrBytes as ++ tail))
    (length : p + (attrBytes as).length = n) (small : n < 2 ^ 16) :
    (p2pAttrLoop m n target.toNat false).run turns p = some (attrFirst target p as) := by
  induction as generalizing p turns with
  | nil =>
      obtain ⟨turns, rfl⟩ := Nat.exists_eq_add_of_lt enough
      have stops : ¬p + 3 ≤ n := by
        rw [← length]
        simp [attrBytes]
      simp only [Loop.run, p2pAttrLoop, tlvAttrLoop, if_neg stops, attrFirst]
  | cons a as ih =>
      obtain ⟨turns, rfl⟩ := Nat.exists_eq_succ_of_ne_zero (Nat.ne_of_gt (Nat.lt_of_le_of_lt (Nat.zero_le _) enough))
      rw [attrBytes_cons, List.append_assoc] at stands
      simp only [attrBytes_cons, List.length_append, Attribute.length_bytes] at length
      obtain ⟨id, size⟩ := attr_header stands
      have sum : u16 (a.data.length + 3) = a.bytes.length := by
        rw [u16, a.length_bytes, Nat.mod_eq_of_lt (by omega)]
      have header : p + 3 ≤ n := by omega
      have whole : ¬n < p + a.bytes.length := by
        rw [a.length_bytes]
        omega
      simp only [Loop.run, p2pAttrLoop, tlvAttrLoop, if_pos header, size, sum, if_neg whole, id, attrFirst]
      by_cases found : a.id = target
      · rw [if_pos (congrArg UInt8.toNat found), if_pos found]
      · rw [if_neg (mt UInt8.toNat_inj.mp found), if_neg found]
        refine ih turns (Nat.lt_of_succ_lt_succ enough) stands.right ?_
        rw [a.length_bytes]
        omega

/-- What is found is the first attribute of its kind. -/
theorem attrFirst_cases (target : UInt8) (p : Nat) (as : List Attribute) :
    (attrFirst target p as = none ∧ others target as = as) ∨
      ∃ pre a post, as = pre ++ a :: post ∧ a.id = target ∧
        attrFirst target p as = some (p + (attrBytes pre).length, a.bytes.length) := by
  induction as generalizing p with
  | nil => exact .inl ⟨rfl, rfl⟩
  | cons a as ih =>
      rw [attrFirst]
      by_cases found : a.id = target
      · rw [if_pos found]
        exact .inr ⟨[], a, as, rfl, found, rfl⟩
      · rw [if_neg found]
        rcases ih (p + a.bytes.length) with ⟨none_, all⟩ | ⟨pre, b, post, rfl, same, first⟩
        · refine .inl ⟨none_, ?_⟩
          rw [others, List.filter_cons_of_pos (by simpa using found)]
          exact congrArg _ all
        · refine .inr ⟨a :: pre, b, post, rfl, same, first.trans ?_⟩
          rw [attrBytes_cons, List.length_append, Nat.add_assoc]

end Attributes

/-! ## One element -/

/-- The bytes of a P2P element with these attributes. -/
def p2pIe (as : List Attribute) : List UInt8 :=
  [221, UInt8.ofNat (4 + (attrBytes as).length)] ++ (p2pOui ++ attrBytes as)

section Element

variable {m : Mem} {turns : Nat} {attrId : UInt8} {done tail gap : List UInt8} {as pre post : List Attribute} {a : Attribute}

@[simp] theorem length_p2pIe (as : List Attribute) : (p2pIe as).length = 6 + (attrBytes as).length := by
  simp only [p2pIe, p2pOui, List.length_append, List.length_cons, List.length_nil]
  omega

/-- The search in an element. -/
theorem getP2pAttr_run {p : Nat} (enough : as.length < turns) (stands : Stands m p (p2pIe as ++ tail))
    (room : (attrBytes as).length ≤ 251) :
    getP2pAttr turns (fromPtr m p) (6 + (attrBytes as).length) attrId = some (attrFirst attrId 6 as) := by
  have there : Stands (fromPtr m p) 0 ([221, UInt8.ofNat (4 + (attrBytes as).length)] ++ (p2pOui ++ (attrBytes as ++ tail))) := by
    rw [stands_fromPtr, Nat.add_zero]
    simpa only [p2pIe, List.append_assoc] using stands
  have ielen : (UInt32.ofNat (6 + (attrBytes as).length)).toNat = 6 + (attrBytes as).length :=
    UInt32.toNat_ofNat_of_lt' (show _ < 2 ^ 32 by omega)
  have id : fromPtr m p 0 = 221 := there.byte (k := 0) (by simp)
  have oui : bytesAt (fromPtr m p) 2 4 = p2pOui := there.right.left
  have opens : (AttrSearch.p2p (UInt32.ofNat (6 + (attrBytes as).length)) attrId false).opens (fromPtr m p) = true :=
    opens_iff.mpr ⟨id, oui⟩
  have attrs : Stands (fromPtr m p) 6 (attrBytes as ++ tail) := there.right.right
  rw [getP2pAttr, AttrSearch.run, opens, AttrSearch.tooShort, ielen]
  by_cases short : 6 + (attrBytes as).length ≤ 6
  · have none_ : as = [] := attrBytes_eq_nil.mp (List.eq_nil_of_length_eq_zero (by omega))
    simp only [short, decide_true, Bool.true_or, if_true]
    rw [none_, attrFirst]
  · simp only [short, decide_false, Bool.not_true, Bool.or_false, Bool.false_eq_true, if_false, AttrSearch.loop, ielen]
    exact attr_along turns enough attrs rfl (by omega)

/-- An attribute is cut out, and the length byte is less by its length. -/
theorem cut_attr (stands : Stands m 0 (done ++ (p2pIe (pre ++ a :: post) ++ (gap ++ tail)))) :
    let zeroed := splice
      (memmove m (done.length + (6 + (attrBytes pre).length))
        (done.length + (6 + (attrBytes pre).length) + a.bytes.length) (attrBytes post).length)
      (done.length + (6 + (attrBytes pre).length) + (attrBytes post).length) (List.replicate a.bytes.length 0)
    Stands (splice zeroed (done.length + 1) [zeroed (done.length + 1) - UInt8.ofNat a.bytes.length]) 0
      (done ++ (p2pIe (pre ++ post) ++ ((List.replicate a.bytes.length 0 ++ gap) ++ tail))) := by
  intro zeroed
  let length : UInt8 := UInt8.ofNat (4 + (attrBytes (pre ++ a :: post)).length)
  have closed : Stands zeroed 0 ((done ++ [221]) ++ ([length] ++ (p2pOui ++ (attrBytes pre ++ (attrBytes post ++
      (List.replicate a.bytes.length 0 ++ (gap ++ tail))))))) := by
    have split : done ++ (p2pIe (pre ++ a :: post) ++ (gap ++ tail)) =
        (done ++ ([221, length] ++ (p2pOui ++ attrBytes pre))) ++ (a.bytes ++ (attrBytes post ++ (gap ++ tail))) := by
      simp only [p2pIe, length, attrBytes_append, attrBytes_cons, List.append_assoc, List.cons_append, List.nil_append]
    have place : (done ++ ([221, length] ++ (p2pOui ++ attrBytes pre))).length = done.length + (6 + (attrBytes pre).length) := by
      simp only [p2pOui, List.length_append, List.length_cons, List.length_nil]
      omega
    rw [split] at stands
    have moved := closed_stands stands
    rw [place] at moved
    simpa only [zeroed, List.append_assoc, List.cons_append, List.nil_append] using moved
  have byte : zeroed (done.length + 1) = length := by
    have there := closed.right.left.byte (k := 0) (by simp)
    simpa using there
  have shorter := closed.splice [length - UInt8.ofNat a.bytes.length] rfl
  have less : length - UInt8.ofNat a.bytes.length = UInt8.ofNat (4 + (attrBytes (pre ++ post)).length) := by
    apply UInt8.toNat_inj.mp
    simp only [length, UInt8.toNat_sub, UInt8.toNat_ofNat', attrBytes_append, attrBytes_cons, List.length_append]
    omega
  rw [byte, less]
  rw [less, Nat.zero_add, List.length_append, List.length_singleton] at shorter
  simpa only [p2pIe, attrBytes_append, List.append_assoc, List.cons_append, List.nil_append] using shorter

theorem others_target (target : a.id = attrId) : others attrId (pre ++ a :: post) = others attrId (pre ++ post) := by
  rw [others, others, List.filter_append, List.filter_cons_of_neg (by simpa using target), ← List.filter_append]

theorem others_length_le (attrId : UInt8) (as : List Attribute) :
    (attrBytes (others attrId as)).length ≤ (attrBytes as).length := by
  induction as with
  | nil => exact Nat.le_refl _
  | cons a as ih =>
      rw [others, List.filter_cons]
      split
      · rw [attrBytes_cons, attrBytes_cons, List.length_append, List.length_append]
        exact Nat.add_le_add_left ih _
      · rw [attrBytes_cons, List.length_append]
        exact Nat.le_trans ih (Nat.le_add_left _ _)

/-- The other attributes are left, with a gap behind them. -/
theorem delP2pAttr_filter (attrId : UInt8) (rounds : Nat) (enough : as.length < turns) (more : as.length < rounds)
    (stands : Stands m 0 (done ++ (p2pIe as ++ (gap ++ tail)))) (room : (attrBytes as).length ≤ 251) :
    ∃ m' gap', delP2pAttrLoop turns attrId done.length rounds m (6 + (attrBytes as).length) =
        some (m', 6 + (attrBytes (others attrId as)).length) ∧
      Stands m' 0 (done ++ (p2pIe (others attrId as) ++ (gap' ++ tail))) ∧
      gap'.length + (attrBytes (others attrId as)).length = gap.length + (attrBytes as).length := by
  induction rounds generalizing m as gap with
  | zero => exact absurd more (by omega)
  | succ rounds ih =>
      have there := stands.right
      rw [Nat.zero_add] at there
      have search : getP2pAttr turns (fromPtr m done.length) _ attrId = _ := getP2pAttr_run enough there room
      rcases attrFirst_cases attrId 6 as with ⟨none_, all⟩ | ⟨pre, a, post, rfl, target, first⟩
      · refine ⟨m, gap, ?_, ?_, ?_⟩
        · rw [delP2pAttrLoop, search, none_, all]
        · rwa [all]
        · rw [all]
      · have sizes : (attrBytes (pre ++ a :: post)).length =
            (attrBytes pre).length + (a.bytes.length + (attrBytes post).length) := by
          rw [attrBytes_append, attrBytes_cons, List.length_append, List.length_append]
        have sizes' : (attrBytes (pre ++ post)).length = (attrBytes pre).length + (attrBytes post).length := by
          rw [attrBytes_append, List.length_append]
        have fewer : (pre ++ post).length < (pre ++ a :: post).length := by simp
        have some_ : ¬a.bytes.length = 0 := by simp
        have remain : Ap.uintSub (6 + (attrBytes (pre ++ a :: post)).length) (6 + (attrBytes pre).length + a.bytes.length) =
            (attrBytes post).length := by
          rw [Ap.uintSub_of_le (by omega) (by omega)]
          omega
        have left : Ap.uintSub (6 + (attrBytes (pre ++ a :: post)).length) a.bytes.length =
            6 + (attrBytes (pre ++ post)).length := by
          rw [Ap.uintSub_of_le (by omega) (by omega)]
          omega
        obtain ⟨m', gap', run, stands', length⟩ := ih (by omega) (by omega) (cut_attr stands) (by omega)
        refine ⟨m', gap', ?_, ?_, ?_⟩
        · rw [delP2pAttrLoop, search, first]
          simp only [if_neg some_, remain, left]
          rw [run, others_target target]
        · rwa [others_target target]
        · rw [others_target target, length, sizes, sizes', List.length_append, List.length_replicate]
          omega

end Element

/-! ## All elements -/

section Elements

variable {m : Mem} {b : Network} {attrId : UInt8} {done : List UInt8} {es : List Element} {e : Element}

/-- In a list that fits the array, what is found is the first element that seems to be a P2P element. -/
theorem p2pFirst_cases {p : Nat} (room : p + (bytesOf es).length ≤ Ap.maxIeSz) :
    (vendorFirst p2pOui [] p es = none ∧ ∀ e ∈ es, ¬isP2p e = true) ∨
      ∃ pre e post, es = pre ++ e :: post ∧ (∀ x ∈ pre, ¬isP2p x = true) ∧ e.id = 221 ∧
        p2pOui <+: e.data ++ bytesOf post ∧ vendorFirst p2pOui [] p es = some (p + (bytesOf pre).length) := by
  induction es generalizing p with
  | nil => exact .inl ⟨rfl, nofun⟩
  | cons e es ih =>
      rw [bytesOf_cons, List.length_append] at room
      rw [vendorFirst, List.append_nil]
      by_cases seems : e.id = 221 ∧ p2pOui <+: e.data ++ bytesOf es
      · have enough := seems.2.length_le
        rw [List.length_append] at enough
        have early : p + 5 < Ap.maxIeSz := by
          rw [Element.length_bytes] at room
          simp only [p2pOui, List.length_cons, List.length_nil] at enough
          omega
        rw [if_pos ⟨early, seems⟩]
        exact .inr ⟨[], e, es, rfl, nofun, seems.1, seems.2, rfl⟩
      · rw [if_neg fun taken => seems taken.2]
        have other : ¬isP2p e = true := fun is =>
          seems ⟨((isP2p_iff e).mp is).1, ((isP2p_iff e).mp is).2.trans (List.prefix_append _ _)⟩
        rcases ih (p := p + e.bytes.length) (by omega) with ⟨none_, rest⟩ | ⟨pre, x, post, rfl, before, id, front, first⟩
        · exact .inl ⟨none_, List.forall_mem_cons.mpr ⟨other, rest⟩⟩
        · refine .inr ⟨e :: pre, x, post, rfl, List.forall_mem_cons.mpr ⟨other, before⟩, id, front, first.trans ?_⟩
          rw [bytesOf_cons, List.length_append, Nat.add_assoc]

/-- As many rounds are enough for each search. -/
def searchTurns : Nat := 1100

/-- The search for the next P2P element. -/
theorem getP2pIe_run {p turns : Nat} (enough : searchTurns < turns) (stands : Stands m p (bytesOf es))
    (room : (bytesOf es).length ≤ Ap.maxIeSz) :
    getP2pIe turns (fromPtr m p) (bytesOf es).length = some (vendorFirst p2pOui [] 0 es) := by
  have small : (bytesOf es).length ≤ 768 := room
  have inLen : (Int32.ofNat (bytesOf es).length).toInt = (bytesOf es).length := Int32.toInt_ofNat_of_lt (by omega)
  have there : Stands (fromPtr m p) 0 (bytesOf es ++ []) := by
    rw [stands_fromPtr, List.append_nil]
    exact stands
  by_cases none_ : (bytesOf es).length = 0
  · obtain rfl : es = [] := bytesOf_eq_nil.mp (List.eq_nil_of_length_eq_zero none_)
    rfl
  · have ends := (vendor_finds (r := vendorFirst p2pOui [] 0 es) (n := (bytesOf es).length) (w := ⟨false, true⟩) rfl rfl
      (by omega) there cut_nil (by rw [List.append_nil, Nat.zero_add])).mpr rfl
    -- every round is further by two bytes at least
    have shrinks : ∀ cnt next, cnt < searchTurns →
        (getVendorIeLoop (fromPtr m p) (bytesOf es).length p2pOui ⟨false, true⟩).round cnt = .inr next →
          next < searchTurns ∧ searchTurns - next < searchTurns - cnt := by
      intro cnt next below round
      simp only [searchTurns] at below ⊢
      simp only [getVendorIeLoop, uint_of_lt (show cnt + 1 + 4 < 2 ^ 32 by omega)] at round
      split at round
      · split at round
        · exact absurd round (by simp)
        · split at round
          · exact absurd round (by simp)
          · have bound := (fromPtr m p (uint (cnt + 1))).toNat_lt
            obtain rfl := Sum.inr.inj round
            rw [uint_of_lt (by omega)]
            omega
      · exact absurd round (by simp)
    obtain ⟨r, result⟩ := Loop.run_of_size (fun cnt => searchTurns - cnt) (fun cnt => cnt < searchTurns) shrinks
      (show 0 < searchTurns by decide) enough
    rw [getP2pIe, Search.run, inLen, if_neg (by omega), Int.toNat_natCast, result, ends.of_run result]

theorem length_le_bytesOf (es : List Element) : es.length ≤ (bytesOf es).length := by
  induction es with
  | nil => exact Nat.le_refl _
  | cons e es ih =>
      rw [List.length_cons, bytesOf_cons, List.length_append, Element.length_bytes]
      omega

/-- A P2P element is one with the attributes of its data. -/
theorem bytes_eq_p2pIe {as : List Attribute} (id : e.id = 221) (data : e.data = p2pOui ++ attrBytes as) :
    e.bytes = p2pIe as ∧ (attrBytes as).length ≤ 251 := by
  have short := e.short
  have length : e.data.length = 4 + (attrBytes as).length := by
    rw [data, List.length_append]
    rfl
  refine ⟨?_, by omega⟩
  rw [Element.bytes, id, length, data]
  rfl

/-- The element with these attributes. -/
theorem exists_element {as : List Attribute} (room : (attrBytes as).length ≤ 251) :
    ∃ e : Element, e.id = 221 ∧ e.data = p2pOui ++ attrBytes as ∧ e.bytes = p2pIe as := by
  have short : (p2pOui ++ attrBytes as).length < 256 := by
    simp only [p2pOui, List.length_append, List.length_cons, List.length_nil]
    omega
  exact ⟨⟨221, _, short⟩, rfl, rfl, (bytes_eq_p2pIe rfl rfl).1⟩

/-- What is behind the loop, and before it. -/
structure Network.At (b : Network) (done : List UInt8) (es : List Element) : Prop where
  stands : Stands b.ies 0 (done ++ bytesOf es)
  length : b.ieLength = done.length + (bytesOf es).length
  room : b.ieLength ≤ Ap.maxIeSz

/-- An element that is too short for the search for its attributes is left. -/
theorem delP2pAttr_short {turns ie n : Nat} (some_ : 0 < turns) (short : n ≤ 6) (m : Mem) :
    delP2pAttr turns m ie n attrId = some (m, n) := by
  obtain ⟨turns, rfl⟩ := Nat.exists_eq_succ_of_ne_zero (Nat.ne_of_gt some_)
  have ielen : (UInt32.ofNat n).toNat = n := UInt32.toNat_ofNat_of_lt' (show n < 2 ^ 32 by omega)
  have search : getP2pAttr (turns + 1) (fromPtr m ie) n attrId = some none := by
    rw [getP2pAttr, AttrSearch.run, AttrSearch.tooShort, ielen]
    simp only [short, decide_true, Bool.true_or, if_true]
  rw [delP2pAttr, delP2pAttrLoop, search]

/-- What is behind the gap is moved over it. -/
theorem shrink_stands {x gap after : List UInt8} {n : Nat} (stands : Stands m 0 (done ++ (x ++ (gap ++ after))))
    (length : gap.length + x.length = n) (all : b.ieLength = done.length + n + after.length)
    (room : b.ieLength ≤ Ap.maxIeSz) :
    (b.shrink m done.length n x.length after.length).2 = (done ++ x).length ∧
      Stands (b.shrink m done.length n x.length after.length).1.ies 0 (done ++ x ++ after) ∧
      (b.shrink m done.length n x.length after.length).1.ieLength = (done ++ x).length + after.length ∧
      (b.shrink m done.length n x.length after.length).1.reserved = b.reserved := by
  have place : (done ++ x).length = done.length + x.length := List.length_append
  by_cases same : x.length = n
  · have none_ : gap = [] := List.eq_nil_of_length_eq_zero (by omega)
    rw [none_, List.nil_append, ← List.append_assoc] at stands
    rw [Network.shrink, if_neg (not_not.mpr same)]
    exact ⟨by rw [place, same], stands, by rw [place, same]; exact all, rfl⟩
  · simp only [Ap.maxIeSz] at room
    have deleted : Ap.uintSub n x.length = gap.length := by
      rw [Ap.uintSub_of_le (by omega) (by omega)]
      omega
    have left : Ap.uintSub b.ieLength gap.length = (done ++ x).length + after.length := by
      rw [Ap.uintSub_of_le (by omega) (by omega), place]
      omega
    have split : Stands m 0 ((done ++ x) ++ (gap ++ (after ++ []))) := by
      rwa [List.append_nil, List.append_assoc]
    have closed := closed_stands split
    rw [place, Nat.add_assoc _ _ gap.length, Nat.add_comm _ gap.length, length, ← List.append_assoc] at closed
    rw [Network.shrink, if_pos same, deleted]
    exact ⟨place.symm, closed.left, left, rfl⟩

/-- A round at an element that becomes shorter by a gap. -/
theorem bss_round {turns : Nat} {pre post : List Element} {e' : Element} {gap : List UInt8}
    (at_ : b.At done (pre ++ e :: post))
    (search : getP2pIe turns (fromPtr b.ies done.length) (bytesOf (pre ++ e :: post)).length =
      some (some (bytesOf pre).length))
    (run : delP2pAttr turns b.ies (done ++ bytesOf pre).length e.bytes.length attrId = some (m, e'.bytes.length))
    (left : Stands m 0 ((done ++ bytesOf pre) ++ (e'.bytes ++ (gap ++ bytesOf post))))
    (gapLength : gap.length + e'.bytes.length = e.bytes.length) :
    ∃ b' : Network, (∀ rounds,
      bssExDelP2pAttrLoop turns attrId (rounds + 1) b done.length (bytesOf (pre ++ e :: post)).length =
        bssExDelP2pAttrLoop turns attrId rounds b' (done ++ bytesOf pre ++ e'.bytes).length (bytesOf post).length) ∧
      b'.At (done ++ bytesOf pre ++ e'.bytes) post ∧ b'.reserved = b.reserved := by
  obtain ⟨stands, length, room⟩ := at_
  have sizes : (bytesOf (pre ++ e :: post)).length =
      (bytesOf pre).length + (e.bytes.length + (bytesOf post).length) := by
    rw [bytesOf_append, bytesOf_cons, List.length_append, List.length_append]
  have there : Stands b.ies 0 ((done ++ bytesOf pre) ++ (e.bytes ++ bytesOf post)) := by
    rw [List.append_assoc, ← bytesOf_cons, ← bytesOf_append]
    exact stands
  have place : (done ++ bytesOf pre).length = done.length + (bytesOf pre).length := List.length_append
  have ielen : (b.ies (done.length + (bytesOf pre).length + 1)).toNat + 2 = e.bytes.length := by
    have header := there.right.header
    rw [Nat.zero_add, place] at header
    rw [header.2, Element.length_bytes]
  have remain : Ap.uintSub b.ieLength (done.length + (bytesOf pre).length + e.bytes.length) = (bytesOf post).length := by
    simp only [Ap.maxIeSz] at room
    rw [Ap.uintSub_of_le (by omega) (by omega)]
    omega
  obtain ⟨next, there, length', reserved⟩ := shrink_stands left gapLength (by omega) room
  refine ⟨_, fun rounds => ?_, ⟨there, length', ?_⟩, reserved⟩
  · rw [place] at run next
    rw [bssExDelP2pAttrLoop, search]
    simp only [ielen, remain, run, next]
    rw [place]
  · rw [length', List.length_append, place]
    omega

/-- The element that is found loses its attributes of the kind, and what is behind it is moved up. -/
theorem bss_step {turns : Nat} {pre post : List Element} (more : searchTurns < turns) (at_ : b.At done (pre ++ e :: post))
    (attrs : isP2p e = true → ∃ as, e.data = p2pOui ++ attrBytes as) (id : e.id = 221)
    (front : p2pOui <+: e.data ++ bytesOf post)
    (first : vendorFirst p2pOui [] 0 (pre ++ e :: post) = some (bytesOf pre).length) :
    ∃ (b' : Network) (e' : Element), (∀ rounds,
        bssExDelP2pAttrLoop turns attrId (rounds + 1) b done.length (bytesOf (pre ++ e :: post)).length =
          bssExDelP2pAttrLoop turns attrId rounds b' (done ++ bytesOf pre ++ e'.bytes).length (bytesOf post).length) ∧
      b'.At (done ++ bytesOf pre ++ e'.bytes) post ∧ b'.reserved = b.reserved ∧ Without attrId e e' := by
  have list := at_.stands.right
  rw [Nat.zero_add] at list
  have search := getP2pIe_run more list (by have := at_.room; have := at_.length; omega)
  rw [first] at search
  have there : Stands b.ies 0 ((done ++ bytesOf pre) ++ (e.bytes ++ bytesOf post)) := by
    rw [List.append_assoc, ← bytesOf_cons, ← bytesOf_append]
    exact at_.stands
  by_cases is : isP2p e = true
  · obtain ⟨as, data⟩ := attrs is
    obtain ⟨bytes, fits⟩ := bytes_eq_p2pIe id data
    have ori : e.bytes.length = 6 + (attrBytes as).length := by rw [bytes, length_p2pIe]
    obtain ⟨e', id', data', bytes'⟩ := exists_element (Nat.le_trans (others_length_le attrId as) fits)
    have size' : e'.bytes.length = 6 + (attrBytes (others attrId as)).length := by rw [bytes', length_p2pIe]
    have element : Stands b.ies 0 ((done ++ bytesOf pre) ++ (p2pIe as ++ ([] ++ bytesOf post))) := by
      rwa [List.nil_append, ← bytes]
    have enough : as.length < turns := by
      have few := length_le_attrBytes as
      simp only [searchTurns] at more
      omega
    obtain ⟨m', gap, run, left, length⟩ := delP2pAttr_filter attrId turns enough enough element fits
    rw [← ori, ← size'] at run
    rw [← bytes'] at left
    obtain ⟨b', loop, next, reserved⟩ := bss_round at_ search run left (by rw [List.length_nil] at length; omega)
    refine ⟨b', e', loop, next, reserved, ?_⟩
    rw [Without, if_pos is]
    refine ⟨id'.trans id.symm, fun bs same => ?_⟩
    rw [attrBytes_injective (List.append_cancel_left (same.symm.trans data)), data']
  · have short : e.bytes.length ≤ 6 := by
      by_contra longer
      rw [Element.length_bytes] at longer
      exact is ((isP2p_iff e).mpr ⟨id, List.prefix_of_prefix_length_le front (List.prefix_append _ _)
        (show 4 ≤ e.data.length by omega)⟩)
    have whole : Stands b.ies 0 ((done ++ bytesOf pre) ++ (e.bytes ++ ([] ++ bytesOf post))) := by
      rwa [List.nil_append]
    obtain ⟨b', loop, next, reserved⟩ :=
      bss_round at_ search (delP2pAttr_short (Nat.zero_lt_of_lt more) short _) whole (Nat.zero_add _)
    exact ⟨b', e, loop, next, reserved, by rw [Without, if_neg is]⟩

theorem without_refl {pre : List Element} (clean : ∀ e ∈ pre, ¬isP2p e = true) :
    List.Forall₂ (Without attrId) pre pre := by
  rw [List.forall₂_same]
  exact fun e member => by rw [Without, if_neg (clean e member)]

/-- All elements behind the loop lose their attributes of the kind. -/
theorem bss_run (attrId : UInt8) {turns rounds : Nat} (more : searchTurns < turns) (enough : es.length < rounds) (at_ : b.At done es)
    (attrs : ∀ e ∈ es, isP2p e = true → ∃ as, e.data = p2pOui ++ attrBytes as) :
    ∃ r es', bssExDelP2pAttrLoop turns attrId rounds b done.length (bytesOf es).length = some r ∧
      Stands r.ies 0 (done ++ bytesOf es') ∧ r.ieLength = done.length + (bytesOf es').length ∧
      r.ieLength ≤ Ap.maxIeSz ∧ r.reserved = b.reserved ∧ List.Forall₂ (Without attrId) es es' := by
  induction rounds generalizing b done es with
  | zero => exact absurd enough (by omega)
  | succ rounds ih =>
    have small : 0 + (bytesOf es).length ≤ Ap.maxIeSz := by
      have := at_.room
      have := at_.length
      omega
    rcases p2pFirst_cases small with ⟨none_, clean⟩ | ⟨pre, e, post, rfl, clean, id, front, first⟩
    · have list := at_.stands.right
      rw [Nat.zero_add] at list small
      refine ⟨b, es, ?_, at_.stands, at_.length, at_.room, rfl, without_refl clean⟩
      rw [bssExDelP2pAttrLoop, getP2pIe_run more list small, none_]
    · rw [Nat.zero_add] at first
      obtain ⟨b', e', loop, next, reserved, without⟩ := bss_step more at_ (attrs e (by simp)) id front first
      have fewer : post.length < rounds := by
        rw [List.length_append, List.length_cons] at enough
        omega
      obtain ⟨r, es', run, stands, length, room, reserved', later⟩ :=
        ih fewer next fun e member => attrs e (by simp [member])
      refine ⟨r, pre ++ e' :: es', (loop rounds).trans run, ?_, ?_, room, reserved'.trans reserved, ?_⟩
      · rw [bytesOf_append, bytesOf_cons]
        simpa only [List.append_assoc] using stands
      · rw [length, bytesOf_append, bytesOf_cons]
        simp only [List.length_append]
        omega
      · exact List.rel_append (without_refl clean) (.cons without later)

end Elements

/-! ## The theorem -/

/-- Of every network whose elements are a list in which the P2P elements are lists of attributes, and for every id, the
deletion returns and leaves the elements in order, each P2P element with its attributes of other ids, the other elements
and what is before them as they are, and a length that is that of what is used. -/
theorem del_p2p_attr_keeps_list (b : Network) (es : List Element) (attrId : UInt8) (holds : b.Holds es)
    (attrs : ∀ e ∈ es, isP2p e = true → ∃ as, e.data = p2pOui ++ attrBytes as) :
    ∃ turns r es', rtwBssExDelP2pAttr turns b attrId = some r ∧ r.Holds es' ∧
      List.Forall₂ (Without attrId) es es' ∧
      r.reserved = b.reserved ∧ bytesAt r.ies 0 b.fixedIeOffset = bytesAt b.ies 0 b.fixedIeOffset := by
  obtain ⟨stands, length, room⟩ := holds
  have fixed : (bytesAt b.ies 0 b.fixedIeOffset).length = b.fixedIeOffset := length_bytesAt ..
  have at_ : b.At (bytesAt b.ies 0 b.fixedIeOffset) es := by
    refine ⟨?_, by rw [fixed]; exact length, room⟩
    rw [Stands.append_iff, fixed, Nat.zero_add]
    exact ⟨stands_bytesAt .., stands⟩
  have few : es.length < searchTurns + 1 := by
    have sizes := length_le_bytesOf es
    simp only [Ap.maxIeSz] at room
    simp only [searchTurns]
    omega
  obtain ⟨r, es', run, stands', length', room', reserved, without⟩ :=
    bss_run attrId (Nat.lt_succ_self searchTurns) few at_ attrs
  have offset : r.fixedIeOffset = b.fixedIeOffset := by rw [Network.fixedIeOffset, reserved, Network.fixedIeOffset]
  have front := stands'.left
  have back := stands'.right
  rw [Stands, fixed] at front
  rw [fixed] at run length'
  rw [fixed, Nat.zero_add, ← offset] at back
  refine ⟨searchTurns + 1, r, es', ?_, ⟨back, by rw [offset]; exact length', room'⟩, without, reserved, front⟩
  have iesLen : Ap.uintSub b.ieLength b.fixedIeOffset = (bytesOf es).length := by
    simp only [Ap.maxIeSz] at room
    rw [Ap.uintSub_of_le (by omega) (by omega)]
    omega
  rw [rtwBssExDelP2pAttr, iesLen]
  exact run

/-- The P2P capabilities, and the intent to be the group owner. -/
def twoAttributes : List Attribute := [⟨2, [0x25, 0x00], by decide⟩, ⟨4, [0x0e], by decide⟩]

/-- The wildcard SSID, and the P2P element with both. -/
def probeRequest : List Element := [⟨0, [], by decide⟩, ⟨221, p2pOui ++ attrBytes twoAttributes, by decide⟩]

/-- They are those of a probe request. -/
def probeNetwork : Network := ⟨⟨splice (fun _ => 0) 0 (bytesOf probeRequest), 17⟩, 2⟩

/-- One of the two attributes is deleted. -/
theorem del_p2p_attr_keeps_probe : ∃ turns r es', rtwBssExDelP2pAttr turns probeNetwork 4 = some r ∧ r.Holds es' ∧
    List.Forall₂ (Without 4) probeRequest es' ∧
    r.reserved = probeNetwork.reserved ∧ bytesAt r.ies 0 probeNetwork.fixedIeOffset =
      bytesAt probeNetwork.ies 0 probeNetwork.fixedIeOffset := by
  refine del_p2p_attr_keeps_list probeNetwork probeRequest 4 ⟨?_, ?_, ?_⟩ ?_
  · exact bytesAt_splice ..
  · rfl
  · decide
  · intro e member is
    simp only [probeRequest, List.mem_cons, List.not_mem_nil, or_false] at member
    rcases member with rfl | rfl
    · exact absurd is (by decide)
    · exact ⟨twoAttributes, rfl⟩

end Vmac.Ie
