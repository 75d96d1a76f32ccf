/-
# Vmac.Ie.Merge -- `rtw_get_p2p_merged_ies_len` and `rtw_p2p_merge_ies`

The caller allocates what the first announces and lets the second write.  Both go over the elements by a signed `int`;
one counts the attributes in an `int`, the other in a byte.

* `MergeSound`: what is written is what was announced, and it is the attributes of all P2P elements.
* `MergeFits`: the bytes for which that is so, by their whole elements and the remainder.
* `merge_sound_iff`: it is so for no others.
* `fragments_overflow`: two elements whose attributes do not fit the byte.
-/
import Vmac.Ie.Search

namespace Vmac.Ie

open Theory.Elements Theory.Walk Security

set_option autoImplicit false

/-! ## The two passes -/

section Passes

-- the bytes around `in_ie`, by their distance from it
variable (m : Int → UInt8)

/-- `n` bytes from a distance on. -/
def bytesFrom (i : Int) (n : Nat) : List UInt8 := (List.range n).map fun k => m (i + (k : Nat))

def placesFrom (i : Int) (n : Nat) : List Int := (List.range n).map fun k => i + (k : Nat)

/-- `i < in_len`, which compares as `u32`. -/
def before (i : Int) (inLen : Nat) : Bool := i % 2 ^ 32 < inLen

/-- `pIE->ElementID == _VENDOR_SPECIFIC_IE_ && _rtw_memcmp(pIE->data, OUI, 4)`. -/
def isP2pIe (i : Int) : Bool := m i = 221 ∧ bytesFrom m (i + 2) 4 = p2pOui

/-- `pIE->Length - 4`. -/
def attrsSize (i : Int) : Int := (m (i + 1)).toNat - 4

def stepOf (i : Int) : Int := sint (i + ((m (i + 1)).toNat + 2 : Nat))

/-- What each pass reads of an element besides what it copies. -/
def headerLooks (i : Int) : List Int := [i, i + 1] ++ if m i = 221 then placesFrom (i + 2) 4 else []

/-- The loop of `rtw_get_p2p_merged_ies_len`, over `i` and `len`. -/
def mergedLen (inLen : Nat) : Loop (Int × Int) Int Nat where
  looks s := if before s.1 inLen then headerLooks m s.1 else []
  round s :=
    if before s.1 inLen then
      .inr (stepOf m s.1, if isP2pIe m s.1 then sint (s.2 + attrsSize m s.1) else s.2)
    else .inl (sint (s.2 + 4) % 2 ^ 32).toNat

/-- The variables of `rtw_p2p_merge_ies`: `merge_ie` as its distance from where it began, and what is written there. -/
structure Merging where
  i : Int
  len : UInt8
  mergeIe : Int
  out : Int → UInt8
  sizes : List Int

/-- Bytes written from a distance on. -/
def writeAt (out : Int → UInt8) (start : Int) (bytes : List UInt8) : Int → UInt8 := fun k =>
  if start ≤ k ∧ k < start + bytes.length then bytes.getD (k - start).toNat 0 else out k

def elOui : List UInt8 := [0xdd, 0x00, 0x50, 0x6f, 0x9a, 0x09]

namespace Merging

variable (s : Merging)

/-- `_rtw_memcpy` takes its length as a `u32`. -/
def count : Nat := (attrsSize m s.i % 2 ^ 32).toNat

/-- The copy of one element. -/
def copy : Merging :=
  { s with
    len := s.len + (m (s.i + 1) - 4)
    mergeIe := s.mergeIe + attrsSize m s.i
    out := writeAt s.out s.mergeIe (bytesFrom m (s.i + 2 + 4) (s.count m))
    sizes := s.sizes ++ [attrsSize m s.i] }

def next : Merging := { if isP2pIe m s.i then s.copy m else s with i := stepOf m s.i }

end Merging

/-- What `rtw_p2p_merge_ies` leaves: what it returns, what is at `merge_ie`, and the lengths of its copies. -/
structure Merged where
  ret : Int
  out : Int → UInt8
  sizes : List Int

/-- The loop of `rtw_p2p_merge_ies`. -/
def merge (inLen : Nat) : Loop Merging Int Merged where
  looks s :=
    if before s.i inLen then
      headerLooks m s.i ++ if isP2pIe m s.i then placesFrom (s.i + 2 + 4) (s.count m) else []
    else []
  round s :=
    if before s.i inLen then .inr (s.next m) else .inl ⟨s.len.toNat + 4, s.out, s.sizes⟩

/-- Before the loop, with the OUI written. -/
def mergeStart (out : Int → UInt8) : Merging := ⟨0, 0, 6, writeAt out 0 elOui, []⟩

end Passes

/-! ## What is asked -/

/-- The attributes of all P2P elements, in order. -/
def attrsOf (es : List Element) : List UInt8 := (es.filter isP2p).flatMap fun e => e.data.drop 4

/-- The bytes from `in_ie` on. -/
def fromStart (m : Int → UInt8) : Mem := fun k => m k

/-- Both passes return and read inside; what the second returns was announced by the first; it writes so many bytes and
two, the header and the attributes of all P2P elements; and no copy has a negative length. -/
def MergeSound (m : Int → UInt8) (inLen : Nat) (out : Int → UInt8) : Prop :=
  ∃ turns announced turns' merged,
    (mergedLen m inLen).run turns (0, 0) = some announced ∧
    (∀ a ∈ (mergedLen m inLen).trace turns (0, 0), 0 ≤ a ∧ a < inLen) ∧
    (merge m inLen).run turns' (mergeStart out) = some merged ∧
    (∀ a ∈ (merge m inLen).trace turns' (mergeStart out), 0 ≤ a ∧ a < inLen) ∧
    merged.ret = announced ∧
    (elOui ++ attrsOf (framed (fromStart m) 0 inLen).1).length = 2 + announced ∧
    merged.out = writeAt out 0 (elOui ++ attrsOf (framed (fromStart m) 0 inLen).1) ∧
    ∀ size ∈ merged.sizes, 0 ≤ size

/-- From `p` on: elements begin below 2^31; of a vendor element four bytes behind its header lie below the end, and those
are the OUI only if they are in its data; and the remainder is no P2P element. -/
def mergeAlong (rest : List UInt8) : Nat → List Element → Prop
  | p, [] => rest = [] ∨ ∃ id len s, rest = id :: len :: s ∧ p < 2 ^ 31 ∧ (id = 221 → 4 ≤ s.length ∧ ¬p2pOui <+: s)
  | p, e :: es => p < 2 ^ 31 ∧
      (e.id = 221 → 4 ≤ (e.data ++ (bytesOf es ++ rest)).length ∧
        (p2pOui <+: e.data ++ (bytesOf es ++ rest) → p2pOui <+: e.data)) ∧
      mergeAlong rest (p + e.bytes.length) es

/-- The elements for which the passes agree; the sum has to fit a byte. -/
def MergeFits (m : Int → UInt8) (inLen : Nat) : Prop :=
  mergeAlong (framed (fromStart m) 0 inLen).2 0 (framed (fromStart m) 0 inLen).1 ∧
    (attrsOf (framed (fromStart m) 0 inLen).1).length < 256

/-! ## Headers -/

section Headers

variable {m : Int → UInt8} {n p : Nat} {id len : UInt8} {s : List UInt8}

theorem sint_emod {i : Nat} (below : i < 2 ^ 32) : sint i % 2 ^ 32 = i := by
  rw [sint, Int.bmod_def]
  push_cast
  split <;> omega

theorem before_sint (below : p < 2 ^ 32) : before (sint p) n = true ↔ p < n := by
  rw [before, sint_emod below, decide_eq_true_iff]
  omega

theorem bytesFrom_nat (m : Int → UInt8) (i k : Nat) : bytesFrom m i k = bytesAt (fromStart m) i k := rfl

theorem mem_placesFrom {a i : Int} {k : Nat} : a ∈ placesFrom i k ↔ i ≤ a ∧ a < i + k := by
  constructor
  · intro member
    obtain ⟨j, inside, rfl⟩ := List.mem_map.mp member
    have := List.mem_range.mp inside
    omega
  · rintro ⟨low, high⟩
    exact List.mem_map.mpr ⟨(a - i).toNat, List.mem_range.mpr (by omega), by omega⟩

/-- Where a pass looks at an element, `i` is no negative number and the header is inside. -/
theorem headerLooks_iff (below : p < 2 ^ 32) : (∀ a ∈ headerLooks m (sint p), 0 ≤ a ∧ a < (n : Int)) ↔
    p < 2 ^ 31 ∧ p + 2 ≤ n ∧ (fromStart m p = 221 → p + 6 ≤ n) := by
  by_cases small : p < 2 ^ 31
  · rw [sint_of_lt small, headerLooks]
    have first : m p = fromStart m p := rfl
    rw [first, and_iff_right small]
    constructor
    · intro inside
      refine ⟨?_, fun vendor => ?_⟩
      · have := inside (p + 1) (by simp)
        omega
      · have := inside (p + 5) (by
          rw [if_pos vendor]
          exact List.mem_append_right _ (mem_placesFrom.mpr (by omega)))
        omega
    · rintro ⟨header, oui⟩ a member
      rcases List.mem_append.mp member with there | there
      · simp only [List.mem_cons, List.not_mem_nil, or_false] at there
        omega
      · split at there
        · rename_i vendor
          have := oui vendor
          have := mem_placesFrom.mp there
          omega
        · exact absurd there List.not_mem_nil
  · refine iff_of_false (fun inside => ?_) fun asked => small asked.1
    have first := (inside (sint p) (by simp [headerLooks])).1
    have negative := sint_wraps (by omega) below
    omega

theorem isP2pIe_iff (small : p < 2 ^ 31) (stands : Stands (fromStart m) p (id :: len :: s)) (enough : id = 221 → 4 ≤ s.length) :
    isP2pIe m (sint p) = true ↔ id = 221 ∧ p2pOui <+: s := by
  have idThere : m p = id := stands.byte (k := 0) (by simp)
  have body : Stands (fromStart m) (p + 2) s := Stands.right (s := [id, len]) stands
  have four : bytesFrom m ((p : Int) + 2) 4 = bytesAt (fromStart m) (p + 2) 4 := bytesFrom_nat m (p + 2) 4
  rw [isP2pIe, sint_of_lt small, idThere, four, decide_eq_true_iff]
  exact and_congr_right fun vendor => by
    rw [body.prefix_iff, and_iff_right (show p2pOui.length ≤ s.length from enough vendor)]
    rfl

theorem attrsSize_eq (small : p < 2 ^ 31) (stands : Stands (fromStart m) p (id :: len :: s)) :
    attrsSize m (sint p) = len.toNat - 4 := by
  have lenThere : m ((p : Int) + 1) = len := stands.byte (k := 1) (by simp)
  rw [attrsSize, sint_of_lt small, lenThere]

theorem stepOf_eq (small : p < 2 ^ 31) (stands : Stands (fromStart m) p (id :: len :: s)) :
    stepOf m (sint p) = sint ((p + (len.toNat + 2) : Nat) : Int) := by
  have lenThere : m ((p : Int) + 1) = len := stands.byte (k := 1) (by simp)
  rw [stepOf, sint_of_lt small, lenThere]
  push_cast
  rfl

end Headers

/-! ## Runs -/

section Runs

variable {m : Int → UInt8} {n p : Nat} {st : Merging} {merged : Merged}

/-- A place of the elements. -/
def Within (n : Nat) (a : Int) : Prop := 0 ≤ a ∧ a < n

/-- An element that the second pass looks at and goes on behind it. -/
theorem merge_goes (small : n < 2 ^ 32) (at_ : st.i = sint p) (below : p < n) :
    (merge m n).Ends (Within n) st merged ↔
      ((∀ a ∈ headerLooks m (sint p), Within n a) ∧
        (isP2pIe m (sint p) = true → ∀ a ∈ placesFrom (sint p + 2 + 4) (st.count m), Within n a)) ∧
      (merge m n).Ends (Within n) (st.next m) merged := by
  have goes : before st.i n = true := by rw [at_, before_sint (by omega)]; exact below
  have round : (merge m n).round st = .inr (st.next m) := if_pos goes
  have looks : (merge m n).looks st = headerLooks m (sint p) ++
      if isP2pIe m (sint p) then placesFrom (sint p + 2 + 4) (st.count m) else [] := by
    simp only [merge]
    rw [if_pos goes, at_]
  rw [Loop.ends_of_again round, looks]
  refine and_congr_left' ?_
  rw [List.forall_mem_append]
  refine and_congr_right' ?_
  by_cases found : isP2pIe m (sint p) = true
  · simp only [found, if_true, true_implies]
  · simp [found]

/-- What the pass does with a header. -/
theorem merge_header {id len : UInt8} {s : List UInt8} (small : n < 2 ^ 32) (at_ : st.i = sint p)
    (stands : Stands (fromStart m) p (id :: len :: s)) (length : p + (s.length + 2) = n) :
    (merge m n).Ends (Within n) st merged ↔
      (p < 2 ^ 31 ∧ (id = 221 → 4 ≤ s.length ∧ (p2pOui <+: s → 4 ≤ len.toNat ∧ len.toNat ≤ s.length))) ∧
      (merge m n).Ends (Within n) (st.next m) merged := by
  have idThere : fromStart m p = id := stands.byte (k := 0) (by simp)
  rw [merge_goes small at_ (by omega)]
  refine and_congr_left' ?_
  have header := headerLooks_iff (m := m) (n := n) (p := p) (by omega)
  simp only [Within]
  rw [header, idThere]
  constructor
  · rintro ⟨⟨low, -, oui⟩, copies⟩
    refine ⟨low, fun vendor => ?_⟩
    have enough : 4 ≤ s.length := by
      have := oui vendor
      omega
    refine ⟨enough, fun front => ?_⟩
    have found := (isP2pIe_iff low stands fun _ => enough).mpr ⟨vendor, front⟩
    have size := attrsSize_eq low stands
    by_contra other
    -- the first byte behind the end is copied
    have outside := copies found (n : Int) (by
      rw [mem_placesFrom, Merging.count, at_, size, sint_of_lt low]
      have bound := len.toNat_lt
      omega)
    omega
  · rintro ⟨low, vendor⟩
    refine ⟨⟨low, by omega, fun is => ?_⟩, fun found a member => ?_⟩
    · have := (vendor is).1
      omega
    · obtain ⟨is, front⟩ := (isP2pIe_iff low stands fun is => (vendor is).1).mp found
      obtain ⟨least, most⟩ := (vendor is).2 front
      have size := attrsSize_eq low stands
      rw [mem_placesFrom, Merging.count, at_, size, sint_of_lt low] at member
      omega

theorem next_i (st : Merging) (m : Int → UInt8) : (st.next m).i = stepOf m st.i := rfl

theorem mergeAlong_of_ends {es : List Element} {rest : List UInt8} (small : n < 2 ^ 32)
    (ends : (merge m n).Ends (Within n) st merged) (at_ : st.i = sint p)
    (stands : Stands (fromStart m) p (bytesOf es ++ rest)) (cut : Cut rest)
    (length : p + (bytesOf es ++ rest).length = n) : mergeAlong rest p es := by
  induction es generalizing p st with
  | nil =>
      rcases cut.cases with rfl | ⟨b, rfl⟩ | ⟨id, len, s, rfl, short⟩
      · exact .inl rfl
      · simp only [bytesOf_nil, List.nil_append, List.length_singleton] at length
        have inside := ((merge_goes small at_ (by omega)).mp ends).1.1
        have header := (headerLooks_iff (m := m) (n := n) (p := p) (by omega)).mp inside
        omega
      · obtain ⟨⟨low, vendor⟩, -⟩ := (merge_header small at_ stands length).mp ends
        refine .inr ⟨id, len, s, rfl, low, fun is => ⟨(vendor is).1, fun front => ?_⟩⟩
        have := (vendor is).2 front
        omega
  | cons e es ih =>
      rw [bytesOf_cons, List.append_assoc] at stands length
      have sizes : p + ((e.data ++ (bytesOf es ++ rest)).length + 2) = n := by
        rw [← length, List.length_append, @List.length_append _ e.bytes, Element.length_bytes]
        omega
      obtain ⟨⟨low, vendor⟩, later⟩ :=
        (merge_header (s := e.data ++ (bytesOf es ++ rest)) small at_ stands sizes).mp ends
      refine ⟨low, fun is => ⟨(vendor is).1, fun front => ?_⟩, ih later ?_ stands.right ?_⟩
      · have least := ((vendor is).2 front).1
        rw [e.lengthByte] at least
        exact List.prefix_of_prefix_length_le front (List.prefix_append _ _) least
      · rw [next_i, at_, stepOf_eq (s := e.data ++ (bytesOf es ++ rest)) low stands, e.lengthByte,
          ← Element.length_bytes]
      · rw [List.length_append] at length
        omega

theorem attrsOf_cons (e : Element) (es : List Element) :
    attrsOf (e :: es) = (if isP2p e then e.data.drop 4 else []) ++ attrsOf es := by
  rw [attrsOf, List.filter_cons]
  split <;> simp [attrsOf]

/-- Where elements fit, the passes tell the P2P elements. -/
theorem isP2pIe_element {e : Element} {s : List UInt8} (low : p < 2 ^ 31)
    (stands : Stands (fromStart m) p (e.bytes ++ s))
    (vendor : e.id = 221 → 4 ≤ (e.data ++ s).length ∧ (p2pOui <+: e.data ++ s → p2pOui <+: e.data)) :
    isP2pIe m (sint p) = isP2p e := by
  rw [Bool.eq_iff_iff, isP2p_iff, isP2pIe_iff (s := e.data ++ s) low stands fun is => (vendor is).1]
  constructor
  · rintro ⟨is, front⟩
    exact ⟨is, (vendor is).2 front⟩
  · rintro ⟨is, front⟩
    exact ⟨is, front.trans (List.prefix_append _ _)⟩

/-- The first pass behind the end. -/
theorem mergedLen_beyond {len : Nat} (beyond : n ≤ p) (below : p < 2 ^ 32) (fits : len < 256) :
    (mergedLen m n).Ends (Within n) (sint p, (len : Int)) (len + 4) := by
  have stops : ¬before (sint p) n = true := by
    rw [before_sint below]
    omega
  refine .done (fun a member => ?_) ?_
  · simp only [mergedLen, if_neg stops] at member
    exact absurd member List.not_mem_nil
  · have total : sint ((len : Int) + 4) = (len : Int) + 4 := sint_of_lt (i := len + 4) (by omega)
    simp only [mergedLen, if_neg stops]
    rw [total, Int.emod_eq_of_lt (by omega) (by omega)]
    congr 1

/-- The first pass at a header that is inside. -/
theorem mergedLen_goes {id length : UInt8} {s : List UInt8} {len : Int} {r : Nat} (low : p < 2 ^ 31)
    (stands : Stands (fromStart m) p (id :: length :: s)) (sizes : p + (s.length + 2) = n) (enough : id = 221 → 4 ≤ s.length)
    (rest : (mergedLen m n).Ends (Within n) (sint ((p + (length.toNat + 2) : Nat) : Int),
      if isP2pIe m (sint p) then sint (len + attrsSize m (sint p)) else len) r) :
    (mergedLen m n).Ends (Within n) (sint p, len) r := by
  have idThere : fromStart m p = id := stands.byte (k := 0) (by simp)
  have goes : before (sint p) n = true := by rw [before_sint (by omega)]; omega
  refine .again ?_ ?_ rest
  · simp only [mergedLen, if_pos goes]
    have header := headerLooks_iff (m := m) (n := n) (p := p) (by omega)
    refine header.mpr ⟨low, by omega, fun vendor => ?_⟩
    have := enough (idThere ▸ vendor)
    omega
  · simp only [mergedLen, if_pos goes]
    rw [stepOf_eq low stands]

/-- The first pass along elements that fit. -/
theorem mergedLen_of_along {es : List Element} {rest : List UInt8} (len : Nat) (small : n < 2 ^ 32)
    (stands : Stands (fromStart m) p (bytesOf es ++ rest)) (cut : Cut rest)
    (length : p + (bytesOf es ++ rest).length = n) (along : mergeAlong rest p es) (fits : len + (attrsOf es).length < 256) :
    (mergedLen m n).Ends (Within n) (sint p, (len : Int)) (len + (attrsOf es).length + 4) := by
  induction es generalizing p len with
  | nil =>
      have fits' : len < 256 := by simpa [attrsOf] using fits
      rcases along with rfl | ⟨id, size, s, rfl, low, other⟩
      · exact mergedLen_beyond (by simpa using length.ge) (by omega) fits'
      · have bound := size.toNat_lt
        have short := cut_cons_iff.mp cut
        have none_ : ¬isP2pIe m (sint p) = true := by
          rw [isP2pIe_iff low stands fun is => (other is).1]
          exact fun found => (other found.1).2 found.2
        simp only [bytesOf_nil, List.nil_append, List.length_cons] at length
        refine mergedLen_goes low stands length (fun is => (other is).1) ?_
        rw [if_neg none_]
        exact mergedLen_beyond (by omega) (by omega) fits'
  | cons e es ih =>
      obtain ⟨low, vendor, later⟩ := along
      rw [bytesOf_cons, List.append_assoc] at stands length
      have sizes : p + ((e.data ++ (bytesOf es ++ rest)).length + 2) = n := by
        rw [← length, List.length_append, @List.length_append _ e.bytes, Element.length_bytes]
        omega
      have short := e.short
      have found := isP2pIe_element low stands vendor
      have size := attrsSize_eq (s := e.data ++ (bytesOf es ++ rest)) low stands
      rw [e.lengthByte] at size
      rw [List.length_append] at length
      refine mergedLen_goes (s := e.data ++ (bytesOf es ++ rest)) low stands sizes (fun is => (vendor is).1) ?_
      rw [found, size, e.lengthByte, ← Element.length_bytes]
      rw [attrsOf_cons, List.length_append] at fits ⊢
      by_cases is : isP2p e = true
      · simp only [is, if_true, List.length_drop] at fits ⊢
        have least : 4 ≤ e.data.length := ((isP2p_iff e).mp is).2.length_le
        have sum : sint ((len : Int) + ((e.data.length : Int) - 4)) = ((len + (e.data.length - 4) : Nat) : Int) := by
          rw [← sint_of_lt (i := len + (e.data.length - 4)) (by omega)]
          congr 1
          omega
        rw [sum, ← Nat.add_assoc]
        exact ih _ stands.right (by omega) later (by omega)
      · simp only [is, if_false, List.length_nil, Nat.zero_add, Bool.false_eq_true] at fits ⊢
        exact ih _ stands.right (by omega) later fits

theorem writeAt_append (out : Int → UInt8) (start : Int) (front back : List UInt8) :
    writeAt (writeAt out start front) (start + front.length) back = writeAt out start (front ++ back) := by
  funext k
  unfold writeAt
  rw [List.length_append, Nat.cast_add]
  by_cases behind : start + front.length ≤ k
  · by_cases inside : k < start + front.length + back.length
    · have index : (k - start).toNat - front.length = (k - (start + front.length)).toNat := by omega
      rw [if_pos ⟨behind, inside⟩, if_pos (by omega), List.getD_append_right _ _ _ _ (by omega), index]
    · rw [if_neg (by omega), if_neg (by omega), if_neg (by omega)]
  · rw [if_neg (by omega)]
    by_cases inside : start ≤ k
    · rw [if_pos (by omega), if_pos (by omega), List.getD_append _ _ _ _ (by omega)]
    · rw [if_neg (by omega), if_neg (by omega)]

/-- The second pass behind the end. -/
theorem merge_beyond (beyond : n ≤ p) (below : p < 2 ^ 32) (at_ : st.i = sint p) :
    (merge m n).Ends (Within n) st ⟨st.len.toNat + 4, st.out, st.sizes⟩ := by
  have stops : ¬before st.i n = true := by
    rw [at_, before_sint below]
    omega
  refine .done (fun a member => ?_) ?_
  · simp only [merge, if_neg stops] at member
    exact absurd member List.not_mem_nil
  · simp only [merge, if_neg stops]

/-- What `rtw_p2p_merge_ies` holds when `done` is written. -/
structure Wrote (out : Int → UInt8) (done : List UInt8) (st : Merging) : Prop where
  counted : st.len.toNat = done.length
  place : st.mergeIe = 6 + done.length
  written : st.out = writeAt out 0 (elOui ++ done)
  forward : ∀ size ∈ st.sizes, 0 ≤ size

/-- The copy of a P2P element. -/
theorem Wrote.copy {out : Int → UInt8} {done s : List UInt8} {e : Element} (wrote : Wrote out done st)
    (low : p < 2 ^ 31) (at_ : st.i = sint p) (stands : Stands (fromStart m) p (e.bytes ++ s)) (least : 4 ≤ e.data.length)
    (fits : done.length + (e.data.length - 4) < 256) : Wrote out (done ++ e.data.drop 4) (st.copy m) := by
  have size := attrsSize_eq (s := e.data ++ s) low stands
  rw [e.lengthByte] at size
  have short := e.short
  have lenThere : m ((p : Int) + 1) = UInt8.ofNat e.data.length :=
    stands.byte (k := 1) (by simp; omega)
  have count : st.count m = e.data.length - 4 := by
    rw [Merging.count, at_, size]
    omega
  have attrs : bytesFrom m (st.i + 2 + 4) (st.count m) = e.data.drop 4 := by
    have parts : Stands (fromStart m) (p + 2) (e.data.take 4 ++ e.data.drop 4) := by
      rw [List.take_append_drop]
      exact stands.data
    have behind : Stands (fromStart m) (p + 2 + 4) (e.data.drop 4) := by
      have there := parts.right
      rwa [List.length_take_of_le least] at there
    rw [count, at_, sint_of_lt low, ← List.length_drop]
    exact behind
  constructor
  · have four : (4 : UInt8) ≤ UInt8.ofNat e.data.length := by
      rw [UInt8.le_iff_toNat_le, e.lengthByte]
      exact least
    have small : (UInt8.ofNat e.data.length - 4).toNat = e.data.length - 4 := by
      rw [UInt8.toNat_sub_of_le _ _ four, e.lengthByte]
      rfl
    rw [Merging.copy, at_, sint_of_lt low, lenThere, UInt8.toNat_add, small, wrote.counted, List.length_append,
      List.length_drop, Nat.mod_eq_of_lt fits]
  · show st.mergeIe + attrsSize m st.i = _
    rw [at_, size, wrote.place, List.length_append, List.length_drop]
    omega
  · have place : st.mergeIe = 0 + ((elOui ++ done).length : Int) := by
      rw [wrote.place, List.length_append]
      simp [elOui]
    rw [Merging.copy, attrs, wrote.written, place, writeAt_append, List.append_assoc]
  · intro k member
    rcases List.mem_append.mp member with before | this
    · exact wrote.forward k before
    · rw [List.mem_singleton.mp this, at_, size]
      omega

/-- The second pass along elements that fit, when `done` is written. -/
theorem merge_of_along {es : List Element} {rest done : List UInt8} {out : Int → UInt8} (small : n < 2 ^ 32)
    (stands : Stands (fromStart m) p (bytesOf es ++ rest)) (cut : Cut rest)
    (length : p + (bytesOf es ++ rest).length = n) (along : mergeAlong rest p es) (at_ : st.i = sint p)
    (wrote : Wrote out done st) (fits : done.length + (attrsOf es).length < 256) :
    ∃ merged, (merge m n).Ends (Within n) st merged ∧ merged.ret = (done.length + (attrsOf es).length + 4 : Nat) ∧
      merged.out = writeAt out 0 (elOui ++ (done ++ attrsOf es)) ∧ ∀ size ∈ merged.sizes, 0 ≤ size := by
  induction es generalizing p st done with
  | nil =>
      have ended (q : Nat) (beyond : n ≤ q) (below : q < 2 ^ 32) (there : Merging) (at_ : there.i = sint q)
          (wrote : Wrote out done there) : ∃ merged, (merge m n).Ends (Within n) there merged ∧
            merged.ret = (done.length + (attrsOf []).length + 4 : Nat) ∧
            merged.out = writeAt out 0 (elOui ++ (done ++ attrsOf [])) ∧ ∀ size ∈ merged.sizes, 0 ≤ size := by
        refine ⟨_, merge_beyond beyond below at_, ?_, ?_, wrote.forward⟩
        · show (there.len.toNat : Int) + 4 = _
          rw [wrote.counted]
          rfl
        · show there.out = _
          rw [wrote.written, show attrsOf [] = [] from rfl, List.append_nil]
      rcases along with rfl | ⟨id, size, s, rfl, low, other⟩
      · exact ended p (by simpa using length.ge) (by simp at length; omega) st at_ wrote
      · have bound := size.toNat_lt
        have short := cut_cons_iff.mp cut
        have none_ : ¬isP2pIe m st.i = true := by
          rw [at_, isP2pIe_iff low stands fun is => (other is).1]
          exact fun found => (other found.1).2 found.2
        have next : st.next m = { st with i := stepOf m st.i } := by rw [Merging.next, if_neg none_]
        simp only [bytesOf_nil, List.nil_append, List.length_cons] at length
        obtain ⟨merged, ends, holds⟩ := ended (p + (size.toNat + 2)) (by omega) (by omega) (st.next m)
          (by rw [next_i, at_, stepOf_eq low stands]) (by rw [next]; exact ⟨wrote.1, wrote.2, wrote.3, wrote.4⟩)
        exact ⟨merged, (merge_header small at_ stands length).mpr
          ⟨⟨low, fun is => ⟨(other is).1, fun front => absurd front (other is).2⟩⟩, ends⟩, holds⟩
  | cons e es ih =>
      obtain ⟨low, vendor, later⟩ := along
      rw [bytesOf_cons, List.append_assoc] at stands length
      have sizes : p + ((e.data ++ (bytesOf es ++ rest)).length + 2) = n := by
        rw [← length, List.length_append, @List.length_append _ e.bytes, Element.length_bytes]
        omega
      have found := isP2pIe_element low stands vendor
      have next : (st.next m).i = sint ((p + e.bytes.length : Nat) : Int) := by
        rw [next_i, at_, stepOf_eq (s := e.data ++ (bytesOf es ++ rest)) low stands, e.lengthByte,
          ← Element.length_bytes]
      have behind : p + e.bytes.length + (bytesOf es ++ rest).length = n := by
        rw [← length, @List.length_append _ e.bytes, Nat.add_assoc]
      -- the header and what is copied are inside
      have here : p < 2 ^ 31 ∧ (e.id = 221 → 4 ≤ (e.data ++ (bytesOf es ++ rest)).length ∧
          (p2pOui <+: e.data ++ (bytesOf es ++ rest) → 4 ≤ (UInt8.ofNat e.data.length).toNat ∧
            (UInt8.ofNat e.data.length).toNat ≤ (e.data ++ (bytesOf es ++ rest)).length)) := by
        refine ⟨low, fun is => ⟨(vendor is).1, fun front => ?_⟩⟩
        rw [e.lengthByte, List.length_append]
        exact ⟨((vendor is).2 front).length_le, Nat.le_add_right _ _⟩
      have step (merged : Merged) : (merge m n).Ends (Within n) st merged ↔ _ :=
        merge_header (s := e.data ++ (bytesOf es ++ rest)) small at_ stands sizes
      rw [attrsOf_cons] at fits ⊢
      by_cases is : isP2p e = true
      · have least : 4 ≤ e.data.length := ((isP2p_iff e).mp is).2.length_le
        simp only [is, if_true, List.length_append, List.length_drop] at fits ⊢
        have wrote' : Wrote out (done ++ e.data.drop 4) (st.next m) := by
          obtain ⟨counted, place, written, forward⟩ := wrote.copy low at_ stands least (by omega)
          rw [Merging.next, at_, found, if_pos is]
          exact ⟨counted, place, written, forward⟩
        obtain ⟨merged, ends, ret, written, forward⟩ := ih stands.right behind later next wrote' (by
          rw [List.length_append, List.length_drop]
          omega)
        rw [List.append_assoc] at written
        rw [List.length_append, List.length_drop, Nat.add_assoc done.length] at ret
        exact ⟨merged, (step merged).mpr ⟨here, ends⟩, ret, written, forward⟩
      · simp only [is, if_false, List.nil_append, Bool.false_eq_true] at fits ⊢
        have wrote' : Wrote out done (st.next m) := by
          rw [Merging.next, at_, found, if_neg is]
          exact ⟨wrote.1, wrote.2, wrote.3, wrote.4⟩
        obtain ⟨merged, ends, holds⟩ := ih stands.right behind later next wrote' fits
        exact ⟨merged, (step merged).mpr ⟨here, ends⟩, holds⟩

/-- The byte that counts holds no more than 255. -/
theorem merge_ret_lt (ends : (merge m n).Ends (Within n) st merged) : merged.ret < 260 := by
  induction ends with
  | @done st merged here done =>
      simp only [merge] at done
      split at done
      · exact absurd done (by simp)
      · obtain rfl := Sum.inl.inj done
        have bound := st.len.toNat_lt
        show (st.len.toNat : Int) + 4 < 260
        omega
  | again _ _ _ ih => exact ih

end Runs

/-! ## The theorem -/

/-- The two passes agree, and the second merges what the elements hold, exactly if the elements fit. -/
theorem merge_sound_iff (m : Int → UInt8) (inLen : UInt32) (out : Int → UInt8) :
    MergeSound m inLen.toNat out ↔ MergeFits m inLen.toNat := by
  have small := inLen.toNat_lt
  have stands := framed_stands (fromStart m) 0 inLen.toNat
  have cut := framed_cut (fromStart m) 0 inLen.toNat
  have length := framed_all (fromStart m) inLen.toNat
  constructor
  · rintro ⟨turns, announced, turns', merged, -, -, run, inside, ret, total, -, -⟩
    have ends := Loop.ends_iff_run.mpr ⟨turns', run, inside⟩
    refine ⟨mergeAlong_of_ends small ends rfl stands cut length, ?_⟩
    have most := merge_ret_lt ends
    rw [List.length_append] at total
    simp only [elOui, List.length_cons, List.length_nil] at total
    omega
  · rintro ⟨along, fits⟩
    have first := mergedLen_of_along 0 small stands cut length along (by omega)
    obtain ⟨turns, run, inside⟩ := Loop.ends_iff_run.mp first
    have start : Wrote out [] (mergeStart out) := ⟨rfl, rfl, rfl, nofun⟩
    obtain ⟨merged, second, ret, written, forward⟩ := merge_of_along small stands cut length along rfl start (by simpa using fits)
    obtain ⟨turns', run', inside'⟩ := Loop.ends_iff_run.mp second
    refine ⟨turns, _, turns', merged, run, inside, run', inside', ret, ?_, written, forward⟩
    rw [List.length_append]
    simp only [elOui, List.length_cons, List.length_nil]
    omega

/-- A P2P element with 200 bytes of attributes. -/
def fragment : Element where
  id := 221
  data := p2pOui ++ List.replicate 200 0
  short := by
    rw [List.length_append, List.length_replicate]
    decide

def memoryOf (bytes : List UInt8) : Int → UInt8 := fun k => bytes.getD k.toNat 0

theorem bytesAt_memoryOf (bytes : List UInt8) : bytesAt (fromStart (memoryOf bytes)) 0 bytes.length = bytes :=
  List.ext_getElem (length_bytesAt ..) fun k _ inside => by
    simp [bytesAt, fromStart, memoryOf, List.getElem?_eq_getElem inside]

/-- Of two such elements 404 bytes are announced, and 148 returned. -/
theorem fragments_overflow : ¬MergeSound (memoryOf (bytesOf [fragment, fragment])) 412 fun _ => 0 := by
  rintro ⟨turns, announced, turns', merged, -, -, run, inside, ret, total, -, -⟩
  have most := merge_ret_lt (Loop.ends_iff_run.mpr ⟨turns', run, inside⟩)
  have list := bytesAt_memoryOf (bytesOf [fragment, fragment])
  rw [show (bytesOf [fragment, fragment]).length = 412 from by decide +kernel] at list
  rw [show (framed (fromStart (memoryOf (bytesOf [fragment, fragment]))) 0 412).1 = [fragment, fragment] by
    rw [framed_of_bytesOf list]] at total
  have size : (elOui ++ attrsOf [fragment, fragment]).length = 406 := by decide +kernel
  omega

end Vmac.Ie
