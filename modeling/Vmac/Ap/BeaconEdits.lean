/-
# Vmac.Ap.BeaconEdits -- what the beacon editors do to a list of elements

For a beacon whose bytes are those of a list of elements, each search is one in the list, and each
editor puts bytes between two parts of it.

* `Meets`: the lists, the edits and the outcomes of `rtw_malloc` for which an editor does what it
  is for.
* `beacon_edited_iff`: it does it for no others.
* `beacons_broken`: three for which it does not.
-/
import Mathlib.Data.List.TakeWhile
import Vmac.Ap.Beacon

namespace Vmac.Ap

open Theory.Bytes Theory.Elements Security

set_option autoImplicit false

/-- The beacon has these elements, and `IELength` is what they take. -/
def BssidEx.Holds (b : BssidEx) (es : List Element) : Prop := b.Has (bytesOf es)

/-! ## The searches -/

section Search

variable {ies : Mem} {index : UInt8} {limit : Int}

theorem element_at {p : Nat} {e : Element} {s : List UInt8} (bytes : bytesAt ies p (e.bytes ++ s).length = e.bytes ++ s) :
    ies p = e.id ∧ (ies (p + 1)).toNat = e.data.length ∧
      bytesAt ies (p + (e.data.length + 2)) s.length = s := by
  obtain ⟨front, rest⟩ := bytesAt_append_iff.mp bytes
  have length := at_of_bytesAt [e.id] front
  exact ⟨at_of_bytesAt [] front, by rw [← e.lengthByte]; exact congrArg UInt8.toNat length, rest⟩

theorem rtwGetIeLoop_lacks {es : List Element} (nonempty : es ≠ []) (lacks : Lacks index es) (turns : Nat) {p i : Nat}
    (bytes : bytesAt ies p (bytesOf es).length = bytesOf es) (whole : limit = i + (bytesOf es).length) :
    rtwGetIeLoop ies index limit turns p i = none := by
  induction turns generalizing es p i with
  | zero => rfl
  | succ turns ih =>
      cases es with
      | nil => exact absurd rfl nonempty
      | cons e es =>
          obtain ⟨id, length, rest⟩ := element_at bytes
          obtain ⟨other, others⟩ := List.forall_mem_cons.mp lacks
          rw [bytesOf_cons, List.length_append, Element.length_bytes] at whole
          simp only [rtwGetIeLoop, id, length, if_neg other]
          split
          · rfl
          · rename_i more
            have left : es ≠ [] := by
              rintro rfl
              simp at whole
              omega
            exact ih left others rest (by omega)

theorem rtwGetIeLoop_first {pre post : List Element} {e : Element} (lacks : Lacks index pre) (found : e.id = index)
    {turns p i : Nat} (enough : pre.length < turns)
    (bytes : bytesAt ies p (bytesOf (pre ++ e :: post)).length = bytesOf (pre ++ e :: post))
    (whole : limit = i + (bytesOf (pre ++ e :: post)).length) :
    rtwGetIeLoop ies index limit turns p i = some (p + (bytesOf pre).length) := by
  induction pre generalizing turns p i with
  | nil =>
      obtain ⟨turns, rfl⟩ := Nat.exists_eq_add_of_lt enough
      obtain ⟨id, -, -⟩ := element_at bytes
      simp only [List.length_nil, Nat.zero_add, rtwGetIeLoop, id, if_pos found, bytesOf_nil, Nat.add_zero]
  | cons f pre ih =>
      cases turns with
      | zero => exact absurd enough (by omega)
      | succ turns =>
          obtain ⟨id, length, rest⟩ := element_at bytes
          obtain ⟨other, others⟩ := List.forall_mem_cons.mp lacks
          rw [List.cons_append, bytesOf_cons, List.length_append, Element.length_bytes] at whole
          have behind : 2 ≤ (bytesOf (pre ++ e :: post)).length := by
            simp
            omega
          have later := @ih others turns _ (i + (f.data.length + 2)) (by simpa using enough) rest (by omega)
          simp only [rtwGetIeLoop, id, length, if_neg other]
          rw [if_neg (by omega), later, bytesOf_cons, List.length_append, Element.length_bytes, Nat.add_assoc]

theorem length_le_bytesOf (es : List Element) : es.length ≤ (bytesOf es).length := by
  induction es with
  | nil => exact Nat.le_refl 0
  | cons e es ih =>
      rw [bytesOf_cons, List.length_append, Element.length_bytes, List.length_cons]
      omega

end Search

section Holds

variable {b : BssidEx} {index : UInt8} {es pre post : List Element} {e : Element}

theorem getIe_lacks (holds : b.Holds es) (lacks : Lacks index es) : b.getIe index = none := by
  rw [BssidEx.getIe, rtwGetIe, holds.length]
  split
  · rfl
  · rename_i some_
    have nonempty : es ≠ [] := by
      rintro rfl
      simp at some_
    rw [rtwGetIeLoop_lacks nonempty lacks _ holds.bytes (by omega), Option.map_none]

theorem getIe_first (holds : b.Holds (pre ++ e :: post)) (lacks : Lacks index pre) (found : e.id = index) :
    b.getIe index = some (fixedIeLength + (bytesOf pre).length, e.data.length) := by
  have enough := length_le_bytesOf (pre ++ e :: post)
  have split := holds.bytes
  rw [bytesOf_append] at split
  obtain ⟨-, length, -⟩ := element_at (bytesAt_append_iff.mp split).2
  rw [List.length_append, List.length_cons] at enough
  rw [BssidEx.getIe, rtwGetIe, holds.length, if_neg (by omega),
    rtwGetIeLoop_first lacks found (by omega) holds.bytes (by omega), Option.map_some, length]

theorem ieSize_eq (holds : b.Holds es) : b.ieSize index = firstSize index es := by
  rcases lacks_or_first index es with lacks | ⟨pre, e, post, rfl, before, found⟩
  · have none_ : es.find? (·.id = index) = none := List.find?_eq_none.mpr fun e member => by simpa using lacks e member
    rw [BssidEx.ieSize, getIe_lacks holds lacks, firstSize, none_]
    rfl
  · have none_ : pre.find? (·.id = index) = none :=
      List.find?_eq_none.mpr fun e member => by simpa using before e member
    rw [BssidEx.ieSize, getIe_first holds before found, firstSize, List.find?_append, none_]
    simp [found]

/-- The last of some elements: where it is, if they begin at `at_`, and the length of its data. -/
def lastPlace (at_ : Nat) (found : Option (Nat × Nat)) : List Element → Option (Nat × Nat)
  | [] => found
  | e :: es => lastPlace (at_ + e.bytes.length) (some (at_, e.data.length)) es

theorem lastPlace_concat (at_ : Nat) (found : Option (Nat × Nat)) (init : List Element) (last : Element) :
    lastPlace at_ found (init ++ [last]) = some (at_ + (bytesOf init).length, last.data.length) := by
  induction init generalizing at_ found with
  | nil => rfl
  | cons e init ih =>
      rw [List.cons_append, lastPlace, ih, bytesOf_cons, List.length_append, Nat.add_assoc]

/-- The search passes the elements with smaller ids. -/
theorem addBcnIeLoop_smaller {at_ turns : Nat} {found : Option (Nat × Nat)} (smaller : ∀ f ∈ pre, f.id < index)
    (bytes : bytesAt b.ies at_ (bytesOf (pre ++ post)).length = bytesOf (pre ++ post))
    (whole : b.ieLength = at_ + (bytesOf (pre ++ post)).length) :
    addBcnIeLoop b index (pre.length + turns) at_ found =
      addBcnIeLoop b index turns (at_ + (bytesOf pre).length) (lastPlace at_ found pre) := by
  induction pre generalizing at_ found with
  | nil => simp [lastPlace]
  | cons f pre ih =>
      obtain ⟨first, others⟩ := List.forall_mem_cons.mp smaller
      obtain ⟨id, length, rest⟩ := element_at bytes
      rw [List.cons_append, bytesOf_cons, List.length_append, Element.length_bytes] at whole
      have later := @ih (at_ + (f.data.length + 2)) (some (at_, f.data.length)) others rest (by omega)
      rw [List.length_cons, Nat.add_right_comm, addBcnIeLoop, id, length, if_neg (by omega),
        if_neg (UInt8.not_lt.mpr (UInt8.le_of_lt first)), if_neg (UInt8.ne_of_lt first), later, lastPlace, bytesOf_cons,
        List.length_append, Element.length_bytes, Nat.add_assoc]

theorem addBcnIeLoop_found {at_ turns : Nat} {found : Option (Nat × Nat)} (is : e.id = index)
    (bytes : bytesAt b.ies at_ (bytesOf (e :: post)).length = bytesOf (e :: post))
    (whole : b.ieLength = at_ + (bytesOf (e :: post)).length) :
    addBcnIeLoop b index (turns + 1) at_ found = (some (at_, e.data.length), true) := by
  obtain ⟨id, length, -⟩ := element_at bytes
  rw [bytesOf_cons, List.length_append, Element.length_bytes] at whole
  rw [addBcnIeLoop, id, length, if_neg (by omega), is, if_neg (UInt8.lt_irrefl index), if_pos rfl]

/-- The search ends at a larger id, and at the end. -/
theorem addBcnIeLoop_larger {at_ turns : Nat} {found : Option (Nat × Nat)} (larger : ∀ f ∈ post.head?, index < f.id)
    (bytes : bytesAt b.ies at_ (bytesOf post).length = bytesOf post)
    (whole : b.ieLength = at_ + (bytesOf post).length) :
    addBcnIeLoop b index (turns + 1) at_ found = (found, false) := by
  cases post with
  | nil =>
      have ends : b.ieLength ≤ at_ := Nat.le_of_eq whole
      rw [addBcnIeLoop, if_pos ends]
  | cons f post =>
      obtain ⟨id, length, -⟩ := element_at bytes
      rw [bytesOf_cons, List.length_append, Element.length_bytes] at whole
      rw [addBcnIeLoop, id, if_neg (by omega), if_pos (larger f rfl)]

end Holds

/-! ## What an editor is for -/

/-- There is nothing to save, or memory to save it. -/
def Saves (malloc : Nat → Bool) (remainder : List UInt8) : Prop := remainder = [] ∨ malloc remainder.length = true

/-- The fixed fields stay.  The list is edited; without memory for the remainder it stays as it is. -/
def BcnOp.Preserves (malloc : Nat → Bool) (b : BssidEx) (es : List Element) (op : BcnOp) : Prop :=
  bytesAt (op.run malloc b).ies 0 fixedIeLength = bytesAt b.ies 0 fixedIeLength ∧
    if op.starved malloc b then (op.run malloc b).Holds es
    else ∃ es', (op.run malloc b).Holds es' ∧ Edited op.index op.given es es'

section Preserves

variable {malloc : Nat → Bool} {b : BssidEx} {op : BcnOp} {e : Edit} {x y z : List UInt8} {es : List Element}

theorem Edit.At.starved_iff (malloc : Nat → Bool) (at_ : e.At x y z) : e.starved malloc = true ↔ ¬Saves malloc z := by
  rw [Edit.starved, at_.remainderIelen, Saves]
  cases z <;> simp

theorem run_some (edit : op.edit b = some e) : op.run malloc b = e.perform malloc b := by
  rw [BcnOp.run_eq, edit]
  rfl

theorem starved_some (edit : op.edit b = some e) : op.starved malloc b = e.starved malloc := by
  rw [BcnOp.starved, edit]
  rfl

theorem fixed_of_edit (malloc : Nat → Bool) (edit : op.edit b = some e) (behind : fixedIeLength ≤ e.dstIe) :
    bytesAt (op.run malloc b).ies 0 fixedIeLength = bytesAt b.ies 0 fixedIeLength := by
  rw [run_some edit]
  exact bytesAt_of_below (e.perform_below malloc b) (by omega)

/-- An editor that returns at once. -/
theorem preserves_none (edit : op.edit b = none) (holds : b.Holds es) :
    op.Preserves malloc b es ↔ Edited op.index op.given es es := by
  have same : op.run malloc b = b := by
    rw [BcnOp.run_eq, edit]
    rfl
  have fed : op.starved malloc b = false := by
    rw [BcnOp.starved, edit]
    rfl
  rw [BcnOp.Preserves, same, fed]
  constructor
  · rintro ⟨-, es', holds', edited⟩
    have lengths := holds'.length
    rw [holds.length, Nat.add_left_cancel_iff] at lengths
    have bytes := holds'.bytes
    rw [← lengths, holds.bytes] at bytes
    rwa [← bytesOf_injective bytes] at edited
  · exact fun edited => ⟨rfl, es, holds, edited⟩

/-- An editor that puts its bytes in the place of `y`. -/
theorem preserves_at (edit : op.edit b = some e) (at_ : e.At x y z) (holds : b.Holds es)
    (split : bytesOf es = x ++ (y ++ z)) (room : fixedIeLength + (bytesOf es).length + e.bytes.length ≤ maxIeSz) :
    op.Preserves malloc b es ↔
      (Saves malloc z → ∃ es', bytesOf es' = x ++ (e.bytes ++ z) ∧ Edited op.index op.given es es') ∧
      (¬Saves malloc z → e.bytes = y) := by
  have has : b.Has (x ++ (y ++ z)) := split ▸ holds
  have fits : fixedIeLength + x.length + e.bytes.length + z.length ≤ maxIeSz := by
    simp only [split, List.length_append] at room
    omega
  have fixed := fixed_of_edit malloc edit (by rw [at_.dstIe]; exact Nat.le_add_right _ _)
  have starved := at_.starved_iff malloc
  rw [BcnOp.Preserves, and_iff_right fixed, run_some edit, starved_some edit]
  by_cases saves : Saves malloc z
  · have fed : e.starved malloc = false := by
      rw [← Bool.not_eq_true, starved]
      exact not_not.mpr saves
    have after := at_.perform_saved has fed fits
    rw [fed]
    simp only [Bool.false_eq_true, if_false, saves, true_imp_iff, not_true_eq_false, false_imp_iff, and_true]
    constructor
    · rintro ⟨es', holds', edited⟩
      have lengths := holds'.length
      rw [after.length, Nat.add_left_cancel_iff] at lengths
      have same := holds'.bytes
      rw [← lengths, after.bytes] at same
      exact ⟨es', same.symm, edited⟩
    · rintro ⟨es', bytes, edited⟩
      refine ⟨es', ?_, edited⟩
      rwa [BssidEx.Holds, bytes]
  · have hungry := starved.mpr saves
    have stays := at_.perform_starved has hungry fits
    rw [hungry]
    simp only [if_true, saves, false_imp_iff, true_and, not_false_eq_true, true_imp_iff]
    rw [BssidEx.Holds, split, stays]

/-- An editor that puts the given element, or nothing, in the place of some elements. -/
theorem preserves_some {pre mid post : List Element} (edit : op.edit b = some e)
    (at_ : e.At (bytesOf pre) (bytesOf mid) (bytesOf post)) (holds : b.Holds (pre ++ (mid ++ post)))
    (bytes : e.bytes = bytesOf op.given.toList)
    (room : fixedIeLength + (bytesOf (pre ++ (mid ++ post))).length + e.bytes.length ≤ maxIeSz) :
    op.Preserves malloc b (pre ++ (mid ++ post)) ↔
      (Saves malloc (bytesOf post) →
        Edited op.index op.given (pre ++ (mid ++ post)) (pre ++ (op.given.toList ++ post))) ∧
      (¬Saves malloc (bytesOf post) → op.given.toList = mid) := by
  rw [preserves_at edit at_ holds (by simp only [bytesOf_append]) room, bytes, ← bytesOf_append, ← bytesOf_append]
  constructor
  · rintro ⟨saved, unsaved⟩
    refine ⟨fun saves => ?_, fun starves => bytesOf_injective (unsaved starves)⟩
    obtain ⟨es', same, edited⟩ := saved saves
    rwa [bytesOf_injective same] at edited
  · rintro ⟨saved, unsaved⟩
    exact ⟨fun saves => ⟨_, rfl, saved saves⟩, fun starves => congrArg bytesOf (unsaved starves)⟩

end Preserves

/-! ## The conditions -/

theorem uintSub_of_le {x y : Nat} (le : y ≤ x) (small : x < 2 ^ 32) : uintSub x y = x - y := by
  rw [uintSub, Nat.sub_add_comm le, Nat.add_mod_right, Nat.mod_eq_of_lt (by omega)]

/-- An element is put in the place of `e`. -/
def Replaces (malloc : Nat → Bool) (e new : Element) (post : List Element) : Prop :=
  (Saves malloc (bytesOf post) → Lacks new.id post) ∧ (¬Saves malloc (bytesOf post) → e = new)

/-- `rtw_add_bcn_ie` finds no element with the id between `pre` and `rest`; it needs the last one of `pre`, with data. -/
def Inserts (malloc : Nat → Bool) (new : Element) (pre rest : List Element) : Prop :=
  if ∃ last ∈ pre.getLast?, last.data ≠ [] then Saves malloc (bytesOf rest) ∧ Lacks new.id rest
  else rest.filter (·.id = new.id) = [new]

/-- Where `update_BCNTIM` puts a TIM element, counted from the first element. -/
def timOffset (es : List Element) : Nat := firstSize ssidIe es + firstSize supportedratesIe es + 3

/-- When an editor does what it is for. -/
def BcnOp.Meets (malloc : Nat → Bool) (es : List Element) : BcnOp → Prop
  | .updateTim timBitmap =>
      match es.dropWhile (·.id ≠ timIeId) with
      | e :: post => e.data ≠ [] ∧ Replaces malloc e (timIe timBitmap) post
      | [] =>
          -- the place is in the list, and between two elements or as good as that
          timOffset es ≤ (bytesOf es).length ∧ Saves malloc ((bytesOf es).drop (timOffset es)) ∧
            ∃ front back k, es = front ++ back ∧
              bytesOf front = (bytesOf es).take (timOffset es) ++ (List.replicate k (timIe timBitmap).bytes).flatten
  | .add new =>
      match es.dropWhile (·.id < new.id) with
      | e :: post =>
          if e.id = new.id then
            if e.data = [] then (e :: post).filter (·.id = new.id) = [new] else Replaces malloc e new post
          else Inserts malloc new (es.takeWhile (·.id < new.id)) (e :: post)
      | [] => Inserts malloc new es []
  | .remove index =>
      match es.dropWhile (·.id ≠ index) with
      | e :: post => e.data ≠ [] ∧ Saves malloc (bytesOf post) ∧ Lacks index post
      | [] => True

section Conditions

variable {malloc : Nat → Bool} {b : BssidEx} {index : UInt8} {es pre post rest : List Element} {e new : Element}

theorem dropWhile_lacks (lacks : Lacks index es) : es.dropWhile (·.id ≠ index) = [] := by
  apply List.dropWhile_eq_nil_iff.mpr
  intro e member
  simpa using lacks e member

theorem dropWhile_first (lacks : Lacks index pre) (found : e.id = index) :
    (pre ++ e :: post).dropWhile (·.id ≠ index) = e :: post := by
  rw [List.dropWhile_append_of_pos fun f member => by simpa using lacks f member]
  simp [found]

/-- The lengths are far from `UINT_MAX`. -/
theorem ieLength_small (holds : b.Holds es) {n : Nat} (room : fixedIeLength + (bytesOf es).length + n ≤ maxIeSz) :
    b.ieLength < 2 ^ 32 := by
  rw [holds.length]
  exact Nat.lt_of_le_of_lt (Nat.le_of_add_right_le room) (by decide)

/-- The remainder that an editor saves behind an element it found. -/
theorem remainder_behind (holds : b.Holds (pre ++ e :: post)) {n : Nat}
    (room : fixedIeLength + (bytesOf (pre ++ e :: post)).length + n ≤ maxIeSz) :
    uintSub (uintSub b.ieLength (fixedIeLength + (bytesOf pre).length)) (e.data.length + 2) =
      (bytesOf post).length := by
  have length := holds.length
  have small := ieLength_small holds room
  simp only [bytesOf_append, bytesOf_cons, List.length_append, Element.length_bytes] at length
  rw [uintSub_of_le (by omega) small, uintSub_of_le (by omega) (by omega)]
  omega

theorem remove_preserves_iff (holds : b.Holds es) (room : fixedIeLength + (bytesOf es).length ≤ maxIeSz) :
    (BcnOp.remove index).Preserves malloc b es ↔ (BcnOp.remove index).Meets malloc es := by
  rcases lacks_or_first index es with lacks | ⟨pre, e, post, rfl, before, found⟩
  · have none_ : (BcnOp.remove index).edit b = none := by
      simp only [BcnOp.edit, removeBcnIeEdit, getIe_lacks holds lacks]
    rw [preserves_none none_ holds, BcnOp.Meets, dropWhile_lacks lacks]
    exact iff_of_true (edited_self_none.mpr lacks) trivial
  · have remainder := @remainder_behind _ _ _ _ holds 0 room
    rw [BcnOp.Meets, dropWhile_first before found]
    cases long : e.data.length with
    | zero =>
        have none_ : (BcnOp.remove index).edit b = none := by
          simp only [BcnOp.edit, removeBcnIeEdit, getIe_first holds before found, long]
        rw [preserves_none none_ holds]
        refine iff_of_false (fun edited => ?_) (fun meets => meets.1 (List.eq_nil_of_length_eq_zero long))
        exact edited_self_none.mp edited e (by simp) found
    | succ n =>
        rw [long] at remainder
        have some_ : (BcnOp.remove index).edit b = some
            { dstIe := fixedIeLength + (bytesOf pre).length, bytes := []
              premainderIe := fixedIeLength + (bytesOf pre).length + (n + 1 + 2)
              remainderIelen := (bytesOf post).length } := by
          simp only [BcnOp.edit, removeBcnIeEdit, getIe_first holds before found, long, remainder]
        have full : e.data ≠ [] := List.ne_nil_of_length_eq_add_one long
        show BcnOp.Preserves malloc b (pre ++ ([e] ++ post)) _ ↔ e.data ≠ [] ∧ _
        rw [preserves_some some_ ⟨rfl, by simp [long], rfl⟩ holds rfl room, and_iff_right full]
        show (_ → Edited index none (pre ++ e :: post) (pre ++ post)) ∧ (_ → [] = [e]) ↔ _
        rw [edited_removed found before]
        simp only [reduceCtorEq, imp_false, not_not]
        exact ⟨fun both => ⟨both.2, both.1 both.2⟩, fun both => ⟨fun _ => both.2, both.1⟩⟩

/-- An editor that puts a new element in the place of the first one with its id. -/
theorem replaced_iff {op : BcnOp} (edit : op.edit b = some
      { dstIe := fixedIeLength + (bytesOf pre).length, bytes := new.bytes
        premainderIe := fixedIeLength + (bytesOf pre).length + (e.data.length + 2)
        remainderIelen := (bytesOf post).length })
    (given : op.given = some new) (index : op.index = new.id) (holds : b.Holds (pre ++ e :: post))
    (room : fixedIeLength + (bytesOf (pre ++ e :: post)).length + new.bytes.length ≤ maxIeSz)
    (is : e.id = new.id) (lacks : Lacks new.id pre) :
    op.Preserves malloc b (pre ++ e :: post) ↔ Replaces malloc e new post := by
  show BcnOp.Preserves malloc b (pre ++ ([e] ++ post)) _ ↔ _
  rw [preserves_some edit ⟨rfl, by simp, rfl⟩ holds (by simp [given]) room, given, index]
  show (_ → Edited new.id (some new) (pre ++ e :: post) (pre ++ new :: post)) ∧ (_ → [new] = [e]) ↔ _
  rw [edited_replaced rfl is lacks, Replaces]
  simp only [List.cons.injEq, and_true, eq_comm]

/-- `rtw_add_bcn_ie` that returns at once. -/
theorem add_returns_iff (none_ : (BcnOp.add new).edit b = none) (holds : b.Holds (pre ++ rest))
    (lacks : Lacks new.id pre) :
    (BcnOp.add new).Preserves malloc b (pre ++ rest) ↔ rest.filter (·.id = new.id) = [new] := by
  rw [preserves_none none_ holds]
  show Edited new.id (some new) _ _ ↔ _
  rw [edited_self_some, List.filter_append, lacks_iff_filter.mp lacks, List.nil_append]

section Add

variable (holds : b.Holds es) (room : fixedIeLength + (bytesOf es).length + new.bytes.length ≤ maxIeSz)
  (smaller : ∀ f ∈ pre, f.id < new.id)

include smaller in
theorem lacks_of_smaller : Lacks new.id pre := fun f member => UInt8.ne_of_lt (smaller f member)

include holds smaller in
/-- The search of `rtw_add_bcn_ie` in the whole list. -/
theorem addBcnIe_search (split : es = pre ++ rest) : ∃ turns,
    addBcnIeLoop b new.id b.ieLength fixedIeLength none =
      addBcnIeLoop b new.id (turns + 1) (fixedIeLength + (bytesOf pre).length) (lastPlace fixedIeLength none pre) ∧
    bytesAt b.ies (fixedIeLength + (bytesOf pre).length) (bytesOf rest).length = bytesOf rest ∧
    b.ieLength = fixedIeLength + (bytesOf pre).length + (bytesOf rest).length := by
  subst split
  have length := holds.length
  have positive : 0 < fixedIeLength := by decide
  have few := length_le_bytesOf pre
  rw [bytesOf_append, List.length_append] at length
  obtain ⟨turns, eq⟩ := Nat.exists_eq_add_of_le (show pre.length + 1 ≤ b.ieLength by omega)
  refine ⟨turns, ?_, ?_, by omega⟩
  · rw [show addBcnIeLoop b new.id b.ieLength = addBcnIeLoop b new.id (pre.length + (turns + 1)) by
      rw [eq]
      congr 1
      omega]
    exact addBcnIeLoop_smaller smaller holds.bytes holds.length
  · have bytes := holds.bytes
    rw [bytesOf_append] at bytes
    exact (bytesAt_append_iff.mp bytes).2

include holds room smaller in
theorem add_found_iff (split : es = pre ++ e :: post) (is : e.id = new.id) :
    (BcnOp.add new).Preserves malloc b es ↔
      if e.data = [] then (e :: post).filter (·.id = new.id) = [new] else Replaces malloc e new post := by
  obtain ⟨turns, search, bytes, whole⟩ := addBcnIe_search holds smaller split
  subst split
  rw [addBcnIeLoop_found is bytes whole] at search
  have remainder := remainder_behind holds room
  have lacks := lacks_of_smaller smaller
  cases long : e.data.length with
  | zero =>
      have none_ : (BcnOp.add new).edit b = none := by
        simp only [BcnOp.edit, addBcnIeEdit, search, long]
      rw [add_returns_iff none_ holds lacks, if_pos (List.eq_nil_of_length_eq_zero long)]
  | succ n =>
      rw [if_neg (List.ne_nil_of_length_eq_add_one long)]
      refine replaced_iff ?_ rfl rfl holds room is lacks
      rw [long] at remainder
      simp only [BcnOp.edit, addBcnIeEdit, search, long, remainder, if_true]

include holds room smaller in
theorem add_beyond_iff (split : es = pre ++ rest) (larger : ∀ f ∈ rest.head?, new.id < f.id) :
    (BcnOp.add new).Preserves malloc b es ↔ Inserts malloc new pre rest := by
  obtain ⟨turns, search, bytes, whole⟩ := addBcnIe_search holds smaller split
  subst split
  rw [addBcnIeLoop_larger larger bytes whole] at search
  have lacks := lacks_of_smaller smaller
  rcases List.eq_nil_or_concat' pre with rfl | ⟨init, last, rfl⟩
  · rw [Inserts, if_neg (by simp)]
    refine add_returns_iff ?_ holds lacks
    simp only [BcnOp.edit, addBcnIeEdit, search, lastPlace]
  · rw [lastPlace_concat] at search
    cases long : last.data.length with
    | zero =>
        rw [Inserts, if_neg (by simpa using List.eq_nil_of_length_eq_zero long)]
        refine add_returns_iff ?_ holds lacks
        simp only [BcnOp.edit, addBcnIeEdit, search, long]
    | succ n =>
        have holds' : b.Holds (init ++ last :: rest) := by simpa using holds
        have remainder := remainder_behind holds' (by simpa using room)
        rw [long] at remainder
        have full : last.data ≠ [] := List.ne_nil_of_length_eq_add_one long
        have some_ : (BcnOp.add new).edit b = some
            { dstIe := fixedIeLength + (bytesOf init).length + (n + 1 + 2), bytes := new.bytes
              premainderIe := fixedIeLength + (bytesOf init).length + (n + 1 + 2)
              remainderIelen := (bytesOf rest).length } := by
          simp only [BcnOp.edit, addBcnIeEdit, search, long, remainder, Bool.false_eq_true, if_false]
        have at_ : fixedIeLength + (bytesOf init).length + (n + 1 + 2) = fixedIeLength + (bytesOf (init ++ [last])).length := by
          simp [long]
          omega
        rw [Inserts, if_pos ⟨last, by simp, full⟩]
        show BcnOp.Preserves malloc b (init ++ [last] ++ ([] ++ rest)) _ ↔ _
        rw [@preserves_some _ _ _ _ (init ++ [last]) [] rest some_ ⟨at_, at_, rfl⟩ holds (by simp [BcnOp.given]) room]
        show (_ → Edited new.id (some new) (init ++ [last] ++ rest) (init ++ [last] ++ new :: rest)) ∧ (_ → [new] = []) ↔ _
        rw [edited_inserted rfl]
        simp only [reduceCtorEq, imp_false, not_not]
        constructor
        · exact fun both => ⟨both.2, fun f member => both.1 both.2 f (by simp [member])⟩
        · rintro ⟨saves, lacks'⟩
          refine ⟨fun _ f member => ?_, saves⟩
          rcases List.mem_append.mp member with member | member
          · exact lacks f member
          · exact lacks' f member

include holds room in
theorem add_preserves_iff : (BcnOp.add new).Preserves malloc b es ↔ (BcnOp.add new).Meets malloc es := by
  have split := (List.takeWhile_append_dropWhile (p := fun f : Element => f.id < new.id) (l := es)).symm
  have smaller : ∀ f ∈ es.takeWhile (·.id < new.id), f.id < new.id := fun f member => by
    simpa using List.mem_takeWhile_imp member
  rw [BcnOp.Meets]
  cases rest : es.dropWhile (·.id < new.id) with
  | nil =>
      rw [rest, List.append_nil] at split
      rw [← split] at smaller
      exact add_beyond_iff holds room smaller (List.append_nil es).symm nofun
  | cons e post =>
      rw [rest] at split
      have stops : ¬e.id < new.id := by
        simpa [rest] using List.dropWhile_get_zero_not (fun f : Element => decide (f.id < new.id)) es (by simp [rest])
      dsimp only
      by_cases is : e.id = new.id
      · rw [if_pos is]
        exact add_found_iff holds room smaller split is
      · rw [if_neg is]
        refine add_beyond_iff holds room smaller split fun f member => ?_
        obtain rfl : e = f := by simpa using member
        exact UInt8.lt_of_le_of_ne (UInt8.not_lt.mp stops) (Ne.symm is)

end Add

section Tim

variable {timBitmap : UInt16}

/-- The bytes of a TIM element, with one or two of the bitmap. -/
theorem timIe_bytes (timBitmap : UInt16) : ∃ c p, c ≠ 5 ∧ ((timIe timBitmap).bytes = [5, 4, 0, 1, c, p] ∨
    ∃ q, (timIe timBitmap).bytes = [5, 5, 0, 1, c, p, q]) := by
  have control : (if timBitmap &&& 1 ≠ 0 then 1 else 0 : UInt8) ≠ 5 := by
    split <;> decide
  have bitmap : (∃ p, pvb timBitmap = [p]) ∨ ∃ p q, pvb timBitmap = [p, q] := by
    rw [pvb]
    split_ifs
    · exact .inr ⟨_, _, rfl⟩
    all_goals exact .inl ⟨_, rfl⟩
  rcases bitmap with ⟨p, one⟩ | ⟨p, q, two⟩
  · exact ⟨_, p, control, .inl (by simp [timIe, Element.bytes, timData, one, timIeId])⟩
  · exact ⟨_, p, control, .inr ⟨q, by simp [timIe, Element.bytes, timData, two, timIeId]⟩⟩

/-- No rotation of a TIM element is the same bytes. -/
theorem primitive_timIe (timBitmap : UInt16) : Primitive (timIe timBitmap).bytes := by
  obtain ⟨c, p, control, bytes | ⟨q, bytes⟩⟩ := timIe_bytes timBitmap
  all_goals
    rw [bytes]
    rintro (_ | ⟨t0, _ | ⟨t1, _ | ⟨t2, _ | ⟨t3, _ | ⟨t4, _ | ⟨t5, _ | ⟨t6, t⟩⟩⟩⟩⟩⟩⟩) u split commutes <;>
      simp at split commutes ⊢ <;> grind

/-- A TIM element does not begin again one, two or three bytes later. -/
theorem timIe_shifted {gap s : List UInt8} (some_ : gap ≠ []) (short : gap.length ≤ 3)
    (starts : s <+: (timIe timBitmap).bytes) : gap ++ s = (timIe timBitmap).bytes → s.length < 2 := by
  intro same
  obtain ⟨c, p, -, bytes | ⟨q, bytes⟩⟩ := timIe_bytes timBitmap
  all_goals
    rw [bytes] at same starts
    obtain ⟨t, starts⟩ := starts
    rcases gap with _ | ⟨g0, _ | ⟨g1, _ | ⟨g2, _ | ⟨g3, gap⟩⟩⟩⟩
    · exact absurd rfl some_
    all_goals
      rcases s with _ | ⟨s0, _ | ⟨s1, s⟩⟩ <;> simp at same starts short ⊢ <;> grind

/-- Where the element is not found, the new one is put at the offset. -/
def timInserted (timBitmap : UInt16) (b : BssidEx) (es : List Element) : Edit :=
  { dstIe := fixedIeLength + timOffset es, bytes := (timIe timBitmap).bytes, premainderIe := fixedIeLength + timOffset es
    remainderIelen := uintSub b.ieLength (fixedIeLength + timOffset es) }

theorem timOffset_le (es : List Element) : timOffset es ≤ (bytesOf es).length + 3 :=
  Nat.add_le_add_right (firstSize_add_le (by decide) es) 3

theorem updateBcntimEdit_inserted (holds : b.Holds es)
    (missing : ∀ found ∈ b.getIe timIeId, found.2 = 0) : updateBcntimEdit timBitmap b = timInserted timBitmap b es := by
  have offset : fixedIeLength + b.ieSize ssidIe + b.ieSize supportedratesIe + 3 = fixedIeLength + timOffset es := by
    rw [ieSize_eq holds, ieSize_eq holds, timOffset]
    omega
  rw [updateBcntimEdit, offset]
  split
  · rename_i p n found
    exact absurd (missing _ found) (Nat.succ_ne_zero n)
  · rfl

variable (holds : b.Holds es) (room : fixedIeLength + (bytesOf es).length + (timIe timBitmap).bytes.length ≤ maxIeSz)
  (edit : updateBcntimEdit timBitmap b = timInserted timBitmap b es)

include holds room edit in
/-- The offset is in the list. -/
theorem tim_inside_iff (inside : timOffset es ≤ (bytesOf es).length) :
    (BcnOp.updateTim timBitmap).Preserves malloc b es ↔
      Saves malloc ((bytesOf es).drop (timOffset es)) ∧ Lacks timIeId es ∧ ∃ front back k, es = front ++ back ∧
        bytesOf front = (bytesOf es).take (timOffset es) ++ (List.replicate k (timIe timBitmap).bytes).flatten := by
  have small := ieLength_small holds room
  have length := holds.length
  have some_ : (BcnOp.updateTim timBitmap).edit b = some (timInserted timBitmap b es) := congrArg some edit
  have split : bytesOf es = (bytesOf es).take (timOffset es) ++ (bytesOf es).drop (timOffset es) :=
    (List.take_append_drop _ _).symm
  have front : ((bytesOf es).take (timOffset es)).length = timOffset es := by
    rw [List.length_take, Nat.min_eq_left inside]
  have remainder : uintSub b.ieLength (fixedIeLength + timOffset es) = ((bytesOf es).drop (timOffset es)).length := by
    rw [uintSub_of_le (by omega) small, List.length_drop]
    omega
  have at_ : (timInserted timBitmap b es).At ((bytesOf es).take (timOffset es)) [] ((bytesOf es).drop (timOffset es)) :=
    ⟨by rw [front]; rfl, by rw [front]; rfl, remainder⟩
  rw [preserves_at some_ at_ holds (by rw [List.nil_append, ← split]) room]
  show (_ → ∃ es', bytesOf es' = _ ++ ((timIe timBitmap).bytes ++ _) ∧ Edited timIeId (some (timIe timBitmap)) es es') ∧
    (_ → (timIe timBitmap).bytes = []) ↔ _
  have is : (timIe timBitmap).id = timIeId := rfl
  rw [inserted_iff is (primitive_timIe timBitmap) split]
  simp only [(timIe timBitmap).bytes_ne_nil, imp_false, not_not]
  exact ⟨fun both => ⟨both.2, both.1 both.2⟩, fun both => ⟨fun _ => both.2, both.1⟩⟩

include holds room edit in
/-- The offset is behind the list: between the list and the element are bytes of no element. -/
theorem tim_beyond (beyond : (bytesOf es).length < timOffset es) :
    ¬(BcnOp.updateTim timBitmap).Preserves malloc b es := by
  have some_ : (BcnOp.updateTim timBitmap).edit b = some (timInserted timBitmap b es) := congrArg some edit
  have near := timOffset_le es
  have long : 6 ≤ (timIe timBitmap).bytes.length := by
    obtain ⟨c, p, -, bytes | ⟨q, bytes⟩⟩ := timIe_bytes timBitmap <;> simp [bytes]
  have length := holds.length
  have limit : maxIeSz = 768 := rfl
  have fixed : fixedIeLength = 12 := rfl
  have ieLength : ((timInserted timBitmap b es).perform malloc b).ieLength =
      fixedIeLength + (bytesOf es).length + (timIe timBitmap).bytes.length := by
    show (fixedIeLength + timOffset es + (timIe timBitmap).bytes.length +
      (b.ieLength + 2 ^ 32 - (fixedIeLength + timOffset es)) % 2 ^ 32) % 2 ^ 32 = _
    omega
  rintro ⟨-, preserved⟩
  rw [run_some some_] at preserved
  split at preserved
  · have same := preserved.length
    omega
  · obtain ⟨es', holds', edited⟩ := preserved
    have lengths := holds'.length
    have bytes := holds'.bytes
    have written := (timInserted timBitmap b es).perform_written malloc b
    have below := (timInserted timBitmap b es).perform_below malloc b
    generalize ((timInserted timBitmap b es).perform malloc b).ies = ies at *
    have total : (bytesOf es').length = (bytesOf es).length + (timIe timBitmap).bytes.length := by omega
    have kept : bytesAt ies fixedIeLength (bytesOf es).length = bytesOf es := by
      rw [bytesAt_of_below below (show _ ≤ fixedIeLength + timOffset es by omega), holds.bytes]
    rw [total, bytesAt_add, kept] at bytes
    have behind := appended_eq rfl (length_bytesAt ..) bytes.symm edited
    obtain ⟨gap, gap_eq⟩ := Nat.exists_eq_add_of_lt beyond
    obtain ⟨rest, rest_eq⟩ := Nat.exists_eq_add_of_le (show gap + 1 ≤ (timIe timBitmap).bytes.length by omega)
    have place : fixedIeLength + (bytesOf es).length + (gap + 1) = fixedIeLength + timOffset es := by omega
    have starts : bytesAt ies (fixedIeLength + timOffset es) rest <+: (timIe timBitmap).bytes := by
      refine ⟨bytesAt ies (fixedIeLength + timOffset es + rest) (gap + 1), ?_⟩
      rw [← bytesAt_add, Nat.add_comm rest, ← rest_eq]
      exact written
    have shifted : bytesAt ies (fixedIeLength + (bytesOf es).length) (gap + 1) ++
        bytesAt ies (fixedIeLength + timOffset es) rest = (timIe timBitmap).bytes := by
      rw [← place, ← bytesAt_add, ← rest_eq]
      exact behind
    have few := timIe_shifted (by simp [bytesAt]) (by rw [length_bytesAt]; omega) starts shifted
    rw [length_bytesAt] at few
    omega

include holds room in
theorem tim_preserves_iff :
    (BcnOp.updateTim timBitmap).Preserves malloc b es ↔ (BcnOp.updateTim timBitmap).Meets malloc es := by
  rcases lacks_or_first timIeId es with lacks | ⟨pre, e, post, rfl, before, found⟩
  · have edit : updateBcntimEdit timBitmap b = timInserted timBitmap b es :=
      updateBcntimEdit_inserted holds (by simp [getIe_lacks holds lacks])
    rw [BcnOp.Meets, dropWhile_lacks lacks]
    by_cases inside : timOffset es ≤ (bytesOf es).length
    · rw [tim_inside_iff holds room edit inside]
      exact ⟨fun ⟨saves, _, at_⟩ => ⟨inside, saves, at_⟩, fun ⟨_, saves, at_⟩ => ⟨saves, lacks, at_⟩⟩
    · exact iff_of_false (tim_beyond holds room edit (by omega)) fun meets => inside meets.1
  · rw [BcnOp.Meets, dropWhile_first before found]
    cases long : e.data.length with
    | zero =>
        have edit : updateBcntimEdit timBitmap b = timInserted timBitmap b (pre ++ e :: post) :=
          updateBcntimEdit_inserted holds (by simp [getIe_first holds before found, long])
        refine iff_of_false (fun preserves => ?_) (fun meets => meets.1 (List.eq_nil_of_length_eq_zero long))
        by_cases inside : timOffset (pre ++ e :: post) ≤ (bytesOf (pre ++ e :: post)).length
        · have lacks := ((tim_inside_iff holds room edit inside).mp preserves).2.1
          exact lacks e (by simp) found
        · exact tim_beyond holds room edit (by omega) preserves
    | succ n =>
        have remainder := remainder_behind holds room
        show _ ↔ e.data ≠ [] ∧ Replaces malloc e (timIe timBitmap) post
        rw [and_iff_right (List.ne_nil_of_length_eq_add_one long)]
        refine replaced_iff ?_ rfl rfl holds room found before
        rw [long] at remainder
        simp only [BcnOp.edit, updateBcntimEdit, getIe_first holds before found, long, remainder]

end Tim

end Conditions

/-! ## The theorem -/

/-- What an editor writes at most. -/
def BcnOp.newBytes (op : BcnOp) : Nat := (bytesOf op.given.toList).length

/-- With room for the element, an editor keeps the other elements and the fixed fields, has its own element once, or
not at all, and keeps all without memory, exactly under the conditions `Meets`. -/
theorem beacon_edited_iff (malloc : Nat → Bool) (b : BssidEx) (es : List Element) (op : BcnOp) (holds : b.Holds es)
    (room : fixedIeLength + (bytesOf es).length + op.newBytes ≤ maxIeSz) :
    op.Preserves malloc b es ↔ op.Meets malloc es := by
  cases op with
  | updateTim timBitmap => exact tim_preserves_iff holds (by simpa [BcnOp.newBytes, BcnOp.given] using room)
  | add new => exact add_preserves_iff holds (by simpa [BcnOp.newBytes, BcnOp.given] using room)
  | remove index => exact remove_preserves_iff holds room

/-- A beacon with these elements. -/
def beaconOf (es : List Element) : BssidEx :=
  ⟨splice (fun _ => 0) fixedIeLength (bytesOf es), fixedIeLength + (bytesOf es).length⟩

theorem beaconOf_holds (es : List Element) : (beaconOf es).Holds es := ⟨rfl, bytesAt_splice ..⟩

/-- SSID, rates and DS parameter set, and an ERP element. -/
def beacon24 : List Element := [⟨0, [0x61], by decide⟩, ⟨1, [0x82], by decide⟩, ⟨3, [6], by decide⟩, ⟨42, [0], by decide⟩]

/-- SSID, rates and HT capabilities of an access point at 5 GHz. -/
def beacon5 : List Element := [⟨0, [0x61], by decide⟩, ⟨1, [0x8c], by decide⟩, ⟨45, [0x6f, 0], by decide⟩]

theorem beacon24_edited :
    (BcnOp.updateTim 2).Preserves (fun _ => true) (beaconOf beacon24) beacon24 :=
  (beacon_edited_iff (fun _ => true) (beaconOf beacon24) beacon24 (.updateTim 2) (beaconOf_holds _) (by decide)).mpr
    ⟨by decide, .inr rfl, beacon24.take 3, beacon24.drop 3, 0, rfl, by decide⟩

/-- What stands behind the place is not there again without memory; behind a hidden SSID nothing is added; and without
a DS parameter set the TIM element is written into the element behind the rates. -/
theorem beacons_broken :
    ¬(BcnOp.add ⟨7, [0x44], by decide⟩).Preserves (fun _ => false) (beaconOf beacon24) beacon24 ∧
      ¬(BcnOp.add ⟨1, [0x82], by decide⟩).Preserves (fun _ => true) (beaconOf [⟨0, [], by decide⟩]) [⟨0, [], by decide⟩] ∧
      ¬(BcnOp.updateTim 2).Preserves (fun _ => true) (beaconOf beacon5) beacon5 := by
  rw [add_preserves_iff (beaconOf_holds _) (by decide), add_preserves_iff (beaconOf_holds _) (by decide),
    tim_preserves_iff (beaconOf_holds _) (by decide)]
  refine ⟨?_, ?_, ?_⟩
  · simp [BcnOp.Meets, Inserts, Saves, beacon24, bytesOf, Element.bytes]
  · simp [BcnOp.Meets, Inserts]
  · rintro ⟨-, -, front, back, k, split, place⟩
    have lengths : (bytesOf front).length = 9 + k * 6 := by
      rw [place, List.length_append, List.length_flatten, List.map_replicate, List.sum_replicate_nat]
      rfl
    -- the elements end at 3, 6 and 10 bytes
    rcases front with _ | ⟨f0, _ | ⟨f1, _ | ⟨f2, _ | ⟨f3, front⟩⟩⟩⟩ <;> simp [beacon5] at split
    · simp at lengths
      omega
    · simp [← split.1] at lengths
      omega
    · simp [← split.1, ← split.2.1] at lengths
      omega
    · simp [← split.1, ← split.2.1, ← split.2.2.1] at lengths
      omega

end Vmac.Ap
