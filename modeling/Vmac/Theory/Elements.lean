/-
# Vmac.Theory.Elements -- lists of elements with an id and a length

An element is an id, the length of its data, and the data.  A list of them is read back from its
bytes (`bytesOf_injective`), also in front of something else (`bytes_append_cancel`).

* `Edited`: the other elements stay, and one id has what it is given.
* `edited_inserted`, `edited_replaced`: when putting an element somewhere is such an edit.
* `commutes_iff`: what commutes with a word that is no power is made of its copies.
* `inserted_iff`, `appended_eq`: when bytes put anywhere into the list, or behind it, are an element put between others.
-/
import Vmac.Theory.Bytes

namespace Vmac.Theory.Elements

set_option autoImplicit false

/-! ## Elements -/

structure Element where
  id : UInt8
  data : List UInt8
  short : data.length < 256

namespace Element

/-- How an element is written. -/
def bytes (e : Element) : List UInt8 := e.id :: UInt8.ofNat e.data.length :: e.data

@[simp] theorem length_bytes (e : Element) : e.bytes.length = e.data.length + 2 := rfl

theorem bytes_ne_nil (e : Element) : e.bytes ≠ [] := List.cons_ne_nil _ _

theorem ext_of {e e' : Element} (id : e.id = e'.id) (data : e.data = e'.data) : e = e' := by
  cases e
  cases e'
  simp_all

theorem lengthByte (e : Element) : (UInt8.ofNat e.data.length).toNat = e.data.length := by
  rw [UInt8.toNat_ofNat']
  exact Nat.mod_eq_of_lt e.short

/-- The first element of two equal strings is the same. -/
theorem bytes_append_cancel {e e' : Element} {s s' : List UInt8} (same : e.bytes ++ s = e'.bytes ++ s') :
    e = e' ∧ s = s' := by
  simp only [bytes, List.cons_append, List.cons.injEq] at same
  obtain ⟨id, length, rest⟩ := same
  have lengths : e.data.length = e'.data.length := by
    rw [← e.lengthByte, ← e'.lengthByte, length]
  obtain ⟨data, rest⟩ := List.append_inj rest lengths
  exact ⟨ext_of id data, rest⟩

end Element

/-- How a list of elements is written. -/
def bytesOf (es : List Element) : List UInt8 := es.flatMap Element.bytes

@[simp] theorem bytesOf_nil : bytesOf [] = [] := rfl

@[simp] theorem bytesOf_cons (e : Element) (es : List Element) : bytesOf (e :: es) = e.bytes ++ bytesOf es := rfl

@[simp] theorem bytesOf_append (es es' : List Element) : bytesOf (es ++ es') = bytesOf es ++ bytesOf es' :=
  List.flatMap_append

theorem bytesOf_eq_nil {es : List Element} : bytesOf es = [] ↔ es = [] := by
  cases es with
  | nil => simp
  | cons e es => simp [e.bytes_ne_nil]

theorem bytesOf_injective {es es' : List Element} (same : bytesOf es = bytesOf es') : es = es' := by
  induction es generalizing es' with
  | nil => exact (bytesOf_eq_nil.mp same.symm).symm
  | cons e es ih =>
      cases es' with
      | nil => exact bytesOf_eq_nil.mp same
      | cons e' es' =>
          obtain ⟨rfl, rest⟩ := Element.bytes_append_cancel same
          rw [ih rest]

/-! ## Finding an element -/

/-- No element has the id. -/
def Lacks (id : UInt8) (es : List Element) : Prop := ∀ e ∈ es, e.id ≠ id

theorem lacks_iff_filter {id : UInt8} {es : List Element} : Lacks id es ↔ es.filter (·.id = id) = [] := by
  simp [Lacks, List.filter_eq_nil_iff]

theorem Lacks.filter_ne {id : UInt8} {es : List Element} (lacks : Lacks id es) : es.filter (·.id ≠ id) = es := by
  apply List.filter_eq_self.mpr
  intro e member
  simpa using lacks e member

/-- The first element with an id, and what is before and behind it. -/
theorem lacks_or_first (id : UInt8) (es : List Element) :
    Lacks id es ∨ ∃ pre e post, es = pre ++ e :: post ∧ Lacks id pre ∧ e.id = id := by
  induction es with
  | nil => exact .inl nofun
  | cons e es ih =>
      by_cases here : e.id = id
      · exact .inr ⟨[], e, es, rfl, nofun, here⟩
      · rcases ih with lacks | ⟨pre, f, post, rfl, before, found⟩
        · exact .inl (List.forall_mem_cons.mpr ⟨here, lacks⟩)
        · exact .inr ⟨e :: pre, f, post, rfl, List.forall_mem_cons.mpr ⟨here, before⟩, found⟩

/-- The bytes of the first element with an id. -/
def firstSize (id : UInt8) (es : List Element) : Nat := ((es.find? (·.id = id)).map fun e => e.bytes.length).getD 0

theorem firstSize_le (id : UInt8) (es : List Element) : firstSize id es ≤ (bytesOf es).length := by
  induction es with
  | nil => exact Nat.le_refl 0
  | cons e es ih =>
      rw [bytesOf_cons, List.length_append]
      by_cases here : e.id = id
      · simp [firstSize, here]
      · have there : firstSize id (e :: es) = firstSize id es := by simp [firstSize, here]
        omega

/-- Elements with different ids are different elements. -/
theorem firstSize_add_le {id id' : UInt8} (apart : id ≠ id') (es : List Element) :
    firstSize id es + firstSize id' es ≤ (bytesOf es).length := by
  induction es with
  | nil => exact Nat.le_refl 0
  | cons e es ih =>
      have first := firstSize_le id es
      have second := firstSize_le id' es
      rw [bytesOf_cons, List.length_append]
      by_cases here : e.id = id
      · have other : e.id ≠ id' := here ▸ apart
        have one : firstSize id (e :: es) = e.bytes.length := by simp [firstSize, here]
        have two : firstSize id' (e :: es) = firstSize id' es := by simp [firstSize, other]
        omega
      · have one : firstSize id (e :: es) = firstSize id es := by simp [firstSize, here]
        by_cases there : e.id = id'
        · have two : firstSize id' (e :: es) = e.bytes.length := by simp [firstSize, there]
          omega
        · have two : firstSize id' (e :: es) = firstSize id' es := by simp [firstSize, there]
          omega

/-! ## Edits -/

/-- Of the elements with the id, `after` has what it is given; the others are those of `before`. -/
structure Edited (id : UInt8) (given : Option Element) (before after : List Element) : Prop where
  others : after.filter (·.id ≠ id) = before.filter (·.id ≠ id)
  own : after.filter (·.id = id) = given.toList

section Edits

variable {id : UInt8} {new : Element} {es pre post : List Element}

theorem edited_replaced {e : Element} (is : new.id = id) (was : e.id = id) (before : Lacks id pre) :
    Edited id (some new) (pre ++ e :: post) (pre ++ new :: post) ↔ Lacks id post := by
  have own := lacks_iff_filter.mp before
  rw [lacks_iff_filter]
  constructor
  · intro edited
    simpa [own, is] using edited.own
  · intro behind
    exact ⟨by simp [was, is], by simp [own, is, behind]⟩

theorem edited_inserted (is : new.id = id) : Edited id (some new) (pre ++ post) (pre ++ new :: post) ↔
    Lacks id (pre ++ post) := by
  rw [lacks_iff_filter, List.filter_append]
  constructor
  · intro edited
    have own := congrArg List.length edited.own
    simp only [List.filter_append, List.filter_cons, is, decide_true, if_true, List.length_append,
      List.length_cons, Option.toList_some, List.length_nil] at own
    have first : List.filter (·.id = id) pre = [] := List.eq_nil_of_length_eq_zero (by omega)
    have second : List.filter (·.id = id) post = [] := List.eq_nil_of_length_eq_zero (by omega)
    rw [first, second, List.nil_append]
  · intro none_
    obtain ⟨first, second⟩ := List.append_eq_nil_iff.mp none_
    exact ⟨by simp [is], by simp [first, second, is]⟩

theorem edited_removed {e : Element} (was : e.id = id) (before : Lacks id pre) :
    Edited id none (pre ++ e :: post) (pre ++ post) ↔ Lacks id post := by
  have own := lacks_iff_filter.mp before
  rw [lacks_iff_filter]
  constructor
  · intro edited
    simpa [own] using edited.own
  · intro behind
    exact ⟨by simp [was], by simp [own, behind]⟩

theorem edited_self_some : Edited id (some new) es es ↔ es.filter (·.id = id) = [new] :=
  ⟨fun edited => edited.own, fun own => ⟨rfl, own⟩⟩

theorem edited_self_none : Edited id none es es ↔ Lacks id es := by
  rw [lacks_iff_filter]
  exact ⟨fun edited => edited.own, fun own => ⟨rfl, own⟩⟩

/-- An edit that gives an element leaves nothing else with the id, and puts it between others. -/
theorem Edited.split {after : List Element} (edited : Edited id (some new) es after) (is : new.id = id) :
    ∃ front back, after = front ++ new :: back ∧ es.filter (·.id ≠ id) = front ++ back := by
  rcases lacks_or_first id after with lacks | ⟨front, e, back, rfl, before, found⟩
  · exact absurd ((lacks_iff_filter.mp lacks).symm.trans edited.own) (by simp)
  · have own := edited.own
    rw [List.filter_append, lacks_iff_filter.mp before, List.filter_cons_of_pos (by simpa using found),
      List.nil_append, Option.toList_some, List.cons.injEq] at own
    obtain ⟨rfl, behind⟩ := own
    have others := edited.others
    rw [List.filter_append, before.filter_ne, List.filter_cons_of_neg (by simp [found]),
      (lacks_iff_filter.mpr behind).filter_ne] at others
    exact ⟨front, back, rfl, others.symm⟩

theorem length_filter_le (es : List Element) (p : Element → Bool) :
    (bytesOf (es.filter p)).length ≤ (bytesOf es).length := by
  induction es with
  | nil => exact Nat.le_refl 0
  | cons e es ih =>
      rw [List.filter_cons]
      split <;> simp <;> omega

/-- What is as long as all of the elements has all of them. -/
theorem lacks_of_length (same : (bytesOf (es.filter (·.id ≠ id))).length = (bytesOf es).length) : Lacks id es := by
  induction es with
  | nil => exact nofun
  | cons e es ih =>
      have shorter := length_filter_le es (·.id ≠ id)
      by_cases here : e.id = id
      · rw [List.filter_cons_of_neg (by simp [here]), bytesOf_cons, List.length_append, Element.length_bytes] at same
        omega
      · rw [List.filter_cons_of_pos (by simpa using here), bytesOf_cons, bytesOf_cons, List.length_append,
          List.length_append] at same
        exact List.forall_mem_cons.mpr ⟨here, ih (by omega)⟩

end Edits

/-! ## Words that commute -/

section Words

variable {α : Type} {w : List α}

/-- The word is no power of a shorter one: no two parts of it can be exchanged. -/
def Primitive (w : List α) : Prop := ∀ t u, w = t ++ u → t ++ u = u ++ t → t = [] ∨ u = []

/-- What commutes with a primitive word is made of its copies. -/
theorem commutes_iff (primitive : Primitive w) (nonempty : w ≠ []) (t : List α) :
    w ++ t = t ++ w ↔ ∃ k, t = (List.replicate k w).flatten := by
  constructor
  · intro commutes
    induction length : t.length using Nat.strong_induction_on generalizing t with
    | _ n ih =>
      by_cases long : w.length ≤ t.length
      · -- the word is at the front of `t`
        obtain ⟨rest, rfl⟩ := List.prefix_of_prefix_length_le ⟨t, rfl⟩ (commutes ▸ List.prefix_append t w) long
        rw [List.append_assoc, List.append_cancel_left_eq] at commutes
        have positive := List.length_pos_of_ne_nil nonempty
        obtain ⟨k, rfl⟩ := ih rest.length (by rw [← length, List.length_append]; omega) rest commutes rfl
        exact ⟨k + 1, by rw [List.replicate_succ, List.flatten_cons]⟩
      · obtain ⟨u, rfl⟩ := List.prefix_of_prefix_length_le ⟨w, rfl⟩ (commutes ▸ List.prefix_append w t)
          (Nat.le_of_not_le long)
        rw [List.append_assoc, List.append_cancel_left_eq] at commutes
        rcases primitive t u rfl commutes.symm with none_ | none_
        · exact ⟨0, by simpa using none_⟩
        · exact absurd long (by simp [none_])
  · rintro ⟨k, rfl⟩
    induction k with
    | zero => simp
    | succ k ih => rw [List.replicate_succ, List.flatten_cons, List.append_assoc, ← ih]

end Words

/-- Bytes of an element that are put anywhere into a list: the others stay as they are exactly if that is the same as
putting the element between two of them. -/
theorem inserted_iff {id : UInt8} {new : Element} (is : new.id = id) (primitive : Primitive new.bytes)
    {es : List Element} {x z : List UInt8} (split : bytesOf es = x ++ z) :
    (∃ es', bytesOf es' = x ++ (new.bytes ++ z) ∧ Edited id (some new) es es') ↔
      Lacks id es ∧ ∃ front back k, es = front ++ back ∧ bytesOf front = x ++ (List.replicate k new.bytes).flatten := by
  have commutes := commutes_iff primitive new.bytes_ne_nil
  constructor
  · rintro ⟨es', bytes, edited⟩
    obtain ⟨front, back, rfl, others⟩ := edited.split is
    rw [bytesOf_append, bytesOf_cons] at bytes
    have lacks : Lacks id es := by
      apply lacks_of_length
      have lengths := congrArg List.length bytes
      rw [others, split, bytesOf_append]
      simp only [List.length_append] at lengths ⊢
      omega
    rw [lacks.filter_ne] at others
    refine ⟨lacks, front, back, ?_⟩
    rw [others, bytesOf_append] at split
    rcases List.append_eq_append_iff.mp split with ⟨w, rfl, rest⟩ | ⟨w, at_, rest⟩
    · -- the place is behind the front: what is between begins with a copy, whose id `back` lacks
      rw [rest, List.append_assoc, List.append_cancel_left_eq, ← List.append_assoc, ← List.append_assoc,
        List.append_cancel_right_eq] at bytes
      obtain ⟨k, rfl⟩ := (commutes w).mp bytes
      cases k with
      | zero => exact ⟨0, others, by simp⟩
      | succ k =>
          cases back with
          | nil => exact absurd rest (by simp [List.replicate_succ, new.bytes_ne_nil])
          | cons e back =>
              rw [List.replicate_succ, List.flatten_cons, bytesOf_cons, List.append_assoc] at rest
              have same := (Element.bytes_append_cancel rest).1
              exact absurd (same ▸ is) (lacks e (by simp [others]))
    · rw [at_, List.append_assoc, List.append_cancel_left_eq, rest, ← List.append_assoc, ← List.append_assoc,
        List.append_cancel_right_eq] at bytes
      obtain ⟨k, rfl⟩ := (commutes w).mp bytes.symm
      exact ⟨k, others, at_⟩
  · rintro ⟨lacks, front, back, k, rfl, at_⟩
    rw [bytesOf_append, at_, List.append_assoc, List.append_cancel_left_eq] at split
    refine ⟨front ++ new :: back, ?_, (edited_inserted is).mpr lacks⟩
    rw [bytesOf_append, bytesOf_cons, at_, List.append_assoc, List.append_cancel_left_eq, ← split, ← List.append_assoc,
      ← List.append_assoc, (commutes _).mpr ⟨k, rfl⟩]

/-- What is put behind all elements, and is as long as the new one, is the new one. -/
theorem appended_eq {id : UInt8} {new : Element} (is : new.id = id) {es es' : List Element} {t : List UInt8}
    (length : t.length = new.bytes.length) (bytes : bytesOf es' = bytesOf es ++ t)
    (edited : Edited id (some new) es es') : t = new.bytes := by
  obtain ⟨front, back, rfl, others⟩ := edited.split is
  rw [bytesOf_append, bytesOf_cons] at bytes
  have lacks : Lacks id es := by
    apply lacks_of_length
    have lengths := congrArg List.length bytes
    rw [others, bytesOf_append]
    simp only [List.length_append] at lengths ⊢
    omega
  rw [lacks.filter_ne] at others
  rw [others, bytesOf_append, List.append_assoc, List.append_cancel_left_eq] at bytes
  cases back with
  | nil => simpa using bytes.symm
  | cons e back =>
      rw [bytesOf_cons, List.append_assoc] at bytes
      have same := (Element.bytes_append_cancel bytes).1
      exact absurd (same ▸ is) (lacks e (by simp [others]))

end Vmac.Theory.Elements
