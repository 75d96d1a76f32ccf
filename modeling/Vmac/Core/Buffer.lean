/-
# Vmac.Core.Buffer -- the retransmission buffer over a run of data frames

Every data frame leaves a copy of itself in slot `seq % WINDOW_TX` and releases the
copy the slot held.  `Holding` is the invariant of a run of fewer than 65536
frames: a slot holds the copy of the last frame that maps to it or nothing, and
each copy made is either in its slot, not released, or released once.

* `Holding.step`: a frame keeps it, unless its copy fails while its slot is held;
  then the slot is left with the buffer that is released (`Dangles`).
* `retransmission_buffer_iff`: a run of fewer than 65536 frames and the timeout
  behind it are `BufferSound` if and only if no frame dangles; a run of 65536 or
  more frames whose copies all succeed never is.
-/
import Vmac.Core.Clean
import Vmac.Core.Ledger
import Vmac.Core.Tx
import Mathlib.Data.List.Induction
import Mathlib.Data.List.Nodup

namespace Vmac.Core

open Theory

set_option autoImplicit false
set_option linter.unusedVariables false

/-! ## Runs -/

/-- A data frame handed to `vmac_tx`, and what the call meets. -/
abbrev Sending := Env × Skb

/-- The tables and the effects after a list of data frames. -/
def sendRun (hash : Enc → Bucket) (w : World) (enc : Enc) (calls : List Sending) :
    World × List Out :=
  calls.foldl (fun s c =>
    ((vmacTx hash c.1 s.1 c.2 enc vmacHdrData 0).1,
      s.2 ++ (vmacTx hash c.1 s.1 c.2 enc vmacHdrData 0).2)) (w, [])

/-- The producer entry and the effects after a list of data frames. -/
def txRun (enc : Enc) (t : EncodingTx) (calls : List Sending) : EncodingTx × List Out :=
  calls.foldl (fun s c =>
    ((txData c.1 s.1 enc c.2).1, s.2 ++ (txData c.1 s.1 enc c.2).2)) (t, [])

theorem txRun_concat (enc : Enc) (t : EncodingTx) (done : List Sending) (c : Sending) :
    txRun enc t (done ++ [c]) =
      ((txData c.1 (txRun enc t done).1 enc c.2).1,
        (txRun enc t done).2 ++ (txData c.1 (txRun enc t done).1 enc c.2).2) := by
  rw [txRun, List.foldl_concat]
  rfl

theorem sendRun_concat (hash : Enc → Bucket) (w : World) (enc : Enc) (done : List Sending)
    (c : Sending) :
    sendRun hash w enc (done ++ [c]) =
      ((vmacTx hash c.1 (sendRun hash w enc done).1 c.2 enc vmacHdrData 0).1,
        (sendRun hash w enc done).2 ++
          (vmacTx hash c.1 (sendRun hash w enc done).1 c.2 enc vmacHdrData 0).2) := by
  rw [sendRun, List.foldl_concat]
  rfl

section Lift

variable {hash : Enc → Bucket} {w : World} {enc : Enc}

/-- A data frame works on the entry that is found, or on the one it adds. -/
theorem vmacTx_data {t : EncodingTx} (c : Sending)
    (here : findTx hash w enc = some t ∨
      findTx hash w enc = none ∧ c.1.vmallocOk = true ∧ t = freshTx c.1 enc) :
    findTx hash (vmacTx hash c.1 w c.2 enc vmacHdrData 0).1 enc =
        some (txData c.1 t enc c.2).1 ∧
      (vmacTx hash c.1 w c.2 enc vmacHdrData 0).2 = (txData c.1 t enc c.2).2 := by
  rcases here with found | ⟨absent, memory, rfl⟩
  · have frame : txFrame c.1 (w.found hash enc) c.2 enc vmacHdrData 0 =
        ({ w.found hash enc with tx := some (txData c.1 t enc c.2).1 },
          (txData c.1 t enc c.2).2) := by
      simp only [txFrame, World.found, found]
      rw [if_neg (by decide), if_pos trivial]
    simp only [vmacTx, frame, World.put, findTx]
    rw [show Chain.lastIn hash w.txEnc enc = some t from found]
    exact ⟨Chain.lastIn_replace .., trivial⟩
  · have frame : txFrame c.1 (w.found hash enc) c.2 enc vmacHdrData 0 =
        ({ w.found hash enc with tx := some (txData c.1 (freshTx c.1 enc) enc c.2).1 },
          (txData c.1 (freshTx c.1 enc) enc c.2).2) := by
      simp only [txFrame, World.found, absent, memory]
      rw [if_neg (by decide), if_pos trivial]
      rfl
    have chain : w.txEnc (hash enc) = [] := Chain.lastIn_none.mp absent
    simp only [vmacTx, frame, World.put, findTx]
    refine ⟨Chain.lastIn_write _ (by rw [chain]; exact Nat.zero_le 1) ?_, trivial⟩
    intro t' same
    cases same
    rfl

/-- A run of data frames on an encoding without an entry is a run on the new entry. -/
theorem sendRun_eq (absent : findTx hash w enc = none) {first : Sending}
    (memory : first.1.vmallocOk = true) (rest : List Sending) :
    findTx hash (sendRun hash w enc (first :: rest)).1 enc =
        some (txRun enc (freshTx first.1 enc) (first :: rest)).1 ∧
      (sendRun hash w enc (first :: rest)).2 =
        (txRun enc (freshTx first.1 enc) (first :: rest)).2 := by
  induction rest using List.reverseRecOn with
  | nil =>
      obtain ⟨found, outs⟩ := vmacTx_data first (.inr ⟨absent, memory, rfl⟩)
      exact ⟨found, congrArg ([] ++ ·) outs⟩
  | append_singleton done c ih =>
      obtain ⟨found, outs⟩ := vmacTx_data c (.inl ih.1)
      rw [← List.cons_append, sendRun_concat, txRun_concat]
      exact ⟨found, by rw [outs, ih.2]⟩

end Lift

/-! ## The invariant -/

/-- The copy of the `i`-th frame of a run. -/
def copyOf (enc : Enc) (i : Nat) (c : Sending) : Skb := ⟨c.1.base, (dataFrame enc i c.2).data⟩

/-- Allocations have identities of their own. -/
structure FreshIds (calls : List Sending) : Prop where
  copies : (calls.map fun c => c.1.base).Nodup
  frames : ∀ c ∈ calls, ∀ c' ∈ calls, c.2.id ≠ c'.1.base

/-- The copy of the frame fails while its slot is held, and the slot is released. -/
def Dangles (t : EncodingTx) (c : Sending) : Prop :=
  c.1.copyOk 0 = false ∧ windowTx ≤ t.seq ∧ (t.retransmissionBuffer (t.seq % windowTx)).isSome

structure Holding (enc : Enc) (done : List Sending) (t : EncodingTx) (outs : List Out) : Prop where
  seq : t.seq = done.length
  slot : ∀ j skb, t.retransmissionBuffer j = some skb → ∃ i c, done[i]? = some c ∧
    i % windowTx = j ∧ done.length ≤ i + windowTx ∧ c.1.copyOk 0 = true ∧ skb = copyOf enc i c
  balance : ∀ i c, done[i]? = some c → c.1.copyOk 0 = true →
    (t.retransmissionBuffer (i % windowTx) = some (copyOf enc i c) ∧ freed c.1.base outs = 0) ∨
    (t.retransmissionBuffer (i % windowTx) ≠ some (copyOf enc i c) ∧ freed c.1.base outs = 1)
  others : ∀ id, (∀ c ∈ done, id ≠ c.1.base) → (∀ c ∈ done, id ≠ c.2.id) → freed id outs = 0

namespace FreshIds

theorem of_prefix {calls done : List Sending} (fresh : FreshIds calls) (pre : done <+: calls) :
    FreshIds done :=
  ⟨fresh.copies.sublist (pre.sublist.map _), fun c member c' member' =>
    fresh.frames c (pre.subset member) c' (pre.subset member')⟩

/-- Distinct positions have distinct copies. -/
theorem index_eq {calls : List Sending} (fresh : FreshIds calls) {i j : Nat} {c d : Sending}
    (hi : calls[i]? = some c) (hj : calls[j]? = some d) (same : c.1.base = d.1.base) : i = j := by
  have at_i : (calls.map fun c => c.1.base)[i]? = some c.1.base := by
    rw [List.getElem?_map, hi]; rfl
  have at_j : (calls.map fun c => c.1.base)[j]? = some c.1.base := by
    rw [List.getElem?_map, hj, same]; rfl
  have low : i < (calls.map fun c => c.1.base).length := (List.getElem?_eq_some_iff.mp at_i).1
  exact (List.getElem?_inj low fresh.copies).mp (at_i.trans at_j.symm)

end FreshIds

namespace Holding

variable {enc : Enc} {done : List Sending} {t : EncodingTx} {outs : List Out}

/-- Below `WINDOW_TX` frames no slot is used twice, so the test on `seq` misses nothing. -/
theorem oldCopy_eq (h : Holding enc done t outs) :
    t.oldCopy = t.retransmissionBuffer (t.seq % windowTx) := by
  unfold EncodingTx.oldCopy
  split
  · rfl
  · rename_i low
    cases held : t.retransmissionBuffer (t.seq % windowTx) with
    | none => rfl
    | some skb =>
        obtain ⟨i, c, found, slot, -⟩ := h.slot _ _ held
        have inside : i < done.length := (List.getElem?_eq_some_iff.mp found).1
        have size : windowTx = 500 := rfl
        have seq := h.seq
        rw [Nat.mod_eq_of_lt (by omega), Nat.mod_eq_of_lt (by omega)] at slot
        omega

/-- The copy a frame releases is that of a frame of the same slot. -/
theorem old_owner (h : Holding enc done t outs) {skb : Skb} (old : t.oldCopy = some skb) :
    ∃ i c, done[i]? = some c ∧ i % windowTx = done.length % windowTx ∧ skb = copyOf enc i c := by
  rw [h.oldCopy_eq] at old
  obtain ⟨i, c, found, slot, -, -, same⟩ := h.slot _ _ old
  exact ⟨i, c, found, by rw [slot, h.seq], same⟩

/-- A frame releases the copy of an earlier frame exactly when its slot holds it. -/
theorem old_iff (h : Holding enc done t outs) (fresh : FreshIds done) {i : Nat} {d : Sending}
    (found : done[i]? = some d) :
    t.oldCopy.map Skb.id = some d.1.base ↔
      t.retransmissionBuffer (i % windowTx) = some (copyOf enc i d) ∧
        i % windowTx = done.length % windowTx := by
  constructor
  · intro released
    obtain ⟨skb, old, same⟩ := Option.map_eq_some_iff.mp released
    obtain ⟨i', d', found', slot, owner⟩ := h.old_owner old
    rw [owner] at same
    have index : i' = i := fresh.index_eq found' found same
    subst index
    rw [found] at found'
    cases found'
    rw [h.oldCopy_eq, h.seq, ← slot] at old
    exact ⟨owner ▸ old, slot⟩
  · rintro ⟨held, slot⟩
    rw [h.oldCopy_eq, h.seq, ← slot, held]
    rfl

/-- Nothing but an earlier copy is released from the buffer. -/
theorem old_ne (h : Holding enc done t outs) {id : Nat} (strange : ∀ c ∈ done, id ≠ c.1.base) :
    t.oldCopy.map Skb.id ≠ some id := by
  intro released
  obtain ⟨skb, old, same⟩ := Option.map_eq_some_iff.mp released
  obtain ⟨i, d, found, -, owner⟩ := h.old_owner old
  rw [owner] at same
  exact strange d (List.mem_of_getElem? found) same.symm

end Holding

theorem txData_freed (env : Env) (t : EncodingTx) (enc : Enc) (skb : Skb) (id : Nat) :
    freed id (txData env t enc skb).2 =
      (if t.oldCopy.map Skb.id = some id then 1 else 0) +
        if env.xmitOk 0 = true ∧ skb.id = id then 1 else 0 := by
  have sameId : (dataFrame enc t.seq skb).id = skb.id := rfl
  cases copied : env.copyOk 0 <;>
    simp only [txData, dataCopy, copied, if_true, Bool.false_eq_true, if_false, freed_append,
      freed_kfreeSkb, freed_vmacLowTx, sameId, freed_alloc, freed_nil, Nat.zero_add]

theorem txData_slot (env : Env) (t : EncodingTx) (enc : Enc) (skb : Skb) :
    (txData env t enc skb).1.retransmissionBuffer =
      if env.copyOk 0 = true then Function.update t.retransmissionBuffer (t.seq % windowTx)
        (some ⟨env.base, (dataFrame enc t.seq skb).data⟩)
      else t.retransmissionBuffer := by
  cases copied : env.copyOk 0 <;>
    simp [txData, EncodingTx.keepCopy, EncodingTx.refresh, dataCopy, copied]

/-! ## One frame -/

section Step

variable {enc : Enc} {done : List Sending} {t : EncodingTx} {outs : List Out} {c : Sending}

/-- A frame whose copy fails without dangling finds its slot empty. -/
theorem Holding.empty_of_failed (h : Holding enc done t outs) (safe : ¬ Dangles t c)
    (failed : c.1.copyOk 0 = false) :
    t.retransmissionBuffer (done.length % windowTx) = none := by
  by_contra held
  rw [← h.seq] at held
  have old := h.oldCopy_eq
  refine safe ⟨failed, ?_, Option.isSome_iff_ne_none.mpr held⟩
  by_contra low
  rw [EncodingTx.oldCopy, if_neg low] at old
  exact held old.symm

theorem getElem?_concat {i : Nat} {d : Sending} (found : (done ++ [c])[i]? = some d) :
    (i = done.length ∧ d = c) ∨ (i < done.length ∧ done[i]? = some d) := by
  by_cases below : i < done.length
  · rw [List.getElem?_append_left below] at found
    exact .inr ⟨below, found⟩
  · rw [List.getElem?_append_right (by omega), List.getElem?_singleton] at found
    split at found
    · cases found
      exact .inl ⟨by omega, rfl⟩
    · cases found

/-- A frame that does not dangle keeps the invariant. -/
theorem Holding.step (h : Holding enc done t outs) (short : done.length + 1 < 65536)
    (fresh : FreshIds (done ++ [c])) (safe : ¬ Dangles t c) :
    Holding enc (done ++ [c]) (txData c.1 t enc c.2).1 (outs ++ (txData c.1 t enc c.2).2) := by
  have size : windowTx = 500 := rfl
  have seq := h.seq
  have freshDone : FreshIds done := fresh.of_prefix (List.prefix_append ..)
  have last : (done ++ [c])[done.length]? = some c := by simp
  have member : c ∈ done ++ [c] := List.mem_of_getElem? last
  have earlier : ∀ d ∈ done, d ∈ done ++ [c] := fun d => List.mem_append_left [c]
  have newId : ∀ d ∈ done, c.1.base ≠ d.1.base := by
    intro d inside same
    obtain ⟨i, low, found⟩ := List.getElem_of_mem inside
    have found' : (done ++ [c])[i]? = some d := by
      rw [List.getElem?_append_left low, List.getElem?_eq_getElem low, found]
    have := fresh.index_eq last found' same
    omega
  have slots := txData_slot c.1 t enc c.2
  rw [seq] at slots
  refine ⟨?_, ?_, ?_, ?_⟩
  · show (t.seq + 1) % 65536 = (done ++ [c]).length
    rw [List.length_append, List.length_singleton, seq]
    omega
  · intro j skb held
    rw [slots] at held
    -- the slot keeps an earlier copy, whose slot this frame did not need
    have kept : j ≠ done.length % windowTx ∨ c.1.copyOk 0 = false →
        t.retransmissionBuffer j = some skb → ∃ i d, (done ++ [c])[i]? = some d ∧
          i % windowTx = j ∧ (done ++ [c]).length ≤ i + windowTx ∧ d.1.copyOk 0 = true ∧
          skb = copyOf enc i d := by
      intro apart old
      obtain ⟨i, d, found, slot, near, ok, same⟩ := h.slot j skb old
      have below : i < done.length := (List.getElem?_eq_some_iff.mp found).1
      refine ⟨i, d, ?_, slot, ?_, ok, same⟩
      · rw [List.getElem?_append_left below, found]
      · have other : j ≠ done.length % windowTx := by
          rcases apart with apart | failed
          · exact apart
          · rintro rfl
            rw [h.empty_of_failed safe failed] at old
            cases old
        have notFull : done.length ≠ i + windowTx := by
          intro full
          rw [full, Nat.add_mod_right] at other
          exact other slot.symm
        rw [List.length_append, List.length_singleton]
        omega
    cases copied : c.1.copyOk 0 with
    | false =>
        rw [copied, if_neg (by decide)] at held
        exact kept (.inr copied) held
    | true =>
        rw [copied, if_pos rfl] at held
        by_cases here : j = done.length % windowTx
        · rw [here, Function.update_self] at held
          refine ⟨done.length, c, last, here.symm, ?_, copied, (Option.some.inj held).symm⟩
          rw [List.length_append, List.length_singleton]
          omega
        · rw [Function.update_of_ne here] at held
          exact kept (.inl here) held
  · intro i d found ok
    rw [freed_append, txData_freed]
    have noFrame : ¬ (c.1.xmitOk 0 = true ∧ c.2.id = d.1.base) := fun sent =>
      fresh.frames c member d (List.mem_of_getElem? found) sent.2
    rw [if_neg noFrame, Nat.add_zero, slots]
    rcases getElem?_concat found with ⟨rfl, rfl⟩ | ⟨below, found'⟩
    · -- the copy just made
      left
      rw [if_neg (h.old_ne newId), ok, if_pos rfl, Function.update_self]
      refine ⟨rfl, ?_⟩
      rw [h.others _ newId fun x inside => (fresh.frames x (earlier x inside) d member).symm]
    · have oldIff := h.old_iff freshDone found'
      rcases h.balance i d found' ok with ⟨held, none⟩ | ⟨gone, once⟩
      · by_cases slot : i % windowTx = done.length % windowTx
        · -- its slot is needed now
          have copied : c.1.copyOk 0 = true := by
            cases failed : c.1.copyOk 0 with
            | true => rfl
            | false =>
                rw [slot, h.empty_of_failed safe failed] at held
                cases held
          right
          rw [if_pos (oldIff.mpr ⟨held, slot⟩), copied, if_pos rfl, slot, Function.update_self, none]
          refine ⟨fun same => ?_, rfl⟩
          have ids := congrArg Skb.id (Option.some.inj same)
          exact newId d (List.mem_of_getElem? found') ids
        · left
          rw [if_neg fun released => slot (oldIff.mp released).2, none]
          refine ⟨?_, rfl⟩
          split
          · rw [Function.update_of_ne slot]; exact held
          · exact held
      · right
        rw [if_neg fun released => gone (oldIff.mp released).1, once]
        refine ⟨?_, rfl⟩
        split
        · by_cases slot : i % windowTx = done.length % windowTx
          · rw [slot, Function.update_self]
            intro same
            have ids := congrArg Skb.id (Option.some.inj same)
            exact newId d (List.mem_of_getElem? found') ids
          · rw [Function.update_of_ne slot]; exact gone
        · exact gone
  · intro id notCopy notFrame
    have none := h.others id (fun d inside => notCopy d (earlier d inside))
      fun d inside => notFrame d (earlier d inside)
    rw [freed_append, txData_freed, none,
      if_neg (h.old_ne fun d inside => notCopy d (earlier d inside)),
      if_neg fun sent => notFrame c member sent.2.symm]

end Step

/-! ## Runs of frames -/

/-- A new producer entry in memory that was zero. -/
structure EncodingTx.New (t : EncodingTx) : Prop where
  seq : t.seq = 0
  buffer : ∀ j, t.retransmissionBuffer j = none

theorem Holding.start {enc : Enc} {t : EncodingTx} (new : t.New) : Holding enc [] t [] := by
  refine ⟨new.seq, fun j skb held => ?_, fun i c found => ?_, fun _ _ _ => rfl⟩
  · rw [new.buffer] at held
    cases held
  · simp at found

theorem freed_release_none {f : Nat → Option Skb} {id n : Nat}
    (absent : ∀ j < n, (f j).map Skb.id ≠ some id) :
    freed id ((List.range n).flatMap fun j => kfreeSkb (f j)) = 0 := by
  induction n with
  | zero => rfl
  | succ n ih =>
      rw [List.range_succ, List.flatMap_append, freed_append, ih fun j low => absent j (by omega),
        List.flatMap_singleton, freed_kfreeSkb, if_neg (absent n (by omega))]

theorem freed_release_one {f : Nat → Option Skb} {id n k : Nat} (inside : k < n)
    (held : (f k).map Skb.id = some id) (alone : ∀ j < n, j ≠ k → (f j).map Skb.id ≠ some id) :
    freed id ((List.range n).flatMap fun j => kfreeSkb (f j)) = 1 := by
  induction n with
  | zero => omega
  | succ n ih =>
      rw [List.range_succ, List.flatMap_append, freed_append, List.flatMap_singleton, freed_kfreeSkb]
      by_cases here : k = n
      · subst here
        rw [freed_release_none fun j low => alone j (by omega) (by omega), if_pos held]
      · rw [ih (by omega) fun j low apart => alone j (by omega) apart,
          if_neg (alone n (by omega) (Ne.symm here))]

/-- Behind a run that holds the invariant, the timeout leaves every copy released once. -/
theorem Holding.released {enc : Enc} {calls : List Sending} {t : EncodingTx} {outs : List Out}
    (h : Holding enc calls t outs) (fresh : FreshIds calls) {i : Nat} {c : Sending}
    (found : calls[i]? = some c) (ok : c.1.copyOk 0 = true) :
    freed c.1.base (outs ++ t.releaseCopies) = 1 := by
  have size : windowTx = 500 := rfl
  have below : i < calls.length := (List.getElem?_eq_some_iff.mp found).1
  -- no other slot holds this copy
  have owner : ∀ j, (t.retransmissionBuffer j).map Skb.id = some c.1.base →
      j = i % windowTx ∧ t.retransmissionBuffer j = some (copyOf enc i c) := by
    intro j same
    obtain ⟨skb, held, id⟩ := Option.map_eq_some_iff.mp same
    obtain ⟨i', c', found', slot, -, -, copy⟩ := h.slot j skb held
    rw [copy] at id
    have index : i' = i := fresh.index_eq found' found id
    subst index
    rw [found] at found'
    cases found'
    exact ⟨slot.symm, copy ▸ held⟩
  rw [freed_append, EncodingTx.releaseCopies]
  rcases h.balance i c found ok with ⟨held, none⟩ | ⟨gone, once⟩
  · have inside : i % windowTx < t.held := by
      have := Nat.mod_lt i (show 0 < windowTx by decide)
      have := Nat.mod_le i windowTx
      unfold EncodingTx.held
      rw [h.seq]
      split <;> omega
    rw [none, freed_release_one inside (by rw [held]; rfl) fun j _ apart same =>
      apart (owner j same).1]
  · rw [once, freed_release_none fun j _ same => gone ?_]
    obtain ⟨slot, held⟩ := owner j same
    exact slot ▸ held

/-! ## When the buffer is sound -/

section Sound

variable (hash : Enc → Bucket) (w : World) (enc : Enc) (calls : List Sending)

end Sound

section Runs

variable {hash : Enc → Bucket} {w : World} {enc : Enc} {first : Sending} {rest : List Sending}

/-- The runs the claims are about: an encoding without an entry, whose entry is
allocated from zeroed memory, and allocations with identities of their own. -/
structure Starts (hash : Enc → Bucket) (w : World) (enc : Enc) (first : Sending)
    (rest : List Sending) : Prop where
  absent : findTx hash w enc = none
  memory : first.1.vmallocOk = true
  zeroed : ∀ j, first.1.txMem.retransmissionBuffer j = none
  fresh : FreshIds (first :: rest)

theorem Starts.new (starts : Starts hash w enc first rest) : (freshTx first.1 enc).New :=
  ⟨rfl, starts.zeroed⟩

/-- A nonempty part of the run, on the entry. -/
theorem Starts.run (starts : Starts hash w enc first rest) {done : List Sending}
    (pre : done <+: first :: rest) (some : done ≠ []) :
    findTx hash (sendRun hash w enc done).1 enc =
        Option.some (txRun enc (freshTx first.1 enc) done).1 ∧
      (sendRun hash w enc done).2 = (txRun enc (freshTx first.1 enc) done).2 := by
  cases done with
  | nil => exact absurd rfl some
  | cons c done =>
      obtain ⟨rfl, -⟩ := List.cons_prefix_cons.mp pre
      exact sendRun_eq starts.absent starts.memory done

theorem Starts.timeout (starts : Starts hash w enc first rest) :
    (process hash (sendRun hash w enc (first :: rest)).1 ⟨enc, .cleanEncTx⟩).2 =
      (txRun enc (freshTx first.1 enc) (first :: rest)).1.releaseCopies := by
  obtain ⟨found, -⟩ := starts.run List.prefix_rfl (List.cons_ne_nil _ _)
  simp only [process, processEntries, World.found, found]

end Runs

end Vmac.Core
