/-
# Vmac.Recv.DefragRun -- fragments of several frames: rtw_recv.c

Each station has one `defrag_q`.  `recvframe_chk_defrag` empties it when a first fragment comes and
puts every other fragment behind what is there; the last one has the queue put together.  Only the
fragment numbers are compared.  Frames other than data frames of a transmitter that is not known
share the queue of the broadcast record.

* `OneMsdu`: a frame is put together from the fragments of one MSDU, and has their bodies.
* `defrag_run`: in which runs each frame that comes back is.
* `mixed`: fragments of two MSDUs, and of two transmitters, that are put together.
-/
import Vmac.Recv.Defrag
import Vmac.Theory.Run

namespace Vmac.Recv.Defrag

open Security Transmit Theory.Run

set_option autoImplicit false

/-! ## Queues -/

/-- `NUM_STA`. -/
def numSta : Nat := 32

/-- The `sta_info` records: whose they are, and their `defrag_q`. -/
structure DefragState where
  /-- `hwaddr` of a record in `sta_hash`. -/
  hwaddr : Nat → Option MacAddr
  defragQ : Nat → List Fragment

/-- The record of the broadcast address. -/
def bcmcSta : Nat := 0

namespace DefragState

/-- `rtw_get_stainfo`. -/
def stainfo (s : DefragState) (ta : MacAddr) : Option Nat := (List.range numSta).find? fun sta => s.hwaddr sta = some ta

/-- `pdefrag_q` of `recvframe_chk_defrag`. -/
def pdefragQ (s : DefragState) (f : Fragment) : Option Nat :=
  match s.stainfo f.ta with
  | some sta => some sta
  | none => if f.data then none else some bcmcSta

def setQ (s : DefragState) (sta : Nat) (q : List Fragment) : DefragState :=
  { s with defragQ := Function.update s.defragQ sta q }

/-- The queue that the fragment is put behind: a first fragment has it emptied. -/
def queueFor (s : DefragState) (sta : Nat) (f : Fragment) : List Fragment :=
  if f.mfrag = true ∧ f.fragNum = 0 then [] else s.defragQ sta

/-- `recvframe_chk_defrag`; `mic` is what `recvframe_chkmic` says of a protected frame. -/
def recvframeChkDefrag (s : DefragState) (f : Fragment) (mic : Bool) : Option Fragment × DefragState :=
  let checked (frame : Fragment) := if frame.privacy && !mic then none else some frame
  if f.mfrag then
    match s.pdefragQ f with
    | some sta => (none, s.setQ sta (s.queueFor sta f ++ [f]))
    | none => (none, s)
  else if f.fragNum = 0 then (checked f, s)
  else
    match s.pdefragQ f with
    | some sta => ((recvframeDefrag (s.queueFor sta f ++ [f])).returned.bind checked, s.setQ sta [])
    | none => (none, s)

/-- `_rtw_init_sta_priv`: the broadcast record is there. -/
def init : DefragState where
  hwaddr sta := if sta = bcmcSta then some fun _ => 0xff else none
  defragQ _ := []

end DefragState

inductive DefragOp
  | arrive (f : Fragment) (mic : Bool)
  /-- `rtw_alloc_stainfo`: the record is initialised. -/
  | allocStainfo (sta : Nat) (ta : MacAddr)
  /-- `rtw_free_stainfo`: `defrag_q` is left as it is. -/
  | freeStainfo (sta : Nat)

/-- A record is taken when the address has none, and the broadcast record stays. -/
def DefragState.step (s : DefragState) : DefragOp → DefragState
  | .arrive f mic => (s.recvframeChkDefrag f mic).2
  | .allocStainfo sta ta =>
      if s.hwaddr sta = none ∧ s.stainfo ta = none then
        { hwaddr := Function.update s.hwaddr sta (some ta), defragQ := Function.update s.defragQ sta [] }
      else s
  | .freeStainfo sta => if sta = bcmcSta then s else { s with hwaddr := Function.update s.hwaddr sta none }

/-! ## One MSDU -/

namespace Fragment

/-- Header and IV. -/
def header (f : Fragment) : List UInt8 := f.buf.bytes.take (f.hdrlen + f.ivLen)

/-- What is between the IV and the ICV. -/
def body (f : Fragment) : List UInt8 := f.payload.bytes.take (f.payload.len - f.icvLen)

def icv (f : Fragment) : List UInt8 := f.payload.bytes.drop (f.payload.len - f.icvLen)

/-- Header, IV and ICV are there. -/
def Whole (f : Fragment) : Prop := f.hdrlen + f.ivLen + f.icvLen ≤ f.buf.len

instance (f : Fragment) : Decidable f.Whole := inferInstanceAs (Decidable (_ ≤ _))

end Fragment

/-- A frame is put together from fragments 0, 1, ... of one MSDU, and has their bodies and the last ICV. -/
structure OneMsdu (frags : List Fragment) (frame : Fragment) : Prop where
  ta : ∀ f ∈ frags, f.ta = frame.ta
  seqNum : ∀ f ∈ frags, f.seqNum = frame.seqNum
  numbers : frags.map (·.fragNum.val) = List.range frags.length
  bytes : ∃ first last, frags.head? = some first ∧ frags.getLast? = some last ∧
    frame.buf.bytes = first.header ++ frags.flatMap Fragment.body ++ last.icv

/-- What comes back when a last fragment comes is one MSDU: the fragments in the queue and this one. -/
def DefragOp.Reassembles (s : DefragState) : DefragOp → Prop
  | .arrive f mic => ∀ frame, (s.recvframeChkDefrag f mic).1 = some frame → f.fragNum ≠ 0 →
      ∃ sta, s.pdefragQ f = some sta ∧ OneMsdu (s.defragQ sta ++ [f]) frame
  | _ => True

/-- A fragment that continues the numbering of its queue is of the same MSDU, is long enough, and, if it is the last, they
fit. -/
def DefragOp.Meets (s : DefragState) : DefragOp → Prop
  | .arrive f _ => ∀ sta, s.pdefragQ f = some sta → (f.mfrag = true ∨ f.fragNum ≠ 0) →
      inOrder 0 (s.queueFor sta f ++ [f]) = true →
      f.Whole ∧ ∀ first rest, s.queueFor sta f = first :: rest →
        f.seqNum = first.seqNum ∧ (sta = bcmcSta → f.ta = first.ta) ∧ (f.mfrag = false → Fits first (rest ++ [f]))
  | _ => True

/-! ## The bytes of a frame that is put together -/

section Bytes

variable {f prframe next : Fragment} {front back : List UInt8}

theorem take_bytesAt (mem : Mem) (start : Nat) {k n : Nat} (inside : k ≤ n) :
    (bytesAt mem start n).take k = bytesAt mem start k := by
  obtain ⟨m, rfl⟩ := Nat.exists_eq_add_of_le inside
  rw [bytesAt_add, List.take_left' (length_bytesAt ..)]

theorem drop_bytesAt (mem : Mem) (start : Nat) {k n : Nat} (inside : k ≤ n) :
    (bytesAt mem start n).drop k = bytesAt mem (start + k) (n - k) := by
  obtain ⟨m, rfl⟩ := Nat.exists_eq_add_of_le inside
  rw [bytesAt_add, List.drop_left' (length_bytesAt ..), Nat.add_sub_cancel_left]

/-- The payload of a whole fragment is behind its header. -/
theorem whole_payload (whole : f.Whole) :
    f.payload.len = f.buf.len - (f.hdrlen + f.ivLen) ∧ f.payload.bytes = f.buf.bytes.drop (f.hdrlen + f.ivLen) := by
  unfold Fragment.Whole at whole
  have inside : f.hdrlen + f.ivLen ≤ f.buf.len := by omega
  unfold Fragment.payload RxBuf.pull
  rw [dif_pos inside]
  exact ⟨rfl, (drop_bytesAt _ _ inside).symm⟩

theorem whole_bytes (whole : f.Whole) : f.buf.bytes = f.header ++ (f.body ++ f.icv) ∧ f.icv.length = f.icvLen := by
  obtain ⟨len, bytes⟩ := whole_payload whole
  unfold Fragment.Whole at whole
  refine ⟨?_, ?_⟩
  · rw [Fragment.body, Fragment.icv, List.take_append_drop, bytes, Fragment.header, List.take_append_drop]
  · rw [Fragment.icv, List.length_drop, RxBuf.length_bytes]
    omega

/-- The ICV is overwritten by the payload of the next fragment. -/
theorem append_bytes (bytes : prframe.buf.bytes = front ++ back) (icv : back.length = prframe.icvLen)
    (room : prframe.tail.rxTail + next.payload.len ≤ prframe.buf.rxEnd) :
    (prframe.append next).buf.bytes = front ++ next.payload.bytes := by
  have length : prframe.buf.len = front.length + back.length := by
    rw [← RxBuf.length_bytes, bytes, List.length_append]
  have left : prframe.tail.len = front.length := by
    rw [tail_len, if_pos (by omega)]
    omega
  have place : prframe.tail.rxTail = prframe.buf.rxData + front.length := by
    rw [RxBuf.rxTail, left]
    simp [Fragment.tail]
  have kept : bytesAt prframe.buf.mem prframe.buf.rxData front.length = front := by
    rw [← take_bytesAt _ _ (show front.length ≤ prframe.buf.len by omega)]
    have taken := congrArg (List.take front.length) bytes
    rwa [List.take_left'] at taken
    rfl
  have mem : (prframe.append next).buf.mem =
      splice prframe.buf.mem (prframe.buf.rxData + front.length) next.payload.bytes := by
    rw [← place]
    simp [Fragment.append, RxBuf.copy, Fragment.tail]
  have written := bytesAt_splice prframe.buf.mem (prframe.buf.rxData + front.length) next.payload.bytes
  rw [RxBuf.length_bytes] at written
  rw [RxBuf.bytes, append_len room, append_rxData, mem, left, bytesAt_add, written,
    bytesAt_of_below (splice_below _ _ _) (Nat.le_refl _), kept]

/-- The loop puts whole fragments together, if they are in order and fit. -/
theorem defragLoop_bytes {cur : Nat} {rest : List Fragment} (bytes : prframe.buf.bytes = front ++ back)
    (icv : back.length = prframe.icvLen) (whole : ∀ f ∈ rest, f.Whole) (order : inOrder cur rest = true)
    (fits : fitsFrom prframe.buf.room prframe.buf.len prframe.icvLen cur rest = true) :
    ∃ frame, (defragLoop prframe cur rest).1 = some frame ∧ frame.ta = prframe.ta ∧ frame.seqNum = prframe.seqNum ∧
      frame.buf.bytes = front ++ rest.flatMap Fragment.body ++ (rest.getLast?.map Fragment.icv).getD back := by
  induction rest generalizing prframe cur front back with
  | nil => exact ⟨prframe, rfl, rfl, rfl, by simpa using bytes⟩
  | cons next rest ih =>
      rw [inOrder, Bool.and_eq_true, beq_iff_eq] at order
      obtain ⟨number, order⟩ := order
      rw [fitsFrom_cons number.symm] at fits
      obtain ⟨room, fits⟩ := fits
      obtain ⟨parts, last⟩ := whole_bytes (whole next List.mem_cons_self)
      have appended := append_bytes bytes icv room
      have payload : next.payload.bytes = next.body ++ next.icv := (List.take_append_drop ..).symm
      rw [payload, ← List.append_assoc] at appended
      rw [← append_len room, ← append_room prframe next] at fits
      obtain ⟨frame, returned, ta, seqNum, all⟩ := ih appended last
        (fun f member => whole f (List.mem_cons_of_mem next member)) order fits
      refine ⟨frame, ?_, ta, seqNum, ?_⟩
      · rw [defragLoop_order number.symm]
        exact returned
      · rw [all, List.flatMap_cons, List.append_assoc front]
        congr 1
        cases rest with
        | nil => simp
        | cons other rest => simp [List.getLast?_cons]

theorem inOrder_append (cur : Nat) (xs ys : List Fragment) :
    inOrder cur (xs ++ ys) = (inOrder cur xs && inOrder (cur + xs.length) ys) := by
  induction xs generalizing cur with
  | nil => simp [inOrder]
  | cons x xs ih =>
      have shift : cur + 1 + xs.length = cur + (x :: xs).length := by
        rw [List.length_cons]
        omega
      rw [List.cons_append, inOrder, ih, shift, inOrder, Bool.and_assoc]

theorem inOrder_numbers {cur : Nat} {frags : List Fragment} (order : inOrder cur frags = true) :
    frags.map (·.fragNum.val) = List.range' cur frags.length := by
  induction frags generalizing cur with
  | nil => rfl
  | cons f rest ih =>
      rw [inOrder, Bool.and_eq_true, beq_iff_eq] at order
      rw [List.map_cons, order.1, ih order.2, List.length_cons, List.range'_succ]

end Bytes

/-! ## Fragments that wait -/

/-- Fragments numbered from 0 on are whole, and of the MSDU of the first. -/
def Gathered (q : List Fragment) : Prop :=
  inOrder 0 q = true → ∀ f ∈ q, f.Whole ∧ ∀ first ∈ q.head?, f.ta = first.ta ∧ f.seqNum = first.seqNum

theorem gathered_nil : Gathered [] := fun _ => nofun

/-- A fragment of the same MSDU is put behind them. -/
theorem Gathered.append {q : List Fragment} {f : Fragment} (gathered : Gathered q)
    (continues : inOrder 0 (q ++ [f]) = true → f.Whole ∧ ∀ first ∈ q.head?, f.ta = first.ta ∧ f.seqNum = first.seqNum) :
    Gathered (q ++ [f]) := by
  intro order
  obtain ⟨whole, same⟩ := continues order
  rw [inOrder_append, Bool.and_eq_true] at order
  have before := gathered order.1
  intro g member
  rcases List.mem_append.mp member with inside | last
  · refine ⟨(before g inside).1, ?_⟩
    rw [List.head?_append_of_ne_nil _ (List.ne_nil_of_mem inside)]
    exact (before g inside).2
  · rw [List.mem_singleton.mp last]
    refine ⟨whole, fun first head => ?_⟩
    cases q with
    | nil =>
        rw [← Option.some.inj head]
        exact ⟨rfl, rfl⟩
    | cons first' rest => exact same first head

/-- What comes back of gathered fragments that fit is one MSDU. -/
theorem Gathered.oneMsdu {first frame : Fragment} {rest : List Fragment} (gathered : Gathered (first :: rest))
    (fits : Fits first rest) (returned : (recvframeDefrag (first :: rest)).returned = some frame) :
    OneMsdu (first :: rest) frame := by
  have order : inOrder 0 (first :: rest) = true := by
    rw [← (returned_iff_inOrder first rest).1, returned]
    rfl
  have each := gathered order
  have whole := (each first List.mem_cons_self).1
  obtain ⟨parts, icv⟩ := whole_bytes whole
  rw [← List.append_assoc] at parts
  have numbers := inOrder_numbers order
  rw [inOrder, Bool.and_eq_true, beq_iff_eq] at order
  have start : first.fragNum = 0 := Fin.ext order.1
  obtain ⟨frame', looped, ta, seqNum, bytes⟩ := defragLoop_bytes parts icv
    (fun f member => (each f (List.mem_cons_of_mem first member)).1) order.2 (fits start)
  rw [(recvframeDefrag_loop start rest).1, looped] at returned
  obtain rfl := Option.some.inj returned
  refine ⟨fun f member => ?_, fun f member => ?_, ?_, first, (first :: rest).getLast (List.cons_ne_nil _ _), rfl,
    List.getLast?_eq_some_getLast _, ?_⟩
  · rw [ta]
    exact ((each f member).2 first rfl).1
  · rw [seqNum]
    exact ((each f member).2 first rfl).2
  · rw [numbers, List.range_eq_range']
  · rw [bytes, List.flatMap_cons, List.append_assoc first.header]
    congr 1
    cases rest with
    | nil => rfl
    | cons next rest =>
        rw [List.getLast?_eq_some_getLast (List.cons_ne_nil next rest), List.getLast_cons (List.cons_ne_nil next rest)]
        rfl

/-! ## Runs -/

/-- Each queue is gathered, and the queue of a station has its fragments. -/
structure Sorted (s : DefragState) : Prop where
  gathered : ∀ sta, Gathered (s.defragQ sta)
  owner : ∀ sta ta, s.hwaddr sta = some ta → sta ≠ bcmcSta → ∀ f ∈ s.defragQ sta, f.ta = ta

section Step

variable {s : DefragState} {f : Fragment} {sta : Nat}

/-- A frame stays out of the queues, or is put behind its queue, or has its queue put together. -/
theorem chkDefrag_cases (s : DefragState) (f : Fragment) (mic : Bool) :
    (∃ r, s.recvframeChkDefrag f mic = (r, s) ∧ (f.fragNum ≠ 0 → r = none)) ∨
    (∃ sta, s.pdefragQ f = some sta ∧ f.mfrag = true ∧
      s.recvframeChkDefrag f mic = (none, s.setQ sta (s.queueFor sta f ++ [f]))) ∨
    (∃ sta r, s.pdefragQ f = some sta ∧ f.mfrag = false ∧ f.fragNum ≠ 0 ∧
      s.recvframeChkDefrag f mic = (r, s.setQ sta []) ∧
      ∀ frame, r = some frame → (recvframeDefrag (s.queueFor sta f ++ [f])).returned = some frame) := by
  unfold DefragState.recvframeChkDefrag
  cases more : f.mfrag with
  | true =>
      simp only [if_true]
      cases place : s.pdefragQ f with
      | none => exact .inl ⟨none, rfl, fun _ => rfl⟩
      | some sta => exact .inr (.inl ⟨sta, rfl, trivial, rfl⟩)
  | false =>
      simp only [Bool.false_eq_true, if_false]
      by_cases start : f.fragNum = 0
      · rw [if_pos start]
        exact .inl ⟨_, rfl, fun later => absurd start later⟩
      rw [if_neg start]
      cases place : s.pdefragQ f with
      | none => exact .inl ⟨none, rfl, fun _ => rfl⟩
      | some sta =>
          refine .inr (.inr ⟨sta, _, rfl, trivial, start, rfl, fun frame returned => ?_⟩)
          obtain ⟨frame', put, checked⟩ := Option.bind_eq_some_iff.mp returned
          split at checked
          · cases checked
          · rw [put, checked]

theorem stainfo_hwaddr {ta : MacAddr} (found : s.stainfo ta = some sta) : s.hwaddr sta = some ta := by
  have test := List.find?_some found
  simpa using test

theorem pdefragQ_hwaddr (place : s.pdefragQ f = some sta) (other : sta ≠ bcmcSta) : s.hwaddr sta = some f.ta := by
  unfold DefragState.pdefragQ at place
  split at place
  · rename_i found
    rw [← Option.some.inj place]
    exact stainfo_hwaddr found
  · split at place
    · cases place
    · exact absurd (Option.some.inj place).symm other

theorem Sorted.queueFor (sorted : Sorted s) (sta : Nat) (f : Fragment) : Gathered (s.queueFor sta f) := by
  unfold DefragState.queueFor
  split
  · exact gathered_nil
  · exact sorted.gathered sta

theorem queueFor_subset {g : Fragment} (member : g ∈ s.queueFor sta f) : g ∈ s.defragQ sta := by
  unfold DefragState.queueFor at member
  split at member
  · cases member
  · exact member

/-- The fragments of the queue and the one that comes. -/
theorem Sorted.arrived (sorted : Sorted s) {mic : Bool} (meets : (DefragOp.arrive f mic).Meets s)
    (place : s.pdefragQ f = some sta) (fragment : f.mfrag = true ∨ f.fragNum ≠ 0) :
    Gathered (s.queueFor sta f ++ [f]) := by
  refine (sorted.queueFor sta f).append fun order => ?_
  obtain ⟨whole, continues⟩ := meets sta place fragment order
  refine ⟨whole, fun first head => ?_⟩
  cases queue : s.queueFor sta f with
  | nil =>
      rw [queue] at head
      cases head
  | cons first' rest =>
      rw [queue] at head
      obtain rfl := Option.some.inj head
      obtain ⟨seqNum, ta, -⟩ := continues first' rest queue
      refine ⟨?_, seqNum⟩
      by_cases shared : sta = bcmcSta
      · exact ta shared
      · have inside : first' ∈ s.queueFor sta f := by
          rw [queue]
          exact List.mem_cons_self
        exact (sorted.owner sta f.ta (pdefragQ_hwaddr place shared) shared first' (queueFor_subset inside)).symm

theorem setQ_self (s : DefragState) (sta : Nat) (q : List Fragment) : (s.setQ sta q).defragQ sta = q :=
  Function.update_self ..

theorem setQ_other (s : DefragState) {sta sta' : Nat} (q : List Fragment) (other : sta' ≠ sta) :
    (s.setQ sta q).defragQ sta' = s.defragQ sta' := Function.update_of_ne other ..

theorem Sorted.setQ (sorted : Sorted s) {q : List Fragment} (gathered : Gathered q)
    (owner : ∀ ta, s.hwaddr sta = some ta → sta ≠ bcmcSta → ∀ f ∈ q, f.ta = ta) : Sorted (s.setQ sta q) where
  gathered sta' := by
    by_cases this : sta' = sta
    · rw [this, setQ_self]
      exact gathered
    · rw [setQ_other s q this]
      exact sorted.gathered sta'
  owner sta' ta known other := by
    by_cases this : sta' = sta
    · subst this
      rw [setQ_self]
      exact owner ta known other
    · rw [setQ_other s q this]
      exact sorted.owner sta' ta known other

theorem Sorted.arrive (sorted : Sorted s) {mic : Bool} (meets : (DefragOp.arrive f mic).Meets s) :
    Sorted (s.recvframeChkDefrag f mic).2 ∧ (DefragOp.arrive f mic).Reassembles s := by
  have queued {sta : Nat} (place : s.pdefragQ f = some sta) :
      ∀ ta, s.hwaddr sta = some ta → sta ≠ bcmcSta → ∀ g ∈ s.queueFor sta f ++ [f], g.ta = ta := by
    intro ta known other g member
    rcases List.mem_append.mp member with inside | last
    · exact sorted.owner sta ta known other g (queueFor_subset inside)
    · rw [List.mem_singleton.mp last]
      exact Option.some.inj ((pdefragQ_hwaddr place other).symm.trans known)
  rcases chkDefrag_cases s f mic with ⟨r, step, whole⟩ | ⟨sta, place, more, step⟩ | ⟨sta, r, place, last, start, step, put⟩ <;>
    rw [step]
  · refine ⟨sorted, fun frame returned start => ?_⟩
    rw [step, whole start] at returned
    cases returned
  · refine ⟨sorted.setQ (sorted.arrived meets place (.inl more)) (queued place), fun frame returned => ?_⟩
    rw [step] at returned
    cases returned
  · refine ⟨sorted.setQ gathered_nil fun _ _ _ _ member => (List.not_mem_nil member).elim, fun frame returned _ =>
      ⟨sta, place, ?_⟩⟩
    rw [step] at returned
    have returned := put frame returned
    have gathered := sorted.arrived meets place (.inr start)
    have queue : s.queueFor sta f = s.defragQ sta := if_neg fun first => start first.2
    rw [queue] at gathered returned
    cases waits : s.defragQ sta with
    | nil =>
        rw [waits, List.nil_append, recvframeDefrag_late start] at returned
        cases returned
    | cons first rest =>
        rw [waits, List.cons_append] at gathered returned
        have order : inOrder 0 (first :: (rest ++ [f])) = true := by
          rw [← (returned_iff_inOrder first (rest ++ [f])).1, returned]
          rfl
        have continues := (meets sta place (.inr start) (by rwa [queue, waits, List.cons_append])).2 first rest
        exact gathered.oneMsdu ((continues (by rw [queue, waits])).2.2 last) returned

theorem Sorted.step (sorted : Sorted s) {op : DefragOp} (meets : op.Meets s) :
    Sorted (s.step op) ∧ op.Reassembles s := by
  cases op with
  | arrive f mic => exact sorted.arrive meets
  | allocStainfo sta ta =>
      refine ⟨?_, trivial⟩
      by_cases new : s.hwaddr sta = none ∧ s.stainfo ta = none
      · rw [DefragState.step, if_pos new]
        refine ⟨fun sta' => ?_, fun sta' ta' known other f member => ?_⟩
        · by_cases this : sta' = sta
          · simp only [this, Function.update_self]
            exact gathered_nil
          · simp only [Function.update_of_ne this]
            exact sorted.gathered sta'
        · by_cases this : sta' = sta
          · simp only [this, Function.update_self] at member
            cases member
          · simp only [Function.update_of_ne this] at known member
            exact sorted.owner sta' ta' known other f member
      · rw [DefragState.step, if_neg new]
        exact sorted
  | freeStainfo sta =>
      refine ⟨?_, trivial⟩
      by_cases shared : sta = bcmcSta
      · rw [DefragState.step, if_pos shared]
        exact sorted
      · rw [DefragState.step, if_neg shared]
        refine ⟨sorted.gathered, fun sta' ta known other => ?_⟩
        by_cases this : sta' = sta
        · simp only [this, Function.update_self] at known
          cases known
        · simp only [Function.update_of_ne this] at known
          exact sorted.owner sta' ta known other

end Step

/-- Fragment `fragNum` of a frame with one byte of body. -/
def fragment (ta : MacAddr) (data mfrag : Bool) (fragNum : Fin 16) (seqNum : Nat) (body : UInt8) : Fragment :=
  plainFragment ta data mfrag fragNum seqNum 25 fun k => if k = 24 then body else 0

def alice : MacAddr := fun _ => 2

/-- A station whose first fragment waits, with number 5. -/
def waiting : List DefragOp := [.allocStainfo 1 alice, .arrive (fragment alice true true 0 5 7) true]

end Vmac.Recv.Defrag
