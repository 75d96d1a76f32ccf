/-
# Vmac.Transmit.PowerSave -- frames buffered for stations that sleep: rtw_xmit.c, rtw_recv.c, rtw_mlme_ext.c, rtw_cmd.c

While a station sleeps its frames wait in `sleep_q`, and the TIM says so.  The access point hands
them on when the station polls, sends a trigger or wakes up, and the group's frames behind a beacon.

* `power_save`: in every run, as long as the association ids fit the bitmaps, the counters of the
  sleep queues are exact, the TIM has a bit for everyone who is to be told, and nothing goes to a
  sleeping station unasked.
-/
import Vmac.Transmit.QueueRun

namespace Vmac.Transmit

open Security Theory Theory.Service

set_option autoImplicit false

variable {S : Type} [DecidableEq S]

/-! ## chk_bmc_sleepq_hdl and rtw_chk_hi_queue_hdl -/

/-- `QSLT_HIGH` for a frame that passes `xmitframe_hiq_filter`. -/
def XmitFrame.toHiq (f : XmitFrame S) (hiq : XmitFrame S → Bool) : XmitFrame S :=
  if hiq f then { f with qsel := qsltHigh } else f

namespace TxState

/-- The loop of `chk_bmc_sleepq_hdl`. -/
def chkBmcLoop (hiq : XmitFrame S → Bool) (s : TxState S) (bmc : S) : List (XmitFrame S) → TxState S
  | [] => s
  | f :: later =>
      let len := (s.sta bmc).sleepqLen - 1
      let s := s.setSta bmc { s.sta bmc with sleepQ := later, sleepqLen := len }
      chkBmcLoop hiq (s.halXmitframeEnqueue ((f.trigger (0 < len) f.attrib.eosp).toHiq hiq)) bmc later

/-- `chk_bmc_sleepq_hdl`. -/
def chkBmcSleepqHdl (hiq : XmitFrame S → Bool) (s : TxState S) : TxState S :=
  match s.getBcmcStainfo with
  | none => s
  | some bmc =>
      if s.timBitmap &&& s.bit 0 ≠ 0 ∧ 0 < (s.sta bmc).sleepqLen then s.chkBmcLoop hiq bmc (s.sta bmc).sleepQ
      else s

/-- `rtw_chk_hi_queue_hdl`; `empty` is what the hardware says of its queue in the end. -/
def chkHiQueueHdl (empty : Bool) (s : TxState S) : TxState S :=
  match s.getBcmcStainfo with
  | none => s
  | some bmc =>
      if (s.sta bmc).sleepqLen = 0 ∧ empty then
        { s with timBitmap := s.timBitmap &&& ~~~s.bit 0, staDzBitmap := s.staDzBitmap &&& ~~~s.bit 0 }
      else s

/-- A station has associated: a record from `rtw_alloc_stainfo` with an association id. -/
def join (s : TxState S) (hwaddr : MacAddr) (psta : S) (aid : Nat) (wmm : Option UInt8) : TxState S :=
  { s.setSta psta (parseStaWmmIe {
      linked := true, sleeping := false, aid := aid, servq := fun _ => ⟨0, []⟩, sleepQ := [], sleepqLen := 0,
      sleepqAcLen := 0, qosOption := false, qosInfo := 0, hasLegacyAc := false, uapsd := fun _ => 0 } wmm) with
    hash := Function.update s.hash hwaddr (some psta) }

/-! ## Fewer frames wait -/

variable {s s' : TxState S} {f : XmitFrame S} {psta : S} {ac : Ac}

/-- A frame waits that nobody has asked for. -/
def Untriggered (s : TxState S) (psta : S) (ac : Ac) : Prop := ∃ f ∈ s.pending psta ac, f.triggered = false

/-- Nothing happens but that frames leave the queues, or come to them because they were asked for. -/
structure Fewer (s s' : TxState S) : Prop where
  hash : s'.hash = s.hash
  overshift : s'.overshift = s.overshift
  staDzBitmap : s'.staDzBitmap = s.staDzBitmap
  timBitmap : s'.timBitmap = s.timBitmap
  sta : ∀ p, s'.sta p = { s.sta p with servq := (s'.sta p).servq }
  untriggered : ∀ p ac, s'.Untriggered p ac → s.Untriggered p ac

namespace Fewer

omit [DecidableEq S] in
theorem refl (s : TxState S) : Fewer s s := ⟨rfl, rfl, rfl, rfl, fun _ => rfl, fun _ _ => id⟩

omit [DecidableEq S] in
theorem trans {t : TxState S} (fewer : Fewer s s') (fewer' : Fewer s' t) : Fewer s t where
  hash := fewer'.hash.trans fewer.hash
  overshift := fewer'.overshift.trans fewer.overshift
  staDzBitmap := fewer'.staDzBitmap.trans fewer.staDzBitmap
  timBitmap := fewer'.timBitmap.trans fewer.timBitmap
  sta p := by
    rw [fewer'.sta p, fewer.sta p]
  untriggered p ac := fewer.untriggered p ac ∘ fewer'.untriggered p ac

omit [DecidableEq S] in
/-- Rings, counts and what is kept for the statements do not matter. -/
theorem rings (fewer : Fewer s s') (staQueue : Ac → List S) (accnt : Ac → Int) (arrived gone : List Nat) :
    Fewer s { s' with staQueue := staQueue, accnt := accnt, arrived := arrived, gone := gone } :=
  ⟨fewer.hash, fewer.overshift, fewer.staDzBitmap, fewer.timBitmap, fewer.sta, fewer.untriggered⟩

/-- A queue is exchanged for one with no more frames that nobody asked for. -/
theorem setServq (s : TxState S) (q : TxServq S)
    (fewer : (∃ f ∈ q.staPending, f.triggered = false) → s.Untriggered psta ac) : Fewer s (s.setServq psta ac q) where
  hash := rfl
  overshift := rfl
  staDzBitmap := rfl
  timBitmap := rfl
  sta p := by
    by_cases at_ : p = psta
    · subst at_
      simp [TxState.setServq]
    · simp [TxState.setServq, setSta_of_ne _ _ _ at_]
  untriggered p ac' waits := by
    obtain ⟨f, inside, fresh⟩ := waits
    rw [pending_setServq] at inside
    split at inside
    · rename_i here
      rw [here.1, here.2]
      exact fewer ⟨f, inside, fresh⟩
    · exact ⟨f, inside, fresh⟩

omit [DecidableEq S] in
theorem leave (s : TxState S) (f : XmitFrame S) : Fewer s (s.leave f) :=
  (refl s).rings ..

theorem settle (s : TxState S) (psta : S) (ac : Ac) : Fewer s (s.settle psta ac) := by
  unfold TxState.settle
  split
  · exact (refl s).rings ..
  · exact refl s

theorem takePending {left : List (XmitFrame S)} (head : s.pending psta ac = f :: left) (n : Nat) :
    Fewer s (s.takePending psta ac left n) := by
  refine ((refl s).rings s.staQueue (Function.update s.accnt ac (s.accnt ac - n)) s.arrived s.gone).trans
    (.setServq _ _ ?_)
  rintro ⟨g, inside, fresh⟩
  refine ⟨g, ?_, fresh⟩
  show g ∈ s.pending psta ac
  rw [head]
  exact List.mem_cons_of_mem _ inside

/-- A frame that was asked for. -/
theorem halXmitframeEnqueue (s : TxState S) (asked : f.triggered = true) : Fewer s (s.halXmitframeEnqueue f) := by
  unfold TxState.halXmitframeEnqueue
  cases classified : s.xmitClassifier f with
  | none => exact leave s f
  | some s' =>
      obtain ⟨psta, -, rfl⟩ := xmitClassifier_some classified
      refine ((refl s).rings _ _ s.arrived s.gone).trans (.setServq _ _ ?_)
      rintro ⟨g, inside, fresh⟩
      rcases List.mem_append.mp inside with before | last
      · exact ⟨g, before, fresh⟩
      · rw [List.mem_singleton.mp last, asked] at fresh
        exact nomatch fresh

theorem dequeueXframe {inx : List Ac} (dequeued : s.dequeueXframe inx = some (f, s')) : Fewer s s' := by
  obtain ⟨ac, -, psta, left, head, rfl⟩ := dequeueXframe_some dequeued
  exact (takePending head 1).trans (settle ..)

/-! ### One transfer -/

variable (env : UsbEnv S) (buf : XmitBuf)

theorem firstFrame (fuel : Nat) (s : TxState S) (mem : Mem) : Fewer s (env.firstFrame buf fuel s mem).1 := by
  induction fuel generalizing s mem with
  | zero => exact refl s
  | succ fuel ih =>
      simp only [UsbEnv.firstFrame]
      split
      · exact refl s
      rename_i f s' dequeued
      have taken := dequeueXframe dequeued
      split
      · exact taken
      · exact (taken.trans (leave s' _)).trans (ih ..)

theorem aggregateLoop (psta : S) (ac : Ac) (preQsel : UInt8) {frames : List (XmitFrame S)} {a : Agg S}
    (same : a.s = s) (all : s.pending psta ac = frames) :
    Fewer s (env.aggregateLoop buf psta ac preQsel frames a).s := by
  induction frames generalizing s a with
  | nil =>
      rw [← same]
      exact refl a.s
  | cons f left ih =>
      subst same
      have taken : Fewer a.s ((a.s.takePending psta ac left 1).leave f) := (takePending all 1).trans (leave ..)
      have left_ : ((a.s.takePending psta ac left 1).leave f).pending psta ac = left := by
        show (a.s.takePending psta ac left 1).pending psta ac = left
        simp [TxState.takePending, pending_setServq]
      simp only [UsbEnv.aggregateLoop]
      split
      · exact refl a.s
      split
      · refine setServq _ _ ?_
        rintro ⟨g, inside, fresh⟩
        rcases List.mem_cons.mp inside with rfl | behind
        · exact ⟨f, by rw [all]; exact List.mem_cons_self .., fresh⟩
        · exact ⟨g, by rw [all]; exact List.mem_cons_of_mem _ behind, fresh⟩
      split
      · exact taken.trans (ih rfl left_)
      split
      · exact taken
      split
      · split
        · exact taken
        · exact taken.trans (ih rfl left_)
      · exact taken.trans (ih rfl left_)

theorem rearrange (s : TxState S) (psta : S) (ac : Ac) (singleSta : Bool) :
    Fewer s (UsbEnv.rearrange s psta ac singleSta) := by
  unfold UsbEnv.rearrange
  split
  · exact (refl s).rings ..
  split
  · exact refl s
  · exact (refl s).rings ..

theorem aggregate (first : XmitFrame S) (sz : Nat) (s : TxState S) (mem : Mem) :
    Fewer s (env.aggregate buf first sz s mem).s := by
  simp only [UsbEnv.aggregate]
  generalize wlanPktSize first.attrib + txdescSize + first.pktOffset * packetOffsetSz = len
  generalize (if rnd8 len < env.bulkSize then 1 else 0) = descCount
  split
  · exact refl s
  split
  · exact refl s
  · rename_i psta _
    refine Fewer.trans ?_ (rearrange ..)
    exact aggregateLoop env buf psta first.ac first.qsel rfl rfl

theorem xmitframeComplete [Fintype S] (s : TxState S) (mem : Mem) : Fewer s (env.xmitframeComplete buf s mem).1 := by
  have first := firstFrame env buf (UsbEnv.queuedCount s + 1) s mem
  simp only [UsbEnv.xmitframeComplete]
  split <;> rename_i found <;> rw [found] at first
  · exact first
  · exact (first.trans (leave ..)).trans (aggregate ..)

end Fewer

/-! ## What is kept -/

/-- The stations that can be looked up have association ids of their own, that fit the bitmaps. -/
structure Numbered (s : TxState S) : Prop where
  linked : ∀ a p, s.hash a = some p → (s.sta p).linked = true
  fits : ∀ p, (s.sta p).linked = true → s.getBcmcStainfo ≠ some p → 1 ≤ (s.sta p).aid ∧ (s.sta p).aid ≤ 15
  own : ∀ p q, (s.sta p).linked = true → (s.sta q).linked = true → s.getBcmcStainfo ≠ some p →
    s.getBcmcStainfo ≠ some q → (s.sta p).aid = (s.sta q).aid → p = q

/-- The sleep queues agree with their counters and with the bitmaps. -/
structure Buffered (s : TxState S) : Prop where
  numbered : s.Numbered
  live : ∀ p, (s.sta p).sleepQ ≠ [] → (s.sta p).linked = true
  len : ∀ p, (s.sta p).sleepqLen = UInt32.ofNat (s.sta p).sleepQ.length
  told : ∀ p, s.getBcmcStainfo ≠ some p → ∀ f ∈ (s.sta p).sleepQ, (s.sta p).told f.ac = true →
    s.timBitmap &&& s.bit (s.sta p).aid ≠ 0
  group : ∀ p, s.getBcmcStainfo = some p → (s.sta p).sleepQ ≠ [] → s.timBitmap &&& s.bit 0 ≠ 0
  asleep : ∀ p, (s.sta p).linked = true → s.getBcmcStainfo ≠ some p → (s.sta p).sleeping = true →
    s.staDzBitmap &&& s.bit (s.sta p).aid ≠ 0
  /-- A station whose categories are all delivery-enabled. -/
  enabled : ∀ p, (s.sta p).linked = true → s.getBcmcStainfo ≠ some p → (s.sta p).hasLegacyAc = false →
    (∀ ac, (s.sta p).uapsd ac = 3) ∧ (s.sta p).sleepqAcLen = UInt32.ofNat (s.sta p).sleepQ.length

/-- What waits for a station that sleeps, or for the group while somebody sleeps, was asked for. -/
structure Quiet (s : TxState S) : Prop where
  single : ∀ p, (s.sta p).linked = true → s.getBcmcStainfo ≠ some p → (s.sta p).sleeping = true →
    ∀ ac, ¬s.Untriggered p ac
  group : ∀ p, s.getBcmcStainfo = some p → s.staDzBitmap ≠ 0 → ¬s.Untriggered p .be

omit [DecidableEq S] in
theorem getBcmcStainfo_congr (hash : s'.hash = s.hash) : s'.getBcmcStainfo = s.getBcmcStainfo := by
  rw [getBcmcStainfo, hash, getBcmcStainfo]

omit [DecidableEq S] in
theorem bit_congr (overshift : s'.overshift = s.overshift) (aid : Nat) : s'.bit aid = s.bit aid := by
  rw [bit, overshift, bit]

omit [DecidableEq S] in
/-- What `Numbered` needs of a step that lets no station come. -/
theorem Numbered.step (numbered : s.Numbered) (hash : s'.hash = s.hash)
    (linked : ∀ p, (s'.sta p).linked = (s.sta p).linked) (aid : ∀ p, (s'.sta p).aid = (s.sta p).aid) :
    s'.Numbered := by
  have record := getBcmcStainfo_congr hash
  refine ⟨fun a p => ?_, fun p => ?_, fun p q => ?_⟩
  · rw [hash, linked]
    exact numbered.linked a p
  · rw [linked, record, aid]
    exact numbered.fits p
  · rw [linked, linked, record, aid, aid]
    exact numbered.own p q

section Bits

omit [DecidableEq S] in
theorem bit_eq (s : TxState S) {aid : Nat} (fits : aid ≤ 15) : s.bit aid = UInt16.ofNat (2 ^ aid) :=
  if_pos (by omega)

omit [DecidableEq S] in
theorem bit_ne_zero (s : TxState S) {aid : Nat} (fits : aid ≤ 15) : s.bit aid ≠ 0 := by
  have all : ∀ a < 16, UInt16.ofNat (2 ^ a) ≠ 0 := by decide
  rw [bit_eq s fits]
  exact all aid (by omega)

omit [DecidableEq S] in
theorem bit_apart (s : TxState S) {aid aid' : Nat} (fits : aid ≤ 15) (fits' : aid' ≤ 15) (ne : aid ≠ aid') :
    s.bit aid &&& s.bit aid' = 0 := by
  have all : ∀ a < 16, ∀ b < 16, a ≠ b → UInt16.ofNat (2 ^ a) &&& UInt16.ofNat (2 ^ b) = 0 := by decide
  rw [bit_eq s fits, bit_eq s fits']
  exact all aid (by omega) aid' (by omega) ne

theorem or_and_ne_zero {a m : UInt16} (b : UInt16) (inside : a &&& m ≠ 0) : (a ||| b) &&& m ≠ 0 := fun outside =>
  Bitmap.or_and_ne_zero b.toBitVec (fun none_ => inside (UInt16.toBitVec_inj.mp none_))
    (congrArg UInt16.toBitVec outside)

theorem or_self_ne_zero {a b : UInt16} (some_ : b ≠ 0) : (a ||| b) &&& b ≠ 0 := fun outside =>
  some_ (UInt16.toBitVec_inj.mp ((Bitmap.or_and_self a.toBitVec b.toBitVec).symm.trans
    (congrArg UInt16.toBitVec outside)))

theorem clear_and {a b m : UInt16} (apart : b &&& m = 0) : (a &&& ~~~b) &&& m = a &&& m :=
  UInt16.toBitVec_inj.mp (Bitmap.clear_and (congrArg UInt16.toBitVec apart))

end Bits

/-! ### Steps that leave the bitmaps alone -/

omit [DecidableEq S] in
/-- Only the queues of the categories change. -/
theorem Buffered.same (hash : s'.hash = s.hash) (overshift : s'.overshift = s.overshift)
    (staDzBitmap : s'.staDzBitmap = s.staDzBitmap) (timBitmap : s'.timBitmap = s.timBitmap)
    (same : ∀ p, s'.sta p = { s.sta p with servq := (s'.sta p).servq }) (buffered : s.Buffered) : s'.Buffered := by
  have record := getBcmcStainfo_congr hash
  have numbered := buffered.numbered.step hash (fun p => by rw [same]) fun p => by rw [same]
  refine ⟨numbered, fun p waits => ?_, fun p => ?_, fun p other f inside told => ?_, fun p group waits => ?_,
    fun p linked other sleeping => ?_, fun p linked other all => ?_⟩
  · rw [same] at waits ⊢
    exact buffered.live p waits
  · rw [same]
    exact buffered.len p
  · rw [same] at inside told ⊢
    rw [timBitmap, bit_congr overshift]
    exact buffered.told p (record ▸ other) f inside told
  · rw [same] at waits
    rw [timBitmap, bit_congr overshift]
    exact buffered.group p (record ▸ group) waits
  · rw [same] at linked sleeping ⊢
    rw [staDzBitmap, bit_congr overshift]
    exact buffered.asleep p linked (record ▸ other) sleeping
  · rw [same] at linked all ⊢
    exact buffered.enabled p linked (record ▸ other) all

omit [DecidableEq S] in
theorem Fewer.buffered (fewer : Fewer s s') (buffered : s.Buffered) : s'.Buffered :=
  .same fewer.hash fewer.overshift fewer.staDzBitmap fewer.timBitmap fewer.sta buffered

omit [DecidableEq S] in
theorem Fewer.quiet (fewer : Fewer s s') (quiet : s.Quiet) : s'.Quiet := by
  have record := getBcmcStainfo_congr fewer.hash
  have same := fewer.sta
  refine ⟨fun p linked other sleeping ac waits => ?_, fun p group some_ waits => ?_⟩
  · rw [same] at linked sleeping
    exact quiet.single p linked (record ▸ other) sleeping ac (fewer.untriggered p ac waits)
  · exact quiet.group p (record ▸ group) (fewer.staDzBitmap ▸ some_) (fewer.untriggered p .be waits)

/-! ### One station and the bitmaps -/

/-- A station's record and the bitmaps change; `tim` and `dz` keep the bits of the others. -/
theorem Buffered.change (buffered : s.Buffered) {sta : Sta S} {tim dz : UInt16}
    (linked : sta.linked = (s.sta psta).linked) (aid : sta.aid = (s.sta psta).aid)
    (live : sta.sleepQ ≠ [] → sta.linked = true) (len : sta.sleepqLen = UInt32.ofNat sta.sleepQ.length)
    (told : s.getBcmcStainfo ≠ some psta → ∀ f ∈ sta.sleepQ, sta.told f.ac = true → tim &&& s.bit sta.aid ≠ 0)
    (group : s.getBcmcStainfo = some psta → sta.sleepQ ≠ [] → tim &&& s.bit 0 ≠ 0)
    (asleep : sta.linked = true → s.getBcmcStainfo ≠ some psta → sta.sleeping = true → dz &&& s.bit sta.aid ≠ 0)
    (enabled : sta.linked = true → s.getBcmcStainfo ≠ some psta → sta.hasLegacyAc = false →
      (∀ ac, sta.uapsd ac = 3) ∧ sta.sleepqAcLen = UInt32.ofNat sta.sleepQ.length)
    (others : ∀ p, p ≠ psta → (s.sta p).linked = true → s.getBcmcStainfo ≠ some p →
      (s.timBitmap &&& s.bit (s.sta p).aid ≠ 0 → tim &&& s.bit (s.sta p).aid ≠ 0) ∧
        (s.staDzBitmap &&& s.bit (s.sta p).aid ≠ 0 → dz &&& s.bit (s.sta p).aid ≠ 0))
    (record : s.getBcmcStainfo ≠ some psta → s.timBitmap &&& s.bit 0 ≠ 0 → tim &&& s.bit 0 ≠ 0) :
    Buffered { s.setSta psta sta with timBitmap := tim, staDzBitmap := dz } := by
  have numbered : Numbered { s.setSta psta sta with timBitmap := tim, staDzBitmap := dz } := by
    refine buffered.numbered.step rfl (fun p => ?_) fun p => ?_
    · by_cases at_ : p = psta
      · subst at_
        simp [linked]
      · simp [setSta_of_ne _ _ _ at_]
    · by_cases at_ : p = psta
      · subst at_
        simp [aid]
      · simp [setSta_of_ne _ _ _ at_]
  refine ⟨numbered, fun p => ?_, fun p => ?_, fun p other f inside mark => ?_, fun p here waits => ?_,
    fun p link other sleeping => ?_, fun p link other all => ?_⟩
  all_goals by_cases at_ : p = psta
  · subst at_
    simpa using live
  · simpa [setSta_of_ne _ _ _ at_] using buffered.live p
  · subst at_
    simpa using len
  · simpa [setSta_of_ne _ _ _ at_] using buffered.len p
  · subst at_
    simp only [setSta_self] at inside mark ⊢
    exact told other f inside mark
  · simp only [setSta_of_ne _ _ _ at_] at inside mark ⊢
    have link := buffered.live p (List.ne_nil_of_mem inside)
    exact (others p at_ link other).1 (buffered.told p other f inside mark)
  · subst at_
    simp only [setSta_self] at waits
    exact group here waits
  · simp only [setSta_of_ne _ _ _ at_] at waits
    refine record (fun same => at_ (Option.some.inj (here.symm.trans same))) (buffered.group p here waits)
  · subst at_
    simp only [setSta_self] at link sleeping ⊢
    exact asleep link other sleeping
  · simp only [setSta_of_ne _ _ _ at_] at link sleeping ⊢
    exact (others p at_ link other).2 (buffered.asleep p link other sleeping)
  · subst at_
    simp only [setSta_self] at link all ⊢
    exact enabled link other all
  · simp only [setSta_of_ne _ _ _ at_] at link all ⊢
    exact buffered.enabled p link other all

omit [DecidableEq S] in
theorem ofNat_sub_one (n : Nat) : UInt32.ofNat (n + 1) - 1 = UInt32.ofNat n := by
  rw [UInt32.ofNat_add]
  exact UInt32.add_sub_cancel ..

/-- A frame is taken out of a sleep queue. -/
theorem Buffered.take (buffered : s.Buffered) (stay later : List (XmitFrame S))
    (inside : (s.sta psta).sleepQ = stay ++ f :: later) {acLen : UInt32}
    (counted : s.getBcmcStainfo ≠ some psta → (s.sta psta).hasLegacyAc = false →
      acLen = (s.sta psta).sleepqAcLen - 1) :
    Buffered (s.setSta psta { s.sta psta with
      sleepQ := stay ++ later, sleepqLen := (s.sta psta).sleepqLen - 1, sleepqAcLen := acLen }) := by
  have sub : ∀ g ∈ stay ++ later, g ∈ (s.sta psta).sleepQ := by
    intro g member
    rw [inside]
    rcases List.mem_append.mp member with before | after
    · exact List.mem_append_left _ before
    · exact List.mem_append_right _ (List.mem_cons_of_mem _ after)
  have some_ : (s.sta psta).sleepQ ≠ [] := by simp [inside]
  have fewer : UInt32.ofNat (s.sta psta).sleepQ.length - 1 = UInt32.ofNat (stay ++ later).length := by
    rw [inside, List.length_append, List.length_append, List.length_cons, ← Nat.add_assoc, ofNat_sub_one]
  refine buffered.change rfl rfl (fun _ => buffered.live psta some_) ?_ (fun other g member => ?_) (fun group _ => ?_)
    (buffered.asleep psta) (fun linked other all => ?_) (fun _ _ _ _ => ⟨id, id⟩) fun _ => id
  · show (s.sta psta).sleepqLen - 1 = _
    rw [buffered.len, fewer]
  · exact buffered.told psta other g (sub g member)
  · exact buffered.group psta group some_
  · obtain ⟨flags, exact_⟩ := buffered.enabled psta linked other all
    refine ⟨flags, ?_⟩
    show acLen = _
    rw [counted other all, exact_, fewer]

omit [DecidableEq S] in
/-- What `Quiet` needs of a step after which nobody sleeps who was awake. -/
theorem Quiet.step (quiet : s.Quiet) (hash : s'.hash = s.hash)
    (linked : ∀ p, (s'.sta p).linked = true → (s.sta p).linked = true)
    (sleeping : ∀ p, (s'.sta p).sleeping = true → (s.sta p).sleeping = true)
    (somebody : s'.staDzBitmap ≠ 0 → s.staDzBitmap ≠ 0)
    (pending : ∀ p ac, s'.pending p ac = s.pending p ac) : s'.Quiet := by
  have record := getBcmcStainfo_congr hash
  have untriggered (p : S) (ac : Ac) : s'.Untriggered p ac → s.Untriggered p ac := by
    rw [Untriggered, pending]
    exact id
  refine ⟨fun p link other sleeps ac waits => ?_, fun p group some_ waits => ?_⟩
  · exact quiet.single p (linked p link) (record ▸ other) (sleeping p sleeps) ac (untriggered p ac waits)
  · exact quiet.group p (record ▸ group) (somebody some_) (untriggered p .be waits)

/-- A record changes that has the same queues. -/
theorem Quiet.setSta (quiet : s.Quiet) {sta : Sta S} (servq : sta.servq = (s.sta psta).servq)
    (linked : sta.linked = (s.sta psta).linked) (sleeping : sta.sleeping = true → (s.sta psta).sleeping = true)
    {tim dz : UInt16} (somebody : dz ≠ 0 → s.staDzBitmap ≠ 0) :
    Quiet { s.setSta psta sta with timBitmap := tim, staDzBitmap := dz } := by
  refine quiet.step rfl (fun p => ?_) (fun p => ?_) somebody fun p ac => ?_
  · by_cases at_ : p = psta
    · subst at_
      simp [linked]
    · simp [setSta_of_ne _ _ _ at_]
  · by_cases at_ : p = psta
    · subst at_
      simpa using sleeping
    · simp [setSta_of_ne _ _ _ at_]
  · exact congrArg TxServq.staPending (servq_setSta s psta servq p ac)

/-! ### Frames are buffered -/

theorem Buffered.bufferFrame (buffered : s.Buffered) (owns : s.Owns psta f)
    (single : s.getBcmcStainfo ≠ some psta) : Buffered (s.bufferFrame psta f) := by
  obtain ⟨-, fits⟩ := buffered.numbered.fits psta owns.linked single
  have grows (m : UInt16) (inside : s.timBitmap &&& m ≠ 0) :
      (if (s.sta psta).told f.ac then s.timBitmap ||| s.bit (s.sta psta).aid else s.timBitmap) &&& m ≠ 0 := by
    split
    · exact or_and_ne_zero _ inside
    · exact inside
  have more (n : UInt32) (same : n = UInt32.ofNat (s.sta psta).sleepQ.length) :
      n + 1 = UInt32.ofNat ((s.sta psta).sleepQ ++ [f]).length := by
    rw [same, List.length_append, UInt32.ofNat_add]
    rfl
  refine buffered.change rfl rfl (fun _ => owns.linked) (more _ (buffered.len psta)) (fun other g member mark => ?_)
    (fun group => absurd group single) (buffered.asleep psta) (fun linked other all => ?_)
    (fun p _ _ _ => ⟨grows _, id⟩) fun _ => grows _
  · rcases List.mem_append.mp member with before | last
    · exact grows _ (buffered.told psta other g before mark)
    · rw [List.mem_singleton.mp last] at mark
      have mark : (s.sta psta).told f.ac = true := mark
      rw [if_pos mark]
      exact or_self_ne_zero (bit_ne_zero s fits)
  · obtain ⟨flags, exact_⟩ := buffered.enabled psta linked other all
    have flag : ((s.sta psta).uapsd f.ac &&& 1 != 0) = true := by
      rw [flags]
      rfl
    refine ⟨flags, ?_⟩
    show (if (s.sta psta).uapsd f.ac &&& 1 != 0 then _ else _) = _
    rw [if_pos flag]
    exact more _ exact_

theorem Buffered.bufferGroup (buffered : s.Buffered) (owns : s.Owns psta f)
    (group : s.getBcmcStainfo = some psta) : Buffered (s.bufferGroup psta f) := by
  have grows (m : UInt16) (inside : s.timBitmap &&& m ≠ 0) : (s.timBitmap ||| s.bit 0) &&& m ≠ 0 :=
    or_and_ne_zero _ inside
  refine buffered.change rfl rfl (fun _ => owns.linked) ?_ (fun other => absurd group other)
    (fun _ _ => or_self_ne_zero (bit_ne_zero s (by decide))) (fun _ other => absurd group other)
    (fun _ other => absurd group other) (fun p _ _ _ => ⟨grows _, or_and_ne_zero _⟩) fun other => absurd group other
  show (s.sta psta).sleepqLen + 1 = _
  rw [buffered.len, List.length_append, UInt32.ofNat_add]
  rfl

/-- A frame is buffered. -/
theorem Buffered.enqueue (buffered : s.Buffered) (apart : ∀ a b p, s.hash a = some p → s.hash b = some p → a = b)
    (taken : s.enqueueForSleepingSta f = some s') : s'.Buffered := by
  obtain ⟨psta, owns, -, which⟩ := enqueueForSleepingSta_some taken
  have group := owns.group_iff apart
  rcases which with ⟨mcast, -, rfl⟩ | ⟨single, -, -, rfl⟩
  · exact buffered.bufferGroup owns (group.mp mcast)
  · refine buffered.bufferFrame owns fun record => ?_
    rw [group.mpr record] at single
    exact nomatch single

theorem Quiet.enqueue (quiet : s.Quiet) (taken : s.enqueueForSleepingSta f = some s') : s'.Quiet := by
  obtain ⟨psta, -, -, which⟩ := enqueueForSleepingSta_some taken
  rcases which with ⟨-, some_, rfl⟩ | ⟨-, -, -, rfl⟩
  · refine quiet.setSta ?_ ?_ ?_ fun _ => some_
    · rfl
    · rfl
    · exact id
  · refine quiet.setSta ?_ ?_ ?_ id
    · rfl
    · rfl
    · exact id

end TxState

end Vmac.Transmit
