/-
# Vmac.Transmit.PowerSaveRun -- stations fall asleep, poll and wake up: rtw_xmit.c, rtw_recv.c, rtw_mlme_ext.c

* `power_save`: in every run, as long as the association ids fit the bitmaps, the counters of the
  sleep queues are exact, the TIM has a bit for everyone who is to be told, and nothing goes to a
  sleeping station unasked.
-/
import Vmac.Transmit.PowerSave

namespace Vmac.Transmit

open Security Theory Theory.Service

set_option autoImplicit false

variable {S : Type} [DecidableEq S]

namespace TxState

variable {s s' : TxState S} {f : XmitFrame S} {psta : S} {ac : Ac}

/-- The sleep queues and the bitmaps agree, and nothing goes out unasked. -/
structure Saved (s : TxState S) : Prop where
  buffered : s.Buffered
  quiet : s.Quiet

omit [DecidableEq S] in
theorem Fewer.saved (fewer : Fewer s s') (saved : s.Saved) : s'.Saved :=
  ⟨fewer.buffered saved.buffered, fewer.quiet saved.quiet⟩

omit [DecidableEq S] in
theorem Fewer.lasting (fewer : Fewer s s') : s.Lasting s' where
  hash := fewer.hash
  overshift := fewer.overshift
  sleeping p := by rw [fewer.sta]
  aid p := by rw [fewer.sta]
  asleep m := by
    rw [fewer.staDzBitmap]
    exact id

/-! ## Bits are cleared -/

omit [DecidableEq S] in
/-- The bit of one station is none of another. -/
theorem Numbered.clear_other (numbered : s.Numbered) (linked : (s.sta psta).linked = true)
    (single : s.getBcmcStainfo ≠ some psta) {p : S} (ne : p ≠ psta) (link : (s.sta p).linked = true)
    (other : s.getBcmcStainfo ≠ some p) (m : UInt16) :
    (m &&& ~~~s.bit (s.sta psta).aid) &&& s.bit (s.sta p).aid = m &&& s.bit (s.sta p).aid := by
  obtain ⟨-, fits⟩ := numbered.fits psta linked single
  obtain ⟨-, fits'⟩ := numbered.fits p link other
  refine clear_and (bit_apart s fits fits' fun same => ne ?_)
  exact (numbered.own psta p linked link single other same).symm

omit [DecidableEq S] in
/-- The bit of a station is not the group's. -/
theorem Numbered.clear_group (numbered : s.Numbered) (linked : (s.sta psta).linked = true)
    (single : s.getBcmcStainfo ≠ some psta) (m : UInt16) :
    (m &&& ~~~s.bit (s.sta psta).aid) &&& s.bit 0 = m &&& s.bit 0 := by
  obtain ⟨some_, fits⟩ := numbered.fits psta linked single
  exact clear_and (bit_apart s fits (by decide) (by omega))

omit [DecidableEq S] in
theorem Numbered.clear_single (numbered : s.Numbered) (linked : (s.sta psta).linked = true)
    (single : s.getBcmcStainfo ≠ some psta) (m : UInt16) :
    (m &&& ~~~s.bit 0) &&& s.bit (s.sta psta).aid = m &&& s.bit (s.sta psta).aid := by
  obtain ⟨some_, fits⟩ := numbered.fits psta linked single
  exact clear_and (bit_apart s (by decide) fits (by omega))

/-- Nothing waits for a station any more: the TIM forgets it, and it may be awake. -/
theorem Saved.forget (saved : s.Saved) (linked : (s.sta psta).linked = true)
    (single : s.getBcmcStainfo ≠ some psta) (nothing : (s.sta psta).sleepQ = []) {sta : Sta S} {dz : UInt16}
    (same : sta = { s.sta psta with sleepqLen := 0, sleeping := sta.sleeping })
    (which : sta.sleeping = (s.sta psta).sleeping ∧ dz = s.staDzBitmap ∨
      sta.sleeping = false ∧ dz = s.staDzBitmap &&& ~~~s.bit (s.sta psta).aid) :
    Saved { s.setSta psta sta with
      timBitmap := s.timBitmap &&& ~~~s.bit (s.sta psta).aid
      staDzBitmap := dz } := by
  have numbered := saved.buffered.numbered
  have empty : sta.sleepQ = [] := by
    rw [same]
    exact nothing
  have kept (m : UInt16) (bit : (s.staDzBitmap &&& ~~~s.bit (s.sta psta).aid) &&& m = s.staDzBitmap &&& m) :
      dz &&& m = s.staDzBitmap &&& m := by
    rcases which with ⟨-, rfl⟩ | ⟨-, rfl⟩
    · rfl
    · exact bit
  refine ⟨saved.buffered.change ?_ ?_ (fun some_ => absurd empty some_) ?_ (fun _ f inside => ?_)
    (fun group => absurd group single) (fun _ _ sleeping => ?_) (fun _ _ all => ?_) (fun p ne link other => ?_)
    (fun _ inside => ?_), saved.quiet.setSta ?_ ?_ (fun sleeping => ?_) fun some_ none_ => ?_⟩
  · rw [same]
  · rw [same]
  · rw [empty, same]
    rfl
  · rw [empty] at inside
    exact nomatch inside
  · rcases which with ⟨before, rfl⟩ | ⟨awake, -⟩
    · have aid : sta.aid = (s.sta psta).aid := by rw [same]
      rw [aid]
      exact saved.buffered.asleep psta linked single (before ▸ sleeping)
    · rw [awake] at sleeping
      exact nomatch sleeping
  · have flags := saved.buffered.enabled psta linked single (by rw [same] at all; exact all)
    rw [nothing] at flags
    rw [same]
    exact ⟨flags.1, by rw [nothing]; exact flags.2⟩
  · rw [numbered.clear_other linked single ne link other, kept _ (numbered.clear_other linked single ne link other _)]
    exact ⟨id, id⟩
  · rw [numbered.clear_group linked single]
    exact inside
  · rw [same]
  · rw [same]
  · rcases which with ⟨before, -⟩ | ⟨awake, -⟩
    · rwa [← before]
    · rw [awake] at sleeping
      exact nomatch sleeping
  · rcases which with ⟨-, rfl⟩ | ⟨-, rfl⟩
    · exact some_ none_
    · rw [none_, UInt16.zero_and] at some_
      exact some_ rfl

omit [DecidableEq S] in
/-- Nothing waits for the group any more. -/
theorem Saved.forgetGroup (saved : s.Saved) {bmc : S} (record : s.getBcmcStainfo = some bmc)
    (nothing : (s.sta bmc).sleepQ = []) :
    Saved { s with timBitmap := s.timBitmap &&& ~~~s.bit 0, staDzBitmap := s.staDzBitmap &&& ~~~s.bit 0 } := by
  obtain ⟨numbered, live, len, told, group, asleep, enabled⟩ := saved.buffered
  refine ⟨⟨⟨numbered.linked, numbered.fits, numbered.own⟩, live, len, fun p other f inside mark => ?_,
    fun p here waits => ?_, fun p link other sleeping => ?_, enabled⟩,
    saved.quiet.step rfl (fun _ => id) (fun _ => id) (fun some_ none_ => ?_) fun _ _ => rfl⟩
  · have link := live p (List.ne_nil_of_mem inside)
    have clear := numbered.clear_single link other s.timBitmap
    exact fun none_ => told p other f inside mark (clear.symm.trans none_)
  · obtain rfl : bmc = p := Option.some.inj (record.symm.trans here)
    exact absurd nothing waits
  · have clear := numbered.clear_single link other s.staDzBitmap
    exact fun none_ => asleep p link other sleeping (clear.symm.trans none_)
  · refine some_ ?_
    show s.staDzBitmap &&& ~~~s.bit 0 = 0
    rw [none_, UInt16.zero_and]

/-! ## Frames are handed on -/

/-- A frame of a sleep queue is handed on. -/
theorem Saved.handOn (saved : s.Saved) (stay later : List (XmitFrame S))
    (inside : (s.sta psta).sleepQ = stay ++ f :: later) {acLen : UInt32}
    (counted : s.getBcmcStainfo ≠ some psta → (s.sta psta).hasLegacyAc = false →
      acLen = (s.sta psta).sleepqAcLen - 1) {g : XmitFrame S} (asked : g.triggered = true) :
    Saved ((s.setSta psta { s.sta psta with
      sleepQ := stay ++ later, sleepqLen := (s.sta psta).sleepqLen - 1,
      sleepqAcLen := acLen }).halXmitframeEnqueue g) := by
  refine (Fewer.halXmitframeEnqueue _ asked).saved ⟨saved.buffered.take stay later inside counted, ?_⟩
  refine saved.quiet.setSta ?_ ?_ ?_ id
  · rfl
  · rfl
  · exact id

/-- Handing a frame on wakes nobody. -/
theorem handOn_lasting {sta : Sta S} (sleeping : sta.sleeping = (s.sta psta).sleeping)
    (aid : sta.aid = (s.sta psta).aid) {g : XmitFrame S} (asked : g.triggered = true) :
    s.Lasting ((s.setSta psta sta).halXmitframeEnqueue g) := by
  have lasting := Lasting.setSta sleeping aid s.timBitmap 0
  rw [UInt16.or_zero] at lasting
  exact lasting.trans (Fewer.halXmitframeEnqueue _ asked).lasting

omit [DecidableEq S] in
/-- What the counters of a station with nothing but delivery-enabled categories say. -/
theorem Buffered.acLen (buffered : s.Buffered) (waits : (s.sta psta).sleepQ ≠ [])
    (other : s.getBcmcStainfo ≠ some psta) (all : (s.sta psta).hasLegacyAc = false) (ac : Ac) :
    (s.sta psta).uapsd ac = 3 :=
  (buffered.enabled psta (buffered.live psta waits) other all).1 ac

omit [DecidableEq S] in
theorem wmmps_all {sta : Sta S} (all : sta.uapsd ac = 3) : (sta.uapsd ac &&& 2 != 0) = true := by
  rw [all]
  rfl

/-- One turn of the loop. -/
theorem wakeupLoop_cons (s : TxState S) (psta : S) (f : XmitFrame S) (later : List (XmitFrame S)) :
    ∃ mdata eosp acLen, s.wakeupLoop psta (f :: later) =
        ((s.setSta psta { s.sta psta with
          sleepQ := later, sleepqLen := (s.sta psta).sleepqLen - 1,
          sleepqAcLen := acLen }).halXmitframeEnqueue (f.trigger mdata eosp)).wakeupLoop psta later ∧
      ((s.sta psta).uapsd f.ac = 3 → acLen = (s.sta psta).sleepqAcLen - 1) := by
  simp only [TxState.wakeupLoop]
  split
  · exact ⟨_, _, _, rfl, fun _ => rfl⟩
  · rename_i plain
    exact ⟨_, _, _, rfl, fun all => absurd (wmmps_all all) plain⟩

theorem Saved.wakeupLoop (saved : s.Saved) {frames : List (XmitFrame S)} (all : (s.sta psta).sleepQ = frames) :
    Saved (s.wakeupLoop psta frames) ∧ s.Lasting (s.wakeupLoop psta frames) ∧
      ((s.wakeupLoop psta frames).sta psta).sleepQ = [] := by
  induction frames generalizing s with
  | nil => exact ⟨saved, .refl s, all⟩
  | cons f later ih =>
      obtain ⟨mdata, eosp, acLen, turn, counted⟩ := wakeupLoop_cons s psta f later
      rw [turn]
      have handed := saved.handOn (g := f.trigger mdata eosp) [] later all (fun other legacy =>
        counted (saved.buffered.acLen (by simp [all]) other legacy f.ac)) rfl
      obtain ⟨saved, lasting, empty⟩ := ih handed (by simp)
      refine ⟨saved, Lasting.trans (handOn_lasting ?_ ?_ ?_) lasting, empty⟩ <;> rfl

/-- The loops over the group's queue; `pass` is what becomes of a frame. -/
theorem Saved.groupLoop (pass : XmitFrame S → Bool → XmitFrame S) (asked : ∀ f mdata, (pass f mdata).triggered = true)
    (loop : TxState S → List (XmitFrame S) → TxState S) (nil : ∀ s, loop s [] = s)
    (cons : ∀ s f later, loop s (f :: later) =
      loop ((s.setSta psta { s.sta psta with
        sleepQ := later, sleepqLen := (s.sta psta).sleepqLen - 1 }).halXmitframeEnqueue
          (pass f (0 < (s.sta psta).sleepqLen - 1))) later)
    (saved : s.Saved) (group : s.getBcmcStainfo = some psta) {frames : List (XmitFrame S)}
    (all : (s.sta psta).sleepQ = frames) :
    Saved (loop s frames) ∧ s.Lasting (loop s frames) ∧ ((loop s frames).sta psta).sleepQ = [] := by
  induction frames generalizing s with
  | nil =>
      rw [nil]
      exact ⟨saved, .refl s, all⟩
  | cons f later ih =>
      rw [cons]
      have handed : Saved ((s.setSta psta { s.sta psta with
          sleepQ := later, sleepqLen := (s.sta psta).sleepqLen - 1 }).halXmitframeEnqueue
            (pass f (0 < (s.sta psta).sleepqLen - 1))) :=
        saved.handOn [] later all (fun other => absurd group other) (asked ..)
      have same : s.Lasting ((s.setSta psta { s.sta psta with
          sleepQ := later, sleepqLen := (s.sta psta).sleepqLen - 1 }).halXmitframeEnqueue
            (pass f (0 < (s.sta psta).sleepqLen - 1))) := by
        refine handOn_lasting ?_ ?_ (asked ..) <;> rfl
      obtain ⟨saved, lasting, empty⟩ := ih handed ((getBcmcStainfo_congr same.hash).trans group) (by simp)
      exact ⟨saved, same.trans lasting, empty⟩

theorem Saved.wakeupBmcLoop (saved : s.Saved) (group : s.getBcmcStainfo = some psta) :
    Saved (s.wakeupBmcLoop psta (s.sta psta).sleepQ) ∧ s.Lasting (s.wakeupBmcLoop psta (s.sta psta).sleepQ) ∧
      ((s.wakeupBmcLoop psta (s.sta psta).sleepQ).sta psta).sleepQ = [] :=
  Saved.groupLoop (fun f mdata => f.trigger mdata f.attrib.eosp) (fun _ _ => rfl)
    (fun s => s.wakeupBmcLoop psta) (fun _ => rfl) (fun _ _ _ => rfl) saved group rfl

theorem Saved.chkBmcLoop (hiq : XmitFrame S → Bool) (saved : s.Saved) (group : s.getBcmcStainfo = some psta) :
    Saved (s.chkBmcLoop hiq psta (s.sta psta).sleepQ) ∧ s.Lasting (s.chkBmcLoop hiq psta (s.sta psta).sleepQ) ∧
      ((s.chkBmcLoop hiq psta (s.sta psta).sleepQ).sta psta).sleepQ = [] := by
  refine Saved.groupLoop (fun f mdata => (f.trigger mdata f.attrib.eosp).toHiq hiq) (fun f mdata => ?_)
    (fun s => s.chkBmcLoop hiq psta) (fun _ => rfl) (fun _ _ _ => rfl) saved group rfl
  unfold XmitFrame.toHiq
  split <;> rfl

/-! ## The calls -/

omit [DecidableEq S] in
theorem Buffered.counted (buffered : s.Buffered) (empty : (s.sta psta).sleepQ = []) :
    (s.sta psta).sleepqLen = 0 := by
  rw [buffered.len, empty]
  rfl

/-- `wakeup_sta_to_xmit`. -/
theorem Saved.wakeupStaToXmit (saved : s.Saved) {a : MacAddr} (found : s.hash a = some psta)
    (single : s.getBcmcStainfo ≠ some psta) : Saved (s.wakeupStaToXmit psta) := by
  have woken : Saved (s.wakeupSta psta) := by
    obtain ⟨looped, lasting, empty⟩ := saved.wakeupLoop (rfl : (s.sta psta).sleepQ = _)
    have none_ := looped.buffered.counted empty
    have link := looped.buffered.numbered.linked a psta (lasting.hash ▸ found)
    rw [TxState.wakeupSta, if_pos none_]
    refine looped.forget link (getBcmcStainfo_congr lasting.hash ▸ single) empty ?_ (.inr ⟨?_, ?_⟩)
    · rw [← none_]
    · rfl
    · rfl
  unfold TxState.wakeupStaToXmit TxState.wakeupBmc
  split
  · exact woken
  rename_i bmc group
  split
  · obtain ⟨looped, lasting, empty⟩ := woken.wakeupBmcLoop group
    simp only [looped.buffered.counted empty, if_true]
    exact looped.forgetGroup ((getBcmcStainfo_congr lasting.hash).trans group) empty
  · exact woken

/-- `chk_bmc_sleepq_hdl`. -/
theorem Saved.chkBmcSleepqHdl (hiq : XmitFrame S → Bool) (saved : s.Saved) : Saved (s.chkBmcSleepqHdl hiq) := by
  unfold TxState.chkBmcSleepqHdl
  split
  · exact saved
  · rename_i bmc group
    split
    · exact (saved.chkBmcLoop hiq group).1
    · exact saved

omit [DecidableEq S] in
/-- A queue of fewer than 2³² frames is empty when its counter is zero. -/
theorem Buffered.empty (buffered : s.Buffered) (few : (s.sta psta).sleepQ.length < 2 ^ 32)
    (none_ : (s.sta psta).sleepqLen = 0) : (s.sta psta).sleepQ = [] := by
  rw [buffered.len, ← UInt32.toNat_inj, UInt32.toNat_ofNat_of_lt' few] at none_
  exact List.eq_nil_of_length_eq_zero none_

omit [DecidableEq S] in
/-- `rtw_chk_hi_queue_hdl`. -/
theorem Saved.chkHiQueueHdl (empty : Bool) (saved : s.Saved) (few : ∀ p, (s.sta p).sleepQ.length < 2 ^ 32) :
    Saved (s.chkHiQueueHdl empty) := by
  unfold TxState.chkHiQueueHdl
  split
  · exact saved
  · rename_i bmc group
    split
    · rename_i none_
      exact saved.forgetGroup group (saved.buffered.empty (few bmc) none_.1)
    · exact saved

/-- The TIM forgets a station for which nothing waits. -/
theorem Saved.untell (saved : s.Saved) (linked : (s.sta psta).linked = true) (single : s.getBcmcStainfo ≠ some psta)
    (nothing : (s.sta psta).sleepQ = []) {aid : Nat} (same : (s.sta psta).aid = aid) :
    Saved { s with timBitmap := s.timBitmap &&& ~~~s.bit aid } := by
  have counted : s.sta psta = { s.sta psta with sleepqLen := 0, sleeping := (s.sta psta).sleeping } := by
    rw [← saved.buffered.counted nothing]
  have forgotten := saved.forget linked single nothing counted (.inl ⟨rfl, rfl⟩)
  rw [same] at forgotten
  simpa [TxState.setSta] using forgotten

theorem Saved.deliveryLoop (saved : s.Saved) (single : s.getBcmcStainfo ≠ some psta) {a : MacAddr}
    (found : s.hash a = some psta) {stay frames : List (XmitFrame S)}
    (all : (s.sta psta).sleepQ = stay ++ frames) (few : (stay ++ frames).length < 2 ^ 32) :
    Saved (s.deliveryLoop psta stay frames) := by
  induction frames generalizing s stay with
  | nil => exact saved
  | cons f later ih =>
      have fewer : (stay ++ later).length < 2 ^ 32 := by
        simp only [List.length_append, List.length_cons] at few ⊢
        omega
      simp only [TxState.deliveryLoop]
      split
      · exact ih saved single found (by simpa using all) (by simpa using few)
      have handed := saved.handOn (g := f.trigger (0 < (s.sta psta).sleepqAcLen - 1) ((s.sta psta).sleepqAcLen - 1 = 0))
        stay later all (fun _ _ => rfl) rfl
      have lasting := @handOn_lasting S _ s psta { s.sta psta with
        sleepQ := stay ++ later
        sleepqLen := (s.sta psta).sleepqLen - 1
        sleepqAcLen := (s.sta psta).sleepqAcLen - 1 } rfl rfl
        (f.trigger (0 < (s.sta psta).sleepqAcLen - 1) ((s.sta psta).sleepqAcLen - 1 = 0)) rfl
      have single' := getBcmcStainfo_congr lasting.hash ▸ single
      have found' := lasting.hash.symm ▸ found
      split
      · rename_i last
        refine ih (handed.untell (handed.buffered.numbered.linked a psta found') single' ?_ (lasting.aid psta))
          single' found' (by simp) fewer
        obtain ⟨-, counted⟩ := handed.buffered.enabled psta (handed.buffered.numbered.linked a psta found') single' (by
          rw [sta_halXmitframeEnqueue]
          simpa using last.2)
        rw [sta_halXmitframeEnqueue] at counted ⊢
        simp only [setSta_self, last.1] at counted ⊢
        rw [← UInt32.toNat_inj, UInt32.toNat_ofNat_of_lt' fewer] at counted
        exact List.eq_nil_of_length_eq_zero counted.symm
      · exact ih handed single' found' (by simp) fewer

/-- `process_wmmps_data`. -/
theorem Saved.processWmmpsData (saved : s.Saved) (single : s.getBcmcStainfo ≠ some psta) {a : MacAddr}
    (found : s.hash a = some psta) (few : (s.sta psta).sleepQ.length < 2 ^ 32) (priority : UInt8) :
    Saved (s.processWmmpsData psta priority) := by
  simp only [TxState.processWmmpsData]
  split
  · exact saved.deliveryLoop single found rfl few
  · exact saved

/-- `validate_recv_ctrl_frame`. -/
theorem Saved.validateRecvPspoll (saved : s.Saved) (single : s.getBcmcStainfo ≠ some psta) {a : MacAddr}
    (found : s.hash a = some psta) (few : (s.sta psta).sleepQ.length < 2 ^ 32) (priority : UInt8) (aid : Nat) :
    Saved (s.validateRecvPspoll psta priority aid) := by
  have link := saved.buffered.numbered.linked a psta found
  simp only [TxState.validateRecvPspoll]
  split
  · exact saved
  split
  · exact saved
  rename_i legacy
  split
  · split
    · rename_i f later head
      have counted (other : s.getBcmcStainfo ≠ some psta) (all : (s.sta psta).hasLegacyAc = false) :
          (s.sta psta).sleepqAcLen = (s.sta psta).sleepqAcLen - 1 := by
        rw [saved.buffered.acLen (by simp [head]) other all] at legacy
        exact absurd (by decide) legacy
      have handed := saved.handOn (g := f.trigger (0 < (s.sta psta).sleepqLen - 1) f.attrib.eosp) [] later head
        counted rfl
      have lasting := @handOn_lasting S _ s psta { s.sta psta with
        sleepQ := later, sleepqLen := (s.sta psta).sleepqLen - 1 } rfl rfl
        (f.trigger (0 < (s.sta psta).sleepqLen - 1) f.attrib.eosp) rfl
      have found' := lasting.hash.symm ▸ found
      split
      · rename_i last
        refine handed.untell (handed.buffered.numbered.linked a psta found')
          (getBcmcStainfo_congr lasting.hash ▸ single) (handed.buffered.empty ?_ ?_) (lasting.aid psta)
        · rw [head] at few
          simp only [sleepQ_halXmitframeEnqueue, setSta_self, List.length_cons, List.nil_append] at few ⊢
          omega
        · rw [sta_halXmitframeEnqueue]
          simpa using last
      · exact handed
    · rename_i empty
      split
      · exact saved
      · exact saved.forget link single empty rfl (.inl ⟨rfl, rfl⟩)
  · exact saved

/-- A frame from above. -/
theorem Saved.xmit (saved : s.Saved) (apart : ∀ a b p, s.hash a = some p → s.hash b = some p → a = b)
    (direct : Bool) : Saved (s.xmit f direct) := by
  unfold TxState.xmit
  split
  · rename_i buffered
    exact ⟨saved.buffered.enqueue apart buffered, saved.quiet.enqueue buffered⟩
  rename_i passed
  split
  · exact (Fewer.leave s f).saved saved
  by_cases asked : f.triggered = true
  · exact (Fewer.halXmitframeEnqueue s asked).saved saved
  have fresh : f.triggered = false := by simpa using asked
  unfold TxState.halXmitframeEnqueue
  cases classified : s.xmitClassifier f with
  | none => exact (Fewer.leave s f).saved saved
  | some s' =>
      obtain ⟨psta, owns, rfl⟩ := xmitClassifier_some classified
      have group := owns.group_iff apart
      have awake : ¬s.Buffers psta := by
        intro buffers
        obtain ⟨t, taken⟩ := buffers.enqueue owns fresh group
        rw [passed] at taken
        exact nomatch taken
      have same (p : S) : (s.insertTail psta f).sta p =
          { s.sta p with servq := ((s.insertTail psta f).sta p).servq } := by
        by_cases at_ : p = psta
        · subst at_
          simp [insertTail, setServq]
        · simp [insertTail, setServq, setSta_of_ne _ _ _ at_]
      have untriggered {p : S} {ac : Ac} (waits : (s.insertTail psta f).Untriggered p ac) :
          s.Untriggered p ac ∨ p = psta := by
        obtain ⟨g, inside, unasked⟩ := waits
        by_cases at_ : p = psta
        · exact .inr at_
        · refine .inl ⟨g, ?_, unasked⟩
          rw [insertTail, pending_setServq, if_neg (by simp [at_])] at inside
          exact inside
      have buffered : Buffered (s.insertTail psta f) :=
        Buffered.same (s := s) rfl rfl rfl rfl same saved.buffered
      show Saved (s.insertTail psta f)
      refine ⟨buffered, fun p linked other sleeping ac waits => ?_, fun p record some_ waits => ?_⟩
      · rw [same] at linked sleeping
        rcases untriggered waits with before | rfl
        · exact saved.quiet.single p linked other sleeping ac before
        · exact awake (.inr ⟨other, sleeping, saved.buffered.asleep p linked other sleeping⟩)
      · rcases untriggered waits with before | rfl
        · exact saved.quiet.group p record some_ before
        · exact awake (.inl ⟨record, some_⟩)

/-! ## A station falls asleep -/

theorem Buffered.lull (buffered : s.Buffered) (linked : (s.sta psta).linked = true)
    (single : s.getBcmcStainfo ≠ some psta) : Buffered (s.lull psta) := by
  obtain ⟨-, fits⟩ := buffered.numbered.fits psta linked single
  refine buffered.change ?_ ?_ (buffered.live psta) (buffered.len psta) (buffered.told psta) (buffered.group psta)
    (fun _ _ _ => ?_) (buffered.enabled psta) (fun p _ _ _ => ⟨id, or_and_ne_zero _⟩) fun _ => id
  · rfl
  · rfl
  · exact or_self_ne_zero (bit_ne_zero s fits)

section Stop

variable [Fintype S]

/-- Since some state queues have been emptied; the stations and what they buffer are in order. -/
structure Stopping (s₀ s : TxState S) : Prop where
  sound : Sound 0 s
  buffered : s.Buffered
  lasting : s₀.Lasting s
  linked : ∀ p, (s.sta p).linked = (s₀.sta p).linked
  pending : ∀ p ac, s.pending p ac ⊆ s₀.pending p ac

omit [Fintype S] in
theorem pending_moved (p : S) (ac' : Ac) : (s.moved psta ac).pending p ac' = s.pending p ac' := by
  simp only [moved, pending_setServq]
  split
  · rename_i at_
    rw [at_.1, at_.2]
    rfl
  · rfl

omit [Fintype S] in
theorem Fewer.moved (s : TxState S) (psta : S) (ac : Ac) : Fewer s (s.moved psta ac) :=
  ((refl s).rings s.staQueue (Function.update s.accnt ac (s.accnt ac - 1)) s.arrived s.gone).trans (.setServq _ _ id)

omit [Fintype S] in
theorem Fewer.during (s : TxState S) (psta : S) (ac : Ac) : Fewer s (s.during psta ac []) := by
  refine Fewer.trans (.setServq _ _ ?_) (.settle ..)
  rintro ⟨g, inside, -⟩
  exact nomatch inside

omit [Fintype S] in
theorem pending_during (p : S) (ac' : Ac) :
    (s.during psta ac []).pending p ac' = if p = psta ∧ ac' = ac then [] else s.pending p ac' := by
  simp only [TxState.during, pending_settle, pending_setServq]

/-- What each turn of the loop that empties a queue keeps. -/
structure Emptying (s t : TxState S) : Prop where
  buffered : t.Buffered
  linked : ∀ p, (t.sta p).linked = (s.sta p).linked
  pending : ∀ p ac, t.pending p ac = s.pending p ac

theorem Emptying.turn {t t' : TxState S} (emptying : Emptying s t) {later : List (XmitFrame S)}
    (parking : Parking 0 t psta ac (f :: later))
    (taken : t.enqueueForSleepingSta { f with triggered := false } = some t') : Emptying s (t'.moved psta ac) := by
  obtain ⟨-, owns⟩ := parking.head
  have apart : ∀ a b p, t.hash a = some p → t.hash b = some p → a = b := by
    have apart := parking.sound.apart
    rwa [TxState.during, settle_hash] at apart
  have moved := Fewer.moved t' psta ac
  have buffered := emptying.buffered.enqueue apart taken
  obtain ⟨sta, tim, b, rfl, servq, link, -⟩ := enqueueForSleepingSta_setSta owns taken
  refine ⟨moved.buffered buffered, fun p => ?_, fun p ac' => ?_⟩
  · rw [moved.sta, ← emptying.linked]
    by_cases at_ : p = psta
    · subst at_
      simp [link]
    · simp [setSta_of_ne _ _ _ at_]
  · rw [pending_moved, ← emptying.pending]
    exact congrArg TxServq.staPending (servq_setSta t psta servq p ac')

/-- A queue is parked. -/
theorem Stopping.park {s₀ : TxState S} (stopping : Stopping s₀ s) (buffers : s₀.Buffers psta) (ac : Ac) :
    Stopping s₀ (s.park psta ac) ∧ (s.park psta ac).pending psta ac = [] ∧
      ∀ p ac', (s.park psta ac).pending p ac' ⊆ s.pending p ac' := by
  have buffers := buffers.lasting stopping.lasting
  obtain ⟨sound, lasting⟩ := stopping.sound.park buffers ac
  have start : Emptying s s := ⟨stopping.buffered, fun _ => rfl, fun _ _ => rfl⟩
  obtain ⟨t, ⟨buffered, linked, pending⟩, -, same⟩ := stopping.sound.park_keeps buffers ac start
    fun t f later t' parking emptying taken => emptying.turn parking taken
  have fewer := Fewer.during t psta ac
  rw [same] at fewer
  have less (p : S) (ac' : Ac) :
      (s.park psta ac).pending p ac' = if p = psta ∧ ac' = ac then [] else s.pending p ac' := by
    rw [← same, pending_during, pending]
  have sub (p : S) (ac' : Ac) : (s.park psta ac).pending p ac' ⊆ s.pending p ac' := by
    rw [less]
    split
    · exact List.nil_subset _
    · exact fun _ => id
  refine ⟨⟨sound, fewer.buffered buffered, stopping.lasting.trans lasting, fun p => ?_, fun p ac' => ?_⟩, ?_, sub⟩
  · rw [fewer.sta, linked, stopping.linked]
  · exact List.Subset.trans (sub p ac') (stopping.pending p ac')
  · rw [less, if_pos ⟨rfl, rfl⟩]

/-- Some queues are parked. -/
theorem Stopping.parks {s₀ : TxState S} (stopping : Stopping s₀ s) (buffers : s₀.Buffers psta) (acs : List Ac) :
    Stopping s₀ (acs.foldl (TxState.park · psta) s) ∧
      (∀ ac ∈ acs, (acs.foldl (TxState.park · psta) s).pending psta ac = []) ∧
      ∀ p ac, (acs.foldl (TxState.park · psta) s).pending p ac ⊆ s.pending p ac := by
  induction acs generalizing s with
  | nil => exact ⟨stopping, fun _ inside => (nomatch inside), fun _ _ _ => id⟩
  | cons first acs ih =>
      obtain ⟨parked, empty, less⟩ := stopping.park buffers first
      obtain ⟨parked, all, less'⟩ := ih parked
      refine ⟨parked, fun ac inside => ?_, fun p ac => List.Subset.trans (less' p ac) (less p ac)⟩
      rcases List.mem_cons.mp inside with rfl | behind
      · refine List.subset_nil.mp (List.Subset.trans (less' psta ac) ?_)
        rw [empty]
        exact fun _ => id
      · exact all ac behind

/-- `stop_sta_xmit`. -/
theorem Saved.stopStaXmit (saved : s.Saved) (sound : Sound 0 s) {a : MacAddr} (found : s.hash a = some psta)
    (single : s.getBcmcStainfo ≠ some psta) : Saved (s.stopStaXmit psta) := by
  have link := saved.buffered.numbered.linked a psta found
  have lulled := saved.buffered.lull link single
  have sound' : Sound 0 (s.lull psta) := by
    refine (sound.retain ?_ ?_ ?_).bitmaps .. <;> rfl
  have sleeps : ((s.lull psta).sta psta).sleeping = true := by simp [TxState.lull]
  have marked := lulled.asleep psta (lulled.numbered.linked a psta found) single sleeps
  have begun : Stopping (s.lull psta) (s.lull psta) :=
    ⟨sound', lulled, .refl _, fun _ => rfl, fun _ _ _ => id⟩
  obtain ⟨stopping, all, -⟩ := begun.parks (.inr ⟨single, sleeps, marked⟩) [.vo, .vi, .be, .bk]
  rw [stopStaXmit_eq]
  show Saved ([Ac.vo, .vi, .be, .bk].foldl (TxState.park · psta) (s.lull psta)).parkGroup
  generalize [Ac.vo, .vi, .be, .bk].foldl (TxState.park · psta) (s.lull psta) = t at stopping all
  have parked : Stopping (s.lull psta) t.parkGroup ∧ (∀ p ac, t.parkGroup.pending p ac ⊆ t.pending p ac) ∧
      ∀ bmc, s.getBcmcStainfo = some bmc → t.parkGroup.pending bmc .be = [] := by
    have record : t.getBcmcStainfo = s.getBcmcStainfo := getBcmcStainfo_congr stopping.lasting.hash
    unfold TxState.parkGroup
    split
    · rename_i bmc group
      have somebody : (s.lull psta).staDzBitmap ≠ 0 := by
        intro none_
        rw [none_, UInt16.zero_and] at marked
        exact marked rfl
      obtain ⟨parked, empty, less⟩ := stopping.park (.inl ⟨record ▸ group, somebody⟩) .be
      refine ⟨parked, less, fun p here => ?_⟩
      obtain rfl : bmc = p := Option.some.inj (group.symm.trans (record.trans here))
      exact empty
    · rename_i nobody
      refine ⟨stopping, fun _ _ _ => id, fun bmc here => ?_⟩
      rw [← record, nobody] at here
      exact absurd here.symm (Option.some_ne_none _)
  obtain ⟨parked, less, groupEmpty⟩ := parked
  have record : t.parkGroup.getBcmcStainfo = s.getBcmcStainfo := getBcmcStainfo_congr parked.lasting.hash
  have nothing {p : S} {ac : Ac} (empty : t.parkGroup.pending p ac = []) : ¬t.parkGroup.Untriggered p ac := by
    rintro ⟨g, inside, -⟩
    rw [empty] at inside
    exact absurd inside List.not_mem_nil
  refine ⟨parked.buffered, fun p linked other sleeping ac => ?_, fun p group _ => ?_⟩
  · by_cases at_ : p = psta
    · subst at_
      refine nothing (List.subset_nil.mp (List.Subset.trans (less p ac) ?_))
      rw [all ac (by cases ac <;> decide)]
      exact fun _ => id
    · rintro ⟨g, inside, fresh⟩
      have before := parked.pending p ac inside
      rw [pending_lull] at before
      rw [parked.linked] at linked
      rw [parked.lasting.sleeping] at sleeping
      simp only [TxState.lull, setSta_of_ne _ _ _ at_] at linked sleeping
      exact saved.quiet.single p linked (record ▸ other) sleeping ac ⟨g, before, fresh⟩
  · exact nothing (groupEmpty p (record ▸ group))

end Stop

/-! ## Stations come and go -/

/-- What is left of a station that goes, its association id within the bitmaps. -/
def freed (sta : Sta S) : Sta S :=
  { sta with
    linked := false, sleepQ := [], sleepqLen := 0, servq := fun _ => ⟨0, []⟩, sleepqAcLen := 0, qosInfo := 0,
    uapsd := fun _ => 0, hasLegacyAc := false, aid := 0 }

/-- A station is gone: out of the table, its record bare, its bits cleared. -/
structure Departs (s : TxState S) (psta : S) (s' : TxState S) : Prop where
  hash : ∀ a, s'.hash a = if s.hash a = some psta then none else s.hash a
  overshift : s'.overshift = s.overshift
  tim : s'.timBitmap = s.timBitmap &&& ~~~s.bit (s.sta psta).aid
  dz : s'.staDzBitmap = s.staDzBitmap &&& ~~~s.bit (s.sta psta).aid
  bare : s'.sta psta = freed (s.sta psta)
  others : ∀ p, p ≠ psta → s'.sta p = s.sta p

theorem departs_freeStainfo (fits : (s.sta psta).aid ≤ 15) : Departs s psta (s.freeStainfo psta) := by
  have low : ¬31 < (s.sta psta).aid := by omega
  simp only [TxState.freeStainfo]
  rw [if_neg low]
  exact ⟨fun _ => rfl, rfl, rfl, rfl, setSta_self .., fun _ ne => setSta_of_ne _ _ _ ne⟩

theorem Departs.linked (departs : Departs s psta s') {p : S} (linked : (s'.sta p).linked = true) :
    p ≠ psta ∧ s'.sta p = s.sta p := by
  have ne : p ≠ psta := by
    rintro rfl
    rw [departs.bare] at linked
    exact nomatch linked
  exact ⟨ne, departs.others p ne⟩

theorem Departs.numbered (departs : Departs s psta s') (numbered : s.Numbered)
    (record : s'.getBcmcStainfo = s.getBcmcStainfo) : s'.Numbered := by
  refine ⟨fun a p here => ?_, fun p linked other => ?_, fun p q linked linked' other other' same => ?_⟩
  · rw [departs.hash] at here
    split at here
    · exact absurd here.symm (Option.some_ne_none _)
    · rename_i elsewhere
      have ne : p ≠ psta := by
        rintro rfl
        exact elsewhere here
      rw [departs.others p ne]
      exact numbered.linked a p here
  · obtain ⟨ne, stays⟩ := departs.linked linked
    rw [stays] at linked ⊢
    exact numbered.fits p linked (record ▸ other)
  · obtain ⟨ne, stays⟩ := departs.linked linked
    obtain ⟨ne', stays'⟩ := departs.linked linked'
    rw [stays] at linked
    rw [stays'] at linked'
    rw [stays, stays'] at same
    exact numbered.own p q linked linked' (record ▸ other) (record ▸ other') same

theorem Departs.saved (departs : Departs s psta s') (saved : s.Saved) (link : (s.sta psta).linked = true)
    (single : s.getBcmcStainfo ≠ some psta) : Saved s' := by
  have record : s'.getBcmcStainfo = s.getBcmcStainfo := by
    rw [getBcmcStainfo, departs.hash]
    exact if_neg single
  obtain ⟨numbered, live, len, told, group, asleep, enabled⟩ := saved.buffered
  have bit (aid : Nat) : s'.bit aid = s.bit aid := bit_congr departs.overshift aid
  have waits {p : S} (some_ : (s'.sta p).sleepQ ≠ []) : p ≠ psta := by
    rintro rfl
    rw [departs.bare] at some_
    exact some_ rfl
  have untriggered {p : S} {ac : Ac} (waiting : s'.Untriggered p ac) : p ≠ psta ∧ s.Untriggered p ac := by
    obtain ⟨f, inside, fresh⟩ := waiting
    have ne : p ≠ psta := by
      rintro rfl
      rw [pending, servq, departs.bare] at inside
      exact absurd inside List.not_mem_nil
    rw [pending, servq, departs.others p ne] at inside
    exact ⟨ne, f, inside, fresh⟩
  refine ⟨⟨departs.numbered numbered record, fun p some_ => ?_, fun p => ?_, fun p other f inside mark => ?_,
    fun p here some_ => ?_, fun p linked other sleeping => ?_, fun p linked other all => ?_⟩,
    fun p linked other sleeping ac waiting => ?_, fun p here somebody waiting => ?_⟩
  · have ne := waits some_
    rw [departs.others p ne] at some_ ⊢
    exact live p some_
  · by_cases at_ : p = psta
    · rw [at_, departs.bare]
      rfl
    · rw [departs.others p at_]
      exact len p
  · have ne := waits (List.ne_nil_of_mem inside)
    rw [departs.others p ne] at inside mark ⊢
    rw [departs.tim, bit, numbered.clear_other link single ne (live p (List.ne_nil_of_mem inside)) (record ▸ other)]
    exact told p (record ▸ other) f inside mark
  · have ne := waits some_
    rw [departs.others p ne] at some_
    rw [departs.tim, bit, numbered.clear_group link single]
    exact group p (record ▸ here) some_
  · obtain ⟨ne, stays⟩ := departs.linked linked
    rw [stays] at linked sleeping ⊢
    rw [departs.dz, bit, numbered.clear_other link single ne linked (record ▸ other)]
    exact asleep p linked (record ▸ other) sleeping
  · obtain ⟨-, stays⟩ := departs.linked linked
    rw [stays] at linked all ⊢
    exact enabled p linked (record ▸ other) all
  · obtain ⟨-, stays⟩ := departs.linked linked
    rw [stays] at linked sleeping
    exact saved.quiet.single p linked (record ▸ other) sleeping ac (untriggered waiting).2
  · refine saved.quiet.group p (record ▸ here) (fun none_ => somebody ?_) (untriggered waiting).2
    rw [departs.dz, none_, UInt16.zero_and]

/-- `rtw_free_stainfo`. -/
theorem Saved.freeStainfo (saved : s.Saved) {a : MacAddr} (found : s.hash a = some psta)
    (single : s.getBcmcStainfo ≠ some psta) : Saved (s.freeStainfo psta) := by
  have link := saved.buffered.numbered.linked a psta found
  exact (departs_freeStainfo (saved.buffered.numbered.fits psta link single).2).saved saved link single

/-- A station may join: its record and its address are free, and so is its association id. -/
structure Joins (s : TxState S) (hwaddr : MacAddr) (psta : S) (aid : Nat) : Prop where
  single : isMcast hwaddr = false
  unknown : s.hash hwaddr = none
  free : ∀ a, s.hash a ≠ some psta
  fits : 1 ≤ aid ∧ aid ≤ 15
  unused : ∀ p, (s.sta p).linked = true → s.getBcmcStainfo ≠ some p → (s.sta p).aid ≠ aid

omit [DecidableEq S] in
/-- The record of a station that joins. -/
theorem parseStaWmmIe_fresh (sta : Sta S) (wmm : Option UInt8) (all : (parseStaWmmIe sta wmm).hasLegacyAc = false)
    (ac : Ac) : (parseStaWmmIe sta wmm).uapsd ac = 3 := by
  cases wmm with
  | none => exact nomatch all
  | some info =>
      have low : info &&& 0xf = 0xf := by simpa [parseStaWmmIe] using all
      have flag (b : UInt8) (inside : 0xf &&& b = b) (some_ : b ≠ 0) : info &&& b ≠ 0 := by
        rw [← inside, ← UInt8.and_assoc, low, inside]
        exact some_
      cases ac
      · exact if_pos (flag 1 (by decide) (by decide))
      · exact if_pos (flag 2 (by decide) (by decide))
      · exact if_pos (flag 8 (by decide) (by decide))
      · exact if_pos (flag 4 (by decide) (by decide))

/-- What joining does. -/
structure Joined (s : TxState S) (hwaddr : MacAddr) (psta : S) (aid : Nat) (s' : TxState S) : Prop where
  hash : s'.hash = Function.update s.hash hwaddr (some psta)
  overshift : s'.overshift = s.overshift
  tim : s'.timBitmap = s.timBitmap
  dz : s'.staDzBitmap = s.staDzBitmap
  linked : (s'.sta psta).linked = true
  sleeping : (s'.sta psta).sleeping = false
  aid : (s'.sta psta).aid = aid
  servq : (s'.sta psta).servq = fun _ => ⟨0, []⟩
  sleepQ : (s'.sta psta).sleepQ = []
  sleepqLen : (s'.sta psta).sleepqLen = 0
  enabled : (s'.sta psta).hasLegacyAc = false → (∀ ac, (s'.sta psta).uapsd ac = 3) ∧ (s'.sta psta).sleepqAcLen = 0
  others : ∀ p, p ≠ psta → s'.sta p = s.sta p

theorem joined_join (hwaddr : MacAddr) (aid : Nat) (wmm : Option UInt8) :
    Joined s hwaddr psta aid (s.join hwaddr psta aid wmm) := by
  refine ⟨rfl, rfl, rfl, rfl, ?_, ?_, ?_, ?_, ?_, ?_, fun all => ⟨?_, ?_⟩, fun p ne => setSta_of_ne _ _ _ ne⟩
  all_goals simp only [TxState.join, setSta_self] at *
  case refine_7 => exact parseStaWmmIe_fresh _ wmm all
  all_goals cases wmm <;> rfl

theorem Joined.numbered {hwaddr : MacAddr} {aid : Nat} (joined : Joined s hwaddr psta aid s')
    (joins : s.Joins hwaddr psta aid) (numbered : s.Numbered) (record : s'.getBcmcStainfo = s.getBcmcStainfo) :
    s'.Numbered := by
  refine ⟨fun a p here => ?_, fun p linked other => ?_, fun p q linked linked' other other' same => ?_⟩
  · by_cases at_ : p = psta
    · rw [at_]
      exact joined.linked
    · rw [joined.hash] at here
      rw [joined.others p at_]
      by_cases new : a = hwaddr
      · rw [new, Function.update_self] at here
        exact absurd (Option.some.inj here).symm at_
      · rw [Function.update_of_ne new] at here
        exact numbered.linked a p here
  · by_cases at_ : p = psta
    · rw [at_, joined.aid]
      exact joins.fits
    · rw [joined.others p at_] at linked ⊢
      exact numbered.fits p linked (record ▸ other)
  · by_cases at_ : p = psta <;> by_cases at' : q = psta
    · rw [at_, at']
    · rw [at_, joined.aid, joined.others q at'] at same
      rw [joined.others q at'] at linked'
      exact absurd same.symm (joins.unused q linked' (record ▸ other'))
    · rw [at', joined.aid, joined.others p at_] at same
      rw [joined.others p at_] at linked
      exact absurd same (joins.unused p linked (record ▸ other))
    · rw [joined.others p at_, joined.others q at'] at same
      rw [joined.others p at_] at linked
      rw [joined.others q at'] at linked'
      exact numbered.own p q linked linked' (record ▸ other) (record ▸ other') same

theorem Joined.saved {hwaddr : MacAddr} {aid : Nat} (joined : Joined s hwaddr psta aid s')
    (joins : s.Joins hwaddr psta aid) (saved : s.Saved) : Saved s' := by
  have record : s'.getBcmcStainfo = s.getBcmcStainfo := by
    have ne : bcAddr ≠ hwaddr := by
      rintro rfl
      exact absurd joins.single (by decide)
    rw [getBcmcStainfo, joined.hash, Function.update_of_ne ne, getBcmcStainfo]
  obtain ⟨numbered, live, len, told, group, asleep, enabled⟩ := saved.buffered
  have bit (aid : Nat) : s'.bit aid = s.bit aid := bit_congr joined.overshift aid
  have waits {p : S} (some_ : (s'.sta p).sleepQ ≠ []) : p ≠ psta := by
    rintro rfl
    exact some_ joined.sleepQ
  have untriggered {p : S} {ac : Ac} (waiting : s'.Untriggered p ac) : p ≠ psta ∧ s.Untriggered p ac := by
    obtain ⟨f, inside, fresh⟩ := waiting
    have ne : p ≠ psta := by
      rintro rfl
      rw [TxState.pending, TxState.servq, joined.servq] at inside
      exact absurd inside List.not_mem_nil
    rw [TxState.pending, TxState.servq, joined.others p ne] at inside
    exact ⟨ne, f, inside, fresh⟩
  refine ⟨⟨joined.numbered joins numbered record, fun p some_ => ?_, fun p => ?_, fun p other f inside mark => ?_,
    fun p here some_ => ?_, fun p linked other sleeping => ?_, fun p linked other all => ?_⟩,
    fun p linked other sleeping ac waiting => ?_, fun p here somebody waiting => ?_⟩
  · have ne := waits some_
    rw [joined.others p ne] at some_ ⊢
    exact live p some_
  · by_cases at_ : p = psta
    · rw [at_, joined.sleepqLen, joined.sleepQ]
      rfl
    · rw [joined.others p at_]
      exact len p
  · have ne := waits (List.ne_nil_of_mem inside)
    rw [joined.others p ne] at inside mark ⊢
    rw [joined.tim, bit]
    exact told p (record ▸ other) f inside mark
  · have ne := waits some_
    rw [joined.others p ne] at some_
    rw [joined.tim, bit]
    exact group p (record ▸ here) some_
  · by_cases at_ : p = psta
    · rw [at_, joined.sleeping] at sleeping
      exact absurd sleeping Bool.false_ne_true
    · rw [joined.others p at_] at linked sleeping ⊢
      rw [joined.dz, bit]
      exact asleep p linked (record ▸ other) sleeping
  · by_cases at_ : p = psta
    · subst at_
      obtain ⟨flags, none_⟩ := joined.enabled all
      rw [joined.sleepQ]
      exact ⟨flags, none_⟩
    · rw [joined.others p at_] at linked all ⊢
      exact enabled p linked (record ▸ other) all
  · obtain ⟨ne, waiting⟩ := untriggered waiting
    rw [joined.others p ne] at linked sleeping
    exact saved.quiet.single p linked (record ▸ other) sleeping ac waiting
  · exact saved.quiet.group p (record ▸ here) (joined.dz ▸ somebody) (untriggered waiting).2

/-! ## Runs -/

section Run

variable [Fintype S] {hand : Multiset Nat}

omit [DecidableEq S] in
/-- Nothing waits at a record that is in no chain. -/
theorem Sound.spare (sound : Sound hand s) (free : ∀ a, s.hash a ≠ some psta) :
    (∀ ac, s.servq psta ac = ⟨0, []⟩) ∧ (s.sta psta).sleepQ = [] := by
  have nothing (ac : Ac) : s.pending psta ac = [] :=
    List.eq_nil_iff_forall_not_mem.mpr fun f inside => free _ (sound.filed psta ac f inside).2.found
  refine ⟨fun ac => ?_, List.eq_nil_iff_forall_not_mem.mpr fun f inside => free _ (sound.asleep psta f inside).found⟩
  have count : (s.servq psta ac).qcnt = (s.pending psta ac).length := (sound.kept ac).count psta
  rw [nothing] at count
  have queue : (s.servq psta ac).staPending = [] := nothing ac
  rw [← queue, ← show _ = (0 : Int) from count]

/-- A station joins: its queues are empty already. -/
theorem Sound.join (sound : Sound hand s) {hwaddr : MacAddr} {aid : Nat} (joins : s.Joins hwaddr psta aid)
    (wmm : Option UInt8) : Sound hand (s.join hwaddr psta aid wmm) := by
  obtain ⟨bare, empty⟩ := sound.spare joins.free
  have joined := @joined_join S _ s psta hwaddr aid wmm
  have servq (p : S) (ac : Ac) : (s.join hwaddr psta aid wmm).servq p ac = s.servq p ac := by
    by_cases at_ : p = psta
    · rw [at_, bare, TxState.servq, joined.servq]
    · rw [TxState.servq, joined.others p at_, TxState.servq]
  have owns {p : S} {f : XmitFrame S} (before : s.Owns p f) : (s.join hwaddr psta aid wmm).Owns p f := by
    have ne : p ≠ psta := by
      rintro rfl
      exact joins.free _ before.found
    refine ⟨before.owner, ?_, ?_⟩
    · have known : staAddr f.attrib.ra ≠ hwaddr := by
        intro same
        have found : s.hash (staAddr f.attrib.ra) = some p := before.found
        rw [same, joins.unknown] at found
        exact absurd found.symm (Option.some_ne_none _)
      rw [getStainfo, joined.hash, Function.update_of_ne known]
      exact before.found
    · rw [joined.others p ne]
      exact before.linked
  have service (ac : Ac) : (s.join hwaddr psta aid wmm).service ac = s.service ac := by
    refine Server.ext ?_ ?_ rfl rfl
    · funext p
      exact congrArg TxServq.staPending (servq p ac)
    · funext p
      exact congrArg TxServq.qcnt (servq p ac)
  have held : (s.join hwaddr psta aid wmm).held = s.held := by
    refine Finset.sum_congr rfl fun p _ => ?_
    by_cases at_ : p = psta
    · have queue : (s.sta p).servq = ((s.join hwaddr psta aid wmm).sta p).servq := funext fun ac => (servq p ac).symm
      subst at_
      rw [Sta.held, Sta.held, queue, joined.sleepQ, empty]
    · rw [joined.others p at_]
  refine ⟨fun ac => ?_, fun p ac f inside => ?_, fun p f inside => ?_, ?_, fun a b p first second => ?_⟩
  · rw [service]
    exact sound.kept ac
  · rw [pending, servq] at inside
    obtain ⟨category, before⟩ := sound.filed p ac f inside
    exact ⟨category, owns before⟩
  · by_cases at_ : p = psta
    · rw [at_, joined.sleepQ] at inside
      exact absurd inside List.not_mem_nil
    · rw [joined.others p at_] at inside
      exact owns (sound.asleep p f inside)
  · rw [held]
    exact sound.placed
  · rw [joined.hash, Function.update_apply] at first second
    split at first <;> split at second <;> rename_i one other
    · rw [one, other]
    · exact absurd (first ▸ second) (joins.free b)
    · exact absurd (second ▸ first) (joins.free a)
    · exact sound.apart a b p first second

/-- What happens at an access point. -/
inductive PsOp (S : Type)
  | queue (op : TxOp S)
  | join (hwaddr : MacAddr) (psta : S) (aid : Nat) (wmm : Option UInt8)
  | chkBmcSleepq (hiq : XmitFrame S → Bool)
  | chkHiQueue (empty : Bool)

def happen (s : TxState S) : PsOp S → TxState S
  | .queue op => s.apply op
  | .join hwaddr psta aid wmm => s.join hwaddr psta aid wmm
  | .chkBmcSleepq hiq => s.chkBmcSleepqHdl hiq
  | .chkHiQueue empty => s.chkHiQueueHdl empty

/-- `NR_XMITFRAME`. -/
def nrXmitframe : Nat := 256

/-- Frames from above come through `rtw_xmit`, stations have addresses of their own, and association ids that
fit the bitmaps. -/
def Allowed (s : TxState S) : PsOp S → Prop
  | .queue (.classify f) => f.triggered = true
  | .queue (.stop hwaddr) | .queue (.wakeup hwaddr) | .queue (.pspoll hwaddr _ _) | .queue (.wmmps hwaddr _)
  | .queue (.free hwaddr) => isMcast hwaddr = false
  | .queue (.xmit _ _) | .queue (.dequeue _) | .queue (.complete _ _ _) => True
  | .join hwaddr psta aid _ => s.Joins hwaddr psta aid
  | .chkBmcSleepq _ | .chkHiQueue _ => True

/-- An access point that has started: there is the group's record. -/
structure Started (s : TxState S) : Prop where
  idle : s.Idle
  alone : ∀ a p, s.hash a = some p → a = bcAddr
  linked : ∀ p, (s.sta p).linked = true ↔ s.getBcmcStainfo = some p
  sleepqLen : ∀ p, (s.sta p).sleepqLen = 0

/-- The states that come from a state; the frames are those of the pool. -/
inductive Lives (start : TxState S) : TxState S → Prop
  | start : Lives start start
  | step {s : TxState S} (lives : Lives start s) (pool : s.held.card ≤ nrXmitframe) (op : PsOp S)
      (allowed : s.Allowed op) : Lives start (s.happen op)

variable {start : TxState S}

omit [DecidableEq S] [Fintype S] in
theorem Started.saved (started : start.Started) : start.Saved := by
  have single {p : S} (linked : (start.sta p).linked = true) (other : start.getBcmcStainfo ≠ some p) : False :=
    other ((started.linked p).mp linked)
  have pending (p : S) (ac : Ac) : start.pending p ac = [] := by
    rw [TxState.pending, started.idle.servq]
  have quiet (p : S) (ac : Ac) : ¬start.Untriggered p ac := by
    rintro ⟨f, inside, -⟩
    rw [pending] at inside
    exact absurd inside List.not_mem_nil
  refine ⟨⟨⟨fun a p found => ?_, fun p linked other => (single linked other).elim,
    fun p q linked _ other => (single linked other).elim⟩, fun p some_ => ?_, fun p => ?_, fun p _ f inside => ?_,
    fun p _ some_ => ?_, fun p linked other => (single linked other).elim,
    fun p linked other => (single linked other).elim⟩, fun p _ _ _ ac => quiet p ac, fun p _ _ => quiet p .be⟩
  · rw [started.linked, getBcmcStainfo, ← started.alone a p found]
    exact found
  · exact absurd (started.idle.sleepQ p) some_
  · rw [started.idle.sleepQ, started.sleepqLen]
    rfl
  · rw [started.idle.sleepQ] at inside
    exact absurd inside List.not_mem_nil
  · exact absurd (started.idle.sleepQ p) some_

/-- A sleep queue has no more frames than there are. -/
theorem length_sleepQ_le (s : TxState S) (p : S) : (s.sta p).sleepQ.length ≤ s.held.card := by
  calc
    _ = (ids (s.sta p).sleepQ).card := by rw [ids, Multiset.coe_card, List.length_map]
    _ ≤ (s.sta p).held.card := Multiset.card_le_card (Multiset.le_add_right ..)
    _ ≤ s.held.card := by
      refine Multiset.card_le_card ?_
      rw [TxState.held, ← Finset.add_sum_erase _ _ (Finset.mem_univ p)]
      exact Multiset.le_add_right ..

omit [DecidableEq S] in
/-- The record that a station's own address finds is the station's, not the group's. -/
theorem Sound.unicast (sound : Sound 0 s) {hwaddr : MacAddr} (single : isMcast hwaddr = false) {psta : S}
    (found : s.getStainfo hwaddr = some psta) : s.hash hwaddr = some psta ∧ s.getBcmcStainfo ≠ some psta := by
  rw [getStainfo, staAddr, single] at found
  refine ⟨found, fun group => ?_⟩
  rw [sound.apart hwaddr bcAddr psta found group] at single
  exact absurd single (by decide)

omit [DecidableEq S] in
theorem Saved.forStation (saved : s.Saved) (sound : Sound 0 s) {hwaddr : MacAddr} (single : isMcast hwaddr = false)
    {work : S → TxState S}
    (each : ∀ psta, s.hash hwaddr = some psta → s.getBcmcStainfo ≠ some psta → Saved (work psta)) :
    Saved (s.forStation hwaddr work) := by
  unfold TxState.forStation
  split
  · rename_i psta found
    obtain ⟨inside, apart⟩ := sound.unicast single found
    exact each psta inside apart
  · exact saved

/-- One step. -/
theorem Saved.happen (saved : s.Saved) (sound : Sound 0 s) (pool : s.held.card ≤ nrXmitframe) (op : PsOp S)
    (allowed : s.Allowed op) : Saved (s.happen op) := by
  have few (p : S) : (s.sta p).sleepQ.length < 2 ^ 32 :=
    lt_of_le_of_lt ((s.length_sleepQ_le p).trans pool) (by decide)
  cases op with
  | queue op =>
      cases op with
      | classify f => exact (Fewer.halXmitframeEnqueue _ allowed).saved (((Fewer.refl s).rings ..).saved saved)
      | xmit f direct =>
          have arrived : Saved (s.arrive f) := ((Fewer.refl s).rings ..).saved saved
          exact arrived.xmit sound.apart direct
      | dequeue inx =>
          simp only [TxState.happen, TxState.apply]
          split
          · rename_i f s' dequeued
            exact ((Fewer.dequeueXframe dequeued).trans (.leave ..)).saved saved
          · exact saved
      | complete env buf mem => exact (Fewer.xmitframeComplete env buf s mem).saved saved
      | stop hwaddr => exact saved.forStation sound allowed fun _ found single => saved.stopStaXmit sound found single
      | wakeup hwaddr => exact saved.forStation sound allowed fun _ found single => saved.wakeupStaToXmit found single
      | pspoll hwaddr priority aid =>
          exact saved.forStation sound allowed fun psta found single =>
            saved.validateRecvPspoll single found (few psta) priority aid
      | wmmps hwaddr priority =>
          exact saved.forStation sound allowed fun psta found single =>
            saved.processWmmpsData single found (few psta) priority
      | free hwaddr => exact saved.forStation sound allowed fun _ found single => saved.freeStainfo found single
  | join hwaddr psta aid wmm => exact (joined_join hwaddr aid wmm).saved allowed saved
  | chkBmcSleepq hiq => exact saved.chkBmcSleepqHdl hiq
  | chkHiQueue empty => exact saved.chkHiQueueHdl empty few

theorem Sound.chkBmcLoop (sound : Sound hand s) (hiq : XmitFrame S → Bool) {frames : List (XmitFrame S)}
    (all : (s.sta psta).sleepQ = frames) : Sound hand (s.chkBmcLoop hiq psta frames) := by
  induction frames generalizing s with
  | nil => exact sound
  | cons f later ih =>
      simp only [TxState.chkBmcLoop]
      refine ih ?_ (by simp)
      refine Sound.halXmitframeEnqueue ?_
      have id (g : XmitFrame S) : (g.toHiq hiq).id = g.id := by
        unfold XmitFrame.toHiq
        split <;> rfl
      rw [id]
      refine sound.wake [] all ?_ ?_ ?_ <;> rfl

/-- One step. -/
theorem Sound.happen (sound : Sound 0 s) (saved : s.Saved) (op : PsOp S) (allowed : s.Allowed op) :
    Sound 0 (s.happen op) := by
  cases op with
  | queue op =>
      refine sound.apply op ?_
      cases op with
      | stop hwaddr =>
          intro psta found
          obtain ⟨inside, single⟩ := sound.unicast allowed found
          have link := saved.buffered.numbered.linked hwaddr psta inside
          exact .inl (bit_ne_zero s (saved.buffered.numbered.fits psta link single).2)
      | _ => trivial
  | join hwaddr psta aid wmm => exact sound.join allowed wmm
  | chkBmcSleepq hiq =>
      simp only [TxState.happen, TxState.chkBmcSleepqHdl]
      split
      · exact sound
      · split
        · exact sound.chkBmcLoop hiq rfl
        · exact sound
  | chkHiQueue empty =>
      simp only [TxState.happen, TxState.chkHiQueueHdl]
      split
      · exact sound
      · split
        · exact sound.bitmaps ..
        · exact sound

/-- A run. -/
theorem Started.lives (started : start.Started) (lives : Lives start s) : Sound 0 s ∧ s.Saved := by
  induction lives with
  | start => exact ⟨started.idle.sound, started.saved⟩
  | step _ pool op allowed ih => exact ⟨ih.1.happen ih.2 op allowed, ih.2.happen ih.1 pool op allowed⟩

end Run

end TxState

/-! ## One station -/

end Vmac.Transmit
