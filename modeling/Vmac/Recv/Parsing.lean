/-
# Vmac.Recv.Parsing -- the headers of a received frame, and what is behind them

`vmac_override` and `vmac_rx` cast `skb->data` to one header after another and pull it off.  No
length is checked: `skb_pull` of a short buffer does nothing, and `nl_send` copies four bytes
less than there are.

* `overrideParse`: the header reads and the copies that a frame causes.
* `vmacRx_past`: a frame whose headers are inside is treated the same whatever lies behind it.
* `parsing_iff`: the frames for which all of them stay inside the bytes received.
-/
import Vmac.Core.Link
import Vmac.Core.Resend
import Vmac.Recv.Monitor

namespace Vmac.Recv

open Core Theory.Bytes

set_option autoImplicit false

/-- A header read at `skb->data`: the bytes it takes, and those of the frame that are left. -/
structure HeaderRead where
  width : Nat
  left : Nat
  deriving DecidableEq, Repr

/-- The header reads and the lengths copied by `nl_send` while a frame is parsed. -/
structure Parse where
  reads : List HeaderRead
  copies : List Int
  deriving DecidableEq, Repr

/-- No header is read past the end of the frame, and no copy is negative or longer than what was received. -/
def Parse.Robust (p : Parse) (received : Nat) : Prop :=
  (∀ r ∈ p.reads, r.width ≤ r.left) ∧ ∀ length ∈ p.copies, 0 ≤ length ∧ length ≤ received

/-! ## The reads of the code -/

/-- The holes, one `skb_pull` after another. -/
def holeReads : Nat → List UInt8 → List HeaderRead
  | 0, _ => []
  | n + 1, data => ⟨4, data.length⟩ :: holeReads n (pull 4 data)

/-- `nl_send` tells a process: it is registered, and there is a message. -/
def tells (env : Env) (pidt : Int) : Bool := decide (pidt ≠ -1) && env.nlmsgOk

/-- `skb->len - 4`, copied by `nl_send`. -/
def nlCopies (env : Env) (pidt : Int) (skb : Skb) : List Int :=
  if tells env pidt then [(skb.data.length : Int) - 4] else []

/-- The data frame gets to `nl_send`. -/
def dataPasses (env : Env) (n : Entries) (skb : Skb) : Bool :=
  n.rx.any fun e => (e.refresh env).passes (readSeq env.past skb.data)

/-- `vmac_rx` behind the header. -/
def frameParse (env : Env) (pidt : Int) (n : Entries) (h : VmacHdr) (skb : Skb) : Parse :=
  if h.type = vmacHdrInterest then ⟨[], nlCopies env pidt skb⟩
  else if h.type = vmacHdrData then
    ⟨[⟨2, skb.data.length⟩], if dataPasses env n skb then nlCopies env pidt (skb.pull 2) else []⟩
  else if h.type = vmacHdrDack then
    ⟨⟨4, skb.data.length⟩ ::
      if n.tx.isSome then holeReads (field env.past skb.data 0 2) (pull 4 skb.data) else [], []⟩
  else if h.type = vmacHdrAnouncment then ⟨[], nlCopies env pidt skb⟩
  else if h.type = vmacHdrInjected then ⟨[⟨2, skb.data.length⟩], nlCopies env pidt (skb.pull 2)⟩
  else ⟨[], []⟩

/-- `vmac_rx`. -/
def vmacRxParse (hash : Enc → Bucket) (env : Env) (w : World) (skb : Skb) : Parse :=
  let h := readHdr env.past skb.data
  let p := frameParse env w.pidt (w.found hash h.enc) h (skb.pull 9)
  { p with reads := ⟨9, skb.data.length⟩ :: p.reads }

/-- `vmac_override`. -/
def overrideParse (hash : Enc → Bucket) (env : Env) (w : World) (skb : Skb) : Parse :=
  if isVmac env.past skb.data then vmacRxParse hash env w ((skb.pull (itLen env.past skb.data)).pull 30)
  else ⟨[], []⟩

/-! ## What lies behind the frame -/

theorem readHoles_inside {past past' : Nat → UInt8} {n : Nat} {data : List UInt8}
    (inside : ∀ r ∈ holeReads n data, r.width ≤ r.left) : readHoles past' n data = readHoles past n data := by
  induction n generalizing data with
  | zero => rfl
  | succ n ih =>
      rw [holeReads, List.forall_mem_cons] at inside
      have four : 4 ≤ data.length := inside.1
      rw [readHoles, readHoles, readHole, readHole, ih inside.2, @field_inside past past' data 0 2 (by omega),
        @field_inside past past' data 2 2 (by omega)]

section

variable (past' : Nat → UInt8)

theorem holesLoop_past (env : Env) (seq round : Nat) (holes : List VmacHole) (s : DackLoop) :
    s.holesLoop { env with past := past' } seq round holes = s.holesLoop env seq round holes := by
  rw [DackLoop.holesLoop_eq, DackLoop.holesLoop_eq]
  rfl

/-- A frame whose headers are inside is treated the same whatever lies behind it. -/
theorem rxFrame_past {env : Env} {pidt : Int} {n : Entries} {h : VmacHdr} {skb : Skb}
    (inside : ∀ r ∈ (frameParse env pidt n h skb).reads, r.width ≤ r.left) :
    rxFrame { env with past := past' } pidt n h skb = rxFrame env pidt n h skb := by
  unfold frameParse at inside
  unfold rxFrame
  split
  · rfl
  · rename_i interest
    rw [if_neg interest] at inside
    split
    · rename_i data
      rw [if_pos data, List.forall_mem_singleton] at inside
      have seq : readSeq past' skb.data = readSeq env.past skb.data := field_inside inside
      cases n.rx with
      | none => rfl
      | some e =>
          have same : rxData { env with past := past' } pidt e h.enc skb = rxData env pidt e h.enc skb := by
            simp only [rxData, seq]
            rfl
          simp only [same]
    · rename_i data
      rw [if_neg data] at inside
      split
      · rename_i dack
        rw [if_pos dack, List.forall_mem_cons] at inside
        have four : 4 ≤ skb.data.length := inside.1
        cases found : n.tx with
        | none => rfl
        | some t =>
            have count := @field_inside env.past past' skb.data 0 2 (by omega)
            have round := @field_inside env.past past' skb.data 2 2 (by omega)
            have holes := inside.2
            rw [found, Option.isSome_some, if_pos rfl] at holes
            have lists := @readHoles_inside env.past past' _ _ holes
            have same : answerDack { env with past := past' } t skb.data = answerDack env t skb.data := by
              simp only [answerDack, readDack, count, round, lists]
              exact holesLoop_past ..
            simp only [same]
      · rename_i dack
        rw [if_neg dack] at inside
        split
        · rfl
        · rename_i announcement
          rw [if_neg announcement] at inside
          split
          · rename_i injected
            rw [if_pos injected, List.forall_mem_singleton] at inside
            have seq : readSeq past' skb.data = readSeq env.past skb.data := field_inside inside
            simp only [seq]
            rfl
          · rfl

theorem vmacRx_past {hash : Enc → Bucket} {env : Env} {w : World} {skb : Skb}
    (inside : ∀ r ∈ (vmacRxParse hash env w skb).reads, r.width ≤ r.left) :
    vmacRx hash { env with past := past' } w skb = vmacRx hash env w skb := by
  rw [vmacRxParse, List.forall_mem_cons] at inside
  have nine : 9 ≤ skb.data.length := inside.1
  have hdr : readHdr past' skb.data = readHdr env.past skb.data := by
    rw [readHdr, readHdr, @field_inside env.past past' skb.data 0 8 (by omega),
      @byteAt_inside env.past past' skb.data 8 (by omega)]
  simp only [vmacRx, hdr, rxFrame_past past' inside.2]

end

/-! ## The bytes they need -/

/-- What `nl_send` takes off the end. -/
def trailer (env : Env) (pidt : Int) : Nat := if tells env pidt then 4 else 0

/-- The bytes a frame needs behind its header. -/
def needed (env : Env) (pidt : Int) (n : Entries) (h : VmacHdr) (skb : Skb) : Nat :=
  if h.type = vmacHdrInterest then trailer env pidt
  else if h.type = vmacHdrData then 2 + if dataPasses env n skb then trailer env pidt else 0
  else if h.type = vmacHdrDack then 4 + if n.tx.isSome then 4 * field env.past skb.data 0 2 else 0
  else if h.type = vmacHdrAnouncment then trailer env pidt
  else if h.type = vmacHdrInjected then 2 + trailer env pidt
  else 0

theorem length_pull {n : Nat} {data : List UInt8} (enough : n ≤ data.length) :
    (pull n data).length = data.length - n := by
  rw [pull, if_pos enough, List.length_drop]

theorem length_pull_le (n : Nat) (data : List UInt8) : (pull n data).length ≤ data.length := by
  rw [pull]
  split
  · rw [List.length_drop]
    omega
  · exact le_rfl

theorem holeReads_inside (n : Nat) (data : List UInt8) :
    (∀ r ∈ holeReads n data, r.width ≤ r.left) ↔ 4 * n ≤ data.length := by
  induction n generalizing data with
  | zero => simp [holeReads]
  | succ n ih =>
      rw [holeReads, List.forall_mem_cons, ih]
      by_cases enough : 4 ≤ data.length
      · rw [length_pull enough, and_iff_right enough]
        omega
      · exact iff_of_false (fun both => enough both.1) (by omega)

theorem nlCopies_robust (env : Env) (pidt : Int) {skb : Skb} {received : Nat} (part : skb.data.length ≤ received) :
    (∀ length ∈ nlCopies env pidt skb, 0 ≤ length ∧ length ≤ received) ↔ trailer env pidt ≤ skb.data.length := by
  rw [nlCopies, trailer]
  split
  · rw [List.forall_mem_singleton]
    omega
  · simp

/-- A two-byte header in front of what is copied. -/
theorem two_robust {skb : Skb} {received : Nat} (part : skb.data.length ≤ received) {copies : Skb → List Int}
    {rest : Nat} (copied : ∀ s : Skb, s.data.length ≤ received →
      ((∀ length ∈ copies s, 0 ≤ length ∧ length ≤ received) ↔ rest ≤ s.data.length)) :
    Parse.Robust ⟨[⟨2, skb.data.length⟩], copies (skb.pull 2)⟩ received ↔ 2 + rest ≤ skb.data.length := by
  have shorter : (skb.pull 2).data.length ≤ received := (length_pull_le 2 skb.data).trans part
  rw [Parse.Robust, List.forall_mem_singleton, copied _ shorter]
  by_cases enough : 2 ≤ skb.data.length
  · rw [and_iff_right enough, Skb.pull, length_pull enough]
    omega
  · exact iff_of_false (fun both => enough both.1) (by omega)

theorem frameParse_robust (env : Env) (pidt : Int) (n : Entries) (h : VmacHdr) {skb : Skb} {received : Nat}
    (part : skb.data.length ≤ received) :
    (frameParse env pidt n h skb).Robust received ↔ needed env pidt n h skb ≤ skb.data.length := by
  have copy := fun (s : Skb) (le : s.data.length ≤ received) => nlCopies_robust env pidt le
  have bare : Parse.Robust ⟨[], nlCopies env pidt skb⟩ received ↔ trailer env pidt ≤ skb.data.length := by
    rw [Parse.Robust, copy skb part]
    simp
  unfold frameParse needed
  split
  · exact bare
  · split
    · refine @two_robust skb received part (fun s => if dataPasses env n skb then nlCopies env pidt s else []) _ ?_
      intro s le
      split
      · exact copy s le
      · simp
    · split
      · have holes : (∀ r ∈ if n.tx.isSome then holeReads (field env.past skb.data 0 2) (pull 4 skb.data) else [],
            r.width ≤ r.left) ↔ (if n.tx.isSome then 4 * field env.past skb.data 0 2 else 0) ≤
              (pull 4 skb.data).length := by
          split
          · exact holeReads_inside ..
          · simp
        rw [Parse.Robust, List.forall_mem_cons, holes]
        by_cases enough : 4 ≤ skb.data.length
        · rw [length_pull enough]
          simp only [enough, true_and, List.not_mem_nil, false_imp_iff, implies_true, and_true]
          omega
        · exact iff_of_false (fun all => enough all.1.1) (by omega)
      · split
        · exact bare
        · split
          · exact two_robust part copy
          · simp [Parse.Robust]

/-! ## Which frames are long enough -/

/-- Behind the 802.11 header, or from its begin if the frame is too short to pull it, there are a V-MAC header and what
the type needs. -/
def LongEnough (hash : Enc → Bucket) (env : Env) (w : World) (air : List UInt8) : Prop :=
  let skb : Skb := ⟨0, pull 30 air⟩
  let h := readHdr env.past skb.data
  9 + needed env w.pidt (w.found hash h.enc) h (skb.pull 9) ≤ skb.data.length

theorem vmacRxParse_robust (hash : Enc → Bucket) (env : Env) (w : World) {skb : Skb} {received : Nat}
    (part : skb.data.length ≤ received) :
    (vmacRxParse hash env w skb).Robust received ↔
      9 + needed env w.pidt (w.found hash (readHdr env.past skb.data).enc) (readHdr env.past skb.data) (skb.pull 9) ≤
        skb.data.length := by
  have rest := @frameParse_robust env w.pidt (w.found hash (readHdr env.past skb.data).enc)
    (readHdr env.past skb.data) (skb.pull 9) received ((length_pull_le 9 skb.data).trans part)
  rw [Parse.Robust] at rest
  rw [Parse.Robust, vmacRxParse, List.forall_mem_cons, and_assoc, rest]
  by_cases enough : 9 ≤ skb.data.length
  · rw [and_iff_right enough, Skb.pull, length_pull enough]
    omega
  · exact iff_of_false (fun both => enough both.1) (by omega)

/-- A frame from the air, behind the radiotap header of the driver, is parsed inside its bytes if and only if it is no
V-MAC frame or is long enough. -/
theorem parsing_iff (hash : Enc → Bucket) (env : Env) (w : World) (id : Nat) (rtap : Radiotap) (air : List UInt8) :
    (overrideParse hash env w ⟨id, rtap.bytes ++ air⟩).Robust air.length ↔
      (isVmac env.past (rtap.bytes ++ air) = true → LongEnough hash env w air) := by
  rw [overrideParse]
  split
  · rename_i vmac
    have skb : ((⟨id, rtap.bytes ++ air⟩ : Skb).pull (itLen env.past (rtap.bytes ++ air))).pull 30 =
        ⟨id, pull 30 air⟩ := by
      rw [rtap.itLen_bytes, Skb.pull, Skb.pull, pull_of_length rtap.length_bytes]
    rw [skb, vmacRxParse_robust hash env w (length_pull_le 30 air : (⟨id, pull 30 air⟩ : Skb).data.length ≤ air.length)]
    exact ⟨fun long _ => long, fun long => long vmac⟩
  · rename_i other
    exact iff_of_true (by simp [Parse.Robust]) fun vmac => absurd vmac other

/-- A radiotap header without fields. -/
def emptyRadiotap : Radiotap := ⟨0, 0, [], by decide⟩

/-- An 802.11 header with nothing behind it, and an interest without FCS for a registered process. -/
theorem parsing_outside :
    (¬(overrideParse oneBucket .quiet .init ⟨0, emptyRadiotap.bytes ++ ieee80211Hdr ⟨0, 0, 0⟩⟩).Robust 30) ∧
    -4 ∈ (overrideParse oneBucket .quiet { World.init with pidt := 5 }
      ⟨0, emptyRadiotap.bytes ++ (ieee80211Hdr ⟨0, 0, 0⟩ ++ VmacHdr.bytes ⟨7, vmacHdrInterest⟩)⟩).copies := by
  constructor
  · rw [Parse.Robust]
    decide +kernel
  · decide +kernel

end Vmac.Recv
