/-
# Vmac.Transmit.MgntBuffer -- what fits a management transmit buffer: rtw_xmit.c, tx.c

`xmit_mo` and `rtw_monitor_xmit_entry` copy a frame behind the descriptor into a buffer of
`MAX_XMIT_EXTBUF_SZ` bytes.  The length comes from userspace: `nl_recv` takes 100 from the length
field of a message, the headers of `vmac_tx` and `vmac_low_tx` come on top.

* `radios_nlRecv`: the frames for a netlink message, and their lengths.
* `fits_iff`: which messages and injected frames fit.
* `too_long_and_too_short`: three that do not.
-/
import Vmac.Core.Netlink
import Vmac.Transmit.Coalesce

namespace Vmac.Transmit

open Core Theory.Bytes

set_option autoImplicit false

/-- `MAX_XMIT_EXTBUF_SZ`. -/
def maxXmitExtbufSz : Nat := 1536

/-- `TXDESC_OFFSET`. -/
def txdescOffset : Nat := txdescSize + packetOffsetSz

/-! ## rtw_monitor_xmit_entry -/

/-- `struct ieee80211_radiotap_header`. -/
def radiotapHeaderSz : Nat := 8

/-- `ieee80211_get_radiotap_len`. -/
def getRadiotapLen (data : List UInt8) : Nat := ofLe ((data.drop 2).take 2)

/-- `rtw_monitor_xmit_entry`: the length of the copy and the bytes copied.  `pmgntframe` is that there is a transmit
frame; the radiotap fields only choose rate and bandwidth. -/
def rtwMonitorXmitEntry (pmgntframe : Bool) (skb : List UInt8) : Option (Int × List UInt8) :=
  if skb.length < radiotapHeaderSz then none
  else if skb.getD 0 0 ≠ 0 then none
  else
    let rtapLen := getRadiotapLen skb
    if skb.length < rtapLen then none
    else if pmgntframe = true then some ((skb.length : Int) - rtapLen, skb.drop rtapLen)
    else none

/-! ## What is handed to the transmitter -/

/-- `size` of `nl_recv`: the `u32` difference as an `int`. -/
def nlSize (nlmsgLen : UInt32) : Int := ((nlmsgLen.toNat : Int) - 100).bmod (2 ^ 32)

/-- A message at `nl_recv`, or a frame at `rtw_monitor_xmit_entry`. -/
inductive Handed
  | netlink (hash : Enc → Bucket) (env : Env) (w : World) (skb2 : Option Nat) (rxcSeq : Nat) (nlmsgLen : UInt32)
      (type : Nat) (pid : Int) (data : List UInt8)
  | monitor (pmgntframe : Bool) (skb : List UInt8)

namespace Handed

/-- The frames written behind the descriptor. -/
def frames : Handed → List (List UInt8)
  | netlink hash env w skb2 rxcSeq nlmsgLen type pid data =>
      radios (nlRecv hash env w skb2 rxcSeq ⟨nlmsgLen.toNat, type, pid, data⟩).2
  | monitor pmgntframe skb => (rtwMonitorXmitEntry pmgntframe skb).toList.map Prod.snd

/-- The lengths passed to the copies of frames. -/
def copies : Handed → List Int
  | netlink hash env w skb2 rxcSeq nlmsgLen type pid data =>
      (if FromUser (UInt8.ofNat type) ∧ skb2 ≠ none then [nlSize nlmsgLen] else []) ++
        (radios (nlRecv hash env w skb2 rxcSeq ⟨nlmsgLen.toNat, type, pid, data⟩).2).map fun f => (f.length : Int)
  | monitor pmgntframe skb => (rtwMonitorXmitEntry pmgntframe skb).toList.map Prod.fst

/-- Every frame fits behind the descriptor, and no length is negative. -/
structure Fits (h : Handed) : Prop where
  inside : ∀ f ∈ h.frames, txdescOffset + f.length ≤ maxXmitExtbufSz
  positive : ∀ n ∈ h.copies, 0 ≤ n

end Handed

/-! ## The frames of vmac_tx -/

/-- `vmac_tx` gets as far as a transmit frame: it has one, and memory for an entry that is not there. -/
def Sends (env : Env) (n : Entries) (type : UInt8) : Prop :=
  (type = vmacHdrInterest → n.rx.isSome ∨ env.vmallocOk = true) ∧
    (type = vmacHdrData → n.tx.isSome ∨ env.vmallocOk = true) ∧ env.xmitOk 0 = true

/-- The length of the V-MAC headers. -/
def vmacHdrLen (type : UInt8) : Nat := if type = vmacHdrData ∨ type = vmacHdrInjected then 11 else 9

theorem length_frameHeaders (enc : Enc) (type : UInt8) (seq : Nat) : (frameHeaders enc type seq).length = vmacHdrLen type := by
  rw [frameHeaders, vmacHdrLen, List.length_append, VmacHdr.length_bytes]
  split <;> simp

section NlRecv

variable {hash : Enc → Bucket} {env : Env} {w : World} {type : UInt8} {enc : Enc}

theorem radios_txFrame_none (n : Entries) (skb : Skb) (seqtmp : Nat) (no : ¬Sends env n type) :
    radios (txFrame env n skb enc type seqtmp).2 = [] := by
  by_cases xmit : env.xmitOk 0 = true
  · -- no memory for the entry
    have memory : type = vmacHdrInterest ∧ n.rx = none ∧ env.vmallocOk = false ∨
        type = vmacHdrData ∧ n.tx = none ∧ env.vmallocOk = false := by
      simp only [Sends, xmit, and_true, not_and_or, Classical.not_imp, not_or, Bool.not_eq_true, Option.isSome_eq_false_iff,
        Option.isNone_iff_eq_none] at no
      exact no
    rcases memory with ⟨rfl, none_, no_⟩ | ⟨rfl, none_, no_⟩
    · simp [txFrame, none_, no_, radios]
    · rw [txFrame, if_neg (by decide)]
      simp [none_, no_, radios]
  · have silent (k : Skb) : radios (vmacLowTx env 0 k) = [] := by
      rw [radios_vmacLowTx, if_neg xmit]
    have data (t : EncodingTx) : radios (txData env t enc skb).2 = [] := by
      rw [radios_txData, if_neg xmit]
    unfold txFrame
    by_cases interest : type = vmacHdrInterest
    · rw [if_pos interest]
      cases n.rx with
      | some e => exact silent _
      | none =>
          cases env.vmallocOk with
          | true => exact silent _
          | false => rfl
    · rw [if_neg interest]
      by_cases isData : type = vmacHdrData
      · rw [if_pos isData]
        cases n.tx with
        | some t => exact data t
        | none =>
            cases env.vmallocOk with
            | true => exact data _
            | false => rfl
      · rw [if_neg isData]
        split_ifs
        · exact silent _
        · exact silent _
        · rfl

/-- The entries that `vmac_tx` finds for a message. -/
def Nlmsg.entries (hash : Enc → Bucket) (env : Env) (w : World) (msg : Nlmsg) : Entries :=
  World.found hash { w with pidt := msg.pid } (readControl env.past msg.data).enc

/-- The frames that a message leads to: at most one, with its headers in front. -/
theorem radios_nlRecv (skb2 : Option Nat) (rxcSeq : Nat) (msg : Nlmsg) :
    (∀ f ∈ radios (nlRecv hash env w skb2 rxcSeq msg).2,
      f.length = 30 + vmacHdrLen (UInt8.ofNat msg.type) + (msg.len - 100)) ∧
    (radios (nlRecv hash env w skb2 rxcSeq msg).2 ≠ [] ↔ FromUser (UInt8.ofNat msg.type) ∧ skb2 ≠ none ∧ 100 ≤ msg.len ∧
      Sends env (Nlmsg.entries hash env w msg) (UInt8.ofNat msg.type)) := by
  by_cases known : FromUser (UInt8.ofNat msg.type)
  · cases skb2 with
    | none => simp [nlRecv, radios, known]
    | some id =>
        by_cases short : msg.len < 100
        · simp [nlRecv, radios, known, short]
        · have eq : radios (nlRecv hash env w (some id) rxcSeq msg).2 = radios (txFrame env (Nlmsg.entries hash env w msg)
              ⟨id, msg.frame env.past⟩ (readControl env.past msg.data).enc (UInt8.ofNat msg.type) (rxcSeq % 65536)).2 := by
            simp only [nlRecv, if_pos known, if_neg short]
            rfl
          rw [eq]
          by_cases sends : Sends env (Nlmsg.entries hash env w msg) (UInt8.ofNat msg.type)
          · have sent := radios_txFrame env (Nlmsg.entries hash env w msg) ⟨id, msg.frame env.past⟩
              (readControl env.past msg.data).enc (rxcSeq % 65536) known sends.1 sends.2.1 sends.2.2
            rw [sent]
            refine ⟨fun f member => ?_, iff_of_true (List.cons_ne_nil _ _) ⟨known, Option.some_ne_none id, by omega, sends⟩⟩
            rw [List.mem_singleton.mp member, List.length_append, List.length_append, length_ieee80211Hdr,
              length_frameHeaders, Nlmsg.frame, List.length_map, List.length_range, Nat.add_assoc]
          · rw [radios_txFrame_none _ _ _ sends]
            refine ⟨fun f member => absurd member List.not_mem_nil, ?_⟩
            exact iff_of_false (fun some_ => some_ rfl) fun both => sends both.2.2.2
  · simp [nlRecv, radios, known]

end NlRecv

/-! ## What fits -/

theorem nlSize_nonneg (nlmsgLen : UInt32) : 0 ≤ nlSize nlmsgLen ↔ 100 ≤ nlmsgLen.toNat ∧ nlmsgLen.toNat < 2 ^ 31 + 100 := by
  have small := nlmsgLen.toNat_lt
  simp only [nlSize, Int.bmod_def]
  split <;> omega

/-- The largest `nlmsg_len` of a message whose frame fits. -/
def longestMsg (type : UInt8) : Nat := 1558 - vmacHdrLen type

/-- The messages and frames that are short enough, and messages that are not too short. -/
def Handed.Short : Handed → Prop
  | netlink hash env w skb2 _ nlmsgLen type pid data =>
      FromUser (UInt8.ofNat type) → skb2 ≠ none →
        100 ≤ nlmsgLen.toNat ∧ nlmsgLen.toNat < 2 ^ 31 + 100 ∧
          (Sends env (Nlmsg.entries hash env w ⟨nlmsgLen.toNat, type, pid, data⟩) (UInt8.ofNat type) →
            nlmsgLen.toNat ≤ longestMsg (UInt8.ofNat type))
  | monitor pmgntframe skb =>
      pmgntframe = true → radiotapHeaderSz ≤ skb.length → skb.getD 0 0 = 0 → getRadiotapLen skb ≤ skb.length →
        skb.length ≤ getRadiotapLen skb + 1488

theorem netlink_fits_iff (hash : Enc → Bucket) (env : Env) (w : World) (skb2 : Option Nat) (rxcSeq : Nat)
    (nlmsgLen : UInt32) (type : Nat) (pid : Int) (data : List UInt8) :
    (Handed.netlink hash env w skb2 rxcSeq nlmsgLen type pid data).Fits ↔
      (Handed.netlink hash env w skb2 rxcSeq nlmsgLen type pid data).Short := by
  obtain ⟨lengths, nonempty⟩ :=
    @radios_nlRecv hash env w skb2 rxcSeq ⟨nlmsgLen.toNat, type, pid, data⟩
  have offset : txdescOffset = 48 := rfl
  have limit : maxXmitExtbufSz = 1536 := rfl
  have headers : vmacHdrLen (UInt8.ofNat type) ≤ 11 := by
    rw [vmacHdrLen]
    split <;> decide
  have room : longestMsg (UInt8.ofNat type) = 1558 - vmacHdrLen (UInt8.ofNat type) := rfl
  constructor
  · intro fits known some_
    have size := (nlSize_nonneg nlmsgLen).mp (fits.positive _ (by simp [Handed.copies, known, some_]))
    refine ⟨size.1, size.2, fun sends => ?_⟩
    obtain ⟨f, member⟩ := List.exists_mem_of_ne_nil _ (nonempty.mpr ⟨known, some_, size.1, sends⟩)
    have inside := fits.inside f member
    rw [lengths f member] at inside
    dsimp only at inside
    omega
  · intro short
    refine ⟨fun f member => ?_, fun n member => ?_⟩
    · obtain ⟨known, some_, long, sends⟩ := nonempty.mp (List.ne_nil_of_mem member)
      have bound := (short known some_).2.2 sends
      rw [lengths f member]
      simp only at long ⊢
      omega
    · simp only [Handed.copies, List.mem_append, List.mem_map] at member
      rcases member with member | ⟨f, -, rfl⟩
      · split at member
        · rename_i both
          rw [List.mem_singleton.mp member]
          exact (nlSize_nonneg nlmsgLen).mpr ⟨(short both.1 both.2).1, (short both.1 both.2).2.1⟩
        · exact absurd member List.not_mem_nil
      · exact Int.natCast_nonneg _

theorem monitor_fits_iff (pmgntframe : Bool) (skb : List UInt8) :
    (Handed.monitor pmgntframe skb).Fits ↔ (Handed.monitor pmgntframe skb).Short := by
  have offset : txdescOffset = 48 := rfl
  have limit : maxXmitExtbufSz = 1536 := rfl
  by_cases sent : radiotapHeaderSz ≤ skb.length ∧ skb.getD 0 0 = 0 ∧ getRadiotapLen skb ≤ skb.length ∧ pmgntframe = true
  · obtain ⟨header, version, length, frame⟩ := sent
    have out : rtwMonitorXmitEntry pmgntframe skb =
        some ((skb.length : Int) - getRadiotapLen skb, skb.drop (getRadiotapLen skb)) := by
      simp only [rtwMonitorXmitEntry, if_neg (Nat.not_lt.mpr header), if_neg (not_not.mpr version),
        if_neg (Nat.not_lt.mpr length), if_pos frame]
    have frames : (Handed.monitor pmgntframe skb).frames = [skb.drop (getRadiotapLen skb)] := by
      simp only [Handed.frames, out, Option.toList_some, List.map_cons, List.map_nil]
    have copies : (Handed.monitor pmgntframe skb).copies = [(skb.length : Int) - getRadiotapLen skb] := by
      simp only [Handed.copies, out, Option.toList_some, List.map_cons, List.map_nil]
    constructor
    · intro fits _ _ _ _
      have inside := fits.inside _ (frames ▸ List.mem_singleton.mpr rfl)
      rw [List.length_drop] at inside
      omega
    · intro short
      have bound := short frame header version length
      refine ⟨fun f member => ?_, fun n member => ?_⟩
      · rw [frames] at member
        rw [List.mem_singleton.mp member, List.length_drop]
        omega
      · rw [copies] at member
        rw [List.mem_singleton.mp member]
        omega
  · have out : rtwMonitorXmitEntry pmgntframe skb = none := by
      simp only [rtwMonitorXmitEntry]
      split_ifs with short version longer frame <;> try rfl
      exact absurd ⟨Nat.not_lt.mp short, not_not.mp version, Nat.not_lt.mp longer, frame⟩ sent
    refine iff_of_true ⟨?_, ?_⟩ fun frame header version length => absurd ⟨header, version, length, frame⟩ sent
    · simp [Handed.frames, out]
    · simp [Handed.copies, out]

/-- What is handed to the transmitter fits its buffer exactly if it is short enough. -/
theorem fits_iff (h : Handed) : h.Fits ↔ h.Short := by
  cases h with
  | netlink hash env w skb2 rxcSeq nlmsgLen type pid data => exact netlink_fits_iff ..
  | monitor pmgntframe skb => exact monitor_fits_iff pmgntframe skb

/-- A frame behind a radiotap header without fields. -/
def injectedFrame (frame : List UInt8) : List UInt8 := [0, 0, 8, 0, 0, 0, 0, 0] ++ frame

theorem getRadiotapLen_injectedFrame (frame : List UInt8) : getRadiotapLen (injectedFrame frame) = 8 := rfl

theorem length_injectedFrame (frame : List UInt8) : (injectedFrame frame).length = frame.length + 8 := by
  simp [injectedFrame]

/-- An interest with 1500 bytes, a message whose length field is below 100, and 1600 bytes injected. -/
theorem too_long_and_too_short :
    ¬(Handed.netlink oneBucket Env.quiet World.init (some 0) 0 1600 0 0 []).Fits ∧
      ¬(Handed.netlink oneBucket Env.quiet World.init (some 0) 0 99 1 0 []).Fits ∧
      ¬(Handed.monitor true (injectedFrame (List.replicate 1600 0))).Fits := by
  rw [netlink_fits_iff, netlink_fits_iff, monitor_fits_iff]
  refine ⟨fun short => ?_, fun short => ?_, fun short => ?_⟩
  · have bound := (short (.inl rfl) nofun).2.2 ⟨fun _ => .inr rfl, fun _ => .inr rfl, rfl⟩
    exact absurd bound (by decide)
  · have bound := (short (.inr (.inl rfl)) nofun).1
    exact absurd bound (by decide)
  · have length : (injectedFrame (List.replicate 1600 0)).length = 1608 := by
      rw [length_injectedFrame, List.length_replicate]
    have bound := short rfl (length ▸ by decide) rfl (by rw [getRadiotapLen_injectedFrame, length]; decide)
    rw [getRadiotapLen_injectedFrame, length] at bound
    exact absurd bound (by decide)

end Vmac.Transmit
