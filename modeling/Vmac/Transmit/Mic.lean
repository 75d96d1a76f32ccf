/-
# Vmac.Transmit.Mic -- the TKIP MIC of an MSDU: rtw_security.c, rtw_xmit.c

`rtw_secmicappend` takes a message byte by byte; `xmitframe_addmic` gives it the addresses, the
priority and what it finds in the transmit buffer, fragment by fragment.

* `secmic_eq`: the code computes Michael.
* `xmitframeCoalesce`: `rtw_xmitframe_coalesce` up to the software encryption.
-/
import Vmac.Theory.Michael
import Vmac.Transmit.Coalesce

namespace Vmac.Transmit

open Security Theory.Michael Theory.Bytes

set_option autoImplicit false

/-! ## rtw_secmic -/

/-- `struct mic_data`. -/
structure MicData where
  k0 : UInt32
  k1 : UInt32
  l : UInt32
  r : UInt32
  m : UInt32
  nBytesInM : Nat

/-- `secmicgetuint32`. -/
def secmicgetuint32 (p : List UInt8) (i : Nat) : UInt32 :=
  word (p.getD i 0) (p.getD (i + 1) 0) (p.getD (i + 2) 0) (p.getD (i + 3) 0)

/-- `rtw_secmicsetkey`. -/
def secmicsetkey (key : List UInt8) : MicData :=
  let k0 := secmicgetuint32 key 0
  let k1 := secmicgetuint32 key 4
  ⟨k0, k1, k0, k1, 0, 0⟩

/-- `rtw_secmicappendbyte`. -/
def secmicappendbyte (d : MicData) (b : UInt8) : MicData :=
  let m := d.m ||| b.toUInt32 <<< UInt32.ofNat (8 * d.nBytesInM)
  let nBytesInM := d.nBytesInM + 1
  if 4 ≤ nBytesInM then
    let l := d.l ^^^ m
    let r := d.r ^^^ rol l 17
    let l := l + r
    let r := r ^^^ ((l &&& 0xff00ff00) >>> 8 ||| (l &&& 0x00ff00ff) <<< 8)
    let l := l + r
    let r := r ^^^ rol l 3
    let l := l + r
    let r := r ^^^ ror l 2
    let l := l + r
    { d with l := l, r := r, m := 0, nBytesInM := 0 }
  else { d with m := m, nBytesInM := nBytesInM }

/-- `rtw_secmicappend`. -/
def secmicappend (d : MicData) (src : List UInt8) : MicData := src.foldl secmicappendbyte d

/-- The zeros of `rtw_secgetmic` until the word is whole. -/
def secmicFill : Nat → MicData → MicData
  | 0, d => d
  | n + 1, d => if d.nBytesInM = 0 then d else secmicFill n (secmicappendbyte d 0)

/-- `rtw_secgetmic`. -/
def secgetmic (d : MicData) : List UInt8 :=
  let d := secmicFill 3 (secmicappend d [0x5a, 0, 0, 0, 0])
  toLe 4 d.l.toNat ++ toLe 4 d.r.toNat

/-- The state of the message. -/
def MicData.buffered (d : MicData) : Buffered := ⟨⟨d.l, d.r⟩, d.m, d.nBytesInM⟩

theorem buffered_appendbyte (d : MicData) (b : UInt8) :
    (secmicappendbyte d b).buffered = appendByte d.buffered b := by
  unfold secmicappendbyte appendByte
  by_cases full : 4 ≤ d.nBytesInM + 1
  · have full' : 4 ≤ d.buffered.count + 1 := full
    rw [if_pos full, if_pos full']
    rfl
  · have open_ : ¬4 ≤ d.buffered.count + 1 := full
    rw [if_neg full, if_neg open_]
    rfl

theorem buffered_append (d : MicData) (src : List UInt8) :
    (secmicappend d src).buffered = src.foldl appendByte d.buffered := by
  induction src generalizing d with
  | nil => rfl
  | cons b rest ih =>
      rw [List.foldl_cons, ← buffered_appendbyte]
      exact ih (secmicappendbyte d b)

theorem buffered_fill (n : Nat) (d : MicData) : (secmicFill n d).buffered = fill n d.buffered := by
  induction n generalizing d with
  | zero => rfl
  | succ n ih =>
      rw [secmicFill, fill, ← buffered_appendbyte, ← ih]
      show _ = if d.nBytesInM = 0 then _ else _
      split <;> rfl

theorem secmic_eq (key message : List UInt8) :
    secgetmic (secmicappend (secmicsetkey key) message) = michael key message := by
  have state := append_padded key message
  have clear : (secmicsetkey key).buffered = ⟨start key, 0, 0⟩ := rfl
  rw [← clear, ← buffered_append, ← buffered_append, ← buffered_fill] at state
  have left := congrArg (·.state.left) state
  have right := congrArg (·.state.right) state
  exact congrArg₂ (fun l r : UInt32 => toLe 4 l.toNat ++ toLe 4 r.toNat) left right

theorem secmicappend_append (d : MicData) (first second : List UInt8) :
    secmicappend (secmicappend d first) second = secmicappend d (first ++ second) :=
  List.foldl_append.symm

/-! ## xmitframe_addmic -/

/-- The destination and source address that `xmitframe_addmic` reads from the header. -/
def micAddrs (mem : Mem) (pframe : Nat) : List UInt8 :=
  if mem (pframe + 1) &&& 1 ≠ 0 then
    -- ToDS
    bytesAt mem (pframe + 16) 6 ++
      if mem (pframe + 1) &&& 2 ≠ 0 then bytesAt mem (pframe + 24) 6 else bytesAt mem (pframe + 10) 6
  else
    bytesAt mem (pframe + 4) 6 ++
      if mem (pframe + 1) &&& 2 ≠ 0 then bytesAt mem (pframe + 16) 6 else bytesAt mem (pframe + 10) 6

def micPriority (pattrib : PktAttrib) : List UInt8 := [if pattrib.qosEn then pattrib.priority else 0, 0, 0, 0]

/-- The key of the MIC. -/
def micKey (psecuritypriv : SecurityPriv) (pattrib : PktAttrib) : List UInt8 :=
  if isMcast pattrib.ra then psecuritypriv.dot118021XGrptxmickey psecuritypriv.dot118021XGrpKeyid
  else pattrib.dot11tkiptxmickey

/-- The loop of `xmitframe_addmic` over the last `n` fragments: address and length of what is
appended to the message, and where the loop ends. -/
def addmicWalk (fragLen : Nat) (pattrib : PktAttrib) (lastTxcmdsz : Nat) : Nat → Nat → List (Nat × Nat) × Nat
  | 0, payload => ([], payload)
  | n + 1, payload =>
      let payload := rnd4 payload + pattrib.hdrlen + pattrib.ivLen
      if n = 0 then
        let length := lastTxcmdsz - pattrib.hdrlen - pattrib.ivLen - swIcvLen pattrib
        ([(payload, length)], payload + length)
      else
        let length := fragLen - pattrib.hdrlen - pattrib.ivLen - swIcvLen pattrib
        let (visited, payload') := addmicWalk fragLen pattrib lastTxcmdsz n (payload + length + pattrib.icvLen)
        ((payload, length) :: visited, payload')

/-- The message of the MIC. -/
def micMessage (pattrib : PktAttrib) (mem : Mem) (pframe : Nat) (visited : List (Nat × Nat)) : List UInt8 :=
  micAddrs mem pframe ++ micPriority pattrib ++
    (visited.map fun (payload, length) => bytesAt mem payload length).flatten

/-- `xmitframe_addmic` for TKIP: the memory with the MIC. -/
def xmitframeAddmic (psecuritypriv : SecurityPriv) (fragLen : Nat) (pattrib : PktAttrib)
    (pframe nrFrags lastTxcmdsz : Nat) (mem : Mem) : Option Mem :=
  if micKey psecuritypriv pattrib = nullKey then none
  else
    let (visited, payload) := addmicWalk fragLen pattrib lastTxcmdsz nrFrags pframe
    let micdata := secmicappend (secmicsetkey (micKey psecuritypriv pattrib)) (micMessage pattrib mem pframe visited)
    some (splice mem payload (secgetmic micdata))

/-! ## rtw_xmitframe_coalesce -/

/-- A transmit buffer, aligned by `N_BYTE_ALIGMENT` or, behind an aggregated frame, `_RND8`. -/
structure XmitBuf where
  bufAddr : Nat
  aligned : bufAddr % 8 = 0

/-- The buffer at the address 0. -/
def XmitBuf.first : XmitBuf := ⟨0, rfl⟩

/-- What `rtw_xmitframe_coalesce` leaves: the buffer, the MPDUs in it, `nr_frags`, which is a byte,
and `last_txcmdsz`. -/
structure Coalesced where
  mem : Mem
  mpdus : List Mpdu
  nrFrags : Nat
  lastTxcmdsz : Nat

/-- `last_txcmdsz` as the loop sets it. -/
def loopTxcmdsz (pattrib : PktAttrib) (mpdus : List Mpdu) : Nat :=
  match mpdus.getLast? with
  | none => 0
  | some mpdu =>
      pattrib.hdrlen + pattrib.ivLen + (if mpdus.length % 256 = 1 then mpdu.llc.length else 0) +
        swIcvLen pattrib + mpdu.data.length

/-- The length of the MIC. -/
def micLen (pattrib : PktAttrib) : Nat := if pattrib.encrypt = .tkip then 8 else 0

section Coalesce

variable (psecuritypriv : SecurityPriv) (fragLen : Nat) (pmlmepriv : Mlme) (pattrib : PktAttrib)

/-- `rtw_xmitframe_coalesce` up to `xmitframe_swencrypt`, when it returns `_SUCCESS`. -/
def xmitframeCoalesce (seqnum pktOffset : Nat) (buf : XmitBuf) (pkt : List UInt8) (mem : Mem) :
    Option Coalesced :=
  let hw := hwHdrOffset pktOffset
  let memStart := buf.bufAddr + hw
  let rest := pkt.drop pattrib.pktHdrlen
  (makeWlanhdr pmlmepriv pattrib seqnum).bind fun hdr =>
    (coalesceLoop fragLen pattrib hw buf.bufAddr (rest.length + 2) 0 memStart rest
      (splice mem memStart hdr)).bind fun (mem, mpdus) =>
      let nrFrags := mpdus.length % 256
      let lastTxcmdsz := loopTxcmdsz pattrib mpdus
      if pattrib.encrypt = .tkip then
        (xmitframeAddmic psecuritypriv fragLen pattrib memStart nrFrags lastTxcmdsz mem).map fun mem =>
          ⟨mem, mpdus, nrFrags, lastTxcmdsz + 8⟩
      else some ⟨mem, mpdus, nrFrags, lastTxcmdsz⟩

theorem makeWlanhdr_isSome (seqnum : Nat) :
    (makeWlanhdr pmlmepriv pattrib seqnum).isSome = decide (pmlmepriv.fwState ≠ .other) := by
  unfold makeWlanhdr wlanhdrAddrs
  rw [Option.isSome_map]
  cases pmlmepriv.fwState <;> rfl

/-- There are the addresses for a header, and for TKIP there is a key for the MIC. -/
def coalesceOk : Bool :=
  pmlmepriv.fwState != .other && !(pattrib.encrypt == .tkip && micKey psecuritypriv pattrib == nullKey)

theorem xmitframeCoalesce_fail (fails : coalesceOk psecuritypriv pmlmepriv pattrib = false)
    (seqnum pktOffset : Nat) (buf : XmitBuf) (pkt : List UInt8) (mem : Mem) :
    xmitframeCoalesce psecuritypriv fragLen pmlmepriv pattrib seqnum pktOffset buf pkt mem = none := by
  unfold coalesceOk at fails
  unfold xmitframeCoalesce
  have headed := makeWlanhdr_isSome pmlmepriv pattrib seqnum
  rcases made : makeWlanhdr pmlmepriv pattrib seqnum with _ | hdr
  · rfl
  · rw [made] at headed
    have keyless : pattrib.encrypt = .tkip ∧ micKey psecuritypriv pattrib = nullKey := by
      simp_all
    rw [Option.bind_some, Option.bind_eq_none_iff]
    rintro ⟨mem', mpdus⟩ _
    dsimp only
    rw [if_pos keyless.1, xmitframeAddmic, if_pos keyless.2]
    rfl

/-- What `rtw_xmitframe_coalesce` leaves. -/
theorem xmitframeCoalesce_ok (ok : coalesceOk psecuritypriv pmlmepriv pattrib = true)
    (seqnum pktOffset : Nat) (buf : XmitBuf) (pkt : List UInt8) (mem : Mem) :
    ∃ c, xmitframeCoalesce psecuritypriv fragLen pmlmepriv pattrib seqnum pktOffset buf pkt mem = some c ∧
      fragments fragLen pattrib (hwHdrOffset pktOffset) ((pkt.drop pattrib.pktHdrlen).length + 2) 0
        (buf.bufAddr + hwHdrOffset pktOffset) (pkt.drop pattrib.pktHdrlen) = some c.mpdus ∧
      c.mpdus.length = fragmentCount fragLen pattrib (pkt.drop pattrib.pktHdrlen).length ∧
      c.nrFrags = c.mpdus.length % 256 := by
  unfold coalesceOk at ok
  unfold xmitframeCoalesce
  have headed := makeWlanhdr_isSome pmlmepriv pattrib seqnum
  obtain ⟨mpdus, done, count⟩ := length_fragments fragLen pattrib (hwHdrOffset pktOffset)
    (buf.bufAddr + hwHdrOffset pktOffset) (pkt.drop pattrib.pktHdrlen)
  rcases made : makeWlanhdr pmlmepriv pattrib seqnum with _ | hdr
  · rw [made] at headed
    simp_all
  · have loop := coalesceLoop_fragments fragLen pattrib (hwHdrOffset pktOffset) buf.bufAddr
      ((pkt.drop pattrib.pktHdrlen).length + 2) 0 (buf.bufAddr + hwHdrOffset pktOffset)
      (pkt.drop pattrib.pktHdrlen) (splice mem (buf.bufAddr + hwHdrOffset pktOffset) hdr)
    rw [done] at loop
    obtain ⟨⟨mem', mpdus'⟩, looped, same⟩ := Option.map_eq_some_iff.mp loop
    obtain rfl : mpdus' = mpdus := same
    dsimp only
    rw [Option.bind_some, looped, Option.bind_some]
    dsimp only
    split
    · rename_i tkip
      have keyed : micKey psecuritypriv pattrib ≠ nullKey := by
        intro keyless
        simp [tkip, keyless] at ok
      rw [xmitframeAddmic, if_neg keyed]
      exact ⟨_, rfl, done, count, rfl⟩
    · exact ⟨_, rfl, done, count, rfl⟩

variable {psecuritypriv fragLen pmlmepriv pattrib}

/-- The steps of `rtw_xmitframe_coalesce` when it returns `_SUCCESS`. -/
theorem xmitframeCoalesce_some {seqnum pktOffset : Nat} {buf : XmitBuf} {pkt : List UInt8} {mem : Mem}
    {c : Coalesced}
    (done : xmitframeCoalesce psecuritypriv fragLen pmlmepriv pattrib seqnum pktOffset buf pkt mem = some c) :
    ∃ hdr mem', makeWlanhdr pmlmepriv pattrib seqnum = some hdr ∧
      coalesceLoop fragLen pattrib (hwHdrOffset pktOffset) buf.bufAddr ((pkt.drop pattrib.pktHdrlen).length + 2) 0
        (buf.bufAddr + hwHdrOffset pktOffset) (pkt.drop pattrib.pktHdrlen)
        (splice mem (buf.bufAddr + hwHdrOffset pktOffset) hdr) = some (mem', c.mpdus) ∧
      c.nrFrags = c.mpdus.length % 256 ∧
      c.lastTxcmdsz = loopTxcmdsz pattrib c.mpdus + micLen pattrib ∧
      (pattrib.encrypt ≠ .tkip → c.mem = mem') ∧
      (pattrib.encrypt = .tkip → xmitframeAddmic psecuritypriv fragLen pattrib
        (buf.bufAddr + hwHdrOffset pktOffset) c.nrFrags (loopTxcmdsz pattrib c.mpdus) mem' = some c.mem) := by
  unfold xmitframeCoalesce at done
  dsimp only at done
  obtain ⟨hdr, made, done⟩ := Option.bind_eq_some_iff.mp done
  obtain ⟨⟨mem', mpdus⟩, looped, done⟩ := Option.bind_eq_some_iff.mp done
  dsimp only at done
  refine ⟨hdr, mem', made, ?_⟩
  unfold micLen
  by_cases tkip : pattrib.encrypt = .tkip
  · rw [if_pos tkip] at done ⊢
    obtain ⟨mem'', mic, rfl⟩ := Option.map_eq_some_iff.mp done
    exact ⟨looped, rfl, rfl, fun other => absurd tkip other, fun _ => mic⟩
  · rw [if_neg tkip] at done ⊢
    obtain rfl := Option.some.inj done
    exact ⟨looped, rfl, rfl, fun _ => rfl, fun other => absurd other tkip⟩

/-- The MPDUs that `rtw_xmitframe_coalesce` leaves. -/
theorem xmitframeCoalesce_fragments {seqnum pktOffset : Nat} {buf : XmitBuf} {pkt : List UInt8} {mem : Mem}
    {c : Coalesced}
    (done : xmitframeCoalesce psecuritypriv fragLen pmlmepriv pattrib seqnum pktOffset buf pkt mem = some c) :
    fragments fragLen pattrib (hwHdrOffset pktOffset) ((pkt.drop pattrib.pktHdrlen).length + 2) 0
        (buf.bufAddr + hwHdrOffset pktOffset) (pkt.drop pattrib.pktHdrlen) = some c.mpdus ∧
      c.mpdus.length = fragmentCount fragLen pattrib (pkt.drop pattrib.pktHdrlen).length := by
  obtain ⟨hdr, mem', -, looped, -⟩ := xmitframeCoalesce_some done
  have written := congrArg (Option.map Prod.snd) looped
  rw [coalesceLoop_fragments, Option.map_some] at written
  obtain ⟨mpdus, same, count⟩ := length_fragments fragLen pattrib (hwHdrOffset pktOffset)
    (buf.bufAddr + hwHdrOffset pktOffset) (pkt.drop pattrib.pktHdrlen)
  obtain rfl : c.mpdus = mpdus := Option.some.inj (written.symm.trans same)
  exact ⟨written, count⟩

/-- An MSDU that goes out in one MPDU. -/
theorem xmitframeCoalesce_single {seqnum pktOffset : Nat} {buf : XmitBuf} {pkt : List UInt8} {mem : Mem}
    {c : Coalesced} (one : OneFragment fragLen pattrib (pkt.drop pattrib.pktHdrlen).length)
    (whole : pattrib.pktlen = (pkt.drop pattrib.pktHdrlen).length)
    (done : xmitframeCoalesce psecuritypriv fragLen pmlmepriv pattrib seqnum pktOffset buf pkt mem = some c) :
    ∃ hdr mpdu, makeWlanhdr pmlmepriv pattrib seqnum = some hdr ∧
      mpdu = makeMpdu pattrib (buf.bufAddr + hwHdrOffset pktOffset) (putSnap pattrib.etherType)
        (pkt.drop pattrib.pktHdrlen) ∧
      c.mpdus = [mpdu] ∧ c.nrFrags = 1 ∧
      loopTxcmdsz pattrib c.mpdus = pattrib.hdrlen + pattrib.ivLen + mpdu.payload.length + swIcvLen pattrib ∧
      c.lastTxcmdsz = loopTxcmdsz pattrib c.mpdus + micLen pattrib ∧
      (pattrib.encrypt ≠ .tkip → c.mem = singleMem pattrib hdr mpdu mem) ∧
      (pattrib.encrypt = .tkip → xmitframeAddmic psecuritypriv fragLen pattrib
        (buf.bufAddr + hwHdrOffset pktOffset) 1 (loopTxcmdsz pattrib c.mpdus)
        (singleMem pattrib hdr mpdu mem) = some c.mem) := by
  obtain ⟨hdr, mem', made, looped, frags, last, plain, tkip⟩ := xmitframeCoalesce_some done
  rw [coalesceLoop_single one whole] at looped
  obtain ⟨buffer, single⟩ := Prod.mk.inj (Option.some.inj looped)
  have one' : c.nrFrags = 1 := by
    rw [frags, ← single]
    rfl
  refine ⟨hdr, _, made, rfl, single.symm, one', ?_, last, fun other => ?_, fun enc => ?_⟩
  · rw [← single]
    simp [loopTxcmdsz, makeMpdu, Mpdu.payload]
    omega
  · rw [plain other]
    exact buffer.symm
  · rw [← one', ← tkip enc, ← buffer]
    rfl

end Coalesce

end Vmac.Transmit
