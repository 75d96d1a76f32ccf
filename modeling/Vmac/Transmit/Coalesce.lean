/-
# Vmac.Transmit.Coalesce -- from an MSDU to MPDUs: rtw_xmit.c

`rtw_xmitframe_coalesce` writes the MPDUs of an MSDU into the transmit buffer, adds the TKIP
MIC and encrypts.  Buffers are memories; an address is a number, aligned as in the source by
`RND4`.  `coalesceLoop` also says where the MPDUs are.

* `coalesceLoop_laidOut`: every MPDU lies in the buffer as it was written.
* `fragments_data`: the MPDUs carry the MSDU.
* `coalesceLoop_single`: what the loop does for an MSDU that is not fragmented.
-/
import Mathlib.Data.List.TakeDrop
import Mathlib.Tactic.FinCases
import Vmac.Security.Ccmp
import Vmac.Transmit.Attrib

namespace Vmac.Transmit

open Security

set_option autoImplicit false

/-! ## Sizes -/

/-- `TXDESC_SIZE`. -/
def txdescSize : Nat := 40

/-- `PACKET_OFFSET_SZ`. -/
def packetOffsetSz : Nat := 8

/-- `WLANHDR_OFFSET`. -/
def wlanhdrOffset : Nat := 64

/-- `RND4`. -/
def rnd4 (x : Nat) : Nat := (x / 4 + if x % 4 = 0 then 0 else 1) * 4

/-- `hw_hdr_offset`, a byte. -/
def hwHdrOffset (pktOffset : Nat) : Nat := (txdescSize + pktOffset * packetOffsetSz) % 256

/-! ## rtw_make_wlanhdr -/

/-- The first three addresses, the DS bits, and whether there is QoS control. -/
def wlanhdrAddrs (pmlmepriv : Mlme) (pattrib : PktAttrib) :
    Option (UInt8 × MacAddr × MacAddr × MacAddr × Bool) :=
  match pmlmepriv.fwState with
  | .station => some (0x01, pmlmepriv.bssid, pattrib.ta, pattrib.dst, pmlmepriv.qosOption)
  | .ap => some (0x02, pattrib.dst, pmlmepriv.bssid, pattrib.src, pattrib.qosEn)
  | .adhoc => some (0x00, pattrib.dst, pattrib.ta, pmlmepriv.bssid, pattrib.qosEn)
  | .other => none

/-- The low byte of QoS control. -/
def qosControl (pattrib : PktAttrib) : UInt8 :=
  let eosp : UInt8 := if pattrib.eosp then 0x10 else 0
  let amsdu : UInt8 := if pattrib.amsdu then 0x80 else 0
  let ackPolicy : UInt8 := (pattrib.ackPolicy &&& 3) <<< 5
  (pattrib.priority &&& 0xf) ||| eosp ||| ackPolicy ||| amsdu

/-- `rtw_make_wlanhdr` for a data frame of a linked station: `WLANHDR_OFFSET` bytes. -/
def makeWlanhdr (pmlmepriv : Mlme) (pattrib : PktAttrib) (seqnum : Nat) : Option (List UInt8) :=
  (wlanhdrAddrs pmlmepriv pattrib).map fun (ds, addr1, addr2, addr3, qos) =>
    let mdata : UInt8 := if pattrib.mdata then 0x20 else 0
    let privacy : UInt8 := if pattrib.encrypt ≠ .noPrivacy then 0x40 else 0
    let hdr := [pattrib.subtype, ds ||| mdata ||| privacy, 0, 0] ++ List.ofFn addr1 ++ List.ofFn addr2 ++ List.ofFn addr3 ++
      List.replicate (wlanhdrOffset - 22) 0
    let hdr := if qos then hdr.modify (pattrib.hdrlen - 2) (· ||| qosControl pattrib) else hdr
    -- `SetSeqNum` keeps the fragment number
    (hdr.modify 22 fun b => (b &&& 0x0f) ||| UInt8.ofNat (seqnum * 16)).modify 23 fun _ =>
      UInt8.ofNat (seqnum / 16)

/-- `rtw_put_snap`. -/
def putSnap (hProto : UInt16) : List UInt8 :=
  -- `P802_1H_OUI` for AppleTalk and IPX, else `RFC1042_OUI`
  [0xaa, 0xaa, 0x03] ++ (if hProto = 0x8137 ∨ hProto = 0x80f3 then [0x00, 0x00, 0xf8] else [0x00, 0x00, 0x00]) ++
    [UInt8.ofNat (hProto.toNat / 256), UInt8.ofNat (hProto.toNat % 256)]

@[simp] theorem length_putSnap (hProto : UInt16) : (putSnap hProto).length = 8 := by
  unfold putSnap
  split <;> rfl

/-! ## The loop over the fragments -/

/-- `SetMFrag`. -/
def setMFrag (m : Mem) (start : Nat) : Mem := fun k => if k = start + 1 then m k ||| 0x04 else m k

/-- `ClearMFrag`. -/
def clearMFrag (m : Mem) (start : Nat) : Mem := fun k => if k = start + 1 then m k &&& 0xfb else m k

theorem setMFrag_of_ne (m : Mem) {start k : Nat} (ne : k ≠ start + 1) : setMFrag m start k = m k := if_neg ne

theorem clearMFrag_of_ne (m : Mem) {start k : Nat} (ne : k ≠ start + 1) : clearMFrag m start k = m k :=
  if_neg ne

/-- An MPDU in the transmit buffer: where its header starts, and what is written behind it. -/
structure Mpdu where
  memStart : Nat
  iv : List UInt8
  llc : List UInt8
  data : List UInt8
  icv : List UInt8

/-- The LLC header and the part of the MSDU. -/
def Mpdu.payload (mpdu : Mpdu) : List UInt8 := mpdu.llc ++ mpdu.data

/-- What `rtw_xmitframe_coalesce` writes behind the header. -/
def Mpdu.body (mpdu : Mpdu) : List UInt8 := mpdu.iv ++ mpdu.payload ++ mpdu.icv

/-- The ICV is written for software encryption only. -/
def swIcvLen (pattrib : PktAttrib) : Nat := if pattrib.bswenc then pattrib.icvLen else 0

/-- An MPDU with the IV and the place for the ICV. -/
def makeMpdu (pattrib : PktAttrib) (memStart : Nat) (llc data : List UInt8) : Mpdu :=
  ⟨memStart, pattrib.iv.takeD pattrib.ivLen 0, llc, data, pattrib.icv.takeD (swIcvLen pattrib) 0⟩

@[simp] theorem length_body (pattrib : PktAttrib) (memStart : Nat) (llc data : List UInt8) :
    (makeMpdu pattrib memStart llc data).body.length =
      pattrib.ivLen + llc.length + data.length + swIcvLen pattrib := by
  simp only [Mpdu.body, Mpdu.payload, makeMpdu, List.length_append, List.takeD_length]
  omega

section Loop

variable (fragLen : Nat) (pattrib : PktAttrib) (hw pbufStart : Nat)

/-- `mpdu_len`, the room of a fragment for data. -/
def mpduLen (llcSz : Nat) : Int :=
  fragLen - 4 - pattrib.hdrlen - pattrib.ivLen - llcSz - swIcvLen pattrib

/-- How much `_rtw_pktfile_read` is asked for. -/
def readLen (llcSz : Nat) (rest : List UInt8) : Nat :=
  -- broadcast and multicast packets are not fragmented
  if isMcast pattrib.ra then pattrib.pktlen
  -- as `uint`, a negative length is above every packet length
  else if mpduLen fragLen pattrib llcSz < 0 then rest.length
  else (mpduLen fragLen pattrib llcSz).toNat

/-- The LLC header is in the first fragment. -/
def fragmentLlc (frgInx : Nat) : List UInt8 := if frgInx = 0 then putSnap pattrib.etherType else []

/-- The loop of `rtw_xmitframe_coalesce`: the memory after it and the MPDUs.  `rest` is what the
packet file has not given yet; the fuel bounds the number of fragments. -/
def coalesceLoop : Nat → Nat → Nat → List UInt8 → Mem → Option (Mem × List Mpdu)
  | 0, _, _, _, _ => none
  | fuel + 1, frgInx, memStart, rest, mem =>
      let mem := setMFrag mem memStart
      let llc := fragmentLlc pattrib frgInx
      let want := readLen fragLen pattrib llc.length rest
      let mpdu := makeMpdu pattrib memStart llc (rest.take want)
      let mem := splice mem (memStart + pattrib.hdrlen) mpdu.body
      let rest := rest.drop want
      if isMcast pattrib.ra ∨ rest = [] then some (clearMFrag mem memStart, [mpdu])
      else
        let next := rnd4 (memStart + pattrib.hdrlen + mpdu.body.length) + hw
        let mem := splice mem next (bytesAt mem (pbufStart + hw) pattrib.hdrlen)
        (coalesceLoop fuel (frgInx + 1) next rest mem).map fun (mem, mpdus) => (mem, mpdu :: mpdus)

/-- The MPDUs of the loop. -/
def fragments : Nat → Nat → Nat → List UInt8 → Option (List Mpdu)
  | 0, _, _, _ => none
  | fuel + 1, frgInx, memStart, rest =>
      let llc := fragmentLlc pattrib frgInx
      let want := readLen fragLen pattrib llc.length rest
      let mpdu := makeMpdu pattrib memStart llc (rest.take want)
      if isMcast pattrib.ra ∨ rest.drop want = [] then some [mpdu]
      else
        (fragments fuel (frgInx + 1)
          (rnd4 (memStart + pattrib.hdrlen + mpdu.body.length) + hw) (rest.drop want)).map (mpdu :: ·)

theorem coalesceLoop_fragments (fuel frgInx memStart : Nat) (rest : List UInt8) (mem : Mem) :
    (coalesceLoop fragLen pattrib hw pbufStart fuel frgInx memStart rest mem).map Prod.snd =
      fragments fragLen pattrib hw fuel frgInx memStart rest := by
  induction fuel generalizing frgInx memStart rest mem with
  | zero => rfl
  | succ fuel ih =>
      unfold coalesceLoop fragments
      dsimp only
      split
      · rfl
      · rw [← ih, Option.map_map, Option.map_map]
        rfl

theorem le_rnd4 (x : Nat) : x ≤ rnd4 x := by
  unfold rnd4
  split <;> omega

variable {fragLen pattrib hw pbufStart}

/-- The MPDUs lie in the buffer as they were written, and nothing below them is touched. -/
theorem coalesceLoop_laidOut (two : 2 ≤ pattrib.hdrlen) {fuel frgInx memStart : Nat} {rest : List UInt8}
    {mem mem' : Mem} {mpdus : List Mpdu}
    (done : coalesceLoop fragLen pattrib hw pbufStart fuel frgInx memStart rest mem = some (mem', mpdus)) :
    SameBelow memStart mem mem' ∧ ∀ mpdu ∈ mpdus,
      bytesAt mem' (mpdu.memStart + pattrib.hdrlen) mpdu.body.length = mpdu.body := by
  induction fuel generalizing frgInx memStart rest mem mpdus mem' with
  | zero => cases done
  | succ fuel ih =>
      unfold coalesceLoop at done
      dsimp only at done
      generalize here : makeMpdu pattrib memStart _ _ = mpdu at done
      have start : mpdu.memStart = memStart := by
        rw [← here]
        rfl
      have written := bytesAt_splice (setMFrag mem memStart) (memStart + pattrib.hdrlen) mpdu.body
      have below : SameBelow memStart mem
          (splice (setMFrag mem memStart) (memStart + pattrib.hdrlen) mpdu.body) := by
        intro k lt
        rw [splice_below _ (memStart + pattrib.hdrlen) _ k (by omega), setMFrag_of_ne _ (by omega)]
      generalize splice (setMFrag mem memStart) (memStart + pattrib.hdrlen) mpdu.body = m
        at done written below
      split at done
      · cases done
        refine ⟨fun k lt => ?_, fun mpdu' mem => ?_⟩
        · rw [← below k lt, clearMFrag_of_ne _ (by omega)]
        · obtain rfl := List.mem_singleton.mp mem
          rw [start]
          exact (bytesAt_congr fun k lt => clearMFrag_of_ne m (by omega)).trans written
      · obtain ⟨⟨mem'', later⟩, rest_done, same⟩ := Option.map_eq_some_iff.mp done
        simp only [Prod.mk.injEq] at same
        obtain ⟨rfl, rfl⟩ := same
        obtain ⟨same, laid⟩ := ih rest_done
        have reaches := le_rnd4 (memStart + pattrib.hdrlen + mpdu.body.length)
        have kept : SameBelow (memStart + pattrib.hdrlen + mpdu.body.length) m mem'' := by
          intro k lt
          rw [same k (by omega)]
          exact splice_below _ (rnd4 (memStart + pattrib.hdrlen + mpdu.body.length) + hw) _ k
            (by omega)
        refine ⟨fun k lt => ?_, fun mpdu' mem => ?_⟩
        · rw [kept k (by omega)]
          exact below k lt
        · rcases List.mem_cons.mp mem with rfl | inside
          · rw [start, bytesAt_of_below kept (Nat.le_refl _), written]
          · exact laid mpdu' inside

theorem readLen_unicast (unicast : isMcast pattrib.ra = false) (llcSz : Nat) (rest : List UInt8) :
    readLen fragLen pattrib llcSz rest =
      if mpduLen fragLen pattrib llcSz < 0 then rest.length else (mpduLen fragLen pattrib llcSz).toNat := by
  rw [readLen, unicast]
  rfl

theorem drop_readLen_eq_nil (unicast : isMcast pattrib.ra = false) (llcSz : Nat) (rest : List UInt8) :
    rest.drop (readLen fragLen pattrib llcSz rest) = [] ↔
      mpduLen fragLen pattrib llcSz < 0 ∨ (rest.length : Int) ≤ mpduLen fragLen pattrib llcSz := by
  rw [readLen_unicast unicast, List.drop_eq_nil_iff]
  split
  · rename_i negative
    exact ⟨fun _ => Or.inl negative, fun _ => Nat.le_refl _⟩
  · omega

theorem length_fragmentLlc_zero : (fragmentLlc pattrib 0).length = 8 := length_putSnap _

theorem fragmentLlc_later {frgInx : Nat} (later : frgInx ≠ 0) : fragmentLlc pattrib frgInx = [] := if_neg later

/-- The later fragments of a unicast MSDU: their number. -/
theorem length_fragments_later (hw : Nat) (unicast : isMcast pattrib.ra = false) (room : 0 < mpduLen fragLen pattrib 0)
    (fuel frgInx memStart : Nat) (rest : List UInt8) (later : frgInx ≠ 0) (more : rest ≠ [])
    (fuelled : rest.length < fuel) :
    ∃ mpdus, fragments fragLen pattrib hw fuel frgInx memStart rest = some mpdus ∧
      mpdus.length =
        (rest.length + (mpduLen fragLen pattrib 0).toNat - 1) / (mpduLen fragLen pattrib 0).toNat := by
  induction fuel generalizing frgInx memStart rest with
  | zero => cases fuelled
  | succ fuel ih =>
      have positive := List.length_pos_iff.mpr more
      have llc : (fragmentLlc pattrib frgInx).length = 0 := by
        rw [fragmentLlc_later later]
        rfl
      have read : readLen fragLen pattrib 0 rest = (mpduLen fragLen pattrib 0).toNat := by
        rw [readLen_unicast unicast, if_neg (by omega)]
      generalize L : (mpduLen fragLen pattrib 0).toNat = l at read ih ⊢
      have roomy : 0 < l := by omega
      unfold fragments
      dsimp only
      rw [llc, read, unicast]
      split
      · rename_i last
        have fits : rest.length ≤ l := by simpa using last
        refine ⟨_, rfl, ?_⟩
        have one : (rest.length + l - 1) / l = 1 :=
          Nat.div_eq_of_lt_le (by omega) (by omega)
        rw [one]
        rfl
      · rename_i exceeds
        have exceeds : l < rest.length := by simpa using exceeds
        obtain ⟨mpdus, done, count⟩ := ih (frgInx + 1)
          (rnd4 (memStart + pattrib.hdrlen +
            (makeMpdu pattrib memStart (fragmentLlc pattrib frgInx) (rest.take l)).body.length) + hw)
          (rest.drop l) (Nat.succ_ne_zero _)
          (by
            rw [Ne, List.drop_eq_nil_iff]
            omega)
          (by
            rw [List.length_drop]
            omega)
        refine ⟨_, by rw [done]; rfl, ?_⟩
        have next : (rest.length + l - 1) / l = (rest.length - l + l - 1) / l + 1 := by
          rw [← Nat.add_div_right _ roomy]
          congr 1
          omega
        rw [List.length_cons, count, List.length_drop, next]

/-- The MSDU of `n` bytes goes out in one MPDU. -/
def OneFragment (fragLen : Nat) (pattrib : PktAttrib) (n : Nat) : Prop :=
  isMcast pattrib.ra = true ∨ mpduLen fragLen pattrib 8 < 0 ∨ (n : Int) ≤ mpduLen fragLen pattrib 8

instance (fragLen : Nat) (pattrib : PktAttrib) (n : Nat) : Decidable (OneFragment fragLen pattrib n) := by
  unfold OneFragment
  infer_instance

/-- The number of MPDUs for an MSDU of `n` bytes. -/
def fragmentCount (fragLen : Nat) (pattrib : PktAttrib) (n : Nat) : Nat :=
  if OneFragment fragLen pattrib n then 1
  else
    let later := (mpduLen fragLen pattrib 0).toNat
    1 + (n - (mpduLen fragLen pattrib 8).toNat + later - 1) / later

theorem fragmentCount_congr {pattrib' : PktAttrib} (ra : pattrib'.ra = pattrib.ra)
    (hdrlen : pattrib'.hdrlen = pattrib.hdrlen) (ivLen : pattrib'.ivLen = pattrib.ivLen)
    (icvLen : swIcvLen pattrib' = swIcvLen pattrib) (n : Nat) :
    fragmentCount fragLen pattrib' n = fragmentCount fragLen pattrib n := by
  have room (llcSz : Nat) : mpduLen fragLen pattrib' llcSz = mpduLen fragLen pattrib llcSz := by
    rw [mpduLen, hdrlen, ivLen, icvLen]
    rfl
  have one : OneFragment fragLen pattrib' n ↔ OneFragment fragLen pattrib n := by
    unfold OneFragment
    rw [ra, room]
  unfold fragmentCount
  by_cases fits : OneFragment fragLen pattrib n
  · rw [if_pos fits, if_pos (one.mpr fits)]
  · rw [if_neg fits, if_neg (mt one.mp fits), room, room]

theorem mpduLen_zero : mpduLen fragLen pattrib 0 = mpduLen fragLen pattrib 8 + 8 := by
  unfold mpduLen
  omega

theorem fragmentCount_eq_one {n : Nat} : fragmentCount fragLen pattrib n = 1 ↔ OneFragment fragLen pattrib n := by
  unfold fragmentCount
  split
  · rename_i one
    exact ⟨fun _ => one, fun _ => rfl⟩
  · rename_i more
    refine ⟨fun count => absurd count ?_, fun one => absurd one more⟩
    rw [OneFragment, not_or, not_or] at more
    have room : 0 < (mpduLen fragLen pattrib 0).toNat := by
      rw [mpduLen_zero]
      omega
    have positive : 0 < (n - (mpduLen fragLen pattrib 8).toNat + (mpduLen fragLen pattrib 0).toNat - 1) /
        (mpduLen fragLen pattrib 0).toNat := Nat.div_pos (by omega) room
    dsimp only
    omega

/-- The loop ends, with that many MPDUs. -/
theorem length_fragments (fragLen : Nat) (pattrib : PktAttrib) (hw memStart : Nat) (rest : List UInt8) :
    ∃ mpdus, fragments fragLen pattrib hw (rest.length + 2) 0 memStart rest = some mpdus ∧
      mpdus.length = fragmentCount fragLen pattrib rest.length := by
  unfold fragments
  dsimp only
  rw [length_fragmentLlc_zero]
  by_cases one : OneFragment fragLen pattrib rest.length
  · have ends : isMcast pattrib.ra = true ∨ rest.drop (readLen fragLen pattrib 8 rest) = [] := by
      cases unicast : isMcast pattrib.ra with
      | true => exact Or.inl rfl
      | false =>
          rw [drop_readLen_eq_nil unicast]
          rw [OneFragment, unicast] at one
          simpa using one
    rw [if_pos ends]
    exact ⟨_, rfl, (fragmentCount_eq_one.mpr one).symm⟩
  · have goes_on := one
    rw [OneFragment, not_or, not_or] at goes_on
    obtain ⟨multicast, negative, exceeds⟩ := goes_on
    have unicast : isMcast pattrib.ra = false := by simpa using multicast
    have read : readLen fragLen pattrib 8 rest = (mpduLen fragLen pattrib 8).toNat := by
      rw [readLen_unicast unicast, if_neg negative]
    have nonempty : rest.drop (mpduLen fragLen pattrib 8).toNat ≠ [] := by
      rw [Ne, List.drop_eq_nil_iff]
      omega
    rw [read, if_neg (by simp [unicast, nonempty])]
    have room : 0 < mpduLen fragLen pattrib 0 := by
      rw [mpduLen_zero]
      omega
    obtain ⟨mpdus, done, count⟩ := length_fragments_later hw unicast room (rest.length + 1) (0 + 1)
      (rnd4 (memStart + pattrib.hdrlen + (makeMpdu pattrib memStart (fragmentLlc pattrib 0)
        (rest.take (mpduLen fragLen pattrib 8).toNat)).body.length) + hw) _ (Nat.succ_ne_zero 0) nonempty
      (by
        rw [List.length_drop]
        omega)
    refine ⟨_, by rw [done]; rfl, ?_⟩
    rw [List.length_cons, count, List.length_drop, fragmentCount, if_neg one, Nat.add_comm]

/-- The IV is copied into every fragment. -/
theorem fragments_iv {fuel frgInx memStart : Nat} {rest : List UInt8} {mpdus : List Mpdu}
    (done : fragments fragLen pattrib hw fuel frgInx memStart rest = some mpdus) :
    ∀ mpdu ∈ mpdus, mpdu.iv = pattrib.iv.takeD pattrib.ivLen 0 := by
  induction fuel generalizing frgInx memStart rest mpdus with
  | zero => cases done
  | succ fuel ih =>
      unfold fragments at done
      dsimp only at done
      split at done
      · obtain rfl := Option.some.inj done
        intro mpdu inside
        obtain rfl := List.mem_singleton.mp inside
        rfl
      · obtain ⟨later, rest_done, rfl⟩ := Option.map_eq_some_iff.mp done
        intro mpdu inside
        rcases List.mem_cons.mp inside with rfl | inside
        · rfl
        · exact ih rest_done mpdu inside

/-- The fragments of a unicast MSDU carry it in order. -/
theorem fragments_data (unicast : isMcast pattrib.ra = false) {fuel frgInx memStart : Nat}
    {rest : List UInt8} {mpdus : List Mpdu}
    (done : fragments fragLen pattrib hw fuel frgInx memStart rest = some mpdus) :
    (mpdus.map Mpdu.data).flatten = rest := by
  induction fuel generalizing frgInx memStart rest mpdus with
  | zero => cases done
  | succ fuel ih =>
      unfold fragments at done
      dsimp only at done
      rw [unicast] at done
      split at done
      · rename_i last
        obtain rfl := Option.some.inj done
        have all : rest.drop (readLen fragLen pattrib (fragmentLlc pattrib frgInx).length rest) = [] := by
          simpa using last
        have whole := List.take_of_length_le (List.drop_eq_nil_iff.mp all)
        simpa [makeMpdu] using whole
      · obtain ⟨later, rest_done, rfl⟩ := Option.map_eq_some_iff.mp done
        rw [List.map_cons, List.flatten_cons, ih rest_done]
        exact List.take_append_drop _ _

/-- The loop for an MSDU that goes out in one MPDU. -/
theorem coalesceLoop_single {rest : List UInt8} (one : OneFragment fragLen pattrib rest.length)
    (whole : pattrib.pktlen = rest.length) (fuel memStart : Nat) (mem : Mem) :
    coalesceLoop fragLen pattrib hw pbufStart (fuel + 1) 0 memStart rest mem =
      some (clearMFrag (splice (setMFrag mem memStart) (memStart + pattrib.hdrlen)
        (makeMpdu pattrib memStart (putSnap pattrib.etherType) rest).body) memStart,
        [makeMpdu pattrib memStart (putSnap pattrib.etherType) rest]) := by
  have all : rest.length ≤ readLen fragLen pattrib 8 rest := by
    cases unicast : isMcast pattrib.ra with
    | true => rw [readLen, unicast, if_pos rfl, whole]
    | false =>
        rw [← List.drop_eq_nil_iff, drop_readLen_eq_nil unicast]
        rw [OneFragment, unicast] at one
        simpa using one
  unfold coalesceLoop
  dsimp only
  rw [length_fragmentLlc_zero, List.take_of_length_le all, List.drop_eq_nil_iff.mpr all, if_pos (Or.inr rfl)]
  rfl

end Loop

/-! ## The buffer of an MSDU that is not fragmented -/

/-- The buffer with a header and the one MPDU. -/
def singleMem (pattrib : PktAttrib) (hdr : List UInt8) (mpdu : Mpdu) (mem : Mem) : Mem :=
  clearMFrag (splice (setMFrag (splice mem mpdu.memStart hdr) mpdu.memStart)
    (mpdu.memStart + pattrib.hdrlen) mpdu.body) mpdu.memStart

/-- What happens to the second byte of the header: the More Fragments bit is set and cleared. -/
def singleFc (b : UInt8) : UInt8 := (b ||| 0x04) &&& 0xfb

theorem singleFc_and (b : UInt8) : singleFc b &&& 1 = b &&& 1 ∧ singleFc b &&& 2 = b &&& 2 :=
  Theory.Bytes.forall_byte (P := fun b => singleFc b &&& 1 = b &&& 1 ∧ singleFc b &&& 2 = b &&& 2) (by decide +kernel) b

theorem singleMem_header (pattrib : PktAttrib) (hdr : List UInt8) (mpdu : Mpdu) (mem : Mem) {j : Nat}
    (inside : j < pattrib.hdrlen) (fits : pattrib.hdrlen ≤ hdr.length) :
    singleMem pattrib hdr mpdu mem (mpdu.memStart + j) =
      if j = 1 then singleFc (hdr.getD 1 0) else hdr.getD j 0 := by
  have written : splice mem mpdu.memStart hdr (mpdu.memStart + j) = hdr.getD j 0 := by
    rw [splice, if_pos (by omega), Nat.add_sub_cancel_left]
  have kept := splice_below (setMFrag (splice mem mpdu.memStart hdr) mpdu.memStart)
    (mpdu.memStart + pattrib.hdrlen) mpdu.body (mpdu.memStart + j) (by omega)
  unfold singleMem
  by_cases control : j = 1
  · subst control
    rw [if_pos rfl, clearMFrag, if_pos rfl, kept, setMFrag, if_pos rfl, written]
    rfl
  · rw [if_neg control, clearMFrag_of_ne _ (by omega), kept, setMFrag_of_ne _ (by omega), written]

theorem singleMem_body (pattrib : PktAttrib) (two : 2 ≤ pattrib.hdrlen) (hdr : List UInt8) (mpdu : Mpdu)
    (mem : Mem) :
    bytesAt (singleMem pattrib hdr mpdu mem) (mpdu.memStart + pattrib.hdrlen) mpdu.body.length = mpdu.body := by
  have written := bytesAt_splice (setMFrag (splice mem mpdu.memStart hdr) mpdu.memStart)
    (mpdu.memStart + pattrib.hdrlen) mpdu.body
  refine (bytesAt_congr fun k _ => ?_).trans written
  exact clearMFrag_of_ne _ (by omega)

/-! ## The header -/

theorem getD_modify_of_ne (l : List UInt8) (f : UInt8 → UInt8) {i j : Nat} (ne : i ≠ j) :
    (l.modify i f).getD j 0 = l.getD j 0 := by
  simp [List.getD_eq_getElem?_getD, ne]

/-- The second byte of frame control. -/
def wlanhdrFc (pattrib : PktAttrib) (ds : UInt8) : UInt8 :=
  let mdata : UInt8 := if pattrib.mdata then 0x20 else 0
  let privacy : UInt8 := if pattrib.encrypt ≠ .noPrivacy then 0x40 else 0
  ds ||| mdata ||| privacy

theorem wlanhdrFc_and (pattrib : PktAttrib) (ds : UInt8) :
    wlanhdrFc pattrib ds &&& 1 = ds &&& 1 ∧ wlanhdrFc pattrib ds &&& 2 = ds &&& 2 := by
  refine Theory.Bytes.forall_byte (P := fun ds =>
    wlanhdrFc pattrib ds &&& 1 = ds &&& 1 ∧ wlanhdrFc pattrib ds &&& 2 = ds &&& 2) ?_ ds
  simp only [wlanhdrFc]
  split <;> split <;> decide +kernel

/-- `rtw_make_wlanhdr` in front of sequence control. -/
theorem makeWlanhdr_front {pmlmepriv : Mlme} {pattrib : PktAttrib} {seqnum : Nat} {hdr : List UInt8}
    (low : 24 ≤ pattrib.hdrlen) (made : makeWlanhdr pmlmepriv pattrib seqnum = some hdr) :
    hdr.length = wlanhdrOffset ∧ ∃ ds addr1 addr2 addr3 qos,
      wlanhdrAddrs pmlmepriv pattrib = some (ds, addr1, addr2, addr3, qos) ∧ ∀ j < 22, hdr.getD j 0 =
        ([pattrib.subtype, wlanhdrFc pattrib ds, 0, 0] ++ List.ofFn addr1 ++ List.ofFn addr2 ++
          List.ofFn addr3).getD j 0 := by
  unfold makeWlanhdr at made
  obtain ⟨⟨ds, addr1, addr2, addr3, qos⟩, addrs, rfl⟩ := Option.map_eq_some_iff.mp made
  refine ⟨?_, ds, addr1, addr2, addr3, qos, addrs, fun j front => ?_⟩
  · simp only [List.length_modify]
    split <;> simp [wlanhdrOffset]
  · dsimp only
    rw [getD_modify_of_ne _ _ (by omega), getD_modify_of_ne _ _ (by omega)]
    have base : ([pattrib.subtype, wlanhdrFc pattrib ds, 0, 0] ++ List.ofFn addr1 ++ List.ofFn addr2 ++
        List.ofFn addr3 ++ List.replicate (wlanhdrOffset - 22) 0).getD j 0 =
        ([pattrib.subtype, wlanhdrFc pattrib ds, 0, 0] ++ List.ofFn addr1 ++ List.ofFn addr2 ++
          List.ofFn addr3).getD j 0 := by
      rw [List.getD_append]
      simpa using front
    split
    · rw [getD_modify_of_ne _ _ (by omega)]
      exact base
    · exact base

/-- The header of an MSDU that is not fragmented, as it lies in the buffer. -/
theorem singleMem_front {pmlmepriv : Mlme} {pattrib : PktAttrib} {seqnum : Nat} {hdr : List UInt8}
    (mpdu : Mpdu) (mem : Mem) (low : 24 ≤ pattrib.hdrlen) (high : pattrib.hdrlen ≤ 26)
    (made : makeWlanhdr pmlmepriv pattrib seqnum = some hdr) :
    ∃ ds addr1 addr2 addr3 qos, wlanhdrAddrs pmlmepriv pattrib = some (ds, addr1, addr2, addr3, qos) ∧
      singleMem pattrib hdr mpdu mem mpdu.memStart = pattrib.subtype ∧
      singleMem pattrib hdr mpdu mem (mpdu.memStart + 1) = singleFc (wlanhdrFc pattrib ds) ∧
      (∀ i : Fin 6, singleMem pattrib hdr mpdu mem (mpdu.memStart + 4 + i) = addr1 i) ∧
      (∀ i : Fin 6, singleMem pattrib hdr mpdu mem (mpdu.memStart + 10 + i) = addr2 i) ∧
      (∀ i : Fin 6, singleMem pattrib hdr mpdu mem (mpdu.memStart + 16 + i) = addr3 i) := by
  obtain ⟨long, ds, addr1, addr2, addr3, qos, addrs, front⟩ := makeWlanhdr_front low made
  have fits : pattrib.hdrlen ≤ hdr.length := by
    rw [long]
    exact high.trans (by decide)
  have byte (j : Nat) (short : j < 22) (other : j ≠ 1) := by
    have found := singleMem_header pattrib hdr mpdu mem (j := j) (by omega) fits
    rwa [if_neg other, front j short] at found
  refine ⟨ds, addr1, addr2, addr3, qos, addrs, byte 0 (by decide) (by decide), ?_, fun i => ?_, fun i => ?_,
    fun i => ?_⟩
  · rw [singleMem_header _ _ _ _ (by omega) fits, if_pos rfl, front 1 (by decide)]
    rfl
  · rw [Nat.add_assoc, byte (4 + i) (by omega) (by omega)]
    fin_cases i <;> rfl
  · rw [Nat.add_assoc, byte (10 + i) (by omega) (by omega)]
    fin_cases i <;> rfl
  · rw [Nat.add_assoc, byte (16 + i) (by omega) (by omega)]
    fin_cases i <;> rfl

theorem bytesAt_eq_ofFn {n : Nat} {mem : Mem} {start : Nat} {bytes : Fin n → UInt8}
    (same : ∀ i : Fin n, mem (start + i) = bytes i) : bytesAt mem start n = List.ofFn bytes := by
  apply List.ext_getElem
  · simp
  · intro k inside _
    simpa [bytesAt] using same ⟨k, by simpa using inside⟩

end Vmac.Transmit
