/-
# Vmac.Transmit.Ethernet -- an Ethernet frame over the air and back

An Ethernet frame goes through `rtw_xmitframe_coalesce`, is received as it was sent and goes
through `wlanhdr_to_ethhdr`.

* `ethernet_over_air`: the frame comes back, from the source address that the 802.11 header has.
-/
import Vmac.Transmit.Walkers
import Vmac.Recv.Decap

namespace Vmac.Transmit

open Security Recv.Decap

set_option autoImplicit false

/-- What `update_attrib` takes from the Ethernet header and from the station. -/
structure Addressed (pmlmepriv : Mlme) (pattrib : PktAttrib) (pkt : List UInt8) : Prop where
  dst : pattrib.dst = addrAt pkt 0
  src : pattrib.src = addrAt pkt 6
  etherType : pattrib.etherType = UInt16.ofNat ((pkt.getD 12 0).toNat * 256 + (pkt.getD 13 0).toNat)
  ta : pmlmepriv.fwState = .station ∨ pmlmepriv.fwState = .adhoc → pattrib.ta = pmlmepriv.adapterMacAddr
  mdata : pattrib.mdata = false
  shape : pattrib.hdrlen = 24 ∧ pattrib.subtype = 0x08 ∨ pattrib.hdrlen = 26 ∧ pattrib.subtype = 0x88

theorem updateAttrib_addressed {pmlmepriv : Mlme} {psecuritypriv : SecurityPriv} {stas stas' : StaTable}
    {pattrib sent : PktAttrib} {pkt : List UInt8} {priority : UInt8}
    (made : updateAttrib pmlmepriv psecuritypriv stas pattrib pkt priority = (some sent, stas')) :
    Addressed pmlmepriv sent pkt := by
  unfold updateAttrib at made
  generalize found : etherAttrib pmlmepriv pattrib pkt = ether at made
  have dst : ether.dst = addrAt pkt 0 := by
    rw [← found, etherAttrib]
    cases pmlmepriv.fwState <;> rfl
  have src : ether.src = addrAt pkt 6 := by
    rw [← found, etherAttrib]
    cases pmlmepriv.fwState <;> rfl
  have type : ether.etherType = UInt16.ofNat ((pkt.getD 12 0).toNat * 256 + (pkt.getD 13 0).toNat) := by
    rw [← found, etherAttrib]
    cases pmlmepriv.fwState <;> rfl
  have ta : pmlmepriv.fwState = .station ∨ pmlmepriv.fwState = .adhoc → ether.ta = pmlmepriv.adapterMacAddr := by
    rw [← found, etherAttrib]
    rintro (state | state) <;> rw [state]
  dsimp only at made
  split at made
  · cases made
  · rename_i psta _
    split at made
    · cases made
    · cases ok : secInfoOk psecuritypriv { ether with pktlen := pkt.length - ethHlen } psta with
      | false =>
          obtain ⟨dropped, failed, -⟩ := updateAttribSecInfo_fail psecuritypriv _ psta ok
          rw [failed] at made
          cases made
      | true =>
          obtain ⟨sec, drawn, attrs⟩ := updateAttribSecInfo_ok psecuritypriv _ psta ok
          rw [drawn] at made
          obtain rfl := Option.some.inj (Prod.mk.inj made).1
          refine ⟨attrs.dst.trans dst, attrs.src.trans src, attrs.etherType.trans type,
            fun state => attrs.ta.trans (ta state), rfl, phyAttrib_shape pmlmepriv psta priority sec⟩

/-- A received frame that is the MPDU of an MSDU that was sent alone. -/
structure OverAir (buf : XmitBuf) (pktOffset : Nat) (c : Coalesced) (f : RecvFrame) : Prop where
  len : f.len = c.lastTxcmdsz
  bytes : f.bytes = bytesAt c.mem (buf.bufAddr + hwHdrOffset pktOffset) c.lastTxcmdsz

/-- The Ethernet frame with another source address. -/
def fromSource (pkt : List UInt8) (src : MacAddr) : List UInt8 := pkt.take 6 ++ List.ofFn src ++ pkt.drop 12

section OverAir

variable {psecuritypriv : SecurityPriv} {fragLen : Nat} {pmlmepriv : Mlme} {sent : PktAttrib}
  {seqnum pktOffset : Nat} {buf : XmitBuf} {pkt : List UInt8} {mem : Mem} {c : Coalesced} {f : RecvFrame}

/-- The bytes of a received frame are those of the transmit buffer. -/
theorem OverAir.byte (air : OverAir buf pktOffset c f) {k : Nat} (inside : k < c.lastTxcmdsz) :
    f.mem (f.rxData + k) = c.mem (buf.bufAddr + hwHdrOffset pktOffset + k) := by
  have same := congrArg (fun bytes => bytes.getD k 0) air.bytes
  simp only [RecvFrame.bytes, getD_bytesAt, air.len] at same
  rwa [if_pos inside, if_pos inside] at same

/-- The header of the received frame gives the addresses for the Ethernet header. -/
theorem validate_overAir (addressed : Addressed pmlmepriv sent pkt) (plain : sent.encrypt = .noPrivacy)
    {hdr : List UInt8} {mpdu : Mpdu} (made : makeWlanhdr pmlmepriv sent seqnum = some hdr)
    (start : mpdu.memStart = buf.bufAddr + hwHdrOffset pktOffset) (buffer : c.mem = singleMem sent hdr mpdu mem)
    (long : sent.hdrlen ≤ c.lastTxcmdsz) (air : OverAir buf pktOffset c f) (encryAlgo : Privacy) :
    validateRecvDataFrame encryAlgo f = some
      ⟨sent.hdrlen, 0, 0, .noPrivacy, 0, sent.dst, frameSa pmlmepriv sent⟩ := by
  have low : 24 ≤ sent.hdrlen := by
    have shape := addressed.shape
    omega
  have high : sent.hdrlen ≤ 26 := by
    have shape := addressed.shape
    omega
  obtain ⟨ds, addr1, addr2, addr3, qos, addrs, type, control, first, second, third⟩ :=
    singleMem_front mpdu mem low high made
  rw [← buffer, start] at type control first second third
  have fc : f.mem (f.rxData + 1) = singleFc ds := by
    rw [air.byte (by omega), control]
    simp [wlanhdrFc, addressed.mdata, plain]
  have subtype : f.mem f.rxData = sent.subtype := (air.byte (k := 0) (by omega)).trans type
  have address {start : Nat} (inside : start + 6 ≤ 24) {addr : MacAddr}
      (found : ∀ i : Fin 6, c.mem (buf.bufAddr + hwHdrOffset pktOffset + start + i) = addr i) :
      hdrAddr f.mem (f.rxData + start) = addr := by
    funext i
    rw [hdrAddr, Nat.add_assoc, air.byte (by omega), ← Nat.add_assoc]
    exact found i
  have addr1 := address (by decide) first
  have addr2 := address (by decide) second
  have addr3 := address (by decide) third
  have length : (if sent.subtype &&& 0x80 ≠ 0 then 26 else 24) = sent.hdrlen := by
    rcases addressed.shape with ⟨short, data⟩ | ⟨long, data⟩
    · rw [short, data]
      rfl
    · rw [long, data]
      rfl
  unfold validateRecvDataFrame dataAddrs frameSa
  unfold wlanhdrAddrs at addrs
  rw [subtype, fc, addr1, addr2, addr3]
  cases state : pmlmepriv.fwState with
  | station | ap | adhoc =>
      rw [state] at addrs
      cases addrs
      rw [← length]
      rfl
  | other =>
      rw [state] at addrs
      cases addrs

end OverAir

/-! ## The packet -/

theorem ofFn_addrAt {pkt : List UInt8} {start : Nat} (long : start + 6 ≤ pkt.length) :
    List.ofFn (addrAt pkt start) = (pkt.drop start).take 6 := by
  apply List.ext_getElem
  · rw [List.length_ofFn, List.length_take, List.length_drop]
    omega
  · intro k inside _
    rw [List.length_ofFn] at inside
    simp only [List.getElem_ofFn, addrAt, List.getElem_take, List.getElem_drop]
    exact List.getD_eq_getElem _ _ (by omega)

theorem typeBytes_ofNat (high low : UInt8) :
    typeBytes (UInt16.ofNat (high.toNat * 256 + low.toNat)) = [high, low] := by
  have lt := high.toNat_lt
  have lt' := low.toNat_lt
  have value : (UInt16.ofNat (high.toNat * 256 + low.toNat)).toNat = high.toNat * 256 + low.toNat := by
    rw [UInt16.toNat_ofNat']
    omega
  have upper : (high.toNat * 256 + low.toNat) / 256 = high.toNat := by omega
  have lower : (high.toNat * 256 + low.toNat) % 256 = low.toNat := by omega
  rw [typeBytes, value, upper, lower, UInt8.ofNat_toNat, UInt8.ofNat_toNat]

/-- The type and what follows it. -/
theorem drop_twelve {pkt : List UInt8} (long : ethHlen ≤ pkt.length) :
    pkt.drop 12 = [pkt.getD 12 0, pkt.getD 13 0] ++ pkt.drop ethHlen := by
  have eth : ethHlen = 14 := rfl
  rw [List.drop_eq_getElem_cons (by omega), List.drop_eq_getElem_cons (by omega),
    List.getD_eq_getElem _ _ (by omega), List.getD_eq_getElem _ _ (by omega)]
  rfl

theorem fromSource_eq_iff {pkt : List UInt8} (long : ethHlen ≤ pkt.length) (src : MacAddr) :
    fromSource pkt src = pkt ↔ src = addrAt pkt 6 := by
  have eth : ethHlen = 14 := rfl
  have parts : pkt = pkt.take 6 ++ List.ofFn (addrAt pkt 6) ++ pkt.drop 12 := by
    have behind : pkt.drop 12 = (pkt.drop 6).drop 6 := by rw [List.drop_drop]
    rw [ofFn_addrAt (by omega), List.append_assoc, behind, List.take_append_drop, List.take_append_drop]
  constructor
  · intro same
    rw [fromSource] at same
    have sources := (List.append_inj (same.trans parts) (by simp)).1
    exact List.ofFn_injective (List.append_cancel_left sources)
  · rintro rfl
    exact parts.symm

/-- An Ethernet frame that is sent in one MPDU without encryption and received unchanged comes back with the
source address that the 802.11 header carries: its own from an access point, the station's otherwise. -/
theorem ethernet_over_air {psecuritypriv : SecurityPriv} {fragLen : Nat} {pmlmepriv : Mlme} {pattrib sent : PktAttrib}
    {stas stas' : StaTable} {priority : UInt8} {seqnum pktOffset : Nat} {buf : XmitBuf} {pkt : List UInt8}
    {mem : Mem} {c : Coalesced} {f : RecvFrame} (long : ethHlen ≤ pkt.length)
    (made : updateAttrib pmlmepriv psecuritypriv stas pattrib pkt priority = (some sent, stas'))
    (plain : sent.encrypt = .noPrivacy) (one : OneFragment fragLen sent (pkt.drop ethHlen).length)
    (done : xmitframeCoalesce psecuritypriv fragLen pmlmepriv sent seqnum pktOffset buf pkt mem = some c)
    (air : OverAir buf pktOffset c f) (encryAlgo : Privacy) :
    ∃ rx f' rx', validateRecvDataFrame encryAlgo f = some rx ∧ wlanhdrToEthhdr rx f = some (f', rx') ∧
      f'.bytes = fromSource pkt
        (if pmlmepriv.fwState = .ap then addrAt pkt 6 else pmlmepriv.adapterMacAddr) ∧
      (f'.bytes = pkt ↔ pmlmepriv.fwState = .ap ∨ pmlmepriv.adapterMacAddr = addrAt pkt 6) := by
  have attrs := updateAttrib_attributed made
  have addressed := updateAttrib_addressed made
  have clear : sent.encrypt ≠ .tkip := by
    rw [plain]
    decide
  have iv : sent.ivLen = 0 := by
    rw [attrs.ivLen, plain]
    rfl
  have icv : swIcvLen sent = 0 := by
    rw [swIcvLen, attrs.icvLen, plain]
    split <;> rfl
  have mic : micLen sent = 0 := by
    rw [micLen, plain]
    rfl
  have whole : sent.pktlen = (pkt.drop sent.pktHdrlen).length := by
    rw [attrs.pktlen, attrs.pktHdrlen, List.length_drop]
  obtain ⟨hdr, mpdu, headed, written, mpdus, -, size, last, buffer, -⟩ :=
    xmitframeCoalesce_single (by rwa [attrs.pktHdrlen]) whole done
  have start : mpdu.memStart = buf.bufAddr + hwHdrOffset pktOffset := by
    rw [written]
    rfl
  have payload : mpdu.payload = putSnap sent.etherType ++ pkt.drop ethHlen := by
    rw [written, attrs.pktHdrlen]
    rfl
  have body : mpdu.body = putSnap sent.etherType ++ pkt.drop ethHlen := by
    have ivless : mpdu.iv = [] := by
      rw [written]
      exact List.length_eq_zero_iff.mp ((List.takeD_length ..).trans iv)
    have icvless : mpdu.icv = [] := by
      rw [written]
      exact List.length_eq_zero_iff.mp ((List.takeD_length ..).trans icv)
    rw [Mpdu.body, ivless, icvless, payload, List.nil_append, List.append_nil]
  have length : c.lastTxcmdsz = sent.hdrlen + (8 + (pkt.drop ethHlen).length) := by
    rw [last, size, mic, icv, iv, payload, List.length_append, length_putSnap]
    omega
  have header := validate_overAir addressed plain headed start (buffer clear) (by omega) air encryAlgo
  have behind : bytesAt f.mem (f.rxData + sent.hdrlen + 0) (8 + (pkt.drop ethHlen).length) =
      putSnap sent.etherType ++ pkt.drop ethHlen := by
    have found := singleMem_body sent (by have := attrs.low; omega) hdr mpdu mem
    rw [body, List.length_append, length_putSnap, start, ← buffer clear] at found
    rw [← found]
    refine List.map_congr_left fun k inside => ?_
    have short := List.mem_range.mp inside
    rw [Nat.add_zero, Nat.add_assoc, air.byte (by omega), Nat.add_assoc _ sent.hdrlen]
  obtain ⟨f', rx', converted, -, bytes⟩ := @wlanhdrToEthhdr_snap
    ⟨sent.hdrlen, 0, 0, .noPrivacy, 0, sent.dst, frameSa pmlmepriv sent⟩ f sent.etherType (pkt.drop ethHlen)
    rfl attrs.low (air.len.trans (length.trans (Nat.add_assoc ..).symm)) behind
  have source : frameSa pmlmepriv sent =
      if pmlmepriv.fwState = .ap then addrAt pkt 6 else pmlmepriv.adapterMacAddr := by
    rw [frameSa, addressed.src]
    split
    · rfl
    · rename_i other
      have state := makeWlanhdr_isSome pmlmepriv sent seqnum
      rw [headed] at state
      apply addressed.ta
      cases mode : pmlmepriv.fwState with
      | station => exact Or.inl rfl
      | adhoc => exact Or.inr rfl
      | ap => exact absurd mode other
      | other => simp [mode] at state
  have result : f'.bytes = fromSource pkt
      (if pmlmepriv.fwState = .ap then addrAt pkt 6 else pmlmepriv.adapterMacAddr) := by
    rw [bytes, ← source, addressed.dst, addressed.etherType, ofFn_addrAt (by have : ethHlen = 14 := rfl; omega),
      typeBytes_ofNat, List.append_assoc, ← drop_twelve long]
    rfl
  refine ⟨_, f', rx', header, converted, result, ?_⟩
  rw [result, fromSource_eq_iff long]
  by_cases ap : pmlmepriv.fwState = .ap
  · simp [ap]
  · simp [ap]

/-! ## A station without encryption -/

/-- No encryption. -/
def openSecurity : SecurityPriv where
  dot11AuthAlgrthm := .openSystem
  dot11PrivacyAlgrthm := .noPrivacy
  dot11PrivacyKeyIndex := 0
  dot118021XGrpPrivacy := .noPrivacy
  dot118021XGrpKeyid := 0
  dot118021XGrptxmickey := fun _ => nullKey
  busetkipkey := false
  swEncrypt := false
  hwDecrypted := true
  disBmcSearch := false

/-- A station with the address 10:00:00:00:00:00. -/
def openStation : Mlme := ⟨.station, stationAddr 0x20, stationAddr 0x10, false⟩

/-- Its access point. -/
def openBss : StaTable := fun a =>
  if a = stationAddr 0x20 then some ⟨true, false, false, .noPrivacy, nullKey, nullKey, 0⟩ else none

/-- An Ethernet frame of three bytes from an address. -/
def etherFrom (n : UInt8) : List UInt8 := [2, 0, 0, 0, 0, 0, n, 0, 0, 0, 0, 0, 0x08, 0x00, 1, 2, 3]

/-- The station sends a packet. -/
def openCoalesce (pkt : List UInt8) : Option (PktAttrib × Coalesced) :=
  (updateAttrib openStation openSecurity openBss blankAttrib pkt 0).1.bind fun sent =>
    (xmitframeCoalesce openSecurity 2346 openStation sent 0 1 .first pkt fun _ => 0).map fun c => (sent, c)

/-- The frame on the air. -/
def airFrame (c : Coalesced) : RecvFrame := ⟨c.mem, 0 + hwHdrOffset 1, c.lastTxcmdsz⟩

/-- A frame that the station sends for another source comes back with the station's address. -/
theorem foreign_source_lost : ∃ sent c rx f' rx', openCoalesce (etherFrom 0x30) = some (sent, c) ∧
    sent.encrypt = .noPrivacy ∧ OneFragment 2346 sent ((etherFrom 0x30).drop ethHlen).length ∧
    OverAir ⟨0, rfl⟩ 1 c (airFrame c) ∧ validateRecvDataFrame .noPrivacy (airFrame c) = some rx ∧
    wlanhdrToEthhdr rx (airFrame c) = some (f', rx') ∧ f'.bytes ≠ etherFrom 0x30 := by
  have run : (openCoalesce (etherFrom 0x30)).bind (fun (sent, c) =>
      (validateRecvDataFrame .noPrivacy (airFrame c)).bind fun rx =>
        (wlanhdrToEthhdr rx (airFrame c)).map fun (f', _) =>
          decide (sent.encrypt = .noPrivacy ∧ OneFragment 2346 sent ((etherFrom 0x30).drop ethHlen).length ∧
            f'.bytes ≠ etherFrom 0x30)) = some true := by decide +kernel
  obtain ⟨⟨sent, c⟩, sends, run⟩ := Option.bind_eq_some_iff.mp run
  obtain ⟨rx, valid, run⟩ := Option.bind_eq_some_iff.mp run
  obtain ⟨⟨f', rx'⟩, converted, holds⟩ := Option.map_eq_some_iff.mp run
  obtain ⟨plain, one, lost⟩ := of_decide_eq_true holds
  exact ⟨sent, c, rx, f', rx', sends, plain, one, ⟨rfl, rfl⟩, valid, converted, lost⟩

theorem ethernet_over_air_own : ∃ sent c rx f' rx', openCoalesce (etherFrom 0x10) = some (sent, c) ∧
    validateRecvDataFrame .noPrivacy (airFrame c) = some rx ∧
    wlanhdrToEthhdr rx (airFrame c) = some (f', rx') ∧ f'.bytes = etherFrom 0x10 := by
  have run : (openCoalesce (etherFrom 0x10)).map (fun (sent, _) =>
      decide (sent.encrypt = .noPrivacy ∧ OneFragment 2346 sent ((etherFrom 0x10).drop ethHlen).length)) =
      some true := by decide +kernel
  obtain ⟨⟨sent, c⟩, sends, holds⟩ := Option.map_eq_some_iff.mp run
  obtain ⟨plain, one⟩ := of_decide_eq_true holds
  obtain ⟨sent', made, coalesced⟩ := Option.bind_eq_some_iff.mp sends
  obtain ⟨c', done, same⟩ := Option.map_eq_some_iff.mp coalesced
  obtain ⟨rfl, rfl⟩ := Prod.mk.inj same
  obtain ⟨rx, f', rx', valid, converted, -, back⟩ := ethernet_over_air (f := airFrame c') (by decide)
    (Prod.ext made rfl) plain one done ⟨rfl, rfl⟩ .noPrivacy
  exact ⟨sent', c', rx, f', rx', sends, valid, converted, back.mpr (Or.inr (by decide))⟩

end Vmac.Transmit
