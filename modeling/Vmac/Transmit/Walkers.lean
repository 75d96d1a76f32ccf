/-
# Vmac.Transmit.Walkers -- who walks over the fragments: rtw_xmit.c, rtw_security.c, rtl8812au_xmit.c

`rtw_xmitframe_coalesce` writes the MPDUs of an MSDU.  `xmitframe_addmic`, the encryption
functions and `rtw_dump_xframe` find them again, each with a computation of its own.

* `WalkersAgree`: every walker visits the MPDUs that were written.
* `walkers_agree_iff`: when they do.
-/
import Vmac.Transmit.PacketNumber

namespace Vmac.Transmit

open Security Theory.Michael

set_option autoImplicit false

/-! ## The loops -/

section Walks

variable (fragLen : Nat) (pattrib : PktAttrib) (lastTxcmdsz : Nat)

/-- The loop of the encryption functions over the last `n` fragments: `pframe` and the length of
the payload that is encrypted. -/
def encryptWalk : Nat → Nat → List (Nat × Nat)
  | 0, _ => []
  | n + 1, pframe =>
      if n = 0 then [(pframe, lastTxcmdsz - pattrib.hdrlen - pattrib.ivLen - pattrib.icvLen)]
      else
        (pframe, fragLen - pattrib.hdrlen - pattrib.ivLen - pattrib.icvLen) ::
          encryptWalk n (rnd4 (pframe + fragLen))

/-- `rtw_wep_encrypt`. -/
def wepEncryptWalk : Nat → Nat → List (Nat × Nat) := encryptWalk fragLen pattrib lastTxcmdsz

/-- `rtw_tkip_encrypt`. -/
def tkipEncryptWalk : Nat → Nat → List (Nat × Nat) := encryptWalk fragLen pattrib lastTxcmdsz

/-- `rtw_aes_encrypt`. -/
def aesEncryptWalk : Nat → Nat → List (Nat × Nat) := encryptWalk fragLen pattrib lastTxcmdsz

/-- `xmitframe_swencrypt`: what the function for the cipher walks over, if there is one. -/
def swencryptWalk (nrFrags pframe : Nat) : Option (List (Nat × Nat)) :=
  if pattrib.bswenc then
    match pattrib.encrypt with
    | .wep40 | .wep104 => some (wepEncryptWalk fragLen pattrib lastTxcmdsz nrFrags pframe)
    | .tkip => some (tkipEncryptWalk fragLen pattrib lastTxcmdsz nrFrags pframe)
    | .aes => some (aesEncryptWalk fragLen pattrib lastTxcmdsz nrFrags pframe)
    | .noPrivacy | .tkipWtmic | .sms4 | .wepWpaMixed => none
  else none

/-- `rtw_usb_bulk_size_boundary`. -/
def usbBulkSizeBoundary (bulkSize bufLen : Nat) : Bool := bufLen % bulkSize = 0

/-- The loop of `rtw_dump_xframe` over the last `n` fragments: where the device finds an MPDU, and
its size. -/
def dumpWalk (swEncrypt : Bool) (bulkSize : Nat) : Nat → Nat → List (Nat × Nat)
  | 0, _ => []
  | n + 1, memAddr =>
      let sz := if n = 0 then lastTxcmdsz else fragLen - 4 - if swEncrypt then 0 else pattrib.icvLen
      let pull := !usbBulkSizeBoundary bulkSize (txdescSize + sz)
      let memAddr := if pull then memAddr + packetOffsetSz else memAddr
      let wSz := if pull then sz + txdescSize else sz + txdescSize + packetOffsetSz
      (memAddr + (wSz - sz), sz) :: dumpWalk swEncrypt bulkSize n (rnd4 (memAddr + wSz))

/-- The packet offset is there or is pulled, the MPDU is at the same place. -/
theorem dumpWalk_succ (swEncrypt : Bool) (bulkSize n memAddr : Nat) :
    dumpWalk fragLen pattrib lastTxcmdsz swEncrypt bulkSize (n + 1) memAddr =
      let sz := if n = 0 then lastTxcmdsz else fragLen - 4 - if swEncrypt then 0 else pattrib.icvLen
      (memAddr + 48, sz) ::
        dumpWalk fragLen pattrib lastTxcmdsz swEncrypt bulkSize n (rnd4 (memAddr + 48 + sz)) := by
  rw [dumpWalk]
  dsimp only
  generalize (if n = 0 then lastTxcmdsz else fragLen - 4 - if swEncrypt then 0 else pattrib.icvLen) = sz
  cases usbBulkSizeBoundary bulkSize (txdescSize + sz) with
  | false =>
      have behind : memAddr + packetOffsetSz + (sz + txdescSize - sz) = memAddr + 48 := by
        simp only [packetOffsetSz, txdescSize]
        omega
      have next : memAddr + packetOffsetSz + (sz + txdescSize) = memAddr + 48 + sz := by
        simp only [packetOffsetSz, txdescSize]
        omega
      simp only [Bool.not_false, if_true, behind, next]
  | true =>
      have behind : memAddr + (sz + txdescSize + packetOffsetSz - sz) = memAddr + 48 := by
        simp only [packetOffsetSz, txdescSize]
        omega
      have next : memAddr + (sz + txdescSize + packetOffsetSz) = memAddr + 48 + sz := by
        simp only [packetOffsetSz, txdescSize]
        omega
      simp only [Bool.not_true, Bool.false_eq_true, if_false, behind, next]

@[simp] theorem length_dumpWalk (swEncrypt : Bool) (bulkSize n memAddr : Nat) :
    (dumpWalk fragLen pattrib lastTxcmdsz swEncrypt bulkSize n memAddr).length = n := by
  induction n generalizing memAddr with
  | zero => rfl
  | succ n ih => simp only [dumpWalk, List.length_cons, ih]

@[simp] theorem length_encryptWalk (n pframe : Nat) :
    (encryptWalk fragLen pattrib lastTxcmdsz n pframe).length = n := by
  induction n generalizing pframe with
  | zero => rfl
  | succ n ih =>
      unfold encryptWalk
      split
      · rename_i last
        subst last
        rfl
      · rw [List.length_cons, ih]

theorem swencryptWalk_eq (nrFrags pframe : Nat) :
    swencryptWalk fragLen pattrib lastTxcmdsz nrFrags pframe =
      if pattrib.bswenc ∧ pattrib.encrypt.isCipher
        then some (encryptWalk fragLen pattrib lastTxcmdsz nrFrags pframe) else none := by
  unfold swencryptWalk
  cases pattrib.bswenc with
  | false => simp
  | true => cases pattrib.encrypt <;> rfl

end Walks

/-! ## What they should find -/

/-- For every MPDU an address `before` bytes behind its start, and the length of its payload with
`extra` bytes more; the last one has the MIC. -/
def extents (before extra mic : Nat) : List Mpdu → List (Nat × Nat)
  | [] => []
  | [mpdu] => [(mpdu.memStart + before, mpdu.payload.length + extra + mic)]
  | mpdu :: next :: later =>
      (mpdu.memStart + before, mpdu.payload.length + extra) :: extents before extra mic (next :: later)

@[simp] theorem length_extents (before extra mic : Nat) (mpdus : List Mpdu) :
    (extents before extra mic mpdus).length = mpdus.length := by
  induction mpdus using extents.induct with
  | case1 => rfl
  | case2 mpdu => rfl
  | case3 mpdu next later ih => simp only [extents, List.length_cons, ih]

theorem head_extents (before extra mic : Nat) (mpdu : Mpdu) (later : List Mpdu) :
    (extents before extra mic (mpdu :: later)).head? =
      some (mpdu.memStart + before, mpdu.payload.length + extra + if later = [] then mic else 0) := by
  cases later <;> rfl

/-- The address behind the last payload. -/
def payloadEnd (pattrib : PktAttrib) : List Mpdu → Nat
  | [] => 0
  | [mpdu] => mpdu.memStart + pattrib.hdrlen + pattrib.ivLen + mpdu.payload.length
  | _ :: next :: later => payloadEnd pattrib (next :: later)

/-- The source address of a frame: the header of an access point has it in the third address. -/
def frameSa (pmlmepriv : Mlme) (pattrib : PktAttrib) : MacAddr :=
  if pmlmepriv.fwState = .ap then pattrib.src else pattrib.ta

/-- The TKIP MIC is computed over this. -/
def micText (pmlmepriv : Mlme) (pattrib : PktAttrib) (msdu : List UInt8) : List UInt8 :=
  List.ofFn pattrib.dst ++ List.ofFn (frameSa pmlmepriv pattrib) ++ micPriority pattrib ++
    (putSnap pattrib.etherType ++ msdu)

/-- Every walker visits the MPDUs that are in the buffer, and takes all of each payload. -/
structure WalkersAgree (psecuritypriv : SecurityPriv) (fragLen : Nat) (pmlmepriv : Mlme) (pattrib : PktAttrib)
    (pktOffset bulkSize : Nat) (buf : XmitBuf) (msdu : List UInt8) (c : Coalesced) : Prop where
  addmic : pattrib.encrypt = .tkip →
    (addmicWalk fragLen pattrib (loopTxcmdsz pattrib c.mpdus) c.nrFrags
      (buf.bufAddr + hwHdrOffset pktOffset)).1 = extents (pattrib.hdrlen + pattrib.ivLen) 0 0 c.mpdus
  mic : pattrib.encrypt = .tkip →
    bytesAt c.mem (payloadEnd pattrib c.mpdus) 8 =
      michael (micKey psecuritypriv pattrib) (micText pmlmepriv pattrib msdu)
  swencrypt : ∀ visited,
    swencryptWalk fragLen pattrib c.lastTxcmdsz c.nrFrags (buf.bufAddr + hwHdrOffset pktOffset) = some visited →
      visited = extents 0 0 (micLen pattrib) c.mpdus
  dump : dumpWalk fragLen pattrib c.lastTxcmdsz psecuritypriv.swEncrypt bulkSize c.nrFrags buf.bufAddr =
    extents 0 (pattrib.hdrlen + pattrib.ivLen + swIcvLen pattrib) (micLen pattrib) c.mpdus

/-! ## The attributes -/

theorem Privacy.lengths_of_plain {encrypt : Privacy} (plain : encrypt.isCipher = false) :
    encrypt.ivLen = 0 ∧ encrypt.icvLen = 0 := by
  cases encrypt with
  | noPrivacy | tkipWtmic | sms4 | wepWpaMixed => exact ⟨rfl, rfl⟩
  | wep40 | wep104 | tkip | aes => cases plain

theorem Privacy.icvLen_pos {encrypt : Privacy} (cipher : encrypt.isCipher = true) : 0 < encrypt.icvLen := by
  cases encrypt with
  | noPrivacy | tkipWtmic | sms4 | wepWpaMixed => cases cipher
  | wep40 | wep104 | tkip | aes => decide

/-- What `update_attrib` leaves for the walkers. -/
structure Attributed (psecuritypriv : SecurityPriv) (pattrib : PktAttrib) (pkt : List UInt8) : Prop where
  low : 24 ≤ pattrib.hdrlen
  high : pattrib.hdrlen ≤ 26
  ivLen : pattrib.ivLen = pattrib.encrypt.ivLen
  icvLen : pattrib.icvLen = pattrib.encrypt.icvLen
  bswenc : pattrib.bswenc = false → psecuritypriv.swEncrypt = true → pattrib.encrypt = .noPrivacy
  pktHdrlen : pattrib.pktHdrlen = ethHlen
  pktlen : pattrib.pktlen = pkt.length - ethHlen

theorem updateAttrib_attributed {pmlmepriv : Mlme} {psecuritypriv : SecurityPriv} {stas stas' : StaTable}
    {pattrib sent : PktAttrib} {pkt : List UInt8} {priority : UInt8}
    (made : updateAttrib pmlmepriv psecuritypriv stas pattrib pkt priority = (some sent, stas')) :
    Attributed psecuritypriv sent pkt := by
  unfold updateAttrib at made
  generalize etherAttrib pmlmepriv pattrib pkt = ether at made
  dsimp only at made
  split at made
  · cases made
  · rename_i psta found
    split at made
    · cases made
    · cases ok : secInfoOk psecuritypriv { ether with pktlen := pkt.length - ethHlen } psta with
      | false =>
          obtain ⟨dropped, failed, -⟩ := updateAttribSecInfo_fail psecuritypriv _ psta ok
          rw [failed] at made
          cases made
      | true =>
          obtain ⟨sec, drawn, attrs⟩ := updateAttribSecInfo_ok psecuritypriv _ psta ok
          rw [drawn] at made
          obtain rfl := Option.some.inj (Prod.mk.inj made).1
          have shape := phyAttrib_shape pmlmepriv psta priority sec
          have low : 24 ≤ (phyAttrib pmlmepriv psta priority sec).hdrlen := by omega
          have high : (phyAttrib pmlmepriv psta priority sec).hdrlen ≤ 26 := by omega
          refine ⟨low, high, attrs.ivLen, attrs.icvLen, fun hardware software => ?_, rfl, attrs.pktlen⟩
          have both := attrs.bswenc.symm.trans hardware
          have plain : sec.encrypt = .noPrivacy := by simpa [softwareEncrypts, software] using both
          exact plain

/-! ## One fragment -/

theorem rnd4_of_aligned {x : Nat} (aligned : x % 4 = 0) : rnd4 x = x := by
  unfold rnd4
  rw [if_pos aligned]
  omega

/-- Coalescing starts at a word: the buffer is aligned, and the descriptor and its offset are words. -/
theorem memStart_aligned (buf : XmitBuf) (pktOffset : Nat) :
    rnd4 (buf.bufAddr + hwHdrOffset pktOffset) = buf.bufAddr + hwHdrOffset pktOffset := by
  apply rnd4_of_aligned
  have aligned := buf.aligned
  simp only [hwHdrOffset, txdescSize, packetOffsetSz]
  omega

section Single

variable {psecuritypriv : SecurityPriv} {fragLen : Nat} {pmlmepriv : Mlme} {pattrib : PktAttrib}
  {seqnum pktOffset bulkSize : Nat} {buf : XmitBuf} {pkt : List UInt8} {mem : Mem} {c : Coalesced}

/-- The addresses for the MIC are in the header as `rtw_make_wlanhdr` writes them. -/
theorem micAddrs_single {hdr : List UInt8} {mpdu : Mpdu} (attrs : Attributed psecuritypriv pattrib pkt)
    (made : makeWlanhdr pmlmepriv pattrib seqnum = some hdr) :
    micAddrs (singleMem pattrib hdr mpdu mem) mpdu.memStart =
      List.ofFn pattrib.dst ++ List.ofFn (frameSa pmlmepriv pattrib) := by
  obtain ⟨ds, addr1, addr2, addr3, qos, addrs, -, control, first, second, third⟩ :=
    singleMem_front mpdu mem attrs.low attrs.high made
  obtain ⟨toDs, fromDs⟩ := wlanhdrFc_and pattrib ds
  unfold micAddrs frameSa
  rw [control, (singleFc_and _).1, (singleFc_and _).2, toDs, fromDs, bytesAt_eq_ofFn first,
    bytesAt_eq_ofFn second, bytesAt_eq_ofFn third]
  unfold wlanhdrAddrs at addrs
  cases state : pmlmepriv.fwState with
  | station =>
      rw [state] at addrs
      cases addrs
      rw [if_pos (by decide), if_neg (by decide), if_neg (by decide)]
  | ap =>
      rw [state] at addrs
      cases addrs
      rw [if_neg (by decide), if_pos (by decide), if_pos rfl]
  | adhoc =>
      rw [state] at addrs
      cases addrs
      rw [if_neg (by decide), if_neg (by decide), if_neg (by decide)]
  | other =>
      rw [state] at addrs
      cases addrs

/-- The MIC of an MSDU that is not fragmented. -/
theorem mic_single {hdr : List UInt8} {mpdu : Mpdu} {msdu : List UInt8} {mem' : Mem} {lastTxcmdsz : Nat}
    (attrs : Attributed psecuritypriv pattrib pkt) (made : makeWlanhdr pmlmepriv pattrib seqnum = some hdr)
    (written : mpdu = makeMpdu pattrib (buf.bufAddr + hwHdrOffset pktOffset) (putSnap pattrib.etherType) msdu)
    (last : lastTxcmdsz = pattrib.hdrlen + pattrib.ivLen + mpdu.payload.length + swIcvLen pattrib)
    (mic : xmitframeAddmic psecuritypriv fragLen pattrib (buf.bufAddr + hwHdrOffset pktOffset) 1 lastTxcmdsz
      (singleMem pattrib hdr mpdu mem) = some mem') :
    bytesAt mem' (mpdu.memStart + pattrib.hdrlen + pattrib.ivLen + mpdu.payload.length) 8 =
      michael (micKey psecuritypriv pattrib) (micText pmlmepriv pattrib msdu) := by
  have start : buf.bufAddr + hwHdrOffset pktOffset = mpdu.memStart := by
    rw [written]
    rfl
  have aligned := memStart_aligned buf pktOffset
  rw [start] at aligned mic
  have length : lastTxcmdsz - pattrib.hdrlen - pattrib.ivLen - swIcvLen pattrib = mpdu.payload.length := by
    omega
  have walk : addmicWalk fragLen pattrib lastTxcmdsz 1 mpdu.memStart =
      ([(mpdu.memStart + pattrib.hdrlen + pattrib.ivLen, mpdu.payload.length)],
        mpdu.memStart + pattrib.hdrlen + pattrib.ivLen + mpdu.payload.length) := by
    simp only [addmicWalk, if_true, aligned, length]
  have body := singleMem_body pattrib (by have := attrs.low; omega) hdr mpdu mem
  have found : bytesAt (singleMem pattrib hdr mpdu mem) (mpdu.memStart + pattrib.hdrlen + pattrib.ivLen)
      mpdu.payload.length = mpdu.payload := by
    have iv : mpdu.iv.length = pattrib.ivLen := by
      rw [written]
      exact List.takeD_length ..
    have lengths : mpdu.body.length = pattrib.ivLen + (mpdu.payload.length + mpdu.icv.length) := by
      rw [← iv, Mpdu.body, List.length_append, List.length_append, Nat.add_assoc]
    rw [lengths, bytesAt_add, bytesAt_add, Mpdu.body, List.append_assoc] at body
    have behind := (List.append_inj body (by rw [length_bytesAt, iv])).2
    exact (List.append_inj behind (length_bytesAt ..)).1
  have payload : mpdu.payload = putSnap pattrib.etherType ++ msdu := by
    rw [written]
    rfl
  unfold xmitframeAddmic at mic
  split at mic
  · cases mic
  · rw [walk] at mic
    obtain rfl := Option.some.inj mic
    have message : micMessage pattrib (singleMem pattrib hdr mpdu mem) mpdu.memStart
        [(mpdu.memStart + pattrib.hdrlen + pattrib.ivLen, mpdu.payload.length)] =
        micText pmlmepriv pattrib msdu := by
      rw [micMessage, micAddrs_single attrs made, List.map_singleton, List.flatten_singleton]
      dsimp only
      rw [found, payload]
      rfl
    have eight := length_michael (micKey psecuritypriv pattrib) (micText pmlmepriv pattrib msdu)
    rw [message, secmic_eq, ← eight]
    exact bytesAt_splice _ _ _

/-- With one fragment all agree. -/
theorem walkers_agree_single (attrs : Attributed psecuritypriv pattrib pkt)
    (done : xmitframeCoalesce psecuritypriv fragLen pmlmepriv pattrib seqnum pktOffset buf pkt mem = some c)
    (one : OneFragment fragLen pattrib (pkt.drop pattrib.pktHdrlen).length) (offset : hwHdrOffset pktOffset = 48) :
    WalkersAgree psecuritypriv fragLen pmlmepriv pattrib pktOffset bulkSize buf (pkt.drop pattrib.pktHdrlen) c := by
  have whole : pattrib.pktlen = (pkt.drop pattrib.pktHdrlen).length := by
    rw [attrs.pktlen, attrs.pktHdrlen, List.length_drop]
  obtain ⟨hdr, mpdu, made, written, mpdus, frags, size, last, plain, tkip⟩ := xmitframeCoalesce_single one whole done
  have start : buf.bufAddr + hwHdrOffset pktOffset = mpdu.memStart := by
    rw [written]
    rfl
  have aligned := memStart_aligned buf pktOffset
  rw [start] at aligned
  refine ⟨fun enc => ?_, fun enc => ?_, fun visited walk => ?_, ?_⟩
  · rw [frags, mpdus, start]
    rw [mpdus] at size
    simp only [addmicWalk, if_true, aligned, extents, size]
    congr 2
    · omega
    · omega
  · rw [mpdus]
    exact mic_single attrs made written size (tkip enc)
  · rw [swencryptWalk_eq] at walk
    split at walk
    · rename_i soft
      obtain rfl := Option.some.inj walk
      have icv : swIcvLen pattrib = pattrib.icvLen := by rw [swIcvLen, if_pos soft.1]
      rw [frags, mpdus, start, last, size]
      simp only [encryptWalk, if_true, extents, Nat.add_zero]
      congr 2
      omega
    · cases walk
  · rw [frags, mpdus, dumpWalk_succ, last, size]
    simp only [if_true, extents, dumpWalk]
    congr 2
    · omega
    · omega

end Single

/-! ## Several fragments -/

section Several

variable {fragLen : Nat} {pattrib : PktAttrib} {hw : Nat}

theorem payload_makeMpdu (memStart : Nat) (llc data : List UInt8) :
    (makeMpdu pattrib memStart llc data).payload.length = llc.length + data.length := List.length_append

/-- A fragment that is not the last one fills `frag_len - 4` bytes. -/
theorem fragment_full {llcSz : Nat} {rest : List UInt8} (unicast : isMcast pattrib.ra = false)
    (more : rest.drop (readLen fragLen pattrib llcSz rest) ≠ []) :
    pattrib.hdrlen + pattrib.ivLen + llcSz + (rest.take (readLen fragLen pattrib llcSz rest)).length +
      swIcvLen pattrib + 4 = fragLen := by
  rw [Ne, drop_readLen_eq_nil unicast, not_or] at more
  rw [readLen_unicast unicast, if_neg more.1, List.length_take]
  unfold mpduLen at more ⊢
  omega

/-- There is a first MPDU, and it is where the loop starts. -/
theorem fragments_start {fuel frgInx memStart : Nat} {rest : List UInt8} {mpdus : List Mpdu}
    (done : fragments fragLen pattrib hw fuel frgInx memStart rest = some mpdus) :
    ∃ first later, mpdus = first :: later ∧ first.memStart = memStart := by
  cases fuel with
  | zero => cases done
  | succ fuel =>
      unfold fragments at done
      dsimp only at done
      split at done
      · obtain rfl := Option.some.inj done
        exact ⟨_, [], rfl, rfl⟩
      · obtain ⟨later, _, rfl⟩ := Option.map_eq_some_iff.mp done
        exact ⟨_, later, rfl, rfl⟩

/-- The first of several MPDUs. -/
theorem fragments_first {memStart fuel : Nat} {rest : List UInt8} {mpdus : List Mpdu}
    (several : ¬OneFragment fragLen pattrib rest.length)
    (done : fragments fragLen pattrib hw (fuel + 1) 0 memStart rest = some mpdus) :
    ∃ first next later, mpdus = first :: next :: later ∧
      pattrib.hdrlen + pattrib.ivLen + first.payload.length + swIcvLen pattrib + 4 = fragLen := by
  rw [OneFragment, not_or, not_or] at several
  have unicast : isMcast pattrib.ra = false := by simpa using several.1
  have more : rest.drop (readLen fragLen pattrib 8 rest) ≠ [] := by
    rw [Ne, drop_readLen_eq_nil unicast, not_or]
    exact several.2
  have full := fragment_full unicast more
  unfold fragments at done
  dsimp only at done
  rw [length_fragmentLlc_zero, if_neg (by simp [unicast, more])] at done
  obtain ⟨later, rest_done, rfl⟩ := Option.map_eq_some_iff.mp done
  obtain ⟨next, later, rfl, -⟩ := fragments_start rest_done
  refine ⟨_, next, later, rfl, ?_⟩
  rw [payload_makeMpdu, length_fragmentLlc_zero]
  omega

/-- Without encryption `rtw_dump_xframe` finds the fragments. -/
theorem dumpWalk_fragments (plain : pattrib.ivLen = 0 ∧ pattrib.icvLen = 0) (swEncrypt : Bool)
    (bulkSize lastTxcmdsz : Nat) {fuel frgInx memAddr : Nat} {rest : List UInt8} {mpdus : List Mpdu}
    (done : fragments fragLen pattrib 48 fuel frgInx (memAddr + 48) rest = some mpdus)
    (last : ∀ mpdu, mpdus.getLast? = some mpdu → lastTxcmdsz = pattrib.hdrlen + mpdu.payload.length) :
    dumpWalk fragLen pattrib lastTxcmdsz swEncrypt bulkSize mpdus.length memAddr =
      extents 0 pattrib.hdrlen 0 mpdus := by
  induction fuel generalizing frgInx memAddr rest mpdus with
  | zero => cases done
  | succ fuel ih =>
      have icv : swIcvLen pattrib = 0 := by
        unfold swIcvLen
        split
        · exact plain.2
        · rfl
      unfold fragments at done
      dsimp only at done
      generalize llc : fragmentLlc pattrib frgInx = header at done
      split at done
      · obtain rfl := Option.some.inj done
        rw [List.length_singleton, dumpWalk_succ, if_pos rfl, last _ rfl]
        simp only [extents, dumpWalk, Nat.add_zero, Nat.add_comm pattrib.hdrlen]
        rfl
      · rename_i goes_on
        rw [not_or] at goes_on
        obtain ⟨later, rest_done, rfl⟩ := Option.map_eq_some_iff.mp done
        have full := fragment_full (by simpa using goes_on.1) goes_on.2
        rw [plain.1, icv] at full
        obtain ⟨next, others, rfl, -⟩ := fragments_start rest_done
        have size : fragLen - 4 - (if swEncrypt then 0 else pattrib.icvLen) = fragLen - 4 := by
          rw [plain.2]
          split <;> rfl
        rw [length_body, plain.1, icv] at rest_done
        have filled : memAddr + 48 + pattrib.hdrlen + (0 + header.length +
            (rest.take (readLen fragLen pattrib header.length rest)).length + 0) = memAddr + 48 + (fragLen - 4) := by
          omega
        rw [filled] at rest_done
        have after := ih rest_done (fun mpdu found => last mpdu (by rw [List.getLast?_cons_cons]; exact found))
        rw [List.length_cons, dumpWalk_succ, if_neg (by simp), size, extents, payload_makeMpdu]
        dsimp only
        rw [after]
        congr 2
        omega

/-- Only the first fragment has the LLC header. -/
theorem fragments_llc {fuel frgInx memStart : Nat} {rest : List UInt8} {mpdus : List Mpdu}
    (later : frgInx ≠ 0)
    (done : fragments fragLen pattrib hw fuel frgInx memStart rest = some mpdus) :
    ∀ mpdu ∈ mpdus, mpdu.llc = [] := by
  induction fuel generalizing frgInx memStart rest mpdus with
  | zero => cases done
  | succ fuel ih =>
      unfold fragments at done
      dsimp only at done
      rw [fragmentLlc_later later] at done
      split at done
      · obtain rfl := Option.some.inj done
        intro mpdu inside
        obtain rfl := List.mem_singleton.mp inside
        rfl
      · obtain ⟨others, rest_done, rfl⟩ := Option.map_eq_some_iff.mp done
        intro mpdu inside
        rcases List.mem_cons.mp inside with rfl | inside
        · rfl
        · exact ih (Nat.succ_ne_zero _) rest_done mpdu inside

/-- `last_txcmdsz` is the size of the last MPDU as long as `nr_frags` counts the MPDUs. -/
theorem loopTxcmdsz_last {fuel memStart : Nat} {rest : List UInt8} {mpdus : List Mpdu} {mpdu : Mpdu}
    (done : fragments fragLen pattrib hw fuel 0 memStart rest = some mpdus) (few : mpdus.length < 256)
    (last : mpdus.getLast? = some mpdu) :
    loopTxcmdsz pattrib mpdus = pattrib.hdrlen + pattrib.ivLen + swIcvLen pattrib + mpdu.payload.length := by
  have counted : (if mpdus.length % 256 = 1 then mpdu.llc.length else 0) = mpdu.llc.length := by
    cases fuel with
    | zero => cases done
    | succ fuel =>
        unfold fragments at done
        dsimp only at done
        split at done
        · obtain rfl := Option.some.inj done
          rfl
        · obtain ⟨later, rest_done, rfl⟩ := Option.map_eq_some_iff.mp done
          obtain ⟨next, others, rfl, -⟩ := fragments_start rest_done
          rw [List.getLast?_cons_cons] at last
          rw [fragments_llc (Nat.succ_ne_zero 0) rest_done mpdu (List.mem_of_getLast? last)]
          split <;> rfl
  rw [loopTxcmdsz, last]
  dsimp only
  rw [counted, Mpdu.payload, List.length_append]
  omega

end Several

/-! ## When they agree -/

section Agree

variable {psecuritypriv : SecurityPriv} {fragLen : Nat} {pmlmepriv : Mlme} {sent : PktAttrib}
  {seqnum pktOffset bulkSize : Nat} {buf : XmitBuf} {pkt : List UInt8} {mem : Mem} {c : Coalesced}

/-- Walkers that agree find the first MPDU behind the packet offset, and count the MPDUs. -/
theorem WalkersAgree.offset
    (done : xmitframeCoalesce psecuritypriv fragLen pmlmepriv sent seqnum pktOffset buf pkt mem = some c)
    (agree : WalkersAgree psecuritypriv fragLen pmlmepriv sent pktOffset bulkSize buf (pkt.drop ethHlen) c) :
    hwHdrOffset pktOffset = 48 ∧ c.nrFrags = c.mpdus.length := by
  obtain ⟨first, later, mpdus, start⟩ := fragments_start (xmitframeCoalesce_fragments done).1
  have count : c.nrFrags = c.mpdus.length := by
    have lengths := congrArg List.length agree.dump
    rwa [length_dumpWalk, length_extents] at lengths
  have heads := congrArg List.head? agree.dump
  rw [count, mpdus, List.length_cons, dumpWalk_succ, head_extents, start] at heads
  have addresses := congrArg Prod.fst (Option.some.inj heads)
  dsimp only at addresses
  omega

theorem walkers_agree_plain (attrs : Attributed psecuritypriv sent pkt)
    (done : xmitframeCoalesce psecuritypriv fragLen pmlmepriv sent seqnum pktOffset buf pkt mem = some c)
    (offset : hwHdrOffset pktOffset = 48) (plain : sent.encrypt.isCipher = false)
    (few : fragmentCount fragLen sent (pkt.drop ethHlen).length < 256) :
    WalkersAgree psecuritypriv fragLen pmlmepriv sent pktOffset bulkSize buf (pkt.drop ethHlen) c := by
  obtain ⟨hdr, mem', -, -, frags, last, -, -⟩ := xmitframeCoalesce_some done
  obtain ⟨written, count⟩ := xmitframeCoalesce_fragments done
  rw [attrs.pktHdrlen] at written count
  rw [offset] at written
  have lengths : sent.ivLen = 0 ∧ sent.icvLen = 0 := by
    rw [attrs.ivLen, attrs.icvLen]
    exact Privacy.lengths_of_plain plain
  have icv : swIcvLen sent = 0 := by
    unfold swIcvLen
    split
    · exact lengths.2
    · rfl
  have other : sent.encrypt ≠ .tkip := by
    intro tkip
    rw [tkip] at plain
    cases plain
  have mic : micLen sent = 0 := if_neg other
  refine ⟨fun tkip => absurd tkip other, fun tkip => absurd tkip other, fun visited walk => ?_, ?_⟩
  · rw [swencryptWalk_eq, plain, if_neg (by simp)] at walk
    cases walk
  · rw [frags, Nat.mod_eq_of_lt (by omega), lengths.1, icv, mic]
    refine dumpWalk_fragments lengths _ _ _ written fun mpdu found => ?_
    rw [last, loopTxcmdsz_last written (by omega) found, lengths.1, icv, mic]
    omega

/-- With several fragments and a cipher, `rtw_dump_xframe` or the encryption function is wrong about the size
of the first. -/
theorem WalkersAgree.plain (attrs : Attributed psecuritypriv sent pkt)
    (done : xmitframeCoalesce psecuritypriv fragLen pmlmepriv sent seqnum pktOffset buf pkt mem = some c)
    (several : ¬OneFragment fragLen sent (pkt.drop ethHlen).length)
    (agree : WalkersAgree psecuritypriv fragLen pmlmepriv sent pktOffset bulkSize buf (pkt.drop ethHlen) c) :
    sent.encrypt.isCipher = false := by
  rw [← Bool.not_eq_true]
  intro cipher
  have low := attrs.low
  have icv := Privacy.icvLen_pos cipher
  rw [← attrs.icvLen] at icv
  obtain ⟨written, -⟩ := xmitframeCoalesce_fragments done
  rw [attrs.pktHdrlen] at written
  obtain ⟨first, next, later, mpdus, full⟩ := fragments_first several written
  obtain ⟨-, count⟩ := agree.offset done
  rw [mpdus, List.length_cons, List.length_cons] at count
  have software : psecuritypriv.swEncrypt = true := by
    rw [← Bool.not_eq_false]
    intro hardware
    have heads := congrArg List.head? agree.dump
    rw [count, mpdus, dumpWalk_succ, head_extents, hardware] at heads
    have sizes := congrArg Prod.snd (Option.some.inj heads)
    simp at sizes
    omega
  have bswenc : sent.bswenc = true := by
    rw [← Bool.not_eq_false]
    intro hardware
    rw [attrs.bswenc hardware software] at cipher
    cases cipher
  have walk := agree.swencrypt _ (by rw [swencryptWalk_eq, if_pos ⟨bswenc, cipher⟩])
  have heads := congrArg List.head? walk
  rw [count, mpdus, encryptWalk, if_neg (by simp), head_extents] at heads
  have sizes := congrArg Prod.snd (Option.some.inj heads)
  rw [swIcvLen, if_pos bswenc] at full
  simp at sizes
  omega

/-- The walkers agree for the packet offset of a frame that is not aggregated, and with one fragment; with
several when nothing is encrypted and `nr_frags`, a byte, counts them. -/
theorem walkers_agree_iff {stas stas' : StaTable} {pattrib : PktAttrib} {priority : UInt8}
    (made : updateAttrib pmlmepriv psecuritypriv stas pattrib pkt priority = (some sent, stas'))
    (done : xmitframeCoalesce psecuritypriv fragLen pmlmepriv sent seqnum pktOffset buf pkt mem = some c) :
    WalkersAgree psecuritypriv fragLen pmlmepriv sent pktOffset bulkSize buf (pkt.drop ethHlen) c ↔
      hwHdrOffset pktOffset = 48 ∧ (OneFragment fragLen sent (pkt.drop ethHlen).length ∨
        sent.encrypt.isCipher = false ∧ fragmentCount fragLen sent (pkt.drop ethHlen).length < 256) := by
  have attrs := updateAttrib_attributed made
  constructor
  · intro agree
    obtain ⟨offset, count⟩ := agree.offset done
    refine ⟨offset, ?_⟩
    by_cases one : OneFragment fragLen sent (pkt.drop ethHlen).length
    · exact Or.inl one
    · obtain ⟨-, -, -, -, frags, -⟩ := xmitframeCoalesce_some done
      obtain ⟨-, length⟩ := xmitframeCoalesce_fragments done
      rw [attrs.pktHdrlen] at length
      exact Or.inr ⟨agree.plain attrs done one, by omega⟩
  · rintro ⟨offset, one | ⟨plain, few⟩⟩
    · rw [← attrs.pktHdrlen] at one ⊢
      exact walkers_agree_single attrs done one offset
    · exact walkers_agree_plain attrs done offset plain few

end Agree

/-! ## An access point with WEP -/

/-- A packet of `n` bytes for the first of the two stations. -/
def wepPkt (n : Nat) : List UInt8 := [2, 0, 0, 0, 0, 0, 0x10, 0, 0, 0, 0, 0, 0x08, 0x00] ++ List.replicate n 7

/-- The attributes and the buffer that the access point makes of a packet. -/
def wepCoalesce (fragLen : Nat) (pkt : List UInt8) : Option (PktAttrib × Coalesced) :=
  (updateAttrib wepAp.pmlmepriv wepAp.psecuritypriv twoStations blankAttrib pkt 0).1.bind fun sent =>
    (xmitframeCoalesce wepAp.psecuritypriv fragLen wepAp.pmlmepriv sent 0 1 .first pkt fun _ => 0).map
      fun c => (sent, c)

/-- With the smallest threshold, 300 bytes go out in two fragments; `rtw_wep_encrypt` takes four bytes more
than the first has. -/
theorem wep_fragment_overrun : ∃ sent c, wepCoalesce 256 (wepPkt 300) = some (sent, c) ∧
    ¬WalkersAgree wepAp.psecuritypriv 256 wepAp.pmlmepriv sent 1 512 ⟨0, rfl⟩ ((wepPkt 300).drop ethHlen) c := by
  have run : (wepCoalesce 256 (wepPkt 300)).map (fun (sent, c) =>
      decide (∀ visited, swencryptWalk 256 sent c.lastTxcmdsz c.nrFrags (0 + hwHdrOffset 1) = some visited →
        visited = extents 0 0 (micLen sent) c.mpdus)) = some false := by decide +kernel
  obtain ⟨⟨sent, c⟩, made, wrong⟩ := Option.map_eq_some_iff.mp run
  exact ⟨sent, c, made, fun agree => absurd agree.swencrypt (of_decide_eq_false wrong)⟩

theorem walkers_agree_iff_wep : ∃ sent c, wepCoalesce 256 (wepPkt 100) = some (sent, c) ∧
    WalkersAgree wepAp.psecuritypriv 256 wepAp.pmlmepriv sent 1 512 ⟨0, rfl⟩ ((wepPkt 100).drop ethHlen) c := by
  have run : (wepCoalesce 256 (wepPkt 100)).map (fun (sent, _) =>
      decide (OneFragment 256 sent ((wepPkt 100).drop ethHlen).length)) = some true := by decide +kernel
  obtain ⟨⟨sent, c⟩, sends, one⟩ := Option.map_eq_some_iff.mp run
  obtain ⟨sent', made, coalesced⟩ := Option.bind_eq_some_iff.mp sends
  obtain ⟨c', done, same⟩ := Option.map_eq_some_iff.mp coalesced
  obtain ⟨rfl, rfl⟩ := Prod.mk.inj same
  exact ⟨sent', c', sends, (walkers_agree_iff (Prod.ext made rfl) done).mpr
    ⟨by decide, Or.inl (of_decide_eq_true one)⟩⟩

end Vmac.Transmit
