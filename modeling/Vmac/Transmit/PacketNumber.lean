/-
# Vmac.Transmit.PacketNumber -- packet numbers under one key

The packet number is drawn once for an MSDU, from the record of the station or of the groups,
and its IV is copied into every fragment.  The WEP key is the key of the BSS.

* `packet_numbers_iff`: no packet number is used twice under one key, exactly when every MSDU
  that is encrypted goes out in one MPDU and no two records draw the same WEP IV.
-/
import Vmac.Theory.Counter
import Vmac.Transmit.Mic

namespace Vmac.Transmit

open Theory.Counter Theory.Bytes

set_option autoImplicit false

/-! ## Sending -/

/-- The key that an encryption function takes. -/
inductive KeyRef
  | dot11DefKey (index : Nat)
  | dot118021XGrpKey (keyid : Nat)
  | dot118021XUncstKey (ra : MacAddr)
  deriving DecidableEq

/-- `xmitframe_swencrypt`: the key of `rtw_wep_encrypt`, `rtw_tkip_encrypt` or `rtw_aes_encrypt`. -/
def swencryptKey (psecuritypriv : SecurityPriv) (encrypt : Privacy) (ra : MacAddr) : Option KeyRef :=
  match encrypt with
  | .wep40 | .wep104 => some (.dot11DefKey psecuritypriv.dot11PrivacyKeyIndex)
  | .tkip | .aes =>
      some (if isMcast ra then .dot118021XGrpKey psecuritypriv.dot118021XGrpKeyid
        -- `update_attrib_sec_info` copied it from the station record
        else .dot118021XUncstKey ra)
  | .noPrivacy | .tkipWtmic | .sms4 | .wepWpaMixed => none

/-- The packet number in an IV, the lowest byte first: three bytes for WEP, else six. -/
def packetNumber (encrypt : Privacy) (iv : List UInt8) : List UInt8 :=
  match encrypt with
  | .wep40 | .wep104 => iv.take 3
  | .tkip => [iv.getD 2 0, iv.getD 0 0, iv.getD 4 0, iv.getD 5 0, iv.getD 6 0, iv.getD 7 0]
  | .aes => [iv.getD 0 0, iv.getD 1 0, iv.getD 4 0, iv.getD 5 0, iv.getD 6 0, iv.getD 7 0]
  | .noPrivacy | .tkipWtmic | .sms4 | .wepWpaMixed => []

/-- The bytes of a packet number in an IV. -/
def Privacy.pnWidth (encrypt : Privacy) : Nat := if encrypt.isWep then 3 else 6

/-- The MPDUs of a frame that are encrypted: the key, and the packet number that they carry. -/
def swencrypted (psecuritypriv : SecurityPriv) (pattrib : PktAttrib) (c : Coalesced) :
    List (KeyRef × List UInt8) :=
  match swencryptKey psecuritypriv pattrib.encrypt pattrib.ra with
  | none => []
  | some key =>
      if pattrib.bswenc then
        (c.mpdus.take c.nrFrags).map fun mpdu => (key, packetNumber pattrib.encrypt mpdu.iv)
      else []

/-- The interface, its keys and the fragmentation threshold. -/
structure Interface where
  pmlmepriv : Mlme
  psecuritypriv : SecurityPriv
  fragLen : Nat

/-- An MSDU, and what else its transmission depends on. -/
structure Msdu where
  /-- The attributes before `update_attrib`. -/
  pattrib : PktAttrib
  pkt : List UInt8
  priority : UInt8
  seqnum : Nat
  pktOffset : Nat
  buf : XmitBuf
  mem : Security.Mem

/-- The encrypted MPDUs of an MSDU with its attributes. -/
def coalesceMsdu (i : Interface) (m : Msdu) (pattrib : PktAttrib) : List (KeyRef × List UInt8) :=
  match xmitframeCoalesce i.psecuritypriv i.fragLen i.pmlmepriv pattrib m.seqnum m.pktOffset m.buf m.pkt
      m.mem with
  | none => []
  | some c => swencrypted i.psecuritypriv pattrib c

/-- Attributes and coalescing of an MSDU: the station records, and the encrypted MPDUs. -/
def sendMsdu (i : Interface) (stas : StaTable) (m : Msdu) : StaTable × List (KeyRef × List UInt8) :=
  match updateAttrib i.pmlmepriv i.psecuritypriv stas m.pattrib m.pkt m.priority with
  | (none, stas) => (stas, [])
  | (some pattrib, stas) => (stas, coalesceMsdu i m pattrib)

/-- The encrypted MPDUs of a sequence of MSDUs. -/
def sendAll (i : Interface) : StaTable → List Msdu → List (KeyRef × List UInt8)
  | _, [] => []
  | stas, m :: ms => (sendMsdu i stas m).2 ++ sendAll i (sendMsdu i stas m).1 ms

/-! ## What an MSDU draws and sends -/

section Draw

variable (i : Interface) (m : Msdu) (psta : StaInfo)

/-- The attributes at the call of `update_attrib_sec_info`. -/
def secInput : PktAttrib :=
  { etherAttrib i.pmlmepriv m.pattrib m.pkt with pktlen := m.pkt.length - ethHlen }

/-- The address of the record for an MSDU. -/
def msduSta : MacAddr := staAddr (secInput i m).ra

def msduCipher : Privacy := cipherOf i.psecuritypriv (secInput i m) psta

/-- The MSDU draws an IV from the record. -/
def drawsIv : Bool :=
  psta.linked && secInfoOk i.psecuritypriv (secInput i m) psta && (msduCipher i m psta).isCipher

/-- The attributes that the number of MPDUs depends on. -/
def fragmentAttrib : PktAttrib :=
  let encrypt := msduCipher i m psta
  phyAttrib i.pmlmepriv psta m.priority
    { secInput i m with
      ivLen := encrypt.ivLen, icvLen := encrypt.icvLen,
      bswenc := encrypt != .noPrivacy && softwareEncrypts i.psecuritypriv (secInput i m) }

/-- The MSDU is encrypted in software, if it draws an IV. -/
def swEncrypts : Bool :=
  softwareEncrypts i.psecuritypriv (secInput i m) && i.pmlmepriv.fwState != .other &&
    !(msduCipher i m psta == .tkip &&
      (if isMcast (secInput i m).ra
        then i.psecuritypriv.dot118021XGrptxmickey i.psecuritypriv.dot118021XGrpKeyid
        else psta.dot11tkiptxmickey) == nullKey)

/-- The number of MPDUs that are encrypted; the code counts fragments in a byte. -/
def encryptedMpdus : Nat :=
  if swEncrypts i m psta then
    fragmentCount i.fragLen (fragmentAttrib i m psta) (m.pkt.length - ethHlen) % 256
  else 0

end Draw

/-- The record from which an MSDU draws. -/
def drawnFrom (i : Interface) (stas : StaTable) (m : Msdu) : Option MacAddr :=
  match stas (msduSta i m) with
  | none => none
  | some psta => if drawsIv i m psta then some (msduSta i m) else none

/-- What an MSDU sends that was given a value. -/
def emitted (i : Interface) (stas : StaTable) (d : Msdu × Nat) : List (KeyRef × List UInt8) :=
  match stas (msduSta i d.1) with
  | none => []
  | some psta =>
      match swencryptKey i.psecuritypriv (msduCipher i d.1 psta) (secInput i d.1).ra with
      | none => []
      | some key =>
          List.replicate (encryptedMpdus i d.1 psta)
            (key, toLe (msduCipher i d.1 psta).pnWidth d.2)

/-! ## The packet number of an IV -/

theorem tsc_eq (dot11txpn : UInt64) (k : Nat) :
    tsc dot11txpn k = UInt8.ofNat (dot11txpn.toNat / 256 ^ k % 256) :=
  UInt8.toNat_inj.mp (by simp [tsc])

/-- The packet number is read from the IV as it was drawn. -/
theorem packetNumber_drawIv {encrypt : Privacy} (cipher : encrypt.isCipher = true) (dot11txpn : UInt64)
    (keyidx : UInt8) :
    packetNumber encrypt ((encrypt.drawIv dot11txpn keyidx).takeD encrypt.ivLen 0) =
      toLe encrypt.pnWidth dot11txpn.toNat := by
  cases encrypt with
  | wep40 | wep104 =>
      show [tsc dot11txpn 0, tsc dot11txpn 1, tsc dot11txpn 2] = _
      simp [Privacy.pnWidth, Privacy.isWep, toLe, tsc_eq, Nat.div_div_eq_div_mul]
  | tkip | aes =>
      show [tsc dot11txpn 0, tsc dot11txpn 1, tsc dot11txpn 2, tsc dot11txpn 3, tsc dot11txpn 4,
        tsc dot11txpn 5] = _
      simp [Privacy.pnWidth, Privacy.isWep, toLe, tsc_eq, Nat.div_div_eq_div_mul]
  | noPrivacy | tkipWtmic | sms4 | wepWpaMixed => cases cipher

/-- A draw adds one, as far as the IV shows the counter. -/
theorem drawnPn_mod {encrypt : Privacy} (cipher : encrypt.isCipher = true) (dot11txpn : UInt64) :
    (encrypt.drawnPn dot11txpn).toNat % 256 ^ encrypt.pnWidth =
      (dot11txpn.toNat + 1) % 256 ^ encrypt.pnWidth := by
  have wraps (last : UInt64) (n : Nat) (divides : n ∣ 2 ^ 64) (full : n ∣ last.toNat + 1) :
      (nextPn last dot11txpn).toNat % n = (dot11txpn.toNat + 1) % n := by
    unfold nextPn
    split
    · rename_i same
      rw [same, Nat.mod_eq_zero_of_dvd full]
      exact Nat.zero_mod n
    · rw [UInt64.toNat_add]
      exact Nat.mod_mod_of_dvd _ divides
  cases encrypt with
  | wep40 | wep104 => exact wraps 0xffffff (256 ^ 3) (by decide) (by decide)
  | tkip | aes => exact wraps 0xffffffffffff (256 ^ 6) (by decide) (by decide)
  | noPrivacy | tkipWtmic | sms4 | wepWpaMixed => cases cipher

/-! ## The counters of the records -/

theorem isMcast_staAddr (ra : MacAddr) : isMcast (staAddr ra) = isMcast ra := by
  unfold staAddr
  split
  · rename_i group
    rw [group]
    rfl
  · rfl

/-- The cipher of a record: a frame that draws has it. -/
def recordCipher (psecuritypriv : SecurityPriv) (k : MacAddr) (psta : StaInfo) : Privacy :=
  getEncryAlgo psecuritypriv psta (isMcast k)

theorem cipherOf_eq_recordCipher {psecuritypriv : SecurityPriv} {pattrib : PktAttrib} {psta : StaInfo}
    (cipher : (cipherOf psecuritypriv pattrib psta).isCipher = true) :
    cipherOf psecuritypriv pattrib psta = recordCipher psecuritypriv (staAddr pattrib.ra) psta := by
  unfold recordCipher
  rw [isMcast_staAddr]
  unfold cipherOf chooseEncrypt at cipher ⊢
  dsimp only at cipher ⊢
  split at cipher
  · cases cipher
  · rename_i open_
    rw [if_neg open_]
    split at cipher
    · cases cipher
    · rename_i kept
      rw [if_neg kept]

/-- The records differ from the first ones in the packet number only, and that has come to `v`. -/
def Tracks (psecuritypriv : SecurityPriv) (stas cur : StaTable) (v : MacAddr → Nat) : Prop :=
  ∀ k, match stas k with
    | none => cur k = none
    | some psta => ∃ pn, cur k = some { psta with dot11txpn := pn } ∧
        pn.toNat % 256 ^ (recordCipher psecuritypriv k psta).pnWidth =
          v k % 256 ^ (recordCipher psecuritypriv k psta).pnWidth

/-- The counters of the records at the start. -/
def startPn (stas : StaTable) (k : MacAddr) : Nat :=
  match stas k with
  | none => 0
  | some psta => psta.dot11txpn.toNat

theorem tracks_start (psecuritypriv : SecurityPriv) (stas : StaTable) :
    Tracks psecuritypriv stas stas (startPn stas) := by
  intro k
  unfold startPn
  split
  · assumption
  · rename_i psta known
    exact ⟨psta.dot11txpn, known, rfl⟩

/-! ## One MSDU -/

section Step

variable (i : Interface) (m : Msdu) {psta : StaInfo} {sent : PktAttrib}

theorem coalesceMsdu_eq (attrib : SecAttrib i.psecuritypriv (secInput i m) psta sent)
    (cipher : (msduCipher i m psta).isCipher = true) :
    coalesceMsdu i m (phyAttrib i.pmlmepriv psta m.priority sent) =
      match swencryptKey i.psecuritypriv (msduCipher i m psta) (secInput i m).ra with
      | none => []
      | some key =>
          List.replicate (encryptedMpdus i m psta)
            (key, toLe (msduCipher i m psta).pnWidth psta.dot11txpn.toNat) := by
  generalize named : phyAttrib i.pmlmepriv psta m.priority sent = pattrib
  have encrypt : pattrib.encrypt = msduCipher i m psta := by
    rw [← named]
    exact attrib.encrypt
  have ra : pattrib.ra = (secInput i m).ra := by
    rw [← named]
    exact attrib.ra
  have bswenc : pattrib.bswenc = softwareEncrypts i.psecuritypriv (secInput i m) := by
    have ciphered : (msduCipher i m psta != .noPrivacy) = true := by
      revert cipher
      cases msduCipher i m psta <;> decide
    rw [← named]
    refine attrib.bswenc.trans ?_
    rw [attrib.encrypt]
    show (msduCipher i m psta != .noPrivacy && _) = _
    rw [ciphered, Bool.true_and]
  have key : pattrib.encrypt = .tkip → micKey i.psecuritypriv pattrib =
      if isMcast (secInput i m).ra
        then i.psecuritypriv.dot118021XGrptxmickey i.psecuritypriv.dot118021XGrpKeyid
        else psta.dot11tkiptxmickey := by
    intro tkip
    have copied : pattrib.dot11tkiptxmickey = psta.dot11tkiptxmickey := by
      rw [← named] at tkip ⊢
      exact attrib.tkiptxmickey tkip
    rw [micKey, ra, copied]
  have ok : (coalesceOk i.psecuritypriv i.pmlmepriv pattrib && pattrib.bswenc) = swEncrypts i m psta := by
    rw [coalesceOk, swEncrypts, bswenc, ← encrypt, Bool.and_comm, Bool.and_assoc]
    congr 3
    by_cases tkip : pattrib.encrypt = .tkip
    · rw [key tkip]
    · have other : (pattrib.encrypt == .tkip) = false := beq_false_of_ne tkip
      rw [other, Bool.false_and, Bool.false_and]
  have ivLen : pattrib.ivLen = (msduCipher i m psta).ivLen := by
    rw [← encrypt, ← named]
    exact attrib.ivLen
  have count : fragmentCount i.fragLen pattrib (m.pkt.length - ethHlen) =
      fragmentCount i.fragLen (fragmentAttrib i m psta) (m.pkt.length - ethHlen) := by
    have icvLen : pattrib.icvLen = (msduCipher i m psta).icvLen := by
      rw [← encrypt, ← named]
      exact attrib.icvLen
    have ciphered : (msduCipher i m psta != .noPrivacy) = true := by
      revert cipher
      cases msduCipher i m psta <;> decide
    refine fragmentCount_congr ?_ ?_ ?_ ?_ _
    · exact ra
    · rw [← named]
      rfl
    · exact ivLen
    · unfold swIcvLen
      rw [bswenc, icvLen]
      show _ = if (msduCipher i m psta != .noPrivacy && _) = true then _ else _
      rw [ciphered, Bool.true_and]
      rfl
  have dropped : (m.pkt.drop pattrib.pktHdrlen).length = m.pkt.length - ethHlen := by
    rw [List.length_drop, ← named]
    rfl
  unfold coalesceMsdu
  cases coalesces : coalesceOk i.psecuritypriv i.pmlmepriv pattrib with
  | false =>
      rw [coalesces, Bool.false_and] at ok
      rw [xmitframeCoalesce_fail _ _ _ _ coalesces, encryptedMpdus, ← ok]
      cases swencryptKey i.psecuritypriv (msduCipher i m psta) (secInput i m).ra <;> rfl
  | true =>
      rw [coalesces, Bool.true_and] at ok
      obtain ⟨c, done, pieces, length, nrFrags⟩ := xmitframeCoalesce_ok i.psecuritypriv i.fragLen i.pmlmepriv
        pattrib coalesces m.seqnum m.pktOffset m.buf m.pkt m.mem
      rw [dropped, count] at length
      rw [done]
      dsimp only
      rw [swencrypted, encrypt, ra, encryptedMpdus, ← ok]
      split
      · rfl
      · rename_i key' _
        split
        · refine List.eq_replicate_iff.mpr ⟨?_, ?_⟩
          · rw [List.length_map, List.length_take, nrFrags, length]
            omega
          · intro e inside
            obtain ⟨mpdu, taken, rfl⟩ := List.mem_map.mp inside
            have iv := fragments_iv pieces mpdu (List.mem_of_mem_take taken)
            obtain ⟨keyidx, drawn⟩ := attrib.iv (attrib.encrypt ▸ cipher)
            have same : pattrib.iv = (msduCipher i m psta).drawIv psta.dot11txpn keyidx := by
              rw [← encrypt, ← named]
              exact drawn
            rw [iv, same, ivLen, packetNumber_drawIv cipher]
        · rfl

theorem coalesceMsdu_plain {pattrib : PktAttrib} (plain : pattrib.encrypt.isCipher = false) :
    coalesceMsdu i m pattrib = [] := by
  have keyless : swencryptKey i.psecuritypriv pattrib.encrypt pattrib.ra = none := by
    revert plain
    cases pattrib.encrypt <;> first | exact fun _ => rfl | exact nofun
  unfold coalesceMsdu swencrypted
  rw [keyless]
  split <;> rfl

variable {cur : StaTable}

theorem sendMsdu_unknown (unknown : cur (msduSta i m) = none) : sendMsdu i cur m = (cur, []) := by
  have attrib : updateAttrib i.pmlmepriv i.psecuritypriv cur m.pattrib m.pkt m.priority = (none, cur) := by
    unfold updateAttrib
    dsimp only
    rw [show cur (staAddr (etherAttrib i.pmlmepriv m.pattrib m.pkt).ra) = none from unknown]
  rw [sendMsdu, attrib]

/-- An MSDU for a known station: the counter goes up when an IV is drawn, and not else. -/
theorem sendMsdu_known (known : cur (msduSta i m) = some psta) :
    sendMsdu i cur m =
      if drawsIv i m psta then
        (Function.update cur (msduSta i m)
          (some { psta with dot11txpn := (msduCipher i m psta).drawnPn psta.dot11txpn }),
          match swencryptKey i.psecuritypriv (msduCipher i m psta) (secInput i m).ra with
          | none => []
          | some key =>
              List.replicate (encryptedMpdus i m psta)
                (key, toLe (msduCipher i m psta).pnWidth psta.dot11txpn.toNat))
      else (cur, []) := by
  have found : cur (staAddr (etherAttrib i.pmlmepriv m.pattrib m.pkt).ra) = some psta := known
  have kept : Function.update cur (msduSta i m) (some psta) = cur := by
    rw [← known, Function.update_eq_self]
  unfold sendMsdu updateAttrib
  dsimp only
  rw [found]
  dsimp only
  by_cases linked : psta.linked = false
  · rw [if_pos linked, drawsIv, linked]
    rfl
  · have draws : drawsIv i m psta =
        (secInfoOk i.psecuritypriv (secInput i m) psta && (msduCipher i m psta).isCipher) := by
      rw [drawsIv, Bool.eq_true_of_not_eq_false linked, Bool.true_and]
    rw [if_neg linked, draws]
    cases ok : secInfoOk i.psecuritypriv (secInput i m) psta with
    | false =>
        obtain ⟨sent, failed, ra⟩ := updateAttribSecInfo_fail _ _ _ ok
        unfold secInput at failed ra
        rw [failed]
        show (Function.update cur (staAddr sent.ra) (some psta), []) = (cur, [])
        rw [ra]
        exact congrArg (·, []) kept
    | true =>
        obtain ⟨sent, done, attrib⟩ := updateAttribSecInfo_ok _ _ _ ok
        have ra : staAddr sent.ra = msduSta i m := congrArg staAddr attrib.ra
        have coalesced := coalesceMsdu_eq i m attrib
        unfold secInput at done
        rw [done]
        show (Function.update cur (staAddr sent.ra)
          (some { psta with dot11txpn := (msduCipher i m psta).drawnPn psta.dot11txpn }),
          coalesceMsdu i m (phyAttrib i.pmlmepriv psta m.priority sent)) = _
        rw [ra]
        cases cipher : (msduCipher i m psta).isCipher with
        | true =>
            rw [coalesced cipher]
            rfl
        | false =>
            have idle : (msduCipher i m psta).drawnPn psta.dot11txpn = psta.dot11txpn := by
              revert cipher
              cases msduCipher i m psta <;> first | exact fun _ => rfl | exact nofun
            have plain : (phyAttrib i.pmlmepriv psta m.priority sent).encrypt.isCipher = false := by
              rw [← cipher]
              exact congrArg Privacy.isCipher attrib.encrypt
            rw [idle, coalesceMsdu_plain i m plain]
            exact congrArg (·, []) kept

variable {stas : StaTable} {v : MacAddr → Nat}

theorem sendMsdu_idle (tracks : Tracks i.psecuritypriv stas cur v) (idle : drawnFrom i stas m = none) :
    sendMsdu i cur m = (cur, []) := by
  have record := tracks (msduSta i m)
  unfold drawnFrom at idle
  cases known : stas (msduSta i m) with
  | none =>
      rw [known] at record
      exact sendMsdu_unknown i m record
  | some psta =>
      rw [known] at record idle
      obtain ⟨pn, present, -⟩ := record
      have silent : drawsIv i m psta = false := by simpa using idle
      rw [sendMsdu_known i m present, if_neg]
      exact Bool.not_eq_true _ ▸ silent

/-- An MSDU that draws: its counter goes up, and its MPDUs carry the value. -/
theorem sendMsdu_draws (tracks : Tracks i.psecuritypriv stas cur v) {k : MacAddr}
    (draws : drawnFrom i stas m = some k) :
    Tracks i.psecuritypriv stas (sendMsdu i cur m).1 (Function.update v k (v k + 1)) ∧
      (sendMsdu i cur m).2 = emitted i stas (m, v k) := by
  have record := tracks (msduSta i m)
  unfold drawnFrom at draws
  cases known : stas (msduSta i m) with
  | none =>
      rw [known] at draws
      cases draws
  | some psta =>
      rw [known] at record draws
      obtain ⟨pn, present, value⟩ := record
      dsimp only at draws
      have drawn : drawsIv i m psta = true := by
        by_contra silent
        rw [if_neg silent] at draws
        cases draws
      rw [if_pos drawn] at draws
      obtain rfl := Option.some.inj draws
      have cipher : (msduCipher i m psta).isCipher = true := (Bool.and_eq_true_iff.mp drawn).2
      have record : recordCipher i.psecuritypriv (msduSta i m) psta = msduCipher i m psta :=
        (cipherOf_eq_recordCipher cipher).symm
      rw [record] at value
      have step := sendMsdu_known i m present
      rw [if_pos (show drawsIv i m { psta with dot11txpn := pn } = true from drawn)] at step
      rw [step]
      refine ⟨fun k => ?_, ?_⟩
      · by_cases same : k = msduSta i m
        · subst same
          rw [known]
          refine ⟨(msduCipher i m psta).drawnPn pn, Function.update_self .., ?_⟩
          rw [Function.update_self, record]
          have up := drawnPn_mod cipher pn
          exact up.trans (by rw [Nat.add_mod, value, ← Nat.add_mod])
        · have other := tracks k
          cases entry : stas k with
          | none =>
              rw [entry] at other
              exact (Function.update_of_ne same ..).trans other
          | some psta' =>
              rw [entry] at other
              obtain ⟨pn', present', value'⟩ := other
              refine ⟨pn', (Function.update_of_ne same ..).trans present', ?_⟩
              rw [Function.update_of_ne same]
              exact value'
      · have bytes : toLe (msduCipher i m psta).pnWidth pn.toNat =
            toLe (msduCipher i m psta).pnWidth (v (msduSta i m)) := (toLe_eq_iff _ _ _).mpr value
        unfold emitted
        dsimp only
        rw [known]
        show (match swencryptKey i.psecuritypriv (msduCipher i m psta) (secInput i m).ra with
          | none => []
          | some key => List.replicate (encryptedMpdus i m psta)
              (key, toLe (msduCipher i m psta).pnWidth pn.toNat)) = _
        rw [bytes]

end Step

/-- The MPDUs of a run are those of the MSDUs that draw. -/
theorem sendAll_eq (i : Interface) (stas : StaTable) {cur : StaTable} {v : MacAddr → Nat}
    (tracks : Tracks i.psecuritypriv stas cur v) (ms : List Msdu) :
    sendAll i cur ms = (draws (drawnFrom i stas) v ms).flatMap (emitted i stas) := by
  induction ms generalizing cur v with
  | nil => rfl
  | cons m ms ih =>
      cases drawn : drawnFrom i stas m with
      | none =>
          rw [sendAll, sendMsdu_idle i m tracks drawn, draws_none ms drawn]
          exact ih tracks
      | some k =>
          obtain ⟨tracks', sent⟩ := sendMsdu_draws i m tracks drawn
          rw [sendAll, sent, draws_some ms drawn, List.flatMap_cons, ih tracks']

/-! ## Packet numbers under one key -/

section Fresh

variable (i : Interface) (stas : StaTable)

/-- The MSDU sends an MPDU with a WEP key. -/
def SendsWep (m : Msdu) : Prop :=
  ∃ psta, stas (msduSta i m) = some psta ∧ (msduCipher i m psta).isWep = true ∧ encryptedMpdus i m psta ≠ 0

/-- One MPDU for every MSDU that is encrypted, and different records do not draw one WEP IV. -/
structure PnFresh (ms : List Msdu) : Prop where
  whole : ∀ m ∈ ms, ∀ psta, stas (msduSta i m) = some psta → drawsIv i m psta = true →
    encryptedMpdus i m psta ≤ 1
  wep : (draws (drawnFrom i stas) (startPn stas) ms).Pairwise fun a b =>
    SendsWep i stas a.1 → SendsWep i stas b.1 → msduSta i a.1 ≠ msduSta i b.1 →
      a.2 % 256 ^ 3 ≠ b.2 % 256 ^ 3

theorem swencryptKey_eq (psecuritypriv : SecurityPriv) {encrypt : Privacy} (cipher : encrypt.isCipher = true)
    (ra : MacAddr) :
    swencryptKey psecuritypriv encrypt ra =
      some (if encrypt.isWep then .dot11DefKey psecuritypriv.dot11PrivacyKeyIndex
        else if isMcast ra then .dot118021XGrpKey psecuritypriv.dot118021XGrpKeyid
        else .dot118021XUncstKey ra) := by
  cases encrypt <;> first | rfl | cases cipher

variable {i stas}

/-- What is known of an MSDU that draws. -/
theorem emitted_eq {m : Msdu} {k : MacAddr} (drawn : drawnFrom i stas m = some k) (v : Nat) :
    k = msduSta i m ∧ ∃ psta, stas k = some psta ∧ drawsIv i m psta = true ∧
      emitted i stas (m, v) = List.replicate (encryptedMpdus i m psta)
        (if (msduCipher i m psta).isWep then .dot11DefKey i.psecuritypriv.dot11PrivacyKeyIndex
          else if isMcast (secInput i m).ra then .dot118021XGrpKey i.psecuritypriv.dot118021XGrpKeyid
          else .dot118021XUncstKey (secInput i m).ra,
          toLe (msduCipher i m psta).pnWidth v) := by
  unfold drawnFrom at drawn
  cases known : stas (msduSta i m) with
  | none =>
      rw [known] at drawn
      cases drawn
  | some psta =>
      rw [known] at drawn
      dsimp only at drawn
      split at drawn
      · rename_i draws
        obtain rfl := Option.some.inj drawn
        have cipher : (msduCipher i m psta).isCipher = true := (Bool.and_eq_true_iff.mp draws).2
        refine ⟨rfl, psta, known, draws, ?_⟩
        unfold emitted
        dsimp only
        rw [known]
        dsimp only
        rw [swencryptKey_eq _ cipher]
      · cases drawn

theorem nodup_emitted {m : Msdu} {k : MacAddr} (drawn : drawnFrom i stas m = some k) (v : Nat) :
    (emitted i stas (m, v)).Nodup ↔
      ∀ psta, stas (msduSta i m) = some psta → drawsIv i m psta = true → encryptedMpdus i m psta ≤ 1 := by
  obtain ⟨rfl, psta, known, draws, eq⟩ := emitted_eq drawn v
  rw [eq, List.nodup_replicate]
  constructor
  · intro one psta' known' _
    obtain rfl := Option.some.inj (known.symm.trans known')
    exact one
  · exact fun all => all psta known draws

/-- Two MSDUs share no key and packet number, unless both use the WEP key, from two records. -/
theorem disjoint_emitted {m m' : Msdu} {k k' : MacAddr} (v v' : Nat) (drawn : drawnFrom i stas m = some k)
    (drawn' : drawnFrom i stas m' = some k') (apart : k = k' → v < v' ∧ v' < v + 256 ^ 3) :
    List.Disjoint (emitted i stas (m, v)) (emitted i stas (m', v')) ↔
      (SendsWep i stas m → SendsWep i stas m' → msduSta i m ≠ msduSta i m' →
        v % 256 ^ 3 ≠ v' % 256 ^ 3) := by
  obtain ⟨rfl, psta, known, -, eq⟩ := emitted_eq drawn v
  obtain ⟨rfl, psta', known', -, eq'⟩ := emitted_eq drawn' v'
  rw [eq, eq']
  constructor
  · rintro disjoint ⟨psta₁, known₁, wep, sends⟩ ⟨psta₂, known₂, wep', sends'⟩ - same
    obtain rfl := Option.some.inj (known.symm.trans known₁)
    obtain rfl := Option.some.inj (known'.symm.trans known₂)
    have pn : toLe 3 v = toLe 3 v' := (toLe_eq_iff 3 v v').mpr same
    refine disjoint (List.mem_replicate.mpr ⟨sends, rfl⟩) (List.mem_replicate.mpr ⟨sends', ?_⟩)
    simp only [wep, wep', Privacy.pnWidth, if_true, pn]
  · intro fresh e inside inside'
    obtain ⟨sends, rfl⟩ := List.mem_replicate.mp inside
    obtain ⟨sends', same⟩ := List.mem_replicate.mp inside'
    obtain ⟨key, pn⟩ := Prod.mk.inj same
    have differ (other : msduSta i m = msduSta i m') : v % 256 ^ 3 ≠ v' % 256 ^ 3 := by
      have := apart other
      omega
    cases wep : (msduCipher i m psta).isWep with
    | true =>
        cases wep' : (msduCipher i m' psta').isWep with
        | true =>
            simp only [Privacy.pnWidth, wep, wep', if_true] at pn
            have congruent := (toLe_eq_iff 3 v v').mp pn
            by_cases other : msduSta i m = msduSta i m'
            · exact differ other congruent
            · exact fresh ⟨psta, known, wep, sends⟩ ⟨psta', known', wep', sends'⟩ other congruent
        | false =>
            rw [wep, wep', if_pos rfl, if_neg Bool.false_ne_true] at key
            split at key <;> cases key
    | false =>
        cases wep' : (msduCipher i m' psta').isWep with
        | true =>
            rw [wep, wep', if_neg Bool.false_ne_true, if_pos rfl] at key
            split at key <;> cases key
        | false =>
            rw [wep, wep', if_neg Bool.false_ne_true, if_neg Bool.false_ne_true] at key
            simp only [Privacy.pnWidth, wep, wep', if_neg Bool.false_ne_true] at pn
            have congruent : v % 256 ^ 3 = v' % 256 ^ 3 := by
              have wide := (toLe_eq_iff 6 v v').mp pn
              omega
            refine differ ?_ congruent
            unfold msduSta staAddr
            split at key
            · rename_i group
              split at key
              · rename_i group'
                rw [if_pos group, if_pos group']
              · cases key
            · rename_i single
              split at key
              · cases key
              · rename_i single'
                rw [if_neg single, if_neg single']
                exact KeyRef.dot118021XUncstKey.inj key

/-- No packet number is used twice under one key, exactly when every MSDU that is encrypted goes
out in one MPDU and no two records draw the same WEP IV. -/
theorem packet_numbers_iff (ms : List Msdu) (few : ms.length < 2 ^ 24) :
    (sendAll i stas ms).Nodup ↔ PnFresh i stas ms := by
  rw [sendAll_eq i stas (tracks_start i.psecuritypriv stas), List.nodup_flatMap]
  have known {d : Msdu × Nat} (drawn : d ∈ draws (drawnFrom i stas) (startPn stas) ms) :
      ∃ k, drawnFrom i stas d.1 = some k := (mem_of_draws drawn).2
  have apart := draws_pairwise (drawnFrom i stas) (startPn stas) ms
  have pair {a b : Msdu × Nat} (drawn : a ∈ draws (drawnFrom i stas) (startPn stas) ms)
      (drawn' : b ∈ draws (drawnFrom i stas) (startPn stas) ms)
      (apart : drawnFrom i stas a.1 = drawnFrom i stas b.1 → a.2 < b.2 ∧ b.2 < a.2 + ms.length) :
      List.Disjoint (emitted i stas a) (emitted i stas b) ↔ (SendsWep i stas a.1 → SendsWep i stas b.1 →
        msduSta i a.1 ≠ msduSta i b.1 → a.2 % 256 ^ 3 ≠ b.2 % 256 ^ 3) := by
    obtain ⟨k, owned⟩ := known drawn
    obtain ⟨k', owned'⟩ := known drawn'
    refine disjoint_emitted a.2 b.2 owned owned' fun same => ?_
    have := apart (by rw [owned, owned', same])
    omega
  constructor
  · rintro ⟨single, disjoint⟩
    constructor
    · intro m inside psta found drawsOne
      have owned : drawnFrom i stas m = some (msduSta i m) := by
        unfold drawnFrom
        rw [found]
        exact if_pos drawsOne
      obtain ⟨v, drawn⟩ := exists_draw (startPn stas) inside owned
      exact (nodup_emitted owned v).mp (single _ drawn) psta found drawsOne
    · exact (disjoint.and apart).imp_of_mem fun drawn drawn' both => (pair drawn drawn' both.2).mp both.1
  · intro fresh
    constructor
    · intro d drawn
      obtain ⟨k, owned⟩ := known drawn
      exact (nodup_emitted owned d.2).mpr (fresh.whole d.1 (mem_of_draws drawn).1)
    · exact (fresh.wep.and apart).imp_of_mem fun drawn drawn' both => (pair drawn drawn' both.2).mpr both.1

end Fresh

/-! ## Two stations and one WEP key -/

/-- An address. -/
def stationAddr (n : UInt8) : MacAddr := fun k => if k = 0 then n else 0

/-- Attributes without content. -/
def blankAttrib : PktAttrib where
  subtype := 0
  etherType := 0
  pktHdrlen := 0
  hdrlen := 0
  pktlen := 0
  dst := stationAddr 0
  src := stationAddr 0
  ta := stationAddr 0
  ra := stationAddr 0
  priority := 0
  ackPolicy := 0
  qosEn := false
  mdata := false
  eosp := false
  amsdu := false
  encrypt := .noPrivacy
  keyIdx := 0
  ivLen := 0
  icvLen := 0
  iv := []
  icv := []
  bswenc := false
  dot11tkiptxmickey := nullKey
  dot118021xUncstKey := nullKey

/-- An access point with WEP and software encryption. -/
def wepAp : Interface where
  pmlmepriv := ⟨.ap, stationAddr 0x10, stationAddr 0x10, false⟩
  psecuritypriv := {
    dot11AuthAlgrthm := .openSystem, dot11PrivacyAlgrthm := .wep40, dot11PrivacyKeyIndex := 0,
    dot118021XGrpPrivacy := .noPrivacy, dot118021XGrpKeyid := 0, dot118021XGrptxmickey := fun _ => nullKey,
    busetkipkey := false, swEncrypt := true, hwDecrypted := false, disBmcSearch := false }
  fragLen := 2346

/-- Two stations that have just associated. -/
def twoStations : StaTable := fun a =>
  if a = stationAddr 2 ∨ a = stationAddr 4 then some ⟨true, false, false, .noPrivacy, nullKey, nullKey, 0⟩ else none

/-- Three bytes for a station. -/
def msduTo (n : UInt8) : Msdu where
  pattrib := blankAttrib
  pkt := [n, 0, 0, 0, 0, 0, 0x10, 0, 0, 0, 0, 0, 0x08, 0x00, 1, 2, 3]
  priority := 0
  seqnum := 0
  pktOffset := 1
  buf := .first
  mem := fun _ => 0

/-- The first MSDUs for the two stations have the same IV. -/
theorem wep_iv_reused : ¬(sendAll wepAp twoStations [msduTo 2, msduTo 4]).Nodup := by decide +kernel

theorem packet_numbers_iff_wep :
    (sendAll wepAp twoStations [msduTo 2, msduTo 2]).Nodup ↔
      PnFresh wepAp twoStations [msduTo 2, msduTo 2] :=
  packet_numbers_iff [msduTo 2, msduTo 2] (by decide)

end Vmac.Transmit
