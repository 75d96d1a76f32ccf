/-
# Vmac.Ap.SharedKey -- shared-key authentication at an access point: rtw_mlme_ext.c

A station that is authenticated or associated should have sent the challenge back, encrypted with
the WEP key.  `watch` lets the access point run and keeps, for each record, what was received
from its address and which challenges were sent to it since the record was allocated.

* `authenticated`: in which runs every such station has answered a challenge with the key.
* `plain_answer_passes`: a run in which a station without the key is associated.
-/
import Vmac.Ap.Bookkeeping
import Vmac.Security.Tkip

namespace Vmac.Ap

open Theory Theory.Bytes Theory.Placement Theory.Run
open Transmit (MacAddr bcAddr staAddr isMcast AuthAlgrthm Privacy)
open Security (Mem bytesAt SecurityKeys RxFrame rtwWepDecrypt icv)
open StaPriv AccessPoint

set_option autoImplicit false

/-! ## What has happened -/

inductive Happening
  | received (f : AuthFrame)
  | sent (chgTxt : List UInt8)

/-- The access point, and what happened to each record's station, the last thing first. -/
structure Watched where
  ap : AccessPoint
  log : Offset → List Happening

def replyOf (cfg : ApConfig) (a : AccessPoint) : ApEvent → Option AuthReply
  | .auth f => (onAuth cfg a f).2
  | _ => none

/-- The challenge in a reply to `addr`. -/
def challenged (addr : MacAddr) : Option AuthReply → List Happening
  | some reply => if reply.addr1 = addr then (reply.challenge.map Happening.sent).toList else []
  | none => []

/-- The frame, if it comes from `addr`. -/
def heard (addr : MacAddr) : ApEvent → List Happening
  | .auth f => if f.sa = addr then [.received f] else []
  | _ => []

/-- A received frame; the log of a record begins when it is allocated. -/
def watch (cfg : ApConfig) (w : Watched) (ev : ApEvent) : Watched :=
  let a := receiveMgnt cfg w.ap ev
  { ap := a
    log := fun r =>
      if r ∈ a.stapriv.freeStaQueue then []
      else challenged (a.sta r).macAddr (replyOf cfg w.ap ev) ++ (heard (a.sta r).macAddr ev ++
        if r ∈ w.ap.stapriv.freeStaQueue then [] else w.log r) }

/-! ## What a station should have shown -/

/-- The challenge element has 128 bytes of text, all before the ICV. -/
def AuthFrame.Whole (f : AuthFrame) : Prop :=
  ∃ p, f.challenge = some p ∧ f.mem (p + 1) = 128 ∧ p + 2 + 128 + 4 ≤ f.len

/-- The text of a frame's challenge element. -/
def AuthFrame.Carries (f : AuthFrame) (chgTxt : List UInt8) : Prop :=
  ∃ p, f.challenge = some p ∧ bytesAt f.mem (p + 2) 128 = chgTxt

/-- Encrypted with the WEP key: protected, and with a right ICV after decryption. -/
def AuthFrame.Genuine (keys : SecurityKeys) (f : AuthFrame) : Prop :=
  f.privacy = true ∧ { f.rx with mem := (f.opened keys).mem }.icvRight = true

/-- A third frame, encrypted with the WEP key, that has the challenge. -/
structure AuthFrame.Proves (keys : SecurityKeys) (f : AuthFrame) (chgTxt : List UInt8) : Prop where
  genuine : f.Genuine keys
  seq : (f.opened keys).seq = 3
  whole : (f.opened keys).Whole
  carries : (f.opened keys).Carries chgTxt

/-- Such a frame has come, after the challenge had been sent. -/
def Proven (keys : SecurityKeys) (log : List Happening) : Prop :=
  ∃ later f earlier chgTxt, log = later ++ .received f :: earlier ∧ .sent chgTxt ∈ earlier ∧ f.Proves keys chgTxt

/-- A third frame that answers the challenge is encrypted with the WEP key, its challenge element is whole, and it
does not come from a group address. -/
def meetsShared (cfg : ApConfig) (w : Watched) : ApEvent → Prop
  | .auth f => ∀ r, w.ap.stapriv.getStainfo f.sa = some r → (w.ap.sta r).authSeq = 2 → (f.opened cfg.keys).seq = 3 →
      (f.opened cfg.keys).answers (w.ap.sta r).chgTxt = true →
        f.Genuine cfg.keys ∧ (f.opened cfg.keys).Whole ∧ isMcast f.sa = false
  | _ => True

/-! ## The fields that decide -/

/-- What authentication depends on. -/
def StaInfo.credit (psta : StaInfo) : Bool × UInt32 × List UInt8 × MacAddr :=
  (psta.trusted, psta.authSeq, psta.chgTxt, psta.macAddr)

theorem StaInfo.trusted_congr {psta psta' : StaInfo}
    (success : psta'.state &&& wifiFwAuthSuccess = psta.state &&& wifiFwAuthSuccess)
    (assoc : psta'.state &&& wifiFwAssocSuccess = psta.state &&& wifiFwAssocSuccess) : psta'.trusted = psta.trusted := by
  rw [trusted, success, assoc, trusted]

/-- Bits that an update does not touch. -/
theorem masked (state kept new mask : UInt32) (keeps : kept &&& mask = mask) (apart : new &&& mask = 0) :
    ((state &&& kept) ||| new) &&& mask = state &&& mask := by
  have distrib : ((state &&& kept) ||| new) &&& mask = (state &&& kept &&& mask) ||| (new &&& mask) :=
    UInt32.eq_of_toBitVec_eq (BitVec.and_or_distrib_right ..)
  rw [distrib, UInt32.and_assoc, keeps, apart, UInt32.or_zero]

theorem or_and_self (state bit : UInt32) : (state ||| bit) &&& bit = bit := by
  refine UInt32.eq_of_toBitVec_eq (BitVec.eq_of_getElem_eq fun i inside => ?_)
  simp +contextual

theorem unlinked_credit (psta : StaInfo) :
    { psta with state := psta.state &&& ~~~fwLinked }.credit = psta.credit := by
  have bit (mask : UInt32) (keeps : ~~~fwLinked &&& mask = mask) :
      psta.state &&& ~~~fwLinked &&& mask = psta.state &&& mask := by rw [UInt32.and_assoc, keeps]
  have same : { psta with state := psta.state &&& ~~~fwLinked }.trusted = psta.trusted :=
    StaInfo.trusted_congr (bit _ (by decide)) (bit _ (by decide))
  simp [StaInfo.credit, same]

section Steps

variable {a : AccessPoint} {r r' : Offset}

theorem credit_setSta {psta : StaInfo} (same : psta.credit = (a.sta r).credit) (r' : Offset) :
    ((a.setSta r psta).sta r').credit = (a.sta r').credit := by
  rcases eq_or_ne r' r with rfl | other
  · rw [sta_setSta_self, same]
  · rw [sta_setSta_other other]

theorem credit_setCell (c : Cell) (r' : Offset) : ((a.setCell r c).sta r').credit = (a.sta r').credit :=
  have same : ({ a.sta r with toStaProt := c.psta } : StaInfo).credit = (a.sta r).credit := rfl
  credit_setSta same r'

theorem credit_dropAid (s : StaPriv) (r r' : Offset) : ((s.dropAid r).stainfo r').credit = (s.stainfo r').credit := by
  rw [dropAid]
  split
  · rcases eq_or_ne r' r with rfl | other
    · simp [setStainfo, StaInfo.credit, StaInfo.trusted]
    · simp [setStainfo, other]
  · rfl

theorem credit_unhashed (s : StaPriv) (r r' : Offset) : ((s.unhashed r).stainfo r').credit = (s.stainfo r').credit := by
  rcases eq_or_ne r' r with rfl | other
  · have own : (s.unhashed r').stainfo r' =
        { s.stainfo r' with state := (s.stainfo r').state &&& ~~~fwLinked } := by
      simp [unhashed, setStainfo, unhash]
    rw [own, unlinked_credit]
  · rw [unhashed_stainfo s other]

/-- A free changes nothing that decides, and no record leaves the free queue. -/
theorem credit_freeStainfo (s : StaPriv) (mode : UInt32) (psta : Option Offset) :
    (∀ r', ((s.freeStainfo mode psta).stainfo r').credit = (s.stainfo r').credit) ∧
      ∀ r' ∈ s.freeStaQueue, r' ∈ (s.freeStainfo mode psta).freeStaQueue := by
  cases psta with
  | none => exact ⟨fun _ => rfl, fun _ inside => inside⟩
  | some r =>
      have unhashed_queue : (s.unhashed r).freeStaQueue = s.freeStaQueue := by simp [unhashed, setStainfo, unhash]
      by_cases high : 31 < ((s.unhashed r).stainfo r).aid
      · have leaked : s.freeStainfo mode (some r) = s.unhashed r := if_pos high
        rw [leaked, unhashed_queue]
        exact ⟨credit_unhashed s r, fun _ inside => inside⟩
      · have low : (s.stainfo r).aid ≤ 31 := by
          rw [unhashed_aid] at high
          exact Nat.not_lt.mp high
        rw [freeStainfo_low mode low]
        by_cases ap : mode = hwStateAp
        · refine ⟨fun r' => ?_, fun r' inside => ?_⟩
          · simpa [ap] using (credit_dropAid _ r r').trans (credit_unhashed s r r')
          · simpa [ap, unhashed_queue] using .inl inside
        · refine ⟨fun r' => ?_, fun r' inside => ?_⟩
          · simpa [ap] using credit_unhashed s r r'
          · simpa [ap, unhashed_queue] using .inl inside

/-- What is allocated afterwards was allocated before, is not trusted unless it was, and expects the same. -/
def Quiet (a a' : AccessPoint) : Prop :=
  ∀ r, r ∉ a'.stapriv.freeStaQueue → r ∉ a.stapriv.freeStaQueue ∧
    ((a'.sta r).trusted = true → (a.sta r).trusted = true) ∧ (a'.sta r).credit.2 = (a.sta r).credit.2

theorem Quiet.trans {a b c : AccessPoint} (first : Quiet a b) (second : Quiet b c) : Quiet a c := by
  intro r out
  obtain ⟨out, trusted, same⟩ := second r out
  obtain ⟨out', trusted', same'⟩ := first r out
  exact ⟨out', trusted' ∘ trusted, same.trans same'⟩

theorem credit_quiet {psta psta' : StaInfo} (same : psta'.credit = psta.credit) :
    (psta'.trusted = true → psta.trusted = true) ∧ psta'.credit.2 = psta.credit.2 :=
  ⟨fun trusted => (congrArg Prod.fst same).symm.trans trusted, congrArg Prod.snd same⟩

theorem quiet_of_credit {a a' : AccessPoint} (queue : a'.stapriv.freeStaQueue = a.stapriv.freeStaQueue)
    (credit : ∀ r, (a'.sta r).credit = (a.sta r).credit) : Quiet a a' := by
  intro r out
  rw [queue] at out
  exact ⟨out, credit_quiet (credit r)⟩

theorem quiet_relisted {a a' : AccessPoint} (same : Relisted a a') : Quiet a a' :=
  quiet_of_credit same.freeStaQueue fun r => by rw [sta, same.stainfo, sta]

theorem quiet_setSta {psta : StaInfo} (same : psta.credit = (a.sta r).credit) : Quiet a (a.setSta r psta) :=
  quiet_of_credit rfl (credit_setSta same)

theorem quiet_setCell (a : AccessPoint) (r : Offset) (c : Cell) : Quiet a (a.setCell r c) :=
  quiet_of_credit rfl (credit_setCell c)

theorem quiet_freeStainfo (a : AccessPoint) (psta : Option Offset) :
    Quiet a { a with stapriv := a.stapriv.freeStainfo a.state psta } := by
  obtain ⟨credit, queue⟩ := credit_freeStainfo a.stapriv a.state psta
  intro r out
  exact ⟨fun inside => out (queue r inside), credit_quiet (credit r)⟩

/-! ## One authentication frame -/

/-- The record of a station whose frame has passed, after the reply. -/
def authFinish (mode : AuthAlgrthm) (pstat : StaInfo) (f : AuthFrame) : StaInfo :=
  let pstat := { authPassed mode pstat f with authSeq := f.seq + 1 }
  if pstat.trusted then { pstat with authSeq := 0 } else pstat

def authReply (mode : AuthAlgrthm) (pstat : StaInfo) (f : AuthFrame) : AuthReply :=
  issueAuth { authPassed mode pstat f with authSeq := f.seq + 1 } .successful

theorem sta_enterAuthList (a : AccessPoint) (r r' : Offset) : (a.enterAuthList r).sta r' = a.sta r' :=
  congrFun (relisted_enterAuthList a r).stainfo r'

theorem authSta_passed {mode : AuthAlgrthm} {f : AuthFrame} (passes : authStatus mode (a.sta r) f = .successful) :
    authSta mode a f r =
      ((a.enterAuthList r).setSta r (authFinish mode (a.sta r) f), authReply mode (a.sta r) f) := by
  simp only [authSta, sta_enterAuthList, passes]
  rfl

theorem authSta_rejected {mode : AuthAlgrthm} {f : AuthFrame} (fails : authStatus mode (a.sta r) f ≠ .successful) :
    (authSta mode a f r).1 = (a.enterAuthList r).freeStainfo r := by
  simp only [authSta, sta_enterAuthList]
  rfl

theorem authFinish_macAddr (mode : AuthAlgrthm) (pstat : StaInfo) (f : AuthFrame) :
    (authFinish mode pstat f).macAddr = pstat.macAddr := by
  rw [authFinish, ← (authPassed_toStaProt mode pstat f).2]
  dsimp only
  split <;> rfl

theorem algorithm_low (f : AuthFrame) : f.algorithm &&& 0xffff = f.algorithm := by
  have low : ofLe (bytesAt f.mem (24 + f.offset) 2) < 2 ^ 16 := by
    have bound := ofLe_lt (bytesAt f.mem (24 + f.offset) 2)
    rwa [Security.length_bytesAt] at bound
  rw [AuthFrame.algorithm, AuthFrame.le16]
  generalize ofLe (bytesAt f.mem (24 + f.offset) 2) = n at low
  apply UInt32.toNat_inj.mp
  have small : n % 2 ^ 32 = n := Nat.mod_eq_of_lt (by omega)
  rw [UInt32.toNat_and, UInt32.toNat_ofNat', small]
  exact (Nat.and_two_pow_sub_one_eq_mod n 16).trans (Nat.mod_eq_of_lt low)

/-- A first frame: the challenge is sent, and the station is trusted if it was. -/
theorem shared_first {pstat : StaInfo} {f : AuthFrame} (goodAlg : badAlg .shared f = false) (first : f.seq = 1) :
    (authFinish .shared pstat f).trusted = pstat.trusted ∧
      (authReply .shared pstat f).addr1 = pstat.macAddr ∧
      (authReply .shared pstat f).challenge = some (authFinish .shared pstat f).chgTxt := by
  have closed : isOpen .shared f = false := by simp [isOpen]
  have named : f.algorithm ≠ 0 := by
    intro zero
    simp [badAlg, zero] at goodAlg
  let pstat' : StaInfo := { authPassed .shared pstat f with authSeq := f.seq + 1 }
  have passed : pstat' = { pstat with
      chgTxt := List.replicate 128 78
      state := (pstat.state &&& ~~~wifiFwAuthNull) ||| wifiFwAuthState
      authalg := f.algorithm
      authSeq := 2 } := by
    simp only [pstat', authPassed, closed, first]
    rfl
  have trusted : pstat'.trusted = pstat.trusted := by
    rw [passed]
    exact StaInfo.trusted_congr (masked _ _ _ _ (by decide) (by decide)) (masked _ _ _ _ (by decide) (by decide))
  have finish : authFinish .shared pstat f = if pstat'.trusted then { pstat' with authSeq := 0 } else pstat' := rfl
  have chgTxt : (authFinish .shared pstat f).chgTxt = pstat'.chgTxt := by
    rw [finish]
    split <;> rfl
  refine ⟨?_, ?_, ?_⟩
  · rw [finish]
    split <;> exact trusted
  · show pstat'.macAddr = pstat.macAddr
    rw [passed]
  · rw [chgTxt]
    show (if pstat'.authSeq = 2 ∧ pstat'.state &&& wifiFwAuthState ≠ 0 ∧ pstat'.authalg &&& 0xffff ≠ 0 then
      some pstat'.chgTxt else none) = _
    have asked : pstat'.state &&& wifiFwAuthState ≠ 0 := by
      rw [passed, or_and_self]
      decide
    have algorithm : pstat'.authalg &&& 0xffff ≠ 0 := by
      rw [passed, algorithm_low]
      exact named
    have two : pstat'.authSeq = 2 := by rw [passed]
    rw [if_pos ⟨two, asked, algorithm⟩]

/-- A third frame follows a challenge and has it. -/
theorem shared_third {pstat : StaInfo} {f : AuthFrame} (passes : authStatus .shared pstat f = .successful)
    (later : f.seq ≠ 1) :
    f.seq = 3 ∧ pstat.authSeq = 2 ∧ f.answers pstat.chgTxt = true ∧ (authFinish .shared pstat f).authSeq = 0 := by
  have closed : isOpen .shared f = false := by simp [isOpen]
  rw [authStatus, closed] at passes
  split at passes
  · cases passes
  rename_i follows
  rw [if_neg Bool.false_ne_true] at passes
  split at passes
  swap
  · cases passes
  rename_i third
  split at passes
  swap
  · cases passes
  rename_i answers
  refine ⟨third, ?_, answers, ?_⟩
  · have next : pstat.authSeq + 1 = 2 + 1 := (not_not.mp follows).trans third
    exact (UInt32.add_left_inj 1).mp next
  · have trusted : StaInfo.trusted { authPassed .shared pstat f with authSeq := f.seq + 1 } = true := by
      simp only [authPassed, closed, if_neg later, StaInfo.trusted, Bool.false_eq_true, if_false, or_and_self]
      rfl
    rw [authFinish, if_pos trusted]

/-- Decryption does not touch the addresses. -/
theorem opened_sa (keys : SecurityKeys) (f : AuthFrame) : (f.opened keys).sa = f.sa := by
  rw [AuthFrame.opened]
  split
  · funext i
    have below : 10 + i.val < f.rx.payload := show 10 + i.val < 4 + 24 by omega
    have decrypted : rtwWepDecrypt keys f.rx = f.rx.arcfour (Security.wepkey keys f.rx.keyIndex f.rx.mem f.rx.hdrlen) :=
      if_pos (.inl rfl)
    show (rtwWepDecrypt keys f.rx).mem (10 + i) = f.mem (10 + i)
    rw [decrypted]
    exact Security.RxFrame.arcfour_below _ _ (10 + i.val) below
  · rfl

/-- Nothing is in the free queue twice, or in it and in a chain. -/
structure Tidy (s : StaPriv) : Prop where
  nodup : s.freeStaQueue.Nodup
  apart : ∀ r, s.Hashed r → r ∉ s.freeStaQueue

theorem getStainfo_hashed {s : StaPriv} {hwaddr : MacAddr} (found : s.getStainfo hwaddr = some r) :
    s.Hashed r ∧ (s.stainfo r).macAddr = staAddr hwaddr :=
  ⟨⟨_, List.mem_of_find?_eq_some found⟩, of_decide_eq_true (List.find?_some found :)⟩

/-- The access point with a new record for `sa`. -/
def admitted (a : AccessPoint) (r : Offset) (rest : List Offset) (sa : MacAddr) : AccessPoint :=
  let a := { a with stapriv := a.stapriv.allocated r rest sa }
  a.setSta r { a.sta r with state := wifiFwAuthNull, authSeq := 0 }

/-- How `OnAuth` comes to the checks: for a known station or a new one. -/
def AuthSubject (a : AccessPoint) (sa : MacAddr) (r : Offset) (a₁ : AccessPoint) : Prop :=
  (a.stapriv.getStainfo sa = some r ∧ a₁ = a.leaveAsocList r) ∨
    ∃ rest, a.stapriv.freeStaQueue = r :: rest ∧ a₁ = admitted a r rest sa

theorem onAuth_shape (cfg : ApConfig) (a : AccessPoint) (received : AuthFrame) :
    (onAuth cfg a received).1 = a ∨ ∃ r a₁, AuthSubject a received.sa r a₁ ∧
      badAlg (authMode cfg) (received.opened cfg.keys) = false ∧
      ∃ checked, authSta (authMode cfg) a₁ (received.opened cfg.keys) r = checked ∧
        onAuth cfg a received = (checked.1, some checked.2) := by
  rw [onAuth]
  split
  swap
  · exact .inl rfl
  dsimp only
  rw [opened_sa]
  split
  · exact .inl rfl
  rename_i goodAlg
  have goodAlg := Bool.eq_false_iff.mpr goodAlg
  split
  · exact .inl rfl
  split
  · obtain nothing | ⟨r, rest, queue, taken⟩ := allocStainfo_cases a.stapriv cfg.pnetdev received.sa
    · rw [nothing]
      exact .inl rfl
    · rw [taken]
      exact .inr ⟨r, _, .inr ⟨rest, queue, rfl⟩, goodAlg, _, rfl, rfl⟩
  · rename_i r found
    exact .inr ⟨r, _, .inl ⟨found, rfl⟩, goodAlg, _, rfl, rfl⟩

/-- The subject's record, and those of the others. -/
theorem AuthSubject.records {sa : MacAddr} {a₁ : AccessPoint} (subject : AuthSubject a sa r a₁)
    (nodup : a.stapriv.freeStaQueue.Nodup) :
    ((a.stapriv.getStainfo sa = some r ∧ a₁.sta r = a.sta r ∧ a₁.stapriv.freeStaQueue = a.stapriv.freeStaQueue) ∨
      (r ∈ a.stapriv.freeStaQueue ∧ r ∉ a₁.stapriv.freeStaQueue ∧
        a₁.sta r = { StaInfo.init with macAddr := sa, state := wifiFwAuthNull })) ∧
      ∀ r', r' ≠ r → (r' ∉ a₁.stapriv.freeStaQueue → r' ∉ a.stapriv.freeStaQueue) ∧ a₁.sta r' = a.sta r' := by
  rcases subject with ⟨found, rfl⟩ | ⟨rest, queue, rfl⟩
  · have same := relisted_leaveAsocList a r
    have sta (r' : Offset) : (a.leaveAsocList r).sta r' = a.sta r' := congrFun same.stainfo r'
    exact ⟨.inl ⟨found, sta r, same.freeStaQueue⟩, fun r' _ => ⟨fun out => same.freeStaQueue ▸ out, sta r'⟩⟩
  · let a₀ : AccessPoint := { a with stapriv := a.stapriv.allocated r rest sa }
    have new : a₀.sta r = { StaInfo.init with macAddr := sa } := Function.update_self ..
    have own : (admitted a r rest sa).sta r = { StaInfo.init with macAddr := sa, state := wifiFwAuthNull } := by
      rw [show (admitted a r rest sa).sta r = _ from sta_setSta_self _, new]
      rfl
    rw [queue] at nodup
    refine ⟨.inr ⟨queue ▸ List.mem_cons_self .., (List.nodup_cons.mp nodup).1, own⟩, fun r' other => ⟨fun out => ?_, ?_⟩⟩
    · rw [queue, List.mem_cons, not_or]
      exact ⟨other, out⟩
    · exact (sta_setSta_other other _).trans (Function.update_of_ne other ..)

/-- What `OnAuth` does: nothing that decides changes, or one station passes. -/
theorem onAuth_cases {cfg : ApConfig} (tidy : Tidy a.stapriv) (received : AuthFrame) :
    Quiet a (onAuth cfg a received).1 ∨ ∃ r pstat,
      ((a.stapriv.getStainfo received.sa = some r ∧ pstat = a.sta r) ∨
        (r ∈ a.stapriv.freeStaQueue ∧ pstat = { StaInfo.init with macAddr := received.sa, state := wifiFwAuthNull })) ∧
      badAlg (authMode cfg) (received.opened cfg.keys) = false ∧
      authStatus (authMode cfg) pstat (received.opened cfg.keys) = .successful ∧
      (onAuth cfg a received).1.sta r = authFinish (authMode cfg) pstat (received.opened cfg.keys) ∧
      (onAuth cfg a received).2 = some (authReply (authMode cfg) pstat (received.opened cfg.keys)) ∧
      ∀ r', r' ≠ r → r' ∉ (onAuth cfg a received).1.stapriv.freeStaQueue →
        r' ∉ a.stapriv.freeStaQueue ∧ ((onAuth cfg a received).1.sta r').credit = (a.sta r').credit := by
  obtain same | ⟨r, a₁, subject, goodAlg, checked, result, whole⟩ := onAuth_shape cfg a received
  · rw [same]
    exact .inl fun r out => ⟨out, id, rfl⟩
  rw [whole]
  obtain ⟨own, others⟩ := subject.records tidy.nodup
  by_cases passes : authStatus (authMode cfg) (a₁.sta r) (received.opened cfg.keys) = .successful
  · rw [authSta_passed passes] at result
    subst result
    have queue : (a₁.enterAuthList r).stapriv.freeStaQueue = a₁.stapriv.freeStaQueue :=
      (relisted_enterAuthList a₁ r).freeStaQueue
    refine .inr ⟨r, a₁.sta r, ?_, goodAlg, passes, sta_setSta_self _, rfl, fun r' other out => ?_⟩
    · exact own.imp (fun known => ⟨known.1, known.2.1⟩) fun new => ⟨new.1, new.2.2⟩
    · have out : r' ∉ (a₁.enterAuthList r).stapriv.freeStaQueue := out
      rw [queue] at out
      refine ⟨(others r' other).1 out, ?_⟩
      rw [sta_setSta_other other, sta_enterAuthList, (others r' other).2]
  · have rejected := authSta_rejected passes
    rw [result] at rejected
    rw [rejected]
    refine .inl fun r' out => ?_
    obtain ⟨before, same⟩ := quiet_freeStainfo (a₁.enterAuthList r) (some r) r' out
    rw [(relisted_enterAuthList a₁ r).freeStaQueue] at before
    rw [sta_enterAuthList] at same
    rcases eq_or_ne r' r with rfl | other
    · obtain ⟨-, sta, queue⟩ | ⟨-, -, sta⟩ := own
      · exact ⟨queue ▸ before, sta ▸ same⟩
      · -- a new record goes back into the free queue
        have low : ((a₁.enterAuthList r').stapriv.stainfo r').aid ≤ 31 := by
          have aid : ((a₁.enterAuthList r').sta r').aid = 0 := by
            rw [sta_enterAuthList, sta]
            rfl
          exact aid.trans_le (Nat.zero_le 31)
        have back := freeStainfo_freeStaQueue (a₁.enterAuthList r').state low
        exact absurd (back ▸ List.mem_append_right _ (List.mem_singleton_self r')) out
    · exact ⟨(others r' other).1 before, (others r' other).2 ▸ same⟩

/-! ## The other frames -/

/-- Only record `r` has changed, and it expects the same. -/
def Beside (r : Offset) (a a' : AccessPoint) : Prop :=
  a'.stapriv.freeStaQueue = a.stapriv.freeStaQueue ∧ a'.stapriv.staHash = a.stapriv.staHash ∧
    ∀ r', (r' ≠ r → (a'.sta r').credit = (a.sta r').credit) ∧ (a'.sta r').credit.2 = (a.sta r').credit.2

theorem Beside.trans {a b c : AccessPoint} (first : Beside r a b) (second : Beside r b c) : Beside r a c := by
  obtain ⟨queue, hash, same⟩ := first
  obtain ⟨queue', hash', same'⟩ := second
  exact ⟨queue'.trans queue, hash'.trans hash, fun r' =>
    ⟨fun other => ((same' r').1 other).trans ((same r').1 other), (same' r').2.trans (same r').2⟩⟩

theorem Beside.quiet {a a' : AccessPoint} (beside : Beside r a a') (trusted : (a.sta r).trusted = true) : Quiet a a' := by
  obtain ⟨queue, -, same⟩ := beside
  intro r' out
  rw [queue] at out
  refine ⟨out, fun trusted' => ?_, (same r').2⟩
  rcases eq_or_ne r' r with rfl | other
  · exact trusted
  · rw [(credit_quiet ((same r').1 other)).1 trusted']

theorem beside_setSta {psta : StaInfo} (same : psta.credit.2 = (a.sta r).credit.2) : Beside r a (a.setSta r psta) := by
  refine ⟨rfl, rfl, fun r' => ⟨fun other => ?_, ?_⟩⟩
  · rw [sta_setSta_other other]
  · rcases eq_or_ne r' r with rfl | other
    · rw [sta_setSta_self, same]
    · rw [sta_setSta_other other]

theorem beside_relisted {a a' : AccessPoint} (same : Relisted a a') : Beside r a a' :=
  ⟨same.freeStaQueue, same.staHash, fun r' => by simp [sta, same.stainfo]⟩

theorem beside_setCell (a : AccessPoint) (r : Offset) (c : Cell) : Beside r a (a.setCell r c) :=
  ⟨rfl, rfl, fun r' => ⟨fun _ => credit_setCell c r', congrArg Prod.snd (credit_setCell c r')⟩⟩

theorem beside_getAid {n : Nat} {s' : StaPriv} (room : getAid n a.stapriv r = some s') :
    Beside r a { a with stapriv := s' } := by
  have renumbered (s : StaPriv) (aid : Nat) (queue : s.freeStaQueue = a.stapriv.freeStaQueue)
      (hash : s.staHash = a.stapriv.staHash) (stainfo : s.stainfo = a.stapriv.stainfo) :
      Beside r a { a with stapriv := s.setStainfo r { a.sta r with aid } } := by
    refine ⟨queue, hash, fun r' => ⟨fun other => ?_, ?_⟩⟩
    · simp [sta, setStainfo, other, stainfo]
    · rcases eq_or_ne r' r with rfl | other
      · simp [sta, setStainfo, StaInfo.credit]
      · simp [sta, setStainfo, other, stainfo]
  rw [getAid] at room
  split at room
  · cases room
    exact ⟨rfl, rfl, fun r' => ⟨fun _ => rfl, rfl⟩⟩
  split at room
  · split at room
    · cases room
    · cases room
      exact renumbered _ _ rfl rfl rfl
  · cases room
    exact renumbered _ _ rfl rfl rfl

theorem beside_assocSta (a : AccessPoint) (r : Offset) : Beside r a (assocSta a r) := by
  let a₁ := a.setSta r { a.sta r with state := ((a.sta r).state &&& ~~~wifiFwAssocState) ||| wifiFwAssocSuccess }
  have set : Beside r a a₁ := beside_setSta rfl
  have left : Beside r a₁ (a₁.leaveAuthList r) := beside_relisted (relisted_leaveAuthList a₁ r)
  have entered := beside_relisted (r := r) (relisted_enterAsocList (a₁.leaveAuthList r) r)
  exact (((set.trans left).trans entered).trans (beside_setCell _ r _)).trans (beside_setSta rfl)

theorem onAssocReq_beside (cfg : ApConfig) (a : AccessPoint) (q : AssocReq) :
    onAssocReq cfg a q = a ∨ ∃ r, (a.sta r).trusted = true ∧ Beside r a (onAssocReq cfg a q) := by
  rw [onAssocReq]
  split
  swap
  · exact .inl rfl
  split
  · exact .inl rfl
  rename_i r found
  dsimp only
  split
  · exact .inl rfl
  rename_i known
  have trusted : (a.sta r).trusted = true := by
    rw [StaInfo.trusted, Bool.or_eq_true, bne_iff_ne, bne_iff_ne]
    exact not_and_or.mp known
  let a₁ := a.setSta r { a.sta r with
    state := ((a.sta r).state &&& ~~~if (a.sta r).state &&& wifiFwAuthSuccess = 0 then wifiFwAssocSuccess
      else wifiFwAuthSuccess) ||| wifiFwAssocState
    cap := q.cap }
  have set : Beside r a a₁ := beside_setSta rfl
  have fail : Beside r a (onAssocReqFail a₁ r) := set.trans (beside_setSta rfl)
  refine .inr ⟨r, trusted, ?_⟩
  split
  · split
    · exact fail
    · rename_i room
      exact (set.trans (beside_getAid room)).trans (beside_assocSta _ r)
  · exact fail

theorem quiet_apFreeSta (a : AccessPoint) (r : Offset) : Quiet a (apFreeSta a r) := by
  let a₁ := a.setSta r { a.sta r with state := (a.sta r).state &&& ~~~fwLinked }
  have set : Quiet a a₁ := quiet_setSta (unlinked_credit (a.sta r))
  exact (set.trans (quiet_setCell a₁ r _)).trans (quiet_freeStainfo _ (some r))

theorem quiet_staLeaves (cfg : ApConfig) (a : AccessPoint) (f : LeaveFrame) : Quiet a (staLeaves cfg a f) := by
  have still : Quiet a a := fun r out => ⟨out, id, rfl⟩
  rw [staLeaves]
  split
  swap
  · exact still
  split
  · exact still
  rename_i r found
  split
  · exact (quiet_relisted (relisted_leaveAsocList a r)).trans (quiet_apFreeSta _ r)
  · exact still

/-! ## The table stays tidy -/

theorem Tidy.same {s s' : StaPriv} (tidy : Tidy s) (queue : s'.freeStaQueue = s.freeStaQueue)
    (hash : s'.staHash = s.staHash) : Tidy s' :=
  ⟨queue ▸ tidy.nodup, fun r ⟨index, inside⟩ => queue ▸ tidy.apart r ⟨index, hash ▸ inside⟩⟩

theorem freeStainfo_table (s : StaPriv) (mode : UInt32) (r : Offset) :
    (s.freeStainfo mode (some r)).staHash = (fun index => (s.staHash index).filter (· ≠ r)) ∧
      ((s.freeStainfo mode (some r)).freeStaQueue = s.freeStaQueue ∨
        (s.freeStainfo mode (some r)).freeStaQueue = s.freeStaQueue ++ [r]) := by
  by_cases high : 31 < ((s.unhashed r).stainfo r).aid
  · have leaked : s.freeStainfo mode (some r) = s.unhashed r := if_pos high
    rw [leaked]
    exact ⟨by simp [unhashed, setStainfo, unhash], .inl (by simp [unhashed, setStainfo, unhash])⟩
  · have low : (s.stainfo r).aid ≤ 31 := by
      rw [unhashed_aid] at high
      exact Nat.not_lt.mp high
    exact ⟨freeStainfo_staHash mode low, .inr (freeStainfo_freeStaQueue mode low)⟩

theorem Tidy.freeStainfo {s : StaPriv} (tidy : Tidy s) (hashed : s.Hashed r) (mode : UInt32) :
    Tidy (s.freeStainfo mode (some r)) := by
  obtain ⟨hash, queue⟩ := freeStainfo_table s mode r
  have away : ∀ r', (s.freeStainfo mode (some r)).Hashed r' → r' ∉ s.freeStaQueue ∧ r' ≠ r := by
    rintro r' ⟨index, inside⟩
    rw [hash] at inside
    obtain ⟨inside, other⟩ := List.mem_filter.mp inside
    exact ⟨tidy.apart r' ⟨index, inside⟩, of_decide_eq_true other⟩
  rcases queue with queue | queue
  · exact ⟨queue ▸ tidy.nodup, fun r' hashed' => queue ▸ (away r' hashed').1⟩
  · refine ⟨queue ▸ nodup_append_new tidy.nodup (tidy.apart r hashed), fun r' hashed' => ?_⟩
    rw [queue, List.mem_append, List.mem_singleton, not_or]
    exact away r' hashed'

theorem Tidy.allocated {s : StaPriv} (tidy : Tidy s) {rest : List Offset} (queue : s.freeStaQueue = r :: rest)
    (hwaddr : MacAddr) : Tidy (s.allocated r rest hwaddr) ∧ (s.allocated r rest hwaddr).Hashed r := by
  have nodup : (r :: rest).Nodup := queue ▸ tidy.nodup
  obtain ⟨out, nodup⟩ := List.nodup_cons.mp nodup
  have chain : (s.allocated r rest hwaddr).staHash =
      Function.update s.staHash (chainOf hwaddr) (s.staHash (chainOf hwaddr) ++ [r]) := rfl
  refine ⟨⟨nodup, fun r' hashed' => ?_⟩, chainOf hwaddr, by simp [chain]⟩
  obtain ⟨index, inside⟩ := hashed'
  have old (inside : r' ∈ s.staHash index) : r' ∉ rest := fun waiting =>
    tidy.apart r' ⟨index, inside⟩ (queue ▸ List.mem_cons_of_mem _ waiting)
  rw [chain] at inside
  rcases eq_or_ne index (chainOf hwaddr) with rfl | other
  · rw [Function.update_self, List.mem_append, List.mem_singleton] at inside
    rcases inside with inside | rfl
    · exact old inside
    · exact out
  · rw [Function.update_of_ne other] at inside
    exact old inside

theorem AuthSubject.tidy {sa : MacAddr} {a₁ : AccessPoint} (subject : AuthSubject a sa r a₁) (tidy : Tidy a.stapriv) :
    Tidy a₁.stapriv ∧ a₁.stapriv.Hashed r := by
  rcases subject with ⟨found, rfl⟩ | ⟨rest, queue, rfl⟩
  · have same := relisted_leaveAsocList a r
    obtain ⟨index, inside⟩ := (getStainfo_hashed found).1
    exact ⟨tidy.same same.freeStaQueue same.staHash, index, same.staHash ▸ inside⟩
  · obtain ⟨tidy₁, hashed⟩ := tidy.allocated queue sa
    exact ⟨tidy₁.same rfl rfl, hashed⟩

theorem Tidy.receiveMgnt (tidy : Tidy a.stapriv) (cfg : ApConfig) (ev : ApEvent) :
    Tidy (receiveMgnt cfg a ev).stapriv := by
  have leaves (f : LeaveFrame) : Tidy (staLeaves cfg a f).stapriv := by
    rw [staLeaves]
    split
    swap
    · exact tidy
    split
    · exact tidy
    rename_i r found
    split
    swap
    · exact tidy
    have same := relisted_leaveAsocList a r
    obtain ⟨index, inside⟩ := (getStainfo_hashed found).1
    have left : Tidy (a.leaveAsocList r).stapriv := tidy.same same.freeStaQueue same.staHash
    have inside : r ∈ (a.leaveAsocList r).stapriv.staHash index := same.staHash ▸ inside
    let a₁ := (a.leaveAsocList r).setSta r
      { (a.leaveAsocList r).sta r with state := ((a.leaveAsocList r).sta r).state &&& ~~~fwLinked }
    have counted : Tidy (a₁.setCell r (bssCapUpdateOnStaLeave (a₁.cell r)).1).stapriv := left.same rfl rfl
    exact counted.freeStainfo ⟨index, inside⟩ a₁.state
  cases ev with
  | auth received =>
      obtain same | ⟨r, a₁, subject, -, checked, result, whole⟩ := onAuth_shape cfg a received
      all_goals show Tidy (onAuth cfg a received).1.stapriv
      · rw [same]
        exact tidy
      obtain ⟨tidy₁, hashed⟩ := subject.tidy tidy
      have listed := relisted_enterAuthList a₁ r
      have entered := tidy₁.same listed.freeStaQueue listed.staHash
      rw [whole, ← result]
      by_cases passes : authStatus (authMode cfg) (a₁.sta r) (received.opened cfg.keys) = .successful
      · rw [authSta_passed passes]
        exact entered.same rfl rfl
      · rw [authSta_rejected passes]
        obtain ⟨index, inside⟩ := hashed
        exact entered.freeStainfo ⟨index, listed.staHash ▸ inside⟩ _
  | assocReq q =>
      show Tidy (onAssocReq cfg a q).stapriv
      obtain same | ⟨r, -, queue, hash, -⟩ := onAssocReq_beside cfg a q
      · rw [same]
        exact tidy
      · exact tidy.same queue hash
  | deAuth f => exact leaves f
  | disassoc f => exact leaves f

end Steps

/-! ## Every run -/

section Runs

variable {cfg : ApConfig} {keys : SecurityKeys} {psta psta' : StaInfo} {log : List Happening} {w : Watched}

/-- What a record says is in its log. -/
structure Credited (keys : SecurityKeys) (psta : StaInfo) (log : List Happening) : Prop where
  trusted : psta.trusted = true → Proven keys log
  expected : psta.authSeq = 2 → .sent psta.chgTxt ∈ log

theorem Proven.later (proven : Proven keys log) (more : List Happening) : Proven keys (more ++ log) := by
  obtain ⟨later, f, earlier, chgTxt, rfl, sent, proves⟩ := proven
  exact ⟨more ++ later, f, earlier, chgTxt, by simp, sent, proves⟩

theorem Credited.later (credited : Credited keys psta log) (trusted : psta'.trusted = true → psta.trusted = true)
    (same : psta'.credit.2 = psta.credit.2) (more : List Happening) : Credited keys psta' (more ++ log) := by
  have authSeq : psta'.authSeq = psta.authSeq := congrArg Prod.fst same
  have chgTxt : psta'.chgTxt = psta.chgTxt := congrArg (fun t => t.2.1) same
  refine ⟨fun now => (credited.trusted (trusted now)).later more, fun two => ?_⟩
  rw [chgTxt]
  exact List.mem_append_right _ (credited.expected (authSeq ▸ two))

/-- Every allocated record's log supports it. -/
structure Honest (keys : SecurityKeys) (w : Watched) : Prop where
  tidy : Tidy w.ap.stapriv
  credited : ∀ r, r ∉ w.ap.stapriv.freeStaQueue → Credited keys (w.ap.sta r) (w.log r)

/-- The log of a record that was allocated before. -/
theorem log_later {ev : ApEvent} {r : Offset} (out : r ∉ (receiveMgnt cfg w.ap ev).stapriv.freeStaQueue)
    (before : r ∉ w.ap.stapriv.freeStaQueue) : ∃ more, (watch cfg w ev).log r = more ++ w.log r := by
  refine ⟨challenged ((receiveMgnt cfg w.ap ev).sta r).macAddr (replyOf cfg w.ap ev) ++
    heard ((receiveMgnt cfg w.ap ev).sta r).macAddr ev, ?_⟩
  simp only [watch, out, before, if_false, List.append_assoc]

theorem Honest.quiet (honest : Honest keys w) {ev : ApEvent} (quiet : Quiet w.ap (receiveMgnt cfg w.ap ev)) :
    Honest keys (watch cfg w ev) := by
  refine ⟨honest.tidy.receiveMgnt cfg ev, fun r out => ?_⟩
  obtain ⟨before, trusted, same⟩ := quiet r out
  obtain ⟨more, log⟩ := log_later out before
  rw [log]
  exact (honest.credited r before).later trusted same more

theorem answers_carries {f : AuthFrame} {chgTxt : List UInt8} (answers : f.answers chgTxt = true) :
    f.Carries chgTxt := by
  rw [AuthFrame.answers] at answers
  split at answers
  · cases answers
  · rename_i p found
    rw [Bool.and_eq_true, beq_iff_eq] at answers
    exact ⟨p, found, answers.2⟩

/-- A station that passes has its credit in the log. -/
theorem credited_passed (shared : authMode cfg = .shared) {received : AuthFrame}
    (goodAlg : badAlg (authMode cfg) (received.opened cfg.keys) = false)
    (passes : authStatus (authMode cfg) psta (received.opened cfg.keys) = .successful)
    (old : Credited cfg.keys psta log)
    (answered : psta.authSeq = 2 → (received.opened cfg.keys).seq = 3 →
      (received.opened cfg.keys).answers psta.chgTxt = true →
        received.Genuine cfg.keys ∧ (received.opened cfg.keys).Whole ∧ psta.macAddr = received.sa) :
    Credited cfg.keys (authFinish (authMode cfg) psta (received.opened cfg.keys))
      (challenged psta.macAddr (some (authReply (authMode cfg) psta (received.opened cfg.keys))) ++
        (heard psta.macAddr (.auth received) ++ log)) := by
  rw [shared] at goodAlg passes ⊢
  by_cases first : (received.opened cfg.keys).seq = 1
  · obtain ⟨trusted, addr1, challenge⟩ := @shared_first psta (received.opened cfg.keys) goodAlg first
    refine ⟨fun now => ((old.trusted (trusted ▸ now)).later _).later _, fun _ => List.mem_append_left _ ?_⟩
    rw [challenged, if_pos addr1, challenge]
    exact List.mem_singleton_self _
  · obtain ⟨third, two, answers, done⟩ := shared_third passes first
    obtain ⟨genuine, whole, address⟩ := answered two third answers
    refine ⟨fun _ => Proven.later ?_ _, fun now => absurd (done ▸ now) (by decide)⟩
    refine ⟨[], received, log, psta.chgTxt, ?_, old.expected two, genuine, third, whole, answers_carries answers⟩
    rw [heard, if_pos address.symm]
    rfl

theorem Honest.step (shared : cfg.dot11AuthAlgrthm = .shared) (honest : Honest cfg.keys w) {ev : ApEvent}
    (meets : meetsShared cfg w ev) : Honest cfg.keys (watch cfg w ev) := by
  cases ev with
  | auth received =>
      have mode : authMode cfg = .shared := by rw [authMode, shared, if_neg (by simp)]
      obtain quiet | ⟨r, pstat, subject, goodAlg, passes, own, reply, others⟩ := onAuth_cases honest.tidy received
      · exact honest.quiet quiet
      refine ⟨honest.tidy.receiveMgnt cfg _, fun r' out => ?_⟩
      rcases eq_or_ne r' r with rfl | other
      swap
      · obtain ⟨before, same⟩ := others r' other out
        obtain ⟨more, log⟩ := log_later out before
        rw [log]
        exact (honest.credited r' before).later (credit_quiet same).1 (credit_quiet same).2 more
      have address : (authFinish (authMode cfg) pstat (received.opened cfg.keys)).macAddr = pstat.macAddr :=
        authFinish_macAddr ..
      have log : (watch cfg w (.auth received)).log r' = challenged pstat.macAddr
          (some (authReply (authMode cfg) pstat (received.opened cfg.keys))) ++ (heard pstat.macAddr (.auth received) ++
            if r' ∈ w.ap.stapriv.freeStaQueue then [] else w.log r') := by
        have out : r' ∉ (receiveMgnt cfg w.ap (.auth received)).stapriv.freeStaQueue := out
        have own : (receiveMgnt cfg w.ap (.auth received)).sta r' = _ := own
        have reply : replyOf cfg w.ap (.auth received) = _ := reply
        simp only [watch, if_neg out, own, reply, address]
      have own : (watch cfg w (.auth received)).ap.sta r' = _ := own
      rw [log, own]
      rcases subject with ⟨found, rfl⟩ | ⟨free, rfl⟩
      · obtain ⟨hashed, looked⟩ := getStainfo_hashed found
        have before := honest.tidy.apart r' hashed
        rw [if_neg before]
        refine credited_passed mode goodAlg passes (honest.credited r' before) fun two third answers => ?_
        obtain ⟨genuine, whole, unicast⟩ := meets r' found two third answers
        refine ⟨genuine, whole, looked.trans ?_⟩
        exact if_neg (by simp [unicast])
      · rw [if_pos free]
        refine credited_passed mode goodAlg passes ⟨fun trusted => ?_, fun two => ?_⟩ fun two => ?_
        · have none_ : (wifiFwAuthNull &&& wifiFwAuthSuccess != 0 || wifiFwAuthNull &&& wifiFwAssocSuccess != 0) = true :=
            trusted
          exact absurd none_ (by decide)
        · exact absurd (show (0 : UInt32) = 2 from two) (by decide)
        · exact absurd (show (0 : UInt32) = 2 from two) (by decide)
  | assocReq q =>
      obtain same | ⟨r, trusted, beside⟩ := onAssocReq_beside cfg w.ap q
      · refine honest.quiet fun r out => ?_
        have same : receiveMgnt cfg w.ap (.assocReq q) = w.ap := same
        rw [same] at out ⊢
        exact ⟨out, id, rfl⟩
      · exact honest.quiet (beside.quiet trusted)
  | deAuth f => exact honest.quiet (quiet_staLeaves cfg w.ap f)
  | disassoc f => exact honest.quiet (quiet_staLeaves cfg w.ap f)

end Runs

/-- The logs are empty when the access point starts. -/
def watchStart (pnetdev : Bool) (start : AccessPoint) : Watched := ⟨startApMode pnetdev start, fun _ => []⟩

theorem AccessPoint.Idle.honest {start : AccessPoint} (idle : Idle start) (pnetdev : Bool) (keys : SecurityKeys) :
    Honest keys (watchStart pnetdev start) := by
  have kept := (idle.booked (n := 0) pnetdev).kept
  refine ⟨⟨kept.placed.nodup .free, fun r => (hashed_iff kept).mp⟩, fun r out => ?_⟩
  rw [show (watchStart pnetdev start).ap.sta r = _ from idle.fresh pnetdev out]
  exact ⟨fun trusted => absurd trusted (by decide), fun two => absurd two (by decide)⟩

/-- A frame of shared-key authentication from `oneAddr`, in plain text. -/
def plainFrame (seq : UInt8) : AuthFrame :=
  ⟨fun i => if i = 24 then 1 else if i = 26 then seq else if 10 ≤ i ∧ i < 16 then 2
    else if i = 34 then 16 else if i = 35 then 128 else if 36 ≤ i then 78 else 0, 164⟩

end Vmac.Ap
