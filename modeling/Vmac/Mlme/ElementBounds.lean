/-
# Vmac.Mlme.ElementBounds -- the elements for which the handlers stay inside

* `ComesTo`: the elements that a loop comes to, each behind the one before it.
* `elements_safe_iff`: the loop stays inside if the header of each is whole, and what the round reads of it.
* `assocRspElement_safe_iff`, `beaconElement_safe_iff`: how far a handler reads into an element.
-/
import Vmac.Mlme.Bounds

namespace Vmac.Mlme

open Theory.Bytes Theory.Elements Theory.Walk Theory.Action Security Ie

set_option autoImplicit false

/-! ## The loop -/

section Loops

variable {κ : Type} {m : Mem} {len p : Nat} {each : κ → Nat → Handler Unit} {next : κ → Nat → κ} {ends : κ → Nat → Prop}
  {s : Nat × κ} {k : κ}

/-- The elements that a loop comes to, with the states that it comes in; behind an element whose handler does not end
there are none. -/
inductive ComesTo (m : Mem) (len : Nat) (ends : κ → Nat → Prop) (next : κ → Nat → κ) (s : Nat × κ) : Nat → κ → Prop where
  | first : ComesTo m len ends next s s.1 s.2
  | behind {p : Nat} {k : κ} (before : ComesTo m len ends next s p k) (below : p < len) (past : ends k p) :
      ComesTo m len ends next s (p + ieLength m p + 2) (next k p)

theorem elements_returns_iff {t : Nat × κ} : (elements m len each next s).Returns (.inr t) ↔
    s.1 < len ∧ (each s.2 s.1).Returns () ∧ t = (s.1 + ieLength m s.1 + 2, next s.2 s.1) := by
  rw [elements]
  by_cases below : s.1 < len
  · have unit : (∃ u, (each s.2 s.1).Returns u) ↔ (each s.2 s.1).Returns () := ⟨fun ⟨(), there⟩ => there, fun there => ⟨(), there⟩⟩
    simp [below, unit, exists_and_right]
  · simp [below]

theorem met_iff (past : ∀ k p, (each k p).Returns () ↔ ends k p) {t : Nat × κ} :
    Act.Met (elements m len each next) s t ↔ ComesTo m len ends next s t.1 t.2 := by
  constructor
  · intro met
    induction met with
    | start => exact .first
    | next _ goes ih =>
        obtain ⟨below, returns, rfl⟩ := elements_returns_iff.mp goes
        exact .behind ih below ((past _ _).mp returns)
  · have each_met {p : Nat} {k : κ} (comes : ComesTo m len ends next s p k) : Act.Met (elements m len each next) s (p, k) := by
      induction comes with
      | first => exact .start
      | behind _ below returns ih =>
          exact .next ih (elements_returns_iff.mpr ⟨below, (past _ _).mpr returns, rfl⟩)
    exact each_met

theorem elements_safe_iff (past : ∀ k p, (each k p).Returns () ↔ ends k p) :
    (Act.walk (elements m len each next) s).Safe (Access.Inside len) ↔ ∀ p k, ComesTo m len ends next s p k → p < len →
      p + 2 ≤ len ∧ (each k p).Safe (Access.Inside len) := by
  have round (p : Nat) (k : κ) : (elements m len each next (p, k)).Safe (Access.Inside len) ↔
      (p < len → p + 2 ≤ len ∧ (each k p).Safe (Access.Inside len)) := by
    rw [elements]
    simp [Act.safe_ite]
  rw [Act.safe_walk_iff, Prod.forall]
  simp only [met_iff past, round]

end Loops

/-! ## The WFD element -/

section Wfd

variable {m : Mem} {len n p q : Nat}

/-- `attr_len` of the attribute at `q`. -/
def wfdAttrLen (m : Mem) (q : Nat) : Nat := u16 (getBe16 m (q + 1) + 3)

/-- An attribute that `rtw_get_wfd_attr` comes to in an element of which it is given `n` bytes, and that ends in them. -/
inductive WfdAttr (m : Mem) (n : Nat) : Nat → Prop where
  | first : WfdAttr m n 6
  | behind {q : Nat} (before : WfdAttr m n q) (header : q + 3 ≤ n) (fits : q + wfdAttrLen m q ≤ n) (other : m q ≠ 0) :
      WfdAttr m n (q + wfdAttrLen m q)

theorem passes_wfd_iff :
    Act.Passes ((wfdAttrLoop m n 0 false).shift fun a => Access.read (p + a)) 6 q ↔ WfdAttr m n q := by
  have zero (q : Nat) : (m q).toNat = 0 ↔ m q = 0 := by rw [← UInt8.toNat_inj]; rfl
  constructor
  · intro passes
    induction passes with
    | start => exact .first
    | @next q _ _ goes ih =>
        simp only [Loop.shift, wfdAttrLoop, tlvAttrLoop] at goes
        split at goes
        · rename_i header
          split at goes
          · exact absurd goes (by simp)
          · split at goes
            · exact absurd goes (by simp)
            · rename_i fits other
              cases Sum.inr.inj goes
              exact .behind ih header (by simpa [wfdAttrLen] using fits) (by simpa [zero] using other)
        · exact absurd goes (by simp)
  · intro attr
    induction attr with
    | first => exact .start
    | @behind q _ header fits other ih =>
        refine .next ih ?_
        have fits' : ¬n < q + u16 (getBe16 m (q + 1) + 3) := by simpa [wfdAttrLen] using fits
        simp [Loop.shift, wfdAttrLoop, tlvAttrLoop, header, fits', zero, other, wfdAttrLen]

/-- The device information of which `RTW_GET_BE16(attr_content + 2)` is read. -/
def IsDeviceInfo (m : Mem) (n q : Nat) : Prop :=
  WfdAttr m n q ∧ q + 3 ≤ n ∧ q + wfdAttrLen m q ≤ n ∧ m q = 0 ∧ wfdAttrLen m q ≠ 0 ∧ wfdAttrLen m q ≠ 3

/-- The search for the device information ends. -/
def WfdEnds (m : Mem) (n : Nat) : Prop := ∃ turns r, (AttrSearch.wfd n.toUInt32 0 false).run m turns = some r

/-- All headers of attributes lie in the frame, and the port of the device information. -/
def WfdFits (m : Mem) (p len : Nat) : Prop :=
  6 < ieLength m p → ∀ q,
    (WfdAttr (fromPtr m p) (ieLength m p) q → q + 3 ≤ ieLength m p → p + q + 3 ≤ len) ∧
      (IsDeviceInfo (fromPtr m p) (ieLength m p) q → p + q + 7 ≤ len)

theorem wfdAttrLen_lt (m : Mem) (q : Nat) : wfdAttrLen m q < 2 ^ 16 := Nat.mod_lt _ (by decide)

theorem uintSub_three {k : Nat} (small : k < 2 ^ 16) : Ap.uintSub k 3 = 0 ↔ k = 3 := by
  rw [Ap.uintSub]
  omega

theorem returns_wfd_iff {q : Nat} {r : Found} :
    ((wfdAttrLoop m n 0 false).shift fun a => Access.read (p + a)).round q = .inl r ↔
      (q + 3 ≤ n ∧ q + wfdAttrLen m q ≤ n → m q = 0) ∧
        r = if q + 3 ≤ n ∧ q + wfdAttrLen m q ≤ n then some (q, wfdAttrLen m q) else none := by
  have zero : (m q).toNat = 0 ↔ m q = 0 := by rw [← UInt8.toNat_inj]; rfl
  have len : u16 (getBe16 m (q + 1) + 3) = wfdAttrLen m q := rfl
  simp only [Loop.shift, wfdAttrLoop, tlvAttrLoop, zero, len]
  by_cases header : q + 3 ≤ n
  · by_cases fits : q + wfdAttrLen m q ≤ n
    · by_cases found : m q = 0
      · simp [header, fits, found, Nat.not_lt.mpr fits, eq_comm]
      · simp [header, fits, found, Nat.not_lt.mpr fits]
    · simp [header, fits, show n < q + wfdAttrLen m q by omega, eq_comm]
  · simp [header, eq_comm]

theorem wfdPort_safe_iff (attrLen : Nat) (small : attrLen < 2 ^ 16) :
    (wfdPort p (some (q, attrLen))).Safe (Access.Inside len) ↔ (attrLen ≠ 0 → attrLen ≠ 3 → p + q + 7 ≤ len) := by
  by_cases zero : attrLen = 0
  · simp [wfdPort, attrContent, zero]
  · simp only [wfdPort, attrContent, ne_eq, zero, not_false_eq_true, if_true, lookIf_safe_iff, bne_iff_ne,
      uintSub_three small, true_implies]
    omega

theorem returns_wfdPort (attr : Found) : (wfdPort p attr).Returns () := by
  rw [wfdPort]
  split
  · exact returns_lookIf
  · exact Act.returns_pure.mpr rfl

section Opened

variable {miracast : Bool} (is : m p = 221) (oui : bytesAt m (p + 2) 4 = [0x50, 0x6f, 0x9a, 0x0a])

include is oui

/-- The search, for an element that begins as a WFD element does. -/
theorem wfdDeviceInfo_eq : wfdDeviceInfo m p (ieLength m p) =
    (if ieLength m p ≤ 6 then pure none
    else do
      look p 1
      look (p + 2) 4
      .ofLoop ((wfdAttrLoop (fromPtr m p) (ieLength m p) 0 false).shift fun a => .read (p + a)) 6) := by
  have size : (ieLength m p).toUInt32.toNat = ieLength m p := by
    have small := (m (p + 1)).toNat_lt
    show ieLength m p % 2 ^ 32 = ieLength m p
    rw [ieLength]
    omega
  have opens : (AttrSearch.wfd (ieLength m p).toUInt32 0 false).opens (fromPtr m p) = true :=
    opens_iff.mpr ⟨is, oui⟩
  simp [wfdDeviceInfo, AttrSearch.tooShort, size, opens, is, lookIf, AttrSearch.loop]

theorem wfd_safe_iff (room : p + 6 ≤ len) :
    (rtwProcessWfdIe m p miracast).Safe (Access.Inside len) ↔ (miracast = true → WfdFits m p len) := by
  cases miracast with
  | false => simp [rtwProcessWfdIe]
  | true =>
      have places (q : Nat) : (∀ a ∈ ((wfdAttrLoop (fromPtr m p) (ieLength m p) 0 false).shift
          fun a => Access.read (p + a)).looks q, Access.Inside len a) ↔
          (q + 3 ≤ ieLength m p → p + q + 3 ≤ len) := by
        simp only [Loop.shift, wfdAttrLoop, tlvAttrLoop]
        split
        · rename_i header
          simp [Access.Inside, header]
          omega
        · rename_i header
          simp [header]
      rw [rtwProcessWfdIe, wfdDeviceInfo_eq is oui]
      by_cases short : ieLength m p ≤ 6
      · simp [short, WfdFits, wfdPort, attrContent, Nat.not_lt.mpr short]
      · simp only [short, Act.safe_bind, Act.forall_returns_bind, look_safe_iff, returns_look, if_true, if_false,
          Act.safe_ofLoop_iff, Act.returns_ofLoop_iff_passes, passes_wfd_iff, places, returns_wfd_iff]
        constructor
        · rintro ⟨⟨-, headers⟩, ports⟩ -
          intro _ q
          refine ⟨fun attr header => (headers () trivial).2 () trivial q attr header, ?_⟩
          rintro ⟨attr, header, fits, found, nonzero, content⟩
          have port := ports () trivial () trivial _ ⟨q, attr, fun _ => found, rfl⟩
          rw [if_pos ⟨header, fits⟩] at port
          exact (wfdPort_safe_iff _ (wfdAttrLen_lt _ _)).mp port nonzero content
        · intro fits
          have fits := fits trivial (by omega)
          refine ⟨⟨by omega, fun _ _ => ⟨by omega, fun _ _ q => (fits q).1⟩⟩, ?_⟩
          rintro - - - - y ⟨q, attr, found, rfl⟩
          by_cases inside : q + 3 ≤ ieLength m p ∧ q + wfdAttrLen (fromPtr m p) q ≤ ieLength m p
          · rw [if_pos inside, wfdPort_safe_iff _ (wfdAttrLen_lt _ _)]
            intro nonzero content
            exact (fits q).2 ⟨attr, inside.1, inside.2, found inside, nonzero, content⟩
          · simp [inside, wfdPort, attrContent]

/-- It comes to its end exactly if the search does. -/
theorem wfd_returns_iff :
    (rtwProcessWfdIe m p miracast).Returns () ↔ (miracast = true → WfdEnds (fromPtr m p) (ieLength m p)) := by
  have size : (ieLength m p).toUInt32.toNat = ieLength m p := by
    have small := (m (p + 1)).toNat_lt
    show ieLength m p % 2 ^ 32 = ieLength m p
    rw [ieLength]
    omega
  have opens : (AttrSearch.wfd (ieLength m p).toUInt32 0 false).opens (fromPtr m p) = true :=
    opens_iff.mpr ⟨is, oui⟩
  cases miracast with
  | false => simp [rtwProcessWfdIe]
  | true =>
      rw [rtwProcessWfdIe, wfdDeviceInfo_eq is oui]
      by_cases short : ieLength m p ≤ 6
      · simp [short, returns_wfdPort, WfdEnds, AttrSearch.run, AttrSearch.tooShort, size]
      · have turns : (∃ r, ((wfdAttrLoop (fromPtr m p) (ieLength m p) 0 false).shift
            fun a => Access.read (p + a)).Ends (fun _ => True) 6 r) ↔
            ∃ turns r, (wfdAttrLoop (fromPtr m p) (ieLength m p) 0 false).run turns 6 = some r := by
          simp only [Loop.shift_ends_iff]
          simp only [Loop.ends_iff_run, implies_true, and_true]
          exact exists_comm
        simp [short, returns_wfdPort, WfdEnds, AttrSearch.run, AttrSearch.tooShort, size, opens, AttrSearch.loop,
          Act.returns_ofLoop, turns]

end Opened

end Wfd

/-! ## The other handlers -/

variable {m : Mem} {len p : Nat}

/-- `n` bytes of the body, or none. -/
theorem lookIf_body_iff (header : p + 2 ≤ len) (c : Bool) (n : Nat) :
    (lookIf c (p + 2) n).Safe (Access.Inside len) ↔ p + 2 + (if c then n else 0) ≤ len := by
  cases c with
  | false => simpa using header
  | true =>
      simp only [lookIf_safe_iff, if_true, forall_const]
      omega

/-- How many bytes of the body `HT_caps_handler` reads. -/
def htCapsNeeds (m : Mem) (p : Nat) (c : Client) (caps : Caps) : Nat :=
  if c.htOption then
    max (ieLength m p) (max (if !c.apState && caps.htLdpc &&& enableTx != 0 then 1 else 0)
      (max (if caps.htStbc &&& enableTx != 0 then 2 else 0)
        (if caps.htBeamform &&& beamformeeEnable != 0 || caps.htBeamform &&& beamformerEnable != 0 then 25 else 0)))
  else 0

theorem htCapsHandler_safe_iff (header : p + 2 ≤ len) (c : Client) (caps : Caps) :
    (htCapsHandler m p c caps).Safe (Access.Inside len) ↔ p + 2 + htCapsNeeds m p c caps ≤ len := by
  cases option : c.htOption with
  | false => simp [htCapsHandler, htCapsNeeds, option, header]
  | true =>
      simp only [htCapsHandler, htCapsNeeds, option, if_true, Act.safe_bind, look_safe_iff, lookIf_safe_iff, returns_look,
        returns_lookIf, forall_const]
      generalize (!c.apState && caps.htLdpc &&& enableTx != 0) = ldpc
      generalize (caps.htStbc &&& enableTx != 0) = stbc
      generalize (caps.htBeamform &&& beamformeeEnable != 0) = beamformee
      generalize (caps.htBeamform &&& beamformerEnable != 0) = beamformer
      cases ldpc <;> cases stbc <;> cases beamformee <;> cases beamformer <;> simp <;> omega

theorem returns_htCapsHandler (c : Client) (caps : Caps) : (htCapsHandler m p c caps).Returns () := by
  rw [htCapsHandler]
  split <;> simp

theorem vhtCapsHandler_safe_iff (header : p + 2 ≤ len) (vhtOption : Bool) (caps : Caps) :
    (vhtCapsHandler m p vhtOption caps).Safe (Access.Inside len) ↔ p + 2 + (if vhtOption then 6 else 0) ≤ len := by
  cases vhtOption with
  | false => simp [vhtCapsHandler, header]
  | true =>
      simp only [vhtCapsHandler, if_true, Act.safe_bind, look_safe_iff, lookIf_safe_iff, returns_look, returns_lookIf,
        forall_const]
      omega

theorem returns_vhtCapsHandler (vhtOption : Bool) (caps : Caps) : (vhtCapsHandler m p vhtOption caps).Returns () := by
  rw [vhtCapsHandler]
  split <;> simp

/-! ## `OnAssocRsp` -/

/-- How many bytes of the body are read, for an element that is no WFD element. -/
def assocRspNeeds (c : Client) (m : Mem) (caps : Caps) (p : Nat) : Nat :=
  if m p = 221 then if bytesAt m (p + 2) 6 = wmmParaOui ∧ c.qosOption then 24 else 6
  else if m p = 45 then htCapsNeeds m p c caps
  else if m p = 61 then if c.htOption && decide (ieLength m p ≤ 22) then ieLength m p else 0
  else if m p = 191 then if c.vhtOption then 6 else 0
  else if m p = 42 then if decide (ieLength m p ≤ 1) then ieLength m p else 0
  else 0

/-- A WFD element that is looked at. -/
def IsWfd (c : Client) (m : Mem) (p : Nat) : Prop :=
  m p = 221 ∧ bytesAt m (p + 2) 6 ≠ wmmParaOui ∧ bytesAt m (p + 2) 4 = [0x50, 0x6f, 0x9a, 0x0a] ∧ c.miracast = true

theorem assocRspElement_safe_iff (c : Client) (caps : Caps) (header : p + 2 ≤ len) :
    (assocRspElement c m caps p).Safe (Access.Inside len) ↔
      p + 2 + assocRspNeeds c m caps p ≤ len ∧ (IsWfd c m p → WfdFits m p len) := by
  simp only [assocRspElement, assocRspNeeds, IsWfd, Act.safe_ite]
  by_cases vendor : m p = 221
  · by_cases wmm : bytesAt m (p + 2) 6 = wmmParaOui
    · cases qos : c.qosOption
      · simp [vendor, wmm, wmmParamHandler]
      · simp [vendor, wmm, wmmParamHandler]
        omega
    · by_cases oui : bytesAt m (p + 2) 4 = [0x50, 0x6f, 0x9a, 0x0a]
      · by_cases room : p + 2 + 6 ≤ len
        · simp [vendor, wmm, oui, room, wfd_safe_iff vendor oui (show p + 6 ≤ len by omega)]
          omega
        · simp [vendor, wmm, room]
      · simp [vendor, wmm, oui]
        omega
  · have none_ : ¬IsWfd c m p := fun wfd => vendor wfd.1
    simp only [vendor, if_false, false_implies, not_false_eq_true, true_implies]
    by_cases htCaps : m p = 45
    · simp [htCaps, htCapsHandler_safe_iff header]
    by_cases htInfo : m p = 61
    · simp [htInfo, htInfoHandler, lookIf_body_iff header]
    by_cases vhtCaps : m p = 191
    · simp [vhtCaps, vhtCapsHandler_safe_iff header]
    by_cases erp : m p = 42
    · simp [erp, erpIeHandler, lookIf_body_iff header]
    · simpa [htCaps, htInfo, vhtCaps, erp] using header

/-- The handler of an element comes to its end unless the search in a WFD element does not. -/
theorem returns_assocRspElement (c : Client) (caps : Caps) :
    (assocRspElement c m caps p).Returns () ↔ (IsWfd c m p → WfdEnds (fromPtr m p) (ieLength m p)) := by
  rw [assocRspElement]
  by_cases vendor : m p = 221
  · by_cases wmm : bytesAt m (p + 2) 6 = wmmParaOui
    · simp [vendor, wmm, IsWfd, wmmParamHandler]
    · by_cases oui : bytesAt m (p + 2) 4 = [0x50, 0x6f, 0x9a, 0x0a]
      · simp [vendor, wmm, oui, IsWfd, wfd_returns_iff vendor oui]
      · simp [vendor, wmm, oui, IsWfd]
  · have none_ : ¬IsWfd c m p := fun wfd => vendor wfd.1
    simp only [vendor, if_false, none_, false_implies, iff_true]
    split
    · exact returns_htCapsHandler c caps
    split
    · exact returns_lookIf
    split
    · exact returns_vhtCapsHandler c.vhtOption caps
    split
    · exact returns_lookIf
    · exact Act.returns_pure.mpr rfl

/-- The elements of the response that are come to, with the capabilities that the ones before leave. -/
def AssocRspMeets (c : Client) (caps : Caps) (f : MgntFrame) (p : Nat) (k : Caps) : Prop :=
  ComesTo f.mem f.len (fun _ p => IsWfd c f.mem p → WfdEnds (fromPtr f.mem p) (ieLength f.mem p)) (assocRspCaps c f.mem)
    (30, caps) p k

/-- The frame is long enough for status, capabilities and association id, and for each element as far as its handler
reads into it. -/
def AssocRspFits (c : Client) (caps : Caps) (f : MgntFrame) : Prop :=
  f.da + 6 ≤ f.len ∧
    (f.addr f.da = c.macAddr → c.state &&& (Ap.wifiFwAuthSuccess ||| Ap.wifiFwAssocState) ≠ 0 →
      c.state &&& Ap.wifiFwAssocSuccess = 0 → 24 + 4 ≤ f.len ∧
        (f.le16 (24 + 2) = 0 → 24 + 6 ≤ f.len ∧ ∀ p k, AssocRspMeets c caps f p k → p < f.len →
          p + 2 + assocRspNeeds c f.mem k p ≤ f.len ∧ (IsWfd c f.mem p → WfdFits f.mem p f.len)))

theorem onAssocRsp_safe_iff (c : Client) (caps : Caps) (f : MgntFrame) :
    (onAssocRsp c caps f).Safe (Access.Inside f.len) ↔ AssocRspFits c caps f := by
  have low := da_ge f
  have walk := @elements_safe_iff Caps f.mem f.len (assocRspElement c f.mem) (assocRspCaps c f.mem) _ (30, caps)
    fun k p => returns_assocRspElement c k
  have all (n : Nat) : n = 0 ∨ 0 + n ≤ n := by omega
  have element (p : Nat) (k : Caps) : p + 2 ≤ f.len ∧ (assocRspElement c f.mem k p).Safe (Access.Inside f.len) ↔
      p + 2 + assocRspNeeds c f.mem k p ≤ f.len ∧ (IsWfd c f.mem p → WfdFits f.mem p f.len) := by
    constructor
    · rintro ⟨header, safe⟩
      exact (assocRspElement_safe_iff c k header).mp safe
    · intro fits
      have header : p + 2 ≤ f.len := by omega
      exact ⟨header, (assocRspElement_safe_iff c k header).mpr fits⟩
  simp only [onAssocRsp, AssocRspFits, AssocRspMeets, Act.safe_bind, Act.safe_ite, Act.safe_pure, look_safe_iff,
    lookIf_safe_iff, returns_look, implies_true, forall_const, not_not, and_true, true_and, walk, element, all,
    Nat.pos_iff_ne_zero]
  constructor
  · rintro ⟨-, addr, rest⟩
    refine ⟨by omega, fun mine joining fresh => ?_⟩
    obtain ⟨status, later⟩ := rest mine joining fresh
    refine ⟨by omega, fun accepted => ?_⟩
    obtain ⟨-, aid, each⟩ := later accepted
    exact ⟨by omega, each⟩
  · rintro ⟨addr, rest⟩
    refine ⟨by omega, by omega, fun mine joining fresh => ?_⟩
    obtain ⟨status, later⟩ := rest mine joining fresh
    refine ⟨by omega, fun accepted => ?_⟩
    obtain ⟨aid, each⟩ := later accepted
    exact ⟨by omega, by omega, each⟩

end Vmac.Mlme
