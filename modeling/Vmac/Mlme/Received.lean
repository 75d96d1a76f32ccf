/-
# Vmac.Mlme.Received -- management frames that stay inside, and those that do not

* `Valid`: the beacons that `validate_beacon_len` lets through.
* `onBeacon_safe_iff`: among them, what the rest of `OnBeacon` needs.
* `received_bounded_iff`: for each handler, the frames and states for which it reads the frame only and copies no more
  than its buffers hold.
* `long_challenge`: a challenge of 200 bytes is copied over the 128 of `chg_txt`.
-/
import Vmac.Mlme.ElementBounds

namespace Vmac.Mlme

open Theory.Bytes Theory.Elements Theory.Walk Theory.Action Security Ie
open Ap (wifiFwAuthState)

set_option autoImplicit false

/-! ## `validate_beacon_len` -/

section Validate

variable {m : Mem} {p n : Nat} {es : List Element} {rest : List UInt8}

/-- Vendor elements have an OUI and a type. -/
def VendorsNamed (es : List Element) : Prop := ∀ e ∈ es, e.id = 221 → 4 ≤ e.data.length

theorem checkIelen_cut (stands : Stands m p rest) (cut : Cut rest) (length : p + rest.length = n) :
    (Act.walk (checkIelenRound m n) p).Safe (Access.Inside n) ∧
      ((Act.walk (checkIelenRound m n) p).Returns true ↔ rest = []) ∧
      ((Act.walk (checkIelenRound m n) p).Returns false ↔ rest ≠ []) := by
  rcases cut.cases with rfl | ⟨b, rfl⟩ | ⟨id, size, s, rfl, short⟩
  · have last : p = n := by simpa using length
    rw [Act.safe_walk_head, Act.returns_walk_head, Act.returns_walk_head]
    simp [checkIelenRound, last]
  · have last : p + 1 = n := by simpa using length
    rw [Act.safe_walk_head, Act.returns_walk_head, Act.returns_walk_head]
    simp [checkIelenRound, show ¬p + 2 ≤ n by omega, show p ≠ n by omega]
  · have there : m (p + 1) = size := stands.byte (k := 1) (by simp)
    simp only [List.length_cons] at length
    have long : n < p + 2 + ieLength m p := by
      rw [ieLength, there]
      omega
    rw [Act.safe_walk_head, Act.returns_walk_head, Act.returns_walk_head]
    simp [checkIelenRound, show p + 2 ≤ n by omega, long]

theorem checkIelen_all (stands : Stands m p (bytesOf es ++ rest)) (cut : Cut rest)
    (length : p + (bytesOf es ++ rest).length = n) :
    (Act.walk (checkIelenRound m n) p).Safe (Access.Inside n) ∧
      ((Act.walk (checkIelenRound m n) p).Returns true ↔ VendorsNamed es ∧ rest = []) ∧
      ((Act.walk (checkIelenRound m n) p).Returns false ↔ ¬(VendorsNamed es ∧ rest = [])) := by
  induction es generalizing p with
  | nil => simpa [VendorsNamed] using checkIelen_cut stands cut length
  | cons e es ih =>
      rw [bytesOf_cons, List.append_assoc] at stands length
      obtain ⟨id, size⟩ := stands.header
      have sizes : p + e.bytes.length + (bytesOf es ++ rest).length = n := by
        rw [← length, @List.length_append _ e.bytes, Nat.add_assoc]
      have later := ih stands.right sizes
      rw [Element.length_bytes] at sizes later
      have length' : ieLength m p = e.data.length := size
      have inside : p + 2 ≤ n := by omega
      have whole : ¬n < p + 2 + e.data.length := by omega
      by_cases nameless : e.id = 221 ∧ e.data.length < 4
      · have round : checkIelenRound m n p = (do look p 2; pure (.inl false)) := by
          simp [checkIelenRound, inside, length', whole, id, nameless]
        have fails : ¬VendorsNamed (e :: es) := by
          intro named
          have enough := named e List.mem_cons_self nameless.1
          omega
        rw [Act.safe_walk_head, Act.returns_walk_head, Act.returns_walk_head, round]
        simp [inside, fails]
      · have round : checkIelenRound m n p = (do look p 2; pure (.inr (p + (e.data.length + 2)))) := by
          have behind : p + e.data.length + 2 = p + (e.data.length + 2) := Nat.add_assoc _ _ _
          simp [checkIelenRound, inside, length', whole, id, nameless, behind]
        have named : VendorsNamed (e :: es) ↔ VendorsNamed es := by
          simp only [VendorsNamed, List.forall_mem_cons]
          refine and_iff_right fun is => ?_
          by_contra short
          exact nameless ⟨is, by omega⟩
        rw [Act.safe_walk_head, Act.returns_walk_head, Act.returns_walk_head, round, named]
        simpa [inside] using later

end Validate

/-- The elements are whole, and the vendor elements named. -/
def Valid (f : MgntFrame) : Prop :=
  36 ≤ f.len ∧ VendorsNamed (elementsFrom f.mem 36 f.len) ∧ restFrom f.mem 36 f.len = []

theorem validateBeaconLen_spec (f : MgntFrame) : (validateBeaconLen f).Safe (Access.Inside f.len) ∧
    ∀ b, (validateBeaconLen f).Returns b ↔ (b = true ↔ Valid f) := by
  rw [validateBeaconLen]
  by_cases short : f.len < 36
  · have invalid : ¬Valid f := fun valid => absurd valid.1 (by omega)
    simp [short, invalid]
  · have along := checkIelen_all (framed_stands f.mem 36 (f.len - 36)) (framed_cut f.mem 36 _)
      (show 36 + (_ : List UInt8).length = f.len by rw [List.length_append, framed_length]; omega)
    rw [if_neg short]
    refine ⟨along.1, fun b => ?_⟩
    have valid : Valid f ↔ VendorsNamed (elementsFrom f.mem 36 f.len) ∧ restFrom f.mem 36 f.len = [] :=
      and_iff_right (by omega)
    rw [valid]
    cases b with
    | false => exact along.2.2.trans (by simp [elementsFrom, restFrom])
    | true => exact along.2.1.trans (by simp [elementsFrom, restFrom])

/-! ## The attempt to fix a beacon -/

/-- An extended supported rates element that ends in the invalid value is not the last element. -/
def EsrFits (f : MgntFrame) : Prop :=
  ∀ p ∈ foundAt f.mem 36 f.len 50, 0 < ieLength f.mem p → f.mem (p + 1 + ieLength f.mem p) = 0x2d →
    p + 3 + ieLength f.mem p ≤ f.len

/-- The elements as they are read after it: the one that ends in the invalid value, before another id, is a byte shorter. -/
def fixedMem (f : MgntFrame) : Mem :=
  (foundAt f.mem 36 f.len 50).elim f.mem fun p =>
    if 0 < ieLength f.mem p ∧ f.mem (p + 1 + ieLength f.mem p) = 0x2d ∧ f.mem (p + 2 + ieLength f.mem p) ≠ 0x2d then
      splice f.mem (p + 1) [UInt8.ofNat (ieLength f.mem p - 1)]
    else f.mem

/-- In a valid beacon the element that is found is whole. -/
theorem found_whole {m : Mem} {p q : Nat} {id : UInt8} {es : List Element} (stands : Stands m p (bytesOf es))
    (found : firstPlace id p [] es = some q) : q + 2 + ieLength m q ≤ p + (bytesOf es).length := by
  induction es generalizing p with
  | nil => exact absurd found (by simp [firstPlace])
  | cons e es ih =>
      rw [bytesOf_cons] at stands
      rw [firstPlace] at found
      split at found
      · cases found
        rw [ieLength, stands.header.2]
        simp
        omega
      · have later := ih stands.right found
        simp at later ⊢
        omega

theorem Valid.searchable {f : MgntFrame} (valid : Valid f) (id : UInt8) : Searchable f.mem 36 f.len id := by
  rw [Searchable, ComesToByte, valid.2.2]
  simp

theorem fixBeacon_iff {f : MgntFrame} (valid : Valid f) (P : Mem → Prop) :
    ((fixBeacon f).Safe (Access.Inside f.len) ∧ ∀ m, (fixBeacon f).Returns m → P m) ↔ EsrFits f ∧ P (fixedMem f) := by
  have searchable := valid.searchable 50
  have upTo : (f.len - 24 - 12 : Int) = f.len - (36 : Nat) := by omega
  have returns {r : Option Nat} := @getIe_returns_iff f.len f.mem f.small 36 50 _ upTo searchable r
  have search := (@getIe_then_iff f.len f.mem f.small 36 50 _ upTo fun _ => True).mpr ⟨searchable, trivial⟩
  have whole (p : Nat) (found : foundAt f.mem 36 f.len 50 = some p) : p + 2 + ieLength f.mem p ≤ f.len := by
    have all := framed_length f.mem 36 (f.len - 36)
    have stands := framed_stands f.mem 36 (f.len - 36)
    rw [show (framed f.mem 36 (f.len - 36)).2 = [] from valid.2.2, List.append_nil] at stands
    rw [foundAt, valid.2.2] at found
    have inside := found_whole stands found
    have long := valid.1
    omega
  rw [fixBeacon, Act.safe_bind, Act.forall_returns_bind]
  simp only [search.1, returns, forall_eq, true_and]
  rw [EsrFits, fixedMem]
  cases found : foundAt f.mem 36 f.len 50 with
  | none => simp
  | some p =>
      have whole := whole p found
      simp only [Option.mem_some_iff, forall_eq', Option.elim_some]
      generalize ieLength f.mem p = ielen at *
      by_cases long : 0 < ielen
      · by_cases last : f.mem (p + 1 + ielen) = 0x2d
        · have next : p + 2 + ielen + 1 ≤ f.len ↔ p + 3 + ielen ≤ f.len := by omega
          by_cases other : f.mem (p + 2 + ielen) = 0x2d
          · simp [long, last, other, next, show p + 1 + ielen + 1 ≤ f.len by omega]
          · simp [long, last, other, next, show p + 1 + ielen + 1 ≤ f.len by omega]
        · simp [long, last, show p + 1 + ielen + 1 ≤ f.len by omega]
      · simp [long]

/-! ## Rates -/

/-- An element of rates is whole and fits behind `before` rates; an empty one is not copied. -/
def RateFits (m : Mem) (len before : Nat) (p : Nat) : Prop :=
  ieLength m p = 0 ∨ p + 2 + ieLength m p ≤ len ∧ before + ieLength m p ≤ 16

/-- How many rates the first search finds. -/
def firstRates (m : Mem) (len : Nat) : Nat := ((foundAt m 36 len 1).map (ieLength m)).getD 0

/-- Both elements of rates are whole and have no more than 16 together. -/
def RatesFit (m : Mem) (len : Nat) : Prop :=
  (Searchable m 36 len 1 ∧ ∀ p ∈ foundAt m 36 len 1, RateFits m len 0 p) ∧
    Searchable m 36 len 50 ∧ ∀ p ∈ foundAt m 36 len 50, RateFits m len (firstRates m len) p

section Rates

variable {m : Mem} {len : Nat} (small : len ≤ maxRecvbufSz) {limit : Int} (upTo : limit = len - 36)

include small upTo

theorem rates_safe_iff : (rtwIesGetSupportedRate m 36 limit).Safe (Access.Inside len) ↔ RatesFit m len := by
  have first := @getIe_then_iff len m small 36 1 limit upTo
  have second := @getIe_then_iff len m small 36 50 limit upTo
  simp only [rtwIesGetSupportedRate, Act.safe_bind, first]
  rw [RatesFit, firstRates]
  cases foundAt m 36 len 1 with
  | none =>
      simp only [Act.safe_bind, Act.safe_pure, true_and, Act.returns_pure, forall_eq, second]
      cases foundAt m 36 len 50 with
      | none => simp
      | some q =>
          simp [RateFits, Target.size]
          grind
  | some p =>
      simp only [Act.safe_bind, Act.safe_pure, true_and, Act.returns_pure, forall_eq, second]
      cases foundAt m 36 len 50 with
      | none =>
          simp [RateFits, Target.size]
          grind
      | some q =>
          simp [RateFits, Target.size]
          grind

theorem rates_few (fit : RatesFit m len) {n : Nat} (returns : (rtwIesGetSupportedRate m 36 limit).Returns n) : n ≤ 16 := by
  obtain ⟨⟨searchable, first⟩, searchable', second⟩ := fit
  have one {r : Option Nat} := getIe_returns_iff small upTo searchable (r := r)
  have two {r : Option Nat} := getIe_returns_iff small upTo searchable' (r := r)
  simp only [rtwIesGetSupportedRate, Act.returns_bind, one, exists_eq_left] at returns
  rw [firstRates] at second
  cases found : foundAt m 36 len 1 with
  | none =>
      simp only [found, Act.returns_bind, Act.returns_pure, two, exists_eq_left] at returns second
      cases found' : foundAt m 36 len 50 with
      | none =>
          simp [found'] at returns
          omega
      | some q =>
          simp [found', RateFits] at returns second
          omega
  | some p =>
      simp only [found, Act.returns_bind, Act.returns_pure, two, exists_eq_left] at returns first second
      cases found' : foundAt m 36 len 50 with
      | none =>
          simp [found', RateFits] at returns first
          omega
      | some q =>
          simp [found', RateFits] at returns first second
          omega

end Rates

/-! ## `OnBeacon` -/

/-- How many bytes of the body are read in `update_beacon_info`. -/
def beaconNeeds (s : AdHoc) (m : Mem) (bwmode p : Nat) : Nat :=
  if m p = 221 then if bytesAt m (p + 2) 6 = wmmParaOui ∧ ieLength m p = 24 ∧ s.qosOption then 24 else 6
  else if m p = 61 then
    if checksBwmode s m bwmode p then if newBwmode s m p < bwmode then max 2 (ieLength m p) else 2 else 0
  else if m p = 199 then if s.vhtOption then 1 else 0
  else if m p = 42 then if decide (ieLength m p ≤ 1) then ieLength m p else 0
  else 0

theorem returns_beaconElement (s : AdHoc) (m : Mem) (bwmode p : Nat) : (beaconElement s m bwmode p).Returns () := by
  rw [beaconElement]
  split
  · simp only [Act.returns_bind, returns_look, true_and]
    refine ⟨(), ?_⟩
    split
    · exact returns_lookIf
    · exact Act.returns_pure.mpr rfl
  split
  · rw [bwmodeUpdateCheck]
    split
    · simp only [Act.returns_bind, returns_look, true_and]
      refine ⟨(), ?_⟩
      split
      · exact returns_lookIf
      · exact Act.returns_pure.mpr rfl
    · exact Act.returns_pure.mpr rfl
  split
  · exact returns_lookIf
  split
  · exact returns_lookIf
  · exact Act.returns_pure.mpr rfl

theorem beaconElement_safe_iff {len p : Nat} (s : AdHoc) (m : Mem) (bwmode : Nat) (header : p + 2 ≤ len) :
    (beaconElement s m bwmode p).Safe (Access.Inside len) ↔ p + 2 + beaconNeeds s m bwmode p ≤ len := by
  rw [beaconElement, beaconNeeds]
  by_cases vendor : m p = 221
  · by_cases wmm : bytesAt m (p + 2) 6 = wmmParaOui ∧ ieLength m p = 24
    · cases qos : s.qosOption
      · simp [vendor, wmm, wmmParamHandler]
      · simp [vendor, wmm, wmmParamHandler]
        omega
    · have none_ : ¬(bytesAt m (p + 2) 6 = wmmParaOui ∧ ieLength m p = 24 ∧ s.qosOption = true) :=
        fun all => wmm ⟨all.1, all.2.1⟩
      simp [vendor, wmm, none_]
  simp only [vendor, if_false]
  by_cases htInfo : m p = 61
  · simp only [htInfo, if_true, bwmodeUpdateCheck]
    by_cases checks : checksBwmode s m bwmode p = true
    · have option : (s.htOption && decide (ieLength m p ≤ 22)) = true := by
        simp only [checksBwmode, Bool.and_eq_true, decide_eq_true_eq] at checks ⊢
        exact ⟨checks.1, checks.2.2⟩
      by_cases narrower : newBwmode s m p < bwmode
      · simp [checks, narrower, htInfoHandler, option, lookIf_body_iff header]
        omega
      · simp only [checks, narrower, if_true, if_false, Act.safe_bind, look_safe_iff, returns_look, Act.safe_pure,
          imp_self, implies_true, and_true]
        omega
    · simpa [checks] using header
  simp only [htInfo, if_false]
  by_cases opMode : m p = 199
  · simp [opMode, lookIf_body_iff header]
  by_cases erp : m p = 42
  · simp [erp, erpIeHandler, lookIf_body_iff header]
  · simpa [opMode, erp] using header

/-- The elements that `update_beacon_info` comes to, with the bandwidth that the ones before leave. -/
def BeaconMeets (s : AdHoc) (m : Mem) (len p bwmode : Nat) : Prop :=
  ComesTo m len (fun _ _ => True) (beaconBwmode s m) (36, s.curBwmode) p bwmode

/-- What is read of the elements of a valid beacon lies in it, and the rates of a new station fit. -/
def BeaconFits (s : AdHoc) (f : MgntFrame) : Prop :=
  Valid f → EsrFits f ∧ (s.scanning = false → f.addr 16 = s.bssid →
    (∀ pkts ∈ s.rxPkts (f.addr 10), pkts % 16 = 0 → ∀ p bwmode, BeaconMeets s (fixedMem f) f.len p bwmode → p < f.len →
      p + 2 + beaconNeeds s (fixedMem f) bwmode p ≤ f.len) ∧
    (s.rxPkts (f.addr 10) = none → RatesFit (fixedMem f) f.len))

theorem updateBeaconInfo_safe_iff (s : AdHoc) (m : Mem) (len : Nat) :
    (updateBeaconInfo s m len).Safe (Access.Inside len) ↔
      ∀ p bwmode, BeaconMeets s m len p bwmode → p < len → p + 2 + beaconNeeds s m bwmode p ≤ len := by
  rw [updateBeaconInfo, elements_safe_iff fun k p => iff_true_intro (returns_beaconElement s m k p)]
  refine forall₂_congr fun p bwmode => imp_congr_right fun _ => imp_congr_right fun _ => ?_
  constructor
  · rintro ⟨header, safe⟩
    exact (beaconElement_safe_iff s m bwmode header).mp safe
  · intro fits
    have header : p + 2 ≤ len := by omega
    exact ⟨header, (beaconElement_safe_iff s m bwmode header).mpr fits⟩

theorem onBeacon_safe_iff (s : AdHoc) (f : MgntFrame) : (onBeacon s f).Safe (Access.Inside f.len) ↔ BeaconFits s f := by
  obtain ⟨validates, result⟩ := validateBeaconLen_spec f
  rw [onBeacon, BeaconFits]
  simp only [Act.safe_bind, validates, true_and, result]
  by_cases valid : Valid f
  · have long := valid.1
    have fixed := fixBeacon_iff valid
    have upTo : (f.len - 24 - 12 : Int) = f.len - 36 := by omega
    have rates := @rates_safe_iff (fixedMem f) f.len f.small _ upTo
    have few (fit : RatesFit (fixedMem f) f.len) (n : Nat) :=
      @rates_few (fixedMem f) f.len f.small _ upTo fit n
    simp only [valid, iff_true, forall_eq, if_true, true_implies, Act.safe_bind, fixed]
    refine and_congr_right fun _ => ?_
    simp only [Act.safe_ite, Act.safe_pure, implies_true, true_and, Act.safe_bind, look_safe_iff, returns_look,
      forall_const, Bool.not_eq_true, not_not]
    have third : 6 = 0 ∨ 16 + 6 ≤ f.len := by omega
    have second : 6 = 0 ∨ 10 + 6 ≤ f.len := by omega
    simp only [third, second, true_and]
    refine imp_congr_right fun _ => imp_congr_right fun _ => ?_
    cases s.rxPkts (f.addr 10) with
    | some pkts => simp [Act.safe_ite, updateBeaconInfo_safe_iff]
    | none =>
        simp only [Act.safe_bind, rates, Act.safe_ite, Act.safe_pure, implies_true, true_and, store_safe_iff, look_safe_iff,
          returns_store, returns_look, forall_const, Target.size, Option.not_mem_none, false_implies]
        refine and_iff_left_of_imp fun fit n returns _ => ⟨fun _ => ?_, trivial⟩
        have few := few fit n returns
        omega
  · simp [valid]

/-! ## The theorem -/

/-- The frame and the state for which the handler stays inside. -/
def Received.Fits : Received → Prop
  | onAuth cfg a f => AuthFits cfg a f
  | onAuthClient c f => AuthClientFits c f
  | onAssocRsp c caps f => AssocRspFits c caps f
  | onBeacon s f => BeaconFits s f

/-- For every frame, be it as long and contain what it may, and in every state, the handler reads nothing outside of the
frame and copies nothing over the end of a buffer exactly if the frame fits. -/
theorem received_bounded_iff (r : Received) : r.Bounded ↔ r.Fits := by
  cases r with
  | onAuth cfg a f => exact onAuth_safe_iff cfg a f
  | onAuthClient c f => exact onAuthClient_safe_iff c f
  | onAssocRsp c caps f => exact onAssocRsp_safe_iff c caps f
  | onBeacon s f => exact onBeacon_safe_iff s f

/-- A station that waits for the challenge of a shared key authentication. -/
def linking : Client := ⟨fun _ => 0x02, wifiFwAuthState, true, false, false, false, false, false⟩

theorem longChallenge_small : 232 ≤ maxRecvbufSz := by decide

/-- The second frame of the authentication, with a challenge of 200 bytes. -/
def longChallenge : MgntFrame where
  mem k :=
    (([0xb0, 0x00, 0x00, 0x00] ++ List.replicate 20 0x02 ++
      [0x01, 0x00, 0x02, 0x00, 0x00, 0x00, 16, 200]) : List UInt8).getD k 0x4e
  len := 232
  small := longChallenge_small

/-- It is copied whole. -/
theorem long_challenge : ¬(Received.onAuthClient linking longChallenge).Bounded := by
  intro bounded
  obtain ⟨-, rest⟩ := (onAuthClient_safe_iff linking longChallenge).mp bounded
  obtain ⟨-, rest⟩ := rest (by decide) (by decide)
  obtain ⟨-, short⟩ := rest (by decide) (by decide) rfl
  have found : foundAt longChallenge.mem 30 longChallenge.len 16 = some 30 := by decide +kernel
  have fits := (short 30 found).1
  exact absurd fits (by decide)

end Vmac.Mlme
