/-
# Vmac.Mlme.Bounds -- the frames for which the handlers stay inside

* `getIe_then_iff`: a search stays inside unless it comes to a last byte that stands alone.
* `onAuth_safe_iff`, `onAuthClient_safe_iff`: what the two handlers of authentication frames need.
-/
import Vmac.Mlme.Handlers

namespace Vmac.Mlme

open Theory.Bytes Theory.Elements Theory.Walk Theory.Action Security Ie
open Ap (AuthFrame ApConfig AccessPoint StaInfo wifiFwAuthState wifiFwAuthSuccess wifiFwAssocState wifiFwAssocSuccess)

set_option autoImplicit false

variable {len start src n p : Nat} {m : Mem} {target : Target} {c : Bool}

/-! ## Reads and copies -/

@[simp] theorem returns_look {u : Unit} : (look start n).Returns u := Act.returns_touch

@[simp] theorem returns_lookIf {u : Unit} : (lookIf c start n).Returns u := by
  cases c with
  | false => exact Act.returns_pure.mpr rfl
  | true => exact returns_look

@[simp] theorem returns_store {u : Unit} : (store target start n).Returns u := Act.returns_touch

@[simp] theorem returns_memcpy {u : Unit} : (memcpy target start src n).Returns u := by simp [memcpy]

theorem forall_range_iff {bound : Nat} : (∀ k < n, start + k < bound) ↔ n = 0 ∨ start + n ≤ bound := by
  constructor
  · intro below
    by_cases none_ : n = 0
    · exact .inl none_
    · have last := below (n - 1) (by omega)
      omega
  · intro fits k below
    omega

@[simp] theorem look_safe_iff : (look start n).Safe (Access.Inside len) ↔ n = 0 ∨ start + n ≤ len := by
  simp [look, Access.Inside, forall_range_iff]

@[simp] theorem lookIf_safe_iff :
    (lookIf c start n).Safe (Access.Inside len) ↔ (c = true → n = 0 ∨ start + n ≤ len) := by
  cases c <;> simp [lookIf]

@[simp] theorem store_safe_iff :
    (store target start n).Safe (Access.Inside len) ↔ n = 0 ∨ start + n ≤ target.size := by
  simp [store, Access.Inside, forall_range_iff]

@[simp] theorem memcpy_safe_iff : (memcpy target start src n).Safe (Access.Inside len) ↔
    (n = 0 ∨ src + n ≤ len) ∧ (n = 0 ∨ start + n ≤ target.size) := by
  simp [memcpy]

/-! ## Searches -/

/-- Where the first element with the id begins, be it whole or the remainder behind the whole ones. -/
def firstPlace (id : UInt8) (p : Nat) (rest : List UInt8) : List Element → Option Nat
  | [] =>
    match rest with
    | i :: _ :: _ => if i = id then some p else none
    | _ => none
  | e :: es => if e.id = id then some p else firstPlace id (p + e.bytes.length) rest es

/-- The search comes to a last byte that stands alone. -/
def ComesToByte (id : UInt8) (rest : List UInt8) (es : List Element) : Prop := rest.length = 1 ∧ ∀ e ∈ es, e.id ≠ id

theorem firstPlace_add (id : UInt8) (base p : Nat) (rest : List UInt8) (es : List Element) :
    (firstPlace id p rest es).map (base + ·) = firstPlace id (base + p) rest es := by
  induction es generalizing p with
  | nil =>
      rcases rest with _ | ⟨i, _ | ⟨size, s⟩⟩
      · rfl
      · rfl
      · rw [firstPlace, firstPlace]
        split <;> rfl
  | cons e es ih =>
      rw [firstPlace, firstPlace]
      split
      · rfl
      · rw [ih, Nat.add_assoc]

section Search

variable {es : List Element} {rest : List UInt8} {id : UInt8} {P : Option Nat → Prop}

theorem getIe_rest (stands : Stands m p rest) (cut : Cut rest) (length : p + rest.length = n) (small : n < 2 ^ 31 - 512) :
    (∃ r, GetIeEnds m id.toNat n p r ∧ P r) ↔ rest.length ≠ 1 ∧ P (firstPlace id p rest []) := by
  rcases cut.cases with rfl | ⟨b, rfl⟩ | ⟨i, size, s, rfl, short⟩
  · simp only [List.length_nil] at length
    simp [GetIeEnds, firstPlace, show n ≤ p by omega]
  · rw [List.length_singleton] at length
    refine iff_of_false ?_ fun other => other.1 rfl
    rintro ⟨r, ends, -⟩
    rw [GetIeEnds, if_neg (by omega)] at ends
    have outside := ends.here (p + 1) (by simp [getIeLoop])
    omega
  · have idThere : m p = i := stands.byte (k := 0) (by simp)
    have sizeThere : m (p + 1) = size := stands.byte (k := 1) (by simp)
    rw [List.length_cons, List.length_cons] at length
    have inside : ∀ a ∈ (getIeLoop m id.toNat n).looks (p, p), a < n := by
      intro a member
      simp only [getIeLoop, List.mem_cons, List.not_mem_nil, or_false] at member
      omega
    have bound := size.toNat_lt
    have next : (p : Int) + ((size.toNat + 2 : Nat) : Int) = ((p + size.toNat + 2 : Nat) : Int) := by omega
    have goes : ¬(n : Int) > ((p + size.toNat + 2 : Nat) : Int) := by omega
    have same : ((i.toNat : Int) = id.toNat) ↔ i = id := by rw [Int.natCast_inj, UInt8.toNat_inj]
    have round : (getIeLoop m id.toNat n).round (p, p) = .inl (if i = id then some p else none) := by
      simp only [getIeLoop, idThere, sizeThere, next, same, sint_of_lt (show p + size.toNat + 2 < 2 ^ 31 by omega)]
      split
      · rfl
      · rw [if_pos (by omega)]
    simp only [GetIeEnds, if_neg (show ¬n ≤ p by omega), firstPlace, Loop.ends_of_done round, List.length_cons]
    constructor
    · rintro ⟨r, ⟨-, rfl⟩, wanted⟩
      exact ⟨by omega, wanted⟩
    · rintro ⟨-, wanted⟩
      exact ⟨_, ⟨inside, rfl⟩, wanted⟩

theorem getIe_all (stands : Stands m p (bytesOf es ++ rest)) (cut : Cut rest)
    (length : p + (bytesOf es ++ rest).length = n) (small : n < 2 ^ 31 - 512) :
    (∃ r, GetIeEnds m id.toNat n p r ∧ P r) ↔ ¬ComesToByte id rest es ∧ P (firstPlace id p rest es) := by
  induction es generalizing p with
  | nil => simpa [ComesToByte] using getIe_rest stands cut length small
  | cons e es ih =>
      rw [bytesOf_cons, List.append_assoc] at stands length
      have element (r : Option Nat) : GetIeEnds m id.toNat n p r ↔ _ := getIe_element stands length (by omega)
      have same : ((e.id.toNat : Int) = id.toNat) ↔ e.id = id := by rw [Int.natCast_inj, UInt8.toNat_inj]
      have sizes : p + e.bytes.length + (bytesOf es ++ rest).length = n := by
        rw [← length, @List.length_append _ e.bytes, Nat.add_assoc]
      simp only [element, same, firstPlace, ComesToByte, List.forall_mem_cons]
      by_cases found : e.id = id
      · simp [found]
      · simpa [found, ComesToByte] using ih stands.right sizes

/-- `rtw_get_ie` ends, whatever it reads. -/
theorem getIe_ends (m : Mem) (index : Int) {limit : Int} (some_ : 0 < limit) (small : limit < 2 ^ 31 - 512) :
    ∃ r, (getIeLoop m index limit).Ends (fun _ => True) (0, 0) r := by
  obtain ⟨r, result⟩ := Loop.run_of_size (l := getIeLoop m index limit) (fun s => (limit - s.2).toNat)
    (fun s => 0 ≤ s.2 ∧ s.2 < limit) (s := (0, 0)) (n := limit.toNat + 1)
    (by
      rintro ⟨p, i⟩ s' ⟨low, high⟩ round
      have bound := (m (p + 1)).toNat_lt
      obtain ⟨k, rfl⟩ := Int.eq_ofNat_of_zero_le low
      have next : (k : Int) + (((m (p + 1)).toNat + 2 : Nat) : Int) = ((k + ((m (p + 1)).toNat + 2) : Nat) : Int) := by omega
      simp only [getIeLoop] at round
      rw [next, sint_of_lt (by omega)] at round
      split at round
      · exact absurd round (by simp)
      · split at round
        · exact absurd round (by simp)
        · cases Sum.inr.inj round
          dsimp only
          omega)
    ⟨le_refl 0, some_⟩ (by simp)
  exact ⟨r, Loop.ends_iff_run.mpr ⟨_, result, fun _ _ => trivial⟩⟩

end Search

/-- The whole elements between `base` and the end of the frame, and the remainder. -/
def elementsFrom (m : Mem) (base len : Nat) : List Element := (framed m base (len - base)).1
def restFrom (m : Mem) (base len : Nat) : List UInt8 := (framed m base (len - base)).2

/-- Where `rtw_get_ie` finds the element. -/
def foundAt (m : Mem) (base len : Nat) (id : UInt8) : Option Nat :=
  firstPlace id base (restFrom m base len) (elementsFrom m base len)

/-- `rtw_get_ie` stays inside. -/
def Searchable (m : Mem) (base len : Nat) (id : UInt8) : Prop :=
  ¬ComesToByte id (restFrom m base len) (elementsFrom m base len)

/-- A search from `base` to the end of the frame, and what is made of its result. -/
theorem getIe_then_iff (small : len ≤ maxRecvbufSz) {base : Nat} {id : UInt8} {limit : Int} (upTo : limit = len - base)
    (P : Option Nat → Prop) :
    ((rtwGetIe m base id limit).Safe (Access.Inside len) ∧ ∀ r, (rtwGetIe m base id limit).Returns r → P r) ↔
      Searchable m base len id ∧ P (foundAt m base len id) := by
  have few : len ≤ 32768 := small
  rw [rtwGetIe]
  by_cases none_ : limit < 1
  · have empty : len - base = 0 := by omega
    simp [none_, Searchable, ComesToByte, foundAt, restFrom, elementsFrom, empty, framed_zero, firstPlace]
  · have ends := getIe_ends (fromPtr m base) id.toNat (show 0 < limit by omega) (by omega)
    have ends' : ∃ r, ((getIeLoop (fromPtr m base) id.toNat limit).shift fun a => Access.read (base + a)).Ends
        (fun _ => True) (0, 0) r := by
      simpa only [Loop.shift_ends_iff] using ends
    have limits : limit = (len - base : Nat) := by omega
    have along := @getIe_all (len - base) 0 (fromPtr m base) (elementsFrom m base len) (restFrom m base len) id
      (fun r => P (r.map (base + ·))) (stands_fromPtr.mpr (framed_stands m base _)) (framed_cut m base _)
      (by
        have all := framed_length m base (len - base)
        simpa [elementsFrom, restFrom] using all) (by omega)
    simp only [firstPlace_add, GetIeEnds, if_neg (show ¬len - base ≤ 0 by omega), Nat.add_zero] at along
    have there := @Act.ofLoop_then_iff Access (Nat × Int) (Option Nat) (Access.Inside len) (0, 0)
      ((getIeLoop (fromPtr m base) id.toNat limit).shift fun a => Access.read (base + a))
      (fun r => P (r.map (base + ·))) ends'
    rw [if_neg none_]
    refine Iff.trans ?_ (there.trans (Iff.trans ?_ along))
    · rw [Act.forall_returns_bind]
      simp
    · have inside : (fun a => Access.Inside len (.read (base + a))) = (· < len - base) := by
        funext a
        exact propext (by simp only [Access.Inside]; omega)
      simp only [Loop.shift_ends_iff, limits, inside]
      exact Iff.rfl

/-- What a search that stays inside returns. -/
theorem getIe_returns_iff (small : len ≤ maxRecvbufSz) {base : Nat} {id : UInt8} {limit : Int} (upTo : limit = len - base)
    (searchable : Searchable m base len id) {r : Option Nat} :
    (rtwGetIe m base id limit).Returns r ↔ r = foundAt m base len id := by
  obtain ⟨-, only⟩ := (getIe_then_iff small upTo (· = foundAt m base len id)).mpr ⟨searchable, rfl⟩
  refine ⟨only r, ?_⟩
  rintro rfl
  have few : len ≤ 32768 := small
  by_cases none_ : limit < 1
  · have found := only none (by simp [rtwGetIe, none_])
    simp [rtwGetIe, none_, ← found]
  · obtain ⟨r, ends⟩ := getIe_ends (fromPtr m base) id.toNat (show 0 < limit by omega) (by omega)
    have returns : (rtwGetIe m base id limit).Returns (r.map (base + ·)) := by
      simp only [rtwGetIe, if_neg none_, Act.returns_bind, Act.returns_pure]
      exact ⟨r, Act.returns_ofLoop.mpr (Loop.shift_ends_iff.mpr ends), rfl⟩
    rwa [only _ returns] at returns

/-! ## `OnAuthClient` -/

/-- The frame is long enough for what is read of it, and a challenge that is copied is whole and not longer than 128. -/
def AuthClientFits (c : Client) (f : MgntFrame) : Prop :=
  f.da + 6 ≤ f.len ∧
    (f.addr f.da = c.macAddr → c.state &&& wifiFwAuthState ≠ 0 → 24 + f.offset + 6 ≤ f.len ∧
      (f.le16 (24 + f.offset + 4) = 0 → f.le16 (24 + f.offset + 2) = 2 → c.shared = true →
        Searchable f.mem 30 f.len 16 ∧ ∀ p ∈ foundAt f.mem 30 f.len 16,
          ieLength f.mem p ≤ 128 ∧ (ieLength f.mem p = 0 ∨ p + 2 + ieLength f.mem p ≤ f.len)))

theorem da_ge (f : MgntFrame) : 4 ≤ f.da := by
  rw [MgntFrame.da]
  split <;> omega

theorem onAuthClient_safe_iff (c : Client) (f : MgntFrame) :
    (onAuthClient c f).Safe (Access.Inside f.len) ↔ AuthClientFits c f := by
  have low := da_ge f
  have search := @getIe_then_iff f.len f.mem f.small 30 16 (f.len - 24 - 6) (by omega)
  simp only [onAuthClient, AuthClientFits, Act.safe_bind, Act.safe_ite, Act.safe_pure, look_safe_iff, returns_look,
    search, implies_true, forall_const, not_not, true_and, and_true]
  cases foundAt f.mem 30 f.len 16 with
  | none => simp; omega
  | some p => simp [ieLength, Target.size]; grind

/-! ## `OnAuth` -/

/-- The frame is long enough for algorithm and sequence number, and for 128 bytes behind the header of a challenge. -/
def AuthFits (cfg : ApConfig) (a : AccessPoint) (f : MgntFrame) : Prop :=
  let g := f.auth.opened cfg.keys
  a.isAp = true → 24 + f.offset + 4 ≤ f.len ∧
    (challenged cfg a g = true → Searchable g.mem 34 f.len 16 ∧
      ∀ p ∈ foundAt g.mem 34 f.len 16, g.mem (p + 1) ≠ 0 → p + 2 + 128 ≤ f.len)

/-- `rtw_wep_decrypt` stays inside a frame that has an IV. -/
theorem wep_inside (f : MgntFrame) (iv : 28 ≤ f.len) : ∀ t ∈ wepTouches f.auth.rx, t.Inside f.len := by
  rw [wepTouches, List.forall_mem_append]
  refine ⟨frameBytes_inside (.inr ?_), (arcfourTouches_inside f.small (by decide : 24 + 4 ≤ 2 ^ 16)).mpr ?_⟩
  · show 24 + 3 ≤ f.len
    omega
  · show (0 : Int) ≤ (f.len : Int) - (24 : Nat) - (4 : Nat)
    omega

theorem onAuth_safe_iff (cfg : ApConfig) (a : AccessPoint) (f : MgntFrame) :
    (onAuth cfg a f).Safe (Access.Inside f.len) ↔ AuthFits cfg a f := by
  have wep : f.auth.privacy = true → 28 ≤ f.len → ∀ t ∈ wepTouches f.auth.rx, t.Inside f.len := fun _ => wep_inside f
  have offset : f.offset = if f.auth.privacy then 4 else 0 := rfl
  have search := @getIe_then_iff f.len (f.auth.opened cfg.keys).mem f.small 34 16 (f.len - 24 - 6 - 4) (by omega)
  simp only [onAuth, AuthFits, Act.safe_bind, Act.safe_ite, Act.safe_pure, look_safe_iff, returns_look,
    search, implies_true, forall_const, and_true, Act.safe_touch, List.forall_mem_map, Access.Inside,
    Act.returns_touch]
  by_cases privacy : f.auth.privacy = true
  · rw [if_pos privacy] at offset
    cases foundAt (f.auth.opened cfg.keys).mem 34 f.len 16 with
    | none =>
        simp only [privacy, offset, Act.safe_pure]
        grind
    | some p =>
        simp only [privacy, offset, Act.safe_pure, Act.safe_ite, look_safe_iff]
        grind
  · rw [if_neg privacy] at offset
    cases foundAt (f.auth.opened cfg.keys).mem 34 f.len 16 with
    | none =>
        simp only [privacy, offset, Act.safe_pure]
        grind
    | some p =>
        simp only [privacy, offset, Act.safe_pure, Act.safe_ite, look_safe_iff]
        grind

end Vmac.Mlme
