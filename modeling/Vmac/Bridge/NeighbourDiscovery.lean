/-
# Vmac.Bridge.NeighbourDiscovery -- the link-layer address in a neighbour discovery message

`nat25_db_handle` writes the station's address into the option of a message that it inserts.  `scan_tlv` walks the
options by lengths that the message gives, and looks at the length of an option before it asks whether it is there.

* `NdChain`: the options on the way, each with its header in the frame and a length that is not zero.
* `nd_sound_iff`: the walk ends, stays in the frame and writes into one option exactly along such chains.
* `zero_option`: an option at which it stands still.
-/
import Vmac.Ie.Search
import Vmac.Transmit.Attrib

namespace Vmac.Bridge

open Theory.Walk Security Ie Transmit

set_option autoImplicit false

/-! ## The functions -/

/-- What an `sk_buff` holds: the bytes from `data` on, and `len`. -/
structure Skb where
  data : Mem
  len : UInt32

/-- `ETH_HLEN`. -/
def ethHlen : Nat := 14

/-- `sizeof(struct ipv6hdr)`. -/
def ipv6hdrSize : Nat := 40

/-- `IPPROTO_ICMPV6`. -/
def ipprotoIcmpv6 : UInt8 := 58

/-- The ICMPv6 message. -/
def icmp6At : Nat := ethHlen + ipv6hdrSize

namespace Skb

variable (skb : Skb)

/-- `nat25_db_handle` takes the frame for an IPv6 packet that is not malformed. -/
def acceptsIpv6 : Bool := ¬Ap.uintSub skb.len.toNat ethHlen ≤ ipv6hdrSize

def saddr : List UInt8 := bytesAt skb.data (ethHlen + 8) 16

/-- `NAT25_INSERT` looks for an option. -/
def looksForOption : Bool :=
  skb.acceptsIpv6 && skb.saddr ≠ List.replicate 16 0 && skb.data (ethHlen + 6) = ipprotoIcmpv6 &&
    ethHlen + ipv6hdrSize + 4 < skb.len.toNat

end Skb

/-- The loop of `scan_tlv`, over `data` and `len`. -/
def scanTlv (m : Mem) (tag len8b : UInt8) : Loop (Nat × Int) Nat (Option Nat) where
  looks s := if 0 < s.2 then [s.1, s.1 + 1] else []
  round s :=
    if 0 < s.2 then
      if m s.1 = tag ∧ m (s.1 + 1) = len8b ∧ ((len8b.toNat * 8 : Nat) : Int) ≤ s.2 then .inl (some (s.1 + 2))
      else .inr (s.1 + (m (s.1 + 1)).toNat * 8, s.2 - ((m (s.1 + 1)).toNat * 8 : Nat))
    else .inl none

/-- Router solicitation and advertisement, neighbour solicitation and advertisement, redirect: where the options begin,
and the type of the option that is looked for. -/
def ndOptions (icmp6Type : UInt8) : Option (Nat × UInt8) :=
  if icmp6Type = 133 then some (8, 1)
  else if icmp6Type = 134 then some (16, 1)
  else if icmp6Type = 135 then some (24, 1)
  else if icmp6Type = 136 then some (24, 2)
  else if icmp6Type = 137 then some (40, 2)
  else none

/-- `update_nd_link_layer_addr`, if its loop ends within `turns` rounds: the memory, and the place of the address. -/
def updateNdLinkLayerAddr (turns : Nat) (m : Mem) (data : Nat) (len : Int) (replaceMac : MacAddr) :
    Option (Mem × Option Nat) :=
  match ndOptions (m data) with
  | some (options, tag) =>
    if (options : Int) ≤ len then
      ((scanTlv m tag 1).run turns (data + options, len - options)).map fun mac =>
        (mac.elim m fun p => splice m p (List.ofFn replaceMac), mac)
    else some (m, none)
  | none => some (m, none)

/-- The places it reads and writes. -/
def updateNdLooks (turns : Nat) (m : Mem) (data : Nat) (len : Int) : List Nat :=
  data ::
    match ndOptions (m data) with
    | some (options, tag) =>
      if (options : Int) ≤ len then
        (scanTlv m tag 1).trace turns (data + options, len - options) ++
          match (scanTlv m tag 1).run turns (data + options, len - options) with
          | some (some mac) => (List.range 6).map (mac + ·)
          | _ => []
      else []
    | none => []

/-- The `int` that is passed for the length. -/
def Skb.icmp6Len (skb : Skb) : Int := sint (skb.len.toNat - icmp6At : Nat)

/-- An option of this type and of eight bytes, all in the frame. -/
def LinkLayerOption (m : Mem) (n : Nat) (tag : UInt8) (q : Nat) : Prop := q + 8 ≤ n ∧ m q = tag ∧ m (q + 1) = 1

instance (m : Mem) (n : Nat) (tag : UInt8) (q : Nat) : Decidable (LinkLayerOption m n tag q) :=
  inferInstanceAs (Decidable (_ ∧ _))

/-- It returns, has stayed in the frame, and either has left it or has overwritten the address of one option. -/
def NdSound (skb : Skb) (replaceMac : MacAddr) : Prop :=
  skb.looksForOption = true → ∃ turns m mac,
    updateNdLinkLayerAddr turns skb.data icmp6At skb.icmp6Len replaceMac = some (m, mac) ∧
    (∀ a ∈ updateNdLooks turns skb.data icmp6At skb.icmp6Len, a < skb.len.toNat) ∧
    (mac = none → m = skb.data) ∧
    ∀ p, mac = some p → ∃ options tag q, ndOptions (skb.data icmp6At) = some (options, tag) ∧ icmp6At + options ≤ q ∧
      LinkLayerOption skb.data skb.len.toNat tag q ∧ p = q + 2 ∧ m = splice skb.data p (List.ofFn replaceMac)

/-! ## Chains of options -/

/-- From `p` on, up to the option that is looked for, every option has its header in the frame and a length. -/
inductive NdChain (m : Mem) (n : Nat) (tag : UInt8) : Nat → Prop where
  | behind {p : Nat} (behind : n ≤ p) : NdChain m n tag p
  | found {p : Nat} (option : LinkLayerOption m n tag p) : NdChain m n tag p
  | next {p : Nat} (header : p + 2 ≤ n) (some_ : m (p + 1) ≠ 0) (rest : NdChain m n tag (p + (m (p + 1)).toNat * 8)) :
      NdChain m n tag p

/-- The messages for which the walk is sound. -/
def NdFits (skb : Skb) : Prop :=
  skb.looksForOption = true → ∀ options tag, ndOptions (skb.data icmp6At) = some (options, tag) →
    (options : Int) ≤ skb.icmp6Len → NdChain skb.data skb.len.toNat tag (icmp6At + options)

section Chain

variable {m : Mem} {n p : Nat} {tag : UInt8} {r : Option Nat}

/-- An option at which the walk stands still. -/
theorem not_scan_zero {len : Int} (some_ : 0 < len) (zero : m (p + 1) = 0) {good : Nat → Prop} :
    ¬(scanTlv m tag 1).Ends good (p, len) r := by
  refine Loop.not_ends_of_cycle ?_
  have other : ¬(m p = tag ∧ m (p + 1) = 1 ∧ (((1 : UInt8).toNat * 8 : Nat) : Int) ≤ len) := by
    rw [zero]
    exact fun taken => absurd taken.2.1 (by decide)
  simp only [scanTlv, if_pos some_]
  rw [if_neg other, zero]
  simp

/-- The header of an option that is looked at. -/
theorem scan_option (below : p < n) : (scanTlv m tag 1).Ends (· < n) (p, (n : Int) - p) r ↔
    p + 2 ≤ n ∧ if LinkLayerOption m n tag p then r = some (p + 2)
      else (scanTlv m tag 1).Ends (· < n) (p + (m (p + 1)).toNat * 8, (n : Int) - (p + (m (p + 1)).toNat * 8 : Nat)) r := by
  have goes : 0 < (n : Int) - p := by omega
  have eight : (((1 : UInt8).toNat * 8 : Nat) : Int) ≤ (n : Int) - p ↔ p + 8 ≤ n := by
    rw [show (1 : UInt8).toNat = 1 from rfl]
    omega
  have taken_iff : m p = tag ∧ m (p + 1) = 1 ∧ (((1 : UInt8).toNat * 8 : Nat) : Int) ≤ (n : Int) - p ↔
      LinkLayerOption m n tag p := by
    rw [eight, LinkLayerOption]
    tauto
  have inside : (∀ a ∈ (scanTlv m tag 1).looks (p, (n : Int) - p), a < n) ↔ p + 2 ≤ n := by
    simp only [scanTlv, if_pos goes, List.forall_mem_cons]
    simp
    omega
  have further : (n : Int) - p - ((m (p + 1)).toNat * 8 : Nat) = (n : Int) - (p + (m (p + 1)).toNat * 8 : Nat) := by
    omega
  by_cases taken : LinkLayerOption m n tag p
  · have round : (scanTlv m tag 1).round (p, (n : Int) - p) = .inl (some (p + 2)) := by
      simp only [scanTlv, if_pos goes]
      exact if_pos (taken_iff.mpr taken)
    rw [Loop.ends_of_done round, inside, if_pos taken]
  · have round : (scanTlv m tag 1).round (p, (n : Int) - p) =
        .inr (p + (m (p + 1)).toNat * 8, (n : Int) - (p + (m (p + 1)).toNat * 8 : Nat)) := by
      simp only [scanTlv, if_pos goes, ← further]
      exact if_neg (mt taken_iff.mp taken)
    rw [Loop.ends_of_again round, inside, if_neg taken]

theorem scan_behind (behind : n ≤ p) : (scanTlv m tag 1).Ends (· < n) (p, (n : Int) - p) r ↔ r = none := by
  have stops : ¬0 < (n : Int) - p := by omega
  have round : (scanTlv m tag 1).round (p, (n : Int) - p) = .inl none := by simp only [scanTlv, if_neg stops]
  have looks : (scanTlv m tag 1).looks (p, (n : Int) - p) = [] := by simp only [scanTlv, if_neg stops]
  rw [Loop.ends_of_done round, looks]
  simp

/-- The walk from an option on is sound exactly along a chain. -/
theorem ndChain_iff : (∃ r, (scanTlv m tag 1).Ends (· < n) (p, (n : Int) - p) r) ↔ NdChain m n tag p := by
  constructor
  · rintro ⟨r, ends⟩
    -- an option with a length is before the next one
    induction left : n - p using Nat.strongRecOn generalizing p with
    | ind k ih =>
      by_cases below : p < n
      · obtain ⟨header, stops⟩ := (scan_option below).mp ends
        by_cases taken : LinkLayerOption m n tag p
        · exact .found taken
        · rw [if_neg taken] at stops
          have some_ : m (p + 1) ≠ 0 := fun zero => not_scan_zero (by omega) zero ends
          have positive : 0 < (m (p + 1)).toNat := Nat.pos_of_ne_zero fun zero => some_ (UInt8.toNat_inj.mp zero)
          exact .next header some_ (ih _ (by omega) stops rfl)
      · exact .behind (Nat.le_of_not_lt below)
  · intro chain
    induction chain with
    | @behind p behind => exact ⟨none, (scan_behind behind).mpr rfl⟩
    | @found p option =>
        exact ⟨some (p + 2), (scan_option (by have := option.1; omega)).mpr ⟨by have := option.1; omega, by rw [if_pos option]⟩⟩
    | @next p header some_ rest ih =>
        by_cases taken : LinkLayerOption m n tag p
        · exact ⟨some (p + 2), (scan_option (by omega)).mpr ⟨header, by rw [if_pos taken]⟩⟩
        · obtain ⟨r, ends⟩ := ih
          exact ⟨r, (scan_option (by omega)).mpr ⟨header, by rwa [if_neg taken]⟩⟩

/-- What a walk finds is an option of the type, in the frame. -/
theorem scan_found (chain : NdChain m n tag p) (ends : (scanTlv m tag 1).Ends (· < n) (p, (n : Int) - p) r) :
    r = none ∨ ∃ q, p ≤ q ∧ LinkLayerOption m n tag q ∧ r = some (q + 2) := by
  induction chain with
  | @behind p behind => exact .inl ((scan_behind behind).mp ends)
  | @found p option =>
      obtain ⟨-, stops⟩ := (scan_option (by have := option.1; omega)).mp ends
      rw [if_pos option] at stops
      exact .inr ⟨p, Nat.le_refl p, option, stops⟩
  | @next p header some_ rest ih =>
      obtain ⟨-, stops⟩ := (scan_option (by omega)).mp ends
      by_cases taken : LinkLayerOption m n tag p
      · rw [if_pos taken] at stops
        exact .inr ⟨p, Nat.le_refl p, taken, stops⟩
      · rw [if_neg taken] at stops
        rcases ih stops with none_ | ⟨q, behind, option, found⟩
        · exact .inl none_
        · exact .inr ⟨q, Nat.le_trans (Nat.le_add_right _ _) behind, option, found⟩

end Chain

/-! ## The theorem -/

section Sound

variable {skb : Skb}

/-- The message is there. -/
theorem icmp6_inside (looks : skb.looksForOption = true) : icmp6At + 4 < skb.len.toNat := by
  rw [Skb.looksForOption, Bool.and_eq_true, decide_eq_true_iff] at looks
  exact looks.2

/-- The length that is passed is negative, or that of what is left of the frame. -/
theorem icmp6Len_cases (looks : skb.looksForOption = true) :
    skb.icmp6Len < 0 ∨ skb.icmp6Len = (skb.len.toNat : Int) - icmp6At := by
  have inside := icmp6_inside looks
  have small := skb.len.toNat_lt
  by_cases large : 2 ^ 31 ≤ skb.len.toNat - icmp6At
  · exact .inl (sint_wraps large (by omega))
  · refine .inr ?_
    rw [Skb.icmp6Len, sint_of_lt (by omega)]
    omega

/-- A message without options that are looked at. -/
theorem nd_other (replaceMac : MacAddr) (other : ∀ options tag, ndOptions (skb.data icmp6At) = some (options, tag) →
    ¬(options : Int) ≤ skb.icmp6Len) (turns : Nat) :
    updateNdLinkLayerAddr turns skb.data icmp6At skb.icmp6Len replaceMac = some (skb.data, none) ∧
      updateNdLooks turns skb.data icmp6At skb.icmp6Len = [icmp6At] := by
  rw [updateNdLinkLayerAddr, updateNdLooks]
  cases message : ndOptions (skb.data icmp6At) with
  | none => exact ⟨rfl, rfl⟩
  | some found =>
      obtain ⟨options, tag⟩ := found
      simp only [if_neg (other options tag message), and_self]

/-- A message whose options are looked at. -/
theorem nd_walk (replaceMac : MacAddr) {options : Nat} {tag : UInt8} (message : ndOptions (skb.data icmp6At) = some (options, tag))
    (fits : (options : Int) ≤ skb.icmp6Len) (looks : skb.looksForOption = true) (turns : Nat) :
    updateNdLinkLayerAddr turns skb.data icmp6At skb.icmp6Len replaceMac =
        ((scanTlv skb.data tag 1).run turns (icmp6At + options, (skb.len.toNat : Int) - (icmp6At + options : Nat))).map
          (fun mac => (mac.elim skb.data fun p => splice skb.data p (List.ofFn replaceMac), mac)) ∧
      ∀ r, (scanTlv skb.data tag 1).run turns (icmp6At + options, (skb.len.toNat : Int) - (icmp6At + options : Nat)) =
          some r →
        updateNdLooks turns skb.data icmp6At skb.icmp6Len = icmp6At ::
          ((scanTlv skb.data tag 1).trace turns (icmp6At + options, (skb.len.toNat : Int) - (icmp6At + options : Nat)) ++
            r.elim [] fun mac => (List.range 6).map (mac + ·)) := by
  have passed := (icmp6Len_cases looks).resolve_left (by omega)
  have start : skb.icmp6Len - options = (skb.len.toNat : Int) - (icmp6At + options : Nat) := by omega
  rw [← start]
  refine ⟨?_, fun r result => ?_⟩
  · simp only [updateNdLinkLayerAddr, message, if_pos fits]
  · simp only [updateNdLooks, message, if_pos fits, result]
    cases r with
    | none => rfl
    | some mac => rfl

/-- For every frame that is inserted as an IPv6 packet, and every address: the walk along the options returns, stays in
the frame and overwrites the address of one option, or nothing, exactly if the message fits. -/
theorem nd_sound_iff (skb : Skb) (replaceMac : MacAddr) : NdSound skb replaceMac ↔ NdFits skb := by
  rw [NdSound, NdFits]
  refine forall_congr' fun looks => ?_
  have inside := icmp6_inside looks
  by_cases walks : ∃ options tag, ndOptions (skb.data icmp6At) = some (options, tag) ∧ (options : Int) ≤ skb.icmp6Len
  · obtain ⟨options, tag, message, fits⟩ := walks
    have walk (turns : Nat) := nd_walk replaceMac message fits looks turns
    constructor
    · rintro ⟨turns, m, mac, run, within, -, -⟩ options' tag' message' -
      cases message.symm.trans message'
      obtain ⟨result, trace⟩ := walk turns
      rw [run] at result
      obtain ⟨r, found, -⟩ := Option.map_eq_some_iff.mp result.symm
      rw [trace r found] at within
      exact ndChain_iff.mp ⟨r, Loop.ends_iff_run.mpr ⟨turns, found, fun a member =>
        within a (List.mem_cons_of_mem _ (List.mem_append_left _ member))⟩⟩
    · intro chains
      have chain := chains options tag message fits
      obtain ⟨r, ends⟩ := ndChain_iff.mpr chain
      obtain ⟨turns, found, within⟩ := Loop.ends_iff_run.mp ends
      obtain ⟨result, trace⟩ := walk turns
      rw [found] at result
      refine ⟨turns, _, r, result, ?_, ?_, ?_⟩
      · rw [trace r found, List.forall_mem_cons, List.forall_mem_append]
        refine ⟨by omega, within, ?_⟩
        rcases scan_found chain ends with rfl | ⟨q, -, option, rfl⟩
        · exact nofun
        · intro a member
          obtain ⟨k, below, rfl⟩ := List.mem_map.mp member
          have := option.1
          have := List.mem_range.mp below
          omega
      · rintro rfl
        rfl
      · rintro p rfl
        rcases scan_found chain ends with none_ | ⟨q, behind, option, same⟩
        · exact absurd none_ (by simp)
        · exact ⟨options, tag, q, message, behind, option, Option.some.inj same, rfl⟩
  · have other (options : Nat) (tag : UInt8) (message : ndOptions (skb.data icmp6At) = some (options, tag)) :
        ¬(options : Int) ≤ skb.icmp6Len := fun fits => walks ⟨options, tag, message, fits⟩
    obtain ⟨run, trace⟩ := nd_other replaceMac other 0
    refine iff_of_true ⟨0, _, _, run, ?_, fun _ => rfl, nofun⟩ fun options tag message fits =>
      absurd fits (other options tag message)
    rw [trace]
    intro a member
    rw [List.mem_singleton.mp member]
    omega

end Sound

/-- A neighbour solicitation from fe80::1 with one option, of length zero. -/
def zeroOption : Skb where
  data := splice (splice (splice (fun _ => 0) 20 [58, 255, 0xfe, 0x80]) 37 [1]) 54 ([135, 0] ++ List.replicate 22 0 ++ [5, 0])
  len := 80

/-- The walk stands still at it. -/
theorem zero_option : ¬NdSound zeroOption fun _ => 2 := by
  intro sound
  have looks : zeroOption.looksForOption = true := by decide
  have message : ndOptions (zeroOption.data icmp6At) = some (24, 1) := by decide
  obtain ⟨turns, m, mac, run, -⟩ := sound looks
  obtain ⟨result, -⟩ := nd_walk (fun _ => 2) message (by decide) looks turns
  rw [run] at result
  obtain ⟨r, found, -⟩ := Option.map_eq_some_iff.mp result.symm
  have zero : zeroOption.data (icmp6At + 24 + 1) = 0 := by decide
  exact not_scan_zero (by decide) zero (Loop.ends_iff_run.mpr ⟨turns, found, fun _ _ => trivial⟩)

end Vmac.Bridge
