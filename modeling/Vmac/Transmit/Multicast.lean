/-
# Vmac.Transmit.Multicast -- multicast frames as unicast copies: xmit_linux.c

`rtw_mlcst2unicst` gives `rtw_xmit` a copy of a multicast frame for every associated station.
When a frame cannot be copied it returns `_FALSE`, and `_rtw_xmit_entry` sends the frame itself.

* `mlcst2unicstLoop_spec`: how far the loop comes.
* `all_or_nothing_iff`: when it is all or nothing.
* `sent_twice`: one frame that a station gets twice.
-/
import Vmac.Ap.StaTable

namespace Vmac.Transmit

open Ap (StaPriv Offset fwLinked)

set_option autoImplicit false

/-! ## rtw_mlcst2unicst -/

/-- What became of the frame and its copies so far. -/
structure Mlcst2unicst where
  /-- The copies given to `rtw_xmit`, in order. -/
  handed : List (List UInt8)
  /-- The copies freed here, by their place among those. -/
  newskbFreed : List Nat
  skbFreed : Nat
  txDrop : Nat

def Mlcst2unicst.start : Mlcst2unicst := ⟨[], [], 0, 0⟩

/-- `newskb`: the copy with the address of a station. -/
def newskb (skb : List UInt8) (macAddr : MacAddr) : List UInt8 := List.ofFn macAddr ++ skb.drop 6

/-- A copy and the result of `rtw_xmit` for it: what is refused is freed here. -/
def Mlcst2unicst.handOver (m : Mlcst2unicst) (newskb : List UInt8) (res : Int) : Mlcst2unicst :=
  let n := m.handed.length
  let m := { m with handed := m.handed ++ [newskb] }
  if res < 0 then { m with txDrop := m.txDrop + 1, newskbFreed := m.newskbFreed ++ [n] } else m

section HandOver

variable (m : Mlcst2unicst) (newskb : List UInt8) (res : Int)

@[simp] theorem handOver_handed : (m.handOver newskb res).handed = m.handed ++ [newskb] := by
  simp only [Mlcst2unicst.handOver]
  split <;> rfl

@[simp] theorem handOver_skbFreed : (m.handOver newskb res).skbFreed = m.skbFreed := by
  simp only [Mlcst2unicst.handOver]
  split <;> rfl

@[simp] theorem handOver_newskbFreed :
    (m.handOver newskb res).newskbFreed = m.newskbFreed ++ if res < 0 then [m.handed.length] else [] := by
  simp only [Mlcst2unicst.handOver]
  split <;> simp

end HandOver

/-- The station is linked and did not send the frame. -/
def isLinked (s : StaPriv) (skb : List UInt8) (r : Offset) : Bool :=
  (s.stainfo r).state &&& fwLinked != 0 && (s.stainfo r).macAddr != addrAt skb 6

/-- The addresses that `rtw_mlcst2unicst` passes over beside the sender's. -/
def isIgnored (s : StaPriv) (r : Offset) : Bool :=
  (s.stainfo r).macAddr == (fun _ => 0) || (s.stainfo r).macAddr == bcAddr

variable (s : StaPriv) (skb : List UInt8) (skbCopy : Nat → Bool) (rtwXmit : Nat → Int)

/-- The loop over `chk_alive_list`; the copy made next has the number of those already made. -/
def mlcst2unicstLoop : List Offset → Mlcst2unicst → Mlcst2unicst × Bool
  | [], m => ({ m with skbFreed := m.skbFreed + 1 }, true)
  | r :: rest, m =>
      let psta := s.stainfo r
      if psta.state &&& fwLinked = 0 then mlcst2unicstLoop rest m
      else if psta.macAddr = addrAt skb 6 ∨ psta.macAddr = (fun _ => 0) ∨ psta.macAddr = bcAddr then
        mlcst2unicstLoop rest m
      else
        if skbCopy m.handed.length = true then
          mlcst2unicstLoop rest (m.handOver (newskb skb psta.macAddr) (rtwXmit m.handed.length))
        else ({ m with txDrop := m.txDrop + 1 }, false)

/-- `rtw_mlcst2unicst`; every record has a valid offset, so all of `asoc_list` is in `chk_alive_list`. -/
def rtwMlcst2unicst : Mlcst2unicst × Bool := mlcst2unicstLoop s skb skbCopy rtwXmit s.asocList .start

/-! ## _rtw_xmit_entry -/

/-- `NR_XMITFRAME`. -/
def nrXmitframe : Nat := 256

/-- What `_rtw_xmit_entry` asks before it tries. -/
structure XmitEntry where
  mpMode : Bool
  ifUp : Bool
  mc2uDisable : Bool
  /-- `MLME_IS_AP` or `MLME_IS_MESH`. -/
  master : Bool
  wifiSpec : Bool
  freeXmitframeCnt : Nat

/-- `IP_MCAST_MAC`. -/
def ipMcastMac (mac : MacAddr) : Bool := mac 0 == 0x01 && mac 1 == 0x00 && mac 2 == 0x5e

/-- `ICMPV6_MCAST_MAC`. -/
def icmpv6McastMac (mac : MacAddr) : Bool := mac 0 == 0x33 && mac 1 == 0x33 && mac 2 != 0xff

/-- `rtw_mlcst2unicst` is called. -/
def XmitEntry.triesM2u (e : XmitEntry) : Bool :=
  !e.mc2uDisable && e.master && (ipMcastMac (addrAt skb 0) || icmpv6McastMac (addrAt skb 0)) && !e.wifiSpec &&
    decide (nrXmitframe / 4 < e.freeXmitframeCnt)

/-- `_rtw_xmit_entry`, and whether the frame itself is given to `rtw_xmit`. -/
def XmitEntry.run (e : XmitEntry) : Mlcst2unicst × Bool :=
  let dropPacket (m : Mlcst2unicst) : Mlcst2unicst := { m with txDrop := m.txDrop + 1, skbFreed := m.skbFreed + 1 }
  if e.mpMode = true ∨ e.ifUp = false then (dropPacket .start, false)
  else
    let (m, res) := if e.triesM2u skb = true then rtwMlcst2unicst s skb skbCopy rtwXmit else (.start, false)
    if res = true then (m, false)
    else if rtwXmit m.handed.length < 0 then (dropPacket m, true)
    else (m, true)

/-! ## The loop -/

/-- The stations that are served. -/
def served (rs : List Offset) : List Offset := rs.filter fun r => isLinked s skb r && !isIgnored s r

/-- The copies for some stations. -/
def copiesFor (rs : List Offset) : List (List UInt8) := rs.map fun r => newskb skb (s.stainfo r).macAddr

section Loop

variable {s : StaPriv} {skb : List UInt8} {skbCopy : Nat → Bool} {rtwXmit : Nat → Int} {r : Offset} {rest : List Offset}
  {m : Mlcst2unicst}

theorem served_iff : (isLinked s skb r && !isIgnored s r) = true ↔
    ¬(s.stainfo r).state &&& fwLinked = 0 ∧
      ¬((s.stainfo r).macAddr = addrAt skb 6 ∨ (s.stainfo r).macAddr = (fun _ => 0) ∨ (s.stainfo r).macAddr = bcAddr) := by
  simp [isLinked, isIgnored, and_assoc]

/-- A station that is passed over. -/
theorem mlcst2unicstLoop_pass (not : (isLinked s skb r && !isIgnored s r) = false) :
    mlcst2unicstLoop s skb skbCopy rtwXmit (r :: rest) m = mlcst2unicstLoop s skb skbCopy rtwXmit rest m := by
  rw [← Bool.not_eq_true, served_iff] at not
  by_cases unlinked : (s.stainfo r).state &&& fwLinked = 0
  · simp only [mlcst2unicstLoop, if_pos unlinked]
  · have other := not_not.mp fun ignored => not ⟨unlinked, ignored⟩
    simp only [mlcst2unicstLoop, if_neg unlinked, if_pos other]

/-- A station whose copy is given to `rtw_xmit`. -/
theorem mlcst2unicstLoop_serve (is : (isLinked s skb r && !isIgnored s r) = true)
    (copied : skbCopy m.handed.length = true) :
    mlcst2unicstLoop s skb skbCopy rtwXmit (r :: rest) m =
      mlcst2unicstLoop s skb skbCopy rtwXmit rest
        (m.handOver (newskb skb (s.stainfo r).macAddr) (rtwXmit m.handed.length)) := by
  obtain ⟨linked, other⟩ := served_iff.mp is
  simp only [mlcst2unicstLoop, if_neg linked, if_neg other, if_pos copied]

/-- A station for which the frame cannot be copied. -/
theorem mlcst2unicstLoop_fail (is : (isLinked s skb r && !isIgnored s r) = true)
    (failed : skbCopy m.handed.length = false) :
    mlcst2unicstLoop s skb skbCopy rtwXmit (r :: rest) m = ({ m with txDrop := m.txDrop + 1 }, false) := by
  obtain ⟨linked, other⟩ := served_iff.mp is
  simp only [mlcst2unicstLoop, if_neg linked, if_neg other, failed, Bool.false_eq_true, if_false]

/-- The loop serves the first `k` stations, and all of them unless the next copy fails. -/
theorem mlcst2unicstLoop_spec (rs : List Offset) (m : Mlcst2unicst) :
    ∃ k ≤ (served s skb rs).length, (∀ n < k, skbCopy (m.handed.length + n) = true) ∧
      (k < (served s skb rs).length → skbCopy (m.handed.length + k) = false) ∧
      (mlcst2unicstLoop s skb skbCopy rtwXmit rs m).1.handed = m.handed ++ copiesFor s skb ((served s skb rs).take k) ∧
      (mlcst2unicstLoop s skb skbCopy rtwXmit rs m).1.skbFreed =
        m.skbFreed + (if k = (served s skb rs).length then 1 else 0) ∧
      (mlcst2unicstLoop s skb skbCopy rtwXmit rs m).2 = decide (k = (served s skb rs).length) := by
  induction rs generalizing m with
  | nil => exact ⟨0, Nat.le_refl 0, nofun, nofun, by simp [mlcst2unicstLoop, served, copiesFor]⟩
  | cons r rest ih =>
      cases is : (isLinked s skb r && !isIgnored s r) with
      | false =>
          have same : served s skb (r :: rest) = served s skb rest := List.filter_cons_of_neg (by simp [is])
          rw [mlcst2unicstLoop_pass is, same]
          exact ih m
      | true =>
          have more : served s skb (r :: rest) = r :: served s skb rest := List.filter_cons_of_pos is
          rw [more, List.length_cons]
          cases copied : skbCopy m.handed.length with
          | false =>
              rw [mlcst2unicstLoop_fail is copied]
              exact ⟨0, Nat.zero_le _, nofun, fun _ => copied, by simp [copiesFor]⟩
          | true =>
              rw [mlcst2unicstLoop_serve is copied]
              obtain ⟨k, le, made, stops, handed, freed, ret⟩ :=
                ih (m.handOver (newskb skb (s.stainfo r).macAddr) (rtwXmit m.handed.length))
              have number (n : Nat) : (m.handOver (newskb skb (s.stainfo r).macAddr) (rtwXmit m.handed.length)).handed.length +
                  n = m.handed.length + (n + 1) := by
                rw [handOver_handed, List.length_append, List.length_singleton]
                omega
              refine ⟨k + 1, by omega, fun n before => ?_, fun less => ?_, ?_, ?_, ?_⟩
              · cases n with
                | zero => exact copied
                | succ n =>
                    rw [← number]
                    exact made n (by omega)
              · rw [← number]
                exact stops (by omega)
              · rw [handed]
                simp [copiesFor]
              · rw [freed]
                simp
              · rw [ret]
                simp

/-- A copy is freed here exactly if `rtw_xmit` refused it. -/
theorem mlcst2unicstLoop_newskbFreed (rs : List Offset) (m : Mlcst2unicst)
    (before : m.newskbFreed = (List.range m.handed.length).filter fun n => rtwXmit n < 0) :
    (mlcst2unicstLoop s skb skbCopy rtwXmit rs m).1.newskbFreed =
      (List.range (mlcst2unicstLoop s skb skbCopy rtwXmit rs m).1.handed.length).filter fun n => rtwXmit n < 0 := by
  induction rs generalizing m with
  | nil => exact before
  | cons r rest ih =>
      cases is : (isLinked s skb r && !isIgnored s r) with
      | false =>
          rw [mlcst2unicstLoop_pass is]
          exact ih m before
      | true =>
          cases copied : skbCopy m.handed.length with
          | false =>
              rw [mlcst2unicstLoop_fail is copied]
              exact before
          | true =>
              rw [mlcst2unicstLoop_serve is copied]
              apply ih
              rw [handOver_newskbFreed, handOver_handed, List.length_append, List.length_singleton, List.range_succ,
                List.filter_append, before, List.filter_singleton]
              simp

end Loop

/-! ## All or nothing -/

/-- With `_TRUE` every linked station but the sender was sent a copy, and the frame is freed; with `_FALSE` no copy was
sent and the frame is there.  `_rtw_xmit_entry` sends copies or the frame. -/
structure AllOrNothing : Prop where
  all : (rtwMlcst2unicst s skb skbCopy rtwXmit).2 = true →
    (rtwMlcst2unicst s skb skbCopy rtwXmit).1.handed = copiesFor s skb (s.asocList.filter (isLinked s skb)) ∧
      (rtwMlcst2unicst s skb skbCopy rtwXmit).1.skbFreed = 1
  nothing : (rtwMlcst2unicst s skb skbCopy rtwXmit).2 = false →
    (rtwMlcst2unicst s skb skbCopy rtwXmit).1.handed = [] ∧ (rtwMlcst2unicst s skb skbCopy rtwXmit).1.skbFreed = 0
  once : ∀ e : XmitEntry, (e.run s skb skbCopy rtwXmit).2 = true → (e.run s skb skbCopy rtwXmit).1.handed = []

section AllOrNothing

variable {s : StaPriv} {skb : List UInt8} {skbCopy : Nat → Bool} {rtwXmit : Nat → Int}

/-- The frame itself is sent only behind a `_FALSE`. -/
theorem run_once (nothing : (rtwMlcst2unicst s skb skbCopy rtwXmit).2 = false →
    (rtwMlcst2unicst s skb skbCopy rtwXmit).1.handed = []) (e : XmitEntry)
    (sent : (e.run s skb skbCopy rtwXmit).2 = true) : (e.run s skb skbCopy rtwXmit).1.handed = [] := by
  have none_ : (if e.triesM2u skb = true then rtwMlcst2unicst s skb skbCopy rtwXmit else (.start, false)).2 = false →
      (if e.triesM2u skb = true then rtwMlcst2unicst s skb skbCopy rtwXmit else (.start, false)).1.handed = [] := by
    split
    · exact nothing
    · intro
      rfl
  simp only [XmitEntry.run] at sent ⊢
  split at sent
  · exact absurd sent nofun
  · rename_i up
    rw [if_neg up]
    generalize (if e.triesM2u skb = true then rtwMlcst2unicst s skb skbCopy rtwXmit else (.start, false)) = out at *
    obtain ⟨m, res⟩ := out
    cases res with
    | true => exact absurd sent nofun
    | false =>
        have empty : m.handed = [] := none_ rfl
        simp only [Bool.false_eq_true, if_false]
        split <;> exact empty

theorem served_eq : served s skb s.asocList = (s.asocList.filter (isLinked s skb)).filter fun r => !isIgnored s r := by
  rw [List.filter_filter, served]
  simp only [Bool.and_comm]

/-- The first `k` stations of those that are served are sent a copy. -/
theorem rtwMlcst2unicst_spec : ∃ k ≤ (served s skb s.asocList).length, (∀ n < k, skbCopy n = true) ∧
    (k < (served s skb s.asocList).length → skbCopy k = false) ∧
    (rtwMlcst2unicst s skb skbCopy rtwXmit).1.handed = copiesFor s skb ((served s skb s.asocList).take k) ∧
    (rtwMlcst2unicst s skb skbCopy rtwXmit).1.skbFreed = (if k = (served s skb s.asocList).length then 1 else 0) ∧
    (rtwMlcst2unicst s skb skbCopy rtwXmit).2 = decide (k = (served s skb s.asocList).length) := by
  obtain ⟨k, le, made, stops, handed, freed, ret⟩ := @mlcst2unicstLoop_spec s skb skbCopy rtwXmit s.asocList .start
  have first (n : Nat) : Mlcst2unicst.start.handed.length + n = n := Nat.zero_add n
  have none_ : Mlcst2unicst.start.handed = [] := rfl
  have unfreed : Mlcst2unicst.start.skbFreed = 0 := rfl
  simp only [first] at made stops
  rw [none_, List.nil_append] at handed
  rw [unfreed, Nat.zero_add] at freed
  exact ⟨k, le, made, stops, handed, freed, ret⟩

/-- When every copy is made, the stations that are served must be all that are linked. -/
theorem allOrNothing_copied (yes : (rtwMlcst2unicst s skb skbCopy rtwXmit).2 = true)
    (sent : (rtwMlcst2unicst s skb skbCopy rtwXmit).1.handed = copiesFor s skb (served s skb s.asocList))
    (freed : (rtwMlcst2unicst s skb skbCopy rtwXmit).1.skbFreed = 1) :
    AllOrNothing s skb skbCopy rtwXmit ↔ ∀ r ∈ s.asocList, isLinked s skb r = true → isIgnored s r = false := by
  constructor
  · intro both
    have lengths := congrArg List.length ((both.all yes).1.symm.trans sent)
    rw [copiesFor, copiesFor, List.length_map, List.length_map, served_eq] at lengths
    intro r member linked
    simpa using List.length_filter_eq_length_iff.mp lengths.symm r (List.mem_filter.mpr ⟨member, linked⟩)
  · intro proper
    have all : served s skb s.asocList = s.asocList.filter (isLinked s skb) := by
      rw [served_eq]
      apply List.filter_eq_self.mpr
      intro r member
      obtain ⟨member, linked⟩ := List.mem_filter.mp member
      simp [proper r member linked]
    have nothing (no : (rtwMlcst2unicst s skb skbCopy rtwXmit).2 = false) : False := by
      rw [yes] at no
      exact absurd no nofun
    exact ⟨fun _ => ⟨all ▸ sent, freed⟩, fun no => (nothing no).elim, run_once fun no => (nothing no).elim⟩

/-- When a copy fails, nothing may have been sent before. -/
theorem allOrNothing_failed (no : (rtwMlcst2unicst s skb skbCopy rtwXmit).2 = false)
    (freed : (rtwMlcst2unicst s skb skbCopy rtwXmit).1.skbFreed = 0) :
    AllOrNothing s skb skbCopy rtwXmit ↔ (rtwMlcst2unicst s skb skbCopy rtwXmit).1.handed = [] := by
  refine ⟨fun both => (both.nothing no).1, fun empty => ⟨fun yes => ?_, fun _ => ⟨empty, freed⟩, run_once fun _ => empty⟩⟩
  rw [no] at yes
  exact absurd yes nofun

end AllOrNothing

/-- It is all or nothing exactly if the first copy fails, or none does and no linked station has an address that is
passed over. -/
theorem all_or_nothing_iff : AllOrNothing s skb skbCopy rtwXmit ↔
    (served s skb s.asocList ≠ [] ∧ skbCopy 0 = false) ∨
      ((∀ n < (served s skb s.asocList).length, skbCopy n = true) ∧
        ∀ r ∈ s.asocList, isLinked s skb r = true → isIgnored s r = false) := by
  obtain ⟨k, le, made, stops, handed, freed, ret⟩ := @rtwMlcst2unicst_spec s skb skbCopy rtwXmit
  by_cases whole : k = (served s skb s.asocList).length
  · -- every copy is made
    have copied : ¬(served s skb s.asocList ≠ [] ∧ skbCopy 0 = false) := by
      rintro ⟨some_, failed⟩
      have positive := List.length_pos_of_ne_nil some_
      exact absurd (made 0 (by omega)) (by simp [failed])
    rw [whole, List.take_length] at handed
    rw [if_pos whole] at freed
    rw [decide_eq_true whole] at ret
    rw [allOrNothing_copied ret handed freed, or_iff_right copied, and_iff_right (whole ▸ made)]
  · -- the copy for station `k` fails
    have failed := stops (by omega)
    have broken : ¬∀ n < (served s skb s.asocList).length, skbCopy n = true := by
      intro all
      exact absurd (all k (by omega)) (by simp [failed])
    have some_ : served s skb s.asocList ≠ [] := List.ne_nil_of_length_pos (by omega)
    rw [if_neg whole] at freed
    rw [decide_eq_false whole] at ret
    rw [allOrNothing_failed ret freed, or_iff_left fun both => broken both.1, and_iff_right some_, handed, copiesFor,
      List.map_eq_nil_iff, List.take_eq_nil_iff, or_iff_left some_]
    constructor
    · intro zero
      exact zero ▸ failed
    · intro first
      by_contra positive
      exact absurd (made 0 (by omega)) (by simp [first])

/-- Two linked stations. -/
def ofTwoStations : StaPriv :=
  { Ap.initStaPriv with
    stainfo := fun r => { Ap.StaInfo.init with state := fwLinked, macAddr := fun _ => if r.val = 0 then 2 else 4 }
    asocList := Ap.initStaPriv.freeStaQueue.take 2 }

/-- A frame to 224.0.0.1. -/
def mcastFrame : List UInt8 := [0x01, 0x00, 0x5e, 0, 0, 1, 8, 8, 8, 8, 8, 8, 0x08, 0x00]

/-- The second copy fails: the first station is sent a copy, and then the frame itself goes to both. -/
theorem sent_twice : ¬AllOrNothing ofTwoStations mcastFrame (fun n => n == 0) (fun _ => 0) ∧
    (XmitEntry.run ofTwoStations mcastFrame (fun n => n == 0) (fun _ => 0) ⟨false, true, false, true, false, 256⟩).2 = true ∧
    (XmitEntry.run ofTwoStations mcastFrame (fun n => n == 0) (fun _ => 0) ⟨false, true, false, true, false, 256⟩).1.handed =
      [newskb mcastFrame fun _ => 2] := by
  refine ⟨fun both => absurd (both.nothing (by decide +kernel)).1 (by decide +kernel), by decide +kernel, by decide +kernel⟩

end Vmac.Transmit
