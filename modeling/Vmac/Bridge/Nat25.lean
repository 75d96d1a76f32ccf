/-
# Vmac.Bridge.Nat25 -- what `nat25_db_handle` makes of a frame that is transmitted

For each protocol it checks whether a frame has to be copied before it is rewritten, and it inserts the addresses of the
frame into its table and rewrites the frame.  A protocol that it does not know it answers with -1.

* `LinearSkb.nat25Check`, `Nat25Env.insert`: the function, for `NAT25_CHECK` and `NAT25_INSERT`, the table of addresses
  apart.
* `Nat25`: a check and an insertion that keeps the Ethernet header; `nat25` is one.
-/
import Vmac.Bridge.Pppoe

namespace Vmac.Bridge

open Theory.OnesSum Theory.Walk Security Ie Transmit

set_option autoImplicit false

/-! ## The function -/

def ethPIp : UInt16 := 0x0800
def ethPArp : UInt16 := 0x0806
def ethP8021q : UInt16 := 0x8100
def ethPIpv6 : UInt16 := 0x86dd
def ethPPppDisc : UInt16 := 0x8863
def ethPPppSes : UInt16 := 0x8864
def ethPPae : UInt16 := 0x888e

/-- The protocols of C-Media. -/
def ethPCmedia : List UInt16 := [0xe2ae, 0xe2af]

/-- `sizeof(struct arphdr)`. -/
def arphdrSize : Nat := 8

namespace LinearSkb

variable (skb : LinearSkb)

def protocol : UInt16 := ntohs skb.data 12

/-- The same without the room behind it. -/
def toSkb : Skb := ⟨skb.data, UInt32.ofNat skb.len⟩

/-- The header of the packet is not in the frame. -/
def malformedIp : Bool := ethHlen + skb.len ≤ ethHlen + skb.toSkb.ipHeaderLen

/-- `ar_pro` is not IP. -/
def unknownArp : Bool := ntohs skb.data (ethHlen + 2) ≠ ethPIp

/-- `nat25_db_handle` for `NAT25_CHECK`: zero if the frame is to be copied. -/
def nat25Check : Int :=
  if skb.protocol = ethPIp then -1
  else if skb.protocol = ethPArp then (if skb.unknownArp then -1 else 0)
  else if skb.protocol = ethPPppDisc ∨ skb.protocol = ethPPppSes then (if ntohs skb.data pppoeSid = 0 then 0 else 1)
  else if skb.protocol = ethPPae ∨ skb.protocol ∈ ethPCmedia then -1
  else if skb.protocol = ethPIpv6 then (if skb.toSkb.acceptsIpv6 ∧ skb.data 0 &&& 1 ≠ 0 then 0 else -1)
  else -1

end LinearSkb

/-- What the insertion of a frame depends on: the byte order and the checksums of the host, its stack, the station's
address and what is kept for PPPoE. -/
structure Nat25Env where
  o : ByteOrder
  checksum : InetChecksum o
  stack : Mem
  hwaddr : MacAddr
  pppoe : PppoeState

namespace Nat25Env

variable (env : Nat25Env)

/-- `NAT25_INSERT` of an ARP message. -/
def insertArp (skb : LinearSkb) : Int × LinearSkb :=
  if skb.unknownArp then (-1, skb)
  else (0, { skb with data := splice skb.data (ethHlen + arphdrSize) (List.ofFn env.hwaddr) })

/-- Of an IPv6 packet. -/
def insertIpv6Skb (turns : Nat) (skb : LinearSkb) : Option (Int × LinearSkb) :=
  if skb.toSkb.acceptsIpv6 then
    (insertIpv6 env.checksum turns skb.toSkb env.hwaddr).map fun r => (0, { skb with data := r.1.data })
  else some (-1, skb)

/-- `nat25_db_handle` for `NAT25_INSERT`, if the loop over the options of an IPv6 message ends within `turns` rounds. -/
def insert (turns : Nat) (skb : LinearSkb) : Option (Int × LinearSkb) :=
  if skb.protocol = ethPIp then some (if skb.malformedIp then -1 else 0, skb)
  else if skb.protocol = ethPArp then some (env.insertArp skb)
  else if skb.protocol = ethPPppDisc ∨ skb.protocol = ethPPppSes then
    let inserted := insertPppoe env.o env.stack env.pppoe skb
    some (inserted.1, inserted.2.2)
  else if skb.protocol = ethPPae ∨ skb.protocol ∈ ethPCmedia then some (0, skb)
  else if skb.protocol = ethPIpv6 then env.insertIpv6Skb turns skb
  else some (-1, skb)

end Nat25Env

/-! ## The header is kept -/

/-- The Ethernet header is in the frame and is what it was. -/
structure HeaderKept (skb skb' : LinearSkb) : Prop where
  header : SameBelow ethHlen skb.data skb'.data
  long : ethHlen ≤ skb.len → ethHlen ≤ skb'.len

/-- The frame with what comes of it: the header is kept, and if it is refused it does not get longer. -/
def InsertKeeps (skb : LinearSkb) (r : Int × LinearSkb) : Prop :=
  HeaderKept skb r.2 ∧ (r.1 < 0 → r.2.len ≤ skb.len)

/-- `nat25_db_handle` for a frame that is transmitted: the check, and the insertion, if it returns. -/
structure Nat25 where
  check : LinearSkb → Int
  insert : LinearSkb → Option (Int × LinearSkb)
  keeps : ∀ {skb r}, insert skb = some r → InsertKeeps skb r

namespace HeaderKept

variable {skb skb' skb'' : LinearSkb}

theorem refl (skb : LinearSkb) : HeaderKept skb skb := ⟨fun _ _ => rfl, id⟩

theorem trans (first : HeaderKept skb skb') (second : HeaderKept skb' skb'') : HeaderKept skb skb'' where
  header k below := (second.header k below).trans (first.header k below)
  long := second.long ∘ first.long

theorem splice (skb : LinearSkb) {p : Nat} (behind : ethHlen ≤ p) (bytes : List UInt8) :
    HeaderKept skb { skb with data := Security.splice skb.data p bytes } :=
  ⟨(splice_below _ _ _).mono behind, id⟩

end HeaderKept

theorem InsertKeeps.refl (skb : LinearSkb) (res : Int) : InsertKeeps skb (res, skb) :=
  ⟨.refl skb, fun _ => Nat.le_refl _⟩

section Pppoe

variable {o : ByteOrder} {stack tag : Mem} {priv : PppoeState} {skb : LinearSkb} {src len : Nat}

theorem setPppoeLen_header (skb : LinearSkb) (w : UInt16) : HeaderKept skb (skb.setPppoeLen w) :=
  .splice skb (by decide) _

/-- What is pulled out lies behind the header. -/
theorem pullAndMerge_keeps (behind : ethHlen ≤ src) : HeaderKept skb (skb.pullAndMerge src len).2 ∧
    (skb.pullAndMerge src len).2.len ≤ skb.len := by
  rw [LinearSkb.pullAndMerge]
  split
  · exact ⟨.refl skb, Nat.le_refl _⟩
  · refine ⟨⟨?_, fun _ => ?_⟩, Nat.sub_le _ _⟩
    · dsimp only
      split
      · exact (splice_below _ _ _).mono behind
      · exact fun _ _ => rfl
    · show ethHlen ≤ skb.len - len
      omega

/-- A frame to which no tag is added is left. -/
theorem addPppoeTag_keeps : HeaderKept skb (skb.addPppoeTag o tag).2 ∧
    ((skb.addPppoeTag o tag).1 < 0 → (skb.addPppoeTag o tag).2 = skb) := by
  rw [LinearSkb.addPppoeTag]
  split
  · exact ⟨.refl skb, fun _ => rfl⟩
  · refine ⟨?_, fun negative => absurd negative (Int.not_lt.mpr (Int.natCast_nonneg _))⟩
    refine HeaderKept.trans ⟨?_, fun long => ?_⟩ ((setPppoeLen_header _ _).trans (.splice _ (by decide) _))
    · exact (splice_below _ _ _).mono (by show ethHlen ≤ ethHlen + 6 + _; omega)
    · exact Nat.le_trans long (Nat.le_add_right _ _)

theorem findPppoeTag_ge {m : Mem} {length p ptr : Nat} {type : UInt16}
    (found : findPppoeTag m length type p = some ptr) : p ≤ ptr := by
  fun_induction findPppoeTag m length type p with
  | case1 p more here => exact Nat.le_of_eq (Option.some.inj found)
  | case2 p more other ih => exact Nat.le_trans (by omega) (ih found)
  | case3 => cases found

theorem addRelay_keeps {oldTagLen : Nat} : HeaderKept skb (skb.addRelay o tag oldTagLen).2 ∧
    ((skb.addRelay o tag oldTagLen).1 < 0 → (skb.addRelay o tag oldTagLen).2 = skb) := by
  obtain ⟨keeps, refused⟩ := @addPppoeTag_keeps o (skb.relayTag tag oldTagLen) skb
  rw [LinearSkb.addRelay]
  split
  next negative => exact ⟨keeps, fun _ => refused negative⟩
  next => exact ⟨keeps, fun negative => absurd negative (Int.lt_irrefl 0)⟩

theorem insertRelay_keeps : InsertKeeps skb (skb.insertRelay o stack) := by
  rw [LinearSkb.insertRelay]
  split
  next =>
    obtain ⟨keeps, refused⟩ := @addRelay_keeps o stack skb 0
    exact ⟨keeps, fun negative => Nat.le_of_eq (congrArg LinearSkb.len (refused negative))⟩
  next ptr found =>
    have behind : pppoeTag ≤ ptr := findPppoeTag_ge found
    dsimp only
    split
    · exact .refl skb _
    · obtain ⟨cut, less⟩ := @pullAndMerge_keeps skb ptr (tagHdrLen + (ntohs skb.data (ptr + 2)).toNat)
        (Nat.le_trans (by decide) behind)
      split
      · exact ⟨cut, fun _ => less⟩
      · obtain ⟨keeps, refused⟩ := @addRelay_keeps o _ (LinearSkb.subPppoeLen _ _) _
        refine ⟨cut.trans ((setPppoeLen_header _ _).trans keeps), fun negative => ?_⟩
        rw [refused negative]
        exact less

theorem insertPppoe_keeps :
    InsertKeeps skb ((insertPppoe o stack priv skb).1, (insertPppoe o stack priv skb).2.2) := by
  rw [insertPppoe]
  split
  · split
    · split
      · exact insertRelay_keeps
      · split <;> exact .refl skb _
    · exact .refl skb _
  · split <;> exact .refl skb _

end Pppoe

section Insert

variable {env : Nat25Env} {turns : Nat} {skb : LinearSkb} {r : Int × LinearSkb}

theorem insertArp_keeps : InsertKeeps skb (env.insertArp skb) := by
  rw [Nat25Env.insertArp]
  split
  · exact .refl skb _
  · exact ⟨.splice skb (by decide) _, fun _ => Nat.le_refl _⟩

/-- Without an option nothing is rewritten. -/
theorem updateNd_none {m m' : Mem} {data : Nat} {len : Int} {hwaddr : MacAddr}
    (run : updateNdLinkLayerAddr turns m data len hwaddr = some (m', none)) : m' = m := by
  rw [updateNdLinkLayerAddr] at run
  split at run
  · split at run
    · obtain ⟨found, -, same⟩ := Option.map_eq_some_iff.mp run
      cases found with
      | none => exact (Prod.mk.inj same).1.symm
      | some p => exact absurd (Prod.mk.inj same).2 (by simp)
    · exact (Prod.mk.inj (Option.some.inj run)).1.symm
  · exact (Prod.mk.inj (Option.some.inj run)).1.symm

theorem insertIpv6_header {o : ByteOrder} {k : InetChecksum o} {hwaddr : MacAddr} {found : Bool} {skb skb' : Skb}
    (inserted : insertIpv6 k turns skb hwaddr = some (skb', found)) : SameBelow ethHlen skb.data skb'.data := by
  rw [insertIpv6] at inserted
  split at inserted
  · obtain ⟨⟨m, option⟩, run, result⟩ := Option.map_eq_some_iff.mp inserted
    cases option with
    | none =>
        obtain rfl := updateNd_none run
        cases result
        exact fun _ _ => rfl
    | some p =>
        obtain ⟨behind, rfl⟩ := updateNd_behind run
        cases result
        intro q below
        have before : q < icmp6At := Nat.lt_trans below (by decide)
        rw [Skb.updateCksum, Skb.clearCksum]
        dsimp only
        rw [splice_below _ _ _ q (by omega), splice_below _ _ _ q (by omega), splice_below _ _ _ q (by omega)]
  · cases inserted
    exact fun _ _ => rfl

theorem insertIpv6Skb_keeps (inserted : env.insertIpv6Skb turns skb = some r) : InsertKeeps skb r := by
  rw [Nat25Env.insertIpv6Skb] at inserted
  split at inserted
  · obtain ⟨⟨skb', found⟩, rewritten, rfl⟩ := Option.map_eq_some_iff.mp inserted
    exact ⟨⟨insertIpv6_header rewritten, id⟩, fun negative => absurd negative (Int.lt_irrefl 0)⟩
  · cases inserted
    exact .refl skb _

theorem insert_keeps (inserted : env.insert turns skb = some r) : InsertKeeps skb r := by
  rw [Nat25Env.insert] at inserted
  split at inserted
  · cases inserted
    exact .refl skb _
  split at inserted
  · obtain rfl := Option.some.inj inserted
    exact insertArp_keeps
  split at inserted
  · obtain rfl := Option.some.inj inserted
    exact insertPppoe_keeps
  split at inserted
  · cases inserted
    exact .refl skb _
  split at inserted
  · exact insertIpv6Skb_keeps inserted
  · cases inserted
    exact .refl skb _

end Insert

/-- The function, as a check and an insertion. -/
def nat25 (env : Nat25Env) (turns : Nat) : Nat25 where
  check := LinearSkb.nat25Check
  insert := env.insert turns
  keeps := insert_keeps

end Vmac.Bridge
