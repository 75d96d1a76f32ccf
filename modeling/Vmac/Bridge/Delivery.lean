/-
# Vmac.Bridge.Delivery -- where received frames go: rtw_br_ext.c

Behind the bridge all clients have the station's address.  `nat25_db_handle` with `NAT25_INSERT` learns which client has
which network address from the frames that are sent, and with `NAT25_LOOKUP` finds the client that a received frame is
for.

* `LinearSkb.insertedAddr`, `LinearSkb.lookedUpAddr`: the network address that a frame is learnt or looked up by.
* `delivers`: in every run a received frame gets the client that has used the address last as its destination, if that
  is not too long ago; else the destination is left, or made that of the bridge for an IPv4 packet without an entry.
-/
import Vmac.Bridge.ClientTx
import Vmac.Bridge.Database

namespace Vmac.Bridge

open Security Ie Transmit Theory.Run

set_option autoImplicit false

variable {w : Nat}

/-! ## The addresses of a frame -/

namespace LinearSkb

variable (skb : LinearSkb)

def dst : List UInt8 := bytesAt skb.data 0 6

def setDst (mac : List UInt8) : LinearSkb := { skb with data := splice skb.data 0 mac }

/-- The destination address of an IPv4 packet. -/
def ipDaddr : List UInt8 := bytesAt skb.data (ethHlen + 16) 4

/-- `ar_hln` and `ar_pln`. -/
def arHln : Nat := (skb.data (ethHlen + 4)).toNat
def arPln : Nat := (skb.data (ethHlen + 5)).toNat

/-- Where an ARP message has the hardware address of its target; the network address is behind it. -/
def arpTarget : Nat := ethHlen + arphdrSize + skb.arHln + skb.arPln

/-- The addresses of an IPv6 packet. -/
def ip6Saddr : List UInt8 := bytesAt skb.data (ethHlen + 8) 16
def ip6Daddr : List UInt8 := bytesAt skb.data (ethHlen + 24) 16

/-- The address that `NAT25_INSERT` learns; that of an ARP message is read behind the rewriting. -/
def insertedAddr (env : Nat25Env) : Option NetworkAddr :=
  if skb.protocol = ethPIp then
    if skb.malformedIp ∨ skb.ipSaddr = List.replicate 4 0 then none else some (ipv4NetworkAddr skb.ipSaddr)
  else if skb.protocol = ethPArp then
    if skb.unknownArp then none
    else some (ipv4NetworkAddr (bytesAt (env.insertArp skb).2.data (ethHlen + arphdrSize + skb.arHln) 4))
  else if skb.protocol = ethPPppDisc ∨ skb.protocol = ethPPppSes then
    if ntohs skb.data pppoeSid = 0 then none
    else some (pppoeNetworkAddr skb.dst (bytesAt skb.data pppoeSid 2))
  else if skb.protocol = ethPPae ∨ skb.protocol ∈ ethPCmedia then none
  else if skb.protocol = ethPIpv6 then
    if skb.toSkb.acceptsIpv6 ∧ skb.ip6Saddr ≠ List.replicate 16 0 then some (ipv6NetworkAddr skb.ip6Saddr) else none
  else none

/-- The address that `NAT25_LOOKUP` looks up. -/
def lookedUpAddr : Option NetworkAddr :=
  if skb.protocol = ethPIp then
    if skb.malformedIp then none else some (ipv4NetworkAddr skb.ipDaddr)
  else if skb.protocol = ethPArp then
    if skb.unknownArp then none else some (ipv4NetworkAddr (bytesAt skb.data (skb.arpTarget + skb.arHln) 4))
  else if skb.protocol = ethPPppDisc ∨ skb.protocol = ethPPppSes then
    if skb.data pppoeCode = padoCode ∨ skb.data pppoeCode = padsCode ∨ ntohs skb.data pppoeSid = 0 then none
    else some (pppoeNetworkAddr skb.src (bytesAt skb.data pppoeSid 2))
  else if skb.protocol = ethPPae ∨ skb.protocol ∈ ethPCmedia then none
  else if skb.protocol = ethPIpv6 then
    if skb.toSkb.acceptsIpv6 then some (ipv6NetworkAddr skb.ip6Daddr) else none
  else none

end LinearSkb

/-! ## nat25_db_handle, for NAT25_LOOKUP -/

/-- What a received frame depends on: `HZ`, the address of the bridge and what is kept for PPPoE. -/
structure LookupEnv where
  hz : Nat
  brMac : List UInt8
  pppoe : PppoeState

namespace Db

variable (env : LookupEnv) (s : Db w) (skb : LinearSkb)

/-- `__nat25_db_network_lookup_and_replace`, with the frame. -/
def lookupAndReplace (networkAddr : NetworkAddr) : Db w × Bool × LinearSkb :=
  let found := s.lookup env.hz networkAddr
  (found.1, found.2.1, found.2.2.elim skb skb.setDst)

def lookupIp : Int × Db w × LinearSkb :=
  if skb.malformedIp then (-1, s, skb)
  else
    let found := s.lookupAndReplace env skb (ipv4NetworkAddr skb.ipDaddr)
    (0, found.1,
      if found.2.1 then found.2.2
      else if skb.data (ethHlen + 19) = 0xff then skb.setDst (List.replicate 6 0xff)
      else skb.setDst env.brMac)

def lookupArp : Int × Db w × LinearSkb :=
  if skb.unknownArp then (-1, s, skb)
  else
    let found := s.lookupAndReplace env skb (ipv4NetworkAddr (bytesAt skb.data (skb.arpTarget + skb.arHln) 4))
    (0, found.1, { found.2.2 with data := splice found.2.2.data skb.arpTarget found.2.2.dst })

/-- An answer is not looked up in the table. -/
def lookupSession : Int × Db w × LinearSkb :=
  let found := s.lookupAndReplace env skb (pppoeNetworkAddr skb.src (bytesAt skb.data pppoeSid 2))
  let handled := lookupPppoe (fun _ => found.2.2) env.pppoe skb
  (handled.1, if skb.data pppoeCode = padoCode ∨ skb.data pppoeCode = padsCode ∨ ntohs skb.data pppoeSid = 0 then s
    else found.1, handled.2.2)

def lookupIpv6 : Int × Db w × LinearSkb :=
  if skb.toSkb.acceptsIpv6 then
    let found := s.lookupAndReplace env skb (ipv6NetworkAddr skb.ip6Daddr)
    (0, found.1, found.2.2)
  else (-1, s, skb)

/-- `nat25_db_handle` for `NAT25_LOOKUP`: what it returns, the table and the frame. -/
def handleLookup : Int × Db w × LinearSkb :=
  if skb.protocol = ethPIp then s.lookupIp env skb
  else if skb.protocol = ethPArp then s.lookupArp env skb
  else if skb.protocol = ethPPppDisc ∨ skb.protocol = ethPPppSes then s.lookupSession env skb
  else if skb.protocol = ethPPae ∨ skb.protocol ∈ ethPCmedia then (0, s, skb)
  else if skb.protocol = ethPIpv6 then s.lookupIpv6 env skb
  else (-1, s, skb)

end Db

/-! ## Traffic -/

/-- What the bridge does: a frame is sent, or received, `nat25_db_expire` is called, time passes. -/
inductive Traffic
  | transmit (malloc : Bool) (skb : LinearSkb)
  | receive (env : LookupEnv) (skb : LinearSkb)
  | expire
  | pass (n : Nat)

/-- `nat25_db_handle` and `nat25_db_expire`, as far as the table is concerned. -/
def Db.handle (nat25 : Nat25Env) (hz : Nat) (s : Db w) : Traffic → Db w
  | .transmit malloc skb => ((skb.insertedAddr nat25).map (s.insert malloc skb.src)).getD s
  | .receive env skb => (s.handleLookup { env with hz := hz } skb).2.1
  | .expire => s.expire hz
  | .pass n => s.pass n

/-- The address that is learnt or looked up. -/
def Traffic.event (nat25 : Nat25Env) : Traffic → Option DbEvent
  | .transmit malloc skb => (skb.insertedAddr nat25).map (DbEvent.insert malloc skb.src)
  | .receive _ skb => skb.lookedUpAddr.map DbEvent.lookup
  | .expire => some .expire
  | .pass n => some (.pass n)

section Frames

variable {env : LookupEnv} {s : Db w} {skb : LinearSkb} {own : NetworkAddr}

/-- A received frame looks up its address, and no other. -/
theorem handleLookup_db : (s.handleLookup env skb).2.1 =
    (skb.lookedUpAddr.map fun own => s.apply env.hz (.lookup own)).getD s := by
  rw [Db.handleLookup, LinearSkb.lookedUpAddr]
  split
  · rw [Db.lookupIp]
    split <;> rfl
  split
  · rw [Db.lookupArp]
    split <;> rfl
  split
  · rw [Db.lookupSession]
    split <;> rfl
  split
  · rfl
  split
  · rw [Db.lookupIpv6]
    split <;> rfl
  · rfl

theorem handle_eq (nat25 : Nat25Env) (hz : Nat) (s : Db w) (t : Traffic) :
    s.handle nat25 hz t = ((t.event nat25).map (s.apply hz)).getD s := by
  cases t with
  | transmit malloc skb =>
      rw [Db.handle, Traffic.event, Option.map_map]
      rfl
  | receive env skb =>
      rw [Db.handle, handleLookup_db, Traffic.event, Option.map_map]
      rfl
  | expire => rfl
  | pass n => rfl

/-- A run of traffic is one of the table. -/
theorem along_handle (nat25 : Nat25Env) (hz : Nat) (s : Db w) (traffic : List Traffic) :
    along (Db.handle nat25 hz) s traffic = along (Db.apply hz) s (traffic.filterMap (Traffic.event nat25)) := by
  induction traffic generalizing s with
  | nil => rfl
  | cons t rest ih =>
      rw [along_cons, handle_eq, ih]
      cases event : t.event nat25 with
      | none => simp [event]
      | some e => simp [event]

/-- The destination of a frame for whose address no client is found. -/
def LinearSkb.unknownDst (skb : LinearSkb) (brMac : List UInt8) (listed : Bool) : List UInt8 :=
  if skb.protocol = ethPIp ∧ listed = false then
    if skb.data (ethHlen + 19) = 0xff then List.replicate 6 0xff else brMac
  else skb.dst

@[simp] theorem dst_setDst {mac : List UInt8} (six : mac.length = 6) : (skb.setDst mac).dst = mac := by
  rw [LinearSkb.dst, LinearSkb.setDst, ← six]
  exact bytesAt_splice ..

/-- What is copied behind the header does not change the destination. -/
theorem dst_splice {p : Nat} (behind : 6 ≤ p) (bytes : List UInt8) :
    ({ skb with data := splice skb.data p bytes } : LinearSkb).dst = skb.dst :=
  bytesAt_of_below (splice_below skb.data p bytes) (by omega)

/-- The frame goes to the client of the entry, if it is of use. -/
theorem handleLookup_dst (looked : skb.lookedUpAddr = some own)
    (six : ∀ mac, (s.lookup env.hz own).2.2 = some mac → mac.length = 6) (bridge : env.brMac.length = 6) :
    (s.handleLookup env skb).1 = 0 ∧ (s.handleLookup env skb).2.2.dst =
      (s.lookup env.hz own).2.2.getD (skb.unknownDst env.brMac (s.lookup env.hz own).2.1) := by
  have replaced : ((s.lookup env.hz own).2.2.elim skb skb.setDst).dst = (s.lookup env.hz own).2.2.getD skb.dst := by
    cases found : (s.lookup env.hz own).2.2 with
    | none => rfl
    | some mac => exact dst_setDst (six mac found)
  have listed : (s.lookup env.hz own).2.1 = false → (s.lookup env.hz own).2.2 = none := by
    rw [Db.lookup]
    cases s.entry own with
    | none => intro _; rfl
    | some db => dsimp only; split <;> intro no <;> cases no
  rw [LinearSkb.lookedUpAddr] at looked
  rw [Db.handleLookup]
  by_cases ip : skb.protocol = ethPIp
  · rw [if_pos ip] at looked ⊢
    split at looked
    · cases looked
    · rename_i formed
      obtain rfl := Option.some.inj looked
      rw [Db.lookupIp, if_neg formed]
      refine ⟨rfl, ?_⟩
      rw [Db.lookupAndReplace]
      dsimp only
      by_cases there : (s.lookup env.hz (ipv4NetworkAddr skb.ipDaddr)).2.1 = true
      · have left : skb.unknownDst env.brMac true = skb.dst := if_neg (by simp)
        rw [if_pos there, there, left]
        exact replaced
      · have none_ := Bool.eq_false_iff.mpr there
        have unknown : skb.unknownDst env.brMac false =
            if skb.data (ethHlen + 19) = 0xff then List.replicate 6 0xff else env.brMac := if_pos ⟨ip, rfl⟩
        rw [if_neg there, none_, unknown, listed none_, Option.getD_none]
        split
        · exact dst_setDst rfl
        · exact dst_setDst bridge
  have left : skb.unknownDst env.brMac (s.lookup env.hz own).2.1 = skb.dst := if_neg fun here => ip here.1
  rw [if_neg ip] at looked
  rw [if_neg ip, left]
  split at looked
  · rename_i arp
    rw [if_pos arp]
    split at looked
    · cases looked
    · rename_i known
      obtain rfl := Option.some.inj looked
      rw [Db.lookupArp, if_neg known]
      refine ⟨rfl, ?_⟩
      rw [← replaced]
      exact dst_splice (by rw [LinearSkb.arpTarget, ethHlen]; omega) _
  rename_i arp
  rw [if_neg arp]
  split at looked
  · rename_i ppp
    rw [if_pos ppp]
    split at looked
    · cases looked
    · rename_i session_
      obtain rfl := Option.some.inj looked
      rw [not_or, not_or] at session_
      rw [Db.lookupSession, lookupPppoe, if_neg (not_or.mpr ⟨session_.1, session_.2.1⟩), if_pos session_.2.2]
      exact ⟨rfl, replaced⟩
  rename_i ppp
  rw [if_neg ppp]
  split at looked
  · cases looked
  rename_i other
  rw [if_neg other]
  split at looked
  · rename_i ipv6
    rw [if_pos ipv6]
    split at looked
    · rename_i accepts
      obtain rfl := Option.some.inj looked
      rw [Db.lookupIpv6, if_pos accepts]
      exact ⟨rfl, replaced⟩
    · cases looked
  · cases looked

end Frames

/-- A received frame goes to the client that has used its address last, if that is not too long ago. -/
theorem delivers (nat25 : Nat25Env) (jiffies : BitVec (w + 1)) (env : LookupEnv) (traffic : List Traffic)
    (short : Short w env.hz (traffic.filterMap (Traffic.event nat25)))
    (memory : ∀ malloc skb, Traffic.transmit malloc skb ∈ traffic → malloc = true) (bridge : env.brMac.length = 6)
    {skb : LinearSkb} {own : NetworkAddr} (looked : skb.lookedUpAddr = some own) :
    let s := along (Db.handle nat25 env.hz) (Db.zeroed jiffies) traffic
    (s.handleLookup env skb).1 = 0 ∧ (s.handleLookup env skb).2.2.dst =
      (recentClient env.hz own (traffic.filterMap (Traffic.event nat25))).getD
        (skb.unknownDst env.brMac (s.entry own).isSome) := by
  intro s
  have sent {e : DbEvent} (inside : e ∈ traffic.filterMap (Traffic.event nat25)) {malloc : Bool} {mac : List UInt8}
      {networkAddr : NetworkAddr} (insert : e = .insert malloc mac networkAddr) : malloc = true ∧ mac.length = 6 := by
    obtain ⟨t, member, event⟩ := List.mem_filterMap.mp inside
    subst insert
    cases t with
    | transmit malloc' skb =>
        obtain ⟨_, _, same⟩ := Option.map_eq_some_iff.mp event
        cases same
        exact ⟨memory _ _ member, length_bytesAt ..⟩
    | receive env skb =>
        obtain ⟨_, _, same⟩ := Option.map_eq_some_iff.mp event
        cases same
    | expire => cases event
    | pass n => cases event
  have run : s = along (Db.apply env.hz) (Db.zeroed jiffies) (traffic.filterMap (Traffic.event nat25)) :=
    along_handle ..
  have follows := follows_after jiffies short
  rw [← run] at follows
  have found := (follows.lookup (fun _ _ known => after_small short known) short.ageing own).2
  have recent := @answer_after env.hz (traffic.filterMap (Traffic.event nat25)) own fun e inside => by
    cases e with
    | insert malloc mac networkAddr => exact (sent inside rfl).1
    | _ => exact trivial
  have listed : (Client.after env.hz (traffic.filterMap (Traffic.event nat25)) own).isSome = (s.entry own).isSome := by
    rcases follows.at_ own with ⟨absent, unknown⟩ | ⟨db, c, there, known, -⟩
    · rw [absent, unknown]
      rfl
    · rw [there, known]
      rfl
  have handled := @handleLookup_dst w env s skb own looked (fun mac answer => ?_) bridge
  · rw [found, recent, listed] at handled
    exact handled
  · rw [found, recent] at answer
    obtain ⟨use, kept, rfl⟩ := Option.map_eq_some_iff.mp answer
    obtain ⟨malloc, inside⟩ := lastUse_mem (Option.filter_eq_some_iff.mp kept).1
    exact (sent inside rfl).2

/-- A frame with an IPv4 header, from one client to another. -/
def ipFrame (dst src saddr daddr : List UInt8) : LinearSkb :=
  let bytes := dst ++ src ++ [0x08, 0x00] ++ [0x45, 0, 0, 20, 0, 0, 0, 0, 64, 17, 0, 0] ++ saddr ++ daddr
  ⟨fun k => bytes.getD k 0, bytes.length, 64⟩

/-- A client sends from 10.0.0.5. -/
def clientSends : List Traffic :=
  [.transmit true (ipFrame (List.replicate 6 8) [2, 0, 0, 0, 0, 10] [10, 0, 0, 5] [10, 0, 0, 1]), .pass 10]

/-- The answer, to the address of the station. -/
def answered : LinearSkb := ipFrame (List.replicate 6 2) (List.replicate 6 8) [10, 0, 0, 1] [10, 0, 0, 5]

theorem delivers_client :
    ((along (Db.handle station 100) (Db.zeroed (0 : BitVec 64)) clientSends).handleLookup
      ⟨100, List.replicate 6 4, ⟨false, 0, []⟩⟩ answered).2.2.dst = [2, 0, 0, 0, 0, 10] := by
  have looked : answered.lookedUpAddr = some (ipv4NetworkAddr [10, 0, 0, 5]) := by decide
  have memory : ∀ malloc skb, Traffic.transmit malloc skb ∈ clientSends → malloc = true := by
    intro malloc skb inside
    simp only [clientSends, List.mem_cons, Traffic.transmit.injEq, reduceCtorEq, List.not_mem_nil, or_false] at inside
    exact inside.1
  exact (delivers station (0 : BitVec 64) ⟨100, List.replicate 6 4, ⟨false, 0, []⟩⟩ clientSends
    ⟨by decide, by decide, by decide⟩ memory rfl looked).2.trans (by decide)

end Vmac.Bridge
