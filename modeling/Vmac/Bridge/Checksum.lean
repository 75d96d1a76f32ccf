/-
# Vmac.Bridge.Checksum -- the checksums of what the bridge rewrites

`nat25_db_handle` computes the checksum of a neighbour discovery message anew, over as many bytes as the length of the
packet reads in the byte order of the host.  `dhcp_flag_bcast` adds the new flags to the checksum of a DHCP request, and
does not take the old ones out.

* `Icmp6Fits`, `DhcpFits`: the frames whose checksums stay valid.
* `checksums_kept_iff`: they do for these and no others.
* `solicitation_overread`: a neighbour solicitation whose checksum is computed over 8192 bytes.
-/
import Vmac.Bridge.NeighbourDiscovery
import Vmac.Theory.OnesSum

namespace Vmac.Bridge

open Theory.OnesSum Theory.Walk Security Ie Transmit

set_option autoImplicit false

/-- An integer of sixteen bits in memory, in the byte order of the host. -/
def host16 (o : ByteOrder) (m : Mem) (p : Nat) : UInt16 := UInt16.ofNat (o.word (m p) (m (p + 1)))

/-- The same in the byte order of the network. -/
def net16 (m : Mem) (p : Nat) : Nat := ByteOrder.big.word (m p) (m (p + 1))

/-- Four bytes in the byte order of the network. -/
def htonl (n : Nat) : List UInt8 :=
  [UInt8.ofNat (n / 2 ^ 24), UInt8.ofNat (n / 2 ^ 16), UInt8.ofNat (n / 2 ^ 8), UInt8.ofNat n]

/-! ## ICMPv6 -/

/-- The sum of the pseudo header of an upper-layer packet of `len` bytes. -/
def pseudoSum6 (o : ByteOrder) (saddr daddr : List UInt8) (len : Nat) (proto : UInt8) : Nat :=
  wordSum o saddr + wordSum o daddr + wordSum o (htonl len) + wordSum o (htonl proto.toNat)

/-- The two checksum functions of the kernel, and what they promise. -/
structure InetChecksum (o : ByteOrder) where
  csumPartial : List UInt8 → Nat → Nat
  csumIpv6Magic : List UInt8 → List UInt8 → Nat → UInt8 → Nat → UInt16
  /-- The words are added to the sum. -/
  partial_sum : ∀ buff sum, csumPartial buff sum % 65535 = (sum + wordSum o buff) % 65535
  /-- With what is returned, the pseudo header and the sum make all ones. -/
  magic_sum : ∀ saddr daddr len proto sum,
    ((csumIpv6Magic saddr daddr len proto sum).toNat + (pseudoSum6 o saddr daddr len proto + sum)) % 65535 = 0

namespace Skb

variable (skb : Skb)

/-- `payload_len`. -/
def payloadLen : Nat := net16 skb.data (ethHlen + 4)

/-- What `payload_len` reads without `ntohs`. -/
def payloadLenRead (o : ByteOrder) : Nat := (host16 o skb.data (ethHlen + 4)).toNat

def daddr : List UInt8 := bytesAt skb.data (ethHlen + 24) 16

/-- The sum of an ICMPv6 message of `len` bytes and its pseudo header. -/
def icmp6Sum (o : ByteOrder) (len : Nat) : Nat :=
  pseudoSum6 o skb.saddr skb.daddr len ipprotoIcmpv6 + wordSum o (bytesAt skb.data icmp6At len)

/-- `icmp6_cksum` is zero. -/
def clearCksum : Skb := { skb with data := splice skb.data (icmp6At + 2) [0, 0] }

/-- The checksum of the message, computed anew. -/
def updateCksum {o : ByteOrder} (k : InetChecksum o) : Skb :=
  let cleared := skb.clearCksum
  let len := skb.payloadLenRead o
  let cksum := k.csumIpv6Magic skb.saddr skb.daddr len ipprotoIcmpv6 (k.csumPartial (bytesAt cleared.data icmp6At len) 0)
  { skb with data := splice cleared.data (icmp6At + 2) (o.bytes cksum) }

/-- The bytes that it is computed over. -/
def cksumLooks (o : ByteOrder) : List Nat := (List.range (skb.payloadLenRead o)).map (icmp6At + ·)

/-- What a receiver asks of an ICMPv6 message. -/
def icmp6Valid (o : ByteOrder) : Prop := foldWhile (skb.icmp6Sum o skb.payloadLen) = 65535

/-- The packet is in the frame, and the header of the message in the packet. -/
def icmp6WellFormed : Prop := 8 ≤ skb.payloadLen ∧ icmp6At + skb.payloadLen ≤ skb.len.toNat

end Skb

/-- `nat25_db_handle` for `NAT25_INSERT` of an IPv6 packet, if its loop ends within `turns` rounds: the frame, and
whether an option was rewritten. -/
def insertIpv6 {o : ByteOrder} (k : InetChecksum o) (turns : Nat) (skb : Skb) (hwaddr : MacAddr) : Option (Skb × Bool) :=
  if skb.looksForOption then
    (updateNdLinkLayerAddr turns skb.data icmp6At skb.icmp6Len hwaddr).map fun r =>
      match r.2 with
      | some _ => (Skb.updateCksum { skb with data := r.1 } k, true)
      | none => ({ skb with data := r.1 }, false)
  else some (skb, false)

/-- A valid checksum is valid behind a rewritten option, and computed over bytes of the frame. -/
def Icmp6Kept {o : ByteOrder} (k : InetChecksum o) (skb : Skb) (hwaddr : MacAddr) : Prop :=
  skb.icmp6WellFormed → skb.icmp6Valid o → ∀ turns skb', insertIpv6 k turns skb hwaddr = some (skb', true) →
    skb'.icmp6Valid o ∧ ∀ a ∈ skb.cksumLooks o, a < skb.len.toNat

/-- With the rewritten option and no checksum, as many bytes as the length reads are in the frame, and have the sum of
the message. -/
def Icmp6Fits (o : ByteOrder) (skb : Skb) (hwaddr : MacAddr) : Prop :=
  skb.icmp6WellFormed → skb.icmp6Valid o → skb.looksForOption = true → ∀ turns m p,
    updateNdLinkLayerAddr turns skb.data icmp6At skb.icmp6Len hwaddr = some (m, some p) →
      icmp6At + skb.payloadLenRead o ≤ skb.len.toNat ∧
        (Skb.clearCksum { skb with data := m }).icmp6Sum o (skb.payloadLenRead o) % 65535 =
          (Skb.clearCksum { skb with data := m }).icmp6Sum o skb.payloadLen % 65535

section Icmp6

variable {o : ByteOrder} {skb : Skb} {m : Mem}

theorem host16_toNat (o : ByteOrder) (m : Mem) (p : Nat) : (host16 o m p).toNat = o.word (m p) (m (p + 1)) :=
  UInt16.toNat_ofNat_of_lt' (word_lt o _ _)

/-- What is written behind the header of the packet leaves it. -/
theorem header_same {p : Nat} (behind : icmp6At ≤ p) (bytes : List UInt8) (q : Nat) (before : q < icmp6At) :
    splice m p bytes q = m q := splice_below m p bytes q (by omega)

theorem icmp6Sum_congr {len : Nat} {skb' : Skb} (same : ∀ q < icmp6At, skb'.data q = skb.data q)
    (s : List UInt8) (stands : Stands skb'.data icmp6At s) (length : s.length = len) :
    skb'.icmp6Sum o len = pseudoSum6 o skb.saddr skb.daddr len ipprotoIcmpv6 + wordSum o s := by
  have bytes (start n : Nat) (inside : start + n ≤ icmp6At) : bytesAt skb'.data start n = bytesAt skb.data start n :=
    bytesAt_congr fun j below => same _ (by omega)
  have saddr : skb'.saddr = skb.saddr := bytes _ _ (by decide)
  have daddr : skb'.daddr = skb.daddr := bytes _ _ (by decide)
  rw [Stands, length] at stands
  rw [Skb.icmp6Sum, saddr, daddr, stands]

theorem length_same {skb' : Skb} (same : ∀ q < icmp6At, skb'.data q = skb.data q) :
    skb'.payloadLen = skb.payloadLen ∧ skb'.payloadLenRead o = skb.payloadLenRead o := by
  have high := same (ethHlen + 4) (by decide)
  have low := same (ethHlen + 4 + 1) (by decide)
  rw [Skb.payloadLen, Skb.payloadLen, Skb.payloadLenRead, Skb.payloadLenRead, net16, net16, host16, host16, high, low]
  exact ⟨rfl, rfl⟩

theorem pseudoSum6_pos (saddr daddr : List UInt8) (len : Nat) : 0 < pseudoSum6 o saddr daddr len ipprotoIcmpv6 := by
  have proto : 0 < wordSum o (htonl ipprotoIcmpv6.toNat) := by cases o <;> decide
  rw [pseudoSum6]
  omega

/-- The new checksum is valid exactly if the bytes that it is computed over have the sum of the message. -/
theorem updateCksum_valid (k : InetChecksum o) (header : 4 ≤ skb.payloadLen) : (skb.updateCksum k).icmp6Valid o ↔
    skb.clearCksum.icmp6Sum o (skb.payloadLenRead o) % 65535 = skb.clearCksum.icmp6Sum o skb.payloadLen % 65535 := by
  let x := bytesAt skb.data icmp6At 2
  let z := bytesAt skb.data (icmp6At + 4) (skb.payloadLen - 4)
  have place : icmp6At + x.length = icmp6At + 2 := by rw [length_bytesAt]
  have split : Stands skb.data icmp6At (x ++ (bytesAt skb.data (icmp6At + 2) 2 ++ z)) := by
    rw [Stands.append_iff, Stands.append_iff, place, length_bytesAt]
    exact ⟨stands_bytesAt .., stands_bytesAt .., stands_bytesAt ..⟩
  have length (y : List UInt8) (two : y.length = 2) : (x ++ (y ++ z)).length = skb.payloadLen := by
    rw [List.length_append, List.length_append, length_bytesAt, length_bytesAt, two]
    omega
  have sum (y : List UInt8) (two : y.length = 2) : wordSum o (x ++ (y ++ z)) = wordSum o x + (wordSum o y + wordSum o z) :=
    wordSum_at (by rw [length_bytesAt]) two
  have cleared : Stands skb.clearCksum.data icmp6At (x ++ ([0, 0] ++ z)) := by
    have written := split.splice [0, 0] (by rw [length_bytesAt]; rfl)
    rwa [place] at written
  have clearedSum : skb.clearCksum.icmp6Sum o skb.payloadLen = _ :=
    icmp6Sum_congr (fun q before => header_same (by decide) _ q before) _ cleared (length _ rfl)
  have readSum : skb.clearCksum.icmp6Sum o (skb.payloadLenRead o) = _ :=
    icmp6Sum_congr (fun q before => header_same (by decide) _ q before) _ (stands_bytesAt _ icmp6At _) (length_bytesAt ..)
  let cksum := k.csumIpv6Magic skb.saddr skb.daddr (skb.payloadLenRead o) ipprotoIcmpv6
    (k.csumPartial (bytesAt skb.clearCksum.data icmp6At (skb.payloadLenRead o)) 0)
  have written : Stands (skb.updateCksum k).data icmp6At (x ++ (o.bytes cksum ++ z)) := by
    have written := cleared.splice (o.bytes cksum) (length_bytes o cksum)
    rwa [place] at written
  have writtenSum : (skb.updateCksum k).icmp6Sum o skb.payloadLen = _ :=
    icmp6Sum_congr (fun q before => ((header_same (by decide) _ q before).trans (header_same (by decide) _ q before)))
      _ written (length _ (length_bytes o cksum))
  have payload : (skb.updateCksum k).payloadLen = skb.payloadLen := (length_same (o := o) fun q before =>
    (header_same (by decide) _ q before).trans (header_same (by decide) _ q before)).1
  have magic : (cksum.toNat + (pseudoSum6 o skb.saddr skb.daddr (skb.payloadLenRead o) ipprotoIcmpv6 +
      k.csumPartial (bytesAt skb.clearCksum.data icmp6At (skb.payloadLenRead o)) 0)) % 65535 = 0 := k.magic_sum ..
  have part := k.partial_sum (bytesAt skb.clearCksum.data icmp6At (skb.payloadLenRead o)) 0
  have zero : wordSum o [0, 0] = 0 := by cases o <;> rfl
  have positive := pseudoSum6_pos (o := o) skb.saddr skb.daddr skb.payloadLen
  rw [sum _ rfl, zero] at clearedSum
  rw [sum _ (length_bytes o cksum), wordSum_bytes] at writtenSum
  rw [Skb.icmp6Valid, payload, foldWhile_eq_iff (by omega), writtenSum, clearedSum, readSum]
  omega

/-- The address that a walk finds lies behind the header of its option. -/
theorem scan_ge {p q : Nat} {tag : UInt8} {len : Int} {good : Nat → Prop}
    (ends : (scanTlv m tag 1).Ends good (p, len) (some q)) : p + 2 ≤ q := by
  generalize at_ : (p, len) = s at ends
  generalize found : some q = r at ends
  induction ends generalizing p len with
  | @done s r here done =>
      subst at_ found
      simp only [scanTlv] at done
      split at done
      · split at done
        · cases done
          exact Nat.le_refl _
        · exact absurd done (by simp)
      · exact absurd done (by simp)
  | @again s s' r here next rest ih =>
      subst at_ found
      simp only [scanTlv] at next
      split at next
      · split at next
        · exact absurd next (by simp)
        · exact Nat.le_trans (by omega) (ih (Sum.inr.inj next) rfl)
      · exact absurd next (by simp)

/-- A rewritten option lies behind the header of the message. -/
theorem updateNd_behind {turns data p : Nat} {len : Int} {hwaddr : MacAddr}
    (run : updateNdLinkLayerAddr turns skb.data data len hwaddr = some (m, some p)) :
    data + 10 ≤ p ∧ m = splice skb.data p (List.ofFn hwaddr) := by
  rw [updateNdLinkLayerAddr] at run
  cases message : ndOptions (skb.data data) with
  | none =>
      simp only [message] at run
      exact absurd run (by simp)
  | some found =>
      obtain ⟨options, tag⟩ := found
      have eight : 8 ≤ options := by
        simp only [ndOptions] at message
        grind
      simp only [message] at run
      split at run
      · obtain ⟨r, scanned, same⟩ := Option.map_eq_some_iff.mp run
        cases same
        have low := scan_ge (Loop.ends_iff_run.mpr ⟨turns, scanned, fun _ _ => trivial⟩)
        exact ⟨by omega, rfl⟩
      · exact absurd run (by simp)

/-- An option is rewritten by this walk, and the checksum computed anew. -/
theorem insert_rewrites {turns : Nat} {k : InetChecksum o} {skb' : Skb} {hwaddr : MacAddr} :
    insertIpv6 k turns skb hwaddr = some (skb', true) ↔ skb.looksForOption = true ∧ ∃ m p,
      updateNdLinkLayerAddr turns skb.data icmp6At skb.icmp6Len hwaddr = some (m, some p) ∧
        skb' = Skb.updateCksum { skb with data := m } k := by
  rw [insertIpv6]
  by_cases looks : skb.looksForOption = true
  · rw [if_pos looks, and_iff_right looks]
    cases updateNdLinkLayerAddr turns skb.data icmp6At skb.icmp6Len hwaddr with
    | none => simp
    | some r =>
        obtain ⟨m, found⟩ := r
        cases found with
        | none => simp
        | some p => simp [eq_comm]
  · rw [if_neg looks]
    simp [looks]

theorem cksumLooks_inside (formed : skb.icmp6WellFormed) :
    (∀ a ∈ skb.cksumLooks o, a < skb.len.toNat) ↔ icmp6At + skb.payloadLenRead o ≤ skb.len.toNat := by
  obtain ⟨header, inside⟩ := formed
  rw [Skb.cksumLooks, List.forall_mem_map]
  simp only [List.mem_range]
  constructor
  · intro within
    by_contra beyond
    have last := within (skb.len.toNat - icmp6At) (by omega)
    omega
  · intro within j below
    omega

/-- The checksum of a rewritten message stays valid exactly if the message fits. -/
theorem icmp6Kept_iff (k : InetChecksum o) (skb : Skb) (hwaddr : MacAddr) :
    Icmp6Kept k skb hwaddr ↔ Icmp6Fits o skb hwaddr := by
  refine forall_congr' fun formed => forall_congr' fun _ => ?_
  have kept {turns p : Nat} {m : Mem}
      (run : updateNdLinkLayerAddr turns skb.data icmp6At skb.icmp6Len hwaddr = some (m, some p)) :
      (Skb.updateCksum { skb with data := m } k).icmp6Valid o ↔
        (Skb.clearCksum { skb with data := m }).icmp6Sum o (skb.payloadLenRead o) % 65535 =
          (Skb.clearCksum { skb with data := m }).icmp6Sum o skb.payloadLen % 65535 := by
    obtain ⟨behind, rfl⟩ := updateNd_behind run
    obtain ⟨payload, read⟩ : Skb.payloadLen { skb with data := splice skb.data p (List.ofFn hwaddr) } = skb.payloadLen ∧
        Skb.payloadLenRead { skb with data := splice skb.data p (List.ofFn hwaddr) } o = skb.payloadLenRead o :=
      length_same fun q before => header_same (by omega) _ q before
    have header := formed.1
    rw [updateCksum_valid k (by omega), payload, read]
  simp only [insert_rewrites, cksumLooks_inside formed]
  constructor
  · intro keeps looks turns m p run
    obtain ⟨valid, inside⟩ := keeps turns _ ⟨looks, m, p, run, rfl⟩
    exact ⟨inside, (kept run).mp valid⟩
  · rintro fits turns skb' ⟨looks, m, p, run, rfl⟩
    obtain ⟨inside, sums⟩ := fits looks turns m p run
    exact ⟨(kept run).mpr sums, inside⟩

end Icmp6

/-! ## DHCP -/

/-- `htons(BROADCAST_FLAG)`. -/
def broadcastFlag (o : ByteOrder) : UInt16 :=
  match o with
  | .little => 0x0080
  | .big => 0x8000

namespace Skb

variable (skb : Skb)

/-- Four times `ihl`. -/
def ipHeaderLen : Nat := (skb.data ethHlen).toNat % 16 * 4

def udph : Nat := ethHlen + skb.ipHeaderLen

/-- `flags` of the message. -/
def dhcpFlags : Nat := skb.udph + 8 + 10

/-- The frame is a DHCP request: IPv4, UDP, from the client's to the server's port, with the magic word. -/
def isDhcpRequest : Bool :=
  net16 skb.data 12 = 0x0800 && skb.data (ethHlen + 9) = 17 && net16 skb.data skb.udph = 68 &&
    net16 skb.data (skb.udph + 2) = 67 && bytesAt skb.data (skb.udph + 8 + 236) 4 = [0x63, 0x82, 0x53, 0x63]

/-- `check` of the datagram. -/
def udpCheck (o : ByteOrder) : UInt16 := host16 o skb.data (skb.udph + 6)

/-- The sum of the datagram and its pseudo header. -/
def udpSum (o : ByteOrder) : Nat :=
  wordSum o (bytesAt skb.data (ethHlen + 12) 4) + wordSum o (bytesAt skb.data (ethHlen + 16) 4) + wordSum o [0, 17] +
    wordSum o (bytesAt skb.data (skb.udph + 4) 2) + wordSum o (bytesAt skb.data skb.udph (net16 skb.data (skb.udph + 4)))

/-- What a receiver asks of a datagram with a checksum. -/
def udpValid (o : ByteOrder) : Prop := foldWhile (skb.udpSum o) = 65535

/-- The message is in the datagram, and that in the frame. -/
def dhcpWellFormed : Prop :=
  20 ≤ skb.ipHeaderLen ∧ 8 + 240 ≤ net16 skb.data (skb.udph + 4) ∧
    skb.udph + net16 skb.data (skb.udph + 4) ≤ skb.len.toNat

/-- `dhcp_flag_bcast` sets the flag. -/
def setsFlag (o : ByteOrder) (dhcpBcstDisable : Bool) : Bool :=
  !dhcpBcstDisable && skb.isDhcpRequest && host16 o skb.data skb.dhcpFlags &&& broadcastFlag o = 0

/-- `dhcp_flag_bcast`. -/
def dhcpFlagBcast (o : ByteOrder) (dhcpBcstDisable : Bool) : Skb :=
  if skb.setsFlag o dhcpBcstDisable then
    let flags := host16 o skb.data skb.dhcpFlags ||| broadcastFlag o
    let sum := foldWhile ((~~~skb.udpCheck o).toNat + flags.toNat)
    { skb with
      data := splice (splice skb.data skb.dhcpFlags (o.bytes flags)) (skb.udph + 6) (o.bytes (~~~UInt16.ofNat sum)) }
  else skb

end Skb

/-- A valid checksum is valid behind the new flag, and one that is not used is not. -/
def DhcpKept (o : ByteOrder) (dhcpBcstDisable : Bool) (skb : Skb) : Prop :=
  skb.dhcpWellFormed → skb.setsFlag o dhcpBcstDisable = true → skb.udpValid o ∨ skb.udpCheck o = 0 →
    (skb.dhcpFlagBcast o dhcpBcstDisable).udpValid o ∨
      (skb.udpCheck o = 0 ∧ (skb.dhcpFlagBcast o dhcpBcstDisable).udpCheck o = 0)

/-- With a checksum no flag is set before; without one the sum of the datagram is that of its flags, or all other flags
are set. -/
def DhcpFits (o : ByteOrder) (dhcpBcstDisable : Bool) (skb : Skb) : Prop :=
  skb.dhcpWellFormed → skb.setsFlag o dhcpBcstDisable = true →
    (skb.udpCheck o ≠ 0 → skb.udpValid o → host16 o skb.data skb.dhcpFlags = 0) ∧
      (skb.udpCheck o = 0 → skb.udpSum o % 65535 = (host16 o skb.data skb.dhcpFlags).toNat ∨
        host16 o skb.data skb.dhcpFlags = ~~~broadcastFlag o)

section Dhcp

variable {o : ByteOrder} {skb : Skb} {dhcpBcstDisable : Bool}

/-- The flag is added. -/
theorem or_broadcastFlag {flags : UInt16} (clear : flags &&& broadcastFlag o = 0) :
    (flags ||| broadcastFlag o).toNat = flags.toNat + (broadcastFlag o).toNat := by
  have bits : flags.toBitVec &&& (broadcastFlag o).toBitVec = 0#16 := congrArg UInt16.toBitVec clear
  have sum := BitVec.toNat_add_of_and_eq_zero bits
  rw [BitVec.add_eq_or_of_and_eq_zero _ _ bits] at sum
  exact sum

theorem wordSum_host16 (m : Mem) (p : Nat) : wordSum o (bytesAt m p 2) = (host16 o m p).toNat := by
  rw [host16_toNat]
  rfl

/-- The sum of the datagram and its pseudo header but the checksum and the flags. -/
def Skb.udpRest (skb : Skb) (o : ByteOrder) : Nat :=
  wordSum o (bytesAt skb.data (ethHlen + 12) 4) + wordSum o (bytesAt skb.data (ethHlen + 16) 4) + wordSum o [0, 17] +
    wordSum o (bytesAt skb.data (skb.udph + 4) 2) + wordSum o (bytesAt skb.data skb.udph 6) +
      wordSum o (bytesAt skb.data (skb.udph + 8) 10) +
        wordSum o (bytesAt skb.data (skb.udph + 20) (net16 skb.data (skb.udph + 4) - 20))

theorem udpRest_pos : 0 < skb.udpRest o := by
  have proto : 0 < wordSum o [0, 17] := by cases o <;> decide
  rw [Skb.udpRest]
  omega

/-- A datagram with another checksum and other flags. -/
theorem udpSum_eq (formed : skb.dhcpWellFormed) {skb' : Skb} {check flags : List UInt8}
    (same : ∀ q < skb.udph + 6, skb'.data q = skb.data q) (two : check.length = 2) (two' : flags.length = 2)
    (stands : Stands skb'.data skb.udph (bytesAt skb.data skb.udph 6 ++ (check ++ (bytesAt skb.data (skb.udph + 8) 10 ++
      (flags ++ bytesAt skb.data (skb.udph + 20) (net16 skb.data (skb.udph + 4) - 20)))))) :
    skb'.udpSum o = skb.udpRest o + wordSum o check + wordSum o flags := by
  obtain ⟨header, message, -⟩ := formed
  have start : skb'.udph = skb.udph := by rw [Skb.udph, Skb.udph, Skb.ipHeaderLen, Skb.ipHeaderLen, same _ (by
    rw [Skb.udph]
    omega)]
  have bytes (p n : Nat) (inside : p + n ≤ skb.udph + 6) : bytesAt skb'.data p n = bytesAt skb.data p n :=
    bytesAt_congr fun j below => same _ (by omega)
  have size : net16 skb'.data (skb.udph + 4) = net16 skb.data (skb.udph + 4) := by
    rw [net16, net16, same _ (by omega), same _ (by omega)]
  have place : ethHlen + 20 ≤ skb.udph := by
    rw [Skb.udph]
    omega
  have length : (bytesAt skb.data skb.udph 6 ++ (check ++ (bytesAt skb.data (skb.udph + 8) 10 ++
      (flags ++ bytesAt skb.data (skb.udph + 20) (net16 skb.data (skb.udph + 4) - 20))))).length =
        net16 skb.data (skb.udph + 4) := by
    simp only [List.length_append, length_bytesAt, two, two']
    omega
  rw [Stands, length] at stands
  rw [Skb.udpSum, start, size, stands, bytes _ _ (by omega), bytes _ _ (by omega), bytes _ _ (by omega),
    wordSum_at (by rw [length_bytesAt]) two, wordSum_at (by rw [length_bytesAt]) two', Skb.udpRest]
  omega

/-- The datagram as it is. -/
theorem udpSum_split (formed : skb.dhcpWellFormed) :
    skb.udpSum o = skb.udpRest o + (skb.udpCheck o).toNat + (host16 o skb.data skb.dhcpFlags).toNat := by
  rw [Skb.udpCheck, ← wordSum_host16, ← wordSum_host16]
  refine udpSum_eq formed (fun _ _ => rfl) (length_bytesAt ..) (length_bytesAt ..) ?_
  simp only [Stands.append_iff, length_bytesAt]
  exact ⟨stands_bytesAt .., stands_bytesAt .., stands_bytesAt .., stands_bytesAt .., stands_bytesAt ..⟩

/-- The datagram with a new checksum and new flags. -/
theorem udpSum_written (formed : skb.dhcpWellFormed) (check flags : UInt16) {skb' : Skb}
    (written : skb'.data = splice (splice skb.data skb.dhcpFlags (o.bytes flags)) (skb.udph + 6) (o.bytes check)) :
    skb'.udpSum o = skb.udpRest o + check.toNat + flags.toNat ∧ skb'.udpCheck o = check := by
  have same : ∀ q < skb.udph + 6, skb'.data q = skb.data q := by
    intro q before
    rw [written]
    exact (splice_below _ _ _ q before).trans (splice_below _ _ _ q (by rw [Skb.dhcpFlags]; omega))
  have stands : Stands skb.data skb.udph ((bytesAt skb.data skb.udph 6 ++ (bytesAt skb.data (skb.udph + 6) 2 ++
      bytesAt skb.data (skb.udph + 8) 10)) ++ (bytesAt skb.data (skb.udph + 18) 2 ++
        bytesAt skb.data (skb.udph + 20) (net16 skb.data (skb.udph + 4) - 20))) := by
    simp only [Stands.append_iff, List.length_append, length_bytesAt]
    exact ⟨⟨stands_bytesAt .., stands_bytesAt .., stands_bytesAt ..⟩, stands_bytesAt .., stands_bytesAt ..⟩
  have flagged := stands.splice (o.bytes flags) ((length_bytes o flags).trans (length_bytesAt ..).symm)
  rw [List.append_assoc, List.append_assoc] at flagged
  have summed := flagged.splice (o.bytes check) ((length_bytes o check).trans (length_bytesAt ..).symm)
  simp only [List.length_append, length_bytesAt] at summed
  have there : Stands skb'.data skb.udph _ := written ▸ summed
  refine ⟨?_, ?_⟩
  · rw [udpSum_eq formed same (length_bytes o check) (length_bytes o flags) there, wordSum_bytes, wordSum_bytes]
  · have start : skb'.udph = skb.udph := by
      obtain ⟨header, -, -⟩ := formed
      rw [Skb.udph, Skb.udph, Skb.ipHeaderLen, Skb.ipHeaderLen, same _ (by
        rw [Skb.udph]
        omega)]
    have field := there.right.left
    rw [length_bytesAt, Stands, length_bytes] at field
    apply UInt16.toNat_inj.mp
    rw [Skb.udpCheck, start, ← wordSum_host16, field, wordSum_bytes]

theorem word_not (check : UInt16) : (~~~check).toNat = 65535 - check.toNat := by
  rw [UInt16.toNat_not]
  rfl

/-- The checksum of a DHCP request stays valid, or zero, exactly if the request fits. -/
theorem dhcpKept_iff (o : ByteOrder) (dhcpBcstDisable : Bool) (skb : Skb) :
    DhcpKept o dhcpBcstDisable skb ↔ DhcpFits o dhcpBcstDisable skb := by
  refine forall_congr' fun formed => forall_congr' fun sets => ?_
  have clear : host16 o skb.data skb.dhcpFlags &&& broadcastFlag o = 0 := by
    rw [Skb.setsFlag, Bool.and_eq_true, decide_eq_true_iff] at sets
    exact sets.2
  let flags := host16 o skb.data skb.dhcpFlags
  let sum := foldWhile ((~~~skb.udpCheck o).toNat + (flags ||| broadcastFlag o).toNat)
  have written : (skb.dhcpFlagBcast o dhcpBcstDisable).data = splice (splice skb.data skb.dhcpFlags
      (o.bytes (flags ||| broadcastFlag o))) (skb.udph + 6) (o.bytes (~~~UInt16.ofNat sum)) := by
    rw [Skb.dhcpFlagBcast, if_pos sets]
  obtain ⟨total, check⟩ := udpSum_written formed _ _ written
  have before := udpSum_split (o := o) formed
  have rest := @udpRest_pos o skb
  have added : (flags ||| broadcastFlag o).toNat = flags.toNat + (broadcastFlag o).toNat := or_broadcastFlag clear
  have flag : 0 < (broadcastFlag o).toNat := by cases o <;> decide
  have bound := (flags ||| broadcastFlag o).toNat_lt
  obtain ⟨small, residue, zero⟩ := foldWhile_spec ((~~~skb.udpCheck o).toNat + (flags ||| broadcastFlag o).toNat)
  have short := (skb.udpCheck o).toNat_lt
  have complement : (~~~UInt16.ofNat sum).toNat = 65535 - sum := by
    rw [word_not, UInt16.toNat_ofNat_of_lt' small]
  have asIs : foldWhile (skb.udpSum o) = 65535 ↔ skb.udpSum o % 65535 = 0 := foldWhile_eq_iff (by omega)
  have after : foldWhile ((skb.dhcpFlagBcast o dhcpBcstDisable).udpSum o) = 65535 ↔
      (skb.dhcpFlagBcast o dhcpBcstDisable).udpSum o % 65535 = 0 := foldWhile_eq_iff (by omega)
  rw [Skb.udpValid, Skb.udpValid, asIs, after, check]
  simp only [← UInt16.toNat_inj, complement, word_not, ne_eq]
  rw [word_not] at residue zero
  rw [complement] at total
  have none_ : (0 : UInt16).toNat = 0 := rfl
  have shown : (host16 o skb.data skb.dhcpFlags).toNat = flags.toNat := rfl
  have summed : foldWhile (65535 - (skb.udpCheck o).toNat + (flags ||| broadcastFlag o).toNat) = sum := by
    rw [← word_not]
  omega

end Dhcp

/-! ## The theorem -/

/-- For every frame, in either byte order: a valid checksum of a message whose option is rewritten stays valid, computed
over bytes of the frame, exactly if the message fits; and that of a DHCP request whose flag is set stays valid, or
unused, exactly if the request fits. -/
theorem checksums_kept_iff {o : ByteOrder} (k : InetChecksum o) (skb : Skb) (hwaddr : MacAddr) (dhcpBcstDisable : Bool) :
    (Icmp6Kept k skb hwaddr ↔ Icmp6Fits o skb hwaddr) ∧
      (DhcpKept o dhcpBcstDisable skb ↔ DhcpFits o dhcpBcstDisable skb) :=
  ⟨icmp6Kept_iff k skb hwaddr, dhcpKept_iff o dhcpBcstDisable skb⟩

/-- The sums as they are. -/
def plainChecksum (o : ByteOrder) : InetChecksum o where
  csumPartial buff sum := sum + wordSum o buff
  csumIpv6Magic saddr daddr len proto sum := UInt16.ofNat (65535 - foldWhile (pseudoSum6 o saddr daddr len proto + sum))
  partial_sum _ _ := rfl
  magic_sum saddr daddr len proto sum := by
    obtain ⟨small, residue, -⟩ := foldWhile_spec (pseudoSum6 o saddr daddr len proto + sum)
    rw [UInt16.toNat_ofNat_of_lt' (show _ < 65536 by omega)]
    omega

/-- A neighbour solicitation from fe80::1 for fe80::2, with the source's address. -/
def solicitation : Skb where
  data := splice (splice (fun _ => 0) 18 ([0, 32, 58, 255, 0xfe, 0x80] ++ List.replicate 13 0 ++ [1, 0xfe, 0x80] ++
    List.replicate 13 0 ++ [2])) icmp6At ([135, 0, 0x76, 0x15, 0, 0, 0, 0, 0xfe, 0x80] ++ List.replicate 13 0 ++
      [2, 1, 1, 2, 2, 2, 2, 2, 3])
  len := 86

/-- On a little-endian host its checksum is computed over 8192 bytes. -/
theorem solicitation_overread : ¬Icmp6Kept (plainChecksum .little) solicitation fun _ => 2 := by
  intro kept
  have valid : solicitation.icmp6Valid .little := (foldWhile_eq_iff (by decide)).mpr (by decide)
  have formed : solicitation.icmp6WellFormed := ⟨by decide, by decide⟩
  have looks : solicitation.looksForOption = true := by decide
  have message : ndOptions (solicitation.data icmp6At) = some (24, 1) := by decide
  obtain ⟨walk, -⟩ := nd_walk (fun _ => 2) message (by decide) looks 1
  have found : (scanTlv solicitation.data 1 1).run 1 (icmp6At + 24, (solicitation.len.toNat : Int) - (icmp6At + 24 : Nat)) =
      some (some 80) := by decide
  rw [found, Option.map_some, Option.elim_some] at walk
  obtain ⟨-, inside⟩ := kept formed valid 1 _ (insert_rewrites.mpr ⟨looks, _, _, walk, rfl⟩)
  exact absurd ((cksumLooks_inside formed).mp inside) (by decide)

end Vmac.Bridge
