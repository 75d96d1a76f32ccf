/-
# Vmac.Bridge.Pppoe -- the Relay-Session-Id tag of a discovery frame

`nat25_db_handle` puts a client's address into a tag of the request that it inserts, over the tag that the client had
put there, and takes it out of the answer.  `__nat25_add_pppoe_tag` reads the length of the tag in the byte order of the
host.

* `Carries`: the frame has this head, these tags and this trailer.
* `insertRelay_sent`, `lookupRelay_some`: the tag that the request goes out with, and what the answer comes in with.
* `Restorable`: the requests whose tag comes back; `HeadersInside`: the frames that a search of the tags stays in.
* `relay_round_trip_iff`: it does and stays for these and no others.
* `padi_refused`: a request with 128 bytes of room, for which 2052 are asked.
-/
import Vmac.Bridge.Checksum
import Vmac.Ie.Remove

namespace Vmac.Bridge

open Theory.OnesSum Security Ie

set_option autoImplicit false

/-! ## The functions -/

/-- A linear `sk_buff`: the bytes from `data` on, of which `len` are before the tail, and the room behind it. -/
structure LinearSkb where
  data : Mem
  len : Nat
  tailroom : Nat

def ntohs (m : Mem) (p : Nat) : UInt16 := host16 .big m p

def htons (w : UInt16) : List UInt8 := ByteOrder.big.bytes w

/-- Where `struct pppoe_hdr` has its code, session, length and tags. -/
def pppoeCode : Nat := ethHlen + 1
def pppoeSid : Nat := ethHlen + 2
def pppoeLength : Nat := ethHlen + 4
def pppoeTag : Nat := ethHlen + 6

/-- `PTT_RELAY_SID`. -/
def pttRelaySid : UInt16 := 0x0110

def magicCode : UInt16 := 0x8186

def tagHdrLen : Nat := 4

/-- `MAGIC_CODE_LEN + RTL_RELAY_TAG_LEN`. -/
def relayTagLen : Nat := 2 + 6

/-- `sizeof(tag_buf)`. -/
def tagBufSize : Nat := 40

def padiCode : UInt8 := 0x09
def padoCode : UInt8 := 0x07
def padrCode : UInt8 := 0x19
def padsCode : UInt8 := 0x65

/-- `__nat25_find_pppoe_tag`, from `cur_ptr` on. -/
def findPppoeTag (m : Mem) (length : Nat) (type : UInt16) (curPtr : Nat) : Option Nat :=
  if curPtr - pppoeTag < length then
    if ntohs m curPtr = type then some curPtr
    else findPppoeTag m length type (curPtr + tagHdrLen + (ntohs m (curPtr + 2)).toNat)
  else none
termination_by pppoeTag + length - curPtr
decreasing_by
  unfold tagHdrLen
  omega

/-- The bytes that it reads. -/
def findLooks (m : Mem) (length : Nat) (type : UInt16) (curPtr : Nat) : List Nat :=
  if curPtr - pppoeTag < length then
    [curPtr, curPtr + 1, curPtr + 2, curPtr + 3] ++
      if ntohs m curPtr = type then []
      else findLooks m length type (curPtr + tagHdrLen + (ntohs m (curPtr + 2)).toNat)
  else []
termination_by pppoeTag + length - curPtr
decreasing_by
  unfold tagHdrLen
  omega

namespace LinearSkb

variable (skb : LinearSkb)

def pppoeLen : UInt16 := ntohs skb.data pppoeLength

def setPppoeLen (w : UInt16) : LinearSkb := { skb with data := splice skb.data pppoeLength (htons w) }

/-- `ph->length = htons(ntohs(ph->length) - n)`. -/
def subPppoeLen (n : Nat) : LinearSkb := skb.setPppoeLen (skb.pppoeLen - UInt16.ofNat n)

def findRelay : Option Nat := findPppoeTag skb.data skb.pppoeLen.toNat pttRelaySid pppoeTag

/-- The source address. -/
def src : List UInt8 := bytesAt skb.data 6 6

/-- `skb_pull_and_merge`. -/
def pullAndMerge (src len : Nat) : Int × LinearSkb :=
  if skb.len < src + len ∨ skb.len < len then (-1, skb)
  else
    let tailLen := skb.len - (src + len)
    let data := if 0 < tailLen then memmove skb.data src (src + len) tailLen else skb.data
    (0, ⟨data, skb.len - len, skb.tailroom + len⟩)

/-- `__nat25_add_pppoe_tag`. -/
def addPppoeTag (o : ByteOrder) (tag : Mem) : Int × LinearSkb :=
  let dataLen := (host16 o tag 2).toNat + tagHdrLen
  if skb.tailroom < dataLen then (-1, skb)
  else
    let data := memmove skb.data (pppoeTag + dataLen) pppoeTag skb.pppoeLen.toNat
    let moved : LinearSkb := ⟨data, skb.len + dataLen, skb.tailroom - dataLen⟩
    let longer := moved.setPppoeLen (moved.pppoeLen + UInt16.ofNat dataLen)
    (dataLen, { longer with data := splice longer.data pppoeTag (bytesAt tag 0 dataLen) })

/-- `tag_buf` with the header of the new tag, the magic code and the client's address. -/
def relayTag (tagBuf : Mem) (oldTagLen : Nat) : Mem :=
  let tagLen := UInt16.ofNat (relayTagLen + oldTagLen)
  splice tagBuf 0 (htons pttRelaySid ++ (htons tagLen ++ (htons magicCode ++ skb.src)))

/-- The new tag is added. -/
def addRelay (o : ByteOrder) (tagBuf : Mem) (oldTagLen : Nat) : Int × LinearSkb :=
  let added := skb.addPppoeTag o (skb.relayTag tagBuf oldTagLen)
  if added.1 < 0 then (-1, added.2) else (0, added.2)

/-- `NAT25_INSERT` of a request, with `addPPPoETag` set; `tag_buf` lies on the stack. -/
def insertRelay (o : ByteOrder) (stack : Mem) : Int × LinearSkb :=
  match skb.findRelay with
  | none => skb.addRelay o stack 0
  | some pOldTag =>
    let oldTagLen := (ntohs skb.data (pOldTag + 2)).toNat
    if oldTagLen + tagHdrLen + relayTagLen > tagBufSize then (-1, skb)
    else
      let tagBuf := splice stack (tagHdrLen + relayTagLen) (bytesAt skb.data (pOldTag + tagHdrLen) oldTagLen)
      let merged := skb.pullAndMerge pOldTag (tagHdrLen + oldTagLen)
      if merged.1 < 0 then (-1, merged.2)
      else (merged.2.subPppoeLen (tagHdrLen + oldTagLen)).addRelay o tagBuf oldTagLen

/-- `NAT25_LOOKUP` of an answer, with `addPPPoETag` set. -/
def lookupRelay : Int × LinearSkb :=
  match skb.findRelay with
  | none => (-1, skb)
  | some ptr =>
    let tagLen := (ntohs skb.data (ptr + 2)).toNat
    if ntohs skb.data ptr ≠ pttRelaySid ∨ tagLen < relayTagLen then (-1, skb)
    else if ntohs skb.data (ptr + tagHdrLen) ≠ magicCode then (-1, skb)
    else
      let addressed : LinearSkb := { skb with data := splice skb.data 0 (bytesAt skb.data (ptr + tagHdrLen + 2) 6) }
      let offset := if relayTagLen < tagLen then tagHdrLen else 0
      let merged := addressed.pullAndMerge (ptr + offset) (tagHdrLen + relayTagLen - offset)
      if merged.1 < 0 then (-1, merged.2)
      else
        let shorter := merged.2.subPppoeLen (tagHdrLen + relayTagLen - offset)
        let data := splice shorter.data (ptr + 2) (htons (UInt16.ofNat (tagLen - relayTagLen)))
        (0, if 0 < offset then { shorter with data := data } else shorter)

end LinearSkb

/-- What the adapter keeps for discovery. -/
structure PppoeState where
  addPppoeTag : Bool
  connectionInProgress : Nat
  addr : List UInt8

/-- `WAIT_TIME_PPPOE`. -/
def waitTimePppoe : Nat := 5

/-- `nat25_db_handle` for `NAT25_INSERT` of a PPPoE frame, the table of sessions apart. -/
def insertPppoe (o : ByteOrder) (stack : Mem) (priv : PppoeState) (skb : LinearSkb) : Int × PppoeState × LinearSkb :=
  if ntohs skb.data pppoeSid = 0 then
    if skb.data pppoeCode = padiCode ∨ skb.data pppoeCode = padrCode then
      if priv.addPppoeTag then
        let inserted := skb.insertRelay o stack
        (inserted.1, priv, inserted.2)
      else if priv.connectionInProgress ≠ 0 ∧ skb.src ≠ priv.addr then (-2, priv, skb)
      else
        (0, ⟨priv.addPppoeTag, waitTimePppoe, if priv.connectionInProgress = 0 then skb.src else priv.addr⟩, skb)
    else (-1, priv, skb)
  else if ¬priv.addPppoeTag ∧ priv.connectionInProgress ≠ 0 ∧ skb.src = priv.addr then
    (0, { priv with connectionInProgress := 0 }, skb)
  else (0, priv, skb)

/-- `nat25_db_handle` for `NAT25_LOOKUP` of a PPPoE frame; a session is looked up in the table. -/
def lookupPppoe (lookupAndReplace : LinearSkb → LinearSkb) (priv : PppoeState) (skb : LinearSkb) :
    Int × PppoeState × LinearSkb :=
  if skb.data pppoeCode = padoCode ∨ skb.data pppoeCode = padsCode then
    if priv.addPppoeTag then
      let found := skb.lookupRelay
      (found.1, priv, found.2)
    else if priv.connectionInProgress = 0 then (-1, priv, skb)
    else
      (0, { priv with connectionInProgress := waitTimePppoe }, { skb with data := splice skb.data 0 priv.addr })
  else if ntohs skb.data pppoeSid ≠ 0 then (0, priv, lookupAndReplace skb)
  else (-1, priv, skb)

/-! ## Frames with tags -/

/-- A tag of a discovery frame. -/
structure Tag where
  type : UInt16
  data : List UInt8
  short : data.length < 65536

def Tag.bytes (t : Tag) : List UInt8 := htons t.type ++ (htons (UInt16.ofNat t.data.length) ++ t.data)

def tagBytes (ts : List Tag) : List UInt8 := ts.flatMap Tag.bytes

/-- The first Relay-Session-Id tag. -/
def relayOf (ts : List Tag) : Option Tag := ts.find? fun t => t.type = pttRelaySid

/-- The frame is this head up to the length, the length, the tags and what is behind them. -/
structure Carries (skb : LinearSkb) (head : List UInt8) (ts : List Tag) (trailer : List UInt8) : Prop where
  stands : Stands skb.data 0 (head ++ (htons (UInt16.ofNat (tagBytes ts).length) ++ (tagBytes ts ++ trailer)))
  headed : head.length = pppoeLength
  total : pppoeTag + (tagBytes ts ++ trailer).length = skb.len
  small : (tagBytes ts).length < 65536

/-- The client's address. -/
def clientOf (head : List UInt8) : List UInt8 := (head.drop 6).take 6

/-- A PADI or PADR. -/
def IsRequest (head : List UInt8) : Prop :=
  (head[pppoeCode]? = some padiCode ∨ head[pppoeCode]? = some padrCode) ∧ (head.drop pppoeSid).take 2 = [0, 0]

/-- A PADO or PADS. -/
def IsAnswer (head : List UInt8) : Prop := head[pppoeCode]? = some padoCode ∨ head[pppoeCode]? = some padsCode

/-- The data of the tag that was there, and the room that taking it out makes. -/
def oldData (ts : List Tag) : List UInt8 := (relayOf ts).elim [] (·.data)
def oldRoom (ts : List Tag) : Nat := (relayOf ts).elim 0 (·.bytes.length)

/-- Room for the new tag. -/
def EnoughRoom (skb : LinearSkb) (ts : List Tag) : Prop :=
  tagHdrLen + relayTagLen + (oldData ts).length ≤ skb.tailroom + oldRoom ts

/-- The request goes out with a Relay-Session-Id tag; an answer with this tag, among any others, comes in for the client
and with the tag that it had. -/
def RelayKept (o : ByteOrder) (lookupAndReplace : LinearSkb → LinearSkb) (stack : Mem) (priv : PppoeState)
    (skb : LinearSkb) (head : List UInt8) (ts : List Tag) : Prop :=
  ∃ sent relay, insertPppoe o stack priv skb = (0, priv, sent) ∧ relay.type = pttRelaySid ∧
    Stands sent.data pppoeTag relay.bytes ∧
    ∀ answer head' pre post trailer, Carries answer head' (pre ++ relay :: post) trailer → IsAnswer head' →
      relayOf pre = none →
      ∃ got, lookupPppoe lookupAndReplace priv answer = (0, priv, got) ∧
        Carries got (clientOf head ++ head'.drop 6) (pre ++ ((relayOf ts).toList ++ post)) trailer

/-- The room that the new tag asks for: its length as the host reads it. -/
def askedRoom (o : ByteOrder) (old : List UInt8) : Nat :=
  wordSum o (htons (UInt16.ofNat (relayTagLen + old.length))) + tagHdrLen

/-- The tag that was there has data, no more than `tag_buf` takes, and the frame has the room that is asked for. -/
def Restorable (o : ByteOrder) (skb : LinearSkb) (ts : List Tag) : Prop :=
  (∀ old, relayOf ts = some old →
      0 < old.data.length ∧ old.data.length + tagHdrLen + relayTagLen ≤ tagBufSize) ∧
    askedRoom o (oldData ts) ≤ skb.tailroom + oldRoom ts

/-- The search of the tags stays in the frame. -/
def SearchInside (skb : LinearSkb) : Prop :=
  ∀ a ∈ findLooks skb.data skb.pppoeLen.toNat pttRelaySid pppoeTag, a < skb.len

/-- Behind any other tags that end before the length does, there is a header in the frame. -/
def HeadersInside (skb : LinearSkb) : Prop :=
  ∀ ts, Stands skb.data pppoeTag (tagBytes ts) → relayOf ts = none → (tagBytes ts).length < skb.pppoeLen.toNat →
    pppoeTag + (tagBytes ts).length + tagHdrLen ≤ skb.len

section Reading

variable {o : ByteOrder} {m : Mem} {p : Nat} {w : UInt16} {s : List UInt8} {t : Tag} {ts ts' : List Tag}

@[simp] theorem length_htons (w : UInt16) : (htons w).length = 2 := rfl

theorem host16_of_stands (stands : Stands m p (htons w ++ s)) : (host16 o m p).toNat = wordSum o (htons w) := by
  have two : bytesAt m p 2 = htons w := stands.left
  rw [host16_toNat, ← two]
  rfl

theorem ntohs_of_stands (stands : Stands m p (htons w ++ s)) : ntohs m p = w := by
  have read : (host16 .big m p).toNat = _ := host16_of_stands stands
  rw [htons, wordSum_bytes] at read
  exact UInt16.toNat_inj.mp read

/-- What is read was written. -/
theorem stands_ntohs (m : Mem) (p : Nat) : Stands m p (htons (ntohs m p)) := by
  have high := (m p).toNat_lt
  have low := (m (p + 1)).toNat_lt
  have word : (ntohs m p).toNat = 256 * (m p).toNat + (m (p + 1)).toNat := host16_toNat .big m p
  show [m p, m (p + 1)] = [(ntohs m p >>> 8).toUInt8, (ntohs m p).toUInt8]
  simp only [List.cons.injEq, and_true, ← UInt8.toNat_inj, UInt16.toNat_toUInt8, UInt16.toNat_shiftRight, word]
  rw [show (8 : UInt16).toNat % 16 = 8 from rfl, Nat.shiftRight_eq_div_pow]
  omega

theorem Tag.length_bytes (t : Tag) : t.bytes.length = tagHdrLen + t.data.length := by
  simp only [Tag.bytes, List.length_append, length_htons, tagHdrLen]
  omega

@[simp] theorem tagBytes_nil : tagBytes [] = [] := rfl

@[simp] theorem tagBytes_cons : tagBytes (t :: ts) = t.bytes ++ tagBytes ts := List.flatMap_cons

@[simp] theorem tagBytes_append : tagBytes (ts ++ ts') = tagBytes ts ++ tagBytes ts' := List.flatMap_append

theorem relayOf_cons_none : relayOf (t :: ts) = none ↔ t.type ≠ pttRelaySid ∧ relayOf ts = none := by
  simp [relayOf]

theorem relayOf_split {old : Tag} (first : relayOf ts = some old) :
    ∃ pre post, ts = pre ++ old :: post ∧ relayOf pre = none ∧ old.type = pttRelaySid := by
  obtain ⟨type, pre, post, split, clean⟩ := List.find?_eq_some_iff_append.mp first
  refine ⟨pre, post, split, List.find?_eq_none.mpr fun t member => ?_, by simpa using type⟩
  simpa using clean t member

/-- The type of a tag, its length, and what is behind it. -/
theorem tag_at (stands : Stands m p (t.bytes ++ s)) :
    ntohs m p = t.type ∧ (ntohs m (p + 2)).toNat = t.data.length ∧
      Stands m (p + (tagHdrLen + t.data.length)) s := by
  have behind := stands.right
  rw [Tag.length_bytes] at behind
  rw [Tag.bytes, List.append_assoc, List.append_assoc] at stands
  refine ⟨ntohs_of_stands stands, ?_, behind⟩
  have length : ntohs m (p + 2) = _ := ntohs_of_stands stands.right
  rw [length, UInt16.toNat_ofNat_of_lt' t.short]

/-- The tag whose header is read. -/
def tagAt (m : Mem) (p : Nat) : Tag where
  type := ntohs m p
  data := bytesAt m (p + tagHdrLen) (ntohs m (p + 2)).toNat
  short := by
    rw [length_bytesAt]
    exact (ntohs m (p + 2)).toNat_lt

theorem tagAt_stands (m : Mem) (p : Nat) : Stands m p (tagAt m p).bytes := by
  have length : UInt16.ofNat (tagAt m p).data.length = ntohs m (p + 2) := by
    rw [tagAt, length_bytesAt, UInt16.ofNat_toNat]
  rw [Tag.bytes, length, Stands.append_iff, Stands.append_iff]
  exact ⟨stands_ntohs m p, stands_ntohs m (p + 2), stands_bytesAt m _ _⟩

end Reading

/-! ## The search -/

section Search

variable {m : Mem} {p length n : Nat} {s : List UInt8} {pre : List Tag}

theorem findPppoeTag_behind (beyond : pppoeTag + length ≤ p) : findPppoeTag m length pttRelaySid p = none := by
  rw [findPppoeTag, if_neg (by omega)]

/-- Tags of other types are passed. -/
theorem find_past (stands : Stands m p (tagBytes pre ++ s)) (clean : relayOf pre = none) (start : pppoeTag ≤ p)
    (inside : p + (tagBytes pre).length ≤ pppoeTag + length) :
    findPppoeTag m length pttRelaySid p = findPppoeTag m length pttRelaySid (p + (tagBytes pre).length) := by
  induction pre generalizing p with
  | nil => rfl
  | cons t pre ih =>
      rw [tagBytes_cons, List.append_assoc] at stands
      obtain ⟨other, clean⟩ := relayOf_cons_none.mp clean
      obtain ⟨type, len, behind⟩ := tag_at stands
      rw [tagBytes_cons, List.length_append, Tag.length_bytes] at inside
      have more : p - pppoeTag < length := by
        unfold tagHdrLen at inside
        omega
      rw [findPppoeTag, if_pos more, if_neg (by rw [type]; exact other), len, Nat.add_assoc,
        ih behind clean (by omega) (by omega), tagBytes_cons, List.length_append, Tag.length_bytes, Nat.add_assoc]

/-- The search from a place on, and the tags that stand there. -/
theorem looks_inside_iff (start : pppoeTag ≤ p) : (∀ a ∈ findLooks m length pttRelaySid p, a < n) ↔
    ∀ ts, Stands m p (tagBytes ts) → relayOf ts = none → p + (tagBytes ts).length < pppoeTag + length →
      p + (tagBytes ts).length + tagHdrLen ≤ n := by
  have four (q : Nat) : (∀ a ∈ [q, q + 1, q + 2, q + 3], a < n) ↔ q + tagHdrLen ≤ n := by
    simp only [List.mem_cons, List.not_mem_nil, or_false, forall_eq_or_imp, forall_eq, tagHdrLen]
    omega
  fun_induction findLooks m length pttRelaySid p with
  | case1 p more ih =>
      have first : p + (tagBytes []).length < pppoeTag + length := by
        rw [tagBytes_nil, List.length_nil]
        omega
      by_cases found : ntohs m p = pttRelaySid
      · rw [if_pos found, List.append_nil, four]
        constructor
        · intro header ts stands clean inside
          cases ts with
          | nil => exact header
          | cons t ts =>
              rw [tagBytes_cons] at stands
              exact absurd ((tag_at stands).1.symm.trans found) (relayOf_cons_none.mp clean).1
        · intro all
          exact all [] rfl rfl first
      · have behind : _ ↔ _ := ih (by omega)
        rw [if_neg found, List.forall_mem_append, four, behind]
        constructor
        · rintro ⟨header, rest⟩ ts stands clean inside
          cases ts with
          | nil => exact header
          | cons t ts =>
              rw [tagBytes_cons] at stands
              obtain ⟨-, len, behind⟩ := tag_at stands
              rw [tagBytes_cons, List.length_append, Tag.length_bytes] at inside ⊢
              have := rest ts (by rw [len, Nat.add_assoc]; exact behind) (relayOf_cons_none.mp clean).2 (by omega)
              omega
        · intro all
          refine ⟨all [] rfl rfl first, fun ts stands clean inside => ?_⟩
          have here := all (tagAt m p :: ts)
          rw [tagBytes_cons, List.length_append, Tag.length_bytes, Stands.append_iff, Tag.length_bytes] at here
          have data : (tagAt m p).data.length = (ntohs m (p + 2)).toNat := length_bytesAt ..
          rw [data, ← Nat.add_assoc] at here
          have := here ⟨tagAt_stands m p, stands⟩ (relayOf_cons_none.mpr ⟨found, clean⟩) (by omega)
          omega
  | case2 p less =>
      constructor
      · intro _ ts _ _ inside
        omega
      · intro _ a member
        exact absurd member List.not_mem_nil

/-- The search stays in the frame exactly if the headers are in it. -/
theorem searchInside_iff (skb : LinearSkb) : SearchInside skb ↔ HeadersInside skb := by
  rw [SearchInside, looks_inside_iff (Nat.le_refl _)]
  simp only [Nat.add_lt_add_iff_left]
  rfl

end Search

/-! ## Insertion -/

section Frame

variable {o : ByteOrder} {skb : LinearSkb} {m stack : Mem} {p d : Nat} {v w : UInt16}
  {front done gap after head rest tags trailer : List UInt8} {ts : List Tag}

theorem stands_behind (stands : Stands m 0 (front ++ rest)) (place : front.length = p) : Stands m p rest := by
  have there := stands.right
  rwa [Nat.zero_add, place] at there

/-- What is pulled out closes up. -/
theorem pullAndMerge_stands (stands : Stands skb.data 0 (done ++ (gap ++ after)))
    (total : (done ++ (gap ++ after)).length = skb.len) :
    ∃ cut, skb.pullAndMerge done.length gap.length = (0, cut) ∧ cut.len = skb.len - gap.length ∧
      cut.tailroom = skb.tailroom + gap.length ∧ Stands cut.data 0 (done ++ after) := by
  simp only [List.length_append] at total
  have tail : skb.len - (done.length + gap.length) = after.length := by omega
  have fits : ¬(skb.len < done.length + gap.length ∨ skb.len < gap.length) := by omega
  refine ⟨_, by rw [LinearSkb.pullAndMerge, if_neg fits], rfl, rfl, ?_⟩
  rw [tail]
  split
  · rw [← List.append_nil after] at stands
    have moved := memmove_stands stands
    rw [← List.append_assoc] at moved
    exact moved.left
  · have none_ : after = [] := List.eq_nil_of_length_eq_zero (by omega)
    subst none_
    rw [← List.append_assoc] at stands
    rw [List.append_nil]
    exact stands.left.left

theorem pppoeLen_of_stands (stands : Stands skb.data 0 (head ++ (htons v ++ rest)))
    (headed : head.length = pppoeLength) : skb.pppoeLen = v :=
  ntohs_of_stands (stands_behind stands headed)

theorem setPppoeLen_stands (stands : Stands skb.data 0 (head ++ (htons v ++ rest)))
    (headed : head.length = pppoeLength) (w : UInt16) :
    Stands (skb.setPppoeLen w).data 0 (head ++ (htons w ++ rest)) := by
  have written := stands.splice (htons w) rfl
  rwa [Nat.zero_add, headed] at written

/-- The same among the tags, with the length that is left. -/
theorem pull_tags {n : Nat} (stands : Stands skb.data 0 (head ++ (htons (UInt16.ofNat n) ++ (done ++ (gap ++ after)))))
    (headed : head.length = pppoeLength) (total : pppoeTag + (done ++ (gap ++ after)).length = skb.len)
    (inside : gap.length ≤ n) :
    ∃ cut, skb.pullAndMerge (pppoeTag + done.length) gap.length = (0, cut) ∧ cut.len = skb.len - gap.length ∧
      cut.tailroom = skb.tailroom + gap.length ∧
      Stands (cut.subPppoeLen gap.length).data 0
        (head ++ (htons (UInt16.ofNat (n - gap.length)) ++ (done ++ after))) := by
  have place : (head ++ (htons (UInt16.ofNat n) ++ done)).length = pppoeTag + done.length := by
    rw [List.length_append, List.length_append, headed, length_htons, ← Nat.add_assoc]
    rfl
  have split : head ++ (htons (UInt16.ofNat n) ++ (done ++ (gap ++ after))) =
      (head ++ (htons (UInt16.ofNat n) ++ done)) ++ (gap ++ after) := by
    simp only [List.append_assoc]
  rw [split] at stands
  obtain ⟨cut, pulled, len, tailroom, there⟩ := pullAndMerge_stands stands (by
    rw [List.length_append, place, ← total, @List.length_append _ done, Nat.add_assoc])
  rw [place] at pulled
  rw [List.append_assoc, List.append_assoc] at there
  refine ⟨cut, pulled, len, tailroom, ?_⟩
  rw [LinearSkb.subPppoeLen, pppoeLen_of_stands there headed, ← UInt16.ofNat_sub inside]
  exact setPppoeLen_stands there headed _

/-- The length of a tag is overwritten. -/
theorem setTagLen_stands {type : UInt16}
    (stands : Stands m 0 (head ++ (htons v ++ ((done ++ (htons type ++ htons w)) ++ rest))))
    (headed : head.length = pppoeLength) (w' : UInt16) :
    Stands (splice m (pppoeTag + done.length + 2) (htons w')) 0
      (head ++ (htons v ++ (done ++ (htons type ++ (htons w' ++ rest))))) := by
  have front : (head ++ (htons v ++ (done ++ htons type))).length = pppoeTag + done.length + 2 := by
    rw [List.length_append, headed, List.length_append, List.length_append, length_htons, length_htons]
    unfold pppoeLength pppoeTag
    omega
  have parts : head ++ (htons v ++ ((done ++ (htons type ++ htons w)) ++ rest)) =
      (head ++ (htons v ++ (done ++ htons type))) ++ (htons w ++ rest) := by
    simp only [List.append_assoc]
  rw [parts] at stands
  have written := stands.splice (htons w') rfl
  rw [front, Nat.zero_add] at written
  simpa only [List.append_assoc] using written

/-- A tag is put before the others. -/
theorem addPppoeTag_stands {tag : Mem} (stands : Stands skb.data 0 (head ++ (htons v ++ (tags ++ trailer))))
    (headed : head.length = pppoeLength) (length : tags.length = v.toNat)
    (dataLen : (host16 o tag 2).toNat + tagHdrLen = d) (room : d ≤ skb.tailroom) :
    ∃ sent, skb.addPppoeTag o tag = ((d : Int), sent) ∧
      Stands sent.data 0 (head ++ (htons (v + UInt16.ofNat d) ++ (bytesAt tag 0 d ++ tags))) := by
  have fits : ¬skb.tailroom < d := Nat.not_lt.mpr room
  refine ⟨_, by rw [LinearSkb.addPppoeTag, dataLen, if_neg fits], ?_⟩
  have front : (head ++ htons v).length = pppoeTag := by rw [List.length_append, headed, length_htons]; rfl
  have opening : Stands skb.data 0 (head ++ htons v) := by
    rw [← List.append_assoc] at stands
    exact stands.left
  have moved_ : bytesAt skb.data pppoeTag v.toNat = tags := by
    rw [← List.append_assoc] at stands
    have there := (stands_behind stands front).left
    rwa [Stands, length] at there
  -- the bytes up to where the tags are moved to, and as many as they are
  have before : Stands skb.data 0 ((head ++ htons v) ++
      (bytesAt skb.data pppoeTag d ++ (bytesAt skb.data (pppoeTag + d) v.toNat ++ []))) := by
    refine Stands.append_iff.mpr ⟨opening, ?_⟩
    rw [List.append_nil, Nat.zero_add, front, Stands.append_iff, length_bytesAt]
    exact ⟨stands_bytesAt _ _ _, stands_bytesAt _ _ _⟩
  rw [← List.append_assoc] at before
  have moved := before.splice tags (by rw [length_bytesAt, length])
  rw [List.length_append, front, length_bytesAt, Nat.zero_add, List.append_nil, List.append_assoc, List.append_assoc]
    at moved
  have longer : Stands (LinearSkb.setPppoeLen ⟨splice skb.data (pppoeTag + d) tags, skb.len + d, skb.tailroom - d⟩
      (v + UInt16.ofNat d)).data 0 _ := setPppoeLen_stands moved headed _
  rw [← List.append_assoc] at longer
  have put := longer.splice (bytesAt tag 0 d) (by rw [length_bytesAt, length_bytesAt])
  rw [List.length_append, headed, length_htons, Nat.zero_add, List.append_assoc] at put
  have kept : LinearSkb.pppoeLen ⟨splice skb.data (pppoeTag + d) tags, skb.len + d, skb.tailroom - d⟩ = v :=
    pppoeLen_of_stands moved headed
  show Stands (splice (LinearSkb.setPppoeLen _ (LinearSkb.pppoeLen _ + _)).data _ _) 0 _
  rw [pppoeLen_of_stands stands headed, memmove, moved_, kept]
  exact put

theorem bytesAt_head {k n : Nat} (stands : Stands m 0 (head ++ rest)) (inside : k + n ≤ head.length) :
    bytesAt m k n = (head.drop k).take n := by
  have there := stands.left
  rw [← List.take_append_drop k head] at there
  have behind : Stands m k (head.drop k) := stands_behind there (List.length_take_of_le (by omega))
  exact behind.bytesAt_prefix n (by rw [List.length_drop]; omega)

theorem byte_of_head {k : Nat} {b : UInt8} (stands : Stands m 0 (head ++ rest)) (at_ : head[k]? = some b) :
    m k = b := by
  obtain ⟨inside, rfl⟩ := List.getElem?_eq_some_iff.mp at_
  have byte := stands.left.byte inside
  rwa [Nat.zero_add] at byte

theorem src_of_stands (stands : Stands skb.data 0 (head ++ rest)) (headed : head.length = pppoeLength) :
    skb.src = clientOf head :=
  bytesAt_head stands (by rw [headed]; decide)

theorem length_clientOf (headed : head.length = pppoeLength) : (clientOf head).length = 6 :=
  List.length_take_of_le (by rw [List.length_drop, headed]; decide)

end Frame

section Insert

variable {o : ByteOrder} {skb : LinearSkb} {stack tagBuf : Mem} {head old trailer : List UInt8} {t : Tag}
  {pre post ts : List Tag}

namespace Carries

theorem length (carried : Carries skb head ts trailer) : skb.pppoeLen.toNat = (tagBytes ts).length := by
  rw [pppoeLen_of_stands carried.stands carried.headed, UInt16.toNat_ofNat_of_lt' carried.small]

theorem tags (carried : Carries skb head ts trailer) : Stands skb.data pppoeTag (tagBytes ts ++ trailer) := by
  have stands := carried.stands
  rw [← List.append_assoc] at stands
  exact stands_behind stands (by rw [List.length_append, carried.headed, length_htons]; rfl)

theorem findRelay_none (carried : Carries skb head ts trailer) (none_ : relayOf ts = none) : skb.findRelay = none := by
  have length := carried.length
  rw [LinearSkb.findRelay, length, find_past carried.tags none_ (Nat.le_refl _) (Nat.le_refl _)]
  exact findPppoeTag_behind (Nat.le_refl _)

theorem at_tag (carried : Carries skb head (pre ++ t :: post) trailer) :
    Stands skb.data pppoeTag (tagBytes pre ++ (t.bytes ++ (tagBytes post ++ trailer))) := by
  have stands := carried.tags
  rwa [tagBytes_append, tagBytes_cons, List.append_assoc, List.append_assoc] at stands

theorem findRelay_some (carried : Carries skb head (pre ++ t :: post) trailer) (clean : relayOf pre = none)
    (type : t.type = pttRelaySid) : skb.findRelay = some (pppoeTag + (tagBytes pre).length) := by
  have length := carried.length
  have stands := carried.at_tag
  simp only [tagBytes_append, tagBytes_cons, List.length_append, Tag.length_bytes, tagHdrLen] at length
  have more : pppoeTag + (tagBytes pre).length - pppoeTag < skb.pppoeLen.toNat := by omega
  rw [LinearSkb.findRelay, find_past stands clean (Nat.le_refl _) (by omega), findPppoeTag, if_pos more,
    if_pos ((tag_at stands.right).1.trans type)]

/-- Without one of its tags. -/
theorem remove (carried : Carries skb head (pre ++ t :: post) trailer) :
    ∃ cut, skb.pullAndMerge (pppoeTag + (tagBytes pre).length) t.bytes.length = (0, cut) ∧
      cut.tailroom = skb.tailroom + t.bytes.length ∧
      Carries (cut.subPppoeLen t.bytes.length) head (pre ++ post) trailer := by
  obtain ⟨stands, headed, total, small⟩ := carried
  rw [tagBytes_append, tagBytes_cons] at stands total small
  rw [List.append_assoc, List.append_assoc] at total
  rw [List.append_assoc (tagBytes pre), List.append_assoc t.bytes] at stands
  obtain ⟨cut, pulled, len, tailroom, there⟩ := pull_tags stands headed total (by
    rw [List.length_append, List.length_append]
    omega)
  simp only [List.length_append] at total small there
  refine ⟨cut, pulled, tailroom, ?_, headed, ?_, ?_⟩
  · rw [tagBytes_append, List.append_assoc, List.length_append]
    have rest : (tagBytes pre).length + (t.bytes.length + (tagBytes post).length) - t.bytes.length =
        (tagBytes pre).length + (tagBytes post).length := by omega
    rwa [rest] at there
  · show _ = cut.len
    rw [len, tagBytes_append]
    simp only [List.length_append]
    omega
  · rw [tagBytes_append, List.length_append]
    omega

end Carries

/-- It is no less than the tag takes. -/
theorem relay_le_askedRoom (short : old.length + tagHdrLen + relayTagLen ≤ tagBufSize) :
    tagHdrLen + relayTagLen + old.length ≤ askedRoom o old := by
  unfold tagBufSize tagHdrLen relayTagLen at short
  have small : (UInt16.ofNat (relayTagLen + old.length)).toNat = relayTagLen + old.length :=
    UInt16.toNat_ofNat_of_lt' (by unfold relayTagLen; change _ < 65536; omega)
  have big : wordSum .big (htons (UInt16.ofNat (relayTagLen + old.length))) = relayTagLen + old.length := by
    rw [htons, wordSum_bytes, small]
  cases o with
  | big =>
      rw [askedRoom, big]
      omega
  | little =>
      have swapped (w : UInt16) : w.toNat < 256 → w.toNat ≤ wordSum .little (htons w) := by
        intro low
        simp only [htons, ByteOrder.bytes, wordSum, ByteOrder.word, UInt16.toNat_toUInt8]
        omega
      have := swapped _ (by rw [small]; unfold relayTagLen; omega)
      rw [small] at this
      rw [askedRoom]
      omega

/-- What `tag_buf` holds. -/
theorem relayTag_stands (client : skb.src.length = 6) (nested : Stands tagBuf (tagHdrLen + relayTagLen) old) :
    Stands (skb.relayTag tagBuf old.length) 0 (htons pttRelaySid ++
      (htons (UInt16.ofNat (relayTagLen + old.length)) ++ (htons magicCode ++ (skb.src ++ old)))) := by
  have split : htons pttRelaySid ++ (htons (UInt16.ofNat (relayTagLen + old.length)) ++
      (htons magicCode ++ (skb.src ++ old))) = (htons pttRelaySid ++
        (htons (UInt16.ofNat (relayTagLen + old.length)) ++ (htons magicCode ++ skb.src))) ++ old := by
    simp only [List.append_assoc]
  have length : (htons pttRelaySid ++ (htons (UInt16.ofNat (relayTagLen + old.length)) ++
      (htons magicCode ++ skb.src))).length = tagHdrLen + relayTagLen := by
    simp only [List.length_append, length_htons, client, tagHdrLen, relayTagLen]
  rw [split, Stands.append_iff, length, Nat.zero_add]
  refine ⟨bytesAt_splice .., ?_⟩
  rw [Stands, LinearSkb.relayTag, bytesAt_splice_behind _ _ _ _ _ (by rw [length, Nat.zero_add])]
  exact nested

/-- What is copied from a buffer begins as the buffer does. -/
theorem stands_of_copy {m : Mem} {p d : Nat} {s : List UInt8} (source : Stands tagBuf 0 s)
    (copied : Stands m p (bytesAt tagBuf 0 d)) (whole : s.length ≤ d) : Stands m p s := by
  rw [← Nat.add_sub_cancel' whole, bytesAt_front, show bytesAt tagBuf 0 s.length = s from source] at copied
  exact copied.left

/-- The request with the new tag before the others, if there is the room that is asked for. -/
theorem addRelay_stands (carried : Carries skb head ts trailer) (nested : Stands tagBuf (tagHdrLen + relayTagLen) old)
    (short : old.length + tagHdrLen + relayTagLen ≤ tagBufSize) :
    if askedRoom o old ≤ skb.tailroom then
      ∃ (sent : LinearSkb) (relay : Tag), skb.addRelay o tagBuf old.length = (0, sent) ∧
        relay.type = pttRelaySid ∧ relay.data = htons magicCode ++ (clientOf head ++ old) ∧
        Stands sent.data pppoeTag relay.bytes
    else skb.addRelay o tagBuf old.length = (-1, skb) := by
  have src := src_of_stands carried.stands carried.headed
  have client : skb.src.length = 6 := by
    rw [src]
    exact length_clientOf carried.headed
  have buffer := relayTag_stands client nested
  rw [src] at buffer
  have read : (host16 o (skb.relayTag tagBuf old.length) 2).toNat + tagHdrLen = askedRoom o old := by
    have length : (host16 o (skb.relayTag tagBuf old.length) 2).toNat = _ := host16_of_stands (stands_behind buffer rfl)
    rw [askedRoom, length]
  split
  next room =>
    obtain ⟨sent, added, stands⟩ := addPppoeTag_stands carried.stands carried.headed (by
      rw [UInt16.toNat_ofNat_of_lt' carried.small]) read room
    have length : (htons magicCode ++ (clientOf head ++ old)).length = relayTagLen + old.length := by
      rw [List.length_append, List.length_append, length_clientOf carried.headed, ← Nat.add_assoc]
      rfl
    have less : (htons magicCode ++ (clientOf head ++ old)).length < 65536 := by
      rw [length]
      unfold tagBufSize tagHdrLen relayTagLen at *
      omega
    refine ⟨sent, ⟨pttRelaySid, _, less⟩, ?_, rfl, rfl, ?_⟩
    · rw [LinearSkb.addRelay, added, if_neg (by simp)]
    · rw [← List.append_assoc] at stands
      have there := (stands_behind (p := pppoeTag) stands (by rw [List.length_append, carried.headed]; rfl)).left
      refine stands_of_copy ?_ there ?_
      · rw [Tag.bytes, length]
        exact buffer
      · rw [Tag.length_bytes, length, ← Nat.add_assoc]
        exact relay_le_askedRoom short
  next none_ =>
    have refused : skb.addPppoeTag o (skb.relayTag tagBuf old.length) = (-1, skb) := by
      rw [LinearSkb.addPppoeTag, read, if_pos (Nat.lt_of_not_le none_)]
    rw [LinearSkb.addRelay, refused]
    rfl

/-- The tag that is there is taken out, and its data are nested. -/
theorem insertRelay_add (carried : Carries skb head ts trailer)
    (short : (oldData ts).length + tagHdrLen + relayTagLen ≤ tagBufSize) :
    ∃ cut tagBuf others, skb.insertRelay o stack = cut.addRelay o tagBuf (oldData ts).length ∧
      cut.tailroom = skb.tailroom + oldRoom ts ∧ Carries cut head others trailer ∧
      Stands tagBuf (tagHdrLen + relayTagLen) (oldData ts) := by
  cases first : relayOf ts with
  | none =>
      have none_ : oldData ts = [] := by rw [oldData, first]; rfl
      refine ⟨skb, stack, ts, ?_, ?_, carried, ?_⟩
      · rw [LinearSkb.insertRelay, carried.findRelay_none first, none_]
        rfl
      · rw [oldRoom, first]
        rfl
      · rw [none_]
        rfl
  | some old =>
      obtain ⟨pre, post, rfl, clean, type⟩ := relayOf_split first
      have data : oldData (pre ++ old :: post) = old.data := by rw [oldData, first]; rfl
      have room : oldRoom (pre ++ old :: post) = old.bytes.length := by rw [oldRoom, first]; rfl
      rw [data] at short ⊢
      obtain ⟨cut, pulled, tailroom, without⟩ := carried.remove
      have there := carried.at_tag.right
      have len := (tag_at there).2.1
      have body : bytesAt skb.data (pppoeTag + (tagBytes pre).length + tagHdrLen) old.data.length = old.data := by
        have bytes := there.left
        rw [Tag.bytes, ← List.append_assoc] at bytes
        exact bytes.right
      refine ⟨cut.subPppoeLen old.bytes.length, splice stack (tagHdrLen + relayTagLen) old.data, pre ++ post, ?_, ?_,
        without, bytesAt_splice ..⟩
      · rw [Tag.length_bytes] at pulled ⊢
        rw [LinearSkb.insertRelay, carried.findRelay_some clean type]
        simp only [len, body, pulled]
        rw [if_neg (Nat.not_lt.mpr short), if_neg (by decide)]
      · show cut.tailroom = _
        rw [tailroom, room]

/-- A tag that is too long for `tag_buf`. -/
theorem insertRelay_long (carried : Carries skb head ts trailer)
    (long : tagBufSize < (oldData ts).length + tagHdrLen + relayTagLen) : skb.insertRelay o stack = (-1, skb) := by
  cases first : relayOf ts with
  | none =>
      rw [oldData, first] at long
      exact absurd long (by decide)
  | some old =>
      obtain ⟨pre, post, rfl, clean, type⟩ := relayOf_split first
      have data : oldData (pre ++ old :: post) = old.data := by rw [oldData, first]; rfl
      have len := (tag_at carried.at_tag.right).2.1
      rw [data] at long
      rw [LinearSkb.insertRelay, carried.findRelay_some clean type]
      simp only [len]
      rw [if_pos long]

/-- The request goes out with the new tag exactly if the old one is not too long and there is the room. -/
theorem insertRelay_sent (carried : Carries skb head ts trailer) :
    if (oldData ts).length + tagHdrLen + relayTagLen ≤ tagBufSize ∧
        askedRoom o (oldData ts) ≤ skb.tailroom + oldRoom ts then
      ∃ (sent : LinearSkb) (relay : Tag), skb.insertRelay o stack = (0, sent) ∧ relay.type = pttRelaySid ∧
        relay.data = htons magicCode ++ (clientOf head ++ oldData ts) ∧ Stands sent.data pppoeTag relay.bytes
    else (skb.insertRelay o stack).1 = -1 := by
  by_cases short : (oldData ts).length + tagHdrLen + relayTagLen ≤ tagBufSize
  · obtain ⟨cut, tagBuf, others, inserted, tailroom, without, nested⟩ :=
      @insertRelay_add o skb stack head trailer ts carried short
    have added := addRelay_stands (o := o) without nested short
    rw [tailroom] at added
    simp only [short, true_and, inserted]
    split at added
    next room => rwa [if_pos room]
    next none_ => rw [if_neg none_, added]
  · rw [if_neg fun both => short both.1, insertRelay_long carried (Nat.lt_of_not_le short)]

end Insert

/-! ## Lookup -/

section Lookup

variable {skb : LinearSkb} {head client old trailer : List UInt8} {relay t : Tag} {pre post ts : List Tag}

/-- The frame with another destination. -/
theorem Carries.address (carried : Carries skb head ts trailer) (six : client.length = 6) :
    Carries { skb with data := splice skb.data 0 client } (client ++ head.drop 6) ts trailer := by
  obtain ⟨stands, headed, total, small⟩ := carried
  have long : 6 ≤ head.length := by
    rw [headed]
    decide
  refine ⟨?_, ?_, total, small⟩
  · rw [← List.take_append_drop 6 head, List.append_assoc] at stands
    have written := Stands.splice (x := []) stands client (by rw [six, List.length_take_of_le long])
    rw [List.append_assoc]
    exact written
  · rw [List.length_append, six, List.length_drop, headed]
    rfl

/-- What the lookup reads. -/
theorem relay_reads (carried : Carries skb head (pre ++ relay :: post) trailer)
    (data : relay.data = htons magicCode ++ (client ++ old)) (six : client.length = 6) :
    (ntohs skb.data (pppoeTag + (tagBytes pre).length + 2)).toNat = relayTagLen + old.length ∧
    ntohs skb.data (pppoeTag + (tagBytes pre).length + tagHdrLen) = magicCode ∧
    bytesAt skb.data (pppoeTag + (tagBytes pre).length + tagHdrLen + 2) 6 = client := by
  have there := carried.at_tag.right
  have length : relay.data.length = relayTagLen + old.length := by
    rw [data, List.length_append, List.length_append, six, ← Nat.add_assoc]
    rfl
  have len := (tag_at there).2.1
  have body : Stands skb.data (pppoeTag + (tagBytes pre).length + tagHdrLen) (htons magicCode ++ (client ++ old)) := by
    have bytes := there.left
    rw [Tag.bytes, ← List.append_assoc, data] at bytes
    exact bytes.right
  refine ⟨len.trans length, ntohs_of_stands body, ?_⟩
  have copied := body.right.left
  rwa [Stands, six] at copied

/-- A tag in which nothing is nested is taken out. -/
theorem lookupRelay_none (carried : Carries skb head (pre ++ relay :: post) trailer) (clean : relayOf pre = none)
    (type : relay.type = pttRelaySid) (data : relay.data = htons magicCode ++ (client ++ []))
    (six : client.length = 6) :
    ∃ got, skb.lookupRelay = (0, got) ∧ Carries got (client ++ head.drop 6) (pre ++ post) trailer := by
  obtain ⟨len, magic, copied⟩ := relay_reads carried data six
  have there := (tag_at carried.at_tag.right).1
  obtain ⟨cut, pulled, -, without⟩ := (carried.address six).remove
  have bytes : relay.bytes.length = tagHdrLen + relayTagLen := by
    rw [Tag.length_bytes, data, List.length_append, List.length_append, six]
    rfl
  rw [bytes] at pulled without
  refine ⟨_, ?_, without⟩
  rw [LinearSkb.lookupRelay, carried.findRelay_some clean type]
  simp only [there, type, len, magic, copied, List.length_nil, Nat.add_zero, Nat.lt_irrefl, if_false, Nat.sub_zero,
    pulled]
  simp

/-- A tag is restored from the one that it is nested in. -/
theorem lookupRelay_some (carried : Carries skb head (pre ++ relay :: post) trailer) (clean : relayOf pre = none)
    (type : relay.type = pttRelaySid) (data : relay.data = htons magicCode ++ (client ++ t.data))
    (six : client.length = 6) (type' : t.type = pttRelaySid) (some_ : 0 < t.data.length) :
    ∃ got, skb.lookupRelay = (0, got) ∧ Carries got (client ++ head.drop 6) (pre ++ t :: post) trailer := by
  obtain ⟨len, magic, copied⟩ := relay_reads carried data six
  have there := (tag_at carried.at_tag.right).1
  obtain ⟨stands, headed, total, small⟩ := carried.address six
  have nested : relay.data.length = relayTagLen + t.data.length := by
    rw [data, List.length_append, List.length_append, six, ← Nat.add_assoc]
    rfl
  have split : tagBytes (pre ++ relay :: post) ++ trailer =
      (tagBytes pre ++ (htons pttRelaySid ++ htons (UInt16.ofNat (relayTagLen + t.data.length)))) ++
        ((htons magicCode ++ client) ++ (t.data ++ (tagBytes post ++ trailer))) := by
    rw [tagBytes_append, tagBytes_cons, Tag.bytes, type, nested, data]
    simp only [List.append_assoc]
  have gap : (htons magicCode ++ client).length = relayTagLen := by
    rw [List.length_append, six]
    rfl
  have place : (tagBytes pre ++ (htons pttRelaySid ++ htons (UInt16.ofNat (relayTagLen + t.data.length)))).length =
      (tagBytes pre).length + tagHdrLen := by
    rw [List.length_append]
    rfl
  have size : (tagBytes (pre ++ relay :: post)).length = (tagBytes (pre ++ t :: post)).length + relayTagLen := by
    simp only [tagBytes_append, tagBytes_cons, List.length_append, Tag.length_bytes, nested]
    omega
  rw [split] at stands total
  obtain ⟨cut, pulled, len', -, there'⟩ := pull_tags stands headed total (by
    rw [size, gap]
    exact Nat.le_add_left _ _)
  rw [place, gap, ← Nat.add_assoc] at pulled
  rw [gap, size, Nat.add_sub_cancel] at there'
  have written := setTagLen_stands there' headed (UInt16.ofNat t.data.length)
  refine ⟨⟨splice (cut.subPppoeLen relayTagLen).data (pppoeTag + (tagBytes pre).length + 2)
    (htons (UInt16.ofNat t.data.length)), cut.len, cut.tailroom⟩, ?_, ?_, headed, ?_, by omega⟩
  · have longer : relayTagLen < relayTagLen + t.data.length := by omega
    rw [LinearSkb.lookupRelay, carried.findRelay_some clean type]
    simp only [there, type, len, magic, copied, if_pos longer, pulled, Nat.add_sub_cancel_left]
    simp [tagHdrLen]
    exact ⟨rfl, rfl⟩
  · have tags : tagBytes (pre ++ t :: post) ++ trailer = tagBytes pre ++ (htons pttRelaySid ++
        (htons (UInt16.ofNat t.data.length) ++ (t.data ++ (tagBytes post ++ trailer)))) := by
      rw [tagBytes_append, tagBytes_cons, Tag.bytes, type']
      simp only [List.append_assoc]
    rw [tags]
    exact written
  · have whole := congrArg List.length split
    rw [List.length_append, size] at whole
    show _ = cut.len
    rw [len', ← total, ← whole, gap, List.length_append]
    show _ = pppoeTag + _ - relayTagLen
    omega

end Lookup

/-! ## The round trip -/

section RoundTrip

variable {o : ByteOrder} {lookupAndReplace : LinearSkb → LinearSkb} {stack : Mem} {priv : PppoeState}
  {skb : LinearSkb} {head trailer : List UInt8} {ts : List Tag}

/-- One tag stands at a place. -/
theorem data_unique {m : Mem} {p : Nat} {t t' : Tag} (stands : Stands m p t.bytes) (stands' : Stands m p t'.bytes) :
    t.data = t'.data := by
  rw [← List.append_nil t.bytes] at stands
  rw [← List.append_nil t'.bytes] at stands'
  have length := (tag_at stands).2.1.symm.trans (tag_at stands').2.1
  have bytes := stands.left
  rw [Stands, Tag.length_bytes, length, ← Tag.length_bytes, stands'.left] at bytes
  exact (List.append_inj (List.append_inj bytes rfl).2 rfl).2.symm

theorem insertPppoe_request (carried : Carries skb head ts trailer) (request : IsRequest head)
    (flag : priv.addPppoeTag = true) :
    insertPppoe o stack priv skb = ((skb.insertRelay o stack).1, priv, (skb.insertRelay o stack).2) := by
  have sid : ntohs skb.data pppoeSid = 0 := by
    have zero : Stands skb.data pppoeSid (htons 0) := by
      rw [Stands, length_htons, bytesAt_head carried.stands (by rw [carried.headed]; decide), request.2]
      rfl
    rw [← List.append_nil (htons 0)] at zero
    exact ntohs_of_stands zero
  have code : skb.data pppoeCode = padiCode ∨ skb.data pppoeCode = padrCode :=
    request.1.imp (byte_of_head carried.stands) (byte_of_head carried.stands)
  rw [insertPppoe, if_pos sid, if_pos code, if_pos flag]

theorem lookupPppoe_answer (carried : Carries skb head ts trailer) (answer : IsAnswer head)
    (flag : priv.addPppoeTag = true) :
    lookupPppoe lookupAndReplace priv skb = (skb.lookupRelay.1, priv, skb.lookupRelay.2) := by
  have code : skb.data pppoeCode = padoCode ∨ skb.data pppoeCode = padsCode :=
    answer.imp (byte_of_head carried.stands) (byte_of_head carried.stands)
  rw [lookupPppoe, if_pos code, if_pos flag]

/-- A PADO with one tag. -/
def padoHead : List UInt8 := List.replicate pppoeCode 0 ++ [padoCode, 0, 0]

def padoBytes (t : Tag) : List UInt8 := padoHead ++ (htons (UInt16.ofNat (tagBytes [t]).length) ++ (tagBytes [t] ++ []))

def pado (t : Tag) : LinearSkb := ⟨splice (fun _ => 0) 0 (padoBytes t), pppoeTag + (tagBytes [t] ++ []).length, 0⟩

theorem pado_carries {t : Tag} (short : t.data.length < 65000) : Carries (pado t) padoHead ([] ++ t :: []) [] := by
  refine ⟨bytesAt_splice .., rfl, rfl, ?_⟩
  rw [List.nil_append, tagBytes_cons, tagBytes_nil, List.append_nil, Tag.length_bytes, tagHdrLen]
  omega

/-- The tag comes back exactly for the requests that are restorable. -/
theorem relayKept_iff (carried : Carries skb head ts trailer) (request : IsRequest head)
    (flag : priv.addPppoeTag = true) :
    RelayKept o lookupAndReplace stack priv skb head ts ↔ Restorable o skb ts := by
  have inserted := @insertPppoe_request o stack priv skb head trailer ts carried request flag
  have sends := @insertRelay_sent o skb stack head trailer ts carried
  have client := length_clientOf carried.headed
  constructor
  · rintro ⟨sent, relay, result, type, stands, back⟩
    rw [inserted] at result
    obtain ⟨code, -, rfl⟩ : _ ∧ priv = priv ∧ _ := by simpa only [Prod.mk.injEq] using result
    split at sends
    next fits =>
      obtain ⟨sent', relay', result', type', data', stands'⟩ := sends
      rw [result'] at stands
      have data : relay.data = _ := (data_unique stands stands').trans data'
      refine ⟨fun old first => ⟨?_, ?_⟩, fits.2⟩
      · by_contra empty
        have none_ : oldData ts = [] := by
          rw [oldData, first]
          exact List.eq_nil_of_length_eq_zero (by simpa using empty)
        rw [none_] at data
        have length : relay.data.length < 65000 := by
          rw [data, List.length_append, List.length_append, client]
          decide
        obtain ⟨got, looked, carries⟩ := back _ _ _ _ _ (pado_carries length) (.inl rfl) rfl
        obtain ⟨got', looked', carries'⟩ := lookupRelay_none (pado_carries length) rfl type data client
        rw [lookupPppoe_answer (pado_carries length) (.inl rfl) flag, looked'] at looked
        obtain ⟨-, -, rfl⟩ : _ ∧ priv = priv ∧ _ := by simpa only [Prod.mk.injEq] using looked
        have same := carries.length.symm.trans carries'.length
        rw [first] at same
        simp [Tag.length_bytes, tagHdrLen] at same
      · have short := fits.1
        rwa [oldData, first] at short
    next => exact absurd (code.symm.trans sends) (by decide)
  · rintro ⟨olds, room⟩
    have short : (oldData ts).length + tagHdrLen + relayTagLen ≤ tagBufSize := by
      cases first : relayOf ts with
      | none =>
          rw [oldData, first]
          decide
      | some old =>
          rw [oldData, first]
          exact (olds old first).2
    rw [if_pos ⟨short, room⟩] at sends
    obtain ⟨sent, relay, result, type, data, stands⟩ := sends
    rw [result] at inserted
    refine ⟨sent, relay, inserted, type, stands, fun answer head' pre post trailer carries isAnswer clean => ?_⟩
    rw [lookupPppoe_answer carries isAnswer flag]
    cases first : relayOf ts with
    | none =>
        have none_ : oldData ts = [] := by rw [oldData, first]; rfl
        rw [none_] at data
        obtain ⟨got, looked, restored⟩ := lookupRelay_none carries clean type data client
        exact ⟨got, by rw [looked], restored⟩
    | some old =>
        have data_ : oldData ts = old.data := by rw [oldData, first]; rfl
        rw [data_] at data
        obtain ⟨-, -, -, -, type'⟩ := relayOf_split first
        obtain ⟨got, looked, restored⟩ := lookupRelay_some carries clean type data client type' (olds old first).1
        exact ⟨got, by rw [looked], restored⟩

end RoundTrip

/-- A client's tag comes back with every answer exactly if it is absent or has from one to 28 bytes of data and the
frame has the room that is asked for; the tags are searched in the frame exactly if no header lies behind it. -/
theorem relay_round_trip_iff {o : ByteOrder} {lookupAndReplace : LinearSkb → LinearSkb} {stack : Mem}
    {priv : PppoeState} {skb : LinearSkb} {head trailer : List UInt8} {ts : List Tag}
    (carried : Carries skb head ts trailer) (request : IsRequest head) (flag : priv.addPppoeTag = true) :
    (RelayKept o lookupAndReplace stack priv skb head ts ↔ Restorable o skb ts) ∧
      ∀ frame, SearchInside frame ↔ HeadersInside frame :=
  ⟨relayKept_iff carried request flag, searchInside_iff⟩

theorem empty_short : ([] : List UInt8).length < 65536 := by simp

/-- A PADI with an empty Service-Name tag, padded to 60 bytes. -/
def serviceName : Tag := ⟨0x0101, [], empty_short⟩

def padiHead : List UInt8 :=
  [0xff, 0xff, 0xff, 0xff, 0xff, 0xff, 0x02, 0x00, 0x00, 0x00, 0x00, 0x01, 0x88, 0x63, 0x11, padiCode, 0x00, 0x00]

def padi : LinearSkb := ⟨fun k => (padiHead ++ [0x00, 0x04, 0x01, 0x01]).getD k 0, 60, 128⟩

def relaying : PppoeState := ⟨true, 0, []⟩

theorem padi_carries : Carries padi padiHead [serviceName] (List.replicate 36 0) :=
  ⟨rfl, rfl, rfl, by decide⟩

/-- On a big-endian host its tag comes back. -/
theorem padi_relayed : RelayKept .big id (fun _ => 0) relaying padi padiHead [serviceName] := by
  have absent : relayOf [serviceName] = none := rfl
  refine (relay_round_trip_iff padi_carries ⟨.inl rfl, rfl⟩ rfl).1.mpr ⟨?_, by decide⟩
  intro old first
  rw [absent] at first
  cases first

/-- On a little-endian host it is refused, for 2052 bytes are asked; and of a frame of 20 bytes whose length says that
tags follow, the bytes behind it are searched. -/
theorem padi_refused : (Carries padi padiHead [serviceName] (List.replicate 36 0) ∧ IsRequest padiHead ∧
    EnoughRoom padi [serviceName] ∧ ¬RelayKept .little id (fun _ => 0) relaying padi padiHead [serviceName]) ∧
    ¬SearchInside { padi with len := pppoeTag } := by
  have request : IsRequest padiHead := ⟨.inl rfl, rfl⟩
  refine ⟨⟨padi_carries, request, by unfold EnoughRoom; decide, fun kept => ?_⟩, fun inside => ?_⟩
  · have restorable := (relayKept_iff padi_carries request rfl).mp kept
    exact absurd restorable.2 (by decide)
  · have header := (searchInside_iff _).mp inside [] rfl rfl (by decide)
    exact absurd header (by decide)

end Vmac.Bridge
