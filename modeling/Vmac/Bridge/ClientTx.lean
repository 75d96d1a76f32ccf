/-
# Vmac.Bridge.ClientTx -- `rtw_br_client_tx`

A frame of the bridge goes out with the station's address as its source.  Its VLAN tag is taken out before
`nat25_db_handle` sees it and put back behind; a frame that is not inserted goes out as it is then.

* `stripVlan_view`, `restoreVlan_view`: what the two loops over halfwords make of a frame.
* `Reshaped`: the tag, the destination and the protocol are those of the frame, the source is the station's.
* `TxFits`: no insertion fails, or there is nothing to put back.
* `client_tx_sound_iff`: a frame that goes out is reshaped for these and no others, and one `sk_buff` is left.
* `tagged_lldp_stripped`: a tagged frame of a protocol that is not supported.
-/
import Vmac.Bridge.Nat25

namespace Vmac.Bridge

open Theory.OnesSum Security Ie Transmit

set_option autoImplicit false

/-! ## The frame in its buffer -/

/-- An `sk_buff`: its buffer from `head` on, the place of `data` in it, `len` and the room behind. -/
structure SkBuff where
  head : Mem
  data : Nat
  len : Nat
  tailroom : Nat

/-- `*(unsigned short *)dst = *(unsigned short *)src`. -/
def copyHalfword (m : Mem) (dst src : Nat) : Mem := splice m dst (bytesAt m src 2)

namespace SkBuff

variable (s : SkBuff)

/-- The frame from `data` on. -/
def view : LinearSkb := ⟨fromPtr s.head s.data, s.len, s.tailroom⟩

/-- The buffer, with another frame from `data` on. -/
def setView (v : LinearSkb) : SkBuff :=
  ⟨fun k => if k < s.data then s.head k else v.data (k - s.data), s.data, v.len, v.tailroom⟩

/-- `skb_pull`. -/
def pull (n : Nat) : SkBuff := if s.len < n then s else { s with data := s.data + n, len := s.len - n }

/-- `skb_push`. -/
def push (n : Nat) : SkBuff := { s with data := s.data - n, len := s.len + n }

/-- The addresses are moved over the tag from behind, a halfword at a time. -/
def shiftUp : Mem :=
  (List.range 6).foldl (fun m i => copyHalfword m (s.data + 12 + 2 - i * 2) (s.data + 12 - 2 - i * 2)) s.head

/-- They are moved back from the front. -/
def shiftDown : Mem :=
  (List.range 6).foldl (fun m i => copyHalfword m (s.data + i * 2) (s.data + 4 + i * 2)) s.head

/-- The tag is taken out. -/
def stripVlan : SkBuff := { s with head := s.shiftUp }.pull 4

/-- It is put back. -/
def restoreVlan (vlanHdr : List UInt8) : SkBuff :=
  let pushed := s.push 4
  let tagged := splice pushed.shiftDown (pushed.data + 12) (htons ethP8021q)
  { pushed with head := splice tagged (pushed.data + 14) vlanHdr }

/-- The source address is overwritten. -/
def setSrc (mac : MacAddr) : SkBuff := { s with head := splice s.head (s.data + 6) (List.ofFn mac) }

end SkBuff

/-! ## The function -/

/-- What the adapter keeps for the bridge; `scdb_entry` is an entry of the address table, which has the timer. -/
structure BrPriv where
  hwaddr : MacAddr
  brMac : List UInt8
  brIp : List UInt8
  scdbMac : List UInt8
  scdbIp : List UInt8
  scdbEntry : Option Nat
  ageingTimer : Nat → Nat

/-- What a transmission depends on: whether there is a bridge, the time, the address table, `nat25_db_handle`, whether
an `sk_buff` can be copied and what `skb_linearize` returns. -/
structure TxEnv where
  o : ByteOrder
  dhcpBcstDisable : Bool
  brPort : Bool
  jiffies : Nat
  findEntry : List UInt8 → List UInt8 → Option Nat
  nat25 : Nat25
  copies : Bool
  linearizeRes : Int

/-- A frame on its way: what is in `*pskb`, which `sk_buff` that is, and those that are not freed. -/
structure Tx where
  skb : SkBuff
  pskb : Nat
  held : List Nat

/-- The source address of an IPv4 packet. -/
def LinearSkb.ipSaddr (v : LinearSkb) : List UInt8 := bytesAt v.data (ethHlen + 12) 4

namespace BrPriv

variable (env : TxEnv) (priv : BrPriv) (v : LinearSkb)

/-- The entry is used. -/
def touch (entry : Nat) : BrPriv :=
  { priv with ageingTimer := fun e => if e = entry then env.jiffies else priv.ageingTimer e }

/-- The frame takes the short way. -/
def shortcut : Bool :=
  v.data 0 &&& 1 = 0 && env.brPort && v.src ≠ priv.brMac && v.protocol ≠ ethP8021q && v.protocol = ethPIp &&
    priv.scdbMac = v.src && priv.scdbEntry.isSome

/-- `br_ip`. -/
def noteBrIp : BrPriv :=
  if v.src = priv.brMac ∧ v.protocol = ethPIp then { priv with brIp := v.ipSaddr } else priv

/-- `do_nat25`, and the entry that the frame has. -/
def updateScdb : Bool × BrPriv :=
  if v.protocol = ethPIp then
    if priv.scdbMac ≠ v.src then
      match env.findEntry v.src v.ipSaddr with
      | some entry => (false, { priv with scdbEntry := entry, scdbMac := v.src, scdbIp := v.ipSaddr }.touch env entry)
      | none => (true, { priv with scdbEntry := none })
    else
      match priv.scdbEntry with
      | some entry => (false, priv.touch env entry)
      | none => (true, { priv with scdbMac := List.replicate 6 0, scdbIp := List.replicate 4 0 })
  else (true, priv)

/-- The two of them. -/
def update : Bool × BrPriv := (priv.noteBrIp v).updateScdb env v

end BrPriv

namespace Tx

variable (env : TxEnv) (hwaddr : MacAddr) (isVlanTag : Bool) (vlanHdr : List UInt8) (t : Tx)

/-- The last check: the source is the station. -/
def checkSa : Int := if t.skb.view.src ≠ List.ofFn hwaddr then -1 else 0

/-- The source, the flags of a DHCP request, and the tag. -/
def finish : Int × Tx :=
  let skb := t.skb.setSrc hwaddr
  let skb := skb.setView { skb.view with data := (skb.view.toSkb.dhcpFlagBcast env.o env.dhcpBcstDisable).data }
  let t := { t with skb := if isVlanTag then skb.restoreVlan vlanHdr else skb }
  (t.checkSa hwaddr, t)

/-- The copy that `nat25_db_handle` asks for, with the tag in it; `none` in front if there is none. -/
def copy : Option (List UInt8) × Tx :=
  if env.nat25.check t.skb.view = 0 then
    let skb := if isVlanTag then t.skb.restoreVlan vlanHdr else t.skb
    if env.copies then
      let newskb := t.pskb + 1
      (some (if isVlanTag then bytesAt skb.view.data 14 2 else vlanHdr),
        ⟨if isVlanTag then skb.stripVlan else skb, newskb, (newskb :: t.held).erase t.pskb⟩)
    else (none, { t with skb := skb })
  else (some vlanHdr, t)

/-- The insertion, and what is behind it. -/
def insert : Option (Int × Tx) :=
  match env.nat25.insert t.skb.view with
  | none => none
  | some (res, v) =>
    let t := { t with skb := t.skb.setView v }
    if res < 0 then
      if res = -2 then some (-1, t) else some (0, t)
    else some (t.finish env hwaddr isVlanTag vlanHdr)

/-- With `do_nat25`. -/
def handle : Option (Int × Tx) :=
  match t.copy env isVlanTag vlanHdr with
  | (none, t) => some (-1, t)
  | (some vlanHdr, t) => if env.linearizeRes < 0 then some (-1, t) else t.insert env hwaddr isVlanTag vlanHdr

end Tx

/-- `rtw_br_client_tx`, if `nat25_db_handle` returns. -/
def brClientTx (env : TxEnv) (priv : BrPriv) (s : SkBuff) (pskb : Nat) : Option (Int × BrPriv × Tx) :=
  if priv.shortcut env s.view then
    let t : Tx := ⟨s.setSrc priv.hwaddr, pskb, [pskb]⟩
    some (t.checkSa priv.hwaddr, priv.scdbEntry.elim priv (priv.touch env), t)
  else
    let isVlanTag : Bool := s.view.protocol = ethP8021q
    let vlanHdr := if isVlanTag then bytesAt s.view.data 14 2 else [0, 0]
    let t : Tx := ⟨if isVlanTag then s.stripVlan else s, pskb, [pskb]⟩
    let updated := priv.update env t.skb.view
    if updated.1 then
      (t.handle env priv.hwaddr isVlanTag vlanHdr).map fun r => (r.1, updated.2, r.2)
    else
      let finished := t.finish env priv.hwaddr isVlanTag vlanHdr
      some (finished.1, updated.2, finished.2)

/-! ## Tags -/

namespace LinearSkb

/-- The frame without the four bytes behind its addresses. -/
def removeTag (v : LinearSkb) : LinearSkb where
  data k := v.data (if k < 12 then k else k + 4)
  len := v.len - 4
  tailroom := v.tailroom

/-- The frame with four bytes there. -/
def putTag (v : LinearSkb) (tag : List UInt8) : LinearSkb where
  data k := if k < 12 then v.data k else if k < 16 then tag.getD (k - 12) 0 else v.data (k - 4)
  len := v.len + 4
  tailroom := v.tailroom

theorem removeTag_putTag (v : LinearSkb) (tag : List UInt8) : (v.putTag tag).removeTag = v := by
  obtain ⟨data, len, tailroom⟩ := v
  simp only [removeTag, putTag, Nat.add_sub_cancel, LinearSkb.mk.injEq, and_true]
  funext k
  by_cases front : k < 12
  · rw [if_pos front, if_pos front]
  · rw [if_neg front, if_neg (by omega), if_neg (by omega), Nat.add_sub_cancel]

end LinearSkb

section Shift

variable {s : SkBuff} {m : Mem} {d n : Nat}

theorem splice_apply (m : Mem) (p : Nat) (x : List UInt8) (a : Nat) :
    splice m p x a = if p ≤ a ∧ a < p + x.length then x.getD (a - p) 0 else m a := rfl

theorem copyHalfword_apply (m : Mem) (dst src a : Nat) :
    copyHalfword m dst src a = if dst ≤ a ∧ a < dst + 2 then m (src + (a - dst)) else m a := by
  rw [copyHalfword, splice_apply, length_bytesAt, getD_bytesAt]
  by_cases inside : dst ≤ a ∧ a < dst + 2
  · rw [if_pos inside, if_pos inside, if_pos (by omega)]
  · rw [if_neg inside, if_neg inside]

/-- The last halfwords have been moved up. -/
theorem foldl_up (m : Mem) (room : 2 * n ≤ 12) (a : Nat) :
    (List.range n).foldl (fun m i => copyHalfword m (d + 12 + 2 - i * 2) (d + 12 - 2 - i * 2)) m a =
      if d + 16 - 2 * n ≤ a ∧ a < d + 16 then m (a - 4) else m a := by
  induction n generalizing a with
  | zero => rw [List.range_zero, List.foldl_nil, if_neg (by omega)]
  | succ n ih =>
      rw [List.range_succ, List.foldl_append, List.foldl_cons, List.foldl_nil, copyHalfword_apply]
      have before := ih (by omega)
      by_cases here : d + 12 + 2 - n * 2 ≤ a ∧ a < d + 12 + 2 - n * 2 + 2
      · rw [if_pos here, before, if_neg (by omega), if_pos (by omega)]
        congr 1
        omega
      · rw [if_neg here, before]
        by_cases moved : d + 16 - 2 * n ≤ a ∧ a < d + 16
        · rw [if_pos moved, if_pos (by omega)]
        · rw [if_neg moved, if_neg (by omega)]

/-- The first halfwords have been moved down. -/
theorem foldl_down (m : Mem) (a : Nat) :
    (List.range n).foldl (fun m i => copyHalfword m (d + i * 2) (d + 4 + i * 2)) m a =
      if d ≤ a ∧ a < d + 2 * n then m (a + 4) else m a := by
  induction n generalizing a with
  | zero => rw [List.range_zero, List.foldl_nil, if_neg (by omega)]
  | succ n ih =>
      rw [List.range_succ, List.foldl_append, List.foldl_cons, List.foldl_nil, copyHalfword_apply]
      by_cases here : d + n * 2 ≤ a ∧ a < d + n * 2 + 2
      · rw [if_pos here, ih, if_neg (by omega), if_pos (by omega)]
        congr 1
        omega
      · rw [if_neg here, ih]
        by_cases moved : d ≤ a ∧ a < d + 2 * n
        · rw [if_pos moved, if_pos (by omega)]
        · rw [if_neg moved, if_neg (by omega)]

theorem stripVlan_view (long : 4 ≤ s.len) :
    s.stripVlan.view = s.view.removeTag ∧ s.stripVlan.data = s.data + 4 := by
  have fits : ¬s.len < 4 := Nat.not_lt.mpr long
  rw [SkBuff.stripVlan, SkBuff.pull, if_neg fits]
  refine ⟨?_, rfl⟩
  simp only [SkBuff.view, LinearSkb.removeTag, LinearSkb.mk.injEq, and_true]
  funext k
  show s.shiftUp (s.data + 4 + k) = _
  rw [SkBuff.shiftUp, foldl_up _ (by decide)]
  by_cases front : k < 12
  · rw [if_pos (by omega), if_pos front, fromPtr]
    congr 1
    omega
  · rw [if_neg (by omega), if_neg front, fromPtr]
    congr 1
    omega

theorem restoreVlan_view {tci : List UInt8} (two : tci.length = 2) (room : 4 ≤ s.data) :
    (s.restoreVlan tci).view = s.view.putTag (htons ethP8021q ++ tci) := by
  simp only [SkBuff.view, LinearSkb.putTag, LinearSkb.mk.injEq]
  refine ⟨?_, rfl, rfl⟩
  funext k
  have once : splice (splice (s.push 4).shiftDown (s.data - 4 + 12) (htons ethP8021q)) (s.data - 4 + 14) tci =
      splice (s.push 4).shiftDown (s.data - 4 + 12) (htons ethP8021q ++ tci) := splice_append ..
  show splice (splice (s.push 4).shiftDown (s.data - 4 + 12) (htons ethP8021q)) (s.data - 4 + 14) tci _ = _
  rw [once, splice_apply, List.length_append, length_htons, two]
  show (if s.data - 4 + 12 ≤ s.data - 4 + k ∧ s.data - 4 + k < s.data - 4 + 12 + (2 + 2) then _
    else (s.push 4).shiftDown (s.data - 4 + k)) = _
  by_cases front : k < 12
  · rw [if_neg (by omega), if_pos front, SkBuff.shiftDown, foldl_down]
    show (if s.data - 4 ≤ _ ∧ _ < s.data - 4 + 2 * 6 then s.head _ else _) = _
    rw [if_pos (by omega), fromPtr]
    congr 1
    omega
  · rw [if_neg front]
    by_cases tag : k < 16
    · rw [if_pos (by omega), if_pos tag]
      show (htons ethP8021q ++ tci).getD (s.data - 4 + k - (s.data - 4 + 12)) 0 = _
      rw [Nat.add_sub_add_left]
    · rw [if_neg (by omega), if_neg tag, SkBuff.shiftDown, foldl_down]
      show (if s.data - 4 ≤ _ ∧ _ < s.data - 4 + 2 * 6 then _ else s.head _) = _
      rw [if_neg (by omega), fromPtr]
      congr 1
      omega

theorem setView_view (v : LinearSkb) : (s.setView v).view = v := by
  obtain ⟨data, len, tailroom⟩ := v
  simp only [SkBuff.setView, SkBuff.view, LinearSkb.mk.injEq, and_true]
  funext k
  rw [fromPtr, if_neg (by omega), Nat.add_sub_cancel_left]

theorem setSrc_view (mac : MacAddr) :
    (s.setSrc mac).view = { s.view with data := splice s.view.data 6 (List.ofFn mac) } := by
  simp only [SkBuff.setSrc, SkBuff.view, LinearSkb.mk.injEq, and_true]
  funext k
  rw [fromPtr, splice_apply, splice_apply, List.length_ofFn, fromPtr]
  by_cases inside : 6 ≤ k ∧ k < 6 + 6
  · rw [if_pos inside, if_pos (by omega)]
    congr 1
    omega
  · rw [if_neg inside, if_neg (by omega)]

end Shift

/-! ## Ethernet frames -/

/-- The bytes of a frame; a tag is behind the addresses. -/
def ethBytes (dst src : MacAddr) (vlan : Option UInt16) (proto : UInt16) (payload : List UInt8) : List UInt8 :=
  let tag := vlan.elim [] fun tci => htons ethP8021q ++ htons tci
  (List.ofFn dst ++ List.ofFn src) ++ (tag ++ (htons proto ++ payload))

/-- A frame; without a tag its protocol is not that of one. -/
structure EthFrame where
  dst : MacAddr
  src : MacAddr
  vlan : Option UInt16
  proto : UInt16
  payload : List UInt8
  untagged : vlan = none → proto ≠ ethP8021q

def EthFrame.bytes (f : EthFrame) : List UInt8 := ethBytes f.dst f.src f.vlan f.proto f.payload

namespace LinearSkb

variable (v : LinearSkb)

def frame : List UInt8 := bytesAt v.data 0 v.len

def payload : List UInt8 := bytesAt v.data ethHlen (v.len - ethHlen)

/-- The frame without its tag. -/
def inner (vlan : Option UInt16) : LinearSkb := vlan.elim v fun _ => v.removeTag

/-- The frame with a tag. -/
def tagged (vlan : Option UInt16) : LinearSkb := vlan.elim v fun tci => v.putTag (htons ethP8021q ++ htons tci)

/-- The frame with another source. -/
def withSrc (mac : MacAddr) : LinearSkb := { v with data := splice v.data 6 (List.ofFn mac) }

/-- The frame behind `dhcp_flag_bcast`. -/
def flagBcast (env : TxEnv) : LinearSkb :=
  { v with data := (v.toSkb.dhcpFlagBcast env.o env.dhcpBcstDisable).data }

/-- What begins with these addresses and this protocol. -/
structure Headed (dst src : MacAddr) (proto : UInt16) : Prop where
  stands : Stands v.data 0 ((List.ofFn dst ++ List.ofFn src) ++ htons proto)
  long : ethHlen ≤ v.len

end LinearSkb

/-- The frame in `*pskb` has the tag, the destination and the protocol, the station's address as its source, and the
payload that `nat25_db_handle` or `dhcp_flag_bcast` or neither has left. -/
def Reshaped (env : TxEnv) (hwaddr : MacAddr) (f : EthFrame) (inner : LinearSkb) (t : Tx) : Prop :=
  ∃ v w, (v = inner ∨ ∃ res, env.nat25.insert inner = some (res, v)) ∧
    (w = v ∨ w = (v.withSrc hwaddr).flagBcast env) ∧
    t.skb.view.frame = ethBytes f.dst hwaddr f.vlan f.proto w.payload

/-- With 0 the frame is reshaped; with -1 there is one `sk_buff` to free. -/
def TxSound (env : TxEnv) (priv : BrPriv) (s : SkBuff) (pskb : Nat) (f : EthFrame) : Prop :=
  ∀ res priv' t, brClientTx env priv s pskb = some (res, priv', t) →
    (res = 0 → Reshaped env priv.hwaddr f (s.view.inner f.vlan) t) ∧ (res = -1 → t.held = [t.pskb])

/-- The frame goes to an insertion that fails with a result that is let go. -/
def InsertIgnored (env : TxEnv) (priv : BrPriv) (v inner : LinearSkb) : Prop :=
  priv.shortcut env v = false ∧ (priv.update env inner).1 = true ∧
    (env.nat25.check inner = 0 → env.copies = true) ∧ 0 ≤ env.linearizeRes ∧
    ∃ res w, env.nat25.insert inner = some (res, w) ∧ res < 0 ∧ res ≠ -2

/-- No such insertion, or no tag and the station's own frame. -/
def TxFits (env : TxEnv) (priv : BrPriv) (s : SkBuff) (f : EthFrame) : Prop :=
  InsertIgnored env priv s.view (s.view.inner f.vlan) → f.vlan = none ∧ f.src = priv.hwaddr

section Eth

variable {env : TxEnv} {v v' : LinearSkb} {dst src mac : MacAddr} {proto tci : UInt16} {vlan : Option UInt16}
  {payload front tag rest : List UInt8}

theorem frame_eq_iff {x : List UInt8} : v.frame = x ↔ Stands v.data 0 x ∧ x.length = v.len := by
  constructor
  · rintro rfl
    exact ⟨stands_bytesAt _ _ _, length_bytesAt _ _ _⟩
  · rintro ⟨stands, length⟩
    rw [LinearSkb.frame, ← length]
    exact stands

theorem removeTag_stands (stands : Stands v.data 0 (front ++ (tag ++ rest))) (twelve : front.length = 12)
    (four : tag.length = 4) : Stands v.removeTag.data 0 (front ++ rest) := by
  have behind := stands.right.right
  rw [Stands, twelve, four] at behind
  rw [Stands.append_iff, Stands, Stands, twelve]
  refine ⟨?_, ?_⟩
  · have same := stands.left
    rw [Stands, twelve] at same
    conv_rhs => rw [← same]
    refine bytesAt_congr fun k below => ?_
    show v.data (if 0 + k < 12 then 0 + k else 0 + k + 4) = _
    rw [if_pos (by omega)]
  · conv_rhs => rw [← behind]
    refine List.map_congr_left fun k _ => ?_
    show v.data (if 0 + 12 + k < 12 then 0 + 12 + k else 0 + 12 + k + 4) = _
    rw [if_neg (by omega)]
    congr 1
    omega

theorem putTag_stands (stands : Stands v.data 0 (front ++ rest)) (twelve : front.length = 12) (four : tag.length = 4) :
    Stands (v.putTag tag).data 0 (front ++ (tag ++ rest)) := by
  have behind := stands.right
  rw [Stands, twelve] at behind
  rw [Stands.append_iff, Stands.append_iff, Stands, Stands, Stands, twelve, four]
  refine ⟨?_, ?_, ?_⟩
  · have same := stands.left
    rw [Stands, twelve] at same
    conv_rhs => rw [← same]
    refine bytesAt_congr fun k below => ?_
    show (if 0 + k < 12 then v.data (0 + k) else _) = _
    rw [if_pos (by omega)]
  · apply List.ext_getElem
    · rw [length_bytesAt, four]
    · intro k inside inside'
      rw [length_bytesAt] at inside
      simp only [bytesAt, List.getElem_map, List.getElem_range]
      show (if 0 + 12 + k < 12 then _ else if 0 + 12 + k < 16 then tag.getD (0 + 12 + k - 12) 0 else _) = _
      rw [if_neg (by omega), if_pos (by omega), show 0 + 12 + k - 12 = k by omega, List.getD_eq_getElem _ _ inside']
  · conv_rhs => rw [← behind]
    refine List.map_congr_left fun k _ => ?_
    show (if 0 + 12 + 4 + k < 12 then _ else if 0 + 12 + 4 + k < 16 then _ else v.data (0 + 12 + 4 + k - 4)) = _
    rw [if_neg (by omega), if_neg (by omega)]
    congr 1
    omega

/-- A tag is a protocol and the first two bytes of a payload. -/
theorem ethBytes_some : ethBytes dst src (some tci) proto payload =
    ethBytes dst src none ethP8021q (htons tci ++ (htons proto ++ payload)) := by
  simp [ethBytes]

theorem length_macs (dst src : MacAddr) : (List.ofFn dst ++ List.ofFn src).length = 12 := by
  rw [List.length_append, List.length_ofFn, List.length_ofFn]

theorem length_ethBytes :
    (ethBytes dst src vlan proto payload).length = ethHlen + vlan.elim 0 (fun _ => 4) + payload.length := by
  cases vlan <;>
  · simp only [ethBytes, List.length_append, length_htons, List.length_ofFn, ethHlen, Option.elim, List.length_nil]
    omega

namespace LinearSkb.Headed

theorem of_frame (same : v.frame = ethBytes dst src none proto payload) :
    v.Headed dst src proto ∧ v.payload = payload := by
  obtain ⟨stands, length⟩ := frame_eq_iff.mp same
  rw [length_ethBytes] at length
  have split : ethBytes dst src none proto payload = ((List.ofFn dst ++ List.ofFn src) ++ htons proto) ++ payload := by
    simp [ethBytes]
  rw [split] at stands
  have behind := stands.right
  rw [List.length_append, length_macs, length_htons, Nat.zero_add] at behind
  refine ⟨⟨stands.left, by rw [← length]; omega⟩, ?_⟩
  have rest : v.len - ethHlen = payload.length := by
    rw [← length]
    simp
  rw [LinearSkb.payload, rest]
  exact behind

theorem frame (headed : v.Headed dst src proto) : v.frame = ethBytes dst src none proto v.payload := by
  have front : bytesAt v.data 0 ethHlen = _ := headed.stands
  rw [LinearSkb.frame, ← Nat.add_sub_cancel' headed.long, bytesAt_front, front, LinearSkb.payload]
  simp [ethBytes]

theorem tagged_frame (headed : v.Headed dst src proto) :
    (v.tagged vlan).frame = ethBytes dst src vlan proto v.payload := by
  cases vlan with
  | none => exact headed.frame
  | some tci =>
      obtain ⟨stands, length⟩ := frame_eq_iff.mp headed.frame
      refine frame_eq_iff.mpr ⟨putTag_stands stands (length_macs _ _) rfl, ?_⟩
      rw [length_ethBytes] at length ⊢
      show _ = v.len + 4
      rw [← length]
      simp only [Option.elim]
      omega

theorem protocol (headed : v.Headed dst src proto) : v.protocol = proto := by
  have there := stands_behind (p := 12) headed.stands (length_macs _ _)
  rw [← List.append_nil (htons proto)] at there
  exact ntohs_of_stands there

theorem srcBytes (headed : v.Headed dst src proto) : v.src = List.ofFn src := by
  have stands := headed.stands
  rw [List.append_assoc] at stands
  have there := (stands_behind (p := 6) stands (List.length_ofFn ..)).left
  rwa [Stands, List.length_ofFn] at there

theorem kept (headed : v.Headed dst src proto) (kept : HeaderKept v v') : v'.Headed dst src proto := by
  refine ⟨?_, kept.long headed.long⟩
  rw [Stands, bytesAt_of_below kept.header (by rw [List.length_append, length_macs]; exact Nat.le_refl _)]
  exact headed.stands

theorem withSrc (headed : v.Headed dst src proto) : (v.withSrc mac).Headed dst mac proto := by
  refine ⟨?_, headed.long⟩
  have stands := headed.stands
  rw [List.append_assoc] at stands ⊢
  have written := stands.splice (List.ofFn mac) (by rw [List.length_ofFn, List.length_ofFn])
  rwa [List.length_ofFn, Nat.zero_add] at written

end LinearSkb.Headed

/-- Of a frame with a tag or without. -/
theorem inner_frame (same : v.frame = ethBytes dst src vlan proto payload) :
    (v.inner vlan).frame = ethBytes dst src none proto payload := by
  cases vlan with
  | none => exact same
  | some tci =>
      obtain ⟨stands, length⟩ := frame_eq_iff.mp same
      refine frame_eq_iff.mpr ⟨removeTag_stands stands (length_macs _ _) rfl, ?_⟩
      rw [length_ethBytes] at length ⊢
      show _ = v.len - 4
      rw [← length]
      simp only [Option.elim]
      omega

/-- What is read of a frame with a tag or without. -/
theorem outer_headed (same : v.frame = ethBytes dst src vlan proto payload) :
    v.Headed dst src (vlan.elim proto fun _ => ethP8021q) := by
  cases vlan with
  | none => exact (LinearSkb.Headed.of_frame same).1
  | some tci =>
      rw [ethBytes_some] at same
      exact (LinearSkb.Headed.of_frame same).1

theorem payload_withSrc : (v.withSrc mac).payload = v.payload :=
  bytesAt_splice_behind _ _ _ _ _ (by rw [List.length_ofFn]; decide)

/-- The flags and the checksum lie behind the header. -/
theorem flagBcast_header : HeaderKept v (v.flagBcast env) := by
  refine ⟨?_, id⟩
  rw [LinearSkb.flagBcast, Skb.dhcpFlagBcast]
  dsimp only
  split
  · intro k below
    have udp : ethHlen ≤ v.toSkb.udph := Nat.le_add_right _ _
    dsimp only
    rw [splice_below _ _ _ k (by omega), splice_below _ _ _ k (by rw [Skb.dhcpFlags]; omega)]
    rfl
  · exact fun _ _ => rfl

end Eth

/-! ## A transmission -/

/-- On the way: this is the frame without its tag, there is room for the tag and it is kept, and one `sk_buff` is
held. -/
structure Tx.At (t : Tx) (vlan : Option UInt16) (v : LinearSkb) (vlanHdr : List UInt8) : Prop where
  view : t.skb.view = v
  room : vlan.isSome = true → 4 ≤ t.skb.data
  header : ∀ tci, vlan = some tci → vlanHdr = htons tci
  held : t.held = [t.pskb]

section Run

variable {env : TxEnv} {priv : BrPriv} {s : SkBuff} {pskb : Nat} {t : Tx} {vlan : Option UInt16} {v inner w : LinearSkb}
  {vlanHdr : List UInt8} {hwaddr dst src : MacAddr} {proto : UInt16} {res : Int} {f : EthFrame}

/-- The tag is put back. -/
theorem restored_view (at_ : t.At vlan v vlanHdr) :
    (if vlan.isSome = true then t.skb.restoreVlan vlanHdr else t.skb).view = v.tagged vlan := by
  cases vlan with
  | none => exact at_.view
  | some tci =>
      obtain rfl := at_.header tci rfl
      rw [if_pos (show (some tci).isSome = true from rfl), restoreVlan_view (length_htons tci) (at_.room rfl), at_.view]
      rfl

/-- Without the copy that is asked for the frame is as it came; with it, or if none is asked for, it is on the way. -/
theorem copy_spec (at_ : t.At vlan inner vlanHdr) :
    if env.nat25.check inner = 0 → env.copies = true then
      ∃ hdr t', t.copy env vlan.isSome vlanHdr = (some hdr, t') ∧ t'.At vlan inner hdr
    else ∃ t', t.copy env vlan.isSome vlanHdr = (none, t') ∧ t'.held = [t'.pskb] := by
  have restored := restored_view at_
  obtain ⟨view, room, header, held⟩ := at_
  rw [Tx.copy, view]
  by_cases asked : env.nat25.check inner = 0
  · rw [if_pos asked]
    cases copies : env.copies with
    | false =>
        rw [if_neg (by simp [asked])]
        exact ⟨_, rfl, held⟩
    | true =>
        rw [if_pos (fun _ => rfl)]
        refine ⟨_, _, rfl, ?_⟩
        have one : ((t.pskb + 1) :: t.held).erase t.pskb = [t.pskb + 1] := by
          rw [held]
          simp
        cases vlan with
        | none => exact ⟨view, fun no => absurd no (by simp), fun _ no => absurd no (by simp), one⟩
        | some tci =>
            obtain rfl := header tci rfl
            simp only [Option.isSome_some, if_true] at restored ⊢
            have long : 4 ≤ (t.skb.restoreVlan (htons tci)).len := Nat.le_add_left 4 _
            obtain ⟨stripped, place⟩ := stripVlan_view long
            refine ⟨?_, fun _ => ?_, ?_, one⟩
            · rw [stripped, restored]
              exact LinearSkb.removeTag_putTag inner _
            · rw [place]
              exact Nat.le_add_left 4 _
            · intro tci' same
              cases same
              rw [restored]
              rfl
  · rw [if_neg asked, if_pos (fun zero => absurd zero asked)]
    exact ⟨vlanHdr, t, rfl, view, room, header, held⟩

/-- The frame goes out with the station's address and its tag. -/
theorem finish_spec (at_ : t.At vlan v vlanHdr) (headed : v.Headed dst src proto) :
    ∃ t', t.finish env hwaddr vlan.isSome vlanHdr = (0, t') ∧ t'.held = [t'.pskb] ∧
      t'.skb.view.frame = ethBytes dst hwaddr vlan proto ((v.withSrc hwaddr).flagBcast env).payload := by
  obtain ⟨flagged, flagged_⟩ : ∃ flagged, flagged =
      (t.skb.setSrc hwaddr).setView ((t.skb.setSrc hwaddr).view.flagBcast env) := ⟨_, rfl⟩
  obtain ⟨last, last_⟩ : ∃ last, last = if vlan.isSome = true then flagged.restoreVlan vlanHdr else flagged :=
    ⟨_, rfl⟩
  have view : flagged.view = (v.withSrc hwaddr).flagBcast env := by
    rw [flagged_, setView_view, setSrc_view, at_.view]
    rfl
  have place : flagged.data = t.skb.data := by
    rw [flagged_]
    rfl
  have out : Tx.At ⟨flagged, t.pskb, t.held⟩ vlan ((v.withSrc hwaddr).flagBcast env) vlanHdr :=
    ⟨view, fun some_ => place ▸ at_.room some_, at_.header, at_.held⟩
  have headed' : ((v.withSrc hwaddr).flagBcast env).Headed dst hwaddr proto := headed.withSrc.kept flagBcast_header
  have frame : last.view.frame = ethBytes dst hwaddr vlan proto ((v.withSrc hwaddr).flagBcast env).payload := by
    rw [last_, restored_view out]
    exact headed'.tagged_frame
  have passed : Tx.checkSa hwaddr ⟨last, t.pskb, t.held⟩ = 0 := by
    rw [Tx.checkSa, if_neg (not_not.mpr (outer_headed frame).srcBytes)]
  refine ⟨⟨last, t.pskb, t.held⟩, ?_, at_.held, frame⟩
  have finished : t.finish env hwaddr vlan.isSome vlanHdr =
      (Tx.checkSa hwaddr ⟨last, t.pskb, t.held⟩, ⟨last, t.pskb, t.held⟩) := by
    rw [last_, flagged_]
    rfl
  rw [finished, passed]

/-- With 0 the frame is reshaped or was let go behind an insertion. -/
theorem handle_spec {r : Int × Tx} (at_ : t.At f.vlan inner vlanHdr) (headed : inner.Headed f.dst f.src f.proto)
    (result : t.handle env hwaddr f.vlan.isSome vlanHdr = some r) :
    r.2.held = [r.2.pskb] ∧ (r.1 = 0 → Reshaped env hwaddr f inner r.2 ∨
      (env.nat25.check inner = 0 → env.copies = true) ∧ 0 ≤ env.linearizeRes ∧
        ∃ res w, env.nat25.insert inner = some (res, w) ∧ res < 0 ∧ res ≠ -2 ∧ r.2.skb.view = w) := by
  have copied := @copy_spec env t f.vlan inner vlanHdr at_
  have minus : ¬(-1 : Int) = 0 := by decide
  rw [Tx.handle] at result
  split at copied
  next goes =>
    obtain ⟨hdr, t', copy, at'⟩ := copied
    rw [copy] at result
    dsimp only at result
    split at result
    · cases result
      exact ⟨at'.held, fun no => absurd no minus⟩
    next linear =>
      rw [Tx.insert, at'.view] at result
      cases inserted : env.nat25.insert inner with
      | none =>
          rw [inserted] at result
          cases result
      | some found =>
          obtain ⟨res, w⟩ := found
          rw [inserted] at result
          dsimp only at result
          have placed : Tx.At { t' with skb := t'.skb.setView w } f.vlan w hdr :=
            ⟨setView_view w, at'.room, at'.header, at'.held⟩
          split at result
          next negative =>
            split at result
            · cases result
              exact ⟨at'.held, fun no => absurd no minus⟩
            next other =>
              cases result
              refine ⟨at'.held, fun _ => .inr ⟨goes, Int.not_lt.mp linear, res, w, rfl, negative, other, ?_⟩⟩
              exact placed.view
          next =>
            have headed' := headed.kept (env.nat25.keeps inserted).1
            obtain ⟨out, finished, held, frame⟩ :=
              @finish_spec env _ f.vlan w hdr hwaddr f.dst f.src f.proto placed headed'
            rw [finished] at result
            cases result
            exact ⟨held, fun _ => .inl ⟨w, _, .inr ⟨res, inserted⟩, .inr rfl, frame⟩⟩
  next stops =>
    obtain ⟨t', copy, held⟩ := copied
    rw [copy] at result
    cases result
    exact ⟨held, fun no => absurd no minus⟩

/-- An insertion that fails lets the frame go as it is. -/
theorem handle_ignored (at_ : t.At vlan inner vlanHdr) (goes : env.nat25.check inner = 0 → env.copies = true)
    (linear : 0 ≤ env.linearizeRes) (inserted : env.nat25.insert inner = some (res, w)) (negative : res < 0)
    (other : res ≠ -2) : ∃ t', t.handle env hwaddr vlan.isSome vlanHdr = some (0, t') ∧ t'.skb.view = w := by
  have copied := @copy_spec env t vlan inner vlanHdr at_
  rw [if_pos goes] at copied
  obtain ⟨hdr, t', copy, at'⟩ := copied
  refine ⟨{ t' with skb := t'.skb.setView w }, ?_, setView_view w⟩
  rw [Tx.handle, copy]
  dsimp only
  rw [if_neg (Int.not_lt.mpr linear), Tx.insert, at'.view, inserted]
  dsimp only
  rw [if_pos negative, if_neg other]

/-- The frame at the beginning, its tag taken out. -/
theorem start_at (same : s.view.frame = f.bytes) :
    Tx.At ⟨if f.vlan.isSome = true then s.stripVlan else s, pskb, [pskb]⟩ f.vlan (s.view.inner f.vlan)
      (if f.vlan.isSome = true then bytesAt s.view.data 14 2 else [0, 0]) := by
  obtain ⟨stands, length⟩ := frame_eq_iff.mp same
  rw [EthFrame.bytes, length_ethBytes] at length
  cases vlan : f.vlan with
  | none => exact ⟨rfl, fun no => absurd no (by simp), fun _ no => absurd no (by simp), rfl⟩
  | some tci =>
      rw [vlan] at length
      have long : 4 ≤ s.len := by
        show 4 ≤ s.view.len
        rw [← length]
        simp only [Option.elim]
        omega
      obtain ⟨view, place⟩ := stripVlan_view long
      refine ⟨view, fun _ => ?_, ?_, rfl⟩
      · show 4 ≤ s.stripVlan.data
        rw [place]
        exact Nat.le_add_left 4 _
      · intro tci' tci_
        cases tci_
        rw [EthFrame.bytes, vlan, ethBytes_some] at same
        have payload := stands_bytesAt s.view.data ethHlen (s.view.len - ethHlen)
        have split : bytesAt s.view.data ethHlen (s.view.len - ethHlen) = _ := (LinearSkb.Headed.of_frame same).2
        rw [split] at payload
        exact payload.left

/-- What the function takes for a tag. -/
theorem protocol_tagged (same : s.view.frame = f.bytes) :
    decide (s.view.protocol = ethP8021q) = f.vlan.isSome := by
  rw [(outer_headed same).protocol]
  cases vlan : f.vlan with
  | none => exact decide_eq_false (f.untagged vlan)
  | some tci => exact decide_eq_true rfl

/-- The function of a frame that does not take the short way. -/
theorem brClientTx_eq (same : s.view.frame = f.bytes) (long : priv.shortcut env s.view = false) :
    ∃ (t : Tx) (hdr : List UInt8), t.At f.vlan (s.view.inner f.vlan) hdr ∧ brClientTx env priv s pskb =
      if (priv.update env (s.view.inner f.vlan)).1 = true then
        (t.handle env priv.hwaddr f.vlan.isSome hdr).map fun r =>
          (r.1, (priv.update env (s.view.inner f.vlan)).2, r.2)
      else some ((t.finish env priv.hwaddr f.vlan.isSome hdr).1, (priv.update env (s.view.inner f.vlan)).2,
        (t.finish env priv.hwaddr f.vlan.isSome hdr).2) := by
  have at_ := @start_at s pskb f same
  have view := at_.view
  refine ⟨_, _, at_, ?_⟩
  rw [brClientTx, if_neg (by rw [long]; decide)]
  simp only [protocol_tagged same, view]

/-- With 0 the frame is reshaped or was let go behind an insertion; with -1 there is one `sk_buff`. -/
theorem brClientTx_spec {priv' : BrPriv} (same : s.view.frame = f.bytes)
    (result : brClientTx env priv s pskb = some (res, priv', t)) :
    t.held = [t.pskb] ∧ (res = 0 → Reshaped env priv.hwaddr f (s.view.inner f.vlan) t ∨
      InsertIgnored env priv s.view (s.view.inner f.vlan) ∧
        ∃ res w, env.nat25.insert (s.view.inner f.vlan) = some (res, w) ∧ res < 0 ∧ t.skb.view = w) := by
  have headed := (LinearSkb.Headed.of_frame (inner_frame same)).1
  cases short : priv.shortcut env s.view with
  | true =>
      have plain : f.vlan = none := by
        have tagged := protocol_tagged same
        simp only [BrPriv.shortcut, Bool.and_eq_true, decide_eq_true_eq] at short
        rw [decide_eq_false short.1.1.1.2] at tagged
        exact Option.not_isSome_iff_eq_none.mp (by rw [← tagged]; decide)
      rw [brClientTx, if_pos short] at result
      cases result
      refine ⟨rfl, fun _ => .inl ⟨_, _, .inl rfl, .inl rfl, ?_⟩⟩
      rw [plain] at headed ⊢
      have frame := (@LinearSkb.Headed.withSrc _ _ _ priv.hwaddr _ headed).frame
      rw [payload_withSrc] at frame
      rw [setSrc_view]
      exact frame
  | false =>
      obtain ⟨t₀, hdr, at_, run⟩ := @brClientTx_eq env priv s pskb f same short
      rw [run] at result
      split at result
      next goes =>
        obtain ⟨⟨res₀, t₁⟩, handled, equal⟩ := Option.map_eq_some_iff.mp result
        obtain ⟨held, zero⟩ := handle_spec at_ headed handled
        cases equal
        refine ⟨held, fun none_ => (zero none_).imp_right ?_⟩
        rintro ⟨copies, linear, res, w, inserted, negative, other, view⟩
        exact ⟨⟨short, goes, copies, linear, res, w, inserted, negative, other⟩, res, w, inserted, negative,
          view⟩
      next =>
        obtain ⟨out, finished, held, frame⟩ :=
          @finish_spec env t₀ f.vlan _ hdr priv.hwaddr f.dst f.src f.proto at_ headed
        rw [finished] at result
        cases result
        exact ⟨held, fun _ => .inl ⟨_, _, .inl rfl, .inr rfl, frame⟩⟩

/-- A frame that is let go is reshaped exactly if it has no tag and is the station's own. -/
theorem reshaped_ignored_iff {w : LinearSkb} (same : s.view.frame = f.bytes)
    (inserted : env.nat25.insert (s.view.inner f.vlan) = some (res, w)) (negative : res < 0) (view : t.skb.view = w) :
    Reshaped env hwaddr f (s.view.inner f.vlan) t ↔ f.vlan = none ∧ f.src = hwaddr := by
  have headed := (LinearSkb.Headed.of_frame (inner_frame same)).1
  have kept := env.nat25.keeps inserted
  have frame := (headed.kept kept.1).frame
  have shorter : w.len ≤ (s.view.inner f.vlan).len := kept.2 negative
  constructor
  · rintro ⟨v, x, first, second, out⟩
    rw [view, frame] at out
    have len : x.len = v.len := by
      rcases second with rfl | rfl
      · rfl
      · rfl
    have long : w.len ≤ v.len := by
      rcases first with rfl | ⟨res', inserted'⟩
      · exact shorter
      · rw [inserted] at inserted'
        cases inserted'
        exact Nat.le_refl _
    have long : w.payload.length ≤ x.payload.length := by
      rw [LinearSkb.payload, LinearSkb.payload, length_bytesAt, length_bytesAt, len]
      exact Nat.sub_le_sub_right long _
    have lengths := congrArg List.length out
    rw [length_ethBytes, length_ethBytes] at lengths
    cases vlan : f.vlan with
    | none =>
        rw [vlan] at out
        have macs := (List.append_inj out ((length_macs _ _).trans (length_macs _ _).symm)).1
        exact ⟨rfl, List.ofFn_injective (List.append_cancel_left macs)⟩
    | some tci =>
        rw [vlan] at lengths
        simp only [Option.elim] at lengths
        omega
  · rintro ⟨plain, rfl⟩
    refine ⟨w, w, .inr ⟨res, inserted⟩, .inl rfl, ?_⟩
    rw [view, plain, frame]

/-- A sound transmission lets nothing go that there is something to do with. -/
theorem txFits_of_sound (same : s.view.frame = f.bytes) (sound : TxSound env priv s pskb f) : TxFits env priv s f := by
  rintro ⟨short, goes, copies, linear, res, w, inserted, negative, other⟩
  obtain ⟨t, hdr, at_, run⟩ := @brClientTx_eq env priv s pskb f same short
  obtain ⟨t', handled, view⟩ :=
    @handle_ignored env t f.vlan _ w hdr priv.hwaddr res at_ copies linear inserted negative other
  rw [if_pos goes, handled] at run
  exact (reshaped_ignored_iff same inserted negative view).mp ((sound _ _ _ run).1 rfl)

end Run

/-- A transmission is sound exactly if no insertion is let go, or there is no tag and the frame is the station's own. -/
theorem client_tx_sound_iff {env : TxEnv} {priv : BrPriv} {s : SkBuff} {pskb : Nat} {f : EthFrame}
    (same : s.view.frame = f.bytes) : TxSound env priv s pskb f ↔ TxFits env priv s f := by
  refine ⟨txFits_of_sound same, fun fits res priv' t result => ?_⟩
  obtain ⟨held, zero⟩ := brClientTx_spec same result
  refine ⟨fun none_ => ?_, fun _ => held⟩
  rcases zero none_ with reshaped | ⟨ignored, res, w, inserted, negative, view⟩
  · exact reshaped
  · exact (reshaped_ignored_iff same inserted negative view).mpr (fits ignored)

/-! ## Two frames -/

/-- A buffer with a frame. -/
def inBuffer (f : EthFrame) : SkBuff := ⟨fun k => f.bytes.getD k 0, 0, f.bytes.length, 0⟩

theorem inBuffer_frame (f : EthFrame) : (inBuffer f).view.frame = f.bytes := by
  apply List.ext_getElem
  · exact length_bytesAt _ _ _
  · intro k inside inside'
    simp only [LinearSkb.frame, bytesAt, List.getElem_map, List.getElem_range]
    show f.bytes.getD (0 + (0 + k)) 0 = _
    rw [Nat.zero_add, Nat.zero_add, List.getD_eq_getElem _ _ inside']

/-- A station of which nothing is known. -/
def station : Nat25Env := ⟨.little, plainChecksum .little, fun _ => 0, fun _ => 2, ⟨false, 0, []⟩⟩

def stationTx : TxEnv where
  o := .little
  dhcpBcstDisable := false
  brPort := true
  jiffies := 0
  findEntry _ _ := none
  nat25 := nat25 station 1
  copies := true
  linearizeRes := 0

def stationPriv : BrPriv := ⟨fun _ => 2, List.replicate 6 4, [], List.replicate 6 0, [], none, fun _ => 0⟩

/-- A frame of a client of the bridge, in VLAN 100. -/
def tagged (proto : UInt16) : EthFrame := ⟨fun _ => 8, fun _ => 6, some 100, proto, [0, 0], fun no => nomatch no⟩

/-- What `nat25_db_handle` sees of it. -/
def untaggedView (proto : UInt16) : LinearSkb := (inBuffer (tagged proto)).view.inner (some 100)

theorem untaggedView_protocol (proto : UInt16) : (untaggedView proto).protocol = proto :=
  (LinearSkb.Headed.of_frame (inner_frame (inBuffer_frame (tagged proto)))).1.protocol

/-- An EAP frame goes out with the station's address and its tag. -/
theorem tagged_eap_reshaped : TxSound stationTx stationPriv (inBuffer (tagged ethPPae)) 0 (tagged ethPPae) := by
  refine (client_tx_sound_iff (inBuffer_frame _)).mpr ?_
  rintro ⟨-, -, -, -, res, w, inserted, negative, -⟩
  have done : station.insert 1 (untaggedView ethPPae) = some (0, untaggedView ethPPae) := by
    rw [Nat25Env.insert, untaggedView_protocol]
    rfl
  have zero : (res, w) = (0, untaggedView ethPPae) := Option.some.inj (inserted.symm.trans done)
  cases zero
  exact absurd negative (Int.lt_irrefl 0)

/-- An LLDP frame, whose protocol is not supported, goes out with the client's address and without its tag. -/
theorem tagged_lldp_stripped : ¬TxSound stationTx stationPriv (inBuffer (tagged 0x88cc)) 0 (tagged 0x88cc) := by
  intro sound
  have refused : station.insert 1 (untaggedView 0x88cc) = some (-1, untaggedView 0x88cc) := by
    rw [Nat25Env.insert, untaggedView_protocol]
    rfl
  have goes : (stationPriv.update stationTx (untaggedView 0x88cc)).1 = true := by
    rw [BrPriv.update, BrPriv.updateScdb, untaggedView_protocol]
    rfl
  have fits := txFits_of_sound (inBuffer_frame _) sound
  exact absurd (fits ⟨by decide, goes, fun _ => rfl, by decide, -1, _, refused, by decide, by decide⟩).1 (by decide)

end Vmac.Bridge
