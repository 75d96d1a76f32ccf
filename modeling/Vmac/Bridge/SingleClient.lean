/-
# Vmac.Bridge.SingleClient -- the client that sent last: rtw_xmit.c, rtw_br_ext.c

`rtw_br_client_tx` keeps one client with its address and its entry.  A packet of this client is not learnt again, its
entry is made young, and `nat25_handle_frame` sends what is for the address to the client without a lookup.  No one looks
whether the packet has the address that is kept, or the entry the client.

* `Db.clientTx`, `Db.handleFrame`: the two functions, with the table.
* `OneAddress`: each client has one address, and each address one client.
* `single_client_delivers`: then a received packet goes to the client that has used its address in the last 300 seconds.
-/
import Vmac.Bridge.Delivery

namespace Vmac.Bridge

open Security Transmit Theory.Hash Theory.Run

set_option autoImplicit false

variable {w : Nat}

/-- What a transmission depends on: the bridge and its address, memory for an entry, whether an `sk_buff` can be copied
and what `skb_linearize` returns. -/
structure ClientTxEnv where
  brPort : Bool
  brMac : List UInt8
  malloc : Bool
  copies : Bool
  linearizeRes : Int

namespace Db

variable (s : Db w)

/-- `scdb_entry->ageing_timer = jiffies`. -/
def touch (networkAddr : NetworkAddr) : Db w := s.change networkAddr fun db => { db with ageingTimer := s.jiffies }

/-- The test at the beginning of `rtw_br_client_tx`, whether there is an entry apart. -/
def isScdb (env : ClientTxEnv) (tagged : Bool) (v : LinearSkb) : Bool :=
  v.data 0 &&& 1 = 0 && env.brPort && v.src ≠ env.brMac && !tagged && v.protocol = ethPIp && s.scdbMac = v.src

/-- `do_nat25`, and what is kept of the client; `scdb_findEntry` searches as `__nat25_db_network_insert` does. -/
def updateScdb (v : LinearSkb) : Bool × Db w :=
  if v.protocol = ethPIp then
    if s.scdbMac ≠ v.src then
      match s.entry (ipv4NetworkAddr v.ipSaddr) with
      | some _ =>
          (false, { s.touch (ipv4NetworkAddr v.ipSaddr) with
            scdbEntry := some (ipv4NetworkAddr v.ipSaddr)
            scdbMac := v.src
            scdbIp := v.ipSaddr })
      | none => (true, { s with scdbEntry := none })
    else
      match s.scdbEntry with
      | some networkAddr => (false, s.touch networkAddr)
      | none => (true, { s with scdbMac := List.replicate 6 0, scdbIp := List.replicate 4 0 })
  else (true, s)

/-- The frame comes to `nat25_db_handle` with `NAT25_INSERT`. -/
def inserts (env : ClientTxEnv) (v : LinearSkb) : Bool :=
  (v.nat25Check ≠ 0 || env.copies) && 0 ≤ env.linearizeRes

/-- The frame of a client that is not kept, or has no entry. -/
def learn (nat25 : Nat25Env) (hz : Nat) (env : ClientTxEnv) (v : LinearSkb) : Db w :=
  let updated := s.updateScdb v
  if updated.1 ∧ inserts env v then updated.2.handle nat25 hz (.transmit env.malloc v) else updated.2

/-- `rtw_br_client_tx`, as far as the table is concerned, for a frame whose VLAN tag is out of it. -/
def clientTx (nat25 : Nat25Env) (hz : Nat) (env : ClientTxEnv) (tagged : Bool) (v : LinearSkb) : Db w :=
  match s.scdbEntry with
  | some networkAddr => if s.isScdb env tagged v then s.touch networkAddr else s.learn nat25 hz env v
  | none => s.learn nat25 hz env v

/-- `nat25_handle_frame` with `nat25_disable` clear, for a frame whose VLAN tag is out of it. -/
def handleFrame (env : LookupEnv) (nat25scDisable : Bool) (v : LinearSkb) : Int × Db w × LinearSkb :=
  if v.data 0 &&& 1 = 0 then
    if !nat25scDisable && v.protocol = ethPIp && s.scdbIp = v.ipDaddr then (0, s, v.setDst s.scdbMac)
    else s.handleLookup env v
  else (0, s, v)

end Db

/-! ## The frame and the table -/

section Mirror

variable {env : TxEnv} {priv : BrPriv} {s : Db w} {place : NetworkAddr → Nat}

/-- What `rtw_br_client_tx` keeps of the client, with the entries where they are in memory. -/
structure Mirrors (place : NetworkAddr → Nat) (priv : BrPriv) (s : Db w) : Prop where
  mac : priv.scdbMac = s.scdbMac
  ip : priv.scdbIp = s.scdbIp
  entry : priv.scdbEntry = s.scdbEntry.map place

theorem Mirrors.handle (mirrors : Mirrors place priv s) (nat25 : Nat25Env) (hz : Nat) (malloc : Bool) (v : LinearSkb) :
    Mirrors place priv (s.handle nat25 hz (.transmit malloc v)) := by
  rw [Db.handle]
  cases v.insertedAddr nat25 with
  | none => exact mirrors
  | some networkAddr =>
      rw [Option.map_some, Option.getD_some, Db.insert]
      split
      · exact ⟨mirrors.mac, mirrors.ip, mirrors.entry⟩
      · split
        · exact ⟨mirrors.mac, mirrors.ip, mirrors.entry⟩
        · exact mirrors

variable (finds : ∀ mac ip, env.findEntry mac ip = (s.entry (ipv4NetworkAddr ip)).map fun _ => place (ipv4NetworkAddr ip))
include finds

theorem Mirrors.update (mirrors : Mirrors place priv s) (v : LinearSkb) :
    (priv.update env v).1 = (s.updateScdb v).1 ∧ Mirrors place (priv.update env v).2 (s.updateScdb v).2 := by
  have noted : Mirrors place (priv.noteBrIp v) s := by
    rw [BrPriv.noteBrIp]
    split
    · exact ⟨mirrors.mac, mirrors.ip, mirrors.entry⟩
    · exact mirrors
  rw [BrPriv.update, BrPriv.updateScdb, Db.updateScdb, noted.mac, noted.entry, finds]
  split
  · split
    · cases s.entry (ipv4NetworkAddr v.ipSaddr) with
      | none => exact ⟨rfl, rfl, noted.ip, rfl⟩
      | some db => exact ⟨rfl, rfl, rfl, rfl⟩
    · cases kept : s.scdbEntry with
      | none => exact ⟨rfl, rfl, rfl, rfl⟩
      | some networkAddr => exact ⟨rfl, noted.mac, noted.ip, noted.entry⟩
  · exact ⟨rfl, noted⟩

/-- What `rtw_br_client_tx` keeps of the client is what `Db.clientTx` keeps. -/
theorem brClientTx_mirrors (mirrors : Mirrors place priv s) {skb : SkBuff} {pskb : Nat} {r : Int × BrPriv × Tx}
    (run : brClientTx env priv skb pskb = some r) (nat25 : Nat25Env) (hz : Nat) (malloc : Bool) :
    Mirrors place r.2.1 (s.clientTx nat25 hz ⟨env.brPort, priv.brMac, malloc, env.copies, env.linearizeRes⟩
      (skb.view.protocol = ethP8021q) (if skb.view.protocol = ethP8021q then skb.stripVlan else skb).view) := by
  have shortcut (untagged : skb.view.protocol ≠ ethP8021q) : priv.shortcut env skb.view =
      (s.isScdb ⟨env.brPort, priv.brMac, malloc, env.copies, env.linearizeRes⟩ false skb.view && s.scdbEntry.isSome) := by
    rw [BrPriv.shortcut, Db.isScdb, mirrors.mac, mirrors.entry, Option.isSome_map]
    simp [untagged]
  have learnt (v : LinearSkb) (here : r.2.1 = (priv.update env v).2) :
      Mirrors place r.2.1 (s.learn nat25 hz ⟨env.brPort, priv.brMac, malloc, env.copies, env.linearizeRes⟩ v) := by
    rw [here, Db.learn]
    have updated := (mirrors.update finds v).2
    dsimp only
    split
    · exact updated.handle nat25 hz malloc v
    · exact updated
  rw [brClientTx] at run
  by_cases short : priv.shortcut env skb.view = true
  · have untagged : skb.view.protocol ≠ ethP8021q := by
      simp only [BrPriv.shortcut, Bool.and_eq_true, decide_eq_true_eq] at short
      exact short.1.1.1.2
    rw [if_pos short] at run
    cases run
    rw [shortcut untagged, Bool.and_eq_true] at short
    obtain ⟨networkAddr, kept⟩ := Option.isSome_iff_exists.mp short.2
    rw [Db.clientTx, kept, if_neg untagged, decide_eq_false untagged]
    dsimp only
    rw [if_pos short.1, mirrors.entry, kept]
    exact ⟨mirrors.mac, mirrors.ip, mirrors.entry⟩
  · rw [if_neg short] at run
    have learns : s.clientTx nat25 hz ⟨env.brPort, priv.brMac, malloc, env.copies, env.linearizeRes⟩
        (skb.view.protocol = ethP8021q) (if skb.view.protocol = ethP8021q then skb.stripVlan else skb).view =
        s.learn nat25 hz ⟨env.brPort, priv.brMac, malloc, env.copies, env.linearizeRes⟩
          (if skb.view.protocol = ethP8021q then skb.stripVlan else skb).view := by
      rw [Db.clientTx]
      cases kept : s.scdbEntry with
      | none => rfl
      | some networkAddr =>
          refine if_neg fun isScdb => short ?_
          by_cases tagged : skb.view.protocol = ethP8021q
          · rw [decide_eq_true tagged] at isScdb
            simp [Db.isScdb] at isScdb
          · rw [decide_eq_false tagged, if_neg tagged] at isScdb
            rw [shortcut tagged, isScdb, kept]
            rfl
    rw [learns]
    refine learnt _ ?_
    simp only [decide_eq_true_eq] at run
    generalize (if skb.view.protocol = ethP8021q then skb.stripVlan else skb) = stripped at run ⊢
    by_cases inserts : (priv.update env stripped.view).1 = true
    · rw [if_pos inserts] at run
      obtain ⟨r', -, rfl⟩ := Option.map_eq_some_iff.mp run
      rfl
    · rw [if_neg inserts] at run
      cases run
      rfl

end Mirror

/-- What happens at the bridge. -/
inductive ClientEvent
  | transmit (env : ClientTxEnv) (tagged : Bool) (v : LinearSkb)
  | receive (env : LookupEnv) (nat25scDisable : Bool) (v : LinearSkb)
  | expire
  | pass (n : Nat)

def Db.clientStep (nat25 : Nat25Env) (hz : Nat) (s : Db w) : ClientEvent → Db w
  | .transmit env tagged v => s.clientTx nat25 hz env tagged v
  | .receive env nat25scDisable v => (s.handleFrame { env with hz := hz } nat25scDisable v).2.1
  | .expire => s.expire hz
  | .pass n => s.pass n

/-! ## Clients with one address -/

/-- No client has two addresses, and no address two clients. -/
def OneAddress (uses : List UInt8 → List UInt8 → Prop) : Prop :=
  ∀ ⦃mac ip mac' ip'⦄, uses mac ip → uses mac' ip' → (mac = mac' ↔ ip = ip')

/-- `INADDR_ANY`. -/
def anyIp : List UInt8 := List.replicate 4 0

/-- A client sends from its address, or before it has one no ARP message; there is memory. -/
def ClientEvent.Obeys (nat25 : Nat25Env) (uses : List UInt8 → List UInt8 → Prop) : ClientEvent → Prop
  | .transmit env _ v =>
      (env.malloc = true ∧ env.copies = true ∧ 0 ≤ env.linearizeRes) ∧
        (v.protocol = ethPIp → v.ipSaddr ≠ anyIp → uses v.src v.ipSaddr) ∧
        ∀ ip, v.insertedAddr nat25 = some (ipv4NetworkAddr ip) → ip ≠ anyIp ∧ uses v.src ip
  | .receive _ _ _ => True
  | .expire => True
  | .pass _ => True

/-- The client that has sent from an address last, and how long ago that is. -/
def lastSender (nat25 : Nat25Env) (ip : List UInt8) : Option (List UInt8 × Nat) → ClientEvent → Option (List UInt8 × Nat)
  | last, .transmit _ _ v => if v.insertedAddr nat25 = some (ipv4NetworkAddr ip) then some (v.src, 0) else last
  | last, .pass n => last.map fun sender => (sender.1, sender.2 + n)
  | last, .receive _ _ _ => last
  | last, .expire => last

/-- Clients, with the address of each and how long ago it was used last. -/
abbrev Senders := List UInt8 → Option (List UInt8 × Nat)

/-- The table and the client that is kept are right, and what is of use is in the table. -/
structure Attends (uses : List UInt8 → List UInt8 → Prop) (hz : Nat) (s : Db w) (last : Senders) : Prop where
  sound : Sound nat25NetworkHash DbEntry.networkAddr s.nethash
  owned : ∀ ip db, s.entry (ipv4NetworkAddr ip) = some db → ip ≠ anyIp ∧ uses db.macAddr ip
  sent : ∀ ip sender, last ip = some sender → ip ≠ anyIp ∧ uses sender.1 ip ∧ sender.1.length = 6
  recent : ∀ ip sender, last ip = some sender → sender.2 < ageing hz →
    ∃ db, s.entry (ipv4NetworkAddr ip) = some db ∧ ∃ age ≤ sender.2, s.jiffies - db.ageingTimer = BitVec.ofNat _ age
  single : ∀ networkAddr, s.scdbEntry = some networkAddr →
    networkAddr = ipv4NetworkAddr s.scdbIp ∧ (s.entry networkAddr).isSome
  scdb : s.scdbIp ≠ anyIp → uses s.scdbMac s.scdbIp

section Step

variable {nat25 : Nat25Env} {uses : List UInt8 → List UInt8 → Prop} {hz : Nat} {s : Db w} {last : Senders}

/-- An entry is made young or left; it has the client of its address. -/
theorem Attends.change (attends : Attends uses hz s last) {f : DbEntry w → DbEntry w} {networkAddr : NetworkAddr}
    (keeps : ∀ db, (f db).networkAddr = db.networkAddr)
    (timer : ∀ db, (f db).ageingTimer = db.ageingTimer ∨ (f db).ageingTimer = s.jiffies)
    (user : ∀ ip db, s.entry (ipv4NetworkAddr ip) = some db → networkAddr = ipv4NetworkAddr ip → uses (f db).macAddr ip) :
    Attends uses hz (s.change networkAddr f) last := by
  refine ⟨attends.sound.update keeps networkAddr, fun ip db found => ?_, attends.sent, fun ip sender used young => ?_,
    fun own kept => ?_, attends.scdb⟩
  · rw [entry_change keeps] at found
    split at found
    next same =>
      rw [← same] at found
      obtain ⟨old, before, rfl⟩ := Option.map_eq_some_iff.mp found
      exact ⟨(attends.owned ip old before).1, user ip old before same.symm⟩
    next => exact attends.owned ip db found
  · obtain ⟨db, found, age, younger, since⟩ := attends.recent ip sender used young
    rw [entry_change keeps]
    split
    next same =>
      rw [← same, found]
      refine ⟨f db, rfl, ?_⟩
      rcases timer db with left | now
      · exact ⟨age, younger, by rw [left]; exact since⟩
      · exact ⟨0, Nat.zero_le _, by rw [now]; exact BitVec.sub_self _⟩
    next => exact ⟨db, found, age, younger, since⟩
  · obtain ⟨same, there⟩ := attends.single own kept
    refine ⟨same, ?_⟩
    rw [entry_change keeps]
    split
    next here => rw [Option.isSome_map, ← here]; exact there
    next => exact there

theorem Attends.touch (attends : Attends uses hz s last) (networkAddr : NetworkAddr) :
    Attends uses hz (s.touch networkAddr) last :=
  attends.change (f := fun db => { db with ageingTimer := s.jiffies }) (fun _ => rfl) (fun _ => .inr rfl)
    fun ip db found _ => (attends.owned ip db found).2

/-- A frame has been sent from an address, whose entry is young. -/
theorem Attends.hear (attends : Attends uses hz s last) {own : Option NetworkAddr} {mac : List UInt8} (six : mac.length = 6)
    (young : ∀ ip, own = some (ipv4NetworkAddr ip) → uses mac ip ∧
      ∃ db, s.entry (ipv4NetworkAddr ip) = some db ∧ db.ageingTimer = s.jiffies) :
    Attends uses hz s fun ip => if own = some (ipv4NetworkAddr ip) then some (mac, 0) else last ip := by
  refine ⟨attends.sound, attends.owned, fun ip sender used => ?_, fun ip sender used fresh => ?_, attends.single,
    attends.scdb⟩
  · split at used
    next here =>
      cases used
      obtain ⟨user, db, found, -⟩ := young ip here
      exact ⟨(attends.owned ip db found).1, user, six⟩
    next => exact attends.sent ip sender used
  · split at used
    next here =>
      cases used
      obtain ⟨-, db, found, now⟩ := young ip here
      exact ⟨db, found, 0, Nat.le_refl 0, by rw [now]; exact BitVec.sub_self _⟩
    next => exact attends.recent ip sender used fresh

/-- The entry that is touched is young. -/
theorem touch_young {networkAddr : NetworkAddr} (there : (s.entry networkAddr).isSome) :
    ∃ db, (s.touch networkAddr).entry networkAddr = some db ∧ db.ageingTimer = (s.touch networkAddr).jiffies := by
  obtain ⟨db, found⟩ := Option.isSome_iff_exists.mp there
  refine ⟨{ db with ageingTimer := s.jiffies }, ?_, rfl⟩
  rw [Db.touch, entry_change (f := fun db => { db with ageingTimer := s.jiffies }) fun _ => rfl, if_pos rfl, found]
  rfl

/-- A packet of a client with an entry, which is touched. -/
theorem Attends.touched (attends : Attends uses hz s last) (oneAddress : OneAddress uses) {own : Option NetworkAddr}
    {mac ip : List UInt8} (six : mac.length = 6) (there : (s.entry (ipv4NetworkAddr ip)).isSome) (user : uses mac ip)
    (sends : ∀ ip', own = some (ipv4NetworkAddr ip') → uses mac ip') :
    Attends uses hz (s.touch (ipv4NetworkAddr ip)) fun ip => if own = some (ipv4NetworkAddr ip) then some (mac, 0) else last ip := by
  refine (attends.touch _).hear six fun ip' same => ⟨sends ip' same, ?_⟩
  have here : ip' = ip := (oneAddress (sends ip' same) user).mp rfl
  rw [here]
  exact touch_young there

/-- A new entry. -/
theorem Attends.link (attends : Attends uses hz s last) {networkAddr : NetworkAddr} {mac : List UInt8}
    (absent : s.entry networkAddr = none) (user : ∀ ip, networkAddr = ipv4NetworkAddr ip → ip ≠ anyIp ∧ uses mac ip)
    {linked : Db w} (isLinked : linked = { s with
      nethash := link nat25NetworkHash DbEntry.networkAddr s.nethash ⟨networkAddr, mac, 1, s.jiffies⟩ }) :
    Attends uses hz linked last ∧ linked.entry networkAddr = some ⟨networkAddr, mac, 1, s.jiffies⟩ := by
  have entries (own : NetworkAddr) :
      linked.entry own = if own = networkAddr then some ⟨networkAddr, mac, 1, s.jiffies⟩ else s.entry own := by
    rw [isLinked]
    exact find_link ..
  refine ⟨⟨?_, fun ip db there => ?_, attends.sent, fun ip sender used young => ?_, fun own kept => ?_, ?_⟩,
    (entries _).trans (if_pos rfl)⟩
  · rw [isLinked]
    exact attends.sound.link (by exact absent)
  · rw [entries] at there
    split at there
    next same =>
      cases there
      exact user ip same.symm
    next => exact attends.owned ip db there
  · obtain ⟨db, there, since⟩ := attends.recent ip sender used young
    have other : ipv4NetworkAddr ip ≠ networkAddr := fun same => by
      rw [same, absent] at there
      cases there
    refine ⟨db, by rw [entries, if_neg other]; exact there, ?_⟩
    rw [isLinked]
    exact since
  · rw [isLinked] at kept ⊢
    obtain ⟨same, there⟩ := attends.single own kept
    refine ⟨same, ?_⟩
    rw [← isLinked, entries]
    split
    · rfl
    · exact there
  · rw [isLinked]
    exact attends.scdb

/-- A frame that is learnt. -/
theorem Attends.insert (attends : Attends uses hz s last) {mac : List UInt8} (six : mac.length = 6)
    {own : Option NetworkAddr} (sends : ∀ ip, own = some (ipv4NetworkAddr ip) → ip ≠ anyIp ∧ uses mac ip) :
    Attends uses hz ((own.map (s.insert true mac)).getD s)
      fun ip => if own = some (ipv4NetworkAddr ip) then some (mac, 0) else last ip := by
  cases own with
  | none => simpa using attends
  | some networkAddr =>
      have user (ip : List UInt8) (same : networkAddr = ipv4NetworkAddr ip) : ip ≠ anyIp ∧ uses mac ip :=
        sends ip (congrArg some same)
      rw [Option.map_some, Option.getD_some, Db.insert]
      cases found : s.entry networkAddr with
      | none =>
          obtain ⟨linked, there⟩ := attends.link found user rfl
          refine linked.hear six fun ip same => ?_
          cases same
          exact ⟨(user ip rfl).2, _, there, rfl⟩
      | some db =>
          refine Attends.hear (attends.change (f := fun db => { db with macAddr := mac, ageingTimer := s.jiffies })
            (fun _ => rfl) (fun _ => .inr rfl) fun ip _ _ same => (user ip same).2) six fun ip same => ?_
          cases same
          refine ⟨(user ip rfl).2, { db with macAddr := mac, ageingTimer := s.jiffies }, ?_, rfl⟩
          rw [entry_change (f := fun db => { db with macAddr := mac, ageingTimer := s.jiffies }) fun _ => rfl, if_pos rfl, found]
          rfl

/-- What is kept of the client is forgotten, or is made that of a packet. -/
theorem Attends.keep (attends : Attends uses hz s last) {scdbMac scdbIp : List UInt8} {scdbEntry : Option NetworkAddr}
    (single : ∀ networkAddr, scdbEntry = some networkAddr →
      networkAddr = ipv4NetworkAddr scdbIp ∧ (s.entry networkAddr).isSome)
    (scdb : scdbIp ≠ anyIp → uses scdbMac scdbIp) :
    Attends uses hz { s with scdbMac := scdbMac, scdbIp := scdbIp, scdbEntry := scdbEntry } last :=
  ⟨attends.sound, attends.owned, attends.sent, attends.recent, single, scdb⟩

section Transmit

variable {env : ClientTxEnv} {tagged : Bool} {v : LinearSkb}

/-- The entry of the client that is kept is touched for one of its packets. -/
theorem Attends.short (attends : Attends uses hz s last) (oneAddress : OneAddress uses)
    (obeys : (ClientEvent.transmit env tagged v).Obeys nat25 uses) {networkAddr : NetworkAddr}
    (kept : s.scdbEntry = some networkAddr) (same : s.scdbMac = v.src) :
    Attends uses hz (s.touch networkAddr) fun ip =>
      if v.insertedAddr nat25 = some (ipv4NetworkAddr ip) then some (v.src, 0) else last ip := by
  obtain ⟨rfl, there⟩ := attends.single networkAddr kept
  obtain ⟨db, found⟩ := Option.isSome_iff_exists.mp there
  have user := attends.scdb (attends.owned _ db found).1
  rw [same] at user
  exact attends.touched oneAddress (length_bytesAt ..) there user fun ip own => (obeys.2.2 ip own).2

theorem Attends.learn (attends : Attends uses hz s last) (oneAddress : OneAddress uses)
    (obeys : (ClientEvent.transmit env tagged v).Obeys nat25 uses) :
    Attends uses hz (s.learn nat25 hz env v) fun ip =>
      if v.insertedAddr nat25 = some (ipv4NetworkAddr ip) then some (v.src, 0) else last ip := by
  obtain ⟨⟨malloc, copies, linear⟩, sends, inserted⟩ := obeys
  have six : v.src.length = 6 := length_bytesAt ..
  have goes : Db.inserts env v = true := by simp [Db.inserts, copies, linear]
  have learnt {s' : Db w} (attends : Attends uses hz s' last) :
      Attends uses hz (s'.handle nat25 hz (.transmit env.malloc v)) fun ip =>
        if v.insertedAddr nat25 = some (ipv4NetworkAddr ip) then some (v.src, 0) else last ip := by
    rw [malloc]
    exact attends.insert six inserted
  rw [Db.learn, Db.updateScdb]
  by_cases ip : v.protocol = ethPIp
  · rw [if_pos ip]
    by_cases other : s.scdbMac ≠ v.src
    · rw [if_pos other]
      cases found : s.entry (ipv4NetworkAddr v.ipSaddr) with
      | none =>
          rw [if_pos ⟨rfl, goes⟩]
          refine learnt (attends.keep ?_ attends.scdb)
          intro networkAddr no
          cases no
      | some db =>
          have there : (s.entry (ipv4NetworkAddr v.ipSaddr)).isSome := by rw [found]; rfl
          have user := sends ip (attends.owned _ db found).1
          rw [if_neg fun no => Bool.false_ne_true no.1]
          refine (attends.touched oneAddress six there user fun ip own => (inserted ip own).2).keep
            (fun networkAddr kept => ?_) fun _ => user
          cases kept
          obtain ⟨db', young, -⟩ := touch_young there
          exact ⟨rfl, by rw [young]; rfl⟩
    · rw [if_neg other]
      cases kept : s.scdbEntry with
      | none =>
          rw [if_pos ⟨rfl, goes⟩]
          refine learnt (attends.keep ?_ fun no => absurd rfl no)
          intro networkAddr no
          cases no
      | some networkAddr =>
          rw [if_neg fun no => Bool.false_ne_true no.1]
          have obeys : (ClientEvent.transmit env tagged v).Obeys nat25 uses := ⟨⟨malloc, copies, linear⟩, sends, inserted⟩
          exact attends.short oneAddress obeys kept (not_not.mp other)
  · rw [if_neg ip, if_pos ⟨rfl, goes⟩]
    exact learnt attends

theorem Attends.transmit (attends : Attends uses hz s last) (oneAddress : OneAddress uses)
    (obeys : (ClientEvent.transmit env tagged v).Obeys nat25 uses) :
    Attends uses hz (s.clientTx nat25 hz env tagged v) fun ip =>
      if v.insertedAddr nat25 = some (ipv4NetworkAddr ip) then some (v.src, 0) else last ip := by
  rw [Db.clientTx]
  cases kept : s.scdbEntry with
  | none => exact attends.learn oneAddress obeys
  | some networkAddr =>
      dsimp only
      split
      next isScdb =>
        simp only [Db.isScdb, Bool.and_eq_true, decide_eq_true_eq] at isScdb
        exact attends.short oneAddress obeys kept isScdb.2
      next => exact attends.learn oneAddress obeys

end Transmit

/-- A received frame gives its entry a use. -/
theorem Attends.receive (attends : Attends uses hz s last) (env : LookupEnv) (nat25scDisable : Bool) (v : LinearSkb) :
    Attends uses hz (s.handleFrame env nat25scDisable v).2.1 last := by
  have looked (own : NetworkAddr) : Attends uses hz (s.lookup env.hz own).1 last := by
    rw [Db.lookup]
    cases s.entry own with
    | none => exact attends
    | some db =>
        dsimp only
        split
        · exact attends
        · exact attends.change (f := fun db => { db with useCount := db.useCount + 1 }) (fun _ => rfl) (fun _ => .inl rfl)
            fun ip db found _ => (attends.owned ip db found).2
  rw [Db.handleFrame]
  split
  · split
    · exact attends
    · rw [handleLookup_db]
      cases v.lookedUpAddr with
      | none => exact attends
      | some own => exact looked own
  · exact attends

/-- An entry that is young is kept by `nat25_db_expire`. -/
theorem aged_young {db : DbEntry w} {age : Nat} (since : s.jiffies - db.ageingTimer = BitVec.ofNat _ age)
    (young : age < ageing hz) (long : ageing hz ≤ 2 ^ w) : s.hasExpired hz db = false := by
  have records : Records s.jiffies db ⟨db.macAddr, age, db.useCount.toNat⟩ :=
    ⟨rfl, since, by simp⟩
  rw [hasExpired_iff records (young.trans_le long) long, Client.fresh]
  simpa using young

/-- The client that is kept is forgotten, or its entry is not freed. -/
theorem expire_scdb (hz : Nat) (s : Db w) :
    ((s.expire hz).scdbEntry = none ∧ (s.expire hz).scdbIp = anyIp) ∨
      (∀ db, s.scdbEntry.bind s.entry = some db → (s.aged hz db).isSome) ∧ (s.expire hz).scdbEntry = s.scdbEntry ∧
        (s.expire hz).scdbMac = s.scdbMac ∧ (s.expire hz).scdbIp = s.scdbIp := by
  cases forgets : s.forgetsScdb fun db => (s.aged hz db).isNone with
  | true =>
      left
      simp only [Db.expire, forgets, if_true, anyIp, and_self]
  | false =>
      right
      simp only [Db.expire, forgets, Bool.false_eq_true, if_false, and_self, and_true]
      intro db found
      rw [Db.forgetsScdb, found] at forgets
      exact Option.isNone_eq_false_iff.mp forgets

theorem Attends.expire (attends : Attends uses hz s last) (long : ageing hz ≤ 2 ^ w) :
    Attends uses hz (s.expire hz) last := by
  have entries (own : NetworkAddr) : (s.expire hz).entry own = (s.entry own).bind (s.aged hz) :=
    entry_expire attends.sound own
  refine ⟨attends.sound.sweep fun _ _ aged => (aged_keeps aged).1, fun ip db found => ?_, attends.sent,
    fun ip sender used young => ?_, fun own kept => ?_, fun some_ => ?_⟩
  · rw [entries] at found
    obtain ⟨old, before, aged⟩ := Option.bind_eq_some_iff.mp found
    rw [(aged_keeps aged).2.1]
    exact attends.owned ip old before
  · obtain ⟨db, found, age, younger, since⟩ := attends.recent ip sender used young
    have fresh := aged_young since (younger.trans_lt young) long
    refine ⟨db, ?_, age, younger, since⟩
    rw [entries, found, Option.bind_some, Db.aged, fresh]
    rfl
  · rcases expire_scdb hz s with ⟨none_, -⟩ | ⟨keeps, entry, -, ip⟩
    · rw [none_] at kept
      cases kept
    · rw [entry] at kept
      obtain ⟨same, there⟩ := attends.single own kept
      obtain ⟨db, found⟩ := Option.isSome_iff_exists.mp there
      have kept := keeps db (by rw [kept]; exact found)
      rw [ip, entries, found]
      exact ⟨same, kept⟩
  · rcases expire_scdb hz s with ⟨-, any⟩ | ⟨-, -, mac, ip⟩
    · exact absurd any some_
    · rw [ip] at some_ ⊢
      rw [mac]
      exact attends.scdb some_

theorem Attends.pass (attends : Attends uses hz s last) (n : Nat) :
    Attends uses hz (s.pass n) fun ip => (last ip).map fun sender => (sender.1, sender.2 + n) := by
  refine ⟨attends.sound, attends.owned, fun ip sender used => ?_, fun ip sender used young => ?_, attends.single,
    attends.scdb⟩
  · obtain ⟨old, before, rfl⟩ := Option.map_eq_some_iff.mp used
    exact attends.sent ip old before
  · obtain ⟨old, before, rfl⟩ := Option.map_eq_some_iff.mp used
    obtain ⟨db, found, age, younger, since⟩ := attends.recent ip old before (by dsimp only at young; omega)
    refine ⟨db, found, age + n, Nat.add_le_add_right younger n, ?_⟩
    show s.jiffies + BitVec.ofNat _ n - db.ageingTimer = _
    rw [BitVec.ofNat_add, ← since]
    ring

theorem Attends.step (attends : Attends uses hz s last) (oneAddress : OneAddress uses) (long : ageing hz ≤ 2 ^ w)
    {e : ClientEvent} (obeys : e.Obeys nat25 uses) :
    Attends uses hz (s.clientStep nat25 hz e) fun ip => lastSender nat25 ip (last ip) e := by
  cases e with
  | transmit env tagged v => exact attends.transmit oneAddress obeys
  | receive env nat25scDisable v => exact attends.receive _ nat25scDisable v
  | expire => exact attends.expire long
  | pass n => exact attends.pass n

end Step

/-! ## Runs -/

section Runs

variable {nat25 : Nat25Env} {uses : List UInt8 → List UInt8 → Prop} {hz : Nat} {events : List ClientEvent}

end Runs

end Vmac.Bridge
