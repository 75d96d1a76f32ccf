/-
# Vmac.Bridge.Database -- the network addresses behind the bridge: rtw_br_ext.c

`nat25_db_handle` keeps, for each network address that a client has sent from, the client's address and the time of its
last frame.  A received frame gets the client's address as its destination while the entry is not too old; entries that
are too old lose a use at each call of `nat25_db_expire` and are freed with the last one.

* `Db.insert`, `Db.lookup`, `Db.expire`: the table of chains.
* `Client.step`: what becomes of one network address.
* `follows_along`: in every run the table holds for each address what `Client.step` makes of it.
* `answer_after`: a lookup finds the client that has used the address last, if that is not too long ago.
* `survives_iff`: how often an entry that is not used any more is passed over before it is freed.
-/
import Mathlib.Data.BitVec
import Mathlib.Tactic.Ring
import Vmac.Theory.Hash
import Vmac.Theory.Run

namespace Vmac.Bridge

open Theory.Hash Theory.Run

set_option autoImplicit false

/-! ## The table -/

/-- `NAT25_HASH_SIZE`. -/
def nat25HashSize : Nat := 16

/-- `NAT25_AGEING_TIME`, in seconds. -/
def nat25AgeingTime : Nat := 300

/-- `networkAddr`, of `MAX_NETWORK_ADDR_LEN` bytes. -/
abbrev NetworkAddr := List UInt8

/-- `__nat25_generate_ipv4_network_addr`. -/
def ipv4NetworkAddr (ipAddr : List UInt8) : NetworkAddr := 1 :: (List.replicate 6 0 ++ ipAddr ++ List.replicate 6 0)

/-- `__nat25_generate_ipv6_network_addr`. -/
def ipv6NetworkAddr (ipAddr : List UInt8) : NetworkAddr := 2 :: ipAddr

/-- `__nat25_generate_pppoe_network_addr`. -/
def pppoeNetworkAddr (acMac sid : List UInt8) : NetworkAddr := 5 :: (sid ++ acMac ++ List.replicate 8 0)

/-- The bytes that `__nat25_network_hash` takes for each kind of address. -/
def hashedBytes (kind : UInt8) : List Nat :=
  if kind = 1 then [7, 8, 9, 10]
  else if kind = 3 then List.range' 1 10
  else if kind = 4 then List.range' 1 3
  else if kind = 5 then List.range 9
  else if kind = 2 then List.range' 1 16
  else List.range 17

/-- `__nat25_network_hash`. -/
def nat25NetworkHash (networkAddr : NetworkAddr) : Nat :=
  ((hashedBytes (networkAddr.getD 0 0)).foldl (fun x i => x ^^^ (networkAddr.getD i 0).toNat) 0) &&& (nat25HashSize - 1)

variable {w : Nat}

/-- `struct nat25_network_db_entry`, its links apart; an `unsigned long` has `w + 1` bits. -/
structure DbEntry (w : Nat) where
  networkAddr : NetworkAddr
  macAddr : List UInt8
  useCount : BitVec 32
  ageingTimer : BitVec (w + 1)

/-- `nethash`, what is kept of the single client, and `jiffies`; an address has one entry, and stands for it. -/
structure Db (w : Nat) where
  nethash : Table (DbEntry w)
  scdbMac : List UInt8
  scdbIp : List UInt8
  scdbEntry : Option NetworkAddr
  jiffies : BitVec (w + 1)

/-- `time_before_eq`. -/
def timeBeforeEq (a b : BitVec (w + 1)) : Bool := 0 ≤ (b - a).toInt

namespace Db

variable (hz : Nat) (s : Db w)

/-- The entry that a search through a chain comes to. -/
def entry (networkAddr : NetworkAddr) : Option (DbEntry w) :=
  find nat25NetworkHash DbEntry.networkAddr s.nethash networkAddr

/-- `__nat25_timeout`. -/
def timeout : BitVec (w + 1) := s.jiffies - BitVec.ofNat _ (nat25AgeingTime * hz)

/-- `__nat25_has_expired`. -/
def hasExpired (db : DbEntry w) : Bool := timeBeforeEq db.ageingTimer (s.timeout hz)

/-- The entry with an address is changed. -/
def change (networkAddr : NetworkAddr) (f : DbEntry w → DbEntry w) : Db w :=
  { s with nethash := update nat25NetworkHash DbEntry.networkAddr s.nethash networkAddr f }

/-- `__nat25_db_network_insert`; `malloc` says whether there is memory. -/
def insert (malloc : Bool) (macAddr : List UInt8) (networkAddr : NetworkAddr) : Db w :=
  match s.entry networkAddr with
  | some _ => s.change networkAddr fun db => { db with macAddr := macAddr, ageingTimer := s.jiffies }
  | none =>
      if malloc then
        { s with nethash := link nat25NetworkHash DbEntry.networkAddr s.nethash ⟨networkAddr, macAddr, 1, s.jiffies⟩ }
      else s

/-- `__nat25_db_network_lookup_and_replace`: whether there is an entry, and the address that it puts into the frame. -/
def lookup (networkAddr : NetworkAddr) : Db w × Bool × Option (List UInt8) :=
  match s.entry networkAddr with
  | some db =>
      if s.hasExpired hz db then (s, true, none)
      else (s.change networkAddr fun db => { db with useCount := db.useCount + 1 }, true, some db.macAddr)
  | none => (s, false, none)

/-- What `nat25_db_expire` makes of an entry. -/
def aged (db : DbEntry w) : Option (DbEntry w) :=
  if s.hasExpired hz db then
    if db.useCount - 1 = 0 then none else some { db with useCount := db.useCount - 1 }
  else some db

/-- The entry of the single client is freed. -/
def forgetsScdb (freed : DbEntry w → Bool) : Bool :=
  match s.scdbEntry.bind s.entry with
  | some db => freed db
  | none => false

/-- `nat25_db_expire`. -/
def expire : Db w :=
  let forgets := s.forgetsScdb fun db => (s.aged hz db).isNone
  { s with
    nethash := sweep s.nethash (s.aged hz)
    scdbMac := if forgets then List.replicate 6 0 else s.scdbMac
    scdbIp := if forgets then List.replicate 4 0 else s.scdbIp
    scdbEntry := if forgets then none else s.scdbEntry }

/-- Time passes. -/
def pass (n : Nat) : Db w := { s with jiffies := s.jiffies + BitVec.ofNat _ n }

end Db

/-- The adapter's memory is zeroed when it is allocated. -/
def Db.zeroed (jiffies : BitVec (w + 1)) : Db w := ⟨fun _ => [], List.replicate 6 0, List.replicate 4 0, none, jiffies⟩

/-- What may happen to the table. -/
inductive DbEvent
  | insert (malloc : Bool) (macAddr : List UInt8) (networkAddr : NetworkAddr)
  | lookup (networkAddr : NetworkAddr)
  | expire
  | pass (n : Nat)

def Db.apply (hz : Nat) (s : Db w) : DbEvent → Db w
  | .insert malloc macAddr networkAddr => s.insert malloc macAddr networkAddr
  | .lookup networkAddr => (s.lookup hz networkAddr).1
  | .expire => s.expire hz
  | .pass n => s.pass n

/-! ## One address -/

/-- `NAT25_AGEING_TIME * HZ`. -/
def ageing (hz : Nat) : Nat := nat25AgeingTime * hz

/-- What the table holds for a network address: the client, how long ago it was heard, and the uses left. -/
structure Client where
  macAddr : List UInt8
  age : Nat
  uses : Nat

namespace Client

/-- The entry is of use. -/
def fresh (hz : Nat) (c : Client) : Bool := c.age < ageing hz

/-- What becomes of the address `own`. -/
def step (hz : Nat) (own : NetworkAddr) : Option Client → DbEvent → Option Client
  | some c, .insert _ macAddr networkAddr => some (if networkAddr = own then ⟨macAddr, 0, c.uses⟩ else c)
  | none, .insert malloc macAddr networkAddr => if networkAddr = own ∧ malloc then some ⟨macAddr, 0, 1⟩ else none
  | some c, .lookup networkAddr =>
      some (if networkAddr = own ∧ c.fresh hz then { c with uses := c.uses + 1 } else c)
  | some c, .expire =>
      if c.fresh hz then some c else if c.uses = 1 then none else some { c with uses := c.uses - 1 }
  | some c, .pass n => some { c with age := c.age + n }
  | none, .lookup _ => none
  | none, .expire => none
  | none, .pass _ => none

end Client

/-- An entry holds what is known of its client. -/
structure Records (jiffies : BitVec (w + 1)) (db : DbEntry w) (c : Client) : Prop where
  macAddr : db.macAddr = c.macAddr
  age : jiffies - db.ageingTimer = BitVec.ofNat _ c.age
  uses : db.useCount = BitVec.ofNat 32 c.uses

/-- What an entry tells of its client. -/
def Db.client (s : Db w) (db : DbEntry w) : Client :=
  ⟨db.macAddr, (s.jiffies - db.ageingTimer).toNat, db.useCount.toNat⟩

/-- The table holds each address once and in its chain, with what is known of its client. -/
structure Follows (s : Db w) (known : NetworkAddr → Option Client) : Prop where
  sound : Sound nat25NetworkHash DbEntry.networkAddr s.nethash
  entries : ∀ own, Option.Rel (Records s.jiffies) (s.entry own) (known own)

/-- The numbers have not run over. -/
structure Small (w : Nat) (c : Client) : Prop where
  age : c.age < 2 ^ w
  used : 0 < c.uses
  uses : c.uses < 2 ^ 32

section Step

variable {hz : Nat} {s : Db w} {known : NetworkAddr → Option Client} {db : DbEntry w} {c : Client}

/-- The signed difference of two numbers that have not run over. -/
theorem toInt_ofNat_sub {a b : Nat} (low : b ≤ 2 ^ w) (high : a < 2 ^ w) :
    (BitVec.ofNat (w + 1) a - BitVec.ofNat (w + 1) b).toInt = (a : Int) - b := by
  have low' : (b : Int) ≤ 2 ^ w := by exact_mod_cast low
  have high' : (a : Int) < 2 ^ w := by exact_mod_cast high
  rw [BitVec.toInt_sub, BitVec.toInt_ofNat', BitVec.toInt_ofNat', Int.bmod_sub_bmod, Int.sub_bmod_bmod]
  apply Int.bmod_eq_of_le <;> rw [Nat.pow_succ, Nat.cast_mul, Nat.cast_pow] <;> push_cast <;> omega

theorem hasExpired_iff (records : Records s.jiffies db c) (age : c.age < 2 ^ w) (long : ageing hz ≤ 2 ^ w) :
    s.hasExpired hz db = !c.fresh hz := by
  have behind : s.timeout hz - db.ageingTimer = BitVec.ofNat _ c.age - BitVec.ofNat _ (ageing hz) := by
    rw [← records.age, Db.timeout, ageing]
    ring
  rw [Db.hasExpired, timeBeforeEq, behind, toInt_ofNat_sub long age, Client.fresh, ← decide_not]
  congr 1
  apply propext
  omega

theorem entry_change {f : DbEntry w → DbEntry w} (keeps : ∀ db, (f db).networkAddr = db.networkAddr)
    (networkAddr own : NetworkAddr) :
    (s.change networkAddr f).entry own = if own = networkAddr then (s.entry networkAddr).map f else s.entry own :=
  find_update keeps s.nethash networkAddr own

/-- A changed entry, and what is known of its client from then on. -/
theorem Follows.change (follows : Follows s known) {f : DbEntry w → DbEntry w} {networkAddr : NetworkAddr}
    (keeps : ∀ db, (f db).networkAddr = db.networkAddr) {known' : NetworkAddr → Option Client}
    (here : Option.Rel (Records s.jiffies) ((s.entry networkAddr).map f) (known' networkAddr))
    (others : ∀ own, own ≠ networkAddr → known' own = known own) : Follows (s.change networkAddr f) known' := by
  refine ⟨follows.sound.update keeps networkAddr, fun own => ?_⟩
  rw [entry_change keeps]
  by_cases same : own = networkAddr
  · rw [if_pos same, same]
    exact here
  · rw [if_neg same, others own same]
    exact follows.entries own

@[simp] theorem step_insert_other {own networkAddr : NetworkAddr} (other : own ≠ networkAddr) (o : Option Client)
    (malloc : Bool) (macAddr : List UInt8) : Client.step hz own o (.insert malloc macAddr networkAddr) = o := by
  cases o <;> simp [Client.step, Ne.symm other]

@[simp] theorem step_lookup_other {own networkAddr : NetworkAddr} (other : own ≠ networkAddr) (o : Option Client) :
    Client.step hz own o (.lookup networkAddr) = o := by
  cases o <;> simp [Client.step, Ne.symm other]

/-- What the table has of an address is known, and the other way round. -/
theorem Follows.at_ (follows : Follows s known) (own : NetworkAddr) :
    (s.entry own = none ∧ known own = none) ∨
      ∃ db c, s.entry own = some db ∧ known own = some c ∧ Records s.jiffies db c := by
  have here := follows.entries own
  cases found : s.entry own with
  | none =>
      cases before : known own with
      | none => exact .inl ⟨rfl, rfl⟩
      | some c => rw [found, before] at here; cases here
  | some db =>
      cases before : known own with
      | none => rw [found, before] at here; cases here
      | some c =>
          rw [found, before] at here
          exact .inr ⟨db, c, rfl, rfl, Option.rel_some_some.mp here⟩

theorem Follows.insert (follows : Follows s known) (malloc : Bool) (macAddr : List UInt8) (networkAddr : NetworkAddr) :
    Follows (s.insert malloc macAddr networkAddr) fun own =>
      Client.step hz own (known own) (.insert malloc macAddr networkAddr) := by
  rw [Db.insert]
  rcases follows.at_ networkAddr with ⟨absent, before⟩ | ⟨db, c, found, before, records⟩
  · rw [absent]
    cases malloc with
    | false =>
        refine ⟨follows.sound, fun own => ?_⟩
        by_cases same : own = networkAddr
        · simpa [same, Client.step, before] using follows.entries networkAddr
        · rw [step_insert_other same]
          exact follows.entries own
    | true =>
        refine ⟨follows.sound.link absent, fun own => ?_⟩
        show Option.Rel _ (find _ _ (link _ _ _ _) own) _
        rw [find_link]
        by_cases same : own = networkAddr
        · rw [if_pos same, same]
          simp only [before, Client.step, and_self, if_true, Option.rel_some_some]
          exact ⟨rfl, by simp, rfl⟩
        · rw [if_neg same, step_insert_other same]
          exact follows.entries own
  · rw [found]
    refine follows.change (f := fun db => { db with macAddr := macAddr, ageingTimer := s.jiffies }) (fun _ => rfl) ?_
      fun own other => step_insert_other other ..
    simp only [found, before, Option.map_some, Client.step, if_true, Option.rel_some_some]
    exact ⟨rfl, by simp, records.uses⟩

/-- What a lookup puts into the frame. -/
def Client.answer (hz : Nat) (o : Option Client) : Option (List UInt8) := (o.filter (Client.fresh hz)).map Client.macAddr

theorem Follows.lookup (follows : Follows s known) (small : ∀ own c, known own = some c → Small w c)
    (long : ageing hz ≤ 2 ^ w) (networkAddr : NetworkAddr) :
    Follows (s.lookup hz networkAddr).1 (fun own => Client.step hz own (known own) (.lookup networkAddr)) ∧
      (s.lookup hz networkAddr).2 = ((known networkAddr).isSome, Client.answer hz (known networkAddr)) := by
  rw [Db.lookup]
  rcases follows.at_ networkAddr with ⟨absent, before⟩ | ⟨db, c, found, before, records⟩
  · rw [absent, before]
    refine ⟨⟨follows.sound, fun own => ?_⟩, rfl⟩
    by_cases same : own = networkAddr
    · simp [same, before, absent, Client.step]
    · rw [step_lookup_other same]
      exact follows.entries own
  · rw [found, before]
    dsimp only
    rw [hasExpired_iff records (small _ c before).age long]
    cases fresh : c.fresh hz with
    | false =>
        refine ⟨⟨follows.sound, fun own => ?_⟩, by simp [Client.answer, fresh]⟩
        by_cases same : own = networkAddr
        · simpa [same, before, found, Client.step, fresh] using records
        · rw [step_lookup_other same]
          exact follows.entries own
    | true =>
        refine ⟨follows.change (f := fun db => { db with useCount := db.useCount + 1 }) (fun _ => rfl) ?_
          fun own other => step_lookup_other other _, ?_⟩
        · simp only [found, before, Option.map_some, Client.step, fresh, and_self, if_true, Option.rel_some_some]
          refine ⟨records.macAddr, records.age, ?_⟩
          rw [records.uses, ← BitVec.ofNat_add_ofNat]
          rfl
        · simp [Client.answer, fresh, records.macAddr]

theorem Follows.pass (follows : Follows s known) (n : Nat) :
    Follows (s.pass n) fun own => Client.step hz own (known own) (.pass n) := by
  refine ⟨follows.sound, fun own => ?_⟩
  show Option.Rel _ (s.entry own) _
  rcases follows.at_ own with ⟨absent, before⟩ | ⟨db, c, found, before, records⟩
  · rw [absent, before]
    exact .none
  · rw [found, before]
    refine .some ⟨records.macAddr, ?_, records.uses⟩
    show s.jiffies + BitVec.ofNat _ n - db.ageingTimer = BitVec.ofNat _ (c.age + n)
    rw [BitVec.ofNat_add, ← records.age]
    ring

/-- A use less, of one that is not the last. -/
theorem uses_sub_one {uses : Nat} (used : 0 < uses) (small : uses < 2 ^ 32) :
    (BitVec.ofNat 32 uses - 1 = 0 ↔ uses = 1) ∧ BitVec.ofNat 32 uses - 1 = BitVec.ofNat 32 (uses - 1) := by
  constructor <;> bv_omega

/-- A call of `nat25_db_expire` changes nothing of an entry that it keeps but its uses. -/
theorem aged_keeps {db' : DbEntry w} (aged : s.aged hz db = some db') :
    db'.networkAddr = db.networkAddr ∧ db'.macAddr = db.macAddr ∧ db'.ageingTimer = db.ageingTimer := by
  rw [Db.aged] at aged
  split at aged
  · split at aged
    · cases aged
    · cases aged
      exact ⟨rfl, rfl, rfl⟩
  · cases aged
    exact ⟨rfl, rfl, rfl⟩

theorem entry_expire (sound : Sound nat25NetworkHash DbEntry.networkAddr s.nethash) (own : NetworkAddr) :
    (s.expire hz).entry own = (s.entry own).bind (s.aged hz) :=
  find_sweep (fun _ _ aged => (aged_keeps aged).1) sound own

theorem Follows.expire (follows : Follows s known) (small : ∀ own c, known own = some c → Small w c)
    (long : ageing hz ≤ 2 ^ w) : Follows (s.expire hz) fun own => Client.step hz own (known own) .expire := by
  refine ⟨follows.sound.sweep fun _ _ aged => (aged_keeps aged).1, fun own => ?_⟩
  rw [entry_expire follows.sound]
  rcases follows.at_ own with ⟨absent, before⟩ | ⟨db, c, found, before, records⟩
  · rw [absent, before]
    exact .none
  · have bounds := small own c before
    obtain ⟨last, less⟩ := uses_sub_one bounds.used bounds.uses
    rw [found, before, Option.bind_some, Db.aged, hasExpired_iff records bounds.age long, Client.step, records.uses]
    cases c.fresh hz with
    | true => exact .some records
    | false =>
        by_cases once : c.uses = 1
        · simp [once]
        · rw [Bool.not_false, if_pos rfl, if_neg (fun zero => once (last.mp zero)), if_neg Bool.false_ne_true, if_neg once]
          exact .some ⟨records.macAddr, records.age, less⟩

theorem Follows.apply (follows : Follows s known) (small : ∀ own c, known own = some c → Small w c)
    (long : ageing hz ≤ 2 ^ w) (e : DbEvent) : Follows (s.apply hz e) fun own => Client.step hz own (known own) e := by
  cases e with
  | insert malloc macAddr networkAddr => exact follows.insert malloc macAddr networkAddr
  | lookup networkAddr => exact (follows.lookup small long networkAddr).1
  | expire => exact follows.expire small long
  | pass n => exact follows.pass n

end Step

/-! ## Runs -/

/-- How many jiffies pass. -/
def elapsed : List DbEvent → Nat
  | [] => 0
  | .pass n :: rest => n + elapsed rest
  | .insert _ _ _ :: rest => elapsed rest
  | .lookup _ :: rest => elapsed rest
  | .expire :: rest => elapsed rest

/-- No counter of the table runs over in the run. -/
structure Short (w hz : Nat) (events : List DbEvent) : Prop where
  ageing : ageing hz ≤ 2 ^ w
  elapsed : elapsed events < 2 ^ w
  uses : events.length < 2 ^ 32

theorem elapsed_append (events more : List DbEvent) : elapsed (events ++ more) = elapsed events + elapsed more := by
  induction events with
  | nil => simp [elapsed]
  | cons e rest ih => cases e <;> simp [elapsed, ih, Nat.add_assoc]

theorem Short.prefix {w hz : Nat} {events more : List DbEvent} (short : Short w hz (events ++ more)) :
    Short w hz events := by
  have elapsed := short.elapsed
  have uses := short.uses
  rw [elapsed_append] at elapsed
  rw [List.length_append] at uses
  exact ⟨short.ageing, by omega, by omega⟩

/-- What is known of an address behind some events. -/
def Client.after (hz : Nat) (events : List DbEvent) (own : NetworkAddr) : Option Client :=
  along (Client.step hz own) none events

section Runs

variable {hz : Nat} {events : List DbEvent} {own : NetworkAddr} {c : Client}

@[simp] theorem after_append (e : DbEvent) :
    Client.after hz (events ++ [e]) own = Client.step hz own (Client.after hz events own) e := by
  simp [Client.after, along]

/-- What an event adds to the age and the uses of a client. -/
theorem step_bounds {o : Option Client} {e : DbEvent} {age uses : Nat}
    (before : ∀ c, o = some c → c.age ≤ age ∧ 0 < c.uses ∧ c.uses ≤ uses) (known : Client.step hz own o e = some c) :
    c.age ≤ age + elapsed [e] ∧ 0 < c.uses ∧ c.uses ≤ uses + 1 := by
  cases o with
  | none =>
      cases e with
      | insert malloc macAddr networkAddr =>
          rw [Client.step] at known
          split at known
          · cases known
            exact ⟨Nat.zero_le _, Nat.one_pos, Nat.le_add_left ..⟩
          · cases known
      | _ => cases known
  | some old =>
      obtain ⟨younger, used, fewer⟩ := before old rfl
      cases e with
      | insert malloc macAddr networkAddr =>
          obtain rfl := Option.some.inj known
          split
          · exact ⟨Nat.zero_le _, used, Nat.le_succ_of_le fewer⟩
          · exact ⟨younger, used, Nat.le_succ_of_le fewer⟩
      | lookup networkAddr =>
          obtain rfl := Option.some.inj known
          split
          · exact ⟨younger, Nat.succ_pos _, Nat.succ_le_succ fewer⟩
          · exact ⟨younger, used, Nat.le_succ_of_le fewer⟩
      | expire =>
          rw [Client.step] at known
          split at known
          · cases known
            exact ⟨younger, used, Nat.le_succ_of_le fewer⟩
          · split at known
            · cases known
            · cases known
              exact ⟨younger, show 0 < old.uses - 1 by omega, show old.uses - 1 ≤ uses + 1 by omega⟩
      | pass n =>
          obtain rfl := Option.some.inj known
          exact ⟨Nat.add_le_add_right younger n, used, Nat.le_succ_of_le fewer⟩

/-- A client is no older than the run, and has no more uses than there were events. -/
theorem after_bounds (known : Client.after hz events own = some c) :
    c.age ≤ elapsed events ∧ 0 < c.uses ∧ c.uses ≤ events.length := by
  induction events using List.reverseRecOn generalizing c with
  | nil => cases known
  | append_singleton events e ih =>
      rw [after_append] at known
      rw [elapsed_append, List.length_append]
      exact step_bounds (fun c before => ih before) known

theorem after_small {w : Nat} (short : Short w hz events) (known : Client.after hz events own = some c) : Small w c := by
  obtain ⟨age, used, uses⟩ := after_bounds known
  exact ⟨age.trans_lt short.elapsed, used, uses.trans_lt short.uses⟩

theorem follows_after {w : Nat} (jiffies : BitVec (w + 1)) (short : Short w hz events) :
    Follows (along (Db.apply hz) (Db.zeroed jiffies) events) (Client.after hz events) := by
  induction events using List.reverseRecOn with
  | nil => exact ⟨sound_empty, fun _ => .none⟩
  | append_singleton events e ih =>
      have follows := (ih short.prefix).apply (fun _ _ known => after_small short.prefix known) short.ageing e
      have known : (fun own => Client.step hz own (Client.after hz events own) e) = Client.after hz (events ++ [e]) :=
        funext fun own => (after_append e).symm
      rw [known] at follows
      simpa [along] using follows

theorem Records.toNat {w : Nat} {jiffies : BitVec (w + 1)} {db : DbEntry w} {c : Client}
    (records : Records jiffies db c) (small : Small w c) :
    (jiffies - db.ageingTimer).toNat = c.age ∧ db.useCount.toNat = c.uses := by
  have further : 2 ^ w ≤ 2 ^ (w + 1) := Nat.pow_le_pow_right (by decide) (Nat.le_succ w)
  rw [records.age, records.uses, BitVec.toNat_ofNat, BitVec.toNat_ofNat]
  exact ⟨Nat.mod_eq_of_lt (small.age.trans_le further), Nat.mod_eq_of_lt small.uses⟩

/-- In every run the table holds each address at most once and in its chain, with the client that has sent with it
last, its age and its uses. -/
theorem follows_along {w : Nat} (jiffies : BitVec (w + 1)) (short : Short w hz events) :
    Sound nat25NetworkHash DbEntry.networkAddr (along (Db.apply hz) (Db.zeroed jiffies) events).nethash ∧
    ∀ own, ((along (Db.apply hz) (Db.zeroed jiffies) events).entry own).map
      (along (Db.apply hz) (Db.zeroed jiffies) events).client = Client.after hz events own := by
  have follows := follows_after jiffies short
  refine ⟨follows.sound, fun own => ?_⟩
  rcases follows.at_ own with ⟨absent, unknown⟩ | ⟨db, c, there, known, records⟩
  · rw [absent, unknown]
    rfl
  · obtain ⟨age, uses⟩ := records.toNat (after_small short known)
    rw [there, known, Option.map_some, Db.client, records.macAddr, age, uses]

end Runs

/-- Two clients, of which one is looked up. -/
def twoClients : List DbEvent :=
  [.insert true [2, 0, 0, 0, 0, 10] (ipv4NetworkAddr [10, 0, 0, 5]), .pass 10,
    .insert true [2, 0, 0, 0, 0, 11] (ipv4NetworkAddr [10, 0, 0, 6]), .lookup (ipv4NetworkAddr [10, 0, 0, 5]), .expire]

theorem follows_twoClients : ((along (Db.apply 100) (Db.zeroed (0 : BitVec 64)) twoClients).entry
    (ipv4NetworkAddr [10, 0, 0, 5])).map (fun db => db.useCount.toNat) = some 2 := by
  have short : Short 63 100 twoClients := ⟨by decide, by decide, by decide⟩
  have entry := (follows_along (0 : BitVec 64) short).2 (ipv4NetworkAddr [10, 0, 0, 5])
  have uses := congrArg (Option.map Client.uses) entry
  rw [Option.map_map] at uses
  exact uses.trans (by decide)

/-! ## Who used an address last -/

/-- The client that has used an address last, and how long ago that is. -/
def lastUse (own : NetworkAddr) : Option (List UInt8 × Nat) → DbEvent → Option (List UInt8 × Nat)
  | last, .insert _ macAddr networkAddr => if networkAddr = own then some (macAddr, 0) else last
  | last, .pass n => last.map fun use => (use.1, use.2 + n)
  | last, .lookup _ => last
  | last, .expire => last

/-- The client that has used an address less than `NAT25_AGEING_TIME` ago. -/
def recentClient (hz : Nat) (own : NetworkAddr) (events : List DbEvent) : Option (List UInt8) :=
  ((along (lastUse own) none events).filter fun use => use.2 < ageing hz).map Prod.fst

/-- Who used an address last has sent from it. -/
theorem lastUse_mem {own : NetworkAddr} {events : List DbEvent} {use : List UInt8 × Nat}
    (last : along (lastUse own) none events = some use) : ∃ malloc, DbEvent.insert malloc use.1 own ∈ events := by
  induction events using List.reverseRecOn generalizing use with
  | nil => cases last
  | append_singleton events e ih =>
      have step : lastUse own (along (lastUse own) none events) e = some use := by simpa [along] using last
      have earlier {old : List UInt8 × Nat} (before : along (lastUse own) none events = some old) :
          ∃ malloc, DbEvent.insert malloc old.1 own ∈ events ++ [e] := by
        obtain ⟨malloc, inside⟩ := ih before
        exact ⟨malloc, List.mem_append_left _ inside⟩
      cases e with
      | insert malloc macAddr networkAddr =>
          rw [lastUse] at step
          split at step
          next same =>
            cases step
            exact ⟨malloc, by simp [same]⟩
          next => exact earlier step
      | pass n =>
          obtain ⟨old, before, rfl⟩ := Option.map_eq_some_iff.mp step
          exact @earlier old before
      | lookup networkAddr => exact earlier step
      | expire => exact earlier step

/-- There is memory for a new entry. -/
def DbEvent.stored : DbEvent → Prop
  | .insert malloc _ _ => malloc = true
  | _ => True

section Recent

variable {hz : Nat} {events : List DbEvent} {own : NetworkAddr}

/-- What the table knows is who used the address last, and all that is of use of it is known. -/
structure Remembers (hz : Nat) (o : Option Client) (last : Option (List UInt8 × Nat)) : Prop where
  right : ∀ c, o = some c → last = some (c.macAddr, c.age)
  all : ∀ use, last = some use → use.2 < ageing hz → o.isSome

theorem Remembers.step {o : Option Client} {last : Option (List UInt8 × Nat)} (remembers : Remembers hz o last)
    {e : DbEvent} (stored : e.stored) : Remembers hz (Client.step hz own o e) (lastUse own last e) := by
  cases o with
  | none =>
      cases e with
      | insert malloc macAddr networkAddr =>
          obtain rfl : malloc = true := stored
          by_cases same : networkAddr = own
          · constructor <;> simp [Client.step, lastUse, same]
          · simpa [Client.step, lastUse, same] using remembers
      | pass n =>
          refine ⟨fun c known => absurd known (by simp [Client.step]), fun use inside young => ?_⟩
          obtain ⟨old, before, rfl⟩ := Option.map_eq_some_iff.mp inside
          exact absurd (remembers.all old before (by dsimp only at young; omega)) (by simp)
      | lookup networkAddr => exact remembers
      | expire => exact remembers
  | some c =>
      have right := remembers.right c rfl
      cases e with
      | insert malloc macAddr networkAddr =>
          by_cases same : networkAddr = own
          · constructor <;> simp [Client.step, lastUse, same]
          · constructor <;> simp [Client.step, lastUse, same, right]
      | lookup networkAddr =>
          refine ⟨fun c' known => ?_, fun _ _ _ => rfl⟩
          obtain rfl := Option.some.inj known
          rw [lastUse, right]
          split <;> rfl
      | pass n => constructor <;> simp [Client.step, lastUse, right]
      | expire =>
          rw [Client.step]
          cases fresh : c.fresh hz with
          | true => exact remembers
          | false =>
              have old : ¬c.age < ageing hz := by simpa [Client.fresh] using fresh
              refine ⟨fun c' known => ?_, fun use inside young => ?_⟩
              · rw [if_neg Bool.false_ne_true] at known
                split at known
                · cases known
                · cases known
                  exact right
              · rw [lastUse, right] at inside
                cases inside
                exact absurd young old

theorem remembers_after (memory : ∀ e ∈ events, e.stored) :
    Remembers hz (Client.after hz events own) (along (lastUse own) none events) := by
  induction events using List.reverseRecOn with
  | nil => exact ⟨fun _ known => absurd known (by simp [Client.after]), fun _ last => absurd last (by simp)⟩
  | append_singleton events e ih =>
      rw [after_append]
      have last : along (lastUse own) none (events ++ [e]) = lastUse own (along (lastUse own) none events) e := by
        simp [along]
      rw [last]
      exact (ih fun e' inside => memory e' (List.mem_append_left _ inside)).step
        (memory e (List.mem_append_right _ List.mem_cons_self))

/-- A lookup finds the client that has used the address last, if that is not too long ago. -/
theorem answer_after (memory : ∀ e ∈ events, e.stored) :
    Client.answer hz (Client.after hz events own) = recentClient hz own events := by
  have remembers := @remembers_after hz events own memory
  rw [Client.answer, recentClient]
  cases known : Client.after hz events own with
  | some c =>
      rw [known] at remembers
      rw [remembers.right c rfl]
      by_cases young : c.age < ageing hz <;> simp [Option.filter, Client.fresh, young]
  | none =>
      rw [known] at remembers
      cases last : along (lastUse own) none events with
      | none => rfl
      | some use =>
          have old : ¬use.2 < ageing hz := fun young => absurd (remembers.all use last young) (by simp)
          simp [Option.filter, old]

end Recent

/-! ## An address that is not used any more -/

/-- The calls of `nat25_db_expire` that take a use from an entry of an age. -/
def sweeps (hz : Nat) : Nat → List DbEvent → Nat
  | _, [] => 0
  | age, .pass n :: rest => sweeps hz (age + n) rest
  | age, .expire :: rest => (if age < ageing hz then 0 else 1) + sweeps hz age rest
  | age, .insert _ _ _ :: rest => sweeps hz age rest
  | age, .lookup _ :: rest => sweeps hz age rest

/-- The lookups that give it one. -/
def hits (hz : Nat) (own : NetworkAddr) : Nat → List DbEvent → Nat
  | _, [] => 0
  | age, .pass n :: rest => hits hz own (age + n) rest
  | age, .lookup networkAddr :: rest => (if networkAddr = own ∧ age < ageing hz then 1 else 0) + hits hz own age rest
  | age, .insert _ _ _ :: rest => hits hz own age rest
  | age, .expire :: rest => hits hz own age rest

/-- No client sends from the address. -/
def Unused (own : NetworkAddr) (events : List DbEvent) : Prop :=
  ∀ malloc macAddr, DbEvent.insert malloc macAddr own ∉ events

section Unused

variable {hz : Nat} {own : NetworkAddr} {events : List DbEvent} {e : DbEvent}

theorem Unused.tail (unused : Unused own (e :: events)) : Unused own events :=
  fun malloc macAddr inside => unused malloc macAddr (List.mem_cons_of_mem e inside)

theorem step_none (unused : Unused own (e :: events)) : Client.step hz own none e = none := by
  cases e with
  | insert malloc macAddr networkAddr =>
      refine if_neg fun here => unused malloc macAddr ?_
      rw [here.1]
      exact List.mem_cons_self
  | _ => rfl

theorem along_none (unused : Unused own events) : along (Client.step hz own) none events = none := by
  induction events with
  | nil => rfl
  | cons e rest ih => rw [along_cons, step_none unused, ih unused.tail]

/-- An entry that is too old gets no more uses. -/
theorem hits_old {age : Nat} (old : ageing hz ≤ age) : hits hz own age events = 0 := by
  induction events generalizing age with
  | nil => rfl
  | cons e rest ih =>
      cases e with
      | insert malloc macAddr networkAddr => exact ih old
      | pass n => exact ih (Nat.le_add_right_of_le old)
      | lookup networkAddr => rw [hits, if_neg (fun hit => Nat.not_lt.mpr old hit.2), ih old]
      | expire => exact ih old

theorem along_isSome_iff (unused : Unused own events) {c : Client} (used : 0 < c.uses) :
    (along (Client.step hz own) (some c) events).isSome ↔
      sweeps hz c.age events < c.uses + hits hz own c.age events := by
  induction events generalizing c with
  | nil => simpa [sweeps, hits] using used
  | cons e rest ih =>
      rw [along_cons]
      cases e with
      | insert malloc macAddr networkAddr =>
          have other : networkAddr ≠ own := fun here => unused malloc macAddr (here ▸ List.mem_cons_self)
          simpa [Client.step, other, sweeps, hits] using ih unused.tail used
      | pass n => simpa [Client.step, sweeps, hits] using ih unused.tail (c := ⟨c.macAddr, c.age + n, c.uses⟩) used
      | lookup networkAddr =>
          by_cases hit : networkAddr = own ∧ c.age < ageing hz
          · have more := ih unused.tail (c := ⟨c.macAddr, c.age, c.uses + 1⟩) (Nat.succ_pos _)
            simp only [Client.step, Client.fresh, hit, decide_true, and_self, if_true, sweeps, hits]
            rw [more, Nat.add_assoc]
          · have same : ¬(networkAddr = own ∧ c.fresh hz = true) := by simpa [Client.fresh] using hit
            simp only [Client.step, if_neg same, sweeps, hits, if_neg hit, Nat.zero_add]
            exact ih unused.tail used
      | expire =>
          by_cases young : c.age < ageing hz
          · simp only [Client.step, Client.fresh, young, decide_true, if_true, sweeps, hits, Nat.zero_add]
            exact ih unused.tail used
          · by_cases once : c.uses = 1
            · simp [Client.step, Client.fresh, young, once, sweeps, hits, along_none unused.tail]
              rw [hits_old (Nat.not_lt.mp young)]
              exact Nat.zero_le _
            · have more := ih unused.tail (c := ⟨c.macAddr, c.age, c.uses - 1⟩) (show 0 < c.uses - 1 by omega)
              simp only [Client.step, Client.fresh, young, decide_false, Bool.false_eq_true, if_false, once, sweeps, hits]
              rw [more]
              dsimp only
              omega

/-- An entry from whose address no client sends any more is kept while it has uses for the calls of `nat25_db_expire`
that find it too old: those that it has and those that lookups give it before. -/
theorem survives_iff {w : Nat} (jiffies : BitVec (w + 1)) {more : List DbEvent} (short : Short w hz (events ++ more))
    (unused : Unused own more) {db : DbEntry w}
    (found : (along (Db.apply hz) (Db.zeroed jiffies) events).entry own = some db) :
    ((along (Db.apply hz) (Db.zeroed jiffies) (events ++ more)).entry own).isSome ↔
      sweeps hz ((along (Db.apply hz) (Db.zeroed jiffies) events).jiffies - db.ageingTimer).toNat more <
        db.useCount.toNat +
          hits hz own ((along (Db.apply hz) (Db.zeroed jiffies) events).jiffies - db.ageingTimer).toNat more := by
  have before := short.prefix
  rcases (follows_after jiffies before).at_ own with ⟨absent, -⟩ | ⟨db', c, there, known, records⟩
  · rw [absent] at found
    cases found
  · obtain rfl := Option.some.inj (there.symm.trans found)
    obtain ⟨age, uses⟩ := records.toNat (after_small before known)
    have later : Client.after hz (events ++ more) own = along (Client.step hz own) (some c) more := by
      rw [← known, Client.after, Client.after, along, along, along, List.foldl_append]
    rw [age, uses, ← along_isSome_iff unused (after_bounds known).2.1, ← later]
    rcases (follows_after jiffies short).at_ own with ⟨absent, unknown⟩ | ⟨db'', c', kept, still, -⟩
    · rw [absent, unknown]
      exact Iff.rfl
    · rw [kept, still]
      exact Iff.rfl

end Unused

theorem survives_twoClients : ¬((along (Db.apply 100) (Db.zeroed (0 : BitVec 64))
    (twoClients ++ [.pass 40000, .expire, .lookup (ipv4NetworkAddr [10, 0, 0, 5]), .expire])).entry
      (ipv4NetworkAddr [10, 0, 0, 5])).isSome := by
  have unused : Unused (ipv4NetworkAddr [10, 0, 0, 5])
      [.pass 40000, .expire, .lookup (ipv4NetworkAddr [10, 0, 0, 5]), .expire] := by
    intro malloc macAddr inside
    simp at inside
  have found : (along (Db.apply 100) (Db.zeroed (0 : BitVec 64)) twoClients).entry (ipv4NetworkAddr [10, 0, 0, 5]) =
      some ⟨ipv4NetworkAddr [10, 0, 0, 5], [2, 0, 0, 0, 0, 10], 2, 0⟩ := rfl
  rw [survives_iff (0 : BitVec 64) ⟨by decide, by decide, by decide⟩ unused found]
  decide

end Vmac.Bridge
