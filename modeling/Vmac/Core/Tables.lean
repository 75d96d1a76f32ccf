/-
# Vmac.Core.Tables -- the tables RX_TABLE and TX_TABLE

`rx_enc` and `tx_enc` are chained hash tables of 32 buckets, keyed by a 64-bit
encoding.  `find_rx` and `find_tx` walk the bucket of an encoding and return the
last entry they see; they compare no key.  The core finds the entry of a frame,
works on it through the pointer, and so writes back what it found (`World.put`).
-/
import Vmac.Core.Encoding
import Vmac.Theory.Chain

namespace Vmac.Core

open Theory

set_option autoImplicit false

/-- Buckets of a table, `HASH_BITS` being 5. -/
abbrev Bucket := Fin 32

/-- The state of the core: its two tables and the registered process. -/
structure World where
  rxEnc : Chain.Buckets Bucket EncodingRx
  txEnc : Chain.Buckets Bucket EncodingTx
  pidt : Int

/-- What the two tables hold for an encoding. -/
structure Entries where
  rx : Option EncodingRx
  tx : Option EncodingTx

/-- Before the first message: empty tables, no process. -/
def World.init : World := ⟨Chain.empty, Chain.empty, -1⟩

section

variable (hash : Enc → Bucket)

def findRx (w : World) (enc : Enc) : Option EncodingRx := Chain.lastIn hash w.rxEnc enc

def findTx (w : World) (enc : Enc) : Option EncodingTx := Chain.lastIn hash w.txEnc enc

/-- The entries a call on `enc` works on. -/
def World.found (w : World) (enc : Enc) : Entries := ⟨findRx hash w enc, findTx hash w enc⟩

/-- The tables after a call on `enc` that leaves `after` of what it found. -/
def World.put (w : World) (enc : Enc) (after : Entries) : World :=
  { w with
    rxEnc := Chain.write hash EncodingRx.key w.rxEnc enc (findRx hash w enc) after.rx
    txEnc := Chain.write hash EncodingTx.key w.txEnc enc (findTx hash w enc) after.tx }

end

/-- The deadline `mod_timer` sets for an entry that is refreshed now. -/
def Env.encDeadline (env : Env) : Nat := env.jiffies + msecsToJiffies encTimeoutMs

def EncodingRx.refresh (e : EncodingRx) (env : Env) : EncodingRx :=
  { e with encTimeout := env.encDeadline }

def EncodingTx.refresh (t : EncodingTx) (env : Env) : EncodingTx :=
  { t with encTimeout := env.encDeadline }

/-- A new entry: the fields `vmac_tx` sets, in memory that `vmalloc` left as it was. -/
def freshRx (env : Env) (enc : Enc) : EncodingRx :=
  { env.rxMem with
    key := enc
    clean := ⟨enc, .cleanEncRx⟩
    alpha := 0
    firstFrame := 0
    secondFrame := 0
    lastin := 0
    latest := 0
    dacInfo := { env.rxMem.dacInfo with send := 0 }
    round := 0
    dackTimer := some env.jiffies }

def freshTx (env : Env) (enc : Enc) : EncodingTx :=
  { env.txMem with
    key := enc
    clean := ⟨enc, .cleanEncTx⟩
    seq := 0
    dackcounter := 0
    framecount := 0 }

/-! ## A quiet environment

Every call succeeds and all memory is zero; concrete runs start from here. -/

def EncodingRx.zero (enc : Enc) : EncodingRx :=
  { key := enc
    clean := ⟨enc, .cleanEncRx⟩
    pad := 0
    window := fun _ => 0
    alpha := 0
    firstFrame := 0
    secondFrame := 0
    lastin := 0
    latest := 0
    dacInfo := ⟨0, 0, 0, none⟩
    round := 0
    encTimeout := 0
    dackTimer := none }

def EncodingTx.zero (enc : Enc) : EncodingTx :=
  { key := enc
    clean := ⟨enc, .cleanEncTx⟩
    retransmissionBuffer := fun _ => none
    timer := fun _ => 0
    seq := 0
    dackcounter := 0
    framecount := 0
    encTimeout := 0 }

def Env.quiet : Env :=
  { jiffies := 1
    base := 1
    past := fun _ => 0
    copyOk := fun _ => true
    xmitOk := fun _ => true
    dackOk := true
    lockFree := true
    rndm := 0
    nlmsgOk := true
    skbOut := none
    txc := ⟨0, 0, 0, 0, 0, 0, 0⟩
    junk := fun _ => ⟨0, 0, 0⟩
    vmallocOk := true
    rxMem := .zero 0
    txMem := .zero 0 }

/-- The hash that puts every encoding into one bucket. -/
def oneBucket (_ : Enc) : Bucket := ⟨0, by decide⟩

/-- Tables with one receiver entry. -/
def World.subscribed (e : EncodingRx) : World :=
  { World.init with rxEnc := Chain.insert oneBucket EncodingRx.key World.init.rxEnc e }

/-- Tables with one producer entry. -/
def World.publishing (t : EncodingTx) : World :=
  { World.init with txEnc := Chain.insert oneBucket EncodingTx.key World.init.txEnc t }

theorem findRx_subscribed (e : EncodingRx) : findRx oneBucket (.subscribed e) e.key = some e :=
  rfl

end Vmac.Core
