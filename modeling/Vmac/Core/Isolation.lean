/-
# Vmac.Core.Isolation -- whose entry a call works on

The tables are driven by `vmac_tx`, `vmac_rx` and the timeouts (`Op`, `step`,
`Reachable`).  Because an entry is added only where the lookup found none, no
bucket ever has two entries (`Reachable.wellFormed`), and a timeout always removes
the entry whose timer fired.

The lookups compare no key.  `names_isolated_iff`: in every reachable state
`find_rx` and `find_tx` are right about an encoding exactly when no other encoding
has an entry in its bucket; and a call on an encoding that is alone in its buckets
is `Isolated`, it reads and changes the entries of its own encoding only.
-/
import Vmac.Core.Clean
import Vmac.Core.Rx
import Vmac.Core.Tx

namespace Vmac.Core

open Theory

set_option autoImplicit false

/-! ## Runs -/

/-- What drives the tables. -/
inductive Op where
  | tx (env : Env) (skb : Skb) (enc : Enc) (type : UInt8) (seqtmp : Nat)
  | rx (env : Env) (skb : Skb)
  /-- The timeout timer of an entry fires. -/
  | timeoutRx (e : EncodingRx)
  | timeoutTx (t : EncodingTx)

/-- The encoding a call is on. -/
def Op.enc : Op → Enc
  | .tx _ _ enc _ _ => enc
  | .rx env skb => (readHdr env.past skb.data).enc
  | .timeoutRx e => e.key
  | .timeoutTx t => t.key

section

variable (hash : Enc → Bucket)

def step (w : World) : Op → World × List Out
  | .tx env skb enc type seqtmp => vmacTx hash env w skb enc type seqtmp
  | .rx env skb => vmacRx hash env w skb
  | .timeoutRx e => cleanupRx hash w e
  | .timeoutTx t => cleanupTx hash w t

/-- A timer that fires belongs to an entry of a table. -/
def Possible (w : World) : Op → Prop
  | .timeoutRx e => ∃ i, e ∈ w.rxEnc i
  | .timeoutTx t => ∃ i, t ∈ w.txEnc i
  | _ => True

inductive Reachable : World → Prop where
  | init (pidt : Int) : Reachable { World.init with pidt := pidt }
  | step {w : World} {op : Op} : Reachable w → Possible w op → Reachable (step hash w op).1

/-- The entry whose key is `enc`, if one is in the table. -/
def lookupRx (w : World) (enc : Enc) : Option EncodingRx :=
  Chain.lookup hash EncodingRx.key w.rxEnc enc

def lookupTx (w : World) (enc : Enc) : Option EncodingTx :=
  Chain.lookup hash EncodingTx.key w.txEnc enc

/-- No other encoding has an entry in the buckets of `enc`. -/
def AloneRx (w : World) (enc : Enc) : Prop := Chain.Alone hash EncodingRx.key w.rxEnc enc

def AloneTx (w : World) (enc : Enc) : Prop := Chain.Alone hash EncodingTx.key w.txEnc enc

/-- What a call does to the entries of its own encoding. -/
def Op.own (pidt : Int) (n : Entries) : Op → Entries × List Out
  | .tx env skb enc type seqtmp => txFrame env n skb enc type seqtmp
  | .rx env skb => rxFrame env pidt n (readHdr env.past skb.data) (skb.pull 9)
  | .timeoutRx e => processEntries { e.clean with type := .cleanEncRx } n
  | .timeoutTx t => processEntries { t.clean with type := .cleanEncTx } n

/-- A call does what the entries of its own encoding say, to these entries. -/
structure Isolated (w : World) (op : Op) : Prop where
  outs : (step hash w op).2 = (op.own w.pidt ⟨lookupRx hash w op.enc, lookupTx hash w op.enc⟩).2
  rx : lookupRx hash (step hash w op).1 = Function.update (lookupRx hash w) op.enc
    (op.own w.pidt ⟨lookupRx hash w op.enc, lookupTx hash w op.enc⟩).1.rx
  tx : lookupTx hash (step hash w op).1 = Function.update (lookupTx hash w) op.enc
    (op.own w.pidt ⟨lookupRx hash w op.enc, lookupTx hash w op.enc⟩).1.tx

/-! ## The invariant -/

/-- Short chains of entries that time out under their own key. -/
structure WellFormed (w : World) : Prop where
  rx : Chain.Single hash EncodingRx.key w.rxEnc
  tx : Chain.Single hash EncodingTx.key w.txEnc
  cleanRx : ∀ i, ∀ e ∈ w.rxEnc i, e.clean.enc = e.key
  cleanTx : ∀ i, ∀ t ∈ w.txEnc i, t.clean.enc = t.key

end

/-- The entries left are those found, or new ones of `enc`. -/
structure Follows (enc : Enc) (n n' : Entries) : Prop where
  rx : ∀ e, n'.rx = some e →
    e.key = n.rx.elim enc EncodingRx.key ∧ e.clean.enc = n.rx.elim enc fun e => e.clean.enc
  tx : ∀ t, n'.tx = some t →
    t.key = n.tx.elim enc EncodingTx.key ∧ t.clean.enc = n.tx.elim enc fun t => t.clean.enc

namespace Follows

variable {enc : Enc} {n : Entries}

theorem keepRx (e : EncodingRx) (found : n.rx = some e) :
    e.key = n.rx.elim enc EncodingRx.key ∧ e.clean.enc = n.rx.elim enc fun e => e.clean.enc := by
  rw [found]
  exact ⟨rfl, rfl⟩

theorem keepTx (t : EncodingTx) (found : n.tx = some t) :
    t.key = n.tx.elim enc EncodingTx.key ∧ t.clean.enc = n.tx.elim enc fun t => t.clean.enc := by
  rw [found]
  exact ⟨rfl, rfl⟩

theorem refl : Follows enc n n := ⟨keepRx, keepTx⟩

theorem setRx {e' : EncodingRx}
    (keyed : e'.key = n.rx.elim enc EncodingRx.key ∧
      e'.clean.enc = n.rx.elim enc fun e => e.clean.enc) :
    Follows enc n { n with rx := some e' } := by
  refine ⟨fun e same => ?_, keepTx⟩
  cases same
  exact keyed

theorem setTx {t' : EncodingTx}
    (keyed : t'.key = n.tx.elim enc EncodingTx.key ∧
      t'.clean.enc = n.tx.elim enc fun t => t.clean.enc) :
    Follows enc n { n with tx := some t' } := by
  refine ⟨keepRx, fun t same => ?_⟩
  cases same
  exact keyed

theorem rxFrame (env : Env) (pidt : Int) (h : VmacHdr) (skb : Skb) :
    Follows h.enc n (rxFrame env pidt n h skb).1 := by
  unfold Core.rxFrame
  split
  · exact refl
  split
  · split
    · exact refl
    · rename_i e found
      have same := rxData_fixed env pidt e h.enc skb
      apply setRx
      rw [found]
      exact ⟨congrArg (·.1) same, congrArg (·.2.1.enc) same⟩
  split
  · split
    · exact refl
    · rename_i t found
      have same := answerDack_sameFrames env t skb.data
      apply setTx
      rw [found]
      exact ⟨same.key, congrArg EncCleanup.enc same.clean⟩
  split
  · exact refl
  split
  · exact refl
  · exact refl

theorem txFrame (env : Env) (skb : Skb) (enc : Enc) (type : UInt8) (seqtmp : Nat) :
    Follows enc n (txFrame env n skb enc type seqtmp).1 := by
  unfold Core.txFrame
  split
  · dsimp only
    split
    · rename_i e found
      apply setRx
      rw [found]
      exact ⟨rfl, rfl⟩
    · rename_i none
      split
      · apply setRx
        rw [none]
        exact ⟨rfl, rfl⟩
      · exact refl
  split
  · split
    · rename_i t found
      apply setTx
      rw [found]
      exact ⟨rfl, rfl⟩
    · rename_i none
      split
      · apply setTx
        rw [none]
        exact ⟨rfl, rfl⟩
      · exact refl
  split
  · exact refl
  split
  · exact refl
  · exact refl

theorem process (clean : EncCleanup) : Follows enc n (processEntries clean n).1 := by
  unfold processEntries
  split
  · exact ⟨fun e same => (nomatch same), keepTx⟩
  · split
    · exact refl
    · exact ⟨keepRx, fun t same => (nomatch same)⟩

end Follows

section

variable {hash : Enc → Bucket} {w : World}

theorem WellFormed.put (good : WellFormed hash w) {enc : Enc} {n' : Entries}
    (follows : Follows enc (w.found hash enc) n') : WellFormed hash (w.put hash enc n') := by
  refine ⟨good.rx.write fun e same => (follows.rx e same).1,
    good.tx.write fun t same => (follows.tx t same).1, fun i e member => ?_, fun i t member => ?_⟩
  · rcases Chain.mem_write member with old | new
    · exact good.cleanRx i e old
    · obtain ⟨key, clean⟩ := follows.rx e new
      rw [key, clean]
      cases found : (w.found hash enc).rx with
      | none => rfl
      | some e₀ => exact good.cleanRx _ e₀ (Chain.lastIn_mem found)
  · rcases Chain.mem_write member with old | new
    · exact good.cleanTx i t old
    · obtain ⟨key, clean⟩ := follows.tx t new
      rw [key, clean]
      cases found : (w.found hash enc).tx with
      | none => rfl
      | some t₀ => exact good.cleanTx _ t₀ (Chain.lastIn_mem found)

/-- Every call is a lookup, its own work on what was found, and a write-back. -/
theorem step_eq (good : WellFormed hash w) {op : Op} (possible : Possible w op) :
    step hash w op = (w.put hash op.enc (op.own w.pidt (w.found hash op.enc)).1,
      (op.own w.pidt (w.found hash op.enc)).2) := by
  cases op with
  | tx env skb enc type seqtmp => rfl
  | rx env skb => rfl
  | timeoutRx e =>
      obtain ⟨i, member⟩ := possible
      have same : e.clean.enc = e.key := good.cleanRx i e member
      simp only [step, cleanupRx, process, Op.enc, Op.own, same]
  | timeoutTx t =>
      obtain ⟨i, member⟩ := possible
      have same : t.clean.enc = t.key := good.cleanTx i t member
      simp only [step, cleanupTx, process, Op.enc, Op.own, same]

theorem Op.own_follows (op : Op) (pidt : Int) (n : Entries) :
    Follows op.enc n (op.own pidt n).1 := by
  cases op with
  | tx env skb enc type seqtmp => exact .txFrame env skb enc type seqtmp
  | rx env skb => exact .rxFrame env pidt _ _
  | timeoutRx e => exact .process _
  | timeoutTx t => exact .process _

theorem WellFormed.step (good : WellFormed hash w) {op : Op} (possible : Possible w op) :
    WellFormed hash (step hash w op).1 := by
  rw [step_eq good possible]
  exact good.put (op.own_follows w.pidt _)

theorem Reachable.wellFormed (reach : Reachable hash w) : WellFormed hash w := by
  induction reach with
  | init pidt => exact ⟨.empty, .empty, fun _ _ h => (nomatch h), fun _ _ h => (nomatch h)⟩
  | step _ possible ih => exact ih.step possible

/-! ## Isolation -/

theorem isolated_of_alone (good : WellFormed hash w) {op : Op} (possible : Possible w op)
    (aloneRx : AloneRx hash w op.enc) (aloneTx : AloneTx hash w op.enc) :
    Isolated hash w op := by
  have foundRx : findRx hash w op.enc = lookupRx hash w op.enc :=
    Chain.lastIn_of_alone good.rx aloneRx
  have foundTx : findTx hash w op.enc = lookupTx hash w op.enc :=
    Chain.lastIn_of_alone good.tx aloneTx
  have found : w.found hash op.enc = ⟨lookupRx hash w op.enc, lookupTx hash w op.enc⟩ := by
    rw [World.found, foundRx, foundTx]
  have follows := op.own_follows w.pidt (w.found hash op.enc)
  have keyRx : ∀ e, (op.own w.pidt (w.found hash op.enc)).1.rx = some e → e.key = op.enc := by
    intro e same
    rw [(follows.rx e same).1]
    cases now : (w.found hash op.enc).rx with
    | none => rfl
    | some e₀ => exact aloneRx e₀ (Chain.lastIn_mem now)
  have keyTx : ∀ t, (op.own w.pidt (w.found hash op.enc)).1.tx = some t → t.key = op.enc := by
    intro t same
    rw [(follows.tx t same).1]
    cases now : (w.found hash op.enc).tx with
    | none => rfl
    | some t₀ => exact aloneTx t₀ (Chain.lastIn_mem now)
  refine ⟨?_, ?_, ?_⟩
  · rw [step_eq good possible, found]
  · rw [step_eq good possible, ← found]
    exact Chain.lookup_write good.rx aloneRx keyRx
  · rw [step_eq good possible, ← found]
    exact Chain.lookup_write good.tx aloneTx keyTx

/-- The timeout of an entry unlinks that entry and nothing else. -/
theorem timeoutRx_exact (good : WellFormed hash w) {e : EncodingRx}
    (member : ∃ i, e ∈ w.rxEnc i) :
    lookupRx hash w e.key = some e ∧
      lookupRx hash (cleanupRx hash w e).1 = Function.update (lookupRx hash w) e.key none ∧
      (cleanupRx hash w e).1.txEnc = w.txEnc := by
  obtain ⟨i, inside⟩ := member
  obtain ⟨found, alone⟩ := Chain.lastIn_of_mem good.rx inside
  have stepped : cleanupRx hash w e = _ :=
    step_eq good (show Possible w (.timeoutRx e) from ⟨i, inside⟩)
  rw [stepped]
  refine ⟨(Chain.lastIn_of_alone good.rx alone).symm.trans found, ?_, ?_⟩
  · exact Chain.lookup_write good.rx alone fun e' same => (nomatch same)
  · exact Chain.write_same w.txEnc e.key

theorem timeoutTx_exact (good : WellFormed hash w) {t : EncodingTx}
    (member : ∃ i, t ∈ w.txEnc i) :
    lookupTx hash w t.key = some t ∧
      lookupTx hash (cleanupTx hash w t).1 = Function.update (lookupTx hash w) t.key none ∧
      (cleanupTx hash w t).1.rxEnc = w.rxEnc ∧ (cleanupTx hash w t).2 = t.releaseCopies := by
  obtain ⟨i, inside⟩ := member
  obtain ⟨found, alone⟩ := Chain.lastIn_of_mem good.tx inside
  have stepped : cleanupTx hash w t = _ :=
    step_eq good (show Possible w (.timeoutTx t) from ⟨i, inside⟩)
  have own : (Op.timeoutTx t).own w.pidt (w.found hash t.key) =
      ({ w.found hash t.key with tx := none }, t.releaseCopies) := by
    simp only [Op.own, processEntries, World.found, findTx, found]
  rw [stepped, Op.enc, own]
  refine ⟨(Chain.lastIn_of_alone good.tx alone).symm.trans found, ?_, ?_, rfl⟩
  · refine Chain.lookup_write good.tx alone fun t' same => ?_
    cases same
  · exact Chain.write_same w.rxEnc t.key

end

/-- In every reachable state: the lookups are right about exactly the encodings that
are alone in their bucket, every call on such an encoding keeps to its own entries,
and a timeout removes exactly the entry whose timer fired. -/
theorem names_isolated_iff (hash : Enc → Bucket) {w : World} (reach : Reachable hash w) :
    (∀ enc, findRx hash w enc = lookupRx hash w enc ↔ AloneRx hash w enc) ∧
    (∀ enc, findTx hash w enc = lookupTx hash w enc ↔ AloneTx hash w enc) ∧
    (∀ op, Possible w op → AloneRx hash w op.enc → AloneTx hash w op.enc → Isolated hash w op) ∧
    (∀ e, (∃ i, e ∈ w.rxEnc i) → lookupRx hash w e.key = some e ∧
      lookupRx hash (cleanupRx hash w e).1 = Function.update (lookupRx hash w) e.key none ∧
      (cleanupRx hash w e).1.txEnc = w.txEnc) ∧
    ∀ t, (∃ i, t ∈ w.txEnc i) → lookupTx hash w t.key = some t ∧
      lookupTx hash (cleanupTx hash w t).1 = Function.update (lookupTx hash w) t.key none ∧
      (cleanupTx hash w t).1.rxEnc = w.rxEnc ∧ (cleanupTx hash w t).2 = t.releaseCopies := by
  have good := reach.wellFormed
  refine ⟨?_, ?_, ?_, ?_, ?_⟩
  · exact Chain.lastIn_eq_lookup_iff good.rx
  · exact Chain.lastIn_eq_lookup_iff good.tx
  · intro op possible aloneRx aloneTx
    exact isolated_of_alone good possible aloneRx aloneTx
  · intro e member
    exact timeoutRx_exact good member
  · intro t member
    exact timeoutTx_exact good member

/-! ## Two encodings in one bucket -/

/-- `hash_64(enc, 5)` of the kernel. -/
def hash64 (enc : Enc) : Bucket :=
  ⟨((enc * 0x61C8864680B583EB) >>> 59).toNat % 32, Nat.mod_lt _ (by decide)⟩

/-- The tables after an interest in encoding 0. -/
def interestInZero : World := (step hash64 World.init (.tx .quiet ⟨0, []⟩ 0 vmacHdrInterest 0)).1

theorem interestInZero_reachable : Reachable hash64 interestInZero :=
  .step (.init (-1)) (show Possible _ (.tx .quiet ⟨0, []⟩ 0 vmacHdrInterest 0) from trivial)

theorem interestInZero_rxEnc : interestInZero.rxEnc =
    Function.update Chain.empty (hash64 0) [(freshRx .quiet 0).refresh .quiet] := rfl

theorem interestInZero_alone : AloneRx hash64 interestInZero 0 ∧ AloneTx hash64 interestInZero 0 := by
  refine ⟨fun e member => ?_, fun t member => (nomatch member)⟩
  rw [interestInZero_rxEnc, Function.update_self, List.mem_singleton] at member
  rw [member]
  rfl

theorem names_isolated_iff_interest :
    (∀ enc, findRx hash64 interestInZero enc = lookupRx hash64 interestInZero enc ↔
      AloneRx hash64 interestInZero enc) ∧
    Isolated hash64 interestInZero (.tx .quiet ⟨0, []⟩ 0 vmacHdrInterest 0) := by
  obtain ⟨rx, -, isolated, -⟩ := names_isolated_iff hash64 interestInZero_reachable
  obtain ⟨aloneRx, aloneTx⟩ := interestInZero_alone
  exact ⟨rx, isolated _ trivial aloneRx aloneTx⟩

/-- Encoding 21 has the bucket of encoding 0: `find_rx` returns the entry of 0 for it,
and a data frame of 21 goes through the window of 0. -/
theorem find_other_name : hash64 21 = hash64 0 ∧
    (findRx hash64 interestInZero 21).map EncodingRx.key = some 0 ∧
    (lookupRx hash64 interestInZero 21).isNone ∧
    ((lookupRx hash64 (step hash64 interestInZero
      (.rx .quiet (dataArrival .quiet 21 3).2)).1 0).map fun e => e.latest) = some 3 :=
  ⟨by decide, by decide, by decide, by decide⟩

end Vmac.Core
