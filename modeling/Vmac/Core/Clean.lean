/-
# Vmac.Core.Clean -- an encoding times out: clean.c

When the timeout timer of an entry fires, its handler marks which table the entry
is in and calls `process`, which looks the encoding up again, releases the copies
of a producer entry and unlinks what it found.
-/
import Vmac.Core.Tables

namespace Vmac.Core

open Theory

set_option autoImplicit false

/-- Turns of the release loop of `process`. -/
def EncodingTx.held (t : EncodingTx) : Nat := if t.seq < windowTx then t.seq else windowTx

/-- The release loop. -/
def EncodingTx.releaseCopies (t : EncodingTx) : List Out :=
  (List.range t.held).flatMap fun i => kfreeSkb (t.retransmissionBuffer i)

/-- `process` on the entries of the encoding. -/
def processEntries (clean : EncCleanup) (n : Entries) : Entries × List Out :=
  match clean.type with
  | .cleanEncRx =>
      -- a pending DACK is not released
      ({ n with rx := none }, [])
  | .cleanEncTx =>
      match n.tx with
      | none => (n, [])
      | some t => ({ n with tx := none }, t.releaseCopies)

def process (hash : Enc → Bucket) (w : World) (clean : EncCleanup) : World × List Out :=
  let r := processEntries clean (w.found hash clean.enc)
  (w.put hash clean.enc r.1, r.2)

/-- `__cleanup_rx` for the entry whose timer fired. -/
def cleanupRx (hash : Enc → Bucket) (w : World) (e : EncodingRx) : World × List Out :=
  process hash w { e.clean with type := .cleanEncRx }

/-- `__cleanup_tx` for the entry whose timer fired. -/
def cleanupTx (hash : Enc → Bucket) (w : World) (t : EncodingTx) : World × List Out :=
  process hash w { t.clean with type := .cleanEncTx }

end Vmac.Core
