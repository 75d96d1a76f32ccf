/-
# Vmac.Core.Dack -- building a DACK: dack.c

`prepDACK` scans the window from `5 * round - WINDOW` (or 0) up to `5 * round`
and lists the runs of slots that hold 0 as holes `[le, re)`.  It has two absorb
loops: one backwards from the first empty slot of a hole (`absorbBack`), one
forwards (`absorbForward`).  The buffer with the holes replaces the pending DACK
of the entry, or becomes it and arms the DACK timer; `__sendDACK` sends it.
-/
import Vmac.Core.LowTx

namespace Vmac.Core

set_option autoImplicit false

namespace EncodingRx

/-! ## The scan -/

/-- `window[tmp % WINDOW - 1]`: below slot 0 lies the padding of `clean`. -/
def windowBelow (e : EncodingRx) (tmp : Nat) : Nat :=
  if tmp % windowSize = 0 then e.pad else e.window (tmp % windowSize - 1)

/-- The backward absorb loop from `tmp`, counting `loss` as a `u8`. -/
def absorbBack (e : EncodingRx) (start : Nat) : Nat → Nat → Nat × Nat
  | 0, loss => (0, loss)
  | tmp + 1, loss =>
      if e.windowBelow (tmp + 1) = 0 ∧ start < tmp then
        absorbBack e start tmp ((loss + 1) % 256)
      else (tmp + 1, loss)

/-- At most `n` turns of the forward absorb loop from `i`. -/
def absorbForward (e : EncodingRx) (lattmp : Nat) : Nat → Nat → Nat → Nat × Nat
  | 0, i, loss => (i, loss)
  | n + 1, i, loss =>
      if e.window (i % windowSize) = 0 ∧ i + 1 < lattmp then
        absorbForward e lattmp n (i + 1) ((loss + 1) % 256)
      else (i, loss)

/-- The variables of the scan. -/
structure Scan where
  i : Nat
  holes : List VmacHole
  loss : Nat
  deriving DecidableEq, Repr

/-- One turn of the scan, `i++` included. -/
def scanTurn (e : EncodingRx) (start lattmp : Nat) (s : Scan) : Scan :=
  if e.window (s.i % windowSize) = 0 then
    let back := e.absorbBack start s.i s.loss
    let forward := e.absorbForward lattmp (lattmp - s.i) s.i back.2
    ⟨forward.1 + 1, s.holes ++ [⟨back.1, forward.1⟩], forward.2⟩
  else { s with i := s.i + 1 }

/-- At most `n` turns of the scan. -/
def scanLoop (e : EncodingRx) (start lattmp : Nat) : Nat → Scan → Scan
  | 0, s => s
  | n + 1, s =>
      if s.i < lattmp ∧ s.holes.length < holesMax then
        scanLoop e start lattmp n (e.scanTurn start lattmp s)
      else s

/-- `lattmp = round * 5` as a `u16`. -/
def lattmp (round : Nat) : Nat := round * 5 % 65536

/-- Where the scan starts. -/
def scanStart (lattmp : Nat) : Nat := if lattmp < windowSize then 0 else lattmp - windowSize

/-- The scan of `prepDACK` for `round`; it takes at most `lattmp` turns. -/
def scan (e : EncodingRx) (round : Nat) : Scan :=
  e.scanLoop (scanStart (lattmp round)) (lattmp round) (lattmp round)
    ⟨scanStart (lattmp round), [], 0⟩

/-! ## The DACK and its slot -/

/-- The bytes of the DACK `prepDACK` builds. -/
def dackFrame (e : EncodingRx) (enc : Enc) (round : Nat) : List UInt8 :=
  VmacHdr.bytes ⟨enc, vmacHdrDack⟩ ++ VmacDack.bytes ⟨round, (e.scan round).holes⟩

end EncodingRx

/-- `rndm % 2`, the C remainder of a `long`. -/
def rndmBit (rndm : Int) : Int := rndm.tmod 2

/-- The back-off before the DACK is sent. -/
def dackDuration (alpha loss : Nat) (rndm : Int) : Int :=
  let loss := if loss ≤ 5 then 5 - loss else loss
  let duration := 2 * (alpha : Int) * ((loss : Int) + rndmBit rndm)
  if duration = 0 then 1 else duration

/-- The buffer an entry owns: the DACK that waits for its timer. -/
def DackInfo.pending (info : DackInfo) : Option Skb := if info.send = 1 then info.dack else none

/-- What `prepDACK` does while it holds the DACK lock. -/
structure Stored where
  info : DackInfo
  /-- The delay the DACK timer is armed with, if it is. -/
  armed : Option Int
  /-- `rndm` and `ptr` after it: `ptr` is released if `rndm` is 1. -/
  rndm : Int
  ptr : Option Skb

/-- The critical section of `prepDACK`. -/
def storeDack (info : DackInfo) (skb : Skb) (round : Nat) (duration rndm : Int) : Stored :=
  if info.send = 1 then
    { info := { send := 1, round := round % 256, dacksheard := 0, dack := some skb }
      armed := none
      rndm := if info.dack.isSome then 1 else rndm
      ptr := info.dack }
  else
    { info := { send := 1, round := round % 256, dacksheard := 0, dack := some skb }
      armed := some (if duration > 100 then 10 else duration)
      rndm := rndm
      ptr := none }

/-- The buffer `prepDACK` releases after it has unlocked: `kfree_skb(ptr)` if `rndm` is 1. -/
def Stored.released (s : Stored) : Option Skb := if s.rndm = 1 then s.ptr else none

theorem storeDack_released (info : DackInfo) (skb : Skb) (round : Nat) (duration rndm : Int) :
    (storeDack info skb round duration rndm).released = info.pending := by
  unfold storeDack Stored.released DackInfo.pending
  split
  · cases info.dack <;> simp
  · simp

theorem storeDack_pending (info : DackInfo) (skb : Skb) (round : Nat) (duration rndm : Int) :
    (storeDack info skb round duration rndm).info.pending = some skb := by
  unfold storeDack DackInfo.pending
  split <;> rfl

/-- The critical section of `__sendDACK`: the pending DACK, if it is to be sent. -/
def takeDack (info : DackInfo) : DackInfo × Option (Option Skb) :=
  if info.send = 1 then ({ info with send := 0, dack := none }, some info.dack)
  else (info, none)

/-- `alpha` is at most 100 from the first DACK on. -/
def EncodingRx.clampAlpha (e : EncodingRx) : EncodingRx :=
  { e with alpha := if e.alpha ≥ 100 then 100 else e.alpha }

/-- Write the DACK slot and the timer after the critical section of `prepDACK`. -/
def EncodingRx.setStored (e : EncodingRx) (jiffies : Nat) (s : Stored) : EncodingRx :=
  { e with
    dacInfo := s.info
    dackTimer := match s.armed with
      | some duration => some ((jiffies : Int) + duration).toNat
      | none => e.dackTimer }

/-- `prepDACK`, on the entry that `find_rx` returns. -/
def prepDack (env : Env) (e : EncodingRx) (enc : Enc) (round : Nat) : EncodingRx × List Out :=
  if env.dackOk then
    let skb : Skb := ⟨env.base, e.dackFrame enc round⟩
    let duration := dackDuration e.clampAlpha.alpha (e.scan round).loss env.rndm
    if env.lockFree then
      let s := storeDack e.dacInfo skb round duration (rndmBit env.rndm)
      (e.clampAlpha.setStored env.jiffies s, .alloc skb.id :: kfreeSkb s.released)
    else (e.clampAlpha, [.alloc skb.id, .free skb.id])
  else (e, [])

/-- `request_DACK`. -/
def requestDack (env : Env) (e : EncodingRx) (enc : Enc) (round : Nat) : EncodingRx × List Out :=
  prepDack env e enc round

/-- `__sendDACK` when it finds the DACK lock free. -/
def sendDack (env : Env) (e : EncodingRx) : EncodingRx × List Out :=
  let taken := takeDack e.dacInfo
  ({ e with dacInfo := taken.1, dackTimer := none },
    match taken.2 with
    | some ptr => vmacSendHack env 0 ptr
    | none => [])

/-! ## What `prepDACK` leaves alone -/

section Frame

variable (env : Env) (e : EncodingRx) (enc : Enc) (round : Nat)

/-- `prepDACK` writes only `alpha`, the DACK slot and the DACK timer of its entry. -/
theorem prepDack_entry : ∃ alpha info timer, (prepDack env e enc round).1 =
    { e with alpha := alpha, dacInfo := info, dackTimer := timer } := by
  unfold prepDack
  split
  · dsimp only
    split
    · exact ⟨_, _, _, rfl⟩
    · exact ⟨_, e.dacInfo, e.dackTimer, rfl⟩
  · exact ⟨e.alpha, e.dacInfo, e.dackTimer, rfl⟩

@[simp] theorem prepDack_window : (prepDack env e enc round).1.window = e.window := by
  obtain ⟨_, _, _, eq⟩ := prepDack_entry env e enc round
  rw [eq]

@[simp] theorem prepDack_latest : (prepDack env e enc round).1.latest = e.latest := by
  obtain ⟨_, _, _, eq⟩ := prepDack_entry env e enc round
  rw [eq]

@[simp] theorem prepDack_fixed : (prepDack env e enc round).1.fixed = e.fixed := by
  obtain ⟨_, _, _, eq⟩ := prepDack_entry env e enc round
  rw [eq]
  rfl

@[simp] theorem prepDack_lastin : (prepDack env e enc round).1.lastin = e.lastin := by
  obtain ⟨_, _, _, eq⟩ := prepDack_entry env e enc round
  rw [eq]

@[simp] theorem prepDack_encTimeout : (prepDack env e enc round).1.encTimeout = e.encTimeout := by
  obtain ⟨_, _, _, eq⟩ := prepDack_entry env e enc round
  rw [eq]

end Frame

end Vmac.Core
