/-
# Vmac.Userspace.Network -- any number of nodes on one channel

Each node has its tables and its process.  A process gives messages to `nl_recv`; a node hears a frame that some node has
sent, any number of times and in any order, or never; timers fire.  `sent` has the messages that came to `vmac_tx`,
with the number it gave to each, `got` what `nl_send` has put to the processes.

* `OnAir`: what is behind the 802.11 header of a frame in the air -- a message that was sent, a DACK, or a frame that
  `vmac_rx` sends a second time, which has a second 802.11 header.
* `authentic`: in every run, what a process gets is a message that some process has sent under this name, with its
  type, its number and its payload.
-/
import Vmac.Theory.Run
import Vmac.Userspace.EndToEnd

namespace Vmac.Userspace

open Core Recv Theory Theory.Bytes Theory.Run

set_option autoImplicit false

variable {ι : Type}

/-! ## The network -/

/-- A message that came to `vmac_tx`: its node, its name, its type, the number it got and its payload. -/
structure Sent (ι : Type) where
  node : ι
  enc : Enc
  type : UInt8
  seq : Nat
  payload : List UInt8

/-- The message as a V-MAC frame. -/
def Sent.bytes (m : Sent ι) : List UInt8 := frameHeaders m.enc m.type m.seq ++ m.payload

structure Net (ι : Type) where
  nodes : ι → World
  air : List (List UInt8)
  sent : List (Sent ι)
  got : List (ι × List UInt8)

/-- What happens at a node. -/
inductive NetAct (ι : Type) where
  /-- Its process sends a message. -/
  | message (i : ι) (env : Env) (skb2 : Option Nat) (rxcSeq : Nat) (msg : Nlmsg)
  /-- It hears a frame, in buffer `id`, with a radiotap header and its FCS. -/
  | hear (i : ι) (env : Env) (id : Nat) (rtap : Radiotap) (frame fcs : List UInt8)
  /-- The DACK timer of an entry fires. -/
  | dackTimer (i : ι) (env : Env) (e : EncodingRx)
  /-- The timeout timer of an entry fires. -/
  | expireRx (i : ι) (e : EncodingRx)
  | expireTx (i : ι) (t : EncodingTx)

def NetAct.node : NetAct ι → ι
  | .message i _ _ _ _ => i
  | .hear i _ _ _ _ _ => i
  | .dackTimer i _ _ => i
  | .expireRx i _ => i
  | .expireTx i _ => i

section

variable (hash : Enc → Bucket)

/-- `__sendDACK` on an entry of the table. -/
def fireDack (env : Env) (w : World) (e : EncodingRx) : World × List Out :=
  ({ w with rxEnc := Chain.replace hash w.rxEnc e.key (sendDack env e).1 }, (sendDack env e).2)

/-- What the node does. -/
def NetAct.call (w : World) : NetAct ι → World × List Out
  | .message _ env skb2 rxcSeq msg => nlRecv hash env w skb2 rxcSeq msg
  | .hear _ env id rtap frame fcs => vmacOverride hash env w ⟨id, rtap.bytes ++ (frame ++ fcs)⟩
  | .dackTimer _ env e => fireDack hash env w e
  | .expireRx _ e => cleanupRx hash w e
  | .expireTx _ t => cleanupTx hash w t

/-- The number that a message gets. -/
def seqGiven (w : World) (enc : Enc) (type : UInt8) (seqtmp : Nat) : Nat :=
  if type = vmacHdrData then (w.found hash enc).seq else if type = vmacHdrInjected then seqtmp else 0

/-- The message comes to `vmac_tx`, and there is an entry for it or memory for one. -/
def NetAct.posted (w : World) : NetAct ι → List (Sent ι)
  | .message i env skb2 rxcSeq msg =>
      let type := UInt8.ofNat msg.type
      let enc := (readControl env.past msg.data).enc
      if FromUser type ∧ skb2.isSome ∧ 100 ≤ msg.len ∧
          (type = vmacHdrData → (findTx hash w enc).isSome ∨ env.vmallocOk = true) then
        [⟨i, enc, type, seqGiven hash w enc type (rxcSeq % 65536), msg.frame env.past⟩]
      else []
  | .hear _ _ _ _ _ _ => []
  | .dackTimer _ _ _ => []
  | .expireRx _ _ => []
  | .expireTx _ _ => []

variable [DecidableEq ι]

def Net.step (net : Net ι) (a : NetAct ι) : Net ι :=
  let r := a.call hash (net.nodes a.node)
  { nodes := Function.update net.nodes a.node r.1
    air := net.air ++ radios r.2
    sent := net.sent ++ a.posted hash (net.nodes a.node)
    got := net.got ++ (users r.2).map fun m => (a.node, m.2) }

end

/-- There is memory for the copy of a data frame, a frame that is heard has been sent, and a timer that fires is that of
an entry. -/
def Net.Possible (net : Net ι) : NetAct ι → Prop
  | .message _ env _ _ _ => env.copyOk 0 = true
  | .hear _ _ _ _ frame fcs => frame ∈ net.air ∧ fcs.length = 4
  | .dackTimer i _ e => ∃ b, e ∈ (net.nodes i).rxEnc b
  | .expireRx i e => ∃ b, e ∈ (net.nodes i).rxEnc b
  | .expireTx i t => ∃ b, t ∈ (net.nodes i).txEnc b

/-- Empty tables, and no process at any node. -/
def Net.start : Net ι := ⟨fun _ => World.init, [], [], []⟩

/-! ## What is in the air -/

/-- What is behind the 802.11 header of a frame. -/
inductive OnAir (sent : List (Sent ι)) : List UInt8 → Prop
  | message (m : Sent ι) (inside : m ∈ sent) : OnAir sent m.bytes
  | dack (enc : Enc) (rest : List UInt8) : OnAir sent (VmacHdr.bytes ⟨enc, vmacHdrDack⟩ ++ rest)
  | again (junk : HdrJunk) (rest : List UInt8) : OnAir sent (ieee80211Hdr junk ++ rest)

/-- A message has a type of userspace; only a data or an injected frame has a number, of 16 bits. -/
structure Sent.Formed (m : Sent ι) : Prop where
  known : FromUser m.type
  small : m.seq < 65536
  bare : m.type ≠ vmacHdrData → m.type ≠ vmacHdrInjected → m.seq = 0

/-- A frame with its 802.11 header. -/
def Genuine (sent : List (Sent ι)) (frame : List UInt8) : Prop :=
  ∃ junk bytes, frame = ieee80211Hdr junk ++ bytes ∧ OnAir sent bytes

/-- A pending DACK is one. -/
def GoodRx (e : EncodingRx) : Prop :=
  e.dacInfo.send = 1 → ∀ skb, e.dacInfo.dack = some skb → ∃ enc rest, skb.data = VmacHdr.bytes ⟨enc, vmacHdrDack⟩ ++ rest

/-- The slots that have been written hold messages that were sent; `n` counts the data frames of the entry. -/
def GoodTx (sent : List (Sent ι)) (t : EncodingTx) : Prop :=
  ∃ n, t.seq = n % 65536 ∧ ∀ j < min n windowTx, ∃ skb, t.retransmissionBuffer j = some skb ∧
    ∃ m ∈ sent, skb.data = m.bytes

/-- What a process gets. -/
def Authentic (sent : List (Sent ι)) (body : List UInt8) : Prop :=
  ∃ m ∈ sent, ∃ txc : Control,
    body = Control.bytes { txc with type := m.type, enc := m.enc, seq := m.seq } ++ m.payload

section Sent

variable {sent sent' : List (Sent ι)}

theorem OnAir.mono (more : sent ⊆ sent') {bytes : List UInt8} (onAir : OnAir sent bytes) : OnAir sent' bytes := by
  cases onAir with
  | message m inside => exact .message m (more inside)
  | dack enc rest => exact .dack enc rest
  | again junk rest => exact .again junk rest

theorem Genuine.mono (more : sent ⊆ sent') {frame : List UInt8} (genuine : Genuine sent frame) :
    Genuine sent' frame := by
  obtain ⟨junk, bytes, same, onAir⟩ := genuine
  exact ⟨junk, bytes, same, onAir.mono more⟩

theorem GoodTx.mono (more : sent ⊆ sent') {t : EncodingTx} (good : GoodTx sent t) : GoodTx sent' t := by
  obtain ⟨n, seq, slots⟩ := good
  refine ⟨n, seq, fun j below => ?_⟩
  obtain ⟨skb, held, m, inside, same⟩ := slots j below
  exact ⟨skb, held, m, more inside, same⟩

theorem Authentic.mono (more : sent ⊆ sent') {body : List UInt8} (authentic : Authentic sent body) :
    Authentic sent' body := by
  obtain ⟨m, inside, same⟩ := authentic
  exact ⟨m, more inside, same⟩

theorem genuine_lowTx (env : Env) (k : Nat) {skb : Skb} (onAir : OnAir sent skb.data) {frame : List UInt8}
    (inside : frame ∈ radios (vmacLowTx env k skb)) : Genuine sent frame := by
  rw [radios_vmacLowTx] at inside
  split at inside
  · rw [List.mem_singleton] at inside
    exact ⟨env.junk k, skb.data, inside, onAir⟩
  · cases inside

theorem users_lowTx (env : Env) (k : Nat) (skb : Skb) : users (vmacLowTx env k skb) = [] := by
  rw [vmacLowTx, xmitMo]
  split <;> rfl

end Sent

/-! ## Retransmissions -/

section Answer

variable {sent : List (Sent ι)} {env : Env} {s : DackLoop} {seq round : Nat}

/-- The variables of the DACK branch: the entry is good, and all that is sent has been sent before. -/
structure Repeats (sent : List (Sent ι)) (seq : Nat) (s : DackLoop) : Prop where
  seq : s.vmact.seq = seq
  good : GoodTx sent s.vmact
  copy : ∀ skb, s.skb2 = some skb → OnAir sent skb.data
  outs : ∀ frame ∈ radios s.outs, Genuine sent frame
  silent : users s.outs = []

/-- The slot of a frame that was sent holds a message. -/
theorem GoodTx.slot {t : EncodingTx} (good : GoodTx sent t) {le : Nat} (below : le < t.seq) :
    ∃ skb, t.retransmissionBuffer (slotIndex le) = some skb ∧ OnAir sent skb.data := by
  obtain ⟨n, seq, slots⟩ := good
  have le_n : t.seq ≤ n := seq ▸ Nat.mod_le n 65536
  have inside : slotIndex le < min n windowTx := by
    have ring := slotIndex_lt le
    have small : slotIndex le ≤ le := by
      rw [slotIndex_eq]
      exact Nat.mod_le ..
    omega
  obtain ⟨skb, held, m, member, same⟩ := slots _ inside
  exact ⟨skb, held, same ▸ .message m member⟩

theorem Repeats.copySlot (repeats : Repeats sent seq s) {le : Nat} (below : le < seq) :
    Repeats sent seq (s.copySlot env le) := by
  obtain ⟨held, slot, onAir⟩ := repeats.good.slot (repeats.seq ▸ below)
  rw [DackLoop.copySlot, slot]
  split
  · dsimp only
    split
    · refine ⟨repeats.seq, repeats.good, fun skb same => ?_, fun frame inside => ?_, ?_⟩
      · cases same
        exact onAir
      · rw [radios_append, radios_alloc, List.mem_append] at inside
        rcases inside with old | new
        · exact repeats.outs frame old
        · cases new
      · rw [users_append, repeats.silent]
        rfl
    · exact ⟨repeats.seq, repeats.good, fun skb no => absurd no (by simp), repeats.outs, repeats.silent⟩
  · exact repeats

theorem Repeats.sendCopy (repeats : Repeats sent seq s) : Repeats sent seq (s.sendCopy env) := by
  rw [DackLoop.sendCopy]
  split
  next skb copied =>
    refine ⟨repeats.seq, repeats.good, fun skb' same => ?_, fun frame inside => ?_, ?_⟩
    · cases same
      exact .again ..
    · rw [radios_append, List.mem_append] at inside
      rcases inside with old | new
      · exact repeats.outs frame old
      · exact genuine_lowTx env _ (repeats.copy skb copied) new
    · rw [users_append, repeats.silent]
      exact users_lowTx env _ skb
  next => exact repeats

theorem Repeats.answer (repeats : Repeats sent seq s) {le : Nat} (below : le < seq) :
    Repeats sent seq (s.answer env round le) := by
  have copied : Repeats sent seq (s.copySlot env le) := repeats.copySlot below
  exact Repeats.sendCopy ⟨copied.seq, copied.good, copied.copy, copied.outs, copied.silent⟩

theorem Repeats.holeLoop (repeats : Repeats sent seq s) (re n le : Nat) :
    Repeats sent seq (s.holeLoop env seq round re n le) := by
  induction n generalizing le s with
  | zero => exact repeats
  | succ n ih =>
      rw [DackLoop.holeLoop]
      split
      next inside =>
        split
        · split
          · exact repeats
          · exact ih (repeats.answer inside.2) (le + 1)
        · exact ih repeats (le + 1)
      next => exact repeats

theorem Repeats.holesLoop (repeats : Repeats sent seq s) (holes : List VmacHole) :
    Repeats sent seq (s.holesLoop env seq round holes) := by
  induction holes generalizing s with
  | nil => exact repeats
  | cons hole rest ih => exact ih (repeats.holeLoop hole.re _ hole.le)

/-- A DACK is answered with frames that were sent. -/
theorem answerDack_repeats {t : EncodingTx} (good : GoodTx sent t) (data : List UInt8) :
    Repeats sent t.seq (answerDack env t data) := by
  have start : Repeats sent t.seq (.start t) := by
    refine ⟨rfl, good, fun skb no => ?_, fun frame no => ?_, rfl⟩
    · cases no
    · cases no
  exact start.holesLoop _

end Answer

/-! ## What a call keeps -/

section Calls

variable {sent : List (Sent ι)} {env : Env} {n : Entries} {pidt : Int}

/-- The entries that a call leaves are good, and all that it gives to the radio is genuine. -/
structure Keeps (sent : List (Sent ι)) (r : Entries × List Out) : Prop where
  rx : ∀ e, r.1.rx = some e → GoodRx e
  tx : ∀ t, r.1.tx = some t → GoodTx sent t
  radios : ∀ frame ∈ radios r.2, Genuine sent frame

/-- The entries that a call finds are good. -/
structure GoodEntries (sent : List (Sent ι)) (n : Entries) : Prop where
  rx : ∀ e, n.rx = some e → GoodRx e
  tx : ∀ t, n.tx = some t → GoodTx sent t

theorem GoodEntries.keeps (good : GoodEntries sent n) {outs : List Out} (silent : radios outs = []) :
    Keeps sent (n, outs) :=
  ⟨good.rx, good.tx, fun frame inside => by rw [silent] at inside; cases inside⟩

theorem radios_nlSend (skb : Skb) (enc : Enc) (type : UInt8) (seq : Nat) :
    radios (nlSend env pidt skb enc type seq) = [] := by
  rw [nlSend]
  split
  · split
    · dsimp only
      split <;> rfl
    · rfl
  · cases env.skbOut <;> rfl

theorem prepDack_keeps {e : EncodingRx} (good : GoodRx e) (enc : Enc) (round : Nat) :
    GoodRx (prepDack env e enc round).1 ∧ radios (prepDack env e enc round).2 = [] := by
  rw [prepDack]
  split
  · dsimp only
    split
    · refine ⟨fun _ skb pending => ?_, ?_⟩
      · have stored := storeDack_pending e.dacInfo ⟨env.base, e.dackFrame enc round⟩ round
          (dackDuration e.clampAlpha.alpha (e.scan round).loss env.rndm) (rndmBit env.rndm)
        rw [DackInfo.pending] at stored
        split at stored
        · have here : some skb = some ⟨env.base, e.dackFrame enc round⟩ := pending.symm.trans stored
          cases here
          exact ⟨enc, _, rfl⟩
        · cases stored
      · rw [radios_alloc, radios_kfreeSkb]
    · exact ⟨good, rfl⟩
  · exact ⟨good, rfl⟩

theorem requestRound_keeps {e : EncodingRx} (good : GoodRx e) (enc : Enc) (seq : Nat) :
    GoodRx (requestRound env e enc seq).1 ∧ radios (requestRound env e enc seq).2 = [] := by
  rw [requestRound]
  split
  · exact prepDack_keeps (e := { e with round := seq / 5 }) good enc (seq / 5)
  · exact ⟨good, rfl⟩

theorem timeFrame_dacInfo (e : EncodingRx) (seq jiffies : Nat) : (e.timeFrame seq jiffies).dacInfo = e.dacInfo := by
  rw [EncodingRx.timeFrame]
  split
  · rfl
  · split <;> rfl

theorem rxData_keeps {e : EncodingRx} (good : GoodRx e) (enc : Enc) (skb : Skb) :
    GoodRx (rxData env pidt e enc skb).1 ∧ radios (rxData env pidt e enc skb).2 = [] := by
  cases got : (e.refresh env).receive (readSeq env.past skb.data) with
  | none =>
      rw [rxData_drop env pidt e enc got, rxData_drop_outs env pidt e enc got]
      exact ⟨good, rfl⟩
  | some e' =>
      obtain ⟨latest, window, rfl⟩ := receive_frame got
      cases traps : EncodingRx.timeTraps _ (readSeq env.past skb.data) with
      | true =>
          rw [rxData_trap env pidt e enc got traps, rxData_trap_outs env pidt e enc got traps]
          exact ⟨good, rfl⟩
      | false =>
          rw [rxData_run env pidt e enc got traps, rxData_run_outs env pidt e enc got traps, radios_append,
            radios_nlSend, List.append_nil]
          refine requestRound_keeps ?_ enc _
          intro sends skb pending
          rw [timeFrame_dacInfo] at sends pending
          exact good sends skb pending

theorem rxFrame_keeps (good : GoodEntries sent n) (h : VmacHdr) (skb : Skb) :
    Keeps sent (rxFrame env pidt n h skb) := by
  rw [rxFrame]
  split
  · exact good.keeps (radios_nlSend ..)
  split
  · split
    · exact good.keeps rfl
    next e found =>
      obtain ⟨kept, silent⟩ := @rxData_keeps env pidt e (good.rx e found) h.enc skb
      refine ⟨fun e' same => ?_, good.tx, fun frame inside => ?_⟩
      · cases same
        exact kept
      · rw [silent] at inside
        cases inside
  split
  · split
    · exact good.keeps rfl
    next t found =>
      have repeats := @answerDack_repeats ι sent env t (good.tx t found) skb.data
      refine ⟨good.rx, fun t' same => ?_, fun frame inside => ?_⟩
      · cases same
        exact repeats.good
      · rw [radios_append, List.mem_append] at inside
        rcases inside with old | new
        · exact repeats.outs frame old
        · cases new
  split
  · exact good.keeps (radios_nlSend ..)
  split
  · exact good.keeps (radios_nlSend ..)
  · exact good.keeps rfl

theorem radios_releaseCopies (t : EncodingTx) : radios t.releaseCopies = [] := by
  rw [EncodingTx.releaseCopies]
  induction List.range t.held with
  | nil => rfl
  | cons i rest ih => rw [List.flatMap_cons, radios_append, radios_kfreeSkb, ih, List.append_nil]

theorem processEntries_keeps (good : GoodEntries sent n) (clean : EncCleanup) : Keeps sent (processEntries clean n) := by
  rw [processEntries]
  split
  · refine ⟨fun e no => ?_, good.tx, fun frame no => ?_⟩
    · cases no
    · cases no
  · split
    · exact good.keeps rfl
    next t found =>
      refine ⟨good.rx, fun t no => ?_, fun frame inside => ?_⟩
      · cases no
      · rw [radios_releaseCopies] at inside
        cases inside

/-- What a node sends when the DACK timer fires. -/
theorem sendDack_keeps {e : EncodingRx} (good : GoodRx e) :
    GoodRx (sendDack env e).1 ∧ ∀ frame ∈ radios (sendDack env e).2, Genuine sent frame := by
  rw [sendDack, takeDack]
  split
  next sends =>
    refine ⟨fun no => ?_, fun frame inside => ?_⟩
    · cases no
    dsimp only at inside
    cases pending : e.dacInfo.dack with
    | none =>
        rw [pending] at inside
        cases inside
    | some skb =>
        rw [pending] at inside
        obtain ⟨enc, rest, same⟩ := good sends skb pending
        exact genuine_lowTx env 0 (same ▸ .dack enc rest) inside
  next =>
    refine ⟨good, fun frame inside => ?_⟩
    cases inside

/-- A data frame takes the next number and leaves a copy of itself. -/
theorem txData_keeps {t : EncodingTx} (good : GoodTx sent t) (copyOk : env.copyOk 0 = true) (enc : Enc) (skb : Skb)
    {m : Sent ι} (isM : (dataFrame enc t.seq skb).data = m.bytes) (inside : m ∈ sent) :
    GoodTx sent (txData env t enc skb).1 ∧ ∀ frame ∈ radios (txData env t enc skb).2, Genuine sent frame := by
  obtain ⟨n, seq, slots⟩ := good
  refine ⟨⟨n + 1, ?_, fun j below => ?_⟩, fun frame sends => ?_⟩
  · show (t.seq + 1) % 65536 = (n + 1) % 65536
    omega
  · have buffer : (txData env t enc skb).1.retransmissionBuffer = Function.update t.retransmissionBuffer
        (t.seq % windowTx) (some ⟨env.base, (dataFrame enc t.seq skb).data⟩) := by
      rw [txData, dataCopy, if_pos copyOk]
      rfl
    rw [buffer]
    by_cases here : j = t.seq % windowTx
    · rw [here, Function.update_self]
      exact ⟨_, rfl, m, inside, isM⟩
    · rw [Function.update_of_ne here]
      rw [windowTx] at below here slots
      exact slots j (by omega)
  · rw [radios_txData] at sends
    split at sends
    · rw [List.mem_singleton] at sends
      exact ⟨env.junk 0, _, sends, isM ▸ .message m inside⟩
    · cases sends

/-- `vmac_tx` on a message of a process. -/
theorem txFrame_keeps (good : GoodEntries sent n) (copyOk : env.copyOk 0 = true) (skb : Skb) (enc : Enc) {type : UInt8}
    (seqtmp : Nat) (known : FromUser type) {m : Sent ι}
    (isM : m.bytes = frameHeaders enc type (if type = vmacHdrData then n.seq else seqtmp) ++ skb.data)
    (posted : (type = vmacHdrData → n.tx.isSome ∨ env.vmallocOk = true) → m ∈ sent) :
    Keeps sent (txFrame env n skb enc type seqtmp) := by
  have bare (headers : List UInt8) (same : headers ++ skb.data = m.bytes) (other : type ≠ vmacHdrData) :
      ∀ frame ∈ radios (vmacLowTx env 0 (skb.push headers)), Genuine sent frame := by
    intro frame inside
    have onAir : OnAir sent (skb.push headers).data := by
      rw [Skb.push_data, same]
      exact .message m (posted fun data => absurd data other)
    exact genuine_lowTx env 0 onAir inside
  rcases known with rfl | rfl | rfl | rfl
  · have same : VmacHdr.bytes ⟨enc, vmacHdrInterest⟩ ++ skb.data = m.bytes := by
      rw [isM, frameHeaders, if_neg (by decide), List.append_nil]
    have sends := bare _ same (by decide)
    rw [txFrame, if_pos rfl]
    cases found : n.rx with
    | some e =>
        refine ⟨fun e' kept => ?_, good.tx, sends⟩
        cases kept
        exact good.rx e found
    | none =>
        dsimp only
        split
        · refine ⟨fun e' kept => ?_, good.tx, sends⟩
          cases kept
          intro no
          cases no
        · exact good.keeps rfl
  · have number (t : EncodingTx) (here : t.seq = n.seq) (skb : Skb)
        (isM : m.bytes = frameHeaders enc vmacHdrData (if vmacHdrData = vmacHdrData then n.seq else seqtmp) ++ skb.data) :
        (dataFrame enc t.seq skb).data = m.bytes := by
      rw [isM, here, if_pos rfl, frameHeaders, if_pos (by decide)]
      exact (List.append_assoc ..).symm
    rw [txFrame, if_neg (by decide), if_pos rfl]
    cases found : n.tx with
    | some t =>
        have here : t.seq = n.seq := by rw [Entries.seq, found]; rfl
        obtain ⟨kept, sends⟩ := txData_keeps (good.tx t found) copyOk enc skb (number t here skb isM)
          (posted fun _ => .inl (by rw [found]; rfl))
        refine ⟨good.rx, fun t' same => ?_, sends⟩
        cases same
        exact kept
    | none =>
        dsimp only
        split
        next memory =>
          have here : (freshTx env enc).seq = n.seq := by rw [Entries.seq, found]; rfl
          have fresh : GoodTx sent (freshTx env enc) := ⟨0, rfl, fun j below => absurd below (by simp)⟩
          obtain ⟨kept, sends⟩ := txData_keeps fresh copyOk enc skb (number _ here skb isM) (posted fun _ => .inr memory)
          refine ⟨good.rx, fun t' same => ?_, sends⟩
          cases same
          exact kept
        next => exact good.keeps rfl
  · have same : VmacHdr.bytes ⟨enc, vmacHdrAnouncment⟩ ++ skb.data = m.bytes := by
      rw [isM, frameHeaders, if_neg (by decide), List.append_nil]
    exact ⟨good.rx, good.tx, bare _ same (by decide)⟩
  · have same : VmacHdr.bytes ⟨enc, vmacHdrInjected⟩ ++ VmacData.bytes ⟨seqtmp⟩ ++ skb.data = m.bytes := by
      rw [isM, if_neg (by decide), frameHeaders, if_pos (by decide)]
    rw [List.append_assoc] at same
    refine ⟨good.rx, good.tx, fun frame inside => genuine_lowTx env 0 ?_ inside⟩
    rw [Skb.push_data, Skb.push_data, same]
    exact .message m (posted fun data => absurd data (by decide))

/-- A message is not for the process of its own node. -/
theorem users_txFrame (env : Env) (n : Entries) (skb : Skb) (enc : Enc) (type : UInt8) (seqtmp : Nat) :
    users (txFrame env n skb enc type seqtmp).2 = [] := by
  have data (t : EncodingTx) : users (txData env t enc skb).2 = [] := by
    rw [txData, users_append, users_append, users_lowTx]
    cases dataCopy env (dataFrame enc t.seq skb) <;> cases t.oldCopy <;> rfl
  rw [txFrame]
  split
  · dsimp only
    split
    · exact users_lowTx env 0 _
    · split
      · exact users_lowTx env 0 _
      · rfl
  split
  · split
    · exact data _
    · split
      · exact data _
      · rfl
  split
  · exact users_lowTx env 0 _
  split
  · exact users_lowTx env 0 _
  · rfl

/-! ## What a process gets -/

theorem mem_users_nlSend (enc : Enc) (type : UInt8) (seq id : Nat) (payload : List UInt8) {fcs : List UInt8}
    (four : fcs.length = 4) {m : Nat × List UInt8} (inside : m ∈ users (nlSend env pidt ⟨id, payload ++ fcs⟩ enc type seq)) :
    m.2 = Control.bytes { env.txc with type := type, enc := enc, seq := seq } ++ payload := by
  by_cases registered : pidt ≠ -1
  · cases nlmsg : env.nlmsgOk with
    | true =>
        rw [users_nlSend env pidt enc registered nlmsg id payload four, List.mem_singleton] at inside
        rw [inside]
    | false =>
        rw [nlSend, if_pos registered, nlmsg] at inside
        cases inside
  · rw [nlSend, if_neg registered] at inside
    cases found : env.skbOut <;> rw [found] at inside <;> cases inside

/-- The DATA branch hands on what is behind the number. -/
theorem mem_users_rxData (e : EncodingRx) (enc : Enc) (seq id : Nat) (payload : List UInt8) {fcs : List UInt8}
    (four : fcs.length = 4) {m : Nat × List UInt8}
    (inside : m ∈ users (rxData env pidt e enc ⟨id, VmacData.bytes ⟨seq⟩ ++ (payload ++ fcs)⟩).2) :
    m.2 = Control.bytes { env.txc with type := vmacHdrData, enc := enc, seq := seq % 65536 } ++ payload := by
  have number : readSeq env.past (VmacData.bytes ⟨seq⟩ ++ (payload ++ fcs)) = seq % 65536 :=
    readSeq_bytes_mod env.past ⟨seq⟩ _
  have rest : Skb.pull ⟨id, VmacData.bytes ⟨seq⟩ ++ (payload ++ fcs)⟩ 2 = ⟨id, payload ++ fcs⟩ := by
    rw [Skb.pull, pull_of_length (VmacData.length_bytes _)]
  cases passes : (e.refresh env).passes (readSeq env.past (VmacData.bytes ⟨seq⟩ ++ (payload ++ fcs))) with
  | true =>
      obtain ⟨e', got, runs, -⟩ := rxData_passes env pidt e enc ⟨id, _⟩ passes
      rw [rxData_run_outs env pidt e enc got runs, users_append, users_requestRound, List.nil_append, rest,
        number] at inside
      exact mem_users_nlSend enc vmacHdrData _ id payload four inside
  | false =>
      rcases rxData_stops env pidt e enc ⟨id, _⟩ passes with dropped | trapped
      · rw [dropped] at inside
        cases inside
      · rw [trapped] at inside
        cases inside

/-- A message that is heard. -/
theorem hear_message (hash : Enc → Bucket) (w : World) (id : Nat) {m : Sent ι} (formed : m.Formed) {fcs : List UInt8}
    (four : fcs.length = 4) {user : Nat × List UInt8}
    (inside : user ∈ users (vmacRx hash env w ⟨id, m.bytes ++ fcs⟩).2) :
    user.2 = Control.bytes { env.txc with type := m.type, enc := m.enc, seq := m.seq } ++ m.payload := by
  obtain ⟨node, enc, type, seq, payload⟩ := m
  obtain ⟨known, small, bare⟩ := formed
  have low : seq % 65536 = seq := Nat.mod_eq_of_lt small
  rw [Sent.bytes, frameHeaders, List.append_assoc, List.append_assoc, vmacRx_outs] at inside
  dsimp only at known small bare inside ⊢
  rcases known with rfl | rfl | rfl | rfl
  · rw [bare (by decide) (by decide)]
    exact mem_users_nlSend enc vmacHdrInterest 0 id payload four inside
  · rw [rxFrame] at inside
    dsimp only at inside
    rw [if_neg (by decide), if_pos rfl, if_pos (by decide)] at inside
    cases found : (w.found hash enc).rx with
    | none =>
        rw [found] at inside
        cases inside
    | some e =>
        rw [found] at inside
        rw [← low]
        exact mem_users_rxData e enc seq id payload four inside
  · rw [bare (by decide) (by decide)]
    exact mem_users_nlSend enc vmacHdrAnouncment 0 id payload four inside
  · have number : readSeq env.past (VmacData.bytes ⟨seq⟩ ++ (payload ++ fcs)) = seq % 65536 :=
      readSeq_bytes_mod env.past ⟨seq⟩ _
    rw [if_pos (by decide), rxFrame, Skb.pull, pull_of_length (VmacData.length_bytes _)] at inside
    dsimp only at inside
    rw [if_neg (by decide), if_neg (by decide), if_neg (by decide), if_neg (by decide), if_pos rfl, number,
      low] at inside
    exact mem_users_nlSend enc vmacHdrInjected seq id payload four inside

/-- Nothing else is handed on. -/
theorem hear_other (hash : Enc → Bucket) (env : Env) {w : World} (skb : Skb)
    (good : GoodEntries sent (w.found hash (readHdr env.past skb.data).enc))
    (other : ¬FromUser (readHdr env.past skb.data).type) : users (vmacRx hash env w skb).2 = [] := by
  rw [not_or, not_or, not_or] at other
  rw [vmacRx]
  dsimp only
  rw [rxFrame, if_neg other.1, if_neg other.2.1]
  split
  · split
    · rfl
    next t found =>
      rw [users_append, (answerDack_repeats (good.tx t found) _).silent]
      rfl
  · rw [if_neg other.2.2.1, if_neg other.2.2.2]
    rfl

end Calls

/-! ## Tables -/

section Tables

variable {sent : List (Sent ι)} {hash : Enc → Bucket} {w : World}

/-- The tables of a node are good. -/
structure GoodWorld (sent : List (Sent ι)) (w : World) : Prop where
  rx : ∀ b, ∀ e ∈ w.rxEnc b, GoodRx e
  tx : ∀ b, ∀ t ∈ w.txEnc b, GoodTx sent t

theorem GoodWorld.mono {sent' : List (Sent ι)} (more : sent ⊆ sent') (good : GoodWorld sent w) : GoodWorld sent' w :=
  ⟨good.rx, fun b t inside => (good.tx b t inside).mono more⟩

theorem GoodWorld.found (good : GoodWorld sent w) {hash : Enc → Bucket} (enc : Enc) : GoodEntries sent (w.found hash enc) :=
  ⟨fun e found => good.rx _ e (Chain.lastIn_mem found), fun t found => good.tx _ t (Chain.lastIn_mem found)⟩

theorem GoodEntries.seq_lt {n : Entries} (good : GoodEntries sent n) : n.seq < 65536 := by
  rw [Entries.seq]
  cases found : n.tx with
  | none => decide
  | some t =>
      obtain ⟨count, seq, -⟩ := good.tx t found
      show t.seq < 65536
      rw [seq]
      exact Nat.mod_lt _ (by decide)

theorem GoodWorld.put (good : GoodWorld sent w) {r : Entries × List Out} (keeps : Keeps sent r) (enc : Enc) :
    GoodWorld sent (w.put hash enc r.1) := by
  refine ⟨fun b e inside => ?_, fun b t inside => ?_⟩
  · rcases Chain.mem_write inside with old | new
    · exact good.rx b e old
    · exact keeps.rx e new
  · rcases Chain.mem_write inside with old | new
    · exact good.tx b t old
    · exact keeps.tx t new

/-- What a node does keeps its tables good, sends what is genuine and hands on what is authentic. -/
structure Honest (sent : List (Sent ι)) (r : World × List Out) : Prop where
  world : GoodWorld sent r.1
  radios : ∀ frame ∈ radios r.2, Genuine sent frame
  users : ∀ user ∈ users r.2, Authentic sent user.2

theorem GoodWorld.honest (good : GoodWorld sent w) {r : Entries × List Out} (keeps : Keeps sent r) (enc : Enc)
    (handed : ∀ user ∈ users r.2, Authentic sent user.2) : Honest sent (w.put hash enc r.1, r.2) :=
  ⟨good.put keeps enc, keeps.radios, handed⟩

theorem readHdr_again (past : Nat → UInt8) (junk : HdrJunk) (rest : List UInt8) :
    (readHdr past (ieee80211Hdr junk ++ rest)).type = 0xff := by
  simp [readHdr, byteAt, ieee80211Hdr, toLe]

theorem hear_honest (good : GoodWorld sent w) (formed : ∀ m ∈ sent, m.Formed) {env : Env} {id : Nat} {rtap : Radiotap}
    {frame fcs : List UInt8} (genuine : Genuine sent frame) (four : fcs.length = 4) :
    Honest sent (vmacOverride hash env w ⟨id, rtap.bytes ++ (frame ++ fcs)⟩) := by
  obtain ⟨junk, bytes, rfl, onAir⟩ := genuine
  rw [List.append_assoc, vmacOverride_ieee80211Hdr]
  refine good.honest (rxFrame_keeps (good.found _) _ _) _ fun user inside => ?_
  cases onAir with
  | message m member => exact ⟨m, member, env.txc, hear_message hash w id (formed m member) four inside⟩
  | dack enc rest =>
      have header : readHdr env.past (VmacHdr.bytes ⟨enc, vmacHdrDack⟩ ++ rest ++ fcs) = ⟨enc, vmacHdrDack⟩ := by
        rw [List.append_assoc]
        exact readHdr_bytes ..
      have other : ¬FromUser vmacHdrDack := by decide
      have silent := hear_other hash env ⟨id, VmacHdr.bytes ⟨enc, vmacHdrDack⟩ ++ rest ++ fcs⟩
        (good.found _) (by rw [header]; exact other)
      have here : user ∈ ([] : List (Nat × List UInt8)) := silent ▸ inside
      cases here
  | again junk' rest =>
      have header : (readHdr env.past (ieee80211Hdr junk' ++ rest ++ fcs)).type = 0xff := by
        rw [List.append_assoc]
        exact readHdr_again ..
      have other : ¬FromUser 0xff := by decide
      have silent := hear_other hash env ⟨id, ieee80211Hdr junk' ++ rest ++ fcs⟩ (good.found _)
        (by rw [header]; exact other)
      have here : user ∈ ([] : List (Nat × List UInt8)) := silent ▸ inside
      cases here

/-- Only a data or an injected frame has its number in it. -/
theorem frameHeaders_seqGiven (w : World) (enc : Enc) (type : UInt8) (seqtmp : Nat) :
    frameHeaders enc type (seqGiven hash w enc type seqtmp) =
      frameHeaders enc type (if type = vmacHdrData then (w.found hash enc).seq else seqtmp) := by
  rw [frameHeaders, frameHeaders, seqGiven]
  by_cases data : type = vmacHdrData
  · rw [if_pos data, if_pos data]
  · rw [if_neg data, if_neg data]
    by_cases injected : type = vmacHdrInjected
    · rw [if_pos injected]
    · rw [if_neg (not_or.mpr ⟨data, injected⟩), if_neg (not_or.mpr ⟨data, injected⟩)]

/-- A message of a process. -/
theorem message_honest (good : GoodWorld sent w) {i : ι} {env : Env} {skb2 : Option Nat} {rxcSeq : Nat} {msg : Nlmsg}
    (copyOk : env.copyOk 0 = true) (posted : (NetAct.message i env skb2 rxcSeq msg).posted hash w ⊆ sent) :
    Honest sent (nlRecv hash env w skb2 rxcSeq msg) := by
  rw [nlRecv]
  dsimp only
  have idle {outs : List Out} (silent : radios outs = []) (users : users outs = []) :
      Honest sent ({ w with pidt := msg.pid }, outs) := by
    refine ⟨⟨good.rx, good.tx⟩, fun frame inside => ?_, fun user inside => ?_⟩
    · rw [silent] at inside
      cases inside
    · rw [users] at inside
      cases inside
  split
  next known =>
    cases skb2 with
    | none => exact idle rfl rfl
    | some id =>
        dsimp only
        split
        · exact idle rfl rfl
        next long =>
          have registered : GoodWorld sent { w with pidt := msg.pid } := ⟨good.rx, good.tx⟩
          have found : GoodEntries sent (World.found hash { w with pidt := msg.pid } (readControl env.past msg.data).enc) :=
            registered.found _
          have keeps := txFrame_keeps found copyOk ⟨id, msg.frame env.past⟩ (readControl env.past msg.data).enc
            (rxcSeq % 65536) known (m := ⟨i, (readControl env.past msg.data).enc, UInt8.ofNat msg.type,
              seqGiven hash w (readControl env.past msg.data).enc (UInt8.ofNat msg.type) (rxcSeq % 65536),
              msg.frame env.past⟩) ?_ ?_
          · refine ⟨registered.put keeps _, fun frame inside => keeps.radios frame inside, fun user inside => ?_⟩
            have silent := users_txFrame env (World.found hash { w with pidt := msg.pid }
              (readControl env.past msg.data).enc) ⟨id, msg.frame env.past⟩ (readControl env.past msg.data).enc
              (UInt8.ofNat msg.type) (rxcSeq % 65536)
            have here : user ∈ ([] : List (Nat × List UInt8)) := silent ▸ inside
            cases here
          · rw [Sent.bytes]
            dsimp only
            rw [frameHeaders_seqGiven]
            rfl
          · intro memory
            refine posted ?_
            rw [NetAct.posted]
            rw [if_pos ⟨known, rfl, Nat.not_lt.mp long, memory⟩]
            exact List.mem_singleton_self _
  next => exact idle rfl rfl

/-- A message that comes to `vmac_tx` is formed. -/
theorem posted_formed {a : NetAct ι} (good : GoodWorld sent w) {m : Sent ι} (inside : m ∈ a.posted hash w) : m.Formed := by
  cases a with
  | message i env skb2 rxcSeq msg =>
      rw [NetAct.posted] at inside
      split at inside
      next goes =>
        rw [List.mem_singleton] at inside
        rw [inside]
        refine ⟨goes.1, ?_, fun noData noInjected => ?_⟩
        · rw [seqGiven]
          split
          · exact (good.found _).seq_lt
          · split
            · exact Nat.mod_lt _ (by decide)
            · exact Nat.zero_lt_succ _
        · rw [seqGiven, if_neg noData, if_neg noInjected]
      next => cases inside
  | hear i env id rtap frame fcs => cases inside
  | dackTimer i env e => cases inside
  | expireRx i e => cases inside
  | expireTx i t => cases inside

theorem users_releaseCopies (t : EncodingTx) : users t.releaseCopies = [] := by
  rw [EncodingTx.releaseCopies]
  induction List.range t.held with
  | nil => rfl
  | cons i rest ih =>
      rw [List.flatMap_cons, users_append, ih]
      cases t.retransmissionBuffer i <;> rfl

theorem process_honest (good : GoodWorld sent w) (clean : EncCleanup) : Honest sent (process hash w clean) := by
  refine good.honest (processEntries_keeps (good.found _) clean) _ fun user inside => ?_
  rw [processEntries] at inside
  split at inside
  · cases inside
  · split at inside
    · cases inside
    · rw [users_releaseCopies] at inside
      cases inside

theorem fireDack_honest (good : GoodWorld sent w) {env : Env} {e : EncodingRx} (inside : ∃ b, e ∈ w.rxEnc b) :
    Honest sent (fireDack hash env w e) := by
  obtain ⟨b, inside⟩ := inside
  obtain ⟨kept, sends⟩ := @sendDack_keeps ι sent env e (good.rx b e inside)
  refine ⟨⟨fun b' e' inside' => ?_, good.tx⟩, sends, fun user no => ?_⟩
  · have written : e' ∈ Chain.write hash EncodingRx.key w.rxEnc e.key (some e) (some (sendDack env e).1) b' := inside'
    rcases Chain.mem_write written with old | new
    · exact good.rx b' e' old
    · cases new
      exact kept
  · have silent : users (sendDack env e).2 = [] := by
      rw [sendDack, takeDack]
      split
      · cases e.dacInfo.dack with
        | none => rfl
        | some skb => exact users_lowTx env 0 skb
      · rfl
    rw [fireDack, silent] at no
    cases no

end Tables

/-! ## Runs -/

section Runs

variable [DecidableEq ι] {hash : Enc → Bucket} {net : Net ι}

/-- The invariant. -/
structure Net.Inv (net : Net ι) : Prop where
  formed : ∀ m ∈ net.sent, m.Formed
  nodes : ∀ i, GoodWorld net.sent (net.nodes i)
  air : ∀ frame ∈ net.air, Genuine net.sent frame
  got : ∀ i body, (i, body) ∈ net.got → Authentic net.sent body

theorem Net.Inv.step (inv : net.Inv) {a : NetAct ι} (possible : net.Possible a) : (net.step hash a).Inv := by
  have more : net.sent ⊆ net.sent ++ a.posted hash (net.nodes a.node) := List.subset_append_left ..
  have good := (inv.nodes a.node).mono more
  have formed : ∀ m ∈ net.sent ++ a.posted hash (net.nodes a.node), m.Formed := by
    intro m inside
    rcases List.mem_append.mp inside with old | new
    · exact inv.formed m old
    · exact posted_formed (inv.nodes a.node) new
  have honest : Honest (net.sent ++ a.posted hash (net.nodes a.node)) (a.call hash (net.nodes a.node)) := by
    cases a with
    | message i env skb2 rxcSeq msg => exact message_honest good possible (List.subset_append_right ..)
    | hear i env id rtap frame fcs => exact hear_honest good formed ((inv.air frame possible.1).mono more) possible.2
    | dackTimer i env e => exact fireDack_honest good possible
    | expireRx i e => exact process_honest good _
    | expireTx i t => exact process_honest good _
  refine ⟨formed, fun i => ?_, fun frame inside => ?_, fun i body inside => ?_⟩
  · show GoodWorld _ (Function.update net.nodes a.node _ i)
    by_cases here : i = a.node
    · rw [here, Function.update_self]
      exact honest.world
    · rw [Function.update_of_ne here]
      exact (inv.nodes i).mono more
  · rcases List.mem_append.mp inside with old | new
    · exact (inv.air frame old).mono more
    · exact honest.radios frame new
  · rcases List.mem_append.mp inside with old | new
    · exact (inv.got i body old).mono more
    · obtain ⟨user, handed, same⟩ := List.mem_map.mp new
      cases same
      exact honest.users user handed

theorem inv_of_run (run : Runs (Net.step hash) Net.Possible Net.start net) : net.Inv := by
  refine run.keeps ⟨?_, ?_, ?_, ?_⟩ fun net a inv possible => Net.Inv.step inv possible
  · intro m no
    cases no
  · refine fun i => ⟨fun b e no => ?_, fun b t no => ?_⟩
    · cases no
    · cases no
  · intro frame no
    cases no
  · intro i body no
    cases no

/-- What a process gets has been sent under this name, with its type, its number and its payload. -/
theorem authentic (run : Runs (Net.step hash) Net.Possible Net.start net) {i : ι} {body : List UInt8}
    (inside : (i, body) ∈ net.got) : Authentic net.sent body :=
  (inv_of_run run).got i body inside

end Runs

/-- A message of a process under the name 7. -/
def sevenMsg (type : UInt8) (payload : List UInt8) : Nlmsg :=
  ⟨payload.length + 100, type.toNat, 42, Control.bytes ⟨type, 7, 0, 0, 0, 0, 0⟩ ++ payload⟩

/-- The first data frame under this name. -/
def sevenFrame : List UInt8 :=
  ieee80211Hdr ⟨0, 0, 0⟩ ++ (frameHeaders 7 vmacHdrData 0 ++ [1, 2, 3])

theorem noFields_short : 4 + ([] : List UInt8).length < 65536 := by decide

/-- A node asks, another answers, and the first hears the answer. -/
def sevenActs : List (NetAct Bool) :=
  [.message false .quiet (some 5) 0 (sevenMsg vmacHdrInterest []),
    .message true .quiet (some 6) 0 (sevenMsg vmacHdrData [1, 2, 3]),
    .hear false .quiet 7 ⟨0, 0, [], noFields_short⟩ sevenFrame [0, 0, 0, 0]]

def sevenNet : Net Bool := along (Net.step oneBucket) Net.start sevenActs

/-- What the process of the first node gets. -/
def sevenBody : List UInt8 := Control.bytes ⟨vmacHdrData, 7, 0, 0, 0, 0, 0⟩ ++ [1, 2, 3]

theorem sevenNet_run : Runs (Net.step oneBucket) (fun net a => Net.Possible net a ∧ ∀ t, a ≠ .expireTx true t)
    (Net.start : Net Bool) sevenNet := by
  have asks : Runs (Net.step oneBucket) (fun net a => Net.Possible net a ∧ ∀ t, a ≠ .expireTx true t) (Net.start : Net Bool)
      (along (Net.step oneBucket) Net.start (sevenActs.take 1)) := by
    refine .step .start (NetAct.message false .quiet (some 5) 0 (sevenMsg vmacHdrInterest [])) ⟨rfl, fun t no => ?_⟩
    cases no
  have answers : Runs (Net.step oneBucket) (fun net a => Net.Possible net a ∧ ∀ t, a ≠ .expireTx true t)
      (Net.start : Net Bool) (along (Net.step oneBucket) Net.start (sevenActs.take 2)) := by
    refine asks.step (NetAct.message true .quiet (some 6) 0 (sevenMsg vmacHdrData [1, 2, 3])) ⟨rfl, fun t no => ?_⟩
    cases no
  refine answers.step (NetAct.hear false .quiet 7 ⟨0, 0, [], noFields_short⟩ sevenFrame [0, 0, 0, 0])
    ⟨⟨by decide, rfl⟩, fun t no => ?_⟩
  cases no

theorem authentic_seven : Authentic sevenNet.sent sevenBody :=
  authentic (sevenNet_run.mono fun _ _ both => both.1) (i := false) (by decide)

end Vmac.Userspace
