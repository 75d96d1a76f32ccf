/-
# Vmac.Userspace.Agreement -- one producer for a name

A node numbers its data frames in each bucket of its table.  As long as its entries live and have not come to 65536, the
numbers of a bucket count up from 0, whatever it hears and whichever timers fire.

* `Net.Counts`: the numbers given, and the next one.
* `agreement`: what two processes get under one name and number is the same, if one node sends under the name.
-/
import Vmac.Userspace.Network

namespace Vmac.Userspace

open Core Recv Theory Theory.Bytes Theory.Run

set_option autoImplicit false

variable {ι : Type} [DecidableEq ι] {hash : Enc → Bucket} {net : Net ι}

/-! ## What a call does to the numbers -/

/-- The data frames of a node in a bucket. -/
def Net.numbered (hash : Enc → Bucket) (net : Net ι) (p : ι) (b : Bucket) : List (Sent ι) :=
  net.sent.filter fun m => m.node = p ∧ m.type = vmacHdrData ∧ hash m.enc = b

/-- The numbers of a node count up in each bucket. -/
structure Net.Counts (hash : Enc → Bucket) (net : Net ι) (p : ι) : Prop where
  good : WellFormed hash (net.nodes p)
  numbers : ∀ b, (net.numbered hash p b).map Sent.seq = List.range (net.numbered hash p b).length
  next : ∀ enc, ((net.nodes p).found hash enc).seq = (net.numbered hash p (hash enc)).length

/-- What a call leaves for the encodings of its bucket, and for the others. -/
theorem seq_put {w : World} (good : WellFormed hash w) {enc : Enc} {n' : Entries}
    (follows : Follows enc (w.found hash enc) n') (enc' : Enc) :
    ((w.put hash enc n').found hash enc').seq = if hash enc' = hash enc then n'.seq else (w.found hash enc').seq := by
  have keyed : ∀ t, n'.tx = some t → hash t.key = hash enc := by
    intro t left
    rw [(follows.tx t left).1]
    cases found : (w.found hash enc).tx with
    | none => rfl
    | some old => exact good.tx.placed _ old (Chain.lastIn_mem found)
  by_cases same : hash enc' = hash enc
  · rw [if_pos same]
    have written := @Chain.lastIn_write _ _ _ _ hash EncodingTx.key w.txEnc enc _ (good.tx.short (hash enc)) keyed
    have here : ((w.put hash enc n').found hash enc').tx = n'.tx := by
      rw [← written]
      exact congrArg (fun b => ((w.put hash enc n').txEnc b).getLast?) same
    rw [Entries.seq, here, Entries.seq]
  · rw [if_neg same]
    have here : ((w.put hash enc n').found hash enc').tx = (w.found hash enc').tx :=
      Chain.lastIn_write_other w.txEnc same keyed
    rw [Entries.seq, here, Entries.seq]

/-- A call on frames leaves the number of its encoding. -/
theorem rxFrame_seq (env : Env) (pidt : Int) (n : Entries) (h : VmacHdr) (skb : Skb) :
    (rxFrame env pidt n h skb).1.seq = n.seq := by
  rw [rxFrame]
  split
  · rfl
  split
  · split <;> rfl
  split
  · split
    · rfl
    next t found =>
      rw [Entries.seq, Entries.seq, found]
      exact (answerDack_sameFrames env t skb.data).seq
  split
  · rfl
  split <;> rfl

/-- A data frame takes the number of its encoding, if there is an entry or memory for one. -/
theorem txFrame_seq (env : Env) (n : Entries) (skb : Skb) (enc : Enc) (type : UInt8) (seqtmp : Nat) :
    (txFrame env n skb enc type seqtmp).1.seq =
      if type = vmacHdrData ∧ (n.tx.isSome ∨ env.vmallocOk = true) then (n.seq + 1) % 65536 else n.seq := by
  by_cases takes : type = vmacHdrData ∧ (n.tx.isSome ∨ env.vmallocOk = true)
  · obtain ⟨rfl, memory⟩ := takes
    rw [if_pos ⟨rfl, memory⟩]
    rcases txFrame_data env n skb enc seqtmp with ⟨t, seq, sends⟩ | ⟨absent, no, -⟩
    · rw [sends, ← seq]
      rfl
    · rw [absent, no] at memory
      simp at memory
  · rw [if_neg takes, txFrame]
    split
    · dsimp only
      split
      · rfl
      · split <;> rfl
    split
    next data =>
      rw [not_and, not_or] at takes
      obtain ⟨absent, memory⟩ := takes data
      cases found : n.tx with
      | some t => simp [found] at absent
      | none =>
          dsimp only
          rw [if_neg memory]
    split
    · rfl
    · split <;> rfl

omit [DecidableEq ι] in
theorem posted_node {w : World} {a : NetAct ι} {m : Sent ι} (inside : m ∈ a.posted hash w) : m.node = a.node := by
  cases a with
  | message i env skb2 rxcSeq msg =>
      rw [NetAct.posted] at inside
      split at inside
      · rw [List.mem_singleton] at inside
        rw [inside]
        rfl
      · cases inside
  | hear i env id rtap frame fcs => cases inside
  | dackTimer i env e => cases inside
  | expireRx i e => cases inside
  | expireTx i t => cases inside

theorem numbered_step (net : Net ι) (a : NetAct ι) (p : ι) (b : Bucket) : (net.step hash a).numbered hash p b =
    net.numbered hash p b ++
      (a.posted hash (net.nodes a.node)).filter fun m => m.node = p ∧ m.type = vmacHdrData ∧ hash m.enc = b :=
  List.filter_append ..

/-- Nothing is numbered at the node. -/
theorem Net.Counts.quiet {p : ι} (counts : net.Counts hash p) {a : NetAct ι}
    (good : WellFormed hash ((net.step hash a).nodes p))
    (same : ∀ enc, (((net.step hash a).nodes p).found hash enc).seq = ((net.nodes p).found hash enc).seq)
    (silent : ∀ m ∈ a.posted hash (net.nodes a.node), ¬(m.node = p ∧ m.type = vmacHdrData)) :
    (net.step hash a).Counts hash p := by
  have kept (b : Bucket) : (net.step hash a).numbered hash p b = net.numbered hash p b := by
    rw [numbered_step, List.filter_eq_nil_iff.mpr, List.append_nil]
    intro m inside
    simpa using fun node type => absurd ⟨node, type⟩ (silent m inside)
  refine ⟨good, fun b => ?_, fun enc => ?_⟩
  · rw [kept]
    exact counts.numbers b
  · rw [kept, same]
    exact counts.next enc

/-- A call that leaves the number of its encoding leaves all numbers. -/
theorem put_quiet {w : World} (good : WellFormed hash w) {enc : Enc} {n' : Entries}
    (follows : Follows enc (w.found hash enc) n') (same : n'.seq = (w.found hash enc).seq) :
    WellFormed hash (w.put hash enc n') ∧
      ∀ enc', ((w.put hash enc n').found hash enc').seq = (w.found hash enc').seq := by
  refine ⟨good.put follows, fun enc' => ?_⟩
  rw [seq_put good follows]
  split
  next bucket =>
    rw [same]
    exact congrArg (fun b => ((w.txEnc b).getLast?).elim 0 EncodingTx.seq) bucket.symm
  next => rfl

theorem hear_quiet {w : World} (good : WellFormed hash w) (env : Env) (skb : Skb) :
    WellFormed hash (vmacOverride hash env w skb).1 ∧
      ∀ enc, ((vmacOverride hash env w skb).1.found hash enc).seq = (w.found hash enc).seq := by
  rw [vmacOverride]
  split
  · exact put_quiet good (.rxFrame env w.pidt _ _) (rxFrame_seq ..)
  · exact ⟨good, fun _ => rfl⟩

theorem cleanupRx_quiet {w : World} (good : WellFormed hash w) (e : EncodingRx) :
    WellFormed hash (cleanupRx hash w e).1 ∧
      ∀ enc, ((cleanupRx hash w e).1.found hash enc).seq = (w.found hash enc).seq :=
  put_quiet good (.process _) rfl

theorem fireDack_quiet {w : World} (good : WellFormed hash w) (env : Env) {e : EncodingRx} (inside : ∃ b, e ∈ w.rxEnc b) :
    WellFormed hash (fireDack hash env w e).1 := by
  obtain ⟨b, inside⟩ := inside
  obtain ⟨found, -⟩ := Chain.lastIn_of_mem good.rx inside
  have key : (sendDack env e).1.key = e.key := rfl
  refine ⟨good.rx.replace found key, good.tx, fun b' e' inside' => ?_, good.cleanTx⟩
  have written : e' ∈ Chain.write hash EncodingRx.key w.rxEnc e.key (some e) (some (sendDack env e).1) b' := inside'
  rcases Chain.mem_write written with old | new
  · exact good.cleanRx b' e' old
  · cases new
    exact good.cleanRx b e inside

/-- A message comes to `vmac_tx`, or leaves the tables. -/
theorem nlRecv_world (hash : Enc → Bucket) (env : Env) (w : World) (skb2 : Option Nat) (rxcSeq : Nat) (msg : Nlmsg) :
    (∃ skb, FromUser (UInt8.ofNat msg.type) ∧ skb2.isSome ∧ 100 ≤ msg.len ∧
      (nlRecv hash env w skb2 rxcSeq msg).1 = World.put hash { w with pidt := msg.pid } (readControl env.past msg.data).enc
        (txFrame env (w.found hash (readControl env.past msg.data).enc) skb (readControl env.past msg.data).enc
          (UInt8.ofNat msg.type) (rxcSeq % 65536)).1) ∨
    ¬(FromUser (UInt8.ofNat msg.type) ∧ skb2.isSome ∧ 100 ≤ msg.len) ∧
      (nlRecv hash env w skb2 rxcSeq msg).1 = { w with pidt := msg.pid } := by
  rw [nlRecv]
  dsimp only
  split
  next known =>
    cases skb2 with
    | none => exact .inr ⟨fun no => by simp at no, rfl⟩
    | some id =>
        dsimp only
        split
        next short => exact .inr ⟨fun all => by omega, rfl⟩
        next long => exact .inl ⟨_, known, rfl, Nat.not_lt.mp long, rfl⟩
  next unknown => exact .inr ⟨fun all => unknown all.1, rfl⟩

/-- A data frame takes the next number of its bucket. -/
theorem Net.Counts.give {p : ι} (counts : net.Counts hash p) {a : NetAct ι} {m : Sent ι} (node : m.node = p)
    (data : m.type = vmacHdrData) (posted : a.posted hash (net.nodes a.node) = [m])
    (few : (net.step hash a).sent.length ≤ 65535) (good : WellFormed hash ((net.step hash a).nodes p))
    (number : m.seq = ((net.nodes p).found hash m.enc).seq)
    (taken : ∀ enc, (((net.step hash a).nodes p).found hash enc).seq =
      if hash enc = hash m.enc then (m.seq + 1) % 65536 else ((net.nodes p).found hash enc).seq) :
    (net.step hash a).Counts hash p := by
  have grown (b : Bucket) : (net.step hash a).numbered hash p b =
      if b = hash m.enc then net.numbered hash p b ++ [m] else net.numbered hash p b := by
    rw [numbered_step, posted]
    by_cases here : b = hash m.enc
    · simp [here, node, data]
    · simp [here, node, data, Ne.symm here]
  have count : m.seq = (net.numbered hash p (hash m.enc)).length := number.trans (counts.next m.enc)
  have room : m.seq < 65535 := by
    have shorter : (net.numbered hash p (hash m.enc)).length ≤ net.sent.length := List.length_filter_le ..
    have longer : (net.step hash a).sent.length = net.sent.length + 1 := by
      show (net.sent ++ a.posted hash (net.nodes a.node)).length = _
      rw [posted, List.length_append]
      rfl
    omega
  refine ⟨good, fun b => ?_, fun enc => ?_⟩
  · rw [grown]
    split
    next here =>
      rw [List.map_append, counts.numbers, List.length_append, here, List.map_singleton, count]
      exact List.range_succ.symm
    next => exact counts.numbers b
  · rw [grown, taken]
    split
    next here =>
      rw [List.length_append, here, ← count]
      exact Nat.mod_eq_of_lt (by omega)
    next => exact counts.next enc

theorem Net.Counts.message {i : ι} (counts : net.Counts hash i) (env : Env) (skb2 : Option Nat) (rxcSeq : Nat) (msg : Nlmsg)
    (few : (net.step hash (.message i env skb2 rxcSeq msg)).sent.length ≤ 65535) :
    (net.step hash (.message i env skb2 rxcSeq msg)).Counts hash i := by
  have world : (net.step hash (.message i env skb2 rxcSeq msg)).nodes i =
      (nlRecv hash env (net.nodes i) skb2 rxcSeq msg).1 := Function.update_self ..
  have registered : WellFormed hash { net.nodes i with pidt := msg.pid } :=
    ⟨counts.good.rx, counts.good.tx, counts.good.cleanRx, counts.good.cleanTx⟩
  rcases nlRecv_world hash env (net.nodes i) skb2 rxcSeq msg with ⟨skb, known, buffer, long, after⟩ | ⟨not, after⟩
  · have follows := @Follows.txFrame ((net.nodes i).found hash (readControl env.past msg.data).enc) env skb
      (readControl env.past msg.data).enc (UInt8.ofNat msg.type) (rxcSeq % 65536)
    have seq := txFrame_seq env ((net.nodes i).found hash (readControl env.past msg.data).enc) skb
      (readControl env.past msg.data).enc (UInt8.ofNat msg.type) (rxcSeq % 65536)
    by_cases takes : UInt8.ofNat msg.type = vmacHdrData ∧
        (((net.nodes i).found hash (readControl env.past msg.data).enc).tx.isSome ∨ env.vmallocOk = true)
    · rw [if_pos takes] at seq
      have number : seqGiven hash (net.nodes i) (readControl env.past msg.data).enc (UInt8.ofNat msg.type) (rxcSeq % 65536) =
          ((net.nodes i).found hash (readControl env.past msg.data).enc).seq := if_pos takes.1
      refine counts.give (m := ⟨i, (readControl env.past msg.data).enc, UInt8.ofNat msg.type, _, msg.frame env.past⟩) rfl
        takes.1 (if_pos ⟨known, buffer, long, fun _ => takes.2⟩) few (world ▸ after ▸ registered.put follows) number
        fun enc => ?_
      rw [world, after, seq_put registered follows, seq, ← number]
      rfl
    · rw [if_neg takes] at seq
      obtain ⟨good, same⟩ := put_quiet registered follows seq
      refine counts.quiet (world ▸ after ▸ good) (fun enc => by rw [world, after]; exact same enc) fun m inside both => ?_
      rw [NetAct.posted] at inside
      split at inside
      next goes =>
        rw [List.mem_singleton] at inside
        rw [inside] at both
        exact takes ⟨both.2, goes.2.2.2 both.2⟩
      next => cases inside
  · refine counts.quiet (world ▸ after ▸ registered) (fun enc => by rw [world, after]; rfl) fun m inside both => ?_
    rw [NetAct.posted] at inside
    split at inside
    next goes => exact not ⟨goes.1, goes.2.1, goes.2.2.1⟩
    next => cases inside

theorem Net.Counts.step {p : ι} (counts : net.Counts hash p) {a : NetAct ι}
    (few : (net.step hash a).sent.length ≤ 65535) (possible : net.Possible a) (lives : ∀ t, a ≠ .expireTx p t) :
    (net.step hash a).Counts hash p := by
  by_cases here : p = a.node
  · subst here
    have world : (net.step hash a).nodes a.node = (a.call hash (net.nodes a.node)).1 := Function.update_self ..
    cases a with
    | message i env skb2 rxcSeq msg => exact counts.message env skb2 rxcSeq msg few
    | hear i env id rtap frame fcs =>
        obtain ⟨good, same⟩ := hear_quiet counts.good env ⟨id, rtap.bytes ++ (frame ++ fcs)⟩
        refine counts.quiet (world ▸ good) (fun enc => world ▸ same enc) fun m no => ?_
        cases no
    | dackTimer i env e =>
        refine counts.quiet (world ▸ fireDack_quiet counts.good env possible) (fun enc => world ▸ rfl) fun m no => ?_
        cases no
    | expireRx i e =>
        obtain ⟨good, same⟩ := cleanupRx_quiet counts.good e
        refine counts.quiet (world ▸ good) (fun enc => world ▸ same enc) fun m no => ?_
        cases no
    | expireTx i t => exact absurd rfl (lives t)
  · have same : (net.step hash a).nodes p = net.nodes p := Function.update_of_ne here ..
    refine counts.quiet (same ▸ counts.good) (fun enc => by rw [same]) fun m inside both => here ?_
    rw [← both.1]
    exact posted_node inside

/-- As long as a node's entries live and its numbers have not run over, they count up. -/
theorem counts_of_run {p : ι} (run : Runs (Net.step hash) (fun net a => net.Possible a ∧ ∀ t, a ≠ .expireTx p t)
    Net.start net) (few : net.sent.length ≤ 65535) : net.Counts hash p := by
  induction run with
  | start => exact ⟨(Reachable.init (-1)).wellFormed, fun b => rfl, fun enc => rfl⟩
  | @step net before a possible ih =>
      have less : net.sent.length ≤ (net.step hash a).sent.length := by
        show _ ≤ (net.sent ++ _).length
        rw [List.length_append]
        exact Nat.le_add_right ..
      exact (ih (less.trans few)).step few possible.1 possible.2

/-- What two processes get under one name and number is the same, if one node sends under the name. -/
theorem agreement {p : ι} (run : Runs (Net.step hash) (fun net a => net.Possible a ∧ ∀ t, a ≠ .expireTx p t) Net.start net)
    (few : net.sent.length ≤ 65535) {enc : Enc}
    (single : ∀ m ∈ net.sent, m.enc = enc → m.type = vmacHdrData → m.node = p) {i i' : ι} {body body' : List UInt8}
    (inside : (i, body) ∈ net.got) (inside' : (i', body') ∈ net.got) {past : Nat → UInt8}
    (type : (readControl past body).type = vmacHdrData) (type' : (readControl past body').type = vmacHdrData)
    (name : (readControl past body).enc = enc) (name' : (readControl past body').enc = enc)
    (seq : (readControl past body).seq = (readControl past body').seq) : body.drop 15 = body'.drop 15 := by
  have wide : Runs (Net.step hash) Net.Possible Net.start net := run.mono fun _ _ both => both.1
  have inv := inv_of_run wide
  have counts := counts_of_run run few
  have origin {i : ι} {body : List UInt8} (inside : (i, body) ∈ net.got) : ∃ m ∈ net.sent,
      (readControl past body).type = m.type ∧ (readControl past body).enc = m.enc ∧ (readControl past body).seq = m.seq ∧
        body.drop 15 = m.payload := by
    obtain ⟨m, member, txc, rfl⟩ := inv.got _ _ inside
    rw [readControl_bytes past (inv.formed m member).small]
    exact ⟨m, member, rfl, rfl, rfl, List.drop_left' (Control.length_bytes _)⟩
  obtain ⟨m, member, mType, mEnc, mSeq, payload⟩ := origin inside
  obtain ⟨m', member', mType', mEnc', mSeq', payload'⟩ := origin inside'
  rw [mType] at type
  rw [mType'] at type'
  rw [mEnc] at name
  rw [mEnc'] at name'
  have numbered {m : Sent ι} (member : m ∈ net.sent) (type : m.type = vmacHdrData) (name : m.enc = enc) :
      m ∈ net.numbered hash p (hash enc) := by
    rw [Net.numbered, List.mem_filter]
    exact ⟨member, by simp [single m member name type, type, name]⟩
  have nodup : ((net.numbered hash p (hash enc)).map Sent.seq).Nodup := by
    rw [counts.numbers]
    exact List.nodup_range
  have same : m = m' := List.inj_on_of_nodup_map nodup (numbered member type name) (numbered member' type' name')
    (mSeq.symm.trans (seq.trans mSeq'))
  rw [payload, payload', same]

theorem agreement_seven : (false, sevenBody) ∈ sevenNet.got ∧
    ∀ body, (false, body) ∈ sevenNet.got → (readControl (fun _ => 0) body).type = vmacHdrData →
      (readControl (fun _ => 0) body).enc = 7 → (readControl (fun _ => 0) body).seq = 0 → body.drop 15 = [1, 2, 3] := by
  have got : (false, sevenBody) ∈ sevenNet.got := by decide
  refine ⟨got, fun body inside type name seq => ?_⟩
  have single : ∀ m ∈ sevenNet.sent, m.enc = 7 → m.type = vmacHdrData → m.node = true := by decide
  exact agreement sevenNet_run (by decide) single inside got type (by decide) name (by decide) (seq.trans (by decide))

end Vmac.Userspace
