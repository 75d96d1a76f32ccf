/-
# Vmac.Mlme.ScannedRun -- the table of scanned networks over a whole run

* `survey_cases`: what a survey result can do to the table.
* `Sound`: each record is in one of the two queues, the queue of scanned networks is counted and names no network twice.
* `kept_iff`: when a step keeps the table as it should be.  `rtw_update_scanned_network` takes over the record that was
  scanned longest ago whether it is marked or not; `rtw_get_oldest_wlan_network` passes marked records over.
-/
import Vmac.Mlme.Scanned
import Mathlib.Data.Fintype.Card

namespace Vmac.Mlme.Scanned

open Theory.Placement Theory.Run

set_option autoImplicit false

variable {s : Table} {p : Record} {target : WlanBssidEx} {adapter : Adapter}
  {jiffiesToMsecs : BitVec 64 → BitVec 32}

/-! ## A survey result -/

namespace Table

/-- The record of `scanned_queue` that was scanned longest ago. -/
def oldest (s : Table) : Option Record := (s.queue .scanned).foldl s.older none

/-- The record that a new network gets. -/
def taken (s : Table) : Option Record :=
  match s.queue .free with
  | [] => s.oldest
  | p :: _ => some p

/-- No entry of `scanned_queue` is this network. -/
def Unknown (s : Table) (target : WlanBssidEx) : Prop :=
  ∀ p ∈ s.queue .scanned, (s.network p).network.identity ≠ target.identity

/-- `scanned_queue` with a record of `free_bss_pool` for a new network. -/
def insertNew (s : Table) (p : Record) (target : WlanBssidEx) : Table where
  network := Function.update s.network p
    (((s.network p).alloc s.jiffies).pull { target with length := target.size } s.jiffies)
  queue := append .scanned p (unlink p s.queue)
  numOfScanned := s.numOfScanned + 1
  jiffies := s.jiffies

end Table

open Table

theorem identity_setNetwork {r : WlanNetwork} (same : r.network.identity = (s.network p).network.identity)
    (q : Record) : ((s.setNetwork p r).network q).network.identity = (s.network q).network.identity := by
  by_cases at_ : q = p
  · rw [at_, setNetwork_self, same]
  · rw [setNetwork_of_ne s r at_]

theorem insertNew_of_ne (s : Table) (target : WlanBssidEx) {q : Record} (other : q ≠ p) :
    (s.insertNew p target).network q = s.network q := by
  simp [insertNew, other]

theorem identity_insertNew_iff :
    ((s.insertNew p target).network p).network.identity = target.identity ↔ (s.network p).network.Carries target := by
  have new : (s.insertNew p target).network p =
      ((s.network p).alloc s.jiffies).pull { target with length := target.size } s.jiffies := by
    simp [insertNew]
  rw [new]
  exact WlanNetwork.identity_pull_iff (s.network p) { target with length := target.size } s.jiffies

theorem search_cases (s : Table) (target : WlanBssidEx) (xs : List Record) (last : Option Record) :
    (∃ p ∈ xs, (s.network p).network.identity = target.identity ∧ s.search target xs last = .inl p) ∨
      ((∀ p ∈ xs, (s.network p).network.identity ≠ target.identity) ∧
        s.search target xs last = .inr (xs.foldl s.older last)) := by
  induction xs generalizing last with
  | nil => exact .inr ⟨nofun, rfl⟩
  | cons p rest ih =>
      rw [search]
      by_cases same : isSameNetwork (s.network p).network target = true
      · rw [if_pos same]
        exact .inl ⟨p, List.mem_cons_self, isSameNetwork_iff.mp same, rfl⟩
      · rw [if_neg same]
        rcases ih (s.older last p) with ⟨q, inside, same', found⟩ | ⟨other, missing⟩
        · exact .inl ⟨q, List.mem_cons_of_mem p inside, same', found⟩
        · refine .inr ⟨?_, missing⟩
          simpa only [List.forall_mem_cons] using ⟨mt isSameNetwork_iff.mpr same, other⟩

theorem older_mem (s : Table) (last : Option Record) (p : Record) :
    s.older last p = some p ∨ s.older last p = last := by
  cases last with
  | none => exact .inl rfl
  | some q =>
      rw [older]
      split
      · exact .inl rfl
      · exact .inr rfl

theorem foldl_older_mem {xs : List Record} {last : Option Record} (found : xs.foldl s.older last = some p) :
    p ∈ xs ∨ last = some p := by
  induction xs generalizing last with
  | nil => exact .inr found
  | cons q rest ih =>
      rcases ih found with inside | newest
      · exact .inl (List.mem_cons_of_mem q inside)
      · rcases older_mem s last q with taken | stays
        · rw [taken, Option.some.injEq] at newest
          exact .inl (newest ▸ List.mem_cons_self)
        · exact .inr (stays ▸ newest)

theorem oldest_mem (found : s.oldest = some p) : p ∈ s.queue .scanned :=
  (foldl_older_mem found).resolve_right nofun

/-- What `rtw_update_scanned_network` can do. -/
theorem survey_cases (s : Table) (adapter : Adapter) (target : WlanBssidEx) :
    (∃ p ∈ s.queue .scanned, (s.network p).network.identity = target.identity ∧
      s.rtwUpdateScannedNetwork adapter target =
        s.setNetwork p ((s.network p).update target s.jiffies adapter)) ∨
    (s.Unknown target ∧ s.queue .free = [] ∧ s.oldest = none ∧ s.rtwUpdateScannedNetwork adapter target = s) ∨
    (s.Unknown target ∧ s.queue .free = [] ∧ ∃ p, s.oldest = some p ∧
      s.rtwUpdateScannedNetwork adapter target = s.setNetwork p ((s.network p).expire target s.jiffies)) ∨
    (s.Unknown target ∧ ∃ p rest, s.queue .free = p :: rest ∧
      s.rtwUpdateScannedNetwork adapter target = s.insertNew p target) := by
  unfold rtwUpdateScannedNetwork
  rcases search_cases s target (s.queue .scanned) none with ⟨p, inside, same, found⟩ | ⟨unknown, missing⟩
  · rw [found]
    exact .inl ⟨p, inside, same, rfl⟩
  · rw [missing]
    refine .inr ?_
    cases free : s.queue .free with
    | nil =>
        have last : (s.queue .scanned).foldl s.older none = s.oldest := rfl
        simp only [last, if_true]
        cases oldest : s.oldest with
        | none => exact .inl ⟨unknown, trivial, rfl, rfl⟩
        | some p => exact .inr (.inl ⟨unknown, trivial, p, rfl, rfl⟩)
    | cons p rest =>
        refine .inr (.inr ⟨unknown, p, rest, rfl, ?_⟩)
        simp [rtwAllocNetwork, free, insertNew, setNetwork]

/-! ## The table -/

/-- A table between two steps. -/
structure Sound (s : Table) : Prop where
  placed : Placed (fun _ => True) [] s.queue
  counted : s.numOfScanned.toNat = (s.queue .scanned).length
  apart : ∀ p ∈ s.queue .scanned, ∀ q ∈ s.queue .scanned,
    (s.network p).network.identity = (s.network q).network.identity → p = q

/-- What is to hold behind a step from `s` to `s'`. -/
structure Kept (s : Table) (e : Event) (s' : Table) : Prop where
  once : ∀ p, (s'.queue .free).count p + (s'.queue .scanned).count p = 1
  counted : s'.numOfScanned.toNat = (s'.queue .scanned).length
  apart : ∀ p ∈ s'.queue .scanned, ∀ q ∈ s'.queue .scanned,
    isSameNetwork (s'.network p).network (s'.network q).network = true → p = q
  reported : ∀ adapter target, e = .survey adapter target →
    ∃ p ∈ s'.queue .scanned, isSameNetwork (s'.network p).network target = true
  fixed : ∀ p ∈ s.queue .scanned, (s.network p).fixed = true →
    p ∈ s'.queue .scanned ∧ isSameNetwork (s.network p).network (s'.network p).network = true

theorem placed_iff {queue : Queues Place Record} :
    Placed (fun _ => True) [] queue ↔ ∀ p, (queue .free).count p + (queue .scanned).count p = 1 := by
  constructor
  · intro placed p
    have free := placed.once p .free
    have scanned := placed.once p .scanned
    obtain ⟨place, inside⟩ := ((placed.all_iff p).mp trivial).resolve_left List.not_mem_nil
    have here := List.count_pos_iff.mpr inside
    simp only [List.count_nil] at free scanned
    cases place with
    | free =>
        have there := List.count_eq_zero.mpr (placed.apart p .free .scanned nofun inside)
        omega
    | scanned =>
        have there := List.count_eq_zero.mpr (placed.apart p .scanned .free nofun inside)
        omega
  · intro once
    refine ⟨fun p place => ?_, fun p place place' other inside inside' => ?_, fun p => ?_⟩
    · have one := once p
      cases place <;> simp only [List.count_nil] <;> omega
    · have one := once p
      have here := List.count_pos_iff.mpr inside
      have there := List.count_pos_iff.mpr inside'
      cases place <;> cases place' <;> first | exact other rfl | omega
    · refine iff_of_true trivial (.inr ?_)
      have one := once p
      by_cases free : p ∈ queue .free
      · exact ⟨.free, free⟩
      · have none_ := List.count_eq_zero.mpr free
        exact ⟨.scanned, List.count_pos_iff.mp (by omega)⟩

theorem Kept.sound {e : Event} {s' : Table} (kept : Kept s e s') : Sound s' where
  placed := placed_iff.mpr kept.once
  counted := kept.counted
  apart p inside q inside' same := kept.apart p inside q inside' (isSameNetwork_iff.mpr same)

/-- A step to a sound table keeps what is to hold if the reported network is in the queue and marked records stay. -/
theorem Sound.kept {e : Event} {s' : Table} (sound : Sound s')
    (reported : ∀ adapter target, e = .survey adapter target →
      ∃ p ∈ s'.queue .scanned, (s'.network p).network.identity = target.identity)
    (fixed : ∀ p ∈ s.queue .scanned, (s.network p).fixed = true →
      p ∈ s'.queue .scanned ∧ (s.network p).network.identity = (s'.network p).network.identity) :
    Kept s e s' where
  once := placed_iff.mp sound.placed
  counted := sound.counted
  apart p inside q inside' same := sound.apart p inside q inside' (isSameNetwork_iff.mp same)
  reported adapter target is_survey := by
    obtain ⟨p, inside, same⟩ := reported adapter target is_survey
    exact ⟨p, inside, isSameNetwork_iff.mpr same⟩
  fixed p inside marked := (fixed p inside marked).imp_right isSameNetwork_iff.mpr

theorem sound_init : Sound initMlmePriv where
  placed := by
    refine placed_iff.mpr fun p => ?_
    simp only [initMlmePriv, List.count_nil, Nat.add_zero]
    exact List.count_eq_one_of_mem (List.nodup_finRange maxBssCnt) (List.mem_finRange p)
  counted := rfl
  apart := nofun

namespace Sound

variable (sound : Sound s)
include sound

theorem length_le : (s.queue .scanned).length ≤ maxBssCnt := by
  have length := List.Nodup.length_le_card (sound.placed.nodup .scanned)
  simpa using length

/-- A record changes and stays the same network. -/
theorem setNetwork {r : WlanNetwork} (same : r.network.identity = (s.network p).network.identity) :
    Sound (s.setNetwork p r) where
  placed := sound.placed
  counted := sound.counted
  apart a insideA b insideB same' := by
    rw [identity_setNetwork same, identity_setNetwork same] at same'
    exact sound.apart a insideA b insideB same'

/-- One record becomes a network that was in no entry. -/
theorem apart_new {s' : Table} (unknown : s.Unknown target)
    (new : (s'.network p).network.identity = target.identity) (old : ∀ q, q ≠ p → s'.network q = s.network q)
    (inside : ∀ q ∈ s'.queue .scanned, q ≠ p → q ∈ s.queue .scanned) :
    ∀ a ∈ s'.queue .scanned, ∀ b ∈ s'.queue .scanned,
      (s'.network a).network.identity = (s'.network b).network.identity → a = b := by
  intro a memberA b memberB same
  by_cases atA : a = p <;> by_cases atB : b = p
  · rw [atA, atB]
  · rw [atA, new, old b atB] at same
    exact absurd same.symm (unknown b (inside b memberB atB))
  · rw [atB, new, old a atA] at same
    exact absurd same (unknown a (inside a memberA atA))
  · rw [old a atA, old b atB] at same
    exact sound.apart a (inside a memberA atA) b (inside b memberB atB) same

theorem expire (unknown : s.Unknown target) (carries : (s.network p).network.Carries target) :
    Sound (s.setNetwork p ((s.network p).expire target s.jiffies)) where
  placed := sound.placed
  counted := sound.counted
  apart := by
    refine sound.apart_new (p := p) unknown ?_ (fun q other => setNetwork_of_ne s _ other) (fun q member _ => member)
    rw [setNetwork_self]
    exact (WlanNetwork.identity_expire_iff _ _ _).mpr carries

/-- A record of `free_bss_pool` moves to the end of `scanned_queue`. -/
theorem scanned_insertNew (free : p ∈ s.queue .free) (target : WlanBssidEx) :
    (s.insertNew p target).queue .scanned = s.queue .scanned ++ [p] := by
  simp [Table.insertNew, append, sound.placed.unlink_eq free]

theorem insertNew (free : p ∈ s.queue .free) (unknown : s.Unknown target)
    (carries : (s.network p).network.Carries target) : Sound (s.insertNew p target) := by
  have scanned := sound.scanned_insertNew free target
  have placed : Placed (fun _ => True) [] (s.insertNew p target).queue := (sound.placed.take free).put .scanned
  refine ⟨placed, ?_, ?_⟩
  · have length : (s.queue .scanned ++ [p]).length ≤ maxBssCnt := by
      rw [← scanned]
      simpa using List.Nodup.length_le_card (placed.nodup .scanned)
    have counted := sound.counted
    rw [List.length_append, List.length_singleton, maxBssCnt] at length
    rw [scanned, Table.insertNew, BitVec.toNat_add, counted, List.length_append]
    exact Nat.mod_eq_of_lt (by simp; omega)
  · refine sound.apart_new unknown (identity_insertNew_iff.mpr carries) (fun q => insertNew_of_ne s target) ?_
    intro q member other
    rw [scanned, List.mem_append, List.mem_singleton] at member
    exact member.resolve_right other

theorem scanned_release (inside : p ∈ s.queue .scanned) :
    (s.release p).queue .scanned = (s.queue .scanned).erase p := by
  simp [Table.release, append, sound.placed.unlink_eq inside]

/-- A record of `scanned_queue` moves to the end of `free_bss_pool`. -/
theorem release (inside : p ∈ s.queue .scanned) : Sound (s.release p) := by
  have placed : Placed (fun _ => True) [] (s.release p).queue := (sound.placed.take inside).put .free
  have scanned := sound.scanned_release inside
  have positive := List.length_pos_of_mem inside
  refine ⟨placed, ?_, fun a memberA b memberB same => ?_⟩
  · have bound := sound.length_le
    have counted := sound.counted
    rw [maxBssCnt] at bound
    rw [scanned, Table.release, List.length_erase_of_mem inside, BitVec.toNat_sub, counted]
    simp
    omega
  · rw [scanned] at memberA memberB
    exact sound.apart a (List.mem_of_mem_erase memberA) b (List.mem_of_mem_erase memberB) same

end Sound

/-! ## One step -/

/-- When a step keeps the table as it should be. -/
def Meets (jiffiesToMsecs : BitVec 64 → BitVec 32) (s : Table) : Event → Prop
  | .survey _ target => s.Unknown target → ∀ p, s.taken = some p →
      (p ∈ s.queue .scanned → (s.network p).fixed = false) ∧ (s.network p).network.Carries target
  | .free adhoc pnetwork isfreeall => ∀ p, pnetwork = some p →
      p ∈ s.queue .scanned ∨ (s.network p).fixed = true ∨
        isfreeall = false ∧ s.young jiffiesToMsecs adhoc p = true
  | .freeNolock pnetwork => ∀ p, pnetwork = some p → p ∈ s.queue .scanned ∨ (s.network p).fixed = true
  | .setFixed _ _ => True
  | .pass _ => True

/-- The record at the start of `free_bss_buf`. -/
def first : Record := ⟨0, Nat.zero_lt_succ 127⟩

theorem foldl_older_some (s : Table) (xs : List Record) (q : Record) : ∃ p, xs.foldl s.older (some q) = some p := by
  induction xs generalizing q with
  | nil => exact ⟨q, rfl⟩
  | cons p rest ih =>
      rcases older_mem s (some q) p with taken | stays
      · rw [List.foldl_cons, taken]
        exact ih p
      · rw [List.foldl_cons, stays]
        exact ih q

/-- Where no record is free, some record is in `scanned_queue`. -/
theorem Sound.oldest_some (sound : Sound s) (free : s.queue .free = []) : ∃ p, s.oldest = some p := by
  have one := placed_iff.mp sound.placed first
  rw [free, List.count_nil, Nat.zero_add] at one
  have inside := List.count_pos_iff.mp (one ▸ Nat.zero_lt_one)
  obtain ⟨q, rest, queue⟩ := List.exists_cons_of_ne_nil (List.ne_nil_of_mem inside)
  rw [oldest, queue]
  exact foldl_older_some s rest q

/-- Behind an update in place. -/
theorem kept_update (sound : Sound s) (inside : p ∈ s.queue .scanned)
    (same : (s.network p).network.identity = target.identity) :
    Kept s (.survey adapter target) (s.setNetwork p ((s.network p).update target s.jiffies adapter)) := by
  have new := WlanNetwork.identity_update (s.network p) target s.jiffies adapter same
  have stays := identity_setNetwork (s := s) (new.trans same.symm)
  refine (sound.setNetwork (new.trans same.symm)).kept ?_ ?_
  · rintro _ _ ⟨⟩
    exact ⟨p, inside, (stays p).trans same⟩
  · intro q member _
    exact ⟨member, (stays q).symm⟩

/-- The new network is in the queue exactly if its record describes it. -/
theorem reported_iff {s' : Table} (unknown : s.Unknown target) (old : ∀ q, q ≠ p → s'.network q = s.network q)
    (inside : ∀ q, q ∈ s'.queue .scanned → q ≠ p → q ∈ s.queue .scanned) (here : p ∈ s'.queue .scanned) :
    (∃ q ∈ s'.queue .scanned, isSameNetwork (s'.network q).network target = true) ↔
      (s'.network p).network.identity = target.identity := by
  constructor
  · rintro ⟨q, member, same⟩
    rw [isSameNetwork_iff] at same
    by_cases at_ : q = p
    · exact at_ ▸ same
    · rw [old q at_] at same
      exact absurd same (unknown q (inside q member at_))
  · intro same
    exact ⟨p, here, isSameNetwork_iff.mpr same⟩

/-- The oldest record may go to another network exactly if it is not marked and takes the capabilities. -/
theorem kept_expire_iff (sound : Sound s) (unknown : s.Unknown target) (inside : p ∈ s.queue .scanned) :
    Kept s (.survey adapter target) (s.setNetwork p ((s.network p).expire target s.jiffies)) ↔
      (s.network p).fixed = false ∧ (s.network p).network.Carries target := by
  have old (q : Record) (other : q ≠ p) :
      (s.setNetwork p ((s.network p).expire target s.jiffies)).network q = s.network q := setNetwork_of_ne s _ other
  constructor
  · intro kept
    have new := (reported_iff unknown old (fun q member _ => member) inside).mp (kept.reported adapter target rfl)
    refine ⟨Bool.eq_false_iff.mpr fun marked => ?_, ?_⟩
    · have same := isSameNetwork_iff.mp (kept.fixed p inside marked).2
      exact unknown p inside (same.trans new)
    · rw [setNetwork_self] at new
      exact (WlanNetwork.identity_expire_iff _ _ _).mp new
  · rintro ⟨unmarked, carries⟩
    refine (sound.expire unknown carries).kept ?_ ?_
    · rintro _ _ ⟨⟩
      refine ⟨p, inside, ?_⟩
      rw [setNetwork_self]
      exact (WlanNetwork.identity_expire_iff _ _ _).mpr carries
    · intro q member marked
      have other : q ≠ p := by
        rintro rfl
        exact Bool.false_ne_true (unmarked.symm.trans marked)
      rw [old q other]
      exact ⟨member, rfl⟩

theorem kept_insertNew_iff (sound : Sound s) (unknown : s.Unknown target) (free : p ∈ s.queue .free) :
    Kept s (.survey adapter target) (s.insertNew p target) ↔ (s.network p).network.Carries target := by
  have scanned := sound.scanned_insertNew free target
  have inside (q : Record) (member : q ∈ (s.insertNew p target).queue .scanned) (other : q ≠ p) :
      q ∈ s.queue .scanned := by
    rw [scanned, List.mem_append, List.mem_singleton] at member
    exact member.resolve_right other
  have here : p ∈ (s.insertNew p target).queue .scanned := by simp [scanned]
  have reported := reported_iff unknown (fun q => insertNew_of_ne s target) inside here
  rw [← identity_insertNew_iff, ← reported]
  constructor
  · intro kept
    exact kept.reported adapter target rfl
  · intro new
    have carries := identity_insertNew_iff.mp (reported.mp new)
    refine (sound.insertNew free unknown carries).kept ?_ ?_
    · rintro _ _ ⟨⟩
      exact ⟨p, here, reported.mp new⟩
    · intro q member _
      have other : q ≠ p := by
        rintro rfl
        exact sound.placed.apart q .free .scanned nofun free member
      rw [insertNew_of_ne s target other, scanned]
      exact ⟨List.mem_append_left _ member, rfl⟩

theorem kept_survey_iff (sound : Sound s) :
    Kept s (.survey adapter target) (s.rtwUpdateScannedNetwork adapter target) ↔
      Meets jiffiesToMsecs s (.survey adapter target) := by
  rcases survey_cases s adapter target with ⟨p, inside, same, step⟩ | ⟨_, free, none_, _⟩ |
    ⟨unknown, free, p, oldest, step⟩ | ⟨unknown, p, rest, free, step⟩
  · rw [step]
    exact iff_of_true (kept_update sound inside same) fun unknown => absurd same (unknown p inside)
  · obtain ⟨p, some_⟩ := sound.oldest_some free
    rw [none_] at some_
    cases some_
  · have taken : s.taken = some p := by rw [Table.taken, free, oldest]
    have inside := oldest_mem oldest
    rw [step, kept_expire_iff sound unknown inside]
    simp [Meets, unknown, taken, inside]
  · have taken : s.taken = some p := by rw [Table.taken, free]
    have member : p ∈ s.queue .free := by simp [free]
    have outside := sound.placed.apart p .free .scanned nofun member
    rw [step, kept_insertNew_iff sound unknown member]
    simp [Meets, unknown, taken, outside]

/-- Nothing happens to the queues, and no record becomes another network. -/
theorem kept_idle {e : Event} {s' : Table} (sound : Sound s) (quiet : ∀ adapter target, e ≠ .survey adapter target)
    (queue : s'.queue = s.queue) (num : s'.numOfScanned = s.numOfScanned)
    (same : ∀ p, (s'.network p).network = (s.network p).network) : Kept s e s' := by
  refine Sound.kept ⟨?_, ?_, ?_⟩ (fun adapter target is_survey => absurd is_survey (quiet adapter target)) ?_
  · rw [queue]
    exact sound.placed
  · rw [num, queue]
    exact sound.counted
  · simp only [queue, same]
    exact sound.apart
  · intro p inside _
    rw [queue, same]
    exact ⟨inside, rfl⟩

/-- A record may be freed exactly if it is in `scanned_queue`. -/
theorem kept_release_iff {e : Event} (sound : Sound s) (quiet : ∀ adapter target, e ≠ .survey adapter target)
    (unmarked : (s.network p).fixed = false) : Kept s e (s.release p) ↔ p ∈ s.queue .scanned := by
  constructor
  · intro kept
    by_contra outside
    have scanned : (s.release p).queue .scanned = s.queue .scanned := by
      simp only [Table.release, append, unlink, Function.update_of_ne (show Place.scanned ≠ .free by decide)]
      exact List.filter_eq_self.mpr fun q member => decide_eq_true fun at_ => outside (at_ ▸ member)
    have after := kept.counted
    have before := sound.counted
    have bound := sound.length_le
    rw [maxBssCnt] at bound
    rw [scanned, Table.release, BitVec.toNat_sub, before] at after
    simp at after
    omega
  · intro inside
    have scanned : (s.release p).queue .scanned = (s.queue .scanned).erase p := sound.scanned_release inside
    refine (sound.release inside).kept (fun adapter target is_survey => absurd is_survey (quiet adapter target)) ?_
    intro q member marked
    have other : q ≠ p := by
      rintro rfl
      exact Bool.false_ne_true (unmarked.symm.trans marked)
    refine ⟨?_, rfl⟩
    rw [scanned]
    exact (List.mem_erase_of_ne other).mpr member

/-- A step keeps the table as it should be exactly under `Meets`. -/
theorem kept_iff (sound : Sound s) (e : Event) :
    Kept s e (apply jiffiesToMsecs s e) ↔ Meets jiffiesToMsecs s e := by
  cases e with
  | survey adapter target => exact kept_survey_iff sound
  | free adhoc pnetwork isfreeall =>
      cases pnetwork with
      | none => exact iff_of_true (kept_idle sound (by simp) rfl rfl fun _ => rfl) (by simp [Meets])
      | some p =>
          simp only [apply, Table.rtwFreeNetwork, Meets, Option.some.injEq, forall_eq']
          by_cases marked : (s.network p).fixed = true
          · rw [if_pos marked]
            exact iff_of_true (kept_idle sound (by simp) rfl rfl fun _ => rfl) (.inr (.inl marked))
          · rw [if_neg marked]
            by_cases young : (!isfreeall && s.young jiffiesToMsecs adhoc p) = true
            · rw [if_pos young]
              refine iff_of_true (kept_idle sound (by simp) rfl rfl fun _ => rfl) (.inr (.inr ?_))
              simpa using young
            · have unmarked := Bool.eq_false_iff.mpr marked
              rw [if_neg young, kept_release_iff (e := .free adhoc (some p) isfreeall) sound (by simp) unmarked]
              simp only [Bool.and_eq_true, Bool.not_eq_true'] at young
              simp [marked, young]
  | freeNolock pnetwork =>
      cases pnetwork with
      | none => exact iff_of_true (kept_idle sound (by simp) rfl rfl fun _ => rfl) (by simp [Meets])
      | some p =>
          simp only [apply, Table.rtwFreeNetworkNolock, Meets, Option.some.injEq, forall_eq']
          by_cases marked : (s.network p).fixed = true
          · rw [if_pos marked]
            exact iff_of_true (kept_idle sound (by simp) rfl rfl fun _ => rfl) (.inr marked)
          · have unmarked := Bool.eq_false_iff.mpr marked
            rw [if_neg marked, kept_release_iff (e := .freeNolock (some p)) sound (by simp) unmarked]
            simp [marked]
  | setFixed p fixed =>
      refine iff_of_true (kept_idle sound (by simp) rfl rfl fun q => ?_) trivial
      by_cases at_ : q = p
      · rw [at_, apply, Table.setNetwork_self]
      · rw [apply, Table.setNetwork_of_ne s _ at_]
  | pass jiffies => exact iff_of_true (kept_idle sound (by simp) rfl rfl fun _ => rfl) trivial

/-! ## Runs -/

/-- The table is as it should be behind every step exactly if each step meets the condition. -/
theorem scanned_kept_iff (jiffiesToMsecs : BitVec 64 → BitVec 32) (events : List Event) :
    (∀ done e, done ++ [e] <+: events →
      Kept (along (apply jiffiesToMsecs) initMlmePriv done) e
        (apply jiffiesToMsecs (along (apply jiffiesToMsecs) initMlmePriv done) e)) ↔
    ∀ done e, done ++ [e] <+: events →
      Meets jiffiesToMsecs (along (apply jiffiesToMsecs) initMlmePriv done) e :=
  @steps_along_iff _ _ (apply jiffiesToMsecs) Sound (Meets jiffiesToMsecs)
    (fun s e => Kept s e (apply jiffiesToMsecs s e)) (fun _ e sound => kept_iff sound e)
    (fun _ _ _ kept => kept.sound) initMlmePriv sound_init events

/-! ## What the searches find -/

/-- `_rtw_find_same_network` finds the entry of a network. -/
theorem rtwFindSameNetwork_iff (sound : Sound s) :
    s.rtwFindSameNetwork target = some p ↔
      p ∈ s.queue .scanned ∧ isSameNetwork target (s.network p).network = true := by
  rw [Table.rtwFindSameNetwork]
  constructor
  · intro found
    have same := List.find?_some (p := fun p => isSameNetwork target (s.network p).network) found
    exact ⟨List.mem_of_find?_eq_some found, same⟩
  · rintro ⟨inside, same⟩
    cases found : (s.queue .scanned).find? fun p => isSameNetwork target (s.network p).network with
    | none => exact absurd same (List.find?_eq_none.mp found p inside)
    | some q =>
        have same' := List.find?_some (p := fun p => isSameNetwork target (s.network p).network) found
        have identity := (isSameNetwork_iff.mp same').symm.trans (isSameNetwork_iff.mp same)
        rw [sound.apart q (List.mem_of_find?_eq_some found) p inside identity]

theorem getOldest_unmarked {xs : List Record} {last : Option Record}
    (unmarked : ∀ q, last = some q → (s.network q).fixed = false) (found : s.getOldest xs last = some p) :
    (s.network p).fixed = false := by
  induction xs generalizing last with
  | nil => exact unmarked p found
  | cons q rest ih =>
      refine ih (fun r is_last => ?_) found
      by_cases marked : (s.network q).fixed = true
      · rw [if_pos marked] at is_last
        exact unmarked r is_last
      · rw [if_neg marked] at is_last
        rcases older_mem s last q with taken | stays
        · rw [taken, Option.some.injEq] at is_last
          exact is_last ▸ Bool.eq_false_iff.mpr marked
        · exact unmarked r (stays ▸ is_last)

/-- `rtw_get_oldest_wlan_network` passes over marked records. -/
theorem rtwGetOldestWlanNetwork_unmarked (found : s.rtwGetOldestWlanNetwork = some p) :
    (s.network p).fixed = false := by
  refine getOldest_unmarked (fun q is_last => ?_) found
  cases is_last

/-! ## A marked record that is taken over -/

/-- The beacon of the `n`th access point. -/
def beacon (n : Nat) : WlanBssidEx :=
  { zeroed.network with
    macAddress := fun i => if i = 5 then UInt8.ofNat n else 2
    ieLength := 12
    fits := Nat.le_of_ble_eq_true rfl }

def unlinked : Adapter := ⟨false, zeroed.network, 0, 0⟩

theorem identity_beacon_ne {a b : Nat} (smallA : a < 256) (smallB : b < 256) (other : a ≠ b) :
    (beacon a).identity ≠ (beacon b).identity := by
  intro same
  have mac := congrFun (congrArg Identity.macAddress same) 5
  have bytes : UInt8.ofNat a = UInt8.ofNat b := by simpa [WlanBssidEx.identity, beacon] using mac
  have nats := congrArg UInt8.toNat bytes
  rw [UInt8.toNat_ofNat', UInt8.toNat_ofNat', Nat.mod_eq_of_lt smallA, Nat.mod_eq_of_lt smallB] at nats
  exact other nats

/-- One beacon a jiffy. -/
def beacons (n : Nat) : List Event :=
  (List.range n).flatMap fun i => [.survey unlinked (beacon i), .pass 1]

/-- The table behind `n` beacons. -/
structure Filled (n : Nat) (s : Table) : Prop where
  sound : Sound s
  free : s.queue .free = (List.finRange maxBssCnt).drop n
  scanned : s.queue .scanned = (List.finRange maxBssCnt).take n
  heard : ∀ p : Record, (p : Nat) < n → (s.network p).network.identity = (beacon p).identity ∧
    (s.network p).lastScanned = BitVec.ofNat 64 p
  jiffies : s.jiffies = BitVec.ofNat 64 n

theorem filled_init : Filled 0 initMlmePriv :=
  ⟨sound_init, rfl, rfl, fun p none_ => absurd none_ (Nat.not_lt_zero p), rfl⟩

theorem mem_take_finRange {n m : Nat} {p : Fin n} (inside : p ∈ (List.finRange n).take m) : (p : Nat) < m := by
  obtain ⟨i, bound, rfl⟩ := List.mem_iff_getElem.mp inside
  rw [List.length_take] at bound
  simp
  omega

theorem Filled.unknown {n m : Nat} (filled : Filled n s) (small : m < 256) (later : n ≤ m) :
    s.Unknown (beacon m) := by
  intro p inside
  have bound : (p : Nat) < n := mem_take_finRange (filled.scanned ▸ inside)
  rw [(filled.heard p bound).1]
  exact identity_beacon_ne (by omega) small (by omega)

theorem Filled.next {n : Nat} (jiffiesToMsecs : BitVec 64 → BitVec 32) (filled : Filled n s) (room : n < maxBssCnt) :
    Filled (n + 1) (along (apply jiffiesToMsecs) s [.survey unlinked (beacon n), .pass 1]) := by
  have small : n < 256 := room.trans (by decide)
  have unknown := filled.unknown small (Nat.le_refl n)
  have queue : s.queue .free = ⟨n, room⟩ :: (List.finRange maxBssCnt).drop (n + 1) := by
    rw [filled.free, List.drop_eq_getElem_cons (by simpa using room)]
    simp
  have member : (⟨n, room⟩ : Record) ∈ s.queue .free := by simp [queue]
  have carries : (s.network ⟨n, room⟩).network.Carries (beacon n) := .inl (show 10 < 12 by decide)
  have inserted : s.rtwUpdateScannedNetwork unlinked (beacon n) = s.insertNew ⟨n, room⟩ (beacon n) := by
    rcases survey_cases s unlinked (beacon n) with ⟨p, inside, same, _⟩ | ⟨_, free, _⟩ | ⟨_, free, _⟩ |
      ⟨_, p, rest, free, step⟩
    · exact absurd same (unknown p inside)
    · simp [free] at queue
    · simp [free] at queue
    · rw [queue, List.cons.injEq] at free
      rw [step, free.1]
  have run : along (apply jiffiesToMsecs) s [.survey unlinked (beacon n), .pass 1] =
      { s.insertNew ⟨n, room⟩ (beacon n) with jiffies := s.jiffies + 1 } := by
    simp only [along_cons, along_nil, apply, inserted]
    rfl
  have sound := filled.sound.insertNew member unknown carries
  rw [run]
  refine ⟨⟨sound.placed, sound.counted, sound.apart⟩, ?_, ?_, fun p bound => ?_, ?_⟩
  · show (append .scanned ⟨n, room⟩ (unlink ⟨n, room⟩ s.queue)) .free = _
    rw [filled.sound.placed.unlink_eq member]
    simp [append, queue]
  · show (s.insertNew ⟨n, room⟩ (beacon n)).queue .scanned = _
    rw [filled.sound.scanned_insertNew member, filled.scanned, List.take_succ_eq_append_getElem (by simpa using room)]
    simp
  · show ((s.insertNew ⟨n, room⟩ (beacon n)).network p).network.identity = _ ∧
      ((s.insertNew ⟨n, room⟩ (beacon n)).network p).lastScanned = _
    by_cases new : p = ⟨n, room⟩
    · subst new
      refine ⟨identity_insertNew_iff.mpr carries, ?_⟩
      simp [Table.insertNew, WlanNetwork.pull, filled.jiffies]
    · rw [insertNew_of_ne s _ new]
      refine filled.heard p (Nat.lt_of_le_of_ne (Nat.le_of_lt_succ bound) fun at_ => new (Fin.ext at_))
  · show s.jiffies + 1 = _
    rw [filled.jiffies]
    exact (BitVec.ofNat_add n 1).symm

theorem filled_beacons {n : Nat} (room : n ≤ maxBssCnt) :
    Filled n (along (apply jiffiesToMsecs) initMlmePriv (beacons n)) := by
  induction n with
  | zero => exact filled_init
  | succ n ih =>
      have step := (ih (Nat.le_of_succ_le room)).next jiffiesToMsecs room
      simpa [beacons, List.range_succ, along] using step

theorem foldl_older_first {xs : List Record}
    (later : ∀ q ∈ xs, timeAfter (s.network p).lastScanned (s.network q).lastScanned = false) :
    xs.foldl s.older (some p) = some p := by
  induction xs with
  | nil => rfl
  | cons q rest ih =>
      rw [List.forall_mem_cons] at later
      have stays : s.older (some p) q = some p := by simp [older, later.1]
      rw [List.foldl_cons, stays]
      exact ih later.2

theorem Filled.oldest (filled : Filled maxBssCnt s) : s.queue .scanned = first :: (List.finRange maxBssCnt).drop 1 ∧
    s.oldest = some first := by
  have all : s.queue .scanned = first :: (List.finRange maxBssCnt).drop 1 := by
    have split : List.finRange maxBssCnt = first :: (List.finRange maxBssCnt).drop 1 := by
      have cons := List.drop_eq_getElem_cons (l := List.finRange maxBssCnt) (i := 0) (by simp [maxBssCnt])
      rwa [List.drop_zero, List.getElem_finRange] at cons
    rw [filled.scanned, List.take_of_length_le (by simp)]
    exact split
  have later : ∀ q : Record, timeAfter (BitVec.ofNat 64 first) (BitVec.ofNat 64 q) = false := by decide
  refine ⟨all, ?_⟩
  have start : s.older none first = some first := rfl
  rw [Table.oldest, all, List.foldl_cons, start]
  refine foldl_older_first fun q _ => ?_
  rw [(filled.heard first (by decide)).2, (filled.heard q q.isLt).2]
  exact later q

/-- A mark changes nothing that was heard. -/
theorem Filled.mark {n : Nat} (filled : Filled n s) (p : Record) :
    Filled n (s.setNetwork p { s.network p with fixed := true }) := by
  refine ⟨filled.sound.setNetwork rfl, filled.free, filled.scanned, fun q bound => ?_, filled.jiffies⟩
  by_cases at_ : q = p
  · subst at_
    rw [setNetwork_self]
    exact filled.heard q bound
  · rw [setNetwork_of_ne s _ at_]
    exact filled.heard q bound

/-- 128 networks are in the table and a join has marked the first; one more network takes its record. -/
theorem marked_taken_over : ¬∀ events done e, done ++ [e] <+: events →
    Kept (along (apply (BitVec.setWidth 32)) initMlmePriv done) e
      (apply (BitVec.setWidth 32) (along (apply (BitVec.setWidth 32)) initMlmePriv done) e) := by
  intro kept
  let done : List Event := beacons maxBssCnt ++ [.setFixed first true]
  let e : Event := .survey unlinked (beacon maxBssCnt)
  have filled : Filled maxBssCnt (along (apply (BitVec.setWidth 32)) initMlmePriv (beacons maxBssCnt)) :=
    filled_beacons (Nat.le_refl maxBssCnt)
  have step := kept (done ++ [e]) done e (List.prefix_refl _)
  have behind : along (apply (BitVec.setWidth 32)) initMlmePriv done =
      (along (apply (BitVec.setWidth 32)) initMlmePriv (beacons maxBssCnt)).setNetwork first
        { (along (apply (BitVec.setWidth 32)) initMlmePriv (beacons maxBssCnt)).network first with fixed := true } := by
    simp [done, along, apply]
  have marked := filled.mark first
  rw [← behind] at marked
  have fixed : ((along (apply (BitVec.setWidth 32)) initMlmePriv done).network first).fixed = true := by
    rw [behind, setNetwork_self]
  generalize along (apply (BitVec.setWidth 32)) initMlmePriv done = s at step marked fixed
  obtain ⟨queue, oldest⟩ := marked.oldest
  have free : s.queue .free = [] := by rw [marked.free, List.drop_of_length_le (by simp)]
  have taken : s.taken = some first := by rw [Table.taken, free, oldest]
  have meets := (kept_iff marked.sound e).mp step
  have unmarked := (meets (marked.unknown (by decide) (Nat.le_refl maxBssCnt)) first taken).1 (by simp [queue])
  exact Bool.false_ne_true (unmarked.symm.trans fixed)

end Vmac.Mlme.Scanned
