/-
# Vmac.Core.Ledger -- counting allocations and releases

`freed id outs` counts how often buffer `id` is released in a list of effects,
`allocated` how often it is allocated.  Both are additive over calls; what each
piece of a call contributes is a lemma here.
-/
import Vmac.Core.LowTx
import Mathlib.Data.List.Count

namespace Vmac.Core

set_option autoImplicit false

def freed (id : Nat) (outs : List Out) : Nat := outs.count (.free id)

def allocated (id : Nat) (outs : List Out) : Nat := outs.count (.alloc id)

section

variable (id : Nat)

@[simp] theorem freed_nil : freed id [] = 0 := rfl
@[simp] theorem allocated_nil : allocated id [] = 0 := rfl

@[simp] theorem freed_append (a b : List Out) : freed id (a ++ b) = freed id a + freed id b :=
  List.count_append

@[simp] theorem allocated_append (a b : List Out) :
    allocated id (a ++ b) = allocated id a + allocated id b := List.count_append

theorem freed_cons (o : Out) (outs : List Out) :
    freed id (o :: outs) = freed id [o] + freed id outs := by
  rw [← List.singleton_append, freed_append]

theorem allocated_cons (o : Out) (outs : List Out) :
    allocated id (o :: outs) = allocated id [o] + allocated id outs := by
  rw [← List.singleton_append, allocated_append]

@[simp] theorem freed_free (x : Nat) : freed id [.free x] = if x = id then 1 else 0 := by
  by_cases same : x = id <;> simp [freed, same]

@[simp] theorem freed_alloc (x : Nat) : freed id [.alloc x] = 0 := by simp [freed]

@[simp] theorem allocated_alloc (x : Nat) : allocated id [.alloc x] = if x = id then 1 else 0 := by
  by_cases same : x = id <;> simp [allocated, same]

@[simp] theorem allocated_free (x : Nat) : allocated id [.free x] = 0 := by simp [allocated]

@[simp] theorem freed_kfreeSkb (skb : Option Skb) :
    freed id (kfreeSkb skb) = if skb.map Skb.id = some id then 1 else 0 := by
  cases skb with
  | none => rfl
  | some skb => simp [kfreeSkb]

@[simp] theorem allocated_kfreeSkb (skb : Option Skb) : allocated id (kfreeSkb skb) = 0 := by
  cases skb with
  | none => rfl
  | some skb => simp [kfreeSkb]

/-- A frame given to the radio is released if a transmit frame was there for it. -/
@[simp] theorem freed_vmacLowTx (env : Env) (k : Nat) (skb : Skb) :
    freed id (vmacLowTx env k skb) = if env.xmitOk k ∧ skb.id = id then 1 else 0 := by
  unfold vmacLowTx xmitMo
  cases sent : env.xmitOk k with
  | true => by_cases same : skb.id = id <;> simp [freed, same]
  | false => simp

@[simp] theorem allocated_vmacLowTx (env : Env) (k : Nat) (skb : Skb) :
    allocated id (vmacLowTx env k skb) = 0 := by
  unfold vmacLowTx xmitMo
  split <;> simp [allocated]

end

end Vmac.Core
