import Mathlib.Data.BitVec
import Mathlib.Data.List.Basic

/-! A strict hand-over between a producer and a consumer: four beats that come round in one
order, and what the counters of the two parties show of it. -/
namespace Rtos.Lib

inductive Beat where
  /-- the consumer starts to wait -/
  | await
  /-- the producer counts a token -/
  | raise
  /-- the producer hands the token over -/
  | hand
  /-- the consumer counts it -/
  | serve
  deriving DecidableEq, Repr

def Beat.next : Beat → Beat
  | .await => .raise
  | .raise => .hand
  | .hand => .serve
  | .serve => .await

/-- The beats so far kept the order, and this one is due. -/
inductive InStep : List Beat → Beat → Prop where
  | start : InStep [] .await
  | beat {bs : List Beat} {due : Beat} : InStep bs due → InStep (bs ++ [due]) due.next

/-- How many tokens are counted by the producer only. -/
def Beat.owed : Beat → Nat
  | .hand | .serve => 1
  | .await | .raise => 0

/-- How many tokens are handed over and not counted by the consumer. -/
def Beat.held : Beat → Nat
  | .serve => 1
  | .await | .raise | .hand => 0

namespace InStep
variable {bs : List Beat} {due : Beat}

theorem counts (h : InStep bs due) : bs.count .raise = bs.count .serve + due.owed ∧
    bs.count .hand = bs.count .serve + due.held := by
  induction h with
  | start => exact ⟨rfl, rfl⟩
  | @beat bs due _ ih =>
    obtain ⟨raised, handed⟩ := ih
    simp only [List.count_append, List.count_singleton]
    cases due <;> simp only [Beat.next, Beat.owed, Beat.held] at raised handed ⊢ <;>
      simp [raised, handed]

/-- Counters of any width differ by the token that is owed. -/
theorem difference {w : Nat} (h : InStep bs due) :
    BitVec.ofNat w (bs.count .raise) - BitVec.ofNat w (bs.count .serve) =
      BitVec.ofNat w due.owed := by
  rw [h.counts.1, BitVec.ofNat_add, BitVec.add_comm, BitVec.add_sub_cancel]

end InStep

end Rtos.Lib
