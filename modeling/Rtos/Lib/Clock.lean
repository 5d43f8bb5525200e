import Mathlib.Data.BitVec

/-! A wrapping counter against an unbounded one. The signed difference of two
wrapped values tells which unbounded value is ahead, as long as the two are at
most half the range apart. -/
namespace Rtos.Lib

variable {w : Nat}

/-- The signed test used for deadlines: has `now` reached `deadline`? -/
def reached (now deadline : BitVec w) : Bool := decide (0 ≤ (now - deadline).toInt)

theorem reached_add_left (start now deadline : BitVec w) :
    reached (start + now) (start + deadline) = reached now deadline := by
  have same : start + now - (start + deadline) = now - deadline := by
    rw [BitVec.sub_eq_iff_eq_add, BitVec.add_comm start deadline, ← BitVec.add_assoc,
      BitVec.sub_add_cancel, BitVec.add_comm]
  rw [reached, same, reached]

theorem ofNat_succ (n : Nat) : BitVec.ofNat w n + 1 = BitVec.ofNat w (n + 1) := by
  rw [BitVec.ofNat_add]
  rfl

theorem toInt_sub_ofNat (n d : Nat) :
    (BitVec.ofNat w n - BitVec.ofNat w d).toInt = ((n : Int) - d).bmod (2 ^ w) := by
  rw [BitVec.toInt_sub, BitVec.toInt_ofNat', BitVec.toInt_ofNat', Int.sub_bmod_bmod, Int.bmod_sub_bmod]

/-- The deadline is not in the past and at most half the range ahead. -/
theorem reached_iff {n d : Nat} (hw : 0 < w) (ahead : n ≤ d) (near : d ≤ n + 2 ^ (w - 1)) :
    reached (BitVec.ofNat w n) (BitVec.ofNat w d) = true ↔ d ≤ n := by
  obtain ⟨v, rfl⟩ : ∃ v, w = v + 1 := ⟨w - 1, by omega⟩
  unfold reached
  rw [toInt_sub_ofNat, decide_eq_true_iff, Nat.pow_succ]
  have half : 0 < 2 ^ v := Nat.two_pow_pos v
  simp only [Nat.add_sub_cancel] at near
  generalize 2 ^ v = range at near half ⊢
  have small : ((n : Int) - d).bmod (range * 2) = (n : Int) - d := by
    apply Int.bmod_eq_of_le
    · push_cast; omega
    · push_cast; omega
  rw [small]
  omega

/-- A deadline more than half the range ahead looks past. -/
theorem reached_far {n d : Nat} (far : n + 2 ^ (w - 1) < d) (inside : d < n + 2 ^ w) :
    reached (BitVec.ofNat w n) (BitVec.ofNat w d) = true := by
  unfold reached
  rw [toInt_sub_ofNat, decide_eq_true_iff]
  obtain ⟨v, rfl⟩ : ∃ v, w = v + 1 := by
    cases w with
    | zero => simp at far inside; omega
    | succ v => exact ⟨v, rfl⟩
  rw [Nat.pow_succ] at inside ⊢
  simp only [Nat.add_sub_cancel] at far
  generalize 2 ^ v = range at far inside ⊢
  have wrapped : ((n : Int) - d).bmod (range * 2) = (n : Int) - d + range * 2 := by
    rw [← Int.add_bmod_right]
    apply Int.bmod_eq_of_le
    · push_cast; omega
    · push_cast; omega
  rw [wrapped]
  omega

end Rtos.Lib
