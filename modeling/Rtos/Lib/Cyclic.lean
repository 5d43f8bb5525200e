import Mathlib.Data.List.Basic
import Mathlib.Tactic.SplitIfs

/-! The cyclic order after an index: `c+1, c+2, ..., c+n` modulo `n`.
The position of an index in it is its distance from `c`, so that the first hit
of a scan is the hit at the least distance. -/
namespace Rtos.Lib

def cyclicOrder (c n : Nat) : List Nat := (List.range n).map fun i => (c + (i + 1)) % n

/-- Where `x` stands in the order after `c`; `c` itself comes last. -/
def cyclicPos (n c x : Nat) : Nat := if c < x then x - c - 1 else x + n - c - 1

theorem cyclicPos_lt {n c x : Nat} (hc : c < n) (hx : x < n) : cyclicPos n c x < n := by
  unfold cyclicPos; split <;> omega

theorem cyclicPos_self {n c : Nat} (hc : c < n) : cyclicPos n c c = n - 1 := by
  unfold cyclicPos; split <;> omega

theorem cyclicPos_inj {n c x y : Nat} (hc : c < n) (hx : x < n) (hy : y < n)
    (h : cyclicPos n c x = cyclicPos n c y) : x = y := by
  unfold cyclicPos at h; split at h <;> split at h <;> omega

theorem add_cyclicPos {n c x : Nat} (hc : c < n) (hx : x < n) :
    (c + (cyclicPos n c x + 1)) % n = x := by
  unfold cyclicPos
  split
  · rw [show c + (x - c - 1 + 1) = x by omega, Nat.mod_eq_of_lt hx]
  · rw [show c + (x + n - c - 1 + 1) = x + n by omega, Nat.add_mod_right, Nat.mod_eq_of_lt hx]

theorem cyclicPos_add {n c i : Nat} (hc : c < n) (hi : i < n) :
    cyclicPos n c ((c + (i + 1)) % n) = i := by
  have hlt : (c + (i + 1)) % n < n := Nat.mod_lt _ (by omega)
  by_cases wrap : c + (i + 1) < n
  · rw [Nat.mod_eq_of_lt wrap]
    unfold cyclicPos; split <;> omega
  · have back : (c + (i + 1)) % n = c + (i + 1) - n := by
      rw [Nat.mod_eq_sub_mod (by omega), Nat.mod_eq_of_lt (by omega)]
    rw [back]
    unfold cyclicPos; split <;> omega

theorem cyclicOrder_getElem {n c i : Nat} (h : i < (cyclicOrder c n).length) :
    (cyclicOrder c n)[i] = (c + (i + 1)) % n := by
  simp [cyclicOrder]

theorem length_cyclicOrder (c n : Nat) : (cyclicOrder c n).length = n := by
  simp [cyclicOrder]

theorem mem_cyclicOrder {n c x : Nat} (hc : c < n) : x ∈ cyclicOrder c n ↔ x < n := by
  constructor
  · intro h
    obtain ⟨i, _, rfl⟩ := List.mem_map.mp h
    exact Nat.mod_lt _ (by omega)
  · intro hx
    refine List.mem_map.mpr ⟨cyclicPos n c x, ?_, add_cyclicPos hc hx⟩
    exact List.mem_range.mpr (cyclicPos_lt hc hx)

/-- A scan of the cyclic order stops at the hit that stands first. -/
theorem find?_cyclicOrder {n c x : Nat} (hc : c < n) (p : Nat → Bool) :
    (cyclicOrder c n).find? p = some x ↔
      x < n ∧ p x = true ∧ ∀ y, y < n → p y = true → cyclicPos n c x ≤ cyclicPos n c y := by
  rw [List.find?_eq_some_iff_getElem]
  constructor
  · rintro ⟨hp, i, hi, hx, before⟩
    rw [cyclicOrder_getElem] at hx
    rw [length_cyclicOrder] at hi
    have hpos : cyclicPos n c x = i := by rw [← hx]; exact cyclicPos_add hc hi
    have hlt : x < n := by rw [← hx]; exact Nat.mod_lt _ (by omega)
    refine ⟨hlt, hp, ?_⟩
    intro y hy hpy
    by_contra nearer
    have miss := before (cyclicPos n c y) (by omega)
    rw [cyclicOrder_getElem, add_cyclicPos hc hy, hpy] at miss
    cases miss
  · rintro ⟨hx, hp, first⟩
    refine ⟨hp, cyclicPos n c x, ?_, ?_, ?_⟩
    · rw [length_cyclicOrder]; exact cyclicPos_lt hc hx
    · rw [cyclicOrder_getElem]; exact add_cyclicPos hc hx
    · intro j hj
      have hjn : j < n := Nat.lt_trans hj (cyclicPos_lt hc hx)
      rw [cyclicOrder_getElem]
      by_contra hit
      have hit' : p ((c + (j + 1)) % n) = true := by simpa using hit
      have far := first _ (Nat.mod_lt _ (by omega)) hit'
      rw [cyclicPos_add hc hjn] at far
      omega

theorem find?_cyclicOrder_none {n c : Nat} (hc : c < n) (p : Nat → Bool) :
    (cyclicOrder c n).find? p = none ↔ ∀ y, y < n → p y = false := by
  rw [List.find?_eq_none]
  constructor
  · intro h y hy
    simpa using h y ((mem_cyclicOrder hc).mpr hy)
  · intro h y hy
    simp [h y ((mem_cyclicOrder hc).mp hy)]

/-- `x` stands strictly between `a` and `b` in the order after `c`. -/
def Between (n c a b x : Nat) : Prop :=
  (cyclicPos n c a < cyclicPos n c x ∧ cyclicPos n c x < cyclicPos n c b) ∨
  (cyclicPos n c b < cyclicPos n c x ∧ cyclicPos n c x < cyclicPos n c a)

instance (n c a b x : Nat) : Decidable (Between n c a b x) := inferInstanceAs (Decidable (_ ∨ _))

/-- Positions after `x` are those after the position of `x`. -/
theorem cyclicPos_rebase {n c x a : Nat} (hc : c < n) (hx : x < n) (ha : a < n) :
    cyclicPos n x a = cyclicPos n (cyclicPos n c x) (cyclicPos n c a) := by
  unfold cyclicPos
  split_ifs <;> omega

/-- Moving the start to `x` swaps two other indices exactly when `x` stands between them. -/
theorem cyclicPos_shift {n c x a b : Nat} (hc : c < n) (hx : x < n) (ha : a < n) (hb : b < n)
    (xa : x ≠ a) (xb : x ≠ b) :
    (cyclicPos n x a < cyclicPos n x b ↔ cyclicPos n c a < cyclicPos n c b) ↔
      ¬ Between n c a b x := by
  have apart_a : cyclicPos n c x ≠ cyclicPos n c a := fun eq => xa (cyclicPos_inj hc hx ha eq)
  have apart_b : cyclicPos n c x ≠ cyclicPos n c b := fun eq => xb (cyclicPos_inj hc hx hb eq)
  have small_x := cyclicPos_lt hc hx
  have small_a := cyclicPos_lt hc ha
  have small_b := cyclicPos_lt hc hb
  rw [cyclicPos_rebase hc hx ha, cyclicPos_rebase hc hx hb, Between]
  generalize cyclicPos n c x = px, cyclicPos n c a = pa, cyclicPos n c b = pb at *
  unfold cyclicPos
  split <;> split <;> omega

/-- Moving the start to an index that stands before `b` brings `b` nearer by its distance. -/
theorem cyclicPos_advance {n c x b : Nat} (hc : c < n) (hx : x < n) (hb : b < n)
    (before : cyclicPos n c x < cyclicPos n c b) :
    cyclicPos n x b + cyclicPos n c x + 1 = cyclicPos n c b := by
  rw [cyclicPos_rebase hc hx hb, cyclicPos, if_pos before]
  omega

end Rtos.Lib
