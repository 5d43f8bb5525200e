import Mathlib.Data.BitVec

/-! Fields of a register, given by masks, and what a read-modify-write does to them. -/
namespace Rtos.Lib
variable {w : Nat} {r m n v : BitVec w}

theorem and_clear_self : (r &&& ~~~m) &&& m = 0#w := by
  rw [BitVec.and_assoc, BitVec.and_comm (~~~m), BitVec.and_not_self]
  exact BitVec.and_zero

theorem and_clear_comm : (r &&& ~~~m) &&& ~~~n = (r &&& ~~~n) &&& ~~~m := by
  rw [BitVec.and_assoc, BitVec.and_assoc, BitVec.and_comm (~~~m)]

/-- To clear one field leaves another as it was. -/
theorem and_clear_other (apart : m &&& n = 0#w) : (r &&& ~~~m) &&& n = r &&& n := by
  have whole : (~~~m &&& n) ||| (m &&& n) = n := by
    rw [← BitVec.and_or_distrib_right, BitVec.or_comm, BitVec.or_not_self, BitVec.allOnes_and]
  rw [apart, BitVec.or_zero] at whole
  rw [BitVec.and_assoc, whole]

theorem or_mask : (r ||| m) &&& m = m := by
  ext i hi
  simpa using Or.inr

theorem field_set (within : v &&& m = v) : ((r &&& ~~~m) ||| v) &&& m = v := by
  rw [BitVec.and_or_distrib_right, and_clear_self, within, BitVec.zero_or]

theorem field_other (apart : m &&& n = 0#w) (outside : v &&& n = 0#w) :
    ((r &&& ~~~m) ||| v) &&& n = r &&& n := by
  rw [BitVec.and_or_distrib_right, and_clear_other apart, outside, BitVec.or_zero]

end Rtos.Lib
