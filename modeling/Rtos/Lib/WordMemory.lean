import Mathlib.Data.BitVec
import Mathlib.Data.List.Basic
import Mathlib.Logic.Function.Basic

/-! Memory as 32-bit words at byte addresses, little-endian, with runs of words and single
bytes. -/
namespace Rtos.Lib

/-- The words at the addresses that are multiples of four; nothing reads the others. -/
abbrev Memory := BitVec 32 → BitVec 32

/-- The address of the `i`-th word from `a` on. -/
def wordAddr (a : BitVec 32) (i : Nat) : BitVec 32 := a + BitVec.ofNat 32 (4 * i)

def wordAddrs (a : BitVec 32) (n : Nat) : List (BitVec 32) := (List.range n).map (wordAddr a)

section addr
variable (a : BitVec 32) (i j k : Nat)

@[simp] theorem wordAddr_zero : wordAddr a 0 = a := by
  simp [wordAddr]

theorem wordAddr_succ : wordAddr a (i + 1) = wordAddr (a + 4) i := by
  unfold wordAddr; bv_omega

@[simp] theorem wordAddr_wordAddr : wordAddr (wordAddr a i) j = wordAddr a (i + j) := by
  unfold wordAddr; bv_omega

theorem wordAddr_back : wordAddr a i - BitVec.ofNat 32 (4 * i) = a := by
  unfold wordAddr; bv_omega

theorem wordAddr_sub (h : k ≤ i) : wordAddr a i - BitVec.ofNat 32 (4 * k) = wordAddr a (i - k) := by
  unfold wordAddr; bv_omega

theorem wordAddr_inj (hi : i < 2 ^ 30) (hj : j < 2 ^ 30) : wordAddr a i = wordAddr a j ↔ i = j := by
  unfold wordAddr
  constructor
  · intro eq
    bv_omega
  · rintro rfl; rfl
end addr

theorem mem_wordAddrs {a b : BitVec 32} {n : Nat} :
    b ∈ wordAddrs a n ↔ ∃ i < n, b = wordAddr a i := by
  simp [wordAddrs, eq_comm]

theorem wordAddrs_append (a : BitVec 32) (i j : Nat) :
    wordAddrs a (i + j) = wordAddrs a i ++ wordAddrs (wordAddr a i) j := by
  simp [wordAddrs, List.range_add]

theorem and_not_add_and (a m : BitVec 32) : (a &&& ~~~m) + (a &&& m) = a := by
  have apart : (a &&& ~~~m) &&& (a &&& m) = 0 := by
    ext i hi
    simp
    grind
  rw [BitVec.add_eq_or_of_and_eq_zero _ _ apart, ← BitVec.and_or_distrib_left, BitVec.not_or_self,
    BitVec.and_allOnes]

theorem and_not_three {a : BitVec 32} (aligned : a &&& 3#32 = 0) : a &&& ~~~3#32 = a := by
  have split := and_not_add_and a 3#32
  rw [aligned] at split
  simpa using split

theorem toNat_and_three (a : BitVec 32) : (a &&& 3#32).toNat = a.toNat % 4 :=
  (BitVec.toNat_and a 3#32).trans (Nat.and_two_pow_sub_one_eq_mod a.toNat 2)

theorem aligned_wordAddr {a : BitVec 32} (aligned : a &&& 3#32 = 0) (i : Nat) :
    wordAddr a i &&& 3#32 = 0 := by
  apply BitVec.eq_of_toNat_eq
  have zero := congrArg BitVec.toNat aligned
  rw [toNat_and_three] at zero ⊢
  simp only [wordAddr, BitVec.toNat_add, BitVec.toNat_ofNat] at zero ⊢
  omega

theorem toNat_wordAddr {a : BitVec 32} {i : Nat} (fits : a.toNat + 4 * i < 2 ^ 32) :
    (wordAddr a i).toNat = a.toNat + 4 * i := by
  rw [wordAddr, BitVec.toNat_add, BitVec.toNat_ofNat]
  omega

@[simp] theorem wordAddrs_one (a : BitVec 32) : wordAddrs a 1 = [a] := by
  simp [wordAddrs, List.range_succ]

namespace Memory
variable {m m' : Memory} {a b : BitVec 32}

def readWords (m : Memory) (a : BitVec 32) : Nat → List (BitVec 32)
  | 0 => []
  | n + 1 => m a :: m.readWords (a + 4) n

def writeWords (m : Memory) (a : BitVec 32) : List (BitVec 32) → Memory
  | [] => m
  | v :: vs => writeWords (Function.update m a v) (a + 4) vs

@[simp] theorem readWords_one : m.readWords a 1 = [m a] := rfl

@[simp] theorem writeWords_one (v : BitVec 32) : m.writeWords a [v] = Function.update m a v := rfl

@[simp] theorem length_readWords (n : Nat) : (m.readWords a n).length = n := by
  induction n generalizing a with
  | zero => rfl
  | succ n ih => rw [readWords, List.length_cons, ih]

theorem readWords_congr {n : Nat} (same : ∀ i < n, m' (wordAddr a i) = m (wordAddr a i)) :
    m'.readWords a n = m.readWords a n := by
  induction n generalizing a with
  | zero => rfl
  | succ n ih =>
    have head := same 0 (Nat.succ_pos n)
    rw [wordAddr_zero] at head
    rw [readWords, readWords, head, ih]
    intro i hi
    rw [← wordAddr_succ]; exact same (i + 1) (Nat.succ_lt_succ hi)

theorem readWords_append (i j : Nat) :
    m.readWords a (i + j) = m.readWords a i ++ m.readWords (wordAddr a i) j := by
  induction i generalizing a with
  | zero => simp [readWords]
  | succ i ih =>
    rw [Nat.add_right_comm, readWords, readWords, ih, List.cons_append, wordAddr_succ]

theorem writeWords_append (vs ws : List (BitVec 32)) :
    m.writeWords a (vs ++ ws) = (m.writeWords a vs).writeWords (wordAddr a vs.length) ws := by
  induction vs generalizing m a with
  | nil => simp [writeWords]
  | cons v vs ih =>
    rw [List.cons_append, writeWords, ih, List.length_cons, wordAddr_succ]; rfl

theorem writeWords_other {vs : List (BitVec 32)} (out : b ∉ wordAddrs a vs.length) :
    m.writeWords a vs b = m b := by
  induction vs generalizing m a with
  | nil => rfl
  | cons v vs ih =>
    rw [mem_wordAddrs] at out
    rw [writeWords, ih, Function.update_of_ne]
    · rintro rfl
      exact out ⟨0, Nat.succ_pos _, by simp⟩
    · rw [mem_wordAddrs]
      rintro ⟨i, hi, rfl⟩
      exact out ⟨i + 1, Nat.succ_lt_succ hi, (wordAddr_succ a i).symm⟩

/-- A run of words that does not wrap around is read back as it was written. -/
theorem readWords_writeWords (vs : List (BitVec 32)) (fits : vs.length ≤ 2 ^ 30) :
    (m.writeWords a vs).readWords a vs.length = vs := by
  induction vs generalizing m a with
  | nil => rfl
  | cons v vs ih =>
    simp only [List.length_cons] at fits
    have out : a ∉ wordAddrs (a + 4) vs.length := by
      rw [mem_wordAddrs]
      rintro ⟨i, hi, eq⟩
      rw [← wordAddr_succ] at eq
      have inj := (wordAddr_inj a 0 (i + 1) (by omega) (by omega)).mp (by simpa using eq)
      omega
    rw [List.length_cons, readWords, writeWords, writeWords_other out, Function.update_self, ih (by omega)]

theorem readWords_word {n i : Nat} (hi : i < n) :
    (m.readWords a n)[i]? = some (m (wordAddr a i)) := by
  induction n generalizing a i with
  | zero => cases hi
  | succ n ih =>
    cases i with
    | zero => rw [wordAddr_zero]; rfl
    | succ i => rw [readWords, List.getElem?_cons_succ, ih (Nat.lt_of_succ_lt_succ hi), wordAddr_succ]

theorem writeWords_word (vs : List (BitVec 32)) (fits : vs.length ≤ 2 ^ 30) {i : Nat}
    (hi : i < vs.length) : some (m.writeWords a vs (wordAddr a i)) = vs[i]? := by
  rw [← readWords_word hi, readWords_writeWords vs fits]

/-- The word that holds the byte at `a`, and the byte's place in it. -/
def wordOf (a : BitVec 32) : BitVec 32 := a &&& ~~~3#32

def lane (a : BitVec 32) : Nat := 8 * (a.toNat % 4)

def readByte (m : Memory) (a : BitVec 32) : BitVec 32 := (m (wordOf a) >>> lane a) &&& 0xFF#32

def writeByte (m : Memory) (a v : BitVec 32) : Memory :=
  Function.update m (wordOf a)
    ((m (wordOf a) &&& ~~~(0xFF#32 <<< lane a)) ||| ((v &&& 0xFF#32) <<< lane a))

theorem toNat_wordOf (a : BitVec 32) : (wordOf a).toNat = a.toNat - a.toNat % 4 := by
  have low := toNat_and_three a
  rw [wordOf, eq_sub_of_add_eq (and_not_add_and a 3#32), BitVec.toNat_sub]
  omega

theorem writeByte_other {v : BitVec 32} (other : b ≠ wordOf a) : m.writeByte a v b = m b :=
  Function.update_of_ne other _ _

theorem readByte_congr (same : m' (wordOf a) = m (wordOf a)) : m'.readByte a = m.readByte a := by
  rw [readByte, readByte, same]

theorem readByte_writeByte (v : BitVec 32) : (m.writeByte a v).readByte a = v &&& 0xFF#32 := by
  have fits : lane a + 8 ≤ 32 := by
    unfold lane; omega
  rw [readByte, writeByte, Function.update_self]
  generalize lane a = s at fits
  have low : ∀ i (h : i < 32), (255#32)[i] = decide (i < 8) := by decide
  ext i hi
  by_cases small : i < 8
  · have room : s + i < 32 := by omega
    have above : ¬ s + i < s := by omega
    simp [small, room, above, low i hi]
  · simp [small, low i hi]

end Memory

end Rtos.Lib
