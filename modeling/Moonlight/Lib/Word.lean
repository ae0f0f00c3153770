/-
Facts about fixed-width words: masks, single bits, and operations on signed words.
-/
import Mathlib.Tactic.NormNum
import Mathlib.Tactic.SplitIfs

namespace Word

/-- A mask test against a complement is a subset test on the set bits. -/
theorem and_compl_eq_zero_iff (a b : UInt32) : a &&& ~~~b = 0 ↔ a &&& b = a := by
  rw [← UInt32.toBitVec_inj, ← UInt32.toBitVec_inj]
  simp only [UInt32.toBitVec_and, UInt32.toBitVec_not]
  constructor
  · intro h
    apply BitVec.eq_of_getLsbD_eq
    intro i hi
    have hb := congrArg (fun v : BitVec 32 => v.getLsbD i) h
    simp only [BitVec.getLsbD_and, BitVec.getLsbD_not, hi, decide_true, Bool.true_and,
      UInt32.toBitVec_zero, BitVec.getLsbD_zero] at hb ⊢
    cases hx : a.toBitVec.getLsbD i <;> simp_all
  · intro h
    rw [← h, BitVec.and_assoc]
    simp

theorem shiftRight_and_one_ne_zero_iff (m k : UInt64) :
    (m >>> k) &&& 1 ≠ 0 ↔ m.toNat.testBit (k.toNat % 64) = true := by
  rw [Ne, ← UInt64.toNat_inj, UInt64.toNat_and, UInt64.toNat_shiftRight]
  show ¬ (m.toNat >>> (k.toNat % 64) &&& 1 = 0) ↔ _
  rw [Nat.testBit, Nat.and_comm]
  simp

/-- Setting one bit of a mask changes what is read at that bit only. -/
theorem bit_set_iff (m j k : UInt64) :
    ((m ||| 1 <<< k) >>> j) &&& 1 ≠ 0 ↔ k.toNat % 64 = j.toNat % 64 ∨ (m >>> j) &&& 1 ≠ 0 := by
  have hlt : j.toNat % 64 < 64 := Nat.mod_lt _ (by decide)
  have hone : (1 <<< k : UInt64).toNat.testBit (j.toNat % 64) =
      decide (k.toNat % 64 = j.toNat % 64) := by
    rw [UInt64.toNat_shiftLeft, Nat.testBit_mod_two_pow]
    show (decide (j.toNat % 64 < 64) && (1 <<< (k.toNat % 64)).testBit (j.toNat % 64)) = _
    rw [Nat.one_shiftLeft, Nat.testBit_two_pow]
    simp [hlt]
  rw [shiftRight_and_one_ne_zero_iff, shiftRight_and_one_ne_zero_iff, UInt64.toNat_or,
    Nat.testBit_or, hone]
  simp [or_comm]

/-- The result of an operation on the type `int` of C, with `none` for an overflow, which
has no defined result. -/
def int (v : Int) : Option Int := if -2 ^ 31 ≤ v ∧ v < 2 ^ 31 then some v else none

theorem int_eq_some_iff {v w : Int} : int v = some w ↔ w = v ∧ -2 ^ 31 ≤ v ∧ v < 2 ^ 31 := by
  unfold int
  split_ifs with h
  · rw [Option.some_inj]
    exact ⟨fun heq => ⟨heq.symm, h⟩, fun heq => heq.1.symm⟩
  · exact ⟨fun heq => (by cases heq), fun heq => absurd heq.2 h⟩

theorem int_of_range {v : Int} (hlow : -2 ^ 31 ≤ v) (hhigh : v < 2 ^ 31) : int v = some v :=
  if_pos ⟨hlow, hhigh⟩

end Word
