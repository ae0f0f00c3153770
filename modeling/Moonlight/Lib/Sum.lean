/-
Sums of words over an index range.

Such a sum wraps in general.  While the terms stay below a bound whose multiple still fits
into the word, it is the sum of the values.
-/
import Mathlib.Algebra.BigOperators.Group.Finset.Basic
import Mathlib.Algebra.Group.Nat.Defs
import Mathlib.Algebra.Order.BigOperators.Group.Finset

namespace Word

/-- The sum a counting loop computes, from left to right. -/
def sumRange (n : Nat) (f : Nat → UInt64) : UInt64 :=
  (List.range n).foldl (fun sum i => sum + f i) 0

theorem sumRange_succ (n : Nat) (f : Nat → UInt64) : sumRange (n + 1) f = sumRange n f + f n := by
  rw [sumRange, List.range_succ, List.foldl_append]
  rfl

variable {n b : Nat} {f : Nat → UInt64}

theorem sum_toNat_le (hf : ∀ i, i < n → (f i).toNat ≤ b) :
    ∑ i ∈ Finset.range n, (f i).toNat ≤ n * b := by
  have hle := Finset.sum_le_card_nsmul (Finset.range n) (fun i => (f i).toNat) b fun i hi =>
    hf i (Finset.mem_range.mp hi)
  rw [Finset.card_range] at hle
  exact hle

/-- Bounded terms do not wrap. -/
theorem toNat_sumRange (hf : ∀ i, i < n → (f i).toNat ≤ b) (hb : n * b < 2 ^ 64) :
    (sumRange n f).toNat = ∑ i ∈ Finset.range n, (f i).toNat := by
  induction n with
  | zero => rfl
  | succ n ih =>
    have hf' : ∀ i, i < n → (f i).toNat ≤ b := fun i hi => hf i (Nat.lt_succ_of_lt hi)
    have hsum := sum_toNat_le hf'
    have hlast := hf n (Nat.lt_succ_self n)
    rw [Nat.succ_mul] at hb
    rw [sumRange_succ, UInt64.toNat_add, ih hf' (by omega), Finset.sum_range_succ]
    exact Nat.mod_eq_of_lt (by omega)

/-- What one index adds to a sum. -/
theorem sum_eq_of_eq_off {f g : Nat → Nat} {j : Nat} (hj : j < n) (hfg : ∀ i, i ≠ j → f i = g i)
    (hg : g j = 0) : ∑ i ∈ Finset.range n, f i = ∑ i ∈ Finset.range n, g i + f j := by
  have hmem := Finset.mem_range.mpr hj
  have hrest : ∑ i ∈ (Finset.range n).erase j, f i = ∑ i ∈ (Finset.range n).erase j, g i :=
    Finset.sum_congr rfl fun i hi => hfg i (Finset.ne_of_mem_erase hi)
  rw [← Finset.add_sum_erase _ f hmem, ← Finset.add_sum_erase _ g hmem, hg, hrest]
  omega

end Word
