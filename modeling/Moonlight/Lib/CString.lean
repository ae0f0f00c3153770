/-
Strings of C.

A string is a list of bytes without a zero byte, and in memory the terminator follows.
The functions of `<string.h>` see arrays of bytes: `strncpy` fills an array of fixed size
and terminates it only where the string is shorter, and `strcmp` reads both arrays from
the front until it is decided.  A read past the end of an array has no defined result.
-/
import Mathlib.Data.List.Basic
import Mathlib.Tactic.SplitIfs

structure CString where
  bytes : List UInt8
  noNul : 0 ∉ bytes
  deriving DecidableEq

namespace CString

/-- The bytes in memory, with the terminator. -/
def terminated (s : CString) : List UInt8 := s.bytes ++ [0]

/-- The `n` bytes `strncpy` writes: the string, cut or filled up with zero bytes. -/
def strncpy (s : CString) (n : Nat) : List UInt8 :=
  s.bytes.take n ++ List.replicate (n - s.bytes.length) 0

/-- `strcmp` on two arrays, with `none` when a read leaves one of them. -/
def strcmp : List UInt8 → List UInt8 → Option Ordering
  | a :: as, b :: bs =>
      if a ≠ b then some (compare a b) else if a = 0 then some .eq else strcmp as bs
  | _, _ => none

theorem ext_bytes {s t : CString} (h : s.bytes = t.bytes) : s = t := by
  cases s
  cases t
  cases h
  rfl

theorem compare_ne_eq {a b : UInt8} (h : a ≠ b) : compare a b ≠ .eq := by
  intro heq
  exact h (by simpa using heq)

/-- Two terminated strings compare equal exactly when they are the same, whatever
follows the terminators. -/
theorem strcmp_terminated {as bs : List UInt8} (ha : 0 ∉ as) (hb : 0 ∉ bs) (x y : List UInt8) :
    ∃ o, strcmp (as ++ 0 :: x) (bs ++ 0 :: y) = some o ∧ (o = .eq ↔ as = bs) := by
  induction as generalizing bs with
  | nil =>
    cases bs with
    | nil => exact ⟨.eq, by simp [strcmp], by simp⟩
    | cons b bs =>
      have hne : (0 : UInt8) ≠ b := fun h => hb (h ▸ List.mem_cons_self)
      exact ⟨compare 0 b, by simp [strcmp, hne], by simp [compare_ne_eq hne]⟩
  | cons a as ih =>
    have ha0 : a ≠ 0 := fun h => ha (h ▸ List.mem_cons_self)
    cases bs with
    | nil => exact ⟨compare a 0, by simp [strcmp, ha0], by simp [compare_ne_eq ha0]⟩
    | cons b bs =>
      by_cases hab : a = b
      · subst hab
        have hrest : 0 ∉ bs := fun h => hb (List.mem_cons_of_mem a h)
        obtain ⟨o, heq, hiff⟩ := ih (fun h => ha (List.mem_cons_of_mem a h)) hrest
        exact ⟨o, by simpa [strcmp, ha0] using heq, by simpa using hiff⟩
      · exact ⟨compare a b, by simp [strcmp, hab], by simp [compare_ne_eq hab, hab]⟩

/-- An array without a terminator is left by a comparison with a string that starts with
all of it. -/
theorem strcmp_unterminated {as : List UInt8} (ha : 0 ∉ as) (bs : List UInt8) :
    strcmp as (as ++ bs) = none := by
  induction as with
  | nil => rw [strcmp.eq_def]
  | cons a as ih =>
    have ha0 : a ≠ 0 := fun h => ha (h ▸ List.mem_cons_self)
    simpa [strcmp, ha0] using ih fun h => ha (List.mem_cons_of_mem a h)

/-- A string that fits with its terminator is copied whole. -/
theorem strncpy_of_lt (s : CString) {n : Nat} (h : s.bytes.length < n) :
    ∃ x, s.strncpy n = s.bytes ++ 0 :: x := by
  refine ⟨List.replicate (n - s.bytes.length - 1) 0, ?_⟩
  have hfill : n - s.bytes.length = n - s.bytes.length - 1 + 1 := by omega
  rw [strncpy, List.take_of_length_le (by omega), hfill, List.replicate_succ]
  rfl

/-- One that does not fit loses its terminator. -/
theorem strncpy_of_ge (s : CString) {n : Nat} (h : n ≤ s.bytes.length) :
    s.strncpy n = s.bytes.take n := by
  rw [strncpy, Nat.sub_eq_zero_of_le h, List.replicate_zero, List.append_nil]

/-- What `strcmp` says of two copies that fit. -/
theorem strcmp_strncpy (s t : CString) {n : Nat} (h : s.bytes.length < n) :
    ∃ o, strcmp (s.strncpy n) t.terminated = some o ∧ (o = .eq ↔ s = t) := by
  obtain ⟨x, hx⟩ := s.strncpy_of_lt h
  obtain ⟨o, heq, hiff⟩ := strcmp_terminated s.noNul t.noNul x []
  rw [hx, terminated]
  exact ⟨o, heq, hiff.trans ⟨ext_bytes, congrArg bytes⟩⟩

theorem strcmp_strncpy_of_ge (s : CString) {n : Nat} (h : n ≤ s.bytes.length) :
    strcmp (s.strncpy n) s.terminated = none := by
  have hsplit : s.terminated = s.bytes.take n ++ (s.bytes.drop n ++ [0]) := by
    rw [terminated, ← List.append_assoc, List.take_append_drop]
  rw [s.strncpy_of_ge h, hsplit]
  exact strcmp_unterminated (fun hm => s.noNul (List.mem_of_mem_take hm)) _

/-! ### Arrays that hold a string -/

/-- The string at the front of an array, up to the terminator or the end. -/
def ofArray (as : List UInt8) : CString :=
  { bytes := as.takeWhile (· ≠ 0)
    noNul := fun h => by simpa using List.all_eq_true.mp List.all_takeWhile 0 h }

/-- What follows the terminator of the second array is never read. -/
theorem strcmp_append (as bs x y : List UInt8) :
    strcmp as (bs ++ 0 :: x) = strcmp as (bs ++ 0 :: y) := by
  induction bs generalizing as with
  | nil =>
    cases as with
    | nil => simp [strcmp]
    | cons a as =>
      by_cases ha : a = 0
      · simp [strcmp, ha]
      · simp [strcmp, ha]
  | cons b bs ih =>
    cases as with
    | nil => simp [strcmp]
    | cons a as => simp [strcmp, ih as]

/-- An array with a terminator is a string in memory, as far as `strcmp` reads it. -/
theorem ofArray_split {as : List UInt8} (h : 0 ∈ as) :
    (ofArray as).bytes.length < as.length ∧ ∃ x, as = (ofArray as).bytes ++ 0 :: x := by
  induction as with
  | nil => cases h
  | cons a as ih =>
    by_cases ha : a = 0
    · subst ha
      exact ⟨by simp [ofArray], as, by simp [ofArray]⟩
    · obtain ⟨hlen, x, hx⟩ := ih ((List.mem_cons.mp h).resolve_left (Ne.symm ha))
      have hbytes : (ofArray (a :: as)).bytes = a :: (ofArray as).bytes := by simp [ofArray, ha]
      rw [hbytes]
      exact ⟨Nat.succ_lt_succ hlen, x, by rw [List.cons_append, ← hx]⟩

theorem strcmp_ofArray (as : List UInt8) {bs : List UInt8} (h : 0 ∈ bs) :
    strcmp as bs = strcmp as (ofArray bs).terminated := by
  obtain ⟨-, x, hx⟩ := ofArray_split h
  have hread := strcmp_append as (ofArray bs).bytes x []
  rw [← hx] at hread
  exact hread

end CString
