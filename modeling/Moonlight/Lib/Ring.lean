/-
Ring buffers.

A ring is an array of `cap` cells read modulo `cap`, with the position of its
first element and its length.  `contents` is the list it stands for; pushing at
the tail appends to that list, advancing the head drops its first element, and
moving the elements behind a place down by one takes the element there out.
-/
import Mathlib.Logic.Function.Basic

namespace Ring

variable {α β : Type}

/-- The elements of the ring, oldest first. -/
def contents (cap : Nat) (cells : Nat → α) (head len : Nat) : List α :=
  (List.range len).map fun i => cells ((head + i) % cap)

@[simp] theorem contents_zero (cap : Nat) (cells : Nat → α) (head : Nat) :
    contents cap cells head 0 = [] := rfl

@[simp] theorem length_contents (cap : Nat) (cells : Nat → α) (head len : Nat) :
    (contents cap cells head len).length = len := by
  simp [contents]

/-- The tail cell of a ring that is not full holds none of its elements. -/
theorem index_ne_tail {cap head i len : Nat} (hi : i < len) (hlen : len < cap) :
    (head + i) % cap ≠ (head + len) % cap := by
  intro h
  have hdvd : cap ∣ len - i := by
    have := Nat.sub_mod_eq_zero_of_mod_eq h.symm
    rw [show head + len - (head + i) = len - i by omega] at this
    exact Nat.dvd_of_mod_eq_zero this
  have := Nat.le_of_dvd (by omega) hdvd
  omega

theorem contents_push {cap len : Nat} (hlen : len < cap) (cells : Nat → α) (head : Nat) (x : α) :
    contents cap (Function.update cells ((head + len) % cap) x) head (len + 1) =
      contents cap cells head len ++ [x] := by
  simp only [contents, List.range_succ, List.map_append, List.map_cons, List.map_nil,
    Function.update_self]
  congr 1
  refine List.map_congr_left fun i hi => ?_
  exact Function.update_of_ne (index_ne_tail (List.mem_range.mp hi) hlen) ..

theorem contents_pop (cap : Nat) (cells : Nat → α) (head len : Nat) :
    contents cap cells head (len + 1) =
      cells (head % cap) :: contents cap cells ((head + 1) % cap) len := by
  simp only [contents, List.range_succ_eq_map, List.map_cons, List.map_map, Nat.add_zero]
  congr 1
  refine List.map_congr_left fun i _ => ?_
  simp only [Function.comp_apply, Nat.mod_add_mod]
  rw [show head + i.succ = head + 1 + i by omega]

theorem getElem_contents {cap : Nat} {cells : Nat → α} {head len i : Nat}
    (h : i < (contents cap cells head len).length) :
    (contents cap cells head len)[i] = cells ((head + i) % cap) := by
  simp [contents]

/-- Copy each of `n` elements from place `k + 1` on one place down. -/
def shiftFrom (cap head : Nat) : Nat → (Nat → α) → Nat → (Nat → α)
  | 0, cells, _ => cells
  | n + 1, cells, k =>
      shiftFrom cap head n
        (Function.update cells ((head + k) % cap) (cells ((head + (k + 1)) % cap))) (k + 1)

/-- Two rings side by side are shifted together. -/
theorem shiftFrom_prod (cap head n : Nat) (a : Nat → α) (b : Nat → β) (k : Nat) :
    (fun i => (shiftFrom cap head n a k i, shiftFrom cap head n b k i)) =
      shiftFrom cap head n (fun i => (a i, b i)) k := by
  induction n generalizing a b k with
  | zero => rfl
  | succ n ih =>
    simp only [shiftFrom, ih]
    congr 1
    funext i
    by_cases hi : i = (head + k) % cap
    · simp only [hi, Function.update_self]
    · simp only [Function.update_of_ne hi]

/-- The places from `k` on hold what their successors held, as far as the copying went. -/
theorem shiftFrom_apply {cap head n : Nat} (cells : Nat → α) {k j : Nat} (hn : k + n < cap)
    (hj : j < cap) :
    shiftFrom cap head n cells k ((head + j) % cap) =
      if k ≤ j ∧ j < k + n then cells ((head + (j + 1)) % cap) else cells ((head + j) % cap) := by
  induction n generalizing cells k with
  | zero =>
    rw [if_neg (by omega)]
    rfl
  | succ n ih =>
    rw [shiftFrom, ih _ (by omega)]
    by_cases hin : k + 1 ≤ j ∧ j < k + 1 + n
    · have hne : (head + (j + 1)) % cap ≠ (head + k) % cap :=
        (index_ne_tail (by omega) (by omega)).symm
      rw [if_pos hin, if_pos (by omega), Function.update_of_ne hne]
    · rw [if_neg hin]
      by_cases hjk : j = k
      · subst hjk
        rw [if_pos (by omega), Function.update_self]
      · have hne : (head + j) % cap ≠ (head + k) % cap := by
          rcases Nat.lt_or_gt_of_ne hjk with hlt | hgt
          · exact index_ne_tail hlt (by omega)
          · exact (index_ne_tail hgt hj).symm
        rw [if_neg (by omega), Function.update_of_ne hne]

/-- Moving everything behind place `q` down takes one element out. -/
theorem contents_shiftFrom {cap head len q : Nat} (cells : Nat → α) (hq : q < len)
    (hlen : len ≤ cap) :
    contents cap (shiftFrom cap head (len - 1 - q) cells q) head (len - 1) =
      (contents cap cells head len).eraseIdx q := by
  apply List.ext_getElem
  · rw [List.length_eraseIdx_of_lt (by rwa [length_contents]), length_contents, length_contents]
  · intro i hi _
    rw [length_contents] at hi
    rw [List.getElem_eraseIdx, getElem_contents, shiftFrom_apply cells (by omega) (by omega)]
    by_cases hiq : i < q
    · rw [if_neg (by omega), dif_pos hiq, getElem_contents]
    · rw [if_pos (by omega), dif_neg hiq, getElem_contents]

end Ring
