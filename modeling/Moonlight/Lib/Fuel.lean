/-
Loops and recursions that need not terminate, run with fuel.

A fuelled function returns `none` when its fuel runs out.  It yields a result
when every large enough amount of fuel gives that result; a computation that
yields nothing diverges.
-/
import Mathlib.Order.Basic

namespace Fuel

variable {α β : Type}

/-- Every large enough amount of fuel gives the result `r`. -/
def Yields (f : Nat → Option α) (r : α) : Prop := ∃ n, ∀ fuel, n ≤ fuel → f fuel = some r

theorem yields_of_forall {f : Nat → Option α} {r : α} (h : ∀ fuel, f fuel = some r) :
    Yields f r := ⟨0, fun fuel _ => h fuel⟩

theorem Yields.const {a b : α} (h : Yields (fun _ => some a) b) : b = a := by
  obtain ⟨n, hn⟩ := h
  exact (Option.some.inj (hn n (Nat.le_refl n))).symm

theorem Yields.congr {f g : Nat → Option α} {r : α} (hfg : ∀ fuel, f fuel = g fuel)
    (h : Yields g r) : Yields f r := by
  obtain ⟨n, hn⟩ := h
  exact ⟨n, fun fuel hfuel => (hfg fuel).trans (hn fuel hfuel)⟩

theorem Yields.unique {f : Nat → Option α} {r r' : α} (h : Yields f r) (h' : Yields f r') :
    r = r' := by
  obtain ⟨n, hn⟩ := h
  obtain ⟨m, hm⟩ := h'
  have heq := (hn (max n m) (Nat.le_max_left n m)).symm.trans (hm (max n m) (Nat.le_max_right n m))
  exact Option.some.inj heq

/-- One unit of fuel pays for one unfolding. -/
theorem Yields.unfold {f g : Nat → Option α} {r : α} (hfg : ∀ fuel, f (fuel + 1) = g fuel)
    (h : Yields g r) : Yields f r := by
  obtain ⟨n, hn⟩ := h
  refine ⟨n + 1, fun fuel hfuel => ?_⟩
  obtain ⟨m, rfl⟩ : ∃ m, fuel = m + 1 := ⟨fuel - 1, by omega⟩
  rw [hfg m]
  exact hn m (by omega)

/-- What is left after one unfolding yields the same. -/
theorem Yields.of_unfold {f g : Nat → Option α} {r : α} (hfg : ∀ fuel, f (fuel + 1) = g fuel)
    (h : Yields f r) : Yields g r := by
  obtain ⟨n, hn⟩ := h
  refine ⟨n, fun fuel hfuel => ?_⟩
  rw [← hfg fuel]
  exact hn (fuel + 1) (by omega)

theorem Yields.bind {f : Nat → Option α} {g : α → Nat → Option β} {a : α} {b : β}
    (hf : Yields f a) (hg : Yields (g a) b) :
    Yields (fun fuel => (f fuel).bind fun x => g x fuel) b := by
  obtain ⟨n, hn⟩ := hf
  obtain ⟨m, hm⟩ := hg
  refine ⟨max n m, fun fuel hfuel => ?_⟩
  have hnf : n ≤ fuel := Nat.le_trans (Nat.le_max_left n m) hfuel
  have hmf : m ≤ fuel := Nat.le_trans (Nat.le_max_right n m) hfuel
  simp only [hn fuel hnf, Option.bind_some, hm fuel hmf]

theorem Yields.map {f : Nat → Option α} {a : α} (hf : Yields f a) (g : α → β) :
    Yields (fun fuel => (f fuel).map g) (g a) := by
  obtain ⟨n, hn⟩ := hf
  exact ⟨n, fun fuel hfuel => by simp only [hn fuel hfuel, Option.map_some]⟩

theorem not_yields_of_forall {f : Nat → Option α} (h : ∀ fuel, f fuel = none) (r : α) :
    ¬ Yields f r := by
  rintro ⟨n, hn⟩
  have hsome := hn n (Nat.le_refl n)
  rw [h n] at hsome
  cases hsome

/-- What a mapped computation yields tells what was mapped, when that can be read off. -/
theorem Yields.of_map {f : Nat → Option α} {g : α → β} {b : β} (p : β → α) (hp : ∀ a, p (g a) = a)
    (h : Yields (fun fuel => (f fuel).map g) b) : Yields f (p b) := by
  obtain ⟨n, hn⟩ := h
  refine ⟨n, fun fuel hfuel => ?_⟩
  obtain ⟨a, ha, rfl⟩ := Option.map_eq_some_iff.mp (hn fuel hfuel)
  rw [ha, hp]

end Fuel
