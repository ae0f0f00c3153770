/-
IOMMU windows of different devices.

`iommu_isolation` assumes `iommu_wellformed`: windows of different devices do not
meet.  `iommu_map` compares the range it is given with the bounds of the capability
and not with the windows already there, so the assumption is left to its callers.
-/
import Mathlib.Order.CompletePartialOrder
import Mathlib.Order.Interval.Set.Disjoint
import Moonlight.Memory.Iommu

namespace Moonlight

/-- The physical addresses a window covers. -/
def IommuWindow.range (w : IommuWindow) : Set Nat :=
  Set.Ico w.paddrBase.toNat (w.paddrBase.toNat + w.size.toNat)

/-- `iommu_wellformed`. -/
def IommuState.WellFormed (io : IommuState) : Prop :=
  ∀ i j, i < maxIommuWindows → j < maxIommuWindows →
    (io.windows i).valid = true → (io.windows j).valid = true →
    (io.windows i).devId ≠ (io.windows j).devId →
    Disjoint (io.windows i).range (io.windows j).range

/-! ### Replacing one window -/

theorem IommuState.WellFormed.update {io io' : IommuState} (h : io.WellFormed) {i : Nat}
    {w : IommuWindow} (heq : io'.windows = Function.update io.windows i w)
    (hw : w.valid = true → ∀ j, j < maxIommuWindows → (io.windows j).valid = true →
      (io.windows j).devId ≠ w.devId → Disjoint w.range (io.windows j).range) :
    io'.WellFormed := by
  intro j k hj hk hvj hvk hne
  rw [heq] at hvj hvk hne ⊢
  by_cases hji : j = i
  · subst hji
    by_cases hkj : k = j
    · rw [hkj] at hne
      exact absurd rfl hne
    · rw [Function.update_self] at hvj hne ⊢
      rw [Function.update_of_ne hkj] at hvk hne ⊢
      exact hw hvj k hk hvk hne.symm
  · rw [Function.update_of_ne hji] at hvj hne ⊢
    by_cases hki : k = i
    · subst hki
      rw [Function.update_self] at hvk hne ⊢
      exact (hw hvk j hj hvj hne).symm
    · rw [Function.update_of_ne hki] at hvk hne ⊢
      exact h j k hj hk hvj hvk hne

/-- A window stored in a free entry is apart from those of the other devices. -/
theorem IommuState.WellFormed.disjoint_stored {io io' : IommuState} {i : Nat} {w : IommuWindow}
    (h : io'.WellFormed) (heq : io'.windows = Function.update io.windows i w)
    (hi : i < maxIommuWindows) (hfree : (io.windows i).valid = false) (hw : w.valid = true) (j : Nat)
    (hj : j < maxIommuWindows) (hvj : (io.windows j).valid = true)
    (hne : (io.windows j).devId ≠ w.devId) : Disjoint w.range (io.windows j).range := by
  have hji : j ≠ i := by
    intro hji
    rw [hji, hfree] at hvj
    cases hvj
  have hself : io'.windows i = w := by rw [heq, Function.update_self]
  have hother : io'.windows j = io.windows j := by rw [heq, Function.update_of_ne hji]
  have hdisj := h i j hi hj
  rw [hself, hother] at hdisj
  exact hdisj hw hvj hne.symm

/-! ### Isolation of devices -/

/-- A map that is accepted asks for a range apart from every window of another
device. -/
def IommuState.Apart (io : IommuState) : IommuCall → Prop
  | .map iommuCap devId paddr size perms =>
    MapAccepted io iommuCap paddr size perms →
      ∀ j, j < maxIommuWindows → (io.windows j).valid = true → (io.windows j).devId ≠ devId →
        Disjoint (Set.Ico paddr.toNat (paddr.toNat + size.toNat)) (io.windows j).range
  | .unmap _ _ => True

theorem IommuState.WellFormed.step_iff {io : IommuState} (h : io.WellFormed) (c : IommuCall) :
    (iommuStep io c).WellFormed ↔ io.Apart c := by
  cases c with
  | map iommuCap devId paddr size perms =>
    show (iommuMap io iommuCap devId paddr size perms).2.WellFormed ↔ _
    obtain ⟨hacc, i, hi, hfree, heq⟩ | ⟨hacc, e, -, heq⟩ :=
      iommuMap_cases io iommuCap devId paddr size perms
    · rw [heq]
      constructor
      · exact fun h' _ => h'.disjoint_stored rfl hi hfree rfl
      · exact fun hap => h.update rfl fun _ => hap hacc
    · rw [heq]
      exact ⟨fun _ hacc' => absurd hacc' hacc, fun _ => h⟩
  | unmap devId paddr =>
    show (iommuUnmap io devId paddr).2.WellFormed ↔ True
    rw [iff_true]
    obtain ⟨i, -, -, heq⟩ | ⟨-, heq⟩ := iommuUnmap_cases io devId paddr
    · rw [heq]
      refine h.update rfl fun hv => ?_
      cases hv
    · rw [heq]
      exact h

theorem iommuZero_wellFormed : IommuState.zero.WellFormed := by
  intro i j _ _ hv
  cases hv

/-- Over every sequence of calls, windows of different devices stay apart as long as,
and no longer than, every accepted map asks for a range apart from them. -/
theorem devices_isolated_iff (calls : List IommuCall) :
    (∀ done, done <+: calls → (Run.exec iommuStep IommuState.zero done).WellFormed) ↔
      Run.Guarded iommuStep IommuState.Apart IommuState.zero calls :=
  Run.exec_forall_prefix_iff (fun _ c h => h.step_iff c) iommuZero_wellFormed calls

/-- The two calls map the driver's pool for devices 0 and 1. -/
def sharedPoolCalls : List IommuCall :=
  [.map dmaPoolCap 0 0x50000000 0x1000 3, .map dmaPoolCap 1 0x50000000 0x1000 3]

theorem devices_share_window :
    (∀ c ∈ sharedPoolCalls, c.NoWrap) ∧
      ¬ (Run.exec iommuStep IommuState.zero sharedPoolCalls).WellFormed := by
  constructor
  · intro c hc
    rw [sharedPoolCalls, List.mem_cons, List.mem_singleton] at hc
    rcases hc with rfl | rfl <;>
    · show (0x50000000 : UInt64).toNat + (0x1000 : UInt64).toNat < 2 ^ 64
      decide
  · intro h
    have hdisj := h 0 1 (by decide) (by decide) (by decide) (by decide) (by decide)
    have hfirst : 0x50000000 ∈
        ((Run.exec iommuStep IommuState.zero sharedPoolCalls).windows 0).range :=
      ⟨by decide, by decide⟩
    have hsecond : 0x50000000 ∈
        ((Run.exec iommuStep IommuState.zero sharedPoolCalls).windows 1).range :=
      ⟨by decide, by decide⟩
    exact Set.disjoint_left.mp hdisj hfirst hsecond

/-- What the assumption is for: in a well-formed state no address is open to two
devices. -/
theorem iommuCheck_isolated {io : IommuState} (hwf : io.WellFormed) (hio : io.NoWrap)
    {dev dev' paddr len len' : UInt64} {isWrite isWrite' : Bool} (hne : dev ≠ dev')
    (hlen : len ≠ 0) (hlen' : len' ≠ 0) (hsum : paddr.toNat + len.toNat < 2 ^ 64)
    (hsum' : paddr.toNat + len'.toNat < 2 ^ 64)
    (h : iommuCheck io dev paddr len isWrite = true) :
    iommuCheck io dev' paddr len' isWrite' = false := by
  have hpos : 0 < len.toNat := UInt64.lt_iff_toNat_lt.mp (UInt64.pos_iff_ne_zero.mpr hlen)
  have hpos' : 0 < len'.toNat := UInt64.lt_iff_toNat_lt.mp (UInt64.pos_iff_ne_zero.mpr hlen')
  rw [← Bool.not_eq_true]
  intro h'
  obtain ⟨i, hi, hvi, hdi, -, hini⟩ := iommuCheck_confined_of_noWrap hio hsum h
  obtain ⟨j, hj, hvj, hdj, -, hinj⟩ := iommuCheck_confined_of_noWrap hio hsum' h'
  have hdisj := hwf i j hi hj hvi hvj (by rw [hdi, hdj]; exact hne)
  exact Set.disjoint_left.mp hdisj (hini paddr.toNat le_rfl (by omega))
    (hinj paddr.toNat le_rfl (by omega))

end Moonlight
