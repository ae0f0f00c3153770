/-
What a window gives a device.

`iommu_map` compares the end of a window with the end of the capability after adding in
64 bits, so a window stays inside its capability exactly when that sum does not wrap.
`iommu_check` lets the first window that contains the request decide.  The answer is the
one the set of windows gives exactly when the first such window has the permission
whenever some other one does.
-/
import Moonlight.Memory.DeviceIsolation

namespace Moonlight

/-! ### Windows and capabilities -/

/-- `[base, base + length)` of an IOMMU capability. -/
def Cap.dmaRange (c : Cap) : Set Nat :=
  Set.Ico c.hwCap.base.toNat (c.hwCap.base.toNat + (c.hwCap.top - c.hwCap.base).toNat)

/-- One free entry now holds the window asked for, it lies inside the capability with no
more rights, and the other entries are as they were. -/
def MapsWithinCap (io io' : IommuState) (iommuCap : Cap) (devId paddr size : UInt64)
    (perms : UInt32) : Prop :=
  ∃ i, i < maxIommuWindows ∧ (io.windows i).valid = false ∧
    io'.windows i = mapWindow iommuCap devId paddr size perms ∧
    (io'.windows i).range ⊆ iommuCap.dmaRange ∧
    (io'.windows i).perms &&& iommuCap.rights = (io'.windows i).perms ∧
    ∀ j, j ≠ i → io'.windows j = io.windows j

section
variable {io : IommuState} {iommuCap : Cap} {paddr size : UInt64} {perms : UInt32}

theorem mapWindow_range (devId : UInt64) :
    (mapWindow iommuCap devId paddr size perms).range =
      Set.Ico paddr.toNat (paddr.toNat + size.toNat) := rfl

theorem Cap.dmaRange_eq (hcap : iommuCap.hwCap.base ≤ iommuCap.hwCap.top) :
    iommuCap.dmaRange = Set.Ico iommuCap.hwCap.base.toNat iommuCap.hwCap.top.toNat := by
  have hle := UInt64.le_iff_toNat_le.mp hcap
  rw [Cap.dmaRange, UInt64.toNat_sub_of_le _ _ hcap, Nat.add_sub_of_le hle]

/-- The bounds test of `iommu_map` on numbers. -/
theorem MapAccepted.toNat_bounds (h : MapAccepted io iommuCap paddr size perms) :
    iommuCap.hwCap.base.toNat ≤ paddr.toNat ∧
      (paddr.toNat + size.toNat) % 2 ^ 64 ≤ iommuCap.hwCap.top.toNat := by
  obtain ⟨hlow, hhigh⟩ := not_or.mp h.bounds
  rw [UInt64.add_comm iommuCap.hwCap.base, UInt64.sub_add_cancel] at hhigh
  have hend := UInt64.le_iff_toNat_le.mp (UInt64.not_lt.mp hhigh)
  rw [UInt64.toNat_add] at hend
  exact ⟨UInt64.le_iff_toNat_le.mp (UInt64.not_lt.mp hlow), hend⟩

/-- An accepted window that ends below `2 ^ 64` is inside the capability, any other one
has a byte above it. -/
theorem MapAccepted.range_subset_iff (h : MapAccepted io iommuCap paddr size perms)
    (hcap : iommuCap.hwCap.base ≤ iommuCap.hwCap.top) :
    Set.Ico paddr.toNat (paddr.toNat + size.toNat) ⊆ iommuCap.dmaRange ↔
      paddr.toNat + size.toNat < 2 ^ 64 := by
  obtain ⟨hlow, hend⟩ := h.toNat_bounds
  have htop := iommuCap.hwCap.top.toNat_lt
  have hpaddr := paddr.toNat_lt
  rw [Cap.dmaRange_eq hcap]
  constructor
  · intro hsub
    by_contra hwrap
    have hlast : paddr.toNat + size.toNat - 1 ∈ Set.Ico paddr.toNat (paddr.toNat + size.toNat) :=
      ⟨by omega, by omega⟩
    have hbelow := (hsub hlast).2
    omega
  · intro hsum
    rw [Nat.mod_eq_of_lt hsum] at hend
    exact Set.Ico_subset_Ico hlow hend

end

/-- A map that succeeds stays inside the capability that authorised it exactly when the
window it was asked for ends below `2 ^ 64`. -/
theorem iommuMap_within_cap_iff (io : IommuState) {iommuCap : Cap}
    (hcap : iommuCap.hwCap.base ≤ iommuCap.hwCap.top) (devId paddr size : UInt64) (perms : UInt32) :
    ((iommuMap io iommuCap devId paddr size perms).1 = .ok →
      MapsWithinCap io (iommuMap io iommuCap devId paddr size perms).2 iommuCap devId paddr size
        perms) ↔
    (MapAccepted io iommuCap paddr size perms → paddr.toNat + size.toNat < 2 ^ 64) := by
  obtain ⟨hacc, i, hi, hfree, heq⟩ | ⟨hnot, e, hne, heq⟩ :=
    iommuMap_cases io iommuCap devId paddr size perms
  · rw [heq, forall_prop_of_true rfl, forall_prop_of_true hacc, ← hacc.range_subset_iff hcap]
    constructor
    · intro hwithin
      obtain ⟨j, -, -, hwindow, hrange, -, -⟩ := hwithin
      rw [hwindow] at hrange
      exact hrange
    · intro hrange
      refine ⟨i, hi, hfree, Function.update_self .., ?_, ?_, fun j hj => Function.update_of_ne hj ..⟩
      · simp only [Function.update_self]
        exact hrange
      · simp only [Function.update_self]
        exact (Word.and_compl_eq_zero_iff ..).mp hacc.rights
  · rw [heq]
    exact iff_of_true (fun hok => absurd hok hne) fun hacc => absurd hacc hnot

theorem iommuMap_within_pool :
    dmaPoolCap.hwCap.base ≤ dmaPoolCap.hwCap.top ∧
      (iommuMap IommuState.zero dmaPoolCap 0 0x50000000 0x100000 3).1 = .ok ∧
      MapsWithinCap IommuState.zero (iommuMap IommuState.zero dmaPoolCap 0 0x50000000 0x100000 3).2
        dmaPoolCap 0 0x50000000 0x100000 3 := by
  have hcap : dmaPoolCap.hwCap.base ≤ dmaPoolCap.hwCap.top := by decide
  have hok : (iommuMap IommuState.zero dmaPoolCap 0 0x50000000 0x100000 3).1 = .ok := by decide
  exact ⟨hcap, hok, (iommuMap_within_cap_iff _ hcap 0 0x50000000 0x100000 3).mpr
    (fun _ => by decide) hok⟩

/-- With the capability of the driver's pool, the last page of the address space is mapped. -/
theorem iommuMap_wraps_past_cap :
    dmaPoolCap.hwCap.base ≤ dmaPoolCap.hwCap.top ∧
      (iommuMap IommuState.zero dmaPoolCap 0 0xFFFFFFFFFFFFF000 0x1000 3).1 = .ok ∧
      ¬ MapsWithinCap IommuState.zero
        (iommuMap IommuState.zero dmaPoolCap 0 0xFFFFFFFFFFFFF000 0x1000 3).2
        dmaPoolCap 0 0xFFFFFFFFFFFFF000 0x1000 3 := by
  refine ⟨by decide, by decide, fun hwithin => ?_⟩
  obtain ⟨i, -, -, hwindow, hrange, -, -⟩ := hwithin
  rw [hwindow, mapWindow_range] at hrange
  have hfirst : (0xFFFFFFFFFFFFF000 : UInt64).toNat ∈ dmaPoolCap.dmaRange :=
    hrange ⟨Nat.le_refl _, by decide⟩
  exact absurd hfirst.2 (by decide)

/-! ### The check as a question about the set of windows -/

/-- The windows of the state end below `2 ^ 64`. -/
def IommuState.WindowsEnd (io : IommuState) : Prop :=
  ∀ i, i < maxIommuWindows → (io.windows i).valid = true →
    (io.windows i).paddrBase.toNat + (io.windows i).size.toNat < 2 ^ 64

/-- A valid window of the device around `[paddr, paddr + len)`. -/
def IommuWindow.Contains (w : IommuWindow) (devId paddr len : UInt64) : Prop :=
  w.valid = true ∧ w.devId = devId ∧ w.paddrBase.toNat ≤ paddr.toNat ∧
    paddr.toNat + len.toNat ≤ w.paddrBase.toNat + w.size.toNat

/-- Some window contains the request and grants its direction. -/
def Authorised (io : IommuState) (devId paddr len : UInt64) (isWrite : Bool) : Prop :=
  ∃ i, i < maxIommuWindows ∧ (io.windows i).Contains devId paddr len ∧
    (io.windows i).perms &&& dmaNeed isWrite ≠ 0

/-- The first window that contains the request does not grant its direction, and a later
one does. -/
def Shadowed (io : IommuState) (devId paddr len : UInt64) (isWrite : Bool) : Prop :=
  ∃ i, i < maxIommuWindows ∧ (io.windows i).Contains devId paddr len ∧
    (∀ j, j < i → ¬ (io.windows j).Contains devId paddr len) ∧
    (io.windows i).perms &&& dmaNeed isWrite = 0 ∧ Authorised io devId paddr len isWrite

/-- Each window of one state has its like in the other. -/
def WindowsAmong (io io' : IommuState) : Prop :=
  ∀ i, i < maxIommuWindows → (io.windows i).valid = true →
    ∃ j, j < maxIommuWindows ∧ (io'.windows j).valid = true ∧
      (io'.windows j).devId = (io.windows i).devId ∧
      (io'.windows j).paddrBase = (io.windows i).paddrBase ∧
      (io'.windows j).size = (io.windows i).size ∧ (io'.windows j).perms = (io.windows i).perms

/-- The same windows, in whatever entries. -/
def SameWindows (io io' : IommuState) : Prop := WindowsAmong io io' ∧ WindowsAmong io' io

section
variable {io io' : IommuState} {devId paddr len : UInt64} {isWrite : Bool}

theorem IommuState.WindowsEnd.matches_iff (hio : io.WindowsEnd)
    (hsum : paddr.toNat + len.toNat < 2 ^ 64) {i : Nat} (hi : i < maxIommuWindows) :
    iommuMatches (io.windows i) devId paddr len = true ↔
      (io.windows i).Contains devId paddr len := by
  rw [iommuMatches_iff, IommuWindow.Contains, Nat.mod_eq_of_lt hsum]
  refine and_congr_right fun hv => ?_
  rw [Nat.mod_eq_of_lt (hio i hi hv)]

/-- The first window that contains the request decides. -/
theorem IommuState.WindowsEnd.check_iff (hio : io.WindowsEnd)
    (hsum : paddr.toNat + len.toNat < 2 ^ 64) :
    iommuCheck io devId paddr len isWrite = true ↔
      ∃ i, i < maxIommuWindows ∧ (io.windows i).Contains devId paddr len ∧
        (∀ j, j < i → ¬ (io.windows j).Contains devId paddr len) ∧
        (io.windows i).perms &&& dmaNeed isWrite ≠ 0 := by
  rw [iommuCheck_iff]
  refine exists_congr fun i => and_congr_right fun hi => ?_
  rw [hio.matches_iff hsum hi]
  refine and_congr_right fun _ => and_congr_left fun _ => forall₂_congr fun j hj => ?_
  rw [← hio.matches_iff hsum (Nat.lt_trans hj hi), Bool.not_eq_true]

/-- Where some window contains the request, one of them is the first. -/
theorem exists_first_containing {i : Nat} (hi : i < maxIommuWindows)
    (h : (io.windows i).Contains devId paddr len) :
    ∃ j, j < maxIommuWindows ∧ (io.windows j).Contains devId paddr len ∧
      ∀ l, l < j → ¬ (io.windows l).Contains devId paddr len := by
  classical
  have hex : ∃ l, (io.windows l).Contains devId paddr len := ⟨i, h⟩
  have hle := Nat.find_min' hex h
  exact ⟨Nat.find hex, Nat.lt_of_le_of_lt hle hi, Nat.find_spec hex, fun l hl => Nat.find_min hex hl⟩

/-- The check says yes exactly to the authorised requests that are not shadowed. -/
theorem IommuState.WindowsEnd.check_iff_authorised (hio : io.WindowsEnd)
    (hsum : paddr.toNat + len.toNat < 2 ^ 64) :
    iommuCheck io devId paddr len isWrite = true ↔
      Authorised io devId paddr len isWrite ∧ ¬ Shadowed io devId paddr len isWrite := by
  rw [hio.check_iff hsum]
  constructor
  · intro h
    obtain ⟨i, hi, hin, hfirst, hperms⟩ := h
    refine ⟨⟨i, hi, hin, hperms⟩, fun hshadow => ?_⟩
    obtain ⟨j, -, hjn, hjfirst, hzero, -⟩ := hshadow
    have hij : i = j := by
      rcases Nat.lt_trichotomy i j with hlt | heq | hgt
      · exact absurd hin (hjfirst i hlt)
      · exact heq
      · exact absurd hjn (hfirst j hgt)
    rw [hij] at hperms
    exact hperms hzero
  · intro h
    obtain ⟨hauth, hshadow⟩ := h
    obtain ⟨i, hi, hin, -⟩ := id hauth
    obtain ⟨j, hj, hjn, hfirst⟩ := exists_first_containing hi hin
    exact ⟨j, hj, hjn, hfirst, fun hzero => hshadow ⟨j, hj, hjn, hfirst, hzero, hauth⟩⟩

theorem WindowsAmong.authorised (h : WindowsAmong io io')
    (hauth : Authorised io devId paddr len isWrite) :
    Authorised io' devId paddr len isWrite := by
  obtain ⟨i, hi, ⟨hv, hd, hlow, hhigh⟩, hperms⟩ := hauth
  obtain ⟨j, hj, hv', hd', hbase, hsize, hperms'⟩ := h i hi hv
  refine ⟨j, hj, ⟨hv', hd'.trans hd, ?_, ?_⟩, ?_⟩
  · rw [hbase]
    exact hlow
  · rw [hbase, hsize]
    exact hhigh
  · rw [hperms']
    exact hperms

theorem SameWindows.authorised_iff (h : SameWindows io io') :
    Authorised io devId paddr len isWrite ↔ Authorised io' devId paddr len isWrite :=
  ⟨h.1.authorised, h.2.authorised⟩

theorem Shadowed.authorised (h : Shadowed io devId paddr len isWrite) :
    Authorised io devId paddr len isWrite := by
  obtain ⟨-, -, -, -, -, hauth⟩ := h
  exact hauth

end

/-- For windows and requests that do not wrap, the check answers whether some window of
the device contains the range and grants the direction exactly when the request is not
shadowed; and two states with the same windows give the same answer exactly when the
request is shadowed in both or in neither. -/
theorem iommuCheck_by_set_iff {io : IommuState} (hio : io.WindowsEnd) {paddr len : UInt64}
    (hsum : paddr.toNat + len.toNat < 2 ^ 64) (devId : UInt64) (isWrite : Bool) :
    ((iommuCheck io devId paddr len isWrite = true ↔ Authorised io devId paddr len isWrite) ↔
      ¬ Shadowed io devId paddr len isWrite) ∧
    ∀ io' : IommuState, io'.WindowsEnd → SameWindows io io' →
      (iommuCheck io devId paddr len isWrite = iommuCheck io' devId paddr len isWrite ↔
        (Shadowed io devId paddr len isWrite ↔ Shadowed io' devId paddr len isWrite)) := by
  have hcheck : iommuCheck io devId paddr len isWrite = true ↔
      Authorised io devId paddr len isWrite ∧ ¬ Shadowed io devId paddr len isWrite :=
    hio.check_iff_authorised hsum
  constructor
  · rw [hcheck]
    constructor
    · exact fun h hshadow => (h.mpr hshadow.authorised).2 hshadow
    · exact fun hshadow => ⟨And.left, fun hauth => ⟨hauth, hshadow⟩⟩
  · intro io' hio' hsame
    have hcheck' : iommuCheck io' devId paddr len isWrite = true ↔
        Authorised io' devId paddr len isWrite ∧ ¬ Shadowed io' devId paddr len isWrite :=
      hio'.check_iff_authorised hsum
    rw [Bool.eq_iff_iff, hcheck, hcheck', ← hsame.authorised_iff]
    constructor
    · intro h
      by_cases hauth : Authorised io devId paddr len isWrite
      · rw [and_iff_right hauth, and_iff_right hauth] at h
        exact not_iff_not.mp h
      · exact iff_of_false (fun hs => hauth hs.authorised) fun hs =>
          hauth (hsame.authorised_iff.mpr hs.authorised)
    · intro h
      rw [h]

/-- The pool of device 0, then one page of it for reading only. -/
def poolThenPage : List IommuCall :=
  [.map dmaPoolCap 0 0x50000000 0x100000 3, .map dmaPoolCap 0 0x50001000 0x1000 1]

/-- The same two windows in the other order. -/
def pageThenPool : List IommuCall :=
  [.map dmaPoolCap 0 0x50001000 0x1000 1, .map dmaPoolCap 0 0x50000000 0x100000 3]

theorem poolThenPage_windowsEnd : (Run.exec iommuStep IommuState.zero poolThenPage).WindowsEnd := by
  intro i hi
  revert i
  decide

theorem pageThenPool_windowsEnd : (Run.exec iommuStep IommuState.zero pageThenPool).WindowsEnd := by
  intro i hi
  revert i
  decide

theorem iommuCheck_by_set_pool :
    iommuCheck (Run.exec iommuStep IommuState.zero poolThenPage) 0 0x50001000 512 true = true ↔
      Authorised (Run.exec iommuStep IommuState.zero poolThenPage) 0 0x50001000 512 true := by
  refine ((iommuCheck_by_set_iff poolThenPage_windowsEnd (by decide) 0 true).1).mpr fun hshadow => ?_
  obtain ⟨i, -, hin, hfirst, hperms, -⟩ := hshadow
  have hpool : ((Run.exec iommuStep IommuState.zero poolThenPage).windows 0).Contains 0 0x50001000
      512 := ⟨by decide, by decide, by decide, by decide⟩
  have hzero : i = 0 := by
    by_contra hne
    exact hfirst 0 (Nat.pos_of_ne_zero hne) hpool
  rw [hzero] at hperms
  exact absurd hperms (by decide)

/-- Mapped in the other order, the page hides the pool from a write. -/
theorem iommuCheck_order_matters :
    (Run.exec iommuStep IommuState.zero pageThenPool).WindowsEnd ∧
      Authorised (Run.exec iommuStep IommuState.zero pageThenPool) 0 0x50001000 512 true ∧
      iommuCheck (Run.exec iommuStep IommuState.zero pageThenPool) 0 0x50001000 512 true = false ∧
      SameWindows (Run.exec iommuStep IommuState.zero pageThenPool)
        (Run.exec iommuStep IommuState.zero poolThenPage) ∧
      iommuCheck (Run.exec iommuStep IommuState.zero poolThenPage) 0 0x50001000 512 true = true := by
  refine ⟨pageThenPool_windowsEnd, ⟨1, by decide, ⟨by decide, by decide, by decide, by decide⟩,
    by decide⟩, by decide, ⟨?_, ?_⟩, by decide⟩
  · intro i hi
    revert i
    decide
  · intro i hi
    revert i
    decide

end Moonlight
