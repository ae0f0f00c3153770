/-
Cache colours of whole frames.

`alloc_frame` looks at the colour of one page, while a frame may have many.  The pages
of a frame take consecutive colours modulo sixteen, and a partition owns two of them.
-/
import Moonlight.Lib.Run
import Moonlight.Memory.PageMap

namespace Moonlight

/-! ### Consecutive pages -/

theorem toNat_colorOf_lt (paddr : UInt64) : (colorOf paddr).toNat < 16 := by
  rw [toNat_colorOf]
  omega

theorem colorOf_pageAt (paddr : UInt64) (i : Nat) :
    (colorOf (pageAt paddr i)).toNat = ((colorOf paddr).toNat + i) % 16 := by
  rw [toNat_colorOf, toNat_colorOf, pageAt, UInt64.toNat_add, UInt64.toNat_ofNat']
  omega

theorem toNat_allocColorForPartition {p : UInt32} (h : p < 8) :
    (allocColorForPartition p).toNat = 2 * p.toNat := by
  have hlt : p.toNat < 8 := UInt32.lt_iff_toNat_lt.mp h
  simp only [allocColorForPartition, UInt32.toNat_toUInt16, UInt32.toNat_mod, UInt32.toNat_mul]
  show p.toNat * 2 % 2 ^ 32 % 16 % 2 ^ 16 = 2 * p.toNat
  omega

/-- An accepted frame starts on the first colour of its partition. -/
theorem allocFrame_color {a a' : FrameAlloc} {p : UInt32} {size : UInt64} {e : KError} {c : Cap}
    (h : allocFrame a p size = (e, some c, a')) :
    p < 8 ∧ (colorOf c.u.framePaddr).toNat = 2 * p.toNat := by
  unfold allocFrame at h
  by_cases hsize : size % pageSize ≠ 0
  · rw [if_pos hsize] at h
    cases h
  rw [if_neg hsize] at h
  by_cases hp : p ≥ 8
  · rw [if_pos hp] at h
    cases h
  rw [if_neg hp] at h
  have hp' : p < 8 := UInt32.not_le.mp hp
  have hlt : p.toNat < 8 := UInt32.lt_iff_toNat_lt.mp hp'
  have hcolor : (allocColorForPartition p).toUInt64.toNat = 2 * p.toNat := by
    rw [UInt16.toNat_toUInt64, toNat_allocColorForPartition hp']
  simp only at h
  by_cases htop : alignToColor 16 a.next (allocColorForPartition p).toUInt64 + size > a.top
  · rw [if_pos htop] at h
    cases h
  rw [if_neg htop] at h
  cases h
  refine ⟨hp', ?_⟩
  show (colorOf (alignToColor 16 a.next (allocColorForPartition p).toUInt64)).toNat = _
  rw [colorOf_alignToColor (by omega) (Nat.mod_lt _ (by omega)), hcolor]

/-! ### Runs of the allocator -/

structure FrameRequest where
  partition : UInt32
  size : UInt64

structure FrameGrant where
  partition : UInt32
  paddr : UInt64
  size : UInt64
  deriving DecidableEq

/-- The allocator with the frames it has handed out. -/
structure AllocHistory where
  alloc : FrameAlloc
  grants : List FrameGrant

/-- A successful call; a call that fails is not part of the run. -/
def AllocHistory.step (h : AllocHistory) (r : FrameRequest) : Option AllocHistory :=
  match allocFrame h.alloc r.partition r.size with
  | (.ok, some c, a) =>
    some
      { alloc := a
        grants := h.grants ++
          [{ partition := r.partition, paddr := c.u.framePaddr, size := r.size }] }
  | _ => none

/-- No page of one partition's frame has the colour of a page of another's. -/
def ColorIsolated (gs : List FrameGrant) : Prop :=
  ∀ g ∈ gs, ∀ g' ∈ gs, g.partition ≠ g'.partition →
    ∀ i, i < pagesIn g.size → ∀ j, j < pagesIn g'.size →
      colorOf (pageAt g.paddr i) ≠ colorOf (pageAt g'.paddr j)

/-- The steps from the first colour of `p` up to the first colour of `q`. -/
def colorGap (p q : UInt32) : Nat := (2 * q.toNat + 16 - 2 * p.toNat) % 16

/-- What a request got. -/
structure FrameRequest.Got (r : FrameRequest) (g : FrameGrant) : Prop where
  partition : g.partition = r.partition
  size : g.size = r.size
  bound : r.partition < 8
  color : (colorOf g.paddr).toNat = 2 * r.partition.toNat

theorem AllocHistory.step_some {h h' : AllocHistory} {r : FrameRequest} (hs : h.step r = some h') :
    ∃ g, h'.grants = h.grants ++ [g] ∧ r.Got g := by
  unfold AllocHistory.step at hs
  split at hs
  · next c a heq =>
    cases hs
    obtain ⟨hbound, hcolor⟩ := allocFrame_color heq
    exact ⟨_, rfl, ⟨rfl, rfl, hbound, hcolor⟩⟩
  · cases hs

/-- The new grants of a run are what its requests got. -/
theorem AllocHistory.run_some {h h' : AllocHistory} {rs : List FrameRequest}
    (hrun : Run.execM AllocHistory.step h rs = some h') :
    ∃ gs, h'.grants = h.grants ++ gs ∧ (∀ r ∈ rs, ∃ g ∈ gs, r.Got g) ∧
      ∀ g ∈ gs, ∃ r ∈ rs, r.Got g := by
  induction rs generalizing h with
  | nil =>
    cases hrun
    exact ⟨[], by simp, by simp, by simp⟩
  | cons r rs ih =>
    obtain ⟨h₁, hs, hrest⟩ := Option.bind_eq_some_iff.mp hrun
    obtain ⟨g, hg, hgot⟩ := AllocHistory.step_some hs
    obtain ⟨gs, hgs, hleft, hright⟩ := ih hrest
    refine ⟨g :: gs, ?_, ?_, ?_⟩
    · rw [hgs, hg, List.append_assoc]
      rfl
    · intro r' hr'
      rcases List.mem_cons.mp hr' with rfl | hr'
      · exact ⟨g, List.mem_cons_self, hgot⟩
      · obtain ⟨g', hg', hgot'⟩ := hleft r' hr'
        exact ⟨g', List.mem_cons_of_mem g hg', hgot'⟩
    · intro g' hg'
      rcases List.mem_cons.mp hg' with rfl | hg'
      · exact ⟨r, List.mem_cons_self, hgot⟩
      · obtain ⟨r', hr', hgot'⟩ := hright g' hg'
        exact ⟨r', List.mem_cons_of_mem r hr', hgot'⟩

/-- Two runs of consecutive colours do not meet exactly when each ends before the
other's first colour. -/
theorem colors_disjoint_iff {p q : UInt32} (hp : p < 8) (hq : q < 8) (hne : p ≠ q) {n m : Nat}
    (hn : 0 < n) (hm : 0 < m) :
    (∀ i, i < n → ∀ j, j < m → (2 * p.toNat + i) % 16 ≠ (2 * q.toNat + j) % 16) ↔
      n ≤ colorGap p q ∧ m ≤ colorGap q p := by
  have hp' : p.toNat < 8 := UInt32.lt_iff_toNat_lt.mp hp
  have hq' : q.toNat < 8 := UInt32.lt_iff_toNat_lt.mp hq
  have hne' : p.toNat ≠ q.toNat := fun h => hne (UInt32.toNat_inj.mp h)
  unfold colorGap
  constructor
  · intro h
    constructor
    · by_contra hlt
      exact h _ (Nat.not_le.mp hlt) 0 hm (by omega)
    · by_contra hlt
      exact h 0 hn _ (Nat.not_le.mp hlt) (by omega)
  · rintro ⟨h₁, h₂⟩ i hi j hj heq
    omega

theorem FrameRequest.Got.color_page {r : FrameRequest} {g : FrameGrant} (h : r.Got g) (i : Nat) :
    (colorOf (pageAt g.paddr i)).toNat = (2 * r.partition.toNat + i) % 16 := by
  rw [colorOf_pageAt, h.color]

/-- Two frames of different partitions share no colour exactly when each fits in the
gap up to the other partition. -/
theorem FrameRequest.Got.disjoint_iff {r r' : FrameRequest} {g g' : FrameGrant} (h : r.Got g)
    (h' : r'.Got g') (hne : r.partition ≠ r'.partition) :
    (∀ i, i < pagesIn g.size → ∀ j, j < pagesIn g'.size →
      colorOf (pageAt g.paddr i) ≠ colorOf (pageAt g'.paddr j)) ↔
    (0 < pagesIn r.size → 0 < pagesIn r'.size →
      pagesIn r.size ≤ colorGap r.partition r'.partition ∧
        pagesIn r'.size ≤ colorGap r'.partition r.partition) := by
  have hcolor : ∀ i j, colorOf (pageAt g.paddr i) ≠ colorOf (pageAt g'.paddr j) ↔
      (2 * r.partition.toNat + i) % 16 ≠ (2 * r'.partition.toNat + j) % 16 := by
    intro i j
    rw [← h.color_page, ← h'.color_page, Ne, Ne, UInt64.toNat_inj]
  rw [h.size, h'.size]
  constructor
  · intro hdis hn hm
    exact (colors_disjoint_iff h.bound h'.bound hne hn hm).mp fun i hi j hj =>
      (hcolor i j).mp (hdis i hi j hj)
  · intro hgap i hi j hj
    obtain ⟨hn, hm⟩ := hgap (by omega) (by omega)
    exact (hcolor i j).mpr ((colors_disjoint_iff h.bound h'.bound hne (by omega) (by omega)).mpr
      ⟨hn, hm⟩ i hi j hj)

/-- A run of the allocator keeps the partitions' colours apart exactly when no frame
reaches past the gap to another partition that got a frame. -/
theorem alloc_color_isolated_iff {a : FrameAlloc} {rs : List FrameRequest} {h : AllocHistory}
    (hrun : Run.execM AllocHistory.step { alloc := a, grants := [] } rs = some h) :
    ColorIsolated h.grants ↔
      ∀ r ∈ rs, ∀ r' ∈ rs, r.partition ≠ r'.partition → 0 < pagesIn r.size →
        0 < pagesIn r'.size → pagesIn r.size ≤ colorGap r.partition r'.partition ∧
          pagesIn r'.size ≤ colorGap r'.partition r.partition := by
  obtain ⟨gs, hgs, hleft, hright⟩ := AllocHistory.run_some hrun
  rw [hgs, List.nil_append]
  constructor
  · intro hiso r hr r' hr' hne
    obtain ⟨g, hg, hgot⟩ := hleft r hr
    obtain ⟨g', hg', hgot'⟩ := hleft r' hr'
    refine (hgot.disjoint_iff hgot' hne).mp (hiso g hg g' hg' ?_)
    rw [hgot.partition, hgot'.partition]
    exact hne
  · intro hfit g hg g' hg' hne
    obtain ⟨r, hr, hgot⟩ := hright g hg
    obtain ⟨r', hr', hgot'⟩ := hright g' hg'
    rw [hgot.partition, hgot'.partition] at hne
    exact (hgot.disjoint_iff hgot' hne).mpr (hfit r hr r' hr' hne)

/-- The allocator of `kernel_boot`. -/
def bootAlloc : FrameAlloc := allocInit 0x80400000 0x400000

/-- One page for partition 0 and one for partition 1. -/
def onePageEach : List FrameRequest :=
  [{ partition := 0, size := 4096 }, { partition := 1, size := 4096 }]

theorem alloc_color_isolated_one_page :
    ∃ h, Run.execM AllocHistory.step { alloc := bootAlloc, grants := [] } onePageEach = some h ∧
      ColorIsolated h.grants := by
  obtain ⟨h, hrun⟩ : ∃ h, Run.execM AllocHistory.step { alloc := bootAlloc, grants := [] }
      onePageEach = some h := Option.isSome_iff_exists.mp (by decide +kernel)
  exact ⟨h, hrun, (alloc_color_isolated_iff hrun).mpr (by decide +kernel)⟩

/-- Three pages for partition 0 reach into the colours of partition 1. -/
def threePages : List FrameRequest :=
  [{ partition := 0, size := 12288 }, { partition := 1, size := 4096 }]

theorem alloc_color_spills :
    ∃ h, Run.execM AllocHistory.step { alloc := bootAlloc, grants := [] } threePages = some h ∧
      ¬ ColorIsolated h.grants := by
  obtain ⟨h, hrun, hgrants⟩ : ∃ h, Run.execM AllocHistory.step { alloc := bootAlloc, grants := [] }
      threePages = some h ∧ h.grants =
        [{ partition := 0, paddr := 0x80400000, size := 12288 },
          { partition := 1, paddr := 0x80412000, size := 4096 }] :=
    ⟨_, rfl, by decide +kernel⟩
  refine ⟨h, hrun, fun hiso => ?_⟩
  rw [hgrants] at hiso
  exact hiso _ List.mem_cons_self _ (List.mem_cons_of_mem _ List.mem_cons_self) (by decide)
    2 (by decide) 0 (by decide) (by decide)

end Moonlight
