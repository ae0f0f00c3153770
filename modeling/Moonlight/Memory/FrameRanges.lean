/-
Where frames lie.

`alloc_frame` skips to the next page of the partition's colour, adds the size and compares
with the end of the pool, all in 64 bits.  While the sum is exact the frames of a run lie
one after the other inside the pool.  A sum that wraps to a value below the end of the
pool is accepted like any other, and the bump pointer goes back with it.
-/
import Mathlib.Order.CompletePartialOrder
import Mathlib.Order.Interval.Set.Disjoint
import Moonlight.Memory.Coloring

namespace Moonlight

/-! ### One allocation on numbers -/

/-- The pages between the bump pointer and the next page of the partition's colour. -/
def FrameAlloc.skip (a : FrameAlloc) (partition : UInt32) : Nat :=
  (2 * partition.toNat + 16 - (colorOf a.next).toNat) % 16

/-- Where the frame starts and where it ends, without a wrap. -/
def FrameAlloc.frameStart (a : FrameAlloc) (r : FrameRequest) : Nat :=
  a.next.toNat + 4096 * a.skip r.partition

def FrameAlloc.frameEnd (a : FrameAlloc) (r : FrameRequest) : Nat := a.frameStart r + r.size.toNat

/-- The guard of `alloc_frame`, which sees the end of the frame modulo `2 ^ 64`. -/
structure FrameAccepted (a : FrameAlloc) (r : FrameRequest) : Prop where
  size : r.size % pageSize = 0
  partition : r.partition < 8
  fits : a.frameEnd r % 2 ^ 64 ≤ a.top.toNat

theorem alignToColor_skip {n : Nat} {paddr color : UInt64} (hcolor : color.toNat < 16)
    (hn : (color.toNat + 16 - (colorOf paddr).toNat) % 16 < n) :
    (alignToColor n paddr color).toNat =
      (paddr.toNat + 4096 * ((color.toNat + 16 - (colorOf paddr).toNat) % 16)) % 2 ^ 64 := by
  induction n generalizing paddr with
  | zero => omega
  | succ n ih =>
    have hpaddr := paddr.toNat_lt
    have hlt := toNat_colorOf_lt paddr
    rw [alignToColor]
    by_cases hc : colorOf paddr = color
    · rw [if_pos hc, hc]
      omega
    · have hne : (colorOf paddr).toNat ≠ color.toNat := fun h => hc (UInt64.toNat_inj.mp h)
      have hnext := colorOf_next paddr
      have hpage : (paddr + pageSize).toNat = (paddr.toNat + 4096) % 2 ^ 64 := UInt64.toNat_add ..
      rw [if_neg hc, ih (by rw [hnext]; omega), hnext, hpage]
      omega

theorem toNat_aligned {p : UInt32} (hp : p < 8) (a : FrameAlloc) :
    (alignToColor 16 a.next (allocColorForPartition p).toUInt64).toNat =
      (a.next.toNat + 4096 * a.skip p) % 2 ^ 64 := by
  have hlt : p.toNat < 8 := UInt32.lt_iff_toNat_lt.mp hp
  have hcolor : (allocColorForPartition p).toUInt64.toNat = 2 * p.toNat := by
    rw [UInt16.toNat_toUInt64, toNat_allocColorForPartition hp]
  rw [alignToColor_skip (by omega) (Nat.mod_lt _ (by omega)), hcolor]
  rfl

theorem allocFrame_accepted_cases (a : FrameAlloc) (r : FrameRequest) :
    (FrameAccepted a r ∧ ∃ c a', allocFrame a r.partition r.size = (.ok, some c, a') ∧
      c.u.framePaddr.toNat = a.frameStart r % 2 ^ 64 ∧ a'.next.toNat = a.frameEnd r % 2 ^ 64 ∧
      a'.top = a.top ∧
      a'.frameCount = if a.frameCount < 512 then a.frameCount + 1 else a.frameCount) ∨
    (¬ FrameAccepted a r ∧ ∃ e, e ≠ .ok ∧ allocFrame a r.partition r.size = (e, none, a)) := by
  unfold allocFrame
  by_cases hsize : r.size % pageSize ≠ 0
  · rw [if_pos hsize]
    exact Or.inr ⟨fun h => hsize h.size, .invalidArg, by decide, rfl⟩
  rw [if_neg hsize]
  by_cases hpart : r.partition ≥ 8
  · rw [if_pos hpart]
    exact Or.inr ⟨fun h => UInt32.not_lt.mpr hpart h.partition, .invalidArg, by decide, rfl⟩
  rw [if_neg hpart]
  have hpart' := UInt32.not_le.mp hpart
  have hstart := toNat_aligned hpart' a
  have hend : (alignToColor 16 a.next (allocColorForPartition r.partition).toUInt64 + r.size).toNat =
      a.frameEnd r % 2 ^ 64 := by
    rw [UInt64.toNat_add, hstart, Nat.mod_add_mod]
    rfl
  simp only
  by_cases hfits : alignToColor 16 a.next (allocColorForPartition r.partition).toUInt64 + r.size > a.top
  · rw [if_pos hfits]
    refine Or.inr ⟨fun h => ?_, .noMem, by decide, rfl⟩
    have hle := h.fits
    rw [← hend] at hle
    exact Nat.not_lt.mpr hle (UInt64.lt_iff_toNat_lt.mp hfits)
  · rw [if_neg hfits]
    have hle := UInt64.le_iff_toNat_le.mp (UInt64.not_lt.mp hfits)
    rw [hend] at hle
    exact Or.inl ⟨⟨not_not.mp hsize, hpart', hle⟩, _, _, rfl, hstart, hend, rfl, rfl⟩

/-! ### Runs -/

/-- The bytes of a frame. -/
def FrameGrant.range (g : FrameGrant) : Set Nat :=
  Set.Ico g.paddr.toNat (g.paddr.toNat + g.size.toNat)

/-- A call; one that fails changes nothing. -/
def AllocHistory.call (h : AllocHistory) (r : FrameRequest) : AllocHistory := (h.step r).getD h

/-- The frames lie in `[base, top)`, each apart from those before it. -/
structure FramesApart (base top : Nat) (gs : List FrameGrant) : Prop where
  inside : ∀ g ∈ gs, base ≤ g.paddr.toNat ∧ g.paddr.toNat + g.size.toNat ≤ top
  disjoint : gs.Pairwise fun g g' => Disjoint g.range g'.range

/-- What the bump pointer says about the frames below it. -/
structure BumpInv (base top : Nat) (h : AllocHistory) : Prop extends FramesApart base top h.grants where
  low : base ≤ h.alloc.next.toNat
  high : h.alloc.next.toNat ≤ top
  limit : h.alloc.top.toNat = top
  below : ∀ g ∈ h.grants, g.paddr.toNat + g.size.toNat ≤ h.alloc.next.toNat

/-- The condition on a call: a frame that is handed out ends below `2 ^ 64`. -/
def EndsBelow (h : AllocHistory) (r : FrameRequest) : Prop :=
  FrameAccepted h.alloc r → h.alloc.frameEnd r < 2 ^ 64

variable {base top : Nat} {h : AllocHistory} {r : FrameRequest}

theorem AllocHistory.call_cases (h : AllocHistory) (r : FrameRequest) :
    (FrameAccepted h.alloc r ∧ ∃ g, (h.call r).grants = h.grants ++ [g] ∧ g.size = r.size ∧
      g.paddr.toNat = h.alloc.frameStart r % 2 ^ 64 ∧
      (h.call r).alloc.next.toNat = h.alloc.frameEnd r % 2 ^ 64 ∧
      (h.call r).alloc.top = h.alloc.top) ∨
    (¬ FrameAccepted h.alloc r ∧ h.call r = h) := by
  unfold AllocHistory.call AllocHistory.step
  obtain ⟨hacc, c, a', heq, hpaddr, hnext, htop, -⟩ | ⟨hnot, e, hne, heq⟩ :=
    allocFrame_accepted_cases h.alloc r
  · simp only [heq]
    exact Or.inl ⟨hacc, _, rfl, rfl, hpaddr, hnext, htop⟩
  · refine Or.inr ⟨hnot, ?_⟩
    rw [heq]
    cases e <;> rfl

/-- A frame that ends below `2 ^ 64` goes behind all the others. -/
theorem BumpInv.call (hinv : BumpInv base top h) (hok : EndsBelow h r) : BumpInv base top (h.call r) := by
  obtain ⟨hacc, g, hgrants, hsize, hpaddr, hnext, htop⟩ | ⟨-, heq⟩ := h.call_cases r
  swap
  · rw [heq]
    exact hinv
  have hend := hok hacc
  have hfits := hacc.fits
  have hlow := hinv.low
  have hstart : h.alloc.next.toNat ≤ h.alloc.frameStart r := Nat.le_add_right ..
  have hsum : h.alloc.frameStart r + r.size.toNat = h.alloc.frameEnd r := rfl
  rw [Nat.mod_eq_of_lt hend] at hnext hfits
  rw [hinv.limit] at hfits
  rw [Nat.mod_eq_of_lt (by omega)] at hpaddr
  have hnew : g.paddr.toNat + g.size.toNat = h.alloc.frameEnd r := by rw [hpaddr, hsize, hsum]
  refine ⟨⟨?_, ?_⟩, ?_, ?_, ?_, ?_⟩
  · intro g' hg'
    rw [hgrants, List.mem_append, List.mem_singleton] at hg'
    rcases hg' with hg' | rfl
    · exact hinv.inside g' hg'
    · omega
  · rw [hgrants, List.pairwise_append]
    refine ⟨hinv.disjoint, List.pairwise_singleton .., fun g' hg' g'' hg'' => ?_⟩
    rw [List.mem_singleton.mp hg'']
    have hbelow := hinv.below g' hg'
    exact Set.Ico_disjoint_Ico.mpr (by omega)
  · omega
  · omega
  · rw [htop]
    exact hinv.limit
  · intro g' hg'
    rw [hgrants, List.mem_append, List.mem_singleton] at hg'
    rcases hg' with hg' | rfl
    · have hbelow := hinv.below g' hg'
      omega
    · omega

/-- Above the first sixteen pages a frame that wraps is outside the pool. -/
theorem BumpInv.endsBelow (hinv : BumpInv base top h) (hbase : 65536 ≤ base)
    (hframes : FramesApart base top (h.call r).grants) : EndsBelow h r := by
  intro hacc
  obtain ⟨-, g, hgrants, hsize, hpaddr, -, -⟩ | ⟨hnot, -⟩ := h.call_cases r
  swap
  · exact absurd hacc hnot
  have hinside := hframes.inside g (by rw [hgrants]; simp)
  have hnext := h.alloc.next.toNat_lt
  have hskip : h.alloc.skip r.partition < 16 := Nat.mod_lt _ (by omega)
  have hstart : h.alloc.frameStart r = h.alloc.next.toNat + 4096 * h.alloc.skip r.partition := rfl
  have hend : h.alloc.frameEnd r = h.alloc.frameStart r + r.size.toNat := rfl
  have htop := hinv.limit
  have htop' := h.alloc.top.toNat_lt
  rw [hpaddr, hsize] at hinside
  omega

theorem allocInit_bumpInv {base size : UInt64} (hfits : base.toNat + size.toNat < 2 ^ 64) :
    BumpInv base.toNat (base.toNat + size.toNat) { alloc := allocInit base size, grants := [] } where
  inside := fun g hg => by cases hg
  disjoint := List.Pairwise.nil
  low := Nat.le_refl _
  high := Nat.le_add_right ..
  limit := by
    show (base + size).toNat = _
    rw [UInt64.toNat_add, Nat.mod_eq_of_lt hfits]
  below := fun g hg => by cases hg

/-- Along a run in which every frame handed out ends below `2 ^ 64`, the frames lie in the
pool and apart from each other; and for a pool above the first sixteen pages they do so only
then. -/
theorem frames_apart_of_endsBelow {base size : UInt64} (hfits : base.toNat + size.toNat < 2 ^ 64)
    (rs : List FrameRequest) :
    (Run.Guarded AllocHistory.call EndsBelow { alloc := allocInit base size, grants := [] } rs →
      ∀ done, done <+: rs → FramesApart base.toNat (base.toNat + size.toNat)
        (Run.exec AllocHistory.call { alloc := allocInit base size, grants := [] } done).grants) ∧
    (65536 ≤ base.toNat →
      (∀ done, done <+: rs → FramesApart base.toNat (base.toNat + size.toNat)
        (Run.exec AllocHistory.call { alloc := allocInit base size, grants := [] } done).grants) →
      Run.Guarded AllocHistory.call EndsBelow { alloc := allocInit base size, grants := [] } rs) := by
  have hinit := allocInit_bumpInv hfits
  constructor
  · intro hguarded done hdone
    exact (Run.exec_invariant_prefix (fun _ _ hok hinv => BumpInv.call hinv hok) hguarded hinit
      hdone).toFramesApart
  · intro hbase hframes
    exact (Run.exec_forall_prefix_iff_of_inv (BumpInv base.toNat (base.toNat + size.toNat))
      (fun _ hinv => hinv.toFramesApart) (fun _ _ hinv hok => hinv.call hok)
      (fun _ _ hinv hframes => hinv.endsBelow hbase hframes) hinit rs).mp hframes

/-- One page each for partitions 0 and 1 from the pool of `kernel_boot`. -/
theorem frames_apart_one_page :
    (0x80400000 : UInt64).toNat + (0x400000 : UInt64).toNat < 2 ^ 64 ∧
      FramesApart 0x80400000 0x80800000
        (Run.exec AllocHistory.call { alloc := bootAlloc, grants := [] } onePageEach).grants := by
  have hfits : (0x80400000 : UInt64).toNat + (0x400000 : UInt64).toNat < 2 ^ 64 := by decide
  refine ⟨hfits, (frames_apart_of_endsBelow hfits onePageEach).1 ⟨fun _ => ?_, fun _ => ?_, trivial⟩
    onePageEach (List.prefix_refl _)⟩
  · decide +kernel
  · decide +kernel

/-- A page, a frame three pages short of the whole address space, and a page again. -/
def wrappingFrames : List FrameRequest :=
  [{ partition := 0, size := 0x1000 }, { partition := 1, size := 0xFFFFFFFFFFFFD000 },
    { partition := 0, size := 0x1000 }]

/-- The second frame leaves the pool and takes the bump pointer back, so that the third is
the first once more. -/
theorem frames_wrap_around :
    (0x80400000 : UInt64).toNat + (0x400000 : UInt64).toNat < 2 ^ 64 ∧
      (0x80400000 : UInt64) % pageSize = 0 ∧ (∀ r ∈ wrappingFrames, r.size % pageSize = 0) ∧
      (Run.exec AllocHistory.call { alloc := bootAlloc, grants := [] } wrappingFrames).grants =
        [{ partition := 0, paddr := 0x80400000, size := 0x1000 },
          { partition := 1, paddr := 0x80402000, size := 0xFFFFFFFFFFFFD000 },
          { partition := 0, paddr := 0x80400000, size := 0x1000 }] ∧
      ¬ FramesApart 0x80400000 0x80800000
        (Run.exec AllocHistory.call { alloc := bootAlloc, grants := [] } wrappingFrames).grants := by
  have hgrants : (Run.exec AllocHistory.call { alloc := bootAlloc, grants := [] }
      wrappingFrames).grants =
        [{ partition := 0, paddr := 0x80400000, size := 0x1000 },
          { partition := 1, paddr := 0x80402000, size := 0xFFFFFFFFFFFFD000 },
          { partition := 0, paddr := 0x80400000, size := 0x1000 }] := by decide +kernel
  refine ⟨by decide, by decide, ?_, hgrants, fun hframes => ?_⟩
  · intro r hr
    simp only [wrappingFrames, List.mem_cons, List.not_mem_nil, or_false] at hr
    rcases hr with rfl | rfl | rfl
    · decide
    · decide
    · decide
  · rw [hgrants] at hframes
    have hsecond := (hframes.inside _ (List.mem_cons_of_mem _ List.mem_cons_self)).2
    exact absurd hsecond (by decide)

end Moonlight
