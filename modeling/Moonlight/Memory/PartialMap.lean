/-
What a failed `vspace_map` leaves behind.

The loop of `vspace_map` returns at the first page it cannot install and takes
nothing out again, so a failed call leaves a prefix of its range mapped.  No page of
the prefix was mapped before, and every address outside it resolves as it did.
-/
import Moonlight.Memory.PageMap

namespace Moonlight

/-- What `Tables.vspaceMap` says of one call, without the tables. -/
theorem PtReady.map_prefix {s : PtState} (h : PtReady s) (vaddr paddr size : UInt64)
    (perms : UInt8) (color : UInt16) :
    ∃ k, MapsPrefix s (ptStep s (.map vaddr paddr size perms color)) vaddr paddr k ∧
      ((vspaceMap s.mem s.vs vaddr paddr size perms color).1 = .ok →
        MapChecks vaddr paddr size color ∧ k = pagesIn size) ∧
      ((vspaceMap s.mem s.vs vaddr paddr size perms color).1 ≠ .ok → k = 0 ∨ k < pagesIn size) := by
  obtain ⟨label, htables⟩ := h
  obtain ⟨e, m', vs', label', k, heq, -, -, -, hok, hfail, hmaps⟩ :=
    htables.vspaceMap vaddr paddr size perms color
  rw [ptStep, heq]
  exact ⟨k, hmaps, hok, hfail⟩

/-- In every address space reached by calls of `vspace_map` and `vspace_unmap`, a call of
`vspace_map` that fails has mapped some pages at the start of its range, fewer than the
range has, none of which was mapped before; every other address resolves as it did. -/
theorem vspaceMap_failure_maps_prefix {m : Memory} {asid partId : UInt32} {alloc : UInt64}
    (haligned : AlignedPages m alloc)
    (hinit : (vspaceInitWithAlloc m asid partId alloc).1 = .ok) (calls : List PtCall)
    (vaddr paddr size : UInt64) (perms : UInt8) (color : UInt16) :
    let s := Run.exec ptStep (ptInit m asid partId alloc) calls
    (vspaceMap s.mem s.vs vaddr paddr size perms color).1 ≠ .ok →
    ∃ k, (k = 0 ∨ k < size.toNat / 4096) ∧
      MapsPrefix s (ptStep s (.map vaddr paddr size perms color)) vaddr paddr k := by
  intro s hfail
  have hready : PtReady s := ptReady_exec haligned hinit calls
  obtain ⟨k, hprefix, -, hk⟩ := hready.map_prefix vaddr paddr size perms color
  exact ⟨k, hk hfail, hprefix⟩

/-- The second page of a range is mapped already: the call fails after the first. -/
theorem vspaceMap_failure_keeps_second_page :
    let s := ptStep (ptInit testMemory 1 1 8) (.map 0x10001000 0x80300000 0x1000 3 0)
    (vspaceMap s.mem s.vs 0x10000000 0x80200000 0x2000 3 0).1 = .invalidArg ∧
    ∃ k, (k = 0 ∨ k < 2) ∧
      MapsPrefix s (ptStep s (.map 0x10000000 0x80200000 0x2000 3 0)) 0x10000000 0x80200000 k := by
  have hinit : (vspaceInitWithAlloc testMemory 1 1 8).1 = .ok := by decide +kernel
  intro s
  have hfail : (vspaceMap s.mem s.vs 0x10000000 0x80200000 0x2000 3 0).1 = .invalidArg := by
    decide +kernel
  refine ⟨hfail, vspaceMap_failure_maps_prefix alignedPages_testMemory hinit
    [.map 0x10001000 0x80300000 0x1000 3 0] 0x10000000 0x80200000 0x2000 3 0 ?_⟩
  exact fun hok => absurd (hfail.symm.trans hok) (by decide)

/-- In the same state the failed call leaves the first page of its range mapped. -/
theorem vspaceMap_failure_leaves_page :
    AlignedPages testMemory 8 ∧ (vspaceInitWithAlloc testMemory 1 1 8).1 = .ok ∧
    (let s := ptStep (ptInit testMemory 1 1 8) (.map 0x10001000 0x80300000 0x1000 3 0)
     let s' := ptStep s (.map 0x10000000 0x80200000 0x2000 3 0)
     (vspaceMap s.mem s.vs 0x10000000 0x80200000 0x2000 3 0).1 = .invalidArg ∧
     vspaceResolve s.mem s.vs 0x10000000 = none ∧
     vspaceResolve s'.mem s'.vs 0x10000000 = some 0x80200000) := by
  exact ⟨alignedPages_testMemory, by decide +kernel, by decide +kernel, by decide +kernel,
    by decide +kernel⟩

end Moonlight
