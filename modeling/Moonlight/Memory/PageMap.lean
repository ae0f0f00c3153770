/-
Address spaces as partial maps.

`absMap` and `absUnmap` are what the two calls are for: they set or clear a range
of a partial map from virtual to physical addresses.  `vspace_map` and
`vspace_unmap` work a page at a time; where the addresses are canonical, the pages
of a range are the addresses in it, so what the calls do to the pages is the
abstract operation.  Runs may go on after a call that stops half way.
-/
import Moonlight.Lib.Run
import Moonlight.Memory.PageLoops
import Moonlight.Memory.PagePool

namespace Moonlight

/-- The map `f` with `bytes` addresses from `vaddr` on sent to those from `paddr`
on. -/
def absMap (f : UInt64 → Option UInt64) (vaddr paddr : UInt64) (bytes : Nat) :
    UInt64 → Option UInt64 :=
  fun a => if (a - vaddr).toNat < bytes then some (paddr + (a - vaddr)) else f a

/-- The map `f` without the `bytes` addresses from `vaddr` on. -/
def absUnmap (f : UInt64 → Option UInt64) (vaddr : UInt64) (bytes : Nat) :
    UInt64 → Option UInt64 :=
  fun a => if (a - vaddr).toNat < bytes then none else f a

/-! ### Ranges of canonical addresses -/

def CanonicalRange (vaddr size : UInt64) : Prop := ∀ i : UInt64, i < size → Canonical (vaddr + i)

theorem CanonicalRange.canonical_pageAt {vaddr size : UInt64} (h : CanonicalRange vaddr size)
    {o : Nat} (ho : o < pagesIn size) : Canonical (pageAt vaddr o) := by
  have hlt := size.toNat_lt
  unfold pagesIn at ho
  refine h _ (UInt64.lt_iff_toNat_lt.mpr ?_)
  rw [UInt64.toNat_ofNat']
  omega

theorem pages_eq_size {size : UInt64} (h : PageAligned size) :
    4096 * pagesIn size = size.toNat := by
  unfold PageAligned at h
  unfold pagesIn
  omega

/-- An address lies in page `o` of the range if that is its distance in pages. -/
theorem sub_pageAt_lt_iff (a va : UInt64) {o : Nat} (ho : 4096 * (o + 1) ≤ 2 ^ 64) :
    a - pageAt va o < pageSize ↔ (a - va).toNat / 4096 = o := by
  have hlta := a.toNat_lt
  have hltv := va.toNat_lt
  rw [UInt64.lt_iff_toNat_lt, toNat_sub_eq, toNat_sub_eq, pageAt, UInt64.toNat_add,
    UInt64.toNat_ofNat']
  show _ < 4096 ↔ _
  omega

theorem add_sub_pageAt (a va pa : UInt64) (o : Nat) :
    pageAt pa o + (a - pageAt va o) = pa + (a - va) := by
  have hlta := a.toNat_lt
  have hltv := va.toNat_lt
  apply UInt64.toNat_inj.mp
  rw [pageAt, pageAt, UInt64.toNat_add, UInt64.toNat_add, UInt64.toNat_add, toNat_sub_eq,
    toNat_sub_eq, UInt64.toNat_add]
  omega

/-- A canonical address lies in the range exactly when it shares a leaf entry with one of its
pages. -/
theorem CanonicalRange.mem_iff {vaddr size a : UInt64} (h : CanonicalRange vaddr size)
    (hva : PageAligned vaddr) (hsize : PageAligned size) (ha : Canonical a) :
    (a - vaddr).toNat < size.toNat ↔ ∃ o, o < pagesIn size ∧ SamePage a (pageAt vaddr o) := by
  have hlt := size.toNat_lt
  have hbytes := pages_eq_size hsize
  have hpage : ∀ o, o < pagesIn size →
      (SamePage a (pageAt vaddr o) ↔ (a - vaddr).toNat / 4096 = o) := by
    intro o ho
    rw [samePage_iff ha (h.canonical_pageAt ho) (hva.add_pages o)]
    exact sub_pageAt_lt_iff a vaddr (by omega)
  constructor
  · intro hin
    have ho : (a - vaddr).toNat / 4096 < pagesIn size := by omega
    exact ⟨_, ho, (hpage _ ho).mpr rfl⟩
  · rintro ⟨o, ho, hsame⟩
    have heq := (hpage o ho).mp hsame
    omega

/-- Mapping all pages of the range is the abstract operation on it. -/
theorem MapsPrefix.eq_absMap {s s' : PtState} {vaddr paddr size a : UInt64}
    (h : MapsPrefix s s' vaddr paddr (pagesIn size)) (hrange : CanonicalRange vaddr size)
    (hva : PageAligned vaddr) (hpa : PageAligned paddr) (hsize : PageAligned size)
    (ha : Canonical a) :
    vspaceResolve s'.mem s'.vs a = absMap (vspaceResolve s.mem s.vs) vaddr paddr size.toNat a := by
  have hmem := hrange.mem_iff hva hsize ha
  by_cases hin : (a - vaddr).toNat < size.toNat
  · obtain ⟨o, ho, hsame⟩ := hmem.mp hin
    have hoffset := (samePage_iff ha (hrange.canonical_pageAt ho) (hva.add_pages o)).mp hsame
    rw [(h.mapped o ho a hsame).2, absMap, if_pos hin,
      or_pageOffset (hpa.add_pages o) (hva.add_pages o) hoffset, add_sub_pageAt]
  · rw [absMap, if_neg hin]
    exact h.kept a fun o ho hsame => hin (hmem.mpr ⟨o, ho, hsame⟩)

theorem Clears.eq_absUnmap {s s' : PtState} {vaddr size a : UInt64}
    (h : Clears s s' vaddr (pagesIn size)) (hrange : CanonicalRange vaddr size)
    (hva : PageAligned vaddr) (hsize : PageAligned size) (ha : Canonical a) :
    vspaceResolve s'.mem s'.vs a = absUnmap (vspaceResolve s.mem s.vs) vaddr size.toNat a := by
  have hmem := hrange.mem_iff hva hsize ha
  by_cases hin : (a - vaddr).toNat < size.toNat
  · obtain ⟨o, ho, hsame⟩ := hmem.mp hin
    rw [h.cleared o ho a hsame, absUnmap, if_pos hin]
  · rw [absUnmap, if_neg hin]
    exact h.kept a fun o ho hsame => hin (hmem.mpr ⟨o, ho, hsame⟩)

/-! ### Runs of calls -/

/-- A call on the address space. -/
inductive PtCall where
  | map (vaddr paddr size : UInt64) (perms : UInt8) (color : UInt16)
  | unmap (vaddr size : UInt64)

def ptStep (s : PtState) : PtCall → PtState
  | .map vaddr paddr size perms color =>
      let r := vspaceMap s.mem s.vs vaddr paddr size perms color
      ⟨r.2.1, r.2.2⟩
  | .unmap vaddr size => ⟨(vspaceUnmap s.mem s.vs vaddr size).2, s.vs⟩

/-- Some labelling makes the tables a tree. -/
def PtReady (s : PtState) : Prop := ∃ label, Tables poolBooks s.mem s.vs label

/-- A call of `vspace_map` that succeeds sets its range. -/
theorem vspaceMap_spec {s : PtState} (h : PtReady s) {vaddr paddr size : UInt64} (perms : UInt8)
    (color : UInt16) (hrange : CanonicalRange vaddr size) :
    PtReady (ptStep s (.map vaddr paddr size perms color)) ∧
      ((vspaceMap s.mem s.vs vaddr paddr size perms color).1 = .ok → ∀ a, Canonical a →
        vspaceResolve (ptStep s (.map vaddr paddr size perms color)).mem
            (ptStep s (.map vaddr paddr size perms color)).vs a =
          absMap (vspaceResolve s.mem s.vs) vaddr paddr size.toNat a) := by
  obtain ⟨label, htables⟩ := h
  obtain ⟨e, m', vs', label', k, heq, hinv, -, -, hok, -, hmaps⟩ :=
    htables.vspaceMap vaddr paddr size perms color
  simp only [ptStep, heq]
  refine ⟨⟨label', hinv⟩, fun he a ha => ?_⟩
  obtain ⟨hchecks, rfl⟩ := hok he
  obtain ⟨hva, hpa, hsize⟩ := hchecks.aligned
  exact hmaps.eq_absMap hrange ((pageAligned_iff vaddr).mpr hva) ((pageAligned_iff paddr).mpr hpa)
    ((pageAligned_iff size).mpr hsize) ha

/-- `vspace_unmap` clears the range, or refuses it and changes nothing. -/
theorem vspaceUnmap_spec {s : PtState} (h : PtReady s) {vaddr size : UInt64}
    (hrange : CanonicalRange vaddr size) :
    PtReady (ptStep s (.unmap vaddr size)) ∧
      ((vspaceUnmap s.mem s.vs vaddr size).1 = .ok → ∀ a, Canonical a →
        vspaceResolve (ptStep s (.unmap vaddr size)).mem s.vs a =
          absUnmap (vspaceResolve s.mem s.vs) vaddr size.toNat a) ∧
      ((vspaceUnmap s.mem s.vs vaddr size).1 ≠ .ok → ptStep s (.unmap vaddr size) = s) := by
  obtain ⟨label, htables⟩ := h
  obtain ⟨e, m', heq, hinv, -, hok, hfail⟩ := htables.vspaceUnmap vaddr size
  simp only [ptStep, heq]
  refine ⟨⟨label, hinv⟩, fun he a ha => ?_, fun he => by rw [hfail he]⟩
  obtain ⟨⟨hva, hsize⟩, hclears⟩ := hok he
  exact hclears.eq_absUnmap hrange ((pageAligned_iff vaddr).mpr hva)
    ((pageAligned_iff size).mpr hsize) ha

theorem ptStep_ready {s : PtState} (h : PtReady s) (c : PtCall) : PtReady (ptStep s c) := by
  obtain ⟨label, htables⟩ := h
  cases c with
  | map vaddr paddr size perms color =>
    obtain ⟨e, m', vs', label', k, heq, hinv, -⟩ := htables.vspaceMap vaddr paddr size perms color
    rw [ptStep, heq]
    exact ⟨label', hinv⟩
  | unmap vaddr size =>
    obtain ⟨e, m', heq, hinv, -⟩ := htables.vspaceUnmap vaddr size
    rw [ptStep, heq]
    exact ⟨label, hinv⟩

/-- The state `vspace_init_with_alloc` leaves. -/
def ptInit (m : Memory) (asid partId : UInt32) (alloc : UInt64) : PtState :=
  let r := vspaceInitWithAlloc m asid partId alloc
  ⟨r.2.1, r.2.2⟩

/-- The pages the address space will get are page-aligned: those of its
allocator, or those of the static pool. -/
def AlignedPages (m : Memory) (alloc : UInt64) : Prop :=
  PageAligned (if alloc ≠ 0 then (m.allocs alloc).next else m.fallbackPool)

theorem ptInit_ready {m : Memory} {asid partId : UInt32} {alloc : UInt64}
    (haligned : AlignedPages m alloc) (hok : (vspaceInitWithAlloc m asid partId alloc).1 = .ok) :
    PtReady (ptInit m asid partId alloc) := by
  simp only [ptInit]
  unfold vspaceInitWithAlloc at hok ⊢
  by_cases hfull : alloc = 0 ∧ m.fallbackNext ≥ 64
  · have hnone : allocPtPage m (VSpace.empty asid partId alloc) =
        (0, m, VSpace.empty asid partId alloc) := by
      simp [allocPtPage, VSpace.empty, hfull.1, hfull.2]
    simp [hnone] at hok
  have hpool : PoolOk m (VSpace.empty asid partId alloc) := by
    refine ⟨haligned, Nat.zero_le 64, ?_⟩
    intro hz
    have hlt : m.fallbackNext < 64 := UInt32.not_le.mp fun hge => hfull ⟨hz, hge⟩
    exact Nat.le_of_lt (UInt32.lt_iff_toNat_lt.mp hlt)
  obtain heq | ⟨p, m', vs', heq, ht⟩ := hpool.page
  · simp [heq] at hok
  · simp only [heq] at hok ⊢
    by_cases hp : p = 0
    · simp [hp] at hok
    rw [if_neg hp]
    exact ⟨_, PageTaken.root_tree (b := poolBooks) ht ht.self _,
      ⟨ht.ok.aligned, ht.ok.used, ht.ok.fallback⟩, hp⟩

theorem ptReady_exec {m : Memory} {asid partId : UInt32} {alloc : UInt64}
    (haligned : AlignedPages m alloc)
    (hinit : (vspaceInitWithAlloc m asid partId alloc).1 = .ok) (calls : List PtCall) :
    PtReady (Run.exec ptStep (ptInit m asid partId alloc) calls) := by
  have hstep : ∀ t c, PtReady t → PtReady (ptStep t c) := fun _ c h => ptStep_ready h c
  exact Run.exec_invariant_of_forall hstep calls (ptInit_ready haligned hinit)

/-- Whatever calls were made before, an address space refines a partial map of the
canonical addresses: a successful `vspace_map` sends its range to the physical range
and leaves other addresses alone; a successful `vspace_unmap` clears its range and
leaves other addresses alone; a refused `vspace_unmap` changes nothing. -/
theorem vspace_refines_partial_map {m : Memory} {asid partId : UInt32} {alloc : UInt64}
    (haligned : AlignedPages m alloc)
    (hinit : (vspaceInitWithAlloc m asid partId alloc).1 = .ok) (calls : List PtCall) :
    let s := Run.exec ptStep (ptInit m asid partId alloc) calls
    (∀ vaddr paddr size perms color, CanonicalRange vaddr size →
      (vspaceMap s.mem s.vs vaddr paddr size perms color).1 = .ok →
      let s' := ptStep s (.map vaddr paddr size perms color)
      (∀ i, i < size → vspaceResolve s'.mem s'.vs (vaddr + i) = some (paddr + i)) ∧
      ∀ a, Canonical a → (∀ i, i < size → a ≠ vaddr + i) →
        vspaceResolve s'.mem s'.vs a = vspaceResolve s.mem s.vs a) ∧
    (∀ vaddr size, CanonicalRange vaddr size →
      let s' := ptStep s (.unmap vaddr size)
      ((vspaceUnmap s.mem s.vs vaddr size).1 = .ok →
        (∀ i, i < size → vspaceResolve s'.mem s'.vs (vaddr + i) = none) ∧
        ∀ a, Canonical a → (∀ i, i < size → a ≠ vaddr + i) →
          vspaceResolve s'.mem s'.vs a = vspaceResolve s.mem s.vs a) ∧
      ((vspaceUnmap s.mem s.vs vaddr size).1 ≠ .ok → s' = s)) := by
  intro s
  have hready : PtReady s := ptReady_exec haligned hinit calls
  have hin : ∀ {vaddr size i : UInt64}, i < size → (vaddr + i - vaddr).toNat < size.toNat := by
    intro vaddr size i hi
    rw [UInt64.add_comm, UInt64.add_sub_cancel]
    exact UInt64.lt_iff_toNat_lt.mp hi
  have hout : ∀ {vaddr size a : UInt64}, (∀ i, i < size → a ≠ vaddr + i) →
      ¬ (a - vaddr).toNat < size.toNat := by
    intro vaddr size a ha hlt
    refine ha (a - vaddr) (UInt64.lt_iff_toNat_lt.mpr hlt) ?_
    rw [UInt64.add_comm, UInt64.sub_add_cancel]
  constructor
  · intro vaddr paddr size perms color hrange hok s'
    have hres := (vspaceMap_spec hready perms color hrange).2 hok
    refine ⟨fun i hi => ?_, fun a ha hne => ?_⟩
    · rw [hres _ (hrange i hi), absMap, if_pos (hin hi), UInt64.add_comm vaddr,
        UInt64.add_sub_cancel]
    · rw [hres a ha, absMap, if_neg (hout hne)]
  · intro vaddr size hrange s'
    obtain ⟨_, hok, hrefused⟩ := vspaceUnmap_spec hready hrange
    refine ⟨fun he => ⟨fun i hi => ?_, fun a ha hne => ?_⟩, hrefused⟩
    · exact (hok he _ (hrange i hi)).trans (if_pos (hin hi))
    · exact (hok he a ha).trans (if_neg (hout hne))

theorem canonicalRange_of_low {vaddr size : UInt64} (h : vaddr.toNat + size.toNat ≤ 2 ^ 38) :
    CanonicalRange vaddr size := by
  intro i hi
  have hlt : i.toNat < size.toNat := UInt64.lt_iff_toNat_lt.mp hi
  refine Or.inl ?_
  rw [UInt64.toNat_add]
  omega

/-- One megabyte of page-table pages at `0x80400000`, as the tests set it up. -/
def testMemory : Memory where
  allocs := fun _ => allocInit 0x80400000 0x100000
  words := fun _ => 0
  fallbackPool := 0
  fallbackNext := 0

theorem alignedPages_testMemory : AlignedPages testMemory 8 := by
  show 0x80400000 % 4096 = 0
  decide

/-- Two pages mapped into a new address space resolve at every byte. -/
theorem vspace_refines_partial_map_two_pages :
    (vspaceInitWithAlloc testMemory 1 1 8).1 = .ok ∧
    ∀ i, i < 0x2000 →
      vspaceResolve
        (ptStep (ptInit testMemory 1 1 8) (.map 0x10000000 0x80200000 0x2000 3 0)).mem
        (ptStep (ptInit testMemory 1 1 8) (.map 0x10000000 0x80200000 0x2000 3 0)).vs
        (0x10000000 + i) = some (0x80200000 + i) := by
  have hinit : (vspaceInitWithAlloc testMemory 1 1 8).1 = .ok := by decide +kernel
  have hmap : (vspaceMap (ptInit testMemory 1 1 8).mem (ptInit testMemory 1 1 8).vs 0x10000000
      0x80200000 0x2000 3 0).1 = .ok := by decide +kernel
  have hrefines := vspace_refines_partial_map alignedPages_testMemory hinit []
  exact ⟨hinit, (hrefines.1 _ _ _ _ _ (canonicalRange_of_low (by decide)) hmap).1⟩

/-- A range that does not start on a page boundary is refused by `vspace_unmap`,
and its addresses go on resolving. -/
theorem vspaceUnmap_misaligned_keeps_range :
    AlignedPages testMemory 8 ∧ (vspaceInitWithAlloc testMemory 1 1 8).1 = .ok ∧
    CanonicalRange 0x10000000 0x2000 ∧ CanonicalRange 0x10000001 0x1000 ∧
    (let s := ptStep (ptInit testMemory 1 1 8) (.map 0x10000000 0x80200000 0x2000 3 0)
     (vspaceUnmap s.mem s.vs 0x10000001 0x1000).1 = .invalidArg ∧
     vspaceResolve (ptStep s (.unmap 0x10000001 0x1000)).mem
       (ptStep s (.unmap 0x10000001 0x1000)).vs 0x10000001 = some 0x80200001) := by
  exact ⟨alignedPages_testMemory, by decide +kernel, canonicalRange_of_low (by decide),
    canonicalRange_of_low (by decide), by decide +kernel, by decide +kernel⟩

end Moonlight
