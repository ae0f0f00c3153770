/-
The frames behind the page tables.

Every address space records the frames `alloc_pt_page` took for it.  Several address
spaces can share one allocator, and a mapping that fails half-way keeps the pages it has
taken.  Whatever the order of the calls, the recorded frames are single pages of the
owner's colour, each apart from all the others.
-/
import Moonlight.Memory.FrameRanges
import Moonlight.Memory.PageTable

namespace Moonlight

/-! ### One page from the allocator -/

/-- The bytes of a page-table frame. -/
def Cap.pageRange (c : Cap) : Set Nat :=
  Set.Ico c.u.framePaddr.toNat (c.u.framePaddr.toNat + 4096)

/-- A frame of one page in `[low, high)` with the colour of the partition. -/
structure PageFrame (low high : Nat) (partitionId : UInt32) (c : Cap) : Prop where
  low : low ≤ c.u.framePaddr.toNat
  high : c.u.framePaddr.toNat + 4096 ≤ high
  aligned : PageAligned c.u.framePaddr
  bounds : c.hwCap.base = c.u.framePaddr ∧ c.hwCap.top = c.u.framePaddr + pageSize
  color : (colorOf c.u.framePaddr).toNat = (allocColorForPartition partitionId).toNat

theorem PageFrame.widen {low low' high high' : Nat} {partitionId : UInt32} {c : Cap}
    (h : PageFrame low high partitionId c) (hlow : low' ≤ low) (hhigh : high ≤ high') :
    PageFrame low' high' partitionId c :=
  { h with low := Nat.le_trans hlow h.low, high := Nat.le_trans h.high hhigh }

/-- An allocator whose bump pointer is a page in `[base, top]`, with room above the top
for the colour search. -/
structure FrameAlloc.Ready (base top : Nat) (a : FrameAlloc) : Prop where
  low : base ≤ a.next.toNat
  high : a.next.toNat ≤ top
  limit : a.top.toNat = top
  small : top < 2 ^ 63
  aligned : PageAligned a.next

theorem allocFrame_bounds {a a' : FrameAlloc} {p : UInt32} {size : UInt64} {e : KError} {c : Cap}
    (h : allocFrame a p size = (e, some c, a')) :
    c.hwCap.base = c.u.framePaddr ∧ c.hwCap.top = c.u.framePaddr + size := by
  unfold allocFrame at h
  split at h
  · cases h
  split at h
  · cases h
  simp only at h
  split at h
  · cases h
  · cases h
    exact ⟨rfl, rfl⟩

/-- The page handed out starts at or above the bump pointer and ends at the new one. -/
theorem FrameAlloc.Ready.page {base top : Nat} {a a' : FrameAlloc} {p : UInt32} {c : Cap}
    (h : a.Ready base top) (heq : allocFrame a p pageSize = (.ok, some c, a')) :
    PageFrame a.next.toNat a'.next.toNat p c ∧ a'.Ready base top ∧
      a.next.toNat ≤ a'.next.toNat := by
  obtain ⟨hp, hcolor⟩ := allocFrame_color heq
  have hbounds := allocFrame_bounds heq
  obtain ⟨hacc, c', a'', heq', hpaddr, hnext, htop, -⟩ | ⟨-, e, -, heq'⟩ :=
    allocFrame_accepted_cases a { partition := p, size := pageSize }
  swap
  · rw [heq] at heq'
    cases heq'
  rw [heq] at heq'
  cases heq'
  -- the colour search stays within sixteen pages, so below `2 ^ 63` nothing wraps
  have hskip : a.skip p < 16 := Nat.mod_lt _ (by omega)
  have hstart : a.frameStart { partition := p, size := pageSize } =
    a.next.toNat + 4096 * a.skip p := rfl
  have hend : a.frameEnd { partition := p, size := pageSize } =
    a.frameStart { partition := p, size := pageSize } + 4096 := rfl
  have hfits := hacc.fits
  have hlow := h.low
  have hhigh := h.high
  have hlimit := h.limit
  have hsmall := h.small
  have haligned := h.aligned
  unfold PageAligned at haligned
  rw [Nat.mod_eq_of_lt (by omega)] at hpaddr hnext hfits
  refine ⟨⟨by omega, by omega, ?_, hbounds, ?_⟩, ⟨by omega, by omega, ?_, hsmall, ?_⟩, by omega⟩
  · unfold PageAligned
    omega
  · rw [hcolor, toNat_allocColorForPartition hp]
  · rw [htop]
    exact hlimit
  · unfold PageAligned
    omega

theorem vspaceInitWithAlloc_snd (m : Memory) (asid partId : UInt32) (alloc : UInt64) :
    (vspaceInitWithAlloc m asid partId alloc).2 =
      ((allocPtPage m (VSpace.empty asid partId alloc)).2.1,
        { (allocPtPage m (VSpace.empty asid partId alloc)).2.2 with
          root := (allocPtPage m (VSpace.empty asid partId alloc)).1 }) := by
  unfold vspaceInitWithAlloc
  simp only
  split_ifs
  · rfl
  · rfl

/-! ### Address spaces that share an allocator -/

/-- The memory and the address spaces created so far. -/
structure Spaces where
  mem : Memory
  count : Nat
  vs : Nat → VSpace

inductive SpaceCall where
  | create (asid partId : UInt32)
  | map (i : Nat) (vaddr paddr size : UInt64) (perms : UInt8) (color : UInt16)

namespace Spaces

def start (m : Memory) : Spaces := { mem := m, count := 0, vs := fun _ => VSpace.empty 0 0 0 }

/-- Address space `i` and the memory are replaced. -/
def put (s : Spaces) (i : Nat) (m : Memory) (vs : VSpace) : Spaces :=
  { s with mem := m, vs := Function.update s.vs i vs }

/-- One more address space, as `memset` leaves it before the root page is taken. -/
def extend (s : Spaces) (asid partId : UInt32) (alloc : UInt64) : Spaces :=
  { s.put s.count s.mem (VSpace.empty asid partId alloc) with count := s.count + 1 }

/-- A creation that fails leaves an address space behind as well, with no root. -/
def step (alloc : UInt64) (s : Spaces) : SpaceCall → Spaces
  | .create asid partId =>
      let r := vspaceInitWithAlloc s.mem asid partId alloc
      { s.put s.count r.2.1 r.2.2 with count := s.count + 1 }
  | .map i vaddr paddr size perms color =>
      if i < s.count then
        let r := vspaceMap s.mem (s.vs i) vaddr paddr size perms color
        s.put i r.2.1 r.2.2
      else s

/-- Frame `k` of address space `i` is recorded. -/
def Recorded (s : Spaces) (i k : Nat) : Prop := i < s.count ∧ k < (s.vs i).ptCapsCount.toNat

/-- The recorded frames are pages below the bump pointer, each apart from the others. -/
structure Inv (alloc : UInt64) (base top : Nat) (s : Spaces) : Prop where
  ready : (s.mem.allocs alloc).Ready base top
  shared : ∀ i, i < s.count → (s.vs i).alloc = alloc
  counts : ∀ i, i < s.count →
    (s.vs i).ptCapsCount = (s.vs i).ptPagesUsed ∧ (s.vs i).ptCapsCount.toNat ≤ 64
  frame : ∀ i k, s.Recorded i k → PageFrame base (s.mem.allocs alloc).next.toNat
    (s.vs i).partitionId ((s.vs i).ptCaps k)
  apart : ∀ i k j l, s.Recorded i k → s.Recorded j l → (i, k) ≠ (j, l) →
    Disjoint ((s.vs i).ptCaps k).pageRange ((s.vs j).ptCaps l).pageRange

/-- The fields the invariant is about. -/
structure SameBooks (s s' : Spaces) : Prop where
  count : s'.count = s.count
  allocs : s'.mem.allocs = s.mem.allocs
  vs : ∀ i, (s'.vs i).alloc = (s.vs i).alloc ∧ (s'.vs i).partitionId = (s.vs i).partitionId ∧
    (s'.vs i).ptCapsCount = (s.vs i).ptCapsCount ∧ (s'.vs i).ptPagesUsed = (s.vs i).ptPagesUsed ∧
    (s'.vs i).ptCaps = (s.vs i).ptCaps

variable {alloc : UInt64} {base top : Nat} {s s' : Spaces}

@[simp] theorem put_vs_self (s : Spaces) (i : Nat) (m : Memory) (vs : VSpace) :
    (s.put i m vs).vs i = vs := Function.update_self ..

theorem put_vs_ne {i j : Nat} (h : j ≠ i) (s : Spaces) (m : Memory) (vs : VSpace) :
    (s.put i m vs).vs j = s.vs j := Function.update_of_ne h ..

theorem put_put (s : Spaces) (i : Nat) (m m' : Memory) (vs vs' : VSpace) :
    (s.put i m vs).put i m' vs' = s.put i m' vs' := by
  simp only [put, Function.update_idem]

theorem Inv.congr (h : s.Inv alloc base top) (hsame : SameBooks s s') : s'.Inv alloc base top := by
  have hrec : ∀ i k, s'.Recorded i k ↔ s.Recorded i k := fun i k => by
    rw [Recorded, Recorded, hsame.count, (hsame.vs i).2.2.1]
  refine ⟨?_, fun i hi => ?_, fun i hi => ?_, fun i k hik => ?_, fun i k j l hik hjl hne => ?_⟩
  · rw [hsame.allocs]
    exact h.ready
  · rw [(hsame.vs i).1]
    exact h.shared i (hsame.count ▸ hi)
  · rw [(hsame.vs i).2.2.1, (hsame.vs i).2.2.2.1]
    exact h.counts i (hsame.count ▸ hi)
  · rw [hsame.allocs, (hsame.vs i).2.1, (hsame.vs i).2.2.2.2]
    exact h.frame i k ((hrec i k).mp hik)
  · rw [(hsame.vs i).2.2.2.2, (hsame.vs j).2.2.2.2]
    exact h.apart i k j l ((hrec i k).mp hik) ((hrec j l).mp hjl) hne

/-- One more frame `c` for address space `i`, taken above the bump pointer. -/
structure Took (alloc : UInt64) (s s' : Spaces) (i : Nat) (c : Cap) : Prop where
  count : s'.count = s.count
  next : (s.mem.allocs alloc).next.toNat ≤ (s'.mem.allocs alloc).next.toNat
  frame : PageFrame (s.mem.allocs alloc).next.toNat (s'.mem.allocs alloc).next.toNat
    (s.vs i).partitionId c
  room : (s.vs i).ptCapsCount < 64 ∧ (s.vs i).ptPagesUsed < 64
  self : s'.vs i = (s.vs i).recordPage c
  other : ∀ j, j ≠ i → s'.vs j = s.vs j

theorem Took.recorded {i : Nat} {c : Cap} (h : Took alloc s s' i c) {j k : Nat}
    (hjk : s'.Recorded j k) :
    s.Recorded j k ∧ (s'.vs j).ptCaps k = (s.vs j).ptCaps k ∨
      (j, k) = (i, (s.vs i).ptCapsCount.toNat) ∧ (s'.vs j).ptCaps k = c := by
  obtain ⟨hj, hk⟩ := hjk
  rw [h.count] at hj
  by_cases hji : j = i
  · subst hji
    rw [h.self] at hk ⊢
    have hsucc : ((s.vs j).recordPage c).ptCapsCount.toNat = (s.vs j).ptCapsCount.toNat + 1 :=
      toNat_succ_of_lt h.room.1
    by_cases hnew : k = (s.vs j).ptCapsCount.toNat
    · subst hnew
      exact Or.inr ⟨rfl, Function.update_self ..⟩
    · exact Or.inl ⟨⟨hj, by omega⟩, Function.update_of_ne hnew ..⟩
  · rw [h.other j hji] at hk ⊢
    exact Or.inl ⟨⟨hj, hk⟩, rfl⟩

theorem Took.kept {i : Nat} {c : Cap} (h : Took alloc s s' i c) (j : Nat) :
    (s'.vs j).partitionId = (s.vs j).partitionId ∧ (s'.vs j).alloc = (s.vs j).alloc := by
  by_cases hji : j = i
  · rw [hji, h.self]
    exact ⟨rfl, rfl⟩
  · rw [h.other j hji]
    exact ⟨rfl, rfl⟩

theorem Inv.took_counts (h : s.Inv alloc base top) {i : Nat} {c : Cap} (ht : Took alloc s s' i c)
    {j : Nat} (hj : j < s.count) :
    (s'.vs j).ptCapsCount = (s'.vs j).ptPagesUsed ∧ (s'.vs j).ptCapsCount.toNat ≤ 64 := by
  by_cases hji : j = i
  · subst hji
    rw [ht.self]
    show (s.vs j).ptCapsCount + 1 = (s.vs j).ptPagesUsed + 1 ∧ ((s.vs j).ptCapsCount + 1).toNat ≤ 64
    exact ⟨by rw [(h.counts j hj).1], toNat_succ_le_of_lt ht.room.1⟩
  · rw [ht.other j hji]
    exact h.counts j hj

/-- The new frame lies above all recorded ones. -/
theorem Inv.took_above (h : s.Inv alloc base top) {i : Nat} {c : Cap} (ht : Took alloc s s' i c)
    {j k : Nat} (hjk : s.Recorded j k) :
    Disjoint ((s.vs j).ptCaps k).pageRange c.pageRange := by
  have hhigh := (h.frame j k hjk).high
  have hstart := ht.frame.low
  exact Set.Ico_disjoint_Ico.mpr (by omega)

theorem Inv.took (h : s.Inv alloc base top) {i : Nat} {c : Cap} (ht : Took alloc s s' i c)
    (hready : (s'.mem.allocs alloc).Ready base top) : s'.Inv alloc base top := by
  refine ⟨hready, fun j hj => ?_, fun j hj => h.took_counts ht (ht.count ▸ hj), fun j k hjk => ?_,
    fun j k j' l hjk hjl hne => ?_⟩
  · rw [(ht.kept j).2]
    exact h.shared j (ht.count ▸ hj)
  · rw [(ht.kept j).1]
    rcases ht.recorded hjk with ⟨hold, heq⟩ | ⟨hnew, heq⟩
    · rw [heq]
      exact (h.frame j k hold).widen (Nat.le_refl _) ht.next
    · rw [heq, (Prod.mk.inj hnew).1]
      exact ht.frame.widen h.ready.low (Nat.le_refl _)
  · rcases ht.recorded hjk with ⟨hold, heq⟩ | ⟨hnew, heq⟩
    · rcases ht.recorded hjl with ⟨hold', heq'⟩ | ⟨-, heq'⟩
      · rw [heq, heq']
        exact h.apart j k j' l hold hold' hne
      · rw [heq, heq']
        exact h.took_above ht hold
    · rcases ht.recorded hjl with ⟨hold', heq'⟩ | ⟨hnew', -⟩
      · rw [heq, heq']
        exact (h.took_above ht hold').symm
      · exact absurd (hnew.trans hnew'.symm) hne

theorem Inv.page (h : s.Inv alloc base top) (halloc : alloc ≠ 0) {i : Nat} (hi : i < s.count) :
    (s.put i (allocPtPage s.mem (s.vs i)).2.1 (allocPtPage s.mem (s.vs i)).2.2).Inv
      alloc base top := by
  have hvs := h.shared i hi
  have houtcome := allocPtPage_outcome s.mem (s.vs i)
  generalize allocPtPage s.mem (s.vs i) = r at houtcome ⊢
  cases houtcome with
  | refused =>
    show (s.put i s.mem (s.vs i)).Inv alloc base top
    rw [put, Function.update_eq_self]
    exact h
  | pool c hnull => exact absurd (hvs.symm.trans hnull) halloc
  | @frame c a _ hcaps hused htake =>
    rw [hvs] at htake
    obtain ⟨hpage, hready, hle⟩ := h.ready.page htake
    have hat : Function.update s.mem.allocs (s.vs i).alloc a alloc = a := by
      rw [hvs]
      exact Function.update_self ..
    refine h.took (i := i) (c := c)
      ⟨rfl, ?_, ?_, ⟨hcaps, hused⟩, put_vs_self .., fun j hj => put_vs_ne hj ..⟩ ?_
    · show _ ≤ (Function.update s.mem.allocs (s.vs i).alloc a alloc).next.toNat
      rw [hat]
      exact hle
    · show PageFrame _ (Function.update s.mem.allocs (s.vs i).alloc a alloc).next.toNat _ _
      rw [hat]
      exact hpage
    · show (Function.update s.mem.allocs (s.vs i).alloc a alloc).Ready base top
      rw [hat]
      exact hready

/-! ### Runs -/

theorem Inv.keptByPages (alloc : UInt64) (base top : Nat) (halloc : alloc ≠ 0) (s : Spaces)
    {i : Nat} (hi : i < s.count) : KeptByPages fun m vs => (s.put i m vs).Inv alloc base top where
  words := fun _ h => h.congr ⟨rfl, rfl, fun _ => ⟨rfl, rfl, rfl, rfl, rfl⟩⟩
  page := fun {m vs} h => by
    have hpage := h.page halloc (i := i) hi
    rw [put_vs_self, put_put] at hpage
    exact hpage

theorem Inv.map (h : s.Inv alloc base top) (halloc : alloc ≠ 0) {i : Nat} (hi : i < s.count)
    (vaddr paddr size : UInt64) (perms : UInt8) (color : UInt16) :
    (s.put i (vspaceMap s.mem (s.vs i) vaddr paddr size perms color).2.1
      (vspaceMap s.mem (s.vs i) vaddr paddr size perms color).2.2).Inv alloc base top := by
  have hself : (s.put i s.mem (s.vs i)).Inv alloc base top := by
    rw [put, Function.update_eq_self]
    exact h
  exact (Inv.keptByPages alloc base top halloc s hi).vspaceMap hself ..

theorem extend_vs_ne {j : Nat} (hj : j ≠ s.count) (asid partId : UInt32) :
    (s.extend asid partId alloc).vs j = s.vs j := put_vs_ne hj s s.mem _

theorem extend_recorded (asid partId : UInt32) {j k : Nat}
    (hjk : (s.extend asid partId alloc).Recorded j k) : j ≠ s.count ∧ s.Recorded j k := by
  obtain ⟨hj, hk⟩ := hjk
  have hj' : j < s.count + 1 := hj
  by_cases hnew : j = s.count
  · subst hnew
    rw [extend, put_vs_self] at hk
    exact absurd hk (Nat.not_lt_zero k)
  · rw [extend_vs_ne hnew] at hk
    exact ⟨hnew, by omega, hk⟩

theorem Inv.extend (h : s.Inv alloc base top) (asid partId : UInt32) :
    (s.extend asid partId alloc).Inv alloc base top := by
  refine ⟨h.ready, fun j hj => ?_, fun j hj => ?_, fun j k hjk => ?_,
    fun j k j' l hjk hjl hne => ?_⟩
  · have hj' : j < s.count + 1 := hj
    by_cases hnew : j = s.count
    · rw [hnew, Spaces.extend, put_vs_self]
      rfl
    · rw [extend_vs_ne hnew]
      exact h.shared j (by omega)
  · have hj' : j < s.count + 1 := hj
    by_cases hnew : j = s.count
    · rw [hnew, Spaces.extend, put_vs_self]
      exact ⟨rfl, Nat.zero_le 64⟩
    · rw [extend_vs_ne hnew]
      exact h.counts j (by omega)
  · obtain ⟨hne, hold⟩ := extend_recorded asid partId hjk
    rw [extend_vs_ne hne]
    exact h.frame j k hold
  · obtain ⟨hj, hold⟩ := extend_recorded asid partId hjk
    obtain ⟨hj', hold'⟩ := extend_recorded asid partId hjl
    rw [extend_vs_ne hj, extend_vs_ne hj']
    exact h.apart j k j' l hold hold' hne

theorem Inv.create (h : s.Inv alloc base top) (halloc : alloc ≠ 0) (asid partId : UInt32) :
    (s.step alloc (.create asid partId)).Inv alloc base top := by
  have hpage := (h.extend asid partId).page halloc (i := s.count) (Nat.lt_succ_self s.count)
  have hempty : (s.extend asid partId alloc).vs s.count = VSpace.empty asid partId alloc := by
    rw [Spaces.extend, put_vs_self]
  rw [hempty] at hpage
  have hother : ∀ j, j ≠ s.count → (s.step alloc (.create asid partId)).vs j = s.vs j :=
    fun j hj => Function.update_of_ne hj ..
  have hnew : (s.step alloc (.create asid partId)).vs s.count =
      { (allocPtPage s.mem (VSpace.empty asid partId alloc)).2.2 with
        root := (allocPtPage s.mem (VSpace.empty asid partId alloc)).1 } := by
    show Function.update s.vs s.count (vspaceInitWithAlloc s.mem asid partId alloc).2.2 s.count = _
    rw [Function.update_self, vspaceInitWithAlloc_snd]
  -- the root is set in the end, and nothing recorded depends on it
  refine hpage.congr ⟨rfl, ?_, fun j => ?_⟩
  · show (vspaceInitWithAlloc s.mem asid partId alloc).2.1.allocs = _
    rw [vspaceInitWithAlloc_snd]
    rfl
  · by_cases hj : j = s.count
    · subst hj
      rw [put_vs_self, hnew]
      exact ⟨rfl, rfl, rfl, rfl, rfl⟩
    · rw [put_vs_ne hj, extend_vs_ne hj, hother j hj]
      exact ⟨rfl, rfl, rfl, rfl, rfl⟩

theorem step_inv (halloc : alloc ≠ 0) (s : Spaces) (c : SpaceCall) (h : s.Inv alloc base top) :
    (s.step alloc c).Inv alloc base top := by
  cases c with
  | create asid partId => exact h.create halloc asid partId
  | map i vaddr paddr size perms color =>
    show Inv alloc base top (if i < s.count then _ else s)
    split_ifs with hi
    · exact h.map halloc hi ..
    · exact h

theorem start_inv {m : Memory} (h : (m.allocs alloc).Ready base top) :
    (start m).Inv alloc base top where
  ready := h
  shared := fun i hi => absurd hi (Nat.not_lt_zero i)
  counts := fun i hi => absurd hi (Nat.not_lt_zero i)
  frame := fun i _ hik => absurd hik.1 (Nat.not_lt_zero i)
  apart := fun i _ _ _ hik => absurd hik.1 (Nat.not_lt_zero i)

end Spaces

theorem allocInit_ready {base size : UInt64} (haligned : PageAligned base)
    (hsmall : base.toNat + size.toNat < 2 ^ 63) :
    (allocInit base size).Ready base.toNat (allocInit base size).top.toNat := by
  have htop : (allocInit base size).top.toNat = base.toNat + size.toNat := by
    show (base + size).toNat = _
    rw [UInt64.toNat_add, Nat.mod_eq_of_lt (by omega)]
  exact ⟨Nat.le_refl _, by rw [htop]; exact Nat.le_add_right .., rfl, by omega, haligned⟩

/-- Whatever address spaces are created over one allocator and in whatever order they are
mapped, their page-table frames are single pages of the allocator's range, each of the
colour of its owner and apart from all the others, and both counters agree. -/
theorem page_table_frames_private {m : Memory} {alloc : UInt64} (halloc : alloc ≠ 0)
    (hready : (m.allocs alloc).Ready (m.allocs alloc).base.toNat (m.allocs alloc).top.toNat)
    (calls : List SpaceCall) :
    let s := Run.exec (Spaces.step alloc) (Spaces.start m) calls
    (∀ i k, s.Recorded i k →
      PageFrame (m.allocs alloc).base.toNat (m.allocs alloc).top.toNat (s.vs i).partitionId
        ((s.vs i).ptCaps k)) ∧
    (∀ i k j l, s.Recorded i k → s.Recorded j l → (i, k) ≠ (j, l) →
      Disjoint ((s.vs i).ptCaps k).pageRange ((s.vs j).ptCaps l).pageRange) ∧
    ∀ i, i < s.count →
      (s.vs i).ptCapsCount = (s.vs i).ptPagesUsed ∧ (s.vs i).ptCapsCount.toNat ≤ 64 := by
  intro s
  have hinv : s.Inv alloc (m.allocs alloc).base.toNat (m.allocs alloc).top.toNat :=
    Run.exec_invariant_of_forall (Spaces.step_inv halloc) calls (Spaces.start_inv hready)
  refine ⟨fun i k hik => ?_, hinv.apart, hinv.counts⟩
  exact (hinv.frame i k hik).widen (Nat.le_refl _) hinv.ready.high

/-- Two address spaces over the pool of `kernel_boot`, with a mapping for each. -/
def twoSpaces : List SpaceCall :=
  [.create 1 0, .create 2 1, .map 0 0x1000 0x80400000 0x1000 3 0,
    .map 1 0x2000 0x80402000 0x1000 3 2]

def sharedPool : Memory :=
  { allocs := fun _ => bootAlloc, words := fun _ => 0, fallbackPool := 0, fallbackNext := 0 }

theorem page_table_frames_two_spaces :
    (Run.exec (Spaces.step 1) (Spaces.start sharedPool) twoSpaces).Recorded 0 2 ∧
      (Run.exec (Spaces.step 1) (Spaces.start sharedPool) twoSpaces).Recorded 1 2 ∧
      Disjoint
        (((Run.exec (Spaces.step 1) (Spaces.start sharedPool) twoSpaces).vs 0).ptCaps 2).pageRange
        (((Run.exec (Spaces.step 1) (Spaces.start sharedPool) twoSpaces).vs 1).ptCaps 2).pageRange := by
  have hready : (sharedPool.allocs 1).Ready (sharedPool.allocs 1).base.toNat
      (sharedPool.allocs 1).top.toNat := allocInit_ready (by decide) (by decide)
  have hfirst : (Run.exec (Spaces.step 1) (Spaces.start sharedPool) twoSpaces).Recorded 0 2 :=
    ⟨by decide +kernel, by decide +kernel⟩
  have hsecond : (Run.exec (Spaces.step 1) (Spaces.start sharedPool) twoSpaces).Recorded 1 2 :=
    ⟨by decide +kernel, by decide +kernel⟩
  exact ⟨hfirst, hsecond, (page_table_frames_private (by decide) hready twoSpaces).2.1 0 2 1 2
    hfirst hsecond (by decide)⟩

end Moonlight
