/-
Cache colours of the pages that `vspace_map` installs.

`vspace_map` looks at the colour of the first virtual address and not at the physical
range.  What a call has installed is read off the page tables after it: it is what the
pages of the range resolve to.
-/
import Moonlight.Memory.Coloring
import Moonlight.Memory.PartialMap

namespace Moonlight

/-! ### The partition of an address space -/

theorem vspaceMap_partitionId (m : Memory) (vs : VSpace) (vaddr paddr size : UInt64) (perms : UInt8)
    (color : UInt16) :
    (vspaceMap m vs vaddr paddr size perms color).2.2.partitionId = vs.partitionId :=
  (keptByPages_partitionId vs.partitionId).vspaceMap rfl ..

theorem ptInit_partitionId (m : Memory) (asid partId : UInt32) (alloc : UInt64) :
    (ptInit m asid partId alloc).vs.partitionId = partId := by
  unfold ptInit vspaceInitWithAlloc
  simp only
  split_ifs <;> exact allocPtPage_partitionId ..

theorem ptStep_partitionId (s : PtState) (c : PtCall) :
    (ptStep s c).vs.partitionId = s.vs.partitionId := by
  cases c with
  | map => exact vspaceMap_partitionId ..
  | unmap => rfl

/-! ### The pages a mapping installs -/

/-- The arguments of `vspace_map`. -/
structure MapRequest where
  vaddr : UInt64
  paddr : UInt64
  size : UInt64
  perms : UInt8
  color : UInt16

def MapRequest.toCall (r : MapRequest) : PtCall := .map r.vaddr r.paddr r.size r.perms r.color

/-- The error code of the call. -/
def MapRequest.result (r : MapRequest) (s : PtState) : KError :=
  (vspaceMap s.mem s.vs r.vaddr r.paddr r.size r.perms r.color).1

/-- The physical pages that the first `n` pages from `vaddr` on resolve to. -/
def resolvedPages (s : PtState) (vaddr : UInt64) (n : Nat) : List UInt64 :=
  (List.range n).filterMap fun i => vspaceResolve s.mem s.vs (pageAt vaddr i)

/-- The offset of a page-aligned address is zero. -/
theorem PageAligned.or_offset {va : UInt64} (h : PageAligned va) (i : Nat) (pa : UInt64) :
    pa ||| (pageAt va i &&& 0xFFF) = pa := by
  have hoffset : pageAt va i &&& 0xFFF = 0 := by
    apply UInt64.toNat_inj.mp
    rw [UInt64.toNat_and]
    exact (Nat.and_two_pow_sub_one_eq_mod _ 12).trans (h.add_pages i)
  rw [hoffset]
  exact UInt64.or_zero

/-- After a call that succeeds the pages of its range resolve to those from `paddr` on. -/
theorem MapRequest.resolvedPages_of_ok {r : MapRequest} {s : PtState} (h : PtReady s)
    (hok : r.result s = .ok) :
    resolvedPages (ptStep s r.toCall) r.vaddr (pagesIn r.size) =
      (List.range (pagesIn r.size)).map (pageAt r.paddr) := by
  obtain ⟨k, hprefix, hall, -⟩ := h.map_prefix r.vaddr r.paddr r.size r.perms r.color
  obtain ⟨hchecks, rfl⟩ := hall hok
  have hva : PageAligned r.vaddr := (pageAligned_iff r.vaddr).mpr hchecks.aligned.1
  rw [resolvedPages, ← List.filterMap_eq_map]
  refine List.filterMap_congr fun i hi => ?_
  obtain ⟨-, hafter⟩ := hprefix.mapped i (List.mem_range.mp hi) (pageAt r.vaddr i) ⟨rfl, rfl⟩
  exact hafter.trans (congrArg some (hva.or_offset i _))

/-! ### Runs of mappings -/

/-- An address space with the physical pages that successful calls installed. -/
structure MapHistory extends PtState where
  installed : List UInt64

def MapHistory.step (h : MapHistory) (r : MapRequest) : MapHistory :=
  let s' := ptStep h.toPtState r.toCall
  { toPtState := s'
    installed :=
      if r.result h.toPtState = .ok then
        h.installed ++ resolvedPages s' r.vaddr (pagesIn r.size)
      else h.installed }

/-- Every page has one of the two colours of the partition. -/
def ColorsOwned (partitionId : UInt32) (pages : List UInt64) : Prop :=
  ∀ pa ∈ pages, allocColorIsValid partitionId (colorOf pa).toUInt16 = true

/-- The range is empty or lies in the partition's two colours: two pages from the
first, or one from the second. -/
def MapRequest.Conforms (partitionId : UInt32) (r : MapRequest) : Prop :=
  pagesIn r.size = 0 ∨
    ((colorOf r.paddr).toNat = 2 * partitionId.toNat ∧ pagesIn r.size ≤ 2) ∨
      ((colorOf r.paddr).toNat = 2 * partitionId.toNat + 1 ∧ pagesIn r.size ≤ 1)

instance (partitionId : UInt32) (r : MapRequest) : Decidable (r.Conforms partitionId) :=
  inferInstanceAs (Decidable (_ ∨ _ ∨ _))

theorem allocColorIsValid_iff {p : UInt32} (hp : p < 8) (pa : UInt64) :
    allocColorIsValid p (colorOf pa).toUInt16 = true ↔
      (colorOf pa).toNat = 2 * p.toNat ∨ (colorOf pa).toNat = 2 * p.toNat + 1 := by
  have hlt : p.toNat < 8 := UInt32.lt_iff_toNat_lt.mp hp
  have hcolor := toNat_colorOf_lt pa
  have hbase := toNat_allocColorForPartition hp
  have hnext : (allocColorForPartition p + 1).toNat = 2 * p.toNat + 1 := by
    rw [UInt16.toNat_add, hbase]
    show (2 * p.toNat + 1) % 2 ^ 16 = _
    omega
  have hnarrow : (colorOf pa).toUInt16.toNat = (colorOf pa).toNat := by
    rw [UInt64.toNat_toUInt16]
    omega
  rw [allocColorIsValid, decide_eq_true_iff, ← UInt16.toNat_inj, ← UInt16.toNat_inj, hnarrow,
    hbase, hnext]

/-- The colours of consecutive pages, one above the other modulo sixteen. -/
theorem colorsOwned_range_iff {r : MapRequest} {p : UInt32} (hp : p < 8) :
    ColorsOwned p ((List.range (pagesIn r.size)).map (pageAt r.paddr)) ↔ r.Conforms p := by
  have hlt : p.toNat < 8 := UInt32.lt_iff_toNat_lt.mp hp
  have hcolor := toNat_colorOf_lt r.paddr
  have hpage : ColorsOwned p ((List.range (pagesIn r.size)).map (pageAt r.paddr)) ↔
      ∀ i, i < pagesIn r.size → ((colorOf r.paddr).toNat + i) % 16 = 2 * p.toNat ∨
        ((colorOf r.paddr).toNat + i) % 16 = 2 * p.toNat + 1 := by
    rw [ColorsOwned, List.forall_mem_map]
    simp only [List.mem_range, allocColorIsValid_iff hp, colorOf_pageAt]
  rw [hpage, MapRequest.Conforms]
  constructor
  · intro h
    by_cases hzero : pagesIn r.size = 0
    · exact Or.inl hzero
    -- the first page fixes the colour, the page after the last owned colour the size
    have hfirst := h 0 (by omega)
    have hsecond := h 1
    have hthird := h 2
    omega
  · intro h i hi
    omega

theorem MapHistory.step_partitionId (h : MapHistory) (r : MapRequest) :
    (h.step r).vs.partitionId = h.vs.partitionId := ptStep_partitionId ..

/-- One call adds pages of the partition's colours exactly when it fails or conforms. -/
theorem MapHistory.step_owned_iff {h : MapHistory} (hready : PtReady h.toPtState)
    (hp : h.vs.partitionId < 8) (r : MapRequest) :
    ColorsOwned h.vs.partitionId (h.step r).installed ↔
      ColorsOwned h.vs.partitionId h.installed ∧
        (r.result h.toPtState = .ok → r.Conforms h.vs.partitionId) := by
  unfold MapHistory.step
  by_cases hok : r.result h.toPtState = .ok
  · simp only [hok, if_true, true_implies]
    rw [r.resolvedPages_of_ok hready hok, ← colorsOwned_range_iff hp]
    exact List.forall_mem_append
  · simp only [if_neg hok]
    exact ⟨fun howned => ⟨howned, fun hok' => absurd hok' hok⟩, fun howned => howned.1⟩

/-- The calls that succeed stay in the colours of the partition. -/
def CallsConform (h : MapHistory) (r : MapRequest) : Prop :=
  r.result h.toPtState = .ok → r.Conforms h.vs.partitionId

theorem MapHistory.run_owned_iff {h : MapHistory} (hready : PtReady h.toPtState)
    (hp : h.vs.partitionId < 8) (rs : List MapRequest) :
    ColorsOwned h.vs.partitionId (Run.exec MapHistory.step h rs).installed ↔
      ColorsOwned h.vs.partitionId h.installed ∧ Run.Guarded MapHistory.step CallsConform h rs := by
  induction rs generalizing h with
  | nil => exact ⟨fun howned => ⟨howned, trivial⟩, fun howned => howned.1⟩
  | cons r rs ih =>
    have hpart := h.step_partitionId r
    have hrest := ih (h := h.step r) (ptStep_ready hready r.toCall) (by rw [hpart]; exact hp)
    rw [hpart] at hrest
    rw [Run.exec_cons, hrest, h.step_owned_iff hready hp, and_assoc]
    rfl

/-- The address space of partition `p` after some calls, with nothing recorded yet. -/
def mapStart (m : Memory) (asid p : UInt32) (alloc : UInt64) (calls : List PtCall) : MapHistory :=
  { toPtState := Run.exec ptStep (ptInit m asid p alloc) calls, installed := [] }

/-- Every run of `vspace_map` keeps to the partition's colours exactly when each call
that succeeds does. -/
theorem vspaceMap_colors_owned_iff {m : Memory} {asid p : UInt32} {alloc : UInt64}
    (haligned : AlignedPages m alloc) (hinit : (vspaceInitWithAlloc m asid p alloc).1 = .ok)
    (hp : p < 8) (calls : List PtCall) (rs : List MapRequest) :
    ColorsOwned p (Run.exec MapHistory.step (mapStart m asid p alloc calls) rs).installed ↔
      Run.Guarded MapHistory.step CallsConform (mapStart m asid p alloc calls) rs := by
  have hpart : (mapStart m asid p alloc calls).vs.partitionId = p :=
    Run.exec_invariant_of_forall (fun s c h => (ptStep_partitionId s c).trans h) calls
      (ptInit_partitionId m asid p alloc)
  have hready : PtReady (mapStart m asid p alloc calls).toPtState :=
    ptReady_exec haligned hinit calls
  have hrun := MapHistory.run_owned_iff hready (by rwa [hpart]) rs
  rw [hpart] at hrun
  have hnil : ColorsOwned p [] := fun _ h => nomatch h
  exact hrun.trans ⟨fun h => h.2, fun h => ⟨hnil, h⟩⟩

/-- The two pages of colours 2 and 3. -/
def ownedPages : MapRequest :=
  { vaddr := 0x10000000, paddr := 0x80202000, size := 0x2000, perms := 3, color := 0 }

/-- A new address space of partition 1. -/
def partitionOne : MapHistory := mapStart testMemory 1 1 8 []

theorem vspaceMap_colors_owned_two_pages :
    ownedPages.result partitionOne.toPtState = .ok ∧
      (Run.exec MapHistory.step partitionOne [ownedPages]).installed = [0x80202000, 0x80203000] ∧
      ColorsOwned 1 (Run.exec MapHistory.step partitionOne [ownedPages]).installed := by
  have hinit : (vspaceInitWithAlloc testMemory 1 1 8).1 = .ok := by decide +kernel
  have howned := (vspaceMap_colors_owned_iff alignedPages_testMemory hinit (by decide) []
    [ownedPages]).mpr ⟨fun _ => by decide +kernel, trivial⟩
  exact ⟨by decide +kernel, by decide +kernel, howned⟩

/-- A page of colour 0, which belongs to the kernel's partition. -/
def foreignPage : MapRequest :=
  { vaddr := 0x10000000, paddr := 0x80200000, size := 0x1000, perms := 3, color := 0 }

theorem vspaceMap_installs_foreign_color :
    AlignedPages testMemory 8 ∧ (vspaceInitWithAlloc testMemory 1 1 8).1 = .ok ∧
      foreignPage.result partitionOne.toPtState = .ok ∧
      (Run.exec MapHistory.step partitionOne [foreignPage]).installed = [0x80200000] ∧
      ¬ ColorsOwned 1 (Run.exec MapHistory.step partitionOne [foreignPage]).installed := by
  have hinstalled : (Run.exec MapHistory.step partitionOne [foreignPage]).installed =
      [0x80200000] := by decide +kernel
  refine ⟨alignedPages_testMemory, by decide +kernel, by decide +kernel, hinstalled,
    fun howned => ?_⟩
  rw [hinstalled] at howned
  exact absurd (howned 0x80200000 List.mem_cons_self) (by decide)

end Moonlight
