/-
Sv39 address spaces, as the RISC-V build runs them.

Page-table entries live in physical memory: `words` maps the address of a cell
to the 64-bit value it holds, and a table pointer plus eight times an index is
the address of an entry.  Allocators are found through the pointer the address
space keeps, with zero for null; without one, pages come from the static pool of
`alloc_pt_page`.

The fields `base` and `length` are cleared at creation and never read; they are
left out.
-/
import Moonlight.Memory.Alloc

namespace Moonlight

/-- `vspace_t`. -/
structure VSpace where
  root : UInt64
  asid : UInt32
  partitionId : UInt32
  ptPagesUsed : UInt32
  alloc : UInt64
  ptCaps : Nat → Cap
  ptCapsCount : UInt32

/-- The memory the paging code works on: allocators, page-table cells and the
static pool with its counter. -/
structure Memory where
  allocs : UInt64 → FrameAlloc
  words : UInt64 → UInt64
  fallbackPool : UInt64
  fallbackNext : UInt32

/-- `memset(p, 0, PAGE_SIZE)`. -/
def zeroPage (words : UInt64 → UInt64) (p : UInt64) : UInt64 → UInt64 :=
  fun a => if a - p < pageSize then 0 else words a

def pteV : UInt64 := 1

def pteEncode (ppn flags : UInt64) : UInt64 := (ppn <<< 10) ||| flags

def ptePpn (pte : UInt64) : UInt64 := pte >>> 10

/-- The address of `table[i]`. -/
def pteAddr (table i : UInt64) : UInt64 := table + 8 * i

/-- The table an entry points to, `(pte_t*)(pte_ppn(e) << 12)`. -/
def pteTable (pte : UInt64) : UInt64 := ptePpn pte <<< 12

def vpn2 (va : UInt64) : UInt64 := (va >>> 30) &&& 0x1FF

def vpn1 (va : UInt64) : UInt64 := (va >>> 21) &&& 0x1FF

def vpn0 (va : UInt64) : UInt64 := (va >>> 12) &&& 0x1FF

/-- The bookkeeping for one more page-table page backed by `c`. -/
def VSpace.recordPage (vs : VSpace) (c : Cap) : VSpace :=
  { vs with
    ptCaps := Function.update vs.ptCaps vs.ptCapsCount.toNat c
    ptCapsCount := vs.ptCapsCount + 1
    ptPagesUsed := vs.ptPagesUsed + 1 }

/-- `alloc_pt_page`.  A page at address zero is handed out and zeroed like any
other, but the caller takes its pointer for a failure. -/
def allocPtPage (m : Memory) (vs : VSpace) : UInt64 × Memory × VSpace :=
  if vs.ptCapsCount ≥ 64 then (0, m, vs)
  else if vs.ptPagesUsed ≥ 64 then (0, m, vs)
  else if vs.alloc ≠ 0 then
    match allocFrame (m.allocs vs.alloc) vs.partitionId pageSize with
    | (.ok, some c, a) =>
      (c.u.framePaddr,
        { m with
          allocs := Function.update m.allocs vs.alloc a
          words := zeroPage m.words c.u.framePaddr },
        vs.recordPage c)
    | _ => (0, m, vs)
  else if m.fallbackNext ≥ 64 then (0, m, vs)
  else
    let p := m.fallbackPool + m.fallbackNext.toUInt64 * pageSize
    let color := allocColorForPartition vs.partitionId
    let dummy : Cap :=
      { type := .frame, rights := 0, badge := 0, isSealed := 1, isValid := 1, color := color
        u := Payload.ofFrame p color
        hwCap := { base := p, top := p + pageSize, addr := p, perms := 0, otype := 0, tag := 1,
                   sealed := 1 } }
    (p, { m with words := zeroPage m.words p, fallbackNext := m.fallbackNext + 1 },
      vs.recordPage dummy)

/-- An address space before its root page is allocated. -/
def VSpace.empty (asid partId : UInt32) (alloc : UInt64) : VSpace :=
  { root := 0, asid := asid, partitionId := partId, ptPagesUsed := 0, alloc := alloc,
    ptCaps := fun _ => Cap.zero, ptCapsCount := 0 }

/-- `vspace_init_with_alloc` on a non-null address space. -/
def vspaceInitWithAlloc (m : Memory) (asid partId : UInt32) (alloc : UInt64) :
    KError × Memory × VSpace :=
  let r := allocPtPage m (VSpace.empty asid partId alloc)
  let vs' : VSpace := { r.2.2 with root := r.1 }
  if r.1 = 0 then (.noMem, r.2.1, vs') else (.ok, r.2.1, vs')

/-- Follow the entry at address `cell` to the next table, allocating it when the
entry is not valid.  The code of `vspace_map` for levels 2 and 1. -/
def descend (m : Memory) (vs : VSpace) (cell : UInt64) : Option UInt64 × Memory × VSpace :=
  if m.words cell &&& pteV = 0 then
    let r := allocPtPage m vs
    if r.1 = 0 then (none, r.2.1, r.2.2)
    else
      let pte := pteEncode (r.1 >>> 12) pteV
      (some (pteTable pte),
        { r.2.1 with words := Function.update r.2.1.words cell pte }, r.2.2)
  else (some (pteTable (m.words cell)), m, vs)

/-- One iteration of the loop of `vspace_map`. -/
def mapPage (m : Memory) (vs : VSpace) (va pa flags : UInt64) : KError × Memory × VSpace :=
  match descend m vs (pteAddr vs.root (vpn2 va)) with
  | (none, m₁, vs₁) => (.noMem, m₁, vs₁)
  | (some l1, m₁, vs₁) =>
    match descend m₁ vs₁ (pteAddr l1 (vpn1 va)) with
    | (none, m₂, vs₂) => (.noMem, m₂, vs₂)
    | (some l0, m₂, vs₂) =>
      let cell := pteAddr l0 (vpn0 va)
      if m₂.words cell &&& pteV ≠ 0 then (.invalidArg, m₂, vs₂)
      else
        (.ok, { m₂ with words := Function.update m₂.words cell (pteEncode (pa >>> 12) flags) },
          vs₂)

/-- The loop over the pages of the range; the first failing page ends it. -/
def mapLoop : Nat → Memory → VSpace → UInt64 → UInt64 → UInt64 → KError × Memory × VSpace
  | 0, m, vs, _, _, _ => (.ok, m, vs)
  | n + 1, m, vs, va, pa, flags =>
      match mapPage m vs va pa flags with
      | (.ok, m', vs') => mapLoop n m' vs' (va + pageSize) (pa + pageSize) flags
      | r => r

theorem mapLoop_of_error {n : Nat} {m m' : Memory} {vs vs' : VSpace} {va pa flags : UInt64}
    {e : KError} (h : mapPage m vs va pa flags = (e, m', vs')) (he : e ≠ .ok) :
    mapLoop (n + 1) m vs va pa flags = (e, m', vs') := by
  rw [mapLoop, h]
  cases e
  case ok => exact absurd rfl he
  all_goals rfl

/-- `PTE_V | PTE_A | PTE_D` with the permission bits and, outside the kernel
partition, `PTE_U`. -/
def pteFlags (partitionId : UInt32) (perms : UInt8) : UInt64 :=
  let flags : UInt64 := 0xC1
  let flags := if perms &&& 1 ≠ 0 then flags ||| 2 else flags
  let flags := if perms &&& 2 ≠ 0 then flags ||| 4 else flags
  let flags := if perms &&& 4 ≠ 0 then flags ||| 8 else flags
  let isKernel := partitionId = 0 ∧ perms &&& 4 ≠ 0
  if ¬ isKernel ∧ partitionId ≠ 0 then flags ||| 16 else flags

def vspaceMap (m : Memory) (vs : VSpace) (vaddr paddr size : UInt64) (perms : UInt8)
    (color : UInt16) : KError × Memory × VSpace :=
  if vs.root = 0 then (.invalidArg, m, vs)
  else if vaddr % pageSize ≠ 0 ∨ paddr % pageSize ≠ 0 ∨ size % pageSize ≠ 0 then
    (.invalidArg, m, vs)
  else if color % 2 ≠ 0 then (.invalidArg, m, vs)
  else if (colorOf vaddr).toUInt16 ≠ color ∧ color ≠ 0 then (.partitionDenied, m, vs)
  else mapLoop (size.toNat / 4096) m vs vaddr paddr (pteFlags vs.partitionId perms)

/-- One iteration of the loop of `vspace_unmap`; absent tables are skipped. -/
def unmapPage (words : UInt64 → UInt64) (root va : UInt64) : UInt64 → UInt64 :=
  let e2 := words (pteAddr root (vpn2 va))
  if e2 &&& pteV = 0 then words
  else
    let e1 := words (pteAddr (pteTable e2) (vpn1 va))
    if e1 &&& pteV = 0 then words
    else Function.update words (pteAddr (pteTable e1) (vpn0 va)) 0

def unmapLoop : Nat → (UInt64 → UInt64) → UInt64 → UInt64 → UInt64 → UInt64
  | 0, words, _, _ => words
  | n + 1, words, root, va => unmapLoop n (unmapPage words root va) root (va + pageSize)

def vspaceUnmap (m : Memory) (vs : VSpace) (vaddr size : UInt64) : KError × Memory :=
  if vs.root = 0 then (.invalidArg, m)
  else if vaddr % pageSize ≠ 0 ∨ size % pageSize ≠ 0 then (.invalidArg, m)
  else (.ok, { m with words := unmapLoop (size.toNat / 4096) m.words vs.root vaddr })

/-- `vspace_resolve`, with `none` for a false result. -/
def vspaceResolve (m : Memory) (vs : VSpace) (vaddr : UInt64) : Option UInt64 :=
  if vs.root = 0 then none
  else
    let e2 := m.words (pteAddr vs.root (vpn2 vaddr))
    if e2 &&& pteV = 0 then none
    else
      let e1 := m.words (pteAddr (pteTable e2) (vpn1 vaddr))
      if e1 &&& pteV = 0 then none
      else
        let e0 := m.words (pteAddr (pteTable e1) (vpn0 vaddr))
        if e0 &&& pteV = 0 then none
        else some ((ptePpn e0 <<< 12) ||| (vaddr &&& 0xFFF))

/-! ### Properties the mapping code keeps -/

/-- A property of the allocators and of the records of an address space: it does not see
the page tables, and `alloc_pt_page` keeps it.  The rest of `vspace_map` writes table
entries only, so it keeps the property as well. -/
structure KeptByPages (P : Memory → VSpace → Prop) : Prop where
  words : ∀ {m : Memory} {vs : VSpace} (words : UInt64 → UInt64), P m vs →
    P { m with words := words } vs
  page : ∀ {m : Memory} {vs : VSpace}, P m vs → P (allocPtPage m vs).2.1 (allocPtPage m vs).2.2

namespace KeptByPages

variable {P : Memory → VSpace → Prop} {m : Memory} {vs : VSpace}

theorem descend (hP : KeptByPages P) (h : P m vs) (cell : UInt64) :
    P (descend m vs cell).2.1 (descend m vs cell).2.2 := by
  have hpage := hP.page h
  unfold Moonlight.descend
  split_ifs
  · simp only
    split_ifs
    · exact hpage
    · exact hP.words _ hpage
  · exact h

theorem mapPage (hP : KeptByPages P) (h : P m vs) (va pa flags : UInt64) :
    P (mapPage m vs va pa flags).2.1 (mapPage m vs va pa flags).2.2 := by
  have h₁ := hP.descend h (pteAddr vs.root (vpn2 va))
  unfold Moonlight.mapPage
  split
  · next m₁ vs₁ heq =>
    rw [heq] at h₁
    exact h₁
  · next l1 m₁ vs₁ heq =>
    rw [heq] at h₁
    have h₂ := hP.descend h₁ (pteAddr l1 (vpn1 va))
    split
    · next m₂ vs₂ heq' =>
      rw [heq'] at h₂
      exact h₂
    · next l0 m₂ vs₂ heq' =>
      rw [heq'] at h₂
      simp only
      split_ifs
      · exact h₂
      · exact hP.words _ h₂

theorem mapLoop (hP : KeptByPages P) (n : Nat) (h : P m vs) (va pa flags : UInt64) :
    P (mapLoop n m vs va pa flags).2.1 (mapLoop n m vs va pa flags).2.2 := by
  induction n generalizing m vs va pa with
  | zero => exact h
  | succ n ih =>
    have hpage := hP.mapPage h va pa flags
    rw [Moonlight.mapLoop]
    split
    · next m' vs' heq =>
      rw [heq] at hpage
      exact ih hpage _ _
    · exact hpage

theorem vspaceMap (hP : KeptByPages P) (h : P m vs) (vaddr paddr size : UInt64) (perms : UInt8)
    (color : UInt16) :
    P (vspaceMap m vs vaddr paddr size perms color).2.1
      (vspaceMap m vs vaddr paddr size perms color).2.2 := by
  unfold Moonlight.vspaceMap
  split_ifs
  · exact h
  · exact h
  · exact h
  · exact h
  · exact hP.mapLoop _ h ..

end KeptByPages

theorem allocPtPage_partitionId (m : Memory) (vs : VSpace) :
    (allocPtPage m vs).2.2.partitionId = vs.partitionId := by
  unfold allocPtPage
  split_ifs
  · rfl
  · rfl
  · split <;> rfl
  · rfl
  · rfl

theorem keptByPages_partitionId (p : UInt32) : KeptByPages fun _ vs => vs.partitionId = p where
  words := fun _ h => h
  page := fun h => (allocPtPage_partitionId ..).trans h

end Moonlight
