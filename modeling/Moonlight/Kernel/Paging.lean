/-
The address space `kernel_boot` sets up.

Boot and `vga_init` map five ranges to themselves: the kernel image, the UART, the
framebuffer, the registers of the display and the configuration space of the bus.  The
tables for them come from the pool that the processes get their stacks from later.
-/
import Mathlib.Order.Interval.Finset.Nat
import Moonlight.Memory.PageMap
import Moonlight.Memory.Switch
import Moonlight.Memory.TableDemand

namespace Moonlight

/-! ### Mapping ranges to themselves -/

structure IdMap where
  vaddr : UInt64
  size : UInt64
  perms : UInt8

/-- Calls of `vspace_map` with one address for both sides; the first that fails is the
last. -/
def identityMaps : Memory → VSpace → List IdMap → KError × Memory × VSpace
  | m, vs, [] => (.ok, m, vs)
  | m, vs, r :: rs =>
      let t := vspaceMap m vs r.vaddr r.vaddr r.size r.perms 0
      if t.1 ≠ .ok then t else identityMaps t.2.1 t.2.2 rs

theorem identityMaps_append (m : Memory) (vs : VSpace) (maps maps' : List IdMap) :
    identityMaps m vs (maps ++ maps') =
      if (identityMaps m vs maps).1 ≠ .ok then identityMaps m vs maps
      else identityMaps (identityMaps m vs maps).2.1 (identityMaps m vs maps).2.2 maps' := by
  induction maps generalizing m vs with
  | nil => rfl
  | cons r rs ih =>
    simp only [List.cons_append, identityMaps]
    by_cases hok : (vspaceMap m vs r.vaddr r.vaddr r.size r.perms 0).1 ≠ .ok
    · simp only [if_pos hok]
    · simp only [if_neg hok]
      exact ih _ _

namespace IdMap

def Covers (r : IdMap) (va : UInt64) : Prop := va - r.vaddr < r.size

instance (r : IdMap) (va : UInt64) : Decidable (r.Covers va) :=
  inferInstanceAs (Decidable (_ < _))

/-- A range of pages in the lower half of the address space, within one entry of the root
table. -/
structure Ok (r : IdMap) : Prop where
  aligned : PageAligned r.vaddr ∧ PageAligned r.size
  low : r.vaddr.toNat + r.size.toNat ≤ 2 ^ 38
  oneEntry : r.vaddr.toNat / 2 ^ 30 = (r.vaddr.toNat + r.size.toNat - 1) / 2 ^ 30

/-- The tables a range can need: one below the root, and one for every two megabytes. -/
def tables (r : IdMap) : Nat :=
  2 + ((r.vaddr.toNat + r.size.toNat - 1) / 2 ^ 21 - r.vaddr.toNat / 2 ^ 21)

variable {r : IdMap} {va : UInt64}

theorem covers_iff (h : r.Ok) :
    r.Covers va ↔ r.vaddr.toNat ≤ va.toNat ∧ va.toNat < r.vaddr.toNat + r.size.toNat := by
  have hlow := h.low
  have hva := va.toNat_lt
  rw [Covers, UInt64.lt_iff_toNat_lt, toNat_sub_eq]
  omega

theorem Ok.canonical (h : r.Ok) (hva : r.Covers va) : Canonical va := by
  have hlow := h.low
  have hcovers := (covers_iff h).mp hva
  exact Or.inl (by omega)

theorem Ok.covers_pageAt (h : r.Ok) {o : Nat} (ho : o < pagesIn r.size) :
    r.Covers (pageAt r.vaddr o) := by
  have hlow := h.low
  unfold pagesIn at ho
  rw [covers_iff h, pageAt, UInt64.toNat_add, UInt64.toNat_ofNat']
  omega

end IdMap

theorem mem_tablePaths {n : Nat} {va : UInt64} {q : List UInt64} (h : q ∈ tablePaths n va) :
    ∃ o, o < n ∧ (q = [vpn2 (pageAt va o)] ∨ q = vpnPath (pageAt va o)) := by
  induction n generalizing va with
  | zero => exact absurd h (Finset.notMem_empty q)
  | succ n ih =>
    simp only [tablePaths, Finset.mem_union, Finset.mem_insert, Finset.mem_singleton] at h
    obtain h | h := h
    · refine ⟨0, Nat.succ_pos n, ?_⟩
      rw [pageAt_zero]
      exact h
    · obtain ⟨o, ho, hq⟩ := ih h
      refine ⟨o + 1, Nat.succ_lt_succ ho, ?_⟩
      rw [pageAt_succ]
      exact hq

/-- The paths of a range within one entry of the root table. -/
theorem IdMap.Ok.card_tablePaths {r : IdMap} (h : r.Ok) :
    (tablePaths (pagesIn r.size) r.vaddr).card ≤ r.tables := by
  have hlow := h.low
  have hentry := h.oneEntry
  have hsub : tablePaths (pagesIn r.size) r.vaddr ⊆
      insert [vpn2 r.vaddr] ((Finset.Icc (r.vaddr.toNat / 2 ^ 21)
        ((r.vaddr.toNat + r.size.toNat - 1) / 2 ^ 21)).image
          fun j => [vpn2 r.vaddr, UInt64.ofNat (j % 512)]) := by
    intro q hq
    obtain ⟨o, ho, hq⟩ := mem_tablePaths hq
    have hcovers := (IdMap.covers_iff h).mp (h.covers_pageAt ho)
    have hvpn2 : vpn2 (pageAt r.vaddr o) = vpn2 r.vaddr := by
      rw [← UInt64.toNat_inj, toNat_vpn2, toNat_vpn2]
      omega
    rw [Finset.mem_insert, Finset.mem_image]
    obtain rfl | rfl := hq
    · exact Or.inl (by rw [hvpn2])
    · refine Or.inr ⟨(pageAt r.vaddr o).toNat / 2 ^ 21, Finset.mem_Icc.mpr ⟨by omega, by omega⟩, ?_⟩
      have hvpn1 : UInt64.ofNat ((pageAt r.vaddr o).toNat / 2 ^ 21 % 512) =
          vpn1 (pageAt r.vaddr o) := by
        rw [← UInt64.toNat_inj, toNat_vpn1, UInt64.toNat_ofNat']
        omega
      rw [hvpn1, ← hvpn2]
      rfl
  refine Nat.le_trans (Finset.card_le_card hsub) (Nat.le_trans (Finset.card_insert_le _ _) ?_)
  have himage := Finset.card_image_le (s := Finset.Icc (r.vaddr.toNat / 2 ^ 21)
    ((r.vaddr.toNat + r.size.toNat - 1) / 2 ^ 21))
    (f := fun j => [vpn2 r.vaddr, UInt64.ofNat (j % 512)])
  rw [Nat.card_Icc] at himage
  unfold IdMap.tables
  omega

/-- `vspace_map` changes neither the identifier nor the partition. -/
theorem keptByPages_header (asid partId : UInt32) :
    KeptByPages fun _ vs => vs.asid = asid ∧ vs.partitionId = partId where
  words := fun _ h => h
  page := fun {m vs} h => by
    have hasid : (allocPtPage m vs).2.2.asid = vs.asid := by
      unfold allocPtPage
      split_ifs
      · rfl
      · rfl
      · split <;> rfl
      · rfl
      · rfl
    exact ⟨hasid.trans h.1, (allocPtPage_partitionId m vs).trans h.2⟩

namespace Spaces

variable {alloc : UInt64} {base top : Nat} {s : Spaces} {i : Nat}

/-- An address space with a root, among the others over its allocator. -/
structure Live (alloc : UInt64) (base top : Nat) (s : Spaces) (i : Nat) : Prop where
  mapped : s.Mapped alloc base top
  index : i < s.count
  root_ne : (s.vs i).root ≠ 0

/-- The state `t` that mapping `maps` in address space `i` leaves. -/
structure MapsSelf (alloc : UInt64) (base top : Nat) (s : Spaces) (i : Nat) (maps : List IdMap)
    (t : Memory × VSpace) : Prop where
  live : (s.put i t.1 t.2).Live alloc base top i
  header : t.2.asid = (s.vs i).asid ∧ t.2.partitionId = (s.vs i).partitionId
  left : pagesLeft s.mem (s.vs i) ≤ pagesLeft t.1 t.2 + (maps.map IdMap.tables).sum
  resolves : ∀ va, Canonical va → vspaceResolve t.1 t.2 va =
    if ∃ r ∈ maps, r.Covers va then some va else s.translates i va

theorem put_mem (s : Spaces) (i : Nat) (m : Memory) (vs : VSpace) : (s.put i m vs).mem = m := rfl

theorem MapsSelf.trans {maps maps' : List IdMap} {t u : Memory × VSpace}
    (h : MapsSelf alloc base top s i maps t)
    (h' : MapsSelf alloc base top (s.put i t.1 t.2) i maps' u) :
    MapsSelf alloc base top s i (maps ++ maps') u where
  live := by
    have hlive := h'.live
    rw [put_put] at hlive
    exact hlive
  header := by
    have hheader := h'.header
    rw [put_vs_self] at hheader
    exact ⟨hheader.1.trans h.header.1, hheader.2.trans h.header.2⟩
  left := by
    have hleft := h.left
    have hleft' := h'.left
    rw [put_vs_self, put_mem] at hleft'
    rw [List.map_append, List.sum_append]
    omega
  resolves := by
    intro va hva
    rw [h'.resolves va hva, translates, put_vs_self, put_mem]
    by_cases hlast : ∃ r ∈ maps', r.Covers va
    · obtain ⟨r, hr, hcovers⟩ := hlast
      rw [if_pos ⟨r, hr, hcovers⟩, if_pos ⟨r, List.mem_append_right maps hr, hcovers⟩]
    · have hiff : (∃ r ∈ maps ++ maps', r.Covers va) ↔ ∃ r ∈ maps, r.Covers va := by
        simp only [List.mem_append, or_and_right, exists_or, hlast, or_false]
      rw [if_neg hlast, h.resolves va hva]
      simp only [hiff]

/-- One range that is free, with pages left for its tables. -/
theorem Live.identityMap (h : s.Live alloc base top i) (halloc : alloc ≠ 0) {r : IdMap}
    (hr : r.Ok) (hfree : ∀ va, r.Covers va → s.translates i va = none)
    (hleft : r.tables ≤ pagesLeft s.mem (s.vs i)) :
    (vspaceMap s.mem (s.vs i) r.vaddr r.vaddr r.size r.perms 0).1 = .ok ∧
      MapsSelf alloc base top s i [r]
        (vspaceMap s.mem (s.vs i) r.vaddr r.vaddr r.size r.perms 0).2 := by
  obtain ⟨hva', hsize⟩ := hr.aligned
  have hlow := hr.low
  have hmissing : (s.missingFor i r.vaddr r.size).card ≤ r.tables :=
    Nat.le_trans (Finset.card_filter_le _ _) hr.card_tablePaths
  obtain ⟨hiff, hsupplies, -⟩ :=
    h.mapped.map_ok_iff halloc h.index h.root_ne r.vaddr r.vaddr r.size r.perms 0
  have hok : (vspaceMap s.mem (s.vs i) r.vaddr r.vaddr r.size r.perms 0).1 = .ok := by
    refine hiff.mpr ⟨⟨⟨?_, ?_, ?_⟩, rfl, Or.inl rfl⟩, by omega, ?_, by omega⟩
    · exact (pageAligned_iff _).mp hva'
    · exact (pageAligned_iff _).mp hva'
    · exact (pageAligned_iff _).mp hsize
    · exact fun o ho => hfree _ (hr.covers_pageAt ho)
  obtain ⟨hkeeps, k, -, hall, hmaps⟩ :=
    h.mapped.map halloc h.index r.vaddr r.vaddr r.size r.perms 0
  obtain rfl := hall hok
  rw [put_vs_self, put_mem] at hmaps
  refine ⟨hok, ⟨hkeeps.mapped, h.index, ?_⟩, ?_, ?_, fun va hva => ?_⟩
  · rw [put_vs_self, (hsupplies hok).root]
    exact h.root_ne
  · exact (keptByPages_header _ _).vspaceMap ⟨rfl, rfl⟩ ..
  · have hpaid : pagesLeft _ _ + (s.missingFor i r.vaddr r.size).card = _ := (hsupplies hok).left
    rw [List.map_singleton, List.sum_singleton]
    omega
  · have hself : r.vaddr + (va - r.vaddr) = va := by rw [UInt64.add_comm, UInt64.sub_add_cancel]
    refine (hmaps.eq_absMap (canonicalRange_of_low hlow) hva' hva' hsize hva).trans ?_
    simp only [absMap, hself, List.mem_singleton, exists_eq_left, IdMap.Covers,
      UInt64.lt_iff_toNat_lt]
    rfl

theorem Live.identityMaps (h : s.Live alloc base top i) (halloc : alloc ≠ 0) {maps : List IdMap}
    (hmaps : ∀ r ∈ maps, r.Ok)
    (hapart : maps.Pairwise fun r r' => ∀ va, r.Covers va → ¬ r'.Covers va)
    (hfree : ∀ r ∈ maps, ∀ va, r.Covers va → s.translates i va = none)
    (hleft : (maps.map IdMap.tables).sum ≤ pagesLeft s.mem (s.vs i)) :
    (identityMaps s.mem (s.vs i) maps).1 = .ok ∧
      MapsSelf alloc base top s i maps (identityMaps s.mem (s.vs i) maps).2 := by
  induction maps generalizing s with
  | nil =>
    refine ⟨rfl, ⟨?_, ⟨rfl, rfl⟩, Nat.le_refl _, fun va _ => ?_⟩⟩
    · show (s.put i s.mem (s.vs i)).Live alloc base top i
      rw [put, Function.update_eq_self]
      exact h
    · simp only [List.not_mem_nil, false_and, exists_false, if_false]
      rfl
  | cons r rs ih =>
    have hr := hmaps r List.mem_cons_self
    rw [List.map_cons, List.sum_cons] at hleft
    obtain ⟨hok, hself⟩ := h.identityMap halloc hr (hfree r List.mem_cons_self) (by omega)
    have hspent := hself.left
    rw [List.map_singleton, List.sum_singleton] at hspent
    have hrun : identityMaps s.mem (s.vs i) (r :: rs) = identityMaps
        (vspaceMap s.mem (s.vs i) r.vaddr r.vaddr r.size r.perms 0).2.1
        (vspaceMap s.mem (s.vs i) r.vaddr r.vaddr r.size r.perms 0).2.2 rs := by
      rw [Moonlight.identityMaps]
      exact if_neg (not_not.mpr hok)
    rw [hrun]
    generalize vspaceMap s.mem (s.vs i) r.vaddr r.vaddr r.size r.perms 0 = t at *
    obtain ⟨hapart₁, hapart₂⟩ := List.pairwise_cons.mp hapart
    have hfree' : ∀ r' ∈ rs, ∀ va, r'.Covers va → (s.put i t.2.1 t.2.2).translates i va = none := by
      intro r' hr' va hva
      have hcanonical := (hmaps r' (List.mem_cons_of_mem r hr')).canonical hva
      rw [translates, put_vs_self]
      refine (hself.resolves va hcanonical).trans ?_
      rw [if_neg, hfree r' (List.mem_cons_of_mem r hr') va hva]
      rintro ⟨x, hx, hcovers⟩
      rw [List.mem_singleton.mp hx] at hcovers
      exact hapart₁ r' hr' va hcovers hva
    have hrest := ih hself.live (fun r' hr' => hmaps r' (List.mem_cons_of_mem r hr')) hapart₂ hfree'
    rw [put_vs_self, put_mem] at hrest
    obtain ⟨hok', hself'⟩ := hrest (by omega)
    exact ⟨hok', hself.trans hself'⟩

end Spaces

/-! ### Boot -/

/-- `(x + PAGE_SIZE-1) & ~(PAGE_SIZE-1)`. -/
def roundUp (x : UInt64) : UInt64 := (x + pageSize - 1) &&& ~~~(pageSize - 1)

/-- `k_size`, for a kernel image that ends at `kEnd`. -/
def kernelSize (kEnd : UInt64) : UInt64 :=
  let size := roundUp (kEnd - 0x80000000)
  if size < 0x400000 then 0x400000 else size

/-- The kernel image and the UART. -/
def kernelMaps (kEnd : UInt64) : List IdMap :=
  [⟨0x80000000, kernelSize kEnd, 7⟩, ⟨0x10000000, pageSize, 3⟩]

/-- The framebuffer, the registers of the display and the configuration space. -/
def vgaMaps : List IdMap :=
  [⟨0x40000000, roundUp (800 * 600 * (32 / 8)), 7⟩, ⟨0x41000000, pageSize, 7⟩,
    ⟨0x30000000, 0x1000000, 7⟩]

/-- The memory after `alloc_init`. -/
def bootMemory (m : Memory) (gAlloc : UInt64) : Memory :=
  { m with allocs := Function.update m.allocs gAlloc (allocInit 0x80400000 0x400000) }

/-- Step 5 of `kernel_boot`, with `none` for the loops that halt. -/
def bootPaging (m : Memory) (gAlloc kEnd : UInt64) : Option PtState :=
  let r := vspaceInitWithAlloc (bootMemory m gAlloc) 1 0 gAlloc
  if r.1 ≠ .ok then none
  else
    let t := identityMaps r.2.1 r.2.2 (kernelMaps kEnd)
    if t.1 ≠ .ok then none else some ⟨t.2.1, t.2.2⟩

/-- The mappings `vga_init` makes before it looks for the display. -/
def vgaInitMaps (s : PtState) : KError × PtState :=
  let t := identityMaps s.mem s.vs vgaMaps
  (t.1, ⟨t.2.1, t.2.2⟩)

theorem and_pageMask {x : Nat} (h : x < 2 ^ 64) :
    x &&& (2 ^ 12 * (2 ^ 52 - 1)) = x / 4096 * 4096 := by
  have hpage : x / 4096 * 4096 = 2 ^ 12 * (x / 2 ^ 12) := by omega
  rw [hpage]
  apply Nat.eq_of_testBit_eq
  intro i
  rw [Nat.testBit_and, Nat.testBit_two_pow_mul, Nat.testBit_two_pow_mul,
    Nat.testBit_two_pow_sub_one, Nat.testBit_div_two_pow]
  by_cases hi : 12 ≤ i
  · have hsum : 12 + (i - 12) = i := by omega
    rw [Nat.add_comm] at hsum
    by_cases htop : i < 64
    · simp [hi, hsum, show i - 12 < 52 by omega]
    · have hzero : x.testBit i = false :=
        Nat.testBit_lt_two_pow (Nat.lt_of_lt_of_le h (Nat.pow_le_pow_right (by omega) (by omega)))
      simp [hsum, hzero]
  · simp [hi]

theorem toNat_roundUp {x : UInt64} (h : x.toNat + 4096 ≤ 2 ^ 64) :
    (roundUp x).toNat = (x.toNat + 4095) / 4096 * 4096 := by
  have hsum : (x + pageSize - 1).toNat = x.toNat + 4095 := by
    rw [toNat_sub_eq, UInt64.toNat_add]
    show ((x.toNat + 4096) % 2 ^ 64 + 2 ^ 64 - 1) % 2 ^ 64 = _
    omega
  have hmask : (~~~(pageSize - 1)).toNat = 2 ^ 12 * (2 ^ 52 - 1) := by decide
  rw [roundUp, UInt64.toNat_and, hsum, hmask, and_pageMask (by omega)]

/-- The size of the image in pages, and four megabytes at least. -/
theorem toNat_kernelSize {kEnd : UInt64} (hlow : 0x80000000 ≤ kEnd.toNat)
    (hend : kEnd.toNat ≤ 0x85E00000) :
    PageAligned (kernelSize kEnd) ∧ 0x400000 ≤ (kernelSize kEnd).toNat ∧
      (kernelSize kEnd).toNat ≤ 0x5E00000 := by
  have hspan : (kEnd - 0x80000000).toNat = kEnd.toNat - 0x80000000 := by
    rw [toNat_sub_eq]
    show (kEnd.toNat + 2 ^ 64 - 0x80000000) % 2 ^ 64 = _
    omega
  have hsize := toNat_roundUp (x := kEnd - 0x80000000) (by omega)
  rw [hspan] at hsize
  simp only [kernelSize, PageAligned]
  by_cases hsmall : roundUp (kEnd - 0x80000000) < 0x400000
  · rw [if_pos hsmall]
    decide
  · have hlarge : 0x400000 ≤ (roundUp (kEnd - 0x80000000)).toNat :=
      UInt64.le_iff_toNat_le.mp (UInt64.not_lt.mp hsmall)
    rw [if_neg hsmall]
    omega

theorem bootMaps_ok {kEnd : UInt64} (hlow : 0x80000000 ≤ kEnd.toNat)
    (hend : kEnd.toNat ≤ 0x85E00000) : ∀ r ∈ kernelMaps kEnd ++ vgaMaps, r.Ok := by
  obtain ⟨haligned, hmin, hmax⟩ := toNat_kernelSize hlow hend
  intro r hr
  simp only [kernelMaps, vgaMaps, List.cons_append, List.nil_append, List.mem_cons,
    List.not_mem_nil, or_false] at hr
  obtain rfl | rfl | rfl | rfl | rfl := hr
  · refine ⟨⟨show PageAligned 0x80000000 by decide, haligned⟩, ?_, ?_⟩
    · show 0x80000000 + (kernelSize kEnd).toNat ≤ 2 ^ 38
      omega
    · show 0x80000000 / 2 ^ 30 = (0x80000000 + (kernelSize kEnd).toNat - 1) / 2 ^ 30
      omega
  · exact ⟨by decide, by decide, by decide⟩
  · exact ⟨by decide, by decide, by decide⟩
  · exact ⟨by decide, by decide, by decide⟩
  · exact ⟨by decide, by decide, by decide⟩

/-- The ranges lie one behind the other in some order. -/
theorem bootMaps_apart {kEnd : UInt64} (hlow : 0x80000000 ≤ kEnd.toNat)
    (hend : kEnd.toNat ≤ 0x85E00000) : (kernelMaps kEnd ++ vgaMaps).Pairwise
      fun r r' => ∀ va, r.Covers va → ¬ r'.Covers va := by
  have hok := bootMaps_ok hlow hend
  have hfb : (roundUp (800 * 600 * (32 / 8))).toNat = 0x1D5000 := by decide
  have hpage : pageSize.toNat = 0x1000 := rfl
  refine List.Pairwise.imp_of_mem (R := fun r r' : IdMap =>
    r.vaddr.toNat + r.size.toNat ≤ r'.vaddr.toNat ∨ r'.vaddr.toNat + r'.size.toNat ≤ r.vaddr.toNat)
    (fun {r r'} hr hr' hor va hva hva' => ?_) ?_
  · rw [IdMap.covers_iff (hok r hr)] at hva
    rw [IdMap.covers_iff (hok r' hr')] at hva'
    omega
  · simp only [kernelMaps, vgaMaps, List.cons_append, List.nil_append, List.pairwise_cons,
      List.mem_cons, List.not_mem_nil, or_false, forall_eq_or_imp, forall_eq, List.Pairwise.nil,
      and_true, false_imp_iff, imp_true_iff, hfb, hpage, UInt64.reduceToNat]
    omega

theorem sum_tables_le {kEnd : UInt64} (hlow : 0x80000000 ≤ kEnd.toNat)
    (hend : kEnd.toNat ≤ 0x85E00000) :
    ((kernelMaps kEnd ++ vgaMaps).map IdMap.tables).sum ≤ 63 := by
  obtain ⟨-, hmin, hmax⟩ := toNat_kernelSize hlow hend
  have hkernel : IdMap.tables ⟨0x80000000, kernelSize kEnd, 7⟩ ≤ 48 := by
    show 2 + ((0x80000000 + (kernelSize kEnd).toNat - 1) / 2 ^ 21 - 0x80000000 / 2 ^ 21) ≤ 48
    omega
  have huart : IdMap.tables ⟨0x10000000, pageSize, 3⟩ = 2 := by decide
  have hvga : (vgaMaps.map IdMap.tables).sum = 13 := by decide
  rw [List.map_append, List.sum_append, hvga]
  show IdMap.tables _ + (IdMap.tables _ + 0) + 13 ≤ 63
  omega

/-- A new address space resolves nothing, and has the pages left that its root has not
taken. -/
theorem newSpace_live {m : Memory} {alloc : UInt64} {base top : Nat}
    (asid : UInt32) {partId : UInt32} (halloc : alloc ≠ 0)
    (hready : (m.allocs alloc).Ready base top) (hpart : partId < 8)
    (hpos : 0 < (m.allocs alloc).next.toNat)
    (hroom : (m.allocs alloc).stridesLeft partId ≠ 0) :
    ∃ m' vs', vspaceInitWithAlloc m asid partId alloc = (.ok, m', vs') ∧
      (vs'.asid = asid ∧ vs'.partitionId = partId) ∧
      pagesLeft m' vs' = min 63 ((m.allocs alloc).stridesLeft partId - 1) ∧
      ∃ s : Spaces, s.mem = m' ∧ s.vs 0 = vs' ∧ s.Live alloc base top 0 ∧
        ∀ va, s.translates 0 va = none := by
  obtain ⟨hnone, -⟩ | ⟨c, a, heq, hpaddr, hleft⟩ := hready.takes_stride hpart
  · exact absurd hnone hroom
  have hne : c.u.framePaddr ≠ 0 := by
    intro hzero
    rw [hzero] at hpaddr
    exact absurd (Nat.lt_of_lt_of_le hpos hpaddr) (by decide)
  have hinit : vspaceInitWithAlloc m asid partId alloc = (.ok, { m with
      allocs := Function.update m.allocs alloc a
      words := zeroPage m.words c.u.framePaddr },
      { (VSpace.empty asid partId alloc).recordPage c with root := c.u.framePaddr }) := by
    simp [vspaceInitWithAlloc, allocPtPage, VSpace.empty, halloc, heq, hne]
  have hnew : ((Spaces.start m).step alloc (.create asid partId)).vs 0 =
      (vspaceInitWithAlloc m asid partId alloc).2.2 := by
    simp [Spaces.step, Spaces.start, Spaces.put]
  obtain ⟨hkeeps, hempty⟩ := (Spaces.start_mapped hready).create halloc asid partId
  refine ⟨_, _, hinit, ⟨rfl, rfl⟩, ?_, (Spaces.start m).step alloc (.create asid partId), ?_, ?_,
    ⟨hkeeps.mapped, Nat.one_pos, ?_⟩, hempty⟩
  · have hat : Function.update m.allocs alloc a alloc = a := Function.update_self ..
    simp only [pagesLeft, VSpace.recordPage, VSpace.empty, hat, if_pos hpart]
    show min (64 - 1) _ = _
    omega
  · show (vspaceInitWithAlloc m asid partId alloc).2.1 = _
    rw [hinit]
  · rw [hnew, hinit]
  · rw [hnew, hinit]
    exact hne

/-- The address is in one of the five ranges. -/
def BootMapped (kEnd va : UInt64) : Prop := ∃ r ∈ kernelMaps kEnd ++ vgaMaps, r.Covers va

instance (kEnd va : UInt64) : Decidable (BootMapped kEnd va) :=
  inferInstanceAs (Decidable (∃ r ∈ _, _))

/-- Boot does not halt in its paging steps, whatever the memory held before, for every
kernel image that ends below the pool of the page tables.  Afterwards the address space maps
the five ranges to themselves and nothing else.  The hardware sends an access at most to its
own address in one of them, and every access from user mode faults. -/
theorem boot_address_space (m : Memory) {gAlloc kEnd : UInt64} (halloc : gAlloc ≠ 0)
    (hlow : 0x80000000 ≤ kEnd.toNat) (hbelow : kEnd.toNat ≤ 0x80400000) :
    ∃ s, bootPaging m gAlloc kEnd = some s ∧ (vgaInitMaps s).1 = .ok ∧
      ∀ va, Canonical va →
        vspaceResolve (vgaInitMaps s).2.mem (vgaInitMaps s).2.vs va =
          (if BootMapped kEnd va then some va else none) ∧
        ∀ acc, Mmu.translate (vgaInitMaps s).2.mem.words (vspaceSwitch (vgaInitMaps s).2.vs)
            .user acc va = none ∧
          ∀ pa, Mmu.translate (vgaInitMaps s).2.mem.words (vspaceSwitch (vgaInitMaps s).2.vs)
            .supervisor acc va = some pa → pa = va ∧ BootMapped kEnd va := by
  have hend : kEnd.toNat ≤ 0x85E00000 := by omega
  have hat : (bootMemory m gAlloc).allocs gAlloc = allocInit 0x80400000 0x400000 :=
    Function.update_self ..
  have hready : ((bootMemory m gAlloc).allocs gAlloc).Ready 0x80400000 0x80800000 := by
    rw [hat]
    exact allocInit_ready (show PageAligned 0x80400000 by decide)
      (show (0x80400000 : UInt64).toNat + (0x400000 : UInt64).toNat < 2 ^ 63 by decide)
  have hstrides : ((bootMemory m gAlloc).allocs gAlloc).stridesLeft 0 = 64 := by
    rw [hat]
    decide
  obtain ⟨m₁, vs₁, hinit, hheader, hleft, s, hmem, hvs, hlive, hempty⟩ :=
    newSpace_live 1 halloc hready (show (0 : UInt32) < 8 by decide) (by rw [hat]; decide)
      (by rw [hstrides]; decide)
  rw [hstrides] at hleft
  subst hmem hvs
  obtain ⟨hok, hself⟩ := hlive.identityMaps halloc (bootMaps_ok hlow hend)
    (bootMaps_apart hlow hend) (fun _ _ va _ => hempty va)
    (by rw [hleft]; exact sum_tables_le hlow hend)
  have happend := identityMaps_append s.mem (s.vs 0) (kernelMaps kEnd) vgaMaps
  have hkernel : (identityMaps s.mem (s.vs 0) (kernelMaps kEnd)).1 = .ok := by
    by_contra hne
    rw [happend, if_pos hne] at hok
    exact hne hok
  rw [if_neg (not_not.mpr hkernel)] at happend
  refine ⟨⟨(identityMaps s.mem (s.vs 0) (kernelMaps kEnd)).2.1,
    (identityMaps s.mem (s.vs 0) (kernelMaps kEnd)).2.2⟩, ?_, ?_, fun va hva => ?_⟩
  · simp only [bootPaging, hinit, hkernel, ne_eq, not_true_eq_false, if_false]
  · show (identityMaps _ _ vgaMaps).1 = .ok
    rw [← happend]
    exact hok
  simp only [vgaInitMaps]
  rw [← happend]
  generalize identityMaps s.mem (s.vs 0) (kernelMaps kEnd ++ vgaMaps) = t at *
  have hres : vspaceResolve t.2.1 t.2.2 va = if BootMapped kEnd va then some va else none := by
    rw [hself.resolves va hva, hempty va]
    rfl
  have hlive' := hself.live
  obtain ⟨label, htree⟩ := hlive'.mapped.tree halloc hlive'.index hlive'.root_ne
  rw [Spaces.put_vs_self, Spaces.put_mem] at htree
  have hasid : t.2.2.asid.toNat < 2 ^ 16 := by
    rw [hself.header.1, hheader.1]
    decide
  have hpart : t.2.2.partitionId = 0 := hself.header.2.trans hheader.2
  have htranslate := htree.translate_iff (by decide) hasid hva
  refine ⟨hres, fun acc => ⟨?_, fun pa hpa => ?_⟩⟩
  · -- a user access would need a partition other than the kernel's
    rw [Option.eq_none_iff_forall_ne_some]
    intro pa hpa
    exact ((htranslate .user acc pa).mp hpa).2.2.1.mp rfl hpart
  · have hva' := ((htranslate .supervisor acc pa).mp hpa).1
    rw [hres] at hva'
    by_cases hin : BootMapped kEnd va
    · rw [if_pos hin] at hva'
      exact ⟨(Option.some.inj hva').symm, hin⟩
    · rw [if_neg hin] at hva'
      cases hva'

/-- An image that ends at `0x80120000`: the kernel finds itself where it was, and not the
pool its page tables are in. -/
theorem boot_address_space_small :
    ∃ s, bootPaging sharedPool 1 0x80120000 = some s ∧ (vgaInitMaps s).1 = .ok ∧
      vspaceResolve (vgaInitMaps s).2.mem (vgaInitMaps s).2.vs 0x80001234 = some 0x80001234 ∧
      vspaceResolve (vgaInitMaps s).2.mem (vgaInitMaps s).2.vs 0x80400000 = none := by
  obtain ⟨s, hboot, hvga, hres⟩ :=
    @boot_address_space sharedPool 1 0x80120000 (by decide) (by decide) (by decide)
  refine ⟨s, hboot, hvga, ?_, ?_⟩
  · rw [(hres 0x80001234 (by decide)).1]
    decide
  · rw [(hres 0x80400000 (by decide)).1]
    decide

end Moonlight
