/-
When `vspace_map` succeeds.

A page needs the tables on its path, and `vspace_map` takes those that are not there from
the allocator, one colour stride further on each time.  So a call takes as many pages as
there are paths without a table, and it goes through if its range is free and that many
can still be had: by the records of the address space, and by the pool.
-/
import Mathlib.Data.Finset.Card
import Moonlight.Memory.SpaceIsolation

namespace Moonlight

/-! ### Supply -/

/-- The page-table pages the pool has left for a partition, one in every sixteen pages. -/
def FrameAlloc.stridesLeft (a : FrameAlloc) (partition : UInt32) : Nat :=
  (a.top.toNat + 61440 - a.frameStart { partition := partition, size := pageSize }) / 65536

/-- How many pages `alloc_pt_page` can still take for an address space. -/
def pagesLeft (m : Memory) (vs : VSpace) : Nat :=
  if vs.partitionId < 8 then
    min (64 - vs.ptCapsCount.toNat) ((m.allocs vs.alloc).stridesLeft vs.partitionId)
  else 0

/-- A page taken from the pool costs one stride. -/
theorem FrameAlloc.Ready.takes_stride {base top : Nat} {a : FrameAlloc} (h : a.Ready base top)
    {p : UInt32} (hp : p < 8) :
    (a.stridesLeft p = 0 ∧ ∃ e, e ≠ .ok ∧ allocFrame a p pageSize = (e, none, a)) ∨
    ∃ c a', allocFrame a p pageSize = (.ok, some c, a') ∧
      a.next.toNat ≤ c.u.framePaddr.toNat ∧ a'.stridesLeft p + 1 = a.stridesLeft p := by
  have hlt : p.toNat < 8 := UInt32.lt_iff_toNat_lt.mp hp
  have hskip : a.skip p < 16 := Nat.mod_lt _ (by omega)
  have hstart : a.frameStart { partition := p, size := pageSize } =
    a.next.toNat + 4096 * a.skip p := rfl
  have hend : a.frameEnd { partition := p, size := pageSize } =
    a.frameStart { partition := p, size := pageSize } + 4096 := rfl
  have hhigh := h.high
  have hlimit := h.limit
  have hsmall := h.small
  obtain ⟨hacc, c, a', heq, hpaddr, hnext, htop, -⟩ | ⟨hnot, e, hne, heq⟩ :=
    allocFrame_accepted_cases a { partition := p, size := pageSize }
  · have hfits := hacc.fits
    rw [Nat.mod_eq_of_lt (by omega)] at hpaddr hnext hfits
    refine Or.inr ⟨c, a', heq, by omega, ?_⟩
    -- the next page of the colour is fifteen pages behind the end of this one
    have hcolor := (h.page heq).1.color
    rw [toNat_allocColorForPartition hp, toNat_colorOf] at hcolor
    have hskip' : a'.skip p = 15 := by
      rw [FrameAlloc.skip, toNat_colorOf]
      omega
    have hstart' : a'.frameStart { partition := p, size := pageSize } =
        a.frameStart { partition := p, size := pageSize } + 65536 := by
      show a'.next.toNat + 4096 * a'.skip p = _
      omega
    rw [FrameAlloc.stridesLeft, FrameAlloc.stridesLeft, hstart', htop]
    omega
  · refine Or.inl ⟨?_, e, hne, heq⟩
    have hfull : ¬ a.frameEnd { partition := p, size := pageSize } ≤ a.top.toNat := by
      intro hle
      refine hnot ⟨(show pageSize % pageSize = 0 by decide), hp, ?_⟩
      rw [Nat.mod_eq_of_lt (by omega)]
      exact hle
    rw [FrameAlloc.stridesLeft]
    omega

/-! ### Demand -/

/-- The paths of the tables that `n` pages from `va` on hang below. -/
def tablePaths : Nat → UInt64 → Finset (List UInt64)
  | 0, _ => ∅
  | n + 1, va => {[vpn2 va], vpnPath va} ∪ tablePaths n (va + pageSize)

/-- The paths among `Q` at whose end there is no table. -/
def missingTables (m : Memory) (vs : VSpace) (Q : Finset (List UInt64)) : Finset (List UInt64) :=
  Q.filter fun q => Radix.walk sv39 m.words vs.root q = none

def IsTablePath (q : List UInt64) : Prop := q.length ≤ 2 ∧ ∀ x ∈ q, IsIndex x

theorem isTablePath_of_mem {n : Nat} {va : UInt64} {q : List UInt64} (h : q ∈ tablePaths n va) :
    IsTablePath q := by
  induction n generalizing va with
  | zero => exact absurd h (Finset.notMem_empty q)
  | succ n ih =>
    simp only [tablePaths, Finset.mem_union, Finset.mem_insert, Finset.mem_singleton] at h
    obtain (rfl | rfl) | h := h
    · exact ⟨by simp, fun x hx => isIndex_vpnPath va x (by simp_all [vpnPath])⟩
    · exact ⟨Nat.le_refl 2, isIndex_vpnPath va⟩
    · exact ih h

/-- The tables at the end of the paths `Q` are there, and those that were missing have been
paid for. -/
structure Supplies (Q : Finset (List UInt64)) (m : Memory) (vs : VSpace) (m' : Memory)
    (vs' : VSpace) : Prop where
  root : vs'.root = vs.root
  missing : ∀ q, IsTablePath q → (Radix.walk sv39 m'.words vs'.root q = none ↔
    Radix.walk sv39 m.words vs.root q = none ∧ q ∉ Q)
  left : pagesLeft m' vs' + (missingTables m vs Q).card = pagesLeft m vs

section
variable {Q R : Finset (List UInt64)} {m m' m'' : Memory} {vs vs' vs'' : VSpace}

theorem Supplies.of_present (h : ∀ q ∈ Q, Radix.walk sv39 m.words vs.root q ≠ none) :
    Supplies Q m vs m vs where
  root := rfl
  missing := by
    intro q _
    exact ⟨fun hnone => ⟨hnone, fun hq => h q hq hnone⟩, And.left⟩
  left := by
    rw [missingTables, Finset.filter_false_of_mem h]
    rfl

/-- What is missing afterwards is what was missing and has not been supplied. -/
theorem Supplies.card_missing (h : Supplies Q m vs m' vs') (hR : ∀ q ∈ R, IsTablePath q) :
    (missingTables m vs (Q ∪ R)).card =
      (missingTables m vs Q).card + (missingTables m' vs' R).card := by
  have hrest : missingTables m' vs' R = missingTables m vs R \ missingTables m vs Q := by
    ext q
    simp only [missingTables, Finset.mem_filter, Finset.mem_sdiff]
    constructor
    · rintro ⟨hq, hnone⟩
      obtain ⟨hnone', hnot⟩ := (h.missing q (hR q hq)).mp hnone
      exact ⟨⟨hq, hnone'⟩, fun hc => hnot hc.1⟩
    · rintro ⟨⟨hq, hnone⟩, hnot⟩
      exact ⟨hq, (h.missing q (hR q hq)).mpr ⟨hnone, fun hc => hnot ⟨hc, hnone⟩⟩⟩
  have hunion : missingTables m vs (Q ∪ R) = missingTables m vs R ∪ missingTables m vs Q := by
    rw [missingTables, Finset.filter_union, Finset.union_comm]
    rfl
  rw [hunion, hrest, ← Finset.card_sdiff_add_card, Nat.add_comm]

theorem Supplies.trans (h : Supplies Q m vs m' vs') (h' : Supplies R m' vs' m'' vs'')
    (hR : ∀ q ∈ R, IsTablePath q) : Supplies (Q ∪ R) m vs m'' vs'' where
  root := h'.root.trans h.root
  missing := by
    intro q hq
    rw [h'.missing q hq, h.missing q hq, Finset.mem_union, not_or, and_assoc]
  left := by
    have hcard := h.card_missing hR
    have hleft := h.left
    have hleft' := h'.left
    omega

theorem not_covered {q : List UInt64} (hleft : pagesLeft m vs = 0) (hq : q ∈ Q)
    (hnone : Radix.walk sv39 m.words vs.root q = none) :
    ¬ (missingTables m vs Q).card ≤ pagesLeft m vs := by
  have hpos : 0 < (missingTables m vs Q).card :=
    Finset.card_pos.mpr ⟨q, Finset.mem_filter.mpr ⟨hq, hnone⟩⟩
  omega

/-- The pages left cover the rest if they covered it all. -/
theorem Supplies.covers_iff (h : Supplies Q m vs m' vs') (hR : ∀ q ∈ R, IsTablePath q) :
    (missingTables m' vs' R).card ≤ pagesLeft m' vs' ↔
      (missingTables m vs (Q ∪ R)).card ≤ pagesLeft m vs := by
  have hcard := h.card_missing hR
  have hleft := h.left
  omega

end

namespace Spaces

variable {alloc : UInt64} {base top : Nat} {s : Spaces} {i : Nat} {m m' : Memory} {vs vs' : VSpace}
  {label : UInt64 → Option (List UInt64)}

/-! ### One table -/

/-- `alloc_pt_page` fails when no page is left, and otherwise there is one less after it. -/
theorem Tree.page (h : Tree alloc base top s i m vs label) :
    (pagesLeft m vs = 0 ∧ allocPtPage m vs = (0, m, vs)) ∨
    ∃ t m' vs', allocPtPage m vs = (t, m', vs') ∧ t ≠ 0 ∧
      PageTaken (frameBooks alloc base top s i).Ok (frameBooks alloc base top s i).Owns m vs t m'
        vs' ∧
      pagesLeft m' vs' + 1 = pagesLeft m vs := by
  have hself : (s.put i m vs).vs i = vs := put_vs_self ..
  have hshared : vs.alloc = alloc := hself ▸ h.books.inv.shared i h.books.index
  have hcounts : vs.ptCapsCount = vs.ptPagesUsed := hself ▸ (h.books.inv.counts i h.books.index).1
  have hready : (m.allocs vs.alloc).Ready base top := hshared ▸ h.books.inv.ready
  unfold pagesLeft
  by_cases hcaps : vs.ptCapsCount ≥ 64
  · have hcaps' : 64 ≤ vs.ptCapsCount.toNat := UInt32.le_iff_toNat_le.mp hcaps
    refine Or.inl ⟨?_, by rw [allocPtPage, if_pos hcaps]⟩
    split_ifs
    · omega
    · rfl
  have hcaps' : vs.ptCapsCount.toNat < 64 := UInt32.lt_iff_toNat_lt.mp (UInt32.not_le.mp hcaps)
  have hused : ¬ vs.ptPagesUsed ≥ 64 := hcounts ▸ hcaps
  have halloc' : vs.alloc ≠ 0 := hshared ▸ h.books.alloc_ne
  by_cases hpart : vs.partitionId < 8
  swap
  · rw [if_neg hpart]
    refine Or.inl ⟨rfl, ?_⟩
    have houtcome := allocPtPage_outcome m vs
    generalize allocPtPage m vs = r at houtcome ⊢
    cases houtcome with
    | refused => rfl
    | frame _ _ _ htake => exact absurd (allocFrame_color htake).1 hpart
    | pool _ hnull => exact absurd hnull halloc'
  rw [if_pos hpart]
  obtain ⟨hnone, e, hne, heq⟩ | ⟨c, a, heq, hlow, hleft⟩ := hready.takes_stride hpart
  · refine Or.inl ⟨by omega, ?_⟩
    rw [allocPtPage, if_neg hcaps, if_neg hused, if_pos halloc', heq]
    cases e <;> first | exact absurd rfl hne | rfl
  -- the root lies below the bump pointer, so the page is not the one at zero
  have hne : c.u.framePaddr ≠ 0 := by
    obtain ⟨k, hk, hroot⟩ := h.owned (p := vs.root) (by simp [h.tree.root])
    have hframe := h.books.inv.frame i k ⟨h.books.index, by rw [hself]; exact hk⟩
    rw [hself, ← hshared] at hframe
    have hhigh := hframe.high
    intro hzero
    rw [hzero] at hlow
    simp only [UInt64.toNat_zero] at hlow
    have hmem : ((s.put i m vs).mem.allocs vs.alloc) = m.allocs vs.alloc := rfl
    rw [hmem] at hhigh
    omega
  have hpage : allocPtPage m vs = (c.u.framePaddr, { m with
      allocs := Function.update m.allocs vs.alloc a
      words := zeroPage m.words c.u.framePaddr }, vs.recordPage c) := by
    rw [allocPtPage, if_neg hcaps, if_neg hused, if_pos halloc', heq]
  obtain hstay | ⟨t, m', vs', htake, ht⟩ := (frameBooks alloc base top s i).page h.books
  · rw [hpage] at hstay
    exact absurd (Prod.mk.inj hstay).1 hne
  · rw [hpage] at htake
    cases htake
    refine Or.inr ⟨_, _, _, hpage, hne, ht, ?_⟩
    have hcount : (vs.recordPage c).ptCapsCount.toNat = vs.ptCapsCount.toNat + 1 :=
      toNat_succ_of_lt (UInt32.not_le.mp hcaps)
    rw [if_pos (show (vs.recordPage c).partitionId < 8 from hpart), hcount]
    have hat : Function.update m.allocs vs.alloc a (vs.recordPage c).alloc = a :=
      Function.update_self ..
    simp only [hat]
    show min _ (a.stridesLeft vs.partitionId) + 1 = _
    omega

/-- Following an entry to the next table: a missing one is supplied while a page is left. -/
theorem Tree.descend_supplies (h : Tree alloc base top s i m vs label)
    {p x : UInt64} {path : List UInt64} (hwalk : Radix.walk sv39 m.words vs.root path = some p)
    (hlen : path.length < 2) (hpath : ∀ y ∈ path, IsIndex y) (hx : IsIndex x) :
    (pagesLeft m vs = 0 ∧ Radix.walk sv39 m.words vs.root (path ++ [x]) = none ∧
      Moonlight.descend m vs (pteAddr p x) = (none, m, vs)) ∨
    ∃ t m' vs' label', Moonlight.descend m vs (pteAddr p x) = (some t, m', vs') ∧
      Grows (frameBooks alloc base top s i) m vs label m' vs' label' ∧
      Supplies {path ++ [x]} m vs m' vs' ∧
      Radix.walk sv39 m'.words vs'.root (path ++ [x]) = some t := by
  have hnext : Radix.walk sv39 m.words vs.root (path ++ [x]) =
    sv39.next (m.words (pteAddr p x)) := Radix.walk_concat hwalk x
  have hp : label p = some path := h.tree.label_of_walk h.tree.root (by simp; omega) hpath hwalk
  unfold Moonlight.descend
  by_cases hv : m.words (pteAddr p x) &&& pteV = 0
  swap
  · have hsome : Radix.walk sv39 m.words vs.root (path ++ [x]) =
        some (pteTable (m.words (pteAddr p x))) := by
      rw [hnext]
      exact if_neg hv
    rw [if_neg hv]
    refine Or.inr ⟨_, _, _, label, rfl, h.grows_refl, Supplies.of_present ?_, hsome⟩
    intro q hq
    rw [Finset.mem_singleton.mp hq, hsome]
    exact Option.some_ne_none _
  have hnone : Radix.walk sv39 m.words vs.root (path ++ [x]) = none := by
    rw [hnext]
    exact if_pos hv
  rw [if_pos hv]
  obtain ⟨hleft, heq⟩ | ⟨t, m', vs', heq, hne, ht, hleft⟩ := Tree.page h
  · simp only [heq, if_true]
    exact Or.inl ⟨hleft, hnone, trivial⟩
  simp only [heq, if_neg hne]
  obtain ⟨label', hgrown⟩ := h.grows_link hp hlen hx hv ht
  have hlink := h.links_taken (by simp [hp]) hx hv ht
  have hwalks : ∀ q, IsTablePath q → Radix.walk sv39
      (Function.update m'.words (pteAddr p x) (pteEncode (t >>> 12) pteV)) vs'.root q =
        if q = path ++ [x] then some t else Radix.walk sv39 m.words vs.root q := by
    intro q hq
    rw [ht.root]
    exact h.tree.walk_link hwalk hlen hpath hlink hq.1 hq.2
  refine Or.inr ⟨_, _, _, label', rfl, hgrown, ⟨hgrown.root, ?_, ?_⟩, ?_⟩
  · intro q hq
    show Radix.walk sv39 (Function.update m'.words _ _) vs'.root q = none ↔ _
    rw [hwalks q hq]
    by_cases hqx : q = path ++ [x]
    · simp [hqx]
    · simp [hqx]
  · have hone : missingTables m vs {path ++ [x]} = {path ++ [x]} := by
      rw [missingTables, Finset.filter_singleton, if_pos hnone]
    rw [hone, Finset.card_singleton]
    exact hleft
  · have hself : IsTablePath (path ++ [x]) := by
      refine ⟨by simp; omega, fun y hy => ?_⟩
      obtain hy | hy := List.mem_append.mp hy
      · exact hpath y hy
      · rw [List.mem_singleton.mp hy]
        exact hx
    show Radix.walk sv39 (Function.update m'.words _ _) vs'.root _ = _
    rw [hwalks _ hself, if_pos rfl, pteTable_pteEncode ht.aligned (by decide)]

/-! ### One page -/

/-- A leaf entry is not on the way to any table. -/
theorem Tree.walk_write (h : Tree alloc base top s i m vs label) {va l0 : UInt64}
    (hl0 : HasLeafTable m.words vs.root va l0) (pte : UInt64) {q : List UInt64}
    (hq : IsTablePath q) :
    Radix.walk sv39 (Function.update m.words (pteAddr l0 (vpn0 va)) pte) vs.root q =
      Radix.walk sv39 m.words vs.root q := by
  have hlabel : label l0 = some (vpnPath va) :=
    h.tree.label_of_walk h.tree.root (by simp) (isIndex_vpnPath va) hl0
  refine h.tree.walk_congr ?_ h.tree.root (by simpa using hq.1) hq.2
  intro p path x hp hlen hx
  refine Function.update_of_ne (fun heq => ?_) ..
  obtain ⟨rfl, -⟩ := h.tree.inj (by simp [hp]) (by simp [hlabel]) hx (isIndex_vpn0 va) heq
  obtain rfl : path = vpnPath va := Option.some.inj (hp.symm.trans hlabel)
  exact Nat.lt_irrefl 2 hlen

/-- The tables of one page. -/
theorem tables_eq (va : UInt64) :
    ({[vpn2 va], vpnPath va} : Finset (List UInt64)) =
      {[] ++ [vpn2 va]} ∪ {[vpn2 va] ++ [vpn1 va]} :=
  Finset.insert_eq ..

theorem Tree.mapPage_ok_iff (h : Tree alloc base top s i m vs label) (va pa flags : UInt64) :
    ((Moonlight.mapPage m vs va pa flags).1 = .ok ↔
      leafEntry m.words vs.root va &&& pteV = 0 ∧
        (missingTables m vs {[vpn2 va], vpnPath va}).card ≤ pagesLeft m vs) ∧
    ((Moonlight.mapPage m vs va pa flags).1 = .ok →
      Supplies {[vpn2 va], vpnPath va} m vs (Moonlight.mapPage m vs va pa flags).2.1
        (Moonlight.mapPage m vs va pa flags).2.2) ∧
    ∃ Q, (∀ q ∈ Q, IsTablePath q) ∧ Supplies Q m vs (Moonlight.mapPage m vs va pa flags).2.1
      (Moonlight.mapPage m vs va pa flags).2.2 := by
  have hfirst : ∀ q ∈ ({[] ++ [vpn2 va]} : Finset (List UInt64)), IsTablePath q := by
    intro q hq
    rw [Finset.mem_singleton.mp hq]
    exact ⟨by simp, by simpa using isIndex_vpn2 va⟩
  have hlast : ∀ q ∈ ({[vpn2 va] ++ [vpn1 va]} : Finset (List UInt64)), IsTablePath q := by
    intro q hq
    rw [Finset.mem_singleton.mp hq]
    exact ⟨Nat.le_refl 2, isIndex_vpnPath va⟩
  have hvpn2 : ∀ y ∈ [vpn2 va], IsIndex y := by
    intro y hy
    rw [List.mem_singleton.mp hy]
    exact isIndex_vpn2 va
  rw [tables_eq]
  unfold Moonlight.mapPage
  obtain ⟨hleft, hnone, heq⟩ | ⟨l1, m₁, vs₁, label₁, heq₁, hg₁, hs₁, hw₁⟩ :=
    h.descend_supplies (show Radix.walk sv39 m.words vs.root [] = some vs.root from rfl)
      (by simp) (by simp) (isIndex_vpn2 va)
  · rw [heq]
    have hshort := not_covered (Q := {[] ++ [vpn2 va]} ∪ {[vpn2 va] ++ [vpn1 va]}) hleft
      (Finset.mem_union_left _ (Finset.mem_singleton_self _)) hnone
    exact ⟨⟨by simp, fun hc => absurd hc.2 hshort⟩, by simp, ∅, by simp,
      Supplies.of_present (by simp)⟩
  rw [heq₁]
  obtain ⟨hleft, hnone, heq⟩ | ⟨l0, m₂, vs₂, label₂, heq₂, hg₂, hs₂, hw₂⟩ :=
    Tree.descend_supplies hg₁.inv hw₁ (by simp) hvpn2 (isIndex_vpn1 va)
  · simp only [heq]
    have hshort := mt (hs₁.covers_iff hlast).mpr
      (not_covered hleft (Finset.mem_singleton_self _) hnone)
    exact ⟨⟨by simp, fun hc => absurd hc.2 hshort⟩, by simp, _, hfirst, hs₁⟩
  simp only [heq₂]
  have hs : Supplies ({[] ++ [vpn2 va]} ∪ {[vpn2 va] ++ [vpn1 va]}) m vs m₂ vs₂ :=
    hs₁.trans hs₂ hlast
  have hg := hg₁.trans hg₂
  have hl0 : HasLeafTable m₂.words vs₂.root va l0 := hw₂
  have hfree : leafEntry m.words vs.root va = m₂.words (pteAddr l0 (vpn0 va)) := by
    rw [← hg.reads va, ← hg.root, leafEntry, Radix.read, hl0]
    rfl
  have hcovered := hs.left
  have hboth : ∀ q ∈ ({[] ++ [vpn2 va]} ∪ {[vpn2 va] ++ [vpn1 va]} : Finset (List UInt64)),
      IsTablePath q := fun q hq => (Finset.mem_union.mp hq).elim (hfirst q) (hlast q)
  rw [hfree]
  by_cases hcell : m₂.words (pteAddr l0 (vpn0 va)) &&& pteV ≠ 0
  · simp only [if_pos hcell]
    exact ⟨⟨by simp, fun hc => absurd hc.1 hcell⟩, by simp, _, hboth, hs⟩
  · simp only [if_neg hcell]
    have hwritten : Supplies ({[] ++ [vpn2 va]} ∪ {[vpn2 va] ++ [vpn1 va]}) m vs
        { m₂ with
          words := Function.update m₂.words (pteAddr l0 (vpn0 va)) (pteEncode (pa >>> 12) flags) }
        vs₂ := by
      refine ⟨hg.root, fun q hq => ?_, hcovered⟩
      show Radix.walk sv39 (Function.update m₂.words _ _) vs₂.root q = none ↔ _
      rw [Tree.walk_write hg.inv hl0 _ hq]
      exact hs.missing q hq
    exact ⟨⟨fun _ => ⟨not_not.mp hcell, by omega⟩, fun _ => trivial⟩, fun _ => hwritten, _, hboth,
      hwritten⟩

/-! ### Ranges -/

end Spaces

/-- No page of the range is mapped, and no two of them share a leaf entry. -/
structure FreePages (words : UInt64 → UInt64) (root va : UInt64) (n : Nat) : Prop where
  free : ∀ o, o < n → leafEntry words root (pageAt va o) &&& pteV = 0
  apart : ∀ o o', o < o' → o' < n → ¬ SamePage (pageAt va o') (pageAt va o)

/-- A range is free if its first page is, and the rest still is once that page is mapped. -/
theorem freePages_succ {words words' : UInt64 → UInt64} {root va pte : UInt64} {n : Nat}
    (hleaf : ∀ a, leafEntry words' root a =
      if SamePage a va then pte else leafEntry words root a) (hpte : ¬ pte &&& pteV = 0) :
    FreePages words root va (n + 1) ↔
      leafEntry words root va &&& pteV = 0 ∧ FreePages words' root (va + pageSize) n := by
  constructor
  · intro h
    have hfirst := h.free 0 (Nat.succ_pos n)
    rw [pageAt_zero] at hfirst
    refine ⟨hfirst, ⟨fun o ho => ?_, fun o o' hlt ho' => ?_⟩⟩
    · have hne := h.apart 0 (o + 1) (Nat.succ_pos o) (Nat.succ_lt_succ ho)
      rw [pageAt_zero, pageAt_succ] at hne
      rw [hleaf, if_neg hne, ← pageAt_succ]
      exact h.free (o + 1) (Nat.succ_lt_succ ho)
    · rw [← pageAt_succ, ← pageAt_succ]
      exact h.apart (o + 1) (o' + 1) (Nat.succ_lt_succ hlt) (Nat.succ_lt_succ ho')
  · rintro ⟨hfirst, h⟩
    have hrest : ∀ o, o < n → ¬ SamePage (pageAt (va + pageSize) o) va ∧
        leafEntry words root (pageAt (va + pageSize) o) &&& pteV = 0 := by
      intro o ho
      have hfree := h.free o ho
      rw [hleaf] at hfree
      by_cases hsame : SamePage (pageAt (va + pageSize) o) va
      · rw [if_pos hsame] at hfree
        exact absurd hfree hpte
      · rw [if_neg hsame] at hfree
        exact ⟨hsame, hfree⟩
    refine ⟨fun o ho => ?_, fun o o' hlt ho' => ?_⟩
    · cases o with
      | zero =>
        rw [pageAt_zero]
        exact hfirst
      | succ o =>
        rw [pageAt_succ]
        exact (hrest o (Nat.lt_of_succ_lt_succ ho)).2
    · obtain ⟨o', rfl⟩ := Nat.exists_eq_succ_of_ne_zero (Nat.ne_zero_of_lt hlt)
      cases o with
      | zero =>
        rw [pageAt_zero, pageAt_succ]
        exact (hrest o' (Nat.lt_of_succ_lt_succ ho')).1
      | succ o =>
        rw [pageAt_succ, pageAt_succ]
        exact h.apart o o' (Nat.lt_of_succ_lt_succ hlt) (Nat.lt_of_succ_lt_succ ho')

/-- The 27 index bits come round after `2 ^ 27` pages. -/
theorem samePage_pageAt (va : UInt64) (o o' : Nat) :
    SamePage (pageAt va o') (pageAt va o) ↔ o' % 2 ^ 27 = o % 2 ^ 27 := by
  simp only [SamePage, vpnPath, List.cons.injEq, and_true, ← UInt64.toNat_inj, toNat_vpn2,
    toNat_vpn1, toNat_vpn0, pageAt, UInt64.toNat_add, UInt64.toNat_ofNat']
  constructor
  · rintro ⟨⟨h2, h1⟩, h0⟩
    omega
  · intro h
    have hpage : (va.toNat + 4096 * o') / 4096 % 2 ^ 27 =
        (va.toNat + 4096 * o) / 4096 % 2 ^ 27 := by omega
    refine ⟨⟨?_, ?_⟩, ?_⟩ <;> omega

theorem freePages_iff {m : Memory} {vs : VSpace} (hroot : vs.root ≠ 0) (va : UInt64) (n : Nat) :
    FreePages m.words vs.root va n ↔
      (∀ o, o < n → vspaceResolve m vs (pageAt va o) = none) ∧ n ≤ 2 ^ 27 := by
  have hfree : ∀ a, vspaceResolve m vs a = none ↔ leafEntry m.words vs.root a &&& pteV = 0 := by
    intro a
    rw [vspaceResolve_eq m hroot]
    by_cases hv : leafEntry m.words vs.root a &&& pteV = 0
    · simp [hv]
    · simp [hv]
  constructor
  · intro h
    refine ⟨fun o ho => (hfree _).mpr (h.free o ho), ?_⟩
    by_contra hlt
    exact h.apart 0 (2 ^ 27) (by omega) (by omega) ((samePage_pageAt va 0 (2 ^ 27)).mpr (by omega))
  · rintro ⟨h, hle⟩
    refine ⟨fun o ho => (hfree _).mp (h o ho), fun o o' hlt ho' hsame => ?_⟩
    have hmod := (samePage_pageAt va o o').mp hsame
    omega

namespace Spaces

variable {alloc : UInt64} {base top : Nat} {s : Spaces} {i : Nat} {m : Memory} {vs : VSpace}
  {label : UInt64 → Option (List UInt64)}

/-- The loop of `vspace_map` goes through if the pages are free and the pages left cover
the missing tables. -/
theorem Tree.mapLoop_ok_iff (h : Tree alloc base top s i m vs label) (n : Nat) (va : UInt64)
    {pa : UInt64} (hpa : PageAligned pa) (perms : UInt8) :
    ((Moonlight.mapLoop n m vs va pa (pteFlags vs.partitionId perms)).1 = .ok ↔
      FreePages m.words vs.root va n ∧
        (missingTables m vs (tablePaths n va)).card ≤ pagesLeft m vs) ∧
    ((Moonlight.mapLoop n m vs va pa (pteFlags vs.partitionId perms)).1 = .ok →
      Supplies (tablePaths n va) m vs
        (Moonlight.mapLoop n m vs va pa (pteFlags vs.partitionId perms)).2.1
        (Moonlight.mapLoop n m vs va pa (pteFlags vs.partitionId perms)).2.2) ∧
    ∃ Q, (∀ q ∈ Q, IsTablePath q) ∧ Supplies Q m vs
      (Moonlight.mapLoop n m vs va pa (pteFlags vs.partitionId perms)).2.1
      (Moonlight.mapLoop n m vs va pa (pteFlags vs.partitionId perms)).2.2 := by
  induction n generalizing m vs label va pa with
  | zero =>
    have hnone : Supplies ∅ m vs m vs := Supplies.of_present (by simp)
    refine ⟨⟨fun _ => ⟨⟨?_, ?_⟩, Nat.zero_le _⟩, fun _ => rfl⟩, fun _ => hnone, ∅, by simp, hnone⟩
    · exact fun o ho => absurd ho (Nat.not_lt_zero o)
    · exact fun o o' _ ho' => absurd ho' (Nat.not_lt_zero o')
  | succ n ih =>
    obtain ⟨hf, hv⟩ := pteFlags_spec vs.partitionId perms
    obtain ⟨e, m', vs', label', heq, hinv, hown, hok, -⟩ :=
      h.mapPage va (entryOk_leaf vs.partitionId va hpa perms)
    obtain ⟨hiff, hsupplies, Q, hQ, hsome⟩ :=
      h.mapPage_ok_iff va pa (pteFlags vs.partitionId perms)
    rw [heq] at hiff hsupplies hsome
    rw [Moonlight.mapLoop, heq]
    by_cases he : e = .ok
    · subst he
      have hs : Supplies {[vpn2 va], vpnPath va} m vs m' vs' := hsupplies rfl
      obtain ⟨hfree, hleaf⟩ := hok rfl
      obtain ⟨ihiff, ihsupplies, R, hR, ihsome⟩ := ih hinv (va + pageSize) hpa.succ
      have hpages := freePages_succ (n := n) hleaf (pteEncode_valid hf hv)
      have hpaths : ∀ q ∈ tablePaths n (va + pageSize), IsTablePath q :=
        fun q hq => isTablePath_of_mem hq
      have hcovers := hs.covers_iff hpaths
      rw [hown.partition] at ihiff ihsupplies ihsome
      rw [hown.root] at ihiff
      refine ⟨?_, fun hall => hs.trans (ihsupplies hall) hpaths, Q ∪ R,
        fun q hq => (Finset.mem_union.mp hq).elim (hQ q) (hR q), hsome.trans ihsome hR⟩
      show (Moonlight.mapLoop n m' vs' _ _ _).1 = .ok ↔ _
      rw [ihiff, hcovers, hpages]
      exact ⟨fun hc => ⟨⟨hfree, hc.1⟩, hc.2⟩, fun hc => ⟨hc.1.2, hc.2⟩⟩
    · -- the first page fails, for its own leaf entry or for its own tables
      have hstop : ¬ (FreePages m.words vs.root va (n + 1) ∧
          (missingTables m vs (tablePaths (n + 1) va)).card ≤ pagesLeft m vs) := by
        rintro ⟨hfree, hle⟩
        have hsub : missingTables m vs {[vpn2 va], vpnPath va} ⊆
            missingTables m vs (tablePaths (n + 1) va) :=
          Finset.filter_subset_filter _ Finset.subset_union_left
        have hfirst := hfree.free 0 (Nat.succ_pos n)
        rw [pageAt_zero] at hfirst
        exact he (hiff.mpr ⟨hfirst, Nat.le_trans (Finset.card_le_card hsub) hle⟩)
      cases e with
      | ok => exact absurd rfl he
      | _ => exact ⟨⟨fun hok => absurd hok he, fun hc => absurd hc hstop⟩, fun hok => absurd hok he,
          Q, hQ, hsome⟩

/-! ### Calls -/

end Spaces

namespace Spaces

variable {alloc : UInt64} {base top : Nat} {s : Spaces} {i : Nat}

/-- The tables a mapping in address space `i` still needs. -/
def missingFor (s : Spaces) (i : Nat) (vaddr size : UInt64) : Finset (List UInt64) :=
  missingTables s.mem (s.vs i) (tablePaths (pagesIn size) vaddr)

theorem Mapped.map_ok_iff (h : s.Mapped alloc base top) (halloc : alloc ≠ 0) (hi : i < s.count)
    (hroot : (s.vs i).root ≠ 0) (vaddr paddr size : UInt64) (perms : UInt8) (color : UInt16) :
    ((vspaceMap s.mem (s.vs i) vaddr paddr size perms color).1 = .ok ↔
      MapChecks vaddr paddr size color ∧ size.toNat ≤ 2 ^ 39 ∧
        (∀ o, o < pagesIn size → s.translates i (pageAt vaddr o) = none) ∧
        (s.missingFor i vaddr size).card ≤ pagesLeft s.mem (s.vs i)) ∧
    ((vspaceMap s.mem (s.vs i) vaddr paddr size perms color).1 = .ok →
      Supplies (tablePaths (pagesIn size) vaddr) s.mem (s.vs i)
        (vspaceMap s.mem (s.vs i) vaddr paddr size perms color).2.1
        (vspaceMap s.mem (s.vs i) vaddr paddr size perms color).2.2) ∧
    ∃ Q, (∀ q ∈ Q, IsTablePath q) ∧ Supplies Q s.mem (s.vs i)
        (vspaceMap s.mem (s.vs i) vaddr paddr size perms color).2.1
        (vspaceMap s.mem (s.vs i) vaddr paddr size perms color).2.2 := by
  obtain ⟨label, htree⟩ := h.tree halloc hi hroot
  obtain ⟨hchecks, heq⟩ | ⟨hnot, e, hne, heq⟩ :=
    vspaceMap_checks s.mem hroot vaddr paddr size perms color
  · have hpa : PageAligned paddr := (pageAligned_iff paddr).mpr hchecks.aligned.2.1
    have hsize : PageAligned size := (pageAligned_iff size).mpr hchecks.aligned.2.2
    obtain ⟨hiff, hrest⟩ := htree.mapLoop_ok_iff (pagesIn size) vaddr hpa perms
    rw [heq]
    refine ⟨?_, hrest⟩
    have hpages : pagesIn size ≤ 2 ^ 27 ↔ size.toNat ≤ 2 ^ 39 := by
      unfold pagesIn
      unfold PageAligned at hsize
      omega
    rw [hiff, freePages_iff hroot, hpages]
    exact ⟨fun hc => ⟨hchecks, hc.1.2, hc.1.1, hc.2⟩, fun hc => ⟨⟨hc.2.2.1, hc.2.1⟩, hc.2.2.2⟩⟩
  · rw [heq]
    exact ⟨⟨fun hok => absurd hok hne, fun hc => absurd hc.1 hnot⟩, fun hok => absurd hok hne, ∅,
      by simp, Supplies.of_present (by simp)⟩

end Spaces

/-- Whatever address spaces were created over one allocator, mapped and unmapped before:
`vspace_map` succeeds if and only if its arguments pass the checks, the range is not longer
than the address space, none of its pages is mapped, and the page-table pages left to the
address space cover the tables that are missing.  A success takes just those. -/
theorem vspace_map_succeeds_iff {m : Memory} {alloc : UInt64} (halloc : alloc ≠ 0)
    (hready : (m.allocs alloc).Ready (m.allocs alloc).base.toNat (m.allocs alloc).top.toNat)
    (ops : List SpaceOp) {i : Nat} (vaddr paddr size : UInt64) (perms : UInt8) (color : UInt16) :
    let s := Run.exec (Spaces.stepOp alloc) (Spaces.start m) ops
    let r := vspaceMap s.mem (s.vs i) vaddr paddr size perms color
    i < s.count →
    (r.1 = .ok ↔ (s.vs i).root ≠ 0 ∧ MapChecks vaddr paddr size color ∧ size.toNat ≤ 2 ^ 39 ∧
      (∀ o, o < pagesIn size → s.translates i (pageAt vaddr o) = none) ∧
      (s.missingFor i vaddr size).card ≤ pagesLeft s.mem (s.vs i)) ∧
    (r.1 = .ok → pagesLeft r.2.1 r.2.2 + (s.missingFor i vaddr size).card =
      pagesLeft s.mem (s.vs i)) := by
  intro s r hi
  have hmapped : s.Mapped alloc _ _ := Spaces.reached_mapped halloc hready ops
  by_cases hroot : (s.vs i).root = 0
  · have hr : r.1 ≠ .ok := by
      show (vspaceMap s.mem (s.vs i) vaddr paddr size perms color).1 ≠ .ok
      rw [vspaceMap, if_pos hroot]
      exact (show KError.invalidArg ≠ .ok by decide)
    exact ⟨⟨fun hok => absurd hok hr, fun hc => absurd hroot hc.1⟩, fun hok => absurd hok hr⟩
  · obtain ⟨hiff, hsupplies, -⟩ := hmapped.map_ok_iff halloc hi hroot vaddr paddr size perms color
    exact ⟨hiff.trans ⟨fun hc => ⟨hroot, hc⟩, And.right⟩, fun hok => (hsupplies hok).left⟩

/-- A pool with three pages of the first colour: a root and the tables of one page. -/
def narrowPool : Memory :=
  { allocs := fun _ => allocInit 0x80400000 0x30000, words := fun _ => 0, fallbackPool := 0
    fallbackNext := 0 }

def onePage : List SpaceOp := [.call (.create 1 0), .call (.map 0 0x1000 0x80500000 0x1000 3 0)]

/-- With no page left, a page under the same tables can be mapped, and no other. -/
theorem vspace_map_succeeds_narrow :
    let s := Run.exec (Spaces.stepOp 1) (Spaces.start narrowPool) onePage
    pagesLeft s.mem (s.vs 0) = 0 ∧
      (vspaceMap s.mem (s.vs 0) 0x2000 0x80501000 0x1000 3 0).1 = .ok ∧
      (vspaceMap s.mem (s.vs 0) 0x40000000 0x80501000 0x1000 3 0).1 ≠ .ok := by
  have hready : (narrowPool.allocs 1).Ready (narrowPool.allocs 1).base.toNat
      (narrowPool.allocs 1).top.toNat := allocInit_ready (by decide) (by decide)
  intro s
  have hcount : 0 < s.count := by decide +kernel
  have hleft : pagesLeft s.mem (s.vs 0) = 0 := by decide +kernel
  have hnear : (s.missingFor 0 0x2000 0x1000).card = 0 := by decide +kernel
  have hfar : (s.missingFor 0 0x40000000 0x1000).card = 2 := by decide +kernel
  have hfree : ∀ o, o < pagesIn 0x1000 → s.translates 0 (pageAt 0x2000 o) = none := by
    intro o ho
    obtain rfl : o = 0 := Nat.lt_one_iff.mp ho
    decide +kernel
  refine ⟨hleft, ?_, fun hok => ?_⟩
  · refine ((vspace_map_succeeds_iff (by decide) hready onePage 0x2000 0x80501000 0x1000 3 0
      hcount).1).mpr ⟨by decide +kernel, ⟨by decide, by decide, Or.inl rfl⟩, by decide, hfree, ?_⟩
    rw [hnear]
    exact Nat.zero_le _
  · have hcover := ((vspace_map_succeeds_iff (by decide) hready onePage 0x40000000 0x80501000 0x1000
      3 0 hcount).1.mp hok).2.2.2.2
    rw [hfar, hleft] at hcover
    exact absurd hcover (by decide)

end Moonlight
