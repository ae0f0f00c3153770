/-
Mapping again.

`vspace_unmap` clears leaf entries and leaves the tables above them.  No call takes a table
away, in this address space or in another, so a range that was mapped once has its tables
for good: when it is free again it can be mapped again, however little is left of the pool.
-/
import Moonlight.Memory.TableDemand

namespace Moonlight

namespace Spaces

variable {alloc : UInt64} {base top : Nat} {s s' : Spaces} {i : Nat} {m : Memory} {vs : VSpace}
  {label : UInt64 → Option (List UInt64)}

/-- Unmapping leaves the way to every table. -/
theorem Tree.walk_unmapLoop (h : Tree alloc base top s i m vs label) (n : Nat) (va : UInt64)
    {q : List UInt64} (hq : IsTablePath q) :
    Radix.walk sv39 (Moonlight.unmapLoop n m.words vs.root va) vs.root q =
      Radix.walk sv39 m.words vs.root q := by
  induction n generalizing m va with
  | zero => rfl
  | succ n ih =>
    refine (ih (h.unmapPage va).1 (va + pageSize)).trans ?_
    show Radix.walk sv39 (Moonlight.unmapPage m.words vs.root va) vs.root q = _
    obtain ⟨-, heq⟩ | ⟨l0, hl0, heq⟩ := unmapPage_cases m.words vs.root va
    · rw [heq]
    · rw [heq]
      exact h.walk_write hl0 0 hq

/-- Address space `i` has a root and a table at the end of each path of `Q`. -/
structure HasTables (Q : Finset (List UInt64)) (i : Nat) (s : Spaces) : Prop where
  index : i < s.count
  root : (s.vs i).root ≠ 0
  tables : ∀ q ∈ Q, IsTablePath q ∧ Radix.walk sv39 s.mem.words (s.vs i).root q ≠ none

theorem HasTables.of_supplies {Q R : Finset (List UInt64)} (h : s.HasTables Q i) {m' : Memory}
    {vs' : VSpace} (hs : Supplies R s.mem (s.vs i) m' vs') : (s.put i m' vs').HasTables Q i where
  index := h.index
  root := by
    rw [put_vs_self, hs.root]
    exact h.root
  tables := by
    intro q hq
    obtain ⟨hpath, hsome⟩ := h.tables q hq
    rw [put_vs_self]
    exact ⟨hpath, fun hnone => hsome ((hs.missing q hpath).mp hnone).1⟩

/-- A call on another address space does not touch the tables of this one. -/
theorem HasTables.other {Q : Finset (List UInt64)} {t : Nat} (h : s.HasTables Q i)
    (hmapped : s.Mapped alloc base top) (hkeeps : Keeps alloc base top s s' t) (hne : i ≠ t)
    (hcount : s.count ≤ s'.count) : s'.HasTables Q i := by
  obtain ⟨label, htree⟩ := hmapped.trees i h.index h.root
  refine ⟨Nat.lt_of_lt_of_le h.index hcount, ?_, fun q hq => ?_⟩
  · rw [hkeeps.vs i hne]
    exact h.root
  · obtain ⟨hpath, hsome⟩ := h.tables q hq
    refine ⟨hpath, ?_⟩
    have hwords : ∀ {p path x}, label p = some path → path.length < 2 → IsIndex x →
        s'.mem.words (pteAddr p x) = s.mem.words (pteAddr p x) :=
      fun {p path x} hp _ hx => hkeeps.words i h.index hne p x (htree.owned (by simp [hp])) hx
    rw [hkeeps.vs i hne,
      htree.tree.walk_congr hwords htree.tree.root (by simpa using hpath.1) hpath.2]
    exact hsome

theorem count_le_stepOp (s : Spaces) (alloc : UInt64) (op : SpaceOp) :
    s.count ≤ (s.stepOp alloc op).count := by
  cases op with
  | call c =>
    cases c with
    | create asid partId => exact Nat.le_succ s.count
    | map i vaddr paddr size perms color =>
      simp only [stepOp, step]
      split_ifs
      · exact Nat.le_refl _
      · exact Nat.le_refl _
  | unmap i vaddr size =>
    simp only [stepOp]
    split_ifs
    · exact Nat.le_refl _
    · exact Nat.le_refl _

/-- No call takes a table away. -/
theorem HasTables.stepOp {Q : Finset (List UInt64)} (h : s.HasTables Q i)
    (hmapped : s.Mapped alloc base top) (halloc : alloc ≠ 0) (op : SpaceOp) :
    (s.stepOp alloc op).HasTables Q i := by
  by_cases hne : i ≠ s.target op
  · exact h.other hmapped (hmapped.stepOp halloc op).1 hne (count_le_stepOp s alloc op)
  have htarget : i = s.target op := not_not.mp hne
  cases op with
  | call c =>
    cases c with
    | create asid partId =>
      have hlt := h.index
      rw [show i = s.count from htarget] at hlt
      exact absurd hlt (Nat.lt_irrefl _)
    | map j vaddr paddr size perms color =>
      obtain rfl : i = j := htarget
      obtain ⟨-, -, R, -, hs⟩ :=
        hmapped.map_ok_iff halloc h.index h.root vaddr paddr size perms color
      simp only [Spaces.stepOp, Spaces.step, if_pos h.index]
      exact h.of_supplies hs
  | unmap j vaddr size =>
    obtain rfl : i = j := htarget
    obtain ⟨label, htree⟩ := hmapped.tree halloc h.index h.root
    simp only [Spaces.stepOp, if_pos h.index, vspaceUnmap, if_neg h.root]
    split_ifs
    · exact h
    · refine ⟨h.index, h.root, fun q hq => ?_⟩
      obtain ⟨hpath, hsome⟩ := h.tables q hq
      refine ⟨hpath, ?_⟩
      show Radix.walk sv39 (unmapLoop _ s.mem.words (s.vs i).root vaddr) (s.vs i).root q ≠ none
      rw [htree.walk_unmapLoop _ vaddr hpath]
      exact hsome

theorem HasTables.run {Q : Finset (List UInt64)} (h : s.HasTables Q i)
    (hmapped : s.Mapped alloc base top) (halloc : alloc ≠ 0) (ops : List SpaceOp) :
    (Run.exec (Spaces.stepOp alloc) s ops).HasTables Q i := by
  induction ops generalizing s with
  | nil => exact h
  | cons op ops ih => exact ih (h.stepOp hmapped halloc op) (hmapped.stepOp halloc op).1.mapped

end Spaces

/-- A range that `vspace_map` has mapped once can be mapped again whenever it is free, after
any calls on any address spaces over the allocator and with no page-table page left. -/
theorem remap_succeeds {m : Memory} {alloc : UInt64} (halloc : alloc ≠ 0)
    (hready : (m.allocs alloc).Ready (m.allocs alloc).base.toNat (m.allocs alloc).top.toNat)
    (ops ops' : List SpaceOp) {i : Nat} {vaddr paddr size : UInt64} {perms : UInt8}
    {color : UInt16} :
    let s := Run.exec (Spaces.stepOp alloc) (Spaces.start m) ops
    let s' := Run.exec (Spaces.stepOp alloc)
      (s.stepOp alloc (.call (.map i vaddr paddr size perms color))) ops'
    i < s.count → (vspaceMap s.mem (s.vs i) vaddr paddr size perms color).1 = .ok →
    (∀ o, o < pagesIn size → s'.translates i (pageAt vaddr o) = none) →
    ∀ paddr' perms', paddr' % pageSize = 0 →
      (vspaceMap s'.mem (s'.vs i) vaddr paddr' size perms' color).1 = .ok := by
  intro s s' hi hok hfree paddr' perms' hpaddr'
  have hmapped : s.Mapped alloc _ _ := Spaces.reached_mapped halloc hready ops
  have hroot : (s.vs i).root ≠ 0 := by
    intro hzero
    rw [vspaceMap, if_pos hzero] at hok
    cases hok
  obtain ⟨hiff, hsupplies, -⟩ := hmapped.map_ok_iff halloc hi hroot vaddr paddr size perms color
  obtain ⟨hchecks, hsize, -⟩ := hiff.mp hok
  have hafter : (s.stepOp alloc (.call (.map i vaddr paddr size perms color))).HasTables
      (tablePaths (pagesIn size) vaddr) i := by
    simp only [Spaces.stepOp, Spaces.step, if_pos hi]
    refine ⟨hi, ?_, fun q hq => ?_⟩
    · rw [Spaces.put_vs_self, (hsupplies hok).root]
      exact hroot
    · rw [Spaces.put_vs_self]
      have hpath := isTablePath_of_mem hq
      exact ⟨hpath, fun hnone => (((hsupplies hok).missing q hpath).mp hnone).2 hq⟩
  have hmapped₁ := (hmapped.stepOp halloc (.call (.map i vaddr paddr size perms color))).1.mapped
  have htables : s'.HasTables (tablePaths (pagesIn size) vaddr) i :=
    hafter.run hmapped₁ halloc ops'
  have hmapped' : s'.Mapped alloc _ _ :=
    Run.exec_invariant_of_forall (fun _ op ht => (ht.stepOp halloc op).1.mapped) ops' hmapped₁
  obtain ⟨hiff', -⟩ :=
    hmapped'.map_ok_iff halloc htables.index htables.root vaddr paddr' size perms' color
  have hnone : s'.missingFor i vaddr size = ∅ :=
    Finset.filter_false_of_mem fun q hq => (htables.tables q hq).2
  refine hiff'.mpr ⟨⟨⟨hchecks.aligned.1, hpaddr', hchecks.aligned.2.2⟩, hchecks.even,
    hchecks.color⟩, hsize, hfree, ?_⟩
  rw [hnone]
  exact Nat.zero_le _

/-- A page is mapped and given up, and a mapping elsewhere fails for want of tables. -/
def givenUp : Spaces :=
  Run.exec (Spaces.stepOp 1)
    ((Run.exec (Spaces.stepOp 1) (Spaces.start narrowPool) [.call (.create 1 0)]).stepOp 1
      (.call (.map 0 0x1000 0x80500000 0x1000 3 0)))
    [.unmap 0 0x1000 0x1000, .call (.map 0 0x40000000 0x80500000 0x1000 3 0)]

/-- With no page left, the page that was given up can be mapped again. -/
theorem remap_succeeds_narrow :
    pagesLeft givenUp.mem (givenUp.vs 0) = 0 ∧ givenUp.translates 0 0x40000000 = none ∧
      (vspaceMap givenUp.mem (givenUp.vs 0) 0x1000 0x80600000 0x1000 1 0).1 = .ok := by
  have hready : (narrowPool.allocs 1).Ready (narrowPool.allocs 1).base.toNat
      (narrowPool.allocs 1).top.toNat := allocInit_ready (by decide) (by decide)
  have hfree : ∀ o, o < pagesIn 0x1000 → givenUp.translates 0 (pageAt 0x1000 o) = none := by
    intro o ho
    obtain rfl : o = 0 := Nat.lt_one_iff.mp ho
    decide +kernel
  refine ⟨by decide +kernel, by decide +kernel, ?_⟩
  exact remap_succeeds (by decide) hready [.call (.create 1 0)] _ (by decide +kernel)
    (by decide +kernel) hfree 0x80600000 1 (by decide)

end Moonlight
