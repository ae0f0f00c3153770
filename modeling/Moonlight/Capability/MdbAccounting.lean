/-
The accounts of the mapping database: `count` and `free_head`.

The counter is redundant with the valid bits and `free_head` is only a lower bound of
the free indices, moved up by an insertion that lands on it and down by every removal.
A revoke changes both once for every node it clears, so the counter is exact only
because the traversal meets each node below the revoked one once.
-/
import Mathlib.Data.Finset.Card
import Mathlib.Order.Bounds.Defs
import Moonlight.Capability.MdbForest

namespace Moonlight

open Mdb (nil)
open Relation Threaded

namespace Mdb

/-- The nodes in use. -/
def used (mdb : Mdb) : Finset Nat :=
  (Finset.range maxMdbNodes).filter fun i => (mdb.nodes i).valid = true

theorem mem_used {mdb : Mdb} {i : Nat} : i ∈ mdb.used ↔ mdb.Valid i := by
  rw [used, Finset.mem_filter, Finset.mem_range, Valid]

theorem card_used_le (mdb : Mdb) : mdb.used.card ≤ maxMdbNodes :=
  (Finset.card_filter_le _ _).trans (Finset.card_range _).le

/-- The counter is exact, and every index below `free_head` is in use. -/
structure Accounted (mdb : Mdb) : Prop where
  count : mdb.count.toNat = mdb.used.card
  packed : ∀ i, i < mdb.freeHead → mdb.Valid i

/-- With a free index the counter is below the capacity. -/
theorem Accounted.count_lt {mdb : Mdb} (h : mdb.Accounted) {i : Nat} (hi : i < maxMdbNodes)
    (hfree : ¬ mdb.Valid i) : mdb.count.toNat < maxMdbNodes := by
  have hss : mdb.used ⊂ Finset.range maxMdbNodes := by
    refine Finset.ssubset_iff_of_subset (Finset.filter_subset _ _) |>.mpr ⟨i, ?_, ?_⟩
    · exact Finset.mem_range.mpr hi
    · exact fun hmem => hfree (mem_used.mp hmem)
  rw [h.count]
  exact (Finset.card_lt_card hss).trans_eq (Finset.card_range _)

theorem Accounted.insert {mdb mdb' : Mdb} (h : mdb.Accounted) {idx : Nat} (hfree : ¬ mdb.Valid idx)
    (hvalid : ∀ j, mdb'.Valid j ↔ mdb.Valid j ∨ j = idx) (hcount : mdb'.count = mdb.count + 1)
    (hhead : mdb'.freeHead = if idx = mdb.freeHead then idx + 1 else mdb.freeHead) :
    mdb'.Accounted := by
  have hused : mdb'.used = Insert.insert idx mdb.used := by
    ext j
    rw [mem_used, hvalid, Finset.mem_insert, mem_used, or_comm]
  have hcard : mdb'.used.card = mdb.used.card + 1 := by
    rw [hused, Finset.card_insert_of_notMem fun hmem => hfree (mem_used.mp hmem)]
  have hle := mdb'.card_used_le
  refine ⟨?_, fun i hi => ?_⟩
  · rw [hcount, UInt32.toNat_add, h.count, hcard]
    simp only [maxMdbNodes] at hle
    show (mdb.used.card + 1) % 2 ^ 32 = mdb.used.card + 1
    omega
  · rw [hhead] at hi
    rw [hvalid]
    split_ifs at hi
    · by_cases hii : i = idx
      · exact Or.inr hii
      · exact Or.inl (h.packed i (by omega))
    · exact Or.inl (h.packed i hi)

/-- Removing valid nodes keeps the accounts when the counter goes down by their number
and `free_head` to the lowest of them. -/
theorem Accounted.remove {mdb mdb' : Mdb} (h : mdb.Accounted) (removed : List Nat)
    (hnodup : removed.Nodup) (hold : ∀ j ∈ removed, mdb.Valid j)
    (hvalid : ∀ j, mdb'.Valid j ↔ mdb.Valid j ∧ j ∉ removed)
    (hcount : mdb'.count = mdb.count - UInt32.ofNat removed.length)
    (hhead : ∀ i, i < mdb'.freeHead → i < mdb.freeHead ∧ i ∉ removed) : mdb'.Accounted := by
  have hused : mdb'.used = mdb.used \ removed.toFinset := by
    ext j
    rw [mem_used, hvalid, Finset.mem_sdiff, mem_used, List.mem_toFinset]
  have hsub : removed.toFinset ⊆ mdb.used := fun j hj =>
    mem_used.mpr (hold j (List.mem_toFinset.mp hj))
  have hcard : mdb'.used.card = mdb.used.card - removed.length := by
    rw [hused, Finset.card_sdiff_of_subset hsub, List.toFinset_card_of_nodup hnodup]
  have hlen : removed.length ≤ mdb.used.card := by
    rw [← List.toFinset_card_of_nodup hnodup]
    exact Finset.card_le_card hsub
  have hle := mdb.card_used_le
  refine ⟨?_, fun i hi => ?_⟩
  · simp only [maxMdbNodes] at hle
    rw [hcount, UInt32.toNat_sub, UInt32.toNat_ofNat', h.count, hcard]
    omega
  · obtain ⟨hlt, hnot⟩ := hhead i hi
    exact (hvalid i).mpr ⟨h.packed i hlt, hnot⟩

theorem clearAll_freeHead (l : List Nat) (mdb : Mdb) {i : Nat}
    (hi : i < (l.foldl clear mdb).freeHead) : i < mdb.freeHead ∧ i ∉ l := by
  induction l generalizing mdb with
  | nil => exact ⟨hi, List.not_mem_nil⟩
  | cons j l ih =>
    obtain ⟨hlt, hnot⟩ := ih (mdb.clear j) hi
    have hlt' : i < if j < mdb.freeHead then j else mdb.freeHead := hlt
    rw [List.mem_cons, not_or]
    split_ifs at hlt'
    · exact ⟨by omega, by omega, hnot⟩
    · exact ⟨hlt', by omega, hnot⟩

theorem free_freeHead (mdb : Mdb) (idx : Nat) {i : Nat} (hi : i < (mdb.free idx).freeHead) :
    i < mdb.freeHead ∧ i ≠ idx := by
  have hlt : i < if idx < mdb.freeHead then idx else mdb.freeHead := hi
  split_ifs at hlt
  · exact ⟨by omega, by omega⟩
  · exact ⟨hlt, by omega⟩

/-- Freeing one valid node, whatever has happened to the links before. -/
theorem Accounted.free {mdb linked : Mdb} (h : mdb.Accounted) {idx : Nat} (hidx : mdb.Valid idx)
    (hcount : linked.count = mdb.count) (hhead : linked.freeHead = mdb.freeHead)
    (hvalid : ∀ j, (linked.nodes j).valid = (mdb.nodes j).valid) : (linked.free idx).Accounted := by
  refine h.remove [idx] (List.nodup_singleton idx) ?_ (fun j => ?_) ?_ fun i hi => ?_
  · intro j hj
    rw [List.mem_singleton.mp hj]
    exact hidx
  · rw [valid_free_iff idx hvalid, List.mem_singleton]
  · show linked.count - 1 = mdb.count - 1
    rw [hcount]
  · rw [List.mem_singleton, ← hhead]
    exact linked.free_freeHead idx hi

theorem writeLink_counters (mdb : Mdb) (p : LinkPtr) (v : Nat) :
    (mdb.writeLink p v).count = mdb.count ∧ (mdb.writeLink p v).freeHead = mdb.freeHead := by
  cases p with
  | firstChild i => exact ⟨rfl, rfl⟩
  | nextSibling i => exact ⟨rfl, rfl⟩

theorem writeLink_valid (mdb : Mdb) (p : LinkPtr) (v j : Nat) :
    ((mdb.writeLink p v).nodes j).valid = (mdb.nodes j).valid := by
  rw [writeLink_nodes]

theorem mdbInit_accounted : mdbInit.Accounted :=
  ⟨by simp [used, mdbInit], fun _ hi => absurd hi (Nat.not_lt_zero _)⟩

end Mdb

theorem mdbInsert_counters {mdb mdb' : Mdb} {parentIdx idx : Nat} {cptr : UInt32} {cap : Cap}
    (h : mdbInsert mdb parentIdx cptr cap = (.ok, some idx, mdb')) :
    mdb'.count = mdb.count + 1 ∧
      mdb'.freeHead = if idx = mdb.freeHead then idx + 1 else mdb.freeHead := by
  unfold mdbInsert at h
  split at h
  · cases h
  · split at h
    · cases h
    · cases h
      exact ⟨rfl, rfl⟩

/-! ### Runs -/

theorem mdbInsert_accounted {mdb : Mdb} (h : mdb.Accounted) {parentIdx : Nat}
    (hparent : parentIdx = nil ∨ mdb.Valid parentIdx) (cptr : UInt32) (cap : Cap) :
    (mdbInsert mdb parentIdx cptr cap).2.2.Accounted := by
  rcases mdbInsert_spec hparent cptr cap with
    ⟨e, heq⟩ | ⟨idx, mdb', heq, hlt, hfree, ⟨next, hat, -⟩, hother⟩
  · rw [heq]
    exact h
  · obtain ⟨hcount, hhead⟩ := mdbInsert_counters heq
    rw [heq]
    exact h.insert hfree (Mdb.valid_insert_iff hlt hat hother) hcount hhead

theorem mdbRevoke_accounted {mdb mdb' : Mdb} (hf : mdb.Forest) (h : mdb.Accounted) {idx : Nat}
    (hidx : mdb.Valid idx) (hy : Fuel.Yields (fun fuel => mdbRevoke fuel mdb idx) (.ok, mdb')) :
    mdb'.Accounted := by
  obtain ⟨l, hwalk, hnodup, hmem⟩ := hf.exists_walk mdb.finite_valid idx hidx
  have heq := (Prod.mk.inj (hy.unique (mdbRevoke_walk_yields hidx hwalk))).2
  have hself : idx ∉ l := fun hl => hf.acyclic hidx ((hmem idx).mp hl).2
  refine h.remove l hnodup (fun j hj => ((hmem j).mp hj).1) (fun j => ?_) ?_ fun i hi => ?_
  · have hnode : (mdb'.nodes j).valid = ((l.foldl Mdb.clear mdb).nodes j).valid := by
      rw [heq]
      by_cases hj : j = idx
      · rw [hj, Mdb.setNode_self]
      · rw [Mdb.setNode_ne hj]
    rw [Mdb.Valid, hnode, Mdb.clearAll_nodes]
    by_cases hj : j ∈ l
    · simp [hj]
    · simp [hj, Mdb.Valid]
  · rw [heq]
    exact Mdb.clearAll_count l mdb
  · rw [heq] at hi
    exact Mdb.clearAll_freeHead l mdb hi

theorem mdbDelete_accounted {mdb mdb' : Mdb} (hf : mdb.Forest) (h : mdb.Accounted) {idx : Nat}
    (hidx : mdb.Valid idx) (hleaf : mdb.firstOf idx = nil)
    (hy : Fuel.Yields (fun fuel => mdbDelete fuel mdb idx) (.ok, mdb')) : mdb'.Accounted := by
  obtain ⟨linked, hlinked, hroot, hchild⟩ := mdbDelete_yields hf hidx hleaf
  rw [(Prod.mk.inj (hy.unique hlinked)).2]
  rcases hf.closed idx hidx with hp | hp
  · rw [hroot hp]
    exact h.free hidx rfl rfl fun _ => rfl
  · obtain ⟨pre, post, -, rfl⟩ := hchild hp
    obtain ⟨hcount, hhead⟩ := mdb.writeLink_counters
      ((LinkPtr.firstChild (mdb.parentOf idx)).after pre) (mdb.nextOf idx)
    exact h.free hidx hcount hhead (mdb.writeLink_valid _ _)

theorem mdbCall_accounted {mdb mdb' : Mdb} (hf : mdb.Forest) (h : mdb.Accounted)
    (hcall : MdbCall mdb mdb') : mdb'.Accounted := by
  cases hcall with
  | insert parentIdx cptr cap hparent => exact mdbInsert_accounted h hparent cptr cap
  | revoke idx hy =>
    rcases mdbRevoke_cases hy with rfl | ⟨hidx, rfl⟩
    · exact h
    · exact mdbRevoke_accounted hf h hidx hy
  | delete idx hy =>
    rcases mdbDelete_cases hy with rfl | ⟨hidx, hleaf, rfl⟩
    · exact h
    · exact mdbDelete_accounted hf h hidx hleaf hy

theorem mdb_accounted {mdb : Mdb} (h : ReflTransGen MdbCall mdbInit mdb) : mdb.Accounted := by
  induction h with
  | refl => exact Mdb.mdbInit_accounted
  | tail hrun hstep ih => exact mdbCall_accounted (mdb_forest_of_reachable hrun).1 ih hstep

/-! ### The index an insertion takes -/

/-- The free indices of the array. -/
def Mdb.freeSet (mdb : Mdb) : Set Nat := {i | i < maxMdbNodes ∧ ¬ mdb.Valid i}

/-- The scan starts at `free_head` and still finds the least free index of the whole
array, since nothing below `free_head` is free. -/
theorem Mdb.Accounted.scan {mdb : Mdb} (h : mdb.Accounted) {idx : Nat}
    (hscan : (List.range' mdb.freeHead (maxMdbNodes - mdb.freeHead)).find?
      (fun i => !(mdb.nodes i).valid) = some idx) : IsLeast mdb.freeSet idx := by
  obtain ⟨hfree, hmem, hbefore⟩ := List.find?_range'_eq_some.mp hscan
  rw [List.mem_range'_1] at hmem
  refine ⟨⟨by omega, fun hv => ?_⟩, fun i hi => ?_⟩
  · rw [hv.2] at hfree
    exact absurd hfree (by decide)
  · by_contra hlt
    by_cases hhead : i < mdb.freeHead
    · exact hi.2 (h.packed i hhead)
    · have hvalid := hbefore i (by omega) (by omega)
      exact hi.2 ⟨hi.1, by simpa using hvalid⟩

theorem Mdb.Accounted.scan_none {mdb : Mdb} (h : mdb.Accounted)
    (hscan : (List.range' mdb.freeHead (maxMdbNodes - mdb.freeHead)).find?
      (fun i => !(mdb.nodes i).valid) = none) : mdb.freeSet = ∅ := by
  refine Set.eq_empty_iff_forall_notMem.mpr fun i hi => ?_
  by_cases hhead : i < mdb.freeHead
  · exact hi.2 (h.packed i hhead)
  · have hlt := hi.1
    have hvalid := List.find?_eq_none.mp hscan i (List.mem_range'_1.mpr (by omega))
    exact hi.2 ⟨hlt, by simpa using hvalid⟩

/-- With exact accounts both refusals of `mdb_insert` mean that the array is full. -/
theorem mdbInsert_least {mdb : Mdb} (h : mdb.Accounted) (parentIdx : Nat) (cptr : UInt32)
    (cap : Cap) :
    (mdb.freeSet = ∅ ∧ mdbInsert mdb parentIdx cptr cap = (.noMem, none, mdb)) ∨
    ∃ idx mdb', IsLeast mdb.freeSet idx ∧
      mdbInsert mdb parentIdx cptr cap = (.ok, some idx, mdb') := by
  unfold mdbInsert
  by_cases hcount : mdb.count.toNat ≥ maxMdbNodes
  · rw [if_pos hcount]
    refine Or.inl ⟨Set.eq_empty_iff_forall_notMem.mpr fun i hi => ?_, rfl⟩
    have := h.count_lt hi.1 hi.2
    omega
  · rw [if_neg hcount]
    cases hscan : (List.range' mdb.freeHead (maxMdbNodes - mdb.freeHead)).find? fun i =>
        !(mdb.nodes i).valid with
    | none => exact Or.inl ⟨h.scan_none hscan, rfl⟩
    | some idx => exact Or.inr ⟨idx, _, h.scan hscan, rfl⟩

theorem Mdb.freeSet_eq_empty_iff {mdb : Mdb} :
    mdb.freeSet = ∅ ↔ ∀ i, i < maxMdbNodes → mdb.Valid i := by
  rw [Set.eq_empty_iff_forall_notMem]
  exact forall_congr' fun i => ⟨fun hi hlt => not_not.mp fun hv => hi ⟨hlt, hv⟩,
    fun hi hfree => hfree.2 (hi hfree.1)⟩

/-- In every state reached from `mdb_init` the accounts are exact, and whatever parent
it names an insertion is refused with `ERR_NO_MEM` exactly when every node is valid and
otherwise takes the smallest free index. -/
theorem mdb_accounting_of_reachable {mdb : Mdb} (h : ReflTransGen MdbCall mdbInit mdb) :
    mdb.count.toNat = mdb.used.card ∧ (∀ i, i < mdb.freeHead → mdb.Valid i) ∧
    ∀ (parentIdx : Nat) (cptr : UInt32) (cap : Cap),
      ((mdbInsert mdb parentIdx cptr cap).1 = .noMem ↔ ∀ i, i < maxMdbNodes → mdb.Valid i) ∧
      ((¬ ∀ i, i < maxMdbNodes → mdb.Valid i) → ∃ idx, IsLeast mdb.freeSet idx ∧
        (mdbInsert mdb parentIdx cptr cap).1 = .ok ∧
        (mdbInsert mdb parentIdx cptr cap).2.1 = some idx) := by
  have hacc := mdb_accounted h
  refine ⟨hacc.count, hacc.packed, fun parentIdx cptr cap => ?_⟩
  rw [← Mdb.freeSet_eq_empty_iff]
  rcases mdbInsert_least hacc parentIdx cptr cap with ⟨hfull, heq⟩ | ⟨idx, mdb', hleast, heq⟩
  · rw [heq]
    exact ⟨⟨fun _ => hfull, fun _ => rfl⟩, fun hne => absurd hfull hne⟩
  · have hne : mdb.freeSet ≠ ∅ := Set.nonempty_iff_ne_empty.mp ⟨idx, hleast.1⟩
    rw [heq]
    exact ⟨⟨fun h => (by cases h), fun hfull => absurd hfull hne⟩, fun _ => ⟨idx, hleast, rfl, rfl⟩⟩

theorem mdb_accounting_of_chain :
    ReflTransGen MdbCall mdbInit mdbChain ∧ mdbChain.used.card = 3 ∧
      (mdbInsert mdbChain nil 0 Cap.zero).1 ≠ .noMem := by
  have hacc := mdb_accounting_of_reachable mdbChain_reachable
  refine ⟨mdbChain_reachable, hacc.1.symm, fun hno => ?_⟩
  have hfull := (hacc.2.2 nil 0 Cap.zero).1.mp hno 3 (by decide)
  exact absurd hfull.2 (by decide)

end Moonlight
