/-
The mapping database as the kernel's own callers use it.

`process_create` inserts root nodes and `handle_invoke` inserts below node 0, whatever
that node is at the time.  No other parent is ever named, so the database has two
levels: only node 0 has children.  When node 0 is free at a retype, the insertion takes
index 0 itself and the new node becomes its own parent; the two levels stay, but the
children of node 0 then include node 0.
-/
import Moonlight.Capability.MdbAccounting

namespace Moonlight

open Mdb (nil)
open Relation Threaded

namespace Mdb

/-! ### The two levels -/

/-- Only node 0 has children.  The key fields that `mdb_insert` never sets are zero. -/
structure Flat (mdb : Mdb) : Prop where
  accounted : mdb.Accounted
  keys : ∀ i, (mdb.nodes i).cnodeId = 0 ∧ (mdb.nodes i).slot = 0
  parent : ∀ i, mdb.parentOf i = nil ∨ mdb.parentOf i = 0
  leaf : ∀ i, mdb.Valid i → i ≠ 0 → mdb.firstOf i = nil
  top : ∀ i, mdb.Valid i → mdb.parentOf i = 0 → mdb.Valid 0
  children : mdb.Valid 0 → ∃ l, Linked mdb.nextOf nil (mdb.firstOf 0) l ∧
    ∀ j, j ∈ l ↔ mdb.Valid j ∧ mdb.parentOf j = 0

theorem zero_ne_nil : (0 : Nat) ≠ nil := by decide

theorem free_self (mdb : Mdb) (i : Nat) : (mdb.free i).nodes i = MdbNode.freed :=
  Function.update_self ..

theorem mdbInit_flat : mdbInit.Flat where
  accounted := mdbInit_accounted
  keys := fun _ => ⟨rfl, rfl⟩
  parent := fun _ => Or.inl rfl
  leaf := fun _ hi => absurd hi.2 Bool.false_ne_true
  top := fun _ hi => absurd hi.2 Bool.false_ne_true
  children := fun h => absurd h.2 Bool.false_ne_true

end Mdb

/-! ### Insertion -/

/-- A new node at `idx`, and the others with the parent and the key they had. -/
structure Inserted (mdb mdb' : Mdb) (idx parentIdx : Nat) (cptr : UInt32) : Prop where
  free : ¬ mdb.Valid idx
  valid : ∀ j, mdb'.Valid j ↔ mdb.Valid j ∨ j = idx
  parent : mdb'.parentOf idx = parentIdx
  key : (mdb'.nodes idx).cptr = cptr
  kept : ∀ j, j ≠ idx → mdb'.parentOf j = mdb.parentOf j ∧ (mdb'.nodes j).cptr = (mdb.nodes j).cptr

/-- An accepted insertion that names no parent, or a valid one. -/
structure Hung (mdb mdb' : Mdb) (idx parentIdx : Nat) (cptr : UInt32) : Prop where
  lt : idx < maxMdbNodes
  free : ¬ mdb.Valid idx
  accounted : mdb.Accounted → mdb'.Accounted
  new : ∃ next cap, mdb'.nodes idx = MdbNode.fresh parentIdx next cptr cap ∧
    (mdb.Valid parentIdx → next = mdb.firstOf parentIdx)
  other : ∀ j, j ≠ idx → ∃ first, mdb'.nodes j = { mdb.nodes j with firstChild := first } ∧
    (j ≠ parentIdx → first = mdb.firstOf j) ∧ (j = parentIdx → mdb.Valid j → first = idx)

theorem mdbInsert_hung {mdb : Mdb} {parentIdx : Nat}
    (hparent : parentIdx = nil ∨ mdb.Valid parentIdx) (cptr : UInt32) (cap : Cap) :
    (∃ e, mdbInsert mdb parentIdx cptr cap = (e, none, mdb)) ∨
    ∃ idx mdb', mdbInsert mdb parentIdx cptr cap = (.ok, some idx, mdb') ∧
      Hung mdb mdb' idx parentIdx cptr := by
  rcases mdbInsert_spec hparent cptr cap with
    ⟨e, heq⟩ | ⟨idx, mdb', heq, hlt, hfree, ⟨next, hat, hnext⟩, hother⟩
  · exact Or.inl ⟨e, heq⟩
  · obtain ⟨hcount, hhead⟩ := mdbInsert_counters heq
    have hvalid := Mdb.valid_insert_iff hlt hat hother
    exact Or.inr ⟨idx, mdb', heq, hlt, hfree, fun h => h.insert hfree hvalid hcount hhead,
      ⟨next, cap, hat, hnext⟩, hother⟩

namespace Hung

variable {mdb mdb' : Mdb} {idx parentIdx : Nat} {cptr : UInt32}

theorem valid (h : Hung mdb mdb' idx parentIdx cptr) (j : Nat) :
    mdb'.Valid j ↔ mdb.Valid j ∨ j = idx := by
  obtain ⟨next, cap, hat, -⟩ := h.new
  exact Mdb.valid_insert_iff h.lt hat h.other j

theorem ne_idx (h : Hung mdb mdb' idx parentIdx cptr) {j : Nat} (hj : mdb.Valid j) : j ≠ idx :=
  fun heq => h.free (heq ▸ hj)

theorem parentOf_new (h : Hung mdb mdb' idx parentIdx cptr) : mdb'.parentOf idx = parentIdx := by
  obtain ⟨next, cap, hat, -⟩ := h.new
  rw [Mdb.parentOf, hat]
  rfl

theorem firstOf_new (h : Hung mdb mdb' idx parentIdx cptr) : mdb'.firstOf idx = nil := by
  obtain ⟨next, cap, hat, -⟩ := h.new
  rw [Mdb.firstOf, hat]
  rfl

theorem nextOf_new (h : Hung mdb mdb' idx parentIdx cptr) (hp : mdb.Valid parentIdx) :
    mdb'.nextOf idx = mdb.firstOf parentIdx := by
  obtain ⟨next, cap, hat, hnext⟩ := h.new
  rw [Mdb.nextOf, hat]
  exact hnext hp

theorem parentOf_ne (h : Hung mdb mdb' idx parentIdx cptr) {j : Nat} (hj : j ≠ idx) :
    mdb'.parentOf j = mdb.parentOf j := by
  obtain ⟨first, hsame, -⟩ := h.other j hj
  rw [Mdb.parentOf, hsame]
  rfl

theorem nextOf_ne (h : Hung mdb mdb' idx parentIdx cptr) {j : Nat} (hj : j ≠ idx) :
    mdb'.nextOf j = mdb.nextOf j := by
  obtain ⟨first, hsame, -⟩ := h.other j hj
  rw [Mdb.nextOf, hsame]
  rfl

theorem firstOf_ne (h : Hung mdb mdb' idx parentIdx cptr) {j : Nat} (hj : j ≠ idx)
    (hp : j ≠ parentIdx) : mdb'.firstOf j = mdb.firstOf j := by
  obtain ⟨first, hsame, hkeep, -⟩ := h.other j hj
  rw [Mdb.firstOf, hsame]
  exact hkeep hp

theorem firstOf_parent (h : Hung mdb mdb' idx parentIdx cptr) (hp : mdb.Valid parentIdx) :
    mdb'.firstOf parentIdx = idx := by
  obtain ⟨first, hsame, -, hredirect⟩ := h.other parentIdx (h.ne_idx hp)
  rw [Mdb.firstOf, hsame]
  exact hredirect rfl hp

theorem inserted (h : Hung mdb mdb' idx parentIdx cptr) : Inserted mdb mdb' idx parentIdx cptr := by
  refine ⟨h.free, h.valid, h.parentOf_new, ?_, fun j hj => ⟨h.parentOf_ne hj, ?_⟩⟩
  · obtain ⟨next, cap, hat, -⟩ := h.new
    rw [hat]
    rfl
  · obtain ⟨first, hsame, -⟩ := h.other j hj
    rw [hsame]

theorem children_root (h : Hung mdb mdb' idx nil cptr) (hflat : mdb.Flat) (hv : mdb'.Valid 0) :
    ∃ l, Linked mdb'.nextOf nil (mdb'.firstOf 0) l ∧
      ∀ j, j ∈ l ↔ mdb'.Valid j ∧ mdb'.parentOf j = 0 := by
  have hnew : mdb'.parentOf idx ≠ 0 := by
    rw [h.parentOf_new]
    exact Ne.symm Mdb.zero_ne_nil
  have hmem' : ∀ j, mdb'.Valid j ∧ mdb'.parentOf j = 0 ↔ mdb.Valid j ∧ mdb.parentOf j = 0 := by
    intro j
    by_cases hj : j = idx
    · rw [hj]
      exact ⟨fun hv => absurd hv.2 hnew, fun hv => absurd hv.1 h.free⟩
    · rw [h.valid, h.parentOf_ne hj]
      simp [hj]
  by_cases h0 : mdb.Valid 0
  · obtain ⟨l, hl, hmem⟩ := hflat.children h0
    refine ⟨l, ?_, fun j => by rw [hmem', hmem]⟩
    rw [h.firstOf_ne (h.ne_idx h0) Mdb.zero_ne_nil]
    exact hl.congr fun j hj => h.nextOf_ne (h.ne_idx ((hmem j).mp hj).1)
  · -- The new root is node 0, and nothing was below it.
    have hidx : 0 = idx := ((h.valid 0).mp hv).resolve_left h0
    refine ⟨[], ?_, fun j => ?_⟩
    · rw [hidx, h.firstOf_new]
      exact .nil
    · rw [hmem']
      exact ⟨fun hj => absurd hj List.not_mem_nil, fun hj => absurd (hflat.top j hj.1 hj.2) h0⟩

theorem children_zero (h : Hung mdb mdb' idx 0 cptr) (hflat : mdb.Flat) (h0 : mdb.Valid 0) :
    ∃ l, Linked mdb'.nextOf nil (mdb'.firstOf 0) l ∧
      ∀ j, j ∈ l ↔ mdb'.Valid j ∧ mdb'.parentOf j = 0 := by
  obtain ⟨l, hl, hmem⟩ := hflat.children h0
  have hnil : idx ≠ nil := fun heq => absurd h.lt (by rw [heq]; decide)
  refine ⟨idx :: l, ?_, fun j => ?_⟩
  · rw [h.firstOf_parent h0]
    refine .cons hnil ?_
    rw [h.nextOf_new h0]
    exact hl.congr fun j hj => h.nextOf_ne (h.ne_idx ((hmem j).mp hj).1)
  · rw [List.mem_cons, hmem, h.valid]
    by_cases hj : j = idx
    · rw [hj, h.parentOf_new]
      exact ⟨fun _ => ⟨Or.inr rfl, rfl⟩, fun _ => Or.inl rfl⟩
    · rw [h.parentOf_ne hj]
      simp [hj]

theorem flat (h : Hung mdb mdb' idx parentIdx cptr) (hflat : mdb.Flat)
    (hparent : parentIdx = nil ∨ parentIdx = 0 ∧ mdb.Valid 0) : mdb'.Flat := by
  refine ⟨h.accounted hflat.accounted, fun i => ?_, fun i => ?_, fun i hi h0 => ?_,
    fun i hi hp => ?_, fun hv => ?_⟩
  · by_cases hi : i = idx
    · obtain ⟨next, cap, hat, -⟩ := h.new
      rw [hi, hat]
      exact ⟨rfl, rfl⟩
    · obtain ⟨first, hsame, -⟩ := h.other i hi
      rw [hsame]
      exact hflat.keys i
  · by_cases hi : i = idx
    · rw [hi, h.parentOf_new]
      exact hparent.imp_right And.left
    · rw [h.parentOf_ne hi]
      exact hflat.parent i
  · by_cases hidx : i = idx
    · rw [hidx]
      exact h.firstOf_new
    · have hold : mdb.Valid i := ((h.valid i).mp hi).resolve_right hidx
      have hip : i ≠ parentIdx := by
        rcases hparent with rfl | ⟨rfl, -⟩
        · exact fun heq => mdb.not_valid_nil (heq ▸ hold)
        · exact h0
      rw [h.firstOf_ne hidx hip]
      exact hflat.leaf i hold h0
  · refine (h.valid 0).mpr (Or.inl ?_)
    by_cases hidx : i = idx
    · rw [hidx, h.parentOf_new] at hp
      rcases hparent with hnil | ⟨-, h0⟩
      · exact absurd (hp.symm.trans hnil) Mdb.zero_ne_nil
      · exact h0
    · rw [h.parentOf_ne hidx] at hp
      exact hflat.top i (((h.valid i).mp hi).resolve_right hidx) hp
  · rcases hparent with rfl | ⟨rfl, h0⟩
    · exact h.children_root hflat hv
    · exact h.children_zero hflat h0

end Hung

theorem Mdb.Flat.insert {mdb : Mdb} (h : mdb.Flat) {parentIdx : Nat}
    (hparent : parentIdx = nil ∨ parentIdx = 0 ∧ mdb.Valid 0) (cptr : UInt32) (cap : Cap) :
    (∃ e, mdbInsert mdb parentIdx cptr cap = (e, none, mdb)) ∨
    ∃ idx mdb', mdbInsert mdb parentIdx cptr cap = (.ok, some idx, mdb') ∧
      Inserted mdb mdb' idx parentIdx cptr ∧ mdb'.Flat := by
  have hspec : parentIdx = nil ∨ mdb.Valid parentIdx := by
    rcases hparent with hp | ⟨rfl, hp⟩
    · exact Or.inl hp
    · exact Or.inr hp
  rcases mdbInsert_hung hspec cptr cap with herr | ⟨idx, mdb', heq, hhung⟩
  · exact Or.inl herr
  · exact Or.inr ⟨idx, mdb', heq, hhung.inserted, hhung.flat h hparent⟩

/-! ### Node 0 below itself -/

/-- With index 0 free, an insertion below index 0 makes a node that is its own parent
and its own first child. -/
theorem mdbInsert_self {mdb : Mdb} (hcount : mdb.count.toNat < maxMdbNodes) (hhead : mdb.freeHead = 0)
    (hfree : (mdb.nodes 0).valid = false) (cptr : UInt32) (cap : Cap) :
    ∃ mdb', mdbInsert mdb 0 cptr cap = (.ok, some 0, mdb') ∧
      mdb'.nodes = Function.update mdb.nodes 0
        { MdbNode.fresh 0 nil cptr cap with firstChild := 0 } := by
  have hfind : (List.range' mdb.freeHead (maxMdbNodes - mdb.freeHead)).find?
      (fun i => !(mdb.nodes i).valid) = some 0 := by
    rw [hhead, maxMdbNodes, Nat.sub_zero, List.range'_succ, List.find?_cons]
    simp [hfree]
  refine ⟨_, by rw [mdbInsert, if_neg (Nat.not_le.mpr hcount), hfind], ?_⟩
  simp [Mdb.setNode, MdbNode.fresh, nil, maxMdbNodes]

/-- Only the node at index 0 is new, and it is its own parent. -/
structure SelfHung (mdb mdb' : Mdb) (cptr : UInt32) : Prop where
  free : ¬ mdb.Valid 0
  new : ∃ cap, mdb'.nodes 0 = { MdbNode.fresh 0 nil cptr cap with firstChild := 0 }
  other : ∀ j, j ≠ 0 → mdb'.nodes j = mdb.nodes j

namespace SelfHung

variable {mdb mdb' : Mdb} {cptr : UInt32}

theorem valid_zero (h : SelfHung mdb mdb' cptr) : mdb'.Valid 0 := by
  obtain ⟨cap, hat⟩ := h.new
  exact ⟨by decide, by rw [hat]; rfl⟩

theorem valid_ne (h : SelfHung mdb mdb' cptr) {j : Nat} (hj : j ≠ 0) :
    mdb'.Valid j ↔ mdb.Valid j := by
  rw [Mdb.Valid, h.other j hj, Mdb.Valid]

theorem parentOf_zero (h : SelfHung mdb mdb' cptr) : mdb'.parentOf 0 = 0 := by
  obtain ⟨cap, hat⟩ := h.new
  rw [Mdb.parentOf, hat]
  rfl

theorem inserted (h : SelfHung mdb mdb' cptr) : Inserted mdb mdb' 0 0 cptr := by
  refine ⟨h.free, fun j => ?_, h.parentOf_zero, ?_, fun j hj => ?_⟩
  · by_cases hj : j = 0
    · rw [hj]
      exact ⟨fun _ => Or.inr rfl, fun _ => h.valid_zero⟩
    · rw [h.valid_ne hj]
      simp [hj]
  · obtain ⟨cap, hat⟩ := h.new
    rw [hat]
    rfl
  · rw [Mdb.parentOf, h.other j hj]
    exact ⟨rfl, rfl⟩

theorem children (h : SelfHung mdb mdb' cptr) (hflat : mdb.Flat) :
    Linked mdb'.nextOf nil (mdb'.firstOf 0) [0] ∧
      ∀ j, j ∈ [0] ↔ mdb'.Valid j ∧ mdb'.parentOf j = 0 := by
  obtain ⟨cap, hat⟩ := h.new
  have hfirst : mdb'.firstOf 0 = 0 := by rw [Mdb.firstOf, hat]
  have hnext : mdb'.nextOf 0 = nil := by
    rw [Mdb.nextOf, hat]
    rfl
  refine ⟨?_, fun j => ?_⟩
  · rw [hfirst]
    refine .cons Mdb.zero_ne_nil ?_
    rw [hnext]
    exact .nil
  · rw [List.mem_singleton]
    constructor
    · rintro rfl
      exact ⟨h.valid_zero, h.parentOf_zero⟩
    · rintro ⟨hj, hp⟩
      by_contra hj0
      rw [Mdb.parentOf, h.other j hj0] at hp
      exact h.free (hflat.top j ((h.valid_ne hj0).mp hj) hp)

theorem flat (h : SelfHung mdb mdb' cptr) (hflat : mdb.Flat) (haccounted : mdb'.Accounted) :
    mdb'.Flat := by
  obtain ⟨cap, hat⟩ := h.new
  refine ⟨haccounted, fun i => ?_, fun i => ?_, fun i hi h0 => ?_, fun _ _ _ => h.valid_zero,
    fun _ => ⟨[0], h.children hflat⟩⟩
  · by_cases hi : i = 0
    · rw [hi, hat]
      exact ⟨rfl, rfl⟩
    · rw [h.other i hi]
      exact hflat.keys i
  · by_cases hi : i = 0
    · rw [hi]
      exact Or.inr h.parentOf_zero
    · rw [Mdb.parentOf, h.other i hi]
      exact hflat.parent i
  · rw [Mdb.firstOf, h.other i h0]
    exact hflat.leaf i ((h.valid_ne h0).mp hi) h0

end SelfHung

theorem Mdb.Flat.insert_self {mdb : Mdb} (h : mdb.Flat) (hfree : ¬ mdb.Valid 0) (cptr : UInt32)
    (cap : Cap) :
    ∃ mdb', mdbInsert mdb 0 cptr cap = (.ok, some 0, mdb') ∧
      Inserted mdb mdb' 0 0 cptr ∧ mdb'.Flat := by
  have hhead : mdb.freeHead = 0 := by
    by_contra hpos
    exact hfree (h.accounted.packed 0 (Nat.pos_of_ne_zero hpos))
  have hinvalid : (mdb.nodes 0).valid = false := by
    by_contra hv
    exact hfree ⟨by decide, by simpa using hv⟩
  have hcount := h.accounted.count_lt (by decide) hfree
  obtain ⟨mdb', heq, hnodes⟩ := mdbInsert_self hcount hhead hinvalid cptr cap
  obtain ⟨hcount', hhead'⟩ := mdbInsert_counters heq
  have hself : SelfHung mdb mdb' cptr := by
    refine ⟨hfree, ⟨cap, ?_⟩, fun j hj => ?_⟩
    · rw [hnodes, Function.update_self]
    · rw [hnodes, Function.update_of_ne hj]
  have haccounted := h.accounted.insert hfree hself.inserted.valid hcount' hhead'
  exact ⟨mdb', heq, hself.inserted, hself.flat h haccounted⟩

/-- What `process_create` does to the database. -/
theorem Mdb.Flat.insert_root {mdb : Mdb} (h : mdb.Flat) (cptr : UInt32) (cap : Cap) :
    (mdbInsert mdb nil cptr cap).2.2.Flat ∧
      ((mdbInsert mdb nil cptr cap).2.2 = mdb ∨
        ∃ idx, Inserted mdb (mdbInsert mdb nil cptr cap).2.2 idx nil cptr) := by
  rcases h.insert (Or.inl rfl) cptr cap with ⟨e, heq⟩ | ⟨idx, mdb', heq, hinserted, hflat⟩
  · rw [heq]
    exact ⟨h, Or.inl rfl⟩
  · rw [heq]
    exact ⟨hflat, Or.inr ⟨idx, hinserted⟩⟩

/-- What a retype does to the database. -/
theorem Mdb.Flat.insert_zero {mdb : Mdb} (h : mdb.Flat) (cptr : UInt32) (cap : Cap) :
    (mdbInsert mdb 0 cptr cap).2.2.Flat ∧
      ((mdb.Valid 0 ∧ (mdbInsert mdb 0 cptr cap).2.2 = mdb) ∨
        (∃ idx, mdb.Valid 0 ∧ Inserted mdb (mdbInsert mdb 0 cptr cap).2.2 idx 0 cptr) ∨
        Inserted mdb (mdbInsert mdb 0 cptr cap).2.2 0 0 cptr) := by
  by_cases h0 : mdb.Valid 0
  · rcases h.insert (Or.inr ⟨rfl, h0⟩) cptr cap with ⟨e, heq⟩ | ⟨idx, mdb', heq, hinserted, hflat⟩
    · rw [heq]
      exact ⟨h, Or.inl ⟨h0, rfl⟩⟩
    · rw [heq]
      exact ⟨hflat, Or.inr (Or.inl ⟨idx, h0, hinserted⟩)⟩
  · obtain ⟨mdb', heq, hinserted, hflat⟩ := h.insert_self h0 cptr cap
    rw [heq]
    exact ⟨hflat, Or.inr (Or.inr hinserted)⟩

/-! ### Lookup -/

/-- What `mdb_lookup` compares with a thread id: the key fields are zero in every node,
so id 0 matches all of them. -/
def Mdb.Matches (mdb : Mdb) (tcbId : UInt32) (i : Nat) : Prop :=
  mdb.Valid i ∧ (tcbId = 0 ∨ (mdb.nodes i).cptr = tcbId)

theorem mdbLookup_cases {mdb : Mdb} (hkeys : ∀ i, (mdb.nodes i).cnodeId = 0 ∧ (mdb.nodes i).slot = 0)
    (tcbId : UInt32) :
    (mdbLookup mdb 0 tcbId = nil ∧ ∀ i, ¬ mdb.Matches tcbId i) ∨
    (mdb.Matches tcbId (mdbLookup mdb 0 tcbId) ∧
      ∀ i, i < mdbLookup mdb 0 tcbId → ¬ mdb.Matches tcbId i) := by
  have hencoded : (0 : UInt32) <<< 8 ||| tcbId = tcbId := UInt32.zero_or
  have htest : ∀ i, ((mdb.nodes i).valid &&
      ((mdb.nodes i).cnodeId == 0 && (mdb.nodes i).slot == tcbId ||
        (mdb.nodes i).cptr == tcbId && (0 : UInt32) == 0 ||
        (mdb.nodes i).cptr == ((0 : UInt32) <<< 8 ||| tcbId))) = true ↔
      (mdb.nodes i).valid = true ∧ (tcbId = 0 ∨ (mdb.nodes i).cptr = tcbId) := by
    intro i
    obtain ⟨hcnode, hslot⟩ := hkeys i
    rw [hencoded, hcnode, hslot]
    simp only [Bool.and_eq_true, Bool.or_eq_true, beq_iff_eq, true_and, and_true, or_assoc, or_self,
      eq_comm (a := (0 : UInt32))]
  unfold mdbLookup
  simp only
  cases hfind : (List.range maxMdbNodes).find? _ with
  | none =>
    refine Or.inl ⟨rfl, fun i hi => ?_⟩
    exact List.find?_eq_none.mp hfind i (List.mem_range.mpr hi.1.1) ((htest i).mpr ⟨hi.1.2, hi.2⟩)
  | some idx =>
    obtain ⟨hidx, hmem, hbefore⟩ := List.find?_range_eq_some.mp hfind
    obtain ⟨hvalid, hkey⟩ := (htest idx).mp hidx
    refine Or.inr ⟨⟨⟨List.mem_range.mp hmem, hvalid⟩, hkey⟩, fun i hi hmatch => ?_⟩
    have hnot := hbefore i hi
    rw [(htest i).mpr ⟨hmatch.1.2, hmatch.2⟩] at hnot
    exact absurd hnot (by decide)

/-! ### Removal -/

/-- Node `idx` and the nodes below it are gone. -/
structure Removed (mdb mdb' : Mdb) (idx : Nat) : Prop where
  valid : ∀ j, mdb'.Valid j ↔ mdb.Valid j ∧ j ≠ idx ∧ mdb.parentOf j ≠ idx
  freed : mdb'.nodes idx = MdbNode.freed
  kept : ∀ j, j ≠ idx → mdb'.parentOf j = mdb.parentOf j ∧ (mdb'.nodes j).cptr = (mdb.nodes j).cptr

theorem Mdb.Flat.parentOf_ne {mdb : Mdb} (h : mdb.Flat) {idx : Nat} (hidx : mdb.Valid idx)
    (h0 : idx ≠ 0) (j : Nat) : mdb.parentOf j ≠ idx := by
  rcases h.parent j with hp | hp
  · rw [hp]
    exact fun heq => mdb.not_valid_nil (heq ▸ hidx)
  · rw [hp]
    exact Ne.symm h0

/-- The array when the link to a node has been redirected: only links differ, and of the
first children only that of node 0. -/
structure Relinked (mdb linked : Mdb) : Prop where
  count : linked.count = mdb.count
  head : linked.freeHead = mdb.freeHead
  nodes : ∀ j, ∃ first next, linked.nodes j =
    { mdb.nodes j with firstChild := first, nextSibling := next } ∧ (j ≠ 0 → first = mdb.firstOf j)

theorem Mdb.relinked_refl (mdb : Mdb) : Relinked mdb mdb :=
  ⟨rfl, rfl, fun _ => ⟨_, _, rfl, fun _ => rfl⟩⟩

theorem Mdb.relinked_writeLink (mdb : Mdb) (pre : List Nat) (v : Nat) :
    Relinked mdb (mdb.writeLink ((LinkPtr.firstChild 0).after pre) v) := by
  obtain ⟨hcount, hhead⟩ := mdb.writeLink_counters ((LinkPtr.firstChild 0).after pre) v
  exact ⟨hcount, hhead, fun j => ⟨_, _, congrFun (mdb.writeLink_nodes _ _) j,
    fun hj => if_neg (LinkPtr.after_ne_firstChild hj pre)⟩⟩

namespace Relinked

variable {mdb linked : Mdb} {idx : Nat}

theorem valid_free (h : Relinked mdb linked) (idx j : Nat) :
    (linked.free idx).Valid j ↔ mdb.Valid j ∧ j ≠ idx := by
  refine Mdb.valid_free_iff idx (fun j => ?_) j
  obtain ⟨first, next, heq, -⟩ := h.nodes j
  rw [heq]

theorem kept (h : Relinked mdb linked) {j : Nat} (hj : j ≠ idx) :
    ∃ first next, (linked.free idx).nodes j =
      { mdb.nodes j with firstChild := first, nextSibling := next } ∧
        (j ≠ 0 → first = mdb.firstOf j) := by
  rw [Mdb.free_ne hj]
  exact h.nodes j

theorem parentOf_free (h : Relinked mdb linked) {j : Nat} (hj : j ≠ idx) :
    (linked.free idx).parentOf j = mdb.parentOf j := by
  obtain ⟨first, next, heq, -⟩ := h.kept hj
  rw [Mdb.parentOf, heq]
  rfl

theorem accounted (h : Relinked mdb linked) (hold : mdb.Accounted) (hidx : mdb.Valid idx) :
    (linked.free idx).Accounted := by
  refine hold.free hidx h.count h.head fun j => ?_
  obtain ⟨first, next, heq, -⟩ := h.nodes j
  rw [heq]

theorem removed (h : Relinked mdb linked) (hflat : mdb.Flat) (hidx : mdb.Valid idx) (h0 : idx ≠ 0) :
    Removed mdb (linked.free idx) idx := by
  refine ⟨fun j => ?_, linked.free_self idx, fun j hj => ⟨h.parentOf_free hj, ?_⟩⟩
  · rw [h.valid_free]
    exact ⟨fun hj => ⟨hj.1, hj.2, hflat.parentOf_ne hidx h0 j⟩, fun hj => ⟨hj.1, hj.2.1⟩⟩
  · obtain ⟨first, next, heq, -⟩ := h.kept hj
    rw [heq]

theorem flat (h : Relinked mdb linked) (hflat : mdb.Flat) (hidx : mdb.Valid idx) (h0 : idx ≠ 0)
    (hchildren : mdb.Valid 0 → ∃ l,
      Linked (linked.free idx).nextOf nil ((linked.free idx).firstOf 0) l ∧
        ∀ j, j ∈ l ↔ (mdb.Valid j ∧ mdb.parentOf j = 0) ∧ j ≠ idx) : (linked.free idx).Flat := by
  have hat := linked.free_self idx
  refine ⟨h.accounted hflat.accounted hidx, fun i => ?_, fun i => ?_, fun i hi hi0 => ?_,
    fun i hi hp => ?_, fun hv0 => ?_⟩
  · by_cases hi : i = idx
    · rw [hi, hat]
      exact ⟨rfl, rfl⟩
    · obtain ⟨first, next, heq, -⟩ := h.kept hi
      rw [heq]
      exact hflat.keys i
  · by_cases hi : i = idx
    · rw [hi, Mdb.parentOf, hat]
      exact Or.inl rfl
    · rw [h.parentOf_free hi]
      exact hflat.parent i
  · obtain ⟨hold, hne⟩ := (h.valid_free idx i).mp hi
    obtain ⟨first, next, heq, hfirst⟩ := h.kept hne
    rw [Mdb.firstOf, heq]
    exact (hfirst hi0).trans (hflat.leaf i hold hi0)
  · obtain ⟨hold, hne⟩ := (h.valid_free idx i).mp hi
    rw [h.parentOf_free hne] at hp
    exact (h.valid_free idx 0).mpr ⟨hflat.top i hold hp, Ne.symm h0⟩
  · obtain ⟨l, hl, hmem⟩ := hchildren ((h.valid_free idx 0).mp hv0).1
    refine ⟨l, hl, fun j => ?_⟩
    rw [hmem, h.valid_free]
    by_cases hj : j = idx
    · simp [hj]
    · rw [h.parentOf_free hj]
      tauto

end Relinked

theorem mdbRevoke_leaf_yields {mdb : Mdb} {idx : Nat} (hidx : mdb.Valid idx)
    (hleaf : mdb.firstOf idx = nil) :
    Fuel.Yields (fun fuel => mdbRevoke fuel mdb idx) (.ok, mdb) := by
  have hwalk : Walk mdb.firstOf mdb.nextOf nil (mdb.firstOf idx) [] := by
    rw [hleaf]
    exact .nil
  have hsame : mdb.setNode idx { mdb.nodes idx with firstChild := nil } = mdb := by
    have hnode : { mdb.nodes idx with firstChild := nil } = mdb.nodes idx := by
      rw [← hleaf]
      rfl
    rw [Mdb.setNode, hnode, Function.update_eq_self]
  have hyields := mdbRevoke_walk_yields hidx hwalk
  rw [List.foldl_nil, hsame] at hyields
  exact hyields

theorem Mdb.Flat.remove_leaf {mdb : Mdb} (h : mdb.Flat) {idx : Nat} (hidx : mdb.Valid idx)
    (h0 : idx ≠ 0) :
    ∃ mdb', Fuel.Yields (fun fuel => mdbDelete fuel mdb idx) (.ok, mdb') ∧
      Removed mdb mdb' idx ∧ mdb'.Flat := by
  have hleaf := h.leaf idx hidx h0
  rcases h.parent idx with hroot | hparent
  · have hsame := mdb.relinked_refl
    refine ⟨mdb.free idx, mdbDelete_root_yields hidx hleaf hroot, hsame.removed h hidx h0,
      hsame.flat h hidx h0 fun hv0 => ?_⟩
    obtain ⟨l, hl, hmem⟩ := h.children hv0
    have hnot : ∀ j ∈ l, j ≠ idx := by
      rintro j hj rfl
      exact Mdb.zero_ne_nil (((hmem j).mp hj).2.symm.trans hroot)
    refine ⟨l, ?_, fun j => ⟨fun hj => ⟨(hmem j).mp hj, hnot j hj⟩, fun hj => (hmem j).mpr hj.1⟩⟩
    have hfirst : (mdb.free idx).firstOf 0 = mdb.firstOf 0 := by
      rw [Mdb.firstOf, Mdb.free_ne (Ne.symm h0)]
      rfl
    rw [hfirst]
    refine hl.congr fun j hj => ?_
    rw [Mdb.nextOf, Mdb.free_ne (hnot j hj)]
    rfl
  · have hv0 := h.top idx hidx hparent
    obtain ⟨l, hl, hmem⟩ := h.children hv0
    obtain ⟨pre, post, rfl⟩ := List.append_of_mem ((hmem idx).mpr ⟨hidx, hparent⟩)
    rw [← hparent] at hl
    have hyields := mdbDelete_child_yields hidx hleaf (by rw [hparent]; exact Mdb.zero_ne_nil) hl
    rw [hparent] at hl hyields
    have hlinked := mdb.relinked_writeLink pre (mdb.nextOf idx)
    refine ⟨_, hyields, hlinked.removed h hidx h0,
      hlinked.flat h hidx h0 fun _ => ⟨pre ++ post, ?_, fun j => ?_⟩⟩
    · exact Mdb.linked_free (Ne.symm h0) hl rfl
    · rw [hl.mem_drop_iff, hmem]

/-- The children of node 0 are leaves, so the traversal below it is their list. -/
theorem Mdb.Flat.walk_zero {mdb : Mdb} (h : mdb.Flat) (h0 : mdb.Valid 0)
    (hroot : mdb.parentOf 0 = nil) :
    ∃ l, Walk mdb.firstOf mdb.nextOf nil (mdb.firstOf 0) l ∧ l.Nodup ∧
      ∀ j, j ∈ l ↔ mdb.Valid j ∧ mdb.parentOf j = 0 := by
  obtain ⟨l, hl, hmem⟩ := h.children h0
  have hbelow : ∀ c ∈ l, Walk mdb.firstOf mdb.nextOf nil (mdb.firstOf c) [] := by
    intro c hc
    obtain ⟨hvalid, hparent⟩ := (hmem c).mp hc
    have hc0 : c ≠ 0 := by
      rintro rfl
      exact Mdb.zero_ne_nil (hparent.symm.trans hroot)
    rw [h.leaf c hvalid hc0]
    exact .nil
  have hwalk := walk_of_linked hl (fun _ => []) hbelow
  refine ⟨l, ?_, hl.nodup, hmem⟩
  simpa using hwalk

/-- Node 0 has been freed and its children `l` cleared. -/
structure Pruned (mdb mdb' : Mdb) (l : List Nat) : Prop where
  gone : mdb'.nodes 0 = MdbNode.freed
  other : ∀ j, j ≠ 0 → mdb'.nodes j =
    if j ∈ l then { mdb.nodes j with cap := Cap.zero, valid := false } else mdb.nodes j

namespace Pruned

variable {mdb mdb' : Mdb} {l : List Nat}

theorem removed (h : Pruned mdb mdb' l) (hmem : ∀ j, j ∈ l ↔ mdb.Valid j ∧ mdb.parentOf j = 0) :
    Removed mdb mdb' 0 := by
  refine ⟨fun j => ?_, h.gone, fun j hj => ?_⟩
  · by_cases hj : j = 0
    · simp [hj, Mdb.Valid, h.gone, MdbNode.freed]
    · by_cases hl : j ∈ l
      · simp [Mdb.Valid, h.other j hj, hl, ((hmem j).mp hl).2]
      · have hp : mdb.Valid j → mdb.parentOf j ≠ 0 := fun hv hp => hl ((hmem j).mpr ⟨hv, hp⟩)
        rw [Mdb.Valid, h.other j hj, if_neg hl]
        exact ⟨fun hv => ⟨hv, hj, hp hv⟩, fun hv => hv.1⟩
  · rw [Mdb.parentOf, h.other j hj]
    split_ifs
    · exact ⟨rfl, rfl⟩
    · exact ⟨rfl, rfl⟩

theorem accounted (h : Pruned mdb mdb' l)
    (hmem : ∀ j, j ∈ l ↔ mdb.Valid j ∧ mdb.parentOf j = 0) (hnodup : (0 :: l).Nodup)
    (h0 : mdb.Valid 0) (hold : mdb.Accounted)
    (hcount : mdb'.count = mdb.count - UInt32.ofNat (l.length + 1))
    (hhead : ∀ i, i < mdb'.freeHead → i < mdb.freeHead ∧ i ∉ 0 :: l) : mdb'.Accounted := by
  refine hold.remove (0 :: l) hnodup (fun j hj => ?_) (fun j => ?_) hcount hhead
  · rcases List.mem_cons.mp hj with rfl | hj
    · exact h0
    · exact ((hmem j).mp hj).1
  · rw [(h.removed hmem).valid, List.mem_cons, not_or]
    refine and_congr_right fun hj => and_congr_right fun _ => ?_
    rw [hmem, not_and]
    exact ⟨fun hp _ => hp, fun hp => hp hj⟩

theorem flat (h : Pruned mdb mdb' l) (hmem : ∀ j, j ∈ l ↔ mdb.Valid j ∧ mdb.parentOf j = 0)
    (hflat : mdb.Flat) (haccounted : mdb'.Accounted) : mdb'.Flat := by
  have hremoved := h.removed hmem
  refine ⟨haccounted, fun i => ?_, fun i => ?_, fun i hi h0 => ?_, fun i hi hp => ?_,
    fun hv => absurd rfl ((hremoved.valid 0).mp hv).2.1⟩
  · by_cases hi : i = 0
    · rw [hi, h.gone]
      exact ⟨rfl, rfl⟩
    · rw [h.other i hi]
      split_ifs
      · exact hflat.keys i
      · exact hflat.keys i
  · by_cases hi : i = 0
    · rw [hi, Mdb.parentOf, h.gone]
      exact Or.inl rfl
    · rw [(hremoved.kept i hi).1]
      exact hflat.parent i
  · obtain ⟨hold, -, hp⟩ := (hremoved.valid i).mp hi
    have hl : i ∉ l := fun hl => hp ((hmem i).mp hl).2
    rw [Mdb.firstOf, h.other i h0, if_neg hl]
    exact hflat.leaf i hold h0
  · obtain ⟨-, hi0, hip⟩ := (hremoved.valid i).mp hi
    rw [(hremoved.kept i hi0).1] at hp
    exact absurd hp hip

end Pruned

/-- Revoking and deleting node 0, as long as it is not its own parent. -/
theorem Mdb.Flat.remove_zero {mdb : Mdb} (h : mdb.Flat) (h0 : mdb.Valid 0)
    (hroot : mdb.parentOf 0 = nil) :
    ∃ revoked mdb', Fuel.Yields (fun fuel => mdbRevoke fuel mdb 0) (.ok, revoked) ∧
      Fuel.Yields (fun fuel => mdbDelete fuel revoked 0) (.ok, mdb') ∧
      Removed mdb mdb' 0 ∧ mdb'.Flat := by
  obtain ⟨l, hwalk, hnodup, hmem⟩ := h.walk_zero h0 hroot
  have hnot : 0 ∉ l := fun hl => Mdb.zero_ne_nil (((hmem 0).mp hl).2.symm.trans hroot)
  have hrevoke := mdbRevoke_walk_yields h0 hwalk
  generalize hrevoked : (l.foldl Mdb.clear mdb).setNode 0
    { (l.foldl Mdb.clear mdb).nodes 0 with firstChild := nil } = revoked at hrevoke
  have hat : revoked.nodes 0 = { mdb.nodes 0 with firstChild := nil } := by
    rw [← hrevoked, Mdb.setNode_self, Mdb.clearAll_nodes, if_neg hnot]
  have hdelete : Fuel.Yields (fun fuel => mdbDelete fuel revoked 0) (.ok, revoked.free 0) := by
    refine mdbDelete_root_yields ⟨h0.1, ?_⟩ ?_ ?_
    · rw [hat]
      exact h0.2
    · rw [Mdb.firstOf, hat]
    · rw [Mdb.parentOf, hat]
      exact hroot
  have hpruned : Pruned mdb (revoked.free 0) l := by
    refine ⟨revoked.free_self 0, fun j hj => ?_⟩
    rw [Mdb.free_ne hj, ← hrevoked, Mdb.setNode_ne hj, Mdb.clearAll_nodes]
  have haccounted : (revoked.free 0).Accounted := by
    refine hpruned.accounted hmem (List.nodup_cons.mpr ⟨hnot, hnodup⟩) h0 h.accounted ?_
      fun i hi => ?_
    · have hcount : revoked.count = mdb.count - UInt32.ofNat l.length := by
        rw [← hrevoked]
        exact Mdb.clearAll_count l mdb
      show revoked.count - 1 = mdb.count - UInt32.ofNat (l.length + 1)
      rw [hcount, UInt32.ofNat_add]
      grind
    · obtain ⟨hlt, hne⟩ := revoked.free_freeHead 0 hi
      rw [← hrevoked] at hlt
      obtain ⟨hlt', hnl⟩ := Mdb.clearAll_freeHead l mdb hlt
      rw [List.mem_cons, not_or]
      exact ⟨hlt', hne, hnl⟩
  exact ⟨revoked, revoked.free 0, hrevoke, hdelete, hpruned.removed hmem,
    hpruned.flat hmem h haccounted⟩

/-! ### Divergence -/

theorem mdbRevoke_links (fuel : Nat) :
    (∀ {mdb mdb' : Mdb} {i : Nat}, mdbRevokeRecursive fuel mdb i = some mdb' →
      mdb'.firstOf = mdb.firstOf ∧ mdb'.nextOf = mdb.nextOf) ∧
    ∀ {mdb mdb' : Mdb} {a : Nat}, mdbRevokeSiblings fuel mdb a = some mdb' →
      mdb'.firstOf = mdb.firstOf ∧ mdb'.nextOf = mdb.nextOf := by
  induction fuel with
  | zero =>
    constructor
    · intro mdb mdb' i h
      cases h
    · intro mdb mdb' a h
      cases h
  | succ fuel ih =>
    constructor
    · intro mdb mdb' i h
      rw [mdbRevokeRecursive, Option.map_eq_some_iff] at h
      obtain ⟨below, hbelow, rfl⟩ := h
      obtain ⟨hfirst, hnext⟩ := ih.2 hbelow
      rw [← hfirst, ← hnext]
      exact ⟨Mdb.clearAll_firstOf [i] below, Mdb.clearAll_nextOf [i] below⟩
    · intro mdb mdb' a h
      rw [mdbRevokeSiblings] at h
      split_ifs at h
      · cases h
        exact ⟨rfl, rfl⟩
      · obtain ⟨mid, hmid, hrest⟩ := Option.bind_eq_some_iff.mp h
        obtain ⟨hfirst, hnext⟩ := ih.1 hmid
        obtain ⟨hfirst', hnext'⟩ := ih.2 hrest
        exact ⟨hfirst'.trans hfirst, hnext'.trans hnext⟩

/-- A node among its own children is revoked forever. -/
theorem mdbRevoke_loop {first next : Nat → Nat} {x : Nat} {l : List Nat}
    (hl : Linked next nil (first x) l) (hx : x ∈ l) (fuel : Nat) :
    (∀ mdb : Mdb, mdb.firstOf = first → mdb.nextOf = next → mdbRevokeRecursive fuel mdb x = none) ∧
    ∀ (mdb : Mdb) (a : Nat) (as : List Nat), mdb.firstOf = first → mdb.nextOf = next →
      Linked next nil a as → x ∈ as → mdbRevokeSiblings fuel mdb a = none := by
  induction fuel with
  | zero => exact ⟨fun _ _ _ => rfl, fun _ _ _ _ _ _ _ => rfl⟩
  | succ fuel ih =>
    refine ⟨fun mdb hfirst hnext => ?_, fun mdb a as hfirst hnext has hxa => ?_⟩
    · rw [← hfirst] at hl
      have hnone := ih.2 mdb _ l hfirst hnext hl hx
      rw [mdbRevokeRecursive, show (mdb.nodes x).firstChild = mdb.firstOf x from rfl, hnone]
      rfl
    · cases has with
      | nil => exact absurd hxa List.not_mem_nil
      | @cons _ as hne hrest =>
        rw [mdbRevokeSiblings, if_neg hne]
        by_cases hax : x = a
        · rw [← hax, ih.1 mdb hfirst hnext]
          rfl
        · have hxrest : x ∈ as := (List.mem_cons.mp hxa).resolve_left hax
          cases hmid : mdbRevokeRecursive fuel mdb a with
          | none => rfl
          | some mid =>
            obtain ⟨hfirst', hnext'⟩ := (mdbRevoke_links fuel).1 hmid
            have hnone := ih.2 mid (next a) as (hfirst'.trans hfirst) (hnext'.trans hnext) hrest
              hxrest
            rw [Option.bind_some, show (mdb.nodes a).nextSibling = next a from congrFun hnext a]
            exact hnone

theorem Mdb.Flat.revoke_diverges {mdb : Mdb} (h : mdb.Flat) (h0 : mdb.Valid 0)
    (hself : mdb.parentOf 0 = 0) (fuel : Nat) : mdbRevoke fuel mdb 0 = none := by
  obtain ⟨l, hl, hmem⟩ := h.children h0
  have hnone := (mdbRevoke_loop hl ((hmem 0).mpr ⟨h0, hself⟩) fuel).2 mdb (mdb.firstOf 0) l rfl rfl
    hl ((hmem 0).mpr ⟨h0, hself⟩)
  rw [mdbRevoke, if_neg (Nat.not_le.mpr h0.1), if_neg (by simp [h0.2])]
  exact Option.map_eq_none_iff.mpr hnone

/-! ### When the database is a forest -/

theorem Mdb.Flat.rooted {mdb : Mdb} (h : mdb.Flat) (hroot : mdb.parentOf 0 = nil) (i : Nat) :
    Rooted mdb.parentOf nil i := by
  refine .step ?_
  rcases h.parent i with hp | hp
  · rw [hp]
    exact .nil
  · rw [hp]
    refine .step ?_
    rw [hroot]
    exact .nil

theorem Mdb.Flat.forest {mdb : Mdb} (h : mdb.Flat) (hroot : mdb.parentOf 0 = nil) : mdb.Forest where
  nil_not := mdb.not_valid_nil
  closed := fun i hi => (h.parent i).imp_right fun hp => by
    rw [hp]
    exact h.top i hi hp
  rooted := fun i _ => h.rooted hroot i
  children := fun i hi => by
    by_cases h0 : i = 0
    · rw [h0] at hi ⊢
      obtain ⟨l, hl, hmem⟩ := h.children hi
      exact ⟨l, hl, hl.nodup, hmem⟩
    · refine ⟨[], ?_, List.nodup_nil, fun j => ⟨fun hj => absurd hj List.not_mem_nil, fun hj => ?_⟩⟩
      · rw [h.leaf i hi h0]
        exact .nil
      · exact absurd hj.2 (h.parentOf_ne hi h0 j)

end Moonlight
